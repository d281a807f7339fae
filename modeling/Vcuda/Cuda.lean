import Mathlib.Logic.Basic

/-!
# The part of the CUDA driver API the controller looks at

Types of `cuda-subset.h`: result codes, array formats and descriptors, and the calls the controller
intercepts. A handle is what the driver stores in the application's variable; `CUdeviceptr`,
`CUarray` and `CUmipmappedArray` are all eight bytes wide, so one type serves for the three
instances of the templates in `resource.cxx`.
-/

namespace Vcuda

/-- A host address (`void *`); `0` is the null pointer. -/
abbrev Ptr := UInt64

/-- The contents of a handle variable: a `CUdeviceptr`, `CUarray` or `CUmipmappedArray`. -/
abbrev Handle := UInt64

/-- The memory of one process, as eight-byte loads see it. -/
abbrev HostMem := Ptr → Handle

/-- A memory in which every variable holds its own address. -/
def ownAddress : HostMem := fun p => p

inductive CUresult where
  | CUDA_SUCCESS
  | CUDA_ERROR_INVALID_VALUE
  | CUDA_ERROR_OUT_OF_MEMORY
  | CUDA_ERROR_NOT_INITIALIZED
  | CUDA_ERROR_DEINITIALIZED
  | CUDA_ERROR_PROFILER_DISABLED
  | CUDA_ERROR_PROFILER_NOT_INITIALIZED
  | CUDA_ERROR_PROFILER_ALREADY_STARTED
  | CUDA_ERROR_PROFILER_ALREADY_STOPPED
  | CUDA_ERROR_NO_DEVICE
  | CUDA_ERROR_INVALID_DEVICE
  | CUDA_ERROR_INVALID_IMAGE
  | CUDA_ERROR_INVALID_CONTEXT
  | CUDA_ERROR_CONTEXT_ALREADY_CURRENT
  | CUDA_ERROR_MAP_FAILED
  | CUDA_ERROR_UNMAP_FAILED
  | CUDA_ERROR_ARRAY_IS_MAPPED
  | CUDA_ERROR_ALREADY_MAPPED
  | CUDA_ERROR_NO_BINARY_FOR_GPU
  | CUDA_ERROR_ALREADY_ACQUIRED
  | CUDA_ERROR_NOT_MAPPED
  | CUDA_ERROR_NOT_MAPPED_AS_ARRAY
  | CUDA_ERROR_NOT_MAPPED_AS_POINTER
  | CUDA_ERROR_ECC_UNCORRECTABLE
  | CUDA_ERROR_UNSUPPORTED_LIMIT
  | CUDA_ERROR_CONTEXT_ALREADY_IN_USE
  | CUDA_ERROR_PEER_ACCESS_UNSUPPORTED
  | CUDA_ERROR_INVALID_PTX
  | CUDA_ERROR_INVALID_GRAPHICS_CONTEXT
  | CUDA_ERROR_NVLINK_UNCORRECTABLE
  | CUDA_ERROR_INVALID_SOURCE
  | CUDA_ERROR_FILE_NOT_FOUND
  | CUDA_ERROR_SHARED_OBJECT_SYMBOL_NOT_FOUND
  | CUDA_ERROR_SHARED_OBJECT_INIT_FAILED
  | CUDA_ERROR_OPERATING_SYSTEM
  | CUDA_ERROR_INVALID_HANDLE
  | CUDA_ERROR_NOT_FOUND
  | CUDA_ERROR_NOT_READY
  | CUDA_ERROR_ILLEGAL_ADDRESS
  | CUDA_ERROR_LAUNCH_OUT_OF_RESOURCES
  | CUDA_ERROR_LAUNCH_TIMEOUT
  | CUDA_ERROR_LAUNCH_INCOMPATIBLE_TEXTURING
  | CUDA_ERROR_PEER_ACCESS_ALREADY_ENABLED
  | CUDA_ERROR_PEER_ACCESS_NOT_ENABLED
  | CUDA_ERROR_PRIMARY_CONTEXT_ACTIVE
  | CUDA_ERROR_CONTEXT_IS_DESTROYED
  | CUDA_ERROR_ASSERT
  | CUDA_ERROR_TOO_MANY_PEERS
  | CUDA_ERROR_HOST_MEMORY_ALREADY_REGISTERED
  | CUDA_ERROR_HOST_MEMORY_NOT_REGISTERED
  | CUDA_ERROR_HARDWARE_STACK_ERROR
  | CUDA_ERROR_ILLEGAL_INSTRUCTION
  | CUDA_ERROR_MISALIGNED_ADDRESS
  | CUDA_ERROR_INVALID_ADDRESS_SPACE
  | CUDA_ERROR_INVALID_PC
  | CUDA_ERROR_LAUNCH_FAILED
  | CUDA_ERROR_NOT_PERMITTED
  | CUDA_ERROR_NOT_SUPPORTED
  | CUDA_ERROR_UNKNOWN
  deriving DecidableEq

/-- The formats, and the values a variable of the C enumeration may have besides. -/
inductive CUarrayFormat where
  | CU_AD_FORMAT_UNSIGNED_INT8
  | CU_AD_FORMAT_UNSIGNED_INT16
  | CU_AD_FORMAT_UNSIGNED_INT32
  | CU_AD_FORMAT_SIGNED_INT8
  | CU_AD_FORMAT_SIGNED_INT16
  | CU_AD_FORMAT_SIGNED_INT32
  | CU_AD_FORMAT_HALF
  | CU_AD_FORMAT_FLOAT
  | other (value : UInt32)
  deriving DecidableEq

structure CUDA_ARRAY_DESCRIPTOR where
  width : UInt64
  height : UInt64
  format : CUarrayFormat
  numChannels : UInt32
  deriving DecidableEq

structure CUDA_ARRAY3D_DESCRIPTOR where
  width : UInt64
  height : UInt64
  depth : UInt64
  format : CUarrayFormat
  numChannels : UInt32
  flags : UInt32
  deriving DecidableEq

/-- The hijacked calls that allocate or release memory, with their arguments. The controller hands
the driver the same call, so this is also what the driver sees. -/
inductive ApiCall where
  | cuMemAllocManaged (dptr : Ptr) (bytesize : UInt64) (flags : UInt32)
  | cuMemAlloc_v2 (dptr : Ptr) (bytesize : UInt64)
  | cuMemAlloc (dptr : Ptr) (bytesize : UInt64)
  | cuMemAllocPitch_v2 (dptr pPitch : Ptr) (widthInBytes height : UInt64)
      (elementSizeBytes : UInt32)
  | cuMemAllocPitch (dptr pPitch : Ptr) (widthInBytes height : UInt64) (elementSizeBytes : UInt32)
  | cuArrayCreate_v2 (pHandle : Ptr) (pAllocateArray : CUDA_ARRAY_DESCRIPTOR)
  | cuArrayCreate (pHandle : Ptr) (pAllocateArray : CUDA_ARRAY_DESCRIPTOR)
  | cuArray3DCreate_v2 (pHandle : Ptr) (pAllocateArray : CUDA_ARRAY3D_DESCRIPTOR)
  | cuArray3DCreate (pHandle : Ptr) (pAllocateArray : CUDA_ARRAY3D_DESCRIPTOR)
  | cuMipmappedArrayCreate (pHandle : Ptr) (pMipmappedArrayDesc : CUDA_ARRAY3D_DESCRIPTOR)
      (numMipmapLevels : UInt32)
  | cuMemFree_v2 (dptr : Handle)
  | cuMemFree (dptr : Handle)
  | cuArrayDestroy (hArray : Handle)
  | cuMipmappedArrayDestroy (hMipmappedArray : Handle)
  deriving DecidableEq

/-- What the driver answers: its result, and the caller's memory as the call left it. -/
structure Reply where
  result : CUresult
  mem : HostMem

end Vcuda
