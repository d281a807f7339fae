import Vcuda.Forward.Entries

/-!
# The pass-through entry points

`cuda_originals.c`: the functions that are not hijacked, each of which looks the driver's function
up and calls it. A `Wrapper` is one of them: its name and parameters, and the two things it writes
out, the function that it looks up and the arguments it passes.
-/

namespace Vcuda.Forward

/-- A parameter, by the kind of its type: an integer, an enumerator or a pointer; a structure; or a
`float`. -/
inductive Param where
  | int (name : String)
  | struct (name : String)
  | float (name : String)
  deriving DecidableEq

/-- An argument in a call: a parameter, or an entry point, which stands for its address. -/
inductive Arg where
  | param (name : String)
  | entry (e : Entry)
  deriving DecidableEq

instance : Coe String Param := ⟨.int⟩

instance : Coe String Arg := ⟨.param⟩

def Param.name : Param → String
  | .int name => name
  | .struct name => name
  | .float name => name

def Param.isFloat : Param → Bool
  | .float _ => true
  | _ => false

/-- `name(params) { return CUDA_ENTRY_CALL(cuda_library_entry, sym, args); }` -/
structure Wrapper where
  name : Entry
  params : List Param
  sym : Entry
  args : List Arg
  deriving DecidableEq

/-- The functions of `cuda_originals.c`, in its order. -/
def originals : List Wrapper := [
  ⟨.cuDeviceGet, ["device", "ordinal"], .cuDeviceGet, ["device", "ordinal"]⟩,
  ⟨.cuDeviceGetCount, ["count"], .cuDeviceGetCount, ["count"]⟩,
  ⟨.cuDeviceGetName, ["name", "len", "dev"], .cuDeviceGetName, ["name", "len", "dev"]⟩,
  ⟨.cuDeviceGetP2PAttribute, ["value", "attrib", "srcDevice", "dstDevice"],
    .cuDeviceGetP2PAttribute, ["value", "attrib", "srcDevice", "dstDevice"]⟩,
  ⟨.cuDeviceGetByPCIBusId, ["dev", "pciBusId"], .cuDeviceGetByPCIBusId, ["dev", "pciBusId"]⟩,
  ⟨.cuDeviceGetPCIBusId, ["pciBusId", "len", "dev"],
    .cuDeviceGetPCIBusId, ["pciBusId", "len", "dev"]⟩,
  ⟨.cuDevicePrimaryCtxRetain, ["pctx", "dev"], .cuDevicePrimaryCtxRetain, ["pctx", "dev"]⟩,
  ⟨.cuDevicePrimaryCtxRelease, ["dev"], .cuDevicePrimaryCtxRelease, ["dev"]⟩,
  ⟨.cuDevicePrimaryCtxSetFlags, ["dev", "flags"], .cuDevicePrimaryCtxSetFlags, ["dev", "flags"]⟩,
  ⟨.cuDevicePrimaryCtxGetState, ["dev", "flags", "active"],
    .cuDevicePrimaryCtxGetState, ["dev", "flags", "active"]⟩,
  ⟨.cuDevicePrimaryCtxReset, ["dev"], .cuDevicePrimaryCtxReset, ["dev"]⟩,
  ⟨.cuCtxCreate_v2, ["pctx", "flags", "dev"], .cuCtxCreate_v2, ["pctx", "flags", "dev"]⟩,
  ⟨.cuCtxCreate, ["pctx", "flags", "dev"], .cuCtxCreate, ["pctx", "flags", "dev"]⟩,
  ⟨.cuCtxGetFlags, ["flags"], .cuCtxGetFlags, ["flags"]⟩,
  ⟨.cuCtxSetCurrent, ["ctx"], .cuCtxSetCurrent, ["ctx"]⟩,
  ⟨.cuCtxGetCurrent, ["pctx"], .cuCtxGetCurrent, ["pctx"]⟩,
  ⟨.cuCtxDetach, ["ctx"], .cuCtxDetach, ["ctx"]⟩,
  ⟨.cuCtxGetApiVersion, ["ctx", "version"], .cuCtxGetApiVersion, ["ctx", "version"]⟩,
  ⟨.cuCtxGetDevice, ["device"], .cuCtxGetDevice, ["device"]⟩,
  ⟨.cuCtxGetLimit, ["pvalue", "limit"], .cuCtxGetLimit, ["pvalue", "limit"]⟩,
  ⟨.cuCtxGetCacheConfig, ["pconfig"], .cuCtxGetCacheConfig, ["pconfig"]⟩,
  ⟨.cuCtxSetCacheConfig, ["config"], .cuCtxSetCacheConfig, ["config"]⟩,
  ⟨.cuCtxGetSharedMemConfig, ["pConfig"], .cuCtxGetSharedMemConfig, ["pConfig"]⟩,
  ⟨.cuCtxGetStreamPriorityRange, ["leastPriority", "greatestPriority"],
    .cuCtxGetStreamPriorityRange, ["leastPriority", "greatestPriority"]⟩,
  ⟨.cuCtxSetSharedMemConfig, ["config"], .cuCtxSetSharedMemConfig, ["config"]⟩,
  ⟨.cuCtxSynchronize, [], .cuCtxSynchronize, []⟩,
  ⟨.cuModuleUnload, ["hmod"], .cuModuleUnload, ["hmod"]⟩,
  ⟨.cuModuleGetFunction, ["hfunc", "hmod", "name"],
    .cuModuleGetFunction, ["hfunc", "hmod", "name"]⟩,
  ⟨.cuModuleGetGlobal_v2, ["dptr", "bytes", "hmod", "name"],
    .cuModuleGetGlobal_v2, ["dptr", "bytes", "hmod", "name"]⟩,
  ⟨.cuModuleGetGlobal, ["dptr", "bytes", "hmod", "name"],
    .cuModuleGetGlobal, ["dptr", "bytes", "hmod", "name"]⟩,
  ⟨.cuModuleGetTexRef, ["pTexRef", "hmod", "name"],
    .cuModuleGetTexRef, ["pTexRef", "hmod", "name"]⟩,
  ⟨.cuModuleGetSurfRef, ["pSurfRef", "hmod", "name"],
    .cuModuleGetSurfRef, ["pSurfRef", "hmod", "name"]⟩,
  ⟨.cuLinkCreate_v2, ["numOptions", "options", "optionValues", "stateOut"],
    .cuLinkCreate_v2, ["numOptions", "options", "optionValues", "stateOut"]⟩,
  ⟨.cuLinkCreate, ["numOptions", "options", "optionValues", "stateOut"],
    .cuLinkCreate, ["numOptions", "options", "optionValues", "stateOut"]⟩,
  ⟨.cuLinkAddData_v2, ["state", "type", "data", "size", "name", "numOptions", "options",
    "optionValues"],
    .cuLinkAddData_v2, ["state", "type", "data", "size", "name", "numOptions", "options",
      "optionValues"]⟩,
  ⟨.cuLinkAddData, ["state", "type", "data", "size", "name", "numOptions", "options",
    "optionValues"],
    .cuLinkAddData, ["state", "type", "data", "size", "name", "numOptions", "options",
      "optionValues"]⟩,
  ⟨.cuLinkAddFile_v2, ["state", "type", "path", "numOptions", "options", "optionValues"],
    .cuLinkAddFile_v2, ["state", "type", "path", "numOptions", "options", "optionValues"]⟩,
  ⟨.cuLinkAddFile, ["state", "type", "path", "numOptions", "options", "optionValues"],
    .cuLinkAddFile, ["state", "type", "path", "numOptions", "options", "optionValues"]⟩,
  ⟨.cuLinkComplete, ["state", "cubinOut", "sizeOut"],
    .cuLinkComplete, ["state", "cubinOut", "sizeOut"]⟩,
  ⟨.cuLinkDestroy, ["state"], .cuLinkDestroy, ["state"]⟩,
  ⟨.cuMemGetAddressRange_v2, ["pbase", "psize", "dptr"],
    .cuMemGetAddressRange_v2, ["pbase", "psize", "dptr"]⟩,
  ⟨.cuMemGetAddressRange, ["pbase", "psize", "dptr"],
    .cuMemGetAddressRange, ["pbase", "psize", "dptr"]⟩,
  ⟨.cuMemFreeHost, ["p"], .cuMemFreeHost, ["p"]⟩,
  ⟨.cuMemHostAlloc, ["pp", "bytesize", "Flags"], .cuMemHostAlloc, ["pp", "bytesize", "Flags"]⟩,
  ⟨.cuMemHostGetDevicePointer_v2, ["pdptr", "p", "Flags"],
    .cuMemHostGetDevicePointer_v2, ["pdptr", "p", "Flags"]⟩,
  ⟨.cuMemHostGetDevicePointer, ["pdptr", "p", "Flags"],
    .cuMemHostGetDevicePointer, ["pdptr", "p", "Flags"]⟩,
  ⟨.cuMemHostGetFlags, ["pFlags", "p"], .cuMemHostGetFlags, ["pFlags", "p"]⟩,
  ⟨.cuMemHostRegister_v2, ["p", "bytesize", "Flags"],
    .cuMemHostRegister_v2, ["p", "bytesize", "Flags"]⟩,
  ⟨.cuMemHostRegister, ["p", "bytesize", "Flags"], .cuMemHostRegister, ["p", "bytesize", "Flags"]⟩,
  ⟨.cuMemHostUnregister, ["p"], .cuMemHostUnregister, ["p"]⟩,
  ⟨.cuPointerGetAttribute, ["data", "attribute", "ptr"],
    .cuPointerGetAttribute, ["data", "attribute", "ptr"]⟩,
  ⟨.cuPointerGetAttributes, ["numAttributes", "attributes", "data", "ptr"],
    .cuPointerGetAttributes, ["numAttributes", "attributes", "data", "ptr"]⟩,
  ⟨.cuMemcpy_ptds, ["dst", "src", "ByteCount"], .cuMemcpy_ptds, ["dst", "src", "ByteCount"]⟩,
  ⟨.cuMemcpy, ["dst", "src", "ByteCount"], .cuMemcpy, ["dst", "src", "ByteCount"]⟩,
  ⟨.cuMemcpyAsync_ptsz, ["dst", "src", "ByteCount", "hStream"],
    .cuMemcpyAsync_ptsz, ["dst", "src", "ByteCount", "hStream"]⟩,
  ⟨.cuMemcpyAsync, ["dst", "src", "ByteCount", "hStream"],
    .cuMemcpyAsync, ["dst", "src", "ByteCount", "hStream"]⟩,
  ⟨.cuMemcpyPeer_ptds, ["dstDevice", "dstContext", "srcDevice", "srcContext", "ByteCount"],
    .cuMemcpyPeer_ptds, ["dstDevice", "dstContext", "srcDevice", "srcContext", "ByteCount"]⟩,
  ⟨.cuMemcpyPeer, ["dstDevice", "dstContext", "srcDevice", "srcContext", "ByteCount"],
    .cuMemcpyPeer, ["dstDevice", "dstContext", "srcDevice", "srcContext", "ByteCount"]⟩,
  ⟨.cuMemcpyPeerAsync_ptsz, ["dstDevice", "dstContext", "srcDevice", "srcContext", "ByteCount",
    "hStream"],
    .cuMemcpyPeerAsync_ptsz, ["dstDevice", "dstContext", "srcDevice", "srcContext", "ByteCount",
      "hStream"]⟩,
  ⟨.cuMemcpyPeerAsync, ["dstDevice", "dstContext", "srcDevice", "srcContext", "ByteCount",
    "hStream"],
    .cuMemcpyPeerAsync, ["dstDevice", "dstContext", "srcDevice", "srcContext", "ByteCount",
      "hStream"]⟩,
  ⟨.cuMemcpyHtoD_v2_ptds, ["dstDevice", "srcHost", "ByteCount"],
    .cuMemcpyHtoD_v2_ptds, ["dstDevice", "srcHost", "ByteCount"]⟩,
  ⟨.cuMemcpyHtoD_v2, ["dstDevice", "srcHost", "ByteCount"],
    .cuMemcpyHtoD_v2, ["dstDevice", "srcHost", "ByteCount"]⟩,
  ⟨.cuMemcpyHtoD, ["dstDevice", "srcHost", "ByteCount"],
    .cuMemcpyHtoD, ["dstDevice", "srcHost", "ByteCount"]⟩,
  ⟨.cuMemcpyHtoDAsync_v2_ptsz, ["dstDevice", "srcHost", "ByteCount", "hStream"],
    .cuMemcpyHtoDAsync_v2_ptsz, ["dstDevice", "srcHost", "ByteCount", "hStream"]⟩,
  ⟨.cuMemcpyHtoDAsync_v2, ["dstDevice", "srcHost", "ByteCount", "hStream"],
    .cuMemcpyHtoDAsync_v2, ["dstDevice", "srcHost", "ByteCount", "hStream"]⟩,
  ⟨.cuMemcpyHtoDAsync, ["dstDevice", "srcHost", "ByteCount", "hStream"],
    .cuMemcpyHtoDAsync, ["dstDevice", "srcHost", "ByteCount", "hStream"]⟩,
  ⟨.cuMemcpyDtoH_v2_ptds, ["dstHost", "srcDevice", "ByteCount"],
    .cuMemcpyDtoH_v2_ptds, ["dstHost", "srcDevice", "ByteCount"]⟩,
  ⟨.cuMemcpyDtoH_v2, ["dstHost", "srcDevice", "ByteCount"],
    .cuMemcpyDtoH_v2, ["dstHost", "srcDevice", "ByteCount"]⟩,
  ⟨.cuMemcpyDtoH, ["dstHost", "srcDevice", "ByteCount"],
    .cuMemcpyDtoH, ["dstHost", "srcDevice", "ByteCount"]⟩,
  ⟨.cuMemcpyDtoHAsync_v2_ptsz, ["dstHost", "srcDevice", "ByteCount", "hStream"],
    .cuMemcpyDtoHAsync_v2_ptsz, ["dstHost", "srcDevice", "ByteCount", "hStream"]⟩,
  ⟨.cuMemcpyDtoHAsync_v2, ["dstHost", "srcDevice", "ByteCount", "hStream"],
    .cuMemcpyDtoHAsync_v2, ["dstHost", "srcDevice", "ByteCount", "hStream"]⟩,
  ⟨.cuMemcpyDtoHAsync, ["dstHost", "srcDevice", "ByteCount", "hStream"],
    .cuMemcpyDtoHAsync, ["dstHost", "srcDevice", "ByteCount", "hStream"]⟩,
  ⟨.cuMemcpyDtoD_v2_ptds, ["dstDevice", "srcDevice", "ByteCount"],
    .cuMemcpyDtoD_v2_ptds, ["dstDevice", "srcDevice", "ByteCount"]⟩,
  ⟨.cuMemcpyDtoD_v2, ["dstDevice", "srcDevice", "ByteCount"],
    .cuMemcpyDtoD_v2, ["dstDevice", "srcDevice", "ByteCount"]⟩,
  ⟨.cuMemcpyDtoD, ["dstDevice", "srcDevice", "ByteCount"],
    .cuMemcpyDtoD, ["dstDevice", "srcDevice", "ByteCount"]⟩,
  ⟨.cuMemcpyDtoDAsync_v2_ptsz, ["dstDevice", "srcDevice", "ByteCount", "hStream"],
    .cuMemcpyDtoDAsync_v2_ptsz, ["dstDevice", "srcDevice", "ByteCount", "hStream"]⟩,
  ⟨.cuMemcpyDtoDAsync_v2, ["dstDevice", "srcDevice", "ByteCount", "hStream"],
    .cuMemcpyDtoDAsync_v2, ["dstDevice", "srcDevice", "ByteCount", "hStream"]⟩,
  ⟨.cuMemcpyDtoDAsync, ["dstDevice", "srcDevice", "ByteCount", "hStream"],
    .cuMemcpyDtoDAsync, ["dstDevice", "srcDevice", "ByteCount", "hStream"]⟩,
  ⟨.cuMemcpy2DUnaligned_v2_ptds, ["pCopy"], .cuMemcpy2DUnaligned_v2_ptds, ["pCopy"]⟩,
  ⟨.cuMemcpy2DUnaligned_v2, ["pCopy"], .cuMemcpy2DUnaligned_v2, ["pCopy"]⟩,
  ⟨.cuMemcpy2DUnaligned, ["pCopy"], .cuMemcpy2DUnaligned, ["pCopy"]⟩,
  ⟨.cuMemcpy2DAsync_v2_ptsz, ["pCopy", "hStream"], .cuMemcpy2DAsync_v2_ptsz, ["pCopy", "hStream"]⟩,
  ⟨.cuMemcpy2DAsync_v2, ["pCopy", "hStream"], .cuMemcpy2DAsync_v2, ["pCopy", "hStream"]⟩,
  ⟨.cuMemcpy2DAsync, ["pCopy", "hStream"], .cuMemcpy2DAsync, ["pCopy", "hStream"]⟩,
  ⟨.cuMemcpy3D_v2_ptds, ["pCopy"], .cuMemcpy3D_v2_ptds, ["pCopy"]⟩,
  ⟨.cuMemcpy3D_v2, ["pCopy"], .cuMemcpy3D_v2, ["pCopy"]⟩,
  ⟨.cuMemcpy3D, ["pCopy"], .cuMemcpy3D, ["pCopy"]⟩,
  ⟨.cuMemcpy3DAsync_v2_ptsz, ["pCopy", "hStream"], .cuMemcpy3DAsync_v2_ptsz, ["pCopy", "hStream"]⟩,
  ⟨.cuMemcpy3DAsync_v2, ["pCopy", "hStream"], .cuMemcpy3DAsync_v2, ["pCopy", "hStream"]⟩,
  ⟨.cuMemcpy3DAsync, ["pCopy", "hStream"], .cuMemcpy3DAsync, ["pCopy", "hStream"]⟩,
  ⟨.cuMemcpy3DPeer_ptds, ["pCopy"], .cuMemcpy3DPeer_ptds, ["pCopy"]⟩,
  ⟨.cuMemcpy3DPeer, ["pCopy"], .cuMemcpy3DPeer, ["pCopy"]⟩,
  ⟨.cuMemcpy3DPeerAsync_ptsz, ["pCopy", "hStream"],
    .cuMemcpy3DPeerAsync_ptsz, ["pCopy", "hStream"]⟩,
  ⟨.cuMemcpy3DPeerAsync, ["pCopy", "hStream"], .cuMemcpy3DPeerAsync, ["pCopy", "hStream"]⟩,
  ⟨.cuMemsetD8_v2_ptds, ["dstDevice", "uc", "N"], .cuMemsetD8_v2_ptds, ["dstDevice", "uc", "N"]⟩,
  ⟨.cuMemsetD8_v2, ["dstDevice", "uc", "N"], .cuMemsetD8_v2, ["dstDevice", "uc", "N"]⟩,
  ⟨.cuMemsetD8, ["dstDevice", "uc", "N"], .cuMemsetD8, ["dstDevice", "uc", "N"]⟩,
  ⟨.cuMemsetD8Async_ptsz, ["dstDevice", "uc", "N", "hStream"],
    .cuMemsetD8Async_ptsz, ["dstDevice", "uc", "N", "hStream"]⟩,
  ⟨.cuMemsetD8Async, ["dstDevice", "uc", "N", "hStream"],
    .cuMemsetD8Async, ["dstDevice", "uc", "N", "hStream"]⟩,
  ⟨.cuMemsetD2D8_v2_ptds, ["dstDevice", "dstPitch", "uc", "Width", "Height"],
    .cuMemsetD2D8_v2_ptds, ["dstDevice", "dstPitch", "uc", "Width", "Height"]⟩,
  ⟨.cuMemsetD2D8_v2, ["dstDevice", "dstPitch", "uc", "Width", "Height"],
    .cuMemsetD2D8_v2, ["dstDevice", "dstPitch", "uc", "Width", "Height"]⟩,
  ⟨.cuMemsetD2D8, ["dstDevice", "dstPitch", "uc", "Width", "Height"],
    .cuMemsetD2D8, ["dstDevice", "dstPitch", "uc", "Width", "Height"]⟩,
  ⟨.cuMemsetD2D8Async_ptsz, ["dstDevice", "dstPitch", "uc", "Width", "Height", "hStream"],
    .cuMemsetD2D8Async_ptsz, ["dstDevice", "dstPitch", "uc", "Width", "Height", "hStream"]⟩,
  ⟨.cuMemsetD2D8Async, ["dstDevice", "dstPitch", "uc", "Width", "Height", "hStream"],
    .cuMemsetD2D8Async, ["dstDevice", "dstPitch", "uc", "Width", "Height", "hStream"]⟩,
  ⟨.cuFuncSetCacheConfig, ["hfunc", "config"], .cuFuncSetCacheConfig, ["hfunc", "config"]⟩,
  ⟨.cuFuncSetSharedMemConfig, ["hfunc", "config"], .cuFuncSetSharedMemConfig, ["hfunc", "config"]⟩,
  ⟨.cuFuncGetAttribute, ["pi", "attrib", "hfunc"], .cuFuncGetAttribute, ["pi", "attrib", "hfunc"]⟩,
  ⟨.cuArrayGetDescriptor_v2, ["pArrayDescriptor", "hArray"],
    .cuArrayGetDescriptor_v2, ["pArrayDescriptor", "hArray"]⟩,
  ⟨.cuArrayGetDescriptor, ["pArrayDescriptor", "hArray"],
    .cuArrayGetDescriptor, ["pArrayDescriptor", "hArray"]⟩,
  ⟨.cuArray3DGetDescriptor_v2, ["pArrayDescriptor", "hArray"],
    .cuArray3DGetDescriptor_v2, ["pArrayDescriptor", "hArray"]⟩,
  ⟨.cuArray3DGetDescriptor, ["pArrayDescriptor", "hArray"],
    .cuArray3DGetDescriptor, ["pArrayDescriptor", "hArray"]⟩,
  ⟨.cuMipmappedArrayGetLevel, ["pLevelArray", "hMipmappedArray", "level"],
    .cuMipmappedArrayGetLevel, ["pLevelArray", "hMipmappedArray", "level"]⟩,
  ⟨.cuTexRefCreate, ["pTexRef"], .cuTexRefCreate, ["pTexRef"]⟩,
  ⟨.cuTexRefDestroy, ["hTexRef"], .cuTexRefDestroy, ["hTexRef"]⟩,
  ⟨.cuTexRefSetArray, ["hTexRef", "hArray", "Flags"],
    .cuTexRefSetArray, ["hTexRef", "hArray", "Flags"]⟩,
  ⟨.cuTexRefSetMipmappedArray, ["hTexRef", "hMipmappedArray", "Flags"],
    .cuTexRefSetMipmappedArray, ["hTexRef", "hMipmappedArray", "Flags"]⟩,
  ⟨.cuTexRefSetAddress_v2, ["ByteOffset", "hTexRef", "dptr", "bytes"],
    .cuTexRefSetAddress_v2, ["ByteOffset", "hTexRef", "dptr", "bytes"]⟩,
  ⟨.cuTexRefSetAddress2D_v3, ["hTexRef", "desc", "dptr", "Pitch"],
    .cuTexRefSetAddress2D_v3, ["hTexRef", "desc", "dptr", "Pitch"]⟩,
  ⟨.cuTexRefSetAddress2D_v2, ["hTexRef", "desc", "dptr", "Pitch"],
    .cuTexRefSetAddress2D_v2, ["hTexRef", "desc", "dptr", "Pitch"]⟩,
  ⟨.cuTexRefSetAddress2D, ["hTexRef", "desc", "dptr", "Pitch"],
    .cuTexRefSetAddress2D, ["hTexRef", "desc", "dptr", "Pitch"]⟩,
  ⟨.cuTexRefSetFormat, ["hTexRef", "fmt", "NumPackedComponents"],
    .cuTexRefSetFormat, ["hTexRef", "fmt", "NumPackedComponents"]⟩,
  ⟨.cuTexRefSetAddressMode, ["hTexRef", "dim", "am"],
    .cuTexRefSetAddressMode, ["hTexRef", "dim", "am"]⟩,
  ⟨.cuTexRefSetFilterMode, ["hTexRef", "fm"], .cuTexRefSetFilterMode, ["hTexRef", "fm"]⟩,
  ⟨.cuTexRefSetMipmapFilterMode, ["hTexRef", "fm"],
    .cuTexRefSetMipmapFilterMode, ["hTexRef", "fm"]⟩,
  ⟨.cuTexRefSetMipmapLevelBias, ["hTexRef", .float "bias"],
    .cuTexRefSetMipmapLevelBias, ["hTexRef", "bias"]⟩,
  ⟨.cuTexRefSetMipmapLevelClamp, ["hTexRef", .float "minMipmapLevelClamp", .float
    "maxMipmapLevelClamp"],
    .cuTexRefSetMipmapLevelClamp, ["hTexRef", "minMipmapLevelClamp", "maxMipmapLevelClamp"]⟩,
  ⟨.cuTexRefSetMaxAnisotropy, ["hTexRef", "maxAniso"],
    .cuTexRefSetMaxAnisotropy, ["hTexRef", "maxAniso"]⟩,
  ⟨.cuTexRefSetFlags, ["hTexRef", "Flags"], .cuTexRefSetFlags, ["hTexRef", "Flags"]⟩,
  ⟨.cuTexRefSetBorderColor, ["hTexRef", "pBorderColor"],
    .cuTexRefSetBorderColor, ["hTexRef", "pBorderColor"]⟩,
  ⟨.cuTexRefGetBorderColor, ["pBorderColor", "hTexRef"],
    .cuTexRefGetBorderColor, ["pBorderColor", "hTexRef"]⟩,
  ⟨.cuSurfRefSetArray, ["hSurfRef", "hArray", "Flags"],
    .cuSurfRefSetArray, ["hSurfRef", "hArray", "Flags"]⟩,
  ⟨.cuTexObjectCreate, ["pTexObject", "pResDesc", "pTexDesc", "pResViewDesc"],
    .cuTexObjectCreate, ["pTexObject", "pResDesc", "pTexDesc", "pResViewDesc"]⟩,
  ⟨.cuTexObjectDestroy, ["texObject"], .cuTexObjectDestroy, ["texObject"]⟩,
  ⟨.cuTexObjectGetResourceDesc, ["pResDesc", "texObject"],
    .cuTexObjectGetResourceDesc, ["pResDesc", "texObject"]⟩,
  ⟨.cuTexObjectGetTextureDesc, ["pTexDesc", "texObject"],
    .cuTexObjectGetTextureDesc, ["pTexDesc", "texObject"]⟩,
  ⟨.cuTexObjectGetResourceViewDesc, ["pResViewDesc", "texObject"],
    .cuTexObjectGetResourceViewDesc, ["pResViewDesc", "texObject"]⟩,
  ⟨.cuSurfObjectCreate, ["pSurfObject", "pResDesc"],
    .cuSurfObjectCreate, ["pSurfObject", "pResDesc"]⟩,
  ⟨.cuSurfObjectDestroy, ["surfObject"], .cuSurfObjectDestroy, ["surfObject"]⟩,
  ⟨.cuSurfObjectGetResourceDesc, ["pResDesc", "surfObject"],
    .cuSurfObjectGetResourceDesc, ["pResDesc", "surfObject"]⟩,
  ⟨.cuEventCreate, ["phEvent", "Flags"], .cuEventCreate, ["phEvent", "Flags"]⟩,
  ⟨.cuEventRecord, ["hEvent", "hStream"], .cuEventRecord, ["hEvent", "hStream"]⟩,
  ⟨.cuEventRecord_ptsz, ["hEvent", "hStream"], .cuEventRecord_ptsz, ["hEvent", "hStream"]⟩,
  ⟨.cuEventQuery, ["hEvent"], .cuEventQuery, ["hEvent"]⟩,
  ⟨.cuEventSynchronize, ["hEvent"], .cuEventSynchronize, ["hEvent"]⟩,
  ⟨.cuEventDestroy_v2, ["hEvent"], .cuEventDestroy_v2, ["hEvent"]⟩,
  ⟨.cuEventDestroy, ["hEvent"], .cuEventDestroy, ["hEvent"]⟩,
  ⟨.cuEventElapsedTime, ["pMilliseconds", "hStart", "hEnd"],
    .cuEventElapsedTime, ["pMilliseconds", "hStart", "hEnd"]⟩,
  ⟨.cuStreamWaitValue32, ["stream", "addr", "value", "flags"],
    .cuStreamWaitValue32, ["stream", "addr", "value", "flags"]⟩,
  ⟨.cuStreamWaitValue32_ptsz, ["stream", "addr", "value", "flags"],
    .cuStreamWaitValue32_ptsz, ["stream", "addr", "value", "flags"]⟩,
  ⟨.cuStreamWriteValue32, ["stream", "addr", "value", "flags"],
    .cuStreamWriteValue32, ["stream", "addr", "value", "flags"]⟩,
  ⟨.cuStreamWriteValue32_ptsz, ["stream", "addr", "value", "flags"],
    .cuStreamWriteValue32_ptsz, ["stream", "addr", "value", "flags"]⟩,
  ⟨.cuStreamBatchMemOp, ["stream", "count", "paramArray", "flags"],
    .cuStreamBatchMemOp, ["stream", "count", "paramArray", "flags"]⟩,
  ⟨.cuStreamBatchMemOp_ptsz, ["stream", "count", "paramArray", "flags"],
    .cuStreamBatchMemOp_ptsz, ["stream", "count", "paramArray", "flags"]⟩,
  ⟨.cuStreamCreate, ["phStream", "Flags"], .cuStreamCreate, ["phStream", "Flags"]⟩,
  ⟨.cuStreamCreateWithPriority, ["phStream", "flags", "priority"],
    .cuStreamCreateWithPriority, ["phStream", "flags", "priority"]⟩,
  ⟨.cuStreamGetPriority, ["hStream", "priority"], .cuStreamGetPriority, ["hStream", "priority"]⟩,
  ⟨.cuStreamGetPriority_ptsz, ["hStream", "priority"],
    .cuStreamGetPriority_ptsz, ["hStream", "priority"]⟩,
  ⟨.cuStreamGetFlags, ["hStream", "flags"], .cuStreamGetFlags, ["hStream", "flags"]⟩,
  ⟨.cuStreamGetFlags_ptsz, ["hStream", "flags"], .cuStreamGetFlags_ptsz, ["hStream", "flags"]⟩,
  ⟨.cuStreamDestroy_v2, ["hStream"], .cuStreamDestroy_v2, ["hStream"]⟩,
  ⟨.cuStreamDestroy, ["hStream"], .cuStreamDestroy, ["hStream"]⟩,
  ⟨.cuStreamWaitEvent, ["hStream", "hEvent", "Flags"],
    .cuStreamWaitEvent, ["hStream", "hEvent", "Flags"]⟩,
  ⟨.cuStreamWaitEvent_ptsz, ["hStream", "hEvent", "Flags"],
    .cuStreamWaitEvent_ptsz, ["hStream", "hEvent", "Flags"]⟩,
  ⟨.cuStreamAddCallback, ["hStream", "callback", "userData", "flags"],
    .cuStreamAddCallback, ["hStream", "callback", "userData", "flags"]⟩,
  ⟨.cuStreamAddCallback_ptsz, ["hStream", "callback", "userData", "flags"],
    .cuStreamAddCallback_ptsz, ["hStream", "callback", "userData", "flags"]⟩,
  ⟨.cuStreamSynchronize, ["hStream"], .cuStreamSynchronize, ["hStream"]⟩,
  ⟨.cuStreamSynchronize_ptsz, ["hStream"], .cuStreamSynchronize_ptsz, ["hStream"]⟩,
  ⟨.cuStreamQuery, ["hStream"], .cuStreamQuery, ["hStream"]⟩,
  ⟨.cuStreamQuery_ptsz, ["hStream"], .cuStreamQuery_ptsz, ["hStream"]⟩,
  ⟨.cuStreamAttachMemAsync, ["hStream", "dptr", "length", "flags"],
    .cuStreamAttachMemAsync, ["hStream", "dptr", "length", "flags"]⟩,
  ⟨.cuStreamAttachMemAsync_ptsz, ["hStream", "dptr", "length", "flags"],
    .cuStreamAttachMemAsync_ptsz, ["hStream", "dptr", "length", "flags"]⟩,
  ⟨.cuDeviceCanAccessPeer, ["canAccessPeer", "dev", "peerDev"],
    .cuDeviceCanAccessPeer, ["canAccessPeer", "dev", "peerDev"]⟩,
  ⟨.cuCtxEnablePeerAccess, ["peerContext", "Flags"],
    .cuCtxEnablePeerAccess, ["peerContext", "Flags"]⟩,
  ⟨.cuCtxDisablePeerAccess, ["peerContext"], .cuCtxDisablePeerAccess, ["peerContext"]⟩,
  ⟨.cuIpcGetEventHandle, ["pHandle", "event"], .cuIpcGetEventHandle, ["pHandle", "event"]⟩,
  ⟨.cuIpcOpenEventHandle, ["phEvent", .struct "handle"],
    .cuIpcOpenEventHandle, ["phEvent", "handle"]⟩,
  ⟨.cuIpcGetMemHandle, ["pHandle", "dptr"], .cuIpcGetMemHandle, ["pHandle", "dptr"]⟩,
  ⟨.cuIpcOpenMemHandle, ["pdptr", .struct "handle", "Flags"],
    .cuIpcOpenMemHandle, ["pdptr", "handle", "Flags"]⟩,
  ⟨.cuIpcCloseMemHandle, ["dptr"], .cuIpcCloseMemHandle, ["dptr"]⟩,
  ⟨.cuGLCtxCreate_v2, ["pCtx", "Flags", "device"], .cuGLCtxCreate_v2, ["pCtx", "Flags", "device"]⟩,
  ⟨.cuGLCtxCreate, ["pCtx", "Flags", "device"], .cuGLCtxCreate, ["pCtx", "Flags", "device"]⟩,
  ⟨.cuGLInit, [], .cuGLInit, []⟩,
  ⟨.cuGLGetDevices_v2, ["pCudaDeviceCount", "pCudaDevices", "cudaDeviceCount", "deviceList"],
    .cuGLGetDevices_v2, ["pCudaDeviceCount", "pCudaDevices", "cudaDeviceCount", "deviceList"]⟩,
  ⟨.cuGLGetDevices, ["pCudaDeviceCount", "pCudaDevices", "cudaDeviceCount", "deviceList"],
    .cuGLGetDevices, ["pCudaDeviceCount", "pCudaDevices", "cudaDeviceCount", "deviceList"]⟩,
  ⟨.cuGLRegisterBufferObject, ["buffer"], .cuGLRegisterBufferObject, ["buffer"]⟩,
  ⟨.cuGLMapBufferObject_v2_ptds, ["dptr", "size", "buffer"],
    .cuGLMapBufferObject_v2_ptds, ["dptr", "size", "buffer"]⟩,
  ⟨.cuGLMapBufferObject_v2, ["dptr", "size", "buffer"],
    .cuGLMapBufferObject_v2, ["dptr", "size", "buffer"]⟩,
  ⟨.cuGLMapBufferObject, ["dptr", "size", "buffer"],
    .cuGLMapBufferObject, ["dptr", "size", "buffer"]⟩,
  ⟨.cuGLMapBufferObjectAsync_v2_ptsz, ["dptr", "size", "buffer", "hStream"],
    .cuGLMapBufferObjectAsync_v2_ptsz, ["dptr", "size", "buffer", "hStream"]⟩,
  ⟨.cuGLMapBufferObjectAsync_v2, ["dptr", "size", "buffer", "hStream"],
    .cuGLMapBufferObjectAsync_v2, ["dptr", "size", "buffer", "hStream"]⟩,
  ⟨.cuGLMapBufferObjectAsync, ["dptr", "size", "buffer", "hStream"],
    .cuGLMapBufferObjectAsync, ["dptr", "size", "buffer", "hStream"]⟩,
  ⟨.cuGLUnmapBufferObject, ["buffer"], .cuGLUnmapBufferObject, ["buffer"]⟩,
  ⟨.cuGLUnmapBufferObjectAsync, ["buffer", "hStream"],
    .cuGLUnmapBufferObjectAsync, ["buffer", "hStream"]⟩,
  ⟨.cuGLUnregisterBufferObject, ["buffer"], .cuGLUnregisterBufferObject, ["buffer"]⟩,
  ⟨.cuGLSetBufferObjectMapFlags, ["buffer", "Flags"],
    .cuGLSetBufferObjectMapFlags, ["buffer", "Flags"]⟩,
  ⟨.cuGraphicsGLRegisterImage, ["pCudaResource", "image", "target", "Flags"],
    .cuGraphicsGLRegisterImage, ["pCudaResource", "image", "target", "Flags"]⟩,
  ⟨.cuGraphicsGLRegisterBuffer, ["pCudaResource", "buffer", "Flags"],
    .cuGraphicsGLRegisterBuffer, ["pCudaResource", "buffer", "Flags"]⟩,
  ⟨.cuGraphicsUnregisterResource, ["resource"], .cuGraphicsUnregisterResource, ["resource"]⟩,
  ⟨.cuGraphicsMapResources_ptsz, ["count", "resources", "hStream"],
    .cuGraphicsMapResources_ptsz, ["count", "resources", "hStream"]⟩,
  ⟨.cuGraphicsMapResources, ["count", "resources", "hStream"],
    .cuGraphicsMapResources, ["count", "resources", "hStream"]⟩,
  ⟨.cuGraphicsUnmapResources_ptsz, ["count", "resources", "hStream"],
    .cuGraphicsUnmapResources_ptsz, ["count", "resources", "hStream"]⟩,
  ⟨.cuGraphicsUnmapResources, ["count", "resources", "hStream"],
    .cuGraphicsUnmapResources, ["count", "resources", "hStream"]⟩,
  ⟨.cuGraphicsResourceSetMapFlags_v2, ["resource", "flags"],
    .cuGraphicsResourceSetMapFlags_v2, ["resource", "flags"]⟩,
  ⟨.cuGraphicsSubResourceGetMappedArray, ["pArray", "resource", "arrayIndex", "mipLevel"],
    .cuGraphicsSubResourceGetMappedArray, ["pArray", "resource", "arrayIndex", "mipLevel"]⟩,
  ⟨.cuGraphicsResourceGetMappedMipmappedArray, ["pMipmappedArray", "resource"],
    .cuGraphicsResourceGetMappedMipmappedArray, ["pMipmappedArray", "resource"]⟩,
  ⟨.cuGraphicsResourceGetMappedPointer_v2, ["pDevPtr", "pSize", "resource"],
    .cuGraphicsResourceGetMappedPointer_v2, ["pDevPtr", "pSize", "resource"]⟩,
  ⟨.cuProfilerInitialize, ["configFile", "outputFile", "outputMode"],
    .cuProfilerInitialize, ["configFile", "outputFile", "outputMode"]⟩,
  ⟨.cuProfilerStart, [], .cuProfilerStart, []⟩,
  ⟨.cuProfilerStop, [], .cuProfilerStop, []⟩,
  ⟨.cuVDPAUGetDevice, ["pDevice", "vdpDevice", "vdpGetProcAddress"],
    .cuVDPAUGetDevice, ["pDevice", "vdpDevice", "vdpGetProcAddress"]⟩,
  ⟨.cuVDPAUCtxCreate_v2, ["pCtx", "flags", "device", "vdpDevice", "vdpGetProcAddress"],
    .cuVDPAUCtxCreate_v2, ["pCtx", "flags", "device", "vdpDevice", "vdpGetProcAddress"]⟩,
  ⟨.cuVDPAUCtxCreate, ["pCtx", "flags", "device", "vdpDevice", "vdpGetProcAddress"],
    .cuVDPAUCtxCreate, ["pCtx", "flags", "device", "vdpDevice", "vdpGetProcAddress"]⟩,
  ⟨.cuGraphicsVDPAURegisterVideoSurface, ["pCudaResource", "vdpSurface", "flags"],
    .cuGraphicsVDPAURegisterVideoSurface, ["pCudaResource", "vdpSurface", "flags"]⟩,
  ⟨.cuGraphicsVDPAURegisterOutputSurface, ["pCudaResource", "vdpSurface", "flags"],
    .cuGraphicsVDPAURegisterOutputSurface, ["pCudaResource", "vdpSurface", "flags"]⟩,
  ⟨.cuGetExportTable, ["ppExportTable", "pExportTableId"],
    .cuGetExportTable, ["ppExportTable", "pExportTableId"]⟩,
  ⟨.cuOccupancyMaxActiveBlocksPerMultiprocessor, ["numBlocks", "func", "blockSize",
    "dynamicSMemSize"],
    .cuOccupancyMaxActiveBlocksPerMultiprocessor, ["numBlocks", "func", "blockSize",
      "dynamicSMemSize"]⟩,
  ⟨.cuMemAdvise, ["devPtr", "count", "advice", "device"],
    .cuMemAdvise, ["devPtr", "count", "advice", "device"]⟩,
  ⟨.cuMemPrefetchAsync_ptsz, ["devPtr", "count", "dstDevice", "hStream"],
    .cuMemPrefetchAsync_ptsz, ["devPtr", "count", "dstDevice", "hStream"]⟩,
  ⟨.cuMemPrefetchAsync, ["devPtr", "count", "dstDevice", "hStream"],
    .cuMemPrefetchAsync, ["devPtr", "count", "dstDevice", "hStream"]⟩,
  ⟨.cuMemRangeGetAttribute, ["data", "dataSize", "attribute", "devPtr", "count"],
    .cuMemRangeGetAttribute, ["data", "dataSize", "attribute", "devPtr", "count"]⟩,
  ⟨.cuMemRangeGetAttributes, ["data", "dataSizes", "attributes", "numAttributes", "devPtr",
    "count"],
    .cuMemRangeGetAttributes, ["data", "dataSizes", "attributes", "numAttributes", "devPtr",
      "count"]⟩,
  ⟨.cuCtxSetLimit, ["limit", "value"], .cuCtxSetLimit, ["limit", "value"]⟩,
  ⟨.cuModuleLoad, ["module", "fname"], .cuModuleLoad, ["module", "fname"]⟩,
  ⟨.cuModuleLoadData, ["module", "image"], .cuModuleLoadData, ["module", "image"]⟩,
  ⟨.cuModuleLoadFatBinary, ["module", "fatCubin"], .cuModuleLoadFatBinary, ["module", "fatCubin"]⟩,
  ⟨.cuGetErrorString, ["error", "pStr"], .cuGetErrorString, ["error", "pStr"]⟩,
  ⟨.cuGetErrorName, ["error", "pStr"], .cuGetErrorName, ["error", "pStr"]⟩,
  ⟨.cuCtxAttach, ["pctx", "flags"], .cuCtxAttach, ["pctx", "flags"]⟩,
  ⟨.cuCtxDestroy_v2, ["ctx"], .cuCtxDestroy_v2, ["ctx"]⟩,
  ⟨.cuCtxDestroy, ["ctx"], .cuCtxDestroy, ["ctx"]⟩,
  ⟨.cuCtxPopCurrent_v2, ["pctx"], .cuCtxPopCurrent_v2, ["pctx"]⟩,
  ⟨.cuCtxPopCurrent, ["pctx"], .cuCtxPopCurrent, ["pctx"]⟩,
  ⟨.cuCtxPushCurrent_v2, ["ctx"], .cuCtxPushCurrent_v2, ["ctx"]⟩,
  ⟨.cuCtxPushCurrent, ["ctx"], .cuCtxPushCurrent, ["ctx"]⟩,
  ⟨.cudbgApiInit, ["arg"], .cudbgApiInit, ["arg"]⟩,
  ⟨.cudbgApiAttach, [], .cudbgApiAttach, []⟩,
  ⟨.cudbgApiDetach, [], .cudbgApiDetach, []⟩,
  ⟨.cudbgGetAPI, ["major", "minor", "rev", "api"], .cudbgGetAPI, ["major", "minor", "rev", "api"]⟩,
  ⟨.cudbgGetAPIVersion, ["major", "minor", "rev"], .cudbgGetAPIVersion, ["major", "minor", "rev"]⟩,
  ⟨.cudbgMain, ["apiClientPid", "apiClientRevision", "sessionId", "attachState",
    "attachEventInitialized", "writeFd", "detachFd", "attachStubInUse",
    "enablePreemptionDebugging"],
    .cudbgMain, ["apiClientPid", "apiClientRevision", "sessionId", "attachState",
      "attachEventInitialized", "writeFd", "detachFd", "attachStubInUse",
      "enablePreemptionDebugging"]⟩,
  ⟨.cudbgReportDriverApiError, [], .cudbgReportDriverApiError, []⟩,
  ⟨.cudbgReportDriverInternalError, [], .cudbgReportDriverInternalError, []⟩,
  ⟨.cuDeviceComputeCapability, ["major", "minor", "dev"],
    .cuDeviceComputeCapability, ["major", "minor", "dev"]⟩,
  ⟨.cuDeviceGetProperties, ["prop", "dev"], .cuDeviceGetProperties, ["prop", "dev"]⟩,
  ⟨.cuEGLInit, [], .cuEGLInit, []⟩,
  ⟨.cuEGLApiInit, [], .cuEGLApiInit, []⟩,
  ⟨.cuEGLStreamConsumerAcquireFrame, ["conn", "pCudaResource", "pStream", "timeout"],
    .cuEGLStreamConsumerAcquireFrame, ["conn", "pCudaResource", "pStream", "timeout"]⟩,
  ⟨.cuEGLStreamConsumerConnect, ["conn", "stream"],
    .cuEGLStreamConsumerConnect, ["conn", "stream"]⟩,
  ⟨.cuEGLStreamConsumerConnectWithFlags, ["conn", "stream", "flags"],
    .cuEGLStreamConsumerConnectWithFlags, ["conn", "stream", "flags"]⟩,
  ⟨.cuEGLStreamConsumerDisconnect, ["conn"], .cuEGLStreamConsumerDisconnect, ["conn"]⟩,
  ⟨.cuEGLStreamConsumerReleaseFrame, ["conn", "pCudaResource", "pStream"],
    .cuEGLStreamConsumerReleaseFrame, ["conn", "pCudaResource", "pStream"]⟩,
  ⟨.cuEGLStreamProducerConnect, ["conn", "stream", "width", "height"],
    .cuEGLStreamProducerConnect, ["conn", "stream", "width", "height"]⟩,
  ⟨.cuEGLStreamProducerDisconnect, ["conn"], .cuEGLStreamProducerDisconnect, ["conn"]⟩,
  ⟨.cuEGLStreamProducerPresentFrame, ["conn", .struct "eglframe", "pStream"],
    .cuEGLStreamProducerPresentFrame, ["conn", "eglframe", "pStream"]⟩,
  ⟨.cuEGLStreamProducerReturnFrame, ["conn", "eglframe", "pStream"],
    .cuEGLStreamProducerReturnFrame, ["conn", "eglframe", "pStream"]⟩,
  ⟨.cuFuncSetAttribute, ["hfunc", "attrib", "value"],
    .cuFuncSetAttribute, ["hfunc", "attrib", "value"]⟩,
  ⟨.cuFuncSetSharedSize, ["hfunc", "bytes"], .cuFuncSetSharedSize, ["hfunc", "bytes"]⟩,
  ⟨.cuGraphicsEGLRegisterImage, ["pCudaResource", "image", "flags"],
    .cuGraphicsEGLRegisterImage, ["pCudaResource", "image", "flags"]⟩,
  ⟨.cuGraphicsResourceGetMappedEglFrame, ["eglFrame", "resource", "index", "mipLevel"],
    .cuGraphicsEGLRegisterImage, [.entry .cuGraphicsResourceGetMappedEglFrame, "eglFrame",
      "resource", "index", "mipLevel"]⟩,
  ⟨.cuGraphicsResourceGetMappedPointer, ["pDevPtr", "pSize", "resource"],
    .cuGraphicsResourceGetMappedPointer, ["pDevPtr", "pSize", "resource"]⟩,
  ⟨.cuGraphicsResourceSetMapFlags, ["resource", "flags"],
    .cuGraphicsResourceSetMapFlags, ["resource", "flags"]⟩,
  ⟨.cuLaunchCooperativeKernelMultiDevice, ["launchParamsList", "numDevices", "flags"],
    .cuLaunchCooperativeKernelMultiDevice, ["launchParamsList", "numDevices", "flags"]⟩,
  ⟨.cuMemAllocHost_v2, ["pp", "bytesize"], .cuMemAllocHost_v2, ["pp", "bytesize"]⟩,
  ⟨.cuMemAllocHost, ["pp", "bytesize"], .cuMemAllocHost, ["pp", "bytesize"]⟩,
  ⟨.cuMemcpy2D_v2, ["pCopy"], .cuMemcpy2D_v2, ["pCopy"]⟩,
  ⟨.cuMemcpy2D, ["pCopy"], .cuMemcpy2D, ["pCopy"]⟩,
  ⟨.cuMemcpyAtoA_v2_ptds, ["dstArray", "dstOffset", "srcArray", "srcOffset", "ByteCount"],
    .cuMemcpyAtoA_v2_ptds, ["dstArray", "dstOffset", "srcArray", "srcOffset", "ByteCount"]⟩,
  ⟨.cuMemcpyAtoA_v2, ["dstArray", "dstOffset", "srcArray", "srcOffset", "ByteCount"],
    .cuMemcpyAtoA_v2, ["dstArray", "dstOffset", "srcArray", "srcOffset", "ByteCount"]⟩,
  ⟨.cuMemcpyAtoA, ["dstArray", "dstOffset", "srcArray", "srcOffset", "ByteCount"],
    .cuMemcpyAtoA, ["dstArray", "dstOffset", "srcArray", "srcOffset", "ByteCount"]⟩,
  ⟨.cuMemcpyAtoD, ["dstDevice", "srcArray", "srcOffset", "ByteCount"],
    .cuMemcpyAtoD, ["dstDevice", "srcArray", "srcOffset", "ByteCount"]⟩,
  ⟨.cuMemcpyAtoD_v2, ["dstDevice", "srcArray", "srcOffset", "ByteCount"],
    .cuMemcpyAtoD_v2, ["dstDevice", "srcArray", "srcOffset", "ByteCount"]⟩,
  ⟨.cuMemcpyAtoD_v2_ptds, ["dstDevice", "srcArray", "srcOffset", "ByteCount"],
    .cuMemcpyAtoD_v2_ptds, ["dstDevice", "srcArray", "srcOffset", "ByteCount"]⟩,
  ⟨.cuMemcpyAtoH_v2_ptds, ["dstHost", "srcArray", "srcOffset", "ByteCount"],
    .cuMemcpyAtoH_v2_ptds, ["dstHost", "srcArray", "srcOffset", "ByteCount"]⟩,
  ⟨.cuMemcpyAtoH_v2, ["dstHost", "srcArray", "srcOffset", "ByteCount"],
    .cuMemcpyAtoH_v2, ["dstHost", "srcArray", "srcOffset", "ByteCount"]⟩,
  ⟨.cuMemcpyAtoH, ["dstHost", "srcArray", "srcOffset", "ByteCount"],
    .cuMemcpyAtoH, ["dstHost", "srcArray", "srcOffset", "ByteCount"]⟩,
  ⟨.cuMemcpyAtoHAsync_v2_ptsz, ["dstHost", "srcArray", "srcOffset", "ByteCount", "hStream"],
    .cuMemcpyAtoHAsync_v2_ptsz, ["dstHost", "srcArray", "srcOffset", "ByteCount", "hStream"]⟩,
  ⟨.cuMemcpyAtoHAsync_v2, ["dstHost", "srcArray", "srcOffset", "ByteCount", "hStream"],
    .cuMemcpyAtoHAsync_v2, ["dstHost", "srcArray", "srcOffset", "ByteCount", "hStream"]⟩,
  ⟨.cuMemcpyAtoHAsync, ["dstHost", "srcArray", "srcOffset", "ByteCount", "hStream"],
    .cuMemcpyAtoHAsync, ["dstHost", "srcArray", "srcOffset", "ByteCount", "hStream"]⟩,
  ⟨.cuMemcpyDtoA_v2_ptds, ["dstArray", "dstOffset", "srcDevice", "ByteCount"],
    .cuMemcpyDtoA_v2_ptds, ["dstArray", "dstOffset", "srcDevice", "ByteCount"]⟩,
  ⟨.cuMemcpyDtoA_v2, ["dstArray", "dstOffset", "srcDevice", "ByteCount"],
    .cuMemcpyDtoA_v2, ["dstArray", "dstOffset", "srcDevice", "ByteCount"]⟩,
  ⟨.cuMemcpyDtoA, ["dstArray", "dstOffset", "srcDevice", "ByteCount"],
    .cuMemcpyDtoA, ["dstArray", "dstOffset", "srcDevice", "ByteCount"]⟩,
  ⟨.cuMemcpyHtoA_v2_ptds, ["dstArray", "dstOffset", "srcHost", "ByteCount"],
    .cuMemcpyHtoA_v2_ptds, ["dstArray", "dstOffset", "srcHost", "ByteCount"]⟩,
  ⟨.cuMemcpyHtoA_v2, ["dstArray", "dstOffset", "srcHost", "ByteCount"],
    .cuMemcpyHtoA_v2, ["dstArray", "dstOffset", "srcHost", "ByteCount"]⟩,
  ⟨.cuMemcpyHtoA, ["dstArray", "dstOffset", "srcHost", "ByteCount"],
    .cuMemcpyHtoA, ["dstArray", "dstOffset", "srcHost", "ByteCount"]⟩,
  ⟨.cuMemcpyHtoAAsync_v2_ptsz, ["dstArray", "dstOffset", "srcHost", "ByteCount", "hStream"],
    .cuMemcpyHtoAAsync_v2_ptsz, ["dstArray", "dstOffset", "srcHost", "ByteCount", "hStream"]⟩,
  ⟨.cuMemcpyHtoAAsync_v2, ["dstArray", "dstOffset", "srcHost", "ByteCount", "hStream"],
    .cuMemcpyHtoAAsync_v2, ["dstArray", "dstOffset", "srcHost", "ByteCount", "hStream"]⟩,
  ⟨.cuMemcpyHtoAAsync, ["dstArray", "dstOffset", "srcHost", "ByteCount", "hStream"],
    .cuMemcpyHtoAAsync, ["dstArray", "dstOffset", "srcHost", "ByteCount", "hStream"]⟩,
  ⟨.cuMemsetD16_v2_ptds, ["dstDevice", "us", "N"], .cuMemsetD16_v2_ptds, ["dstDevice", "us", "N"]⟩,
  ⟨.cuMemsetD16_v2, ["dstDevice", "us", "N"], .cuMemsetD16_v2, ["dstDevice", "us", "N"]⟩,
  ⟨.cuMemsetD16, ["dstDevice", "us", "N"], .cuMemsetD16, ["dstDevice", "us", "N"]⟩,
  ⟨.cuMemsetD16Async_ptsz, ["dstDevice", "us", "N", "hStream"],
    .cuMemsetD16Async_ptsz, ["dstDevice", "us", "N", "hStream"]⟩,
  ⟨.cuMemsetD16Async, ["dstDevice", "us", "N", "hStream"],
    .cuMemsetD16Async, ["dstDevice", "us", "N", "hStream"]⟩,
  ⟨.cuMemsetD2D16_v2_ptds, ["dstDevice", "dstPitch", "us", "Width", "Height"],
    .cuMemsetD2D16_v2_ptds, ["dstDevice", "dstPitch", "us", "Width", "Height"]⟩,
  ⟨.cuMemsetD2D16_v2, ["dstDevice", "dstPitch", "us", "Width", "Height"],
    .cuMemsetD2D16_v2, ["dstDevice", "dstPitch", "us", "Width", "Height"]⟩,
  ⟨.cuMemsetD2D16, ["dstDevice", "dstPitch", "us", "Width", "Height"],
    .cuMemsetD2D16, ["dstDevice", "dstPitch", "us", "Width", "Height"]⟩,
  ⟨.cuMemsetD2D16Async_ptsz, ["dstDevice", "dstPitch", "us", "Width", "Height", "hStream"],
    .cuMemsetD2D16Async_ptsz, ["dstDevice", "dstPitch", "us", "Width", "Height", "hStream"]⟩,
  ⟨.cuMemsetD2D16Async, ["dstDevice", "dstPitch", "us", "Width", "Height", "hStream"],
    .cuMemsetD2D16Async, ["dstDevice", "dstPitch", "us", "Width", "Height", "hStream"]⟩,
  ⟨.cuMemsetD2D32_v2_ptds, ["dstDevice", "dstPitch", "ui", "Width", "Height"],
    .cuMemsetD2D32_v2_ptds, ["dstDevice", "dstPitch", "ui", "Width", "Height"]⟩,
  ⟨.cuMemsetD2D32_v2, ["dstDevice", "dstPitch", "ui", "Width", "Height"],
    .cuMemsetD2D32_v2, ["dstDevice", "dstPitch", "ui", "Width", "Height"]⟩,
  ⟨.cuMemsetD2D32, ["dstDevice", "dstPitch", "ui", "Width", "Height"],
    .cuMemsetD2D32, ["dstDevice", "dstPitch", "ui", "Width", "Height"]⟩,
  ⟨.cuMemsetD2D32Async_ptsz, ["dstDevice", "dstPitch", "ui", "Width", "Height", "hStream"],
    .cuMemsetD2D32Async_ptsz, ["dstDevice", "dstPitch", "ui", "Width", "Height", "hStream"]⟩,
  ⟨.cuMemsetD2D32Async, ["dstDevice", "dstPitch", "ui", "Width", "Height", "hStream"],
    .cuMemsetD2D32Async, ["dstDevice", "dstPitch", "ui", "Width", "Height", "hStream"]⟩,
  ⟨.cuMemsetD32_v2_ptds, ["dstDevice", "ui", "N"], .cuMemsetD32_v2_ptds, ["dstDevice", "ui", "N"]⟩,
  ⟨.cuMemsetD32_v2, ["dstDevice", "ui", "N"], .cuMemsetD32_v2, ["dstDevice", "ui", "N"]⟩,
  ⟨.cuMemsetD32, ["dstDevice", "ui", "N"], .cuMemsetD32, ["dstDevice", "ui", "N"]⟩,
  ⟨.cuMemsetD32Async_ptsz, ["dstDevice", "ui", "N", "hStream"],
    .cuMemsetD32Async_ptsz, ["dstDevice", "ui", "N", "hStream"]⟩,
  ⟨.cuMemsetD32Async, ["dstDevice", "ui", "N", "hStream"],
    .cuMemsetD32Async, ["dstDevice", "ui", "N", "hStream"]⟩,
  ⟨.cuModuleLoadDataEx, ["module", "image", "numOptions", "options", "optionValues"],
    .cuModuleLoadDataEx, ["module", "image", "numOptions", "options", "optionValues"]⟩,
  ⟨.cuOccupancyMaxActiveBlocksPerMultiprocessorWithFlags, ["numBlocks", "func", "blockSize",
    "dynamicSMemSize", "flags"],
    .cuOccupancyMaxActiveBlocksPerMultiprocessorWithFlags, ["numBlocks", "func", "blockSize",
      "dynamicSMemSize", "flags"]⟩,
  ⟨.cuOccupancyMaxPotentialBlockSize, ["minGridSize", "blockSize", "func",
    "blockSizeToDynamicSMemSize", "dynamicSMemSize", "blockSizeLimit"],
    .cuOccupancyMaxPotentialBlockSize, ["minGridSize", "blockSize", "func",
      "blockSizeToDynamicSMemSize", "dynamicSMemSize", "blockSizeLimit"]⟩,
  ⟨.cuOccupancyMaxPotentialBlockSizeWithFlags, ["minGridSize", "blockSize", "func",
    "blockSizeToDynamicSMemSize", "dynamicSMemSize", "blockSizeLimit", "flags"],
    .cuOccupancyMaxPotentialBlockSizeWithFlags, ["minGridSize", "blockSize", "func",
      "blockSizeToDynamicSMemSize", "dynamicSMemSize", "blockSizeLimit", "flags"]⟩,
  ⟨.cuParamSetf, ["hfunc", "offset", .float "value"], .cuParamSetf, ["hfunc", "offset", "value"]⟩,
  ⟨.cuParamSeti, ["hfunc", "offset", "value"], .cuParamSeti, ["hfunc", "offset", "value"]⟩,
  ⟨.cuParamSetSize, ["hfunc", "numbytes"], .cuParamSetSize, ["hfunc", "numbytes"]⟩,
  ⟨.cuParamSetTexRef, ["hfunc", "texunit", "hTexRef"],
    .cuParamSetTexRef, ["hfunc", "texunit", "hTexRef"]⟩,
  ⟨.cuParamSetv, ["hfunc", "offset", "ptr", "numbytes"],
    .cuParamSetv, ["hfunc", "offset", "ptr", "numbytes"]⟩,
  ⟨.cuPointerSetAttribute, ["value", "attribute", "ptr"],
    .cuPointerSetAttribute, ["value", "attribute", "ptr"]⟩,
  ⟨.cuStreamWaitValue64_ptsz, ["stream", "addr", "value", "flags"],
    .cuStreamWaitValue64_ptsz, ["stream", "addr", "value", "flags"]⟩,
  ⟨.cuStreamWaitValue64, ["stream", "addr", "value", "flags"],
    .cuStreamWaitValue64, ["stream", "addr", "value", "flags"]⟩,
  ⟨.cuStreamWriteValue64_ptsz, ["stream", "addr", "value", "flags"],
    .cuStreamWriteValue64_ptsz, ["stream", "addr", "value", "flags"]⟩,
  ⟨.cuStreamWriteValue64, ["stream", "addr", "value", "flags"],
    .cuStreamWriteValue64, ["stream", "addr", "value", "flags"]⟩,
  ⟨.cuSurfRefGetArray, ["phArray", "hSurfRef"], .cuSurfRefGetArray, ["phArray", "hSurfRef"]⟩,
  ⟨.cuTexRefGetAddress_v2, ["pdptr", "hTexRef"], .cuTexRefGetAddress_v2, ["pdptr", "hTexRef"]⟩,
  ⟨.cuTexRefGetAddress, ["pdptr", "hTexRef"], .cuTexRefGetAddress, ["pdptr", "hTexRef"]⟩,
  ⟨.cuTexRefGetAddressMode, ["pam", "hTexRef", "dim"],
    .cuTexRefGetAddressMode, ["pam", "hTexRef", "dim"]⟩,
  ⟨.cuTexRefGetArray, ["phArray", "hTexRef"], .cuTexRefGetArray, ["phArray", "hTexRef"]⟩,
  ⟨.cuTexRefGetFilterMode, ["pfm", "hTexRef"], .cuTexRefGetFilterMode, ["pfm", "hTexRef"]⟩,
  ⟨.cuTexRefGetFlags, ["pFlags", "hTexRef"], .cuTexRefGetFlags, ["pFlags", "hTexRef"]⟩,
  ⟨.cuTexRefGetFormat, ["pFormat", "pNumChannels", "hTexRef"],
    .cuTexRefGetFormat, ["pFormat", "pNumChannels", "hTexRef"]⟩,
  ⟨.cuTexRefGetMaxAnisotropy, ["pmaxAniso", "hTexRef"],
    .cuTexRefGetMaxAnisotropy, ["pmaxAniso", "hTexRef"]⟩,
  ⟨.cuTexRefGetMipmapFilterMode, ["pfm", "hTexRef"],
    .cuTexRefGetMipmapFilterMode, ["pfm", "hTexRef"]⟩,
  ⟨.cuTexRefGetMipmapLevelBias, ["pbias", "hTexRef"],
    .cuTexRefGetMipmapLevelBias, ["pbias", "hTexRef"]⟩,
  ⟨.cuTexRefGetMipmapLevelClamp, ["pminMipmapLevelClamp", "pmaxMipmapLevelClamp", "hTexRef"],
    .cuTexRefGetMipmapLevelClamp, ["pminMipmapLevelClamp", "pmaxMipmapLevelClamp", "hTexRef"]⟩,
  ⟨.cuTexRefGetMipmappedArray, ["phMipmappedArray", "hTexRef"],
    .cuTexRefGetMipmappedArray, ["phMipmappedArray", "hTexRef"]⟩,
  ⟨.cuTexRefSetAddress, ["ByteOffset", "hTexRef", "dptr", "bytes"],
    .cuTexRefSetAddress, ["ByteOffset", "hTexRef", "dptr", "bytes"]⟩,
  ⟨.cuDeviceGetAttribute, ["pi", "attrib", "dev"], .cuDeviceGetAttribute, ["pi", "attrib", "dev"]⟩,
  ⟨.cuDestroyExternalMemory, ["extMem"], .cuDestroyExternalMemory, ["extMem"]⟩,
  ⟨.cuDestroyExternalSemaphore, ["extSem"], .cuDestroyExternalSemaphore, ["extSem"]⟩,
  ⟨.cuDeviceGetUuid, ["uuid", "dev"], .cuDeviceGetUuid, ["uuid", "dev"]⟩,
  ⟨.cuExternalMemoryGetMappedBuffer, ["devPtr", "extMem", "bufferDesc"],
    .cuExternalMemoryGetMappedBuffer, ["devPtr", "extMem", "bufferDesc"]⟩,
  ⟨.cuExternalMemoryGetMappedMipmappedArray, ["mipmap", "extMem", "mipmapDesc"],
    .cuExternalMemoryGetMappedMipmappedArray, ["mipmap", "extMem", "mipmapDesc"]⟩,
  ⟨.cuGraphAddChildGraphNode, ["phGraphNode", "hGraph", "dependencies", "numDependencies",
    "childGraph"],
    .cuGraphAddChildGraphNode, ["phGraphNode", "hGraph", "dependencies", "numDependencies",
      "childGraph"]⟩,
  ⟨.cuGraphAddDependencies, ["hGraph", "from", "to", "numDependencies"],
    .cuGraphAddDependencies, ["hGraph", "from", "to", "numDependencies", "numDependencies"]⟩,
  ⟨.cuGraphAddEmptyNode, ["phGraphNode", "hGraph", "dependencies", "numDependencies"],
    .cuGraphAddEmptyNode, ["phGraphNode", "hGraph", "dependencies", "numDependencies"]⟩,
  ⟨.cuGraphAddHostNode, ["phGraphNode", "hGraph", "dependencies", "numDependencies", "nodeParams"],
    .cuGraphAddHostNode, ["phGraphNode", "hGraph", "dependencies", "numDependencies",
      "nodeParams"]⟩,
  ⟨.cuGraphAddKernelNode, ["phGraphNode", "hGraph", "dependencies", "numDependencies",
    "nodeParams"],
    .cuGraphAddKernelNode, ["phGraphNode", "hGraph", "dependencies", "numDependencies",
      "nodeParams"]⟩,
  ⟨.cuGraphAddMemcpyNode, ["phGraphNode", "hGraph", "dependencies", "numDependencies",
    "copyParams", "ctx"],
    .cuGraphAddMemcpyNode, ["phGraphNode", "hGraph", "dependencies", "numDependencies",
      "copyParams", "ctx"]⟩,
  ⟨.cuGraphAddMemsetNode, ["phGraphNode", "hGraph", "dependencies", "numDependencies",
    "memsetParams", "ctx"],
    .cuGraphAddMemsetNode, ["phGraphNode", "hGraph", "dependencies", "numDependencies",
      "memsetParams", "ctx"]⟩,
  ⟨.cuGraphChildGraphNodeGetGraph, ["hNode", "phGraph"],
    .cuGraphChildGraphNodeGetGraph, ["hNode", "phGraph"]⟩,
  ⟨.cuGraphClone, ["phGraphClone", "originalGraph"],
    .cuGraphClone, ["phGraphClone", "originalGraph"]⟩,
  ⟨.cuGraphCreate, ["phGraph", "flags"], .cuGraphCreate, ["phGraph", "flags"]⟩,
  ⟨.cuGraphDestroy, ["hGraph"], .cuGraphDestroy, ["hGraph"]⟩,
  ⟨.cuGraphDestroyNode, ["hNode"], .cuGraphDestroyNode, ["hNode"]⟩,
  ⟨.cuGraphExecDestroy, ["hGraphExec"], .cuGraphExecDestroy, ["hGraphExec"]⟩,
  ⟨.cuGraphGetEdges, ["hGraph", "from", "to", "numEdges"],
    .cuGraphGetEdges, ["hGraph", "from", "to", "numEdges"]⟩,
  ⟨.cuGraphGetNodes, ["hGraph", "nodes", "numNodes"],
    .cuGraphGetNodes, ["hGraph", "nodes", "numNodes"]⟩,
  ⟨.cuGraphGetRootNodes, ["hGraph", "rootNodes", "numRootNodes"],
    .cuGraphGetRootNodes, ["hGraph", "rootNodes", "numRootNodes"]⟩,
  ⟨.cuGraphHostNodeGetParams, ["hNode", "nodeParams"],
    .cuGraphHostNodeGetParams, ["hNode", "nodeParams"]⟩,
  ⟨.cuGraphHostNodeSetParams, ["hNode", "nodeParams"],
    .cuGraphHostNodeSetParams, ["hNode", "nodeParams"]⟩,
  ⟨.cuGraphInstantiate, ["phGraphExec", "hGraph", "phErrorNode", "logBuffer", "bufferSize"],
    .cuGraphInstantiate, ["phGraphExec", "hGraph", "phErrorNode", "logBuffer", "bufferSize"]⟩,
  ⟨.cuGraphKernelNodeGetParams, ["hNode", "nodeParams"],
    .cuGraphKernelNodeGetParams, ["hNode", "nodeParams"]⟩,
  ⟨.cuGraphKernelNodeSetParams, ["hNode", "nodeParams"],
    .cuGraphKernelNodeSetParams, ["hNode", "nodeParams"]⟩,
  ⟨.cuGraphLaunch, ["hGraphExec", "hStream"], .cuGraphLaunch, ["hGraphExec", "hStream"]⟩,
  ⟨.cuGraphLaunch_ptsz, ["hGraphExec", "hStream"], .cuGraphLaunch_ptsz, ["hGraphExec", "hStream"]⟩,
  ⟨.cuGraphMemcpyNodeGetParams, ["hNode", "nodeParams"],
    .cuGraphMemcpyNodeGetParams, ["hNode", "nodeParams"]⟩,
  ⟨.cuGraphMemcpyNodeSetParams, ["hNode", "nodeParams"],
    .cuGraphMemcpyNodeSetParams, ["hNode", "nodeParams"]⟩,
  ⟨.cuGraphMemsetNodeGetParams, ["hNode", "nodeParams"],
    .cuGraphMemsetNodeGetParams, ["hNode", "nodeParams"]⟩,
  ⟨.cuGraphMemsetNodeSetParams, ["hNode", "nodeParams"],
    .cuGraphMemsetNodeSetParams, ["hNode", "nodeParams"]⟩,
  ⟨.cuGraphNodeFindInClone, ["phNode", "hOriginalNode", "hClonedGraph"],
    .cuGraphNodeFindInClone, ["phNode", "hOriginalNode", "hClonedGraph"]⟩,
  ⟨.cuGraphNodeGetDependencies, ["hNode", "dependencies", "numDependencies"],
    .cuGraphNodeGetDependencies, ["hNode", "dependencies", "numDependencies"]⟩,
  ⟨.cuGraphNodeGetDependentNodes, ["hNode", "dependentNodes", "numDependentNodes"],
    .cuGraphNodeGetDependentNodes, ["hNode", "dependentNodes", "numDependentNodes"]⟩,
  ⟨.cuGraphNodeGetType, ["hNode", "type"], .cuGraphNodeGetType, ["hNode", "type"]⟩,
  ⟨.cuGraphRemoveDependencies, ["hGraph", "from", "to", "numDependencies"],
    .cuGraphRemoveDependencies, ["hGraph", "from", "to", "numDependencies"]⟩,
  ⟨.cuImportExternalMemory, ["extMem_out", "memHandleDesc"],
    .cuImportExternalMemory, ["extMem_out", "memHandleDesc"]⟩,
  ⟨.cuImportExternalSemaphore, ["extSem_out", "semHandleDesc"],
    .cuImportExternalSemaphore, ["extSem_out", "semHandleDesc"]⟩,
  ⟨.cuLaunchHostFunc, ["hStream", "fn", "userData"],
    .cuLaunchHostFunc, ["hStream", "fn", "userData"]⟩,
  ⟨.cuLaunchHostFunc_ptsz, ["hStream", "fn", "userData"],
    .cuLaunchHostFunc_ptsz, ["hStream", "fn", "userData"]⟩,
  ⟨.cuSignalExternalSemaphoresAsync, ["extSemArray", "paramsArray", "numExtSems", "stream"],
    .cuSignalExternalSemaphoresAsync, ["extSemArray", "paramsArray", "numExtSems", "stream"]⟩,
  ⟨.cuSignalExternalSemaphoresAsync_ptsz, ["extSemArray", "paramsArray", "numExtSems", "stream"],
    .cuSignalExternalSemaphoresAsync_ptsz, ["extSemArray", "paramsArray", "numExtSems", "stream"]⟩,
  ⟨.cuStreamBeginCapture, ["hStream", "mode"], .cuStreamBeginCapture, ["hStream", "mode"]⟩,
  ⟨.cuStreamBeginCapture_ptsz, ["hStream", "mode"],
    .cuStreamBeginCapture_ptsz, ["hStream", "mode"]⟩,
  ⟨.cuStreamEndCapture, ["hStream", "phGraph"], .cuStreamEndCapture, ["hStream", "phGraph"]⟩,
  ⟨.cuStreamEndCapture_ptsz, ["hStream", "phGraph"],
    .cuStreamEndCapture_ptsz, ["hStream", "phGraph"]⟩,
  ⟨.cuStreamGetCtx, ["hStream", "pctx"], .cuStreamGetCtx, ["hStream", "pctx"]⟩,
  ⟨.cuStreamGetCtx_ptsz, ["hStream", "pctx"], .cuStreamGetCtx_ptsz, ["hStream", "pctx"]⟩,
  ⟨.cuStreamIsCapturing, ["hStream", "captureStatus"],
    .cuStreamIsCapturing, ["hStream", "captureStatus"]⟩,
  ⟨.cuStreamIsCapturing_ptsz, ["hStream", "captureStatus"],
    .cuStreamIsCapturing_ptsz, ["hStream", "captureStatus"]⟩,
  ⟨.cuWaitExternalSemaphoresAsync, ["extSemArray", "paramsArray", "numExtSems", "stream"],
    .cuWaitExternalSemaphoresAsync, ["extSemArray", "paramsArray", "numExtSems", "stream"]⟩,
  ⟨.cuWaitExternalSemaphoresAsync_ptsz, ["extSemArray", "paramsArray", "numExtSems", "stream"],
    .cuWaitExternalSemaphoresAsync_ptsz, ["extSemArray", "paramsArray", "numExtSems", "stream"]⟩,
  ⟨.cuGraphExecKernelNodeSetParams, ["hGraphExec", "hNode", "nodeParams"],
    .cuGraphExecKernelNodeSetParams, ["hGraphExec", "hNode", "nodeParams"]⟩,
  ⟨.cuStreamBeginCapture_v2, ["hStream"], .cuStreamBeginCapture_v2, ["hStream"]⟩,
  ⟨.cuStreamBeginCapture_v2_ptsz, ["hStream"], .cuStreamBeginCapture_v2_ptsz, ["hStream"]⟩,
  ⟨.cuStreamGetCaptureInfo, ["hStream", "captureStatus", "id"],
    .cuStreamGetCaptureInfo, ["hStream", "captureStatus", "id"]⟩,
  ⟨.cuStreamGetCaptureInfo_ptsz, ["hStream", "captureStatus", "id"],
    .cuStreamGetCaptureInfo_ptsz, ["hStream", "captureStatus", "id"]⟩,
  ⟨.cuThreadExchangeStreamCaptureMode, ["mode"], .cuThreadExchangeStreamCaptureMode, ["mode"]⟩,
  ⟨.cuDeviceGetNvSciSyncAttributes, ["nvSciSyncAttrList", "dev", "flags"],
    .cuDeviceGetNvSciSyncAttributes, ["nvSciSyncAttrList", "dev", "flags"]⟩,
  ⟨.cuGraphExecHostNodeSetParams, ["hGraphExec", "hNode", "nodeParams"],
    .cuGraphExecHostNodeSetParams, ["hGraphExec", "hNode", "nodeParams"]⟩,
  ⟨.cuGraphExecMemcpyNodeSetParams, ["hGraphExec", "hNode", "copyParams", "ctx"],
    .cuGraphExecMemcpyNodeSetParams, ["hGraphExec", "hNode", "copyParams", "ctx"]⟩,
  ⟨.cuGraphExecMemsetNodeSetParams, ["hGraphExec", "hNode", "memsetParams", "ctx"],
    .cuGraphExecMemsetNodeSetParams, ["hGraphExec", "hNode", "memsetParams", "ctx"]⟩,
  ⟨.cuGraphExecUpdate, ["hGraphExec", "hGraph", "hErrorNode_out", "updateResult_out"],
    .cuGraphExecUpdate, ["hGraphExec", "hGraph", "hErrorNode_out", "updateResult_out"]⟩,
  ⟨.cuMemAddressFree, ["ptr", "size"], .cuMemAddressFree, ["ptr", "size"]⟩,
  ⟨.cuMemAddressReserve, ["ptr", "size", "alignment", "addr", "flags"],
    .cuMemAddressReserve, ["ptr", "size", "alignment", "addr", "flags"]⟩,
  ⟨.cuMemCreate, ["handle", "size", "prop", "flags"],
    .cuMemCreate, ["handle", "size", "prop", "flags"]⟩,
  ⟨.cuMemExportToShareableHandle, ["shareableHandle", "handle", "handleType", "flags"],
    .cuMemExportToShareableHandle, ["shareableHandle", "handle", "handleType", "flags"]⟩,
  ⟨.cuMemGetAccess, ["flags", "location", "ptr"], .cuMemGetAccess, ["flags", "location", "ptr"]⟩,
  ⟨.cuMemGetAllocationGranularity, ["granularity", "prop", "option"],
    .cuMemGetAllocationGranularity, ["granularity", "prop", "option"]⟩,
  ⟨.cuMemGetAllocationPropertiesFromHandle, ["prop", "handle"],
    .cuMemGetAllocationPropertiesFromHandle, ["prop", "handle"]⟩,
  ⟨.cuMemImportFromShareableHandle, ["handle", "osHandle", "shHandleType"],
    .cuMemImportFromShareableHandle, ["handle", "osHandle", "shHandleType"]⟩,
  ⟨.cuMemMap, ["ptr", "size", "offset", "handle", "flags"],
    .cuMemMap, ["ptr", "size", "offset", "handle", "flags"]⟩,
  ⟨.cuMemRelease, ["handle"], .cuMemRelease, ["handle"]⟩,
  ⟨.cuMemSetAccess, ["ptr", "size", "desc", "count"],
    .cuMemSetAccess, ["ptr", "size", "desc", "count"]⟩,
  ⟨.cuMemUnmap, ["ptr", "size"], .cuMemUnmap, ["ptr", "size"]⟩,
  ⟨.cuLaunchKernel_ptsz, ["f", "gridDimX", "gridDimY", "gridDimZ", "blockDimX", "blockDimY",
    "blockDimZ", "sharedMemBytes", "hStream", "kernelParams", "extra"],
    .cuLaunchKernel_ptsz, ["f", "gridDimX", "gridDimY", "gridDimZ", "blockDimX", "blockDimY",
      "blockDimZ", "sharedMemBytes", "hStream", "kernelParams", "extra"]⟩,
  ⟨.cuLaunchKernel, ["f", "gridDimX", "gridDimY", "gridDimZ", "blockDimX", "blockDimY",
    "blockDimZ", "sharedMemBytes", "hStream", "kernelParams", "extra"],
    .cuLaunchKernel, ["f", "gridDimX", "gridDimY", "gridDimZ", "blockDimX", "blockDimY",
      "blockDimZ", "sharedMemBytes", "hStream", "kernelParams", "extra"]⟩,
  ⟨.cuLaunch, ["f"], .cuLaunch, ["f"]⟩,
  ⟨.cuLaunchCooperativeKernel_ptsz, ["f", "gridDimX", "gridDimY", "gridDimZ", "blockDimX",
    "blockDimY", "blockDimZ", "sharedMemBytes", "hStream", "kernelParams"],
    .cuLaunchCooperativeKernel_ptsz, ["f", "gridDimX", "gridDimY", "gridDimZ", "blockDimX",
      "blockDimY", "blockDimZ", "sharedMemBytes", "hStream", "kernelParams"]⟩,
  ⟨.cuLaunchCooperativeKernel, ["f", "gridDimX", "gridDimY", "gridDimZ", "blockDimX", "blockDimY",
    "blockDimZ", "sharedMemBytes", "hStream", "kernelParams"],
    .cuLaunchCooperativeKernel, ["f", "gridDimX", "gridDimY", "gridDimZ", "blockDimX",
      "blockDimY", "blockDimZ", "sharedMemBytes", "hStream", "kernelParams"]⟩,
  ⟨.cuLaunchGrid, ["f", "grid_width", "grid_height"],
    .cuLaunchGrid, ["f", "grid_width", "grid_height"]⟩,
  ⟨.cuLaunchGridAsync, ["f", "grid_width", "grid_height", "hStream"],
    .cuLaunchGridAsync, ["f", "grid_width", "grid_height", "hStream"]⟩,
  ⟨.cuFuncSetBlockShape, ["hfunc", "x", "y", "z"], .cuFuncSetBlockShape, ["hfunc", "x", "y", "z"]⟩]

/-! ## The wrappers as they are written -/

/-- The call repeats the name and the parameters, and none of them is a `float`. -/
def Wrapper.Repeats (w : Wrapper) : Prop :=
  w.sym = w.name ∧ w.args = w.params.map (fun p => .param p.name) ∧
    (w.params.map Param.name).Nodup ∧ ∀ p ∈ w.params, p.isFloat = false

/-- The call has more or fewer arguments than there are parameters, or one of them is a `float`. -/
def Wrapper.Garbles (w : Wrapper) : Prop :=
  w.args.length ≠ w.params.length ∨ ∃ p ∈ w.params, p.isFloat = true

instance (w : Wrapper) : Decidable w.Repeats := inferInstanceAs (Decidable (_ ∧ _ ∧ _ ∧ _))

instance (w : Wrapper) : Decidable w.Garbles := inferInstanceAs (Decidable (_ ∨ _))

/-- The entry points that do not hand their arguments on: one calls another function with an
argument too many, one passes an argument twice, and three have a `float`, which arrives as a
`double` because the function pointers have no prototype. -/
def misforwarded : List Entry :=
  [.cuGraphicsResourceGetMappedEglFrame, .cuGraphAddDependencies, .cuTexRefSetMipmapLevelBias,
    .cuTexRefSetMipmapLevelClamp, .cuParamSetf]

/-- **Every wrapper but those repeats its name and its parameters.** -/
theorem originals_repeat : ∀ w ∈ originals,
    if w.name ∈ misforwarded then w.Garbles else w.Repeats := by
  decide +kernel

end Vcuda.Forward
