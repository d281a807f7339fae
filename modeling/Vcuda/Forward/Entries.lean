import Mathlib.Data.List.Basic

/-!
# The functions of the driver

`cuda_entry_enum_t` numbers the functions, and the name table of `loader.c` lists their names for
`dlsym`. The two lists are kept by hand; the build only checks that they are as long as each other.
They agree at every position (`name_at_ctorIdx`).
-/

namespace Vcuda.Forward

/-- `cuda_entry_enum_t`, in its order. `CUDA_ENTRY_ENUM` makes an enumerator out of a function's
name, so the constructors are the names, too. -/
inductive Entry where
  | cuInit | cuDeviceGet | cuDeviceGetCount | cuDeviceGetName | cuDeviceTotalMem_v2
  | cuDeviceGetAttribute | cuDeviceGetP2PAttribute | cuDriverGetVersion | cuDeviceGetByPCIBusId
  | cuDeviceGetPCIBusId | cuDevicePrimaryCtxRetain | cuDevicePrimaryCtxRelease
  | cuDevicePrimaryCtxSetFlags | cuDevicePrimaryCtxGetState | cuDevicePrimaryCtxReset
  | cuCtxCreate_v2 | cuCtxGetFlags | cuCtxSetCurrent | cuCtxGetCurrent | cuCtxDetach
  | cuCtxGetApiVersion | cuCtxGetDevice | cuCtxGetLimit | cuCtxSetLimit | cuCtxGetCacheConfig
  | cuCtxSetCacheConfig | cuCtxGetSharedMemConfig | cuCtxGetStreamPriorityRange
  | cuCtxSetSharedMemConfig | cuCtxSynchronize | cuModuleLoad | cuModuleLoadData
  | cuModuleLoadFatBinary | cuModuleUnload | cuModuleGetFunction | cuModuleGetGlobal_v2
  | cuModuleGetTexRef | cuModuleGetSurfRef | cuLinkCreate | cuLinkAddData | cuLinkAddFile
  | cuLinkComplete | cuLinkDestroy | cuMemGetInfo_v2 | cuMemAllocManaged | cuMemAlloc_v2
  | cuMemAllocPitch_v2 | cuMemFree_v2 | cuMemGetAddressRange_v2 | cuMemFreeHost | cuMemHostAlloc
  | cuMemHostGetDevicePointer_v2 | cuMemHostGetFlags | cuMemHostRegister_v2 | cuMemHostUnregister
  | cuPointerGetAttribute | cuPointerGetAttributes | cuMemcpy | cuMemcpy_ptds | cuMemcpyAsync
  | cuMemcpyAsync_ptsz | cuMemcpyPeer | cuMemcpyPeer_ptds | cuMemcpyPeerAsync
  | cuMemcpyPeerAsync_ptsz | cuMemcpyHtoD_v2 | cuMemcpyHtoD_v2_ptds | cuMemcpyHtoDAsync_v2
  | cuMemcpyHtoDAsync_v2_ptsz | cuMemcpyDtoH_v2 | cuMemcpyDtoH_v2_ptds | cuMemcpyDtoHAsync_v2
  | cuMemcpyDtoHAsync_v2_ptsz | cuMemcpyDtoD_v2 | cuMemcpyDtoD_v2_ptds | cuMemcpyDtoDAsync_v2
  | cuMemcpyDtoDAsync_v2_ptsz | cuMemcpy2DUnaligned_v2 | cuMemcpy2DUnaligned_v2_ptds
  | cuMemcpy2DAsync_v2 | cuMemcpy2DAsync_v2_ptsz | cuMemcpy3D_v2 | cuMemcpy3D_v2_ptds
  | cuMemcpy3DAsync_v2 | cuMemcpy3DAsync_v2_ptsz | cuMemcpy3DPeer | cuMemcpy3DPeer_ptds
  | cuMemcpy3DPeerAsync | cuMemcpy3DPeerAsync_ptsz | cuMemsetD8_v2 | cuMemsetD8_v2_ptds
  | cuMemsetD8Async | cuMemsetD8Async_ptsz | cuMemsetD2D8_v2 | cuMemsetD2D8_v2_ptds
  | cuMemsetD2D8Async | cuMemsetD2D8Async_ptsz | cuFuncSetCacheConfig | cuFuncSetSharedMemConfig
  | cuFuncGetAttribute | cuArrayCreate_v2 | cuArrayGetDescriptor_v2 | cuArray3DCreate_v2
  | cuArray3DGetDescriptor_v2 | cuArrayDestroy | cuMipmappedArrayCreate | cuMipmappedArrayGetLevel
  | cuMipmappedArrayDestroy | cuTexRefCreate | cuTexRefDestroy | cuTexRefSetArray
  | cuTexRefSetMipmappedArray | cuTexRefSetAddress_v2 | cuTexRefSetAddress2D_v3 | cuTexRefSetFormat
  | cuTexRefSetAddressMode | cuTexRefSetFilterMode | cuTexRefSetMipmapFilterMode
  | cuTexRefSetMipmapLevelBias | cuTexRefSetMipmapLevelClamp | cuTexRefSetMaxAnisotropy
  | cuTexRefSetFlags | cuTexRefSetBorderColor | cuTexRefGetBorderColor | cuSurfRefSetArray
  | cuTexObjectCreate | cuTexObjectDestroy | cuTexObjectGetResourceDesc | cuTexObjectGetTextureDesc
  | cuTexObjectGetResourceViewDesc | cuSurfObjectCreate | cuSurfObjectDestroy
  | cuSurfObjectGetResourceDesc | cuLaunchKernel | cuLaunchKernel_ptsz | cuEventCreate
  | cuEventRecord | cuEventRecord_ptsz | cuEventQuery | cuEventSynchronize | cuEventDestroy_v2
  | cuEventElapsedTime | cuStreamWaitValue32 | cuStreamWaitValue32_ptsz | cuStreamWriteValue32
  | cuStreamWriteValue32_ptsz | cuStreamBatchMemOp | cuStreamBatchMemOp_ptsz | cuStreamCreate
  | cuStreamCreateWithPriority | cuStreamGetPriority | cuStreamGetPriority_ptsz | cuStreamGetFlags
  | cuStreamGetFlags_ptsz | cuStreamDestroy_v2 | cuStreamWaitEvent | cuStreamWaitEvent_ptsz
  | cuStreamAddCallback | cuStreamAddCallback_ptsz | cuStreamSynchronize | cuStreamSynchronize_ptsz
  | cuStreamQuery | cuStreamQuery_ptsz | cuStreamAttachMemAsync | cuStreamAttachMemAsync_ptsz
  | cuDeviceCanAccessPeer | cuCtxEnablePeerAccess | cuCtxDisablePeerAccess | cuIpcGetEventHandle
  | cuIpcOpenEventHandle | cuIpcGetMemHandle | cuIpcOpenMemHandle | cuIpcCloseMemHandle
  | cuGLCtxCreate_v2 | cuGLInit | cuGLGetDevices | cuGLRegisterBufferObject
  | cuGLMapBufferObject_v2 | cuGLMapBufferObject_v2_ptds | cuGLMapBufferObjectAsync_v2
  | cuGLMapBufferObjectAsync_v2_ptsz | cuGLUnmapBufferObject | cuGLUnmapBufferObjectAsync
  | cuGLUnregisterBufferObject | cuGLSetBufferObjectMapFlags | cuGraphicsGLRegisterImage
  | cuGraphicsGLRegisterBuffer | cuGraphicsUnregisterResource | cuGraphicsMapResources
  | cuGraphicsMapResources_ptsz | cuGraphicsUnmapResources | cuGraphicsUnmapResources_ptsz
  | cuGraphicsResourceSetMapFlags_v2 | cuGraphicsSubResourceGetMappedArray
  | cuGraphicsResourceGetMappedMipmappedArray | cuGraphicsResourceGetMappedPointer_v2
  | cuProfilerInitialize | cuProfilerStart | cuProfilerStop | cuVDPAUGetDevice
  | cuVDPAUCtxCreate_v2 | cuGraphicsVDPAURegisterVideoSurface
  | cuGraphicsVDPAURegisterOutputSurface | cuGetExportTable
  | cuOccupancyMaxActiveBlocksPerMultiprocessor | cuMemAdvise | cuMemPrefetchAsync
  | cuMemPrefetchAsync_ptsz | cuMemRangeGetAttribute | cuMemRangeGetAttributes | cuGetErrorString
  | cuGetErrorName | cuArray3DCreate | cuArray3DGetDescriptor | cuArrayCreate
  | cuArrayGetDescriptor | cuCtxAttach | cuCtxCreate | cuCtxDestroy | cuCtxDestroy_v2
  | cuCtxPopCurrent | cuCtxPopCurrent_v2 | cuCtxPushCurrent | cuCtxPushCurrent_v2 | cudbgApiAttach
  | cudbgApiDetach | cudbgApiInit | cudbgGetAPI | cudbgGetAPIVersion | cudbgMain
  | cudbgReportDriverApiError | cudbgReportDriverInternalError | cuDeviceComputeCapability
  | cuDeviceGetProperties | cuDeviceTotalMem | cuEGLInit | cuEGLStreamConsumerAcquireFrame
  | cuEGLStreamConsumerConnect | cuEGLStreamConsumerConnectWithFlags
  | cuEGLStreamConsumerDisconnect | cuEGLStreamConsumerReleaseFrame | cuEGLStreamProducerConnect
  | cuEGLStreamProducerDisconnect | cuEGLStreamProducerPresentFrame
  | cuEGLStreamProducerReturnFrame | cuEventDestroy | cuFuncSetAttribute | cuFuncSetBlockShape
  | cuFuncSetSharedSize | cuGLCtxCreate | cuGLGetDevices_v2 | cuGLMapBufferObject
  | cuGLMapBufferObjectAsync | cuGraphicsEGLRegisterImage | cuGraphicsResourceGetMappedEglFrame
  | cuGraphicsResourceGetMappedPointer | cuGraphicsResourceSetMapFlags | cuLaunch
  | cuLaunchCooperativeKernel | cuLaunchCooperativeKernelMultiDevice
  | cuLaunchCooperativeKernel_ptsz | cuLaunchGrid | cuLaunchGridAsync | cuLinkAddData_v2
  | cuLinkAddFile_v2 | cuLinkCreate_v2 | cuMemAlloc | cuMemAllocHost | cuMemAllocHost_v2
  | cuMemAllocPitch | cuMemcpy2D | cuMemcpy2DAsync | cuMemcpy2DUnaligned | cuMemcpy2D_v2
  | cuMemcpy2D_v2_ptds | cuMemcpy3D | cuMemcpy3DAsync | cuMemcpyAtoA | cuMemcpyAtoA_v2
  | cuMemcpyAtoA_v2_ptds | cuMemcpyAtoD | cuMemcpyAtoD_v2 | cuMemcpyAtoD_v2_ptds | cuMemcpyAtoH
  | cuMemcpyAtoHAsync | cuMemcpyAtoHAsync_v2 | cuMemcpyAtoHAsync_v2_ptsz | cuMemcpyAtoH_v2
  | cuMemcpyAtoH_v2_ptds | cuMemcpyDtoA | cuMemcpyDtoA_v2 | cuMemcpyDtoA_v2_ptds | cuMemcpyDtoD
  | cuMemcpyDtoDAsync | cuMemcpyDtoH | cuMemcpyDtoHAsync | cuMemcpyHtoA | cuMemcpyHtoAAsync
  | cuMemcpyHtoAAsync_v2 | cuMemcpyHtoAAsync_v2_ptsz | cuMemcpyHtoA_v2 | cuMemcpyHtoA_v2_ptds
  | cuMemcpyHtoD | cuMemcpyHtoDAsync | cuMemFree | cuMemGetAddressRange | cuMemGetInfo
  | cuMemHostGetDevicePointer | cuMemHostRegister | cuMemsetD16 | cuMemsetD16Async
  | cuMemsetD16Async_ptsz | cuMemsetD16_v2 | cuMemsetD16_v2_ptds | cuMemsetD2D16
  | cuMemsetD2D16Async | cuMemsetD2D16Async_ptsz | cuMemsetD2D16_v2 | cuMemsetD2D16_v2_ptds
  | cuMemsetD2D32 | cuMemsetD2D32Async | cuMemsetD2D32Async_ptsz | cuMemsetD2D32_v2
  | cuMemsetD2D32_v2_ptds | cuMemsetD2D8 | cuMemsetD32 | cuMemsetD32Async | cuMemsetD32Async_ptsz
  | cuMemsetD32_v2 | cuMemsetD32_v2_ptds | cuMemsetD8 | cuModuleGetGlobal | cuModuleLoadDataEx
  | cuOccupancyMaxActiveBlocksPerMultiprocessorWithFlags | cuOccupancyMaxPotentialBlockSize
  | cuOccupancyMaxPotentialBlockSizeWithFlags | cuParamSetf | cuParamSeti | cuParamSetSize
  | cuParamSetTexRef | cuParamSetv | cuPointerSetAttribute | cuStreamDestroy | cuStreamWaitValue64
  | cuStreamWaitValue64_ptsz | cuStreamWriteValue64 | cuStreamWriteValue64_ptsz | cuSurfRefGetArray
  | cuTexRefGetAddress | cuTexRefGetAddressMode | cuTexRefGetAddress_v2 | cuTexRefGetArray
  | cuTexRefGetFilterMode | cuTexRefGetFlags | cuTexRefGetFormat | cuTexRefGetMaxAnisotropy
  | cuTexRefGetMipmapFilterMode | cuTexRefGetMipmapLevelBias | cuTexRefGetMipmapLevelClamp
  | cuTexRefGetMipmappedArray | cuTexRefSetAddress | cuTexRefSetAddress2D | cuTexRefSetAddress2D_v2
  | cuVDPAUCtxCreate | cuEGLApiInit | cuDestroyExternalMemory | cuDestroyExternalSemaphore
  | cuDeviceGetUuid | cuExternalMemoryGetMappedBuffer | cuExternalMemoryGetMappedMipmappedArray
  | cuGraphAddChildGraphNode | cuGraphAddDependencies | cuGraphAddEmptyNode | cuGraphAddHostNode
  | cuGraphAddKernelNode | cuGraphAddMemcpyNode | cuGraphAddMemsetNode
  | cuGraphChildGraphNodeGetGraph | cuGraphClone | cuGraphCreate | cuGraphDestroy
  | cuGraphDestroyNode | cuGraphExecDestroy | cuGraphGetEdges | cuGraphGetNodes
  | cuGraphGetRootNodes | cuGraphHostNodeGetParams | cuGraphHostNodeSetParams | cuGraphInstantiate
  | cuGraphKernelNodeGetParams | cuGraphKernelNodeSetParams | cuGraphLaunch | cuGraphLaunch_ptsz
  | cuGraphMemcpyNodeGetParams | cuGraphMemcpyNodeSetParams | cuGraphMemsetNodeGetParams
  | cuGraphMemsetNodeSetParams | cuGraphNodeFindInClone | cuGraphNodeGetDependencies
  | cuGraphNodeGetDependentNodes | cuGraphNodeGetType | cuGraphRemoveDependencies
  | cuImportExternalMemory | cuImportExternalSemaphore | cuLaunchHostFunc | cuLaunchHostFunc_ptsz
  | cuSignalExternalSemaphoresAsync | cuSignalExternalSemaphoresAsync_ptsz | cuStreamBeginCapture
  | cuStreamBeginCapture_ptsz | cuStreamEndCapture | cuStreamEndCapture_ptsz | cuStreamGetCtx
  | cuStreamGetCtx_ptsz | cuStreamIsCapturing | cuStreamIsCapturing_ptsz
  | cuWaitExternalSemaphoresAsync | cuWaitExternalSemaphoresAsync_ptsz
  | cuGraphExecKernelNodeSetParams | cuStreamBeginCapture_v2 | cuStreamBeginCapture_v2_ptsz
  | cuStreamGetCaptureInfo | cuStreamGetCaptureInfo_ptsz | cuThreadExchangeStreamCaptureMode
  | cuDeviceGetNvSciSyncAttributes | cuGraphExecHostNodeSetParams | cuGraphExecMemcpyNodeSetParams
  | cuGraphExecMemsetNodeSetParams | cuGraphExecUpdate | cuMemAddressFree | cuMemAddressReserve
  | cuMemCreate | cuMemExportToShareableHandle | cuMemGetAccess | cuMemGetAllocationGranularity
  | cuMemGetAllocationPropertiesFromHandle | cuMemImportFromShareableHandle | cuMemMap
  | cuMemRelease | cuMemSetAccess | cuMemUnmap
  deriving DecidableEq

/-- `CUDA_ENTRY_END` -/
def cudaEntryEnd : Nat := Entry.cuMemUnmap.ctorIdx + 1

/-- The `name`s in `cuda_library_entry`, in its order. -/
def cudaLibraryEntry : List Entry := [
  .cuInit, .cuDeviceGet, .cuDeviceGetCount, .cuDeviceGetName, .cuDeviceTotalMem_v2,
  .cuDeviceGetAttribute, .cuDeviceGetP2PAttribute, .cuDriverGetVersion, .cuDeviceGetByPCIBusId,
  .cuDeviceGetPCIBusId, .cuDevicePrimaryCtxRetain, .cuDevicePrimaryCtxRelease,
  .cuDevicePrimaryCtxSetFlags, .cuDevicePrimaryCtxGetState, .cuDevicePrimaryCtxReset,
  .cuCtxCreate_v2, .cuCtxGetFlags, .cuCtxSetCurrent, .cuCtxGetCurrent, .cuCtxDetach,
  .cuCtxGetApiVersion, .cuCtxGetDevice, .cuCtxGetLimit, .cuCtxSetLimit, .cuCtxGetCacheConfig,
  .cuCtxSetCacheConfig, .cuCtxGetSharedMemConfig, .cuCtxGetStreamPriorityRange,
  .cuCtxSetSharedMemConfig, .cuCtxSynchronize, .cuModuleLoad, .cuModuleLoadData,
  .cuModuleLoadFatBinary, .cuModuleUnload, .cuModuleGetFunction, .cuModuleGetGlobal_v2,
  .cuModuleGetTexRef, .cuModuleGetSurfRef, .cuLinkCreate, .cuLinkAddData, .cuLinkAddFile,
  .cuLinkComplete, .cuLinkDestroy, .cuMemGetInfo_v2, .cuMemAllocManaged, .cuMemAlloc_v2,
  .cuMemAllocPitch_v2, .cuMemFree_v2, .cuMemGetAddressRange_v2, .cuMemFreeHost, .cuMemHostAlloc,
  .cuMemHostGetDevicePointer_v2, .cuMemHostGetFlags, .cuMemHostRegister_v2, .cuMemHostUnregister,
  .cuPointerGetAttribute, .cuPointerGetAttributes, .cuMemcpy, .cuMemcpy_ptds, .cuMemcpyAsync,
  .cuMemcpyAsync_ptsz, .cuMemcpyPeer, .cuMemcpyPeer_ptds, .cuMemcpyPeerAsync,
  .cuMemcpyPeerAsync_ptsz, .cuMemcpyHtoD_v2, .cuMemcpyHtoD_v2_ptds, .cuMemcpyHtoDAsync_v2,
  .cuMemcpyHtoDAsync_v2_ptsz, .cuMemcpyDtoH_v2, .cuMemcpyDtoH_v2_ptds, .cuMemcpyDtoHAsync_v2,
  .cuMemcpyDtoHAsync_v2_ptsz, .cuMemcpyDtoD_v2, .cuMemcpyDtoD_v2_ptds, .cuMemcpyDtoDAsync_v2,
  .cuMemcpyDtoDAsync_v2_ptsz, .cuMemcpy2DUnaligned_v2, .cuMemcpy2DUnaligned_v2_ptds,
  .cuMemcpy2DAsync_v2, .cuMemcpy2DAsync_v2_ptsz, .cuMemcpy3D_v2, .cuMemcpy3D_v2_ptds,
  .cuMemcpy3DAsync_v2, .cuMemcpy3DAsync_v2_ptsz, .cuMemcpy3DPeer, .cuMemcpy3DPeer_ptds,
  .cuMemcpy3DPeerAsync, .cuMemcpy3DPeerAsync_ptsz, .cuMemsetD8_v2, .cuMemsetD8_v2_ptds,
  .cuMemsetD8Async, .cuMemsetD8Async_ptsz, .cuMemsetD2D8_v2, .cuMemsetD2D8_v2_ptds,
  .cuMemsetD2D8Async, .cuMemsetD2D8Async_ptsz, .cuFuncSetCacheConfig, .cuFuncSetSharedMemConfig,
  .cuFuncGetAttribute, .cuArrayCreate_v2, .cuArrayGetDescriptor_v2, .cuArray3DCreate_v2,
  .cuArray3DGetDescriptor_v2, .cuArrayDestroy, .cuMipmappedArrayCreate, .cuMipmappedArrayGetLevel,
  .cuMipmappedArrayDestroy, .cuTexRefCreate, .cuTexRefDestroy, .cuTexRefSetArray,
  .cuTexRefSetMipmappedArray, .cuTexRefSetAddress_v2, .cuTexRefSetAddress2D_v3, .cuTexRefSetFormat,
  .cuTexRefSetAddressMode, .cuTexRefSetFilterMode, .cuTexRefSetMipmapFilterMode,
  .cuTexRefSetMipmapLevelBias, .cuTexRefSetMipmapLevelClamp, .cuTexRefSetMaxAnisotropy,
  .cuTexRefSetFlags, .cuTexRefSetBorderColor, .cuTexRefGetBorderColor, .cuSurfRefSetArray,
  .cuTexObjectCreate, .cuTexObjectDestroy, .cuTexObjectGetResourceDesc, .cuTexObjectGetTextureDesc,
  .cuTexObjectGetResourceViewDesc, .cuSurfObjectCreate, .cuSurfObjectDestroy,
  .cuSurfObjectGetResourceDesc, .cuLaunchKernel, .cuLaunchKernel_ptsz, .cuEventCreate,
  .cuEventRecord, .cuEventRecord_ptsz, .cuEventQuery, .cuEventSynchronize, .cuEventDestroy_v2,
  .cuEventElapsedTime, .cuStreamWaitValue32, .cuStreamWaitValue32_ptsz, .cuStreamWriteValue32,
  .cuStreamWriteValue32_ptsz, .cuStreamBatchMemOp, .cuStreamBatchMemOp_ptsz, .cuStreamCreate,
  .cuStreamCreateWithPriority, .cuStreamGetPriority, .cuStreamGetPriority_ptsz, .cuStreamGetFlags,
  .cuStreamGetFlags_ptsz, .cuStreamDestroy_v2, .cuStreamWaitEvent, .cuStreamWaitEvent_ptsz,
  .cuStreamAddCallback, .cuStreamAddCallback_ptsz, .cuStreamSynchronize, .cuStreamSynchronize_ptsz,
  .cuStreamQuery, .cuStreamQuery_ptsz, .cuStreamAttachMemAsync, .cuStreamAttachMemAsync_ptsz,
  .cuDeviceCanAccessPeer, .cuCtxEnablePeerAccess, .cuCtxDisablePeerAccess, .cuIpcGetEventHandle,
  .cuIpcOpenEventHandle, .cuIpcGetMemHandle, .cuIpcOpenMemHandle, .cuIpcCloseMemHandle,
  .cuGLCtxCreate_v2, .cuGLInit, .cuGLGetDevices, .cuGLRegisterBufferObject,
  .cuGLMapBufferObject_v2, .cuGLMapBufferObject_v2_ptds, .cuGLMapBufferObjectAsync_v2,
  .cuGLMapBufferObjectAsync_v2_ptsz, .cuGLUnmapBufferObject, .cuGLUnmapBufferObjectAsync,
  .cuGLUnregisterBufferObject, .cuGLSetBufferObjectMapFlags, .cuGraphicsGLRegisterImage,
  .cuGraphicsGLRegisterBuffer, .cuGraphicsUnregisterResource, .cuGraphicsMapResources,
  .cuGraphicsMapResources_ptsz, .cuGraphicsUnmapResources, .cuGraphicsUnmapResources_ptsz,
  .cuGraphicsResourceSetMapFlags_v2, .cuGraphicsSubResourceGetMappedArray,
  .cuGraphicsResourceGetMappedMipmappedArray, .cuGraphicsResourceGetMappedPointer_v2,
  .cuProfilerInitialize, .cuProfilerStart, .cuProfilerStop, .cuVDPAUGetDevice,
  .cuVDPAUCtxCreate_v2, .cuGraphicsVDPAURegisterVideoSurface,
  .cuGraphicsVDPAURegisterOutputSurface, .cuGetExportTable,
  .cuOccupancyMaxActiveBlocksPerMultiprocessor, .cuMemAdvise, .cuMemPrefetchAsync,
  .cuMemPrefetchAsync_ptsz, .cuMemRangeGetAttribute, .cuMemRangeGetAttributes, .cuGetErrorString,
  .cuGetErrorName, .cuArray3DCreate, .cuArray3DGetDescriptor, .cuArrayCreate,
  .cuArrayGetDescriptor, .cuCtxAttach, .cuCtxCreate, .cuCtxDestroy, .cuCtxDestroy_v2,
  .cuCtxPopCurrent, .cuCtxPopCurrent_v2, .cuCtxPushCurrent, .cuCtxPushCurrent_v2, .cudbgApiAttach,
  .cudbgApiDetach, .cudbgApiInit, .cudbgGetAPI, .cudbgGetAPIVersion, .cudbgMain,
  .cudbgReportDriverApiError, .cudbgReportDriverInternalError, .cuDeviceComputeCapability,
  .cuDeviceGetProperties, .cuDeviceTotalMem, .cuEGLInit, .cuEGLStreamConsumerAcquireFrame,
  .cuEGLStreamConsumerConnect, .cuEGLStreamConsumerConnectWithFlags,
  .cuEGLStreamConsumerDisconnect, .cuEGLStreamConsumerReleaseFrame, .cuEGLStreamProducerConnect,
  .cuEGLStreamProducerDisconnect, .cuEGLStreamProducerPresentFrame,
  .cuEGLStreamProducerReturnFrame, .cuEventDestroy, .cuFuncSetAttribute, .cuFuncSetBlockShape,
  .cuFuncSetSharedSize, .cuGLCtxCreate, .cuGLGetDevices_v2, .cuGLMapBufferObject,
  .cuGLMapBufferObjectAsync, .cuGraphicsEGLRegisterImage, .cuGraphicsResourceGetMappedEglFrame,
  .cuGraphicsResourceGetMappedPointer, .cuGraphicsResourceSetMapFlags, .cuLaunch,
  .cuLaunchCooperativeKernel, .cuLaunchCooperativeKernelMultiDevice,
  .cuLaunchCooperativeKernel_ptsz, .cuLaunchGrid, .cuLaunchGridAsync, .cuLinkAddData_v2,
  .cuLinkAddFile_v2, .cuLinkCreate_v2, .cuMemAlloc, .cuMemAllocHost, .cuMemAllocHost_v2,
  .cuMemAllocPitch, .cuMemcpy2D, .cuMemcpy2DAsync, .cuMemcpy2DUnaligned, .cuMemcpy2D_v2,
  .cuMemcpy2D_v2_ptds, .cuMemcpy3D, .cuMemcpy3DAsync, .cuMemcpyAtoA, .cuMemcpyAtoA_v2,
  .cuMemcpyAtoA_v2_ptds, .cuMemcpyAtoD, .cuMemcpyAtoD_v2, .cuMemcpyAtoD_v2_ptds, .cuMemcpyAtoH,
  .cuMemcpyAtoHAsync, .cuMemcpyAtoHAsync_v2, .cuMemcpyAtoHAsync_v2_ptsz, .cuMemcpyAtoH_v2,
  .cuMemcpyAtoH_v2_ptds, .cuMemcpyDtoA, .cuMemcpyDtoA_v2, .cuMemcpyDtoA_v2_ptds, .cuMemcpyDtoD,
  .cuMemcpyDtoDAsync, .cuMemcpyDtoH, .cuMemcpyDtoHAsync, .cuMemcpyHtoA, .cuMemcpyHtoAAsync,
  .cuMemcpyHtoAAsync_v2, .cuMemcpyHtoAAsync_v2_ptsz, .cuMemcpyHtoA_v2, .cuMemcpyHtoA_v2_ptds,
  .cuMemcpyHtoD, .cuMemcpyHtoDAsync, .cuMemFree, .cuMemGetAddressRange, .cuMemGetInfo,
  .cuMemHostGetDevicePointer, .cuMemHostRegister, .cuMemsetD16, .cuMemsetD16Async,
  .cuMemsetD16Async_ptsz, .cuMemsetD16_v2, .cuMemsetD16_v2_ptds, .cuMemsetD2D16,
  .cuMemsetD2D16Async, .cuMemsetD2D16Async_ptsz, .cuMemsetD2D16_v2, .cuMemsetD2D16_v2_ptds,
  .cuMemsetD2D32, .cuMemsetD2D32Async, .cuMemsetD2D32Async_ptsz, .cuMemsetD2D32_v2,
  .cuMemsetD2D32_v2_ptds, .cuMemsetD2D8, .cuMemsetD32, .cuMemsetD32Async, .cuMemsetD32Async_ptsz,
  .cuMemsetD32_v2, .cuMemsetD32_v2_ptds, .cuMemsetD8, .cuModuleGetGlobal, .cuModuleLoadDataEx,
  .cuOccupancyMaxActiveBlocksPerMultiprocessorWithFlags, .cuOccupancyMaxPotentialBlockSize,
  .cuOccupancyMaxPotentialBlockSizeWithFlags, .cuParamSetf, .cuParamSeti, .cuParamSetSize,
  .cuParamSetTexRef, .cuParamSetv, .cuPointerSetAttribute, .cuStreamDestroy, .cuStreamWaitValue64,
  .cuStreamWaitValue64_ptsz, .cuStreamWriteValue64, .cuStreamWriteValue64_ptsz, .cuSurfRefGetArray,
  .cuTexRefGetAddress, .cuTexRefGetAddressMode, .cuTexRefGetAddress_v2, .cuTexRefGetArray,
  .cuTexRefGetFilterMode, .cuTexRefGetFlags, .cuTexRefGetFormat, .cuTexRefGetMaxAnisotropy,
  .cuTexRefGetMipmapFilterMode, .cuTexRefGetMipmapLevelBias, .cuTexRefGetMipmapLevelClamp,
  .cuTexRefGetMipmappedArray, .cuTexRefSetAddress, .cuTexRefSetAddress2D, .cuTexRefSetAddress2D_v2,
  .cuVDPAUCtxCreate, .cuEGLApiInit, .cuDestroyExternalMemory, .cuDestroyExternalSemaphore,
  .cuDeviceGetUuid, .cuExternalMemoryGetMappedBuffer, .cuExternalMemoryGetMappedMipmappedArray,
  .cuGraphAddChildGraphNode, .cuGraphAddDependencies, .cuGraphAddEmptyNode, .cuGraphAddHostNode,
  .cuGraphAddKernelNode, .cuGraphAddMemcpyNode, .cuGraphAddMemsetNode,
  .cuGraphChildGraphNodeGetGraph, .cuGraphClone, .cuGraphCreate, .cuGraphDestroy,
  .cuGraphDestroyNode, .cuGraphExecDestroy, .cuGraphGetEdges, .cuGraphGetNodes,
  .cuGraphGetRootNodes, .cuGraphHostNodeGetParams, .cuGraphHostNodeSetParams, .cuGraphInstantiate,
  .cuGraphKernelNodeGetParams, .cuGraphKernelNodeSetParams, .cuGraphLaunch, .cuGraphLaunch_ptsz,
  .cuGraphMemcpyNodeGetParams, .cuGraphMemcpyNodeSetParams, .cuGraphMemsetNodeGetParams,
  .cuGraphMemsetNodeSetParams, .cuGraphNodeFindInClone, .cuGraphNodeGetDependencies,
  .cuGraphNodeGetDependentNodes, .cuGraphNodeGetType, .cuGraphRemoveDependencies,
  .cuImportExternalMemory, .cuImportExternalSemaphore, .cuLaunchHostFunc, .cuLaunchHostFunc_ptsz,
  .cuSignalExternalSemaphoresAsync, .cuSignalExternalSemaphoresAsync_ptsz, .cuStreamBeginCapture,
  .cuStreamBeginCapture_ptsz, .cuStreamEndCapture, .cuStreamEndCapture_ptsz, .cuStreamGetCtx,
  .cuStreamGetCtx_ptsz, .cuStreamIsCapturing, .cuStreamIsCapturing_ptsz,
  .cuWaitExternalSemaphoresAsync, .cuWaitExternalSemaphoresAsync_ptsz,
  .cuGraphExecKernelNodeSetParams, .cuStreamBeginCapture_v2, .cuStreamBeginCapture_v2_ptsz,
  .cuStreamGetCaptureInfo, .cuStreamGetCaptureInfo_ptsz, .cuThreadExchangeStreamCaptureMode,
  .cuDeviceGetNvSciSyncAttributes, .cuGraphExecHostNodeSetParams, .cuGraphExecMemcpyNodeSetParams,
  .cuGraphExecMemsetNodeSetParams, .cuGraphExecUpdate, .cuMemAddressFree, .cuMemAddressReserve,
  .cuMemCreate, .cuMemExportToShareableHandle, .cuMemGetAccess, .cuMemGetAllocationGranularity,
  .cuMemGetAllocationPropertiesFromHandle, .cuMemImportFromShareableHandle, .cuMemMap,
  .cuMemRelease, .cuMemSetAccess, .cuMemUnmap]

theorem ctorIdx_cudaLibraryEntry :
    cudaLibraryEntry.map Entry.ctorIdx = List.range cudaEntryEnd := by
  decide +kernel

theorem ctorIdx_lt (e : Entry) : e.ctorIdx < cudaEntryEnd := by
  cases e <;> decide

theorem ctorIdx_inj {e e' : Entry} (h : e.ctorIdx = e'.ctorIdx) : e = e' := by
  rw [← Entry.ofNat_ctorIdx e, h, Entry.ofNat_ctorIdx]

/-- **The table is in the order of the enumerators.** -/
theorem name_at_ctorIdx (e : Entry) : cudaLibraryEntry[e.ctorIdx]? = some e := by
  have h := congrArg (fun l => l[e.ctorIdx]?) ctorIdx_cudaLibraryEntry
  rw [List.getElem?_map, List.getElem?_range (ctorIdx_lt e)] at h
  obtain ⟨e', he', hidx⟩ := Option.map_eq_some_iff.mp h
  rw [he', ctorIdx_inj hidx]

/-- What `bug_on` checks. -/
theorem length_cudaLibraryEntry : cudaLibraryEntry.length = cudaEntryEnd := by
  decide +kernel

example : cudaEntryEnd = 441 := rfl

end Vcuda.Forward
