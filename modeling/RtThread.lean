import RtThread.MutexPriority
import RtThread.WakeUps
import RtThread.WaitOrder
import RtThread.Completion
import RtThread.Device
import RtThread.DataQueueWakeUps
import RtThread.WorkQueueDelivery
import RtThread.RtLinkReliable
import RtThread.SignalMask
import RtThread.SignalPending
import RtThread.DfsMountTable
import RtThread.RamfsNames
import RtThread.RamfsContent
import RtThread.PipeWakeUps
import RtThread.CondBroadcast
import RtThread.RwLockWakeUps
import RtThread.SerialTxOrder
import RtThread.SerialRxFifo
import RtThread.PrioQueueFifo
import RtThread.VbusRingOrder
import RtThread.VbusChannelTable
import RtThread.ShellLine
import RtThread.AlarmNext
import RtThread.HeapRequests
import RtThread.DfsNormalize
import RtThread.EventCommute
import RtThread.BoundedWait
import RtThread.DataQueueTimeouts
import RtThread.MempoolBounds
import RtThread.SignalWait
import RtThread.MemheapAlign
import RtThread.SlabAlign
import RtThread.MemheapCheck
import RtThread.MallocAlign
import RtThread.RingbufferInit
import RtThread.RingBlkQueues
import RtThread.PipeReopen
import RtThread.PipeTransfer
import RtThread.VsnprintfTruncation
import RtThread.VsnprintfStrings
import RtThread.RtLinkTimeout
import RtThread.RtLinkCopies
import RtThread.RtLinkReassembly
import RtThread.TimeNormalise
import RtThread.PosixClockTicks
import RtThread.PosixTimerSchedule
import RtThread.YmodemTransfer
import RtThread.Checksums
import RtThread.TinyFfs
import RtThread.KserviceMemory
import RtThread.MshArguments
import RtThread.HttpUtil
import RtThread.AtServer
import RtThread.PthreadNesting
import RtThread.VbusInput
import RtThread.VarExportLookup
import RtThread.PthreadBarrier
import RtThread.RtLinkWire
