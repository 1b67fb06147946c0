import PosixIpc.StoreProg
import PosixIpc.CyclicFifo
import PosixIpc.Word32
import PosixIpc.Result
import PosixIpc.QueueRing
import PosixIpc.QueueRingFifo
import PosixIpc.QueueRingRecovery
import PosixIpc.OsWorld
import PosixIpc.Deadline
import PosixIpc.QueueMachine
import PosixIpc.QueueGil
import PosixIpc.FutexWake
import PosixIpc.QueueWait
import PosixIpc.MutexMachine
import PosixIpc.OwnerDeath
import PosixIpc.CondNotify
import PosixIpc.ShmSegment
import PosixIpc.ShmMachine
import PosixIpc.ShmProtocol
import PosixIpc.Ledger
import PosixIpc.RegionObjects
import PosixIpc.RegionPins
import PosixIpc.RegionRuns
import PosixIpc.RegionClose
import PosixIpc.PinHandshake
import PosixIpc.MqCallback
import PosixIpc.LayoutBuild
import PosixIpc.ShmAttach
import PosixIpc.LayoutAdd
import PosixIpc.LayoutBlocks
import PosixIpc.TracedCall
import PosixIpc.QueueRingSettle
import PosixIpc.QueueRingBounds
import PosixIpc.LayoutIncremental
import PosixIpc.LayoutPlace
import PosixIpc.QueueTimeout
import PosixIpc.QueueLock
import PosixIpc.BlockingWait
import PosixIpc.LockedFlag
import PosixIpc.WaitSignals
import PosixIpc.LayoutBind
import PosixIpc.AttachFailure
import PosixIpc.LayoutOpen
import PosixIpc.LayoutRoles
import PosixIpc.CreateFailure
import PosixIpc.PickleAttach
import PosixIpc.QueueSizes
import PosixIpc.MutexArrayIndex
import PosixIpc.SemRelease
import PosixIpc.CallSpan
import PosixIpc.QueueContents
import PosixIpc.QueueAtomic
import PosixIpc.PoisonedLock
import PosixIpc.LayoutRuns
import PosixIpc.LayoutRollback
import PosixIpc.CallTree
import PosixIpc.Descriptors
import PosixIpc.DescriptorRuns
import PosixIpc.RwGuards
import PosixIpc.RwGuardRuns
import PosixIpc.WaitEnds
import PosixIpc.AcquireArgs
import PosixIpc.LayoutArray
import PosixIpc.ShmCalls
import PosixIpc.ByteEncoding
import PosixIpc.LayoutDigest
import PosixIpc.DeadlineRange
import PosixIpc.SegmentUse
import PosixIpc.QueueGeometry
import PosixIpc.PickleRoundTrip
import PosixIpc.PickleBounds
