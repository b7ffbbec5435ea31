import ToyMtFramework.SerialTaskQueueWakeup
import ToyMtFramework.WaitingTaskListRound
import ToyMtFramework.ScheduleAgreement
import ToyMtFramework.ScheduleLoopRounds
import ToyMtFramework.ProcessAll
import ToyMtFramework.ProcessAllLastTask
import ToyMtFramework.ProcessAllGroups
import ToyMtFramework.ModuleAcquire
import ToyMtFramework.ModuleAcquireFailure
import ToyMtFramework.SerialTaskQueueOrder
import ToyMtFramework.SerialTaskQueuePause
import ToyMtFramework.ModuleWrapper
import ToyMtFramework.ModuleWrapperRound
import ToyMtFramework.ScheduleFinish
import ToyMtFramework.ModuleWrapperOutcome
import ToyMtFramework.Core.SerialQueues
import ToyMtFramework.RunQueues
import ToyMtFramework.ThreadTypes
import ToyMtFramework.Core.Family
import ToyMtFramework.ProducerProducts
import ToyMtFramework.ProducerProductsOnce
import ToyMtFramework.EventLoop
import ToyMtFramework.EventLoopOrder
import ToyMtFramework.EventLoopEvents
import ToyMtFramework.Core.OwnedTask
import ToyMtFramework.WaitingTaskHolderCalls
import ToyMtFramework.WaitingTaskHolderOwners
import ToyMtFramework.ScheduleAnnounce
import ToyMtFramework.ScheduleAnnounceReset
import ToyMtFramework.OpenMPGet
import ToyMtFramework.OpenMPGetReactions
import ToyMtFramework.OpenMPGetPause
import ToyMtFramework.OpenMPGetWork
import ToyMtFramework.OpenMPGetProducers
import ToyMtFramework.OpenMPAnnounce
import ToyMtFramework.OpenMPAnnounceMoves
import ToyMtFramework.OpenMPAnnounceTasks
import ToyMtFramework.OpenMPGetRegions
import ToyMtFramework.OpenMPGetInside
import ToyMtFramework.OpenMPGetRight
import ToyMtFramework.OpenMPAnnounceEvents
import ToyMtFramework.OpenMPAnnounceSteps
import ToyMtFramework.OpenMPAnnounceReset
import ToyMtFramework.OpenMPAnnounceUnread
import ToyMtFramework.ListResets
import ToyMtFramework.SimpleSource
import ToyMtFramework.Core.GuardedSearch
import ToyMtFramework.FinishSetup
import ToyMtFramework.FinishSetupGraph
import ToyMtFramework.FinishSetupPrefetch
import ToyMtFramework.FinishSetupSearch
import ToyMtFramework.FinishSetupDeadlocks
import ToyMtFramework.FinishSetupExact
import ToyMtFramework.FinishSetupTotal
import ToyMtFramework.SerialTaskQueueDestroy
import ToyMtFramework.SingleThreadedEvents
import ToyMtFramework.SingleThreadedEventsMeaning
import ToyMtFramework.SingleThreadedEventsSound
import ToyMtFramework.SingleThreadedEventsRight
import ToyMtFramework.SingleThreadedEventsLoop
import ToyMtFramework.ScheduleClone
import ToyMtFramework.ScheduleCloneEvent
import ToyMtFramework.ScheduleCloneStructure
import ToyMtFramework.ScheduleCloneApart
import ToyMtFramework.ScheduleFrameworks
import ToyMtFramework.ScheduleLog
import ToyMtFramework.SchedulePaths
import ToyMtFramework.ScheduleEvents
import ToyMtFramework.SchedulePathReports
import ToyMtFramework.SchedulePrefetch
import ToyMtFramework.ScheduleGets
import ToyMtFramework.ScheduleGetsRight
import ToyMtFramework.BusyWait
import ToyMtFramework.Core.DispatchQueues
import ToyMtFramework.DispatchEventLoop
import ToyMtFramework.DispatchEventLoopEvents
import ToyMtFramework.DispatchRunQueues
import ToyMtFramework.DispatchUnsafe
import ToyMtFramework.DispatchUnsafeLocks
import ToyMtFramework.DispatchUnsafeOverlap
import ToyMtFramework.FinishSetupAlternate
import ToyMtFramework.Waiter
import ToyMtFramework.WaitingTaskListMemory
import ToyMtFramework.WaitingTaskListReset
import ToyMtFramework.ProcessAllEvents
import ToyMtFramework.ProcessAllReports
import ToyMtFramework.ProcessAllResult
import ToyMtFramework.Core.DispatchGroups
import ToyMtFramework.Core.Halting
import ToyMtFramework.DispatchSchedule
import ToyMtFramework.DispatchScheduleAgreement
import ToyMtFramework.DispatchScheduleEvents
import ToyMtFramework.ProcessAllEnds
import ToyMtFramework.EventLoopModules
import ToyMtFramework.OpenMPGetPrefetch
import ToyMtFramework.PrefetchedProducts
import ToyMtFramework.ProcessAllAcquire
import ToyMtFramework.ScheduleQueues
