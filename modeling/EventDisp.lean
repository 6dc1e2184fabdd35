import EventDisp.General.FiniteMap
import EventDisp.General.Grouping
import EventDisp.General.Execution
import EventDisp.Fault
import EventDisp.FastFifo
import EventDisp.Cache
import EventDisp.CacheOperations
import EventDisp.CacheRuns
import EventDisp.CacheEffects
import EventDisp.CacheSize
import EventDisp.CacheCallbacks
import EventDisp.CacheDeliveries
import EventDisp.CacheFreeList
import EventDisp.CacheReferences
import EventDisp.CacheHolders
import EventDisp.CacheCancellation
import EventDisp.General.Shedding
import EventDisp.CacheEviction
import EventDisp.CacheReentrancy
import EventDisp.HashCharPtr
import EventDisp.HashCharPtrLoop
import EventDisp.General.Lock
import EventDisp.General.SerialQueue
import EventDisp.EventDispatcher
import EventDisp.EventDispatcherSafety
import EventDisp.EventDispatcherProgress
import EventDisp.EventDispatcherDiscipline
import EventDisp.EventDispatcherAccounting
import EventDisp.EventDispatcherInterface
import EventDisp.EventDispatcherAnswers
import EventDisp.General.History
import EventDisp.MPEventDispatcher
import EventDisp.MPEventDispatcherSteps
import EventDisp.MPEventDispatcherRouting
import EventDisp.MPEventDispatcherOrder
import EventDisp.MPEventDispatcherClients
import EventDisp.General.RoundRobin
import EventDisp.MPEventDispatcherPlacement
import EventDisp.MPEventDispatcherProgress
import EventDisp.MPEventDispatcherAnswers
import EventDisp.HttpConfinement
import EventDisp.MPEventDispatcherBusy
import EventDisp.MPEventDispatcherDestructor
import EventDisp.General.CString
import EventDisp.HttpPackage
import EventDisp.HttpHandlers
import EventDisp.HttpKeys
import EventDisp.HttpServer
import EventDisp.General.Outcome
import EventDisp.General.Crowd
import EventDisp.Semaphore
import EventDisp.SemaphoreRuns
import EventDisp.SemaphoreProgress
import EventDisp.WordCount
import EventDisp.WordCountSteps
import EventDisp.WordCountPlaces
import EventDisp.WordCountOrder
import EventDisp.WordCountSignals
import EventDisp.WordCountRuns
import EventDisp.WordCountCheck
import EventDisp.HttpLines
import EventDisp.HttpPassing
import EventDisp.HttpParsing
import EventDisp.General.Token
import EventDisp.HttpHistory
import EventDisp.HttpInvariant
import EventDisp.HttpFrames
import EventDisp.HttpHands
import EventDisp.HttpService
import EventDisp.HttpCacheCalls
import EventDisp.HttpSlots
import EventDisp.HttpAsking
import EventDisp.HttpResolving
import EventDisp.HttpTaking
import EventDisp.HttpAborting
import EventDisp.HttpBodies
import EventDisp.HttpRequests
import EventDisp.HttpRuns
import EventDisp.HttpFailures
import EventDisp.HttpReservations
import EventDisp.HttpStreams
import EventDisp.HttpHeads
import EventDisp.HttpLeaks
import EventDisp.HttpClosing
import EventDisp.HttpReleases
import EventDisp.HttpConnections
import EventDisp.HttpGrowth
import EventDisp.HttpEndings
import EventDisp.HttpShortWrites
import EventDisp.HttpFraming
import EventDisp.HttpWrites
import EventDisp.HttpWire
import EventDisp.CacheClients
import EventDisp.HttpRetaining
import EventDisp.HttpIdentities
import EventDisp.HttpWholeBodies
import EventDisp.HttpAnswering
import EventDisp.HttpExchange
import EventDisp.HttpPaths
import EventDisp.General.CBuffer
import EventDisp.HttpBuffer
import EventDisp.CacheBuffers
import EventDisp.CacheLedger
import EventDisp.CacheOwnership
import EventDisp.SvrConnAccept
import EventDisp.SvrConnLimit
import EventDisp.FastFifoNodes
import EventDisp.DelayedTask
import EventDisp.DelayedTaskRuns
import EventDisp.AioWrapperBuilds
import EventDisp.AioWrapperRuns
