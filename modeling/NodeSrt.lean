import NodeSrt.AsyncApi
import NodeSrt.AsyncApiBuffers
import NodeSrt.AsyncApiDisposal
import NodeSrt.AsyncApiInvariant
import NodeSrt.AsyncApiPolling
import NodeSrt.AsyncApiPort
import NodeSrt.AsyncApiProgress
import NodeSrt.AsyncApiQueue
import NodeSrt.AsyncApiRefinement
import NodeSrt.AsyncApiServing
import NodeSrt.AsyncApiSteps
import NodeSrt.AsyncApiWrites
import NodeSrt.AsyncValues
import NodeSrt.Encodings
import NodeSrt.Endpoint
import NodeSrt.Fairness
import NodeSrt.GetError
import NodeSrt.Link
import NodeSrt.NativeMethods
import NodeSrt.NativeSrt
import NodeSrt.NativeSrtTable
import NodeSrt.Numbers
import NodeSrt.OrderedPort
import NodeSrt.Passphrase
import NodeSrt.Pieces
import NodeSrt.Progress
import NodeSrt.ReadLoop
import NodeSrt.ReadLoopFailures
import NodeSrt.ReadLoopResults
import NodeSrt.ReadModes
import NodeSrt.ReadStream
import NodeSrt.ReadStreamDemand
import NodeSrt.ReadStreamReads
import NodeSrt.ReadStreamRelease
import NodeSrt.ReaderWriter
import NodeSrt.ServerAccepting
import NodeSrt.ServerBacklog
import NodeSrt.ServerClients
import NodeSrt.ServerConnection
import NodeSrt.ServerConnectionLifeCycle
import NodeSrt.ServerDisconnection
import NodeSrt.ServerEvents
import NodeSrt.ServerListening
import NodeSrt.ServerMap
import NodeSrt.ServerOpening
import NodeSrt.ServerPolling
import NodeSrt.Simulation
import NodeSrt.SockFlags
import NodeSrt.SocketAsync
import NodeSrt.SocketAsyncCalls
import NodeSrt.SocketAsyncChanges
import NodeSrt.SocketAsyncDisposal
import NodeSrt.SocketAsyncDraining
import NodeSrt.SocketAsyncFulfilment
import NodeSrt.SocketAsyncInstance
import NodeSrt.SocketAsyncInvariant
import NodeSrt.SocketAsyncOrder
import NodeSrt.SocketAsyncOwnership
import NodeSrt.SocketAsyncProgress
import NodeSrt.SocketAsyncRelease
import NodeSrt.SocketAsyncRetry
import NodeSrt.SocketAsyncSteps
import NodeSrt.SocketAsyncTurns
import NodeSrt.SocketAsyncUnderway
import NodeSrt.SocketFlags
import NodeSrt.Stats
import NodeSrt.StreamTransfer
import NodeSrt.Tools
import NodeSrt.ToolsMerging
import NodeSrt.ToolsSlicing
import NodeSrt.Transfer
import NodeSrt.TransferDelivery
import NodeSrt.TransferProgress
import NodeSrt.TransferReader
import NodeSrt.TransferWriter
import NodeSrt.TransitionSystem
import NodeSrt.WaitForCondition
import NodeSrt.WaitForConditionDeadline
import NodeSrt.WaitForConditionFailure
import NodeSrt.WaitForConditionOutcome
import NodeSrt.WaitForConditionProgress
import NodeSrt.WaitForConditionSteps
import NodeSrt.WriteLoop
import NodeSrt.WriteLoopEquivalence
import NodeSrt.WriteLoopFlow
import NodeSrt.WriteLoopRefinement
import NodeSrt.WriteLoopRejections
import NodeSrt.WriteLoopReports
import NodeSrt.WriteModes
import NodeSrt.WriteModesSent
import NodeSrt.WriteStream
import NodeSrt.WriteStreamRelease
