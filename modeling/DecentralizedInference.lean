import DecentralizedInference.Proofs.History
import DecentralizedInference.Proofs.LoopFree
import DecentralizedInference.Proofs.Provenance
import DecentralizedInference.Proofs.ShortestChain
import DecentralizedInference.Lib.Bytes
import DecentralizedInference.Spec.ConnectionBuffer
import DecentralizedInference.Sanity.ConnectionBuffer
import DecentralizedInference.Proofs.FrameDelivery
import DecentralizedInference.Lib.Window
import DecentralizedInference.Sanity.SendWindow
import DecentralizedInference.Proofs.FlowControl
import DecentralizedInference.Spec.OnChainService
import DecentralizedInference.Sanity.OnChainService
import DecentralizedInference.Proofs.Checkpoints
import DecentralizedInference.Spec.ModelService
import DecentralizedInference.Spec.ModelChain
import DecentralizedInference.Proofs.PartitionPlan
import DecentralizedInference.Proofs.LocalInference
import DecentralizedInference.Proofs.PayerRole
import DecentralizedInference.Proofs.NodeIndex
import DecentralizedInference.Proofs.WindowAccount
import DecentralizedInference.Sanity.Registry
import DecentralizedInference.Proofs.Reconnect
import DecentralizedInference.Proofs.RegistryDeadlock
import DecentralizedInference.Sanity.ChainCalls
import DecentralizedInference.Proofs.StartAtomic
import DecentralizedInference.Sanity.OnChainWorld
import DecentralizedInference.Proofs.FailurePropagation
import DecentralizedInference.Proofs.SessionCreation
import DecentralizedInference.Proofs.WorkSplit
import DecentralizedInference.Spec.ChatRun
import DecentralizedInference.Sanity.ChatRun
import DecentralizedInference.Proofs.SessionCleanup
import DecentralizedInference.Sanity.ChatBooks
import DecentralizedInference.Proofs.ClaimedTokens
import DecentralizedInference.Lib.FirstMin
import DecentralizedInference.Spec.LayersSelection
import DecentralizedInference.Sanity.LayersSelection
import DecentralizedInference.Proofs.LayersSelection
import DecentralizedInference.Lib.Reorder
import DecentralizedInference.Proofs.Chunking
import DecentralizedInference.Proofs.PeerAcks
import DecentralizedInference.Proofs.RegistryOutputs
import DecentralizedInference.Spec.Communication
import DecentralizedInference.Sanity.RpcCalls
import DecentralizedInference.Proofs.RpcMatching
import DecentralizedInference.Proofs.RpcWaiters
import DecentralizedInference.Proofs.OfferHandling
import DecentralizedInference.Proofs.RequestAnswers
import DecentralizedInference.Lib.ForLoop
import DecentralizedInference.Spec.Chat
import DecentralizedInference.Proofs.ChatBudget
import DecentralizedInference.Spec.VirtualLayers
import DecentralizedInference.Proofs.ChatSpending
import DecentralizedInference.Sanity.SharedUdpPort
import DecentralizedInference.Proofs.InverseMaps
import DecentralizedInference.Proofs.Demultiplexing
import DecentralizedInference.Lib.Tally
import DecentralizedInference.Proofs.Distribution
import DecentralizedInference.Proofs.RouteArithmetic
import DecentralizedInference.Spec.RegistryRecv
import DecentralizedInference.Proofs.Cancellation
import DecentralizedInference.Lib.Ledger
import DecentralizedInference.Spec.AsyncReadRx
import DecentralizedInference.Proofs.HttpStream
import DecentralizedInference.Lib.Utf8
import DecentralizedInference.Spec.TokenOutputStream
import DecentralizedInference.Proofs.Streaming
import DecentralizedInference.Sanity.ChatCalls
import DecentralizedInference.Proofs.ChatFinish
import DecentralizedInference.Spec.KvCache
import DecentralizedInference.Sanity.KvCache
import DecentralizedInference.Proofs.TokenPositions
import DecentralizedInference.Lib.Keyed
import DecentralizedInference.Lib.Stages
import DecentralizedInference.Spec.Attention
import DecentralizedInference.Sanity.Attention
import DecentralizedInference.Spec.LlamaModel
import DecentralizedInference.Proofs.CachedInference
import DecentralizedInference.Spec.LayersWorker
import DecentralizedInference.Sanity.LayersWorker
import DecentralizedInference.Proofs.SessionIsolation
import DecentralizedInference.Proofs.DistributedInference
import DecentralizedInference.Lib.Nucleus
import DecentralizedInference.Spec.Sampling
import DecentralizedInference.Sanity.Sampling
import DecentralizedInference.Proofs.Sampling
import DecentralizedInference.Proofs.Generation
import DecentralizedInference.Spec.RootChat
import DecentralizedInference.Proofs.DistributedChat
import DecentralizedInference.Proofs.CallMessages
import DecentralizedInference.Proofs.CallsByMessages
