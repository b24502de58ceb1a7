import Singa.Base.Grid
import Singa.Base.Loop
import Singa.Base.Memory
import Singa.Base.NextFit
import Singa.Base.Requeue
import Singa.Base.Vec
import Singa.Utils.Abort
import Singa.Utils.Cluster
import Singa.Utils.Common
import Singa.Utils.Slicing
import Singa.Base.CutFit
import Singa.Utils.Partition
import Singa.Utils.SliceBoxes
import Singa.Utils.Repartition
import Singa.Utils.Param
import Singa.Trainer.SliceParams
import Singa.Trainer.SliceTiling
import Singa.Utils.Graph
import Singa.Utils.Sorting
import Singa.Utils.TwoWay
import Singa.Neuralnet.CreateGraph
import Singa.Neuralnet.Spans
import Singa.Neuralnet.Connections
import Singa.Neuralnet.Bridging
import Singa.Communication.Msg
import Singa.Utils.ParamMsg
import Singa.Trainer.Stub
import Singa.Trainer.Server
import Singa.Trainer.Requests
import Singa.Trainer.Updates
import Singa.Trainer.GradMean
import Singa.Trainer.SharedGrad
import Singa.Trainer.Groups
import Singa.Trainer.Isolation
import Singa.Trainer.Control
import Singa.Trainer.Sync
import Singa.Trainer.SliceLife
import Singa.Trainer.System
import Singa.Trainer.Rounds
import Singa.Trainer.AsyncRounds
import Singa.Trainer.SyncRounds
import Singa.Trainer.PutGet
import Singa.Trainer.GetVersion
import Singa.Utils.Updater
import Singa.Utils.LearningRate
import Singa.Utils.ListJobs
import Singa.Trainer.PutMultipliers
import Singa.Trainer.Transfer
import Singa.Trainer.Ledger
import Singa.Trainer.Reassembly
import Singa.Trainer.Placement
import Singa.Base.Bytes
import Singa.Utils.DataShard
import Singa.Utils.ShardBuffers
import Singa.Utils.ShardRoundTrip
import Singa.Utils.ShardAppend
import Singa.Base.Orbit
import Singa.Base.PathTree
import Singa.Base.Simulation
import Singa.Utils.ShardWalk
import Singa.Utils.ShardTail
import Singa.Utils.ShardSessions
import Singa.Base.Gather
import Singa.Neuralnet.SplitOrder
import Singa.Neuralnet.NodeNames
import Singa.Neuralnet.UniqueNodes
import Singa.Neuralnet.Net
import Singa.Neuralnet.Partitions
import Singa.Neuralnet.Built
import Singa.Neuralnet.Resolve
import Singa.Neuralnet.ShareParams
import Singa.Neuralnet.NewNet
import Singa.Neuralnet.StarNet
import Singa.Neuralnet.Owners
import Singa.Neuralnet.Sharing
import Singa.Neuralnet.ShareFrom
import Singa.Trainer.Setup
import Singa.Trainer.SliceNet
import Singa.Trainer.Checkpoint
import Singa.Trainer.Subscription
import Singa.Communication.Packing
import Singa.Communication.FormatFrame
import Singa.Communication.Router
import Singa.Communication.RouterBuffer
import Singa.Base.Decimal
import Singa.Communication.Wire
import Singa.Base.Text
import Singa.Utils.Metric
import Singa.Utils.MetricReset
import Singa.Web.ChartRecord
import Singa.Base.Rank
import Singa.Utils.ClusterRt
import Singa.Utils.RegistProc
import Singa.Base.Events
import Singa.Trainer.BridgeBlobs
import Singa.Trainer.StubLoop
import Singa.Base.Tally
import Singa.Trainer.GroupNets
import Singa.Trainer.ShardEntries
import Singa.Trainer.SliceTables
import Singa.Trainer.SyncReminder
import Singa.Trainer.Resume
import Singa.Neuralnet.ShardData
import Singa.Trainer.NoServers
import Singa.Utils.Blob
import Singa.Utils.CopyFrom
import Singa.Utils.BlobMemory
import Singa.Utils.BlobRuns
import Singa.Neuralnet.LayerBlob
import Singa.Neuralnet.SliceLayer
import Singa.Base.Access
import Singa.Neuralnet.SoftmaxLoss
import Singa.Neuralnet.RGBImage
import Singa.Neuralnet.ImageSlots
import Singa.Web.Model
import Singa.Web.Package
import Singa.Web.ConfText
import Singa.Web.RequiredFields
import Singa.Web.ParseMessage
import Singa.Base.Braces
import Singa.Web.ReadConf
import Singa.Web.ReadObject
import Singa.Web.ConfRoundTrip
import Singa.Web.Editor
import Singa.Web.RepeatedFields
import Singa.Base.Pairing
import Singa.Base.Patches
import Singa.Base.Velocity
import Singa.Mshadow.Exp
import Singa.Mshadow.Patch
import Singa.Mshadow.Pool
import Singa.Mshadow.Tensor
import Singa.Mshadow.Motion
import Singa.Neuralnet.InnerProduct
import Singa.Neuralnet.Elementwise
import Singa.Neuralnet.Convolution
import Singa.Neuralnet.Pooling
import Singa.Neuralnet.LRN
import Singa.Neuralnet.SoftmaxGradient
import Singa.Neuralnet.NeuronLayer
import Singa.Neuralnet.BatchParts
import Singa.Trainer.BPWorker
import Singa.Trainer.ForwardMoves
import Singa.Trainer.BackProp
import Singa.Trainer.LocalUpdate
import Singa.Trainer.DataParallel
import Singa.Trainer.GroupStep
import Singa.Utils.SGroup
import Singa.Base.Regret
import Singa.Base.Momentum
import Singa.Utils.Updaters
import Singa.Base.Boltzmann
import Singa.Neuralnet.RBM
import Singa.Trainer.CDWorker
