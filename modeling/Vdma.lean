import Vdma.Lib.Rotation
import Vdma.Module.ExtentHooks
import Vdma.Module.System
import Vdma.Proofs.Asynchronous
import Vdma.Proofs.Covering
import Vdma.Proofs.Invalidation
import Vdma.Proofs.MemoryRegion
import Vdma.Proofs.Module.AllOrNothing
import Vdma.Proofs.Module.Bounds
import Vdma.Proofs.Module.CommandWire
import Vdma.Proofs.Module.ExtentHooks
import Vdma.Proofs.Module.Runs
import Vdma.Proofs.PeerAddresses
import Vdma.Proofs.Worker.Capacity
import Vdma.Proofs.Worker.Completion
import Vdma.Proofs.Worker.Entries
import Vdma.Proofs.Worker.Leases
import Vdma.Proofs.Worker.Parking
import Vdma.Proofs.Worker.Peers
import Vdma.Proofs.Worker.Quiesced
import Vdma.Proofs.Worker.Removal
import Vdma.Proofs.Worker.Teardown
import Vdma.Proofs.Hex
import Vdma.Proofs.Reaping
import Vdma.Proofs.Module.LeastLoaded
import Vdma.Fabric.Reply
import Vdma.Lib.Fairness
import Vdma.Proofs.AddressIndex
import Vdma.Proofs.Reply
import Vdma.Proofs.OperandContract
import Vdma.Lib.Retry
import Vdma.Proofs.Worker.Passes
import Vdma.Proofs.Worker.Liveness
import Vdma.Proofs.Worker.Progress
import Vdma.Proofs.Module.Clients
import Vdma.Proofs.Module.Answered
import Vdma.Proofs.Module.Truthful
import Vdma.Fabric.Pool
import Vdma.Proofs.Pool
import Vdma.Module.Pooled
import Vdma.Proofs.Module.PooledAnswered
import Vdma.Proofs.Module.Disconnected
import Vdma.Fabric.Opening
import Vdma.Module.Startup
import Vdma.Proofs.Module.Startup
