import Rvm.Cap.Attenuation
import Rvm.Memory.Isolation
import Rvm.Context.Narrowing
import Rvm.Kernel.References
import Rvm.Kernel.Addressing
import Rvm.Rvf.Stream.Delivery
import Rvm.Host.Quota
import Rvm.Hal.FaithfulMap
import Rvm.Launch.Chains
import Rvm.Anchor.Canonical
import Rvm.Gpu.Accounting
import Rvm.Host.WindowQuota
import Rvm.Security.Attestation
import Rvm.Service.ReceiptBackpressure
import Rvm.Service.EnvelopeBinding
import Rvm.Rvf.Verify
import Rvm.Launch.Pins
import Rvm.Wasm.QuotaRuns
import Rvm.Wasm.AgentReplay
import Rvm.Wasm.FramingExact
import Rvm.Anchor.Signature
import Rvm.Context.WireFormats
import Rvm.Context.ReceiptCommitment
import Rvm.Context.TopResults
import Rvm.Cap.Atomicity
import Rvm.Cap.DeepProofLaw
import Rvm.Wasm.StreamingExact
import Rvm.Memory.BuddyMerging
import Rvm.Proof.EngineCalls
import Rvm.Partition.IpcIndex
import Rvm.Memory.TierRuns
import Rvm.Memory.RegionRuns
import Rvm.Memory.Decompression
import Rvm.Memory.ReconstructionOrder
import Rvm.Partition.ManagerRuns
import Rvm.Rvf.Stream.DescriptorCodec
import Rvm.Security.SignedGate
import Rvm.Context.UriGrammar
import Rvm.Coherence.Decay
import Rvm.Coherence.Pressure
import Rvm.Coherence.CutAnswers
import Rvm.Kernel.Refusals
import Rvm.Rvf.Stream.Refusals
import Rvm.Rvf.Stream.Stages
import Rvm.Kernel.Export
