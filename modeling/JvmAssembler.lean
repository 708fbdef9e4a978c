import JvmAssembler.Main
import JvmAssembler.Proofs.Labels
import JvmAssembler.Proofs.Advance
import JvmAssembler.Proofs.BranchFlow
import JvmAssembler.Proofs.OperandFlow
import JvmAssembler.Proofs.StackSoundness
import JvmAssembler.Proofs.BranchRun
import JvmAssembler.Proofs.ShortCircuit
import JvmAssembler.Proofs.ControlFlow
import JvmAssembler.Proofs.Negation
import JvmAssembler.Proofs.Probing
import JvmAssembler.Proofs.StackSlots
import JvmAssembler.Proofs.StackLimit
import JvmAssembler.Proofs.ConstantBytes
import JvmAssembler.Proofs.PoolLookup
import JvmAssembler.Proofs.Disassembly
import JvmAssembler.Proofs.RoundTrip
import JvmAssembler.Proofs.PoolRuns
import JvmAssembler.Proofs.Steps
import JvmAssembler.Proofs.DeadCode
import JvmAssembler.Proofs.LocalLimit
import JvmAssembler.Proofs.StackShift
import JvmAssembler.Proofs.HonestMemory
import JvmAssembler.Proofs.ProbeMemory
import JvmAssembler.Proofs.Encodable
import JvmAssembler.Proofs.MemberUse
import JvmAssembler.Proofs.PoolParsing
import JvmAssembler.Proofs.StableEncoding
import JvmAssembler.Proofs.ProgramRun
import JvmAssembler.Proofs.CallChecks
import JvmAssembler.Proofs.DescriptorGrammar
import JvmAssembler.Proofs.LexicalScopes
import JvmAssembler.Proofs.DeclarationOrder
import JvmAssembler.Proofs.LateBinding
import JvmAssembler.Proofs.CheckedComparison
import JvmAssembler.Proofs.AtomicConversion
import JvmAssembler.Proofs.OverloadResolution
import JvmAssembler.Proofs.Subtyping
import JvmAssembler.Proofs.IntegralConversion
import JvmAssembler.Proofs.FrameRuns
import JvmAssembler.Proofs.HeapMachine
import JvmAssembler.Proofs.LexicalEnvironment
import JvmAssembler.Proofs.PublicMembers
import JvmAssembler.Proofs.SampleRuns
import JvmAssembler.Proofs.SlotPairs
import JvmAssembler.Proofs.ConditionBuilders
import JvmAssembler.Proofs.SupertypeOrder
