import Tuniq.Interpreter.CallStack
import Tuniq.Interpreter.SyscallRules
import Tuniq.Interpreter.SwallowedCalls
import Tuniq.Interpreter.PanicFree
import Tuniq.Interpreter.StackFrames
import Tuniq.Library.Lockstep
import Tuniq.Interpreter.Portability
import Tuniq.Predicate.Setup
import Tuniq.Predicate.Drivers
import Tuniq.Predicate.Conformance
import Tuniq.Predicate.Loader
import Tuniq.Library.Codec
import Tuniq.Predicate.Verdicts
import Tuniq.Predicate.EntryPoint
import Tuniq.Coordinator.JournalDecode
import Tuniq.Coordinator.JournalFormat
import Tuniq.Coordinator.CircuitOutput
import Tuniq.Library.Transactions
import Tuniq.Coordinator.Ledger
import Tuniq.Coordinator.LedgerRules
import Tuniq.Coordinator.Invariant
import Tuniq.Coordinator.Replay
import Tuniq.Coordinator.RequestOrder
import Tuniq.Coordinator.Registry
import Tuniq.Coordinator.JournalBounds
import Tuniq.Coordinator.JournalLanguage
import Tuniq.Interpreter.MappedAccess
import Tuniq.Interpreter.Casts
import Tuniq.Interpreter.WideConstants
import Tuniq.Interpreter.Alu32
import Tuniq.Interpreter.Forms
import Tuniq.Interpreter.Failures
import Tuniq.Library.Framing
import Tuniq.Interpreter.MemoryFrame
import Tuniq.Interpreter.Copying
import Tuniq.Interpreter.Unmapped
import Tuniq.Interpreter.Placement
import Tuniq.Interpreter.LoadStore
import Tuniq.Library.Termination
import Tuniq.Interpreter.ForwardPrograms
import Tuniq.Predicate.InputLayout
import Tuniq.Predicate.SectionSearch
import Tuniq.Library.Positional
import Tuniq.Client.NegateG1
import Tuniq.Rust.Strings
import Tuniq.Prover.ImageId
import Tuniq.Prover.ImageIdText
import Tuniq.Client.ImageId
import Tuniq.Coordinator.InstructionData
import Tuniq.Client.Instructions
import Tuniq.Client.StoredImageId
import Tuniq.Library.Simulation
import Tuniq.Interpreter.Linking
import Tuniq.Interpreter.Calls
import Tuniq.Interpreter.Contracts
import Tuniq.Coordinator.Submission
import Tuniq.Coordinator.Dispatch
import Tuniq.Client.IntegrationTest
import Tuniq.Library.Session
import Tuniq.Client.Main
import Tuniq.Coordinator.Events
import Tuniq.Coordinator.Permanence
import Tuniq.Library.Ebpf
import Tuniq.Interpreter.FlatMemory
import Tuniq.Interpreter.InstructionSet
import Tuniq.Interpreter.EbpfRefinement
