import EvmAssigner.Assertions
import EvmAssigner.Balances
import EvmAssigner.Baseline
import EvmAssigner.ByteOrder
import EvmAssigner.Bytecode
import EvmAssigner.BytecodeReads
import EvmAssigner.BytecodeRows
import EvmAssigner.CallGas
import EvmAssigner.Comparator
import EvmAssigner.Confinement
import EvmAssigner.CreateSeeds
import EvmAssigner.Creation
import EvmAssigner.DataSection
import EvmAssigner.Eof
import EvmAssigner.EofAgreement
import EvmAssigner.EofFormat
import EvmAssigner.EofHeader
import EvmAssigner.EofHeaderChecks
import EvmAssigner.EofHeights
import EvmAssigner.EofLayout
import EvmAssigner.EofReads
import EvmAssigner.EofSoundness
import EvmAssigner.EofSteps
import EvmAssigner.EofSuccess
import EvmAssigner.EofSweep
import EvmAssigner.EofTyping
import EvmAssigner.EofValidation
import EvmAssigner.FailedFrames
import EvmAssigner.Forwarding
import EvmAssigner.FrameRows
import EvmAssigner.FrameVariants
import EvmAssigner.GasLeft
import EvmAssigner.HashedBytes
import EvmAssigner.IndexOperands
import EvmAssigner.Jumps
import EvmAssigner.Lib.Action
import EvmAssigner.Lib.Chunks
import EvmAssigner.Lib.Fuel
import EvmAssigner.Lib.Layout
import EvmAssigner.Lib.TwoRuns
import EvmAssigner.MemoryBounds
import EvmAssigner.MemoryCells
import EvmAssigner.MemoryEffects
import EvmAssigner.MemoryGas
import EvmAssigner.MemoryRuns
import EvmAssigner.MemoryTrace
import EvmAssigner.MoreFuel
import EvmAssigner.MoreGas
import EvmAssigner.Positions
import EvmAssigner.Preparation
import EvmAssigner.PushImmediates
import EvmAssigner.Reset
import EvmAssigner.RjumpDestinations
import EvmAssigner.Rules
import EvmAssigner.Runs
import EvmAssigner.RwAdvice
import EvmAssigner.RwDecode
import EvmAssigner.SignedWords
import EvmAssigner.SizedMemory
import EvmAssigner.Spending
import EvmAssigner.StackBounds
import EvmAssigner.StackEffects
import EvmAssigner.StackReads
import EvmAssigner.StackRefinement
import EvmAssigner.StackRuns
import EvmAssigner.StackTrace
import EvmAssigner.StackTyping
import EvmAssigner.StaticFrames
import EvmAssigner.StorageChain
import EvmAssigner.Termination
import EvmAssigner.TraceFits
import EvmAssigner.VariantSteps
import EvmAssigner.VmHost
import EvmAssigner.VmRuns
import EvmAssigner.VmSteps
import EvmAssigner.VmStorage
import EvmAssigner.Worklist
