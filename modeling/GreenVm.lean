import GreenVm.Vm
import GreenVm.ClassFile.Builder
import GreenVm.Instruction.Mnemonic
import GreenVm.Summary
import GreenVm.Proofs.FifoLock
import GreenVm.Proofs.Ledger
import GreenVm.Proofs.Synchronized
import GreenVm.Proofs.Ids
import GreenVm.Proofs.Initialization.Pursuit
import GreenVm.Proofs.Initialization.Order
import GreenVm.Proofs.Handling
import GreenVm.Proofs.Fairness
import GreenVm.Proofs.Queues
import GreenVm.Proofs.Queues.Retries
import GreenVm.Proofs.Queues.Standing
import GreenVm.Proofs.Clock
import GreenVm.Proofs.Idling
import GreenVm.Proofs.Queues.Agreement
import GreenVm.Proofs.Dispatch
import GreenVm.Proofs.Nesting
import GreenVm.Proofs.Retrying
import GreenVm.Proofs.Receivers
import GreenVm.Proofs.Returning
import GreenVm.Proofs.Arrays
import GreenVm.Proofs.Linking
import GreenVm.Proofs.Loading.Needs
import GreenVm.Proofs.Loading.History
import GreenVm.Proofs.Loading.Closure
import GreenVm.Proofs.Loading.UnderWay
import GreenVm.Proofs.CallTables
import GreenVm.Proofs.Overriding
import GreenVm.Proofs.DefaultMethods
import GreenVm.Proofs.Assignability
import GreenVm.Proofs.Starting
import GreenVm.Proofs.Descriptors
import GreenVm.Proofs.Fields
import GreenVm.Proofs.Lasting
import GreenVm.Proofs.Initialization.Effects
import GreenVm.Proofs.Faults.Runs
import GreenVm.Proofs.CauseChains
import GreenVm.Proofs.ElementAccess
import GreenVm.Proofs.ArrayCopy
import GreenVm.Proofs.NativeLinking
import GreenVm.Proofs.MultiArrays
import GreenVm.Proofs.Assembling
import GreenVm.Proofs.StringBuilders
import GreenVm.Proofs.Switches
import GreenVm.Proofs.Arising
import GreenVm.Proofs.ClassNames
import GreenVm.Proofs.Division
import GreenVm.Proofs.CallDepth
import GreenVm.Proofs.StackDepth
import GreenVm.Proofs.Canonical
import GreenVm.Proofs.NativeRegistry
