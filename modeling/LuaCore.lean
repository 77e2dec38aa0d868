import LuaCore.Number.DoubleArith
import LuaCore.Number.Decimal
import LuaCore.Number.Numeral
import LuaCore.Text.Quoted
import LuaCore.Error
import LuaCore.Interner
import LuaCore.Config.Basic
import LuaCore.OrderedMap
import LuaCore.Table.Traversal
import LuaCore.Table.Weak
import LuaCore.Heap.Collect
import LuaCore.Store.Basic
import LuaCore.Store.Metatable
import LuaCore.Store.Operator
import LuaCore.Program.Run
import LuaCore.Program.Index
import LuaCore.Program.Operator
import LuaCore.Argument
import LuaCore.Joiner
import LuaCore.Proofs.OrderedMap
import LuaCore.Proofs.Table.WellFormed
import LuaCore.Proofs.Table.Entries
import LuaCore.Proofs.Table.FiniteMap
import LuaCore.Proofs.Arena
import LuaCore.Proofs.Heap.Reachable
import LuaCore.Proofs.Heap.Marking
import LuaCore.Proofs.Heap.Collect
import LuaCore.Proofs.Table.Removal
import LuaCore.Proofs.Table.Walk
import LuaCore.Proofs.Heap.Closed
import LuaCore.Proofs.Store.Sound
import LuaCore.Proofs.Store.Operations
import LuaCore.Proofs.Program.Closed
import LuaCore.Proofs.Arena.History
import LuaCore.Proofs.Interner.Content
import LuaCore.Proofs.Heap.Termination
import LuaCore.Proofs.Heap.Frame
import LuaCore.Proofs.Heap.Twice
import LuaCore.Proofs.Sequence.Lists
import LuaCore.Proofs.Program.Fuel
import LuaCore.Proofs.Program.Chain
import LuaCore.Proofs.Program.Trace
import LuaCore.Proofs.Program.Moments
import LuaCore.Proofs.Sequence.Circles
import LuaCore.Proofs.Program.Circles
import LuaCore.Proofs.Store.Moves
import LuaCore.Proofs.Joiner
import LuaCore.Proofs.Config.RoundTrip
import LuaCore.Proofs.Program.Moves
import LuaCore.Proofs.Program.Depth
import LuaCore.Proofs.Store.Names
import LuaCore.Proofs.Number.Comparison
import LuaCore.Proofs.Store.Comparison
import LuaCore.Proofs.Table.Border
import LuaCore.Proofs.Table.Identity
import LuaCore.Proofs.Table.Overwriting
import LuaCore.Proofs.Number.Digits
import LuaCore.Proofs.Number.Grammar
import LuaCore.Proofs.Store.IntegerText
import LuaCore.Proofs.Store.Lookup
import LuaCore.Proofs.Program.Index
import LuaCore.Proofs.Program.Callee
import LuaCore.Proofs.Program.Snapshot
import LuaCore.Proofs.Program.Arithmetic
import LuaCore.Proofs.Number.DoubleText
