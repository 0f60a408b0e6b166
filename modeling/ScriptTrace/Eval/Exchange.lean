import ScriptTrace.Eval.Basic
import ScriptTrace.Value.Operator

/-!
# Exchanging two elements

The array and both slots are checked before anything changes. The exchange itself goes in two
halves, each of which can be seen: after the first the array has the second element twice.
-/

namespace ScriptTrace

/-- Functions that a program can call. -/
inductive Builtin where
  | swap
deriving DecidableEq

/-- The function with a name. -/
def Builtin.ofName? (name : String) : Option Builtin := if name = "swap" then some .swap else none

/-- Two slots of an array that are to be exchanged. -/
structure Exchange where
  name : String
  array : ArrayId
  first : Nat
  second : Nat

namespace Exchange

/-- The exchange of two elements of a named array. -/
def resolve (name : String) (index1 index2 : Value) : Eval Exchange := do
  match ← Eval.lookup? name with
  | some (.array id) =>
    let h ← Eval.heap
    let first ← Eval.ofExcept (h.resolveIndex index1 name (h.length id))
    let second ← Eval.ofExcept (h.resolveIndex index2 name (h.length id))
    return ⟨name, id, first, second⟩
  | _ => Eval.fail (.undefinedArray name)

/-- Record the array as it is now. -/
def recordHalf (x : Exchange) (line : Option UInt32) : Eval Unit := do
  let h ← Eval.heap
  Eval.record line (.swap x.name x.first x.second (h.snapshotElements x.array))

/-- Exchange the two elements. The first half is always recorded, the second only if it has a
line. -/
def perform (x : Exchange) (line1 line2 : Option UInt32) : Eval Unit := do
  let h ← Eval.heap
  let old := h.read x.array x.first
  Eval.write x.array x.first (h.read x.array x.second)
  x.recordHalf line1
  Eval.write x.array x.second old
  if line2.isSome then x.recordHalf line2

end Exchange

end ScriptTrace
