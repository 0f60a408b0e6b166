import ScriptTrace.Value.Basic

/-!
# Numbers of values

Arithmetic converts its operands. An array counts as its only element does, if that is a number
or an array; an empty array, undefined as the only element, and an array met again inside itself
count as 0, every other array as not a number.
-/

namespace ScriptTrace

namespace Heap

/-- The number of a value inside the arrays `ancestors`. -/
def toNumberIn (h : Heap) (ancestors : List ArrayId) (v : Value) : Number :=
  match v with
  | .number n => n
  | .boolean b => .ofBool b
  | .undefined => .nan
  | .array id =>
    if _hnew : id ∈ ancestors then 0.0
    else
      match _hid : (h.elements id).toList with
      | [] => 0.0
      | [.number n] => n
      | [.undefined] => 0.0
      | [.array inner] => h.toNumberIn (id :: ancestors) (.array inner)
      | _ => .nan
termination_by h.unvisited ancestors
decreasing_by
  refine unvisited_cons_lt (lt_nextId_of_mem_elements (v := .array inner) ?_) _hnew
  rw [← Array.mem_toList_iff, _hid]
  exact List.mem_singleton.2 rfl

/-- The number of a value. -/
def toNumber (h : Heap) (v : Value) : Number := h.toNumberIn [] v

/-- The slot that an index value addresses in an array of some length: the index counts as an
integer that is not negative and below the length. -/
def slot? (h : Heap) (index : Value) (length : Nat) : Option Nat :=
  let n := h.toNumber index
  match n.toNat? with
  | some slot => if slot < length ∧ n < .ofLength length then some slot else none
  | none => none

/-- The line that a value names: an integer from 1 up to the largest of 32 bits. -/
def lineNumber? (h : Heap) (v : Value) : Option UInt32 :=
  match (h.toNumber v).toNat? with
  | some line => if 1 ≤ line ∧ line < UInt32.size then some (.ofNat line) else none
  | none => none

end Heap

end ScriptTrace
