import ScriptTrace.Json.Basic
import ScriptTrace.Value.Basic

/-!
# Snapshots

What is recorded of a value is a copy that later writes cannot reach: the tree of everything that
the value leads to, cut where an array is met again inside itself. An array that is only shared is
copied at every place.

Snapshots are compared as their numbers are: not-a-number differs from itself, and the two zeros
are equal.
-/

namespace ScriptTrace

/-- A copy of a value. -/
inductive Snapshot where
  | number (n : Number)
  | boolean (b : Bool)
  | array (elements : List Snapshot)
  | undefined
  /-- An array inside itself. -/
  | circular

namespace Heap

/-- The copy of a value inside the arrays `ancestors`. -/
def snapshotIn (h : Heap) (ancestors : List ArrayId) (v : Value) : Snapshot :=
  match v with
  | .number n => .number n
  | .boolean b => .boolean b
  | .undefined => .undefined
  | .array id =>
    if _hnew : id ∈ ancestors then .circular
    else .array ((h.elements id).toList.attach.map fun ⟨e, _⟩ ↦ h.snapshotIn (id :: ancestors) e)
termination_by h.unvisited ancestors
decreasing_by
  rename_i he
  exact unvisited_cons_lt (lt_nextId_of_mem_elements (Array.mem_toList_iff.1 he)) _hnew

/-- The copy of a value. -/
def snapshot (h : Heap) (v : Value) : Snapshot := h.snapshotIn [] v

/-- The copies of the elements of an array. -/
def snapshotElements (h : Heap) (id : ArrayId) : List Snapshot :=
  (h.elements id).toList.map (h.snapshotIn [id])

/-- Inside itself an array is not copied again. -/
theorem snapshotIn_array_of_mem (h : Heap) {ancestors : List ArrayId} {id : ArrayId}
    (hid : id ∈ ancestors) : h.snapshotIn ancestors (.array id) = .circular := by
  rw [snapshotIn, dif_pos hid]

/-- The copy of an array is made of the copies of its elements inside it. -/
theorem snapshotIn_array (h : Heap) {ancestors : List ArrayId} {id : ArrayId}
    (hid : id ∉ ancestors) : h.snapshotIn ancestors (.array id) =
      .array ((h.elements id).toList.map (h.snapshotIn (id :: ancestors))) := by
  rw [snapshotIn, dif_neg hid]
  exact congrArg Snapshot.array (List.attach_map_val ..)

theorem snapshot_array (h : Heap) (id : ArrayId) :
    h.snapshot (.array id) = .array (h.snapshotElements id) :=
  h.snapshotIn_array List.not_mem_nil

theorem length_snapshotElements (h : Heap) (id : ArrayId) :
    (h.snapshotElements id).length = h.length id := by
  rw [snapshotElements, List.length_map, Array.length_toList, length]

/-- The copy of a value that is not an array does not depend on the arrays. -/
theorem snapshot_plain (h h' : Heap) {v : Value} (hv : ∀ id, v ≠ .array id) :
    h'.snapshot v = h.snapshot v := by
  rcases v with n | b | id | _
  · rw [snapshot, snapshotIn, snapshot, snapshotIn]
  · rw [snapshot, snapshotIn, snapshot, snapshotIn]
  · exact absurd rfl (hv id)
  · rw [snapshot, snapshotIn, snapshot, snapshotIn]

end Heap

namespace Snapshot

mutual

/-- Whether two copies are equal, numbers compared as numbers. -/
def same : Snapshot → Snapshot → Bool
  | number n, number m => n == m
  | boolean b, boolean c => b == c
  | array xs, array ys => sameAll xs ys
  | undefined, undefined => true
  | circular, circular => true
  | _, _ => false

/-- Whether two lists of copies are equal, numbers compared as numbers. -/
def sameAll : List Snapshot → List Snapshot → Bool
  | [], [] => true
  | x :: xs, y :: ys => same x y && sameAll xs ys
  | _, _ => false

end

mutual

/-- The text of a copy. -/
def display : Snapshot → String
  | number n => n.display
  | boolean b => if b then "true" else "false"
  | array elements => "[" ++ ", ".intercalate (displayAll elements) ++ "]"
  | undefined => "undefined"
  | circular => "[Circular]"

def displayAll : List Snapshot → List String
  | [] => []
  | x :: xs => display x :: displayAll xs

end

/-- Doubles hold every integer exactly up to this one, and no two of them share a double. -/
def largestExact : Nat := Nat.pow 2 53 - 1

/-- A number as JSON: an integer if it is one that doubles hold exactly, `null` if it is not
finite. -/
def jsonOfNumber (n : Number) : Json :=
  if finite : n.isFinite then
    match n.toInt? with
    | some (.ofNat k) => if k ≤ largestExact then .ofNat k else .number (.real n finite)
    | some (.negSucc k) =>
      if k < largestExact then .number (.negative (.ofInt (.negSucc k)))
      else .number (.real n finite)
    | none => .number (.real n finite)
  else
    .null

mutual

/-- A copy as JSON. -/
def toJson : Snapshot → Json
  | number n => jsonOfNumber n
  | boolean b => .bool b
  | array elements => .array (toJsonAll elements)
  | undefined => .null
  | circular => .string "[Circular]"

/-- The copies of a list as JSON. -/
def toJsonAll : List Snapshot → List Json
  | [] => []
  | x :: xs => toJson x :: toJsonAll xs

end

end Snapshot

end ScriptTrace
