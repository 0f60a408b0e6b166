import ScriptTrace.Number.Exact

/-!
# Values and the heap

A value is a number, a truth value, an array or undefined. Arrays are shared: a value holds only
the identity of an array, and the heap holds the elements. An array keeps its length for ever;
writing changes the element in one slot.

An identity that the heap does not know stands for an empty array.
-/

namespace ScriptTrace

/-- The identity of an array. -/
abbrev ArrayId := Nat

/-- A value of the traced language. -/
inductive Value where
  | number (n : Number)
  | boolean (b : Bool)
  | array (id : ArrayId)
  | undefined
deriving DecidableEq

instance : Inhabited Value := ⟨.undefined⟩

namespace Value

/-- The name of a value's type. -/
def typeName : Value → String
  | number _ => "number"
  | boolean _ => "boolean"
  | array _ => "array"
  | undefined => "undefined"

/-- Whether a value counts as true: all but `0`, not-a-number, `false` and undefined. -/
def isTruthy : Value → Bool
  | number n => !(n == 0.0) && !n.isNaN
  | boolean b => b
  | array _ => true
  | undefined => false

end Value

/-- The arrays of a run, by identity. -/
structure Heap where
  arrays : Array (Array Value)

namespace Heap

/-- A heap without arrays. -/
def empty : Heap := ⟨#[]⟩

/-- The elements of an array. -/
def elements (h : Heap) (id : ArrayId) : Array Value := h.arrays.getD id #[]

/-- The length of an array. -/
def length (h : Heap) (id : ArrayId) : Nat := (h.elements id).size

/-- The element in a slot, if the array has that slot. -/
def read? (h : Heap) (id : ArrayId) (slot : Nat) : Option Value := (h.elements id)[slot]?

/-- The element in a slot, undefined if the array has no such slot. -/
def read (h : Heap) (id : ArrayId) (slot : Nat) : Value := (h.read? id slot).getD .undefined

/-- Put a value into a slot. Without that slot nothing changes. -/
def write (h : Heap) (id : ArrayId) (slot : Nat) (v : Value) : Heap :=
  ⟨h.arrays.modify id (·.setIfInBounds slot v)⟩

/-- The identity that the next array gets. -/
def nextId (h : Heap) : ArrayId := h.arrays.size

/-- Add an array, under the identity `h.nextId`. -/
def allocate (h : Heap) (elements : Array Value) : Heap := ⟨h.arrays.push elements⟩

@[simp] theorem nextId_write (h : Heap) (id : ArrayId) (slot : Nat) (v : Value) :
    (h.write id slot v).nextId = h.nextId := by
  simp [write, nextId]

/-- A write changes one slot of one array. -/
theorem elements_write (h : Heap) (id : ArrayId) (slot : Nat) (v : Value) (id' : ArrayId) :
    (h.write id slot v).elements id' =
      if id = id' then (h.elements id').setIfInBounds slot v else h.elements id' := by
  rw [elements, elements, write, Array.getD_eq_getD_getElem?, Array.getD_eq_getD_getElem?,
    Array.getElem?_modify]
  by_cases hid : id = id'
  · rw [if_pos hid, if_pos hid]
    cases h.arrays[id']? with
    | none => simp
    | some elements => rfl
  · rw [if_neg hid, if_neg hid]

@[simp] theorem length_write (h : Heap) (id : ArrayId) (slot : Nat) (v : Value) (id' : ArrayId) :
    (h.write id slot v).length id' = h.length id' := by
  rw [length, length, elements_write]
  by_cases hid : id = id'
  · rw [if_pos hid, Array.size_setIfInBounds]
  · rw [if_neg hid]

theorem read?_write (h : Heap) (id : ArrayId) (slot : Nat) (v : Value) (id' : ArrayId)
    (slot' : Nat) : (h.write id slot v).read? id' slot' =
      if id = id' ∧ slot = slot' then (if slot < h.length id then some v else none)
      else h.read? id' slot' := by
  rw [read?, read?, elements_write]
  by_cases hid : id = id'
  · subst hid
    rw [if_pos rfl, Array.getElem?_setIfInBounds, length]
    by_cases hslot : slot = slot'
    · simp [hslot]
    · simp [hslot]
  · rw [if_neg hid, if_neg fun h ↦ hid h.1]

@[simp] theorem nextId_allocate (h : Heap) (elements : Array Value) :
    (h.allocate elements).nextId = h.nextId + 1 := by
  simp [allocate, nextId]

/-- A new array changes no other. -/
theorem elements_allocate (h : Heap) (new : Array Value) (id : ArrayId) :
    (h.allocate new).elements id = if id = h.nextId then new else h.elements id := by
  rw [elements, elements, allocate, nextId, Array.getD_eq_getD_getElem?,
    Array.getD_eq_getD_getElem?, Array.getElem?_push]
  by_cases hid : id = h.arrays.size
  · rw [if_pos hid, if_pos hid, Option.getD_some]
  · rw [if_neg hid, if_neg hid]

/-- The number of arrays that are not among `ancestors`. It bounds how far a path through the
heap can still go without meeting an array twice. -/
def unvisited (h : Heap) (ancestors : List ArrayId) : Nat :=
  ((List.range h.nextId).filter (· ∉ ancestors)).length

theorem lt_nextId_of_mem_elements {h : Heap} {id : ArrayId} {v : Value}
    (hv : v ∈ h.elements id) : id < h.nextId := by
  unfold nextId
  rcases Nat.lt_or_ge id h.arrays.size with hlt | hge
  · exact hlt
  · simp [elements, Array.getD_eq_getD_getElem?, Array.getElem?_eq_none hge] at hv

theorem unvisited_cons_lt {h : Heap} {ancestors : List ArrayId} {id : ArrayId}
    (hid : id < h.nextId) (hnew : id ∉ ancestors) :
    h.unvisited (id :: ancestors) < h.unvisited ancestors := by
  have hcons : (List.range h.nextId).filter (· ∉ id :: ancestors) =
      ((List.range h.nextId).filter (· ∉ ancestors)).filter (· ≠ id) := by
    rw [List.filter_filter]
    congr 1
    funext x
    simp [not_or]
  have hmem : id ∈ (List.range h.nextId).filter (· ∉ ancestors) := by
    simp [hid, hnew]
  rw [unvisited, unvisited, hcons]
  exact List.length_filter_lt_length_iff_exists.2 ⟨id, hmem, by simp⟩

end Heap

end ScriptTrace
