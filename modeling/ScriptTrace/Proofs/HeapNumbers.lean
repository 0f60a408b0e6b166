import ScriptTrace.Value.Operator

/-!
# What writes do to the numbers of values

Arithmetic looks into an array only if it has exactly one element. So a write to an array of any
other length changes the number of no value. A write that copies an element of an array to another
slot of it changes no number whatever the length: in an array of one element it copies the element
to where it is.
-/

namespace ScriptTrace

namespace Heap

/-- Writing what is there changes nothing. -/
theorem write_read (h : Heap) (id : ArrayId) (slot : Nat) :
    h.write id slot (h.read id slot) = h := by
  have hset : (h.elements id).setIfInBounds slot (h.read id slot) = h.elements id := by
    apply Array.ext_getElem?
    intro i
    rw [Array.getElem?_setIfInBounds, read, read?]
    by_cases hi : slot = i
    · subst hi
      by_cases hlt : slot < (h.elements id).size
      · simp [hlt]
      · simp [hlt]
    · rw [if_neg hi]
  have harrays : (h.write id slot (h.read id slot)).arrays = h.arrays := by
    apply Array.ext_getElem?
    intro i
    rw [write, Array.getElem?_modify]
    by_cases hi : id = i
    · subst hi
      rw [if_pos rfl]
      cases harray : h.arrays[id]? with
      | none => rfl
      | some array =>
        have helements : h.elements id = array := by
          rw [elements, Array.getD_eq_getD_getElem?, harray, Option.getD_some]
        rw [helements] at hset
        rw [Option.map_some, hset]
    · rw [if_neg hi]
  exact congrArg Heap.mk harrays

/-- The number of an array that is not met inside itself. -/
theorem toNumberIn_array (h : Heap) {ancestors : List ArrayId} {id : ArrayId}
    (hnew : id ∉ ancestors) : h.toNumberIn ancestors (.array id) =
      match (h.elements id).toList with
      | [] => 0.0
      | [.number n] => n
      | [.undefined] => 0.0
      | [.array inner] => h.toNumberIn (id :: ancestors) (.array inner)
      | _ => .nan := by
  rw [toNumberIn, dif_neg hnew]
  split <;> simp_all

/-- The number of an array that does not have exactly one element. -/
theorem toNumberIn_of_length_ne_one {h : Heap} {id : ArrayId} (hlength : h.length id ≠ 1)
    {ancestors : List ArrayId} (hnew : id ∉ ancestors) :
    h.toNumberIn ancestors (.array id) = if h.length id = 0 then 0.0 else .nan := by
  rw [toNumberIn_array h hnew]
  rw [length, ← Array.length_toList] at hlength ⊢
  generalize (h.elements id).toList = elements at hlength ⊢
  rcases elements with _ | ⟨v, _ | ⟨w, rest⟩⟩
  · rfl
  · exact absurd rfl hlength
  · have hne : (v :: w :: rest).length ≠ 0 := Nat.succ_ne_zero _
    rw [if_neg hne]
    cases v <;> rfl

/-- A write to an array whose length is not one changes no number. -/
theorem toNumberIn_write {h : Heap} {id : ArrayId} (hlength : h.length id ≠ 1) (slot : Nat)
    (new : Value) (ancestors : List ArrayId) (v : Value) :
    (h.write id slot new).toNumberIn ancestors v = h.toNumberIn ancestors v := by
  have hlength' : (h.write id slot new).length id ≠ 1 := by rwa [length_write]
  -- the number of an array in an array is found below one more ancestor
  generalize hn : h.unvisited ancestors = n
  induction n using Nat.strongRecOn generalizing ancestors v with
  | ind n ih =>
    cases v with
    | number | boolean | undefined => rw [toNumberIn, toNumberIn]
    | array id' =>
      by_cases hnew : id' ∈ ancestors
      · rw [toNumberIn, toNumberIn, dif_pos hnew, dif_pos hnew]
      · by_cases hid : id = id'
        · -- the array that is written to: only its length counts
          subst hid
          rw [toNumberIn_of_length_ne_one hlength' hnew, toNumberIn_of_length_ne_one hlength hnew,
            length_write]
        · rw [toNumberIn_array _ hnew, toNumberIn_array _ hnew, elements_write, if_neg hid]
          rcases helements : (h.elements id').toList with _ | ⟨v, _ | ⟨w, rest⟩⟩
          · rfl
          · have hlt : h.unvisited (id' :: ancestors) < n := by
              rw [← hn]
              refine unvisited_cons_lt (lt_nextId_of_mem_elements (v := v) ?_) hnew
              rw [← Array.mem_toList_iff, helements]
              exact List.mem_singleton_self v
            cases v with
            | number | boolean | undefined => rfl
            | array inner => exact ih _ hlt _ _ rfl
          · cases v <;> rfl

/-- Copying an element of an array to another slot of it changes no number. -/
theorem toNumber_write_read {h : Heap} {id : ArrayId} {slot slot' : Nat}
    (hslot : slot < h.length id) (hslot' : slot' < h.length id) (v : Value) :
    (h.write id slot (h.read id slot')).toNumber v = h.toNumber v := by
  by_cases hlength : h.length id = 1
  · obtain rfl : slot = slot' := by omega
    rw [write_read]
  · exact toNumberIn_write hlength slot _ [] v

/-- The slot of an array to which an index leads is one of its slots. -/
theorem lt_of_resolveIndex {h : Heap} {index : Value} {array : String} {length slot : Nat}
    (hslot : h.resolveIndex index array length = .ok slot) : slot < length := by
  rw [resolveIndex] at hslot
  split at hslot
  · rename_i slot' hsome
    cases hslot
    rw [slot?] at hsome
    split at hsome
    · split at hsome
      · rename_i hlt
        cases hsome
        exact hlt.1
      · cases hsome
    · cases hsome
  · cases hslot

/-- Operators only see the numbers of values. -/
theorem binary_congr {h h' : Heap} (hnumbers : ∀ v, h.toNumber v = h'.toNumber v) (op : BinaryOp)
    (a b : Value) : h.binary op a b = h'.binary op a b := by
  have hequal : h.isEqual a b = h'.isEqual a b := by
    cases a <;> cases b <;> simp only [isEqual, hnumbers]
  cases op <;> simp only [binary, hnumbers, hequal]

theorem unary_congr {h h' : Heap} (hnumbers : ∀ v, h.toNumber v = h'.toNumber v) (op : UnaryOp)
    (a : Value) : h.unary op a = h'.unary op a := by
  cases op <;> simp only [unary, hnumbers]

theorem resolveIndex_congr {h h' : Heap} (hnumbers : ∀ v, h.toNumber v = h'.toNumber v)
    (index : Value) (array : String) (length : Nat) :
    h.resolveIndex index array length = h'.resolveIndex index array length := by
  rw [resolveIndex, resolveIndex, slot?, slot?, hnumbers]

end Heap

end ScriptTrace
