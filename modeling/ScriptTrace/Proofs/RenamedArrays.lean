import ScriptTrace.Proofs.ArrayContents

/-!
# Arrays under other identities

Arrays are told apart by their identities, and nothing else is made of these. If the arrays of a
heap are renamed, one by one, the numbers and copies of values are what they were, and operators
give the renamed results. The images of arrays that are made later are fixed in advance: the
identities that the two heaps give next correspond.

This is what two evaluations of one array literal have in common.
-/

namespace ScriptTrace

/-- The same value with its array, if it is one, under another identity. -/
def Value.rename (σ : ArrayId → ArrayId) : Value → Value
  | number n => number n
  | boolean b => boolean b
  | array id => array (σ id)
  | undefined => undefined

namespace Value

variable (σ : ArrayId → ArrayId)

@[simp] theorem rename_number (n : Number) : (number n).rename σ = number n := rfl

@[simp] theorem rename_undefined : undefined.rename σ = undefined := rfl

@[simp] theorem rename_array (id : ArrayId) : (array id).rename σ = array (σ id) := rfl

/-- Only the identities of arrays are renamed. -/
theorem rename_plain {v : Value} (hv : ∀ id, v ≠ array id) : v.rename σ = v := by
  rcases v with n | b | id | _
  · rfl
  · rfl
  · exact absurd rfl (hv id)
  · rfl

@[simp] theorem isTruthy_rename (v : Value) : (v.rename σ).isTruthy = v.isTruthy := by
  cases v <;> rfl

@[simp] theorem typeName_rename (v : Value) : (v.rename σ).typeName = v.typeName := by
  cases v <;> rfl

end Value

namespace Heap

/-- Whether the arrays of a heap are found in another under other identities, one by one, and the
arrays that are made next will be. -/
structure Renamed (σ : ArrayId → ArrayId) (h h' : Heap) : Prop where
  injective : Function.Injective σ
  elements (id : ArrayId) : h'.elements (σ id) = (h.elements id).map (Value.rename σ)
  next (k : Nat) : σ (h.nextId + k) = h'.nextId + k

namespace Renamed

variable {σ : ArrayId → ArrayId} {h h' : Heap} (hσ : h.Renamed σ h')

include hσ

theorem length (id : ArrayId) : h'.length (σ id) = h.length id := by
  rw [Heap.length, Heap.length, hσ.elements, Array.size_map]

theorem read (id : ArrayId) (slot : Nat) :
    h'.read (σ id) slot = (h.read id slot).rename σ := by
  rw [Heap.read, Heap.read, read?, read?, hσ.elements, Array.getElem?_map]
  cases (h.elements id)[slot]? <;> rfl

/-! ## Steps on the arrays -/

theorem allocate (new : Array Value) :
    (h.allocate new).Renamed σ (h'.allocate (new.map (Value.rename σ))) := by
  have hnext : σ h.nextId = h'.nextId := hσ.next 0
  refine ⟨hσ.injective, fun id ↦ ?_, fun k ↦ ?_⟩
  · rw [elements_allocate, elements_allocate, ← hnext]
    by_cases hid : id = h.nextId
    · rw [if_pos hid, if_pos (congrArg σ hid)]
    · rw [if_neg hid, if_neg (hσ.injective.ne hid), hσ.elements]
  · rw [nextId_allocate, nextId_allocate, Nat.add_assoc, Nat.add_assoc]
    exact hσ.next (1 + k)

theorem write (id : ArrayId) (slot : Nat) (v : Value) :
    (h.write id slot v).Renamed σ (h'.write (σ id) slot (v.rename σ)) := by
  refine ⟨hσ.injective, fun id' ↦ ?_, fun k ↦ ?_⟩
  · rw [elements_write, elements_write, hσ.elements]
    by_cases hid : id = id'
    · rw [if_pos hid, if_pos (congrArg σ hid), Array.map_setIfInBounds]
    · rw [if_neg hid, if_neg (hσ.injective.ne hid)]
  · rw [nextId_write, nextId_write]
    exact hσ.next k

/-! ## Numbers and copies -/

theorem mem_map_iff {ancestors : List ArrayId} {id : ArrayId} :
    σ id ∈ ancestors.map σ ↔ id ∈ ancestors :=
  List.mem_map_of_injective hσ.injective

theorem toNumberIn (ancestors : List ArrayId) (v : Value) :
    h'.toNumberIn (ancestors.map σ) (v.rename σ) = h.toNumberIn ancestors v := by
  -- the number of an array in an array is found below one more ancestor
  generalize hn : h.unvisited ancestors = n
  induction n using Nat.strongRecOn generalizing ancestors v with
  | ind n ih =>
    cases v with
    | number | boolean | undefined => rw [Value.rename, Heap.toNumberIn, Heap.toNumberIn]
    | array id =>
      by_cases hnew : id ∈ ancestors
      · rw [Value.rename, Heap.toNumberIn, Heap.toNumberIn, dif_pos hnew,
          dif_pos (hσ.mem_map_iff.mpr hnew)]
      · rw [Value.rename, toNumberIn_array _ (mt hσ.mem_map_iff.mp hnew),
          toNumberIn_array _ hnew, hσ.elements, Array.toList_map]
        rcases helements : (h.elements id).toList with _ | ⟨v, _ | ⟨w, rest⟩⟩
        · rfl
        · have hlt : h.unvisited (id :: ancestors) < n := by
            rw [← hn]
            refine unvisited_cons_lt (lt_nextId_of_mem_elements (v := v) ?_) hnew
            rw [← Array.mem_toList_iff, helements]
            exact List.mem_singleton_self v
          cases v with
          | number | boolean | undefined => rfl
          | array inner => exact ih _ hlt (id :: ancestors) (.array inner) rfl
        · cases v <;> rfl

theorem toNumber (v : Value) : h'.toNumber (v.rename σ) = h.toNumber v := hσ.toNumberIn [] v

theorem snapshotIn (ancestors : List ArrayId) (v : Value) :
    h'.snapshotIn (ancestors.map σ) (v.rename σ) = h.snapshotIn ancestors v := by
  induction ancestors, v using Heap.snapshotIn.induct h with
  | case1 | case2 | case3 => rw [Value.rename, Heap.snapshotIn, Heap.snapshotIn]
  | case4 ancestors id hid =>
    rw [Value.rename, h.snapshotIn_array_of_mem hid,
      h'.snapshotIn_array_of_mem (hσ.mem_map_iff.mpr hid)]
  | case5 ancestors id hid ih =>
    rw [Value.rename, h.snapshotIn_array hid, h'.snapshotIn_array (mt hσ.mem_map_iff.mp hid),
      hσ.elements, Array.toList_map, List.map_map]
    exact congrArg Snapshot.array (List.map_congr_left fun e he ↦ ih e he)

theorem snapshot (v : Value) : h'.snapshot (v.rename σ) = h.snapshot v := hσ.snapshotIn [] v

theorem snapshotElements (id : ArrayId) :
    h'.snapshotElements (σ id) = h.snapshotElements id := by
  rw [Heap.snapshotElements, Heap.snapshotElements, hσ.elements, Array.toList_map, List.map_map]
  exact List.map_congr_left fun v _ ↦ hσ.snapshotIn [id] v

/-! ## Operators -/

theorem isSame (v w : Value) : Heap.isSame (v.rename σ) (w.rename σ) = Heap.isSame v w := by
  cases v with
  | number | boolean | undefined => cases w <;> rfl
  | array id =>
    cases w with
    | number | boolean | undefined => rfl
    | array id' => exact decide_eq_decide.mpr hσ.injective.eq_iff

theorem isEqual (v w : Value) : h'.isEqual (v.rename σ) (w.rename σ) = h.isEqual v w := by
  have hv := hσ.toNumber v
  have hw := hσ.toNumber w
  cases v with
  | undefined => cases w <;> rfl
  | number | boolean =>
    cases w with
    | undefined => rfl
    | number | boolean | array => exact congrArg₂ (· == ·) hv hw
  | array id =>
    cases w with
    | undefined => rfl
    | number | boolean => exact congrArg₂ (· == ·) hv hw
    | array id' => exact decide_eq_decide.mpr hσ.injective.eq_iff

theorem binary (op : BinaryOp) (v w : Value) :
    h'.binary op (v.rename σ) (w.rename σ) = (h.binary op v w).map (Value.rename σ) := by
  cases op with
  | both | either =>
    -- one of the operands is given back
    rw [Heap.binary, Heap.binary, Value.isTruthy_rename]
    exact congrArg Except.ok (apply_ite (Value.rename σ) _ _ _).symm
  | _ =>
    simp only [Heap.binary, hσ.toNumber, hσ.isSame, hσ.isEqual]
    rfl

theorem unary (op : UnaryOp) (v : Value) :
    h'.unary op (v.rename σ) = (h.unary op v).map (Value.rename σ) := by
  cases op <;> simp only [Heap.unary, hσ.toNumber, Value.isTruthy_rename] <;> rfl

theorem resolveIndex (index : Value) (array : String) (length : Nat) :
    h'.resolveIndex (index.rename σ) array length = h.resolveIndex index array length := by
  rw [Heap.resolveIndex, Heap.resolveIndex, slot?, slot?, hσ.toNumber]

end Renamed

end Heap

end ScriptTrace
