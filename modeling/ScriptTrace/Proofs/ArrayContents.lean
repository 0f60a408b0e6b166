import ScriptTrace.Proofs.UpkeepRun

/-!
# How the contents of arrays change

An array is changed by a write to a slot and by an exchange of two slots. A relation between earlier
and later contents that both keep, or exchanges alone, holds along every run, or along the runs of
programs that do not write to slots.
-/

namespace ScriptTrace

namespace Heap

/-- Whether the arrays of an earlier heap are all in a later one, with contents related to what they
were. -/
structure Within (P : Array Value → Array Value → Prop) (h h' : Heap) : Prop where
  nextId_le : h.nextId ≤ h'.nextId
  elements {id : ArrayId} (hid : id < h.nextId) : P (h.elements id) (h'.elements id)

variable {P : Array Value → Array Value → Prop}

theorem Within.refl (hrefl : ∀ elements, P elements elements) (h : Heap) : h.Within P h :=
  ⟨Nat.le_refl _, fun _ ↦ hrefl _⟩

theorem Within.trans (htrans : ∀ a b c, P a b → P b c → P a c) {h h' h'' : Heap}
    (hP : h.Within P h') (hP' : h'.Within P h'') : h.Within P h'' :=
  ⟨Nat.le_trans hP.nextId_le hP'.nextId_le, fun hid ↦
    htrans _ _ _ (hP.elements hid) (hP'.elements (Nat.lt_of_lt_of_le hid hP.nextId_le))⟩

theorem within_allocate (hrefl : ∀ elements, P elements elements) (h : Heap)
    (elements : Array Value) : h.Within P (h.allocate elements) := by
  refine ⟨?_, fun {id} hid ↦ ?_⟩
  · rw [nextId_allocate]
    exact Nat.le_succ _
  · rw [elements_allocate, if_neg (Nat.ne_of_lt hid)]
    exact hrefl _

theorem within_write (hrefl : ∀ elements, P elements elements) {h : Heap} {id : ArrayId}
    {slot : Nat} {v : Value} (hP : P (h.elements id) ((h.elements id).setIfInBounds slot v)) :
    h.Within P (h.write id slot v) := by
  refine ⟨Nat.le_of_eq (nextId_write ..).symm, fun {id'} _ ↦ ?_⟩
  rw [elements_write]
  by_cases hid : id = id'
  · subst hid
    rwa [if_pos rfl]
  · rw [if_neg hid]
    exact hrefl _

theorem read_of_lt (h : Heap) {id : ArrayId} {slot : Nat} (hslot : slot < (h.elements id).size) :
    h.read id slot = (h.elements id)[slot] := by
  rw [read, read?, Array.getElem?_eq_getElem hslot, Option.getD_some]

end Heap

namespace Exchange

/-- An exchange swaps two slots of its array, and leaves all other arrays alone. -/
theorem elements_exchanged {x : Exchange} {h : Heap} (hx : x.Found h) (id : ArrayId) :
    (x.exchanged h).elements id =
      if x.array = id then (h.elements x.array).swap x.first x.second hx.first hx.second
      else h.elements id := by
  rw [exchanged, Heap.elements_write, Heap.elements_write]
  by_cases hid : x.array = id
  · subst hid
    obtain ⟨hfirst, hsecond⟩ := hx
    rw [if_pos rfl, if_pos rfl, if_pos rfl, h.read_of_lt hfirst, h.read_of_lt hsecond]
    grind
  · rw [if_neg hid, if_neg hid, if_neg hid]

end Exchange

namespace Upkeep

/-- A relation between earlier and later contents of an array that exchanges keep. -/
def contents (P : Array Value → Array Value → Prop) (refl : ∀ elements, P elements elements)
    (trans : ∀ a b c, P a b → P b c → P a c)
    (swap : ∀ elements i j hi hj, P elements (elements.swap i j hi hj)) : Upkeep where
  Valid _ := True
  Fits _ _ := True
  Leads := Heap.Within P
  leads_refl := .refl refl
  leads_trans := .trans trans
  fits_of_leads _ _ := trivial
  fits_plain _ _ _ := trivial
  fits_get _ _ := trivial
  fits_read _ _ _ := trivial
  leads_allocate := Heap.within_allocate refl
  fits_allocate _ _ := trivial
  allocate _ _ := trivial
  leads_exchange {x h} hx := by
    refine ⟨?_, fun {id} _ ↦ ?_⟩
    · rw [Exchange.exchanged, Heap.nextId_write, Heap.nextId_write]
    · rw [Exchange.elements_exchanged hx]
      split
      · rename_i hid
        subst hid
        exact swap _ _ _ _ _
      · exact refl _
  exchange _ _ := trivial
  record _ _ _ _ := trivial
  bindRecorded _ _ _ _ _ := trivial

variable {P : Array Value → Array Value → Prop} {refl : ∀ elements, P elements elements}
  {trans : ∀ a b c, P a b → P b c → P a c}
  {swap : ∀ elements i j hi hj, P elements (elements.swap i j hi hj)}

theorem contents_admits_bind : (contents P refl trans swap).Admits .bind :=
  fun _ _ _ _ _ ↦ trivial

theorem contents_admits_write
    (hwrite : ∀ elements slot v, P elements (elements.setIfInBounds slot v)) :
    (contents P refl trans swap).Admits .write :=
  fun _ _ _ _ _ _ _ ↦ ⟨Heap.within_write refl (hwrite _ _ _), trivial⟩

/-- The contents of an array are as many as they were. -/
def sameLength : Upkeep :=
  .contents (fun elements elements' ↦ elements'.size = elements.size) (fun _ ↦ rfl)
    (fun _ _ _ h h' ↦ h'.trans h) fun _ _ _ _ _ ↦ Array.size_swap

theorem sameLength_admits (effect : Effect) : sameLength.Admits effect := by
  rcases effect with _ | _
  · exact contents_admits_bind
  · exact contents_admits_write fun _ _ _ ↦ Array.size_setIfInBounds

end Upkeep

end ScriptTrace
