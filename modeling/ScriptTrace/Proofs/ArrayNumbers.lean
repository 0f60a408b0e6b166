import Mathlib.Logic.ExistsUnique
import ScriptTrace.Proofs.HeapNumbers

/-!
# The numbers of arrays

An array counts as a number only through arrays of one element. From an array whose only element is
an array, the conversion goes on to that one, unless it has met it already; `Heap.Descends` says
where it comes to rest. It always does, in one array, because there are only so many arrays to
meet. The elements of that array decide the number (`endNumber`).

All that counts of an array of any other length is whether it is empty. So heaps in which arrays
have the same lengths, and those of one element also the same element, give every value the same
number, and every index the same slot (`Heap.SameSingles`).
-/

namespace ScriptTrace

/-- The number at the end of a conversion, by the elements of the array in which it comes to rest.
If the only one of them is an array, this has been met before. -/
def endNumber : List Value → Number
  | [] | [.undefined] | [.array _] => 0.0
  | [.number n] => n
  | [.boolean _] | _ :: _ :: _ => .nan

namespace Heap

/-- Whether the only element of an array is another array. -/
def Wraps (h : Heap) (outer inner : ArrayId) : Prop := (h.elements outer).toList = [.array inner]

/-- Where a conversion comes to rest that is at an array and has met some arrays before. -/
inductive Descends (h : Heap) : List ArrayId → ArrayId → ArrayId → Prop
  | stop {met : List ArrayId} {id : ArrayId}
    (hstop : ∀ inner, h.Wraps id inner → inner ∈ id :: met) : Descends h met id id
  | step {met : List ArrayId} {id inner last : ArrayId} (hwraps : h.Wraps id inner)
    (hnew : inner ∉ id :: met) (hrest : Descends h (id :: met) inner last) : Descends h met id last

variable {h h' : Heap} {met : List ArrayId} {id inner last : ArrayId} {v : Value}

theorem Wraps.unique {inner' : ArrayId} (hwraps : h.Wraps id inner) (hwraps' : h.Wraps id inner') :
    inner = inner' := by
  rw [Wraps] at hwraps hwraps'
  rw [hwraps] at hwraps'
  cases hwraps'
  rfl

theorem Wraps.length_eq (hwraps : h.Wraps id inner) : h.length id = 1 := by
  rw [length, ← Array.length_toList, hwraps, List.length_singleton]

theorem Wraps.lt_nextId (hwraps : h.Wraps id inner) : id < h.nextId := by
  refine lt_nextId_of_mem_elements (v := .array inner) (Array.mem_toList_iff.mp ?_)
  rw [hwraps]
  exact List.mem_singleton_self _

/-! ## Where a conversion comes to rest -/

/-- A conversion comes to rest, since every step leaves fewer arrays to meet. -/
theorem exists_descends (h : Heap) (met : List ArrayId) (id : ArrayId) (_hnew : id ∉ met) :
    ∃ last, h.Descends met id last := by
  by_cases hstep : ∃ inner, h.Wraps id inner ∧ inner ∉ id :: met
  · obtain ⟨inner, hwraps, hinner⟩ := hstep
    obtain ⟨last, hrest⟩ := exists_descends h (id :: met) inner hinner
    exact ⟨last, .step hwraps hinner hrest⟩
  · refine ⟨id, .stop fun inner hwraps ↦ Decidable.byContradiction fun hinner ↦ ?_⟩
    exact hstep ⟨inner, hwraps, hinner⟩
termination_by h.unvisited met
decreasing_by exact unvisited_cons_lt hwraps.lt_nextId _hnew

theorem Descends.unique {last' : ArrayId} (hdescends : h.Descends met id last)
    (hdescends' : h.Descends met id last') : last = last' := by
  induction hdescends with
  | stop hstop =>
    cases hdescends' with
    | stop => rfl
    | step hwraps hnew => exact absurd (hstop _ hwraps) hnew
  | step hwraps hnew _ ih =>
    cases hdescends' with
    | stop hstop => exact absurd (hstop _ hwraps) hnew
    | step hwraps' _ hrest' =>
      obtain rfl := hwraps.unique hwraps'
      exact ih hrest'

theorem toNumberIn_of_mem (hmem : id ∈ met) : h.toNumberIn met (.array id) = 0.0 := by
  rw [toNumberIn, dif_pos hmem]

/-- The number of an array that wraps no array is decided by its elements alone. -/
theorem toNumberIn_of_not_wraps (hnew : id ∉ met) (hwraps : ∀ inner, ¬h.Wraps id inner) :
    h.toNumberIn met (.array id) = endNumber (h.elements id).toList := by
  rw [toNumberIn_array h hnew]
  rcases helements : (h.elements id).toList with _ | ⟨v, _ | ⟨w, rest⟩⟩
  · rfl
  · cases v with
    | number | boolean | undefined => rfl
    | array inner => exact absurd helements (hwraps inner)
  · cases v <;> rfl

/-- The number of an array that wraps another is found there. -/
theorem toNumberIn_of_wraps (hnew : id ∉ met) (hwraps : h.Wraps id inner) :
    h.toNumberIn met (.array id) = h.toNumberIn (id :: met) (.array inner) := by
  rw [toNumberIn_array h hnew, hwraps]

/-- The number of an array is the one at the end of the conversion. -/
theorem toNumberIn_of_descends (hdescends : h.Descends met id last) (hnew : id ∉ met) :
    h.toNumberIn met (.array id) = endNumber (h.elements last).toList := by
  induction hdescends with
  | @stop met id hstop =>
    by_cases hwraps : ∃ inner, h.Wraps id inner
    · obtain ⟨inner, hwraps⟩ := hwraps
      rw [toNumberIn_of_wraps hnew hwraps, toNumberIn_of_mem (hstop inner hwraps), hwraps,
        endNumber]
    · exact toNumberIn_of_not_wraps hnew fun inner hinner ↦ hwraps ⟨inner, hinner⟩
  | step hwraps hinner _ ih => rw [toNumberIn_of_wraps hnew hwraps, ih hinner]

/-! ## Converting with one stack -/

/-- The number of a value as a machine finds it that has one stack for the arrays that it is inside
of. Deeper than `depth` it does not go. -/
def toNumberOnStack (h : Heap) : Nat → Value → StateT (List ArrayId) Option Number
  | 0, _ => failure
  | _ + 1, .number n => return n
  | _ + 1, .boolean b => return .ofBool b
  | _ + 1, .undefined => return .nan
  | depth + 1, .array id => do
    if id ∈ (← get) then
      return 0.0
    else
      match (h.elements id).toList with
      | [.array inner] =>
        modify (id :: ·)
        let n ← h.toNumberOnStack depth (.array inner)
        modify List.tail
        return n
      | elements => return endNumber elements

/-- With one level for every array that it is not inside of, the machine finds the number, and its
stack is what it was before. -/
theorem toNumberOnStack_eq {depth : Nat} (hdepth : h.unvisited met < depth) :
    (h.toNumberOnStack depth v).run met = some (h.toNumberIn met v, met) := by
  induction depth generalizing met v with
  | zero => cases hdepth
  | succ depth ih =>
    cases v with
    | number | boolean | undefined =>
      rw [toNumberIn]
      rfl
    | array id =>
      by_cases hid : id ∈ met
      · rw [toNumberIn_of_mem hid]
        simp [toNumberOnStack, hid]
      · by_cases hwraps : ∃ inner, h.Wraps id inner
        · obtain ⟨inner, hwraps⟩ := hwraps
          have hlt := unvisited_cons_lt hwraps.lt_nextId hid
          have hinner := ih (v := .array inner) (Nat.lt_of_lt_of_le hlt (Nat.le_of_lt_succ hdepth))
          rw [Wraps] at hwraps
          rw [toNumberIn_of_wraps hid hwraps]
          simp [toNumberOnStack, hid, hwraps, hinner]
        · rw [toNumberIn_of_not_wraps hid fun inner hinner ↦ hwraps ⟨inner, hinner⟩]
          have helements : ∀ inner, (h.elements id).toList ≠ [.array inner] := fun inner hinner ↦
            hwraps ⟨inner, hinner⟩
          simp [toNumberOnStack, hid]

/-! ## Arrays of other lengths -/

/-- Whether arrays have the same lengths in two heaps, and those of one element the same element. -/
structure SameSingles (h h' : Heap) : Prop where
  length_eq : ∀ id, h'.length id = h.length id
  elements_eq : ∀ id, h.length id = 1 → h'.elements id = h.elements id

theorem sameSingles_write (hlength : h.length id ≠ 1) (slot : Nat) (v : Value) :
    h.SameSingles (h.write id slot v) where
  length_eq := length_write h id slot v
  elements_eq id' hsingle := by
    rw [elements_write, if_neg]
    rintro rfl
    exact hlength hsingle

/-- Of elements that are not one alone, only whether there are any counts. -/
theorem endNumber_of_length_ne_one {elements : List Value} (hlength : elements.length ≠ 1) :
    endNumber elements = if elements.length = 0 then 0.0 else .nan := by
  rcases elements with _ | ⟨v, _ | ⟨w, rest⟩⟩
  · rfl
  · exact absurd rfl hlength
  · cases v <;> rfl

namespace SameSingles

theorem wraps_iff (hsame : h.SameSingles h') : h'.Wraps id inner ↔ h.Wraps id inner := by
  constructor
  · intro hwraps
    have hlength := (hsame.length_eq id).symm.trans hwraps.length_eq
    rwa [Wraps, hsame.elements_eq id hlength] at hwraps
  · intro hwraps
    rwa [Wraps, hsame.elements_eq id hwraps.length_eq]

theorem descends (hsame : h.SameSingles h') (hdescends : h.Descends met id last) :
    h'.Descends met id last := by
  induction hdescends with
  | stop hstop => exact .stop fun inner hwraps ↦ hstop inner (hsame.wraps_iff.mp hwraps)
  | step hwraps hnew _ ih => exact .step (hsame.wraps_iff.mpr hwraps) hnew ih

theorem endNumber_eq (hsame : h.SameSingles h') (id : ArrayId) :
    endNumber (h'.elements id).toList = endNumber (h.elements id).toList := by
  by_cases hlength : h.length id = 1
  · rw [hsame.elements_eq id hlength]
  · have hlength' : h'.length id ≠ 1 := by rwa [hsame.length_eq]
    have hsize := hsame.length_eq id
    simp only [length, ← Array.length_toList] at hlength hlength' hsize
    rw [endNumber_of_length_ne_one hlength', endNumber_of_length_ne_one hlength, hsize]

/-- Only arrays of one element are looked into. -/
theorem toNumber_eq (hsame : h.SameSingles h') (v : Value) : h'.toNumber v = h.toNumber v := by
  cases v with
  | number | boolean | undefined => rw [toNumber, toNumber, toNumberIn, toNumberIn]
  | array id =>
    obtain ⟨last, hdescends⟩ := h.exists_descends [] id List.not_mem_nil
    rw [toNumber, toNumber, toNumberIn_of_descends hdescends List.not_mem_nil,
      toNumberIn_of_descends (hsame.descends hdescends) List.not_mem_nil, hsame.endNumber_eq]

end SameSingles

/-- **Numbers look through arrays of one element only.** Whatever arrays share or contain:

* the number of a value is found with no deeper recursion than there are arrays, on a stack that is
  then as it was;
* from every array the conversion comes to rest in exactly one;
* the elements of that one decide the number;
* no value changes its number, and no index its slot, when arrays of other lengths get other
  elements. -/
theorem toNumber_looks_through (h : Heap) :
    (∀ v, (h.toNumberOnStack (h.nextId + 1) v).run [] = some (h.toNumber v, [])) ∧
      (∀ id, ∃! last, h.Descends [] id last) ∧
      (∀ id last, h.Descends [] id last →
        h.toNumber (.array id) = endNumber (h.elements last).toList) ∧
      ∀ h', h.SameSingles h' → ∀ v, h'.toNumber v = h.toNumber v ∧
        ∀ array length, h'.resolveIndex v array length = h.resolveIndex v array length := by
  refine ⟨fun v ↦ toNumberOnStack_eq ?_, fun id ↦ ?_, fun id last hdescends ↦ ?_,
    fun h' hsame v ↦ ⟨hsame.toNumber_eq v, ?_⟩⟩
  · have hall := List.length_filter_le (· ∉ ([] : List ArrayId)) (List.range h.nextId)
    rw [List.length_range] at hall
    exact Nat.lt_succ_of_le hall
  · obtain ⟨last, hdescends⟩ := h.exists_descends [] id List.not_mem_nil
    exact ⟨last, hdescends, fun last' hdescends' ↦ hdescends'.unique hdescends⟩
  · exact toNumberIn_of_descends hdescends List.not_mem_nil
  · exact resolveIndex_congr hsame.toNumber_eq v

/-- Two arrays that contain each other, one that leads to a number, and one of two elements. -/
def chains : Heap :=
  ⟨#[#[.array 1], #[.array 0], #[.array 3], #[.number 7.0], #[.number 1.0, .boolean true]]⟩

/-- The number of an array on a cycle is 0, and an array of one element has the number to which it
leads, also after a write to the array of two elements. -/
theorem toNumber_looks_through_chains :
    chains.SameSingles (chains.write 4 0 (.array 2)) ∧ chains.Descends [] 0 1 ∧
      chains.Descends [] 2 3 ∧ chains.toNumber (.array 0) = 0.0 ∧
      (chains.write 4 0 (.array 2)).toNumber (.array 2) = 7.0 := by
  obtain ⟨-, -, hnumber, hsame⟩ := chains.toNumber_looks_through
  have hwrite : chains.SameSingles (chains.write 4 0 (.array 2)) :=
    sameSingles_write (by decide) 0 _
  have hcycle : chains.Descends [] 0 1 := by
    refine .step rfl (by decide) (.stop fun inner hwraps ↦ ?_)
    cases hwraps
    exact List.mem_cons_of_mem _ List.mem_cons_self
  have hchain : chains.Descends [] 2 3 := by
    refine .step rfl (by decide) (.stop fun inner hwraps ↦ ?_)
    cases hwraps
  exact ⟨hwrite, hcycle, hchain, hnumber 0 1 hcycle,
    ((hsame _ hwrite (.array 2)).1).trans (hnumber 2 3 hchain)⟩

end Heap

end ScriptTrace
