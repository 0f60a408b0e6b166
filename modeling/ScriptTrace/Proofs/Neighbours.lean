import Mathlib
import ScriptTrace.Proofs.Repeats
import ScriptTrace.Syntax.Build

/-!
# Neighbours in a history without repeats

Events are compared as their numbers are, and not-a-number differs from itself. So there are two
questions about two events: whether they are equal in that sense, and whether they are identical,
field by field, where not-a-number is one value. They part exactly at events that hold not-a-number
somewhere, however deep in a copy: such an event is identical to itself and equal to nothing
(`Event.same_iff`).

A history that leaves out repeats asks the first question. So it leaves out every identical event
but one that repeats not-a-number, and it has identical neighbours exactly where that happens
(`History.isChain_recordAll_iff`), as in `Program.assignTwice`.
-/

namespace ScriptTrace

/-! ## Identical events -/

namespace Number

/-- Whether two numbers are one value: they compare equal, or neither is a number. -/
def Identical (n m : Number) : Prop := (n == m) = true ∨ n.isNaN = true ∧ m.isNaN = true

theorem isNaN_eq_false_of_beq {n m : Number} (h : (n == m) = true) : n.isNaN = false := by
  rw [Float.beq_iff_ne_nan_and_eq] at h
  rw [Float.isNaN_eq_decide_eq_nan, decide_eq_false h.1]

theorem beq_self_of_isNaN_eq_false {n : Number} (h : n.isNaN = false) : (n == n) = true := by
  rw [Float.isNaN_eq_decide_eq_nan, decide_eq_false_iff_not] at h
  rw [Float.beq_iff_ne_nan_and_eq]
  exact ⟨h, h, .inl rfl⟩

theorem identical_refl (n : Number) : n.Identical n := by
  cases h : n.isNaN with
  | false => exact .inl (beq_self_of_isNaN_eq_false h)
  | true => exact .inr ⟨h, h⟩

/-- Identical numbers compare equal unless they are not-a-number. -/
theorem beq_iff_identical {n m : Number} :
    (n == m) = true ↔ n.Identical m ∧ n.isNaN = false := by
  constructor
  · intro h
    exact ⟨.inl h, isNaN_eq_false_of_beq h⟩
  · rintro ⟨h | ⟨hn, -⟩, hnumber⟩
    · exact h
    · rw [hnumber] at hn
      cases hn

end Number

namespace Snapshot

mutual

/-- Whether two copies are identical. -/
def Identical : Snapshot → Snapshot → Prop
  | number n, number m => n.Identical m
  | boolean b, boolean c => b = c
  | array xs, array ys => AllIdentical xs ys
  | undefined, undefined => True
  | circular, circular => True
  | _, _ => False

/-- Whether two lists of copies are identical. -/
def AllIdentical : List Snapshot → List Snapshot → Prop
  | [], [] => True
  | x :: xs, y :: ys => Identical x y ∧ AllIdentical xs ys
  | _, _ => False

end

mutual

/-- Whether not-a-number is somewhere in a copy. -/
def holdsNaN : Snapshot → Bool
  | number n => n.isNaN
  | array xs => anyHoldsNaN xs
  | boolean _ | undefined | circular => false

/-- Whether not-a-number is somewhere in a list of copies. -/
def anyHoldsNaN : List Snapshot → Bool
  | [] => false
  | x :: xs => holdsNaN x || anyHoldsNaN xs

end

mutual

theorem identical_refl (x : Snapshot) : x.Identical x := by
  cases x with
  | number n => exact n.identical_refl
  | boolean b => rfl
  | array xs => exact allIdentical_refl xs
  | undefined | circular => trivial

theorem allIdentical_refl (xs : List Snapshot) : AllIdentical xs xs := by
  cases xs with
  | nil => trivial
  | cons x xs => exact ⟨identical_refl x, allIdentical_refl xs⟩

end

mutual

/-- Identical copies are equal unless they hold not-a-number. -/
theorem same_iff {x y : Snapshot} : x.same y = true ↔ x.Identical y ∧ x.holdsNaN = false := by
  cases x with
  | number n =>
    cases y <;> first | exact Number.beq_iff_identical | simp [same, Identical]
  | boolean b =>
    cases y <;> simp [same, Identical, holdsNaN]
  | array xs =>
    cases y <;> first | exact sameAll_iff | simp [same, Identical]
  | undefined | circular =>
    cases y <;> simp [same, Identical, holdsNaN]

theorem sameAll_iff {xs ys : List Snapshot} :
    sameAll xs ys = true ↔ AllIdentical xs ys ∧ anyHoldsNaN xs = false := by
  cases xs with
  | nil => cases ys <;> simp [sameAll, AllIdentical, anyHoldsNaN]
  | cons x xs =>
    cases ys with
    | nil => simp [sameAll, AllIdentical]
    | cons y ys =>
      rw [sameAll, AllIdentical, anyHoldsNaN, Bool.and_eq_true, Bool.or_eq_false_iff, same_iff,
        sameAll_iff, and_and_and_comm]

end

end Snapshot

namespace Details

/-- Whether two details are identical, field by field. -/
def Identical : Details → Details → Prop
  | declare name value, declare name' value' => name = name' ∧ value.Identical value'
  | loopUpdate name value, loopUpdate name' value' => name = name' ∧ value.Identical value'
  | loopEnd reason iterations, loopEnd reason' iterations' =>
    reason = reason' ∧ iterations = iterations'
  | ifTest result, ifTest result' => result = result'
  | swap array first second state, swap array' first' second' state' =>
    array = array' ∧ first = first' ∧ second = second' ∧ Snapshot.AllIdentical state state'
  | assign name value, assign name' value' => name = name' ∧ value.Identical value'
  | assignElement array slot value state, assignElement array' slot' value' state' =>
    array = array' ∧ slot = slot' ∧ value.Identical value' ∧ Snapshot.AllIdentical state state'
  | _, _ => False

/-- Whether not-a-number is somewhere in the copies of details. -/
def holdsNaN : Details → Bool
  | declare _ value | loopUpdate _ value | assign _ value => value.holdsNaN
  | loopEnd .. | ifTest _ => false
  | swap _ _ _ state => Snapshot.anyHoldsNaN state
  | assignElement _ _ value state => value.holdsNaN || Snapshot.anyHoldsNaN state

theorem identical_refl (d : Details) : d.Identical d := by
  cases d <;> simp [Identical, Snapshot.identical_refl, Snapshot.allIdentical_refl]

theorem Identical.action_eq {d d' : Details} (h : d.Identical d') : d.action = d'.action := by
  cases d <;> cases d' <;> first | rfl | exact h.elim

/-- Identical details are equal unless they hold not-a-number. -/
theorem same_iff {d d' : Details} : d.same d' = true ↔ d.Identical d' ∧ d.holdsNaN = false := by
  cases d <;> cases d' <;>
    simp [same, Identical, holdsNaN, Snapshot.same_iff, Snapshot.sameAll_iff] <;> grind

end Details

namespace Event

/-- Whether two events are identical: the same line, the same action and the same details. -/
structure Identical (e e' : Event) : Prop where
  line : e.line = e'.line
  action : e.details.action = e'.details.action
  details : e.details.Identical e'.details

/-- Whether not-a-number is somewhere in an event. -/
def holdsNaN (e : Event) : Bool := e.details.holdsNaN

theorem identical_refl (e : Event) : e.Identical e := ⟨rfl, rfl, e.details.identical_refl⟩

/-- Identical events are equal unless they hold not-a-number. -/
theorem same_iff {e e' : Event} : e.same e' = true ↔ e.Identical e' ∧ e.holdsNaN = false := by
  rw [same, Bool.and_eq_true, beq_iff_eq, Details.same_iff]
  constructor
  · rintro ⟨hline, hdetails, hnumbers⟩
    exact ⟨⟨hline, hdetails.action_eq, hdetails⟩, hnumbers⟩
  · rintro ⟨hidentical, hnumbers⟩
    exact ⟨hidentical.line, hidentical.details, hnumbers⟩

end Event

/-! ## Neighbours -/

/-- Whether an event repeats not-a-number: the event before is identical and holds it. -/
def Event.RepeatsNaN (before e : Event) : Prop := before.Identical e ∧ before.holdsNaN = true

namespace History

variable {h : History}

/-- A history that leaves out repeats leaves out an event exactly if it is identical to the last
one and does not hold not-a-number. -/
theorem keeps_eq_false_iff {last : Event} (hpolicy : h.policy = .skipRepeats)
    (hlast : h.events.back? = some last) (e : Event) :
    h.keeps e = false ↔ last.Identical e ∧ last.holdsNaN = false := by
  rw [keeps_of_skipRepeats hpolicy, hlast, Option.any_some, Bool.not_eq_false', Event.same_iff]

/-- An event that is left out equals the last one, so neither holds not-a-number. -/
theorem exists_last_of_not_keeps (hpolicy : h.policy = .skipRepeats) {e : Event}
    (hkeeps : h.keeps e = false) :
    ∃ last, h.events.back? = some last ∧ last.holdsNaN = false ∧ e.holdsNaN = false := by
  rw [keeps_of_skipRepeats hpolicy, Bool.not_eq_false', Option.any_eq_true] at hkeeps
  obtain ⟨last, hlast, hsame⟩ := hkeeps
  exact ⟨last, hlast, (Event.same_iff.mp hsame).2, (Event.same_iff.mp (Event.same_symm hsame)).2⟩

/-- Recording an event leaves no identical neighbours exactly if there were none and the event
does not repeat not-a-number. -/
theorem isChain_record_iff (hpolicy : h.policy = .skipRepeats) (e : Event) :
    (h.record e).events.toList.IsChain (fun e e' ↦ ¬e.Identical e') ↔
      h.events.toList.IsChain (fun e e' ↦ ¬e.Identical e') ∧
        ∀ last ∈ h.events.back?, ¬last.RepeatsNaN e := by
  rw [toList_events_record]
  cases hkeeps : h.keeps e with
  | false =>
    obtain ⟨last, hlast, hnumbers, -⟩ := exists_last_of_not_keeps hpolicy hkeeps
    simp [hlast, Event.RepeatsNaN, hnumbers]
  | true =>
    -- a kept event is identical to the last one only if it repeats not-a-number
    have hrepeats : ∀ last ∈ h.events.back?, ¬last.Identical e ↔ ¬last.RepeatsNaN e := by
      intro last hlast
      have hkept := (keeps_eq_false_iff hpolicy hlast e).not.mp (by simp [hkeeps])
      rw [Event.RepeatsNaN, not_iff_not, iff_self_and]
      intro hidentical
      exact Bool.eq_true_of_not_eq_false fun hnumbers ↦ hkept ⟨hidentical, hnumbers⟩
    rw [if_pos rfl, List.isChain_append, Array.getLast?_toList]
    simp +contextual [hrepeats]

/-- After an event is recorded, another one repeats not-a-number in the history exactly if it
repeats that of the event, kept or not. -/
theorem forall_back_record_iff (hpolicy : h.policy = .skipRepeats) (e next : Event) :
    (∀ last ∈ (h.record e).events.back?, ¬last.RepeatsNaN next) ↔ ¬e.RepeatsNaN next := by
  rw [record]
  cases hkeeps : h.keeps e with
  | false =>
    obtain ⟨last, hlast, hnumbers, henumbers⟩ := exists_last_of_not_keeps hpolicy hkeeps
    simp [hlast, Event.RepeatsNaN, hnumbers, henumbers]
  | true => simp

/-- Recording events one after another leaves no identical neighbours exactly if there were none
and no event repeats not-a-number from the one before it. -/
theorem isChain_recordAll_iff (hpolicy : h.policy = .skipRepeats) (events : List Event) :
    (h.recordAll events).events.toList.IsChain (fun e e' ↦ ¬e.Identical e') ↔
      h.events.toList.IsChain (fun e e' ↦ ¬e.Identical e') ∧
        (∀ e ∈ events.head?, ∀ last ∈ h.events.back?, ¬last.RepeatsNaN e) ∧
        events.IsChain fun e e' ↦ ¬e.RepeatsNaN e' := by
  induction events generalizing h with
  | nil => simp
  | cons e rest ih =>
    rw [recordAll_cons, ih (by rw [policy_record, hpolicy]), isChain_record_iff hpolicy,
      List.isChain_cons]
    simp only [forall_back_record_iff hpolicy, List.head?_cons, Option.mem_some_iff,
      forall_eq', and_assoc]

/-- In a history that left out repeats from the start, no neighbours are identical exactly if no
event repeated not-a-number from the one before it. -/
theorem isChain_recordAll_empty_iff (events : List Event) :
    ((empty .skipRepeats).recordAll events).events.toList.IsChain (fun e e' ↦ ¬e.Identical e') ↔
      events.IsChain fun e e' ↦ ¬e.RepeatsNaN e' := by
  rw [isChain_recordAll_iff rfl]
  simp [empty]

/-- **No identical neighbours, but for not-a-number.** A history that leaves out repeats holds no
identical neighbours exactly if none of the events recorded in it, and none that the run emits,
repeats not-a-number from the one before it. -/
theorem isChain_notIdentical_iff (events : List Event) (cap : Nat) (swapDetection : Bool)
    (environment : Environment) (heap : Heap) (p : Program) :
    (((empty .skipRepeats).recordAll events).events.toList.IsChain (fun e e' ↦ ¬e.Identical e') ↔
      events.IsChain fun e e' ↦ ¬e.RepeatsNaN e') ∧
    ((p.runFrom ⟨cap, .skipRepeats, swapDetection⟩ environment heap).events.IsChain
        (fun e e' ↦ ¬e.Identical e') ↔
      (p.runFrom ⟨cap, .keepAll, swapDetection⟩ environment heap).events.IsChain
        fun e e' ↦ ¬e.RepeatsNaN e') := by
  refine ⟨isChain_recordAll_empty_iff events, ?_⟩
  obtain ⟨result, emitted, hrun⟩ := p.exists_events cap swapDetection environment heap
  have hfull : (p.runFrom ⟨cap, .keepAll, swapDetection⟩ environment heap).events = emitted := by
    rw [(hrun .keepAll).2, toList_events_recordAll rfl]
    rfl
  rw [(hrun .skipRepeats).2, hfull]
  exact isChain_recordAll_empty_iff emitted

end History

/-! ## Not-a-number twice -/

namespace Program

/-- A program that assigns not-a-number to `x` twice on one line. -/
def assignTwice : Program :=
  let assignment := Stmt.ofExpr 1 (.ofAssign .assign (.ofName "x") (.ofName "NaN"))
  .ofBody [assignment, assignment]

/-- The event of either assignment. -/
def assigned : Event := ⟨some 1, .assign "x" (Heap.empty.snapshot (.number .nan))⟩

theorem holdsNaN_assigned : assigned.holdsNaN = true := by
  show (Heap.empty.snapshot (.number .nan)).holdsNaN = true
  rw [Heap.snapshot, Heap.snapshotIn]
  decide

theorem events_assignTwice : (assignTwice.runFrom ⟨1000, .skipRepeats, true⟩ .empty .empty).events =
    ((History.empty .skipRepeats).recordAll [assigned, assigned]).events.toList := by
  rw [runFrom, exec, Stmt.execAll]
  rfl

/-- Identical neighbours can be left: the second assignment repeats not-a-number, and is kept. -/
theorem not_isChain_notIdentical :
    ¬∀ (cap : Nat) (swapDetection : Bool) (environment : Environment) (heap : Heap) (p : Program),
      (p.runFrom ⟨cap, .skipRepeats, swapDetection⟩ environment heap).events.IsChain
        fun e e' ↦ ¬e.Identical e' := by
  intro h
  have hchain := h 1000 true .empty .empty assignTwice
  rw [events_assignTwice, History.isChain_recordAll_empty_iff, List.isChain_pair] at hchain
  exact hchain ⟨assigned.identical_refl, holdsNaN_assigned⟩

end Program

end ScriptTrace
