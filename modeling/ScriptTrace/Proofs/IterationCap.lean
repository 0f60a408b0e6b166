import ScriptTrace.Proofs.LockstepTree
import ScriptTrace.Syntax.Build

/-!
# Raising the iteration cap

A loop that the cap stops says so in the history. So a run that tells of no such loop goes the same
way under a higher cap: the cap decides nothing in it.

`Eval.SameUnlessCapped` compares a computation under the lower cap with the one under the higher.
Between the last round of a loop that the cap stops and the event that says so, the two have parted
already, so the rounds alone have a relation of their own (`Eval.SameUnlessStopped`). A history that
leaves out repeats may leave out that event too, but only after an equal one.
-/

namespace ScriptTrace

/-! ## Loops that the cap stops -/

/-- Details of the end of a loop equal no others. -/
theorem Details.eq_of_same_loopEnd {d : Details} {reason : LoopEnd} {iterations : Nat}
    (h : d.same (.loopEnd reason iterations) = true) : d = .loopEnd reason iterations := by
  cases d with
  | loopEnd reason' iterations' =>
    rw [same, Bool.and_eq_true, beq_iff_eq, beq_iff_eq] at h
    rw [h.1, h.2]
  | declare | loopUpdate | ifTest | swap | assign | assignElement =>
    exact absurd h Bool.false_ne_true

namespace Event

/-- Whether an event says that the cap stopped a loop. -/
def isCapped (e : Event) : Bool :=
  match e.details with
  | .loopEnd .iterationCap _ => true
  | _ => false

theorem isCapped_iff {e : Event} :
    e.isCapped = true ↔ ∃ iterations, e.details = .loopEnd .iterationCap iterations := by
  rw [isCapped.eq_def]
  split
  · rename_i iterations hdetails
    exact iff_of_true rfl ⟨iterations, hdetails⟩
  · rename_i hother
    exact iff_of_false Bool.false_ne_true fun ⟨iterations, hdetails⟩ ↦ hother iterations hdetails

/-- An event says nothing of the cap if one that equals it does not. -/
theorem isCapped_of_same {e e' : Event} (h : e.same e' = true) (hcap : e.isCapped = false) :
    e'.isCapped = false := by
  rw [Bool.eq_false_iff] at hcap ⊢
  intro hcap'
  obtain ⟨iterations, hdetails⟩ := isCapped_iff.mp hcap'
  rw [same, Bool.and_eq_true, hdetails] at h
  exact hcap (isCapped_iff.mpr ⟨iterations, Details.eq_of_same_loopEnd h.2⟩)

end Event

namespace Eval

/-- Whether two computations do the same, unless the first emits that the cap stopped a loop. -/
def SameUnlessCapped {α : Type} (m m' : Eval α) : Prop :=
  ∀ environment heap, ∃ ending events, m.Emits environment heap ending events ∧
    ((∀ e ∈ events, e.isCapped = false) → m'.Emits environment heap ending events)

namespace SameUnlessCapped

variable {α β : Type} {m m' : Eval α}

theorem of_oblivious (hm : Oblivious m) : SameUnlessCapped m m := by
  intro environment heap
  obtain ⟨ending, events, hm⟩ := hm environment heap
  exact ⟨ending, events, hm, fun _ ↦ hm⟩

theorem bind {k k' : α → Eval β} (hm : SameUnlessCapped m m')
    (hk : ∀ a, m.Gives a → SameUnlessCapped (k a) (k' a)) :
    SameUnlessCapped (m >>= k) (m' >>= k') := by
  intro environment heap
  obtain ⟨ending, events, hm, hm'⟩ := hm environment heap
  cases ending with
  | error failure s => exact ⟨_, events, hm.bind_error, fun hcap ↦ (hm' hcap).bind_error⟩
  | ok a s =>
    obtain ⟨ending, later, hk, hk'⟩ := hk a hm.gives s.1 s.2
    refine ⟨ending, events ++ later, hm.bind hk, fun hcap ↦ ?_⟩
    obtain ⟨hcap, hlater⟩ := List.forall_mem_append.mp hcap
    exact (hm' hcap).bind (hk' hlater)

theorem atNode (nodeType : String) (line : Option UInt32) (hm : SameUnlessCapped m m') :
    SameUnlessCapped (Eval.atNode nodeType line m) (Eval.atNode nodeType line m') := by
  intro environment heap
  obtain ⟨ending, events, hm, hm'⟩ := hm environment heap
  cases ending with
  | error failure s =>
    exact ⟨_, events, hm.atNode_error nodeType line,
      fun hcap ↦ (hm' hcap).atNode_error nodeType line⟩
  | ok a s =>
    exact ⟨_, events, hm.atNode nodeType line, fun hcap ↦ (hm' hcap).atNode nodeType line⟩

/-- A step that the cap has no part in does the same under both. -/
theorem lockstep : Lockstep (fun _ ↦ True) True fun {_} m m' ↦ SameUnlessCapped m m' where
  pure a := of_oblivious (compositional_oblivious.pure a)
  fail cause := of_oblivious (compositional_oblivious.fail cause)
  bind := bind
  atNode {_} nodeType {_ _ _ _} hline hm := by
    obtain rfl := hline trivial
    exact hm.atNode nodeType _
  heap := of_oblivious compositional_oblivious.heap
  lookup? _ := of_oblivious (compositional_oblivious.lookup? _)
  define _ v := of_oblivious (compositional_oblivious.define _ v)
  write array slot v := of_oblivious (compositional_oblivious.write array slot v)
  allocate elements := of_oblivious (compositional_oblivious.allocate elements)
  record hline details := by
    obtain rfl := hline trivial
    exact of_oblivious (compositional_oblivious.record _ details)

end SameUnlessCapped

/-! ## Loops -/

/-- Whether two loops do the same rounds, unless the cap stops the first one or a loop in it. -/
def SameUnlessStopped (m m' : Eval (LoopEnd × Nat)) : Prop :=
  ∀ environment heap, ∃ ending events, m.Emits environment heap ending events ∧
    ((∀ e ∈ events, e.isCapped = false) →
      (∃ iterations s, ending = .ok (.iterationCap, iterations) s) ∨
        m'.Emits environment heap ending events)

namespace SameUnlessStopped

theorem of_stopped (ran : Nat) (m' : Eval (LoopEnd × Nat)) :
    SameUnlessStopped (pure (.iterationCap, ran)) m' := fun environment heap ↦
  ⟨.ok (.iterationCap, ran) (environment, heap), [], fun _ ↦ rfl, fun _ ↦ .inl ⟨ran, _, rfl⟩⟩

theorem of_ended (ran : Nat) :
    SameUnlessStopped (pure (.condition, ran)) (pure (.condition, ran)) := fun environment heap ↦
  ⟨.ok (.condition, ran) (environment, heap), [], fun _ ↦ rfl, fun _ ↦ .inr fun _ ↦ rfl⟩

theorem bind {α : Type} {m m' : Eval α} {k k' : α → Eval (LoopEnd × Nat)}
    (hm : SameUnlessCapped m m') (hk : ∀ a, SameUnlessStopped (k a) (k' a)) :
    SameUnlessStopped (m >>= k) (m' >>= k') := by
  intro environment heap
  obtain ⟨ending, events, hm, hm'⟩ := hm environment heap
  cases ending with
  | error failure s => exact ⟨_, events, hm.bind_error, fun hcap ↦ .inr (hm' hcap).bind_error⟩
  | ok a s =>
    obtain ⟨ending, later, hk, hk'⟩ := hk a s.1 s.2
    refine ⟨ending, events ++ later, hm.bind hk, fun hcap ↦ ?_⟩
    obtain ⟨hcap, hlater⟩ := List.forall_mem_append.mp hcap
    exact (hk' hlater).imp_right fun hk' ↦ (hm' hcap).bind hk'

theorem iterate {test test' : Eval Bool} {body body' : Eval Unit}
    (htest : SameUnlessCapped test test') (hbody : SameUnlessCapped body body')
    {left left' : Nat} (hle : left ≤ left') (ran : Nat) :
    SameUnlessStopped (Eval.iterate test body left ran) (Eval.iterate test' body' left' ran) := by
  -- on the rounds that the lower cap has left; the higher one has at least as many
  induction left generalizing left' ran with
  | zero =>
    cases left' with
    | zero | succ =>
      refine bind htest fun proceed ↦ ?_
      cases proceed with
      | true => exact of_stopped ran _
      | false => exact of_ended ran
  | succ left ih =>
    obtain ⟨left', rfl⟩ : ∃ k, left' = k + 1 := ⟨left' - 1, by omega⟩
    refine bind htest fun proceed ↦ ?_
    cases proceed with
    | true => exact bind hbody fun _ ↦ ih (Nat.le_of_succ_le_succ hle) (ran + 1)
    | false => exact of_ended ran

end SameUnlessStopped

/-- A loop that the lower cap stops emits that, so loops are compared like everything else. -/
theorem SameUnlessCapped.loops {cap cap' : Nat} (hle : cap ≤ cap') :
    Loops True cap cap' fun {_} m m' ↦ SameUnlessCapped m m' := by
  intro test test' body body' line line' htest hbody hline
  obtain rfl := hline trivial
  intro environment heap
  obtain ⟨ending, events, hrounds, hrounds'⟩ :=
    SameUnlessStopped.iterate htest hbody hle 0 environment heap
  cases ending with
  | error failure s =>
    refine ⟨_, events, hrounds.bind_error, fun hcap ↦ ?_⟩
    rcases hrounds' hcap with ⟨_, _, h⟩ | hrounds'
    · cases h
    · exact hrounds'.bind_error
  | ok stopped s =>
    have hend : (record line (.loopEnd stopped.1 stopped.2)).Emits s.1 s.2 (.ok () s)
        [⟨line, .loopEnd stopped.1 stopped.2⟩] := fun _ ↦ rfl
    refine ⟨.ok () s, events ++ [⟨line, .loopEnd stopped.1 stopped.2⟩], hrounds.bind hend,
      fun hcap ↦ ?_⟩
    obtain ⟨hcap, hlast⟩ := List.forall_mem_append.mp hcap
    rcases hrounds' hcap with ⟨iterations, _, h⟩ | hrounds'
    · -- the event of the loop's end would say that the cap stopped it
      cases h
      exact absurd (hlast _ List.mem_cons_self) Bool.noConfusion
    · exact hrounds'.bind hend

end Eval

/-! ## What a history keeps -/

namespace History

theorem mem_recordAll_of_mem {h : History} {e : Event} (he : e ∈ h.events.toList)
    (events : List Event) : e ∈ (h.recordAll events).events.toList := by
  induction events generalizing h with
  | nil => exact he
  | cons e' rest ih =>
    refine ih ?_
    rw [toList_events_record]
    exact List.mem_append_left _ he

/-- A property that does not tell equal events apart holds of all events that were added, if it
holds of those that were kept. -/
theorem forall_of_forall_recordAll {Q : Event → Prop}
    (hQ : ∀ e e' : Event, e.same e' = true → Q e → Q e') {h : History} {events : List Event}
    (hall : ∀ e ∈ (h.recordAll events).events.toList, Q e) : ∀ e ∈ events, Q e := by
  induction events generalizing h with
  | nil => exact fun e he ↦ nomatch he
  | cons e rest ih =>
    refine List.forall_mem_cons.mpr ⟨?_, ih hall⟩
    have hlast : ∀ e' ∈ (h.record e).events.toList, Q e' :=
      fun e' he' ↦ hall e' (mem_recordAll_of_mem he' rest)
    rw [toList_events_record] at hlast
    by_cases hkeeps : h.keeps e = true
    · exact hlast e (by simp [hkeeps])
    · -- `e` equals the event that was kept last
      rw [keeps] at hkeeps
      split at hkeeps
      · exact absurd rfl hkeeps
      · split at hkeeps
        · rename_i last hback
          have hsame : last.same e = true := by simpa using hkeeps
          refine hQ last e hsame (hlast last (List.mem_append_left _ ?_))
          exact Array.mem_toList_iff.mpr (Array.mem_of_back? hback)
        · exact absurd rfl hkeeps

end History

namespace Program

/-- **Raising the cap only affects runs that hit it.** A run whose history does not say that the cap
stopped a loop is the same under every higher cap: it ends in the same way and with the same
history. -/
theorem runFrom_of_cap_le {cap cap' : Nat} (hle : cap ≤ cap') (policy : Policy)
    (swapDetection : Bool) (environment : Environment) (heap : Heap) (p : Program)
    (hcap : ∀ e ∈ (p.runFrom ⟨cap, policy, swapDetection⟩ environment heap).events,
      e.isCapped = false) :
    p.runFrom ⟨cap', policy, swapDetection⟩ environment heap =
      p.runFrom ⟨cap, policy, swapDetection⟩ environment heap := by
  have hsame : Eval.SameUnlessCapped (p.exec ⟨cap, policy, swapDetection⟩)
      ((p.relocate .identity).exec ⟨cap', policy, swapDetection⟩) :=
    Eval.SameUnlessCapped.lockstep.exec (.identity True) ⟨cap, policy, swapDetection⟩
      ⟨cap', policy, swapDetection⟩ rfl (Eval.SameUnlessCapped.loops hle)
      fun s _ ↦ .of_forall (fun _ ↦ trivial) (.stmt s)
  rw [relocate_identity] at hsame
  obtain ⟨ending, events, hrun, hrun'⟩ := hsame environment heap
  rw [(runFrom_of_emits hrun).2] at hcap
  have hemitted := History.forall_of_forall_recordAll (fun _ _ ↦ Event.isCapped_of_same) hcap
  have hstart := hrun (.empty policy)
  have hstart' := hrun' hemitted (.empty policy)
  rw [runFrom, runFrom, State.start, State.start, hstart, hstart']

/-- A loop whose body is to run twice. -/
def countToTwo : Program :=
  let i := Expr.ofName "i"
  .ofBody [.ofFor 1 3 (some (.declaration (.ofBindings 1 [("i", some (.ofNumber 0))])))
    (some (.ofBinary .less i (.ofNumber 2))) (some (.stepAfter .increment i)) (.ofBlock [])]

/-- A cap of exactly two rounds does not stop the loop, so a thousand make no difference. -/
theorem runFrom_countToTwo :
    (∀ e ∈ (countToTwo.runFrom ⟨2, .keepAll, true⟩ .empty .empty).events, e.isCapped = false) ∧
      countToTwo.runFrom ⟨1000, .keepAll, true⟩ .empty .empty =
        countToTwo.runFrom ⟨2, .keepAll, true⟩ .empty .empty := by
  have hcap : ∀ e ∈ (countToTwo.runFrom ⟨2, .keepAll, true⟩ .empty .empty).events,
      e.isCapped = false := by decide +kernel
  exact ⟨hcap, runFrom_of_cap_le (by decide) .keepAll true .empty .empty countToTwo hcap⟩

end Program

end ScriptTrace
