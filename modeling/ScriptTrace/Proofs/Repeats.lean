import Mathlib
import ScriptTrace.Proofs.Oblivious

/-!
# Leaving out repeats

A history that leaves out repeats compares a new event with the last that it *kept*. What it ends
up with can be said without that: of all events, those that equal the event *right before* them are
missing. The two descriptions agree because equality of events is symmetric and transitive, so that
an event that was left out compares like the one it was left out for. Neither fact needs an event to
equal itself, which an event that holds not-a-number does not.

With this, a run that leaves out repeats is the run that keeps everything, filtered
(`Program.runFrom_skipRepeats`).
-/

namespace ScriptTrace

/-! ## Equality of events -/

namespace Number

theorem beq_symm {n m : Number} (h : (n == m) = true) : (m == n) = true := by
  rw [Float.beq_iff_ne_nan_and_eq] at h ⊢
  obtain ⟨hn, hm, h⟩ := h
  refine ⟨hm, hn, ?_⟩
  rcases h with h | h | h
  · exact .inl h.symm
  · exact .inr (.inr h.symm)
  · exact .inr (.inl h.symm)

theorem beq_trans {n m k : Number} (h : (n == m) = true) (h' : (m == k) = true) :
    (n == k) = true := by
  rw [Float.beq_iff_ne_nan_and_eq] at h h' ⊢
  obtain ⟨hn, -, h⟩ := h
  obtain ⟨-, hk, h'⟩ := h'
  refine ⟨hn, hk, ?_⟩
  rcases h with rfl | ⟨rfl, rfl⟩ | ⟨rfl, rfl⟩
  · exact h'
  · rcases h' with rfl | ⟨hzero, rfl⟩ | ⟨-, rfl⟩
    · exact .inr (.inl ⟨rfl, rfl⟩)
    · exact .inr (.inl ⟨rfl, rfl⟩)
    · exact .inl rfl
  · rcases h' with rfl | ⟨-, rfl⟩ | ⟨hzero, rfl⟩
    · exact .inr (.inr ⟨rfl, rfl⟩)
    · exact .inl rfl
    · exact .inr (.inr ⟨rfl, rfl⟩)

end Number

namespace Snapshot

mutual

theorem same_symm {x y : Snapshot} (h : x.same y = true) : y.same x = true := by
  cases x with
  | number n =>
    cases y <;> first | exact Number.beq_symm h | simp [same] at h
  | boolean b =>
    cases y <;> simp_all [same]
  | array xs =>
    cases y <;> first | exact sameAll_symm h | simp [same] at h
  | undefined | circular =>
    cases y <;> simp_all [same]

theorem sameAll_symm {xs ys : List Snapshot} (h : sameAll xs ys = true) :
    sameAll ys xs = true := by
  cases xs with
  | nil => cases ys <;> simp_all [sameAll]
  | cons x xs =>
    cases ys with
    | nil => simp [sameAll] at h
    | cons y ys =>
      rw [sameAll, Bool.and_eq_true] at h ⊢
      exact ⟨same_symm h.1, sameAll_symm h.2⟩

end

mutual

theorem same_trans {x y z : Snapshot} (h : x.same y = true) (h' : y.same z = true) :
    x.same z = true := by
  cases x with
  | number n =>
    cases y <;> cases z <;> first | exact Number.beq_trans h h' | simp [same] at h h'
  | boolean b =>
    cases y <;> cases z <;> simp_all [same]
  | array xs =>
    cases y <;> cases z <;> first | exact sameAll_trans h h' | simp [same] at h h'
  | undefined | circular =>
    cases y <;> cases z <;> simp_all [same]

theorem sameAll_trans {xs ys zs : List Snapshot} (h : sameAll xs ys = true)
    (h' : sameAll ys zs = true) : sameAll xs zs = true := by
  cases xs with
  | nil => cases ys <;> cases zs <;> simp_all [sameAll]
  | cons x xs =>
    cases ys with
    | nil => simp [sameAll] at h
    | cons y ys =>
      cases zs with
      | nil => simp [sameAll] at h'
      | cons z zs =>
        rw [sameAll, Bool.and_eq_true] at h h' ⊢
        exact ⟨same_trans h.1 h'.1, sameAll_trans h.2 h'.2⟩

end

end Snapshot

namespace Details

theorem same_symm {d d' : Details} (h : d.same d' = true) : d'.same d = true := by
  cases d <;> cases d' <;> simp only [same, Bool.and_eq_true, beq_iff_eq] at h ⊢ <;>
    first
    | contradiction
    | simp_all [Snapshot.same_symm, Snapshot.sameAll_symm]

theorem same_trans {d d' d'' : Details} (h : d.same d' = true) (h' : d'.same d'' = true) :
    d.same d'' = true := by
  cases d <;> cases d' <;> simp only [same, Bool.false_eq_true] at h <;>
    cases d'' <;> simp only [same, Bool.false_eq_true] at h' <;>
    simp only [same, Bool.and_eq_true, beq_iff_eq] at h h' ⊢ <;>
    grind [Snapshot.same_trans, Snapshot.sameAll_trans]

end Details

namespace Event

theorem same_symm {e e' : Event} (h : e.same e' = true) : e'.same e = true := by
  rw [same, Bool.and_eq_true, beq_iff_eq] at h ⊢
  exact ⟨h.1.symm, Details.same_symm h.2⟩

theorem same_trans {e e' e'' : Event} (h : e.same e' = true) (h' : e'.same e'' = true) :
    e.same e'' = true := by
  rw [same, Bool.and_eq_true, beq_iff_eq] at h h' ⊢
  exact ⟨h.1.trans h'.1, Details.same_trans h.2 h'.2⟩

/-- Events that are equal cannot be told apart by comparing them with a third. -/
theorem same_congr {e e' : Event} (h : e.same e' = true) (x : Event) : e.same x = e'.same x := by
  rw [Bool.eq_iff_iff]
  constructor
  · intro hx
    exact same_trans (same_symm h) hx
  · intro hx
    exact same_trans h hx

end Event

/-! ## Histories without repeats -/

/-- The events that differ from the one right before them, where `before` precedes the first. -/
def Event.withoutRepeats (before : Option Event) : List Event → List Event
  | [] => []
  | e :: rest =>
    if before.any (·.same e) then withoutRepeats (some e) rest
    else e :: withoutRepeats (some e) rest

namespace History

theorem keeps_of_skipRepeats {h : History} (hpolicy : h.policy = .skipRepeats) (e : Event) :
    h.keeps e = !h.events.back?.any (·.same e) := by
  rw [keeps, hpolicy]
  cases h.events.back? <;> rfl

/-- A history that leaves out repeats adds the events that differ from the one before, if its last
event compares like the one before the first. -/
theorem toList_events_recordAll_of_skipRepeats {h : History} (hpolicy : h.policy = .skipRepeats)
    (before : Option Event)
    (hbefore : ∀ x, h.events.back?.any (·.same x) = before.any (·.same x))
    (events : List Event) : (h.recordAll events).events.toList =
      h.events.toList ++ Event.withoutRepeats before events := by
  induction events generalizing h before with
  | nil => rw [recordAll_nil, Event.withoutRepeats, List.append_nil]
  | cons e rest ih =>
    have hkeeps := keeps_of_skipRepeats hpolicy e
    rw [recordAll_cons, Event.withoutRepeats]
    by_cases hsame : before.any (·.same e) = true
    · -- `e` is left out, so the last event stays; it compares like `e`, which it equals
      have hlast : ∀ x, h.events.back?.any (·.same x) = (some e).any (·.same x) := by
        intro x
        obtain ⟨last, hlast, hsame⟩ := (Option.any_eq_true _ _).mp ((hbefore e).trans hsame)
        rw [hlast]
        exact Event.same_congr hsame x
      have hrecord : h.record e = h := by
        rw [record, if_neg]
        simp [hkeeps, hbefore, hsame]
      rw [hrecord, if_pos hsame, ih hpolicy (some e) hlast]
    · have hkept : h.keeps e = true := by
        simp [hkeeps, hbefore, hsame]
      have hlast : ∀ x, (h.record e).events.back?.any (·.same x) = (some e).any (·.same x) := by
        intro x
        rw [record, if_pos hkept, Array.back?_push]
      rw [if_neg hsame, ih (by rw [policy_record, hpolicy]) (some e) hlast, toList_events_record,
        if_pos hkept, List.append_assoc, List.singleton_append]

end History

/-! ## Runs under the two policies -/

namespace Stmt

variable (config : Config) (policy : Policy)

theorem effects_withPolicy_of_forall {body : List Stmt}
    (h : ∀ s ∈ body, ∀ plan, s.effect { config with policy := policy } plan = s.effect config plan)
    (plan : Option SwapPlan) (position : Nat) :
    effects { config with policy := policy } plan position body =
      effects config plan position body := by
  induction body generalizing position with
  | nil => rw [effects_nil, effects_nil]
  | cons s rest ih =>
    rw [effects_cons, effects_cons, h s List.mem_cons_self none,
      ih fun s hs ↦ h s (List.mem_cons_of_mem _ hs)]

/-- The policy is for the history alone: what a statement does has no use for it. -/
theorem effect_withPolicy (plan : Option SwapPlan) (s : Stmt) :
    s.effect { config with policy := policy } plan = s.effect config plan := by
  induction s generalizing plan with
  | declaration d => rfl
  | forLoop init test update body loc hbody => rw [effect_forLoop, effect_forLoop, hbody none]
  | ifThen test consequent alternate loc hconsequent halternate =>
    rw [effect_ifThen, effect_ifThen]
    cases alternate with
    | none => simp only [hconsequent]
    | some s => simp only [hconsequent, halternate s rfl]
  | block body loc hbody =>
    rw [effect_block, effect_block]
    exact effects_withPolicy_of_forall config policy hbody plan 0
  | expression e loc => rfl
  | empty loc => rfl
  | unsupported nodeType loc => rfl

theorem effects_withPolicy (plan : Option SwapPlan) (position : Nat) (body : List Stmt) :
    effects { config with policy := policy } plan position body =
      effects config plan position body :=
  effects_withPolicy_of_forall config policy (fun s _ plan ↦ effect_withPolicy config policy plan s)
    plan position

end Stmt

namespace Program

/-- Under either policy a run ends in the same way and emits the same events, which it adds to an
empty history. -/
theorem exists_events (cap : Nat) (swapDetection : Bool) (environment : Environment) (heap : Heap)
    (p : Program) : ∃ result events, ∀ policy,
      (p.runFrom ⟨cap, policy, swapDetection⟩ environment heap).result = result ∧
        (p.runFrom ⟨cap, policy, swapDetection⟩ environment heap).events =
          ((History.empty policy).recordAll events).events.toList := by
  obtain ⟨ending, events, hexec⟩ :=
    p.oblivious_exec ⟨cap, .keepAll, swapDetection⟩ environment heap
  refine ⟨ending.result, events, fun policy ↦ ?_⟩
  have hsame : p.exec ⟨cap, policy, swapDetection⟩ = p.exec ⟨cap, .keepAll, swapDetection⟩ :=
    Stmt.effects_withPolicy ⟨cap, .keepAll, swapDetection⟩ policy none 0 p.body
  rw [← hsame] at hexec
  exact runFrom_of_emits hexec

/-- A run that leaves out repeats ends as the run that keeps everything does, and it keeps the
events of that run that differ from the one right before them. -/
theorem runFrom_skipRepeats (cap : Nat) (swapDetection : Bool) (environment : Environment)
    (heap : Heap) (p : Program) :
    let full := p.runFrom ⟨cap, .keepAll, swapDetection⟩ environment heap
    let filtered := p.runFrom ⟨cap, .skipRepeats, swapDetection⟩ environment heap
    filtered.result = full.result ∧ filtered.events = Event.withoutRepeats none full.events := by
  intro full filtered
  obtain ⟨result, events, h⟩ := exists_events cap swapDetection environment heap p
  have hfull : full.events = events := by
    rw [(h .keepAll).2, History.toList_events_recordAll rfl]
    rfl
  have hfiltered : filtered.events = Event.withoutRepeats none events := by
    rw [(h .skipRepeats).2,
      History.toList_events_recordAll_of_skipRepeats rfl none fun _ ↦ rfl]
    rfl
  constructor
  · rw [(h .skipRepeats).1, (h .keepAll).1]
  · rw [hfiltered, hfull]

end Program

end ScriptTrace
