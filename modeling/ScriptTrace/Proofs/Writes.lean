import ScriptTrace.Proofs.GrowingHistory
import ScriptTrace.Proofs.SlotsFound
import ScriptTrace.Proofs.UpkeepRun

/-!
# Expressions whose writes are recorded

Where an assignment or a step is a statement, or the update of a loop, the run records what it
writes. Such a run has three parts: the operands are evaluated, which says what is to be written and
where (`Expr.toWrite?`); it is written; and an event is recorded. `Expr.evalWrite_eq_ok_iff` takes
the first two apart. What is written to is a variable exactly if the target is a name.
-/

namespace ScriptTrace

/-! ## Events that are kept -/

/-- The state with one more event at the end of its history. -/
def State.emit (s : State) (e : Event) : State :=
  { s with history := { s.history with events := s.history.events.push e } }

/-- Under the policy that keeps everything, recording adds the event. -/
theorem Eval.record_eq_of_keepAll {s : State} (hpolicy : s.history.policy = .keepAll)
    (line : Option UInt32) (details : Details) :
    record line details s = .ok () (s.emit ⟨line, details⟩) := by
  have hkeeps : s.history.keeps ⟨line, details⟩ = true := by rw [History.keeps, hpolicy]
  have hrecord : s.history.record ⟨line, details⟩ =
      { s.history with events := s.history.events.push ⟨line, details⟩ } := by
    rw [History.record, if_pos hkeeps]
  rw [State.emit, ← hrecord]
  rfl

/-! ## Writes -/

namespace Place

/-- The variable that a place is, if it is no slot. -/
def name? : Place → Option String
  | named name => some name
  | slot .. => none

/-- A variable that is written to is bound to what is written. -/
theorem get?_written {p : Place} {name : String} (hp : p.name? = some name) (v : Value)
    (s : State) : (p.written v s).environment.get? name = some v := by
  rcases p with other | ⟨label, id, i⟩
  · cases hp
    rw [written, Environment.get?_define, if_pos rfl]
  · cases hp

/-- What comes after reading a place goes on in the same state. -/
theorem exists_of_read_bind_ok {α : Type} {p : Place} {k : Value → Eval α} {a : α} {s t : State}
    (h : (p.read >>= k) s = .ok a t) : ∃ old, k old s = .ok a t := by
  obtain ⟨old, u, hread, hk⟩ := Eval.exists_of_bind_ok h
  obtain rfl : u = s := (Eval.endState_of_ok hread).symm.trans (p.endState_read s)
  exact ⟨old, hk⟩

end Place

namespace Eval

/-- What an assignment is to write goes to its target, of which the place is found after the value.
-/
theorem exists_place_of_toAssign {op : AssignOp} {value : Eval Value} {place : Eval Place}
    {w : Written} {s u : State} (h : toAssign op value place s = .ok w u) :
    ∃ v t, value s = .ok v t ∧ place t = .ok w.place u := by
  by_cases hop : op.isSupported = true
  · rw [toAssign, if_pos hop] at h
    obtain ⟨v, t, hvalue, h⟩ := exists_of_bind_ok h
    obtain ⟨p, t', hplace, h⟩ := exists_of_bind_ok h
    rcases hbinary : op.binary? with _ | binary
    · rw [hbinary] at h
      cases h
      exact ⟨v, t, hvalue, hplace⟩
    · rw [hbinary] at h
      obtain ⟨old, h⟩ := Place.exists_of_read_bind_ok h
      obtain ⟨new, -, h⟩ := exists_of_ofExcept_bind_ok h
      cases h
      exact ⟨v, t, hvalue, hplace⟩
  · rw [toAssign, if_neg hop] at h
    cases h

/-- What a step is to write goes to its target. -/
theorem place_of_toStep {op : UpdateOp} {isBefore : Bool} {place : Eval Place}
    {x : Value × Written} {s u : State} (h : toStep op isBefore place s = .ok x u) :
    place s = .ok x.2.place u := by
  obtain ⟨p, t, hplace, h⟩ := exists_of_bind_ok h
  obtain ⟨old, h⟩ := Place.exists_of_read_bind_ok h
  cases h
  exact hplace

end Eval

namespace Expr

/-- What an assignment or a step writes to. -/
def target? : Expr → Option Expr
  | update _ target _ _ | assign _ target _ _ => some target
  | _ => none

/-- The operands of an assignment or a step: their evaluation says what is to be written and
where. -/
def toWrite? : Expr → Option (Eval Written)
  | update op target isBefore _ => some do return (← Eval.toStep op isBefore target.place).2
  | assign op target value _ => some (Eval.toAssign op value.eval target.place)
  | _ => none

variable {e : Expr} {s t u : State}

theorem policy_of_eval {v : Value} (h : e.eval s = .ok v t) :
    t.history.policy = s.history.policy :=
  (Eval.compositional_oblivious.eval e).policy_of_ok h

theorem policy_of_evalWrite {result : Option Written} (h : e.evalWrite s = .ok result t) :
    t.history.policy = s.history.policy :=
  (Eval.compositional_oblivious.localized.evalWrite (n := .stmt (.expression e none))
    List.mem_cons_self).policy_of_ok h

/-- An element as a target is a slot, with the source form of its array. -/
theorem exists_slot_of_place {object i : Expr} {loc : Option Location} {p : Place}
    (h : (index object i loc).place s = .ok p t) :
    ∃ id slot, p = .slot object.describe id slot := by
  obtain ⟨id, u, -, h⟩ := Eval.exists_of_bind_ok h
  obtain ⟨index, u, -, h⟩ := Eval.exists_of_bind_ok h
  obtain ⟨heap, u', -, h⟩ := Eval.exists_of_bind_ok h
  obtain ⟨slot, -, h⟩ := Eval.exists_of_ofExcept_bind_ok h
  cases h
  exact ⟨id, slot, rfl⟩

/-- A target is a variable if it is a name, and a slot otherwise. -/
theorem name?_of_place {target : Expr} {p : Place} (h : target.place s = .ok p t) :
    p.name? = target.name? := by
  cases target with
  | identifier name loc =>
    cases h
    rfl
  | index object i loc =>
    obtain ⟨id, slot, rfl⟩ := exists_slot_of_place h
    rfl
  | literal | binary | logical | unary | update | assign | array | property | call | conditional
  | unsupported => cases h

theorem exists_toWrite? {target : Expr} (htarget : e.target? = some target) :
    ∃ operands, e.toWrite? = some operands := by
  cases e with
  | assign | update => exact ⟨_, rfl⟩
  | literal | identifier | binary | logical | unary | array | index | property | call | conditional
  | unsupported => cases htarget

/-- What is to be written goes to the target. -/
theorem exists_place_of_toWrite? {m : Eval Written} (hm : e.toWrite? = some m) {w : Written}
    (h : m s = .ok w u) : ∃ target t, e.target? = some target ∧ target.place t = .ok w.place u := by
  cases e with
  | assign op target value loc =>
    cases hm
    obtain ⟨-, t, -, hplace⟩ := Eval.exists_place_of_toAssign h
    exact ⟨target, t, rfl, hplace⟩
  | update op target isBefore loc =>
    cases hm
    obtain ⟨x, hstep, rfl⟩ := Eval.bind_pure_eq_ok_iff.mp h
    exact ⟨target, s, rfl, Eval.place_of_toStep hstep⟩
  | literal | identifier | binary | logical | unary | array | index | property | call | conditional
  | unsupported => cases hm

private theorem bind_write_eq_ok_iff {m : Eval Written} {result : Option Written} :
    (do
      let w ← m
      return some (← w.place.write w.value)) s = .ok result t ↔
      ∃ w u, m s = .ok w u ∧ result = some w ∧ t = w.place.written w.value u := by
  rw [Eval.bind_eq_ok_iff]
  refine exists₂_congr fun w u ↦ and_congr_right fun _ ↦ ?_
  rw [Eval.bind_of_ok (w.place.write_eq w.value u)]
  constructor
  · intro h
    cases h
    exact ⟨rfl, rfl⟩
  · rintro ⟨rfl, rfl⟩
    rfl

/-- An assignment or a step evaluates its operands and writes last. Any other expression is just
evaluated. -/
theorem evalWrite_eq_ok_iff {result : Option Written} :
    e.evalWrite s = .ok result t ↔
      match e.toWrite? with
      | some m => ∃ w u, m s = .ok w u ∧ result = some w ∧ t = w.place.written w.value u
      | none => result = none ∧ ∃ v, e.eval s = .ok v t := by
  cases e with
  | assign op target value loc =>
    rw [evalWrite, Eval.atNode_eq_ok_iff, Eval.assign_eq, bind_assoc]
    exact bind_write_eq_ok_iff
  | update op target isBefore loc =>
    rw [evalWrite, Eval.atNode_eq_ok_iff, Eval.step_eq]
    simp only [bind_assoc, pure_bind]
    refine Iff.trans ?_ bind_write_eq_ok_iff
    simp only [bind_assoc, pure_bind]
  | literal | identifier | binary | logical | unary | array | index | property | call | conditional
  | unsupported =>
    refine Eval.bind_pure_eq_ok_iff.trans ?_
    rw [exists_and_right]
    exact and_comm.trans (and_congr_left fun _ ↦ eq_comm)

/-- An expression succeeds where its value counts if it does where its write does, in the same
state. -/
theorem exists_evalWrite_iff :
    (∃ result, e.evalWrite s = .ok result t) ↔ ∃ v, e.eval s = .ok v t := by
  cases e with
  | assign op target value loc =>
    rw [evalWrite, eval]
    simp only [Eval.atNode_eq_ok_iff]
    exact Eval.exists_bind_pure_iff.trans Eval.exists_bind_pure_iff.symm
  | update op target isBefore loc =>
    rw [evalWrite, eval]
    simp only [Eval.atNode_eq_ok_iff]
    exact Eval.exists_bind_pure_iff.trans (Eval.exists_bind_pure_iff (f := Prod.fst)).symm
  | literal | identifier | binary | logical | unary | array | index | property | call | conditional
  | unsupported => exact Eval.exists_bind_pure_iff

end Expr

end ScriptTrace
