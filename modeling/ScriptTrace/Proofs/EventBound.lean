import ScriptTrace.Proofs.EmitsAtMost
import ScriptTrace.Proofs.Visits
import ScriptTrace.Syntax.Build

/-!
# A bound on the events of a run

How many events a program can record is read off its tree and the iteration cap alone. A call in an
expression is an exchange at most, and an exchange has two events; whatever a loop does to its
counter, its body runs no more often than the cap allows, and its test once more than that.

The exchange of a swap idiom records as many events as the two writes that it replaces.
-/

namespace ScriptTrace

open Eval

/-! ## The bound -/

namespace Expr

/-- Whether an expression is a call. -/
def isCall : Expr → Bool
  | call .. => true
  | _ => false

/-- The number of calls in an expression. -/
def calls (e : Expr) : Nat := (e.nodes fun _ ↦ false).countP isCall

/-- How many events an expression can record: both halves of an exchange for each call. -/
def eventBound (e : Expr) : Nat := 2 * e.calls

/-- The bound for an expression that may be absent. -/
def optionalBound : Option Expr → Nat
  | none => 0
  | some e => e.eventBound

end Expr

/-- How many events a declaration can record: one for each name that it binds, besides those of the
values. -/
def Declaration.eventBound (d : Declaration) : Nat :=
  (d.declarators.map fun declarator ↦ 1 + Expr.optionalBound declarator.init).sum

/-- The bound for the first part of the head of a loop. -/
def ForInit.eventBound : Option ForInit → Nat
  | none => 0
  | some (declaration d) => d.eventBound
  | some (expression e) => e.eventBound

namespace Stmt

mutual

/-- How many events a statement can record, if `cap` is the iteration cap. -/
def eventBound (cap : Nat) (s : Stmt) : Nat :=
  match s with
  | declaration d => d.eventBound
  | forLoop init test update body _ =>
    ForInit.eventBound init + (cap + 1) * Expr.optionalBound test +
      cap * (body.eventBound cap + Expr.optionalBound update + 1) + 1
  | ifThen test consequent none _ => test.eventBound + 1 + consequent.eventBound cap
  | ifThen test consequent (some alternate) _ =>
    test.eventBound + 1 + max (consequent.eventBound cap) (alternate.eventBound cap)
  | block body _ => allEventBound cap body
  | expression e _ => e.eventBound + 1
  | empty _ | unsupported .. => 0

/-- How many events statements can record together. -/
def allEventBound (cap : Nat) : List Stmt → Nat
  | [] => 0
  | s :: rest => s.eventBound cap + allEventBound cap rest

end

end Stmt

/-- How many events a program can record. -/
def Program.eventBound (cap : Nat) (p : Program) : Nat := Stmt.allEventBound cap p.body

/-! ## Expressions -/

namespace Expr

/-- The calls in an expression are its own and those of its children. -/
theorem calls_eq (e : Expr) : e.calls = (e.children.map calls).sum + if e.isCall then 1 else 0 := by
  rw [calls, nodes_eq_cons, List.countP_cons, List.countP_flatMap]
  rfl

/-- The bound of an expression, from those of its children. -/
theorem eventBound_eq (e : Expr) :
    e.eventBound = (e.children.map eventBound).sum + if e.isCall then 2 else 0 := by
  have hsum : ∀ parts : List Expr, 2 * (parts.map calls).sum = (parts.map eventBound).sum := by
    intro parts
    induction parts with
    | nil => rfl
    | cons c rest ih =>
      rw [List.map_cons, List.map_cons, List.sum_cons, List.sum_cons, Nat.mul_add, ih]
      rfl
  rw [eventBound, calls_eq, Nat.mul_add, hsum]
  split <;> rfl

theorem eventBound_eq_of_children_one {e c : Expr} (hchildren : e.children = [c])
    (hcall : e.isCall = false) : e.eventBound = c.eventBound := by
  rw [eventBound_eq, hchildren, hcall]
  rfl

theorem eventBound_eq_of_children_two {e c c' : Expr} (hchildren : e.children = [c, c'])
    (hcall : e.isCall = false) : e.eventBound = c.eventBound + c'.eventBound := by
  rw [eventBound_eq, hchildren, hcall]
  rfl

theorem emitsAtMost_eval_and_place (e : Expr) :
    EmitsAtMost e.eventBound e.eval ∧ EmitsAtMost e.eventBound e.place := by
  -- an element is a target and a value, and both run its parts
  induction e using induction_of_children with
  | h e ih =>
    have hpart : ∀ c ∈ e.children, EmitsAtMost c.eventBound c.eval := fun c hc ↦ (ih c hc).1
    cases e with
    | literal value regex loc =>
      exact ⟨((EmitsAtMost.ofExcept _).mono (Nat.zero_le _)).atNode _ _, .fail _⟩
    | identifier name loc =>
      exact ⟨((EmitsAtMost.identifierValue name).mono (Nat.zero_le _)).atNode _ _, .pure _⟩
    | binary op left right loc =>
      rw [eventBound_eq_of_children_two rfl rfl]
      refine ⟨EmitsAtMost.atNode _ _ ?_, .fail _⟩
      refine (hpart left (by simp [children])).bind fun a ↦ ?_
      refine (hpart right (by simp [children])).bind_silent fun b ↦ ?_
      exact EmitsAtMost.heap.silent_bind fun h ↦ .ofExcept _
    | logical op left right loc =>
      rw [eventBound_eq_of_children_two rfl rfl]
      refine ⟨EmitsAtMost.atNode _ _ ?_, .fail _⟩
      split
      · refine (hpart left (by simp [children])).bind fun a ↦ ?_
        split
        · exact hpart right (by simp [children])
        · exact .pure a
      · exact .fail _
    | unary op operand loc =>
      rw [eventBound_eq_of_children_one rfl rfl]
      refine ⟨EmitsAtMost.atNode _ _ ?_, .fail _⟩
      refine (hpart operand List.mem_cons_self).bind_silent fun a ↦ ?_
      exact EmitsAtMost.heap.silent_bind fun h ↦ .ofExcept _
    | update op target isBefore loc =>
      rw [eventBound_eq_of_children_one rfl rfl]
      have hstep := EmitsAtMost.step op isBefore (ih target List.mem_cons_self).2
      exact ⟨(hstep.bind_silent fun _ ↦ .pure _).atNode _ _, .fail _⟩
    | assign op target value loc =>
      rw [eventBound_eq_of_children_two rfl rfl, Nat.add_comm]
      have hassign := EmitsAtMost.assign op (hpart value (by simp [children]))
        (ih target List.mem_cons_self).2
      exact ⟨(hassign.bind_silent fun _ ↦ .pure _).atNode _ _, .fail _⟩
    | array elements loc =>
      have hvalues := EmitsAtMost.evalElements fun e he ↦ hpart e (by simpa [children] using he)
      have hbound : (array elements loc).eventBound =
          ((elements.filterMap id).map eventBound).sum := eventBound_eq _
      rw [hbound]
      refine ⟨(hvalues.bind_silent fun values ↦ ?_).atNode _ _, .fail _⟩
      exact (EmitsAtMost.allocate _).silent_bind fun id ↦ .pure _
    | index object i loc =>
      rw [eventBound_eq_of_children_two rfl rfl]
      have helement := EmitsAtMost.element object (hpart object List.mem_cons_self)
        (hpart i (by simp [children]))
      exact ⟨(helement.bind_silent fun place ↦ .read place).atNode _ _, helement⟩
    | property object name loc =>
      rw [eventBound_eq_of_children_one rfl rfl]
      refine ⟨EmitsAtMost.atNode _ _ ?_, .fail _⟩
      refine (hpart object List.mem_cons_self).bind_silent fun v ↦ ?_
      exact EmitsAtMost.heap.silent_bind fun h ↦ .ofExcept _
    | call callee arguments loc =>
      have harguments := EmitsAtMost.evalAfterFirst fun e he ↦
        hpart e (List.mem_cons_of_mem _ he)
      refine ⟨EmitsAtMost.atNode _ _ ?_, .fail _⟩
      split
      · exact .fail _
      · split
        · exact .fail _
        · refine (harguments.swap _ _).mono ?_
          rw [eventBound_eq]
          exact Nat.add_le_add_right (Nat.le_add_left _ _) 2
    | conditional test consequent alternate loc =>
      refine ⟨EmitsAtMost.atNode _ _ ?_, .fail _⟩
      have hbound : (conditional test consequent alternate loc).eventBound =
          test.eventBound + (consequent.eventBound + alternate.eventBound) := eventBound_eq _
      rw [hbound]
      refine (hpart test List.mem_cons_self).bind fun a ↦ ?_
      split
      · exact (hpart consequent (by simp [children])).mono (Nat.le_add_right _ _)
      · exact (hpart alternate (by simp [children])).mono (Nat.le_add_left _ _)
    | unsupported nodeType loc => exact ⟨(EmitsAtMost.fail _).atNode _ _, .fail _⟩

theorem emitsAtMost_eval (e : Expr) : EmitsAtMost e.eventBound e.eval :=
  e.emitsAtMost_eval_and_place.1

theorem emitsAtMost_evalWrite (e : Expr) : EmitsAtMost e.eventBound e.evalWrite := by
  have heval : EmitsAtMost e.eventBound (do let _ ← e.eval; return none : Eval (Option Written)) :=
    e.emitsAtMost_eval.bind_silent fun _ ↦ .pure _
  cases e with
  | assign op target value loc =>
    rw [eventBound_eq_of_children_two rfl rfl, Nat.add_comm]
    have hassign := EmitsAtMost.assign op value.emitsAtMost_eval target.emitsAtMost_eval_and_place.2
    exact (hassign.bind_silent fun _ ↦ .pure _).atNode _ _
  | update op target isBefore loc =>
    rw [eventBound_eq_of_children_one rfl rfl]
    have hstep := EmitsAtMost.step op isBefore target.emitsAtMost_eval_and_place.2
    exact (hstep.bind_silent fun _ ↦ .pure _).atNode _ _
  | literal | identifier | binary | logical | unary | array | index | property | call | conditional
  | unsupported => exact heval

theorem emitsAtMost_holds (test : Option Expr) : EmitsAtMost (optionalBound test) (holds test) := by
  cases test with
  | none => exact .pure true
  | some e => exact e.emitsAtMost_eval.bind_silent fun v ↦ .pure _

end Expr

/-! ## Parts of statements -/

theorem Declaration.emitsAtMost_bind (line : Option UInt32) (d : Declarator) :
    EmitsAtMost (1 + Expr.optionalBound d.init) (bind line d) := by
  have hdefine : ∀ (name : String) (v : Value), EmitsAtMost 1 (do
      Eval.define name v
      Eval.record line (.declare name ((← Eval.heap).snapshot v)) : Eval Unit) := by
    intro name v
    refine (EmitsAtMost.define name v).silent_bind fun _ ↦ ?_
    exact EmitsAtMost.heap.silent_bind fun h ↦ .record _ _
  rw [bind, Nat.add_comm]
  split
  · exact (EmitsAtMost.fail _).atNode _ _
  · cases d.init with
    | none => exact (EmitsAtMost.pure Value.undefined).bind (hdefine _)
    | some e => exact e.emitsAtMost_eval.bind (hdefine _)

theorem Declaration.emitsAtMost_exec (d : Declaration) : EmitsAtMost d.eventBound d.exec := by
  rw [exec, eventBound]
  induction d.declarators with
  | nil => exact .pure ()
  | cons declarator rest ih => exact (emitsAtMost_bind d.line declarator).bind fun _ ↦ ih

theorem ForInit.emitsAtMost_exec (init : Option ForInit) :
    EmitsAtMost (eventBound init) (exec init) := by
  cases init with
  | none => exact .pure ()
  | some init =>
    cases init with
    | declaration d => exact d.emitsAtMost_exec
    | expression e => exact e.emitsAtMost_eval.bind_silent fun _ ↦ .pure ()

theorem Eval.emitsAtMost_loopUpdate (line : Option UInt32) (update : Option Expr) :
    EmitsAtMost (Expr.optionalBound update + 1) (loopUpdate line update) := by
  cases update with
  | none => exact .pure ()
  | some e =>
    refine e.emitsAtMost_evalWrite.bind fun written ↦ ?_
    split
    · exact EmitsAtMost.heap.silent_bind fun h ↦ .record _ _
    · exact .pure ()

/-! ## Statements -/

namespace Stmt

theorem emitsAtMost_asBodyOf (s : Stmt) {n : Nat} {m : Eval Unit} (hm : EmitsAtMost n m) :
    EmitsAtMost n (s.asBodyOf m) := by
  rw [asBodyOf]
  split
  · exact hm
  · exact hm.atNode _ _

/-- The index and the value of a write count for it, and so does the write itself. -/
theorem eventBound_of_elementWrite? {s : Stmt} {array : String} {i value : Expr}
    (h : s.elementWrite? array = some (i, value)) (cap : Nat) :
    s.eventBound cap = i.eventBound + value.eventBound + 1 := by
  obtain ⟨nameLoc, indexLoc, assignLoc, loc, rfl⟩ := eq_of_elementWrite? h
  have htarget : (Expr.index (.identifier array nameLoc) i indexLoc).eventBound =
      i.eventBound := by
    rw [Expr.eventBound_eq_of_children_two rfl rfl]
    exact Nat.zero_add _
  rw [eventBound, Expr.eventBound_eq_of_children_two rfl rfl, htarget]

section Effects

variable {config : Config} {cap position : Nat}

/-- A statement that is no write of the plan. -/
private theorem emitsAtMost_cons {plan : Option SwapPlan} {s : Stmt} {rest : List Stmt}
    (hs : EmitsAtMost (s.eventBound cap) (s.effect config none))
    (hposition : ∀ p, plan = some p → position ≠ p.position ∧ position ≠ p.position + 1)
    (hrest : EmitsAtMost (allEventBound cap rest) (effects config plan (position + 1) rest)) :
    EmitsAtMost (allEventBound cap (s :: rest)) (effects config plan position (s :: rest)) := by
  rw [effects_cons_of_ne config hposition]
  exact (hs.atNode _ _).bind fun _ ↦ hrest

/-- Statements without a plan, or past the writes of their plan. -/
theorem emitsAtMost_of_past {plan : Option SwapPlan} {body : List Stmt}
    (hbody : ∀ s ∈ body, EmitsAtMost (s.eventBound cap) (s.effect config none))
    (hpast : ∀ p, plan = some p → p.position + 1 < position) :
    EmitsAtMost (allEventBound cap body) (effects config plan position body) := by
  induction body generalizing position with
  | nil =>
    rw [effects_nil]
    exact .pure ()
  | cons s rest ih =>
    obtain ⟨hs, hrest⟩ := List.forall_mem_cons.mp hbody
    refine emitsAtMost_cons hs ?_ (ih hrest ?_)
    · intro p hp
      have hlt := hpast p hp
      constructor <;> omega
    · intro p hp
      have hlt := hpast p hp
      omega

/-- The exchange of a plan counts for its two writes, the second of which does not run. -/
private theorem emitsAtMost_writes {plan : SwapPlan} (x : plan.Idiom) {after : List Stmt}
    (hafter : ∀ s ∈ after, EmitsAtMost (s.eventBound cap) (s.effect config none))
    (hposition : plan.position = position) :
    let body := x.write :: x.next :: after
    EmitsAtMost (allEventBound cap body) (effects config (some plan) position body) := by
  intro body
  have hswap : EmitsAtMost (x.write.eventBound cap + x.next.eventBound cap)
      (Eval.plannedSwap plan) := by
    refine (EmitsAtMost.plannedSwap plan.first.emitsAtMost_eval
      plan.second.emitsAtMost_eval).mono ?_
    rw [eventBound_of_elementWrite? x.write_eq, eventBound_of_elementWrite? x.next_eq]
    omega
  have hlater : EmitsAtMost (allEventBound cap after)
      (effects config (some plan) (position + 1 + 1) after) := by
    refine emitsAtMost_of_past hafter ?_
    rintro p ⟨⟩
    omega
  rw [effects_writes config hposition]
  exact ((hswap.atNode _ _).bind fun _ ↦ hlater).mono (Nat.add_assoc _ _ _).le

/-- Statements among which an idiom stands. -/
theorem emitsAtMost_of_idiom {plan : SwapPlan} (x : plan.Idiom) {before after : List Stmt}
    (hbody : ∀ s ∈ before ++ x.capture :: after,
      EmitsAtMost (s.eventBound cap) (s.effect config none))
    (hposition : plan.position = position + before.length + 1) :
    let body := before ++ x.capture :: x.write :: x.next :: after
    EmitsAtMost (allEventBound cap body) (effects config (some plan) position body) := by
  induction before generalizing position with
  | nil =>
    obtain ⟨hcapture, hafter⟩ := List.forall_mem_cons.mp hbody
    have hposition : plan.position = position + 1 := hposition
    refine emitsAtMost_cons hcapture ?_ (emitsAtMost_writes x hafter hposition)
    rintro p ⟨⟩
    omega
  | cons s before ih =>
    obtain ⟨hs, hbody⟩ := List.forall_mem_cons.mp hbody
    rw [List.length_cons] at hposition
    refine emitsAtMost_cons hs ?_ (ih hbody (by omega))
    rintro p ⟨⟩
    omega

end Effects

/-- What a statement records, on its own or with the plan of an idiom in it. -/
theorem emitsAtMost_effect (config : Config) (s : Stmt) {plan : Option SwapPlan}
    (hplan : ∀ p, plan = some p → ∃ test, SwapPlan.ofIf? test s = some p) :
    EmitsAtMost (s.eventBound config.iterationCap) (s.effect config plan) := by
  have hnone : ∀ s : Stmt, ∀ p, none = some p → ∃ test, SwapPlan.ofIf? test s = some p :=
    fun _ _ h ↦ nomatch h
  induction s generalizing plan with
  | declaration d => exact d.emitsAtMost_exec
  | forLoop init test update body loc ih =>
    -- a round is the body and the update; the test is counted on its own, once more often
    rw [effect_forLoop, eventBound]
    have hbody : EmitsAtMost (body.eventBound config.iterationCap + Expr.optionalBound update + 1)
        (do
          body.asBodyOf (body.effect config none)
          Eval.loopUpdate (loc.map (·.start.line)) update) := by
      refine ((body.emitsAtMost_asBodyOf (ih (hnone body))).bind fun _ ↦ ?_).mono
        (Nat.add_assoc _ _ _).ge
      exact Eval.emitsAtMost_loopUpdate _ update
    have hrounds := EmitsAtMost.iterate (Expr.emitsAtMost_holds test) hbody config.iterationCap 0
    refine ((ForInit.emitsAtMost_exec init).bind fun _ ↦
      hrounds.bind fun stopped ↦ .record _ _).mono (Nat.le_of_eq ?_)
    omega
  | ifThen test consequent alternate loc hconsequent halternate =>
    have hthen : EmitsAtMost (consequent.eventBound config.iterationCap)
        (consequent.asBodyOf (consequent.effect config
          (if config.swapDetection then SwapPlan.ofIf? test consequent else none))) := by
      refine consequent.emitsAtMost_asBodyOf (hconsequent fun p hp ↦ ?_)
      split at hp
      · exact ⟨test, hp⟩
      · cases hp
    rw [effect_ifThen]
    cases alternate with
    | none =>
      rw [eventBound, Nat.add_assoc]
      refine test.emitsAtMost_eval.bind fun v ↦ (EmitsAtMost.record _ _).bind fun _ ↦ ?_
      split
      · exact hthen
      · exact .pure ()
    | some s =>
      have helse := s.emitsAtMost_asBodyOf (halternate s rfl (hnone s))
      rw [eventBound, Nat.add_assoc]
      refine test.emitsAtMost_eval.bind fun v ↦ (EmitsAtMost.record _ _).bind fun _ ↦ ?_
      split
      · exact hthen.mono (Nat.le_max_left _ _)
      · exact helse.mono (Nat.le_max_right _ _)
  | block body loc ih =>
    rw [effect_block, eventBound]
    have hbody : ∀ s ∈ body, EmitsAtMost (s.eventBound config.iterationCap)
        (s.effect config none) := fun s hs ↦ ih s hs (hnone s)
    cases plan with
    | none => exact emitsAtMost_of_past hbody fun _ h ↦ nomatch h
    | some p =>
      -- the statements of the plan split the block where its writes stand
      obtain ⟨test, hif⟩ := hplan p rfl
      obtain ⟨x, before, after, hidiom, hposition⟩ := SwapPlan.exists_idiom hif
      obtain rfl : body = _ := hidiom
      refine emitsAtMost_of_idiom x (fun s hs ↦ hbody s ?_) (by omega)
      simp only [List.mem_append, List.mem_cons] at hs ⊢
      tauto
  | expression e loc =>
    rw [effect_expression, eventBound]
    refine e.emitsAtMost_evalWrite.bind fun written ↦ ?_
    cases written with
    | none => exact .pure ()
    | some w => exact EmitsAtMost.heap.silent_bind fun h ↦ .record _ _
  | empty loc => exact .pure ()
  | unsupported nodeType loc => exact .fail _

end Stmt

namespace Program

/-- **Every run ends within a bound that is read off the tree.** It records at most as many events
as the tree and the iteration cap allow, whether it succeeds or fails and whatever variables and
arrays it starts from. -/
theorem length_events_runFrom_le (config : Config) (environment : Environment) (heap : Heap)
    (p : Program) :
    (p.runFrom config environment heap).events.length ≤ p.eventBound config.iterationCap := by
  have hbody : EmitsAtMost (p.eventBound config.iterationCap) (p.exec config) :=
    Stmt.emitsAtMost_of_past (fun s _ ↦ s.emitsAtMost_effect config fun _ h ↦ nomatch h)
      fun _ h ↦ nomatch h
  obtain ⟨ending, events, hrun, hlength⟩ := hbody environment heap
  rw [(runFrom_of_emits hrun).2]
  exact ((History.length_recordAll_le _ events).trans (Nat.zero_add _).le).trans hlength

/-- A loop without an end, which steps a variable. -/
def countForever : Program :=
  .ofBody [.ofFor 1 2 none none (some (.stepAfter .increment (.ofName "i"))) (.ofBlock [])]

/-- The cap stops it, and it records all that it may: three updates and its end. -/
example :
    let environment := Environment.empty.define "i" (.number 0)
    (countForever.runFrom ⟨3, .keepAll, true⟩ environment .empty).events.length =
      countForever.eventBound 3 := by decide +kernel

end Program

end ScriptTrace
