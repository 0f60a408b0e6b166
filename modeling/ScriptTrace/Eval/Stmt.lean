import ScriptTrace.Eval.Expr
import ScriptTrace.Syntax.SwapIdiom

/-!
# Running statements

Statements run in source order up to the first failure and record what they change.

`Stmt.effect` is what a statement does; `Stmt.exec` adds the statement as the place of failures.
The two differ because a block that is the body of a loop or of an `if` is not a place of its own:
`Stmt.execBody` runs its statements directly.
-/

namespace ScriptTrace

namespace Expr

/-- Evaluate an expression for its effect, and give back the write if it is an assignment or a
step. -/
def evalWrite (e : Expr) : Eval (Option Written) :=
  match e with
  | assign op target value loc =>
    .atNode "AssignmentExpression" (loc.map (·.start.line)) do
      return some (← Eval.assign op value.eval target.place)
  | update op target isBefore loc =>
    .atNode "UpdateExpression" (loc.map (·.start.line)) do
      return some (← Eval.step op isBefore target.place).2
  | e => do
    let _ ← e.eval
    return none

/-- Whether an expression that may be absent is true. An absent one is. -/
def holds : Option Expr → Eval Bool
  | none => return true
  | some e => return (← e.eval).isTruthy

end Expr

namespace Declaration

/-- Bind the target of one declarator. -/
def bind (line : Option UInt32) (d : Declarator) : Eval Unit := do
  match d.target.name? with
  | none =>
    .atNode d.target.nodeType line (Eval.fail (.unsupportedNode d.target.nodeType))
  | some name =>
    let v ←
      match d.init with
      | some e => e.eval
      | none => pure .undefined
    Eval.define name v
    Eval.record line (.declare name ((← Eval.heap).snapshot v))

/-- Bind all declarators, and record each. -/
def exec (d : Declaration) : Eval Unit := d.declarators.forM (bind d.line)

end Declaration

namespace ForInit

/-- Run the first part of the head of a loop. -/
def exec : Option ForInit → Eval Unit
  | none => return ()
  | some (declaration d) => d.exec
  | some (expression e) => do
    let _ ← e.eval

end ForInit

namespace Eval

/-- Run `body` as long as `test` holds, at most `left` times more, after `ran` times. Before every
round the test is run; when no rounds are left it is run once more. -/
def iterate (test : Eval Bool) (body : Eval Unit) : Nat → Nat → Eval (LoopEnd × Nat)
  | 0, ran => do
    if ← test then return (.iterationCap, ran) else return (.condition, ran)
  | left + 1, ran => do
    if ← test then
      body
      iterate test body left (ran + 1)
    else
      return (.condition, ran)

/-- The update of a loop, which is recorded if it writes to a variable. -/
def loopUpdate (line : Option UInt32) : Option Expr → Eval Unit
  | none => return ()
  | some e => do
    match ← e.evalWrite with
    | some ⟨.named name, v⟩ =>
      record (e.line <|> line) (.loopUpdate name ((← heap).snapshot v))
    | _ => return ()

/-- The exchange of a plan, in place of its first write. -/
def plannedSwap (plan : SwapPlan) : Eval Unit := do
  let index1 ← plan.first.eval
  let index2 ← plan.second.eval
  let x ← Exchange.resolve plan.array index1 index2
  x.perform plan.firstLine plan.secondLine

end Eval

namespace Stmt

/-- Whether a statement is a block. -/
def isBlock : Stmt → Bool
  | block .. => true
  | _ => false

/-- A computation as the body that a statement is: its failures get the statement as their place,
unless it is a block. -/
def asBodyOf (s : Stmt) (m : Eval Unit) : Eval Unit :=
  if s.isBlock then m else .atNode s.nodeType s.line m

mutual

/-- What a statement does. With a plan, the statements of a block are run as the plan says. -/
def effect (config : Config) (plan : Option SwapPlan) (s : Stmt) : Eval Unit :=
  match s with
  | declaration d => d.exec
  | forLoop init test update body loc => do
    ForInit.exec init
    let (reason, iterations) ←
      Eval.iterate (Expr.holds test)
        (do
          body.asBodyOf (effect config none body)
          Eval.loopUpdate (loc.map (·.start.line)) update)
        config.iterationCap 0
    Eval.record (loc.map (·.stop.line)) (.loopEnd reason iterations)
  | ifThen test consequent alternate loc => do
    let result := (← test.eval).isTruthy
    Eval.record (test.line <|> loc.map (·.start.line)) (.ifTest result)
    if result then
      let plan := if config.swapDetection then SwapPlan.ofIf? test consequent else none
      consequent.asBodyOf (effect config plan consequent)
    else
      match alternate with
      | none => return ()
      | some s => s.asBodyOf (effect config none s)
  | block body _ => effects config plan 0 body
  | expression e loc => do
    match ← e.evalWrite with
    | some written => Eval.record (loc.map (·.start.line)) (written.details (← Eval.heap))
    | none => return ()
  | empty _ => return ()
  | unsupported nodeType _ => Eval.fail (.unsupportedNode nodeType)

/-- Run statements, the first of which is at `position`. The first write of a plan becomes its
exchange, and the second is left out. -/
def effects (config : Config) (plan : Option SwapPlan) (position : Nat) :
    List Stmt → Eval Unit
  | [] => return ()
  | s :: rest => do
    match plan with
    | none => .atNode s.nodeType s.line (effect config none s)
    | some p =>
      if position = p.position then
        .atNode s.nodeType s.line (Eval.plannedSwap p)
      else if position ≠ p.position + 1 then
        .atNode s.nodeType s.line (effect config none s)
    effects config plan (position + 1) rest

end

/-! ## What each kind of statement does -/

section Equations

variable (config : Config) (plan : Option SwapPlan)

theorem effect_forLoop (init : Option ForInit) (test update : Option Expr) (body : Stmt)
    (loc : Option Location) : effect config plan (.forLoop init test update body loc) = (do
      ForInit.exec init
      let (reason, iterations) ←
        Eval.iterate (Expr.holds test)
          (do
            body.asBodyOf (effect config none body)
            Eval.loopUpdate (loc.map (·.start.line)) update)
          config.iterationCap 0
      Eval.record (loc.map (·.stop.line)) (.loopEnd reason iterations)) := rfl

theorem effect_ifThen (test : Expr) (consequent : Stmt) (alternate : Option Stmt)
    (loc : Option Location) : effect config plan (.ifThen test consequent alternate loc) = (do
      let result := (← test.eval).isTruthy
      Eval.record (test.line <|> loc.map (·.start.line)) (.ifTest result)
      if result then
        let plan := if config.swapDetection then SwapPlan.ofIf? test consequent else none
        consequent.asBodyOf (effect config plan consequent)
      else
        match alternate with
        | none => return ()
        | some s => s.asBodyOf (effect config none s)) := by
  cases alternate <;> rfl

theorem effect_block (body : List Stmt) (loc : Option Location) :
    effect config plan (.block body loc) = effects config plan 0 body := rfl

theorem effect_expression (e : Expr) (loc : Option Location) :
    effect config plan (.expression e loc) = (do
      match ← e.evalWrite with
      | some written => Eval.record (loc.map (·.start.line)) (written.details (← Eval.heap))
      | none => return ()) := rfl

theorem effects_nil (position : Nat) : effects config plan position [] = return () := by
  cases plan <;> rfl

theorem effects_cons (position : Nat) (s : Stmt) (rest : List Stmt) :
    effects config plan position (s :: rest) = (do
      match plan with
      | none => .atNode s.nodeType s.line (effect config none s)
      | some p =>
        if position = p.position then
          .atNode s.nodeType s.line (Eval.plannedSwap p)
        else if position ≠ p.position + 1 then
          .atNode s.nodeType s.line (effect config none s)
      effects config plan (position + 1) rest) := by
  cases plan <;> rfl

end Equations

/-- Run a statement. -/
def exec (config : Config) (s : Stmt) : Eval Unit :=
  .atNode s.nodeType s.line (s.effect config none)

/-- A statement that is no write of the plan runs as it does without. -/
theorem effects_cons_of_ne (config : Config) {plan : Option SwapPlan} {position : Nat}
    (hposition : ∀ p, plan = some p → position ≠ p.position ∧ position ≠ p.position + 1)
    (s : Stmt) (rest : List Stmt) : effects config plan position (s :: rest) = (do
      s.exec config
      effects config plan (position + 1) rest) := by
  rw [effects_cons]
  cases plan with
  | none => rfl
  | some p =>
    obtain ⟨hwrite, hnext⟩ := hposition p rfl
    simp only [if_neg hwrite, if_pos hnext]
    rfl

/-- The writes of the plan are replaced by its exchange. -/
theorem effects_writes (config : Config) {plan : SwapPlan} {position : Nat}
    (hposition : plan.position = position) (write next : Stmt) (rest : List Stmt) :
    effects config (some plan) position (write :: next :: rest) = (do
      Eval.atNode write.nodeType write.line (Eval.plannedSwap plan)
      effects config (some plan) (position + 1 + 1) rest) := by
  rw [effects_cons, effects_cons]
  simp only [hposition, if_pos, ne_eq, not_true_eq_false, if_false, Nat.succ_ne_self]

/-- Run statements in order. -/
def execAll (config : Config) (body : List Stmt) : Eval Unit := effects config none 0 body

/-- Run a statement as a body: a block is no place of its own. -/
def execBody (config : Config) (s : Stmt) : Eval Unit := s.asBodyOf (s.effect config none)

end Stmt

end ScriptTrace
