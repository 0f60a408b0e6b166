import ScriptTrace.Proofs.EndState
import ScriptTrace.Proofs.Tagged
import ScriptTrace.Syntax.Build

/-!
# The states that a run goes through

What a run does to an array while it goes on shows in the states in which expressions start and end
to be evaluated. `Program.evaluations` lists the evaluations of a run, each with the state in which
it starts. The listing follows the recursion of the evaluator and of the statements, and asks them
for every result and every state; it has no notion of its own of what a computation does.

An array is created by the evaluation of an array literal, and by nothing else.
-/

namespace ScriptTrace

/-- An expression that is evaluated in the course of a run, and the state in which that starts. -/
structure Evaluation where
  expr : Expr
  start : State

namespace Evaluation

/-- The state in which an evaluation ends, also when it fails. -/
def stop (v : Evaluation) : State := v.expr.eval.endState v.start

/-- Whether an evaluation is that of an array literal and makes an array. -/
def Creates (v : Evaluation) (id : ArrayId) : Prop :=
  ∃ elements loc t, v.expr = .array elements loc ∧ v.expr.eval v.start = .ok (.array id) t

end Evaluation

/-- The evaluations that a computation consists of, by the state in which it starts. -/
abbrev Log := State → List Evaluation

namespace Log

/-- No evaluations. -/
def empty : Log := fun _ ↦ []

/-- The evaluations of a computation, and then those that its result leads to. After a failure
there are none. -/
def andThen {α : Type} (log : Log) (m : Eval α) (next : α → Log) : Log := fun s ↦
  log s ++
    match m s with
    | .ok a t => next a t
    | .error _ _ => []

/-- The evaluations of the rounds of a loop, as `Eval.iterate` runs them. -/
def rounds (ofTest : Log) (test : Eval Bool) (ofBody : Log) (body : Eval Unit) : Nat → Log
  | 0 => ofTest
  | left + 1 => ofTest.andThen test fun proceed ↦
    if proceed then ofBody.andThen body fun _ ↦ rounds ofTest test ofBody body left else empty

/-- The evaluations that lead to a slot `object[i]`, as `Eval.element` does. A named array is looked
up and not evaluated. -/
def element (object : Expr) (ofObject ofIndex : Log) : Log :=
  (if object.name?.isSome then empty else ofObject).andThen (Eval.arrayOf object object.eval)
    fun _ ↦ ofIndex

end Log

namespace Expr

mutual

/-- The evaluations in the course of evaluating an expression, itself first. -/
def evaluations (e : Expr) : Log := fun s ↦
  ⟨e, s⟩ ::
    match e with
    | literal .. | identifier .. | unsupported .. => []
    | binary _ left right _ => left.evaluations.andThen left.eval (fun _ ↦ right.evaluations) s
    | logical op left right _ =>
      if op.isSupported then
        left.evaluations.andThen left.eval
          (fun a ↦ if a.isTruthy == (op == .and) then right.evaluations else .empty) s
      else
        []
    | unary _ operand _ => operand.evaluations s
    | update _ target _ _ => target.placeEvaluations s
    | assign op target value _ =>
      if op.isSupported then
        value.evaluations.andThen value.eval (fun _ ↦ target.placeEvaluations) s
      else
        []
    | array elements _ => elementEvaluations elements s
    | index object i _ => Log.element object object.evaluations i.evaluations s
    | property object _ _ => object.evaluations s
    | call callee arguments _ =>
      match callee.name?.bind Builtin.ofName? with
      | none => []
      | some .swap =>
        match Eval.swapArray arguments.head? with
        | .ok _ => afterFirstEvaluations arguments s
        | .error _ => []
    | conditional test consequent alternate _ =>
      test.evaluations.andThen test.eval
        (fun a ↦ if a.isTruthy then consequent.evaluations else alternate.evaluations) s

/-- The evaluations that lead to the place of a target. -/
def placeEvaluations (e : Expr) : Log :=
  match e with
  | index object i _ => Log.element object object.evaluations i.evaluations
  | _ => .empty

def elementEvaluations : List (Option Expr) → Log
  | [] => .empty
  | none :: rest => elementEvaluations rest
  | some e :: rest => e.evaluations.andThen e.eval fun _ ↦ elementEvaluations rest

def allEvaluations : List Expr → Log
  | [] => .empty
  | e :: rest => e.evaluations.andThen e.eval fun _ ↦ allEvaluations rest

def afterFirstEvaluations : List Expr → Log
  | [] => .empty
  | _ :: rest => allEvaluations rest

end

/-- An operand that does not decide is not evaluated. -/
example (s : State) :
    ((ofLogical .and (ofBool false) (ofName "x")).evaluations s).map (·.expr.nodeType) =
      ["LogicalExpression", "Literal"] := rfl

/-- The evaluations of an expression that may be absent. -/
def optionalEvaluations : Option Expr → Log
  | none => .empty
  | some e => e.evaluations

end Expr

namespace Declaration

/-- The evaluations of binding the target of one declarator. A pattern fails before anything is
evaluated. -/
def bindEvaluations (d : Declarator) : Log :=
  if d.target.name?.isSome then Expr.optionalEvaluations d.init else .empty

/-- The evaluations of binding declarators one after the other. -/
def bindAllEvaluations (line : Option UInt32) : List Declarator → Log
  | [] => .empty
  | d :: rest => (bindEvaluations d).andThen (bind line d) fun _ ↦ bindAllEvaluations line rest

/-- The evaluations of a declaration. -/
def evaluations (d : Declaration) : Log := bindAllEvaluations d.line d.declarators

end Declaration

/-- The evaluations of the first part of the head of a loop. -/
def ForInit.evaluations : Option ForInit → Log
  | none => .empty
  | some (declaration d) => d.evaluations
  | some (expression e) => e.evaluations

/-- The evaluations of the exchange of a plan. -/
def SwapPlan.evaluations (plan : SwapPlan) : Log :=
  plan.first.evaluations.andThen plan.first.eval fun _ ↦ plan.second.evaluations

namespace Stmt

/-- What is done when it is the turn of the statement at `position`, among those with a plan. -/
def turn (config : Config) (plan : Option SwapPlan) (position : Nat) (s : Stmt) : Eval Unit :=
  match plan with
  | none => s.exec config
  | some p =>
    if position = p.position then
      .atNode s.nodeType s.line (Eval.plannedSwap p)
    else if position ≠ p.position + 1 then
      s.exec config
    else
      return ()

/-- Statements have their turn one after the other. -/
theorem effects_cons_eq_turn (config : Config) (plan : Option SwapPlan) (position : Nat)
    (s : Stmt) (rest : List Stmt) : effects config plan position (s :: rest) = (do
      s.turn config plan position
      effects config plan (position + 1) rest) := by
  rw [effects_cons]
  rcases plan with _ | p
  · rfl
  · dsimp only [turn]
    by_cases hwrite : position = p.position
    · rw [if_pos hwrite, if_pos hwrite]
    · rw [if_neg hwrite, if_neg hwrite]
      by_cases hnext : position ≠ p.position + 1
      · rw [if_pos hnext, if_pos hnext]
        rfl
      · rw [if_neg hnext, if_neg hnext]
        rfl

mutual

/-- The evaluations in the course of what a statement does. -/
def evaluations (config : Config) (plan : Option SwapPlan) (s : Stmt) : Log :=
  match s with
  | declaration d => d.evaluations
  | forLoop init test update body loc =>
    (ForInit.evaluations init).andThen (ForInit.exec init) fun _ ↦
      .rounds (Expr.optionalEvaluations test) (Expr.holds test)
        ((body.evaluations config none).andThen (body.execBody config) fun _ ↦
          Expr.optionalEvaluations update)
        (do
          body.execBody config
          Eval.loopUpdate (loc.map (·.start.line)) update)
        config.iterationCap
  | ifThen test consequent alternate loc =>
    test.evaluations.andThen test.eval fun a ↦
      Log.empty.andThen
        (Eval.record (test.line <|> loc.map (·.start.line)) (.ifTest a.isTruthy)) fun _ ↦
          if a.isTruthy then
            consequent.evaluations config
              (if config.swapDetection then SwapPlan.ofIf? test consequent else none)
          else
            match alternate with
            | none => .empty
            | some s => s.evaluations config none
  | block body _ => allEvaluations config plan 0 body
  | expression e _ => e.evaluations
  | empty _ | unsupported .. => .empty

/-- The evaluations of statements, the first of which is at `position`. -/
def allEvaluations (config : Config) (plan : Option SwapPlan) (position : Nat) :
    List Stmt → Log
  | [] => .empty
  | s :: rest =>
    (match plan with
    | none => s.evaluations config none
    | some p =>
      if position = p.position then p.evaluations
      else if position ≠ p.position + 1 then s.evaluations config none
      else .empty).andThen (s.turn config plan position) fun _ ↦
        allEvaluations config plan (position + 1) rest

end

theorem evaluations_ifThen (config : Config) (plan : Option SwapPlan) (test : Expr)
    (consequent : Stmt) (alternate : Option Stmt) (loc : Option Location) :
    evaluations config plan (.ifThen test consequent alternate loc) =
      test.evaluations.andThen test.eval fun a ↦
        Log.empty.andThen
          (Eval.record (test.line <|> loc.map (·.start.line)) (.ifTest a.isTruthy)) fun _ ↦
            if a.isTruthy then
              consequent.evaluations config
                (if config.swapDetection then SwapPlan.ofIf? test consequent else none)
            else
              match alternate with
              | none => .empty
              | some s => s.evaluations config none := by
  cases alternate <;> rfl

end Stmt

theorem Expr.eval_array_of_ok {elements : List (Option Expr)} {values : List Value} {s t : State}
    (h : evalElements elements s = .ok values t) (loc : Option Location) :
    (array elements loc).eval s =
      .ok (.array t.heap.nextId) { t with heap := t.heap.allocate values.toArray } := by
  refine Eval.atNode_of_ok ?_
  rw [Eval.bind_of_ok h]
  rfl

theorem Expr.eval_array_of_error {elements : List (Option Expr)} {failure : Failure} {s t : State}
    (h : evalElements elements s = .error failure t) (loc : Option Location) :
    (array elements loc).eval s =
      .error (failure.atNode "ArrayExpression" (loc.map (·.start.line))) t := by
  rw [eval, Eval.atNode]
  simp only [Eval.bind_of_error h]
  rfl

/-- What an evaluation creates is the array of the values of the elements, which it adds to the
arrays last. -/
theorem Evaluation.Creates.exists_values {v : Evaluation} {id : ArrayId} (h : v.Creates id) :
    ∃ elements values t, (∃ loc, v.expr = .array elements loc) ∧
      Expr.evalElements elements v.start = .ok values t ∧ id = t.heap.nextId ∧
        v.stop.heap = t.heap.allocate values.toArray := by
  obtain ⟨elements, loc, u, hexpr, heval⟩ := h
  rw [hexpr] at heval
  rcases hrun : Expr.evalElements elements v.start with ⟨values, t⟩ | ⟨failure, t⟩
  · have hok := Expr.eval_array_of_ok hrun loc
    have hid : id = t.heap.nextId := by
      rw [hok] at heval
      cases heval
      rfl
    refine ⟨elements, values, t, ⟨loc, hexpr⟩, hrun, hid, ?_⟩
    rw [stop, hexpr, Eval.endState_of_ok hok]
  · rw [Expr.eval_array_of_error hrun] at heval
    cases heval

theorem Evaluation.Creates.lt_nextId {v : Evaluation} {id : ArrayId} (h : v.Creates id) :
    id < v.stop.heap.nextId := by
  obtain ⟨elements, values, t, -, -, rfl, hstop⟩ := h.exists_values
  rw [hstop, Heap.nextId_allocate]
  exact Nat.lt_succ_self _

/-- The evaluations of a run of a program, by the state in which it starts. -/
def Program.evaluations (config : Config) (p : Program) : Log :=
  Stmt.allEvaluations config none 0 p.body

end ScriptTrace
