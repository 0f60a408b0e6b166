import ScriptTrace.Proofs.Children
import ScriptTrace.Proofs.SwapPlan

/-!
# Properties that hold of every run

The recursion through the tree and through the rounds of a loop, done once for all properties that
follow the tree. A property is given as a pair of families: `At n`, what is to hold of running the
node `n` as a place of failures, and `Inside n`, what is to hold of the computations within it.
`Localized` lists what has to be shown of such a pair: the steps, the failures of a node of its
own, and how a part of a node counts for the node.

A property that does not depend on the node is *compositional*. It only has to be closed under the
steps, under all failures and under naming a node.
-/

namespace ScriptTrace

namespace Eval

/-- Two families of properties that runs have, as places of failures and inside them. -/
structure Localized (At Inside : Node → {α : Type} → Eval α → Prop) : Prop where
  steps (n : Node) : Stepwise (Inside n)
  raise {n : Node} {α : Type} {cause : Cause} (h : n.Raises cause) :
    Inside n (Eval.fail cause : Eval α)
  atNode {n : Node} {α : Type} {m : Eval α} (h : Inside n m) :
    At n (Eval.atNode n.nodeType n.line m)
  enter {n c : Node} {α : Type} {m : Eval α} (hc : c ∈ n.entered) (h : At c m) : Inside n m
  bypass {n c c' : Node} {α : Type} {m : Eval α} (hc : c ∈ n.bypassed) (hc' : c' ∈ c.entered)
    (h : At c' m) : Inside n m
  /-- The target of a declarator is no place of its own: its line is that of the declaration. -/
  pattern {n : Node} {d : Declaration} {declarator : Declarator}
    (hn : n = .stmt (.declaration d) ∨ .stmt (.declaration d) ∈ n.bypassed)
    (hd : declarator ∈ d.declarators) (hname : declarator.target.name? = none) :
    Inside n (Eval.atNode declarator.target.nodeType d.line
      (Eval.fail (.unsupportedNode declarator.target.nodeType)) : Eval Unit)
  /-- The exchange of a plan runs at its first write, with both indices. -/
  planned {test : Expr} {consequent write : Stmt} {alternate : Option Stmt}
    {loc : Option Location} {plan : SwapPlan} (hplan : SwapPlan.ofIf? test consequent = some plan)
    (hwrite : consequent.asBody[plan.position]? = some write)
    (hfirst : At (.expr plan.first) plan.first.eval)
    (hsecond : At (.expr plan.second) plan.second.eval) :
    Inside (.stmt (.ifThen test consequent alternate loc))
      (Eval.atNode write.nodeType write.line (Eval.plannedSwap plan))

namespace Localized

variable {At Inside : Node → {α : Type} → Eval α → Prop} (hL : Localized At Inside)

include hL

/-! ## Expressions -/

/-- A target is not run itself. Its place comes from its parts, at the node around it. -/
private theorem place_of_parts {n : Node} {e : Expr} (hn : .expr e ∈ n.bypassed)
    (htarget : e.isTarget = false → n.Raises (.unsupportedNode e.nodeType))
    (hparts : ∀ c ∈ e.entered, At (.expr c) c.eval) : Inside n e.place := by
  have hpart : ∀ c ∈ e.entered, Inside n c.eval :=
    fun c hc ↦ hL.bypass hn (List.mem_map_of_mem hc) (hparts c hc)
  cases e with
  | identifier name loc => exact (hL.steps n).pure _
  | index object i loc =>
    exact (hL.steps n).element object (hpart object List.mem_cons_self)
      (hpart i (List.mem_cons_of_mem _ List.mem_cons_self))
  | literal | binary | logical | unary | update | assign | array | property | call | conditional
  | unsupported => exact hL.raise (htarget rfl)

private theorem assign_of_parts (op : AssignOp) {target value : Expr} (loc : Option Location)
    (hparts : ∀ c ∈ target.entered, At (.expr c) c.eval) (hvalue : At (.expr value) value.eval) :
    Inside (.expr (.assign op target value loc)) (Eval.assign op value.eval target.place) := by
  refine (hL.steps _).assign (fun hop ↦ hL.raise ?_) ?_ ?_
  · simp [Node.Raises, Node.unsupported?, hop]
  · exact hL.enter List.mem_cons_self hvalue
  · exact hL.place_of_parts List.mem_cons_self
      (fun htarget ↦ .inr (.inr (.assignTarget op value loc htarget))) hparts

private theorem step_of_parts (op : UpdateOp) {target : Expr} (isBefore : Bool)
    (loc : Option Location) (hparts : ∀ c ∈ target.entered, At (.expr c) c.eval) :
    Inside (.expr (.update op target isBefore loc)) (Eval.step op isBefore target.place) :=
  (hL.steps _).step op isBefore (hL.place_of_parts List.mem_cons_self
    (fun htarget ↦ .inr (.inr (.updateTarget op isBefore loc htarget))) hparts)

/-- Running an expression, from running what it enters and what its targets enter. -/
private theorem eval_of_parts {e : Expr} (hentered : ∀ c ∈ e.entered, At (.expr c) c.eval)
    (hbypassed : ∀ t ∈ e.bypassed, ∀ c ∈ t.entered, At (.expr c) c.eval) :
    At (.expr e) e.eval := by
  have hpart : ∀ c ∈ e.entered, Inside (.expr e) c.eval :=
    fun c hc ↦ hL.enter (List.mem_map_of_mem hc) (hentered c hc)
  have hP := hL.steps (.expr e)
  cases e with
  | literal value regex loc =>
    exact hL.atNode (hP.ofExcept fun cause hcause ↦ hL.raise (Node.raises_literal loc hcause))
  | identifier name loc => exact hL.atNode (hP.identifierValue name)
  | binary op left right loc =>
    refine hL.atNode (hP.bind (hpart left (by simp [Expr.entered, Expr.children])) fun a ↦ ?_)
    refine hP.bind (hpart right (by simp [Expr.entered, Expr.children])) fun b ↦ ?_
    exact hP.binary a b fun hop ↦ hL.raise (by simp [Node.Raises, Node.unsupported?, hop])
  | logical op left right loc =>
    refine hL.atNode ?_
    split
    · refine hP.bind (hpart left (by simp [Expr.entered, Expr.children])) fun a ↦ ?_
      split
      · exact hpart right (by simp [Expr.entered, Expr.children])
      · exact hP.pure a
    · rename_i hop
      exact hL.raise (by simp [Node.Raises, Node.unsupported?, hop])
  | unary op operand loc =>
    refine hL.atNode (hP.bind (hpart operand List.mem_cons_self) fun a ↦ ?_)
    exact hP.unary a fun hop ↦ hL.raise (by simp [Node.Raises, Node.unsupported?, hop])
  | update op target isBefore loc =>
    have hstep := hL.step_of_parts op isBefore loc (hbypassed target List.mem_cons_self)
    exact hL.atNode (hP.bind hstep fun _ ↦ hP.pure _)
  | assign op target value loc =>
    have hassign := hL.assign_of_parts op loc (hbypassed target List.mem_cons_self)
      (hentered value List.mem_cons_self)
    exact hL.atNode (hP.bind hassign fun _ ↦ hP.pure _)
  | array elements loc =>
    refine hL.atNode (hP.bind (hP.evalElements fun e he ↦ hpart e ?_) fun values ↦ ?_)
    · simpa [Expr.entered, Expr.children] using he
    · exact hP.bind (hP.allocate _) fun id ↦ hP.pure _
  | index object i loc =>
    have helement := hP.element object (hpart object (by simp [Expr.entered, Expr.children]))
      (hpart i (by simp [Expr.entered, Expr.children]))
    exact hL.atNode (hP.bind helement fun place ↦ hP.read place)
  | property object name loc =>
    refine hL.atNode (hP.bind (hpart object List.mem_cons_self) fun v ↦ ?_)
    refine hP.bind hP.heap fun h ↦ hP.ofExcept fun cause hcause ↦ ?_
    exact hL.raise (Node.raises_property object loc hcause)
  | call callee arguments loc =>
    refine hL.atNode ?_
    split
    · rename_i hcallee
      exact hL.raise (.inr (.inr (.callee arguments loc hcallee)))
    · split
      · exact hP.plain rfl
      · exact hP.swap _ (hP.evalAfterFirst hpart) _
  | conditional test consequent alternate loc =>
    refine hL.atNode (hP.bind (hpart test (by simp [Expr.entered, Expr.children])) fun a ↦ ?_)
    split
    · exact hpart consequent (by simp [Expr.entered, Expr.children])
    · exact hpart alternate (by simp [Expr.entered, Expr.children])
  | unsupported nodeType loc => exact hL.atNode (hL.raise (.inr (.inl rfl)))

private theorem eval_and_entered (e : Expr) :
    At (.expr e) e.eval ∧ ∀ c ∈ e.entered, At (.expr c) c.eval := by
  -- a target is not run, but its parts are, so the induction carries them along
  induction e using Expr.induction_of_children with
  | h e ih =>
    have hentered : ∀ c ∈ e.entered, At (.expr c) c.eval :=
      fun c hc ↦ (ih c (Expr.mem_children_of_mem_entered hc)).1
    exact ⟨hL.eval_of_parts hentered fun t ht ↦ (ih t (Expr.mem_children_of_mem_bypassed ht)).2,
      hentered⟩

theorem eval (e : Expr) : At (.expr e) e.eval := (hL.eval_and_entered e).1

theorem evalWrite {n : Node} {e : Expr} (hn : .expr e ∈ n.entered) : Inside n e.evalWrite := by
  have heval : Inside n (do let _ ← e.eval; return none : Eval (Option Written)) :=
    (hL.steps n).bind (hL.enter hn (hL.eval e)) fun _ ↦ (hL.steps n).pure _
  cases e with
  | assign op target value loc =>
    have hassign := hL.assign_of_parts op loc (hL.eval_and_entered target).2 (hL.eval value)
    exact hL.enter hn (hL.atNode ((hL.steps _).bind hassign fun w ↦ (hL.steps _).pure _))
  | update op target isBefore loc =>
    have hstep := hL.step_of_parts op isBefore loc (hL.eval_and_entered target).2
    exact hL.enter hn (hL.atNode ((hL.steps _).bind hstep fun w ↦ (hL.steps _).pure _))
  | literal | identifier | binary | logical | unary | array | index | property | call | conditional
  | unsupported => exact heval

/-! ## Statements -/

/-- A declaration, as a statement or in the head of a loop. -/
private theorem declaration {n : Node} {d : Declaration}
    (hn : n = .stmt (.declaration d) ∨ .stmt (.declaration d) ∈ n.bypassed) : Inside n d.exec := by
  refine (hL.steps n).declaration (fun declarator ↦ hL.pattern hn) fun declarator hd e he ↦ ?_
  have hvalue : .expr e ∈ (Node.stmt (.declaration d)).entered :=
    List.mem_map_of_mem (List.mem_filterMap.mpr ⟨declarator, hd, he⟩)
  rcases hn with rfl | hn
  · exact hL.enter hvalue (hL.eval e)
  · exact hL.bypass hn hvalue (hL.eval e)

theorem forInit (init : Option ForInit) (test update : Option Expr) (body : Stmt)
    (loc : Option Location) :
    Inside (.stmt (.forLoop init test update body loc)) (ForInit.exec init) := by
  have hP := hL.steps (.stmt (.forLoop init test update body loc))
  cases init with
  | none => exact hP.pure ()
  | some init =>
    cases init with
    | declaration d => exact hL.declaration (.inr List.mem_cons_self)
    | expression e => exact hP.bind (hL.enter List.mem_cons_self (hL.eval e)) fun _ ↦ hP.pure ()

/-- A body: a block is bypassed for its statements, any other statement is entered. -/
private theorem body {config : Config} {n : Node} {s : Stmt}
    (hn : .stmt s ∈ if s.isBlock then n.bypassed else n.entered)
    (hs : ∀ s' ∈ s :: s.asBody, At (.stmt s') (s'.exec config)) :
    Inside n (s.execBody config) := by
  cases s with
  | block body loc =>
    refine (hL.steps n).statements fun s' hs' ↦ ?_
    exact hL.bypass hn (List.mem_map_of_mem hs') (hs s' (List.mem_cons_of_mem _ hs'))
  | declaration | forLoop | ifThen | expression | empty | unsupported =>
    exact hL.enter hn (hs _ List.mem_cons_self)

/-- A consequent, with a plan or without. -/
private theorem consequent {config : Config} {test : Expr} {consequent : Stmt}
    {alternate : Option Stmt} {loc : Option Location}
    (hs : ∀ s' ∈ consequent :: consequent.asBody, At (.stmt s') (s'.exec config)) :
    let plan := if config.swapDetection then SwapPlan.ofIf? test consequent else none
    Inside (.stmt (.ifThen test consequent alternate loc))
      (consequent.asBodyOf (consequent.effect config plan)) := by
  intro plan
  have hplain : Inside (.stmt (.ifThen test consequent alternate loc))
      (consequent.execBody config) := by
    refine hL.body ?_ hs
    split <;> simp [Node.bypassed, Node.entered, *]
  cases hplan : plan with
  | none => exact hplain
  | some p =>
    have hif : SwapPlan.ofIf? test consequent = some p := by
      simp only [plan] at hplan
      split at hplan
      · exact hplan
      · cases hplan
    -- a plan is only found in a block, which the `if` bypasses
    obtain ⟨body, bodyLoc, rfl⟩ := SwapPlan.exists_block hif
    refine (hL.steps _).effects (fun s' hs' ↦ ?_) ?_
    · have hblock : .stmt (.block body bodyLoc) ∈
          (Node.stmt (.ifThen test (.block body bodyLoc) alternate loc)).bypassed := by
        simp [Node.bypassed, Stmt.isBlock]
      exact hL.bypass hblock (List.mem_map_of_mem hs') (hs s' (List.mem_cons_of_mem _ hs'))
    · intro p' hp' k write hwrite hk
      obtain rfl := Option.some.inj hp'
      rw [Nat.zero_add] at hk
      exact hL.planned hif (hk ▸ hwrite) (hL.eval _) (hL.eval _)

/-- What a statement does, and running the statements that it stands for as a body. -/
private theorem effect_and_body (config : Config) (s : Stmt) :
    Inside (.stmt s) (s.effect config none) ∧
      ∀ s' ∈ s :: s.asBody, At (.stmt s') (s'.exec config) := by
  have hself : ∀ {s : Stmt}, s.asBody = [s] → Inside (.stmt s) (s.effect config none) →
      Inside (.stmt s) (s.effect config none) ∧
        ∀ s' ∈ s :: s.asBody, At (.stmt s') (s'.exec config) := by
    intro s hbody h
    refine ⟨h, fun s' hs' ↦ ?_⟩
    obtain rfl : s' = s := by simpa [hbody] using hs'
    exact hL.atNode h
  induction s with
  | declaration d => exact hself rfl (hL.declaration (.inl rfl))
  | forLoop init test update body loc hbody =>
    have hP := hL.steps (.stmt (.forLoop init test update body loc))
    refine hself rfl ?_
    rw [Stmt.effect_forLoop]
    refine hP.bind (hL.forInit init test update body loc) fun _ ↦ ?_
    refine hP.bind (hP.iterate ?_ ?_ _ _) fun stopped ↦ hP.record _ _
    · refine hP.holds fun e he ↦ hL.enter ?_ (hL.eval e)
      simp [Node.entered, he]
    · refine hP.bind (hL.body ?_ hbody.2) fun _ ↦ hP.loopUpdate _ fun e he ↦ hL.evalWrite ?_
      · split <;> simp [Node.bypassed, Node.entered, *]
      · simp [Node.entered, he]
  | ifThen test consequent alternate loc hconsequent halternate =>
    have hP := hL.steps (.stmt (.ifThen test consequent alternate loc))
    refine hself rfl ?_
    rw [Stmt.effect_ifThen]
    refine hP.bind (hL.enter List.mem_cons_self (hL.eval test)) fun v ↦ ?_
    refine hP.bind (hP.record _ _) fun _ ↦ ?_
    split
    · exact hL.consequent hconsequent.2
    · cases alternate with
      | none => exact hP.pure ()
      | some s =>
        refine hL.body ?_ (halternate s rfl).2
        split <;> simp [Node.bypassed, Node.entered, *]
  | block body loc hbody =>
    have hstatements : ∀ s ∈ body, At (.stmt s) (s.exec config) :=
      fun s hs ↦ (hbody s hs).2 s List.mem_cons_self
    have heffect : Inside (.stmt (.block body loc))
        (Stmt.effect config none (.block body loc)) := by
      refine (hL.steps _).statements fun s hs ↦ ?_
      exact hL.enter (List.mem_map_of_mem hs) (hstatements s hs)
    exact ⟨heffect, List.forall_mem_cons.mpr ⟨hL.atNode heffect, hstatements⟩⟩
  | expression e loc =>
    have hP := hL.steps (.stmt (.expression e loc))
    refine hself rfl ?_
    rw [Stmt.effect_expression]
    refine hP.bind (hL.evalWrite List.mem_cons_self) fun written ↦ ?_
    cases written with
    | none => exact hP.pure ()
    | some w => exact hP.bind hP.heap fun h ↦ hP.record _ _
  | empty loc => exact hself rfl ((hL.steps _).pure ())
  | unsupported nodeType loc => exact hself rfl (hL.raise (.inl rfl))

/-- What any statement does. -/
theorem effect (config : Config) (s : Stmt) : Inside (.stmt s) (s.effect config none) :=
  (hL.effect_and_body config s).1

/-- Running any statement. -/
theorem exec (config : Config) (s : Stmt) : At (.stmt s) (s.exec config) :=
  hL.atNode (hL.effect config s)

end Localized

/-! ## Properties that do not depend on the node -/

/-- A property that all steps of a run have, and that joining computations and naming a node
keep. -/
structure Compositional (P : {α : Type} → Eval α → Prop) : Prop extends Stepwise P where
  fail {α : Type} (cause : Cause) : P (Eval.fail cause : Eval α)
  atNode {α : Type} (nodeType : String) (line : Option UInt32) {m : Eval α} (hm : P m) :
    P (Eval.atNode nodeType line m)

namespace Compositional

variable {P : {α : Type} → Eval α → Prop} (hP : Compositional P)

include hP

theorem localized : Localized (fun _ {_} m ↦ P m) (fun _ {_} m ↦ P m) where
  steps _ := hP.toStepwise
  raise _ := hP.fail _
  atNode := hP.atNode _ _
  enter _ h := h
  bypass _ _ h := h
  pattern _ _ _ := hP.atNode _ _ (hP.fail _)
  planned _ _ hfirst hsecond := hP.atNode _ _ (hP.plannedSwap hfirst hsecond)

theorem eval (e : Expr) : P e.eval := hP.localized.eval e

/-- A compositional property holds of every program. -/
theorem exec (config : Config) (p : Program) : P (p.exec config) :=
  hP.statements fun s _ ↦ hP.localized.exec config s

end Compositional

end Eval

end ScriptTrace
