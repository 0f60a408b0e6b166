import ScriptTrace.Proofs.UpkeepTree

/-!
# Whole runs keep up what an upkeep asks for

A `Manner` says of the expressions of a program which may stand where. A program in a manner keeps
up what an upkeep asks for if the effects of the expressions in their places are admitted
(`Manner.KeptBy`). For an expression that is a statement or the update of a loop, its own write to a
name is always allowed: the run records it at once.

In a consequent that contains the swap idiom, the two writes of it are not run at all when swap
detection is on. A manner can leave them out of account.
-/

namespace ScriptTrace

open Eval (Upholds)

/-! ## Programs in a manner -/

/-- Which expressions may stand where in a program. -/
structure Manner where
  /-- Where they are evaluated for their value. -/
  value : Expr → Bool
  /-- Where they are statements, or the updates of loops. -/
  statement : Expr → Bool
  /-- Whether the two writes of a swap idiom are left out of account. -/
  sparesIdioms : Bool

namespace Manner

variable (M : Manner)

/-- The plan whose writes are left out of account in the consequent of an `if`. -/
def plan? (test : Expr) (consequent : Stmt) : Option SwapPlan :=
  if M.sparesIdioms then SwapPlan.ofIf? test consequent else none

/-- Whether the expressions of the first part of the head of a loop may stand there. -/
def allowsInit : Option ForInit → Bool
  | none => true
  | some (.declaration d) => d.values.all M.value
  | some (.expression e) => M.value e

mutual

/-- Whether the expressions of a statement may stand where they do, those in the writes of a plan
left out of account. -/
def allows (plan : Option SwapPlan) (s : Stmt) : Bool :=
  match s with
  | .declaration d => d.values.all M.value
  | .forLoop init test update body _ =>
    M.allowsInit init && test.all M.value && update.all M.statement && allows none body
  | .ifThen test consequent alternate _ =>
    M.value test && allows (M.plan? test consequent) consequent &&
      match alternate with
      | none => true
      | some s => allows none s
  | .block body _ => allowsAll plan 0 body
  | .expression e _ => M.statement e
  | .empty _ | .unsupported .. => true

/-- Whether the expressions of statements may stand where they do, the first of which is at
`position`. -/
def allowsAll (plan : Option SwapPlan) (position : Nat) : List Stmt → Bool
  | [] => true
  | s :: rest =>
    (SwapPlan.isWrite plan position || allows none s) && allowsAll plan (position + 1) rest

end

theorem allows_ifThen (plan : Option SwapPlan) (test : Expr) (consequent : Stmt)
    (alternate : Option Stmt) (loc : Option Location) :
    M.allows plan (.ifThen test consequent alternate loc) =
      (M.value test && M.allows (M.plan? test consequent) consequent &&
        match alternate with
        | none => true
        | some s => M.allows none s) := by
  cases alternate <;> rfl

/-- Whether the effects of expressions are admitted, as far as they may stand where they do. -/
structure KeptBy (U : Upkeep) : Prop where
  value {e : Expr} (he : M.value e = true) : e.AdmittedBy U
  inside {e : Expr} (he : M.statement e = true) {effect : Effect}
    (hdoes : e.doesInside effect = true) : U.Admits effect
  write {e : Expr} (he : M.statement e = true) (heffect : e.effect? = some .write) :
    U.Admits .write

end Manner

/-- Whether the expressions of a program may stand where they do. -/
def Program.inManner (M : Manner) (p : Program) : Bool := M.allowsAll none 0 p.body

/-! ## Writes and their events -/

namespace Eval

/-- A step that does not fail can be taken outside of a node. -/
theorem atNode_bind {α β : Type} (nodeType : String) (line : Option UInt32) (m : Eval α)
    {k : α → Eval β} (hk : ∀ a s, ∃ b t, k a s = .ok b t) :
    atNode nodeType line (m >>= k) = atNode nodeType line m >>= k := by
  funext s
  rcases h : m s with ⟨a, t⟩ | ⟨failure, t⟩
  · obtain ⟨b, u, hok⟩ := hk a t
    rw [bind_of_ok (atNode_of_ok h), hok, atNode_of_ok (bind_of_ok h |>.trans hok)]
  · have hnode : atNode nodeType line m s = .error (failure.atNode nodeType line) t := by
      rw [atNode, h]
    rw [bind_of_error hnode, atNode, bind_of_error h]

end Eval

namespace Place

/-- A state after a write to a place. -/
def written (p : Place) (v : Value) (s : State) : State :=
  match p with
  | named name => { s with environment := s.environment.define name v }
  | slot _ id i => { s with heap := s.heap.write id i v }

/-- A write never fails. -/
theorem write_eq (p : Place) (v : Value) (s : State) :
    p.write v s = .ok ⟨p, v⟩ (p.written v s) := by
  rcases p with name | ⟨label, id, i⟩
  · rfl
  · rfl

end Place

namespace Expr

private theorem exists_some_write_eq (w : Written) (s : State) :
    ∃ w' t, (do return some (← w.place.write w.value)) s = .ok (w' : Option Written) t := by
  exact ⟨_, _, Eval.bind_of_ok (w.place.write_eq w.value s)⟩

/-- The write is the last thing that an assignment does as a statement. -/
theorem evalWrite_assign (op : AssignOp) (target value : Expr) (loc : Option Location) :
    (assign op target value loc).evalWrite = (do
      let w ← Eval.atNode "AssignmentExpression" (loc.map (·.start.line))
        (Eval.toAssign op value.eval target.place)
      return some (← w.place.write w.value)) := by
  rw [evalWrite, Eval.assign_eq, bind_assoc, Eval.atNode_bind _ _ _ exists_some_write_eq]

/-- The write is the last thing that a step does as a statement. -/
theorem evalWrite_update (op : UpdateOp) (target : Expr) (isBefore : Bool)
    (loc : Option Location) : (update op target isBefore loc).evalWrite = (do
      let x ← Eval.atNode "UpdateExpression" (loc.map (·.start.line))
        (Eval.toStep op isBefore target.place)
      return some (← x.2.place.write x.2.value)) := by
  rw [evalWrite, Eval.step_eq, bind_assoc]
  simp only [bind_assoc, pure_bind]
  exact Eval.atNode_bind _ _ _ fun x s ↦ exists_some_write_eq x.2 s

/-- An expression does the same to the state where its value counts and where its write does. -/
theorem endState_evalWrite (e : Expr) (s : State) :
    e.evalWrite.endState s = e.eval.endState s := by
  cases e with
  | assign op target value loc =>
    rw [evalWrite, eval, Eval.endState_atNode, Eval.endState_atNode, Eval.endState_bind_pure,
      Eval.endState_bind_pure]
  | update op target isBefore loc =>
    rw [evalWrite, eval, Eval.endState_atNode, Eval.endState_atNode]
    exact (Eval.endState_bind_pure _ _ s).trans (Eval.endState_bind_pure _ _ s).symm
  | literal | identifier | binary | logical | unary | array | index | property | call | conditional
  | unsupported => exact Eval.endState_bind_pure _ _ s

/-- What comes of the write of an expression that stands as a statement, or as the update of a
loop. -/
def thenWith (e : Expr) (f : Written → Eval Unit) : Eval Unit := do
  match ← e.evalWrite with
  | some w => f w
  | none => return ()

variable {f : Written → Eval Unit}

/-- If that leaves the arrays alone, they are as the expression leaves them. -/
theorem heap_endState_thenWith (e : Expr) (hf : ∀ w t, ((f w).endState t).heap = t.heap)
    (s : State) : ((e.thenWith f).endState s).heap = (e.eval.endState s).heap := by
  rw [← e.endState_evalWrite, thenWith]
  rcases h : e.evalWrite s with ⟨w, t⟩ | ⟨failure, t⟩
  · rw [Eval.endState_bind_of_ok h, Eval.endState_of_ok h]
    rcases w with _ | w
    · rfl
    · exact hf w t
  · rw [Eval.endState_bind_of_error h, Eval.endState_of_error h]

variable {U : Upkeep} {M : Manner}

/-- An expression with the record of its write, from the write with its record. -/
theorem thenWith_upholds (hM : M.KeptBy U) {e : Expr} (he : M.statement e = true)
    (hf : ∀ w t, ((f w).endState t).heap = t.heap)
    (hwrite : ∀ (w : Written) (t : State), U.Valid t → U.Fits t.heap w.value →
      w.place.Found t.heap → (w.place.effect = .write → U.Admits .write) →
      (w.place.write w.value >>= f).Upholds U t [] fun _ _ ↦ True)
    {s : State} (hs : U.Valid s) :
    (e.thenWith f).Upholds U s (e.evaluations s) fun _ _ ↦ True := by
  have hchild : ∀ c ∈ e.children, c.AdmittedBy U := fun c hc effect hdoes ↦
    hM.inside he (doesInside_of_mem_children hc hdoes)
  have hheap := e.heap_endState_thenWith hf s
  have hvalue (hnone : e.effect? = none) : e.Upheld U := by
    refine (upheld_and_placeUpheld e fun effect hdoes ↦ hM.inside he ?_).1
    rwa [does_eq_or, hnone] at hdoes
  rw [thenWith] at hheap ⊢
  -- the write of an assignment or a step is not admitted without its record
  have hrecorded : ∀ (w : Written) (t : State), U.Valid t → U.Fits t.heap w.value →
      w.place.Found t.heap → e.effect? = some w.place.effect →
      (w.place.write w.value >>= f).Upholds U t [] fun _ _ ↦ True :=
    fun w t ht hfits hfound heffect ↦ hwrite w t ht hfits hfound fun h ↦ hM.write he (h ▸ heffect)
  cases e with
  | assign op target value loc =>
    have htarget := (upheld_and_placeUpheld target (hchild _ List.mem_cons_self)).2
    have hvalue := (upheld_and_placeUpheld value (hchild _ (by simp [children]))).1
    refine .cons ?_ hheap.symm
    rw [evalWrite_assign, bind_assoc]
    refine (Upholds.atNode _ _ (.toAssign hs (hvalue s hs) htarget)).bind_quiet ?_
    intro w t _ ht _ hw
    simp only [bind_assoc, pure_bind]
    exact hrecorded w t ht hw.1 hw.2.1 hw.2.2
  | update op target isBefore loc =>
    have htarget := (upheld_and_placeUpheld target (hchild _ List.mem_cons_self)).2
    refine .cons ?_ hheap.symm
    rw [evalWrite_update, bind_assoc]
    refine (Upholds.atNode _ _ (.toStep (htarget s hs))).bind_quiet ?_
    intro x t _ ht _ hw
    simp only [bind_assoc, pure_bind]
    exact hrecorded x.2 t ht hw.2.1 hw.2.2.1 hw.2.2.2
  | literal | identifier | binary | logical | unary | array | index | property | call | conditional
  | unsupported =>
    refine Upholds.bind_quiet (Q := fun _ w ↦ w = none) ?_ fun w t _ ht _ hw ↦ ?_
    · exact (hvalue rfl s hs).bind_quiet fun _ t _ ht _ _ ↦ .pure ht rfl
    · subst hw
      exact .pure ht trivial

end Expr

variable {U : Upkeep} {M : Manner} {config : Config}

/-! ## Parts of statements -/

namespace Declaration

theorem bind_upholds {d : Declarator} (h : ∀ e, d.init = some e → e.Upheld U)
    (line : Option UInt32) {s : State} (hs : U.Valid s) :
    (bind line d).Upholds U s (bindEvaluations d s) fun _ _ ↦ True := by
  rw [bind, bindEvaluations]
  rcases d.target.name? with _ | name
  · exact .atNode _ _ (.fail hs)
  · rcases hinit : d.init with _ | e
    · have hfits : U.Fits s.heap .undefined := U.fits_plain _ fun _ ↦ Value.noConfusion
      exact .define_record hs hfits line fun _ ↦ rfl
    · refine (h e hinit s hs).bind_quiet fun v t _ ht _ hv ↦ ?_
      exact .define_record ht hv line fun _ ↦ rfl

theorem exec_upholds {d : Declaration} (h : ∀ e ∈ d.values, e.Upheld U) {s : State}
    (hs : U.Valid s) : d.exec.Upholds U s (d.evaluations s) fun _ _ ↦ True := by
  rw [exec, evaluations]
  rw [values] at h
  generalize d.declarators = declarators at h ⊢
  induction declarators generalizing s with
  | nil => exact .pure hs trivial
  | cons declarator rest ih =>
    have hfirst : ∀ e, declarator.init = some e → e.Upheld U := fun e he ↦
      h e (List.mem_filterMap.mpr ⟨declarator, List.mem_cons_self, he⟩)
    refine .bind (bind_upholds hfirst d.line hs) fun _ t _ ht _ _ ↦ ih ht fun e he ↦ ?_
    obtain ⟨later, hlater, he⟩ := List.mem_filterMap.mp he
    exact h e (List.mem_filterMap.mpr ⟨later, List.mem_cons_of_mem _ hlater, he⟩)

end Declaration

theorem Manner.KeptBy.declaration_upholds (hM : M.KeptBy U) {d : Declaration}
    (hd : d.values.all M.value = true) {s : State} (hs : U.Valid s) :
    d.exec.Upholds U s (d.evaluations s) fun _ _ ↦ True := by
  refine Declaration.exec_upholds (fun e he ↦ ?_) hs
  exact (e.upheld_and_placeUpheld (hM.value (List.all_eq_true.mp hd e he))).1

theorem ForInit.exec_upholds (hM : M.KeptBy U) {init : Option ForInit}
    (hinit : M.allowsInit init = true) {s : State} (hs : U.Valid s) :
    (ForInit.exec init).Upholds U s (ForInit.evaluations init s) fun _ _ ↦ True := by
  rcases init with _ | d | e
  · exact .pure hs trivial
  · exact hM.declaration_upholds hinit hs
  · have he := (e.upheld_and_placeUpheld (hM.value hinit)).1
    exact (he s hs).bind_quiet fun _ t _ ht _ _ ↦ .pure ht trivial

theorem Expr.holds_upholds (hM : M.KeptBy U) {test : Option Expr}
    (htest : test.all M.value = true) {s : State} (hs : U.Valid s) :
    (holds test).Upholds U s (optionalEvaluations test s) fun _ _ ↦ True := by
  rcases test with _ | e
  · exact .pure hs trivial
  · have he := (e.upheld_and_placeUpheld (hM.value htest)).1
    exact (he s hs).bind_quiet fun v t _ ht _ _ ↦ .pure ht trivial

namespace Eval

theorem iterate_upholds {test : Eval Bool} {body : Eval Unit} {ofTest ofBody : Log}
    (htest : ∀ s, U.Valid s → test.Upholds U s (ofTest s) fun _ _ ↦ True)
    (hbody : ∀ s, U.Valid s → body.Upholds U s (ofBody s) fun _ _ ↦ True)
    (left ran : Nat) {s : State} (hs : U.Valid s) :
    (iterate test body left ran).Upholds U s (Log.rounds ofTest test ofBody body left s)
      fun _ _ ↦ True := by
  induction left generalizing ran s with
  | zero =>
    refine (htest s hs).bind_quiet fun proceed t _ ht _ _ ↦ ?_
    split
    · exact .pure ht trivial
    · exact .pure ht trivial
  | succ left ih =>
    refine .bind (htest s hs) fun proceed t _ ht _ _ ↦ ?_
    by_cases hproceed : proceed = true
    · rw [if_pos hproceed, if_pos hproceed]
      exact .bind (hbody t ht) fun _ u _ hu _ _ ↦ ih (ran + 1) hu
    · rw [if_neg hproceed, if_neg hproceed]
      exact .pure ht trivial

/-- What the update of a loop does after its write: the value of a variable is recorded. -/
def recordUpdate (line : Option UInt32) (e : Expr) (w : Written) : Eval Unit :=
  match w.place with
  | .named name => do record (e.line <|> line) (.loopUpdate name ((← heap).snapshot w.value))
  | .slot .. => return ()

theorem loopUpdate_eq_thenWith (line : Option UInt32) (e : Expr) :
    loopUpdate line (some e) = e.thenWith (recordUpdate line e) := by
  refine bind_congr fun w ↦ ?_
  rcases w with _ | ⟨_ | _, v⟩ <;> rfl

theorem loopUpdate_upholds (hM : M.KeptBy U) (line : Option UInt32) {update : Option Expr}
    (hupdate : update.all M.statement = true) {s : State} (hs : U.Valid s) :
    (loopUpdate line update).Upholds U s (Expr.optionalEvaluations update s)
      fun _ _ ↦ True := by
  rcases update with _ | e
  · exact .pure hs trivial
  rw [loopUpdate_eq_thenWith]
  refine Expr.thenWith_upholds hM hupdate (fun w t ↦ ?_) (fun w t ht hfits hfound hadmits ↦ ?_) hs
  · rcases w with ⟨_ | _, v⟩ <;> rfl
  · rcases w with ⟨name | ⟨label, id, i⟩, v⟩
    · exact .define_record ht hfits _ fun _ ↦ rfl
    · refine (Upholds.write (hadmits rfl) ht hfits hfound).bind_quiet fun w u _ hu _ hw ↦ ?_
      subst hw
      exact .pure hu trivial

end Eval

namespace Stmt

theorem expression_upholds (hM : M.KeptBy U) {e : Expr} (he : M.statement e = true)
    (plan : Option SwapPlan) (loc : Option Location) {s : State} (hs : U.Valid s) :
    (effect config plan (.expression e loc)).Upholds U s (e.evaluations s) fun _ _ ↦ True := by
  let f : Written → Eval Unit := fun w ↦ do
    Eval.record (loc.map (·.start.line)) (w.details (← Eval.heap))
  have heq : effect config plan (.expression e loc) = e.thenWith f :=
    effect_expression config plan e loc
  rw [heq]
  refine Expr.thenWith_upholds hM he (fun w t ↦ rfl) (fun w t ht hfits hfound hadmits ↦ ?_) hs
  rcases w with ⟨name | ⟨label, id, i⟩, v⟩
  · exact .define_record ht hfits _ fun _ ↦ rfl
  · refine (Upholds.write (hadmits rfl) ht hfits hfound).bind_quiet fun w u _ hu _ hw ↦ ?_
    subst hw
    exact .heap_bind (.record hu _ rfl)

/-! ## Statements -/

/-- The plan of a run, next to one whose writes are left out of account: the run leaves them out
too, and the indices of its own exchange keep up what is asked for. -/
structure PlansAgree (U : Upkeep) (spared plan : Option SwapPlan) : Prop where
  isWrite {position : Nat} (h : SwapPlan.isWrite spared position = true) :
    SwapPlan.isWrite plan position = true
  first {p : SwapPlan} (hp : plan = some p) : p.first.Upheld U
  second {p : SwapPlan} (hp : plan = some p) : p.second.Upheld U

theorem PlansAgree.none : PlansAgree U none none := ⟨nofun, nofun, nofun⟩

/-- A plan that is found leaves out what a manner leaves out of account, if the manner asks for swap
detection. Its indices have no effects. -/
theorem plansAgree_plan? (hspares : M.sparesIdioms = true → config.swapDetection = true)
    (test : Expr) (consequent : Stmt) : PlansAgree U (M.plan? test consequent)
      (if config.swapDetection then SwapPlan.ofIf? test consequent else none) := by
  have hstable : ∀ {e : Expr} {changed}, e.isStable changed = true → e.Upheld U := by
    intro e changed he
    refine (e.upheld_and_placeUpheld fun effect hdoes ↦ ?_).1
    rw [e.does_of_isStable he] at hdoes
    cases hdoes
  have hidiom : ∀ {p}, (if config.swapDetection then SwapPlan.ofIf? test consequent
      else none) = some p → p.first.Upheld U ∧ p.second.Upheld U := by
    intro p hp
    split at hp
    · obtain ⟨x, -, -, -⟩ := SwapPlan.exists_idiom hp
      exact ⟨hstable x.first_stable, hstable x.second_stable⟩
    · cases hp
  refine ⟨fun {position} h ↦ ?_, fun hp ↦ (hidiom hp).1, fun hp ↦ (hidiom hp).2⟩
  rw [Manner.plan?] at h
  split at h
  · rename_i hM
    rwa [if_pos (hspares hM)]
  · cases h

/-- A statement at its turn: its own run, or the exchange of the plan, or nothing. -/
theorem turn_upholds {spared plan : Option SwapPlan} (hplan : PlansAgree U spared plan)
    {position : Nat} {x : Stmt}
    (hx : SwapPlan.isWrite spared position = false → ∀ s, U.Valid s →
      (x.effect config none).Upholds U s (x.evaluations config none s)
        fun _ _ ↦ True)
    {s : State} (hs : U.Valid s) :
    (x.turn config plan position).Upholds U s
      ((match plan with
        | none => x.evaluations config none
        | some p =>
          if position = p.position then p.evaluations
          else if position ≠ p.position + 1 then x.evaluations config none
          else .empty) s) fun _ _ ↦ True := by
  have hx (h : SwapPlan.isWrite plan position = false) := hx (by
    rw [Bool.eq_false_iff] at h ⊢
    exact fun hspared ↦ h (hplan.isWrite hspared)) s hs
  rcases plan with _ | p
  · exact (hx rfl).atNode _ _
  · dsimp only [turn]
    by_cases hwrite : position = p.position
    · rw [if_pos hwrite, if_pos hwrite]
      exact .atNode _ _ (.plannedSwap (hplan.first rfl s hs) (hplan.second rfl))
    · rw [if_neg hwrite, if_neg hwrite]
      by_cases hnext : position ≠ p.position + 1
      · rw [if_pos hnext, if_pos hnext]
        refine (hx ?_).atNode _ _
        simpa [SwapPlan.isWrite, hwrite] using hnext
      · rw [if_neg hnext, if_neg hnext]
        exact .pure hs trivial

/-- Statements in order, with a plan for them or without. -/
theorem effects_upholds {spared plan : Option SwapPlan} (hplan : PlansAgree U spared plan)
    {position : Nat} {body : List Stmt} (hbody : M.allowsAll spared position body = true)
    (h : ∀ x ∈ body, M.allows none x = true → ∀ s, U.Valid s →
      (x.effect config none).Upholds U s (x.evaluations config none s) fun _ _ ↦ True)
    {s : State} (hs : U.Valid s) :
    (effects config plan position body).Upholds U s (allEvaluations config plan position body s)
      fun _ _ ↦ True := by
  induction body generalizing position s with
  | nil =>
    rw [effects_nil]
    exact .pure hs trivial
  | cons x rest ih =>
    obtain ⟨hx, hrest⟩ := Bool.and_eq_true_iff.mp hbody
    obtain ⟨hfirst, hlater⟩ := List.forall_mem_cons.mp h
    rw [effects_cons_eq_turn]
    refine .bind (turn_upholds hplan (fun hwrite ↦ hfirst ?_) hs) fun _ t _ ht _ _ ↦
      ih hrest hlater ht
    rwa [hwrite, Bool.false_or] at hx

theorem asBodyOf_upholds {m : Eval Unit} {visits : List Evaluation} (x : Stmt) {s : State}
    (hm : m.Upholds U s visits fun _ _ ↦ True) :
    (x.asBodyOf m).Upholds U s visits fun _ _ ↦ True := by
  rw [asBodyOf]
  split
  · exact hm
  · exact hm.atNode _ _

/-- What a statement does keeps up what is asked for, if its expressions may stand where they do. -/
theorem effect_upholds (hM : M.KeptBy U)
    (hspares : M.sparesIdioms = true → config.swapDetection = true) {x : Stmt}
    {spared plan : Option SwapPlan} (hx : M.allows spared x = true)
    (hplan : PlansAgree U spared plan) {s : State} (hs : U.Valid s) :
    (x.effect config plan).Upholds U s (x.evaluations config plan s) fun _ _ ↦ True := by
  induction x generalizing spared plan s with
  | declaration d => exact hM.declaration_upholds hx hs
  | forLoop init test update body loc hbody =>
    obtain ⟨hx, hbodyAllowed⟩ := Bool.and_eq_true_iff.mp hx
    obtain ⟨hx, hupdate⟩ := Bool.and_eq_true_iff.mp hx
    obtain ⟨hinit, htest⟩ := Bool.and_eq_true_iff.mp hx
    have hbody : ∀ s, U.Valid s → (body.execBody config).Upholds U s
        (body.evaluations config none s) fun _ _ ↦ True :=
      fun s hs ↦ body.asBodyOf_upholds (hbody hbodyAllowed .none hs)
    refine .bind (ForInit.exec_upholds hM hinit hs) fun _ t _ ht _ _ ↦ ?_
    refine Upholds.bind_quiet (Eval.iterate_upholds ?_ ?_ _ _ ht) fun stopped u _ hu _ _ ↦ ?_
    · exact fun s hs ↦ Expr.holds_upholds hM htest hs
    · exact fun s hs ↦ .bind (hbody s hs) fun _ t _ ht _ _ ↦
        Eval.loopUpdate_upholds hM _ hupdate ht
    · exact .record hu _ rfl
  | ifThen test consequent alternate loc hconsequent halternate =>
    rw [Manner.allows_ifThen] at hx
    obtain ⟨hx, hx'⟩ := Bool.and_eq_true_iff.mp hx
    obtain ⟨htest, hx⟩ := Bool.and_eq_true_iff.mp hx
    have htest := (test.upheld_and_placeUpheld (hM.value htest)).1
    rw [effect_ifThen, evaluations_ifThen]
    refine .bind (htest s hs) fun a t _ ht _ _ ↦ ?_
    refine .bind (.record ht _ rfl) fun _ u _ hu _ _ ↦ ?_
    by_cases hgoes : a.isTruthy = true
    · rw [if_pos hgoes, if_pos hgoes]
      exact consequent.asBodyOf_upholds (hconsequent hx (plansAgree_plan? hspares _ _) hu)
    · rw [if_neg hgoes, if_neg hgoes]
      rcases alternate with _ | x
      · exact .pure hu trivial
      · exact x.asBodyOf_upholds (halternate x rfl hx' .none hu)
  | block body loc hbody =>
    exact effects_upholds hplan hx (fun x hmem hx s hs ↦ hbody x hmem hx .none hs) hs
  | expression e loc => exact expression_upholds hM hx plan loc hs
  | empty loc => exact .pure hs trivial
  | unsupported nodeType loc => exact .fail hs

end Stmt

/-- **Runs keep up what an upkeep asks for**, if the effects of the expressions of the program are
admitted where they stand. -/
theorem Program.exec_upholds (hM : M.KeptBy U)
    (hspares : M.sparesIdioms = true → config.swapDetection = true) {p : Program}
    (hp : p.inManner M = true) {s : State} (hs : U.Valid s) :
    (p.exec config).Upholds U s (p.evaluations config s) fun _ _ ↦ True :=
  Stmt.effects_upholds .none hp
    (fun _ _ hx _ hs ↦ Stmt.effect_upholds hM hspares hx .none hs) hs

end ScriptTrace
