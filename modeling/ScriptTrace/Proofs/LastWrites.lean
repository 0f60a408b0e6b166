import ScriptTrace.Proofs.PureExpressions

/-!
# What is written is written last

An assignment, a step or a call of `swap` has operands, which are evaluated in order
(`Expr.operands`), and after them it changes one variable, one slot, or exchanges two slots. All
checks are made before the change. So a failure leaves what the operands have left that were
evaluated until then, and a success changes this at one place.

`Eval.TakesInTurn` says of a computation that it evaluates operands in order, and otherwise leaves
everything as it is. It is shown of the part of each expression that comes before the change.
-/

namespace ScriptTrace

namespace Expr

/-! ## Operands -/

/-- What is evaluated for a target: the object of an element, unless it is a name, and the index. -/
def targetOperands : Expr → List Expr
  | index object i _ => if object.name?.isSome then [i] else [object, i]
  | _ => []

/-- What an assignment, a step or a call evaluates, in order. The first argument of a call stands
for its own name. -/
def operands : Expr → List Expr
  | update _ target _ _ => target.targetOperands
  | assign _ target value _ => value :: target.targetOperands
  | call _ arguments _ => arguments.tail
  | _ => []

/-- Whether expressions are evaluated one after the other, from one state to another: all to a
value, except for the last, where the evaluation may fail. -/
inductive InTurn : List Expr → State → State → Prop
  | nil (s : State) : InTurn [] s s
  | cons {e : Expr} {rest : List Expr} {v : Value} {s t u : State} (h : e.eval s = .ok v t)
    (hrest : InTurn rest t u) : InTurn (e :: rest) s u
  | fails {e : Expr} {failure : Failure} {s t : State} (h : e.eval s = .error failure t) :
    InTurn [e] s t

/-- Where nothing but pure expressions is evaluated, everything is left as it is. -/
theorem InTurn.kept {evaluated : List Expr} {s t : State} (h : InTurn evaluated s t)
    (hpure : ∀ e ∈ evaluated, e.IsPure) : s.Kept t := by
  induction h with
  | nil s => exact .refl s
  | @cons e rest v s t u heval _ ih =>
    obtain ⟨he, hrest⟩ := List.forall_mem_cons.mp hpure
    exact (Eval.endState_of_ok heval ▸ he.quiet.1 s).trans (ih hrest)
  | @fails e failure s t heval =>
    exact Eval.endState_of_error heval ▸ (List.forall_mem_singleton.mp hpure).quiet.1 s

variable {e : Expr} {xs ys rest : List Expr} {values values' : List Value} {s t u : State}

theorem evalAll_cons_eq_ok_iff : evalAll (e :: rest) s = .ok values u ↔
    ∃ v t vs, e.eval s = .ok v t ∧ evalAll rest t = .ok vs u ∧ v :: vs = values := by
  rw [evalAll, Eval.bind_eq_ok_iff]
  simp only [Eval.bind_pure_eq_ok_iff, exists_and_left]

theorem evalAll_append (hxs : evalAll xs s = .ok values t) (hys : evalAll ys t = .ok values' u) :
    evalAll (xs ++ ys) s = .ok (values ++ values') u := by
  induction xs generalizing s values with
  | nil =>
    cases hxs
    exact hys
  | cons e rest ih =>
    obtain ⟨v, r, vs, heval, hrest, rfl⟩ := evalAll_cons_eq_ok_iff.mp hxs
    exact evalAll_cons_eq_ok_iff.mpr ⟨v, r, vs ++ values', heval, ih hrest, rfl⟩

theorem allEvaluations_append (hxs : evalAll xs s = .ok values t) (ys : List Expr) :
    allEvaluations (xs ++ ys) s = allEvaluations xs s ++ allEvaluations ys t := by
  induction xs generalizing s values with
  | nil =>
    cases hxs
    rfl
  | cons e rest ih =>
    obtain ⟨v, r, vs, heval, hrest, -⟩ := evalAll_cons_eq_ok_iff.mp hxs
    rw [List.cons_append, allEvaluations, allEvaluations, Log.andThen, Log.andThen, heval,
      List.append_assoc]
    exact congrArg (_ ++ ·) (ih hrest)

theorem InTurn.append (hxs : evalAll xs s = .ok values t) (hys : InTurn ys t u) :
    InTurn (xs ++ ys) s u := by
  induction xs generalizing s values with
  | nil =>
    cases hxs
    exact hys
  | cons e rest ih =>
    obtain ⟨v, r, vs, heval, hrest, -⟩ := evalAll_cons_eq_ok_iff.mp hxs
    exact .cons heval (ih hrest)

end Expr

namespace Eval

/-- Parts that change nothing change nothing together. -/
theorem endState_bind_still {α β : Type} {m : Eval α} {k : α → Eval β} {s : State}
    (hm : m.endState s = s) (hk : ∀ a, (k a).endState s = s) : (m >>= k).endState s = s := by
  rcases h : m s with ⟨a, t⟩ | ⟨failure, t⟩
  · obtain rfl : t = s := (endState_of_ok h).symm.trans hm
    exact (endState_bind_of_ok h).trans (hk a)
  · exact (endState_bind_of_error h).trans ((endState_of_error h).symm.trans hm)

/-! ## Evaluating operands -/

/-- Whether a computation evaluates operands in turn from a state, these evaluations consist of
`visits`, and nothing else is changed. -/
structure TakesInTurn {α : Type} (m : Eval α) (operands : List Expr) (visits : List Evaluation)
    (s : State) : Prop where
  ok {a : α} {t : State} (h : m s = .ok a t) :
    (∃ values, Expr.evalAll operands s = .ok values t) ∧ visits = Expr.allEvaluations operands s
  error {failure : Failure} {t : State} (h : m s = .error failure t) :
    ∃ evaluated, evaluated <+: operands ∧ visits = Expr.allEvaluations evaluated s ∧
      Expr.InTurn evaluated s t

namespace TakesInTurn

variable {α β : Type} {m : Eval α} {k : α → Eval β} {xs ys : List Expr} {s : State}
  {visits : List Evaluation}

/-- What changes nothing takes no operands. -/
theorem still (h : m.endState s = s) : m.TakesInTurn [] [] s := by
  refine ⟨fun hok ↦ ?_, fun herror ↦ ?_⟩
  · rw [endState_of_ok hok] at h
    exact ⟨⟨[], h ▸ rfl⟩, rfl⟩
  · rw [endState_of_error herror] at h
    exact ⟨[], List.nil_prefix, rfl, h ▸ .nil s⟩

theorem eval (e : Expr) (s : State) : e.eval.TakesInTurn [e] (e.evaluations s) s := by
  have hvisits : e.evaluations s = Expr.allEvaluations [e] s := by
    rw [Expr.allEvaluations, Log.andThen]
    rcases e.eval s with ⟨v, t⟩ | ⟨failure, t⟩
    · exact (List.append_nil _).symm
    · exact (List.append_nil _).symm
  refine ⟨fun {v t} hok ↦ ⟨⟨[v], ?_⟩, hvisits⟩, fun herror ↦ ?_⟩
  · exact Expr.evalAll_cons_eq_ok_iff.mpr ⟨v, t, [], hok, rfl, rfl⟩
  · exact ⟨[e], List.prefix_refl _, hvisits, .fails herror⟩

/-- Operands of the first part come first. -/
theorem bind {log : Log} {next : α → Log} (hm : m.TakesInTurn xs (log s) s)
    (hk : ∀ a t, (k a).TakesInTurn ys (next a t) t) :
    (m >>= k).TakesInTurn (xs ++ ys) (log.andThen m next s) s := by
  rcases h : m s with ⟨a, t⟩ | ⟨failure, t⟩
  · obtain ⟨⟨values, hvalues⟩, hlog⟩ := hm.ok h
    have hvisits (zs : List Expr) (hnext : next a t = Expr.allEvaluations zs t) :
        log.andThen m next s = Expr.allEvaluations (xs ++ zs) s := by
      rw [Log.andThen, h, Expr.allEvaluations_append hvalues, hlog]
      exact congrArg (_ ++ ·) hnext
    refine ⟨fun hok ↦ ?_, fun herror ↦ ?_⟩
    · rw [bind_of_ok h] at hok
      obtain ⟨⟨values', hvalues'⟩, hnext⟩ := (hk a t).ok hok
      exact ⟨⟨_, Expr.evalAll_append hvalues hvalues'⟩, hvisits ys hnext⟩
    · rw [bind_of_ok h] at herror
      obtain ⟨evaluated, hys, hnext, hturn⟩ := (hk a t).error herror
      exact ⟨xs ++ evaluated, (List.prefix_append_right_inj xs).mpr hys,
        hvisits evaluated hnext, .append hvalues hturn⟩
  · have hvisits : log.andThen m next s = log s := by rw [Log.andThen, h, List.append_nil]
    refine ⟨fun hok ↦ ?_, fun herror ↦ ?_⟩
    · rw [bind_of_error h] at hok
      cases hok
    · rw [bind_of_error h] at herror
      cases herror
      obtain ⟨evaluated, hxs, hlog, hturn⟩ := hm.error h
      exact ⟨evaluated, hxs.trans (List.prefix_append xs ys), hvisits.trans hlog, hturn⟩

/-- As `bind`, with a second part that changes nothing. -/
theorem bind_still (hm : m.TakesInTurn xs visits s) (hk : ∀ a t, (k a).endState t = t) :
    (m >>= k).TakesInTurn xs visits s := by
  have hboth : (m >>= k).TakesInTurn (xs ++ [])
      (Log.andThen (fun _ ↦ visits) m (fun _ ↦ Log.empty) s) s :=
    bind hm fun a t ↦ still (hk a t)
  have hvisits : Log.andThen (fun _ ↦ visits) m (fun _ ↦ Log.empty) s = visits := by
    rw [Log.andThen]
    rcases m s with ⟨a, t⟩ | ⟨failure, t⟩
    · exact List.append_nil _
    · exact List.append_nil _
  rwa [List.append_nil, hvisits] at hboth

/-- What fails at once has evaluated nothing. -/
theorem of_error {failure : Failure} (h : m s = .error failure s) : m.TakesInTurn xs [] s := by
  refine ⟨fun hok ↦ ?_, fun herror ↦ ?_⟩
  · cases h.symm.trans hok
  · cases h.symm.trans herror
    exact ⟨[], List.nil_prefix, rfl, .nil s⟩

end TakesInTurn

end Eval

namespace Expr

open Eval (TakesInTurn)

private theorem endState_arrayIn (object : Expr) (v : Value) (s : State) : (match v with
    | .array id => pure id
    | _ => Eval.fail (.undefinedArray object.describe) : Eval ArrayId).endState s = s := by
  cases v with
  | array | number | boolean | undefined => rfl

theorem takesInTurn_arrayOf (object : Expr) (s : State) :
    (Eval.arrayOf object object.eval).TakesInTurn
      (if object.name?.isSome then [] else [object])
      ((if object.name?.isSome then Log.empty else object.evaluations) s) s := by
  rcases hname : object.name? with _ | name
  · rw [Eval.arrayOf, hname]
    exact .bind_still (.eval object s) (endState_arrayIn object)
  · refine .still ?_
    rw [Eval.arrayOf, hname]
    refine Eval.endState_bind_still rfl fun v ↦ ?_
    cases v with
    | none => rfl
    | some v => exact endState_arrayIn object v s

theorem takesInTurn_place (target : Expr) (s : State) :
    target.place.TakesInTurn target.targetOperands (target.placeEvaluations s) s := by
  cases target with
  | index object i loc =>
    have hoperands : (index object i loc).targetOperands =
        (if object.name?.isSome then [] else [object]) ++ [i] := by
      rw [targetOperands]
      split <;> rfl
    rw [hoperands]
    refine .bind (takesInTurn_arrayOf object s) fun id t ↦ .bind_still (.eval i t) fun index u ↦ ?_
    refine Eval.endState_bind_still rfl fun h ↦ ?_
    exact Eval.endState_bind_still (Eval.endState_ofExcept _ u) fun _ ↦ rfl
  | literal | identifier | binary | logical | unary | update | assign | array | property | call
  | conditional | unsupported => exact .still rfl

theorem takesInTurn_all (arguments : List Expr) (s : State) :
    (evalAll arguments).TakesInTurn arguments (allEvaluations arguments s) s := by
  induction arguments generalizing s with
  | nil => exact .still rfl
  | cons e rest ih => exact .bind (.eval e s) fun v t ↦ .bind_still (ih t) fun vs u ↦ rfl

theorem evalAfterFirst_eq (arguments : List Expr) :
    evalAfterFirst arguments = evalAll arguments.tail := by
  cases arguments <;> rfl

theorem afterFirstEvaluations_eq (arguments : List Expr) :
    afterFirstEvaluations arguments = allEvaluations arguments.tail := by
  cases arguments <;> rfl

end Expr

/-! ## What comes before the change -/

/-- An exchange never fails. -/
theorem Exchange.perform_eq (x : Exchange) (line1 line2 : Option UInt32) (s : State) :
    x.perform line1 line2 s = .ok () ⟨s.environment, x.exchanged s.heap,
      s.history.recordAll (x.events line1 line2 (x.halfway s.heap) (x.exchanged s.heap))⟩ :=
  x.perform_emits line1 line2 s.environment s.heap s.history

namespace Eval

/-- What is exchanged by a call of `swap`, and the lines of its two halves. -/
def toSwap (array : Option Expr) (arguments : Eval (List Value)) (line : Option UInt32) :
    Eval (Exchange × Option UInt32 × Option UInt32) := do
  let name ← ofExcept (swapArray array)
  let values ← arguments
  let x ← Exchange.resolve name (values.getD 0 .undefined) (values.getD 1 .undefined)
  let h ← heap
  return (x, (values[2]?.bind h.lineNumber?) <|> line, values[3]?.bind h.lineNumber?)

/-- The exchange is the last thing that a call of `swap` does. -/
theorem swap_eq (array : Option Expr) (arguments : Eval (List Value)) (line : Option UInt32) :
    swap array arguments line = (do
      let x ← toSwap array arguments line
      x.1.perform x.2.1 x.2.2
      return .undefined) := by
  simp only [swap, toSwap, bind_assoc, pure_bind]

theorem endState_resolve (name : String) (index1 index2 : Value) (s : State) :
    (Exchange.resolve name index1 index2).endState s = s := by
  refine endState_bind_still rfl fun v ↦ ?_
  rcases v with _ | _ | _ | id | _
  · rfl
  · rfl
  · rfl
  · refine endState_bind_still rfl fun h ↦ ?_
    refine endState_bind_still (endState_ofExcept _ s) fun first ↦ ?_
    exact endState_bind_still (endState_ofExcept _ s) fun second ↦ rfl
  · rfl

/-- What comes before a part that cannot fail fails. -/
theorem exists_error_of_bind {α β : Type} {m : Eval α} {k : α → Eval β} {nodeType : String}
    {line : Option UInt32} {s t : State} {failure : Failure}
    (h : (atNode nodeType line m >>= k) s = .error failure t) (hk : ∀ a s, ∃ b t, k a s = .ok b t) :
    ∃ inner, m s = .error inner t ∧ failure = inner.atNode nodeType line := by
  rcases hm : m s with ⟨a, u⟩ | ⟨inner, u⟩
  · obtain ⟨b, r, hok⟩ := hk a u
    rw [bind_of_ok (atNode_of_ok hm), hok] at h
    cases h
  · have hnode : atNode nodeType line m s = .error (inner.atNode nodeType line) u := by
      rw [atNode, hm]
    rw [bind_of_error hnode] at h
    cases h
    exact ⟨inner, rfl, rfl⟩

end Eval

namespace Eval.TakesInTurn

theorem toAssign (op : AssignOp) (target value : Expr) (loc : Option Location) (s : State) :
    (Eval.toAssign op value.eval target.place).TakesInTurn
      (Expr.operands (.assign op target value loc))
      ((Expr.evaluations (.assign op target value loc) s).tail) s := by
  rw [Expr.evaluations, List.tail_cons]
  by_cases hop : op.isSupported = true
  · rw [Eval.toAssign, if_pos hop, if_pos hop]
    refine .bind (.eval value s) fun v t ↦ .bind_still (Expr.takesInTurn_place target t) ?_
    intro p u
    rcases op.binary? with _ | binary
    · rfl
    · refine endState_bind_still (p.endState_read u) fun old ↦ endState_bind_still rfl fun h ↦ ?_
      exact endState_bind_still (endState_ofExcept _ u) fun new ↦ rfl
  · rw [Eval.toAssign, if_neg hop, if_neg hop]
    exact .of_error rfl

theorem toStep (op : UpdateOp) (target : Expr) (isBefore : Bool) (loc : Option Location)
    (s : State) :
    (Eval.toStep op isBefore target.place).TakesInTurn
      (Expr.operands (.update op target isBefore loc))
      ((Expr.evaluations (.update op target isBefore loc) s).tail) s := by
  refine .bind_still (Expr.takesInTurn_place target s) fun p u ↦ ?_
  exact endState_bind_still (p.endState_read u) fun old ↦ endState_bind_still rfl fun h ↦ rfl

theorem toSwap {callee : Expr} (hcallee : callee.name? = some "swap") (arguments : List Expr)
    (loc : Option Location) (line : Option UInt32) (s : State) :
    (Eval.toSwap arguments.head? (Expr.evalAfterFirst arguments) line).TakesInTurn
      (Expr.operands (.call callee arguments loc))
      ((Expr.evaluations (.call callee arguments loc) s).tail) s := by
  have hswap : callee.name?.bind Builtin.ofName? = some .swap := by
    rw [hcallee]
    rfl
  rw [Expr.evaluations, List.tail_cons, hswap, Eval.toSwap, Expr.evalAfterFirst_eq,
    Expr.afterFirstEvaluations_eq]
  rcases swapArray arguments.head? with cause | name
  · exact .of_error rfl
  · rw [show ofExcept (.ok name : Except Cause String) = pure name from rfl, pure_bind]
    refine .bind_still (Expr.takesInTurn_all arguments.tail s) fun values t ↦ ?_
    refine endState_bind_still (endState_resolve _ _ _ t) fun x ↦ ?_
    exact endState_bind_still rfl fun h ↦ rfl

end Eval.TakesInTurn

namespace Expr

theorem eval_assign (op : AssignOp) (target value : Expr) (loc : Option Location) :
    (assign op target value loc).eval = (do
      let w ← Eval.atNode "AssignmentExpression" (loc.map (·.start.line))
        (Eval.toAssign op value.eval target.place)
      return (← w.place.write w.value).value) := by
  rw [eval, Eval.assign_eq, bind_assoc]
  exact Eval.atNode_bind _ _ _ fun w s ↦ ⟨_, _, Eval.bind_of_ok (w.place.write_eq w.value s)⟩

theorem eval_update (op : UpdateOp) (target : Expr) (isBefore : Bool) (loc : Option Location) :
    (update op target isBefore loc).eval = (do
      let x ← Eval.atNode "UpdateExpression" (loc.map (·.start.line))
        (Eval.toStep op isBefore target.place)
      let _ ← x.2.place.write x.2.value
      return x.1) := by
  rw [eval, Eval.step_eq, bind_assoc]
  simp only [bind_assoc, pure_bind]
  exact Eval.atNode_bind _ _ _ fun x s ↦ ⟨_, _, Eval.bind_of_ok (x.2.place.write_eq x.2.value s)⟩

theorem eval_call {callee : Expr} (hcallee : callee.name? = some "swap") (arguments : List Expr)
    (loc : Option Location) :
    (call callee arguments loc).eval = (do
      let x ← Eval.atNode "CallExpression" (loc.map (·.start.line))
        (Eval.toSwap arguments.head? (evalAfterFirst arguments) (loc.map (·.start.line)))
      x.1.perform x.2.1 x.2.2
      return .undefined) := by
  have hswap : Builtin.ofName? "swap" = some .swap := rfl
  rw [eval]
  simp only [hcallee, hswap]
  rw [Eval.swap_eq]
  exact Eval.atNode_bind _ _ _ fun x s ↦
    ⟨_, _, Eval.bind_of_ok (x.1.perform_eq x.2.1 x.2.2 s)⟩

/-- A call of anything else fails at once. -/
theorem eval_call_error {callee : Expr} (hcallee : callee.name? ≠ some "swap")
    (arguments : List Expr) (loc : Option Location) (s : State) :
    (∃ failure, (call callee arguments loc).eval s = .error failure s) ∧
      (call callee arguments loc).evaluations s = [⟨call callee arguments loc, s⟩] := by
  rcases hname : callee.name? with _ | name
  · rw [eval, evaluations, hname]
    exact ⟨⟨_, rfl⟩, rfl⟩
  · have hother : Builtin.ofName? name = none := by
      refine if_neg fun h ↦ hcallee ?_
      rw [hname, h]
    rw [eval, evaluations, hname]
    simp only [Option.bind_some, hother]
    exact ⟨⟨_, rfl⟩, trivial⟩

end Expr

/-! ## What is changed -/

/-- Whether a state differs from an earlier one at a place only: the place is there, and in the
later state it has the value. -/
inductive State.DiffersAt (s t : State) : Place → Value → Prop
  | named {name : String} {v : Value}
    (get? : ∀ other, t.environment.get? other =
      if other = name then some v else s.environment.get? other)
    (heap : t.heap = s.heap) (history : t.history = s.history) : DiffersAt s t (.named name) v
  | slot {label : String} {id : ArrayId} {i : Nat} {v : Value} (hi : i < (s.heap.elements id).size)
    (elements : ∀ other, t.heap.elements other =
      if other = id then (s.heap.elements id).set i v hi else s.heap.elements other)
    (nextId : t.heap.nextId = s.heap.nextId) (environment : t.environment = s.environment)
    (history : t.history = s.history) : DiffersAt s t (.slot label id i) v

/-- Whether a state differs from an earlier one in its history and in that two slots of an array are
exchanged. -/
structure State.DiffersByExchange (s t : State) (x : Exchange) : Prop where
  found : x.Found s.heap
  elements (id : ArrayId) : t.heap.elements id =
    if x.array = id then
      (s.heap.elements x.array).swap x.first x.second found.first found.second
    else s.heap.elements id
  nextId : t.heap.nextId = s.heap.nextId
  environment : t.environment = s.environment

theorem Place.differsAt_written {p : Place} {s : State} (hp : p.Found s.heap) (v : Value) :
    s.DiffersAt (p.written v s) p v := by
  cases p with
  | named name => exact .named (fun other ↦ Environment.get?_define ..) rfl rfl
  | slot label id i =>
    refine .slot hp (fun other ↦ ?_) (Heap.nextId_write ..) rfl rfl
    rw [written, Heap.elements_write]
    by_cases hother : id = other
    · subst hother
      rw [if_pos rfl, if_pos rfl]
      exact Array.setIfInBounds_def .. |>.trans (dif_pos hp)
    · rw [if_neg hother, if_neg (Ne.symm hother)]

theorem Exchange.differsByExchange {x : Exchange} {s : State} (hx : x.Found s.heap)
    (history : History) :
    s.DiffersByExchange ⟨s.environment, x.exchanged s.heap, history⟩ x := by
  refine ⟨hx, fun id ↦ elements_exchanged hx id, ?_, rfl⟩
  rw [exchanged, Heap.nextId_write, Heap.nextId_write]

namespace Expr

/-- Whether all operands of an expression are evaluated to values. -/
structure Evaluated (e : Expr) (s : State) (values : List Value) (t : State) : Prop where
  values : evalAll e.operands s = .ok values t
  evaluations : e.evaluations s = ⟨e, s⟩ :: allEvaluations e.operands s

theorem evaluations_eq_cons (e : Expr) (s : State) :
    e.evaluations s = ⟨e, s⟩ :: (e.evaluations s).tail := by
  rw [evaluations.eq_def, List.tail_cons]

variable {s t : State} {v : Value}

/-- What has failed before the change. -/
theorem exists_inTurn_of_error {α : Type} {e : Expr} {m : Eval α} {failure : Failure}
    (hm : m.TakesInTurn e.operands (e.evaluations s).tail s) (h : m s = .error failure t) :
    ∃ evaluated, evaluated <+: e.operands ∧
      e.evaluations s = ⟨e, s⟩ :: allEvaluations evaluated s ∧ InTurn evaluated s t ∧
      ((∀ o ∈ evaluated, o.IsPure) → s.Kept t) := by
  obtain ⟨evaluated, hoperands, htail, hturn⟩ := hm.error h
  refine ⟨evaluated, hoperands, ?_, hturn, hturn.kept⟩
  rw [← htail, ← evaluations_eq_cons]

theorem exists_evaluated_of_ok {α : Type} {e : Expr} {m : Eval α} {a : α}
    (hm : m.TakesInTurn e.operands (e.evaluations s).tail s) (h : m s = .ok a t) :
    ∃ values, e.Evaluated s values t := by
  obtain ⟨⟨values, hvalues⟩, htail⟩ := hm.ok h
  refine ⟨values, hvalues, ?_⟩
  rw [← htail, ← evaluations_eq_cons]

/-- A failure comes from the operands, or before them, or from the checks after them. -/
theorem exists_inTurn_of_eval_error {e : Expr} (he : e.isActive = true) {failure : Failure}
    (h : e.eval s = .error failure t) :
    ∃ evaluated, evaluated <+: e.operands ∧
      e.evaluations s = ⟨e, s⟩ :: allEvaluations evaluated s ∧ InTurn evaluated s t ∧
      ((∀ o ∈ evaluated, o.IsPure) → s.Kept t) := by
  cases e with
  | assign op target value loc =>
    rw [eval_assign] at h
    obtain ⟨inner, hinner, -⟩ := Eval.exists_error_of_bind h fun w s ↦
      ⟨_, _, Eval.bind_of_ok (w.place.write_eq w.value s)⟩
    exact exists_inTurn_of_error (.toAssign op target value loc s) hinner
  | update op target isBefore loc =>
    rw [eval_update] at h
    obtain ⟨inner, hinner, -⟩ := Eval.exists_error_of_bind h fun x s ↦
      ⟨_, _, Eval.bind_of_ok (x.2.place.write_eq x.2.value s)⟩
    exact exists_inTurn_of_error (.toStep op target isBefore loc s) hinner
  | call callee arguments loc =>
    by_cases hcallee : callee.name? = some "swap"
    · rw [eval_call hcallee] at h
      obtain ⟨inner, hinner, -⟩ := Eval.exists_error_of_bind h fun x s ↦
        ⟨_, _, Eval.bind_of_ok (x.1.perform_eq x.2.1 x.2.2 s)⟩
      exact exists_inTurn_of_error (.toSwap hcallee arguments loc _ s) hinner
    · obtain ⟨⟨inner, herror⟩, hevaluations⟩ := eval_call_error hcallee arguments loc s
      cases herror.symm.trans h
      exact ⟨[], List.nil_prefix, hevaluations, .nil s, fun _ ↦ .refl s⟩
  | literal | identifier | binary | logical | unary | array | index | property | conditional
  | unsupported => cases he

theorem changes_of_assign {op : AssignOp} {target value : Expr} {loc : Option Location}
    (h : (assign op target value loc).eval s = .ok v t) :
    ∃ values u p, (assign op target value loc).Evaluated s values u ∧
      (∃ v' s', value.eval s = .ok v' s' ∧ target.place s' = .ok p u) ∧
      (assign op target value loc).evalWrite s = .ok (some ⟨p, v⟩) t ∧ u.DiffersAt t p v := by
  rw [eval_assign, Eval.bind_eq_ok_iff] at h
  obtain ⟨⟨p, w⟩, u, hnode, hwrite⟩ := h
  have hassign := Eval.atNode_eq_ok_iff.mp hnode
  obtain ⟨values, hvalues⟩ := exists_evaluated_of_ok (.toAssign op target value loc s) hassign
  obtain ⟨v', s', hvalue, hplace⟩ := Eval.exists_place_of_toAssign hassign
  rw [Eval.bind_of_ok (p.write_eq w u)] at hwrite
  cases hwrite
  refine ⟨values, u, p, hvalues, ⟨v', s', hvalue, hplace⟩, ?_,
    Place.differsAt_written (place_found hplace) w⟩
  rw [evalWrite_assign, Eval.bind_of_ok hnode]
  exact Eval.bind_of_ok (p.write_eq w u)

theorem changes_of_update {op : UpdateOp} {target : Expr} {isBefore : Bool} {loc : Option Location}
    (h : (update op target isBefore loc).eval s = .ok v t) :
    ∃ values u p new, (update op target isBefore loc).Evaluated s values u ∧
      target.place s = .ok p u ∧ (isBefore = true → v = new) ∧
      (update op target isBefore loc).evalWrite s = .ok (some ⟨p, new⟩) t ∧
      u.DiffersAt t p new := by
  rw [eval_update, Eval.bind_eq_ok_iff] at h
  obtain ⟨⟨w, p, new⟩, u, hnode, hwrite⟩ := h
  have hstep := Eval.atNode_eq_ok_iff.mp hnode
  obtain ⟨values, hvalues⟩ := exists_evaluated_of_ok (.toStep op target isBefore loc s) hstep
  have hplace := Eval.place_of_toStep hstep
  rw [Eval.bind_of_ok (p.write_eq new u)] at hwrite
  cases hwrite
  refine ⟨values, u, p, new, hvalues, hplace, ?_, ?_,
    Place.differsAt_written (place_found hplace) new⟩
  · rintro rfl
    obtain ⟨old, r, -, hstep⟩ := Eval.exists_of_bind_ok hstep
    obtain ⟨old, hstep⟩ := Place.exists_of_read_bind_ok hstep
    cases hstep
    rfl
  · rw [evalWrite_update, Eval.bind_of_ok hnode]
    exact Eval.bind_of_ok (p.write_eq new u)

theorem changes_of_call {callee : Expr} {arguments : List Expr} {loc : Option Location}
    (hcallee : callee.name? = some "swap") (h : (call callee arguments loc).eval s = .ok v t) :
    ∃ values u name x, (call callee arguments loc).Evaluated s values u ∧
      Eval.swapArray arguments.head? = .ok name ∧
      Exchange.resolve name (values.getD 0 .undefined) (values.getD 1 .undefined) u = .ok x u ∧
      u.DiffersByExchange t x ∧
      (s.history.policy = .keepAll → u.ReplaysExchange t x
        ((values[2]?.bind u.heap.lineNumber?) <|> loc.map (·.start.line))
        (values[3]?.bind u.heap.lineNumber?)) := by
  rw [eval_call hcallee, Eval.bind_eq_ok_iff] at h
  obtain ⟨⟨x, line1, line2⟩, u, hnode, hperform⟩ := h
  have hswap := Eval.atNode_eq_ok_iff.mp hnode
  obtain ⟨values, hevaluated⟩ := exists_evaluated_of_ok (.toSwap hcallee arguments loc _ s) hswap
  obtain ⟨name, hname, hswap⟩ := Eval.exists_of_ofExcept_bind_ok hswap
  obtain ⟨values', r, hvalues, hswap⟩ := Eval.exists_of_bind_ok hswap
  obtain ⟨x', r', hx, hlines⟩ := Eval.exists_of_bind_ok hswap
  obtain rfl := Exchange.state_of_resolve hx
  cases hlines
  rw [evalAfterFirst_eq] at hvalues
  obtain rfl : values' = values := by
    cases hvalues.symm.trans hevaluated.values
    rfl
  have hfound := Exchange.resolve_found hx
  obtain ⟨⟨⟩, r, hperform, hundefined⟩ := Eval.exists_of_bind_ok hperform
  cases hundefined
  refine ⟨values', _, name, _, hevaluated, hname, hx, ?_, fun hpolicy ↦ ?_⟩
  · cases (Exchange.perform_eq _ _ _ _).symm.trans hperform
    exact Exchange.differsByExchange hfound _
  · have hoblivious : Eval.Oblivious (evalAll arguments.tail) :=
      Eval.compositional_oblivious.evalAll fun e _ ↦ Eval.compositional_oblivious.eval e
    exact Exchange.replays_of_perform ((hoblivious.policy_of_ok hvalues).trans hpolicy) hfound
      hperform

/-- **What is written is written last, and nothing else.** Let an assignment, a step or a call be
evaluated in any state.

* If it fails, the operands up to some point have been evaluated in turn, and these evaluations have
  left the state as it is now. If the operands evaluated are pure, everything is as it was.
* If an assignment or a step succeeds, all operands have been evaluated, and the state differs from
  the one that they have left at the place of the target, by the value that is reported there.
* If a call of `swap` succeeds, all arguments but the first have been evaluated, and two slots of
  the array are exchanged. Under the policy that keeps everything there is an event for the first
  half, and one for the second if it has a line. -/
theorem changes_last (s : State) :
    (∀ e failure t, e.isActive = true → e.eval s = .error failure t →
      ∃ evaluated, evaluated <+: e.operands ∧
        e.evaluations s = ⟨e, s⟩ :: allEvaluations evaluated s ∧ InTurn evaluated s t ∧
        ((∀ o ∈ evaluated, o.IsPure) → s.Kept t)) ∧
      (∀ op target value loc v t, (assign op target value loc).eval s = .ok v t →
        ∃ values u p, (assign op target value loc).Evaluated s values u ∧
          (∃ v' s', value.eval s = .ok v' s' ∧ target.place s' = .ok p u) ∧
          (assign op target value loc).evalWrite s = .ok (some ⟨p, v⟩) t ∧ u.DiffersAt t p v) ∧
      (∀ op target isBefore loc v t, (update op target isBefore loc).eval s = .ok v t →
        ∃ values u p new, (update op target isBefore loc).Evaluated s values u ∧
          target.place s = .ok p u ∧ (isBefore = true → v = new) ∧
          (update op target isBefore loc).evalWrite s = .ok (some ⟨p, new⟩) t ∧
          u.DiffersAt t p new) ∧
      ∀ callee arguments loc v t, callee.name? = some "swap" →
        (call callee arguments loc).eval s = .ok v t →
        ∃ values u name x, (call callee arguments loc).Evaluated s values u ∧
          Eval.swapArray arguments.head? = .ok name ∧
          Exchange.resolve name (values.getD 0 .undefined) (values.getD 1 .undefined) u =
            .ok x u ∧
          u.DiffersByExchange t x ∧
          (s.history.policy = .keepAll → u.ReplaysExchange t x
            ((values[2]?.bind u.heap.lineNumber?) <|> loc.map (·.start.line))
            (values[3]?.bind u.heap.lineNumber?)) :=
  ⟨fun _ _ _ he ↦ exists_inTurn_of_eval_error he, fun _ _ _ _ _ _ ↦ changes_of_assign,
    fun _ _ _ _ _ _ ↦ changes_of_update, fun _ _ _ _ _ ↦ changes_of_call⟩

/-- `a[7] = (n = 1)` -/
def assignBeyond : Expr :=
  .ofAssign .assign (.ofIndex (.ofName "a") (.ofNumber 7.0))
    (.ofAssign .assign (.ofName "n") (.ofNumber 1.0))

/-- The slot is not there, but the variable has been bound by then. -/
theorem changes_last_assignBeyond : assignBeyond.isActive = true ∧
    ∃ failure t evaluated, assignBeyond.eval .selfContaining = .error failure t ∧
      evaluated <+: assignBeyond.operands ∧ InTurn evaluated .selfContaining t ∧
      t.environment.get? "n" = some (.number 1.0) := by
  have hfails : assignBeyond.eval.succeedsIn .selfContaining (fun _ _ ↦ true) = false := by
    decide +kernel
  have hbound : ((assignBeyond.eval.endState .selfContaining).environment.get? "n" ==
      some (.number 1.0)) = true := by
    decide +kernel
  rcases h : assignBeyond.eval .selfContaining with ⟨v, t⟩ | ⟨failure, t⟩
  · rw [Eval.succeedsIn, h] at hfails
    cases hfails
  · rw [Eval.endState_of_error h] at hbound
    obtain ⟨evaluated, hoperands, -, hturn, -⟩ :=
      (changes_last .selfContaining).1 assignBeyond failure t rfl h
    exact ⟨rfl, failure, t, evaluated, rfl, hoperands, hturn, eq_of_beq hbound⟩

end Expr

end ScriptTrace
