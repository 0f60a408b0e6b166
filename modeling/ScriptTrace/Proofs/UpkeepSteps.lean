import ScriptTrace.Proofs.Upkeep

/-!
# The steps keep up what an upkeep asks for

Lookups, places, writes and exchanges, from what the steps of an `Upkeep` do. A slot is looked up in
the state in which it is used, so it is there when it is used; the lemma on `Eval.element` says so,
and the lemmas on writes ask for it.

An assignment or a step first makes out what is to be written and where, and writes it last
(`Eval.assign_eq`, `Eval.step_eq`). The two parts are kept apart, because a write to a name may be
allowed only together with its event.
-/

namespace ScriptTrace

/-! ## Results that are no arrays -/

theorem Expr.literalValue_ne_array {value : LiteralValue} {regex : Option Regex} {v : Value}
    (h : literalValue value regex = .ok v) (id : ArrayId) : v ≠ .array id := by
  rw [literalValue.eq_def] at h
  split at h
  · cases h
  · split at h <;> cases h <;> exact Value.noConfusion

theorem Expr.unboundValue_ne_array {name : String} {v : Value}
    (h : unboundValue name = .ok v) (id : ArrayId) : v ≠ .array id := by
  rw [unboundValue] at h
  split at h
  · cases h
    exact Value.noConfusion
  · split at h
    · cases h
      exact Value.noConfusion
    · split at h <;> cases h
      exact Value.noConfusion

theorem Expr.propertyValue_ne_array {h : Heap} {object : Value} {name : Expr} {v : Value}
    (hv : propertyValue h object name = .ok v) (id : ArrayId) : v ≠ .array id := by
  rw [propertyValue.eq_def] at hv
  split at hv <;> cases hv
  exact Value.noConfusion

theorem Heap.unary_ne_array {h : Heap} {op : UnaryOp} {a v : Value}
    (hv : h.unary op a = .ok v) (id : ArrayId) : v ≠ .array id := by
  cases op <;> cases hv <;> nofun

theorem Heap.step_ne_array (h : Heap) (op : UpdateOp) (old : Value) (id : ArrayId) :
    h.step op old ≠ .array id := by
  cases op <;> nofun

/-- An operator gives back one of its operands, or else no array. -/
theorem Heap.binary_eq_or {h : Heap} {op : BinaryOp} {a b v : Value}
    (hv : h.binary op a b = .ok v) : v = a ∨ v = b ∨ ∀ id, v ≠ .array id := by
  by_cases hop : op = .both ∨ op = .either
  · rcases hop with rfl | rfl <;> cases hv <;> grind
  · refine .inr (.inr fun id ↦ ?_)
    cases op <;> cases hv <;> first | exact Value.noConfusion | simp at hop

/-- Reading a place leaves the state as it is. -/
theorem Place.endState_read (p : Place) (s : State) : p.read.endState s = s := by
  rcases p with name | ⟨label, id, i⟩
  · have hlookup : Eval.lookup? name s = .ok (s.environment.get? name) s := rfl
    rw [read, Eval.endState_bind_of_ok hlookup]
    rcases s.environment.get? name with _ | v
    · rfl
    · rfl
  · rfl

namespace Eval

/-! ## What is to be written -/

/-- What an assignment writes, and where. -/
def toAssign (op : AssignOp) (value : Eval Value) (place : Eval Place) : Eval Written := do
  if op.isSupported then
    let v ← value
    let p ← place
    match op.binary? with
    | none => return ⟨p, v⟩
    | some binary =>
      let old ← p.read
      let h ← heap
      return ⟨p, ← ofExcept (h.binary binary old v)⟩
  else
    fail (.unsupportedOperator op.symbol)

/-- What a step writes, and where, after the value of the expression. -/
def toStep (op : UpdateOp) (isBefore : Bool) (place : Eval Place) : Eval (Value × Written) := do
  let p ← place
  let old ← p.read
  let h ← heap
  let new := h.step op old
  return (if isBefore then new else .number (h.toNumber old), ⟨p, new⟩)

/-- The write is the last thing that an assignment does. -/
theorem assign_eq (op : AssignOp) (value : Eval Value) (place : Eval Place) :
    assign op value place = (do
      let w ← toAssign op value place
      w.place.write w.value) := by
  rw [assign, toAssign]
  by_cases hop : op.isSupported = true
  · rw [if_pos hop, if_pos hop]
    rcases op.binary? with _ | binary
    · simp only [bind_assoc, pure_bind]
    · simp only [bind_assoc, pure_bind]
  · rw [if_neg hop, if_neg hop]
    rfl

/-- The write is the last thing that a step does. -/
theorem step_eq (op : UpdateOp) (isBefore : Bool) (place : Eval Place) :
    step op isBefore place = (do
      let (v, w) ← toStep op isBefore place
      return (v, ← w.place.write w.value)) := by
  simp only [step, toStep, bind_assoc, pure_bind]

end Eval

namespace Eval.Upholds

variable {α β : Type} {U : Upkeep} {s : State} {visits : List Evaluation} {Q : Heap → β → Prop}

/-! ## Looking things up -/

theorem lookup_bind {name : String} {k : Option Value → Eval β}
    (h : (k (s.environment.get? name)).Upholds U s visits Q) :
    (Eval.lookup? name >>= k).Upholds U s visits Q :=
  of_eq h rfl

theorem heap_bind {k : Heap → Eval β} (h : (k s.heap).Upholds U s visits Q) :
    (Eval.heap >>= k).Upholds U s visits Q :=
  of_eq h rfl

theorem ofExcept_bind {e : Except Cause α} {k : α → Eval β} (hs : U.Valid s)
    (h : ∀ a, e = .ok a → (k a).Upholds U s [] Q) :
    (Eval.ofExcept e >>= k).Upholds U s [] Q := by
  rcases e with cause | a
  · exact of_eq (fail hs) rfl
  · exact h a rfl

/-! ## Values -/

theorem identifierValue (hs : U.Valid s) (name : String) :
    (Expr.identifierValue name).Upholds U s [] U.Fits := by
  refine lookup_bind ?_
  rcases h : s.environment.get? name with _ | v
  · exact ofExcept hs fun v hv ↦ U.fits_plain _ (Expr.unboundValue_ne_array hv)
  · exact pure hs (U.fits_get hs h)

theorem binary (hs : U.Valid s) (op : BinaryOp) {a b : Value} (ha : U.Fits s.heap a)
    (hb : U.Fits s.heap b) : (Eval.ofExcept (s.heap.binary op a b)).Upholds U s [] U.Fits := by
  refine ofExcept hs fun v hv ↦ ?_
  rcases Heap.binary_eq_or hv with rfl | rfl | hplain
  · exact ha
  · exact hb
  · exact U.fits_plain _ hplain

/-! ## Places -/

private theorem arrayIn (hs : U.Valid s) (object : Expr) (v : Value) :
    (match v with
      | .array id => Pure.pure id
      | _ => Eval.fail (.undefinedArray object.describe) : Eval ArrayId).Upholds U s []
        fun _ _ ↦ True := by
  rcases v with _ | _ | id | _
  · exact fail hs
  · exact fail hs
  · exact pure hs trivial
  · exact fail hs

/-- The array of an object, which is evaluated only if it is not a name. -/
theorem arrayOf {object : Expr} (hs : U.Valid s)
    (hobject : object.eval.Upholds U s (object.evaluations s) U.Fits) :
    (Eval.arrayOf object object.eval).Upholds U s
      ((if object.name?.isSome then Log.empty else object.evaluations) s) fun _ _ ↦ True := by
  rw [Eval.arrayOf]
  rcases object.name? with _ | name
  · exact hobject.bind_quiet fun v t _ ht _ _ ↦ arrayIn ht object v
  · refine lookup_bind ?_
    rcases s.environment.get? name with _ | v
    · exact of_eq (fail hs) rfl
    · exact arrayIn hs object v

/-- The slot that an element stands for is one of its array. -/
theorem element {object i : Expr} (hs : U.Valid s)
    (hobject : object.eval.Upholds U s (object.evaluations s) U.Fits)
    (hi : ∀ t, U.Valid t → i.eval.Upholds U t (i.evaluations t) U.Fits) :
    (Eval.element object object.eval i.eval).Upholds U s
      (Log.element object object.evaluations i.evaluations s)
      fun h p ↦ p.Found h ∧ p.effect = .write := by
  refine bind (arrayOf hs hobject) fun id t _ ht _ _ ↦ ?_
  refine (hi t ht).bind_quiet fun index u _ hu _ _ ↦ heap_bind ?_
  exact ofExcept_bind hu fun slot hslot ↦ pure hu ⟨Heap.lt_of_resolveIndex hslot, rfl⟩

theorem read (hs : U.Valid s) (p : Place) : p.read.Upholds U s [] U.Fits := by
  rcases p with name | ⟨label, id, i⟩
  · refine lookup_bind ?_
    rcases h : s.environment.get? name with _ | v
    · exact fail hs
    · exact pure hs (U.fits_get hs h)
  · exact heap_bind (pure hs (U.fits_read hs id i))

theorem read_bind {p : Place} {k : Value → Eval β} (hs : U.Valid s)
    (h : ∀ v, U.Fits s.heap v → (k v).Upholds U s [] Q) :
    (p.read >>= k).Upholds U s [] Q := by
  refine bind_quiet (read hs p) fun v t hread _ _ hv ↦ ?_
  obtain rfl : t = s := (endState_of_ok hread).symm.trans (p.endState_read s)
  exact h v hv

/-- What an assignment is to write fits, and can be written. -/
theorem toAssign {op : AssignOp} {value : Eval Value} {place : Eval Place} {ofValue ofPlace : Log}
    {effect? : Option Effect} (hs : U.Valid s) (hvalue : value.Upholds U s (ofValue s) U.Fits)
    (hplace : ∀ t, U.Valid t →
      place.Upholds U t (ofPlace t) fun h p ↦ p.Found h ∧ effect? = some p.effect) :
    (Eval.toAssign op value place).Upholds U s
      (if op.isSupported then ofValue.andThen value (fun _ ↦ ofPlace) s else [])
      fun h w ↦ U.Fits h w.value ∧ w.place.Found h ∧ effect? = some w.place.effect := by
  rw [Eval.toAssign]
  by_cases hop : op.isSupported = true
  · rw [if_pos hop, if_pos hop]
    refine bind hvalue fun v t _ ht _ hv ↦ ?_
    refine (hplace t ht).bind_quiet fun p u _ hu hleads hp ↦ ?_
    have hv := U.fits_of_leads hv hleads
    rcases op.binary? with _ | binary
    · exact pure hu ⟨hv, hp⟩
    · refine read_bind hu fun old hold ↦ heap_bind ?_
      refine bind_quiet (Upholds.binary hu binary hold hv) fun new u' hnew hu' hleads' hfits ↦ ?_
      obtain rfl : u' = u := (endState_of_ok hnew).symm.trans (endState_ofExcept _ u)
      exact pure hu ⟨hfits, hp⟩
  · rw [if_neg hop, if_neg hop]
    exact fail hs

theorem toStep {op : UpdateOp} {isBefore : Bool} {place : Eval Place} {effect? : Option Effect}
    (hplace : place.Upholds U s visits fun h p ↦ p.Found h ∧ effect? = some p.effect) :
    (Eval.toStep op isBefore place).Upholds U s visits fun h x ↦
      (∀ id, x.1 ≠ .array id) ∧
        U.Fits h x.2.value ∧ x.2.place.Found h ∧ effect? = some x.2.place.effect := by
  refine hplace.bind_quiet fun p t _ ht _ hp ↦ ?_
  refine read_bind ht fun old _ ↦ heap_bind (pure ht ⟨fun id ↦ ?_, ?_, hp⟩)
  · split
    · exact Heap.step_ne_array _ _ _ id
    · exact Value.noConfusion
  · exact U.fits_plain _ (Heap.step_ne_array _ _ _)

/-- A write that is admitted. -/
theorem write {p : Place} {v : Value} (hadmits : U.Admits p.effect) (hs : U.Valid s)
    (hv : U.Fits s.heap v) (hp : p.Found s.heap) :
    (p.write v).Upholds U s [] fun _ w ↦ w = ⟨p, v⟩ := by
  rcases p with name | ⟨label, id, i⟩
  · exact ⟨hadmits s name v hs hv, U.leads_refl _, fun h ↦ by cases h; rfl, nofun,
      fun hold hnew ↦ absurd hold (Nat.not_le.mpr hnew)⟩
  · obtain ⟨hleads, hvalid⟩ := hadmits s id i v hs hv hp
    refine ⟨hvalid, hleads, fun h ↦ by cases h; rfl, nofun, fun hold hnew ↦ ?_⟩
    have hnext := s.heap.nextId_write id i v
    exact absurd hold (Nat.not_le.mpr (hnext ▸ hnew))

/-- Adding an event that says of no name that it is bound. -/
theorem record (hs : U.Valid s) (line : Option UInt32) {details : Details}
    (hdetails : details.binding? = none) :
    (Eval.record line details).Upholds U s [] fun _ _ ↦ True :=
  ⟨U.record hs line hdetails, U.leads_refl _, fun _ ↦ trivial, nofun,
    fun hold hnew ↦ absurd hold (Nat.not_le.mpr hnew)⟩

/-- Binding a name and recording at once what it is bound to. -/
theorem define_record {name : String} {v : Value} (hs : U.Valid s) (hv : U.Fits s.heap v)
    (line : Option UInt32) {details : Snapshot → Details}
    (hdetails : ∀ copy, (details copy).binding? = some (name, copy)) :
    (do
      Eval.define name v
      Eval.record line (details ((← Eval.heap).snapshot v)) : Eval Unit).Upholds U s []
        fun _ _ ↦ True :=
  ⟨U.bindRecorded hs hv line (hdetails _), U.leads_refl _, fun _ ↦ trivial, nofun,
    fun hold hnew ↦ absurd hold (Nat.not_le.mpr hnew)⟩

/-! ## Exchanges -/

theorem resolve (hs : U.Valid s) (name : String) (index1 index2 : Value) :
    (Exchange.resolve name index1 index2).Upholds U s [] fun h x ↦ x.Found h := by
  refine lookup_bind ?_
  rcases s.environment.get? name with _ | _ | _ | id | _
  · exact fail hs
  · exact fail hs
  · exact fail hs
  · refine heap_bind (ofExcept_bind hs fun first hfirst ↦ ofExcept_bind hs fun second hsecond ↦ ?_)
    exact pure hs ⟨Heap.lt_of_resolveIndex hfirst, Heap.lt_of_resolveIndex hsecond⟩
  · exact fail hs

private theorem valid_recordAll (hs : U.Valid s) {events : List Event}
    (hevents : ∀ e ∈ events, e.details.binding? = none) :
    U.Valid { s with history := s.history.recordAll events } := by
  induction events generalizing s with
  | nil => exact hs
  | cons e rest ih =>
    obtain ⟨he, hrest⟩ := List.forall_mem_cons.mp hevents
    exact ih (U.record hs e.line he) hrest

theorem perform {x : Exchange} (hs : U.Valid s) (hx : x.Found s.heap)
    (line1 line2 : Option UInt32) :
    (x.perform line1 line2).Upholds U s [] fun _ _ ↦ True := by
  have hrun : x.perform line1 line2 s = .ok () { s with
      heap := x.exchanged s.heap
      history := s.history.recordAll _ } :=
    x.perform_emits line1 line2 s.environment s.heap s.history
  have hend := endState_of_ok hrun
  have hnext : (x.exchanged s.heap).nextId = s.heap.nextId := by
    rw [Exchange.exchanged, Heap.nextId_write, Heap.nextId_write]
  refine ⟨?_, ?_, fun _ ↦ trivial, nofun, fun hold hnew ↦ ?_⟩
  · rw [hend]
    refine valid_recordAll (U.exchange hs hx) fun e he ↦ ?_
    rw [Exchange.events] at he
    rcases List.mem_cons.mp he with rfl | he
    · rfl
    · split at he
      · rw [List.mem_singleton.mp he]
        rfl
      · cases he
  · rw [hend]
    exact U.leads_exchange hx
  · rw [hend] at hnew
    exact absurd hold (Nat.not_le.mpr (hnext ▸ hnew))

theorem swap {array : Option Expr} {arguments : Eval (List Value)} {ofArguments : Log}
    {Q : Heap → List Value → Prop} (hs : U.Valid s)
    (harguments : arguments.Upholds U s (ofArguments s) Q) (line : Option UInt32) :
    (Eval.swap array arguments line).Upholds U s
      (match Eval.swapArray array with
      | .ok _ => ofArguments s
      | .error _ => []) U.Fits := by
  rw [Eval.swap]
  rcases Eval.swapArray array with cause | name
  · exact of_eq (fail hs) rfl
  · refine harguments.bind_quiet fun values t _ ht _ _ ↦ ?_
    refine (resolve ht name _ _).bind_quiet fun x u _ hu _ hx ↦ heap_bind ?_
    refine (perform hu hx _ _).bind_quiet fun _ u' _ hu' _ _ ↦ pure hu' ?_
    exact U.fits_plain _ fun _ ↦ Value.noConfusion

/-- The exchange of a plan. -/
theorem plannedSwap {plan : SwapPlan} {Q : Heap → Value → Prop}
    (hfirst : plan.first.eval.Upholds U s (plan.first.evaluations s) Q)
    (hsecond : ∀ t, U.Valid t →
      plan.second.eval.Upholds U t (plan.second.evaluations t) Q) :
    (Eval.plannedSwap plan).Upholds U s (plan.evaluations s) fun _ _ ↦ True := by
  refine bind hfirst fun index1 t _ ht _ _ ↦ ?_
  refine (hsecond t ht).bind_quiet fun index2 u _ hu _ _ ↦ ?_
  exact (resolve hu _ _ _).bind_quiet fun x u' _ hu' _ hx ↦ perform hu' hx _ _

end Eval.Upholds

end ScriptTrace
