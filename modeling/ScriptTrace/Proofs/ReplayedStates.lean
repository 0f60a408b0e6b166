import ScriptTrace.Proofs.Unfolding
import ScriptTrace.Proofs.Writes

/-!
# Recorded states of arrays can be replayed

The event of a write to a slot has a copy of the whole array after the write. Someone who has the
copy from before only has to replace the slot, even if the array contains itself: the copies of the
other slots are made inside of the array, and such a copy does not depend on what the array holds
(`Heap.snapshotIn_write_of_mem`). The same goes for both halves of an exchange.

What the slot is replaced by is the copy of the written value inside of the array. The event also
has a copy of that value alone. The two are the same unless the array can be reached from the
value.
-/

namespace ScriptTrace

/-! ## Copies after a write -/

namespace Heap

variable {h : Heap} {ancestors : List ArrayId} {id : ArrayId} {i : Nat} {v w : Value}

/-- Inside of an array, a write to the array cannot be seen. -/
theorem snapshotIn_write_of_mem (hid : id ∈ ancestors) :
    (h.write id i v).snapshotIn ancestors w = h.snapshotIn ancestors w := by
  refine snapshotIn_of_elements_eq fun id' hid' ↦ ?_
  have hne : id ≠ id' := fun heq ↦ hid' (heq ▸ hid)
  rw [elements_write, if_neg hne]

/-- After a write to an array, one slot of its copy is another. -/
theorem snapshotElements_write (h : Heap) (id : ArrayId) (i : Nat) (v : Value) :
    (h.write id i v).snapshotElements id =
      (h.snapshotElements id).set i (h.snapshotIn [id] v) := by
  have hinside : (h.write id i v).snapshotIn [id] = h.snapshotIn [id] :=
    funext fun w ↦ snapshotIn_write_of_mem List.mem_cons_self
  rw [snapshotElements, snapshotElements, hinside, elements_write, if_pos rfl,
    Array.toList_setIfInBounds, List.map_set]

theorem getElem?_snapshotElements (hi : i < (h.elements id).size) :
    (h.snapshotElements id)[i]? = some (h.snapshotIn [id] (h.read id i)) := by
  rw [snapshotElements, List.getElem?_map, Array.getElem?_toList, Array.getElem?_eq_getElem hi,
    Option.map_some, h.read_of_lt hi]

/-- A write to an array does not open a new way to it. -/
theorem reaches_of_reaches_write (hreaches : (h.write id i v).Reaches w id) : h.Reaches w id := by
  obtain ⟨path, hpath⟩ := hreaches
  induction path generalizing w with
  | nil => exact ⟨[], hpath⟩
  | cons j path ih =>
    obtain ⟨id', u, rfl, hread, hpath⟩ := follow_cons_eq_some_iff.mp hpath
    by_cases hid : id = id'
    · subst hid
      exact ⟨[], rfl⟩
    · rw [read?_write, if_neg fun heq ↦ hid heq.1] at hread
      exact reaches_of_read? hread (ih hpath)

/-- A value that does not reach the array it is written to is copied inside of it as alone. -/
theorem snapshot_write_of_not_reaches (hreaches : ¬h.Reaches v id) :
    (h.write id i v).snapshot v = h.snapshotIn [id] v := by
  rw [← snapshotIn_write_of_mem List.mem_cons_self]
  refine snapshotIn_congr fun id' hid' ↦ iff_of_false List.not_mem_nil fun hmem ↦ ?_
  rw [List.mem_singleton.mp hmem] at hid'
  exact hreaches (reaches_of_reaches_write hid')

end Heap

/-! ## What is recorded -/

/-- Whether a state comes of another by a recorded write to a slot, told by copies from before: the
array has the slot, its recorded state is the one before with the copy of the value in the slot, and
so is its copy from then on. The value itself is recorded as that copy, unless it reaches the
array. -/
def State.ReplaysWrite (s t : State) (line : Option UInt32) (label : String) (id : ArrayId)
    (i : Nat) (v : Value) : Prop :=
  i < s.heap.length id ∧
    ∃ value, t = State.emit { s with heap := s.heap.write id i v }
        ⟨line, .assignElement label i value
          ((s.heap.snapshotElements id).set i (s.heap.snapshotIn [id] v))⟩ ∧
      value = t.heap.snapshot v ∧ (¬s.heap.Reaches v id → value = s.heap.snapshotIn [id] v) ∧
      t.heap.snapshotElements id =
        (s.heap.snapshotElements id).set i (s.heap.snapshotIn [id] v)

/-- Whether a state comes of another by an exchange, told by the copy of the array from before: the
first event has the second element in both slots, the second event, if there is one, has the two
exchanged, and so is the copy of the array from then on. -/
def State.ReplaysExchange (s t : State) (x : Exchange) (line1 line2 : Option UInt32) : Prop :=
  ∃ first second, (s.heap.snapshotElements x.array)[x.first]? = some first ∧
    (s.heap.snapshotElements x.array)[x.second]? = some second ∧
    let half := (s.heap.snapshotElements x.array).set x.first second
    let whole := half.set x.second first
    t.history.events.toList = s.history.events.toList ++
      ⟨line1, .swap x.name x.first x.second half⟩ ::
        (if line2.isSome then [⟨line2, .swap x.name x.first x.second whole⟩] else []) ∧
    t.heap.snapshotElements x.array = whole

variable {s t u : State}

theorem State.replaysWrite_emit {id : ArrayId} {i : Nat} (hi : i < s.heap.length id)
    (line : Option UInt32) (label : String) (v : Value) :
    s.ReplaysWrite (State.emit { s with heap := s.heap.write id i v } ⟨line, .assignElement label i
      ((s.heap.write id i v).snapshot v) ((s.heap.write id i v).snapshotElements id)⟩)
      line label id i v := by
  rw [Heap.snapshotElements_write]
  exact ⟨hi, _, rfl, rfl, Heap.snapshot_write_of_not_reaches, s.heap.snapshotElements_write id i v⟩

namespace Exchange

variable {x : Exchange} {line1 line2 : Option UInt32}

/-- Finding out what is to be exchanged leaves the state as it is. -/
theorem state_of_resolve {name : String} {index1 index2 : Value}
    (h : resolve name index1 index2 s = .ok x t) : t = s := by
  obtain ⟨v, u, hlookup, hrest⟩ := Eval.exists_of_bind_ok h
  obtain rfl : s = u := Eval.endState_of_ok hlookup
  rcases v with _ | _ | _ | id | _
  · cases hrest
  · cases hrest
  · cases hrest
  · obtain ⟨heap, u, hheap, hrest⟩ := Eval.exists_of_bind_ok hrest
    cases hheap
    obtain ⟨first, -, hrest⟩ := Eval.exists_of_ofExcept_bind_ok hrest
    obtain ⟨second, -, hrest⟩ := Eval.exists_of_ofExcept_bind_ok hrest
    cases hrest
    rfl
  · cases hrest

/-- The arrays after the first half of an exchange. -/
def halfway (x : Exchange) (h : Heap) : Heap :=
  h.write x.array x.first (h.read x.array x.second)

theorem snapshotElements_exchanged (x : Exchange) (h : Heap) :
    (x.exchanged h).snapshotElements x.array = ((x.halfway h).snapshotElements x.array).set x.second
      (h.snapshotIn [x.array] (h.read x.array x.first)) := by
  have hinside : (x.halfway h).snapshotIn [x.array] (h.read x.array x.first) =
      h.snapshotIn [x.array] (h.read x.array x.first) :=
    Heap.snapshotIn_write_of_mem List.mem_cons_self
  rw [← hinside]
  exact (x.halfway h).snapshotElements_write x.array x.second (h.read x.array x.first)

theorem replays_of_perform (hpolicy : s.history.policy = .keepAll) (hx : x.Found s.heap)
    (h : x.perform line1 line2 s = .ok () t) : s.ReplaysExchange t x line1 line2 := by
  have hrun : x.perform line1 line2 s = .ok () ⟨s.environment, x.exchanged s.heap,
      s.history.recordAll (x.events line1 line2 (x.halfway s.heap) (x.exchanged s.heap))⟩ :=
    x.perform_emits line1 line2 s.environment s.heap s.history
  cases hrun.symm.trans h
  have hhalf : (x.halfway s.heap).snapshotElements x.array =
      (s.heap.snapshotElements x.array).set x.first
        (s.heap.snapshotIn [x.array] (s.heap.read x.array x.second)) :=
    s.heap.snapshotElements_write x.array x.first (s.heap.read x.array x.second)
  refine ⟨_, _, Heap.getElem?_snapshotElements hx.first, Heap.getElem?_snapshotElements hx.second,
    ?_, ?_⟩
  · rw [History.toList_events_recordAll hpolicy, events, snapshotElements_exchanged, hhalf]
  · rw [← hhalf]
    exact x.snapshotElements_exchanged s.heap

end Exchange

/-! ## Where it is recorded -/

/-- A statement that writes to a slot. -/
theorem Stmt.exists_replaysWrite_of_exec (hpolicy : s.history.policy = .keepAll) {config : Config}
    {e object i : Expr} {indexLoc loc : Option Location}
    (htarget : e.target? = some (.index object i indexLoc))
    (h : (expression e loc).exec config s = .ok () t) :
    ∃ operands id slot v u, e.toWrite? = some operands ∧
      operands s = .ok ⟨.slot object.describe id slot, v⟩ u ∧
      u.ReplaysWrite t (loc.map (·.start.line)) object.describe id slot v := by
  obtain ⟨operands, hoperands⟩ := Expr.exists_toWrite? htarget
  rw [exec, Eval.atNode_eq_ok_iff, effect_expression, Eval.bind_eq_ok_iff] at h
  obtain ⟨result, r, hwrite, hrecord⟩ := h
  have hr := (Expr.policy_of_evalWrite hwrite).trans hpolicy
  rw [Expr.evalWrite_eq_ok_iff, hoperands] at hwrite
  obtain ⟨⟨p, v⟩, u, hrun, rfl, rfl⟩ := hwrite
  obtain ⟨target, r', htarget', hplace⟩ := Expr.exists_place_of_toWrite? hoperands hrun
  cases htarget.symm.trans htarget'
  have hfound := Expr.place_found hplace
  obtain ⟨id, slot, rfl⟩ := Expr.exists_slot_of_place hplace
  cases (Eval.record_eq_of_keepAll hr _ _).symm.trans hrecord
  exact ⟨operands, id, slot, v, u, hoperands, hrun, State.replaysWrite_emit hfound _ _ v⟩

/-- A call of `swap`. -/
theorem Expr.exists_replaysExchange_of_eval (hpolicy : s.history.policy = .keepAll) {callee : Expr}
    {arguments : List Expr} {loc : Option Location} {v : Value}
    (hcallee : callee.name? = some "swap")
    (h : (call callee arguments loc).eval s = .ok v t) :
    ∃ name values x u, Eval.swapArray arguments.head? = .ok name ∧
      evalAfterFirst arguments s = .ok values u ∧
      Exchange.resolve name (values.getD 0 .undefined) (values.getD 1 .undefined) u = .ok x u ∧
      u.ReplaysExchange t x ((values[2]?.bind u.heap.lineNumber?) <|> loc.map (·.start.line))
        (values[3]?.bind u.heap.lineNumber?) := by
  have hoblivious : Eval.Oblivious (evalAfterFirst arguments) :=
    Eval.compositional_oblivious.evalAfterFirst fun e _ ↦ Eval.compositional_oblivious.eval e
  have hswap : Builtin.ofName? "swap" = some .swap := rfl
  rw [eval, Eval.atNode_eq_ok_iff] at h
  simp only [hcallee, hswap] at h
  obtain ⟨name, hname, h⟩ := Eval.exists_of_ofExcept_bind_ok h
  obtain ⟨values, u, hvalues, h⟩ := Eval.exists_of_bind_ok h
  obtain ⟨x, u', hx, hrest⟩ := Eval.exists_of_bind_ok h
  obtain rfl : u' = u := Exchange.state_of_resolve hx
  obtain ⟨heap, r, hheap, hrest⟩ := Eval.exists_of_bind_ok hrest
  cases hheap
  obtain ⟨⟨⟩, t', hperform, hundefined⟩ := Eval.exists_of_bind_ok hrest
  cases hundefined
  have hu := (hoblivious.policy_of_ok hvalues).trans hpolicy
  exact ⟨name, values, x, _, hname, hvalues, hx,
    Exchange.replays_of_perform hu (Exchange.resolve_found hx) hperform⟩

/-- The exchange of a plan. -/
theorem Eval.exists_replaysExchange_of_plannedSwap (hpolicy : s.history.policy = .keepAll)
    {plan : SwapPlan} (h : plannedSwap plan s = .ok () t) :
    ∃ index1 index2 x r u, plan.first.eval s = .ok index1 r ∧ plan.second.eval r = .ok index2 u ∧
      Exchange.resolve plan.array index1 index2 u = .ok x u ∧
      u.ReplaysExchange t x plan.firstLine plan.secondLine := by
  obtain ⟨index1, r, hfirst, h⟩ := exists_of_bind_ok h
  obtain ⟨index2, u, hsecond, h⟩ := exists_of_bind_ok h
  obtain ⟨x, u', hx, hperform⟩ := exists_of_bind_ok h
  obtain rfl : u' = u := Exchange.state_of_resolve hx
  have hr := (Expr.policy_of_eval hfirst).trans hpolicy
  have hu := (Expr.policy_of_eval hsecond).trans hr
  exact ⟨index1, index2, x, r, _, hfirst, hsecond, hx,
    Exchange.replays_of_perform hu (Exchange.resolve_found hx) hperform⟩

/-- **Recorded states of arrays can be replayed.** Under the policy that keeps everything, let a
state be the one in which all operands have been evaluated, and let an array be copied there. Then
the copies that are recorded of the array come of that copy by replacing slots:

* an expression statement that writes to a slot records the copy with this slot replaced, and so is
  the array copied from then on;
* a call of `swap` records the copy with the first slot replaced by the second, and, if there is a
  second line, the copy with both exchanged; with or without it, the array is copied like that from
  then on;
* the exchange of a plan does the same, with the lines of the plan. -/
theorem State.recorded_states_replay {s : State} (hpolicy : s.history.policy = .keepAll) :
    (∀ config e object i indexLoc loc t, e.target? = some (.index object i indexLoc) →
      (Stmt.expression e loc).exec config s = .ok () t →
        ∃ operands id slot v u, e.toWrite? = some operands ∧
          operands s = .ok ⟨.slot object.describe id slot, v⟩ u ∧
          u.ReplaysWrite t (loc.map (·.start.line)) object.describe id slot v) ∧
      (∀ callee arguments loc v t, callee.name? = some "swap" →
        (Expr.call callee arguments loc).eval s = .ok v t →
          ∃ name values x u, Eval.swapArray arguments.head? = .ok name ∧
            Expr.evalAfterFirst arguments s = .ok values u ∧
            Exchange.resolve name (values.getD 0 .undefined) (values.getD 1 .undefined) u =
              .ok x u ∧
            u.ReplaysExchange t x
              ((values[2]?.bind u.heap.lineNumber?) <|> loc.map (·.start.line))
              (values[3]?.bind u.heap.lineNumber?)) ∧
      ∀ plan t, Eval.plannedSwap plan s = .ok () t →
        ∃ index1 index2 x r u,
          plan.first.eval s = .ok index1 r ∧ plan.second.eval r = .ok index2 u ∧
          Exchange.resolve plan.array index1 index2 u = .ok x u ∧
          u.ReplaysExchange t x plan.firstLine plan.secondLine := by
  refine ⟨?_, ?_, ?_⟩
  · intro config e object i indexLoc loc t htarget hrun
    exact Stmt.exists_replaysWrite_of_exec hpolicy htarget hrun
  · intro callee arguments loc v t hcallee hrun
    exact Expr.exists_replaysExchange_of_eval hpolicy hcallee hrun
  · intro plan t hrun
    exact Eval.exists_replaysExchange_of_plannedSwap hpolicy hrun

/-- An array that contains itself and 1, under the name `a`. -/
def State.selfContaining : State where
  environment := Environment.empty.define "a" (.array 0)
  heap := ⟨#[#[.array 0, .number 1.0]]⟩
  history := .empty .keepAll

/-- `a[1] = a` -/
def Expr.containTwice : Expr :=
  .ofAssign .assign (.ofIndex (.ofName "a") (.ofNumber 1.0)) (.ofName "a")

/-- `swap(a, 0, 1, 5, 6)` -/
def Expr.swapTwo : Expr :=
  .ofCall "swap" (.ofName "a" :: [0.0, 1.0, 5.0, 6.0].map .ofNumber)

/-- Both a write and an exchange can be replayed in an array that contains itself. -/
theorem State.recorded_states_replay_selfContaining :
    selfContaining.history.policy = .keepAll ∧
      (∃ operands id slot v u t, Expr.containTwice.toWrite? = some operands ∧
        operands selfContaining = .ok ⟨.slot "a" id slot, v⟩ u ∧
        (Stmt.ofExpr 1 Expr.containTwice).exec .standard selfContaining = .ok () t ∧
        u.ReplaysWrite t (some 1) "a" id slot v) ∧
      ∃ (x : Exchange) (u t : State) (line1 line2 : Option UInt32),
        Expr.swapTwo.eval selfContaining = .ok .undefined t ∧
          u.ReplaysExchange t x line1 line2 := by
  have hassign : ((Stmt.ofExpr 1 Expr.containTwice).exec .standard).succeedsIn selfContaining
      (fun _ _ ↦ true) = true := by
    decide +kernel
  have hswap : Expr.swapTwo.eval.succeedsIn selfContaining (fun v _ ↦ v == .undefined) = true := by
    decide +kernel
  obtain ⟨⟨⟩, t, hassign, -⟩ := Eval.exists_of_succeedsIn hassign
  obtain ⟨v, t', hswap, hv⟩ := Eval.exists_of_succeedsIn hswap
  obtain rfl := beq_iff_eq.mp hv
  have hreplay := recorded_states_replay (s := selfContaining) rfl
  obtain ⟨operands, id, slot, w, u, hoperands, hrun, hwrite⟩ := hreplay.1 _ _ _ _ _ _ _ rfl hassign
  obtain ⟨name, values, x, u', -, -, -, hexchange⟩ := hreplay.2.1 _ _ _ _ _ rfl hswap
  exact ⟨rfl, ⟨operands, id, slot, w, u, t, hoperands, hrun, hassign, hwrite⟩,
    x, u', t', _, _, hswap, hexchange⟩

end ScriptTrace
