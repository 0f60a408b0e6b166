import ScriptTrace.Proofs.ShortValue
import ScriptTrace.Proofs.Tagged

/-!
# How an idiom runs

The statements of an idiom run one by one without swap detection; with it the two writes run as one
exchange. Both are worked out here for a state in which the temporary holds the element that the
first write replaces: either both fail, with one cause and before anything changes, or both end in
the same state, and the events of the exchange stand for those of the writes.

The second write evaluates its index again, in arrays that the first write has changed. It finds the
same slot, because copying an element within an array changes no number.
-/

namespace ScriptTrace

open Eval

/-! ## Plain assignments -/

/-- The variables and arrays after a write. -/
def Place.after (p : Place) (v : Value) (environment : Environment) (heap : Heap) :
    Environment × Heap :=
  match p with
  | named name => (environment.define name v, heap)
  | slot _ id i => (environment, heap.write id i v)

section Assign

variable {environment : Environment} {heap : Heap}

theorem Place.write_emits (p : Place) (v : Value) :
    (p.write v).Emits environment heap (.ok ⟨p, v⟩ (p.after v environment heap)) [] := by
  cases p <;> exact fun _ ↦ rfl

theorem Eval.assign_emits {value : Eval Value} {place : Eval Place} {v : Value} {p : Place}
    (hvalue : value.Computes environment heap (.ok v))
    (hplace : place.Computes environment heap (.ok p)) :
    (Eval.assign .assign value place).Emits environment heap
      (.ok ⟨p, v⟩ (p.after v environment heap)) [] :=
  Emits.bind hvalue (Emits.bind hplace (p.write_emits v))

theorem Eval.assign_computes_error {value : Eval Value} {place : Eval Place} {cause : Cause}
    (hvalue : value.Computes environment heap (.error cause)) :
    (Eval.assign .assign value place).Computes environment heap (.error cause) :=
  hvalue.bind_error _

/-- An assignment as a statement, from its value and its place. -/
theorem Stmt.exec_assign_emits {config : Config} {target value : Expr} {v : Value} {p : Place}
    (hvalue : value.eval.Computes environment heap (.ok v))
    (hplace : target.place.Computes environment heap (.ok p)) (assignLoc loc : Option Location) :
    ((Stmt.expression (.assign .assign target value assignLoc) loc).exec config).Emits
      environment heap (.ok () (p.after v environment heap))
      [⟨loc.map (·.start.line), (Written.mk p v).details (p.after v environment heap).2⟩] := by
  have hwrite : (Expr.assign .assign target value assignLoc).evalWrite.Emits environment heap
      (.ok (some ⟨p, v⟩) (p.after v environment heap)) [] :=
    Emits.atNode _ _ (Emits.bind (Eval.assign_emits hvalue hplace) fun _ ↦ rfl)
  refine Emits.atNode _ _ ?_
  rw [effect_expression]
  exact Emits.bind hwrite fun _ ↦ rfl

theorem Stmt.exec_assign_computes_error {config : Config} {target value : Expr} {cause : Cause}
    (hvalue : value.eval.Computes environment heap (.error cause))
    (assignLoc loc : Option Location) :
    ((Stmt.expression (.assign .assign target value assignLoc) loc).exec config).Computes
      environment heap (.error cause) := by
  have hwrite : (Expr.assign .assign target value assignLoc).evalWrite.Computes environment heap
      (.error cause) := ((Eval.assign_computes_error hvalue).bind_error _).atNode _ _
  refine Computes.atNode _ _ ?_
  rw [effect_expression]
  exact hwrite.bind_error _

end Assign

/-! ## The capture -/

/-- A declaration of one name, from its value. -/
theorem Declaration.exec_emits {environment environment' : Environment} {heap heap' : Heap}
    {value : Expr} {v : Value} {events : List Event}
    (hvalue : value.eval.Emits environment heap (.ok v (environment', heap')) events)
    (kind : DeclarationKind) (name : String) (nameLoc declaratorLoc loc : Option Location) :
    (Declaration.exec ⟨kind, [⟨.identifier name nameLoc, some value, declaratorLoc⟩], loc⟩).Emits
      environment heap (.ok () (environment'.define name v, heap'))
      (events ++ [⟨loc.map (·.start.line), .declare name (heap'.snapshot v)⟩]) := by
  have hbind : (Declaration.bind (loc.map (·.start.line))
      ⟨.identifier name nameLoc, some value, declaratorLoc⟩).Emits environment heap
      (.ok () (environment'.define name v, heap'))
      (events ++ [⟨loc.map (·.start.line), .declare name (heap'.snapshot v)⟩]) :=
    Emits.bind hvalue fun _ ↦ rfl
  rw [← List.append_nil (events ++ _)]
  exact Emits.bind hbind fun _ ↦ rfl

/-- A declaration of one name as a statement, if finding its value changes nothing. -/
theorem Stmt.exec_declaration_emits {config : Config} {environment : Environment} {heap : Heap}
    {value : Expr} {v : Value} (hvalue : value.eval.Computes environment heap (.ok v))
    (kind : DeclarationKind) (name : String) (nameLoc declaratorLoc loc : Option Location) :
    ((Stmt.declaration ⟨kind, [⟨.identifier name nameLoc, some value, declaratorLoc⟩], loc⟩).exec
      config).Emits environment heap (.ok () (environment.define name v, heap))
      [⟨loc.map (·.start.line), .declare name (heap.snapshot v)⟩] :=
  Emits.atNode _ _ (Declaration.exec_emits hvalue kind name nameLoc declaratorLoc loc)

/-- A capture that ends has found the element, and only stores it. -/
theorem Stmt.of_capture_emits {capture : Stmt} {temp array : String} {origin : Expr}
    {changed : List String} (hcapture : capture.capture? temp = some (array, origin))
    (hstable : origin.isStable changed = true) {config : Config}
    {environment environment' : Environment} {heap heap' : Heap} {events : List Event}
    (hrun : (capture.exec config).Emits environment heap (.ok () (environment', heap')) events) :
    ∃ id slot, origin.shortSlot environment heap array = .ok (id, slot) ∧
      environment' = environment.define temp (heap.read id slot) ∧ heap' = heap := by
  obtain ⟨tempLoc, nameLoc, indexLoc, hshape⟩ := eq_of_capture? hcapture
  have hvalue := Expr.index_computes hstable environment heap array nameLoc indexLoc
  cases hslot : origin.shortSlot environment heap array with
  | error cause =>
    rw [hslot] at hvalue
    have hfail : (capture.exec config).Computes environment heap (.error cause) := by
      rcases hshape with ⟨kind, declaratorLoc, loc, rfl⟩ | ⟨assignLoc, loc, rfl⟩
      · exact ((hvalue.bind_error _).bind_error _).atNode _ _
      · exact exec_assign_computes_error hvalue assignLoc loc
    obtain ⟨failure, -, hfail⟩ := hfail
    cases hrun.ending_unique hfail
  | ok x =>
    obtain ⟨id, slot⟩ := x
    rw [hslot] at hvalue
    obtain ⟨later, hok⟩ : ∃ later, (capture.exec config).Emits environment heap
        (.ok () (environment.define temp (heap.read id slot), heap)) later := by
      rcases hshape with ⟨kind, declaratorLoc, loc, rfl⟩ | ⟨assignLoc, loc, rfl⟩
      · exact ⟨_, exec_declaration_emits hvalue kind temp tempLoc declaratorLoc loc⟩
      · have hplace : (Expr.identifier temp tempLoc).place.Computes environment heap
            (.ok (.named temp)) := Computes.pure _
        exact ⟨_, exec_assign_emits hvalue hplace assignLoc loc⟩
    cases hrun.ending_unique hok
    exact ⟨id, slot, rfl, rfl, rfl⟩

/-! ## The exchange -/

theorem Exchange.resolve_computes {environment : Environment} {name : String} {id : ArrayId}
    (hid : Expr.namedArray environment name = .ok id) (heap : Heap) (index1 index2 : Value) :
    (resolve name index1 index2).Computes environment heap (do
      let first ← heap.resolveIndex index1 name (heap.length id)
      let second ← heap.resolveIndex index2 name (heap.length id)
      return ⟨name, id, first, second⟩) := by
  have hlookup := Computes.lookup? environment heap name
  rw [Expr.namedArray_eq_ok hid] at hlookup
  refine hlookup.bind_ok (Computes.heap.bind_ok ?_)
  refine (Computes.ofExcept _).bind fun first _ ↦ ?_
  exact (Computes.ofExcept _).bind fun second _ ↦ Computes.pure _

/-- The events of an exchange, from the arrays after its first half and after its second. -/
def Exchange.events (x : Exchange) (line1 line2 : Option UInt32) (heap1 heap2 : Heap) :
    List Event :=
  ⟨line1, .swap x.name x.first x.second (heap1.snapshotElements x.array)⟩ ::
    if line2.isSome then [⟨line2, .swap x.name x.first x.second (heap2.snapshotElements x.array)⟩]
    else []

theorem Exchange.perform_emits (x : Exchange) (line1 line2 : Option UInt32)
    (environment : Environment) (heap : Heap) :
    let heap1 := heap.write x.array x.first (heap.read x.array x.second)
    let heap2 := heap1.write x.array x.second (heap.read x.array x.first)
    (x.perform line1 line2).Emits environment heap (.ok () (environment, heap2))
      (x.events line1 line2 heap1 heap2) := by
  intro heap1 heap2 history
  cases line2 <;> rfl

namespace SwapPlan

variable {plan : SwapPlan}

/-- What holds when the writes of an idiom are reached: the index of the first write leads to a slot
of the array, and the temporary holds the element in it. -/
structure Idiom.Ready (x : plan.Idiom) (environment : Environment) (heap : Heap) (id : ArrayId)
    (slot : Nat) : Prop where
  first : plan.first.shortSlot environment heap plan.array = .ok (id, slot)
  temp : environment.get? x.temp = some (heap.read id slot)

/-- No literal of the indices of an idiom is the negative zero. -/
structure Idiom.NoNegativeZero (x : plan.Idiom) : Prop where
  origin : (Node.expr x.origin).Everywhere (¬·.IsNegativeZero)
  first : (Node.expr plan.first).Everywhere (¬·.IsNegativeZero)
  copied : (Node.expr x.copied).Everywhere (¬·.IsNegativeZero)
  second : (Node.expr plan.second).Everywhere (¬·.IsNegativeZero)

namespace Idiom

variable {x : plan.Idiom} {environment : Environment} {heap : Heap} {id : ArrayId} {slot : Nat}

theorem noNegativeZero (hcapture : (Node.stmt x.capture).Everywhere (¬·.IsNegativeZero))
    (hwrite : (Node.stmt x.write).Everywhere (¬·.IsNegativeZero))
    (hnext : (Node.stmt x.next).Everywhere (¬·.IsNegativeZero)) : x.NoNegativeZero where
  origin := Stmt.everywhere_of_capture? hcapture x.capture_eq
  first := (Stmt.everywhere_of_elementWrite? hwrite x.write_eq).1
  copied := Expr.everywhere_of_element? (Stmt.everywhere_of_elementWrite? hwrite x.write_eq).2
    x.value_eq
  second := (Stmt.everywhere_of_elementWrite? hnext x.next_eq).1

/-- After the capture the writes are ready. -/
theorem ready_of_capture (hzero : x.NoNegativeZero) {config : Config}
    {environment' : Environment} {heap' : Heap} {events : List Event}
    (hrun : (x.capture.exec config).Emits environment heap (.ok () (environment', heap')) events) :
    ∃ id slot, x.Ready environment' heap' id slot := by
  have hstable : x.origin.isStable [plan.array, x.temp] = true := by
    rw [Expr.isStable_of_same x.origin_same, x.first_stable]
  obtain ⟨id, slot, hslot, rfl, rfl⟩ := Stmt.of_capture_emits x.capture_eq hstable hrun
  refine ⟨id, slot, ?_, ?_⟩
  · -- the index of the first write is that of the capture, and does not mention the temporary
    rw [← Expr.shortSlot_of_same hzero.origin hzero.first x.origin_same, ← hslot]
    refine Expr.shortSlot_congr (fun name hname ↦ ?_) ?_ (fun _ ↦ rfl) (fun _ ↦ rfl) hstable
    · have hne : name ≠ x.temp := by
        rintro rfl
        exact hname (by simp)
      rw [Environment.get?_define, if_neg hne]
    · rw [Environment.get?_define, if_neg x.temp_ne.symm]
  · rw [Environment.get?_define, if_pos rfl]

/-! ### When the second index leads nowhere -/

private theorem value_computes (hzero : x.NoNegativeZero) (environment : Environment)
    (heap : Heap) : x.value.eval.Computes environment heap (do
      let (id, slot) ← plan.second.shortSlot environment heap plan.array
      return heap.read id slot) := by
  have hstable : x.copied.isStable [plan.array, x.temp] = true := by
    rw [← Expr.isStable_of_same x.second_same, x.second_stable]
  obtain ⟨nameLoc, indexLoc, hvalue⟩ := Expr.eq_index_of_element? x.value_eq
  rw [hvalue, Expr.shortSlot_of_same hzero.second hzero.copied x.second_same]
  exact Expr.index_computes hstable environment heap plan.array nameLoc indexLoc

theorem write_computes_error (hzero : x.NoNegativeZero) {cause : Cause}
    (hsecond : plan.second.shortSlot environment heap plan.array = .error cause)
    (config : Config) : (x.write.exec config).Computes environment heap (.error cause) := by
  have hvalue := value_computes hzero environment heap
  rw [hsecond] at hvalue
  obtain ⟨nameLoc, indexLoc, assignLoc, loc, hwrite⟩ := Stmt.eq_of_elementWrite? x.write_eq
  rw [hwrite]
  exact Stmt.exec_assign_computes_error hvalue assignLoc loc

theorem plannedSwap_computes_error (hready : x.Ready environment heap id slot) {cause : Cause}
    (hsecond : plan.second.shortSlot environment heap plan.array = .error cause) :
    (plannedSwap plan).Computes environment heap (.error cause) := by
  obtain ⟨hid, index1, hindex1, hslot1⟩ := Expr.shortSlot_eq_ok hready.first
  have hfirst := Expr.eval_computes x.first_stable environment heap
  have heval := Expr.eval_computes x.second_stable environment heap
  rw [hindex1] at hfirst
  rw [Expr.shortSlot, hid] at hsecond
  refine hfirst.bind_ok ?_
  cases hindex2 : plan.second.shortValue environment heap with
  | error cause' =>
    rw [hindex2] at heval hsecond
    cases hsecond
    exact heval.bind_error _
  | ok index2 =>
    rw [hindex2] at heval hsecond
    refine heval.bind_ok ?_
    have hresolve := Exchange.resolve_computes hid heap index1 index2
    rw [hslot1] at hresolve
    cases hslot2 : heap.resolveIndex index2 plan.array (heap.length id) with
    | error cause' =>
      change (heap.resolveIndex index2 plan.array (heap.length id) >>= _) = _ at hsecond
      rw [hslot2] at hresolve hsecond
      cases hsecond
      exact hresolve.bind_error _
    | ok slot' =>
      change (heap.resolveIndex index2 plan.array (heap.length id) >>= _) = _ at hsecond
      rw [hslot2] at hsecond
      cases hsecond

/-! ### When it leads to a slot -/

theorem write_emits (hzero : x.NoNegativeZero) (hready : x.Ready environment heap id slot)
    {slot' : Nat} (hsecond : plan.second.shortSlot environment heap plan.array = .ok (id, slot'))
    (config : Config) :
    let heap1 := heap.write id slot (heap.read id slot')
    (x.write.exec config).Emits environment heap (.ok () (environment, heap1))
      [⟨plan.firstLine, .assignElement plan.array slot (heap1.snapshot (heap.read id slot'))
        (heap1.snapshotElements id)⟩] := by
  intro heap1
  have hvalue := value_computes hzero environment heap
  rw [hsecond] at hvalue
  obtain ⟨nameLoc, indexLoc, assignLoc, loc, hwrite⟩ := Stmt.eq_of_elementWrite? x.write_eq
  have hplace := Expr.place_computes x.first_stable hready.first nameLoc indexLoc
  rw [x.firstLine_eq, hwrite]
  exact Stmt.exec_assign_emits hvalue hplace assignLoc loc

theorem next_emits (hready : x.Ready environment heap id slot) {slot' : Nat}
    (hsecond : plan.second.shortSlot environment heap plan.array = .ok (id, slot'))
    (config : Config) :
    let heap1 := heap.write id slot (heap.read id slot')
    let heap2 := heap1.write id slot' (heap.read id slot)
    (x.next.exec config).Emits environment heap1 (.ok () (environment, heap2))
      [⟨plan.secondLine, .assignElement plan.array slot' (heap2.snapshot (heap.read id slot))
        (heap2.snapshotElements id)⟩] := by
  intro heap1 heap2
  obtain ⟨hid, index1, -, hslot⟩ := Expr.shortSlot_eq_ok hready.first
  obtain ⟨-, index2, -, hslot'⟩ := Expr.shortSlot_eq_ok hsecond
  -- the index is evaluated again, and the write before it has changed no number
  have hagain : plan.second.shortSlot environment heap1 plan.array = .ok (id, slot') := by
    rw [← hsecond]
    refine Expr.shortSlot_congr (fun _ _ ↦ rfl) rfl (fun v ↦ ?_) (fun id' ↦ ?_) x.second_stable
    · exact Heap.toNumber_write_read (Heap.lt_of_resolveIndex hslot)
        (Heap.lt_of_resolveIndex hslot') v
    · exact Heap.length_write heap id slot _ id'
  obtain ⟨nameLoc, indexLoc, assignLoc, loc, hnext⟩ := Stmt.eq_of_elementWrite? x.next_eq
  obtain ⟨storedLoc, hstored⟩ := Expr.eq_identifier_of_name? x.stored_eq
  have hvalue : x.stored.eval.Computes environment heap1 (.ok (heap.read id slot)) := by
    have hname := Expr.identifierValue_computes environment heap1 x.temp
    rw [Expr.nameValue, hready.temp] at hname
    rw [hstored]
    exact hname.atNode _ _
  have hplace := Expr.place_computes x.second_stable hagain nameLoc indexLoc
  rw [x.secondLine_eq, hnext]
  exact Stmt.exec_assign_emits hvalue hplace assignLoc loc

theorem plannedSwap_emits (hready : x.Ready environment heap id slot) {slot' : Nat}
    (hsecond : plan.second.shortSlot environment heap plan.array = .ok (id, slot')) :
    let heap1 := heap.write id slot (heap.read id slot')
    let heap2 := heap1.write id slot' (heap.read id slot)
    (plannedSwap plan).Emits environment heap (.ok () (environment, heap2))
      (Exchange.events ⟨plan.array, id, slot, slot'⟩ plan.firstLine plan.secondLine heap1
        heap2) := by
  intro heap1 heap2
  obtain ⟨hid, index1, hindex1, hslot⟩ := Expr.shortSlot_eq_ok hready.first
  obtain ⟨-, index2, hindex2, hslot'⟩ := Expr.shortSlot_eq_ok hsecond
  have hfirst := Expr.eval_computes x.first_stable environment heap
  have heval := Expr.eval_computes x.second_stable environment heap
  have hresolve := Exchange.resolve_computes hid heap index1 index2
  rw [hindex1] at hfirst
  rw [hindex2] at heval
  rw [hslot, hslot'] at hresolve
  have hperform := Exchange.perform_emits ⟨plan.array, id, slot, slot'⟩ plan.firstLine
    plan.secondLine environment heap
  exact Emits.bind hfirst (Emits.bind heval (Emits.bind hresolve hperform))

end Idiom

end SwapPlan

end ScriptTrace
