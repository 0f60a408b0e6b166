import ScriptTrace.Proofs.UpkeepSteps

/-!
# Expressions keep up what an upkeep asks for

One lemma for each kind of expression, about what its parts keep up, and from these the recursion
through the tree, once for all upkeeps.
-/

namespace ScriptTrace

open Eval (Upholds)

variable {U : Upkeep}

namespace Expr

/-- Whether evaluating an expression keeps up what an upkeep asks for. -/
def Upheld (U : Upkeep) (e : Expr) : Prop :=
  ∀ s, U.Valid s → e.eval.Upholds U s (e.evaluations s) U.Fits

/-- Whether finding the place of a target does, and finds one that can be written to. -/
def PlaceUpheld (U : Upkeep) (e : Expr) : Prop :=
  ∀ s, U.Valid s → e.place.Upholds U s (e.placeEvaluations s)
    fun h p ↦ p.Found h ∧ e.targetEffect? = some p.effect

/-- Whether an expression only has effects that are admitted. -/
def AdmittedBy (U : Upkeep) (e : Expr) : Prop :=
  ∀ effect, e.does effect = true → U.Admits effect

theorem AdmittedBy.child {e c : Expr} (h : e.AdmittedBy U) (hc : c ∈ e.children) :
    c.AdmittedBy U := by
  intro effect hdoes
  exact h effect (does_of_doesInside (doesInside_of_mem_children hc hdoes))

/-! ## Lists of expressions -/

theorem evalElements_upholds {elements : List (Option Expr)}
    (h : ∀ e, some e ∈ elements → e.Upheld U) {s : State} (hs : U.Valid s) :
    (evalElements elements).Upholds U s (elementEvaluations elements s)
      fun h values ↦ ∀ v ∈ values, U.Fits h v := by
  induction elements generalizing s with
  | nil => exact .pure hs nofun
  | cons element rest ih =>
    have ih : ∀ {s}, U.Valid s → _ := fun hs ↦ ih (fun e he ↦ h e (List.mem_cons_of_mem _ he)) hs
    rcases element with _ | e
    · refine (ih hs).bind_quiet fun values t _ ht _ hvalues ↦ .pure ht ?_
      exact List.forall_mem_cons.mpr ⟨U.fits_plain _ fun _ ↦ Value.noConfusion, hvalues⟩
    · refine .bind (h e List.mem_cons_self s hs) fun v t _ ht _ hv ↦ ?_
      refine (ih ht).bind_quiet fun values u _ hu hleads hvalues ↦ .pure hu ?_
      exact List.forall_mem_cons.mpr ⟨U.fits_of_leads hv hleads, hvalues⟩

theorem evalAll_upholds {arguments : List Expr} (h : ∀ e ∈ arguments, e.Upheld U) {s : State}
    (hs : U.Valid s) :
    (evalAll arguments).Upholds U s (allEvaluations arguments s) fun _ _ ↦ True := by
  induction arguments generalizing s with
  | nil => exact .pure hs trivial
  | cons e rest ih =>
    obtain ⟨he, hrest⟩ := List.forall_mem_cons.mp h
    refine .bind (he s hs) fun v t _ ht _ _ ↦ ?_
    exact (ih hrest ht).bind_quiet fun values u _ hu _ _ ↦ .pure hu trivial

theorem evalAfterFirst_upholds {arguments : List Expr} (h : ∀ e ∈ arguments, e.Upheld U)
    {s : State} (hs : U.Valid s) :
    (evalAfterFirst arguments).Upholds U s (afterFirstEvaluations arguments s)
      fun _ _ ↦ True := by
  rcases arguments with _ | ⟨e, rest⟩
  · exact .pure hs trivial
  · exact evalAll_upholds (List.forall_mem_cons.mp h).2 hs

/-! ## Values -/

theorem literal_upheld (value : LiteralValue) (regex : Option Regex) (loc : Option Location) :
    (literal value regex loc).Upheld U := by
  intro s hs
  refine .cons (.atNode _ _ (.ofExcept hs fun v hv ↦ ?_)) rfl
  exact U.fits_plain _ (literalValue_ne_array hv)

theorem binary_upheld {left right : Expr} (hleft : left.Upheld U) (hright : right.Upheld U)
    (op : BinaryOp) (loc : Option Location) : (binary op left right loc).Upheld U := by
  intro s hs
  refine .cons (.atNode _ _ ?_) rfl
  refine .bind (hleft s hs) fun a t _ ht _ ha ↦ ?_
  refine (hright t ht).bind_quiet fun b u _ hu hleads hb ↦ .heap_bind ?_
  exact .binary hu op (U.fits_of_leads ha hleads) hb

theorem logical_upheld {left right : Expr} (hleft : left.Upheld U) (hright : right.Upheld U)
    (op : LogicalOp) (loc : Option Location) : (logical op left right loc).Upheld U := by
  intro s hs
  refine .cons (.atNode _ _ ?_) rfl
  by_cases hop : op.isSupported = true
  · rw [if_pos hop, if_pos hop]
    refine .bind (hleft s hs) fun a t _ ht _ ha ↦ ?_
    by_cases hgoes : (a.isTruthy == (op == .and)) = true
    · rw [if_pos hgoes, if_pos hgoes]
      exact hright t ht
    · rw [if_neg hgoes, if_neg hgoes]
      exact .pure ht ha
  · rw [if_neg hop, if_neg hop]
    exact .fail hs

theorem unary_upheld {operand : Expr} (hoperand : operand.Upheld U) (op : UnaryOp)
    (loc : Option Location) : (unary op operand loc).Upheld U := by
  intro s hs
  refine .cons (.atNode _ _ ?_) rfl
  refine (hoperand s hs).bind_quiet fun a t _ ht _ _ ↦ .heap_bind (.ofExcept ht fun v hv ↦ ?_)
  exact U.fits_plain _ (Heap.unary_ne_array hv)

theorem update_upheld {op : UpdateOp} {target : Expr} {isBefore : Bool} {loc : Option Location}
    (hadmitted : (update op target isBefore loc).AdmittedBy U) (htarget : target.PlaceUpheld U) :
    (update op target isBefore loc).Upheld U := by
  intro s hs
  refine .cons (.atNode _ _ ?_) rfl
  simp only [Eval.step_eq, bind_assoc, pure_bind]
  refine (Upholds.toStep (htarget s hs)).bind_quiet fun (v, w) t _ ht _ hw ↦ ?_
  obtain ⟨hv, hfits, hfound, heffect⟩ := hw
  have hadmits := hadmitted _ (does_of_effect? heffect)
  refine (Upholds.write hadmits ht hfits hfound).bind_quiet fun w' u _ hu _ _ ↦ .pure hu ?_
  exact U.fits_plain _ hv

theorem assign_upheld {op : AssignOp} {target value : Expr} {loc : Option Location}
    (hadmitted : (assign op target value loc).AdmittedBy U) (htarget : target.PlaceUpheld U)
    (hvalue : value.Upheld U) : (assign op target value loc).Upheld U := by
  intro s hs
  refine .cons (.atNode _ _ ?_) rfl
  rw [Eval.assign_eq, bind_assoc]
  refine (Upholds.toAssign hs (hvalue s hs) htarget).bind_quiet fun w t _ ht _ hw ↦ ?_
  obtain ⟨hfits, hfound, heffect⟩ := hw
  have hadmits := hadmitted _ (does_of_effect? heffect)
  refine (Upholds.write hadmits ht hfits hfound).bind_quiet fun w' u _ hu hleads hw' ↦ ?_
  obtain rfl := hw'
  exact .pure hu (U.fits_of_leads hfits hleads)

/-- An array literal makes the array that is its value, after its elements have been evaluated. -/
theorem array_upheld {elements : List (Option Expr)} (loc : Option Location)
    (h : ∀ e, some e ∈ elements → e.Upheld U) : (array elements loc).Upheld U := by
  intro s hs
  have helements := evalElements_upholds h hs
  let e := array elements loc
  rcases hrun : evalElements elements s with ⟨values, t⟩ | ⟨failure, t⟩
  · let t' : State := { t with heap := t.heap.allocate values.toArray }
    have heval : e.eval s = .ok (.array t.heap.nextId) t' := eval_array_of_ok hrun loc
    have hmid := Eval.endState_of_ok hrun
    have hend : e.eval.endState s = t' := Eval.endState_of_ok heval
    have hleads : U.Leads t.heap t'.heap := U.leads_allocate _ _
    have hvalues := helements.result hrun
    refine ⟨?_, ?_, fun {a u} hok ↦ ?_, fun {v} hv ↦ ?_, fun {id} hold hnew ↦ ?_⟩
    · rw [hend]
      exact U.allocate (hmid ▸ helements.valid) fun v hv ↦ hvalues v (List.mem_toArray.mp hv)
    · rw [hend]
      exact U.leads_trans (hmid ▸ helements.leads) hleads
    · rw [heval] at hok
      cases hok
      exact U.fits_allocate _ _
    · rw [hend]
      rcases List.mem_cons.mp hv with rfl | hv
      · rw [Evaluation.stop, hend]
        exact ⟨U.leads_refl _, U.leads_trans (hmid ▸ helements.leads) hleads, U.leads_refl _⟩
      · obtain ⟨hstart, hself, hstop⟩ := helements.visited hv
        exact ⟨hstart, hself, U.leads_trans (hmid ▸ hstop) hleads⟩
    · -- the last of the new arrays is made by the literal itself
      rw [hend, Heap.nextId_allocate] at hnew
      rcases Nat.lt_succ_iff_lt_or_eq.mp hnew with hfirst | rfl
      · obtain ⟨v, hv, hcreates⟩ := helements.created hold (hmid ▸ hfirst)
        exact ⟨v, List.mem_cons_of_mem _ hv, hcreates⟩
      · exact ⟨⟨e, s⟩, List.mem_cons_self, elements, loc, t', rfl, heval⟩
  · refine .cons (.atNode _ _ (helements.bind_quiet fun values t hok ↦ ?_)) rfl
    cases hrun.symm.trans hok

theorem index_upheld {object i : Expr} (hobject : object.Upheld U) (hi : i.Upheld U)
    (loc : Option Location) : (index object i loc).Upheld U := by
  intro s hs
  refine .cons (.atNode _ _ ?_) rfl
  exact (Upholds.element hs (hobject s hs) hi).bind_quiet fun p t _ ht _ _ ↦ .read ht p

theorem property_upheld {object : Expr} (hobject : object.Upheld U) (name : Expr)
    (loc : Option Location) : (property object name loc).Upheld U := by
  intro s hs
  refine .cons (.atNode _ _ ?_) rfl
  refine (hobject s hs).bind_quiet fun a t _ ht _ _ ↦ .heap_bind (.ofExcept ht fun v hv ↦ ?_)
  exact U.fits_plain _ (propertyValue_ne_array hv)

theorem call_upheld {arguments : List Expr} (h : ∀ e ∈ arguments, e.Upheld U) (callee : Expr)
    (loc : Option Location) : (call callee arguments loc).Upheld U := by
  intro s hs
  refine .cons (.atNode _ _ ?_) rfl
  rcases callee.name? with _ | name
  · exact .fail hs
  · rw [Option.bind_some]
    dsimp only
    rcases Builtin.ofName? name with _ | builtin
    · exact .fail hs
    · rcases builtin
      exact .swap hs (evalAfterFirst_upholds h hs) _

theorem conditional_upheld {test consequent alternate : Expr} (htest : test.Upheld U)
    (hconsequent : consequent.Upheld U) (halternate : alternate.Upheld U)
    (loc : Option Location) : (conditional test consequent alternate loc).Upheld U := by
  intro s hs
  refine .cons (.atNode _ _ ?_) rfl
  refine .bind (htest s hs) fun a t _ ht _ _ ↦ ?_
  by_cases hgoes : a.isTruthy = true
  · rw [if_pos hgoes, if_pos hgoes]
    exact hconsequent t ht
  · rw [if_neg hgoes, if_neg hgoes]
    exact halternate t ht

/-! ## Targets -/

/-- Only a name and an element can be the place of a target. -/
theorem placeUpheld_of_fail {e : Expr}
    (hplace : e.place = Eval.fail (.unsupportedNode e.nodeType))
    (hvisits : e.placeEvaluations = .empty) : e.PlaceUpheld U := by
  intro s hs
  rw [hplace, hvisits]
  exact .fail hs

theorem index_placeUpheld {object i : Expr} (hobject : object.Upheld U) (hi : i.Upheld U)
    (loc : Option Location) : (index object i loc).PlaceUpheld U := by
  intro s hs
  refine (Upholds.element hs (hobject s hs) hi).mono fun h p hp ↦ ?_
  exact ⟨hp.1, congrArg some hp.2.symm⟩

/-- An expression whose effects are admitted keeps up what is asked for, as a value and as a
target. -/
theorem upheld_and_placeUpheld (e : Expr) (hadmitted : e.AdmittedBy U) :
    e.Upheld U ∧ e.PlaceUpheld U := by
  induction e with
  | literal value regex loc => exact ⟨literal_upheld value regex loc, placeUpheld_of_fail rfl rfl⟩
  | identifier name loc =>
    refine ⟨fun s hs ↦ .cons (.atNode _ _ (.identifierValue hs name)) rfl, fun s hs ↦ ?_⟩
    exact .pure hs ⟨trivial, rfl⟩
  | binary op left right loc hleft hright =>
    have hleft := (hleft (hadmitted.child List.mem_cons_self)).1
    have hright := (hright (hadmitted.child (by simp [children]))).1
    exact ⟨binary_upheld hleft hright op loc, placeUpheld_of_fail rfl rfl⟩
  | logical op left right loc hleft hright =>
    have hleft := (hleft (hadmitted.child List.mem_cons_self)).1
    have hright := (hright (hadmitted.child (by simp [children]))).1
    exact ⟨logical_upheld hleft hright op loc, placeUpheld_of_fail rfl rfl⟩
  | unary op operand loc hoperand =>
    have hoperand := (hoperand (hadmitted.child List.mem_cons_self)).1
    exact ⟨unary_upheld hoperand op loc, placeUpheld_of_fail rfl rfl⟩
  | update op target isBefore loc htarget =>
    have htarget := (htarget (hadmitted.child List.mem_cons_self)).2
    exact ⟨update_upheld hadmitted htarget, placeUpheld_of_fail rfl rfl⟩
  | assign op target value loc htarget hvalue =>
    have htarget := (htarget (hadmitted.child List.mem_cons_self)).2
    have hvalue := (hvalue (hadmitted.child (by simp [children]))).1
    exact ⟨assign_upheld hadmitted htarget hvalue, placeUpheld_of_fail rfl rfl⟩
  | array elements loc helements =>
    refine ⟨array_upheld loc fun e he ↦ ?_, placeUpheld_of_fail rfl rfl⟩
    exact (helements e he (hadmitted.child (by simpa [children] using he))).1
  | index object i loc hobject hi =>
    have hobject := (hobject (hadmitted.child List.mem_cons_self)).1
    have hi := (hi (hadmitted.child (by simp [children]))).1
    exact ⟨index_upheld hobject hi loc, index_placeUpheld hobject hi loc⟩
  | property object name loc hobject _ =>
    have hobject := (hobject (hadmitted.child List.mem_cons_self)).1
    exact ⟨property_upheld hobject name loc, placeUpheld_of_fail rfl rfl⟩
  | call callee arguments loc _ harguments =>
    refine ⟨call_upheld (fun e he ↦ ?_) callee loc, placeUpheld_of_fail rfl rfl⟩
    exact (harguments e he (hadmitted.child (List.mem_cons_of_mem _ he))).1
  | conditional test consequent alternate loc htest hconsequent halternate =>
    have htest := (htest (hadmitted.child List.mem_cons_self)).1
    have hconsequent := (hconsequent (hadmitted.child (by simp [children]))).1
    have halternate := (halternate (hadmitted.child (by simp [children]))).1
    exact ⟨conditional_upheld htest hconsequent halternate loc, placeUpheld_of_fail rfl rfl⟩
  | unsupported nodeType loc =>
    exact ⟨fun s hs ↦ .cons (.atNode _ _ (.fail hs)) rfl, placeUpheld_of_fail rfl rfl⟩

end Expr

end ScriptTrace
