import ScriptTrace.Proofs.LastWrites

/-!
# Compound assignments, steps and plain assignments

`t op= e` reads its target after it has evaluated `e`, and evaluates the target once; `t = t op e`
reads the target first and evaluates it twice. If target and right side are pure, this makes no
difference but for the arrays that are made on the way. To see this, both are compared to the
operands as they are evaluated from the first state, each on its own (`Expr.Combines`): whatever
comes first, the operands are the same with the new arrays renamed (`Expr.WritesLike`).

A step is a compound assignment of 1, whatever its target does.
-/

namespace ScriptTrace

/-! ## Pure expressions in later states -/

/-- Where a later state has the arrays that are made from a state on. -/
def State.toLater (s t : State) : ArrayId → ArrayId :=
  moveUp s.heap.nextId (t.heap.nextId - s.heap.nextId)

theorem Eval.EndsRenamed.exists_of_left {α : Type} {σ : ArrayId → ArrayId} {A : α → α → Prop}
    {a : α} {t : State} {r' : EStateM.Result Failure State α}
    (h : EndsRenamed σ A (.ok a t) r') : ∃ a' t', r' = .ok a' t' ∧ A a a' ∧ t.Renamed σ t' := by
  cases h with
  | ok ha ht => exact ⟨_, _, rfl, ha, ht⟩

theorem Eval.EndsRenamed.exists_of_right {α : Type} {σ : ArrayId → ArrayId} {A : α → α → Prop}
    {a' : α} {t' : State} {r : EStateM.Result Failure State α}
    (h : EndsRenamed σ A r (.ok a' t')) : ∃ a t, r = .ok a t ∧ A a a' ∧ t.Renamed σ t' := by
  cases h with
  | ok ha ht => exact ⟨_, _, rfl, ha, ht⟩

namespace Expr.IsPure

variable {e : Expr} (he : e.IsPure) {s t u : State}

include he

theorem kept_of_eval {v : Value} (h : e.eval s = .ok v t) : s.Kept t :=
  Eval.endState_of_ok h ▸ he.quiet.1 s

theorem kept_of_place {p : Place} (h : e.place s = .ok p t) : s.Kept t :=
  Eval.endState_of_ok h ▸ he.quiet.2 s

/-- What has a value still has it later, with its arrays made later. -/
theorem exists_eval_later (hs : s.Closed) (hu : s.Kept u) {v : Value} (h : e.eval s = .ok v t) :
    ∃ t', e.eval u = .ok (v.rename (s.toLater u)) t' ∧ t.Renamed (s.toLater u) t' := by
  have hlater := he.equivariant.1 s u (hu.renamed hs)
  rw [h] at hlater
  obtain ⟨v', t', heval, rfl, ht⟩ := hlater.exists_of_left
  exact ⟨t', heval, ht⟩

theorem exists_eval_earlier (hs : s.Closed) (hu : s.Kept u) {v' : Value} {t' : State}
    (h : e.eval u = .ok v' t') : ∃ v t, e.eval s = .ok v t := by
  have hlater := he.equivariant.1 s u (hu.renamed hs)
  rw [h] at hlater
  obtain ⟨v, t, heval, -, -⟩ := hlater.exists_of_right
  exact ⟨v, t, heval⟩

theorem exists_place_later (hs : s.Closed) (hu : s.Kept u) {p : Place} (h : e.place s = .ok p t) :
    ∃ t', e.place u = .ok (p.rename (s.toLater u)) t' ∧ t.Renamed (s.toLater u) t' := by
  have hlater := he.equivariant.2 s u (hu.renamed hs)
  rw [h] at hlater
  obtain ⟨p', t', hplace, rfl, ht⟩ := hlater.exists_of_left
  exact ⟨t', hplace, ht⟩

theorem exists_place_earlier (hs : s.Closed) (hu : s.Kept u) {p' : Place} {t' : State}
    (h : e.place u = .ok p' t') :
    ∃ p t, e.place s = .ok p t ∧ p' = p.rename (s.toLater u) ∧ t.Renamed (s.toLater u) t' := by
  have hlater := he.equivariant.2 s u (hu.renamed hs)
  rw [h] at hlater
  exact hlater.exists_of_right

end Expr.IsPure

/-- Later arrays do not change the numbers of values that are there. -/
theorem State.Kept.toNumber {s t : State} (h : s.Kept t) (hs : s.Closed) {v : Value}
    (hv : s.heap.Knows v) : t.heap.toNumber v = s.heap.toNumber v := by
  have hnumber := (h.renamed hs).heap.toNumber v
  rwa [hv.rename_moveUp] at hnumber

theorem Expr.knows_of_eval {e : Expr} {s t : State} {v : Value} (hs : s.Closed)
    (h : e.eval s = .ok v t) : t.heap.Knows v :=
  ((e.upheld_and_placeUpheld fun effect _ ↦ Upkeep.closed_admits effect).1 s hs).result h

theorem Expr.closed_of_eval {e : Expr} {s t : State} {v : Value} (hs : s.Closed)
    (h : e.eval s = .ok v t) : t.Closed :=
  Eval.endState_of_ok h ▸ e.closed_endState hs

/-! ## Reading and writing places -/

namespace Place

variable {p : Place} {σ : ArrayId → ArrayId} {s t t' : State} {v : Value}

theorem state_of_read (h : p.read s = .ok v t) : t = s :=
  (Eval.endState_of_ok h).symm.trans (p.endState_read s)

/-- A number is written alike where arrays are renamed. -/
theorem renamed_written (h : t.Renamed σ t') (p : Place) (n : Number) :
    (p.written (.number n) t).Renamed σ ((p.rename σ).written (.number n) t') := by
  cases p with
  | named name =>
    refine ⟨fun other ↦ ?_, h.heap, h.history⟩
    rw [rename, written, written, Environment.get?_define, Environment.get?_define, h.get?]
    split <;> rfl
  | slot label id i => exact ⟨h.get?, h.heap.write id i (.number n), h.history⟩

end Place

/-- What is recorded of a write does not depend on the identities of arrays. -/
theorem Written.details_rename {σ : ArrayId → ArrayId} {h h' : Heap} (hσ : h.Renamed σ h')
    (p : Place) (v : Value) :
    Written.details ⟨p.rename σ, v.rename σ⟩ h' = Written.details ⟨p, v⟩ h := by
  cases p with
  | named name => exact congrArg (Details.assign name) (hσ.snapshot v)
  | slot label id i =>
    exact congrArg₂ (Details.assignElement label i) (hσ.snapshot v) (hσ.snapshotElements id)

/-! ## Operands that are combined -/

/-- The operators of compound assignments make a number of the numbers of their operands. -/
theorem AssignOp.exists_combine {op : AssignOp} {binary : BinaryOp} (hop : op.isSupported = true)
    (hbinary : op.binary? = some binary) :
    ∃ f : Number → Number → Number, ∀ (h : Heap) (left right : Value),
      h.binary binary left right = .ok (.number (f (h.toNumber left) (h.toNumber right))) := by
  cases op <;> cases hop <;> cases hbinary <;> exact ⟨_, fun _ _ _ ↦ rfl⟩

namespace Expr

/-- Whether a target is an element, or a name that is bound or stands for nothing otherwise. -/
def IsTargetIn (s : State) : Expr → Prop
  | identifier name _ => s.environment.get? name ≠ none ∨ name ∉ ["undefined", "NaN", "Infinity"]
  | index .. => True
  | _ => False

/-- The value of such a target is what is read at its place. -/
theorem eval_eq_ok_iff_of_isTargetIn {target : Expr} {s t : State} {v : Value}
    (htarget : target.IsTargetIn s) :
    target.eval s = .ok v t ↔ ∃ p, target.place s = .ok p t ∧ p.read t = .ok v t := by
  cases target with
  | identifier name loc =>
    rw [eval, Eval.atNode_eq_ok_iff]
    have hplace : (identifier name loc).place s = .ok (.named name) s := rfl
    have hlookup : Eval.lookup? name s = .ok (s.environment.get? name) s := rfl
    have hvalue : identifierValue name s = .ok v t ↔ s.environment.get? name = some v ∧ s = t := by
      rw [identifierValue, Eval.bind_of_ok hlookup]
      rcases hname : s.environment.get? name with _ | w
      · have hunbound : unboundValue name = .error (.undefinedVariable name) := by
          rcases htarget with hbound | hother
          · exact absurd hname hbound
          · simp only [List.mem_cons, List.not_mem_nil, or_false, not_or] at hother
            rw [unboundValue, if_neg hother.1, if_neg hother.2.1, if_neg hother.2.2]
        simp only [hunbound]
        exact iff_of_false (fun h ↦ by cases h) (fun h ↦ by cases h.1)
      · constructor
        · intro h
          cases h
          exact ⟨rfl, rfl⟩
        · rintro ⟨h, rfl⟩
          cases h
          rfl
    have hread : (Place.named name).read t = .ok v t ↔ t.environment.get? name = some v := by
      have hlookup : Eval.lookup? name t = .ok (t.environment.get? name) t := rfl
      rw [Place.read, Eval.bind_of_ok hlookup]
      rcases t.environment.get? name with _ | w
      · exact iff_of_false (fun h ↦ by cases h) (fun h ↦ by cases h)
      · constructor
        · intro h
          cases h
          rfl
        · intro h
          cases h
          rfl
    rw [hvalue]
    constructor
    · rintro ⟨hname, rfl⟩
      exact ⟨_, hplace, hread.mpr hname⟩
    · rintro ⟨p, hp, hold⟩
      cases hplace.symm.trans hp
      exact ⟨hread.mp hold, rfl⟩
  | index object i loc =>
    rw [eval, Eval.atNode_eq_ok_iff, Eval.bind_eq_ok_iff]
    constructor
    · rintro ⟨p, u, hplace, hread⟩
      obtain rfl := Place.state_of_read hread
      exact ⟨p, hplace, hread⟩
    · rintro ⟨p, hplace, hread⟩
      exact ⟨p, t, hplace, hread⟩
  | literal | binary | logical | unary | update | assign | array | property | call | conditional
  | unsupported => exact htarget.elim

/-- Whether the operands of a compound assignment have values, each evaluated on its own: the right
side has a value, the target a place, and there is something to read at the place. -/
structure Combines (target value : Expr) (s : State) (p : Place) (ofPlace : State) (old : Value)
    (v : Value) (ofValue : State) : Prop where
  value : value.eval s = .ok v ofValue
  place : target.place s = .ok p ofPlace
  read : p.read ofPlace = .ok old ofPlace

/-- Whether an expression writes a number at a place that is found in a state, up to the identities
of arrays that are made on the way. -/
def WritesLike (e : Expr) (s : State) (p : Place) (n : Number) (ofPlace : State) : Prop :=
  ∃ u, s.Kept u ∧ ∃ σ, (∀ id < s.heap.nextId, σ id = id) ∧ ofPlace.Renamed σ u ∧
    e.evalWrite s = .ok (some ⟨p.rename σ, .number n⟩) ((p.rename σ).written (.number n) u)

end Expr

namespace Eval

variable {value : Eval Value} {place : Eval Place} {w : Written} {s u : State}

theorem toAssign_assign_eq_ok_iff : toAssign .assign value place s = .ok w u ↔
    ∃ t, value s = .ok w.value t ∧ place t = .ok w.place u := by
  have hassign : toAssign .assign value place = (do
      let v ← value
      let p ← place
      return ⟨p, v⟩) := rfl
  rw [hassign, bind_eq_ok_iff]
  simp only [bind_pure_eq_ok_iff]
  constructor
  · rintro ⟨v, t, hvalue, p, hplace, rfl⟩
    exact ⟨t, hvalue, hplace⟩
  · rintro ⟨t, hvalue, hplace⟩
    exact ⟨w.value, t, hvalue, w.place, hplace, rfl⟩

theorem toAssign_eq_ok_iff {op : AssignOp} {binary : BinaryOp} (hop : op.isSupported = true)
    (hbinary : op.binary? = some binary) : toAssign op value place s = .ok w u ↔
      ∃ v t old, value s = .ok v t ∧ place t = .ok w.place u ∧ w.place.read u = .ok old u ∧
        u.heap.binary binary old v = .ok w.value := by
  have hcombine : toAssign op value place = (do
      let v ← value
      let p ← place
      let old ← p.read
      let h ← heap
      return ⟨p, ← ofExcept (h.binary binary old v)⟩) := by
    rw [toAssign, if_pos hop, hbinary]
  have hheap : heap u = .ok u.heap u := rfl
  rw [hcombine]
  constructor
  · intro h
    obtain ⟨v, t, hvalue, h⟩ := exists_of_bind_ok h
    obtain ⟨p, r, hplace, h⟩ := exists_of_bind_ok h
    obtain ⟨old, r', hread, hrest⟩ := exists_of_bind_ok h
    obtain rfl := Place.state_of_read hread
    obtain ⟨new, hnew, hrest⟩ := exists_of_ofExcept_bind_ok hrest
    cases hrest
    exact ⟨v, t, old, hvalue, hplace, hread, hnew⟩
  · rintro ⟨v, t, old, hvalue, hplace, hread, hnew⟩
    rw [bind_of_ok hvalue, bind_of_ok hplace, bind_of_ok hread, bind_of_ok hheap, hnew]
    rfl

end Eval

namespace Expr

variable {target value : Expr} {s : State} {op : AssignOp} {binary : BinaryOp}
  {f : Number → Number → Number} {p : Place} {t u : State} {old v : Value}

theorem toLater_of_lt {s : State} {id : ArrayId} (u : State) (hid : id < s.heap.nextId) :
    s.toLater u id = id :=
  moveUp_of_lt _ hid

theorem IsPure.writesLike_compound (htarget : target.IsPure) (hvalue : value.IsPure)
    (hs : s.Closed) (hop : op.isSupported = true) (hbinary : op.binary? = some binary)
    (hf : ∀ (h : Heap) (left right : Value),
      h.binary binary left right = .ok (.number (f (h.toNumber left) (h.toNumber right))))
    (h : Combines target value s p t old v u) (loc : Option Location) :
    (assign op target value loc).WritesLike s p (f (t.heap.toNumber old) (u.heap.toNumber v))
      t := by
  have hu := hvalue.kept_of_eval h.value
  obtain ⟨r, hplace, hr⟩ := htarget.exists_place_later hs hu h.place
  have hur := htarget.kept_of_place hplace
  refine ⟨r, hu.trans hur, s.toLater u, fun id ↦ toLater_of_lt u, hr, ?_⟩
  have hread : Eval.EndsRenamed (s.toLater u) (fun v v' ↦ v' = v.rename (s.toLater u)) (p.read t)
      ((p.rename (s.toLater u)).read r) :=
    Eval.Equivariant.read p t r hr
  rw [h.read] at hread
  obtain ⟨old', r', hread, rfl, -⟩ := hread.exists_of_left
  obtain rfl := Place.state_of_read hread
  refine evalWrite_eq_ok_iff.mpr ⟨⟨_, _⟩, _, ?_, rfl, rfl⟩
  refine (Eval.toAssign_eq_ok_iff hop hbinary).mpr ⟨v, u, _, h.value, hplace, hread, ?_⟩
  rw [hf, hr.heap.toNumber, hur.toNumber (closed_of_eval hs h.value) (knows_of_eval hs h.value)]

theorem IsPure.writesLike_plain (htarget : target.IsPure) (hvalue : value.IsPure)
    (hs : s.Closed) (hin : target.IsTargetIn s)
    (hf : ∀ (h : Heap) (left right : Value),
      h.binary binary left right = .ok (.number (f (h.toNumber left) (h.toNumber right))))
    (h : Combines target value s p t old v u) (loc loc' : Option Location) :
    (assign .assign target (.binary binary target value loc) loc').WritesLike s p
      (f (t.heap.toNumber old) (u.heap.toNumber v)) t := by
  have heval : target.eval s = .ok old t :=
    (eval_eq_ok_iff_of_isTargetIn hin).mpr ⟨p, h.place, h.read⟩
  have ht := htarget.kept_of_eval heval
  obtain ⟨r, hsecond, hr⟩ := hvalue.exists_eval_later hs ht h.value
  have htr := hvalue.kept_of_eval hsecond
  have hsr := ht.trans htr
  obtain ⟨r', hplace, hr'⟩ := htarget.exists_place_later hs hsr h.place
  refine ⟨r', hsr.trans (htarget.kept_of_place hplace), s.toLater r, fun id ↦ toLater_of_lt r, hr',
    ?_⟩
  refine evalWrite_eq_ok_iff.mpr ⟨⟨_, _⟩, _, ?_, rfl, rfl⟩
  refine Eval.toAssign_assign_eq_ok_iff.mpr ⟨r, ?_, hplace⟩
  have hheap : Eval.heap r = .ok r.heap r := rfl
  rw [eval, Eval.atNode_eq_ok_iff, Eval.bind_of_ok heval, Eval.bind_of_ok hsecond,
    Eval.bind_of_ok hheap, hf, hr.heap.toNumber,
    htr.toNumber (closed_of_eval hs heval) (knows_of_eval hs heval)]
  rfl

/-- What a compound assignment needs to succeed. -/
theorem IsPure.exists_combines_of_compound (htarget : target.IsPure) (hvalue : value.IsPure)
    (hs : s.Closed) (hop : op.isSupported = true) (hbinary : op.binary? = some binary)
    {loc : Option Location} {w : Value} {r : State}
    (h : (assign op target value loc).eval s = .ok w r) :
    ∃ p t old v u, Combines target value s p t old v u := by
  rw [eval_assign, Eval.bind_eq_ok_iff] at h
  obtain ⟨written, r', hnode, -⟩ := h
  obtain ⟨v, u, old, heval, hplace, hread, -⟩ :=
    (Eval.toAssign_eq_ok_iff hop hbinary).mp (Eval.atNode_eq_ok_iff.mp hnode)
  obtain ⟨p, t, hplace, hp, ht⟩ :=
    htarget.exists_place_earlier hs (hvalue.kept_of_eval heval) hplace
  have hold : Eval.EndsRenamed (s.toLater u) (fun v v' ↦ v' = v.rename (s.toLater u)) (p.read t)
      ((p.rename (s.toLater u)).read r') :=
    Eval.Equivariant.read p t r' ht
  rw [← hp, hread] at hold
  obtain ⟨old, t', hread, -, -⟩ := hold.exists_of_right
  obtain rfl := Place.state_of_read hread
  exact ⟨p, t', old, v, u, heval, hplace, hread⟩

/-- What a plain assignment needs to succeed. -/
theorem IsPure.exists_combines_of_plain (htarget : target.IsPure) (hvalue : value.IsPure)
    (hs : s.Closed) (hin : target.IsTargetIn s) {loc loc' : Option Location} {w : Value} {r : State}
    (h : (assign .assign target (.binary binary target value loc) loc').eval s = .ok w r) :
    ∃ p t old v u, Combines target value s p t old v u := by
  rw [eval_assign, Eval.bind_eq_ok_iff] at h
  obtain ⟨written, r', hnode, -⟩ := h
  obtain ⟨r'', hsum, -⟩ := Eval.toAssign_assign_eq_ok_iff.mp (Eval.atNode_eq_ok_iff.mp hnode)
  rw [eval, Eval.atNode_eq_ok_iff] at hsum
  obtain ⟨old, t, heval, hsum⟩ := Eval.exists_of_bind_ok hsum
  obtain ⟨v', u', hsecond, -⟩ := Eval.exists_of_bind_ok hsum
  obtain ⟨p, hplace, hread⟩ := (eval_eq_ok_iff_of_isTargetIn hin).mp heval
  obtain ⟨v, u, hfirst⟩ := hvalue.exists_eval_earlier hs (htarget.kept_of_eval heval) hsecond
  exact ⟨p, t, old, v, u, hfirst, hplace, hread⟩

end Expr

/-! ## Agreement -/

/-- Whether two runs from a state agree: both succeed with the same result, the same variables, the
same history and the same in all arrays of the state, or both fail and leave everything as it is. -/
inductive Eval.AgreeFrom {α : Type} (s : State) :
    EStateM.Result Failure State α → EStateM.Result Failure State α → Prop
  | ok {a : α} {t t' : State} (environment : t'.environment = t.environment)
    (history : t'.history = t.history)
    (elements : ∀ id < s.heap.nextId, t'.heap.elements id = t.heap.elements id) :
    AgreeFrom s (.ok a t) (.ok a t')
  | error {failure failure' : Failure} {t t' : State} (ht : s.Kept t) (ht' : s.Kept t') :
    AgreeFrom s (.error failure t) (.error failure' t')

namespace Expr

theorem eval_of_evalWrite {op : AssignOp} {target value : Expr} {loc : Option Location}
    {s t : State} {w : Written}
    (h : (assign op target value loc).evalWrite s = .ok (some w) t) :
    (assign op target value loc).eval s = .ok w.value t := by
  obtain ⟨v, heval⟩ := exists_evalWrite_iff.mp ⟨_, h⟩
  obtain ⟨-, -, p, -, -, hwrite, -⟩ := changes_of_assign heval
  cases hwrite.symm.trans h
  exact heval

/-- What is written alike changes the same. -/
theorem WritesLike.agree {e e' : Expr} {s t : State} {p : Place} {n : Number}
    (h : e.WritesLike s p n t) (h' : e'.WritesLike s p n t) :
    ∃ w w' u u', e.evalWrite s = .ok (some w) u ∧ e'.evalWrite s = .ok (some w') u' ∧
      w.value = .number n ∧ w'.value = .number n ∧ w'.details u'.heap = w.details u.heap ∧
      u'.environment = u.environment ∧ u'.history = u.history ∧
      ∀ id < s.heap.nextId, u'.heap.elements id = u.heap.elements id := by
  obtain ⟨r, hr, σ, hσ, hrenamed, hwrite⟩ := h
  obtain ⟨r', hr', σ', hσ', hrenamed', hwrite'⟩ := h'
  refine ⟨_, _, _, _, hwrite, hwrite', rfl, rfl, ?_, ?_⟩
  · have hdetails := Written.details_rename (Place.renamed_written hrenamed p n).heap p (.number n)
    have hdetails' :=
      Written.details_rename (Place.renamed_written hrenamed' p n).heap p (.number n)
    exact hdetails'.trans hdetails.symm
  · cases p with
    | named name =>
      refine ⟨?_, hr'.history.trans hr.history.symm, fun id hid ↦ ?_⟩
      · rw [Place.rename, Place.rename, Place.written, Place.written, hr.environment,
          hr'.environment]
      · exact (hr'.heap.elements hid).symm.trans (hr.heap.elements hid)
    | slot label id i =>
      refine ⟨hr'.environment.trans hr.environment.symm, hr'.history.trans hr.history.symm,
        fun other hother ↦ ?_⟩
      -- the array is the same one if it is one that the first state has
      have hiff : σ' id = other ↔ σ id = other := by
        constructor
        · intro hid
          rw [hrenamed'.heap.injective (hid.trans (hσ' other hother).symm), hσ other hother]
        · intro hid
          rw [hrenamed.heap.injective (hid.trans (hσ other hother).symm), hσ' other hother]
      have helements : r'.heap.elements other = r.heap.elements other :=
        (hr'.heap.elements hother).symm.trans (hr.heap.elements hother)
      change (r'.heap.write (σ' id) i (.number n)).elements other =
        (r.heap.write (σ id) i (.number n)).elements other
      rw [Heap.elements_write, Heap.elements_write]
      by_cases hid : σ id = other
      · rw [if_pos hid, if_pos (hiff.mpr hid), helements]
      · rw [if_neg hid, if_neg (mt hiff.mp hid), helements]

end Expr

namespace Stmt

variable {e : Expr} {s t : State}

theorem exec_expression_of_evalWrite {w : Written} (h : e.evalWrite s = .ok (some w) t)
    (loc : Option Location) (config : Config) :
    (expression e loc).exec config s = .ok () { t with
      history := t.history.record ⟨loc.map (·.start.line), w.details t.heap⟩ } := by
  rw [exec, effect_expression]
  refine Eval.atNode_of_ok ((Eval.bind_of_ok h).trans ?_)
  rfl

/-- A statement fails if its expression does, in the same state. -/
theorem exec_expression_of_error {failure : Failure} (h : e.eval s = .error failure t)
    (loc : Option Location) (config : Config) :
    ∃ failure', (expression e loc).exec config s = .error failure' t := by
  have hend : e.evalWrite.endState s = t :=
    (e.endState_evalWrite s).trans (Eval.endState_of_error h)
  rcases hwrite : e.evalWrite s with ⟨w, u⟩ | ⟨failure', u⟩
  · obtain ⟨v, hok⟩ := Expr.exists_evalWrite_iff.mp ⟨w, hwrite⟩
    cases hok.symm.trans h
  · rw [Eval.endState_of_error hwrite] at hend
    subst hend
    rw [exec, effect_expression, Eval.atNode, Eval.bind_of_error hwrite]
    exact ⟨_, rfl⟩

end Stmt

namespace Expr

variable {target value : Expr} {s : State} {op : AssignOp} {binary : BinaryOp}

theorem mem_children_of_mem_targetOperands {o : Expr} (ho : o ∈ target.targetOperands) :
    o ∈ target.children := by
  cases target with
  | index object i loc =>
    rw [targetOperands] at ho
    split at ho
    · rw [List.mem_singleton.mp ho]
      exact List.mem_cons_of_mem _ List.mem_cons_self
    · exact ho
  | literal | identifier | binary | logical | unary | update | assign | array | property | call
  | conditional | unsupported => exact absurd ho List.not_mem_nil

/-- An assignment of pure operands that fails leaves everything as it is. -/
theorem IsPure.kept_of_assign_error (htarget : target.IsPure) (hvalue : value.IsPure)
    {loc : Option Location} {failure : Failure} {t : State}
    (h : (assign op target value loc).eval s = .error failure t) : s.Kept t := by
  obtain ⟨evaluated, hoperands, -, -, hkept⟩ := exists_inTurn_of_eval_error rfl h
  refine hkept fun o ho ↦ ?_
  rcases List.mem_cons.mp (hoperands.subset ho) with rfl | ho
  · exact hvalue
  · exact htarget.child (mem_children_of_mem_targetOperands ho)

theorem isPure_binary (htarget : target.IsPure) (hvalue : value.IsPure) (loc : Option Location) :
    (Expr.binary binary target value loc).IsPure := by
  intro n hn
  rw [nodes_eq_cons] at hn
  rcases List.mem_cons.mp hn with rfl | hn
  · rfl
  · obtain ⟨c, hc, hinside⟩ := List.mem_flatMap.mp hn
    rcases List.mem_pair.mp hc with rfl | rfl
    · exact htarget n hinside
    · exact hvalue n hinside

/-- A compound assignment of pure operands does what the plain assignment of the combined operands
does. -/
theorem compound_agrees (hop : op.isSupported = true) (hbinary : op.binary? = some binary)
    (htarget : target.IsPure) (hvalue : value.IsPure) (hs : s.Closed)
    (hin : target.IsTargetIn s) (loc loc' loc'' : Option Location) :
    Eval.AgreeFrom s ((assign op target value loc).eval s)
        ((assign .assign target (.binary binary target value loc') loc'').eval s) ∧
      ∀ config whole, Eval.AgreeFrom s
        ((Stmt.expression (assign op target value loc) whole).exec config s)
        ((Stmt.expression (assign .assign target (.binary binary target value loc') loc'')
          whole).exec config s) := by
  obtain ⟨f, hf⟩ := AssignOp.exists_combine hop hbinary
  by_cases hcombines : ∃ p t old v u, Combines target value s p t old v u
  · obtain ⟨p, t, old, v, u, h⟩ := hcombines
    obtain ⟨w, w', r, r', hwrite, hwrite', hw, hw', hdetails, henvironment, hhistory, helements⟩ :=
      (htarget.writesLike_compound hvalue hs hop hbinary hf h loc).agree
        (htarget.writesLike_plain hvalue hs hin hf h loc' loc'')
    refine ⟨?_, fun config whole ↦ ?_⟩
    · rw [eval_of_evalWrite hwrite, eval_of_evalWrite hwrite', hw, hw']
      exact .ok henvironment hhistory helements
    · rw [Stmt.exec_expression_of_evalWrite hwrite, Stmt.exec_expression_of_evalWrite hwrite',
        hdetails, hhistory]
      exact .ok henvironment rfl helements
  · rcases h : (assign op target value loc).eval s with ⟨w, r⟩ | ⟨failure, r⟩
    · exact absurd (htarget.exists_combines_of_compound hvalue hs hop hbinary h) hcombines
    · rcases h' : (assign .assign target (.binary binary target value loc') loc'').eval s with
        ⟨w', r'⟩ | ⟨failure', r'⟩
      · exact absurd (htarget.exists_combines_of_plain hvalue hs hin h') hcombines
      · have hr := htarget.kept_of_assign_error hvalue h
        have hr' := htarget.kept_of_assign_error (isPure_binary htarget hvalue loc') h'
        refine ⟨.error hr hr', fun config whole ↦ ?_⟩
        obtain ⟨inner, hexec⟩ := Stmt.exec_expression_of_error h whole config
        obtain ⟨inner', hexec'⟩ := Stmt.exec_expression_of_error h' whole config
        rw [hexec, hexec']
        exact .error hr hr'

end Expr

/-! ## Steps -/

/-- The operator of the assignment that a step is. -/
def UpdateOp.toAssign : UpdateOp → AssignOp
  | increment => .add
  | decrement => .subtract

/-- Whether two runs end with the same result and in the same state, or with the same cause of
failure and in the same state. -/
inductive Eval.EndsSame {α : Type} :
    EStateM.Result Failure State α → EStateM.Result Failure State α → Prop
  | ok (a : α) (t : State) : EndsSame (.ok a t) (.ok a t)
  | error {failure failure' : Failure} (hcause : failure'.cause = failure.cause) (t : State) :
    EndsSame (.error failure t) (.error failure' t)

namespace Eval.EndsSame

variable {α β : Type} {m m' : Eval α} {k : α → Eval β} {s : State}

theorem refl (r : EStateM.Result Failure State α) : EndsSame r r := by
  cases r with
  | ok a t => exact .ok a t
  | error failure t => exact .error rfl t

theorem bind (h : EndsSame (m s) (m' s)) : EndsSame ((m >>= k) s) ((m' >>= k) s) := by
  rcases hm : m s with ⟨a, t⟩ | ⟨failure, t⟩
  · rw [hm] at h
    rcases hm' : m' s with ⟨a', t'⟩ | ⟨failure', t'⟩
    · rw [hm'] at h
      cases h
      rw [bind_of_ok hm, bind_of_ok hm']
      exact refl _
    · rw [hm'] at h
      cases h
  · rw [hm] at h
    rcases hm' : m' s with ⟨a', t'⟩ | ⟨failure', t'⟩
    · rw [hm'] at h
      cases h
    · rw [hm'] at h
      rw [bind_of_error hm, bind_of_error hm']
      cases h with
      | error hcause => exact .error hcause t

/-- The nodes that a failure gets as its place do not change its cause. -/
theorem atNode (h : EndsSame (m s) (m' s)) (nodeType nodeType' : String)
    (line line' : Option UInt32) :
    EndsSame (Eval.atNode nodeType line m s) (Eval.atNode nodeType' line' m' s) := by
  rw [Eval.atNode, Eval.atNode]
  generalize m s = r at h
  generalize m' s = r' at h
  cases h with
  | ok a t => exact .ok a t
  | error hcause t =>
    refine .error ?_ t
    exact hcause

end Eval.EndsSame

namespace Expr

variable (op : UpdateOp) (target : Expr) (loc loc' loc'' : Option Location) (s : State)

/-- The new value is made by the operator of the assignment. -/
theorem binary_one (h : Heap) (old : Value) : ∃ binary, op.toAssign.binary? = some binary ∧
    h.binary binary old (.number 1.0) = .ok (h.step op old) := by
  have hone : h.toNumber (.number 1.0) = 1.0 := by rw [Heap.toNumber, Heap.toNumberIn]
  cases op with
  | increment =>
    refine ⟨.add, rfl, ?_⟩
    rw [Heap.binary, hone, Heap.step]
  | decrement =>
    refine ⟨.subtract, rfl, ?_⟩
    rw [Heap.binary, hone, Heap.step]

/-- What is to be written is the same as if 1 was added or subtracted. -/
theorem toAssign_one : Eval.toAssign op.toAssign (literal (.number 1.0) none loc').eval target.place
    = (do
      let x ← Eval.toStep op true target.place
      return x.2) := by
  have hone : (literal (.number 1.0) none loc').eval = pure (.number 1.0) := rfl
  have hop : op.toAssign.isSupported = true := by cases op <;> rfl
  rw [Eval.toAssign, if_pos hop, hone, Eval.toStep]
  simp only [bind_assoc, pure_bind]
  refine bind_congr fun p ↦ ?_
  obtain ⟨binary, hbinary, -⟩ := binary_one op .empty .undefined
  rw [hbinary]
  refine bind_congr fun old ↦ bind_congr fun h ↦ ?_
  obtain ⟨binary', hbinary', hstep⟩ := binary_one op h old
  cases hbinary.symm.trans hbinary'
  rw [hstep]
  rfl

/-- Whether the value of a step is the old or the new one makes no difference to the write. -/
theorem evalWrite_update_eq (isBefore : Bool) : (update op target isBefore loc).evalWrite = (do
    let w ← Eval.atNode "UpdateExpression" (loc.map (·.start.line)) (do
      let x ← Eval.toStep op true target.place
      return x.2)
    return some (← w.place.write w.value)) := by
  have hwritten : (do
      let x ← Eval.toStep op isBefore target.place
      return x.2) = (do
      let x ← Eval.toStep op true target.place
      return x.2) := by
    simp only [Eval.toStep, bind_assoc, pure_bind]
  have hnode : Eval.atNode "UpdateExpression" (loc.map (·.start.line)) (do
      let x ← Eval.toStep op isBefore target.place
      return x.2) = (do
      let x ← Eval.atNode "UpdateExpression" (loc.map (·.start.line))
        (Eval.toStep op isBefore target.place)
      return x.2) :=
    Eval.atNode_bind _ _ _ fun x s ↦ ⟨x.2, s, rfl⟩
  rw [← hwritten, evalWrite_update, hnode, bind_assoc]
  simp only [pure_bind]

/-- The value of a step that gives the new value is what it writes. -/
theorem eval_update_before : (update op target true loc).eval = (do
    let w ← Eval.atNode "UpdateExpression" (loc.map (·.start.line)) (do
      let x ← Eval.toStep op true target.place
      return x.2)
    return (← w.place.write w.value).value) := by
  have hvalue (p : Place) (v : Value) : (do
      let w ← p.write v
      return w.value) = (do
      let _ ← p.write v
      return v) := by
    cases p <;> rfl
  have hnode := Eval.atNode_bind "UpdateExpression" (loc.map (·.start.line)) (do
      let x ← Eval.toStep op true target.place
      return x.2) (k := fun w ↦ do return (← w.place.write w.value).value) fun w s ↦
    ⟨_, _, Eval.bind_of_ok (w.place.write_eq w.value s)⟩
  rw [eval, Eval.step_eq, ← hnode]
  refine congrArg (Eval.atNode _ _) ?_
  simp only [Eval.toStep, bind_assoc, pure_bind, hvalue, if_true]

/-- A step writes what the compound assignment of 1 writes. -/
theorem evalWrite_step (isBefore : Bool) :
    Eval.EndsSame ((assign op.toAssign target (literal (.number 1.0) none loc') loc).evalWrite s)
      ((update op target isBefore loc'').evalWrite s) := by
  rw [evalWrite_assign, toAssign_one, evalWrite_update_eq]
  exact ((Eval.EndsSame.refl _).atNode _ _ _ _).bind

/-- A step that gives the new value has the value of the compound assignment of 1. -/
theorem eval_step :
    Eval.EndsSame ((assign op.toAssign target (literal (.number 1.0) none loc') loc).eval s)
      ((update op target true loc'').eval s) := by
  rw [eval_assign, toAssign_one, eval_update_before]
  exact ((Eval.EndsSame.refl _).atNode _ _ _ _).bind

end Expr

/-- As statements they do the same and record the same. -/
theorem Stmt.exec_step (op : UpdateOp) (target : Expr) (isBefore : Bool)
    (loc loc' loc'' whole : Option Location) (config : Config) (s : State) :
    Eval.EndsSame
      ((expression (.assign op.toAssign target (.literal (.number 1.0) none loc') loc) whole).exec
        config s)
      ((expression (.update op target isBefore loc'') whole).exec config s) := by
  rw [exec, exec, effect_expression, effect_expression]
  exact (Expr.evalWrite_step op target loc loc' loc'' s isBefore).bind.atNode _ _ _ _

namespace Eval

variable {op : UpdateOp} {place : Eval Place} {s t u : State}

theorem toStep_of_ok {p : Place} {old : Value} (hplace : place s = .ok p u)
    (hread : p.read u = .ok old u) (isBefore : Bool) : toStep op isBefore place s =
      .ok (if isBefore then u.heap.step op old else .number (u.heap.toNumber old),
        ⟨p, u.heap.step op old⟩) u := by
  rw [toStep, bind_of_ok hplace, bind_of_ok hread]
  rfl

/-- A step fails for the same cause whichever value it is to give. -/
theorem toStep_error {isBefore : Bool} {failure : Failure}
    (h : toStep op isBefore place s = .error failure t) (isBefore' : Bool) :
    toStep op isBefore' place s = .error failure t := by
  rcases hplace : place s with ⟨p, u⟩ | ⟨inner, u⟩
  · rcases hread : p.read u with ⟨old, u'⟩ | ⟨inner, u'⟩
    · obtain rfl := Place.state_of_read hread
      cases (toStep_of_ok hplace hread isBefore).symm.trans h
    · rw [toStep, bind_of_ok hplace, bind_of_error hread] at h ⊢
      exact h
  · rw [toStep, bind_of_error hplace] at h ⊢
    exact h

end Eval

namespace Expr

variable {op : UpdateOp} {target : Expr} {s t : State}

/-- A step that gives the old value gives the number of it. -/
theorem eval_update_after {v : Value} {loc : Option Location}
    (h : (update op target true loc).eval s = .ok v t) (loc' : Option Location) :
    ∃ p u old, target.place s = .ok p u ∧ p.read u = .ok old u ∧
      (update op target false loc').eval s = .ok (.number (u.heap.toNumber old)) t := by
  rw [eval_update, Eval.bind_eq_ok_iff] at h
  obtain ⟨x, u, hnode, hwrite⟩ := h
  obtain ⟨p, r, hplace, hrest⟩ := Eval.exists_of_bind_ok (Eval.atNode_eq_ok_iff.mp hnode)
  obtain ⟨old, r', hread, hstep⟩ := Eval.exists_of_bind_ok hrest
  obtain rfl := Place.state_of_read hread
  cases hstep
  refine ⟨p, _, old, hplace, hread, ?_⟩
  rw [eval_update, Eval.bind_of_ok (Eval.atNode_of_ok (Eval.toStep_of_ok hplace hread false))]
  rw [Eval.bind_of_ok (p.write_eq _ _)] at hwrite ⊢
  cases hwrite
  rfl

theorem eval_update_after_error {failure : Failure} {loc : Option Location}
    (h : (update op target true loc).eval s = .error failure t) (loc' : Option Location) :
    ∃ failure', (update op target false loc').eval s = .error failure' t ∧
      failure'.cause = failure.cause := by
  rw [eval_update] at h
  obtain ⟨inner, hinner, hfailure⟩ := Eval.exists_error_of_bind h fun x s ↦
    ⟨_, _, Eval.bind_of_ok (x.2.place.write_eq x.2.value s)⟩
  refine ⟨inner.atNode "UpdateExpression" (loc'.map (·.start.line)), ?_, ?_⟩
  swap
  · rw [hfailure, Failure.cause_atNode, Failure.cause_atNode]
  have hnode : Eval.atNode "UpdateExpression" (loc'.map (·.start.line))
      (Eval.toStep op false target.place) s =
        .error (inner.atNode "UpdateExpression" (loc'.map (·.start.line))) t := by
    rw [Eval.atNode, Eval.toStep_error hinner]
  rw [eval_update, Eval.bind_of_error hnode]

/-- **Compound assignments and steps agree with plain assignments.** In a state with no unknown
arrays, let target and right side be pure, and let the target be an element or a name that has no
value of its own. Then `target op= value` and `target = target op value` either both fail and leave
everything as it is, or both succeed with the same value and make the same change to the variables
and to all arrays that were there, and as statements record the same.

In any state, and for any target, a step does what the compound assignment of 1 does, and records
the same as a statement. Its value is the new one, or the number of the old one. -/
theorem assignments_agree (s : State) :
    (∀ op binary target value, op.isSupported = true → op.binary? = some binary →
      target.IsPure → value.IsPure → s.Closed → target.IsTargetIn s → ∀ loc loc' loc'',
        let compound := assign op target value loc
        let plain := assign .assign target (.binary binary target value loc') loc''
        Eval.AgreeFrom s (compound.eval s) (plain.eval s) ∧
          ∀ config whole, Eval.AgreeFrom s ((Stmt.expression compound whole).exec config s)
            ((Stmt.expression plain whole).exec config s)) ∧
      ∀ op target loc loc' loc'',
        let compound := assign op.toAssign target (literal (.number 1.0) none loc') loc
        let before := update op target true loc''
        let after := update op target false loc''
        Eval.EndsSame (compound.eval s) (before.eval s) ∧
          (∀ v t, before.eval s = .ok v t →
            ∃ p u old, target.place s = .ok p u ∧ p.read u = .ok old u ∧
              after.eval s = .ok (.number (u.heap.toNumber old)) t) ∧
          (∀ failure t, before.eval s = .error failure t →
            ∃ failure', after.eval s = .error failure' t ∧ failure'.cause = failure.cause) ∧
          ∀ isBefore config whole,
            Eval.EndsSame ((Stmt.expression compound whole).exec config s)
              ((Stmt.expression (update op target isBefore loc'') whole).exec config s) := by
  refine ⟨?_, ?_⟩
  · intro op binary target value hop hbinary htarget hvalue hs hin loc loc' loc''
    exact compound_agrees hop hbinary htarget hvalue hs hin loc loc' loc''
  · intro op target loc loc' loc''
    refine ⟨eval_step op target loc loc' loc'' s, fun v t h ↦ eval_update_after h loc'',
      fun failure t h ↦ eval_update_after_error h loc'', fun isBefore config whole ↦ ?_⟩
    exact Stmt.exec_step op target isBefore loc loc' loc'' whole config s

/-- `a[1] += [2]` -/
def addToSlot : Expr :=
  .ofAssign .add (.ofIndex (.ofName "a") (.ofNumber 1.0)) (.ofElements [.ofNumber 2.0])

/-- `a[1] = a[1] + [2]` -/
def assignSum : Expr :=
  .ofAssign .assign (.ofIndex (.ofName "a") (.ofNumber 1.0))
    (.ofBinary .add (.ofIndex (.ofName "a") (.ofNumber 1.0)) (.ofElements [.ofNumber 2.0]))

/-- Both write 3 to the slot, and both make an array that is not used again. -/
theorem assignments_agree_addToSlot : State.selfContaining.Closed ∧
    Eval.AgreeFrom .selfContaining (addToSlot.eval .selfContaining)
      (assignSum.eval .selfContaining) ∧
    ∃ t, addToSlot.eval .selfContaining = .ok (.number 3.0) t := by
  have htarget : (ofIndex (ofName "a") (ofNumber 1.0)).IsPure := by decide +kernel
  have hvalue : (ofElements [ofNumber 2.0]).IsPure := by decide +kernel
  have hsum : addToSlot.eval.succeedsIn .selfContaining (fun v _ ↦ v == .number 3.0) = true := by
    decide +kernel
  obtain ⟨v, t, hsum, hv⟩ := Eval.exists_of_succeedsIn hsum
  refine ⟨State.closed_selfContaining, ?_, t, hsum.trans ?_⟩
  · exact ((assignments_agree .selfContaining).1 .add .add _ _ rfl rfl htarget hvalue
      State.closed_selfContaining trivial none none none).1
  · rw [eq_of_beq hv]

end Expr

end ScriptTrace
