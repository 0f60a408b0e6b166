import ScriptTrace.Proofs.FiniteIntegers
import ScriptTrace.Proofs.ReadBack

/-!
# What is decoded can be written

Whatever the decoder gives is writable: it is read back from its plain spelling, even if it was
decoded from a different one. The rules say what the combinators of the decoder give at most; the
decoder of trees is followed by its own recursion, on the size of the value.
-/

namespace ScriptTrace

namespace Json

/-- Whether all that a decoder gives has a property. -/
def Yields {α : Type} (Q : α → Prop) (m : Decoded α) : Prop := ∀ a, m = .ok a → Q a

namespace Yields

variable {α β : Type} {P Q : α → Prop} {j : Json} {name : String}

theorem mono {m : Decoded α} (h : Yields P m) (hPQ : ∀ a, P a → Q a) : Yields Q m :=
  fun a ha ↦ hPQ a (h a ha)

theorem any (m : Decoded α) : Yields (fun _ ↦ True) m := fun _ _ ↦ trivial

theorem pure {a : α} (h : Q a) : Yields Q (Pure.pure a) := by
  intro b hb
  rwa [← Except.ok.inj hb]

theorem bind {m : Decoded α} {k : α → Decoded β} {R : β → Prop} (hm : Yields P m)
    (hk : ∀ a, P a → Yields R (k a)) : Yields R (m >>= k) := by
  intro b hb
  cases hma : m with
  | error fault =>
    rw [hma] at hb
    cases hb
  | ok a =>
    rw [hma] at hb
    exact hk a (hm a hma) b hb

/-- Go on with what may be anything. -/
theorem skip {m : Decoded α} {k : α → Decoded β} {R : β → Prop} (hk : ∀ a, Yields R (k a)) :
    Yields R (m >>= k) :=
  (any m).bind fun a _ ↦ hk a

theorem map {m : Decoded α} {f : α → β} {R : β → Prop} (hm : Yields P m)
    (hf : ∀ a, P a → R (f a)) : Yields R (f <$> m) := by
  rw [map_eq_pure_bind]
  exact hm.bind fun a ha ↦ pure (hf a ha)

/-- A fault gives nothing. -/
theorem fault (fault : Fault) : Yields Q (throw fault) := by
  intro a ha
  cases ha

/-- What is not there has every property. -/
theorem absent : Yields (fun o ↦ ∀ a, o = some a → Q a) (Pure.pure none) := by
  refine pure fun a ha ↦ ?_
  cases ha

theorem field {d : (value : Json) → sizeOf value < sizeOf j → Decoded α}
    (hd : ∀ v h, Yields Q (d v h)) : Yields (fun o ↦ ∀ a, o = some a → Q a) (j.field name d) := by
  rw [Json.field]
  split
  · exact absent
  · exact (hd _ _).map fun a ha b hb ↦ Option.some.inj hb ▸ ha

theorem nullable {d : (value : Json) → sizeOf value ≤ sizeOf j → Decoded α}
    (hd : ∀ v h, Yields Q (d v h)) : Yields (fun o ↦ ∀ a, o = some a → Q a) (j.nullable d) := by
  rw [Json.nullable.eq_def]
  split
  · exact absent
  · exact (hd _ _).map fun a ha b hb ↦ Option.some.inj hb ▸ ha

theorem optionalField {d : (value : Json) → sizeOf value < sizeOf j → Decoded α}
    (hd : ∀ v h, Yields Q (d v h)) :
    Yields (fun o ↦ ∀ a, o = some a → Q a) (j.optionalField name d) := by
  refine (field fun v h ↦ nullable fun v' h' ↦ hd v' _).map fun o ho a ha ↦ ?_
  rw [Option.join_eq_some_iff] at ha
  exact ho _ ha a rfl

theorem required {o : Option α} (h : ∀ a, o = some a → Q a) :
    Yields Q (Json.required name o) := by
  cases o with
  | none => exact fault _
  | some a => exact pure (h a rfl)

theorem requiredPart {count position : Nat} {o : Option α} (h : ∀ a, o = some a → Q a) :
    Yields Q (Json.requiredPart name count position o) := by
  cases o with
  | none => exact fault _
  | some a => exact pure (h a rfl)

theorem part {position : Nat} {d : (value : Json) → sizeOf value < sizeOf j → Decoded α}
    (hd : ∀ v h, Yields Q (d v h)) :
    Yields (fun o ↦ ∀ a, o = some a → Q a) (j.part position d) := by
  rw [Json.part.eq_def]
  split
  · split
    · exact absent
    · exact (hd _ _).map fun a ha b hb ↦ Option.some.inj hb ▸ ha
  · exact absent

theorem mapM {β : Type} {d : β → Decoded α} {xs : List β} (hd : ∀ x ∈ xs, Yields Q (d x)) :
    Yields (fun as ↦ ∀ a ∈ as, Q a) (xs.mapM d) := by
  induction xs with
  | nil => exact pure (List.forall_mem_nil _)
  | cons x rest ih =>
    rw [List.mapM_cons]
    exact (hd x List.mem_cons_self).bind fun a ha ↦
      (ih fun y hy ↦ hd y (List.mem_cons_of_mem _ hy)).bind fun as has ↦
        pure (List.forall_mem_cons.mpr ⟨ha, has⟩)

theorem elements {d : (value : Json) → sizeOf value < sizeOf j → Decoded α}
    (hd : ∀ v h, Yields Q (d v h)) : Yields (fun as ↦ ∀ a ∈ as, Q a) (j.elements d) := by
  rw [Json.elements.eq_def]
  split
  · exact mapM fun x _ ↦ hd _ _
  · exact fault _

/-- A node of a type has the type as its tag. -/
theorem nodeType : Yields (fun tag ↦ j.get? "type" = some (string tag)) j.nodeType := by
  rw [Json.nodeType]
  split
  · exact fault _
  · rename_i tag htag
    exact pure htag
  · exact fault _

end Yields

end Json

theorem LiteralValue.isWritable_ofJson (j : Json) : (ofJson j).isWritable = true := by
  cases j with
  | number n => exact n.isFinite_toNumber
  | null | bool | string | array | object => rfl

namespace Expr

open Json

/-- A decoded expression is writable and has the type that the value says. -/
theorem ofJson_yields (j : Json) :
    Yields (fun e ↦ e.isWritable = true ∧ j.get? "type" = some (.string e.nodeType))
      (ofJson j) := by
  rw [ofJson]
  refine Yields.nodeType.bind fun tag htag ↦ ?_
  -- what is in the value is smaller, so the recursion applies to it
  have hpart : ∀ v : Json, sizeOf v < sizeOf j → Yields (fun e ↦ e.isWritable = true) (ofJson v) :=
    fun v _ ↦ (ofJson_yields v).mono fun e ↦ And.left
  split
  · refine .skip fun loc ↦ .skip fun regex ↦ .pure ⟨?_, htag⟩
    cases j.get? "value" with
    | none => rfl
    | some v => exact LiteralValue.isWritable_ofJson v
  · exact .skip fun loc ↦ .skip fun name ↦ .skip fun name ↦ .pure ⟨rfl, htag⟩
  · exact (Yields.field hpart).bind fun left hleft ↦ .skip fun loc ↦ .skip fun op ↦
      (Yields.field hpart).bind fun right hright ↦ .skip fun op ↦
      (Yields.required hleft).bind fun left hl ↦ (Yields.required hright).bind fun right hr ↦
      .pure ⟨Bool.and_eq_true_iff.mpr ⟨hl, hr⟩, htag⟩
  · exact (Yields.field hpart).bind fun left hleft ↦ .skip fun loc ↦ .skip fun op ↦
      (Yields.field hpart).bind fun right hright ↦ .skip fun op ↦
      (Yields.required hleft).bind fun left hl ↦ (Yields.required hright).bind fun right hr ↦
      .pure ⟨Bool.and_eq_true_iff.mpr ⟨hl, hr⟩, htag⟩
  · exact (Yields.field hpart).bind fun operand hoperand ↦ .skip fun loc ↦ .skip fun op ↦
      .skip fun op ↦ (Yields.required hoperand).bind fun operand ho ↦ .pure ⟨ho, htag⟩
  · exact (Yields.field hpart).bind fun target htarget ↦ .skip fun loc ↦ .skip fun op ↦
      .skip fun isBefore ↦ .skip fun op ↦ (Yields.required htarget).bind fun target ht ↦
      .skip fun isBefore ↦ .pure ⟨ht, htag⟩
  · exact (Yields.field hpart).bind fun target htarget ↦ .skip fun loc ↦ .skip fun op ↦
      (Yields.field hpart).bind fun value hvalue ↦ .skip fun op ↦
      (Yields.required htarget).bind fun target ht ↦ (Yields.required hvalue).bind fun value hv ↦
      .pure ⟨Bool.and_eq_true_iff.mpr ⟨ht, hv⟩, htag⟩
  · refine (Yields.field fun v hv ↦ .elements fun element helement ↦ .nullable fun e he ↦
      hpart e (by omega)).bind fun elements helements ↦ .skip fun loc ↦
      (Yields.required helements).bind fun elements helements ↦ .pure ⟨?_, htag⟩
    exact elementsAreWritable_iff.mpr fun e he ↦ helements _ he e rfl
  · refine .skip fun computed ↦ .skip fun loc ↦ (Yields.field hpart).bind fun object hobject ↦
      (Yields.field hpart).bind fun name hname ↦ (Yields.required hobject).bind fun object ho ↦
      (Yields.required hname).bind fun name hn ↦ .skip fun computed ↦ ?_
    have hparts : (object.isWritable && name.isWritable) = true :=
      Bool.and_eq_true_iff.mpr ⟨ho, hn⟩
    split
    · exact .pure ⟨hparts, htag⟩
    · exact .pure ⟨hparts, htag⟩
  · refine (Yields.field fun v hv ↦ .elements fun e he ↦
      hpart e (by omega)).bind fun arguments harguments ↦
      (Yields.field hpart).bind fun callee hcallee ↦ .skip fun loc ↦
      (Yields.required hcallee).bind fun callee hc ↦
      (Yields.required harguments).bind fun arguments ha ↦ .pure ⟨?_, htag⟩
    exact Bool.and_eq_true_iff.mpr ⟨hc, argumentsAreWritable_iff.mpr ha⟩
  · refine (Yields.field hpart).bind fun alternate halternate ↦
      (Yields.field hpart).bind fun consequent hconsequent ↦ .skip fun loc ↦
      (Yields.field hpart).bind fun test htest ↦ (Yields.required htest).bind fun test ht ↦
      (Yields.required hconsequent).bind fun consequent hc ↦
      (Yields.required halternate).bind fun alternate ha ↦ .pure ⟨?_, htag⟩
    rw [isWritable, ht, hc, ha]
    rfl
  · refine .pure ⟨?_, htag⟩
    -- the tag is none of the known ones
    simp_all [isWritable, types]
termination_by sizeOf j

end Expr

/-! ## Statements -/

open Json (Yields)

theorem Expr.isWritable_ofJson (j : Json) : Yields (·.isWritable = true) (ofJson j) :=
  (ofJson_yields j).mono fun _ ↦ And.left

theorem Expr.all_isWritable_of_forall {o : Option Expr}
    (h : ∀ e, o = some e → e.isWritable = true) : o.all (·.isWritable) = true := by
  cases o with
  | none => rfl
  | some e => exact h e rfl

theorem Declarator.isWritable_ofJson (j : Json) : Yields (·.isWritable = true) (ofJson j) := by
  have hparts : ∀ (target : Expr) (init : Option Expr) (loc : Option Location),
      target.isWritable = true → (∀ e, init = some e → e.isWritable = true) →
        (⟨target, init, loc⟩ : Declarator).isWritable = true :=
    fun target init loc ht hi ↦
      Bool.and_eq_true_iff.mpr ⟨ht, Expr.all_isWritable_of_forall hi⟩
  rw [ofJson.eq_def]
  split
  · refine (Yields.part fun v hv ↦ Expr.isWritable_ofJson v).bind fun target htarget ↦
      (Yields.requiredPart htarget).bind fun target ht ↦
      (Yields.part fun v hv ↦ .nullable fun e he ↦ Expr.isWritable_ofJson e).bind
        fun init hinit ↦ .skip fun loc ↦ .skip fun _ ↦ .pure (hparts _ _ _ ht fun e he ↦ ?_)
    rw [Option.join_eq_some_iff] at he
    exact hinit _ he e rfl
  · exact (Yields.field fun v hv ↦ Expr.isWritable_ofJson v).bind fun target htarget ↦
      (Yields.optionalField fun v hv ↦ Expr.isWritable_ofJson v).bind fun init hinit ↦
      .skip fun loc ↦ (Yields.required htarget).bind fun target ht ↦ .pure (hparts _ _ _ ht hinit)
  · exact .fault _

theorem Declaration.isWritable_ofJson (j : Json) : Yields (·.isWritable = true) (ofJson j) := by
  exact (Yields.field fun v hv ↦ .elements fun d hd ↦ Declarator.isWritable_ofJson d).bind
    fun declarators hdeclarators ↦ .skip fun kind ↦ .skip fun loc ↦
    (Yields.required hdeclarators).bind fun declarators hd ↦ .pure (List.all_eq_true.mpr hd)

theorem ForInit.isWritable_ofJson (j : Json) : Yields (·.isWritable = true) (ofJson j) := by
  refine Yields.nodeType.bind fun tag htag ↦ ?_
  split
  · exact (Declaration.isWritable_ofJson j).bind fun d hd ↦ .pure hd
  · rename_i hne
    refine (Expr.ofJson_yields j).bind fun e he ↦ .pure ?_
    obtain ⟨he, htype⟩ := he
    -- the expression has the tag that was looked at to tell it from a declaration
    have htag : tag = e.nodeType := Json.string.inj (Option.some.inj (htag.symm.trans htype))
    exact Bool.and_eq_true_iff.mpr ⟨he, bne_iff_ne.mpr fun h ↦ hne (htag.trans h)⟩

/-- A decoded statement is writable and has the type that the value says. -/
theorem Stmt.ofJson_yields (j : Json) :
    Yields (fun s ↦ s.isWritable = true ∧ j.get? "type" = some (.string s.nodeType))
      (ofJson j) := by
  rw [ofJson]
  refine Yields.nodeType.bind fun tag htag ↦ ?_
  have hpart : ∀ v : Json, sizeOf v < sizeOf j → Yields (fun s ↦ s.isWritable = true) (ofJson v) :=
    fun v _ ↦ (ofJson_yields v).mono fun s ↦ And.left
  have hexpr : ∀ v : Json, sizeOf v < sizeOf j → Yields (·.isWritable = true) (Expr.ofJson v) :=
    fun v _ ↦ Expr.isWritable_ofJson v
  split
  · exact (Declaration.isWritable_ofJson j).bind fun d hd ↦ .pure ⟨hd, htag⟩
  · refine (Yields.field hpart).bind fun body hbody ↦
      (Yields.optionalField fun v hv ↦ ForInit.isWritable_ofJson v).bind fun init hinit ↦
      .skip fun loc ↦ (Yields.optionalField hexpr).bind fun test htest ↦
      (Yields.optionalField hexpr).bind fun update hupdate ↦
      (Yields.required hbody).bind fun body hb ↦ .pure ⟨?_, htag⟩
    have hi : init.all (·.isWritable) = true := by
      cases init with
      | none => rfl
      | some init => exact hinit init rfl
    rw [isWritable, hi, hb, Expr.all_isWritable_of_forall htest,
      Expr.all_isWritable_of_forall hupdate]
    rfl
  · refine (Yields.optionalField hpart).bind fun alternate halternate ↦
      (Yields.field hpart).bind fun consequent hconsequent ↦ .skip fun loc ↦
      (Yields.field hexpr).bind fun test htest ↦ (Yields.required htest).bind fun test ht ↦
      (Yields.required hconsequent).bind fun consequent hc ↦ .pure ⟨?_, htag⟩
    cases alternate with
    | none => exact Bool.and_eq_true_iff.mpr ⟨ht, hc⟩
    | some alternate =>
      rw [isWritable, ht, hc, halternate alternate rfl]
      rfl
  · exact (Yields.field fun v hv ↦ .elements fun s hs ↦ hpart s (by omega)).bind
      fun body hbody ↦ .skip fun loc ↦ (Yields.required hbody).bind fun body hb ↦
      .pure ⟨allAreWritable_iff.mpr hb, htag⟩
  · exact (Yields.field hexpr).bind fun e he ↦ .skip fun loc ↦
      (Yields.required he).bind fun e he ↦ .pure ⟨he, htag⟩
  · exact .skip fun loc ↦ .pure ⟨rfl, htag⟩
  · refine .pure ⟨?_, htag⟩
    -- the tag is none of the known ones
    simp_all [isWritable, types]
termination_by sizeOf j

namespace Node

/-- Whether a value is decoded as a node, at a place for statements or for expressions. -/
def IsDecodedFrom : Node → Json → Prop
  | stmt s, j => Stmt.ofJson j = .ok s
  | expr e, j => Expr.ofJson j = .ok e

/-- **The decoder inverts the plain spelling.** A node that is writable is decoded from its
spelling, and every node that is decoded from anything is writable, has the type that the value
says, and so is decoded from its spelling again. -/
theorem isDecodedFrom_toJson (n : Node) :
    (n.isWritable = true → n.IsDecodedFrom n.toJson) ∧
      ∀ j, n.IsDecodedFrom j → n.isWritable = true ∧
        j.get? "type" = some (.string n.nodeType) ∧ n.IsDecodedFrom n.toJson := by
  cases n with
  | stmt s =>
    refine ⟨Stmt.ofJson_toJson, fun j hj ↦ ?_⟩
    obtain ⟨hwritable, htype⟩ := Stmt.ofJson_yields j s hj
    exact ⟨hwritable, htype, Stmt.ofJson_toJson hwritable⟩
  | expr e =>
    refine ⟨Expr.ofJson_toJson, fun j hj ↦ ?_⟩
    obtain ⟨hwritable, htype⟩ := Expr.ofJson_yields j e hj
    exact ⟨hwritable, htype, Expr.ofJson_toJson hwritable⟩

/-- A loop with an array literal with a hole in its head, around a statement that is kept by its tag
only. -/
def holedLoop : Stmt :=
  .forLoop (some (.expression (.array [none, some (.literal (.other (.array [])) none none)] none)))
    none (some (.update .increment (.identifier "i" none) true none))
    (.unsupported "DebuggerStatement" (some (.lines 2 2))) none

/-- `holedLoop` is read back, and so is what is decoded from a tag alone. -/
theorem isDecodedFrom_holedLoop :
    ((stmt holedLoop).isWritable = true ∧ (stmt holedLoop).IsDecodedFrom (stmt holedLoop).toJson) ∧
      (expr (.unsupported "Super" none)).IsDecodedFrom (.object [("type", .string "Super")]) ∧
      (expr (.unsupported "Super" none)).isWritable = true ∧
      (expr (.unsupported "Super" none)).IsDecodedFrom
        (expr (.unsupported "Super" none)).toJson := by
  have hloop : (stmt holedLoop).isWritable = true := by decide
  have hsuper : (expr (.unsupported "Super" none)).IsDecodedFrom
      (.object [("type", .string "Super")]) := by
    rw [IsDecodedFrom, Expr.ofJson]
    rfl
  obtain ⟨hwritable, -, hback⟩ := (isDecodedFrom_toJson _).2 _ hsuper
  exact ⟨⟨hloop, (isDecodedFrom_toJson _).1 hloop⟩, hsuper, hwritable, hback⟩

end Node

end ScriptTrace
