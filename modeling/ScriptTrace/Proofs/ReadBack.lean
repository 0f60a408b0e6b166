import ScriptTrace.Proofs.Induction
import ScriptTrace.Proofs.Spelling
import ScriptTrace.Syntax.Decode

/-!
# Reading a tree back from its spelling

A tree that is writable is what the decoder gives for its spelling. Each combinator of the decoder
has one rule for what it gives where it finds what it looks for, and the decoder follows the
constructors of the tree.
-/

namespace ScriptTrace

namespace Json

/-! ## What the combinators give -/

/-- A decoder goes on with what it has decoded. -/
theorem bind_eq_ok {α β : Type} {m : Decoded α} {k : α → Decoded β} {a : α} {b : β}
    (hm : m = .ok a) (hk : k a = .ok b) : (m >>= k) = .ok b := by
  rw [hm]
  exact hk

section Members

variable {α : Type} {j v : Json} {name : String} {a : α}
  {d : (value : Json) → sizeOf value < sizeOf j → Decoded α}

theorem field_of_get? (hget : j.get? name = some v) (hd : ∀ h, d v h = .ok a) :
    j.field name d = .ok (some a) := by
  rw [field]
  split
  · rename_i h
    rw [hget] at h
    cases h
  · rename_i value h
    obtain rfl : v = value := Option.some.inj (hget.symm.trans h)
    rw [hd]
    rfl

theorem nullable_of_ne_null {d : (value : Json) → sizeOf value ≤ sizeOf v → Decoded α}
    (hv : v ≠ null) (hd : ∀ h, d v h = .ok a) : v.nullable d = .ok (some a) := by
  rw [nullable.eq_def]
  split
  · exact absurd rfl hv
  · rw [hd]
    rfl

/-- A part that may be absent is read back from what stands for it. -/
theorem nullable_ofOption {encode : α → Json} {o : Option α}
    {d : (value : Json) → sizeOf value ≤ sizeOf (ofOption encode o) → Decoded α}
    (ho : ∀ a, o = some a → encode a ≠ null ∧ ∀ h, d (encode a) h = .ok a) :
    (ofOption encode o).nullable d = .ok o := by
  cases o with
  | none => rfl
  | some a =>
    obtain ⟨hne, hd⟩ := ho a rfl
    exact nullable_of_ne_null hne hd

theorem optionalField_ofOption {encode : α → Json} {o : Option α}
    (hget : j.get? name = some (ofOption encode o))
    (ho : ∀ a, o = some a → encode a ≠ null ∧ ∀ h, d (encode a) h = .ok a) :
    j.optionalField name d = .ok o := by
  have hfield : j.field name (fun value h ↦
      value.nullable fun v h' ↦ d v (Nat.lt_of_le_of_lt h' h)) = .ok (some o) :=
    field_of_get? hget fun h ↦ nullable_ofOption fun a ha ↦ ⟨(ho a ha).1, fun _ ↦ (ho a ha).2 _⟩
  rw [optionalField, hfield]
  rfl

theorem elements_array (xs : List Json) (d : Json → Decoded α) :
    ((array xs).elements fun x _ ↦ d x) = xs.mapM d := by
  rw [elements, List.mapM_subtype fun x h ↦ rfl, List.unattach_attach]

/-- A list is read back from the spellings of its elements. -/
theorem elements_map {encode : α → Json} {d : Json → Decoded α} {as : List α}
    (h : ∀ a ∈ as, d (encode a) = .ok a) :
    ((array (as.map encode)).elements fun x _ ↦ d x) = .ok as := by
  rw [elements_array]
  induction as with
  | nil => rfl
  | cons a rest ih =>
    rw [List.map_cons, List.mapM_cons]
    exact bind_eq_ok (h a List.mem_cons_self) <|
      bind_eq_ok (ih fun b hb ↦ h b (List.mem_cons_of_mem _ hb)) rfl

end Members

theorem toVariant_symbol {α : Type} {all : List α} {symbol : α → String} {a : α}
    (h : all.find? (symbol · = symbol a) = some a) :
    (string (symbol a)).toVariant all symbol = .ok a := by
  simp only [toVariant, pure_bind, h]
  rfl

theorem toUInt32_natural (n : UInt32) : (number (.natural n.toUInt64)).toUInt32 = .ok n := by
  have hsize : n.toUInt64.toNat < UInt32.size := n.toNat_lt
  rw [toUInt32, if_pos hsize, UInt32.toUInt32_toUInt64]
  rfl

end Json

open Json

/-! ## Records without a type -/

theorem Position.ofJson_toJson (p : Position) : ofJson p.toJson = .ok p :=
  bind_eq_ok (field_of_get? rfl fun _ ↦ toUInt32_natural p.column) <|
    bind_eq_ok (field_of_get? rfl fun _ ↦ toUInt32_natural p.line) rfl

theorem Location.ofJson_toJson (l : Location) : ofJson l.toJson = .ok l :=
  bind_eq_ok (field_of_get? rfl fun _ ↦ l.stop.ofJson_toJson) <|
    bind_eq_ok (field_of_get? rfl fun _ ↦ l.start.ofJson_toJson) rfl

theorem Regex.ofJson_toJson (r : Regex) : ofJson r.toJson = .ok r :=
  bind_eq_ok (@field_of_get? String r.toJson (.string r.flags) "flags" r.flags _ rfl fun _ ↦ rfl) <|
    bind_eq_ok (field_of_get? rfl fun _ ↦ rfl) rfl

theorem LiteralValue.ofJson_toJson {value : LiteralValue} (h : value.isWritable = true) :
    ofJson value.toJson = value := by
  cases value with
  | number n =>
    rw [isWritable] at h
    rw [toJson, dif_pos h]
    rfl
  | other j => cases j <;> first | rfl | cases h
  | null | bool | string => rfl

namespace Json

variable (nodeType : String) (loc : Option Location) (members : List (String × Json))

theorem nodeType_node : (node nodeType loc members).nodeType = .ok nodeType := rfl

theorem nodeLoc_node : (node nodeType loc members).nodeLoc = .ok loc :=
  optionalField_ofOption rfl fun l _ ↦ ⟨Json.noConfusion, fun _ ↦ l.ofJson_toJson⟩

theorem lenientLoc_node : (node nodeType loc members).lenientLoc = loc := by
  cases loc with
  | none => rfl
  | some l =>
    show (Location.ofJson l.toJson).toOption = some l
    rw [l.ofJson_toJson]
    rfl

end Json

/-! ## Operators -/

theorem BinaryOp.toVariant_symbol (op : BinaryOp) :
    (string op.symbol).toVariant all symbol = .ok op :=
  Json.toVariant_symbol (by cases op <;> rfl)

theorem LogicalOp.toVariant_symbol (op : LogicalOp) :
    (string op.symbol).toVariant all symbol = .ok op :=
  Json.toVariant_symbol (by cases op <;> rfl)

theorem UnaryOp.toVariant_symbol (op : UnaryOp) :
    (string op.symbol).toVariant all symbol = .ok op :=
  Json.toVariant_symbol (by cases op <;> rfl)

theorem UpdateOp.toVariant_symbol (op : UpdateOp) :
    (string op.symbol).toVariant all symbol = .ok op :=
  Json.toVariant_symbol (by cases op <;> rfl)

theorem AssignOp.toVariant_symbol (op : AssignOp) :
    (string op.symbol).toVariant all symbol = .ok op :=
  Json.toVariant_symbol (by cases op <;> rfl)

theorem DeclarationKind.toVariant_symbol (kind : DeclarationKind) :
    (string kind.symbol).toVariant all symbol = .ok kind :=
  Json.toVariant_symbol (by cases kind <;> rfl)

/-! ## Expressions -/

namespace Expr

theorem elementsToJson_eq_map (elements : List (Option Expr)) :
    elementsToJson elements = elements.map (Json.ofOption toJson) := by
  induction elements with
  | nil => rfl
  | cons element rest ih =>
    rcases element with _ | e <;> rw [elementsToJson, ih] <;> rfl

theorem argumentsToJson_eq_map (arguments : List Expr) :
    argumentsToJson arguments = arguments.map toJson := by
  induction arguments with
  | nil => rfl
  | cons e rest ih => rw [argumentsToJson, ih, List.map_cons]

theorem nodeType_toJson (e : Expr) : e.toJson.nodeType = .ok e.nodeType := by
  cases e <;> rfl

theorem toJson_ne_null (e : Expr) : e.toJson ≠ .null := by
  cases e <;> exact Json.noConfusion

/-- An expression that is writable is read back from its spelling. -/
theorem ofJson_toJson {e : Expr} (h : e.isWritable = true) : ofJson e.toJson = .ok e := by
  -- the decoder asks for the members of a node in the order of their names, not of the spelling
  induction e with
  | literal value regex loc =>
    rw [toJson, ofJson]
    refine bind_eq_ok (nodeType_node ..) <| bind_eq_ok (nodeLoc_node ..) <|
      bind_eq_ok (optionalField_ofOption rfl fun r _ ↦
        ⟨Json.noConfusion, fun _ ↦ r.ofJson_toJson⟩) ?_
    exact congrArg (fun value ↦ Except.ok (literal value regex loc)) (LiteralValue.ofJson_toJson h)
  | identifier name loc =>
    rw [toJson, ofJson]
    exact bind_eq_ok (nodeType_node ..) <| bind_eq_ok (nodeLoc_node ..) <|
      bind_eq_ok (field_of_get? rfl fun _ ↦ rfl) rfl
  | binary op left right loc hleft hright =>
    obtain ⟨hl, hr⟩ := Bool.and_eq_true_iff.mp h
    rw [toJson, ofJson]
    exact bind_eq_ok (nodeType_node ..) <| bind_eq_ok (field_of_get? rfl fun _ ↦ hleft hl) <|
      bind_eq_ok (nodeLoc_node ..) <|
      bind_eq_ok (field_of_get? rfl fun _ ↦ op.toVariant_symbol) <|
      bind_eq_ok (field_of_get? rfl fun _ ↦ hright hr) rfl
  | logical op left right loc hleft hright =>
    obtain ⟨hl, hr⟩ := Bool.and_eq_true_iff.mp h
    rw [toJson, ofJson]
    exact bind_eq_ok (nodeType_node ..) <| bind_eq_ok (field_of_get? rfl fun _ ↦ hleft hl) <|
      bind_eq_ok (nodeLoc_node ..) <|
      bind_eq_ok (field_of_get? rfl fun _ ↦ op.toVariant_symbol) <|
      bind_eq_ok (field_of_get? rfl fun _ ↦ hright hr) rfl
  | unary op operand loc hoperand =>
    rw [toJson, ofJson]
    exact bind_eq_ok (nodeType_node ..) <| bind_eq_ok (field_of_get? rfl fun _ ↦ hoperand h) <|
      bind_eq_ok (nodeLoc_node ..) <|
      bind_eq_ok (field_of_get? rfl fun _ ↦ op.toVariant_symbol) rfl
  | update op target isBefore loc htarget =>
    rw [toJson, ofJson]
    exact bind_eq_ok (nodeType_node ..) <| bind_eq_ok (field_of_get? rfl fun _ ↦ htarget h) <|
      bind_eq_ok (nodeLoc_node ..) <|
      bind_eq_ok (field_of_get? rfl fun _ ↦ op.toVariant_symbol) <|
      bind_eq_ok (field_of_get? rfl fun _ ↦ rfl) rfl
  | assign op target value loc htarget hvalue =>
    obtain ⟨ht, hv⟩ := Bool.and_eq_true_iff.mp h
    rw [toJson, ofJson]
    exact bind_eq_ok (nodeType_node ..) <| bind_eq_ok (field_of_get? rfl fun _ ↦ htarget ht) <|
      bind_eq_ok (nodeLoc_node ..) <|
      bind_eq_ok (field_of_get? rfl fun _ ↦ op.toVariant_symbol) <|
      bind_eq_ok (field_of_get? rfl fun _ ↦ hvalue hv) rfl
  | array elements loc helements =>
    rw [toJson, ofJson, elementsToJson_eq_map]
    refine bind_eq_ok (nodeType_node ..) <|
      bind_eq_ok (field_of_get? rfl fun _ ↦ elements_map fun element hmem ↦ ?_) <|
      bind_eq_ok (nodeLoc_node ..) rfl
    refine nullable_ofOption fun e he ↦ ⟨e.toJson_ne_null, fun _ ↦ ?_⟩
    subst he
    exact helements e hmem (elementsAreWritable_iff.mp h e hmem)
  | index object i loc hobject hi =>
    obtain ⟨ho, hw⟩ := Bool.and_eq_true_iff.mp h
    rw [toJson, ofJson]
    exact bind_eq_ok (nodeType_node ..) <| bind_eq_ok (field_of_get? rfl fun _ ↦ rfl) <|
      bind_eq_ok (nodeLoc_node ..) <| bind_eq_ok (field_of_get? rfl fun _ ↦ hobject ho) <|
      bind_eq_ok (field_of_get? rfl fun _ ↦ hi hw) rfl
  | property object name loc hobject hname =>
    obtain ⟨ho, hw⟩ := Bool.and_eq_true_iff.mp h
    rw [toJson, ofJson]
    exact bind_eq_ok (nodeType_node ..) <| bind_eq_ok (field_of_get? rfl fun _ ↦ rfl) <|
      bind_eq_ok (nodeLoc_node ..) <| bind_eq_ok (field_of_get? rfl fun _ ↦ hobject ho) <|
      bind_eq_ok (field_of_get? rfl fun _ ↦ hname hw) rfl
  | call callee arguments loc hcallee harguments =>
    obtain ⟨hc, ha⟩ := Bool.and_eq_true_iff.mp h
    rw [toJson, ofJson, argumentsToJson_eq_map]
    exact bind_eq_ok (nodeType_node ..) <|
      bind_eq_ok (field_of_get? rfl fun _ ↦ elements_map fun e he ↦
        harguments e he (argumentsAreWritable_iff.mp ha e he)) <|
      bind_eq_ok (field_of_get? rfl fun _ ↦ hcallee hc) <| bind_eq_ok (nodeLoc_node ..) rfl
  | conditional test consequent alternate loc htest hconsequent halternate =>
    obtain ⟨htc, ha⟩ := Bool.and_eq_true_iff.mp h
    obtain ⟨ht, hc⟩ := Bool.and_eq_true_iff.mp htc
    rw [toJson, ofJson]
    exact bind_eq_ok (nodeType_node ..) <|
      bind_eq_ok (field_of_get? rfl fun _ ↦ halternate ha) <|
      bind_eq_ok (field_of_get? rfl fun _ ↦ hconsequent hc) <| bind_eq_ok (nodeLoc_node ..) <|
      bind_eq_ok (field_of_get? rfl fun _ ↦ htest ht) rfl
  | unsupported nodeType loc =>
    rw [toJson, ofJson]
    refine bind_eq_ok (nodeType_node ..) ?_
    rw [lenientLoc_node]
    -- the tag is none of the known ones
    split <;> first | rfl | exact absurd h Bool.false_ne_true

end Expr

/-! ## Statements -/

theorem Expr.optionalField_toJson {j : Json} {name : String} {e : Option Expr}
    (hget : j.get? name = some (.ofOption toJson e)) (h : e.all (·.isWritable) = true) :
    (j.optionalField name fun v _ ↦ ofJson v) = .ok e :=
  optionalField_ofOption hget fun e' he ↦ by
    subst he
    exact ⟨e'.toJson_ne_null, fun _ ↦ ofJson_toJson h⟩

theorem Declarator.ofJson_toJson {d : Declarator} (h : d.isWritable = true) :
    ofJson d.toJson = .ok d := by
  obtain ⟨htarget, hinit⟩ := Bool.and_eq_true_iff.mp h
  exact bind_eq_ok (field_of_get? rfl fun _ ↦ Expr.ofJson_toJson htarget) <|
    bind_eq_ok (Expr.optionalField_toJson rfl hinit) <| bind_eq_ok (nodeLoc_node ..) rfl

theorem Declaration.ofJson_toJson {d : Declaration} (h : d.isWritable = true) :
    ofJson d.toJson = .ok d := by
  have hall := List.all_eq_true.mp h
  exact bind_eq_ok (field_of_get? rfl fun _ ↦ elements_map fun declarator hmem ↦
      (declarator : Declarator).ofJson_toJson (hall declarator hmem)) <|
    bind_eq_ok (field_of_get? rfl fun _ ↦ d.kind.toVariant_symbol) <|
    bind_eq_ok (nodeLoc_node ..) rfl

namespace ForInit

theorem toJson_ne_null (init : ForInit) : init.toJson ≠ .null := by
  cases init with
  | declaration d => exact Json.noConfusion
  | expression e => exact e.toJson_ne_null

theorem ofJson_toJson {init : ForInit} (h : init.isWritable = true) :
    ofJson init.toJson = .ok init := by
  cases init with
  | declaration d =>
    exact bind_eq_ok (nodeType_node ..) <| bind_eq_ok (Declaration.ofJson_toJson h) rfl
  | expression e =>
    obtain ⟨he, htype⟩ := Bool.and_eq_true_iff.mp h
    refine bind_eq_ok e.nodeType_toJson ?_
    split
    · -- an expression with this tag would be read as a declaration
      rename_i hdeclaration
      rw [hdeclaration] at htype
      exact absurd htype Bool.false_ne_true
    · exact bind_eq_ok (Expr.ofJson_toJson he) rfl

end ForInit

namespace Stmt

theorem allToJson_eq_map (body : List Stmt) : allToJson body = body.map toJson := by
  induction body with
  | nil => rfl
  | cons s rest ih => rw [allToJson, ih, List.map_cons]

theorem toJson_ne_null (s : Stmt) : s.toJson ≠ .null := by
  rw [toJson.eq_def]
  split <;> exact Json.noConfusion

/-- A statement that is writable is read back from its spelling. -/
theorem ofJson_toJson {s : Stmt} (h : s.isWritable = true) : ofJson s.toJson = .ok s := by
  induction s with
  | declaration d =>
    rw [toJson, ofJson]
    exact bind_eq_ok (nodeType_node ..) <| bind_eq_ok (Declaration.ofJson_toJson h) rfl
  | forLoop init test update body loc hbody =>
    simp only [isWritable, Bool.and_eq_true] at h
    obtain ⟨⟨⟨hinit, htest⟩, hupdate⟩, hb⟩ := h
    rw [toJson, ofJson]
    refine bind_eq_ok (nodeType_node ..) <| bind_eq_ok (field_of_get? rfl fun _ ↦ hbody hb) <|
      bind_eq_ok (optionalField_ofOption rfl fun init' hsome ↦
        ⟨init'.toJson_ne_null, fun _ ↦ ?_⟩) <|
      bind_eq_ok (nodeLoc_node ..) <| bind_eq_ok (Expr.optionalField_toJson rfl htest) <|
      bind_eq_ok (Expr.optionalField_toJson rfl hupdate) rfl
    subst hsome
    exact ForInit.ofJson_toJson hinit
  | ifThen test consequent alternate loc hconsequent halternate =>
    cases alternate with
    | none =>
      obtain ⟨ht, hc⟩ := Bool.and_eq_true_iff.mp h
      rw [toJson, ofJson]
      exact bind_eq_ok (nodeType_node ..) <|
        bind_eq_ok (@optionalField_ofOption Stmt _ _ _ toJson none rfl (by simp)) <|
        bind_eq_ok (field_of_get? rfl fun _ ↦ hconsequent hc) <| bind_eq_ok (nodeLoc_node ..) <|
        bind_eq_ok (field_of_get? rfl fun _ ↦ Expr.ofJson_toJson ht) rfl
    | some alternate =>
      obtain ⟨htc, ha⟩ := Bool.and_eq_true_iff.mp h
      obtain ⟨ht, hc⟩ := Bool.and_eq_true_iff.mp htc
      rw [toJson, ofJson]
      refine bind_eq_ok (nodeType_node ..) <|
        bind_eq_ok (@optionalField_ofOption Stmt _ _ _ toJson (some alternate) rfl ?_) <|
        bind_eq_ok (field_of_get? rfl fun _ ↦ hconsequent hc) <| bind_eq_ok (nodeLoc_node ..) <|
        bind_eq_ok (field_of_get? rfl fun _ ↦ Expr.ofJson_toJson ht) rfl
      intro s hs
      obtain rfl := Option.some.inj hs
      exact ⟨alternate.toJson_ne_null, fun _ ↦ halternate _ rfl ha⟩
  | block body loc hbody =>
    rw [toJson, ofJson, allToJson_eq_map]
    exact bind_eq_ok (nodeType_node ..) <|
      bind_eq_ok (field_of_get? rfl fun _ ↦ elements_map fun s hs ↦
        hbody s hs (allAreWritable_iff.mp h s hs)) <| bind_eq_ok (nodeLoc_node ..) rfl
  | expression e loc =>
    rw [toJson, ofJson]
    exact bind_eq_ok (nodeType_node ..) <|
      bind_eq_ok (field_of_get? rfl fun _ ↦ Expr.ofJson_toJson h) <|
      bind_eq_ok (nodeLoc_node ..) rfl
  | empty loc =>
    rw [toJson, ofJson]
    exact bind_eq_ok (nodeType_node ..) <| bind_eq_ok (nodeLoc_node ..) rfl
  | unsupported nodeType loc =>
    rw [toJson, ofJson]
    refine bind_eq_ok (nodeType_node ..) ?_
    rw [lenientLoc_node]
    -- the tag is none of the known ones
    split <;> first | rfl | exact absurd h Bool.false_ne_true

end Stmt

end ScriptTrace
