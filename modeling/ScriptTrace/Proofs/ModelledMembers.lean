import ScriptTrace.Proofs.ReadBack

/-!
# The members that a decoder looks at

Where a value is decoded as an object of the tree, a statement say or a location, only some of its
members are looked at, and these are decoded as something in turn. `Json.Alike` relates values that
differ in members which nothing looks at, at any depth. Such values are decoded alike: to the same
tree, or with the same fault.

Which members count is a matter of what the object is decoded as and, for a node, of its type tag.
Of a node with an unknown tag only the tag and the location count. The value of a literal counts as
a whole.
-/

namespace ScriptTrace

/-- What a value is decoded as. -/
inductive Role where
  | stmt
  | expr
  | forInit
  | declarator
  | location
  | position
  | regex
  /-- A list of values that are all decoded as one thing. -/
  | list (element : Role)
  /-- Something without parts of its own: a tag, a name, an operator, a number, the value of a
  literal. -/
  | whole

namespace Role

/-- The members of an expression with a tag. -/
def exprMembers : String → List (String × Role)
  | "Literal" => [("loc", location), ("regex", regex), ("value", whole)]
  | "Identifier" => [("loc", location), ("name", whole)]
  | "BinaryExpression" | "LogicalExpression" | "AssignmentExpression" =>
    [("left", expr), ("loc", location), ("operator", whole), ("right", expr)]
  | "UnaryExpression" => [("argument", expr), ("loc", location), ("operator", whole)]
  | "UpdateExpression" =>
    [("argument", expr), ("loc", location), ("operator", whole), ("prefix", whole)]
  | "ArrayExpression" => [("elements", list expr), ("loc", location)]
  | "MemberExpression" =>
    [("computed", whole), ("loc", location), ("object", expr), ("property", expr)]
  | "CallExpression" => [("arguments", list expr), ("callee", expr), ("loc", location)]
  | "ConditionalExpression" =>
    [("alternate", expr), ("consequent", expr), ("loc", location), ("test", expr)]
  | _ => [("loc", location)]

theorem loc_mem_exprMembers (tag : String) : ("loc", location) ∈ exprMembers tag := by
  rw [exprMembers.eq_def]
  split <;> simp

/-- The members of a declaration. -/
def declarationMembers : List (String × Role) :=
  [("declarations", list declarator), ("kind", whole), ("loc", location)]

/-- The members of a statement with a tag. -/
def stmtMembers : String → List (String × Role)
  | "VariableDeclaration" => declarationMembers
  | "ForStatement" =>
    [("body", stmt), ("init", forInit), ("loc", location), ("test", expr), ("update", expr)]
  | "IfStatement" =>
    [("alternate", stmt), ("consequent", stmt), ("loc", location), ("test", expr)]
  | "BlockStatement" => [("body", list stmt), ("loc", location)]
  | "ExpressionStatement" => [("expression", expr), ("loc", location)]
  | _ => [("loc", location)]

theorem loc_mem_stmtMembers (tag : String) : ("loc", location) ∈ stmtMembers tag := by
  rw [stmtMembers.eq_def]
  split <;> simp [declarationMembers]

/-- The members of what has a tag in the head of a loop. -/
def forInitMembers : String → List (String × Role)
  | "VariableDeclaration" => declarationMembers
  | tag => exprMembers tag

/-- The members of a node: its tag, and what counts for the tag. -/
def nodeMembers (ofTag : String → List (String × Role)) (j : Json) : List (String × Role) :=
  ("type", whole) ::
    match j.get? "type" with
    | some (.string tag) => ofTag tag
    | _ => []

/-- The members that count in an object, with what they are decoded as. -/
def members (j : Json) : Role → List (String × Role)
  | stmt => nodeMembers stmtMembers j
  | expr => nodeMembers exprMembers j
  | forInit => nodeMembers forInitMembers j
  | declarator => [("id", expr), ("init", expr), ("loc", location)]
  | location => [("end", position), ("start", position)]
  | position => [("column", whole), ("line", whole)]
  | regex => [("flags", whole), ("pattern", whole)]
  | list _ | whole => []

/-- Whether it is an object that is asked for. -/
def isRecord : Role → Bool
  | list _ | whole => false
  | stmt | expr | forInit | declarator | location | position | regex => true

/-- What the element of an array is decoded as, where records are given by their parts in order. -/
def part : Role → Nat → Role
  | list element, _ => element
  | declarator, 0 | declarator, 1 => expr
  | declarator, 2 => location
  | location, 0 | location, 1 => position
  | _, _ => whole

end Role

namespace Json

/-- Whether two values, decoded as the same thing, differ at most in members that do not count. -/
inductive Alike : Role → Json → Json → Prop
  | refl (role : Role) (j : Json) : Alike role j j
  | object {role : Role} {members members' : List (String × Json)} (hrole : role.isRecord = true)
    (hnone : ∀ name p, (name, p) ∈ role.members (object members) →
      ((object members).get? name = none ↔ (object members').get? name = none))
    (hsome : ∀ name p, (name, p) ∈ role.members (object members) → ∀ v v',
      (object members).get? name = some v → (object members').get? name = some v' →
        Alike p v v') :
    Alike role (object members) (object members')
  | array {role : Role} {xs xs' : List Json} (hlength : xs.length = xs'.length)
    (helements : ∀ i x x', xs[i]? = some x → xs'[i]? = some x' → Alike (role.part i) x x') :
    Alike role (array xs) (array xs')

/-! ## Combinators that give the same -/

theorem bind_congr_ok {α β : Type} {m : Decoded α} {f g : α → Decoded β}
    (h : ∀ a, m = .ok a → f a = g a) : (m >>= f) = m >>= g := by
  cases m with
  | error => rfl
  | ok a => exact h a rfl

section Combinators

variable {α : Type} {j k : Json} {name : String}

/-- Whether what may be there is there on both sides and related, or on neither. -/
def BothOrNone (R : Json → Json → Prop) : Option Json → Option Json → Prop
  | some v, some w => R v w
  | none, none => True
  | _, _ => False

theorem BothOrNone.of_some {R : Json → Json → Prop} {o o' : Option Json}
    (hnone : o = none ↔ o' = none) (hsome : ∀ v w, o = some v → o' = some w → R v w) :
    BothOrNone R o o' := by
  cases o with
  | none =>
    rw [hnone.mp rfl]
    trivial
  | some v =>
    cases o' with
    | none => exact absurd (hnone.mpr rfl) (Option.some_ne_none v)
    | some w => exact hsome v w rfl rfl

theorem BothOrNone.mono {R S : Json → Json → Prop} {o o' : Option Json} (h : BothOrNone R o o')
    (hRS : ∀ v w, R v w → S v w) : BothOrNone S o o' := by
  cases o <;> cases o'
  · trivial
  · cases h
  · cases h
  · exact hRS _ _ h

theorem field_eq (j : Json) (name : String) (d : Json → Decoded α) :
    (j.field name fun v _ ↦ d v) = (j.get? name).mapM d := by
  rw [field]
  split <;> rename_i h <;> rw [h] <;> rfl

theorem field_congr {d : Json → Decoded α}
    (h : BothOrNone (fun v w ↦ d v = d w) (j.get? name) (k.get? name)) :
    (j.field name fun v _ ↦ d v) = k.field name fun v _ ↦ d v := by
  rw [field_eq, field_eq]
  cases hj : j.get? name <;> cases hk : k.get? name <;> rw [hj, hk] at h
  · cases h
  · cases h
  · exact congrArg (some <$> ·) h

theorem nullable_congr {v w : Json} {d : Json → Decoded α} (hnull : v = null ↔ w = null)
    (h : d v = d w) : (v.nullable fun v _ ↦ d v) = w.nullable fun v _ ↦ d v := by
  by_cases hv : v = null
  · rw [hv, hnull.mp hv]
  · have hw : w ≠ null := fun hw ↦ hv (hnull.mpr hw)
    have hsome : ∀ v : Json, v ≠ null → (v.nullable fun v _ ↦ d v) = some <$> d v := by
      intro v hv
      rw [nullable.eq_def]
      split
      · exact absurd rfl hv
      · rfl
    rw [hsome v hv, hsome w hw, h]

theorem optionalField_congr {d : Json → Decoded α}
    (h : BothOrNone (fun v w ↦ (v = null ↔ w = null) ∧ d v = d w) (j.get? name) (k.get? name)) :
    (j.optionalField name fun v _ ↦ d v) = k.optionalField name fun v _ ↦ d v := by
  have hfield := @field_congr (Option α) j k name (fun v ↦ v.nullable fun v _ ↦ d v)
    (h.mono fun v w hvw ↦ nullable_congr hvw.1 hvw.2)
  exact congrArg (Option.join <$> ·) hfield

theorem mapM_congr {d : Json → Decoded α} {xs ys : List Json} (hlength : xs.length = ys.length)
    (h : ∀ (i : Nat) x y, xs[i]? = some x → ys[i]? = some y → d x = d y) :
    xs.mapM d = ys.mapM d := by
  induction xs generalizing ys with
  | nil => rw [List.eq_nil_of_length_eq_zero hlength.symm]
  | cons x xs ih =>
    cases ys with
    | nil => cases hlength
    | cons y ys =>
      rw [List.mapM_cons, List.mapM_cons, h 0 x y rfl rfl,
        ih (Nat.succ.inj hlength) fun i x y hx hy ↦ h (i + 1) x y hx hy]

theorem part_congr {d : Json → Decoded α} {xs ys : List Json} {i : Nat}
    (hlength : xs.length = ys.length)
    (h : ∀ x y, xs[i]? = some x → ys[i]? = some y → d x = d y) :
    ((array xs).part i fun v _ ↦ d v) = (array ys).part i fun v _ ↦ d v := by
  have hpart : ∀ xs : List Json, ((array xs).part i fun v _ ↦ d v) = xs[i]?.mapM d := by
    intro xs
    rw [part]
    split <;> rename_i h <;> rw [h] <;> rfl
  rw [hpart, hpart]
  cases hx : xs[i]? with
  | none => rw [List.getElem?_eq_none (hlength ▸ List.getElem?_eq_none_iff.mp hx)]
  | some x =>
    cases hy : ys[i]? with
    | none =>
      rw [List.getElem?_eq_none (hlength ▸ List.getElem?_eq_none_iff.mp hy)] at hx
      cases hx
    | some y => exact congrArg (some <$> ·) (h x y hx hy)

end Combinators

/-! ## Values that are decoded alike -/

/-- Whether two values give the same where they are decoded as something. -/
def DecodedAlike : Role → Json → Json → Prop
  | .stmt, j, k => Stmt.ofJson j = Stmt.ofJson k
  | .expr, j, k => Expr.ofJson j = Expr.ofJson k
  | .forInit, j, k => ForInit.ofJson j = ForInit.ofJson k
  | .declarator, j, k => Declarator.ofJson j = Declarator.ofJson k
  | .location, j, k => Location.ofJson j = Location.ofJson k
  | .position, j, k => Position.ofJson j = Position.ofJson k
  | .regex, j, k => Regex.ofJson j = Regex.ofJson k
  | .list element, j, k => j = k ∨ ∃ xs ys, j = array xs ∧ k = array ys ∧ xs.length = ys.length ∧
    ∀ (i : Nat) x y, xs[i]? = some x → ys[i]? = some y →
      (x = null ↔ y = null) ∧ DecodedAlike element x y
  | .whole, j, k => j = k

/-- Whether two values give the same, also where `null` stands for nothing. -/
def Indistinct (role : Role) (j k : Json) : Prop := (j = null ↔ k = null) ∧ DecodedAlike role j k

theorem Indistinct.refl (role : Role) (j : Json) : Indistinct role j j := by
  refine ⟨Iff.rfl, ?_⟩
  cases role with
  | list => exact .inl rfl
  | stmt | expr | forInit | declarator | location | position | regex | whole => exact rfl

variable {j k : Json}

/-- Each of some members gives the same in two objects, or is in neither. -/
def MembersAgree (members : List (String × Role)) (j k : Json) : Prop :=
  ∀ name p, (name, p) ∈ members → BothOrNone (Indistinct p) (j.get? name) (k.get? name)

namespace MembersAgree

variable {members : List (String × Role)} {name : String}

theorem get? (h : MembersAgree members j k) (hmem : (name, .whole) ∈ members) :
    j.get? name = k.get? name := by
  have hboth := h name .whole hmem
  cases hj : j.get? name <;> cases hk : k.get? name <;> rw [hj, hk] at hboth
  · cases hboth
  · cases hboth
  · exact congrArg some hboth.2

section Fields

variable {α : Type} {p : Role} {d : Json → Decoded α}

theorem field (h : MembersAgree members j k) (hmem : (name, p) ∈ members)
    (hd : ∀ v w, Indistinct p v w → d v = d w) :
    (j.field name fun v _ ↦ d v) = k.field name fun v _ ↦ d v :=
  field_congr ((h name p hmem).mono hd)

theorem optionalField (h : MembersAgree members j k) (hmem : (name, p) ∈ members)
    (hd : ∀ v w, Indistinct p v w → d v = d w) :
    (j.optionalField name fun v _ ↦ d v) = k.optionalField name fun v _ ↦ d v :=
  optionalField_congr ((h name p hmem).mono fun v w hvw ↦ ⟨hvw.1, hd v w hvw⟩)

theorem field_whole (h : MembersAgree members j k) (hmem : (name, .whole) ∈ members) :
    (j.field name fun v _ ↦ d v) = k.field name fun v _ ↦ d v :=
  h.field hmem fun _ _ hvw ↦ congrArg d hvw.2

theorem field_list (h : MembersAgree members j k) (hmem : (name, .list p) ∈ members)
    (hd : ∀ v w, Indistinct p v w → d v = d w) :
    (j.field name fun v _ ↦ v.elements fun x _ ↦ d x) =
      k.field name fun v _ ↦ v.elements fun x _ ↦ d x := by
  refine h.field hmem fun v w hvw ↦ ?_
  rcases hvw.2 with rfl | ⟨xs, ys, rfl, rfl, hlength, hvw⟩
  · rfl
  · rw [elements_array, elements_array]
    exact mapM_congr hlength fun i x y hx hy ↦ hd x y (hvw i x y hx hy)

end Fields

-- the members as the decoders of nodes ask for them

theorem field_expr (h : MembersAgree members j k) (hmem : (name, .expr) ∈ members) :
    (j.field name fun v _ ↦ Expr.ofJson v) = k.field name fun v _ ↦ Expr.ofJson v :=
  h.field hmem fun _ _ ↦ And.right

theorem optionalField_expr (h : MembersAgree members j k) (hmem : (name, .expr) ∈ members) :
    (j.optionalField name fun v _ ↦ Expr.ofJson v) =
      k.optionalField name fun v _ ↦ Expr.ofJson v :=
  h.optionalField hmem fun _ _ ↦ And.right

theorem optionalField_regex (h : MembersAgree members j k) (hmem : (name, .regex) ∈ members) :
    (j.optionalField name fun v _ ↦ Regex.ofJson v) =
      k.optionalField name fun v _ ↦ Regex.ofJson v :=
  h.optionalField hmem fun _ _ ↦ And.right

theorem field_holes (h : MembersAgree members j k) (hmem : (name, .list .expr) ∈ members) :
    (j.field name fun v _ ↦ v.elements fun x _ ↦ x.nullable fun e _ ↦ Expr.ofJson e) =
      k.field name fun v _ ↦ v.elements fun x _ ↦ x.nullable fun e _ ↦ Expr.ofJson e :=
  h.field_list hmem fun _ _ hvw ↦ nullable_congr hvw.1 hvw.2

theorem field_arguments (h : MembersAgree members j k) (hmem : (name, .list .expr) ∈ members) :
    (j.field name fun v _ ↦ v.elements fun x _ ↦ Expr.ofJson x) =
      k.field name fun v _ ↦ v.elements fun x _ ↦ Expr.ofJson x :=
  h.field_list hmem fun _ _ ↦ And.right

theorem field_stmt (h : MembersAgree members j k) (hmem : (name, .stmt) ∈ members) :
    (j.field name fun v _ ↦ Stmt.ofJson v) = k.field name fun v _ ↦ Stmt.ofJson v :=
  h.field hmem fun _ _ ↦ And.right

theorem optionalField_stmt (h : MembersAgree members j k) (hmem : (name, .stmt) ∈ members) :
    (j.optionalField name fun v _ ↦ Stmt.ofJson v) =
      k.optionalField name fun v _ ↦ Stmt.ofJson v :=
  h.optionalField hmem fun _ _ ↦ And.right

theorem field_body (h : MembersAgree members j k) (hmem : (name, .list .stmt) ∈ members) :
    (j.field name fun v _ ↦ v.elements fun x _ ↦ Stmt.ofJson x) =
      k.field name fun v _ ↦ v.elements fun x _ ↦ Stmt.ofJson x :=
  h.field_list hmem fun _ _ ↦ And.right

theorem optionalField_forInit (h : MembersAgree members j k) (hmem : (name, .forInit) ∈ members) :
    (j.optionalField name fun v _ ↦ ForInit.ofJson v) =
      k.optionalField name fun v _ ↦ ForInit.ofJson v :=
  h.optionalField hmem fun _ _ ↦ And.right

theorem field_declarators (h : MembersAgree members j k)
    (hmem : (name, .list .declarator) ∈ members) :
    (j.field name fun v _ ↦ v.elements fun x _ ↦ Declarator.ofJson x) =
      k.field name fun v _ ↦ v.elements fun x _ ↦ Declarator.ofJson x :=
  h.field_list hmem fun _ _ ↦ And.right

theorem field_position (h : MembersAgree members j k) (hmem : (name, .position) ∈ members) :
    (j.field name fun v _ ↦ Position.ofJson v) = k.field name fun v _ ↦ Position.ofJson v :=
  h.field hmem fun _ _ ↦ And.right

theorem nodeLoc (h : MembersAgree members j k) (hmem : ("loc", .location) ∈ members) :
    j.nodeLoc = k.nodeLoc :=
  h.optionalField hmem fun _ _ ↦ And.right

theorem lenientLoc (h : MembersAgree members j k) (hmem : ("loc", .location) ∈ members) :
    j.lenientLoc = k.lenientLoc := by
  have hboth := h "loc" .location hmem
  rw [Json.lenientLoc, Json.lenientLoc]
  cases hj : j.get? "loc" <;> cases hk : k.get? "loc" <;> rw [hj, hk] at hboth
  · cases hboth
  · cases hboth
  · exact congrArg Except.toOption hboth.2

theorem get?_type_of_nodeType {tag : String} (htag : k.nodeType = .ok tag) :
    k.get? "type" = some (string tag) := by
  rw [Json.nodeType] at htag
  split at htag
  · cases htag
  · rename_i found hfound
    rw [hfound, Except.ok.inj htag]
  · cases htag

/-- Nodes whose members agree have the same tag. -/
theorem nodeType {ofTag : String → List (String × Role)}
    (h : MembersAgree (Role.nodeMembers ofTag j) j k) : j.nodeType = k.nodeType := by
  rw [Json.nodeType, Json.nodeType, h.get? List.mem_cons_self]

/-- The members that count for the tag agree. -/
theorem ofTag {ofTag : String → List (String × Role)} {tag : String}
    (h : MembersAgree (Role.nodeMembers ofTag j) j k) (htag : k.nodeType = .ok tag) :
    MembersAgree (ofTag tag) j k := by
  have hget : j.get? "type" = some (string tag) :=
    (h.get? List.mem_cons_self).trans (get?_type_of_nodeType htag)
  intro name p hmem
  refine h name p (List.mem_cons_of_mem _ ?_)
  rw [hget]
  exact hmem

/-- Members that agree for the tag agree for a node. -/
theorem withTag {ofTag ofTag' : String → List (String × Role)} {tag : String}
    (h : MembersAgree (Role.nodeMembers ofTag j) j k) (htag : k.nodeType = .ok tag)
    (h' : MembersAgree (ofTag' tag) j k) : MembersAgree (Role.nodeMembers ofTag' j) j k := by
  have hget : j.get? "type" = some (string tag) :=
    (h.get? List.mem_cons_self).trans (get?_type_of_nodeType htag)
  intro name p hmem
  rw [Role.nodeMembers, hget] at hmem
  rcases List.mem_cons.mp hmem with hhead | hmem
  · rw [(Prod.mk.inj hhead).1, (Prod.mk.inj hhead).2]
    exact h "type" .whole List.mem_cons_self
  · exact h' name p hmem

end MembersAgree

end Json

open Json

/-! ## Records without a type -/

section Records

variable {ms ms' : List (String × Json)}

theorem Position.ofJson_congr (h : MembersAgree (Role.position.members (object ms)) (object ms)
    (object ms')) : ofJson (object ms) = ofJson (object ms') := by
  rw [ofJson, ofJson, h.field_whole (by simp [Role.members]),
    h.field_whole (by simp [Role.members])]

theorem Location.ofJson_congr (h : MembersAgree (Role.location.members (object ms)) (object ms)
    (object ms')) : ofJson (object ms) = ofJson (object ms') := by
  rw [ofJson, ofJson, h.field_position (by simp [Role.members]),
    h.field_position (by simp [Role.members])]

theorem Regex.ofJson_congr (h : MembersAgree (Role.regex.members (object ms)) (object ms)
    (object ms')) : ofJson (object ms) = ofJson (object ms') := by
  rw [ofJson, ofJson, h.field_whole (by simp [Role.members]),
    h.field_whole (by simp [Role.members])]

theorem Declarator.ofJson_congr (h : MembersAgree (Role.declarator.members (object ms)) (object ms)
    (object ms')) : ofJson (object ms) = ofJson (object ms') := by
  rw [ofJson, ofJson, h.field_expr (by simp [Role.members]),
    h.optionalField_expr (by simp [Role.members]), h.nodeLoc (by simp [Role.members])]

end Records

/-! ## Nodes -/

section Nodes

variable {j k : Json}

theorem Expr.ofJson_congr (h : MembersAgree (Role.expr.members j) j k) :
    ofJson j = ofJson k := by
  rw [ofJson, ofJson, h.nodeType]
  refine bind_congr_ok fun tag htag ↦ ?_
  have h := h.ofTag htag
  rw [h.nodeLoc (Role.loc_mem_exprMembers tag), h.lenientLoc (Role.loc_mem_exprMembers tag)]
  -- for every tag, all members that are asked for count
  split <;> simp (disch := simp [Role.exprMembers]) only [h.get?, h.field_whole, h.field_expr,
    h.field_holes, h.field_arguments, h.optionalField_regex]

theorem Declaration.ofJson_congr (h : MembersAgree Role.declarationMembers j k) :
    ofJson j = ofJson k := by
  rw [ofJson, ofJson, h.field_declarators (by simp [Role.declarationMembers]),
    h.field_whole (by simp [Role.declarationMembers]),
    h.nodeLoc (by simp [Role.declarationMembers])]

theorem ForInit.ofJson_congr (h : MembersAgree (Role.forInit.members j) j k) :
    ofJson j = ofJson k := by
  rw [ofJson, ofJson, h.nodeType]
  refine bind_congr_ok fun tag htag ↦ ?_
  have htagged := h.ofTag htag
  split
  · rw [Declaration.ofJson_congr htagged]
  · -- the expression is decoded from the same value, tag included
    rename_i hne
    rw [Role.forInitMembers.eq_2 tag hne] at htagged
    rw [Expr.ofJson_congr (h.withTag htag htagged)]

theorem Stmt.ofJson_congr (h : MembersAgree (Role.stmt.members j) j k) :
    ofJson j = ofJson k := by
  rw [ofJson, ofJson, h.nodeType]
  refine bind_congr_ok fun tag htag ↦ ?_
  have h := h.ofTag htag
  split
  · rw [Declaration.ofJson_congr h]
  · simp (disch := simp [Role.stmtMembers]) only [h.field_stmt, h.optionalField_forInit,
      h.nodeLoc, h.optionalField_expr]
  · simp (disch := simp [Role.stmtMembers]) only [h.optionalField_stmt, h.field_stmt, h.nodeLoc,
      h.field_expr]
  · simp (disch := simp [Role.stmtMembers]) only [h.field_body, h.nodeLoc]
  · simp (disch := simp [Role.stmtMembers]) only [h.field_expr, h.nodeLoc]
  · rw [h.nodeLoc (Role.loc_mem_stmtMembers _)]
  · rw [h.lenientLoc (Role.loc_mem_stmtMembers _)]

end Nodes

/-! ## Records given by their parts -/

section Parts

variable {xs xs' : List Json}

/-- The parts of two records given in order give the same, each as what it is decoded as. -/
def PartsAgree (role : Role) (xs xs' : List Json) : Prop :=
  xs.length = xs'.length ∧
    ∀ (i : Nat) x x', xs[i]? = some x → xs'[i]? = some x' → Indistinct (role.part i) x x'

theorem PartsAgree.eq_of_whole {role : Role} (h : PartsAgree role xs xs')
    (hwhole : ∀ i, role.part i = .whole) : xs = xs' := by
  refine List.ext_getElem h.1 fun i hi hi' ↦ ?_
  have hpair := h.2 i xs[i] xs'[i] (List.getElem?_eq_getElem hi) (List.getElem?_eq_getElem hi')
  rw [hwhole i] at hpair
  exact hpair.2

theorem PartsAgree.part {α : Type} {d : Json → Decoded α} {role p : Role}
    (h : PartsAgree role xs xs') (i : Nat) (hp : role.part i = p)
    (hd : ∀ v w, Indistinct p v w → d v = d w) :
    ((Json.array xs).part i fun v _ ↦ d v) = (Json.array xs').part i fun v _ ↦ d v := by
  subst hp
  exact part_congr h.1 fun x x' hx hx' ↦ hd x x' (h.2 i x x' hx hx')

theorem Json.noSurplus_congr {count : Nat} (hlength : xs.length = xs'.length) :
    (Json.array xs).noSurplus count = (Json.array xs').noSurplus count := by
  rw [noSurplus, noSurplus, hlength]

theorem Location.ofJson_congr_parts (h : PartsAgree .location xs xs') :
    ofJson (.array xs) = ofJson (.array xs') := by
  have hposition : ∀ v w, Indistinct .position v w → Position.ofJson v = Position.ofJson w :=
    fun _ _ ↦ And.right
  rw [ofJson, ofJson, h.part 0 rfl hposition, h.part 1 rfl hposition, Json.noSurplus_congr h.1]

theorem Declarator.ofJson_congr_parts (h : PartsAgree .declarator xs xs') :
    ofJson (.array xs) = ofJson (.array xs') := by
  have htarget := h.part 0 rfl fun v w (hvw : Indistinct .expr v w) ↦ hvw.2
  have hinit := h.part 1 rfl fun v w (hvw : Indistinct .expr v w) ↦ nullable_congr hvw.1 hvw.2
  have hloc := h.part 2 rfl fun v w (hvw : Indistinct .location v w) ↦
    nullable_congr hvw.1 hvw.2
  rw [ofJson, ofJson, htarget, hinit, hloc, Json.noSurplus_congr h.1]

end Parts

/-! ## Values that are alike -/

namespace Json

theorem Alike.indistinct {role : Role} {j k : Json} (h : Alike role j k) : Indistinct role j k := by
  induction h with
  | refl role j => exact .refl role j
  | @object role ms ms' hrole hnone hsome ih =>
    have hmembers : MembersAgree (role.members (.object ms)) (.object ms) (.object ms') :=
      fun name p hmem ↦ .of_some (hnone name p hmem) (ih name p hmem)
    refine ⟨⟨Json.noConfusion, Json.noConfusion⟩, ?_⟩
    cases role with
    | stmt => exact Stmt.ofJson_congr hmembers
    | expr => exact Expr.ofJson_congr hmembers
    | forInit => exact ForInit.ofJson_congr hmembers
    | declarator => exact Declarator.ofJson_congr hmembers
    | location => exact Location.ofJson_congr hmembers
    | position => exact Position.ofJson_congr hmembers
    | regex => exact Regex.ofJson_congr hmembers
    | list | whole => cases hrole
  | @array role xs xs' hlength _ ih =>
    refine ⟨⟨Json.noConfusion, Json.noConfusion⟩, ?_⟩
    cases role with
    -- an object that is asked for may be given by its parts, and all else in a list counts
    | list element => exact .inr ⟨xs, xs', rfl, rfl, hlength, ih⟩
    | declarator => exact Declarator.ofJson_congr_parts ⟨hlength, ih⟩
    | location => exact Location.ofJson_congr_parts ⟨hlength, ih⟩
    | stmt | expr | forInit | position | regex | whole =>
      rw [PartsAgree.eq_of_whole ⟨hlength, ih⟩ fun _ ↦ rfl]
      exact (Indistinct.refl _ _).2

section Changes

variable {role p : Role} {ms ms' : List (String × Json)} {v v' : Json}

/-- Adding, removing, changing and reordering members that do not count leaves an object alike. -/
theorem Alike.of_get? (hrole : role.isRecord = true)
    (h : ((role.members (.object ms)).map fun m ↦ (Json.object ms).get? m.1) =
      (role.members (.object ms)).map fun m ↦ (Json.object ms').get? m.1) :
    Alike role (.object ms) (.object ms') := by
  have hget : ∀ name p, (name, p) ∈ role.members (.object ms) →
      (Json.object ms).get? name = (Json.object ms').get? name :=
    fun name p hmem ↦ List.map_inj_left.mp h (name, p) hmem
  refine .object hrole (fun name p hmem ↦ by rw [hget name p hmem]) fun name p hmem v v' hv hv' ↦ ?_
  rw [hget name p hmem, hv'] at hv
  rw [Option.some.inj hv]
  exact .refl p v

/-- Changes inside one member that counts, with any changes to members that do not count. -/
theorem Alike.of_member (name : String) (hrole : role.isRecord = true)
    (hmem : (role.members (.object ms)).filter (·.1 = name) = [(name, p)])
    (hv : (Json.object ms).get? name = some v) (hv' : (Json.object ms').get? name = some v')
    (h : Alike p v v')
    (hothers : (((role.members (.object ms)).filter (·.1 ≠ name)).map
        fun m ↦ (Json.object ms).get? m.1) =
      ((role.members (.object ms)).filter (·.1 ≠ name)).map fun m ↦ (Json.object ms').get? m.1) :
    Alike role (.object ms) (.object ms') := by
  have hget : ∀ other p, (other, p) ∈ role.members (.object ms) → other ≠ name →
      (Json.object ms).get? other = (Json.object ms').get? other := by
    intro other p hmem hne
    exact List.map_inj_left.mp hothers (other, p)
      (List.mem_filter.mpr ⟨hmem, decide_eq_true hne⟩)
  refine .object hrole (fun other q hq ↦ ?_) fun other q hq w w' hw hw' ↦ ?_
  · by_cases hne : other = name
    · rw [hne, hv, hv']
      exact iff_of_false (Option.some_ne_none v) (Option.some_ne_none v')
    · rw [hget other q hq hne]
  · by_cases hne : other = name
    · subst hne
      obtain rfl : v = w := Option.some.inj (hv.symm.trans hw)
      obtain rfl : v' = w' := Option.some.inj (hv'.symm.trans hw')
      have hq : (other, q) ∈ [(other, p)] :=
        hmem ▸ List.mem_filter.mpr ⟨hq, decide_eq_true rfl⟩
      obtain rfl : q = p := (Prod.mk.inj (List.mem_singleton.mp hq)).2
      exact h
    · rw [hget other q hq hne, hw'] at hw
      rw [Option.some.inj hw]
      exact .refl q w

end Changes

/-- **Decoding looks at the members that count only.** Values that differ in others, at any depth,
are decoded to the same tree or with the same fault, as statements and as expressions. -/
theorem ofJson_eq_of_alike (j k : Json) :
    (Alike .stmt j k → Stmt.ofJson j = Stmt.ofJson k) ∧
      (Alike .expr j k → Expr.ofJson j = Expr.ofJson k) :=
  ⟨fun h ↦ h.indistinct.2, fun h ↦ h.indistinct.2⟩

/-- A variable, as one parser gives it. -/
def plainVariable : Json := object [("name", string "x"), ("type", string "Identifier")]

/-- A block with a loop that the decoder does not know, and the variable. -/
def plainBlock : Json :=
  object [
    ("body", array [
      object [("test", bool true), ("type", string "WhileStatement")],
      object [("expression", plainVariable), ("type", string "ExpressionStatement")]]),
    ("type", string "BlockStatement")]

/-- The variable as a parser gives it that also says whether an access is optional. -/
def rangedVariable : Json :=
  object [("name", string "x"), ("optional", bool false), ("type", string "Identifier")]

/-- The block as a parser gives it that also keeps ranges. The loop has no proper test there. -/
def rangedBlock : Json :=
  object [
    ("body", array [
      object [("range", null), ("test", object []), ("type", string "WhileStatement")],
      object [("expression", rangedVariable), ("range", array []),
        ("type", string "ExpressionStatement")]]),
    ("range", array []),
    ("type", string "BlockStatement")]

theorem plainVariable_alike : Alike .expr plainVariable rangedVariable := .of_get? rfl rfl

theorem plainBlock_alike : Alike .stmt plainBlock rangedBlock := by
  have hstatement : Alike .stmt
      (object [("expression", plainVariable), ("type", string "ExpressionStatement")])
      (object [("expression", rangedVariable), ("range", array []),
        ("type", string "ExpressionStatement")]) :=
    .of_member "expression" rfl rfl rfl rfl plainVariable_alike rfl
  refine .of_member "body" rfl rfl rfl rfl (.array rfl fun i x x' hx hx' ↦ ?_) rfl
  obtain _ | _ | i := i
  · obtain rfl := Option.some.inj hx
    obtain rfl := Option.some.inj hx'
    exact .of_get? rfl rfl
  · obtain rfl := Option.some.inj hx
    obtain rfl := Option.some.inj hx'
    exact hstatement
  · cases hx

/-- The block and the variable are decoded alike as either parser gives them. -/
theorem ofJson_eq_of_ranged :
    (Alike .stmt plainBlock rangedBlock ∧ Stmt.ofJson plainBlock = Stmt.ofJson rangedBlock) ∧
      (Alike .expr plainVariable rangedVariable ∧
        Expr.ofJson plainVariable = Expr.ofJson rangedVariable) :=
  ⟨⟨plainBlock_alike, (ofJson_eq_of_alike _ _).1 plainBlock_alike⟩,
    ⟨plainVariable_alike, (ofJson_eq_of_alike _ _).2 plainVariable_alike⟩⟩

end Json

end ScriptTrace
