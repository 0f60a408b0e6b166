import Mathlib.Data.List.Forall2
import ScriptTrace.Proofs.Induction
import ScriptTrace.Proofs.SwapPlan
import ScriptTrace.Syntax.Build

/-!
# What the swap idiom looks like

The swap idiom as a pattern, said without the search that finds it:

    if (array[left] < array[right]) {
      …
      temp = array[origin];
      array[first] = array[copied];
      array[second] = temp;
      …
    }

`SwapIdiom.Occurs` says that an `if` has this form, and the search finds exactly that
(`SwapPlan.ofIf?_eq_some_iff_occurs`). As the first write of the pattern is also the first write to
an element of the array in the body, the pattern stands at one place at most.

Indices are compared up to their locations. `Expr.Like` does so for expressions of all forms, while
the search refuses to compare most of them; the two agree on expressions that are built from
literals, names and operators alone, and it is enough that this is asked of the indices that are
written to.
-/

namespace ScriptTrace

/-! ## Equality up to locations -/

/-- Equality of literals, numbers compared as numbers. -/
inductive LiteralValue.Like : LiteralValue → LiteralValue → Prop
  | null : Like .null .null
  | bool (b : Bool) : Like (.bool b) (.bool b)
  | number {n m : Number} (h : (n == m) = true) : Like (.number n) (.number m)
  | string (s : String) : Like (.string s) (.string s)
  | other {j k : Json} (h : j.same k = true) : Like (.other j) (.other k)

theorem LiteralValue.same_iff_like {value value' : LiteralValue} :
    value.same value' = true ↔ value.Like value' := by
  constructor
  · intro h
    rw [same.eq_def] at h
    split at h
    · exact .null
    · rw [beq_iff_eq.mp h]
      exact .bool _
    · exact .number h
    · rw [beq_iff_eq.mp h]
      exact .string _
    · exact .other h
    · cases h
  · intro h
    cases h with
    | null => rfl
    | bool | string => exact beq_self_eq_true _
    | number h | other h => exact h

namespace Expr

/-- Equality of expressions up to their locations, number literals compared as numbers. -/
inductive Like : Expr → Expr → Prop
  | literal {value value' : LiteralValue} (h : value.Like value') (regex : Option Regex)
    (loc loc' : Option Location) : Like (literal value regex loc) (literal value' regex loc')
  | identifier (name : String) (loc loc' : Option Location) :
    Like (identifier name loc) (identifier name loc')
  | binary (op : BinaryOp) {left left' right right' : Expr} (hleft : Like left left')
    (hright : Like right right') (loc loc' : Option Location) :
    Like (binary op left right loc) (binary op left' right' loc')
  | logical (op : LogicalOp) {left left' right right' : Expr} (hleft : Like left left')
    (hright : Like right right') (loc loc' : Option Location) :
    Like (logical op left right loc) (logical op left' right' loc')
  | unary (op : UnaryOp) {operand operand' : Expr} (h : Like operand operand')
    (loc loc' : Option Location) : Like (unary op operand loc) (unary op operand' loc')
  | update (op : UpdateOp) (isBefore : Bool) {target target' : Expr} (h : Like target target')
    (loc loc' : Option Location) :
    Like (update op target isBefore loc) (update op target' isBefore loc')
  | assign (op : AssignOp) {target target' value value' : Expr} (htarget : Like target target')
    (hvalue : Like value value') (loc loc' : Option Location) :
    Like (assign op target value loc) (assign op target' value' loc')
  | array {elements elements' : List (Option Expr)}
    (h : List.Forall₂ (Option.Rel Like) elements elements') (loc loc' : Option Location) :
    Like (array elements loc) (array elements' loc')
  | index {object object' i i' : Expr} (hobject : Like object object') (hi : Like i i')
    (loc loc' : Option Location) : Like (index object i loc) (index object' i' loc')
  | property {object object' name name' : Expr} (hobject : Like object object')
    (hname : Like name name') (loc loc' : Option Location) :
    Like (property object name loc) (property object' name' loc')
  | call {callee callee' : Expr} {arguments arguments' : List Expr} (hcallee : Like callee callee')
    (harguments : List.Forall₂ Like arguments arguments') (loc loc' : Option Location) :
    Like (call callee arguments loc) (call callee' arguments' loc')
  | conditional {test test' consequent consequent' alternate alternate' : Expr}
    (htest : Like test test') (hconsequent : Like consequent consequent')
    (halternate : Like alternate alternate') (loc loc' : Option Location) :
    Like (conditional test consequent alternate loc)
      (conditional test' consequent' alternate' loc')
  | unsupported (nodeType : String) (loc loc' : Option Location) :
    Like (unsupported nodeType loc) (unsupported nodeType loc')

/-- Expressions of literals, names and operators alone, with none of the names in `avoided`. -/
inductive BuiltWithout (avoided : List String) : Expr → Prop
  | literal (value : LiteralValue) (regex : Option Regex) (loc : Option Location) :
    BuiltWithout avoided (literal value regex loc)
  | identifier {name : String} (h : name ∉ avoided) (loc : Option Location) :
    BuiltWithout avoided (identifier name loc)
  | binary (op : BinaryOp) {left right : Expr} (hleft : BuiltWithout avoided left)
    (hright : BuiltWithout avoided right) (loc : Option Location) :
    BuiltWithout avoided (binary op left right loc)
  | logical (op : LogicalOp) {left right : Expr} (hleft : BuiltWithout avoided left)
    (hright : BuiltWithout avoided right) (loc : Option Location) :
    BuiltWithout avoided (logical op left right loc)
  | unary (op : UnaryOp) {operand : Expr} (h : BuiltWithout avoided operand)
    (loc : Option Location) : BuiltWithout avoided (unary op operand loc)
  | conditional {test consequent alternate : Expr} (htest : BuiltWithout avoided test)
    (hconsequent : BuiltWithout avoided consequent) (halternate : BuiltWithout avoided alternate)
    (loc : Option Location) : BuiltWithout avoided (conditional test consequent alternate loc)

theorem isStable_iff_builtWithout {avoided : List String} {e : Expr} :
    e.isStable avoided = true ↔ e.BuiltWithout avoided := by
  constructor
  · intro h
    induction e with
    | literal value regex loc => exact .literal value regex loc
    | identifier name loc => exact .identifier (by simpa [isStable] using h) loc
    | binary op left right loc hleft hright =>
      rw [isStable, Bool.and_eq_true] at h
      exact .binary op (hleft h.1) (hright h.2) loc
    | logical op left right loc hleft hright =>
      rw [isStable, Bool.and_eq_true] at h
      exact .logical op (hleft h.1) (hright h.2) loc
    | unary op operand loc hoperand => exact .unary op (hoperand h) loc
    | conditional test consequent alternate loc htest hconsequent halternate =>
      rw [isStable, Bool.and_eq_true, Bool.and_eq_true] at h
      exact .conditional (htest h.1.1) (hconsequent h.1.2) (halternate h.2) loc
    | update | assign | array | index | property | call | unsupported => cases h
  · intro h
    induction h with
    | literal => rfl
    | identifier h => simpa [isStable] using h
    | binary _ _ _ _ hleft hright | logical _ _ _ _ hleft hright =>
      exact Bool.and_eq_true_iff.mpr ⟨hleft, hright⟩
    | unary _ _ _ hoperand => exact hoperand
    | conditional _ _ _ _ htest hconsequent halternate =>
      rw [isStable, htest, hconsequent, halternate]
      rfl

/-- The search compares expressions of some forms only, but these as the pattern does. -/
theorem like_of_same {e e' : Expr} (h : e.same e' = true) : e.Like e' := by
  induction e generalizing e' with
  | literal value regex loc =>
    cases e' <;> simp only [same, Bool.and_eq_true, beq_iff_eq, Bool.false_eq_true] at h
    obtain ⟨hvalue, rfl⟩ := h
    exact .literal (LiteralValue.same_iff_like.mp hvalue) _ _ _
  | identifier name loc =>
    cases e' <;> simp only [same, beq_iff_eq, Bool.false_eq_true] at h
    subst h
    exact .identifier _ _ _
  | binary op left right loc hleft hright =>
    cases e' <;> simp only [same, Bool.and_eq_true, beq_iff_eq, Bool.false_eq_true] at h
    obtain ⟨⟨rfl, h⟩, h'⟩ := h
    exact .binary _ (hleft h) (hright h') _ _
  | logical op left right loc hleft hright =>
    cases e' <;> simp only [same, Bool.and_eq_true, beq_iff_eq, Bool.false_eq_true] at h
    obtain ⟨⟨rfl, h⟩, h'⟩ := h
    exact .logical _ (hleft h) (hright h') _ _
  | unary op operand loc hoperand =>
    cases e' <;> simp only [same, Bool.and_eq_true, beq_iff_eq, Bool.false_eq_true] at h
    obtain ⟨rfl, h⟩ := h
    exact .unary _ (hoperand h) _ _
  | conditional test consequent alternate loc htest hconsequent halternate =>
    cases e' <;> simp only [same, Bool.and_eq_true, Bool.false_eq_true] at h
    obtain ⟨⟨h, h'⟩, h''⟩ := h
    exact .conditional (htest h) (hconsequent h') (halternate h'') _ _
  | update | assign | array | index | property | call | unsupported => cases h

namespace Like

variable {e e' : Expr} {avoided : List String}

theorem isStable_eq (h : e.Like e') (avoided : List String) :
    e.isStable avoided = e'.isStable avoided := by
  induction e generalizing e' with
  | binary _ _ _ _ hleft hright =>
    cases h with
    | binary _ h h' => rw [isStable, isStable, hleft h, hright h']
  | logical _ _ _ _ hleft hright =>
    cases h with
    | logical _ h h' => rw [isStable, isStable, hleft h, hright h']
  | unary _ _ _ hoperand =>
    cases h with
    | unary _ h => rw [isStable, isStable, hoperand h]
  | conditional _ _ _ _ htest hconsequent halternate =>
    cases h with
    | conditional h h' h'' => rw [isStable, isStable, htest h, hconsequent h', halternate h'']
  | literal | identifier | update | assign | array | index | property | call | unsupported =>
    cases h
    rfl

theorem builtWithout_iff (h : e.Like e') : e.BuiltWithout avoided ↔ e'.BuiltWithout avoided := by
  rw [← isStable_iff_builtWithout, ← isStable_iff_builtWithout, h.isStable_eq]

/-- Where one of two expressions is built from literals, names and operators, the search compares
them as the pattern does. -/
theorem same_of_builtWithout (h : e.Like e') (hbuilt : e.BuiltWithout avoided) :
    e.same e' = true := by
  induction hbuilt generalizing e' with
  | literal =>
    cases h with
    | literal hvalue =>
      rw [same, LiteralValue.same_iff_like.mpr hvalue, beq_self_eq_true]
      rfl
  | identifier =>
    cases h
    exact beq_self_eq_true _
  | binary _ _ _ _ hleft hright =>
    cases h with
    | binary _ hl hr =>
      rw [same, hleft hl, hright hr, beq_self_eq_true]
      rfl
  | logical _ _ _ _ hleft hright =>
    cases h with
    | logical _ hl hr =>
      rw [same, hleft hl, hright hr, beq_self_eq_true]
      rfl
  | unary _ _ _ hoperand =>
    cases h with
    | unary _ ho =>
      rw [same, hoperand ho, beq_self_eq_true]
      rfl
  | conditional _ _ _ _ htest hconsequent halternate =>
    cases h with
    | conditional ht hc ha =>
      rw [same, htest ht, hconsequent hc, halternate ha]
      rfl

end Like

/-! ## The shapes of the parts -/

/-- An element of a named array, `array[i]`. -/
inductive IsElement : Expr → String → Expr → Prop
  | intro (array : String) (i : Expr) (nameLoc loc : Option Location) :
    IsElement (index (identifier array nameLoc) i loc) array i

/-- A name. -/
inductive IsName : Expr → String → Prop
  | intro (name : String) (loc : Option Location) : IsName (identifier name loc) name

/-- A comparison of two elements of a named array, `array[i] < array[j]` or with any other operator
that compares. -/
inductive Compares : Expr → String → Expr → Expr → Prop
  | intro {op : BinaryOp} (hop : op.isComparison = true) {left right i j : Expr} {array : String}
    (hleft : left.IsElement array i) (hright : right.IsElement array j) (loc : Option Location) :
    Compares (binary op left right loc) array i j

theorem element?_eq_some_iff {e i : Expr} {array : String} :
    e.element? = some (array, i) ↔ e.IsElement array i := by
  constructor
  · intro h
    obtain ⟨nameLoc, loc, rfl⟩ := eq_index_of_element? h
    exact .intro array i nameLoc loc
  · rintro ⟨⟩
    rfl

theorem name?_eq_some_iff {e : Expr} {name : String} : e.name? = some name ↔ e.IsName name := by
  constructor
  · intro h
    obtain ⟨loc, rfl⟩ := eq_identifier_of_name? h
    exact .intro name loc
  · rintro ⟨⟩
    rfl

theorem comparedElements?_eq_some_iff {e i j : Expr} {array : String} :
    e.comparedElements? = some (array, i, j) ↔ e.Compares array i j := by
  constructor
  · intro h
    rw [comparedElements?.eq_def] at h
    split at h
    · split at h
      · rename_i hop
        split at h
        · rename_i hleft hright
          split at h
          · rename_i hname
            cases h
            exact .intro hop (element?_eq_some_iff.mp hleft)
              (element?_eq_some_iff.mp (hname ▸ hright)) _
          · cases h
        · cases h
      · cases h
    · cases h
  · rintro ⟨hop, ⟨⟩, ⟨⟩⟩
    rw [comparedElements?, if_pos hop]
    exact if_pos rfl

end Expr

namespace Stmt

/-- `array[i] = value;`. -/
inductive AssignsElement : Stmt → String → Expr → Expr → Prop
  | intro {target i : Expr} {array : String} (htarget : target.IsElement array i) (value : Expr)
    (assignLoc loc : Option Location) :
    AssignsElement (expression (.assign .assign target value assignLoc) loc) array i value

/-- `temp = value;`, or the declaration of `temp` alone with this value. -/
inductive Stores : Stmt → String → Expr → Prop
  | declaration (kind : DeclarationKind) {target : Expr} {temp : String}
    (htarget : target.IsName temp) (value : Expr) (declaratorLoc loc : Option Location) :
    Stores (declaration ⟨kind, [⟨target, some value, declaratorLoc⟩], loc⟩) temp value
  | assignment {target : Expr} {temp : String} (htarget : target.IsName temp) (value : Expr)
    (assignLoc loc : Option Location) :
    Stores (expression (.assign .assign target value assignLoc) loc) temp value

theorem elementWrite?_eq_some_iff {s : Stmt} {array : String} {i value : Expr} :
    s.elementWrite? array = some (i, value) ↔ s.AssignsElement array i value := by
  constructor
  · intro h
    obtain ⟨nameLoc, indexLoc, assignLoc, loc, rfl⟩ := eq_of_elementWrite? h
    exact .intro (.intro array i nameLoc indexLoc) value assignLoc loc
  · rintro ⟨⟨⟩⟩
    exact if_pos rfl

theorem elementWrite?_eq_none_iff {s : Stmt} {array : String} :
    s.elementWrite? array = none ↔ ∀ i value, ¬s.AssignsElement array i value := by
  constructor
  · intro h i value hassigns
    rw [elementWrite?_eq_some_iff.mpr hassigns] at h
    cases h
  · intro h
    rcases hwrite : s.elementWrite? array with _ | ⟨i, value⟩
    · rfl
    · exact absurd (elementWrite?_eq_some_iff.mp hwrite) (h i value)

theorem capture?_eq_some_iff {s : Stmt} {temp array : String} {i : Expr} :
    s.capture? temp = some (array, i) ↔ ∃ value, s.Stores temp value ∧ value.IsElement array i := by
  constructor
  · intro h
    obtain ⟨tempLoc, nameLoc, indexLoc, ⟨kind, declaratorLoc, loc, rfl⟩ | ⟨assignLoc, loc, rfl⟩⟩ :=
      eq_of_capture? h
    · exact ⟨_, .declaration kind (.intro temp tempLoc) _ declaratorLoc loc,
        .intro array i nameLoc indexLoc⟩
    · exact ⟨_, .assignment (.intro temp tempLoc) _ assignLoc loc, .intro array i nameLoc indexLoc⟩
  · rintro ⟨value, ⟨_, ⟨⟩⟩ | ⟨⟨⟩⟩, ⟨⟩⟩
    · exact if_pos rfl
    · exact if_pos rfl

end Stmt

/-! ## The pattern -/

/-- The parts of a swap idiom: what it consists of, and the statements around it. -/
structure SwapIdiom where
  array : String
  temp : String
  /-- The compared indices. -/
  left : Expr
  right : Expr
  /-- The index of the element that is stored in the temporary. -/
  origin : Expr
  /-- The index of the element that is written first, and of the one that is copied there. -/
  first : Expr
  copied : Expr
  /-- The index of the element that the temporary is written to. -/
  second : Expr
  before : List Stmt
  capture : Stmt
  write : Stmt
  next : Stmt
  after : List Stmt

namespace SwapIdiom

variable (x : SwapIdiom)

/-- The body that the parts make up. -/
def body : List Stmt := x.before ++ x.capture :: x.write :: x.next :: x.after

/-- The plan that the parts make up. -/
def plan : SwapPlan :=
  ⟨x.array, x.first, x.second, x.before.length + 1, x.write.line, x.next.line⟩

/-- Whether the parts are a swap idiom, as the test of an `if` and the statements that it runs. -/
structure Occurs (test : Expr) (body : List Stmt) : Prop where
  test_compares : test.Compares x.array x.left x.right
  body_eq : body = x.body
  stores : ∃ value, x.capture.Stores x.temp value ∧ value.IsElement x.array x.origin
  assigns_first : ∃ value,
    x.write.AssignsElement x.array x.first value ∧ value.IsElement x.array x.copied
  assigns_second : ∃ value, x.next.AssignsElement x.array x.second value ∧ value.IsName x.temp
  temp_ne : x.temp ≠ x.array
  /-- No write to an element of the array stands before the first. -/
  earlier : ∀ s ∈ x.before ++ [x.capture], ∀ i value, ¬s.AssignsElement x.array i value
  /-- The compared elements are those that are written, in either order. -/
  compared : x.first.Like x.left ∧ x.copied.Like x.right ∨
    x.first.Like x.right ∧ x.copied.Like x.left
  origin_like : x.origin.Like x.first
  second_like : x.second.Like x.copied
  first_built : x.first.BuiltWithout [x.array, x.temp]
  second_built : x.second.BuiltWithout [x.array, x.temp]

end SwapIdiom

namespace SwapPlan

variable {test : Expr} {consequent : Stmt}

/-- What the search has found is a swap idiom. -/
theorem exists_occurs {plan : SwapPlan} (h : ofIf? test consequent = some plan) :
    ∃ x : SwapIdiom, x.Occurs test consequent.asBody ∧ x.plan = plan := by
  obtain ⟨⟨array, i, j⟩, htest, h⟩ := Option.bind_eq_some_iff.mp h
  obtain ⟨before, capture, write, next, after, hbody, hearlier, h⟩ := ofBody?_eq_some_iff.mp h
  obtain ⟨rfl, hposition, x, rfl, rfl, rfl, hcompared⟩ := ofStatements?_eq_some_iff.mp h
  refine ⟨⟨plan.array, x.temp, i, j, x.origin, plan.first, x.copied, plan.second, before,
    x.capture, x.write, x.next, after⟩, ?_, ?_⟩
  · exact {
      test_compares := Expr.comparedElements?_eq_some_iff.mp htest
      body_eq := hbody
      stores := Stmt.capture?_eq_some_iff.mp x.capture_eq
      assigns_first := ⟨x.value, Stmt.elementWrite?_eq_some_iff.mp x.write_eq,
        Expr.element?_eq_some_iff.mp x.value_eq⟩
      assigns_second := ⟨x.stored, Stmt.elementWrite?_eq_some_iff.mp x.next_eq,
        Expr.name?_eq_some_iff.mp x.stored_eq⟩
      temp_ne := x.temp_ne
      earlier := fun s hs ↦ Stmt.elementWrite?_eq_none_iff.mp (hearlier s hs)
      compared := by
        simp only [Bool.or_eq_true, Bool.and_eq_true] at hcompared
        exact hcompared.imp (fun h ↦ ⟨Expr.like_of_same h.1, Expr.like_of_same h.2⟩)
          fun h ↦ ⟨Expr.like_of_same h.1, Expr.like_of_same h.2⟩
      origin_like := Expr.like_of_same x.origin_same
      second_like := Expr.like_of_same x.second_same
      first_built := Expr.isStable_iff_builtWithout.mp x.first_stable
      second_built := Expr.isStable_iff_builtWithout.mp x.second_stable }
  · rw [SwapIdiom.plan, ← hposition, ← x.firstLine_eq, ← x.secondLine_eq]

/-- The search finds a swap idiom. -/
theorem ofIf?_eq_some_of_occurs {x : SwapIdiom} (hx : x.Occurs test consequent.asBody) :
    ofIf? test consequent = some x.plan := by
  obtain ⟨value, hwrite, hvalue⟩ := hx.assigns_first
  obtain ⟨stored, hnext, hstored⟩ := hx.assigns_second
  -- the indices that are written to are built as they have to be, and so are those like them
  have hcopied := hx.second_like.builtWithout_iff.mp hx.second_built
  have horigin := hx.origin_like.builtWithout_iff.mpr hx.first_built
  have hcompared : (x.first.same x.left && x.copied.same x.right ||
      x.first.same x.right && x.copied.same x.left) = true := by
    simp only [Bool.or_eq_true, Bool.and_eq_true]
    exact hx.compared.imp
      (fun h ↦ ⟨h.1.same_of_builtWithout hx.first_built, h.2.same_of_builtWithout hcopied⟩)
      fun h ↦ ⟨h.1.same_of_builtWithout hx.first_built, h.2.same_of_builtWithout hcopied⟩
  let idiom : x.plan.Idiom := {
    temp := x.temp
    origin := x.origin
    copied := x.copied
    value := value
    stored := stored
    capture := x.capture
    write := x.write
    next := x.next
    capture_eq := Stmt.capture?_eq_some_iff.mpr hx.stores
    write_eq := Stmt.elementWrite?_eq_some_iff.mpr hwrite
    value_eq := Expr.element?_eq_some_iff.mpr hvalue
    next_eq := Stmt.elementWrite?_eq_some_iff.mpr hnext
    stored_eq := Expr.name?_eq_some_iff.mpr hstored
    temp_ne := hx.temp_ne
    second_same := hx.second_like.same_of_builtWithout hx.second_built
    origin_same := hx.origin_like.same_of_builtWithout horigin
    first_stable := Expr.isStable_iff_builtWithout.mpr hx.first_built
    second_stable := Expr.isStable_iff_builtWithout.mpr hx.second_built
    firstLine_eq := rfl
    secondLine_eq := rfl }
  refine Option.bind_eq_some_iff.mpr
    ⟨_, Expr.comparedElements?_eq_some_iff.mpr hx.test_compares, ofBody?_eq_some_iff.mpr ?_⟩
  refine ⟨x.before, x.capture, x.write, x.next, x.after, hx.body_eq, fun s hs ↦ ?_, ?_⟩
  · exact Stmt.elementWrite?_eq_none_iff.mpr (hx.earlier s hs)
  · exact ofStatements?_eq_some_iff.mpr ⟨rfl, rfl, idiom, rfl, rfl, rfl, hcompared⟩

/-- **The search finds exactly the swap idiom.** For the test and the consequent of any `if` there
is a plan if and only if they are a swap idiom, and the plan names its array, the two indices that
are written to, the position of the first write and the lines of both. The idiom stands at one place
only. -/
theorem ofIf?_eq_some_iff_occurs (test : Expr) (consequent : Stmt) :
    (∀ plan, ofIf? test consequent = some plan ↔
      ∃ x : SwapIdiom, x.Occurs test consequent.asBody ∧ x.plan = plan) ∧
    ∀ x y : SwapIdiom, x.Occurs test consequent.asBody → y.Occurs test consequent.asBody →
      y.plan = x.plan := by
  constructor
  · intro plan
    constructor
    · exact exists_occurs
    · rintro ⟨x, hx, rfl⟩
      exact ofIf?_eq_some_of_occurs hx
  · intro x y hx hy
    exact Option.some.inj ((ofIf?_eq_some_of_occurs hy).symm.trans (ofIf?_eq_some_of_occurs hx))

end SwapPlan

/-- The comparison of an element with the next one. -/
def Expr.exceedsNext : Expr :=
  .ofBinary .greater (.ofIndex (.ofName "a") (.ofName "j"))
    (.ofIndex (.ofName "a") (.ofBinary .add (.ofName "j") (.ofNumber 1)))

/-- The exchange of an element with the next one, after another statement, on lines of its own. -/
def SwapIdiom.withNext : SwapIdiom :=
  let j := Expr.ofName "j"
  let next := Expr.ofBinary .add j (.ofNumber 1)
  let later := next.atLine 5
  { array := "a"
    temp := "t"
    left := j
    right := next
    origin := j
    first := j
    copied := next
    second := later
    before := [.ofExpr 2 (.ofAssign .add (.ofName "count") (.ofNumber 1))]
    capture := .letVar 3 "t" (.ofIndex (.ofName "a") j)
    write := .ofExpr 4 (.ofAssign .assign (.ofIndex (.ofName "a") j) (.ofIndex (.ofName "a") next))
    next := .ofExpr 5 (.ofAssign .assign (.ofIndex (.ofName "a") later) (.ofName "t"))
    after := [] }

theorem SwapIdiom.occurs_withNext : withNext.Occurs .exceedsNext withNext.body := by
  have hj : (Expr.ofName "j").Like (.ofName "j") := .identifier ..
  have hone : (Expr.ofNumber 1).Like (.ofNumber 1) := .literal (.number rfl) ..
  have hbuilt : (Expr.ofName "j").BuiltWithout ["a", "t"] := .identifier (by decide) _
  exact {
    test_compares := .intro rfl (.intro ..) (.intro ..) _
    body_eq := rfl
    stores := ⟨_, .declaration _ (.intro ..) .., .intro ..⟩
    assigns_first := ⟨_, .intro (.intro ..) .., .intro ..⟩
    assigns_second := ⟨_, .intro (.intro ..) .., .intro ..⟩
    temp_ne := by decide
    earlier := fun s hs ↦ Stmt.elementWrite?_eq_none_iff.mp <| by
      rcases List.mem_pair.mp hs with rfl | rfl <;> rfl
    compared := .inl ⟨hj, .binary _ hj hone ..⟩
    origin_like := hj
    second_like := .binary _ hj hone ..
    first_built := hbuilt
    second_built := .binary _ hbuilt (.literal ..) _ }

/-- The search finds this exchange, whose first write is the third statement of the body, and there
is no other. -/
theorem SwapPlan.ofIf?_withNext :
    SwapIdiom.withNext.Occurs .exceedsNext SwapIdiom.withNext.body ∧
    (∃ plan, ofIf? .exceedsNext (.ofBlock SwapIdiom.withNext.body) = some plan ∧
      plan.position = 2 ∧ plan.firstLine = some 4 ∧ plan.secondLine = some 5) ∧
    ∀ y : SwapIdiom, y.Occurs .exceedsNext SwapIdiom.withNext.body →
      y.plan = SwapIdiom.withNext.plan := by
  obtain ⟨hiff, hunique⟩ :=
    ofIf?_eq_some_iff_occurs .exceedsNext (.ofBlock SwapIdiom.withNext.body)
  have hoccurs := SwapIdiom.occurs_withNext
  exact ⟨hoccurs, ⟨_, (hiff _).mpr ⟨_, hoccurs, rfl⟩, rfl, rfl, rfl⟩, fun y ↦ hunique _ y hoccurs⟩

end ScriptTrace
