import ScriptTrace.Syntax.Tree

/-!
# Induction on trees

Expressions and statements nest through lists and options, so their own recursors have one motive
for each such layer. The principles here have a single motive, and give the hypothesis for every
part of a node at once: for each element of an array literal, each argument of a call, each
statement of a block.

The property name after a point is a part like any other here, although nothing evaluates it.
-/

namespace ScriptTrace

/-- Induction on an expression, with a hypothesis for each of its parts. -/
@[elab_as_elim, induction_eliminator]
theorem Expr.induction {motive : Expr → Prop}
    (literal : ∀ value regex loc, motive (.literal value regex loc))
    (identifier : ∀ name loc, motive (.identifier name loc))
    (binary : ∀ op left right loc, motive left → motive right →
      motive (.binary op left right loc))
    (logical : ∀ op left right loc, motive left → motive right →
      motive (.logical op left right loc))
    (unary : ∀ op operand loc, motive operand → motive (.unary op operand loc))
    (update : ∀ op target isBefore loc, motive target → motive (.update op target isBefore loc))
    (assign : ∀ op target value loc, motive target → motive value →
      motive (.assign op target value loc))
    (array : ∀ elements loc, (∀ e, some e ∈ elements → motive e) → motive (.array elements loc))
    (index : ∀ object i loc, motive object → motive i → motive (.index object i loc))
    (property : ∀ object name loc, motive object → motive name →
      motive (.property object name loc))
    (call : ∀ callee arguments loc, motive callee → (∀ e ∈ arguments, motive e) →
      motive (.call callee arguments loc))
    (conditional : ∀ test consequent alternate loc, motive test → motive consequent →
      motive alternate → motive (.conditional test consequent alternate loc))
    (unsupported : ∀ nodeType loc, motive (.unsupported nodeType loc)) (e : Expr) : motive e := by
  refine @Expr.rec motive (fun elements ↦ ∀ e, some e ∈ elements → motive e)
    (fun arguments ↦ ∀ e ∈ arguments, motive e) (fun element ↦ ∀ e, some e = element → motive e)
    literal identifier binary logical unary update assign array index property call conditional
    unsupported ?_ ?_ ?_ ?_ ?_ ?_ e
  · intro e he
    cases he
  · intro element elements hhead htail e he
    rcases List.mem_cons.mp he with he | he
    · exact hhead e he
    · exact htail e he
  · intro e he
    cases he
  · intro argument arguments hhead htail e he
    rcases List.mem_cons.mp he with rfl | he
    · exact hhead
    · exact htail e he
  · intro e he
    cases he
  · intro e' h e he
    rwa [Option.some.inj he]

/-- Induction on a statement, with a hypothesis for each statement directly in it. -/
@[elab_as_elim, induction_eliminator]
theorem Stmt.induction {motive : Stmt → Prop}
    (declaration : ∀ d, motive (.declaration d))
    (forLoop : ∀ init test update body loc, motive body →
      motive (.forLoop init test update body loc))
    (ifThen : ∀ test consequent alternate loc, motive consequent →
      (∀ s, alternate = some s → motive s) → motive (.ifThen test consequent alternate loc))
    (block : ∀ body loc, (∀ s ∈ body, motive s) → motive (.block body loc))
    (expression : ∀ e loc, motive (.expression e loc))
    (empty : ∀ loc, motive (.empty loc))
    (unsupported : ∀ nodeType loc, motive (.unsupported nodeType loc)) (s : Stmt) : motive s := by
  refine @Stmt.rec motive (fun alternate ↦ ∀ s, alternate = some s → motive s)
    (fun body ↦ ∀ s ∈ body, motive s) declaration forLoop ifThen block expression empty
    unsupported ?_ ?_ ?_ ?_ s
  · intro s hs
    cases hs
  · intro s' h s hs
    rwa [← Option.some.inj hs]
  · intro s hs
    cases hs
  · intro statement body hhead htail s hs
    rcases List.mem_cons.mp hs with rfl | hs
    · exact hhead
    · exact htail s hs

end ScriptTrace
