import ScriptTrace.Proofs.SwapPlan
import ScriptTrace.Proofs.Induction
import ScriptTrace.Syntax.Describe

/-!
# Trees at other locations

`relocate` gives every node of a tree another location, which may depend on its own. What is read
off a tree without running it stays the same: tags, names, the text of an expression, and the plan
of a swap idiom but for its lines (`SwapPlan.relocates_ofIf?`).

Expression statements are relocated by a function of their own. The location of such a statement
decides whether the second half of a planned exchange is recorded, so it is the only one whose
absence a run can feel.
-/

namespace ScriptTrace

/-- How locations are replaced: those of expression statements, and all others. -/
structure Relocation where
  statement : Option Location → Option Location
  node : Option Location → Option Location

namespace Relocation

/-- Leave every location as it is. -/
def identity : Relocation := ⟨id, id⟩

end Relocation

variable (f : Relocation)

/-! ## Expressions -/

namespace Expr

mutual

/-- An expression at other locations. -/
def relocate (f : Relocation) (e : Expr) : Expr :=
  match e with
  | literal value regex loc => literal value regex (f.node loc)
  | identifier name loc => identifier name (f.node loc)
  | binary op left right loc => binary op (left.relocate f) (right.relocate f) (f.node loc)
  | logical op left right loc => logical op (left.relocate f) (right.relocate f) (f.node loc)
  | unary op operand loc => unary op (operand.relocate f) (f.node loc)
  | update op target isBefore loc => update op (target.relocate f) isBefore (f.node loc)
  | assign op target value loc => assign op (target.relocate f) (value.relocate f) (f.node loc)
  | array elements loc => array (relocateElements f elements) (f.node loc)
  | index object i loc => index (object.relocate f) (i.relocate f) (f.node loc)
  | property object name loc => property (object.relocate f) (name.relocate f) (f.node loc)
  | call callee arguments loc => call (callee.relocate f) (relocateAll f arguments) (f.node loc)
  | conditional test consequent alternate loc =>
    conditional (test.relocate f) (consequent.relocate f) (alternate.relocate f) (f.node loc)
  | unsupported nodeType loc => unsupported nodeType (f.node loc)

/-- The elements of an array literal at other locations. -/
def relocateElements (f : Relocation) : List (Option Expr) → List (Option Expr)
  | [] => []
  | none :: rest => none :: relocateElements f rest
  | some e :: rest => some (e.relocate f) :: relocateElements f rest

/-- Expressions at other locations. -/
def relocateAll (f : Relocation) : List Expr → List Expr
  | [] => []
  | e :: rest => e.relocate f :: relocateAll f rest

end

@[simp] theorem nodeType_relocate (e : Expr) : (e.relocate f).nodeType = e.nodeType := by
  cases e <;> rfl

@[simp] theorem name?_relocate (e : Expr) : (e.relocate f).name? = e.name? := by
  cases e <;> rfl

@[simp] theorem head?_relocateAll (arguments : List Expr) :
    (relocateAll f arguments).head? = arguments.head?.map (relocate f) := by
  cases arguments <;> rfl

theorem element?_relocate (e : Expr) :
    (e.relocate f).element? = e.element?.map (Prod.map id (relocate f)) := by
  cases e with
  | index object i loc => cases object <;> rfl
  | literal | identifier | binary | logical | unary | update | assign | array | property | call
  | conditional | unsupported => rfl

@[simp] theorem describe_relocate (e : Expr) : (e.relocate f).describe = e.describe := by
  induction e with
  | literal | identifier | logical | update | assign | array | call | conditional
  | unsupported => rfl
  | binary op left right loc hleft hright => simp only [relocate, describe, hleft, hright]
  | unary op operand loc hoperand => simp only [relocate, describe, hoperand]
  | index object i loc hobject hi => simp only [relocate, describe, hobject, hi]
  | property object name loc hobject hname => simp only [relocate, describe, hobject, hname]

/-- Being the same but for locations is about everything but locations. -/
theorem same_relocate (e e' : Expr) : (e.relocate f).same (e'.relocate f) = e.same e' := by
  induction e generalizing e' with
  | literal | identifier | update | assign | array | index | property | call | unsupported =>
    cases e' <;> rfl
  | binary op left right loc hleft hright =>
    cases e' <;> simp only [relocate, same, hleft, hright]
  | logical op left right loc hleft hright =>
    cases e' <;> simp only [relocate, same, hleft, hright]
  | unary op operand loc hoperand => cases e' <;> simp only [relocate, same, hoperand]
  | conditional test consequent alternate loc htest hconsequent halternate =>
    cases e' <;> simp only [relocate, same, htest, hconsequent, halternate]

theorem isStable_relocate (changed : List String) (e : Expr) :
    (e.relocate f).isStable changed = e.isStable changed := by
  induction e with
  | literal | identifier | update | assign | array | index | property | call
  | unsupported => rfl
  | binary op left right loc hleft hright | logical op left right loc hleft hright =>
    simp only [relocate, isStable, hleft, hright]
  | unary op operand loc hoperand => simp only [relocate, isStable, hoperand]
  | conditional test consequent alternate loc htest hconsequent halternate =>
    simp only [relocate, isStable, htest, hconsequent, halternate]

theorem comparedElements?_relocate (e : Expr) : (e.relocate f).comparedElements? =
    e.comparedElements?.map (Prod.map id (Prod.map (relocate f) (relocate f))) := by
  cases e with
  | binary op left right loc =>
    simp only [relocate, comparedElements?, element?_relocate]
    by_cases hop : op.isComparison = true
    · rw [if_pos hop, if_pos hop]
      cases left.element? with
      | none => rfl
      | some x =>
        cases right.element? with
        | none => rfl
        | some y =>
          simp only [Option.map_some, Prod.map, id]
          split <;> rfl
    · rw [if_neg hop, if_neg hop]
      rfl
  | literal | identifier | logical | unary | update | assign | array | index | property | call
  | conditional | unsupported => rfl

end Expr

/-! ## Statements -/

namespace Declarator

/-- A declarator at other locations. -/
def relocate (d : Declarator) : Declarator :=
  ⟨d.target.relocate f, d.init.map (Expr.relocate f), f.node d.loc⟩

end Declarator

namespace Declaration

/-- A declaration at other locations. -/
def relocate (d : Declaration) : Declaration :=
  ⟨d.kind, d.declarators.map (Declarator.relocate f), f.node d.loc⟩

end Declaration

namespace ForInit

/-- The first part of the head of a loop at other locations. -/
def relocate : ForInit → ForInit
  | declaration d => declaration (d.relocate f)
  | expression e => expression (e.relocate f)

end ForInit

namespace Stmt

mutual

/-- A statement at other locations. -/
def relocate (f : Relocation) (s : Stmt) : Stmt :=
  match s with
  | declaration d => declaration (d.relocate f)
  | forLoop init test update body loc =>
    forLoop (init.map (ForInit.relocate f)) (test.map (Expr.relocate f))
      (update.map (Expr.relocate f)) (body.relocate f) (f.node loc)
  | ifThen test consequent none loc =>
    ifThen (test.relocate f) (consequent.relocate f) none (f.node loc)
  | ifThen test consequent (some alternate) loc =>
    ifThen (test.relocate f) (consequent.relocate f) (some (alternate.relocate f)) (f.node loc)
  | block body loc => block (relocateAll f body) (f.node loc)
  | expression e loc => expression (e.relocate f) (f.statement loc)
  | empty loc => empty (f.node loc)
  | unsupported nodeType loc => unsupported nodeType (f.node loc)

/-- Statements at other locations. -/
def relocateAll (f : Relocation) : List Stmt → List Stmt
  | [] => []
  | s :: rest => s.relocate f :: relocateAll f rest

end

theorem relocate_ifThen (test : Expr) (consequent : Stmt) (alternate : Option Stmt)
    (loc : Option Location) : (ifThen test consequent alternate loc).relocate f =
      ifThen (test.relocate f) (consequent.relocate f) (alternate.map (relocate f))
        (f.node loc) := by
  cases alternate <;> rfl

theorem relocateAll_eq_map (body : List Stmt) : relocateAll f body = body.map (relocate f) := by
  induction body with
  | nil => rfl
  | cons s rest ih => rw [relocateAll, ih, List.map_cons]

@[simp] theorem nodeType_relocate (s : Stmt) : (s.relocate f).nodeType = s.nodeType := by
  cases s with
  | ifThen test consequent alternate loc => cases alternate <;> rfl
  | declaration | forLoop | block | expression | empty | unsupported => rfl

theorem asBody_relocate (s : Stmt) : (s.relocate f).asBody = s.asBody.map (relocate f) := by
  cases s with
  | block body loc => exact relocateAll_eq_map f body
  | ifThen test consequent alternate loc => cases alternate <;> rfl
  | declaration | forLoop | expression | empty | unsupported => rfl

theorem elementWrite?_relocate (array : String) (s : Stmt) : (s.relocate f).elementWrite? array =
    (s.elementWrite? array).map (Prod.map (Expr.relocate f) (Expr.relocate f)) := by
  cases s with
  | expression e loc =>
    cases e with
    | assign op target value assignLoc =>
      cases op <;> try rfl
      simp only [relocate, Expr.relocate, elementWrite?, Expr.element?_relocate]
      cases target.element? with
      | none => rfl
      | some x =>
        simp only [Option.map_some, Prod.map, id]
        split <;> rfl
    | literal | identifier | binary | logical | unary | update | array | index | property | call
    | conditional | unsupported => rfl
  | ifThen test consequent alternate loc => cases alternate <;> rfl
  | declaration | forLoop | block | empty | unsupported => rfl

theorem capture?_relocate (temp : String) (s : Stmt) :
    (s.relocate f).capture? temp = (s.capture? temp).map (Prod.map id (Expr.relocate f)) := by
  cases s with
  | declaration d =>
    obtain ⟨kind, declarators, loc⟩ := d
    match declarators with
    | [] | ⟨_, none, _⟩ :: _ | ⟨_, some _, _⟩ :: _ :: _ => rfl
    | [⟨target, some value, _⟩] =>
      simp only [relocate, Declaration.relocate, Declarator.relocate, List.map_cons, List.map_nil,
        Option.map_some, capture?, Expr.name?_relocate, Expr.element?_relocate]
      split <;> rfl
  | expression e loc =>
    cases e with
    | assign op target value assignLoc =>
      cases op <;> try rfl
      simp only [relocate, Expr.relocate, capture?, Expr.name?_relocate, Expr.element?_relocate]
      split <;> rfl
    | literal | identifier | binary | logical | unary | update | array | index | property | call
    | conditional | unsupported => rfl
  | ifThen test consequent alternate loc => cases alternate <;> rfl
  | forLoop | block | empty | unsupported => rfl

end Stmt

/-- A program at other locations. -/
def Program.relocate (p : Program) : Program := ⟨Stmt.relocateAll f p.body, f.node p.loc⟩

/-! ## Plans -/

namespace SwapPlan

/-- A plan and that of the same idiom at other locations. -/
structure Relocates (plan plan' : SwapPlan) : Prop where
  array : plan'.array = plan.array
  first : plan'.first = plan.first.relocate f
  second : plan'.second = plan.second.relocate f
  position : plan'.position = plan.position
  firstLine : ∃ loc, plan.firstLine = Option.map (·.start.line) loc ∧
    plan'.firstLine = Option.map (·.start.line) (f.statement loc)
  secondLine : ∃ loc, plan.secondLine = Option.map (·.start.line) loc ∧
    plan'.secondLine = Option.map (·.start.line) (f.statement loc)

variable {f}

/-- A search that goes on with what another finds, where the other also finds its image. -/
private theorem rel_bind {α β γ : Type} {S : γ → γ → Prop} {x : Option α} {φ : α → β}
    {k : α → Option γ} {k' : β → Option γ}
    (h : ∀ a, x = some a → Option.Rel S (k a) (k' (φ a))) :
    Option.Rel S (x >>= k) (x.map φ >>= k') := by
  cases x with
  | none => exact .none
  | some a => exact h a rfl

private theorem rel_guard {γ : Type} {S : γ → γ → Prop} {P Q : Prop} [Decidable P] [Decidable Q]
    {k k' : Unit → Option γ} (hPQ : P ↔ Q) (h : Option.Rel S (k ()) (k' ())) :
    Option.Rel S (guard P >>= k) (guard Q >>= k') := by
  change Option.Rel S ((if P then pure () else failure) >>= k)
    ((if Q then pure () else failure) >>= k')
  by_cases hP : P
  · rw [if_pos hP, if_pos (hPQ.mp hP)]
    exact h
  · rw [if_neg hP, if_neg (mt hPQ.mpr hP)]
    exact .none

/-- The line of a statement that writes to an element, here and at other locations. -/
private theorem exists_loc_of_elementWrite? {array : String} {s : Stmt} {x : Expr × Expr}
    (h : s.elementWrite? array = some x) : ∃ loc, s.line = Option.map (·.start.line) loc ∧
      (s.relocate f).line = Option.map (·.start.line) (f.statement loc) := by
  obtain ⟨nameLoc, indexLoc, assignLoc, loc, rfl⟩ := Stmt.eq_of_elementWrite? h
  exact ⟨loc, rfl, rfl⟩

theorem relocates_ofStatements? (array : String) (i j : Expr) (position : Nat)
    (before write next : Stmt) :
    Option.Rel (Relocates f) (ofStatements? array i j position before write next)
      (ofStatements? array (i.relocate f) (j.relocate f) position (before.relocate f)
        (write.relocate f) (next.relocate f)) := by
  rw [ofStatements?, ofStatements?, Stmt.elementWrite?_relocate, Stmt.elementWrite?_relocate]
  refine rel_bind fun written hwrite ↦ rel_bind fun written' hnext ↦ ?_
  obtain ⟨first, copied⟩ := written
  obtain ⟨second, stored⟩ := written'
  dsimp only [Prod.map]
  rw [Expr.element?_relocate, Expr.name?_relocate]
  refine rel_bind fun source hsource ↦ ?_
  cases stored.name? with
  | none => exact .none
  | some temp =>
    rw [Option.bind_eq_bind, Option.bind_eq_bind, Option.bind_some, Option.bind_some,
      Stmt.capture?_relocate]
    refine rel_bind fun captured hcaptured ↦ ?_
    refine rel_guard .rfl (rel_guard ?_ (rel_guard ?_ (rel_guard ?_ (.some ?_))))
    · simp only [Prod.map, Expr.same_relocate]
    · simp only [Prod.map, Expr.same_relocate]
    · simp only [Expr.isStable_relocate]
    exact ⟨rfl, rfl, rfl, rfl, exists_loc_of_elementWrite? hwrite,
      exists_loc_of_elementWrite? hnext⟩

theorem relocates_ofBody? (array : String) (i j : Expr) (body : List Stmt) :
    Option.Rel (Relocates f) (ofBody? array i j body)
      (ofBody? array (i.relocate f) (j.relocate f) (body.map (Stmt.relocate f))) := by
  have hposition : (body.map (Stmt.relocate f)).findIdx (fun s ↦ (s.elementWrite? array).isSome) =
      body.findIdx fun s ↦ (s.elementWrite? array).isSome := by
    rw [List.findIdx_map]
    congr 1
    funext s
    rw [Function.comp_apply, Stmt.elementWrite?_relocate, Option.isSome_map]
  rw [ofBody?.eq_def, ofBody?.eq_def, hposition]
  dsimp only
  cases body.findIdx fun s ↦ (s.elementWrite? array).isSome with
  | zero => exact .none
  | succ before =>
    dsimp only
    rw [← List.map_drop]
    rcases body.drop before with _ | ⟨capture, _ | ⟨write, _ | ⟨next, after⟩⟩⟩
    · exact .none
    · exact .none
    · exact .none
    · exact relocates_ofStatements? array i j _ capture write next

/-- The plan of an idiom at other locations. -/
theorem relocates_ofIf? (test : Expr) (consequent : Stmt) :
    Option.Rel (Relocates f) (ofIf? test consequent)
      (ofIf? (test.relocate f) (consequent.relocate f)) := by
  rw [ofIf?, ofIf?, Expr.comparedElements?_relocate, Stmt.asBody_relocate]
  exact rel_bind fun ⟨array, i, j⟩ _ ↦ relocates_ofBody? array i j consequent.asBody

end SwapPlan

/-! ## The same locations -/

namespace Expr

theorem relocateElements_eq_self {elements : List (Option Expr)}
    (h : ∀ e, some e ∈ elements → e.relocate .identity = e) :
    relocateElements .identity elements = elements := by
  induction elements with
  | nil => rfl
  | cons element rest ih =>
    have hrest := ih fun e he ↦ h e (List.mem_cons_of_mem _ he)
    cases element with
    | none => rw [relocateElements, hrest]
    | some e => rw [relocateElements, hrest, h e List.mem_cons_self]

theorem relocateAll_eq_self {arguments : List Expr}
    (h : ∀ e ∈ arguments, e.relocate .identity = e) :
    relocateAll .identity arguments = arguments := by
  induction arguments with
  | nil => rfl
  | cons e rest ih =>
    rw [relocateAll, ih fun e he ↦ h e (List.mem_cons_of_mem _ he), h e List.mem_cons_self]

@[simp] theorem relocate_identity (e : Expr) : e.relocate .identity = e := by
  induction e with
  | literal | identifier | unsupported => rfl
  | array elements loc h =>
    rw [relocate, relocateElements_eq_self h]
    rfl
  | call callee arguments loc hcallee h =>
    rw [relocate, relocateAll_eq_self h, hcallee]
    rfl
  | binary op left right loc hleft hright | logical op left right loc hleft hright =>
    rw [relocate, hleft, hright]
    rfl
  | unary op operand loc hoperand =>
    rw [relocate, hoperand]
    rfl
  | update op target isBefore loc htarget =>
    rw [relocate, htarget]
    rfl
  | assign op target value loc htarget hvalue =>
    rw [relocate, htarget, hvalue]
    rfl
  | index object i loc hobject hi =>
    rw [relocate, hobject, hi]
    rfl
  | property object name loc hobject hname =>
    rw [relocate, hobject, hname]
    rfl
  | conditional test consequent alternate loc htest hconsequent halternate =>
    rw [relocate, htest, hconsequent, halternate]
    rfl

@[simp] theorem map_relocate_identity (e : Option Expr) :
    e.map (Expr.relocate .identity) = e := by
  cases e <;> simp

end Expr

@[simp] theorem Declaration.relocate_identity (d : Declaration) : d.relocate .identity = d := by
  have hdeclarator : Declarator.relocate .identity = id := by
    funext declarator
    rw [Declarator.relocate, Expr.relocate_identity, Expr.map_relocate_identity]
    rfl
  rw [Declaration.relocate, hdeclarator, List.map_id]
  rfl

@[simp] theorem ForInit.map_relocate_identity (init : Option ForInit) :
    init.map (ForInit.relocate .identity) = init := by
  rcases init with _ | ⟨d⟩ | ⟨e⟩ <;> simp [ForInit.relocate]

namespace Stmt

theorem relocateAll_eq_self {body : List Stmt} (h : ∀ s ∈ body, s.relocate .identity = s) :
    relocateAll .identity body = body := by
  rw [relocateAll_eq_map, List.map_congr_left h, List.map_id']

@[simp] theorem relocate_identity (s : Stmt) : s.relocate .identity = s := by
  induction s with
  | declaration d => rw [relocate, Declaration.relocate_identity]
  | forLoop init test update body loc hbody =>
    rw [relocate, ForInit.map_relocate_identity, Expr.map_relocate_identity,
      Expr.map_relocate_identity, hbody]
    rfl
  | ifThen test consequent alternate loc hconsequent halternate =>
    cases alternate with
    | none =>
      rw [relocate, Expr.relocate_identity, hconsequent]
      rfl
    | some s =>
      rw [relocate, Expr.relocate_identity, hconsequent, halternate s rfl]
      rfl
  | block body loc hbody =>
    rw [relocate, relocateAll_eq_self hbody]
    rfl
  | expression e loc =>
    rw [relocate, Expr.relocate_identity]
    rfl
  | empty | unsupported => rfl

end Stmt

@[simp] theorem Program.relocate_identity (p : Program) : p.relocate .identity = p := by
  rw [Program.relocate, Stmt.relocateAll_eq_self fun s _ ↦ s.relocate_identity]
  rfl

end ScriptTrace
