import ScriptTrace.Proofs.Lockstep
import ScriptTrace.Proofs.Visits

/-!
# Trees in lockstep

A relation that steps keep holds of running any tree, here and at other locations. The names on
which its steps have to be related are those that the tree mentions: of all its identifiers, and of
the texts by which calls name an array. That this is enough is what ties the nodes of a tree to what
a run looks up.
-/

namespace ScriptTrace

/-- The name that a node mentions: that of an identifier, or the text by which a call names an
array. -/
def Node.mentioned? : Node → Option String
  | expr (.identifier name _) => some name
  | expr (.call _ (.literal (.string text) _ _ :: _) _) => some text
  | _ => none

/-- Whether all names that are mentioned at a node and below it are among `names`. -/
def Node.NamesIn (names : String → Prop) (n : Node) : Prop :=
  n.Everywhere fun n ↦ ∀ name, n.mentioned? = some name → names name

namespace Node.NamesIn

variable {names : String → Prop}

theorem mentioned {e : Expr} (h : (expr e).NamesIn names) {name : String}
    (hname : (expr e).mentioned? = some name) : names name :=
  Everywhere.self (fun _ _ hd ↦ nomatch hd) h name hname

theorem name? {e : Expr} (h : (expr e).NamesIn names) {name : String}
    (hname : e.name? = some name) : names name := by
  obtain ⟨loc, rfl⟩ := Expr.eq_identifier_of_name? hname
  exact h.mentioned rfl

/-- The name by which a call names its array. -/
theorem of_swapArray {callee : Expr} {arguments : List Expr} {loc : Option Location}
    (h : (expr (.call callee arguments loc)).NamesIn names) {name : String}
    (hname : Eval.swapArray arguments.head? = .ok name) : names name := by
  cases arguments with
  | nil => cases hname
  | cons e rest =>
    cases e with
    | identifier other loc =>
      obtain rfl : other = name := Except.ok.inj hname
      have hfirst : (expr (.identifier other loc)).NamesIn names :=
        Everywhere.child h (by simp [children, Expr.children])
      exact hfirst.name? rfl
    | literal value regex loc =>
      cases value with
      | string text =>
        obtain rfl : text = name := Except.ok.inj hname
        exact h.mentioned rfl
      | null | bool | number | other => cases hname
    | binary | logical | unary | update | assign | array | index | property | call | conditional
    | unsupported => cases hname

/-- Where all names are allowed, nothing is asked. -/
theorem of_forall (h : ∀ name, names name) (n : Node) : n.NamesIn names := by
  cases n with
  | expr e => exact fun _ _ name _ ↦ h name
  | stmt s => cases s <;> exact ⟨none, fun _ _ name _ ↦ h name⟩

theorem child {n c : Node} (h : n.NamesIn names) (hc : c ∈ n.children) : c.NamesIn names :=
  Everywhere.child h hc

end Node.NamesIn

/-- Whether a relocation changes nothing that counts: no location if lines have to be `exact`, and
never whether an expression statement has one. -/
structure Relocation.Suits (f : Relocation) (exact : Prop) : Prop where
  keeps : exact → f = .identity
  isSome : ∀ loc, (f.statement loc).isSome = loc.isSome

namespace Relocation.Suits

theorem identity (exact : Prop) : Relocation.identity.Suits exact := ⟨fun _ ↦ rfl, fun _ ↦ rfl⟩

variable {f : Relocation} {exact : Prop} (hf : f.Suits exact)

include hf

theorem line {α : Type} (read : Location → α) (loc : Option Location) (hexact : exact) :
    Option.map read loc = Option.map read (f.node loc) := by
  rw [hf.keeps hexact]
  rfl

theorem exprLine (e : Expr) (hexact : exact) : e.line = (e.relocate f).line := by
  rw [hf.keeps hexact, Expr.relocate_identity]

theorem stmtLine (s : Stmt) (hexact : exact) : s.line = (s.relocate f).line := by
  rw [hf.keeps hexact, Stmt.relocate_identity]

end Relocation.Suits

namespace Eval.Lockstep

variable {names : String → Prop} {exact : Prop} {R : {α : Type} → Eval α → Eval α → Prop}
  (hR : Lockstep names exact R) {f : Relocation} (hf : f.Suits exact)

include hR hf

/-! ## Expressions -/

theorem eval_and_place (e : Expr) (hnames : (Node.expr e).NamesIn names) :
    R e.eval (e.relocate f).eval ∧ R e.place (e.relocate f).place := by
  -- an element is a target and a value, and both run its parts
  induction e using Expr.induction_of_children with
  | h e ih =>
    have hpart : ∀ c ∈ e.children,
        R c.eval (c.relocate f).eval ∧ R c.place (c.relocate f).place :=
      fun c hc ↦ ih c hc (hnames.child (List.mem_map_of_mem hc))
    have hname : ∀ c ∈ e.children, ∀ name, c.name? = some name → names name :=
      fun c hc _ ↦ (hnames.child (c := .expr c) (List.mem_map_of_mem hc)).name?
    have hline := hf.exprLine
    cases e with
    | literal value regex loc => exact ⟨hR.atNode _ (hline _) (hR.ofExcept _), hR.fail _⟩
    | identifier name loc =>
      exact ⟨hR.atNode _ (hline _) (hR.identifierValue (hnames.name? rfl)), hR.pure _⟩
    | binary op left right loc =>
      refine ⟨hR.atNode _ (hline _) ?_, hR.fail _⟩
      refine hR.bind (hpart left (by simp [Expr.children])).1 fun a _ ↦ ?_
      refine hR.bind (hpart right (by simp [Expr.children])).1 fun b _ ↦ ?_
      exact hR.bind hR.heap fun _ _ ↦ hR.ofExcept _
    | logical op left right loc =>
      refine ⟨hR.atNode _ (hline _) ?_, hR.fail _⟩
      split
      · refine hR.bind (hpart left (by simp [Expr.children])).1 fun a _ ↦ ?_
        split
        · exact (hpart right (by simp [Expr.children])).1
        · exact hR.pure a
      · exact hR.fail _
    | unary op operand loc =>
      refine ⟨hR.atNode _ (hline _) ?_, hR.fail _⟩
      refine hR.bind (hpart operand List.mem_cons_self).1 fun a _ ↦ ?_
      exact hR.bind hR.heap fun _ _ ↦ hR.ofExcept _
    | update op target isBefore loc =>
      have hstep := hR.step op isBefore (hpart target List.mem_cons_self).2
        fun name hgives ↦ hname target List.mem_cons_self name hgives.of_place
      exact ⟨hR.atNode _ (hline _) (hR.bind hstep fun _ _ ↦ hR.pure _), hR.fail _⟩
    | assign op target value loc =>
      have hassign := hR.assign op (hpart value (by simp [Expr.children])).1
        (hpart target List.mem_cons_self).2
        fun name hgives ↦ hname target List.mem_cons_self name hgives.of_place
      exact ⟨hR.atNode _ (hline _) (hR.bind hassign fun _ _ ↦ hR.pure _), hR.fail _⟩
    | array elements loc =>
      have hvalues := hR.evalElements (f := f) fun e he ↦
        (hpart e (by simpa [Expr.children] using he)).1
      refine ⟨hR.atNode _ (hline _) (hR.bind hvalues fun values _ ↦ ?_), hR.fail _⟩
      exact hR.bind (hR.allocate _) fun id _ ↦ hR.pure _
    | index object i loc =>
      have helement := hR.element f (hname object List.mem_cons_self)
        (hpart object List.mem_cons_self).1 (hpart i (by simp [Expr.children])).1
      refine ⟨hR.atNode _ (hline _) (hR.bind helement fun place hgives ↦ hR.read ?_), helement⟩
      rintro name rfl
      cases hgives.of_place (e := .index object i loc)
    | property object name loc =>
      refine ⟨hR.atNode _ (hline _) ?_, hR.fail _⟩
      refine hR.bind (hpart object List.mem_cons_self).1 fun v _ ↦ ?_
      refine hR.bind hR.heap fun h _ ↦ ?_
      rw [Expr.propertyValue_relocate]
      exact hR.ofExcept _
    | call callee arguments loc =>
      have harguments := hR.evalAfterFirst (f := f) fun e he ↦
        (hpart e (List.mem_cons_of_mem _ he)).1
      refine ⟨hR.atNode _ (hline _) ?_, hR.fail _⟩
      rw [Expr.name?_relocate, Expr.nodeType_relocate, Expr.head?_relocateAll]
      split
      · exact hR.fail _
      · split
        · exact hR.fail _
        · refine hR.swap (swapArray_relocate f _) (fun name hname ↦ ?_) harguments (hf.line _ loc)
          exact hnames.of_swapArray hname
    | conditional test consequent alternate loc =>
      refine ⟨hR.atNode _ (hline _) ?_, hR.fail _⟩
      refine hR.bind (hpart test (by simp [Expr.children])).1 fun a _ ↦ ?_
      split
      · exact (hpart consequent (by simp [Expr.children])).1
      · exact (hpart alternate (by simp [Expr.children])).1
    | unsupported nodeType loc => exact ⟨hR.atNode _ (hline _) (hR.fail _), hR.fail _⟩

theorem eval {e : Expr} (hnames : (Node.expr e).NamesIn names) : R e.eval (e.relocate f).eval :=
  (hR.eval_and_place hf e hnames).1

theorem evalWrite {e : Expr} (hnames : (Node.expr e).NamesIn names) :
    R e.evalWrite (e.relocate f).evalWrite := by
  have heval := hR.bind (hR.eval hf hnames) fun _ _ ↦ hR.pure (none : Option Written)
  cases e with
  | assign op target value loc =>
    have htarget := hnames.child (c := .expr target) (by simp [Node.children, Expr.children])
    have hassign := hR.assign op
      (hR.eval hf (hnames.child (c := .expr value) (by simp [Node.children, Expr.children])))
      (hR.eval_and_place hf target htarget).2 fun _ hgives ↦ htarget.name? hgives.of_place
    exact hR.atNode _ (hf.line _ loc) (hR.bind hassign fun _ _ ↦ hR.pure _)
  | update op target isBefore loc =>
    have htarget := hnames.child (c := .expr target) (by simp [Node.children, Expr.children])
    have hstep := hR.step op isBefore (hR.eval_and_place hf target htarget).2
      fun _ hgives ↦ htarget.name? hgives.of_place
    exact hR.atNode _ (hf.line _ loc) (hR.bind hstep fun _ _ ↦ hR.pure _)
  | literal | identifier | binary | logical | unary | array | index | property | call | conditional
  | unsupported => exact heval

/-! ## Declarations and heads of loops -/

theorem declaration {d : Declaration} (hnames : (Node.stmt (.declaration d)).NamesIn names) :
    R d.exec (d.relocate f).exec := by
  refine hR.bindDeclarators (hf.line _ d.loc) fun declarator hd ↦
    ⟨fun name hname ↦ ?_, fun e he ↦ ?_⟩
  · have htarget : (Node.expr declarator.target).NamesIn names := hnames.child
      (List.mem_append_left _ (List.mem_map.mpr ⟨declarator, hd, rfl⟩))
    exact htarget.name? hname
  · refine hR.eval hf (hnames.child (List.mem_append_right _ (List.mem_map_of_mem ?_)))
    exact List.mem_filterMap.mpr ⟨declarator, hd, he⟩

theorem forInit {init : Option ForInit}
    (hnames : ∀ i, init = some i → i.node.NamesIn names) :
    R (ForInit.exec init) (ForInit.exec (init.map (ForInit.relocate f))) := by
  cases init with
  | none => exact hR.pure ()
  | some init =>
    have hinit := hnames init rfl
    cases init with
    | declaration d => exact hR.declaration hf hinit
    | expression e => exact hR.bind (hR.eval hf hinit) fun _ _ ↦ hR.pure ()

/-! ## Plans -/

/-- The exchanges of a plan and of the plan of the same idiom at other locations. -/
theorem planned {test : Expr} {consequent : Stmt} (hnames : (Node.stmt consequent).NamesIn names) :
    Option.Rel (SwapsAlike R) (SwapPlan.ofIf? test consequent)
      (SwapPlan.ofIf? (test.relocate f) (consequent.relocate f)) := by
  have hrel := SwapPlan.relocates_ofIf? (f := f) test consequent
  generalize hplan : SwapPlan.ofIf? test consequent = plan at hrel ⊢
  generalize SwapPlan.ofIf? (test.relocate f) (consequent.relocate f) = plan' at hrel ⊢
  cases hrel with
  | none => exact .none
  | @some plan plan' hrel =>
    obtain ⟨body, bodyLoc, rfl⟩ := SwapPlan.exists_block hplan
    obtain ⟨x, before, after, hbody, -⟩ := SwapPlan.exists_idiom hplan
    have hstatement : ∀ s ∈ body, (Node.stmt s).NamesIn names :=
      fun s hs ↦ hnames.child (List.mem_map_of_mem hs)
    obtain rfl : body = _ := hbody
    have hwrite := hstatement x.write (by simp)
    have hfirst := (Stmt.everywhere_of_elementWrite? hwrite x.write_eq).1
    have hsecond := (Stmt.everywhere_of_elementWrite? (hstatement x.next (by simp)) x.next_eq).1
    have hlines : ∀ loc, (exact → Option.map (·.start.line) loc =
          Option.map (·.start.line) (f.statement loc)) ∧
        (Option.map (·.start.line) (f.statement loc)).isSome =
          (Option.map (·.start.line) loc).isSome := by
      intro loc
      refine ⟨fun hexact ↦ ?_, ?_⟩
      · rw [hf.keeps hexact]
        rfl
      · rw [Option.isSome_map, Option.isSome_map, hf.isSome]
    obtain ⟨loc1, hloc1, hloc1'⟩ := hrel.firstLine
    obtain ⟨loc2, hloc2, hloc2'⟩ := hrel.secondLine
    refine .some ⟨hrel.position, hR.plannedSwap ?_ ?_ ?_ hrel.array ?_ ?_ ?_⟩
    · -- the array is a name in the target of the first write
      obtain ⟨nameLoc, indexLoc, assignLoc, loc, heq⟩ := Stmt.eq_of_elementWrite? x.write_eq
      rw [heq] at hwrite
      have hassign := hwrite.child List.mem_cons_self
      have htarget := hassign.child List.mem_cons_self
      have harray := htarget.child List.mem_cons_self
      exact harray.name? rfl
    · rw [hrel.first]
      exact hR.eval hf hfirst
    · rw [hrel.second]
      exact hR.eval hf hsecond
    · rw [hloc1, hloc1']
      exact (hlines loc1).1
    · rw [hloc2, hloc2']
      exact (hlines loc2).1
    · rw [hloc2, hloc2']
      exact (hlines loc2).2

/-! ## Statements -/

variable {config config' : Config} (hdetection : config'.swapDetection = config.swapDetection)

theorem effects {plan plan' : Option SwapPlan} (hplan : Option.Rel (SwapsAlike R) plan plan')
    (position : Nat) {body : List Stmt}
    (hbody : ∀ s ∈ body, R (s.effect config none) ((s.relocate f).effect config' none)) :
    R (Stmt.effects config plan position body)
      (Stmt.effects config' plan' position (Stmt.relocateAll f body)) := by
  induction body generalizing position with
  | nil =>
    rw [Stmt.relocateAll, Stmt.effects_nil, Stmt.effects_nil]
    exact hR.pure ()
  | cons s rest ih =>
    have hs := hR.atNode s.nodeType (hf.stmtLine s) (hbody s List.mem_cons_self)
    have hrest := ih (position + 1) fun s hs ↦ hbody s (List.mem_cons_of_mem _ hs)
    rw [Stmt.relocateAll, Stmt.effects_cons, Stmt.effects_cons, Stmt.nodeType_relocate]
    cases hplan with
    | none => exact hR.bind hs fun _ _ ↦ hrest
    | @some plan plan' hplan =>
      -- the first write is exchanged at the same position, and the second left out
      dsimp only
      rw [hplan.1]
      split
      · exact hR.bind (hR.atNode _ (hf.stmtLine s) hplan.2) fun _ _ ↦ hrest
      · split
        · exact hR.bind hs fun _ _ ↦ hrest
        · exact hR.bind (hR.pure ()) fun _ _ ↦ hrest

include hdetection in
theorem effect (hloops : Loops exact config.iterationCap config'.iterationCap R) (s : Stmt)
    (hnames : (Node.stmt s).NamesIn names) {plan plan' : Option SwapPlan}
    (hplan : Option.Rel (SwapsAlike R) plan plan') :
    R (s.effect config plan) ((s.relocate f).effect config' plan') := by
  induction s generalizing plan plan' with
  | declaration d => exact hR.declaration hf hnames
  | forLoop init test update body loc ih =>
    have hchild : ∀ c ∈ (Node.stmt (.forLoop init test update body loc)).children,
        c.NamesIn names := fun c ↦ hnames.child
    rw [Stmt.relocate, Stmt.effect_forLoop, Stmt.effect_forLoop]
    have hinit : R (ForInit.exec init) (ForInit.exec (init.map (ForInit.relocate f))) :=
      hR.forInit hf fun i hi ↦ hchild i.node (by simp [Node.children, hi])
    have htest : R (Expr.holds test) (Expr.holds (test.map (Expr.relocate f))) :=
      hR.holds fun e he ↦ hR.eval hf (hchild (.expr e) (by simp [Node.children, he]))
    have hbody := ih (hchild (.stmt body) (by simp [Node.children])) .none
    have hupdate : R (Eval.loopUpdate (loc.map (·.start.line)) update)
        (Eval.loopUpdate ((f.node loc).map (·.start.line)) (update.map (Expr.relocate f))) :=
      hR.loopUpdate (hf.line _ loc) fun e he ↦
        ⟨hf.exprLine e, hR.evalWrite hf (hchild (.expr e) (by simp [Node.children, he]))⟩
    refine hR.bind hinit fun _ _ ↦ hloops htest ?_ (hf.line _ loc)
    exact hR.bind (hR.asBodyOf body (hf.stmtLine body) hbody) fun _ _ ↦ hupdate
  | ifThen test consequent alternate loc hconsequent halternate =>
    have hchild : ∀ c ∈ (Node.stmt (.ifThen test consequent alternate loc)).children,
        c.NamesIn names := fun c ↦ hnames.child
    -- the plan is found again at other locations, so both sides run the consequent by a plan, or
    -- neither does
    rw [Stmt.relocate_ifThen, Stmt.effect_ifThen, Stmt.effect_ifThen, hdetection]
    refine hR.bind (hR.eval hf (hchild (.expr test) (by simp [Node.children]))) fun v _ ↦ ?_
    refine hR.bind (hR.record (fun hexact ↦ ?_) _) fun _ _ ↦ ?_
    · rw [hf.exprLine test hexact, hf.line _ loc hexact]
    have hnames' := hchild (.stmt consequent) (by simp [Node.children])
    dsimp only
    split
    · refine hR.asBodyOf consequent (hf.stmtLine consequent) (hconsequent hnames' ?_)
      split
      · exact hR.planned hf hnames'
      · exact .none
    · cases alternate with
      | none => exact hR.pure ()
      | some s =>
        have hs := hchild (.stmt s) (by simp [Node.children])
        exact hR.asBodyOf s (hf.stmtLine s) (halternate s rfl hs .none)
  | block body loc ih =>
    rw [Stmt.relocate, Stmt.effect_block, Stmt.effect_block]
    exact hR.effects hf hplan 0 fun s hs ↦ ih s hs (hnames.child (List.mem_map_of_mem hs)) .none
  | expression e loc =>
    rw [Stmt.relocate, Stmt.effect_expression, Stmt.effect_expression]
    refine hR.bind (hR.evalWrite hf (hnames.child List.mem_cons_self)) fun written _ ↦ ?_
    cases written with
    | none => exact hR.pure ()
    | some w =>
      refine hR.bind hR.heap fun h _ ↦ hR.record (fun hexact ↦ ?_) _
      rw [hf.keeps hexact]
      rfl
  | empty loc => exact hR.pure ()
  | unsupported nodeType loc => exact hR.fail _

omit hdetection in
/-- A program, under two settings that differ at most in the policy and in a cap for which loops
are related, here and at other locations. -/
theorem exec (config config' : Config) (hdetection : config'.swapDetection = config.swapDetection)
    (hloops : Loops exact config.iterationCap config'.iterationCap R) {p : Program}
    (hnames : ∀ s ∈ p.body, (Node.stmt s).NamesIn names) :
    R (p.exec config) ((p.relocate f).exec config') :=
  hR.effects hf .none 0 fun s hs ↦ hR.effect hf hdetection hloops s (hnames s hs) .none

end Eval.Lockstep

end ScriptTrace
