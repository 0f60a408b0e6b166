import ScriptTrace.Proofs.Compositional
import ScriptTrace.Proofs.Visits

/-!
# Where failures are reported

A failure should be reported at the node that failed and on the line of the nearest node around it
that has one (`Failure.PointsInto`). Runs almost do this. A `Trail` leads from a node down to what
failed, with the line on which the run *sees* each node on the way: its own line, except that

* a node that the run bypasses is not seen on any line;
* neither is the pattern of a declarator that fails, so that the declaration stands for it;
* the two writes of a planned exchange run as one, at the first of them: the assignment and the
  target around an index are not seen, and the second write is seen on the line of the first.

Every failure of a run is reported as its trail is seen (`Program.exists_trail_of_failed`). So it
is reported on the right line whenever the nearest node with a line is seen on it.
-/

namespace ScriptTrace

/-- A node on the way to a failure, and the line on which a run sees it. -/
structure Stop where
  node : Node
  seen : Option UInt32

/-- The ways from a node down to what failed in it with a cause, the innermost stop first. -/
inductive Trail : Node → List Stop → Cause → Prop
  | own {n : Node} {cause : Cause} (h : n.Raises cause) : Trail n [⟨n, n.line⟩] cause
  | enter {n c : Node} {trail : List Stop} {cause : Cause} (hc : c ∈ n.entered)
    (h : Trail c trail cause) : Trail n (trail ++ [⟨n, n.line⟩]) cause
  | bypass {n c c' : Node} {trail : List Stop} {cause : Cause} (hc : c ∈ n.bypassed)
    (hc' : c' ∈ c.entered) (h : Trail c' trail cause) :
    Trail n (trail ++ [⟨c, none⟩, ⟨n, n.line⟩]) cause
  | pattern {d : Declaration} {declarator : Declarator} (hd : declarator ∈ d.declarators)
    (hname : declarator.target.name? = none) :
    Trail (.stmt (.declaration d))
      [⟨.expr declarator.target, none⟩, ⟨.stmt (.declaration d), d.line⟩]
      (.unsupportedNode declarator.target.nodeType)
  | headPattern {n : Node} {d : Declaration} {declarator : Declarator}
    (hn : .stmt (.declaration d) ∈ n.bypassed) (hd : declarator ∈ d.declarators)
    (hname : declarator.target.name? = none) :
    Trail n [⟨.expr declarator.target, none⟩, ⟨.stmt (.declaration d), d.line⟩, ⟨n, n.line⟩]
      (.unsupportedNode declarator.target.nodeType)
  | planned {test i target value : Expr} {consequent : Stmt} {alternate : Option Stmt}
    {loc assignLoc writeLoc : Option Location} {plan : SwapPlan} {trail : List Stop} {cause : Cause}
    (hplan : SwapPlan.ofIf? test consequent = some plan) (hi : i = plan.first ∨ i = plan.second)
    (htarget : target.element? = some (plan.array, i))
    (hwrite : .expression (.assign .assign target value assignLoc) writeLoc ∈ consequent.asBody)
    (h : Trail (.expr i) trail cause) :
    Trail (.stmt (.ifThen test consequent alternate loc)) (trail ++
      [⟨.expr target, none⟩, ⟨.expr (.assign .assign target value assignLoc), none⟩,
        ⟨.stmt (.expression (.assign .assign target value assignLoc) writeLoc), plan.firstLine⟩,
        ⟨.stmt consequent, none⟩,
        ⟨.stmt (.ifThen test consequent alternate loc), loc.map (·.start.line)⟩]) cause

namespace Trail

variable {n : Node} {trail : List Stop} {cause : Cause}

theorem ne_nil (h : Trail n trail cause) : trail ≠ [] := by
  cases h <;> simp

/-- The target of a declarator is a child of the declaration. -/
private theorem path_pattern {d : Declaration} {declarator : Declarator}
    (hd : declarator ∈ d.declarators) : Node.Path (.stmt (.declaration d))
      ([.expr declarator.target] ++ [.stmt (.declaration d)]) := by
  refine .down ?_ (.here _)
  rw [Node.children, List.mem_append]
  exact .inl (List.mem_map.mpr ⟨declarator, hd, rfl⟩)

/-- A trail is a way down the tree. -/
theorem path (h : Trail n trail cause) : Node.Path n (trail.map (·.node)) := by
  induction h with
  | own => exact .here _
  | enter hc h ih =>
    rw [List.map_append]
    exact .down (Node.mem_children_of_mem_entered hc) ih
  | bypass hc hc' h ih =>
    have hinner := Node.Path.down (Node.mem_children_of_mem_entered hc') ih
    simpa using Node.Path.down (Node.mem_children_of_mem_bypassed hc) hinner
  | pattern hd hname => exact path_pattern hd
  | headPattern hn hd hname =>
    exact .down (Node.mem_children_of_mem_bypassed hn) (path_pattern hd)
  | @planned test i target value consequent alternate ifLoc assignLoc writeLoc plan trail cause
      hplan hi htarget hwrite h ih =>
    obtain ⟨body, loc, rfl⟩ := SwapPlan.exists_block hplan
    obtain ⟨nameLoc, indexLoc, rfl⟩ := Expr.eq_index_of_element? htarget
    have hindex : Node.Path (.expr (.index (.identifier plan.array nameLoc) i indexLoc)) _ :=
      .down (List.mem_cons_of_mem _ List.mem_cons_self) ih
    have hassign : Node.Path (.expr (.assign .assign _ value assignLoc)) _ :=
      .down List.mem_cons_self hindex
    have hstatement : Node.Path (.stmt (.expression _ writeLoc)) _ :=
      .down List.mem_cons_self hassign
    have hblock : Node.Path (.stmt (.block body loc)) _ :=
      .down (List.mem_map_of_mem hwrite) hstatement
    have hif : Node.Path (.stmt (.ifThen test (.block body loc) alternate ifLoc)) _ :=
      .down (List.mem_cons_of_mem _ List.mem_cons_self) hblock
    simpa using hif

/-- Only the pattern of a declarator, which lacks support, is not seen on its line when it fails. -/
theorem seen_of_mem_head? (h : Trail n trail cause) (hcause : ∀ tag, cause ≠ .unsupportedNode tag) :
    ∀ stop ∈ trail.head?, stop.seen = stop.node.line := by
  induction h with
  | own => simp
  | pattern | headPattern => exact absurd rfl (hcause _)
  | enter hc h ih | bypass hc hc' h ih | planned hplan hi htarget hwrite h ih =>
    obtain ⟨first, inner, rfl⟩ := List.exists_cons_of_ne_nil h.ne_nil
    exact ih hcause

end Trail

/-- The failure with a cause that is reported as a trail is seen. -/
def Failure.along (trail : List Stop) (cause : Cause) : Failure :=
  ⟨cause, trail.head?.map (·.node.nodeType), trail.findSome? (·.seen)⟩

namespace Failure

/-- A stop further out only gives a line, where none is known yet. -/
theorem atNode_along {trail : List Stop} (hne : trail ≠ []) (cause : Cause) (n : Node)
    (nodeType : String) (line : Option UInt32) : (along trail cause).atNode nodeType line =
      along (trail ++ [⟨n, line⟩]) cause := by
  obtain ⟨first, rest, rfl⟩ := List.exists_cons_of_ne_nil hne
  rw [along, along, atNode, List.findSome?_append]
  cases (first :: rest).findSome? (·.seen) <;> cases line <;> rfl

theorem along_bypass {trail : List Stop} (hne : trail ≠ []) (cause : Cause) (n : Node) :
    along (trail ++ [⟨n, none⟩]) cause = along trail cause := by
  obtain ⟨first, rest, rfl⟩ := List.exists_cons_of_ne_nil hne
  rw [along, along, List.findSome?_append]
  cases (first :: rest).findSome? (·.seen) <;> rfl

/-- A failure that is reported as a trail from a node is seen. -/
def IsAt (n : Node) (f : Failure) : Prop :=
  ∃ trail cause, Trail n trail cause ∧ f = along trail cause

/-- A failure that becomes one at a node when the node is named. -/
def IsInside (n : Node) (f : Failure) : Prop := IsAt n (f.atNode n.nodeType n.line)

variable {n c c' : Node} {f : Failure}

theorem IsInside.own {cause : Cause} (h : n.Raises cause) : IsInside n (.ofCause cause) := by
  refine ⟨[⟨n, n.line⟩], cause, .own h, ?_⟩
  rw [along, List.findSome?_singleton]
  rfl

theorem IsAt.enter (hc : c ∈ n.entered) (h : IsAt c f) : IsInside n f := by
  obtain ⟨trail, cause, htrail, rfl⟩ := h
  exact ⟨_, cause, .enter hc htrail, atNode_along htrail.ne_nil cause n n.nodeType n.line⟩

theorem IsAt.bypass (hc : c ∈ n.bypassed) (hc' : c' ∈ c.entered) (h : IsAt c' f) :
    IsInside n f := by
  obtain ⟨trail, cause, htrail, rfl⟩ := h
  refine ⟨_, cause, .bypass hc hc' htrail, ?_⟩
  rw [List.append_cons, ← atNode_along (by simp) cause n n.nodeType n.line,
    along_bypass htrail.ne_nil]

theorem IsInside.pattern {d : Declaration} {declarator : Declarator}
    (hn : n = .stmt (.declaration d) ∨ .stmt (.declaration d) ∈ n.bypassed)
    (hd : declarator ∈ d.declarators) (hname : declarator.target.name? = none) :
    IsInside n (Failure.atNode declarator.target.nodeType d.line
      (.ofCause (.unsupportedNode declarator.target.nodeType))) := by
  rcases hn with rfl | hn
  · refine ⟨_, _, .pattern hd hname, ?_⟩
    change ((ofCause _).atNode _ d.line).atNode _ d.line = along [⟨_, none⟩, ⟨_, d.line⟩] _
    cases d.line <;> rfl
  · refine ⟨_, _, .headPattern hn hd hname, ?_⟩
    cases d.line <;> cases n.line <;> rfl

/-- In a planned exchange an index belongs to a write, of which the run only sees the line that it
gives to both writes. -/
theorem IsAt.planned {test i target value : Expr} {consequent : Stmt} {alternate : Option Stmt}
    {loc assignLoc writeLoc : Option Location} {plan : SwapPlan}
    (hplan : SwapPlan.ofIf? test consequent = some plan) (hi : i = plan.first ∨ i = plan.second)
    (htarget : target.element? = some (plan.array, i))
    (hwrite : .expression (.assign .assign target value assignLoc) writeLoc ∈ consequent.asBody)
    (nodeType : String) (h : IsAt (.expr i) f) :
    IsInside (.stmt (.ifThen test consequent alternate loc))
      (f.atNode nodeType plan.firstLine) := by
  obtain ⟨trail, cause, htrail, rfl⟩ := h
  refine ⟨_, cause, .planned hplan hi htarget hwrite htrail, ?_⟩
  have hne := htrail.ne_nil
  rw [← along_bypass hne cause (.expr target),
    ← along_bypass (by simp) cause (.expr (.assign .assign target value assignLoc)),
    atNode_along (by simp) cause (.stmt (.expression (.assign .assign target value assignLoc)
      writeLoc)), ← along_bypass (by simp) cause (.stmt consequent),
    atNode_along (by simp) cause (.stmt (.ifThen test consequent alternate loc))]
  simp only [List.append_assoc, List.cons_append, List.nil_append]
  rfl

end Failure

namespace Eval

/-- A computation all of whose failures have a property. -/
def FailsIn (Q : Failure → Prop) {α : Type} (m : Eval α) : Prop :=
  ∀ s f s', m s = .error f s' → Q f

namespace FailsIn

variable {Q : Failure → Prop} {α β : Type}

theorem fail {cause : Cause} (h : Q (.ofCause cause)) : FailsIn Q (Eval.fail cause : Eval α) := by
  intro s f s' hfail
  cases hfail
  exact h

theorem bind {m : Eval α} {k : α → Eval β} (hm : FailsIn Q m) (hk : ∀ a, FailsIn Q (k a)) :
    FailsIn Q (m >>= k) := by
  intro s f s' hfail
  change EStateM.bind m k s = _ at hfail
  rw [EStateM.bind] at hfail
  split at hfail
  · exact hk _ _ f s' hfail
  · rename_i hm'
    cases hfail
    exact hm s _ _ hm'

theorem atNode {nodeType : String} {line : Option UInt32} {m : Eval α}
    (h : FailsIn (fun f ↦ Q (f.atNode nodeType line)) m) :
    FailsIn Q (Eval.atNode nodeType line m) := by
  intro s f s' hfail
  rw [Eval.atNode] at hfail
  split at hfail
  · cases hfail
  · rename_i hm
    cases hfail
    exact h s _ _ hm

theorem mono {Q' : Failure → Prop} {m : Eval α} (h : FailsIn Q m) (hQ : ∀ f, Q f → Q' f) :
    FailsIn Q' m := fun s f s' hfail ↦ hQ f (h s f s' hfail)

/-- A computation that never fails. -/
theorem of_ok {m : Eval α} (h : ∀ s, ∃ a s', m s = .ok a s') : FailsIn Q m := by
  intro s f s' hfail
  obtain ⟨a, s'', hok⟩ := h s
  rw [hok] at hfail
  cases hfail

/-- The steps fail only with plain causes. -/
theorem stepwise (h : ∀ cause : Cause, cause.isPlain = true → Q (.ofCause cause)) :
    Stepwise (FailsIn Q) where
  pure a := of_ok fun s ↦ ⟨a, s, rfl⟩
  plain hcause := fail (h _ hcause)
  bind := bind
  heap := of_ok fun _ ↦ ⟨_, _, rfl⟩
  lookup? _ := of_ok fun _ ↦ ⟨_, _, rfl⟩
  define _ _ := of_ok fun _ ↦ ⟨_, _, rfl⟩
  write _ _ _ := of_ok fun _ ↦ ⟨_, _, rfl⟩
  allocate _ := of_ok fun _ ↦ ⟨_, _, rfl⟩
  record _ _ := of_ok fun _ ↦ ⟨_, _, rfl⟩

end FailsIn

/-- The exchange of a plan fails at its first write, or in an index of one of its writes. -/
theorem failsIn_planned {test : Expr} {consequent write : Stmt} {alternate : Option Stmt}
    {loc : Option Location} {plan : SwapPlan} (hplan : SwapPlan.ofIf? test consequent = some plan)
    (hwrite : consequent.asBody[plan.position]? = some write)
    (hfirst : FailsIn (Failure.IsAt (.expr plan.first)) plan.first.eval)
    (hsecond : FailsIn (Failure.IsAt (.expr plan.second)) plan.second.eval) :
    FailsIn (Failure.IsInside (.stmt (.ifThen test consequent alternate loc)))
      (Eval.atNode write.nodeType write.line (plannedSwap plan)) := by
  obtain ⟨body, bodyLoc, rfl⟩ := SwapPlan.exists_block hplan
  have hblock : .stmt (.block body bodyLoc) ∈
      (Node.stmt (.ifThen test (.block body bodyLoc) alternate loc)).bypassed := by
    simp [Node.bypassed, Stmt.isBlock]
  obtain ⟨x, before, after, hbody, hposition⟩ := SwapPlan.exists_idiom hplan
  obtain rfl : x.write = write := by
    simpa [hbody, hposition] using hwrite
  have hwrite_mem : x.write ∈ (Stmt.block body bodyLoc).asBody := by simp [hbody]
  have hnext_mem : x.next ∈ (Stmt.block body bodyLoc).asBody := by simp [hbody]
  refine FailsIn.atNode ((FailsIn.stepwise fun cause hcause ↦ ?_).plannedSwap ?_ ?_)
  · -- the exchange itself fails at the first write, which is in the block
    have hown : Failure.IsAt (.stmt x.write)
        ((Failure.ofCause cause).atNode x.write.nodeType x.write.line) :=
      Failure.IsInside.own (Node.raises_of_isPlain (.stmt x.write) hcause)
    exact hown.bypass hblock (List.mem_map_of_mem hwrite_mem)
  · obtain ⟨nameLoc, indexLoc, assignLoc, writeLoc, heq⟩ := Stmt.eq_of_elementWrite? x.write_eq
    rw [heq] at hwrite_mem
    rw [← x.firstLine_eq]
    exact hfirst.mono fun f hf ↦ hf.planned hplan (.inl rfl) rfl hwrite_mem _
  · -- the second index belongs to the second write, but runs at the line of the first
    obtain ⟨nameLoc, indexLoc, assignLoc, writeLoc, heq⟩ := Stmt.eq_of_elementWrite? x.next_eq
    rw [heq] at hnext_mem
    rw [← x.firstLine_eq]
    exact hsecond.mono fun f hf ↦ hf.planned hplan (.inr rfl) rfl hnext_mem _

theorem localized_failsIn :
    Localized (fun n {_} m ↦ FailsIn (Failure.IsAt n) m)
      (fun n {_} m ↦ FailsIn (Failure.IsInside n) m) where
  steps n := FailsIn.stepwise fun _ hcause ↦ .own (n.raises_of_isPlain hcause)
  raise h := FailsIn.fail (.own h)
  atNode h := FailsIn.atNode h
  enter hc h := h.mono fun _ hf ↦ hf.enter hc
  bypass hc hc' h := h.mono fun _ hf ↦ hf.bypass hc hc'
  pattern hn hd hname := FailsIn.atNode (FailsIn.fail (.pattern hn hd hname))
  planned := failsIn_planned

/-- Statements fail where one of them fails. -/
theorem failsIn_effects (config : Config) (position : Nat) (body : List Stmt) :
    FailsIn (fun f ↦ ∃ s ∈ body, Failure.IsAt (.stmt s) f)
      (Stmt.effects config none position body) := by
  induction body generalizing position with
  | nil =>
    rw [Stmt.effects_nil]
    exact FailsIn.of_ok fun s ↦ ⟨(), s, rfl⟩
  | cons s rest ih =>
    rw [Stmt.effects_cons]
    refine FailsIn.bind ?_ fun _ ↦ ?_
    · exact (localized_failsIn.exec config s).mono fun f hf ↦ ⟨s, List.mem_cons_self, hf⟩
    · refine (ih (position + 1)).mono ?_
      rintro f ⟨s', hs', hf⟩
      exact ⟨s', List.mem_cons_of_mem _ hs', hf⟩

end Eval

/-! ## The line of a failure -/

/-- Whether a failure is reported at a node of a program, on the line of the nearest node that has
one on the way to it. -/
def Failure.PointsInto (f : Failure) (p : Program) : Prop :=
  ∃ s ∈ p.body, ∃ n path, Node.Path (.stmt s) (n :: path) ∧ f.nodeType = some n.nodeType ∧
    f.line = (n :: path).findSome? Node.line

/-- Whether the nearest stop that has a line, its own or one on which it is seen, is seen on its
own. -/
def Stop.SeenAsIs (trail : List Stop) : Prop :=
  ∀ stop, trail.find? (fun stop ↦ (stop.node.line <|> stop.seen).isSome) = some stop →
    stop.seen = stop.node.line

theorem Stop.SeenAsIs.findSome?_eq {trail : List Stop} (h : SeenAsIs trail) :
    trail.findSome? (·.seen) = trail.findSome? (·.node.line) := by
  induction trail with
  | nil => rfl
  | cons stop rest ih =>
    rw [SeenAsIs, List.find?_cons] at h
    rw [List.findSome?_cons, List.findSome?_cons]
    cases hline : (stop.node.line <|> stop.seen).isSome with
    | true =>
      -- the nearest stop with a line
      rw [hline] at h
      obtain hseen : stop.seen = stop.node.line := h stop rfl
      rw [hseen] at hline ⊢
      cases hown : stop.node.line with
      | none => simp [hown] at hline
      | some line => rfl
    | false =>
      rw [hline] at h
      obtain ⟨hown, hseen⟩ : stop.node.line = none ∧ stop.seen = none := by
        cases hown : stop.node.line <;> simp_all
      rw [hown, hseen]
      exact ih h

/-- A trail is seen as is if what failed has a line and does not lack support. -/
theorem Stop.seenAsIs_of_trail {n : Node} {first : Stop} {rest : List Stop} {cause : Cause}
    (h : Trail n (first :: rest) cause) (hcause : ∀ tag, cause ≠ .unsupportedNode tag)
    (hline : first.node.line.isSome = true) : SeenAsIs (first :: rest) := by
  intro stop hstop
  rw [List.find?_cons_of_pos (by simp [hline])] at hstop
  cases hstop
  exact h.seen_of_mem_head? hcause first rfl

namespace Program

variable {config : Config} {environment : Environment} {heap : Heap} {p : Program} {f : Failure}
  {history : History}

/-- A failure of a run is reported as a trail into one of the statements is seen. -/
theorem exists_isAt_of_failed (hrun : p.runFrom config environment heap = .failed f history) :
    ∃ s ∈ p.body, Failure.IsAt (.stmt s) f := by
  rw [runFrom] at hrun
  split at hrun
  · cases hrun
  · rename_i hexec
    cases hrun
    exact Eval.failsIn_effects config 0 p.body _ _ _ hexec

/-- A run that fails reports the type of the node that failed and the line that is seen nearest to
it. If the nearest node with a line is seen on it, the failure points into the program. -/
theorem exists_trail_of_failed (hrun : p.runFrom config environment heap = .failed f history) :
    ∃ s ∈ p.body, ∃ first rest, Trail (.stmt s) (first :: rest) f.cause ∧
      Node.Path (.stmt s) ((first :: rest).map (·.node)) ∧
      f.nodeType = some first.node.nodeType ∧
      f.line = (first :: rest).findSome? (·.seen) ∧
      (Stop.SeenAsIs (first :: rest) → f.PointsInto p) := by
  obtain ⟨s, hs, trail, cause, htrail, rfl⟩ := exists_isAt_of_failed hrun
  obtain ⟨first, rest, rfl⟩ := List.exists_cons_of_ne_nil htrail.ne_nil
  refine ⟨s, hs, first, rest, htrail, htrail.path, rfl, rfl, fun hseen ↦ ?_⟩
  refine ⟨s, hs, first.node, rest.map Stop.node, htrail.path, rfl, ?_⟩
  rw [← List.map_cons, List.findSome?_map]
  exact hseen.findSome?_eq

/-- A declaration on line 1 whose pattern is on line 2. -/
def patternBelow : Program where
  body := [.declaration ⟨.lexical, [⟨.unsupported "ObjectPattern" (some (.line 2)),
    some (.identifier "x" (some (.line 2))), some (.line 2)⟩], some (.lines 1 2)⟩]
  loc := some (.lines 1 2)

theorem runFrom_patternBelow : patternBelow.runFrom .standard .empty .empty =
    .failed ⟨.unsupportedNode "ObjectPattern", some "ObjectPattern", some 1⟩ (.empty .keepAll) := by
  rw [Program.runFrom, exec, Stmt.execAll]
  rfl

/-- A block on lines 1 to 3 with a name on line 2. -/
def nameInside : Program where
  body := [.ifThen (.literal (.bool true) none (some (.line 1)))
    (.block [.expression (.identifier "x" (some (.line 2))) (some (.line 2))] (some (.lines 1 3)))
    none (some (.lines 1 3))]
  loc := some (.lines 1 3)

theorem runFrom_nameInside : nameInside.runFrom .standard .empty .empty =
    .failed ⟨.undefinedVariable "x", some "Identifier", some 2⟩
      ((History.empty .keepAll).record ⟨some 1, .ifTest true⟩) := by
  rw [Program.runFrom, exec, Stmt.execAll]
  rfl

/-- The failure of a pattern names the type of the pattern and the line of the declaration. The
failure of an unbound name in a block, which is not seen, points to the name. -/
theorem exists_trail_patternBelow_nameInside :
    (∃ s ∈ patternBelow.body, ∃ first rest,
      Trail (.stmt s) (first :: rest) (.unsupportedNode "ObjectPattern") ∧
        first.node.nodeType = "ObjectPattern" ∧ (first :: rest).findSome? (·.seen) = some 1) ∧
    ∃ s ∈ nameInside.body, ∃ first rest,
      Trail (.stmt s) (first :: rest) (.undefinedVariable "x") ∧ Stop.SeenAsIs (first :: rest) ∧
        Failure.PointsInto ⟨.undefinedVariable "x", some "Identifier", some 2⟩ nameInside := by
  constructor
  · obtain ⟨s, hs, first, rest, htrail, -, htype, hline, -⟩ :=
      exists_trail_of_failed runFrom_patternBelow
    exact ⟨s, hs, first, rest, htrail, (Option.some.inj htype).symm, hline.symm⟩
  · obtain ⟨s, hs, first, rest, htrail, hpath, htype, -, hpoints⟩ :=
      exists_trail_of_failed runFrom_nameInside
    -- every name in the program has a line, so the one that failed has
    have hnames : Visit.All (fun n ↦ n.nodeType = "Identifier" → n.line.isSome = true)
        nameInside.visits := by decide
    have hfirst := Node.Everywhere.of_path hpath (everywhere_of_visits hnames s hs) first.node
      List.mem_cons_self
    have hdeclaration : "VariableDeclaration" ≠ "Identifier" := by decide
    have hline := hfirst.self (fun _ htype ↦ absurd htype hdeclaration) (Option.some.inj htype).symm
    have hseen := Stop.seenAsIs_of_trail htrail (fun tag h ↦ Cause.noConfusion h) hline
    exact ⟨s, hs, first, rest, htrail, hseen, hpoints hseen⟩

/-- Not every failure points into its program. -/
theorem not_pointsInto : ¬∀ (config : Config) (environment : Environment) (heap : Heap)
    (p : Program) (f : Failure) (history : History),
    p.runFrom config environment heap = .failed f history → f.PointsInto p := by
  intro h
  obtain ⟨s, hs, n, path, hpath, htype, hline⟩ := h _ _ _ _ _ _ runFrom_patternBelow
  obtain rfl := List.mem_singleton.mp hs
  generalize hnodes : n :: path = nodes at hpath
  cases hpath with
  | here =>
    obtain ⟨rfl, rfl⟩ := List.cons.inj hnodes
    exact absurd (Option.some.inj htype) (by decide)
  | @down _ c below hc hbelow =>
    -- below the declaration there are only leaves, the pattern and the variable
    have hc : c = .expr (.unsupported "ObjectPattern" (some (.line 2))) ∨
        c = .expr (.identifier "x" (some (.line 2))) := by
      simpa [Node.children, Declaration.values] using hc
    obtain rfl : below = [c] := by
      cases hbelow with
      | here => rfl
      | down hc' => rcases hc with rfl | rfl <;> cases hc'
    obtain ⟨rfl, rfl⟩ := List.cons.inj hnodes
    rcases hc with rfl | rfl
    · exact absurd (Option.some.inj hline) (by decide)
    · exact absurd (Option.some.inj htype) (by decide)

end Program

end ScriptTrace
