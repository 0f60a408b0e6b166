import ScriptTrace.Proofs.Children
import ScriptTrace.Proofs.SwapPlan

/-!
# The visits of a program reach every node

The nodes of a tree are listed by one recursion (`Program.visits`) and are the children of each
other by another definition (`Node.children`). What holds of all visits of a program holds of every
node to which a way leads down from a statement of it.

The declaration in the head of a loop is the one node that is not visited, only its parts are.
-/

namespace ScriptTrace

namespace Expr

theorem elementNodes_eq_flatMap (isLeaf : Node → Bool) (elements : List (Option Expr)) :
    elementNodes isLeaf elements = (elements.filterMap id).flatMap (nodes isLeaf) := by
  induction elements with
  | nil => rfl
  | cons element rest ih =>
    rcases element with _ | e
    · exact ih
    · rw [elementNodes, ih]
      rfl

theorem argumentNodes_eq_flatMap (isLeaf : Node → Bool) (arguments : List Expr) :
    argumentNodes isLeaf arguments = arguments.flatMap (nodes isLeaf) := by
  induction arguments with
  | nil => rfl
  | cons e rest ih => rw [argumentNodes, ih, List.flatMap_cons]

/-- The nodes of an expression are the expression and the nodes of its children. -/
theorem nodes_eq_cons (e : Expr) : (e.nodes fun _ ↦ false) =
    e :: e.children.flatMap fun c ↦ c.nodes fun _ ↦ false := by
  rw [nodes.eq_def, if_neg Bool.false_ne_true]
  congr 1
  cases e with
  | array elements loc => exact elementNodes_eq_flatMap _ elements
  | call callee arguments loc =>
    rw [children, List.flatMap_cons, ← argumentNodes_eq_flatMap]
  | literal | identifier | unsupported => rfl
  | binary | logical | unary | update | assign | index | property | conditional =>
    simp only [children, List.flatMap_cons, List.flatMap_nil, List.append_nil, List.append_assoc]

/-- The nodes of a child are among those of the expression. -/
theorem mem_nodes_of_mem_children {e c n : Expr} (hc : c ∈ e.children)
    (hn : n ∈ c.nodes fun _ ↦ false) : n ∈ e.nodes fun _ ↦ false := by
  rw [nodes_eq_cons]
  exact List.mem_cons_of_mem _ (List.mem_flatMap_of_mem hc hn)

end Expr

/-- Whether a property holds of all nodes that are visited. -/
def Visit.All (Q : Node → Prop) (visits : List Visit) : Prop := ∀ visit ∈ visits, Q visit.node

instance (Q : Node → Prop) [DecidablePred Q] (visits : List Visit) :
    Decidable (Visit.All Q visits) :=
  inferInstanceAs (Decidable (∀ visit ∈ visits, Q visit.node))

/-- Whether a property holds of all nodes that are visited at a node and below it. -/
def Node.Everywhere (Q : Node → Prop) : Node → Prop
  | expr e => ∀ n ∈ e.nodes fun _ ↦ false, Q (expr n)
  | stmt (.declaration d) => ∃ line, Visit.All Q (d.visits (fun _ ↦ false) line)
  | stmt s => ∃ outer, Visit.All Q (s.visits (fun _ ↦ false) outer)

variable {Q : Node → Prop}

theorem Expr.everywhere_of_visits {e : Expr} {line : Option UInt32}
    (h : Visit.All Q (e.visits (fun _ ↦ false) line)) : (Node.expr e).Everywhere Q :=
  fun _ hn ↦ h _ (List.mem_map_of_mem hn)

theorem Stmt.everywhere_of_visits {s : Stmt} {outer : Option UInt32}
    (h : Visit.All Q (s.visits (fun _ ↦ false) outer)) : (Node.stmt s).Everywhere Q := by
  cases s with
  | declaration d =>
    rw [Stmt.visits.eq_def] at h
    exact ⟨_, fun visit hvisit ↦ h visit (List.mem_cons_of_mem _ hvisit)⟩
  | forLoop | ifThen | block | expression | empty | unsupported => exact ⟨outer, h⟩

theorem Expr.everywhere_of_optionalVisits {e : Expr} {test : Option Expr} {line : Option UInt32}
    (h : Visit.All Q (optionalVisits (fun _ ↦ false) line test)) (he : test = some e) :
    (Node.expr e).Everywhere Q := by
  subst he
  exact everywhere_of_visits h

namespace Node.Everywhere

variable {n c : Node}

theorem declaration {d : Declaration} (h : (stmt (.declaration d)).Everywhere Q)
    (hc : c ∈ (stmt (.declaration d)).children) : c.Everywhere Q := by
  obtain ⟨line, h⟩ := h
  have hdeclarator : ∀ declarator ∈ d.declarators,
      Visit.All Q (declarator.target.visits (fun _ ↦ false) line) ∧
        Visit.All Q (Expr.optionalVisits (fun _ ↦ false) line declarator.init) := by
    intro declarator hd
    exact List.forall_mem_append.mp fun visit hvisit ↦ h visit (List.mem_flatMap_of_mem hd hvisit)
  rw [children, List.mem_append] at hc
  rcases hc with hc | hc
  · obtain ⟨declarator, hd, rfl⟩ := List.mem_map.mp hc
    exact Expr.everywhere_of_visits (hdeclarator declarator hd).1
  · obtain ⟨e, he, rfl⟩ := List.mem_map.mp hc
    obtain ⟨declarator, hd, hinit⟩ := List.mem_filterMap.mp he
    exact Expr.everywhere_of_optionalVisits (hdeclarator declarator hd).2 hinit

theorem forInit {init : ForInit} {line : Option UInt32}
    (h : Visit.All Q (ForInit.visits (fun _ ↦ false) line (some init))) :
    init.node.Everywhere Q := by
  cases init with
  | declaration d => exact ⟨line, h⟩
  | expression e => exact Expr.everywhere_of_visits h

theorem statements {body : List Stmt} {outer : Option UInt32}
    (h : Visit.All Q (Stmt.allVisits (fun _ ↦ false) outer body)) {s : Stmt} (hs : s ∈ body) :
    (stmt s).Everywhere Q := by
  induction body with
  | nil => cases hs
  | cons s' rest ih =>
    obtain ⟨hfirst, hrest⟩ := List.forall_mem_append.mp h
    rcases List.mem_cons.mp hs with rfl | hs
    · exact Stmt.everywhere_of_visits hfirst
    · exact ih hrest hs

/-- A property that holds everywhere below a node holds everywhere below its children. -/
theorem child (h : n.Everywhere Q) (hc : c ∈ n.children) : c.Everywhere Q := by
  cases n with
  | expr e =>
    obtain ⟨e', he, rfl⟩ := List.mem_map.mp hc
    exact fun n hn ↦ h n (Expr.mem_nodes_of_mem_children he hn)
  | stmt s =>
    cases s with
    | declaration d => exact declaration h hc
    | forLoop init test update body loc =>
      obtain ⟨outer, h⟩ := h
      rw [Stmt.visits.eq_def, if_neg Bool.false_ne_true] at h
      obtain ⟨-, h⟩ := List.forall_mem_cons.mp h
      obtain ⟨h, hbody⟩ := List.forall_mem_append.mp h
      obtain ⟨h, hupdate⟩ := List.forall_mem_append.mp h
      obtain ⟨hinit, htest⟩ := List.forall_mem_append.mp h
      simp only [children, List.mem_append, List.mem_map, List.mem_singleton,
        Option.mem_toList] at hc
      rcases hc with (⟨init, rfl, rfl⟩ | ⟨e, he | he, rfl⟩) | rfl
      · exact forInit hinit
      · exact Expr.everywhere_of_optionalVisits htest he
      · exact Expr.everywhere_of_optionalVisits hupdate he
      · exact Stmt.everywhere_of_visits hbody
    | ifThen test consequent alternate loc =>
      obtain ⟨outer, h⟩ := h
      rw [Stmt.visits.eq_def, if_neg Bool.false_ne_true] at h
      obtain ⟨-, h⟩ := List.forall_mem_cons.mp h
      cases alternate with
      | none =>
        obtain ⟨htest, hconsequent⟩ := List.forall_mem_append.mp h
        simp only [children, Option.toList_none, List.map_cons, List.map_nil, List.mem_cons,
          List.not_mem_nil, or_false] at hc
        rcases hc with rfl | rfl
        · exact Expr.everywhere_of_visits htest
        · exact Stmt.everywhere_of_visits hconsequent
      | some s =>
        obtain ⟨h, halternate⟩ := List.forall_mem_append.mp h
        obtain ⟨htest, hconsequent⟩ := List.forall_mem_append.mp h
        simp only [children, Option.toList_some, List.map_cons, List.map_nil, List.mem_cons,
          List.not_mem_nil, or_false] at hc
        rcases hc with rfl | rfl | rfl
        · exact Expr.everywhere_of_visits htest
        · exact Stmt.everywhere_of_visits hconsequent
        · exact Stmt.everywhere_of_visits halternate
    | block body loc =>
      obtain ⟨outer, h⟩ := h
      rw [Stmt.visits.eq_def, if_neg Bool.false_ne_true] at h
      obtain ⟨s, hs, rfl⟩ := List.mem_map.mp hc
      exact statements (List.forall_mem_cons.mp h).2 hs
    | expression e loc =>
      obtain ⟨outer, h⟩ := h
      rw [Stmt.visits.eq_def, if_neg Bool.false_ne_true] at h
      rw [List.mem_singleton.mp hc]
      exact Expr.everywhere_of_visits (List.forall_mem_cons.mp h).2
    | empty loc => cases hc
    | unsupported nodeType loc => cases hc

/-- A property that holds everywhere below a node holds of the node itself, if it holds of the
declarations, which need not be visited. -/
theorem self (hQ : ∀ d, Q (stmt (.declaration d))) (h : n.Everywhere Q) : Q n := by
  cases n with
  | expr e =>
    refine h e ?_
    rw [Expr.nodes.eq_def]
    exact List.mem_cons_self
  | stmt s =>
    cases s with
    | declaration d => exact hQ d
    | forLoop | ifThen | block | expression | empty | unsupported =>
      obtain ⟨outer, h⟩ := h
      rw [Stmt.visits.eq_def] at h
      exact h _ List.mem_cons_self

theorem of_path {path : List Node} (hpath : Path n path) (h : n.Everywhere Q) :
    ∀ m ∈ path, m.Everywhere Q := by
  induction hpath with
  | here n => simpa using h
  | down hc hpath ih =>
    refine List.forall_mem_append.mpr ⟨ih (h.child hc), ?_⟩
    simpa using h

end Node.Everywhere

/-! ## The indices of an idiom -/

section Indices

variable {array : String} {i value : Expr}

theorem Expr.everywhere_of_element? {e : Expr} (h : (Node.expr e).Everywhere Q)
    (he : e.element? = some (array, i)) : (Node.expr i).Everywhere Q := by
  obtain ⟨nameLoc, loc, rfl⟩ := eq_index_of_element? he
  exact h.child (List.mem_cons_of_mem _ List.mem_cons_self)

theorem Stmt.everywhere_of_elementWrite? {s : Stmt} (h : (Node.stmt s).Everywhere Q)
    (hs : s.elementWrite? array = some (i, value)) :
    (Node.expr i).Everywhere Q ∧ (Node.expr value).Everywhere Q := by
  obtain ⟨nameLoc, indexLoc, assignLoc, loc, rfl⟩ := eq_of_elementWrite? hs
  have hassign := h.child List.mem_cons_self
  have htarget := hassign.child List.mem_cons_self
  exact ⟨Expr.everywhere_of_element? htarget rfl,
    hassign.child (List.mem_cons_of_mem _ List.mem_cons_self)⟩

theorem Stmt.everywhere_of_capture? {s : Stmt} {temp : String} (h : (Node.stmt s).Everywhere Q)
    (hs : s.capture? temp = some (array, i)) : (Node.expr i).Everywhere Q := by
  obtain ⟨tempLoc, nameLoc, indexLoc, hshape⟩ := eq_of_capture? hs
  rcases hshape with ⟨kind, declaratorLoc, loc, rfl⟩ | ⟨assignLoc, loc, rfl⟩
  · have hvalue := h.child (List.mem_cons_of_mem _ List.mem_cons_self)
    exact Expr.everywhere_of_element? hvalue rfl
  · have hassign := h.child List.mem_cons_self
    have hvalue := hassign.child (List.mem_cons_of_mem _ List.mem_cons_self)
    exact Expr.everywhere_of_element? hvalue rfl

end Indices

/-! ## Programs -/

/-- What holds of all visits of a program holds everywhere below its statements. -/
theorem Program.everywhere_of_visits {p : Program} (h : Visit.All Q p.visits) :
    ∀ s ∈ p.body, (Node.stmt s).Everywhere Q :=
  fun _ hs ↦ Node.Everywhere.statements h hs

end ScriptTrace
