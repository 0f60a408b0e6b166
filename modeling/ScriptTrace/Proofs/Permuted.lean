import ScriptTrace.Proofs.ArrayContents
import ScriptTrace.Proofs.SwapDetection

/-!
# Exchanges lose and duplicate no element

The first half of an exchange leaves an element twice in its array, and another one nowhere. But
nothing is evaluated between the halves and nothing fails there: the indices are checked before the
first. So in a program that changes arrays by exchanges alone every array keeps its elements, in
some order, whether the run ends or fails.

The writes of the swap idiom count as an exchange if the run detects it. They are then not run at
all, so the program may do in them what it likes.
-/

namespace ScriptTrace

/-- Programs that write to elements only by calls of `swap` and by swap idioms. -/
def Manner.exchangesOnly : Manner where
  value e := !e.does .write
  statement e := !e.does .write
  sparesIdioms := true

/-- The contents of an array are a permutation of what they were. -/
def Upkeep.permuted : Upkeep :=
  .contents Array.Perm (fun _ ↦ .rfl) (fun _ _ _ ↦ .trans)
    fun _ _ _ hi hj ↦ (Array.swap_perm hi hj).symm

theorem Manner.keptBy_exchangesOnly : exchangesOnly.KeptBy .permuted := by
  have hadmits : ∀ {e : Expr} {effect : Effect}, (!e.does .write) = true →
      e.does effect = true → Upkeep.permuted.Admits effect := by
    intro e effect he hdoes
    rcases effect with _ | _
    · exact Upkeep.contents_admits_bind
    · rw [hdoes] at he
      cases he
  refine ⟨fun he effect hdoes ↦ hadmits he hdoes, fun he effect hdoes ↦ ?_, fun he heffect ↦ ?_⟩
  · exact hadmits he (Expr.does_of_doesInside hdoes)
  · exact hadmits he (Expr.does_of_effect? heffect)

namespace Program

/-- **Exchanges lose and duplicate no element.** In a run with swap detection of a program that
writes to elements only by calls of `swap` and by swap idioms, every array keeps its elements, in
some order, and its length: the arrays that are there at the start, and those that the program makes
by evaluating array literals, which are all others. So it is when the run ends and when it fails. -/
theorem perm_elements {config : Config} (hdetects : config.swapDetection = true) {p : Program}
    (hp : p.inManner .exchangesOnly = true) (environment : Environment) (heap : Heap) :
    let s : State := .start config environment heap
    let t := (p.exec config).endState s
    (∀ id, id < heap.nextId →
      (heap.elements id).Perm (t.heap.elements id) ∧ t.heap.length id = heap.length id) ∧
    (∀ v ∈ p.evaluations config s, ∀ id, v.Creates id →
      (v.stop.heap.elements id).Perm (t.heap.elements id) ∧
        t.heap.length id = v.stop.heap.length id) ∧
    ∀ id, heap.nextId ≤ id → id < t.heap.nextId → ∃ v ∈ p.evaluations config s, v.Creates id := by
  intro s t
  have hrun : (p.exec config).Upholds .permuted s (p.evaluations config s) fun _ _ ↦ True :=
    exec_upholds Manner.keptBy_exchangesOnly (fun _ ↦ hdetects) hp trivial
  have hlength : ∀ {h h' : Heap} {id : ArrayId}, (h.elements id).Perm (h'.elements id) →
      h'.length id = h.length id := fun hperm ↦ hperm.size_eq.symm
  refine ⟨fun id hid ↦ ?_, fun v hv id hcreates ↦ ?_, fun id ↦ hrun.created⟩
  · have hperm := hrun.leads.elements hid
    exact ⟨hperm, hlength hperm⟩
  · obtain ⟨-, -, hstop⟩ := hrun.visited hv
    have hperm := hstop.elements hcreates.lt_nextId
    exact ⟨hperm, hlength hperm⟩

/-- The array of 2 and 1, sorted by the idiom and then exchanged with itself, before a name is read
that is not bound. -/
def sortAndFail : Program :=
  .ofBody (.letVar 1 "a" (.ofElements [.ofNumber 2, .ofNumber 1]) :: sortTwo.body ++
    [.ofExpr 5 (.ofCall "swap" [.ofName "a", .ofNumber 0, .ofNumber 1]), .ofExpr 6 (.ofName "x")])

/-- The only array of that run is a permutation of the literal, although the run fails. -/
theorem perm_elements_sortAndFail : sortAndFail.inManner .exchangesOnly = true ∧
    let s : State := .start .standard .empty .empty
    ∃ v ∈ sortAndFail.evaluations .standard s, v.Creates 0 ∧
      (v.stop.heap.elements 0).Perm
        (((sortAndFail.exec .standard).endState s).heap.elements 0) := by
  have hp : sortAndFail.inManner .exchangesOnly = true := by decide +kernel
  have hdetects : Config.standard.swapDetection = true := rfl
  obtain ⟨-, hcreated, hnew⟩ := perm_elements hdetects hp .empty .empty
  obtain ⟨v, hv, hcreates⟩ := hnew 0 (Nat.le_refl 0) (by decide +kernel)
  exact ⟨hp, v, hv, hcreates, (hcreated v hv 0 hcreates).1⟩

end Program

end ScriptTrace
