import ScriptTrace.Proofs.Agreement
import ScriptTrace.Proofs.SwapDetection

/-!
# Locations decide nothing but lines

A run reads locations only to say on which line something happened. There is one exception: the
second half of a planned exchange is recorded only if the statement it stands for has a location.
So a program runs the same at other locations, up to lines, as long as the same expression
statements have one (`Program.runFrom_relocate`).
-/

namespace ScriptTrace

namespace Relocation

/-- Erase all locations. Of an expression statement it remains to be seen whether it had one. -/
def erasing : Relocation := ⟨Option.map fun _ ↦ .line 1, fun _ ↦ none⟩

theorem suits_erasing : erasing.Suits False := ⟨False.elim, fun _ ↦ Option.isSome_map⟩

end Relocation

namespace Program

variable {f : Relocation} (cap : Nat) (swapDetection : Bool) (environment : Environment)
  (heap : Heap)

/-- A program at other locations: only lines change, in the events and in a failure. -/
theorem runFrom_relocate (hf : f.Suits False) (p : Program) :
    let here := p.runFrom ⟨cap, .keepAll, swapDetection⟩ environment heap
    let there := (p.relocate f).runFrom ⟨cap, .keepAll, swapDetection⟩ environment heap
    there.result.mapError Failure.withoutLine = here.result.mapError Failure.withoutLine ∧
      there.events.map Event.details = here.events.map Event.details := by
  obtain ⟨ending, ending', events, events', hrun, hrun', hending, hevents⟩ :=
    p.agree_exec (Environment.alike_eq fun _ ↦ True) hf ⟨cap, .keepAll, swapDetection⟩
      (fun s _ ↦ .of_forall (fun _ ↦ trivial) (.stmt s)) rfl heap
  obtain ⟨hresult, hkept⟩ := runFrom_of_emits hrun
  obtain ⟨hresult', hkept'⟩ := runFrom_of_emits hrun'
  refine ⟨?_, ?_⟩
  · rw [hresult, hresult']
    cases hending with
    | ok _ h heap =>
      obtain rfl := h
      rfl
    | error hsame _ _ _ => exact congrArg Except.error hsame
  · rw [hkept, hkept', History.toList_events_recordAll rfl, History.toList_events_recordAll rfl,
      List.map_append, List.map_append, hevents.details]

/-- **Locations never influence a run.** Two programs that differ in nothing but their locations,
and have them at the same expression statements, run the same from the same variables and arrays:
both end with the same variables, or both fail for the same reason at a node of the same type. Their
histories are equal event by event but for the lines. -/
theorem runFrom_of_relocate_erasing_eq {p q : Program}
    (h : p.relocate .erasing = q.relocate .erasing) :
    let left := p.runFrom ⟨cap, .keepAll, swapDetection⟩ environment heap
    let right := q.runFrom ⟨cap, .keepAll, swapDetection⟩ environment heap
    left.result.mapError Failure.withoutLine = right.result.mapError Failure.withoutLine ∧
      left.events.map Event.details = right.events.map Event.details := by
  -- both programs run like the one without locations
  obtain ⟨hresult, hevents⟩ :=
    p.runFrom_relocate cap swapDetection environment heap Relocation.suits_erasing
  obtain ⟨hresult', hevents'⟩ :=
    q.runFrom_relocate cap swapDetection environment heap Relocation.suits_erasing
  rw [h] at hresult hevents
  exact ⟨hresult.symm.trans hresult', hevents.symm.trans hevents'⟩

/-- The swap idiom with everything that has a location on one line. -/
def sortTwoOnOneLine : Program :=
  sortTwo.relocate ⟨Option.map fun _ ↦ .line 7, Option.map fun _ ↦ .line 7⟩

/-- The exchange of the idiom goes the same way on one line. -/
theorem runFrom_sortTwoOnOneLine : sortTwo.relocate .erasing = sortTwoOnOneLine.relocate .erasing ∧
    let left := sortTwo.runFrom .standard twoAndOne.1 twoAndOne.2
    let right := sortTwoOnOneLine.runFrom .standard twoAndOne.1 twoAndOne.2
    left.result.mapError Failure.withoutLine = right.result.mapError Failure.withoutLine ∧
      left.events.map Event.details = right.events.map Event.details := by
  have herased : sortTwo.relocate .erasing = sortTwoOnOneLine.relocate .erasing := rfl
  exact ⟨herased, runFrom_of_relocate_erasing_eq 1000 true twoAndOne.1 twoAndOne.2 herased⟩

end Program

end ScriptTrace
