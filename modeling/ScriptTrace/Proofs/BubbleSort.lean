import Mathlib
import ScriptTrace.Proofs.BubblePasses
import ScriptTrace.Proofs.BubbleProgram
import ScriptTrace.Proofs.IntegerArrays
import ScriptTrace.Proofs.LoopRounds

/-!
# The traced bubble sort

The run of the bubble sort does to its array what passes do to a list (`Bubble.passes`), so in the
end the array is in order. The events follow along: the exchanges that they record lead from the
first list to the last, and every loop ends by its test.

All parts of the run are described in one way. A part `Advances` from one list to another if it
ends, the array is the second list after it, its events lead from the first list to the second, and
the counters are as they should be. Parts that follow each other are put together by
`Advances.andThen`, the rounds of a loop by `Advances.round`; the inner loop is then one pass, by
induction on its rounds, and the outer loop all passes.
-/

namespace ScriptTrace

open Eval

/-! ## What the events say -/

/-- Why a loop ended, if an event says so. -/
def Event.loopEnd? (e : Event) : Option LoopEnd :=
  match e.details with
  | .loopEnd reason _ => some reason
  | _ => none

/-- Whether an event is half of an exchange. -/
def Event.isSwap (e : Event) : Bool :=
  match e.details with
  | .swap .. => true
  | _ => false

/-- Whether events are the halves of exchanges of an array, in pairs, that lead from certain
elements to others: the first half of a pair copies the second element over the first, and the
second half stores the element that was there before in the second slot. Each half has recorded the
elements after it. -/
inductive ReplaysInPairs (array : String) : List Snapshot → List Event → List Snapshot → Prop
  | nil (xs : List Snapshot) : ReplaysInPairs array xs [] xs
  | pair {xs ys : List Snapshot} {first second : Nat} {saved copied : Snapshot}
    {events : List Event} (hsaved : xs[first]? = some saved) (hcopied : xs[second]? = some copied)
    (line1 line2 : Option UInt32)
    (hrest : ReplaysInPairs array ((xs.set first copied).set second saved) events ys) :
    ReplaysInPairs array xs
      (⟨line1, .swap array first second (xs.set first copied)⟩ ::
        ⟨line2, .swap array first second ((xs.set first copied).set second saved)⟩ :: events) ys

theorem ReplaysInPairs.append {array : String} {xs ys zs : List Snapshot}
    {events later : List Event} (h : ReplaysInPairs array xs events ys)
    (hlater : ReplaysInPairs array ys later zs) : ReplaysInPairs array xs (events ++ later) zs := by
  induction h with
  | nil => exact hlater
  | pair hsaved hcopied line1 line2 _ ih => exact .pair hsaved hcopied line1 line2 (ih hlater)

namespace BubbleSort

/-- What the events of a part of the run say: its exchanges lead from one list to another, and a
number of loops have ended, all by their tests. -/
structure Trail (xs : List Int) (events : List Event) (ys : List Int) (ends : Nat) : Prop where
  replays : ReplaysInPairs "arr" (xs.map .ofInt) (events.filter Event.isSwap) (ys.map .ofInt)
  loopEnds : events.filterMap Event.loopEnd? = List.replicate ends .condition

namespace Trail

variable {xs ys zs : List Int} {events later : List Event} {ends ends' : Nat}

theorem nil (xs : List Int) : Trail xs [] xs 0 := ⟨.nil _, rfl⟩

theorem append (h : Trail xs events ys ends) (hlater : Trail ys later zs ends') :
    Trail xs (events ++ later) zs (ends + ends') where
  replays := by
    rw [List.filter_append]
    exact h.replays.append hlater.replays
  loopEnds := by
    rw [List.filterMap_append, h.loopEnds, hlater.loopEnds, List.replicate_append_replicate]

/-- Events of the other kinds do not count. -/
theorem plain (xs : List Int) {e : Event} (hswap : e.isSwap = false) (hend : e.loopEnd? = none) :
    Trail xs [e] xs 0 where
  replays := by
    rw [List.filter_singleton, hswap]
    exact .nil _
  loopEnds := by
    rw [List.filterMap_cons_none hend]
    rfl

/-- A loop has ended by its test. -/
theorem ended (xs : List Int) (line : Option UInt32) (iterations : Nat) :
    Trail xs [⟨line, .loopEnd .condition iterations⟩] xs 1 := ⟨.nil _, rfl⟩

/-- The two halves of an exchange lead from a list to the one with both elements exchanged. -/
theorem exchanged {j k : Nat} (hj : j < xs.length) (hk : k < xs.length)
    (line1 line2 : Option UInt32) :
    Trail xs [⟨line1, .swap "arr" j k ((xs.set j xs[k]).map .ofInt)⟩,
      ⟨line2, .swap "arr" j k (((xs.set j xs[k]).set k xs[j]).map .ofInt)⟩]
      ((xs.set j xs[k]).set k xs[j]) 0 where
  replays := by
    have hcopy {i : Nat} (hi : i < xs.length) :
        (xs.map Snapshot.ofInt)[i]? = some (.ofInt xs[i]) := by
      rw [List.getElem?_map, List.getElem?_eq_getElem hi]
      rfl
    simp only [List.map_set]
    exact .pair (hcopy hj) (hcopy hk) line1 line2 (.nil _)
  loopEnds := rfl

end Trail

/-! ## Parts of the run -/

/-- Whether the array is the list that is sorted. -/
structure Sorting (id : ArrayId) (xs : List Int) (environment : Environment) (heap : Heap) :
    Prop where
  arr : environment.get? "arr" = some (.array id)
  holds : heap.Holds id xs

theorem Sorting.define {id : ArrayId} {xs : List Int} {environment : Environment} {heap : Heap}
    (h : Sorting id xs environment heap) {name : String} (hname : name ≠ "arr") (v : Value) :
    Sorting id xs (environment.define name v) heap where
  arr := by rw [Environment.get?_define, if_neg hname.symm, h.arr]
  holds := h.holds

/-- Whether a part of the run ends with a value and makes one list of another, as its events say,
and leaves variables with a property. -/
def Advances {α : Type} (m : Eval α) (environment : Environment) (heap : Heap) (id : ArrayId)
    (a : α) (xs ys : List Int) (ends : Nat) (Q : Environment → Prop) : Prop :=
  ∃ environment' heap' events, m.Emits environment heap (.ok a (environment', heap')) events ∧
    Sorting id ys environment' heap' ∧ Trail xs events ys ends ∧ Q environment'

namespace Advances

variable {α β : Type} {m : Eval α} {environment : Environment} {heap : Heap} {id : ArrayId}
  {a : α} {xs ys zs : List Int} {ends ends' : Nat} {Q Q' : Environment → Prop}

theorem bind {k : α → Eval β} {b : β} {total : Nat}
    (hm : Advances m environment heap id a xs ys ends Q) (htotal : ends + ends' = total)
    (hk : ∀ environment heap, Sorting id ys environment heap → Q environment →
      Advances (k a) environment heap id b ys zs ends' Q') :
    Advances (m >>= k) environment heap id b xs zs total Q' := by
  subst htotal
  obtain ⟨environment', heap', events, hm, hsorting, htrail, hQ⟩ := hm
  obtain ⟨environment'', heap'', later, hk, hsorting, htrail', hQ'⟩ := hk _ _ hsorting hQ
  exact ⟨environment'', heap'', events ++ later, hm.bind hk, hsorting, htrail.append htrail', hQ'⟩

theorem of_computes (hm : m.Computes environment heap (.ok a))
    (hsorting : Sorting id xs environment heap) :
    Advances m environment heap id a xs xs 0 (environment = ·) :=
  ⟨environment, heap, [], hm, hsorting, .nil xs, rfl⟩

/-- A loop that has ended by its test says so. -/
theorem ended (line : Option UInt32) (iterations : Nat) (hsorting : Sorting id xs environment heap)
    (hQ : Q environment) :
    Advances (record line (.loopEnd .condition iterations)) environment heap id () xs xs 1 Q :=
  ⟨environment, heap, _, fun _ ↦ rfl, hsorting, .ended xs line iterations, hQ⟩

theorem mono (hm : Advances m environment heap id a xs ys ends Q)
    (hQ : ∀ environment, Q environment → Q' environment) :
    Advances m environment heap id a xs ys ends Q' := by
  obtain ⟨environment', heap', events, hm, hsorting, htrail, hvariables⟩ := hm
  exact ⟨environment', heap', events, hm, hsorting, htrail, hQ _ hvariables⟩

/-- No loop ends in the first of two parts. -/
theorem andThen {k : α → Eval β} {b : β} (hm : Advances m environment heap id a xs ys 0 Q)
    (hk : ∀ environment heap, Sorting id ys environment heap → Q environment →
      Advances (k a) environment heap id b ys zs ends' Q') :
    Advances (m >>= k) environment heap id b xs zs ends' Q' :=
  hm.bind (Nat.zero_add ends') hk

theorem atNode (nodeType : String) (line : Option UInt32)
    (hm : Advances m environment heap id a xs ys ends Q) :
    Advances (Eval.atNode nodeType line m) environment heap id a xs ys ends Q := by
  obtain ⟨environment', heap', events, hm, hpost⟩ := hm
  exact ⟨environment', heap', events, hm.atNode nodeType line, hpost⟩

theorem of_plain {environment' : Environment} {e : Event}
    (hm : m.Emits environment heap (.ok a (environment', heap)) [e])
    (hsorting : Sorting id xs environment' heap) (hswap : e.isSwap = false)
    (hend : e.loopEnd? = none) (hQ : Q environment') :
    Advances m environment heap id a xs xs 0 Q :=
  ⟨environment', heap, [e], hm, hsorting, .plain xs hswap hend, hQ⟩

/-- A loop stops when its test is false. -/
theorem stop {test : Eval Bool} {body : Eval Unit} {left ran : Nat}
    (htest : test.Computes environment heap (.ok false)) (h : Sorting id xs environment heap)
    (hQ : Q environment) :
    Advances (iterate test body left ran) environment heap id (.condition, ran) xs xs 0 Q :=
  ⟨environment, heap, [], .iterate_stop htest, h, .nil xs, hQ⟩

/-- A loop whose test is true runs its body, and goes on. -/
theorem round {test : Eval Bool} {body : Eval Unit} {left ran total : Nat} {r : LoopEnd × Nat}
    (htest : test.Computes environment heap (.ok true))
    (hbody : Advances body environment heap id () xs ys ends Q) (htotal : ends + ends' = total)
    (hrest : ∀ environment heap, Sorting id ys environment heap → Q environment →
      Advances (iterate test body left (ran + 1)) environment heap id r ys zs ends' Q') :
    Advances (iterate test body (left + 1) ran) environment heap id r xs zs total Q' := by
  subst htotal
  obtain ⟨environment', heap', events, hbody, hsorting, htrail, hQ⟩ := hbody
  obtain ⟨environment'', heap'', later, hrest, hsorting, htrail', hQ'⟩ := hrest _ _ hsorting hQ
  exact ⟨environment'', heap'', events ++ later, .iterate_round htest hbody hrest, hsorting,
    htrail.append htrail', hQ'⟩

end Advances

/-- Whether the variables are the same but for `temp`. -/
def SameButTemp (environment environment' : Environment) : Prop :=
  ∀ name, name ≠ "temp" → environment'.get? name = environment.get? name

/-! ## One round -/

section Round

variable {environment : Environment} {heap : Heap} {id : ArrayId} {xs : List Int} {j : Nat}

theorem shortValue_letter {name : String} {n : Int}
    (hname : environment.get? name = some (.ofInt n)) (line column : UInt32) :
    (letter name line column).shortValue environment heap = .ok (.ofInt n) := by
  rw [letter, Expr.shortValue, Expr.nameValue, hname]

theorem letter_computes {name : String} {v : Value} (hname : environment.get? name = some v)
    (line column : UInt32) :
    (letter name line column).eval.Computes environment heap (.ok v) :=
  Expr.identifier_computes hname _

theorem shortValue_afterJ (hj : environment.get? "j" = some (.ofInt j)) (hjx : j + 1 < 2 ^ 53)
    (line column : UInt32) :
    (afterJ line column).shortValue environment heap = .ok (.ofInt (j + 1 : Nat)) := by
  rw [afterJ, Expr.shortValue, shortValue_letter hj]
  exact heap.binary_add (by omega) (by decide) (by omega)

theorem current_computes (h : Sorting id xs environment heap)
    (hj : environment.get? "j" = some (.ofInt j)) (hjx : j < xs.length) (line column : UInt32) :
    (current line column).eval.Computes environment heap (.ok (.ofInt xs[j])) := by
  have hstable : (letter "j" line (column + 4)).isStable [] = true := rfl
  exact Expr.element_computes_of_holds h.arr h.holds hstable (shortValue_letter hj _ _) hjx _ _

theorem next_computes (h : Sorting id xs environment heap)
    (hj : environment.get? "j" = some (.ofInt j)) (hjx : j + 1 < xs.length) (line column : UInt32) :
    (next line column).eval.Computes environment heap (.ok (.ofInt xs[j + 1])) := by
  have hstable : (afterJ line (column + 4)).isStable [] = true := rfl
  have hlength := h.holds.length_lt
  exact Expr.element_computes_of_holds h.arr h.holds hstable
    (shortValue_afterJ hj (by omega) _ _) hjx _ _

theorem outOfOrder_computes (h : Sorting id xs environment heap)
    (hj : environment.get? "j" = some (.ofInt j)) (hjx : j + 1 < xs.length) :
    outOfOrder.eval.Computes environment heap (.ok (.boolean (xs[j + 1] < xs[j]))) :=
  Expr.binary_computes (current_computes h hj (by omega) _ _) (next_computes h hj hjx _ _)
    (heap.binary_greater (h.holds.exact (List.getElem_mem _))
      (h.holds.exact (List.getElem_mem _))) _

theorem plan_advances (h : Sorting id xs environment heap)
    (hj : environment.get? "j" = some (.ofInt j)) (hjx : j + 1 < xs.length) :
    Advances (plannedSwap plan) environment heap id () xs
      ((xs.set j xs[j + 1]).set (j + 1) xs[j]) 0 (environment = ·) := by
  have hlength := h.holds.length_lt
  have hfirst : plan.first.isStable [] = true := rfl
  have hsecond : plan.second.isStable [] = true := rfl
  obtain ⟨heap', hholds, hswap⟩ := SwapPlan.plannedSwap_emits_of_holds h.arr h.holds hfirst hsecond
    (shortValue_letter hj _ _) (Nat.lt_of_succ_lt hjx) (shortValue_afterJ hj (by omega) _ _) hjx rfl
  exact ⟨environment, heap', _, hswap, ⟨h.arr, hholds⟩, .exchanged _ hjx _ _, rfl⟩

theorem capture_advances (config : Config) (h : Sorting id xs environment heap)
    (hj : environment.get? "j" = some (.ofInt j)) (hjx : j < xs.length) :
    Advances (capture.exec config) environment heap id () xs xs 0
      (SameButTemp environment) := by
  have hcapture : (capture.exec config).Emits environment heap
      (.ok () (environment.define "temp" (.ofInt xs[j]), heap))
      [⟨some 5, .declare "temp" (heap.snapshot (.ofInt xs[j]))⟩] :=
    Stmt.exec_declaration_emits (current_computes h hj hjx _ _) _ _ _ _ _
  refine .of_plain hcapture (h.define (by decide) _) rfl rfl fun name hname ↦ ?_
  rw [Environment.get?_define, if_neg hname]

/-- After the capture the two writes run as one exchange. -/
theorem exchange_advances (config : Config) (h : Sorting id xs environment heap)
    (hj : environment.get? "j" = some (.ofInt j)) (hjx : j + 1 < xs.length) :
    Advances (exchange.asBodyOf (exchange.effect config (some plan))) environment heap id () xs
      ((xs.set j xs[j + 1]).set (j + 1) xs[j]) 0 (SameButTemp environment) := by
  have hrun : exchange.asBodyOf (exchange.effect config (some plan)) = (do
      capture.exec config
      Eval.atNode copy.nodeType copy.line (plannedSwap plan)
      return ()) := by
    show Stmt.effects config (some plan) 0 [capture, copy, restore] = _
    have hposition : plan.position = 0 + 1 := rfl
    rw [Stmt.effects_cons_of_ne config (fun p hp ↦ by cases hp; decide),
      Stmt.effects_writes config hposition, Stmt.effects_nil]
  rw [hrun]
  refine (capture_advances config h hj (by omega)).andThen fun environment₁ heap₁ h₁ hframe ↦ ?_
  have hj₁ : environment₁.get? "j" = some (.ofInt j) := by rw [hframe "j" (by decide), hj]
  have hplan := (plan_advances h₁ hj₁ hjx).atNode copy.nodeType copy.line
  refine hplan.andThen fun environment₂ heap₂ h₂ heq ↦ ?_
  exact ⟨environment₂, heap₂, [], fun _ ↦ rfl, h₂, .nil _, by rwa [← heq]⟩

/-- The `if` orders two neighbours, as a round of a pass does. -/
theorem orderNeighbours_advances {config : Config} (hdetects : config.swapDetection = true)
    (h : Sorting id xs environment heap) (hj : environment.get? "j" = some (.ofInt j))
    (hjx : j + 1 < xs.length) :
    Advances (orderNeighbours.exec config) environment heap id () xs (Bubble.compareSwap xs j) 0
      (SameButTemp environment) := by
  refine Advances.atNode _ _ ?_
  rw [orderNeighbours, Stmt.effect_ifThen]
  refine (Advances.of_computes (outOfOrder_computes h hj hjx) h).andThen fun _ heap₁ h₁ heq ↦ ?_
  subst heq
  have hrecord : Advances (record (some 4) (.ifTest (xs[j + 1] < xs[j]))) environment heap₁ id () xs
      xs 0 (environment = ·) := .of_plain (fun _ ↦ rfl) h₁ rfl rfl rfl
  refine hrecord.andThen fun _ heap₂ h₂ heq ↦ ?_
  subst heq
  by_cases hlt : xs[j + 1] < xs[j]
  · have htrue : (Value.boolean (decide (xs[j + 1] < xs[j]))).isTruthy = true := decide_eq_true hlt
    rw [if_pos htrue, Bubble.compareSwap, dif_pos hjx, if_pos hlt]
    show Advances (exchange.asBodyOf (exchange.effect config
      (if config.swapDetection then SwapPlan.ofIf? outOfOrder exchange else none))) _ _ _ _ _ _ _ _
    rw [if_pos hdetects, ofIf?_exchange]
    exact exchange_advances config h₂ hj hjx
  · have hfalse : ¬(Value.boolean (decide (xs[j + 1] < xs[j]))).isTruthy = true := by
      simpa only [Value.isTruthy, decide_eq_true_iff] using hlt
    rw [if_neg hfalse, Bubble.compareSwap, dif_pos hjx, if_neg hlt]
    exact ⟨_, heap₂, [], fun _ ↦ rfl, h₂, .nil _, fun _ _ ↦ rfl⟩

/-- The update of a loop counts on. -/
theorem count_advances {name : String} {n : Nat} (hne : name ≠ "arr")
    (h : Sorting id xs environment heap) (hname : environment.get? name = some (.ofInt n))
    (hn : n + 1 < 2 ^ 53) (line : Option UInt32) (line' column : UInt32) :
    Advances (loopUpdate line (some (count name line' column))) environment heap id () xs xs 0
      (environment.define name (.ofInt (n + 1 : Nat)) = ·) :=
  .of_plain (.loopUpdate_increment hname (by omega) (by omega) _ _ _) (h.define hne _) rfl rfl rfl

/-- The head of a loop starts its counter. -/
theorem counter_advances {name : String} (hne : name ≠ "arr") (h : Sorting id xs environment heap)
    (line column : UInt32) :
    Advances (ForInit.exec (some (counter name line column))) environment heap id () xs xs 0
      (environment.define name (.ofInt 0) = ·) := by
  have hdeclare : (ForInit.exec (some (counter name line column))).Emits environment heap
      (.ok () (environment.define name (.ofInt 0), heap))
      [⟨some line, .declare name (heap.snapshot (.ofInt 0))⟩] :=
    Declaration.exec_emits (Expr.literal_computes 0 _) _ _ _ _ _
  exact .of_plain hdeclare (h.define hne _) rfl rfl rfl

theorem lastSlot_computes (h : Sorting id xs environment heap) (line column : UInt32) :
    (lastSlot line column).eval.Computes environment heap (.ok (.ofInt (xs.length - 1))) := by
  have hlength := h.holds.length_lt
  have harr : (arr line column (column + 3)).eval.Computes environment heap (.ok (.array id)) :=
    Expr.identifier_computes h.arr _
  exact Expr.binary_computes (Expr.length_computes h.holds harr _ _) (Expr.literal_computes 1 _)
    (heap.binary_subtract (by omega) (by decide) (by omega)) _

end Round

/-! ## The loops -/

section Loops

variable {config : Config} {environment : Environment} {heap : Heap} {id : ArrayId} {xs : List Int}
  {i j : Nat}

theorem holds_computes {e : Expr} {b : Bool}
    (he : e.eval.Computes environment heap (.ok (.boolean b))) :
    (Expr.holds (some e)).Computes environment heap (.ok b) :=
  he.bind_ok (Computes.pure b)

theorem execBody_singleton (config : Config) (s : Stmt) (loc : Option Location) :
    (Stmt.block [s] loc).execBody config = s.exec config := by
  rw [Stmt.execBody_eq]
  exact Stmt.execAll_singleton config s

theorem passTest_computes (h : Sorting id xs environment heap)
    (hi : environment.get? "i" = some (.ofInt i)) (hj : environment.get? "j" = some (.ofInt j))
    {rounds : Nat} (hrounds : i + j + rounds + 1 = xs.length) :
    (Expr.holds (some passTest)).Computes environment heap (.ok (0 < rounds)) := by
  have hlength := h.holds.length_lt
  have hlimit : (j : Int) < xs.length - 1 - i ↔ 0 < rounds := by omega
  rw [← decide_eq_decide.mpr hlimit]
  have hlast := Expr.binary_computes (lastSlot_computes h 3 22) (letter_computes hi 3 39)
    (heap.binary_subtract (by omega) (by omega) (by omega)) (span 3 22 3 40)
  exact holds_computes (Expr.binary_computes (letter_computes hj 3 18) hlast
    (heap.binary_less (by omega) (by omega)) _)

/-- What is run in each round of a pass after the test. -/
def passRound (config : Config) : Eval Unit := do
  (Stmt.block [orderNeighbours] (span 3 47 9 3)).execBody config
  loopUpdate (some 3) (some (count "j" 3 42))

/-- A round of a pass orders the elements in slot `j` and the next, and counts on. -/
theorem passRound_advances (hdetects : config.swapDetection = true)
    (h : Sorting id xs environment heap) (hi : environment.get? "i" = some (.ofInt i))
    (hj : environment.get? "j" = some (.ofInt j)) (hjx : j + 1 < xs.length) :
    Advances (passRound config) environment heap id () xs (Bubble.compareSwap xs j) 0
      fun environment' ↦ environment'.get? "i" = some (.ofInt i) ∧
        environment'.get? "j" = some (.ofInt (j + 1 : Nat)) := by
  rw [passRound, execBody_singleton]
  refine (orderNeighbours_advances hdetects h hj hjx).andThen fun environment₁ heap₁ h₁ hframe ↦ ?_
  have hlength := h.holds.length_lt
  have hj₁ : environment₁.get? "j" = some (.ofInt j) := by rw [hframe "j" (by decide), hj]
  refine (count_advances (by decide) h₁ hj₁ (by omega) _ _ _).mono fun environment₂ heq ↦ ?_
  subst heq
  constructor
  · rw [Environment.get?_define, if_neg (by decide), hframe "i" (by decide), hi]
  · rw [Environment.get?_define, if_pos rfl]

/-- The rounds of the inner loop are those of a pass. -/
theorem passRounds_advance (hdetects : config.swapDetection = true) {rounds left ran : Nat}
    (h : Sorting id xs environment heap) (hi : environment.get? "i" = some (.ofInt i))
    (hj : environment.get? "j" = some (.ofInt j)) (hrounds : i + j + rounds + 1 = xs.length)
    (hleft : rounds ≤ left) :
    Advances (iterate (Expr.holds (some passTest)) (passRound config) left ran) environment heap id
      (.condition, ran + rounds) xs (Bubble.pass xs j rounds) 0
      fun environment' ↦ environment'.get? "i" = some (.ofInt i) := by
  -- on the rounds to come; slot, list and variables change with every round
  induction rounds generalizing xs j left ran environment heap with
  | zero =>
    have htest : (Expr.holds (some passTest)).Computes environment heap (.ok (0 < 0)) :=
      passTest_computes h hi hj hrounds
    exact .stop htest h hi
  | succ rounds ih =>
    obtain ⟨left, rfl⟩ := Nat.exists_eq_succ_of_ne_zero (Nat.ne_zero_of_lt hleft)
    have htest := passTest_computes h hi hj hrounds
    have hround := passRound_advances hdetects h hi hj (by omega)
    have hran : ran + (rounds + 1) = ran + 1 + rounds := by omega
    rw [hran]
    refine Advances.round htest hround (Nat.zero_add 0) fun environment₁ heap₁ h₁ hcounters ↦ ?_
    refine ih h₁ hcounters.1 hcounters.2 ?_ (Nat.le_of_succ_le_succ hleft)
    rw [Bubble.length_compareSwap]
    omega

/-- The inner loop is a pass. -/
theorem passLoop_advances (hdetects : config.swapDetection = true) {rounds : Nat}
    (h : Sorting id xs environment heap) (hi : environment.get? "i" = some (.ofInt i))
    (hrounds : i + rounds + 1 = xs.length) (hcap : rounds ≤ config.iterationCap) :
    Advances (passLoop.exec config) environment heap id () xs (Bubble.pass xs 0 rounds) 1
      fun environment' ↦ environment'.get? "i" = some (.ofInt i) := by
  refine Advances.atNode _ _ ?_
  rw [passLoop, Stmt.effect_forLoop]
  refine (counter_advances (by decide) h 3 7).andThen fun environment₁ heap₁ h₁ heq ↦ ?_
  subst heq
  have hi₁ : (environment.define "j" (.ofInt 0)).get? "i" = some (.ofInt i) := by
    rw [Environment.get?_define, if_neg (by decide), hi]
  have hj₁ : (environment.define "j" (.ofInt 0)).get? "j" = some (.ofInt (0 : Nat)) := by
    rw [Environment.get?_define, if_pos rfl]
    rfl
  refine (passRounds_advance hdetects h₁ hi₁ hj₁ hrounds hcap).andThen fun _ heap₂ h₂ hi₂ ↦ ?_
  exact .ended _ _ h₂ hi₂

theorem sortTest_computes (h : Sorting id xs environment heap)
    (hi : environment.get? "i" = some (.ofInt i)) {rounds : Nat}
    (hrounds : i + rounds = xs.length - 1) :
    (Expr.holds (some sortTest)).Computes environment heap (.ok (0 < rounds)) := by
  have hlength := h.holds.length_lt
  have hlimit : (i : Int) < xs.length - 1 ↔ 0 < rounds := by omega
  rw [← decide_eq_decide.mpr hlimit]
  exact holds_computes (Expr.binary_computes (letter_computes hi 2 16) (lastSlot_computes h 2 20)
    (heap.binary_less (by omega) (by omega)) _)

/-- What is run in each round of the outer loop after the test. -/
def sortRound (config : Config) : Eval Unit := do
  (Stmt.block [passLoop] (span 2 41 10 1)).execBody config
  loopUpdate (some 2) (some (count "i" 2 36))

/-- A round of the outer loop is a pass, and counts on. -/
theorem sortRound_advances (hdetects : config.swapDetection = true) {rounds : Nat}
    (h : Sorting id xs environment heap) (hi : environment.get? "i" = some (.ofInt i))
    (hrounds : i + rounds + 1 = xs.length) (hcap : rounds ≤ config.iterationCap) :
    Advances (sortRound config) environment heap id () xs (Bubble.pass xs 0 rounds) 1
      fun environment' ↦ environment'.get? "i" = some (.ofInt (i + 1 : Nat)) := by
  rw [sortRound, execBody_singleton]
  refine (passLoop_advances hdetects h hi hrounds hcap).bind (Nat.add_zero 1)
    fun environment₁ heap₁ h₁ hi₁ ↦ ?_
  have hlength := h.holds.length_lt
  refine (count_advances (by decide) h₁ hi₁ (by omega) _ _ _).mono fun environment₂ heq ↦ ?_
  subst heq
  rw [Environment.get?_define, if_pos rfl]

/-- The rounds of the outer loop are the passes. -/
theorem sortRounds_advance (hdetects : config.swapDetection = true) {rounds left ran : Nat}
    (h : Sorting id xs environment heap) (hi : environment.get? "i" = some (.ofInt i))
    (hrounds : i + rounds = xs.length - 1) (hleft : rounds ≤ left)
    (hcap : rounds ≤ config.iterationCap) :
    Advances (iterate (Expr.holds (some sortTest)) (sortRound config) left ran) environment heap id
      (.condition, ran + rounds) xs (Bubble.passes xs rounds) rounds fun _ ↦ True := by
  -- as for the inner loop
  induction rounds generalizing xs i left ran environment heap with
  | zero =>
    have htest : (Expr.holds (some sortTest)).Computes environment heap (.ok (0 < 0)) :=
      sortTest_computes h hi hrounds
    exact .stop htest h trivial
  | succ rounds ih =>
    obtain ⟨left, rfl⟩ := Nat.exists_eq_succ_of_ne_zero (Nat.ne_zero_of_lt hleft)
    have htest := sortTest_computes h hi hrounds
    have hround := sortRound_advances hdetects h hi (by omega) hcap
    have hran : ran + (rounds + 1) = ran + 1 + rounds := by omega
    rw [hran]
    refine Advances.round htest hround (Nat.add_comm 1 rounds) fun environment₁ heap₁ h₁ hi₁ ↦ ?_
    refine ih h₁ hi₁ ?_ (Nat.le_of_succ_le_succ hleft) (Nat.le_of_succ_le hcap)
    rw [Bubble.length_pass]
    omega

/-- The outer loop sorts. -/
theorem sortLoop_advances (hdetects : config.swapDetection = true)
    (h : Sorting id xs environment heap) (hcap : xs.length - 1 ≤ config.iterationCap) :
    Advances (sortLoop.exec config) environment heap id () xs (Bubble.passes xs (xs.length - 1))
      (xs.length - 1 + 1) fun _ ↦ True := by
  refine Advances.atNode _ _ ?_
  rw [sortLoop, Stmt.effect_forLoop]
  refine (counter_advances (by decide) h 2 5).andThen fun environment₁ heap₁ h₁ heq ↦ ?_
  subst heq
  have hi₁ : (environment.define "i" (.ofInt 0)).get? "i" = some (.ofInt (0 : Nat)) := by
    rw [Environment.get?_define, if_pos rfl]
    rfl
  refine (sortRounds_advance hdetects h₁ hi₁ (Nat.zero_add _) hcap hcap).bind rfl
    fun environment₂ heap₂ h₂ _ ↦ ?_
  exact .ended _ _ h₂ trivial

end Loops

/-! ## The whole run -/

theorem evalElements_computes (environment : Environment) (heap : Heap) (ns : List Int) :
    (Expr.evalElements (ns.map fun n ↦ some (.literal (.number (.ofInt n)) none none))).Computes
      environment heap (.ok (ns.map .ofInt)) := by
  induction ns with
  | nil => exact Computes.pure _
  | cons n ns ih => exact (Expr.literal_computes n none).bind_ok (ih.bind_ok (Computes.pure _))

/-- The declaration makes the array of the numbers. -/
theorem declareArray_advances (config : Config) {values : List Int32}
    (hlength : values.length < 2 ^ 53) (environment : Environment) (heap : Heap) :
    Advances ((declareArray values).exec config) environment heap heap.nextId ()
      (values.map Int32.toInt) (values.map Int32.toInt) 0 fun _ ↦ True := by
  have hvalues := evalElements_computes environment heap (values.map Int32.toInt)
  rw [List.map_map] at hvalues
  have hliteral : (literal values).eval.Emits environment heap (.ok (.array heap.nextId)
      (environment, heap.allocate ((values.map Int32.toInt).map Value.ofInt).toArray)) [] :=
    Emits.atNode _ _ (Emits.bind hvalues fun _ ↦ rfl)
  have hdeclare : ((declareArray values).exec config).Emits _ _ _ _ :=
    Emits.atNode _ _ (Declaration.exec_emits hliteral _ _ _ _ _)
  refine ⟨_, _, _, hdeclare, ⟨?_, ?_, ?_, ?_⟩, .plain _ rfl rfl, trivial⟩
  · rw [Environment.get?_define, if_pos rfl]
  · rw [Heap.elements_allocate, if_pos rfl]
  · intro n hn
    obtain ⟨v, -, rfl⟩ := List.mem_map.mp hn
    have hlow := v.le_toInt
    have hhigh := v.toInt_lt
    omega
  · rwa [List.length_map]

theorem exec_advances {config : Config} (hdetects : config.swapDetection = true)
    {values : List Int32} (hcap : values.length - 1 ≤ config.iterationCap)
    (hlength : values.length < 2 ^ 53) :
    Advances ((Program.bubbleSort values).exec config) .empty .empty 0 () (values.map Int32.toInt)
      (Bubble.passes (values.map Int32.toInt) (values.length - 1)) (values.length - 1 + 1)
      fun _ ↦ True := by
  have hrun : (Program.bubbleSort values).exec config = (do
      (declareArray values).exec config
      sortLoop.exec config) := by
    show Stmt.execAll config [declareArray values, sortLoop] = _
    rw [Stmt.execAll_cons, Stmt.execAll_singleton]
  rw [hrun]
  refine (declareArray_advances config hlength .empty .empty).andThen fun environment heap h _ ↦ ?_
  have hsort := sortLoop_advances hdetects h (by rwa [List.length_map])
  rwa [List.length_map] at hsort

/-- Passes over integers of 32 bits give them in order. -/
theorem exists_sorted (values : List Int32) :
    ∃ sorted : List Int32, sorted.Perm values ∧ sorted.Pairwise (· ≤ ·) ∧
      Bubble.passes (values.map Int32.toInt) (values.length - 1) = sorted.map Int32.toInt := by
  have hperm := Bubble.perm_passes (values.map Int32.toInt) (values.length - 1)
  have horder := Bubble.pairwise_passes (values.map Int32.toInt)
  rw [List.length_map] at horder
  generalize Bubble.passes (values.map Int32.toInt) (values.length - 1) = ns at hperm horder
  have hback : (ns.map Int32.ofInt).map Int32.toInt = ns := by
    have hid : ∀ n ∈ ns, (Int32.toInt ∘ Int32.ofInt) n = id n := by
      intro n hn
      obtain ⟨v, -, rfl⟩ := List.mem_map.mp (hperm.mem_iff.mp hn)
      exact congrArg Int32.toInt v.ofInt_toInt
    rw [List.map_map, List.map_congr_left hid, List.map_id]
  refine ⟨ns.map Int32.ofInt, ?_, ?_, hback.symm⟩
  · have hvalues : (values.map Int32.toInt).map Int32.ofInt = values := by
      simp only [List.map_map, Function.comp_def, Int32.ofInt_toInt, List.map_id']
    rw [← hvalues]
    exact hperm.map Int32.ofInt
  · rw [← hback, List.pairwise_map] at horder
    exact horder.imp Int32.le_iff_toInt_le.mpr

end BubbleSort

/-- The copy of the variable with a name. -/
theorem Environment.lookup_snapshot (environment : Environment) (heap : Heap) (name : String) :
    (environment.snapshot heap).lookup name = (environment.get? name).map heap.snapshot := by
  rw [snapshot, get?]
  induction environment.bindings with
  | nil => rfl
  | cons binding rest ih =>
    rw [List.map_cons, Named.lookup_cons_eq_ite, ih, Named.lookup_cons_eq_ite]
    split <;> rfl

/-- **The traced bubble sort sorts.** The run of the bubble sort of any integers of 32 bits, with a
cap that lets the outer loop run through, succeeds. In the end the array is a permutation of the
integers that is in order. There is one loop end more than there are passes, one for each integer
but one, and all loops end by their tests. The halves of the exchanges come in pairs, which lead
from the integers to the array in the end, with every half as it has been recorded. -/
theorem Program.bubbleSort_sorts (cap : UInt32) (values : List Int32)
    (hcap : values.length - 1 ≤ cap.toNat) :
    ∃ (history : History) (bindings : List (String × Snapshot)) (sorted : List Int32),
      (bubbleSort values).run ⟨cap.toNat, .keepAll, true⟩ = .finished history bindings ∧
      sorted.Perm values ∧ sorted.Pairwise (· ≤ ·) ∧
      bindings.lookup "arr" = some (.array (sorted.map fun v ↦ .ofInt v.toInt)) ∧
      history.events.toList.filterMap Event.loopEnd? =
        List.replicate (values.length - 1 + 1) .condition ∧
      ReplaysInPairs "arr" (values.map fun v ↦ .ofInt v.toInt)
        (history.events.toList.filter Event.isSwap) (sorted.map fun v ↦ .ofInt v.toInt) := by
  let config : Config := ⟨cap.toNat, .keepAll, true⟩
  have hlength : values.length < 2 ^ 53 := by
    have hlt := cap.toNat_lt
    omega
  have hdetects : config.swapDetection = true := rfl
  obtain ⟨environment, heap, events, hrun, hsorting, htrail, -⟩ :=
    BubbleSort.exec_advances hdetects hcap hlength
  obtain ⟨sorted, hperm, horder, hsorted⟩ := BubbleSort.exists_sorted values
  rw [hsorted] at hsorting htrail
  have hreplays := htrail.replays
  rw [List.map_map, List.map_map] at hreplays
  have hevents : ((History.empty .keepAll).recordAll events).events.toList = events :=
    History.toList_events_recordAll rfl events
  refine ⟨(History.empty .keepAll).recordAll events, environment.snapshot heap, sorted,
    Program.runFrom_of_ok (hrun _), hperm, horder, ?_, ?_, ?_⟩
  · rw [Environment.lookup_snapshot, hsorting.arr, Option.map_some, Heap.snapshot_array,
      hsorting.holds.snapshotElements_eq, List.map_map]
    rfl
  · rw [hevents]
    exact htrail.loopEnds
  · rw [hevents]
    exact hreplays

/-- Three integers, sorted by two passes. -/
theorem Program.bubbleSort_sorts_three :
    ([5, -3, 4] : List Int32).length - 1 ≤ (2 : UInt32).toNat ∧
      ∃ (history : History) (bindings : List (String × Snapshot)),
        (bubbleSort [5, -3, 4]).run ⟨2, .keepAll, true⟩ = .finished history bindings ∧
        bindings.lookup "arr" = some (.array [.ofInt (-3), .ofInt 4, .ofInt 5]) ∧
        history.events.toList.filterMap Event.loopEnd? = [.condition, .condition, .condition] ∧
        ReplaysInPairs "arr" [.ofInt 5, .ofInt (-3), .ofInt 4]
          (history.events.toList.filter Event.isSwap) [.ofInt (-3), .ofInt 4, .ofInt 5] := by
  have hcap : ([5, -3, 4] : List Int32).length - 1 ≤ (2 : UInt32).toNat := by decide
  obtain ⟨history, bindings, sorted, hrun, hperm, horder, harr, hends, hreplays⟩ :=
    bubbleSort_sorts 2 [5, -3, 4] hcap
  -- a list has one permutation that is in order
  have hsorted : sorted = [-3, 4, 5] := by
    have hperm' : sorted.Perm [-3, 4, 5] := hperm.trans (by decide)
    exact hperm'.eq_of_pairwise (fun _ _ _ _ h h' ↦ Int32.le_antisymm h h') horder (by decide)
  subst hsorted
  exact ⟨hcap, history, bindings, hrun, harr, hends, hreplays⟩

end ScriptTrace
