import Mathlib
import ScriptTrace.Proofs.ExactIntegers
import ScriptTrace.Proofs.IdiomRun
import ScriptTrace.Proofs.Upkeep

/-!
# Arrays of integers

What a run does to an array that holds exact integers is what it would do to a list of integers
(`Heap.Holds`). Operators on integers give integers, an index addresses the slot that it denotes,
and reading, writing and exchanging elements is what it is for lists.

The second half puts the parts of a loop together from what they emit: its test, its rounds, and an
update that counts.
-/

namespace ScriptTrace

/-- The value of an integer. -/
def Value.ofInt (n : Int) : Value := .number (.ofInt n)

/-- The copy of an integer. -/
def Snapshot.ofInt (n : Int) : Snapshot := .number (.ofInt n)

namespace Heap

/-! ## Operators on integers -/

section Operators

variable (h : Heap) {a b : Int}

theorem toNumber_ofInt (a : Int) : h.toNumber (.ofInt a) = .ofInt a := by
  rw [toNumber, Value.ofInt, toNumberIn]

theorem binary_add (ha : a.natAbs < 2 ^ 53) (hb : b.natAbs < 2 ^ 53)
    (hsum : (a + b).natAbs < 2 ^ 53) :
    h.binary .add (.ofInt a) (.ofInt b) = .ok (.ofInt (a + b)) := by
  rw [binary, toNumber_ofInt, toNumber_ofInt, Number.ofInt_add ha hb hsum, Value.ofInt]

theorem binary_subtract (ha : a.natAbs < 2 ^ 53) (hb : b.natAbs < 2 ^ 53)
    (hdiff : (a - b).natAbs < 2 ^ 53) :
    h.binary .subtract (.ofInt a) (.ofInt b) = .ok (.ofInt (a - b)) := by
  rw [binary, toNumber_ofInt, toNumber_ofInt, Number.ofInt_sub ha hb hdiff, Value.ofInt]

theorem binary_less (ha : a.natAbs < 2 ^ 53) (hb : b.natAbs < 2 ^ 53) :
    h.binary .less (.ofInt a) (.ofInt b) = .ok (.boolean (a < b)) := by
  rw [binary, toNumber_ofInt, toNumber_ofInt, decide_eq_decide.mpr (Number.ofInt_lt_iff ha hb)]

theorem binary_greater (ha : a.natAbs < 2 ^ 53) (hb : b.natAbs < 2 ^ 53) :
    h.binary .greater (.ofInt a) (.ofInt b) = .ok (.boolean (b < a)) := by
  rw [binary, toNumber_ofInt, toNumber_ofInt, decide_eq_decide.mpr (Number.ofInt_lt_iff hb ha)]

theorem step_increment (ha : a.natAbs < 2 ^ 53) (hsum : (a + 1).natAbs < 2 ^ 53) :
    h.step .increment (.ofInt a) = .ofInt (a + 1) := by
  have hone : (1.0 : Number) = .ofInt 1 := rfl
  rw [step, toNumber_ofInt, hone, Number.ofInt_add ha (by decide) hsum, Value.ofInt]

theorem snapshot_ofInt (a : Int) : h.snapshot (.ofInt a) = .ofInt a := by
  rw [snapshot, Value.ofInt, snapshotIn, Snapshot.ofInt]

end Operators

/-! ## Elements -/

/-- Whether an array holds the integers of a list, which are exact, as is their number. -/
structure Holds (h : Heap) (id : ArrayId) (xs : List Int) : Prop where
  elements_eq : h.elements id = (xs.map Value.ofInt).toArray
  exact {n : Int} (hn : n ∈ xs) : n.natAbs < 2 ^ 53
  length_lt : xs.length < 2 ^ 53

namespace Holds

variable {h : Heap} {id : ArrayId} {xs : List Int}

theorem length_eq (hh : h.Holds id xs) : h.length id = xs.length := by
  rw [length, hh.elements_eq, List.size_toArray, List.length_map]

theorem read_eq (hh : h.Holds id xs) {j : Nat} (hj : j < xs.length) :
    h.read id j = .ofInt xs[j] := by
  rw [read, read?, hh.elements_eq, List.getElem?_toArray, List.getElem?_map,
    List.getElem?_eq_getElem hj]
  rfl

theorem write (hh : h.Holds id xs) (j : Nat) {n : Int} (hn : n.natAbs < 2 ^ 53) :
    (h.write id j (.ofInt n)).Holds id (xs.set j n) where
  elements_eq := by
    rw [elements_write, if_pos rfl, hh.elements_eq, List.setIfInBounds_toArray, List.map_set]
  exact hm := by
    rcases List.mem_or_eq_of_mem_set hm with hm | rfl
    · exact hh.exact hm
    · exact hn
  length_lt := by
    rw [List.length_set]
    exact hh.length_lt

theorem snapshotElements_eq (hh : h.Holds id xs) :
    h.snapshotElements id = xs.map Snapshot.ofInt := by
  rw [snapshotElements, hh.elements_eq, List.toList_toArray, List.map_map]
  refine List.map_congr_left fun n _ ↦ ?_
  rw [Function.comp_apply, Value.ofInt, snapshotIn, Snapshot.ofInt]

/-- An index below the length addresses the slot that it denotes. -/
theorem resolveIndex_eq (hh : h.Holds id xs) {j : Nat} (hj : j < xs.length) (name : String) :
    h.resolveIndex (.ofInt j) name (h.length id) = .ok j := by
  have hlength := hh.length_lt
  have hlt : Number.ofInt j < .ofLength xs.length := by
    rw [Number.ofLength_eq_ofInt hlength, Number.ofInt_lt_iff (by omega) (by omega)]
    exact Int.ofNat_lt.mpr hj
  have hslot : h.slot? (.ofInt j) xs.length = some j := by
    rw [slot?, toNumber_ofInt, Number.toNat?_ofInt (by omega)]
    exact if_pos ⟨hj, hlt⟩
  rw [resolveIndex, hh.length_eq, hslot]

end Holds

end Heap

open Eval

/-! ## Expressions on integers -/

namespace Expr

variable {environment : Environment} {heap : Heap}

theorem identifier_computes {name : String} {v : Value} (hname : environment.get? name = some v)
    (loc : Option Location) : (identifier name loc).eval.Computes environment heap (.ok v) := by
  have hvalue := identifierValue_computes environment heap name
  rw [nameValue, hname] at hvalue
  exact hvalue.atNode _ _

theorem literal_computes (n : Int) (loc : Option Location) :
    (literal (.number (.ofInt n)) none loc).eval.Computes environment heap (.ok (.ofInt n)) :=
  (Computes.pure _).atNode _ _

theorem binary_computes {op : BinaryOp} {left right : Expr} {a b v : Value}
    (hleft : left.eval.Computes environment heap (.ok a))
    (hright : right.eval.Computes environment heap (.ok b)) (hop : heap.binary op a b = .ok v)
    (loc : Option Location) :
    (binary op left right loc).eval.Computes environment heap (.ok v) := by
  refine Computes.atNode _ _ (hleft.bind_ok (hright.bind_ok (Computes.heap.bind_ok ?_)))
  rw [hop]
  exact Computes.pure v

theorem length_computes {id : ArrayId} {xs : List Int} (hh : heap.Holds id xs) {object : Expr}
    (hobject : object.eval.Computes environment heap (.ok (.array id)))
    (nameLoc loc : Option Location) :
    (property object (identifier "length" nameLoc) loc).eval.Computes environment heap
      (.ok (.ofInt xs.length)) := by
  have hvalue : propertyValue heap (.array id) (identifier "length" nameLoc) =
      .ok (.ofInt xs.length) := by
    rw [Value.ofInt, ← Number.ofLength_eq_ofInt hh.length_lt, ← hh.length_eq]
    rfl
  refine Computes.atNode _ _ (hobject.bind_ok (Computes.heap.bind_ok ?_))
  rw [hvalue]
  exact Computes.pure _

theorem shortSlot_of_holds {name : String} {id : ArrayId} {xs : List Int}
    (hname : environment.get? name = some (.array id)) (hh : heap.Holds id xs) {i : Expr} {j : Nat}
    (hi : i.shortValue environment heap = .ok (.ofInt j)) (hj : j < xs.length) :
    i.shortSlot environment heap name = .ok (id, j) := by
  rw [shortSlot, namedArray, hname, hi]
  change (heap.resolveIndex (.ofInt j) name (heap.length id) >>= _) = _
  rw [hh.resolveIndex_eq hj]
  rfl

theorem element_computes_of_holds {name : String} {id : ArrayId} {xs : List Int}
    (hname : environment.get? name = some (.array id)) (hh : heap.Holds id xs)
    {changed : List String} {i : Expr} (hstable : i.isStable changed = true) {j : Nat}
    (hi : i.shortValue environment heap = .ok (.ofInt j)) (hj : j < xs.length)
    (nameLoc loc : Option Location) :
    (index (identifier name nameLoc) i loc).eval.Computes environment heap
      (.ok (.ofInt xs[j])) := by
  have hvalue := index_computes hstable environment heap name nameLoc loc
  rw [shortSlot_of_holds hname hh hi hj] at hvalue
  change Computes _ environment heap (.ok (heap.read id j)) at hvalue
  rwa [hh.read_eq hj] at hvalue

end Expr

/-! ## Exchanges -/

/-- An exchange of integers records the list after each of its halves. -/
theorem SwapPlan.plannedSwap_emits_of_holds {plan : SwapPlan} {environment : Environment}
    {heap : Heap} {id : ArrayId} {xs : List Int}
    (hname : environment.get? plan.array = some (.array id)) (hh : heap.Holds id xs)
    {changed : List String} (hfirst : plan.first.isStable changed = true)
    (hsecond : plan.second.isStable changed = true) {j k : Nat}
    (hj : plan.first.shortValue environment heap = .ok (.ofInt j)) (hjx : j < xs.length)
    (hk : plan.second.shortValue environment heap = .ok (.ofInt k)) (hkx : k < xs.length)
    (hline : plan.secondLine.isSome) :
    ∃ heap', heap'.Holds id ((xs.set j xs[k]).set k xs[j]) ∧
      (plannedSwap plan).Emits environment heap (.ok () (environment, heap'))
        [⟨plan.firstLine, .swap plan.array j k ((xs.set j xs[k]).map .ofInt)⟩,
          ⟨plan.secondLine, .swap plan.array j k (((xs.set j xs[k]).set k xs[j]).map .ofInt)⟩] := by
  have hhalf := hh.write j (hh.exact (List.getElem_mem hkx))
  have hwhole := hhalf.write k (hh.exact (List.getElem_mem hjx))
  have hfirstEval := Expr.eval_computes hfirst environment heap
  have hsecondEval := Expr.eval_computes hsecond environment heap
  rw [hj] at hfirstEval
  rw [hk] at hsecondEval
  have hid : Expr.namedArray environment plan.array = .ok id := by
    rw [Expr.namedArray, hname]
  have hresolve := Exchange.resolve_computes hid heap (.ofInt j) (.ofInt k)
  rw [hh.resolveIndex_eq hjx, hh.resolveIndex_eq hkx] at hresolve
  have hperform := Exchange.perform_emits ⟨plan.array, id, j, k⟩ plan.firstLine plan.secondLine
    environment heap
  dsimp only at hperform
  rw [hh.read_eq hjx, hh.read_eq hkx, Exchange.events, hhalf.snapshotElements_eq,
    hwhole.snapshotElements_eq, if_pos hline] at hperform
  exact ⟨_, hwhole, Emits.bind hfirstEval (Emits.bind hsecondEval (Emits.bind hresolve hperform))⟩

/-! ## Loops -/

namespace Eval.Emits

variable {test : Eval Bool} {body : Eval Unit} {environment environment' : Environment}
  {heap heap' : Heap} {left ran : Nat}

/-- A loop stops when its test is false, however many rounds are left. -/
theorem iterate_stop (htest : test.Computes environment heap (.ok false)) :
    (iterate test body left ran).Emits environment heap
      (.ok (.condition, ran) (environment, heap)) [] := by
  cases left with
  | zero => exact Emits.bind htest fun _ ↦ rfl
  | succ left => exact Emits.bind htest fun _ ↦ rfl

theorem iterate_round {events later : List Event} {ending : Ending (LoopEnd × Nat)}
    (htest : test.Computes environment heap (.ok true))
    (hbody : body.Emits environment heap (.ok () (environment', heap')) events)
    (hrest : (iterate test body left (ran + 1)).Emits environment' heap' ending later) :
    (iterate test body (left + 1) ran).Emits environment heap ending (events ++ later) := by
  have htrue : test.Emits environment heap (.ok true (environment, heap)) [] := htest
  have hround : (do body; iterate test body left (ran + 1)).Emits environment heap ending
      (events ++ later) := Emits.bind hbody hrest
  rw [iterate, ← List.nil_append (events ++ later)]
  exact Emits.bind htrue hround

/-- An update that counts on. -/
theorem loopUpdate_increment {name : String} {n : Int}
    (hname : environment.get? name = some (.ofInt n)) (hn : n.natAbs < 2 ^ 53)
    (hnext : (n + 1).natAbs < 2 ^ 53) (line : Option UInt32) (nameLoc loc : Option Location) :
    (loopUpdate line (some (.update .increment (.identifier name nameLoc) false loc))).Emits
      environment heap (.ok () (environment.define name (.ofInt (n + 1)), heap))
      [⟨loc.map (·.start.line) <|> line, .loopUpdate name (.ofInt (n + 1))⟩] := by
  have hplace : (Expr.identifier name nameLoc).place.Emits environment heap
      (.ok (.named name) (environment, heap)) [] := fun _ ↦ rfl
  have hread : (Place.named name).read.Emits environment heap
      (.ok (.ofInt n) (environment, heap)) [] := by
    have hlookup := Computes.lookup? environment heap name
    rw [hname] at hlookup
    exact Emits.bind hlookup fun _ ↦ rfl
  have hstep : (step .increment false (Expr.identifier name nameLoc).place).Emits environment heap
      (.ok (.number (heap.toNumber (.ofInt n)), ⟨.named name, .ofInt (n + 1)⟩)
        (environment.define name (.ofInt (n + 1)), heap)) [] := by
    refine Emits.bind hplace (Emits.bind hread fun history ↦ ?_)
    show EStateM.Result.ok (_, Written.mk _ (heap.step .increment (.ofInt n)))
      (State.mk (environment.define name (heap.step .increment (.ofInt n))) heap history) = _
    rw [heap.step_increment hn hnext]
    rfl
  have hevalWrite : (Expr.update .increment (.identifier name nameLoc) false loc).evalWrite.Emits
      environment heap (.ok (some ⟨.named name, .ofInt (n + 1)⟩)
        (environment.define name (.ofInt (n + 1)), heap)) [] :=
    Emits.atNode _ _ (Emits.bind hstep fun _ ↦ rfl)
  refine Emits.bind hevalWrite fun history ↦ ?_
  show EStateM.Result.ok () (State.mk _ heap (history.record
    ⟨_, .loopUpdate name (heap.snapshot (.ofInt (n + 1)))⟩)) = _
  rw [heap.snapshot_ofInt]
  rfl

end Eval.Emits

end ScriptTrace
