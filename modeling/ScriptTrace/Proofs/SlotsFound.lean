import ScriptTrace.Proofs.ArrayContents
import ScriptTrace.Proofs.ExactLengths

/-!
# Slots are there when they are used

An index is checked against an array before the slot is used, and the slot may be used some time
later: an assignment has to evaluate, an exchange has two halves. Reading a slot that is not there
gives undefined and writing to it does nothing, and neither is noticed. It does not happen: arrays
keep their lengths, and nothing is evaluated between the check and the use.

To say so, evaluation is compared with evaluation that does anything else where a slot is missing
(`Fallbacks`). The two are the same, in every state.
-/

namespace ScriptTrace

/-! ## What could be done without a slot -/

/-- What is done instead of reading or writing a slot that is missing. -/
structure Fallbacks where
  read : Eval Value
  write : Eval Unit

namespace Fallbacks

variable (f : Fallbacks)

/-- The element in a slot, if it is there. -/
def readSlot (id : ArrayId) (slot : Nat) : Eval Value := do
  match (← Eval.heap).read? id slot with
  | some v => return v
  | none => f.read

/-- Put a value into a slot, if it is there. -/
def writeSlot (id : ArrayId) (slot : Nat) (v : Value) : Eval Unit := do
  if slot < (← Eval.heap).length id then Eval.write id slot v else f.write

/-- The value at a place, as `Place.read`. -/
def readPlace : Place → Eval Value
  | .named name => Place.read (.named name)
  | .slot _ id i => f.readSlot id i

/-- Write a value to a place, as `Place.write`. -/
def writePlace (p : Place) (v : Value) : Eval Written := do
  match p with
  | .named name => Eval.define name v
  | .slot _ id i => f.writeSlot id i v
  return ⟨p, v⟩

/-- An assignment, as `Eval.assign`. -/
def assign (op : AssignOp) (value : Eval Value) (place : Eval Place) : Eval Written := do
  if op.isSupported then
    let v ← value
    let p ← place
    match op.binary? with
    | none => f.writePlace p v
    | some binary =>
      let old ← f.readPlace p
      let h ← Eval.heap
      f.writePlace p (← Eval.ofExcept (h.binary binary old v))
  else
    Eval.fail (.unsupportedOperator op.symbol)

/-- A step, as `Eval.step`. -/
def step (op : UpdateOp) (isBefore : Bool) (place : Eval Place) : Eval (Value × Written) := do
  let p ← place
  let old ← f.readPlace p
  let h ← Eval.heap
  let new := h.step op old
  let written ← f.writePlace p new
  return (if isBefore then new else .number (h.toNumber old), written)

/-- An exchange, as `Exchange.perform`. -/
def perform (x : Exchange) (line1 line2 : Option UInt32) : Eval Unit := do
  let old ← f.readSlot x.array x.first
  let new ← f.readSlot x.array x.second
  f.writeSlot x.array x.first new
  x.recordHalf line1
  f.writeSlot x.array x.second old
  if line2.isSome then x.recordHalf line2

/-- A call of `swap`, as `Eval.swap`. -/
def swap (array : Option Expr) (arguments : Eval (List Value)) (line : Option UInt32) :
    Eval Value := do
  let name ← Eval.ofExcept (Eval.swapArray array)
  let values ← arguments
  let x ← Exchange.resolve name (values.getD 0 .undefined) (values.getD 1 .undefined)
  let h ← Eval.heap
  let line1 := (values[2]?.bind h.lineNumber?) <|> line
  let line2 := values[3]?.bind h.lineNumber?
  f.perform x line1 line2
  return .undefined

/-- The exchange of a plan, as `Eval.plannedSwap`. -/
def plannedSwap (plan : SwapPlan) : Eval Unit := do
  let index1 ← plan.first.eval
  let index2 ← plan.second.eval
  let x ← Exchange.resolve plan.array index1 index2
  f.perform x plan.firstLine plan.secondLine

/-- Whether nothing is ever done instead: everything that uses a slot is the same as if that was
done where the slot is missing. -/
structure Unused : Prop where
  index (object i : Expr) (loc : Option Location) : (Expr.index object i loc).eval =
    .atNode "MemberExpression" (loc.map (·.start.line)) (do
      f.readPlace (← Eval.element object object.eval i.eval))
  assign (op : AssignOp) (value : Eval Value) (target : Expr) :
    Eval.assign op value target.place = f.assign op value target.place
  step (op : UpdateOp) (isBefore : Bool) (target : Expr) :
    Eval.step op isBefore target.place = f.step op isBefore target.place
  swap (array : Option Expr) (arguments : Eval (List Value)) (line : Option UInt32) :
    Eval.swap array arguments line = f.swap array arguments line
  plannedSwap (plan : SwapPlan) : Eval.plannedSwap plan = f.plannedSwap plan

end Fallbacks

/-! ## Slots that have been checked -/

namespace Eval

variable {α β : Type} {m : Eval α} {s t : State}

/-- What follows a computation only counts for the results and states that it can have. -/
theorem bind_congr_of_ok {m' : Eval α} {k k' : α → Eval β} (hm : m s = m' s)
    (h : ∀ a t, m s = .ok a t → k a t = k' a t) : (m >>= k) s = (m' >>= k') s := by
  rcases hrun : m s with ⟨a, t⟩ | ⟨failure, t⟩
  · rw [bind_of_ok hrun, bind_of_ok (hm.symm.trans hrun), h a t hrun]
  · rw [bind_of_error hrun, bind_of_error (hm.symm.trans hrun)]

/-- The slot of an element is there when it has been found. -/
theorem element_found {object : Expr} {value index : Eval Value} {p : Place}
    (h : element object value index s = .ok p t) : p.Found t.heap := by
  obtain ⟨id, u, -, h⟩ := exists_of_bind_ok h
  obtain ⟨i, u, -, h⟩ := exists_of_bind_ok h
  obtain ⟨heap, u', hheap, h⟩ := exists_of_bind_ok h
  cases hheap
  obtain ⟨slot, hslot, h⟩ := exists_of_ofExcept_bind_ok h
  cases h
  exact Heap.lt_of_resolveIndex hslot

end Eval

theorem Expr.place_found {target : Expr} {p : Place} {s t : State}
    (h : target.place s = .ok p t) : p.Found t.heap := by
  cases target with
  | identifier name loc =>
    cases h
    trivial
  | index object i loc => exact Eval.element_found h
  | literal | binary | logical | unary | update | assign | array | property | call | conditional
  | unsupported => cases h

theorem Exchange.resolve_found {name : String} {index1 index2 : Value} {x : Exchange} {s t : State}
    (h : resolve name index1 index2 s = .ok x t) : x.Found t.heap := by
  obtain ⟨v, u, -, h⟩ := Eval.exists_of_bind_ok h
  rcases v with _ | _ | _ | id | _
  · cases h
  · cases h
  · cases h
  · obtain ⟨heap, u', hheap, h⟩ := Eval.exists_of_bind_ok h
    cases hheap
    obtain ⟨first, hfirst, h⟩ := Eval.exists_of_ofExcept_bind_ok h
    obtain ⟨second, hsecond, h⟩ := Eval.exists_of_ofExcept_bind_ok h
    cases h
    exact ⟨Heap.lt_of_resolveIndex hfirst, Heap.lt_of_resolveIndex hsecond⟩
  · cases h

/-! ## Nothing is done instead -/

namespace Fallbacks

variable (f : Fallbacks) {s : State}

theorem readSlot_of_lt {id : ArrayId} {slot : Nat} (hslot : slot < s.heap.length id) :
    f.readSlot id slot s = .ok (s.heap.read id slot) s := by
  have hread : s.heap.read? id slot = some (s.heap.read id slot) := by
    rw [Heap.read, Heap.read?, Array.getElem?_eq_getElem hslot, Option.getD_some]
  change (match s.heap.read? id slot with
    | some v => pure v
    | none => f.read) s = _
  rw [hread]
  rfl

theorem writeSlot_of_lt {id : ArrayId} {slot : Nat} (hslot : slot < s.heap.length id)
    (v : Value) : f.writeSlot id slot v s = Eval.write id slot v s := by
  change (if slot < s.heap.length id then Eval.write id slot v else f.write) s = _
  rw [if_pos hslot]

theorem readPlace_of_found {p : Place} (hp : p.Found s.heap) : f.readPlace p s = p.read s := by
  rcases p with name | ⟨label, id, i⟩
  · rfl
  · exact f.readSlot_of_lt hp

theorem writePlace_of_found {p : Place} (hp : p.Found s.heap) (v : Value) :
    f.writePlace p v s = p.write v s := by
  rcases p with name | ⟨label, id, i⟩
  · rfl
  · have hwrite : f.writeSlot id i v s = .ok () _ := f.writeSlot_of_lt hp v
    exact Eval.bind_of_ok hwrite

theorem perform_of_found {x : Exchange} (hx : x.Found s.heap) (line1 line2 : Option UInt32) :
    f.perform x line1 line2 s = x.perform line1 line2 s := by
  let s₁ : State := { s with
    heap := s.heap.write x.array x.first (s.heap.read x.array x.second) }
  let s₂ : State := { s₁ with
    history := s.history.record
      ⟨line1, .swap x.name x.first x.second (s₁.heap.snapshotElements x.array)⟩ }
  have hfirst : f.writeSlot x.array x.first (s.heap.read x.array x.second) s = .ok () s₁ :=
    f.writeSlot_of_lt hx.first _
  have hhalf : x.recordHalf line1 s₁ = .ok () s₂ := rfl
  have hslot : x.second < s₂.heap.length x.array := by
    rw [Heap.length_write]
    exact hx.second
  have hsecond : f.writeSlot x.array x.second (s.heap.read x.array x.first) s₂ = .ok () _ :=
    f.writeSlot_of_lt hslot _
  rw [perform, Eval.bind_of_ok (f.readSlot_of_lt hx.first),
    Eval.bind_of_ok (f.readSlot_of_lt hx.second), Eval.bind_of_ok hfirst, Eval.bind_of_ok hhalf,
    Eval.bind_of_ok hsecond]
  rfl

private theorem assign_eq (op : AssignOp) (value : Eval Value) (target : Expr) :
    Eval.assign op value target.place = f.assign op value target.place := by
  rw [Eval.assign, assign]
  by_cases hop : op.isSupported = true
  · rw [if_pos hop, if_pos hop]
    refine bind_congr fun v ↦ funext fun s ↦ Eval.bind_congr_of_ok rfl fun p t hp ↦ ?_
    have hfound := Expr.place_found hp
    rcases op.binary? with _ | binary
    · exact (f.writePlace_of_found hfound v).symm
    -- between the check and the write only the place is read
    refine Eval.bind_congr_of_ok (f.readPlace_of_found hfound).symm fun old u hold ↦ ?_
    obtain rfl : u = t := (Eval.endState_of_ok hold).symm.trans (p.endState_read t)
    refine Eval.bind_congr_of_ok rfl fun h u' hheap ↦ ?_
    cases hheap
    refine Eval.bind_congr_of_ok rfl fun new u' hnew ↦ ?_
    obtain rfl : u' = u := (Eval.endState_of_ok hnew).symm.trans (Eval.endState_ofExcept _ u)
    exact (f.writePlace_of_found hfound new).symm
  · rw [if_neg hop, if_neg hop]

private theorem step_eq (op : UpdateOp) (isBefore : Bool) (target : Expr) :
    Eval.step op isBefore target.place = f.step op isBefore target.place := by
  refine funext fun s ↦ Eval.bind_congr_of_ok rfl fun p t hp ↦ ?_
  have hfound := Expr.place_found hp
  refine Eval.bind_congr_of_ok (f.readPlace_of_found hfound).symm fun old u hold ↦ ?_
  obtain rfl : u = t := (Eval.endState_of_ok hold).symm.trans (p.endState_read t)
  refine Eval.bind_congr_of_ok rfl fun h u' hheap ↦ ?_
  cases hheap
  exact Eval.bind_congr_of_ok (f.writePlace_of_found hfound _).symm fun _ _ _ ↦ rfl

/-- No slot is ever missing where it is used. -/
theorem unused : f.Unused where
  index object i loc := by
    rw [Expr.eval]
    refine congrArg (Eval.atNode _ _) (funext fun s ↦ Eval.bind_congr_of_ok rfl fun p t hp ↦ ?_)
    exact (f.readPlace_of_found (Eval.element_found hp)).symm
  assign := f.assign_eq
  step := f.step_eq
  swap array arguments line := by
    refine bind_congr fun name ↦ bind_congr fun values ↦ funext fun s ↦ ?_
    refine Eval.bind_congr_of_ok rfl fun x t hx ↦ Eval.bind_congr_of_ok rfl fun h u hheap ↦ ?_
    cases hheap
    refine Eval.bind_congr_of_ok ?_ fun _ _ _ ↦ rfl
    exact (f.perform_of_found (Exchange.resolve_found hx) _ _).symm
  plannedSwap plan := by
    refine bind_congr fun index1 ↦ bind_congr fun index2 ↦ funext fun s ↦ ?_
    refine Eval.bind_congr_of_ok rfl fun x t hx ↦ ?_
    exact (f.perform_of_found (Exchange.resolve_found hx) _ _).symm

end Fallbacks

/-! ## Lengths -/

/-- Any program. -/
def Manner.any : Manner := ⟨fun _ ↦ true, fun _ ↦ true, false⟩

theorem Manner.keptBy_any : any.KeptBy .sameLength :=
  ⟨fun _ effect _ ↦ Upkeep.sameLength_admits effect,
    fun _ effect _ ↦ Upkeep.sameLength_admits effect, fun _ _ ↦ Upkeep.sameLength_admits _⟩

theorem Manner.allowsAll_of_forall {M : Manner} {plan : Option SwapPlan} {body : List Stmt}
    (h : ∀ x ∈ body, M.allows none x = true) (position : Nat) :
    M.allowsAll plan position body = true := by
  induction body generalizing position with
  | nil => rfl
  | cons x rest ih =>
    obtain ⟨hx, hrest⟩ := List.forall_mem_cons.mp h
    rw [allowsAll, hx, Bool.or_true, Bool.true_and]
    exact ih hrest (position + 1)

theorem Manner.allows_any (plan : Option SwapPlan) (x : Stmt) : any.allows plan x = true := by
  induction x generalizing plan with
  | declaration d => exact List.all_eq_true.mpr fun _ _ ↦ rfl
  | forLoop init test update body loc hbody =>
    have hinit : any.allowsInit init = true := by
      rcases init with _ | d | e
      · rfl
      · exact List.all_eq_true.mpr fun _ _ ↦ rfl
      · rfl
    rw [allows, hinit, hbody]
    rcases test with _ | test <;> rcases update with _ | update <;> rfl
  | ifThen test consequent alternate loc hconsequent halternate =>
    rw [allows_ifThen, hconsequent]
    rcases alternate with _ | x
    · rfl
    · exact halternate x rfl none
  | block body loc hbody => exact allowsAll_of_forall (fun x hx ↦ hbody x hx none) 0
  | expression | empty | unsupported => rfl

/-- Whether the arrays of an earlier heap are all in a later one, each with its length. -/
def Heap.KeepsLengths (h h' : Heap) : Prop :=
  ∀ id, id < h.nextId → id < h'.nextId ∧ h'.length id = h.length id

theorem Heap.keepsLengths_of_leads {h h' : Heap} (hleads : Upkeep.sameLength.Leads h h') :
    h.KeepsLengths h' :=
  fun _ hid ↦ ⟨Nat.lt_of_lt_of_le hid hleads.nextId_le, hleads.elements hid⟩

/-- **Slots are there when they are used.** In a run of any program no array changes its length:
from the start to every evaluation in it, through that evaluation, and from there to the end. And
everything that reads or writes a slot is the same as if anything else was done where the slot is
missing. That an index has to be below the length as a natural too asks for nothing more than that
it is below it as a number, up to a length that no array reaches. -/
theorem Program.slots_found (config : Config) (p : Program) (environment : Environment)
    (heap : Heap) :
    let s : State := .start config environment heap
    let t := (p.exec config).endState s
    heap.KeepsLengths t.heap ∧
    (∀ v ∈ p.evaluations config s, heap.KeepsLengths v.start.heap ∧
      v.start.heap.KeepsLengths v.stop.heap ∧ v.stop.heap.KeepsLengths t.heap) ∧
    (∀ f : Fallbacks, f.Unused) ∧
    ∀ (h : Heap) (index : Value) (length : Nat), length < 2 ^ 53 → h.slot? index length =
      (h.toNumber index).toNat?.filter fun _ ↦ h.toNumber index < .ofLength length := by
  intro s t
  have hp : p.inManner .any = true :=
    Manner.allowsAll_of_forall (fun x _ ↦ Manner.allows_any none x) 0
  have hrun : (p.exec config).Upholds .sameLength s (p.evaluations config s) fun _ _ ↦ True :=
    exec_upholds Manner.keptBy_any nofun hp trivial
  refine ⟨Heap.keepsLengths_of_leads hrun.leads, fun v hv ↦ ?_, Fallbacks.unused,
    fun h index _ hlength ↦ h.slot?_eq_filter index hlength⟩
  obtain ⟨hstart, hself, hstop⟩ := hrun.visited hv
  exact ⟨Heap.keepsLengths_of_leads hstart, Heap.keepsLengths_of_leads hself,
    Heap.keepsLengths_of_leads hstop⟩

end ScriptTrace
