import ScriptTrace.Proofs.Accounted
import ScriptTrace.Proofs.SlotsFound

/-!
# States that lead to no unknown array

In a `State.Closed` all arrays are there that a variable or an element is. A run starts in such a
state, and every step leads from one to the next: a new array gets the identity that is given next,
and the values that are bound or written have been found in the state before.
-/

namespace ScriptTrace

/-- Whether all arrays that a state leads to are there. -/
structure State.Closed (s : State) : Prop where
  get? {name : String} {v : Value} (hv : s.environment.get? name = some v) : s.heap.Knows v
  elements {id : ArrayId} {v : Value} (hv : v ∈ s.heap.elements id) : s.heap.Knows v

theorem Heap.Knows.of_nextId_le {h h' : Heap} {v : Value} (hv : h.Knows v)
    (hle : h.nextId ≤ h'.nextId) : h'.Knows v :=
  fun id hid ↦ Nat.lt_of_lt_of_le (hv id hid) hle

theorem Heap.nextId_le_allocate (h : Heap) (elements : Array Value) :
    h.nextId ≤ (h.allocate elements).nextId := by
  rw [nextId_allocate]
  exact Nat.le_succ _

namespace State.Closed

variable {s : State}

theorem start (config : Config) : (State.start config .empty .empty).Closed :=
  ⟨fun hv ↦ (Option.some_ne_none _ hv.symm).elim,
    fun hv ↦ absurd (Heap.lt_nextId_of_mem_elements hv) (Nat.not_lt_zero _)⟩

theorem read (hs : s.Closed) (id : ArrayId) (slot : Nat) : s.heap.Knows (s.heap.read id slot) := by
  rw [Heap.read, Heap.read?]
  rcases h : (s.heap.elements id)[slot]? with _ | v
  · exact s.heap.knows_plain fun _ ↦ Value.noConfusion
  · exact hs.elements (Array.mem_of_getElem? h)

theorem define (hs : s.Closed) (name : String) {v : Value} (hv : s.heap.Knows v)
    (history : History) :
    State.Closed { s with environment := s.environment.define name v, history := history } := by
  refine ⟨fun {other w} hw ↦ ?_, hs.elements⟩
  rw [Environment.get?_define] at hw
  split at hw
  · obtain rfl := Option.some.inj hw
    exact hv
  · exact hs.get? hw

/-- Changed arrays are closed if their elements are known. -/
theorem withHeap (hs : s.Closed) {h : Heap} (hle : s.heap.nextId ≤ h.nextId)
    (helements : ∀ id, ∀ v ∈ h.elements id, h.Knows v) : State.Closed { s with heap := h } :=
  ⟨fun hv ↦ (hs.get? hv).of_nextId_le hle, fun hv ↦ helements _ _ hv⟩

theorem allocate (hs : s.Closed) {elements : Array Value}
    (helements : ∀ v ∈ elements, s.heap.Knows v) :
    State.Closed { s with heap := s.heap.allocate elements } := by
  have hle := s.heap.nextId_le_allocate elements
  refine hs.withHeap hle fun id v hv ↦ Heap.Knows.of_nextId_le ?_ hle
  rw [Heap.elements_allocate] at hv
  split at hv
  · exact helements v hv
  · exact hs.elements hv

theorem write (hs : s.Closed) (id : ArrayId) (slot : Nat) {v : Value} (hv : s.heap.Knows v) :
    State.Closed { s with heap := s.heap.write id slot v } := by
  have hle : s.heap.nextId ≤ (s.heap.write id slot v).nextId := (Heap.nextId_write ..).ge
  refine hs.withHeap hle fun id w hw ↦ Heap.Knows.of_nextId_le ?_ hle
  rcases Heap.mem_elements_write hw with hw | rfl
  · exact hs.elements hw
  · exact hv

theorem exchange (hs : s.Closed) (x : Exchange) :
    State.Closed { s with heap := x.exchanged s.heap } :=
  (hs.write x.array x.first (hs.read x.array x.second)).write x.array x.second
    ((hs.read x.array x.first).of_nextId_le (Heap.nextId_write ..).ge)

end State.Closed

/-! ## Runs -/

/-- A new array is there. -/
theorem Heap.knows_nextId (h : Heap) (elements : Array Value) :
    (h.allocate elements).Knows (.array h.nextId) := by
  intro id hid
  cases hid
  rw [nextId_allocate]
  exact Nat.lt_succ_self _

theorem Exchange.nextId_exchanged (x : Exchange) (h : Heap) :
    (x.exchanged h).nextId = h.nextId := by
  rw [exchanged, Heap.nextId_write, Heap.nextId_write]

/-- No unknown array is led to, and arrays are never lost. -/
def Upkeep.closed : Upkeep where
  Valid := State.Closed
  Fits := Heap.Knows
  Leads h h' := h.nextId ≤ h'.nextId
  leads_refl _ := Nat.le_refl _
  leads_trans := Nat.le_trans
  fits_of_leads := Heap.Knows.of_nextId_le
  fits_plain := Heap.knows_plain
  fits_get hs := hs.get?
  fits_read := State.Closed.read
  leads_allocate := Heap.nextId_le_allocate
  fits_allocate := Heap.knows_nextId
  allocate hs := hs.allocate
  leads_exchange {x h} _ := Nat.le_of_eq (x.nextId_exchanged h).symm
  exchange hs _ := hs.exchange _
  record hs _ _ _ := ⟨hs.get?, hs.elements⟩
  bindRecorded hs hv _ _ _ := hs.define _ hv _

theorem Upkeep.closed_admits (effect : Effect) : closed.Admits effect := by
  cases effect with
  | bind => exact fun s name v hs hv ↦ State.Closed.define hs name hv s.history
  | write =>
    exact fun s id slot v hs hv _ ↦ ⟨(Heap.nextId_write ..).ge, State.Closed.write hs id slot hv⟩

theorem Manner.keptBy_closed : any.KeptBy .closed :=
  ⟨fun _ effect _ ↦ Upkeep.closed_admits effect, fun _ effect _ ↦ Upkeep.closed_admits effect,
    fun _ _ ↦ Upkeep.closed_admits _⟩

/-- However the evaluation of an expression ends, it leads from a closed state to one. -/
theorem Expr.closed_endState (e : Expr) {s : State} (hs : s.Closed) : (e.eval.endState s).Closed :=
  ((e.upheld_and_placeUpheld fun effect _ ↦ Upkeep.closed_admits effect).1 s hs).valid

/-- However what a statement does ends, it leads from a closed state to one. -/
theorem Stmt.closed_endState (config : Config) (x : Stmt) {s : State} (hs : s.Closed) :
    ((x.effect config none).endState s).Closed :=
  (effect_upholds Manner.keptBy_closed nofun (Manner.allows_any none x) .none hs).valid

end ScriptTrace
