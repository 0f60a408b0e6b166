import ScriptTrace.Proofs.ArrayContents

/-!
# The history accounts for the variables

A name is bound by a declaration, by an assignment or by a step. A declaration is always recorded,
with a copy of the value. An assignment or a step is recorded if it is a whole statement or the
whole update of a loop; inside of another expression it binds its name without a trace. So in a
program that has none inside of others, what the history says last of a name is what the name is
bound to.

The copy of an array is no longer its contents once a slot has been written to. Only its length is
what it was.
-/

namespace ScriptTrace

/-! ## What events say of a name -/

/-- The copy of what a name is bound to, if an event says that this name is bound. -/
def Event.copyFor? (name : String) (e : Event) : Option Snapshot :=
  match e.details.binding? with
  | some (other, copy) => if name = other then some copy else none
  | none => none

theorem Event.copyFor?_of_binds {e : Event} {other : String} {copy : Snapshot}
    (h : e.details.binding? = some (other, copy)) (name : String) :
    e.copyFor? name = if name = other then some copy else none := by
  rw [copyFor?, h]

theorem Event.copyFor?_of_binds_nothing {e : Event} (h : e.details.binding? = none)
    (name : String) : e.copyFor? name = none := by
  rw [copyFor?, h]

namespace History

/-- The copy of what a name is bound to that a history has recorded last. -/
def lastCopy? (h : History) (name : String) : Option Snapshot :=
  (h.events.toList.filterMap (Event.copyFor? name)).getLast?

/-- A history that keeps everything says last of a name what the last event says of it. -/
theorem lastCopy?_record {h : History} (hpolicy : h.policy = .keepAll) (e : Event)
    (name : String) : (h.record e).lastCopy? name = (e.copyFor? name).or (h.lastCopy? name) := by
  have hkeeps : h.keeps e = true := by rw [keeps, hpolicy]
  rw [lastCopy?, toList_events_record, if_pos hkeeps, List.filterMap_append, List.getLast?_append]
  rcases hcopy : e.copyFor? name with _ | copy
  · rw [List.filterMap_cons_none hcopy]
    rfl
  · rw [List.filterMap_cons_some hcopy]
    rfl

end History

/-- Whether a recorded copy accounts for a value, of which the second is a copy too: they are the
same, or arrays of the same length. -/
def Snapshot.AccountsFor (recorded : Snapshot) : Snapshot → Prop
  | array elements => ∃ before, recorded = array before ∧ before.length = elements.length
  | copy => recorded = copy

theorem Snapshot.accountsFor_refl (copy : Snapshot) : copy.AccountsFor copy := by
  rcases copy with n | b | elements | _ | _
  · rfl
  · rfl
  · exact ⟨elements, rfl, rfl⟩
  · rfl
  · rfl

namespace Heap

/-- Whether a value is one of the arrays, if it is an array at all. -/
def Knows (h : Heap) (v : Value) : Prop := ∀ id, v = .array id → id < h.nextId

theorem knows_plain (h : Heap) {v : Value} (hv : ∀ id, v ≠ .array id) : h.Knows v :=
  fun id hid ↦ absurd hid (hv id)

theorem Knows.of_leads {h h' : Heap} {v : Value} (hv : h.Knows v)
    (hleads : Upkeep.sameLength.Leads h h') : h'.Knows v :=
  fun id hid ↦ Nat.lt_of_lt_of_le (hv id hid) hleads.nextId_le

/-- What accounted for a value earlier still does. -/
theorem accountsFor_snapshot_of_leads {h h' : Heap} {v : Value} {recorded : Snapshot}
    (hv : h.Knows v) (hleads : Upkeep.sameLength.Leads h h')
    (hrecorded : recorded.AccountsFor (h.snapshot v)) :
    recorded.AccountsFor (h'.snapshot v) := by
  by_cases harray : ∃ id, v = .array id
  · obtain ⟨id, rfl⟩ := harray
    rw [snapshot_array] at hrecorded ⊢
    obtain ⟨before, rfl, hlength⟩ := hrecorded
    refine ⟨before, rfl, ?_⟩
    rw [hlength, length_snapshotElements, length_snapshotElements]
    exact (hleads.elements (hv id rfl)).symm
  · rwa [h.snapshot_plain h' (not_exists.mp harray)]

theorem mem_elements_write {h : Heap} {id id' : ArrayId} {slot : Nat} {v w : Value}
    (hw : w ∈ (h.write id slot v).elements id') : w ∈ h.elements id' ∨ w = v := by
  rw [elements_write] at hw
  split at hw
  · exact Array.mem_or_eq_of_mem_setIfInBounds hw
  · exact .inl hw

end Heap

/-! ## States that are accounted for -/

/-- Whether the history accounts for all variables, where no array is unknown. -/
structure State.Accounted (s : State) : Prop where
  keepsAll : s.history.policy = .keepAll
  knows {name : String} {v : Value} (hv : s.environment.get? name = some v) : s.heap.Knows v
  knowsElements {id : ArrayId} {v : Value} (hv : v ∈ s.heap.elements id) : s.heap.Knows v
  recorded {name : String} {v : Value} (hv : s.environment.get? name = some v) :
    ∃ copy, s.history.lastCopy? name = some copy ∧ copy.AccountsFor (s.heap.snapshot v)

namespace State.Accounted

variable {s : State}

theorem start {config : Config} (hpolicy : config.policy = .keepAll) :
    (State.start config .empty .empty).Accounted :=
  ⟨hpolicy, nofun, fun hv ↦ absurd (Heap.lt_nextId_of_mem_elements hv) (Nat.not_lt_zero _), nofun⟩

theorem read (hs : s.Accounted) (id : ArrayId) (slot : Nat) :
    s.heap.Knows (s.heap.read id slot) := by
  rw [Heap.read, Heap.read?]
  rcases h : (s.heap.elements id)[slot]? with _ | v
  · exact s.heap.knows_plain fun _ ↦ Value.noConfusion
  · exact hs.knowsElements (Array.mem_of_getElem? h)

/-- Changed arrays change nothing that counts, as long as they keep their lengths. -/
theorem withHeap (hs : s.Accounted) {h : Heap} (hleads : Upkeep.sameLength.Leads s.heap h)
    (helements : ∀ id, ∀ v ∈ h.elements id, h.Knows v) :
    State.Accounted { s with heap := h } where
  keepsAll := hs.keepsAll
  knows hv := (hs.knows hv).of_leads hleads
  knowsElements hv := helements _ _ hv
  recorded hv := by
    obtain ⟨copy, hcopy, haccounts⟩ := hs.recorded hv
    exact ⟨copy, hcopy, Heap.accountsFor_snapshot_of_leads (hs.knows hv) hleads haccounts⟩

theorem allocate (hs : s.Accounted) {elements : Array Value}
    (helements : ∀ v ∈ elements, s.heap.Knows v) :
    State.Accounted { s with heap := s.heap.allocate elements } := by
  have hleads := Upkeep.sameLength.leads_allocate s.heap elements
  refine hs.withHeap hleads fun id v hv ↦ Heap.Knows.of_leads ?_ hleads
  rw [Heap.elements_allocate] at hv
  split at hv
  · exact helements v hv
  · exact hs.knowsElements hv

theorem write (hs : s.Accounted) (id : ArrayId) (slot : Nat) {v : Value} (hv : s.heap.Knows v) :
    State.Accounted { s with heap := s.heap.write id slot v } := by
  have hleads : Upkeep.sameLength.Leads s.heap (s.heap.write id slot v) :=
    Heap.Within.mk (Nat.le_of_eq (Heap.nextId_write ..).symm) fun _ ↦ Heap.length_write ..
  refine hs.withHeap hleads fun id w hw ↦ Heap.Knows.of_leads ?_ hleads
  rcases Heap.mem_elements_write hw with hw | rfl
  · exact hs.knowsElements hw
  · exact hv

theorem exchange (hs : s.Accounted) (x : Exchange) :
    State.Accounted { s with heap := x.exchanged s.heap } := by
  have hfirst := hs.write x.array x.first (hs.read x.array x.second)
  refine hfirst.write x.array x.second fun id hid ↦ ?_
  rw [Heap.nextId_write]
  exact hs.read x.array x.first id hid

theorem record (hs : s.Accounted) (line : Option UInt32) {details : Details}
    (hdetails : details.binding? = none) :
    State.Accounted { s with history := s.history.record ⟨line, details⟩ } where
  keepsAll := (History.policy_record ..).trans hs.keepsAll
  knows := hs.knows
  knowsElements := hs.knowsElements
  recorded {name v} hv := by
    rw [History.lastCopy?_record hs.keepsAll, Event.copyFor?_of_binds_nothing hdetails,
      Option.none_or]
    exact hs.recorded hv

theorem bindRecorded (hs : s.Accounted) {name : String} {v : Value} (hv : s.heap.Knows v)
    (line : Option UInt32) {details : Details}
    (hdetails : details.binding? = some (name, s.heap.snapshot v)) :
    State.Accounted { s with
      environment := s.environment.define name v
      history := s.history.record ⟨line, details⟩ } where
  keepsAll := (History.policy_record ..).trans hs.keepsAll
  knows {other w} hw := by
    rw [Environment.get?_define] at hw
    split at hw
    · obtain rfl := Option.some.inj hw
      exact hv
    · exact hs.knows hw
  knowsElements := hs.knowsElements
  recorded {other w} hw := by
    rw [Environment.get?_define] at hw
    rw [History.lastCopy?_record hs.keepsAll, Event.copyFor?_of_binds hdetails]
    by_cases hother : other = name
    · rw [if_pos hother] at hw
      obtain rfl := Option.some.inj hw
      rw [if_pos hother]
      exact ⟨_, Option.some_or, Snapshot.accountsFor_refl _⟩
    · rw [if_neg hother] at hw
      rw [if_neg hother, Option.none_or]
      exact hs.recorded hw

end State.Accounted

/-! ## Programs that record what they bind -/

/-- Programs that assign or step a name only by a whole statement, or by the whole update of a loop.
They may write to slots where they like. -/
def Manner.bindsInStatements : Manner where
  value e := !e.does .bind
  statement e := !e.doesInside .bind
  sparesIdioms := false

/-- The history accounts for the variables, and arrays keep their lengths. A name must not be bound
without a record. -/
def Upkeep.accounted : Upkeep where
  Valid := State.Accounted
  Fits := Heap.Knows
  Leads := sameLength.Leads
  leads_refl := sameLength.leads_refl
  leads_trans := sameLength.leads_trans
  fits_of_leads := Heap.Knows.of_leads
  fits_plain := Heap.knows_plain
  fits_get hs := hs.knows
  fits_read := State.Accounted.read
  leads_allocate := sameLength.leads_allocate
  fits_allocate h elements id hid := by
    cases hid
    rw [Heap.nextId_allocate]
    exact Nat.lt_succ_self _
  allocate hs := hs.allocate
  leads_exchange := sameLength.leads_exchange
  exchange hs _ := hs.exchange _
  record := State.Accounted.record
  bindRecorded hs := hs.bindRecorded

theorem Upkeep.accounted_admits_write : accounted.Admits .write := by
  intro s id slot v hs hv hslot
  have hleads := (sameLength_admits .write s id slot v trivial trivial hslot).1
  have hwritten := State.Accounted.write hs id slot hv
  exact ⟨hleads, hwritten⟩

theorem Manner.keptBy_bindsInStatements : bindsInStatements.KeptBy .accounted := by
  have hadmits : ∀ (does : Effect → Bool) {effect : Effect}, (!does .bind) = true →
      does effect = true → Upkeep.accounted.Admits effect := by
    intro does effect hbind hdoes
    rcases effect with _ | _
    · rw [hdoes] at hbind
      cases hbind
    · exact Upkeep.accounted_admits_write
  exact ⟨fun {e} he _ ↦ hadmits (e.does ·) he, fun {e} he _ ↦ hadmits (e.doesInside ·) he,
    fun _ _ ↦ Upkeep.accounted_admits_write⟩

namespace Program

/-- **The history accounts for the variables.** Let a program have assignments and steps of names
only as whole statements or whole updates of loops, and let its run from no variables end under a
policy that keeps all events. Then the history says of every variable that it is bound, and says
last what its value is, or, if it is an array, what its length is. -/
theorem accounts_for_bindings {config : Config} (hpolicy : config.policy = .keepAll) {p : Program}
    (hp : p.inManner .bindsInStatements = true) {history : History}
    {bindings : List (String × Snapshot)} (hrun : p.run config = .finished history bindings)
    {name : String} {copy : Snapshot} (hcopy : (name, copy) ∈ bindings) :
    ∃ recorded, history.lastCopy? name = some recorded ∧ recorded.AccountsFor copy := by
  have hstart : (State.start config .empty .empty).Accounted := .start hpolicy
  have hend : ((p.exec config).endState (.start config .empty .empty)).Accounted :=
    (exec_upholds Manner.keptBy_bindsInStatements nofun hp hstart).valid
  rcases h : p.exec config (.start config .empty .empty) with ⟨⟨⟩, s⟩ | ⟨failure, s⟩
  · have hs : s.Accounted := by rwa [Eval.endState_of_ok h] at hend
    rw [run, runFrom_of_ok h] at hrun
    cases hrun
    obtain ⟨v, hv, rfl⟩ := Environment.exists_get?_of_mem_snapshot hcopy
    exact hs.recorded hv
  · rw [run, runFrom_of_error h] at hrun
    cases hrun

/-- Two elements, each replaced by the sum up to it. -/
def sumUp : Program :=
  let i := Expr.ofName "i"
  let element := Expr.ofIndex (.ofName "a") i
  .ofBody [.letVar 1 "a" (.ofElements [.ofNumber 2, .ofNumber 1]), .letVar 2 "n" (.ofNumber 0),
    .ofFor 3 6 (some (.declaration (.ofBindings 3 [("i", some (.ofNumber 0))])))
      (some (.ofBinary .less i (.ofNumber 2))) (some (.stepAfter .increment i)) (.ofBlock
        [.ofExpr 4 (.ofAssign .add (.ofName "n") element),
          .ofExpr 5 (.ofAssign .assign element (.ofName "n"))])]

/-- Its history accounts for the array, although it was written to later, for the index of the loop
and for the sum. -/
theorem accounts_for_bindings_sumUp : sumUp.inManner .bindsInStatements = true ∧
    ∃ history bindings, sumUp.run .standard = .finished history bindings ∧
      bindings.map (·.1) = ["a", "i", "n"] ∧ ∀ name copy, (name, copy) ∈ bindings →
        ∃ recorded, history.lastCopy? name = some recorded ∧ recorded.AccountsFor copy := by
  have hp : sumUp.inManner .bindsInStatements = true := by decide +kernel
  have hnames : (sumUp.run .standard).result.toOption.map (·.map (·.1)) =
      some ["a", "i", "n"] := by decide +kernel
  rcases hrun : sumUp.run .standard with ⟨history, bindings⟩ | ⟨failure, history⟩
  · rw [hrun] at hnames
    exact ⟨hp, history, bindings, rfl, Option.some.inj hnames, fun _ _ hcopy ↦
      accounts_for_bindings rfl hp hrun hcopy⟩
  · rw [hrun] at hnames
    cases hnames

end Program

end ScriptTrace
