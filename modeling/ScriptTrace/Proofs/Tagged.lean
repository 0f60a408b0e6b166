import ScriptTrace.Proofs.Oblivious

/-!
# Runs that tag the writes of the swap idiom

To say which events an exchange stands for, the events of a run without swap detection are told
apart by where they come from. A *tagged* run does what that run does and emits each event with a
tag: whether it comes from one of the two writes of an idiom, in the body of an `if` for which there
is a plan.

Tagged runs are only a way to speak about runs. That a tagged run emits the events of the run
itself, once the tags are erased, is proved along with what the tags are for.
-/

namespace ScriptTrace

/-- A computation on variables and arrays that emits events with tags. -/
def Tagged (α : Type) := Environment × Heap → Eval.Ending α × List (Event × Bool)

namespace Tagged

/-- A computation with one tag for all its events. -/
def of {α : Type} (tag : Bool) (m : Eval α) : Tagged α := fun s ↦
  match m ⟨s.1, s.2, .empty .keepAll⟩ with
  | .ok a s' => (.ok a (s'.environment, s'.heap), s'.history.events.toList.map (·, tag))
  | .error failure s' =>
    (.error failure (s'.environment, s'.heap), s'.history.events.toList.map (·, tag))

instance : Monad Tagged where
  pure a := fun s ↦ (.ok a s, [])
  bind m k := fun s ↦
    match m s with
    | (.ok a s', events) => ((k a s').1, events ++ (k a s').2)
    | (.error failure s', events) => (.error failure s', events)

/-- A tagged computation at a node. -/
def atNode {α : Type} (nodeType : String) (line : Option UInt32) (m : Tagged α) : Tagged α :=
  fun s ↦
    match m s with
    | (.ok a s', events) => (.ok a s', events)
    | (.error failure s', events) => (.error (failure.atNode nodeType line) s', events)

/-- A loop, as `Eval.iterate`. -/
def iterate (test : Tagged Bool) (body : Tagged Unit) : Nat → Nat → Tagged (LoopEnd × Nat)
  | 0, ran => do
    if ← test then return (.iterationCap, ran) else return (.condition, ran)
  | left + 1, ran => do
    if ← test then
      body
      iterate test body left (ran + 1)
    else
      return (.condition, ran)

variable {α β : Type} {m : Eval α} {environment : Environment} {heap : Heap} {events : List Event}

theorem of_emits {ending : Eval.Ending α} (tag : Bool)
    (hm : m.Emits environment heap ending events) :
    of tag m (environment, heap) = (ending, events.map (·, tag)) := by
  have hevents : ((History.empty .keepAll).recordAll events).events.toList = events := by
    rw [History.toList_events_recordAll rfl]
    rfl
  rw [of, hm]
  cases ending <;> simp only [Eval.Ending.withHistory, hevents]

private theorem bind_apply (t : Tagged α) (l : α → Tagged β) (s : Environment × Heap) :
    (t >>= l) s = match t s with
      | (.ok a s', events) => ((l a s').1, events ++ (l a s').2)
      | (.error failure s', events) => (.error failure s', events) := rfl

theorem bind_ok {t : Tagged α} {l : α → Tagged β} {s s' : Environment × Heap} {a : α}
    {tagged later : List (Event × Bool)} {ending : Eval.Ending β} (ht : t s = (.ok a s', tagged))
    (hl : l a s' = (ending, later)) : (t >>= l) s = (ending, tagged ++ later) := by
  rw [bind_apply, ht]
  dsimp only
  rw [hl]

theorem bind_error {t : Tagged α} (l : α → Tagged β) {s s' : Environment × Heap}
    {failure : Failure} {tagged : List (Event × Bool)} (ht : t s = (.error failure s', tagged)) :
    (t >>= l) s = (.error failure s', tagged) := by
  rw [bind_apply, ht]

end Tagged

/-- Whether the statement at a position is one of the two writes of a plan. -/
def SwapPlan.isWrite (plan : Option SwapPlan) (position : Nat) : Bool :=
  plan.any fun p ↦ position = p.position || position = p.position + 1

/-- The settings of a run that keeps all events. -/
def Config.full (iterationCap : Nat) (swapDetection : Bool) : Config :=
  ⟨iterationCap, .keepAll, swapDetection⟩

namespace Stmt

/-- A tagged computation as the body that a statement is. -/
def asTaggedBodyOf (s : Stmt) (m : Tagged Unit) : Tagged Unit :=
  if s.isBlock then m else .atNode s.nodeType s.line m

mutual

/-- The tagged run of a statement. With a plan, the writes of the plan are tagged. -/
def tagged (cap : Nat) (plan : Option SwapPlan) (s : Stmt) : Tagged Unit :=
  match s with
  | forLoop init test update body loc => do
    Tagged.of false (ForInit.exec init)
    let (reason, iterations) ←
      Tagged.iterate (.of false (Expr.holds test))
        (do
          body.asTaggedBodyOf (tagged cap none body)
          .of false (Eval.loopUpdate (loc.map (·.start.line)) update))
        cap 0
    .of false (Eval.record (loc.map (·.stop.line)) (.loopEnd reason iterations))
  | ifThen test consequent alternate loc => do
    let result := (← Tagged.of false test.eval).isTruthy
    .of false (Eval.record (test.line <|> loc.map (·.start.line)) (.ifTest result))
    if result then
      consequent.asTaggedBodyOf (tagged cap (SwapPlan.ofIf? test consequent) consequent)
    else
      match alternate with
      | none => return ()
      | some s => s.asTaggedBodyOf (tagged cap none s)
  | block body _ => taggedAll cap plan 0 body
  | s => .of false (s.effect (.full cap false) none)

/-- The tagged run of statements, the first of which is at `position`. -/
def taggedAll (cap : Nat) (plan : Option SwapPlan) (position : Nat) : List Stmt → Tagged Unit
  | [] => return ()
  | s :: rest => do
    if SwapPlan.isWrite plan position then .of true (s.exec (.full cap false))
    else .atNode s.nodeType s.line (tagged cap none s)
    taggedAll cap plan (position + 1) rest

end

variable (cap : Nat) (plan : Option SwapPlan)

theorem tagged_forLoop (init : Option ForInit) (test update : Option Expr) (body : Stmt)
    (loc : Option Location) : tagged cap plan (.forLoop init test update body loc) = (do
      Tagged.of false (ForInit.exec init)
      let (reason, iterations) ←
        Tagged.iterate (.of false (Expr.holds test))
          (do
            body.asTaggedBodyOf (tagged cap none body)
            .of false (Eval.loopUpdate (loc.map (·.start.line)) update))
          cap 0
      .of false (Eval.record (loc.map (·.stop.line)) (.loopEnd reason iterations))) := rfl

theorem tagged_ifThen (test : Expr) (consequent : Stmt) (alternate : Option Stmt)
    (loc : Option Location) : tagged cap plan (.ifThen test consequent alternate loc) = (do
      let result := (← Tagged.of false test.eval).isTruthy
      .of false (Eval.record (test.line <|> loc.map (·.start.line)) (.ifTest result))
      if result then
        consequent.asTaggedBodyOf (tagged cap (SwapPlan.ofIf? test consequent) consequent)
      else
        match alternate with
        | none => return ()
        | some s => s.asTaggedBodyOf (tagged cap none s)) := by
  cases alternate <;> rfl

theorem tagged_block (body : List Stmt) (loc : Option Location) :
    tagged cap plan (.block body loc) = taggedAll cap plan 0 body := rfl

theorem taggedAll_cons (position : Nat) (s : Stmt) (rest : List Stmt) :
    taggedAll cap plan position (s :: rest) = (do
      if SwapPlan.isWrite plan position then .of true (s.exec (.full cap false))
      else .atNode s.nodeType s.line (tagged cap none s)
      taggedAll cap plan (position + 1) rest) := rfl

end Stmt

/-- The events of the tagged run of a program. -/
def Program.taggedEvents (cap : Nat) (environment : Environment) (heap : Heap) (p : Program) :
    List (Event × Bool) := (Stmt.taggedAll cap none 0 p.body (environment, heap)).2

/-- Which events stand with swap detection for the events without it. Events without a tag stay. A
pair of tagged events, the writes of an idiom, becomes the two halves of an exchange, the second one
only if it has a line. -/
inductive Event.Exchanged : List (Event × Bool) → List Event → Prop
  | nil : Exchanged [] []
  | other {tagged : List (Event × Bool)} {events : List Event} (e : Event)
    (h : Exchanged tagged events) : Exchanged ((e, false) :: tagged) (e :: events)
  | pair {tagged : List (Event × Bool)} {events : List Event} (line1 line2 : Option UInt32)
    (array : String) (i1 i2 : Nat) (value1 value2 : Snapshot) (state1 state2 : List Snapshot)
    (h : Exchanged tagged events) :
    Exchanged
      ((⟨line1, .assignElement array i1 value1 state1⟩, true) ::
        (⟨line2, .assignElement array i2 value2 state2⟩, true) :: tagged)
      (⟨line1, .swap array i1 i2 state1⟩ ::
        ((if line2.isSome then [⟨line2, .swap array i1 i2 state2⟩] else []) ++ events))

namespace Event.Exchanged

theorem append {tagged tagged' : List (Event × Bool)} {events events' : List Event}
    (h : Exchanged tagged events) (h' : Exchanged tagged' events') :
    Exchanged (tagged ++ tagged') (events ++ events') := by
  induction h with
  | nil => exact h'
  | other e h ih => exact .other e ih
  | pair line1 line2 array i1 i2 value1 value2 state1 state2 h ih =>
    have hpair := Exchanged.pair line1 line2 array i1 i2 value1 value2 state1 state2 ih
    rwa [← List.append_assoc] at hpair

/-- Events without a tag stay. -/
theorem of_untagged (events : List Event) : Exchanged (events.map (·, false)) events := by
  induction events with
  | nil => exact .nil
  | cons e events ih => exact .other e ih

end Event.Exchanged

end ScriptTrace
