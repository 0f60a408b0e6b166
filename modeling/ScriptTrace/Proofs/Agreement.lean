import ScriptTrace.Proofs.LockstepTree

/-!
# Agreement of two runs

Two computations agree if they end in the same way and emit the same events. The variables that
they start from may differ: a relation says how, and has to be kept. Lines count only if they have
to be `exact`; everything else is compared as it is.

Agreement is kept by all steps that do not tell related environments apart, and so by whole trees.
-/

namespace ScriptTrace

namespace Failure

/-- A failure without its line. -/
def withoutLine (f : Failure) : Failure := { f with line := none }

/-- A failure gets its node whatever the lines are. -/
theorem withoutLine_atNode (nodeType : String) (line : Option UInt32) (f : Failure) :
    (f.atNode nodeType line).withoutLine = f.withoutLine.atNode nodeType none := rfl

end Failure

/-- A relation that environments cannot lose by way of certain names: they bind them to the same,
and stay related when such a name is bound anew in both. -/
structure Environment.Alike (names : String → Prop) (alike : Environment → Environment → Prop) :
    Prop where
  get? {name : String} (hname : names name) {env env' : Environment} (h : alike env env') :
    env'.get? name = env.get? name
  define {name : String} (hname : names name) (v : Value) {env env' : Environment}
    (h : alike env env') : alike (env.define name v) (env'.define name v)

theorem Environment.alike_eq (names : String → Prop) : Alike names Eq where
  get? {_} _ {_ _} h := by rw [h]
  define {_} _ _ {_ _} h := by rw [h]

namespace Eval

/-- Whether two computations end in the same way, and leave the same arrays. -/
inductive Ending.Agrees {α : Type} (alike : Environment → Environment → Prop) (exact : Prop) :
    Ending α → Ending α → Prop where
  | ok (a : α) {env env' : Environment} (h : alike env env') (heap : Heap) :
    Agrees alike exact (.ok a (env, heap)) (.ok a (env', heap))
  | error {failure failure' : Failure} (hsame : failure'.withoutLine = failure.withoutLine)
    (hexact : exact → failure' = failure) {env env' : Environment} (h : alike env env')
    (heap : Heap) : Agrees alike exact (.error failure (env, heap)) (.error failure' (env', heap))

/-- Whether the same events are emitted. -/
structure EventsAgree (exact : Prop) (events events' : List Event) : Prop where
  details : events'.map Event.details = events.map Event.details
  exact : exact → events' = events

theorem EventsAgree.refl (exact : Prop) (events : List Event) : EventsAgree exact events events :=
  ⟨rfl, fun _ ↦ rfl⟩

theorem EventsAgree.append {exact : Prop} {events events' later later' : List Event}
    (h : EventsAgree exact events events') (hlater : EventsAgree exact later later') :
    EventsAgree exact (events ++ later) (events' ++ later') := by
  refine ⟨?_, fun hexact ↦ ?_⟩
  · rw [List.map_append, List.map_append, h.details, hlater.details]
  · rw [h.exact hexact, hlater.exact hexact]

/-- Whether two computations do the same from variables that are alike. -/
def Agree {α : Type} (alike : Environment → Environment → Prop) (exact : Prop) (m m' : Eval α) :
    Prop :=
  ∀ {env env' : Environment}, alike env env' → ∀ heap, ∃ ending ending' events events',
    m.Emits env heap ending events ∧ m'.Emits env' heap ending' events' ∧
      Ending.Agrees alike exact ending ending' ∧ EventsAgree exact events events'

namespace Agree

variable {alike : Environment → Environment → Prop} {exact : Prop} {α β : Type}

theorem bind {m m' : Eval α} {k k' : α → Eval β} (hm : Agree alike exact m m')
    (hk : ∀ a, m.Gives a → Agree alike exact (k a) (k' a)) :
    Agree alike exact (m >>= k) (m' >>= k') := by
  intro env env' h heap
  obtain ⟨ending, ending', events, events', hm, hm', hending, hevents⟩ := hm h heap
  cases hending with
  | error hsame hexact h heap =>
    exact ⟨_, _, events, events', hm.bind_error, hm'.bind_error, .error hsame hexact h heap,
      hevents⟩
  | ok a h heap =>
    obtain ⟨ending, ending', later, later', hk, hk', hending, hlater⟩ := hk a hm.gives h heap
    exact ⟨ending, ending', _, _, hm.bind hk, hm'.bind hk', hending, hevents.append hlater⟩

theorem atNode (nodeType : String) {line line' : Option UInt32} (hline : exact → line = line')
    {m m' : Eval α} (hm : Agree alike exact m m') :
    Agree alike exact (Eval.atNode nodeType line m) (Eval.atNode nodeType line' m') := by
  intro env env' h heap
  obtain ⟨ending, ending', events, events', hm, hm', hending, hevents⟩ := hm h heap
  cases hending with
  | ok a h heap =>
    exact ⟨_, _, events, events', hm.atNode nodeType line, hm'.atNode nodeType line', .ok a h heap,
      hevents⟩
  | error hsame hexact h heap =>
    refine ⟨_, _, events, events', hm.atNode_error nodeType line, hm'.atNode_error nodeType line',
      .error ?_ (fun he ↦ ?_) h heap, hevents⟩
    · rw [Failure.withoutLine_atNode, Failure.withoutLine_atNode, hsame]
    · rw [hexact he, hline he]

/-- A step that the variables have no part in agrees with itself. -/
private theorem of_heap {m : Eval α} (next : Heap → α × Heap)
    (hm : ∀ env heap, m.Emits env heap (.ok (next heap).1 (env, (next heap).2)) []) :
    Agree alike exact m m :=
  fun {env env'} h heap ↦
    ⟨_, _, [], [], hm env heap, hm env' heap, .ok _ h (next heap).2, .refl exact []⟩

/-- Steps agree if they can only reach names that related environments do not tell apart. -/
theorem lockstep {names : String → Prop} (hS : Environment.Alike names alike) :
    Lockstep names exact fun {_} m m' ↦ Agree alike exact m m' where
  pure a := of_heap (fun h ↦ (a, h)) fun _ _ _ ↦ rfl
  fail cause := fun h heap ↦ ⟨_, _, [], [], fun _ ↦ rfl, fun _ ↦ rfl,
    .error rfl (fun _ ↦ rfl) h heap, .refl exact []⟩
  bind := bind
  atNode {_} nodeType {_ _ _ _} hline hm := hm.atNode nodeType hline
  heap := of_heap (fun h ↦ (h, h)) fun _ _ _ ↦ rfl
  -- the only step that reads the variables
  lookup? {name} hname := fun {env env'} h heap ↦ by
    have hm' : (Eval.lookup? name).Emits env' heap (.ok (env'.get? name) (env', heap)) [] :=
      fun _ ↦ rfl
    rw [hS.get? hname h] at hm'
    exact ⟨_, _, [], [], fun _ ↦ rfl, hm', .ok (env.get? name) h heap, .refl exact []⟩
  define hname v := fun h heap ↦ ⟨_, _, [], [], fun _ ↦ rfl, fun _ ↦ rfl,
    .ok () (hS.define hname v h) heap, .refl exact []⟩
  write array slot v := of_heap (fun h ↦ ((), h.write array slot v)) fun _ _ _ ↦ rfl
  allocate elements := of_heap (fun h ↦ (h.nextId, h.allocate elements)) fun _ _ _ ↦ rfl
  record {line line'} hline details := fun h heap ↦
    ⟨_, _, [⟨line, details⟩], [⟨line', details⟩], fun _ ↦ rfl, fun _ ↦ rfl, .ok () h heap, rfl,
      fun he ↦ by rw [hline he]⟩

end Agree

end Eval

namespace Program

variable {alike : Environment → Environment → Prop} {exact : Prop} {names : String → Prop}
  {f : Relocation}

/-- A program agrees with itself at other locations, from variables that are alike. -/
theorem agree_exec (hS : Environment.Alike names alike) (hf : f.Suits exact) (config : Config)
    {p : Program} (hnames : ∀ s ∈ p.body, (Node.stmt s).NamesIn names) :
    Eval.Agree alike exact (p.exec config) ((p.relocate f).exec config) :=
  (Eval.Agree.lockstep hS).exec hf config config rfl
    ((Eval.Agree.lockstep hS).loops config.iterationCap) hnames

end Program

end ScriptTrace
