import ScriptTrace.Named
import ScriptTrace.Value.Snapshot

/-!
# Environments

The variables of a run share one namespace. Bindings are kept in the order of their names, one for
each name.
-/

namespace ScriptTrace

/-- Bindings of names to values. -/
structure Environment where
  bindings : List (String × Value)
  sorted : bindings.Pairwise (·.1 < ·.1)

namespace Environment

/-- An environment without bindings. -/
def empty : Environment := ⟨[], .nil⟩

/-- Bind a name, instead of what it was bound to before. -/
def define (env : Environment) (name : String) (v : Value) : Environment :=
  ⟨Named.insert name v env.bindings, Named.sorted_insert name v env.sorted⟩

/-- The value that a name is bound to. -/
def get? (env : Environment) (name : String) : Option Value := env.bindings.lookup name

@[simp] theorem get?_empty (name : String) : empty.get? name = none := rfl

/-- Binding a name changes what that name is bound to, and nothing else. -/
theorem get?_define (env : Environment) (name : String) (v : Value) (name' : String) :
    (env.define name v).get? name' = if name' = name then some v else env.get? name' :=
  Named.lookup_insert name v env.bindings name'

/-- An environment is determined by what its names are bound to. -/
theorem eq_of_get?_eq {env env' : Environment} (h : ∀ name, env.get? name = env'.get? name) :
    env = env' := by
  obtain ⟨bindings, sorted⟩ := env
  obtain ⟨bindings', sorted'⟩ := env'
  obtain rfl : bindings = bindings' := Named.eq_of_lookup_eq sorted sorted' h
  rfl

/-- The number of bindings. -/
def size (env : Environment) : Nat := env.bindings.length

/-- Copies of all values, by name. -/
def snapshot (env : Environment) (h : Heap) : List (String × Snapshot) :=
  env.bindings.map fun (name, v) ↦ (name, h.snapshot v)

theorem exists_get?_of_mem_snapshot {env : Environment} {h : Heap} {name : String}
    {copy : Snapshot} (hmem : (name, copy) ∈ env.snapshot h) :
    ∃ v, env.get? name = some v ∧ h.snapshot v = copy := by
  obtain ⟨⟨other, v⟩, hbinding, heq⟩ := List.mem_map.mp hmem
  cases heq
  exact ⟨v, Named.lookup_eq_some_of_mem env.sorted hbinding, rfl⟩

end Environment

end ScriptTrace
