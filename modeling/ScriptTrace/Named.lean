/-!
# Named things in order

Lists of pairs in the strict order of their names. Such a list is determined by what it says of
each name (`eq_of_lookup_eq`), so it does not show in which order the names were added.
-/

namespace ScriptTrace

namespace Named

variable {α : Type}

/-- Put a pair into its place among pairs sorted by name, instead of one of the same name. -/
def insert (name : String) (a : α) : List (String × α) → List (String × α)
  | [] => [(name, a)]
  | (other, b) :: rest =>
    if name < other then (name, a) :: (other, b) :: rest
    else if name = other then (name, a) :: rest
    else (other, b) :: insert name a rest

theorem fst_mem_of_mem_insert {name : String} {a : α} {pairs : List (String × α)}
    {p : String × α} (hp : p ∈ insert name a pairs) : p.1 = name ∨ p ∈ pairs := by
  induction pairs with
  | nil => simp_all [insert]
  | cons q rest ih =>
    obtain ⟨other, b⟩ := q
    rw [insert] at hp
    split at hp
    · rcases List.mem_cons.1 hp with rfl | hp
      · exact .inl rfl
      · exact .inr hp
    · split at hp
      · rcases List.mem_cons.1 hp with rfl | hp
        · exact .inl rfl
        · exact .inr (List.mem_cons_of_mem _ hp)
      · rcases List.mem_cons.1 hp with rfl | hp
        · exact .inr List.mem_cons_self
        · exact (ih hp).imp_right (List.mem_cons_of_mem _)

theorem sorted_insert (name : String) (a : α) {pairs : List (String × α)}
    (h : pairs.Pairwise (·.1 < ·.1)) : (insert name a pairs).Pairwise (·.1 < ·.1) := by
  induction pairs with
  | nil => simp [insert]
  | cons q rest ih =>
    obtain ⟨other, b⟩ := q
    obtain ⟨hother, hrest⟩ := List.pairwise_cons.1 h
    rw [insert]
    split
    · rename_i hlt
      refine List.pairwise_cons.2 ⟨fun p hp ↦ ?_, h⟩
      rcases List.mem_cons.1 hp with rfl | hp
      · exact hlt
      · exact String.lt_trans hlt (hother p hp)
    · rename_i hnlt
      split
      · rename_i heq
        exact List.pairwise_cons.2 ⟨fun p hp ↦ heq ▸ hother p hp, hrest⟩
      · rename_i hne
        have hlt : other < name := Std.lt_of_le_of_ne (String.not_lt.1 hnlt) (Ne.symm hne)
        refine List.pairwise_cons.2 ⟨fun p hp ↦ ?_, ih hrest⟩
        rcases fst_mem_of_mem_insert hp with hp | hp
        · exact hp ▸ hlt
        · exact hother p hp

theorem lookup_cons_eq_ite (name other : String) (b : α) (rest : List (String × α)) :
    ((other, b) :: rest).lookup name = if name = other then some b else rest.lookup name := by
  rw [List.lookup_cons]
  by_cases hname : name = other
  · rw [if_pos hname, beq_iff_eq.2 hname]
  · rw [if_neg hname, beq_eq_false_iff_ne.2 hname]

theorem lookup_insert (name : String) (a : α) (pairs : List (String × α)) (name' : String) :
    (insert name a pairs).lookup name' = if name' = name then some a else pairs.lookup name' := by
  induction pairs with
  | nil => rw [insert, lookup_cons_eq_ite]
  | cons q rest ih =>
    obtain ⟨other, b⟩ := q
    rw [insert]
    by_cases hlt : name < other
    · rw [if_pos hlt, lookup_cons_eq_ite]
    · rw [if_neg hlt]
      by_cases heq : name = other
      · subst heq
        rw [if_pos rfl, lookup_cons_eq_ite, lookup_cons_eq_ite]
        by_cases hname : name' = name
        · rw [if_pos hname, if_pos hname]
        · rw [if_neg hname, if_neg hname, if_neg hname]
      · rw [if_neg heq, lookup_cons_eq_ite, lookup_cons_eq_ite, ih]
        by_cases hother : name' = other
        · rw [if_pos hother, if_pos hother, if_neg fun h ↦ heq (h.symm.trans hother)]
        · rw [if_neg hother, if_neg hother]

theorem mem_of_lookup_eq_some {name : String} {a : α} {pairs : List (String × α)}
    (h : pairs.lookup name = some a) : (name, a) ∈ pairs := by
  induction pairs with
  | nil => cases h
  | cons q rest ih =>
    obtain ⟨other, b⟩ := q
    rw [lookup_cons_eq_ite] at h
    split at h
    · rename_i hname
      rw [hname, Option.some.inj h]
      exact List.mem_cons_self
    · exact List.mem_cons_of_mem _ (ih h)

/-- Of sorted pairs each says what its name stands for. -/
theorem lookup_eq_some_of_mem {name : String} {a : α} {pairs : List (String × α)}
    (hsorted : pairs.Pairwise (·.1 < ·.1)) (h : (name, a) ∈ pairs) :
    pairs.lookup name = some a := by
  induction pairs with
  | nil => cases h
  | cons q rest ih =>
    obtain ⟨other, b⟩ := q
    obtain ⟨hother, hrest⟩ := List.pairwise_cons.1 hsorted
    rw [lookup_cons_eq_ite]
    rcases List.mem_cons.1 h with heq | h
    · cases heq
      rw [if_pos rfl]
    · have hlt : other < name := hother (name, a) h
      have hne : name ≠ other := by
        rintro rfl
        exact String.lt_irrefl _ hlt
      rw [if_neg hne, ih hrest h]

theorem lookup_eq_none_of_lt {name : String} {pairs : List (String × α)}
    (h : ∀ p ∈ pairs, name < p.1) : pairs.lookup name = none := by
  cases hlookup : pairs.lookup name with
  | none => rfl
  | some a => exact absurd (h _ (mem_of_lookup_eq_some hlookup)) (String.lt_irrefl name)

/-- Sorted pairs are determined by what they say of each name. -/
theorem eq_of_lookup_eq {xs ys : List (String × α)} (hxs : xs.Pairwise (·.1 < ·.1))
    (hys : ys.Pairwise (·.1 < ·.1)) (h : ∀ name, xs.lookup name = ys.lookup name) : xs = ys := by
  induction xs generalizing ys with
  | nil =>
    cases ys with
    | nil => rfl
    | cons q rest =>
      have hq := h q.1
      rw [lookup_cons_eq_ite, if_pos rfl] at hq
      cases hq
  | cons p rest ih =>
    obtain ⟨name, a⟩ := p
    cases ys with
    | nil =>
      have hp := h name
      rw [lookup_cons_eq_ite, if_pos rfl] at hp
      cases hp
    | cons q rest' =>
      obtain ⟨name', a'⟩ := q
      obtain ⟨hlt, hrest⟩ := List.pairwise_cons.1 hxs
      obtain ⟨hlt', hrest'⟩ := List.pairwise_cons.1 hys
      have hp := h name
      have hq := h name'
      rw [lookup_cons_eq_ite, lookup_cons_eq_ite, if_pos rfl] at hp
      rw [lookup_cons_eq_ite, lookup_cons_eq_ite, if_pos (rfl : name' = name')] at hq
      by_cases hname : name = name'
      · subst hname
        rw [if_pos rfl] at hp
        obtain rfl := Option.some.inj hp
        refine congrArg _ (ih hrest hrest' fun other ↦ ?_)
        by_cases hother : other = name
        · rw [hother, lookup_eq_none_of_lt hlt, lookup_eq_none_of_lt hlt']
        · have := h other
          rwa [lookup_cons_eq_ite, lookup_cons_eq_ite, if_neg hother, if_neg hother] at this
      · rw [if_neg hname] at hp
        rw [if_neg (Ne.symm hname)] at hq
        exact absurd (String.lt_trans (hlt _ (mem_of_lookup_eq_some hq))
          (hlt' _ (mem_of_lookup_eq_some hp.symm))) (String.lt_irrefl name)

end Named

end ScriptTrace
