import Mathlib.Data.List.Basic
import ScriptTrace.Value.Snapshot

/-!
# Copies are unfoldings of the heap

A heap is a graph: arrays may share elements and may contain themselves. A copy is a tree. An index
path can be followed in both, and `Heap.snapshot_unfolds` says how the two agree. They show the same
along a path for as long as the path does not come back to an array that it has passed; where it
first does, the copy is `circular`, and beyond it there is nothing.

The copy inside some arrays meets those arrays as if the path had passed them already. So everything
is proved for the arrays that a copy is made inside of, by induction on the path (`Heap.Walk`).

That a copy is made inside of the arrays above it, and not of those beside it, can also be said of a
machine with one stack: it pushes an array, copies the elements and pops the array. This machine
needs no deeper recursion than there are arrays, and leaves its stack as it has found it
(`Heap.snapshotOnStack_eq`).
-/

namespace ScriptTrace

/-! ## Index paths -/

namespace Snapshot

/-- The part of a copy that an index path leads to. -/
def at? : Snapshot → List Nat → Option Snapshot
  | c, [] => some c
  | array elements, i :: path => elements[i]?.bind (at? · path)
  | number _, _ :: _ | boolean _, _ :: _ | undefined, _ :: _ | circular, _ :: _ => none

/-- Whether a copy shows a value, at the first look: the same scalar, or an array of the same
length. -/
inductive Shows (h : Heap) : Snapshot → Value → Prop
  | number (n : Number) : Shows h (.number n) (.number n)
  | boolean (b : Bool) : Shows h (.boolean b) (.boolean b)
  | undefined : Shows h .undefined .undefined
  | array {elements : List Snapshot} {id : ArrayId} (hlength : elements.length = h.length id) :
    Shows h (.array elements) (.array id)

end Snapshot

namespace Heap

/-- The value that an index path leads to from a value. -/
def follow (h : Heap) : Value → List Nat → Option Value
  | v, [] => some v
  | .array id, i :: path => (h.read? id i).bind (h.follow · path)
  | .number _, _ :: _ | .boolean _, _ :: _ | .undefined, _ :: _ => none

/-- Whether an array can be reached from a value. -/
def Reaches (h : Heap) (v : Value) (id : ArrayId) : Prop :=
  ∃ path, h.follow v path = some (.array id)

/-- Whether an array can reach itself. -/
def OnCycle (h : Heap) (id : ArrayId) : Prop :=
  ∃ path, path ≠ [] ∧ h.follow (.array id) path = some (.array id)

/-- Whether a path passes an array on its way, before its end. -/
def Passes (h : Heap) (v : Value) (path : List Nat) (id : ArrayId) : Prop :=
  ∃ earlier, earlier <+: path ∧ earlier ≠ path ∧ h.follow v earlier = some (.array id)

/-- Whether a path ends at an array that it has passed. -/
def Returns (h : Heap) (v : Value) (path : List Nat) : Prop :=
  ∃ id, h.follow v path = some (.array id) ∧ h.Passes v path id

variable {h : Heap} {ancestors : List ArrayId} {v w : Value} {id : ArrayId} {i : Nat}
  {path : List Nat}

theorem follow_cons_eq_some_iff : h.follow v (i :: path) = some w ↔
    ∃ id u, v = .array id ∧ h.read? id i = some u ∧ h.follow u path = some w := by
  rcases v with n | b | id | _
  · simp [follow]
  · simp [follow]
  · simp [follow, Option.bind_eq_some_iff]
  · simp [follow]

theorem follow_append (v : Value) (path later : List Nat) :
    h.follow v (path ++ later) = (h.follow v path).bind (h.follow · later) := by
  induction path generalizing v with
  | nil => rfl
  | cons i path ih =>
    rcases v with n | b | id | _
    · rfl
    · rfl
    · simp only [List.cons_append, follow, Option.bind_assoc, ih]
    · rfl

/-- What an element reaches, its array reaches. -/
theorem reaches_of_read? {id' : ArrayId} (hread : h.read? id i = some w)
    (hreaches : h.Reaches w id') : h.Reaches (.array id) id' := by
  obtain ⟨path, hpath⟩ := hreaches
  exact ⟨i :: path, follow_cons_eq_some_iff.mpr ⟨id, w, rfl, hread, hpath⟩⟩

theorem passes_cons_iff {u : Value} {id' : ArrayId} (hread : h.read? id i = some u) :
    h.Passes (.array id) (i :: path) id' ↔ id' = id ∨ h.Passes u path id' := by
  have hfollow (earlier : List Nat) : h.follow (.array id) (i :: earlier) = h.follow u earlier := by
    rw [follow, hread, Option.bind_some]
  constructor
  · rintro ⟨earlier, hpart, hne, hend⟩
    rcases List.prefix_cons_iff.mp hpart with rfl | ⟨rest, rfl, hpart'⟩
    · cases hend
      exact .inl rfl
    · rw [hfollow] at hend
      exact .inr ⟨rest, hpart', fun heq ↦ hne (congrArg (i :: ·) heq), hend⟩
  · rintro (rfl | ⟨rest, hpart, hne, hend⟩)
    · exact ⟨[], List.nil_prefix, (List.cons_ne_nil i path).symm, rfl⟩
    · refine ⟨i :: rest, (List.prefix_cons_inj i).mpr hpart, fun heq ↦ hne ?_, ?_⟩
      · exact (List.cons.inj heq).2
      · rw [hfollow, hend]

theorem not_passes_nil (v : Value) (id : ArrayId) : ¬h.Passes v [] id := by
  rintro ⟨earlier, hpart, hne, -⟩
  exact hne (List.prefix_nil.mp hpart)

/-! ## Where copies depend on the arrays around them -/

/-- A copy only depends on those arrays around it that can be reached. -/
theorem snapshotIn_congr {ancestors' : List ArrayId}
    (hmem : ∀ id, h.Reaches v id → (id ∈ ancestors ↔ id ∈ ancestors')) :
    h.snapshotIn ancestors v = h.snapshotIn ancestors' v := by
  induction ancestors, v using snapshotIn.induct h generalizing ancestors' with
  | case1 ancestors n => rw [snapshotIn, snapshotIn]
  | case2 ancestors b => rw [snapshotIn, snapshotIn]
  | case3 ancestors => rw [snapshotIn, snapshotIn]
  | case4 ancestors id hid =>
    have hid' := (hmem id ⟨[], rfl⟩).mp hid
    rw [h.snapshotIn_array_of_mem hid, h.snapshotIn_array_of_mem hid']
  | case5 ancestors id hid ih =>
    have hid' := mt (hmem id ⟨[], rfl⟩).mpr hid
    rw [h.snapshotIn_array hid, h.snapshotIn_array hid']
    refine congrArg Snapshot.array (List.map_congr_left fun e he ↦ ih e he fun id' hid' ↦ ?_)
    obtain ⟨i, hread⟩ := Array.getElem?_of_mem (Array.mem_toList_iff.mp he)
    have hreaches := reaches_of_read? hread hid'
    rw [List.mem_cons, List.mem_cons, hmem id' hreaches]

/-- A copy does not depend on the contents of the arrays around it. -/
theorem snapshotIn_of_elements_eq {h' : Heap}
    (hsame : ∀ id ∉ ancestors, h'.elements id = h.elements id) :
    h'.snapshotIn ancestors v = h.snapshotIn ancestors v := by
  induction ancestors, v using snapshotIn.induct h with
  | case1 ancestors n => rw [snapshotIn, snapshotIn]
  | case2 ancestors b => rw [snapshotIn, snapshotIn]
  | case3 ancestors => rw [snapshotIn, snapshotIn]
  | case4 ancestors id hid => rw [h.snapshotIn_array_of_mem hid, h'.snapshotIn_array_of_mem hid]
  | case5 ancestors id hid ih =>
    rw [h.snapshotIn_array hid, h'.snapshotIn_array hid, hsame id hid]
    refine congrArg Snapshot.array (List.map_congr_left fun e he ↦ ih e he fun id' hid' ↦ ?_)
    exact hsame id' fun hmem ↦ hid' (List.mem_cons_of_mem _ hmem)

theorem snapshotIn_eq_circular_iff :
    h.snapshotIn ancestors v = .circular ↔ ∃ id ∈ ancestors, v = .array id := by
  rcases v with n | b | id | _
  · simp [snapshotIn]
  · simp [snapshotIn]
  · by_cases hid : id ∈ ancestors
    · simp [h.snapshotIn_array_of_mem hid, hid]
    · simp [h.snapshotIn_array hid, hid]
  · simp [snapshotIn]

/-- A copy that is not cut off shows the value. -/
theorem shows_snapshotIn (hnew : ∀ id, v = .array id → id ∉ ancestors) :
    (h.snapshotIn ancestors v).Shows h v := by
  rcases v with n | b | id | _
  · rw [snapshotIn]
    exact .number n
  · rw [snapshotIn]
    exact .boolean b
  · rw [h.snapshotIn_array (hnew id rfl)]
    exact .array (by rw [List.length_map, Array.length_toList, length])
  · rw [snapshotIn]
    exact .undefined

/-! ## Following a path in a copy -/

/-- A path that can be followed in the copy of a value, which is made inside of some arrays: the
value that it leads to is copied inside of those and of all that the path has passed. -/
inductive Walk (h : Heap) : List ArrayId → Value → List Nat → List ArrayId → Value → Prop
  | here (ancestors : List ArrayId) (v : Value) : Walk h ancestors v [] ancestors v
  | next {ancestors ancestors' : List ArrayId} {id : ArrayId} {i : Nat} {u w : Value}
    {path : List Nat} (hnew : id ∉ ancestors) (hread : h.read? id i = some u)
    (hrest : Walk h (id :: ancestors) u path ancestors' w) :
    Walk h ancestors (.array id) (i :: path) ancestors' w

variable {ancestors' : List ArrayId}

/-- What a path leads to in a copy. -/
theorem at?_snapshotIn_eq_some_iff {c : Snapshot} :
    (h.snapshotIn ancestors v).at? path = some c ↔
      ∃ ancestors' w, h.Walk ancestors v path ancestors' w ∧ h.snapshotIn ancestors' w = c := by
  induction path generalizing ancestors v with
  | nil =>
    constructor
    · intro hc
      rw [Snapshot.at?] at hc
      exact ⟨ancestors, v, .here ancestors v, Option.some.inj hc⟩
    · rintro ⟨ancestors', w, hwalk, rfl⟩
      cases hwalk
      rw [Snapshot.at?]
  | cons i path ih =>
    constructor
    · intro hc
      rcases v with n | b | id | _
      · simp [snapshotIn, Snapshot.at?] at hc
      · simp [snapshotIn, Snapshot.at?] at hc
      · by_cases hid : id ∈ ancestors
        · simp [h.snapshotIn_array_of_mem hid, Snapshot.at?] at hc
        · rw [h.snapshotIn_array hid, Snapshot.at?, Option.bind_eq_some_iff] at hc
          obtain ⟨copy, hcopy, hc⟩ := hc
          rw [List.getElem?_map, Option.map_eq_some_iff] at hcopy
          obtain ⟨u, hread, rfl⟩ := hcopy
          rw [Array.getElem?_toList] at hread
          obtain ⟨ancestors', w, hwalk, hw⟩ := ih.mp hc
          exact ⟨ancestors', w, .next hid hread hwalk, hw⟩
      · simp [snapshotIn, Snapshot.at?] at hc
    · rintro ⟨ancestors', w, hwalk, hw⟩
      cases hwalk with
      | next hid hread hrest =>
        rename_i id u
        have helement : ((h.elements id).toList.map (h.snapshotIn (id :: ancestors)))[i]? =
            some (h.snapshotIn (id :: ancestors) u) := by
          rw [List.getElem?_map, Array.getElem?_toList, Option.map_eq_some_iff]
          exact ⟨u, hread, rfl⟩
        rw [h.snapshotIn_array hid, Snapshot.at?, helement, Option.bind_some]
        exact ih.mpr ⟨ancestors', w, hrest, hw⟩

namespace Walk

/-- The heap is followed along the same path. -/
theorem follow_eq (hwalk : h.Walk ancestors v path ancestors' w) : h.follow v path = some w := by
  induction hwalk with
  | here => rfl
  | next _ hread _ ih => rw [follow, hread, Option.bind_some, ih]

/-- The arrays around the end are those around the start and those that the path has passed. -/
theorem mem_iff (hwalk : h.Walk ancestors v path ancestors' w) (id : ArrayId) :
    id ∈ ancestors' ↔ id ∈ ancestors ∨ h.Passes v path id := by
  induction hwalk with
  | here ancestors v => rw [or_iff_left (not_passes_nil v id)]
  | next hnew hread hrest ih =>
    rw [ih, passes_cons_iff hread, List.mem_cons, or_assoc, or_left_comm]

end Walk

/-- Whether a path ends at an array that is around its start or that it has passed. -/
def Meets (h : Heap) (ancestors : List ArrayId) (v : Value) (path : List Nat) : Prop :=
  ∃ id, h.follow v path = some (.array id) ∧ (id ∈ ancestors ∨ h.Passes v path id)

theorem meets_nil_ancestors : h.Meets [] v path ↔ h.Returns v path := by
  simp [Meets, Returns]

theorem meets_nil_iff : h.Meets ancestors v [] ↔ ∃ id ∈ ancestors, v = .array id := by
  constructor
  · rintro ⟨id, hend, hid | hid⟩
    · exact ⟨id, hid, Option.some.inj hend⟩
    · exact absurd hid (not_passes_nil v id)
  · rintro ⟨id, hid, rfl⟩
    exact ⟨id, rfl, .inl hid⟩

theorem meets_cons_iff {u : Value} (hread : h.read? id i = some u) :
    h.Meets ancestors (.array id) (i :: path) ↔ h.Meets (id :: ancestors) u path := by
  refine exists_congr fun id' ↦ ?_
  rw [follow, hread, Option.bind_some, passes_cons_iff hread, List.mem_cons, or_assoc, or_left_comm]

/-- A path can be followed in a copy if it can be followed in the heap and meets nothing on its
way. -/
theorem exists_walk_iff : (∃ ancestors', h.Walk ancestors v path ancestors' w) ↔
    h.follow v path = some w ∧
      ∀ earlier, earlier <+: path → earlier ≠ path → ¬h.Meets ancestors v earlier := by
  induction path generalizing ancestors v with
  | nil =>
    constructor
    · rintro ⟨ancestors', hwalk⟩
      exact ⟨hwalk.follow_eq, fun earlier hpart hne ↦ absurd (List.prefix_nil.mp hpart) hne⟩
    · rintro ⟨hend, -⟩
      cases hend
      exact ⟨ancestors, .here ancestors _⟩
  | cons i path ih =>
    constructor
    · rintro ⟨ancestors', hwalk⟩
      refine ⟨hwalk.follow_eq, fun earlier hpart hne hmeets ↦ ?_⟩
      cases hwalk with
      | next hnew hread hrest =>
        rcases List.prefix_cons_iff.mp hpart with rfl | ⟨rest, rfl, hpart'⟩
        · obtain ⟨id, hid, heq⟩ := meets_nil_iff.mp hmeets
          cases heq
          exact hnew hid
        · refine (ih.mp ⟨_, hrest⟩).2 rest hpart' (fun heq ↦ hne (congrArg (i :: ·) heq)) ?_
          exact (meets_cons_iff hread).mp hmeets
    · rintro ⟨hend, hclear⟩
      obtain ⟨id, u, rfl, hread, hend⟩ := follow_cons_eq_some_iff.mp hend
      have hnew : id ∉ ancestors := fun hid ↦
        hclear [] List.nil_prefix (List.cons_ne_nil i path).symm (meets_nil_iff.mpr ⟨id, hid, rfl⟩)
      obtain ⟨ancestors', hrest⟩ := ih.mpr ⟨hend, fun rest hpart hne hmeets ↦ hclear (i :: rest)
        ((List.prefix_cons_inj i).mpr hpart) (fun heq ↦ hne (List.cons.inj heq).2)
        ((meets_cons_iff hread).mpr hmeets)⟩
      exact ⟨ancestors', .next hnew hread hrest⟩

/-! ## Cycles -/

/-- An array that leads back to one from which it was reached is on a cycle. -/
theorem onCycle_of_passes {id' : ArrayId} (hend : h.follow v path = some (.array id))
    (hpasses : h.Passes v path id') (hreaches : h.Reaches (.array id) id') : h.OnCycle id := by
  obtain ⟨earlier, ⟨later, rfl⟩, hne, hearlier⟩ := hpasses
  obtain ⟨back, hback⟩ := hreaches
  rw [follow_append, hearlier, Option.bind_some] at hend
  refine ⟨back ++ later, fun hnil ↦ hne ?_, ?_⟩
  · rw [(List.append_eq_nil_iff.mp hnil).2, List.append_nil]
  · rw [follow_append, hback, Option.bind_some, hend]

theorem Returns.exists_onCycle (hreturns : h.Returns v path) :
    ∃ id, h.Reaches v id ∧ h.OnCycle id := by
  obtain ⟨id, hend, hpasses⟩ := hreturns
  exact ⟨id, ⟨path, hend⟩, onCycle_of_passes hend hpasses ⟨[], rfl⟩⟩

/-- A path to a cycle returns when it has gone around it. -/
theorem exists_returns_of_onCycle (hreaches : h.Reaches v id) (hcycle : h.OnCycle id) :
    ∃ path, h.Returns v path := by
  obtain ⟨path, hpath⟩ := hreaches
  obtain ⟨around, hne, haround⟩ := hcycle
  refine ⟨path ++ around, id, ?_, path, List.prefix_append path around, fun heq ↦ hne ?_, hpath⟩
  · rw [follow_append, hpath, Option.bind_some, haround]
  · exact List.self_eq_append_right.mp heq

/-- A path that returns does so for a first time. -/
theorem Returns.exists_first {path : List Nat} (hreturns : h.Returns v path) :
    ∃ first, h.Returns v first ∧
      ∀ earlier, earlier <+: first → earlier ≠ first → ¬h.Returns v earlier := by
  by_cases hearlier : ∃ earlier, earlier <+: path ∧ earlier ≠ path ∧ h.Returns v earlier
  · obtain ⟨earlier, hpart, hne, hreturns⟩ := hearlier
    exact hreturns.exists_first
  · refine ⟨path, hreturns, fun earlier hpart hne hreturns ↦ ?_⟩
    exact hearlier ⟨earlier, hpart, hne, hreturns⟩
termination_by path.length
decreasing_by
  have hle := List.IsPrefix.length_le hpart
  exact Nat.lt_of_le_of_ne hle fun heq ↦ hne (List.IsPrefix.eq_of_length hpart heq)

/-- Inside of the arrays on a path to it, an array that is on no cycle is copied as it is alone. -/
theorem Walk.snapshotIn_eq (hwalk : h.Walk [] v path ancestors (.array id))
    (hcycle : ¬h.OnCycle id) : h.snapshotIn ancestors (.array id) = h.snapshot (.array id) := by
  refine snapshotIn_congr fun id' hreaches ↦ iff_of_false (fun hmem ↦ hcycle ?_) List.not_mem_nil
  rcases (hwalk.mem_iff id').mp hmem with hmem | hpasses
  · cases hmem
  · exact onCycle_of_passes hwalk.follow_eq hpasses hreaches

/-! ## Copying with one stack -/

/-- The copy of a value as a machine makes it that has one stack for the arrays that it is inside
of. Deeper than `depth` it does not go. -/
def snapshotOnStack (h : Heap) : Nat → Value → StateT (List ArrayId) Option Snapshot
  | 0, _ => failure
  | _ + 1, .number n => return .number n
  | _ + 1, .boolean b => return .boolean b
  | _ + 1, .undefined => return .undefined
  | depth + 1, .array id => do
    if id ∈ (← get) then
      return .circular
    else
      modify (id :: ·)
      let elements ← (h.elements id).toList.mapM (h.snapshotOnStack depth)
      modify List.tail
      return .array elements

theorem run_mapM_of_forall {α β σ : Type} {f : α → StateT σ Option β} {g : α → β} {s : σ}
    {l : List α} (hf : ∀ a ∈ l, (f a).run s = some (g a, s)) :
    (l.mapM f).run s = some (l.map g, s) := by
  induction l with
  | nil => rfl
  | cons a l ih =>
    obtain ⟨ha, hl⟩ := List.forall_mem_cons.mp hf
    rw [List.mapM_cons, StateT.run_bind, ha]
    simp only [Option.bind_eq_bind, Option.bind_some, StateT.run_bind, ih hl, StateT.run_pure,
      List.map_cons, Option.pure_def]

/-- With one level for every array that it is not inside of, the machine makes the copy, and its
stack is what it was before. -/
theorem snapshotOnStack_eq {depth : Nat} (hdepth : h.unvisited ancestors < depth) :
    (h.snapshotOnStack depth v).run ancestors = some (h.snapshotIn ancestors v, ancestors) := by
  induction depth generalizing ancestors v with
  | zero => cases hdepth
  | succ depth ih =>
    rcases v with n | b | id | _
    · rw [snapshotIn]
      rfl
    · rw [snapshotIn]
      rfl
    · by_cases hid : id ∈ ancestors
      · rw [h.snapshotIn_array_of_mem hid]
        simp [snapshotOnStack, hid]
      · have helements :
            ((h.elements id).toList.mapM (h.snapshotOnStack depth)).run (id :: ancestors) =
              some ((h.elements id).toList.map (h.snapshotIn (id :: ancestors)),
                id :: ancestors) := by
          refine run_mapM_of_forall fun e he ↦ ih ?_
          have hlt := lt_nextId_of_mem_elements (Array.mem_toList_iff.mp he)
          exact Nat.lt_of_lt_of_le (unvisited_cons_lt hlt hid) (Nat.le_of_lt_succ hdepth)
        rw [h.snapshotIn_array hid]
        simp [snapshotOnStack, hid, helements]
    · rw [snapshotIn]
      rfl

/-! ## Unfoldings -/

theorem at?_snapshot_eq_some_iff {c : Snapshot} : (h.snapshot v).at? path = some c ↔
    ∃ ancestors w, h.Walk [] v path ancestors w ∧ h.snapshotIn ancestors w = c :=
  at?_snapshotIn_eq_some_iff

/-- A copy has a part wherever the heap does that no path returns before. -/
theorem exists_walk_of_not_returns (hend : h.follow v path = some w)
    (hclear : ∀ earlier, earlier <+: path → earlier ≠ path → ¬h.Returns v earlier) :
    ∃ ancestors, h.Walk [] v path ancestors w :=
  exists_walk_iff.mpr ⟨hend, fun earlier hpart hne hmeets ↦
    hclear earlier hpart hne (meets_nil_ancestors.mp hmeets)⟩

/-- As long as a path does not return, the copy shows what the heap has there. -/
theorem rel_shows_of_not_returns (hclear : ∀ earlier, earlier <+: path → ¬h.Returns v earlier) :
    Option.Rel (Snapshot.Shows h) ((h.snapshot v).at? path) (h.follow v path) := by
  rcases hend : h.follow v path with _ | w
  · rcases hcopy : (h.snapshot v).at? path with _ | c
    · exact .none
    · obtain ⟨ancestors, w, hwalk, -⟩ := at?_snapshot_eq_some_iff.mp hcopy
      cases hend.symm.trans hwalk.follow_eq
  · obtain ⟨ancestors, hwalk⟩ := exists_walk_of_not_returns hend fun earlier hpart _ ↦
      hclear earlier hpart
    rw [at?_snapshot_eq_some_iff.mpr ⟨ancestors, w, hwalk, rfl⟩]
    refine .some (shows_snapshotIn fun id hw hmem ↦ ?_)
    subst hw
    rcases (hwalk.mem_iff id).mp hmem with hmem | hpasses
    · cases hmem
    · exact hclear path (List.prefix_refl path) ⟨id, hend, hpasses⟩

/-- A copy is cut off exactly where a path returns for the first time. -/
theorem at?_snapshot_eq_circular_iff : (h.snapshot v).at? path = some .circular ↔
    h.Returns v path ∧ ∀ earlier, earlier <+: path → earlier ≠ path → ¬h.Returns v earlier := by
  rw [at?_snapshot_eq_some_iff]
  constructor
  · rintro ⟨ancestors, w, hwalk, hcircular⟩
    obtain ⟨id, hmem, rfl⟩ := snapshotIn_eq_circular_iff.mp hcircular
    obtain ⟨hend, hclear⟩ := exists_walk_iff.mp ⟨ancestors, hwalk⟩
    refine ⟨⟨id, hend, ((hwalk.mem_iff id).mp hmem).resolve_left List.not_mem_nil⟩, ?_⟩
    exact fun earlier hpart hne hreturns ↦
      hclear earlier hpart hne (meets_nil_ancestors.mpr hreturns)
  · rintro ⟨⟨id, hend, hpasses⟩, hclear⟩
    obtain ⟨ancestors, hwalk⟩ := exists_walk_of_not_returns hend hclear
    refine ⟨ancestors, .array id, hwalk, snapshotIn_eq_circular_iff.mpr ⟨id, ?_, rfl⟩⟩
    exact (hwalk.mem_iff id).mpr (.inr hpasses)

/-- A copy is cut off somewhere if and only if the value leads to a cycle. -/
theorem exists_circular_iff : (∃ path, (h.snapshot v).at? path = some .circular) ↔
    ∃ id, h.Reaches v id ∧ h.OnCycle id := by
  constructor
  · rintro ⟨path, hcircular⟩
    exact (at?_snapshot_eq_circular_iff.mp hcircular).1.exists_onCycle
  · rintro ⟨id, hreaches, hcycle⟩
    obtain ⟨path, hreturns⟩ := exists_returns_of_onCycle hreaches hcycle
    obtain ⟨first, hfirst⟩ := hreturns.exists_first
    exact ⟨first, at?_snapshot_eq_circular_iff.mpr hfirst⟩

/-- An array that is on no cycle is copied in the same way wherever it is met. -/
theorem at?_snapshot_of_not_onCycle {c : Snapshot} (hend : h.follow v path = some (.array id))
    (hcopy : (h.snapshot v).at? path = some c) (hcycle : ¬h.OnCycle id) :
    c = h.snapshot (.array id) := by
  obtain ⟨ancestors, w, hwalk, rfl⟩ := at?_snapshot_eq_some_iff.mp hcopy
  obtain rfl := Option.some.inj (hend.symm.trans hwalk.follow_eq)
  exact hwalk.snapshotIn_eq hcycle

/-- **Copies are the unfoldings of the heap.** Whatever arrays share or contain:

* the copy of a value is made with no deeper recursion than there are arrays, on a stack that is
  then as it was;
* along every path that does not return to an array that it has passed, the copy and the heap have
  the same scalars, and arrays of the same lengths, or both end;
* the copy is `circular` exactly where a path returns for the first time;
* so some part of it is if and only if the value reaches an array that can reach itself;
* an array that cannot reach itself is copied in full wherever it is met;
* the copy of an array is made of the copies of its elements. -/
theorem snapshot_unfolds (h : Heap) (v : Value) :
    (h.snapshotOnStack (h.nextId + 1) v).run [] = some (h.snapshot v, []) ∧
      (∀ path, (∀ earlier, earlier <+: path → ¬h.Returns v earlier) →
        Option.Rel (Snapshot.Shows h) ((h.snapshot v).at? path) (h.follow v path)) ∧
      (∀ path, (h.snapshot v).at? path = some .circular ↔ h.Returns v path ∧
        ∀ earlier, earlier <+: path → earlier ≠ path → ¬h.Returns v earlier) ∧
      ((∃ path, (h.snapshot v).at? path = some .circular) ↔
        ∃ id, h.Reaches v id ∧ h.OnCycle id) ∧
      (∀ path c id, h.follow v path = some (.array id) → (h.snapshot v).at? path = some c →
        ¬h.OnCycle id → c = h.snapshot (.array id)) ∧
      ∀ id, h.snapshot (.array id) = .array (h.snapshotElements id) := by
  refine ⟨snapshotOnStack_eq ?_, fun path ↦ rel_shows_of_not_returns,
    fun path ↦ at?_snapshot_eq_circular_iff, exists_circular_iff,
    fun path c id ↦ at?_snapshot_of_not_onCycle, h.snapshot_array⟩
  have hall := List.length_filter_le (· ∉ ([] : List ArrayId)) (List.range h.nextId)
  rw [List.length_range] at hall
  exact Nat.lt_succ_of_le hall

/-- An array that contains itself and, twice, an array of one truth value. -/
def sharing : Heap := ⟨#[#[.array 0, .array 1, .array 1], #[.boolean true]]⟩

theorem not_onCycle_sharing : ¬sharing.OnCycle 1 := by
  rintro ⟨path, hne, hpath⟩
  rcases path with _ | ⟨i, path⟩
  · exact hne rfl
  · obtain ⟨id, u, hid, hread, hpath⟩ := follow_cons_eq_some_iff.mp hpath
    cases hid
    have hu : u ∈ #[Value.boolean true] := Array.mem_of_getElem? hread
    obtain rfl := Array.mem_singleton.mp hu
    rcases path with _ | ⟨j, path⟩
    · cases hpath
    · cases hpath

private theorem eq_nil_of_prefix_singleton {earlier : List Nat} (hpart : earlier <+: [i])
    (hne : earlier ≠ [i]) : earlier = [] := by
  rcases List.prefix_cons_iff.mp hpart with rfl | ⟨rest, rfl, hrest⟩
  · rfl
  · exact absurd (congrArg (i :: ·) (List.prefix_nil.mp hrest)) hne

/-- The shared array is copied at both places, and the array that contains itself is not copied
again. -/
theorem snapshot_unfolds_sharing :
    sharing.Returns (.array 0) [0] ∧ ¬sharing.OnCycle 1 ∧
      (sharing.snapshot (.array 0)).at? [0] = some .circular ∧
      (sharing.snapshot (.array 0)).at? [1] = some (sharing.snapshot (.array 1)) ∧
      (sharing.snapshot (.array 0)).at? [2] = some (sharing.snapshot (.array 1)) := by
  obtain ⟨-, hshows, hcircular, -, hcopied, -⟩ := sharing.snapshot_unfolds (.array 0)
  have hreturns : sharing.Returns (.array 0) [0] :=
    ⟨0, rfl, [], List.nil_prefix, (List.cons_ne_nil 0 []).symm, rfl⟩
  have hclear (i : Nat) (earlier : List Nat) (hpart : earlier <+: [i]) (hne : earlier ≠ [i]) :
      ¬sharing.Returns (.array 0) earlier := by
    rintro ⟨id, -, hpasses⟩
    rw [eq_nil_of_prefix_singleton hpart hne] at hpasses
    exact not_passes_nil _ _ hpasses
  have hshared (i : Nat) (hi : sharing.follow (.array 0) [i] = some (.array 1)) :
      (sharing.snapshot (.array 0)).at? [i] = some (sharing.snapshot (.array 1)) := by
    have hrel := hshows [i] fun earlier hpart ↦ by
      by_cases hne : earlier = [i]
      · rintro ⟨id, hend, before, hbefore, hproper, hpassed⟩
        subst hne
        rw [eq_nil_of_prefix_singleton hbefore hproper] at hpassed
        cases hpassed
        cases hi.symm.trans hend
      · exact hclear i earlier hpart hne
    rw [hi] at hrel
    rcases hcopy : (sharing.snapshot (.array 0)).at? [i] with _ | c
    · rw [hcopy] at hrel
      cases hrel
    · rw [hcopied [i] c 1 hi hcopy not_onCycle_sharing]
  exact ⟨hreturns, not_onCycle_sharing, (hcircular [0]).mpr ⟨hreturns, hclear 0⟩, hshared 1 rfl,
    hshared 2 rfl⟩

end Heap

end ScriptTrace
