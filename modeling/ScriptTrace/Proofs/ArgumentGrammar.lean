import Mathlib
import ScriptTrace.Command.Arguments

/-!
# The grammar of the arguments of a trace

A word is an input, a switch, a setting of the iteration cap, or it offends, and then it has one
error. This is said here without the reader of arguments, and `Arguments.parse` is shown to follow
it: it succeeds exactly if no word offends and there is an input, and it fails with the error of the
first word that offends.

Everything comes from what one word does to the arguments read so far. A word that is no input
either changes the options, in the same way whatever the inputs are, or it fails whatever they are;
so words that are no inputs can be moved past inputs.
-/

namespace ScriptTrace

namespace Arguments

/-! ## The grammar -/

/-- Whether a text spells a number: one or more decimal digits after an optional plus sign. -/
def Spells (text : String) (n : Nat) : Prop :=
  ∃ sign ∈ [[], ['+']], ∃ digits : List Nat, digits ≠ [] ∧ (∀ d ∈ digits, d < 10) ∧
    text.toList = sign ++ digits.map Nat.digitChar ∧ n = Nat.ofDigits 10 digits.reverse

/-- Whether a word is an input: `-`, or anything that does not start with a minus sign. -/
def IsInput (word : String) : Prop := word = "-" ∨ ¬['-'] <+: word.toList

instance : DecidablePred IsInput := fun word ↦
  inferInstanceAs (Decidable (word = "-" ∨ ¬['-'] <+: word.toList))

/-- The options without a value. -/
def switches : List String := ["--dedup", "--no-swap-detection", "--keep-partial", "--pretty"]

/-- Whether a word gives the iteration cap some value. -/
def GivesCap (word value : String) : Prop := word = "--max-iterations=" ++ value

/-- Whether a word sets the iteration cap to a number of 32 bits. -/
def SetsCap (word : String) (cap : Nat) : Prop :=
  ∃ value, GivesCap word value ∧ Spells value cap ∧ cap ≤ 4294967295

/-- Whether a word is an input or an option. -/
def Admissible (word : String) : Prop :=
  IsInput word ∨ word ∈ switches ∨ ∃ cap, SetsCap word cap

/-- Whether a word is neither an input nor an option, and which error it is. -/
inductive Offends (word : String) : CommandError → Prop
  | invalidCap {value : String} (hgives : GivesCap word value) (hcap : ∀ cap, ¬SetsCap word cap) :
    Offends word (.invalidFlag "--max-iterations" value)
  | unknown (hinput : ¬IsInput word) (hswitch : word ∉ switches)
    (hgives : ∀ value, ¬GivesCap word value) : Offends word (.unknownOption word)

/-- Whether an error is that of the first of some words that offends. -/
def FirstOffence (words : List String) (e : CommandError) : Prop :=
  ∃ before word after, words = before ++ word :: after ∧ (∀ w ∈ before, Admissible w) ∧
    Offends word e

/-- Whether a number is the cap that the last of some words sets that gives one, or the standard
cap if there is none. -/
def LastCap (words : List String) (cap : Nat) : Prop :=
  (∃ before word after, words = before ++ word :: after ∧ SetsCap word cap ∧
    ∀ w ∈ after, ∀ value, ¬GivesCap w value) ∨
  (∀ w ∈ words, ∀ value, ¬GivesCap w value) ∧ cap = 1000

/-- Whether in some options each switch is set that is among some words, and no other. -/
structure Switched (words : List String) (o : Options) : Prop where
  policy : o.config.policy = if "--dedup" ∈ words then .skipRepeats else .keepAll
  swapDetection : o.config.swapDetection = decide ("--no-swap-detection" ∉ words)
  keepPartial : o.keepPartial = decide ("--keep-partial" ∈ words)
  pretty : o.pretty = decide ("--pretty" ∈ words)

/-- Whether arguments are those that some words ask for. -/
structure Describes (words : List String) (a : Arguments) : Prop where
  inputs : a.inputs = words.filter (IsInput ·)
  switched : Switched words a.options
  cap : LastCap words a.options.config.iterationCap

/-! ## Reading numbers -/

theorem digitChar_toNat_sub {c : Char} (hc : c.isDigit = true) :
    Nat.digitChar (c.toNat - '0'.toNat) = c := by
  rw [Char.isDigit_iff_toNat] at hc
  obtain ⟨hlow, hhigh⟩ : 48 ≤ c.toNat ∧ c.toNat ≤ 57 := hc
  have hdigit : (Nat.digitChar (c.toNat - 48)).toNat = 48 + (c.toNat - 48) :=
    Nat.toNat_digitChar_of_lt_ten (by omega)
  exact Char.toNat_inj.mp (hdigit.trans (by omega))

/-- Digits that are read one after the other make up the number that they denote. -/
theorem foldl_digitChar {digits : List Nat} (hdigits : ∀ d ∈ digits, d < 10) :
    (digits.map Nat.digitChar).foldl (fun n c ↦ n * 10 + (c.toNat - '0'.toNat)) 0 =
      Nat.ofDigits 10 digits.reverse := by
  induction digits using List.reverseRecOn with
  | nil => rfl
  | append_singleton digits d ih =>
    obtain ⟨hbefore, hd⟩ := List.forall_mem_append.mp hdigits
    have hvalue : (Nat.digitChar d).toNat - '0'.toNat = d :=
      Nat.toNat_digitChar_sub_48_of_lt_ten (hd d List.mem_cons_self)
    rw [List.map_append, List.foldl_append, ih hbefore, List.map_singleton, List.foldl_cons,
      List.foldl_nil, hvalue, List.reverse_append, List.reverse_singleton, List.singleton_append,
      Nat.ofDigits_cons, mul_comm, add_comm]

theorem digitsValue?_eq_some_iff {cs : List Char} {n : Nat} : digitsValue? cs = some n ↔
    ∃ digits : List Nat, digits ≠ [] ∧ (∀ d ∈ digits, d < 10) ∧ cs = digits.map Nat.digitChar ∧
      n = Nat.ofDigits 10 digits.reverse := by
  constructor
  · intro h
    rw [digitsValue?] at h
    split at h
    · cases h
    · rename_i hne
      split at h
      · rename_i hall
        have hall : ∀ c ∈ cs, c.isDigit = true := List.all_eq_true.mp hall
        have hdigits : ∀ d ∈ cs.map (fun c ↦ c.toNat - '0'.toNat), d < 10 := by
          intro d hd
          obtain ⟨c, hc, rfl⟩ := List.mem_map.mp hd
          have hhigh : c.toNat ≤ 57 := (Char.isDigit_iff_toNat.mp (hall c hc)).2
          show c.toNat - 48 < 10
          omega
        have hcs : cs = (cs.map fun c ↦ c.toNat - '0'.toNat).map Nat.digitChar := by
          rw [List.map_map]
          exact (List.map_id'' (fun c ↦ rfl) cs).symm.trans
            (List.map_congr_left fun c hc ↦ (digitChar_toNat_sub (hall c hc)).symm)
        refine ⟨_, ?_, hdigits, hcs, ?_⟩
        · simpa using hne
        · rw [← foldl_digitChar hdigits, ← hcs]
          exact (Option.some.inj h).symm
      · cases h
  · rintro ⟨digits, hne, hdigits, rfl, rfl⟩
    have hall : (digits.map Nat.digitChar).all Char.isDigit = true := by
      simpa [Nat.isDigit_digitChar] using hdigits
    rw [digitsValue?, if_neg (by simpa using hne), if_pos hall, foldl_digitChar hdigits]

/-- The digits of a text without a plus sign are all of it. -/
theorem spells_iff_of_ne_plus {text : String} {n : Nat} (htext : ∀ cs, text.toList ≠ '+' :: cs) :
    Spells text n ↔ digitsValue? text.toList = some n := by
  rw [Spells, digitsValue?_eq_some_iff]
  constructor
  · rintro ⟨sign, hsign, digits, hne, hdigits, heq, hn⟩
    rcases List.mem_pair.mp hsign with rfl | rfl
    · exact ⟨digits, hne, hdigits, heq, hn⟩
    · exact absurd heq (htext _)
  · rintro ⟨digits, hne, hdigits, heq, hn⟩
    exact ⟨[], List.mem_cons_self, digits, hne, hdigits, heq, hn⟩

/-- The digits of a text with a plus sign are what follows it, since no digit is a plus sign. -/
theorem spells_iff_of_plus {text : String} {cs : List Char} {n : Nat}
    (htext : text.toList = '+' :: cs) : Spells text n ↔ digitsValue? cs = some n := by
  rw [Spells, digitsValue?_eq_some_iff, htext]
  constructor
  · rintro ⟨sign, hsign, digits, hne, hdigits, heq, hn⟩
    rcases List.mem_pair.mp hsign with rfl | rfl
    · obtain ⟨d, rest, rfl⟩ := List.exists_cons_of_ne_nil hne
      exact absurd (List.cons.inj heq).1.symm (Nat.digitChar_ne '+' (by decide))
    · exact ⟨digits, hne, hdigits, (List.cons.inj heq).2, hn⟩
  · rintro ⟨digits, hne, hdigits, rfl, hn⟩
    exact ⟨['+'], by simp, digits, hne, hdigits, rfl, hn⟩

/-- Read as a cap is what spells a number of 32 bits. -/
theorem cap?_eq_some_iff {text : String} {cap : Nat} :
    cap? text = some cap ↔ Spells text cap ∧ cap ≤ 4294967295 := by
  have hbound (n : Nat) : (do guard (n < UInt32.size); return n : Option Nat) = some cap ↔
      n = cap ∧ cap ≤ 4294967295 := by
    have hsize : n < UInt32.size ↔ n ≤ 4294967295 := Nat.lt_succ_iff
    by_cases hn : n < UInt32.size
    · have hle := hsize.mp hn
      simp only [guard, if_pos hn]
      show some n = some cap ↔ _
      rw [Option.some_inj]
      grind
    · have hlt := mt hsize.mpr hn
      simp only [guard, if_neg hn]
      show none = some cap ↔ _
      grind
  have hread {digits : List Char} (hspells : Spells text cap ↔ digitsValue? digits = some cap) :
      (∃ n, digitsValue? digits = some n ∧ n = cap ∧ cap ≤ 4294967295) ↔
        Spells text cap ∧ cap ≤ 4294967295 := by
    rw [hspells]
    constructor
    · rintro ⟨n, hn, rfl, hle⟩
      exact ⟨hn, hle⟩
    · rintro ⟨hn, hle⟩
      exact ⟨cap, hn, rfl, hle⟩
  rw [cap?, Option.bind_eq_bind, Option.bind_eq_some_iff]
  simp only [hbound]
  split
  · rename_i htext
    exact hread (spells_iff_of_plus htext)
  · rename_i htext
    exact hread (spells_iff_of_ne_plus htext)

/-! ## Reading one word -/

theorem after?_eq_some_iff {start text rest : String} :
    after? start text = some rest ↔ text = start ++ rest := by
  rw [after?]
  split
  · rename_i hpart
    rw [List.isPrefixOf_iff_prefix, List.prefix_iff_eq_append] at hpart
    constructor
    · intro h
      rw [← Option.some.inj h, ← String.toList_inj, String.toList_append, String.toList_ofList,
        hpart]
    · rintro rfl
      rw [String.toList_append, List.drop_left, String.ofList_toList]
  · rename_i hpart
    constructor
    · intro h
      cases h
    · rintro rfl
      refine absurd ?_ hpart
      rw [List.isPrefixOf_iff_prefix, String.toList_append]
      exact List.prefix_append _ _

variable {word value : String}

theorem after?_capFlag : after? (capFlag ++ "=") word = some value ↔ GivesCap word value := by
  have hflag : capFlag ++ "=" = "--max-iterations=" := by decide
  rw [after?_eq_some_iff, hflag, GivesCap]

theorem after?_capFlag_eq_none (hgives : ∀ value, ¬GivesCap word value) :
    after? (capFlag ++ "=") word = none :=
  Option.eq_none_iff_forall_not_mem.mpr fun value hvalue ↦ hgives value (after?_capFlag.mp hvalue)

theorem isInput_iff : isInput word = true ↔ IsInput word := by
  rw [isInput, Bool.or_eq_true, beq_iff_eq, bne_iff_ne, IsInput, Input.stdin]
  cases word.toList with
  | nil => simp
  | cons c cs => simp [eq_comm]

/-- What gives the cap starts with two minus signs. -/
theorem GivesCap.not_isInput (hgives : GivesCap word value) : ¬IsInput word := by
  have htext : word.toList = '-' :: '-' :: ("max-iterations=".toList ++ value.toList) := by
    rw [hgives, String.toList_append]
    rfl
  rintro (rfl | hstart)
  · cases htext
  · rw [htext] at hstart
    exact hstart ⟨_, rfl⟩

theorem not_isInput_of_mem_switches (hswitch : word ∈ switches) : ¬IsInput word := by
  revert word
  decide

theorem not_givesCap_of_mem_switches (hswitch : word ∈ switches) (value : String) :
    ¬GivesCap word value := by
  have hnone : ∀ w ∈ switches, after? (capFlag ++ "=") w = none := by decide
  intro hgives
  rw [← after?_capFlag, hnone word hswitch] at hgives
  cases hgives

/-- A word is an input or an option, or it has an error. -/
theorem admissible_or_offends (word : String) : Admissible word ∨ ∃ e, Offends word e := by
  by_cases hgives : ∃ value, GivesCap word value
  · obtain ⟨value, hgives⟩ := hgives
    by_cases hcap : ∃ cap, SetsCap word cap
    · exact .inl (.inr (.inr hcap))
    · exact .inr ⟨_, .invalidCap hgives (not_exists.mp hcap)⟩
  · by_cases hinput : IsInput word
    · exact .inl (.inl hinput)
    · by_cases hswitch : word ∈ switches
      · exact .inl (.inr (.inl hswitch))
      · exact .inr ⟨_, .unknown hinput hswitch (not_exists.mp hgives)⟩

/-! ## Adding one word -/

section Add

variable (a : Arguments)

/-- A word that is no option is an input or unknown. -/
theorem add_of_not_option (hswitch : word ∉ switches) (hgives : ∀ value, ¬GivesCap word value) :
    add a word = if isInput word then .ok { a with inputs := a.inputs ++ [word] }
      else .error (.unknownOption word) := by
  rw [add.eq_def, after?_capFlag_eq_none hgives]
  split
  · cases ‹none = some _›
  · split
    · exact absurd (by decide) hswitch
    · exact absurd (by decide) hswitch
    · exact absurd (by decide) hswitch
    · exact absurd (by decide) hswitch
    · rfl

theorem add_of_isInput (hinput : IsInput word) :
    add a word = .ok { a with inputs := a.inputs ++ [word] } := by
  rw [add_of_not_option a (fun hmem ↦ not_isInput_of_mem_switches hmem hinput)
    fun value hgives ↦ hgives.not_isInput hinput, if_pos (isInput_iff.mpr hinput)]

theorem add_of_setsCap {cap : Nat} (hcap : SetsCap word cap) : add a word =
    .ok { a with options.config.iterationCap := cap } := by
  obtain ⟨value, hgives, hspells⟩ := hcap
  rw [add.eq_def, after?_capFlag.mpr hgives]
  simp only [cap?_eq_some_iff.mpr hspells]

theorem add_of_offends {e : CommandError} (hoffends : Offends word e) : add a word = .error e := by
  cases hoffends with
  | @invalidCap value hgives hcap =>
    have hnone : cap? value = none := Option.eq_none_iff_forall_not_mem.mpr fun cap hvalue ↦
      hcap cap ⟨value, hgives, cap?_eq_some_iff.mp hvalue⟩
    rw [add.eq_def, after?_capFlag.mpr hgives]
    simp only [hnone]
    rfl
  | unknown hinput hswitch hgives =>
    rw [add_of_not_option a hswitch hgives, if_neg (mt isInput_iff.mp hinput)]

/-- A word that is no input changes the options in a way of its own, or it fails with an error of
its own. -/
theorem add_of_not_isInput (hinput : ¬IsInput word) :
    (∃ change : Options → Options, ∀ a, add a word = .ok { a with options := change a.options }) ∨
      ∃ e, ∀ a, add a word = .error e := by
  rcases admissible_or_offends word with (hinput' | hswitch | ⟨cap, hcap⟩) | ⟨e, hoffends⟩
  · exact absurd hinput' hinput
  · left
    simp only [switches, List.mem_cons, List.not_mem_nil, or_false] at hswitch
    rcases hswitch with rfl | rfl | rfl | rfl
    · exact ⟨fun o ↦ { o with config.policy := .skipRepeats }, fun a ↦ rfl⟩
    · exact ⟨fun o ↦ { o with config.swapDetection := false }, fun a ↦ rfl⟩
    · exact ⟨fun o ↦ { o with keepPartial := true }, fun a ↦ rfl⟩
    · exact ⟨fun o ↦ { o with pretty := true }, fun a ↦ rfl⟩
  · exact .inl ⟨fun o ↦ { o with config.iterationCap := cap }, fun a ↦ add_of_setsCap a hcap⟩
  · exact .inr ⟨e, fun a ↦ add_of_offends a hoffends⟩

end Add

/-! ## Moving options past inputs -/

/-- Arguments with more inputs. -/
def addInputs (inputs : List String) (a : Arguments) : Arguments :=
  { a with inputs := a.inputs ++ inputs }

/-- Options do the same after some inputs as before them. -/
theorem foldlM_add_addInputs {options : List String} (hoptions : ∀ w ∈ options, ¬IsInput w)
    (inputs : List String) (a : Arguments) :
    options.foldlM add (a.addInputs inputs) = addInputs inputs <$> options.foldlM add a := by
  induction options generalizing a with
  | nil => rfl
  | cons w rest ih =>
    have hrest := ih fun v hv ↦ hoptions v (List.mem_cons_of_mem w hv)
    rw [List.foldlM_cons, List.foldlM_cons]
    rcases add_of_not_isInput (hoptions w List.mem_cons_self) with ⟨change, hchange⟩ | ⟨e, herror⟩
    · rw [hchange, hchange]
      exact hrest { a with options := change a.options }
    · rw [herror, herror]
      rfl

/-- Words can be read as if the options came first and then the inputs. -/
theorem foldlM_add (words : List String) (a : Arguments) : words.foldlM add a =
    addInputs (words.filter (IsInput ·)) <$> (words.filter (¬IsInput ·)).foldlM add a := by
  induction words generalizing a with
  | nil => simp [addInputs]
  | cons w rest ih =>
    by_cases hinput : IsInput w
    · have hoptions : ∀ v ∈ rest.filter (¬IsInput ·), ¬IsInput v := by simp
      have hadd : add a w = .ok (a.addInputs [w]) := add_of_isInput a hinput
      have hinputs (b : Arguments) : (b.addInputs [w]).addInputs (rest.filter (IsInput ·)) =
          b.addInputs (w :: rest.filter (IsInput ·)) := by simp [addInputs]
      rw [List.foldlM_cons, hadd, List.filter_cons_of_pos (by simpa using hinput),
        List.filter_cons_of_neg (by simpa using hinput)]
      refine (ih (a.addInputs [w])).trans ?_
      rw [foldlM_add_addInputs hoptions]
      cases (rest.filter (¬IsInput ·)).foldlM add a with
      | error e => rfl
      | ok b => exact congrArg Except.ok (hinputs b)
    · rw [List.foldlM_cons, List.filter_cons_of_neg (by simpa using hinput),
        List.filter_cons_of_pos (by simpa using hinput), List.foldlM_cons]
      rcases add_of_not_isInput hinput with ⟨change, hchange⟩ | ⟨e, herror⟩
      · rw [hchange]
        exact ih { a with options := change a.options }
      · rw [herror]
        rfl

/-- Only the order of the inputs and the order of the options count. -/
theorem parse_congr {words words' : List String}
    (hinputs : words'.filter (IsInput ·) = words.filter (IsInput ·))
    (hoptions : words'.filter (¬IsInput ·) = words.filter (¬IsInput ·)) :
    parse words' = parse words := by
  rw [parse, parse, foldlM_add words', foldlM_add words, hinputs, hoptions]

/-! ## Reading all words -/

section Words

variable {words : List String} {cap : Nat}

theorem LastCap.concat (hlast : LastCap words cap) (hgives : ∀ value, ¬GivesCap word value) :
    LastCap (words ++ [word]) cap := by
  have hword : ∀ w ∈ [word], ∀ value, ¬GivesCap w value := by
    simpa using hgives
  rcases hlast with ⟨before, w, after, rfl, hcap, hafter⟩ | ⟨hnone, rfl⟩
  · refine .inl ⟨before, w, after ++ [word], by simp, hcap, ?_⟩
    exact List.forall_mem_append.mpr ⟨hafter, hword⟩
  · exact .inr ⟨List.forall_mem_append.mpr ⟨hnone, hword⟩, rfl⟩

theorem SetsCap.lastCap (hcap : SetsCap word cap) (words : List String) :
    LastCap (words ++ [word]) cap :=
  .inl ⟨words, word, [], rfl, hcap, by simp⟩

/-- A word that is no switch leaves all switches as they are. -/
theorem Switched.concat {o : Options} (h : Switched words o) (hswitch : word ∉ switches)
    (cap : Nat) : Switched (words ++ [word]) { o with config.iterationCap := cap } := by
  have hmem {s : String} (hs : s ∈ switches) : s ∈ words ++ [word] ↔ s ∈ words := by
    rw [List.mem_append, List.mem_singleton, or_iff_left]
    rintro rfl
    exact hswitch hs
  constructor
  · rw [h.policy, if_congr (hmem (by decide)) rfl rfl]
  · rw [h.swapDetection, decide_eq_decide, hmem (by decide)]
  · rw [h.keepPartial, decide_eq_decide, hmem (by decide)]
  · rw [h.pretty, decide_eq_decide, hmem (by decide)]

/-- One more word that does not offend is read as it should be. -/
theorem Describes.concat {a : Arguments} (h : Describes words a) (hword : Admissible word) :
    ∃ a', add a word = .ok a' ∧ Describes (words ++ [word]) a' := by
  have hkept (hinput : ¬IsInput word) : a.inputs = (words ++ [word]).filter (IsInput ·) := by
    simp [h.inputs, List.filter_append, hinput]
  rcases hword with hinput | hswitch | ⟨cap, hsets⟩
  · have hswitch : word ∉ switches := fun hmem ↦ not_isInput_of_mem_switches hmem hinput
    refine ⟨_, add_of_isInput a hinput, ?_, h.switched.concat hswitch _, ?_⟩
    · simp [h.inputs, List.filter_append, hinput]
    · exact h.cap.concat fun value hgives ↦ hgives.not_isInput hinput
  · have hinputs := hkept (not_isInput_of_mem_switches hswitch)
    have hcap := h.cap.concat (not_givesCap_of_mem_switches hswitch)
    obtain ⟨hpolicy, hswap, hpartial, hpretty⟩ := h.switched
    simp only [switches, List.mem_cons, List.not_mem_nil, or_false] at hswitch
    rcases hswitch with rfl | rfl | rfl | rfl
    · refine ⟨_, rfl, hinputs, ⟨?_, ?_, ?_, ?_⟩, hcap⟩ <;> simp [hswap, hpartial, hpretty]
    · refine ⟨_, rfl, hinputs, ⟨?_, ?_, ?_, ?_⟩, hcap⟩ <;> simp [hpolicy, hpartial, hpretty]
    · refine ⟨_, rfl, hinputs, ⟨?_, ?_, ?_, ?_⟩, hcap⟩ <;> simp [hpolicy, hswap, hpretty]
    · refine ⟨_, rfl, hinputs, ⟨?_, ?_, ?_, ?_⟩, hcap⟩ <;> simp [hpolicy, hswap, hpartial]
  · obtain ⟨value, hgives, hspells⟩ := hsets
    have hsets : SetsCap word cap := ⟨value, hgives, hspells⟩
    have hswitch : word ∉ switches := fun hmem ↦ not_givesCap_of_mem_switches hmem value hgives
    exact ⟨_, add_of_setsCap a hsets, hkept hgives.not_isInput, h.switched.concat hswitch cap,
      hsets.lastCap words⟩

/-- Words that do not offend are read as they should be. -/
theorem exists_foldlM_add (hwords : ∀ w ∈ words, Admissible w) :
    ∃ a, words.foldlM add ⟨[], .standard⟩ = .ok a ∧ Describes words a := by
  induction words using List.reverseRecOn with
  | nil => exact ⟨_, rfl, rfl, ⟨rfl, rfl, rfl, rfl⟩, .inr ⟨by simp, rfl⟩⟩
  | append_singleton words w ih =>
    obtain ⟨hbefore, hw⟩ := List.forall_mem_append.mp hwords
    obtain ⟨a, hread, hdescribes⟩ := ih hbefore
    obtain ⟨a', hadd, hdescribes'⟩ := hdescribes.concat (hw w List.mem_cons_self)
    refine ⟨a', ?_, hdescribes'⟩
    rw [List.foldlM_append, hread]
    exact (bind_pure _).trans hadd

/-- The first word that offends is the error. -/
theorem FirstOffence.foldlM_add {e : CommandError} (hfirst : FirstOffence words e) :
    words.foldlM add ⟨[], .standard⟩ = .error e := by
  obtain ⟨before, w, after, rfl, hbefore, hoffends⟩ := hfirst
  obtain ⟨a, hread, -⟩ := exists_foldlM_add hbefore
  rw [List.foldlM_append, hread]
  show (add a w >>= fun b ↦ after.foldlM add b) = .error e
  rw [add_of_offends a hoffends]
  rfl

theorem admissible_or_firstOffence (words : List String) :
    (∀ w ∈ words, Admissible w) ∨ ∃ e, FirstOffence words e := by
  induction words with
  | nil => exact .inl fun w hw ↦ absurd hw List.not_mem_nil
  | cons w rest ih =>
    rcases admissible_or_offends w with hw | ⟨e, hoffends⟩
    · rcases ih with hrest | ⟨e, before, v, after, rfl, hbefore, hoffends⟩
      · exact .inl (List.forall_mem_cons.mpr ⟨hw, hrest⟩)
      · exact .inr ⟨e, w :: before, v, after, rfl, List.forall_mem_cons.mpr ⟨hw, hbefore⟩, hoffends⟩
    · exact .inr ⟨e, [], w, rest, rfl, by simp, hoffends⟩

theorem FirstOffence.parse_eq {e : CommandError} (hfirst : FirstOffence words e) :
    parse words = .error e := by
  rw [parse, hfirst.foldlM_add]
  rfl

/-- Without an offending word, all that can be missing is an input. -/
theorem exists_parse_eq (hwords : ∀ w ∈ words, Admissible w) : ∃ a, Describes words a ∧
    parse words = if ∃ w ∈ words, IsInput w then .ok a else .error .missingInput := by
  obtain ⟨a, hread, hdescribes⟩ := exists_foldlM_add hwords
  refine ⟨a, hdescribes, ?_⟩
  have hempty : a.inputs.isEmpty = true ↔ ¬∃ w ∈ words, IsInput w := by
    simp [hdescribes.inputs]
  have hchecked : parse words = if a.inputs.isEmpty then .error .missingInput else .ok a := by
    rw [parse, hread]
    cases hinputs : a.inputs.isEmpty with
    | false => simp [hinputs, bind, Except.bind, pure, Except.pure]
    | true => simp [hinputs, bind, Except.bind, throw, throwThe, MonadExceptOf.throw]
  by_cases hinput : ∃ w ∈ words, IsInput w
  · rw [hchecked, if_neg (mt hempty.mp (not_not.mpr hinput)), if_pos hinput]
  · rw [hchecked, if_pos (hempty.mpr hinput), if_neg hinput]

theorem describes_of_parse {a : Arguments} (hparse : parse words = .ok a) :
    (∃ w ∈ words, IsInput w) ∧ (∀ w ∈ words, Admissible w) ∧ Describes words a := by
  rcases admissible_or_firstOffence words with hwords | ⟨e, hfirst⟩
  · obtain ⟨a', hdescribes, heq⟩ := exists_parse_eq hwords
    by_cases hinput : ∃ w ∈ words, IsInput w
    · rw [heq, if_pos hinput] at hparse
      cases hparse
      exact ⟨hinput, hwords, hdescribes⟩
    · rw [heq, if_neg hinput] at hparse
      cases hparse
  · rw [hfirst.parse_eq] at hparse
    cases hparse

theorem parse_eq_error_iff {e : CommandError} : parse words = .error e ↔
    FirstOffence words e ∨
      e = .missingInput ∧ (∀ w ∈ words, Admissible w) ∧ ∀ w ∈ words, ¬IsInput w := by
  constructor
  · intro hparse
    rcases admissible_or_firstOffence words with hwords | ⟨e', hfirst⟩
    · obtain ⟨a, -, heq⟩ := exists_parse_eq hwords
      by_cases hinput : ∃ w ∈ words, IsInput w
      · rw [heq, if_pos hinput] at hparse
        cases hparse
      · rw [heq, if_neg hinput] at hparse
        cases hparse
        exact .inr ⟨rfl, hwords, fun w hw hword ↦ hinput ⟨w, hw, hword⟩⟩
    · rw [hfirst.parse_eq] at hparse
      cases hparse
      exact .inl hfirst
  · rintro (hfirst | ⟨rfl, hwords, hnone⟩)
    · exact hfirst.parse_eq
    · obtain ⟨a, -, heq⟩ := exists_parse_eq hwords
      have hinput : ¬∃ w ∈ words, IsInput w := by
        rintro ⟨w, hw, hword⟩
        exact hnone w hw hword
      rw [heq, if_neg hinput]

end Words

/-- **Arguments are read by their grammar.** For all words:

* they are read exactly if one of them is an input and each is an input or an option;
* the arguments read are the inputs in order, the switches that are there and no others, and the
  last cap that is given, or 1000;
* they fail with the error of the first word that offends, or else with a missing input exactly if
  there is none;
* moving options past inputs changes nothing. -/
theorem parse_follows_grammar (words : List String) :
    ((∃ a, parse words = .ok a) ↔
      (∃ w ∈ words, IsInput w) ∧ ∀ w ∈ words, Admissible w) ∧
    (∀ a, parse words = .ok a → Describes words a) ∧
    (∀ e, parse words = .error e ↔ FirstOffence words e ∨
      e = .missingInput ∧ (∀ w ∈ words, Admissible w) ∧ ∀ w ∈ words, ¬IsInput w) ∧
    ∀ words', words'.filter (IsInput ·) = words.filter (IsInput ·) →
      words'.filter (¬IsInput ·) = words.filter (¬IsInput ·) → parse words' = parse words := by
  refine ⟨⟨?_, ?_⟩, fun a hparse ↦ (describes_of_parse hparse).2.2, fun e ↦ parse_eq_error_iff,
    fun words' ↦ parse_congr⟩
  · rintro ⟨a, hparse⟩
    obtain ⟨hinput, hwords, -⟩ := describes_of_parse hparse
    exact ⟨hinput, hwords⟩
  · rintro ⟨hinput, hwords⟩
    obtain ⟨a, -, heq⟩ := exists_parse_eq hwords
    exact ⟨a, heq.trans (if_pos hinput)⟩

/-- A cap with a sign and zeros in front, given after another, and switches around two inputs: the
same is read with all options in front. -/
theorem parse_follows_grammar_interleaved :
    parse ["a.json", "--max-iterations=7", "--dedup", "-", "--max-iterations=+050"] =
        .ok ⟨["a.json", "-"], ⟨50, .skipRepeats, true⟩, false, false⟩ ∧
      Describes ["a.json", "--max-iterations=7", "--dedup", "-", "--max-iterations=+050"]
        ⟨["a.json", "-"], ⟨50, .skipRepeats, true⟩, false, false⟩ ∧
      parse ["--max-iterations=7", "--dedup", "--max-iterations=+050", "a.json", "-"] =
        .ok ⟨["a.json", "-"], ⟨50, .skipRepeats, true⟩, false, false⟩ := by
  have hparse : parse ["a.json", "--max-iterations=7", "--dedup", "-", "--max-iterations=+050"] =
      .ok ⟨["a.json", "-"], ⟨50, .skipRepeats, true⟩, false, false⟩ := by rfl
  obtain ⟨-, hdescribes, -, hmoved⟩ := parse_follows_grammar
    ["a.json", "--max-iterations=7", "--dedup", "-", "--max-iterations=+050"]
  exact ⟨hparse, hdescribes _ hparse, (hmoved _ (by decide) (by decide)).trans hparse⟩

end Arguments

end ScriptTrace
