import Mathlib.Data.Finset.Card
import Mathlib.Data.List.Sort
import CostlyCalls.Proofs.IdentifierGrammar
import CostlyCalls.Proofs.RuleKeys

/-!
# The order of configured keys

The rules section of a configuration is a finite map, and the order in which its entries come is an
accident. What the section says does not depend on it: neither whether it is refused, nor for which
rule and with which spellings, nor the severity that it gives to a rule. Each of these is described
by the members of the map alone, and the description leaves no choice.
-/

set_option autoImplicit false

namespace CostlyCalls.Config

def Ambiguous (rules : List (String × Setting)) (id : RuleId) : Prop :=
  ∃ a ∈ rules.map Prod.fst, ∃ b ∈ rules.map Prod.fst,
    a ≠ b ∧ RuleId.parse? a = some id ∧ RuleId.parse? b = some id

/-- The report names the smallest rule that two keys denote, and lists all keys that denote it in
the order of their bytes. -/
structure Ambiguity.Reports (ambiguity : Ambiguity) (rules : List (String × Setting)) : Prop where
  ambiguous : Ambiguous rules ambiguity.id
  smallest : ∀ id, Ambiguous rules id → ambiguity.id.number ≤ id.number
  spelled : ∀ key, key ∈ ambiguity.keys ↔
    key ∈ rules.map Prod.fst ∧ RuleId.parse? key = some ambiguity.id
  ordered : ambiguity.keys.Pairwise fun a b => Text.bytes a < Text.bytes b

variable {rules other : List (String × Setting)} {id : RuleId}

theorem bytes_lt_of_denotes {a b : String} (ha : RuleId.parse? a = some id)
    (hb : RuleId.parse? b = some id) : Text.bytes a < Text.bytes b ↔ a < b :=
  Text.bytes_lt_iff (RuleId.parse?_eq_some_iff_spells.1 ha).lt
    (RuleId.parse?_eq_some_iff_spells.1 hb).lt

theorem bytes_le_of_denotes {a b : String} (ha : RuleId.parse? a = some id)
    (hb : RuleId.parse? b = some id) : Text.bytes a ≤ Text.bytes b ↔ a ≤ b :=
  Text.bytes_le_iff (RuleId.parse?_eq_some_iff_spells.1 ha).lt
    (RuleId.parse?_eq_some_iff_spells.1 hb).lt

theorem one_lt_length_denoting_iff (hKeys : (rules.map Prod.fst).Nodup) :
    1 < ((rules.map Prod.fst).filter fun key => RuleId.parse? key = some id).length ↔
      Ambiguous rules id := by
  rw [← List.toFinset_card_of_nodup (hKeys.filter _), Finset.one_lt_card]
  simp only [List.mem_toFinset, List.mem_filter, decide_eq_true_eq]
  constructor
  · rintro ⟨a, ⟨ha, hIdA⟩, b, ⟨hb, hIdB⟩, hNe⟩
    exact ⟨a, ha, b, hb, hNe, hIdA, hIdB⟩
  · rintro ⟨a, ha, b, hb, hNe, hIdA, hIdB⟩
    exact ⟨a, ⟨ha, hIdA⟩, b, ⟨hb, hIdB⟩, hNe⟩

theorem pairwise_mergeSort_of_denotes {keys : List String} (hKeys : keys.Nodup)
    (hDenotes : ∀ key ∈ keys, RuleId.parse? key = some id) :
    (keys.mergeSort (· ≤ ·)).Pairwise fun a b => Text.bytes a < Text.bytes b := by
  have hSorted : (keys.mergeSort (· ≤ ·)).Pairwise fun a b => decide (a ≤ b) = true := by
    apply List.pairwise_mergeSort
    · intro a b c hab hbc
      rw [decide_eq_true_eq] at hab hbc ⊢
      exact Std.le_trans hab hbc
    · intro a b
      rw [Bool.or_eq_true, decide_eq_true_eq, decide_eq_true_eq]
      exact Std.le_total
  refine (hSorted.and (List.nodup_mergeSort.2 hKeys)).imp_of_mem ?_
  rintro a b ha hb ⟨hLe, hNe⟩
  rw [List.mem_mergeSort] at ha hb
  rw [bytes_lt_of_denotes (hDenotes a ha) (hDenotes b hb)]
  exact Std.lt_of_le_of_ne (of_decide_eq_true hLe) hNe

theorem reports_of_ambiguity? (hKeys : (rules.map Prod.fst).Nodup) {ambiguity : Ambiguity}
    (hAmbiguity : ambiguity? rules = some ambiguity) : ambiguity.Reports rules := by
  obtain ⟨group, hFind, rfl⟩ := Option.map_eq_some_iff.1 hAmbiguity
  obtain ⟨hMany, before, after, hGroups, hBefore⟩ := List.find?_eq_some_iff_append.1 hFind
  have hGrouped := Grouped.spellings (rules.map Prod.fst)
  have hOwn := hGrouped.keys_of_mem (List.mem_of_find?_eq_some hFind)
  have hOrdered := hGrouped.ordered
  rw [hGroups, List.pairwise_append, List.pairwise_cons] at hOrdered
  refine ⟨?_, ?_, ?_, ?_⟩
  · rw [← one_lt_length_denoting_iff hKeys, ← hOwn]
    exact of_decide_eq_true hMany
  · -- A rule with several keys has a group, and it is none of those before the first such group.
    intro id hId
    have hSeveral := (one_lt_length_denoting_iff hKeys).2 hId
    obtain ⟨key, hKey, -, -, -, hDenotes, -⟩ := hId
    have hGroup := hGrouped.exists_mem_of_denotes hKey hDenotes
    rw [hGroups, List.mem_append, List.mem_cons] at hGroup
    rcases hGroup with hEarlier | rfl | hLater
    · have hFew := hBefore _ hEarlier
      simp [hSeveral] at hFew
    · exact Std.le_refl _
    · exact Std.le_of_lt (hOrdered.2.1.1 _ hLater)
  · intro key
    rw [List.mem_mergeSort, hOwn, List.mem_filter, decide_eq_true_eq]
  · rw [hOwn]
    apply pairwise_mergeSort_of_denotes (hKeys.filter _)
    intro key hKey
    exact of_decide_eq_true (List.mem_filter.1 hKey).2

theorem exists_ambiguity?_iff (hKeys : (rules.map Prod.fst).Nodup) :
    (∃ ambiguity, ambiguity? rules = some ambiguity) ↔ ∃ id, Ambiguous rules id := by
  constructor
  · rintro ⟨ambiguity, hAmbiguity⟩
    exact ⟨_, (reports_of_ambiguity? hKeys hAmbiguity).ambiguous⟩
  · rintro ⟨id, hId⟩
    rw [← Option.ne_none_iff_exists']
    intro hNone
    have hFew := ambiguity?_eq_none_iff.1 hNone id
    rw [length_denoting] at hFew
    have hSeveral := (one_lt_length_denoting_iff hKeys).2 hId
    omega

theorem Ambiguity.Reports.unique {a b : Ambiguity} (ha : a.Reports rules) (hb : b.Reports rules) :
    a = b := by
  have hNumber : a.id.number = b.id.number :=
    Std.le_antisymm (ha.smallest b.id hb.ambiguous) (hb.smallest a.id ha.ambiguous)
  have hId : a.id = b.id := by
    rw [← RuleId.mk.injEq] at hNumber
    exact hNumber
  have hIrrefl : Std.Irrefl fun x y : String => Text.bytes x < Text.bytes y :=
    ⟨fun _ => Std.lt_irrefl⟩
  have hAntisymm : Std.Antisymm fun x y : String => Text.bytes x < Text.bytes y :=
    ⟨fun _ _ hLess hGreater => absurd (Std.lt_trans hLess hGreater) Std.lt_irrefl⟩
  have hKeys : a.keys = b.keys := by
    apply ha.ordered.eq_of_mem_iff hb.ordered
    intro key
    rw [ha.spelled, hb.spelled, hId]
  cases a
  cases b
  cases hId
  cases hKeys
  rfl

theorem ambiguity?_eq_some_iff (hKeys : (rules.map Prod.fst).Nodup) {ambiguity : Ambiguity} :
    ambiguity? rules = some ambiguity ↔ ambiguity.Reports rules := by
  refine ⟨reports_of_ambiguity? hKeys, fun hReports => ?_⟩
  obtain ⟨other, hOther⟩ := (exists_ambiguity?_iff hKeys).2 ⟨_, hReports.ambiguous⟩
  rw [hOther, hReports.unique (reports_of_ambiguity? hKeys hOther)]

theorem validate_eq_error_iff {config : Config} {ambiguity : Ambiguity} :
    config.validate.value = .error ambiguity ↔ ambiguity? config.rules = some ambiguity := by
  unfold validate
  dsimp only
  split
  · next other hOther => simp [hOther]
  · next hNone => simp [hNone]

theorem validate_eq_ok_iff {config : Config} :
    config.validate.value = .ok config ↔ ambiguity? config.rules = none := by
  unfold validate
  dsimp only
  split
  · next other hOther => simp [hOther]
  · next hNone => simp [hNone]

theorem Ambiguity.Reports.perm {ambiguity : Ambiguity} (hReports : ambiguity.Reports rules)
    (hOrder : rules.Perm other) : ambiguity.Reports other := by
  have hMem : ∀ key, key ∈ rules.map Prod.fst ↔ key ∈ other.map Prod.fst :=
    fun key => (hOrder.map Prod.fst).mem_iff
  have hAmbiguous : ∀ id, Ambiguous rules id ↔ Ambiguous other id := by
    intro id
    simp only [Ambiguous, hMem]
  refine ⟨(hAmbiguous _).1 hReports.ambiguous, ?_, ?_, hReports.ordered⟩
  · intro id hId
    exact hReports.smallest id ((hAmbiguous id).2 hId)
  · intro key
    rw [hReports.spelled, hMem]

/-- The severity that the rules section gives to a rule: that of the entry whose key has the
smallest bytes among those that denote the rule, and the default if there is none. -/
inductive Resolves (config : Config) (id : RuleId) (default : Severity) : Option Severity → Prop
  | configured {key : String} {setting : Setting} (hEntry : (key, setting) ∈ config.rules)
    (hDenotes : RuleId.parse? key = some id)
    (hSmallest : ∀ other ∈ config.rules, RuleId.parse? other.1 = some id →
      Text.bytes key ≤ Text.bytes other.1) : Resolves config id default setting.severity?
  | unset (hNone : ∀ entry ∈ config.rules, RuleId.parse? entry.1 ≠ some id) :
    Resolves config id default (some default)

def SameEntries (config changed : Config) (id : RuleId) : Prop :=
  ∀ entry, RuleId.parse? entry.1 = some id → (entry ∈ config.rules ↔ entry ∈ changed.rules)

section Resolution

variable {config changed : Config} {default : Severity} {first second : Option Severity}

theorem resolves_severity? (config : Config) (id : RuleId) (default : Severity) :
    config.Resolves id default (config.severity? id default) := by
  unfold severity?
  split
  · next setting hSetting =>
    obtain ⟨key, hDecides⟩ := exists_decides_of_setting? hSetting
    refine .configured hDecides.entry hDecides.denotes ?_
    intro other hOther hSame
    rw [bytes_le_of_denotes hDecides.denotes hSame]
    exact hDecides.smallest other hOther hSame
  · next hNone => exact .unset (setting?_eq_none_iff.1 hNone)

theorem Resolves.unique (hKeys : (config.rules.map Prod.fst).Nodup)
    (hFirst : config.Resolves id default first) (hSecond : config.Resolves id default second) :
    first = second := by
  cases hFirst with
  | unset hNone =>
    cases hSecond with
    | unset => rfl
    | configured hEntry hDenotes => exact absurd hDenotes (hNone _ hEntry)
  | configured hEntry hDenotes hSmallest =>
    cases hSecond with
    | unset hNone => exact absurd hDenotes (hNone _ hEntry)
    | configured hOther hSame hLeast =>
      have hLe := (bytes_le_of_denotes hDenotes hSame).1 (hSmallest _ hOther hSame)
      have hGe := (bytes_le_of_denotes hSame hDenotes).1 (hLeast _ hEntry hDenotes)
      have hEq := List.inj_on_of_nodup_map hKeys hEntry hOther (Std.le_antisymm hLe hGe)
      cases hEq
      rfl

theorem severity?_eq_iff (hKeys : (config.rules.map Prod.fst).Nodup) :
    config.severity? id default = first ↔ config.Resolves id default first := by
  constructor
  · rintro rfl
    exact resolves_severity? config id default
  · exact (resolves_severity? config id default).unique hKeys

theorem Resolves.of_sameEntries (hResolves : config.Resolves id default first)
    (hSame : config.SameEntries changed id) : changed.Resolves id default first := by
  cases hResolves with
  | configured hEntry hDenotes hSmallest =>
    refine .configured ((hSame _ hDenotes).1 hEntry) hDenotes ?_
    intro other hOther hDenotesToo
    exact hSmallest other ((hSame other hDenotesToo).2 hOther) hDenotesToo
  | unset hNone =>
    refine .unset ?_
    intro entry hEntry hDenotes
    exact hNone entry ((hSame entry hDenotes).2 hEntry) hDenotes

theorem severity?_of_sameEntries (hKeys : (changed.rules.map Prod.fst).Nodup)
    (hSame : config.SameEntries changed id) :
    changed.severity? id default = config.severity? id default :=
  (severity?_eq_iff hKeys).2 ((resolves_severity? config id default).of_sameEntries hSame)

theorem sameEntries_of_perm (hOrder : config.rules.Perm changed.rules) (id : RuleId) :
    config.SameEntries changed id :=
  fun _ _ => hOrder.mem_iff

end Resolution

/-- The rules section has no order: neither the verdict on it nor the severity of a rule depends on
one. -/
theorem rules_resolved_in_any_order {config other : Config}
    (hKeys : (config.rules.map Prod.fst).Nodup) (hOrder : config.rules.Perm other.rules) :
    ((∃ ambiguity, config.validate.value = .error ambiguity) ↔
      ∃ id, Ambiguous config.rules id) ∧
    (∀ ambiguity, config.validate.value = .error ambiguity ↔ ambiguity.Reports config.rules) ∧
    (∀ ambiguity, other.validate.value = .error ambiguity ↔
      config.validate.value = .error ambiguity) ∧
    (∀ id default severity?, config.severity? id default = severity? ↔
      config.Resolves id default severity?) ∧
    (∀ id default, other.severity? id default = config.severity? id default) ∧
    (config.validate.value = .ok config → ∀ id, ∀ a ∈ config.rules, ∀ b ∈ config.rules,
      RuleId.parse? a.1 = some id → RuleId.parse? b.1 = some id → a = b) ∧
    ∀ (changed : Config) (id : RuleId) (default : Severity),
      (changed.rules.map Prod.fst).Nodup → config.SameEntries changed id →
        changed.severity? id default = config.severity? id default := by
  have hOtherKeys : (other.rules.map Prod.fst).Nodup := (hOrder.map Prod.fst).nodup_iff.1 hKeys
  simp only [validate_eq_error_iff, validate_eq_ok_iff]
  refine ⟨exists_ambiguity?_iff hKeys, fun _ => ambiguity?_eq_some_iff hKeys, ?_,
    fun _ _ _ => severity?_eq_iff hKeys, ?_, ?_, ?_⟩
  · intro ambiguity
    rw [ambiguity?_eq_some_iff hKeys, ambiguity?_eq_some_iff hOtherKeys]
    exact ⟨fun hReports => hReports.perm hOrder.symm, fun hReports => hReports.perm hOrder⟩
  · intro id default
    exact severity?_of_sameEntries hOtherKeys (sameEntries_of_perm hOrder id)
  · intro hUnique id a ha b hb hIdA hIdB
    have hEntries := filter_denoting_eq_singleton hUnique ha hIdA
    have hMem : b ∈ config.rules.filter fun r => RuleId.parse? r.1 = some id :=
      List.mem_filter.2 ⟨hb, decide_eq_true hIdB⟩
    rw [hEntries] at hMem
    exact (List.mem_singleton.1 hMem).symm
  · intro changed id default hChanged hSame
    exact severity?_of_sameEntries hChanged hSame

def rivalConfig : Config where
  rules := [("col0010", .deny), ("Col9999", .warn), ("COL0010", .allow), ("junk", .warn),
    ("COL9999", .deny)]

def rivalConfigReversed : Config where
  rules := rivalConfig.rules.reverse

def rivalAmbiguity : Ambiguity := ⟨⟨10⟩, ["COL0010", "col0010"]⟩

theorem rivalAmbiguity_reports : rivalAmbiguity.Reports rivalConfig.rules where
  ambiguous :=
    ⟨"COL0010", by decide, "col0010", by decide, by decide, by decide +kernel, by decide +kernel⟩
  smallest := by
    have hLe : ∀ key ∈ rivalConfig.rules.map Prod.fst, ∀ id ∈ RuleId.parse? key,
        rivalAmbiguity.id.number ≤ id.number := by
      decide +kernel
    rintro id ⟨key, hKey, -, -, -, hDenotes, -⟩
    exact hLe key hKey id hDenotes
  spelled key := by
    have hListed : ∀ key ∈ rivalAmbiguity.keys, key ∈ rivalConfig.rules.map Prod.fst ∧
        RuleId.parse? key = some rivalAmbiguity.id := by
      decide +kernel
    have hAll : ∀ key ∈ rivalConfig.rules.map Prod.fst,
        RuleId.parse? key = some rivalAmbiguity.id → key ∈ rivalAmbiguity.keys := by
      decide +kernel
    exact ⟨hListed key, fun ⟨hKey, hDenotes⟩ => hAll key hKey hDenotes⟩
  ordered := by decide +kernel

theorem rules_resolved_in_any_order_rivals :
    rivalAmbiguity.message =
      "Rule COL0010 is configured more than once in [rules]: COL0010, col0010" ∧
    rivalConfig.validate.value = .error rivalAmbiguity ∧
    rivalConfigReversed.validate.value = .error rivalAmbiguity ∧
    rivalConfig.Resolves ⟨10⟩ .warning none ∧
    rivalConfigReversed.severity? ⟨10⟩ .warning = none := by
  have hKeys : (rivalConfig.rules.map Prod.fst).Nodup := by decide
  have hOrder : rivalConfig.rules.Perm rivalConfigReversed.rules := (List.reverse_perm _).symm
  obtain ⟨-, hReports, hSame, hResolves, hSeverity, -, -⟩ :=
    rules_resolved_in_any_order hKeys hOrder
  have hError := (hReports _).2 rivalAmbiguity_reports
  have hNone : rivalConfig.severity? ⟨10⟩ .warning = none := by decide +kernel
  refine ⟨by decide +kernel, hError, (hSame _).2 hError, (hResolves _ _ _).1 hNone, ?_⟩
  rw [hSeverity, hNone]

end CostlyCalls.Config
