import CostlyCalls.Proofs.KeyOrder
import CostlyCalls.Proofs.Registries

/-!
# Building an engine or refusing it

An engine is built from rules and a configuration, or it is refused before anything is analysed. The
rules are checked first, then the names of the capabilities in their order, then the facade; what is
refused is refused for the first fault in this sequence. `CapabilityNames.Refused` and
`Engine.Rejects` say which fault that is, without reference to the checks.

An engine that is built depends only on the parts of a configuration that can matter to its rules.
-/

set_option autoImplicit false

namespace CostlyCalls

namespace Capability

def Precedes (a b : Capability) : Prop := all.idxOf a < all.idxOf b

instance (a b : Capability) : Decidable (a.Precedes b) :=
  inferInstanceAs (Decidable (all.idxOf a < all.idxOf b))

theorem mem_all (capability : Capability) : capability ∈ all := by
  cases capability <;> decide

theorem Precedes.asymm {a b : Capability} (hBefore : a.Precedes b) : ¬b.Precedes a :=
  Nat.lt_asymm hBefore

theorem precedes_or_eq (a b : Capability) : a.Precedes b ∨ a = b ∨ b.Precedes a := by
  cases a <;> cases b <;> decide

theorem mem_iff_precedes {first : Capability} {later : List Capability}
    (hOrder : first :: later <:+ all) (other : Capability) :
    other ∈ later ↔ first.Precedes other := by
  simp only [all, List.suffix_cons_iff, List.suffix_nil, reduceCtorEq, or_false] at hOrder
  rcases hOrder with hEq | hEq | hEq <;> cases hEq <;> cases other <;> decide

theorem precedes_of_find? {first second : Capability} {later : List Capability}
    (hOrder : first :: later <:+ all) {p : Capability → Bool}
    (hFind : later.find? p = some second) :
    first.Precedes second ∧ ∀ between : Capability, first.Precedes between →
      between.Precedes second → p between = false := by
  obtain ⟨-, before, after, rfl, hBefore⟩ := List.find?_eq_some_iff_append.1 hFind
  have hAfter := mem_iff_precedes (((List.suffix_append before _).trans
    (List.suffix_cons first _)).trans hOrder)
  refine ⟨(mem_iff_precedes hOrder second).1 (by simp), ?_⟩
  intro between hBehind hAhead
  have hMem := (mem_iff_precedes hOrder between).2 hBehind
  rw [List.mem_append, List.mem_cons] at hMem
  rcases hMem with hHere | rfl | hThere
  · simpa using hBefore between hHere
  · exact absurd hAhead hAhead.asymm
  · exact absurd hAhead ((hAfter between).1 hThere).asymm

end Capability

namespace CapabilityNames

/-- The capability has a blank name, or one that a later capability has too. -/
def IsFaulty (names : CapabilityNames) (capability : Capability) : Prop :=
  Text.isBlankText (names.interface capability) = true ∨
    ∃ later, capability.Precedes later ∧ names.interface later = names.interface capability

structure FirstFaulty (names : CapabilityNames) (capability : Capability) : Prop where
  faulty : names.IsFaulty capability
  earliest : ∀ earlier : Capability, earlier.Precedes capability → ¬names.IsFaulty earlier

/-- The fault for which names are refused: it is one of the first faulty capability, for being blank
if it is, and otherwise for the earliest later capability with the same name. -/
inductive Refused (names : CapabilityNames) : Fault → Prop
  | blank {first : Capability} (hFirst : names.FirstFaulty first)
    (hBlank : Text.isBlankText (names.interface first) = true) : Refused names (.blank first)
  | shared {first second : Capability} (hFirst : names.FirstFaulty first)
    (hNamed : Text.isBlankText (names.interface first) = false) (hLater : first.Precedes second)
    (hSame : names.interface second = names.interface first)
    (hEarliest : ∀ between : Capability, first.Precedes between → between.Precedes second →
      names.interface between ≠ names.interface first) :
    Refused names (.shared first second (names.interface first))

variable {names : CapabilityNames} {fault : Fault}

theorem Refused.exists_isFaulty (hFault : names.Refused fault) :
    ∃ capability, names.IsFaulty capability := by
  cases hFault with
  | blank hFirst => exact ⟨_, hFirst.faulty⟩
  | shared hFirst => exact ⟨_, hFirst.faulty⟩

theorem FirstFaulty.unique {a b : Capability} (hFirst : names.FirstFaulty a)
    (hSecond : names.FirstFaulty b) : a = b := by
  rcases Capability.precedes_or_eq a b with hBefore | hEq | hBehind
  · exact absurd hFirst.faulty (hSecond.earliest a hBefore)
  · exact hEq
  · exact absurd hSecond.faulty (hFirst.earliest b hBehind)

theorem Refused.unique {other : Fault} (hFault : names.Refused fault)
    (hOther : names.Refused other) : fault = other := by
  cases hFault with
  | blank hFirst hBlank =>
    cases hOther with
    | blank hFirst' hBlank' => rw [hFirst.unique hFirst']
    | shared hFirst' hNamed' =>
      rw [hFirst.unique hFirst', hNamed'] at hBlank
      cases hBlank
  | @shared first second hFirst hNamed hLater hSame hEarliest =>
    cases hOther with
    | blank hFirst' hBlank' =>
      rw [hFirst.unique hFirst', hBlank'] at hNamed
      cases hNamed
    | @shared first' second' hFirst' hNamed' hLater' hSame' hEarliest' =>
      cases hFirst.unique hFirst'
      rcases Capability.precedes_or_eq second second' with hBefore | hEq | hBehind
      · exact absurd hSame (hEarliest' second hLater hBefore)
      · rw [hEq]
      · exact absurd hSame' (hEarliest second' hLater' hBehind)

theorem not_isFaulty_of_find? {first : Capability} {later : List Capability}
    (hOrder : first :: later <:+ Capability.all)
    (hNamed : ¬Text.isBlankText (names.interface first) = true)
    (hNone : later.find? (fun second => names.interface second == names.interface first) = none) :
    ¬names.IsFaulty first := by
  rintro (hBlank | ⟨second, hLater, hSame⟩)
  · exact hNamed hBlank
  · have hMem := (Capability.mem_iff_precedes hOrder second).2 hLater
    exact List.find?_eq_none.1 hNone second hMem (beq_iff_eq.2 hSame)

theorem refused_of_faultIn? {capabilities : List Capability}
    (hOrder : capabilities <:+ Capability.all)
    (hBefore : ∀ other, other ∉ capabilities → ¬names.IsFaulty other)
    (hFault : names.faultIn? capabilities = some fault) : names.Refused fault := by
  induction capabilities with
  | nil => cases hFault
  | cons first later ih =>
    have hEarliest : ∀ earlier : Capability, earlier.Precedes first →
        ¬names.IsFaulty earlier := by
      intro earlier hEarlier
      apply hBefore
      rw [List.mem_cons, Capability.mem_iff_precedes hOrder, not_or]
      refine ⟨?_, hEarlier.asymm⟩
      rintro rfl
      exact hEarlier.asymm hEarlier
    unfold faultIn? at hFault
    split at hFault
    · next hBlank =>
      cases hFault
      exact .blank ⟨.inl hBlank, hEarliest⟩ hBlank
    · next hNamed =>
      split at hFault
      · next second hFind =>
        cases hFault
        obtain ⟨hLater, hBetween⟩ := Capability.precedes_of_find? hOrder hFind
        have hSame : names.interface second = names.interface first := by
          simpa using List.find?_some hFind
        refine .shared ⟨.inr ⟨second, hLater, hSame⟩, hEarliest⟩ (Bool.eq_false_iff.2 hNamed)
          hLater hSame ?_
        intro between hBehind hAhead
        simpa using hBetween between hBehind hAhead
      · next hNone =>
        refine ih ((List.suffix_cons first later).trans hOrder) ?_ hFault
        intro other hOther
        rcases Decidable.em (other = first) with rfl | hNe
        · exact not_isFaulty_of_find? hOrder hNamed hNone
        · exact hBefore other (List.not_mem_cons_of_ne_of_not_mem hNe hOther)

theorem not_isFaulty_of_faultIn? {capabilities : List Capability}
    (hOrder : capabilities <:+ Capability.all) (hNone : names.faultIn? capabilities = none) :
    ∀ capability ∈ capabilities, ¬names.IsFaulty capability := by
  induction capabilities with
  | nil => exact fun capability hMem => absurd hMem List.not_mem_nil
  | cons first later ih =>
    unfold faultIn? at hNone
    split at hNone
    · cases hNone
    · next hNamed =>
      split at hNone
      · cases hNone
      · next hFind =>
        rw [List.forall_mem_cons]
        exact ⟨not_isFaulty_of_find? hOrder hNamed hFind,
          ih ((List.suffix_cons first later).trans hOrder) hNone⟩

theorem refused_of_fault? (hFault : names.fault? = some fault) : names.Refused fault :=
  refused_of_faultIn? (List.suffix_refl _)
    (fun other hOther => absurd (Capability.mem_all other) hOther) hFault

theorem fault?_eq_none_iff : names.fault? = none ↔ ∀ capability, ¬names.IsFaulty capability := by
  constructor
  · intro hNone capability
    exact not_isFaulty_of_faultIn? (List.suffix_refl _) hNone capability
      (Capability.mem_all capability)
  · intro hSound
    rw [Option.eq_none_iff_forall_ne_some]
    intro fault hFault
    obtain ⟨capability, hFaulty⟩ := (refused_of_fault? hFault).exists_isFaulty
    exact hSound capability hFaulty

theorem fault?_eq_some_iff : names.fault? = some fault ↔ names.Refused fault := by
  constructor
  · exact refused_of_fault?
  · intro hRefused
    cases hFault : names.fault? with
    | none =>
      obtain ⟨capability, hFaulty⟩ := hRefused.exists_isFaulty
      exact absurd hFaulty (fault?_eq_none_iff.1 hFault capability)
    | some other => rw [(refused_of_fault? hFault).unique hRefused]

structure Sound (names : CapabilityNames) : Prop where
  named : ∀ capability, Text.isBlankText (names.interface capability) = false
  distinct : ∀ a b, a ≠ b → names.interface a ≠ names.interface b

theorem sound_iff : names.Sound ↔ ∀ capability, ¬names.IsFaulty capability := by
  constructor
  · rintro hSound capability (hBlank | ⟨later, hLater, hSame⟩)
    · rw [hSound.named] at hBlank
      cases hBlank
    · refine hSound.distinct later capability ?_ hSame
      rintro rfl
      exact hLater.asymm hLater
  · intro hNone
    refine ⟨fun capability => Bool.eq_false_iff.2 fun hBlank => hNone _ (.inl hBlank), ?_⟩
    intro a b hNe hSame
    rcases Capability.precedes_or_eq a b with hBefore | hEq | hBehind
    · exact hNone a (.inr ⟨b, hBefore, hSame.symm⟩)
    · exact hNe hEq
    · exact hNone b (.inr ⟨a, hBehind, hSame⟩)

end CapabilityNames

theorem CapabilityTable.ofNames_eq_error_iff {names : CapabilityNames}
    {fault : CapabilityNames.Fault} : ofNames names = .error fault ↔ names.Refused fault := by
  rw [← CapabilityNames.fault?_eq_some_iff]
  unfold ofNames
  split
  · next other hOther => simp [hOther]
  · next hNone => simp [hNone]

theorem CapabilityTable.exists_ofNames_iff {names : CapabilityNames} :
    (∃ table, ofNames names = .ok table) ↔ names.Sound := by
  rw [ofNames_eq_ok_iff, CapabilityNames.fault?_eq_none_iff, CapabilityNames.sound_iff]

namespace Text

variable {core text : String}

end Text

theorem Registry.acceptable_iff {rules : List Rule} :
    Acceptable rules ↔ ∃ registry, ofRules rules = .ok registry := by
  simp only [exists_ofRules_iff, isFourDigit_iff]
  constructor
  · intro hRules
    exact ⟨hRules.bounded, hRules.distinct⟩
  · rintro ⟨hBounded, hDistinct⟩
    exact ⟨hBounded, hDistinct⟩

namespace Engine

/-- Why an engine is refused: for the rules; if they are acceptable, for the names; and if these are
sound, for the facade. -/
inductive Rejects (config : Config) (rules : List Rule) : Error → Prop
  | registry {fault : Registry.Fault} (hFault : Registry.Refused rules fault) :
    Rejects config rules (.ofRegistry fault)
  | capability {fault : CapabilityNames.Fault} (hRules : Registry.Acceptable rules)
    (hFault : config.semantics.capabilities.Refused fault) :
    Rejects config rules (.ofCapabilities fault)
  | facade (hRules : Registry.Acceptable rules) (hNames : config.semantics.capabilities.Sound)
    (hFacade : Text.isBlankText config.semantics.facade = true) :
    Rejects config rules (.config .blankFacade)

variable {config : Config} {rules : List Rule}

theorem ofRules_of_refused {fault : Registry.Fault}
    (hRules : Registry.ofRules rules = .error fault) :
    ofRules config rules = ⟨.error (.ofRegistry fault), []⟩ := by
  have hRegister : register rules = ⟨.error (.ofRegistry fault), []⟩ := by
    simp only [register, hRules]
  rw [ofRules, Logged.andThen_error _ (congrArg Logged.value hRegister), hRegister]

theorem ofRules_of_accepted {registry : Registry} (hRules : Registry.ofRules rules = .ok registry) :
    ofRules config rules = ⟨(ofRegistry config registry).value,
      .registered registry.rules.length :: (ofRegistry config registry).log⟩ := by
  have hRegister : register rules = ⟨.ok registry, [.registered registry.rules.length]⟩ := by
    simp only [register, hRules]
  rw [ofRules, Logged.andThen_ok _ (congrArg Logged.value hRegister), hRegister]
  rfl

theorem ofRegistry_eq_error_iff {registry : Registry} {error : Error} :
    (ofRegistry config registry).value = .error error ↔
      (∃ fault, config.semantics.capabilities.Refused fault ∧ error = .ofCapabilities fault) ∨
      config.semantics.capabilities.Sound ∧
        Text.isBlankText config.semantics.facade = true ∧ error = .config .blankFacade := by
  rw [← CapabilityTable.exists_ofNames_iff]
  simp only [← CapabilityTable.ofNames_eq_error_iff]
  unfold ofRegistry
  cases CapabilityTable.ofNames config.semantics.capabilities with
  | error fault => simp [@eq_comm _ error]
  | ok table =>
    by_cases hFacade : Text.isBlankText config.semantics.facade = true
    · simp [hFacade, @eq_comm _ error]
    · simp [hFacade]

theorem exists_ofRegistry_iff {registry : Registry} :
    (∃ engine, (ofRegistry config registry).value = .ok engine) ↔
      config.semantics.capabilities.Sound ∧
        Text.isBlankText config.semantics.facade = false := by
  rw [← CapabilityTable.exists_ofNames_iff]
  unfold ofRegistry
  cases CapabilityTable.ofNames config.semantics.capabilities with
  | error fault => simp
  | ok table =>
    by_cases hFacade : Text.isBlankText config.semantics.facade = true
    · simp [hFacade]
    · simp [hFacade]

theorem exists_ofRules_iff :
    (∃ engine, (ofRules config rules).value = .ok engine) ↔
      Registry.Acceptable rules ∧ config.semantics.capabilities.Sound ∧
        Text.isBlankText config.semantics.facade = false := by
  rw [Registry.acceptable_iff]
  cases hRules : Registry.ofRules rules with
  | error fault => simp [ofRules_of_refused hRules]
  | ok registry => simp [ofRules_of_accepted hRules, exists_ofRegistry_iff]

theorem ofRules_eq_error_iff {error : Error} :
    (ofRules config rules).value = .error error ↔ Rejects config rules error := by
  cases hRules : Registry.ofRules rules with
  | error fault =>
    have hRefused := Registry.ofRules_eq_error_iff.1 hRules
    have hNot : ¬Registry.Acceptable rules := by
      simp [Registry.acceptable_iff, hRules]
    simp only [ofRules_of_refused hRules, Except.error.injEq]
    constructor
    · rintro rfl
      exact .registry hRefused
    · rintro (hFault | ⟨hAccepted, -⟩ | ⟨hAccepted, -⟩)
      · cases hRules.symm.trans (Registry.ofRules_eq_error_iff.2 hFault)
        rfl
      · exact absurd hAccepted hNot
      · exact absurd hAccepted hNot
  | ok registry =>
    have hAccepted : Registry.Acceptable rules :=
      Registry.acceptable_iff.2 ⟨registry, hRules⟩
    rw [ofRules_of_accepted hRules, ofRegistry_eq_error_iff]
    constructor
    · rintro (⟨fault, hFault, rfl⟩ | ⟨hNames, hFacade, rfl⟩)
      · exact .capability hAccepted hFault
      · exact .facade hAccepted hNames hFacade
    · rintro (hFault | ⟨-, hFault⟩ | ⟨-, hNames, hFacade⟩)
      · cases hRules.symm.trans (Registry.ofRules_eq_error_iff.2 hFault)
      · exact .inl ⟨_, hFault, rfl⟩
      · exact .inr ⟨hNames, hFacade, rfl⟩

end Engine

end CostlyCalls
