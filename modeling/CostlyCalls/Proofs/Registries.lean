import Mathlib.Data.List.FinRange
import CostlyCalls.Proofs.Registration

/-!
# What a registry accepts and answers

Rules are accepted if their identifiers have four digits and are pairwise different. A list that is
not accepted is refused for its first rule that breaks this with the rules before it. An accepted
list is answered from: by identifier with the one rule that has it, and by kind with positions of
the list, in ascending order and each as often as the rule there names the kind.

The pass that builds the index is followed position by position. What it has made of the positions
taken up so far is described by `Index.Covers`, and what it says about the next one by `Offends`.
-/

set_option autoImplicit false

namespace CostlyCalls

namespace Registry

structure Acceptable (rules : List Rule) : Prop where
  bounded : ∀ rule ∈ rules, rule.id.number.toNat ≤ 9999
  distinct : (rules.map Rule.id).Nodup

theorem isFourDigit_iff {rule : Rule} :
    rule.id.isFourDigit = true ↔ rule.id.number.toNat ≤ 9999 :=
  decide_eq_true_iff

/-- The fault of a rule behind the earlier ones: its number needs five digits, or it has four and
the first earlier rule with the same identifier is `existing`. -/
inductive Offends (earlier : List Rule) (rule : Rule) : Fault → Prop
  | outOfRange (hRange : 9999 < rule.id.number.toNat) :
    Offends earlier rule (.outOfRange rule.id.number rule.name)
  | repeated {existing : Rule} {before between : List Rule}
    (hRange : rule.id.number.toNat ≤ 9999) (hEarlier : earlier = before ++ existing :: between)
    (hFirst : ∀ other ∈ before, other.id ≠ rule.id) (hSame : existing.id = rule.id) :
    Offends earlier rule (.repeated rule.id existing.name rule.name)

inductive Refused (rules : List Rule) (fault : Fault) : Prop
  | offender {rule : Rule} {before after : List Rule} (hRules : rules = before ++ rule :: after)
    (hBefore : Acceptable before) (hOffends : Offends before rule fault) : Refused rules fault

section Pass

variable {rules : List Rule} {index : Index rules.length} {taken : List (Fin rules.length)}
  {position : Fin rules.length} {fault : Fault}

theorem acceptable_of_covers (hCovers : index.Covers taken) :
    Acceptable (taken.map rules.get) where
  bounded := by
    rw [List.forall_mem_map]
    intro position hPosition
    exact isFourDigit_iff.1 (hCovers.bounded position hPosition)
  distinct := by
    rw [List.map_map]
    exact hCovers.ids.distinct

theorem register_of_offends (hCovers : index.Covers taken)
    (hOffends : Offends (taken.map rules.get) (rules.get position) fault) :
    register rules index position = .error fault := by
  unfold register
  generalize rules.get position = rule at hOffends ⊢
  dsimp only
  cases hOffends with
  | outOfRange hRange =>
    rw [if_neg]
    rw [isFourDigit_iff]
    omega
  | @repeated existing before between hRange hEarlier hFirst hSame =>
    have hMem : existing ∈ taken.map rules.get := by
      rw [hEarlier]
      exact List.mem_append_right before List.mem_cons_self
    obtain ⟨earlier, hTaken, rfl⟩ := List.mem_map.1 hMem
    rw [if_pos (isFourDigit_iff.2 hRange), (hCovers.ids.lookup rule.id earlier).2 ⟨hTaken, hSame⟩]

theorem register_cases (hCovers : index.Covers taken) (position : Fin rules.length) :
    (∃ fault, Offends (taken.map rules.get) (rules.get position) fault) ∨
      ∃ next, register rules index position = .ok next := by
  by_cases hRange : (rules.get position).id.number.toNat ≤ 9999
  · cases hFind : (taken.map rules.get).find? fun other => other.id == (rules.get position).id with
    | some existing =>
      obtain ⟨hSame, before, between, hEarlier, hFirst⟩ := List.find?_eq_some_iff_append.1 hFind
      left
      exact ⟨_, .repeated hRange hEarlier (by simpa using hFirst) (by simpa using hSame)⟩
    | none =>
      right
      have hNew : (rules.get position).id ∉ taken.map fun position => (rules.get position).id := by
        intro hOld
        obtain ⟨earlier, hTaken, hSame⟩ := List.mem_map.1 hOld
        exact List.find?_eq_none.1 hFind _ (List.mem_map_of_mem hTaken) (beq_iff_eq.2 hSame)
      exact ⟨_, hCovers.register_eq_ok_iff.2 ⟨isFourDigit_iff.2 hRange, hNew, rfl⟩⟩
  · left
    exact ⟨_, .outOfRange (by omega)⟩

theorem register_eq_error_iff (hCovers : index.Covers taken) :
    register rules index position = .error fault ↔
      Offends (taken.map rules.get) (rules.get position) fault := by
  constructor
  · intro hFault
    rcases register_cases hCovers position with ⟨other, hOffends⟩ | ⟨next, hStep⟩
    · cases hFault.symm.trans (register_of_offends hCovers hOffends)
      exact hOffends
    · cases hFault.symm.trans hStep
  · exact register_of_offends hCovers

theorem indexed_eq_error_iff : indexed rules = .error fault ↔ Refused rules fault := by
  rw [indexed, Pass.foldlM_eq_error_iff]
  constructor
  · rintro ⟨before, position, after, reached, hSplit, hBefore, hFault⟩
    have hCovers := covers_of_foldlM hBefore
    have hRules := Keyed.map_get_finRange rules
    rw [hSplit, List.map_append, List.map_cons] at hRules
    have hOffends := (register_eq_error_iff hCovers).1 hFault
    exact .offender hRules.symm (acceptable_of_covers hCovers) hOffends
  · rintro ⟨hRules, hBefore, hOffends⟩
    obtain ⟨taken, rest, hSplit, rfl, hRest⟩ :=
      List.map_eq_append_iff.1 ((Keyed.map_get_finRange rules).trans hRules)
    obtain ⟨position, after, rfl, rfl, -⟩ := List.map_eq_cons_iff.1 hRest
    obtain ⟨reached, hReached⟩ : ∃ reached, taken.foldlM (register rules) {} = .ok reached := by
      apply exists_foldlM_register
      · intro position hPosition
        exact isFourDigit_iff.2 (hBefore.bounded _ (List.mem_map_of_mem hPosition))
      · have hDistinct := hBefore.distinct
        rw [List.map_map] at hDistinct
        exact hDistinct
    exact ⟨taken, position, after, reached, hSplit, hReached,
      (register_eq_error_iff (covers_of_foldlM hReached)).2 hOffends⟩

end Pass

theorem ofRules_eq_error_iff {rules : List Rule} {fault : Fault} :
    ofRules rules = .error fault ↔ Refused rules fault := by
  rw [← indexed_eq_error_iff]
  unfold ofRules
  split
  · next other hOther => rw [hOther, Except.error.injEq, Except.error.injEq]
  · next index hIndex => simp [hIndex]

/-- The rules of a list by their positions: in ascending order, and each position as often as the
rule there names the kind. -/
structure Enumerates (rules : List Rule) (kind : Kind) (positions : List (Fin rules.length))
    (listed : List Rule) : Prop where
  ordered : positions.Pairwise (· ≤ ·)
  resolved : listed = positions.map rules.get
  multiplicity : ∀ position, positions.count position = (rules.get position).kinds.count kind

theorem count_flatMap_replicate {α : Type} [DecidableEq α] {xs : List α} (hDistinct : xs.Nodup)
    (times : α → Nat) {x : α} (hx : x ∈ xs) :
    (xs.flatMap fun y => List.replicate (times y) y).count x = times x := by
  induction xs with
  | nil => cases hx
  | cons first rest ih =>
    rw [List.nodup_cons] at hDistinct
    rw [List.flatMap_cons, List.count_append, List.count_replicate]
    rcases List.mem_cons.1 hx with rfl | hRest
    · have hNone : (rest.flatMap fun y => List.replicate (times y) y).count x = 0 := by
        rw [List.count_eq_zero, List.mem_flatMap]
        rintro ⟨y, hy, hMem⟩
        exact hDistinct.1 (List.eq_of_mem_replicate hMem ▸ hy)
      rw [hNone, if_pos (beq_self_eq_true x), Nat.add_zero]
    · have hOther : first ≠ x := fun hEq => hDistinct.1 (hEq ▸ hRest)
      rw [ih hDistinct.2 hRest, if_neg (by simpa using hOther), Nat.zero_add]

theorem enumerates_rulesFor (registry : Registry) (kind : Kind) :
    Enumerates registry.rules kind (registry.index.positions kind) (registry.rulesFor kind) where
  ordered := by
    rw [registry.covers.kinds, List.pairwise_flatMap]
    refine ⟨fun position _ => List.pairwise_replicate.2 (.inr le_rfl), ?_⟩
    refine (List.pairwise_lt_finRange _).imp ?_
    intro a b hLess x hx y hy
    rw [List.eq_of_mem_replicate hx, List.eq_of_mem_replicate hy]
    exact hLess.le
  resolved := rfl
  multiplicity position := by
    rw [registry.covers.kinds]
    exact count_flatMap_replicate (List.nodup_finRange _)
      (fun position => (registry.rules.get position).kinds.count kind) (List.mem_finRange position)

theorem isSome_get? (registry : Registry) (id : RuleId) :
    (registry.get? id).isSome = registry.contains id := by
  rw [contains, get?, Option.isSome_map]

theorem contains_eq_true_iff {registry : Registry} {id : RuleId} :
    registry.contains id = true ↔ ∃ rule ∈ registry.rules, rule.id = id := by
  rw [← isSome_get?, Option.isSome_iff_exists]
  exact exists_congr fun rule => get?_eq_some_iff

structure Answers (registry : Registry) (rules : List Rule) : Prop where
  kept : registry.rules = rules
  get? : ∀ id rule, registry.get? id = some rule ↔ rule ∈ rules ∧ rule.id = id
  contains : ∀ id, registry.contains id = true ↔ ∃ rule ∈ rules, rule.id = id
  rulesFor : ∀ kind, ∃ positions, Enumerates rules kind positions (registry.rulesFor kind)

theorem Answers.of_ofRules {rules : List Rule} {registry : Registry}
    (hRegistry : ofRules rules = .ok registry) : registry.Answers rules := by
  obtain rfl := rules_of_ofRules hRegistry
  exact ⟨rfl, fun _ _ => get?_eq_some_iff, fun _ => contains_eq_true_iff,
    fun kind => ⟨_, enumerates_rulesFor registry kind⟩⟩

theorem ofRules_rules (registry : Registry) : ofRules registry.rules = .ok registry := by
  unfold ofRules
  split
  · next fault hFault => cases hFault.symm.trans registry.built
  · next index hIndex =>
    cases hIndex.symm.trans registry.built
    rfl

theorem rules_builtin : builtin.rules = Catalogue.rules := rules_ofDistinct _ _

end Registry

theorem Catalogue.named?_eq_bind (text : String) :
    named? text = (RuleId.parse? text).bind Registry.builtin.get? := by
  have hFind : find? = Registry.builtin.get? := by
    funext id
    rw [find?, Registry.get?_eq_find?, Registry.rules_builtin]
  rw [named?, hFind]

theorem Catalogue.isNamed_eq_any (text : String) :
    isNamed text = (RuleId.parse? text).any Registry.builtin.contains := by
  rw [isNamed, named?_eq_bind, Option.isSome_bind]
  simp only [Registry.isSome_get?]

/-- Exactly the rules with bounded, different numbers are accepted, and the indices answer as a
search of the rules would. -/
theorem Registry.ofRules_exact (rules : List Rule) :
    ((∃ registry, ofRules rules = .ok registry) ↔
      (∀ rule ∈ rules, rule.id.number.toNat ≤ 9999) ∧ (rules.map Rule.id).Nodup) ∧
    (∀ fault, ofRules rules = .error fault ↔ Refused rules fault) ∧
    (∀ registry, ofRules rules = .ok registry → registry.Answers rules) ∧
    ofRules Catalogue.rules = .ok builtin ∧
    ∀ text, Catalogue.named? text = (RuleId.parse? text).bind builtin.get? ∧
      Catalogue.isNamed text = (RuleId.parse? text).any builtin.contains := by
  refine ⟨?_, fun fault => ofRules_eq_error_iff, fun registry => .of_ofRules, ?_, fun text =>
    ⟨Catalogue.named?_eq_bind text, Catalogue.isNamed_eq_any text⟩⟩
  · simp only [exists_ofRules_iff, isFourDigit_iff]
  · rw [← rules_builtin]
    exact ofRules_rules builtin

end CostlyCalls
