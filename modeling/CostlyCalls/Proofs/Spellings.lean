import CostlyCalls.Config

/-!
# Spellings of configured rules

Keys of the rules section are collected by the rules that they denote, one key after the other, with
the rules in ascending order. Whatever the order of the keys, each rule ends up with the keys that
denote it, and the section is refused for the first rule that has several.
-/

set_option autoImplicit false

namespace CostlyCalls.Config

variable {id : RuleId} {groups : List (RuleId × List String)}

theorem fst_mem_addSpelling {key : String} {group : RuleId × List String}
    (hGroup : group ∈ addSpelling id key groups) :
    group.1 = id ∨ group.1 ∈ groups.map Prod.fst := by
  induction groups with
  | nil =>
    left
    rw [List.mem_singleton.1 hGroup]
  | cons head rest ih =>
    obtain ⟨first, keys⟩ := head
    unfold addSpelling at hGroup
    rw [List.map_cons]
    split at hGroup
    · rcases List.mem_cons.1 hGroup with rfl | hRest
      · exact .inr List.mem_cons_self
      · exact .inr (List.mem_cons_of_mem _ (List.mem_map_of_mem hRest))
    · split at hGroup
      · rcases List.mem_cons.1 hGroup with rfl | hOld
        · exact .inl rfl
        · exact .inr (List.mem_map_of_mem hOld)
      · rcases List.mem_cons.1 hGroup with rfl | hRest
        · exact .inr List.mem_cons_self
        · exact (ih hRest).imp_right (List.mem_cons_of_mem _)

theorem pairwise_addSpelling (id : RuleId) (key : String)
    (hOrdered : groups.Pairwise fun a b => a.1.number < b.1.number) :
    (addSpelling id key groups).Pairwise fun a b => a.1.number < b.1.number := by
  induction groups with
  | nil => exact List.pairwise_singleton _ _
  | cons head rest ih =>
    obtain ⟨first, keys⟩ := head
    have hAll := hOrdered
    rw [List.pairwise_cons] at hOrdered
    unfold addSpelling
    split
    · exact List.pairwise_cons.2 hOrdered
    · next hOther =>
      split
      · next hLess =>
        refine List.pairwise_cons.2 ⟨?_, hAll⟩
        rw [List.forall_mem_cons]
        exact ⟨hLess, fun group hGroup => Std.lt_trans hLess (hOrdered.1 group hGroup)⟩
      · next hNotLess =>
        refine List.pairwise_cons.2 ⟨fun group hGroup => ?_, ih hOrdered.2⟩
        rcases fst_mem_addSpelling hGroup with hNew | hOld
        · have hNe : first.number ≠ id.number := by
            intro hEq
            apply hOther
            cases id
            cases first
            cases hEq
            rfl
          rw [hNew]
          exact Std.lt_of_le_of_ne (Std.not_lt.1 hNotLess) hNe
        · obtain ⟨old, hMem, hEq⟩ := List.mem_map.1 hOld
          rw [← hEq]
          exact hOrdered.1 old hMem

theorem lookup_eq_none_of_lt (hLess : ∀ group ∈ groups, id.number < group.1.number) :
    groups.lookup id = none := by
  rw [List.lookup_eq_none_iff]
  intro group hGroup
  rw [bne_iff_ne]
  rintro rfl
  exact Std.lt_irrefl (hLess group hGroup)

theorem lookup_addSpelling (id other : RuleId) (key : String)
    (hOrdered : groups.Pairwise fun a b => a.1.number < b.1.number) :
    ((addSpelling id key groups).lookup other).getD [] =
      (groups.lookup other).getD [] ++ if other = id then [key] else [] := by
  induction groups with
  | nil =>
    rw [addSpelling, Keyed.lookup_cons]
    split
    · rfl
    · rfl
  | cons head rest ih =>
    obtain ⟨first, keys⟩ := head
    rw [List.pairwise_cons] at hOrdered
    unfold addSpelling
    by_cases hFirst : id = first
    · subst hFirst
      rw [if_pos rfl, Keyed.lookup_cons, Keyed.lookup_cons]
      split
      · rfl
      · rw [List.append_nil]
    · rw [if_neg hFirst]
      split
      · -- The new group stands before all others, none of which is that of the rule.
        next hLess =>
        rw [Keyed.lookup_cons]
        by_cases hOther : other = id
        · subst hOther
          have hNone : ((first, keys) :: rest).lookup other = none := by
            apply lookup_eq_none_of_lt
            rw [List.forall_mem_cons]
            exact ⟨hLess, fun group hGroup => Std.lt_trans hLess (hOrdered.1 group hGroup)⟩
          rw [if_pos rfl, if_pos rfl, hNone]
          rfl
        · rw [if_neg hOther, if_neg hOther, List.append_nil]
      · rw [Keyed.lookup_cons, Keyed.lookup_cons]
        by_cases hOther : other = first
        · subst hOther
          rw [if_pos rfl, if_pos rfl, if_neg (Ne.symm hFirst), List.append_nil]
        · rw [if_neg hOther, if_neg hOther, ih hOrdered.2]

/-- The groups of some keys: every rule has the keys that denote it, in their order. -/
structure Grouped (keys : List String) (groups : List (RuleId × List String)) : Prop where
  ordered : groups.Pairwise fun a b => a.1.number < b.1.number
  lookup : ∀ id, (groups.lookup id).getD [] = keys.filter fun key => RuleId.parse? key = some id

namespace Grouped

variable {keys : List String}

theorem nil : Grouped [] [] where
  ordered := .nil
  lookup _ := rfl

theorem collect (hGrouped : Grouped keys groups) (key : String) :
    Grouped (keys ++ [key]) (Config.collect groups key) := by
  unfold Config.collect
  cases hKey : RuleId.parse? key with
  | none =>
    refine ⟨hGrouped.ordered, fun id => ?_⟩
    rw [hGrouped.lookup, List.filter_append]
    simp [hKey]
  | some own =>
    refine ⟨pairwise_addSpelling own key hGrouped.ordered, fun id => ?_⟩
    rw [lookup_addSpelling own id key hGrouped.ordered, hGrouped.lookup, List.filter_append]
    by_cases hOwn : id = own
    · subst hOwn
      simp [hKey]
    · simp [hKey, hOwn, Ne.symm hOwn]

theorem foldl (hGrouped : Grouped keys groups) (rest : List String) :
    Grouped (keys ++ rest) (rest.foldl Config.collect groups) := by
  induction rest generalizing keys groups with
  | nil =>
    rw [List.append_nil]
    exact hGrouped
  | cons key rest ih =>
    have hRest := ih (hGrouped.collect key)
    rw [List.append_assoc, List.singleton_append] at hRest
    exact hRest

theorem spellings (keys : List String) : Grouped keys (Config.spellings keys) :=
  Grouped.nil.foldl keys

theorem keys_of_mem (hGrouped : Grouped keys groups) {group : RuleId × List String}
    (hGroup : group ∈ groups) :
    group.2 = keys.filter fun key => RuleId.parse? key = some group.1 := by
  have hLookup : groups.lookup group.1 = some group.2 := by
    obtain ⟨before, after, rfl⟩ := List.append_of_mem hGroup
    rw [List.lookup_eq_some_iff]
    refine ⟨before, after, rfl, fun other hOther => ?_⟩
    have hLess := (List.pairwise_append.1 hGrouped.ordered).2.2 other hOther group
      List.mem_cons_self
    rw [bne_iff_ne]
    intro hEq
    rw [hEq] at hLess
    exact Std.lt_irrefl hLess
  rw [← hGrouped.lookup, hLookup]
  rfl

theorem exists_mem_of_denotes (hGrouped : Grouped keys groups) {key : String} (hKey : key ∈ keys)
    (hDenotes : RuleId.parse? key = some id) :
    (id, keys.filter fun key => RuleId.parse? key = some id) ∈ groups := by
  have hLookup := hGrouped.lookup id
  cases hGroup : groups.lookup id with
  | none =>
    rw [hGroup] at hLookup
    have hMem : key ∈ keys.filter fun key => RuleId.parse? key = some id :=
      List.mem_filter.2 ⟨hKey, decide_eq_true hDenotes⟩
    rw [← hLookup] at hMem
    cases hMem
  | some spelled =>
    rw [hGroup] at hLookup
    obtain ⟨before, after, rfl, -⟩ := List.lookup_eq_some_iff.1 hGroup
    rw [← hLookup]
    exact List.mem_append_right before List.mem_cons_self

end Grouped

theorem length_denoting (rules : List (String × Setting)) (id : RuleId) :
    (rules.filter fun r => RuleId.parse? r.1 = some id).length =
      ((rules.map Prod.fst).filter fun key => RuleId.parse? key = some id).length := by
  rw [List.filter_map, List.length_map]
  rfl

theorem ambiguity?_eq_none_iff {rules : List (String × Setting)} :
    ambiguity? rules = none ↔
      ∀ id, (rules.filter fun r => RuleId.parse? r.1 = some id).length ≤ 1 := by
  have hGrouped := Grouped.spellings (rules.map Prod.fst)
  rw [ambiguity?, Option.map_eq_none_iff, List.find?_eq_none]
  simp only [decide_eq_true_eq, Nat.not_lt, length_denoting]
  constructor
  · intro hSingle id
    cases hKeys : (rules.map Prod.fst).filter fun key => RuleId.parse? key = some id with
    | nil => exact Nat.zero_le 1
    | cons key rest =>
      obtain ⟨hKey, hDenotes⟩ := List.mem_filter.1 (hKeys ▸ List.mem_cons_self)
      rw [← hKeys]
      exact hSingle _ (hGrouped.exists_mem_of_denotes hKey (of_decide_eq_true hDenotes))
  · intro hSingle group hGroup
    rw [hGrouped.keys_of_mem hGroup]
    exact hSingle group.1

end CostlyCalls.Config
