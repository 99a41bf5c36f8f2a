import CostlyCalls.Discovery

/-!
# The order of discovered files

Paths are compared component by component. The comparison is transitive and total, so the files that
discovery keeps stand in the order of their paths.
-/

set_option autoImplicit false

namespace CostlyCalls

namespace Path

theorem Component.precedes_iff {a b : Component} :
    a.precedes b = true ↔ a.rank < b.rank ∨ ∃ s t, a = .name s ∧ b = .name t ∧ s < t := by
  cases a <;> cases b <;> simp [precedes, rank]

theorem Component.eq_or_names {a b : Component} (hRank : a.rank = b.rank) :
    a = b ∨ ∃ s t, a = .name s ∧ b = .name t := by
  cases a <;> cases b <;> simp_all [rank]

theorem Component.precedes_trans {a b c : Component} (hab : a.precedes b = true)
    (hbc : b.precedes c = true) : a.precedes c = true := by
  rw [precedes_iff] at hab hbc ⊢
  rcases hab with hab | ⟨s, t, rfl, rfl, hst⟩
  · rcases hbc with hbc | ⟨t, u, rfl, rfl, -⟩
    · exact .inl (Nat.lt_trans hab hbc)
    · exact .inl hab
  · rcases hbc with hbc | ⟨t', u, hName, rfl, htu⟩
    · exact .inl hbc
    · cases hName
      exact .inr ⟨s, u, rfl, rfl, String.lt_trans hst htu⟩

theorem Component.precedes_total (a b : Component) :
    a.precedes b = true ∨ a = b ∨ b.precedes a = true := by
  rw [precedes_iff, precedes_iff]
  rcases Nat.lt_trichotomy a.rank b.rank with hLess | hRank | hLess
  · exact .inl (.inl hLess)
  · rcases eq_or_names hRank with rfl | ⟨s, t, rfl, rfl⟩
    · exact .inr (.inl rfl)
    · by_cases hLess : s < t
      · exact .inl (.inr ⟨s, t, rfl, rfl, hLess⟩)
      · by_cases hEq : s = t
        · exact .inr (.inl (hEq ▸ rfl))
        · have hMore : t < s := Std.lt_of_le_of_ne (Std.not_lt.1 hLess) (Ne.symm hEq)
          exact .inr (.inr (.inr ⟨t, s, rfl, rfl, hMore⟩))
  · exact .inr (.inr (.inl hLess))

theorem componentsLe_trans {as bs cs : List Component} (hab : componentsLe as bs = true)
    (hbc : componentsLe bs cs = true) : componentsLe as cs = true := by
  induction as generalizing bs cs with
  | nil => rw [componentsLe]
  | cons a as ih =>
    cases bs with
    | nil => cases hab
    | cons b bs =>
      cases cs with
      | nil => cases hbc
      | cons c cs =>
        simp only [componentsLe, Bool.or_eq_true, Bool.and_eq_true, beq_iff_eq] at hab hbc ⊢
        rcases hab with hab | ⟨rfl, hab⟩
        · rcases hbc with hbc | ⟨rfl, -⟩
          · exact .inl (Component.precedes_trans hab hbc)
          · exact .inl hab
        · rcases hbc with hbc | ⟨rfl, hbc⟩
          · exact .inl hbc
          · exact .inr ⟨rfl, ih hab hbc⟩

theorem componentsLe_total (as bs : List Component) :
    componentsLe as bs = true ∨ componentsLe bs as = true := by
  induction as generalizing bs with
  | nil => exact .inl (by rw [componentsLe])
  | cons a as ih =>
    cases bs with
    | nil => exact .inr (by rw [componentsLe])
    | cons b bs =>
      simp only [componentsLe, Bool.or_eq_true, Bool.and_eq_true, beq_iff_eq]
      rcases Component.precedes_total a b with hLess | rfl | hLess
      · exact .inl (.inl hLess)
      · exact (ih bs).imp (fun h => .inr ⟨rfl, h⟩) (fun h => .inr ⟨rfl, h⟩)
      · exact .inr (.inl hLess)

end Path

namespace Discovery

theorem value_vet_eq {options : Options} {file : Path × Entry} {path : Path}
    (hVet : (vet options file).value = some path) : path = file.1 := by
  unfold vet at hVet
  repeat' split at hVet
  all_goals cases hVet <;> rfl

theorem pairwise_discover (tree : FileTree) (root : Path) (options : Options) :
    (discover tree root options).value.Pairwise (fun a b => a.le b = true) := by
  apply List.pairwise_mergeSort
  · intro a b c hab hbc
    exact Path.componentsLe_trans hab hbc
  · intro a b
    rw [Bool.or_eq_true]
    exact Path.componentsLe_total a.components b.components

end Discovery

end CostlyCalls
