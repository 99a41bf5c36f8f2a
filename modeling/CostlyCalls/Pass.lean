/-!
# Passes that stop at a fault

A pass takes up the members of a list one after another, with a step that can fail. What it fails
with is what its step says about some member, when all members before it have been taken up.
-/

set_option autoImplicit false

namespace CostlyCalls.Pass

variable {σ ι ε : Type} {step : σ → ι → Except ε σ} {state next : σ} {taken rest : List ι} {e : ε}

/-- A relation between the state and the members taken up that each step keeps holds of a pass. -/
theorem foldlM_keeps {Covers : σ → List ι → Prop}
    (hStep : ∀ {state taken i next}, Covers state taken → step state i = .ok next →
      Covers next (taken ++ [i]))
    (hCovers : Covers state taken) (hRest : rest.foldlM step state = .ok next) :
    Covers next (taken ++ rest) := by
  induction rest generalizing state taken with
  | nil =>
    cases hRest
    rw [List.append_nil]
    exact hCovers
  | cons i rest ih =>
    rw [List.foldlM_cons] at hRest
    cases hFirst : step state i with
    | error e =>
      rw [hFirst] at hRest
      cases hRest
    | ok stepped =>
      rw [hFirst] at hRest
      have hAll := ih (hStep hCovers hFirst) hRest
      rw [List.append_assoc, List.singleton_append] at hAll
      exact hAll

/-- A pass fails at the member at which its step fails behind the members taken up. -/
theorem foldlM_eq_error_iff :
    rest.foldlM step state = .error e ↔
      ∃ before i after reached, rest = before ++ i :: after ∧
        before.foldlM step state = .ok reached ∧ step reached i = .error e := by
  constructor
  · intro hRest
    induction rest generalizing state with
    | nil => cases hRest
    | cons i rest ih =>
      rw [List.foldlM_cons] at hRest
      cases hFirst : step state i with
      | error found =>
        rw [hFirst] at hRest
        cases hRest
        exact ⟨[], i, rest, state, rfl, rfl, hFirst⟩
      | ok stepped =>
        rw [hFirst] at hRest
        obtain ⟨before, j, after, reached, rfl, hBefore, hError⟩ := ih hRest
        refine ⟨i :: before, j, after, reached, rfl, ?_, hError⟩
        rw [List.foldlM_cons, hFirst]
        exact hBefore
  · rintro ⟨before, i, after, reached, rfl, hBefore, hError⟩
    rw [List.foldlM_append, hBefore]
    change (i :: after).foldlM step reached = .error e
    rw [List.foldlM_cons, hError]
    rfl

end CostlyCalls.Pass
