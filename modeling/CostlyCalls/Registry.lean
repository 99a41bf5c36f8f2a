import CostlyCalls.Keyed
import CostlyCalls.Pass
import CostlyCalls.Rule.Catalogue

/-!
# Registries

A registry is a list of rules whose numbers have at most four digits and are pairwise different,
together with an index of the positions of the list: by identifier, and by the kinds that the rules
name. The index is built in one pass over the list, which stops at the first rule with a fault.
-/

set_option autoImplicit false

namespace CostlyCalls

structure Index (size : Nat) where
  ids : List (RuleId × Fin size) := []
  kinds : List (Kind × List (Fin size)) := []
  deriving DecidableEq, Repr

namespace Index

variable {size : Nat}

def positions (index : Index size) (kind : Kind) : List (Fin size) :=
  (index.kinds.lookup kind).getD []

def push (position : Fin size) (kind : Kind) :
    List (Kind × List (Fin size)) → List (Kind × List (Fin size))
  | [] => [(kind, [position])]
  | (first, positions) :: rest =>
    if kind = first then (first, positions ++ [position]) :: rest
    else (first, positions) :: push position kind rest

/-- Take up the rule at a position. A kind that it names repeatedly has the position repeatedly. -/
def insert (index : Index size) (rule : Rule) (position : Fin size) : Index size where
  ids := (rule.id, position) :: index.ids
  kinds := rule.kinds.foldl (fun kinds kind => push position kind kinds) index.kinds

theorem lookup_push (position : Fin size) (kind asked : Kind)
    (kinds : List (Kind × List (Fin size))) :
    ((push position kind kinds).lookup asked).getD [] =
      (kinds.lookup asked).getD [] ++ if asked = kind then [position] else [] := by
  induction kinds with
  | nil =>
    rw [push, Keyed.lookup_cons]
    split
    · rfl
    · rfl
  | cons head rest ih =>
    obtain ⟨first, positions⟩ := head
    unfold push
    by_cases hFirst : kind = first
    · subst hFirst
      rw [if_pos rfl, Keyed.lookup_cons, Keyed.lookup_cons]
      split
      · rfl
      · rw [List.append_nil]
    · rw [if_neg hFirst, Keyed.lookup_cons, Keyed.lookup_cons]
      by_cases hAsked : asked = first
      · subst hAsked
        rw [if_pos rfl, if_pos rfl, if_neg (Ne.symm hFirst), List.append_nil]
      · rw [if_neg hAsked, if_neg hAsked, ih]

theorem positions_insert (index : Index size) (rule : Rule) (position : Fin size) (kind : Kind) :
    (index.insert rule position).positions kind =
      index.positions kind ++ List.replicate (rule.kinds.count kind) position := by
  unfold insert positions
  dsimp only
  generalize index.kinds = kinds
  induction rule.kinds generalizing kinds with
  | nil => simp
  | cons first rest ih =>
    rw [List.foldl_cons, ih, lookup_push, List.append_assoc, List.count_cons]
    by_cases hFirst : kind = first
    · subst hFirst
      simp [List.replicate_succ]
    · simp [hFirst, Ne.symm hFirst]

end Index

namespace Registry

inductive Fault
  | outOfRange (number : UInt16) (rule : String)
  | repeated (id : RuleId) (existing rejected : String)
  deriving DecidableEq, Repr

/-- Take up the rule at a position, unless it has a fault. A number that needs five digits is
reported before a repeated one. -/
def register (rules : List Rule) (index : Index rules.length) (position : Fin rules.length) :
    Except Fault (Index rules.length) :=
  let rule := rules.get position
  if rule.id.isFourDigit then
    match index.ids.lookup rule.id with
    | some existing => .error (.repeated rule.id (rules.get existing).name rule.name)
    | none => .ok (index.insert rule position)
  else
    .error (.outOfRange rule.id.number rule.name)

def indexed (rules : List Rule) : Except Fault (Index rules.length) :=
  (List.finRange rules.length).foldlM (register rules) {}

end Registry

structure Index.Covers {rules : List Rule} (index : Index rules.length)
    (taken : List (Fin rules.length)) : Prop where
  bounded : ∀ position ∈ taken, (rules.get position).id.isFourDigit = true
  ids : Keyed.Positions (fun position => (rules.get position).id) index.ids taken
  kinds : ∀ kind, index.positions kind = taken.flatMap fun position =>
    List.replicate ((rules.get position).kinds.count kind) position

namespace Index.Covers

variable {rules : List Rule} {index next : Index rules.length}
  {taken : List (Fin rules.length)} {position : Fin rules.length}

theorem nil : ({} : Index rules.length).Covers [] where
  bounded _ hPosition := absurd hPosition List.not_mem_nil
  ids := .nil
  kinds _ := rfl

theorem register_eq_ok_iff (hCovers : index.Covers taken) :
    Registry.register rules index position = .ok next ↔
      (rules.get position).id.isFourDigit = true ∧
        (rules.get position).id ∉ taken.map (fun position => (rules.get position).id) ∧
        next = index.insert (rules.get position) position := by
  rw [← hCovers.ids.lookup_eq_none_iff]
  unfold Registry.register
  generalize rules.get position = rule
  dsimp only
  by_cases hRange : rule.id.isFourDigit = true
  · rw [if_pos hRange]
    cases index.ids.lookup rule.id with
    | some existing => simp
    | none => simp [hRange, eq_comm]
  · rw [if_neg hRange]
    simp [hRange]

theorem insert (hCovers : index.Covers taken)
    (hRange : (rules.get position).id.isFourDigit = true)
    (hNew : (rules.get position).id ∉ taken.map fun position => (rules.get position).id) :
    (index.insert (rules.get position) position).Covers (taken ++ [position]) where
  bounded other hOther := by
    rcases List.mem_append.1 hOther with hTaken | hLast
    · exact hCovers.bounded other hTaken
    · rw [List.mem_singleton.1 hLast]
      exact hRange
  ids := hCovers.ids.insert hNew
  kinds kind := by
    rw [positions_insert, hCovers.kinds, List.flatMap_append, List.flatMap_singleton]

theorem register (hCovers : index.Covers taken)
    (hStep : Registry.register rules index position = .ok next) :
    next.Covers (taken ++ [position]) := by
  obtain ⟨hRange, hNew, rfl⟩ := hCovers.register_eq_ok_iff.1 hStep
  exact hCovers.insert hRange hNew

end Index.Covers

theorem Registry.covers_of_foldlM {rules : List Rule} {index : Index rules.length}
    {taken : List (Fin rules.length)}
    (hTaken : taken.foldlM (Registry.register rules) {} = .ok index) : index.Covers taken :=
  Pass.foldlM_keeps Index.Covers.register Index.Covers.nil hTaken

theorem Registry.exists_foldlM_register {rules : List Rule} {taken : List (Fin rules.length)}
    (hBounded : ∀ position ∈ taken, (rules.get position).id.isFourDigit = true)
    (hDistinct : (taken.map fun position => (rules.get position).id).Nodup) :
    ∃ index, taken.foldlM (Registry.register rules) {} = .ok index := by
  cases hPass : taken.foldlM (Registry.register rules) {} with
  | ok index => exact ⟨index, rfl⟩
  | error fault =>
    obtain ⟨before, position, after, reached, rfl, hBefore, hFault⟩ :=
      Pass.foldlM_eq_error_iff.1 hPass
    have hNew : (rules.get position).id ∉ before.map fun position => (rules.get position).id := by
      intro hOld
      rw [List.map_append, List.nodup_append] at hDistinct
      exact hDistinct.2.2 _ hOld _ List.mem_cons_self rfl
    have hRange := hBounded position (List.mem_append_right before List.mem_cons_self)
    have hStep := (covers_of_foldlM hBefore).register_eq_ok_iff.2 ⟨hRange, hNew, rfl⟩
    cases hFault.symm.trans hStep

structure Registry where
  rules : List Rule
  index : Index rules.length
  built : Registry.indexed rules = .ok index

namespace Registry

theorem covers (registry : Registry) :
    registry.index.Covers (List.finRange registry.rules.length) :=
  covers_of_foldlM registry.built

theorem bounded (registry : Registry) : ∀ rule ∈ registry.rules, rule.id.isFourDigit = true := by
  intro rule hRule
  obtain ⟨position, rfl⟩ := List.get_of_mem hRule
  exact registry.covers.bounded position (List.mem_finRange position)

theorem distinct (registry : Registry) : (registry.rules.map Rule.id).Nodup :=
  registry.covers.ids.distinct_keys

theorem exists_indexed {rules : List Rule} (hBounded : ∀ rule ∈ rules, rule.id.isFourDigit = true)
    (hDistinct : (rules.map Rule.id).Nodup) : ∃ index, indexed rules = .ok index := by
  apply exists_foldlM_register
  · intro position _
    exact hBounded _ (List.get_mem rules position)
  · rw [Keyed.map_key_finRange]
    exact hDistinct

def ofRules (rules : List Rule) : Except Fault Registry :=
  match h : indexed rules with
  | .error fault => .error fault
  | .ok index => .ok ⟨rules, index, h⟩

def ofDistinct (rules : List Rule) (hBounded : ∀ rule ∈ rules, rule.id.isFourDigit = true)
    (hDistinct : (rules.map Rule.id).Nodup) : Registry :=
  match h : indexed rules with
  | .error _ => False.elim (by
      obtain ⟨index, hIndex⟩ := exists_indexed hBounded hDistinct
      cases h.symm.trans hIndex)
  | .ok index => ⟨rules, index, h⟩

@[simp] theorem rules_ofDistinct {rules : List Rule}
    (hBounded : ∀ rule ∈ rules, rule.id.isFourDigit = true)
    (hDistinct : (rules.map Rule.id).Nodup) :
    (ofDistinct rules hBounded hDistinct).rules = rules := by
  unfold ofDistinct
  split
  · next fault hFault =>
    obtain ⟨index, hIndex⟩ := exists_indexed hBounded hDistinct
    cases hFault.symm.trans hIndex
  · rfl

def builtin : Registry := ofDistinct Catalogue.rules (by decide) (by decide)

def get? (registry : Registry) (id : RuleId) : Option Rule :=
  (registry.index.ids.lookup id).map registry.rules.get

def contains (registry : Registry) (id : RuleId) : Bool := (registry.index.ids.lookup id).isSome

def rulesFor (registry : Registry) (kind : Kind) : List Rule :=
  (registry.index.positions kind).map registry.rules.get

/-- The index finds what a search of the list would find. -/
theorem get?_eq_find? (registry : Registry) (id : RuleId) :
    registry.get? id = registry.rules.find? fun rule => rule.id == id :=
  registry.covers.ids.map_get_lookup id

theorem get?_eq_some_iff {registry : Registry} {id : RuleId} {rule : Rule} :
    registry.get? id = some rule ↔ rule ∈ registry.rules ∧ rule.id = id := by
  rw [get?_eq_find?]
  exact Keyed.find?_key_eq_some_iff registry.distinct

/-- On nodes of a kind the rules run in their order, each as often as it names the kind. -/
theorem rulesFor_eq (registry : Registry) (kind : Kind) :
    registry.rulesFor kind =
      registry.rules.flatMap fun rule => List.replicate (rule.kinds.count kind) rule := by
  have hRules := congrArg
    (List.flatMap fun rule : Rule => List.replicate (rule.kinds.count kind) rule)
    (Keyed.map_get_finRange registry.rules)
  rw [List.flatMap_map] at hRules
  rw [rulesFor, registry.covers.kinds, List.map_flatMap, ← hRules]
  simp only [List.map_replicate]

end Registry

end CostlyCalls
