import Mathlib.Data.List.Forall2
import Mathlib.Order.Bounds.Basic
import CostlyCalls.Proofs.Supertypes

/-!
# Nearest interfaces first

The distance of a type is the length of the shortest chain of declarations that leads to it, and the
level of an interface is the least distance of a type that declares it. The search of
`TypeTable.interfacesOf` lists interfaces by their levels, and it looks up no type that cannot be
reached.

The invariant of the search says that its queue holds names of two distances, `depth` in front and
`depth + 1` behind. All names up to the distance `depth` have been queued by then, so that a name
which is new is one step farther than the name that declares it.
-/

set_option autoImplicit false

namespace CostlyCalls.TypeTable

inductive ReachesIn (table : TypeTable) (root : String) : Nat → String → Prop
  | refl : ReachesIn table root 0 root
  | tail {n : Nat} {lower upper : String} (hChain : ReachesIn table root n lower)
    (hStep : table.Declares lower upper) : ReachesIn table root (n + 1) upper

def IsDistance (table : TypeTable) (root name : String) (n : Nat) : Prop :=
  IsLeast {m | table.ReachesIn root m name} n

/-- The nearest type that declares the interface has distance `n` from `root`. -/
def IsLevel (table : TypeTable) (root interface : String) (n : Nat) : Prop :=
  IsLeast {m | ∃ lower, table.IsDistance root lower m ∧ table.DeclaresInterface lower interface} n

namespace Search

theorem found_note (root name : String) (s : Search) :
    (s.note root name).found =
      s.found ++ if name ≠ root ∧ name ∉ s.found then [name] else [] := by
  unfold note
  by_cases hOld : name = root ∨ name ∈ s.found
  · rw [if_pos hOld, if_neg (by tauto), List.append_nil]
  · rw [if_neg hOld, if_pos (by tauto)]

theorem queue_enqueue (name : String) (s : Search) :
    (s.enqueue name).queue = s.queue ++ if name ∉ s.queued then [name] else [] := by
  unfold enqueue
  by_cases hOld : name ∈ s.queued
  · rw [if_pos hOld, if_neg (not_not_intro hOld), List.append_nil]
  · rw [if_neg hOld, if_pos hOld]

theorem found_visitInterfaces (root : String) (names : List String) (s : Search) :
    (s.visitInterfaces root names).found =
      s.found ++ (names.filter fun x => x ≠ root ∧ x ∉ s.found).eraseDups := by
  induction names generalizing s with
  | nil => simp [visitInterfaces]
  | cons name rest ih =>
    rw [visitInterfaces, ih, found_enqueue, found_note, List.append_assoc, List.filter_cons]
    by_cases hNew : name ≠ root ∧ name ∉ s.found
    · rw [if_pos hNew, if_pos (decide_eq_true hNew), List.eraseDups_cons, List.filter_filter,
        List.singleton_append]
      congr 3
      apply List.filter_congr
      intro x _
      simp only [List.mem_append, List.mem_singleton]
      by_cases hSame : x = name <;> simp [hSame]
    · rw [if_neg hNew, if_neg (by simpa using hNew), List.append_nil, List.nil_append]

theorem found_visit (root : String) (entry : TypeEntry) (s : Search) :
    (s.visit root entry).found =
      s.found ++ (entry.interfaces.filter fun x => x ≠ root ∧ x ∉ s.found).eraseDups := by
  unfold visit
  split
  · exact found_visitInterfaces root entry.interfaces s
  · rw [found_enqueue]
    exact found_visitInterfaces root entry.interfaces s

theorem exists_queue_visitInterfaces (root : String) (names : List String) (s : Search) :
    ∃ new, (s.visitInterfaces root names).queue = s.queue ++ new ∧
      ∀ x ∈ new, x ∈ names ∧ x ∉ s.queued := by
  induction names generalizing s with
  | nil => exact ⟨[], by simp [visitInterfaces], by simp⟩
  | cons name rest ih =>
    obtain ⟨new, hQueue, hNew⟩ := ih ((s.note root name).enqueue name)
    rw [queue_enqueue, queue_note, queued_note, List.append_assoc] at hQueue
    refine ⟨_, hQueue, fun x hx => ?_⟩
    rcases List.mem_append.1 hx with hx | hx
    · split at hx
      · next hName =>
        rw [List.mem_singleton] at hx
        subst hx
        exact ⟨List.mem_cons_self, hName⟩
      · cases hx
    · obtain ⟨hRest, hOut⟩ := hNew x hx
      rw [mem_queued_enqueue, queued_note, not_or] at hOut
      exact ⟨List.mem_cons_of_mem _ hRest, hOut.1⟩

theorem exists_queue_visit (root : String) (entry : TypeEntry) (s : Search) :
    ∃ new, (s.visit root entry).queue = s.queue ++ new ∧
      ∀ x ∈ new, (x ∈ entry.interfaces ∨ entry.base = some x) ∧ x ∉ s.queued := by
  obtain ⟨new, hQueue, hNew⟩ := exists_queue_visitInterfaces root entry.interfaces s
  unfold visit
  split
  · exact ⟨new, hQueue, fun x hx => ⟨.inl (hNew x hx).1, (hNew x hx).2⟩⟩
  · next base hBase =>
    rw [queue_enqueue, hQueue, List.append_assoc]
    refine ⟨_, rfl, fun x hx => ?_⟩
    rcases List.mem_append.1 hx with hx | hx
    · exact ⟨.inl (hNew x hx).1, (hNew x hx).2⟩
    · split at hx
      · next hOut =>
        rw [List.mem_singleton] at hx
        subst hx
        rw [mem_queued_visitInterfaces, not_or] at hOut
        exact ⟨.inr hBase, hOut.1⟩
      · cases hx

/-- What holds of a search whose queue consists of names at the distance `depth`, in front, and of
names that are one step farther. -/
structure Layered (table : TypeTable) (root : String) (depth : Nat) (front back : List String)
    (s : Search) : Prop where
  valid : s.Valid table root
  queue : s.queue = front ++ back
  front : ∀ x ∈ front, table.IsDistance root x depth
  back : ∀ x ∈ back, table.IsDistance root x (depth + 1)
  near : ∀ n ≤ depth, ∀ x, table.ReachesIn root n x → x ∈ s.queued
  found : ∃ levels, List.Forall₂ (table.IsLevel root) s.found levels ∧ levels.Pairwise (· ≤ ·) ∧
    ∀ n ∈ levels, n ≤ depth

theorem layered_start (table : TypeTable) (root : String) :
    (start root).Layered table root 0 [root] [] where
  valid := valid_start table root
  queue := rfl
  front x hx := by
    rw [List.mem_singleton.1 hx]
    exact ⟨.refl, fun n _ => Nat.zero_le n⟩
  back x hx := absurd hx List.not_mem_nil
  near n hn x hx := by
    obtain rfl : n = 0 := by omega
    cases hx
    exact List.mem_singleton_self root
  found := ⟨[], .nil, .nil, fun n hn => absurd hn List.not_mem_nil⟩

namespace Layered

variable {table : TypeTable} {root : String} {depth : Nat} {front back : List String} {s : Search}

theorem depth_le_of_mem (hLayered : s.Layered table root depth front back) {x : String} {n : Nat}
    (hReaches : table.ReachesIn root n x) (hx : x ∈ s.queue) : depth ≤ n := by
  rw [hLayered.queue, List.mem_append] at hx
  rcases hx with hx | hx
  · exact (hLayered.front x hx).2 hReaches
  · have hFar : depth + 1 ≤ n := (hLayered.back x hx).2 hReaches
    omega

theorem taken_up (hLayered : s.Layered table root depth front back) {x : String} {n : Nat}
    (hReaches : table.ReachesIn root n x) (hNear : n < depth) : x ∈ s.queued ∧ x ∉ s.queue := by
  refine ⟨hLayered.near n (by omega) x hReaches, fun hx => ?_⟩
  have hFar := hLayered.depth_le_of_mem hReaches hx
  omega

theorem advance (hLayered : s.Layered table root depth [] back) :
    s.Layered table root (depth + 1) back [] where
  valid := hLayered.valid
  queue := by rw [hLayered.queue, List.append_nil, List.nil_append]
  front := hLayered.back
  back x hx := absurd hx List.not_mem_nil
  near n hn x hReaches := by
    by_cases hNear : n ≤ depth
    · exact hLayered.near n hNear x hReaches
    · obtain rfl : n = depth + 1 := by omega
      cases hReaches with
      | @tail _ lower _ hChain hStep =>
        have hOut : lower ∉ s.queue := by
          intro hLower
          rw [hLayered.queue, List.nil_append] at hLower
          have hFar : depth + 1 ≤ depth := (hLayered.back lower hLower).2 hChain
          omega
        exact hLayered.valid.handed_on lower (hLayered.near depth le_rfl lower hChain) hOut x hStep
  found := by
    obtain ⟨levels, hLevels, hSorted, hBound⟩ := hLayered.found
    refine ⟨levels, hLevels, hSorted, fun n hn => ?_⟩
    have hLe := hBound n hn
    omega

theorem exists_front (hLayered : s.Layered table root depth front back) {name : String}
    {rest : List String} (hQueue : s.queue = name :: rest) :
    ∃ depth front back, s.Layered table root depth (name :: front) back := by
  have hSplit : front ++ back = name :: rest := hLayered.queue.symm.trans hQueue
  cases front with
  | cons head tail =>
    rw [List.cons_append, List.cons.injEq] at hSplit
    obtain ⟨rfl, -⟩ := hSplit
    exact ⟨depth, tail, back, hLayered⟩
  | nil =>
    rw [List.nil_append] at hSplit
    subst hSplit
    exact ⟨depth + 1, rest, [], hLayered.advance⟩

theorem skip {name : String} (hLayered : s.Layered table root depth (name :: front) back)
    (hFind : table.find? name = none) :
    ({ s with queue := front ++ back } : Search).Layered table root depth front back where
  valid := hLayered.valid.skip hLayered.queue hFind
  queue := rfl
  front x hx := hLayered.front x (List.mem_cons_of_mem _ hx)
  back := hLayered.back
  near := hLayered.near
  found := hLayered.found

theorem isDistance_of_new {name : String}
    (hLayered : s.Layered table root depth (name :: front) back) {x : String}
    (hStep : table.Declares name x) (hNew : x ∉ s.queued) :
    table.IsDistance root x (depth + 1) := by
  obtain ⟨hChain, -⟩ := hLayered.front name List.mem_cons_self
  refine ⟨.tail hChain hStep, fun n hReaches => ?_⟩
  by_contra hLess
  exact hNew (hLayered.near n (by omega) x hReaches)

theorem isLevel_of_new {name : String}
    (hLayered : s.Layered table root depth (name :: front) back) {x : String}
    (hDeclares : table.DeclaresInterface name x) (hRoot : x ≠ root) (hNew : x ∉ s.found) :
    table.IsLevel root x depth := by
  refine ⟨⟨name, hLayered.front name List.mem_cons_self, hDeclares⟩, ?_⟩
  rintro n ⟨lower, hDistance, hLower⟩
  by_contra hLess
  obtain ⟨hQueued, hOut⟩ := hLayered.taken_up hDistance.1 (by omega)
  exact hNew (hLayered.valid.noted lower hQueued hOut x hLower hRoot)

theorem found_visit {name : String} {entry : TypeEntry}
    (hLayered : s.Layered table root depth (name :: front) back)
    (hFind : table.find? name = some entry) :
    ∃ levels, List.Forall₂ (table.IsLevel root) (s.visit root entry).found levels ∧
      levels.Pairwise (· ≤ ·) ∧ ∀ n ∈ levels, n ≤ depth := by
  obtain ⟨levels, hLevels, hSorted, hBound⟩ := hLayered.found
  rw [Search.found_visit]
  generalize hAdded : (entry.interfaces.filter _).eraseDups = added
  have hLevel : ∀ x ∈ added, table.IsLevel root x depth := by
    intro x hx
    rw [← hAdded, List.mem_eraseDups, List.mem_filter, decide_eq_true_eq] at hx
    obtain ⟨hInterface, hRoot, hNew⟩ := hx
    exact hLayered.isLevel_of_new ⟨entry, hFind, hInterface⟩ hRoot hNew
  have hConstant : List.Forall₂ (table.IsLevel root) added (List.replicate added.length depth) := by
    rw [← List.map_const', List.forall₂_map_right_iff, List.forall₂_same]
    exact hLevel
  refine ⟨levels ++ List.replicate added.length depth, List.rel_append hLevels hConstant, ?_, ?_⟩
  · rw [List.pairwise_append]
    refine ⟨hSorted, List.pairwise_replicate.2 (.inr le_rfl), fun n hn m hm => ?_⟩
    rw [List.eq_of_mem_replicate hm]
    exact hBound n hn
  · intro n hn
    rcases List.mem_append.1 hn with hn | hn
    · exact hBound n hn
    · exact (List.eq_of_mem_replicate hn).le

theorem visit {name : String} {entry : TypeEntry}
    (hLayered : s.Layered table root depth (name :: front) back)
    (hFind : table.find? name = some entry) :
    ∃ farther, (Search.visit root entry { s with queue := front ++ back }).Layered table root depth
      front farther := by
  obtain ⟨new, hQueue, hNew⟩ := exists_queue_visit root entry { s with queue := front ++ back }
  exact ⟨back ++ new, {
    valid := hLayered.valid.visit hLayered.queue hFind
    queue := by rw [hQueue, List.append_assoc]
    front := fun x hx => hLayered.front x (List.mem_cons_of_mem _ hx)
    back := by
      intro x hx
      rcases List.mem_append.1 hx with hx | hx
      · exact hLayered.back x hx
      · obtain ⟨hDeclared, hOut⟩ := hNew x hx
        exact hLayered.isDistance_of_new ⟨entry, hFind, hDeclared⟩ hOut
    near := by
      intro n hn x hReaches
      rw [mem_queued_visit]
      exact .inl (hLayered.near n hn x hReaches)
    found := by
      have hFound := hLayered.found_visit hFind
      rw [Search.found_visit] at hFound ⊢
      exact hFound }⟩

end Layered

end Search

theorem exists_levels_explore {table : TypeTable} {root : String} {s : Search} {depth : Nat}
    {front back : List String} (hLayered : s.Layered table root depth front back) :
    ∃ levels, List.Forall₂ (table.IsLevel root) (table.explore root s) levels ∧
      levels.Pairwise (· ≤ ·) := by
  fun_induction table.explore root s generalizing depth front back with
  | case1 s hQueue =>
    obtain ⟨levels, hLevels, hSorted, -⟩ := hLayered.found
    exact ⟨levels, hLevels, hSorted⟩
  | case2 s name rest hQueue hFind ih =>
    obtain ⟨depth, front, back, hFront⟩ := hLayered.exists_front hQueue
    obtain rfl : rest = front ++ back := (List.cons.inj (hQueue.symm.trans hFront.queue)).2
    exact ih (hFront.skip hFind)
  | case3 s name rest hQueue entry hFind ih =>
    obtain ⟨depth, front, back, hFront⟩ := hLayered.exists_front hQueue
    obtain rfl : rest = front ++ back := (List.cons.inj (hQueue.symm.trans hFront.queue)).2
    obtain ⟨farther, hVisit⟩ := hFront.visit hFind
    exact ih hVisit

theorem found_prefix_explore (table : TypeTable) (root : String) (s : Search) :
    s.found <+: table.explore root s := by
  fun_induction table.explore root s with
  | case1 s hQueue => exact List.prefix_rfl
  | case2 s name rest hQueue hFind ih => exact ih
  | case3 s name rest hQueue entry hFind ih =>
    refine List.IsPrefix.trans ?_ ih
    rw [Search.found_visit]
    exact List.prefix_append _ _

section

variable {table : TypeTable} {root name : String} {rest : List String} {s : Search}

theorem explore_of_nil (hQueue : s.queue = []) : table.explore root s = s.found := by
  rw [explore]
  split
  · rfl
  · next hCons =>
    rw [hQueue] at hCons
    cases hCons

theorem explore_of_unknown (hQueue : s.queue = name :: rest) (hFind : table.find? name = none) :
    table.explore root s = table.explore root { s with queue := rest } := by
  rw [explore]
  split
  · next hNil =>
    rw [hQueue] at hNil
    cases hNil
  · next hCons =>
    cases hQueue.symm.trans hCons
    split
    · rfl
    · next hFound =>
      rw [hFind] at hFound
      cases hFound

theorem explore_of_known {entry : TypeEntry} (hQueue : s.queue = name :: rest)
    (hFind : table.find? name = some entry) :
    table.explore root s =
      table.explore root (Search.visit root entry { s with queue := rest }) := by
  rw [explore]
  split
  · next hNil =>
    rw [hQueue] at hNil
    cases hNil
  · next hCons =>
    cases hQueue.symm.trans hCons
    split
    · next hNone =>
      rw [hFind] at hNone
      cases hNone
    · next hFound =>
      cases hFind.symm.trans hFound
      rfl

end

theorem own_prefix_interfacesOf {table : TypeTable} {name : String} {entry : TypeEntry}
    (hFind : table.find? name = some entry) :
    (entry.interfaces.filter (· ≠ name)).eraseDups <+: table.interfacesOf name := by
  rw [interfacesOf, explore_of_known rfl hFind]
  have hPrefix := found_prefix_explore table name
    (Search.visit name entry { Search.start name with queue := [] })
  rw [Search.found_visit] at hPrefix
  simpa [Search.start] using hPrefix

theorem explore_congr {table other : TypeTable} {root : String} {s : Search}
    (hSame : ∀ x ∈ s.queue, ∀ y, table.Reaches x y → other.find? y = table.find? y) :
    other.explore root s = table.explore root s := by
  fun_induction table.explore root s with
  | case1 s hQueue => exact explore_of_nil hQueue
  | case2 s name rest hQueue hFind ih =>
    have hOther : other.find? name = none := by
      rw [hSame name (hQueue ▸ List.mem_cons_self) name .refl, hFind]
    rw [explore_of_unknown hQueue hOther]
    apply ih
    intro x hx
    exact hSame x (hQueue ▸ List.mem_cons_of_mem _ hx)
  | case3 s name rest hQueue entry hFind ih =>
    have hName : name ∈ s.queue := hQueue ▸ List.mem_cons_self
    have hOther : other.find? name = some entry := by
      rw [hSame name hName name .refl, hFind]
    rw [explore_of_known hQueue hOther]
    apply ih
    intro x hx y hReaches
    rcases Search.mem_queue_visit.1 hx with hx | ⟨hDeclared, -⟩
    · exact hSame x (hQueue ▸ List.mem_cons_of_mem _ hx) y hReaches
    · exact hSame name hName y (.head ⟨entry, hFind, hDeclared⟩ hReaches)

/-- The interfaces of a type are listed level by level, and depend on nothing but the types that can
be reached. -/
theorem interfacesOf_breadth_first (table : TypeTable) (name : String) :
    (∃ levels, List.Forall₂ (table.IsLevel name) (table.interfacesOf name) levels ∧
      levels.Pairwise (· ≤ ·)) ∧
    (∀ entry, table.find? name = some entry →
      (entry.interfaces.filter (· ≠ name)).eraseDups <+: table.interfacesOf name) ∧
    ∀ other : TypeTable,
      (∀ lower, table.Reaches name lower → other.find? lower = table.find? lower) →
        other.interfacesOf name = table.interfacesOf name := by
  refine ⟨exists_levels_explore (Search.layered_start table name),
    fun entry => own_prefix_interfacesOf, fun other hSame => explore_congr ?_⟩
  intro x hx lower hReaches
  rw [Search.start, List.mem_singleton] at hx
  subst hx
  exact hSame lower hReaches

example :
    (TypeTable.ofList [("Jobs", ⟨["Deep", "Jobs", "Deep"], some "Queue"⟩),
      ("Deep", ⟨["Deeper"], none⟩), ("Deeper", ⟨["Last", "Feed"], none⟩),
      ("Queue", ⟨["Feed"], none⟩)]).interfacesOf "Jobs" = ["Deep", "Deeper", "Feed", "Last"] := by
  decide +kernel

end CostlyCalls.TypeTable
