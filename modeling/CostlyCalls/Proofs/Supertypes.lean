import Mathlib.Logic.Relation
import Mathlib.Tactic.Tauto
import CostlyCalls.TypeTable.Closure

/-!
# Supertypes

A type declares its interfaces and its base; chains of such declarations lead to its supertypes. The
search of `TypeTable.interfacesOf` is compared with these chains: it lists exactly the interfaces
that some type at the end of a chain declares, each once, the type itself left out.

The invariant of the search says that every queued name is at the end of a chain, and that a name
which has left the queue has handed on all that its entry declares.
-/

set_option autoImplicit false

namespace CostlyCalls.TypeTable

def DeclaresInterface (table : TypeTable) (lower upper : String) : Prop :=
  ∃ entry, table.find? lower = some entry ∧ upper ∈ entry.interfaces

def Declares (table : TypeTable) (lower upper : String) : Prop :=
  ∃ entry, table.find? lower = some entry ∧ (upper ∈ entry.interfaces ∨ entry.base = some upper)

def Reaches (table : TypeTable) : String → String → Prop := Relation.ReflTransGen table.Declares

/-- Some type that `name` reaches declares the interface, and the interface is not `name` itself. -/
def Inherits (table : TypeTable) (name interface : String) : Prop :=
  interface ≠ name ∧ ∃ lower, table.Reaches name lower ∧ table.DeclaresInterface lower interface

namespace Search

theorem mem_found_note {root name x : String} {s : Search} :
    x ∈ (s.note root name).found ↔ x ∈ s.found ∨ (x = name ∧ x ≠ root) := by
  unfold note
  split
  · next hOld =>
    refine ⟨.inl, ?_⟩
    rintro (hFound | ⟨rfl, hRoot⟩)
    · exact hFound
    · exact hOld.resolve_left hRoot
  · next hNew =>
    rw [not_or] at hNew
    simp only [List.mem_append, List.mem_singleton]
    refine or_congr_right ⟨fun hEq => ⟨hEq, hEq ▸ hNew.1⟩, And.left⟩

@[simp] theorem queue_note (root name : String) (s : Search) :
    (s.note root name).queue = s.queue := by
  unfold note
  split <;> rfl

@[simp] theorem queued_note (root name : String) (s : Search) :
    (s.note root name).queued = s.queued := by
  unfold note
  split <;> rfl

@[simp] theorem found_enqueue (name : String) (s : Search) : (s.enqueue name).found = s.found := by
  unfold enqueue
  split <;> rfl

theorem mem_queued_enqueue {name x : String} {s : Search} :
    x ∈ (s.enqueue name).queued ↔ x ∈ s.queued ∨ x = name := by
  unfold enqueue
  split
  · next hOld => exact ⟨.inl, fun h => h.elim id fun hEq => hEq ▸ hOld⟩
  · exact List.mem_cons.trans Or.comm

theorem mem_queue_enqueue {name x : String} {s : Search} :
    x ∈ (s.enqueue name).queue ↔ x ∈ s.queue ∨ (x = name ∧ name ∉ s.queued) := by
  unfold enqueue
  split
  · next hOld => simp [hOld]
  · next hNew => simp [hNew]

theorem mem_found_visitInterfaces {root x : String} {names : List String} {s : Search} :
    x ∈ (s.visitInterfaces root names).found ↔ x ∈ s.found ∨ (x ∈ names ∧ x ≠ root) := by
  induction names generalizing s with
  | nil => simp [visitInterfaces]
  | cons name rest ih =>
    rw [visitInterfaces, ih, found_enqueue, mem_found_note, List.mem_cons]
    tauto

theorem mem_queued_visitInterfaces {root x : String} {names : List String} {s : Search} :
    x ∈ (s.visitInterfaces root names).queued ↔ x ∈ s.queued ∨ x ∈ names := by
  induction names generalizing s with
  | nil => simp [visitInterfaces]
  | cons name rest ih =>
    rw [visitInterfaces, ih, mem_queued_enqueue, queued_note, List.mem_cons]
    tauto

theorem mem_queue_visitInterfaces {root x : String} {names : List String} {s : Search} :
    x ∈ (s.visitInterfaces root names).queue ↔ x ∈ s.queue ∨ (x ∈ names ∧ x ∉ s.queued) := by
  induction names generalizing s with
  | nil => simp [visitInterfaces]
  | cons name rest ih =>
    rw [visitInterfaces, ih, mem_queue_enqueue, mem_queued_enqueue, queued_note, queue_note,
      List.mem_cons]
    by_cases hEq : x = name
    · subst hEq
      tauto
    · tauto

theorem mem_found_visit {root x : String} {entry : TypeEntry} {s : Search} :
    x ∈ (s.visit root entry).found ↔ x ∈ s.found ∨ (x ∈ entry.interfaces ∧ x ≠ root) := by
  unfold visit
  split
  · exact mem_found_visitInterfaces
  · rw [found_enqueue]
    exact mem_found_visitInterfaces

theorem mem_queued_visit {root x : String} {entry : TypeEntry} {s : Search} :
    x ∈ (s.visit root entry).queued ↔
      x ∈ s.queued ∨ x ∈ entry.interfaces ∨ entry.base = some x := by
  unfold visit
  split
  · next hBase => simp [mem_queued_visitInterfaces, hBase]
  · next base hBase =>
    rw [mem_queued_enqueue, mem_queued_visitInterfaces, hBase, Option.some_inj, or_assoc,
      eq_comm (a := x)]

theorem mem_queue_visit {root x : String} {entry : TypeEntry} {s : Search} :
    x ∈ (s.visit root entry).queue ↔
      x ∈ s.queue ∨ ((x ∈ entry.interfaces ∨ entry.base = some x) ∧ x ∉ s.queued) := by
  unfold visit
  split
  · next hBase => simp [mem_queue_visitInterfaces, hBase]
  · next base hBase =>
    rw [mem_queue_enqueue, mem_queued_visitInterfaces, mem_queue_visitInterfaces, hBase,
      Option.some_inj]
    by_cases hEq : x = base
    · subst hEq
      tauto
    · have hNe : base ≠ x := Ne.symm hEq
      tauto

theorem nodup_found_note {root name : String} {s : Search} (hFound : s.found.Nodup) :
    (s.note root name).found.Nodup := by
  unfold note
  split
  · exact hFound
  · next hNew =>
    apply List.nodup_append.2
    refine ⟨hFound, List.pairwise_singleton _ name, ?_⟩
    rintro x hx y hy rfl
    rw [List.mem_singleton.1 hy] at hx
    exact hNew (.inr hx)

theorem nodup_found_visitInterfaces {root : String} {names : List String} {s : Search}
    (hFound : s.found.Nodup) : (s.visitInterfaces root names).found.Nodup := by
  induction names generalizing s with
  | nil => exact hFound
  | cons name rest ih =>
    apply ih
    rw [found_enqueue]
    exact nodup_found_note hFound

theorem nodup_found_visit {root : String} {entry : TypeEntry} {s : Search}
    (hFound : s.found.Nodup) : (s.visit root entry).found.Nodup := by
  unfold visit
  split
  · exact nodup_found_visitInterfaces hFound
  · rw [found_enqueue]
    exact nodup_found_visitInterfaces hFound

/-- What holds of a search from `root` whenever it takes the next name from its queue. -/
structure Valid (table : TypeTable) (root : String) (s : Search) : Prop where
  root_queued : root ∈ s.queued
  queue_queued : ∀ x ∈ s.queue, x ∈ s.queued
  reached : ∀ x ∈ s.queued, table.Reaches root x
  handed_on : ∀ x ∈ s.queued, x ∉ s.queue → ∀ y, table.Declares x y → y ∈ s.queued
  noted : ∀ x ∈ s.queued, x ∉ s.queue → ∀ y, table.DeclaresInterface x y → y ≠ root → y ∈ s.found
  inherited : ∀ y ∈ s.found, table.Inherits root y

theorem valid_start (table : TypeTable) (root : String) : (start root).Valid table root where
  root_queued := List.mem_singleton_self root
  queue_queued _ hx := hx
  reached x hx := by
    rw [List.mem_singleton.1 hx]
    exact .refl
  handed_on x hx hOut := absurd hx hOut
  noted x hx hOut := absurd hx hOut
  inherited _ hy := absurd hy List.not_mem_nil

theorem Valid.skip {table : TypeTable} {root name : String} {rest : List String} {s : Search}
    (hValid : s.Valid table root) (hQueue : s.queue = name :: rest)
    (hFind : table.find? name = none) : ({ s with queue := rest } : Search).Valid table root := by
  have hOutside : ∀ x entry, table.find? x = some entry → x ∉ rest → x ∉ s.queue := by
    intro x entry hEntry hOut hMem
    rw [hQueue] at hMem
    rcases List.mem_cons.1 hMem with rfl | hRest
    · rw [hFind] at hEntry
      cases hEntry
    · exact hOut hRest
  exact {
    root_queued := hValid.root_queued
    queue_queued := fun x hx => hValid.queue_queued x (hQueue ▸ List.mem_cons_of_mem _ hx)
    reached := hValid.reached
    handed_on := by
      intro x hx hOut y hy
      obtain ⟨entry, hEntry, -⟩ := id hy
      exact hValid.handed_on x hx (hOutside x entry hEntry hOut) y hy
    noted := by
      intro x hx hOut y hy
      obtain ⟨entry, hEntry, -⟩ := id hy
      exact hValid.noted x hx (hOutside x entry hEntry hOut) y hy
    inherited := hValid.inherited }

theorem Valid.visit {table : TypeTable} {root name : String} {rest : List String} {s : Search}
    {entry : TypeEntry} (hValid : s.Valid table root) (hQueue : s.queue = name :: rest)
    (hFind : table.find? name = some entry) :
    (Search.visit root entry { s with queue := rest }).Valid table root := by
  have hName : name ∈ s.queued := hValid.queue_queued name (hQueue ▸ List.mem_cons_self)
  have hReaches : table.Reaches root name := hValid.reached name hName
  have hOutside : ∀ x ∈ (Search.visit root entry { s with queue := rest }).queued,
      x ∉ (Search.visit root entry { s with queue := rest }).queue →
      x = name ∨ (x ∈ s.queued ∧ x ∉ s.queue) := by
    intro x hx hOut
    rw [mem_queued_visit] at hx
    rw [mem_queue_visit, not_or, not_and_or, not_not] at hOut
    have hOld : x ∈ s.queued := by tauto
    by_cases hEq : x = name
    · exact .inl hEq
    · refine .inr ⟨hOld, ?_⟩
      rw [hQueue, List.mem_cons, not_or]
      exact ⟨hEq, hOut.1⟩
  exact {
    root_queued := mem_queued_visit.2 (.inl hValid.root_queued)
    queue_queued := by
      intro x hx
      rw [mem_queue_visit] at hx
      rw [mem_queued_visit]
      rcases hx with hx | hx
      · exact .inl (hValid.queue_queued x (hQueue ▸ List.mem_cons_of_mem _ hx))
      · exact .inr hx.1
    reached := by
      intro x hx
      rcases mem_queued_visit.1 hx with hx | hx
      · exact hValid.reached x hx
      · exact hReaches.tail ⟨entry, hFind, hx⟩
    handed_on := by
      intro x hx hOut y hy
      rw [mem_queued_visit]
      rcases hOutside x hx hOut with rfl | ⟨hOld, hOld'⟩
      · obtain ⟨found, hFound, hDeclared⟩ := hy
        rw [hFind, Option.some_inj] at hFound
        exact .inr (hFound ▸ hDeclared)
      · exact .inl (hValid.handed_on x hOld hOld' y hy)
    noted := by
      intro x hx hOut y hy hRoot
      rw [mem_found_visit]
      rcases hOutside x hx hOut with rfl | ⟨hOld, hOld'⟩
      · obtain ⟨found, hFound, hDeclared⟩ := hy
        rw [hFind, Option.some_inj] at hFound
        exact .inr ⟨hFound ▸ hDeclared, hRoot⟩
      · exact .inl (hValid.noted x hOld hOld' y hy hRoot)
    inherited := by
      intro y hy
      rcases mem_found_visit.1 hy with hy | ⟨hy, hRoot⟩
      · exact hValid.inherited y hy
      · exact ⟨hRoot, name, hReaches, entry, hFind, hy⟩ }

theorem Valid.queued_of_reaches {table : TypeTable} {root x : String} {s : Search}
    (hValid : s.Valid table root) (hQueue : s.queue = []) (hReaches : table.Reaches root x) :
    x ∈ s.queued := by
  induction hReaches with
  | refl => exact hValid.root_queued
  | tail _ hStep ih => exact hValid.handed_on _ ih (hQueue ▸ List.not_mem_nil) _ hStep

end Search

theorem mem_explore_iff {table : TypeTable} {root : String} {s : Search} {interface : String}
    (hValid : s.Valid table root) :
    interface ∈ table.explore root s ↔ table.Inherits root interface := by
  fun_induction table.explore root s with
  | case1 s hQueue =>
    refine ⟨hValid.inherited interface, ?_⟩
    rintro ⟨hRoot, lower, hReaches, hDeclares⟩
    have hQueued := hValid.queued_of_reaches hQueue hReaches
    exact hValid.noted lower hQueued (hQueue ▸ List.not_mem_nil) interface hDeclares hRoot
  | case2 s name rest hQueue hFind ih => exact ih (hValid.skip hQueue hFind)
  | case3 s name rest hQueue entry hFind ih => exact ih (hValid.visit hQueue hFind)

theorem mem_interfacesOf_iff {table : TypeTable} {name interface : String} :
    interface ∈ table.interfacesOf name ↔ table.Inherits name interface :=
  mem_explore_iff (Search.valid_start table name)

theorem nodup_explore {table : TypeTable} {root : String} {s : Search} (hFound : s.found.Nodup) :
    (table.explore root s).Nodup := by
  fun_induction table.explore root s with
  | case1 s hQueue => exact hFound
  | case2 s name rest hQueue hFind ih => exact ih hFound
  | case3 s name rest hQueue entry hFind ih => exact ih (Search.nodup_found_visit hFound)

theorem nodup_interfacesOf (table : TypeTable) (name : String) :
    (table.interfacesOf name).Nodup :=
  nodup_explore List.nodup_nil

def DeclaresBase (table : TypeTable) (lower upper : String) : Prop :=
  ∃ entry, table.find? lower = some entry ∧ entry.base = some upper

/-- The interfaces of a type are those that it declares or inherits, other than itself, each listed
once. -/
theorem interfacesOf_lists_inherited_once (table : TypeTable) (name : String) :
    (∀ interface, interface ∈ table.interfacesOf name ↔
      interface ≠ name ∧
        ∃ lower, table.Reaches name lower ∧ table.DeclaresInterface lower interface) ∧
    (∀ interface ∈ table.interfacesOf name, (table.interfacesOf name).count interface = 1) ∧
    (∀ lower base, table.Reaches name lower → table.DeclaresBase lower base →
      (∀ other, table.Reaches name other → ¬table.DeclaresInterface other base) →
        base ∉ table.interfacesOf name) ∧
    (∀ lower other interface, table.Reaches name lower → table.DeclaresBase lower interface →
      table.Reaches name other → table.DeclaresInterface other interface → interface ≠ name →
        (table.interfacesOf name).count interface = 1) ∧
    name ∉ table.interfacesOf name := by
  have hOnce : ∀ interface ∈ table.interfacesOf name,
      (table.interfacesOf name).count interface = 1 := by
    intro interface hListed
    rw [(nodup_interfacesOf table name).count, if_pos hListed]
  refine ⟨fun interface => mem_interfacesOf_iff, hOnce, ?_, ?_, ?_⟩
  · intro lower base _ _ hNever hListed
    obtain ⟨-, other, hReaches, hDeclares⟩ := mem_interfacesOf_iff.1 hListed
    exact hNever other hReaches hDeclares
  · intro lower other interface _ _ hReaches hDeclares hOther
    apply hOnce
    exact mem_interfacesOf_iff.2 ⟨hOther, other, hReaches, hDeclares⟩
  · intro hListed
    exact (mem_interfacesOf_iff.1 hListed).1 rfl

example :
    (TypeTable.ofList [("Jobs", ⟨["Batch", "Batch"], some "Queue"⟩),
      ("Batch", ⟨["Jobs", "Queue"], none⟩), ("Queue", ⟨["Feed"], some "Store"⟩)]).interfacesOf
        "Jobs" = ["Batch", "Queue", "Feed"] := by
  decide +kernel

end CostlyCalls.TypeTable
