import CostlyCalls.TypeTable

/-!
# The interfaces of a type

`TypeTable.interfacesOf` lists the interfaces that a type declares itself or inherits through any
chain of base types and interfaces. The search is breadth first. Every name enters the queue at
most once, so tables whose declarations form cycles are searched in finitely many steps.
-/

set_option autoImplicit false

namespace CostlyCalls.TypeTable

structure Search where
  queue : List String
  queued : List String
  found : List String
  deriving DecidableEq, Repr

namespace Search

def start (root : String) : Search := ⟨[root], [root], []⟩

/-- Note an interface; the type itself and noted ones are passed over. -/
def note (root name : String) (s : Search) : Search :=
  if name = root ∨ name ∈ s.found then s else { s with found := s.found ++ [name] }

def enqueue (name : String) (s : Search) : Search :=
  if name ∈ s.queued then s
  else { s with queue := s.queue ++ [name], queued := name :: s.queued }

def visitInterfaces (root : String) : List String → Search → Search
  | [], s => s
  | name :: rest, s => visitInterfaces root rest ((s.note root name).enqueue name)

/-- Take up an entry: its interfaces in order, and then its base, which is queued but not noted. -/
def visit (root : String) (entry : TypeEntry) (s : Search) : Search :=
  match entry.base with
  | none => s.visitInterfaces root entry.interfaces
  | some base => (s.visitInterfaces root entry.interfaces).enqueue base

/-- The work that is left: queued names not yet looked up, and mentions of names not yet queued. -/
def work (mentions : List String) (s : Search) : Nat :=
  s.queue.length + (mentions.filter (fun name => name ∉ s.queued)).length

theorem work_note (mentions : List String) (root name : String) (s : Search) :
    (s.note root name).work mentions = s.work mentions := by
  unfold note
  split <;> rfl

theorem length_filter_cons_le {mentions queued : List String} {name : String} :
    (mentions.filter (fun x => x ∉ name :: queued)).length
      ≤ (mentions.filter (fun x => x ∉ queued)).length := by
  rw [← List.countP_eq_length_filter, ← List.countP_eq_length_filter]
  apply List.countP_mono_left
  intro x _ hx
  rw [decide_eq_true_eq, List.mem_cons, not_or] at hx
  exact decide_eq_true hx.2

theorem length_filter_cons_lt {mentions queued : List String} {name : String}
    (hMem : name ∈ mentions) (hNew : name ∉ queued) :
    (mentions.filter (fun x => x ∉ name :: queued)).length
      < (mentions.filter (fun x => x ∉ queued)).length := by
  rw [← List.countP_eq_length_filter, ← List.countP_eq_length_filter]
  obtain ⟨before, after, rfl⟩ := List.append_of_mem hMem
  have hBefore := @length_filter_cons_le before queued name
  have hAfter := @length_filter_cons_le after queued name
  rw [← List.countP_eq_length_filter, ← List.countP_eq_length_filter] at hBefore hAfter
  have hOut : decide (name ∉ name :: queued) = false :=
    decide_eq_false fun h => h List.mem_cons_self
  have hIn : decide (name ∉ queued) = true := decide_eq_true hNew
  rw [List.countP_append, List.countP_append, List.countP_cons, List.countP_cons, hOut, hIn,
    if_neg Bool.false_ne_true, if_pos rfl]
  omega

theorem work_enqueue_le {mentions : List String} {name : String} (s : Search)
    (hMem : name ∈ mentions) : (s.enqueue name).work mentions ≤ s.work mentions := by
  unfold enqueue
  split
  · exact Nat.le_refl _
  · next hNew =>
    have hLt := length_filter_cons_lt hMem hNew
    simp only [work, List.length_append, List.length_cons, List.length_nil]
    omega

theorem work_visitInterfaces_le {mentions : List String} {root : String} {names : List String}
    (s : Search) (hMem : ∀ name ∈ names, name ∈ mentions) :
    (s.visitInterfaces root names).work mentions ≤ s.work mentions := by
  induction names generalizing s with
  | nil => exact Nat.le_refl _
  | cons name rest ih =>
    refine Nat.le_trans (ih _ fun x hx => hMem x (List.mem_cons_of_mem _ hx)) ?_
    refine Nat.le_trans (work_enqueue_le _ (hMem name List.mem_cons_self)) ?_
    exact Nat.le_of_eq (work_note ..)

theorem work_visit_le {mentions : List String} {root : String} {entry : TypeEntry} (s : Search)
    (hMem : ∀ name ∈ entry.interfaces ++ entry.base.toList, name ∈ mentions) :
    (s.visit root entry).work mentions ≤ s.work mentions := by
  have hInterfaces : ∀ name ∈ entry.interfaces, name ∈ mentions :=
    fun name hName => hMem name (List.mem_append_left _ hName)
  unfold visit
  split
  · exact work_visitInterfaces_le s hInterfaces
  · next base hBase =>
    refine Nat.le_trans (work_enqueue_le _ (hMem base ?_)) (work_visitInterfaces_le s hInterfaces)
    simp [hBase]

end Search

theorem mem_mentioned_of_find? {table : TypeTable} {name : String} {entry : TypeEntry}
    (hFind : table.find? name = some entry) :
    ∀ x ∈ entry.interfaces ++ entry.base.toList, x ∈ table.mentioned := by
  intro x hx
  have hMem : ∃ key, (key, entry) ∈ table.entries := by
    unfold find? at hFind
    generalize table.entries = entries at hFind
    induction entries with
    | nil => simp at hFind
    | cons head rest ih =>
      obtain ⟨key, value⟩ := head
      rw [List.lookup_cons] at hFind
      split at hFind
      · cases hFind
        exact ⟨key, List.mem_cons_self⟩
      · obtain ⟨found, hFound⟩ := ih hFind
        exact ⟨found, List.mem_cons_of_mem _ hFound⟩
  obtain ⟨key, hKey⟩ := hMem
  exact List.mem_flatMap.2 ⟨(key, entry), hKey, hx⟩

def explore (table : TypeTable) (root : String) (s : Search) : List String :=
  match _hQueue : s.queue with
  | [] => s.found
  | name :: rest =>
    match _hFind : table.find? name with
    | none => table.explore root { s with queue := rest }
    | some entry => table.explore root (Search.visit root entry { s with queue := rest })
termination_by s.work table.mentioned
decreasing_by
  · simp [Search.work, _hQueue]
  · refine Nat.lt_of_le_of_lt (Search.work_visit_le _ (mem_mentioned_of_find? _hFind)) ?_
    simp [Search.work, _hQueue]

def interfacesOf (table : TypeTable) (name : String) : List String :=
  table.explore name (Search.start name)

end CostlyCalls.TypeTable
