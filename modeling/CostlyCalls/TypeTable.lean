/-!
# Type tables

A type table records, for the named types of a file, the interfaces each one declares and its base
type. Entries are kept in the order of their names.
-/

set_option autoImplicit false

namespace CostlyCalls

structure TypeEntry where
  interfaces : List String := []
  base : Option String := none
  deriving DecidableEq, Repr

/-- Put an entry into a list sorted by name; an entry of the same name is replaced. -/
def TypeEntry.insertSorted (name : String) (entry : TypeEntry) :
    List (String × TypeEntry) → List (String × TypeEntry)
  | [] => [(name, entry)]
  | head :: rest =>
    if name < head.1 then (name, entry) :: head :: rest
    else if name = head.1 then (name, entry) :: rest
    else head :: insertSorted name entry rest

structure TypeTable where
  entries : List (String × TypeEntry)
  sorted : entries.Pairwise (fun a b => a.1 < b.1)

namespace TypeTable

theorem mem_insertSorted {name : String} {entry : TypeEntry} {entries : List (String × TypeEntry)}
    {x : String × TypeEntry} (hx : x ∈ TypeEntry.insertSorted name entry entries) :
    x = (name, entry) ∨ x ∈ entries := by
  induction entries with
  | nil => simpa [TypeEntry.insertSorted] using hx
  | cons head rest ih =>
    unfold TypeEntry.insertSorted at hx
    split at hx
    · simpa using hx
    · split at hx
      · rcases List.mem_cons.1 hx with hx | hx
        · exact .inl hx
        · exact .inr (List.mem_cons_of_mem _ hx)
      · rcases List.mem_cons.1 hx with hx | hx
        · exact .inr (by simp [hx])
        · exact (ih hx).imp id (List.mem_cons_of_mem _)

theorem pairwise_insertSorted {entries : List (String × TypeEntry)} (name : String)
    (entry : TypeEntry) (hSorted : entries.Pairwise (fun a b => a.1 < b.1)) :
    (TypeEntry.insertSorted name entry entries).Pairwise (fun a b => a.1 < b.1) := by
  induction entries with
  | nil => simp [TypeEntry.insertSorted]
  | cons head rest ih =>
    rw [List.pairwise_cons] at hSorted
    unfold TypeEntry.insertSorted
    split
    · next hLess =>
      refine List.pairwise_cons.2 ⟨fun x hx => ?_, List.pairwise_cons.2 hSorted⟩
      rcases List.mem_cons.1 hx with rfl | hx
      · exact hLess
      · exact String.lt_trans hLess (hSorted.1 x hx)
    · next hNotLess =>
      split
      · next hEq => exact List.pairwise_cons.2 ⟨fun x hx => hEq ▸ hSorted.1 x hx, hSorted.2⟩
      · next hNe =>
        refine List.pairwise_cons.2 ⟨fun x hx => ?_, ih hSorted.2⟩
        rcases mem_insertSorted hx with rfl | hx
        · exact Std.lt_of_le_of_ne (Std.not_lt.1 hNotLess) (Ne.symm hNe)
        · exact hSorted.1 x hx

def empty : TypeTable := ⟨[], .nil⟩

def insert (table : TypeTable) (name : String) (entry : TypeEntry) : TypeTable :=
  ⟨TypeEntry.insertSorted name entry table.entries, pairwise_insertSorted name entry table.sorted⟩

def ofList (entries : List (String × TypeEntry)) : TypeTable :=
  entries.foldl (fun table e => table.insert e.1 e.2) empty

def find? (table : TypeTable) (name : String) : Option TypeEntry := table.entries.lookup name

def mentioned (table : TypeTable) : List String :=
  table.entries.flatMap (fun e => e.2.interfaces ++ e.2.base.toList)

end TypeTable

end CostlyCalls
