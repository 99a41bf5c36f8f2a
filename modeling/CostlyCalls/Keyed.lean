/-!
# Keyed lists

A list whose members have pairwise different keys is a finite map. Looking a key up by search finds
exactly the member that has it, and so does a table that has been filled from the list: with the
positions of the members, or with values that some of them carry.
-/

set_option autoImplicit false

namespace CostlyCalls.Keyed

variable {α κ : Type} [DecidableEq κ] {key : α → κ}

theorem mem_of_find?_key {entries : List α} {k : κ} {a : α}
    (hFind : entries.find? (fun x => key x == k) = some a) : a ∈ entries ∧ key a = k :=
  ⟨List.mem_of_find?_eq_some hFind, by simpa using List.find?_some hFind⟩

theorem find?_key_of_mem {entries : List α} {a : α} (hDistinct : (entries.map key).Nodup)
    (hMem : a ∈ entries) : entries.find? (fun x => key x == key a) = some a := by
  induction entries with
  | nil => cases hMem
  | cons head rest ih =>
    rw [List.map_cons, List.nodup_cons] at hDistinct
    rcases List.mem_cons.1 hMem with rfl | hRest
    · exact List.find?_cons_of_pos (beq_self_eq_true _)
    · have hOther : key head ≠ key a := by
        intro hEq
        exact hDistinct.1 (hEq ▸ List.mem_map.2 ⟨a, hRest, rfl⟩)
      rw [List.find?_cons_of_neg (by simpa using hOther)]
      exact ih hDistinct.2 hRest

theorem find?_key_eq_some_iff {entries : List α} {k : κ} {a : α}
    (hDistinct : (entries.map key).Nodup) :
    entries.find? (fun x => key x == k) = some a ↔ a ∈ entries ∧ key a = k := by
  constructor
  · exact mem_of_find?_key
  · rintro ⟨hMem, rfl⟩
    exact find?_key_of_mem hDistinct hMem

theorem lookup_cons (first k : κ) (a : α) (entries : List (κ × α)) :
    ((first, a) :: entries).lookup k = if k = first then some a else entries.lookup k := by
  rw [List.lookup_cons]
  by_cases hFirst : k = first
  · rw [if_pos hFirst, beq_iff_eq.2 hFirst]
  · rw [if_neg hFirst, beq_eq_false_iff_ne.2 hFirst]

theorem lookup_eq_some_iff {entries : List (κ × α)} {k : κ} {a : α}
    (hDistinct : (entries.map Prod.fst).Nodup) :
    entries.lookup k = some a ↔ (k, a) ∈ entries := by
  induction entries with
  | nil => simp
  | cons head rest ih =>
    obtain ⟨first, b⟩ := head
    rw [List.map_cons, List.nodup_cons] at hDistinct
    rw [lookup_cons, List.mem_cons, Prod.mk.injEq]
    split
    · next hFirst =>
      subst hFirst
      have hRest : (k, a) ∉ rest := fun hMem => hDistinct.1 (List.mem_map.2 ⟨_, hMem, rfl⟩)
      simp [hRest, eq_comm]
    · next hOther => simp [hOther, ih hDistinct.2]

theorem map_get_finRange (entries : List α) :
    (List.finRange entries.length).map entries.get = entries := by
  apply List.ext_getElem
  · simp
  · intro i hLeft hRight
    simp

theorem map_key_finRange {β : Type} (key : α → β) (entries : List α) :
    ((List.finRange entries.length).map fun i => key (entries.get i)) = entries.map key := by
  rw [← Function.comp_def, ← List.map_map, map_get_finRange]

/-- The table when the members at some positions have been taken up: their keys are pairwise
different, and each leads to its position. -/
structure Positions {ι : Type} (keyAt : ι → κ) (table : List (κ × ι)) (taken : List ι) : Prop where
  distinct : (taken.map keyAt).Nodup
  lookup : ∀ k position, table.lookup k = some position ↔ position ∈ taken ∧ keyAt position = k

namespace Positions

variable {ι : Type} {keyAt : ι → κ} {table : List (κ × ι)} {taken : List ι} {position : ι}

theorem nil : Positions keyAt [] [] where
  distinct := .nil
  lookup k position := by simp

theorem lookup_eq_none_iff (hTable : Positions keyAt table taken) {k : κ} :
    table.lookup k = none ↔ k ∉ taken.map keyAt := by
  rw [Option.eq_none_iff_forall_ne_some, List.mem_map, not_exists]
  exact forall_congr' fun position => not_congr (hTable.lookup k position)

theorem insert (hTable : Positions keyAt table taken) (hNew : keyAt position ∉ taken.map keyAt) :
    Positions keyAt ((keyAt position, position) :: table) (taken ++ [position]) where
  distinct := by
    rw [List.map_append, List.nodup_append]
    refine ⟨hTable.distinct, by simp, ?_⟩
    intro a ha b hb hEq
    rw [List.map_singleton, List.mem_singleton] at hb
    exact hNew (hb ▸ hEq ▸ ha)
  lookup k other := by
    rw [lookup_cons, List.mem_append, List.mem_singleton]
    by_cases hKey : k = keyAt position
    · subst hKey
      rw [if_pos rfl, Option.some_inj]
      constructor
      · rintro rfl
        exact ⟨.inr rfl, rfl⟩
      · rintro ⟨hTaken | rfl, hSame⟩
        · exact absurd (List.mem_map.2 ⟨other, hTaken, hSame⟩) hNew
        · rfl
    · rw [if_neg hKey, hTable.lookup]
      constructor
      · rintro ⟨hTaken, hSame⟩
        exact ⟨.inl hTaken, hSame⟩
      · rintro ⟨hTaken | rfl, hSame⟩
        · exact ⟨hTaken, hSame⟩
        · exact absurd hSame.symm hKey

theorem distinct_keys {entries : List α} {table : List (κ × Fin entries.length)}
    (hTable : Positions (fun i => key (entries.get i)) table (List.finRange entries.length)) :
    (entries.map key).Nodup := by
  rw [← map_key_finRange]
  exact hTable.distinct

theorem map_get_lookup {entries : List α} {table : List (κ × Fin entries.length)}
    (hTable : Positions (fun i => key (entries.get i)) table (List.finRange entries.length))
    (k : κ) : (table.lookup k).map entries.get = entries.find? fun a => key a == k := by
  apply Option.ext
  intro a
  rw [Option.map_eq_some_iff, find?_key_eq_some_iff hTable.distinct_keys]
  constructor
  · rintro ⟨i, hLookup, rfl⟩
    exact ⟨List.get_mem _ i, ((hTable.lookup k i).1 hLookup).2⟩
  · rintro ⟨hMem, hKey⟩
    obtain ⟨i, rfl⟩ := List.get_of_mem hMem
    exact ⟨i, (hTable.lookup k i).2 ⟨List.mem_finRange i, hKey⟩, rfl⟩

end Positions

/-- Give a key a value, if there is one, in the place of the value that it has. -/
def overwrite (k : κ) (value : Option α) (table : List (κ × α)) : List (κ × α) :=
  match value with
  | some a => (k, a) :: table
  | none => table

theorem lookup_overwrite (k first : κ) (value : Option α) (table : List (κ × α)) :
    (overwrite first value table).lookup k =
      if k = first then value.or (table.lookup k) else table.lookup k := by
  cases value with
  | none => simp [overwrite]
  | some a => rw [overwrite, lookup_cons, Option.some_or]

section Filled

variable {β : Type} {valueOf : α → Option β} {members : List α} {table : List (κ × β)} {k : κ}

theorem lookup_fill_of_not_mem (hKey : k ∉ members.map key) :
    (members.foldl (fun table a => overwrite (key a) (valueOf a) table) table).lookup k =
      table.lookup k := by
  induction members generalizing table with
  | nil => rfl
  | cons first rest ih =>
    rw [List.map_cons, List.mem_cons, not_or] at hKey
    rw [List.foldl_cons, ih hKey.2, lookup_overwrite, if_neg hKey.1]

theorem lookup_fill_or (hDistinct : (members.map key).Nodup) :
    (members.foldl (fun table a => overwrite (key a) (valueOf a) table) table).lookup k =
      ((members.find? fun a => key a == k).bind valueOf).or (table.lookup k) := by
  induction members generalizing table with
  | nil => simp
  | cons first rest ih =>
    rw [List.map_cons, List.nodup_cons] at hDistinct
    rw [List.foldl_cons]
    by_cases hFirst : key first = k
    · subst hFirst
      rw [lookup_fill_of_not_mem hDistinct.1, lookup_overwrite, if_pos rfl,
        List.find?_cons_of_pos (by simp), Option.bind_some]
    · rw [List.find?_cons_of_neg (by simpa using hFirst), ih hDistinct.2, lookup_overwrite,
        if_neg (Ne.symm hFirst)]

theorem lookup_fill (hDistinct : (members.map key).Nodup) (k : κ) :
    (members.foldl (fun table a => overwrite (key a) (valueOf a) table) []).lookup k =
      (members.find? fun a => key a == k).bind valueOf := by
  rw [lookup_fill_or hDistinct, List.lookup_nil, Option.or_none]

end Filled

end CostlyCalls.Keyed
