import Mathlib.Data.Finset.Card
import CostlyCalls.Proofs.BreadthFirst

/-!
# The queue of a search

The loop of `TypeTable.explore`, turn by turn. `TypeTable.Run` keeps a record of a search: every
name that was put into the queue, and every name that was taken from it, one for each turn. No name
is put into the queue twice, so there are no more turns than there are names that can get there,
whatever cycles the declarations form.

The invariant says that the queue is what is left of the names put into it when those taken are
dropped, and that the queued names of the search are the names put into it, the latest first.
-/

set_option autoImplicit false

namespace CostlyCalls.TypeTable

namespace Search

structure Adds (s : Search) (new : List String) (t : Search) : Prop where
  queue : t.queue = s.queue ++ new
  queued : t.queued = new.reverse ++ s.queued
  nodup : s.queued.Nodup → t.queued.Nodup

theorem adds_nil (s : Search) : s.Adds [] s where
  queue := (List.append_nil _).symm
  queued := rfl
  nodup := id

theorem adds_note (root name : String) (s : Search) : s.Adds [] (s.note root name) where
  queue := by rw [queue_note, List.append_nil]
  queued := queued_note root name s
  nodup hNodup := by
    rw [queued_note]
    exact hNodup

theorem exists_adds_enqueue (name : String) (s : Search) :
    ∃ new, s.Adds new (s.enqueue name) ∧ ∀ x ∈ new, x = name := by
  unfold enqueue
  split
  · exact ⟨[], adds_nil s, fun x hx => absurd hx List.not_mem_nil⟩
  · next hNew =>
    refine ⟨[name], ⟨rfl, rfl, fun hNodup => ?_⟩, fun x => List.mem_singleton.1⟩
    exact List.nodup_cons.2 ⟨hNew, hNodup⟩

theorem Adds.trans {s t u : Search} {first second : List String} (hFirst : s.Adds first t)
    (hSecond : t.Adds second u) : s.Adds (first ++ second) u where
  queue := by rw [hSecond.queue, hFirst.queue, List.append_assoc]
  queued := by rw [hSecond.queued, hFirst.queued, List.reverse_append, List.append_assoc]
  nodup := hSecond.nodup ∘ hFirst.nodup

theorem exists_adds_visitInterfaces (root : String) (names : List String) (s : Search) :
    ∃ new, s.Adds new (s.visitInterfaces root names) ∧ ∀ x ∈ new, x ∈ names := by
  induction names generalizing s with
  | nil => exact ⟨[], adds_nil s, fun x hx => hx⟩
  | cons name rest ih =>
    obtain ⟨head, hHead, hName⟩ := exists_adds_enqueue name (s.note root name)
    obtain ⟨tail, hTail, hRest⟩ := ih ((s.note root name).enqueue name)
    refine ⟨head ++ tail, ((adds_note root name s).trans hHead).trans hTail, fun x hx => ?_⟩
    rcases List.mem_append.1 hx with hx | hx
    · rw [hName x hx]
      exact List.mem_cons_self
    · exact List.mem_cons_of_mem name (hRest x hx)

theorem exists_adds_visit (root : String) (entry : TypeEntry) (s : Search) :
    ∃ new, s.Adds new (s.visit root entry) ∧
      ∀ x ∈ new, x ∈ entry.interfaces ++ entry.base.toList := by
  obtain ⟨new, hNew, hInterfaces⟩ := exists_adds_visitInterfaces root entry.interfaces s
  unfold visit
  split
  · exact ⟨new, hNew, fun x hx => List.mem_append_left _ (hInterfaces x hx)⟩
  · next base hBase =>
    obtain ⟨last, hLast, hName⟩ :=
      exists_adds_enqueue base (s.visitInterfaces root entry.interfaces)
    refine ⟨new ++ last, hNew.trans hLast, fun x hx => ?_⟩
    rcases List.mem_append.1 hx with hx | hx
    · exact List.mem_append_left _ (hInterfaces x hx)
    · rw [hName x hx, hBase]
      exact List.mem_append_right _ (List.mem_singleton_self base)

end Search

/-- One turn of a search, which takes the first name from the queue. An empty queue ends the
search. -/
def turn? (table : TypeTable) (root : String) (s : Search) : Option Search :=
  match s.queue with
  | [] => none
  | name :: rest =>
    match table.find? name with
    | none => some { s with queue := rest }
    | some entry => some (Search.visit root entry { s with queue := rest })

section

variable {table : TypeTable} {root : String} {s t : Search}

theorem turn?_eq_none_iff : table.turn? root s = none ↔ s.queue = [] := by
  unfold turn?
  split
  · next hQueue => simp [hQueue]
  · next hQueue => split <;> simp [hQueue]

/-- What a turn does: the first name leaves the queue, and names that its entry declares and that
were never queued are put behind the others. -/
theorem exists_adds_of_turn? (hTurn : table.turn? root s = some t) :
    ∃ name rest new, s.queue = name :: rest ∧ Search.Adds { s with queue := rest } new t ∧
      ∀ x ∈ new, x ∈ table.mentioned := by
  unfold turn? at hTurn
  split at hTurn
  · cases hTurn
  · next name rest hQueue =>
    refine ⟨name, rest, ?_⟩
    split at hTurn
    · cases hTurn
      exact ⟨[], hQueue, Search.adds_nil _, fun x hx => absurd hx List.not_mem_nil⟩
    · next entry hFind =>
      cases hTurn
      obtain ⟨new, hAdds, hNew⟩ := Search.exists_adds_visit root entry { s with queue := rest }
      exact ⟨new, hQueue, hAdds, fun x hx => mem_mentioned_of_find? hFind x (hNew x hx)⟩

theorem explore_of_turn? (hTurn : table.turn? root s = some t) :
    table.explore root s = table.explore root t := by
  unfold turn? at hTurn
  split at hTurn
  · cases hTurn
  · next name rest hQueue =>
    split at hTurn
    · next hFind =>
      cases hTurn
      exact explore_of_unknown hQueue hFind
    · next entry hFind =>
      cases hTurn
      exact explore_of_known hQueue hFind

end

/-- A search from `root`, as far as it has gone. The first list has every name that was put into the
queue, the second one every name that was taken from it, so that its length counts the turns. -/
inductive Run (table : TypeTable) (root : String) : List String → List String → Search → Prop
  | start : Run table root [root] [] (Search.start root)
  | turn {put taken new rest : List String} {name : String} {s t : Search}
    (hRun : Run table root put taken s) (hTurn : table.turn? root s = some t)
    (hQueue : s.queue = name :: rest) (hPut : t.queue = rest ++ new) :
    Run table root (put ++ new) (taken ++ [name]) t

structure Search.Tracked (table : TypeTable) (root : String) (put taken : List String)
    (s : Search) : Prop where
  put_eq : put = taken ++ s.queue
  queued_eq : s.queued = put.reverse
  nodup : put.Nodup
  mentioned : ∀ x ∈ put, x = root ∨ x ∈ table.mentioned

namespace Run

variable {table : TypeTable} {root : String} {put taken : List String} {s : Search}

theorem tracked (hRun : table.Run root put taken s) : s.Tracked table root put taken := by
  induction hRun with
  | start => exact ⟨rfl, rfl, List.nodup_singleton root, fun x hx => .inl (List.mem_singleton.1 hx)⟩
  | @turn put taken new rest name s t hRun hTurn hQueue hPut ih =>
    obtain ⟨first, others, added, hSplit, hAdds, hMentioned⟩ := exists_adds_of_turn? hTurn
    obtain ⟨rfl, rfl⟩ := List.cons.inj (hQueue.symm.trans hSplit)
    obtain rfl : new = added := List.append_cancel_left (hPut.symm.trans hAdds.queue)
    have hQueued : t.queued = (put ++ new).reverse := by
      rw [hAdds.queued, ih.queued_eq, List.reverse_append]
    have hNodup : t.queued.Nodup := by
      apply hAdds.nodup
      rw [ih.queued_eq, List.nodup_reverse]
      exact ih.nodup
    refine ⟨?_, hQueued, ?_, fun x hx => ?_⟩
    · rw [ih.put_eq, hQueue, hPut]
      simp only [List.append_assoc, List.cons_append, List.nil_append]
    · rw [hQueued, List.nodup_reverse] at hNodup
      exact hNodup
    · rcases List.mem_append.1 hx with hx | hx
      · exact ih.mentioned x hx
      · exact .inr (hMentioned x hx)

theorem length_put_le (hRun : table.Run root put taken s) :
    put.length ≤ 1 + table.mentioned.toFinset.card := by
  have hTracked := hRun.tracked
  have hSub : put.toFinset ⊆ (root :: table.mentioned).toFinset := by
    intro x hx
    rw [List.mem_toFinset] at hx ⊢
    exact List.mem_cons.2 (hTracked.mentioned x hx)
  have hRoot : (root :: table.mentioned).toFinset.card ≤ table.mentioned.toFinset.card + 1 := by
    rw [List.toFinset_cons]
    exact Finset.card_insert_le _ _
  calc put.length = put.toFinset.card := (List.toFinset_card_of_nodup hTracked.nodup).symm
    _ ≤ (root :: table.mentioned).toFinset.card := Finset.card_le_card hSub
    _ ≤ table.mentioned.toFinset.card + 1 := hRoot
    _ = 1 + table.mentioned.toFinset.card := Nat.add_comm _ _

theorem explore_eq (hRun : table.Run root put taken s) :
    table.explore root s = table.interfacesOf root := by
  induction hRun with
  | start => rfl
  | turn _ hTurn _ _ ih => rw [← explore_of_turn? hTurn, ih]

theorem exists_turn (hRun : table.Run root put taken s) (hQueue : s.queue ≠ []) :
    ∃ new name t, table.turn? root s = some t ∧
      table.Run root (put ++ new) (taken ++ [name]) t := by
  obtain ⟨t, hTurn⟩ := Option.ne_none_iff_exists'.1 (mt turn?_eq_none_iff.1 hQueue)
  obtain ⟨name, rest, new, hSplit, hAdds, -⟩ := exists_adds_of_turn? hTurn
  exact ⟨new, name, t, hTurn, hRun.turn hTurn hSplit hAdds.queue⟩

theorem exists_finished (hRun : table.Run root put taken s) :
    ∃ put taken last, table.Run root put taken last ∧ last.queue = [] := by
  induction hLeft : 1 + table.mentioned.toFinset.card - taken.length generalizing put taken s with
  | zero =>
    have hLength := congrArg List.length hRun.tracked.put_eq
    have hBound := hRun.length_put_le
    rw [List.length_append] at hLength
    exact ⟨put, taken, s, hRun, List.eq_nil_of_length_eq_zero (by omega)⟩
  | succ left ih =>
    by_cases hQueue : s.queue = []
    · exact ⟨put, taken, s, hRun, hQueue⟩
    · obtain ⟨new, name, t, -, hNext⟩ := hRun.exists_turn hQueue
      refine ih hNext ?_
      rw [List.length_append, List.length_singleton]
      omega

end Run

/-- The search for interfaces puts no name into the queue twice, and ends within a turn for each
name. -/
theorem interfacesOf_queues_each_name_once (table : TypeTable) (root : String) :
    (∃ put taken last, table.Run root put taken last ∧ last.queue = [] ∧
      table.interfacesOf root = last.found) ∧
    ∀ put taken s, table.Run root put taken s →
      put.Nodup ∧
      (∀ x, x ∈ s.queued ↔ x ∈ put) ∧
      (∀ x ∈ s.queue, x ∈ s.queued) ∧
      taken.length ≤ 1 + table.mentioned.toFinset.card ∧
      (s.queue ≠ [] → ∃ new name t, table.turn? root s = some t ∧
        table.Run root (put ++ new) (taken ++ [name]) t) := by
  constructor
  · have hStart : table.Run root [root] [] (Search.start root) := .start
    obtain ⟨put, taken, last, hRun, hQueue⟩ := hStart.exists_finished
    refine ⟨put, taken, last, hRun, hQueue, ?_⟩
    rw [← hRun.explore_eq, explore_of_nil hQueue]
  · intro put taken s hRun
    have hTracked := hRun.tracked
    have hQueued : ∀ x, x ∈ s.queued ↔ x ∈ put := by
      intro x
      rw [hTracked.queued_eq, List.mem_reverse]
    have hQueue : ∀ x ∈ s.queue, x ∈ put := by
      intro x hx
      rw [hTracked.put_eq]
      exact List.mem_append_right taken hx
    have hTaken : taken.length ≤ put.length := by
      rw [hTracked.put_eq, List.length_append]
      omega
    refine ⟨hTracked.nodup, hQueued, fun x hx => (hQueued x).2 (hQueue x hx), ?_, hRun.exists_turn⟩
    exact hTaken.trans hRun.length_put_le

example :
    let table := TypeTable.ofList [("Jobs", ⟨["Batch", "Batch"], some "Queue"⟩),
      ("Batch", ⟨["Feed"], some "Queue"⟩), ("Queue", ⟨["Queue", "Batch"], some "Store"⟩)]
    table.mentioned.toFinset.card = 4 ∧
      (List.range 6).map (fun n => ((fun s => s.bind (table.turn? "Jobs"))^[n]
        (some (Search.start "Jobs"))).map Search.queue) =
        [some ["Jobs"], some ["Batch", "Queue"], some ["Queue", "Feed"], some ["Feed", "Store"],
          some ["Store"], some []] := by
  decide +kernel

end CostlyCalls.TypeTable
