import CostlyCalls.Json.Fields
import CostlyCalls.Proofs.Json.Nesting

/-!
# Decoding records

The fields that are decoded from a record with distinct keys are those that a search by key finds.
For any value that is decoded, its fields nest less deep than the value, and a tag does not make the
rest of a record deeper.
-/

set_option autoImplicit false

namespace CostlyCalls.Json

theorem getElem?_of_mapM {α β : Type} {f : α → Option β} {items : List α} {results : List β}
    (hMap : items.mapM f = some results) (i : Nat) : results[i]? = items[i]?.bind f := by
  induction items generalizing results i with
  | nil =>
    cases hMap
    rfl
  | cons a rest ih =>
    rw [List.mapM_cons] at hMap
    obtain ⟨first, hFirst, hMap⟩ := Option.bind_eq_some_iff.1 hMap
    obtain ⟨more, hMore, hResults⟩ := Option.bind_eq_some_iff.1 hMap
    cases hResults
    cases i with
    | zero => exact hFirst.symm
    | succ i => exact ih hMore i

theorem exists_of_mem_mapM {α β : Type} {f : α → Option β} {items : List α} {results : List β}
    (hMap : items.mapM f = some results) {b : β} (hb : b ∈ results) : ∃ a ∈ items, f a = some b := by
  obtain ⟨i, hi⟩ := List.mem_iff_getElem?.1 hb
  rw [getElem?_of_mapM hMap i] at hi
  obtain ⟨a, ha, hValue⟩ := Option.bind_eq_some_iff.1 hi
  exact ⟨a, List.mem_of_getElem? ha, hValue⟩

theorem mapM_map_eq_some {α β : Type} {f : β → Option α} {g : α → β} {items : List α}
    (hItems : ∀ a ∈ items, f (g a) = some a) : (items.map g).mapM f = some items := by
  induction items with
  | nil => rfl
  | cons a rest ih =>
    rw [List.forall_mem_cons] at hItems
    simp [hItems.1, ih hItems.2]

theorem mapM_eq_none_of_mem {α β : Type} {f : α → Option β} {items : List α} {a : α} (ha : a ∈ items)
    (hNone : f a = none) : items.mapM f = none := by
  induction items with
  | nil => cases ha
  | cons head rest ih =>
    rw [List.mapM_cons]
    rcases List.mem_cons.1 ha with rfl | ha
    · rw [hNone]
      rfl
    · rw [ih ha]
      cases f head <;> rfl

theorem exists_of_mem_list? {α : Type} {decode : Value → Option α} {v : Value} {results : List α}
    (hRead : list? decode v = some results) {a : α} (ha : a ∈ results) :
    ∃ w, decode w = some a := by
  cases v with
  | array items =>
    obtain ⟨w, _, hw⟩ := exists_of_mem_mapM hRead ha
    exact ⟨w, hw⟩
  | _ => cases hRead

theorem text?_text (s : String) : text? (.text s) = some s := rfl

theorem uint64?_nat (n : UInt64) : uint64? (.nat n.toNat) = some n := by
  simp [uint64?, natBelow?, Value.nat, n.toNat_lt]

theorem uint32?_nat (n : UInt32) : uint32? (.nat n.toNat) = some n := by
  simp [uint32?, natBelow?, Value.nat, n.toNat_lt]

theorem optional?_map {α : Type} {decode : Value → Option α} {encode : α → Value}
    {value : Option α} (hNull : ∀ a, encode a ≠ .null)
    (hDecode : ∀ a, value = some a → decode (encode a) = some a) :
    optional? decode (value.map encode) = some value := by
  cases value with
  | none => rfl
  | some a =>
    have hOther : optional? decode (some (encode a)) = (decode (encode a)).map some := by
      have hValue := hNull a
      revert hValue
      cases encode a <;> intro hValue
      · exact absurd rfl hValue
      all_goals rfl
    rw [Option.map_some, hOther, hDecode a rfl, Option.map_some]

theorem optional?_ofOption {α : Type} {decode : Value → Option α} {encode : α → Value}
    {value : Option α} (hNull : ∀ a, encode a ≠ .null)
    (hDecode : ∀ a, value = some a → decode (encode a) = some a) :
    optional? decode (some (.ofOption encode value)) = some value := by
  cases value with
  | none => rfl
  | some a => exact optional?_map hNull hDecode

theorem exists_of_optional? {α : Type} {decode : Value → Option α} {field : Option Value}
    {value : Option α} {a : α} (hRead : optional? decode field = some value)
    (hValue : value = some a) : ∃ v, field = some v ∧ decode v = some a := by
  subst hValue
  unfold optional? at hRead
  split at hRead
  · cases hRead
  · cases hRead
  · next v _ =>
    obtain ⟨b, hb, hEq⟩ := Option.map_eq_some_iff.1 hRead
    cases hEq
    exact ⟨v, rfl, hb⟩

theorem valuesOf_cons {key : String} {m : Member} {rest : List Member} :
    valuesOf key (m :: rest) =
      if m.1 = some key then m.2 :: valuesOf key rest else valuesOf key rest := by
  by_cases hKey : m.1 = some key <;> simp [valuesOf, hKey]

def membersOf (members : List (String × Value)) : List Member :=
  members.map fun m => (some m.1, m.2)

theorem valuesOf_membersOf {key : String} {members : List (String × Value)}
    (hDistinct : (members.map Prod.fst).Nodup) :
    valuesOf key (membersOf members) = (members.lookup key).toList := by
  induction members with
  | nil => rfl
  | cons m rest ih =>
    obtain ⟨name, v⟩ := m
    rw [List.map_cons, List.nodup_cons] at hDistinct
    have hRest : valuesOf key (membersOf rest) = (rest.lookup key).toList := ih hDistinct.2
    show valuesOf key ((some name, v) :: membersOf rest) = _
    rw [valuesOf_cons, hRest, List.lookup_cons]
    by_cases hKey : name = key
    · subst hKey
      have hNone : rest.lookup name = none := by
        rw [List.lookup_eq_none_iff]
        intro p hp
        have hOther : name ≠ p.1 := by
          rintro rfl
          exact hDistinct.1 (List.mem_map.2 ⟨p, hp, rfl⟩)
        simpa using hOther
      simp [hNone]
    · have hOther : (key == name) = false := by simpa using Ne.symm hKey
      simp [hKey, hOther]

theorem unique?_membersOf {key : String} {members : List (String × Value)}
    (hDistinct : (members.map Prod.fst).Nodup) :
    unique? key (membersOf members) = some (members.lookup key) := by
  rw [unique?, valuesOf_membersOf hDistinct]
  cases members.lookup key <;> rfl

theorem mapM_unique?_membersOf {names : List String} {members : List (String × Value)}
    (hDistinct : (members.map Prod.fst).Nodup) :
    names.mapM (fun name => unique? name (membersOf members)) =
      some (names.map fun name => members.lookup name) := by
  induction names with
  | nil => rfl
  | cons name rest ih =>
    rw [List.mapM_cons, unique?_membersOf hDistinct, ih]
    rfl

theorem fields?_record {names : List String} {members : List (String × Value)}
    (hDistinct : (members.map Prod.fst).Nodup) :
    fields? names (.record members) = some (names.map fun name => members.lookup name) := by
  have hKeys : (membersOf members).all (fun m => m.1.isSome) = true := by simp [membersOf]
  show fields? names (.object (membersOf members)) = _
  rw [fields?, if_pos hKeys, mapM_unique?_membersOf hDistinct]

theorem tagged?_record {indexed : Bool} {tags : List String} {tag : String}
    {members : List (String × Value)} (hTag : tag ∈ tags)
    (hDistinct : (tagKey :: members.map Prod.fst).Nodup) :
    tagged? indexed tags (.record ((tagKey, .text tag) :: members)) =
      some (tag, .record members) := by
  have hUnique : unique? tagKey (membersOf ((tagKey, .text tag) :: members)) =
      some (((tagKey, Value.text tag) :: members).lookup tagKey) := unique?_membersOf hDistinct
  have hRest : (membersOf ((tagKey, .text tag) :: members)).filter (fun m => m.1 ≠ some tagKey) =
      membersOf members := by
    have hOther : ∀ m ∈ membersOf members, m.1 ≠ some tagKey := by
      rw [membersOf, List.forall_mem_map]
      intro m hm hKey
      have hName : m.1 = tagKey := Option.some.inj hKey
      exact (List.nodup_cons.1 hDistinct).1 (hName ▸ List.mem_map_of_mem hm)
    show (membersOf members).filter (fun m => m.1 ≠ some tagKey) = membersOf members
    rw [List.filter_eq_self]
    exact fun m hm => decide_eq_true (hOther m hm)
  show tagged? indexed tags (.object (membersOf ((tagKey, .text tag) :: members))) = _
  rw [tagged?, hUnique, hRest, List.lookup_cons_self]
  simp [Value.text, tag?, hTag, Value.record, membersOf]

theorem mem_of_unique? {key : String} {members : List Member} {v : Value}
    (hUnique : unique? key members = some (some v)) : (some key, v) ∈ members := by
  have hValue : v ∈ valuesOf key members := by
    unfold unique? at hUnique
    split at hUnique
    · cases hUnique
    · next hValues =>
      cases hUnique
      rw [hValues]
      exact List.mem_singleton_self v
    · cases hUnique
  obtain ⟨m, hm, hKey⟩ := List.mem_filterMap.1 hValue
  split at hKey
  · next hName =>
    cases hKey
    rwa [← hName]
  · cases hKey

theorem depth_lt_of_fields? {names : List String} {v x : Value} {fields : List (Option Value)}
    (hFields : fields? names v = some fields) (hx : some x ∈ fields) : x.depth < v.depth := by
  cases v with
  | object members =>
    rw [fields?] at hFields
    split at hFields
    · obtain ⟨name, _, hUnique⟩ := exists_of_mem_mapM hFields hx
      exact Value.depth_lt_object (mem_of_unique? hUnique)
    · cases hFields
  | array items =>
    rw [fields?] at hFields
    split at hFields
    · cases hFields
      rcases List.mem_append.1 hx with hx | hx
      · obtain ⟨w, hw, hEq⟩ := List.mem_map.1 hx
        cases hEq
        exact Value.depth_lt_array hw
      · cases List.eq_of_mem_replicate hx
    · cases hFields
  | _ => cases hFields

theorem depth_le_of_tagged? {indexed : Bool} {tags : List String} {v content : Value} {tag : String}
    (hTagged : tagged? indexed tags v = some (tag, content)) :
    0 < content.depth ∧ content.depth ≤ v.depth := by
  cases v with
  | object members =>
    obtain ⟨_, _, hTagged⟩ := Option.bind_eq_some_iff.1 hTagged
    obtain ⟨_, _, hResult⟩ := Option.bind_eq_some_iff.1 hTagged
    cases hResult
    refine ⟨Nat.succ_pos _, Value.depth_object_le_iff.2 fun m hm => ?_⟩
    exact Value.depth_object_le_iff.1 (Nat.le_refl _) m (List.mem_filter.1 hm).1
  | array items =>
    cases items with
    | nil => cases hTagged
    | cons first rest =>
      obtain ⟨_, _, hResult⟩ := Option.bind_eq_some_iff.1 hTagged
      cases hResult
      refine ⟨Nat.succ_pos _, Value.depth_array_le_iff.2 fun w hw => ?_⟩
      exact Value.depth_array_le_iff.1 (Nat.le_refl _) w (List.mem_cons_of_mem _ hw)
  | _ => cases hTagged

end CostlyCalls.Json
