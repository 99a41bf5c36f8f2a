import CostlyCalls.Json.Value

/-!
# Nesting of JSON values

How many arrays and objects a value nests, and an induction over values whose cases give the claim
for all items of an array and for all members of an object. A value is sound in some room if and
only if it is readable and nests no deeper than the room.
-/

set_option autoImplicit false

namespace CostlyCalls.Json

@[elab_as_elim]
theorem Value.inductionOn {motive : Value → Prop} (v : Value) (null : motive .null)
    (bool : ∀ b, motive (.bool b)) (number : ∀ n, motive (.number n))
    (string : ∀ s, motive (.string s))
    (array : ∀ items, (∀ v ∈ items, motive v) → motive (.array items))
    (object : ∀ members, (∀ m ∈ members, motive m.2) → motive (.object members)) : motive v :=
  match v with
  | .null => null
  | .bool b => bool b
  | .number n => number n
  | .string s => string s
  | .array items =>
    array items fun v _ => inductionOn v null bool number string array object
  | .object members =>
    object members fun m _ => inductionOn m.2 null bool number string array object
termination_by sizeOf v
decreasing_by
  · next hv => exact Nat.lt_of_lt_of_le (List.sizeOf_lt_of_mem hv) (by simp)
  · next hm =>
    have hMember := List.sizeOf_lt_of_mem hm
    have hValue : sizeOf m.2 < sizeOf m := by
      obtain ⟨key, value⟩ := m
      show sizeOf value < sizeOf (key, value)
      rw [Prod.mk.sizeOf_spec]
      omega
    simp only [Value.object.sizeOf_spec]
    omega

namespace Value

mutual

def depth : Value → Nat
  | .array items => itemsDepth items + 1
  | .object members => membersDepth members + 1
  | .null | .bool _ | .number _ | .string _ => 0

def itemsDepth : List Value → Nat
  | [] => 0
  | v :: rest => max v.depth (itemsDepth rest)

def membersDepth : List (Text × Value) → Nat
  | [] => 0
  | (_, v) :: rest => max v.depth (membersDepth rest)

end

theorem itemsDepth_le_iff {items : List Value} {bound : Nat} :
    itemsDepth items ≤ bound ↔ ∀ v ∈ items, v.depth ≤ bound := by
  induction items with
  | nil => simp [itemsDepth]
  | cons v rest ih => simp only [itemsDepth, Nat.max_le, List.forall_mem_cons, ih]

theorem membersDepth_le_iff {members : List Member} {bound : Nat} :
    membersDepth members ≤ bound ↔ ∀ m ∈ members, m.2.depth ≤ bound := by
  induction members with
  | nil => simp [membersDepth]
  | cons m rest ih => simp only [membersDepth, Nat.max_le, ih, List.forall_mem_cons]

theorem depth_lt_array {items : List Value} {v : Value} (hv : v ∈ items) :
    v.depth < (Value.array items).depth := by
  rw [depth]
  exact Nat.lt_succ_of_le (itemsDepth_le_iff.1 (Nat.le_refl _) v hv)

theorem depth_lt_object {members : List Member} {m : Member} (hm : m ∈ members) :
    m.2.depth < (Value.object members).depth := by
  rw [depth]
  exact Nat.lt_succ_of_le (membersDepth_le_iff.1 (Nat.le_refl _) m hm)

theorem depth_array_le_iff {items : List Value} {bound : Nat} :
    (Value.array items).depth ≤ bound + 1 ↔ ∀ v ∈ items, v.depth ≤ bound := by
  rw [depth, Nat.add_le_add_iff_right, itemsDepth_le_iff]

theorem depth_object_le_iff {members : List Member} {bound : Nat} :
    (Value.object members).depth ≤ bound + 1 ↔ ∀ m ∈ members, m.2.depth ≤ bound := by
  rw [depth, Nat.add_le_add_iff_right, membersDepth_le_iff]

theorem depth_record_le_iff {members : List (String × Value)} {bound : Nat} :
    (record members).depth ≤ bound + 1 ↔ ∀ m ∈ members, m.2.depth ≤ bound := by
  rw [record, depth_object_le_iff, List.forall_mem_map]

@[simp] theorem depth_text (s : String) : (text s).depth = 0 := by rw [text, depth]

@[simp] theorem depth_nat (n : Nat) : (nat n).depth = 0 := by rw [nat, depth]

theorem depth_ofOption_le_iff {α : Type} {f : α → Value} {value : Option α} {bound : Nat} :
    (ofOption f value).depth ≤ bound ↔ ∀ a, value = some a → (f a).depth ≤ bound := by
  cases value <;> simp [ofOption, depth]

inductive Readable : Value → Prop
  | null : Readable .null
  | bool (b : Bool) : Readable (.bool b)
  | number {n : Numeral} (hn : n.overflows = false) : Readable (.number n)
  | text (s : String) : Readable (.text s)
  | array {items : List Value} (hItems : ∀ v ∈ items, Readable v) : Readable (.array items)
  | object {members : List Member} (hKeys : ∀ m ∈ members, m.1.isSome = true)
      (hValues : ∀ m ∈ members, Readable m.2) : Readable (.object members)

theorem Readable.nat {n : Nat} (hn : n ≤ Decimal.wordLimit) : (nat n).Readable :=
  .number (Decimal.wordOverflows_of_le hn)

theorem Readable.ofOption {α : Type} {f : α → Value} (hf : ∀ a, (f a).Readable)
    (value : Option α) : (Value.ofOption f value).Readable := by
  cases value with
  | none => exact .null
  | some a => exact hf a

theorem Readable.record {members : List (String × Value)}
    (hMembers : ∀ m ∈ members, m.2.Readable) : (record members).Readable := by
  refine .object ?_ ?_
  · rw [List.forall_mem_map]
    exact fun m _ => rfl
  · rw [List.forall_mem_map]
    exact hMembers

theorem areSound_iff {room : Nat} {items : List Value} :
    areSound room items = true ↔ ∀ v ∈ items, v.isSound room = true := by
  induction items with
  | nil => simp [areSound]
  | cons v rest ih => simp [areSound, ih]

theorem membersSound_iff {room : Nat} {members : List Member} :
    membersSound room members = true ↔
      ∀ m ∈ members, m.1.isSome = true ∧ m.2.isSound room = true := by
  induction members with
  | nil => simp [membersSound]
  | cons m rest ih => simp [membersSound, ih]

theorem isSound_iff {room : Nat} {v : Value} :
    v.isSound room = true ↔ v.Readable ∧ v.depth ≤ room := by
  induction v using Value.inductionOn generalizing room with
  | null => simpa [isSound, depth] using Readable.null
  | bool b => simpa [isSound, depth] using Readable.bool b
  | number n =>
    simp only [isSound, depth, Nat.zero_le, and_true, Bool.not_eq_true']
    exact ⟨.number, fun h => by cases h; assumption⟩
  | string s =>
    simp only [isSound, depth, Nat.zero_le, and_true]
    constructor
    · intro hs
      obtain ⟨content, rfl⟩ := Option.isSome_iff_exists.1 hs
      exact .text content
    · rintro ⟨⟩
      rfl
  | array items ih =>
    cases room with
    | zero => simp [isSound, depth]
    | succ room =>
      simp only [isSound, Nat.zero_lt_succ, decide_true, Bool.true_and, Nat.add_sub_cancel,
        areSound_iff, depth_array_le_iff]
      constructor
      · intro hItems
        exact ⟨.array fun v hv => ((ih v hv).1 (hItems v hv)).1,
          fun v hv => ((ih v hv).1 (hItems v hv)).2⟩
      · rintro ⟨⟨⟩, hDepth⟩
        rename_i hReadable
        exact fun v hv => (ih v hv).2 ⟨hReadable v hv, hDepth v hv⟩
  | object members ih =>
    cases room with
    | zero => simp [isSound, depth]
    | succ room =>
      simp only [isSound, Nat.zero_lt_succ, decide_true, Bool.true_and, Nat.add_sub_cancel,
        membersSound_iff, depth_object_le_iff]
      constructor
      · intro hMembers
        exact ⟨.object (fun m hm => (hMembers m hm).1)
            fun m hm => ((ih m hm).1 (hMembers m hm).2).1,
          fun m hm => ((ih m hm).1 (hMembers m hm).2).2⟩
      · rintro ⟨⟨⟩, hDepth⟩
        rename_i hKeys hReadable
        exact fun m hm => ⟨hKeys m hm, (ih m hm).2 ⟨hReadable m hm, hDepth m hm⟩⟩

end Value

end CostlyCalls.Json
