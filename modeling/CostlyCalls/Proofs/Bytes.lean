import Mathlib.Data.List.Basic
import CostlyCalls.Text.Bytes

/-!
# Texts and their bytes

The order and the first bytes of a text are those of its UTF-8 form. Where characters are ASCII,
every one of them is a byte, and a byte below 128 is a character wherever it stands, so that nothing
has to be cut inside of a character to read an ASCII beginning.
-/

set_option autoImplicit false

namespace CostlyCalls.Text

theorem bytes_eq (text : String) :
    bytes text = text.toList.flatMap String.utf8EncodeChar := by
  rw [bytes, String.toUTF8_eq_toByteArray, ← String.utf8Encode_toList, List.utf8Encode,
    List.data_toByteArray]

theorem utf8EncodeChar_of_lt {c : Char} (hAscii : c.toNat < 128) :
    String.utf8EncodeChar c = [c.toUInt8] :=
  if_pos (Nat.le_of_lt_succ hAscii)

theorem toNat_toUInt8_of_lt {c : Char} (hAscii : c.toNat < 128) : c.toUInt8.toNat = c.toNat := by
  change c.toNat % 256 = c.toNat
  omega

theorem toUInt8_inj_of_lt {c d : Char} (hc : c.toNat < 128) (hd : d.toNat < 128) :
    c.toUInt8 = d.toUInt8 ↔ c = d := by
  rw [← UInt8.toNat_inj, toNat_toUInt8_of_lt hc, toNat_toUInt8_of_lt hd, Char.toNat_inj]

theorem exists_lead_of_le {c : Char} (hAscii : 128 ≤ c.toNat) :
    ∃ lead rest, String.utf8EncodeChar c = lead :: rest ∧ 192 ≤ lead.toNat := by
  have hNumber : ¬c.val.toNat ≤ 127 := Nat.not_le.2 hAscii
  unfold String.utf8EncodeChar
  dsimp only
  rw [if_neg hNumber]
  split
  · refine ⟨_, _, rfl, ?_⟩
    rw [UInt8.toNat_ofNat']
    omega
  · split
    · refine ⟨_, _, rfl, ?_⟩
      rw [UInt8.toNat_ofNat']
      omega
    · refine ⟨_, _, rfl, ?_⟩
      rw [UInt8.toNat_ofNat']
      omega

theorem toUInt8_cons_prefix_iff {c : Char} (hAscii : c.toNat < 128) {rest : List UInt8}
    {cs : List Char} :
    c.toUInt8 :: rest <+: cs.flatMap String.utf8EncodeChar ↔
      ∃ ds, cs = c :: ds ∧ rest <+: ds.flatMap String.utf8EncodeChar := by
  cases cs with
  | nil => simp
  | cons d ds =>
    simp only [List.cons.injEq, List.flatMap_cons]
    by_cases hFirst : d.toNat < 128
    · rw [utf8EncodeChar_of_lt hFirst, List.singleton_append, List.cons_prefix_cons,
        toUInt8_inj_of_lt hAscii hFirst]
      constructor
      · rintro ⟨rfl, hRest⟩
        exact ⟨ds, ⟨rfl, rfl⟩, hRest⟩
      · rintro ⟨_, ⟨rfl, rfl⟩, hRest⟩
        exact ⟨rfl, hRest⟩
    · obtain ⟨lead, trail, hEncode, hLead⟩ := exists_lead_of_le (Nat.not_lt.1 hFirst)
      rw [hEncode, List.cons_append, List.cons_prefix_cons]
      constructor
      · rintro ⟨rfl, -⟩
        rw [toNat_toUInt8_of_lt hAscii] at hLead
        omega
      · rintro ⟨_, ⟨rfl, -⟩, -⟩
        omega

theorem flatMap_utf8EncodeChar_of_lt {cs : List Char} (hCs : ∀ c ∈ cs, c.toNat < 128) :
    cs.flatMap String.utf8EncodeChar = cs.map Char.toUInt8 := by
  induction cs with
  | nil => rfl
  | cons c cs ih =>
    rw [List.forall_mem_cons] at hCs
    rw [List.flatMap_cons, utf8EncodeChar_of_lt hCs.1, ih hCs.2, List.singleton_append,
      List.map_cons]

theorem map_toUInt8_prefix_iff {cs ds : List Char} (hCs : ∀ c ∈ cs, c.toNat < 128) :
    cs.map Char.toUInt8 <+: ds.flatMap String.utf8EncodeChar ↔ cs <+: ds := by
  induction cs generalizing ds with
  | nil => simp
  | cons c cs ih =>
    rw [List.forall_mem_cons] at hCs
    rw [List.map_cons, toUInt8_cons_prefix_iff hCs.1]
    constructor
    · rintro ⟨ds, rfl, hRest⟩
      exact List.cons_prefix_cons.2 ⟨rfl, (ih hCs.2).1 hRest⟩
    · rintro ⟨ds, rfl⟩
      exact ⟨cs ++ ds, rfl, (ih hCs.2).2 (List.prefix_append cs ds)⟩

theorem isBoundary_append (bs : List UInt8) (cs : List Char) :
    isBoundary (bs ++ cs.flatMap String.utf8EncodeChar) bs.length = true := by
  unfold isBoundary
  rw [List.drop_left]
  cases cs with
  | nil => simp
  | cons c cs =>
    rw [List.flatMap_cons]
    by_cases hAscii : c.toNat < 128
    · have hByte : c.toUInt8 < 128 := by
        rw [UInt8.lt_iff_toNat_lt, toNat_toUInt8_of_lt hAscii]
        exact hAscii
      rw [utf8EncodeChar_of_lt hAscii, List.singleton_append]
      simp [hByte]
    · obtain ⟨lead, trail, hEncode, hLead⟩ := exists_lead_of_le (Nat.not_lt.1 hAscii)
      have hByte : 192 ≤ lead := UInt8.le_iff_toNat_le.2 hLead
      rw [hEncode, List.cons_append]
      simp [hByte]

theorem flatMap_lt_iff {cs ds : List Char} (hCs : ∀ c ∈ cs, c.toNat < 128)
    (hDs : ∀ d ∈ ds, d.toNat < 128) :
    cs.flatMap String.utf8EncodeChar < ds.flatMap String.utf8EncodeChar ↔ cs < ds := by
  induction cs generalizing ds with
  | nil =>
    cases ds with
    | nil => simp
    | cons d ds =>
      rw [List.flatMap_nil, List.flatMap_cons, utf8EncodeChar_of_lt (hDs d List.mem_cons_self)]
      simp
  | cons c cs ih =>
    rw [List.forall_mem_cons] at hCs
    cases ds with
    | nil => simp
    | cons d ds =>
      rw [List.forall_mem_cons] at hDs
      rw [List.flatMap_cons, List.flatMap_cons, utf8EncodeChar_of_lt hCs.1,
        utf8EncodeChar_of_lt hDs.1, List.singleton_append, List.singleton_append,
        List.cons_lt_cons_iff, List.cons_lt_cons_iff, ih hCs.2 hDs.2,
        toUInt8_inj_of_lt hCs.1 hDs.1, UInt8.lt_iff_toNat_lt, toNat_toUInt8_of_lt hCs.1,
        toNat_toUInt8_of_lt hDs.1]
      rfl

theorem bytes_lt_iff {a b : String} (ha : ∀ c ∈ a.toList, c.toNat < 128)
    (hb : ∀ c ∈ b.toList, c.toNat < 128) : bytes a < bytes b ↔ a < b := by
  rw [bytes_eq, bytes_eq, flatMap_lt_iff ha hb]
  rfl

theorem bytes_le_iff {a b : String} (ha : ∀ c ∈ a.toList, c.toNat < 128)
    (hb : ∀ c ∈ b.toList, c.toNat < 128) : bytes a ≤ bytes b ↔ a ≤ b := by
  rw [← Std.not_lt, ← Std.not_lt, bytes_lt_iff hb ha]

end CostlyCalls.Text
