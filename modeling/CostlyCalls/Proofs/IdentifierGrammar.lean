import CostlyCalls.Proofs.Bytes
import CostlyCalls.Proofs.Identifiers

/-!
# The grammar of rule identifiers

A text denotes an identifier exactly if it consists of the three letters in any case and of four
decimal digits, and then it denotes their value. What is wrong with any other text is decided by its
first three bytes: if they are the letters, the rest is no four digits, and if not, the letters are
missing, be it that a character goes across the end of these bytes. The printed form is the
canonical one among the texts that denote an identifier.
-/

set_option autoImplicit false

namespace CostlyCalls.RuleId

/-- The text is made of the letters in any case and of four digits, which denote `n`. -/
def Spells (text : String) (n : Nat) : Prop :=
  ∃ a ∈ ['c', 'C'], ∃ b ∈ ['o', 'O'], ∃ c ∈ ['l', 'L'], ∃ i j k l : Fin 10,
    text.toList = [a, b, c, Nat.digitChar i, Nat.digitChar j, Nat.digitChar k, Nat.digitChar l] ∧
      n = 1000 * i + 100 * j + 10 * k + l

def OpensWithLetters (text : String) : Prop :=
  ∃ a ∈ ['c', 'C'], ∃ b ∈ ['o', 'O'], ∃ c ∈ ['l', 'L'],
    [a.toUInt8, b.toUInt8, c.toUInt8] <+: Text.bytes text

theorem isDigit_iff_digitChar {d : Char} :
    d.isDigit = true ↔ ∃ i : Fin 10, d = Nat.digitChar i := by
  rw [Char.isDigit_iff_toNat]
  constructor
  · intro hDigit
    have hRange : 48 ≤ d.toNat ∧ d.toNat ≤ 57 := hDigit
    refine ⟨⟨d.toNat - 48, by omega⟩, Char.toNat_inj.1 ?_⟩
    rw [Nat.toNat_digitChar_of_lt_ten (by omega)]
    exact (Nat.add_sub_of_le hRange.1).symm
  · rintro ⟨i, rfl⟩
    rw [Nat.toNat_digitChar_of_lt_ten i.isLt]
    have hBound := i.isLt
    change 48 ≤ 48 + i.val ∧ 48 + i.val ≤ 57
    omega

theorem fourDigits_iff {ds : List Char} :
    (ds.length = 4 ∧ ∀ d ∈ ds, d.isDigit = true) ↔ ∃ i j k l : Fin 10,
      ds = [Nat.digitChar i, Nat.digitChar j, Nat.digitChar k, Nat.digitChar l] := by
  constructor
  · rintro ⟨hLength, hDigits⟩
    match ds, hLength with
    | [d₃, d₂, d₁, d₀], _ =>
      simp only [List.forall_mem_cons, isDigit_iff_digitChar] at hDigits
      obtain ⟨⟨i, rfl⟩, ⟨j, rfl⟩, ⟨k, rfl⟩, ⟨l, rfl⟩, -⟩ := hDigits
      exact ⟨i, j, k, l, rfl⟩
  · rintro ⟨i, j, k, l, rfl⟩
    refine ⟨rfl, ?_⟩
    simp only [List.forall_mem_cons, isDigit_iff_digitChar]
    exact ⟨⟨i, rfl⟩, ⟨j, rfl⟩, ⟨k, rfl⟩, ⟨l, rfl⟩, List.forall_mem_nil _⟩

theorem charsValue_four (i j k l : Fin 10) :
    charsValue [Nat.digitChar i, Nat.digitChar j, Nat.digitChar k, Nat.digitChar l] =
      1000 * i + 100 * j + 10 * k + l := by
  have hDigit : ∀ i : Fin 10, charValue (Nat.digitChar i) = i := by decide
  simp only [charsValue, List.foldl_cons, List.foldl_nil, hDigit]
  omega

theorem Spells.le {text : String} {n : Nat} (hSpells : Spells text n) : n ≤ maxNumber := by
  obtain ⟨-, -, -, -, -, -, i, j, k, l, -, rfl⟩ := hSpells
  change _ ≤ 9999
  omega

theorem isLetters_iff_mem {a b c : Char} :
    IsLetters a b c ↔ a ∈ ['c', 'C'] ∧ b ∈ ['o', 'O'] ∧ c ∈ ['l', 'L'] := by
  have hLetter (c l : Char) (hLower : l.toLower = l) : c.toLower = l ↔ c ∈ [l, l.toUpper] :=
    toLower_eq_iff_mem hLower
  constructor
  · rintro ⟨ha, hb, hc⟩
    exact ⟨(hLetter a 'c' rfl).1 ha, (hLetter b 'o' rfl).1 hb, (hLetter c 'l' rfl).1 hc⟩
  · rintro ⟨ha, hb, hc⟩
    exact ⟨(hLetter a 'c' rfl).2 ha, (hLetter b 'o' rfl).2 hb, (hLetter c 'l' rfl).2 hc⟩

theorem Spells.lt {text : String} {n : Nat} (hSpells : Spells text n) :
    ∀ c ∈ text.toList, c.toNat < 128 := by
  obtain ⟨a, ha, b, hb, c, hc, i, j, k, l, hText, -⟩ := hSpells
  have hLetters := (isLetters_iff_mem.2 ⟨ha, hb, hc⟩).lt
  have hDigit : ∀ i : Fin 10, (Nat.digitChar i).toNat < 128 := by
    intro i
    rw [Nat.toNat_digitChar_of_lt_ten i.isLt]
    omega
  simp only [List.forall_mem_cons] at hLetters
  rw [hText]
  simp only [List.forall_mem_cons]
  exact ⟨hLetters.1, hLetters.2.1, hLetters.2.2.1, hDigit i, hDigit j, hDigit k, hDigit l,
    List.forall_mem_nil _⟩

theorem parse?_eq_some_iff_spells {text : String} {id : RuleId} :
    parse? text = some id ↔ Spells text id.number.toNat := by
  rw [parse?_eq_some_iff_digits]
  constructor
  · rintro ⟨a, b, c, ds, hText, hLetters, hDigits, rfl⟩
    obtain ⟨ha, hb, hc⟩ := isLetters_iff_mem.1 hLetters
    obtain ⟨i, j, k, l, rfl⟩ := fourDigits_iff.1 hDigits
    have hValue := (paddedDigits_charsValue hDigits.1 hDigits.2).1
    refine ⟨a, ha, b, hb, c, hc, i, j, k, l, hText, ?_⟩
    rw [toNat_toUInt16 hValue, charsValue_four]
  · rintro ⟨a, ha, b, hb, c, hc, i, j, k, l, hText, hNumber⟩
    refine ⟨a, b, c, _, hText, isLetters_iff_mem.2 ⟨ha, hb, hc⟩,
      fourDigits_iff.2 ⟨i, j, k, l, rfl⟩, ?_⟩
    rw [charsValue_four, ← hNumber, Nat.toUInt16_eq, UInt16.ofNat_toNat]

theorem parse_eq_ok_iff {text : String} {id : RuleId} :
    parse text = .ok id ↔ Spells text id.number.toNat := by
  rw [← parse?_eq_some_iff_spells, parse?]
  cases parse text with
  | ok other =>
    change _ ↔ some other = some id
    rw [Except.ok.injEq, Option.some_inj]
  | error fault =>
    constructor
    · rintro ⟨⟩
    · rintro ⟨⟩

theorem exists_parse_iff {text : String} :
    (∃ id, parse text = .ok id) ↔ ∃ n, Spells text n := by
  constructor
  · rintro ⟨id, hParse⟩
    exact ⟨_, parse_eq_ok_iff.1 hParse⟩
  · rintro ⟨n, hSpells⟩
    refine ⟨⟨n.toUInt16⟩, parse_eq_ok_iff.2 ?_⟩
    rw [toNat_toUInt16 hSpells.le]
    exact hSpells

theorem opensWithLetters_iff {text : String} :
    OpensWithLetters text ↔ ∃ a b c ds, text.toList = a :: b :: c :: ds ∧ IsLetters a b c := by
  have hPrefix {a b c : Char} (hLetters : IsLetters a b c) :
      [a.toUInt8, b.toUInt8, c.toUInt8] <+: Text.bytes text ↔ [a, b, c] <+: text.toList := by
    rw [Text.bytes_eq]
    exact Text.map_toUInt8_prefix_iff hLetters.lt
  constructor
  · rintro ⟨a, ha, b, hb, c, hc, hOpens⟩
    have hLetters := isLetters_iff_mem.2 ⟨ha, hb, hc⟩
    obtain ⟨ds, hText⟩ := (hPrefix hLetters).1 hOpens
    exact ⟨a, b, c, ds, hText.symm, hLetters⟩
  · rintro ⟨a, b, c, ds, hText, hLetters⟩
    obtain ⟨ha, hb, hc⟩ := isLetters_iff_mem.1 hLetters
    exact ⟨a, ha, b, hb, c, hc, (hPrefix hLetters).2 ⟨ds, hText.symm⟩⟩

/-- What reading a text can end in: the letters are missing, or the digits behind them are not four,
or the text is read. A number that does not fit is none of these. -/
theorem parse_cases (text : String) :
    ¬OpensWithLetters text ∧ parse text = .error (.letters text) ∨
      OpensWithLetters text ∧
        (parse text = .error (.digits text) ∨ ∃ id, parse text = .ok id) := by
  by_cases hOpens : OpensWithLetters text
  · right
    refine ⟨hOpens, ?_⟩
    obtain ⟨a, b, c, ds, hText, hLetters⟩ := opensWithLetters_iff.1 hOpens
    rw [parse_of_isLetters hLetters hText]
    split
    · right
      exact ⟨_, rfl⟩
    · left
      rfl
  · left
    refine ⟨hOpens, parse_of_not_isLetters ?_⟩
    intro a b c ds hText hLetters
    exact hOpens (opensWithLetters_iff.2 ⟨a, b, c, ds, hText, hLetters⟩)

theorem parse_eq_error_iff {text : String} {fault : Fault} :
    parse text = .error fault ↔ (¬∃ n, Spells text n) ∧
      (OpensWithLetters text ∧ fault = .digits text ∨
        ¬OpensWithLetters text ∧ fault = .letters text) := by
  rw [← exists_parse_iff]
  rcases parse_cases text with ⟨hOpens, hParse⟩ | ⟨hOpens, hParse | ⟨id, hParse⟩⟩
  · simp [hParse, hOpens, eq_comm]
  · simp [hParse, hOpens, eq_comm]
  · simp [hParse]

theorem toText_injective : Function.Injective toText := by
  intro a b hText
  have hDigits : paddedDigits a.number.toNat = paddedDigits b.number.toNat := by
    have hChars := congrArg String.toList hText
    rw [toList_toText, toList_toText] at hChars
    simpa using hChars
  have hNumber := congrArg charsValue hDigits
  rw [charsValue_paddedDigits, charsValue_paddedDigits, UInt16.toNat_inj] at hNumber
  cases a
  cases b
  cases hNumber
  rfl

theorem toUpper_toText (id : RuleId) : id.toText.toUpper = id.toText := by
  rw [← String.toList_inj, String.toUpper, String.toList_map, toList_toText, List.map_cons,
    List.map_cons, List.map_cons, (map_toUpper_eq_iff isDigit_paddedDigits).2 rfl]
  rfl

theorem opensWithLetters_toText (id : RuleId) : OpensWithLetters id.toText :=
  opensWithLetters_iff.2 ⟨'C', 'O', 'L', _, toList_toText id, rfl, rfl, rfl⟩

theorem parse_toText (id : RuleId) :
    parse id.toText =
      if id.number.toNat ≤ 9999 then .ok id else .error (.digits id.toText) := by
  by_cases hNumber : id.number.toNat ≤ 9999
  · rw [if_pos hNumber, parse_eq_ok_iff, ← parse?_eq_some_iff_spells, parse?_eq_some_iff]
    exact ⟨decide_eq_true hNumber, toUpper_toText id⟩
  · rw [if_neg hNumber]
    rcases parse_cases id.toText with ⟨hOpens, -⟩ | ⟨-, hParse | ⟨other, hParse⟩⟩
    · exact absurd (opensWithLetters_toText id) hOpens
    · exact hParse
    · rw [parse_eq_ok_iff, ← parse?_eq_some_iff_spells, parse?_eq_some_iff,
        toUpper_toText] at hParse
      obtain rfl := toText_injective hParse.2
      exact absurd (of_decide_eq_true hParse.1) hNumber

/-- Exactly the texts of three letters and four digits are read, and the printed form is canonical
among them. -/
theorem parse_exact_canonical :
    (∀ text id, parse text = .ok id ↔ Spells text id.number.toNat) ∧
    (∀ text fault, parse text = .error fault ↔ (¬∃ n, Spells text n) ∧
      (OpensWithLetters text ∧ fault = .digits text ∨
        ¬OpensWithLetters text ∧ fault = .letters text)) ∧
    (∀ text id, parse text = .ok id → id.toText = text.toUpper) ∧
    (∀ id : RuleId, parse id.toText =
      if id.number.toNat ≤ 9999 then .ok id else .error (.digits id.toText)) ∧
    ∀ a b : RuleId, a.toText = b.toText → a = b := by
  refine ⟨fun text id => parse_eq_ok_iff, fun text fault => parse_eq_error_iff, ?_, parse_toText,
    fun a b hText => toText_injective hText⟩
  intro text id hParse
  rw [parse_eq_ok_iff, ← parse?_eq_some_iff_spells, parse?_eq_some_iff] at hParse
  exact hParse.2.symm

example : parse "CO€0010" = .error (.letters "CO€0010") := by decide +kernel

end CostlyCalls.RuleId
