import Mathlib
import CostlyCalls.Proofs.Bytes
import CostlyCalls.Proofs.Json.Lexing
import CostlyCalls.RuleId

/-!
# Written rule identifiers

A text denotes an identifier exactly if it is the written form of the identifier, in any case of its
letters. Reading goes by letters and digits; `RuleId.parse?_eq_some_iff` says the same with the
printer, so that other modules need not look into a text.
-/

set_option autoImplicit false

namespace CostlyCalls.RuleId

theorem toLower_eq_iff {c l : Char} (hLetter : l.toLower = l) :
    c.toLower = l ↔ c.toUpper = l.toUpper := by
  constructor
  · intro hSame
    rw [← hSame, Char.toUpper_toLower_eq_toUpper]
  · intro hSame
    rw [← Char.toLower_toUpper_eq_toLower, hSame, Char.toLower_toUpper_eq_toLower, hLetter]

theorem toLower_eq_iff_mem {c l : Char} (hLetter : l.toLower = l) :
    c.toLower = l ↔ c ∈ [l, l.toUpper] := by
  rw [List.mem_cons, List.mem_singleton]
  constructor
  · intro hSame
    by_cases hUpper : c.isUpper = true
    · right
      have hFixed : c.toUpper = c :=
        Char.toUpper_eq_of_not_isLower (Char.not_isLower_of_isUpper hUpper)
      rw [← (toLower_eq_iff hLetter).1 hSame, hFixed]
    · left
      rw [Char.toLower_eq_of_not_isUpper hUpper] at hSame
      exact hSame
  · rintro (rfl | rfl)
    · exact hLetter
    · exact (toLower_eq_iff hLetter).2 (Char.toUpper_toUpper_eq_toUpper l)

theorem isAlpha_of_isDigit {c : Char} (hc : c.isDigit = true) : c.isAlpha = false := by
  rw [Bool.eq_false_iff]
  intro hAlpha
  have hDigit : 48 ≤ c.toNat ∧ c.toNat ≤ 57 := Char.isDigit_iff_toNat.1 hc
  have hLetter : 65 ≤ c.toNat ∧ c.toNat ≤ 90 ∨ 97 ≤ c.toNat ∧ c.toNat ≤ 122 := by
    simpa [Char.isAlpha, Char.isUpper, Char.isLower, UInt32.le_iff_toNat_le] using hAlpha
  omega

theorem toUpper_of_isAlpha_eq_false {c : Char} (hc : c.isAlpha = false) : c.toUpper = c := by
  apply Char.toUpper_eq_of_not_isLower
  intro hLower
  simp [Char.isAlpha, hLower] at hc

theorem map_toUpper_eq_iff {ds es : List Char} (hDigits : ∀ e ∈ es, e.isDigit = true) :
    ds.map Char.toUpper = es ↔ ds = es := by
  have hFixed : (∀ d ∈ ds, d.isAlpha = false) → ds.map Char.toUpper = ds := by
    intro hLetters
    refine (List.map_congr_left fun d hd => ?_).trans (List.map_id ds)
    exact toUpper_of_isAlpha_eq_false (hLetters d hd)
  constructor
  · rintro rfl
    refine (hFixed fun d hd => ?_).symm
    rw [← Char.isAlpha_toUpper_eq_isAlpha]
    exact isAlpha_of_isDigit (hDigits _ (List.mem_map_of_mem hd))
  · rintro rfl
    exact hFixed fun d hd => isAlpha_of_isDigit (hDigits d hd)

def charValue (c : Char) : Nat := c.toNat - '0'.toNat

def charsValue (ds : List Char) : Nat := ds.foldl (fun n d => 10 * n + charValue d) 0

theorem charValue_lt {c : Char} (hc : c.isDigit = true) : charValue c < 10 := by
  have hDigit : 48 ≤ c.toNat ∧ c.toNat ≤ 57 := Char.isDigit_iff_toNat.1 hc
  change c.toNat - 48 < 10
  omega

theorem eq_of_charValue_eq {c d : Char} (hc : c.isDigit = true) (hd : d.isDigit = true)
    (hValue : charValue c = charValue d) : c = d := by
  have hFirst : 48 ≤ c.toNat ∧ c.toNat ≤ 57 := Char.isDigit_iff_toNat.1 hc
  have hSecond : 48 ≤ d.toNat ∧ d.toNat ≤ 57 := Char.isDigit_iff_toNat.1 hd
  change c.toNat - 48 = d.toNat - 48 at hValue
  apply Char.toNat_inj.1
  omega

theorem charsValue_concat (ds : List Char) (d : Char) :
    charsValue (ds ++ [d]) = 10 * charsValue ds + charValue d := by
  rw [charsValue, List.foldl_append]
  rfl

theorem charsValue_lt {ds : List Char} (hDigits : ∀ d ∈ ds, d.isDigit = true) :
    charsValue ds < 10 ^ ds.length := by
  induction ds using List.reverseRecOn with
  | nil => exact Nat.one_pos
  | append_singleton ds d ih =>
    rw [List.forall_mem_append, List.forall_mem_singleton] at hDigits
    have hRest := ih hDigits.1
    have hLast := charValue_lt hDigits.2
    rw [charsValue_concat, List.length_append, List.length_singleton, pow_succ]
    omega

theorem eq_of_charsValue_eq {ds es : List Char} (hDs : ∀ d ∈ ds, d.isDigit = true)
    (hEs : ∀ e ∈ es, e.isDigit = true) (hLength : ds.length = es.length)
    (hValue : charsValue ds = charsValue es) : ds = es := by
  induction ds using List.reverseRecOn generalizing es with
  | nil => exact (List.length_eq_zero_iff.1 hLength.symm).symm
  | append_singleton ds d ih =>
    rcases List.eq_nil_or_concat' es with rfl | ⟨es, e, rfl⟩
    · simp at hLength
    · rw [List.forall_mem_append, List.forall_mem_singleton] at hDs hEs
      rw [charsValue_concat, charsValue_concat] at hValue
      have hFirst := charValue_lt hDs.2
      have hSecond := charValue_lt hEs.2
      rw [ih hDs.1 hEs.1 (by simpa using hLength) (by omega),
        eq_of_charValue_eq hDs.2 hEs.2 (by omega)]

theorem toNat_toUInt16 {n : Nat} (hn : n ≤ maxNumber) : n.toUInt16.toNat = n := by
  rw [Nat.toUInt16_eq, UInt16.toNat_ofNat']
  apply Nat.mod_eq_of_lt
  change n ≤ 9999 at hn
  omega

theorem isDigit_paddedDigits {n : Nat} : ∀ d ∈ paddedDigits n, d.isDigit = true :=
  @Json.isDigit_paddedDigits 4 n

theorem length_paddedDigits {n : Nat} (hn : n ≤ maxNumber) : (paddedDigits n).length = 4 :=
  Json.length_paddedDigits (by decide) (Nat.lt_succ_of_le hn)

theorem charsValue_paddedDigits (n : Nat) : charsValue (paddedDigits n) = n :=
  @Json.ofDigitChars_paddedDigits 4 n

theorem paddedDigits_charsValue {ds : List Char} (hLength : ds.length = 4)
    (hDigits : ∀ d ∈ ds, d.isDigit = true) :
    charsValue ds ≤ maxNumber ∧ paddedDigits (charsValue ds) = ds := by
  have hValue : charsValue ds ≤ maxNumber := by
    have hLt := charsValue_lt hDigits
    rw [hLength] at hLt
    exact Nat.le_of_lt_succ hLt
  refine ⟨hValue, eq_of_charsValue_eq isDigit_paddedDigits hDigits ?_ ?_⟩
  · rw [length_paddedDigits hValue, hLength]
  · rw [charsValue_paddedDigits]

theorem isDigitByte_toUInt8 {c : Char} (hAscii : c.toNat < 128) :
    isDigitByte c.toUInt8 = c.isDigit := by
  rw [Bool.eq_iff_iff, Char.isDigit_iff_toNat, isDigitByte, Bool.and_eq_true, decide_eq_true_iff,
    decide_eq_true_iff, UInt8.le_iff_toNat_le, UInt8.le_iff_toNat_le,
    Text.toNat_toUInt8_of_lt hAscii]
  rfl

theorem all_isDigitByte_flatMap (ds : List Char) :
    (ds.flatMap String.utf8EncodeChar).all isDigitByte = ds.all Char.isDigit := by
  rw [List.all_flatMap]
  congr 1
  funext d
  by_cases hAscii : d.toNat < 128
  · rw [Text.utf8EncodeChar_of_lt hAscii, List.all_cons, List.all_nil, Bool.and_true,
      isDigitByte_toUInt8 hAscii]
  · obtain ⟨lead, trail, hEncode, hLead⟩ := Text.exists_lead_of_le (Nat.not_lt.1 hAscii)
    have hNoByte : isDigitByte lead = false := by
      have hAbove : ¬lead ≤ 57 := by
        rw [UInt8.le_iff_toNat_le]
        change ¬lead.toNat ≤ 57
        omega
      simp [isDigitByte, hAbove]
    have hNoDigit : d.isDigit = false := by
      rw [Bool.eq_false_iff, Ne, Char.isDigit_iff_toNat]
      change ¬(48 ≤ d.toNat ∧ d.toNat ≤ 57)
      omega
    rw [hEncode, List.all_cons, hNoByte, hNoDigit, Bool.false_and]

theorem lt_of_isDigit {c : Char} (hc : c.isDigit = true) : c.toNat < 128 := by
  have hDigit : 48 ≤ c.toNat ∧ c.toNat ≤ 57 := Char.isDigit_iff_toNat.1 hc
  omega

theorem digitsValue_map_toUInt8 {ds : List Char} (hDigits : ∀ d ∈ ds, d.isDigit = true) :
    digitsValue (ds.map Char.toUInt8) = charsValue ds := by
  rw [digitsValue, charsValue, List.foldl_map]
  apply List.foldl_ext
  intro n d hd
  rw [Text.toNat_toUInt8_of_lt (lt_of_isDigit (hDigits d hd))]
  rfl

theorem number?_of_four {ds : List Char} (hLength : ds.length = 4)
    (hDigits : ∀ d ∈ ds, d.isDigit = true) :
    number? (ds.map Char.toUInt8) = some (charsValue ds).toUInt16 := by
  rw [number?, digitsValue_map_toUInt8 hDigits]
  apply if_pos
  have hValue : charsValue ds ≤ 9999 := (paddedDigits_charsValue hLength hDigits).1
  change charsValue ds < 65536
  omega

structure IsLetters (a b c : Char) : Prop where
  first : a.toLower = 'c'
  second : b.toLower = 'o'
  third : c.toLower = 'l'

theorem lt_of_toLower_lt {c : Char} (hLower : c.toLower.toNat < 128) : c.toNat < 128 := by
  by_cases hUpper : c.isUpper = true
  · have hRange : 65 ≤ c.toNat ∧ c.toNat ≤ 90 := by
      simpa [Char.isUpper, UInt32.le_iff_toNat_le] using hUpper
    omega
  · rw [Char.toLower_eq_of_not_isUpper hUpper] at hLower
    exact hLower

theorem IsLetters.lt {a b c : Char} (hLetters : IsLetters a b c) :
    ∀ x ∈ [a, b, c], x.toNat < 128 := by
  simp only [List.forall_mem_cons]
  refine ⟨?_, ?_, ?_, List.forall_mem_nil _⟩
  · exact lt_of_toLower_lt (hLetters.first ▸ by decide)
  · exact lt_of_toLower_lt (hLetters.second ▸ by decide)
  · exact lt_of_toLower_lt (hLetters.third ▸ by decide)

theorem lowerByte_eq_iff {b : UInt8} {l : Char} (hLetter : l ∈ ['c', 'o', 'l']) :
    lowerByte b = l.toUInt8 ↔ ∃ a : Char, a.toLower = l ∧ b = a.toUInt8 := by
  obtain ⟨hLower, hByte, hUpper⟩ : l.toLower = l ∧ (97 ≤ l.toUInt8.toNat ∧ l.toUInt8.toNat ≤ 122) ∧
      l.toUpper.toUInt8.toNat + 32 = l.toUInt8.toNat := by
    simp only [List.mem_cons, List.not_mem_nil, or_false] at hLetter
    rcases hLetter with rfl | rfl | rfl <;> decide
  have hBytes : lowerByte b = l.toUInt8 ↔ b = l.toUInt8 ∨ b = l.toUpper.toUInt8 := by
    rw [← UInt8.toNat_inj, ← UInt8.toNat_inj, ← UInt8.toNat_inj, lowerByte]
    simp only [UInt8.le_iff_toNat_le]
    change (if 65 ≤ b.toNat ∧ b.toNat ≤ 90 then b + 32 else b).toNat = _ ↔ _
    split
    · rw [UInt8.toNat_add]
      change (b.toNat + 32) % 256 = _ ↔ _
      omega
    · omega
  rw [hBytes]
  simp only [toLower_eq_iff_mem hLower, List.mem_cons, List.not_mem_nil, or_false, or_and_right,
    exists_or, exists_eq_left]

theorem isLetters_iff {bs : List UInt8} :
    isLetters bs = true ↔ ∃ a b c, IsLetters a b c ∧ bs = [a, b, c].map Char.toUInt8 := by
  have hLetters : (Text.bytes letters).map lowerByte = ['c', 'o', 'l'].map Char.toUInt8 := by
    decide +kernel
  rw [isLetters, hLetters, beq_iff_eq]
  constructor
  · intro hLower
    simp only [List.map_cons, List.map_nil, List.map_eq_cons_iff, List.map_eq_nil_iff] at hLower
    obtain ⟨x, _, rfl, hx, y, _, rfl, hy, z, _, rfl, hz, rfl⟩ := hLower
    obtain ⟨a, ha, rfl⟩ := (lowerByte_eq_iff (by decide)).1 hx
    obtain ⟨b, hb, rfl⟩ := (lowerByte_eq_iff (by decide)).1 hy
    obtain ⟨c, hc, rfl⟩ := (lowerByte_eq_iff (by decide)).1 hz
    exact ⟨a, b, c, ⟨ha, hb, hc⟩, rfl⟩
  · rintro ⟨a, b, c, ⟨ha, hb, hc⟩, rfl⟩
    simp only [List.map_cons, List.map_nil, List.cons.injEq, and_true]
    exact ⟨(lowerByte_eq_iff (by decide)).2 ⟨a, ha, rfl⟩,
      (lowerByte_eq_iff (by decide)).2 ⟨b, hb, rfl⟩, (lowerByte_eq_iff (by decide)).2 ⟨c, hc, rfl⟩⟩

theorem utf8ByteSize_letters : letters.utf8ByteSize = 3 := by decide +kernel

theorem IsLetters.bytes_eq {text : String} {a b c : Char} {ds : List Char}
    (hLetters : IsLetters a b c) (hText : text.toList = a :: b :: c :: ds) :
    Text.bytes text = [a, b, c].map Char.toUInt8 ++ ds.flatMap String.utf8EncodeChar := by
  rw [Text.bytes_eq, hText, ← Text.flatMap_utf8EncodeChar_of_lt hLetters.lt,
    ← List.flatMap_append]
  rfl

theorem filter_before?_eq_some_iff {text : String} {head : List UInt8} :
    (Text.before? (Text.bytes text) letters.utf8ByteSize).filter isLetters = some head ↔
      ∃ a b c ds, IsLetters a b c ∧ text.toList = a :: b :: c :: ds ∧
        head = [a, b, c].map Char.toUInt8 := by
  rw [Option.filter_eq_some_iff, Text.before?_eq_some_iff, utf8ByteSize_letters, isLetters_iff]
  constructor
  · rintro ⟨⟨-, hTake⟩, a, b, c, hLetters, rfl⟩
    have hPrefix : [a, b, c].map Char.toUInt8 <+: Text.bytes text := hTake ▸ List.take_prefix 3 _
    rw [Text.bytes_eq, Text.map_toUInt8_prefix_iff hLetters.lt] at hPrefix
    obtain ⟨ds, hText⟩ := hPrefix
    exact ⟨a, b, c, ds, hLetters, hText.symm, rfl⟩
  · rintro ⟨a, b, c, ds, hLetters, hText, rfl⟩
    rw [hLetters.bytes_eq hText]
    exact ⟨⟨Text.isBoundary_append ([a, b, c].map Char.toUInt8) ds, rfl⟩, a, b, c, hLetters,
      rfl⟩

theorem parse_of_isLetters {text : String} {a b c : Char} {ds : List Char}
    (hLetters : IsLetters a b c) (hText : text.toList = a :: b :: c :: ds) :
    parse text =
      if ds.length = 4 ∧ ds.all Char.isDigit then .ok ⟨(charsValue ds).toUInt16⟩
      else .error (.digits text) := by
  have hHead := filter_before?_eq_some_iff.2 ⟨a, b, c, ds, hLetters, hText, rfl⟩
  have hDigits : (Text.bytes text).drop letters.utf8ByteSize =
      ds.flatMap String.utf8EncodeChar := by
    rw [hLetters.bytes_eq hText, utf8ByteSize_letters]
    rfl
  unfold parse
  dsimp only
  split
  · next hNone => cases hNone.symm.trans hHead
  · rw [Text.behind, hDigits, all_isDigitByte_flatMap]
    by_cases hAll : ds.all Char.isDigit = true
    · have hAll' := List.all_eq_true.1 hAll
      rw [Text.flatMap_utf8EncodeChar_of_lt fun d hd => lt_of_isDigit (hAll' d hd), List.length_map]
      by_cases hLength : ds.length = 4
      · rw [if_pos ⟨hLength, hAll⟩, if_pos ⟨hLength, hAll⟩, number?_of_four hLength hAll']
      · rw [if_neg fun h => hLength h.1, if_neg fun h => hLength h.1]
    · rw [if_neg fun h => hAll h.2, if_neg fun h => hAll h.2]

theorem parse_of_not_isLetters {text : String}
    (hText : ∀ a b c ds, text.toList = a :: b :: c :: ds → ¬IsLetters a b c) :
    parse text = .error (.letters text) := by
  unfold parse
  dsimp only
  split
  · rfl
  · next head hHead =>
    obtain ⟨a, b, c, ds, hLetters, hChars, -⟩ := filter_before?_eq_some_iff.1 hHead
    exact absurd hLetters (hText a b c ds hChars)

theorem parse?_eq_some_iff_digits {text : String} {id : RuleId} :
    parse? text = some id ↔ ∃ a b c ds, text.toList = a :: b :: c :: ds ∧ IsLetters a b c ∧
      (ds.length = 4 ∧ ∀ d ∈ ds, d.isDigit = true) ∧ id = ⟨(charsValue ds).toUInt16⟩ := by
  by_cases hOpens : ∃ a b c ds, text.toList = a :: b :: c :: ds ∧ IsLetters a b c
  · obtain ⟨a, b, c, ds, hText, hLetters⟩ := hOpens
    rw [parse?, parse_of_isLetters hLetters hText]
    constructor
    · intro hParse
      split at hParse
      · next hDigits =>
        cases hParse
        rw [List.all_eq_true] at hDigits
        exact ⟨a, b, c, ds, hText, hLetters, hDigits, rfl⟩
      · cases hParse
    · rintro ⟨a', b', c', ds', hText', -, hDigits, rfl⟩
      cases hText.symm.trans hText'
      rw [← List.all_eq_true] at hDigits
      rw [if_pos hDigits]
      rfl
  · have hNone : parse text = .error (.letters text) := by
      apply parse_of_not_isLetters
      exact fun a b c ds hText hLetters => hOpens ⟨a, b, c, ds, hText, hLetters⟩
    rw [parse?, hNone]
    constructor
    · rintro ⟨⟩
    · rintro ⟨a, b, c, ds, hText, hLetters, -⟩
      exact absurd ⟨a, b, c, ds, hText, hLetters⟩ hOpens

theorem toList_toText (id : RuleId) :
    id.toText.toList = 'C' :: 'O' :: 'L' :: paddedDigits id.number.toNat := by
  rw [toText, String.toList_append, String.toList_ofList]
  rfl

theorem parse?_eq_some_iff {text : String} {id : RuleId} :
    parse? text = some id ↔ id.isFourDigit = true ∧ text.toUpper = id.toText := by
  rw [parse?_eq_some_iff_digits, ← String.toList_inj, toList_toText, String.toUpper,
    String.toList_map, isFourDigit, decide_eq_true_iff]
  constructor
  · rintro ⟨a, b, c, ds, hText, ⟨ha, hb, hc⟩, ⟨hLength, hDigits⟩, rfl⟩
    rw [toLower_eq_iff rfl] at ha hb hc
    obtain ⟨hValue, hPadded⟩ := paddedDigits_charsValue hLength hDigits
    rw [toNat_toUInt16 hValue, hPadded, hText, List.map_cons, List.map_cons, List.map_cons, ha, hb,
      hc, (map_toUpper_eq_iff hDigits).2 rfl]
    exact ⟨hValue, rfl⟩
  · rintro ⟨hNumber, hText⟩
    obtain ⟨a, bs, hText, ha, hRest⟩ := List.map_eq_cons_iff.1 hText
    obtain ⟨b, cs, rfl, hb, hRest⟩ := List.map_eq_cons_iff.1 hRest
    obtain ⟨c, ds, rfl, hc, hRest⟩ := List.map_eq_cons_iff.1 hRest
    rw [map_toUpper_eq_iff isDigit_paddedDigits] at hRest
    refine ⟨a, b, c, ds, hText, ⟨(toLower_eq_iff rfl).2 ha, (toLower_eq_iff rfl).2 hb,
      (toLower_eq_iff rfl).2 hc⟩, ?_, ?_⟩
    · rw [hRest]
      exact ⟨length_paddedDigits hNumber, isDigit_paddedDigits⟩
    · rw [hRest, charsValue_paddedDigits, Nat.toUInt16_eq, UInt16.ofNat_toNat]

end CostlyCalls.RuleId
