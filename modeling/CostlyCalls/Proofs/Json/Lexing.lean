import CostlyCalls.Json.Printer
import CostlyCalls.Json.Token
import CostlyCalls.Proofs.Json.Nesting

/-!
# The tokens of written values

Reading the compact form of a value character by character gives the tokens of the value, and the
machine then stands between two tokens again. A number is only complete at a character that cannot
continue it, so the statements quantify over the text that follows.
-/

set_option autoImplicit false

namespace CostlyCalls.Json

theorem digit?_digitChar {d : Nat} (hd : d < 10) : digit? (Nat.digitChar d) = some d := by
  have hAll : ∀ d < 10, digit? (Nat.digitChar d) = some d := by decide
  exact hAll d hd

theorem hexDigit?_hexChar {d : Nat} (hd : d < 16) : hexDigit? (hexChar d) = some d := by
  have hAll : ∀ d < 16, hexDigit? (hexChar d) = some d := by decide
  exact hAll d hd

theorem digit?_of_isDigit {c : Char} (hc : c.isDigit = true) :
    digit? c = some (c.toNat - '0'.toNat) := if_pos hc

theorem ne_of_isDigit {c x : Char} (hc : c.isDigit = true) (hx : x.isDigit = false) : c ≠ x := by
  rintro rfl
  rw [hc] at hx
  cases hx

theorem isDigit_toDigits {n : Nat} : ∀ c ∈ Nat.toDigits 10 n, c.isDigit = true :=
  fun _ hc => Nat.isDigit_of_mem_toDigits (by decide) (by decide) hc

theorem isDigit_paddedDigits {width n : Nat} : ∀ c ∈ paddedDigits width n, c.isDigit = true := by
  intro c hc
  rcases List.mem_append.1 hc with hc | hc
  · rw [List.eq_of_mem_replicate hc]
    rfl
  · exact isDigit_toDigits c hc

theorem length_paddedDigits {width n : Nat} (hWidth : 0 < width) (hn : n < Nat.pow 10 width) :
    (paddedDigits width n).length = width := by
  have hLength := (Nat.length_toDigits_le_iff (by decide) hWidth).2 hn
  rw [paddedDigits, List.length_append, List.length_replicate]
  omega

theorem ofDigitChars_paddedDigits {width n : Nat} :
    Nat.ofDigitChars 10 (paddedDigits width n) 0 = n := by
  rw [paddedDigits, Nat.ofDigitChars_append, Nat.ofDigitChars_replicate_zero, Nat.mul_zero,
    Nat.ofDigitChars_ten_toDigits]

namespace NumberPart

def whole (negative : Bool) (n : Nat) : NumberPart :=
  if n = 0 then .zero negative else .digits negative n

theorem isMark_of_isDigit {c : Char} (hc : c.isDigit = true) : isMark c = false := by
  simp [isMark, ne_of_isDigit hc (x := 'e') rfl, ne_of_isDigit hc (x := 'E') rfl]

theorem next?_whole_digit {negative : Bool} {n d : Nat} (hn : 0 < n) (hd : d < 10) :
    (whole negative n).next? (Nat.digitChar d) = some (whole negative (10 * n + d)) := by
  have hDigit : (Nat.digitChar d).isDigit = true := by
    rw [Nat.isDigit_digitChar, decide_eq_true hd]
  have hMark := isMark_of_isDigit hDigit
  rw [whole, if_neg (by omega), whole, if_neg (by omega), next?,
    if_neg (ne_of_isDigit hDigit rfl), hMark, if_neg (by decide), digit?_digitChar hd]
  rfl

theorem next?_whole_point {negative : Bool} {n : Nat} :
    (whole negative n).next? '.' = some (.point negative n) := by
  rw [whole]
  split
  · next hn => rw [hn]; rfl
  · rfl

theorem next?_whole_mark {negative : Bool} {n : Nat} :
    (whole negative n).next? 'e' = some (.mark negative n 0) := by
  rw [whole]
  split
  · next hn => rw [hn]; rfl
  · rfl

theorem foldlM_next?_toDigits (negative : Bool) (n : Nat) :
    ∃ d more, d < 10 ∧ Nat.toDigits 10 n = Nat.digitChar d :: more ∧
      more.foldlM next? (whole negative d) = some (whole negative n) := by
  induction n using Nat.base_induction 10 (by decide) with
  | single d hd => exact ⟨d, [], hd, Nat.toDigits_of_lt_base hd, rfl⟩
  | digit n d hd hn ih =>
    obtain ⟨first, more, hFirst, hDigits, hMore⟩ := ih
    refine ⟨first, more ++ [Nat.digitChar d], hFirst, ?_, ?_⟩
    · rw [← Nat.toDigits_append_toDigits (by decide) hn hd, hDigits, Nat.toDigits_of_lt_base hd]
      rfl
    · rw [List.foldlM_append, hMore]
      simp [next?_whole_digit hn hd]

theorem foldlM_next?_fraction {negative : Bool} {coefficient places : Nat} {digits : List Char}
    (hDigits : ∀ c ∈ digits, c.isDigit = true) :
    digits.foldlM next? (.fraction negative coefficient places) =
      some (.fraction negative (Nat.ofDigitChars 10 digits coefficient)
        (places + digits.length)) := by
  induction digits generalizing coefficient places with
  | nil => rfl
  | cons c rest ih =>
    rw [List.forall_mem_cons] at hDigits
    have hStep : next? (.fraction negative coefficient places) c =
        some (.fraction negative (10 * coefficient + (c.toNat - '0'.toNat)) (places + 1)) := by
      rw [next?, isMark_of_isDigit hDigits.1, if_neg (by decide), digit?_of_isDigit hDigits.1]
      rfl
    rw [List.foldlM_cons, hStep, Option.bind_eq_bind, Option.bind_some, ih hDigits.2,
      Nat.ofDigitChars_cons, List.length_cons, Nat.add_right_comm, Nat.add_assoc]

theorem foldlM_next?_point {negative : Bool} {coefficient : Nat} {digits : List Char}
    (hDigits : ∀ c ∈ digits, c.isDigit = true) (hSome : digits ≠ []) :
    digits.foldlM next? (.point negative coefficient) =
      some (.fraction negative (Nat.ofDigitChars 10 digits coefficient) digits.length) := by
  cases digits with
  | nil => exact absurd rfl hSome
  | cons c rest =>
    rw [List.forall_mem_cons] at hDigits
    have hStep : next? (.point negative coefficient) c =
        some (.fraction negative (10 * coefficient + (c.toNat - '0'.toNat)) 1) := by
      rw [next?, digit?_of_isDigit hDigits.1]
      rfl
    rw [List.foldlM_cons, hStep, Option.bind_eq_bind, Option.bind_some,
      foldlM_next?_fraction hDigits.2, Nat.ofDigitChars_cons, List.length_cons,
      Nat.add_comm rest.length]

theorem foldlM_next?_exponent {negative down : Bool} {coefficient places value : Nat}
    {digits : List Char} (hDigits : ∀ c ∈ digits, c.isDigit = true) :
    digits.foldlM next? (.exponent negative coefficient places down value) =
      some (.exponent negative coefficient places down (Nat.ofDigitChars 10 digits value)) := by
  induction digits generalizing value with
  | nil => rfl
  | cons c rest ih =>
    rw [List.forall_mem_cons] at hDigits
    rw [List.foldlM_cons, next?, digit?_of_isDigit hDigits.1, Option.map_some, Option.bind_eq_bind,
      Option.bind_some, ih hDigits.2, Nat.ofDigitChars_cons]

theorem foldlM_next?_fractionChars (negative : Bool) (coefficient places : Nat) :
    (fractionChars coefficient places ++ ['e']).foldlM next?
      (whole negative (coefficient / Nat.pow 10 places)) =
        some (.mark negative coefficient places) := by
  rw [fractionChars]
  split
  · next hPlaces =>
    subst hPlaces
    have hWhole : coefficient / Nat.pow 10 0 = coefficient := Nat.div_one coefficient
    rw [hWhole, List.nil_append, List.foldlM_cons, next?_whole_mark]
    rfl
  · next hPlaces =>
    have hRest : coefficient % Nat.pow 10 places < Nat.pow 10 places :=
      Nat.mod_lt _ (Nat.pow_pos (by decide))
    have hLength := length_paddedDigits (Nat.pos_of_ne_zero hPlaces) hRest
    have hSome : paddedDigits places (coefficient % Nat.pow 10 places) ≠ [] := by
      intro hNone
      rw [hNone] at hLength
      exact hPlaces hLength.symm
    have hValue : Nat.ofDigitChars 10 (paddedDigits places (coefficient % Nat.pow 10 places))
        (coefficient / Nat.pow 10 places) = coefficient := by
      rw [Nat.ofDigitChars_eq_ofDigitChars_zero, ofDigitChars_paddedDigits, hLength]
      exact Nat.div_add_mod coefficient (Nat.pow 10 places)
    rw [List.cons_append, List.foldlM_cons, next?_whole_point, Option.bind_eq_bind,
      Option.bind_some, List.foldlM_append, foldlM_next?_point isDigit_paddedDigits hSome, hLength,
      hValue]
    rfl

theorem next?_mark_digit {negative : Bool} {coefficient places : Nat} {c : Char}
    (hc : c.isDigit = true) :
    next? (.mark negative coefficient places) c =
      some (.exponent negative coefficient places false (c.toNat - '0'.toNat)) := by
  rw [next?, if_neg (ne_of_isDigit hc rfl), if_neg (ne_of_isDigit hc rfl), digit?_of_isDigit hc]
  rfl

theorem next?_exponentSign_digit {negative down : Bool} {coefficient places : Nat} {c : Char}
    (hc : c.isDigit = true) :
    next? (.exponentSign negative coefficient places down) c =
      some (.exponent negative coefficient places down (c.toNat - '0'.toNat)) := by
  rw [next?, digit?_of_isDigit hc]
  rfl

theorem foldlM_next?_exponentChars (negative : Bool) (coefficient places : Nat) (exponent : Int) :
    ((if exponent < 0 then ['-'] else []) ++ Nat.toDigits 10 exponent.natAbs).foldlM next?
      (.mark negative coefficient places) =
        some (.exponent negative coefficient places (decide (exponent < 0)) exponent.natAbs) := by
  have hDigits : ∀ c ∈ Nat.toDigits 10 exponent.natAbs, c.isDigit = true := isDigit_toDigits
  have hValue : Nat.ofDigitChars 10 (Nat.toDigits 10 exponent.natAbs) 0 = exponent.natAbs :=
    Nat.ofDigitChars_ten_toDigits
  obtain ⟨c, rest, hChars⟩ := List.exists_cons_of_ne_nil
    (Nat.toDigits_ne_nil (n := exponent.natAbs) (b := 10))
  rw [hChars, List.forall_mem_cons] at hDigits
  rw [hChars, Nat.ofDigitChars_cons, Nat.mul_zero, Nat.zero_add] at hValue
  split
  · next hDown =>
    rw [hChars, List.singleton_append, List.foldlM_cons]
    show (c :: rest).foldlM next? (.exponentSign negative coefficient places true) = _
    rw [List.foldlM_cons, next?_exponentSign_digit hDigits.1, Option.bind_eq_bind,
      Option.bind_some, foldlM_next?_exponent hDigits.2, hValue, decide_eq_true hDown]
  · next hUp =>
    rw [hChars, List.nil_append, List.foldlM_cons, next?_mark_digit hDigits.1, Option.bind_eq_bind,
      Option.bind_some, foldlM_next?_exponent hDigits.2, hValue, decide_eq_false hUp]

theorem finish?_whole {n : Nat} : (whole false n).finish? = some (.natural n) := by
  rw [whole]
  split
  · next hn => rw [hn]; rfl
  · rfl

theorem finish?_exponent {negative : Bool} {coefficient places : Nat} {exponent : Int} :
    finish? (.exponent negative coefficient places (decide (exponent < 0)) exponent.natAbs) =
      some (.decimal negative coefficient places exponent) := by
  rw [finish?]
  congr 2
  by_cases hDown : exponent < 0
  · rw [decide_eq_true hDown, if_pos rfl]
    omega
  · rw [decide_eq_false hDown, if_neg Bool.false_ne_true]
    omega

def EndsBefore (rest : List Char) : Prop :=
  ∀ c, rest.head? = some c → digit? c = none ∧ c ≠ '.' ∧ isMark c = false

theorem endsBefore_nil : EndsBefore [] := by
  intro c hc
  cases hc

theorem endsBefore_cons {c : Char} {rest : List Char}
    (hc : digit? c = none ∧ c ≠ '.' ∧ isMark c = false) : EndsBefore (c :: rest) := by
  intro x hx
  cases hx
  exact hc

theorem next?_eq_none {part : NumberPart} {n : Numeral} {c : Char} (hFinish : part.finish? = some n)
    (hc : digit? c = none ∧ c ≠ '.' ∧ isMark c = false) : part.next? c = none := by
  obtain ⟨hDigit, hPoint, hMark⟩ := hc
  cases part <;> simp_all [next?, finish?]

end NumberPart

namespace Scan

theorem run_cons {scan scan' : Scan} {acc tokens : List Token} {c : Char} {rest : List Char}
    (hStep : scan.step c = some (tokens, scan')) :
    run scan acc (c :: rest) = run scan' (tokens.reverse ++ acc) rest := by
  rw [run, hStep]

theorem run_number {part part' : NumberPart} {acc : List Token} {chars rest : List Char}
    (hChars : chars.foldlM NumberPart.next? part = some part') :
    run (.number part) acc (chars ++ rest) = run (.number part') acc rest := by
  induction chars generalizing part with
  | nil =>
    cases hChars
    rfl
  | cons c more ih =>
    rw [List.foldlM_cons] at hChars
    obtain ⟨middle, hMiddle, hMore⟩ := Option.bind_eq_some_iff.1 hChars
    have hStep : step (.number part) c = some ([], .number middle) := by simp [step, hMiddle]
    rw [List.cons_append, run_cons hStep]
    exact ih hMore

theorem run_number_end {part : NumberPart} {n : Numeral} {acc : List Token} {rest : List Char}
    (hFinish : part.finish? = some n) (hRest : NumberPart.EndsBefore rest) :
    run (.number part) acc rest = run .between (.number n :: acc) rest := by
  cases rest with
  | nil => simp [run, finish?, hFinish]
  | cons c rest =>
    have hNext := NumberPart.next?_eq_none hFinish (hRest c rfl)
    rw [run, run]
    simp only [step, hNext, hFinish]
    cases start c with
    | none => rfl
    | some result => simp

theorem start_digitChar {d : Nat} (hd : d < 10) :
    start (Nat.digitChar d) = some ([], .number (NumberPart.whole false d)) := by
  have hAll : ∀ d < 10, start (Nat.digitChar d) = some ([], .number (NumberPart.whole false d)) := by
    decide
  exact hAll d hd

theorem step_sign_digitChar {d : Nat} (hd : d < 10) :
    step (.number .sign) (Nat.digitChar d) = some ([], .number (NumberPart.whole true d)) := by
  have hAll : ∀ d < 10,
      step (.number .sign) (Nat.digitChar d) = some ([], .number (NumberPart.whole true d)) := by
    decide
  exact hAll d hd

theorem run_signedDigits {negative : Bool} {n : Nat} {acc : List Token} {rest : List Char} :
    run .between acc ((if negative then ['-'] else []) ++ (Nat.toDigits 10 n ++ rest)) =
      run (.number (NumberPart.whole negative n)) acc rest := by
  obtain ⟨d, more, hd, hDigits, hMore⟩ := NumberPart.foldlM_next?_toDigits negative n
  rw [hDigits]
  cases negative with
  | false =>
    have hStart : step .between (Nat.digitChar d) = _ := start_digitChar hd
    exact (run_cons hStart).trans (run_number hMore)
  | true =>
    have hMinus : step .between '-' = some ([], .number .sign) := rfl
    exact (run_cons hMinus).trans ((run_cons (step_sign_digitChar hd)).trans (run_number hMore))

theorem run_numeral {n : Numeral} {acc : List Token} {rest : List Char}
    (hRest : NumberPart.EndsBefore rest) :
    run .between acc (n.chars ++ rest) = run .between (.number n :: acc) rest := by
  cases n with
  | natural n =>
    calc run .between acc (Nat.toDigits 10 n ++ rest)
        = run (.number (NumberPart.whole false n)) acc rest := @run_signedDigits false n acc rest
      _ = run .between (.number (.natural n) :: acc) rest :=
          run_number_end NumberPart.finish?_whole hRest
  | decimal negative coefficient places exponent =>
    have hFraction := NumberPart.foldlM_next?_fractionChars negative coefficient places
    have hExponent := NumberPart.foldlM_next?_exponentChars negative coefficient places exponent
    calc run .between acc ((Numeral.decimal negative coefficient places exponent).chars ++ rest)
        = run .between acc ((if negative then ['-'] else []) ++
            (Nat.toDigits 10 (coefficient / Nat.pow 10 places) ++
              ((fractionChars coefficient places ++ ['e']) ++
                (((if exponent < 0 then ['-'] else []) ++ Nat.toDigits 10 exponent.natAbs)
                  ++ rest)))) := by simp [Numeral.chars]
      _ = run (.number (.exponent negative coefficient places (decide (exponent < 0))
            exponent.natAbs)) acc rest := by
          rw [run_signedDigits, run_number hFraction, run_number hExponent]
      _ = run .between (.number (.decimal negative coefficient places exponent) :: acc) rest :=
          run_number_end NumberPart.finish?_exponent hRest

end Scan

namespace Piece

/-- How a written character is read: control characters without an own letter become units. -/
def written (c : Char) : Piece :=
  if c.toNat < 0x20 ∧ c ∉ ['\x08', '\x0c', '\n', '\r', '\t'] then .unit c.toNat else .char c

theorem joinInto_unit {acc : List Char} {n : Nat} {rest : List Piece} (hn : n < 0xD800) :
    joinInto acc (.unit n :: rest) = joinInto (Char.ofNat n :: acc) rest := by
  have hHigh : isHigh n = false := by
    simp only [isHigh, Bool.and_eq_false_iff, decide_eq_false_iff_not]
    omega
  have hLow : isLow n = false := by
    simp only [isLow, Bool.and_eq_false_iff, decide_eq_false_iff_not]
    omega
  cases rest with
  | nil => simp [joinInto, hHigh, hLow]
  | cons piece rest => cases piece <;> simp [joinInto, hHigh, hLow]

theorem joinInto_written {acc : List Char} {c : Char} {rest : List Piece} :
    joinInto acc (written c :: rest) = joinInto (c :: acc) rest := by
  rw [written]
  split
  · next hControl =>
    rw [joinInto_unit (by omega), Char.ofNat_toNat]
  · rw [joinInto]

theorem joinInto_map_written {acc chars : List Char} :
    joinInto acc (chars.map written) = some (chars.reverse ++ acc) := by
  induction chars generalizing acc with
  | nil => rw [List.map_nil, joinInto, List.reverse_nil, List.nil_append]
  | cons c rest ih => rw [List.map_cons, joinInto_written, ih, List.reverse_cons, List.append_assoc,
      List.singleton_append]

theorem join_map_written {chars : List Char} :
    join (chars.map written) = some (String.ofList chars) := by
  rw [join, joinInto_map_written, List.append_nil, Option.map_some, List.reverse_reverse]

end Piece

namespace Scan

theorem run_unitEscape {pieces : List Piece} {acc : List Token} {n : Nat} {rest : List Char}
    (hn : n < 256) :
    run (.string pieces) acc
        ('\\' :: 'u' :: '0' :: '0' :: hexChar (n / 16) :: hexChar (n % 16) :: rest) =
      run (.string (.unit n :: pieces)) acc rest := by
  have hFirst : step (.unit pieces 2 0) (hexChar (n / 16)) =
      some ([], .unit pieces 1 (n / 16)) := by
    rw [step, hexDigit?_hexChar (by omega)]
    simp
  have hSecond : step (.unit pieces 1 (n / 16)) (hexChar (n % 16)) =
      some ([], .string (.unit n :: pieces)) := by
    rw [step, hexDigit?_hexChar (by omega), Option.map_some, if_pos (Nat.le_refl 1),
      Nat.div_add_mod]
  show run (.unit pieces 2 0) acc (hexChar (n / 16) :: hexChar (n % 16) :: rest) = _
  exact (run_cons hFirst).trans (run_cons hSecond)

theorem run_escapeChar {pieces : List Piece} {acc : List Token} {c : Char} {rest : List Char} :
    run (.string pieces) acc (escapeChar c ++ rest) =
      run (.string (Piece.written c :: pieces)) acc rest := by
  unfold escapeChar
  split
  case h_8 _ hQuote hBackslash hB hF hN hR hT =>
    split
    · next hControl =>
      have hOther : c ∉ ['\x08', '\x0c', '\n', '\r', '\t'] := by
        simp only [List.mem_cons, List.not_mem_nil, or_false, not_or]
        exact ⟨hB, hF, hN, hR, hT⟩
      have hWritten : Piece.written c = .unit c.toNat := if_pos ⟨hControl, hOther⟩
      rw [hWritten]
      exact run_unitEscape (by omega)
    · next hPlain =>
      have hWritten : Piece.written c = .char c := if_neg fun h => hPlain h.1
      have hStep : step (.string pieces) c = some ([], .string (.char c :: pieces)) := by
        rw [step, if_neg hQuote, if_neg hBackslash, if_neg hPlain]
      rw [hWritten]
      exact run_cons hStep
  all_goals rfl

theorem run_escapedChars {pieces : List Piece} {acc : List Token} {chars rest : List Char} :
    run (.string pieces) acc (chars.flatMap escapeChar ++ rest) =
      run (.string ((chars.map Piece.written).reverse ++ pieces)) acc rest := by
  induction chars generalizing pieces with
  | nil => rfl
  | cons c more ih =>
    rw [List.flatMap_cons, List.append_assoc, run_escapeChar, ih, List.map_cons, List.reverse_cons,
      List.append_assoc, List.singleton_append]

theorem run_quote {s : Text} {acc : List Token} {rest : List Char} :
    run .between acc (quote s ++ rest) = run .between (.string s :: acc) rest := by
  cases s with
  | none => rfl
  | some s =>
    have hOpen : step .between '"' = some ([], .string []) := rfl
    have hClose : step (.string (s.toList.map Piece.written).reverse) '"' =
        some ([.string (some s)], .between) := by
      rw [step, if_pos rfl, List.reverse_reverse, Piece.join_map_written, String.ofList_toList]
    rw [quote, List.cons_append, List.cons_append, run_cons hOpen, List.append_assoc,
      run_escapedChars, List.append_nil, List.singleton_append, run_cons hClose]
    rfl

end Scan

namespace Value

mutual

def tokens : Value → List Token
  | .null => [.null]
  | .bool b => [.bool b]
  | .number n => [.number n]
  | .string s => [.string s]
  | .array items => .openArray :: itemTokens items ++ [.closeArray]
  | .object members => .openObject :: memberTokens members ++ [.closeObject]

def itemTokens : List Value → List Token
  | [] => []
  | [v] => v.tokens
  | v :: rest => v.tokens ++ .comma :: itemTokens rest

def memberTokens : List (Text × Value) → List Token
  | [] => []
  | [(key, v)] => .string key :: .colon :: v.tokens
  | (key, v) :: rest => .string key :: .colon :: v.tokens ++ .comma :: memberTokens rest

end

end Value

namespace Scan

open NumberPart (EndsBefore endsBefore_cons)

/-- The characters of a value lead from one place between tokens to another. -/
def Reads (chars : List Char) (tokens : List Token) : Prop :=
  ∀ acc rest, EndsBefore rest →
    run .between acc (chars ++ rest) = run .between (tokens.reverse ++ acc) rest

theorem run_punctuation {c : Char} {acc : List Token} {rest : List Char} (token : Token)
    (hStep : step .between c = some ([token], .between)) :
    run .between acc (c :: rest) = run .between (token :: acc) rest := run_cons hStep

theorem reads_items {items : List Value}
    (hItems : ∀ v ∈ items, Reads v.compactChars v.tokens) :
    Reads (Value.compactItems items) (Value.itemTokens items) := by
  induction items with
  | nil => exact fun acc rest _ => rfl
  | cons v tail ih =>
    rw [List.forall_mem_cons] at hItems
    cases tail with
    | nil => exact hItems.1
    | cons w tail =>
      intro acc rest hRest
      have hComma : EndsBefore (',' :: (Value.compactItems (w :: tail) ++ rest)) :=
        endsBefore_cons (by decide)
      calc run .between acc (Value.compactItems (v :: w :: tail) ++ rest)
          = run .between acc (v.compactChars ++ ',' :: (Value.compactItems (w :: tail) ++ rest)) := by
            simp [Value.compactItems]
        _ = run .between ((Value.itemTokens (w :: tail)).reverse ++ .comma ::
              (v.tokens.reverse ++ acc)) rest := by
            rw [hItems.1 _ _ hComma, run_punctuation .comma rfl, ih hItems.2 _ _ hRest]
        _ = run .between ((Value.itemTokens (v :: w :: tail)).reverse ++ acc) rest := by
            simp [Value.itemTokens]

theorem reads_member {key : Text} {v : Value} (hValue : Reads v.compactChars v.tokens) :
    Reads (quote key ++ ':' :: v.compactChars) (.string key :: .colon :: v.tokens) := by
  intro acc rest hRest
  rw [List.append_assoc, List.cons_append, run_quote, run_punctuation .colon rfl,
    hValue _ _ hRest]
  simp

theorem reads_members {members : List Member}
    (hMembers : ∀ m ∈ members, Reads m.2.compactChars m.2.tokens) :
    Reads (Value.compactMembers members) (Value.memberTokens members) := by
  induction members with
  | nil => exact fun acc rest _ => rfl
  | cons m tail ih =>
    obtain ⟨key, v⟩ := m
    rw [List.forall_mem_cons] at hMembers
    have hMember : Reads (quote key ++ ':' :: v.compactChars) (.string key :: .colon :: v.tokens) :=
      reads_member hMembers.1
    cases tail with
    | nil => exact hMember
    | cons m tail =>
      intro acc rest hRest
      have hComma : EndsBefore (',' :: (Value.compactMembers (m :: tail) ++ rest)) :=
        endsBefore_cons (by decide)
      calc run .between acc (Value.compactMembers ((key, v) :: m :: tail) ++ rest)
          = run .between acc ((quote key ++ ':' :: v.compactChars) ++
              ',' :: (Value.compactMembers (m :: tail) ++ rest)) := by
            simp [Value.compactMembers]
        _ = run .between ((Value.memberTokens (m :: tail)).reverse ++ .comma ::
              ((.string key :: .colon :: v.tokens).reverse ++ acc)) rest := by
            rw [hMember _ _ hComma, run_punctuation .comma rfl, ih hMembers.2 _ _ hRest]
        _ = run .between ((Value.memberTokens ((key, v) :: m :: tail)).reverse ++ acc) rest := by
            simp [Value.memberTokens]

theorem reads_compactChars (v : Value) : Reads v.compactChars v.tokens := by
  induction v using Value.inductionOn with
  | null => exact fun acc rest _ => rfl
  | bool b => cases b <;> exact fun acc rest _ => rfl
  | number n => exact fun acc rest hRest => run_numeral hRest
  | string s => exact fun acc rest _ => run_quote
  | array items ih =>
    intro acc rest _
    have hClose : EndsBefore (']' :: rest) := endsBefore_cons (by decide)
    rw [Value.compactChars, Value.tokens, List.cons_append, List.cons_append, List.append_assoc,
      run_punctuation .openArray rfl, List.singleton_append, reads_items ih _ _ hClose,
      run_punctuation .closeArray rfl]
    simp
  | object members ih =>
    intro acc rest _
    have hClose : EndsBefore ('\x7d' :: rest) := endsBefore_cons (by decide)
    rw [Value.compactChars, Value.tokens, List.cons_append, List.cons_append, List.append_assoc,
      run_punctuation .openObject rfl, List.singleton_append, reads_members ih _ _ hClose,
      run_punctuation .closeObject rfl]
    simp

end Scan

theorem tokens?_compact (v : Value) : tokens? v.compact = some v.tokens := by
  have hRun := Scan.reads_compactChars v [] [] NumberPart.endsBefore_nil
  rw [List.append_nil, List.append_nil] at hRun
  rw [tokens?, Value.compact, String.toList_ofList, hRun]
  simp [Scan.run, Scan.finish?]

end CostlyCalls.Json
