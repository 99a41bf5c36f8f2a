import CostlyCalls.Json.Printer
import CostlyCalls.Proofs.Json.Lexing

/-!
# The grammar of JSON texts

What a well-formed text is, without a reader: no comma behind a last item or member, no zero in
front of other digits, no control character in a string, and blanks between tokens only. The
indented form of every value is well formed.
-/

set_option autoImplicit false

namespace CostlyCalls.Json.Grammar

def IsBlank (cs : List Char) : Prop := ∀ c ∈ cs, c ∈ [' ', '\t', '\n', '\r']

def IsDigits (cs : List Char) : Prop := cs ≠ [] ∧ ∀ c ∈ cs, c.isDigit = true

inductive IsWhole : List Char → Prop
  | zero : IsWhole ['0']
  | digits {first : Char} {rest : List Char} (hFirst : first ≠ '0')
      (hDigits : IsDigits (first :: rest)) : IsWhole (first :: rest)

inductive IsFraction : List Char → Prop
  | none : IsFraction []
  | digits {digits : List Char} (hDigits : IsDigits digits) : IsFraction ('.' :: digits)

inductive IsExponent : List Char → Prop
  | none : IsExponent []
  | digits {mark : Char} {sign digits : List Char} (hMark : mark ∈ ['e', 'E'])
      (hSign : sign ∈ [[], ['+'], ['-']]) (hDigits : IsDigits digits) :
      IsExponent (mark :: sign ++ digits)

inductive IsNumber : List Char → Prop
  | parts {minus whole fraction exponent : List Char} (hMinus : minus ∈ [[], ['-']])
      (hWhole : IsWhole whole) (hFraction : IsFraction fraction)
      (hExponent : IsExponent exponent) : IsNumber (minus ++ whole ++ fraction ++ exponent)

inductive IsContent : List Char → Prop
  | nil : IsContent []
  | plain {c : Char} {rest : List Char} (hQuote : c ≠ '"') (hBackslash : c ≠ '\\')
      (hControl : 0x20 ≤ c.toNat) (hRest : IsContent rest) : IsContent (c :: rest)
  | escape {c : Char} {rest : List Char} (hc : c ∈ ['"', '\\', '/', 'b', 'f', 'n', 'r', 't'])
      (hRest : IsContent rest) : IsContent ('\\' :: c :: rest)
  | unit {a b c d : Char} {rest : List Char}
      (hDigits : ∀ x ∈ [a, b, c, d], (hexDigit? x).isSome = true) (hRest : IsContent rest) :
      IsContent ('\\' :: 'u' :: a :: b :: c :: d :: rest)

inductive IsString : List Char → Prop
  | quoted {content : List Char} (hContent : IsContent content) :
      IsString ('"' :: content ++ ['"'])

mutual

inductive IsValue : List Char → Prop
  | null : IsValue ['n', 'u', 'l', 'l']
  | true : IsValue ['t', 'r', 'u', 'e']
  | false : IsValue ['f', 'a', 'l', 's', 'e']
  | number {cs : List Char} (hNumber : IsNumber cs) : IsValue cs
  | string {cs : List Char} (hString : IsString cs) : IsValue cs
  | emptyArray {blanks : List Char} (hBlanks : IsBlank blanks) : IsValue ('[' :: blanks ++ [']'])
  | array {items : List Char} (hItems : AreItems items) : IsValue ('[' :: items ++ [']'])
  | emptyObject {blanks : List Char} (hBlanks : IsBlank blanks) :
      IsValue ('\x7b' :: blanks ++ ['\x7d'])
  | object {members : List Char} (hMembers : AreMembers members) :
      IsValue ('\x7b' :: members ++ ['\x7d'])

inductive AreItems : List Char → Prop
  | last {before item after : List Char} (hBefore : IsBlank before) (hItem : IsValue item)
      (hAfter : IsBlank after) : AreItems (before ++ item ++ after)
  | more {before item after rest : List Char} (hBefore : IsBlank before) (hItem : IsValue item)
      (hAfter : IsBlank after) (hRest : AreItems rest) :
      AreItems (before ++ item ++ after ++ ',' :: rest)

inductive IsMember : List Char → Prop
  | pair {key beforeColon afterColon item : List Char} (hKey : IsString key)
      (hBefore : IsBlank beforeColon) (hAfter : IsBlank afterColon) (hItem : IsValue item) :
      IsMember (key ++ beforeColon ++ ':' :: afterColon ++ item)

inductive AreMembers : List Char → Prop
  | last {before member after : List Char} (hBefore : IsBlank before) (hMember : IsMember member)
      (hAfter : IsBlank after) : AreMembers (before ++ member ++ after)
  | more {before member after rest : List Char} (hBefore : IsBlank before)
      (hMember : IsMember member) (hAfter : IsBlank after) (hRest : AreMembers rest) :
      AreMembers (before ++ member ++ after ++ ',' :: rest)

end

def IsText (cs : List Char) : Prop :=
  ∃ before value after, IsBlank before ∧ IsValue value ∧ IsBlank after ∧
    cs = before ++ value ++ after

theorem isBlank_nil : IsBlank [] := by
  intro c hc
  cases hc

theorem isBlank_newline (level : Nat) : IsBlank (Value.newline level) := by
  intro c hc
  rcases List.mem_cons.1 hc with rfl | hc
  · decide
  · rw [List.eq_of_mem_replicate hc]
    decide

theorem IsValue.isText {cs : List Char} (hValue : IsValue cs) : IsText cs :=
  ⟨[], cs, [], isBlank_nil, hValue, isBlank_nil, by simp⟩

theorem isDigits_toDigits (n : Nat) : IsDigits (Nat.toDigits 10 n) :=
  ⟨Nat.toDigits_ne_nil, isDigit_toDigits⟩

theorem exists_toDigits_cons {n : Nat} (hn : 0 < n) :
    ∃ first rest, Nat.toDigits 10 n = first :: rest ∧ first ≠ '0' := by
  induction n using Nat.base_induction 10 (by decide) with
  | single d hd =>
    have hAll : ∀ d < 10, 0 < d → Nat.digitChar d ≠ '0' := by decide
    exact ⟨Nat.digitChar d, [], Nat.toDigits_of_lt_base hd, hAll d hd hn⟩
  | digit n d hd hPos ih =>
    obtain ⟨first, rest, hDigits, hFirst⟩ := ih hPos
    refine ⟨first, rest ++ Nat.toDigits 10 d, ?_, hFirst⟩
    rw [← Nat.toDigits_append_toDigits (by decide) hPos hd, hDigits]
    rfl

theorem isWhole_toDigits (n : Nat) : IsWhole (Nat.toDigits 10 n) := by
  rcases Nat.eq_zero_or_pos n with rfl | hn
  · exact .zero
  · obtain ⟨first, rest, hDigits, hFirst⟩ := exists_toDigits_cons hn
    have hAll := isDigits_toDigits n
    rw [hDigits] at hAll ⊢
    exact .digits hFirst hAll

theorem isFraction_fractionChars (coefficient places : Nat) :
    IsFraction (fractionChars coefficient places) := by
  unfold fractionChars
  split
  · exact .none
  · apply IsFraction.digits
    refine ⟨?_, isDigit_paddedDigits⟩
    rw [paddedDigits]
    exact List.append_ne_nil_of_right_ne_nil _ Nat.toDigits_ne_nil

theorem isNumber_chars (n : Numeral) : IsNumber n.chars := by
  cases n with
  | natural n =>
    have hParts : IsNumber ([] ++ Nat.toDigits 10 n ++ [] ++ []) :=
      .parts (by decide) (isWhole_toDigits n) .none .none
    simpa [Numeral.chars] using hParts
  | decimal negative coefficient places exponent =>
    have hSign : (if exponent < 0 then ['-'] else []) ∈ [[], ['+'], ['-']] := by split <;> decide
    have hMinus : (if negative then ['-'] else []) ∈ [[], ['-']] := by split <;> decide
    have hExponent : IsExponent ('e' :: (if exponent < 0 then ['-'] else []) ++
        Nat.toDigits 10 exponent.natAbs) :=
      .digits (by decide) hSign (isDigits_toDigits _)
    have hParts := IsNumber.parts hMinus (isWhole_toDigits (coefficient / Nat.pow 10 places))
      (isFraction_fractionChars coefficient places) hExponent
    simpa [Numeral.chars] using hParts

theorem isSome_hexDigit?_hexChar {d : Nat} (hd : d < 16) : (hexDigit? (hexChar d)).isSome = true := by
  rw [hexDigit?_hexChar hd]
  rfl

theorem IsContent.escapeChar_append {rest : List Char} (hRest : IsContent rest) (c : Char) :
    IsContent (escapeChar c ++ rest) := by
  unfold escapeChar
  split
  case h_8 _ hQuote hBackslash _ _ _ _ _ =>
    split
    · next hControl =>
      apply IsContent.unit _ hRest
      intro x hx
      simp only [List.mem_cons, List.not_mem_nil, or_false] at hx
      rcases hx with rfl | rfl | rfl | rfl
      · decide
      · decide
      · exact isSome_hexDigit?_hexChar (by omega)
      · exact isSome_hexDigit?_hexChar (by omega)
    · next hPlain => exact .plain hQuote hBackslash (by omega) hRest
  all_goals exact .escape (by decide) hRest

theorem isContent_escaped (chars : List Char) : IsContent (chars.flatMap escapeChar) := by
  induction chars with
  | nil => exact .nil
  | cons c rest ih =>
    rw [List.flatMap_cons]
    exact ih.escapeChar_append c

theorem isString_quote (s : Text) : IsString (quote s) := by
  cases s with
  | some s => exact .quoted (isContent_escaped s.toList)
  | none =>
    have hUnit : IsContent ['\\', 'u', 'd', '8', '0', '0'] := by
      apply IsContent.unit _ .nil
      intro x hx
      simp only [List.mem_cons, List.not_mem_nil, or_false] at hx
      rcases hx with rfl | rfl | rfl | rfl <;> decide
    exact .quoted hUnit

theorem areItems_prettyItems {items : List Value} {v : Value} {level : Nat} {after : List Char}
    (hAfter : IsBlank after) (hItems : ∀ w ∈ v :: items, IsValue (w.prettyChars level)) :
    AreItems (Value.prettyItems level (v :: items) ++ after) := by
  induction items generalizing v with
  | nil => exact .last (isBlank_newline level) (hItems v List.mem_cons_self) hAfter
  | cons w items ih =>
    rw [List.forall_mem_cons] at hItems
    have hMore : AreItems (Value.newline level ++ v.prettyChars level ++ [] ++ ',' ::
        (Value.prettyItems level (w :: items) ++ after)) :=
      .more (isBlank_newline level) hItems.1 isBlank_nil (ih hItems.2)
    simpa [Value.prettyItems] using hMore

theorem isMember_pretty {key : Text} {v : Value} {level : Nat}
    (hValue : IsValue (v.prettyChars level)) :
    IsMember (quote key ++ ':' :: ' ' :: v.prettyChars level) := by
  have hPair : IsMember (quote key ++ [] ++ ':' :: [' '] ++ v.prettyChars level) :=
    .pair (isString_quote key) isBlank_nil (by simp [IsBlank]) hValue
  simpa using hPair

theorem areMembers_prettyMembers {members : List Member} {m : Member} {level : Nat}
    {after : List Char} (hAfter : IsBlank after)
    (hMembers : ∀ n ∈ m :: members, IsValue (n.2.prettyChars level)) :
    AreMembers (Value.prettyMembers level (m :: members) ++ after) := by
  induction members generalizing m with
  | nil =>
    obtain ⟨key, v⟩ := m
    have hLast : AreMembers (Value.newline level ++
        (quote key ++ ':' :: ' ' :: v.prettyChars level) ++ after) :=
      .last (isBlank_newline level) (isMember_pretty (hMembers (key, v) List.mem_cons_self)) hAfter
    simpa [Value.prettyMembers] using hLast
  | cons n members ih =>
    obtain ⟨key, v⟩ := m
    rw [List.forall_mem_cons] at hMembers
    have hMore : AreMembers (Value.newline level ++
        (quote key ++ ':' :: ' ' :: v.prettyChars level) ++ [] ++ ',' ::
          (Value.prettyMembers level (n :: members) ++ after)) :=
      .more (isBlank_newline level) (isMember_pretty hMembers.1) isBlank_nil (ih hMembers.2)
    simpa [Value.prettyMembers] using hMore

theorem isValue_prettyChars (v : Value) (level : Nat) : IsValue (v.prettyChars level) := by
  induction v using Value.inductionOn generalizing level with
  | null => exact .null
  | bool b => cases b <;> constructor
  | number n => exact .number (isNumber_chars n)
  | string s => exact .string (isString_quote s)
  | array items ih =>
    cases items with
    | nil => exact .emptyArray isBlank_nil
    | cons v items =>
      exact .array (areItems_prettyItems (isBlank_newline level) fun w hw => ih w hw (level + 1))
  | object members ih =>
    cases members with
    | nil => exact .emptyObject isBlank_nil
    | cons m members =>
      exact .object (areMembers_prettyMembers (isBlank_newline level)
        fun n hn => ih n hn (level + 1))

theorem isText_pretty (v : Value) : IsText v.pretty.toList := by
  rw [Value.pretty, String.toList_ofList]
  exact (isValue_prettyChars v 0).isText

end CostlyCalls.Json.Grammar
