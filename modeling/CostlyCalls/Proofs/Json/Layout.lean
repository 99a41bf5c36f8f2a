import CostlyCalls.Proofs.Json.Reading

/-!
# Reading back the indented form

The line breaks and spaces of the indented form stand between tokens, where the machine passes over
them. So the indented form has the tokens of the compact form and is read as the same value.
-/

set_option autoImplicit false

namespace CostlyCalls.Json

namespace Scan

open NumberPart (EndsBefore endsBefore_cons)

theorem run_blanks {blanks rest : List Char} {acc : List Token}
    (hBlanks : ∀ c ∈ blanks, isSpace c = true) :
    run .between acc (blanks ++ rest) = run .between acc rest := by
  induction blanks with
  | nil => rfl
  | cons c blanks ih =>
    rw [List.forall_mem_cons] at hBlanks
    have hStep : step .between c = some ([], .between) := if_pos hBlanks.1
    rw [List.cons_append, run_cons hStep]
    exact ih hBlanks.2

theorem isSpace_newline {level : Nat} : ∀ c ∈ Value.newline level, isSpace c = true := by
  intro c hc
  rcases List.mem_cons.1 hc with rfl | hc
  · rfl
  · rw [List.eq_of_mem_replicate hc]
    rfl

theorem endsBefore_newline {level : Nat} {rest : List Char} :
    EndsBefore (Value.newline level ++ rest) := endsBefore_cons (by decide)

theorem Reads.after_newline {chars : List Char} {tokens : List Token} (level : Nat)
    (hReads : Reads chars tokens) : Reads (Value.newline level ++ chars) tokens := by
  intro acc rest hRest
  rw [List.append_assoc, run_blanks isSpace_newline]
  exact hReads acc rest hRest

theorem reads_prettyItems {items : List Value} {level : Nat}
    (hItems : ∀ v ∈ items, Reads (v.prettyChars level) v.tokens) :
    Reads (Value.prettyItems level items) (Value.itemTokens items) := by
  induction items with
  | nil => exact fun acc rest _ => rfl
  | cons v tail ih =>
    rw [List.forall_mem_cons] at hItems
    have hItem : Reads (Value.newline level ++ v.prettyChars level) v.tokens :=
      hItems.1.after_newline level
    cases tail with
    | nil => exact hItem
    | cons w tail =>
      intro acc rest hRest
      have hComma : EndsBefore (',' :: (Value.prettyItems level (w :: tail) ++ rest)) :=
        endsBefore_cons (by decide)
      calc run .between acc (Value.prettyItems level (v :: w :: tail) ++ rest)
          = run .between acc ((Value.newline level ++ v.prettyChars level) ++
              ',' :: (Value.prettyItems level (w :: tail) ++ rest)) := by
            simp [Value.prettyItems]
        _ = run .between ((Value.itemTokens (w :: tail)).reverse ++ .comma ::
              (v.tokens.reverse ++ acc)) rest := by
            rw [hItem _ _ hComma, run_punctuation .comma rfl, ih hItems.2 _ _ hRest]
        _ = run .between ((Value.itemTokens (v :: w :: tail)).reverse ++ acc) rest := by
            simp [Value.itemTokens]

theorem reads_prettyMember {key : Text} {v : Value} {level : Nat}
    (hValue : Reads (v.prettyChars level) v.tokens) :
    Reads (quote key ++ ':' :: ' ' :: v.prettyChars level)
      (.string key :: .colon :: v.tokens) := by
  intro acc rest hRest
  have hSpace : run .between (.colon :: .string key :: acc) (' ' :: (v.prettyChars level ++ rest)) =
      run .between (.colon :: .string key :: acc) (v.prettyChars level ++ rest) := rfl
  rw [List.append_assoc, List.cons_append, List.cons_append, run_quote,
    run_punctuation .colon rfl, hSpace, hValue _ _ hRest]
  simp

theorem reads_prettyMembers {members : List Member} {level : Nat}
    (hMembers : ∀ m ∈ members, Reads (m.2.prettyChars level) m.2.tokens) :
    Reads (Value.prettyMembers level members) (Value.memberTokens members) := by
  induction members with
  | nil => exact fun acc rest _ => rfl
  | cons m tail ih =>
    obtain ⟨key, v⟩ := m
    rw [List.forall_mem_cons] at hMembers
    have hMember : Reads (Value.newline level ++ (quote key ++ ':' :: ' ' :: v.prettyChars level))
        (.string key :: .colon :: v.tokens) :=
      (reads_prettyMember hMembers.1).after_newline level
    cases tail with
    | nil =>
      rw [Value.prettyMembers, List.append_assoc]
      exact hMember
    | cons m tail =>
      intro acc rest hRest
      have hComma : EndsBefore (',' :: (Value.prettyMembers level (m :: tail) ++ rest)) :=
        endsBefore_cons (by decide)
      calc run .between acc (Value.prettyMembers level ((key, v) :: m :: tail) ++ rest)
          = run .between acc ((Value.newline level ++
              (quote key ++ ':' :: ' ' :: v.prettyChars level)) ++
                ',' :: (Value.prettyMembers level (m :: tail) ++ rest)) := by
            simp [Value.prettyMembers]
        _ = run .between ((Value.memberTokens (m :: tail)).reverse ++ .comma ::
              ((.string key :: .colon :: v.tokens).reverse ++ acc)) rest := by
            rw [hMember _ _ hComma, run_punctuation .comma rfl, ih hMembers.2 _ _ hRest]
        _ = run .between ((Value.memberTokens ((key, v) :: m :: tail)).reverse ++ acc) rest := by
            simp [Value.memberTokens]

-- The level grows on the way down, so the claim is for all levels at once.
theorem reads_prettyChars (v : Value) (level : Nat) : Reads (v.prettyChars level) v.tokens := by
  induction v using Value.inductionOn generalizing level with
  | null => exact fun acc rest _ => rfl
  | bool b => cases b <;> exact fun acc rest _ => rfl
  | number n => exact fun acc rest hRest => run_numeral hRest
  | string s => exact fun acc rest _ => run_quote
  | array items ih =>
    cases items with
    | nil => exact fun acc rest _ => rfl
    | cons v tail =>
      intro acc rest _
      have hItems := reads_prettyItems fun w hw => ih w hw (level + 1)
      have hChars : (Value.array (v :: tail)).prettyChars level ++ rest =
          '[' :: (Value.prettyItems (level + 1) (v :: tail) ++
            (Value.newline level ++ ']' :: rest)) := by
        simp [Value.prettyChars]
      rw [hChars, run_punctuation .openArray rfl, hItems _ _ endsBefore_newline,
        run_blanks isSpace_newline, run_punctuation .closeArray rfl]
      simp [Value.tokens]
  | object members ih =>
    cases members with
    | nil => exact fun acc rest _ => rfl
    | cons m tail =>
      intro acc rest _
      have hMembers := reads_prettyMembers fun n hn => ih n hn (level + 1)
      have hChars : (Value.object (m :: tail)).prettyChars level ++ rest =
          '\x7b' :: (Value.prettyMembers (level + 1) (m :: tail) ++
            (Value.newline level ++ '\x7d' :: rest)) := by
        simp [Value.prettyChars]
      rw [hChars, run_punctuation .openObject rfl, hMembers _ _ endsBefore_newline,
        run_blanks isSpace_newline, run_punctuation .closeObject rfl]
      simp [Value.tokens]

end Scan

theorem tokens?_pretty (v : Value) : tokens? v.pretty = some v.tokens := by
  have hRun := Scan.reads_prettyChars v 0 [] [] NumberPart.endsBefore_nil
  rw [List.append_nil, List.append_nil] at hRun
  rw [tokens?, Value.pretty, String.toList_ofList, hRun]
  simp [Scan.run, Scan.finish?]

theorem parse?_pretty (v : Value) : parse? v.pretty = some v := by
  rw [parse?, tokens?_pretty, ← tokens?_compact]
  exact parse?_compact v

end CostlyCalls.Json
