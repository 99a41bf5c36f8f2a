import CostlyCalls.Json.Reader
import CostlyCalls.Proofs.Json.Lexing

/-!
# Reading back written values

The reader takes the tokens of a value from any place where a value may stand to the place behind
it. Together with the tokens of the compact form, every value is read back from its compact form.
-/

set_option autoImplicit false

namespace CostlyCalls.Json

namespace Reader

theorem run_cons {reader : Reader} {token : Token} {rest : List Token} :
    reader.run (token :: rest) = (reader.step token).bind (·.run rest) := by
  rw [run]
  cases reader.step token <;> rfl

def Reads (tokens : List Token) (v : Value) : Prop :=
  ∀ stack rest, run ⟨stack, .value⟩ (tokens ++ rest) = (deliver v stack).bind (·.run rest)

theorem exists_tokens_eq_cons (v : Value) :
    ∃ token rest, v.tokens = token :: rest ∧ token ≠ .closeArray := by
  cases v <;> exact ⟨_, _, rfl, by simp⟩

theorem run_firstItem {stack : List Frame} {v : Value} {rest : List Token} :
    run ⟨stack, .firstItem⟩ (v.tokens ++ rest) = run ⟨stack, .value⟩ (v.tokens ++ rest) := by
  obtain ⟨token, more, hTokens, hOpen⟩ := exists_tokens_eq_cons v
  rw [hTokens, List.cons_append, run_cons, run_cons]
  simp only [step, if_neg hOpen]

/-- The items that are complete stand in reverse on the stack, so an array is delivered with them in
front of those to come. -/
theorem run_items {items : List Value} {v : Value} {done : List Value} {stack : List Frame}
    {rest : List Token} (hItems : ∀ w ∈ v :: items, Reads w.tokens w) :
    run ⟨.items done :: stack, .value⟩ (Value.itemTokens (v :: items) ++ .closeArray :: rest) =
      (deliver (.array (done.reverse ++ v :: items)) stack).bind (·.run rest) := by
  induction items generalizing v done with
  | nil =>
    rw [Value.itemTokens, hItems v List.mem_cons_self]
    show run ⟨.items (v :: done) :: stack, .separator⟩ (.closeArray :: rest) = _
    rw [run_cons, ← List.reverse_cons]
    rfl
  | cons w items ih =>
    rw [List.forall_mem_cons] at hItems
    have hTokens : Value.itemTokens (v :: w :: items) ++ .closeArray :: rest =
        v.tokens ++ .comma :: (Value.itemTokens (w :: items) ++ .closeArray :: rest) := by
      simp [Value.itemTokens]
    rw [hTokens, hItems.1]
    show run ⟨.items (v :: done) :: stack, .value⟩
      (Value.itemTokens (w :: items) ++ .closeArray :: rest) = _
    rw [ih hItems.2, List.reverse_cons, List.append_assoc, List.singleton_append]

theorem reads_array {items : List Value} (hItems : ∀ v ∈ items, Reads v.tokens v) :
    Reads (Value.array items).tokens (.array items) := by
  intro stack rest
  rw [Value.tokens, List.append_assoc, List.cons_append, List.singleton_append]
  show run ⟨.items [] :: stack, .firstItem⟩ (Value.itemTokens items ++ .closeArray :: rest) = _
  cases items with
  | nil =>
    rw [Value.itemTokens, List.nil_append, run_cons]
    rfl
  | cons v items =>
    have hFirst : ∃ more, Value.itemTokens (v :: items) ++ .closeArray :: rest = v.tokens ++ more := by
      cases items with
      | nil => exact ⟨_, rfl⟩
      | cons w items => exact ⟨_, List.append_assoc ..⟩
    obtain ⟨more, hMore⟩ := hFirst
    rw [hMore, run_firstItem, ← hMore]
    exact run_items hItems

theorem run_members {members : List Member} {m : Member} {done : List Member} {stack : List Frame}
    {rest : List Token} (hMembers : ∀ n ∈ m :: members, Reads n.2.tokens n.2) :
    run ⟨.members done :: stack, .key⟩
        (Value.memberTokens (m :: members) ++ .closeObject :: rest) =
      (deliver (.object (done.reverse ++ m :: members)) stack).bind (·.run rest) := by
  induction members generalizing m done with
  | nil =>
    obtain ⟨key, v⟩ := m
    show run ⟨.member done key :: stack, .value⟩ (v.tokens ++ .closeObject :: rest) = _
    rw [hMembers (key, v) List.mem_cons_self]
    show run ⟨.members ((key, v) :: done) :: stack, .separator⟩ (.closeObject :: rest) = _
    rw [run_cons, ← List.reverse_cons]
    rfl
  | cons n members ih =>
    obtain ⟨key, v⟩ := m
    rw [List.forall_mem_cons] at hMembers
    have hTokens : Value.memberTokens ((key, v) :: n :: members) ++ .closeObject :: rest =
        .string key :: .colon ::
          (v.tokens ++ .comma :: (Value.memberTokens (n :: members) ++ .closeObject :: rest)) := by
      simp [Value.memberTokens]
    rw [hTokens]
    show run ⟨.member done key :: stack, .value⟩
      (v.tokens ++ .comma :: (Value.memberTokens (n :: members) ++ .closeObject :: rest)) = _
    rw [hMembers.1]
    show run ⟨.members ((key, v) :: done) :: stack, .key⟩
      (Value.memberTokens (n :: members) ++ .closeObject :: rest) = _
    rw [ih hMembers.2, List.reverse_cons, List.append_assoc, List.singleton_append]

theorem reads_object {members : List Member} (hMembers : ∀ m ∈ members, Reads m.2.tokens m.2) :
    Reads (Value.object members).tokens (.object members) := by
  intro stack rest
  rw [Value.tokens, List.append_assoc, List.cons_append, List.singleton_append]
  show run ⟨.members [] :: stack, .firstKey⟩
    (Value.memberTokens members ++ .closeObject :: rest) = _
  cases members with
  | nil =>
    rw [Value.memberTokens, List.nil_append, run_cons]
    rfl
  | cons m members =>
    have hFirst : ∃ more,
        Value.memberTokens (m :: members) ++ .closeObject :: rest = .string m.1 :: more := by
      cases members with
      | nil => exact ⟨_, rfl⟩
      | cons n members => exact ⟨_, rfl⟩
    obtain ⟨more, hMore⟩ := hFirst
    have hKey : run ⟨.members [] :: stack, .firstKey⟩ (.string m.1 :: more) =
        run ⟨.members [] :: stack, .key⟩ (.string m.1 :: more) := rfl
    rw [hMore, hKey, ← hMore]
    exact run_members hMembers

theorem reads_tokens (v : Value) : Reads v.tokens v := by
  induction v using Value.inductionOn with
  | null => exact fun stack rest => run_cons
  | bool b => exact fun stack rest => run_cons
  | number n => exact fun stack rest => run_cons
  | string s => exact fun stack rest => run_cons
  | array items ih => exact reads_array ih
  | object members ih => exact reads_object ih

end Reader

theorem parse?_compact (v : Value) : parse? v.compact = some v := by
  have hRun := Reader.reads_tokens v [] []
  rw [List.append_nil] at hRun
  rw [parse?, tokens?_compact, Option.bind_some, ofTokens?, Reader.start, hRun]
  rfl

end CostlyCalls.Json
