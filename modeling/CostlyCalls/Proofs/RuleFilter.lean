import CostlyCalls.CommandLine
import CostlyCalls.Proofs.Identifiers
import CostlyCalls.Proofs.Suppressions

/-!
# Filters of rules

A filter is written as identifiers between commas. It is accepted if every piece that is not blank
is the identifier of a built-in rule, in any case and with blanks around it; otherwise it is refused
for the first piece that is not. What counts of an accepted filter is the set of identifiers that it
names.
-/

set_option autoImplicit false

namespace CostlyCalls

theorem Text.trim_eq_empty_iff {text : String} :
    Text.trim text = "" ↔ Text.isBlankText text = true := by
  rw [trim, String.ofList_eq_empty_iff, trimEnd, List.reverse_eq_nil_iff, List.dropWhile_eq_nil_iff,
    isBlankText, List.all_eq_true]
  simp only [List.mem_reverse]
  constructor
  · intro hRest c hc
    rw [← List.takeWhile_append_dropWhile (p := isBlank) (l := text.toList)] at hc
    rcases List.mem_append.1 hc with hc | hc
    · exact List.mem_takeWhile_imp hc
    · exact hRest c hc
  · intro hAll c hc
    exact hAll c ((List.dropWhile_sublist isBlank).mem hc)

theorem Catalogue.isFourDigit_of_mem {id : RuleId} (hId : id ∈ Catalogue.rules.map Rule.id) :
    id.isFourDigit = true := by
  obtain ⟨rule, hRule, rfl⟩ := List.mem_map.1 hId
  exact Registry.builtin.bounded rule hRule

theorem RuleId.parse?_eq_some_iff_parse {text : String} {id : RuleId} :
    parse? text = some id ↔ parse text = .ok id := by
  unfold parse?
  cases parse text with
  | error fault => simp [Except.toOption]
  | ok other => simp [Except.toOption]

namespace CommandLine

/-- The pieces of a filter between commas, as they are written, without the blank ones. -/
def wordsOf (text : String) : List String :=
  ((Text.split ',' text.toList).map String.ofList).filter fun piece => !Text.isBlankText piece

/-- The word is the identifier of a built-in rule, in some case and perhaps between blanks. -/
def Denotes (word : String) (id : RuleId) : Prop :=
  id ∈ Catalogue.rules.map Rule.id ∧ (Text.trim word).toUpper = id.toText

instance (word : String) (id : RuleId) : Decidable (Denotes word id) :=
  inferInstanceAs (Decidable (_ ∧ _))

def Names (text : String) (id : RuleId) : Prop := ∃ word ∈ wordsOf text, Denotes word id

instance (text : String) (id : RuleId) : Decidable (Names text id) :=
  inferInstanceAs (Decidable (∃ word ∈ wordsOf text, Denotes word id))

def IsFilter (text : String) : Prop := ∀ word ∈ wordsOf text, ∃ id, Denotes word id

inductive Refuses (word : String) : Failure → Prop
  | malformed {fault : RuleId.Fault} (hParse : RuleId.parse (Text.trim word) = .error fault) :
    Refuses word (.ruleId fault)
  | unknown {id : RuleId} (hParse : RuleId.parse (Text.trim word) = .ok id)
    (hUnknown : id ∉ Catalogue.rules.map Rule.id) : Refuses word (.unknownRule id)

def FirstRefusal (text : String) (failure : Failure) : Prop :=
  ∃ before word after, wordsOf text = before ++ word :: after ∧
    (∀ other ∈ before, ∃ id, Denotes other id) ∧ Refuses word failure

theorem denotes_iff_parse {word : String} {id : RuleId} :
    Denotes word id ↔
      id ∈ Catalogue.rules.map Rule.id ∧ RuleId.parse (Text.trim word) = .ok id := by
  rw [Denotes, ← RuleId.parse?_eq_some_iff_parse, RuleId.parse?_eq_some_iff]
  constructor
  · rintro ⟨hBuiltin, hText⟩
    exact ⟨hBuiltin, Catalogue.isFourDigit_of_mem hBuiltin, hText⟩
  · rintro ⟨hBuiltin, -, hText⟩
    exact ⟨hBuiltin, hText⟩

theorem parseFilterPiece_of_parse {text : String} {id : RuleId}
    (hParse : RuleId.parse text = .ok id) :
    parseFilterPiece text =
      if id ∈ Catalogue.rules.map Rule.id then .ok id else .error (.unknownRule id) := by
  have hNamed : Catalogue.isNamed text = true ↔ id ∈ Catalogue.rules.map Rule.id := by
    rw [Catalogue.isNamed_eq_true_iff, RuleId.parse?_eq_some_iff_parse.2 hParse]
    simp only [Option.mem_some_iff, exists_eq_left']
  simp only [parseFilterPiece, hParse, hNamed]

theorem parseFilterPiece_eq_ok_iff {word : String} {id : RuleId} :
    parseFilterPiece (Text.trim word) = .ok id ↔ Denotes word id := by
  rw [denotes_iff_parse]
  cases hParse : RuleId.parse (Text.trim word) with
  | error fault => simp [parseFilterPiece, hParse]
  | ok other =>
    rw [parseFilterPiece_of_parse hParse]
    constructor
    · intro hId
      split at hId
      · next hBuiltin =>
        cases hId
        exact ⟨hBuiltin, rfl⟩
      · cases hId
    · rintro ⟨hBuiltin, ⟨⟩⟩
      exact if_pos hBuiltin

theorem parseFilterPiece_eq_error_iff {word : String} {failure : Failure} :
    parseFilterPiece (Text.trim word) = .error failure ↔ Refuses word failure := by
  constructor
  · intro hFailure
    cases hParse : RuleId.parse (Text.trim word) with
    | error fault =>
      simp only [parseFilterPiece, hParse] at hFailure
      cases hFailure
      exact .malformed hParse
    | ok id =>
      rw [parseFilterPiece_of_parse hParse] at hFailure
      split at hFailure
      · cases hFailure
      · next hUnknown =>
        cases hFailure
        exact .unknown hParse hUnknown
  · intro hRefuses
    cases hRefuses with
    | malformed hParse => simp only [parseFilterPiece, hParse]
    | unknown hParse hUnknown => rw [parseFilterPiece_of_parse hParse, if_neg hUnknown]

theorem filterPieces_eq (text : String) : filterPieces text = (wordsOf text).map Text.trim := by
  rw [filterPieces, wordsOf, List.filter_map, List.filter_map, List.map_map]
  apply congrArg (List.map _)
  apply List.filter_congr
  intro piece _
  simp [Text.trim_eq_empty_iff]

theorem parseFilter_eq (text : String) :
    parseFilter text = (wordsOf text).mapM (parseFilterPiece ∘ Text.trim) := by
  rw [parseFilter, filterPieces_eq, List.mapM_map]

section

variable {ε α β : Type} {f : α → Except ε β} {xs : List α}

theorem bind_eq_ok_iff {γ : Type} {x : Except ε α} {next : α → Except ε γ} {result : γ} :
    x >>= next = .ok result ↔ ∃ a, x = .ok a ∧ next a = .ok result := by
  cases x <;> simp [bind, Except.bind]

theorem bind_eq_error_iff {γ : Type} {x : Except ε α} {next : α → Except ε γ} {e : ε} :
    x >>= next = .error e ↔ x = .error e ∨ ∃ a, x = .ok a ∧ next a = .error e := by
  cases x <;> simp [bind, Except.bind]

theorem mapM_eq_ok_iff {ys : List β} : xs.mapM f = .ok ys ↔ xs.map f = ys.map .ok := by
  induction xs generalizing ys with
  | nil => cases ys <;> simp [pure, Except.pure]
  | cons x rest ih =>
    simp only [List.mapM_cons, bind_eq_ok_iff, ih, pure, Except.pure, Except.ok.injEq]
    constructor
    · rintro ⟨y, hy, zs, hRest, rfl⟩
      rw [List.map_cons, List.map_cons, hy, hRest]
    · intro hMap
      obtain ⟨y, zs, rfl, hy, hRest⟩ := List.map_eq_cons_iff.1 hMap.symm
      exact ⟨y, hy.symm, zs, hRest.symm, rfl⟩

theorem mapM_eq_error_iff {e : ε} :
    xs.mapM f = .error e ↔ ∃ before x after, xs = before ++ x :: after ∧
      (∀ y ∈ before, ∃ b, f y = .ok b) ∧ f x = .error e := by
  induction xs with
  | nil => simp [pure, Except.pure]
  | cons x rest ih =>
    simp only [List.mapM_cons, bind_eq_error_iff, ih, pure, Except.pure, reduceCtorEq, and_false,
      exists_false, or_false]
    constructor
    · rintro (hx | ⟨b, hx, before, bad, after, rfl, hBefore, hBad⟩)
      · exact ⟨[], x, rest, rfl, by simp, hx⟩
      · refine ⟨x :: before, bad, after, rfl, ?_, hBad⟩
        exact List.forall_mem_cons.2 ⟨⟨b, hx⟩, hBefore⟩
    · rintro ⟨before, bad, after, hSplit, hBefore, hBad⟩
      cases before with
      | nil =>
        cases hSplit
        exact .inl hBad
      | cons first before =>
        cases hSplit
        obtain ⟨⟨b, hx⟩, hBefore⟩ := List.forall_mem_cons.1 hBefore
        exact .inr ⟨b, hx, before, bad, after, rfl, hBefore, hBad⟩

end

theorem parseFilter_eq_error_iff {text : String} {failure : Failure} :
    parseFilter text = .error failure ↔ FirstRefusal text failure := by
  rw [parseFilter_eq, mapM_eq_error_iff, FirstRefusal]
  simp only [Function.comp_apply, parseFilterPiece_eq_ok_iff, parseFilterPiece_eq_error_iff]

theorem mem_of_parseFilter {text : String} {ids : List RuleId} (hIds : parseFilter text = .ok ids)
    {id : RuleId} : id ∈ ids ↔ Names text id := by
  rw [parseFilter_eq, mapM_eq_ok_iff] at hIds
  have hMem : (.ok id : Except Failure RuleId) ∈ ids.map .ok ↔ id ∈ ids := by simp
  rw [← hMem, ← hIds, List.mem_map, Names]
  simp only [Function.comp_apply, parseFilterPiece_eq_ok_iff]

theorem exists_parseFilter_iff {text : String} :
    (∃ ids, parseFilter text = .ok ids) ↔ IsFilter text := by
  constructor
  · rintro ⟨ids, hIds⟩ word hWord
    rw [parseFilter_eq, mapM_eq_ok_iff] at hIds
    obtain ⟨id, -, hId⟩ := List.mem_map.1 (hIds ▸ List.mem_map_of_mem hWord)
    rw [Function.comp_apply] at hId
    exact ⟨id, parseFilterPiece_eq_ok_iff.1 hId.symm⟩
  · intro hFilter
    cases hParse : parseFilter text with
    | ok ids => exact ⟨ids, rfl⟩
    | error failure =>
      obtain ⟨before, word, after, hWords, -, hRefuses⟩ := parseFilter_eq_error_iff.1 hParse
      obtain ⟨id, hId⟩ := hFilter word (by simp [hWords])
      have hPiece := parseFilterPiece_eq_ok_iff.2 hId
      rw [parseFilterPiece_eq_error_iff.2 hRefuses] at hPiece
      cases hPiece

def Admits (rules : Option String) (id : RuleId) : Prop := ∀ text ∈ rules, Names text id

instance (rules : Option String) (id : RuleId) : Decidable (Admits rules id) :=
  Option.decidableForallMem rules

def keepAdmitted (rules : Option String) (engine : Engine) : Engine :=
  { engine with enabled := engine.enabled.filter fun e => Admits rules e.1 }

theorem restrict_eq_ok {rules : Option String} (hRules : ∀ text ∈ rules, IsFilter text)
    (engine : Engine) : restrict engine rules = .ok (keepAdmitted rules engine) := by
  cases rules with
  | none => simp [restrict, keepAdmitted, Admits]
  | some text =>
    obtain ⟨ids, hIds⟩ := exists_parseFilter_iff.2 (hRules text rfl)
    have hAdmits : ∀ id, id ∈ ids ↔ Admits (some text) id := by
      intro id
      rw [mem_of_parseFilter hIds]
      simp [Admits]
    simp only [restrict, hIds, Except.map, Engine.restrictTo, keepAdmitted, hAdmits]

theorem restrict_eq_error {text : String} {failure : Failure} (hText : FirstRefusal text failure)
    (engine : Engine) : restrict engine (some text) = .error failure := by
  rw [restrict, parseFilter_eq_error_iff.2 hText]
  rfl

end CommandLine

end CostlyCalls
