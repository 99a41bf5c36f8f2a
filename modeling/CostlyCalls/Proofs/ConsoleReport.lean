import CostlyCalls.Proofs.Identifiers
import CostlyCalls.Report.Console

/-!
# Colour in the console report

The console report is the same with and without colour, but for the style sequences: leaving them
out of the coloured report gives the plain one. `stripStyles` finds them in the characters of any
text, without knowing of segments. It gives the plain text back if the text itself has no escape
character, since a style sequence is opened by one.

With and without colour the report has a block for every finding and a summary that counts them.
`Console.blockText` and `Console.summaryText` write both out.
-/

set_option autoImplicit false

namespace CostlyCalls

namespace Text

def isParameter (c : Char) : Bool := c.isDigit || c == ';'

def afterStyle? : List Char → Option (List Char)
  | '\x1b' :: '[' :: rest =>
    match rest.dropWhile isParameter with
    | 'm' :: after => some after
    | _ => none
  | _ => none

theorem length_lt_of_afterStyle? {cs after : List Char} (hAfter : afterStyle? cs = some after) :
    after.length < cs.length := by
  unfold afterStyle? at hAfter
  split at hAfter
  · next rest =>
    split at hAfter
    · next found hDrop =>
      cases hAfter
      have hLength := List.length_dropWhile_le isParameter rest
      rw [hDrop, List.length_cons] at hLength
      rw [List.length_cons, List.length_cons]
      omega
    · cases hAfter
  · cases hAfter

/-- The characters of a text without its style sequences. -/
def stripStyles : List Char → List Char
  | [] => []
  | c :: rest =>
    match _hAfter : afterStyle? (c :: rest) with
    | some after => stripStyles after
    | none => c :: stripStyles rest
termination_by cs => cs.length
decreasing_by
  · exact length_lt_of_afterStyle? ‹_›
  · exact Nat.lt_succ_self _

def unstyled (text : String) : String := String.ofList (stripStyles text.toList)

theorem stripStyles_of_afterStyle? {cs after : List Char} (hAfter : afterStyle? cs = some after) :
    stripStyles cs = stripStyles after := by
  cases cs with
  | nil => cases hAfter
  | cons c rest =>
    rw [stripStyles]
    split
    · next other hOther =>
      cases hOther.symm.trans hAfter
      rfl
    · next hNone => cases hNone.symm.trans hAfter

theorem stripStyles_cons_of_ne {c : Char} (hc : c ≠ '\x1b') (rest : List Char) :
    stripStyles (c :: rest) = c :: stripStyles rest := by
  have hNone : afterStyle? (c :: rest) = none := by
    unfold afterStyle?
    split
    · next hStart => exact absurd (List.cons.inj hStart).1 hc
    · rfl
  rw [stripStyles]
  split
  · next after hAfter => cases hAfter.symm.trans hNone
  · rfl

theorem stripStyles_append {text : List Char} (hText : '\x1b' ∉ text) (rest : List Char) :
    stripStyles (text ++ rest) = text ++ stripStyles rest := by
  induction text with
  | nil => rfl
  | cons c text ih =>
    rw [List.mem_cons, not_or] at hText
    rw [List.cons_append, stripStyles_cons_of_ne (Ne.symm hText.1), ih hText.2, List.cons_append]

def IsStyle (cs : List Char) : Prop :=
  ∃ parameters, (∀ c ∈ parameters, isParameter c = true) ∧
    cs = '\x1b' :: '[' :: (parameters ++ ['m'])

theorem IsStyle.stripStyles_append {style : List Char} (hStyle : IsStyle style)
    (rest : List Char) : stripStyles (style ++ rest) = stripStyles rest := by
  obtain ⟨parameters, hParameters, rfl⟩ := hStyle
  apply stripStyles_of_afterStyle?
  have hDrop : (parameters ++ 'm' :: rest).dropWhile isParameter = 'm' :: rest := by
    rw [List.dropWhile_append_of_pos hParameters]
    rfl
  rw [List.cons_append, List.cons_append, List.append_assoc, List.singleton_append, afterStyle?,
    hDrop]
  rfl

theorem isParameter_code (style : Attribute) : ∀ c ∈ style.code.toList, isParameter c = true := by
  rw [← List.all_eq_true]
  cases style <;> rfl

theorem isParameter_codes (attributes : List Attribute) :
    ∀ c ∈ (String.intercalate ";" (attributes.map Attribute.code)).toList,
      isParameter c = true := by
  rw [String.toList_intercalate]
  induction attributes with
  | nil => simp
  | cons first rest ih =>
    cases rest with
    | nil => simpa using isParameter_code first
    | cons second rest =>
      simp only [List.map_cons, List.intercalate_cons_cons, List.forall_mem_append] at ih ⊢
      exact ⟨⟨isParameter_code first, List.all_eq_true.1 rfl⟩, ih⟩

theorem isStyle_styleStart (attributes : List Attribute) :
    IsStyle (styleStart attributes).toList :=
  ⟨_, isParameter_codes attributes, by simp [styleStart]⟩

theorem isStyle_styleReset : IsStyle styleReset.toList :=
  ⟨['0'], List.all_eq_true.1 rfl, rfl⟩

def EscapeFree (text : String) : Prop := '\x1b' ∉ text.toList

instance (text : String) : Decidable (EscapeFree text) :=
  inferInstanceAs (Decidable ('\x1b' ∉ text.toList))

@[simp] theorem escapeFree_append {a b : String} :
    EscapeFree (a ++ b) ↔ EscapeFree a ∧ EscapeFree b := by
  simp [EscapeFree]

@[simp] theorem escapeFree_repr (n : Nat) : EscapeFree n.repr := by
  intro hEscape
  rw [Nat.toList_repr] at hEscape
  exact absurd (Json.isDigit_toDigits _ hEscape) (by decide)

theorem stripStyles_render {segment : Segment} (hText : EscapeFree segment.text)
    (rest : List Char) :
    stripStyles ((segment.render true).toList ++ rest) =
      (segment.render false).toList ++ stripStyles rest := by
  unfold Segment.render
  split
  · exact stripStyles_append hText rest
  · rw [paint, if_pos rfl, paint_plain, String.toList_append, String.toList_append,
      List.append_assoc, List.append_assoc, (isStyle_styleStart _).stripStyles_append,
      stripStyles_append hText, isStyle_styleReset.stripStyles_append]

@[simp] theorem render_plain (colour : Bool) (text : String) :
    (Segment.plain text).render colour = text :=
  if_pos rfl

@[simp] theorem render_styled (colour : Bool) (first : Attribute) (rest : List Attribute)
    (text : String) :
    (⟨first :: rest, text⟩ : Segment).render colour = paint colour (first :: rest) text :=
  if_neg (List.cons_ne_nil first rest)

theorem renderAll_cons (colour : Bool) (segment : Segment) (rest : List Segment) :
    renderAll colour (segment :: rest) = segment.render colour ++ renderAll colour rest :=
  renderAll_append colour [segment] rest

theorem unstyled_renderAll {segments : List Segment}
    (hTexts : ∀ segment ∈ segments, EscapeFree segment.text) :
    unstyled (renderAll true segments) = renderAll false segments := by
  have hChars : stripStyles (renderAll true segments).toList =
      (renderAll false segments).toList := by
    induction segments with
    | nil => simp [renderAll, stripStyles]
    | cons segment rest ih =>
      rw [List.forall_mem_cons] at hTexts
      rw [renderAll_cons, renderAll_cons, String.toList_append, String.toList_append,
        stripStyles_render hTexts.1, ih hTexts.2]
  rw [unstyled, hChars, String.ofList_toList]

end Text

structure Finding.EscapeFree (finding : Finding) : Prop where
  message : Text.EscapeFree finding.message
  file : Text.EscapeFree finding.file.text
  suggestion : ∀ text ∈ finding.suggestion, Text.EscapeFree text

@[simp] theorem RuleId.escapeFree_toText (id : RuleId) : Text.EscapeFree id.toText := by
  intro hEscape
  rw [toList_toText] at hEscape
  have hDigit : '\x1b' ∈ paddedDigits id.number.toNat := by simpa using hEscape
  exact absurd (isDigit_paddedDigits _ hDigit) (by decide)

namespace Console

open CostlyCalls.Text

theorem escapeFree_suggestionLine {suggestion : Option String}
    (hSuggestion : ∀ text ∈ suggestion, EscapeFree text) :
    ∀ segment ∈ suggestionLine suggestion, EscapeFree segment.text := by
  cases suggestion with
  | none => exact fun segment hSegment => absurd hSegment List.not_mem_nil
  | some text =>
    have hText : EscapeFree text := hSuggestion text rfl
    simp +decide [suggestionLine, Segment.plain, hText]

theorem escapeFree_block {finding : Finding} (hFinding : finding.EscapeFree) :
    ∀ segment ∈ block finding, EscapeFree segment.text := by
  have hName : EscapeFree finding.severity.name := by
    cases finding.severity <;> decide
  simp only [block, List.forall_mem_append]
  refine ⟨⟨?_, escapeFree_suggestionLine hFinding.suggestion⟩, ?_⟩
  · simp +decide [Segment.plain, hName, hFinding.message, hFinding.file]
  · simp +decide

def number (findings : List Finding) (severity : Severity) : Nat :=
  (findings.filter fun finding => finding.severity = severity).length

def occurring (findings : List Finding) : List Severity :=
  [Severity.error, .warning, .info].filter fun severity => number findings severity ≠ 0

def noun : Severity → String
  | .error => "error(s)"
  | .warning => "warning(s)"
  | .info => "info(s)"

def occurrence (findings : List Finding) (severity : Severity) : Segment :=
  countSegment severity (noun severity) (number findings severity)

theorem foldl_add (findings : List Finding) (tally : Tally) :
    findings.foldl (fun tally finding => tally.add finding.severity) tally =
      ⟨tally.errors + number findings .error, tally.warnings + number findings .warning,
        tally.infos + number findings .info⟩ := by
  induction findings generalizing tally with
  | nil => rfl
  | cons finding rest ih =>
    rw [List.foldl_cons, ih]
    cases hSeverity : finding.severity <;> simp [number, Tally.add, hSeverity] <;> omega

theorem ofFindings_eq (findings : List Finding) :
    Tally.ofFindings findings =
      ⟨number findings .error, number findings .warning, number findings .info⟩ := by
  rw [Tally.ofFindings, foldl_add]
  simp

theorem summary_ofFindings (findings : List Finding) :
    summary (.ofFindings findings) = .plain "\nFound " ::
      ((occurring findings).map (occurrence findings)).intersperse (.plain ", ") ++
        [.plain "\n"] := by
  rw [ofFindings_eq, summary, occurring]
  by_cases hErrors : number findings .error = 0 <;>
    by_cases hWarnings : number findings .warning = 0 <;>
    by_cases hInfos : number findings .info = 0 <;>
    simp [hErrors, hWarnings, hInfos, Nat.pos_iff_ne_zero, occurrence, noun]

theorem number_add_number_add_number (findings : List Finding) :
    number findings .error + number findings .warning + number findings .info =
      findings.length := by
  induction findings with
  | nil => rfl
  | cons finding rest ih =>
    unfold number at ih ⊢
    cases hSeverity : finding.severity <;> simp [hSeverity] <;> omega

theorem renderAll_intersperse (colour : Bool) (separator : String) (segments : List Segment) :
    renderAll colour (segments.intersperse (.plain separator)) =
      separator.intercalate (segments.map (Segment.render colour)) := by
  induction segments with
  | nil => rfl
  | cons first rest ih =>
    cases rest with
    | nil => simp [renderAll]
    | cons second rest =>
      simp only [List.map_cons] at ih ⊢
      rw [List.intersperse_cons_cons, renderAll_cons, renderAll_cons, ih, render_plain,
        String.intercalate_cons_cons, String.append_assoc]

theorem forall_mem_intersperse {α : Type} {p : α → Prop} {separator : α} {xs : List α}
    (hSeparator : p separator) (hAll : ∀ x ∈ xs, p x) : ∀ x ∈ xs.intersperse separator, p x := by
  induction xs with
  | nil => exact hAll
  | cons first rest ih =>
    cases rest with
    | nil => exact hAll
    | cons second rest =>
      rw [List.forall_mem_cons] at hAll
      rw [List.intersperse_cons_cons, List.forall_mem_cons, List.forall_mem_cons]
      exact ⟨hAll.1, hSeparator, ih hAll.2⟩

theorem escapeFree_occurrence (findings : List Finding) (severity : Severity) :
    EscapeFree (occurrence findings severity).text := by
  have hNoun : EscapeFree (noun severity) := by
    cases severity <;> decide
  simp +decide [occurrence, countSegment, hNoun]

theorem escapeFree_summary (findings : List Finding) :
    ∀ segment ∈ summary (.ofFindings findings), EscapeFree segment.text := by
  have hParts : ∀ segment ∈ (occurring findings).map (occurrence findings),
      EscapeFree segment.text := by
    rw [List.forall_mem_map]
    exact fun severity _ => escapeFree_occurrence findings severity
  rw [summary_ofFindings, List.forall_mem_append, List.forall_mem_cons]
  exact ⟨⟨by decide, forall_mem_intersperse (by decide) hParts⟩,
    List.forall_mem_singleton.2 (by decide)⟩

theorem escapeFree_segments {findings : List Finding}
    (hFindings : ∀ finding ∈ findings, finding.EscapeFree) :
    ∀ segment ∈ segments findings, EscapeFree segment.text := by
  unfold segments
  split
  · decide
  · rw [List.forall_mem_append]
    refine ⟨?_, escapeFree_summary findings⟩
    intro segment hSegment
    obtain ⟨finding, hFinding, hBlock⟩ := List.mem_flatMap.1 hSegment
    exact escapeFree_block (hFindings finding hFinding) segment hBlock

def headText (colour : Bool) (finding : Finding) : String :=
  paint colour [.bold, severityColour finding.severity] finding.severity.name
    ++ paint colour [.bold] ":" ++ " " ++ finding.message ++ " "
    ++ paint colour [.dimmed] ("[" ++ finding.rule.toText ++ "]") ++ "\n"

def placeText (colour : Bool) (finding : Finding) : String :=
  "  " ++ paint colour [.blue] "-->" ++ " " ++ finding.file.text ++ ":"
    ++ finding.line.toNat.repr ++ ":" ++ finding.column.toNat.repr ++ "\n"

def helpText (colour : Bool) (suggestion : Option String) : String :=
  match suggestion with
  | none => ""
  | some text => "  " ++ paint colour [.cyan] "help:" ++ " " ++ text ++ "\n"

/-- The block of a finding: its lines and an empty one. -/
def blockText (colour : Bool) (finding : Finding) : String :=
  headText colour finding ++ placeText colour finding ++ helpText colour finding.suggestion ++ "\n"

def summaryText (colour : Bool) (findings : List Finding) : String :=
  "\nFound " ++ String.intercalate ", " ((occurring findings).map fun severity =>
    paint colour [severityColour severity]
      ((number findings severity).repr ++ " " ++ noun severity)) ++ "\n"

theorem renderAll_suggestionLine (colour : Bool) (suggestion : Option String) :
    renderAll colour (suggestionLine suggestion) = helpText colour suggestion := by
  cases suggestion with
  | none => rfl
  | some text => simp [renderAll, suggestionLine, helpText, String.append_assoc]

theorem renderAll_block (colour : Bool) (finding : Finding) :
    renderAll colour (block finding) = blockText colour finding := by
  -- One segment reaches from the end of the first line into the second one.
  have hBreak (rest : String) : "\n  " ++ rest = "\n" ++ ("  " ++ rest) := by
    rw [← String.append_assoc]
    rfl
  rw [block, renderAll_append, renderAll_append, renderAll_suggestionLine, blockText, headText,
    placeText]
  simp [renderAll, String.append_assoc, hBreak]

theorem renderAll_summary (colour : Bool) (findings : List Finding) :
    renderAll colour (summary (.ofFindings findings)) = summaryText colour findings := by
  rw [summary_ofFindings, renderAll_append, renderAll_cons, renderAll_intersperse, List.map_map,
    render_plain, summaryText]
  simp [renderAll, occurrence, countSegment, Function.comp_def]

theorem renderAll_blocks (colour : Bool) (findings : List Finding) :
    renderAll colour (findings.flatMap block) = String.join (findings.map (blockText colour)) := by
  induction findings with
  | nil => rfl
  | cons finding rest ih =>
    rw [List.flatMap_cons, renderAll_append, renderAll_block, ih, List.map_cons, String.join_cons]

end Console

/-- Without its style sequences the coloured report is the plain one, block by block and down to the
counts of the summary. -/
theorem Report.console_colour_neutral (findings : List Finding) :
    ((∀ finding ∈ findings, finding.EscapeFree) →
      Text.unstyled (console true findings) = console false findings) ∧
    (findings ≠ [] → ∀ colour,
      console colour findings =
        String.join (findings.map (Console.blockText colour)) ++
          Console.summaryText colour findings ∧
      Console.number findings .error + Console.number findings .warning +
        Console.number findings .info = (findings.map (Console.blockText colour)).length) := by
  constructor
  · intro hFindings
    exact Text.unstyled_renderAll (Console.escapeFree_segments hFindings)
  · intro hSome colour
    have hFull : ¬findings.isEmpty = true := by simpa using hSome
    rw [console, Console.segments, if_neg hFull, Text.renderAll_append, Console.renderAll_blocks,
      Console.renderAll_summary, List.length_map]
    exact ⟨rfl, Console.number_add_number_add_number findings⟩

def basketFindings : List Finding :=
  [⟨⟨6⟩, .warning, "'cart' is an IList", ⟨"src/Cart.cs"⟩, 4, 9, none, none, some "Use cart[0]"⟩,
    ⟨⟨10⟩, .error, "'tags' is searched", ⟨"src/Tags.cs"⟩, 7, 1, none, none, none⟩,
    ⟨⟨12345⟩, .warning, "[31mred", ⟨"a.cs"⟩, 0, 0, none, none, none⟩]

theorem Report.console_colour_neutral_basket :
    (∀ finding ∈ basketFindings, finding.EscapeFree) ∧
      console true basketFindings ≠ console false basketFindings ∧
      Text.unstyled (console true basketFindings) = console false basketFindings ∧
      Console.summaryText false basketFindings = "\nFound 1 error(s), 2 warning(s)\n" := by
  have hFree : ∀ finding ∈ basketFindings, finding.EscapeFree := by
    simp only [basketFindings, List.forall_mem_cons, List.not_mem_nil, false_implies, implies_true,
      and_true]
    exact ⟨⟨by decide, by decide, by decide⟩, ⟨by decide, by decide, by decide⟩,
      ⟨by decide, by decide, by decide⟩⟩
  obtain ⟨hColour, -⟩ := console_colour_neutral basketFindings
  exact ⟨hFree, by decide +kernel, hColour hFree, by decide +kernel⟩

end CostlyCalls
