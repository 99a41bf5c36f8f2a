import Mathlib.Data.List.Basic
import Mathlib.Logic.ExistsUnique
import Mathlib.Logic.Function.Defs
import CostlyCalls.Rule.Catalogue

/-!
# Messages

A template is cut at its slots into pieces that hold no slot. Two slots never overlap, so there is
only one way to cut, and `Text.Template.fill` puts the subject between the pieces. Whatever the
subject says, its text is taken over as it is.

`Text.Template.pieces` cuts from left to right, as filling reads. The scan has three cases: the text
is empty, or it starts with a slot, or its first character stands for itself.
-/

set_option autoImplicit false

namespace CostlyCalls

namespace Text.Template

def pieces : List Char → List (List Char)
  | [] => [[]]
  | '\x7b' :: '0' :: '\x7d' :: rest => [] :: pieces rest
  | c :: rest => (pieces rest).modifyHead (c :: ·)

theorem pieces_slot_append (rest : List Char) : pieces (slot ++ rest) = [] :: pieces rest := by
  simp [slot, pieces]

theorem pieces_cons {c : Char} {rest : List Char} (hSlot : ¬slot <+: c :: rest) :
    pieces (c :: rest) = (pieces rest).modifyHead (c :: ·) := by
  rw [pieces]
  rintro back rfl rfl
  exact hSlot ⟨back, rfl⟩

theorem fillChars_cons {subject : List Char} {c : Char} {rest : List Char}
    (hSlot : ¬slot <+: c :: rest) :
    fillChars subject (c :: rest) = c :: fillChars subject rest := by
  rw [fillChars]
  rintro back rfl rfl
  exact hSlot ⟨back, rfl⟩

@[elab_as_elim]
theorem scanInduction {motive : List Char → Prop} (nil : motive [])
    (slot : ∀ rest, motive rest → motive (slot ++ rest))
    (char : ∀ c rest, ¬Template.slot <+: c :: rest → motive rest → motive (c :: rest))
    (cs : List Char) : motive cs := by
  fun_induction pieces cs with
  | case1 => exact nil
  | case2 rest ih => exact slot rest ih
  | case3 c rest hNone ih =>
    refine char c rest ?_ ih
    rintro ⟨back, hBack⟩
    obtain ⟨rfl, rfl⟩ := List.cons.inj hBack
    exact hNone back rfl rfl

theorem exists_pieces_eq_cons (cs : List Char) : ∃ first others, pieces cs = first :: others := by
  induction cs using scanInduction with
  | nil => exact ⟨[], [], rfl⟩
  | slot rest => exact ⟨[], pieces rest, pieces_slot_append rest⟩
  | char c rest hSlot ih =>
    obtain ⟨first, others, hPieces⟩ := ih
    exact ⟨c :: first, others, by rw [pieces_cons hSlot, hPieces, List.modifyHead_cons]⟩

theorem fillChars_eq_intercalate (subject cs : List Char) :
    fillChars subject cs = subject.intercalate (pieces cs) := by
  induction cs using scanInduction with
  | nil => rfl
  | slot rest ih =>
    obtain ⟨first, others, hPieces⟩ := exists_pieces_eq_cons rest
    rw [fillChars_slot_append, pieces_slot_append, ih, hPieces, List.intercalate_cons_cons,
      List.nil_append]
  | char c rest hSlot ih =>
    obtain ⟨first, others, hPieces⟩ := exists_pieces_eq_cons rest
    rw [fillChars_cons hSlot, pieces_cons hSlot, ih, hPieces, List.modifyHead_cons]
    cases others with
    | nil => rw [List.intercalate_singleton, List.intercalate_singleton]
    | cons second others =>
      rw [List.intercalate_cons_cons, List.intercalate_cons_cons, List.cons_append,
        List.cons_append]

theorem fillChars_slot (cs : List Char) : fillChars slot cs = cs := by
  induction cs using scanInduction with
  | nil => rfl
  | slot rest ih => rw [fillChars_slot_append, ih]
  | char c rest hSlot ih => rw [fillChars_cons hSlot, ih]

theorem intercalate_pieces (cs : List Char) : slot.intercalate (pieces cs) = cs := by
  rw [← fillChars_eq_intercalate, fillChars_slot]

theorem first_isPrefix {cs first : List Char} {others : List (List Char)}
    (hPieces : pieces cs = first :: others) : first <+: cs := by
  have hCut := intercalate_pieces cs
  rw [hPieces] at hCut
  cases others with
  | nil =>
    rw [List.intercalate_singleton] at hCut
    exact hCut ▸ List.prefix_rfl
  | cons second others =>
    rw [List.intercalate_cons_cons, List.append_assoc] at hCut
    exact ⟨_, hCut⟩

theorem slotless_of_mem_pieces {cs piece : List Char} (hPiece : piece ∈ pieces cs) :
    ¬slot <:+: piece := by
  induction cs using scanInduction generalizing piece with
  | nil =>
    rw [List.mem_singleton.1 hPiece]
    decide
  | slot rest ih =>
    rw [pieces_slot_append] at hPiece
    rcases List.mem_cons.1 hPiece with rfl | hRest
    · decide
    · exact ih hRest
  | char c rest hSlot ih =>
    obtain ⟨first, others, hPieces⟩ := exists_pieces_eq_cons rest
    rw [hPieces] at ih
    rw [pieces_cons hSlot, hPieces, List.modifyHead_cons] at hPiece
    rcases List.mem_cons.1 hPiece with rfl | hOthers
    · rw [List.infix_cons_iff, not_or]
      refine ⟨fun hFirst => hSlot (hFirst.trans ?_), ih List.mem_cons_self⟩
      exact List.cons_prefix_cons.2 ⟨rfl, first_isPrefix hPieces⟩
    · exact ih (List.mem_cons_of_mem first hOthers)

/-- A slot does not begin inside a text without slots and end inside the slot behind it. -/
theorem slot_does_not_straddle {c : Char} {front back : List Char}
    (hFront : ¬slot <:+: c :: front) : ¬slot <+: c :: (front ++ (slot ++ back)) := by
  intro hSlot
  have hCut : c :: front <+: c :: (front ++ (slot ++ back)) := List.prefix_append (c :: front) _
  rcases List.prefix_or_prefix_of_prefix hSlot hCut with hInside | hShort
  · exact hFront hInside.isInfix
  · -- The text is shorter than a slot, so the slot behind it would begin with a zero or a brace.
    match front, hShort with
    | [], _ => simp [slot] at hSlot
    | [digit], _ => simp [slot] at hSlot
    | digit :: brace :: front, hShort =>
      have hSame : c :: digit :: brace :: front = slot := hShort.eq_of_length_le (by simp [slot])
      exact hFront (hSame ▸ List.infix_rfl)

theorem pieces_append_slot {front : List Char} (hFront : ¬slot <:+: front) (back : List Char) :
    pieces (front ++ (slot ++ back)) = front :: pieces back := by
  induction front with
  | nil => exact pieces_slot_append back
  | cons c front ih =>
    have hRest : ¬slot <:+: front := fun hInfix => hFront (List.infix_cons hInfix)
    rw [List.cons_append, pieces_cons (slot_does_not_straddle hFront), ih hRest,
      List.modifyHead_cons]

theorem pieces_of_slotless {cs : List Char} (hSlot : ¬slot <:+: cs) : pieces cs = [cs] := by
  induction cs with
  | nil => rfl
  | cons c rest ih =>
    have hRest : ¬slot <:+: rest := fun hInfix => hSlot (List.infix_cons hInfix)
    rw [pieces_cons fun hPrefix => hSlot hPrefix.isInfix, ih hRest, List.modifyHead_cons]

theorem pieces_intercalate {parts : List (List Char)} (hParts : parts ≠ [])
    (hSlotless : ∀ part ∈ parts, ¬slot <:+: part) : pieces (slot.intercalate parts) = parts := by
  induction parts with
  | nil => exact absurd rfl hParts
  | cons first others ih =>
    have hFirst := hSlotless first List.mem_cons_self
    cases others with
    | nil => rw [List.intercalate_singleton, pieces_of_slotless hFirst]
    | cons second others =>
      have hOthers := ih (List.cons_ne_nil _ _) fun part hPart =>
        hSlotless part (List.mem_cons_of_mem _ hPart)
      rw [List.intercalate_cons_cons, List.append_assoc, pieces_append_slot hFirst, hOthers]

/-- The template consists of the given parts, with a slot between any two neighbours and no slot in
a part. -/
structure CutInto (template : String) (parts : List String) : Prop where
  nonempty : parts ≠ []
  joined : (String.ofList slot).intercalate parts = template
  slotless : ∀ part ∈ parts, ¬slot <:+: part.toList

theorem cutInto_pieces (template : String) :
    CutInto template ((pieces template.toList).map String.ofList) where
  nonempty := by
    obtain ⟨first, others, hPieces⟩ := exists_pieces_eq_cons template.toList
    simp [hPieces]
  joined := by
    apply String.toList_injective
    rw [String.toList_intercalate, String.toList_ofList, List.map_map]
    simpa [Function.comp_def] using intercalate_pieces template.toList
  slotless part hPart := by
    obtain ⟨piece, hPiece, rfl⟩ := List.mem_map.1 hPart
    rw [String.toList_ofList]
    exact slotless_of_mem_pieces hPiece

namespace CutInto

variable {template : String} {parts : List String}

theorem pieces_eq (hCut : CutInto template parts) :
    pieces template.toList = parts.map String.toList := by
  rw [← hCut.joined, String.toList_intercalate, String.toList_ofList]
  apply pieces_intercalate
  · exact mt List.map_eq_nil_iff.1 hCut.nonempty
  · intro part hPart
    obtain ⟨text, hText, rfl⟩ := List.mem_map.1 hPart
    exact hCut.slotless text hText

theorem unique {others : List String} (hCut : CutInto template parts)
    (hOthers : CutInto template others) : others = parts := by
  rw [← List.map_inj_right fun _ _ => String.toList_injective, ← hCut.pieces_eq,
    ← hOthers.pieces_eq]

theorem fill_eq (hCut : CutInto template parts) (subject : String) :
    fill template subject = subject.intercalate parts := by
  apply String.toList_injective
  rw [fill, String.toList_ofList, fillChars_eq_intercalate, hCut.pieces_eq,
    String.toList_intercalate]

end CutInto

theorem length_intercalate_le {short long : List Char} (hLength : short.length ≤ long.length)
    (parts : List (List Char)) :
    (short.intercalate parts).length ≤ (long.intercalate parts).length := by
  induction parts with
  | nil => exact Nat.le_refl _
  | cons first others ih =>
    cases others with
    | nil => exact Nat.le_refl _
    | cons second others =>
      simp only [List.intercalate_cons_cons, List.length_append]
      omega

theorem CutInto.fill_injective {template : String} {parts : List String}
    (hCut : CutInto template parts) (hSlot : 1 < parts.length) :
    Function.Injective (fill template) := by
  intro subject other hFill
  rw [hCut.fill_eq, hCut.fill_eq, ← String.toList_inj, String.toList_intercalate,
    String.toList_intercalate] at hFill
  match parts, hSlot with
  | first :: second :: others, _ =>
    simp only [List.map_cons, List.intercalate_cons_cons, List.append_assoc,
      List.append_cancel_left_eq] at hFill
    generalize hRest : second.toList :: others.map String.toList = rest at hFill
    have hTotal := congrArg List.length hFill
    rw [List.length_append, List.length_append] at hTotal
    have hLength : subject.toList.length = other.toList.length := by
      rcases Nat.lt_trichotomy subject.toList.length other.toList.length with hLt | hEq | hLt
      · have hLe := length_intercalate_le (Nat.le_of_lt hLt) rest
        omega
      · exact hEq
      · have hLe := length_intercalate_le (Nat.le_of_lt hLt) rest
        omega
    exact String.toList_injective (List.append_inj hFill hLength).1

theorem exists_cutInto_pair {template : String} {cs : List Char}
    (hText : template = String.ofList cs) (hPieces : (pieces cs).length = 2) :
    ∃ before after, CutInto template [before, after] := by
  obtain ⟨before, after, hPair⟩ := List.length_eq_two.1 hPieces
  have hCut := cutInto_pieces template
  rw [hText, String.toList_ofList, hPair] at hCut
  exact ⟨String.ofList before, String.ofList after, hText ▸ hCut⟩

theorem CutInto.fill_pair {template before after : String}
    (hCut : CutInto template [before, after]) (subject : String) :
    fill template subject = before ++ subject ++ after := by
  rw [hCut.fill_eq, String.intercalate_cons_cons, String.intercalate_singleton]

end Text.Template

open Text.Template

namespace Catalogue

-- A text is unified with the list of its characters, which is much cheaper than decoding it.
theorem exists_cutInto_of_callRules :
    ∀ rule ∈ callRules, ∃ before after, CutInto rule.message [before, after] := by
  simp only [callRules, List.forall_mem_cons]
  exact ⟨exists_cutInto_pair String.ofList_append.symm (by decide),
    exists_cutInto_pair String.ofList_append.symm (by decide),
    exists_cutInto_pair rfl (by decide),
    exists_cutInto_pair String.ofList_append.symm (by decide),
    exists_cutInto_pair rfl (by decide),
    exists_cutInto_pair String.ofList_append.symm (by decide),
    exists_cutInto_pair String.ofList_append.symm (by decide),
    exists_cutInto_pair rfl (by decide),
    exists_cutInto_pair rfl (by decide),
    exists_cutInto_pair rfl (by decide), List.forall_mem_nil _⟩

theorem exists_cutInto_of_declarationRules :
    ∀ rule ∈ declarationRules, ∃ before after, CutInto rule.message [before, after] := by
  simp only [declarationRules, List.forall_mem_cons]
  exact ⟨exists_cutInto_pair rfl (by decide), exists_cutInto_pair rfl (by decide),
    exists_cutInto_pair rfl (by decide), List.forall_mem_nil _⟩

end Catalogue

theorem CallRule.message_of_finding? {rule : CallRule} {ctx : Context} {node : Node}
    {finding : Finding} (hFinding : rule.finding? ctx node = some finding) :
    ∃ site, rule.site? ctx node = some site ∧
      finding.message = fill rule.message (subject ctx site.receiver) := by
  obtain ⟨site, hSite, rfl⟩ := Option.map_eq_some_iff.1 hFinding
  exact ⟨site, hSite, rfl⟩

theorem DeclarationRule.message_of_finding? {rule : DeclarationRule} {ctx : Context} {node : Node}
    {finding : Finding} (hFinding : rule.finding? ctx node = some finding) :
    ∃ symbol, ctx.model.symbol? node.id = some symbol ∧
      finding.message = fill rule.message symbol.name := by
  obtain ⟨symbol, hSymbol, rfl⟩ := Option.map_eq_some_iff.1 hFinding
  exact ⟨symbol, (Option.filter_eq_some_iff.1 hSymbol).1, rfl⟩

/-- A template is cut at its slots in one way, and filling puts the subject there as it is. -/
theorem messages_filled_literally :
    (∀ template : String,
      (∃! parts, CutInto template parts) ∧
      ∀ parts, CutInto template parts →
        (∀ subject, fill template subject = subject.intercalate parts) ∧
        (1 < parts.length → ∀ subject other, subject ≠ other →
          fill template subject ≠ fill template other)) ∧
    (∀ rule ∈ Catalogue.callRules, ∃ before after,
      CutInto rule.message [before, after] ∧
      ∀ ctx node finding, rule.finding? ctx node = some finding →
        ∃ site, rule.site? ctx node = some site ∧
          finding.message = before ++ CallRule.subject ctx site.receiver ++ after) ∧
    ∀ rule ∈ Catalogue.declarationRules, ∃ before after,
      CutInto rule.message [before, after] ∧
      ∀ ctx node finding, rule.finding? ctx node = some finding →
        ∃ symbol, ctx.model.symbol? node.id = some symbol ∧
          finding.message = before ++ symbol.name ++ after := by
  refine ⟨fun template => ⟨?_, fun parts hCut => ⟨hCut.fill_eq, ?_⟩⟩, ?_, ?_⟩
  · exact ⟨_, cutInto_pieces template, fun others => (cutInto_pieces template).unique⟩
  · intro hSlot subject other hNe hFill
    exact hNe (hCut.fill_injective hSlot hFill)
  · intro rule hRule
    obtain ⟨before, after, hCut⟩ := Catalogue.exists_cutInto_of_callRules rule hRule
    refine ⟨before, after, hCut, fun ctx node finding hFinding => ?_⟩
    obtain ⟨site, hSite, hMessage⟩ := CallRule.message_of_finding? hFinding
    exact ⟨site, hSite, hMessage.trans (hCut.fill_pair _)⟩
  · intro rule hRule
    obtain ⟨before, after, hCut⟩ := Catalogue.exists_cutInto_of_declarationRules rule hRule
    refine ⟨before, after, hCut, fun ctx node finding hFinding => ?_⟩
    obtain ⟨symbol, hSymbol, hMessage⟩ := DeclarationRule.message_of_finding? hFinding
    exact ⟨symbol, hSymbol, hMessage.trans (hCut.fill_pair _)⟩

example :
    fill "\x7b\x7b0\x7d0\x7d" "\x7b0\x7d" = "\x7b\x7b0\x7d0\x7d" ∧
      fill "\x7b\x7b0\x7d0\x7d" "" = "\x7b0\x7d" := by
  decide +kernel

end CostlyCalls
