import Mathlib.Logic.Relation
import CostlyCalls.Proofs.Paths
import CostlyCalls.Proofs.Suppressions

/-!
# The paths that a suppression covers

The file of a suppression is compared with the end of a path by components, never by characters. So
it does not matter how the two paths are spelled, a relative file ends a path only behind a slash,
and an absolute one stands for the whole path.

`Path.Respells` lists the ways of writing a path differently. `Path.IsNormal` describes the shortest
spelling, for which the components can be read off the text.
-/

set_option autoImplicit false

namespace CostlyCalls

namespace Text

theorem intercalate_append_mark {mark : Char} {front back : List (List Char)} (hFront : front ≠ [])
    (hBack : back ≠ []) :
    [mark].intercalate (front ++ back) =
      [mark].intercalate front ++ mark :: [mark].intercalate back := by
  obtain ⟨next, others, rfl⟩ := List.exists_cons_of_ne_nil hBack
  induction front with
  | nil => exact absurd rfl hFront
  | cons first rest ih =>
    cases rest with
    | nil =>
      rw [List.singleton_append, List.intercalate_cons_cons, List.append_assoc,
        List.singleton_append]
      simp
    | cons second rest =>
      have hRest := ih (List.cons_ne_nil second rest)
      rw [List.cons_append] at hRest
      rw [List.cons_append, List.cons_append, List.intercalate_cons_cons,
        List.intercalate_cons_cons, hRest]
      simp only [List.append_assoc]

theorem split_inj {mark : Char} {a b : List Char} : split mark a = split mark b ↔ a = b := by
  constructor
  · intro hSplit
    rw [← intercalate_split mark a, hSplit, intercalate_split]
  · rintro rfl
    rfl

theorem split_suffix_iff {mark : Char} {part whole : List Char} :
    split mark part <:+ split mark whole ↔ whole = part ∨ mark :: part <:+ whole := by
  constructor
  · rintro ⟨front, hSplit⟩
    rcases eq_or_ne front [] with rfl | hFront
    · left
      exact split_inj.1 hSplit.symm
    · right
      have hWhole := congrArg [mark].intercalate hSplit
      rw [intercalate_append_mark hFront (split_ne_nil mark part), intercalate_split,
        intercalate_split] at hWhole
      exact ⟨_, hWhole⟩
  · rintro (rfl | ⟨front, rfl⟩)
    · exact List.suffix_refl _
    · rw [split_append_mark]
      exact List.suffix_append _ _

end Text

namespace Path

/-- One change of the spelling of a path: a slash is doubled, or a dot is put between two slashes,
or one of both is put behind the whole text, if there is any. -/
inductive Respells : List Char → List Char → Prop
  | slash (front back : List Char) : Respells (front ++ '/' :: back) (front ++ '/' :: '/' :: back)
  | dot (front back : List Char) :
    Respells (front ++ '/' :: back) (front ++ '/' :: '.' :: '/' :: back)
  | lastSlash {front : List Char} (hFront : front ≠ []) : Respells front (front ++ ['/'])
  | lastDot {front : List Char} (hFront : front ≠ []) : Respells front (front ++ ['/', '.'])

def SameSpelling (a b : Path) : Prop :=
  Relation.EqvGen Respells a.text.toList b.text.toList

theorem componentsOf_slash_congr (front : List Char) {back other : List Char}
    (hBack : (pieces back).filterMap bodyComponent? = (pieces other).filterMap bodyComponent?) :
    componentsOf (front ++ '/' :: back) = componentsOf (front ++ '/' :: other) := by
  rcases eq_or_ne front [] with rfl | hFront
  · show .root :: (pieces back).filterMap bodyComponent? =
      .root :: (pieces other).filterMap bodyComponent?
    rw [hBack]
  · rw [componentsOf_append_slash hFront, componentsOf_append_slash hFront, hBack]

theorem Respells.componentsOf_eq {a b : List Char} (hRespells : Respells a b) :
    componentsOf a = componentsOf b := by
  cases hRespells with
  | slash front back =>
    apply componentsOf_slash_congr
    have hPieces : pieces ('/' :: back) = [] :: pieces back := Text.split_append_mark '/' [] back
    rw [hPieces]
    rfl
  | dot front back =>
    apply componentsOf_slash_congr
    have hPieces : pieces ('.' :: '/' :: back) = ['.'] :: pieces back :=
      Text.split_append_mark '/' ['.'] back
    rw [hPieces]
    rfl
  | lastSlash hFront =>
    rw [componentsOf_append_slash hFront]
    exact (List.append_nil _).symm
  | lastDot hFront =>
    rw [componentsOf_append_slash hFront]
    exact (List.append_nil _).symm

theorem componentsOf_eq_of_eqvGen {a b : List Char} (hSame : Relation.EqvGen Respells a b) :
    componentsOf a = componentsOf b := by
  induction hSame with
  | rel cs ds hRespells => exact hRespells.componentsOf_eq
  | refl cs => rfl
  | symm cs ds _ ih => exact ih.symm
  | trans cs ds es _ _ ihFirst ihSecond => exact ihFirst.trans ihSecond

theorem SameSpelling.components_eq {a b : Path} (hSame : a.SameSpelling b) :
    a.components = b.components :=
  componentsOf_eq_of_eqvGen hSame

theorem endsWith_eq_true_iff {path entry : Path} :
    path.endsWith entry = true ↔ entry.components <:+ path.components :=
  List.isSuffixOf_iff_suffix

theorem SameSpelling.endsWith_eq {path path' entry entry' : Path} (hPath : path.SameSpelling path')
    (hEntry : entry.SameSpelling entry') : path'.endsWith entry' = path.endsWith entry := by
  rw [endsWith, endsWith, hPath.components_eq, hEntry.components_eq]

def IsAbsolute (path : Path) : Prop := path.text.toList.head? = some '/'

instance (path : Path) : Decidable path.IsAbsolute :=
  inferInstanceAs (Decidable (path.text.toList.head? = some '/'))

def body (path : Path) : List Char :=
  match path.text.toList with
  | '/' :: rest => rest
  | cs => cs

/-- The path is written without superfluous characters: its body is empty, or no piece of the body
is empty or a dot. -/
def IsNormal (path : Path) : Prop :=
  path.body = [] ∨ ∀ piece ∈ pieces path.body, piece ≠ [] ∧ piece ≠ ['.']

instance (path : Path) : Decidable path.IsNormal :=
  inferInstanceAs (Decidable (_ ∨ _))

def bodyComponents (path : Path) : List Component := (pieces path.body).filterMap bodyComponent?

theorem IsAbsolute.text_eq {path : Path} (hAbsolute : path.IsAbsolute) :
    path.text.toList = '/' :: path.body := by
  obtain ⟨rest, hText⟩ := List.head?_eq_some_iff.1 hAbsolute
  rw [body, hText]
  rfl

theorem body_of_relative {path : Path} (hRelative : ¬path.IsAbsolute) :
    path.body = path.text.toList := by
  unfold body
  split
  · next rest hText => exact absurd (congrArg List.head? hText) hRelative
  · rfl

theorem IsAbsolute.components_eq {path : Path} (hAbsolute : path.IsAbsolute) :
    path.components = .root :: path.bodyComponents := by
  rw [components, hAbsolute.text_eq]
  rfl

theorem bodyComponent?_ne_root (piece : List Char) : bodyComponent? piece ≠ some .root := by
  unfold bodyComponent?
  split
  · exact fun hEq => Option.some_ne_none _ hEq.symm
  · split <;> simp

theorem root_not_mem_filterMap (all : List (List Char)) :
    .root ∉ all.filterMap bodyComponent? := by
  intro hRoot
  obtain ⟨piece, -, hPiece⟩ := List.mem_filterMap.1 hRoot
  exact bodyComponent?_ne_root piece hPiece

theorem IsAbsolute.of_root_mem {path : Path} (hRoot : .root ∈ path.components) :
    path.IsAbsolute := by
  by_contra hRelative
  rw [components, componentsOf_relative hRelative] at hRoot
  unfold relativeComponents at hRoot
  split at hRoot
  · rcases List.mem_cons.1 hRoot with hHere | hRest
    · cases hHere
    · exact root_not_mem_filterMap _ hRest
  · exact root_not_mem_filterMap _ hRoot

theorem IsAbsolute.endsWith_iff {path entry : Path} (hAbsolute : entry.IsAbsolute) :
    path.endsWith entry = true ↔ path.components = entry.components := by
  rw [endsWith_eq_true_iff]
  constructor
  · intro hSuffix
    have hRoot : .root ∈ entry.components := by
      rw [hAbsolute.components_eq]
      exact List.mem_cons_self
    have hPath : path.IsAbsolute := .of_root_mem (hSuffix.mem hRoot)
    rw [hPath.components_eq] at hSuffix ⊢
    rcases List.suffix_cons_iff.1 hSuffix with hWhole | hTail
    · exact hWhole.symm
    · exact absurd (hTail.mem hRoot) (root_not_mem_filterMap _)
  · intro hSame
    exact hSame ▸ List.suffix_refl _

def pieceComponent (piece : List Char) : Component :=
  if piece = ['.', '.'] then .up else .name (String.ofList piece)

theorem pieceComponent_injective : Function.Injective pieceComponent := by
  intro a b hEq
  unfold pieceComponent at hEq
  split at hEq
  · next hUp =>
    split at hEq
    · next hUp' => rw [hUp, hUp']
    · cases hEq
  · split at hEq
    · cases hEq
    · exact String.ofList_injective (Component.name.inj hEq)

theorem filterMap_bodyComponent? {all : List (List Char)}
    (hAll : ∀ piece ∈ all, piece ≠ [] ∧ piece ≠ ['.']) :
    all.filterMap bodyComponent? = all.map pieceComponent := by
  rw [← List.filterMap_eq_map]
  apply List.filterMap_congr
  intro piece hPiece
  obtain ⟨hEmpty, hDot⟩ := hAll piece hPiece
  rw [bodyComponent?, if_neg (not_or.2 ⟨hEmpty, hDot⟩), Function.comp_apply, pieceComponent]
  split <;> rfl

namespace IsNormal

variable {path entry : Path}

theorem bodyComponents_eq (hNormal : path.IsNormal) (hBody : path.body ≠ []) :
    path.bodyComponents = (pieces path.body).map pieceComponent :=
  filterMap_bodyComponent? (hNormal.resolve_left hBody)

theorem components_of_relative (hNormal : path.IsNormal) (hRelative : ¬path.IsAbsolute) :
    path.components = path.bodyComponents := by
  have hBody := body_of_relative hRelative
  rw [components, componentsOf_relative hRelative, bodyComponents, hBody]
  unfold relativeComponents
  split
  · next others hPieces =>
    rcases hNormal with hEmpty | hClean
    · rw [← hBody, hEmpty] at hPieces
      cases hPieces
    · rw [hBody, hPieces] at hClean
      exact absurd rfl (hClean _ List.mem_cons_self).2
  · rfl

theorem bodyComponents_suffix_iff (hPath : path.IsNormal) (hEntry : entry.IsNormal)
    (hBody : entry.body ≠ []) :
    entry.bodyComponents <:+ path.bodyComponents ↔
      path.body = entry.body ∨ '/' :: entry.body <:+ path.body := by
  rcases eq_or_ne path.body [] with hEmpty | hFull
  · -- Nothing can end with the pieces of the entry, of which there is at least one.
    have hNone : path.bodyComponents = [] := by
      rw [bodyComponents, hEmpty]
      rfl
    have hPieces : pieces entry.body ≠ [] := Text.split_ne_nil '/' _
    rw [hNone, hEmpty, hEntry.bodyComponents_eq hBody]
    simp [hPieces, hBody.symm]
  · rw [hEntry.bodyComponents_eq hBody, hPath.bodyComponents_eq hFull,
      List.suffix_map_iff_of_injective pieceComponent_injective]
    exact Text.split_suffix_iff

theorem endsWith_iff (hPath : path.IsNormal) (hEntry : entry.IsNormal)
    (hRelative : ¬entry.IsAbsolute) (hText : entry.text ≠ "") :
    path.endsWith entry = true ↔
      path = entry ∨ '/' :: entry.text.toList <:+ path.text.toList := by
  have hBody := body_of_relative hRelative
  have hFull : entry.body ≠ [] := by
    rw [hBody]
    exact fun hEmpty => hText (String.toList_inj.1 hEmpty)
  have hSuffix := hPath.bodyComponents_suffix_iff hEntry hFull
  rw [endsWith_eq_true_iff, hEntry.components_of_relative hRelative, ← hBody]
  by_cases hAbsolute : path.IsAbsolute
  · have hOther : path ≠ entry := fun hEq => hRelative (hEq ▸ hAbsolute)
    have hNotAll : entry.bodyComponents ≠ .root :: path.bodyComponents := by
      intro hAll
      apply root_not_mem_filterMap (pieces entry.body)
      rw [← bodyComponents, hAll]
      exact List.mem_cons_self
    rw [hAbsolute.components_eq, hAbsolute.text_eq, List.suffix_cons_iff, List.suffix_cons_iff,
      hSuffix]
    simp only [hNotAll, hOther, false_or, List.cons.injEq, true_and, eq_comm]
  · have hSame : path = entry ↔ path.body = entry.body := by
      rw [body_of_relative hAbsolute, hBody, String.toList_inj]
      constructor
      · exact congrArg Path.text
      · intro hSameText
        cases path
        cases entry
        exact congrArg Path.mk hSameText
    rw [hPath.components_of_relative hAbsolute, hSame, ← body_of_relative hAbsolute]
    exact hSuffix

end IsNormal

theorem endsWith_trans {path between entry : Path} (hInner : between.endsWith entry = true)
    (hOuter : path.endsWith between = true) : path.endsWith entry = true := by
  rw [endsWith_eq_true_iff] at hInner hOuter ⊢
  exact hInner.trans hOuter

end Path

/-- The file of a suppression is compared with a path by whole components, however either is
spelled. -/
theorem Suppression.covers_by_components (entry path : Path) :
    (∀ (suppression : Suppression) (finding : Finding), suppression.file = some entry →
      finding.file = path →
      (suppression.covers finding = true ↔ suppression.rule = finding.rule ∧
        path.endsWith entry = true ∧ ∀ line ∈ suppression.line, line = finding.line)) ∧
    (∀ entry' path', entry.SameSpelling entry' → path.SameSpelling path' →
      path'.endsWith entry' = path.endsWith entry) ∧
    (¬entry.IsAbsolute → entry.text ≠ "" → entry.IsNormal → path.IsNormal →
      (path.endsWith entry = true ↔
        path = entry ∨ '/' :: entry.text.toList <:+ path.text.toList)) ∧
    (entry.IsAbsolute → (path.endsWith entry = true ↔ path.components = entry.components)) ∧
    (entry.text = "" → path.endsWith entry = true) ∧
    path.endsWith path = true ∧
    ∀ between : Path, between.endsWith entry = true → path.endsWith between = true →
      path.endsWith entry = true := by
  refine ⟨?_, fun entry' path' hEntry hPath => hPath.endsWith_eq hEntry,
    fun hRelative hText hEntry hPath => hPath.endsWith_iff hEntry hRelative hText,
    fun hAbsolute => hAbsolute.endsWith_iff, ?_, path.endsWith_self,
    fun between hInner hOuter => Path.endsWith_trans hInner hOuter⟩
  · rintro suppression finding hFile rfl
    rw [Suppression.covers_eq_true_iff, hFile, Path.endsWith_eq_true_iff]
    simp only [Option.mem_some_iff, forall_eq']
  · intro hEmpty
    have hNone : entry.components = [] := by
      rw [Path.components, hEmpty]
      rfl
    rw [Path.endsWith_eq_true_iff, hNone]
    exact List.nil_suffix

/-- A suppressed file covers the path that it ends, however both are spelled, but not another file
whose name only ends with the same characters. -/
theorem Suppression.covers_by_components_legacy :
    (⟨"src/./Legacy.cs/"⟩ : Path).endsWith ⟨"Legacy.cs"⟩ = true ∧
      (⟨"src/NotLegacy.cs"⟩ : Path).endsWith ⟨"Legacy.cs"⟩ = false := by
  obtain ⟨-, hSpelling, hNormal, -⟩ :=
    Suppression.covers_by_components ⟨"Legacy.cs"⟩ ⟨"src/Legacy.cs"⟩
  obtain ⟨-, -, hOther, -⟩ := Suppression.covers_by_components ⟨"Legacy.cs"⟩ ⟨"src/NotLegacy.cs"⟩
  have hDot : Path.Respells "src/Legacy.cs".toList "src/./Legacy.cs".toList :=
    .dot "src".toList "Legacy.cs".toList
  have hSlash : Path.Respells "src/./Legacy.cs".toList "src/./Legacy.cs/".toList :=
    .lastSlash (by decide)
  constructor
  · rw [hSpelling ⟨"Legacy.cs"⟩ ⟨"src/./Legacy.cs/"⟩ (.refl _)
      (.trans _ _ _ (.rel _ _ hDot) (.rel _ _ hSlash))]
    exact (hNormal (by decide) (by decide) (by decide) (by decide)).2 (.inr (by decide))
  · rw [Bool.eq_false_iff]
    exact mt (hOther (by decide) (by decide) (by decide) (by decide)).1 (by decide)

end CostlyCalls
