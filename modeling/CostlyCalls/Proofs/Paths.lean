import CostlyCalls.Proofs.DiscoveryOrder

/-!
# Paths below a path

Joining a name to a path puts it behind the components of the path, so two paths below one path have
the same components only if they go through the same names. The order of components is
antisymmetric.
-/

set_option autoImplicit false

namespace CostlyCalls

namespace Text

theorem split_append_mark (mark : Char) (front back : List Char) :
    split mark (front ++ mark :: back) = split mark front ++ split mark back := by
  induction front with
  | nil => simp [split]
  | cons c front ih =>
    rw [List.cons_append, split, split, ih]
    split
    · rfl
    · cases hSplit : split mark front with
      | nil => exact absurd hSplit (split_ne_nil mark front)
      | cons piece others => rfl

theorem split_of_not_mem {mark : Char} {cs : List Char} (hMark : mark ∉ cs) :
    split mark cs = [cs] := by
  induction cs with
  | nil => rfl
  | cons c rest ih =>
    rw [List.mem_cons, not_or] at hMark
    rw [split, if_neg (Ne.symm hMark.1), ih hMark.2]

end Text

namespace Path

structure IsName (name : String) : Prop where
  ne_empty : name ≠ ""
  no_slash : '/' ∉ name.toList
  ne_here : name ≠ "."
  ne_up : name ≠ ".."

instance (name : String) : Decidable (IsName name) :=
  decidable_of_iff (name ≠ "" ∧ '/' ∉ name.toList ∧ name ≠ "." ∧ name ≠ "..")
    ⟨fun ⟨hEmpty, hSlash, hHere, hUp⟩ => ⟨hEmpty, hSlash, hHere, hUp⟩,
      fun ⟨hEmpty, hSlash, hHere, hUp⟩ => ⟨hEmpty, hSlash, hHere, hUp⟩⟩

theorem IsName.bodyComponent? {name : String} (hName : IsName name) :
    bodyComponent? name.toList = some (.name name) := by
  have hEmpty : name.toList ≠ [] := fun h => hName.ne_empty (String.toList_inj.1 h)
  have hHere : name.toList ≠ ['.'] := fun h => hName.ne_here (String.toList_inj.1 h)
  have hUp : name.toList ≠ ['.', '.'] := fun h => hName.ne_up (String.toList_inj.1 h)
  rw [Path.bodyComponent?, if_neg (not_or.2 ⟨hEmpty, hHere⟩), if_neg hUp, String.ofList_toList]

def relativeComponents : List (List Char) → List Component
  | ['.'] :: others => .here :: others.filterMap bodyComponent?
  | all => all.filterMap bodyComponent?

theorem componentsOf_relative {cs : List Char} (hStart : cs.head? ≠ some '/') :
    componentsOf cs = relativeComponents (pieces cs) := by
  unfold componentsOf
  split
  · rfl
  · exact absurd rfl hStart
  · rfl

theorem relativeComponents_append {all more : List (List Char)} (hAll : all ≠ []) :
    relativeComponents (all ++ more) =
      relativeComponents all ++ more.filterMap bodyComponent? := by
  unfold relativeComponents
  cases all with
  | nil => exact absurd rfl hAll
  | cons first others =>
    rw [List.cons_append]
    split
    · next hEq =>
      cases hEq
      rw [List.filterMap_append]
      rfl
    · next hOther =>
      split
      · next hEq =>
        cases hEq
        exact absurd rfl (hOther _)
      · rw [← List.cons_append, List.filterMap_append]

theorem componentsOf_append_slash {front back : List Char} (hFront : front ≠ []) :
    componentsOf (front ++ '/' :: back) =
      componentsOf front ++ (pieces back).filterMap bodyComponent? := by
  have hPieces : ∀ cs : List Char, pieces (cs ++ '/' :: back) = pieces cs ++ pieces back :=
    fun cs => Text.split_append_mark '/' cs back
  cases front with
  | nil => exact absurd rfl hFront
  | cons c rest =>
    rcases Decidable.em (c = '/') with rfl | hc
    · show .root :: (pieces (rest ++ '/' :: back)).filterMap bodyComponent? =
        .root :: (pieces rest).filterMap bodyComponent? ++ _
      rw [hPieces, List.filterMap_append, List.cons_append]
    · have hStart : ∀ cs, (c :: cs).head? ≠ some '/' := fun cs h => hc (Option.some.inj h)
      rw [List.cons_append, componentsOf_relative (hStart _), componentsOf_relative (hStart _),
        ← List.cons_append, hPieces]
      exact relativeComponents_append (Text.split_ne_nil '/' _)

theorem components_join {path : Path} {name : String} (hName : IsName name) :
    (path.join name).components = path.components ++ [.name name] := by
  have hPieces : pieces name.toList = [name.toList] := Text.split_of_not_mem hName.no_slash
  have hBody : (pieces name.toList).filterMap bodyComponent? = [.name name] := by
    rw [hPieces, List.filterMap_cons, hName.bodyComponent?]
    rfl
  unfold join components
  split
  · next hEmpty =>
    have hStart : name.toList.head? ≠ some '/' :=
      fun hHead => hName.no_slash (List.mem_of_mem_head? hHead)
    have hHere : name.toList ≠ ['.'] := fun h => hName.ne_here (String.toList_inj.1 h)
    have hRelative : relativeComponents [name.toList] = [name.toList].filterMap bodyComponent? := by
      unfold relativeComponents
      split
      · next hEq => exact absurd (List.cons.inj hEq).1 hHere
      · rfl
    rw [hEmpty, componentsOf_relative hStart, hPieces, hRelative, ← hPieces, hBody]
    rfl
  · next hText =>
    have hFront : path.text.toList ≠ [] := fun h => hText (String.toList_inj.1 h)
    split
    · next hLast =>
      obtain ⟨front, hChars⟩ := List.getLast?_eq_some_iff.1 hLast
      rw [String.toList_append, hChars, List.append_assoc, List.singleton_append]
      cases front with
      | nil =>
        show .root :: (pieces name.toList).filterMap bodyComponent? = _
        rw [hBody]
        rfl
      | cons c rest =>
        rw [componentsOf_append_slash (List.cons_ne_nil c rest),
          componentsOf_append_slash (List.cons_ne_nil c rest), hBody]
        simp [pieces, Text.split, Path.bodyComponent?]
    · have hJoined : (path.text ++ "/" ++ name).toList = path.text.toList ++ '/' :: name.toList := by
        simp
      rw [hJoined, componentsOf_append_slash hFront, hBody]

def below (path : Path) (names : List String) : Path := names.foldl join path

theorem below_cons (path : Path) (name : String) (names : List String) :
    path.below (name :: names) = (path.join name).below names := rfl

theorem components_below {path : Path} {names : List String} (hNames : ∀ name ∈ names, IsName name) :
    (path.below names).components = path.components ++ names.map .name := by
  induction names generalizing path with
  | nil => simp [below]
  | cons name names ih =>
    rw [List.forall_mem_cons] at hNames
    rw [below_cons, ih hNames.2, components_join hNames.1, List.append_assoc]
    rfl

theorem size_add_le_join (path : Path) (name : String) :
    path.text.utf8ByteSize + name.utf8ByteSize ≤ (path.join name).text.utf8ByteSize := by
  unfold join
  split
  · next hEmpty => simp [hEmpty]
  · split
    · simp [String.utf8ByteSize_append]
    · simp [String.utf8ByteSize_append, Nat.add_assoc]

theorem size_le_below (path : Path) (names : List String) :
    path.text.utf8ByteSize ≤ (path.below names).text.utf8ByteSize := by
  induction names generalizing path with
  | nil => exact Nat.le_refl _
  | cons name names ih =>
    have hJoin := size_add_le_join path name
    have hBelow := ih (path.join name)
    rw [below_cons]
    omega

theorem isTooLong_eq_false_iff {path : Path} :
    path.isTooLong = false ↔ path.text.utf8ByteSize ≤ byteLimit := by
  rw [isTooLong, decide_eq_false_iff_not, Nat.not_lt]

theorem Component.precedes_asymm {a b : Component} (hab : a.precedes b = true) :
    b.precedes a = false := by
  rw [Bool.eq_false_iff]
  intro hba
  rcases precedes_iff.1 (precedes_trans hab hba) with hLess | ⟨s, t, hs, ht, hst⟩
  · omega
  · rw [hs] at ht
    cases ht
    exact String.lt_irrefl s hst

theorem componentsLe_antisymm {as bs : List Component} (hab : componentsLe as bs = true)
    (hba : componentsLe bs as = true) : as = bs := by
  induction as generalizing bs with
  | nil =>
    cases bs with
    | nil => rfl
    | cons b bs => cases hba
  | cons a as ih =>
    cases bs with
    | nil => cases hab
    | cons b bs =>
      simp only [componentsLe, Bool.or_eq_true, Bool.and_eq_true, beq_iff_eq] at hab hba
      rcases hab with hab | ⟨rfl, hab⟩
      · rw [Component.precedes_asymm hab] at hba
        rcases hba with hba | ⟨rfl, -⟩
        · cases hba
        · rw [Component.precedes_asymm hab] at hab
          cases hab
      · rcases hba with hba | ⟨-, hba⟩
        · have hFalse := Component.precedes_asymm hba
          rw [hba] at hFalse
          cases hFalse
        · rw [ih hab hba]

end Path

end CostlyCalls
