import Mathlib.Data.List.Basic
import Mathlib.Logic.Relation
import CostlyCalls.Proofs.Json.Records
import CostlyCalls.Proofs.Snapshot.Edits

/-!
# Fields of edited values

A harmless edit is not seen through the fields of a record, whether they are found by names or, in
an array, by positions: a field is the same as before, or the edit was made inside it. The
same holds for what follows a tag, and the edit does not change whether the value is sound.
-/

set_option autoImplicit false

namespace CostlyCalls

open Json

namespace Json

theorem mapM_congr_mem {α β : Type} {f g : α → Option β} {items : List α}
    (hItems : ∀ a ∈ items, f a = g a) : items.mapM f = items.mapM g := by
  induction items with
  | nil => rfl
  | cons a more ih =>
    rw [List.forall_mem_cons] at hItems
    rw [List.mapM_cons, List.mapM_cons, hItems.1, ih hItems.2]

theorem valuesOf_append (key : String) (front back : List Member) :
    valuesOf key (front ++ back) = valuesOf key front ++ valuesOf key back :=
  List.filterMap_append

theorem unique?_perm {members others : List Member} (hPerm : members.Perm others) (key : String) :
    unique? key members = unique? key others := by
  have hValues : (valuesOf key members).Perm (valuesOf key others) := hPerm.filterMap _
  have hLength := hValues.length_eq
  unfold unique?
  cases hMembers : valuesOf key members with
  | nil =>
    rw [hMembers] at hValues
    rw [hValues.nil_eq]
  | cons v more =>
    rw [hMembers] at hValues hLength
    cases more with
    | nil => rw [List.singleton_perm.1 hValues]
    | cons w more =>
      rcases hOthers : valuesOf key others with _ | ⟨x, _ | ⟨y, rest⟩⟩
      · rw [hOthers] at hLength
        cases hLength
      · rw [hOthers] at hLength
        cases hLength
      · rfl

theorem unique?_insert {front back : List Member} {key name : String} {v : Value}
    (hKey : key ≠ name) :
    unique? name (front ++ (some key, v) :: back) = unique? name (front ++ back) := by
  have hOther : ((some key, v) : Member).1 ≠ some name := fun h => hKey (Option.some.inj h)
  rw [unique?, unique?, valuesOf_append, valuesOf_append, valuesOf_cons, if_neg hOther]

theorem unique?_filter {name : String} {keep : Text → Bool} (hName : keep (some name) = true)
    (members : List Member) :
    unique? name (members.filter fun m => keep m.1) = unique? name members := by
  have hValues : valuesOf name (members.filter fun m => keep m.1) = valuesOf name members := by
    rw [valuesOf, List.filterMap_filter]
    refine List.filterMap_congr fun m _ => ?_
    split
    · rfl
    · next hKeep =>
      rw [if_neg]
      intro hKey
      exact hKeep (hKey ▸ hName)
  rw [unique?, unique?, hValues]

theorem fields?_filter {names : List String} (keep : Text → Bool) (hNone : keep none = true)
    (hNames : ∀ name ∈ names, keep (some name) = true) (members : List Member) :
    fields? names (.object (members.filter fun m => keep m.1)) = fields? names (.object members) := by
  have hKeys : (members.filter fun m => keep m.1).all (fun m => m.1.isSome) =
      members.all (fun m => m.1.isSome) := by
    rw [List.all_filter]
    refine List.all_congr rfl fun m => ?_
    cases m.1 with
    | none => simp [hNone]
    | some name => simp
  rw [fields?, fields?, hKeys, mapM_congr_mem fun name hName => unique?_filter (hNames name hName) _]

theorem tagged?_object (indexed : Bool) (tags : List String) (members : List Member) :
    tagged? indexed tags (.object members) =
      ((unique? tagKey members).bind fun field => field.bind (tag? indexed tags)).map fun tag =>
        (tag, .object (members.filter fun m => m.1 ≠ some tagKey)) := by
  rw [tagged?]
  cases unique? tagKey members with
  | none => rfl
  | some field =>
    rw [Option.bind_some]
    show (field.bind (tag? indexed tags)).bind _ = _
    cases field.bind (tag? indexed tags) <;> rfl

theorem rel_imp {α β : Type} {r s : α → β → Prop} {a : Option α} {b : Option β}
    (hImp : ∀ x y, r x y → s x y) (hRel : Option.Rel r a b) : Option.Rel s a b := by
  cases hRel with
  | none => exact .none
  | some hxy => exact .some (hImp _ _ hxy)

theorem bind_eq_of_rel {α β γ : Type} {r : α → β → Prop} {a : Option α} {b : Option β}
    {f : α → Option γ} {g : β → Option γ} (hRel : Option.Rel r a b)
    (hResult : ∀ x y, r x y → f x = g y) : a.bind f = b.bind g := by
  cases hRel with
  | none => rfl
  | some hxy => exact hResult _ _ hxy

end Json

abbrev Alike (part : Part) (room : Nat) : Value → Value → Prop :=
  Relation.ReflGen (Edit Harmless part room)

inductive FieldsAlike (room : Nat) :
    List (String × Part) → List (Option Value) → List (Option Value) → Prop
  | nil : FieldsAlike room [] [] []
  | cons {name : String} {part : Part} {fields : List (String × Part)} {x y : Option Value}
      {xs ys : List (Option Value)} (hField : Option.Rel (Alike part room) x y)
      (hFields : FieldsAlike room fields xs ys) :
      FieldsAlike room ((name, part) :: fields) (x :: xs) (y :: ys)

theorem alike_refl (part : Part) (room : Nat) (x : Option Value) :
    Option.Rel (Alike part room) x x := by
  cases x with
  | none => exact .none
  | some v => exact .some .refl

theorem FieldsAlike.refl {room : Nat} {fields : List (String × Part)} {xs : List (Option Value)}
    (hLength : xs.length = fields.length) : FieldsAlike room fields xs xs := by
  induction fields generalizing xs with
  | nil =>
    rw [List.length_eq_zero_iff.1 hLength]
    exact .nil
  | cons field fields ih =>
    obtain ⟨x, xs, rfl⟩ := List.exists_cons_of_length_eq_add_one hLength
    exact .cons (alike_refl field.2 room x) (ih (Nat.succ.inj hLength))

section Objects

variable {part : Part} {room : Nat} {members others : List Member}

theorem all_eq_of_edit {test : Member → Bool}
    (hEdit : Edit Harmless part room (.object members) (.object others))
    (hAdded : ∀ key v, key ∉ (part.fields (.object members)).map Prod.fst →
      (part.isChecked = true → v.isSound (room - 1) = true) → test (some key, v) = true)
    (hEdited : ∀ key v w, (key, v) ∈ members →
      Edit Harmless (part.ofMember (.object members) key) (room - 1) v w →
        test (key, v) = test (key, w)) :
    members.all test = others.all test := by
  cases hEdit with
  | here hChange =>
    cases hChange with
    | reordered _ hPerm => exact hPerm.all_eq
    | inserted hInserted =>
      cases hInserted with
      | intro _ hKey hSound =>
        rw [List.all_append, List.all_append, List.all_cons, hAdded _ _ hKey hSound, Bool.true_and]
  | member hInner =>
    rw [List.all_append, List.all_append, List.all_cons, List.all_cons,
      hEdited _ _ _ (by simp) hInner]

theorem unique?_alike (hEdit : Edit Harmless part room (.object members) (.object others))
    {field : String × Part} (hField : field ∈ part.fields (.object members)) :
    Option.Rel (Option.Rel (Alike field.2 (room - 1))) (unique? field.1 members)
      (unique? field.1 others) := by
  have hRefl : ∀ x : Option (Option Value),
      Option.Rel (Option.Rel (Alike field.2 (room - 1))) x x := by
    intro x
    cases x with
    | none => exact .none
    | some y => exact .some (alike_refl _ _ y)
  cases hEdit with
  | here hChange =>
    cases hChange with
    | reordered _ hPerm =>
      rw [unique?_perm hPerm]
      exact hRefl _
    | inserted hInserted =>
      cases hInserted with
      | @intro front back key v _ hKey _ =>
        have hOther : key ≠ field.1 := by
          rintro rfl
          exact hKey (List.mem_map_of_mem hField)
        rw [unique?_insert hOther]
        exact hRefl _
  | @member _ _ front back key v w hInner =>
    rw [unique?, unique?, valuesOf_append, valuesOf_append, valuesOf_cons, valuesOf_cons]
    rcases Decidable.em (key = some field.1) with rfl | hKey
    · rw [if_pos rfl, if_pos rfl]
      rw [Part.ofMember_of_mem hField] at hInner
      cases valuesOf field.1 front with
      | nil =>
        cases valuesOf field.1 back with
        | nil => exact .some (.some (.single hInner))
        | cons => exact .none
      | cons x xs =>
        cases xs <;> exact .none
    · rw [if_neg hKey, if_neg hKey]
      exact hRefl _

theorem mapM_unique?_alike (hEdit : Edit Harmless part room (.object members) (.object others))
    {fields : List (String × Part)} (hFields : fields ⊆ part.fields (.object members)) :
    Option.Rel (FieldsAlike (room - 1) fields)
      ((fields.map Prod.fst).mapM fun name => unique? name members)
      ((fields.map Prod.fst).mapM fun name => unique? name others) := by
  induction fields with
  | nil => exact .some .nil
  | cons field fields ih =>
    obtain ⟨hField, hFields⟩ := List.cons_subset.1 hFields
    have hRest := ih hFields
    have hUnique := unique?_alike hEdit hField
    rw [List.map_cons, List.mapM_cons, List.mapM_cons]
    generalize unique? field.1 members = x at hUnique ⊢
    generalize unique? field.1 others = y at hUnique ⊢
    generalize (fields.map Prod.fst).mapM (fun name => unique? name members) = xs at hRest ⊢
    generalize (fields.map Prod.fst).mapM (fun name => unique? name others) = ys at hRest ⊢
    cases hUnique with
    | none => exact .none
    | some hField =>
      cases hRest with
      | none => exact .none
      | some hFields => exact .some (.cons hField hFields)

theorem fields?_object_alike (hEdit : Edit Harmless part room (.object members) (.object others))
    {fields : List (String × Part)} (hFields : fields ⊆ part.fields (.object members)) :
    Option.Rel (FieldsAlike (room - 1) fields) (fields? (fields.map Prod.fst) (.object members))
      (fields? (fields.map Prod.fst) (.object others)) := by
  have hKeys : members.all (fun m => m.1.isSome) = others.all (fun m => m.1.isSome) :=
    all_eq_of_edit hEdit (fun _ _ _ _ => rfl) fun _ _ _ _ _ => rfl
  rw [fields?, fields?, hKeys]
  split
  · exact mapM_unique?_alike hEdit hFields
  · exact .none

end Objects

theorem fieldsAlike_of_item {room : Nat} {fields : List (String × Part)} {front back : List Value}
    {missing : List (Option Value)} {v w : Value}
    (hLength : ((front ++ v :: back).map some ++ missing).length = fields.length)
    (hEdit : ∀ field, fields[front.length]? = some field → Edit Harmless field.2 room v w) :
    FieldsAlike room fields ((front ++ v :: back).map some ++ missing)
      ((front ++ w :: back).map some ++ missing) := by
  induction front generalizing fields with
  | nil =>
    obtain ⟨field, fields, rfl⟩ := List.exists_cons_of_length_eq_add_one hLength.symm
    exact .cons (.some (.single (hEdit field rfl))) (.refl (Nat.succ.inj hLength))
  | cons first front ih =>
    obtain ⟨field, fields, rfl⟩ := List.exists_cons_of_length_eq_add_one hLength.symm
    exact .cons (.some .refl) (ih (Nat.succ.inj hLength) hEdit)

theorem fields?_array_alike {room : Nat} {fields : List (String × Part)} {front back : List Value}
    {v w : Value}
    (hEdit : ∀ field, fields[front.length]? = some field → Edit Harmless field.2 room v w) :
    Option.Rel (FieldsAlike room fields) (fields? (fields.map Prod.fst) (.array (front ++ v :: back)))
      (fields? (fields.map Prod.fst) (.array (front ++ w :: back))) := by
  have hLength : (front ++ w :: back).length = (front ++ v :: back).length := by simp
  rw [fields?, fields?, hLength]
  split
  · next hFits =>
    refine .some (fieldsAlike_of_item ?_ hEdit)
    rw [List.length_append, List.length_map, List.length_replicate]
    rw [List.length_map] at hFits ⊢
    omega
  · exact .none

theorem Part.ofItem_of_getElem? {part : Part} {v : Value} {index : Nat} {field : String × Part}
    (hField : (part.fields v)[index]? = some field) : part.ofItem v index = field.2 := by
  rw [ofItem, hField, Option.map_some, Option.getD_some]

/-- The fields of a record are not seen to be edited but inside their own values. -/
theorem fields?_alike {part : Part} {room : Nat} {v w : Value} (hEdit : Edit Harmless part room v w) :
    Option.Rel (FieldsAlike (room - 1) (part.fields v)) (fields? ((part.fields v).map Prod.fst) v)
      (fields? ((part.fields v).map Prod.fst) w) := by
  cases hEdit with
  | here hChange => exact fields?_object_alike (.here hChange) (List.Subset.refl _)
  | member hInner => exact fields?_object_alike (.member hInner) (List.Subset.refl _)
  | item hInner =>
    refine fields?_array_alike fun field hField => ?_
    rwa [Part.ofItem_of_getElem? hField] at hInner

structure ContentAlike (room : Nat) (fieldsOf : String → List (String × Part))
    (t u : String × Value) : Prop where
  tag_eq : t.1 = u.1
  unit_eq : unit? t.2 = unit? u.2
  fields : Option.Rel (FieldsAlike room (fieldsOf t.1)) (fields? ((fieldsOf t.1).map Prod.fst) t.2)
    (fields? ((fieldsOf t.1).map Prod.fst) u.2)

/-- What follows the tag of an object and of an edited one. Any field can be read without the
others. -/
structure ObjectAlike (room : Nat) (fieldsOf : String → List (String × Part))
    (t u : String × Value) : Prop where
  tag_eq : t.1 = u.1
  unit_eq : unit? t.2 = unit? u.2
  fields : ∀ fields ⊆ fieldsOf t.1, Option.Rel (FieldsAlike room fields)
    (fields? (fields.map Prod.fst) t.2) (fields? (fields.map Prod.fst) u.2)

theorem ObjectAlike.contentAlike {room : Nat} {fieldsOf : String → List (String × Part)}
    {t u : String × Value} (hAlike : ObjectAlike room fieldsOf t u) :
    ContentAlike room fieldsOf t u :=
  ⟨hAlike.tag_eq, hAlike.unit_eq, hAlike.fields _ (List.Subset.refl _)⟩

theorem tag?_eq_none_of_edit {change : Change} {part : Part} {room : Nat} {v w : Value}
    (hEdit : Edit change part room v w) (indexed : Bool) (tags : List String) :
    tag? indexed tags v = none ∧ tag? indexed tags w = none := by
  cases hEdit <;> exact ⟨rfl, rfl⟩

section Tagged

variable {part : Part} {room : Nat} {indexed : Bool} {tags : List String}
  {fieldsOf : String → List (String × Part)}

/-- Members that are neither the tag nor fields may be dropped before the tag is read. -/
theorem tagged?_filter_alike {members others : List Member}
    (hEdit : Edit Harmless part room (.object members) (.object others)) (keep : Text → Bool)
    (hNone : keep none = true) (hKeepTag : keep (some tagKey) = true)
    (hKeep : ∀ tag, ∀ name ∈ (fieldsOf tag).map Prod.fst, name ≠ tagKey ∧ keep (some name) = true)
    (hTag : (tagKey, .other) ∈ part.fields (.object members))
    (hFields : Part.fieldsOfTagged indexed tags fieldsOf (.object members) ⊆
      part.fields (.object members)) :
    Option.Rel (ObjectAlike (room - 1) fieldsOf)
      (tagged? indexed tags (.object (members.filter fun m => keep m.1)))
      (tagged? indexed tags (.object (others.filter fun m => keep m.1))) := by
  have hTags : ((unique? tagKey members).bind fun field => field.bind (tag? indexed tags)) =
      (unique? tagKey others).bind fun field => field.bind (tag? indexed tags) := by
    refine bind_eq_of_rel (unique?_alike hEdit hTag) fun x y hxy => ?_
    refine bind_eq_of_rel hxy fun v w hvw => ?_
    cases hvw with
    | refl => rfl
    | single hInner =>
      obtain ⟨hv, hw⟩ := tag?_eq_none_of_edit hInner indexed tags
      rw [hv, hw]
  rw [Part.fieldsOfTagged, tagged?_object] at hFields
  rw [tagged?_object, tagged?_object, unique?_filter hKeepTag, unique?_filter hKeepTag, ← hTags]
  cases hTagOf : (unique? tagKey members).bind fun field => field.bind (tag? indexed tags) with
  | none => exact .none
  | some tag =>
    rw [hTagOf] at hFields
    refine .some ⟨rfl, rfl, fun fields hSub => ?_⟩
    have hNames := List.map_subset Prod.fst hSub
    have hRest := fields?_filter (fun key => key ≠ some tagKey) rfl fun name hName =>
      decide_eq_true fun hEq => (hKeep tag name (hNames hName)).1 (Option.some.inj hEq)
    have hKept := fields?_filter keep hNone fun name hName => (hKeep tag name (hNames hName)).2
    rw [hRest, hRest, hKept, hKept]
    exact fields?_object_alike hEdit (List.Subset.trans hSub hFields)

theorem tagged?_object_alike {members others : List Member}
    (hEdit : Edit Harmless part room (.object members) (.object others))
    (hKeys : ∀ tag, tagKey ∉ (fieldsOf tag).map Prod.fst)
    (hFields : part.fields (.object members) =
      (tagKey, .other) :: Part.fieldsOfTagged indexed tags fieldsOf (.object members)) :
    Option.Rel (ContentAlike (room - 1) fieldsOf) (tagged? indexed tags (.object members))
      (tagged? indexed tags (.object others)) := by
  have hAll : ∀ ms : List Member, (ms.filter fun _ => true) = ms := fun ms => by simp
  rw [← hAll members, ← hAll others]
  refine rel_imp (fun _ _ => ObjectAlike.contentAlike) ?_
  refine tagged?_filter_alike hEdit (fun _ => true) rfl rfl (fun tag name hName => ⟨?_, rfl⟩) ?_ ?_
  · rintro rfl
    exact hKeys tag hName
  · rw [hFields]
    exact List.mem_cons_self
  · rw [hFields]
    exact List.subset_cons_self _ _

theorem tagged?_alike {v w : Value} (hEdit : Edit Harmless part room v w)
    (hKeys : ∀ tag, tagKey ∉ (fieldsOf tag).map Prod.fst)
    (hFields : part.fields v = (tagKey, .other) :: Part.fieldsOfTagged indexed tags fieldsOf v) :
    Option.Rel (ContentAlike (room - 1) fieldsOf) (tagged? indexed tags v)
      (tagged? indexed tags w) := by
  cases hEdit with
  | here hChange => exact tagged?_object_alike (.here hChange) hKeys hFields
  | member hInner => exact tagged?_object_alike (.member hInner) hKeys hFields
  | @item _ _ front back v w hInner =>
    cases front with
    | nil =>
      obtain ⟨hv, hw⟩ := tag?_eq_none_of_edit hInner indexed tags
      rw [List.nil_append, List.nil_append, tagged?, tagged?, hv, hw]
      exact .none
    | cons first front =>
      rw [Part.fieldsOfTagged, List.cons_append, tagged?] at hFields
      rw [List.cons_append, List.cons_append, tagged?, tagged?]
      cases hTag : tag? indexed tags first with
      | none => exact .none
      | some tag =>
        rw [hTag] at hFields
        have hUnit : unit? (.array (front ++ v :: back)) = unit? (.array (front ++ w :: back)) := by
          cases front <;> rfl
        refine .some ⟨rfl, hUnit, fields?_array_alike fun field hField => ?_⟩
        have hItem : (part.fields (.array (first :: (front ++ v :: back))))[front.length + 1]? =
            some field := by
          rw [hFields]
          exact hField
        rwa [List.cons_append, List.length_cons, Part.ofItem_of_getElem? hItem] at hInner

end Tagged

theorem Json.Value.areSound_eq_all (room : Nat) (items : List Value) :
    areSound room items = items.all fun v => v.isSound room := by
  induction items with
  | nil => rfl
  | cons v more ih => rw [areSound, ih, List.all_cons]

theorem Json.Value.membersSound_eq_all (room : Nat) (members : List Member) :
    membersSound room members = members.all fun m => m.1.isSome && m.2.isSound room := by
  induction members with
  | nil => rfl
  | cons m more ih => rw [membersSound, ih, List.all_cons]

theorem Part.forall_mem_fieldsOfTagged {indexed : Bool} {tags : List String}
    {fieldsOf : String → List (String × Part)} {p : String × Part → Prop}
    (hFields : ∀ tag, ∀ field ∈ fieldsOf tag, p field) (v : Value) :
    ∀ field ∈ fieldsOfTagged indexed tags fieldsOf v, p field := by
  rw [fieldsOfTagged]
  cases tagged? indexed tags v with
  | none => exact List.forall_mem_nil p
  | some t => exact hFields t.1

theorem Part.isChecked_of_mem_fields {part : Part} {v : Value} (hPart : part.isChecked = true) :
    ∀ field ∈ part.fields v, (part = .node → field.1 ≠ "span") →
      field.2.isChecked = true ∧ field.2 ≠ .node := by
  cases part with
  | node =>
    rw [fields, List.forall_mem_append, List.forall_mem_cons]
    refine ⟨by decide, by decide, forall_mem_fieldsOfTagged (fun tag => ?_) v⟩
    unfold fieldsOfShape
    cases Kind.all.find? fun kind => kind.tag == tag with
    | none => decide
    | some kind => cases kind <;> decide
  | symbol =>
    rw [fields, List.forall_mem_cons]
    refine ⟨by decide, forall_mem_fieldsOfTagged (fun tag => ?_) v⟩
    unfold fieldsOfSymbol
    split <;> decide
  | type indexed =>
    rw [fields, List.forall_mem_cons]
    refine ⟨by simp [isChecked], forall_mem_fieldsOfTagged (fun tag => ?_) v⟩
    unfold fieldsOfType
    split <;> simp [isChecked]
  | other => exact List.forall_mem_nil _
  | _ => cases hPart

theorem Part.rest_of_isChecked {part : Part} (hPart : part.isChecked = true) :
    part.rest = .other := by
  cases part with
  | node | symbol | type _ | other => rfl
  | _ => cases hPart

theorem Part.isChecked_ofMember {part : Part} {v : Value} {key : Text}
    (hPart : part.isChecked = true) (hSpan : part = .node → key ≠ some "span") :
    (part.ofMember v key).isChecked = true ∧ part.ofMember v key ≠ .node := by
  rw [ofMember, rest_of_isChecked hPart]
  cases hField : key.bind fun name => (part.fields v).lookup name with
  | none => exact ⟨rfl, by decide⟩
  | some field =>
    obtain ⟨name, rfl, hLookup⟩ := Option.bind_eq_some_iff.1 hField
    have hMem := (Keyed.lookup_eq_some_iff (part.nodup_fields v)).1 hLookup
    exact isChecked_of_mem_fields hPart _ hMem fun hNode hName =>
      hSpan hNode (congrArg some hName)

theorem Part.isChecked_ofItem {part : Part} {v : Value} {index : Nat}
    (hPart : part.isChecked = true) (hNode : part ≠ .node) :
    (part.ofItem v index).isChecked = true ∧ part.ofItem v index ≠ .node := by
  rw [ofItem, rest_of_isChecked hPart]
  cases hField : (part.fields v)[index]? with
  | none => exact ⟨rfl, by decide⟩
  | some field =>
    exact isChecked_of_mem_fields hPart field (List.mem_of_getElem? hField) fun h => absurd h hNode

theorem Edit.exists_object {change : Change} {part : Part} {room : Nat} {members : List Member}
    {w : Value} (hEdit : Edit change part room (.object members) w) :
    ∃ others, w = .object others := by
  cases hEdit <;> exact ⟨_, rfl⟩

theorem isSound_of_edit {part : Part} {room : Nat} {v w : Value}
    (hEdit : Edit Harmless part room v w) (hPart : part.isChecked = true) (hNode : part ≠ .node) :
    v.isSound room = w.isSound room := by
  induction v using Value.inductionOn generalizing part room w with
  | array items ih =>
    cases hEdit with
    | item hInner =>
      obtain ⟨hChecked, hOther⟩ := Part.isChecked_ofItem hPart hNode
      rw [Value.isSound, Value.isSound, Value.areSound_eq_all, Value.areSound_eq_all,
        List.all_append, List.all_append, List.all_cons, List.all_cons,
        ih _ (by simp) hInner hChecked hOther]
  | object members ih =>
    obtain ⟨others, rfl⟩ := hEdit.exists_object
    rw [Value.isSound, Value.isSound, Value.membersSound_eq_all, Value.membersSound_eq_all]
    congr 1
    refine all_eq_of_edit hEdit (fun key v _ hSound => hSound hPart) fun key v w hMem hInner => ?_
    obtain ⟨hChecked, hOther⟩ := Part.isChecked_ofMember hPart fun h => absurd h hNode
    exact congrArg (key.isSome && ·) (ih _ hMem hInner hChecked hOther)
  | _ => cases hEdit

end CostlyCalls
