import Mathlib.Data.List.Nodup
import Mathlib.Data.List.Perm.Basic
import CostlyCalls.Proofs.Json.Nesting
import CostlyCalls.Proofs.Json.Reading
import CostlyCalls.Proofs.Snapshot.EditedFields

/-!
# Members in any order

Reading a snapshot does not depend on the order of the members of its objects, as long as no object
repeats a key, nor on members that are no fields. Every part is read from an edited value as it was
read before, from the scalars up to the snapshot. A member that is added to a node, a symbol or a
type is not read, and still has to hold what can be read: `parse?_refuses_overflow` shows one.
-/

set_option autoImplicit false

namespace CostlyCalls

open Json

section Scalars

variable {part : Part} {room : Nat} {v w : Value}

theorem text?_of_edit (hEdit : Edit Harmless part room v w) : text? v = text? w := by
  cases hEdit <;> rfl

theorem uint64?_of_edit (hEdit : Edit Harmless part room v w) : uint64? v = uint64? w := by
  cases hEdit <;> rfl

theorem NodeId.ofJson?_of_edit (hEdit : Edit Harmless part room v w) :
    NodeId.ofJson? v = NodeId.ofJson? w := by
  cases hEdit <;> rfl

end Scalars

section Decoding

variable {α : Type} {decode : Value → Option α} {part : Part} {room : Nat} {x y : Option Value}

theorem required?_alike (hField : Option.Rel (Alike part room) x y)
    (hDecode : ∀ v w, Edit Harmless part room v w → decode v = decode w) :
    required? decode x = required? decode y := by
  refine bind_eq_of_rel hField fun v w hvw => ?_
  cases hvw with
  | refl => rfl
  | single hEdit => exact hDecode v w hEdit

theorem optional?_alike (hField : Option.Rel (Alike part room) x y)
    (hDecode : ∀ v w, Edit Harmless part room v w → decode v = decode w) :
    optional? decode x = optional? decode y := by
  cases hField with
  | none => rfl
  | @some v w hvw =>
    cases hvw with
    | refl => rfl
    | single hEdit =>
      have hValues : optional? decode (some v) = (decode v).map some ∧
          optional? decode (some w) = (decode w).map some := by
        cases hEdit <;> exact ⟨rfl, rfl⟩
      rw [hValues.1, hValues.2, hDecode v w hEdit]

theorem defaulted?_alike {default : α} (hField : Option.Rel (Alike part room) x y)
    (hDecode : ∀ v w, Edit Harmless part room v w → decode v = decode w) :
    defaulted? default decode x = defaulted? default decode y := by
  cases hField with
  | none => rfl
  | @some v w hvw =>
    cases hvw with
    | refl => rfl
    | single hEdit => exact hDecode v w hEdit

theorem list?_of_edit {v w : Value} (hEdit : Edit Harmless part room v w)
    (hFields : ∀ items, part.fields (.array items) = [])
    (hDecode : ∀ v w, Edit Harmless part.rest (room - 1) v w → decode v = decode w) :
    list? decode v = list? decode w := by
  cases hEdit with
  | here => rfl
  | member => rfl
  | item hInner =>
    rw [Part.ofItem, hFields] at hInner
    rw [list?, list?, List.mapM_append, List.mapM_append, List.mapM_cons, List.mapM_cons,
      hDecode _ _ hInner]

end Decoding

namespace StaticType

theorem ofJson?_of_edit {indexed : Bool} {room : Nat} {v w : Value}
    (hEdit : Edit Harmless (.type indexed) room v w) (nesting : Nat) :
    ofJson? nesting indexed v = ofJson? nesting indexed w := by
  induction nesting generalizing indexed room v w with
  | zero => rfl
  | succ nesting ih =>
    have hKeys : ∀ tag, tagKey ∉ (Part.fieldsOfType tag).map Prod.fst :=
      fun tag => (List.nodup_cons.1 (Part.nodup_fieldsOfType tag)).1
    refine bind_eq_of_rel (tagged?_alike hEdit hKeys rfl) ?_
    rintro ⟨tag, content⟩ ⟨_, edited⟩ ⟨rfl, hUnit, hFields⟩
    dsimp only at hUnit hFields ⊢
    split
    · refine bind_eq_of_rel hFields fun xs ys hxy => ?_
      obtain _ | ⟨hElement, _ | _⟩ := hxy
      dsimp only
      rw [required?_alike hElement fun v w hEdit => ih hEdit]
    · refine bind_eq_of_rel hFields fun xs ys hxy => ?_
      obtain _ | ⟨hName, _ | _⟩ := hxy
      dsimp only
      rw [required?_alike hName fun v w => text?_of_edit]
    · refine bind_eq_of_rel hFields fun xs ys hxy => ?_
      obtain _ | ⟨hName, _ | _⟩ := hxy
      dsimp only
      rw [required?_alike hName fun v w => text?_of_edit]
    · rw [hUnit]
    · rw [hUnit]

end StaticType

theorem Symbol.ofJson?_of_edit {room : Nat} {v w : Value} (hEdit : Edit Harmless .symbol room v w)
    (nesting : Nat) : ofJson? nesting v = ofJson? nesting w := by
  have hKeys : ∀ tag, tagKey ∉ (Part.fieldsOfSymbol tag).map Prod.fst :=
    fun tag => (List.nodup_cons.1 (Part.nodup_fieldsOfSymbol tag)).1
  refine bind_eq_of_rel (tagged?_alike hEdit hKeys rfl) ?_
  rintro ⟨tag, content⟩ ⟨_, edited⟩ ⟨rfl, -, hFields⟩
  dsimp only at hFields ⊢
  unfold Part.fieldsOfSymbol at hFields
  cases hRole : roleOf? tag with
  | some role =>
    rw [hRole] at hFields
    refine bind_eq_of_rel hFields fun xs ys hxy => ?_
    obtain _ | ⟨hName, _ | ⟨hType, _ | _⟩⟩ := hxy
    dsimp only
    rw [required?_alike hName fun v w => text?_of_edit,
      required?_alike hType fun v w hEdit => StaticType.ofJson?_of_edit hEdit nesting]
  | none =>
    rw [hRole] at hFields
    refine bind_eq_of_rel hFields fun xs ys hxy => ?_
    obtain _ | ⟨hName, _ | ⟨hContaining, _ | ⟨hCount, _ | ⟨hReturn, _ | _⟩⟩⟩⟩ := hxy
    dsimp only
    rw [required?_alike hName fun v w => text?_of_edit,
      optional?_alike hContaining fun v w => text?_of_edit,
      defaulted?_alike hCount fun v w => uint64?_of_edit,
      optional?_alike hReturn fun v w hEdit => StaticType.ofJson?_of_edit hEdit nesting]

theorem Span.ofJson?_of_edit {room : Nat} {v w : Value} (hEdit : Edit Harmless .span room v w) :
    ofJson? v = ofJson? w := by
  refine bind_eq_of_rel (fields?_alike hEdit) fun xs ys hxy => ?_
  obtain _ | ⟨hLine, _ | ⟨hColumn, _ | ⟨hEndLine, _ | ⟨hEndColumn, _ | _⟩⟩⟩⟩ := hxy
  dsimp only
  rw [required?_alike hLine fun v w => uint64?_of_edit,
    required?_alike hColumn fun v w => uint64?_of_edit,
    optional?_alike hEndLine fun v w => uint64?_of_edit,
    optional?_alike hEndColumn fun v w => uint64?_of_edit]

theorem TypeEntry.ofJson?_of_edit {room : Nat} {v w : Value} (hEdit : Edit Harmless .entry room v w) :
    ofJson? v = ofJson? w := by
  refine bind_eq_of_rel (fields?_alike hEdit) fun xs ys hxy => ?_
  obtain _ | ⟨hInterfaces, _ | ⟨hBase, _ | _⟩⟩ := hxy
  dsimp only
  rw [defaulted?_alike hInterfaces fun v w hEdit =>
      list?_of_edit hEdit (fun _ => rfl) fun v w => text?_of_edit,
    optional?_alike hBase fun v w => text?_of_edit]

theorem Json.mapM_eq_filterMap {α β : Type} (f : α → Option β) (items : List α) :
    items.mapM f =
      if items.all (fun a => (f a).isSome) then some (items.filterMap f) else none := by
  induction items with
  | nil => rfl
  | cons a more ih =>
    rw [List.mapM_cons, ih, List.all_cons, List.filterMap_cons]
    cases f a with
    | none => rfl
    | some b =>
      cases more.all fun a => (f a).isSome <;> rfl

theorem TypeEntry.insertSorted_comm {a b : String} (hNe : a ≠ b) (x y : TypeEntry)
    (entries : List (String × TypeEntry)) :
    insertSorted a x (insertSorted b y entries) = insertSorted b y (insertSorted a x entries) := by
  induction entries with
  | nil => grind [insertSorted]
  | cons head more ih => grind [insertSorted]

namespace TypeTable

theorem insert_comm {a b : String} (hNe : a ≠ b) (x y : TypeEntry) (table : TypeTable) :
    (table.insert a x).insert b y = (table.insert b y).insert a x := by
  unfold insert
  simp only [TypeEntry.insertSorted_comm hNe.symm]

theorem ofList_perm {entries others : List (String × TypeEntry)} (hPerm : entries.Perm others)
    (hDistinct : (entries.map Prod.fst).Nodup) : ofList entries = ofList others := by
  refine hPerm.foldl_eq' (fun a ha b hb table => ?_) empty
  rcases Decidable.em (a = b) with rfl | hNe
  · rfl
  · exact insert_comm (fun hEq => hNe (List.inj_on_of_nodup_map hDistinct ha hb hEq)) a.2 b.2 table

def entryOf? (m : Member) : Option (String × TypeEntry) := do
  return (← m.1, ← TypeEntry.ofJson? m.2)

theorem ofJson?_object (members : List Member) :
    ofJson? (.object members) = (members.mapM entryOf?).map ofList := rfl

theorem name_eq_of_entryOf? {m : Member} (hEntry : (entryOf? m).isSome = true) :
    (entryOf? m).map Prod.fst = m.1 := by
  obtain ⟨entry, hEntry⟩ := Option.isSome_iff_exists.1 hEntry
  obtain ⟨name, hName, hRest⟩ := Option.bind_eq_some_iff.1 hEntry
  obtain ⟨_, _, hRest⟩ := Option.bind_eq_some_iff.1 hRest
  cases hRest
  rw [hEntry, hName, Option.map_some]

theorem ofJson?_of_perm {members others : List Member} (hPerm : members.Perm others)
    (hDistinct : (members.filterMap Prod.fst).Nodup) :
    ofJson? (.object members) = ofJson? (.object others) := by
  rw [ofJson?_object, ofJson?_object, mapM_eq_filterMap, mapM_eq_filterMap, hPerm.all_eq]
  split
  · next hAll =>
    have hNames : (members.filterMap entryOf?).map Prod.fst = members.filterMap Prod.fst := by
      rw [List.map_filterMap]
      refine List.filterMap_congr fun m hm => name_eq_of_entryOf? ?_
      exact List.all_eq_true.1 hAll m (hPerm.mem_iff.1 hm)
    rw [Option.map_some, Option.map_some, ofList_perm (hPerm.filterMap _) (hNames ▸ hDistinct)]
  · rfl

theorem ofJson?_of_edit {room : Nat} {v w : Value} (hEdit : Edit Harmless .types room v w) :
    ofJson? v = ofJson? w := by
  cases hEdit with
  | here hChange =>
    cases hChange with
    | reordered hDistinct hPerm => exact ofJson?_of_perm hPerm hDistinct
    | inserted hInserted =>
      cases hInserted with
      | intro hPart => exact absurd rfl hPart
  | @member _ _ front back key v w hInner =>
    have hPart : Part.types.ofMember (.object (front ++ (key, v) :: back)) key = .entry := by
      cases key <;> rfl
    rw [hPart] at hInner
    rw [ofJson?, ofJson?, List.mapM_append, List.mapM_append, List.mapM_cons, List.mapM_cons,
      TypeEntry.ofJson?_of_edit hInner]
  | item => rfl

end TypeTable

namespace Shape

theorem keeps_of_mem_fields {tag name : String}
    (hName : name ∈ (Part.fieldsOfShape tag).map Prod.fst) :
    name ≠ tagKey ∧ (SnapshotNode.ownFields.all fun own => some name ≠ some own) = true := by
  have hNodup := Part.nodup_fieldsOfShape tag
  rw [List.map_append, List.map_cons, List.nodup_append, List.nodup_cons] at hNodup
  obtain ⟨-, ⟨hTag, -⟩, hOwn⟩ := hNodup
  constructor
  · rintro rfl
    exact hTag hName
  · rw [List.all_eq_true]
    intro own hMem
    exact decide_eq_true fun hEq => hOwn own hMem name (List.mem_cons_of_mem _ hName)
      (Option.some.inj hEq).symm

theorem nameOf_alike {room : Nat} {content edited : Value}
    (hFields : Option.Rel (FieldsAlike room [("name", .other)]) (fields? ["name"] content)
      (fields? ["name"] edited)) :
    (do
      let [name] ← fields? ["name"] content | none
      required? text? name) =
    (do
      let [name] ← fields? ["name"] edited | none
      required? text? name) := by
  refine bind_eq_of_rel hFields fun xs ys hxy => ?_
  obtain _ | ⟨hName, _ | _⟩ := hxy
  exact required?_alike hName fun v w => text?_of_edit

theorem ofMembers?_of_edit {room : Nat} {members others : List Member}
    (hEdit : Edit Harmless .node room (.object members) (.object others)) :
    ofMembers? (members.filter fun m => SnapshotNode.ownFields.all fun own => m.1 ≠ some own) =
      ofMembers? (others.filter fun m => SnapshotNode.ownFields.all fun own => m.1 ≠ some own) := by
  have hTag : (tagKey, .other) ∈ Part.node.fields (.object members) := by simp [Part.fields]
  have hFields : Part.fieldsOfTagged true (Kind.all.map Kind.tag) Part.fieldsOfShape (.object members) ⊆
      Part.node.fields (.object members) := by
    intro field hField
    simp [Part.fields, hField]
  have hShape := tagged?_filter_alike hEdit
    (fun key => SnapshotNode.ownFields.all fun own => key ≠ some own) rfl rfl
    (fun tag name => keeps_of_mem_fields) hTag hFields
  refine bind_eq_of_rel hShape ?_
  rintro ⟨tag, content⟩ ⟨_, edited⟩ ⟨rfl, -, hFields⟩
  dsimp only at hFields ⊢
  unfold Part.fieldsOfShape at hFields
  cases hKind : Kind.all.find? fun kind => kind.tag == tag with
  | none => rfl
  | some kind =>
    rw [hKind] at hFields
    have hAll := hFields _ (List.Subset.refl _)
    cases kind with
    | invocation =>
      show (fields? ["callee", "arguments"] content).bind _ =
        (fields? ["callee", "arguments"] edited).bind _
      refine bind_eq_of_rel hAll fun xs ys hxy => ?_
      obtain _ | ⟨hCallee, _ | ⟨hArguments, _ | _⟩⟩ := hxy
      dsimp only
      rw [required?_alike hCallee fun v w => NodeId.ofJson?_of_edit,
        defaulted?_alike hArguments fun v w hEdit =>
          list?_of_edit hEdit (fun _ => rfl) fun v w => NodeId.ofJson?_of_edit]
    | memberAccess =>
      show (fields? ["receiver", "name"] content).bind _ =
        (fields? ["receiver", "name"] edited).bind _
      have hName := nameOf_alike (hFields [("name", .other)] (by decide))
      refine bind_eq_of_rel hAll fun xs ys hxy => ?_
      obtain _ | ⟨hReceiver, _ | ⟨_, _ | _⟩⟩ := hxy
      dsimp only
      rw [required?_alike hReceiver fun v w => NodeId.ofJson?_of_edit]
      exact congrArg (fun name => required? NodeId.ofJson? _ >>= fun receiver =>
        name >>= fun name => pure (memberAccess receiver name)) hName
    | identifier => exact congrArg (identifier <$> ·) (nameOf_alike hAll)
    | fieldDeclaration => exact congrArg (fieldDeclaration <$> ·) (nameOf_alike hAll)
    | propertyDeclaration => exact congrArg (propertyDeclaration <$> ·) (nameOf_alike hAll)
    | methodDeclaration => exact congrArg (methodDeclaration <$> ·) (nameOf_alike hAll)
    | literal => rfl
    | other => rfl

end Shape

namespace SnapshotNode

theorem membersSound_of_edit {room : Nat} {members others : List Member}
    (hEdit : Edit Harmless .node (room + 1) (.object members) (.object others)) :
    Value.membersSound room (members.filter fun m => m.1 ≠ some "span") =
      Value.membersSound room (others.filter fun m => m.1 ≠ some "span") := by
  rw [Value.membersSound_eq_all, Value.membersSound_eq_all, List.all_filter, List.all_filter]
  refine all_eq_of_edit hEdit (fun key v _ hSound => ?_) fun key v w _ hInner => ?_
  · have hValue : v.isSound room = true := hSound rfl
    simp [hValue]
  · rcases Decidable.em (key = some "span") with rfl | hKey
    · simp
    · have hPart : Part.node.isChecked = true := rfl
      obtain ⟨hChecked, hNode⟩ := Part.isChecked_ofMember hPart fun _ => hKey
      have hValue : v.isSound room = w.isSound room := isSound_of_edit hInner hChecked hNode
      rw [hValue]

theorem ofJson?_of_edit {room : Nat} {v w : Value} (hEdit : Edit Harmless .node (room + 1) v w) :
    ofJson? room v = ofJson? room w := by
  cases v with
  | object members =>
    obtain ⟨others, rfl⟩ := hEdit.exists_object
    have hOwn := mapM_unique?_alike hEdit (List.subset_append_left Part.ownFields _)
    rw [ofJson?, ofJson?, membersSound_of_edit hEdit, Shape.ofMembers?_of_edit hEdit]
    congr 1
    funext _
    refine bind_eq_of_rel hOwn fun xs ys hxy => ?_
    obtain _ | ⟨hId, _ | ⟨hSpan, _ | ⟨hText, _ | ⟨hSymbol, _ | ⟨hType, _ | _⟩⟩⟩⟩⟩ := hxy
    dsimp only
    rw [required?_alike hId fun v w => NodeId.ofJson?_of_edit,
      defaulted?_alike hSpan fun v w => Span.ofJson?_of_edit,
      optional?_alike hText fun v w => text?_of_edit,
      optional?_alike hSymbol fun v w hEdit => Symbol.ofJson?_of_edit hEdit room,
      optional?_alike hType fun v w hEdit => StaticType.ofJson?_of_edit hEdit room]
  | array items =>
    cases hEdit
    rfl
  | _ => cases hEdit

end SnapshotNode

namespace Snapshot

theorem ofJson?_of_edit {v w : Value} (hEdit : Edit Harmless .snapshot depthLimit v w) :
    ofJson? v = ofJson? w := by
  have hList : ∀ v w, Edit Harmless .nodes (depthLimit - 1) v w →
      list? (SnapshotNode.ofJson? nodeRoom) v = list? (SnapshotNode.ofJson? nodeRoom) w :=
    fun v w hEdit => list?_of_edit hEdit (fun _ => rfl) fun v w => SnapshotNode.ofJson?_of_edit
  refine bind_eq_of_rel (fields?_alike hEdit) fun xs ys hxy => ?_
  obtain _ | ⟨hFile, _ | ⟨hTypes, _ | ⟨hNodes, _ | _⟩⟩⟩ := hxy
  dsimp only
  rw [required?_alike hFile fun v w => text?_of_edit,
    defaulted?_alike hTypes fun v w => TypeTable.ofJson?_of_edit,
    defaulted?_alike hNodes hList]

theorem ofJson?_of_reordered {v w : Value}
    (hEdits : Relation.ReflTransGen (Edit Reordered .snapshot depthLimit) v w)
    (hDistinct : v.KeysDistinct) : ofJson? v = ofJson? w := by
  induction hEdits using Relation.ReflTransGen.head_induction_on with
  | refl => rfl
  | head hEdit _ ih =>
    obtain ⟨hHarmless, hEdited⟩ := hEdit.harmless_of_reordered hDistinct
    exact (ofJson?_of_edit hHarmless).trans (ih hEdited)

theorem ofJson?_of_inserted {v w : Value}
    (hEdits : Relation.ReflTransGen (Edit Inserted .snapshot depthLimit) v w) :
    ofJson? v = ofJson? w := by
  induction hEdits with
  | refl => rfl
  | tail _ hEdit ih => exact ih.trans (ofJson?_of_edit hEdit.harmless_of_inserted)

/-- Reading a snapshot does not depend on the order of members, if no object repeats a key, nor on
members that are no fields, if what they hold passes the checks of their part. -/
theorem parse?_ignores_edits {text edited : String} {v w : Value}
    (hText : Json.parse? text = some v) (hEdited : Json.parse? edited = some w) :
    (v.KeysDistinct → Relation.ReflTransGen (Edit Reordered .snapshot depthLimit) v w →
      parse? edited = parse? text) ∧
    (Relation.ReflTransGen (Edit Inserted .snapshot depthLimit) v w →
      parse? edited = parse? text) := by
  rw [parse?, parse?, hText, hEdited, Option.bind_some, Option.bind_some]
  exact ⟨fun hDistinct hEdits => (ofJson?_of_reordered hEdits hDistinct).symm,
    fun hEdits => (ofJson?_of_inserted hEdits).symm⟩

def nodeDocument (node : List (String × Value)) : Value :=
  .record [("file", .text "Cart.cs"), ("nodes", .array [.record node])]

theorem edit_nodeDocument {change : Change} {node other : List (String × Value)}
    (hChange : change .node nodeRoom (membersOf node) (membersOf other)) :
    Edit change .snapshot depthLimit (nodeDocument node) (nodeDocument other) := by
  have hNode : Edit change .node (nodeRoom + 1) (.record node) (.record other) := .here hChange
  have hNodes : Edit change .nodes (nodeRoom + 2) (.array [.record node]) (.array [.record other]) :=
    @Edit.item change .nodes _ [] [] _ _ hNode
  exact @Edit.member change .snapshot _ [(some "file", .text "Cart.cs")] [] (some "nodes") _ _ hNodes

def identifierNode : List (String × Value) :=
  [("id", .nat 1), ("kind", .text "identifier"), ("name", .text "items")]

theorem keysDistinct_identifierDocument : (nodeDocument identifierNode).KeysDistinct := by
  have hNode : (Value.record identifierNode).KeysDistinct := by
    refine .record (by decide) ?_
    simp only [identifierNode, List.forall_mem_cons]
    exact ⟨.number _, .string _, .string _, nofun⟩
  have hNodes : (Value.array [.record identifierNode]).KeysDistinct :=
    .array (List.forall_mem_singleton.2 hNode)
  refine .record (by decide) ?_
  simp only [List.forall_mem_cons]
  exact ⟨.string _, hNodes, nofun⟩

theorem parse?_ignores_edits_identifier :
    (ofJson? (nodeDocument identifierNode)).isSome = true ∧
    parse? (nodeDocument
      [("id", .nat 1), ("name", .text "items"), ("kind", .text "identifier")]).compact =
        parse? (nodeDocument identifierNode).compact ∧
    parse? (nodeDocument (("receiver", .array []) :: identifierNode)).compact =
      parse? (nodeDocument identifierNode).compact := by
  refine ⟨by decide +kernel, ?_, ?_⟩
  · refine (parse?_ignores_edits (parse?_compact _) (parse?_compact _)).1
      keysDistinct_identifierDocument (.single ?_)
    exact edit_nodeDocument (.cons _ (.swap _ _ _))
  · refine (parse?_ignores_edits (parse?_compact _) (parse?_compact _)).2 (.single ?_)
    exact edit_nodeDocument (@Inserted.intro .node nodeRoom [] (membersOf identifierNode) "receiver"
      (.array []) nofun (by decide +kernel) fun _ => rfl)

/-- One member is added that is no field, with any value that does not nest too deeply. -/
inductive Added (part : Part) (room : Nat) : List Member → List Member → Prop
  | intro {front back : List Member} {key : String} {v : Value} (hPart : part ≠ .types)
      (hKey : key ∉ (part.fields (.object (front ++ back))).map Prod.fst)
      (hDepth : v.depth ≤ room) :
      Added part room (front ++ back) (front ++ (some key, v) :: back)

def overflowingNode : List (String × Value) :=
  ("extra", .number (.decimal false 1 0 400)) :: identifierNode

theorem parse?_refuses_overflow :
    (nodeDocument overflowingNode).compact =
      "\x7b\"file\":\"Cart.cs\",\"nodes\":[\x7b\"extra\":1e400,\"id\":1," ++
        "\"kind\":\"identifier\",\"name\":\"items\"\x7d]\x7d" ∧
    Json.parse? (nodeDocument identifierNode).compact = some (nodeDocument identifierNode) ∧
    Json.parse? (nodeDocument overflowingNode).compact = some (nodeDocument overflowingNode) ∧
    (nodeDocument identifierNode).KeysDistinct ∧
    Edit Added .snapshot depthLimit (nodeDocument identifierNode) (nodeDocument overflowingNode) ∧
    (parse? (nodeDocument identifierNode).compact).isSome = true ∧
    parse? (nodeDocument overflowingNode).compact = none := by
  refine ⟨?_, parse?_compact _, parse?_compact _, keysDistinct_identifierDocument, ?_, ?_, ?_⟩
  · decide +kernel
  · exact edit_nodeDocument (@Added.intro .node nodeRoom [] (membersOf identifierNode) "extra" _
      nofun (by decide +kernel) (Nat.zero_le _))
  · rw [parse?, parse?_compact, Option.bind_some]
    decide +kernel
  · rw [parse?, parse?_compact, Option.bind_some, ← Option.not_isSome_iff_eq_none]
    decide +kernel

end Snapshot

end CostlyCalls
