import Mathlib.Control.Basic
import Mathlib.Data.Option.Basic
import CostlyCalls.Proofs.Json.Reading
import CostlyCalls.Proofs.Snapshot.Types

/-!
# Snapshots in text and back

A snapshot is read back from its text exactly when the text nests no deeper than the reader allows.
Whatever way an accepted text writes a snapshot, the text of the snapshot nests no deeper than the
accepted one where depth is checked, so it is accepted too.
-/

set_option autoImplicit false

namespace CostlyCalls

open Json

theorem lookup_optionalMember {α : Type} {key name : String} {encode : α → Value}
    {value : Option α} :
    (optionalMember key encode value).lookup name =
      if name = key then value.map encode else none := by
  cases value with
  | none => simp [optionalMember]
  | some a =>
    by_cases hName : name = key
    · simp [optionalMember, hName]
    · have hOther : (name == key) = false := by simpa using hName
      simp [optionalMember, List.lookup_cons, hName, hOther]

theorem keys_optionalMember_sublist {α : Type} {key : String} {encode : α → Value}
    {value : Option α} : ((optionalMember key encode value).map Prod.fst).Sublist [key] := by
  cases value <;> simp [optionalMember]

theorem forall_mem_optionalMember {α : Type} {key : String} {encode : α → Value} {value : Option α}
    {p : String × Value → Prop} :
    (∀ m ∈ optionalMember key encode value, p m) ↔ ∀ a, value = some a → p (key, encode a) := by
  cases value <;> simp [optionalMember]

theorem Span.ofJson?_toJson (span : Span) : Span.ofJson? span.toJson = some span := by
  have hFields : fields? ["line", "column", "end_line", "end_column"] span.toJson =
      some [some (.nat span.line.toNat), some (.nat span.column.toNat),
        span.endLine.map fun n => .nat n.toNat, span.endColumn.map fun n => .nat n.toNat] := by
    rw [Span.toJson, fields?_record]
    · simp [List.lookup_append, lookup_optionalMember, List.lookup_cons]
    · rw [List.map_append, List.map_append]
      exact List.Nodup.sublist (.append (.append (.refl _) keys_optionalMember_sublist)
        keys_optionalMember_sublist) (by simp)
  have hEnd : ∀ n : Option UInt64, optional? uint64? (n.map fun n => .nat n.toNat) = some n :=
    fun n => optional?_map (fun _ => nofun) fun n _ => uint64?_nat n
  simp [Span.ofJson?, hFields, required?, uint64?_nat, hEnd]

theorem Span.depth_toJson_le (span : Span) : span.toJson.depth ≤ 1 := by
  rw [Span.toJson, Value.depth_record_le_iff, List.forall_mem_append, List.forall_mem_append,
    forall_mem_optionalMember, forall_mem_optionalMember]
  simp

theorem NodeId.ofJson?_toJson (id : NodeId) : NodeId.ofJson? id.toJson = some id := by
  rw [NodeId.ofJson?, NodeId.toJson, uint32?_nat, Option.map_some]

theorem NodeId.readable_toJson (id : NodeId) : id.toJson.Readable := by
  have hLess := id.value.toNat_lt
  exact .nat (Nat.le_trans (Nat.le_of_lt hLess) (by decide))

theorem TypeEntry.ofJson?_toJson (entry : TypeEntry) :
    TypeEntry.ofJson? entry.toJson = some entry := by
  have hFields : fields? ["interfaces", "base"] entry.toJson =
      some [some (.array (entry.interfaces.map .text)), entry.base.map .text] := by
    rw [TypeEntry.toJson, fields?_record]
    · simp [lookup_optionalMember, List.lookup_cons]
    · rw [List.map_append]
      exact List.Nodup.sublist (.append (.refl _) keys_optionalMember_sublist) (by simp)
  have hInterfaces : list? text? (.array (entry.interfaces.map .text)) = some entry.interfaces :=
    mapM_map_eq_some fun name _ => text?_text name
  have hBase : optional? text? (entry.base.map .text) = some entry.base :=
    optional?_map (fun _ => nofun) fun name _ => text?_text name
  simp [TypeEntry.ofJson?, hFields, defaulted?, hInterfaces, hBase]

namespace TypeTable

theorem insertSorted_last {name : String} {entry : TypeEntry} {entries : List (String × TypeEntry)}
    (hLast : ∀ e ∈ entries, e.1 < name) :
    TypeEntry.insertSorted name entry entries = entries ++ [(name, entry)] := by
  induction entries with
  | nil => rfl
  | cons head rest ih =>
    rw [List.forall_mem_cons] at hLast
    have hNe : name ≠ head.1 := fun hEq => String.lt_irrefl name (hEq ▸ hLast.1)
    rw [TypeEntry.insertSorted, if_neg (String.lt_asymm hLast.1), if_neg hNe, ih hLast.2,
      List.cons_append]

theorem entries_foldl_insert {table : TypeTable} {entries : List (String × TypeEntry)}
    (hSorted : (table.entries ++ entries).Pairwise (fun a b => a.1 < b.1)) :
    (entries.foldl (fun table e => table.insert e.1 e.2) table).entries =
      table.entries ++ entries := by
  induction entries generalizing table with
  | nil => rw [List.foldl_nil, List.append_nil]
  | cons e rest ih =>
    have hLast : ∀ x ∈ table.entries, x.1 < e.1 := fun x hx =>
      (List.pairwise_append.1 hSorted).2.2 x hx e List.mem_cons_self
    have hInsert : (table.insert e.1 e.2).entries = table.entries ++ [e] := insertSorted_last hLast
    rw [List.foldl_cons, ih, hInsert, List.append_assoc, List.singleton_append]
    rw [hInsert, List.append_assoc, List.singleton_append]
    exact hSorted

theorem eq_of_entries_eq {table other : TypeTable} (hEntries : table.entries = other.entries) :
    table = other := by
  cases table
  cases other
  cases hEntries
  rfl

theorem ofList_entries (table : TypeTable) : ofList table.entries = table :=
  eq_of_entries_eq (entries_foldl_insert table.sorted)

theorem ofJson?_toJson (table : TypeTable) : ofJson? table.toJson = some table := by
  have hEntries : (table.entries.map fun e => (some e.1, e.2.toJson)).mapM
      (fun m : Member => do return (← m.1, ← TypeEntry.ofJson? m.2)) = some table.entries := by
    refine mapM_map_eq_some fun e _ => ?_
    simp [TypeEntry.ofJson?_toJson]
  rw [toJson, Value.record, List.map_map, ofJson?]
  simp only [Function.comp_def, hEntries, Option.map_eq_map, Option.map_some, ofList_entries]

theorem depth_toJson_le (table : TypeTable) : table.toJson.depth ≤ 3 := by
  rw [toJson, Value.depth_record_le_iff, List.forall_mem_map]
  intro e _
  rw [TypeEntry.toJson, Value.depth_record_le_iff, List.forall_mem_append]
  refine ⟨?_, forall_mem_optionalMember.2 fun _ _ => by simp⟩
  simp [Value.depth_array_le_iff]

end TypeTable

namespace Shape

def keys : List String := ["kind", "callee", "arguments", "receiver", "name"]

theorem keys_members_sublist (shape : Shape) : (shape.members.map Prod.fst).Sublist keys := by
  cases shape with
  | invocation _ _ => exact (by decide : List.Sublist ["kind", "callee", "arguments"] keys)
  | memberAccess _ _ => exact (by decide : List.Sublist ["kind", "receiver", "name"] keys)
  | identifier _ | fieldDeclaration _ | propertyDeclaration _ | methodDeclaration _ =>
    exact (by decide : List.Sublist ["kind", "name"] keys)
  | literal | other => exact (by decide : List.Sublist ["kind"] keys)

theorem tagged?_members (shape : Shape) :
    tagged? true (Kind.all.map Kind.tag) (.object (membersOf shape.members)) =
      some (shape.kind.tag, .record shape.members.tail) := by
  have hTag : shape.kind.tag ∈ Kind.all.map Kind.tag :=
    List.mem_map_of_mem (by cases shape.kind <;> decide)
  exact tagged?_record hTag (List.Nodup.sublist shape.keys_members_sublist (by decide))

theorem find?_tag (kind : Kind) : Kind.all.find? (fun k => k.tag == kind.tag) = some kind := by
  cases kind <;> decide

theorem ofMembers?_members (shape : Shape) :
    ofMembers? (membersOf shape.members) = some shape := by
  have hTagged := shape.tagged?_members
  have hFields : ∀ names, fields? names (.record shape.members.tail) =
      some (names.map fun name => shape.members.tail.lookup name) := by
    intro names
    refine fields?_record (List.Nodup.sublist ?_ (by decide : keys.Nodup))
    exact (List.Sublist.map _ (List.tail_sublist _)).trans shape.keys_members_sublist
  have hArguments : ∀ arguments : List NodeId,
      list? NodeId.ofJson? (.array (arguments.map NodeId.toJson)) = some arguments :=
    fun arguments => mapM_map_eq_some fun id _ => id.ofJson?_toJson
  cases shape <;>
    simp [ofMembers?, hTagged, find?_tag, hFields] <;>
    simp [kind, members, List.lookup_cons, required?, defaulted?, text?_text,
      NodeId.ofJson?_toJson, hArguments]

theorem depth_members_le (shape : Shape) : ∀ m ∈ shape.members, m.2.depth ≤ 1 := by
  cases shape <;> simp [members, NodeId.toJson, Value.depth_array_le_iff]

theorem readable_members (shape : Shape) : ∀ m ∈ shape.members, m.2.Readable := by
  have hArguments : ∀ arguments : List NodeId,
      (Value.array (arguments.map NodeId.toJson)).Readable :=
    fun arguments => .array (List.forall_mem_map.2 fun id _ => id.readable_toJson)
  refine List.forall_mem_cons.2 ⟨.text _, ?_⟩
  cases shape with
  | invocation callee arguments =>
    simpa using ⟨callee.readable_toJson, hArguments arguments⟩
  | memberAccess receiver name => simpa using ⟨receiver.readable_toJson, .text name⟩
  | identifier name | fieldDeclaration name | propertyDeclaration name | methodDeclaration name =>
    simpa using .text name
  | literal | other => simp

theorem not_mem_ownFields {shape : Shape} {m : String × Value} (hm : m ∈ shape.members) :
    m.1 ∉ SnapshotNode.ownFields := by
  have hKey : m.1 ∈ keys := shape.keys_members_sublist.subset (List.mem_map_of_mem hm)
  have hAll : ∀ key ∈ keys, key ∉ SnapshotNode.ownFields := by decide
  exact hAll m.1 hKey

end Shape

namespace SnapshotNode

def members (n : SnapshotNode) : List (String × Value) :=
  [("id", n.node.id.toJson), ("span", n.node.span.toJson)]
    ++ optionalMember "text" .text n.node.text
    ++ n.node.shape.members
    ++ optionalMember "symbol" Symbol.toJson n.symbol
    ++ optionalMember "type" StaticType.toJson n.type

theorem toJson_eq (n : SnapshotNode) : n.toJson = .object (membersOf n.members) := rfl

theorem forall_mem_members {n : SnapshotNode} {p : String × Value → Prop} :
    (∀ m ∈ n.members, p m) ↔
      p ("id", n.node.id.toJson) ∧ p ("span", n.node.span.toJson) ∧
      (∀ text, n.node.text = some text → p ("text", .text text)) ∧
      (∀ m ∈ n.node.shape.members, p m) ∧
      (∀ s, n.symbol = some s → p ("symbol", s.toJson)) ∧
      ∀ t, n.type = some t → p ("type", t.toJson) := by
  simp only [members, List.forall_mem_append, forall_mem_optionalMember, List.forall_mem_cons,
    List.not_mem_nil, false_implies, implies_true, and_true, and_assoc]

theorem nodup_keys (n : SnapshotNode) : (n.members.map Prod.fst).Nodup := by
  simp only [members, List.map_append]
  refine List.Nodup.sublist (.append (.append (.append (.append (.refl _)
    keys_optionalMember_sublist) n.node.shape.keys_members_sublist) keys_optionalMember_sublist)
    keys_optionalMember_sublist) ?_
  simp [Shape.keys]

theorem depth_toJson_le_iff {n : SnapshotNode} {room : Nat} (hRoom : 0 < room) :
    n.toJson.depth ≤ room + 1 ↔
      (∀ s, n.symbol = some s → s.toJson.depth ≤ room) ∧
      ∀ t, n.type = some t → t.toJson.depth ≤ room := by
  have hSpan : n.node.span.toJson.depth ≤ room := Nat.le_trans n.node.span.depth_toJson_le hRoom
  have hShape : ∀ m ∈ n.node.shape.members, m.2.depth ≤ room :=
    fun m hm => Nat.le_trans (n.node.shape.depth_members_le m hm) hRoom
  show (Value.record n.members).depth ≤ room + 1 ↔ _
  rw [Value.depth_record_le_iff, forall_mem_members]
  constructor
  · rintro ⟨-, -, -, -, hSymbol, hType⟩
    exact ⟨hSymbol, hType⟩
  · rintro ⟨hSymbol, hType⟩
    exact ⟨Nat.zero_le _, hSpan, fun _ _ => Nat.zero_le _, hShape, hSymbol, hType⟩

theorem membersSound_iff {n : SnapshotNode} {room : Nat} (hRoom : 0 < room) :
    Value.membersSound room ((membersOf n.members).filter fun m => m.1 ≠ some "span") = true ↔
      n.toJson.depth ≤ room + 1 := by
  have hMembers : Value.membersSound room
      ((membersOf n.members).filter fun m => m.1 ≠ some "span") = true ↔
        ∀ m ∈ n.members, m.1 ≠ "span" → m.2.Readable ∧ m.2.depth ≤ room := by
    rw [Value.membersSound_iff, List.forall_mem_filter, membersOf, List.forall_mem_map]
    simp [Value.isSound_iff]
  have hOther : ∀ m ∈ n.node.shape.members, m.1 ≠ "span" := by
    intro m hm hKey
    exact Shape.not_mem_ownFields hm (hKey ▸ by decide)
  have hShape : ∀ m ∈ n.node.shape.members, m.2.depth ≤ room :=
    fun m hm => Nat.le_trans (n.node.shape.depth_members_le m hm) hRoom
  rw [hMembers, depth_toJson_le_iff hRoom, forall_mem_members]
  constructor
  · rintro ⟨-, -, -, -, hSymbol, hType⟩
    exact ⟨fun s hs => (hSymbol s hs (by simp)).2, fun t ht => (hType t ht (by simp)).2⟩
  · rintro ⟨hSymbol, hType⟩
    refine ⟨fun _ => ⟨n.node.id.readable_toJson, Nat.zero_le _⟩, fun hSpan => absurd rfl hSpan,
      fun _ _ _ => ⟨.text _, Nat.zero_le _⟩, ?_, ?_, ?_⟩
    · exact fun m hm _ => ⟨n.node.shape.readable_members m hm, hShape m hm⟩
    · exact fun s hs _ => ⟨s.readable_toJson, hSymbol s hs⟩
    · exact fun t ht _ => ⟨t.readable_toJson, hType t ht⟩

theorem filter_own {members : List (String × Value)} (hOwn : ∀ m ∈ members, m.1 ∈ ownFields) :
    (membersOf members).filter (fun m => ownFields.all fun name => m.1 ≠ some name) = [] := by
  rw [List.filter_eq_nil_iff, membersOf, List.forall_mem_map]
  intro m hm
  simpa using hOwn m hm

theorem filter_shape (shape : Shape) :
    (membersOf shape.members).filter (fun m => ownFields.all fun name => m.1 ≠ some name) =
      membersOf shape.members := by
  rw [List.filter_eq_self, membersOf, List.forall_mem_map]
  intro m hm
  have hOther : ∀ name ∈ ownFields, ¬m.1 = name := by
    rintro name hName rfl
    exact Shape.not_mem_ownFields hm hName
  simpa using hOther

theorem filter_members (n : SnapshotNode) :
    (membersOf n.members).filter (fun m => ownFields.all fun name => m.1 ≠ some name) =
      membersOf n.node.shape.members := by
  have hFirst : ∀ m ∈ [("id", n.node.id.toJson), ("span", n.node.span.toJson)]
      ++ optionalMember "text" .text n.node.text, m.1 ∈ ownFields := by
    rw [List.forall_mem_append, forall_mem_optionalMember]
    simp [ownFields]
  have hSymbol : ∀ m ∈ optionalMember "symbol" Symbol.toJson n.symbol, m.1 ∈ ownFields := by
    rw [forall_mem_optionalMember]
    simp [ownFields]
  have hType : ∀ m ∈ optionalMember "type" StaticType.toJson n.type, m.1 ∈ ownFields := by
    rw [forall_mem_optionalMember]
    simp [ownFields]
  have hSplit : membersOf n.members =
      membersOf ([("id", n.node.id.toJson), ("span", n.node.span.toJson)]
        ++ optionalMember "text" .text n.node.text)
      ++ membersOf n.node.shape.members
      ++ membersOf (optionalMember "symbol" Symbol.toJson n.symbol)
      ++ membersOf (optionalMember "type" StaticType.toJson n.type) := by
    simp only [members, membersOf, List.map_append]
  rw [hSplit, List.filter_append, List.filter_append, List.filter_append, filter_own hFirst,
    filter_shape, filter_own hSymbol, filter_own hType, List.nil_append, List.append_nil,
    List.append_nil]

theorem mapM_unique?_ownFields (n : SnapshotNode) :
    ownFields.mapM (fun name => unique? name (membersOf n.members)) =
      some [some n.node.id.toJson, some n.node.span.toJson, n.node.text.map .text,
        n.symbol.map Symbol.toJson, n.type.map StaticType.toJson] := by
  have hShape : ∀ name ∈ ownFields, n.node.shape.members.lookup name = none := by
    intro name hName
    rw [List.lookup_eq_none_iff]
    intro m hm
    have hOther : name ≠ m.1 := by
      rintro rfl
      exact Shape.not_mem_ownFields hm hName
    simpa using hOther
  have hText := hShape "text" (by decide)
  have hSymbol := hShape "symbol" (by decide)
  have hType := hShape "type" (by decide)
  rw [mapM_unique?_membersOf n.nodup_keys]
  simp [ownFields, members, List.lookup_append, List.lookup_cons, lookup_optionalMember, hText,
    hSymbol, hType]

theorem ofJson?_toJson {n : SnapshotNode} {room : Nat} (hRoom : 0 < room) :
    ofJson? room n.toJson = if n.toJson.depth ≤ room + 1 then some n else none := by
  split
  · next hDepth =>
    have hSound := (membersSound_iff hRoom).2 hDepth
    obtain ⟨hSymbolDepth, hTypeDepth⟩ := (depth_toJson_le_iff hRoom).1 hDepth
    have hText : optional? text? (n.node.text.map .text) = some n.node.text :=
      optional?_map (fun _ => nofun) fun text _ => text?_text text
    have hSymbol : optional? (Symbol.ofJson? room) (n.symbol.map Symbol.toJson) = some n.symbol :=
      optional?_map Symbol.toJson_ne_null fun s hs =>
        Symbol.ofJson?_toJson (Nat.le_succ_of_le (hSymbolDepth s hs))
    have hType : optional? (StaticType.ofJson? room false) (n.type.map StaticType.toJson) =
        some n.type := by
      refine optional?_map StaticType.toJson_ne_null fun t ht => ?_
      rw [StaticType.ofJson?_toJson, if_pos (hTypeDepth t ht)]
    rw [toJson_eq, ofJson?, hSound, mapM_unique?_ownFields, filter_members]
    simp [Shape.ofMembers?_members, required?, NodeId.ofJson?_toJson, defaulted?,
      Span.ofJson?_toJson, hText, hSymbol, hType]
  · next hDepth =>
    have hUnsound := Bool.eq_false_iff.2 (mt (membersSound_iff hRoom).1 hDepth)
    rw [toJson_eq, ofJson?, hUnsound]
    rfl

theorem depth_le_of_ofJson? {v : Value} {n : SnapshotNode} {room : Nat} (hRoom : 0 < room)
    (hRead : ofJson? room v = some n) : n.toJson.depth ≤ room + 1 := by
  cases v with
  | object written =>
    obtain ⟨_, hGuard, hRead⟩ := Option.bind_eq_some_iff.1 hRead
    have hMembers := (Option.guard_eq_some' _).1 hGuard
    have hSound : ∀ {key : String} {w : Value}, key ≠ "span" →
        unique? key written = some (some w) → w.depth ≤ room := by
      intro key w hKey hUnique
      have hMember : (some key, w) ∈ written.filter fun m => m.1 ≠ some "span" :=
        List.mem_filter.2 ⟨mem_of_unique? hUnique, by simpa using hKey⟩
      exact (Value.isSound_iff.1 (Value.membersSound_iff.1 hMembers _ hMember).2).2
    obtain ⟨fields, hFields, hRead⟩ := Option.bind_eq_some_iff.1 hRead
    split at hRead
    · next id span text symbol type =>
      obtain ⟨shape, _, hRead⟩ := Option.bind_eq_some_iff.1 hRead
      obtain ⟨_, _, hRead⟩ := Option.bind_eq_some_iff.1 hRead
      obtain ⟨_, _, hRead⟩ := Option.bind_eq_some_iff.1 hRead
      obtain ⟨_, _, hRead⟩ := Option.bind_eq_some_iff.1 hRead
      obtain ⟨_, hSymbol, hRead⟩ := Option.bind_eq_some_iff.1 hRead
      obtain ⟨_, hType, hRead⟩ := Option.bind_eq_some_iff.1 hRead
      cases hRead
      have hSymbolField : unique? "symbol" written = some symbol := (getElem?_of_mapM hFields 3).symm
      have hTypeField : unique? "type" written = some type := (getElem?_of_mapM hFields 4).symm
      rw [depth_toJson_le_iff hRoom]
      constructor
      · intro s hs
        obtain ⟨w, rfl, hw⟩ := exists_of_optional? hSymbol hs
        exact Nat.le_trans (Symbol.depth_le_of_ofJson? hw) (hSound (by decide) hSymbolField)
      · intro t ht
        obtain ⟨w, rfl, hw⟩ := exists_of_optional? hType ht
        exact Nat.le_trans (StaticType.depth_le_of_ofJson? hw) (hSound (by decide) hTypeField)
    · cases hRead
  | _ => cases hRead

end SnapshotNode

namespace Snapshot

theorem nodeRoom_pos : 0 < nodeRoom := by decide

theorem depth_toJson_le_iff {snapshot : Snapshot} :
    snapshot.toJson.depth ≤ depthLimit ↔ ∀ n ∈ snapshot.nodes, n.toJson.depth ≤ nodeRoom + 1 := by
  have hTypes : snapshot.types.toJson.depth ≤ nodeRoom + 2 :=
    Nat.le_trans snapshot.types.depth_toJson_le (by decide)
  have hNodes : (Value.array (snapshot.nodes.map SnapshotNode.toJson)).depth ≤ nodeRoom + 2 ↔
      ∀ n ∈ snapshot.nodes, n.toJson.depth ≤ nodeRoom + 1 := by
    rw [Value.depth_array_le_iff, List.forall_mem_map]
  show snapshot.toJson.depth ≤ nodeRoom + 2 + 1 ↔ _
  rw [toJson, Value.depth_record_le_iff, ← hNodes]
  simp only [List.forall_mem_cons]
  constructor
  · rintro ⟨-, -, hDepth, -⟩
    exact hDepth
  · intro hDepth
    exact ⟨Nat.zero_le _, hTypes, hDepth, by simp⟩

theorem list?_nodes (snapshot : Snapshot) :
    list? (SnapshotNode.ofJson? nodeRoom) (.array (snapshot.nodes.map SnapshotNode.toJson)) =
      if snapshot.toJson.depth ≤ depthLimit then some snapshot.nodes else none := by
  rw [list?]
  split
  · next hDepth =>
    refine mapM_map_eq_some fun n hn => ?_
    rw [SnapshotNode.ofJson?_toJson nodeRoom_pos, if_pos (depth_toJson_le_iff.1 hDepth n hn)]
  · next hDeep =>
    simp only [depth_toJson_le_iff, Classical.not_forall] at hDeep
    obtain ⟨n, hn, hDeep⟩ := hDeep
    refine mapM_eq_none_of_mem (List.mem_map_of_mem hn) ?_
    rw [SnapshotNode.ofJson?_toJson nodeRoom_pos, if_neg hDeep]

theorem ofJson?_toJson (snapshot : Snapshot) :
    ofJson? snapshot.toJson =
      if snapshot.toJson.depth ≤ depthLimit then some snapshot else none := by
  have hFields : fields? ["file", "types", "nodes"] snapshot.toJson =
      some [some (.text snapshot.file.text), some snapshot.types.toJson,
        some (.array (snapshot.nodes.map SnapshotNode.toJson))] := by
    rw [toJson, fields?_record (by simp)]
    simp [List.lookup_cons]
  by_cases hDepth : snapshot.toJson.depth ≤ depthLimit <;>
    simp [ofJson?, hFields, required?, defaulted?, text?_text, TypeTable.ofJson?_toJson,
      list?_nodes, hDepth]

theorem parse?_serialize (snapshot : Snapshot) :
    Snapshot.parse? snapshot.serialize =
      if snapshot.toJson.depth ≤ depthLimit then some snapshot else none := by
  rw [parse?, serialize, Json.parse?_compact, Option.bind_some, ofJson?_toJson]

theorem depth_le_of_ofJson? {v : Value} {snapshot : Snapshot} (hRead : ofJson? v = some snapshot) :
    snapshot.toJson.depth ≤ depthLimit := by
  obtain ⟨fields, hFields, hRead⟩ := Option.bind_eq_some_iff.1 hRead
  split at hRead
  · next file types nodes =>
    obtain ⟨_, _, hRead⟩ := Option.bind_eq_some_iff.1 hRead
    obtain ⟨_, _, hRead⟩ := Option.bind_eq_some_iff.1 hRead
    obtain ⟨_, hNodes, hRead⟩ := Option.bind_eq_some_iff.1 hRead
    cases hRead
    rw [depth_toJson_le_iff]
    intro n hn
    cases nodes with
    | none =>
      cases hNodes
      cases hn
    | some w =>
      obtain ⟨x, hx⟩ := exists_of_mem_list? hNodes hn
      exact SnapshotNode.depth_le_of_ofJson? nodeRoom_pos hx
  · cases hRead

theorem parse?_serialize_of_parse? {text : String} {snapshot : Snapshot}
    (hParse : Snapshot.parse? text = some snapshot) :
    Snapshot.parse? snapshot.serialize = some snapshot := by
  obtain ⟨v, _, hRead⟩ := Option.bind_eq_some_iff.1 hParse
  rw [parse?_serialize, if_pos (depth_le_of_ofJson? hRead)]

def normalize? (text : String) : Option String := (Snapshot.parse? text).map serialize

theorem normalize?_serialize {text : String} {snapshot : Snapshot}
    (hParse : Snapshot.parse? text = some snapshot) :
    normalize? snapshot.serialize = some snapshot.serialize := by
  rw [normalize?, parse?_serialize_of_parse? hParse, Option.map_some]

/-- A snapshot is read back from its own text unless it nests too deeply, and rewriting an accepted
text is idempotent. -/
theorem serialize_round_trip :
    (∀ text snapshot, Snapshot.parse? text = some snapshot →
      Snapshot.parse? snapshot.serialize = some snapshot) ∧
    (∀ text, (normalize? text).bind normalize? = normalize? text) ∧
    ∀ snapshot : Snapshot,
      Json.parse? snapshot.serialize = some snapshot.toJson ∧
      Snapshot.parse? snapshot.serialize =
        if snapshot.toJson.depth ≤ 127 then some snapshot else none := by
  refine ⟨fun text snapshot => parse?_serialize_of_parse?, fun text => ?_, fun snapshot => ?_⟩
  · cases hParse : Snapshot.parse? text with
    | none => simp [normalize?, hParse]
    | some snapshot =>
      have hFirst : normalize? text = some snapshot.serialize := by
        rw [normalize?, hParse, Option.map_some]
      rw [hFirst, Option.bind_some, normalize?_serialize hParse]
  · exact ⟨Json.parse?_compact snapshot.toJson, parse?_serialize snapshot⟩

def positionalNode : List (String × Value) :=
  [("kind", .nat 2), ("id", .nat 7), ("name", .text "orders"), ("note", .array []),
    ("type", .array [.text "array", .array [.nat 1, .text "Order"]])]

def positionalOrders : Value :=
  .array [.text "Orders.cs", .record [("Order", .array [.array [.text "IOrder"]])],
    .array [.record positionalNode]]

def orders : Snapshot where
  file := ⟨"Orders.cs"⟩
  types := .ofList [("Order", { interfaces := ["IOrder"] })]
  nodes := [{
    node := { id := ⟨7⟩, shape := .identifier "orders" }
    type := some (.array (.named "Order")) }]

theorem ofJson?_positionalNode :
    SnapshotNode.ofJson? nodeRoom (.object (membersOf positionalNode)) = orders.nodes.head? := by
  have hNat : ∀ n ≤ 7, ∀ room, (Value.nat n).isSound room = true := by
    intro n hn room
    have hWord : n ≤ Decimal.wordLimit := Nat.le_trans hn (by decide)
    exact Value.isSound_iff.2 ⟨.nat hWord, Nat.zero_le _⟩
  have hSound : Value.membersSound nodeRoom
      ((membersOf positionalNode).filter fun m => m.1 ≠ some "span") = true := by
    simp [membersOf, positionalNode, Value.text, Value.membersSound, Value.areSound, Value.isSound,
      nodeRoom, depthLimit, hNat]
  rw [SnapshotNode.ofJson?, hSound]
  rfl

theorem ofJson?_positionalOrders : ofJson? positionalOrders = some orders := by
  have hFields : fields? ["file", "types", "nodes"] positionalOrders =
      some [some (.text "Orders.cs"), some (.record [("Order", .array [.array [.text "IOrder"]])]),
        some (.array [.object (membersOf positionalNode)])] := rfl
  have hTypes : TypeTable.ofJson? (.record [("Order", .array [.array [.text "IOrder"]])]) =
      some orders.types := rfl
  have hNodes : list? (SnapshotNode.ofJson? nodeRoom)
      (.array [.object (membersOf positionalNode)]) = some orders.nodes := by
    rw [list?, List.mapM_cons, ofJson?_positionalNode]
    rfl
  simp only [ofJson?, hFields, required?, defaulted?, Option.bind_eq_bind, Option.bind_some, text?_text,
    hTypes, hNodes]
  rfl

theorem serialize_round_trip_positionalOrders :
    Snapshot.parse? positionalOrders.compact = some orders ∧
      Snapshot.parse? orders.serialize = some orders := by
  have hParse : Snapshot.parse? positionalOrders.compact = some orders := by
    rw [parse?, Json.parse?_compact, Option.bind_some, ofJson?_positionalOrders]
  exact ⟨hParse, serialize_round_trip.1 _ _ hParse⟩

end Snapshot

end CostlyCalls
