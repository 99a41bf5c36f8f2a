import CostlyCalls.Keyed
import CostlyCalls.Snapshot.FromJson

/-!
# Edits of a snapshot

A snapshot is a tree of parts, and the part that a value is read as says which of its members are
fields. An edit changes one object of the tree: it puts the members into another order, or it adds a
member that is no field. In a document without repeated keys any new order is harmless, and so is
what follows it.
-/

set_option autoImplicit false

namespace CostlyCalls

open Json

inductive Part
  | snapshot
  | types
  | entry
  | nodes
  | node
  | span
  | symbol
  /-- A static type. Where `indexed`, the position of its tag may stand for the tag. -/
  | type (indexed : Bool)
  | other
  deriving DecidableEq, Repr

namespace Part

def fieldsOfType : String → List (String × Part)
  | "array" => [("element", .type true)]
  | "named" | "type_parameter" => [("name", .other)]
  | _ => []

def fieldsOfSymbol (tag : String) : List (String × Part) :=
  match Symbol.roleOf? tag with
  | some _ => [("name", .other), ("type", .type true)]
  | none =>
    [("name", .other), ("containing_type", .other), ("parameter_count", .other),
      ("return_type", .type true)]

def fieldsOfKind : Kind → List (String × Part)
  | .invocation => [("callee", .other), ("arguments", .other)]
  | .memberAccess => [("receiver", .other), ("name", .other)]
  | .identifier | .fieldDeclaration | .propertyDeclaration | .methodDeclaration =>
    [("name", .other)]
  | .literal | .other => []

def fieldsOfShape (tag : String) : List (String × Part) :=
  (Kind.all.find? fun kind => kind.tag == tag).elim [] fieldsOfKind

def fieldsOfTagged (indexed : Bool) (tags : List String) (fieldsOf : String → List (String × Part))
    (v : Value) : List (String × Part) :=
  (tagged? indexed tags v).elim [] fun t => fieldsOf t.1

def ownFields : List (String × Part) :=
  [("id", .other), ("span", .span), ("text", .other), ("symbol", .symbol), ("type", .type false)]

def fields (part : Part) (v : Value) : List (String × Part) :=
  match part with
  | .snapshot => [("file", .other), ("types", .types), ("nodes", .nodes)]
  | .entry => [("interfaces", .other), ("base", .other)]
  | .span => [("line", .other), ("column", .other), ("end_line", .other), ("end_column", .other)]
  | .node =>
    ownFields ++ (tagKey, .other) ::
      fieldsOfTagged true (Kind.all.map Kind.tag) fieldsOfShape v
  | .symbol => (tagKey, .other) :: fieldsOfTagged false Symbol.tags fieldsOfSymbol v
  | .type indexed => (tagKey, .other) :: fieldsOfTagged indexed StaticType.tags fieldsOfType v
  | .types | .nodes | .other => []

/-- What the members and items are read as that are no fields. -/
def rest : Part → Part
  | .types => .entry
  | .nodes => .node
  | _ => .other

def ofMember (part : Part) (v : Value) (key : Text) : Part :=
  (key.bind fun name => (part.fields v).lookup name).getD part.rest

def ofItem (part : Part) (v : Value) (index : Nat) : Part :=
  ((part.fields v)[index]?.map Prod.snd).getD part.rest

def isChecked : Part → Bool
  | .node | .symbol | .type _ | .other => true
  | .snapshot | .types | .entry | .nodes | .span => false

theorem nodup_fieldsOfType (tag : String) :
    (((tagKey, .other) :: fieldsOfType tag).map Prod.fst).Nodup := by
  unfold fieldsOfType
  split <;> decide

theorem nodup_fieldsOfSymbol (tag : String) :
    (((tagKey, .other) :: fieldsOfSymbol tag).map Prod.fst).Nodup := by
  unfold fieldsOfSymbol
  split <;> decide

theorem nodup_fieldsOfShape (tag : String) :
    ((ownFields ++ (tagKey, .other) :: fieldsOfShape tag).map Prod.fst).Nodup := by
  unfold fieldsOfShape
  cases Kind.all.find? fun kind => kind.tag == tag with
  | none => decide
  | some kind => cases kind <;> decide

theorem nodup_fieldsOfTagged {indexed : Bool} {tags : List String}
    {fieldsOf : String → List (String × Part)} (own : List (String × Part))
    (hFields : ∀ tag, ((own ++ (tagKey, .other) :: fieldsOf tag).map Prod.fst).Nodup) (v : Value) :
    ((own ++ (tagKey, .other) :: fieldsOfTagged indexed tags fieldsOf v).map Prod.fst).Nodup := by
  rw [fieldsOfTagged]
  cases tagged? indexed tags v with
  | none =>
    refine (hFields "").sublist (List.Sublist.map Prod.fst ?_)
    exact (List.nil_sublist _).cons_cons _ |>.append_left own
  | some t => exact hFields t.1

theorem nodup_fields (part : Part) (v : Value) : ((part.fields v).map Prod.fst).Nodup := by
  cases part with
  | node => exact nodup_fieldsOfTagged ownFields nodup_fieldsOfShape v
  | symbol => exact nodup_fieldsOfTagged [] nodup_fieldsOfSymbol v
  | type indexed => exact nodup_fieldsOfTagged [] nodup_fieldsOfType v
  | _ =>
    rw [fields]
    decide

theorem ofMember_of_mem {part : Part} {v : Value} {field : String × Part}
    (hField : field ∈ part.fields v) : part.ofMember v (some field.1) = field.2 := by
  have hLookup := (Keyed.lookup_eq_some_iff (part.nodup_fields v)).2 hField
  rw [ofMember, Option.bind_some, hLookup, Option.getD_some]

end Part

namespace Json.Value

inductive KeysDistinct : Value → Prop
  | null : KeysDistinct .null
  | bool (b : Bool) : KeysDistinct (.bool b)
  | number (n : Numeral) : KeysDistinct (.number n)
  | string (s : Text) : KeysDistinct (.string s)
  | array {items : List Value} (hItems : ∀ v ∈ items, KeysDistinct v) : KeysDistinct (.array items)
  | object {members : List Member} (hKeys : (members.filterMap Prod.fst).Nodup)
      (hValues : ∀ m ∈ members, KeysDistinct m.2) : KeysDistinct (.object members)

theorem KeysDistinct.record {members : List (String × Value)}
    (hKeys : (members.map Prod.fst).Nodup) (hValues : ∀ m ∈ members, m.2.KeysDistinct) :
    (record members).KeysDistinct := by
  refine .object ?_ ?_
  · rw [List.filterMap_map]
    show (members.filterMap (some ∘ Prod.fst)).Nodup
    rwa [List.filterMap_eq_map]
  · rw [List.forall_mem_map]
    exact hValues

end Json.Value

/-- Says which lists of members may take the place of which others, in an object that is read as the
part and whose members have the room. -/
abbrev Change := Part → Nat → List Member → List Member → Prop

inductive Edit (change : Change) : Part → Nat → Value → Value → Prop
  | here {part : Part} {room : Nat} {members others : List Member}
      (hChange : change part (room - 1) members others) :
      Edit change part room (.object members) (.object others)
  | member {part : Part} {room : Nat} {front back : List Member} {key : Text} {v w : Value}
      (hEdit : Edit change (part.ofMember (.object (front ++ (key, v) :: back)) key) (room - 1) v w) :
      Edit change part room (.object (front ++ (key, v) :: back))
        (.object (front ++ (key, w) :: back))
  | item {part : Part} {room : Nat} {front back : List Value} {v w : Value}
      (hEdit : Edit change (part.ofItem (.array (front ++ v :: back)) front.length) (room - 1) v w) :
      Edit change part room (.array (front ++ v :: back)) (.array (front ++ w :: back))

def Reordered : Change := fun _ _ members others => members.Perm others

/-- One member is added that is no field; the names in a type table are no fields either, but there
every member counts. -/
inductive Inserted (part : Part) (room : Nat) : List Member → List Member → Prop
  | intro {front back : List Member} {key : String} {v : Value} (hPart : part ≠ .types)
      (hKey : key ∉ (part.fields (.object (front ++ back))).map Prod.fst)
      (hSound : part.isChecked = true → v.isSound room = true) :
      Inserted part room (front ++ back) (front ++ (some key, v) :: back)

inductive Harmless (part : Part) (room : Nat) : List Member → List Member → Prop
  | reordered {members others : List Member} (hDistinct : (members.filterMap Prod.fst).Nodup)
      (hPerm : members.Perm others) : Harmless part room members others
  | inserted {members others : List Member} (hInserted : Inserted part room members others) :
      Harmless part room members others

theorem Edit.mono {change weaker : Change} {part : Part} {room : Nat} {v w : Value}
    (hChange : ∀ part room members others,
      change part room members others → weaker part room members others)
    (hEdit : Edit change part room v w) : Edit weaker part room v w := by
  induction hEdit with
  | here hHere => exact .here (hChange _ _ _ _ hHere)
  | member _ ih => exact .member ih
  | item _ ih => exact .item ih

theorem Edit.harmless_of_inserted {part : Part} {room : Nat} {v w : Value}
    (hEdit : Edit Inserted part room v w) : Edit Harmless part room v w :=
  hEdit.mono fun _ _ _ _ => .inserted

theorem Edit.harmless_of_reordered {part : Part} {room : Nat} {v w : Value}
    (hEdit : Edit Reordered part room v w) (hDistinct : v.KeysDistinct) :
    Edit Harmless part room v w ∧ w.KeysDistinct := by
  induction hEdit with
  | here hPerm =>
    cases hDistinct with
    | object hKeys hValues =>
      exact ⟨.here (.reordered hKeys hPerm), .object ((hPerm.filterMap _).nodup_iff.1 hKeys)
        fun m hm => hValues m (hPerm.mem_iff.2 hm)⟩
  | @member _ _ front back key v w _ ih =>
    cases hDistinct with
    | object hKeys hValues =>
      rw [List.forall_mem_append, List.forall_mem_cons] at hValues
      obtain ⟨hFront, hValue, hBack⟩ := hValues
      obtain ⟨hHarmless, hEdited⟩ := ih hValue
      refine ⟨.member hHarmless, .object ?_ ?_⟩
      · rw [List.filterMap_append, List.filterMap_cons] at hKeys ⊢
        exact hKeys
      · rw [List.forall_mem_append, List.forall_mem_cons]
        exact ⟨hFront, hEdited, hBack⟩
  | item _ ih =>
    cases hDistinct with
    | array hItems =>
      rw [List.forall_mem_append, List.forall_mem_cons] at hItems
      obtain ⟨hFront, hItem, hBack⟩ := hItems
      obtain ⟨hHarmless, hEdited⟩ := ih hItem
      refine ⟨.item hHarmless, .array ?_⟩
      rw [List.forall_mem_append, List.forall_mem_cons]
      exact ⟨hFront, hEdited, hBack⟩

end CostlyCalls
