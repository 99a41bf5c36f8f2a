import CostlyCalls.Proofs.Json.Records
import CostlyCalls.Snapshot.FromJson
import CostlyCalls.Snapshot.ToJson

/-!
# Types and symbols in JSON

Static types and symbols are read back from their JSON form as far as there is room for their
nesting. Whatever way a value writes a type or a symbol, the JSON form of what is read nests no
deeper than the value.
-/

set_option autoImplicit false

namespace CostlyCalls

open Json

namespace StaticType

theorem depth_toJson_pos (t : StaticType) : 0 < t.toJson.depth := by
  cases t <;> exact Nat.succ_pos _

theorem toJson_ne_null (t : StaticType) : t.toJson ≠ .null := by
  cases t <;> exact nofun

theorem depth_toJson_array (t : StaticType) :
    (StaticType.array t).toJson.depth = t.toJson.depth + 1 := by
  simp [toJson, Value.record, Value.text, Value.depth, Value.membersDepth]

theorem readable_toJson (t : StaticType) : t.toJson.Readable := by
  induction t with
  | array element ih => exact .record (by simpa using ⟨.text _, ih⟩)
  | named name => exact .record (by simpa using ⟨.text _, .text _⟩)
  | parameter name => exact .record (by simpa using ⟨.text _, .text _⟩)
  | dynamic => exact .record (by simpa using .text _)
  | unresolved => exact .record (by simpa using .text _)

theorem ofJson?_toJson (room : Nat) (indexed : Bool) (t : StaticType) :
    ofJson? room indexed t.toJson = if t.toJson.depth ≤ room then some t else none := by
  induction room generalizing indexed t with
  | zero => exact (if_neg (Nat.not_le_of_gt t.depth_toJson_pos)).symm
  | succ room ih =>
    cases t with
    | array element =>
      have hTagged : tagged? indexed tags (StaticType.array element).toJson =
          some ("array", .record [("element", element.toJson)]) :=
        tagged?_record (by decide) (by simp [tagKey])
      have hFields : fields? ["element"] (.record [("element", element.toJson)]) =
          some [some element.toJson] := fields?_record (by simp)
      simp [ofJson?, hTagged, hFields, depth_toJson_array, required?, ih]
    | named name =>
      have hTagged : tagged? indexed tags (StaticType.named name).toJson =
          some ("named", .record [("name", .text name)]) :=
        tagged?_record (by decide) (by simp [tagKey])
      have hFields : fields? ["name"] (.record [("name", .text name)]) =
          some [some (.text name)] := fields?_record (by simp)
      have hDepth : (StaticType.named name).toJson.depth = 1 := rfl
      simp [ofJson?, hTagged, hFields, hDepth, required?, text?_text]
    | parameter name =>
      have hTagged : tagged? indexed tags (StaticType.parameter name).toJson =
          some ("type_parameter", .record [("name", .text name)]) :=
        tagged?_record (by decide) (by simp [tagKey])
      have hFields : fields? ["name"] (.record [("name", .text name)]) =
          some [some (.text name)] := fields?_record (by simp)
      have hDepth : (StaticType.parameter name).toJson.depth = 1 := rfl
      simp [ofJson?, hTagged, hFields, hDepth, required?, text?_text]
    | dynamic =>
      have hTagged : tagged? indexed tags StaticType.dynamic.toJson =
          some ("dynamic", .record []) := tagged?_record (by decide) (by simp)
      have hDepth : StaticType.dynamic.toJson.depth = 1 := rfl
      simp [ofJson?, hTagged, hDepth, Value.record, unit?]
    | unresolved =>
      have hTagged : tagged? indexed tags StaticType.unresolved.toJson =
          some ("error", .record []) := tagged?_record (by decide) (by simp)
      have hDepth : StaticType.unresolved.toJson.depth = 1 := rfl
      simp [ofJson?, hTagged, hDepth, Value.record, unit?]

theorem exists_element_of_ofJson? {room : Nat} {indexed : Bool} {v : Value} {element : StaticType}
    (hRead : ofJson? (room + 1) indexed v = some (.array element)) :
    ∃ w, w.depth < v.depth ∧ ofJson? room true w = some element := by
  obtain ⟨⟨tag, content⟩, hTagged, hRead⟩ := Option.bind_eq_some_iff.1 hRead
  obtain ⟨-, hContent⟩ := depth_le_of_tagged? hTagged
  dsimp only at hRead
  split at hRead
  · obtain ⟨fields, hFields, hRead⟩ := Option.bind_eq_some_iff.1 hRead
    split at hRead
    · next field =>
      obtain ⟨t, hField, hArray⟩ := Option.map_eq_some_iff.1 hRead
      cases hArray
      obtain ⟨w, hw, hElement⟩ := Option.bind_eq_some_iff.1 hField
      subst hw
      exact ⟨w, Nat.lt_of_lt_of_le (depth_lt_of_fields? hFields List.mem_cons_self) hContent,
        hElement⟩
    · cases hRead
  case h_2 | h_3 =>
    obtain ⟨_, _, hRead⟩ := Option.bind_eq_some_iff.1 hRead
    split at hRead
    · obtain ⟨_, _, hOther⟩ := Option.map_eq_some_iff.1 hRead
      cases hOther
    · cases hRead
  case h_4 | h_5 =>
    obtain ⟨_, _, hOther⟩ := Option.map_eq_some_iff.1 hRead
    cases hOther

theorem depth_le_of_ofJson? {room : Nat} {indexed : Bool} {v : Value} {t : StaticType}
    (hRead : ofJson? room indexed v = some t) : t.toJson.depth ≤ v.depth := by
  induction room generalizing indexed v t with
  | zero => cases hRead
  | succ room ih =>
    cases t with
    | array element =>
      obtain ⟨w, hw, hElement⟩ := exists_element_of_ofJson? hRead
      rw [depth_toJson_array]
      exact Nat.lt_of_le_of_lt (ih hElement) hw
    | _ =>
      obtain ⟨_, hTagged, _⟩ := Option.bind_eq_some_iff.1 hRead
      obtain ⟨hPos, hContent⟩ := depth_le_of_tagged? hTagged
      exact Nat.lt_of_lt_of_le hPos hContent

end StaticType

namespace Symbol

theorem roleOf?_tag (role : Role) : roleOf? role.tag = some role := by cases role <;> rfl

theorem tag_mem_tags (role : Role) : role.tag ∈ tags := by cases role <;> decide

theorem toJson_ne_null (s : Symbol) : s.toJson ≠ .null := by
  cases s <;> exact nofun

theorem depth_toJson_method_le_iff {m : Method} {bound : Nat} :
    (Symbol.method m).toJson.depth ≤ bound + 1 ↔
      ∀ t, m.returnType = some t → t.toJson.depth ≤ bound := by
  simp [toJson, Value.depth_record_le_iff, Value.depth_ofOption_le_iff]

theorem depth_toJson_typed_le_iff {role : Role} {name : String} {t : StaticType} {bound : Nat} :
    (Symbol.typed role name t).toJson.depth ≤ bound + 1 ↔ t.toJson.depth ≤ bound := by
  simp [toJson, Value.depth_record_le_iff]

theorem readable_toJson (s : Symbol) : s.toJson.Readable := by
  cases s with
  | method m =>
    have hCount : m.parameterCount.toNat ≤ Decimal.wordLimit :=
      Nat.le_pred_of_lt m.parameterCount.toNat_lt
    refine .record ?_
    simp only [List.forall_mem_cons]
    exact ⟨.text _, .text _, .ofOption .text _, .nat hCount,
      .ofOption StaticType.readable_toJson _, by simp⟩
  | typed role name t =>
    refine .record ?_
    simp only [List.forall_mem_cons]
    exact ⟨.text _, .text _, t.readable_toJson, by simp⟩

theorem ofJson?_toJson {room : Nat} {s : Symbol} (hDepth : s.toJson.depth ≤ room + 1) :
    ofJson? room s.toJson = some s := by
  cases s with
  | typed role name t =>
    have hTagged : tagged? false tags (Symbol.typed role name t).toJson =
        some (role.tag, .record [("name", .text name), ("type", t.toJson)]) :=
      tagged?_record (tag_mem_tags role) (by simp [tagKey])
    have hFields : fields? ["name", "type"] (.record [("name", .text name), ("type", t.toJson)]) =
        some [some (.text name), some t.toJson] := fields?_record (by simp)
    rw [depth_toJson_typed_le_iff] at hDepth
    simp [ofJson?, hTagged, roleOf?_tag, hFields, required?, text?_text,
      StaticType.ofJson?_toJson, hDepth]
  | method m =>
    have hTagged : tagged? false tags (Symbol.method m).toJson =
        some ("method", .record [("name", .text m.name),
          ("containing_type", .ofOption .text m.containingType),
          ("parameter_count", .nat m.parameterCount.toNat),
          ("return_type", .ofOption StaticType.toJson m.returnType)]) :=
      tagged?_record (by decide) (by simp [tagKey])
    have hFields : fields? ["name", "containing_type", "parameter_count", "return_type"]
        (.record [("name", .text m.name),
          ("containing_type", .ofOption .text m.containingType),
          ("parameter_count", .nat m.parameterCount.toNat),
          ("return_type", .ofOption StaticType.toJson m.returnType)]) =
        some [some (.text m.name), some (.ofOption .text m.containingType),
          some (.nat m.parameterCount.toNat), some (.ofOption StaticType.toJson m.returnType)] :=
      fields?_record (by simp)
    have hContaining : optional? text? (some (.ofOption .text m.containingType)) =
        some m.containingType := optional?_ofOption (fun _ => nofun) fun _ _ => text?_text _
    have hReturn : optional? (StaticType.ofJson? room true)
        (some (.ofOption StaticType.toJson m.returnType)) = some m.returnType := by
      refine optional?_ofOption StaticType.toJson_ne_null fun t ht => ?_
      rw [StaticType.ofJson?_toJson, if_pos (depth_toJson_method_le_iff.1 hDepth t ht)]
    simp [ofJson?, hTagged, roleOf?, hFields, required?, defaulted?, text?_text, uint64?_nat,
      hContaining, hReturn]

theorem depth_le_of_ofJson? {room : Nat} {v : Value} {s : Symbol}
    (hRead : ofJson? room v = some s) : s.toJson.depth ≤ v.depth := by
  obtain ⟨⟨tag, content⟩, hTagged, hRead⟩ := Option.bind_eq_some_iff.1 hRead
  obtain ⟨hPos, hContent⟩ := depth_le_of_tagged? hTagged
  obtain ⟨bound, hBound⟩ := Nat.exists_eq_add_of_lt (Nat.lt_of_lt_of_le hPos hContent)
  rw [Nat.zero_add] at hBound
  have hField : ∀ {names : List String} {fields : List (Option Value)} {w : Value},
      fields? names content = some fields → some w ∈ fields → w.depth ≤ bound := by
    intro names fields w hFields hw
    have hLess := depth_lt_of_fields? hFields hw
    omega
  rw [hBound]
  dsimp only at hRead
  split at hRead
  · obtain ⟨fields, hFields, hRead⟩ := Option.bind_eq_some_iff.1 hRead
    split at hRead
    · obtain ⟨name, _, hRead⟩ := Option.bind_eq_some_iff.1 hRead
      obtain ⟨t, hType, hRead⟩ := Option.bind_eq_some_iff.1 hRead
      cases hRead
      obtain ⟨w, rfl, hType⟩ := Option.bind_eq_some_iff.1 hType
      rw [depth_toJson_typed_le_iff]
      exact Nat.le_trans (StaticType.depth_le_of_ofJson? hType) (hField hFields (by simp))
    · cases hRead
  · obtain ⟨fields, hFields, hRead⟩ := Option.bind_eq_some_iff.1 hRead
    split at hRead
    · obtain ⟨name, _, hRead⟩ := Option.bind_eq_some_iff.1 hRead
      obtain ⟨containingType, _, hRead⟩ := Option.bind_eq_some_iff.1 hRead
      obtain ⟨parameterCount, _, hRead⟩ := Option.bind_eq_some_iff.1 hRead
      obtain ⟨returnType, hReturn, hRead⟩ := Option.bind_eq_some_iff.1 hRead
      cases hRead
      rw [depth_toJson_method_le_iff]
      intro t ht
      obtain ⟨w, rfl, hType⟩ := exists_of_optional? hReturn ht
      exact Nat.le_trans (StaticType.depth_le_of_ofJson? hType) (hField hFields (by simp))
    · cases hRead

end Symbol

end CostlyCalls
