import TrieFeed.Proofs.Json.Record
import TrieFeed.Proofs.Number.Rounding
import TrieFeed.Provider.Schema.Wire
/-!
# Schemas read back

A schema that was written to a document is read back field by field, as a schema and as a value of a
script. All of it comes back except for bounds that are not finite, for which a document has no
number.
-/
namespace TrieFeed.Schema

open Fields (there)
open Json (asRecord)

/-! ## Lengths -/

theorem lengthOf_lt (x : Binary64) : lengthOf x < 2 ^ 32 := by
  rw [lengthOf]
  cases x.shape with
  | notANumber => decide
  | infinite negative => cases negative <;> decide
  | finite negative m e =>
    cases negative with
    | true => exact Nat.two_pow_pos 32
    | false => exact Nat.lt_of_le_of_lt (Nat.min_le_right ..) (by decide)

theorem lengthOf_of_trunc {x : Binary64} {n : Int} (h : x.trunc? = some n) :
    lengthOf x = min n.toNat (2 ^ 32 - 1) := by
  rw [Binary64.trunc?] at h
  rw [lengthOf]
  cases hs : x.shape with
  | notANumber => rw [hs] at h; cases h
  | infinite negative => rw [hs] at h; cases h
  | finite negative m e =>
    rw [hs] at h
    cases h
    cases negative with
    | true => simp
    | false => rfl

/-- A length that was written as a number is read as itself. -/
theorem lengthOf_ofInt {n : Nat} (h : n < 2 ^ 32) : lengthOf (.ofInt n) = n := by
  have hq : (Binary64.ofInt n).toRat? = some ((n : Int) : ℚ) :=
    Binary64.toRat?_ofInt (by rw [Int.natAbs_natCast, Nat.pow_eq]; omega)
  have ht : (Binary64.ofInt n).trunc? = some (n : Int) :=
    Binary64.trunc?_eq_some_iff.mpr ⟨_, hq, .intCast n⟩
  rw [lengthOf_of_trunc ht]
  omega

/-- Lengths fit into words of thirty-two bits. -/
structure Bounds.Fits (bounds : Bounds) : Prop where
  minLength : ∀ n ∈ bounds.minLength, n < 2 ^ 32
  maxLength : ∀ n ∈ bounds.maxLength, n < 2 ^ 32

def Fits (schema : Schema) : Prop := ∀ field ∈ schema.fields, ∀ bounds ∈ field.bounds, bounds.Fits

theorem Bounds.ofRecord_fits (fields : Record) : (Bounds.ofRecord fields).Fits := by
  constructor <;>
    · intro n hn
      obtain ⟨x, -, rfl⟩ := Option.map_eq_some_iff.mp hn
      exact lengthOf_lt x

theorem ofValue_fits (value : Value) : (ofValue value).Fits := by
  intro field hf bounds hb
  obtain ⟨item, -, hi⟩ := List.mem_filterMap.mp hf
  obtain ⟨fields, -, hr⟩ := Option.bind_eq_some_iff.mp hi
  rw [Field.ofRecord?] at hr
  split at hr
  · cases hr
  · cases hr
    obtain ⟨validation, -, rfl⟩ := Option.map_eq_some_iff.mp hb
    exact Bounds.ofRecord_fits validation

/-! ## What a document holds of a schema -/

def Bounds.documented (bounds : Bounds) : Bounds :=
  { bounds with min := bounds.min.filter (·.isFinite), max := bounds.max.filter (·.isFinite) }

def Field.documented (field : Field) : Field :=
  { field with bounds := field.bounds.map Bounds.documented }

/-- The schema without the bounds that no document has a number for. -/
def documented (schema : Schema) : Schema := ⟨schema.fields.map Field.documented⟩

/-- All bounds on numbers are finite. -/
def Finite (schema : Schema) : Prop :=
  ∀ field ∈ schema.fields, ∀ bounds ∈ field.bounds,
    (∀ x ∈ bounds.min, x.isFinite) ∧ ∀ x ∈ bounds.max, x.isFinite

theorem filter_eq_self_iff {α : Type} {p : α → Bool} {o : Option α} :
    o.filter p = o ↔ ∀ a ∈ o, p a := by
  cases o with
  | none => simp
  | some a => cases hp : p a <;> simp [hp]

theorem Bounds.documented_eq_self_iff {bounds : Bounds} : bounds.documented = bounds ↔
    (∀ x ∈ bounds.min, x.isFinite) ∧ ∀ x ∈ bounds.max, x.isFinite := by
  rw [← filter_eq_self_iff, ← filter_eq_self_iff]
  constructor
  · intro h
    exact ⟨congrArg Bounds.min h, congrArg Bounds.max h⟩
  · rintro ⟨hmin, hmax⟩
    rw [Bounds.documented, hmin, hmax]

theorem Field.documented_eq_self_iff {field : Field} : field.documented = field ↔
    ∀ bounds ∈ field.bounds, bounds.documented = bounds := by
  have hb : field.documented = field ↔ field.bounds.map Bounds.documented = field.bounds := by
    constructor
    · intro h
      exact congrArg Field.bounds h
    · intro h
      rw [Field.documented, h]
  rw [hb]
  cases field.bounds <;> simp

theorem documented_eq_self_iff {schema : Schema} : schema.documented = schema ↔ schema.Finite := by
  have hf : schema.documented = schema ↔ schema.fields.map Field.documented = schema.fields := by
    constructor
    · intro h
      exact congrArg Schema.fields h
    · intro h
      rw [documented, h]
  rw [hf, Value.map_items_eq_self_iff]
  refine forall₂_congr fun field _ => Field.documented_eq_self_iff.trans ?_
  exact forall₂_congr fun bounds _ => Bounds.documented_eq_self_iff

/-! ## The fields of a document -/

def Choice.wire (choice : Choice) : Fields (Option Json) :=
  [("value", some (.text choice.value)), ("label", some (.text choice.label))]

def lengthToJson (n : Nat) : Json := .int n

def Bounds.wire (bounds : Bounds) : Fields (Option Json) :=
  [("min", bounds.min.map boundToJson), ("max", bounds.max.map boundToJson),
    ("pattern", bounds.pattern.map .text), ("minLength", bounds.minLength.map lengthToJson),
    ("maxLength", bounds.maxLength.map lengthToJson)]

/-- The choices of a field as a document has them, which has none where there are none. -/
def choicesToJson? (choices : List Choice) : Option Json :=
  if choices.isEmpty then none else some (.list (choices.map Choice.toJson))

def Field.wire (field : Field) : Fields (Option Json) :=
  [("name", some (.text field.name)), ("label", some (.text field.label)),
    ("type", some (.text field.kind.wireName)), ("required", some (.bool field.required)),
    ("description", field.description.map .text), ("placeholder", field.placeholder.map .text),
    ("defaultValue", field.defaultValue.map .text),
    ("validation", field.bounds.map Bounds.toJson), ("options", choicesToJson? field.choices)]

theorem there_present {α : Type} (name : String) (write : α → Json) (value : Option α)
    (rest : Fields (Option Json)) :
    there ((name, value.map write) :: rest) = present name write value ++ there rest := by
  cases value <;> rfl

theorem present_length (name : String) (length : Option Nat) :
    present name (fun n => .int n) length = present name lengthToJson length := by
  cases length <;> rfl

theorem Choice.toJson_eq (choice : Choice) : choice.toJson = .object (there choice.wire) := rfl

theorem Bounds.toJson_eq (bounds : Bounds) : bounds.toJson = .object (there bounds.wire) := by
  have hn : there ([] : Fields (Option Json)) = [] := rfl
  simp only [Bounds.toJson, Bounds.wire, present_length, there_present, hn, List.append_assoc,
    List.append_nil]

theorem Field.toJson_eq (field : Field) : field.toJson = .object (there field.wire) := by
  have hc : there [("options", choicesToJson? field.choices)] =
      if field.choices.isEmpty then []
      else [("options", Json.list (field.choices.map Choice.toJson))] := by
    rw [choicesToJson?]
    split <;> rfl
  have hs (name : String) (json : Json) (rest : Fields (Option Json)) :
    there ((name, some json) :: rest) = (name, json) :: there rest := rfl
  simp only [Field.toJson, Field.wire, there_present, hc, hs, List.append_assoc,
    List.cons_append, List.nil_append]

theorem Choice.distinct_wire (choice : Choice) : Fields.Distinct choice.wire := by
  have h : ["value", "label"].Nodup := by decide
  exact h

theorem Bounds.distinct_wire (bounds : Bounds) : Fields.Distinct bounds.wire := by
  have h : ["min", "max", "pattern", "minLength", "maxLength"].Nodup := by decide
  exact h

theorem Field.distinct_wire (field : Field) : Fields.Distinct field.wire := by
  have h : ["name", "label", "type", "required", "description", "placeholder", "defaultValue",
    "validation", "options"].Nodup := by decide
  exact h

/-! ## Read as a schema -/

theorem absentable?_text (text : Option String) :
    Json.absentable? Json.text? (text.map .text) = some text := by
  cases text <;> rfl

theorem absentable?_bound (bound : Option Binary64) :
    Json.absentable? Json.number? (bound.map boundToJson) = some (bound.filter (·.isFinite)) := by
  cases bound with
  | none => rfl
  | some x =>
    rw [Option.map_some, boundToJson, Option.filter_some]
    cases x.isFinite <;> rfl

theorem absentable?_length {length : Option Nat} (h : ∀ n ∈ length, n < 2 ^ 32) :
    Json.absentable? (Json.word? 32) (length.map lengthToJson) = some length := by
  cases length with
  | none => rfl
  | some n =>
    have hn : Json.word? 32 (lengthToJson n) = some n := if_pos (h n rfl)
    change (Json.word? 32 (lengthToJson n)).map some = _
    rw [hn]
    rfl

theorem Choice.ofJson?_toJson (choice : Choice) : ofJson? choice.toJson = some choice := by
  rw [toJson_eq, ofJson?, Json.record?_there choice.distinct_wire rfl]
  rfl

theorem Bounds.ofJson?_toJson {bounds : Bounds} (h : bounds.Fits) :
    ofJson? bounds.toJson = some bounds.documented := by
  rw [toJson_eq, ofJson?, Json.record?_there bounds.distinct_wire rfl]
  simp only [wire, List.map_cons, List.map_nil, absentable?_bound, absentable?_text,
    absentable?_length h.minLength, absentable?_length h.maxLength]
  rfl

theorem FieldKind.choice?_wireName (kind : FieldKind) :
    Json.choice? FieldKind.choices (.text kind.wireName) = some kind := by
  cases kind <;> decide

theorem defaulted?_choices (choices : List Choice) :
    Json.defaulted? [] (Json.listOf? Choice.ofJson?) (choicesToJson? choices) = some choices := by
  cases choices with
  | nil => rfl
  | cons choice rest =>
    exact (Json.listOf?_map (f := id) fun c _ => c.ofJson?_toJson).trans
      (congrArg some (List.map_id _))

theorem Field.ofJson?_toJson {field : Field} (h : ∀ bounds ∈ field.bounds, bounds.Fits) :
    ofJson? field.toJson = some field.documented := by
  have hbounds : Json.absentable? Bounds.ofJson? (field.bounds.map Bounds.toJson) =
      some (field.bounds.map Bounds.documented) :=
    Json.absentable?_map nofun fun bounds hb => Bounds.ofJson?_toJson (h bounds hb)
  rw [toJson_eq, ofJson?, Json.record?_there field.distinct_wire rfl]
  simp only [wire, List.map_cons, List.map_nil, absentable?_text, hbounds, defaulted?_choices]
  rw [Json.required?, Json.required?, Json.required?, Json.required?, Option.bind_some,
    Option.bind_some, Option.bind_some, Option.bind_some, FieldKind.choice?_wireName]
  rfl

theorem ofJson?_toJson {schema : Schema} (h : schema.Fits) :
    ofJson? schema.toJson = some schema.documented := by
  have hfields : Json.listOf? Field.ofJson? (.list (schema.fields.map Field.toJson)) =
      some (schema.fields.map Field.documented) :=
    Json.listOf?_map fun field hf => Field.ofJson?_toJson (h field hf)
  have hrecord : schema.toJson.record? [.plain "fields"] =
      some [some (.list (schema.fields.map Field.toJson))] := rfl
  rw [ofJson?, hrecord]
  change (Json.required? (Json.listOf? Field.ofJson?) (some _)).map Schema.mk = _
  rw [Json.required?, Option.bind_some, hfields]
  rfl

/-! ## Read as a value -/

section

variable {fields : Fields (Option Json)} {name : String} {bound : Option Binary64}

theorem fieldText?_asRecord (hd : Fields.Distinct fields) {text : Option String}
    (hf : Fields.get? name fields = some (text.map .text)) :
    fieldText? name (asRecord fields) = text := by
  rw [fieldText?, Json.get?_asRecord hd hf]
  cases text <;> rfl

theorem fieldNumber?_asRecord (hd : Fields.Distinct fields)
    (hf : Fields.get? name fields = some (bound.map boundToJson)) :
    fieldNumber? name (asRecord fields) = bound.filter (·.isFinite) := by
  rw [fieldNumber?, Json.get?_asRecord hd hf]
  cases bound with
  | none => rfl
  | some x =>
    rw [Option.map_some, Option.map_some, boundToJson, Option.filter_some]
    cases x.isFinite <;> rfl

theorem map_lengthOf_asRecord (hd : Fields.Distinct fields) {length : Option Nat}
    (hl : ∀ n ∈ length, n < 2 ^ 32)
    (hf : Fields.get? name fields = some (length.map lengthToJson)) :
    (fieldNumber? name (asRecord fields)).map lengthOf = length := by
  rw [fieldNumber?, Json.get?_asRecord hd hf]
  cases length with
  | none => rfl
  | some n => exact congrArg some (lengthOf_ofInt (hl n rfl))

end

theorem Bounds.ofRecord_asRecord {bounds : Bounds} (h : bounds.Fits) :
    ofRecord (asRecord bounds.wire) = bounds.documented := by
  have hd := bounds.distinct_wire
  have hmin : fieldNumber? "min" (asRecord bounds.wire) = bounds.min.filter (·.isFinite) :=
    fieldNumber?_asRecord hd rfl
  have hmax : fieldNumber? "max" (asRecord bounds.wire) = bounds.max.filter (·.isFinite) :=
    fieldNumber?_asRecord hd rfl
  have hpattern : fieldText? "pattern" (asRecord bounds.wire) = bounds.pattern :=
    fieldText?_asRecord hd rfl
  have hleast : (fieldNumber? "minLength" (asRecord bounds.wire)).map lengthOf = bounds.minLength :=
    map_lengthOf_asRecord hd h.minLength rfl
  have hmost : (fieldNumber? "maxLength" (asRecord bounds.wire)).map lengthOf = bounds.maxLength :=
    map_lengthOf_asRecord hd h.maxLength rfl
  rw [ofRecord, hmin, hmax, hpattern, hleast, hmost, documented]

theorem Bounds.ofRecord_ofJson {bounds : Option Bounds} (h : ∀ b ∈ bounds, b.Fits) :
    (((bounds.map toJson).map Value.ofJson).bind Value.map?).map ofRecord =
      bounds.map documented := by
  cases bounds with
  | none => rfl
  | some b =>
    rw [Option.map_some, Option.map_some, toJson_eq, Json.ofJson_there]
    exact congrArg some (ofRecord_asRecord (h b rfl))

theorem FieldKind.ofName_wireName (kind : FieldKind) : ofName kind.wireName = kind := by
  cases kind <;> decide

theorem filterMap_choices (choices : List Choice) :
    ((((choicesToJson? choices).map Value.ofJson).bind Value.list?).getD []).filterMap
      Choice.ofValue? = choices := by
  rw [choicesToJson?]
  split
  · rename_i he
    rw [List.isEmpty_iff.mp he]
    rfl
  · rw [Option.map_some, Value.ofJson_list]
    change ((choices.map Choice.toJson).map Value.ofJson).filterMap Choice.ofValue? = choices
    rw [List.filterMap_map, List.filterMap_map]
    exact List.filterMap_some

theorem Field.ofRecord?_asRecord {field : Field} (h : ∀ bounds ∈ field.bounds, bounds.Fits) :
    ofRecord? (asRecord field.wire) = some field.documented := by
  have hd := field.distinct_wire
  have hname : fieldText? "name" (asRecord field.wire) = some field.name :=
    fieldText?_asRecord hd rfl
  have hlabel : fieldText? "label" (asRecord field.wire) = some field.label :=
    fieldText?_asRecord hd rfl
  have hkind : fieldText? "type" (asRecord field.wire) = some field.kind.wireName :=
    fieldText?_asRecord hd rfl
  have hrequired : Fields.get? "required" (asRecord field.wire) =
      (some (.bool field.required)).map .ofJson := Json.get?_asRecord hd rfl
  have hdescription : fieldText? "description" (asRecord field.wire) = field.description :=
    fieldText?_asRecord hd rfl
  have hplaceholder : fieldText? "placeholder" (asRecord field.wire) = field.placeholder :=
    fieldText?_asRecord hd rfl
  have hdefault : fieldText? "defaultValue" (asRecord field.wire) = field.defaultValue :=
    fieldText?_asRecord hd rfl
  have hbounds : Fields.get? "validation" (asRecord field.wire) =
      (field.bounds.map Bounds.toJson).map .ofJson := Json.get?_asRecord hd rfl
  have hchoices : Fields.get? "options" (asRecord field.wire) =
      (choicesToJson? field.choices).map .ofJson := Json.get?_asRecord hd rfl
  rw [ofRecord?, hname, hlabel, hkind, hrequired, hdescription, hplaceholder, hdefault, hbounds,
    hchoices]
  dsimp only
  rw [Bounds.ofRecord_ofJson h, filterMap_choices, Option.map_some, FieldKind.ofName_wireName]
  rfl

theorem Field.ofValue?_ofJson {field : Field} (h : ∀ bounds ∈ field.bounds, bounds.Fits) :
    ofValue? (.ofJson field.toJson) = some field.documented := by
  rw [toJson_eq, Json.ofJson_there]
  exact ofRecord?_asRecord h

theorem ofValue_ofJson {schema : Schema} (h : schema.Fits) :
    ofValue (.ofJson schema.toJson) = schema.documented := by
  have hfields : ((schema.fields.map Field.toJson).map Value.ofJson).filterMap Field.ofValue? =
      schema.fields.map Field.documented := by
    rw [List.filterMap_map, List.filterMap_map, ← List.filterMap_eq_map]
    exact List.filterMap_congr fun field hf => Field.ofValue?_ofJson (h field hf)
  have hwritten : Value.ofJson schema.toJson =
      .map [("fields", .list ((schema.fields.map Field.toJson).map Value.ofJson))] :=
    congrArg (fun items => Value.map [("fields", .list items)]) (Value.itemsOfJson_eq _)
  rw [hwritten]
  exact congrArg Schema.mk hfields

/-! ## What is written -/

theorem sound_map {α : Type} {write : α → Json} {value : Option α}
    (h : ∀ a ∈ value, (write a).Sound) : ∀ json ∈ value.map write, json.Sound := by
  intro json hj
  obtain ⟨a, ha, rfl⟩ := Option.map_eq_some_iff.mp hj
  exact h a ha

theorem boundToJson_sound (x : Binary64) : (boundToJson x).Sound := by
  rw [boundToJson]
  split
  · rename_i hf
    exact .float hf
  · exact .null

theorem lengthToJson_sound {n : Nat} (h : n < 2 ^ 32) : (lengthToJson n).Sound :=
  .int (by omega) (by omega)

theorem Choice.toJson_sound (choice : Choice) : choice.toJson.Sound := by
  refine .object fun f hf => ?_
  rcases List.mem_cons.mp hf with rfl | hf
  · exact .text _
  · rw [List.mem_singleton.mp hf]
    exact .text _

theorem Bounds.toJson_sound {bounds : Bounds} (h : bounds.Fits) : bounds.toJson.Sound := by
  rw [toJson_eq]
  apply Json.sound_there
  simp only [wire, List.forall_mem_cons]
  refine ⟨sound_map fun x _ => boundToJson_sound x, sound_map fun x _ => boundToJson_sound x,
    sound_map fun s _ => .text s, sound_map fun n hn => lengthToJson_sound (h.minLength n hn),
    sound_map fun n hn => lengthToJson_sound (h.maxLength n hn), ?_⟩
  nofun

theorem choicesToJson?_sound (choices : List Choice) :
    ∀ json ∈ choicesToJson? choices, json.Sound := by
  intro json hj
  rw [choicesToJson?] at hj
  split at hj
  · cases hj
  · cases hj
    refine .list fun item hi => ?_
    obtain ⟨choice, -, rfl⟩ := List.mem_map.mp hi
    exact choice.toJson_sound

theorem Field.toJson_sound {field : Field} (h : ∀ bounds ∈ field.bounds, bounds.Fits) :
    field.toJson.Sound := by
  have hsome {json : Json} (hs : json.Sound) : ∀ j ∈ some json, j.Sound := by
    rintro j ⟨⟩
    exact hs
  rw [toJson_eq]
  apply Json.sound_there
  simp only [wire, List.forall_mem_cons]
  refine ⟨hsome (.text _), hsome (.text _), hsome (.text _), hsome (.bool _),
    sound_map fun s _ => .text s, sound_map fun s _ => .text s, sound_map fun s _ => .text s,
    sound_map fun bounds hb => Bounds.toJson_sound (h bounds hb), choicesToJson?_sound _, ?_⟩
  nofun

theorem toJson_sound {schema : Schema} (h : schema.Fits) : schema.toJson.Sound := by
  refine .object fun f hf => ?_
  rw [List.mem_singleton.mp hf]
  refine .list fun item hi => ?_
  obtain ⟨field, hm, rfl⟩ := List.mem_map.mp hi
  exact Field.toJson_sound (h field hm)

/-- Whatever a script describes, its schema can be written to a document, and both readers of the
document yield the schema without the bounds that are not finite: as a schema, and as a value that a
script might describe. So both yield the schema itself exactly if all its bounds are finite. -/
theorem wire_form_read_back (value : Value) :
    (ofValue value).toJson.Sound ∧
    ofJson? (ofValue value).toJson = some (ofValue value).documented ∧
    ofValue (.ofJson (ofValue value).toJson) = (ofValue value).documented ∧
    ((ofValue value).documented = ofValue value ↔ (ofValue value).Finite) :=
  have h := ofValue_fits value
  ⟨toJson_sound h, ofJson?_toJson h, ofValue_ofJson h, documented_eq_self_iff⟩

/-- A field with a bound that is written as a text and means an infinite number. -/
def unbounded : Value :=
  .list [.map [("name", .text "a"), ("validation", .map [("min", .text "inf")])]]

/-- An infinite bound is not among what comes back. -/
theorem infinite_bound_lost :
    (ofValue unbounded).fields.map (fun field => field.bounds.bind Bounds.min) =
      [some (.infinity false)] ∧
    ofJson? (ofValue unbounded).toJson ≠ some (ofValue unbounded) ∧
    ofValue (.ofJson (ofValue unbounded).toJson) ≠ ofValue unbounded := by
  decide +kernel

end TrieFeed.Schema
