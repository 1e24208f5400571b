import TrieFeed.Capability.Set
import TrieFeed.Proofs.Codec.PlutusItems
/-!
# The builder of Plutus data beside the codec

Scripts build Plutus data with one capability and encode values with another. Both read their
arguments in one way, and where the builder answers, the codec answers the same. What the builder
refuses of what the codec takes are the values that have a foreign part.
-/
namespace TrieFeed

open TrieFeed.Outcome (pure_eq_ok bind_eq_ok map_eq_ok mapError_eq_ok
  exists_map_iff exists_error_iff)

namespace Arguments

variable {args other : Arguments} {i : Nat}

/-- The values of a list among the arguments, none where it is absent. -/
def listAt (values : List Value) (i : Nat) : List Value :=
  ((values[i]?).bind Value.list?).getD []

theorem value_eq_ok {v : Value} : args.value i = .ok v ↔ args.get? i = some v := by
  rw [value]
  cases args.get? i <;> simp

theorem itemOf_eq_ok {v : Value} {item : Item} : itemOf v = .ok item ↔ v.toItem = .ok item :=
  mapError_eq_ok

theorem int_eq_ok {n : Int} :
    args.int i = .ok n ↔ ∃ v, args.get? i = some v ∧ v.toItem = .ok (.int n) := by
  rw [int, bind_eq_ok]
  simp only [value_eq_ok, bind_eq_ok, itemOf_eq_ok]
  constructor
  · rintro ⟨v, hv, item, hi, h⟩
    cases item with
    | int m =>
      cases h
      exact ⟨v, hv, hi⟩
    | _ => cases h
  · rintro ⟨v, hv, hi⟩
    exact ⟨v, hv, .int n, hi, rfl⟩

theorem alternative_eq_ok {a : Nat} : args.alternative i = .ok a ↔
    ∃ n, args.int i = .ok n ∧ (0 ≤ n ∧ n < Nat.pow 2 32) ∧ n.toNat = a := by
  rw [alternative, bind_eq_ok]
  constructor
  · rintro ⟨n, hn, h⟩
    split at h
    · cases h
      exact ⟨n, hn, ‹_›, rfl⟩
    · cases h
  · rintro ⟨n, hn, hb, rfl⟩
    exact ⟨n, hn, by rw [if_pos hb]; rfl⟩

theorem list_eq_ok {vs : List Value} : args.list i = .ok vs ↔ args.get? i = some (.list vs) := by
  rw [list, bind_eq_ok]
  constructor
  · rintro ⟨v, hv, h⟩
    rw [value_eq_ok] at hv
    cases v with
    | list items =>
      cases h
      exact hv
    | _ => cases h
  · intro h
    exact ⟨.list vs, value_eq_ok.mpr h, rfl⟩

/-- What capabilities report of a value without an item. -/
def faultError (fault : Value.Fault) : PluginError := .ofCodec fault.toError

theorem itemOf_eq (v : Value) : itemOf v = v.toItem.mapError faultError := rfl

theorem mapM_itemOf_eq (vs : List Value) :
    vs.mapM itemOf = (Value.toItems vs).mapError faultError := by
  induction vs with
  | nil => rw [List.mapM_nil, Value.toItems]; rfl
  | cons v rest ih =>
    rw [List.mapM_cons, Value.toItems, itemOf_eq, ih]
    cases v.toItem with
    | error fault => rfl
    | ok item => cases Value.toItems rest <;> rfl

theorem mapM_itemOf {vs : List Value} {all : List Item} :
    vs.mapM itemOf = .ok all ↔ Value.toItems vs = .ok all := by
  rw [mapM_itemOf_eq]
  exact mapError_eq_ok

/-- An argument that is absent or null counts as an empty list. -/
theorem items_eq_ok {all : List Item} : args.items i = .ok all ↔
    (args.get? i = none ∧ all = [] ∨ ∃ vs, args.get? i = some (.list vs) ∧
      Value.toItems vs = .ok all) := by
  rw [items]
  cases hg : args.get? i with
  | none => simp [eq_comm]
  | some v =>
    simp only [bind_eq_ok, list_eq_ok, mapM_itemOf, hg]
    simp

theorem toItems_listAt {all : List Item} (h : args.items i = .ok all) :
    Value.toItems (listAt args.values i) = .ok all := by
  rw [items_eq_ok, get?] at h
  rw [listAt]
  rcases h with ⟨hn, rfl⟩ | ⟨vs, hv, hi⟩
  · cases hg : args.values[i]? with
    | none => rw [Option.bind_none, Option.getD_none, Value.toItems]
    | some v =>
      rw [hg] at hn
      cases v with
      | null => exact Value.toItems.eq_1
      | _ => cases hn
  · rw [(Option.filter_eq_some_iff.mp hv).1]
    exact hi

/-! Success does not depend on what the capability and its method are called. -/

theorem get?_congr (h : args.values = other.values) : args.get? i = other.get? i := by
  rw [get?, h, get?]

theorem int_congr (h : args.values = other.values) {n : Int} :
    args.int i = .ok n ↔ other.int i = .ok n := by
  rw [int_eq_ok, int_eq_ok, get?_congr h]

theorem alternative_congr (h : args.values = other.values) {a : Nat} :
    args.alternative i = .ok a ↔ other.alternative i = .ok a := by
  simp only [alternative_eq_ok, int_congr h]

theorem items_congr (h : args.values = other.values) {all : List Item} :
    args.items i = .ok all ↔ other.items i = .ok all := by
  rw [items_eq_ok, items_eq_ok, get?_congr h]

end Arguments

namespace Capability

open Arguments (listAt)
open PlutusData (ofItem ofItems ofConstr toCbor)

variable {method : String} {args other : Arguments} {v : Value}

theorem plutusResult_eq_ok {r : Except PlutusData.Fault PlutusData} {data : PlutusData} :
    plutusResult r = .ok data ↔ r = .ok data :=
  mapError_eq_ok.trans mapError_eq_ok

theorem callPlutus_eq_ok :
    callPlutus method args = .ok v ↔ ∃ data, plutusData method args = .ok data ∧
      .bytes (toCbor data) = v :=
  map_eq_ok

theorem constr_eq_ok {data : PlutusData} : plutusData "constr" args = .ok data ↔
    ∃ a all, args.alternative 0 = .ok a ∧ args.items 1 = .ok all ∧ ofConstr a all = .ok data := by
  have hd : plutusData "constr" args = (do
      let a ← args.alternative 0
      plutusResult (ofConstr a (← args.items 1))) := rfl
  rw [hd]
  simp only [bind_eq_ok, plutusResult_eq_ok]
  constructor
  · rintro ⟨a, ha, all, hi, hd⟩
    exact ⟨a, all, ha, hi, hd⟩
  · rintro ⟨a, all, ha, hi, hd⟩
    exact ⟨a, ha, all, hi, hd⟩

theorem list_eq_ok {data : PlutusData} : plutusData "list" args = .ok data ↔
    ∃ all, args.items 0 = .ok all ∧ ofItem (.list all) = .ok data := by
  have hd : plutusData "list" args = (do plutusResult (ofItem (.list (← args.items 0)))) := rfl
  rw [hd]
  simp only [bind_eq_ok, plutusResult_eq_ok]

theorem bigInt_eq_ok {data : PlutusData} : plutusData "bigInt" args = .ok data ↔
    ∃ n, args.int 0 = .ok n ∧ .int n = data := by
  have hd : plutusData "bigInt" args = (do return .int (← args.int 0)) := rfl
  rw [hd]
  simp only [bind_eq_ok, pure_eq_ok]

theorem encodeConstr_eq_ok : callCodec "encodeConstr" args = .ok v ↔
    ∃ a all, args.alternative 0 = .ok a ∧ args.items 1 = .ok all ∧
      .bytes (Cbor.encodeConstr a all) = v := by
  have hd : callCodec "encodeConstr" args = (do
      let a ← args.alternative 0
      return .bytes (Cbor.encodeConstr a (← args.items 1))) := rfl
  rw [hd]
  simp only [bind_eq_ok, pure_eq_ok]
  constructor
  · rintro ⟨a, ha, all, hi, hd⟩
    exact ⟨a, all, ha, hi, hd⟩
  · rintro ⟨a, all, ha, hi, hd⟩
    exact ⟨a, ha, all, hi, hd⟩

theorem callCodec_encodeList : callCodec "encodeList" args =
    (do return .bytes (Cbor.encodeList (← args.items 0))) := rfl

theorem callCodec_encode : callCodec "encode" args =
    (do return .bytes (Cbor.encode (← encodedItem args))) := rfl

theorem encodeList_eq_ok : callCodec "encodeList" args = .ok v ↔
    ∃ all, args.items 0 = .ok all ∧ .bytes (Cbor.encodeList all) = v := by
  rw [callCodec_encodeList]
  simp only [bind_eq_ok, pure_eq_ok]

theorem encode_eq_ok : callCodec "encode" args = .ok v ↔
    ∃ item, encodedItem args = .ok item ∧ .bytes (Cbor.encode item) = v := by
  rw [callCodec_encode]
  simp only [bind_eq_ok, pure_eq_ok]

/-! ## Both on the same arguments -/

/-- What one capability answers in bytes, another answers too. -/
def Followed (built encoded : Except PluginError Value) : Prop :=
  ∀ v, built = .ok v → (∃ b, v = .bytes b) ∧ encoded = .ok v

theorem constr_followed (h : args.values = other.values) :
    Followed (callPlutus "constr" args) (callCodec "encodeConstr" other) := by
  intro v hv
  obtain ⟨data, hd, rfl⟩ := callPlutus_eq_ok.mp hv
  obtain ⟨a, all, ha, hi, hc⟩ := constr_eq_ok.mp hd
  refine ⟨⟨_, rfl⟩, encodeConstr_eq_ok.mpr ⟨a, all, ?_, ?_, ?_⟩⟩
  · exact (Arguments.alternative_congr h).mp ha
  · exact (Arguments.items_congr h).mp hi
  · rw [PlutusData.toCbor_ofConstr hc]

theorem list_followed (h : args.values = other.values) :
    Followed (callPlutus "list" args) (callCodec "encodeList" other) := by
  intro v hv
  obtain ⟨data, hd, rfl⟩ := callPlutus_eq_ok.mp hv
  obtain ⟨all, hi, hc⟩ := list_eq_ok.mp hd
  refine ⟨⟨_, rfl⟩, encodeList_eq_ok.mpr ⟨all, (Arguments.items_congr h).mp hi, ?_⟩⟩
  rw [PlutusData.toCbor_ofItem hc, Cbor.encodeList]

/-- The codec takes any value where the builder takes numbers. -/
theorem bigInt_followed (h : args.values = other.values) :
    Followed (callPlutus "bigInt" args) (callCodec "encode" other) := by
  intro v hv
  obtain ⟨data, hd, rfl⟩ := callPlutus_eq_ok.mp hv
  obtain ⟨n, hn, rfl⟩ := bigInt_eq_ok.mp hd
  obtain ⟨w, hw, hi⟩ := Arguments.int_eq_ok.mp hn
  refine ⟨⟨_, rfl⟩, encode_eq_ok.mpr ⟨.int n, ?_, ?_⟩⟩
  · rw [encodedItem, ← Arguments.get?_congr h, hw]
    exact Arguments.itemOf_eq_ok.mpr hi
  · rw [toCbor, Cbor.encode]

theorem not_ofItems_iff {i : Nat} {all : List Item} (hi : args.items i = .ok all) :
    (¬∃ datas, ofItems all = .ok datas) ↔
      ∃ field ∈ listAt args.values i, ∃ w, Value.Part w field ∧ w.Foreign := by
  rw [Value.ofItems_toItems (fun _ _ _ => Value.ofItem_toItem) (Arguments.toItems_listAt hi)]
  simp only [not_forall, exists_prop, Value.not_every_iff]

theorem constr_refused (hv : callCodec "encodeConstr" other = .ok v)
    (h : args.values = other.values) :
    (∃ e, callPlutus "constr" args = .error e) ↔
      ∃ field ∈ listAt args.values 1, ∃ w, Value.Part w field ∧ w.Foreign := by
  obtain ⟨a, all, ha, hi, -⟩ := encodeConstr_eq_ok.mp hv
  have ha := (Arguments.alternative_congr h).mpr ha
  have hi := (Arguments.items_congr h).mpr hi
  have hd : (∃ data, plutusData "constr" args = .ok data) ↔ ∃ datas, ofItems all = .ok datas := by
    simp only [constr_eq_ok, ha, hi, Except.ok.injEq, exists_and_left, exists_eq_left', ofConstr,
      exists_map_iff]
  rw [exists_error_iff, callPlutus, exists_map_iff, hd, not_ofItems_iff hi]

theorem list_refused (hv : callCodec "encodeList" other = .ok v)
    (h : args.values = other.values) :
    (∃ e, callPlutus "list" args = .error e) ↔
      ∃ field ∈ listAt args.values 0, ∃ w, Value.Part w field ∧ w.Foreign := by
  obtain ⟨all, hi, -⟩ := encodeList_eq_ok.mp hv
  have hi := (Arguments.items_congr h).mpr hi
  have hd : (∃ data, plutusData "list" args = .ok data) ↔ ∃ datas, ofItems all = .ok datas := by
    simp only [list_eq_ok, hi, Except.ok.injEq, exists_eq_left', ofItem, exists_map_iff]
  rw [exists_error_iff, callPlutus, exists_map_iff, hd, not_ofItems_iff hi]

end Capability

namespace Capabilities

open Capability (Followed plutusBuilder codec)

theorem find?_of_mem_bindings {object : String} {capability : Capability}
    (h : object ∈ capability.bindings) : Capability.find? object = some capability := by
  have hall : ∀ name ∈ capability.bindings, Capability.find? name = some capability := by
    cases capability <;> decide
  exact hall object h

theorem invoke_eq {object method : String} {capability : Capability}
    (h : Capability.find? object = some capability) (hm : capability.methods.contains method)
    (ht : capability.takesBytes) (c : Capabilities) (values : List Value) (host : Host) :
    c.invoke object method values host = c.call capability method
      ⟨capability.name, method, values.map Value.detectBytes⟩ host := by
  rw [invoke, h]
  dsimp only
  rw [if_pos hm, if_pos ht]

/-- On the same arguments, which stand for bytes where they are byte-like, the codec answers in the
same bytes as the builder of Plutus data wherever that answers: for constructors, for lists and for
numbers. Of the constructors and lists that the codec encodes, the builder refuses exactly those with
a field that has a null, a boolean, a text or a map with fields among its parts. -/
theorem builder_agrees (c : Capabilities) (values : List Value) (host : Host)
    {builder encoder : String} (hb : builder ∈ plutusBuilder.bindings)
    (he : encoder ∈ codec.bindings) :
    let built (method : String) := (c.invoke builder method values host).1
    let encoded (method : String) := (c.invoke encoder method values host).1
    let shown := values.map Value.detectBytes
    Followed (built "constr") (encoded "encodeConstr") ∧
    Followed (built "list") (encoded "encodeList") ∧
    Followed (built "bigInt") (encoded "encode") ∧
    (∀ v, encoded "encodeConstr" = .ok v → ((∃ e, built "constr" = .error e) ↔
      ∃ field ∈ Arguments.listAt shown 1, ∃ w, Value.Part w field ∧ w.Foreign)) ∧
    ∀ v, encoded "encodeList" = .ok v → ((∃ e, built "list" = .error e) ↔
      ∃ field ∈ Arguments.listAt shown 0, ∃ w, Value.Part w field ∧ w.Foreign) := by
  intro built encoded shown
  have hbuilt (method : String) (hm : plutusBuilder.methods.contains method) : built method =
      Capability.callPlutus method ⟨plutusBuilder.name, method, shown⟩ :=
    congrArg Prod.fst (invoke_eq (find?_of_mem_bindings hb) hm rfl c values host)
  have hencoded (method : String) (hm : codec.methods.contains method) : encoded method =
      Capability.callCodec method ⟨codec.name, method, shown⟩ :=
    congrArg Prod.fst (invoke_eq (find?_of_mem_bindings he) hm rfl c values host)
  rw [hbuilt "constr" (by decide), hbuilt "list" (by decide), hbuilt "bigInt" (by decide),
    hencoded "encodeConstr" (by decide), hencoded "encodeList" (by decide),
    hencoded "encode" (by decide)]
  exact ⟨Capability.constr_followed rfl, Capability.list_followed rfl,
    Capability.bigInt_followed rfl, fun _ hv => Capability.constr_refused hv rfl,
    fun _ hv => Capability.list_refused hv rfl⟩

/-- A byte-like map and an empty one, as fields of the eighth constructor. -/
def plainArgs : List Value :=
  [.int 7, .list [.map [("0", .int 170), ("length", .int 1)], .map []]]

/-- A field with a map two levels down. -/
def nestedArgs : List Value := [.int 0, .list [.list [.map [("k", .int 1)]]]]

theorem builder_agrees_nested :
    "plutus" ∈ plutusBuilder.bindings ∧ "cbor" ∈ codec.bindings ∧
    (invoke default "plutus" "constr" plainArgs default).1 =
      .ok (.bytes [0xd9, 0x05, 0x00, 0x82, 0x41, 0xaa, 0xa0]) ∧
    (invoke default "cbor" "encodeConstr" plainArgs default).1 =
      .ok (.bytes [0xd9, 0x05, 0x00, 0x82, 0x41, 0xaa, 0xa0]) ∧
    (invoke default "cbor" "encodeConstr" nestedArgs default).1 =
      .ok (.bytes [0xd8, 0x79, 0x81, 0x81, 0xa1, 0x61, 0x6b, 0x01]) ∧
    ∃ e, (invoke default "plutus" "constr" nestedArgs default).1 = .error e := by
  have hb : "plutus" ∈ plutusBuilder.bindings := by decide
  have he : "cbor" ∈ codec.bindings := by decide
  have hp : (invoke default "plutus" "constr" plainArgs default).1 =
      .ok (.bytes [0xd9, 0x05, 0x00, 0x82, 0x41, 0xaa, 0xa0]) := by rfl
  have hn : (invoke default "cbor" "encodeConstr" nestedArgs default).1 =
      .ok (.bytes [0xd8, 0x79, 0x81, 0x81, 0xa1, 0x61, 0x6b, 0x01]) := by rfl
  obtain ⟨hc, -⟩ := builder_agrees default plainArgs default hb he
  obtain ⟨-, -, -, hr, -⟩ := builder_agrees default nestedArgs default hb he
  refine ⟨hb, he, hp, (hc _ hp).2, hn, (hr _ hn).mpr ?_⟩
  have hf : Value.Part (.map [("k", .int 1)]) (.list [.map [("k", .int 1)]]) :=
    .item List.mem_cons_self (.self _)
  have hm : Value.Foreign (.map [("k", .int 1)]) := List.cons_ne_nil _ _
  exact ⟨_, List.mem_cons_self, _, hf, hm⟩

end Capabilities

end TrieFeed
