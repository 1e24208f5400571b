import TrieFeed.Proofs.Capability.Builder
import TrieFeed.Proofs.Value.ByteLike
import TrieFeed.Proofs.Value.Detection
/-!
# The codec's wrappers beside its encoder

Scripts encode a list or a map by a method of its own or by the one for all values. Lists come out
the same either way, errors included. Of the maps those that are byte-like have become bytes before
any method sees them, so that the method for maps refuses what the one for all values encodes.
-/
namespace TrieFeed

namespace Arguments

variable {capability method : String} {v w : Value} {rest : List Value}

theorem mapM_fieldOf_eq (fields : Record) :
    (fields.mapM fun (name, v) => return (Item.text name, ← itemOf v)) =
      (Value.toEntries fields).mapError faultError := by
  induction fields with
  | nil => rw [List.mapM_nil, Value.toEntries]; rfl
  | cons f rest ih =>
    rw [List.mapM_cons, Value.toEntries, ih]
    dsimp only
    rw [itemOf_eq]
    cases f.2.toItem with
    | error fault => rfl
    | ok item => cases Value.toEntries rest <;> rfl

/-- The first argument as methods see it. -/
theorem get?_first (hd : v.detectBytes = w) (hw : w.isNull = false) :
    get? ⟨capability, method, (v :: rest).map Value.detectBytes⟩ 0 = some w := by
  rw [get?, List.map_cons, hd]
  simp [hw]

end Arguments

namespace Capability

open Arguments (itemOf)

variable {args : Arguments} {v : Value} {vs : List Value} {fields : Record} {b : Bytes}

/-- What the method for all values answers to the item of its argument. -/
def encoded (item : Except PluginError Item) : Except PluginError Value :=
  item.map fun item => .bytes (Cbor.encode item)

theorem encode_first (h : args.get? 0 = some v) : callCodec "encode" args = encoded (itemOf v) := by
  rw [callCodec_encode, encodedItem, h, Option.getD_some]
  cases itemOf v <;> rfl

theorem encodeList_first (h : args.get? 0 = some (.list vs)) :
    callCodec "encodeList" args = encoded (itemOf (.list vs)) := by
  have hl : args.list 0 = .ok vs := Arguments.list_eq_ok.mpr h
  have hi : args.items 0 = vs.mapM itemOf := by
    rw [Arguments.items, h]
    dsimp only
    rw [hl]
    rfl
  rw [callCodec_encodeList, hi, Arguments.mapM_itemOf_eq, Arguments.itemOf_eq, Value.toItem]
  cases Value.toItems vs <;> rfl

theorem callCodec_encodeMap : callCodec "encodeMap" args =
    (do return .bytes (Cbor.encodeMap (← args.entries 0))) := rfl

theorem encodeMap_first (h : args.get? 0 = some (.map fields)) :
    callCodec "encodeMap" args = encoded (itemOf (.map fields)) := by
  have he : args.entries 0 = (Value.toEntries fields).mapError Arguments.faultError := by
    rw [← Arguments.mapM_fieldOf_eq, Arguments.entries, Arguments.value_eq_ok.mpr h]
    rfl
  rw [callCodec_encodeMap, he, Arguments.itemOf_eq, Value.toItem]
  cases Value.toEntries fields <;> rfl

theorem encodeMap_bytes (h : args.get? 0 = some (.bytes b)) :
    callCodec "encodeMap" args = .error (args.error "expected a map, got bytes") := by
  have he : args.entries 0 = .error (args.error "expected a map, got bytes") := by
    rw [Arguments.entries, Arguments.value_eq_ok.mpr h]
    rfl
  rw [callCodec_encodeMap, he]
  rfl

end Capability

namespace Capabilities

open Capability (codec callCodec)

/-- Encoding a list by the method for lists is encoding it by the method for all values. For maps
the same holds unless the map is byte-like, that is a length and the elements below it and nothing
else: the method for all values encodes the bytes that such a map stands for, and the method for
maps refuses them. -/
theorem wrappers_agree (c : Capabilities) (host : Host) {object : String}
    (ho : object ∈ codec.bindings) (rest : List Value) :
    let answer (method : String) (v : Value) := (c.invoke object method (v :: rest) host).1
    (∀ items, answer "encodeList" (.list items) = answer "encode" (.list items)) ∧
    ∀ fields, Fields.Distinct fields →
      (answer "encodeMap" (.map fields) = answer "encode" (.map fields) ↔
        ¬∃ n, Value.ByteLike fields n) ∧
      ∀ n, Value.ByteLike fields n →
        (∃ b, Value.byteLike? fields = some b ∧
          answer "encode" (.map fields) = .ok (.bytes (Cbor.encode (.bytes b)))) ∧
        answer "encodeMap" (.map fields) =
          .error (.capability "codec" "encodeMap: expected a map, got bytes") := by
  intro answer
  have hanswer (method : String) (hm : codec.methods.contains method) (v : Value) :
      answer method v = callCodec method ⟨codec.name, method, (v :: rest).map Value.detectBytes⟩ :=
    congrArg Prod.fst (invoke_eq (find?_of_mem_bindings ho) hm rfl c _ host)
  have hencode := hanswer "encode" (by decide)
  have hlist := hanswer "encodeList" (by decide)
  have hmap := hanswer "encodeMap" (by decide)
  have hbytes {fields : Record} {b : Bytes} (hb : Value.byteLike? fields = some b) :
      answer "encode" (.map fields) = .ok (.bytes (Cbor.encode (.bytes b))) ∧
        answer "encodeMap" (.map fields) =
          .error (.capability "codec" "encodeMap: expected a map, got bytes") := by
    have hd := Value.detectBytes_byteLike hb
    rw [hencode, hmap,
      Capability.encode_first (Arguments.get?_first hd rfl),
      Capability.encodeMap_bytes (Arguments.get?_first hd rfl), Arguments.itemOf_eq,
      Value.toItem]
    exact ⟨rfl, rfl⟩
  refine ⟨fun items => ?_, fun fields hd => ⟨⟨?_, ?_⟩, ?_⟩⟩
  · have hl := Value.detectBytes_list items
    rw [hencode, hlist, Capability.encode_first (Arguments.get?_first hl rfl),
      Capability.encodeList_first (Arguments.get?_first hl rfl)]
  · rintro heq ⟨n, hn⟩
    obtain ⟨b, hb⟩ := hn.byteLike? hd
    obtain ⟨hok, herror⟩ := hbytes hb
    rw [hok, herror] at heq
    cases heq
  · intro hn
    cases hb : Value.byteLike? fields with
    | some b => exact absurd (Value.exists_byteLike hb hd) hn
    | none =>
      have hm := Value.detectBytes_map hb
      rw [hencode, hmap, Capability.encode_first (Arguments.get?_first hm rfl),
        Capability.encodeMap_first (Arguments.get?_first hm rfl)]
  · intro n hn
    obtain ⟨b, hb⟩ := hn.byteLike? hd
    exact ⟨⟨b, hb, (hbytes hb).1⟩, (hbytes hb).2⟩

/-- A map with a length that does not count its elements. -/
def rope : Record := [("name", .text "rope"), ("length", .int 12)]

/-- A map of one element, as scripts write bytes of their own. -/
def singleByte : Record := [("0", .int 1), ("length", .int 1)]

/-- The map is encoded as the byte that it stands for, and refused as a map. -/
theorem byteLike_map_refused :
    (invoke default "codec" "encode" [.map singleByte] default).1 = .ok (.bytes [0x41, 0x01]) ∧
    (invoke default "codec" "encodeMap" [.map singleByte] default).1 =
      .error (.capability "codec" "encodeMap: expected a map, got bytes") :=
  ⟨rfl, rfl⟩

theorem wrappers_agree_lengths :
    "cbor" ∈ codec.bindings ∧ Fields.Distinct rope ∧ Fields.Distinct singleByte ∧
    (¬∃ n, Value.ByteLike rope n) ∧ (∃ n, Value.ByteLike singleByte n) ∧
    (invoke default "cbor" "encodeMap" [.map rope] default).1 = .ok (.bytes
      [0xa2, 0x64, 0x6e, 0x61, 0x6d, 0x65, 0x64, 0x72, 0x6f, 0x70, 0x65,
        0x66, 0x6c, 0x65, 0x6e, 0x67, 0x74, 0x68, 0x0c]) ∧
    (invoke default "cbor" "encodeMap" [.map singleByte] default).1 =
      .error (.capability "codec" "encodeMap: expected a map, got bytes") := by
  have ho : "cbor" ∈ codec.bindings := by decide
  have hrope : Fields.Distinct rope := show (["name", "length"] : List String).Nodup by decide
  have hsingle : Fields.Distinct singleByte := show (["0", "length"] : List String).Nodup by decide
  have hn : ¬∃ n, Value.ByteLike rope n := by
    rintro ⟨n, hn⟩
    obtain ⟨b, hb⟩ := hn.byteLike? hrope
    have hnone : Value.byteLike? rope = none := rfl
    cases hnone.symm.trans hb
  have hbytes : Value.byteLike? singleByte = some [1] := rfl
  obtain ⟨n, hlike⟩ := Value.exists_byteLike hbytes hsingle
  obtain ⟨-, hmaps⟩ := wrappers_agree default default ho []
  have hencode : (invoke default "cbor" "encode" [.map rope] default).1 = .ok (.bytes
      [0xa2, 0x64, 0x6e, 0x61, 0x6d, 0x65, 0x64, 0x72, 0x6f, 0x70, 0x65,
        0x66, 0x6c, 0x65, 0x6e, 0x67, 0x74, 0x68, 0x0c]) := rfl
  exact ⟨ho, hrope, hsingle, hn, ⟨n, hlike⟩, ((hmaps rope hrope).1.mpr hn).trans hencode,
    ((hmaps singleByte hsingle).2 n hlike).2⟩

end Capabilities

end TrieFeed
