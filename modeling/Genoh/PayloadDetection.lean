import Genoh.PayloadStack

/-!
# Detection of the encoding

`decode` without a hint tells JSON from CBOR by the first character. A map or an array of CBOR
starts with a byte that no UTF-8 text starts with, whatever its size.
-/
namespace Genoh.PayloadDetection

open Genoh.Bytes Genoh.MasterPayloads
open Genoh.PayloadStack (RoundTrips)

/-! ## First bytes -/

/-- The major type of a CBOR item: the upper three bits of its first byte. The others, which say how
the size is written, are free. -/
def majorType (b : Byte) : Nat := b.toNat / 32

def arrayType : Nat := 4
def mapType : Nat := 5

theorem not_first_of_container {b : Byte} (h : majorType b = arrayType ∨ majorType b = mapType) :
    ¬ (UInt8.ofBitVec b).IsUTF8FirstByte := by
  have hall : ∀ i : Fin 64, ¬ (UInt8.ofNat (128 + i.val)).IsUTF8FirstByte := by decide
  have hrange : 128 ≤ b.toNat ∧ b.toNat < 192 := by
    simp only [majorType, arrayType, mapType] at h
    omega
  have hbyte : UInt8.ofBitVec b = UInt8.ofNat (128 + (b.toNat - 128)) := by
    apply UInt8.toNat.inj
    rw [UInt8.toNat_ofBitVec, UInt8.toNat_ofNat']
    omega
  rw [hbyte]
  exact hall ⟨b.toNat - 128, by omega⟩

/-- Text starts with the first byte of a character. -/
theorem ofUtf8_eq_none {b : Byte} (h : ¬ (UInt8.ofBitVec b).IsUTF8FirstByte) (rest : List Byte) :
    ofUtf8 (b :: rest) = none := by
  rw [ofUtf8, String.fromUTF8?, dif_neg]
  intro hvalid
  have hpos : 0 < (ByteArray.mk ((b :: rest).map UInt8.ofBitVec).toArray).size := by
    rw [ByteArray.size, List.size_toArray, List.length_map, List.length_cons]
    omega
  exact h (hvalid.isUTF8FirstByte_getElem_zero hpos)

/-! ## Containers -/

section Detection

variable {Value : Type} (codecs : Codecs Value)

/-- How the libraries start what they write for dictionaries and lists. -/
structure Marked (container : Value → Prop) : Prop where
  json : ∀ d text, container d → codecs.jsonDumps d = .ok text →
    text.toList.head? = some '\x7b' ∨ text.toList.head? = some '['
  cbor : ∀ d raw, container d → codecs.cborDumps d = .ok raw →
    ∃ b rest, raw = b :: rest ∧ (majorType b = arrayType ∨ majorType b = mapType)

theorem looksJson_of_head {text : String}
    (h : text.toList.head? = some '\x7b' ∨ text.toList.head? = some '[') : looksJson text = true := by
  rw [looksJson]
  cases htext : text.toList with
  | nil =>
    rw [htext] at h
    simp at h
  | cons c rest =>
    rw [htext, List.head?_cons, Option.some.injEq, Option.some.injEq] at h
    obtain rfl | rfl := h <;> rfl

theorem decode_none (raw : List Byte) : decode codecs raw none = detect codecs raw := by
  rw [decode, if_neg (by simp), if_neg (by simp)]

/-- What starts as JSON and reads as JSON is taken for JSON. -/
theorem detect_json {text : String} {d : Value} (hhead : looksJson text = true)
    (hloads : codecs.jsonLoads text = .ok d) : detect codecs (utf8 text) = .ok d := by
  rw [detect, ofUtf8_utf8]
  simp only [hhead, if_true, hloads]

theorem detect_cbor {raw : List Byte} (h : ofUtf8 raw = none) :
    detect codecs raw = codecs.cborLoads raw := by
  rw [detect, h]

/-- A dictionary or list comes back from either encoding without a hint, where the library reads what it
writes for it, and nothing that `cbor2` writes for one is text. -/
theorem detect_container {container : Value → Prop} (hmarked : Marked codecs container) (d : Value)
    (hd : container d) :
    (RoundTrips codecs d encodingJson → ∃ raw, encode codecs d encodingJson = .ok raw ∧
      decode codecs raw none = .ok d) ∧
    (RoundTrips codecs d encodingCbor → ∃ raw, encode codecs d encodingCbor = .ok raw ∧
      decode codecs raw none = .ok d) ∧
    ∀ raw, encode codecs d encodingCbor = .ok raw →
      ofUtf8 raw = none ∧ decode codecs raw none = codecs.cborLoads raw := by
  have hcbor : ∀ raw, encode codecs d encodingCbor = .ok raw →
      ofUtf8 raw = none ∧ decode codecs raw none = codecs.cborLoads raw := by
    intro raw hraw
    rw [encode, if_pos rfl] at hraw
    obtain ⟨b, rest, rfl, hb⟩ := hmarked.cbor d raw hd hraw
    have hnone := ofUtf8_eq_none (not_first_of_container hb) rest
    exact ⟨hnone, by rw [decode_none, detect_cbor codecs hnone]⟩
  constructor
  · rintro ⟨text, hdumps, hloads⟩
    have hencode : encode codecs d encodingJson = .ok (utf8 text) := by
      rw [encode, if_neg (by decide), encodeJson, hdumps]
      rfl
    have hhead := looksJson_of_head (hmarked.json d text hd hdumps)
    exact ⟨_, hencode, by rw [decode_none, detect_json codecs hhead hloads]⟩
  constructor
  · rintro ⟨raw, hdumps, hloads⟩
    have hencode : encode codecs d encodingCbor = .ok raw := by rw [encode, if_pos rfl, hdumps]
    exact ⟨raw, hencode, by rw [(hcbor raw hencode).2, hloads]⟩
  · exact hcbor

end Detection

/-- The libraries on the two dictionaries with a state under "on". -/
def switchDict : Codecs Bool where
  jsonDumps on := .ok (if on then "\x7b\"on\":true\x7d" else "\x7b\"on\":false\x7d")
  jsonLoads text :=
    if text = "\x7b\"on\":true\x7d" then .ok true
    else if text = "\x7b\"on\":false\x7d" then .ok false
    else .error .jsonDecodeError
  cborDumps on := .ok [0xA1, 0x62, 0x6F, 0x6E, if on then 0xF5 else 0xF4]
  cborLoads raw :=
    if raw = [0xA1, 0x62, 0x6F, 0x6E, 0xF5] then .ok true
    else if raw = [0xA1, 0x62, 0x6F, 0x6E, 0xF4] then .ok false
    else .error .library

theorem detect_container_switch :
    (∃ raw, encode switchDict true encodingJson = .ok raw ∧ decode switchDict raw none = .ok true) ∧
      ∃ raw, encode switchDict true encodingCbor = .ok raw ∧ decode switchDict raw none = .ok true := by
  have hmarked : Marked switchDict fun _ => True := by
    constructor
    · rintro on text - h
      cases h
      cases on <;> exact .inl (by decide)
    · rintro on raw - h
      cases h
      exact ⟨0xA1, _, rfl, by decide⟩
  obtain ⟨hjson, hcbor, -⟩ := detect_container switchDict hmarked true trivial
  exact ⟨hjson ⟨"\x7b\"on\":true\x7d", rfl, rfl⟩, hcbor ⟨[0xA1, 0x62, 0x6F, 0x6E, 0xF5], rfl, rfl⟩⟩

end Genoh.PayloadDetection
