import Hx.Bridge.Crossing

/-!
# Round trips over the bridge

What an encoder emits is a frame within the limit. A frame of two bodies is read by the other
side as what it was made of; a frame of one is, as long as its header declares nothing about
bodies. From the extension to the harness it takes the required fields, and strings that have
bytes.
-/

namespace Hx.Bridge

open Hx.Java Hx.Library

/-- The extension reads the two bodies the harness sent, and the harness does. -/
def ReadAsTwo (D : Json.Digits) (header : Codec.Fields) (first second bytes : List UInt8) :
    Prop :=
  (∃ fields consumed, Wire.decode D bytes = .ok (⟨fields, first, some second⟩, consumed) ∧
    SameHeader (Codec.stamped header) fields) ∧
  ∃ payload consumed, Codec.decode bytes = .ok ((Codec.stamped header, payload), consumed) ∧
    Codec.splitBodies (Codec.stamped header) payload = .ok (first, second)

/-- The harness reads the two bodies the extension sent. -/
def ReadBackTwo (fields : Wire.Fields) (first second bytes : List UInt8) : Prop :=
  ∃ header payload consumed, Codec.decode bytes = .ok ((header, payload), consumed) ∧
    Codec.splitBodies header payload = .ok (first, second) ∧
    SameHeader header (Wire.stamped fields)

theorem get_stamped (header : Codec.Fields) :
    (Codec.stamped header).get Codec.bodiesKey = some (.int 2) := by
  rw [Codec.stamped, Items.get_put, if_pos rfl]

theorem get_wire_stamped (fields : Wire.Fields) :
    (Wire.stamped fields).get Wire.bodiesKey = some (.long 2) := by
  rw [Wire.stamped, Items.get_put, if_pos rfl]

theorem splitBodies_joined {header : Codec.Fields} {first second : List UInt8}
    (two : header.get Codec.bodiesKey = some (.int 2)) (small₁ : first.length < 4294967296)
    (small₂ : second.length < 4294967296) :
    Codec.splitBodies header (joined first second) = .ok (first, second) := by
  have declares : Codec.declaresTwoBodies header = .ok true := by
    rw [Codec.declaresTwoBodies, two]
    exact if_pos rfl
  rw [Codec.splitBodies, declares]
  simp only
  rw [Codec.bodySpans, halves_joined small₁ small₂]
  rfl

theorem readAsTwo (D : Json.Digits) {header : Codec.Fields} {first second bytes : List UInt8}
    (sent : Sent (Codec.stamped header).pairs (joined first second) bytes)
    (checked : Checked (Codec.stamped header)) (small₁ : first.length < 4294967296)
    (small₂ : second.length < 4294967296) : ReadAsTwo D header first second bytes := by
  have bodies := get_bodies sent.held
  rw [get_stamped] at bodies
  have whole := Items.ofPairs_pairs (Codec.stamped header)
  constructor
  · rw [sent.wire_decode D, withBodies_joined bodies small₁ small₂]
    exact ⟨_, _, rfl, sameHeader_carried sent.held⟩
  · exact ⟨_, _, sent.codec_decode.2 ⟨⟨whole.symm, whole.symm ▸ checked⟩, rfl, rfl⟩,
      splitBodies_joined (get_stamped header) small₁ small₂⟩

theorem readBackTwo_iff {fields : Wire.Fields} {first second bytes : List UInt8}
    (sent : Sent ((Wire.stamped fields).pairs.map spelledItem) (joined first second) bytes)
    (small₁ : first.length < 4294967296) (small₂ : second.length < 4294967296) :
    ReadBackTwo fields first second bytes ↔ Crosses (Wire.stamped fields) := by
  rw [← readBack_iff sent]
  constructor
  · rintro ⟨header, payload, consumed, read, -, same⟩
    obtain ⟨-, rfl, -⟩ := sent.codec_decode.1 read
    exact ⟨header, consumed, read, same⟩
  · rintro ⟨header, consumed, read, same⟩
    have scalars : ∀ p ∈ header.pairs, Scalars p.1 := by
      obtain ⟨⟨rfl, -⟩, -, -⟩ := sent.codec_decode.1 read
      exact fun p mem => (sent.held p (Items.mem_of_mem_ofPairs mem)).1
    obtain ⟨k, v, name, value, mem⟩ :=
      same.back _ _ (Items.get_eq_some.1 (get_wire_stamped fields))
    have bodies : Wire.bodiesKey = utf16 Codec.bodiesKey := (utf16_text rfl).symm
    have key : Codec.bodiesKey = k :=
      utf16_injective (scalars_text rfl) (scalars _ mem) (bodies.symm.trans name)
    have two : header.get Codec.bodiesKey = some (.int 2) := by
      rw [Items.get_eq_some, key]
      cases value
      exact mem
    exact ⟨header, _, consumed, read, splitBodies_joined two small₁ small₂, same⟩

/-- The frames of either encoder, in the other side's decoder. -/
theorem crosses_iff (D : Json.Digits) :
    (∀ header body bytes, Codec.encode header body = .ok bytes →
      IsFrame Codec.maxFrame bytes ∧ (ReadAsOne D header body bytes ↔ OneBody header)) ∧
    (∀ header first second bytes, Codec.encodeTwo header first second = .ok bytes →
      IsFrame Codec.maxFrame bytes ∧ ReadAsTwo D header first second bytes) ∧
    (∀ fields (body : Wire.Bytes) bytes, Wire.encode fields body = .ok bytes →
      IsFrame Wire.maxFrame bytes ∧ (ReadBack fields body.data bytes ↔ Crosses fields)) ∧
    (∀ fields (first second : Wire.Bytes) bytes,
      Wire.encodeTwo fields first second = .ok bytes →
      IsFrame Wire.maxFrame bytes ∧
        (ReadBackTwo fields first.data second.data bytes ↔ Crosses (Wire.stamped fields))) := by
  refine ⟨fun header body bytes encoded => ?_, fun header first second bytes encoded => ?_,
    fun fields body bytes encoded => ?_, fun fields first second bytes encoded => ?_⟩
  · obtain ⟨-, sent⟩ := sent_of_codec encoded
    exact ⟨sent.isFrame, readAsOne_iff D sent⟩
  · rw [Codec.encodeTwo] at encoded
    split_ifs at encoded with long
    obtain ⟨checked, sent⟩ := sent_of_codec encoded
    unfold Codec.maxFrame at long
    exact ⟨sent.isFrame, readAsTwo D sent checked (by omega) (by omega)⟩
  · have sent := sent_of_wire encoded
    exact ⟨sent.isFrame, readBack_iff sent⟩
  · rw [Wire.encodeTwo] at encoded
    split_ifs at encoded with long
    have sent := sent_of_wire encoded
    have small₁ := first.size
    have small₂ := second.size
    exact ⟨sent.isFrame, readBackTwo_iff sent (by omega) (by omega)⟩

/-- `{"v": 1, "t": "x", "bodies": 3}`. -/
def declaring : Codec.Fields where
  pairs := [(text "v", .int 1), (text "t", .string (text "x")), (Codec.bodiesKey, .int 3)]
  unique := by decide

def declaringBytes : List UInt8 := textFrame (Python.Json.dumps declaring.pairs) []

theorem encode_declaring : Codec.encode declaring [] = .ok declaringBytes := by
  have checked : Codec.checkHeader declaring = .ok () := by rfl
  have bytes : utf8Encode (Python.Json.dumps declaring.pairs) =
      some (utf8Bytes (Python.Json.dumps declaring.pairs)) := by rfl
  rw [Codec.encode, checked]
  simp only [bytes]
  exact if_neg (by decide)

/-- The ASCII digits, and no other. -/
def plainDigits : Json.Digits where
  toDigitMap := basicDigits
  others _ _ no_digit := if_neg no_digit

/-- The frame is one the harness emits: its header declares three bodies, and it has one. -/
theorem declaring_crosses : IsFrame Codec.maxFrame declaringBytes ∧
    (ReadAsOne plainDigits declaring [] declaringBytes ↔ OneBody declaring) :=
  (crosses_iff plainDigits).1 declaring [] declaringBytes encode_declaring

/-- `{"v": 1, "t": half a pair}`. -/
def halved : Wire.Fields where
  pairs := [(js "v", .long 1), (js "t", .string [0xd800])]
  unique := by decide

def halvedBytes : List UInt8 := framed (getBytes (Json.write halved.pairs) ++ [10])

theorem encode_halved : Wire.encode halved ⟨[], by decide⟩ = .ok halvedBytes := by
  rw [Wire.encode]
  exact (if_neg (by decide)).trans ((if_neg (by decide)).trans (if_neg (by decide)))

/-- A header is emitted on either side that the other side does not read: one that declares bodies
the frame does not have, and one whose string has no bytes. -/
theorem lost_crossing :
    (Codec.encode declaring [] = .ok declaringBytes ∧
      ¬ ReadAsOne plainDigits declaring [] declaringBytes) ∧
    (Wire.encode halved ⟨[], by decide⟩ = .ok halvedBytes ∧
      ¬ ReadBack halved [] halvedBytes) := by
  refine ⟨⟨encode_declaring, fun read => ?_⟩, encode_halved, fun read => ?_⟩
  · have one := (readAsOne_iff plainDigits (sent_of_codec encode_declaring).2).1 read
    have declares : declaring.get Codec.bodiesKey = some (.int 3) := by rfl
    rw [OneBody, declares] at one
    obtain absent | null := one
    · cases absent
    · cases null
  · have formed := ((readBack_iff (sent_of_wire encode_halved)).1 read).2.2
    have lone : WellFormed [0xd800] :=
      (formed (js "t", .string [0xd800]) (List.mem_cons_of_mem _ List.mem_cons_self)).2 _ rfl
    exact absurd lone (by unfold WellFormed; decide)

end Hx.Bridge
