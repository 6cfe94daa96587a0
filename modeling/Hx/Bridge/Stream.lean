import Hx.Bridge.RoundTrip

/-!
# Streams of frames

What a reader answers to a stream does not depend on the pieces it is delivered in. The harness
reads the frames it emits; the extension reads those of its own frames whose strings have bytes
and whose header declares the bodies they have.
-/

namespace Hx.Bridge

open Hx.Java Hx.Library

theorem decode_consumed {bytes : List UInt8} {frame : Codec.Fields × List UInt8} {consumed : ℕ}
    (read : Codec.decode bytes = .ok (frame, consumed)) :
    extent Codec.maxFrame bytes = .whole consumed := by
  rw [Codec.decode] at read
  cases size : extent Codec.maxFrame bytes with
  | incomplete =>
      rw [size] at read
      cases read
  | tooLong declared =>
      rw [size] at read
      cases read
  | whole n =>
      rw [size] at read
      simp only at read
      cases cut : cutNewline ((bytes.take n).drop 4) with
      | none =>
          rw [cut] at read
          cases read
      | some p =>
          rw [cut] at read
          simp only at read
          cases head : Codec.header p.1 with
          | error e =>
              rw [head] at read
              cases read
          | ok fields =>
              rw [head] at read
              cases read
              rfl

theorem wire_decode_consumed {D : Json.Digits} {bytes : List UInt8} {decoded : Wire.Decoded}
    {consumed : ℕ} (read : Wire.decode D bytes = .ok (decoded, consumed)) :
    extent Wire.maxFrame bytes = .whole consumed := by
  rw [Wire.decode] at read
  cases size : extent Wire.maxFrame bytes with
  | incomplete =>
      rw [size] at read
      cases read
  | tooLong declared =>
      rw [size] at read
      cases read
  | whole n =>
      rw [size] at read
      simp only at read
      cases cut : cutNewline ((bytes.take n).drop 4) with
      | none =>
          rw [cut] at read
          cases read
      | some p =>
          rw [cut] at read
          simp only at read
          cases head : Wire.header D p.1 with
          | error e =>
              rw [head] at read
              cases read
          | ok fields =>
              rw [head] at read
              simp only at read
              cases bodies : Wire.withBodies fields p.2 with
              | error e =>
                  rw [bodies] at read
                  cases read
              | ok two =>
                  rw [bodies] at read
                  cases read
                  rfl

/-! ## What the extension reads of its own frames -/

/-- A frame the extension is asked to emit. -/
structure Outgoing where
  fields : Wire.Fields
  body : Wire.Bytes
  second : Option Wire.Bytes

namespace Outgoing

def encode (o : Outgoing) : Except Wire.FrameError (List UInt8) :=
  match o.second with
  | none => Wire.encode o.fields o.body
  | some second => Wire.encodeTwo o.fields o.body second

/-- The frame as a reader has it. -/
def decoded (o : Outgoing) : Wire.Decoded :=
  match o.second with
  | none => ⟨o.fields, o.body.data, none⟩
  | some second => ⟨Wire.stamped o.fields, o.body.data, some second.data⟩

/-- The strings of the header have bytes, and a frame of one body declares none. -/
def Kept (o : Outgoing) : Prop :=
  match o.second with
  | none => Formed o.fields ∧
      (o.fields.get Wire.bodiesKey = none ∨ o.fields.get Wire.bodiesKey = some .null)
  | some _ => Formed (Wire.stamped o.fields)

end Outgoing

theorem withBodies_header {fields : Wire.Fields} {payload : List UInt8} {decoded : Wire.Decoded}
    (read : Wire.withBodies fields payload = .ok decoded) : decoded.header = fields := by
  rw [Wire.withBodies] at read
  cases declares : Wire.declaresTwoBodies fields with
  | error e =>
      rw [declares] at read
      cases read
  | ok two =>
      rw [declares] at read
      cases two with
      | false =>
          cases read
          rfl
      | true =>
          simp only at read
          cases split : Wire.splitBodies payload with
          | error e =>
              rw [split] at read
              cases read
          | ok p =>
              rw [split] at read
              cases read
              rfl

theorem carried_spelled_iff {v : Value} :
    carried (spelled v) = v ↔ ∀ s, v = .string s → WellFormed s := by
  cases v with
  | null => exact iff_of_true rfl fun s is => by cases is
  | bool b => exact iff_of_true rfl fun s is => by cases is
  | long n =>
      refine iff_of_true ?_ fun s is => by cases is
      show Value.long (Int64.ofInt n.toInt) = _
      rw [Int64.ofInt_toInt]
  | string s =>
      constructor
      · intro same t is
        cases is
        exact Value.string.inj same
      · intro formed
        exact congrArg Value.string (formed s rfl)

theorem wellFormed_carried {v : Python.Json.Value} (held : Held v) {s : JString}
    (is : carried v = .string s) : WellFormed s := by
  cases v with
  | string t =>
      cases is
      exact wellFormed_utf16 held
  | null => cases is
  | bool b => cases is
  | int n => cases is
  | float => exact held.elim
  | list => exact held.elim
  | dict => exact held.elim

/-- A header is read back if and only if its strings have bytes. -/
theorem readBack_header_iff {fields : Wire.Fields} :
    Items.ofPairs ((fields.pairs.map spelledItem).map carriedItem) = fields ↔ Formed fields := by
  constructor
  · rintro same ⟨key, v⟩ mem
    rw [← same] at mem
    obtain ⟨p, item, is⟩ := List.mem_map.1 (Items.mem_of_mem_ofPairs mem)
    obtain ⟨⟨key', v'⟩, -, rfl⟩ := List.mem_map.1 item
    obtain ⟨name, value⟩ := Prod.mk.inj is
    refine ⟨?_, fun s string => wellFormed_carried (held_spelled v') (value.trans string)⟩
    rw [← name]
    exact wellFormed_utf16 (scalars_points key')
  · intro formed
    have whole : (fields.pairs.map spelledItem).map carriedItem = fields.pairs := by
      rw [List.map_map]
      calc fields.pairs.map (carriedItem ∘ spelledItem) = fields.pairs.map id := by
            refine List.map_congr_left fun p mem => ?_
            have key : utf16 (points p.1) = p.1 := (formed p mem).1
            exact Prod.ext key (carried_spelled_iff.2 (formed p mem).2)
        _ = fields.pairs := List.map_id _
    rw [whole, Items.ofPairs_pairs]

/-- What the extension reads is what it makes of the bodies behind the header it reads. -/
theorem decode_sent_iff {D : Json.Digits} {pairs : Python.Json.Dict} {body bytes : List UInt8}
    (sent : Sent pairs body bytes) {decoded : Wire.Decoded} :
    (∃ consumed, Wire.decode D bytes = .ok (decoded, consumed)) ↔
      Wire.withBodies (Items.ofPairs (pairs.map carriedItem)) body = .ok decoded := by
  rw [sent.wire_decode D]
  cases Wire.withBodies (Items.ofPairs (pairs.map carriedItem)) body with
  | error e =>
      refine iff_of_false ?_ fun is => by cases is
      rintro ⟨consumed, is⟩
      cases is
  | ok got =>
      constructor
      · rintro ⟨consumed, is⟩
        cases is
        rfl
      · intro is
        cases is
        exact ⟨_, rfl⟩

/-- A frame of its own is read by the extension if and only if it is one that is kept. -/
theorem decode_outgoing_iff (D : Json.Digits) {o : Outgoing} {bytes : List UInt8}
    (encoded : o.encode = .ok bytes) :
    IsFrame Wire.maxFrame bytes ∧
      ((∃ consumed, Wire.decode D bytes = .ok (o.decoded, consumed)) ↔ o.Kept) := by
  obtain ⟨fields, body, second⟩ := o
  cases second with
  | none =>
      have sent := sent_of_wire encoded
      refine ⟨sent.isFrame, ?_⟩
      rw [decode_sent_iff sent]
      constructor
      · intro read
        have same := withBodies_header read
        rw [← same] at read
        refine ⟨readBack_header_iff.1 same.symm, ?_⟩
        by_contra declared
        exact withBodies_declared declared read rfl
      · rintro ⟨formed, plain⟩
        rw [readBack_header_iff.2 formed]
        exact withBodies_plain body.data plain
  | some second =>
      have two : Wire.encodeTwo fields body second = .ok bytes := encoded
      have small₁ := body.size
      have small₂ := second.size
      rw [Wire.encodeTwo] at two
      split_ifs at two with long
      have sent := sent_of_wire two
      refine ⟨sent.isFrame, ?_⟩
      rw [decode_sent_iff sent]
      constructor
      · intro read
        exact readBack_header_iff.1 (withBodies_header read).symm
      · intro formed
        rw [readBack_header_iff.2 formed]
        exact withBodies_joined (get_wire_stamped fields) (by omega) (by omega)

/-! ## Reading -/

/-- The readers answer what their decoders do of the frames in a stream, whatever the pieces it is
delivered in; a frame that is cut short is never answered. -/
theorem chunking_independent (D : Json.Digits) {frames : List (List UInt8)}
    {part : List UInt8} (isFrame : ∀ bytes ∈ frames, IsFrame Codec.maxFrame bytes)
    (isPart : IsPart Codec.maxFrame part) {delivered : Delivery}
    (pieces : ∀ chunk ∈ delivered, chunk ≠ [])
    (stream : delivered.flatten = frames.flatten ++ part) {n : ℕ} (enough : frames.length < n) :
    Codec.readFrames n delivered = answers Codec.decode part frames ∧
      Wire.readFrames D n delivered = answers (Wire.decode D) part frames := by
  constructor
  · exact reads_eq_answers (by decide) (fun _ _ _ read => decode_consumed read) isFrame isPart
      pieces stream enough
  · exact reads_eq_answers (by decide) (fun _ _ _ read => wire_decode_consumed read) isFrame
      isPart pieces stream enough

/-- A frame the harness emits; one of two bodies is one with a stamped header. -/
structure Codec.Posted where
  header : Codec.Fields
  body : List UInt8
  bytes : List UInt8
  encoded : Codec.encode header body = .ok bytes

/-- A frame the extension emits. -/
structure Wire.Posted where
  outgoing : Outgoing
  bytes : List UInt8
  encoded : outgoing.encode = .ok bytes

/-- The bytes of the frames and of a part of one more, in pieces that are not empty. -/
structure Carries (frames : List (List UInt8)) (part : List UInt8) (delivered : Delivery) :
    Prop where
  isPart : IsPart Codec.maxFrame part
  pieces : ∀ chunk ∈ delivered, chunk ≠ []
  stream : delivered.flatten = frames.flatten ++ part

/-- The frames in their order, and then that the peer has closed. -/
def allThenClosed {α φ ε : Type} (frame : α → φ) (sent : List α) (part : List UInt8) :
    List (Except (ReadError ε) φ) :=
  sent.map (fun s => .ok (frame s)) ++ [.error (.peerClosed (!part.isEmpty))]

theorem codec_stream {sent : List Codec.Posted} {part : List UInt8} {delivered : Delivery}
    (carries : Carries (sent.map Codec.Posted.bytes) part delivered) {n : ℕ}
    (enough : sent.length < n) :
    Codec.readFrames n delivered = allThenClosed (fun s => (s.header, s.body)) sent part := by
  have isFrame : ∀ bytes ∈ sent.map Codec.Posted.bytes, IsFrame Codec.maxFrame bytes := by
    intro bytes mem
    obtain ⟨s, -, rfl⟩ := List.mem_map.1 mem
    exact (sent_of_codec s.encoded).2.isFrame
  rw [(chunking_independent plainDigits isFrame carries.isPart carries.pieces carries.stream
    (by rwa [List.length_map])).1]
  refine (answers_eq_iff Codec.Posted.bytes (fun s => (s.header, s.body)) sent).2 fun s mem => ?_
  obtain ⟨checked, posted⟩ := sent_of_codec s.encoded
  have whole := Items.ofPairs_pairs s.header
  exact ⟨_, posted.codec_decode.2 ⟨⟨whole.symm, whole.symm ▸ checked⟩, rfl, rfl⟩⟩

theorem wire_stream_iff (D : Json.Digits) {sent : List Wire.Posted} {part : List UInt8}
    {delivered : Delivery} (carries : Carries (sent.map Wire.Posted.bytes) part delivered)
    {n : ℕ} (enough : sent.length < n) :
    Wire.readFrames D n delivered = allThenClosed (fun s => s.outgoing.decoded) sent part ↔
      ∀ s ∈ sent, s.outgoing.Kept := by
  have isFrame : ∀ bytes ∈ sent.map Wire.Posted.bytes, IsFrame Codec.maxFrame bytes := by
    intro bytes mem
    obtain ⟨s, -, rfl⟩ := List.mem_map.1 mem
    exact (decode_outgoing_iff D s.encoded).1
  rw [(chunking_independent D isFrame carries.isPart carries.pieces carries.stream
    (by rwa [List.length_map])).2, allThenClosed,
    answers_eq_iff Wire.Posted.bytes (fun s => s.outgoing.decoded) sent]
  exact forall_congr' fun s => forall_congr' fun _ => (decode_outgoing_iff D s.encoded).2

/-- `{"v": 1, "t": "x", "bodies": 3}`, of one body. -/
def undivided : Outgoing where
  fields :=
    { pairs := [(js "v", .long 1), (js "t", .string (js "x")), (Wire.bodiesKey, .long 3)]
      unique := by decide }
  body := ⟨[], by decide⟩
  second := none

def posted : Wire.Posted where
  outgoing := undivided
  bytes := framed (getBytes (Json.write undivided.fields.pairs) ++ [10])
  encoded := by
    show Wire.encode undivided.fields undivided.body = _
    rw [Wire.encode]
    exact (if_neg (by decide)).trans ((if_neg (by decide)).trans (if_neg (by decide)))

theorem carries_posted : Carries ([posted].map Wire.Posted.bytes) [] [posted.bytes] where
  isPart := isPart_nil
  pieces chunk mem := by
    rw [List.mem_singleton.1 mem]
    exact List.cons_ne_nil _ _
  stream := by
    rw [List.append_nil]
    rfl

end Hx.Bridge
