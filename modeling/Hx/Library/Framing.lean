import Mathlib.Data.List.Infix
import Mathlib.Data.Nat.Basic

/-!
# Frames behind a length, and frames that end at a mark

Four bytes, the most significant one first, say how many bytes follow. A reader keeps what it
was delivered until the frame in front is whole, hands that to a decoder and keeps the rest.
What a run of reads answers depends on the bytes delivered, and not on the pieces they came in.
-/

namespace Hx.Library

/-- A number below 4294967296 in four bytes. -/
def lengthPrefix (n : ℕ) : List UInt8 :=
  [UInt8.ofNat (n / 16777216), UInt8.ofNat (n / 65536), UInt8.ofNat (n / 256), UInt8.ofNat n]

/-- The number in the first four bytes. -/
def lengthAt : List UInt8 → ℕ
  | a :: b :: c :: d :: _ => ((a.toNat * 256 + b.toNat) * 256 + c.toNat) * 256 + d.toNat
  | _ => 0

/-- A payload behind its length. -/
def framed (payload : List UInt8) : List UInt8 := lengthPrefix payload.length ++ payload

@[simp] theorem length_lengthPrefix (n : ℕ) : (lengthPrefix n).length = 4 := rfl

@[simp] theorem length_framed (payload : List UInt8) :
    (framed payload).length = 4 + payload.length := List.length_append

theorem lengthAt_lengthPrefix {n : ℕ} (small : n < 4294967296) (rest : List UInt8) :
    lengthAt (lengthPrefix n ++ rest) = n := by
  show (((UInt8.ofNat (n / 16777216)).toNat * 256 + (UInt8.ofNat (n / 65536)).toNat) * 256 +
    (UInt8.ofNat (n / 256)).toNat) * 256 + (UInt8.ofNat n).toNat = n
  simp only [UInt8.toNat_ofNat']
  omega

theorem drop_lengthPrefix (n : ℕ) (rest : List UInt8) :
    (lengthPrefix n ++ rest).drop 4 = rest := rfl

/-- What a buffer holds of its first frame. -/
inductive Extent where
  | incomplete
  | tooLong (declared : ℕ)
  | whole (size : ℕ)
  deriving DecidableEq

def extent (limit : ℕ) (buf : List UInt8) : Extent :=
  if buf.length < 4 then .incomplete
  else if limit < lengthAt buf then .tooLong (lengthAt buf)
  else if buf.length < 4 + lengthAt buf then .incomplete
  else .whole (4 + lengthAt buf)

variable {limit : ℕ}

/-- A frame is whole whatever follows it. -/
theorem extent_framed {payload : List UInt8} (short : payload.length ≤ limit)
    (bound : limit < 4294967296) (rest : List UInt8) :
    extent limit (framed payload ++ rest) = .whole (framed payload).length := by
  have declared : lengthAt (framed payload ++ rest) = payload.length := by
    rw [framed, List.append_assoc]
    exact lengthAt_lengthPrefix (by omega) _
  have size : (framed payload ++ rest).length = 4 + payload.length + rest.length := by
    rw [List.length_append, length_framed]
  rw [extent, declared, size, if_neg (by omega), if_neg (by omega), if_neg (by omega),
    length_framed]

/-- A frame that is cut short is not whole. -/
theorem extent_cut {payload part rest : List UInt8} (short : payload.length ≤ limit)
    (bound : limit < 4294967296) (cut : part ++ rest = framed payload) (missing : rest ≠ []) :
    extent limit part = .incomplete := by
  have size : part.length + rest.length = 4 + payload.length := by
    rw [← List.length_append, cut, length_framed]
  have pos := List.length_pos_of_ne_nil missing
  rw [extent]
  by_cases four : part.length < 4
  · exact if_pos four
  · obtain ⟨behind, same⟩ : ∃ behind, part = lengthPrefix payload.length ++ behind := by
      obtain ⟨behind, same, -⟩ | ⟨behind, same, -⟩ := List.append_eq_append_iff.1 cut
      · have := congrArg List.length same
        rw [List.length_append, length_lengthPrefix] at this
        have none_ : behind = [] := List.eq_nil_of_length_eq_zero (by omega)
        exact ⟨[], by rw [same, none_, List.append_nil, List.append_nil]⟩
      · exact ⟨behind, same⟩
    have declared : lengthAt part = payload.length := by
      rw [same]
      exact lengthAt_lengthPrefix (by omega) behind
    rw [if_neg four, declared, if_neg (by omega), if_pos (by omega)]

/-! ## Payloads -/

/-- What stands in front of the first newline, and what behind it. -/
def cutNewline : List UInt8 → Option (List UInt8 × List UInt8)
  | [] => none
  | b :: rest =>
      if b = 10 then some ([], rest) else (cutNewline rest).map fun p => (b :: p.1, p.2)

theorem cutNewline_append {head : List UInt8} (line : (10 : UInt8) ∉ head)
    (body : List UInt8) : cutNewline (head ++ 10 :: body) = some (head, body) := by
  induction head with
  | nil => rfl
  | cons b head ih =>
      rw [List.mem_cons, not_or] at line
      rw [List.cons_append, cutNewline, if_neg (Ne.symm line.1), ih line.2]
      rfl

/-- Two payloads as one, each behind its length. -/
def joined (first second : List UInt8) : List UInt8 := framed first ++ framed second

/-- Why a payload is not two others. -/
inductive Misfit where
  | noPrefix
  | first (declared size : ℕ)
  | second (declared more size : ℕ)
  deriving DecidableEq

/-- The two payloads that fill one to its last byte. -/
def halves (payload : List UInt8) : Except Misfit (List UInt8 × List UInt8) :=
  if payload.length < 4 then .error .noPrefix
  else
    let n₁ := lengthAt payload
    if payload.length < 4 + n₁ + 4 then .error (.first n₁ payload.length)
    else
      let n₂ := lengthAt (payload.drop (4 + n₁))
      if payload.length ≠ 8 + n₁ + n₂ then .error (.second n₁ n₂ payload.length)
      else .ok ((payload.drop 4).take n₁, (payload.drop (8 + n₁)).take n₂)

theorem halves_joined {first second : List UInt8} (small₁ : first.length < 4294967296)
    (small₂ : second.length < 4294967296) :
    halves (joined first second) = .ok (first, second) := by
  have size : (joined first second).length = 8 + first.length + second.length := by
    rw [joined, List.length_append, length_framed, length_framed]
    omega
  have one : lengthAt (joined first second) = first.length := by
    rw [joined, framed, List.append_assoc]
    exact lengthAt_lengthPrefix small₁ _
  have behind : (joined first second).drop (4 + first.length) = framed second :=
    List.drop_left' (length_framed first)
  have two : lengthAt (framed second) = second.length := lengthAt_lengthPrefix small₂ _
  have left : ((joined first second).drop 4).take first.length = first := by
    show (first ++ framed second).take first.length = first
    exact List.take_left
  have right : ((joined first second).drop (8 + first.length)).take second.length = second := by
    have more : (joined first second).drop (8 + first.length) = (framed second).drop 4 := by
      rw [← behind, List.drop_drop]
      congr 1
      omega
    rw [more]
    exact List.take_length
  rw [halves, size, if_neg (by omega)]
  simp only [one, behind, two, left, right]
  rw [if_neg (by omega), if_neg (not_not.2 rfl)]

/-! ## Readers -/

/-- Why a read answers no frame. -/
inductive ReadError (ε : Type) where
  | tooLong (declared : ℕ)
  | malformed (e : ε)
  | peerClosed (midFrame : Bool)

/-- What the peer delivers: the bytes of each receipt. After the last one, and at an empty one,
it has closed. -/
abbrev Delivery := List (List UInt8)

variable {φ ε : Type}

/-- What a buffer answers by itself, with a decoder that says how many bytes it took: nothing
where the frame in front is not whole. -/
def front (limit : ℕ) (decode : List UInt8 → Except ε (φ × ℕ)) (buf : List UInt8) :
    Option (Except (ReadError ε) (φ × List UInt8)) :=
  match extent limit buf with
  | .incomplete => none
  | .tooLong declared => some (.error (.tooLong declared))
  | .whole size =>
      match decode (buf.take size) with
      | .error e => some (.error (.malformed e))
      | .ok (frame, consumed) => some (.ok (frame, buf.drop consumed))

/-- One read: the frame, the buffer behind it and what is not delivered yet. -/
def read (limit : ℕ) (decode : List UInt8 → Except ε (φ × ℕ)) :
    Delivery → List UInt8 → Except (ReadError ε) (φ × List UInt8 × Delivery)
  | [], buf =>
      match front limit decode buf with
      | some (.ok (frame, buf)) => .ok (frame, buf, [])
      | some (.error e) => .error e
      | none => .error (.peerClosed (!buf.isEmpty))
  | chunk :: later, buf =>
      match front limit decode buf with
      | some (.ok (frame, buf)) => .ok (frame, buf, chunk :: later)
      | some (.error e) => .error e
      | none =>
          if chunk = [] then .error (.peerClosed (!buf.isEmpty))
          else read limit decode later (buf ++ chunk)

/-- At most `n` reads, up to the first that answers no frame. -/
def reads (limit : ℕ) (decode : List UInt8 → Except ε (φ × ℕ)) :
    ℕ → Delivery → List UInt8 → List (Except (ReadError ε) φ)
  | 0, _, _ => []
  | n + 1, later, buf =>
      match read limit decode later buf with
      | .ok (frame, buf, later) => .ok frame :: reads limit decode n later buf
      | .error e => [.error e]

/-- The answers to a stream of frames that is closed behind `part`. -/
def answers (decode : List UInt8 → Except ε (φ × ℕ)) (part : List UInt8) :
    List (List UInt8) → List (Except (ReadError ε) φ)
  | [] => [.error (.peerClosed (!part.isEmpty))]
  | bytes :: rest =>
      match decode bytes with
      | .error e => [.error (.malformed e)]
      | .ok (frame, _) => .ok frame :: answers decode part rest

/-- The bytes are a frame within the limit. -/
def IsFrame (limit : ℕ) (bytes : List UInt8) : Prop :=
  ∃ payload : List UInt8, payload.length ≤ limit ∧ bytes = framed payload

/-- What is left of a stream when it is cut inside a frame, or between two. -/
def IsPart (limit : ℕ) (part : List UInt8) : Prop :=
  ∃ bytes rest, IsFrame limit bytes ∧ rest ≠ [] ∧ part ++ rest = bytes

theorem isPart_nil : IsPart limit [] :=
  ⟨framed [], framed [], ⟨[], Nat.zero_le _, rfl⟩, List.cons_ne_nil _ _, rfl⟩

variable {decode : List UInt8 → Except ε (φ × ℕ)}

/-- What was received of a stream is a part of the frame in front, or holds all of it. -/
theorem part_or_whole {buf tail bytes rest : List UInt8} (stream : buf ++ tail = bytes ++ rest) :
    (∃ missing, missing ≠ [] ∧ buf ++ missing = bytes) ∨
      ∃ behind, buf = bytes ++ behind ∧ behind ++ tail = rest := by
  obtain ⟨missing, same, others⟩ | ⟨behind, same, others⟩ := List.append_eq_append_iff.1 stream
  · by_cases done : missing = []
    · subst done
      rw [List.append_nil] at same
      rw [List.nil_append] at others
      exact .inr ⟨[], by rw [same, List.append_nil], others⟩
    · exact .inl ⟨missing, done, same.symm⟩
  · exact .inr ⟨behind, same, others.symm⟩

section Streams

variable (bound : limit < 4294967296)
  (sizes : ∀ bytes frame consumed,
    decode bytes = .ok (frame, consumed) → extent limit bytes = .whole consumed)

include bound

theorem front_cut {part : List UInt8} (isPart : IsPart limit part) :
    front limit decode part = none := by
  obtain ⟨bytes, rest, ⟨payload, short, rfl⟩, missing, cut⟩ := isPart
  rw [front, extent_cut short bound cut missing]

theorem front_frame {payload : List UInt8} (short : payload.length ≤ limit)
    (rest : List UInt8) :
    front limit decode (framed payload ++ rest) =
      match decode (framed payload) with
      | .error e => some (.error (.malformed e))
      | .ok (frame, consumed) => some (.ok (frame, (framed payload ++ rest).drop consumed)) := by
  rw [front, extent_framed short bound]
  simp only [List.take_left']

/-- What remains of a stream that is closed inside a frame, in whatever pieces, answers that the
peer has closed. -/
theorem read_part {later : Delivery} {buf part : List UInt8}
    (pieces : ∀ chunk ∈ later, chunk ≠ []) (isPart : IsPart limit part)
    (stream : buf ++ later.flatten = part) :
    read limit decode later buf = .error (.peerClosed (!part.isEmpty)) := by
  induction later generalizing buf with
  | nil =>
      rw [List.flatten_nil, List.append_nil] at stream
      subst stream
      rw [read, front_cut bound isPart]
  | cons chunk later ih =>
      have cut : IsPart limit buf := by
        obtain ⟨bytes, rest, isFrame, missing, cut⟩ := isPart
        rw [← stream, List.append_assoc] at cut
        exact ⟨bytes, _, isFrame, by simp [missing], cut⟩
      rw [List.flatten_cons, ← List.append_assoc] at stream
      rw [read, front_cut bound cut]
      simp only
      rw [if_neg (pieces chunk List.mem_cons_self),
        ih (fun c mem => pieces c (List.mem_cons_of_mem _ mem)) stream]

/-- A decoder that takes the frame in front takes all of a frame. -/
theorem consumed_frame (sizes : ∀ bytes frame consumed,
      decode bytes = .ok (frame, consumed) → extent limit bytes = .whole consumed)
    {payload : List UInt8} (short : payload.length ≤ limit) {frame : φ} {consumed : ℕ}
    (decoded : decode (framed payload) = .ok (frame, consumed)) :
    consumed = (framed payload).length := by
  have whole := extent_framed short bound []
  rw [List.append_nil, sizes _ _ _ decoded] at whole
  cases whole
  rfl

include sizes

/-- A read of a stream with a whole frame in front, in whatever pieces, answers what the decoder
makes of that frame, and leaves what follows it. -/
theorem read_frame {bytes rest buf : List UInt8} {later : Delivery}
    (isFrame : IsFrame limit bytes) (pieces : ∀ chunk ∈ later, chunk ≠ [])
    (stream : buf ++ later.flatten = bytes ++ rest) :
    (∃ e, decode bytes = .error e ∧ read limit decode later buf = .error (.malformed e)) ∨
      ∃ frame consumed next remaining, decode bytes = .ok (frame, consumed) ∧
        read limit decode later buf = .ok (frame, next, remaining) ∧
        (∀ chunk ∈ remaining, chunk ≠ []) ∧ next ++ remaining.flatten = rest := by
  induction later generalizing buf with
  | nil =>
      obtain ⟨payload, short, rfl⟩ := isFrame
      rw [List.flatten_nil, List.append_nil] at stream
      subst stream
      rw [read, front_frame bound short]
      cases decoded : decode (framed payload) with
      | error e => exact .inl ⟨e, rfl, rfl⟩
      | ok p =>
          obtain ⟨frame, consumed⟩ := p
          have size := consumed_frame bound sizes short decoded
          subst size
          exact .inr ⟨frame, _, _, [], rfl, rfl, pieces, by simp⟩
  | cons chunk later ih =>
      obtain ⟨missing, some_, cut⟩ | ⟨behind, whole, tail⟩ := part_or_whole stream
      · have isPart : IsPart limit buf := ⟨bytes, missing, isFrame, some_, cut⟩
        rw [List.flatten_cons, ← List.append_assoc] at stream
        rw [read, front_cut bound isPart]
        simp only
        rw [if_neg (pieces chunk List.mem_cons_self)]
        exact ih (fun c mem => pieces c (List.mem_cons_of_mem _ mem)) stream
      · obtain ⟨payload, short, rfl⟩ := isFrame
        subst whole
        rw [read, front_frame bound short]
        cases decoded : decode (framed payload) with
        | error e => exact .inl ⟨e, rfl, rfl⟩
        | ok p =>
            obtain ⟨frame, consumed⟩ := p
            have size := consumed_frame bound sizes short decoded
            subst size
            exact .inr ⟨frame, _, _, chunk :: later, rfl, rfl, pieces, by simpa using tail⟩

/-- What a run of reads answers depends on the bytes alone: each frame as the decoder has it, and
then, if it had them all, that the peer has closed. -/
theorem reads_eq_answers {n : ℕ} {frames : List (List UInt8)} {part buf : List UInt8}
    {later : Delivery} (isFrame : ∀ bytes ∈ frames, IsFrame limit bytes)
    (isPart : IsPart limit part) (pieces : ∀ chunk ∈ later, chunk ≠ [])
    (stream : buf ++ later.flatten = frames.flatten ++ part) (enough : frames.length < n) :
    reads limit decode n later buf = answers decode part frames := by
  induction frames generalizing n buf later with
  | nil =>
      obtain ⟨m, rfl⟩ := Nat.exists_eq_add_one.2 enough
      rw [reads, read_part bound pieces isPart stream]
      rfl
  | cons bytes frames ih =>
      obtain ⟨m, rfl⟩ := Nat.exists_eq_add_one.2 (Nat.zero_lt_of_lt enough)
      rw [List.flatten_cons, List.append_assoc] at stream
      obtain ⟨e, failed, answer⟩ |
          ⟨frame, consumed, next, remaining, decoded, answer, more, tail⟩ :=
        read_frame bound sizes (isFrame bytes List.mem_cons_self) pieces stream
      · rw [reads, answer, answers, failed]
      · rw [reads, answer, answers, decoded]
        simp only
        rw [ih (fun b mem => isFrame b (List.mem_cons_of_mem _ mem)) more tail
          (Nat.lt_of_succ_lt_succ enough)]

end Streams

/-- Every frame is answered as expected if and only if the decoder reads each of them so. -/
theorem answers_eq_iff {part : List UInt8} {α : Type} (bytes : α → List UInt8)
    (frame : α → φ) (sent : List α) :
    answers decode part (sent.map bytes) =
        sent.map (fun s => .ok (frame s)) ++ [.error (.peerClosed (!part.isEmpty))] ↔
      ∀ s ∈ sent, ∃ consumed, decode (bytes s) = .ok (frame s, consumed) := by
  induction sent with
  | nil => simp [answers]
  | cons s sent ih =>
      rw [List.map_cons, answers, List.forall_mem_cons, ← ih]
      cases decoded : decode (bytes s) with
      | error e => simp
      | ok p =>
          obtain ⟨got, consumed⟩ := p
          simp

/-! ## Frames that end at a mark

A stream is cut at every mark: the frames that are whole, and what stands behind the last of them.
A reader that keeps the rest and cuts it again with what arrives next finds the same frames.
-/

section Marks

variable {α : Type} [DecidableEq α] (mark : α)

/-- The frames in front of the marks, and what no mark ends. -/
def cut : List α → List (List α) × List α
  | [] => ([], [])
  | a :: s =>
      if a = mark then ([] :: (cut s).1, (cut s).2)
      else match (cut s).1 with
        | [] => ([], a :: (cut s).2)
        | frame :: frames => ((a :: frame) :: frames, (cut s).2)

@[simp] theorem cut_nil : cut mark [] = ([], []) := rfl

/-- A frame that its next element does not end. -/
theorem cut_cons_of_ne {a : α} (s : List α) (other : a ≠ mark) :
    cut mark (a :: s) = match (cut mark s).1 with
      | [] => ([], a :: (cut mark s).2)
      | frame :: frames => ((a :: frame) :: frames, (cut mark s).2) :=
  if_neg other

theorem cut_cons_self (s : List α) :
    cut mark (mark :: s) = ([] :: (cut mark s).1, (cut mark s).2) :=
  if_pos rfl

/-- Cutting what was kept with what follows it finds the frames of the whole. -/
theorem cut_append (s t : List α) : cut mark (s ++ t) =
    ((cut mark s).1 ++ (cut mark ((cut mark s).2 ++ t)).1,
      (cut mark ((cut mark s).2 ++ t)).2) := by
  induction s with
  | nil => rfl
  | cons a s ih =>
      by_cases same : a = mark
      · rw [same, List.cons_append, cut_cons_self, ih, cut_cons_self]
        rfl
      · rw [List.cons_append, cut_cons_of_ne _ _ same, ih, cut_cons_of_ne _ _ same]
        cases whole : (cut mark s).1 with
        | nil =>
            show (match (cut mark ((cut mark s).2 ++ t)).1 with
              | [] => ([], a :: (cut mark ((cut mark s).2 ++ t)).2)
              | frame :: frames =>
                  ((a :: frame) :: frames, (cut mark ((cut mark s).2 ++ t)).2)) =
              ([] ++ (cut mark (a :: ((cut mark s).2 ++ t))).1,
                (cut mark (a :: ((cut mark s).2 ++ t))).2)
            rw [cut_cons_of_ne _ _ same]
            rfl
        | cons frame frames => rfl

end Marks

end Hx.Library
