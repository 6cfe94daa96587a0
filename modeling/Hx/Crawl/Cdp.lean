import Hx.Library.Framing
import Hx.Python.Text
import Mathlib.Data.List.Induction

/-!
# One session over a pair of descriptors

Replies and events come over one pipe, as JSON objects behind each of which stands a NUL. Whoever
reads files what it reads: `call` waits for the reply with its own `id`, and `drain` hands out the
events. What is not to be read as JSON is dropped; what fails otherwise ends the read it is in.
-/

namespace Hx.Crawl

open Hx.Library
open Hx.Python (Bytes ascii)

/-! ## Messages -/

/-- What a `dict` finds a reply under. A number that equals an integer is that integer. -/
inductive Key where
  | number (n : Int)
  | other (written : Bytes)
  deriving DecidableEq

/-- The `id` of a message: a list or an object is no key of a `dict`. -/
inductive Id where
  | key (k : Key)
  | unhashable
  deriving DecidableEq

/-- An object, as far as it is read here. -/
structure Message where
  id : Option Id
  error : Bool
  written : Bytes
  deriving DecidableEq

/-- What `json.loads` makes of a frame: an object, a `ValueError`, or what else it raises. -/
inductive Decoded where
  | object (m : Message)
  | refused
  | raised
  deriving DecidableEq

/-! ## The connection -/

structure Connection where
  nextId : Nat
  buf : Bytes
  replies : List (Key × Message)
  events : List Message

def opened : Connection := ⟨0, [], [], []⟩

/-- `self._replies[key] = msg`. -/
def setReply (replies : List (Key × Message)) (k : Key) (m : Message) : List (Key × Message) :=
  (k, m) :: replies.filter fun r => r.1 != k

/-- `self._replies.pop(key)`, and what it leaves. -/
def popReply (replies : List (Key × Message)) (k : Key) : List (Key × Message) :=
  replies.filter fun r => r.1 != k

section Pump

variable (loads : Bytes → Decoded)

/-- One turn of the loop of `_pump`, with a frame in hand. An error holds what it leaves. -/
def fileFrame (c : Connection) (raw : Bytes) : Except Connection Connection :=
  if raw = [] then .ok c
  else match loads raw with
    | .refused => .ok c
    | .raised => .error c
    | .object m =>
        match m.id with
        | none => .ok { c with events := c.events ++ [m] }
        | some .unhashable => .error c
        | some (.key k) => .ok { c with replies := setReply c.replies k m }

/-- The loop of `_pump` over the whole frames of the buffer, with what no NUL ends behind them. A
frame leaves the buffer before it is read. -/
def fileFrames (rest : Bytes) (c : Connection) : List Bytes → Except Connection Connection
  | [] => .ok { c with buf := rest }
  | raw :: frames =>
      match fileFrame loads { c with buf := frames.flatMap (· ++ [0]) ++ rest } raw with
      | .error c => .error c
      | .ok c => fileFrames rest c frames

/-- What `_pump` does with a chunk. -/
def file (c : Connection) (chunk : Bytes) : Except Connection Connection :=
  fileFrames loads (cut 0 (c.buf ++ chunk)).2 c (cut 0 (c.buf ++ chunk)).1

/-- How a wait ends that no reply does. -/
inductive Ending where
  | timeout
  | closed
  deriving DecidableEq

/-- How a call ends. -/
inductive Outcome where
  | returned (reply : Message)
  | failed (reply : Message)
  | unsent
  | ended (e : Ending)
  | escaped
  deriving DecidableEq

def answeredWith (reply : Message) : Outcome :=
  if reply.error then .failed reply else .returned reply

/-- A reply in hand. -/
def handOver (c : Connection) (id : Nat) (reply : Message) : Connection × Outcome × List Bytes :=
  ({ c with replies := popReply c.replies (.number id) }, answeredWith reply, [])

/-- The loop of `call`, over the chunks that would arrive before the deadline, and those it read. -/
def await (id : Nat) (e : Ending) (c : Connection) :
    List Bytes → Connection × Outcome × List Bytes
  | [] =>
      match c.replies.lookup (.number id) with
      | some reply => handOver c id reply
      | none => (c, .ended e, [])
  | chunk :: rest =>
      match c.replies.lookup (.number id) with
      | some reply => handOver c id reply
      | none =>
          match file loads c chunk with
          | .error c => (c, .escaped, [chunk])
          | .ok c =>
              let more := await id e c rest
              (more.1, more.2.1, chunk :: more.2.2)

/-- `call`: the command is written, or its write fails. -/
def call (sent : Bool) (e : Ending) (chunks : List Bytes) (c : Connection) :
    Connection × Outcome × List Bytes :=
  if sent then await loads (c.nextId + 1) e { c with nextId := c.nextId + 1 } chunks
  else ({ c with nextId := c.nextId + 1 }, .unsent, [])

/-- The loop of `drain`, over the chunks that arrive before its deadline or the end of the pipe:
the connection it leaves, whether it escaped, and what it read. -/
def pumpAll (c : Connection) : List Bytes → Connection × Bool × List Bytes
  | [] => (c, false, [])
  | chunk :: rest =>
      match file loads c chunk with
      | .error c => (c, true, [chunk])
      | .ok c =>
          let more := pumpAll c rest
          (more.1, more.2.1, chunk :: more.2.2)

/-! ## Runs -/

/-- What the owner of a connection does, and what arrives meanwhile. -/
inductive Act where
  | call (sent : Bool) (e : Ending) (chunks : List Bytes)
  | drain (chunks : List Bytes)

/-- A call that ended, with all that was read from the pipe by then. -/
structure Called where
  id : Nat
  outcome : Outcome
  by_ : Bytes

/-- A connection and its past: all that was read, what the drains returned, one by one, how the
calls ended, and how many drains did not return. -/
structure Session where
  conn : Connection
  read : Bytes
  drained : List (List Message)
  called : List Called
  escaped : Nat

def fresh : Session := ⟨opened, [], [], [], 0⟩

def act (s : Session) : Act → Session
  | .call sent e chunks =>
      let ended := call loads sent e chunks s.conn
      let read := s.read ++ ended.2.2.flatten
      { s with
        conn := ended.1
        read := read
        called := s.called ++ [⟨s.conn.nextId + 1, ended.2.1, read⟩] }
  | .drain chunks =>
      let ended := pumpAll loads s.conn chunks
      let read := s.read ++ ended.2.2.flatten
      if ended.2.1 then { s with conn := ended.1, read := read, escaped := s.escaped + 1 }
      else { s with
        conn := { ended.1 with events := [] }
        read := read
        drained := s.drained ++ [ended.1.events] }

def session (acts : List Act) : Session := acts.foldl (act loads) fresh

/-! ## What is in a stream -/

/-- The frames of a stream that were ended. -/
def framesOf (stream : Bytes) : List Bytes := (cut 0 stream).1

/-- The objects among some frames. A frame that is refused is none, and neither is an empty one. -/
def messagesOf (frames : List Bytes) : List Message :=
  frames.filterMap fun raw =>
    if raw = [] then none
    else match loads raw with
      | .object m => some m
      | _ => none

def eventsOf (frames : List Bytes) : List Message :=
  (messagesOf loads frames).filter fun m => m.id.isNone

/-- The last reply under a key. -/
def latest (k : Key) (frames : List Bytes) : Option Message :=
  ((messagesOf loads frames).filter fun m => m.id == some (.key k)).getLast?

/-- A frame that is read, or refused with a `ValueError`: no other exception, and no `id` that no
`dict` takes. -/
def Gentle (raw : Bytes) : Prop :=
  raw ≠ [] → loads raw ≠ .raised ∧ ∀ m, loads raw = .object m → m.id ≠ some .unhashable

/-- A call is answered by the last reply under its own `id`, or there was none. -/
inductive Answered (c : Called) : Prop where
  | returned (reply : Message) (outcome : c.outcome = .returned reply)
      (own : reply.id = some (.key (.number c.id))) (error : reply.error = false)
      (last : latest loads (.number c.id) (framesOf c.by_) = some reply)
  | failed (reply : Message) (outcome : c.outcome = .failed reply)
      (own : reply.id = some (.key (.number c.id))) (error : reply.error = true)
      (last : latest loads (.number c.id) (framesOf c.by_) = some reply)
  | ended (e : Ending) (outcome : c.outcome = .ended e)
      (none_ : latest loads (.number c.id) (framesOf c.by_) = none)
  | unsent (outcome : c.outcome = .unsent)

/-- Every event that was read is returned by one drain, in the order of the stream, or still to be
returned; no two calls have one `id`, and each is answered with it or not at all. -/
structure Conserved (s : Session) : Prop where
  events : s.drained.flatten ++ s.conn.events = eventsOf loads (framesOf s.read)
  returned : s.escaped = 0
  ids : s.called.map Called.id = (List.range s.conn.nextId).map (· + 1)
  answered : ∀ c ∈ s.called, c.by_ <+: s.read ∧ Answered loads c

/-! ## Reading a frame -/

@[simp] theorem messagesOf_append (frames frames' : List Bytes) :
    messagesOf loads (frames ++ frames') = messagesOf loads frames ++ messagesOf loads frames' :=
  List.filterMap_append

theorem eventsOf_append (frames frames' : List Bytes) :
    eventsOf loads (frames ++ frames') = eventsOf loads frames ++ eventsOf loads frames' := by
  rw [eventsOf, messagesOf_append, List.filter_append]
  rfl

theorem latest_append (k : Key) (frames frames' : List Bytes) :
    latest loads k (frames ++ frames') = (latest loads k frames').or (latest loads k frames) := by
  rw [latest, messagesOf_append, List.filter_append, List.getLast?_append]
  rfl

theorem framesOf_append (s t : Bytes) :
    framesOf (s ++ t) = framesOf s ++ (cut 0 ((cut 0 s).2 ++ t)).1 := by
  rw [framesOf, cut_append]
  rfl

/-- The last reply under a key is under it. -/
theorem latest_id {k : Key} {frames : List Bytes} {reply : Message}
    (h : latest loads k frames = some reply) : reply.id = some (.key k) := by
  have mem := List.mem_of_getLast? h
  exact beq_iff_eq.1 (List.mem_filter.1 mem).2

theorem lookup_setReply (replies : List (Key × Message)) (k k' : Key) (m : Message) :
    (setReply replies k m).lookup k' = if k' = k then some m else replies.lookup k' := by
  have others : ∀ l : List (Key × Message), k' ≠ k →
      (l.filter fun r => r.1 != k).lookup k' = l.lookup k' := by
    intro l other
    induction l with
    | nil => rfl
    | cons r l ih =>
        by_cases same : r.1 = k
        · have unlike : (k' == r.1) = false := beq_false_of_ne fun equal => other (equal.trans same)
          rw [List.filter_cons_of_neg (by simp [same]), ih, List.lookup_cons, unlike]
        · rw [List.filter_cons_of_pos (by simp [same]), List.lookup_cons, List.lookup_cons, ih]
  unfold setReply
  rw [List.lookup_cons]
  by_cases same : k' = k
  · simp [same]
  · rw [others replies same, beq_false_of_ne same, if_neg same]

theorem lookup_popReply (replies : List (Key × Message)) {k k' : Key} (other : k' ≠ k) :
    (popReply replies k).lookup k' = replies.lookup k' := by
  have kept := lookup_setReply replies k k' ⟨none, false, []⟩
  rw [if_neg other] at kept
  unfold setReply at kept
  rwa [List.lookup_cons, beq_false_of_ne other] at kept

/-- What a connection is after some frames. -/
structure Files (c : Connection) (frames : List Bytes) (rest : Bytes) (c' : Connection) : Prop where
  nextId : c'.nextId = c.nextId
  buf : c'.buf = rest
  events : c'.events = c.events ++ eventsOf loads frames
  replies : ∀ k, c'.replies.lookup k = (latest loads k frames).or (c.replies.lookup k)

variable {loads}

theorem fileFrame_gentle (c : Connection) {raw : Bytes} (gentle : Gentle loads raw) :
    ∃ c', fileFrame loads c raw = .ok c' ∧ Files loads c [raw] c.buf c' := by
  unfold fileFrame
  by_cases empty : raw = []
  · rw [if_pos empty]
    refine ⟨c, rfl, rfl, rfl, ?_, fun k => ?_⟩
    · simp [eventsOf, messagesOf, empty]
    · simp [latest, messagesOf, empty]
  · rw [if_neg empty]
    obtain ⟨read, hashable⟩ := gentle empty
    cases decoded : loads raw with
    | raised => exact absurd decoded read
    | refused =>
        refine ⟨c, rfl, rfl, rfl, ?_, fun k => ?_⟩
        · simp [eventsOf, messagesOf, empty, decoded]
        · simp [latest, messagesOf, empty, decoded]
    | object m =>
        have alone : messagesOf loads [raw] = [m] := by
          simp [messagesOf, empty, decoded]
        cases id_ : m.id with
        | none =>
            simp only [id_]
            refine ⟨_, rfl, rfl, rfl, ?_, fun k => ?_⟩
            · simp [eventsOf, alone, id_]
            · simp [latest, alone, id_]
        | some id =>
            cases id with
            | unhashable => exact absurd id_ (hashable m decoded)
            | key k =>
                simp only [id_]
                refine ⟨_, rfl, rfl, rfl, ?_, fun k' => ?_⟩
                · simp [eventsOf, alone, id_]
                · show (setReply c.replies k m).lookup k' = _
                  rw [lookup_setReply]
                  by_cases same : k' = k
                  · simp [latest, alone, id_, same]
                  · simp [latest, alone, id_, same, Ne.symm same]

theorem fileFrames_gentle (rest : Bytes) {frames : List Bytes}
    (gentle : ∀ raw ∈ frames, Gentle loads raw) (c : Connection) :
    ∃ c', fileFrames loads rest c frames = .ok c' ∧ Files loads c frames rest c' := by
  induction frames generalizing c with
  | nil => exact ⟨_, rfl, rfl, rfl, (List.append_nil _).symm, fun k => rfl⟩
  | cons raw frames ih =>
      obtain ⟨c₁, first, files⟩ := fileFrame_gentle
        { c with buf := frames.flatMap (· ++ [0]) ++ rest } (gentle raw List.mem_cons_self)
      obtain ⟨c₂, more, files'⟩ := ih (fun r mem => gentle r (List.mem_cons_of_mem raw mem)) c₁
      refine ⟨c₂, ?_, files'.nextId.trans files.nextId, files'.buf, ?_, fun k => ?_⟩
      · rw [fileFrames, first]
        exact more
      · rw [files'.events, files.events, List.append_assoc, ← eventsOf_append]
        rfl
      · rw [files'.replies, files.replies, ← Option.or_assoc, ← latest_append]
        rfl

/-! ## Reading a chunk -/

/-- What a connection keeps of all that was read, of which the drains returned some. The replies
to the calls from `first` on are there. -/
structure Keeps (loads : Bytes → Decoded) (first : Nat) (read : Bytes) (returned : List Message)
    (c : Connection) : Prop where
  buf : c.buf = (cut 0 read).2
  events : returned ++ c.events = eventsOf loads (framesOf read)
  replies : ∀ n : Nat, first ≤ n →
    c.replies.lookup (.number n) = latest loads (.number n) (framesOf read)

/-- Whatever follows it, a frame stays one. -/
theorem mem_framesOf {s : Bytes} (t : Bytes) {raw : Bytes} (mem : raw ∈ framesOf s) :
    raw ∈ framesOf (s ++ t) := by
  rw [framesOf_append]
  exact List.mem_append_left _ mem

variable {first : Nat} {read : Bytes} {returned : List Message} {c : Connection}

theorem file_keeps (h : Keeps loads first read returned c) (chunk : Bytes)
    (gentle : ∀ raw ∈ framesOf (read ++ chunk), Gentle loads raw) :
    ∃ c', file loads c chunk = .ok c' ∧ c'.nextId = c.nextId ∧
      Keeps loads first (read ++ chunk) returned c' := by
  have whole := cut_append 0 read chunk
  rw [framesOf_append] at gentle
  have new : ∀ raw ∈ (cut 0 (c.buf ++ chunk)).1, Gentle loads raw :=
    fun raw mem => gentle raw (List.mem_append_right _ (h.buf ▸ mem))
  obtain ⟨c', filed, files⟩ := fileFrames_gentle (cut 0 (c.buf ++ chunk)).2 new c
  refine ⟨c', filed, files.nextId, ?_, ?_, fun n low => ?_⟩
  · rw [files.buf, whole, h.buf]
  · rw [files.events, ← List.append_assoc, h.events, framesOf_append, eventsOf_append, h.buf]
  · rw [files.replies, h.replies n low, framesOf_append, latest_append, h.buf]

/-- How a call under `id` ends, from what was read by then. -/
def EndsBy (loads : Bytes → Decoded) (id : Nat) (outcome : Outcome) (read : Bytes) : Prop :=
  (∃ reply, outcome = answeredWith reply ∧
      latest loads (.number id) (framesOf read) = some reply) ∨
    ∃ e, outcome = .ended e ∧ latest loads (.number id) (framesOf read) = none

theorem handOver_keeps {id : Nat} {reply : Message} (h : Keeps loads id read returned c)
    (held : c.replies.lookup (.number id) = some reply) :
    Keeps loads (id + 1) (read ++ (handOver c id reply).2.2.flatten) returned
        (handOver c id reply).1 ∧
      EndsBy loads id (handOver c id reply).2.1 (read ++ (handOver c id reply).2.2.flatten) := by
  have same : read ++ (handOver c id reply).2.2.flatten = read := List.append_nil read
  rw [same]
  refine ⟨⟨h.buf, h.events, fun n low => ?_⟩, .inl ⟨reply, rfl, ?_⟩⟩
  · show (popReply c.replies (.number id)).lookup (.number n) = _
    rw [lookup_popReply _ fun same => by cases same; omega]
    exact h.replies n (by omega)
  · rw [← h.replies id (Nat.le_refl id), held]

theorem gentle_front {chunk : Bytes} {more : List Bytes}
    (gentle : ∀ raw ∈ framesOf (read ++ (chunk :: more).flatten), Gentle loads raw) :
    ∀ raw ∈ framesOf (read ++ chunk), Gentle loads raw := by
  intro raw mem
  apply gentle raw
  rw [List.flatten_cons, ← List.append_assoc]
  exact mem_framesOf _ mem

/-- A call keeps what the connection keeps, and ends by its own reply or without one. -/
theorem await_keeps {id : Nat} {e : Ending} (chunks : List Bytes)
    (h : Keeps loads id read returned c)
    (gentle : ∀ raw ∈ framesOf (read ++ (await loads id e c chunks).2.2.flatten),
      Gentle loads raw) :
    (await loads id e c chunks).1.nextId = c.nextId ∧
      Keeps loads (id + 1) (read ++ (await loads id e c chunks).2.2.flatten) returned
        (await loads id e c chunks).1 ∧
      EndsBy loads id (await loads id e c chunks).2.1
        (read ++ (await loads id e c chunks).2.2.flatten) := by
  induction chunks generalizing c read with
  | nil =>
      unfold await
      cases held : c.replies.lookup (.number id) with
      | some reply =>
          simp only
          exact ⟨rfl, handOver_keeps h held⟩
      | none =>
          simp only
          have same : read ++ [].flatten = read := List.append_nil read
          rw [same]
          refine ⟨trivial, ⟨h.buf, h.events, fun n low => h.replies n (by omega)⟩,
            .inr ⟨e, rfl, ?_⟩⟩
          rw [← h.replies id (Nat.le_refl id), held]
  | cons chunk rest ih =>
      unfold await at gentle ⊢
      cases held : c.replies.lookup (.number id) with
      | some reply =>
          simp only
          exact ⟨rfl, handOver_keeps h held⟩
      | none =>
          simp only [held] at gentle ⊢
          have early : ∀ raw ∈ framesOf (read ++ chunk), Gentle loads raw := by
            cases filed : file loads c chunk with
            | error c' =>
                rw [filed] at gentle
                exact gentle_front gentle
            | ok c' =>
                rw [filed] at gentle
                exact gentle_front gentle
          obtain ⟨c', filed, nextId, keeps⟩ := file_keeps h chunk early
          simp only [filed, List.flatten_cons, ← List.append_assoc] at gentle ⊢
          obtain ⟨nextId', more⟩ := ih keeps gentle
          exact ⟨nextId'.trans nextId, more⟩

theorem pumpAll_keeps (chunks : List Bytes) (h : Keeps loads first read returned c)
    (gentle : ∀ raw ∈ framesOf (read ++ (pumpAll loads c chunks).2.2.flatten),
      Gentle loads raw) :
    (pumpAll loads c chunks).1.nextId = c.nextId ∧ (pumpAll loads c chunks).2.1 = false ∧
      Keeps loads first (read ++ (pumpAll loads c chunks).2.2.flatten) returned
        (pumpAll loads c chunks).1 := by
  induction chunks generalizing c read with
  | nil =>
      have same : read ++ (pumpAll loads c []).2.2.flatten = read := List.append_nil read
      rw [same]
      exact ⟨rfl, rfl, h⟩
  | cons chunk rest ih =>
      unfold pumpAll at gentle ⊢
      have early : ∀ raw ∈ framesOf (read ++ chunk), Gentle loads raw := by
        cases filed : file loads c chunk with
        | error c' =>
            rw [filed] at gentle
            exact gentle_front gentle
        | ok c' =>
            rw [filed] at gentle
            exact gentle_front gentle
      obtain ⟨c', filed, nextId, keeps⟩ := file_keeps h chunk early
      simp only [filed, List.flatten_cons, ← List.append_assoc] at gentle ⊢
      obtain ⟨nextId', more⟩ := ih keeps gentle
      exact ⟨nextId'.trans nextId, more⟩

/-! ## Whole sessions -/

/-- What holds of a session after every act. -/
structure Sound (loads : Bytes → Decoded) (s : Session) : Prop where
  keeps : Keeps loads (s.conn.nextId + 1) s.read s.drained.flatten s.conn
  conserved : Conserved loads s

theorem fresh_sound : Sound loads fresh := by
  refine ⟨⟨rfl, rfl, fun n _ => rfl⟩, rfl, rfl, rfl, ?_⟩
  intro c mem
  cases mem

theorem answered_of_endsBy {id : Nat} {outcome : Outcome} (h : EndsBy loads id outcome read) :
    Answered loads ⟨id, outcome, read⟩ := by
  obtain ⟨reply, rfl, last⟩ | ⟨e, rfl, none_⟩ := h
  · cases error : reply.error with
    | true => exact .failed reply (if_pos error) (latest_id loads last) error last
    | false =>
        exact .returned reply (if_neg (Bool.eq_false_iff.1 error)) (latest_id loads last) error last
  · exact .ended e rfl none_

/-- One more call in the log. -/
theorem conserved_call {s : Session} (h : Conserved loads s) {c : Connection} {outcome : Outcome}
    (more : Bytes) (nextId : c.nextId = s.conn.nextId + 1)
    (events : s.drained.flatten ++ c.events = eventsOf loads (framesOf (s.read ++ more)))
    (answered : Answered loads ⟨s.conn.nextId + 1, outcome, s.read ++ more⟩) :
    Conserved loads ⟨c, s.read ++ more, s.drained,
      s.called ++ [⟨s.conn.nextId + 1, outcome, s.read ++ more⟩], s.escaped⟩ := by
  refine ⟨events, h.returned, ?_, ?_⟩
  · show List.map Called.id (s.called ++ _) = (List.range c.nextId).map (· + 1)
    rw [nextId, List.map_append, h.ids, List.range_succ, List.map_append]
    rfl
  · intro one mem
    obtain mem | mem := List.mem_append.1 mem
    · obtain ⟨early, own⟩ := h.answered one mem
      exact ⟨early.trans (List.prefix_append _ _), own⟩
    · obtain rfl := List.mem_singleton.1 mem
      exact ⟨List.prefix_refl _, answered⟩

variable (loads) in
/-- What is read once stays read. -/
theorem read_act (s : Session) (a : Act) : ∃ more, (act loads s a).read = s.read ++ more := by
  cases a with
  | call sent e chunks => exact ⟨_, rfl⟩
  | drain chunks =>
      unfold act
      simp only
      split <;> exact ⟨_, rfl⟩

theorem act_sound {s : Session} (h : Sound loads s) (a : Act)
    (gentle : ∀ raw ∈ framesOf (act loads s a).read, Gentle loads raw) :
    Sound loads (act loads s a) := by
  obtain ⟨keeps, conserved⟩ := h
  cases a with
  | call sent e chunks =>
      cases sent with
      | false =>
          have same : s.read ++ [].flatten = s.read := List.append_nil s.read
          have past := conserved_call conserved (c := { s.conn with nextId := s.conn.nextId + 1 })
            [].flatten rfl (by rw [same]; exact conserved.events) (.unsent rfl)
          refine ⟨⟨?_, past.events, fun n low => ?_⟩, past⟩
          · show s.conn.buf = (cut 0 (s.read ++ [].flatten)).2
            rw [same, keeps.buf]
          · show s.conn.replies.lookup _ = latest loads _ (framesOf (s.read ++ [].flatten))
            rw [same]
            exact keeps.replies n (Nat.le_of_succ_le low)
      | true =>
          have started : Keeps loads (s.conn.nextId + 1) s.read s.drained.flatten
              { s.conn with nextId := s.conn.nextId + 1 } :=
            ⟨keeps.buf, keeps.events, keeps.replies⟩
          obtain ⟨nextId, after, ends⟩ := await_keeps (e := e) chunks started gentle
          refine ⟨?_, conserved_call conserved _ nextId after.events (answered_of_endsBy ends)⟩
          refine ⟨after.buf, after.events, fun n low => after.replies n ?_⟩
          exact Nat.le_trans (Nat.le_of_eq (congrArg (· + 1) nextId.symm)) low
  | drain chunks =>
      have reads : (act loads s (.drain chunks)).read =
          s.read ++ (pumpAll loads s.conn chunks).2.2.flatten := by
        unfold act
        simp only
        split <;> rfl
      rw [reads] at gentle
      obtain ⟨nextId, quiet, after⟩ := pumpAll_keeps chunks keeps gentle
      have acts : act loads s (.drain chunks) =
          ⟨{ (pumpAll loads s.conn chunks).1 with events := [] },
            s.read ++ (pumpAll loads s.conn chunks).2.2.flatten,
            s.drained ++ [(pumpAll loads s.conn chunks).1.events], s.called, s.escaped⟩ := by
        unfold act
        simp only [quiet]
        rfl
      have all : (s.drained ++ [(pumpAll loads s.conn chunks).1.events]).flatten ++ [] =
          eventsOf loads (framesOf (s.read ++ (pumpAll loads s.conn chunks).2.2.flatten)) := by
        rw [List.append_nil, List.flatten_append, List.flatten_singleton, after.events]
      rw [acts]
      refine ⟨⟨after.buf, all, fun n low => after.replies n ?_⟩, all, conserved.returned, ?_, ?_⟩
      · exact nextId ▸ low
      · show s.called.map Called.id = (List.range (pumpAll loads s.conn chunks).1.nextId).map _
        rw [nextId]
        exact conserved.ids
      · intro one mem
        obtain ⟨early, own⟩ := conserved.answered one mem
        exact ⟨early.trans (List.prefix_append _ _), own⟩

theorem session_snoc (acts : List Act) (a : Act) :
    session loads (acts ++ [a]) = act loads (session loads acts) a := by
  unfold session
  rw [List.foldl_append]
  rfl

theorem session_sound (acts : List Act)
    (gentle : ∀ raw ∈ framesOf (session loads acts).read, Gentle loads raw) :
    Sound loads (session loads acts) := by
  induction acts using List.reverseRecOn with
  | nil => exact fresh_sound
  | append_singleton acts a ih =>
      rw [session_snoc] at gentle ⊢
      obtain ⟨more, reads⟩ := read_act loads (session loads acts) a
      refine act_sound (ih fun raw mem => gentle raw ?_) a gentle
      rw [reads]
      exact mem_framesOf more mem

end Pump

/-- Whatever is called and drained, and however the stream is cut: while every frame is read or
refused as a `ValueError`, no event is lost or doubled and every call ends by its own reply. -/
theorem session_conserved (loads : Bytes → Decoded) (acts : List Act)
    (gentle : ∀ raw ∈ framesOf (session loads acts).read, Gentle loads raw) :
    Conserved loads (session loads acts) :=
  (session_sound acts gentle).conserved

/-! ## A message whose id is a list -/

def listFrame : Bytes := ascii "\x7b\"id\":[1]\x7d"

def eventFrame : Bytes := ascii "\x7b\"method\":\"a\"\x7d"

/-- `json.loads`, of these two frames. -/
def loadsFrame (raw : Bytes) : Decoded :=
  if raw = listFrame then .object ⟨some .unhashable, false, raw⟩
  else if raw = eventFrame then .object ⟨none, false, raw⟩
  else .refused

/-- An event that arrives during a call that times out. -/
theorem event_conserved : Conserved loadsFrame
    (session loadsFrame [.call true .timeout [eventFrame ++ [0]], .drain []]) := by
  apply session_conserved
  intro raw mem
  have frames : framesOf (session loadsFrame
      [.call true .timeout [eventFrame ++ [0]], .drain []]).read = [eventFrame] := by
    decide +kernel
  rw [frames] at mem
  obtain rfl := List.mem_singleton.1 mem
  have read : loadsFrame eventFrame = .object ⟨none, false, eventFrame⟩ := by decide +kernel
  intro _
  rw [read]
  refine ⟨fun same => (nomatch same), fun m same => ?_⟩
  cases same
  exact fun id => nomatch id

/-- A drain that reads an `id` no `dict` takes raises, and the event behind it is not returned. -/
theorem list_id_escapes : ¬Conserved loadsFrame
    (session loadsFrame [.drain [listFrame ++ [0] ++ eventFrame ++ [0]]]) := by
  intro conserved
  have escaped : (session loadsFrame
      [.drain [listFrame ++ [0] ++ eventFrame ++ [0]]]).escaped = 1 := by
    decide +kernel
  rw [conserved.returned] at escaped
  exact absurd escaped (by decide)

end Hx.Crawl
