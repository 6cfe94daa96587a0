import Hx.Harness.Requests

/-!
# A reply reaches the caller that asked for it

Two callers never share a number, and a stored reply came over the connection there is now;
so a caller returns its own reply or raises. What it leaves behind is another matter: a write
that fails, a header that does not encode, and a reply that falls between the end of a wait
and the region after it each leave an entry that the caller's return does not remove.
-/

namespace Hx.Harness.Requests

open Hx.Library

/-! ## What every run keeps -/

/-- What the tables, the connection and the calls have to do with each other. A reply is
stored only under its own number, and all of them came over the connection there is now;
a call that is still under way finds a reply only while it is registered, and while it is
registered the connection is the one it writes to. -/
structure Sound (m : Machine) : Prop where
  serving : ∀ r, m.reader = some r → m.server.conn = some r.gen ∧ m.server.generation = r.gen
  alone : m.reader = none → m.server.conn = none
  issued : ∀ i rid, (m.pc i).rid = some rid → rid ≤ m.nextId
  apart : ∀ i j rid, (m.pc i).rid = some rid → (m.pc j).rid = some rid → i = j
  fresh : ∀ rid, m.pending rid = true → rid ≤ m.nextId
  stored : ∀ rid reply, m.replies rid = some reply →
    reply.id.number = some rid ∧ m.server.conn = some reply.via ∧ rid ≤ m.nextId
  awaited : ∀ i rid reply, (m.pc i).rid = some rid → (m.pc i).done = false →
    m.replies rid = some reply → m.pending rid = true
  same : ∀ i rid conn, (m.pc i).rid = some rid → (m.pc i).conn = some conn →
    m.pending rid = true → m.server.conn = some conn
  answered : ∀ i rid conn reply, m.pc i = .returned rid conn reply →
    reply.id.number = some rid ∧ reply.via = conn

namespace Sound

variable {m : Machine} {i rid : Nat} {p : Pc}

theorem start (engagementId : String) : Sound (start engagementId) where
  serving _ h := nomatch h
  alone _ := rfl
  issued _ _ h := nomatch h
  apart _ _ _ h := nomatch h
  fresh _ h := nomatch h
  stored _ _ h := nomatch h
  awaited _ _ _ h := nomatch h
  same _ _ _ h := nomatch h
  answered _ _ _ _ h := nomatch h

/-- A call that moves on under its number, without starting again. -/
theorem goto (h : Sound m) (number : p.rid = (m.pc i).rid)
    (onward : (m.pc i).done = true → p.done = true)
    (via : ∀ conn, p.conn = some conn → (m.pc i).conn = some conn ∨ m.server.conn = some conn)
    (fair : ∀ rid conn reply, p = .returned rid conn reply →
      reply.id.number = some rid ∧ reply.via = conn) : Sound (m.goto i p) := by
  have ridOf : ∀ j, ((m.goto i p).pc j).rid = (m.pc j).rid := by
    intro j
    by_cases here : j = i
    · subst here
      rw [Machine.goto_pc_self, number]
    · rw [Machine.goto_pc_of_ne here]
  refine ⟨h.serving, h.alone, ?_, ?_, h.fresh, h.stored, ?_, ?_, ?_⟩
  · intro j rid took
    exact h.issued j rid (ridOf j ▸ took)
  · intro j k rid took also
    exact h.apart j k rid (ridOf j ▸ took) (ridOf k ▸ also)
  · intro j rid reply took open_ reply_
    refine h.awaited j rid reply (ridOf j ▸ took) ?_ reply_
    by_cases here : j = i
    · subst here
      have ends : p.done = false := by
        rwa [Machine.goto_pc_self] at open_
      cases before : (m.pc j).done with
      | false => rfl
      | true => exact absurd (onward before) (ends ▸ Bool.false_ne_true)
    · rwa [Machine.goto_pc_of_ne here] at open_
  · intro j rid conn took writes held
    by_cases here : j = i
    · subst here
      have now : p.conn = some conn := by
        rwa [Machine.goto_pc_self] at writes
      obtain before | live := via conn now
      · exact h.same j rid conn (ridOf j ▸ took) before held
      · exact live
    · rw [Machine.goto_pc_of_ne here] at writes
      exact h.same j rid conn (ridOf j ▸ took) writes held
  · intro j rid conn reply back
    by_cases here : j = i
    · subst here
      exact fair rid conn reply (by rwa [Machine.goto_pc_self] at back)
    · exact h.answered j rid conn reply (by rwa [Machine.goto_pc_of_ne here] at back)

/-- A registration goes once no call under way holds its number. -/
theorem forget (h : Sound m)
    (via : ∀ j, (m.pc j).rid = some rid → (m.pc j).done = true) : Sound (m.forget rid) := by
  have kept : ∀ {r}, (m.forget rid).pending r = true → m.pending r = true := by
    intro r held
    by_cases here : r = rid
    · subst here
      rw [Machine.forget_pending_self] at held
      contradiction
    · rwa [Machine.forget_pending_of_ne here] at held
  refine ⟨h.serving, h.alone, h.issued, h.apart, fun r held => h.fresh r (kept held), h.stored,
    ?_, fun j r conn took writes held => h.same j r conn took writes (kept held), h.answered⟩
  intro j r reply took open_ reply_
  have elsewhere : r ≠ rid := by
    rintro rfl
    exact absurd (via j took) (open_ ▸ Bool.false_ne_true)
  rw [Machine.forget_pending_of_ne elsewhere]
  exact h.awaited j r reply took open_ reply_

theorem take (h : Sound m) (rid : Nat) : Sound (m.take rid) := by
  have kept : ∀ {r reply}, (m.take rid).replies r = some reply → m.replies r = some reply := by
    intro r reply stored
    by_cases here : r = rid
    · subst here
      rw [Machine.take_replies_self] at stored
      contradiction
    · rwa [Machine.take_replies_of_ne here] at stored
  exact ⟨h.serving, h.alone, h.issued, h.apart, h.fresh,
    fun r reply stored => h.stored r reply (kept stored),
    fun j r reply took open_ stored => h.awaited j r reply took open_ (kept stored),
    h.same, h.answered⟩

theorem register (h : Sound m) (c : Call) (idle : m.pc i = .idle) : Sound (m.register i c) := by
  have new : ∀ {j rid}, ((m.register i c).pc j).rid = some rid →
      (j = i ∧ rid = m.nextId + 1) ∨ (j ≠ i ∧ (m.pc j).rid = some rid) := by
    intro j rid took
    by_cases here : j = i
    · subst here
      rw [Machine.register_pc_self] at took
      exact .inl ⟨rfl, (Option.some.inj took).symm⟩
    · rw [Machine.register_pc_of_ne here] at took
      exact .inr ⟨here, took⟩
  have held_ : ∀ {r}, r ≤ m.nextId → (m.register i c).pending r = m.pending r := by
    intro r low
    exact Machine.register_pending_of_ne (by omega)
  refine ⟨h.serving, h.alone, ?_, ?_, ?_, ?_, ?_, ?_, ?_⟩
  · intro j rid took
    obtain ⟨-, rfl⟩ | ⟨-, old⟩ := new took
    · exact le_refl _
    · exact (h.issued j rid old).trans (Nat.le_succ _)
  · intro j k rid took also
    obtain ⟨rfl, rfl⟩ | ⟨-, old⟩ := new took
    · obtain ⟨rfl, -⟩ | ⟨-, other⟩ := new also
      · rfl
      · exact absurd (h.issued k _ other) (Nat.not_succ_le_self _)
    · obtain ⟨rfl, rfl⟩ | ⟨-, other⟩ := new also
      · exact absurd (h.issued j _ old) (Nat.not_succ_le_self _)
      · exact h.apart j k rid old other
  · intro r held
    by_cases here : r = m.nextId + 1
    · exact here.le
    · have before : m.pending r = true := by
        rwa [Machine.register_pending_of_ne here] at held
      exact (h.fresh r before).trans (Nat.le_succ _)
  · intro r reply stored
    obtain ⟨number, via, low⟩ := h.stored r reply stored
    exact ⟨number, via, low.trans (Nat.le_succ _)⟩
  · intro j r reply took open_ stored
    have low := (h.stored r reply stored).2.2
    rw [held_ low]
    obtain ⟨-, rfl⟩ | ⟨other, old⟩ := new took
    · exact absurd low (Nat.not_succ_le_self _)
    · rw [Machine.register_pc_of_ne other] at open_
      exact h.awaited j r reply old open_ stored
  · intro j r conn took writes held
    obtain ⟨rfl, -⟩ | ⟨other, old⟩ := new took
    · rw [Machine.register_pc_self] at writes
      contradiction
    · rw [Machine.register_pc_of_ne other] at writes
      rw [held_ (h.issued j r old)] at held
      exact h.same j r conn old writes held
  · intro j rid conn reply back
    by_cases here : j = i
    · subst here
      rw [Machine.register_pc_self] at back
      contradiction
    · rw [Machine.register_pc_of_ne here] at back
      exact h.answered j rid conn reply back

/-- The read thread moves on within its connection. -/
theorem read (h : Sound m) {gen : Nat} {before : Phase} (reads : m.reader = some ⟨gen, before⟩)
    (event : Nat → Bool) (after : Phase) :
    Sound { m with event := event, reader := some ⟨gen, after⟩ } := by
  refine ⟨?_, nofun, h.issued, h.apart, h.fresh, h.stored, h.awaited, h.same, h.answered⟩
  rintro r ⟨⟩
  exact h.serving ⟨gen, before⟩ reads

/-- A call that ends gives its registration up. -/
theorem finish (h : Sound m) (number : (m.pc i).rid = some rid) (same : p.rid = some rid)
    (ends : p.done = true) (via : p.conn = none)
    (fair : ∀ rid conn reply, p = .returned rid conn reply →
      reply.id.number = some rid ∧ reply.via = conn) : Sound ((m.goto i p).forget rid) := by
  have moved : Sound (m.goto i p) := h.goto (same.trans number.symm) (fun _ => ends)
    (fun conn writes => absurd (via.symm.trans writes) nofun) fair
  apply moved.forget
  intro j took
  by_cases here : j = i
  · rw [here, Machine.goto_pc_self]
    exact ends
  · rw [Machine.goto_pc_of_ne here] at took
    exact absurd (h.apart j i rid took number) here

/-- A reply is stored where its number is registered. -/
theorem store (h : Sound m) {reply : Reply} (number : reply.id.number = some rid)
    (held : m.pending rid = true) (via : m.server.conn = some reply.via) :
    Sound { m with replies := Function.update m.replies rid (some reply) } := by
  refine ⟨h.serving, h.alone, h.issued, h.apart, h.fresh, ?_, ?_, h.same, h.answered⟩
  · intro r other stored
    have stored : Function.update m.replies rid (some reply) r = some other := stored
    by_cases here : r = rid
    · subst here
      rw [Function.update_self] at stored
      cases stored
      exact ⟨number, via, h.fresh r held⟩
    · rw [Function.update_of_ne here] at stored
      exact h.stored r other stored
  · intro j r other took open_ stored
    have stored : Function.update m.replies rid (some reply) r = some other := stored
    by_cases here : r = rid
    · subst here
      exact held
    · rw [Function.update_of_ne here] at stored
      exact h.awaited j r other took open_ stored

theorem deliver (h : Sound m) {reply : Reply} (via : m.server.conn = some reply.via) :
    Sound (m.deliver reply).1 := by
  obtain same | ⟨rid, number, held, same⟩ := m.deliver_cases reply
  · rw [same]
    exact h
  · rw [same]
    exact h.store number held via

theorem reader_deliver (reply : Reply) : (m.deliver reply).1.reader = m.reader := by
  obtain same | ⟨rid, -, -, same⟩ := m.deliver_cases reply <;> rw [same]

theorem reset (h : Sound m) {gen : Nat} {phase : Phase} (serves : m.reader = some ⟨gen, phase⟩) :
    Sound { m.reset gen with reader := none } := by
  have same : ¬ gen ≠ m.server.generation := not_not.2 (h.serving _ serves).2.symm
  rw [Machine.reset, if_neg same]
  refine ⟨nofun, fun _ => ?_, h.issued, h.apart, nofun, nofun, nofun, nofun, h.answered⟩
  show (m.server.reset gen).conn = none
  rw [BridgeServer.reset, if_neg same]

end Sound

/-- One step keeps it. -/
theorem Step.sound {m n : Machine} {e : Event} (st : Step m e n) (h : Sound m) : Sound n := by
  cases st with
  | accept alone =>
      have none_ : m.server.conn = none := h.alone alone
      refine ⟨?_, nofun, h.issued, h.apart, h.fresh, ?_, h.awaited, ?_, h.answered⟩
      · intro r serves
        cases serves
        exact ⟨rfl, rfl⟩
      · intro rid reply stored
        exact absurd (none_.symm.trans (h.stored rid reply stored).2.1) nofun
      · intro i rid conn took writes held
        exact absurd (none_.symm.trans (h.same i rid conn took writes held)) nofun
  | register idle => exact h.register _ idle
  | @snapshot i rid c at_ =>
      apply h.goto
      · rw [at_]
        cases m.server.conn <;> rfl
      · rw [at_]
        exact nofun
      · intro conn writes
        cases found : m.server.conn with
        | none =>
            rw [found] at writes
            contradiction
        | some live =>
            rw [found] at writes
            exact .inr writes
      · intro rid' conn reply back
        cases found : m.server.conn <;> rw [found] at back <;> contradiction
  | encodingFails at_ =>
      exact h.goto (by rw [at_]; rfl) (fun _ => rfl) nofun nofun
  | sendFails at_ =>
      exact h.goto (by rw [at_]; rfl) (fun _ => rfl) nofun nofun
  | sent at_ =>
      exact h.goto (by rw [at_]; rfl) (by rw [at_]; exact nofun)
        (fun conn writes => .inl (by rw [at_]; exact writes)) nofun
  | wake at_ _ =>
      exact h.goto (by rw [at_]; rfl) (by rw [at_]; exact nofun)
        (fun conn writes => .inl (by rw [at_]; exact writes)) nofun
  | expire at_ =>
      exact h.goto (by rw [at_]; rfl) (by rw [at_]; exact nofun)
        (fun conn writes => .inl (by rw [at_]; exact writes)) nofun
  | @collect i rid conn c at_ =>
      have number : (m.pc i).rid = some rid := by rw [at_]; rfl
      apply (h.finish number _ _ _ _).take
      · cases m.replies rid <;> rfl
      · cases m.replies rid <;> rfl
      · cases m.replies rid <;> rfl
      · intro rid' conn' reply back
        cases found : m.replies rid with
        | none =>
            rw [found] at back
            contradiction
        | some stored =>
            rw [found] at back
            cases back
            obtain ⟨named, via, -⟩ := h.stored rid reply found
            have held := h.awaited i rid reply number (by rw [at_]; rfl) found
            have writes := h.same i rid conn number (by rw [at_]; rfl) held
            exact ⟨named, Option.some.inj (via.symm.trans writes)⟩
  | giveUp at_ => exact h.finish (by rw [at_]; rfl) rfl rfl rfl nofun
  | @receive gen id body reads =>
      have via : m.server.conn = some gen := (h.serving _ reads).1
      have stored : Sound (m.deliver ⟨id, body, gen⟩).1 := h.deliver via
      exact stored.read ((Sound.reader_deliver _).trans reads) _ _
  | set reads => exact h.read reads _ _
  | close reads => exact h.read reads _ _
  | reset serves => exact h.reset serves

/-! ## Matching -/

/-- What a caller is promised. A reply it returns carries its own number and came over the
connection its request was written to; what it raises is a `BridgeError`; and a call that is
over has left nothing in either table. -/
structure Matched (m : Machine) : Prop where
  own : ∀ i rid conn reply, m.pc i = .returned rid conn reply →
    reply.id.number = some rid ∧ reply.via = conn
  bridge : ∀ i rid e, m.pc i = .raised rid e → e.isBridgeError = true
  released : ∀ i rid, (m.pc i).rid = some rid → (m.pc i).done = true →
    m.pending rid = false ∧ m.replies rid = none

/-- The steps after which nothing is left behind. `_send` finds no connection or loses it only
when a reset has already taken the registration, no header fails to encode, and no reply is
stored when a caller that has waited long enough gives up. -/
def Clean (m : Machine) : Event → Prop
  | .snapshot i => m.server.conn = none → ∀ rid, (m.pc i).rid = some rid → m.pending rid = false
  | .encodingFails _ _ => False
  | .sendFails i _ => ∀ rid, (m.pc i).rid = some rid → m.pending rid = false
  | .giveUp i => ∀ rid, (m.pc i).rid = some rid → m.replies rid = none
  | _ => True

namespace Matched

variable {m : Machine} {i rid : Nat} {p : Pc}

theorem start (engagementId : String) : Matched (start engagementId) where
  own _ _ _ _ h := nomatch h
  bridge _ _ _ h := nomatch h
  released _ _ h := nomatch h

/-- A call that stays under way. -/
theorem goto (h : Matched m) (open_ : p.done = false) : Matched (m.goto i p) := by
  have elsewhere : ∀ {j}, ((m.goto i p).pc j).done = true → j ≠ i := by
    rintro j ends rfl
    rw [Machine.goto_pc_self, open_] at ends
    contradiction
  refine ⟨?_, ?_, ?_⟩
  · intro j rid conn reply back
    rw [Machine.goto_pc_of_ne (elsewhere (by rw [back]; rfl))] at back
    exact h.own j rid conn reply back
  · intro j rid e out
    rw [Machine.goto_pc_of_ne (elsewhere (by rw [out]; rfl))] at out
    exact h.bridge j rid e out
  · intro j rid took ends
    rw [Machine.goto_pc_of_ne (elsewhere ends)] at took ends
    exact h.released j rid took ends

/-- A call that ends, under tables that hold no more than before and nothing of its own. -/
theorem finish (h : Matched m) (same : p.rid = some rid)
    (own : ∀ rid conn reply, p = .returned rid conn reply →
      reply.id.number = some rid ∧ reply.via = conn)
    (bridge : ∀ rid e, p = .raised rid e → e.isBridgeError = true)
    {pending : Nat → Bool} {replies : Nat → Option Reply}
    (fewer : ∀ r, m.pending r = false → m.replies r = none → pending r = false ∧ replies r = none)
    (left : pending rid = false ∧ replies rid = none) :
    Matched { m.goto i p with pending := pending, replies := replies } := by
  refine ⟨?_, ?_, ?_⟩
  · intro j rid conn reply back
    have back : (m.goto i p).pc j = .returned rid conn reply := back
    by_cases here : j = i
    · rw [here, Machine.goto_pc_self] at back
      exact own rid conn reply back
    · rw [Machine.goto_pc_of_ne here] at back
      exact h.own j rid conn reply back
  · intro j rid e out
    have out : (m.goto i p).pc j = .raised rid e := out
    by_cases here : j = i
    · rw [here, Machine.goto_pc_self] at out
      exact bridge rid e out
    · rw [Machine.goto_pc_of_ne here] at out
      exact h.bridge j rid e out
  · intro j r took ends
    have took : ((m.goto i p).pc j).rid = some r := took
    have ends : ((m.goto i p).pc j).done = true := ends
    by_cases here : j = i
    · rw [here, Machine.goto_pc_self, same] at took
      exact Option.some.inj took ▸ left
    · rw [Machine.goto_pc_of_ne here] at took ends
      obtain ⟨held, stored⟩ := h.released j r took ends
      exact fewer r held stored

/-- A call that raises in the middle of `_send` must already have lost its registration. -/
theorem raise_iff (h : Matched m) (sound : Sound m) (number : (m.pc i).rid = some rid)
    (open_ : (m.pc i).done = false) (e : BridgeError) :
    Matched (m.goto i (.raised rid (.bridge e))) ↔
      ∀ r, (m.pc i).rid = some r → m.pending r = false := by
  constructor
  · intro matched r took
    have ours : ((m.goto i (.raised rid (.bridge e))).pc i).rid = some r := by
      rw [Machine.goto_pc_self, ← took, number]
      rfl
    exact (matched.released i r ours (by rw [Machine.goto_pc_self]; rfl)).1
  · intro gone
    have none_ : m.replies rid = none := by
      cases found : m.replies rid with
      | none => rfl
      | some reply =>
          have held := sound.awaited i rid reply number open_ found
          exact absurd held ((gone rid number) ▸ Bool.false_ne_true)
    refine h.finish rfl (by rintro _ _ _ ⟨⟩) ?_ (fun r held stored => ⟨held, stored⟩)
      ⟨gone rid number, none_⟩
    rintro _ _ ⟨⟩
    rfl

theorem register (h : Matched m) (sound : Sound m) (c : Call) : Matched (m.register i c) := by
  have elsewhere : ∀ {j}, ((m.register i c).pc j).done = true → j ≠ i := by
    rintro j ends rfl
    rw [Machine.register_pc_self] at ends
    contradiction
  refine ⟨?_, ?_, ?_⟩
  · intro j rid conn reply back
    rw [Machine.register_pc_of_ne (elsewhere (by rw [back]; rfl))] at back
    exact h.own j rid conn reply back
  · intro j rid e out
    rw [Machine.register_pc_of_ne (elsewhere (by rw [out]; rfl))] at out
    exact h.bridge j rid e out
  · intro j rid took ends
    rw [Machine.register_pc_of_ne (elsewhere ends)] at took ends
    obtain ⟨held, stored⟩ := h.released j rid took ends
    have low := sound.issued j rid took
    exact ⟨(Machine.register_pending_of_ne (by omega)).trans held, stored⟩

/-- A delivery stores nothing for a call that is over. -/
theorem deliver (h : Matched m) (reply : Reply) (reader : Option Reader) :
    Matched { (m.deliver reply).1 with reader := reader } := by
  obtain same | ⟨rid, -, held, same⟩ := m.deliver_cases reply
  · rw [same]
    exact ⟨h.own, h.bridge, h.released⟩
  · rw [same]
    refine ⟨h.own, h.bridge, ?_⟩
    intro j r took ends
    obtain ⟨gone, stored⟩ := h.released j r took ends
    have other : r ≠ rid := by
      rintro rfl
      exact absurd held (gone ▸ Bool.false_ne_true)
    exact ⟨gone, (Function.update_of_ne other ..).trans stored⟩

end Matched

/-- One step keeps the promise exactly if it is clean. -/
theorem Step.matched_iff {m n : Machine} {e : Event} (st : Step m e n) (sound : Sound m)
    (h : Matched m) : Matched n ↔ Clean m e := by
  cases st with
  | accept => exact iff_of_true ⟨h.own, h.bridge, h.released⟩ trivial
  | register => exact iff_of_true (h.register sound _) trivial
  | @snapshot i rid c at_ =>
      have number : (m.pc i).rid = some rid := by rw [at_]; rfl
      cases found : m.server.conn with
      | none =>
          have raised := h.raise_iff sound number (by rw [at_]; rfl) notConnected
          exact raised.trans ⟨fun gone _ => gone, fun gone => gone found⟩
      | some conn =>
          apply iff_of_true (h.goto rfl)
          intro none_
          exact absurd (found.symm.trans none_) nofun
  | @encodingFails i rid conn c text at_ =>
      apply iff_of_false _ id
      intro matched
      exact absurd (matched.bridge i rid _ (Machine.goto_pc_self ..)) Bool.false_ne_true
  | @sendFails i rid conn c text at_ =>
      exact h.raise_iff sound (by rw [at_]; rfl) (by rw [at_]; rfl) (sendFailed text)
  | sent at_ => exact iff_of_true (h.goto rfl) trivial
  | wake at_ => exact iff_of_true (h.goto rfl) trivial
  | expire at_ => exact iff_of_true (h.goto rfl) trivial
  | @collect i rid conn c at_ =>
      apply iff_of_true _ trivial
      have next := (Step.collect at_).sound sound
      have left : Function.update m.pending rid false rid = false ∧
          Function.update m.replies rid none rid = none :=
        ⟨Function.update_self .., Function.update_self ..⟩
      refine h.finish ?_ ?_ ?_ ?_ left
      · cases m.replies rid <;> rfl
      · intro rid' conn' reply back
        exact next.answered i rid' conn' reply ((Machine.goto_pc_self ..).trans back)
      · intro rid' e out
        cases found : m.replies rid with
        | none =>
            rw [found] at out
            cases out
            rfl
        | some reply =>
            rw [found] at out
            contradiction
      · intro r held stored
        by_cases here : r = rid
        · rw [here]
          exact ⟨Function.update_self .., Function.update_self ..⟩
        · exact ⟨(Function.update_of_ne here ..).trans held,
            (Function.update_of_ne here ..).trans stored⟩
  | @giveUp i rid conn c at_ =>
      have number : (m.pc i).rid = some rid := by rw [at_]; rfl
      constructor
      · intro matched r took
        have ours : r = rid := Option.some.inj (took.symm.trans number)
        rw [ours]
        exact (matched.released i rid (by rw [Machine.forget, Machine.goto_pc_self]; rfl)
          (by rw [Machine.forget, Machine.goto_pc_self]; rfl)).2
      · intro gone
        refine h.finish rfl (by rintro _ _ _ ⟨⟩) ?_ ?_ ⟨Function.update_self .., gone rid number⟩
        · rintro _ _ ⟨⟩
          rfl
        · intro r held stored
          by_cases here : r = rid
          · rw [here]
            exact ⟨Function.update_self .., gone rid number⟩
          · exact ⟨(Function.update_of_ne here ..).trans held, stored⟩
  | receive reads => exact iff_of_true (h.deliver _ _) trivial
  | set reads => exact iff_of_true ⟨h.own, h.bridge, h.released⟩ trivial
  | close reads => exact iff_of_true ⟨h.own, h.bridge, h.released⟩ trivial
  | @reset gen serves =>
      apply iff_of_true _ trivial
      have same : ¬ gen ≠ m.server.generation := not_not.2 (sound.serving _ serves).2.symm
      rw [Machine.reset, if_neg same]
      exact ⟨h.own, h.bridge, fun _ _ _ _ => ⟨rfl, rfl⟩⟩

theorem sound_of_reachable {engagementId : String} {m : Machine}
    (reached : (bridge engagementId).Reachable m) : Sound m := by
  apply reached.invariant
  · rintro _ rfl
    exact .start engagementId
  · exact fun _ _ _ h st => Step.sound st h

/-- In every run whose steps are all clean, whatever the interleaving, each caller has what it
is promised; and a run loses that at its first step that is not clean. -/
theorem matched_over_runs (engagementId : String) {m : Machine}
    (reached : ((bridge engagementId).restrict Clean).Reachable m) :
    Matched m ∧ ∀ e n, Step m e n → (Matched n ↔ Clean m e) := by
  obtain ⟨past, run⟩ := reached
  have sound : Sound m := sound_of_reachable run.of_restrict.reachable
  have matched : Matched m := by
    induction run with
    | start begins => exact begins ▸ Matched.start engagementId
    | step past st ih =>
        have before := sound_of_reachable past.of_restrict.reachable
        exact (st.1.matched_iff before (ih before)).2 st.2
  exact ⟨matched, fun e n st => st.matched_iff sound matched⟩

/-! ## Two runs -/

def greeting : Call := ⟨"configure", "10.0"⟩

/-- A connection is there and a caller is about to write to it. -/
def aboutToWrite : Machine :=
  { start "e-1" with
    server := (start "e-1").server.serve
    reader := some ⟨1, .reading⟩ }.register 0 greeting |>.goto 0 (.writing greeting 1 1)

/-- The frame is out and its reply has been delivered. -/
def delivered : Machine :=
  let m := aboutToWrite.goto 0 (.waiting greeting 1 1)
  { (m.deliver ⟨.int 1, [], 1⟩).1 with
    event := Function.update m.event 1 true
    reader := some ⟨1, .reading⟩ }

def collected : Machine :=
  (((delivered.goto 0 (.woken greeting 1 1)).goto 0 (.returned 1 1 ⟨.int 1, [], 1⟩)).forget 1).take 1

theorem aboutToWrite_reachable : ((bridge "e-1").restrict Clean).Reachable aboutToWrite := by
  have begins : ((bridge "e-1").restrict Clean).Reachable (start "e-1") := .init rfl
  have accepted := begins.step ⟨Step.accept rfl, trivial⟩
  have registered := accepted.step ⟨Step.register (i := 0) (c := greeting) rfl, trivial⟩
  exact registered.step ⟨Step.snapshot (i := 0) rfl, nofun⟩

theorem collected_reachable : ((bridge "e-1").restrict Clean).Reachable collected := by
  have sent := aboutToWrite_reachable.step ⟨Step.sent (i := 0) rfl, trivial⟩
  have stored := sent.step ⟨@Step.receive _ 1 (.int 1) [] rfl, trivial⟩
  have notified := stored.step ⟨@Step.set _ 1 1 rfl, trivial⟩
  have woken := notified.step ⟨@Step.wake _ 0 1 1 greeting rfl rfl, trivial⟩
  exact woken.step ⟨Step.collect (i := 0) rfl, trivial⟩

theorem collected_matched :
    collected.pc 0 = .returned 1 1 ⟨.int 1, [], 1⟩ ∧ Matched collected :=
  ⟨rfl, (matched_over_runs "e-1" collected_reachable).1⟩

/-- The peer is gone before the frame is out. -/
def lostWrite : Machine :=
  aboutToWrite.goto 0 (.raised 1 (.bridge (sendFailed "[Errno 32] Broken pipe")))

/-- The caller has raised, and its number is still registered. -/
theorem lost_write_leaks : (bridge "e-1").Reachable lostWrite ∧ ¬ Matched lostWrite := by
  constructor
  · obtain ⟨past, run⟩ := aboutToWrite_reachable
    exact run.of_restrict.reachable.step (.sendFails rfl)
  · intro matched
    have gone := (matched.released 0 1 rfl rfl).1
    contradiction

end Hx.Harness.Requests
