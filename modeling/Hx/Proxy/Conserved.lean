import Hx.Proxy.Capture

/-!
# No record is lost uncounted

A record that was offered is in exactly one place, whatever the interleaving: delivered,
counted, queued, with a drain that is delivering it, in its own call of `offer`, or off the
queue in the hands of a thread that goes on to count it. The counters are what was counted,
and what the far side has acknowledged never passes them; a report asks for all that is
counted and not acknowledged, so one that was not acknowledged is part of the next.
-/

namespace Hx.Proxy.Capture

open Hx.Library

variable {m n : Machine} {t : Nat} {p : Pc} {e : Event} {past : List Event}

/-- The record was passed to `offer`. -/
def Offered (past : List Event) (o : Captured) : Prop := ∃ t, .offer t o ∈ past

/-- How much of the drops of a source the far side has acknowledged. -/
def acknowledged : List Event → Source → Nat
  | [], _ => 0
  | .answer _ s n a :: past, r =>
      if a.told ∧ s = r then acknowledged past r + n else acknowledged past r
  | _ :: past, r => acknowledged past r

/-! ## Places -/

section Places

variable {s : Place}

/-- A thread that moves on changes at most its own places. -/
theorem contents_goto (sink : s = .drainer t → p.inSink = (m.pc t).inSink)
    (offer : s = .offering t → p.inOffer = (m.pc t).inOffer)
    (count : s = .counting t → p.toCount = (m.pc t).toCount) :
    (m.goto t p).contents s = m.contents s := by
  cases s with
  | delivered => rfl
  | counted => rfl
  | queue => rfl
  | drainer u =>
      by_cases same : u = t
      · rw [Machine.contents, same, Machine.goto_pc_self]
        exact sink (congrArg _ same)
      · rw [Machine.contents, Machine.goto_pc_of_ne same]
        rfl
  | offering u =>
      by_cases same : u = t
      · rw [Machine.contents, same, Machine.goto_pc_self]
        exact offer (congrArg _ same)
      · rw [Machine.contents, Machine.goto_pc_of_ne same]
        rfl
  | counting u =>
      by_cases same : u = t
      · rw [Machine.contents, same, Machine.goto_pc_self]
        exact count (congrArg _ same)
      · rw [Machine.contents, Machine.goto_pc_of_ne same]
        rfl

@[simp] theorem goto_drainer : (m.goto t p).contents (.drainer t) = p.inSink :=
  congrArg Pc.inSink Machine.goto_pc_self

@[simp] theorem goto_offering : (m.goto t p).contents (.offering t) = p.inOffer :=
  congrArg Pc.inOffer Machine.goto_pc_self

@[simp] theorem goto_counting : (m.goto t p).contents (.counting t) = p.toCount :=
  congrArg Pc.toCount Machine.goto_pc_self

end Places

theorem contents_queue {s : Place} (q : List Captured) (other : s ≠ .queue) :
    ({ m with queue := q } : Machine).contents s = m.contents s := by
  cases s with
  | queue => exact absurd rfl other
  | _ => rfl

theorem contents_delivered {s : Place} (d : List Captured) (other : s ≠ .delivered) :
    ({ m with delivered := d } : Machine).contents s = m.contents s := by
  cases s with
  | delivered => exact absurd rfl other
  | _ => rfl

theorem contents_count {s : Place} (o : Captured) (other : s ≠ .counted) :
    (m.count o).contents s = m.contents s := by
  cases s with
  | counted => exact absurd rfl other
  | _ => rfl

theorem inSink_pc (next : Next) : next.pc.inSink = [] := by cases next <;> rfl

theorem toCount_pc (next : Next) : next.pc.toCount = [] := by cases next <;> rfl

theorem inOffer_pc (next : Next) : next.pc.inOffer = next.inOffer := by cases next <;> rfl

section Custody

variable {entered : Captured → Prop} (h : Custody m.contents entered)

include h

/-- A thread that moves on with the same records in its hands. -/
theorem custody_goto {q : Pc} (at_ : m.pc t = q) (sink : p.inSink = q.inSink)
    (offer : p.inOffer = q.inOffer) (count : p.toCount = q.toCount) :
    Custody (m.goto t p).contents entered := by
  subst at_
  have same : (m.goto t p).contents = m.contents :=
    funext fun _ => contents_goto (fun _ => sink) (fun _ => offer) fun _ => count
  exact same ▸ h

theorem custody_enqueue {o : Captured} (at_ : m.pc t = .offering o) :
    Custody ({ m with queue := m.queue ++ [o] }.goto t .enqueued).contents entered := by
  apply h.move (p := .offering t) (q := .queue) nofun [o]
  · rw [goto_offering, Machine.contents, at_]
    rfl
  · exact List.perm_append_comm
  · intro s offering queue
    rw [contents_goto (fun _ => by rw [at_]; rfl) (fun here => absurd here offering)
      (fun _ => by rw [at_]; rfl), contents_queue _ queue]

/-- A record off the queue goes to a drain or to be counted. -/
theorem custody_evict {o evicted : Captured} {rest : List Captured} (at_ : m.pc t = .polling o)
    (queue : m.queue = evicted :: rest) :
    Custody ({ m with queue := rest }.goto t (.counting [evicted] (.again o))).contents entered := by
  apply h.move (p := .queue) (q := .counting t) nofun [evicted]
  · exact .of_eq queue
  · rw [goto_counting, Machine.contents, at_]
    rfl
  · intro s there counting
    rw [contents_goto (fun _ => by rw [at_]; rfl) (fun _ => by rw [at_]; rfl)
      (fun here => absurd here counting), contents_queue _ there]

theorem custody_take {o : Captured} {rest : List Captured} (at_ : m.pc t = .parked)
    (queue : m.queue = o :: rest) :
    Custody ({ m with queue := rest }.goto t (.delivering o)).contents entered := by
  apply h.move (p := .queue) (q := .drainer t) nofun [o]
  · exact .of_eq queue
  · rw [goto_drainer, Machine.contents, at_]
    rfl
  · intro s there drainer
    rw [contents_goto (fun here => absurd here drainer) (fun _ => by rw [at_]; rfl)
      (fun _ => by rw [at_]; rfl), contents_queue _ there]

theorem custody_drainTo {next : Next} (at_ : m.pc t = .discarding next) :
    Custody ({ m with queue := [] }.goto t (.counting m.queue next)).contents entered := by
  apply h.move (p := .queue) (q := .counting t) nofun m.queue
  · exact .of_eq (List.append_nil _).symm
  · rw [goto_counting, Machine.contents, at_]
    exact .of_eq (List.append_nil _).symm
  · intro s there counting
    rw [contents_goto (fun _ => by rw [at_]; rfl) (fun _ => by rw [at_]; rfl)
      (fun here => absurd here counting), contents_queue _ there]

theorem custody_count {o : Captured} {left : List Captured} {next : Next}
    (at_ : m.pc t = .counting (o :: left) next) :
    Custody ((m.count o).goto t (.counting left next)).contents entered := by
  have same : (m.count o).pc t = .counting (o :: left) next := at_
  apply h.move (p := .counting t) (q := .counted) nofun [o]
  · rw [goto_counting, Machine.contents, at_]
    rfl
  · exact .refl _
  · intro s counting there
    rw [contents_goto (fun _ => by rw [same]; rfl) (fun _ => by rw [same]; rfl)
      (fun here => absurd here counting), contents_count _ there]

theorem custody_deliver {o : Captured} (at_ : m.pc t = .delivering o) (a : Answer) :
    Custody ({ m with delivered := if a.told then o :: m.delivered else m.delivered }.goto t
      (deliverTo o a)).contents entered := by
  cases told : a.told with
  | true =>
      simp only [deliverTo, told, if_true]
      apply h.move (p := .drainer t) (q := .delivered) nofun [o]
      · rw [goto_drainer, Machine.contents, at_]
        rfl
      · exact .refl _
      · intro s drainer there
        rw [contents_goto (fun here => absurd here drainer) (fun _ => by rw [at_]; rfl)
          (fun _ => by rw [at_]; rfl), contents_delivered _ there]
  | false =>
      simp only [deliverTo, told, Bool.false_eq_true, if_false]
      apply h.move (p := .drainer t) (q := .counting t) nofun [o]
      · rw [goto_drainer, Machine.contents, at_]
        rfl
      · rw [goto_counting, Machine.contents, at_]
        rfl
      · intro s drainer counting
        rw [contents_goto (fun here => absurd here drainer) (fun _ => by rw [at_]; rfl)
          (fun here => absurd here counting)]

end Custody

/-- Every step but the start of an `offer` keeps the records it finds. -/
theorem Step.custody {entered : Captured → Prop} (st : Step m e n)
    (h : Custody m.contents entered) (later : ∀ t o, e ≠ .offer t o) :
    Custody n.contents entered := by
  cases st with
  | offer => exact absurd rfl (later _ _)
  | enqueue at_ => exact custody_enqueue h at_
  | full at_ => exact custody_goto h at_ rfl rfl rfl
  | evict at_ queue => exact custody_evict h at_ queue
  | raced at_ => exact custody_goto h at_ rfl rfl rfl
  | readAccepting at_ =>
      cases m.accepting <;> exact custody_goto h at_ rfl rfl rfl
  | drainTo at_ => exact custody_drainTo h at_
  | count at_ => exact custody_count h at_
  | counted at_ =>
      exact custody_goto h at_ (inSink_pc _) (inOffer_pc _) (toCount_pc _)
  | countLost => exact h
  | readRunning at_ =>
      cases m.running <;> exact custody_goto h at_ rfl rfl rfl
  | take at_ queue => exact custody_take h at_ queue
  | timeout at_ => exact custody_goto h at_ rfl rfl rfl
  | interrupted at_ => exact custody_goto h at_ rfl rfl rfl
  | deliver at_ => exact custody_deliver h at_ _
  | lock at_ => exact custody_goto h at_ rfl rfl rfl
  | settled at_ => exact custody_goto h at_ rfl rfl rfl
  | ask at_ => exact custody_goto h at_ rfl rfl rfl
  | answer at_ => exact custody_goto h at_ rfl rfl rfl
  | unlock at_ =>
      exact custody_goto h at_ (inSink_pc _) (inOffer_pc _) (toCount_pc _)
  | stop at_ => exact custody_goto h at_ rfl rfl rfl
  | stopRunning at_ => exact custody_goto h at_ rfl rfl rfl
  | joined at_ => exact custody_goto h at_ rfl rfl rfl
  | tryLock at_ =>
      by_cases free : m.reportLock = none
      · rw [if_pos free]
        exact custody_goto h at_ rfl rfl rfl
      · rw [if_neg free]
        exact custody_goto h at_ rfl rfl rfl
  | leave at_ => exact custody_goto h at_ rfl rfl rfl
  | start at_ =>
      by_cases none_ : m.drain = none
      · rw [if_pos none_]
        exact custody_goto h at_ rfl rfl rfl
      · rw [if_neg none_]
        exact h
  | startRunning at_ => exact custody_goto h at_ rfl rfl rfl
  | @spawn t drain at_ idle other =>
      have began := custody_goto h idle (p := .looking) rfl rfl rfl
      have still : (m.goto drain .looking).pc t = .running :=
        (Machine.goto_pc_of_ne other.symm).trans at_
      exact custody_goto began still rfl rfl rfl

/-- A record that is offered is in nobody's hands yet. -/
theorem conserved_offer {o : Captured} (h : Custody m.contents (Offered past))
    (idle : m.pc t = .idle) (fresh : ∀ p, o ∉ m.contents p) :
    Custody (m.goto t (offerTo o)).contents (Offered (.offer t o :: past)) := by
  have new : ¬ Offered past o := by
    intro old
    obtain ⟨p, mem⟩ := (h.kept o).1 old
    exact fresh p mem
  have same : Offered (.offer t o :: past) = fun u => u = o ∨ Offered past u := by
    funext u
    apply propext
    constructor
    · rintro ⟨v, mem⟩
      obtain eq | old := List.mem_cons.1 mem
      · cases eq
        exact .inl rfl
      · exact .inr ⟨v, old⟩
    · rintro (rfl | ⟨v, old⟩)
      · exact ⟨t, List.mem_cons_self⟩
      · exact ⟨v, List.mem_cons_of_mem _ old⟩
  rw [same]
  cases spelled : (sourceName o.source).isNone with
  | true =>
      rw [offerTo, if_pos spelled]
      apply h.enter (p := .counting t) new
      · rw [goto_counting, Machine.contents, idle]
        rfl
      · intro s counting
        exact contents_goto (fun _ => by rw [idle]; rfl) (fun _ => by rw [idle]; rfl)
          fun here => absurd here counting
  | false =>
      rw [offerTo, spelled]
      apply h.enter (p := .offering t) new
      · rw [goto_offering, Machine.contents, idle]
        rfl
      · intro s offering
        exact contents_goto (fun _ => by rw [idle]; rfl) (fun here => absurd here offering)
          fun _ => by rw [idle]; rfl

/-- What one step does to the records offered so far and to the one it may offer. -/
theorem Step.conserved (st : Step m e n) (h : Custody m.contents (Offered past)) :
    Custody n.contents (Offered (e :: past)) := by
  by_cases later : ∀ t o, e ≠ .offer t o
  · have same : Offered (e :: past) = Offered past := by
      funext o
      apply propext
      constructor
      · rintro ⟨t, mem⟩
        obtain eq | old := List.mem_cons.1 mem
        · exact absurd eq.symm (later t o)
        · exact ⟨t, old⟩
      · rintro ⟨t, old⟩
        exact ⟨t, List.mem_cons_of_mem _ old⟩
    rw [same]
    exact st.custody h later
  · rw [not_forall] at later
    obtain ⟨t, later⟩ := later
    rw [not_forall] at later
    obtain ⟨o, offers⟩ := later
    cases not_not.1 offers
    cases st with
    | offer idle fresh => exact conserved_offer h idle fresh

/-! ## Counters -/

/-- What the counters say: each drop is a record that was counted or one that never entered,
and only the thread that holds the lock is between a reading of the counters and its answer. -/
structure Accounts (past : List Event) (m : Machine) : Prop where
  counts : ∀ s, m.dropped s = (m.counted.countP fun o => o.source = s) + m.lost s
  told : ∀ s, acknowledged past s = m.reported s
  below : ∀ s, m.reported s ≤ m.dropped s
  locked : ∀ t, (m.pc t).reports = true → m.reportLock = some t
  asked : ∀ t s now left next, m.pc t = .asking s now left next →
    m.reported s ≤ now ∧ now ≤ m.dropped s

namespace Accounts

variable (h : Accounts past m)

include h

/-- An event that answers no report. -/
theorem cons (same : ∀ s, acknowledged (e :: past) s = acknowledged past s) :
    Accounts (e :: past) m :=
  ⟨h.counts, fun s => (same s).trans (h.told s), h.below, h.locked, h.asked⟩

theorem goto (locks : p.reports = true → m.reportLock = some t)
    (asks : ∀ s now left next, p = .asking s now left next →
      m.reported s ≤ now ∧ now ≤ m.dropped s) : Accounts past (m.goto t p) := by
  refine ⟨h.counts, h.told, h.below, ?_, ?_⟩
  · intro u reports
    by_cases same : u = t
    · rw [same, Machine.goto_pc_self] at reports
      exact same ▸ locks reports
    · rw [Machine.goto_pc_of_ne same] at reports
      exact h.locked u reports
  · intro u s now left next asking
    by_cases same : u = t
    · rw [same, Machine.goto_pc_self] at asking
      exact asks s now left next asking
    · rw [Machine.goto_pc_of_ne same] at asking
      exact h.asked u s now left next asking

/-- A thread outside a report moves on. -/
theorem quiet (silent : p.reports = false) : Accounts past (m.goto t p) := by
  apply h.goto
  · exact fun reports => absurd (silent.symm.trans reports) Bool.false_ne_true
  · rintro s now left next rfl
    contradiction

/-- One more drop, whatever it is made of. -/
theorem drop (s : Source) {counted : List Captured} {lost : Source → Nat}
    (counts : ∀ r, (m.counted.countP fun o => o.source = r) + m.lost r + (if r = s then 1 else 0) =
      (counted.countP fun o => o.source = r) + lost r) :
    Accounts past { m with
      counted := counted
      lost := lost
      dropped := Function.update m.dropped s (m.dropped s + 1) } := by
  have more : ∀ r, Function.update m.dropped s (m.dropped s + 1) r =
      m.dropped r + if r = s then 1 else 0 := by
    intro r
    by_cases same : r = s
    · rw [same, Function.update_self, if_pos rfl]
    · rw [Function.update_of_ne same, if_neg same, Nat.add_zero]
  refine ⟨?_, h.told, ?_, h.locked, ?_⟩
  · intro r
    show Function.update m.dropped s (m.dropped s + 1) r = _
    rw [more, h.counts, counts]
  · intro r
    show m.reported r ≤ Function.update m.dropped s (m.dropped s + 1) r
    rw [more]
    exact Nat.le_add_right_of_le (h.below r)
  · intro u r now left next asking
    show m.reported r ≤ now ∧ now ≤ Function.update m.dropped s (m.dropped s + 1) r
    rw [more]
    obtain ⟨low, high⟩ := h.asked u r now left next asking
    exact ⟨low, Nat.le_add_right_of_le high⟩

theorem count (o : Captured) : Accounts past (m.count o) := by
  apply h.drop o.source
  intro r
  rw [List.countP_cons]
  by_cases same : o.source = r
  · rw [if_pos same.symm, if_pos (decide_eq_true same)]
    omega
  · rw [if_neg (Ne.symm same), if_neg (by simpa using same), Nat.add_zero, Nat.add_zero]

theorem countLost (s : Source) : Accounts past (m.countLost s) := by
  apply h.drop s
  intro r
  by_cases same : r = s
  · rw [same, Function.update_self, if_pos rfl]
    omega
  · rw [Function.update_of_ne same, if_neg same, Nat.add_zero]

/-- What the counters do not depend on. -/
theorem rest (queue delivered : List Captured) (accepting running : Bool)
    (drain monitor : Option Nat) : Accounts past { m with
      queue := queue
      delivered := delivered
      accepting := accepting
      running := running
      drain := drain
      monitor := monitor } :=
  ⟨h.counts, h.told, h.below, h.locked, h.asked⟩

/-- A thread takes the lock and starts a report. -/
theorem lock (free : m.reportLock = none) {left : List Source} {next : Next} :
    Accounts past ({ m with reportLock := some t }.goto t (.reporting left next)) := by
  have held : Accounts past { m with reportLock := some t } :=
    ⟨h.counts, h.told, h.below,
      fun u reports => absurd (free.symm.trans (h.locked u reports)) nofun, h.asked⟩
  exact held.goto (fun _ => rfl) (by rintro _ _ _ _ ⟨⟩)

/-- The thread that holds the lock gives it back. -/
theorem unlock {q : Pc} (at_ : m.pc t = q) (reports : q.reports = true) (next : Next) :
    Accounts past ({ m with reportLock := none }.goto t next.pc) := by
  have mine : m.reportLock = some t := h.locked t (at_ ▸ reports)
  have away : Accounts past (m.goto t next.pc) := h.quiet (by cases next <;> rfl)
  refine ⟨away.counts, away.told, away.below, ?_, away.asked⟩
  intro u speaks
  have speaks : ((m.goto t next.pc).pc u).reports = true := speaks
  have other : u = t := Option.some.inj ((away.locked u speaks).symm.trans mine)
  rw [other, Machine.goto_pc_self] at speaks
  cases next <;> contradiction

/-- An answer settles what was asked, or leaves it for the next report. -/
theorem answer {s : Source} {now : Nat} {left : List Source} {next : Next} (a : Answer)
    (at_ : m.pc t = .asking s now left next) :
    Accounts (.answer t s (now - m.reported s) a :: past)
      ({ m with reported := if a.told then Function.update m.reported s now else m.reported }.goto
        t (.reporting left next)) := by
  have mine : m.reportLock = some t := h.locked t (by rw [at_]; rfl)
  obtain ⟨low, high⟩ := h.asked t s now left next at_
  have onward : Accounts past (m.goto t (.reporting left next)) :=
    h.goto (fun _ => mine) (by rintro _ _ _ _ ⟨⟩)
  cases told : a.told with
  | false =>
      simp only [Bool.false_eq_true, if_false]
      apply onward.cons
      intro r
      rw [acknowledged, told]
      simp
  | true =>
      simp only [if_true]
      refine ⟨onward.counts, ?_, ?_, onward.locked, ?_⟩
      · intro r
        show acknowledged (.answer t s (now - m.reported s) a :: past) r =
          Function.update m.reported s now r
        rw [acknowledged, h.told]
        by_cases same : s = r
        · subst same
          rw [if_pos ⟨told, rfl⟩, Function.update_self]
          omega
        · rw [if_neg (fun both => same both.2), Function.update_of_ne (Ne.symm same)]
      · intro r
        show Function.update m.reported s now r ≤ m.dropped r
        by_cases same : r = s
        · rw [same, Function.update_self]
          exact high
        · rw [Function.update_of_ne same]
          exact h.below r
      · intro u r now' left' next' asking
        have asking : (m.goto t (.reporting left next)).pc u = .asking r now' left' next' := asking
        have other : u = t := by
          have speaks := onward.locked u (by rw [asking]; rfl)
          exact Option.some.inj (speaks.symm.trans mine)
        rw [other, Machine.goto_pc_self] at asking
        contradiction

end Accounts

/-- One step keeps the counters right. -/
theorem Step.accounts (st : Step m e n) (h : Accounts past m) : Accounts (e :: past) n := by
  cases st with
  | @offer t o =>
      have silent : (offerTo o).reports = false := by
        rw [offerTo]
        cases (sourceName o.source).isNone <;> rfl
      exact (h.quiet silent).cons fun _ => rfl
  | enqueue => exact ((h.rest _ _ _ _ _ _).quiet rfl).cons fun _ => rfl
  | full => exact (h.quiet rfl).cons fun _ => rfl
  | evict => exact ((h.rest _ _ _ _ _ _).quiet rfl).cons fun _ => rfl
  | raced => exact (h.quiet rfl).cons fun _ => rfl
  | readAccepting =>
      apply Accounts.cons _ fun _ => rfl
      cases m.accepting <;> exact h.quiet rfl
  | drainTo => exact ((h.rest _ _ _ _ _ _).quiet rfl).cons fun _ => rfl
  | count => exact ((h.count _).quiet rfl).cons fun _ => rfl
  | @counted t next => exact (h.quiet (by cases next <;> rfl)).cons fun _ => rfl
  | countLost => exact (h.countLost _).cons fun _ => rfl
  | readRunning =>
      apply Accounts.cons _ fun _ => rfl
      cases m.running <;> exact h.quiet rfl
  | take => exact ((h.rest _ _ _ _ _ _).quiet rfl).cons fun _ => rfl
  | timeout => exact (h.quiet rfl).cons fun _ => rfl
  | interrupted => exact (h.quiet rfl).cons fun _ => rfl
  | @deliver t o a =>
      have silent : (deliverTo o a).reports = false := by
        rw [deliverTo]
        cases a.told <;> rfl
      exact ((h.rest _ _ _ _ _ _).quiet silent).cons fun _ => rfl
  | lock _ free => exact (h.lock free).cons fun _ => rfl
  | settled at_ =>
      have mine := h.locked _ (by rw [at_]; rfl)
      exact (h.goto (fun _ => mine) (by rintro _ _ _ _ ⟨⟩)).cons fun _ => rfl
  | @ask t s left next at_ =>
      have mine := h.locked _ (by rw [at_]; rfl)
      refine (h.goto (fun _ => mine) ?_).cons fun _ => rfl
      rintro _ _ _ _ ⟨⟩
      exact ⟨h.below s, Nat.le_refl _⟩
  | answer at_ => exact h.answer _ at_
  | unlock at_ => exact (h.unlock at_ rfl _).cons fun _ => rfl
  | stop => exact ((h.rest _ _ _ _ _ _).quiet rfl).cons fun _ => rfl
  | stopRunning => exact ((h.rest _ _ _ _ _ _).quiet rfl).cons fun _ => rfl
  | joined => exact (h.quiet rfl).cons fun _ => rfl
  | tryLock =>
      apply Accounts.cons _ fun _ => rfl
      by_cases free : m.reportLock = none
      · rw [if_pos free]
        exact h.lock free
      · rw [if_neg free]
        exact h.quiet rfl
  | leave => exact ((h.rest _ _ _ _ _ _).quiet rfl).cons fun _ => rfl
  | start =>
      apply Accounts.cons _ fun _ => rfl
      by_cases none_ : m.drain = none
      · rw [if_pos none_]
        exact (h.rest _ _ _ _ _ _).quiet rfl
      · rw [if_neg none_]
        exact h
  | startRunning => exact ((h.rest _ _ _ _ _ _).quiet rfl).cons fun _ => rfl
  | spawn => exact (((h.rest _ _ _ _ _ _).quiet rfl).quiet rfl).cons fun _ => rfl

/-! ## Every run -/

/-- Where the records of a run are, and what has been said of the drops. -/
structure Conservation (past : List Event) (m : Machine) : Prop where
  placed : ∀ o, Offered past o → ∃! p, o ∈ m.contents p
  known : ∀ p, ∀ o ∈ m.contents p, Offered past o
  once : ∀ p, (m.contents p).Nodup
  counted : ∀ s, m.dropped s = (m.counted.countP fun o => o.source = s) + m.lost s
  acknowledged : ∀ s, acknowledged past s ≤ m.dropped s
  asks : ∀ t s k n, Step m (.ask t s k) n → Capture.acknowledged past s + k = m.dropped s ∧ 0 < k
  passes : ∀ t n s left next, Step m (.settled t) n → m.pc t = .reporting (s :: left) next →
    Capture.acknowledged past s = m.dropped s

theorem custody_new (capacity : Nat) : Custody (new capacity).contents (Offered []) := by
  have none_ : Offered [] = fun _ => False := by
    funext o
    exact propext ⟨fun ⟨_, mem⟩ => List.not_mem_nil mem, False.elim⟩
  rw [none_]
  apply Custody.empty
  intro p
  cases p <;> rfl

theorem accounts_new (capacity : Nat) : Accounts [] (new capacity) where
  counts _ := rfl
  told _ := rfl
  below _ := Nat.le_refl _
  locked _ h := nomatch h
  asked _ _ _ _ _ h := nomatch h

/-- In every run of any number of threads, each record that was offered is in exactly one place,
once, and the reports are of what was counted. -/
theorem conserved_over_runs {capacity : Nat} {past : List Event} {m : Machine}
    (run : (system capacity).History past m) : Conservation past m := by
  have kept : Custody m.contents (Offered past) ∧ Accounts past m := by
    apply run.invariant (P := fun past m => Custody m.contents (Offered past) ∧ Accounts past m)
    · rintro _ rfl
      exact ⟨custody_new capacity, accounts_new capacity⟩
    · intro past m e n _ h st
      exact ⟨Step.conserved st h.1, Step.accounts st h.2⟩
  obtain ⟨custody, accounts⟩ := kept
  refine ⟨fun o => custody.existsUnique, fun p o mem => (custody.kept o).2 ⟨p, mem⟩,
    custody.once, accounts.counts, fun s => accounts.told s ▸ accounts.below s, ?_, ?_⟩
  · intro t s k n asks
    have low := accounts.below s
    rw [accounts.told]
    cases asks with
    | ask _ outstanding => omega
  · intro t n s left next passes at_
    rw [accounts.told]
    cases passes with
    | settled here settled =>
        cases at_.symm.trans here
        exact settled.symm

/-! ## A record between two places -/

def first : Captured := ⟨1, .operator⟩

def second : Captured := ⟨2, .operator⟩

/-- A queue of one place that holds the first record, beside a thread between two calls. -/
def queued : Machine :=
  { (new 1).goto 0 (.offering first) with queue := [first] }.goto 0 .enqueued |>.goto 0 .idle

/-- The first record is off the queue, for the second, and not counted yet. -/
def evicted : Machine :=
  { (queued.goto 0 (.offering second)).goto 0 (.polling second) with queue := [] }.goto 0
    (.counting [first] (.again second))

def eviction : List Event :=
  [.evict 0, .full 0, .offer 0 second, .readAccepting 0, .enqueue 0, .offer 0 first]

theorem pc_queued (t : Nat) : queued.pc t = .idle := by
  by_cases here : t = 0
  · rw [here]
    rfl
  · rw [queued, Machine.goto_pc_of_ne here, Machine.goto_pc_of_ne here]
    exact Machine.goto_pc_of_ne here

theorem evicted_run : (system 1).History eviction evicted := by
  have begins : (system 1).History [] (new 1) := .start rfl
  have nowhere : ∀ p, first ∉ (new 1).contents p := fun p => by cases p <;> exact List.not_mem_nil
  have offered := begins.step (Step.offer (t := 0) rfl nowhere)
  have enqueued := offered.step (Step.enqueue (t := 0) rfl (by decide))
  have returned : (system 1).History _ queued := enqueued.step (Step.readAccepting (t := 0) rfl)
  have elsewhere : ∀ p, second ∉ queued.contents p := by
    intro p
    cases p with
    | delivered => exact List.not_mem_nil
    | counted => exact List.not_mem_nil
    | queue => exact show second ∉ [first] by decide
    | _ t =>
        rw [Machine.contents, pc_queued]
        exact List.not_mem_nil
  have again := returned.step (Step.offer (t := 0) rfl elsewhere)
  have turned := again.step (Step.full (t := 0) rfl (by decide))
  exact turned.step (Step.evict rfl rfl)

theorem evicted_conservation : Conservation eviction evicted := conserved_over_runs evicted_run

/-- The first record was offered, and is not delivered, counted, queued or with a drain. -/
theorem evicted_in_no_place : (system 1).History eviction evicted ∧ Offered eviction first ∧
    first ∉ evicted.delivered ∧ first ∉ evicted.counted ∧ first ∉ evicted.queue ∧
    ∀ t, first ∉ evicted.contents (.drainer t) := by
  refine ⟨evicted_run, ⟨0, by simp [eviction]⟩, List.not_mem_nil, List.not_mem_nil, List.not_mem_nil, ?_⟩
  intro t
  by_cases here : t = 0
  · rw [here]
    exact List.not_mem_nil
  · have idle : evicted.pc t = .idle := by
      rw [evicted, Machine.goto_pc_of_ne here]
      show ((queued.goto 0 (.offering second)).goto 0 (.polling second)).pc t = _
      rw [Machine.goto_pc_of_ne here, Machine.goto_pc_of_ne here, pc_queued]
    rw [Machine.contents, idle]
    exact List.not_mem_nil

end Hx.Proxy.Capture
