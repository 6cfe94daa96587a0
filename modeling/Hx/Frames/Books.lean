import Hx.Frames.Capture

/-!
# The books of a capture

What holds of the rows after every sequence of frames, whatever fails on the way: a run
counts its exchanges, an exchange names a surface of its run's engagement, and a surface
keeps what its first sighting wrote. The rows of an exchange are all there or none is; the
run it belongs to and its heartbeat are written before them, one by one. The channel tells the
store of a frame it could not record, and counts what it could not tell.
-/

namespace Hx.Frames

open Hx.Library Hx.Store Hx.Tools Hx.Checks Prog

/-! ## Books -/

/-- What the counters of a run are about. -/
structure Face where
  id : Nat
  engagement : String
  requestsIssued : Nat
  droppedTotal : Nat
  deriving DecidableEq

def RunRow.face (r : RunRow) : Face := ⟨r.run.id, r.engagement, r.requestsIssued, r.droppedTotal⟩

def Database.faces (db : Database) : List Face := db.runs.map RunRow.face

/-- What is written of a surface once. -/
structure Origin where
  id : Nat
  key : SurfaceKey
  discoveredBy : DiscoveredBy
  firstSeenRun : Nat
  exemplarExchangeId : Nat
  deriving DecidableEq

def SurfaceRow.origin (w : SurfaceRow) : Origin :=
  ⟨w.id, w.key, w.discoveredBy, w.firstSeenRun, w.exemplarExchangeId⟩

def Database.origins (db : Database) : List Origin := db.surfaces.map SurfaceRow.origin

/-- The exchanges recorded for a run. -/
def Database.exchangesOf (db : Database) (run : Nat) : List ExchangeRow :=
  db.exchanges.filter fun x => x.runId = run

/-- `requests_issued` and `dropped_total` of a run; of a run there is not, zeros. -/
def Database.counters (db : Database) (run : Nat) : Nat × Nat :=
  ((db.faces.find? fun r => r.id = run).map fun r => (r.requestsIssued, r.droppedTotal)).getD (0, 0)

structure Consistent (s : Session) : Prop where
  runIds : (s.db.faces.map Face.id).Nodup
  exchangeIds : (s.db.exchanges.map ExchangeRow.id).Nodup
  surfaceIds : (s.db.origins.map Origin.id).Nodup
  handedOut : (∀ r ∈ s.db.faces, r.id < s.nextId) ∧ (∀ x ∈ s.db.exchanges, x.id < s.nextId) ∧
    ∀ w ∈ s.db.origins, w.id < s.nextId
  counted : ∀ r ∈ s.db.faces, r.requestsIssued = (s.db.exchangesOf r.id).length
  placed : ∀ x ∈ s.db.exchanges, ∃ r ∈ s.db.faces, ∃ w ∈ s.db.origins,
    r.id = x.runId ∧ x.surfaceId = some w.id ∧ w.key.engagement = r.engagement

/-! ## Statements -/

section Statements

variable {f : Frame} {s : Session} {E : Raised → Session → Prop}

theorem wp_ask {α : Type} {g : Nat → α} {Q : α → Session → Prop} :
    wp (ask g) Q E s ↔ Q (g s.tick) { s with tick := s.tick + 1 } := Iff.rfl

theorem wp_newId {Q : Nat → Session → Prop} :
    wp newId Q E s ↔ Q s.nextId { s with nextId := s.nextId + 1 } := Iff.rfl

theorem wp_statement {Q : Unit → Session → Prop} (returns : ∀ tick, Q () { s with tick })
    (raises : ∀ tick, E .failed { s with tick }) : wp (statement f) Q E s := by
  rw [statement, wp_bind, wp_ask]
  cases f.fault s.tick with
  | true => exact raises _
  | false => exact returns _

theorem wp_write {change : Database → Database} {Q : Unit → Session → Prop}
    (returns : ∀ tick, Q () { s with db := change s.db, tick })
    (raises : ∀ tick, E .failed { s with tick }) : wp (write f change) Q E s := by
  rw [write, wp_bind]
  exact wp_statement (fun tick => returns tick) raises

theorem wp_orRaise {α : Type} {raised : Raised} {o : Option α} {Q : α → Session → Prop}
    (returns : ∀ a, o = some a → Q a s) (raises : E raised s) :
    wp (orRaise raised o) Q E s := by
  cases o with
  | none => exact raises
  | some a => exact returns a rfl

/-- A transaction that raises leaves the database it began with. -/
theorem wp_transaction {α : Type} {body : Act α} {Q : α → Session → Prop}
    (raises : ∀ raised nextId tick, s.nextId ≤ nextId → E raised { s with nextId, tick })
    (run : ∀ tick, wp body (fun a t => s.nextId ≤ t.nextId ∧ ∀ tick, Q a { t with tick })
      (fun _ t => s.nextId ≤ t.nextId) { s with tick }) :
    wp (transaction f body) Q E s := by
  have whole : wp (statement f >>= fun _ => body >>= fun a => statement f >>= fun _ => pure a)
      Q (fun raised t => E raised { t with db := s.db }) s := by
    rw [wp_bind]
    refine wp_statement (fun tick => ?_) fun tick => raises _ _ _ le_rfl
    rw [wp_bind]
    refine wp_mono (run tick) ?_ fun raised t later => raises _ _ _ later
    rintro a t ⟨later, returns⟩
    rw [wp_bind]
    exact wp_statement (fun tick => returns tick) fun tick => raises _ _ _ later
  rw [wp] at whole ⊢
  rw [transaction]
  split
  · rename_i a t result
    rw [result] at whole
    exact whole
  · rename_i raised t result
    rw [result] at whole
    exact whole

end Statements

/-! ## The run of a frame -/

section Runs

variable {c : Capture} {f : Frame} {s t u : Session}

/-- Neither rows nor counters moved. -/
structure Same (s t : Session) : Prop where
  exchanges : t.db.exchanges = s.db.exchanges
  surfaces : t.db.surfaces = s.db.surfaces
  faces : t.db.faces = s.db.faces
  later : s.nextId ≤ t.nextId

/-- At most a run was opened. -/
structure Prepared (c : Capture) (s t : Session) : Prop where
  exchanges : t.db.exchanges = s.db.exchanges
  surfaces : t.db.surfaces = s.db.surfaces
  faces : t.db.faces = s.db.faces ∨ ∃ id, s.nextId ≤ id ∧ id < t.nextId ∧
    t.db.faces = s.db.faces ++ [⟨id, c.engagementId, 0, 0⟩]
  later : s.nextId ≤ t.nextId

/-- A run of the capture's engagement. -/
def Owned (c : Capture) (t : Session) (run : Nat) : Prop :=
  ∃ r ∈ t.db.faces, r.id = run ∧ r.engagement = c.engagementId

theorem Same.refl (s : Session) (tick : Nat) : Same s { s with tick } := ⟨rfl, rfl, rfl, le_rfl⟩

theorem Same.prepared (same : Same s t) : Prepared c s t :=
  ⟨same.exchanges, same.surfaces, .inl same.faces, same.later⟩

theorem Prepared.same (prepared : Prepared c s t) (same : Same t u) : Prepared c s u where
  exchanges := same.exchanges.trans prepared.exchanges
  surfaces := same.surfaces.trans prepared.surfaces
  faces := by
    rw [same.faces]
    refine prepared.faces.imp id ?_
    rintro ⟨id, low, high, faces⟩
    exact ⟨id, low, high.trans_le same.later, faces⟩
  later := prepared.later.trans same.later

theorem Owned.same {run : Nat} (owned : Owned c t run) (same : Same t u) : Owned c u run := by
  rw [Owned, same.faces]
  exact owned

theorem faces_onRun {db : Database} {id : Nat} {change : RunRow → RunRow} :
    (db.onRun id change).faces =
      db.runs.map fun r => if r.run.id = id then (change r).face else r.face := by
  show (db.runs.map _).map _ = _
  rw [List.map_map]
  refine List.map_congr_left fun r _ => ?_
  rw [Function.comp_apply]
  split
  · rfl
  · rfl

theorem faces_beat {db : Database} {id : Nat} {at_ : Int} : (db.beat id at_).faces = db.faces := by
  rw [Database.beat, faces_onRun]
  refine List.map_congr_left fun r _ => ?_
  split
  · split
    · rfl
    · rfl
  · rfl

theorem faces_close {db : Database} {id : Nat} {at_ : Int} {status : RunStatus}
    {reason : Option String} : (db.close id at_ status reason).faces = db.faces := by
  rw [Database.close, faces_onRun]
  refine List.map_congr_left fun r _ => ?_
  split
  · split
    · rfl
    · rfl
  · rfl

theorem owned_of_liveRun {kind : RunKind} {r : Store.Run}
    (live : t.db.liveRun c.engagementId kind = some r) : Owned c t r.id := by
  obtain ⟨row, mem, rfl⟩ := List.mem_map.1 (mem_of_latest live)
  obtain ⟨mem, meets⟩ := List.mem_filter.1 mem
  exact ⟨row.face, List.mem_map_of_mem mem, rfl, (of_decide_eq_true meets).1⟩

theorem wp_openRun (kind : RunKind) (at_ : Int) (same : Same s t) :
    wp (openRun c f kind at_) (fun run u => Prepared c s u ∧ Owned c u run)
      (fun _ u => Prepared c s u) t := by
  rw [openRun, wp_bind, wp_newId, wp_bind]
  refine wp_write (fun tick => ?_) fun tick => ?_
  · rw [wp_pure]
    have faces : (t.db.runs ++ [opened c t.nextId kind at_]).map RunRow.face =
        s.db.faces ++ [⟨t.nextId, c.engagementId, 0, 0⟩] := by
      rw [List.map_append, ← same.faces]
      rfl
    constructor
    · exact ⟨same.exchanges, same.surfaces,
        .inr ⟨t.nextId, same.later, Nat.lt_succ_self _, faces⟩, Nat.le_succ_of_le same.later⟩
    · refine ⟨⟨t.nextId, c.engagementId, 0, 0⟩, ?_, rfl, rfl⟩
      show _ ∈ List.map RunRow.face _
      rw [faces]
      exact List.mem_append_right _ (List.mem_singleton_self _)
  · exact (same.prepared).same ⟨rfl, rfl, rfl, Nat.le_succ _⟩

/-- `current_run` opens at most one run, and answers with one of the engagement. -/
theorem wp_currentRun (kind : RunKind) (s : Session) :
    wp (currentRun c f kind) (fun run u => Prepared c s u ∧ Owned c u run)
      (fun _ u => Prepared c s u) s := by
  rw [currentRun, wp_bind, wp_ask, wp_bind]
  refine wp_statement (fun tick => ?_) fun tick => (Same.refl s tick).prepared
  rw [wp_bind, wp_gets]
  cases live : s.db.liveRun c.engagementId kind with
  | none => exact wp_openRun kind _ (Same.refl s tick)
  | some r =>
      show wp (if _ then _ else _) _ _ _
      split
      · exact ⟨(Same.refl s tick).prepared, owned_of_liveRun live⟩
      · rw [wp_bind]
        refine wp_write (fun tick => ?_) fun tick => (Same.refl s tick).prepared
        exact wp_openRun kind _ ⟨rfl, rfl, faces_close, le_rfl⟩

theorem wp_beating (kind : RunKind) (s : Session) :
    wp (beating c f kind) (fun run u => Prepared c s u ∧ Owned c u run.1)
      (fun _ u => Prepared c s u) s := by
  rw [beating, wp_bind]
  refine wp_mono (wp_currentRun kind s) ?_ fun _ _ h => h
  rintro run t ⟨prepared, owned⟩
  rw [wp_bind, wp_ask, wp_bind]
  refine wp_write (fun tick => ?_) fun tick => prepared.same ⟨rfl, rfl, rfl, le_rfl⟩
  have same : Same t { t with db := t.db.beat run (f.now t.tick), tick } :=
    ⟨rfl, rfl, faces_beat, le_rfl⟩
  exact ⟨prepared.same same, owned.same same⟩

theorem wp_put (body : List UInt8) (s : Session) :
    wp (put c f body) (fun _ u => Same s u) (fun _ u => Same s u) s := by
  rw [put]
  split
  · exact ⟨rfl, rfl, rfl, le_rfl⟩
  · rw [wp_bind]
    exact wp_statement (fun tick => Same.refl s tick) fun tick => Same.refl s tick

end Runs

/-! ## The rows of an exchange -/

/-- One more request of a run. -/
def Face.issue (run : Nat) (r : Face) : Face :=
  if r.id = run then { r with requestsIssued := r.requestsIssued + 1 } else r

/-- More drops of a run. -/
def Face.drop (run n : Nat) (r : Face) : Face :=
  if r.id = run then { r with droppedTotal := r.droppedTotal + n } else r

/-- The four writes of an exchange row, and the surface it names. -/
structure Recorded (c : Capture) (x : ExchangeRow) (w : SurfaceRow) (t u : Session) : Prop where
  exchanges : u.db.exchanges = t.db.exchanges ++ [x]
  fresh : t.nextId ≤ x.id ∧ x.id < u.nextId
  owned : Owned c t x.runId
  faces : u.db.faces = t.db.faces.map (Face.issue x.runId)
  filed : w ∈ u.db.surfaces
  named : x.surfaceId = some w.id
  touched : w.lastSeenRun = x.runId
  engagement : w.key.engagement = c.engagementId
  origins : u.db.origins = t.db.origins ∨ ∃ o : Origin, t.nextId ≤ o.id ∧ o.id < u.nextId ∧
    u.db.origins = t.db.origins ++ [o]
  later : t.nextId ≤ u.nextId

section Rows

variable {c : Capture} {f : Frame} {s t u : Session} {db : Database}

theorem faces_countRequest {run : Nat} :
    (db.countRequest run).faces = db.faces.map (Face.issue run) := by
  rw [Database.countRequest, faces_onRun, Database.faces, List.map_map]
  rfl

theorem faces_countDrop {run n : Nat} :
    (db.countDrop run n).faces = db.faces.map (Face.drop run n) := by
  rw [Database.countDrop, faces_onRun, Database.faces, List.map_map]
  rfl

theorem origins_upsert {row : SurfaceRow} :
    (db.upsert row).origins = db.origins ∨ (db.upsert row).origins = db.origins ++ [row.origin] := by
  rw [Database.origins, Database.upsert]
  split
  · refine .inl ?_
    show (db.surfaces.map _).map _ = _
    rw [List.map_map]
    refine List.map_congr_left fun w _ => ?_
    rw [Function.comp_apply]
    split
    · rfl
    · rfl
  · exact .inr List.map_append

/-- The surface an upsert leaves under its key has just been seen. -/
theorem touched_of_upsert {row w : SurfaceRow} (mem : w ∈ (db.upsert row).surfaces)
    (key : w.key = row.key) : w.lastSeenRun = row.lastSeenRun := by
  rw [Database.upsert] at mem
  split at mem
  · obtain ⟨w', -, rfl⟩ := List.mem_map.1 mem
    split at key
    · rename_i same
      rw [if_pos same]
    · rename_i other
      exact absurd key other
  · rename_i absent
    obtain old | new := List.mem_append.1 mem
    · refine absurd (List.any_eq_true.2 ⟨w, old, ?_⟩) absent
      exact decide_eq_true key
    · rw [List.mem_singleton.1 new]

theorem exists_of_surfaceAt {key : SurfaceKey} {id : Nat} (found : db.surfaceAt key = some id) :
    ∃ w ∈ db.surfaces, w.id = id ∧ w.key = key := by
  obtain ⟨w, first, rfl⟩ := Option.map_eq_some_iff.1 found
  have meets := List.find?_some first
  exact ⟨w, List.mem_of_find?_eq_some first, rfl, of_decide_eq_true meets⟩

theorem exchanges_setSurface {x : ExchangeRow} {surface : Nat} {old : List ExchangeRow}
    (fresh : ∀ y ∈ old, y.id ≠ x.id) (exchanges : db.exchanges = old ++ [x]) :
    (db.setSurface surface x.id).exchanges = old ++ [{ x with surfaceId := some surface }] := by
  show db.exchanges.map _ = _
  rw [exchanges, List.map_append, List.map_cons, List.map_nil, if_pos rfl]
  refine congrArg (· ++ _) ?_
  refine (List.map_congr_left fun y mem => ?_).trans (List.map_id _)
  rw [if_neg (fresh y mem)]
  rfl

theorem wp_recordExchange (e : Exchange) (run : Nat) (at_ : Int) (reqBlob respBlob : Option String)
    (respLen : Option Nat) (t : Session) :
    wp (recordExchange c f e run at_ reqBlob respBlob respLen)
      (fun id u => ∃ x : ExchangeRow, id = x.id ∧ x.id = t.nextId ∧ x.runId = run ∧
        u.db = t.db.addExchange x ∧ u.nextId = t.nextId + 1)
      (fun _ u => t.nextId ≤ u.nextId) t := by
  rw [recordExchange]
  split
  · exact le_rfl
  · rw [wp_bind]
    refine wp_orRaise (fun url _ => ?_) le_rfl
    rw [wp_bind, wp_newId, wp_bind]
    refine wp_write (fun tick => ?_) fun tick => Nat.le_succ _
    exact ⟨_, rfl, rfl, rfl, rfl, rfl⟩

theorem wp_upsertSurface (n : Normalised) (exchange run : Nat) (via : Via) (t : Session) :
    wp (upsertSurface c f n exchange run via)
      (fun id u => ∃ row w : SurfaceRow, row.id = t.nextId ∧ row.lastSeenRun = run ∧
        row.key = surfaceKey c n ∧ u.db = t.db.upsert row ∧ u.nextId = t.nextId + 1 ∧
        w ∈ u.db.surfaces ∧ w.id = id ∧ w.key = row.key)
      (fun _ u => t.nextId ≤ u.nextId) t := by
  rw [upsertSurface, wp_bind, wp_newId, wp_bind]
  refine wp_write (fun tick => ?_) fun tick => Nat.le_succ _
  rw [wp_bind]
  refine wp_statement (fun tick => ?_) fun tick => Nat.le_succ _
  rw [wp_bind, wp_gets]
  refine wp_orRaise (fun id found => ?_) (Nat.le_succ _)
  obtain ⟨w, mem, same, key⟩ := exists_of_surfaceAt found
  exact ⟨_, w, rfl, rfl, rfl, rfl, rfl, mem, same, key⟩

/-- The transaction's body writes all four or raises. -/
theorem wp_rowWrites (e : Exchange) {run : Nat} (at_ : Int) (reqBlob respBlob : Option String)
    (respLen : Option Nat) (owned : Owned c t run) (old : ∀ y ∈ t.db.exchanges, y.id < t.nextId) :
    wp (rowWrites c f e run at_ reqBlob respBlob respLen)
      (fun _ u => ∃ x w, Recorded c x w t u) (fun _ u => t.nextId ≤ u.nextId) t := by
  rw [rowWrites, wp_bind]
  refine wp_mono (wp_recordExchange e run at_ reqBlob respBlob respLen t) ?_ fun _ _ h => h
  rintro _ t₁ ⟨x, rfl, exchangeId, runId, db, next⟩
  rw [wp_bind]
  refine wp_write (fun tick => ?_) fun tick => by rw [next]; exact Nat.le_succ _
  rw [wp_bind]
  refine wp_mono (wp_upsertSurface e.normalised x.id run e.via _) ?_ ?_
  · rintro _ t₂ ⟨row, w, rowId, seen, rowKey, db₂, next₂, filed, rfl, key⟩
    have later : t₂.nextId = t.nextId + 2 := by
      rw [next₂]
      show t₁.nextId + 1 = _
      rw [next]
    rw [wp_bind]
    refine wp_write (fun tick => ?_) fun tick => by show t.nextId ≤ t₂.nextId; omega
    rw [wp_pure]
    have fresh : ∀ y ∈ t.db.exchanges, y.id ≠ x.id := by
      intro y mem same
      have bound := old y mem
      omega
    have exchanges : t₂.db.exchanges = t.db.exchanges ++ [x] := by
      rw [db₂, db]
      rfl
    have faces : t₂.db.faces = t.db.faces.map (Face.issue run) := by
      rw [db₂, db]
      exact faces_countRequest
    have origins : t₂.db.origins = t.db.origins ∨
        t₂.db.origins = t.db.origins ++ [row.origin] := by
      rw [db₂, db]
      exact origins_upsert
    have rowLater : row.id = t.nextId + 1 := rowId.trans next
    refine ⟨{ x with surfaceId := some w.id }, w, exchanges_setSurface fresh exchanges, ?_,
      runId ▸ owned, runId ▸ faces, filed, rfl, ?_, ?_, ?_, ?_⟩
    · show t.nextId ≤ x.id ∧ x.id < t₂.nextId
      omega
    · rw [db₂] at filed
      exact (touched_of_upsert filed key).trans (seen.trans runId.symm)
    · rw [key, rowKey]
      rfl
    · refine origins.imp id fun more => ⟨row.origin, ?_, ?_, more⟩
      · show t.nextId ≤ row.id
        omega
      · show row.id < t₂.nextId
        omega
    · show t.nextId ≤ t₂.nextId
      omega
  · intro _ t₂ later
    have start : t.nextId ≤ t₁.nextId := by
      rw [next]
      exact Nat.le_succ _
    exact start.trans later

end Rows

/-! ## A frame -/

/-- What a frame does to the books: at most a run is opened, and behind that nothing, a
number of drops, or the rows of one exchange. -/
inductive Outcome (c : Capture) (s u : Session) : Prop where
  | prepared (prepared : Prepared c s u)
  | dropped {run n : Nat} {t : Session} (prepared : Prepared c s t)
      (exchanges : u.db.exchanges = t.db.exchanges) (surfaces : u.db.surfaces = t.db.surfaces)
      (faces : u.db.faces = t.db.faces.map (Face.drop run n)) (later : t.nextId ≤ u.nextId)
  | recorded {x : ExchangeRow} {w : SurfaceRow} {t : Session} (prepared : Prepared c s t)
      (recorded : Recorded c x w t u)

section Frames

variable {c : Capture} {f : Frame} {s t u : Session}

theorem wp_handle_dropped (kind : RunKind) (n : Nat) :
    wp (handle c f (.dropped kind n))
      (fun _ u => ∃ run t, Prepared c s t ∧ Owned c t run ∧ t.nextId ≤ u.nextId ∧
        u.db.exchanges = t.db.exchanges ∧ u.db.surfaces = t.db.surfaces ∧
        u.db.faces = t.db.faces.map (Face.drop run n))
      (fun _ u => Prepared c s u) s := by
  rw [handle, wp_bind]
  refine wp_mono (wp_beating kind s) ?_ fun _ _ h => h
  rintro ⟨run, at_⟩ t ⟨prepared, owned⟩
  show wp (_ >>= _) _ _ _
  rw [wp_bind]
  refine wp_write (fun tick => ?_) fun tick => prepared.same (Same.refl t tick)
  exact ⟨run, t, prepared, owned, le_rfl, rfl, rfl, faces_countDrop⟩

theorem wp_handle_denial (kind : RunKind) (denial : DenialKind) (via : Via)
    (method url detail : PyValue) :
    wp (handle c f (.denial kind denial via method url detail)) (fun _ u => Prepared c s u)
      (fun _ u => Prepared c s u) s := by
  rw [handle, wp_bind]
  refine wp_mono (wp_beating kind s) ?_ fun _ _ h => h
  rintro ⟨run, at_⟩ t ⟨prepared, -⟩
  show wp (_ >>= _) _ _ _
  rw [wp_bind]
  refine wp_orRaise (fun url _ => ?_) prepared
  rw [wp_bind, wp_newId, wp_bind]
  refine wp_write (fun tick => ?_) fun tick => prepared.same ⟨rfl, rfl, rfl, Nat.le_succ _⟩
  exact prepared.same ⟨rfl, rfl, rfl, Nat.le_succ _⟩

theorem wp_handle_exchange (e : Exchange) (old : ∀ y ∈ s.db.exchanges, y.id < s.nextId) :
    wp (handle c f (.exchange e)) (fun _ u => ∃ x w t, Prepared c s t ∧ Recorded c x w t u)
      (fun _ u => Prepared c s u) s := by
  rw [handle, wp_bind]
  refine wp_mono (wp_beating e.kind s) ?_ fun _ _ h => h
  rintro ⟨run, at_⟩ t₀ ⟨prepared, owned⟩
  show wp (_ >>= _) _ _ _
  rw [wp_bind]
  refine wp_mono (wp_put f.request t₀) ?_ fun _ _ same => prepared.same same
  rintro reqBlob t₁ same
  replace prepared := prepared.same same
  replace owned := owned.same same
  rw [wp_bind]
  refine wp_mono (wp_put f.response t₁) ?_ fun _ _ same => prepared.same same
  rintro respBlob t same
  replace prepared := prepared.same same
  replace owned := owned.same same
  have old : ∀ y ∈ t.db.exchanges, y.id < t.nextId := by
    intro y mem
    rw [prepared.exchanges] at mem
    exact (old y mem).trans_le prepared.later
  rw [wp_bind]
  refine wp_transaction (fun _ nextId tick later => ?_) fun tick => ?_
  · exact prepared.same ⟨rfl, rfl, rfl, later⟩
  · refine wp_mono (wp_rowWrites e at_ reqBlob respBlob _ (owned.same (Same.refl t tick)) old)
      ?_ fun _ _ later => later
    rintro exchange u ⟨x, w, recorded⟩
    exact ⟨recorded.later, fun tick => ⟨x, w, t, prepared, { recorded with }⟩⟩

theorem wp_handle (reading : Reading) (old : ∀ y ∈ s.db.exchanges, y.id < s.nextId) :
    wp (handle c f reading) (fun _ u => Outcome c s u) (fun _ u => Prepared c s u) s := by
  cases reading with
  | nothing => exact .prepared (Same.refl s s.tick).prepared
  | dropped kind n =>
      refine wp_mono (wp_handle_dropped kind n) ?_ fun _ _ h => h
      rintro _ u ⟨run, t, prepared, -, later, exchanges, surfaces, faces⟩
      exact .dropped prepared exchanges surfaces faces later
  | denial kind denial via method url detail =>
      exact wp_mono (wp_handle_denial kind denial via method url detail)
        (fun _ _ prepared => .prepared prepared) fun _ _ h => h
  | exchange e =>
      refine wp_mono (wp_handle_exchange e old) ?_ fun _ _ h => h
      rintro _ u ⟨x, w, t, prepared, recorded⟩
      exact .recorded prepared recorded

theorem wp_onExchange (old : ∀ y ∈ s.db.exchanges, y.id < s.nextId) :
    wp (onExchange c f) (fun _ u => Outcome c s u) (fun _ u => Prepared c s u) s := by
  rw [onExchange]
  split
  · exact (Same.refl s s.tick).prepared
  · exact wp_handle _ old

end Frames

/-! ## Consistency is kept -/

section Kept

variable {c : Capture} {s t u : Session}

theorem id_issue (run : Nat) (r : Face) : (r.issue run).id = r.id := by
  rw [Face.issue]
  split
  · rfl
  · rfl

theorem engagement_issue (run : Nat) (r : Face) : (r.issue run).engagement = r.engagement := by
  rw [Face.issue]
  split
  · rfl
  · rfl

theorem drop_facts (run n : Nat) (r : Face) : (r.drop run n).id = r.id ∧
    (r.drop run n).engagement = r.engagement ∧
      (r.drop run n).requestsIssued = r.requestsIssued := by
  rw [Face.drop]
  split
  · exact ⟨rfl, rfl, rfl⟩
  · exact ⟨rfl, rfl, rfl⟩

theorem nodup_more {ids : List Nat} {bound id : Nat} (nodup : ids.Nodup)
    (below : ∀ i ∈ ids, i < bound) (fresh : bound ≤ id) : (ids ++ [id]).Nodup := by
  refine List.nodup_append.2 ⟨nodup, List.nodup_singleton _, ?_⟩
  intro i mem j single same
  rw [List.mem_singleton.1 single] at same
  exact absurd (same ▸ below i mem) (Nat.not_lt.2 fresh)

theorem Consistent.runId_lt (books : Consistent s) {x : ExchangeRow} (mem : x ∈ s.db.exchanges) :
    x.runId < s.nextId := by
  obtain ⟨r, there, -, -, same, -⟩ := books.placed x mem
  rw [← same]
  exact books.handedOut.1 r there

theorem Prepared.mem_faces (prepared : Prepared c s t) {r : Face} (mem : r ∈ t.db.faces) :
    r ∈ s.db.faces ∨ s.nextId ≤ r.id ∧ r.id < t.nextId ∧ r.requestsIssued = 0 := by
  cases prepared.faces with
  | inl same => exact .inl (same ▸ mem)
  | inr more =>
      obtain ⟨id, low, high, faces⟩ := more
      rw [faces] at mem
      refine (List.mem_append.1 mem).imp_right fun new => ?_
      rw [List.mem_singleton.1 new]
      exact ⟨low, high, rfl⟩

theorem Prepared.of_mem_faces (prepared : Prepared c s t) {r : Face} (mem : r ∈ s.db.faces) :
    r ∈ t.db.faces := by
  cases prepared.faces with
  | inl same => exact same ▸ mem
  | inr more =>
      obtain ⟨id, -, -, faces⟩ := more
      rw [faces]
      exact List.mem_append_left _ mem

theorem origins_same (surfaces : u.db.surfaces = s.db.surfaces) : u.db.origins = s.db.origins :=
  congrArg (List.map SurfaceRow.origin) surfaces

theorem Consistent.prepared (books : Consistent s) (prepared : Prepared c s t) :
    Consistent t := by
  have origins := origins_same prepared.surfaces
  have later := prepared.later
  constructor
  · cases prepared.faces with
    | inl same => rw [same]; exact books.runIds
    | inr more =>
        obtain ⟨id, low, -, faces⟩ := more
        rw [faces, List.map_append]
        exact nodup_more books.runIds (List.forall_mem_map.2 books.handedOut.1) low
  · rw [prepared.exchanges]
    exact books.exchangeIds
  · rw [origins]
    exact books.surfaceIds
  · refine ⟨fun r mem => ?_, fun x mem => ?_, fun w mem => ?_⟩
    · obtain old | ⟨-, high, -⟩ := prepared.mem_faces mem
      · exact (books.handedOut.1 r old).trans_le later
      · exact high
    · exact (books.handedOut.2.1 x (prepared.exchanges ▸ mem)).trans_le later
    · exact (books.handedOut.2.2 w (origins ▸ mem)).trans_le later
  · intro r mem
    rw [Database.exchangesOf, prepared.exchanges]
    obtain old | ⟨low, -, zero⟩ := prepared.mem_faces mem
    · exact books.counted r old
    · rw [zero, List.filter_eq_nil_iff.2]
      · rfl
      · intro x there same
        have bound := books.runId_lt there
        rw [of_decide_eq_true same] at bound
        exact absurd bound (Nat.not_lt.2 low)
  · intro x mem
    obtain ⟨r, run, w, surface, facts⟩ := books.placed x (prepared.exchanges ▸ mem)
    exact ⟨r, prepared.of_mem_faces run, w, origins ▸ surface, facts⟩

theorem Consistent.dropped {run n : Nat} (books : Consistent t)
    (exchanges : u.db.exchanges = t.db.exchanges) (surfaces : u.db.surfaces = t.db.surfaces)
    (faces : u.db.faces = t.db.faces.map (Face.drop run n)) (later : t.nextId ≤ u.nextId) :
    Consistent u := by
  have origins := origins_same surfaces
  constructor
  · rw [faces, List.map_map]
    exact (List.map_congr_left fun r _ => (drop_facts run n r).1) ▸ books.runIds
  · rw [exchanges]
    exact books.exchangeIds
  · rw [origins]
    exact books.surfaceIds
  · refine ⟨fun r mem => ?_, fun x mem => ?_, fun w mem => ?_⟩
    · rw [faces] at mem
      obtain ⟨r, there, rfl⟩ := List.mem_map.1 mem
      rw [(drop_facts run n r).1]
      exact (books.handedOut.1 r there).trans_le later
    · exact (books.handedOut.2.1 x (exchanges ▸ mem)).trans_le later
    · exact (books.handedOut.2.2 w (origins ▸ mem)).trans_le later
  · intro r mem
    rw [faces] at mem
    obtain ⟨r, there, rfl⟩ := List.mem_map.1 mem
    rw [Database.exchangesOf, exchanges, (drop_facts run n r).1, (drop_facts run n r).2.2]
    exact books.counted r there
  · intro x mem
    obtain ⟨r, there, w, surface, same, facts⟩ := books.placed x (exchanges ▸ mem)
    refine ⟨r.drop run n, faces ▸ List.mem_map_of_mem there, w, origins ▸ surface, ?_⟩
    rw [(drop_facts run n r).1, (drop_facts run n r).2.1]
    exact ⟨same, facts⟩

theorem Recorded.of_mem_origins {x : ExchangeRow} {w : SurfaceRow} (recorded : Recorded c x w t u)
    {o : Origin} (mem : o ∈ t.db.origins) : o ∈ u.db.origins := by
  cases recorded.origins with
  | inl same => exact same ▸ mem
  | inr more =>
      obtain ⟨_, -, -, origins⟩ := more
      rw [origins]
      exact List.mem_append_left _ mem

theorem Consistent.recorded {x : ExchangeRow} {w : SurfaceRow} (books : Consistent t)
    (recorded : Recorded c x w t u) : Consistent u := by
  have later := recorded.later
  constructor
  · rw [recorded.faces, List.map_map]
    exact (List.map_congr_left fun r _ => id_issue x.runId r) ▸ books.runIds
  · rw [recorded.exchanges, List.map_append]
    exact nodup_more books.exchangeIds (List.forall_mem_map.2 books.handedOut.2.1)
      recorded.fresh.1
  · cases recorded.origins with
    | inl same => rw [same]; exact books.surfaceIds
    | inr more =>
        obtain ⟨o, low, -, origins⟩ := more
        rw [origins, List.map_append]
        exact nodup_more books.surfaceIds (List.forall_mem_map.2 books.handedOut.2.2) low
  · refine ⟨fun r mem => ?_, fun y mem => ?_, fun o mem => ?_⟩
    · rw [recorded.faces] at mem
      obtain ⟨r, there, rfl⟩ := List.mem_map.1 mem
      rw [id_issue]
      exact (books.handedOut.1 r there).trans_le later
    · rw [recorded.exchanges] at mem
      obtain old | new := List.mem_append.1 mem
      · exact (books.handedOut.2.1 y old).trans_le later
      · rw [List.mem_singleton.1 new]
        exact recorded.fresh.2
    · cases recorded.origins with
      | inl same => exact (books.handedOut.2.2 o (same ▸ mem)).trans_le later
      | inr more =>
          obtain ⟨o', -, high, origins⟩ := more
          rw [origins] at mem
          obtain old | new := List.mem_append.1 mem
          · exact (books.handedOut.2.2 o old).trans_le later
          · rw [List.mem_singleton.1 new]
            exact high
  · intro r mem
    rw [recorded.faces] at mem
    obtain ⟨r, there, rfl⟩ := List.mem_map.1 mem
    have counted := books.counted r there
    rw [Database.exchangesOf] at counted
    rw [Database.exchangesOf, recorded.exchanges, List.filter_append, List.length_append, id_issue,
      ← counted, Face.issue]
    by_cases own : r.id = x.runId
    · simp [own]
    · simp [own, Ne.symm own]
  · intro y mem
    rw [recorded.exchanges] at mem
    obtain old | new := List.mem_append.1 mem
    · obtain ⟨r, there, o, surface, same, facts⟩ := books.placed y old
      refine ⟨r.issue x.runId, recorded.faces ▸ List.mem_map_of_mem there, o,
        recorded.of_mem_origins surface, ?_⟩
      rw [id_issue, engagement_issue]
      exact ⟨same, facts⟩
    · rw [List.mem_singleton.1 new]
      obtain ⟨r, there, same, engagement⟩ := recorded.owned
      refine ⟨r.issue x.runId, recorded.faces ▸ List.mem_map_of_mem there, w.origin,
        List.mem_map_of_mem recorded.filed, ?_⟩
      rw [id_issue, engagement_issue]
      exact ⟨same, recorded.named, recorded.engagement.trans engagement.symm⟩

theorem Consistent.outcome (books : Consistent s) (outcome : Outcome c s u) : Consistent u := by
  cases outcome with
  | prepared prepared => exact books.prepared prepared
  | dropped prepared exchanges surfaces faces later =>
      exact (books.prepared prepared).dropped exchanges surfaces faces later
  | recorded prepared recorded => exact (books.prepared prepared).recorded recorded

end Kept

/-! ## What a frame leaves -/

/-- No row of an exchange, and no request counted. -/
structure Untouched (s u : Session) : Prop where
  exchanges : u.db.exchanges = s.db.exchanges
  surfaces : u.db.surfaces = s.db.surfaces
  issued : ∀ run, (u.db.counters run).1 = (s.db.counters run).1

/-- The four writes of an exchange: its row, one request of its run, the surface last seen by
that run, and the exchange's reference to it. -/
structure Written (c : Capture) (s u : Session) (x : ExchangeRow) (w : SurfaceRow) : Prop where
  exchanges : u.db.exchanges = s.db.exchanges ++ [x]
  issued : ∀ run, (u.db.counters run).1 =
    (s.db.counters run).1 + if run = x.runId then 1 else 0
  filed : w ∈ u.db.surfaces
  touched : w.lastSeenRun = x.runId
  engagement : w.key.engagement = c.engagementId
  named : x.surfaceId = some w.id

/-- What handling a frame comes to. -/
structure Handled (c : Capture) (f : Frame) (s : Session) : Prop where
  /-- All of an exchange is there or none of it. -/
  unit : Untouched s (next c s f) ∨ ∃ x w, Written c s (next c s f) x w
  /-- What a first sighting wrote stays. -/
  origins : s.db.origins <+: (next c s f).db.origins
  /-- A header that cannot be read raises before anything is written. -/
  unread : ∀ raised, read c f.header = .error raised →
    (onExchange c f { s with tick := 0 }).1 = .error raised ∧ (next c s f).db = s.db
  /-- Whatever a frame raises, no counter has moved. -/
  raised : ∀ raised, (onExchange c f { s with tick := 0 }).1 = .error raised →
    ∀ run, (next c s f).db.counters run = s.db.counters run

section Frames

variable {c : Capture} {s t u : Session}

theorem counters_of_map {db db' : Database} {change : Face → Face} (run : Nat)
    (faces : db'.faces = db.faces.map change) (ids : ∀ r, (change r).id = r.id) :
    db'.counters run = (((db.faces.find? fun r => r.id = run).map change).map fun r =>
      (r.requestsIssued, r.droppedTotal)).getD (0, 0) := by
  rw [Database.counters, faces, List.find?_map]
  have same : (fun r : Face => decide (r.id = run)) ∘ change = fun r => decide (r.id = run) := by
    funext r
    rw [Function.comp_apply, ids]
  rw [same]

theorem Prepared.counters (prepared : Prepared c s t) (run : Nat) :
    t.db.counters run = s.db.counters run := by
  rw [Database.counters, Database.counters]
  cases prepared.faces with
  | inl same => rw [same]
  | inr more =>
      obtain ⟨id, -, -, faces⟩ := more
      rw [faces, List.find?_append]
      cases s.db.faces.find? fun r => r.id = run with
      | some r => rfl
      | none =>
          by_cases own : id = run
          · simp [own]
          · simp [own]

theorem issued_drop {db db' : Database} {id n : Nat}
    (faces : db'.faces = db.faces.map (Face.drop id n)) (run : Nat) :
    (db'.counters run).1 = (db.counters run).1 := by
  rw [counters_of_map run faces fun r => (drop_facts id n r).1, Database.counters]
  cases db.faces.find? fun r => r.id = run with
  | none => rfl
  | some r => exact (drop_facts id n r).2.2

theorem Recorded.issued {x : ExchangeRow} {w : SurfaceRow} (recorded : Recorded c x w t u)
    (run : Nat) : (u.db.counters run).1 =
      (t.db.counters run).1 + if run = x.runId then 1 else 0 := by
  rw [counters_of_map run recorded.faces (id_issue x.runId), Database.counters]
  cases found : t.db.faces.find? fun r => r.id = run with
  | none =>
      obtain ⟨r, mem, own, -⟩ := recorded.owned
      have other : run ≠ x.runId := by
        rintro rfl
        exact absurd (decide_eq_true own) (by simpa using List.find?_eq_none.1 found r mem)
      rw [if_neg other]
      rfl
  | some r =>
      have meets := List.find?_some found
      have own : r.id = run := of_decide_eq_true meets
      show (r.issue x.runId).requestsIssued = r.requestsIssued + _
      rw [Face.issue, own]
      split
      · rfl
      · rfl

theorem Outcome.unit (outcome : Outcome c s u) : Untouched s u ∨ ∃ x w, Written c s u x w := by
  cases outcome with
  | prepared prepared =>
      exact .inl ⟨prepared.exchanges, prepared.surfaces, fun run => by rw [prepared.counters]⟩
  | dropped prepared exchanges surfaces faces later =>
      refine .inl ⟨exchanges.trans prepared.exchanges, surfaces.trans prepared.surfaces, ?_⟩
      intro run
      rw [issued_drop faces, prepared.counters]
  | recorded prepared recorded =>
      refine .inr ⟨_, _, ?_, ?_, recorded.filed, recorded.touched, recorded.engagement,
        recorded.named⟩
      · rw [recorded.exchanges, prepared.exchanges]
      · intro run
        rw [recorded.issued, prepared.counters]

theorem Outcome.origins (outcome : Outcome c s u) : s.db.origins <+: u.db.origins := by
  cases outcome with
  | prepared prepared =>
      rw [origins_same prepared.surfaces]
  | dropped prepared exchanges surfaces faces later =>
      rw [origins_same (surfaces.trans prepared.surfaces)]
  | recorded prepared recorded =>
      rw [← origins_same prepared.surfaces]
      cases recorded.origins with
      | inl same => exact same ▸ List.prefix_rfl
      | inr more =>
          obtain ⟨o, -, -, origins⟩ := more
          exact origins ▸ List.prefix_append _ _

/-- The ticks of the frame before do not matter. -/
theorem Outcome.restarted (outcome : Outcome c { s with tick := 0 } u) : Outcome c s u := by
  cases outcome with
  | prepared prepared => exact .prepared { prepared with }
  | dropped prepared exchanges surfaces faces later =>
      exact .dropped { prepared with } exchanges surfaces faces later
  | recorded prepared recorded => exact .recorded { prepared with } recorded

theorem wp_next (books : Consistent s) (f : Frame) :
    wp (onExchange c f) (fun _ u => Outcome c s u) (fun _ u => Prepared c s u)
      { s with tick := 0 } :=
  wp_mono (wp_onExchange books.handedOut.2.1) (fun _ _ outcome => outcome.restarted)
    fun _ _ prepared => { prepared with }

theorem outcome_next (books : Consistent s) (f : Frame) : Outcome c s (next c s f) := by
  have frame := wp_next (c := c) books f
  rw [wp] at frame
  rw [next]
  cases result : (onExchange c f { s with tick := 0 }).1 with
  | ok a =>
      rw [result] at frame
      exact frame
  | error raised =>
      rw [result] at frame
      exact .prepared frame

theorem handled (books : Consistent s) (f : Frame) : Handled c f s where
  unit := (outcome_next books f).unit
  origins := (outcome_next books f).origins
  unread := by
    intro raised unread
    rw [next, onExchange, unread]
    exact ⟨rfl, rfl⟩
  raised := by
    intro raised result
    have frame := wp_next (c := c) books f
    rw [wp, result] at frame
    exact Prepared.counters frame

theorem Consistent.next (books : Consistent s) (f : Frame) : Consistent (next c s f) :=
  books.outcome (outcome_next books f)

end Frames

/-! ## Every run -/

section Every

variable {c : Capture} {s : Session}

theorem Consistent.after (books : Consistent s) (frames : List Frame) :
    Consistent (after c frames s) := by
  induction frames generalizing s with
  | nil => exact books
  | cons f frames ih => exact ih (books.next f)

theorem Consistent.origins_after (books : Consistent s) (frames : List Frame) :
    s.db.origins <+: (Frames.after c frames s).db.origins := by
  induction frames generalizing s with
  | nil => exact List.prefix_rfl
  | cons f frames ih => exact (outcome_next books f).origins.trans (ih (books.next f))

/-- After any sequence of frames, with any statements failing, the books are consistent; the
next frame is handled as a whole; and every surface keeps what its first sighting wrote. -/
theorem books_kept (c : Capture) (s : Session) (books : Consistent s) (past rest : List Frame) :
    Consistent (after c past s) ∧ (∀ f, Handled c f (after c past s)) ∧
      (after c past s).db.origins <+: (after c (past ++ rest) s).db.origins := by
  have there : Consistent (after c past s) := books.after past
  refine ⟨there, fun f => handled there f, ?_⟩
  rw [after, after, List.foldl_append]
  exact there.origins_after rest

end Every

/-! ## Frames at work -/

/-- Integers as they are, every URL the root of one host. -/
def oneHost : Capture where
  engagementId := "e"
  int
    | .int n => some n
    | _ => none
  normalise _ _ := some ⟨"GET", "https", "h", 443, "/", "", .idempotentRead, 1⟩
  redactUrl := some
  digest _ := ""

def emptySession : Session := ⟨⟨[], [], [], []⟩, 0, 0⟩

/-- A frame with no bodies, on a day where nothing fails. -/
def plainFrame (header : Header) : Frame := ⟨header, [], [], fun _ => false, fun _ => 0⟩

theorem consistent_empty : Consistent emptySession where
  runIds := List.nodup_nil
  exchangeIds := List.nodup_nil
  surfaceIds := List.nodup_nil
  handedOut := ⟨List.forall_mem_nil _, List.forall_mem_nil _, List.forall_mem_nil _⟩
  counted := List.forall_mem_nil _
  placed := List.forall_mem_nil _

theorem books_kept_once :
    (after oneHost [plainFrame [("url", str "h"), ("status", .int 200)]]
      emptySession).db.exchanges.length = 1 ∧
    Consistent (after oneHost [plainFrame [("url", str "h"), ("status", .int 200)]] emptySession) ∧
    (∀ f, Handled oneHost f
      (after oneHost [plainFrame [("url", str "h"), ("status", .int 200)]] emptySession)) ∧
    (after oneHost [plainFrame [("url", str "h"), ("status", .int 200)]] emptySession).db.origins <+:
      (after oneHost ([plainFrame [("url", str "h"), ("status", .int 200)]] ++ [])
        emptySession).db.origins :=
  ⟨by decide, books_kept oneHost emptySession consistent_empty _ _⟩

/-- A frame whose header reads well and whose outcome has no status is refused behind `_run`:
it is a `ValueError`, and the run it opened stays. -/
theorem refused_frame_opens_run : ¬ ∀ (c : Capture) (s : Session) (f : Frame) (raised : Raised),
    Consistent s → raised ≠ .failed → (onExchange c f { s with tick := 0 }).1 = .error raised →
      (next c s f).db.faces = s.db.faces := by
  intro h
  have kept := h oneHost emptySession (plainFrame [("url", str "h")]) .incoherent
    consistent_empty (by decide) (by decide)
  exact absurd kept (by decide)

/-! ## The floor of a run's coverage -/

/-- The sink's `Capture`, and `codec.split_bodies`, `none` where it raises. -/
structure Link where
  capture : Capture
  split : Header → List UInt8 → Option (List UInt8 × List UInt8)

/-- What happens in one call of the sink: whether it gets its database open, which statements
fail, and the clock. -/
structure Weather where
  opens : Bool
  fault : Nat → Bool
  now : Nat → Int

/-- A frame of one of the three types, as it comes off the channel. -/
structure Arrival where
  header : Header
  body : List UInt8
  type : FrameType
  typed : frameType (header.get "t" .none) = some type
  first : Weather
  again : Weather

/-- The store, and how often the sink has raised. -/
structure Channel where
  session : Session
  exchangeErrors : Nat

namespace Channel

variable (l : Link) (a : Arrival)

/-- A call of the sink: whether it returned, and what it left. -/
def sink (h : Header) (request response : List UInt8) (w : Weather) (r : Channel) :
    Bool × Channel :=
  let f : Frame := ⟨h, request, response, w.fault, w.now⟩
  let returned := w.opens && (onExchange l.capture f { r.session with tick := 0 }).1.isOk
  (returned,
    { session := if w.opens then next l.capture r.session f else r.session
      exchangeErrors := if returned then r.exchangeErrors else r.exchangeErrors + 1 })

/-- The `dropped` frame of `_count_as_dropped`. -/
def dropReport (h : Header) : Header :=
  [("v", .int 1), ("t", str "dropped"), ("n", .int 1)] ++
    match h.get "source" .none with
    | .str source => [("source", .str source)]
    | _ => []

/-- `_count_as_dropped`. -/
def countAsDropped (r : Channel) : Bool × Channel :=
  match a.type with
  | .dropped => (false, r)
  | _ => sink l (dropReport a.header) [] [] a.again r

/-- The two bodies of an exchange; the other types have none. -/
def bodies : Option (List UInt8 × List UInt8) :=
  match a.type with
  | .exchange => l.split a.header a.body
  | _ => some ([], [])

/-- What becomes of a frame: the sink returned, or it did for the report of its loss, or the frame
is not in the store. -/
inductive Fate where
  | kept
  | floored
  | lost
  deriving DecidableEq

/-- `_capture`. -/
def capture (r : Channel) : Fate × Channel :=
  let answer := match bodies l a with
    | some (request, response) => sink l a.header request response a.first r
    | none => (false, { r with exchangeErrors := r.exchangeErrors + 1 })
  let report := countAsDropped l a answer.2
  if answer.1 then (.kept, answer.2) else (if report.1 then .floored else .lost, report.2)

/-- The store and the errors behind a sequence of frames. -/
def after : List Arrival → Channel → Channel
  | [], r => r
  | a :: rest, r => after rest (capture l a r).2

/-- What the frames of a sequence come to, each counted by what becomes of it. -/
def tally (count : Arrival → Fate → Nat) : List Arrival → Channel → Nat
  | [], _ => 0
  | a :: rest, r => count a (capture l a r).1 + tally count rest (capture l a r).2

end Channel

/-! ### What a frame counts -/

/-- The drops of all runs. -/
def dropsOf (faces : List Face) : Nat := faces.foldr (fun r n => r.droppedTotal + n) 0

def Database.dropped (db : Database) : Nat := dropsOf db.faces

section Drops

variable {faces : List Face} {run n : Nat}

theorem dropsOf_cons (r : Face) : dropsOf (r :: faces) = r.droppedTotal + dropsOf faces := rfl

theorem dropsOf_drop_other (other : ∀ r ∈ faces, r.id ≠ run) :
    dropsOf (faces.map (Face.drop run n)) = dropsOf faces := by
  induction faces with
  | nil => rfl
  | cons r faces ih =>
      rw [List.map_cons, dropsOf_cons, dropsOf_cons, ih fun r mem => other r (.tail _ mem),
        Face.drop, if_neg (other r (.head _))]

/-- One run has the drops. -/
theorem dropsOf_drop (nodup : (faces.map Face.id).Nodup) (own : ∃ r ∈ faces, r.id = run) :
    dropsOf (faces.map (Face.drop run n)) = dropsOf faces + n := by
  induction faces with
  | nil =>
      obtain ⟨r, mem, -⟩ := own
      cases mem
  | cons r faces ih =>
      rw [List.map_cons] at nodup
      obtain ⟨fresh, nodup⟩ := List.nodup_cons.1 nodup
      rw [List.map_cons, dropsOf_cons, dropsOf_cons, Face.drop]
      by_cases here : r.id = run
      · have other : ∀ q ∈ faces, q.id ≠ run := by
          rintro q mem rfl
          exact fresh (here ▸ List.mem_map_of_mem mem)
        rw [if_pos here, dropsOf_drop_other other]
        exact Nat.add_right_comm _ _ _
      · have later : ∃ q ∈ faces, q.id = run := by
          obtain ⟨q, mem, own⟩ := own
          cases mem with
          | head => exact absurd own here
          | tail _ mem => exact ⟨q, mem, own⟩
        rw [if_neg here, ih nodup later, Nat.add_assoc]

theorem dropsOf_issue : dropsOf (faces.map (Face.issue run)) = dropsOf faces := by
  induction faces with
  | nil => rfl
  | cons r faces ih =>
      rw [List.map_cons, dropsOf_cons, dropsOf_cons, ih, Face.issue]
      split
      · rfl
      · rfl

theorem dropsOf_opened (id : Nat) (engagement : String) :
    dropsOf (faces ++ [⟨id, engagement, 0, 0⟩]) = dropsOf faces := by
  induction faces with
  | nil => rfl
  | cons r faces ih => rw [List.cons_append, dropsOf_cons, dropsOf_cons, ih]

end Drops

/-- So many exchanges were written, and so many drops counted. -/
structure Counts (s u : Session) (rows drops : Nat) : Prop where
  rows : u.db.exchanges.length = s.db.exchanges.length + rows
  drops : u.db.dropped = s.db.dropped + drops

/-- The exchanges a reading is of. -/
def Reading.rows : Reading → Nat
  | .exchange _ => 1
  | _ => 0

/-- The drops it reports. -/
def Reading.drops : Reading → Nat
  | .dropped _ n => n
  | _ => 0

section Counts

variable {c : Capture} {f : Frame} {s t u : Session}

theorem Prepared.counts (prepared : Prepared c s u) : Counts s u 0 0 where
  rows := congrArg List.length prepared.exchanges
  drops := by
    rw [Database.dropped, Database.dropped]
    cases prepared.faces with
    | inl same => rw [same]; rfl
    | inr more =>
        obtain ⟨id, -, -, faces⟩ := more
        rw [faces]
        exact dropsOf_opened id c.engagementId

theorem Counts.trans {rows drops rows' drops' : Nat} (first : Counts s t rows drops)
    (then_ : Counts t u rows' drops') : Counts s u (rows + rows') (drops + drops') where
  rows := by rw [then_.rows, first.rows, Nat.add_assoc]
  drops := by rw [then_.drops, first.drops, Nat.add_assoc]

theorem Recorded.counts {x : ExchangeRow} {w : SurfaceRow} (recorded : Recorded c x w t u) :
    Counts t u 1 0 where
  rows := by rw [recorded.exchanges, List.length_append, List.length_singleton]
  drops := by
    rw [Database.dropped, Database.dropped, recorded.faces]
    exact dropsOf_issue

/-- What returns has counted what was read; what raises has counted nothing. -/
theorem wp_handle_counts (books : Consistent s) (reading : Reading) :
    wp (handle c f reading) (fun _ u => Counts s u reading.rows reading.drops)
      (fun _ u => Counts s u 0 0) s := by
  cases reading with
  | nothing => exact (Same.refl s s.tick).prepared.counts (c := c)
  | dropped kind n =>
      refine wp_mono (wp_handle_dropped kind n) ?_ fun _ _ prepared => prepared.counts
      rintro _ u ⟨run, t, prepared, ⟨r, mem, own, -⟩, -, exchanges, -, faces⟩
      have dropped : Counts t u 0 n := by
        refine ⟨congrArg List.length exchanges, ?_⟩
        rw [Database.dropped, Database.dropped, faces]
        exact dropsOf_drop (books.prepared prepared).runIds ⟨r, mem, own⟩
      simpa [Reading.rows, Reading.drops] using prepared.counts.trans dropped
  | denial kind denial via method url detail =>
      exact wp_mono (wp_handle_denial kind denial via method url detail)
        (fun _ _ prepared => prepared.counts) fun _ _ prepared => prepared.counts
  | exchange e =>
      refine wp_mono (wp_handle_exchange e books.handedOut.2.1) ?_ fun _ _ prepared =>
        prepared.counts
      rintro _ u ⟨x, w, t, prepared, recorded⟩
      simpa [Reading.rows, Reading.drops] using prepared.counts.trans recorded.counts

end Counts

section Next

variable {c : Capture} {f : Frame} {s : Session}

theorem wp_onExchange_counts (books : Consistent s) (f : Frame) :
    wp (onExchange c f)
      (fun _ u => ∃ reading, read c f.header = .ok reading ∧
        Counts s u reading.rows reading.drops)
      (fun _ u => Counts s u 0 0) { s with tick := 0 } := by
  rw [onExchange]
  cases is : read c f.header with
  | error raised => exact ⟨rfl, rfl⟩
  | ok reading =>
      have still : Consistent { s with tick := 0 } := { books with }
      refine wp_mono (wp_handle_counts still reading) ?_ fun _ _ counts => ⟨counts.1, counts.2⟩
      exact fun _ u counts => ⟨reading, rfl, counts.1, counts.2⟩

/-- A frame that is handled has counted what its header reads as. -/
theorem counts_returned (books : Consistent s)
    (returned : (onExchange c f { s with tick := 0 }).1.isOk = true) :
    ∃ reading, read c f.header = .ok reading ∧
      Counts s (next c s f) reading.rows reading.drops := by
  have whole := wp_onExchange_counts (c := c) books f
  rw [wp] at whole
  cases is : (onExchange c f { s with tick := 0 }).1 with
  | ok a =>
      rw [is] at whole
      exact whole
  | error raised =>
      rw [is] at returned
      cases returned

/-- A frame that raises has counted nothing. -/
theorem counts_raised (books : Consistent s)
    (raised : (onExchange c f { s with tick := 0 }).1.isOk = false) :
    Counts s (next c s f) 0 0 := by
  have whole := wp_onExchange_counts (c := c) books f
  rw [wp] at whole
  cases is : (onExchange c f { s with tick := 0 }).1 with
  | ok a =>
      rw [is] at raised
      cases raised
  | error raised =>
      rw [is] at whole
      exact whole

end Next

/-! ### What becomes of the frames -/

namespace Channel

/-- What a call of the sink comes to. -/
structure Sunk (c : Capture) (h : Header) (r : Channel) (answer : Bool × Channel) : Prop where
  books : Consistent answer.2.session
  returned : answer.1 = true → answer.2.exchangeErrors = r.exchangeErrors ∧
    ∃ reading, read c h = .ok reading ∧
      Counts r.session answer.2.session reading.rows reading.drops
  raised : answer.1 = false → answer.2.exchangeErrors = r.exchangeErrors + 1 ∧
    Counts r.session answer.2.session 0 0

variable {l : Link} {a : Arrival} {h : Header} {r : Channel}

theorem sunk (books : Consistent r.session) (request response : List UInt8) (w : Weather) :
    Sunk l.capture h r (sink l h request response w r) := by
  rw [sink]
  cases w.opens with
  | false => exact ⟨books, nofun, fun _ => ⟨rfl, rfl, rfl⟩⟩
  | true =>
      refine ⟨books.next _, fun returned => ?_, fun raised => ?_⟩
      · refine ⟨if_pos returned, ?_⟩
        exact counts_returned books ((Bool.true_and _).symm.trans returned)
      · refine ⟨if_neg (raised.trans_ne Bool.false_ne_true), ?_⟩
        exact counts_raised books ((Bool.true_and _).symm.trans raised)

theorem read_dropReport {c : Capture} (one : c.int (.int 1) = some 1) (h : Header) :
    read c (dropReport h) = .ok (.dropped (runKind (dropReport h)) 1) := by
  have type : frameType ((dropReport h).get "t" (str "exchange")) = some .dropped := by
    rfl
  have count : (dropReport h).get "n" (.int 1) = .int 1 := rfl
  rw [read, type]
  show readDropped c (dropReport h) = _
  rw [readDropped, count, one]
  rfl

/-- The exchanges a frame's handling writes. -/
def rowsOf (l : Link) (a : Arrival) : Fate → Nat
  | .kept => (read l.capture a.header).toOption.elim 0 Reading.rows
  | .floored => 0
  | .lost => 0

/-- The drops it counts. -/
def countedOf (l : Link) (a : Arrival) : Fate → Nat
  | .kept => (read l.capture a.header).toOption.elim 0 Reading.drops
  | .floored => 1
  | .lost => 0

/-- How often the sink raises on it; the loss of a drop report is not reported. -/
def errorsOf (a : Arrival) : Fate → Nat
  | .kept => 0
  | .floored => 1
  | .lost => match a.type with
    | .dropped => 1
    | _ => 2

/-- What one frame counts, by what becomes of it. -/
structure Counted (l : Link) (a : Arrival) (r : Channel) (answer : Fate × Channel) : Prop where
  books : Consistent answer.2.session
  counts : Counts r.session answer.2.session (rowsOf l a answer.1) (countedOf l a answer.1)
  errors : answer.2.exchangeErrors = r.exchangeErrors + errorsOf a answer.1
  kept : answer.1 = .kept → ∃ reading, read l.capture a.header = .ok reading

theorem countAsDropped_counted (one : l.capture.int (.int 1) = some 1)
    {m : Channel} (same : Counts r.session m.session 0 0)
    (kept : Consistent m.session) (error : m.exchangeErrors = r.exchangeErrors + 1) :
    Counted l a r
      (if (countAsDropped l a m).1 then .floored else .lost, (countAsDropped l a m).2) := by
  have told := sunk (l := l) (h := dropReport a.header) kept [] [] a.again
  rw [countAsDropped]
  cases type : a.type with
  | dropped =>
      refine ⟨kept, same, ?_, nofun⟩
      show m.exchangeErrors = _
      simp only [errorsOf, type, error, Bool.false_eq_true, if_false]
  | _ =>
      cases answer : (sink l (dropReport a.header) [] [] a.again m).1 with
      | true =>
          obtain ⟨errors, reading, is, counts⟩ := told.returned answer
          rw [read_dropReport one] at is
          cases is
          have one_more : Counts m.session _ 0 1 := counts
          refine ⟨told.books, same.trans one_more, ?_, nofun⟩
          simp only [if_true, errorsOf, errors, error]
      | false =>
          obtain ⟨errors, counts⟩ := told.raised answer
          refine ⟨told.books, same.trans counts, ?_, nofun⟩
          simp only [Bool.false_eq_true, if_false, errorsOf, type, errors, error]

theorem capture_counted (one : l.capture.int (.int 1) = some 1) (books : Consistent r.session) :
    Counted l a r (capture l a r) := by
  rw [capture]
  cases bodies l a with
  | none => exact countAsDropped_counted one ⟨rfl, rfl⟩ books rfl
  | some both =>
      have first := sunk (l := l) (h := a.header) books both.1 both.2 a.first
      show Counted l a r (if (sink l a.header both.1 both.2 a.first r).1 then _ else _)
      cases answer : (sink l a.header both.1 both.2 a.first r).1 with
      | true =>
          obtain ⟨errors, reading, is, counts⟩ := first.returned answer
          refine ⟨first.books, ?_, errors, fun _ => ⟨reading, is⟩⟩
          rw [if_pos rfl, rowsOf, countedOf, is]
          exact counts
      | false =>
          obtain ⟨errors, counts⟩ := first.raised answer
          exact countAsDropped_counted one counts first.books errors

theorem readExchange_eq {c : Capture} {via : Via} {method url : PyValue} {reading : Reading}
    (is : readExchange c h via method url = .ok reading) : ∃ e, reading = .exchange e := by
  rw [readExchange] at is
  cases ms : c.int (orDefault (h.get "ms" .none) (.int 0)) with
  | none =>
      rw [ms] at is
      cases is
  | some n =>
      rw [ms] at is
      cases outcome : outcomeOf (orDefault (h.get "outcome" .none) (str "ok")) with
      | none =>
          rw [outcome] at is
          cases is
      | some o =>
          rw [outcome] at is
          cases normalised : c.normalise method url with
          | none =>
              rw [normalised] at is
              cases is
          | some page =>
              rw [normalised] at is
              cases is
              exact ⟨_, rfl⟩

theorem read_exchange {c : Capture} {reading : Reading}
    (type : frameType (h.get "t" .none) = some .exchange) (is : read c h = .ok reading) :
    ∃ e, reading = .exchange e := by
  have same : frameType (h.get "t" (str "exchange")) = some .exchange := by
    rw [Header.get] at type ⊢
    cases found : h.find? fun entry => entry.1 == "t" with
    | none => rfl
    | some entry =>
        rw [found] at type
        exact type
  rw [read, same] at is
  cases via : viaOf (h.get "via" (str "proxy")) with
  | none =>
      rw [via] at is
      cases is
  | some v =>
      rw [via] at is
      replace is : (if truthy (h.get "url" .none) then _ else _) = _ := is
      split at is
      · exact readExchange_eq is
      · cases is

/-- The frames of an exchange: a row each, or a drop and an error, or two errors. -/
theorem weight (type : a.type = .exchange) {fate : Fate}
    (kept : fate = .kept → ∃ reading, read l.capture a.header = .ok reading) :
    2 * rowsOf l a fate + countedOf l a fate + errorsOf a fate = 2 := by
  cases fate with
  | kept =>
      obtain ⟨reading, is⟩ := kept rfl
      obtain ⟨e, rfl⟩ := read_exchange (type ▸ a.typed) is
      rw [rowsOf, countedOf, is]
      rfl
  | floored => rfl
  | lost => simp only [rowsOf, countedOf, errorsOf, type]

/-- What a sequence of frames has counted, as the frames became what they did. -/
structure Floor (l : Link) (arrivals : List Arrival) (r : Channel) : Prop where
  books : Consistent (after l arrivals r).session
  counts : Counts r.session (after l arrivals r).session (tally l (rowsOf l) arrivals r)
    (tally l (countedOf l) arrivals r)
  errors : (after l arrivals r).exchangeErrors = r.exchangeErrors + tally l errorsOf arrivals r
  /-- Where all are exchanges: each is a row, or a drop and an error, or two errors. -/
  exchanges : (∀ a ∈ arrivals, a.type = .exchange) →
    2 * arrivals.length + 2 * r.session.db.exchanges.length + r.session.db.dropped +
        r.exchangeErrors =
      2 * (after l arrivals r).session.db.exchanges.length +
        (after l arrivals r).session.db.dropped + (after l arrivals r).exchangeErrors

/-- A request of the operator. -/
def browsed (status : PyValue) (first again : Weather) : Arrival where
  header := [("t", str "exchange"), ("url", str "h"), ("status", status)]
  body := []
  type := .exchange
  typed := rfl
  first := first
  again := again

def calm : Weather := ⟨true, fun _ => false, fun _ => 0⟩

/-- The database cannot be opened. -/
def unopened : Weather := ⟨false, fun _ => false, fun _ => 0⟩

/-- One that is recorded, one whose frame is refused, and one that nothing is known of. -/
def threeRequests : List Arrival :=
  [browsed (.int 200) calm calm, browsed .none calm calm, browsed (.int 200) unopened unopened]

def oneHostLink : Link := ⟨oneHost, fun _ _ => some ([], [])⟩

end Channel

end Hx.Frames
