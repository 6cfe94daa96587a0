import Mathlib.Data.List.Infix
import Hx.Library.Interleaved
import Hx.Library.Lowering

/-!
# Blobs under their digests

Any number of processes put blobs into one directory and get them out of it. Each call of the
operating system is one step, and any call may fail. A file is what a name leads to: it outlives its
name, and what is written to it is nowhere else. A write may leave anything in its file, also when
it succeeds. After an outage a name leads to any file it ever led to, or to none, and only what was
synced is what it was.

What a process opened no other closes, so a second `close` closes nothing. A path is read in one
step. `hashlib.sha256(data).hexdigest()` is a parameter.
-/

namespace Hx.Blobs

open Hx.Library

abbrev Bytes := List UInt8

/-- A canonical path, by its components. -/
abbrev Path := List Text

def isHexDigit (c : Fin 0x110000) : Bool :=
  (0x30 ≤ c.val && c.val ≤ 0x39) || (0x61 ≤ c.val && c.val ≤ 0x66)

/-- `_HEX64.fullmatch`. -/
def isHex64 (s : Text) : Bool := s.length = 64 && s.all isHexDigit

structure Sha256 where
  hexdigest : Bytes → Text
  hex : ∀ data, isHex64 (hexdigest data) = true

/-! ## What is called -/

/-- `write` is `write` and `flush`, and `unlink` is `unlink(missing_ok=True)`. -/
inductive Call where
  | isThere (p : Path)
  | mkdir (p : Path)
  | openNew (p : Path)
  | fdopen (fd : ℕ)
  | write (fd : ℕ) (data : Bytes)
  | fsync (fd : ℕ)
  | close (fd : ℕ)
  | read (p : Path)
  | unlink (p : Path)
  | replace (staging final : Path)
  | chmod (p : Path)

abbrev Answer : Call → Type
  | .isThere _ => Bool
  | .openNew _ => ℕ
  | .read _ => Bytes
  | _ => Unit

/-- An `OSError` is its number. -/
abbrev Reply (c : Call) : Type := Except ℕ (Answer c)

/-- `OSError`, and a `CorruptBlob` by what it says: "not a valid digest", "missing", "length … !=
expected …", "failed digest verification" and "digest mismatch writing". -/
inductive Exc where
  | os (errno : ℕ)
  | notValid (digest : Text)
  | missing (digest : Text)
  | length (digest : Text) (found : ℕ) (expected : ℤ)
  | failedVerification (digest : Text)
  | mismatchWriting (digest : Text)

abbrev Code (α : Type) := Asking Call Reply Exc α

def os (c : Call) : Code (Answer c) :=
  .ask c fun
    | .ok answer => .ret answer
    | .error errno => .raise (.os errno)

/-! ## The code -/

/-- `secure_mkdir`, up the path as far as nothing is there. -/
def missingOf : List Path → List Path → Code (List Path)
  | [], missing => pure missing
  | probe :: parents, missing => do
      if ← os (.isThere probe) then pure missing
      else missingOf parents (probe :: missing)

def mkdirs : List Path → Code Unit
  | [] => pure ()
  | created :: rest => do
      os (.mkdir created)
      mkdirs rest

def secureMkdir (path : Path) : Code Unit := do
  let missing ← missingOf path.inits.reverse []
  mkdirs missing

variable (H : Sha256) (root : Path)

def tmp : Path := root ++ [text "tmp"]

def staging (uuid : Text) : Path := root ++ [text "tmp", uuid ++ text ".part"]

/-- Where the blob of a digest is. -/
def blobPath (digest : Text) : Path :=
  root ++ [digest.take 2, (digest.drop 2).take 2, digest]

/-- `path_for`. -/
def pathFor (digest : Text) : Code Path :=
  if isHex64 digest then pure (blobPath root digest) else .raise (.notValid digest)

/-- What `put` looks for first; what cannot be read is repaired. -/
def isHeld (digest : Text) (final : Path) : Code Bool := do
  if ← os (.isThere final) then
    match ← (os (.read final)).attempt with
    | .ok found => pure (H.hexdigest found = digest)
    | .error _ => pure false
  else pure false

/-- The `with` block, which closes the file whatever is raised in it. -/
def fill (fd : ℕ) (data : Bytes) : Code Unit := do
  os (.fdopen fd)
  match ← (do os (.write fd data); os (.fsync fd) : Code Unit).attempt with
  | .ok _ => os (.close fd)
  | .error raised => do
      os (.close fd)
      .raise raised

/-- `put` from the verified file on. -/
def install (digest : Text) (part final : Path) : Code Unit := do
  let written ← os (.read part)
  if H.hexdigest written = digest then do
    os (.replace part final)
    os (.chmod final)
  else do
    os (.unlink part)
    .raise (.mismatchWriting digest)

/-- `put`, with the name of the staging file. -/
def put (uuid : Text) (data : Bytes) : Code (Text × ℕ) := do
  let digest := H.hexdigest data
  let final ← pathFor root digest
  if ← isHeld H digest final then return (digest, data.length)
  secureMkdir final.dropLast
  let fd ← os (.openNew (staging root uuid))
  match ← (fill fd data).attempt with
  | .ok _ =>
      install H digest (staging root uuid) final
      return (digest, data.length)
  | .error raised =>
      let _ ← (os (.close fd)).attempt
      os (.unlink (staging root uuid))
      .raise raised

/-- `get`. -/
def get (digest : Text) (expectedLen : Option ℤ) : Code Bytes := do
  let path ← pathFor root digest
  if ← os (.isThere path) then
    let data ← os (.read path)
    match expectedLen.filter fun n : ℤ => n ≠ (data.length : ℤ) with
    | some n => .raise (.length digest data.length n)
    | none =>
        if H.hexdigest data = digest then pure data else .raise (.failedVerification digest)
  else .raise (.missing digest)

/-- What a process does with the store: `BlobStore(root)`, `put` and `get`. -/
inductive Job where
  | opens
  | put (uuid : Text) (data : Bytes)
  | get (digest : Text) (expectedLen : Option ℤ)

inductive Result where
  | opened
  | stored (digest : Text) (length : ℕ)
  | got (data : Bytes)

def program : Job → Code Result
  | .opens => do
      secureMkdir (tmp root)
      return .opened
  | .put uuid data => do
      let stored ← put H root uuid data
      return .stored stored.1 stored.2
  | .get digest expectedLen => do
      let data ← get H root digest expectedLen
      return .got data

/-! ## The disk -/

inductive Entry where
  | directory
  | file (i : ℕ)
  deriving DecidableEq

/-- What names lead to and what is in the files; `links` is what names ever led to. -/
structure Disk where
  entry : Path → Option Entry
  bytes : ℕ → Bytes
  durable : ℕ → Bool
  born : ℕ
  links : List (Path × ℕ)

namespace Disk

def link (d : Disk) (p : Path) (i : ℕ) : Disk :=
  { d with entry := Function.update d.entry p (some (.file i)), links := (p, i) :: d.links }

def unlink (d : Disk) (p : Path) : Disk := { d with entry := Function.update d.entry p none }

def mkdir (d : Disk) (p : Path) : Disk :=
  { d with entry := Function.update d.entry p (some .directory) }

/-- A new file, empty. -/
def create (d : Disk) : Disk :=
  { d with
    bytes := Function.update d.bytes d.born []
    durable := Function.update d.durable d.born false
    born := d.born + 1 }

def fill (d : Disk) (i : ℕ) (data : Bytes) : Disk :=
  { d with
    bytes := Function.update d.bytes i data
    durable := Function.update d.durable i false }

def sync (d : Disk) (i : ℕ) : Disk := { d with durable := Function.update d.durable i true }

variable (d : Disk) (p : Path) (i : ℕ)

@[simp] theorem link_entry :
    (d.link p i).entry = Function.update d.entry p (some (.file i)) := rfl

@[simp] theorem unlink_entry : (d.unlink p).entry = Function.update d.entry p none := rfl

/-- A file that is found after no file was put there was there before. -/
theorem file_of_update {entry : Path → Option Entry} {e : Option Entry} {p p' : Path} {j : ℕ}
    (noFile : ∀ j, e ≠ some (.file j)) (there : Function.update entry p e p' = some (.file j)) :
    entry p' = some (.file j) := by
  by_cases same : p' = p
  · rw [same, Function.update_self] at there
    exact absurd there (noFile j)
  · rw [Function.update_of_ne same] at there
    exact there

/-- What a call may answer, and what it leaves. -/
inductive Exec : Disk → (c : Call) → Reply c → Disk → Prop where
  | fails (d : Disk) (c : Call) (errno : ℕ) : Exec d c (.error errno) d
  | isThere (d : Disk) (p : Path) : Exec d (.isThere p) (.ok (d.entry p).isSome) d
  | mkdir (d : Disk) (p : Path) (free : d.entry p = none)
      (parent : d.entry p.dropLast = some .directory) : Exec d (.mkdir p) (.ok ()) (d.mkdir p)
  | openNew (d : Disk) (p : Path) (free : d.entry p = none)
      (parent : d.entry p.dropLast = some .directory) :
      Exec d (.openNew p) (.ok d.born) (d.create.link p d.born)
  | fdopen (d : Disk) (fd : ℕ) : Exec d (.fdopen fd) (.ok ()) d
  | write (d : Disk) (fd : ℕ) (data left : Bytes) (r : Reply (.write fd data)) :
      Exec d (.write fd data) r (d.fill fd left)
  | fsync (d : Disk) (fd : ℕ) : Exec d (.fsync fd) (.ok ()) (d.sync fd)
  | close (d : Disk) (fd : ℕ) : Exec d (.close fd) (.ok ()) d
  | read (d : Disk) (p : Path) (i : ℕ) (found : d.entry p = some (.file i)) :
      Exec d (.read p) (.ok (d.bytes i)) d
  | unlink (d : Disk) (p : Path) (i : ℕ) (found : d.entry p = some (.file i)) :
      Exec d (.unlink p) (.ok ()) (d.unlink p)
  | unlinkMissing (d : Disk) (p : Path) (absent : d.entry p = none) :
      Exec d (.unlink p) (.ok ()) d
  | replace (d : Disk) (part final : Path) (i : ℕ) (found : d.entry part = some (.file i))
      (apart : part ≠ final) (free : d.entry final ≠ some .directory)
      (parent : d.entry final.dropLast = some .directory) :
      Exec d (.replace part final) (.ok ()) ((d.link final i).unlink part)
  | chmod (d : Disk) (p : Path) : Exec d (.chmod p) (.ok ()) d

/-- What an outage may leave. -/
structure Outage (d d' : Disk) : Prop where
  entry : ∀ p i, d'.entry p = some (.file i) → (p, i) ∈ d.links
  bytes : ∀ i, d.durable i = true → d'.bytes i = d.bytes i
  durable : d'.durable = d.durable
  born : d'.born = d.born
  links : d'.links = d.links

end Disk

/-- The store begins on a disk with no files of its own. -/
def store : Interleaved Disk Job Call Reply Exc Result where
  start d := d.links = [] ∧ ∀ p i, d.entry p ≠ some (.file i)
  program := program H root
  exec := Disk.Exec
  outage := Disk.Outage

/-! ## What a process knows -/

/-- The staging file a process has, and how far it has come with it. -/
inductive Holding where
  | nothing
  | writing (part : Path) (i : ℕ)
  | synced (part : Path) (i : ℕ)
  | checked (part : Path) (i : ℕ) (found : Bytes)

def Holding.file : Holding → Option (Path × ℕ)
  | .nothing => none
  | .writing part i => some (part, i)
  | .synced part i => some (part, i)
  | .checked part i _ => some (part, i)

def Holding.isSynced : Holding → Bool
  | .synced _ _ => true
  | .checked _ _ _ => true
  | _ => false

def Holding.found : Holding → Option Bytes
  | .checked _ _ found => some found
  | _ => none

/-- What a process holds, and where it saw a file last. -/
structure Known where
  holding : Holding
  seen : Option Path

def fresh : Known := ⟨.nothing, none⟩

/-- A staging file is written until it is synced, read back, and then either given its final name,
which is the digest of what was read, or given up. -/
def protocol : Protocol Call Reply Known where
  allows k
    | .openNew p => ∃ uuid, p = staging root uuid
    | .write fd _ => ∃ part, k.holding = .writing part fd
    | .fsync fd => ∃ part, k.holding = .writing part fd
    | .unlink p => ∃ i, k.holding.file = some (p, i)
    | .replace part final => ∃ i found, k.holding = .checked part i found ∧
        final = blobPath root (H.hexdigest found)
    | _ => True
  answers _
    | .read p, .ok found => ∀ digest, p = blobPath root digest → H.hexdigest found = digest
    | _, _ => True
  learn k
    | .openNew p, .ok i => ⟨.writing p i, none⟩
    | .fsync _, .ok _ =>
        match k.holding with
        | .writing part i => ⟨.synced part i, none⟩
        | _ => k
    | .read p, .ok found =>
        match k.holding with
        | .nothing => ⟨.nothing, some p⟩
        | .synced part i => if p = part then ⟨.checked part i found, none⟩ else k
        | _ => k
    | .unlink _, _ => fresh
    | .replace _ final, .ok _ => ⟨.nothing, some final⟩
    | .replace _ _, .error _ => fresh
    | _, _ => k

/-! ## What the disk keeps -/

section Paths

variable {root} {uuid digest digest' : Text}

theorem blobPath_injective (same : blobPath root digest = blobPath root digest') :
    digest = digest' := by
  have tails := List.append_cancel_left same
  simp only [List.cons.injEq] at tails
  exact tails.2.2.1

theorem staging_ne_blobPath : staging root uuid ≠ blobPath root digest := by
  intro same
  have lengths := congrArg List.length (List.append_cancel_left same)
  simp at lengths

end Paths

/-- A staging file is its holder's: its name leads to it, and no blob's name ever did. -/
structure Holds (h : Holding) (d : Disk) (part : Path) (i : ℕ) : Prop where
  isStaging : ∃ uuid, part = staging root uuid
  entry : d.entry part = some (.file i)
  apart : ∀ digest, (blobPath root digest, i) ∉ d.links
  synced : h.isSynced = true → d.durable i = true
  found : ∀ found, h.found = some found → d.bytes i = found

/-- What a blob's name ever led to is on the disk, and its bytes have that digest. -/
structure Kept {ι : Type} (known : ι → Known) (d : Disk) : Prop where
  blobs : ∀ digest i, (blobPath root digest, i) ∈ d.links →
    H.hexdigest (d.bytes i) = digest ∧ d.durable i = true
  linked : ∀ p i, d.entry p = some (.file i) → (p, i) ∈ d.links
  born : ∀ p i, (p, i) ∈ d.links → i < d.born
  holds : ∀ q part i, (known q).holding.file = some (part, i) →
    Holds root (known q).holding d part i
  alone : ∀ q q' part part' i, (known q).holding.file = some (part, i) →
    (known q').holding.file = some (part', i) → q = q'
  seen : ∀ q digest, (known q).seen = some (blobPath root digest) →
    ∃ i, d.entry (blobPath root digest) = some (.file i)

section Kept

variable {H root} {ι : Type} {known : ι → Known} {d d' : Disk} {q : ι} {k : Known}
  {h : Holding} {part p : Path} {i j : ℕ}

theorem Holds.frame (holds : Holds root h d part i) (entry : d'.entry part = d.entry part)
    (links : ∀ digest, (blobPath root digest, i) ∈ d'.links → (blobPath root digest, i) ∈ d.links)
    (durable : d'.durable i = d.durable i) (bytes : d'.bytes i = d.bytes i) :
    Holds root h d' part i where
  isStaging := holds.isStaging
  entry := entry.trans holds.entry
  apart digest there := holds.apart digest (links digest there)
  synced is := durable.trans (holds.synced is)
  found found is := bytes.trans (holds.found found is)

/-- Two staging files of two processes have two names. -/
theorem Kept.names_apart {q' : ι} {part' : Path} (kept : Kept H root known d)
    (mine : (known q).holding.file = some (part, i))
    (theirs : (known q').holding.file = some (part', j)) (other : q' ≠ q) : part' ≠ part := by
  rintro rfl
  have same := (kept.holds q _ _ mine).entry.symm.trans (kept.holds q' _ _ theirs).entry
  cases same
  exact other (kept.alone q' q _ _ _ theirs mine)

/-- A name that leads to a file goes on to lead to one. -/
theorem Kept.stays {c : Call} {r : Reply c} {digest : Text}
    (kept : Kept H root known d) (allowed : (protocol H root).allows (known q) c)
    (done : Disk.Exec d c r d') (there : d.entry (blobPath root digest) = some (.file i)) :
    ∃ i, d'.entry (blobPath root digest) = some (.file i) := by
  cases done with
  | mkdir made free parent =>
      refine ⟨i, (Function.update_of_ne ?_ _ _).trans there⟩
      rintro rfl
      exact nomatch free.symm.trans there
  | openNew part free parent =>
      obtain ⟨uuid, rfl⟩ := allowed
      exact ⟨i, (Function.update_of_ne staging_ne_blobPath.symm _ _).trans there⟩
  | unlink part j found =>
      obtain ⟨j', file⟩ := allowed
      obtain ⟨uuid, rfl⟩ := (kept.holds q part j' file).isStaging
      exact ⟨i, (Function.update_of_ne staging_ne_blobPath.symm _ _).trans there⟩
  | replace part final j found apart free parent =>
      obtain ⟨j', read, checked, rfl⟩ := allowed
      obtain ⟨uuid, rfl⟩ := (kept.holds q part j' (checked ▸ rfl)).isStaging
      rw [Disk.unlink_entry, Function.update_of_ne staging_ne_blobPath.symm, Disk.link_entry]
      by_cases same : blobPath root digest = blobPath root (H.hexdigest read)
      · exact ⟨j, same ▸ Function.update_self ..⟩
      · exact ⟨i, (Function.update_of_ne same _ _).trans there⟩
  | _ => exact ⟨i, there⟩

variable [DecidableEq ι]

/-- What one process learns and does, when it leaves what the others hold. -/
theorem Kept.step (kept : Kept H root known d)
    (blobs : ∀ digest i, (blobPath root digest, i) ∈ d'.links →
      H.hexdigest (d'.bytes i) = digest ∧ d'.durable i = true)
    (linked : ∀ p i, d'.entry p = some (.file i) → (p, i) ∈ d'.links)
    (born : ∀ p i, (p, i) ∈ d'.links → i < d'.born)
    (others : ∀ q' part i, q' ≠ q → (known q').holding.file = some (part, i) →
      Holds root (known q').holding d part i → Holds root (known q').holding d' part i)
    (mine : ∀ part i, k.holding.file = some (part, i) → Holds root k.holding d' part i ∧
      ∀ q' part', q' ≠ q → (known q').holding.file ≠ some (part', i))
    (stays : ∀ digest i, d.entry (blobPath root digest) = some (.file i) →
      ∃ i, d'.entry (blobPath root digest) = some (.file i))
    (seen : ∀ digest, k.seen = some (blobPath root digest) →
      ∃ i, d'.entry (blobPath root digest) = some (.file i)) :
    Kept H root (Function.update known q k) d' where
  blobs := blobs
  linked := linked
  born := born
  holds q' part i file := by
    by_cases same : q' = q
    · subst same
      rw [Function.update_self] at file ⊢
      exact (mine part i file).1
    · rw [Function.update_of_ne same] at file ⊢
      exact others q' part i same file (kept.holds q' part i file)
  alone q' q'' part part' i file file' := by
    by_cases same : q' = q
    · subst same
      rw [Function.update_self] at file
      by_cases same' : q'' = q'
      · exact same'.symm
      · rw [Function.update_of_ne same'] at file'
        exact absurd file' ((mine part i file).2 q'' part' same')
    · rw [Function.update_of_ne same] at file
      by_cases same' : q'' = q
      · subst same'
        rw [Function.update_self] at file'
        exact absurd file ((mine part' i file').2 q' part same)
      · rw [Function.update_of_ne same'] at file'
        exact kept.alone q' q'' part part' i file file'
  seen q' digest is := by
    by_cases same : q' = q
    · subst same
      rw [Function.update_self] at is
      exact seen digest is
    · rw [Function.update_of_ne same] at is
      obtain ⟨i, there⟩ := kept.seen q' digest is
      exact stays digest i there

/-- Nothing happens on the disk, and the process has at most the file it had. -/
theorem Kept.learn (kept : Kept H root known d)
    (mine : ∀ part i, k.holding.file = some (part, i) →
      (known q).holding.file = some (part, i) ∧ Holds root k.holding d part i)
    (seen : ∀ digest, k.seen = some (blobPath root digest) →
      ∃ i, d.entry (blobPath root digest) = some (.file i)) :
    Kept H root (Function.update known q k) d :=
  kept.step kept.blobs kept.linked kept.born (fun _ _ _ _ _ holds => holds)
    (fun part i file => ⟨(mine part i file).2, fun q' part' other file' =>
      other (kept.alone q' q part' part i file' (mine part i file).1)⟩)
    (fun _ i there => ⟨i, there⟩) seen

theorem Kept.forget (kept : Kept H root known d) :
    Kept H root (Function.update known q fresh) d :=
  kept.learn nofun nofun

theorem Kept.same (kept : Kept H root known d) :
    Kept H root (Function.update known q (known q)) d :=
  kept.learn (fun part i file => ⟨file, kept.holds q part i file⟩) (kept.seen q)

/-! ## One call -/

theorem Kept.made (kept : Kept H root known d) (free : d.entry p = none) :
    Kept H root (Function.update known q (known q)) (d.mkdir p) := by
  have other {p' : Path} {i : ℕ} (file : d.entry p' = some (.file i)) :
      (d.mkdir p).entry p' = d.entry p' := by
    apply Function.update_of_ne
    rintro rfl
    exact nomatch free.symm.trans file
  apply kept.step
  · exact kept.blobs
  · exact fun p' i there => kept.linked p' i (Disk.file_of_update (by simp) there)
  · exact kept.born
  · intro q' part i _ _ holds
    exact holds.frame (other holds.entry) (fun _ there => there) rfl rfl
  · intro part i file
    have holds := kept.holds q part i file
    exact ⟨holds.frame (other holds.entry) (fun _ there => there) rfl rfl,
      fun q' part' apart file' => apart (kept.alone q' q part' part i file' file)⟩
  · exact fun digest i there => ⟨i, (other there).trans there⟩
  · intro digest is
    obtain ⟨i, there⟩ := kept.seen q digest is
    exact ⟨i, (other there).trans there⟩

theorem Kept.opened (kept : Kept H root known d) (uuid : Text)
    (free : d.entry (staging root uuid) = none) :
    Kept H root (Function.update known q ⟨.writing (staging root uuid) d.born, none⟩)
      (d.create.link (staging root uuid) d.born) := by
  have old {p : Path} {i : ℕ} (there : (p, i) ∈ d.links) : i ≠ d.born :=
    (kept.born p i there).ne
  have other {p : Path} {i : ℕ} (file : d.entry p = some (.file i)) :
      (d.create.link (staging root uuid) d.born).entry p = d.entry p := by
    apply Function.update_of_ne
    rintro rfl
    exact nomatch free.symm.trans file
  have onlyOld {digest : Text} {i : ℕ}
      (there : (blobPath root digest, i) ∈ (staging root uuid, d.born) :: d.links) :
      (blobPath root digest, i) ∈ d.links := by
    rcases List.mem_cons.1 there with same | there
    · exact absurd (Prod.mk.inj same).1.symm staging_ne_blobPath
    · exact there
  apply kept.step
  · intro digest i there
    have before := onlyOld there
    obtain ⟨named, durable⟩ := kept.blobs digest i before
    refine ⟨?_, ?_⟩
    · exact (congrArg H.hexdigest (Function.update_of_ne (old before) _ _)).trans named
    · exact (Function.update_of_ne (old before) _ _).trans durable
  · intro p i there
    by_cases same : p = staging root uuid
    · subst same
      rw [Disk.link_entry, Function.update_self] at there
      cases there
      exact List.mem_cons_self
    · rw [Disk.link_entry, Function.update_of_ne same] at there
      exact List.mem_cons_of_mem _ (kept.linked p i there)
  · intro p i there
    rcases List.mem_cons.1 there with same | there
    · cases same
      exact Nat.lt_succ_self d.born
    · exact Nat.lt_succ_of_lt (kept.born p i there)
  · intro q' part i _ _ holds
    have mine := old (kept.linked part i holds.entry)
    exact holds.frame (other holds.entry) (fun _ => onlyOld) (Function.update_of_ne mine _ _)
      (Function.update_of_ne mine _ _)
  · intro part i file
    cases file
    refine ⟨⟨⟨uuid, rfl⟩, Function.update_self .., ?_, nofun, nofun⟩, ?_⟩
    · exact fun digest there => old (onlyOld there) rfl
    · intro q' part' _ file'
      exact old (kept.linked part' _ (kept.holds q' part' _ file').entry) rfl
  · exact fun digest i there => ⟨i, (other there).trans there⟩
  · exact nofun

/-- Only the file that the process holds is changed, and only inside. -/
theorem Kept.inside (kept : Kept H root known d) (file : (known q).holding.file = some (part, i))
    (same : k.holding.file = some (part, i)) (entry : d'.entry = d.entry)
    (links : d'.links = d.links) (born : d'.born = d.born)
    (bytes : ∀ j, j ≠ i → d'.bytes j = d.bytes j)
    (durable : ∀ j, j ≠ i → d'.durable j = d.durable j)
    (synced : k.holding.isSynced = true → d'.durable i = true) (found : k.holding.found = none)
    (seen : k.seen = (known q).seen ∨ k.seen = none) :
    Kept H root (Function.update known q k) d' := by
  have holds := kept.holds q part i file
  have stays {p : Path} {j : ℕ} (there : d.entry p = some (.file j)) :
      d'.entry p = some (.file j) := entry ▸ there
  apply kept.step
  · intro digest j there
    rw [links] at there
    have other : j ≠ i := by
      rintro rfl
      exact holds.apart digest there
    rw [bytes j other, durable j other]
    exact kept.blobs digest j there
  · intro p j there
    rw [entry] at there
    exact links ▸ kept.linked p j there
  · intro p j there
    rw [links] at there
    exact born ▸ kept.born p j there
  · intro q' part' j other file' theirs
    have apart : j ≠ i := by
      rintro rfl
      exact other (kept.alone q' q part' part j file' file)
    exact theirs.frame (congrFun entry part') (fun _ there => links ▸ there) (durable j apart)
      (bytes j apart)
  · intro part' j file'
    cases same.symm.trans file'
    refine ⟨⟨holds.isStaging, stays holds.entry, ?_, synced, ?_⟩, ?_⟩
    · exact fun digest there => holds.apart digest (links ▸ there)
    · exact fun written is => nomatch found.symm.trans is
    · exact fun q' part'' other file'' => other (kept.alone q' q part'' part i file'' file)
  · exact fun digest j there => ⟨j, stays there⟩
  · intro digest is
    rcases seen with as | none_
    · obtain ⟨j, there⟩ := kept.seen q digest (as ▸ is)
      exact ⟨j, stays there⟩
    · exact nomatch none_.symm.trans is

theorem Kept.removed (kept : Kept H root known d)
    (file : (known q).holding.file = some (part, i)) :
    Kept H root (Function.update known q fresh) (d.unlink part) := by
  obtain ⟨uuid, rfl⟩ := (kept.holds q part i file).isStaging
  apply kept.step
  · exact kept.blobs
  · exact fun p j there => kept.linked p j (Disk.file_of_update (by simp) there)
  · exact kept.born
  · intro q' part' j other file' theirs
    refine theirs.frame (Function.update_of_ne ?_ _ _) (fun _ there => there) rfl rfl
    exact kept.names_apart file file' other
  · exact nofun
  · intro digest j there
    exact ⟨j, (Function.update_of_ne staging_ne_blobPath.symm _ _).trans there⟩
  · exact nofun

theorem Kept.replaced (kept : Kept H root known d) {found : Bytes} {digest : Text}
    (checked : (known q).holding = .checked part i found) (named : H.hexdigest found = digest) :
    Kept H root (Function.update known q ⟨.nothing, some (blobPath root digest)⟩)
      ((d.link (blobPath root digest) i).unlink part) := by
  have file : (known q).holding.file = some (part, i) := checked ▸ rfl
  have holds := kept.holds q part i file
  obtain ⟨uuid, rfl⟩ := holds.isStaging
  have apart : blobPath root digest ≠ staging root uuid := staging_ne_blobPath.symm
  have final : ((d.link (blobPath root digest) i).unlink (staging root uuid)).entry
      (blobPath root digest) = some (.file i) :=
    (Function.update_of_ne apart _ _).trans (Function.update_self ..)
  apply kept.step
  · intro digest' j there
    rcases List.mem_cons.1 there with same | there
    · obtain ⟨path, rfl⟩ := Prod.mk.inj same
      obtain rfl := blobPath_injective path
      have bytes := holds.found found (checked ▸ rfl)
      exact ⟨(congrArg H.hexdigest bytes).trans named, holds.synced (checked ▸ rfl)⟩
    · exact kept.blobs digest' j there
  · intro p j there
    have linked := Disk.file_of_update (by simp) there
    by_cases same : p = blobPath root digest
    · subst same
      rw [Disk.link_entry, Function.update_self] at linked
      cases linked
      exact List.mem_cons_self
    · rw [Disk.link_entry, Function.update_of_ne same] at linked
      exact List.mem_cons_of_mem _ (kept.linked p j linked)
  · intro p j there
    rcases List.mem_cons.1 there with same | there
    · cases same
      exact kept.born _ i (kept.linked _ i holds.entry)
    · exact kept.born p j there
  · intro q' part' j other file' theirs
    obtain ⟨uuid', rfl⟩ := theirs.isStaging
    refine theirs.frame ?_ (fun digest' there => ?_) rfl rfl
    · exact (Function.update_of_ne (kept.names_apart file file' other) _ _).trans
        (Function.update_of_ne staging_ne_blobPath _ _)
    · rcases List.mem_cons.1 there with same | there
      · obtain rfl := (Prod.mk.inj same).2
        exact absurd (kept.alone q' q _ _ _ file' file) other
      · exact there
  · exact nofun
  · intro digest' j there
    by_cases same : blobPath root digest' = blobPath root digest
    · exact ⟨i, same ▸ final⟩
    · exact ⟨j, (Function.update_of_ne staging_ne_blobPath.symm _ _).trans
        ((Function.update_of_ne same _ _).trans there)⟩
  · intro digest' is
    exact Option.some.inj is ▸ ⟨i, final⟩

/-- What is read of a staging file that was synced is what it stays. -/
theorem Kept.reads (kept : Kept H root known d) (found : d.entry p = some (.file i)) :
    Kept H root (Function.update known q
      ((protocol H root).learn (known q) (.read p) (.ok (d.bytes i)))) d := by
  cases holding : (known q).holding with
  | nothing =>
      simp only [protocol, holding]
      refine kept.learn nofun fun digest is => ⟨i, ?_⟩
      exact Option.some.inj is ▸ found
  | synced part j =>
      simp only [protocol, holding]
      split
      · rename_i same
        subst same
        refine kept.learn (fun part' i' file => ?_) nofun
        have had : (known q).holding.file = some (p, j) := holding ▸ rfl
        obtain ⟨rfl, rfl⟩ := Prod.mk.inj (Option.some.inj file)
        have holds := kept.holds q p j had
        cases holds.entry.symm.trans found
        exact ⟨had, holds.isStaging, holds.entry, holds.apart,
          fun _ => holds.synced (holding ▸ rfl), fun _ is => Option.some.inj is⟩
      · exact kept.same
  | _ =>
      simp only [protocol, holding]
      exact kept.same

/-- Whatever the protocol allows keeps the disk, and a blob is read as it was put. -/
theorem Kept.call {c : Call} {r : Reply c} (kept : Kept H root known d)
    (allowed : (protocol H root).allows (known q) c) (done : Disk.Exec d c r d') :
    (protocol H root).answers (known q) c r ∧
      Kept H root (Function.update known q ((protocol H root).learn (known q) c r)) d' := by
  cases done with
  | fails c errno =>
      cases c with
      | unlink p => exact ⟨trivial, kept.forget⟩
      | replace part final => exact ⟨trivial, kept.forget⟩
      | _ => exact ⟨trivial, kept.same⟩
  | isThere p => exact ⟨trivial, kept.same⟩
  | mkdir p free parent => exact ⟨trivial, kept.made free⟩
  | openNew p free parent =>
      obtain ⟨uuid, rfl⟩ := allowed
      exact ⟨trivial, kept.opened uuid free⟩
  | fdopen fd => exact ⟨trivial, kept.same⟩
  | write fd data left r =>
      obtain ⟨part, holding⟩ := allowed
      refine ⟨by cases r <;> trivial, ?_⟩
      have file : (known q).holding.file = some (part, fd) := holding ▸ rfl
      have learns : (protocol H root).learn (known q) (.write fd data) r = known q := by
        cases r <;> rfl
      rw [learns]
      refine kept.inside file file rfl rfl rfl ?_ ?_ ?_ ?_ ?_
      · exact fun j other => Function.update_of_ne other _ _
      · exact fun j other => Function.update_of_ne other _ _
      · exact fun synced => nomatch (holding ▸ synced : Holding.isSynced (.writing part fd) = true)
      · exact holding ▸ rfl
      · exact .inl rfl
  | fsync fd =>
      obtain ⟨part, holding⟩ := allowed
      refine ⟨trivial, ?_⟩
      have file : (known q).holding.file = some (part, fd) := holding ▸ rfl
      have learns : (protocol H root).learn (known q) (.fsync fd) (.ok ()) =
          ⟨.synced part fd, none⟩ := by
        simp only [protocol, holding]
      rw [learns]
      refine kept.inside file rfl rfl rfl rfl ?_ ?_ ?_ ?_ ?_
      · exact fun _ _ => rfl
      · exact fun j other => Function.update_of_ne other _ _
      · exact fun _ => Function.update_self ..
      · rfl
      · exact .inr rfl
  | close fd => exact ⟨trivial, kept.same⟩
  | read p i found =>
      refine ⟨?_, ?_⟩
      · rintro digest rfl
        exact (kept.blobs digest i (kept.linked _ i found)).1
      · exact kept.reads found
  | unlink p i found =>
      obtain ⟨i', file⟩ := allowed
      exact ⟨trivial, kept.removed file⟩
  | unlinkMissing p absent => exact ⟨trivial, kept.forget⟩
  | replace part final i found apart free parent =>
      obtain ⟨i', read, checked, rfl⟩ := allowed
      have holds := kept.holds q part i' (checked ▸ rfl)
      cases holds.entry.symm.trans found
      exact ⟨trivial, kept.replaced checked rfl⟩
  | chmod p => exact ⟨trivial, kept.same⟩

end Kept

/-! ## What the programs may do -/

section Follows

variable {H root} {α : Type} {Q : α → Known → Prop} {E : Exc → Known → Prop} {k : Known}

theorem follows_os {c : Call} {Q : Answer c → Known → Prop} :
    (protocol H root).Follows Q E (os c) k ↔ (protocol H root).allows k c ∧
      (∀ a, (protocol H root).answers k c (.ok a) → Q a ((protocol H root).learn k c (.ok a))) ∧
      ∀ errno, (protocol H root).answers k c (.error errno) →
        E (.os errno) ((protocol H root).learn k c (.error errno)) := by
  rw [os, Protocol.follows_ask]
  refine and_congr_right fun _ => ⟨fun all => ⟨fun a => all (.ok a), fun n => all (.error n)⟩, ?_⟩
  rintro ⟨answered, failed⟩ (errno | a) may
  · exact failed errno may
  · exact answered a may

/-- A call that is always allowed and teaches nothing. -/
theorem follows_idle {c : Call} {Q : Answer c → Known → Prop}
    (allowed : (protocol H root).allows k c) (same : ∀ r, (protocol H root).learn k c r = k)
    (returns : ∀ a, Q a k) (raises : ∀ errno, E (.os errno) k) :
    (protocol H root).Follows Q E (os c) k := by
  refine follows_os.2 ⟨allowed, fun a _ => ?_, fun errno _ => ?_⟩
  · rw [same]
    exact returns a
  · rw [same]
    exact raises errno

theorem follows_missingOf {Q : List Path → Known → Prop} (returns : ∀ made, Q made k)
    (raises : ∀ errno, E (.os errno) k) :
    ∀ probes made, (protocol H root).Follows Q E (missingOf probes made) k
  | [], made => returns made
  | probe :: parents, made => by
      rw [missingOf, Protocol.follows_bind]
      refine follows_idle trivial (fun r => by cases r <;> rfl) (fun there => ?_) raises
      cases there with
      | true => exact returns made
      | false => exact follows_missingOf returns raises parents (probe :: made)

theorem follows_mkdirs {Q : Unit → Known → Prop} (returns : Q () k)
    (raises : ∀ errno, E (.os errno) k) :
    ∀ paths, (protocol H root).Follows Q E (mkdirs paths) k
  | [] => returns
  | created :: rest => by
      rw [mkdirs, Protocol.follows_bind]
      exact follows_idle trivial (fun r => by cases r <;> rfl)
        (fun _ => follows_mkdirs returns raises rest) raises

theorem follows_secureMkdir {Q : Unit → Known → Prop} (path : Path) (returns : Q () k)
    (raises : ∀ errno, E (.os errno) k) :
    (protocol H root).Follows Q E (secureMkdir path) k := by
  rw [secureMkdir, Protocol.follows_bind]
  exact follows_missingOf (fun made => follows_mkdirs returns raises made) raises _ _

/-- A blob is held only if a file was seen there. -/
theorem follows_isHeld {Q : Bool → Known → Prop} {digest : Text} {final : Path}
    (held : Q true ⟨.nothing, some final⟩) (not_ : ∀ seen, Q false ⟨.nothing, seen⟩)
    (raises : ∀ errno, E (.os errno) fresh) :
    (protocol H root).Follows Q E (isHeld H digest final) fresh := by
  rw [isHeld, Protocol.follows_bind]
  refine follows_idle trivial (fun r => by cases r <;> rfl) (fun there => ?_) raises
  cases there with
  | false => exact not_ none
  | true =>
      rw [if_pos rfl, Protocol.follows_bind, Protocol.follows_attempt]
      refine follows_os.2 ⟨trivial, fun found _ => ?_, fun errno _ => not_ none⟩
      by_cases same : H.hexdigest found = digest
      · change Q (decide _) ⟨.nothing, some final⟩
        rw [decide_eq_true same]
        exact held
      · change Q (decide _) ⟨.nothing, some final⟩
        rw [decide_eq_false same]
        exact not_ _

theorem follows_fill {Q : Unit → Known → Prop} {part : Path} {fd : ℕ} (data : Bytes)
    {seen : Option Path} (returns : Q () ⟨.synced part fd, none⟩)
    (raises : ∀ errno k, k.holding.file = some (part, fd) → E (.os errno) k) :
    (protocol H root).Follows Q E (fill fd data) ⟨.writing part fd, seen⟩ := by
  rw [fill, Protocol.follows_bind]
  refine follows_idle trivial (fun r => by cases r <;> rfl) (fun _ => ?_)
    fun errno => raises errno _ rfl
  rw [Protocol.follows_bind, Protocol.follows_attempt, Protocol.follows_bind]
  have closes {raised : ℕ} {k : Known} (file : k.holding.file = some (part, fd)) :
      (protocol H root).Follows Q E (do os (.close fd); .raise (.os raised)) k := by
    rw [Protocol.follows_bind]
    exact follows_idle trivial (fun r => by cases r <;> rfl) (fun _ => raises raised k file)
      fun errno => raises errno k file
  refine follows_idle ⟨part, rfl⟩ (fun r => by cases r <;> rfl) (fun _ => ?_) fun _ => closes rfl
  refine follows_os.2 ⟨⟨part, rfl⟩, fun _ _ => ?_, fun _ _ => closes rfl⟩
  exact follows_idle trivial (fun r => by cases r <;> rfl) (fun _ => returns)
    fun errno => raises errno _ rfl

/-- What gets its final name has been read back. -/
theorem follows_install {Q : Unit → Known → Prop} {digest : Text} {part : Path} {i : ℕ}
    (returns : Q () ⟨.nothing, some (blobPath root digest)⟩)
    (raises : ∀ errno k, E (.os errno) k) (mismatch : E (.mismatchWriting digest) fresh) :
    (protocol H root).Follows Q E (install H digest part (blobPath root digest))
      ⟨.synced part i, none⟩ := by
  rw [install, Protocol.follows_bind]
  refine follows_os.2 ⟨trivial, fun written _ => ?_, fun errno _ => raises errno _⟩
  have checked : (protocol H root).learn ⟨.synced part i, none⟩ (.read part) (.ok written) =
      ⟨.checked part i written, none⟩ := if_pos rfl
  rw [checked]
  split
  · rename_i same
    rw [Protocol.follows_bind]
    refine follows_os.2 ⟨⟨i, written, rfl, same ▸ rfl⟩, fun _ _ => ?_,
      fun errno _ => raises errno _⟩
    exact follows_idle trivial (fun r => by cases r <;> rfl) (fun _ => returns)
      fun errno => raises errno _
  · rw [Protocol.follows_bind]
    exact follows_os.2 ⟨⟨i, rfl⟩, fun _ _ => mismatch, fun errno _ => raises errno _⟩

theorem follows_put {Q : Text × ℕ → Known → Prop} (uuid : Text) (data : Bytes)
    (returns : ∀ h, Q (H.hexdigest data, data.length)
      ⟨h, some (blobPath root (H.hexdigest data))⟩)
    (raises : ∀ errno k, E (.os errno) k)
    (mismatch : E (.mismatchWriting (H.hexdigest data)) fresh) :
    (protocol H root).Follows Q E (put H root uuid data) fresh := by
  rw [put, Protocol.follows_bind, pathFor, if_pos (H.hex data), Protocol.follows_pure,
    Protocol.follows_bind]
  refine follows_isHeld (returns _) (fun seen => ?_) fun errno => raises errno _
  rw [if_neg Bool.false_ne_true, Protocol.follows_bind]
  refine follows_secureMkdir _ ?_ fun errno => raises errno _
  rw [Protocol.follows_bind]
  refine follows_os.2 ⟨⟨uuid, rfl⟩, fun fd _ => ?_, fun errno _ => raises errno _⟩
  rw [Protocol.follows_bind, Protocol.follows_attempt]
  refine follows_fill data ?_ fun errno k file => ?_
  · rw [Protocol.follows_bind]
    exact follows_install (returns _) raises mismatch
  · rw [Protocol.follows_bind, Protocol.follows_attempt]
    have gives : (protocol H root).Follows Q E
        (do os (.unlink (staging root uuid)); .raise (.os errno)) k := by
      rw [Protocol.follows_bind]
      exact follows_os.2 ⟨⟨fd, file⟩, fun _ _ => raises errno _, fun errno _ => raises errno _⟩
    exact follows_idle trivial (fun r => by cases r <;> rfl) (fun _ => gives) fun _ => gives

/-- Nothing is given out under another digest, and no blob is found to be corrupt. -/
theorem follows_get {Q : Bytes → Known → Prop} (digest : Text) (expectedLen : Option ℤ)
    (returns : ∀ data k, H.hexdigest data = digest →
      (∀ n, expectedLen = some n → n = (data.length : ℤ)) → Q data k)
    (raises : ∀ e k, e ≠ .failedVerification digest → E e k) :
    (protocol H root).Follows Q E (get H root digest expectedLen) fresh := by
  rw [get, Protocol.follows_bind, pathFor]
  split
  · rw [Protocol.follows_pure, Protocol.follows_bind]
    refine follows_idle trivial (fun r => by cases r <;> rfl) (fun there => ?_)
      fun errno => raises _ _ nofun
    cases there with
    | false => exact raises _ _ nofun
    | true =>
        rw [if_pos rfl, Protocol.follows_bind]
        refine follows_os.2 ⟨trivial, fun data verified => ?_, fun errno _ => raises _ _ nofun⟩
        cases other : expectedLen.filter fun n : ℤ => n ≠ (data.length : ℤ) with
        | some n => exact raises _ _ nofun
        | none =>
            have same : H.hexdigest data = digest := verified digest rfl
            change (protocol H root).Follows Q E (if H.hexdigest data = digest then _ else _) _
            rw [if_pos same]
            refine returns data _ same fun n is => ?_
            rw [is, Option.filter_eq_none_iff] at other
            simpa using other n rfl
  · exact raises _ _ nofun

end Follows

/-! ## Every run -/

/-- What a job returns and what it may raise. -/
def returned (H : Sha256) (root : Path) : Job → Result → Known → Prop
  | .put _ data, .stored digest length, k =>
      digest = H.hexdigest data ∧ length = data.length ∧ k.seen = some (blobPath root digest)
  | .get digest expectedLen, .got data, _ =>
      H.hexdigest data = digest ∧ ∀ n, expectedLen = some n → n = (data.length : ℤ)
  | .opens, .opened, _ => True
  | _, _, _ => False

def raised : Job → Exc → Known → Prop
  | .get digest _, e, _ => e ≠ .failedVerification digest
  | _, _, _ => True

variable {H root}

theorem program_follows (job : Job) : (protocol H root).Follows (returned H root job)
    (raised job) (program H root job) fresh := by
  cases job with
  | opens =>
      rw [program, Protocol.follows_bind]
      exact follows_secureMkdir _ trivial fun _ => trivial
  | put uuid data =>
      rw [program, Protocol.follows_bind]
      exact follows_put uuid data (fun _ => ⟨rfl, rfl, rfl⟩) (fun _ _ => trivial) trivial
  | get digest expectedLen =>
      rw [program, Protocol.follows_bind]
      exact follows_get digest expectedLen (fun _ _ same length => ⟨same, length⟩)
        fun _ _ other => other

variable {ι : Type} [DecidableEq ι]

theorem store_keeps : Interleaved.Keeps (store H root) (protocol H root) fresh
    (Kept (ι := ι) H root) (returned H root) raised where
  start d start := by
    obtain ⟨noLinks, noFiles⟩ := start
    refine ⟨?_, ?_, ?_, nofun, nofun, nofun⟩
    · exact fun _ _ there => nomatch noLinks ▸ there
    · exact fun p i there => absurd there (noFiles p i)
    · exact fun _ _ there => nomatch noLinks ▸ there
  follows := program_follows
  forget _ _ _ kept := kept.forget
  call _ _ _ _ _ _ kept allowed done := kept.call allowed done
  outage known d d' kept lost := by
    refine ⟨fun digest i there => ?_, fun p i there => ?_, fun p i there => ?_, nofun, nofun, nofun⟩
    · rw [lost.links] at there
      obtain ⟨named, durable⟩ := kept.blobs digest i there
      rw [lost.bytes i durable, lost.durable]
      exact ⟨named, durable⟩
    · exact lost.links ▸ lost.entry p i there
    · rw [lost.links] at there
      exact lost.born ▸ kept.born p i there

variable {w w' : Processes Disk ι Job Call Reply Exc Result} {p : ι}
  {rest : List (Interleaved.Event ι Job Call Reply)} {uuid digest : Text} {data : Bytes}
  {result : Result} {i : ℕ}

/-- Whatever runs beside it and whatever fails, a file that has a blob's name has that digest, and
what `get` gives out is what was asked for: its verification never fails. -/
theorem blobs_verified (reached : ((store H root).system ι).Reachable w) :
    (∀ digest i, w.shared.entry (blobPath root digest) = some (.file i) →
      H.hexdigest (w.shared.bytes i) = digest) ∧
    ∀ p digest expectedLen m, w.running p = some (.get digest expectedLen, m) →
      (∀ result, m = .ret result → ∃ data, result = .got data ∧ H.hexdigest data = digest ∧
        ∀ n, expectedLen = some n → n = (data.length : ℤ)) ∧
      m ≠ .raise (.failedVerification digest) := by
  obtain ⟨known, kept, all⟩ := store_keeps.sound reached
  refine ⟨fun digest i there => (kept.blobs digest i (kept.linked _ i there)).1, ?_⟩
  intro p digest expectedLen m at_
  have follows := all p _ m at_
  refine ⟨?_, ?_⟩
  · rintro result rfl
    cases result with
    | got data => exact ⟨data, rfl, follows⟩
    | opened => exact follows.elim
    | stored digest length => exact follows.elim
  · rintro rfl
    exact follows rfl

/-- The runs that go on from a state without an outage. -/
def calmFrom (H : Sha256) (root : Path) (w : Processes Disk ι Job Call Reply Exc Result) :
    System (Processes Disk ι Job Call Reply Exc Result) (Interleaved.Event ι Job Call Reply) :=
  (((store H root).system ι).startingAt w).restrict fun _ e => e ≠ .outage

theorem stays_later (reached : ((store H root).system ι).Reachable w)
    (there : ∃ i, w.shared.entry (blobPath root digest) = some (.file i))
    (later : (calmFrom H root w).History rest w') : ((store H root).system ι).Reachable w' ∧
      ∃ i, w'.shared.entry (blobPath root digest) = some (.file i) := by
  induction later with
  | start same => exact same ▸ ⟨reached, there⟩
  | step _ st ih =>
      obtain ⟨reached, i, there⟩ := ih
      obtain ⟨st, calm⟩ := st
      refine ⟨reached.step st, ?_⟩
      obtain ⟨known, kept, all⟩ := store_keeps.sound reached
      cases st with
      | begins p job free => exact ⟨i, there⟩
      | calls at_ done => exact kept.stays (all _ _ _ at_).1 done there
      | outage lost => exact absurd rfl calm

/-- What was put stays, synced and under its digest, until an outage at the earliest. -/
theorem stored_stays (reached : ((store H root).system ι).Reachable w)
    (stored : w.running p = some (.put uuid data, .ret result))
    (later : (calmFrom H root w).History rest w') :
    result = .stored (H.hexdigest data) data.length ∧
      ∃ i, w'.shared.entry (blobPath root (H.hexdigest data)) = some (.file i) ∧
        H.hexdigest (w'.shared.bytes i) = H.hexdigest data ∧ w'.shared.durable i = true := by
  obtain ⟨known, kept, all⟩ := store_keeps.sound reached
  have follows := all p _ _ stored
  cases result with
  | got data => exact follows.elim
  | opened => exact follows.elim
  | stored digest length =>
      obtain ⟨rfl, rfl, seen⟩ := follows
      obtain ⟨reached', i, there⟩ := stays_later reached (kept.seen p _ seen) later
      obtain ⟨known', kept', -⟩ := store_keeps.sound reached'
      obtain ⟨named, durable⟩ := kept'.blobs _ i (kept'.linked _ i there)
      exact ⟨rfl, i, there, named, durable⟩

/-- The digest of no bytes. -/
def ofNothing : Sha256 where
  hexdigest _ := text "e3b0c44298fc1c149afbf4c8996fb92427ae41e4649b934ca495991b7852b855"
  hex _ := by decide

/-- Two levels of directories and no files. -/
def emptyDisk : Disk where
  entry p :=
    if p.length ≤ 1 ∨ p.length = 2 ∧ p.head? ≠ some (text "tmp") then some .directory else none
  bytes _ := []
  durable _ := false
  born := 0
  links := []

theorem emptyDisk_starts : ((store ofNothing []).system Unit).Reachable
    ⟨emptyDisk, fun _ => none⟩ := by
  refine .init ⟨⟨rfl, fun p i there => ?_⟩, fun _ => rfl⟩
  change (if _ then _ else _) = _ at there
  split at there
  · cases there
  · cases there

/-- The disk after nothing was put on it. -/
def storedDisk : Disk :=
  ((((emptyDisk.create.link (staging [] []) 0).fill 0 []).sync 0).link
    (blobPath [] (ofNothing.hexdigest [])) 0).unlink (staging [] [])

theorem stored_alone : Interleaved.Alone (store ofNothing []) emptyDisk
    (program ofNothing [] (.put [] [])) storedDisk
    (.ret (.stored (ofNothing.hexdigest []) 0)) := by
  refine .call (.isThere _ _) ?_
  refine .call (.isThere _ _) ?_
  refine .call (.openNew _ _ (by decide) (by decide)) ?_
  refine .call (.fdopen _ _) ?_
  refine .call (.write _ _ _ [] (.ok ())) ?_
  refine .call (.fsync _ _) ?_
  refine .call (.close _ _) ?_
  refine .call (.read _ _ 0 (by decide)) ?_
  refine .call (.replace _ _ _ 0 (by decide) (by decide) (by decide) (by decide)) ?_
  refine .call (.chmod _ _) ?_
  exact .rest _ _

/-- The process that put it there. -/
def storing : Processes Disk Unit Job Call Reply Exc Result :=
  ⟨storedDisk, Function.update (fun _ => none) ()
    (some (.put [] [], .ret (.stored (ofNothing.hexdigest []) 0)))⟩

theorem storing_running : storing.running () =
    some (.put [] [], .ret (.stored (ofNothing.hexdigest []) 0)) := rfl

theorem storing_reached : ((store ofNothing []).system Unit).Reachable storing := by
  have begun : Interleaved.Step (store ofNothing []) ⟨emptyDisk, fun _ : Unit => none⟩ _ _ :=
    .begins () (.put [] []) (by simp)
  exact stored_alone.reachable (emptyDisk_starts.step begun)

theorem nothing_verified : storedDisk.entry (blobPath [] (ofNothing.hexdigest [])) =
      some (.file 0) ∧
    ofNothing.hexdigest (storedDisk.bytes 0) = ofNothing.hexdigest [] :=
  ⟨by decide, (blobs_verified storing_reached).1 _ 0 (by decide)⟩

theorem nothing_stays : ∃ i, storedDisk.entry (blobPath [] (ofNothing.hexdigest [])) =
      some (.file i) ∧
    ofNothing.hexdigest (storedDisk.bytes i) = ofNothing.hexdigest [] ∧
    storedDisk.durable i = true := by
  have begun : Interleaved.Step (store ofNothing []) storing _ _ :=
    .begins () .opens fun running at_ => by
      cases storing_running.symm.trans at_
      rfl
  have later : (calmFrom ofNothing [] storing).History _ _ := .step (.start rfl) ⟨begun, nofun⟩
  exact (stored_stays storing_reached storing_running later).2

end Hx.Blobs
