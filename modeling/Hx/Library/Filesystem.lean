import Mathlib.Data.List.Basic

/-!
# Path resolution with symbolic links

A tree gives a node to every canonical path that exists. Resolution walks a path
one component at a time; every link it meets costs one of a bounded number, so a
looping link ends in an error and not in a loop. `stat` follows a link in the last
component and `lstat` does not; both follow every link before it.
-/

namespace Hx.Library

universe u

/-- Why a lookup fails. -/
inductive Errno where
  | noEntry
  | notDirectory
  | denied
  | loop
  | io
  deriving DecidableEq

/-- What a name stands for. Link targets are absolute; a directory that may not be
searched hides its entries, a faulty entry cannot be read at all. -/
inductive Node (ν : Type u) where
  | file
  | directory (searchable : Bool)
  | link (target : List ν)
  | faulty
  deriving DecidableEq

/-- The nodes of a filesystem by canonical path. -/
structure FileTree (ν : Type u) where
  node : List ν → Option (Node ν)
  searchable : Bool
  root : node [] = some (.directory searchable)

namespace FileTree

variable {ν : Type u}

/-- The entry `name` of the directory at a canonical path. -/
def child (t : FileTree ν) (dir : List ν) (name : ν) : Except Errno (Node ν) :=
  match t.node dir with
  | none => .error .noEntry
  | some (.directory true) =>
      match t.node (dir ++ [name]) with
      | none => .error .noEntry
      | some .faulty => .error .io
      | some n => .ok n
  | some (.directory false) => .error .denied
  | some .faulty => .error .io
  | some _ => .error .notDirectory

/-- Follow a path from a canonical directory. The result is the canonical path it
leads to and the number of links left. -/
def resolve (t : FileTree ν) (links : Nat) (dir : List ν) :
    List ν → Except Errno (Nat × List ν)
  | [] => .ok (links, dir)
  | name :: rest =>
      match t.child dir name with
      | .error e => .error e
      | .ok (.link target) =>
          match links with
          | 0 => .error .loop
          | left + 1 => t.resolve left [] (target ++ rest)
      | .ok _ => t.resolve links (dir ++ [name]) rest
termination_by path => (links, path.length)

/-- What an absolute path leads to, every link followed. -/
def stat (t : FileTree ν) (links : Nat) (path : List ν) : Except Errno (Node ν) :=
  (t.resolve links [] path).bind fun r =>
    match t.node r.2 with
    | none => .error .noEntry
    | some n => .ok n

/-- The entry `name` of the directory a path leads to, itself not followed. -/
def lstat (t : FileTree ν) (links : Nat) (parent : List ν) (name : ν) : Except Errno (Node ν) :=
  (t.resolve links [] parent).bind fun r => t.child r.2 name

variable {t : FileTree ν} {links : Nat} {dir : List ν} {name : ν} {rest : List ν}

@[simp] theorem resolve_nil : t.resolve links dir [] = .ok (links, dir) := by
  rw [resolve]

theorem resolve_cons_error {e : Errno} (h : t.child dir name = .error e) :
    t.resolve links dir (name :: rest) = .error e := by
  rw [resolve, h]

theorem resolve_cons_loop {target : List ν} (h : t.child dir name = .ok (.link target)) :
    t.resolve 0 dir (name :: rest) = .error .loop := by
  rw [resolve, h]

theorem resolve_cons_link {target : List ν} (h : t.child dir name = .ok (.link target)) :
    t.resolve (links + 1) dir (name :: rest) = t.resolve links [] (target ++ rest) := by
  rw [resolve, h]

theorem resolve_cons_step {n : Node ν} (h : t.child dir name = .ok n)
    (plain : ∀ target, n ≠ .link target) :
    t.resolve links dir (name :: rest) = t.resolve links (dir ++ [name]) rest := by
  cases n with
  | link target => exact absurd rfl (plain target)
  | _ => rw [resolve, h]

/-- Resolution of a path goes through the directory of each of its prefixes. -/
theorem resolve_append (p q : List ν) :
    t.resolve links dir (p ++ q) =
      (t.resolve links dir p).bind fun r => t.resolve r.1 r.2 q := by
  induction links, dir, p using resolve.induct t with
  | case1 links dir => simp [Except.bind]
  | case2 links dir name rest e h =>
      rw [List.cons_append, resolve_cons_error h, resolve_cons_error h]
      rfl
  | case3 dir name rest target h =>
      rw [List.cons_append, resolve_cons_loop h, resolve_cons_loop h]
      rfl
  | case4 dir name rest target h left ih =>
      rw [List.cons_append, resolve_cons_link h, resolve_cons_link h, ← ih, List.append_assoc]
  | case5 links dir name rest n plain h ih =>
      rw [List.cons_append, resolve_cons_step h plain, resolve_cons_step h plain, ih]

/-- A child is there only under a directory that may be searched. -/
theorem child_eq_ok {n : Node ν} (h : t.child dir name = .ok n) :
    t.node (dir ++ [name]) = some n := by
  unfold child at h
  split at h <;> try contradiction
  split at h <;> try contradiction
  rename_i found
  rw [found, Except.ok.inj h]

/-- A name is missing from a directory that exists only if that is a directory that
may be searched. -/
theorem directory_of_child_noEntry {n : Node ν} (exists_ : t.node dir = some n)
    (h : t.child dir name = .error .noEntry) : t.node dir = some (.directory true) := by
  rw [child, exists_] at h
  cases n with
  | directory searchable =>
      cases searchable with
      | true => exact exists_
      | false => simp at h
  | _ => simp at h

/-- Under a directory a name is missing only because there is no such entry. -/
theorem noEntry_of_child_directory {searchable : Bool}
    (d : t.node dir = some (.directory searchable))
    (h : t.child dir name = .error .noEntry ∨ t.child dir name = .error .notDirectory) :
    t.child dir name = .error .noEntry := by
  apply h.resolve_right
  rw [child, d]
  cases searchable with
  | false => simp
  | true =>
      cases t.node (dir ++ [name]) with
      | none => simp
      | some n => cases n <;> simp

/-- Resolution ends at a node. -/
theorem node_of_resolve {n : Node ν} {left : Nat} {path at_ : List ν}
    (start : t.node dir = some n) (h : t.resolve links dir path = .ok (left, at_)) :
    ∃ m, t.node at_ = some m := by
  induction links, dir, path using resolve.induct t generalizing n with
  | case1 links dir =>
      obtain ⟨rfl, rfl⟩ := Prod.mk.inj (Except.ok.inj (resolve_nil.symm.trans h))
      exact ⟨n, start⟩
  | case2 links dir name rest e failed =>
      rw [resolve_cons_error failed] at h
      contradiction
  | case3 dir name rest target found =>
      rw [resolve_cons_loop found] at h
      contradiction
  | case4 dir name rest target found left' ih =>
      rw [resolve_cons_link found] at h
      exact ih t.root h
  | case5 links dir name rest m plain found ih =>
      rw [resolve_cons_step found plain] at h
      exact ih (child_eq_ok found) h

/-- A component of the path is missing, or a link before its end leads to nothing. -/
def Vanished (t : FileTree ν) (links : Nat) (path : List ν) : Prop :=
  t.resolve links [] path = .error .noEntry

/-- The name is there, and it is a link to nothing. -/
def Dangling (t : FileTree ν) (links : Nat) (parent : List ν) (name : ν) : Prop :=
  ∃ left dir target, t.resolve links [] parent = .ok (left + 1, dir) ∧
    t.child dir name = .ok (.link target) ∧ t.resolve left [] target = .error .noEntry

theorem stat_of_resolve_error {path : List ν} {e : Errno}
    (h : t.resolve links [] path = .error e) : t.stat links path = .error e := by
  rw [stat, h]
  rfl

theorem stat_of_resolve {path at_ : List ν} {left : Nat} {n : Node ν}
    (h : t.resolve links [] path = .ok (left, at_)) (found : t.node at_ = some n) :
    t.stat links path = .ok n := by
  rw [stat, h]
  simp only [Except.bind]
  rw [found]

theorem stat_noEntry_iff {path : List ν} :
    t.stat links path = .error .noEntry ↔ t.Vanished links path := by
  constructor
  · intro h
    cases resolved : t.resolve links [] path with
    | error e =>
        rw [stat_of_resolve_error resolved] at h
        rw [Vanished, resolved, Except.error.inj h]
    | ok r =>
        obtain ⟨left, at_⟩ := r
        obtain ⟨n, found⟩ := node_of_resolve t.root resolved
        rw [stat_of_resolve resolved found] at h
        contradiction
  · exact stat_of_resolve_error

/-- A name followed to nothing: its directory has vanished, the name is absent, or it
is a link to nothing. -/
theorem stat_concat_noEntry_iff {parent : List ν} :
    t.stat links (parent ++ [name]) = .error .noEntry ↔
      t.Vanished links parent ∨ t.Dangling links parent name ∨
      ∃ left dir, t.resolve links [] parent = .ok (left, dir) ∧
        t.child dir name = .error .noEntry := by
  rw [stat_noEntry_iff, Vanished, Vanished, resolve_append]
  cases resolved : t.resolve links [] parent with
  | error e => simp [Dangling, Except.bind, resolved]
  | ok r =>
      obtain ⟨left, dir⟩ := r
      simp only [Except.bind, Dangling, resolved]
      cases entry : t.child dir name with
      | error e => simp [resolve_cons_error entry, entry]
      | ok n =>
          cases n with
          | link target =>
              cases left with
              | zero => simp [resolve_cons_loop entry, entry]
              | succ left => simp [resolve_cons_link entry, entry]
          | _ => simp [resolve_cons_step entry, entry]

end FileTree

end Hx.Library
