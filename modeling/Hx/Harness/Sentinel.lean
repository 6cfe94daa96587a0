import Hx.Harness.Halt
import Hx.Library.Filesystem
import Hx.Send.HaltSwitch

/-!
# Two readers of one sentinel

The extension's poller and the harness look at the same path through different
calls. The poller reads the name itself and, when the name is absent, asks whether
the parent is a directory; the harness follows the path with `os.stat` and takes
`FileNotFoundError` for "no halt".

Whatever the harness calls halted the poller calls halted. The converse fails where
following the path ends at nothing although an absence was not confirmed.
-/

namespace Hx.Harness

open Hx.Java Hx.Library Hx.Send

namespace Sentinel

/-- `readAttributes` on the parent, links followed. -/
def parentLook (text : Errno → JString) (parentText : JString) (t : FileTree String) (links : Nat)
    (parent : List String) : HaltSwitch.Parent :=
  match t.stat links parent with
  | .ok (.directory _) => .directory
  | .ok _ => .notDirectory parentText
  | .error e => .unreadable parentText (text e)

/-- `readAttributes` on the sentinel with `NOFOLLOW_LINKS`. A parent that is a regular
file answers `NoSuchFileException` as a missing one does. -/
def look (text : Errno → JString) (parentText : JString) (t : FileTree String) (links : Nat)
    (parent : List String) (name : String) : HaltSwitch.Look :=
  match t.lstat links parent name with
  | .ok _ => .present
  | .error .noEntry => .noSuchFile (parentLook text parentText t links parent)
  | .error .notDirectory => .noSuchFile (parentLook text parentText t links parent)
  | .error e => .unreadable (text e)

/-- `os.stat` on the sentinel; `read` is what reading its text would give. -/
def osStat (read : Option String) (t : FileTree String) (links : Nat) (path : List String) :
    Sentinel :=
  match t.stat links path with
  | .ok _ => .present read
  | .error .noEntry => .absent
  | .error _ => .unreadable

/-- The extension's poll of an engagement directory reports a halt. -/
def JavaHalted (sw : HaltSwitch) (text : Errno → JString) (parentText : JString)
    (t : FileTree String) (links : Nat) (parent : List String) : Prop :=
  (sw.pollOnce (look text parentText t links parent sentinelName)).isSome

/-- The harness's look at the same directory reports a halt. -/
def PythonHalted (disk : Disk) (read : Option String) (t : FileTree String) (links : Nat)
    (parent : List String) : Prop :=
  OperatorHalt.sentinelPresent
    { disk with sentinel := osStat read t links (parent ++ [sentinelName]) }

variable {sw : HaltSwitch} {text : Errno → JString} {parentText : JString} {disk : Disk}
  {read : Option String} {t : FileTree String} {links : Nat} {parent : List String}

theorem pythonHalted_iff :
    PythonHalted disk read t links parent ↔
      t.stat links (parent ++ [sentinelName]) ≠ .error .noEntry := by
  rw [PythonHalted, OperatorHalt.sentinelPresent, osStat]
  cases t.stat links (parent ++ [sentinelName]) with
  | ok n => simp
  | error e => cases e <;> simp

theorem parentLook_eq_directory :
    parentLook text parentText t links parent = .directory ↔
      ∃ searchable, t.stat links parent = .ok (.directory searchable) := by
  rw [parentLook]
  cases t.stat links parent with
  | error e => simp
  | ok n => cases n <;> simp

theorem parentIsNotADirectory_eq_none {p : HaltSwitch.Parent} :
    sw.parentIsNotADirectory p = none ↔ p = .directory := by
  cases p <;> simp [HaltSwitch.parentIsNotADirectory]

/-- The one look that does not halt: the name is absent from a directory that the
parent was confirmed to be. -/
theorem javaHalted_iff :
    JavaHalted sw text parentText t links parent ↔
      ¬ ((t.lstat links parent sentinelName = .error .noEntry ∨
          t.lstat links parent sentinelName = .error .notDirectory) ∧
        ∃ searchable, t.stat links parent = .ok (.directory searchable)) := by
  have unconfirmed := @parentIsNotADirectory_eq_none sw (parentLook text parentText t links parent)
  rw [parentLook_eq_directory] at unconfirmed
  rw [JavaHalted, look, ← unconfirmed, Option.isSome_iff_ne_none, ne_eq, not_iff_not]
  cases t.lstat links parent sentinelName with
  | ok n => simp [HaltSwitch.pollOnce]
  | error e => cases e <;> simp [HaltSwitch.pollOnce]

theorem lstat_of_resolve {left : Nat} {dir : List String} {name : String}
    (h : t.resolve links [] parent = .ok (left, dir)) :
    t.lstat links parent name = t.child dir name := by
  rw [FileTree.lstat, h]
  rfl

/-- A name absent from the directory its parent leads to. -/
theorem not_javaHalted_of_absent {left : Nat} {dir : List String}
    (resolved : t.resolve links [] parent = .ok (left, dir))
    (absent : t.child dir sentinelName = .error .noEntry) :
    ¬ JavaHalted sw text parentText t links parent := by
  obtain ⟨n, found⟩ := FileTree.node_of_resolve t.root resolved
  have searchable := FileTree.directory_of_child_noEntry found absent
  rw [javaHalted_iff, not_not]
  exact ⟨.inl ((lstat_of_resolve resolved).trans absent), true,
    FileTree.stat_of_resolve resolved searchable⟩

/-- An absence the extension confirmed is one the harness meets. -/
theorem javaHalted_of_pythonHalted (h : PythonHalted disk read t links parent) :
    JavaHalted sw text parentText t links parent := by
  rw [javaHalted_iff]
  rintro ⟨absent, searchable, confirmed⟩
  apply pythonHalted_iff.1 h
  cases resolved : t.resolve links [] parent with
  | error e =>
      rw [FileTree.stat_of_resolve_error resolved] at confirmed
      contradiction
  | ok r =>
      obtain ⟨left, dir⟩ := r
      obtain ⟨n, found⟩ := FileTree.node_of_resolve t.root resolved
      rw [FileTree.stat_of_resolve resolved found] at confirmed
      rw [Except.ok.inj confirmed] at found
      rw [lstat_of_resolve resolved] at absent
      apply FileTree.stat_concat_noEntry_iff.2
      exact .inr (.inr ⟨left, dir, resolved, FileTree.noEntry_of_child_directory found absent⟩)

/-- The harness follows the extension's halts exactly where following the path does
not end at nothing before an absence is confirmed: no component of the engagement
directory is missing, and the sentinel is not a link to nothing. -/
theorem pythonHalted_of_javaHalted_iff :
    (JavaHalted sw text parentText t links parent → PythonHalted disk read t links parent) ↔
      ¬ t.Vanished links parent ∧ ¬ t.Dangling links parent sentinelName := by
  constructor
  · intro agrees
    constructor
    · intro vanished
      have python : PythonHalted disk read t links parent := by
        apply agrees
        rw [javaHalted_iff, FileTree.stat_of_resolve_error vanished]
        rintro ⟨_, searchable, confirmed⟩
        contradiction
      exact pythonHalted_iff.1 python (FileTree.stat_concat_noEntry_iff.2 (.inl vanished))
    · intro dangling
      have python : PythonHalted disk read t links parent := by
        apply agrees
        obtain ⟨left, dir, target, resolved, entry, _⟩ := dangling
        rw [javaHalted_iff, lstat_of_resolve resolved, entry]
        rintro ⟨absent, _⟩
        simp at absent
      exact pythonHalted_iff.1 python (FileTree.stat_concat_noEntry_iff.2 (.inr (.inl dangling)))
  · rintro ⟨present, live⟩ java
    rw [pythonHalted_iff]
    intro missing
    rcases FileTree.stat_concat_noEntry_iff.1 missing with vanished | dangling | absent
    · exact present vanished
    · exact live dangling
    · obtain ⟨left, dir, resolved, gone⟩ := absent
      exact not_javaHalted_of_absent resolved gone java

/-- An engagement directory that holds nothing but the sentinel, a link to a name
that is not there. -/
def danglingTree : FileTree String where
  node path :=
    if path = [] then some (.directory true)
    else if path = [sentinelName] then some (.link ["gone"])
    else none
  searchable := true
  root := rfl

theorem dangling_sentinel_disagrees :
    ¬ ∀ (sw : HaltSwitch) (text : Errno → JString) (parentText : JString) (disk : Disk)
      (read : Option String) (t : FileTree String) (links : Nat) (parent : List String),
      JavaHalted sw text parentText t links parent → PythonHalted disk read t links parent := by
  intro agrees
  have bound := pythonHalted_of_javaHalted_iff.1 (agrees HaltSwitch.production (fun _ => []) []
    ⟨.absent, [], []⟩ none danglingTree 40 [])
  apply bound.2
  have gone : danglingTree.child [] "gone" = .error .noEntry := by decide
  exact ⟨39, [], ["gone"], FileTree.resolve_nil, by decide, FileTree.resolve_cons_error gone⟩

end Sentinel

end Hx.Harness
