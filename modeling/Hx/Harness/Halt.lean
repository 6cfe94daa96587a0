import Hx.Library.Stages

/-!
# The durable operator halt

`OperatorHalt` keeps an operator's stop in three places: a flag in memory, the
sentinel file the extension polls, and the latest `halt`/`resume` row of the
engagement store. `Disk` is what survives a crash. `halted` reads the flag and
the file only; a restarted harness reads the rows once, then the same two.

`halt` and `resume` are lists of stages. Every stage but the assignments to the
flag may raise, and a crash may fall between any two.
-/

namespace Hx.Harness

open Hx.Library

def sentinelName : String := "HALTED"
def haltTool : String := "halt"
def resumeTool : String := "resume"
def actor : String := "operator"

/-- A row of `agent_action`, the columns the halt log writes and reads. -/
structure Action where
  engagementId : String
  tsUs : Int
  actor : String
  tool : String
  why : String
  deriving DecidableEq

/-- What `os.stat` answers for the sentinel: `FileNotFoundError`, a result, or any
other `OSError`. A file that can be seen may still be unreadable. -/
inductive Sentinel where
  | absent
  | present (text : Option String)
  | unreadable
  deriving DecidableEq

/-- The sentinel and the tables, rows in `rowid` order. -/
structure Disk where
  sentinel : Sentinel
  engagements : List String
  actions : List Action

/-- The object's memory. -/
structure OperatorHalt where
  engagementDir : String
  engagementId : String
  armed : Bool
  why : Option String

namespace OperatorHalt

/-- The row `ORDER BY ts_us DESC, rowid DESC LIMIT 1` selects: of the latest
timestamps the last insertion. -/
def latest : List Action → Option Action
  | [] => none
  | a :: newer =>
      match latest newer with
      | none => some a
      | some b => if a.tsUs ≤ b.tsUs then some b else some a

/-- The `WHERE` clause of the halt log. -/
def logged (engagementId : String) (a : Action) : Bool :=
  a.engagementId == engagementId && (a.tool == haltTool || a.tool == resumeTool)

def lastEvent (engagementId : String) (actions : List Action) : Option Action :=
  latest (actions.filter (logged engagementId))

/-- The store's half of a halt, as the constructor reads it. -/
def rowHalted (engagementId : String) (actions : List Action) : Bool :=
  match lastEvent engagementId actions with
  | none => false
  | some row => row.tool == haltTool

/-- The constructor: refuses a store that does not hold exactly one engagement. -/
def new (engagementDir : String) (disk : Disk) : Except String OperatorHalt :=
  match disk.engagements with
  | [id] =>
      .ok
        { engagementDir := engagementDir
          engagementId := id
          armed := rowHalted id disk.actions
          why := if rowHalted id disk.actions then (lastEvent id disk.actions).map (·.why)
            else none }
  | rows => .error ("expected exactly one engagement row in " ++ engagementDir ++ ", found " ++
      toString rows.length)

def sentinelPath (h : OperatorHalt) : String := h.engagementDir ++ "/" ++ sentinelName

def sentinelPresent (disk : Disk) : Bool :=
  match disk.sentinel with
  | .absent => false
  | .present _ => true
  | .unreadable => true

/-- A union, not an agreement. -/
def halted (h : OperatorHalt) (disk : Disk) : Bool := h.armed || sentinelPresent disk

/-- Python's `str.isspace` on one character. -/
def isSpace (c : Char) : Bool :=
  let n := c.toNat
  (0x09 ≤ n && n ≤ 0x0d) || (0x1c ≤ n && n ≤ 0x20) || n == 0x85 || n == 0xa0 || n == 0x1680 ||
  (0x2000 ≤ n && n ≤ 0x200a) || n == 0x2028 || n == 0x2029 || n == 0x202f || n == 0x205f ||
  n == 0x3000

/-- `" ".join(reason.split())`. -/
def oneLine (reason : String) : String :=
  " ".intercalate (((reason.toList.splitOnP isSpace).filter (· ≠ [])).map String.ofList)

/-- `text.split("\n")[0].strip()`. -/
def firstLine (text : String) : String :=
  String.ofList ((((text.toList.takeWhile (· ≠ '\n')).dropWhile isSpace).reverse.dropWhile
    isSpace).reverse)

def reason (h : OperatorHalt) (disk : Disk) : Option String :=
  if h.armed then h.why
  else match disk.sentinel with
    | .absent => none
    | .present (some text) =>
        some (if firstLine text = "" then h.sentinelPath ++ " exists" else firstLine text)
    | .present none => some (h.sentinelPath ++ " exists but cannot be read")
    | .unreadable => some (h.sentinelPath ++ " exists but cannot be read")

/-- The stages of `halt` in the order the code takes them; the first four are
`_write_sentinel` up to the rename, the next two make the rename durable. -/
inductive HaltStage where
  | openTmp
  | wrapTmp
  | writeTmp
  | replace
  | openDir
  | syncDir
  | arm
  | insert
  deriving DecidableEq

def haltStages : List HaltStage :=
  [.openTmp, .wrapTmp, .writeTmp, .replace, .openDir, .syncDir, .arm, .insert]

/-- One call of `halt`: its reason and what its two clock calls return. -/
structure HaltCall where
  reason : String
  writtenUs : Int
  insertedUs : Int

def sentinelText (c : HaltCall) : String :=
  oneLine c.reason ++ "\n" ++ toString c.writtenUs ++ "\n"

def haltRow (h : OperatorHalt) (c : HaltCall) : Action :=
  ⟨h.engagementId, c.insertedUs, actor, haltTool, oneLine c.reason⟩

def resumeRow (h : OperatorHalt) (insertedUs : Int) : Action :=
  ⟨h.engagementId, insertedUs, actor, resumeTool, "operator resumed issuance"⟩

inductive ResumeStage where
  | insert
  | disarm
  | unlink
  deriving DecidableEq

def resumeStages : List ResumeStage := [.insert, .disarm, .unlink]

end OperatorHalt

/-- An operator halt over the store it was opened on: the constructor's check is a
field, and no stage below changes the engagement table. -/
structure Durable where
  operator : OperatorHalt
  disk : Disk
  one : disk.engagements = [operator.engagementId]

namespace Durable

open OperatorHalt

/-- An operator halt over a store that holds its engagement alone. -/
def openedOn (h : OperatorHalt) (sentinel : Sentinel) (actions : List Action) : Durable where
  operator := h
  disk := ⟨sentinel, [h.engagementId], actions⟩
  one := rfl

def halted (d : Durable) : Bool := d.operator.halted d.disk

/-- What a stage of `halt` that does not raise leaves behind. The temporary file is
not the sentinel; connections are autocommit, so a row is there or it is not. -/
def haltEffect (c : HaltCall) : HaltStage → Durable → Durable
  | .replace, d => { d with disk := { d.disk with sentinel := .present (some (sentinelText c)) } }
  | .arm, d => { d with operator := { d.operator with armed := true, why := some (oneLine c.reason) } }
  | .insert, d =>
      { d with disk := { d.disk with actions := d.disk.actions ++ [haltRow d.operator c] } }
  | _, d => d

/-- A missing sentinel is not an error for `unlink`. -/
def resumeEffect (insertedUs : Int) : ResumeStage → Durable → Durable
  | .insert, d =>
      { d with
        disk := { d.disk with actions := d.disk.actions ++ [resumeRow d.operator insertedUs] } }
  | .disarm, d => { d with operator := { d.operator with armed := false, why := none } }
  | .unlink, d => { d with disk := { d.disk with sentinel := .absent } }

/-- A harness restarted over this disk: the constructor, then `halted`. -/
def restartHalted (d : Durable) : Except String Bool :=
  (OperatorHalt.new d.operator.engagementDir d.disk).map (·.halted d.disk)

/-- What the restart reads: the latest logged row or the file. -/
def diskHalted (d : Durable) : Bool :=
  rowHalted d.operator.engagementId d.disk.actions || sentinelPresent d.disk

theorem restartHalted_eq (d : Durable) : d.restartHalted = .ok d.diskHalted := by
  unfold restartHalted OperatorHalt.new
  rw [d.one]
  rfl

/-- No stage of `halt` lifts a halt. -/
theorem halted_haltEffect (c : HaltCall) (stage : HaltStage) {d : Durable}
    (h : d.halted = true) : (haltEffect c stage d).halted = true := by
  cases stage with
  | replace => exact Bool.or_true _
  | arm => rfl
  | _ => exact h

/-- The rename is the stage that stops the extension and every restart. -/
theorem sentinelPresent_haltEffect (c : HaltCall) (stage : HaltStage) {d : Durable}
    (h : sentinelPresent d.disk = true) : sentinelPresent (haltEffect c stage d).disk = true := by
  cases stage with
  | replace => rfl
  | _ => exact h

theorem haltEffect_before_replace (c : HaltCall) {stage : HaltStage}
    (early : stage ∈ [HaltStage.openTmp, .wrapTmp, .writeTmp]) (d : Durable) :
    haltEffect c stage d = d := by
  cases stage with
  | replace => simp at early
  | arm => simp at early
  | insert => simp at early
  | _ => rfl

end Durable

namespace OperatorHalt

/-- The latest of two logs, the newer one inserted later. -/
theorem latest_append_singleton (actions : List Action) (a : Action) :
    latest (actions ++ [a]) = match latest actions with
      | none => some a
      | some b => if b.tsUs ≤ a.tsUs then some a else some b := by
  induction actions with
  | nil => rfl
  | cons first rest ih =>
      rw [List.cons_append, latest, latest, ih]
      cases latest rest with
      | none => by_cases h : first.tsUs ≤ a.tsUs <;> simp [h]
      | some b =>
          by_cases hb : b.tsUs ≤ a.tsUs <;> by_cases hf : first.tsUs ≤ b.tsUs <;>
            by_cases ha : first.tsUs ≤ a.tsUs <;> simp [hb, hf, ha] <;> omega

theorem lastEvent_append_resume (h : OperatorHalt) (actions : List Action) (insertedUs : Int) :
    lastEvent h.engagementId (actions ++ [resumeRow h insertedUs]) =
      match lastEvent h.engagementId actions with
      | none => some (resumeRow h insertedUs)
      | some row => if row.tsUs ≤ insertedUs then some (resumeRow h insertedUs) else some row := by
  have logs : logged h.engagementId (resumeRow h insertedUs) = true := by
    simp [logged, resumeRow]
  rw [lastEvent, List.filter_append, List.filter_cons_of_pos logs, List.filter_nil,
    latest_append_singleton, lastEvent]
  rfl

/-- After a resume row the store still says halted exactly when the latest event was
a halt stamped later than the resume. -/
theorem rowHalted_append_resume (h : OperatorHalt) (actions : List Action) (insertedUs : Int) :
    rowHalted h.engagementId (actions ++ [resumeRow h insertedUs]) = true ↔
      ∃ row, lastEvent h.engagementId actions = some row ∧ row.tool = haltTool ∧
        insertedUs < row.tsUs := by
  have resumes : (resumeRow h insertedUs).tool ≠ haltTool := by
    simp [resumeRow, resumeTool, haltTool]
  rw [rowHalted, lastEvent_append_resume]
  cases lastEvent h.engagementId actions with
  | none => simp [resumes]
  | some row =>
      by_cases early : row.tsUs ≤ insertedUs
      · simp [early, resumes, Int.not_lt.2 early]
      · simp [early, Int.not_le.1 early]

end OperatorHalt

end Hx.Harness
