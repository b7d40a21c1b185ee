import Mathlib.Tactic.Common

/-!
# The rolling update of a follower

`upgradeFollower` and `rollbackNode` of `cluster/updater.ts`. Every change on
the follower is a shell command sent to its `ExecuteTask`; what the leader
learns of it is the exit code of the last status, or an exception.

A tree is whatever a directory holds. What becomes of each command is a
`Script`: the command runs, is cut off, is refused by the executor, or the call
throws before or after it. The executor's refusal is a status without
`exit_code`, which the client decodes as 0 (`collect`).
-/

namespace ClaudeCluster.Update

-- ---------------------------------------------------------------------------
-- The follower
-- ---------------------------------------------------------------------------

@[ext]
structure Files (T : Type) where
  dist : Option T
  bak : Option T
  deriving DecidableEq, Repr

structure Leader (T : Type) where
  dist : T
  versioned : T → Bool

inductive Command
  /-- `rm -rf dist.bak && cp -a dist dist.bak` -/
  | backup
  /-- `rsync -az --delete leader:dist/ dist/` -/
  | rsync
  /-- `cat dist/version.json` -/
  | verify
  /-- `wall` -/
  | wall
  /-- `systemctl restart cortex` -/
  | restart
  /-- `rm -rf dist.bak` -/
  | commit
  /-- `rm -rf dist && mv dist.bak dist` -/
  | restore
  deriving DecidableEq, Repr

def Command.exec {T : Type} (L : Leader T) (fs : Files T) : Command → Files T × Int
  | .backup =>
    match fs.dist with
    | some tree => ({ fs with bak := some tree }, 0)
    | none => ({ fs with bak := none }, 1)
  | .rsync => ({ fs with dist := some L.dist }, 0)
  | .verify => (fs, if fs.dist.any L.versioned then 0 else 1)
  | .wall | .restart => (fs, 0)
  | .commit => ({ fs with bak := none }, 0)
  | .restore =>
    match fs.bak with
    | some tree => (⟨some tree, none⟩, 0)
    | none => (⟨none, none⟩, 1)

/-- The command cut off on the way. `left` is what it leaves of the directory
it writes; `mv` moves all of `dist.bak` or nothing. -/
def Command.cut {T : Type} (left : Option T) (fs : Files T) : Command → Files T
  | .backup | .commit => { fs with bak := left }
  | .rsync | .restore => { fs with dist := left }
  | .verify | .wall | .restart => fs

-- ---------------------------------------------------------------------------
-- ExecuteTask
-- ---------------------------------------------------------------------------

inductive Outcome (T : Type)
  | runs
  | fails (code : { code : Int // code ≠ 0 }) (left : Option T)
  | refused (error : String)
  | throwsBefore (error : String)
  | throwsAfter (error : String)

structure TaskStatus where
  exitCode : Option Int
  error : String
  deriving DecidableEq, Repr

inductive Response
  | output (stdout : Bool) (data : String)
  | status (status : TaskStatus)
  deriving DecidableEq, Repr

structure ShellResult where
  stdout : String := ""
  stderr : String := ""
  exitCode : Int := -1
  deriving DecidableEq, Repr

/-- The stream the `ExecuteTask` handler writes for a task that ended with an
exit code, or threw. -/
def executeTask : Except String Int → List Response
  | .ok code => [.status ⟨some code, ""⟩]
  | .error error => [.status ⟨none, error⟩]

/-- The loop of `runShellOnNode`. An `exit_code` that was not written is
decoded as the default of its type. -/
def collect (responses : List Response) : ShellResult :=
  responses.foldl (fun result response =>
    match response with
    | .output true data => { result with stdout := result.stdout ++ data }
    | .output false data => { result with stderr := result.stderr ++ data }
    | .status status => { result with exitCode := status.exitCode.getD 0 }) {}

/-- Code of the leader: it may throw, and what it has done to the follower stays. -/
abbrev Remote (T α : Type) := EStateM String (Files T) α

def runShellOnNode {T : Type} (L : Leader T) (command : Command) (outcome : Outcome T) :
    Remote T ShellResult := fun fs =>
  match outcome with
  | .runs => .ok (collect (executeTask (.ok (command.exec L fs).2))) (command.exec L fs).1
  | .fails code left => .ok (collect (executeTask (.ok code.1))) (command.cut left fs)
  | .refused error => .ok (collect (executeTask (.error error))) fs
  | .throwsBefore error => .error error fs
  | .throwsAfter error => .error error (command.exec L fs).1

-- ---------------------------------------------------------------------------
-- The update
-- ---------------------------------------------------------------------------

/-- The outcomes of the commands, and what the two polls return. `restore`,
`retry` and `restarted` are those of `rollbackNode`. -/
structure Script (T : Type) where
  backup : Outcome T
  rsync : Outcome T
  verify : Outcome T
  wall : Outcome T
  restart : Outcome T
  healthy : Bool
  stable : Bool
  commit : Outcome T
  restore : Outcome T
  retry : Outcome T
  restarted : Outcome T

structure UpgradeResult where
  success : Bool
  rolledBack : Bool
  error : Option String := none
  deriving DecidableEq, Repr

section
variable {T : Type} (L : Leader T) (s : Script T)

/-- `systemctl restart` drops the connection, so an exception is expected. -/
def restartNode (outcome : Outcome T) : Remote T Unit :=
  try discard (runShellOnNode L .restart outcome)
  catch _ => pure ()

def notifyBeforeRestart : Remote T Unit :=
  try discard (runShellOnNode L .wall s.wall)
  catch _ => pure ()

/-- An exception of the first attempt is answered with a second one, that of
the second with giving up. Neither exit code is looked at. -/
def rollbackNode : Remote T Unit := do
  let reached ←
    try
      discard (runShellOnNode L .restore s.restore)
      pure true
    catch _ =>
      try
        discard (runShellOnNode L .restore s.retry)
        pure true
      catch _ => pure false
  if reached then restartNode L s.restarted

/-- Phase 3. The exit code is not looked at. -/
def commitUpgrade : Remote T UpgradeResult := do
  discard (runShellOnNode L .commit s.commit)
  return { success := true, rolledBack := false }

def activate : Remote T UpgradeResult := do
  notifyBeforeRestart L s
  restartNode L s.restart
  if !s.healthy then
    rollbackNode L s
    return { success := false, rolledBack := true, error := "Health check timed out after 60s" }
  if !s.stable then
    rollbackNode L s
    return { success := false, rolledBack := true, error := "Node did not stabilize after restart" }
  commitUpgrade L s

/-- A command of phase 1 after the backup: a non-zero exit code is answered
with a rollback. -/
def orRollback (command : Command) (outcome : Outcome T) (message : String)
    (next : Remote T UpgradeResult) : Remote T UpgradeResult := do
  let result ← runShellOnNode L command outcome
  if result.exitCode ≠ 0 then
    rollbackNode L s
    return { success := false, rolledBack := true, error := message ++ result.stderr }
  next

def verifyUpgrade : Remote T UpgradeResult :=
  orRollback L s .verify s.verify "Version verify failed: " (activate L s)

def syncUpgrade : Remote T UpgradeResult :=
  orRollback L s .rsync s.rsync "Rsync failed: " (verifyUpgrade L s)

def upgrade : Remote T UpgradeResult := do
  let backup ← runShellOnNode L .backup s.backup
  if backup.exitCode ≠ 0 then
    return { success := false, rolledBack := false, error := "Backup failed: " ++ backup.stderr }
  syncUpgrade L s

def upgradeFollower : Remote T UpgradeResult :=
  tryCatch (upgrade L s) fun (error : String) => do
    try rollbackNode L s
    catch _ => pure ()
    pure { success := false, rolledBack := true, error := error }

end

end ClaudeCluster.Update
