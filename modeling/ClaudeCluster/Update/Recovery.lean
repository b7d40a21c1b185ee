import ClaudeCluster.Update.Updater

/-!
# What an update leaves behind

Whatever becomes of its commands, `upgradeFollower` returns. `upgradeFollower`
is taken apart once, in the order of its commands (`aborted`, `rolledBack_*`,
`upgraded`), and `upgradeFollower_safe_iff` says for which scripts the follower
ends with the tree the result speaks of.
-/

namespace ClaudeCluster.Update

-- ---------------------------------------------------------------------------
-- Code that may throw
-- ---------------------------------------------------------------------------

section
variable {ε σ α : Type} (x : EStateM ε σ α) (s : σ)

theorem run_tryCatch (handler : ε → EStateM ε σ α) :
    (tryCatch x handler).run s =
      match x.run s with
      | .ok a s => .ok a s
      | .error e s => (handler e).run s := by
  simp only [tryCatch, tryCatchThe, MonadExceptOf.tryCatch, EStateM.tryCatch, EStateM.run]
  cases x s <;> rfl

theorem run_discard :
    (discard x).run s =
      match x.run s with
      | .ok _ s => .ok PUnit.unit s
      | .error e s => .error e s := by
  simp only [discard, Functor.mapConst, EStateM.map, Function.comp_apply, EStateM.run]
  cases x s <;> rfl

end

-- ---------------------------------------------------------------------------
-- One command
-- ---------------------------------------------------------------------------

namespace Outcome

variable {T : Type}

def throws : Outcome T → Bool
  | .throwsBefore _ | .throwsAfter _ => true
  | _ => false

/-- The command was run to its end, whether or not the leader learns of it. -/
def takesEffect : Outcome T → Bool
  | .runs | .throwsAfter _ => true
  | _ => false

def leaves (L : Leader T) (command : Command) (fs : Files T) : Outcome T → Files T
  | .runs | .throwsAfter _ => (command.exec L fs).1
  | .fails _ left => command.cut left fs
  | .refused _ | .throwsBefore _ => fs

def exits (L : Leader T) (command : Command) (fs : Files T) : Outcome T → Int
  | .runs | .throwsAfter _ => (command.exec L fs).2
  | .fails code _ => code.1
  | .refused _ | .throwsBefore _ => 0

def passes (L : Leader T) (command : Command) (fs : Files T) (o : Outcome T) : Bool :=
  !o.throws && o.exits L command fs = 0

end Outcome

section
variable {T : Type} {L : Leader T} {s : Script T} {fs fs' : Files T} {o : Outcome T}
  {command : Command}

theorem shell_returns (h : o.throws = false) :
    (runShellOnNode L command o).run fs = .ok { exitCode := o.exits L command fs }
      (o.leaves L command fs) := by
  cases o with
  | runs | fails | refused => rfl
  | throwsBefore | throwsAfter => simp [Outcome.throws] at h

theorem shell_throws (L : Leader T) (command : Command) (fs : Files T) (h : o.throws) :
    ∃ error, (runShellOnNode L command o).run fs = .error error (o.leaves L command fs) := by
  cases o with
  | runs | fails | refused => simp [Outcome.throws] at h
  | throwsBefore error | throwsAfter error => exact ⟨error, rfl⟩

theorem shell_caught (hcmd : o.leaves L command fs = fs) :
    (tryCatch (discard (runShellOnNode L command o)) fun _ => pure () : Remote T Unit).run fs =
      .ok () fs := by
  cases h : o.throws with
  | false => simp only [run_tryCatch, run_discard, shell_returns h, hcmd]
  | true =>
    obtain ⟨error, herr⟩ := shell_throws L command fs h
    simp only [run_tryCatch, run_discard, EStateM.run_pure, herr, hcmd]

theorem leaves_restart : o.leaves L .restart fs = fs := by cases o <;> rfl

theorem leaves_wall : o.leaves L .wall fs = fs := by cases o <;> rfl

theorem leaves_verify : o.leaves L .verify fs = fs := by cases o <;> rfl

-- ---------------------------------------------------------------------------
-- The rollback
-- ---------------------------------------------------------------------------

def afterRollback (L : Leader T) (s : Script T) (fs : Files T) : Files T :=
  if s.restore.throws then s.retry.leaves L .restore (s.restore.leaves L .restore fs)
  else s.restore.leaves L .restore fs

theorem rollbackNode_run : (rollbackNode L s).run fs = .ok () (afterRollback L s fs) := by
  have hrestart : ∀ fs, (restartNode L s.restarted).run fs = .ok () fs :=
    fun fs => shell_caught leaves_restart
  unfold afterRollback
  cases h : s.restore.throws with
  | false =>
    simp only [rollbackNode, EStateM.run_bind, run_tryCatch, run_discard, EStateM.run_pure,
      shell_returns h, ↓reduceIte, hrestart, Bool.false_eq_true]
  | true =>
    obtain ⟨error, hfirst⟩ := shell_throws L .restore fs h
    cases h' : s.retry.throws with
    | false =>
      simp only [rollbackNode, EStateM.run_bind, run_tryCatch, run_discard, EStateM.run_pure,
        hfirst, shell_returns h', ↓reduceIte, hrestart]
    | true =>
      obtain ⟨error', hretry⟩ := shell_throws L .restore (s.restore.leaves L .restore fs) h'
      simp only [rollbackNode, EStateM.run_bind, run_tryCatch, run_discard, EStateM.run_pure,
        hfirst, hretry, ↓reduceIte, Bool.false_eq_true]

def RolledBack (L : Leader T) (s : Script T) (fs : Files T)
    (r : EStateM.Result String (Files T) UpgradeResult) : Prop :=
  ∃ error, r = .ok ⟨false, true, some error⟩ (afterRollback L s fs)

-- ---------------------------------------------------------------------------
-- The update, command by command
-- ---------------------------------------------------------------------------

theorem upgradeFollower_of_ok {r : UpgradeResult} (h : (upgrade L s).run fs = .ok r fs') :
    (upgradeFollower L s).run fs = .ok r fs' := by
  simp only [upgradeFollower, run_tryCatch, h]

theorem upgradeFollower_of_error {error : String} (h : (upgrade L s).run fs = .error error fs') :
    RolledBack L s fs' ((upgradeFollower L s).run fs) := by
  refine ⟨error, ?_⟩
  simp only [upgradeFollower, run_tryCatch, h, EStateM.run_bind, EStateM.run_pure,
    rollbackNode_run]

theorem activate_gives_up (h : (s.healthy && s.stable) = false) :
    RolledBack L s fs ((activate L s).run fs) := by
  have hwall : (notifyBeforeRestart L s).run fs = .ok () fs := shell_caught leaves_wall
  have hrestart : (restartNode L s.restart).run fs = .ok () fs := shell_caught leaves_restart
  cases hh : s.healthy with
  | false =>
    refine ⟨"Health check timed out after 60s", ?_⟩
    simp only [activate, EStateM.run_bind, EStateM.run_pure, hwall, hrestart, hh,
      rollbackNode_run, Bool.not_false, ↓reduceIte]
  | true =>
    have hs : s.stable = false := by simpa [hh] using h
    refine ⟨"Node did not stabilize after restart", ?_⟩
    simp only [activate, EStateM.run_bind, EStateM.run_pure, hwall, hrestart, hh, hs,
      rollbackNode_run, Bool.not_true, Bool.not_false, Bool.false_eq_true, ↓reduceIte]

theorem activate_commits (h : (s.healthy && s.stable) = true) :
    (activate L s).run fs = (commitUpgrade L s).run fs := by
  have hwall : (notifyBeforeRestart L s).run fs = .ok () fs := shell_caught leaves_wall
  have hrestart : (restartNode L s.restart).run fs = .ok () fs := shell_caught leaves_restart
  obtain ⟨hh, hs⟩ := Bool.and_eq_true_iff.mp h
  simp only [activate, EStateM.run_bind, hwall, hrestart, hh, hs, Bool.not_true,
    Bool.false_eq_true, ↓reduceIte]

theorem passes_iff : o.passes L command fs ↔ o.throws = false ∧ o.exits L command fs = 0 := by
  simp [Outcome.passes]

theorem orRollback_passes {message : String} {next : Remote T UpgradeResult}
    (h : o.passes L command fs) :
    (orRollback L s command o message next).run fs = next.run (o.leaves L command fs) := by
  obtain ⟨ht, he⟩ := passes_iff.mp h
  simp only [orRollback, EStateM.run_bind, shell_returns ht, he, ne_eq, not_true_eq_false,
    ↓reduceIte]

/-- How the update ends where a command throws or has it rolled back: in the
catch block or by itself, the rollback starts from the files at that point. -/
def GivesUp (L : Leader T) (s : Script T) (fs : Files T)
    (r : EStateM.Result String (Files T) UpgradeResult) : Prop :=
  RolledBack L s fs r ∨ ∃ error, r = .error error fs

theorem orRollback_givesUp {message : String} {next : Remote T UpgradeResult}
    (h : o.passes L command fs = false) :
    GivesUp L s (o.leaves L command fs) ((orRollback L s command o message next).run fs) := by
  cases ht : o.throws with
  | false =>
    have he : o.exits L command fs ≠ 0 := by simpa [Outcome.passes, ht] using h
    refine .inl ⟨message ++ "", ?_⟩
    simp only [orRollback, EStateM.run_bind, EStateM.run_pure, shell_returns ht, he, ne_eq,
      not_false_eq_true, ↓reduceIte, rollbackNode_run]
  | true =>
    obtain ⟨error, herr⟩ := shell_throws L command fs ht
    refine .inr ⟨error, ?_⟩
    simp only [orRollback, EStateM.run_bind, herr]

theorem upgrade_passes (h : s.backup.passes L .backup fs) :
    (upgrade L s).run fs = (syncUpgrade L s).run (s.backup.leaves L .backup fs) := by
  obtain ⟨ht, he⟩ := passes_iff.mp h
  simp only [upgrade, EStateM.run_bind, shell_returns ht, he, ne_eq, not_true_eq_false,
    ↓reduceIte]

theorem upgradeFollower_givesUp (h : GivesUp L s fs' ((upgrade L s).run fs)) :
    RolledBack L s fs' ((upgradeFollower L s).run fs) := by
  rcases h with ⟨error, h⟩ | ⟨error, h⟩
  · exact ⟨error, upgradeFollower_of_ok h⟩
  · exact upgradeFollower_of_error h

def synced (L : Leader T) (s : Script T) (fs : Files T) : Files T :=
  s.rsync.leaves L .rsync (s.backup.leaves L .backup fs)

theorem aborted (ht : s.backup.throws = false) (he : s.backup.exits L .backup fs ≠ 0) :
    ∃ error, (upgradeFollower L s).run fs =
      .ok ⟨false, false, some error⟩ (s.backup.leaves L .backup fs) := by
  refine ⟨"Backup failed: " ++ "", upgradeFollower_of_ok ?_⟩
  simp only [upgrade, EStateM.run_bind, EStateM.run_pure, shell_returns ht, he, ne_eq,
    not_false_eq_true, ↓reduceIte]

theorem rolledBack_backup (ht : s.backup.throws) :
    RolledBack L s (s.backup.leaves L .backup fs) ((upgradeFollower L s).run fs) := by
  obtain ⟨error, herr⟩ := shell_throws L .backup fs ht
  have hrun : (upgrade L s).run fs = .error error (s.backup.leaves L .backup fs) := by
    simp only [upgrade, EStateM.run_bind, herr]
  exact upgradeFollower_of_error hrun

theorem rolledBack_rsync (hb : s.backup.passes L .backup fs)
    (hr : s.rsync.passes L .rsync (s.backup.leaves L .backup fs) = false) :
    RolledBack L s (synced L s fs) ((upgradeFollower L s).run fs) := by
  refine upgradeFollower_givesUp ?_
  rw [upgrade_passes hb]
  exact orRollback_givesUp hr

section
variable (hb : s.backup.passes L .backup fs)
  (hr : s.rsync.passes L .rsync (s.backup.leaves L .backup fs))
include hb hr

theorem upgrade_synced :
    (upgrade L s).run fs = (verifyUpgrade L s).run (synced L s fs) := by
  rw [upgrade_passes hb]
  exact orRollback_passes hr

theorem rolledBack_verify (hv : s.verify.passes L .verify (synced L s fs) = false) :
    RolledBack L s (synced L s fs) ((upgradeFollower L s).run fs) := by
  refine upgradeFollower_givesUp ?_
  rw [upgrade_synced hb hr]
  have h : GivesUp L s (s.verify.leaves L .verify (synced L s fs))
      ((verifyUpgrade L s).run (synced L s fs)) := orRollback_givesUp hv
  rwa [leaves_verify] at h

variable (hv : s.verify.passes L .verify (synced L s fs))
include hv

theorem upgrade_verified : (upgrade L s).run fs = (activate L s).run (synced L s fs) := by
  rw [upgrade_synced hb hr]
  exact (orRollback_passes hv).trans (by rw [leaves_verify])

theorem rolledBack_activate (h : (s.healthy && s.stable) = false) :
    RolledBack L s (synced L s fs) ((upgradeFollower L s).run fs) := by
  refine upgradeFollower_givesUp (.inl ?_)
  rw [upgrade_verified hb hr hv]
  exact activate_gives_up h

variable (h : (s.healthy && s.stable) = true)
include h

theorem rolledBack_commit (hc : s.commit.throws) :
    RolledBack L s (s.commit.leaves L .commit (synced L s fs)) ((upgradeFollower L s).run fs) := by
  obtain ⟨error, herr⟩ := shell_throws L .commit (synced L s fs) hc
  have hrun : (upgrade L s).run fs = .error error (s.commit.leaves L .commit (synced L s fs)) := by
    rw [upgrade_verified hb hr hv, activate_commits h]
    simp only [commitUpgrade, EStateM.run_bind, run_discard, herr]
  exact upgradeFollower_of_error hrun

theorem upgraded (hc : s.commit.throws = false) :
    (upgradeFollower L s).run fs =
      .ok ⟨true, false, none⟩ (s.commit.leaves L .commit (synced L s fs)) := by
  refine upgradeFollower_of_ok ?_
  rw [upgrade_verified hb hr hv, activate_commits h]
  simp only [commitUpgrade, EStateM.run_bind, EStateM.run_pure, run_discard, shell_returns hc]

end

end

-- ---------------------------------------------------------------------------
-- When the result is true
-- ---------------------------------------------------------------------------

namespace Outcome

variable {T : Type}

/-- Run, or refused: the leader sees exit code 0 where the command can succeed. -/
def comesBack : Outcome T → Bool
  | .runs | .refused _ => true
  | _ => false

/-- Exit code other than 0 after part of the work. -/
def cutOff : Outcome T → Bool
  | .fails _ _ => true
  | _ => false

end Outcome

namespace Script

variable {T : Type} (L : Leader T) (old : T) (bak : Option T) (s : Script T)

/-- `cat version.json` finds one, or is refused. -/
def verified : Bool :=
  match s.verify with
  | .runs => L.versioned (if s.rsync.takesEffect then L.dist else old)
  | .refused _ => true
  | _ => false

/-- Nothing up to the commit goes wrong, as far as the leader can see. -/
def goesAhead : Bool :=
  s.backup.comesBack && s.rsync.comesBack && s.verified L old && (s.healthy && s.stable)

def goesThrough : Bool := s.goesAhead L old && !s.commit.throws

def distBefore : Option T :=
  if s.backup.comesBack then
    match s.rsync with
    | .runs | .throwsAfter _ => some L.dist
    | .fails _ left => left
    | .refused _ | .throwsBefore _ => some old
  else some old

/-- `dist.bak` when the rollback starts: gone with the commit, else the backup
if it was made, else what lay there before. -/
def bakBefore : Option T :=
  if s.goesAhead L old && s.commit.takesEffect then none
  else if s.backup.takesEffect then some old
  else bak

end Script

/-- The restoring command, started on `dist` and `bak`, leaves the old tree: it
takes effect once and `bak` is the old tree, or takes none and `dist` still is,
or is cut off where it left the old tree. Taking effect twice it leaves none. -/
def Restores {T : Type} (old : T) (dist bak : Option T) (restore retry : Outcome T) : Prop :=
  match restore with
  | .runs => bak = some old
  | .fails _ left => left = some old
  | .refused _ => dist = some old
  | .throwsBefore _ =>
    match retry with
    | .runs | .throwsAfter _ => bak = some old
    | .fails _ left => left = some old
    | .refused _ | .throwsBefore _ => dist = some old
  | .throwsAfter _ =>
    match retry with
    | .runs | .throwsAfter _ => False
    | .fails _ left => left = some old
    | .refused _ | .throwsBefore _ => bak = some old

def Script.Recovers {T : Type} (L : Leader T) (old : T) (bak : Option T) (s : Script T) : Prop :=
  s.backup.cutOff ∨
  (s.goesThrough L old ∧ (s.rsync.takesEffect ∨ L.dist = old)) ∨
  (s.backup.cutOff = false ∧ s.goesThrough L old = false ∧
    Restores old (s.distBefore L old) (s.bakBefore L old bak) s.restore s.retry)

/-- The update returns; `dist` is the old tree or the new one, the new one
after a success, the old one after a rollback. -/
def Safe {T : Type} (L : Leader T) (old : T)
    (r : EStateM.Result String (Files T) UpgradeResult) : Prop :=
  ∃ result fs, r = .ok result fs ∧ (fs.dist = some old ∨ fs.dist = some L.dist) ∧
    (result.success → fs.dist = some L.dist) ∧ (result.rolledBack → fs.dist = some old)

section
variable {T : Type} {L : Leader T} {s : Script T} {old : T} {bak : Option T} {fs : Files T}

theorem exec_restore_dist : (Command.exec L fs .restore).1 = ⟨fs.bak, none⟩ := by
  unfold Command.exec
  cases h : fs.bak <;> rfl

theorem afterRollback_dist_iff :
    (afterRollback L s fs).dist = some old ↔ Restores old fs.dist fs.bak s.restore s.retry := by
  unfold afterRollback Restores
  cases s.restore with
  | runs => simp [Outcome.throws, Outcome.leaves, exec_restore_dist]
  | fails code left => simp [Outcome.throws, Outcome.leaves, Command.cut]
  | refused error => simp [Outcome.throws, Outcome.leaves]
  | throwsBefore error =>
    cases s.retry <;> simp [Outcome.throws, Outcome.leaves, exec_restore_dist, Command.cut]
  | throwsAfter error =>
    cases s.retry <;> simp [Outcome.throws, Outcome.leaves, exec_restore_dist, Command.cut]

theorem RolledBack.safe_iff {r : EStateM.Result String (Files T) UpgradeResult}
    (h : RolledBack L s fs r) :
    Safe L old r ↔ Restores old fs.dist fs.bak s.restore s.retry := by
  obtain ⟨error, rfl⟩ := h
  rw [← afterRollback_dist_iff (L := L)]
  constructor
  · rintro ⟨result, fs', heq, -, -, hback⟩
    cases heq
    exact hback rfl
  · intro hdist
    exact ⟨_, _, rfl, .inl hdist, by simp, fun _ => hdist⟩

-- what the commands do on a follower that has the old tree

theorem passes_backup : s.backup.passes L .backup ⟨some old, bak⟩ = s.backup.comesBack := by
  cases s.backup with
  | fails code left => simp [Outcome.passes, Outcome.throws, Outcome.exits, Outcome.comesBack, code.2]
  | _ => rfl

theorem passes_rsync : s.rsync.passes L .rsync fs = s.rsync.comesBack := by
  cases s.rsync with
  | fails code left => simp [Outcome.passes, Outcome.throws, Outcome.exits, Outcome.comesBack, code.2]
  | _ => rfl

theorem dist_backup : (s.backup.leaves L .backup ⟨some old, bak⟩).dist = some old := by
  cases s.backup <;> rfl

theorem bak_backup (h : s.backup.cutOff = false) :
    (s.backup.leaves L .backup ⟨some old, bak⟩).bak =
      if s.backup.takesEffect then some old else bak := by
  cases hb : s.backup with
  | fails code left => simp [hb, Outcome.cutOff] at h
  | _ => rfl

theorem bak_rsync : (s.rsync.leaves L .rsync fs).bak = fs.bak := by
  cases s.rsync <;> rfl

theorem dist_synced (h : s.backup.comesBack) :
    (synced L s ⟨some old, bak⟩).dist = s.distBefore L old := by
  have hdist : (s.backup.leaves L .backup ⟨some old, bak⟩).dist = some old := dist_backup
  rw [Script.distBefore, if_pos h, synced]
  generalize s.backup.leaves L .backup ⟨some old, bak⟩ = fs at hdist
  cases s.rsync with
  | refused | throwsBefore => exact hdist
  | _ => rfl

theorem dist_synced_of_comesBack (h : s.backup.comesBack) (hr : s.rsync.comesBack) :
    (synced L s ⟨some old, bak⟩).dist = some (if s.rsync.takesEffect then L.dist else old) := by
  rw [dist_synced h, Script.distBefore, if_pos h]
  cases hs : s.rsync with
  | runs | refused => rfl
  | fails | throwsBefore | throwsAfter => simp [hs, Outcome.comesBack] at hr

theorem passes_verify (h : s.backup.comesBack) (hr : s.rsync.comesBack) :
    s.verify.passes L .verify (synced L s ⟨some old, bak⟩) = s.verified L old := by
  have hdist : (synced L s ⟨some old, bak⟩).dist =
      some (if s.rsync.takesEffect then L.dist else old) := dist_synced_of_comesBack h hr
  unfold Script.verified
  cases s.verify with
  | runs => simp [Outcome.passes, Outcome.throws, Outcome.exits, Command.exec, hdist]
  | fails code left => simp [Outcome.passes, Outcome.throws, Outcome.exits, code.2]
  | refused | throwsBefore | throwsAfter => rfl

theorem throws_of_not {o : Outcome T} (hc : o.cutOff = false) (h : o.comesBack = false) :
    o.throws := by
  cases o with
  | throwsBefore | throwsAfter => rfl
  | fails => simp [Outcome.cutOff] at hc
  | runs | refused => simp [Outcome.comesBack] at h

theorem aborted_of_cutOff (h : s.backup.cutOff) :
    Safe L old ((upgradeFollower L s).run ⟨some old, bak⟩) := by
  obtain ⟨ht, he⟩ : s.backup.throws = false ∧ s.backup.exits L .backup ⟨some old, bak⟩ ≠ 0 := by
    cases hb : s.backup with
    | fails code left => exact ⟨rfl, code.2⟩
    | _ => simp [hb, Outcome.cutOff] at h
  obtain ⟨error, hrun⟩ := aborted ht he
  exact ⟨_, _, hrun, .inl dist_backup, by simp, by simp⟩

theorem upgraded_of_goesThrough (bak : Option T) (h : s.goesThrough L old) :
    ∃ fs, (upgradeFollower L s).run ⟨some old, bak⟩ = .ok ⟨true, false, none⟩ fs ∧
      fs.dist = some (if s.rsync.takesEffect then L.dist else old) := by
  simp only [Script.goesThrough, Script.goesAhead, Bool.and_eq_true, Bool.not_eq_true'] at h
  obtain ⟨⟨⟨⟨hb, hr⟩, hv⟩, hh⟩, hc⟩ := h
  have hdist : (synced L s ⟨some old, bak⟩).dist =
      some (if s.rsync.takesEffect then L.dist else old) := dist_synced_of_comesBack hb hr
  refine ⟨_, upgraded (passes_backup.trans hb) (passes_rsync.trans hr)
    ((passes_verify hb hr).trans hv) (Bool.and_eq_true_iff.mpr hh) hc, ?_⟩
  rw [← hdist]
  cases s.commit <;> rfl

-- the files a rollback can start from, as the script says

theorem files_backup (hcut : s.backup.cutOff = false) (hb : s.backup.comesBack = false) :
    s.backup.leaves L .backup ⟨some old, bak⟩ =
      ⟨s.distBefore L old, s.bakBefore L old bak⟩ := by
  refine Files.ext ?_ ?_
  · simp [dist_backup, Script.distBefore, hb]
  · simp [bak_backup hcut, Script.bakBefore, Script.goesAhead, hb]

theorem bak_synced (hcut : s.backup.cutOff = false) :
    (synced L s ⟨some old, bak⟩).bak = if s.backup.takesEffect then some old else bak :=
  bak_rsync.trans (bak_backup hcut)

theorem files_synced (hcut : s.backup.cutOff = false) (hb : s.backup.comesBack)
    (h : s.goesAhead L old = false) :
    synced L s ⟨some old, bak⟩ = ⟨s.distBefore L old, s.bakBefore L old bak⟩ := by
  refine Files.ext (dist_synced hb) ?_
  simp [bak_synced hcut, Script.bakBefore, h]

theorem files_commit (hcut : s.backup.cutOff = false) (hb : s.backup.comesBack)
    (h : s.goesAhead L old) (hc : s.commit.throws) :
    s.commit.leaves L .commit (synced L s ⟨some old, bak⟩) =
      ⟨s.distBefore L old, s.bakBefore L old bak⟩ := by
  have hdist : (synced L s ⟨some old, bak⟩).dist = s.distBefore L old := dist_synced hb
  cases hs : s.commit with
  | throwsBefore =>
    refine Files.ext hdist ?_
    simp [Outcome.leaves, bak_synced hcut, Script.bakBefore, hs, Outcome.takesEffect]
  | throwsAfter =>
    refine Files.ext hdist ?_
    simp [Outcome.leaves, Command.exec, Script.bakBefore, h, hs, Outcome.takesEffect]
  | runs | fails | refused => simp [hs, Outcome.throws] at hc

theorem rolledBack_of_not (hcut : s.backup.cutOff = false) (h : s.goesThrough L old = false) :
    RolledBack L s ⟨s.distBefore L old, s.bakBefore L old bak⟩
      ((upgradeFollower L s).run ⟨some old, bak⟩) := by
  cases hb : s.backup.comesBack with
  | false => exact files_backup hcut hb ▸ rolledBack_backup (throws_of_not hcut hb)
  | true =>
    have hpb : s.backup.passes L .backup ⟨some old, bak⟩ := passes_backup.trans hb
    cases hahead : s.goesAhead L old with
    | true =>
      have hc : s.commit.throws := by simpa [Script.goesThrough, hahead] using h
      rw [← files_commit hcut hb hahead hc]
      simp only [Script.goesAhead, Bool.and_eq_true] at hahead
      obtain ⟨⟨⟨-, hr⟩, hv⟩, hh⟩ := hahead
      exact rolledBack_commit hpb (passes_rsync.trans hr) ((passes_verify hb hr).trans hv)
        (Bool.and_eq_true_iff.mpr hh) hc
    | false =>
      -- whichever check stops it, the rollback starts from the synced files
      rw [← files_synced hcut hb hahead]
      cases hr : s.rsync.comesBack with
      | false => exact rolledBack_rsync hpb (passes_rsync.trans hr)
      | true =>
        have hpr : s.rsync.passes L .rsync (s.backup.leaves L .backup ⟨some old, bak⟩) :=
          passes_rsync.trans hr
        have hpv : s.verify.passes L .verify (synced L s ⟨some old, bak⟩) = s.verified L old :=
          passes_verify hb hr
        cases hv : s.verified L old with
        | false => exact rolledBack_verify hpb hpr (hpv.trans hv)
        | true =>
          have hh : (s.healthy && s.stable) = false := by
            simpa [Script.goesAhead, hb, hr, hv] using hahead
          exact rolledBack_activate hpb hpr (hpv.trans hv) hh

/-- For every script, the follower ends with the tree the result speaks of
exactly if the script recovers. -/
theorem upgradeFollower_safe_iff (L : Leader T) (s : Script T) (old : T) (bak : Option T) :
    Safe L old ((upgradeFollower L s).run ⟨some old, bak⟩) ↔ s.Recovers L old bak := by
  cases hcut : s.backup.cutOff with
  | true => exact ⟨fun _ => .inl hcut, fun _ => aborted_of_cutOff hcut⟩
  | false =>
    cases hthrough : s.goesThrough L old with
    | false =>
      rw [(rolledBack_of_not hcut hthrough).safe_iff]
      simp [Script.Recovers, hcut, hthrough]
    | true =>
      obtain ⟨fs, hrun, hdist⟩ := upgraded_of_goesThrough bak hthrough
      have hnew : Safe L old ((upgradeFollower L s).run ⟨some old, bak⟩) ↔
          fs.dist = some L.dist := by
        constructor
        · rintro ⟨result, fs', heq, -, hnew, -⟩
          rw [hrun] at heq
          cases heq
          exact hnew rfl
        · intro h
          exact ⟨_, _, hrun, .inr h, fun _ => h, by simp⟩
      rw [hnew, hdist]
      cases ht : s.rsync.takesEffect with
      | true => simp [Script.Recovers, hcut, hthrough, ht]
      | false => simp [Script.Recovers, hcut, hthrough, ht, eq_comm]

end

/-- Every command runs, but the answer to the commit is lost after it. -/
def commitLost : Script String where
  backup := .runs
  rsync := .runs
  verify := .runs
  wall := .runs
  restart := .runs
  healthy := true
  stable := true
  commit := .throwsAfter "14 UNAVAILABLE: Connection dropped"
  restore := .runs
  retry := .runs
  restarted := .runs

/-- The rollback then has nothing to restore: it reports `rolledBack` and
leaves the follower without `dist`. -/
theorem commitLost_unsafe :
    (upgradeFollower ⟨"new", fun _ => true⟩ commitLost).run ⟨some "old", none⟩ =
      .ok ⟨false, true, some "14 UNAVAILABLE: Connection dropped"⟩ ⟨none, none⟩ ∧
    ¬ Safe ⟨"new", fun _ => true⟩ "old"
      ((upgradeFollower ⟨"new", fun _ => true⟩ commitLost).run ⟨some "old", none⟩) := by
  have hrun : (upgradeFollower ⟨"new", fun _ => true⟩ commitLost).run ⟨some "old", none⟩ =
      .ok ⟨false, true, some "14 UNAVAILABLE: Connection dropped"⟩ ⟨none, none⟩ := rfl
  refine ⟨hrun, ?_⟩
  rintro ⟨result, fs, heq, -, -, hback⟩
  rw [hrun] at heq
  cases heq
  have := hback rfl
  cases this

end ClaudeCluster.Update
