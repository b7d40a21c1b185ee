import ClaudeCluster.Tasks.TaskLog

/-!
# Terminal states are absorbing

Handlers write rows whatever state they are in, so a task that is over stays
so only if nobody appends an entry about it behind the one that ended it. That
is what the proposers check on their own database, which may be behind the
log, or do not check at all.
-/

namespace ClaudeCluster.Tasks

open Lib (System)
open Raft (NodeId)

def TaskEngineState.isFinal : TaskEngineState → Bool
  | .completed | .cancelled | .skipped | .deadLetter => true
  | .queued | .pending | .assigned | .running | .failed => false

/-- The item writes no task that the log has ended, but for the retry of a
dead-lettered task by its tool. -/
def Item.Admissible (log : List Item) (item : Item) : Prop :=
  ∀ id ∈ item.target?,
    (lastWritten id log).all (!·.isFinal) ∨
      item.proposer = .retryDeadLetterTask ∧ lastWritten id log = some .deadLetter

instance (log : List Item) (item : Item) : Decidable (item.Admissible log) :=
  inferInstanceAs (Decidable (∀ id ∈ item.target?, _))

/-- Nothing a step appends writes a task that the log has ended. -/
def World.Respects (w : World) (a : Action) : Prop :=
  a.node?.any w.leads = true → ∀ item ∈ w.proposes a, item.Admissible w.log

instance (w : World) (a : Action) : Decidable (w.Respects a) :=
  inferInstanceAs (Decidable (_ → ∀ item ∈ w.proposes a, _))

def Respected (log : List Item) : Prop :=
  ∀ before item after, log = before ++ item :: after → item.Admissible before

section

variable {item : Item} {log : List Item} {id : TaskId}

theorem Respected.of_isPrefix {l : List Item} (h : Respected log) (hp : l <+: log) : Respected l :=
  Lib.Grown.of_isPrefix h hp

theorem Item.Admissible.behind {items : List Item} (h : item.Admissible log)
    (hq : ∀ i ∈ items, ∀ id st, i.writes? id = some st → st = .queued) :
    item.Admissible (log ++ items) := by
  intro id hid
  have happ : lastWritten id (log ++ items) = (lastWritten id items).or (lastWritten id log) :=
    Lib.latest_append
  rw [happ]
  cases hw : lastWritten id items with
  | none => exact h id hid
  | some st =>
    obtain ⟨i, hi, hst⟩ := exists_of_lastWritten hw
    rw [hq i hi id st hst]
    exact .inl rfl

end

namespace World

variable {w w' : World} {a : Action} {node : NodeId}

theorem reach_respected (h : cluster.Reach Respects w) : ∀ l ∈ w.logs, Respected l := by
  refine reach_grown ?_ h
  intro w a hg hlead before item after he
  have hadm : item.Admissible w.log := hg hlead item (by simp [he])
  obtain rfl | ⟨node, target, now, -, hretries⟩ := proposes_before he
  · rwa [List.append_nil]
  · refine hadm.behind ?_
    intro i hi id st hst
    obtain ⟨t, -, rfl⟩ := hretries i (List.mem_append_left _ hi)
    rw [Item.writes?_parsed] at hst
    split at hst
    · exact (Option.some.inj hst).symm
    · cases hst

/-- Among the entries numbered from `m` to `n` is a retry of the task by the tool. -/
def RetriedByTool (log : List Item) (id : TaskId) (m n : Nat) : Prop :=
  ∃ i, m ≤ i ∧ i < n ∧ ∃ p : TaskRetryPayload, p.taskId = id ∧
    log[i]? = some ⟨.parsed (.taskRetry p), .retryDeadLetterTask⟩

/-- What every entry keeps of the row of a task, other than a retry by the tool,
is kept by every continuation in which there is no such retry. -/
theorem kept_until_retried {G : World → Action → Prop} {Q : TaskRecord → Prop} {D : Prop}
    {id : TaskId} {t : TaskRecord}
    (hkeep : ∀ u host u' t, (cluster.after w).Reach G u → u.Stepped (.apply node host) u' →
      (u.db node).getTask id = some t → Q t →
        (∃ t', (u'.db node).getTask id = some t' ∧ Q t') ∨
          D ∧ RetriedByTool u.log id (u.replicas node).applied ((u.replicas node).applied + 1))
    (h : cluster.Reach G w) (h' : (cluster.after w).Reach G w')
    (ht : (w.db node).getTask id = some t) (hQ : Q t) :
    (∃ t', (w'.db node).getTask id = some t' ∧ Q t') ∨
      D ∧ RetriedByTool w'.log id (w.replicas node).applied (w'.replicas node).applied := by
  suffices hs : (w.replicas node).applied ≤ (w'.replicas node).applied ∧
      ((∃ t', (w'.db node).getTask id = some t' ∧ Q t') ∨
        D ∧ RetriedByTool w'.log id (w.replicas node).applied (w'.replicas node).applied) from hs.2
  induction h' with
  | init hi =>
    subst hi
    exact ⟨le_rfl, .inl ⟨t, ht, hQ⟩⟩
  | @step u a v hr hg hs ih =>
    have hu := h.trans hr
    have hc := reach_consistent hu
    have hst := stepped hs
    obtain ⟨hle, ih⟩ := ih
    refine ⟨hle.trans (hst.applied_le node), ?_⟩
    obtain ⟨t', ht', hQ'⟩ | ⟨hD, i, hmi, hin, p, hp, hi⟩ := ih
    · by_cases ha : ∃ host, a = .apply node host
      · obtain ⟨host, rfl⟩ := ha
        obtain hkept | ⟨hD, i, hmi, hin, p, hp, hi⟩ := hkeep u host v t' hr hst ht' hQ'
        · exact .inl hkept
        · have happ : (v.replicas node).applied = (u.replicas node).applied + 1 := by
            rw [hst.replica_applied]
          have hlog : v.log[i]? = u.log[i]? :=
            hst.getElem?_log hc (by have := hst.enabled.1; omega)
          exact .inr ⟨hD, i, by omega, by omega, p, hp, hlog ▸ hi⟩
      · have hsame : v.replicas node = u.replicas node :=
          hst.replicas_eq fun host he => ha ⟨host, he⟩
        exact .inl ⟨t', by rw [World.db, hsame]; exact ht', hQ'⟩
    · exact .inr ⟨hD, i, hmi, hin.trans_le (hst.applied_le node), p, hp,
        hst.getElem?_log hc (hin.trans_le (hc.applied_le node)) ▸ hi⟩

theorem Consistent.keeps_terminal (hc : w.Consistent) (hr : Respected w.log)
    (h : w.Stepped (.apply node host) w') {id : TaskId} {t : TaskRecord}
    (ht : (w.db node).getTask id = some t) (hf : t.state.isFinal = true) :
    (∃ t', (w'.db node).getTask id = some t' ∧ t'.state = t.state ∧ t'.result = t.result) ∨
      t.state = .deadLetter ∧
        RetriedByTool w.log id (w.replicas node).applied ((w.replicas node).applied + 1) := by
  obtain ⟨item, hnext, hmem, htake⟩ := hc.next_eq h.enabled.1
  have hlast : lastWritten id (w.log.take (w.replicas node).applied) = some t.state := by
    refine ((hc.follows node id t ht).resolve_left ?_).resolve_left ?_ <;>
      exact fun hst => by simp [hst, TaskEngineState.isFinal] at hf
  have hadm : item.Admissible (w.log.take (w.replicas node).applied) :=
    hr.of_isPrefix (List.take_prefix _ _) _ item [] htake
  have hitem := hc.plain_of_mem hmem
  rw [h.db_applied hnext]
  obtain ⟨e, hn, hrow⟩ | ⟨-, hrow⟩ := @getTask_after host (w.leads node) _ _ _ _ hitem ht
  · cases hw : e.writes? with
    | none =>
      -- of the entries about a task only task_failed writes no state
      refine .inl ⟨_, hrow, ?_⟩
      cases e with
      | taskFailed p => exact ⟨rfl, rfl⟩
      | taskSubmit | workflowSubmit | workflowAdvance => cases hn.2
      | _ => cases hw
    | some st =>
      have htarget : item.target? = some id := by simp [Item.target?, hn.1, hw, hn.2]
      obtain hnot | ⟨hp, hdead⟩ := hadm id htarget
      · rw [hlast] at hnot
        simp [hf] at hnot
      · obtain ⟨data, proposer⟩ := item
        obtain rfl : proposer = .retryDeadLetterTask := hp
        obtain ⟨p, rfl⟩ := hitem.ofTool rfl
        obtain rfl : p.taskId = id := Option.some.inj htarget
        refine .inr ⟨?_, _, le_rfl, Nat.lt_succ_self _, p, rfl, hnext⟩
        rw [hlast] at hdead
        simpa using hdead
  · exact .inl ⟨t, hrow, rfl, rfl⟩

/-- Once a task is over on a node it stays as it is in every continuation,
unless a retry of the dead-lettered task by its tool is applied. -/
theorem terminal_absorbing (h : cluster.Reach Respects w)
    (h' : (cluster.after w).Reach Respects w') {id : TaskId} {t : TaskRecord}
    (ht : (w.db node).getTask id = some t) (hf : t.state.isFinal = true) :
    (∃ t', (w'.db node).getTask id = some t' ∧ t'.state = t.state ∧ t'.result = t.result) ∨
      t.state = .deadLetter ∧
        RetriedByTool w'.log id (w.replicas node).applied (w'.replicas node).applied := by
  refine kept_until_retried (Q := fun t' => t'.state = t.state ∧ t'.result = t.result) ?_ h h' ht
    ⟨rfl, rfl⟩
  rintro u host v t₁ hr hst ht₁ ⟨hstate, hresult⟩
  have hu := h.trans hr
  obtain ⟨t₂, ht₂, hs₂, hr₂⟩ | ⟨hdead, hretried⟩ :=
    (reach_consistent hu).keeps_terminal (reach_respected hu _ u.log_mem_logs) hst ht₁
      (hstate ▸ hf)
  · exact .inl ⟨t₂, ht₂, hs₂.trans hstate, hr₂.trans hresult⟩
  · exact .inr ⟨hstate ▸ hdead, hretried⟩

end World

-- ---------------------------------------------------------------------------
-- One node, one task
-- ---------------------------------------------------------------------------

def startedTask : List Action :=
  [.submitTask "n" "u" {}, .commit 1, .apply "n" (hostOf "n"),
    .runSchedulingCycle "n" 0 fun _ => some "n", .commit 2, .apply "n" (hostOf "n"),
    .cycleResume "n" "u" "n" true [] fun _ => none, .dispatchStart "n" "u" "n",
    .dispatchExecute "n" "u" "n", .commit 3, .apply "n" (hostOf "n")]

def completesTask (index : Nat) : List Action :=
  [.dispatchComplete "n" "u" "n" { exitCode := some 0 }, .commit index, .apply "n" (hostOf "n")]

/-- A running task is cancelled; then its result comes in, and it is completed. -/
theorem cancelled_task_completes :
    ∃ w w', cluster.Reach (fun _ _ => True) w ∧ (cluster.after w).Reach (fun _ _ => True) w' ∧
      ((w.db "n").getTask "u").map (·.state) = some .cancelled ∧
      ((w'.db "n").getTask "u").map (·.state) = some .completed ∧
      ∀ item ∈ w'.log, item.proposer ≠ .retryDeadLetterTask := by
  exact System.Reach.replay_on (World.starts_start ["n"] (some "n"))
    (startedTask ++ [.cancelTask "n" "u", .commit 4, .apply "n" (hostOf "n")]) (completesTask 5)
    (by decide +kernel)

theorem completed_task_stays :
    ∃ w w', cluster.Reach World.Respects w ∧ (cluster.after w).Reach World.Respects w' ∧
      (w.replicas "n").applied < (w'.replicas "n").applied ∧
      ((w'.db "n").getTask "u").map (·.state) = some .completed := by
  obtain ⟨w, w', hr, hr', hst, hlt⟩ := @System.Reach.replay_on _ _ cluster World.Respects _ _
    (fun w w' => ((w.db "n").getTask "u").map (·.state) = some .completed ∧
      (w.replicas "n").applied < (w'.replicas "n").applied) _
    (World.starts_start ["n"] (some "n")) (startedTask ++ completesTask 4)
    [.cancelTask "n" "u", .appendElsewhere "n", .commit 5, .apply "n" (hostOf "n")] (by decide +kernel)
  obtain ⟨t, ht, hst⟩ := Option.map_eq_some_iff.mp hst
  refine ⟨w, w', hr, hr', hlt, ?_⟩
  obtain ⟨t', ht', hs', -⟩ | ⟨hdead, -⟩ := World.terminal_absorbing hr hr' ht (by rw [hst]; rfl)
  · rw [ht', Option.map_some, hs', hst]
  · rw [hst] at hdead
    cases hdead

end ClaudeCluster.Tasks
