import Tim2Tox.SendRuns

set_option autoImplicit false

/-!
# Safety of the send control

A cancelled message is never sent, no message is sent twice in the life of a process, and a
queued message never disappears.
-/
namespace Tim2Tox.SendControl
open OfflineQueue LabelledRuns

/-! ## Empty texts

A drain clears an item with an empty text without a send. -/

def Mute (m : Message) (w : World) : Prop := ∀ ok, .native m ok ∉ w.log

section
variable {m x : Message} {w w' : World} {d : Drain} {item : Item} {drain : Option Drain}
  {deliverable : Bool} {outcome : Outcome}

theorem Mute.logs {e : Entry} (h : Mute m w) (he : ∀ ok, e ≠ .native m ok) : Mute m (w.logs e) := by
  intro ok hmem
  obtain hold | hlast := List.mem_append.mp hmem
  · exact h ok hold
  · exact he ok (List.mem_singleton.mp hlast).symm

theorem Mute.ready (h : Mute m w) : Mute m (w.ready drain) := by
  cases drain <;> exact h

theorem Mute.endDrain (h : Mute m w) : Mute m (w.endDrain drain) := by
  cases drain <;> exact h

theorem Mute.afterSettle (h : Mute m w) : Mute m (w.afterSettle item drain) := by
  cases drain with
  | some d => exact h.ready
  | none => exact Mute.logs h (by simp)

theorem Mute.settleTombstone {history : Bool} (h : Mute m w) :
    Mute m (w.settleTombstone history item drain) := by
  unfold World.settleTombstone
  split
  · exact h
  · exact h.afterSettle

theorem Mute.settleRefusedItem (h : Mute m w) : Mute m (w.settleRefusedItem d item) := by
  unfold World.settleRefusedItem
  split_ifs
  · exact h.ready
  · exact h.settleTombstone
  · exact h
  · exact h.ready

theorem Mute.commitDrainFailure (h : Mute m w) : Mute m (w.commitDrainFailure d item) := by
  unfold World.commitDrainFailure
  split_ifs
  · exact h
  · exact h.endDrain

theorem Mute.send (hempty : m.text = "") (h : Mute m w) :
    Mute m (w.send d item deliverable outcome) := by
  unfold World.send
  split_ifs with htext hoff
  · exact h
  · exact h.endDrain
  · have hother : ∀ ok, Mute m (w.logs (.native item.message ok)) := by
      intro ok
      refine h.logs fun ok' he => htext ?_
      cases he
      exact hempty
    cases outcome with
    | ok => exact hother true
    | invalid => exact (hother false).endDrain
    | transport => exact (hother false).endDrain
    | error => exact (hother false).commitDrainFailure

theorem Mute.keepQueued (h : Mute m w) : Mute m (w.keepQueued d x) := h

theorem Mute.cleared (hempty : m.text = "") (h : Mute m w) :
    Mute m (w.cleared d item deliverable outcome) := by
  unfold World.cleared
  split_ifs
  · exact h
  · exact Mute.send hempty h

theorem Mute.clearRetryFailureOf (hempty : m.text = "") (h : Mute m w) :
    Mute m (w.clearRetryFailureOf d item deliverable outcome) := by
  unfold World.clearRetryFailureOf
  split
  · exact h.cleared hempty
  · split_ifs
    · exact h
    · exact h

theorem Mute.next (hempty : m.text = "") (h : Mute m w) :
    Mute m (w.next d deliverable outcome) := by
  unfold World.next
  split
  · exact h.endDrain
  · dsimp only
    split_ifs
    · exact h
    · exact h.endDrain
    · unfold World.clearRetryFailureDurably
      split_ifs
      · exact Mute.clearRetryFailureOf hempty h
      · exact h
    · exact Mute.send hempty h
    · exact h.settleRefusedItem

theorem Mute.reconcile {history pendingRow : Bool} (h : Mute m w) :
    Mute m (w.reconcile history pendingRow item drain) := by
  unfold World.reconcile
  split
  · split_ifs
    · exact h.ready
    · exact h
  · split_ifs
    · exact h.ready
    · exact h

theorem Mute.reconcileSentItem {history : Bool} (h : Mute m w) :
    Mute m (w.reconcileSentItem history item drain) := by
  unfold World.reconcileSentItem
  split
  · split_ifs
    · exact h
    · exact h.ready
  · exact h.ready

theorem Mute.mutated {s : Stage} {written : World.Written} (h : Mute m w) :
    Mute m (w.mutated s item drain written) := by
  cases s with
  | adding =>
    simp only [World.mutated]
    split_ifs <;> exact h
  | cancelling =>
    cases written with
    | done => exact h.settleTombstone
    | absent => exact Mute.logs h (by simp)
    | failed => exact Mute.logs h (by simp)
  | retrying =>
    simp only [World.mutated]
    split_ifs
    · split <;> exact h
    · exact h
  | unqueueing => exact h.afterSettle
  | discarding =>
    simp only [World.mutated]
    split_ifs
    · exact h.endDrain
    · exact h.ready
  | removing pendingRow =>
    simp only [World.mutated]
    split_ifs
    · exact h
    · exact h.ready
    · exact h.reconcile
  | reremoving => exact h.reconcileSentItem
  | failing =>
    simp only [World.mutated]
    split_ifs
    · exact h.settleTombstone
    · exact h.endDrain
  | dropping | settling | loading | clearing | reconciling => exact h.ready

theorem Mute.saved {s : Stage} {ok : Bool} (hempty : m.text = "") (h : Mute m w) :
    Mute m (w.saved s item drain ok deliverable outcome) := by
  unfold World.saved
  split
  · split_ifs
    · exact h
    · exact h.afterSettle
  · split_ifs
    · exact h.cleared hempty
    · exact h
  · exact h.ready

theorem stepWrite_mute {j : ℕ} (h : Mute m w) (hstep : stepWrite w j = some w') : Mute m w' := by
  unfold stepWrite at hstep
  split at hstep
  · split_ifs at hstep
    cases hstep
    exact h
  · rename_i stage item drain save _
    split at hstep
    · split_ifs at hstep
      cases hstep
      exact h
    · simp only [Option.ite_none_right_eq_some, Option.some.injEq] at hstep
      obtain ⟨-, rfl⟩ := hstep
      intro ok hmem
      by_cases hadd : stage = .adding
      · simp only [if_pos hadd, List.mem_append, List.mem_singleton] at hmem
        exact h ok (hmem.resolve_right (by simp))
      · simp only [if_neg hadd] at hmem
        exact h ok hmem
  · cases hstep

theorem stepFail_mute {j : ℕ} (hempty : m.text = "") (h : Mute m w)
    (hstep : stepFail w j = some w') : Mute m w' := by
  have hrest : Mute m { w with tasks := w.tasks.eraseIdx j } := h
  unfold stepFail at hstep
  split at hstep
  · cases hstep
  · split_ifs at hstep
    cases hstep
    exact h
  · cases hstep
  · split_ifs at hstep
    · cases hstep
      exact hrest.mutated
    · cases hstep
      exact hrest.saved hempty
  · cases hstep

theorem stepResume_mute {j : ℕ} (hempty : m.text = "") (h : Mute m w)
    (hstep : stepResume w j deliverable outcome = some w') : Mute m w' := by
  have hrest : Mute m { w with tasks := w.tasks.eraseIdx j } := h
  unfold stepResume at hstep
  split at hstep
  · cases hstep
    exact hrest.next hempty
  · split_ifs at hstep
    cases hstep
    exact h
  · cases hstep
    unfold World.historyLoaded
    split_ifs
    · exact hrest.clearRetryFailureOf hempty
    · exact hrest
  · split_ifs at hstep
    · cases hstep
      exact Mute.mutated h
    · cases hstep
      exact hrest.mutated
    · split at hstep
      · cases hstep
        exact hrest.saved hempty
      · cases hstep
  · cases hstep

theorem step_mute {e : Event} (hempty : m.text = "") (h : Mute m w) (hstep : step w e = some w') :
    Mute m w' := by
  cases e with
  | queueText x =>
    simp only [step] at hstep
    split_ifs at hstep
    cases hstep
    exact h
  | cancelQueuedMessage x =>
    cases hstep
    unfold World.cancelQueuedMessage
    split
    · exact h
    · exact h.logs (by simp)
  | retryFailedMessage x =>
    cases hstep
    unfold World.retryFailedMessage
    split <;> exact h
  | sendPending c =>
    cases hstep
    exact h
  | saveHistory c copied =>
    simp only [step, Option.ite_none_right_eq_some, Option.some.injEq] at hstep
    obtain ⟨-, rfl⟩ := hstep
    exact h
  | loadHistory c =>
    simp only [step, Option.ite_none_right_eq_some, Option.some.injEq] at hstep
    obtain ⟨-, rfl⟩ := hstep
    exact h
  | take j =>
    simp only [step, stepTake] at hstep
    split at hstep
    · split_ifs at hstep
      cases hstep
      exact h
    · split_ifs at hstep
      cases hstep
      exact h
    · cases hstep
  | write j => exact stepWrite_mute h hstep
  | fail j => exact stepFail_mute hempty h hstep
  | resume j deliverable outcome => exact stepResume_mute hempty h hstep
  | receipt x read | failure x pending =>
    simp only [step] at hstep
    split at hstep
    · split_ifs at hstep
      cases hstep
      exact h
    · cases hstep
  | trim x =>
    simp only [step] at hstep
    split at hstep
    · cases hstep
      exact h
    · cases hstep
  | restart =>
    cases hstep
    exact Mute.logs h (by simp)

/-- An empty text is never handed to the native send. -/
theorem run_mute {es : List Event} (hempty : m.text = "") (hrun : exec step {} es = some w) :
    Mute m w :=
  invariant (fun _ _ _ h hstep => step_mute hempty h hstep) (by simp [Mute]) hrun

end

/-! ## Cancelled messages -/

/-- What the call logs is the result it was given at once. -/
theorem cancellable_of_log {w : World} {m : Message} {result : SendControlResult}
    (h : (w.cancelQueuedMessage m).log = w.log ++ [.cancelResult m result]) :
    w.cancellable m = .error result := by
  unfold World.cancelQueuedMessage at h
  cases hres : w.cancellable m with
  | ok item =>
    rw [hres] at h
    simp [World.push] at h
  | error result' =>
    rw [hres] at h
    have hlast : [Entry.cancelResult m result'] = [.cancelResult m result] :=
      List.append_cancel_left h
    cases hlast
    rfl

def samplePeer : Conversation := .peer "AB"

def sampleText : Message := { msgID := "1", conversation := samplePeer, text := "hi", timestamp := 5 }

def emptyText : Message := { msgID := "2", conversation := samplePeer, text := "", timestamp := 5 }

/-- A text is queued, and its row shown. -/
def queueRun (m : Message) : List Event := [.queueText m, .write 0, .resume 0 true .ok]

/-- A drain clears an empty text, and ends. -/
def emptyRun : List Event :=
  queueRun emptyText ++ [.sendPending samplePeer, .resume 0 true .ok, .write 0, .resume 0 true .ok,
    .resume 0 true .ok]

theorem queued_message_kept (es : List Event) (w : World) (m : Message) (htext : m.text ≠ "")
    (hrun : exec step {} es = some w) (hqueued : .queued m ∈ w.log) :
    (∃ item ∈ w.queueFile, item.message = m) ∨ .native m true ∈ w.log ∨
      ((w.historyFile m).any fun r => r.isFailed || r.isCancelled) = true := by
  have h := run_inv htext hrun
  obtain hfile | hrows := h.trail.kept hqueued
  · refine .inl ?_
    by_contra hno
    apply hfile
    unfold controls
    rw [List.map_eq_nil_iff, List.filter_eq_nil_iff]
    intro item hmem hm
    exact hno ⟨item, hmem, by simpa using hm⟩
  · exact .inr hrows.1

/-- A send that failed: the tombstone is written, the row says so, the save of the row fails and
    the process dies. -/
def failRun : List Event :=
  queueRun sampleText ++ [.sendPending samplePeer, .resume 0 true .error, .write 0,
    .resume 0 true .ok, .fail 0, .restart]

theorem kept_after_failure : ∃ w, exec step {} failRun = some w ∧ .queued sampleText ∈ w.log ∧
    .native sampleText true ∉ w.log ∧ w.historyFile sampleText = none ∧
    ((∃ item ∈ w.queueFile, item.message = sampleText) ∨ .native sampleText true ∈ w.log ∨
      ((w.historyFile sampleText).any fun r => r.isFailed || r.isCancelled) = true) := by
  have hrun : ((exec step {} failRun).any fun w => .queued sampleText ∈ w.log ∧
      .native sampleText true ∉ w.log ∧ w.historyFile sampleText = none) = true := by
    decide
  obtain ⟨w, hw, h⟩ := (Option.any_eq_true _ _).mp hrun
  simp only [decide_eq_true_eq] at h
  obtain ⟨hqueued, hno, hnone⟩ := h
  exact ⟨w, hw, hqueued, hno, hnone,
    queued_message_kept failRun w sampleText (by decide) hw hqueued⟩

/-- An empty text leaves the queue without a send and without a row that says so. -/
theorem empty_text_disappears : ∃ w, exec step {} emptyRun = some w ∧ .queued emptyText ∈ w.log ∧
    ¬((∃ item ∈ w.queueFile, item.message = emptyText) ∨ .native emptyText true ∈ w.log ∨
      ((w.historyFile emptyText).any fun r => r.isFailed || r.isCancelled) = true) := by
  have hrun : ((exec step {} emptyRun).any fun w => .queued emptyText ∈ w.log ∧
      ¬((∃ item ∈ w.queueFile, item.message = emptyText) ∨ .native emptyText true ∈ w.log ∨
        ((w.historyFile emptyText).any fun r => r.isFailed || r.isCancelled) = true)) = true := by
    decide
  obtain ⟨w, hw, h⟩ := (Option.any_eq_true _ _).mp hrun
  simp only [decide_eq_true_eq] at h
  exact ⟨w, hw, h.1, h.2⟩

end Tim2Tox.SendControl
