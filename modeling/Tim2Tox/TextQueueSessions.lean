import Tim2Tox.LabelledRuns
import Tim2Tox.TextQueueLives

set_option autoImplicit false

/-!
# Sessions of the text-event queue

An instance id is reused by the next account. What a previous session left in the queue goes
when the new one is first polled, once, while a producer reads its stamp before it takes the
lock of the queue.
-/
namespace Tim2Tox.TextQueue
open LabelledRuns

namespace Queue

section
variable {q : Queue} {cls : EventClass}

/-! ## Room is made among the live events -/

/-- Only live events go, and no epoch changes. -/
structure Thins (q q' : Queue) : Prop where
  lives : ∀ e ∈ q'.lives, e ∈ q.lives
  polledEpoch : q'.polledEpoch = q.polledEpoch

theorem Thins.trans {q' q'' : Queue} (h : Thins q q') (h' : Thins q' q'') : Thins q q'' :=
  ⟨fun e he => h.lives e (h'.lives e he), h'.polledEpoch.trans h.polledEpoch⟩

theorem Evicts.thins {result : Bool × Queue} (h : q.Evicts cls result) : Thins q result.2 := by
  rcases h with ⟨-, -, hleft⟩ | ⟨-, -, hleft⟩
  · refine ⟨fun e he => ?_, hleft.polledEpoch⟩
    rw [hleft.lives] at he
    exact List.mem_of_mem_eraseP he
  · refine ⟨fun e he => ?_, hleft.polledEpoch⟩
    rw [hleft.lives] at he
    exact he

theorem makeRoom_thins (cls : EventClass) (bytes turns : ℕ) :
    ∀ q, Sound q → Thins q (makeRoom cls bytes turns q) := by
  induction turns with
  | zero => exact fun q _ => ⟨fun e he => he, rfl⟩
  | succ turns ih =>
    intro q h
    have hlossy := (evictOldest_evicts h.wellFormed .lossy (by decide)).thins
    have hsound := h.evictOldest .lossy
    rcases heq : q.evictOldest .lossy with ⟨evicted, q'⟩
    rw [heq] at hlossy hsound
    unfold Queue.makeRoom
    rw [heq]
    split_ifs with hover hcls
    · cases evicted with
      | true => exact hlossy.trans (ih q' hsound)
      | false =>
        dsimp only at hlossy hsound ⊢
        have hchat := (evictOldest_evicts hsound.wellFormed .chat (by decide)).thins
        have hsound' := hsound.evictOldest .chat
        rcases heq' : q'.evictOldest .chat with ⟨evicted', q''⟩
        rw [heq'] at hchat hsound'
        cases evicted' with
        | true => exact (hlossy.trans hchat).trans (ih q'' hsound')
        | false => exact hlossy.trans hchat
    · cases evicted with
      | true => exact hlossy.trans (ih q' hsound)
      | false => exact hlossy
    · exact ⟨fun e he => he, rfl⟩

theorem enqueue_lives (h : Sound q) (i : ℤ) (line : Line) (epoch : ℤ) :
    (q.enqueueTextLineForInstance i line epoch).polledEpoch = q.polledEpoch ∧
      ∀ e ∈ (q.enqueueTextLineForInstance i line epoch).lives, e ∈ q.lives ∨
        e = { instanceId := i, line, cls := classify line, live := true, sessionEpoch := epoch } := by
  have hroom := makeRoom_thins (classify line) line.length (q.liveEvents + 1) q h
  have haccept : ∀ e ∈ ((makeRoom (classify line) line.length (q.liveEvents + 1) q).accept
      { instanceId := i, line, cls := classify line, live := true, sessionEpoch := epoch }).lives,
      e ∈ q.lives ∨
        e = { instanceId := i, line, cls := classify line, live := true, sessionEpoch := epoch } := by
    intro e he
    rw [lives, accept, List.filter_append, List.mem_append] at he
    rcases he with hold | hnew
    · exact Or.inl (hroom.lives e hold)
    · exact Or.inr (List.mem_singleton.mp (List.mem_filter.mp hnew).1)
  unfold enqueueTextLineForInstance
  dsimp only
  split_ifs
  · exact ⟨hroom.polledEpoch, fun e he => Or.inl (hroom.lives e he)⟩
  · exact ⟨hroom.polledEpoch, fun e he => Or.inl (hroom.lives e he)⟩
  · exact ⟨hroom.polledEpoch, haccept⟩
  · exact ⟨hroom.polledEpoch, haccept⟩

end

/-! ## Stamps of the records queued -/

/-- The event a poll hands over: the copy to the buffer did not fail. -/
def returns (q : Queue) (instanceId sessionEpoch : ℤ) (buffer : Bool) (len : ℤ) : Option TextEvent :=
  if 0 ≤ (q.pollText instanceId sessionEpoch buffer len).1.result then
    q.oldestFor instanceId sessionEpoch
  else none

/-- A producer whose stamp is a session's is not late: its instance, never the id that stands for
    none, has not been polled with a later epoch. A poll with the epoch its instance was last polled with is not late either: no
    record of a later session waits for the instance. -/
def inTime (q : Queue) : Call → Bool
  | .enqueue instanceId _ sessionEpoch =>
    sessionEpoch ≤ 0 || (instanceId ≠ kSessionEpochUnknown &&
      (q.polledEpoch instanceId).all fun polled => polled ≤ sessionEpoch)
  | .poll instanceId sessionEpoch _ _ =>
    sessionEpoch ≤ 0 || q.polledEpoch instanceId ≠ some sessionEpoch ||
      q.lives.all fun e => e.instanceId ≠ instanceId || e.sessionEpoch ≤ sessionEpoch
  | .purge _ => true

/-- No record of a session before the one its instance was last polled with is live. -/
structure Recent (q : Queue) : Prop where
  sound : Sound q
  known : ∀ e ∈ q.lives, 0 < e.sessionEpoch → e.instanceId ≠ kSessionEpochUnknown
  since : ∀ e ∈ q.lives, 0 < e.sessionEpoch → ∀ polled,
    q.polledEpoch e.instanceId = some polled → polled ≤ e.sessionEpoch

section
variable {q : Queue}

theorem kept_stamp {i epoch : ℤ} {e : TextEvent} (h : kept i epoch e = true) (hid : e.instanceId = i)
    (hi : i ≠ kSessionEpochUnknown) (hpositive : 0 < e.sessionEpoch) : e.sessionEpoch = epoch := by
  by_contra hother
  simp [kept, purges, hid, hi, hpositive, hother] at h

theorem Recent.enqueue (h : Recent q) (i : ℤ) (line : Line) (epoch : ℤ)
    (htime : q.inTime (.enqueue i line epoch) = true) :
    Recent (q.enqueueTextLineForInstance i line epoch) := by
  obtain ⟨hepochs, hlives⟩ := enqueue_lives h.sound i line epoch
  have hnew : 0 < epoch → i ≠ kSessionEpochUnknown ∧
      ∀ polled, q.polledEpoch i = some polled → polled ≤ epoch := by
    intro hpositive
    have hlate : ¬ epoch ≤ 0 := by omega
    simp only [inTime, hlate, decide_false, Bool.false_or, Bool.and_eq_true, decide_eq_true_eq,
      Option.all_eq_true] at htime
    exact ⟨htime.1, htime.2⟩
  refine ⟨h.sound.enqueue i line epoch, ?_, ?_⟩
  · intro e he hpositive
    rcases hlives e he with hold | rfl
    · exact h.known e hold hpositive
    · exact (hnew hpositive).1
  · intro e he hpositive polled hpolled
    rw [hepochs] at hpolled
    rcases hlives e he with hold | rfl
    · exact h.since e hold hpositive polled hpolled
    · exact (hnew hpositive).2 polled hpolled

theorem Recent.enterSession (h : Recent q) (i epoch : ℤ) : Recent (q.enterSession i epoch) := by
  have hsub : ∀ e ∈ (q.enterSession i epoch).lives, e ∈ q.lives := by
    intro e he
    rw [enterSession_lives] at he
    split_ifs at he
    · exact (List.mem_filter.mp he).1
    · exact he
  refine ⟨h.sound.enterSession i epoch, fun e he => h.known e (hsub e he), ?_⟩
  intro e he hpositive polled hpolled
  rw [enterSession_polledEpoch] at hpolled
  by_cases hnew : epoch > 0 ∧ q.polledEpoch i ≠ some epoch
  · rw [if_pos hnew.1] at hpolled
    rw [enterSession_lives, if_pos hnew, List.mem_filter] at he
    by_cases hid : e.instanceId = i
    · rw [hid, Function.update_self] at hpolled
      have hstamp := kept_stamp he.2 hid (by rw [← hid]; exact h.known e he.1 hpositive) hpositive
      have hsame := Option.some.inj hpolled
      omega
    · rw [Function.update_of_ne hid] at hpolled
      exact h.since e he.1 hpositive polled hpolled
  · refine h.since e (hsub e he) hpositive polled ?_
    by_cases hpos : epoch > 0
    · have hseen : q.polledEpoch i = some epoch := by
        by_contra hother
        exact hnew ⟨hpos, hother⟩
      rw [if_pos hpos, ← hseen, Function.update_eq_self] at hpolled
      exact hpolled
    · rw [if_neg hpos] at hpolled
      exact hpolled

theorem Recent.thin {q' : Queue} (h : Recent q) (hsound : Sound q') (hthin : Thins q q') :
    Recent q' := by
  refine ⟨hsound, fun e he => h.known e (hthin.lives e he), fun e he => ?_⟩
  rw [hthin.polledEpoch]
  exact h.since e (hthin.lives e he)

theorem pollText_thins (h : Sound q) (i epoch : ℤ) (buffer : Bool) (len : ℤ) :
    Thins (q.enterSession i epoch) (q.pollText i epoch buffer len).2 := by
  rcases pollText_spec h.wellFormed i epoch buffer len with ⟨-, hpoll⟩ | ⟨e, -, -, hcase⟩
  · rw [hpoll]
    exact ⟨fun e he => he, rfl⟩
  · rcases hcase with ⟨-, hsame⟩ | ⟨-, hleft⟩
    · rw [hsame]
      exact ⟨fun e he => he, rfl⟩
    · refine ⟨fun e he => ?_, hleft.polledEpoch⟩
      rw [hleft.lives] at he
      exact List.mem_of_mem_eraseP he

theorem Recent.purgeInstance (h : Recent q) (i : ℤ) : Recent (q.purgeInstance i) := by
  obtain ⟨hlives, -, hepochs⟩ := purgeInstance_leaves q i
  have hsub : ∀ e ∈ (q.purgeInstance i).lives, e ∈ q.lives := by
    intro e he
    rw [hlives] at he
    exact (List.mem_filter.mp he).1
  refine ⟨h.sound.after (.purge i), fun e he => h.known e (hsub e he), ?_⟩
  intro e he hpositive polled hpolled
  rw [hepochs] at hpolled
  by_cases hid : e.instanceId = i
  · rw [hid, Function.update_self] at hpolled
    contradiction
  · rw [Function.update_of_ne hid] at hpolled
    exact h.since e (hsub e he) hpositive polled hpolled

theorem Recent.after (h : Recent q) (call : Call) (htime : q.inTime call = true) :
    Recent (q.after call) := by
  cases call with
  | enqueue i line epoch => exact h.enqueue i line epoch htime
  | poll i epoch buffer len =>
    exact (h.enterSession i epoch).thin (h.sound.pollText i epoch buffer len)
      (pollText_thins h.sound i epoch buffer len)
  | purge i => exact h.purgeInstance i

/-- A poll in time hands over no record of another session. -/
theorem Recent.returns (h : Recent q) {i epoch len : ℤ} {buffer : Bool} {e : TextEvent}
    (htime : q.inTime (.poll i epoch buffer len) = true) (hepoch : 0 < epoch)
    (hreturned : q.returns i epoch buffer len = some e) (hid : e.instanceId = i)
    (hpositive : 0 < e.sessionEpoch) : e.sessionEpoch = epoch := by
  have hfound : (q.enterSession i epoch).lives.find? (addressed i) = some e := by
    unfold Queue.returns at hreturned
    split_ifs at hreturned
    exact hreturned
  have hmem := List.mem_of_find?_eq_some hfound
  rw [enterSession_lives] at hmem
  by_cases hnew : epoch > 0 ∧ q.polledEpoch i ≠ some epoch
  · rw [if_pos hnew, List.mem_filter] at hmem
    exact kept_stamp hmem.2 hid (by rw [← hid]; exact h.known e hmem.1 hpositive) hpositive
  · rw [if_neg hnew] at hmem
    have hseen : q.polledEpoch i = some epoch := by
      by_contra hother
      exact hnew ⟨hepoch, hother⟩
    have hnotOlder := h.since e hmem hpositive epoch (by rw [hid]; exact hseen)
    have hnotNewer : e.sessionEpoch ≤ epoch := by
      have hlate : ¬ epoch ≤ 0 := by omega
      simp only [inTime, hlate, decide_false, hseen, ne_eq, not_true_eq_false, Bool.or_self,
        Bool.false_or, List.all_eq_true, Bool.or_eq_true, decide_eq_true_eq] at htime
      rcases htime e hmem with hother | hle
      · exact absurd hid hother
      · exact hle
    omega

end

/-- The calls as steps. -/
def step (q : Queue) (call : Call) : Option Queue := some (q.after call)

theorem Recent.run {calls : List Call} {q : Queue}
    (hmeets : Meets step (fun q call => q.inTime call = true) {} calls)
    (hrun : exec step {} calls = some q) : Recent q := by
  refine invariant_of_meets (fun q call q' h htime hstep => ?_)
    ⟨Sound.empty, by simp [lives], by simp [lives]⟩ hmeets hrun
  rw [← Option.some.inj hstep]
  exact h.after call htime

/-- Whatever the order of producers, polls and teardowns that come in time: a poll of a session
    hands over no record of its instance that another session stamped. -/
theorem poll_returns_own_session (calls : List Call) (i epoch len : ℤ) (buffer : Bool) (q : Queue)
    (hmeets : Meets step (fun q call => q.inTime call = true) {}
      (calls ++ [.poll i epoch buffer len]))
    (hrun : exec step {} calls = some q) (hepoch : 0 < epoch) (e : TextEvent)
    (hreturned : q.returns i epoch buffer len = some e) (hid : e.instanceId = i) :
    ¬ (0 < e.sessionEpoch ∧ e.sessionEpoch ≠ epoch) := by
  obtain ⟨hbefore, hpoll⟩ := meets_append hmeets hrun
  have hrecent := Recent.run hbefore hrun
  intro hother
  exact hother.2 (hrecent.returns hpoll.1 hepoch hreturned hid hother.1)

/-- Two sessions of an instance, each polled for its own record. -/
def takenOver : List Call :=
  [.enqueue 7 (ascii "c2c:a:one") 1, .poll 7 1 true 64, .enqueue 7 (ascii "c2c:a:two") 1, .purge 7,
    .enqueue 7 (ascii "c2c:b:three") 2]

theorem second_session_polls_its_own :
    Meets step (fun q call => q.inTime call = true) {} (takenOver ++ [.poll 7 2 true 64]) ∧
      ∃ e, (takenOver.foldl Queue.after {}).returns 7 2 true 64 = some e ∧
        ¬ (0 < e.sessionEpoch ∧ e.sessionEpoch ≠ 2) := by
  have hmeets : Meets step (fun q call => q.inTime call = true) {}
      (takenOver ++ [.poll 7 2 true 64]) := by decide
  refine ⟨hmeets, ⟨7, ascii "c2c:b:three", .chat, true, 2⟩, by decide, ?_⟩
  exact poll_returns_own_session takenOver 7 2 64 true (takenOver.foldl Queue.after {}) hmeets rfl
    (by decide) _ (by decide) rfl

/-- A producer of the first session stamps its record, the session ends, the second one is polled,
    and only then the producer gets the lock: the next poll of the second session hands the record
    over. -/
theorem late_record_crosses_sessions :
    ∃ e, (List.foldl Queue.after {} [.purge 7, .poll 7 2 true 64,
        .enqueue 7 (ascii "c2c:a:hi") 1]).returns 7 2 true 64 = some e ∧
      e.instanceId = 7 ∧ 0 < e.sessionEpoch ∧ e.sessionEpoch ≠ 2 :=
  ⟨⟨7, ascii "c2c:a:hi", .chat, true, 1⟩, by decide, rfl, by decide, by decide⟩

end Queue
end Tim2Tox.TextQueue
