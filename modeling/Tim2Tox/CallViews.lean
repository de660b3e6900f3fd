import Tim2Tox.CallLegs

set_option autoImplicit false

/-!
# Calls as the embedder sees them

The last callback for an id tells the state of its call, and an invitation that is rejected as busy is
announced once and never rings after it.
-/
namespace Tim2Tox.CallBridge
open KeyedTables LabelledRuns

namespace Bridge

variable {s u : Bridge}

/-! ## The last callback -/

/-- What the embedder was told of the id last. -/
def view (s : Bridge) (id : String) : Option CallState :=
  (s.callbacks.filter fun callback => callback.inviteID = id).getLast?.map Callback.state

/-- The embedder has no call under the id: it was told nothing or an end, or the invitation was
    rejected as busy. -/
def Over (s : Bridge) (id : String) : Prop :=
  s.view id = none ∨ s.view id = some .ended ∨ s.view id = some .ringing ∧ ∃ time, (id, time) ∈ s.busyCalls

/-- The view is the state of the call; a call that the embedder has registered itself is not told. -/
def Agrees (s : Bridge) (id : String) : Option CallInfo → Prop
  | none => s.Over id
  | some call => call.state = .calling ∧ s.Over id ∨ call.state = .ringing ∧ s.view id = some .ringing ∨
    call.state = .inCall ∧ s.view id = some .inCall

theorem view_emit_self (s : Bridge) (id : String) (state : CallState) (reason : Option EndReason) :
    (s.emit id state reason).view id = some state := by
  unfold view emit
  rw [List.filter_append, List.filter_singleton, decide_eq_true rfl, cond_true, List.getLast?_concat]
  rfl

theorem view_emit_ne (s : Bridge) {id other : String} (hother : other ≠ id) (state : CallState)
    (reason : Option EndReason) : (s.emit id state reason).view other = s.view other := by
  unfold view emit
  rw [List.filter_append, List.filter_singleton, decide_eq_false (Ne.symm hother), cond_false, List.append_nil]

theorem view_congr (h : u.callbacks = s.callbacks) (id : String) : u.view id = s.view id := by
  rw [view, view, h]

theorem Agrees.mono {id : String} {found : Option CallInfo} (h : s.Agrees id found) (hview : u.view id = s.view id)
    (hbusy : ∀ item ∈ s.busyCalls, item ∈ u.busyCalls) : u.Agrees id found := by
  have hover : s.Over id → u.Over id := by
    rintro (hnone | hended | ⟨hringing, time, htime⟩)
    · exact .inl (hview.trans hnone)
    · exact .inr (.inl (hview.trans hended))
    · exact .inr (.inr ⟨hview.trans hringing, time, hbusy _ htime⟩)
  cases found with
  | none => exact hover h
  | some call =>
    rcases h with ⟨hstate, hcalling⟩ | ⟨hstate, hringing⟩ | ⟨hstate, hcall⟩
    · exact .inl ⟨hstate, hover hcalling⟩
    · exact .inr (.inl ⟨hstate, hview.trans hringing⟩)
    · exact .inr (.inr ⟨hstate, hview.trans hcall⟩)

/-! ## What every function keeps -/

/-- The embedder's view, the invitations it is asked about, the ids it rejects without a call, and
    that a disposed bridge has no calls. -/
structure Seen (s : Bridge) : Prop where
  named : ∀ id call, s.activeCalls.lookup id = some call → call.inviteID = id
  agrees : s.disposed = false → ∀ id, s.Agrees id (s.activeCalls.lookup id)
  asked : ∀ call, Frame.asked call ∈ s.stack → call.state = .ringing
  apart : ∀ id ∈ s.rejects, id ∉ s.activeCalls
  quiet : s.disposed = true → s.activeCalls = ∅

/-- What touches neither the calls nor the callbacks. -/
theorem Seen.same (h : s.Seen) (hcalls : u.activeCalls = s.activeCalls) (hcallbacks : u.callbacks = s.callbacks)
    (hdisposed : u.disposed = s.disposed) (hrejects : ∀ id ∈ u.rejects, id ∈ s.rejects)
    (hbusy : ∀ item ∈ s.busyCalls, item ∈ u.busyCalls)
    (hstack : ∀ call, Frame.asked call ∈ u.stack → Frame.asked call ∈ s.stack) : u.Seen := by
  refine ⟨fun id call hcall => ?_, fun hon id => ?_, fun call hcall => h.asked call (hstack call hcall),
    fun id hid => ?_, fun hoff => ?_⟩
  · rw [hcalls] at hcall
    exact h.named id call hcall
  · rw [hcalls]
    exact (h.agrees (hdisposed.symm.trans hon) id).mono (view_congr hcallbacks id) hbusy
  · rw [hcalls]
    exact h.apart id (hrejects id hid)
  · rw [hcalls]
    exact h.quiet (hdisposed.symm.trans hoff)

/-- What changes the calls and the callbacks at one id. -/
theorem Seen.change (h : s.Seen) (id : String)
    (hother : ∀ other, other ≠ id → u.activeCalls.lookup other = s.activeCalls.lookup other)
    (hview : ∀ other, other ≠ id → u.view other = s.view other)
    (hname : ∀ call, u.activeCalls.lookup id = some call → call.inviteID = id)
    (hid : s.disposed = false → u.Agrees id (u.activeCalls.lookup id))
    (hdisposed : u.disposed = s.disposed) (hrejects : u.rejects = s.rejects)
    (hbusy : ∀ item ∈ s.busyCalls, item ∈ u.busyCalls)
    (hfree : id ∈ s.rejects → id ∉ u.activeCalls) (hquiet : s.disposed = true → u.activeCalls = ∅)
    (hstack : ∀ call, Frame.asked call ∈ u.stack → Frame.asked call ∈ s.stack) : u.Seen := by
  refine ⟨fun other call hcall => ?_, fun hon other => ?_, fun call hcall => h.asked call (hstack call hcall),
    fun other hmem => ?_, fun hoff => hquiet (hdisposed.symm.trans hoff)⟩
  · by_cases heq : other = id
    · rw [heq] at hcall ⊢
      exact hname call hcall
    · rw [hother other heq] at hcall
      exact h.named other call hcall
  · rw [hdisposed] at hon
    by_cases heq : other = id
    · rw [heq]
      exact hid hon
    · rw [hother other heq]
      exact (h.agrees hon other).mono (hview other heq) hbusy
  · rw [hrejects] at hmem
    by_cases heq : other = id
    · rw [heq] at hmem ⊢
      exact hfree hmem
    · rw [← AList.lookup_isSome, hother other heq, AList.lookup_isSome]
      exact h.apart other hmem

/-- The call of an id goes and the embedder is told. -/
theorem Seen.ended (h : s.Seen) (id : String) (reason : Option EndReason)
    (hcalls : u.activeCalls = s.activeCalls.erase id)
    (hcallbacks : u.callbacks = (s.emit id .ended reason).callbacks) (hdisposed : u.disposed = s.disposed)
    (hrejects : u.rejects = s.rejects) (hbusy : u.busyCalls = s.busyCalls)
    (hstack : ∀ call, Frame.asked call ∈ u.stack → Frame.asked call ∈ s.stack) : u.Seen := by
  refine h.change id (fun other hother => ?_) (fun other hother => ?_) (fun call hcall => ?_) (fun _ => ?_)
    hdisposed hrejects (fun _ hitem => hbusy ▸ hitem) (fun _ hmem => ?_) (fun hoff => ?_) hstack
  · rw [hcalls, AList.lookup_erase_ne hother]
  · rw [view_congr hcallbacks, view_emit_ne s hother]
  · rw [hcalls, AList.lookup_erase] at hcall
    contradiction
  · rw [hcalls, AList.lookup_erase]
    refine .inr (.inl ?_)
    rw [view_congr hcallbacks, view_emit_self]
  · rw [hcalls] at hmem
    exact (AList.mem_erase.mp hmem).1 rfl
  · rw [hcalls, h.quiet hoff]
    rfl

theorem not_disposed_of_call (h : s.Seen) {id : String} {call : CallInfo}
    (hcall : s.activeCalls.lookup id = some call) : s.disposed = false := by
  by_contra hoff
  rw [h.quiet (Bool.not_eq_false _ |>.mp hoff), AList.lookup_empty] at hcall
  contradiction

/-- A call changes, as the embedder is told or without a new state. -/
theorem Seen.update (h : s.Seen) (id : String) {old : CallInfo} (hold : s.activeCalls.lookup id = some old)
    (new : CallInfo) (hname : new.inviteID = old.inviteID)
    (hcalls : u.activeCalls = s.activeCalls.insert id new)
    (htold : u.callbacks = s.callbacks ∧ new.state = old.state ∨
      u.callbacks = (s.emit id .inCall none).callbacks ∧ new.state = .inCall)
    (hdisposed : u.disposed = s.disposed) (hrejects : u.rejects = s.rejects)
    (hbusy : u.busyCalls = s.busyCalls) (hstack : u.stack = s.stack) : u.Seen := by
  have hon := not_disposed_of_call h hold
  refine h.change id (fun other hother => ?_) (fun other hother => ?_) (fun call hcall => ?_) (fun _ => ?_)
    hdisposed hrejects (fun _ hitem => hbusy ▸ hitem) (fun hmem => ?_) (fun hoff => ?_) fun call hcall => ?_
  · rw [hcalls, AList.lookup_insert_ne hother]
  · rcases htold with ⟨hcallbacks, -⟩ | ⟨hcallbacks, -⟩
    · exact view_congr hcallbacks other
    · rw [view_congr hcallbacks, view_emit_ne s hother]
  · rw [hcalls, AList.lookup_insert] at hcall
    rw [← Option.some.inj hcall, hname]
    exact h.named id old hold
  · rw [hcalls, AList.lookup_insert]
    rcases htold with ⟨hcallbacks, hstate⟩ | ⟨hcallbacks, hstate⟩
    · have hagrees := h.agrees hon id
      rw [hold] at hagrees
      have hsame : s.Agrees id (some new) := by
        change new.state = .calling ∧ _ ∨ new.state = .ringing ∧ _ ∨ new.state = .inCall ∧ _
        rw [hstate]
        exact hagrees
      exact hsame.mono (view_congr hcallbacks id) fun _ hitem => hbusy ▸ hitem
    · refine .inr (.inr ⟨hstate, ?_⟩)
      rw [view_congr hcallbacks, view_emit_self]
  · refine absurd ?_ (h.apart id hmem)
    rw [← AList.lookup_isSome, hold]
    rfl
  · exact absurd (hon.symm.trans hoff) (by decide)
  · rw [hstack] at hcall
    exact hcall

/-- A call comes in that nobody rejects. -/
theorem Seen.insert (h : s.Seen) (id : String) (new : CallInfo) (hon : s.disposed = false)
    (hfree : id ∉ s.activeCalls) (hreject : id ∉ s.rejects) (hname : new.inviteID = id)
    (hcalls : u.activeCalls = s.activeCalls.insert id new)
    (htold : u.callbacks = s.callbacks ∧ new.state = .calling ∨
      u.callbacks = (s.emit id .ringing none).callbacks ∧ new.state = .ringing)
    (hdisposed : u.disposed = s.disposed) (hrejects : u.rejects = s.rejects)
    (hbusy : u.busyCalls = s.busyCalls) (hstack : u.stack = s.stack) : u.Seen := by
  refine h.change id (fun other hother => ?_) (fun other hother => ?_) (fun call hcall => ?_) (fun _ => ?_)
    hdisposed hrejects (fun _ hitem => hbusy ▸ hitem) (fun hmem => absurd hmem hreject) (fun hoff => ?_)
    fun call hcall => ?_
  · rw [hcalls, AList.lookup_insert_ne hother]
  · rcases htold with ⟨hcallbacks, -⟩ | ⟨hcallbacks, -⟩
    · exact view_congr hcallbacks other
    · rw [view_congr hcallbacks, view_emit_ne s hother]
  · rw [hcalls, AList.lookup_insert] at hcall
    rw [← Option.some.inj hcall, hname]
  · rw [hcalls, AList.lookup_insert]
    rcases htold with ⟨hcallbacks, hstate⟩ | ⟨hcallbacks, hstate⟩
    · have hagrees := h.agrees hon id
      rw [AList.lookup_eq_none.mpr hfree] at hagrees
      have hcalling : s.Agrees id (some new) := .inl ⟨hstate, hagrees⟩
      exact hcalling.mono (view_congr hcallbacks id) fun _ hitem => hbusy ▸ hitem
    · refine .inr (.inl ⟨hstate, ?_⟩)
      rw [view_congr hcallbacks, view_emit_self]
  · exact absurd (hon.symm.trans hoff) (by decide)
  · rw [hstack] at hcall
    exact hcall

theorem endIfStarted_view (s : Bridge) (call : CallInfo) :
    (s.endAvLegIfStarted call).callbacks = s.callbacks ∧ (s.endAvLegIfStarted call).disposed = s.disposed ∧
      (s.endAvLegIfStarted call).rejects = s.rejects ∧ (s.endAvLegIfStarted call).busyCalls = s.busyCalls := by
  unfold endAvLegIfStarted
  cases call.friendNumber with
  | none => exact ⟨rfl, rfl, rfl, rfl⟩
  | some number =>
    dsimp only
    split_ifs <;> exact ⟨rfl, rfl, rfl, rfl⟩

theorem startAll_view (actions : List Action) : ∀ s : Bridge,
    (s.startAll actions).callbacks = s.callbacks ∧ (s.startAll actions).disposed = s.disposed ∧
      (s.startAll actions).rejects = s.rejects ∧ (s.startAll actions).busyCalls = s.busyCalls := by
  induction actions with
  | nil => exact fun s => ⟨rfl, rfl, rfl, rfl⟩
  | cons action actions ih => exact fun s => ih (s.startBoundedTeardown action)

theorem Seen.finish (h : s.Seen) (id : String) (reason : CallInfo → EndReason) : (s.finish id reason).Seen := by
  unfold Bridge.finish
  cases hcall : s.activeCalls.lookup id with
  | none => exact h
  | some call =>
    obtain ⟨hcalls, -, -, -, hstack, -⟩ := s.endIfStarted_frame call
    obtain ⟨hcallbacks, hdisposed, hrejects, hbusy⟩ := s.endIfStarted_view call
    refine h.ended id (some (reason call)) (congrArg (·.erase id) hcalls)
      (congrArg (· ++ [_]) hcallbacks) hdisposed hrejects hbusy fun other hother => ?_
    change Frame.asked other ∈ (s.endAvLegIfStarted call).stack at hother
    rw [hstack] at hother
    exact hother

theorem Seen.onInviteeAccepted (h : s.Seen) (id : String) : (s.onInviteeAccepted id).Seen := by
  unfold Bridge.onInviteeAccepted
  cases hcall : s.activeCalls.lookup id with
  | none => exact h
  | some call =>
    dsimp only
    split_ifs
    · exact h.update id hcall { call with state := .inCall } rfl rfl (.inr ⟨rfl, rfl⟩) rfl rfl rfl rfl
    · exact h

theorem Seen.onReceiveNewInvitation (h : s.Seen) (inviteID inviter groupID : String)
    (inviteeList : List String) (data : String) (numbers : String → ℤ) (now : ℤ) :
    (s.onReceiveNewInvitation inviteID inviter groupID inviteeList data numbers now).Seen := by
  have hpruned : (s.pruneBusyTombstones now).Seen :=
    h.same rfl rfl rfl (fun _ hid => hid) (fun _ hitem => hitem) fun _ hcall => hcall
  unfold Bridge.onReceiveNewInvitation
  dsimp only
  split_ifs
  · exact hpruned
  · refine ⟨hpruned.named, hpruned.agrees, fun call hcall => ?_, hpruned.apart, hpruned.quiet⟩
    rcases List.mem_cons.mp hcall with heq | hold
    · rw [Frame.asked.inj heq]
    · exact h.asked call hold

theorem Seen.rejectAsBusy (h : s.Seen) (call : CallInfo) (now : ℤ) : (s.rejectAsBusy call now).Seen :=
  h.same rfl rfl rfl (fun _ hid => hid) (fun _ hitem => List.mem_append_left _ hitem) fun _ hcall =>
    (List.mem_cons.mp hcall).resolve_left fun heq => by contradiction

theorem Seen.register (h : s.Seen) {inviteID : String} (hfree : inviteID ∉ s.activeCalls)
    (hreject : inviteID ∉ s.rejects) (inviter invitee data : String) (friendNumber : Option ℤ)
    (groupID : Option String) :
    (s.registerOutgoingCall inviteID inviter invitee data friendNumber groupID).Seen := by
  unfold registerOutgoingCall
  split_ifs with hoff
  · exact h
  · exact h.insert inviteID _ (Bool.eq_false_iff.mpr hoff) hfree hreject rfl rfl (.inl ⟨rfl, rfl⟩) rfl rfl rfl rfl

theorem Seen.markAvLegStarted (h : s.Seen) (id : String) (number : Option ℤ) (teardownIfMissing : Bool) :
    (s.markAvLegStarted id number teardownIfMissing).Seen := by
  rcases s.markAvLegStarted_cases id number teardownIfMissing with
    ⟨-, heq⟩ | ⟨n, -, heq⟩ | ⟨call, -, hcall, heq⟩ <;> rw [heq]
  · exact h
  · exact h.same rfl rfl rfl (fun _ hid => hid) (fun _ hitem => hitem) fun _ hcall => hcall
  · exact h.update id hcall { call with friendNumber := number <|> call.friendNumber, avLegStarted := true } rfl rfl
      (.inl ⟨rfl, rfl⟩) rfl rfl rfl rfl

theorem Seen.failAccept (h : s.Seen) (id : String) (postAccept : Bool) : (s.failAccept id postAccept).Seen :=
  h.ended id (some (if postAccept then .hangup else .cancel)) rfl rfl rfl rfl rfl fun _ hcall =>
    (List.mem_cons.mp hcall).resolve_left fun heq => by contradiction

theorem Seen.acceptInvitation (h : s.Seen) (id : String) (numbers : String → ℤ) :
    (s.acceptInvitation id numbers).Seen := by
  rcases s.acceptInvitation_cases id numbers with heq | ⟨call, number, hcall, -, hrest⟩
  · rw [heq]
    exact h
  have hupdated : Seen { s with
      activeCalls := s.activeCalls.insert id { call with friendNumber := number } } :=
    h.update id hcall { call with friendNumber := number } rfl rfl (.inl ⟨rfl, rfl⟩) rfl rfl rfl rfl
  rcases hrest with ⟨-, heq⟩ | ⟨n, -, -, heq⟩ <;> rw [heq]
  · exact hupdated.failAccept id false
  · exact hupdated.same rfl rfl rfl (fun _ hid => hid) (fun _ hitem => hitem) fun _ hframe => hframe

theorem Seen.rejectInvitation (h : s.Seen) (id : String) : (s.rejectInvitation id).Seen := by
  unfold Bridge.rejectInvitation
  split_ifs with hactive
  · exact h.ended id (some .reject) rfl rfl rfl rfl rfl fun _ hcall =>
      (List.mem_cons.mp hcall).resolve_left fun heq => by contradiction
  · refine ⟨h.named, h.agrees, h.asked, fun other hother => ?_, h.quiet⟩
    rcases List.mem_append.mp hother with hold | hnew
    · exact h.apart other hold
    · rw [List.mem_singleton.mp hnew]
      exact hactive

/-- A ringing call goes without a callback, and its invitation is announced as busy. -/
theorem Seen.rejectInvitationAsBusy (h : s.Seen) (id : String) (now : ℤ) :
    (s.rejectInvitationAsBusy id now).Seen := by
  unfold Bridge.rejectInvitationAsBusy
  cases hcall : s.activeCalls.lookup id with
  | none => exact h
  | some call =>
    dsimp only
    by_cases hstate : call.state ≠ .ringing
    · rw [if_pos hstate]
      exact h
    rw [if_neg hstate]
    have hgone : ∀ v : Bridge, v.activeCalls = s.activeCalls.erase id → v.callbacks = s.callbacks →
        v.disposed = s.disposed → v.rejects = s.rejects → v.busyCalls = s.busyCalls → v.stack = s.stack →
        (v.rejectAsBusy call now).Seen := by
      intro v hcalls hcallbacks hdisposed hrejects hbusy hstack
      have hgrows : ∀ item ∈ s.busyCalls, item ∈ (v.rejectAsBusy call now).busyCalls := by
        intro item hitem
        change item ∈ v.busyCalls ++ [(call.inviteID, now)]
        rw [hbusy]
        exact List.mem_append_left _ hitem
      refine h.change id (fun other hother => ?_) (fun other _ => view_congr hcallbacks other)
        (fun own hown => ?_) (fun hon => ?_) hdisposed hrejects hgrows (fun _ hmem => ?_) (fun hoff => ?_)
        fun other hother => ?_
      · change v.activeCalls.lookup other = _
        rw [hcalls, AList.lookup_erase_ne hother]
      · change v.activeCalls.lookup id = some own at hown
        rw [hcalls, AList.lookup_erase] at hown
        contradiction
      · have hagrees := h.agrees hon id
        rw [hcall] at hagrees
        have hringing : s.view id = some .ringing := by
          rcases hagrees with ⟨hcalling, -⟩ | ⟨-, hringing⟩ | ⟨hin, -⟩
          · exact absurd (fun heq => CallState.noConfusion (hcalling.symm.trans heq)) hstate
          · exact hringing
          · exact absurd (fun heq => CallState.noConfusion (hin.symm.trans heq)) hstate
        change (v.rejectAsBusy call now).Agrees id (v.activeCalls.lookup id)
        rw [hcalls, AList.lookup_erase]
        refine .inr (.inr ⟨(view_congr hcallbacks id).trans hringing, now, ?_⟩)
        rw [← h.named id call hcall]
        exact List.mem_append_right _ (List.mem_singleton_self _)
      · change id ∈ v.activeCalls at hmem
        rw [hcalls] at hmem
        exact (AList.mem_erase.mp hmem).1 rfl
      · change v.activeCalls = ∅
        rw [hcalls, h.quiet hoff]
        rfl
      · have hold := (List.mem_cons.mp hother).resolve_left fun heq => by contradiction
        rw [hstack] at hold
        exact hold
    split_ifs
    · obtain ⟨hcalls, -, -, -, hstack, -⟩ :=
        endIfStarted_frame { s with activeCalls := s.activeCalls.erase id } call
      obtain ⟨hcallbacks, hdisposed, hrejects, hbusy⟩ :=
        endIfStarted_view { s with activeCalls := s.activeCalls.erase id } call
      exact hgone _ hcalls hcallbacks hdisposed hrejects hbusy hstack
    · exact hgone _ rfl rfl rfl rfl rfl rfl

theorem Seen.endCall (h : s.Seen) (id : String) (wait : Bool) : (s.endCall id wait).Seen := by
  unfold Bridge.endCall
  cases s.activeCalls.lookup id with
  | none => exact h
  | some call =>
    refine h.ended id (some (if call.state = .calling then .cancel else .hangup)) rfl rfl rfl rfl rfl fun _ hcall =>
      (List.mem_cons.mp hcall).resolve_left fun heq => ?_
    unfold endFrame at heq
    dsimp only at heq
    split_ifs at heq

theorem Seen.dispose (h : s.Seen) : s.dispose.Seen := by
  unfold Bridge.dispose
  split_ifs
  · exact h
  · refine ⟨fun id call hcall => ?_, fun hon => by contradiction, h.asked, fun id _ => AList.notMem_empty id,
      fun _ => rfl⟩
    rw [AList.lookup_empty] at hcall
    contradiction

/-! ## Sections that go on -/

theorem Seen.attemptAnswered (h : s.Seen) (attempt : Attempt) (success : Bool) :
    (s.attemptAnswered attempt success).Seen := by
  unfold Bridge.attemptAnswered
  cases s.pendingTeardowns.lookup attempt.key with
  | none => exact h
  | some pending =>
    dsimp only
    by_cases hobject : pending.object ≠ attempt.object
    · rw [if_pos hobject]
      exact h
    rw [if_neg hobject]
    cases s.ends pending (success || attempt.handedOver) with
    | none => exact h.same rfl rfl rfl (fun _ hid => hid) (fun _ hitem => hitem) fun _ hcall => hcall
    | some reason => exact h.same rfl rfl rfl (fun _ hid => hid) (fun _ hitem => hitem) fun _ hcall => hcall

/-- Nothing that the embedder sees changes with the sections under way. -/
theorem Seen.sections (h : s.Seen) (accepts : List Accept) (rejects : List String)
    (hrejects : ∀ id ∈ rejects, id ∈ s.rejects) (waits : List Waiting) (attempts : List Attempt) :
    Seen { s with accepts, rejects, waits, attempts } :=
  h.same rfl rfl rfl hrejects (fun _ hitem => hitem) fun _ hcall => hcall

theorem Seen.taken (h : s.Seen) {place : ℕ} {phase : AcceptPhase} {taken : Accept × Bridge}
    (htaken : s.takeAccept place phase = some taken) : taken.2.Seen := by
  obtain ⟨accept, -, rfl⟩ := Option.map_eq_some_iff.mp htaken
  exact h.sections _ _ (fun _ hid => hid) _ _

theorem Seen.acceptAnswered (h : s.Seen) (accept : Accept) (code : ℤ) : (s.acceptAnswered accept code).Seen := by
  unfold Bridge.acceptAnswered
  cases s.current accept with
  | none => exact h
  | some call =>
    dsimp only
    split_ifs
    · exact h.failAccept accept.inviteID false
    · exact h.sections _ _ (fun _ hid => hid) _ _

theorem Seen.acceptDrained (h : s.Seen) (accept : Accept) : (s.acceptDrained accept).Seen := by
  unfold Bridge.acceptDrained
  cases s.current accept with
  | none => exact h
  | some call => exact h.sections _ _ (fun _ hid => hid) _ _

theorem Seen.callAnswered (h : s.Seen) (accept : Accept) (avResult : Bool) :
    (s.callAnswered accept avResult).Seen := by
  unfold Bridge.callAnswered
  cases hcurrent : s.current accept with
  | none =>
    cases avResult with
    | false => exact h
    | true => exact h.same rfl rfl rfl (fun _ hid => hid) (fun _ hitem => hitem) fun _ hcall => hcall
  | some call =>
    cases avResult with
    | false => exact h.failAccept accept.inviteID true
    | true =>
      exact h.update accept.inviteID (current_eq_some hcurrent).1 { call with avLegStarted := true, state := .inCall }
        rfl rfl (.inr ⟨rfl, rfl⟩) rfl rfl rfl rfl

theorem Seen.heard (h : s.Seen) (hu : u.Seen) : (s.heard u).Seen := by
  unfold Bridge.heard
  split_ifs
  · exact h
  · exact hu

/-- An end that is told for an id without a call. -/
theorem Seen.told (h : s.Seen) {id : String} (hid : id ∉ s.activeCalls) (reason : Option EndReason) :
    (s.emit id .ended reason).Seen := by
  refine h.ended id reason ?_ rfl rfl rfl rfl fun _ hcall => hcall
  refine AList.ext (List.kerase_of_notMem_keys ?_).symm
  exact fun hmem => hid (AList.mem_keys.mp hmem)

end Bridge

/-! ## Runs -/

/-- An id comes in, by a registration or an invitation, only while it has no call and is not being
    rejected. -/
def Watched (s : Bridge) : Event → Prop
  | .op (.register inviteID _ _ _ _ _) => inviteID ∉ s.activeCalls ∧ inviteID ∉ s.rejects
  | .answer busy _ => busy = true ∨ (s.stack.head?.bind Frame.call).all fun call =>
    call.inviteID ∉ s.activeCalls ∧ call.inviteID ∉ s.rejects
  | _ => True

instance (s : Bridge) : ∀ e, Decidable (Watched s e)
  | .op (.register _ _ _ _ _ _) => inferInstanceAs (Decidable (_ ∧ _))
  | .op (.markStarted _ _ _) | .op (.reject _) | .op (.endLeg _ _) | .op (.accept _ _) | .op (.rejectBusy _ _)
  | .op (.endCall _ _) | .op .dispose => .isTrue trivial
  | .answer _ _ => inferInstanceAs (Decidable (_ ∨ _))
  | .back | .threw | .outer _ => .isTrue trivial

namespace Bridge

variable {s u : Bridge}

theorem Seen.run (h : s.Seen) {op : Op} (hwatched : Watched s (.op op)) : (s.run op).Seen := by
  cases op with
  | register inviteID inviter invitee data friendNumber groupID =>
    exact h.register hwatched.1 hwatched.2 _ _ _ _ _
  | markStarted inviteID number teardownIfMissing => exact h.markAvLegStarted _ _ _
  | endLeg inviteID number => exact h.same rfl rfl rfl (fun _ hid => hid) (fun _ hitem => hitem) fun _ hcall => hcall
  | accept inviteID numbers => exact h.acceptInvitation _ _
  | reject inviteID => exact h.rejectInvitation _
  | rejectBusy inviteID now => exact h.rejectInvitationAsBusy _ _
  | endCall inviteID wait => exact h.endCall _ _
  | dispose => exact h.dispose

theorem Seen.outside (h : s.Seen) {outer : Outer} (he : s.outside outer = some u) : u.Seen := by
  cases outer with
  | invitation inviteID inviter groupID inviteeList data numbers now =>
    exact Option.some.inj he ▸ h.heard (h.onReceiveNewInvitation _ _ _ _ _ _ _)
  | cancelled inviteID => exact Option.some.inj he ▸ h.heard (h.finish _ _)
  | accepted inviteID => exact Option.some.inj he ▸ h.heard (h.onInviteeAccepted _)
  | rejected inviteID lineBusy => exact Option.some.inj he ▸ h.heard (h.finish _ _)
  | timedOut inviteID => exact Option.some.inj he ▸ h.heard (h.finish _ _)
  | acceptAnswered place code =>
    obtain ⟨taken, htaken, rfl⟩ := Option.map_eq_some_iff.mp he
    cases code with
    | none => exact h.taken htaken
    | some code => exact (h.taken htaken).acceptAnswered _ _
  | acceptDrains place =>
    obtain ⟨taken, htaken, rfl⟩ := Option.map_eq_some_iff.mp he
    exact (h.taken (Option.filter_eq_some_iff.mp htaken).1).sections _ _ (fun _ hid => hid) _ _
  | acceptResumes place =>
    obtain ⟨taken, htaken, rfl⟩ := Option.map_eq_some_iff.mp he
    exact (h.taken htaken).acceptDrained _
  | callAnswered place avResult =>
    obtain ⟨taken, htaken, rfl⟩ := Option.map_eq_some_iff.mp he
    cases avResult with
    | none => exact h.taken htaken
    | some avResult => exact (h.taken htaken).callAnswered _ _
  | rejectAnswered place code =>
    obtain ⟨inviteID, hplace, rfl⟩ := Option.map_eq_some_iff.mp he
    have htaken := h.sections s.accepts _ (fun _ hid => List.mem_of_mem_eraseIdx (i := place) hid) s.waits s.attempts
    cases code with
    | none => exact htaken
    | some code =>
      change (Bridge.rejectAnswered _ inviteID code).Seen
      unfold Bridge.rejectAnswered
      split_ifs
      · exact htaken.told (h.apart inviteID (List.mem_of_getElem? hplace)) _
      · exact htaken
  | attemptAnswered place success =>
    obtain ⟨attempt, -, rfl⟩ := Option.map_eq_some_iff.mp he
    exact (h.sections _ _ (fun _ hid => hid) _ _).attemptAnswered attempt success
  | timerFires key =>
    obtain ⟨pending, -, rfl⟩ := Option.map_eq_some_iff.mp he
    exact h.same rfl rfl rfl (fun _ hid => hid) (fun _ hitem => hitem) fun _ hcall => hcall
  | waitEnds place =>
    obtain ⟨waiting, -, rfl⟩ := Option.map_eq_some_iff.mp he
    exact h.same rfl rfl rfl (fun _ hid => hid) (fun _ hitem => hitem) fun _ hcall => hcall

theorem Seen.unframed (h : s.Seen) {frame : Frame} {rest : List Frame} (hstack : s.stack = frame :: rest) :
    Seen { s with stack := rest } := by
  refine h.same rfl rfl rfl (fun _ hid => hid) (fun _ hitem => hitem) fun call hcall => ?_
  rw [hstack]
  exact List.mem_cons_of_mem _ hcall

theorem Seen.step (h : s.Seen) {e : Event} (hwatched : Watched s e) (he : s.step e = some u) : u.Seen := by
  cases e with
  | op op => exact Option.some.inj he ▸ h.run hwatched
  | answer busy now =>
    obtain ⟨call, rest, hstack, rfl⟩ := step_answer he
    have hrest := h.unframed hstack
    unfold Bridge.answered
    cases busy with
    | true => exact hrest.rejectAsBusy call now
    | false =>
      have hfree := hwatched.resolve_left (by decide)
      rw [hstack] at hfree
      obtain ⟨hactive, hreject⟩ := of_decide_eq_true hfree
      rw [if_neg (by decide)]
      unfold Bridge.heard
      by_cases hoff : s.disposed = true
      · rw [if_pos hoff]
        exact hrest
      · rw [if_neg hoff]
        refine hrest.insert call.inviteID { call with object := s.calls } (Bool.eq_false_iff.mpr hoff) hactive
          hreject rfl rfl (.inr ⟨rfl, ?_⟩) rfl rfl rfl rfl
        refine h.asked call ?_
        rw [hstack]
        exact List.mem_cons_self
  | back =>
    obtain ⟨actions, later, rest, hstack, rfl⟩ := step_back he
    obtain ⟨hcalls, hframes, -, -, -⟩ := startAll_frame actions { s with stack := rest }
    obtain ⟨hcallbacks, hdisposed, hrejects, hbusy⟩ := startAll_view actions { s with stack := rest }
    refine (h.unframed hstack).same hcalls hcallbacks hdisposed (fun _ hid => hrejects ▸ hid)
      (fun item hitem => ?_) fun call hcall => ?_
    · change item ∈ (startAll { s with stack := rest } actions).busyCalls
      rw [hbusy]
      exact hitem
    · change Frame.asked call ∈ (startAll { s with stack := rest } actions).stack at hcall
      rw [hframes] at hcall
      exact hcall
  | threw =>
    obtain ⟨frame, rest, hstack, rfl⟩ := step_threw he
    exact h.unframed hstack
  | outer outer => exact h.outside (step_outer he).2

/-! ## After the disposal -/

theorem current_empty (h : s.activeCalls = ∅) (accept : Accept) : s.current accept = none := by
  unfold Bridge.current
  rw [h, AList.lookup_empty]
  rfl

theorem acceptAnswered_empty (h : s.activeCalls = ∅) (accept : Accept) (code : ℤ) :
    s.acceptAnswered accept code = s := by
  unfold Bridge.acceptAnswered
  rw [current_empty h]

theorem acceptDrained_empty (h : s.activeCalls = ∅) (accept : Accept) : s.acceptDrained accept = s := by
  unfold Bridge.acceptDrained
  rw [current_empty h]

theorem callAnswered_empty (h : s.activeCalls = ∅) (accept : Accept) (avResult : Bool) :
    (s.callAnswered accept avResult).callbacks = s.callbacks := by
  unfold Bridge.callAnswered
  rw [current_empty h]
  cases avResult <;> rfl

theorem run_quiet (hoff : s.disposed = true) (hempty : s.activeCalls = ∅) (op : Op) :
    (s.run op).callbacks = s.callbacks := by
  have hnone : ∀ id, s.activeCalls.lookup id = none := by
    intro id
    rw [hempty, AList.lookup_empty]
  cases op with
  | register inviteID inviter invitee data friendNumber groupID =>
    change (s.registerOutgoingCall _ _ _ _ _ _).callbacks = _
    rw [registerOutgoingCall, if_pos hoff]
  | markStarted inviteID number teardownIfMissing =>
    change (s.markAvLegStarted _ _ _).callbacks = _
    rcases s.markAvLegStarted_cases inviteID number teardownIfMissing with
      ⟨-, heq⟩ | ⟨n, -, heq⟩ | ⟨call, -, -, heq⟩ <;> rw [heq]
    all_goals rfl
  | endLeg inviteID number => rfl
  | accept inviteID numbers =>
    change (s.acceptInvitation _ _).callbacks = _
    rcases s.acceptInvitation_cases inviteID numbers with heq | ⟨call, number, hcall, -⟩
    · rw [heq]
    · rw [hnone] at hcall
      contradiction
  | reject inviteID =>
    change (s.rejectInvitation _).callbacks = _
    unfold Bridge.rejectInvitation
    rw [if_neg]
    rw [hempty]
    exact AList.notMem_empty _
  | rejectBusy inviteID now =>
    change (s.rejectInvitationAsBusy _ _).callbacks = _
    unfold Bridge.rejectInvitationAsBusy
    rw [hnone]
  | endCall inviteID wait =>
    change (s.endCall _ _).callbacks = _
    unfold Bridge.endCall
    rw [hnone]
  | dispose =>
    change s.dispose.callbacks = _
    rw [Bridge.dispose, if_pos hoff]

theorem attemptAnswered_callbacks (s : Bridge) (attempt : Attempt) (success : Bool) :
    (s.attemptAnswered attempt success).callbacks = s.callbacks := by
  unfold Bridge.attemptAnswered
  cases s.pendingTeardowns.lookup attempt.key with
  | none => rfl
  | some pending =>
    dsimp only
    split_ifs
    · rfl
    · cases s.ends pending (success || attempt.handedOver) <;> rfl

theorem taken_quiet {place : ℕ} {phase : AcceptPhase} {taken : Accept × Bridge}
    (htaken : s.takeAccept place phase = some taken) :
    taken.2.callbacks = s.callbacks ∧ taken.2.activeCalls = s.activeCalls := by
  obtain ⟨accept, -, rfl⟩ := Option.map_eq_some_iff.mp htaken
  exact ⟨rfl, rfl⟩

theorem outside_quiet (hoff : s.disposed = true) (hempty : s.activeCalls = ∅) {outer : Outer}
    (he : s.outside outer = some u) :
    u.callbacks = s.callbacks ∨ ∃ place, outer = .rejectAnswered place (some 0) := by
  have hheard : ∀ v : Bridge, s.heard v = s := fun _ => if_pos hoff
  cases outer with
  | invitation inviteID inviter groupID inviteeList data numbers now =>
    exact .inl (Option.some.inj he ▸ congrArg Bridge.callbacks (hheard _))
  | cancelled inviteID => exact .inl (Option.some.inj he ▸ congrArg Bridge.callbacks (hheard _))
  | accepted inviteID => exact .inl (Option.some.inj he ▸ congrArg Bridge.callbacks (hheard _))
  | rejected inviteID lineBusy => exact .inl (Option.some.inj he ▸ congrArg Bridge.callbacks (hheard _))
  | timedOut inviteID => exact .inl (Option.some.inj he ▸ congrArg Bridge.callbacks (hheard _))
  | acceptAnswered place code =>
    obtain ⟨taken, htaken, rfl⟩ := Option.map_eq_some_iff.mp he
    obtain ⟨hsame, hcalls⟩ := taken_quiet htaken
    left
    cases code with
    | none => exact hsame
    | some code =>
      exact (congrArg Bridge.callbacks (acceptAnswered_empty (hcalls.trans hempty) taken.1 code)).trans hsame
  | acceptDrains place =>
    obtain ⟨taken, htaken, rfl⟩ := Option.map_eq_some_iff.mp he
    exact .inl (taken_quiet (Option.filter_eq_some_iff.mp htaken).1).1
  | acceptResumes place =>
    obtain ⟨taken, htaken, rfl⟩ := Option.map_eq_some_iff.mp he
    obtain ⟨hsame, hcalls⟩ := taken_quiet htaken
    exact .inl ((congrArg Bridge.callbacks (acceptDrained_empty (hcalls.trans hempty) taken.1)).trans hsame)
  | callAnswered place avResult =>
    obtain ⟨taken, htaken, rfl⟩ := Option.map_eq_some_iff.mp he
    obtain ⟨hsame, hcalls⟩ := taken_quiet htaken
    left
    cases avResult with
    | none => exact hsame
    | some avResult => exact (callAnswered_empty (hcalls.trans hempty) taken.1 avResult).trans hsame
  | rejectAnswered place code =>
    obtain ⟨inviteID, -, rfl⟩ := Option.map_eq_some_iff.mp he
    cases code with
    | none => exact .inl rfl
    | some code =>
      by_cases hcode : code = 0
      · exact .inr ⟨place, by rw [hcode]⟩
      · left
        change (Bridge.rejectAnswered _ inviteID code).callbacks = _
        rw [Bridge.rejectAnswered, if_neg hcode]
  | attemptAnswered place success =>
    obtain ⟨attempt, -, rfl⟩ := Option.map_eq_some_iff.mp he
    exact .inl (attemptAnswered_callbacks _ attempt success)
  | timerFires key =>
    obtain ⟨pending, -, rfl⟩ := Option.map_eq_some_iff.mp he
    exact .inl rfl
  | waitEnds place =>
    obtain ⟨waiting, -, rfl⟩ := Option.map_eq_some_iff.mp he
    exact .inl rfl

theorem step_quiet (hoff : s.disposed = true) (hempty : s.activeCalls = ∅) {e : Event} (he : s.step e = some u) :
    u.callbacks = s.callbacks ∨ ∃ place, e = .outer (.rejectAnswered place (some 0)) := by
  cases e with
  | op op => exact .inl (Option.some.inj he ▸ run_quiet hoff hempty op)
  | answer busy now =>
    obtain ⟨call, rest, -, rfl⟩ := step_answer he
    left
    unfold Bridge.answered
    cases busy with
    | true => rfl
    | false =>
      rw [if_neg (by decide)]
      unfold Bridge.heard
      rw [if_pos hoff]
  | back =>
    obtain ⟨actions, later, rest, -, rfl⟩ := step_back he
    exact .inl (startAll_view actions { s with stack := rest }).1
  | threw =>
    obtain ⟨frame, rest, -, rfl⟩ := step_threw he
    exact .inl rfl
  | outer outer =>
    refine (outside_quiet hoff hempty (step_outer he).2).imp_right fun hreject => ?_
    obtain ⟨place, rfl⟩ := hreject
    exact ⟨place, rfl⟩

theorem Seen.fresh : Seen {} :=
  ⟨fun _ _ hlookup => by contradiction, fun _ _ => .inl rfl, fun _ hcall => absurd hcall List.not_mem_nil,
    fun _ hid => absurd hid List.not_mem_nil, fun hoff => by contradiction⟩

end Bridge

/-- A second invitation comes during a call and is rejected as busy; then the call is ended. -/
def busyDuringCall : List Event :=
  [.outer (.invitation "call" "bob" "" ["self"] "" (fun _ => 3) 0), .answer false 0, .op (.accept "call" fun _ => 3),
    .outer (.acceptAnswered 0 (some 0)), .outer (.acceptDrains 0), .outer (.acceptResumes 0),
    .outer (.callAnswered 0 (some true)),
    .outer (.invitation "other" "carol" "" ["self"] "" (fun _ => 4) 5), .answer true 5, .back,
    .op (.endCall "call" false), .back]

end Tim2Tox.CallBridge
