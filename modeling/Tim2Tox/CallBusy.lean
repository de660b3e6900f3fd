import Tim2Tox.CallLegs

set_option autoImplicit false

/-!
# Invitations rejected as busy

An invitation that was rejected as busy neither rings nor is rejected again when it is delivered once more.
-/
namespace Tim2Tox.CallBridge
open KeyedTables LabelledRuns

namespace Bridge

variable {s u v : Bridge}

def busyIds (s : Bridge) : List String := s.busyCalls.map Prod.fst

/-- The invitations that the embedder is being asked about. -/
def asked (s : Bridge) : List String := (s.stack.filterMap Frame.call).map CallInfo.inviteID

def Named (s : Bridge) : Prop := ∀ id call, s.activeCalls.lookup id = some call → call.inviteID = id

def Ringing (s : Bridge) (id : String) : Prop :=
  ∃ call, s.activeCalls.lookup id = some call ∧ call.state = .ringing

/-- How often the id has rung. -/
def rings (s : Bridge) (id : String) : ℕ := s.callbacks.count ⟨id, .ringing, none⟩

/-! ## What lets no call ring -/

/-- No invitation is asked about, rejected as busy or surfaced. -/
structure Calm (s u : Bridge) : Prop where
  busy : u.busyCalls = s.busyCalls
  tombstones : u.busyTombstones = s.busyTombstones
  clock : u.clock = s.clock
  disposed : u.disposed = s.disposed
  asked : u.asked.Sublist s.asked
  named : s.Named → u.Named
  ringing : ∀ id, u.Ringing id → s.Ringing id
  rings : ∀ id, u.rings id = s.rings id

theorem Calm.refl (s : Bridge) : s.Calm s :=
  ⟨rfl, rfl, rfl, rfl, List.Sublist.refl _, id, fun _ => id, fun _ => rfl⟩

theorem Calm.trans (h : s.Calm u) (h' : u.Calm v) : s.Calm v where
  busy := h'.busy.trans h.busy
  tombstones := h'.tombstones.trans h.tombstones
  clock := h'.clock.trans h.clock
  disposed := h'.disposed.trans h.disposed
  asked := h'.asked.trans h.asked
  named := h'.named ∘ h.named
  ringing := fun id hid => h.ringing id (h'.ringing id hid)
  rings := fun id => (h'.rings id).trans (h.rings id)

/-- Teardowns, sections and legs change. -/
theorem calm_of_same (hbusy : u.busyCalls = s.busyCalls) (htombstones : u.busyTombstones = s.busyTombstones)
    (hclock : u.clock = s.clock) (hdisposed : u.disposed = s.disposed) (hstack : u.stack = s.stack)
    (hcalls : u.activeCalls = s.activeCalls) (hcallbacks : u.callbacks = s.callbacks) : s.Calm u where
  busy := hbusy
  tombstones := htombstones
  clock := hclock
  disposed := hdisposed
  asked := by
    rw [Bridge.asked, hstack]
    exact List.Sublist.refl _
  named := fun hnamed => by
    rw [Named, hcalls]
    exact hnamed
  ringing := fun id hid => by
    rw [Ringing, hcalls] at hid
    exact hid
  rings := fun id => by rw [Bridge.rings, hcallbacks, Bridge.rings]

theorem calm_start (s : Bridge) (action : Action) : s.Calm (s.startBoundedTeardown action) :=
  calm_of_same rfl rfl rfl rfl rfl rfl rfl

theorem calm_startAll (actions : List Action) : ∀ s : Bridge, s.Calm (s.startAll actions) := by
  induction actions with
  | nil => exact Calm.refl
  | cons action actions ih => exact fun s => (s.calm_start action).trans (ih _)

theorem calm_startLeg (s : Bridge) (inviteID : String) (number : ℤ) :
    s.Calm (s.endAvLegAndWaitForTeardown inviteID number) :=
  calm_of_same rfl rfl rfl rfl rfl rfl rfl

theorem calm_endAvLeg (s : Bridge) (call : CallInfo) : s.Calm (s.endAvLegIfStarted call) := by
  unfold endAvLegIfStarted
  cases call.friendNumber with
  | none => exact Calm.refl s
  | some number =>
    dsimp only
    split_ifs
    · exact s.calm_start _
    · exact Calm.refl s

theorem calm_emit (s : Bridge) (id : String) {state : CallState} (hstate : state ≠ .ringing)
    (reason : Option EndReason) : s.Calm (s.emit id state reason) := by
  refine ⟨rfl, rfl, rfl, rfl, List.Sublist.refl _, fun h => h, fun _ h => h, fun other => ?_⟩
  change (s.callbacks ++ [_]).count _ = s.callbacks.count _
  rw [List.count_append, List.count_singleton, if_neg, Nat.add_zero]
  intro heq
  exact hstate (congrArg Callback.state (beq_iff_eq.mp heq))

theorem calm_starts (s : Bridge) (actions : List Action) (later : Option Action) :
    s.Calm (s.push (.starts actions later)) :=
  ⟨rfl, rfl, rfl, rfl, List.Sublist.refl _, fun h => h, fun _ h => h, fun _ => rfl⟩

theorem calm_erase (s : Bridge) (id : String) : s.Calm { s with activeCalls := s.activeCalls.erase id } := by
  refine ⟨rfl, rfl, rfl, rfl, List.Sublist.refl _, fun h other call hcall => ?_, fun other h => ?_, fun _ => rfl⟩
  · exact h other call (lookup_erase_some hcall).2
  · obtain ⟨call, hcall, hstate⟩ := h
    exact ⟨call, (lookup_erase_some hcall).2, hstate⟩

/-- A call comes in or changes and does not begin to ring. -/
theorem calm_insert (s : Bridge) {id : String} (new : CallInfo) (hname : s.Named → new.inviteID = id)
    (hstate : new.state = .ringing → s.Ringing id) :
    s.Calm { s with activeCalls := s.activeCalls.insert id new } := by
  refine ⟨rfl, rfl, rfl, rfl, List.Sublist.refl _, fun h other call hcall => ?_, fun other h => ?_, fun _ => rfl⟩
  · rcases lookup_insert_some hcall with ⟨rfl, rfl⟩ | ⟨-, hold⟩
    · exact hname h
    · exact h other call hold
  · obtain ⟨call, hcall, hring⟩ := h
    rcases lookup_insert_some hcall with ⟨rfl, rfl⟩ | ⟨-, hold⟩
    · exact hstate hring
    · exact ⟨call, hold, hring⟩

theorem calm_update (s : Bridge) {id : String} {old : CallInfo} (hold : s.activeCalls.lookup id = some old)
    (new : CallInfo) (hname : new.inviteID = old.inviteID)
    (hstate : new.state = old.state ∨ new.state = .inCall) :
    s.Calm { s with activeCalls := s.activeCalls.insert id new } := by
  refine s.calm_insert new (fun hnamed => hname.trans (hnamed id old hold)) fun hring => ⟨old, hold, ?_⟩
  rcases hstate with hsame | hcall
  · exact hsame.symm.trans hring
  · rw [hcall] at hring
    contradiction

theorem calm_finish (s : Bridge) (id : String) (reason : CallInfo → EndReason) : s.Calm (s.finish id reason) := by
  unfold Bridge.finish
  cases s.activeCalls.lookup id with
  | none => exact Calm.refl s
  | some call => exact ((s.calm_endAvLeg call).trans (calm_erase _ id)).trans (calm_emit _ id (by decide) _)

theorem calm_failAccept (s : Bridge) (id : String) (postAccept : Bool) : s.Calm (s.failAccept id postAccept) :=
  ((s.calm_erase id).trans (calm_emit _ id (by decide) _)).trans (calm_starts _ _ _)

theorem calm_onInviteeAccepted (s : Bridge) (id : String) : s.Calm (s.onInviteeAccepted id) := by
  unfold Bridge.onInviteeAccepted
  cases hcall : s.activeCalls.lookup id with
  | none => exact Calm.refl s
  | some call =>
    dsimp only
    split_ifs
    · exact (s.calm_update hcall { call with state := .inCall } rfl (.inr rfl)).trans
        (calm_emit _ id (by decide) _)
    · exact Calm.refl s

theorem calm_acceptInvitation (s : Bridge) (id : String) (numbers : String → ℤ) :
    s.Calm (s.acceptInvitation id numbers) := by
  rcases s.acceptInvitation_cases id numbers with heq | ⟨call, number, hcall, -, hrest⟩
  · rw [heq]
    exact Calm.refl s
  have hupdated := s.calm_update hcall { call with friendNumber := number } rfl (.inl rfl)
  rcases hrest with ⟨-, heq⟩ | ⟨n, -, -, heq⟩ <;> rw [heq]
  · exact hupdated.trans (calm_failAccept _ id false)
  · exact hupdated.trans (calm_of_same rfl rfl rfl rfl rfl rfl rfl)

theorem calm_markAvLegStarted (s : Bridge) (id : String) (number : Option ℤ) (teardownIfMissing : Bool) :
    s.Calm (s.markAvLegStarted id number teardownIfMissing) := by
  rcases s.markAvLegStarted_cases id number teardownIfMissing with
    ⟨-, heq⟩ | ⟨n, -, heq⟩ | ⟨call, -, hcall, heq⟩ <;> rw [heq]
  · exact Calm.refl s
  · exact s.calm_startLeg id n
  · exact (s.calm_update hcall
      { call with friendNumber := number <|> call.friendNumber, avLegStarted := true } rfl (.inl rfl)).trans
      (calm_of_same rfl rfl rfl rfl rfl rfl rfl)

theorem calm_callAnswered (s : Bridge) (accept : Accept) (avResult : Bool) :
    s.Calm (s.callAnswered accept avResult) := by
  unfold Bridge.callAnswered
  cases hcurrent : s.current accept with
  | none =>
    dsimp only
    split_ifs
    · exact s.calm_startLeg _ _
    · exact Calm.refl s
  | some call =>
    dsimp only
    split_ifs
    · have hcall := (current_eq_some hcurrent).1
      have hcalled : s.Calm { s with
          activeCalls := s.activeCalls.insert accept.inviteID { call with avLegStarted := true, state := .inCall }
          legs := s.legs ++ [(accept.inviteID, accept.friendNumber)] } :=
        (s.calm_update hcall { call with avLegStarted := true, state := .inCall } rfl (.inr rfl)).trans
          (calm_of_same rfl rfl rfl rfl rfl rfl rfl)
      exact hcalled.trans (calm_emit _ _ (by decide) _)
    · exact s.calm_failAccept _ _

/-- What the embedder calls, but for a rejection as busy and the disposal. -/
theorem calm_run (s : Bridge) {op : Op} (hbusy : ∀ id now, op ≠ .rejectBusy id now) (hdispose : op ≠ .dispose) :
    s.Calm (s.run op) := by
  cases op with
  | register inviteID inviter invitee data friendNumber groupID =>
    change s.Calm (s.registerOutgoingCall _ _ _ _ _ _)
    unfold registerOutgoingCall
    split_ifs
    · exact Calm.refl s
    · have hcount : s.Calm { s with calls := s.calls + 1 } := calm_of_same rfl rfl rfl rfl rfl rfl rfl
      exact hcount.trans (calm_insert _ _ (fun _ => rfl) fun hring => by contradiction)
  | markStarted inviteID number teardownIfMissing => exact s.calm_markAvLegStarted _ _ _
  | endLeg inviteID number => exact s.calm_startLeg _ _
  | accept inviteID numbers => exact s.calm_acceptInvitation _ _
  | reject inviteID =>
    change s.Calm (s.rejectInvitation _)
    unfold Bridge.rejectInvitation
    split_ifs
    · exact ((s.calm_erase inviteID).trans (calm_emit _ _ (by decide) _)).trans (calm_starts _ _ _)
    · exact calm_of_same rfl rfl rfl rfl rfl rfl rfl
  | rejectBusy inviteID now => exact absurd rfl (hbusy inviteID now)
  | endCall inviteID wait =>
    change s.Calm (s.endCall _ _)
    unfold Bridge.endCall
    cases s.activeCalls.lookup inviteID with
    | none => exact Calm.refl s
    | some call =>
      dsimp only
      unfold endFrame
      dsimp only
      split_ifs <;> exact ((s.calm_erase inviteID).trans (calm_emit _ _ (by decide) _)).trans (calm_starts _ _ _)
  | dispose => exact absurd rfl hdispose

theorem calm_heard (h : s.Calm u) : s.Calm (s.heard u) := by
  unfold Bridge.heard
  split_ifs
  · exact Calm.refl s
  · exact h

theorem calm_taken {place : ℕ} {phase : AcceptPhase} {taken : Accept × Bridge}
    (htaken : s.takeAccept place phase = some taken) : s.Calm taken.2 := by
  obtain ⟨accept, -, rfl⟩ := Option.map_eq_some_iff.mp htaken
  exact calm_of_same rfl rfl rfl rfl rfl rfl rfl

theorem calm_acceptAnswered (s : Bridge) (accept : Accept) (code : ℤ) : s.Calm (s.acceptAnswered accept code) := by
  unfold Bridge.acceptAnswered
  cases s.current accept with
  | none => exact Calm.refl s
  | some call =>
    dsimp only
    split_ifs
    · exact s.calm_failAccept _ _
    · exact calm_of_same rfl rfl rfl rfl rfl rfl rfl

theorem calm_acceptDrained (s : Bridge) (accept : Accept) : s.Calm (s.acceptDrained accept) := by
  unfold Bridge.acceptDrained
  cases s.current accept with
  | none => exact Calm.refl s
  | some call => exact calm_of_same rfl rfl rfl rfl rfl rfl rfl

theorem calm_attemptAnswered (s : Bridge) (attempt : Attempt) (success : Bool) :
    s.Calm (s.attemptAnswered attempt success) := by
  unfold Bridge.attemptAnswered
  cases s.pendingTeardowns.lookup attempt.key with
  | none => exact Calm.refl s
  | some pending =>
    dsimp only
    by_cases hobject : pending.object ≠ attempt.object
    · rw [if_pos hobject]
      exact Calm.refl s
    rw [if_neg hobject]
    cases s.ends pending (success || attempt.handedOver) <;> exact calm_of_same rfl rfl rfl rfl rfl rfl rfl

/-- What comes from outside, but for an invitation. -/
theorem calm_outside {outer : Outer} (he : s.outside outer = some u)
    (hother : ∀ inviteID inviter groupID inviteeList data numbers now,
      outer ≠ .invitation inviteID inviter groupID inviteeList data numbers now) : s.Calm u := by
  cases outer with
  | invitation inviteID inviter groupID inviteeList data numbers now => exact absurd rfl (hother _ _ _ _ _ _ _)
  | cancelled inviteID => exact Option.some.inj he ▸ calm_heard (s.calm_finish _ _)
  | accepted inviteID => exact Option.some.inj he ▸ calm_heard (s.calm_onInviteeAccepted _)
  | rejected inviteID lineBusy => exact Option.some.inj he ▸ calm_heard (s.calm_finish _ _)
  | timedOut inviteID => exact Option.some.inj he ▸ calm_heard (s.calm_finish _ _)
  | acceptAnswered place code =>
    obtain ⟨taken, htaken, rfl⟩ := Option.map_eq_some_iff.mp he
    cases code with
    | none => exact calm_taken htaken
    | some code => exact (calm_taken htaken).trans (calm_acceptAnswered _ _ _)
  | acceptDrains place =>
    obtain ⟨taken, htaken, rfl⟩ := Option.map_eq_some_iff.mp he
    exact (calm_taken (Option.filter_eq_some_iff.mp htaken).1).trans (calm_of_same rfl rfl rfl rfl rfl rfl rfl)
  | acceptResumes place =>
    obtain ⟨taken, htaken, rfl⟩ := Option.map_eq_some_iff.mp he
    exact (calm_taken htaken).trans (calm_acceptDrained _ _)
  | callAnswered place avResult =>
    obtain ⟨taken, htaken, rfl⟩ := Option.map_eq_some_iff.mp he
    cases avResult with
    | none => exact calm_taken htaken
    | some avResult => exact (calm_taken htaken).trans (calm_callAnswered _ _ _)
  | rejectAnswered place code =>
    obtain ⟨inviteID, -, rfl⟩ := Option.map_eq_some_iff.mp he
    have htaken : s.Calm { s with rejects := s.rejects.eraseIdx place } := calm_of_same rfl rfl rfl rfl rfl rfl rfl
    cases code with
    | none => exact htaken
    | some code =>
      change s.Calm (Bridge.rejectAnswered _ inviteID code)
      unfold Bridge.rejectAnswered
      split_ifs
      · exact htaken.trans (calm_emit _ _ (by decide) _)
      · exact htaken
  | attemptAnswered place success =>
    obtain ⟨attempt, -, rfl⟩ := Option.map_eq_some_iff.mp he
    have htaken : s.Calm { s with attempts := s.attempts.eraseIdx place } := calm_of_same rfl rfl rfl rfl rfl rfl rfl
    exact htaken.trans (calm_attemptAnswered _ attempt success)
  | timerFires key =>
    obtain ⟨pending, -, rfl⟩ := Option.map_eq_some_iff.mp he
    exact calm_of_same rfl rfl rfl rfl rfl rfl rfl
  | waitEnds place =>
    obtain ⟨waiting, -, rfl⟩ := Option.map_eq_some_iff.mp he
    exact calm_of_same rfl rfl rfl rfl rfl rfl rfl

theorem calm_unframed {frame : Frame} {rest : List Frame} (hstack : s.stack = frame :: rest) :
    s.Calm { s with stack := rest } := by
  refine ⟨rfl, rfl, rfl, rfl, ?_, fun h => h, fun _ h => h, fun _ => rfl⟩
  refine List.Sublist.map _ (List.Sublist.filterMap _ ?_)
  rw [hstack]
  exact List.sublist_cons_self _ _

/-! ## Tombstones -/

/-- An id that was rejected as busy has its tombstone, or that has aged; at most one invitation is asked
    about, and neither its call nor that of a busy id rings. -/
structure Hushed (s : Bridge) : Prop where
  named : s.Named
  once : s.busyIds.Nodup
  quiet : ∀ id ∈ s.busyIds, ¬ s.Ringing id
  kept : s.disposed = false → ∀ item ∈ s.busyCalls, s.busyTombstones.lookup item.1 = some item.2 ∨
    ∃ now, s.clock = some now ∧ item.2 + busyTombstoneTtl < now
  single : s.asked.length ≤ 1
  apart : ∀ id ∈ s.asked, id ∉ s.busyIds ∧ ¬ s.Ringing id
  off : s.disposed = true → ∀ id, ¬ s.Ringing id

theorem Hushed.calm (h : s.Hushed) (hcalm : s.Calm u) : u.Hushed := by
  have hids : u.busyIds = s.busyIds := congrArg (List.map Prod.fst) hcalm.busy
  refine ⟨hcalm.named h.named, ?_, fun id hid hring => ?_, fun hon => ?_,
    Nat.le_trans hcalm.asked.length_le h.single, fun id hid => ?_, fun hoff id hring => ?_⟩
  · rw [hids]
    exact h.once
  · rw [hids] at hid
    exact h.quiet id hid (hcalm.ringing id hring)
  · rw [hcalm.busy, hcalm.tombstones, hcalm.clock]
    exact h.kept (hcalm.disposed.symm.trans hon)
  · rw [hids]
    exact (h.apart id (hcalm.asked.subset hid)).imp_right fun hquiet hring => hquiet (hcalm.ringing id hring)
  · exact h.off (hcalm.disposed.symm.trans hoff) id (hcalm.ringing id hring)

/-- The step adds no ring for an id that was rejected as busy. -/
def Silent (s u : Bridge) : Prop :=
  s.busyCalls ⊆ u.busyCalls ∧ ∀ id ∈ s.busyIds, u.rings id = s.rings id

theorem Calm.silent (h : s.Calm u) : s.Silent u := by
  refine ⟨?_, fun id _ => h.rings id⟩
  rw [h.busy]
  exact List.Subset.refl _

/-- Readings of the clock do not go back. -/
def Reads (s : Bridge) (now : ℤ) : Prop := ∀ before ∈ s.clock, before ≤ now

theorem Hushed.rejectAsBusy (h : s.Hushed) (call : CallInfo) {now : ℤ} (hnow : s.Reads now)
    (hbusy : call.inviteID ∉ s.busyIds) (hquiet : ¬ s.Ringing call.inviteID) (hasked : call.inviteID ∉ s.asked) :
    (s.rejectAsBusy call now).Hushed := by
  have hids : (s.rejectAsBusy call now).busyIds = s.busyIds ++ [call.inviteID] := by
    change (s.busyCalls ++ [_]).map Prod.fst = _
    rw [List.map_append, List.map_singleton]
    rfl
  refine ⟨h.named, ?_, fun id hid => ?_, fun hon item hitem => ?_, h.single, fun id hid => ?_, h.off⟩
  · rw [hids]
    refine List.Nodup.append h.once (List.nodup_singleton _) fun id hmem hlast => hbusy ?_
    rw [← List.mem_singleton.mp hlast]
    exact hmem
  · rw [hids] at hid
    rcases List.mem_append.mp hid with hmem | hlast
    · exact h.quiet id hmem
    · rw [List.mem_singleton.mp hlast]
      exact hquiet
  · rcases List.mem_append.mp hitem with hmem | hlast
    · refine (h.kept hon item hmem).imp (fun hstone => ?_) fun ⟨before, hclock, haged⟩ =>
        ⟨now, rfl, Int.lt_of_lt_of_le haged (hnow before hclock)⟩
      refine (AList.lookup_insert_ne fun heq => hbusy ?_).trans hstone
      rw [← heq]
      exact List.mem_map_of_mem hmem
    · rw [List.mem_singleton.mp hlast]
      exact .inl (AList.lookup_insert _)
  · obtain ⟨hnot, hring⟩ := h.apart id hid
    refine ⟨fun hmem => ?_, hring⟩
    rw [hids] at hmem
    rcases List.mem_append.mp hmem with hold | hlast
    · exact hnot hold
    · exact hasked (List.mem_singleton.mp hlast ▸ hid)

theorem silent_rejectAsBusy (s : Bridge) (call : CallInfo) (now : ℤ) : s.Silent (s.rejectAsBusy call now) :=
  ⟨List.subset_append_left _ _, fun _ _ => rfl⟩

theorem Hushed.rejectInvitationAsBusy (h : s.Hushed) (inviteID : String) {now : ℤ} (hnow : s.Reads now) :
    (s.rejectInvitationAsBusy inviteID now).Hushed ∧ s.Silent (s.rejectInvitationAsBusy inviteID now) := by
  unfold Bridge.rejectInvitationAsBusy
  cases hcall : s.activeCalls.lookup inviteID with
  | none => exact ⟨h, (Calm.refl s).silent⟩
  | some call =>
    dsimp only
    by_cases hstate : call.state ≠ .ringing
    · rw [if_pos hstate]
      exact ⟨h, (Calm.refl s).silent⟩
    rw [if_neg hstate]
    have hring : s.Ringing inviteID := ⟨call, hcall, not_not.mp hstate⟩
    have hname := h.named inviteID call hcall
    -- the call goes first, so that it rings no more
    have herase := s.calm_erase inviteID
    have hgone : ¬ Ringing { s with activeCalls := s.activeCalls.erase inviteID } call.inviteID := by
      rintro ⟨other, hother, -⟩
      exact (lookup_erase_some hother).1 hname
    generalize hleft : (if isValidFriendNumber call.friendNumber = true then
      endAvLegIfStarted { s with activeCalls := s.activeCalls.erase inviteID } call
      else { s with activeCalls := s.activeCalls.erase inviteID }) = left
    have hcalm : Calm { s with activeCalls := s.activeCalls.erase inviteID } left := by
      rw [← hleft]
      split_ifs
      · exact calm_endAvLeg _ call
      · exact Calm.refl _
    have hboth := herase.trans hcalm
    have hreads : left.Reads now := by
      rw [Reads, hboth.clock]
      exact hnow
    have hfree : call.inviteID ∉ left.busyIds := fun hmem => by
      rw [busyIds, hboth.busy, hname] at hmem
      exact h.quiet inviteID hmem hring
    have hask : call.inviteID ∉ left.asked := fun hmem => by
      rw [hname] at hmem
      exact (h.apart inviteID (hboth.asked.subset hmem)).2 hring
    refine ⟨(h.calm hboth).rejectAsBusy call hreads hfree (fun hagain => hgone (hcalm.ringing _ hagain)) hask, ?_⟩
    obtain ⟨hsub, hrings⟩ := hboth.silent
    obtain ⟨hsub', hrings'⟩ := left.silent_rejectAsBusy call now
    exact ⟨fun item hitem => hsub' (hsub hitem), fun id hid =>
      (hrings' id (List.map_subset _ hsub hid)).trans (hrings id hid)⟩

/-- An invitation comes, within the time of the tombstone if it was rejected as busy before. -/
theorem Hushed.onReceiveNewInvitation (h : s.Hushed) (hon : s.disposed = false) (hempty : s.stack = [])
    {inviteID : String} {now : ℤ} (hnow : s.Reads now)
    (htime : ∀ item ∈ s.busyCalls, item.1 = inviteID → now ≤ item.2 + busyTombstoneTtl)
    (inviter groupID : String) (inviteeList : List String) (data : String) (numbers : String → ℤ) :
    (s.onReceiveNewInvitation inviteID inviter groupID inviteeList data numbers now).Hushed ∧
      s.Silent (s.onReceiveNewInvitation inviteID inviter groupID inviteeList data numbers now) := by
  have hkept : ∀ item ∈ s.busyCalls, (s.pruneBusyTombstones now).busyTombstones.lookup item.1 = some item.2 ∨
      item.2 + busyTombstoneTtl < now := by
    intro item hitem
    rcases h.kept hon item hitem with hstone | ⟨before, hclock, haged⟩
    · by_cases hage : busyTombstoneTtl < now - item.2
      · exact .inr (by omega)
      · refine .inl (lookup_eraseIf_eq_some.mpr ⟨hstone, ?_⟩)
        rw [decide_eq_false hage]
        rfl
    · exact .inr (Int.lt_of_lt_of_le haged (hnow before hclock))
  have hpruned : (s.pruneBusyTombstones now).Hushed :=
    ⟨h.named, h.once, h.quiet, fun _ item hitem => (hkept item hitem).imp_right fun haged => ⟨now, rfl, haged⟩,
      h.single, h.apart, h.off⟩
  have hsilent : s.Silent (s.pruneBusyTombstones now) := ⟨List.Subset.refl _, fun _ _ => rfl⟩
  unfold Bridge.onReceiveNewInvitation
  dsimp only
  split_ifs with htracked
  · exact ⟨hpruned, hsilent⟩
  obtain ⟨hactive, hstone⟩ := not_or.mp htracked
  have hfree : inviteID ∉ s.busyIds := by
    intro hmem
    obtain ⟨item, hitem, rfl⟩ := List.mem_map.mp hmem
    rcases hkept item hitem with hfound | haged
    · refine hstone (AList.lookup_isSome.mp ?_)
      rw [hfound]
      rfl
    · exact absurd haged (Int.not_lt.mpr (htime item hitem rfl))
  have hquiet : ¬ s.Ringing inviteID := by
    rintro ⟨call, hcall, -⟩
    refine hactive (AList.lookup_isSome.mp ?_)
    change (s.activeCalls.lookup inviteID).isSome = true
    rw [hcall]
    rfl
  refine ⟨⟨hpruned.named, hpruned.once, hpruned.quiet, hpruned.kept, ?_, fun id hid => ?_, hpruned.off⟩, hsilent⟩
  · change (List.map _ (List.filterMap Frame.call (_ :: s.stack))).length ≤ 1
    rw [hempty]
    exact Nat.le_refl 1
  · change id ∈ List.map _ (List.filterMap Frame.call (_ :: s.stack)) at hid
    rw [hempty] at hid
    rw [List.mem_singleton.mp hid]
    exact ⟨hfree, hquiet⟩

/-- The embedder has answered: the invitation is rejected, or it rings. -/
theorem Hushed.answered (h : s.Hushed) {call : CallInfo} {rest : List Frame} (hstack : s.stack = .asked call :: rest)
    (busy : Bool) {now : ℤ} (hnow : s.Reads now) :
    (answered { s with stack := rest } call busy now).Hushed ∧
      s.Silent (answered { s with stack := rest } call busy now) := by
  have hcalm := calm_unframed hstack
  have hrest := h.calm hcalm
  have hasked : s.asked = call.inviteID :: asked { s with stack := rest } := by
    rw [Bridge.asked, hstack]
    rfl
  have hnone : asked { s with stack := rest } = [] := by
    have hone := h.single
    rw [hasked, List.length_cons] at hone
    exact List.eq_nil_of_length_eq_zero (by omega)
  obtain ⟨hfree, hquiet⟩ := h.apart call.inviteID (hasked ▸ List.mem_cons_self)
  unfold Bridge.answered
  cases busy with
  | true =>
    refine ⟨hrest.rejectAsBusy call hnow hfree hquiet ?_, silent_rejectAsBusy _ call now⟩
    rw [hnone]
    exact List.not_mem_nil
  | false =>
    rw [if_neg Bool.false_ne_true]
    unfold Bridge.heard
    by_cases hoff : s.disposed = true
    · rw [if_pos hoff]
      exact ⟨hrest, hcalm.silent⟩
    rw [if_neg hoff]
    have hringing : ∀ id, (surface { s with stack := rest } call).Ringing id → id = call.inviteID ∨ s.Ringing id := by
      rintro id ⟨other, hother, hstate⟩
      exact (lookup_insert_some hother).imp And.left fun ⟨_, hold⟩ => ⟨other, hold, hstate⟩
    refine ⟨⟨fun id other hother => ?_, h.once, fun id hid hring => ?_, h.kept, hrest.single, fun id hid => ?_,
      fun hdisposed => absurd hdisposed hoff⟩, List.Subset.refl _, fun id hid => ?_⟩
    · rcases lookup_insert_some hother with ⟨rfl, rfl⟩ | ⟨-, hold⟩
      · rfl
      · exact h.named id other hold
    · rcases hringing id hring with rfl | hold
      · exact hfree hid
      · exact h.quiet id hid hold
    · change id ∈ asked { s with stack := rest } at hid
      rw [hnone] at hid
      exact absurd hid List.not_mem_nil
    · change (s.callbacks ++ [_]).count _ = s.callbacks.count _
      rw [List.count_append, List.count_singleton, if_neg, Nat.add_zero]
      intro heq
      have hsame : call.inviteID = id := congrArg Callback.inviteID (beq_iff_eq.mp heq)
      exact hfree (hsame ▸ hid)

theorem Hushed.dispose (h : s.Hushed) : s.dispose.Hushed ∧ s.Silent s.dispose := by
  unfold Bridge.dispose
  split_ifs
  · exact ⟨h, (Calm.refl s).silent⟩
  have hempty : ∀ {id : String} {call : CallInfo}, (∅ : AList fun _ : String => CallInfo).lookup id ≠ some call := by
    intro id call hcall
    rw [AList.lookup_empty] at hcall
    contradiction
  refine ⟨⟨fun id call hcall => absurd hcall hempty, h.once, ?_, fun hon => by contradiction, h.single,
    fun id hid => ⟨(h.apart id hid).1, ?_⟩, ?_⟩, List.Subset.refl _, fun _ _ => rfl⟩
  · rintro id - ⟨call, hcall, -⟩
    exact hempty hcall
  · rintro ⟨call, hcall, -⟩
    exact hempty hcall
  · rintro - id ⟨call, hcall, -⟩
    exact hempty hcall

end Bridge

/-- The clock does not go back, and an invitation that was rejected as busy comes again within the time
    that its tombstone is kept, or not at all. -/
def Punctual (s : Bridge) : Event → Prop
  | .op (.rejectBusy _ now) => ∀ before ∈ s.clock, before ≤ now
  | .answer _ now => ∀ before ∈ s.clock, before ≤ now
  | .outer (.invitation inviteID _ _ _ _ _ now) => (∀ before ∈ s.clock, before ≤ now) ∧
    ∀ item ∈ s.busyCalls, item.1 = inviteID → now ≤ item.2 + busyTombstoneTtl
  | _ => True

instance (s : Bridge) : ∀ e, Decidable (Punctual s e)
  | .op (.rejectBusy _ now) => inferInstanceAs (Decidable (∀ before ∈ s.clock, before ≤ now))
  | .op (.register _ _ _ _ _ _) | .op (.markStarted _ _ _) | .op (.reject _) | .op (.endLeg _ _)
  | .op (.accept _ _) | .op (.endCall _ _) | .op .dispose => .isTrue trivial
  | .answer _ now => inferInstanceAs (Decidable (∀ before ∈ s.clock, before ≤ now))
  | .back | .threw => .isTrue trivial
  | .outer (.invitation _ _ _ _ _ _ _) => inferInstanceAs (Decidable (_ ∧ _))
  | .outer (.cancelled _) | .outer (.accepted _) | .outer (.rejected _ _) | .outer (.timedOut _)
  | .outer (.acceptAnswered _ _) | .outer (.acceptDrains _) | .outer (.acceptResumes _)
  | .outer (.callAnswered _ _) | .outer (.rejectAnswered _ _) | .outer (.attemptAnswered _ _)
  | .outer (.timerFires _) | .outer (.waitEnds _) => .isTrue trivial

namespace Bridge

variable {s u : Bridge}

theorem Hushed.step (h : s.Hushed) {e : Event} (hpunctual : Punctual s e) (he : s.step e = some u) :
    u.Hushed ∧ s.Silent u := by
  cases e with
  | op op =>
    obtain rfl := Option.some.inj he
    by_cases hdispose : op = .dispose
    · rw [hdispose]
      exact h.dispose
    by_cases hbusy : ∃ id now, op = .rejectBusy id now
    · obtain ⟨id, now, rfl⟩ := hbusy
      exact h.rejectInvitationAsBusy id hpunctual
    · have hcalm := s.calm_run (fun id now heq => hbusy ⟨id, now, heq⟩) hdispose
      exact ⟨h.calm hcalm, hcalm.silent⟩
  | answer busy now =>
    obtain ⟨call, rest, hstack, rfl⟩ := step_answer he
    exact h.answered hstack busy hpunctual
  | back =>
    obtain ⟨actions, later, rest, hstack, rfl⟩ := step_back he
    have hcalm : s.Calm (goOn { s with stack := rest } actions later) :=
      ((calm_unframed hstack).trans (calm_startAll actions _)).trans (calm_of_same rfl rfl rfl rfl rfl rfl rfl)
    exact ⟨h.calm hcalm, hcalm.silent⟩
  | threw =>
    obtain ⟨frame, rest, hstack, rfl⟩ := step_threw he
    exact ⟨h.calm (calm_unframed hstack), (calm_unframed hstack).silent⟩
  | outer outer =>
    obtain ⟨hempty, hout⟩ := step_outer he
    by_cases hinvitation : ∃ inviteID inviter groupID inviteeList data numbers now,
        outer = .invitation inviteID inviter groupID inviteeList data numbers now
    · obtain ⟨inviteID, inviter, groupID, inviteeList, data, numbers, now, rfl⟩ := hinvitation
      obtain rfl := Option.some.inj hout
      unfold Bridge.heard
      split_ifs with hoff
      · exact ⟨h, (Calm.refl s).silent⟩
      · exact h.onReceiveNewInvitation (Bool.eq_false_iff.mpr hoff) hempty hpunctual.1 hpunctual.2 _ _ _ _ _
    · have hcalm := calm_outside hout fun inviteID inviter groupID inviteeList data numbers now heq =>
        hinvitation ⟨inviteID, inviter, groupID, inviteeList, data, numbers, now, heq⟩
      exact ⟨h.calm hcalm, hcalm.silent⟩

theorem Hushed.initial : Hushed {} := by
  have hring : ∀ id, ¬ Ringing {} id := by
    rintro id ⟨call, hcall, -⟩
    exact absurd (hcall.symm.trans (AList.lookup_empty id)) (Option.some_ne_none call)
  exact ⟨fun id call hcall => absurd (hcall.symm.trans (AList.lookup_empty id)) (Option.some_ne_none call),
    List.nodup_nil, fun id _ => hring id, fun _ item hitem => absurd hitem List.not_mem_nil, Nat.zero_le 1,
    fun id hid => absurd hid List.not_mem_nil, fun _ => hring⟩

end Bridge

/-- An invitation is rejected as busy once: no id is announced twice, and from the rejection on the id
    does not ring, whatever the embedder does in its callbacks and however often it is delivered. -/
theorem busy_rejected_once (es : List Event) (s : Bridge) (hrun : exec Bridge.step {} es = some s)
    (hmeets : Meets Bridge.step Punctual {} es) :
    s.busyIds.Nodup ∧ ∀ fs gs t, es = fs ++ gs → exec Bridge.step {} fs = some t →
      ∀ id ∈ t.busyIds, id ∈ s.busyIds ∧ ¬ s.Ringing id ∧ s.rings id = t.rings id := by
  have hstep : ∀ s e u, s.Hushed → Punctual s e → s.step e = some u → u.Hushed :=
    fun _ _ _ h hc he => (h.step hc he).1
  refine ⟨(invariant_of_meets hstep Bridge.Hushed.initial hmeets hrun).once, ?_⟩
  rintro fs gs t rfl ht id hid
  obtain ⟨t', ht', hlast⟩ := exec_append.mp hrun
  obtain rfl := Option.some.inj (ht.symm.trans ht')
  obtain ⟨hfirst, hrest⟩ := meets_append hmeets ht
  have hmiddle : t.Hushed := invariant_of_meets hstep Bridge.Hushed.initial hfirst ht
  -- from the rejection on the id stays among the busy ones and its rings stay as they are
  have hend : s.Hushed ∧ id ∈ s.busyIds ∧ s.rings id = t.rings id := by
    refine invariant_of_meets (I := fun v => v.Hushed ∧ id ∈ v.busyIds ∧ v.rings id = t.rings id)
      (fun v e w h hc he => ?_) ⟨hmiddle, hid, rfl⟩ hrest hlast
    obtain ⟨hnext, hsub, hrings⟩ := h.1.step hc he
    exact ⟨hnext, List.map_subset _ hsub h.2.1, (hrings id h.2.1).trans h.2.2⟩
  exact ⟨hend.2.1, hend.1.quiet id hend.2.1, hend.2.2⟩

/-- A second invitation comes during a call; it is rejected as busy and delivered again two minutes later. -/
def busyTwice : List Event :=
  [.outer (.invitation "first" "bob" "" ["self"] "" (fun _ => 3) 0), .answer false 0,
    .outer (.invitation "second" "eve" "" ["self"] "" (fun _ => 4) 5), .answer true 6, .back,
    .outer (.invitation "second" "eve" "" ["self"] "" (fun _ => 4) 120000006)]

theorem redelivered_busy_rejected_once : ∃ s, exec Bridge.step {} busyTwice = some s ∧
    s.busyIds = ["second"] ∧ s.busyIds.Nodup := by
  have hids : (exec Bridge.step {} busyTwice).map Bridge.busyIds = some ["second"] := by decide
  have hmeets : Meets Bridge.step Punctual {} busyTwice := by decide
  obtain ⟨s, hs, heq⟩ := Option.map_eq_some_iff.mp hids
  exact ⟨s, hs, heq, (busy_rejected_once busyTwice s hs hmeets).1⟩

end Tim2Tox.CallBridge
