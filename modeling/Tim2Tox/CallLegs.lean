import Tim2Tox.CallBridge

set_option autoImplicit false

/-!
# Media legs of calls

Every media leg that was started belongs to an active call, or its teardown is under way.
-/
namespace Tim2Tox.CallBridge
open KeyedTables LabelledRuns

namespace Bridge

variable {s u : Bridge} {leg : String × ℤ}

/-! ## What the longer functions do -/

theorem live_some {id : String} {call : CallInfo} (h : s.live id = some call) :
    s.disposed = false ∧ s.activeCalls.lookup id = some call := by
  unfold live at h
  split_ifs at h with hoff
  exact ⟨Bool.eq_false_iff.mpr hoff, h⟩

/-- Nothing is marked, the leg of a call that is gone is ended, or the call has the leg. -/
theorem markAvLegStarted_cases (s : Bridge) (id : String) (number : Option ℤ) (teardownIfMissing : Bool) :
    (number = none ∨ teardownIfMissing = false) ∧ s.markAvLegStarted id number teardownIfMissing = s ∨
    (∃ n, number = some n ∧ s.markAvLegStarted id number teardownIfMissing = s.endAvLegAndWaitForTeardown id n) ∨
    ∃ call, s.disposed = false ∧ s.activeCalls.lookup id = some call ∧
      s.markAvLegStarted id number teardownIfMissing = { s with
        activeCalls := s.activeCalls.insert id
          { call with friendNumber := number <|> call.friendNumber, avLegStarted := true }
        legs := s.legs ++ legOf id (number <|> call.friendNumber) } := by
  unfold Bridge.markAvLegStarted
  cases hlive : s.live id with
  | some call => exact .inr (.inr ⟨call, (live_some hlive).1, (live_some hlive).2, rfl⟩)
  | none =>
    cases number with
    | none => exact .inl ⟨.inl rfl, rfl⟩
    | some n =>
      cases teardownIfMissing with
      | false => exact .inl ⟨.inr rfl, rfl⟩
      | true => exact .inr (.inl ⟨n, rfl, rfl⟩)

theorem lookupFriendNumber_valid {numbers : String → ℤ} {userId : String} {number : ℤ}
    (h : lookupFriendNumber numbers userId = some number) : isValidFriendNumber (some number) = true := by
  unfold lookupFriendNumber at h
  split_ifs at h with hempty hvalid
  obtain rfl := Option.some.inj h
  exact hvalid

/-- There is nothing to accept; or the call gets its friend number as far as one is known, and the
    signalling is asked if it has one. -/
theorem acceptInvitation_cases (s : Bridge) (id : String) (numbers : String → ℤ) :
    s.acceptInvitation id numbers = s ∨
    ∃ call number, s.activeCalls.lookup id = some call ∧
      (isValidFriendNumber call.friendNumber = true → number = call.friendNumber) ∧
      (number = none ∧ s.acceptInvitation id numbers = failAccept { s with
          activeCalls := s.activeCalls.insert id { call with friendNumber := number } } id false ∨
        ∃ n, number = some n ∧ isValidFriendNumber (some n) = true ∧ s.acceptInvitation id numbers = { s with
          activeCalls := s.activeCalls.insert id { call with friendNumber := number }
          accepts := s.accepts ++ [⟨call.object, id, n, .accepting⟩] }) := by
  unfold Bridge.acceptInvitation
  cases hlive : s.live id with
  | none => exact .inl rfl
  | some call =>
    refine .inr ⟨call, if isValidFriendNumber call.friendNumber then call.friendNumber
      else lookupFriendNumber numbers call.inviter, (live_some hlive).2, fun hvalid => if_pos hvalid, ?_⟩
    dsimp only
    cases hnumber : (if isValidFriendNumber call.friendNumber = true then call.friendNumber
      else lookupFriendNumber numbers call.inviter) with
    | none => exact .inl ⟨rfl, rfl⟩
    | some n =>
      refine .inr ⟨n, rfl, ?_, rfl⟩
      split_ifs at hnumber with hvalid
      · rwa [hnumber] at hvalid
      · exact lookupFriendNumber_valid hnumber

/-! ## Where a leg is -/

/-- An active call has the leg. -/
def Owned (s : Bridge) (leg : String × ℤ) : Prop :=
  ∃ call, s.activeCalls.lookup leg.1 = some call ∧ call.avLegStarted = true ∧
    call.friendNumber = some leg.2 ∧ isValidFriendNumber call.friendNumber = true

/-- An active call has the leg, a teardown of it is pending, or the function that a callback
    interrupts starts one next. -/
def Held (s : Bridge) (leg : String × ℤ) : Prop :=
  s.Owned leg ∨ TeardownKey.avEnd leg.1 leg.2 ∈ s.pendingTeardowns ∨
    ∃ actions later, Frame.starts actions later ∈ s.stack ∧ Action.avEnd leg.1 leg.2 ∈ actions

theorem Held.mono (h : s.Held leg) (hcalls : s.Owned leg → u.Held leg)
    (hpending : ∀ key ∈ s.pendingTeardowns, key ∈ u.pendingTeardowns)
    (hstack : ∀ frame ∈ s.stack, frame ∈ u.stack) : u.Held leg := by
  rcases h with howned | hpend | ⟨actions, later, hframe, haction⟩
  · exact hcalls howned
  · exact .inr (.inl (hpending _ hpend))
  · exact .inr (.inr ⟨actions, later, hstack _ hframe, haction⟩)

/-- The table of calls changes at one id. -/
theorem Held.change (h : s.Held leg) (id : String)
    (hother : leg.1 ≠ id → u.activeCalls.lookup leg.1 = s.activeCalls.lookup leg.1)
    (howner : leg.1 = id → s.Owned leg → u.Held leg)
    (hpending : ∀ key ∈ s.pendingTeardowns, key ∈ u.pendingTeardowns)
    (hstack : ∀ frame ∈ s.stack, frame ∈ u.stack) : u.Held leg := by
  refine h.mono (fun howned => ?_) hpending hstack
  by_cases hid : leg.1 = id
  · exact howner hid howned
  · obtain ⟨call, hlookup, hrest⟩ := howned
    exact .inl ⟨call, (hother hid).trans hlookup, hrest⟩

theorem mem_start {key : TeardownKey} {action : Action} :
    key ∈ (s.startBoundedTeardown action).pendingTeardowns ↔ key = action.key ∨ key ∈ s.pendingTeardowns := by
  change key ∈ s.pendingTeardowns.insert _ _ ↔ _
  rw [AList.mem_insert]

theorem startAll_frame (actions : List Action) : ∀ s : Bridge,
    (s.startAll actions).activeCalls = s.activeCalls ∧ (s.startAll actions).stack = s.stack ∧
      (s.startAll actions).legs = s.legs ∧ (s.startAll actions).accepts = s.accepts ∧
      (s.startAll actions).calls = s.calls := by
  induction actions with
  | nil => exact fun s => ⟨rfl, rfl, rfl, rfl, rfl⟩
  | cons action actions ih => exact fun s => ih (s.startBoundedTeardown action)

theorem mem_startAll {key : TeardownKey} (actions : List Action) : ∀ s : Bridge,
    key ∈ (s.startAll actions).pendingTeardowns ↔
      (∃ action ∈ actions, key = action.key) ∨ key ∈ s.pendingTeardowns := by
  induction actions with
  | nil =>
    intro s
    refine ⟨.inr, fun h => h.resolve_left fun hnone => ?_⟩
    obtain ⟨_, hmem, -⟩ := hnone
    exact List.not_mem_nil hmem
  | cons action actions ih =>
    intro s
    refine (ih (s.startBoundedTeardown action)).trans ?_
    rw [mem_start, List.exists_mem_cons_iff, or_assoc, or_left_comm]

/-! ## The numbers of calls -/

/-- Calls have their own ids and numbers, and a section that accepts a call has the friend of it. -/
structure Numbered (s : Bridge) : Prop where
  named : ∀ id call, s.activeCalls.lookup id = some call → call.inviteID = id
  calls : ∀ id call, s.activeCalls.lookup id = some call → call.object < s.calls
  accepts : ∀ accept ∈ s.accepts, accept.object < s.calls
  friends : ∀ accept ∈ s.accepts, ∀ call, s.activeCalls.lookup accept.inviteID = some call →
    call.object = accept.object →
    call.friendNumber = some accept.friendNumber ∧ isValidFriendNumber call.friendNumber = true

/-- Calls go, sections go on. -/
theorem Numbered.fewer (h : s.Numbered) (hcalls : ∀ id call, u.activeCalls.lookup id = some call →
      s.activeCalls.lookup id = some call) (hcount : u.calls = s.calls)
    (haccepts : ∀ accept ∈ u.accepts, ∃ old ∈ s.accepts, old.object = accept.object ∧
      old.inviteID = accept.inviteID ∧ old.friendNumber = accept.friendNumber) : u.Numbered := by
  refine ⟨fun id call hlookup => h.named id call (hcalls id call hlookup), fun id call hlookup => ?_,
    fun accept haccept => ?_, fun accept haccept call hlookup hobject => ?_⟩
  · rw [hcount]
    exact h.calls id call (hcalls id call hlookup)
  · obtain ⟨old, hold, hobject, -⟩ := haccepts accept haccept
    rw [hcount, ← hobject]
    exact h.accepts old hold
  · obtain ⟨old, hold, hsame, hid, hnumber⟩ := haccepts accept haccept
    rw [← hnumber]
    refine h.friends old hold call ?_ (hobject.trans hsame.symm)
    rw [hid]
    exact hcalls _ _ hlookup

theorem Numbered.same (h : s.Numbered) (hcalls : u.activeCalls = s.activeCalls) (hcount : u.calls = s.calls)
    (haccepts : u.accepts = s.accepts) : u.Numbered := by
  refine h.fewer (fun id call hlookup => ?_) hcount fun accept haccept => ⟨accept, ?_, rfl, rfl, rfl⟩
  · rw [hcalls] at hlookup
    exact hlookup
  · rw [haccepts] at haccept
    exact haccept

theorem Numbered.erase (h : s.Numbered) {id : String} (hcalls : u.activeCalls = s.activeCalls.erase id)
    (hcount : u.calls = s.calls) (haccepts : u.accepts = s.accepts) : u.Numbered := by
  refine h.fewer (fun key call hlookup => ?_) hcount fun accept haccept => ⟨accept, ?_, rfl, rfl, rfl⟩
  · rw [hcalls] at hlookup
    exact (lookup_erase_some hlookup).2
  · rw [haccepts] at haccept
    exact haccept

/-- A call keeps its number and a friend that it has. -/
theorem Numbered.update (h : s.Numbered) {id : String} {old new : CallInfo}
    (hold : s.activeCalls.lookup id = some old) (hname : new.inviteID = old.inviteID)
    (hobject : new.object = old.object)
    (hfriend : isValidFriendNumber old.friendNumber = true → new.friendNumber = old.friendNumber)
    (hcalls : u.activeCalls = s.activeCalls.insert id new) (hcount : u.calls = s.calls)
    (haccepts : u.accepts = s.accepts) : u.Numbered := by
  refine ⟨fun key call hlookup => ?_, fun key call hlookup => ?_, fun accept haccept => ?_,
    fun accept haccept call hlookup hsame => ?_⟩
  · rw [hcalls] at hlookup
    rcases lookup_insert_some hlookup with ⟨rfl, rfl⟩ | ⟨-, hlookup⟩
    · exact hname.trans (h.named _ _ hold)
    · exact h.named _ _ hlookup
  · rw [hcalls] at hlookup
    rw [hcount]
    rcases lookup_insert_some hlookup with ⟨rfl, rfl⟩ | ⟨-, hlookup⟩
    · rw [hobject]
      exact h.calls _ _ hold
    · exact h.calls _ _ hlookup
  · rw [haccepts] at haccept
    rw [hcount]
    exact h.accepts accept haccept
  · rw [haccepts] at haccept
    rw [hcalls] at hlookup
    rcases lookup_insert_some hlookup with ⟨hid, rfl⟩ | ⟨-, hlookup⟩
    · obtain ⟨hnumber, hvalid⟩ := h.friends accept haccept old (hid ▸ hold) (hobject.symm.trans hsame)
      rw [hfriend hvalid]
      exact ⟨hnumber, hvalid⟩
    · exact h.friends accept haccept call hlookup hsame

/-- A call comes in with its own number. -/
theorem Numbered.insert (h : s.Numbered) {id : String} {new : CallInfo} (hname : new.inviteID = id)
    (hobject : new.object = s.calls) (hcalls : u.activeCalls = s.activeCalls.insert id new)
    (hcount : u.calls = s.calls + 1) (haccepts : u.accepts = s.accepts) : u.Numbered := by
  refine ⟨fun key call hlookup => ?_, fun key call hlookup => ?_, fun accept haccept => ?_,
    fun accept haccept call hlookup hsame => ?_⟩
  · rw [hcalls] at hlookup
    rcases lookup_insert_some hlookup with ⟨rfl, rfl⟩ | ⟨-, hlookup⟩
    · exact hname
    · exact h.named _ _ hlookup
  · rw [hcalls] at hlookup
    rcases lookup_insert_some hlookup with ⟨-, rfl⟩ | ⟨-, hlookup⟩
    · omega
    · have := h.calls _ _ hlookup
      omega
  · rw [haccepts] at haccept
    have := h.accepts accept haccept
    omega
  · rw [haccepts] at haccept
    rw [hcalls] at hlookup
    rcases lookup_insert_some hlookup with ⟨-, rfl⟩ | ⟨-, hlookup⟩
    · have := h.accepts accept haccept
      omega
    · exact h.friends accept haccept call hlookup hsame

/-! ## What every function keeps -/

structure Sound (s : Bridge) : Prop where
  numbered : s.Numbered
  held : ∀ leg ∈ s.legs, s.Held leg

/-- What does not touch the calls and only adds teardowns and frames. -/
theorem Sound.grow (h : s.Sound) (hcalls : u.activeCalls = s.activeCalls) (hcount : u.calls = s.calls)
    (haccepts : u.accepts = s.accepts) (hlegs : u.legs = s.legs)
    (hpending : ∀ key ∈ s.pendingTeardowns, key ∈ u.pendingTeardowns)
    (hstack : ∀ frame ∈ s.stack, frame ∈ u.stack) : u.Sound := by
  refine ⟨h.numbered.same hcalls hcount haccepts, fun leg hleg => ?_⟩
  rw [hlegs] at hleg
  refine (h.held leg hleg).mono (fun howned => .inl ?_) hpending hstack
  rw [Owned, hcalls]
  exact howned

theorem Sound.start (h : s.Sound) (action : Action) : (s.startBoundedTeardown action).Sound :=
  h.grow rfl rfl rfl rfl (fun _ hkey => mem_start.mpr (.inr hkey)) fun _ hframe => hframe

/-- A teardown takes over a leg that no call has. -/
theorem Sound.startLeg (h : s.Sound) (id : String) (number : ℤ) : (s.endAvLegAndWaitForTeardown id number).Sound := by
  refine ⟨h.numbered.same rfl rfl rfl, fun leg hleg => ?_⟩
  rcases List.mem_append.mp hleg with hold | hnew
  · exact (h.held leg hold).mono .inl (fun _ hkey => mem_start.mpr (.inr hkey)) fun _ hframe => hframe
  · rw [List.mem_singleton.mp hnew]
    exact .inr (.inl (mem_start.mpr (.inl rfl)))

theorem endIfStarted_frame (s : Bridge) (call : CallInfo) :
    (s.endAvLegIfStarted call).activeCalls = s.activeCalls ∧ (s.endAvLegIfStarted call).calls = s.calls ∧
      (s.endAvLegIfStarted call).accepts = s.accepts ∧ (s.endAvLegIfStarted call).legs = s.legs ∧
      (s.endAvLegIfStarted call).stack = s.stack ∧
      ∀ key ∈ s.pendingTeardowns, key ∈ (s.endAvLegIfStarted call).pendingTeardowns := by
  unfold endAvLegIfStarted
  cases call.friendNumber with
  | none => exact ⟨rfl, rfl, rfl, rfl, rfl, fun _ hkey => hkey⟩
  | some number =>
    dsimp only
    by_cases hstarted : call.avLegStarted = true
    · rw [if_pos hstarted]
      exact ⟨rfl, rfl, rfl, rfl, rfl, fun _ hkey => mem_start.mpr (.inr hkey)⟩
    · rw [if_neg hstarted]
      exact ⟨rfl, rfl, rfl, rfl, rfl, fun _ hkey => hkey⟩

/-- The leg of the call is handed to a teardown. -/
theorem pending_of_owned (h : s.Numbered) (howned : s.Owned leg) {id : String} {call : CallInfo}
    (hcall : s.activeCalls.lookup id = some call) (hid : leg.1 = id) {v : Bridge} :
    TeardownKey.avEnd leg.1 leg.2 ∈ (v.endAvLegIfStarted call).pendingTeardowns := by
  obtain ⟨own, hown, hstarted, hnumber, -⟩ := howned
  rw [hid] at hown ⊢
  obtain rfl := Option.some.inj (hcall.symm.trans hown)
  unfold endAvLegIfStarted
  rw [hnumber]
  dsimp only
  rw [if_pos hstarted, h.named id call hcall]
  exact mem_start.mpr (.inl rfl)

/-- A call goes whose leg, if it has one, is taken care of. -/
theorem Sound.erase (h : s.Sound) {id : String} (hcalls : u.activeCalls = s.activeCalls.erase id)
    (hcount : u.calls = s.calls) (haccepts : u.accepts = s.accepts) (hlegs : u.legs = s.legs)
    (hpending : ∀ key ∈ s.pendingTeardowns, key ∈ u.pendingTeardowns)
    (hstack : ∀ frame ∈ s.stack, frame ∈ u.stack)
    (howner : ∀ leg, leg.1 = id → s.Owned leg → u.Held leg) : u.Sound := by
  refine ⟨h.numbered.erase hcalls hcount haccepts, fun leg hleg => ?_⟩
  rw [hlegs] at hleg
  refine (h.held leg hleg).change id (fun hid => ?_) (howner leg) hpending hstack
  rw [hcalls, AList.lookup_erase_ne hid]

theorem Sound.finish (h : s.Sound) (id : String) (reason : CallInfo → EndReason) : (s.finish id reason).Sound := by
  unfold Bridge.finish
  cases hcall : s.activeCalls.lookup id with
  | none => exact h
  | some call =>
    obtain ⟨hcalls, hcount, haccepts, hlegs, hstack, hpending⟩ := s.endIfStarted_frame call
    refine h.erase (congrArg (·.erase id) hcalls) hcount haccepts hlegs hpending ?_ fun leg hid howned => ?_
    · change ∀ frame ∈ s.stack, frame ∈ (s.endAvLegIfStarted call).stack
      rw [hstack]
      exact fun _ hframe => hframe
    · exact .inr (.inl (pending_of_owned h.numbered howned hcall hid))

/-- A call changes and keeps its leg. -/
theorem Sound.update (h : s.Sound) {id : String} {old : CallInfo}
    (hold : s.activeCalls.lookup id = some old) (new : CallInfo) (hname : new.inviteID = old.inviteID)
    (hobject : new.object = old.object)
    (hfriend : isValidFriendNumber old.friendNumber = true → new.friendNumber = old.friendNumber)
    (hstarted : old.avLegStarted = true → new.avLegStarted = true)
    (hcalls : u.activeCalls = s.activeCalls.insert id new) (hcount : u.calls = s.calls)
    (haccepts : u.accepts = s.accepts) (hpending : u.pendingTeardowns = s.pendingTeardowns)
    (hstack : u.stack = s.stack) (hlegs : ∀ leg ∈ u.legs, leg ∈ s.legs ∨ u.Held leg) : u.Sound := by
  refine ⟨h.numbered.update hold hname hobject hfriend hcalls hcount haccepts, fun leg hleg => ?_⟩
  refine (hlegs leg hleg).elim (fun hmem => ?_) fun hheld => hheld
  refine (h.held leg hmem).change id (fun hid => ?_) (fun hid howned => .inl ?_) (fun key hkey => ?_) fun frame hframe => ?_
  · rw [hcalls, AList.lookup_insert_ne hid]
  · obtain ⟨own, hown, hon, hnumber, hvalid⟩ := howned
    rw [hid] at hown
    obtain rfl := Option.some.inj (hold.symm.trans hown)
    refine ⟨new, ?_, hstarted hon, ?_, ?_⟩
    · rw [hid, hcalls, AList.lookup_insert]
    · rw [hfriend hvalid, hnumber]
    · rw [hfriend hvalid, hvalid]
  · rw [hpending]
    exact hkey
  · rw [hstack]
    exact hframe

theorem Sound.onInviteeAccepted (h : s.Sound) (id : String) : (s.onInviteeAccepted id).Sound := by
  unfold Bridge.onInviteeAccepted
  cases hcall : s.activeCalls.lookup id with
  | none => exact h
  | some call =>
    dsimp only
    split_ifs
    · exact h.update hcall { call with state := .inCall } rfl rfl (fun _ => rfl) (fun hon => hon) rfl rfl rfl rfl rfl fun _ hleg => .inl hleg
    · exact h

theorem Sound.onReceiveNewInvitation (h : s.Sound) (inviteID inviter groupID : String)
    (inviteeList : List String) (data : String) (numbers : String → ℤ) (now : ℤ) :
    (s.onReceiveNewInvitation inviteID inviter groupID inviteeList data numbers now).Sound := by
  have hpruned : (s.pruneBusyTombstones now).Sound :=
    h.grow rfl rfl rfl rfl (fun _ hkey => hkey) fun _ hframe => hframe
  unfold Bridge.onReceiveNewInvitation
  dsimp only
  split_ifs
  · exact hpruned
  · exact hpruned.grow rfl rfl rfl rfl (fun _ hkey => hkey) fun _ hframe => List.mem_cons_of_mem _ hframe

theorem Sound.rejectAsBusy (h : s.Sound) (call : CallInfo) (now : ℤ) : (s.rejectAsBusy call now).Sound :=
  h.grow rfl rfl rfl rfl (fun _ hkey => hkey) fun _ hframe => List.mem_cons_of_mem _ hframe

/-- A call comes in under an id that is free. -/
theorem Sound.insert (h : s.Sound) {id : String} (hfree : id ∉ s.activeCalls) (new : CallInfo)
    (hname : new.inviteID = id) (hobject : new.object = s.calls)
    (hcalls : u.activeCalls = s.activeCalls.insert id new) (hcount : u.calls = s.calls + 1)
    (haccepts : u.accepts = s.accepts) (hlegs : u.legs = s.legs)
    (hpending : u.pendingTeardowns = s.pendingTeardowns) (hstack : u.stack = s.stack) : u.Sound := by
  refine ⟨h.numbered.insert hname hobject hcalls hcount haccepts, fun leg hleg => ?_⟩
  rw [hlegs] at hleg
  refine (h.held leg hleg).change id (fun hid => ?_) (fun hid howned => ?_) (fun key hkey => ?_) fun frame hframe => ?_
  · rw [hcalls, AList.lookup_insert_ne hid]
  · obtain ⟨own, hown, -⟩ := howned
    rw [hid] at hown
    refine absurd ?_ hfree
    rw [← AList.lookup_isSome, hown]
    rfl
  · rw [hpending]
    exact hkey
  · rw [hstack]
    exact hframe

theorem Sound.register (h : s.Sound) {inviteID : String} (hfree : inviteID ∉ s.activeCalls)
    (inviter invitee data : String) (friendNumber : Option ℤ) (groupID : Option String) :
    (s.registerOutgoingCall inviteID inviter invitee data friendNumber groupID).Sound := by
  unfold registerOutgoingCall
  split_ifs
  · exact h
  · exact h.insert hfree _ rfl rfl rfl rfl rfl rfl rfl rfl

theorem mem_legOf {id : String} {number : Option ℤ} (h : leg ∈ legOf id number) :
    leg.1 = id ∧ number = some leg.2 ∧ isValidFriendNumber number = true := by
  unfold legOf at h
  cases number with
  | none => exact absurd h List.not_mem_nil
  | some n =>
    dsimp only at h
    split_ifs at h with hvalid
    · rw [List.mem_singleton.mp h]
      exact ⟨rfl, rfl, hvalid⟩
    · exact absurd h List.not_mem_nil

theorem Sound.markAvLegStarted (h : s.Sound) {id : String} {number : Option ℤ}
    (hsame : ∀ call, s.activeCalls.lookup id = some call → isValidFriendNumber call.friendNumber = true →
      number = none ∨ number = call.friendNumber) (teardownIfMissing : Bool) :
    (s.markAvLegStarted id number teardownIfMissing).Sound := by
  rcases s.markAvLegStarted_cases id number teardownIfMissing with
    ⟨-, heq⟩ | ⟨n, -, heq⟩ | ⟨call, -, hcall, heq⟩ <;> rw [heq]
  · exact h
  · exact h.startLeg id n
  · refine h.update hcall { call with friendNumber := number <|> call.friendNumber, avLegStarted := true } rfl rfl
      (fun hvalid => ?_) (fun _ => rfl) rfl rfl rfl rfl rfl fun leg hleg => ?_
    · change (number <|> call.friendNumber) = call.friendNumber
      rcases hsame call hcall hvalid with hnone | hown
      · rw [hnone]
        rfl
      · rw [hown]
        cases call.friendNumber <;> rfl
    · refine (List.mem_append.mp hleg).imp_right fun hnew => ?_
      obtain ⟨hid, hnumber, hvalid⟩ := mem_legOf hnew
      refine .inl ⟨{ call with friendNumber := number <|> call.friendNumber, avLegStarted := true }, ?_, rfl,
        hnumber, hvalid⟩
      rw [hid, AList.lookup_insert]

theorem not_owned {id : String} (h : ∀ call, s.activeCalls.lookup id = some call → call.avLegStarted = false)
    (hid : leg.1 = id) : ¬ s.Owned leg := by
  rintro ⟨call, hcall, hstarted, -⟩
  rw [hid] at hcall
  exact absurd ((h call hcall).symm.trans hstarted) (by decide)

/-- The call of an accept that has failed goes; after the accept its leg goes to a teardown. -/
theorem Sound.failAccept (h : s.Sound) (id : String) {postAccept : Bool}
    (hleg : postAccept = false → ∀ leg, leg.1 = id → ¬ s.Owned leg) : (s.failAccept id postAccept).Sound := by
  refine h.erase rfl rfl rfl rfl (fun _ hkey => hkey) (fun _ hframe => List.mem_cons_of_mem _ hframe)
    fun leg hid howned => ?_
  cases postAccept with
  | false => exact absurd howned (hleg rfl leg hid)
  | true =>
    obtain ⟨call, hcall, hstarted, hnumber, -⟩ := howned
    rw [hid] at hcall
    refine .inr (.inr ⟨_, _, List.mem_cons_self, ?_⟩)
    rw [if_pos rfl, hcall, Option.bind_some, hnumber, hid]
    exact List.mem_singleton_self _

theorem Sound.rejectInvitation (h : s.Sound) {id : String}
    (hleg : ∀ call, s.activeCalls.lookup id = some call → call.avLegStarted = false) :
    (s.rejectInvitation id).Sound := by
  unfold Bridge.rejectInvitation
  split_ifs
  · refine h.erase rfl rfl rfl rfl (fun _ hkey => hkey) (fun _ hframe => List.mem_cons_of_mem _ hframe)
      fun leg hid howned => absurd howned (not_owned hleg hid)
  · exact h.grow rfl rfl rfl rfl (fun _ hkey => hkey) fun _ hframe => hframe

theorem Sound.rejectInvitationAsBusy (h : s.Sound) (id : String) (now : ℤ) :
    (s.rejectInvitationAsBusy id now).Sound := by
  unfold Bridge.rejectInvitationAsBusy
  cases hcall : s.activeCalls.lookup id with
  | none => exact h
  | some call =>
    dsimp only
    split_ifs with hstate hvalid
    · exact h
    · refine Sound.rejectAsBusy ?_ call now
      obtain ⟨hcalls, hcount, haccepts, hlegs, hstack, hpending⟩ :=
        endIfStarted_frame { s with activeCalls := s.activeCalls.erase id } call
      refine h.erase hcalls hcount haccepts hlegs hpending ?_ fun leg hid howned => ?_
      · rw [hstack]
        exact fun _ hframe => hframe
      · exact .inr (.inl (pending_of_owned h.numbered howned hcall hid))
    · refine Sound.rejectAsBusy ?_ call now
      refine h.erase rfl rfl rfl rfl (fun _ hkey => hkey) (fun _ hframe => hframe) fun leg hid howned => ?_
      obtain ⟨own, hown, -, -, hown'⟩ := howned
      rw [hid] at hown
      obtain rfl := Option.some.inj (hcall.symm.trans hown)
      exact absurd hown' hvalid

theorem mem_endFrame {call : CallInfo} {number : ℤ} (hstarted : call.avLegStarted = true)
    (hnumber : call.friendNumber = some number) (wait : Bool) :
    ∃ actions later, endFrame call wait = .starts actions later ∧ Action.avEnd call.inviteID number ∈ actions := by
  unfold endFrame
  rw [if_pos hstarted, hnumber]
  dsimp only
  split_ifs
  all_goals exact ⟨_, _, rfl, List.mem_cons_self⟩

theorem Sound.endCall (h : s.Sound) (id : String) (wait : Bool) : (s.endCall id wait).Sound := by
  unfold Bridge.endCall
  cases hcall : s.activeCalls.lookup id with
  | none => exact h
  | some call =>
    refine h.erase rfl rfl rfl rfl (fun _ hkey => hkey) (fun _ hframe => List.mem_cons_of_mem _ hframe)
      fun leg hid howned => ?_
    obtain ⟨own, hown, hstarted, hnumber, -⟩ := howned
    rw [hid] at hown
    obtain rfl := Option.some.inj (hcall.symm.trans hown)
    obtain ⟨actions, later, hframe, haction⟩ := mem_endFrame hstarted hnumber wait
    refine .inr (.inr ⟨actions, later, ?_, ?_⟩)
    · rw [← hframe]
      exact List.mem_cons_self
    · rw [hid, ← h.numbered.named id call hcall]
      exact haction

theorem Sound.dispose (h : s.Sound) : s.dispose.Sound := by
  unfold Bridge.dispose
  split_ifs
  · exact h
  · refine ⟨h.numbered.fewer (fun id call hlookup => ?_) rfl fun accept haccept =>
      ⟨accept, haccept, rfl, rfl, rfl⟩, fun leg hleg => absurd hleg List.not_mem_nil⟩
    rw [AList.lookup_empty] at hlookup
    contradiction

/-! ## Sections that go on -/

theorem Sound.attempted (h : s.Sound) {key : TeardownKey} {pending : PendingTeardown} :
    (s.runTeardownAttempt key pending).Sound :=
  h.grow rfl rfl rfl rfl (fun _ hkey => (AList.mem_insert _).mpr (.inr hkey)) fun _ hframe => hframe

/-- A teardown that is over takes its legs off the ledger. -/
theorem Sound.attemptAnswered (h : s.Sound) (attempt : Attempt) (success : Bool) :
    (s.attemptAnswered attempt success).Sound := by
  unfold Bridge.attemptAnswered
  cases s.pendingTeardowns.lookup attempt.key with
  | none => exact h
  | some pending =>
    dsimp only
    by_cases hobject : pending.object ≠ attempt.object
    · rw [if_pos hobject]
      exact h
    rw [if_neg hobject]
    cases s.ends pending (success || attempt.handedOver) with
    | none => exact h.grow rfl rfl rfl rfl (fun _ hkey => (AList.mem_insert _).mpr (.inr hkey)) fun _ hframe => hframe
    | some reason =>
      refine ⟨h.numbered.same rfl rfl rfl, fun leg hleg => ?_⟩
      obtain ⟨hmem, hkey⟩ := List.mem_filter.mp hleg
      rcases h.held leg hmem with howned | hpend | hframe
      · exact .inl howned
      · exact .inr (.inl (AList.mem_erase.mpr ⟨of_decide_eq_true hkey, hpend⟩))
      · exact .inr (.inr hframe)

theorem current_eq_some {accept : Accept} {call : CallInfo} (h : s.current accept = some call) :
    s.activeCalls.lookup accept.inviteID = some call ∧ call.object = accept.object := by
  obtain ⟨hlookup, hobject⟩ := Option.filter_eq_some_iff.mp h
  exact ⟨hlookup, of_decide_eq_true hobject⟩

/-- A section for a call that has its number and friend goes on. -/
theorem Sound.accepting (h : s.Sound) (accept : Accept) (hcount : accept.object < s.calls)
    (hfriend : ∀ call, s.activeCalls.lookup accept.inviteID = some call → call.object = accept.object →
      call.friendNumber = some accept.friendNumber ∧ isValidFriendNumber call.friendNumber = true)
    (phase : AcceptPhase) :
    Sound { s with accepts := s.accepts ++ [{ accept with phase }] } := by
  refine ⟨⟨h.numbered.named, h.numbered.calls, fun other hother => ?_, fun other hother => ?_⟩, h.held⟩
  · rcases List.mem_append.mp hother with hold | hnew
    · exact h.numbered.accepts other hold
    · rw [List.mem_singleton.mp hnew]
      exact hcount
  · rcases List.mem_append.mp hother with hold | hnew
    · exact h.numbered.friends other hold
    · rw [List.mem_singleton.mp hnew]
      exact hfriend

/-- A section that has left its place, with what is known of its call. -/
theorem Sound.taken (h : s.Sound) {place : ℕ} {phase : AcceptPhase} {taken : Accept × Bridge}
    (htaken : s.takeAccept place phase = some taken) :
    taken.2.Sound ∧ taken.1.object < taken.2.calls ∧
      ∀ call, taken.2.activeCalls.lookup taken.1.inviteID = some call → call.object = taken.1.object →
        call.friendNumber = some taken.1.friendNumber ∧ isValidFriendNumber call.friendNumber = true := by
  obtain ⟨accept, haccept, rfl⟩ := Option.map_eq_some_iff.mp htaken
  have hmem : accept ∈ s.accepts := List.mem_of_getElem? (Option.filter_eq_some_iff.mp haccept).1
  refine ⟨⟨h.numbered.fewer (fun _ _ hlookup => hlookup) rfl fun other hother =>
    ⟨other, List.mem_of_mem_eraseIdx hother, rfl, rfl, rfl⟩, h.held⟩, h.numbered.accepts accept hmem,
    h.numbered.friends accept hmem⟩

theorem Sound.acceptAnswered (h : s.Sound) {accept : Accept} (hcount : accept.object < s.calls)
    (hfriend : ∀ call, s.activeCalls.lookup accept.inviteID = some call → call.object = accept.object →
      call.friendNumber = some accept.friendNumber ∧ isValidFriendNumber call.friendNumber = true)
    {code : ℤ} (hrefused : code ≠ 0 → ∀ call, s.current accept = some call → call.avLegStarted = false) :
    (s.acceptAnswered accept code).Sound := by
  unfold Bridge.acceptAnswered
  cases hcurrent : s.current accept with
  | none => exact h
  | some call =>
    dsimp only
    split_ifs with hcode
    · refine h.failAccept accept.inviteID fun _ leg => not_owned fun own hown => ?_
      obtain rfl := Option.some.inj ((current_eq_some hcurrent).1.symm.trans hown)
      exact hrefused hcode call hcurrent
    · exact h.accepting accept hcount hfriend .draining

theorem Sound.acceptDrained (h : s.Sound) {accept : Accept} (hcount : accept.object < s.calls)
    (hfriend : ∀ call, s.activeCalls.lookup accept.inviteID = some call → call.object = accept.object →
      call.friendNumber = some accept.friendNumber ∧ isValidFriendNumber call.friendNumber = true) :
    (s.acceptDrained accept).Sound := by
  unfold Bridge.acceptDrained
  cases s.current accept with
  | none => exact h
  | some call => exact h.accepting accept hcount hfriend .answering

theorem Sound.callAnswered (h : s.Sound) {accept : Accept}
    (hfriend : ∀ call, s.activeCalls.lookup accept.inviteID = some call → call.object = accept.object →
      call.friendNumber = some accept.friendNumber ∧ isValidFriendNumber call.friendNumber = true)
    (avResult : Bool) : (s.callAnswered accept avResult).Sound := by
  unfold Bridge.callAnswered
  cases hcurrent : s.current accept with
  | none =>
    cases avResult with
    | false => exact h
    | true => exact h.startLeg _ _
  | some call =>
    obtain ⟨hcall, hobject⟩ := current_eq_some hcurrent
    obtain ⟨hnumber, hvalid⟩ := hfriend call hcall hobject
    cases avResult with
    | false => exact h.failAccept accept.inviteID fun hpre => by contradiction
    | true =>
      refine h.update hcall { call with avLegStarted := true, state := .inCall } rfl rfl (fun _ => rfl)
        (fun _ => rfl) rfl rfl rfl rfl rfl fun leg hleg => ?_
      refine (List.mem_append.mp hleg).imp_right fun hnew => ?_
      rw [List.mem_singleton.mp hnew]
      refine .inl ⟨{ call with avLegStarted := true, state := .inCall }, ?_, rfl, hnumber, hvalid⟩
      exact AList.lookup_insert _

theorem Sound.acceptInvitation (h : s.Sound) (id : String) (numbers : String → ℤ) :
    (s.acceptInvitation id numbers).Sound := by
  rcases s.acceptInvitation_cases id numbers with heq | ⟨call, number, hcall, hsame, hrest⟩
  · rw [heq]
    exact h
  have hupdated : Sound { s with
      activeCalls := s.activeCalls.insert id { call with friendNumber := number } } :=
    h.update hcall { call with friendNumber := number } rfl rfl hsame (fun hon => hon) rfl rfl rfl rfl rfl
      fun _ hleg => .inl hleg
  rcases hrest with ⟨rfl, heq⟩ | ⟨n, rfl, hvalid, heq⟩ <;> rw [heq]
  · refine hupdated.failAccept id fun _ leg hid howned => ?_
    obtain ⟨own, hown, -, hnone, -⟩ := howned
    rw [hid, AList.lookup_insert] at hown
    obtain rfl := Option.some.inj hown
    contradiction
  · refine hupdated.accepting ⟨call.object, id, n, .accepting⟩ (h.numbered.calls id call hcall)
      (fun own hown _ => ?_) .accepting
    obtain rfl := Option.some.inj ((AList.lookup_insert _).symm.trans hown)
    exact ⟨rfl, hvalid⟩

theorem Sound.goOn {actions : List Action} {later : Option Action} {rest : List Frame} (h : s.Sound)
    (hstack : s.stack = .starts actions later :: rest) :
    (goOn { s with stack := rest } actions later).Sound := by
  obtain ⟨hcalls, hstack', hlegs, haccepts, hcount⟩ := startAll_frame actions { s with stack := rest }
  refine ⟨h.numbered.same hcalls hcount haccepts, fun leg hleg => ?_⟩
  have hmem : leg ∈ s.legs := by
    change leg ∈ (startAll { s with stack := rest } actions).legs at hleg
    rw [hlegs] at hleg
    exact hleg
  rcases h.held leg hmem with howned | hpend | ⟨acts, last, hframe, haction⟩
  · left
    change Owned (startAll { s with stack := rest } actions) leg
    rw [Owned, hcalls]
    exact howned
  · exact .inr (.inl ((mem_startAll actions _).mpr (.inr hpend)))
  · rw [hstack] at hframe
    rcases List.mem_cons.mp hframe with heq | hrest
    · obtain ⟨rfl, -⟩ := Frame.starts.inj heq
      exact .inr (.inl ((mem_startAll acts _).mpr (.inl ⟨_, haction, rfl⟩)))
    · refine .inr (.inr ⟨acts, last, ?_, haction⟩)
      change _ ∈ (startAll { s with stack := rest } actions).stack
      rw [hstack']
      exact hrest

/-- A question leaves the stack. -/
theorem Sound.unasked {call : CallInfo} {rest : List Frame} (h : s.Sound) (hstack : s.stack = .asked call :: rest) :
    Sound { s with stack := rest } := by
  refine ⟨h.numbered.same rfl rfl rfl, fun leg hleg => ?_⟩
  rcases h.held leg hleg with howned | hpend | ⟨actions, later, hframe, haction⟩
  · exact .inl howned
  · exact .inr (.inl hpend)
  · rw [hstack] at hframe
    rcases List.mem_cons.mp hframe with heq | hrest
    · contradiction
    · exact .inr (.inr ⟨actions, later, hrest, haction⟩)

theorem Sound.answered (h : s.Sound) {call : CallInfo} {busy : Bool} (now : ℤ)
    (hfree : busy = false → call.inviteID ∉ s.activeCalls) : (s.answered call busy now).Sound := by
  unfold Bridge.answered
  cases busy with
  | true => exact h.rejectAsBusy call now
  | false =>
    rw [if_neg (by decide)]
    unfold heard
    split_ifs
    · exact h
    · exact h.insert (hfree rfl) { call with object := s.calls } rfl rfl rfl rfl rfl rfl rfl rfl

end Bridge

/-! ## Runs -/

/-- The invitation that the callback is asked about. -/
def Frame.call : Frame → Option CallInfo
  | .asked call => some call
  | .starts _ _ => none

/-- Ids are not used twice while their call is active, the number given for a leg is that of the call,
    and neither `rejectInvitation` nor an accept that is refused meets a call whose leg has started;
    callbacks of the embedder return. -/
def Orderly (s : Bridge) : Event → Prop
  | .op (.register inviteID _ _ _ _ _) => inviteID ∉ s.activeCalls
  | .op (.markStarted inviteID number _) => (s.activeCalls.lookup inviteID).all fun call =>
    isValidFriendNumber call.friendNumber → number = none ∨ number = call.friendNumber
  | .op (.reject inviteID) => (s.activeCalls.lookup inviteID).all fun call => call.avLegStarted = false
  | .answer busy _ => busy = true ∨ (s.stack.head?.bind Frame.call).all fun call => call.inviteID ∉ s.activeCalls
  | .threw => (s.stack.head?.bind Frame.call).isSome
  | .outer (.acceptAnswered place code) => (s.accepts[place]?.bind s.current).all fun call =>
    code.getD 0 = 0 ∨ call.avLegStarted = false
  | _ => True

instance (s : Bridge) : ∀ e, Decidable (Orderly s e)
  | .op (.register _ _ _ _ _ _) => inferInstanceAs (Decidable (¬ _))
  | .op (.markStarted _ _ _) => inferInstanceAs (Decidable (_ = true))
  | .op (.reject _) => inferInstanceAs (Decidable (_ = true))
  | .op (.endLeg _ _) | .op (.accept _ _) | .op (.rejectBusy _ _) | .op (.endCall _ _) | .op .dispose =>
    .isTrue trivial
  | .answer _ _ => inferInstanceAs (Decidable (_ ∨ _))
  | .back => .isTrue trivial
  | .threw => inferInstanceAs (Decidable (_ = true))
  | .outer (.acceptAnswered _ _) => inferInstanceAs (Decidable (_ = true))
  | .outer (.invitation _ _ _ _ _ _ _) | .outer (.cancelled _) | .outer (.accepted _) | .outer (.rejected _ _)
  | .outer (.timedOut _) | .outer (.acceptDrains _) | .outer (.acceptResumes _) | .outer (.callAnswered _ _)
  | .outer (.rejectAnswered _ _) | .outer (.attemptAnswered _ _) | .outer (.timerFires _)
  | .outer (.waitEnds _) => .isTrue trivial

namespace Bridge

variable {s u : Bridge} {leg : String × ℤ}

theorem Sound.run (h : s.Sound) {op : Op} (horderly : Orderly s (.op op)) : (s.run op).Sound := by
  cases op with
  | register inviteID inviter invitee data friendNumber groupID => exact h.register horderly _ _ _ _ _
  | markStarted inviteID number teardownIfMissing =>
    refine h.markAvLegStarted (fun call hcall hvalid => ?_) teardownIfMissing
    exact of_decide_eq_true ((Option.all_eq_true _ _).mp horderly call hcall) hvalid
  | endLeg inviteID number => exact h.startLeg inviteID number
  | accept inviteID numbers => exact h.acceptInvitation inviteID numbers
  | reject inviteID =>
    exact h.rejectInvitation fun call hcall =>
      of_decide_eq_true ((Option.all_eq_true _ _).mp horderly call hcall)
  | rejectBusy inviteID now => exact h.rejectInvitationAsBusy inviteID now
  | endCall inviteID wait => exact h.endCall inviteID wait
  | dispose => exact h.dispose

theorem Sound.heard (h : s.Sound) (hu : u.Sound) : (s.heard u).Sound := by
  unfold Bridge.heard
  split_ifs
  · exact h
  · exact hu

theorem Sound.outside (h : s.Sound) {outer : Outer} (horderly : Orderly s (.outer outer))
    (he : s.outside outer = some u) : u.Sound := by
  cases outer with
  | invitation inviteID inviter groupID inviteeList data numbers now =>
    exact Option.some.inj he ▸ h.heard (h.onReceiveNewInvitation _ _ _ _ _ _ _)
  | cancelled inviteID => exact Option.some.inj he ▸ h.heard (h.finish _ _)
  | accepted inviteID => exact Option.some.inj he ▸ h.heard (h.onInviteeAccepted _)
  | rejected inviteID lineBusy => exact Option.some.inj he ▸ h.heard (h.finish _ _)
  | timedOut inviteID => exact Option.some.inj he ▸ h.heard (h.finish _ _)
  | acceptAnswered place code =>
    obtain ⟨taken, htaken, rfl⟩ := Option.map_eq_some_iff.mp he
    obtain ⟨hsound, hcount, hfriend⟩ := h.taken htaken
    cases code with
    | none => exact hsound
    | some code =>
      refine hsound.acceptAnswered hcount hfriend fun hcode call hcall => ?_
      obtain ⟨accept, haccept, rfl⟩ := Option.map_eq_some_iff.mp htaken
      have hnow : s.accepts[place]?.bind s.current = some call := by
        rw [(Option.filter_eq_some_iff.mp haccept).1]
        exact hcall
      exact (of_decide_eq_true ((Option.all_eq_true _ _).mp horderly call hnow)).resolve_left hcode
  | acceptDrains place =>
    obtain ⟨taken, htaken, rfl⟩ := Option.map_eq_some_iff.mp he
    obtain ⟨hsound, hcount, hfriend⟩ := h.taken (Option.filter_eq_some_iff.mp htaken).1
    exact hsound.accepting taken.1 hcount hfriend .drained
  | acceptResumes place =>
    obtain ⟨taken, htaken, rfl⟩ := Option.map_eq_some_iff.mp he
    obtain ⟨hsound, hcount, hfriend⟩ := h.taken htaken
    exact hsound.acceptDrained hcount hfriend
  | callAnswered place avResult =>
    obtain ⟨taken, htaken, rfl⟩ := Option.map_eq_some_iff.mp he
    obtain ⟨hsound, hcount, hfriend⟩ := h.taken htaken
    cases avResult with
    | none => exact hsound
    | some avResult => exact hsound.callAnswered hfriend avResult
  | rejectAnswered place code =>
    obtain ⟨inviteID, -, rfl⟩ := Option.map_eq_some_iff.mp he
    cases code with
    | none => exact h.grow rfl rfl rfl rfl (fun _ hkey => hkey) fun _ hframe => hframe
    | some code =>
      change (Bridge.rejectAnswered _ inviteID code).Sound
      unfold Bridge.rejectAnswered
      split_ifs
      all_goals exact h.grow rfl rfl rfl rfl (fun _ hkey => hkey) fun _ hframe => hframe
  | attemptAnswered place success =>
    obtain ⟨attempt, -, rfl⟩ := Option.map_eq_some_iff.mp he
    have htaken : Sound { s with attempts := s.attempts.eraseIdx place } :=
      h.grow rfl rfl rfl rfl (fun _ hkey => hkey) fun _ hframe => hframe
    exact htaken.attemptAnswered attempt success
  | timerFires key =>
    obtain ⟨pending, -, rfl⟩ := Option.map_eq_some_iff.mp he
    exact h.attempted
  | waitEnds place =>
    obtain ⟨waiting, -, rfl⟩ := Option.map_eq_some_iff.mp he
    have htaken : Sound { s with waits := s.waits.eraseIdx place } :=
      h.grow rfl rfl rfl rfl (fun _ hkey => hkey) fun _ hframe => hframe
    exact htaken.start waiting.action

/-! ## One step -/

theorem step_answer {busy : Bool} {now : ℤ} (he : s.step (.answer busy now) = some u) :
    ∃ call rest, s.stack = .asked call :: rest ∧ u = answered { s with stack := rest } call busy now := by
  simp only [Bridge.step] at he
  split at he
  · rename_i call rest hstack
    exact ⟨call, rest, hstack, (Option.some.inj he).symm⟩
  · contradiction

theorem step_back (he : s.step .back = some u) :
    ∃ actions later rest, s.stack = .starts actions later :: rest ∧
      u = goOn { s with stack := rest } actions later := by
  simp only [Bridge.step] at he
  split at he
  · rename_i actions later rest hstack
    exact ⟨actions, later, rest, hstack, (Option.some.inj he).symm⟩
  · contradiction

theorem step_threw (he : s.step .threw = some u) :
    ∃ frame rest, s.stack = frame :: rest ∧ u = { s with stack := rest } := by
  change (if s.stack = [] then none else some { s with stack := s.stack.tail }) = some u at he
  split_ifs at he with hempty
  obtain ⟨frame, rest, hstack⟩ := List.exists_cons_of_ne_nil hempty
  refine ⟨frame, rest, hstack, ?_⟩
  rw [← Option.some.inj he, hstack]
  rfl

theorem step_outer {outer : Outer} (he : s.step (.outer outer) = some u) :
    s.stack = [] ∧ s.outside outer = some u := by
  change (if s.stack = [] then s.outside outer else none) = some u at he
  split_ifs at he with hempty
  exact ⟨hempty, he⟩

theorem Sound.step (h : s.Sound) {e : Event} (horderly : Orderly s e) (he : s.step e = some u) : u.Sound := by
  cases e with
  | op op => exact Option.some.inj he ▸ h.run horderly
  | answer busy now =>
    obtain ⟨call, rest, hstack, rfl⟩ := step_answer he
    refine (h.unasked hstack).answered now fun hbusy => ?_
    have hfree := horderly.resolve_left (by rw [hbusy]; decide)
    rw [hstack] at hfree
    exact of_decide_eq_true hfree
  | back =>
    obtain ⟨actions, later, rest, hstack, rfl⟩ := step_back he
    exact h.goOn hstack
  | threw =>
    obtain ⟨frame, rest, hstack, rfl⟩ := step_threw he
    cases frame with
    | asked call => exact h.unasked hstack
    | starts actions later =>
      change (s.stack.head?.bind Frame.call).isSome = true at horderly
      rw [hstack] at horderly
      contradiction
  | outer outer => exact h.outside horderly (step_outer he).2

/-! ## The ledger -/

theorem finish_legs (s : Bridge) (id : String) (reason : CallInfo → EndReason) :
    (s.finish id reason).legs = s.legs := by
  unfold Bridge.finish
  cases s.activeCalls.lookup id with
  | none => rfl
  | some call => exact (s.endIfStarted_frame call).2.2.2.1

theorem rejectInvitationAsBusy_legs (s : Bridge) (id : String) (now : ℤ) :
    (s.rejectInvitationAsBusy id now).legs = s.legs := by
  unfold Bridge.rejectInvitationAsBusy
  cases s.activeCalls.lookup id with
  | none => rfl
  | some call =>
    dsimp only
    split_ifs
    · rfl
    · exact (endIfStarted_frame { s with activeCalls := s.activeCalls.erase id } call).2.2.2.1
    · rfl

theorem acceptInvitation_legs (s : Bridge) (id : String) (numbers : String → ℤ) :
    (s.acceptInvitation id numbers).legs = s.legs := by
  rcases s.acceptInvitation_cases id numbers with heq | ⟨call, number, -, -, ⟨-, heq⟩ | ⟨n, -, -, heq⟩⟩ <;>
    rw [heq]
  rfl

/-- What the embedder calls keeps the ledger, but for the disposal. -/
theorem run_legs {op : Op} (hdispose : op ≠ .dispose) (hleg : leg ∈ s.legs) : leg ∈ (s.run op).legs := by
  cases op with
  | register inviteID inviter invitee data friendNumber groupID =>
    change leg ∈ (s.registerOutgoingCall _ _ _ _ _ _).legs
    unfold registerOutgoingCall
    split_ifs <;> exact hleg
  | markStarted inviteID number teardownIfMissing =>
    change leg ∈ (s.markAvLegStarted _ _ _).legs
    rcases s.markAvLegStarted_cases inviteID number teardownIfMissing with
      ⟨-, heq⟩ | ⟨n, -, heq⟩ | ⟨call, -, -, heq⟩ <;> rw [heq]
    · exact hleg
    · exact List.mem_append_left _ hleg
    · exact List.mem_append_left _ hleg
  | endLeg inviteID number => exact List.mem_append_left _ hleg
  | accept inviteID numbers =>
    change leg ∈ (s.acceptInvitation _ _).legs
    rw [acceptInvitation_legs]
    exact hleg
  | reject inviteID =>
    change leg ∈ (s.rejectInvitation _).legs
    unfold Bridge.rejectInvitation
    split_ifs <;> exact hleg
  | rejectBusy inviteID now =>
    change leg ∈ (s.rejectInvitationAsBusy _ _).legs
    rw [rejectInvitationAsBusy_legs]
    exact hleg
  | endCall inviteID wait =>
    change leg ∈ (s.endCall _ _).legs
    unfold Bridge.endCall
    cases s.activeCalls.lookup inviteID <;> exact hleg
  | dispose => exact absurd rfl hdispose

/-- The leg comes off the ledger: its teardown has succeeded, has found another call that has the
    friend's leg, or has failed for the last time; or the bridge is disposed. -/
def Released (s : Bridge) (e : Event) (leg : String × ℤ) : Prop :=
  e = .op .dispose ∨ ∃ place success attempt pending, e = .outer (.attemptAnswered place success) ∧
    s.attempts[place]? = some attempt ∧ attempt.key = .avEnd leg.1 leg.2 ∧
    s.pendingTeardowns.lookup attempt.key = some pending ∧ pending.object = attempt.object ∧
    (success = true ∨ attempt.handedOver = true ∨ maxTeardownAttempts ≤ pending.attempts ∨ s.disposed = true)

theorem ends_some {pending : PendingTeardown} {success : Bool} {reason : End}
    (h : s.ends pending success = some reason) :
    success = true ∨ maxTeardownAttempts ≤ pending.attempts ∨ s.disposed = true := by
  unfold Bridge.ends at h
  split_ifs at h with hsuccess hspent hdisposed
  · exact .inl hsuccess
  · exact .inr (.inl hspent)
  · exact .inr (.inr hdisposed)

theorem attemptAnswered_legs (hleg : leg ∈ s.legs) (attempt : Attempt) (success : Bool) :
    leg ∈ (s.attemptAnswered attempt success).legs ∨
      attempt.key = .avEnd leg.1 leg.2 ∧ ∃ pending, s.pendingTeardowns.lookup attempt.key = some pending ∧
        pending.object = attempt.object ∧
        (success = true ∨ attempt.handedOver = true ∨ maxTeardownAttempts ≤ pending.attempts ∨
          s.disposed = true) := by
  unfold Bridge.attemptAnswered
  cases hpending : s.pendingTeardowns.lookup attempt.key with
  | none => exact .inl hleg
  | some pending =>
    dsimp only
    by_cases hobject : pending.object ≠ attempt.object
    · rw [if_pos hobject]
      exact .inl hleg
    rw [if_neg hobject]
    cases hends : s.ends pending (success || attempt.handedOver) with
    | none => exact .inl hleg
    | some reason =>
      by_cases hkey : TeardownKey.avEnd leg.1 leg.2 = attempt.key
      · refine .inr ⟨hkey.symm, pending, rfl, not_not.mp hobject, ?_⟩
        rcases ends_some hends with hsuccess | hrest
        · exact (Bool.or_eq_true_iff.mp hsuccess).imp_right .inl
        · exact .inr (.inr hrest)
      · exact .inl (List.mem_filter.mpr ⟨hleg, decide_eq_true hkey⟩)

theorem outside_legs {outer : Outer} (he : s.outside outer = some u) (hleg : leg ∈ s.legs) :
    leg ∈ u.legs ∨ s.Released (.outer outer) leg := by
  have hheard : ∀ {v : Bridge}, v.legs = s.legs → leg ∈ (s.heard v).legs := by
    intro v hv
    unfold heard
    split_ifs
    · exact hleg
    · rw [hv]
      exact hleg
  cases outer with
  | invitation inviteID inviter groupID inviteeList data numbers now =>
    refine .inl (Option.some.inj he ▸ hheard ?_)
    unfold Bridge.onReceiveNewInvitation
    dsimp only
    split_ifs <;> rfl
  | cancelled inviteID => exact .inl (Option.some.inj he ▸ hheard (finish_legs _ _ _))
  | accepted inviteID =>
    refine .inl (Option.some.inj he ▸ hheard ?_)
    unfold Bridge.onInviteeAccepted
    cases s.activeCalls.lookup inviteID with
    | none => rfl
    | some call =>
      dsimp only
      split_ifs <;> rfl
  | rejected inviteID lineBusy => exact .inl (Option.some.inj he ▸ hheard (finish_legs _ _ _))
  | timedOut inviteID => exact .inl (Option.some.inj he ▸ hheard (finish_legs _ _ _))
  | acceptAnswered place code =>
    obtain ⟨taken, htaken, rfl⟩ := Option.map_eq_some_iff.mp he
    obtain ⟨accept, -, rfl⟩ := Option.map_eq_some_iff.mp htaken
    left
    cases code with
    | none => exact hleg
    | some code =>
      change leg ∈ (Bridge.acceptAnswered _ accept code).legs
      unfold Bridge.acceptAnswered
      split
      · exact hleg
      · split_ifs <;> exact hleg
  | acceptDrains place =>
    obtain ⟨taken, htaken, rfl⟩ := Option.map_eq_some_iff.mp he
    obtain ⟨accept, -, rfl⟩ := Option.map_eq_some_iff.mp (Option.filter_eq_some_iff.mp htaken).1
    exact .inl hleg
  | acceptResumes place =>
    obtain ⟨taken, htaken, rfl⟩ := Option.map_eq_some_iff.mp he
    obtain ⟨accept, -, rfl⟩ := Option.map_eq_some_iff.mp htaken
    left
    unfold Bridge.acceptDrained
    split <;> exact hleg
  | callAnswered place avResult =>
    obtain ⟨taken, htaken, rfl⟩ := Option.map_eq_some_iff.mp he
    obtain ⟨accept, -, rfl⟩ := Option.map_eq_some_iff.mp htaken
    left
    cases avResult with
    | none => exact hleg
    | some avResult =>
      change leg ∈ (Bridge.callAnswered _ accept avResult).legs
      unfold Bridge.callAnswered
      split
      · split_ifs
        · exact List.mem_append_left _ hleg
        · exact hleg
      · split_ifs
        · exact List.mem_append_left _ hleg
        · exact hleg
  | rejectAnswered place code =>
    obtain ⟨inviteID, -, rfl⟩ := Option.map_eq_some_iff.mp he
    left
    cases code with
    | none => exact hleg
    | some code =>
      change leg ∈ (Bridge.rejectAnswered _ inviteID code).legs
      unfold Bridge.rejectAnswered
      split_ifs <;> exact hleg
  | attemptAnswered place success =>
    obtain ⟨attempt, hattempt, rfl⟩ := Option.map_eq_some_iff.mp he
    have htaken : leg ∈ ({ s with attempts := s.attempts.eraseIdx place } : Bridge).legs := hleg
    refine (attemptAnswered_legs htaken attempt success).imp_right fun hover => ?_
    obtain ⟨hkey, pending, hpending, hobject, hwhy⟩ := hover
    exact .inr ⟨place, success, attempt, pending, rfl, hattempt, hkey, hpending, hobject, hwhy⟩
  | timerFires key =>
    obtain ⟨pending, -, rfl⟩ := Option.map_eq_some_iff.mp he
    exact .inl hleg
  | waitEnds place =>
    obtain ⟨waiting, -, rfl⟩ := Option.map_eq_some_iff.mp he
    exact .inl hleg

theorem step_legs {e : Event} (he : s.step e = some u) (hleg : leg ∈ s.legs) :
    leg ∈ u.legs ∨ s.Released e leg := by
  cases e with
  | op op =>
    obtain rfl := Option.some.inj he
    by_cases hdispose : op = .dispose
    · exact .inr (.inl (congrArg Event.op hdispose))
    · exact .inl (run_legs hdispose hleg)
  | answer busy now =>
    obtain ⟨call, rest, -, rfl⟩ := step_answer he
    left
    unfold Bridge.answered
    split_ifs
    · exact hleg
    · unfold heard
      split_ifs <;> exact hleg
  | back =>
    obtain ⟨actions, later, rest, -, rfl⟩ := step_back he
    left
    change leg ∈ (startAll { s with stack := rest } actions).legs
    rw [(startAll_frame actions _).2.2.1]
    exact hleg
  | threw =>
    obtain ⟨frame, rest, -, rfl⟩ := step_threw he
    exact .inl hleg
  | outer outer => exact outside_legs (step_outer he).2 hleg

/-- A media leg starts: the media service has answered the call, or the embedder has started it. -/
def LegStarts (s : Bridge) (e : Event) (leg : String × ℤ) : Prop :=
  (∃ place accept, e = .outer (.callAnswered place (some true)) ∧ s.accepts[place]? = some accept ∧
    leg = (accept.inviteID, accept.friendNumber)) ∨
  (e = .op (.markStarted leg.1 (some leg.2) true) ∧ isValidFriendNumber (some leg.2) = true) ∨
  e = .op (.endLeg leg.1 leg.2)

theorem legStarts_legs {e : Event} (he : s.step e = some u) (hstarts : s.LegStarts e leg) : leg ∈ u.legs := by
  rcases hstarts with ⟨place, accept, rfl, haccept, rfl⟩ | ⟨rfl, hvalid⟩ | rfl
  · obtain ⟨taken, htaken, rfl⟩ := Option.map_eq_some_iff.mp (step_outer he).2
    obtain ⟨own, hown, rfl⟩ := Option.map_eq_some_iff.mp htaken
    obtain rfl := Option.some.inj (haccept.symm.trans (Option.filter_eq_some_iff.mp hown).1)
    change _ ∈ (Bridge.callAnswered _ accept true).legs
    unfold Bridge.callAnswered
    split <;> exact List.mem_append_right _ (List.mem_singleton_self _)
  · obtain rfl := Option.some.inj he
    change leg ∈ (s.markAvLegStarted leg.1 (some leg.2) true).legs
    rcases s.markAvLegStarted_cases leg.1 (some leg.2) true with
      ⟨hnot, -⟩ | ⟨n, hn, heq⟩ | ⟨call, -, -, heq⟩
    · rcases hnot with hnot | hnot <;> contradiction
    · rw [heq, ← Option.some.inj hn]
      exact List.mem_append_right _ (List.mem_singleton_self _)
    · rw [heq]
      refine List.mem_append_right _ ?_
      change leg ∈ if isValidFriendNumber (some leg.2) = true then [(leg.1, leg.2)] else []
      rw [if_pos hvalid]
      exact List.mem_singleton_self _
  · obtain rfl := Option.some.inj he
    exact List.mem_append_right _ (List.mem_singleton_self _)

theorem Sound.fresh : Sound {} :=
  ⟨⟨fun _ _ hlookup => by contradiction, fun _ _ hlookup => by contradiction,
    fun _ haccept => absurd haccept List.not_mem_nil, fun _ haccept => absurd haccept List.not_mem_nil⟩,
    fun _ hleg => absurd hleg List.not_mem_nil⟩

end Bridge

/-- An invitation is accepted and answered, and then cancelled; ending the leg fails once. -/
def acceptedThenCancelled : List Event :=
  [.outer (.invitation "call" "bob" "" ["self"] "" (fun _ => 3) 0), .answer false 0, .op (.accept "call" fun _ => 3),
    .outer (.acceptAnswered 0 (some 0)), .outer (.acceptDrains 0), .outer (.acceptResumes 0),
    .outer (.callAnswered 0 (some true)), .outer (.cancelled "call"), .outer (.attemptAnswered 0 false)]

end Tim2Tox.CallBridge
