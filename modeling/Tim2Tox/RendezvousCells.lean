import Tim2Tox.RendezvousEvents

set_option autoImplicit false

/-!
# What the cell functions can do

One statement a function: every outcome it has, with the guard of each. Data
no result depends on (budgets, retry counters) is existentially quantified.
-/
namespace Tim2Tox.RendezvousGroups
open RendezvousCodec

theorem enterBackoff_eq (now : Ms) (c : Cell) : ∃ start retries, Cell.enterBackoff now c =
    { c with
      retryWindowStartMs := start, retries, selfJoined := false, announced := false
      founded := false, hadPeers := false, peers := ∅, packetBudget := ∅
      state := if retries > kMaxRetriesPerWindow then .unavailable else .backoff
      stateSinceMs := now } := by
  unfold Cell.enterBackoff
  split_ifs with hw
  · exact ⟨now, 1, rfl⟩
  · exact ⟨c.retryWindowStartMs, c.retries + 1, rfl⟩

/-- The two states a cell waits in before it is joined again. -/
def State.waits : State → Bool
  | .backoff | .unavailable => true
  | _ => false

theorem enterBackoff_waits (now : Ms) (c : Cell) : (Cell.enterBackoff now c).state.waits := by
  obtain ⟨start, retries, h⟩ := enterBackoff_eq now c
  rw [h]
  change State.waits (if retries > kMaxRetriesPerWindow then .unavailable else .backoff) = true
  split_ifs <;> rfl

theorem ne_retiring_of_waits {st : State} (h : st.waits = true) : st ≠ .retiring := by
  rintro rfl
  cases h

@[simp] theorem enterBackoff_pendingLeave (now : Ms) (c : Cell) :
    (Cell.enterBackoff now c).pendingLeave = c.pendingLeave := by
  obtain ⟨start, retries, h⟩ := enterBackoff_eq now c
  rw [h]

/-- Nothing is owed for the cell. -/
def Cell.idle (c : Cell) : Bool := !(c.pendingLeave || c.pendingJoin || c.pendingFound)

theorem idle_iff (c : Cell) : c.idle = true ↔
    c.pendingLeave = false ∧ c.pendingJoin = false ∧ c.pendingFound = false := by
  simp [Cell.idle, and_assoc]

theorem timers_cases (now : Ms) (c : Cell) :
    c.timers now = c ∨
    (c.idle ∧ c.state = .joining ∧ c.groupNumber ≠ noGroup ∧ c.selfJoined = false ∧
      c.peers.isEmpty ∧ c.timers now =
        { c with pendingLeave := true, leaveReason := .refound, stateSinceMs := now }) ∨
    (c.idle ∧ c.state = .joined ∧ c.hadPeers ∧ c.peers.isEmpty ∧
      now - c.emptySinceMs ≥ kStaleMs ∧ c.timers now =
        Cell.enterBackoff now { c with pendingLeave := true, leaveReason := .stale }) ∨
    (c.idle ∧ c.state.waits ∧ ∃ retries start, c.timers now =
      { c with retries, retryWindowStartMs := start, pendingJoin := true }) := by
  unfold Cell.timers
  by_cases hp : (c.pendingLeave || c.pendingJoin || c.pendingFound) = true
  · rw [if_pos hp]
    exact .inl rfl
  have hidle : c.idle = true := by simpa [Cell.idle] using hp
  rw [if_neg hp]
  cases hs : c.state with
  | joining =>
    dsimp only
    split_ifs with h
    · exact .inr (.inl ⟨hidle, rfl, h.1, by simpa using h.2.1, h.2.2.1, rfl⟩)
    · exact .inl rfl
  | joined =>
    dsimp only
    split_ifs with h
    · exact .inr (.inr (.inl ⟨hidle, rfl, h.1, h.2.1, h.2.2, rfl⟩))
    · exact .inl rfl
  | backoff =>
    dsimp only
    split_ifs with h
    · exact .inr (.inr (.inr ⟨hidle, rfl, c.retries, c.retryWindowStartMs, rfl⟩))
    · exact .inl rfl
  | unavailable =>
    dsimp only
    split_ifs with h
    · exact .inr (.inr (.inr ⟨hidle, rfl, 0, now, rfl⟩))
    · exact .inl rfl
  | retiring => exact .inl rfl

theorem timers_state (now : Ms) {c : Cell} (h : c.state ≠ .retiring) :
    (c.timers now).state ≠ .retiring := by
  obtain he | ⟨-, -, -, -, -, he⟩ | ⟨-, -, -, -, -, he⟩ | ⟨-, -, n, w, he⟩ := timers_cases now c <;>
    rw [he]
  · exact h
  · exact h
  · exact ne_retiring_of_waits (enterBackoff_waits now _)
  · exact h

theorem emit_cases (accepting : Bool) (generation : ℕ) (blocked : Bool) (now : Ms) (c : Cell) :
    c.emit accepting generation blocked now = (c, none) ∨
    (c.pendingLeave = true ∧ c.emit accepting generation blocked now =
      ({ c with leaveNotBeforeMs := 0, pendingLeave := false }, some (c.leaveAction generation))) ∨
    (c.pendingLeave = false ∧ accepting = true ∧ blocked = false ∧
      (c.pendingJoin = true ∨ c.pendingFound = true) ∧
      c.emit accepting generation blocked now =
        ({ c with
            state := if c.pendingJoin then .joining else c.state
            pendingJoin := false, pendingFound := false, stateSinceMs := now },
          some (c.startAction generation))) := by
  unfold Cell.emit
  by_cases hl : c.pendingLeave = true
  · rw [if_pos hl]
    by_cases hn : now < c.leaveNotBeforeMs
    · exact .inl (if_pos hn)
    · exact .inr (.inl ⟨hl, if_neg hn⟩)
  · rw [if_neg hl]
    by_cases hb : (!accepting || blocked) = true
    · exact .inl (if_pos hb)
    · rw [if_neg hb]
      simp only [Bool.or_eq_true, Bool.not_eq_true', not_or, Bool.not_eq_false,
        Bool.not_eq_true] at hb hl
      by_cases hp : (c.pendingJoin || c.pendingFound) = true
      · exact .inr (.inr ⟨hl, hb.1, hb.2, by simpa using hp, if_pos hp⟩)
      · exact .inl (if_neg hp)

theorem requestLeave_cases (now : Ms) (c : Cell) :
    (c.state = .retiring ∧ c.requestLeave now = some { c with
      pendingJoin := false, pendingFound := false, leaveForgets := true
      rejoinAfterRetire := false }) ∨
    (c.state ≠ .retiring ∧ c.groupNumber = noGroup ∧ c.requestLeave now = none) ∨
    (c.state ≠ .retiring ∧ c.groupNumber ≠ noGroup ∧ c.requestLeave now = some { c with
      pendingJoin := false, pendingFound := false, leaveForgets := true
      rejoinAfterRetire := false, leaveReason := .left, leaveNotBeforeMs := 0
      stateSinceMs := now, pendingLeave := true }) := by
  unfold Cell.requestLeave
  by_cases hr : c.state = .retiring
  · exact .inl ⟨hr, by simp [hr]⟩
  · by_cases hg : c.groupNumber = noGroup
    · exact .inr (.inl ⟨hr, hg, by simp [hr, hg]⟩)
    · exact .inr (.inr ⟨hr, hg, by simp [hr, hg]⟩)

/-- The found path differs from the join path in what it records. -/
theorem joinIssued_cases (n : GroupNumber) (ok : Bool) (now : Ms) (c : Cell) :
    (n ≠ noGroup ∧ c.joinIssued n ok now =
      { c with
        groupNumber := n, state := .joining, stateSinceMs := now
        founded := false, announced := false, selfJoined := false }) ∨
    c.joinIssued n ok now = Cell.enterBackoff now { c with groupNumber := noGroup } := by
  unfold Cell.joinIssued
  split_ifs with h
  · simp only [Bool.and_eq_true, decide_eq_true_eq] at h
    exact .inl ⟨h.2, rfl⟩
  · exact .inr rfl

theorem foundIssued_cases (n : GroupNumber) (ok : Bool) (now : Ms) (c : Cell) :
    (n ≠ noGroup ∧ c.foundIssued n ok now =
      { c with
        groupNumber := n, state := .joined, stateSinceMs := now
        founded := true, selfJoined := true, announced := true }) ∨
    c.foundIssued n ok now = Cell.enterBackoff now { c with groupNumber := noGroup } := by
  unfold Cell.foundIssued
  split_ifs with h
  · simp only [Bool.and_eq_true, decide_eq_true_eq] at h
    exact .inl ⟨h.2, rfl⟩
  · exact .inr rfl

theorem finishRetire_cases (nextAttempt : ℕ) (now : Ms) (c : Cell) :
    (c.rejoinAfterRetire = true ∧ c.finishRetire nextAttempt now = some { c with
      groupNumber := noGroup, retireReason := .unset
      rejoinAfterRetire := false, leaveForgets := false, state := .joining, pendingJoin := true
      attempt := nextAttempt, retries := 0, retryWindowStartMs := now, stateSinceMs := now }) ∨
    (c.rejoinAfterRetire = false ∧ (c.leaveForgets = true ∨ c.retireReason = .left) ∧
      c.finishRetire nextAttempt now = none) ∨
    (c.rejoinAfterRetire = false ∧ c.leaveForgets = false ∧ c.retireReason = .refound ∧
      c.finishRetire nextAttempt now = some { c with
        groupNumber := noGroup, retireReason := .unset
        state := .joining, pendingFound := true, attempt := nextAttempt, stateSinceMs := now }) ∨
    (c.rejoinAfterRetire = false ∧ c.leaveForgets = false ∧ c.retireReason ≠ .left ∧
      c.retireReason ≠ .refound ∧ c.stateBeforeRetire.waits ∧
      c.finishRetire nextAttempt now = some { c with
        groupNumber := noGroup, retireReason := .unset
        state := c.stateBeforeRetire, stateSinceMs := now }) ∨
    (c.rejoinAfterRetire = false ∧ c.leaveForgets = false ∧ c.retireReason ≠ .left ∧
      c.retireReason ≠ .refound ∧ c.finishRetire nextAttempt now =
        some (Cell.enterBackoff now
          { c with groupNumber := noGroup, retireReason := .unset })) := by
  unfold Cell.finishRetire
  dsimp only
  split_ifs with hj hf hr hb
  · exact .inl ⟨hj, rfl⟩
  · simp only [Bool.or_eq_true, decide_eq_true_eq] at hf
    exact .inr (.inl ⟨by simpa using hj, hf, rfl⟩)
  · simp only [Bool.or_eq_true, decide_eq_true_eq, not_or, Bool.not_eq_true] at hf hj
    exact .inr (.inr (.inl ⟨hj, hf.1, hr, rfl⟩))
  · simp only [Bool.or_eq_true, decide_eq_true_eq, not_or, Bool.not_eq_true] at hf hj
    have hw : c.stateBeforeRetire.waits = true := by
      rcases hb with hb | hb <;> rw [hb] <;> rfl
    exact .inr (.inr (.inr (.inl ⟨hj, hf.1, hf.2, hr, hw, rfl⟩)))
  · simp only [Bool.or_eq_true, decide_eq_true_eq, not_or, Bool.not_eq_true] at hf hj
    exact .inr (.inr (.inr (.inr ⟨hj, hf.1, hf.2, hr, rfl⟩)))

theorem finishRetire_state {nextAttempt : ℕ} {now : Ms} {c c' : Cell}
    (h : c.finishRetire nextAttempt now = some c') : c'.state ≠ .retiring := by
  obtain ⟨-, he⟩ | ⟨-, -, he⟩ | ⟨-, -, -, he⟩ | ⟨-, -, -, -, hw, he⟩ | ⟨-, -, -, -, he⟩ :=
    finishRetire_cases nextAttempt now c <;> rw [he] at h <;> cases h
  · simp
  · simp
  · exact ne_retiring_of_waits hw
  · exact ne_retiring_of_waits (enterBackoff_waits now _)

/-! ## Callbacks -/

theorem peerEvent_eq (pk : PeerPkHex) (entered : Bool) (now : Ms) (c : Cell) :
    ∃ eventBudget coalescing, (c.peerEvent pk entered now).1 =
      { c with eventBudget, coalescing } := by
  unfold Cell.peerEvent
  dsimp only
  split_ifs <;> exact ⟨_, _, rfl⟩

theorem peerJoin_cases (peer : PeerId) (pk : PeerPkHex) (now : Ms) (c : Cell) :
    (pk = "" ∧ c.peerJoin peer pk now = (c, [])) ∨
    (pk ≠ "" ∧ ∃ eventBudget coalescing stateSinceMs retries, (c.peerJoin peer pk now).1 =
      { c with
        peers := c.peers.insert peer pk, hadPeers := true, announced := true
        state := if c.state = .joining then .joined else c.state
        eventBudget, coalescing, stateSinceMs, retries }) := by
  unfold Cell.peerJoin
  by_cases hpk : pk = ""
  · exact .inl ⟨hpk, if_pos hpk⟩
  · obtain ⟨b, co, h⟩ := peerEvent_eq pk true now (c.confirmPeer peer pk now)
    refine .inr ⟨hpk, ?_⟩
    rw [if_neg hpk]
    dsimp only
    rw [h]
    by_cases hs : c.state = .joining
    · refine ⟨b, co, now, 0, ?_⟩
      simp only [Cell.confirmPeer, hs, if_true]
    · refine ⟨b, co, c.stateSinceMs, c.retries, ?_⟩
      simp only [Cell.confirmPeer, hs, if_false]

theorem peerExit_cases (peer : PeerId) (selfDisconnected : Bool) (now : Ms) (c : Cell) :
    (c.peers[peer]? = none ∧ c.peerExit peer selfDisconnected now = (c, [])) ∨
    (c.peers[peer]? ≠ none ∧ ∃ eventBudget coalescing, (c.peerExit peer selfDisconnected now).1 =
      { c with
        peers := c.peers.erase peer
        emptySinceMs := if (c.peers.erase peer).isEmpty then now else c.emptySinceMs
        eventBudget, coalescing }) := by
  unfold Cell.peerExit
  cases hp : c.peers[peer]? with
  | none => exact .inl ⟨rfl, rfl⟩
  | some pk =>
    refine .inr ⟨by simp, ?_⟩
    by_cases hs : selfDisconnected = true
    · refine ⟨c.eventBudget, c.coalescing, ?_⟩
      simp only [hs, if_true, Cell.dropPeer]
    · obtain ⟨b, co, h⟩ := peerEvent_eq pk false now (c.dropPeer peer now)
      refine ⟨b, co, ?_⟩
      simp only [hs, if_false, Bool.false_eq_true]
      rw [h]
      rfl

/-- A packet enters its sender into the map when it names one the map does not have. -/
def Cell.newSender (peer : PeerId) (pk : PeerPkHex) (payload : List UInt8) (c : Cell) : Bool :=
  payload.length ≤ kMaxPayloadBytes && pk ≠ "" && !c.peers.contains peer

theorem packet_eq (peer : PeerId) (pk : PeerPkHex) (isPrivate : Bool) (payload : List UInt8)
    (now : Ms) (c : Cell) : ∃ peers packetBudget,
    peers = (if c.newSender peer pk payload then c.peers.insert peer pk else c.peers) ∧
      (c.packet peer pk isPrivate payload now).1 = { c with peers, packetBudget } := by
  unfold Cell.packet
  by_cases hlen : payload.length > kMaxPayloadBytes
  · have hno : c.newSender peer pk payload = false := by
      have : ¬payload.length ≤ kMaxPayloadBytes := by omega
      simp [Cell.newSender, this]
    rw [if_pos hlen, hno]
    exact ⟨c.peers, c.packetBudget, rfl, rfl⟩
  · have hl : c.learnPeer peer pk =
        { c with peers := if c.newSender peer pk payload then c.peers.insert peer pk else c.peers } := by
      have hle : payload.length ≤ kMaxPayloadBytes := by omega
      unfold Cell.learnPeer Cell.newSender
      by_cases hpk : pk = ""
      · simp [hpk]
      · cases c.peers.contains peer <;> simp [hpk, hle]
    rw [if_neg hlen]
    generalize (if c.newSender peer pk payload then c.peers.insert peer pk else c.peers) = peers at hl ⊢
    dsimp only
    rw [hl]
    split_ifs
    · exact ⟨peers, _, rfl, rfl⟩
    · exact ⟨peers, _, rfl, rfl⟩
    · exact ⟨peers, _, rfl, rfl⟩

theorem expelled_eq (reason : Reason) (now : Ms) (c : Cell) : ∃ start retries,
    c.expelled reason now =
    { c with
      pendingLeave := true, leaveReason := reason, pendingJoin := false, pendingFound := false
      retryWindowStartMs := start, retries, selfJoined := false, announced := false
      founded := false, hadPeers := false, peers := ∅, packetBudget := ∅
      state := if retries > kMaxRetriesPerWindow then .unavailable else .backoff
      stateSinceMs := now } := by
  obtain ⟨start, retries, h⟩ := enterBackoff_eq now
    { c with pendingLeave := true, leaveReason := reason, pendingJoin := false
             pendingFound := false }
  exact ⟨start, retries, h⟩

end Tim2Tox.RendezvousGroups
