import Tim2Tox.RendezvousRequests

set_option autoImplicit false

/-!
# Staleness and memberships

An observer remembers what happened to the peer map of each cell since a group
number was last recorded on it. A stale leave is justified when it agrees with
that memory.
-/
namespace Tim2Tox.RendezvousSession
open RendezvousCodec RendezvousGroups LabelledRuns

def opTime : Op → Option Ms
  | .requestJoin _ _ _ now | .requestLeave _ now | .requestLeaveAll now | .plan now
  | .onJoinIssued _ _ _ now _ _ | .onFoundIssued _ _ _ now _ _ | .onLeaveIssued _ _ now _
  | .onRetired _ _ now | .onLeaveFailed _ now | .onSelfJoin _ now | .onPeerJoin _ _ _ now
  | .onPeerExit _ _ _ now | .onJoinFail _ _ now | .onKickedSelf _ now
  | .onPacket _ _ _ _ _ now => some now
  | _ => none

def Event.time : Event → Option Ms
  | .op o => opTime o
  | .plan now | .report _ _ now => some now
  | .drop _ => none

/-- The clock of a run never goes back. -/
def NonDecreasing (es : List Event) : Prop := (es.filterMap Event.time).Pairwise (· ≤ ·)

instance : DecidablePred NonDecreasing := fun es =>
  inferInstanceAs (Decidable ((es.filterMap Event.time).Pairwise (· ≤ ·)))

/-- What is known of one membership: whether a peer was entered into the map,
    and since when the map is empty. -/
structure Membership where
  clock : Ms := 0
  entered : Bool := false
  gone : Option Ms := none

/-- Whether the event records a group number on the cell of `id`. -/
def recorded (s : Session) (id : ChatIdHex) : Event → Bool
  | .report a (.issued n ok) now =>
    a.chatIdHex = id && ok && n ≠ noGroup && match a.kind with
      | .join => (onJoinIssued s.registry id n ok now a.generation a.attempt).2
      | .found => (onFoundIssued s.registry id n ok now a.generation a.attempt).2
      | .leave => false
  | _ => false

def enters (c : Cell) : Op → Bool
  | .onPeerJoin _ _ pk _ => pk ≠ ""
  | .onPacket _ peer pk _ payload _ => c.newSender peer pk payload
  | _ => false

/-- The cell whose map a peer enters: a confirmed peer, or the sender of a packet. -/
def entering (s : Session) : Event → Option (ChatIdHex × Cell)
  | .op (.onPeerJoin n peer pk now) =>
    (activeCell s.registry n).filter fun entry => enters entry.2 (.onPeerJoin n peer pk now)
  | .op (.onPacket n peer pk isPrivate payload now) =>
    (activeCell s.registry n).filter fun entry =>
      enters entry.2 (.onPacket n peer pk isPrivate payload now)
  | _ => none

def peersOf (x : Option Cell) : Std.TreeMap PeerId PeerPkHex := (x.map Cell.peers).getD ∅

def Membership.next (m : Membership) (clock : Ms) (fresh entered : Bool) (x x' : Option Cell) :
    Membership :=
  if fresh then { clock }
  else
    { clock, entered := m.entered || entered
      gone := if !(peersOf x').isEmpty then none
        else if !(peersOf x).isEmpty then some clock else m.gone }

def member (s : Session) (e : Event) (s' : Session) (id : ChatIdHex) (m : Membership) : Membership :=
  m.next (e.time.getD m.clock) (recorded s id e) ((entering s e).any fun entry => entry.1 = id)
    s.registry.cells[id]? s'.registry.cells[id]?

/-- A stale leave of `c` is owed or in flight. -/
def staleOwed (s : Session) (id : ChatIdHex) (c : Cell) : Bool :=
  c.leaveReason = .stale && (c.pendingLeave || (flightAt s id).any fun a => a.kind = .leave)

/-- A recorded group starts without a mark of earlier peers, and no peer enters
    a cell that is being left as stale. -/
def freshly (s : Session) (e : Event) : Bool :=
  (match e with
    | .report a (.issued n ok) now => !recorded s a.chatIdHex (.report a (.issued n ok) now) ||
        s.registry.cells[a.chatIdHex]?.all fun c => !c.hadPeers
    | _ => true) &&
  (entering s e).all fun entry => !staleOwed s entry.1 entry.2

/-! ## The invariant -/

structure Judged (m : Membership) (x : Option Cell) (f : Option Action) : Prop where
  held : ∀ c, x = some c → c.state = .joined → c.groupNumber ≠ noGroup
  current : ∀ c, x = some c → c.state ≠ .retiring → c.groupNumber ≠ noGroup → c.hadPeers = true →
    m.entered = true ∧
      (c.peers.isEmpty = true → m.gone = some c.emptySinceMs ∧ c.emptySinceMs ≤ m.clock)
  stale : ∀ c, x = some c → c.leaveReason = .stale →
    c.pendingLeave = true ∨ (∃ a, f = some a ∧ a.kind = .leave) →
    m.entered = true ∧ c.peers.isEmpty = true ∧
      ∃ t, m.gone = some t ∧ t.toNat + kStaleMs.toNat ≤ m.clock.toNat
  apart : ∀ c a, x = some c → f = some a → a.kind ≠ .leave → c.pendingLeave = true →
    c.leaveReason ≠ .stale

/-- Nothing entered or left the map, which still reads `peers`. -/
structure Quiet (m m' : Membership) (peers : Std.TreeMap PeerId PeerPkHex) : Prop where
  entered : m'.entered = m.entered
  clock : m.clock ≤ m'.clock
  gone : peers.isEmpty = true → m'.gone = m.gone

theorem quiet_next {m : Membership} {clock : Ms} {c c' : Cell} (hclock : m.clock ≤ clock)
    (hp : c.peers.isEmpty = true → c'.peers.isEmpty = true) :
    Quiet m (m.next clock false false (some c) (some c')) c.peers := by
  refine ⟨by simp [Membership.next], hclock, fun he => ?_⟩
  simp [Membership.next, peersOf, hp he, he]

/-- An effect that leaves the peer map and the leave of a cell alone. -/
structure SamePeers (c c' : Cell) : Prop where
  peers : c'.peers = c.peers
  hadPeers : c'.hadPeers = c.hadPeers
  emptySince : c'.emptySinceMs = c.emptySinceMs
  group : c'.groupNumber = c.groupNumber
  state : c'.state = .joined → c.state = .joined ∨ c.groupNumber ≠ noGroup
  retiring : c'.state ≠ .retiring → c.state ≠ .retiring

theorem elapsed_of_sub {now t : Ms} {k : UInt64} (hle : t ≤ now) (h : now - t ≥ k) :
    t.toNat + k.toNat ≤ now.toNat := by
  rw [ge_iff_le, UInt64.le_iff_toNat_le, UInt64.toNat_sub_of_le _ _ hle] at h
  rw [UInt64.le_iff_toNat_le] at hle
  omega

theorem judged_same {m m' : Membership} {c c' : Cell} {f : Option Action}
    (h : Judged m (some c) f) (hq : Quiet m m' c.peers) (hs : SamePeers c c')
    (hp : c'.pendingLeave = true → c'.leaveReason = .stale → c.pendingLeave = true)
    (hl : c'.leaveReason = .stale → c.leaveReason = .stale) :
    Judged m' (some c') f := by
  have hmono : m.clock.toNat ≤ m'.clock.toNat := UInt64.le_iff_toNat_le.mp hq.clock
  refine ⟨?_, ?_, ?_, ?_⟩
  · rintro x hx hj
    cases hx
    rw [hs.group]
    exact (hs.state hj).elim (h.held c rfl) id
  · rintro x hx hr hg hhad
    cases hx
    rw [hs.group] at hg
    rw [hs.hadPeers] at hhad
    rw [hs.peers, hs.emptySince, hq.entered]
    obtain ⟨hent, hempty⟩ := h.current c rfl (hs.retiring hr) hg hhad
    refine ⟨hent, fun he => ?_⟩
    obtain ⟨hgone, hle⟩ := hempty he
    exact ⟨(hq.gone he).trans hgone, UInt64.le_trans hle hq.clock⟩
  · rintro x hx hst hor
    cases hx
    obtain ⟨hent, hempty, t, hgone, ht⟩ := h.stale c rfl (hl hst) (hor.imp (hp · hst) id)
    rw [hs.peers, hq.entered]
    exact ⟨hent, hempty, t, (hq.gone hempty).trans hgone, by omega⟩
  · rintro x a hx ha hk hpend hst
    cases hx
    exact h.apart c a rfl ha hk (hp hpend hst) (hl hst)

theorem judged_none (m : Membership) (f : Option Action) : Judged m none f :=
  ⟨by simp, by simp, by simp, by simp⟩

/-- A cell without a mark of peers and without a stale leave. -/
theorem judged_of_unmarked {m : Membership} {c : Cell} {f : Option Action}
    (hheld : c.state = .joined → c.groupNumber ≠ noGroup)
    (hcur : c.state ≠ .retiring → c.groupNumber ≠ noGroup → c.hadPeers = false)
    (hst : c.leaveReason = .stale →
      c.pendingLeave = false ∧ ∀ a, f = some a → a.kind ≠ .leave) : Judged m (some c) f := by
  refine ⟨?_, ?_, ?_, ?_⟩
  · rintro x hx hj
    cases hx
    exact hheld hj
  · rintro x hx hr hg hhad
    cases hx
    simp [hcur hr hg] at hhad
  · rintro x hx hs hor
    cases hx
    obtain ⟨hp, hk⟩ := hst hs
    rcases hor with h | ⟨a, ha, hak⟩
    · simp [hp] at h
    · exact absurd hak (hk a ha)
  · rintro x a hx ha hk hp hs
    cases hx
    simp [(hst hs).1] at hp

theorem enterBackoff_unmarked (now : Ms) (c : Cell) :
    (Cell.enterBackoff now c).hadPeers = false ∧ (Cell.enterBackoff now c).state ≠ .joined ∧
      (Cell.enterBackoff now c).leaveReason = c.leaveReason ∧
      (Cell.enterBackoff now c).peers = ∅ := by
  have hw := enterBackoff_waits now c
  obtain ⟨w, n, h⟩ := enterBackoff_eq now c
  refine ⟨by rw [h], fun hj => ?_, by rw [h], by rw [h]⟩
  rw [hj] at hw
  cases hw

theorem judged_expelled {m : Membership} {c : Cell} {f : Option Action} {reason : Reason} {now : Ms}
    (hreason : reason ≠ .stale) : Judged m (some (c.expelled reason now)) f := by
  obtain ⟨hhad, hstate, hl, -⟩ := enterBackoff_unmarked now
    { c with pendingLeave := true, leaveReason := reason, pendingJoin := false
             pendingFound := false }
  exact judged_of_unmarked (fun hj => absurd hj hstate) (fun _ _ => hhad)
    fun hs => absurd (hl.symm.trans hs) hreason

/-- A cell without a group: only an owed stale leave matters. -/
theorem judged_groupless {m m' : Membership} {c c' : Cell} {f : Option Action}
    (h : Judged m (some c) f) (hq : Quiet m m' c.peers) (hg : c'.groupNumber = noGroup)
    (hj : c'.state ≠ .joined) (hl : c'.leaveReason = c.leaveReason)
    (hp : c'.pendingLeave = c.pendingLeave)
    (hpeers : c.peers.isEmpty = true → c'.peers.isEmpty = true) : Judged m' (some c') f := by
  have hmono : m.clock.toNat ≤ m'.clock.toNat := UInt64.le_iff_toNat_le.mp hq.clock
  refine ⟨?_, ?_, ?_, ?_⟩
  · rintro x hx hjx
    cases hx
    exact absurd hjx hj
  · rintro x hx - hgx -
    cases hx
    exact absurd hg hgx
  · rintro x hx hs hor
    cases hx
    obtain ⟨hent, hempty, t, hgone, ht⟩ := h.stale c rfl (hl.symm.trans hs) (hor.imp (hp.symm.trans ·) id)
    exact ⟨hq.entered.trans hent, hpeers hempty, t, (hq.gone hempty).trans hgone, by omega⟩
  · rintro x a hx ha hk hpx hs
    cases hx
    exact h.apart c a rfl ha hk (hp.symm.trans hpx) (hl.symm.trans hs)

theorem finishRetire_peers {nextAttempt : ℕ} {now : Ms} {c c' : Cell}
    (h : c.finishRetire nextAttempt now = some c') :
    c'.groupNumber = noGroup ∧ c'.state ≠ .joined ∧ c'.leaveReason = c.leaveReason ∧
      (c.peers.isEmpty = true → c'.peers.isEmpty = true) := by
  obtain ⟨-, he⟩ | ⟨-, -, he⟩ | ⟨-, -, -, he⟩ | ⟨-, -, -, -, hw, he⟩ | ⟨-, -, -, -, he⟩ :=
    finishRetire_cases nextAttempt now c <;> rw [he] at h <;> cases h
  · exact ⟨rfl, by simp, rfl, id⟩
  · exact ⟨rfl, by simp, rfl, id⟩
  · refine ⟨rfl, fun hj => ?_, rfl, id⟩
    dsimp only at hj
    rw [hj] at hw
    cases hw
  · obtain ⟨-, hstate, hl, hp⟩ := enterBackoff_unmarked now
      { c with groupNumber := noGroup, retireReason := .unset }
    obtain ⟨w, n, hb⟩ := enterBackoff_eq now { c with groupNumber := noGroup, retireReason := .unset }
    exact ⟨by rw [hb], hstate, hl, fun _ => by simp [hp]⟩

/-- A peer that enters a cell which is not left as stale. -/
theorem judged_entered {m m' : Membership} {c c' : Cell} {f : Option Action}
    (h : Judged m (some c) f) (hent : m'.entered = true)
    (hpeers : c'.peers.isEmpty = false) (hg : c'.groupNumber = c.groupNumber)
    (hstate : c'.state = .joined → c.groupNumber ≠ noGroup)
    (hl : c'.leaveReason = c.leaveReason) (hp : c'.pendingLeave = c.pendingLeave)
    (hstale : c.leaveReason = .stale → c.pendingLeave = false ∧
      ∀ a, f = some a → a.kind ≠ .leave) : Judged m' (some c') f := by
  refine ⟨?_, ?_, ?_, ?_⟩
  · rintro x hx hj
    cases hx
    rw [hg]
    exact hstate hj
  · rintro x hx - - -
    cases hx
    exact ⟨hent, by simp [hpeers]⟩
  · rintro x hx hs hor
    cases hx
    obtain ⟨hp', hk⟩ := hstale (hl.symm.trans hs)
    rcases hor with h | ⟨a, ha, hak⟩
    · simp [hp, hp'] at h
    · exact absurd hak (hk a ha)
  · rintro x a hx ha hk hpx hs
    cases hx
    exact h.apart c a rfl ha hk (hp.symm.trans hpx) (hl.symm.trans hs)

theorem insert_isEmpty_false (peers : Std.TreeMap PeerId PeerPkHex) (peer : PeerId)
    (pk : PeerPkHex) : (peers.insert peer pk).isEmpty = false := by
  simp

theorem stale_of_freshly {s : Session} {e : Event} {id : ChatIdHex} {c : Cell}
    (hcond : freshly s e = true) (hent : entering s e = some (id, c))
    (hst : c.leaveReason = .stale) :
    c.pendingLeave = false ∧ ∀ a, flightAt s id = some a → a.kind ≠ .leave := by
  simp only [freshly, hent, Option.all_some, Bool.and_eq_true, Bool.not_eq_true'] at hcond
  have hno := hcond.2
  simp only [staleOwed, hst, decide_true, Bool.true_and, Bool.or_eq_false_iff] at hno
  refine ⟨hno.1, fun a ha hk => ?_⟩
  simp [ha, hk] at hno

theorem entering_of_miss {derive : Seed → Option ChatId} {s : Session} {id : ChatIdHex} {o : Op}
    (h : o.hits derive s.registry id = false) :
    ((entering s (.op o)).any fun entry => entry.1 = id) = false := by
  by_contra hne
  simp only [Bool.not_eq_false] at hne
  obtain ⟨entry, he, hid⟩ := (Option.any_eq_true _ _).mp hne
  cases o with
  | onPeerJoin n peer pk now =>
    obtain ⟨ha, -⟩ := Option.filter_eq_some_iff.mp he
    simp [Op.hits, ha] at h
    exact h (by simpa using hid)
  | onPacket n peer pk isPrivate payload now =>
    obtain ⟨ha, -⟩ := Option.filter_eq_some_iff.mp he
    simp [Op.hits, ha] at h
    exact h (by simpa using hid)
  | _ => simp [entering] at he

/-- The memory of `id` after an operation. -/
abbrev afterOp (s : Session) (o : Op) (id : ChatIdHex) (m : Membership) (x x' : Option Cell) :
    Membership :=
  m.next ((opTime o).getD m.clock) false ((entering s (.op o)).any fun entry => entry.1 = id) x x'

theorem judged_op {derive : Seed → Option ChatId} {s : Session} {key : ChatIdHex} {o : Op}
    {x x' : Option Cell} {m : Membership} (hfree : driven o = false) (hclear : o ≠ .clear)
    (hclock : m.clock ≤ (opTime o).getD m.clock) (hcond : freshly s (.op o) = true)
    (hI : Judged m x (flightAt s key)) (h : OpEffect derive s.registry key o x x') :
    Judged (afterOp s o key m x x') x' (flightAt s key) := by
  cases h with
  | missed hmiss =>
    unfold afterOp
    rw [entering_of_miss hmiss]
    cases x with
    | none => exact judged_none _ _
    | some c =>
      exact judged_same hI (quiet_next hclock id) ⟨rfl, rfl, rfl, rfl, .inl, id⟩ (fun h _ => h) id
  | absent => exact judged_none _ _
  | cleared => exact absurd rfl hclear
  | created => exact judged_of_unmarked (by simp [newCell]) (by simp [newCell]) (by simp [newCell])
  | present =>
    exact judged_same hI (quiet_next hclock id) ⟨rfl, rfl, rfl, rfl, .inl, id⟩ (fun h _ => h) id
  | deferred =>
    exact judged_same hI (quiet_next hclock id) ⟨rfl, rfl, rfl, rfl, .inl, id⟩ (fun h _ => h) id
  | leaveAsked ho =>
    rename_i now c
    have hent : ((entering s (.op o)).any fun entry => entry.1 = key) = false := by
      rcases ho with rfl | rfl <;> rfl
    unfold afterOp
    rw [hent]
    obtain ⟨hr, he⟩ | ⟨-, -, he⟩ | ⟨hr, -, he⟩ := requestLeave_cases now c <;> rw [he]
    · exact judged_same hI (quiet_next hclock id) ⟨rfl, rfl, rfl, rfl, .inl, id⟩ (fun h _ => h) id
    · exact judged_none _ _
    · exact judged_same hI (quiet_next hclock id) ⟨rfl, rfl, rfl, rfl, .inl, id⟩ (by simp) (by simp)
  | planned | joinIssued | foundIssued | left | kept => simp [driven] at hfree
  | retired =>
    rename_i n now c
    unfold Cell.retired
    split_ifs with hr
    · cases he : c.finishRetire s.registry.nextAttempt now with
      | none => exact judged_none _ _
      | some c' =>
        obtain ⟨hg, hj, hl, hp⟩ := finishRetire_peers he
        exact judged_groupless hI (quiet_next hclock hp) hg hj hl (finishRetire_kept he).2.1 hp
    · exact judged_same hI (quiet_next hclock id) ⟨rfl, rfl, rfl, rfl, .inl, id⟩ (fun h _ => h) id
  | selfJoin ha =>
    obtain ⟨hn, -, hg, hs⟩ := activeCell_some ha
    exact judged_same hI (quiet_next hclock id)
      ⟨rfl, rfl, rfl, rfl, fun _ => .inr (hg ▸ hn), fun _ => hs⟩ (fun h _ => h) id
  | peerJoin ha =>
    rename_i n peer pk now c
    obtain ⟨hn, -, hg, hs⟩ := activeCell_some ha
    obtain ⟨hpk, he⟩ | ⟨hpk, b, co, since, retries, he⟩ := peerJoin_cases peer pk now c
    · have hent : entering s (.op (.onPeerJoin n peer pk now)) = none := by
        simp [entering, ha, enters, hpk]
      unfold afterOp
      rw [he, hent]
      exact judged_same hI (quiet_next hclock id) ⟨rfl, rfl, rfl, rfl, .inl, id⟩ (fun h _ => h) id
    · have hent : entering s (.op (.onPeerJoin n peer pk now)) = some (key, c) := by
        simp [entering, ha, enters, hpk]
      rw [he]
      refine judged_entered hI ?_ (insert_isEmpty_false _ _ _) rfl (fun _ => hg ▸ hn) rfl rfl
        (stale_of_freshly hcond hent)
      simp [afterOp, Membership.next, hent]
  | peerExit ha =>
    rename_i n peer self now c
    obtain ⟨hn, -, hg, hs⟩ := activeCell_some ha
    obtain ⟨hp, he⟩ | ⟨hp, b, co, he⟩ := peerExit_cases peer self now c
    · rw [he]
      exact judged_same hI (quiet_next hclock id) ⟨rfl, rfl, rfl, rfl, .inl, id⟩ (fun h _ => h) id
    · have hne : c.peers.isEmpty = false := by
        by_contra hempty
        exact hp (Std.TreeMap.getElem?_of_isEmpty (by simpa using hempty))
      rw [he]
      refine ⟨?_, ?_, ?_, ?_⟩
      · rintro x hx hj
        cases hx
        exact hI.held c rfl hj
      · rintro x hx hr hgx hhad
        cases hx
        refine ⟨?_, fun hempty => ?_⟩
        · simpa [afterOp, Membership.next, entering] using (hI.current c rfl hr hgx hhad).1
        · dsimp only at hempty
          rw [if_pos hempty]
          exact ⟨by simp [afterOp, Membership.next, entering, peersOf, hempty, hne, opTime],
            by simp [afterOp, Membership.next, opTime]⟩
      · rintro x hx hst hor
        cases hx
        obtain ⟨-, hempty, -⟩ := hI.stale c rfl hst hor
        simp [hne] at hempty
      · rintro x a hx hfa hk hpx
        cases hx
        exact hI.apart c a rfl hfa hk hpx
  | joinFail => exact judged_expelled (by split <;> simp)
  | kicked => exact judged_expelled (by simp)
  | packet ha =>
    rename_i n peer pk isPrivate payload now c
    obtain ⟨hn, -, hg, hs⟩ := activeCell_some ha
    obtain ⟨peers, budget, hp, he⟩ := packet_eq peer pk isPrivate payload now c
    rw [he]
    cases hnew : c.newSender peer pk payload with
    | true =>
      rw [hnew, if_pos rfl] at hp
      subst hp
      have hent : entering s (.op (.onPacket n peer pk isPrivate payload now)) = some (key, c) := by
        simp [entering, ha, enters, hnew]
      refine judged_entered hI ?_ (insert_isEmpty_false _ _ _) rfl (fun _ => hg ▸ hn) rfl rfl
        (stale_of_freshly hcond hent)
      simp [afterOp, Membership.next, hent]
    | false =>
      rw [hnew, if_neg (by simp)] at hp
      subst hp
      have hent : entering s (.op (.onPacket n peer pk isPrivate payload now)) = none := by
        simp [entering, ha, enters, hnew]
      unfold afterOp
      rw [hent]
      exact judged_same hI (quiet_next hclock id) ⟨rfl, rfl, rfl, rfl, .inl, id⟩ (fun h _ => h) id

theorem judged_landed {m m' : Membership} {c : Cell} {f : Option Action}
    (h : Judged m (some c) f) (hq : Quiet m m' c.peers) : Judged m' (some c) none := by
  have hsame := judged_same h hq ⟨rfl, rfl, rfl, rfl, .inl, id⟩ (fun h _ => h) id
  exact ⟨hsame.held, hsame.current, fun x hx hs hor => hsame.stale x hx hs (.inl (by simpa using hor)),
    by simp⟩

theorem judged_timers {m m' : Membership} {now : Ms} {c : Cell} (h : Judged m (some c) none)
    (hq : Quiet m m' c.peers) (hnow : m'.clock = now) : Judged m' (some (c.timers now)) none := by
  obtain he | ⟨-, -, -, -, -, he⟩ | ⟨-, hs, hhad, hempty, hold, he⟩ | ⟨-, -, n, w, he⟩ :=
    timers_cases now c <;> rw [he]
  · exact judged_landed h hq
  · exact judged_same h hq ⟨rfl, rfl, rfl, rfl, .inl, id⟩ (by simp) (by simp)
  · obtain ⟨hhad', hstate, hl, hp⟩ := enterBackoff_unmarked now
      { c with pendingLeave := true, leaveReason := .stale }
    obtain ⟨hent, hgone⟩ := h.current c rfl (by simp [hs]) (h.held c rfl hs) hhad
    obtain ⟨hgone, hle⟩ := hgone hempty
    refine ⟨?_, ?_, ?_, by simp⟩
    · rintro x hx hj
      cases hx
      exact absurd hj hstate
    · rintro x hx - - hx'
      cases hx
      simp [hhad'] at hx'
    · rintro x hx - -
      cases hx
      refine ⟨hq.entered.trans hent, by simp [hp], c.emptySinceMs, (hq.gone hempty).trans hgone, ?_⟩
      rw [hnow]
      exact elapsed_of_sub (UInt64.le_trans hle (hnow ▸ hq.clock)) hold
  · exact judged_same h hq ⟨rfl, rfl, rfl, rfl, .inl, id⟩ (fun h _ => h) id

theorem timers_peers (now : Ms) {c : Cell} (h : c.peers.isEmpty = true) :
    (c.timers now).peers.isEmpty = true := by
  obtain he | ⟨-, -, -, -, -, he⟩ | ⟨-, -, -, -, -, he⟩ | ⟨-, -, n, w, he⟩ := timers_cases now c <;>
    rw [he]
  · exact h
  · exact h
  · simp [(enterBackoff_unmarked now { c with pendingLeave := true, leaveReason := .stale }).2.2.2]
  · exact h

theorem plan_peers (r : Registry) (now : Ms) {c : Cell} (h : c.peers.isEmpty = true) :
    (planCell r now c).1.peers.isEmpty = true := by
  unfold planCell Cell.plan
  split_ifs
  · exact h
  · have ht := timers_peers now h
    obtain he | ⟨-, he⟩ | ⟨-, -, -, -, he⟩ := emit_cases r.accepting r.generation
      (blocked r c.chatIdHex) now (c.timers now) <;> rw [he] <;> exact ht

/-- `Plan` keeps the judgement; a stale leave it plans is the one the memory justifies. -/
theorem judged_plan {r : Registry} {m m' : Membership} {now : Ms} {c : Cell}
    (h : Judged m (some c) none) (hq : Quiet m m' c.peers) (hnow : m'.clock = now) :
    Judged m' (some (planCell r now c).1) (planCell r now c).2 := by
  unfold planCell Cell.plan
  by_cases hr : c.state = .retiring
  · rw [if_pos hr]
    exact judged_landed h hq
  rw [if_neg hr]
  have ht := judged_timers h hq hnow
  have hts := timers_state now hr
  obtain he | ⟨hl, he⟩ | ⟨hl, -, -, -, he⟩ := emit_cases r.accepting r.generation
    (blocked r c.chatIdHex) now (c.timers now) <;> rw [he]
  · exact ht
  · refine ⟨?_, ?_, ?_, ?_⟩
    · rintro x hx
      cases hx
      exact ht.held (c.timers now) rfl
    · rintro x hx
      cases hx
      exact ht.current (c.timers now) rfl
    · rintro x hx hs -
      cases hx
      exact ht.stale (c.timers now) rfl hs (.inl hl)
    · rintro x a hx ha hk
      cases ha
      exact absurd rfl hk
  · have hkind : ((c.timers now).startAction r.generation).kind ≠ .leave := by
      unfold Cell.startAction
      cases (c.timers now).pendingJoin <;> simp
    refine ⟨?_, ?_, ?_, ?_⟩
    · rintro x hx hj
      cases hx
      dsimp only at hj
      split_ifs at hj
      exact ht.held (c.timers now) rfl hj
    · rintro x hx -
      cases hx
      exact ht.current (c.timers now) rfl hts
    · rintro x hx - (hp | ⟨a, ha, hk⟩)
      · cases hx
        simp [hl] at hp
      · cases ha
        exact absurd hk hkind
    · rintro x a hx - - hp
      cases hx
      simp [hl] at hp

/-- A report of a start: recorded on an unmarked cell, turned into a back-off, or refused. -/
theorem judged_issued {m m' : Membership} {c c' : Cell} {a : Action}
    (h : Judged m (some c) (some a)) (hk : a.kind ≠ .leave)
    (hcases : (c' = c ∧ Quiet m m' c.peers) ∨
      (c'.hadPeers = false ∧ (c'.state = .joined → c'.groupNumber ≠ noGroup) ∧
        c'.leaveReason = c.leaveReason ∧ c'.pendingLeave = c.pendingLeave)) :
    Judged m' (some c') none := by
  obtain ⟨rfl, hq⟩ | ⟨hhad, hheld, hl, hp⟩ := hcases
  · exact judged_landed h hq
  · refine judged_of_unmarked hheld (fun _ _ => hhad) fun hs => ⟨?_, by simp⟩
    by_contra hpend
    simp only [Bool.not_eq_false] at hpend
    exact h.apart c a rfl rfl hk (hp.symm.trans hpend) (hl.symm.trans hs)

theorem quiet_keep {m : Membership} {clock : Ms} {c : Cell} (hclock : m.clock ≤ clock) :
    Quiet m (m.next clock false false (some c) (some c)) c.peers :=
  quiet_next hclock id

theorem judged_joinIssued {s : Session} {m : Membership} {id : ChatIdHex} {a : Action} {c : Cell}
    {n : GroupNumber} {ok : Bool} {now : Ms} (hc : s.registry.cells[id]? = some c)
    (hkey : a.chatIdHex = id) (hk : a.kind = .join) (hclock : m.clock ≤ now)
    (hcond : freshly s (.report a (.issued n ok) now) = true) (h : Judged m (some c) (some a)) :
    let c' := c.issued s.registry.generation (Cell.joinIssued n ok now) (fun _ => false)
      a.generation a.attempt
    Judged (m.next now (recorded s id (.report a (.issued n ok) now)) false (some c) (some c'))
      (some c') none := by
  intro c'
  subst hkey
  have hrec : recorded s a.chatIdHex (.report a (.issued n ok) now) =
      (ok && decide (n ≠ noGroup) && c.awaits s.registry.generation a.generation a.attempt) := by
    simp [recorded, hk, onJoinIssued_answer hc]
  refine judged_issued h (by simp [hk]) ?_
  cases haw : c.awaits s.registry.generation a.generation a.attempt with
  | false =>
    have hc' : c' = c := by simp [c', Cell.issued, haw]
    refine .inl ⟨hc', ?_⟩
    rw [hrec, haw, hc', Bool.and_false]
    exact quiet_keep hclock
  | true =>
    have hc' : c' = c.joinIssued n ok now := by simp [c', Cell.issued, haw]
    obtain ⟨hp, hl, -⟩ := joinIssued_leave n ok now c
    refine .inr ⟨?_, ?_, hc' ▸ hl, hc' ▸ hp⟩
    · rw [hc']
      cases hok : (ok && decide (n ≠ noGroup)) with
      | true =>
        have hfresh : c.hadPeers = false := by
          rw [freshly, hrec, hok, haw] at hcond
          simpa [hc, entering] using hcond
        simp only [Cell.joinIssued, hok, if_true]
        exact hfresh
      | false =>
        simp only [Cell.joinIssued, hok, Bool.false_eq_true, if_false]
        exact (enterBackoff_unmarked now _).1
    · rw [hc']
      obtain ⟨-, he⟩ | he := joinIssued_cases n ok now c <;> rw [he]
      · simp
      · exact fun hj => absurd hj (enterBackoff_unmarked now _).2.1

theorem judged_foundIssued {s : Session} {m : Membership} {id : ChatIdHex} {a : Action} {c : Cell}
    {n : GroupNumber} {ok : Bool} {now : Ms} (hc : s.registry.cells[id]? = some c)
    (hkey : a.chatIdHex = id) (hk : a.kind = .found) (hclock : m.clock ≤ now)
    (hcond : freshly s (.report a (.issued n ok) now) = true) (h : Judged m (some c) (some a)) :
    let c' := c.issued s.registry.generation (Cell.foundIssued n ok now) Cell.pendingLeave
      a.generation a.attempt
    Judged (m.next now (recorded s id (.report a (.issued n ok) now)) false (some c) (some c'))
      (some c') none := by
  intro c'
  subst hkey
  have hrec : recorded s a.chatIdHex (.report a (.issued n ok) now) =
      (ok && decide (n ≠ noGroup) &&
        (c.awaits s.registry.generation a.generation a.attempt && !c.pendingLeave)) := by
    simp [recorded, hk, onFoundIssued_answer hc]
  refine judged_issued h (by simp [hk]) ?_
  cases haw : c.awaits s.registry.generation a.generation a.attempt && !c.pendingLeave with
  | false =>
    have hc' : c' = c := by simp only [c', Cell.issued, haw, Bool.false_eq_true, if_false]
    refine .inl ⟨hc', ?_⟩
    rw [hrec, haw, hc', Bool.and_false]
    exact quiet_keep hclock
  | true =>
    have hc' : c' = c.foundIssued n ok now := by simp only [c', Cell.issued, haw, if_true]
    obtain ⟨hp, hl, -⟩ := foundIssued_leave n ok now c
    refine .inr ⟨?_, ?_, hc' ▸ hl, hc' ▸ hp⟩
    · rw [hc']
      cases hok : (ok && decide (n ≠ noGroup)) with
      | true =>
        have hfresh : c.hadPeers = false := by
          rw [freshly, hrec, hok, haw] at hcond
          simpa [hc, entering] using hcond
        simp only [Cell.foundIssued, hok, if_true]
        exact hfresh
      | false =>
        simp only [Cell.foundIssued, hok, Bool.false_eq_true, if_false]
        exact (enterBackoff_unmarked now _).1
    · rw [hc']
      obtain ⟨hn, he⟩ | he := foundIssued_cases n ok now c <;> rw [he]
      · exact fun _ => hn
      · exact fun hj => absurd hj (enterBackoff_unmarked now _).2.1

theorem judged_left {m m' : Membership} {c : Cell} {a : Action} {nextAttempt : ℕ} {now : Ms}
    (h : Judged m (some c) (some a))
    (hq : ∀ c', c.left nextAttempt a.reason now a.groupNumber = some c' →
      c' = c → Quiet m m' c.peers) :
    Judged m' (c.left nextAttempt a.reason now a.groupNumber) none := by
  generalize hx : c.left nextAttempt a.reason now a.groupNumber = x at hq
  unfold Cell.left at hx
  split_ifs at hx with hg hn
  · subst hx
    exact judged_landed h (hq c rfl rfl)
  · cases x with
    | none => exact judged_none _ _
    | some c' =>
      obtain ⟨hg', hj, -⟩ := finishRetire_peers hx
      have hp := (finishRetire_kept hx).2.1
      exact judged_of_unmarked (fun h => absurd h hj) (fun _ h => absurd hg' h)
        fun _ => ⟨hp, by simp⟩
  · subst hx
    exact judged_of_unmarked (by simp) (by simp) fun _ => ⟨rfl, by simp⟩

theorem judged_step (derive : Seed → Option ChatId) {s s' : Session} {e : Event} {id : ChatIdHex}
    {m : Membership} (hw : WellFormed s) (hs : step derive s e = some s')
    (hclock : m.clock ≤ e.time.getD m.clock) (hcond : freshly s e = true)
    (hI : Judged m s.registry.cells[id]? (flightAt s id)) :
    Judged (member s e s' id m) s'.registry.cells[id]? (flightAt s' id) := by
  have he := step_effect derive hw hs id
  unfold member
  generalize s'.registry.cells[id]? = x' at he ⊢
  generalize flightAt s' id = f' at he ⊢
  generalize hx : s.registry.cells[id]? = x at he hI
  generalize hf : flightAt s id = f at he hI
  cases he with
  | op hfree hclear h =>
    subst hf
    exact judged_op hfree hclear hclock hcond hI h
  | cleared | unplanned | unheard => exact judged_none _ _
  | planned => exact judged_plan hI (quiet_next hclock (plan_peers _ _)) rfl
  | elsewhere h =>
    have hquiet : recorded s id e = false ∧ entering s e = none := by
      cases e with
      | op o => exact h.elim
      | plan now => exact h.elim
      | report a outcome now =>
        have hne : ¬a.chatIdHex = id := h
        cases outcome <;> simp [recorded, entering, hne]
      | drop a => exact ⟨rfl, rfl⟩
    rw [hquiet.1, hquiet.2]
    cases x' with
    | none => exact judged_none _ _
    | some c =>
      exact judged_same hI (quiet_keep hclock) ⟨rfl, rfl, rfl, rfl, .inl, fun h => h⟩
        (fun h _ => h) fun h => h
  | joinIssued hkey hk => exact judged_joinIssued hx hkey hk hclock hcond hI
  | foundIssued hkey hk => exact judged_foundIssued hx hkey hk hclock hcond hI
  | left hkey hk =>
    refine judged_left hI fun c' hc' heq => ?_
    rw [hc', heq]
    exact quiet_keep hclock
  | kept hkey hk =>
    rename_i a now c _
    have hsame : Judged (m.next now false false (some c) (some (c.leaveFailed now))) (some c)
        (some a) :=
      judged_same hI (quiet_next hclock fun h => h) ⟨rfl, rfl, rfl, rfl, .inl, fun h => h⟩
        (fun h _ => h) fun h => h
    refine ⟨?_, ?_, ?_, by simp⟩
    · rintro x hx hj
      cases hx
      exact hsame.held c rfl hj
    · rintro x hx hr hg hhad
      cases hx
      exact hsame.current c rfl hr hg hhad
    · rintro x hx hst -
      cases hx
      exact hsame.stale c rfl hst (.inr ⟨a, rfl, hk⟩)
  | lost =>
    cases x' with
    | none => exact judged_none _ _
    | some c => exact judged_landed hI (quiet_keep hclock)
  | dropped =>
    cases x' with
    | none => exact judged_none _ _
    | some c => exact judged_landed hI (quiet_keep hclock)

/-! ## Runs with a clock -/

theorem meets_clock (derive : Seed → Option ChatId) {s : Observed Membership} {es : List Event}
    (hnd : NonDecreasing es)
    (hs : ∀ t ∈ es.filterMap Event.time, ∀ id, (s.memory id).clock ≤ t) :
    Meets (observedStep derive member)
      (fun s e => ∀ id, (s.memory id).clock ≤ e.time.getD (s.memory id).clock) s es := by
  induction es generalizing s with
  | nil => trivial
  | cons e es ih =>
    unfold NonDecreasing at hnd
    have hhead : ∀ id, (s.memory id).clock ≤ e.time.getD (s.memory id).clock := by
      intro id
      cases ht : e.time with
      | none => exact UInt64.le_refl _
      | some t => exact hs t (by simp [ht]) id
    refine ⟨hhead, fun u hu => ?_⟩
    obtain ⟨s', -, rfl⟩ := Option.map_eq_some_iff.mp hu
    have hclock : ∀ id, (member s.session e s' id (s.memory id)).clock =
        e.time.getD (s.memory id).clock := by
      intro id
      unfold member Membership.next
      split_ifs <;> rfl
    cases ht : e.time with
    | none =>
      rw [List.filterMap_cons_none ht] at hnd hs
      refine ih hnd fun t htmem id => ?_
      change (member s.session e s' id (s.memory id)).clock ≤ t
      rw [hclock, ht]
      exact hs t htmem id
    | some now =>
      rw [List.filterMap_cons_some ht] at hnd hs
      obtain ⟨hle, hnd⟩ := List.pairwise_cons.mp hnd
      refine ih hnd fun t htmem id => ?_
      change (member s.session e s' id (s.memory id)).clock ≤ t
      rw [hclock, ht]
      exact hle t htmem

/-- The stale leave is about the current membership: a peer was entered since
    its group was recorded, and the map is empty for at least `kStaleMs`. -/
def StaleJustified (s : Observed Membership) (id : ChatIdHex) (now : Ms) : Prop :=
  (s.memory id).entered = true ∧ (peersOf s.session.registry.cells[id]?).isEmpty = true ∧
    ∃ t, (s.memory id).gone = some t ∧ t.toNat + kStaleMs.toNat ≤ now.toNat

theorem stale_of_leaveAction {generation : ℕ} {c : Cell}
    (h : (c.leaveAction generation).reason = .stale) : c.leaveReason = .stale := by
  unfold Cell.leaveAction at h
  dsimp only at h
  split_ifs at h
  exact h

/-- A stale leave `Plan` returns was owed before, or its timer found the map empty. -/
theorem planned_stale {r : Registry} {m : Membership} {now : Ms} {c : Cell} {a : Action}
    (h : Judged m (some c) none) (hclock : m.clock ≤ now) (ha : (planCell r now c).2 = some a)
    (hk : a.kind = .leave) (hst : a.reason = .stale) :
    m.entered = true ∧ c.peers.isEmpty = true ∧
      ∃ t, m.gone = some t ∧ t.toNat + kStaleMs.toNat ≤ now.toNat := by
  have hmono : m.clock.toNat ≤ now.toNat := UInt64.le_iff_toNat_le.mp hclock
  unfold planCell Cell.plan at ha
  split_ifs at ha
  obtain he | ⟨hl, he⟩ | ⟨hl, -, -, -, he⟩ := emit_cases r.accepting r.generation
    (blocked r c.chatIdHex) now (c.timers now) <;> rw [he] at ha <;> cases ha
  · have hreason := stale_of_leaveAction hst
    have howed : ∀ c', c.timers now = c' → c'.pendingLeave = c.pendingLeave →
        c'.leaveReason = c.leaveReason → m.entered = true ∧ c.peers.isEmpty = true ∧
          ∃ t, m.gone = some t ∧ t.toNat + kStaleMs.toNat ≤ now.toNat := by
      rintro c' hc' hp' hl'
      rw [hc'] at hl hreason
      obtain ⟨hent, hempty, t, hgone, ht⟩ :=
        h.stale c rfl (hl'.symm.trans hreason) (.inl (hp'.symm.trans hl))
      exact ⟨hent, hempty, t, hgone, Nat.le_trans ht hmono⟩
    obtain ht | ⟨-, -, -, -, -, ht⟩ | ⟨-, hs, hhad, hempty, hold, ht⟩ | ⟨-, -, n, w, ht⟩ :=
      timers_cases now c
    · exact howed c ht rfl rfl
    · rw [ht] at hreason
      cases hreason
    · obtain ⟨hent, hgone⟩ := h.current c rfl (by simp [hs]) (h.held c rfl hs) hhad
      obtain ⟨hgone, hle⟩ := hgone hempty
      exact ⟨hent, hempty, c.emptySinceMs, hgone, elapsed_of_sub (UInt64.le_trans hle hclock) hold⟩
    · exact howed _ ht rfl rfl
  · unfold Cell.startAction at hk
    dsimp only at hk
    split_ifs at hk

/-- In every run with a non-decreasing clock whose recorded groups and entered
    peers come freshly, `Plan` leaves a cell as stale only on its current membership. -/
theorem stale_leave_justified (derive : Seed → Option ChatId) (es : List Event)
    (s : Observed Membership) (s' : Session) (now : Ms) (a : Action)
    (hclock : NonDecreasing (es ++ [.plan now]))
    (hm : Meets (observedStep derive member) (fun s e => freshly s.session e = true)
      ⟨{}, fun _ => {}⟩ es)
    (hr : exec (observedStep derive member) ⟨{}, fun _ => {}⟩ es = some s)
    (hplan : step derive s.session (.plan now) = some s') (ha : a ∈ s'.batch)
    (hk : a.kind = .leave) (hstale : a.reason = .stale) :
    StaleJustified s a.chatIdHex now := by
  have htimed := meets_clock derive (s := ⟨{}, fun _ => {}⟩) hclock fun t _ _ => UInt64.zero_le
  have hstep : observedStep derive member s (.plan now) =
      some ⟨s', fun id => member s.session (.plan now) s' id (s.memory id)⟩ := by
    simp [observedStep, hplan]
  obtain ⟨htimed, hlast⟩ := meets_append htimed hr
  obtain ⟨hw, hI⟩ := observed_invariant derive member (I := fun m _ _ x f => Judged m x f)
    (fun id => judged_none _ _)
    (fun s e s' id hw hc hs hI => judged_step derive hw hs (hc.1 id) hc.2 hI)
    (meets_and htimed hm) hr
  simp only [step] at hplan
  split_ifs at hplan with hb
  cases hplan
  obtain ⟨key, c, hc, ha⟩ := mem_plan.mp ha
  have hkey : a.chatIdHex = key :=
    (congrArg Prod.fst (plan_action ha).1).trans (hw.numbered.keyed key c hc)
  have hnone : flightAt s.session key = none := by simp_all [flightAt]
  have hjudged : Judged (s.memory key) (some c) none := by
    have h := hI key
    unfold Local.at at h
    rwa [hc, hnone] at h
  rw [hkey]
  obtain ⟨hent, hempty, hgone⟩ := planned_stale hjudged (hlast.1 key) ha hk hstale
  exact ⟨hent, by simpa [peersOf, hc] using hempty, hgone⟩

/-- A peer comes and goes in group 7; the client leaves, and joins again while
    the cell retires. The new group 8 has no peer. -/
def freshMembershipRun : List Event :=
  joinedRun ++ [.op (.onPeerJoin 7 3 "ab" 1200), .op (.onPeerExit 7 3 false 1300),
    .op (.requestLeave sampleId 95000), .plan 95000, .report (sampleLeave .left 2 1) .left 95000,
    .op (.requestJoin sampleSeed "n" "0123abcd" 95050), .op (.onRetired sampleId 7 95100),
    .plan 95100, .report (sampleAction .join 2 2) (.issued 8 true) 95100,
    .op (.onSelfJoin 8 95200)]

theorem left_as_stale_at_once : ∃ s s' a,
    exec (observedStep sampleDerive member) ⟨{}, fun _ => {}⟩ freshMembershipRun = some s ∧
    NonDecreasing (freshMembershipRun ++ [.plan 95300]) ∧
    step sampleDerive s.session (.plan 95300) = some s' ∧ a ∈ s'.batch ∧ a.kind = .leave ∧
    a.reason = .stale ∧ ¬StaleJustified s a.chatIdHex 95300 := by
  have hrun : ((exec (observedStep sampleDerive member) ⟨{}, fun _ => {}⟩ freshMembershipRun).any
      fun s => (s.memory sampleId).entered = false ∧
        (step sampleDerive s.session (.plan 95300)).any fun s' =>
          { sampleLeave .stale 2 2 with groupNumber := 8 } ∈ s'.batch) = true := by
    decide
  obtain ⟨s, hs, h⟩ := (Option.any_eq_true _ _).mp hrun
  simp only [decide_eq_true_eq] at h
  obtain ⟨s', hs', ha⟩ := (Option.any_eq_true _ _).mp h.2
  refine ⟨s, s', _, hs, by decide, hs', of_decide_eq_true ha, rfl, rfl, fun hj => ?_⟩
  have hent : (s.memory sampleId).entered = true := hj.1
  simp [h.1] at hent

/-- The last peer of group 7 goes, and the map stays empty. -/
def emptiedRun : List Event :=
  joinedRun ++ [.op (.onPeerJoin 7 3 "ab" 1200), .op (.onPeerExit 7 3 false 1300)]

theorem emptied_group_left_as_stale : ∃ s s' a,
    exec (observedStep sampleDerive member) ⟨{}, fun _ => {}⟩ emptiedRun = some s ∧
    step sampleDerive s.session (.plan 91300) = some s' ∧ a ∈ s'.batch ∧ a.kind = .leave ∧
    a.reason = .stale ∧ StaleJustified s a.chatIdHex 91300 := by
  have hrun : ((exec (observedStep sampleDerive member) ⟨{}, fun _ => {}⟩ emptiedRun).any
      fun s => (step sampleDerive s.session (.plan 91300)).any fun s' =>
        sampleLeave .stale 2 1 ∈ s'.batch) = true := by decide
  obtain ⟨s, hs, h⟩ := (Option.any_eq_true _ _).mp hrun
  obtain ⟨s', hs', ha⟩ := (Option.any_eq_true _ _).mp h
  have hmem := of_decide_eq_true ha
  exact ⟨s, s', _, hs, hs', hmem, rfl, rfl,
    stale_leave_justified sampleDerive emptiedRun s s' 91300 _ (by decide)
      (by decide) hs hs' hmem rfl rfl⟩

end Tim2Tox.RendezvousSession
