import Tim2Tox.RendezvousAttempts
import Tim2Tox.RendezvousLife
import Tim2Tox.RendezvousStaleness

set_option autoImplicit false

/-!
# The retry window

A start needs a failure before the next one, and every failure inside a retry
window is counted, so the joins of a cell between two resets of its counter
are bounded by the counter. Nothing is assumed of the driver here.
-/
namespace Tim2Tox.RendezvousGroups

/-- The stale timer of a joined cell fires. -/
def Cell.goesStale (now : Ms) (c : Cell) : Bool :=
  c.state = .joined && c.idle && c.hadPeers && c.peers.isEmpty && now - c.emptySinceMs ≥ kStaleMs

/-- The retirement of the cell counts as a failure: none was recorded before it. -/
def Cell.retireFails (c : Cell) : Bool :=
  !c.rejoinAfterRetire && !(c.leaveForgets || c.retireReason = .left) &&
    c.retireReason ≠ .refound && !c.stateBeforeRetire.waits

/-- A failure of `c` at `now` restarts its retry window. -/
def Cell.overdue (now : Ms) (c : Cell) : Bool := now - c.retryWindowStartMs > kRetryWindowMs

end Tim2Tox.RendezvousGroups

namespace Tim2Tox.RendezvousSession
open RendezvousCodec RendezvousGroups LabelledRuns

/-- The operations a client asks for, and the callbacks that make a join real. -/
def disturbing : Op → Bool
  | .requestJoin .. | .requestLeave .. | .requestLeaveAll .. | .onSelfJoin .. | .onPeerJoin .. =>
    true
  | _ => false

/-- Such an operation reaches the cell of `id`. A leave-all begins with the
    bump of the generation. -/
def disturbs (derive : Seed → Option ChatId) (s : Session) (id : ChatIdHex) : Event → Bool
  | .op o => o = .bumpGeneration || (disturbing o && o.hits derive s.registry id)
  | _ => false

/-! ## Failures -/

/-- The event runs `EnterBackoffLocked` on the cell `c` of `id`. -/
def fails (r : Registry) (id : ChatIdHex) (c : Cell) : Event → Bool
  | .op (.onJoinFail n _ _) | .op (.onKickedSelf n _) =>
    (activeCell r n).any fun entry => entry.1 = id
  | .op (.onRetired i n _) =>
    i = id && c.state = .retiring && c.groupNumber = n && c.retireFails
  | .plan now => c.goesStale now
  | .report a (.issued n ok) _ =>
    a.chatIdHex = id && c.awaits r.generation a.generation a.attempt && !(ok && n ≠ noGroup) &&
      (a.kind = .join || (a.kind = .found && !c.pendingLeave))
  | .report a .left now =>
    a.chatIdHex = id && c.groupNumber = a.groupNumber && a.groupNumber = noGroup &&
      (c.leaveIssued a.reason now).retireFails
  | _ => false

/-- The event is a failure more than `kRetryWindowMs` after the start of the
    retry window of the cell. -/
def lateFailure (s : Session) (id : ChatIdHex) (e : Event) : Bool :=
  s.registry.cells[id]?.any fun c => fails s.registry id c e && e.time.any fun now => c.overdue now

def entersUnavailable (s s' : Session) (id : ChatIdHex) : Bool :=
  stateOf s'.registry id = some .unavailable && stateOf s.registry id ≠ some .unavailable

/-! ## Planned starts -/

/-- The times of the starts of `id` in one step. -/
def startsOf (kinds : ActionKind → Bool) (id : ChatIdHex) (s : Session) : Event → List Ms
  | .plan now =>
    ((plan s.registry now).2.filter fun a => a.chatIdHex = id && kinds a.kind).map fun _ => now
  | _ => []

section
variable (derive : Seed → Option ChatId)

/-- The times at which `Plan` returns an action of those kinds for `id` along a run. -/
def startTimes (kinds : ActionKind → Bool) (id : ChatIdHex) : Session → List Event → List Ms
  | _, [] => []
  | s, e :: es => match step derive s e with
    | none => []
    | some u => startsOf kinds id s e ++ startTimes kinds id u es

def joinTimes : ChatIdHex → Session → List Event → List Ms := startTimes derive (· = .join)

/-- The retry window of `id` goes on: no request, no confirmed join, no failure
    beyond the window and no entry into `kUnavailable`. -/
def windowOpen (id : ChatIdHex) (s : Session) (e : Event) : Bool :=
  !disturbs derive s id e && !lateFailure s id e &&
    (step derive s e).all fun s' => !entersUnavailable s s' id

end

theorem startTimes_cons {derive : Seed → Option ChatId} {kinds : ActionKind → Bool}
    {id : ChatIdHex} {s u : Session} {e : Event} {es : List Event} (h : step derive s e = some u) :
    startTimes derive kinds id s (e :: es) =
      startsOf kinds id s e ++ startTimes derive kinds id u es := by
  rw [startTimes, h]

/-- What stands for `id` in a batch with one action for each chat id. -/
theorem filter_batch {batch : List Action} (h : (batch.map Action.chatIdHex).Nodup)
    (kinds : ActionKind → Bool) (id : ChatIdHex) :
    batch.filter (fun a => a.chatIdHex = id && kinds a.kind) =
      (batch.find? fun a => a.chatIdHex = id).toList.filter fun a => kinds a.kind := by
  induction batch with
  | nil => rfl
  | cons a batch ih =>
    obtain ⟨hnot, hrest⟩ := List.nodup_cons.mp h
    by_cases hid : a.chatIdHex = id
    · have hnone : batch.filter (fun b => b.chatIdHex = id && kinds b.kind) = [] := by
        rw [List.filter_eq_nil_iff]
        intro b hb hcond
        simp only [Bool.and_eq_true, decide_eq_true_eq] at hcond
        exact hnot (List.mem_map.mpr ⟨b, hb, hcond.1.trans hid.symm⟩)
      rw [List.find?_cons_of_pos (by simpa using hid), List.filter_cons, hnone]
      cases hk : kinds a.kind <;> simp [hid, hk]
    · rw [List.find?_cons_of_neg (by simpa using hid), List.filter_cons, ih hrest]
      simp [hid]

theorem startsOf_plan {s : Session} (hw : WellFormed s) (kinds : ActionKind → Bool)
    (id : ChatIdHex) (now : Ms) : startsOf kinds id s (.plan now) =
      (((s.registry.cells[id]?.bind fun c => (planCell s.registry now c).2).toList.filter
        fun a => kinds a.kind).map fun _ => now) := by
  rw [startsOf, filter_batch (plan_distinct hw.numbered now), ← flightAt_plan hw.numbered now id]
  rfl

/-! ## The counter against the joins -/

/-- Every join planned since, at the times `joins`, is paid for by the counter. -/
structure Spent (joins : List Ms) (clock : Ms) (c : Cell) : Prop where
  available : c.state ≠ .unavailable
  rejoin : c.rejoinAfterRetire = false
  counted : joins.length ≤ c.retries + 1
  pending : c.pendingJoin = true → joins.length ≤ c.retries ∧ c.retries ≤ kMaxRetriesPerWindow ∧
    ∀ t ∈ joins, t.toNat + kBackoffMs.toNat ≤ clock.toNat
  waiting : c.state = .backoff → joins.length ≤ c.retries ∧ c.retries ≤ kMaxRetriesPerWindow ∧
    c.stateSinceMs ≤ clock ∧ ∀ t ∈ joins, t ≤ c.stateSinceMs
  retiring : c.state = .retiring → c.pendingJoin = false ∧ c.stateBeforeRetire ≠ .unavailable ∧
    (c.stateBeforeRetire = .backoff →
      joins.length ≤ c.retries ∧ c.retries ≤ kMaxRetriesPerWindow)

structure Counted (joins : List Ms) (clock : Ms) (x : Option Cell) : Prop where
  few : joins.length ≤ kMaxRetriesPerWindow + 1
  spaced : joins.Pairwise fun t t' => t.toNat + kBackoffMs.toNat ≤ t'.toNat
  past : ∀ t ∈ joins, t ≤ clock
  spent : joins ≠ [] → ∀ c, x = some c → Spent joins clock c

/-- An effect the schedule of a cell does not see. -/
structure SameSchedule (c c' : Cell) : Prop where
  state : c'.state = c.state
  rejoin : c'.rejoinAfterRetire = c.rejoinAfterRetire
  retries : c'.retries = c.retries
  join : c'.pendingJoin = c.pendingJoin
  since : c'.stateSinceMs = c.stateSinceMs
  before : c'.stateBeforeRetire = c.stateBeforeRetire

theorem spent_same {joins : List Ms} {clock clock' : Ms} {c c' : Cell} (h : Spent joins clock c)
    (hclock : clock ≤ clock') (hs : SameSchedule c c') : Spent joins clock' c' := by
  have hle : clock.toNat ≤ clock'.toNat := UInt64.le_iff_toNat_le.mp hclock
  refine ⟨hs.state ▸ h.available, hs.rejoin ▸ h.rejoin, hs.retries ▸ h.counted, ?_, ?_, ?_⟩
  · intro hp
    rw [hs.join] at hp
    obtain ⟨hn, hmax, hpast⟩ := h.pending hp
    rw [hs.retries]
    refine ⟨hn, hmax, fun t ht => ?_⟩
    have hold := hpast t ht
    omega
  · intro hb
    rw [hs.state] at hb
    obtain ⟨hn, hmax, hsince, hpast⟩ := h.waiting hb
    rw [hs.retries, hs.since]
    exact ⟨hn, hmax, UInt64.le_trans hsince hclock, hpast⟩
  · intro hr
    rw [hs.state] at hr
    rw [hs.join, hs.before, hs.retries]
    exact h.retiring hr

theorem spent_later {joins : List Ms} {clock clock' : Ms} {c : Cell} (h : Spent joins clock c)
    (hclock : clock ≤ clock') : Spent joins clock' c :=
  spent_same h hclock ⟨rfl, rfl, rfl, rfl, rfl, rfl⟩

/-- A failure inside the window is counted. -/
theorem enterBackoff_counts {now : Ms} {c : Cell} (h : c.overdue now = false) :
    (Cell.enterBackoff now c).retries = c.retries + 1 := by
  have hw : ¬now - c.retryWindowStartMs > kRetryWindowMs := by simpa [Cell.overdue] using h
  unfold Cell.enterBackoff
  rw [if_neg hw]

theorem enterBackoff_exhausted (now : Ms) (c : Cell) :
    (Cell.enterBackoff now c).state =
      if (Cell.enterBackoff now c).retries > kMaxRetriesPerWindow then .unavailable
      else .backoff := rfl

theorem enterBackoff_keeps (now : Ms) (c : Cell) :
    (Cell.enterBackoff now c).rejoinAfterRetire = c.rejoinAfterRetire ∧
      (Cell.enterBackoff now c).stateSinceMs = now ∧
      (Cell.enterBackoff now c).leaveReason = c.leaveReason := by
  obtain ⟨w, n, h⟩ := enterBackoff_eq now c
  refine ⟨?_, ?_, ?_⟩ <;> rw [h]

theorem spent_failed {joins : List Ms} {now : Ms} {c : Cell} (hover : c.overdue now = false)
    (hrejoin : c.rejoinAfterRetire = false) (hcount : joins.length ≤ c.retries + 1)
    (hpend : c.pendingJoin = true → ∀ t ∈ joins, t.toNat + kBackoffMs.toNat ≤ now.toNat)
    (hpast : ∀ t ∈ joins, t ≤ now)
    (hopen : (Cell.enterBackoff now c).state ≠ .unavailable) :
    Spent joins now (Cell.enterBackoff now c) := by
  have hn := enterBackoff_counts hover
  obtain ⟨-, -, hr, -, hpj, -⟩ := enterBackoff_rests now c
  obtain ⟨hrej, hsince, -⟩ := enterBackoff_keeps now c
  have hmax : (Cell.enterBackoff now c).retries ≤ kMaxRetriesPerWindow := by
    by_contra hgt
    exact hopen ((enterBackoff_exhausted now c).trans (if_pos (by omega)))
  refine ⟨hopen, hrej.trans hrejoin, by omega, ?_, ?_, fun h => absurd h hr⟩
  · intro hp
    rw [hpj] at hp
    exact ⟨by omega, hmax, hpend hp⟩
  · intro _
    rw [hsince]
    exact ⟨by omega, hmax, UInt64.le_refl _, hpast⟩

/-- A cell that joins or is joined waits for nothing. -/
theorem spent_running {joins : List Ms} {clock clock' : Ms} {c c' : Cell}
    (h : Spent joins clock c) (hclock : clock ≤ clock')
    (hst : c'.state = .joining ∨ c'.state = .joined)
    (hrejoin : c'.rejoinAfterRetire = c.rejoinAfterRetire) (hretries : c'.retries = c.retries)
    (hjoin : c'.pendingJoin = true → c.pendingJoin = true) : Spent joins clock' c' := by
  have hle : clock.toNat ≤ clock'.toNat := UInt64.le_iff_toNat_le.mp hclock
  have hne : ∀ st : State, st ≠ .joining → st ≠ .joined → c'.state ≠ st := by
    intro st h1 h2 heq
    rcases hst with hst | hst <;> rw [hst] at heq
    · exact h1 heq.symm
    · exact h2 heq.symm
  refine ⟨hne _ (by simp) (by simp), hrejoin.trans h.rejoin, hretries ▸ h.counted, ?_,
    fun hb => absurd hb (hne _ (by simp) (by simp)),
    fun hr => absurd hr (hne _ (by simp) (by simp))⟩
  intro hp
  obtain ⟨hn, hmax, hpast⟩ := h.pending (hjoin hp)
  rw [hretries]
  refine ⟨hn, hmax, fun t ht => ?_⟩
  have hold := hpast t ht
  omega

/-! ## Retirement -/

/-- How a cell that was not asked for again comes out of its retirement. -/
theorem finishRetire_unasked {nextAttempt : ℕ} {now : Ms} {c : Cell}
    (h : c.rejoinAfterRetire = false) :
    c.finishRetire nextAttempt now = none ∨
    (c.retireReason = .refound ∧ c.finishRetire nextAttempt now = some { c with
      groupNumber := noGroup, retireReason := .unset
      state := .joining, pendingFound := true, attempt := nextAttempt, stateSinceMs := now }) ∨
    (c.stateBeforeRetire.waits = true ∧ c.finishRetire nextAttempt now = some { c with
      groupNumber := noGroup, retireReason := .unset
      state := c.stateBeforeRetire, stateSinceMs := now }) ∨
    (c.retireFails = true ∧ c.finishRetire nextAttempt now =
      some (Cell.enterBackoff now { c with groupNumber := noGroup, retireReason := .unset })) := by
  unfold Cell.finishRetire Cell.retireFails
  dsimp only
  split_ifs with hj hf hr hb
  · simp [h] at hj
  · exact .inl rfl
  · exact .inr (.inl ⟨hr, rfl⟩)
  · refine .inr (.inr (.inl ⟨?_, rfl⟩))
    rcases hb with hb | hb <;> rw [hb] <;> rfl
  · have hw : c.stateBeforeRetire.waits = false := by
      cases hs : c.stateBeforeRetire <;> simp_all [State.waits]
    exact .inr (.inr (.inr ⟨by simp [h, hf, hr, hw], rfl⟩))

theorem spent_retired {joins : List Ms} {nextAttempt : ℕ} {now : Ms} {c c' : Cell}
    (hrejoin : c.rejoinAfterRetire = false) (hjoin : c.pendingJoin = false)
    (hcount : joins.length ≤ c.retries + 1) (hpast : ∀ t ∈ joins, t ≤ now)
    (hbefore : c.stateBeforeRetire = .backoff →
      joins.length ≤ c.retries ∧ c.retries ≤ kMaxRetriesPerWindow)
    (hover : c.retireFails = true → c.overdue now = false) (hopen : c'.state ≠ .unavailable)
    (he : c.finishRetire nextAttempt now = some c') : Spent joins now c' := by
  obtain hn | ⟨-, hn⟩ | ⟨hw, hn⟩ | ⟨hf, hn⟩ := finishRetire_unasked (c := c) hrejoin <;>
    rw [hn] at he <;> cases he
  · exact ⟨by simp, hrejoin, hcount, fun hp => by simp [hjoin] at hp, by simp, by simp⟩
  · dsimp only at hopen
    refine ⟨hopen, hrejoin, hcount, fun hp => by simp [hjoin] at hp, fun hb => ?_, fun hr => ?_⟩
    · obtain ⟨hle, hmax⟩ := hbefore hb
      exact ⟨hle, hmax, UInt64.le_refl _, hpast⟩
    · dsimp only at hr
      rw [hr] at hw
      cases hw
  · exact spent_failed (hover hf) hrejoin hcount (fun hp => by simp [hjoin] at hp) hpast hopen

/-! ## Operations and reports -/

theorem spent_expelled {joins : List Ms} {clock now : Ms} {reason : Reason} {c : Cell}
    (h : Spent joins clock c) (hpast : ∀ t ∈ joins, t ≤ now) (hover : c.overdue now = false)
    (hopen : (c.expelled reason now).state ≠ .unavailable) :
    Spent joins now (c.expelled reason now) :=
  spent_failed hover h.rejoin h.counted (by simp) hpast hopen

theorem spent_op {derive : Seed → Option ChatId} {r : Registry} {id : ChatIdHex} {o : Op}
    {c c' : Cell} {joins : List Ms} {clock : Ms} (hfree : driven o = false)
    (hcalm : disturbing o = false) (hclock : clock ≤ (opTime o).getD clock)
    (h : Spent joins clock c) (hpast : ∀ t ∈ joins, t ≤ clock)
    (hover : fails r id c (.op o) = true → ∀ now, opTime o = some now → c.overdue now = false)
    (hopen : c'.state ≠ .unavailable) (he : OpEffect derive r id o (some c) (some c')) :
    Spent joins ((opTime o).getD clock) c' := by
  have hlater : ∀ t ∈ joins, t ≤ (opTime o).getD clock := fun t ht =>
    UInt64.le_trans (hpast t ht) hclock
  generalize hy : some c' = y at he
  cases he with
  | missed =>
    cases hy
    exact spent_later h hclock
  | cleared => cases hy
  | present | deferred | selfJoin | peerJoin => simp [disturbing] at hcalm
  | leaveAsked hask => rcases hask with rfl | rfl <;> simp [disturbing] at hcalm
  | planned | joinIssued | foundIssued | left | kept => simp [driven] at hfree
  | retired =>
    rename_i n now
    unfold Cell.retired at hy
    split_ifs at hy with hr
    · obtain ⟨hj, -, hb⟩ := h.retiring hr.1
      refine spent_retired h.rejoin hj h.counted hlater hb (fun hf => ?_) hopen hy.symm
      exact hover (by simp [fails, hr.1, hr.2, hf]) now rfl
    · cases hy
      exact spent_later h hclock
  | peerExit =>
    rename_i peer self now _
    obtain ⟨-, hx⟩ | ⟨-, b, co, hx⟩ := peerExit_cases peer self now c <;> rw [hx] at hy <;> cases hy
    · exact spent_later h hclock
    · exact spent_same h hclock ⟨rfl, rfl, rfl, rfl, rfl, rfl⟩
  | joinFail ha =>
    cases hy
    exact spent_expelled h hlater (hover (by simp [fails, ha]) _ rfl) hopen
  | kicked ha =>
    cases hy
    exact spent_expelled h hlater (hover (by simp [fails, ha]) _ rfl) hopen
  | packet =>
    rename_i peer pk isPrivate payload now _
    obtain ⟨peers, budget, -, hx⟩ := packet_eq peer pk isPrivate payload now c
    rw [hx] at hy
    cases hy
    exact spent_same h hclock ⟨rfl, rfl, rfl, rfl, rfl, rfl⟩

/-- A start that toxcore refused, in a cell that may still owe a join. -/
theorem spent_startFailed {joins : List Ms} {clock now : Ms} {c : Cell} (h : Spent joins clock c)
    (hclock : clock ≤ now) (hpast : ∀ t ∈ joins, t ≤ clock) (hover : c.overdue now = false)
    (hopen : (Cell.enterBackoff now { c with groupNumber := noGroup }).state ≠ .unavailable) :
    Spent joins now (Cell.enterBackoff now { c with groupNumber := noGroup }) := by
  refine spent_failed hover h.rejoin h.counted (fun hp t ht => ?_)
    (fun t ht => UInt64.le_trans (hpast t ht) hclock) hopen
  have hold := (h.pending hp).2.2 t ht
  have hle : clock.toNat ≤ now.toNat := UInt64.le_iff_toNat_le.mp hclock
  omega

theorem spent_joinIssued {joins : List Ms} {clock now : Ms} {n : GroupNumber} {ok : Bool} {c : Cell}
    (h : Spent joins clock c) (hclock : clock ≤ now) (hpast : ∀ t ∈ joins, t ≤ clock)
    (hover : (ok && n ≠ noGroup) = false → c.overdue now = false)
    (hopen : (c.joinIssued n ok now).state ≠ .unavailable) :
    Spent joins now (c.joinIssued n ok now) := by
  unfold Cell.joinIssued at hopen ⊢
  split_ifs at hopen ⊢ with hok
  · exact spent_running h hclock (.inl rfl) rfl rfl id
  · exact spent_startFailed h hclock hpast (hover (by simpa using hok)) hopen

theorem spent_foundIssued {joins : List Ms} {clock now : Ms} {n : GroupNumber} {ok : Bool}
    {c : Cell} (h : Spent joins clock c) (hclock : clock ≤ now) (hpast : ∀ t ∈ joins, t ≤ clock)
    (hover : (ok && n ≠ noGroup) = false → c.overdue now = false)
    (hopen : (c.foundIssued n ok now).state ≠ .unavailable) :
    Spent joins now (c.foundIssued n ok now) := by
  unfold Cell.foundIssued at hopen ⊢
  split_ifs at hopen ⊢ with hok
  · exact spent_running h hclock (.inr rfl) rfl rfl id
  · exact spent_startFailed h hclock hpast (hover (by simpa using hok)) hopen

theorem spent_left {joins : List Ms} {clock now : Ms} {nextAttempt : ℕ} {reason : Reason}
    {n : GroupNumber} {c c' : Cell} (h : Spent joins clock c) (hclock : clock ≤ now)
    (hpast : ∀ t ∈ joins, t ≤ clock)
    (hover : c.groupNumber = n → n = noGroup → (c.leaveIssued reason now).retireFails = true →
      c.overdue now = false)
    (hopen : c'.state ≠ .unavailable) (he : c.left nextAttempt reason now n = some c') :
    Spent joins now c' := by
  have hlater : ∀ t ∈ joins, t ≤ now := fun t ht => UInt64.le_trans (hpast t ht) hclock
  have hbefore : c.state = .backoff →
      joins.length ≤ c.retries ∧ c.retries ≤ kMaxRetriesPerWindow := fun hb =>
    ⟨(h.waiting hb).1, (h.waiting hb).2.1⟩
  unfold Cell.left at he
  split_ifs at he with hg hn
  · cases he
    exact spent_later h hclock
  · exact spent_retired (c := c.leaveIssued reason now) h.rejoin rfl h.counted hlater hbefore
      (hover (by simpa using hg) hn) hopen he
  · cases he
    exact ⟨by simp, h.rejoin, h.counted, by simp [Cell.leaveIssued], by simp,
      fun _ => ⟨rfl, h.available, hbefore⟩⟩

/-! ## The planner -/

theorem timers_busy {now : Ms} {c : Cell} (h : c.idle = false) : c.timers now = c := by
  have hp : (c.pendingLeave || c.pendingJoin || c.pendingFound) = true := by
    simpa only [Cell.idle, Bool.not_eq_false'] using h
  unfold Cell.timers
  rw [if_pos hp]

theorem timers_backoff {now : Ms} {c : Cell} (hidle : c.idle = true) (hs : c.state = .backoff) :
    c.timers now = if now - c.stateSinceMs ≥ kBackoffMs then { c with pendingJoin := true }
      else c := by
  have hp : ¬(c.pendingLeave || c.pendingJoin || c.pendingFound) = true := by
    simpa [Cell.idle] using hidle
  unfold Cell.timers
  rw [if_neg hp, hs]

theorem timers_unavailable {now : Ms} {c : Cell} (hidle : c.idle = true)
    (hs : c.state = .unavailable) :
    c.timers now = if now - c.stateSinceMs ≥ kUnavailableMs then
      { c with retries := 0, retryWindowStartMs := now, pendingJoin := true } else c := by
  have hp : ¬(c.pendingLeave || c.pendingJoin || c.pendingFound) = true := by
    simpa [Cell.idle] using hidle
  unfold Cell.timers
  rw [if_neg hp, hs]

/-- The stale timer leaves a leave owed. -/
theorem timers_stale {now : Ms} {c : Cell} (hidle : c.idle = true) (hs : c.state = .joined) :
    c.timers now = if c.goesStale now then
      Cell.enterBackoff now { c with pendingLeave := true, leaveReason := .stale } else c := by
  have hp : ¬(c.pendingLeave || c.pendingJoin || c.pendingFound) = true := by
    simpa [Cell.idle] using hidle
  unfold Cell.timers
  rw [if_neg hp, hs]
  dsimp only
  by_cases hst : c.goesStale now = true
  · rw [if_pos hst]
    simp only [Cell.goesStale, Bool.and_eq_true, decide_eq_true_eq] at hst
    exact if_pos ⟨hst.1.1.2, hst.1.2, hst.2⟩
  · rw [if_neg hst]
    refine if_neg fun hall => hst ?_
    simp only [Cell.goesStale, Bool.and_eq_true, decide_eq_true_eq]
    exact ⟨⟨⟨⟨hs, hidle⟩, hall.1⟩, hall.2.1⟩, hall.2.2⟩

/-- Only the stale timer makes a cell unavailable, and the leave it owes goes first. -/
theorem timers_available {r : Registry} {now : Ms} {c : Cell} (hr : c.state ≠ .retiring)
    (h : c.state ≠ .unavailable) (hopen : (planCell r now c).1.state ≠ .unavailable) :
    (c.timers now).state ≠ .unavailable := by
  intro hst
  have hl : (c.timers now).pendingLeave = true := by
    obtain he | ⟨-, hs, -, -, -, he⟩ | ⟨-, -, -, -, -, he⟩ | ⟨-, -, w, n, he⟩ := timers_cases now c
    · exact absurd (he ▸ hst) h
    · rw [he] at hst
      simp [hs] at hst
    · rw [he]
      exact enterBackoff_pendingLeave _ _
    · rw [he] at hst
      exact absurd hst h
  refine hopen ?_
  unfold planCell Cell.plan
  rw [if_neg hr]
  obtain he | ⟨-, he⟩ | ⟨hno, -⟩ := emit_cases r.accepting r.generation (blocked r c.chatIdHex) now
    (c.timers now)
  · rw [he]
    exact hst
  · rw [he]
    exact hst
  · simp [hl] at hno

theorem spent_timers {joins : List Ms} {clock now : Ms} {c : Cell} (h : Spent joins clock c)
    (hclock : clock ≤ now) (hpast : ∀ t ∈ joins, t ≤ clock)
    (hover : c.goesStale now = true → c.overdue now = false)
    (hopen : (c.timers now).state ≠ .unavailable) : Spent joins now (c.timers now) := by
  cases hidle : c.idle with
  | false =>
    rw [timers_busy hidle]
    exact spent_later h hclock
  | true =>
    have hnone := (idle_iff c).mp hidle
    cases hs : c.state with
    | joining =>
      obtain he | ⟨-, -, -, -, -, he⟩ | ⟨-, hs', -⟩ | ⟨-, hs', -⟩ := timers_cases now c
      · rw [he]
        exact spent_later h hclock
      · rw [he]
        exact spent_running h hclock (.inl hs) rfl rfl id
      · simp [hs] at hs'
      · simp [hs, State.waits] at hs'
    | joined =>
      rw [timers_stale hidle hs] at hopen ⊢
      split_ifs at hopen ⊢ with hst
      · exact spent_failed (hover hst) h.rejoin h.counted (fun hp => by simp [hnone.2.1] at hp)
          (fun t ht => UInt64.le_trans (hpast t ht) hclock) hopen
      · exact spent_later h hclock
    | backoff =>
      rw [timers_backoff hidle hs]
      obtain ⟨hn, hmax, hsince, hstart⟩ := h.waiting hs
      split_ifs with hdue
      · refine ⟨h.available, h.rejoin, h.counted, fun _ => ⟨hn, hmax, fun t ht => ?_⟩,
          fun _ => ⟨hn, hmax, UInt64.le_trans hsince hclock, hstart⟩, fun hr => ?_⟩
        · have hle := UInt64.le_iff_toNat_le.mp (hstart t ht)
          have hgap := elapsed_of_sub (UInt64.le_trans hsince hclock) hdue
          omega
        · simp [hs] at hr
      · exact spent_later h hclock
    | unavailable => exact absurd hs h.available
    | retiring =>
      obtain he | ⟨-, hs', -⟩ | ⟨-, hs', -⟩ | ⟨-, hs', -⟩ := timers_cases now c
      · rw [he]
        exact spent_later h hclock
      · simp [hs] at hs'
      · simp [hs] at hs'
      · simp [hs, State.waits] at hs'

theorem timers_rejoin (now : Ms) (c : Cell) :
    (c.timers now).rejoinAfterRetire = c.rejoinAfterRetire := by
  obtain he | ⟨-, -, -, -, -, he⟩ | ⟨-, -, -, -, -, he⟩ | ⟨-, -, w, n, he⟩ := timers_cases now c <;>
    rw [he]
  exact (enterBackoff_keeps now { c with pendingLeave := true, leaveReason := .stale }).1

theorem counted_later {joins : List Ms} {clock clock' : Ms} {x : Option Cell}
    (h : Counted joins clock x) (hclock : clock ≤ clock') : Counted joins clock' x :=
  ⟨h.few, h.spaced, fun t ht => UInt64.le_trans (h.past t ht) hclock,
    fun hne c hc => spent_later (h.spent hne c hc) hclock⟩

/-- The joins `Plan` adds for one cell. -/
def addedJoins (r : Registry) (now : Ms) (c : Cell) : List Ms :=
  ((planCell r now c).2.toList.filter fun a => a.kind = .join).map fun _ => now

theorem counted_plan {r : Registry} {joins : List Ms} {clock now : Ms} {c : Cell}
    (h : Counted joins clock (some c)) (hclock : clock ≤ now)
    (hrejoin : c.rejoinAfterRetire = true → c.state = .retiring)
    (hover : c.goesStale now = true → c.overdue now = false)
    (hopen : (planCell r now c).1.state = .unavailable → c.state = .unavailable) :
    Counted (joins ++ addedJoins r now c) now (some (planCell r now c).1) := by
  by_cases hr : c.state = .retiring
  · have hp : planCell r now c = (c, none) := if_pos hr
    rw [addedJoins, hp]
    simpa using counted_later h hclock
  have hrej : (c.timers now).rejoinAfterRetire = false := by
    rw [timers_rejoin]
    by_contra hne
    exact hr (hrejoin (by simpa using hne))
  have ht : joins ≠ [] → Spent joins now (c.timers now) := by
    intro hne
    have hold := h.spent hne c rfl
    exact spent_timers hold hclock h.past hover (timers_available hr hold.available
      fun hst => hold.available (hopen hst))
  have hplan : planCell r now c = (c.timers now).emit r.accepting r.generation
    (blocked r c.chatIdHex) now := if_neg hr
  have hlater : ∀ t ∈ joins, t ≤ now := fun t ht => UInt64.le_trans (h.past t ht) hclock
  rw [addedJoins, hplan]
  obtain he | ⟨-, he⟩ | ⟨-, -, -, -, he⟩ := emit_cases r.accepting r.generation
    (blocked r c.chatIdHex) now (c.timers now) <;> rw [he]
  · rw [Option.toList_none, List.filter_nil, List.map_nil, List.append_nil]
    refine ⟨h.few, h.spaced, hlater, ?_⟩
    rintro hne x hx
    cases hx
    exact ht hne
  · have hadd : (([(c.timers now).leaveAction r.generation].filter
        fun a => a.kind = .join).map fun _ => now) = [] := by
      simp [Cell.leaveAction]
    rw [Option.toList_some, hadd, List.append_nil]
    refine ⟨h.few, h.spaced, hlater, ?_⟩
    rintro hne x hx
    cases hx
    exact spent_same (ht hne) (UInt64.le_refl _) ⟨rfl, rfl, rfl, rfl, rfl, rfl⟩
  · cases hj : (c.timers now).pendingJoin with
    | true =>
      have hadd : (([(c.timers now).startAction r.generation].filter
          fun a => a.kind = .join).map fun _ => now) = [now] := by
        simp [Cell.startAction, hj]
      have hpaid : ∀ t ∈ joins, joins.length ≤ (c.timers now).retries ∧
          (c.timers now).retries ≤ kMaxRetriesPerWindow ∧
          t.toNat + kBackoffMs.toNat ≤ now.toNat := by
        intro t hmem
        obtain ⟨hn, hmax, hpast⟩ := (ht (List.ne_nil_of_mem hmem)).pending hj
        exact ⟨hn, hmax, hpast t hmem⟩
      have hcount : joins.length ≤ (c.timers now).retries ∧ joins.length ≤ kMaxRetriesPerWindow := by
        cases joins with
        | nil => simp
        | cons t rest =>
          obtain ⟨hn, hmax, -⟩ := hpaid t List.mem_cons_self
          exact ⟨hn, Nat.le_trans hn hmax⟩
      rw [Option.toList_some, hadd]
      refine ⟨by simpa using hcount.2, ?_, ?_, ?_⟩
      · rw [List.pairwise_append]
        refine ⟨h.spaced, List.pairwise_singleton _ _, fun t hmem t' hmem' => ?_⟩
        rw [List.mem_singleton.mp hmem']
        exact (hpaid t hmem).2.2
      · intro t hmem
        obtain hmem | hmem := List.mem_append.mp hmem
        · exact hlater t hmem
        · exact UInt64.le_of_eq (List.mem_singleton.mp hmem)
      · rintro - x hx
        cases hx
        exact ⟨by simp, hrej, by simpa using hcount.1, by simp, by simp, by simp⟩
    | false =>
      have hadd : (([(c.timers now).startAction r.generation].filter
          fun a => a.kind = .join).map fun _ => now) = [] := by
        simp [Cell.startAction, hj]
      rw [Option.toList_some, hadd, List.append_nil]
      refine ⟨h.few, h.spaced, hlater, ?_⟩
      rintro hne x hx
      cases hx
      have hold := ht hne
      refine ⟨hold.available, hold.rejoin, hold.counted, by simp, fun hb => ?_,
        fun hst => absurd hst (timers_state now hr)⟩
      obtain ⟨hn, hmax, -⟩ := hold.waiting hb
      exact ⟨hn, hmax, UInt64.le_refl _, hlater⟩

/-! ## Parked cells -/

/-- Only a retiring cell has a deferred rejoin, and nothing is planned for it. -/
structure Parked (c : Cell) (f : Option Action) : Prop where
  rejoin : c.rejoinAfterRetire = true → c.state = .retiring
  retiring : c.state = .retiring → c.pendingJoin = false ∧ c.pendingFound = false ∧ f = none

def ParkedAt : Local := fun _ _ x f => ∀ c, x = some c → Parked c f

theorem parked_landed {c : Cell} {f : Option Action} (h : Parked c f) : Parked c none :=
  ⟨h.rejoin, fun hr => ⟨(h.retiring hr).1, (h.retiring hr).2.1, rfl⟩⟩

/-- Effects on a cell that neither was nor gets retiring. -/
theorem parked_active {c c' : Cell} {f f' : Option Action} (h : Parked c f)
    (hr : c.state ≠ .retiring) (hrejoin : c'.rejoinAfterRetire = c.rejoinAfterRetire)
    (hr' : c'.state ≠ .retiring) : Parked c' f' :=
  ⟨fun hrej => absurd (h.rejoin (hrejoin.symm.trans hrej)) hr, fun hret => absurd hret hr'⟩

theorem parked_finishRetire {nextAttempt : ℕ} {now : Ms} {c c' : Cell} {f : Option Action}
    (he : c.finishRetire nextAttempt now = some c') : Parked c' f := by
  have hrej : c'.rejoinAfterRetire = false := by
    cases hj : c.rejoinAfterRetire with
    | true =>
      obtain ⟨-, hn⟩ | ⟨hno, -⟩ | ⟨hno, -⟩ | ⟨hno, -⟩ | ⟨hno, -⟩ :=
        finishRetire_cases nextAttempt now c
      · rw [hn] at he
        cases he
        rfl
      all_goals simp [hj] at hno
    | false =>
      obtain hn | ⟨-, hn⟩ | ⟨-, hn⟩ | ⟨-, hn⟩ := @finishRetire_unasked
        nextAttempt now c hj <;> rw [hn] at he <;> cases he
      · exact hj
      · exact hj
      · exact (enterBackoff_keeps _ _).1.trans hj
  exact ⟨fun h => by simp [hrej] at h, fun h => absurd h (finishRetire_state he)⟩

theorem parked_expelled {reason : Reason} {now : Ms} {c : Cell} {f : Option Action}
    (h : Parked c f) (hr : c.state ≠ .retiring) : Parked (c.expelled reason now) f :=
  parked_active h hr (enterBackoff_keeps now _).1 (ne_retiring_of_waits (enterBackoff_waits now _))

theorem parked_op {derive : Seed → Option ChatId} {r : Registry} {id : ChatIdHex} {o : Op}
    {x : Option Cell} {c' : Cell} {f : Option Action} (hfree : driven o = false)
    (hI : ∀ c, x = some c → Parked c f) (h : OpEffect derive r id o x (some c')) :
    Parked c' f := by
  generalize hy : some c' = y at h
  cases h with
  | missed => exact hI c' hy.symm
  | absent | cleared => cases hy
  | created =>
    cases hy
    exact ⟨by simp [newCell], by simp [newCell]⟩
  | present => exact hI c' hy.symm
  | deferred hr =>
    cases hy
    exact ⟨fun _ => hr, (hI _ rfl).retiring⟩
  | leaveAsked =>
    rename_i now c _
    obtain ⟨hr, he⟩ | ⟨-, -, he⟩ | ⟨hr, -, he⟩ := requestLeave_cases now c <;>
      rw [he] at hy <;> cases hy
    · exact ⟨by simp, fun _ => ⟨rfl, rfl, ((hI c rfl).retiring hr).2.2⟩⟩
    · exact ⟨by simp, fun h => absurd h hr⟩
  | planned | joinIssued | foundIssued | left | kept => simp [driven] at hfree
  | retired =>
    unfold Cell.retired at hy
    split_ifs at hy
    · exact parked_finishRetire hy.symm
    · cases hy
      exact hI _ rfl
  | selfJoin ha =>
    cases hy
    exact parked_active (hI _ rfl) (activeCell_some ha).2.2.2 rfl (by simp [Cell.selfJoin])
  | peerJoin ha =>
    rename_i peer pk now c
    have hr := (activeCell_some ha).2.2.2
    obtain ⟨-, he⟩ | ⟨-, b, co, since, retries, he⟩ := peerJoin_cases peer pk now c <;>
      rw [he] at hy <;> cases hy
    · exact hI c rfl
    · refine parked_active (hI c rfl) hr rfl ?_
      dsimp only
      split_ifs
      · simp
      · exact hr
  | peerExit ha =>
    rename_i peer self now c
    have hr := (activeCell_some ha).2.2.2
    obtain ⟨-, he⟩ | ⟨-, b, co, he⟩ := peerExit_cases peer self now c <;> rw [he] at hy <;> cases hy
    · exact hI c rfl
    · exact parked_active (hI c rfl) hr rfl hr
  | joinFail ha =>
    cases hy
    exact parked_expelled (hI _ rfl) (activeCell_some ha).2.2.2
  | kicked ha =>
    cases hy
    exact parked_expelled (hI _ rfl) (activeCell_some ha).2.2.2
  | packet ha =>
    rename_i n peer pk isPrivate payload now c
    have hr := (activeCell_some ha).2.2.2
    obtain ⟨peers, budget, -, he⟩ := packet_eq peer pk isPrivate payload now c
    rw [he] at hy
    cases hy
    exact parked_active (hI c rfl) hr rfl hr

theorem plan_rejoin (r : Registry) (now : Ms) (c : Cell) :
    (planCell r now c).1.rejoinAfterRetire = c.rejoinAfterRetire := by
  unfold planCell Cell.plan
  split_ifs
  · rfl
  · rw [← timers_rejoin now c]
    obtain he | ⟨-, he⟩ | ⟨-, -, -, -, he⟩ := emit_cases r.accepting r.generation
      (blocked r c.chatIdHex) now (c.timers now) <;> rw [he]

/-- A recorded result finds a cell that does not retire. -/
theorem parked_issued {generation : ℕ} {record : Cell → Cell} {refused : Cell → Bool}
    {a : Action} {c : Cell} {f : Option Action} (h : Parked c f)
    (hrejoin : (record c).rejoinAfterRetire = c.rejoinAfterRetire)
    (hr' : (record c).state ≠ .retiring) :
    Parked (c.issued generation record refused a.generation a.attempt) none := by
  unfold Cell.issued
  split_ifs with haw
  · simp only [Cell.awaits, Bool.and_eq_true, decide_eq_true_eq] at haw
    exact parked_active h haw.1.2 hrejoin hr'
  · exact parked_landed h

theorem joinIssued_rejoin (n : GroupNumber) (ok : Bool) (now : Ms) (c : Cell) :
    (c.joinIssued n ok now).rejoinAfterRetire = c.rejoinAfterRetire := by
  obtain ⟨-, he⟩ | he := joinIssued_cases n ok now c <;> rw [he]
  exact (enterBackoff_keeps now _).1

theorem foundIssued_rejoin (n : GroupNumber) (ok : Bool) (now : Ms) (c : Cell) :
    (c.foundIssued n ok now).rejoinAfterRetire = c.rejoinAfterRetire := by
  obtain ⟨-, he⟩ | he := foundIssued_cases n ok now c <;> rw [he]
  exact (enterBackoff_keeps now _).1

theorem parked_step (derive : Seed → Option ChatId) (s : Session) (e : Event) (s' : Session)
    (id : ChatIdHex) (hw : WellFormed s) (hs : step derive s e = some s')
    (hI : ParkedAt.at s id) : ParkedAt.at s' id := by
  have he := step_effect derive hw hs id
  unfold Local.at ParkedAt at hI ⊢
  generalize s.registry.cells[id]? = x at he hI
  generalize flightAt s id = f at he hI
  generalize s'.registry.cells[id]? = x' at he ⊢
  generalize flightAt s' id = f' at he ⊢
  rintro c' hx'
  cases he with
  | op hfree _ h =>
    subst hx'
    exact parked_op hfree hI h
  | cleared | unplanned | unheard => cases hx'
  | planned =>
    rename_i now c
    cases hx'
    by_cases hr : c.state = .retiring
    · have hp : planCell s.registry now c = (c, none) := if_pos hr
      rw [hp]
      exact hI c rfl
    · exact parked_active (hI c rfl) hr (plan_rejoin _ _ _) (planned_state hr)
  | elsewhere => exact hI c' hx'
  | joinIssued =>
    cases hx'
    exact parked_issued (hI _ rfl) (joinIssued_rejoin _ _ _ _) (joinIssued_state _ _ _ _)
  | foundIssued =>
    cases hx'
    exact parked_issued (hI _ rfl) (foundIssued_rejoin _ _ _ _) (foundIssued_state _ _ _ _)
  | left =>
    unfold Cell.left at hx'
    split_ifs at hx'
    · cases hx'
      exact parked_landed (hI _ rfl)
    · exact parked_finishRetire hx'
    · cases hx'
      exact ⟨fun _ => rfl, fun _ => ⟨rfl, rfl, rfl⟩⟩
  | kept =>
    rename_i a now c _ _ _
    cases hx'
    have hr : c.state ≠ .retiring := fun hr => by simpa using ((hI c rfl).retiring hr).2.2
    exact parked_active (hI c rfl) hr rfl hr
  | lost | dropped => exact parked_landed (hI c' hx')

/-! ## Runs -/

theorem calm_misses {derive : Seed → Option ChatId} {s s' : Session} {id : ChatIdHex} {o : Op}
    (hs : step derive s (.op o) = some s') (hquiet : disturbs derive s id (.op o) = false)
    (hdist : disturbing o = true) : s'.registry.cells[id]? = s.registry.cells[id]? := by
  have hmiss : o.hits derive s.registry id = false := by
    simpa [disturbs, hdist] using (Bool.or_eq_false_iff.mp hquiet).2
  simp only [step] at hs
  split_ifs at hs <;> cases hs <;> rw [cells_apply, hmiss, if_neg (by simp)]

/-- Without a request an absent cell stays absent. -/
theorem calm_absent {derive : Seed → Option ChatId} {s s' : Session} {e : Event} {id : ChatIdHex}
    (hw : WellFormed s) (hs : step derive s e = some s') (hquiet : disturbs derive s id e = false)
    (hc : s.registry.cells[id]? = none) : s'.registry.cells[id]? = none := by
  have he := step_effect derive hw hs id
  by_contra hne
  obtain ⟨c', hc'⟩ := Option.ne_none_iff_exists'.mp hne
  rw [hc, hc'] at he
  generalize flightAt s id = f at he
  generalize flightAt s' id = f' at he
  generalize hx : (none : Option Cell) = x at he
  generalize hy : some c' = y at he
  cases he with
  | op hfree _ ho =>
    rename_i o _
    subst hx hy
    cases hdist : disturbing o with
    | true =>
      have hsame := calm_misses hs hquiet hdist
      rw [hc, hc'] at hsame
      cases hsame
    | false =>
      cases ho with
      | created => simp [disturbing] at hdist
  | elsewhere | lost | dropped => cases hx.trans hy.symm
  | cleared | unplanned | unheard => cases hy
  | planned | joinIssued | foundIssued | left | kept => cases hx

theorem overdue_of_lateFailure {s : Session} {id : ChatIdHex} {e : Event} {c : Cell}
    (hlate : lateFailure s id e = false) (hc : s.registry.cells[id]? = some c)
    (hf : fails s.registry id c e = true) {now : Ms} (hnow : e.time = some now) :
    c.overdue now = false := by
  simpa [lateFailure, hc, hf, hnow] using hlate

theorem available_of_entersUnavailable {s s' : Session} {id : ChatIdHex} {c c' : Cell}
    (h : entersUnavailable s s' id = false) (hc : s.registry.cells[id]? = some c)
    (hc' : s'.registry.cells[id]? = some c') (hst : c'.state = .unavailable) :
    c.state = .unavailable := by
  simpa [entersUnavailable, stateOf, hc, hc', hst] using h

theorem spent_step {derive : Seed → Option ChatId} {s s' : Session} {e : Event} {id : ChatIdHex}
    {joins : List Ms} {clock : Ms} {c c' : Cell} (hw : WellFormed s)
    (hs : step derive s e = some s') (hquiet : disturbs derive s id e = false)
    (hlate : lateFailure s id e = false) (henter : entersUnavailable s s' id = false)
    (hplan : ∀ now, e ≠ .plan now) (hclock : clock ≤ e.time.getD clock)
    (hpast : ∀ t ∈ joins, t ≤ clock) (hc : s.registry.cells[id]? = some c)
    (hc' : s'.registry.cells[id]? = some c') (h : Spent joins clock c) :
    Spent joins (e.time.getD clock) c' := by
  have hopen : c'.state ≠ .unavailable := fun hst =>
    h.available (available_of_entersUnavailable henter hc hc' hst)
  have hover : fails s.registry id c e = true → ∀ now, e.time = some now → c.overdue now = false :=
    fun hf now hnow => overdue_of_lateFailure hlate hc hf hnow
  have he := step_effect derive hw hs id
  rw [hc, hc'] at he
  generalize flightAt s id = f at he
  generalize flightAt s' id = f' at he
  generalize hx : some c = x at he
  generalize hy : some c' = y at he
  cases he with
  | op hfree _ ho =>
    rename_i o _
    subst hx hy
    cases hdist : disturbing o with
    | true =>
      have hsame := calm_misses hs hquiet hdist
      rw [hc, hc'] at hsame
      cases hsame
      exact spent_later h hclock
    | false => exact spent_op hfree hdist hclock h hpast hover hopen ho
  | cleared | unplanned | unheard => cases hy
  | planned => exact absurd rfl (hplan _)
  | elsewhere =>
    cases hx.trans hy.symm
    exact spent_later h hclock
  | joinIssued hkey hk =>
    rename_i a n ok now _
    cases hx
    cases hy
    unfold Cell.issued at hopen ⊢
    split_ifs at hopen ⊢ with haw
    · refine spent_joinIssued h hclock hpast (fun hok => hover ?_ now rfl) hopen
      simp only [Bool.not_false, Bool.and_true] at haw
      simp only [fails, hkey, hk, haw, hok, decide_true, Bool.not_false, Bool.and_true,
        Bool.true_or]
    · exact spent_later h hclock
  | foundIssued hkey hk =>
    rename_i a n ok now _
    cases hx
    cases hy
    unfold Cell.issued at hopen ⊢
    split_ifs at hopen ⊢ with haw
    · refine spent_foundIssued h hclock hpast (fun hok => hover ?_ now rfl) hopen
      obtain ⟨haw, hl⟩ := Bool.and_eq_true_iff.mp haw
      simp only [fails, hkey, hk, haw, hok, hl, decide_true, Bool.not_false, Bool.and_true,
        Bool.or_true]
    · exact spent_later h hclock
  | left hkey hk =>
    rename_i a now _
    cases hx
    have hretire : c.groupNumber = a.groupNumber → a.groupNumber = noGroup →
        (c.leaveIssued a.reason now).retireFails = true → c.overdue now = false := by
      intro hg hn hf
      refine hover ?_ now rfl
      simp only [fails, hkey, hg, hn, hf, decide_true, Bool.and_true]
    exact spent_left h hclock hpast hretire hopen hy.symm
  | kept =>
    cases hx
    cases hy
    exact spent_same h hclock ⟨rfl, rfl, rfl, rfl, rfl, rfl⟩
  | lost | dropped =>
    cases hx.trans hy.symm
    exact spent_later h hclock

theorem counted_step {derive : Seed → Option ChatId} {s s' : Session} {e : Event} {id : ChatIdHex}
    {joins : List Ms} {clock : Ms} (hw : WellFormed s) (hI : ParkedAt.at s id)
    (hs : step derive s e = some s') (hcond : windowOpen derive id s e = true)
    (hclock : clock ≤ e.time.getD clock) (h : Counted joins clock s.registry.cells[id]?) :
    Counted (joins ++ startsOf (· = .join) id s e) (e.time.getD clock)
      s'.registry.cells[id]? := by
  simp only [windowOpen, hs, Option.all_some, Bool.and_eq_true, Bool.not_eq_true'] at hcond
  obtain ⟨⟨hquiet, hlate⟩, henter⟩ := hcond
  by_cases hplan : ∃ now, e = .plan now
  · obtain ⟨now, rfl⟩ := hplan
    have hr' : s'.registry = (plan s.registry now).1 := by
      simp only [step] at hs
      split_ifs at hs
      cases hs
      rfl
    rw [startsOf_plan hw]
    cases hc : s.registry.cells[id]? with
    | none =>
      have hc' : s'.registry.cells[id]? = none := by
        rw [hr']
        simp [plan, hc]
      rw [hc']
      rw [hc] at h
      simpa using counted_later h hclock
    | some c =>
      have hc' : s'.registry.cells[id]? = some (planCell s.registry now c).1 := by
        rw [hr']
        simp [plan, hc]
      rw [hc']
      rw [hc] at h
      exact counted_plan h hclock (hI c hc).rejoin
        (fun hst => overdue_of_lateFailure hlate hc (e := .plan now) hst rfl)
        (available_of_entersUnavailable henter hc hc')
  · have hnone : startsOf (· = .join) id s e = [] := by
      cases e with
      | plan now => exact absurd ⟨now, rfl⟩ hplan
      | _ => rfl
    rw [hnone, List.append_nil]
    refine ⟨h.few, h.spaced, fun t ht => UInt64.le_trans (h.past t ht) hclock, ?_⟩
    intro hne c' hc'
    obtain ⟨c, hc⟩ := Option.ne_none_iff_exists'.mp fun hc => by
      simp [calm_absent hw hs hquiet hc] at hc'
    exact spent_step hw hs hquiet hlate henter (fun now he => hplan ⟨now, he⟩) hclock h.past hc hc'
      (h.spent hne c hc)

theorem sorted_cons {clock : Ms} {e : Event} {es : List Event}
    (h : (clock :: (e :: es).filterMap Event.time).Pairwise (· ≤ ·)) :
    clock ≤ e.time.getD clock ∧
      (e.time.getD clock :: es.filterMap Event.time).Pairwise (· ≤ ·) := by
  cases ht : e.time with
  | none =>
    rw [List.filterMap_cons_none ht] at h
    exact ⟨UInt64.le_refl _, h⟩
  | some t =>
    rw [List.filterMap_cons_some ht] at h
    obtain ⟨hle, hrest⟩ := List.pairwise_cons.mp h
    exact ⟨hle t List.mem_cons_self, hrest⟩

/-- While the window of a cell is open, the joins counted so far and those of
    the rest of the run together stay within the bound. -/
theorem counted_run {derive : Seed → Option ChatId} {id : ChatIdHex} {gs : List Event} {s : Session}
    {joins : List Ms} {clock : Ms} (hw : WellFormed s) (hI : ParkedAt.at s id)
    (hsorted : (clock :: gs.filterMap Event.time).Pairwise (· ≤ ·))
    (hm : Meets (step derive) (fun s e => windowOpen derive id s e = true) s gs)
    (h : Counted joins clock s.registry.cells[id]?) :
    (joins ++ joinTimes derive id s gs).length ≤ kMaxRetriesPerWindow + 1 ∧
      (joins ++ joinTimes derive id s gs).Pairwise
        fun t t' => t.toNat + kBackoffMs.toNat ≤ t'.toNat := by
  induction gs generalizing s joins clock with
  | nil => simpa [joinTimes, startTimes] using ⟨h.few, h.spaced⟩
  | cons e gs ih =>
    cases hs : step derive s e with
    | none =>
      have hnil : joinTimes derive id s (e :: gs) = [] := by
        rw [joinTimes, startTimes, hs]
      rw [hnil, List.append_nil]
      exact ⟨h.few, h.spaced⟩
    | some u =>
      obtain ⟨hclock, hrest⟩ := sorted_cons hsorted
      have hnext := ih (step_wellFormed derive hw hs) (parked_step derive s e u id hw hs hI) hrest
        (hm.2 u hs) (counted_step hw hI hs hm.1 hclock h)
      rw [joinTimes, startTimes_cons hs, ← List.append_assoc]
      exact hnext

theorem parked_run (derive : Seed → Option ChatId) {es : List Event} {s : Session}
    (hr : exec (step derive) {} es = some s) (id : ChatIdHex) : ParkedAt.at s id :=
  @local_invariant derive (fun _ _ => True) ParkedAt (fun _ => by simp [ParkedAt])
    (fun s e s' id hw _ hs hI => parked_step derive s e s' id hw hs hI) es s (meets_true _ _ _) hr id

/-- Between two points of a run with an open window at most
    `kMaxRetriesPerWindow + 1` joins of a cell are planned, `kBackoffMs` apart. -/
theorem joins_within_window (derive : Seed → Option ChatId) {fs gs : List Event} {s : Session}
    (hr : exec (step derive) {} fs = some s) (hsorted : NonDecreasing (fs ++ gs)) (id : ChatIdHex)
    (hm : Meets (step derive) (fun s e => windowOpen derive id s e = true) s gs) :
    (joinTimes derive id s gs).length ≤ kMaxRetriesPerWindow + 1 ∧
      (joinTimes derive id s gs).Pairwise
        fun t t' => t.toNat + kBackoffMs.toNat ≤ t'.toNat := by
  have hgs : (gs.filterMap Event.time).Pairwise (· ≤ ·) := by
    rw [NonDecreasing, List.filterMap_append] at hsorted
    exact (List.pairwise_append.mp hsorted).2.1
  have hzero : ((0 : Ms) :: gs.filterMap Event.time).Pairwise (· ≤ ·) :=
    List.pairwise_cons.mpr ⟨fun t _ => UInt64.zero_le, hgs⟩
  have hnone : Counted [] 0 s.registry.cells[id]? := ⟨by simp, by simp, by simp, by simp⟩
  exact counted_run (run_wellFormed derive hr) (parked_run derive hr id) hzero hm hnone

end Tim2Tox.RendezvousSession
