import Tim2Tox.RendezvousRetries

set_option autoImplicit false

/-!
# The wait of an exhausted cell

A cell that failed too often is started again only `kUnavailableMs` later,
unless a failure after the end of its retry window, or a refound leave that
was in flight, takes it out of `kUnavailable` before.
-/
namespace Tim2Tox.RendezvousSession
open RendezvousCodec RendezvousGroups LabelledRuns

/-- Neither is an exhausted cell failed again after its window, nor a leave that
    was planned as refound reported onto an unavailable cell. -/
def waitKept (id : ChatIdHex) (s : Session) (e : Event) : Bool :=
  s.registry.cells[id]?.all fun c =>
    !(c.retries > kMaxRetriesPerWindow && lateFailure s id e) &&
      match e with
      | .report a .left _ => !(a.chatIdHex = id && a.reason = .refound &&
          a.groupNumber = c.groupNumber && c.state = .unavailable)
      | _ => true

/-! ## What keeps a cell from starting -/

/-- Where an exhausted cell stands: waiting, retiring, or owing the leave of a
    group that was recorded while it was being failed. -/
inductive Stage (start clock : Ms) (generation : ℕ) (c : Cell) (f : Option Action) : Prop where
  | resting (state : c.state = .unavailable) (since : start ≤ c.stateSinceMs)
    (past : c.stateSinceMs ≤ clock)
    (spent : (c.groupNumber = noGroup ∧ c.pendingLeave = false ∧ f = none) ∨
      (kMaxRetriesPerWindow < c.retries ∧ ∀ a, f = some a → a.kind ≠ .leave →
        c.pendingLeave = true ∧ c.leaveReason ≠ .refound))
  | retiring (state : c.state = .retiring) (before : c.stateBeforeRetire ≠ .backoff)
    (reason : c.retireReason ≠ .refound) (left : c.pendingLeave = false)
    (spent : kMaxRetriesPerWindow < c.retries) (flight : f = none)
  | leaving (state : c.state = .joining ∨ c.state = .joined)
    (spent : kMaxRetriesPerWindow < c.retries) (reason : c.leaveReason ≠ .refound)
    (owed : (f = none ∧ c.pendingLeave = true) ∨ ∃ a, f = some a ∧ a.kind = .leave ∧
      a.reason ≠ .refound ∧ a.generation = generation)

structure Barred (start clock : Ms) (generation : ℕ) (c : Cell) (f : Option Action) : Prop where
  rejoin : c.rejoinAfterRetire = false
  join : c.pendingJoin = false
  found : c.pendingFound = false
  stage : Stage start clock generation c f

/-- An effect the wait of a cell does not see. -/
structure SameWait (c c' : Cell) : Prop extends SameSchedule c c' where
  found : c'.pendingFound = c.pendingFound
  group : c'.groupNumber = c.groupNumber
  leave : c'.pendingLeave = c.pendingLeave
  reason : c'.leaveReason = c.leaveReason
  retire : c'.retireReason = c.retireReason

theorem barred_same {start clock clock' : Ms} {generation : ℕ} {c c' : Cell} {f : Option Action}
    (h : Barred start clock generation c f) (hclock : clock ≤ clock') (hs : SameWait c c') :
    Barred start clock' generation c' f := by
  refine ⟨hs.rejoin.trans h.rejoin, hs.join.trans h.join, hs.found.trans h.found, ?_⟩
  cases h.stage with
  | resting state since past spent =>
    refine .resting (hs.state.trans state) (hs.since ▸ since)
      (hs.since ▸ UInt64.le_trans past hclock) ?_
    rw [hs.group, hs.leave, hs.reason, hs.retries]
    exact spent
  | retiring state before reason left spent flight =>
    exact .retiring (hs.state.trans state) (hs.before ▸ before) (hs.retire ▸ reason)
      (hs.leave.trans left) (hs.retries ▸ spent) flight
  | leaving state spent reason owed =>
    refine .leaving (hs.state ▸ state) (hs.retries ▸ spent) (hs.reason ▸ reason) ?_
    rw [hs.leave]
    exact owed

theorem barred_later {start clock clock' : Ms} {generation : ℕ} {c : Cell} {f : Option Action}
    (h : Barred start clock generation c f) (hclock : clock ≤ clock') :
    Barred start clock' generation c f :=
  barred_same h hclock ⟨⟨rfl, rfl, rfl, rfl, rfl, rfl⟩, rfl, rfl, rfl, rfl, rfl⟩

/-- The planned action is gone without a trace: a start that was not recorded,
    or a leave given up under a bumped generation. -/
theorem barred_landed {start clock clock' : Ms} {generation : ℕ} {c : Cell} {a : Action}
    (h : Barred start clock generation c (some a)) (hclock : clock ≤ clock')
    (hgone : a.kind = .leave → a.generation ≠ generation) :
    Barred start clock' generation c none := by
  refine ⟨h.rejoin, h.join, h.found, ?_⟩
  cases h.stage with
  | resting state since past spent =>
    exact .resting state since (UInt64.le_trans past hclock)
      (spent.imp (fun hg => ⟨hg.1, hg.2.1, rfl⟩) fun hn => ⟨hn.1, by simp⟩)
  | retiring state before reason left spent flight =>
    exact .retiring state before reason left spent rfl
  | leaving state spent reason owed =>
    obtain ⟨hno, -⟩ | ⟨b, hb, hk, -, hgen⟩ := owed
    · cases hno
    · cases hb
      exact absurd hgen (hgone hk)

/-- Inside its window an exhausted cell fails into `kUnavailable`. -/
theorem exhausted_fails {now : Ms} {c : Cell} (hover : c.overdue now = false)
    (h : kMaxRetriesPerWindow < c.retries) : (Cell.enterBackoff now c).state = .unavailable ∧
      kMaxRetriesPerWindow < (Cell.enterBackoff now c).retries := by
  have hn := enterBackoff_counts hover
  have hgt : kMaxRetriesPerWindow < (Cell.enterBackoff now c).retries := by omega
  exact ⟨(enterBackoff_exhausted now c).trans (if_pos hgt), hgt⟩

theorem exhausted_of_unavailable {now : Ms} {c : Cell}
    (h : (Cell.enterBackoff now c).state = .unavailable) :
    kMaxRetriesPerWindow < (Cell.enterBackoff now c).retries := by
  by_contra hle
  rw [enterBackoff_exhausted, if_neg (by omega)] at h
  cases h

theorem barred_failed {start now : Ms} {generation : ℕ} {c : Cell} {f : Option Action}
    (hrejoin : c.rejoinAfterRetire = false) (hjoin : c.pendingJoin = false)
    (hfound : c.pendingFound = false) (hstart : start ≤ now)
    (hst : (Cell.enterBackoff now c).state = .unavailable)
    (hflight : ∀ a, f = some a → a.kind ≠ .leave →
      c.pendingLeave = true ∧ c.leaveReason ≠ .refound) :
    Barred start now generation (Cell.enterBackoff now c) f := by
  obtain ⟨-, -, -, -, hpj, hpf⟩ := enterBackoff_rests now c
  obtain ⟨hrej, hsince, hreason⟩ := enterBackoff_keeps now c
  refine ⟨hrej.trans hrejoin, hpj.trans hjoin, hpf.trans hfound,
    .resting hst (hsince ▸ hstart) (hsince ▸ UInt64.le_refl _)
      (.inr ⟨exhausted_of_unavailable hst, ?_⟩)⟩
  rw [enterBackoff_pendingLeave, hreason]
  exact hflight

theorem barred_retired {start now : Ms} {generation nextAttempt : ℕ} {c c' : Cell}
    (hrejoin : c.rejoinAfterRetire = false) (hjoin : c.pendingJoin = false)
    (hfound : c.pendingFound = false) (hleave : c.pendingLeave = false)
    (hbefore : c.stateBeforeRetire ≠ .backoff) (hreason : c.retireReason ≠ .refound)
    (hstart : start ≤ now)
    (hfail : c.retireFails = true →
      (Cell.enterBackoff now { c with groupNumber := noGroup, retireReason := .unset }).state =
        .unavailable)
    (he : c.finishRetire nextAttempt now = some c') : Barred start now generation c' none := by
  obtain hn | ⟨hr, -⟩ | ⟨hw, hn⟩ | ⟨hf, hn⟩ := @finishRetire_unasked nextAttempt now c hrejoin
  · rw [hn] at he
    cases he
  · exact absurd hr hreason
  · have hst : c.stateBeforeRetire = .unavailable := by
      cases hs : c.stateBeforeRetire <;> simp_all [State.waits]
    rw [hn] at he
    cases he
    exact ⟨hrejoin, hjoin, hfound,
      .resting hst hstart (UInt64.le_refl _) (.inl ⟨rfl, hleave, rfl⟩)⟩
  · rw [hn] at he
    cases he
    exact barred_failed hrejoin hjoin hfound hstart (hfail hf) (by simp)

/-! ## The planner -/

/-- An exhausted cell after `Plan` took its leave. -/
theorem barred_leaves {start clock : Ms} {generation : ℕ} {c : Cell} {a : Action}
    (h : Barred start clock generation c none) (hst : c.state = .unavailable)
    (hspent : kMaxRetriesPerWindow < c.retries) (hk : a.kind = .leave) :
    Barred start clock generation { c with leaveNotBeforeMs := 0, pendingLeave := false }
      (some a) := by
  refine ⟨h.rejoin, h.join, h.found, ?_⟩
  cases h.stage with
  | resting state since past spent =>
    refine .resting state since past (.inr ⟨hspent, fun b hb hne => ?_⟩)
    cases hb
    exact absurd hk hne
  | retiring state => simp [hst] at state
  | leaving state => simp [hst] at state

/-- A cell that owes a leave gets nothing else planned. -/
theorem plan_owing {r : Registry} {now : Ms} {c : Cell} (hr : c.state ≠ .retiring)
    (hl : c.pendingLeave = true) : planCell r now c = (c, none) ∨
      planCell r now c = ({ c with leaveNotBeforeMs := 0, pendingLeave := false },
        some (c.leaveAction r.generation)) := by
  have hidle : c.idle = false := by simp [Cell.idle, hl]
  unfold planCell Cell.plan
  rw [if_neg hr, timers_busy hidle]
  obtain he | ⟨-, he⟩ | ⟨hno, -⟩ := emit_cases r.accepting r.generation (blocked r c.chatIdHex) now c
  · exact .inl he
  · exact .inr he
  · simp [hl] at hno

theorem emit_idle {accepting : Bool} {generation : ℕ} {blocked : Bool} {now : Ms} {c : Cell}
    (h : c.idle = true) : c.emit accepting generation blocked now = (c, none) := by
  obtain ⟨hl, hj, hf⟩ := (idle_iff c).mp h
  obtain he | ⟨hyes, -⟩ | ⟨-, -, -, hyes, -⟩ := emit_cases accepting generation blocked now c
  · exact he
  · simp [hl] at hyes
  · simp [hj, hf] at hyes

theorem plan_resting {r : Registry} {now : Ms} {c : Cell} (hs : c.state = .unavailable)
    (hidle : c.idle = true) (hdue : ¬now - c.stateSinceMs ≥ kUnavailableMs) :
    planCell r now c = (c, none) := by
  unfold planCell Cell.plan
  rw [if_neg (by simp [hs]), timers_unavailable hidle hs, if_neg hdue, emit_idle hidle]

theorem leaveAction_reason {generation : ℕ} {c : Cell} (h : c.leaveReason ≠ .refound) :
    (c.leaveAction generation).reason ≠ .refound := by
  unfold Cell.leaveAction
  dsimp only
  split_ifs
  · simp
  · exact h

/-- `Plan` starts a barred cell only once its wait is over. -/
theorem barred_plan {r : Registry} {start clock now : Ms} {c : Cell}
    (h : Barred start clock r.generation c none) (hclock : clock ≤ now) :
    start.toNat + kUnavailableMs.toNat ≤ now.toNat ∨
      (Barred start now r.generation (planCell r now c).1 (planCell r now c).2 ∧
        ∀ a, (planCell r now c).2 = some a → a.kind = .leave) := by
  cases h.stage with
  | resting state since past spent =>
    cases hl : c.pendingLeave with
    | true =>
      have hn : kMaxRetriesPerWindow < c.retries := by
        obtain ⟨-, hno, -⟩ | ⟨hn, -⟩ := spent
        · simp [hl] at hno
        · exact hn
      right
      obtain he | he := @plan_owing r now c (by simp [state]) hl <;> rw [he]
      · exact ⟨barred_later h hclock, by simp⟩
      · refine ⟨barred_leaves (barred_later h hclock) state hn rfl, ?_⟩
        intro a ha
        cases ha
        rfl
    | false =>
      have hidle : c.idle = true := (idle_iff c).mpr ⟨hl, h.join, h.found⟩
      by_cases hdue : now - c.stateSinceMs ≥ kUnavailableMs
      · left
        have hgap := elapsed_of_sub (UInt64.le_trans past hclock) hdue
        have hle := UInt64.le_iff_toNat_le.mp since
        omega
      · right
        rw [plan_resting state hidle hdue]
        exact ⟨barred_later h hclock, by simp⟩
  | retiring state before reason left spent flight =>
    have hp : planCell r now c = (c, none) := if_pos state
    right
    rw [hp]
    exact ⟨barred_later h hclock, by simp⟩
  | leaving state spent reason owed =>
    have hl : c.pendingLeave = true := by
      obtain ⟨-, hl⟩ | ⟨a, ha, -⟩ := owed
      · exact hl
      · cases ha
    have hr : c.state ≠ .retiring := by
      rcases state with hs | hs <;> simp [hs]
    right
    obtain he | he := @plan_owing r now c hr hl <;> rw [he]
    · exact ⟨barred_later h hclock, by simp⟩
    · refine ⟨⟨h.rejoin, h.join, h.found, .leaving state spent reason
        (.inr ⟨_, rfl, rfl, leaveAction_reason reason, rfl⟩)⟩, ?_⟩
      intro a ha
      cases ha
      rfl

/-! ## Operations and reports -/

theorem barred_expelled {start clock now : Ms} {generation : ℕ} {reason : Reason} {c : Cell}
    {f : Option Action} (h : Barred start clock generation c f) (hclock : clock ≤ now)
    (hstart : start ≤ clock) (hreason : reason ≠ .refound)
    (hst : (c.expelled reason now).state = .unavailable) :
    Barred start now generation (c.expelled reason now) f :=
  barred_failed h.rejoin rfl rfl (UInt64.le_trans hstart hclock) hst fun _ _ _ => ⟨rfl, hreason⟩

/-- A barred cell that a callback can reach is exhausted. -/
theorem barred_exhausted {start clock : Ms} {generation : ℕ} {c : Cell} {f : Option Action}
    (h : Barred start clock generation c f) (hg : c.groupNumber ≠ noGroup) :
    kMaxRetriesPerWindow < c.retries := by
  cases h.stage with
  | resting state since past spent =>
    obtain ⟨hno, -⟩ | ⟨hn, -⟩ := spent
    · exact absurd hno hg
    · exact hn
  | retiring state before reason left spent flight => exact spent
  | leaving state spent reason owed => exact spent

theorem barred_op {derive : Seed → Option ChatId} {r : Registry} {id : ChatIdHex} {o : Op}
    {c c' : Cell} {f : Option Action} {start clock : Ms} {generation : ℕ}
    (hfree : driven o = false) (hcalm : disturbing o = false)
    (hclock : clock ≤ (opTime o).getD clock) (hstart : start ≤ clock)
    (h : Barred start clock generation c f)
    (hover : kMaxRetriesPerWindow < c.retries → fails r id c (.op o) = true →
      ∀ now, opTime o = some now → c.overdue now = false)
    (he : OpEffect derive r id o (some c) (some c')) :
    Barred start ((opTime o).getD clock) generation c' f := by
  have hlater : start ≤ (opTime o).getD clock := UInt64.le_trans hstart hclock
  generalize hy : some c' = y at he
  cases he with
  | missed =>
    cases hy
    exact barred_later h hclock
  | cleared => cases hy
  | present | deferred | selfJoin | peerJoin => simp [disturbing] at hcalm
  | leaveAsked hask => rcases hask with rfl | rfl <;> simp [disturbing] at hcalm
  | planned | joinIssued | foundIssued | left | kept => simp [driven] at hfree
  | retired =>
    rename_i n now
    unfold Cell.retired at hy
    split_ifs at hy with hr
    · cases h.stage with
      | resting state => simp [hr.1] at state
      | retiring state before reason left spent flight =>
        subst flight
        refine barred_retired h.rejoin h.join h.found left before reason hlater (fun hf => ?_)
          hy.symm
        have hin : c.overdue now = false :=
          hover spent (by simp [fails, hr.1, hr.2, hf]) now rfl
        exact (@exhausted_fails now { c with groupNumber := noGroup, retireReason := .unset }
          hin spent).1
      | leaving state => simp [hr.1] at state
    · cases hy
      exact barred_later h hclock
  | peerExit =>
    rename_i peer self now _
    obtain ⟨-, hx⟩ | ⟨-, b, co, hx⟩ := peerExit_cases peer self now c <;> rw [hx] at hy <;> cases hy
    · exact barred_later h hclock
    · exact barred_same h hclock ⟨⟨rfl, rfl, rfl, rfl, rfl, rfl⟩, rfl, rfl, rfl, rfl, rfl⟩
  | joinFail ha =>
    rename_i n peerLimit now
    obtain ⟨hn, -, hg, -⟩ := activeCell_some ha
    have hspent := barred_exhausted h (hg ▸ hn)
    have hin : c.overdue now = false := hover hspent (by simp [fails, ha]) now rfl
    cases hy
    refine barred_expelled h hclock hstart (by split <;> simp) ?_
    exact (@exhausted_fails now { c with
      pendingLeave := true, leaveReason := if peerLimit then .full else .failed
      pendingJoin := false, pendingFound := false } hin hspent).1
  | kicked ha =>
    rename_i n now
    obtain ⟨hn, -, hg, -⟩ := activeCell_some ha
    have hspent := barred_exhausted h (hg ▸ hn)
    have hin : c.overdue now = false := hover hspent (by simp [fails, ha]) now rfl
    cases hy
    refine barred_expelled h hclock hstart (by simp) ?_
    exact (@exhausted_fails now { c with
      pendingLeave := true, leaveReason := .kicked, pendingJoin := false
      pendingFound := false } hin hspent).1
  | packet =>
    rename_i peer pk isPrivate payload now _
    obtain ⟨peers, budget, -, hx⟩ := packet_eq peer pk isPrivate payload now c
    rw [hx] at hy
    cases hy
    exact barred_same h hclock ⟨⟨rfl, rfl, rfl, rfl, rfl, rfl⟩, rfl, rfl, rfl, rfl, rfl⟩

/-- With an action in flight a barred cell is exhausted, and owes its leave when
    the action is a start. -/
theorem barred_inflight {start clock : Ms} {generation : ℕ} {c : Cell} {a : Action}
    (h : Barred start clock generation c (some a)) : kMaxRetriesPerWindow < c.retries ∧
      (a.kind ≠ .leave → c.pendingLeave = true ∧ c.leaveReason ≠ .refound) := by
  cases h.stage with
  | resting state since past spent =>
    obtain ⟨-, -, hno⟩ | ⟨hn, hl⟩ := spent
    · cases hno
    · exact ⟨hn, hl a rfl⟩
  | retiring state before reason left spent flight => cases flight
  | leaving state spent reason owed =>
    obtain ⟨hno, -⟩ | ⟨b, hb, hleave, -⟩ := owed
    · cases hno
    · cases hb
      exact ⟨spent, fun hk => absurd hleave hk⟩

/-- The join result of a barred cell: its group is left again, or it fails again. -/
theorem barred_joinIssued {start clock now : Ms} {generation : ℕ} {n : GroupNumber} {ok : Bool}
    {c : Cell} {a : Action} (h : Barred start clock generation c (some a)) (hk : a.kind ≠ .leave)
    (hstart : start ≤ now)
    (hover : kMaxRetriesPerWindow < c.retries → (ok && n ≠ noGroup) = false →
      c.overdue now = false) :
    Barred start now generation (c.joinIssued n ok now) none := by
  obtain ⟨hn, hl⟩ := barred_inflight h
  obtain ⟨hl, hreason⟩ := hl hk
  unfold Cell.joinIssued
  split_ifs with hok
  · exact ⟨h.rejoin, h.join, h.found, .leaving (.inl rfl) hn hreason (.inl ⟨rfl, hl⟩)⟩
  · refine barred_failed h.rejoin h.join h.found hstart ?_ (by simp)
    exact (@exhausted_fails now { c with groupNumber := noGroup }
      (hover hn (by simpa using hok)) hn).1

theorem barred_left {start clock now : Ms} {generation nextAttempt : ℕ} {c c' : Cell} {a : Action}
    (h : Barred start clock generation c (some a)) (hb : Berthed c (some a)) (hk : a.kind = .leave)
    (hstart : start ≤ now) (hreason : c.state = .unavailable → a.reason ≠ .refound)
    (hover : kMaxRetriesPerWindow < c.retries → a.groupNumber = noGroup →
      (c.leaveIssued a.reason now).retireFails = true → c.overdue now = false)
    (he : c.left nextAttempt a.reason now a.groupNumber = some c') :
    Barred start now generation c' none := by
  obtain ⟨hg, hr⟩ := hb.leaving a rfl hk
  have hne : a.reason ≠ .refound := by
    cases h.stage with
    | resting state => exact hreason state
    | retiring state => exact absurd state hr
    | leaving state spent reason owed =>
      obtain ⟨hno, -⟩ | ⟨b, hb, -, hne, -⟩ := owed
      · cases hno
      · cases hb
        exact hne
  have hbefore : c.state ≠ .backoff := by
    cases h.stage with
    | resting state => simp [state]
    | retiring state => simp [state]
    | leaving state => rcases state with hs | hs <;> simp [hs]
  have hspent := (barred_inflight h).1
  rw [Cell.left, if_neg (by simpa using hg)] at he
  split_ifs at he with hn
  · refine @barred_retired start now generation nextAttempt (c.leaveIssued a.reason now) c' h.rejoin
      rfl rfl rfl hbefore hne hstart (fun hf => ?_) he
    exact (@exhausted_fails now { c.leaveIssued a.reason now with
      groupNumber := noGroup, retireReason := .unset } (hover hspent hn hf) hspent).1
  · cases he
    exact ⟨h.rejoin, rfl, rfl, .retiring rfl hbefore hne rfl hspent rfl⟩

/-! ## Runs -/

theorem generation_kept {derive : Seed → Option ChatId} {s s' : Session} {e : Event}
    {id : ChatIdHex} (hs : step derive s e = some s') (hquiet : disturbs derive s id e = false) :
    s'.registry.generation = s.registry.generation := by
  have hgate : ∀ o : Op, o ≠ .bumpGeneration →
      (apply derive s.registry o).generation = s.registry.generation := by
    intro o ho
    cases hopen : o.opensGate with
    | false => exact congrArg Prod.snd (gate_apply derive s.registry hopen)
    | true =>
      cases o with
      | bumpGeneration => exact absurd rfl ho
      | setAccepting | clear => rfl
      | _ => cases hopen
  cases e with
  | op o =>
    have hb : o ≠ .bumpGeneration := by
      simpa using (Bool.or_eq_false_iff.mp hquiet).1
    simp only [step] at hs
    split_ifs at hs <;> cases hs <;> exact hgate o hb
  | plan now =>
    simp only [step] at hs
    split_ifs at hs
    cases hs
    exact hgate (.plan now) (by simp)
  | report a outcome now =>
    simp only [step] at hs
    split_ifs at hs
    obtain ⟨o, ho, rfl⟩ := Option.map_eq_some_iff.mp hs
    refine hgate o ?_
    rintro rfl
    cases outcome <;> simp only [reportOp] at ho <;> split at ho <;> simp_all
  | drop a =>
    simp only [step] at hs
    split_ifs at hs
    cases hs
    rfl

theorem inside_of_waitKept {s : Session} {id : ChatIdHex} {e : Event} {c : Cell}
    (h : waitKept id s e = true) (hc : s.registry.cells[id]? = some c)
    (hspent : kMaxRetriesPerWindow < c.retries) (hf : fails s.registry id c e = true) {now : Ms}
    (hnow : e.time = some now) : c.overdue now = false := by
  have hlate : lateFailure s id e = false := by
    simp only [waitKept, hc, Option.all_some, Bool.and_eq_true, Bool.not_eq_true',
      Bool.and_eq_false_iff, decide_eq_false_iff_not] at h
    obtain hle | hlate := h.1
    · exact absurd hspent hle
    · exact hlate
  exact overdue_of_lateFailure hlate hc hf hnow

theorem reason_of_waitKept {s : Session} {id : ChatIdHex} {a : Action} {now : Ms} {c : Cell}
    (h : waitKept id s (.report a .left now) = true) (hc : s.registry.cells[id]? = some c)
    (hid : a.chatIdHex = id) (hg : a.groupNumber = c.groupNumber) (hst : c.state = .unavailable) :
    a.reason ≠ .refound := by
  simp only [waitKept, hc, Option.all_some, Bool.and_eq_true, Bool.not_eq_true', hid, hg, hst,
    decide_true, Bool.and_true, Bool.true_and, decide_eq_false_iff_not] at h
  exact h.2

/-- One undisturbed step of a barred cell. -/
theorem barred_step {derive : Seed → Option ChatId} {s s' : Session} {e : Event} {id : ChatIdHex}
    {start clock : Ms} {c c' : Cell} (hw : WellFormed s) (hb : Berthing.at s id)
    (hs : step derive s e = some s') (hquiet : disturbs derive s id e = false)
    (hkept : waitKept id s e = true) (hclock : clock ≤ e.time.getD clock) (hstart : start ≤ clock)
    (hc : s.registry.cells[id]? = some c) (hc' : s'.registry.cells[id]? = some c')
    (h : Barred start clock s.registry.generation c (flightAt s id)) :
    start.toNat + kUnavailableMs.toNat ≤ (e.time.getD clock).toNat ∨
      Barred start (e.time.getD clock) s.registry.generation c' (flightAt s' id) := by
  have hlater : start ≤ e.time.getD clock := UInt64.le_trans hstart hclock
  have hover : kMaxRetriesPerWindow < c.retries → fails s.registry id c e = true →
      ∀ now, e.time = some now → c.overdue now = false :=
    fun hspent hf now hnow => inside_of_waitKept hkept hc hspent hf hnow
  have hberth := hb.2.1
  have he := step_effect derive hw hs id
  rw [hc] at hberth
  rw [hc, hc'] at he
  generalize flightAt s id = f at he h hberth
  generalize flightAt s' id = f' at he ⊢
  generalize hx : some c = x at he
  generalize hy : some c' = y at he
  cases he with
  | op hfree _ ho =>
    rename_i o _
    subst hx hy
    right
    cases hdist : disturbing o with
    | true =>
      have hsame := calm_misses hs hquiet hdist
      rw [hc, hc'] at hsame
      cases hsame
      exact barred_later h hclock
    | false => exact barred_op hfree hdist hclock hstart h hover ho
  | cleared | unplanned | unheard => cases hy
  | planned =>
    cases hx
    cases hy
    exact (barred_plan h hclock).imp_right And.left
  | elsewhere =>
    cases hx.trans hy.symm
    exact .inr (barred_later h hclock)
  | joinIssued hkey hk =>
    rename_i a n ok now _
    cases hx
    cases hy
    right
    unfold Cell.issued
    split_ifs with haw
    · refine barred_joinIssued h (by simp [hk]) hlater fun hspent hok => hover hspent ?_ now rfl
      simp only [Bool.not_false, Bool.and_true] at haw
      simp only [fails, hkey, hk, haw, hok, decide_true, Bool.not_false, Bool.and_true,
        Bool.true_or]
    · exact barred_landed h hclock fun hl => by simp [hk] at hl
  | foundIssued hkey hk =>
    rename_i a n ok now _
    cases hx
    cases hy
    right
    have hl := ((barred_inflight h).2 (by simp [hk])).1
    rw [Cell.issued, hl, Bool.not_true, Bool.and_false, if_neg (by simp)]
    exact barred_landed h hclock fun hl => by simp [hk] at hl
  | left hkey hk =>
    rename_i a now _
    cases hx
    right
    obtain ⟨hg, -⟩ := (hberth c rfl).leaving a rfl hk
    have hretire : kMaxRetriesPerWindow < c.retries → a.groupNumber = noGroup →
        (c.leaveIssued a.reason now).retireFails = true → c.overdue now = false := by
      intro hspent hn hf
      refine hover hspent ?_ now rfl
      simp only [fails, hkey, hg, hn, hf, decide_true, Bool.and_true]
    exact barred_left h (hberth c rfl) hk hlater
      (reason_of_waitKept hkept hc hkey hg.symm) hretire hy.symm
  | kept hkey hk =>
    rename_i a now _ _
    cases hx
    cases hy
    right
    have hspent := (barred_inflight h).1
    refine ⟨h.rejoin, h.join, h.found, ?_⟩
    cases h.stage with
    | resting state since past spent =>
      exact .resting state since (UInt64.le_trans past hclock) (.inr ⟨hspent, by simp⟩)
    | retiring state before reason left spent flight => cases flight
    | leaving state spent reason owed => exact .leaving state spent reason (.inl ⟨rfl, rfl⟩)
  | lost hkey hk hheld hmoved =>
    cases hx.trans hy.symm
    exact .inr (barred_landed h hclock fun _ hgen => hmoved hgen.symm)
  | dropped hkey hk =>
    cases hx.trans hy.symm
    exact .inr (barred_landed h hclock fun hl => absurd hl hk)

theorem retired_enters {generation nextAttempt : ℕ} {now : Ms} {c c' : Cell}
    (hjoin : c.pendingJoin = false) (hfound : c.pendingFound = false)
    (hleave : c.pendingLeave = false) (hst : c'.state = .unavailable)
    (he : c.finishRetire nextAttempt now = some c') : Barred now now generation c' none := by
  cases hrej : c.rejoinAfterRetire with
  | true =>
    obtain ⟨-, hn⟩ | ⟨hno, -⟩ | ⟨hno, -⟩ | ⟨hno, -⟩ | ⟨hno, -⟩ :=
      finishRetire_cases nextAttempt now c
    · rw [hn] at he
      cases he
      cases hst
    all_goals simp [hrej] at hno
  | false =>
    obtain hn | ⟨-, hn⟩ | ⟨-, hn⟩ | ⟨-, hn⟩ := @finishRetire_unasked nextAttempt now c hrej <;>
      rw [hn] at he <;> cases he
    · cases hst
    · exact ⟨hrej, hjoin, hfound,
        .resting hst (UInt64.le_refl _) (UInt64.le_refl _) (.inl ⟨rfl, hleave, rfl⟩)⟩
    · exact barred_failed hrej hjoin hfound (UInt64.le_refl _) hst (by simp)

theorem enters_op {derive : Seed → Option ChatId} {r : Registry} {id : ChatIdHex} {o : Op}
    {x : Option Cell} {c' : Cell} {f : Option Action} {generation : ℕ} {now : Ms}
    (hfree : driven o = false) (hnow : opTime o = some now)
    (hpark : ∀ c, x = some c → Parked c f) (hberth : ∀ c, x = some c → Berthed c f)
    (hout : ∀ c, x = some c → c.state ≠ .unavailable) (hst : c'.state = .unavailable)
    (he : OpEffect derive r id o x (some c')) : Barred now now generation c' f := by
  generalize hy : some c' = y at he
  cases he with
  | missed | present => exact absurd hst (hout c' hy.symm)
  | absent | cleared => cases hy
  | created =>
    cases hy
    cases hst
  | deferred hr =>
    cases hy
    exact absurd (hr.symm.trans hst) (by simp)
  | leaveAsked =>
    rename_i later c _
    obtain ⟨-, hx⟩ | ⟨-, -, hx⟩ | ⟨-, -, hx⟩ := requestLeave_cases later c <;>
      rw [hx] at hy <;> cases hy <;> exact absurd hst (hout c rfl)
  | planned | joinIssued | foundIssued | left | kept => simp [driven] at hfree
  | retired =>
    rename_i n later c
    cases hnow
    unfold Cell.retired at hy
    split_ifs at hy with hr
    · obtain ⟨hj, hf, rfl⟩ := (hpark c rfl).retiring hr.1
      exact retired_enters hj hf ((hberth c rfl).retiring hr.1).2 hst hy.symm
    · cases hy
      exact absurd hst (hout _ rfl)
  | selfJoin =>
    cases hy
    cases hst
  | peerJoin ha =>
    rename_i peer pk later c
    obtain ⟨-, hx⟩ | ⟨-, b, co, since, retries, hx⟩ := peerJoin_cases peer pk later c <;>
      rw [hx] at hy <;> cases hy
    · exact absurd hst (hout _ rfl)
    · dsimp only at hst
      split_ifs at hst
      exact absurd hst (hout c rfl)
  | peerExit =>
    rename_i peer self later c _
    obtain ⟨-, hx⟩ | ⟨-, b, co, hx⟩ := peerExit_cases peer self later c <;> rw [hx] at hy <;>
      cases hy <;> exact absurd hst (hout c rfl)
  | joinFail ha =>
    rename_i n peerLimit later c
    have hr := (activeCell_some ha).2.2.2
    cases hnow
    cases hy
    have hrej : c.rejoinAfterRetire = false := by
      by_contra hne
      exact hr ((hpark c rfl).rejoin (by simpa using hne))
    exact barred_failed hrej rfl rfl (UInt64.le_refl _) hst
      fun _ _ _ => ⟨rfl, by dsimp only; split <;> simp⟩
  | kicked ha =>
    rename_i n later c
    have hr := (activeCell_some ha).2.2.2
    cases hnow
    cases hy
    have hrej : c.rejoinAfterRetire = false := by
      by_contra hne
      exact hr ((hpark c rfl).rejoin (by simpa using hne))
    exact barred_failed hrej rfl rfl (UInt64.le_refl _) hst fun _ _ _ => ⟨rfl, by simp⟩
  | packet =>
    rename_i peer pk isPrivate payload later c _
    obtain ⟨peers, budget, -, hx⟩ := packet_eq peer pk isPrivate payload later c
    rw [hx] at hy
    cases hy
    exact absurd hst (hout c rfl)

/-- `Plan` makes a cell unavailable only through the stale timer. -/
theorem enters_plan {r : Registry} {generation : ℕ} {now : Ms} {c : Cell} (hpark : Parked c none)
    (hout : c.state ≠ .unavailable) (hst : (planCell r now c).1.state = .unavailable) :
    Barred now now generation (planCell r now c).1 (planCell r now c).2 := by
  have hr : c.state ≠ .retiring := by
    intro hr
    have hp : planCell r now c = (c, none) := if_pos hr
    rw [hp] at hst
    exact hout hst
  have hrej : c.rejoinAfterRetire = false := by
    by_contra hne
    exact hr (hpark.rejoin (by simpa using hne))
  have hplan : planCell r now c = (c.timers now).emit r.accepting r.generation
    (blocked r c.chatIdHex) now := if_neg hr
  rw [hplan] at hst ⊢
  have htimers : (c.timers now).state = .unavailable := by
    obtain he | ⟨-, he⟩ | ⟨-, -, -, -, he⟩ := emit_cases r.accepting r.generation
      (blocked r c.chatIdHex) now (c.timers now) <;> rw [he] at hst
    · exact hst
    · exact hst
    · dsimp only at hst
      split_ifs at hst
      exact hst
  obtain he | ⟨-, hs, -, -, -, he⟩ | ⟨hidle, -, -, -, -, he⟩ | ⟨-, -, w, n, he⟩ := timers_cases now c
  · rw [he] at htimers
    exact absurd htimers hout
  · rw [he] at htimers
    simp [hs] at htimers
  · have hnone := (idle_iff c).mp hidle
    rw [he] at htimers ⊢
    have hl := enterBackoff_pendingLeave now { c with pendingLeave := true, leaveReason := .stale }
    have hb := @barred_failed now now generation
      { c with pendingLeave := true, leaveReason := .stale } none hrej hnone.2.1 hnone.2.2
      (UInt64.le_refl _) htimers (by simp)
    obtain hx | ⟨-, hx⟩ | ⟨hno, -⟩ := emit_cases r.accepting r.generation (blocked r c.chatIdHex) now
      (Cell.enterBackoff now { c with pendingLeave := true, leaveReason := .stale })
    · rw [hx]
      exact hb
    · rw [hx]
      exact barred_leaves hb htimers (exhausted_of_unavailable htimers) rfl
    · cases hl.symm.trans hno
  · rw [he] at htimers
    exact absurd htimers hout

/-- A start that failed finds nothing else owed. -/
theorem issued_enters {generation generation' : ℕ} {record : Cell → Cell} {refused : Cell → Bool}
    {a : Action} {now : Ms} {c : Cell} (hpark : Parked c (some a)) (hberth : Berthed c (some a))
    (hk : a.kind ≠ .leave) (hout : c.state ≠ .unavailable)
    (hrec : (record c).state ≠ .unavailable ∨
      record c = Cell.enterBackoff now { c with groupNumber := noGroup })
    (hst : (c.issued generation record refused a.generation a.attempt).state = .unavailable) :
    Barred now now generation' (c.issued generation record refused a.generation a.attempt)
      none := by
  unfold Cell.issued at hst ⊢
  split_ifs at hst ⊢ with haw
  · simp only [Cell.awaits, Bool.and_eq_true, decide_eq_true_eq] at haw
    obtain ⟨hj, hf⟩ := hberth.starting a rfl hk haw.1.1.2.symm
    have hrej : c.rejoinAfterRetire = false := by
      by_contra hne
      exact haw.1.2 (hpark.rejoin (by simpa using hne))
    obtain hno | hfail := hrec
    · exact absurd hst hno
    · rw [hfail] at hst ⊢
      exact barred_failed hrej hj hf (UInt64.le_refl _) hst (by simp)
  · exact absurd hst hout

theorem enters_step {derive : Seed → Option ChatId} {s s' : Session} {e : Event} {id : ChatIdHex}
    {now : Ms} (hw : WellFormed s) (hb : Berthing.at s id) (hp : ParkedAt.at s id)
    (hs : step derive s e = some s') (hnow : e.time = some now)
    (henter : entersUnavailable s s' id = true) (c' : Cell)
    (hc' : s'.registry.cells[id]? = some c') :
    Barred now now s'.registry.generation c' (flightAt s' id) := by
  simp only [entersUnavailable, stateOf, hc', Option.map_some, Option.some.injEq,
    Bool.and_eq_true, decide_eq_true_eq] at henter
  have hst := henter.1
  have hout : ∀ c, s.registry.cells[id]? = some c → c.state ≠ .unavailable := by
    intro c hc hno
    simp [hc, hno] at henter
  have hberth := hb.2.1
  have he := step_effect derive hw hs id
  unfold Local.at ParkedAt at hp
  rw [hc'] at he
  generalize s'.registry.generation = generation
  generalize s.registry.cells[id]? = x at he hberth hp hout
  generalize flightAt s id = f at he hberth hp
  generalize flightAt s' id = f' at he ⊢
  generalize hy : some c' = y at he
  cases he with
  | op hfree _ ho =>
    subst hy
    exact enters_op hfree hnow hp hberth hout hst ho
  | cleared | unplanned | unheard => cases hy
  | planned =>
    cases hnow
    cases hy
    exact enters_plan (hp _ rfl) (hout _ rfl) hst
  | elsewhere | lost | dropped => exact absurd hst (hout c' hy.symm)
  | joinIssued hkey hk =>
    rename_i a n ok later c
    cases hnow
    cases hy
    refine issued_enters (hp c rfl) (hberth c rfl) (by simp [hk]) (hout c rfl) ?_ hst
    obtain ⟨-, hx⟩ | hx := joinIssued_cases n ok now c
    · exact .inl (by simp [hx])
    · exact .inr hx
  | foundIssued hkey hk =>
    rename_i a n ok later c
    cases hnow
    cases hy
    refine issued_enters (hp c rfl) (hberth c rfl) (by simp [hk]) (hout c rfl) ?_ hst
    obtain ⟨-, hx⟩ | hx := foundIssued_cases n ok now c
    · exact .inl (by simp [hx])
    · exact .inr hx
  | left =>
    rename_i a later c _ _
    cases hnow
    unfold Cell.left at hy
    split_ifs at hy
    · cases hy
      exact absurd hst (hout _ rfl)
    · exact retired_enters (c := c.leaveIssued a.reason now) rfl rfl rfl hst hy.symm
    · cases hy
      cases hst
  | kept =>
    rename_i a later c _ _ _
    cases hy
    exact absurd hst (hout c rfl)

/-- The wait since `start` is over, or the cell is gone or barred. -/
def Waits (start clock : Ms) (s : Session) (id : ChatIdHex) : Prop :=
  start.toNat + kUnavailableMs.toNat ≤ clock.toNat ∨ (start ≤ clock ∧
    ∀ c, s.registry.cells[id]? = some c →
      Barred start clock s.registry.generation c (flightAt s id))

theorem waits_step {derive : Seed → Option ChatId} {s s' : Session} {e : Event} {id : ChatIdHex}
    {start clock : Ms} (hw : WellFormed s) (hb : Berthing.at s id)
    (hs : step derive s e = some s') (hquiet : disturbs derive s id e = false)
    (hkept : waitKept id s e = true) (hclock : clock ≤ e.time.getD clock)
    (h : Waits start clock s id) : Waits start (e.time.getD clock) s' id := by
  have hle := UInt64.le_iff_toNat_le.mp hclock
  obtain hover | ⟨hstart, hbar⟩ := h
  · exact .inl (by omega)
  by_cases hdone : start.toNat + kUnavailableMs.toNat ≤ (e.time.getD clock).toNat
  · exact .inl hdone
  refine .inr ⟨UInt64.le_trans hstart hclock, fun c' hc' => ?_⟩
  obtain ⟨c, hc⟩ := Option.ne_none_iff_exists'.mp fun hc => by
    simp [calm_absent hw hs hquiet hc] at hc'
  rw [generation_kept hs hquiet]
  exact (barred_step hw hb hs hquiet hkept hclock hstart hc hc' (hbar c hc)).resolve_left hdone

/-- Every start that `Plan` returns while the cell waits comes after its wait. -/
theorem waits_starts {derive : Seed → Option ChatId} {s s' : Session} {e : Event} {id : ChatIdHex}
    {start clock : Ms} (hw : WellFormed s) (hs : step derive s e = some s')
    (hclock : clock ≤ e.time.getD clock) (h : Waits start clock s id) :
    ∀ t ∈ startsOf (· ≠ .leave) id s e, start.toNat + kUnavailableMs.toNat ≤ t.toNat := by
  intro t ht
  cases e with
  | plan now =>
    have hle : clock.toNat ≤ now.toNat := UInt64.le_iff_toNat_le.mp hclock
    have hnone : flightAt s id = none := by
      simp only [step] at hs
      split_ifs at hs with hb
      simp_all [flightAt]
    rw [startsOf_plan hw] at ht
    simp only [List.mem_map, List.mem_filter, Option.mem_toList,
      Option.bind_eq_some_iff, decide_eq_true_eq] at ht
    obtain ⟨a, ⟨⟨c, hc, ha⟩, hk⟩, rfl⟩ := ht
    obtain hover | ⟨-, hbar⟩ := h
    · omega
    have hcell := hbar c hc
    rw [hnone] at hcell
    obtain hdone | ⟨-, hleave⟩ := barred_plan hcell hclock
    · exact hdone
    · exact absurd (hleave a ha) hk
  | _ => cases ht

theorem waits_run {derive : Seed → Option ChatId} {id : ChatIdHex} {gs : List Event} {s : Session}
    {start clock : Ms} (hw : WellFormed s) (hb : Berthing.at s id)
    (hsorted : (clock :: gs.filterMap Event.time).Pairwise (· ≤ ·))
    (hquiet : Meets (step derive) (fun s e => disturbs derive s id e = false) s gs)
    (hkept : Meets (step derive) (fun s e => waitKept id s e = true) s gs)
    (h : Waits start clock s id) :
    ∀ t ∈ startTimes derive (· ≠ .leave) id s gs,
      start.toNat + kUnavailableMs.toNat ≤ t.toNat := by
  induction gs generalizing s clock with
  | nil => simp [startTimes]
  | cons e gs ih =>
    cases hs : step derive s e with
    | none => simp [startTimes, hs]
    | some u =>
      obtain ⟨hclock, hrest⟩ := sorted_cons hsorted
      have hnext := waits_step hw hb hs hquiet.1 hkept.1 hclock h
      rw [startTimes_cons hs]
      intro t ht
      obtain ht | ht := List.mem_append.mp ht
      · exact waits_starts hw hs hclock h t ht
      · exact ih (step_wellFormed derive hw hs) (berthing_step derive hw hs hb) hrest
          (hquiet.2 u hs) (hkept.2 u hs) hnext t ht

theorem berthing_run (derive : Seed → Option ChatId) {es : List Event} {s : Session}
    (hr : exec (step derive) {} es = some s) (id : ChatIdHex) : Berthing.at s id :=
  @local_invariant derive (fun _ _ => True) Berthing (fun _ => berthing_none)
    (fun _ _ _ _ hw _ hs hI => berthing_step derive hw hs hI) es s (meets_true _ _ _) hr id

/-! ## The retry bound -/

/-- In the run, between any two points with an open retry window (so from the
    start of a window on), the joins of the cell are few and spaced; and once a
    failure, or the retirement after it, made the cell unavailable, nothing is
    started for `kUnavailableMs`, until a client or a confirmed join intervenes. -/
structure RetryBound (derive : Seed → Option ChatId) (es : List Event) (id : ChatIdHex) :
    Prop where
  joins : ∀ (fs gs : List Event) (s : Session), fs ++ gs <+: es →
    exec (step derive) {} fs = some s →
    Meets (step derive) (fun s e => windowOpen derive id s e = true) s gs →
    (joinTimes derive id s gs).length ≤ kMaxRetriesPerWindow + 1 ∧
      (joinTimes derive id s gs).Pairwise fun t t' => t.toNat + kBackoffMs.toNat ≤ t'.toNat
  waits : ∀ (fs : List Event) (e : Event) (gs : List Event) (s u : Session) (start : Ms),
    fs ++ e :: gs <+: es → exec (step derive) {} fs = some s → step derive s e = some u →
    e.time = some start → entersUnavailable s u id = true →
    Meets (step derive) (fun s e => disturbs derive s id e = false) u gs →
    ∀ t ∈ startTimes derive (· ≠ .leave) id u gs,
      start.toNat + kUnavailableMs.toNat ≤ t.toNat

theorem nonDecreasing_of_isPrefix {es fs : List Event} (h : NonDecreasing es) (hp : fs <+: es) :
    NonDecreasing fs := by
  obtain ⟨gs, rfl⟩ := hp
  rw [NonDecreasing, List.filterMap_append] at h
  exact (List.pairwise_append.mp h).1

theorem retries_bounded (derive : Seed → Option ChatId) (es : List Event) (id : ChatIdHex)
    (hclock : NonDecreasing es)
    (hm : Meets (step derive) (fun s e => waitKept id s e = true) {} es) :
    RetryBound derive es id := by
  refine ⟨fun fs gs s hp hr hw =>
    joins_within_window derive hr (nonDecreasing_of_isPrefix hclock hp) id hw, ?_⟩
  intro fs e gs s u start hp hr hs hnow henter hquiet
  have hsorted := nonDecreasing_of_isPrefix hclock hp
  rw [NonDecreasing, List.filterMap_append, List.filterMap_cons_some hnow] at hsorted
  obtain ⟨rest, rfl⟩ := hp
  rw [List.append_assoc, List.cons_append] at hm
  have hkept := meets_of_append ((meets_append hm hr).2.2 u hs)
  have hw := run_wellFormed derive hr
  have hb := berthing_run derive hr id
  have hpark := parked_run derive hr id
  exact waits_run (step_wellFormed derive hw hs) (berthing_step derive hw hs hb)
    (List.pairwise_append.mp hsorted).2.1 hquiet hkept
    (.inr ⟨UInt64.le_refl _, enters_step hw hb hpark hs hnow henter⟩)

/-- Three joins that toxcore refuses and a fourth that is recorded as group 7. -/
def refusedRun : List Event :=
  joinRun ++ [.plan 1000, .report (sampleAction .join 2 1) (.issued noGroup false) 1000,
    .plan 16000, .report (sampleAction .join 2 1) (.issued noGroup false) 16000,
    .plan 31000, .report (sampleAction .join 2 1) (.issued noGroup false) 31000,
    .plan 46000, .report (sampleAction .join 2 1) (.issued 7 true) 46000]

/-- A second peer refuses us just after the end of the window; the group is
    left and retires, and the cell is planned again. -/
def refusedAgainRun : List Event :=
  [.op (.onJoinFail 7 false 601100), .plan 601100,
    .report (sampleLeave .failed 2 1) .left 601100, .op (.onRetired sampleId 7 601200),
    .plan 616200]

/-- Refused just before the end of the window, and once more after it. -/
def refusedTwiceRun : List Event :=
  refusedRun ++ .op (.onJoinFail 7 false 600900) :: refusedAgainRun

/-- The second refusal of one and the same group takes the cell out of
    `kUnavailable`: it is joined again 15.3 s after it got there. -/
theorem unavailable_rejoined : NonDecreasing refusedTwiceRun ∧
    joinTimes sampleDerive sampleId {} refusedTwiceRun = [1000, 16000, 31000, 46000, 616200] ∧
    ¬RetryBound sampleDerive refusedTwiceRun sampleId := by
  refine ⟨by decide, by decide, fun hbound => ?_⟩
  have hrun : ((exec (step sampleDerive) {} refusedRun).any fun s =>
      (step sampleDerive s (.op (.onJoinFail 7 false 600900))).any fun u =>
        entersUnavailable s u sampleId = true ∧
        Meets (step sampleDerive) (fun s e => disturbs sampleDerive s sampleId e = false) u
          refusedAgainRun ∧
        616200 ∈ startTimes sampleDerive (· ≠ .leave) sampleId u refusedAgainRun) = true := by
    decide
  obtain ⟨s, hs, h⟩ := (Option.any_eq_true _ _).mp hrun
  obtain ⟨u, hu, h⟩ := (Option.any_eq_true _ _).mp h
  simp only [decide_eq_true_eq] at h
  obtain ⟨henter, hquiet, hjoin⟩ := h
  have hwait := hbound.waits refusedRun _ refusedAgainRun s u 600900 (List.prefix_refl _) hs hu rfl
    henter hquiet 616200 hjoin
  exact absurd hwait (by decide)

/-- One refusal, and the wait that follows it. -/
def refusedOnceRun : List Event :=
  refusedRun ++ [.op (.onJoinFail 7 false 600900), .plan 601100,
    .report (sampleLeave .failed 2 1) .left 601100, .op (.onRetired sampleId 7 601200),
    .plan 616200, .plan 1201200]

theorem refused_cell_waits : RetryBound sampleDerive refusedOnceRun sampleId ∧
    joinTimes sampleDerive sampleId {} refusedOnceRun = [1000, 16000, 31000, 46000, 1201200] :=
  ⟨retries_bounded sampleDerive refusedOnceRun sampleId (by decide) (by decide),
    by decide⟩

end Tim2Tox.RendezvousSession
