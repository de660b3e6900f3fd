import Tim2Tox.RendezvousSession

set_option autoImplicit false

/-!
# Cells and planned actions

A leave in flight is for the group its cell holds, and a start in flight finds
a cell without a group. This holds in every run in which a leave that is given
up to the zombies leaves no waiting cell with its group behind.
-/
namespace Tim2Tox.RendezvousSession
open RendezvousCodec RendezvousGroups LabelledRuns

/-- A planned action carries an attempt already handed out. -/
def Stamped : Local := fun r _ _ f => ∀ a, f = some a → a.attempt < r.nextAttempt

theorem stamped_step (derive : Seed → Option ChatId) (s : Session) (e : Event) (s' : Session)
    (id : ChatIdHex) (hw : WellFormed s) (hs : step derive s e = some s')
    (hI : Stamped.at s id) : Stamped.at s' id := by
  have hle := step_nextAttempt_le derive hs
  have he := step_effect derive hw hs id
  intro a ha
  rw [ha] at he
  generalize hc : s.registry.cells[id]? = c at he
  generalize hf : flightAt s id = f at he
  generalize s'.registry.cells[id]? = c' at he
  generalize hx : some a = x at he
  have hold : f = some a → a.attempt < s'.registry.nextAttempt := by
    rintro rfl
    exact Nat.lt_of_lt_of_le (hI a hf) hle
  cases he with
  | op => exact hold hx.symm
  | elsewhere => exact hold hx.symm
  | planned =>
    have ht := (plan_action hx.symm).1
    have hlt := hw.numbered.handedOut id _ hc
    simp only [Cell.tag, Prod.mk.injEq] at ht
    omega
  | _ => cases hx

/-- A leave that is given up finds its cell gone, out of the back-off, or owing
    a leave again. -/
def relinquished (s : Session) : Event → Bool
  | .report a .lost _ =>
    s.registry.cells[a.chatIdHex]?.all fun c => !c.state.waits || c.pendingLeave
  | _ => true

/-- A cell against the planned action of its chat id. -/
structure Held (c : Cell) (f : Option Action) : Prop where
  pending : c.pendingJoin = true ∨ c.pendingFound = true → c.groupNumber = noGroup
  joined : c.state = .joined → c.groupNumber ≠ noGroup
  owed : c.pendingLeave = true → c.groupNumber ≠ noGroup ∧ c.state ≠ .retiring
  waiting : c.state.waits = true → c.groupNumber = noGroup ∨ c.pendingLeave = true ∨
    ∃ a, f = some a ∧ a.kind = .leave
  starting : ∀ a, f = some a → a.kind ≠ .leave → a.attempt = c.attempt →
    c.groupNumber = noGroup ∧ c.pendingJoin = false ∧ c.pendingFound = false
  leaving : ∀ a, f = some a → a.kind = .leave →
    c.groupNumber = a.groupNumber ∧ c.groupNumber ≠ noGroup ∧ c.state ≠ .retiring

/-- An effect that keeps the group of a cell. -/
structure SameGroup (c c' : Cell) : Prop where
  group : c'.groupNumber = c.groupNumber
  attempt : c'.attempt = c.attempt
  join : c'.pendingJoin = true → c.pendingJoin = true
  found : c'.pendingFound = true → c.pendingFound = true
  retiring : c'.state = .retiring → c.state = .retiring
  leave : c'.pendingLeave = true → c.pendingLeave = true ∨
    c.groupNumber ≠ noGroup ∧ c.state ≠ .retiring
  joined : c'.state = .joined → c.groupNumber ≠ noGroup
  waits : c'.state.waits = true → c'.pendingLeave = true ∨
    c.state.waits = true ∧ (c.pendingLeave = true → c'.pendingLeave = true)

theorem held_same {c c' : Cell} {f : Option Action} (h : Held c f) (hs : SameGroup c c') :
    Held c' f := by
  refine ⟨?_, ?_, ?_, ?_, ?_, ?_⟩
  · intro hp
    rw [hs.group]
    exact h.pending (hp.imp hs.join hs.found)
  · intro hj
    rw [hs.group]
    exact hs.joined hj
  · intro hl
    rw [hs.group]
    obtain ⟨hg, hr⟩ := (hs.leave hl).elim h.owed fun hown => hown
    exact ⟨hg, fun hr' => hr (hs.retiring hr')⟩
  · intro hw
    obtain hl | ⟨hw, hl⟩ := hs.waits hw
    · exact .inr (.inl hl)
    · rw [hs.group]
      exact (h.waiting hw).imp id (Or.imp hl id)
  · intro a ha hk hat
    obtain ⟨hg, hj, hf⟩ := h.starting a ha hk (hat.trans hs.attempt)
    refine ⟨hs.group.trans hg, ?_, ?_⟩
    · by_contra hne
      simp [hs.join (by simpa using hne)] at hj
    · by_contra hne
      simp [hs.found (by simpa using hne)] at hf
  · intro a ha hk
    obtain ⟨hg, hn, hr⟩ := h.leaving a ha hk
    rw [hs.group]
    exact ⟨hg, hn, fun hr' => hr (hs.retiring hr')⟩

/-- A cell without a group owes no leave, and no leave of it is in flight. -/
theorem held_groupless {c : Cell} {f : Option Action} (hg : c.groupNumber = noGroup)
    (hj : c.state ≠ .joined) (hl : c.pendingLeave = false)
    (hleave : ∀ a, f = some a → a.kind ≠ .leave)
    (hf : ∀ a, f = some a → a.attempt = c.attempt →
      c.pendingJoin = false ∧ c.pendingFound = false) : Held c f := by
  refine ⟨fun _ => hg, fun h => absurd h hj, by simp [hl], fun _ => .inl hg, ?_, ?_⟩
  · intro a ha _ hat
    exact ⟨hg, hf a ha hat⟩
  · intro a ha hk
    exact absurd hk (hleave a ha)

theorem enterBackoff_rests (now : Ms) (c : Cell) :
    (Cell.enterBackoff now c).groupNumber = c.groupNumber ∧
      (Cell.enterBackoff now c).state ≠ .joined ∧ (Cell.enterBackoff now c).state ≠ .retiring ∧
      (Cell.enterBackoff now c).attempt = c.attempt ∧
      (Cell.enterBackoff now c).pendingJoin = c.pendingJoin ∧
      (Cell.enterBackoff now c).pendingFound = c.pendingFound := by
  have hw := enterBackoff_waits now c
  obtain ⟨w, n, h⟩ := enterBackoff_eq now c
  have hne : ∀ st : State, st.waits = false → (Cell.enterBackoff now c).state ≠ st := by
    intro st hst heq
    rw [heq, hst] at hw
    cases hw
  refine ⟨?_, hne _ rfl, hne _ rfl, ?_, ?_, ?_⟩ <;> rw [h]

theorem finishRetire_groupless {nextAttempt : ℕ} {now : Ms} {c c' : Cell}
    (h : c.finishRetire nextAttempt now = some c') :
    c'.groupNumber = noGroup ∧ c'.state ≠ .joined ∧ c'.pendingLeave = c.pendingLeave ∧
      (c'.attempt = nextAttempt ∨
        c'.attempt = c.attempt ∧ c'.pendingJoin = c.pendingJoin ∧
          c'.pendingFound = c.pendingFound) := by
  obtain ⟨-, he⟩ | ⟨-, -, he⟩ | ⟨-, -, -, he⟩ | ⟨-, -, -, -, hw, he⟩ | ⟨-, -, -, -, he⟩ :=
    finishRetire_cases nextAttempt now c <;> rw [he] at h <;> cases h
  · exact ⟨rfl, by simp, rfl, .inl rfl⟩
  · exact ⟨rfl, by simp, rfl, .inl rfl⟩
  · refine ⟨rfl, fun hj => ?_, rfl, .inr ⟨rfl, rfl, rfl⟩⟩
    dsimp only at hj
    rw [hj] at hw
    cases hw
  · obtain ⟨hg, hj, -, ha, hpj, hpf⟩ := enterBackoff_rests now
      { c with groupNumber := noGroup, retireReason := .unset }
    exact ⟨hg, hj, enterBackoff_pendingLeave _ _, .inr ⟨ha, hpj, hpf⟩⟩

theorem held_finishRetire {nextAttempt : ℕ} {now : Ms} {c c' : Cell} {f : Option Action}
    (hstamp : ∀ a, f = some a → a.attempt < nextAttempt)
    (hleave : ∀ a, f = some a → a.kind ≠ .leave) (hl : c.pendingLeave = false)
    (hf : ∀ a, f = some a → a.attempt = c.attempt →
      c.pendingJoin = false ∧ c.pendingFound = false)
    (h : c.finishRetire nextAttempt now = some c') : Held c' f := by
  obtain ⟨hg, hj, hl', hat⟩ := finishRetire_groupless h
  refine held_groupless hg hj (hl'.trans hl) hleave fun a ha heq => ?_
  have hlt := hstamp a ha
  obtain hat | ⟨hat, hpj, hpf⟩ := hat
  · omega
  · rw [hpj, hpf]
    exact hf a ha (heq.trans hat)

theorem held_expelled {reason : Reason} {now : Ms} {c : Cell} {f : Option Action}
    (h : Held c f) (hg : c.groupNumber ≠ noGroup) (hr : c.state ≠ .retiring) :
    Held (c.expelled reason now) f := by
  obtain ⟨hgroup, hj, hr', hat, hpj, hpf⟩ := enterBackoff_rests now
    { c with pendingLeave := true, leaveReason := reason, pendingJoin := false
             pendingFound := false }
  have hl : (c.expelled reason now).pendingLeave = true := enterBackoff_pendingLeave _ _
  refine held_same h ⟨hgroup, hat, ?_, ?_, fun h => absurd h hr', fun _ => .inr ⟨hg, hr⟩,
    fun h => absurd h hj, fun _ => .inl hl⟩
  · intro hp
    have hp' := hpj.symm.trans hp
    simp at hp'
  · intro hp
    have hp' := hpf.symm.trans hp
    simp at hp'

theorem held_op {derive : Seed → Option ChatId} {r : Registry} {key : ChatIdHex} {o : Op}
    {x : Option Cell} {c' : Cell} {f : Option Action}
    (hstamp : ∀ a, f = some a → a.attempt < r.nextAttempt) (hfree : driven o = false)
    (hleave : x = none → ∀ a, f = some a → a.kind ≠ .leave)
    (hI : ∀ c, x = some c → Held c f) (h : OpEffect derive r key o x (some c')) :
    Held c' f := by
  generalize hy : some c' = y at h
  cases h with
  | missed => exact hI c' hy.symm
  | absent => cases hy
  | cleared => cases hy
  | created =>
    cases hy
    refine held_groupless rfl (by simp [newCell]) rfl (hleave rfl) fun a ha hat => ?_
    have hlt := hstamp a ha
    simp only [newCell] at hat
    omega
  | present => exact hI c' hy.symm
  | deferred =>
    rename_i c _
    cases hy
    exact held_same (hI c rfl) ⟨rfl, rfl, id, id, id, .inl, (hI c rfl).joined, fun h => .inr ⟨h, id⟩⟩
  | leaveAsked =>
    rename_i now c _
    have hold := hI c rfl
    obtain ⟨hr, he⟩ | ⟨-, -, he⟩ | ⟨hr, hg, he⟩ := requestLeave_cases now c <;>
      rw [he] at hy <;> cases hy
    · exact held_same hold
        ⟨rfl, rfl, by simp, by simp, id, .inl, hold.joined, fun h => .inr ⟨h, id⟩⟩
    · exact held_same hold
        ⟨rfl, rfl, by simp, by simp, id, fun _ => .inr ⟨hg, hr⟩, fun _ => hg, fun _ => .inl rfl⟩
  | planned | joinIssued | foundIssued | left | kept => simp [driven] at hfree
  | retired =>
    rename_i c
    have hold := hI c rfl
    unfold Cell.retired at hy
    split_ifs at hy with hr
    · refine held_finishRetire hstamp ?_ ?_ ?_ hy.symm
      · intro a ha hk
        exact (hold.leaving a ha hk).2.2 hr.1
      · by_contra hl
        exact (hold.owed (by simpa using hl)).2 hr.1
      · intro a ha hat
        have hk : a.kind ≠ .leave := fun hk => (hold.leaving a ha hk).2.2 hr.1
        exact (hold.starting a ha hk hat).2
    · cases hy
      exact hold
  | selfJoin hact =>
    rename_i c
    obtain ⟨hn, -, hg, -⟩ := activeCell_some hact
    cases hy
    exact held_same (hI c rfl) ⟨rfl, rfl, id, id, by simp [Cell.selfJoin], .inl,
      fun _ => hg ▸ hn, fun h => by cases h⟩
  | peerJoin hact =>
    rename_i peer pk now c
    have hold := hI c rfl
    obtain ⟨hn, -, hg, hr⟩ := activeCell_some hact
    obtain ⟨-, he⟩ | ⟨-, b, co, since, retries, he⟩ := peerJoin_cases peer pk now c <;>
      rw [he] at hy <;> cases hy
    · exact hold
    · refine held_same hold ⟨rfl, rfl, id, id, ?_, .inl, fun _ => hg ▸ hn, ?_⟩
      · dsimp only
        split_ifs <;> simp [hr]
      · dsimp only
        split_ifs
        · intro h
          cases h
        · exact fun h => .inr ⟨h, id⟩
  | peerExit =>
    rename_i peer self now c _
    have hold := hI c rfl
    obtain ⟨-, he⟩ | ⟨-, b, co, he⟩ := peerExit_cases peer self now c <;> rw [he] at hy <;> cases hy
    · exact hold
    · exact held_same hold ⟨rfl, rfl, id, id, id, .inl, hold.joined, fun h => .inr ⟨h, id⟩⟩
  | joinFail hact =>
    obtain ⟨hn, -, hg, hr⟩ := activeCell_some hact
    cases hy
    exact held_expelled (hI _ rfl) (hg ▸ hn) hr
  | kicked hact =>
    obtain ⟨hn, -, hg, hr⟩ := activeCell_some hact
    cases hy
    exact held_expelled (hI _ rfl) (hg ▸ hn) hr
  | packet =>
    rename_i peer pk isPrivate payload now c _
    have hold := hI c rfl
    obtain ⟨peers, budget, -, he⟩ := packet_eq peer pk isPrivate payload now c
    rw [he] at hy
    cases hy
    exact held_same hold ⟨rfl, rfl, id, id, id, .inl, hold.joined, fun h => .inr ⟨h, id⟩⟩

theorem startAction_kind (generation : ℕ) (c : Cell) : (c.startAction generation).kind ≠ .leave := by
  unfold Cell.startAction
  cases c.pendingJoin <;> simp

theorem held_timers (now : Ms) {c : Cell} (h : Held c none) : Held (c.timers now) none := by
  obtain he | ⟨-, hst, hg, -, -, he⟩ | ⟨-, hst, -, -, -, he⟩ | ⟨hidle, hw, n, w, he⟩ :=
    timers_cases now c <;> rw [he]
  · exact h
  · exact held_same h ⟨rfl, rfl, id, id, id, fun _ => .inr ⟨hg, by simp [hst]⟩, fun _ => hg,
      fun _ => .inl rfl⟩
  · have hg := h.joined hst
    obtain ⟨hgroup, hj, hr, hat, hpj, hpf⟩ := enterBackoff_rests now
      { c with pendingLeave := true, leaveReason := .stale }
    exact held_same h ⟨hgroup, hat, (hpj ▸ ·), (hpf ▸ ·), fun h => absurd h hr,
      fun _ => .inr ⟨hg, by simp [hst]⟩, fun _ => hg,
      fun _ => .inl (enterBackoff_pendingLeave _ _)⟩
  · have hl := ((idle_iff c).mp hidle).1
    have hg : c.groupNumber = noGroup := by
      obtain hg | hl' | ⟨a, ha, -⟩ := h.waiting hw
      · exact hg
      · simp [hl] at hl'
      · cases ha
    refine held_groupless hg (fun hj => ?_) hl (by simp) (by simp)
    dsimp only at hj
    rw [hj] at hw
    cases hw

/-- A planned start is for a cell without a group, a planned leave for one with a group. -/
theorem held_plan {r : Registry} {now : Ms} {c : Cell} (h : Held c none) :
    Held (planCell r now c).1 (planCell r now c).2 ∧
      ∀ a, (planCell r now c).2 = some a → a.kind ≠ .leave → c.groupNumber = noGroup := by
  unfold planCell Cell.plan
  by_cases hr : c.state = .retiring
  · rw [if_pos hr]
    exact ⟨h, by simp⟩
  rw [if_neg hr]
  have ht := held_timers now h
  have hgroup := timers_groupNumber now c
  obtain he | ⟨hl, he⟩ | ⟨hl, -, -, hp, he⟩ := emit_cases r.accepting r.generation
    (blocked r c.chatIdHex) now (c.timers now) <;> rw [he]
  · exact ⟨ht, by simp⟩
  · obtain ⟨hg, hret⟩ := ht.owed hl
    refine ⟨⟨ht.pending, ht.joined, by simp, fun _ => .inr (.inr ⟨_, rfl, rfl⟩), ?_, ?_⟩, ?_⟩
    · rintro a ha hk
      cases ha
      exact absurd rfl hk
    · rintro a ha -
      cases ha
      exact ⟨rfl, hg, hret⟩
    · rintro a ha hk
      cases ha
      exact absurd rfl hk
  · have hg := ht.pending hp
    refine ⟨held_groupless hg ?_ hl ?_ fun a _ _ => ⟨rfl, rfl⟩, fun a _ _ => hgroup.symm.trans hg⟩
    · intro hj
      dsimp only at hj
      split_ifs at hj
      exact ht.joined hj hg
    · rintro a ha
      cases ha
      exact startAction_kind _ _

theorem held_landed {c : Cell} {a : Action} (h : Held c (some a))
    (hw : c.state.waits = true → a.kind = .leave → c.groupNumber = noGroup ∨ c.pendingLeave = true) :
    Held c none := by
  refine ⟨h.pending, h.joined, h.owed, fun hs => ?_, by simp, by simp⟩
  obtain hg | hl | ⟨b, hb, hk⟩ := h.waiting hs
  · exact .inl hg
  · exact .inr (.inl hl)
  · cases hb
    exact (hw hs hk).imp id .inl

theorem held_issued {generation : ℕ} {record : Cell → Cell} {refused : Cell → Bool}
    {a : Action} {c : Cell} (h : Held c (some a)) (hk : a.kind ≠ .leave)
    (hrec : c.groupNumber = noGroup → c.pendingJoin = false → c.pendingFound = false →
      c.pendingLeave = false → Held (record c) none) :
    Held (c.issued generation record refused a.generation a.attempt) none := by
  unfold Cell.issued
  split_ifs with haw
  · simp only [Cell.awaits, Bool.and_eq_true, decide_eq_true_eq] at haw
    obtain ⟨hg, hj, hf⟩ := h.starting a rfl hk haw.1.1.2.symm
    refine hrec hg hj hf ?_
    by_contra hl
    exact (h.owed (by simpa using hl)).1 hg
  · exact held_landed h fun _ hl => absurd hl hk

/-- A failed start of a cell without a group. -/
theorem held_backoff {now : Ms} {c : Cell} (hl : c.pendingLeave = false) :
    Held (Cell.enterBackoff now { c with groupNumber := noGroup }) none := by
  obtain ⟨hg, hj, -⟩ := enterBackoff_rests now { c with groupNumber := noGroup }
  exact held_groupless hg hj ((enterBackoff_pendingLeave _ _).trans hl) (by simp) (by simp)

/-- The invariant of one chat id. -/
def Moored : Local := fun r id x f => Stamped r id x f ∧ (∀ c, x = some c → Held c f) ∧
  (x = none → ∀ a, f = some a → a.kind ≠ .leave)

theorem moored_none {r : Registry} {id : ChatIdHex} : Moored r id none none :=
  ⟨by simp [Stamped], by simp, by simp⟩

theorem held_step (derive : Seed → Option ChatId) {s s' : Session} {e : Event}
    {id : ChatIdHex} {c' : Cell} (hw : WellFormed s) (hcond : relinquished s e = true)
    (hs : step derive s e = some s') (hI : Moored.at s id)
    (hc' : s'.registry.cells[id]? = some c') : Held c' (flightAt s' id) := by
  have he := step_effect derive hw hs id
  obtain ⟨hstamp, hheld, hgone⟩ := hI
  rw [hc'] at he
  generalize hx : s.registry.cells[id]? = x at he hheld hgone
  generalize flightAt s id = f at he hstamp hheld hgone
  generalize flightAt s' id = f' at he ⊢
  generalize hy : some c' = y at he
  cases he with
  | op hfree _ h =>
    subst hy
    exact held_op hstamp hfree hgone hheld h
  | planned =>
    cases hy
    exact (held_plan (hheld _ rfl)).1
  | elsewhere => exact hheld c' hy.symm
  | joinIssued hkey hk =>
    cases hy
    refine held_issued (hheld _ rfl) (by simp [hk]) fun hg hj hf hl => ?_
    obtain ⟨hn, he⟩ | he := joinIssued_cases _ _ _ _ <;> rw [he]
    · exact ⟨by simp [hj, hf], by simp, by simp [hl], by simp [State.waits], by simp, by simp⟩
    · exact held_backoff hl
  | foundIssued hkey hk =>
    cases hy
    refine held_issued (hheld _ rfl) (by simp [hk]) fun hg hj hf hl => ?_
    obtain ⟨hn, he⟩ | he := foundIssued_cases _ _ _ _ <;> rw [he]
    · exact ⟨by simp [hj, hf], fun _ => hn, by simp [hl], by simp [State.waits], by simp, by simp⟩
    · exact held_backoff hl
  | left hkey hk =>
    rename_i a now c
    obtain ⟨hg, hn, -⟩ := (hheld c rfl).leaving a rfl hk
    rw [Cell.left, if_neg (by simpa using hg), if_neg (hg ▸ hn)] at hy
    cases hy
    exact ⟨by simp [Cell.leaveIssued], by simp, by simp [Cell.leaveIssued], by simp [State.waits],
      by simp, by simp⟩
  | kept hkey hk =>
    rename_i a now c _
    have hold := hheld c rfl
    obtain ⟨-, hn, hr⟩ := hold.leaving a rfl hk
    cases hy
    exact ⟨hold.pending, hold.joined, fun _ => ⟨hn, hr⟩, fun _ => .inr (.inl rfl), by simp, by simp⟩
  | lost hkey =>
    subst hkey hy
    refine held_landed (hheld c' rfl) fun hwaits _ => .inr ?_
    simpa [relinquished, hx, hwaits] using hcond
  | dropped hkey hk => exact held_landed (hheld c' hy.symm) fun _ hl => absurd hl hk
  | cleared | unplanned | unheard => cases hy

theorem moored_step (derive : Seed → Option ChatId) (s : Session) (e : Event) (s' : Session)
    (id : ChatIdHex) (hw : WellFormed s) (hcond : relinquished s e = true)
    (hs : step derive s e = some s') (hI : Moored.at s id) : Moored.at s' id := by
  refine ⟨stamped_step derive s e s' id hw hs hI.1,
    fun c' hc' => held_step derive hw hcond hs hI hc', ?_⟩
  have he := step_effect derive hw hs id
  obtain ⟨-, hheld, hgone⟩ := hI
  intro hx' a ha hk
  rw [hx', ha] at he
  generalize s.registry.cells[id]? = x at he hheld hgone
  generalize flightAt s id = f at he hheld hgone
  generalize hy : (none : Option Cell) = y at he
  generalize hf' : some a = f' at he
  cases he with
  | op hfree hclear h =>
    subst hf'
    cases h with
    | missed => exact hgone hy.symm a rfl hk
    | absent => exact hgone rfl a rfl hk
    | cleared => exact absurd rfl hclear
    | leaveAsked =>
      rename_i now c _
      obtain ⟨-, hn, -⟩ := (hheld c rfl).leaving a rfl hk
      obtain ⟨-, he⟩ | ⟨-, hg, -⟩ | ⟨-, -, he⟩ := requestLeave_cases now c
      · rw [he] at hy
        cases hy
      · exact hn hg
      · rw [he] at hy
        cases hy
    | retired =>
      rename_i n now c
      obtain ⟨-, -, hr⟩ := (hheld c rfl).leaving a rfl hk
      unfold Cell.retired at hy
      rw [if_neg (fun h => hr h.1)] at hy
      cases hy
    | left | planned | joinIssued | foundIssued | kept => simp [driven] at hfree
    | _ => cases hy
  | elsewhere => exact hgone hy.symm a hf'.symm hk
  | planned => cases hy
  | _ => cases hf'

theorem moored_run (derive : Seed → Option ChatId) {es : List Event} {s : Session}
    (hm : Meets (step derive) (fun s e => relinquished s e = true) {} es)
    (hr : exec (step derive) {} es = some s) (id : ChatIdHex) : Moored.at s id :=
  local_invariant derive (fun _ => moored_none) (moored_step derive) hm hr id

/-! ## In every run -/

/-- What holds of a cell and its planned action without any condition on the run. -/
structure Berthed (c : Cell) (f : Option Action) : Prop where
  joined : c.state = .joined → c.groupNumber ≠ noGroup
  retiring : c.state = .retiring → c.groupNumber ≠ noGroup ∧ c.pendingLeave = false
  owed : c.pendingLeave = true → c.groupNumber ≠ noGroup ∨ c.state.waits = true
  leaving : ∀ a, f = some a → a.kind = .leave →
    c.groupNumber = a.groupNumber ∧ c.state ≠ .retiring
  starting : ∀ a, f = some a → a.kind ≠ .leave → a.attempt = c.attempt →
    c.pendingJoin = false ∧ c.pendingFound = false

/-- A leave in flight without a cell was planned without a group. -/
def BerthedAt (x : Option Cell) (f : Option Action) : Prop :=
  (∀ c, x = some c → Berthed c f) ∧
    (x = none → ∀ a, f = some a → a.kind = .leave → a.groupNumber = noGroup)

/-- An effect that keeps the group and starts nothing. -/
structure SameBerth (c c' : Cell) : Prop where
  group : c'.groupNumber = c.groupNumber
  attempt : c'.attempt = c.attempt
  join : c'.pendingJoin = true → c.pendingJoin = true
  found : c'.pendingFound = true → c.pendingFound = true
  retiring : c'.state = .retiring → c.state = .retiring ∧ c'.pendingLeave = c.pendingLeave

/-- A cell with a group after an effect that kept it. -/
theorem berthed_of_group {c c' : Cell} {f : Option Action} (h : Berthed c f)
    (hg : c.groupNumber ≠ noGroup) (hs : SameBerth c c') : Berthed c' f := by
  have hg' : c'.groupNumber ≠ noGroup := by rwa [hs.group]
  refine ⟨fun _ => hg', ?_, fun _ => .inl hg', ?_, ?_⟩
  · intro hret
    obtain ⟨hret, hp⟩ := hs.retiring hret
    exact ⟨hg', hp.trans (h.retiring hret).2⟩
  · intro a ha hk
    obtain ⟨hga, hret⟩ := h.leaving a ha hk
    exact ⟨hs.group.trans hga, fun hret' => hret (hs.retiring hret').1⟩
  · intro a ha hk hat
    obtain ⟨hj, hf⟩ := h.starting a ha hk (hat.trans hs.attempt)
    exact ⟨Bool.eq_false_iff.mpr fun h => Bool.eq_false_iff.mp hj (hs.join h),
      Bool.eq_false_iff.mpr fun h => Bool.eq_false_iff.mp hf (hs.found h)⟩

theorem berthed_groupless {c : Cell} {f : Option Action} (hg : c.groupNumber = noGroup)
    (hj : c.state ≠ .joined) (hr : c.state ≠ .retiring)
    (hl : c.pendingLeave = true → c.state.waits = true)
    (hf : ∀ a, f = some a → a.kind = .leave → a.groupNumber = noGroup)
    (hst : ∀ a, f = some a → a.kind ≠ .leave → a.attempt = c.attempt →
      c.pendingJoin = false ∧ c.pendingFound = false) : Berthed c f :=
  ⟨fun h => absurd h hj, fun h => absurd h hr, fun h => .inr (hl h),
    fun a ha hk => ⟨hg.trans (hf a ha hk).symm, hr⟩, hst⟩

theorem berthed_finishRetire {nextAttempt : ℕ} {now : Ms} {c c' : Cell} {f : Option Action}
    (hstamp : ∀ a, f = some a → a.attempt < nextAttempt) (hl : c.pendingLeave = false)
    (hf : ∀ a, f = some a → a.kind = .leave → a.groupNumber = noGroup)
    (hst : ∀ a, f = some a → a.kind ≠ .leave → a.attempt = c.attempt →
      c.pendingJoin = false ∧ c.pendingFound = false)
    (h : c.finishRetire nextAttempt now = some c') : Berthed c' f := by
  obtain ⟨hg, hj, hl', hat⟩ := finishRetire_groupless h
  refine berthed_groupless hg hj (finishRetire_state h) (by simp [hl', hl]) hf fun a ha hk heq => ?_
  have hlt := hstamp a ha
  obtain hat | ⟨hat, hpj, hpf⟩ := hat
  · omega
  · rw [hpj, hpf]
    exact hst a ha hk (heq.trans hat)

theorem sameBerth_expelled (reason : Reason) (now : Ms) (c : Cell) :
    SameBerth c (c.expelled reason now) := by
  obtain ⟨hsame, -, hr, hat, hpj, hpf⟩ := enterBackoff_rests now
    { c with pendingLeave := true, leaveReason := reason, pendingJoin := false
             pendingFound := false }
  refine ⟨hsame, hat, fun hp => ?_, fun hp => ?_, fun hret => absurd hret hr⟩
  · cases hpj.symm.trans hp
  · cases hpf.symm.trans hp

theorem berthed_op {derive : Seed → Option ChatId} {r : Registry} {key : ChatIdHex} {o : Op}
    {x : Option Cell} {c' : Cell} {f : Option Action}
    (hstamp : ∀ a, f = some a → a.attempt < r.nextAttempt) (hfree : driven o = false)
    (hI : BerthedAt x f) (h : OpEffect derive r key o x (some c')) : Berthed c' f := by
  generalize hy : some c' = y at h
  cases h with
  | missed => exact hI.1 c' hy.symm
  | absent | cleared => cases hy
  | created =>
    cases hy
    refine berthed_groupless rfl (by simp [newCell]) (by simp [newCell]) (by simp [newCell])
      (hI.2 rfl) fun a ha _ hat => ?_
    have hlt := hstamp a ha
    simp only [newCell] at hat
    omega
  | present => exact hI.1 c' hy.symm
  | deferred hret =>
    cases hy
    have hold := hI.1 _ rfl
    exact berthed_of_group hold (hold.retiring hret).1 ⟨rfl, rfl, id, id, fun h => ⟨h, rfl⟩⟩
  | leaveAsked =>
    rename_i now c _
    have hold := hI.1 c rfl
    obtain ⟨hret, he⟩ | ⟨-, -, he⟩ | ⟨hret, hg, he⟩ := requestLeave_cases now c <;>
      rw [he] at hy <;> cases hy
    · exact berthed_of_group hold (hold.retiring hret).1
        ⟨rfl, rfl, by simp, by simp, fun h => ⟨h, rfl⟩⟩
    · exact berthed_of_group hold hg ⟨rfl, rfl, by simp, by simp, fun h => absurd h hret⟩
  | planned | joinIssued | foundIssued | left | kept => simp [driven] at hfree
  | retired =>
    rename_i n now c
    have hold := hI.1 c rfl
    unfold Cell.retired at hy
    split_ifs at hy with hret
    · refine berthed_finishRetire hstamp (hold.retiring hret.1).2 (fun a ha hk => ?_) hold.starting
        hy.symm
      exact absurd hret.1 (hold.leaving a ha hk).2
    · cases hy
      exact hold
  | selfJoin hact =>
    obtain ⟨hn, -, hg, -⟩ := activeCell_some hact
    cases hy
    exact berthed_of_group (hI.1 _ rfl) (hg ▸ hn) ⟨rfl, rfl, id, id, by simp [Cell.selfJoin]⟩
  | peerJoin hact =>
    rename_i peer pk now c
    obtain ⟨hn, -, hg, hr⟩ := activeCell_some hact
    obtain ⟨-, he⟩ | ⟨-, b, co, since, retries, he⟩ := peerJoin_cases peer pk now c <;>
      rw [he] at hy <;> cases hy
    · exact hI.1 _ rfl
    · refine berthed_of_group (hI.1 c rfl) (hg ▸ hn) ⟨rfl, rfl, id, id, ?_⟩
      dsimp only
      split_ifs
      · intro hret
        cases hret
      · exact fun hret => absurd hret hr
  | peerExit hact =>
    rename_i peer self now c
    obtain ⟨hn, -, hg, hr⟩ := activeCell_some hact
    obtain ⟨-, he⟩ | ⟨-, b, co, he⟩ := peerExit_cases peer self now c <;> rw [he] at hy <;> cases hy
    · exact hI.1 _ rfl
    · exact berthed_of_group (hI.1 c rfl) (hg ▸ hn) ⟨rfl, rfl, id, id, fun hret => absurd hret hr⟩
  | joinFail hact =>
    obtain ⟨hn, -, hg, -⟩ := activeCell_some hact
    cases hy
    exact berthed_of_group (hI.1 _ rfl) (hg ▸ hn) (sameBerth_expelled _ _ _)
  | kicked hact =>
    obtain ⟨hn, -, hg, -⟩ := activeCell_some hact
    cases hy
    exact berthed_of_group (hI.1 _ rfl) (hg ▸ hn) (sameBerth_expelled _ _ _)
  | packet hact =>
    rename_i n peer pk isPrivate payload now c
    obtain ⟨hn, -, hg, hr⟩ := activeCell_some hact
    obtain ⟨peers, budget, -, he⟩ := packet_eq peer pk isPrivate payload now c
    rw [he] at hy
    cases hy
    exact berthed_of_group (hI.1 c rfl) (hg ▸ hn) ⟨rfl, rfl, id, id, fun hret => absurd hret hr⟩

theorem berthedAt_op {derive : Seed → Option ChatId} {r : Registry} {key : ChatIdHex} {o : Op}
    {x x' : Option Cell} {f : Option Action}
    (hstamp : ∀ a, f = some a → a.attempt < r.nextAttempt) (hfree : driven o = false)
    (hclear : o ≠ .clear) (hI : BerthedAt x f) (h : OpEffect derive r key o x x') : BerthedAt x' f := by
  refine ⟨?_, ?_⟩
  · rintro c' rfl
    exact berthed_op hstamp hfree hI h
  · intro hx' a ha hk
    by_contra hn
    cases h with
    | missed => exact hn (hI.2 hx' a ha hk)
    | absent => exact hn (hI.2 rfl a ha hk)
    | cleared => exact hclear rfl
    | leaveAsked =>
      rename_i now c _
      obtain ⟨hg, -⟩ := (hI.1 c rfl).leaving a ha hk
      obtain ⟨-, he⟩ | ⟨-, hno, -⟩ | ⟨-, -, he⟩ := requestLeave_cases now c
      · rw [he] at hx'
        cases hx'
      · exact hn (hg.symm.trans hno)
      · rw [he] at hx'
        cases hx'
    | retired =>
      rename_i n now c
      obtain ⟨-, hr⟩ := (hI.1 c rfl).leaving a ha hk
      unfold Cell.retired at hx'
      rw [if_neg fun h => hr h.1] at hx'
      cases hx'
    | left | planned | joinIssued | foundIssued | kept => simp [driven] at hfree
    | _ => cases hx'

theorem berthed_timers (now : Ms) {c : Cell} (h : Berthed c none) : Berthed (c.timers now) none := by
  obtain he | ⟨-, hst, hg, -, -, he⟩ | ⟨-, hst, -, -, -, he⟩ | ⟨hidle, hw, n, w, he⟩ :=
    timers_cases now c <;> rw [he]
  · exact h
  · exact berthed_of_group h hg ⟨rfl, rfl, id, id, fun hret => by simp [hst] at hret⟩
  · obtain ⟨hsame, -, hr, hat, hpj, hpf⟩ := enterBackoff_rests now
      { c with pendingLeave := true, leaveReason := .stale }
    exact berthed_of_group h (h.joined hst)
      ⟨hsame, hat, (hpj ▸ ·), (hpf ▸ ·), fun hret => absurd hret hr⟩
  · exact ⟨h.joined, h.retiring, h.owed, by simp, by simp⟩

theorem berthed_plan {r : Registry} {now : Ms} {c : Cell} (h : Berthed c none) :
    Berthed (planCell r now c).1 (planCell r now c).2 := by
  unfold planCell Cell.plan
  by_cases hr : c.state = .retiring
  · rw [if_pos hr]
    exact h
  rw [if_neg hr]
  have ht := berthed_timers now h
  have hstate := timers_state now hr
  obtain he | ⟨hl, he⟩ | ⟨hl, -, -, -, he⟩ := emit_cases r.accepting r.generation
    (blocked r c.chatIdHex) now (c.timers now) <;> rw [he]
  · exact ht
  · refine ⟨ht.joined, fun hret => absurd hret hstate, by simp, ?_, ?_⟩
    · rintro a ha -
      cases ha
      exact ⟨rfl, hstate⟩
    · rintro a ha hk
      cases ha
      exact absurd rfl hk
  · refine ⟨?_, ?_, by simp [hl], ?_, fun _ _ _ _ => ⟨rfl, rfl⟩⟩
    · intro hj
      dsimp only at hj
      split_ifs at hj
      exact ht.joined hj
    · intro hret
      dsimp only at hret
      split_ifs at hret
      exact absurd hret hstate
    · rintro a ha hk
      cases ha
      exact absurd hk (startAction_kind _ _)

theorem berthed_landed {c : Cell} {f : Option Action} (h : Berthed c f) : Berthed c none :=
  ⟨h.joined, h.retiring, h.owed, by simp, by simp⟩

theorem berthed_recorded {c : Cell} (hg : c.groupNumber ≠ noGroup) (hr : c.state ≠ .retiring) :
    Berthed c none :=
  ⟨fun _ => hg, fun h => absurd h hr, fun _ => .inl hg, by simp, by simp⟩

theorem berthed_backoff (now : Ms) (c : Cell) : Berthed (Cell.enterBackoff now c) none := by
  obtain ⟨-, hj, hr, -⟩ := enterBackoff_rests now c
  exact ⟨fun h => absurd h hj, fun h => absurd h hr, fun _ => .inr (enterBackoff_waits now c),
    by simp, by simp⟩

theorem berthed_issued {generation : ℕ} {record : Cell → Cell} {refused : Cell → Bool}
    {a : Action} {c : Cell} (h : Berthed c (some a)) (hrec : Berthed (record c) none) :
    Berthed (c.issued generation record refused a.generation a.attempt) none := by
  unfold Cell.issued
  split_ifs
  · exact hrec
  · exact berthed_landed h

theorem berthed_left {nextAttempt : ℕ} {a : Action} {now : Ms} {c c' : Cell}
    (h : Berthed c (some a)) (hc' : c.left nextAttempt a.reason now a.groupNumber = some c') :
    Berthed c' none := by
  unfold Cell.left at hc'
  split_ifs at hc' with hg hn
  · cases hc'
    exact berthed_landed h
  · exact berthed_finishRetire (by simp) rfl (by simp) (by simp) hc'
  · cases hc'
    have hsame : c.groupNumber = a.groupNumber := by simpa using hg
    have hg' : c.groupNumber ≠ noGroup := fun h => hn (hsame.symm.trans h)
    exact ⟨by simp, fun _ => ⟨hg', rfl⟩, by simp [Cell.leaveIssued], by simp, by simp⟩

/-- The unconditional invariant of one chat id. -/
def Berthing : Local := fun r id x f => Stamped r id x f ∧ BerthedAt x f

theorem berthing_none {r : Registry} {id : ChatIdHex} : Berthing r id none none :=
  ⟨by simp [Stamped], by simp, by simp⟩

theorem berthing_step (derive : Seed → Option ChatId) {s s' : Session} {e : Event}
    {key : ChatIdHex} (hw : WellFormed s) (hs : step derive s e = some s')
    (hI : Berthing.at s key) : Berthing.at s' key := by
  refine ⟨stamped_step derive s e s' key hw hs hI.1, ?_⟩
  have he := step_effect derive hw hs key
  obtain ⟨hstamp, hI⟩ := hI
  generalize s'.registry.cells[key]? = x' at he ⊢
  generalize flightAt s' key = f' at he ⊢
  generalize s.registry.cells[key]? = x at he hI
  generalize flightAt s key = f at he hI hstamp
  have hone : ∀ c' : Cell, Berthed c' none → BerthedAt (some c') none := by
    intro c' h
    refine ⟨fun c hc => ?_, by simp⟩
    cases hc
    exact h
  cases he with
  | op hfree hclear h => exact berthedAt_op hstamp hfree hclear hI h
  | cleared | unheard => exact ⟨by simp, by simp⟩
  | planned =>
    refine ⟨fun c hc => ?_, by simp⟩
    cases hc
    exact berthed_plan (hI.1 _ rfl)
  | unplanned => exact hI
  | elsewhere => exact hI
  | joinIssued =>
    refine hone _ (berthed_issued (hI.1 _ rfl) ?_)
    obtain ⟨hn, he⟩ | he := joinIssued_cases _ _ _ _ <;> rw [he]
    · exact berthed_recorded hn (by simp)
    · exact berthed_backoff _ _
  | foundIssued =>
    refine hone _ (berthed_issued (hI.1 _ rfl) ?_)
    obtain ⟨hn, he⟩ | he := foundIssued_cases _ _ _ _ <;> rw [he]
    · exact berthed_recorded hn (by simp)
    · exact berthed_backoff _ _
  | left => exact ⟨fun c' hc' => berthed_left (hI.1 _ rfl) hc', by simp⟩
  | kept hkey hk hn =>
    rename_i a now c
    obtain ⟨hg, hr⟩ := (hI.1 c rfl).leaving a rfl hk
    exact hone _ (berthed_recorded (c := c.leaveFailed now) (by rw [← hg] at hn; exact hn) hr)
  | lost | dropped => exact ⟨fun c hc => berthed_landed (hI.1 c hc), by simp⟩

end Tim2Tox.RendezvousSession
