import Tim2Tox.RendezvousFlights

set_option autoImplicit false

/-!
# The groups toxcore holds

The session next to toxcore's map of live group numbers, with the place
`RendezvousTick` has reached. The tick and the toxcore iteration run on one
thread, so a group is deleted only between two ticks; client requests,
callbacks and ordinary groups come at any time. Every rendezvous group that
toxcore holds has a holder on our side.
-/
namespace Tim2Tox.RendezvousSession
open RendezvousCodec RendezvousGroups LabelledRuns

/-- Where the event thread is: before or after a tick, in `RendezvousLeaveZombies`, in
    `RendezvousConfirmRetired`, or in `RendezvousExecute`, there with a group it just
    created and has not recorded, or with one that was refused and is to be left. -/
inductive Phase where
  | idle
  | zombies (rest : List (GroupNumber × ChatIdHex))
  | confirming (rest : List (GroupNumber × ChatIdHex))
  | executing
  | created (a : Action) (n : GroupNumber)
  | refused (a : Action) (n : GroupNumber)
  deriving DecidableEq

/-- `tox` maps each live number to its chat id; an ordinary group has none of ours. -/
structure World where
  session : Session := {}
  tox : Std.TreeMap GroupNumber (Option ChatIdHex) := ∅
  phase : Phase := .idle

inductive Turn where
  | request (o : Op)
  | ordinary (n : GroupNumber)
  | iterate (n : GroupNumber)
  | reused (n : GroupNumber) (now : Ms)
  | stray (n : GroupNumber)
  | tick
  | zombie (gone : Bool)
  | confirm
  | check (now : Ms)
  | plan (now : Ms)
  | create (a : Action) (n : GroupNumber)
  | record (now : Ms)
  | undo (gone : Bool)
  | report (a : Action) (outcome : Outcome) (now : Ms)
  | drop (a : Action)
  | done

/-- Client requests and callbacks; the rest is the driver's. -/
def requested (o : Op) : Bool := !driven o && !o.moves

/-- Toxcore holds a group of `id`. -/
def World.exists (w : World) (id : ChatIdHex) : Bool := w.tox.toList.any fun entry => entry.2 = some id

/-- The group may be what toxcore returns for the start: a free number, or a group of that
    chat id; a join of a chat id that exists returns its number. -/
def World.returns (w : World) (a : Action) (n : GroupNumber) : Bool :=
  n ≠ noGroup && (w.tox[n]? = none || w.tox[n]? = some (some a.chatIdHex)) &&
    (a.kind ≠ .join || !w.exists a.chatIdHex || w.tox[n]? = some (some a.chatIdHex))

/-- Whether the registry records the group on the cell it was created for. -/
def recordsGroup (r : Registry) (a : Action) (n : GroupNumber) (now : Ms) : Bool :=
  match a.kind with
  | .join => (onJoinIssued r a.chatIdHex n true now a.generation a.attempt).2
  | .found => (onFoundIssued r a.chatIdHex n true now a.generation a.attempt).2
  | .leave => false

/-- What a report says of toxcore: a start failed, or the group of a failed leave is there. -/
def World.allows (w : World) (a : Action) : Outcome → Bool
  | .issued n ok => !ok && n = noGroup
  | .left => true
  | .kept | .lost => w.tox[a.groupNumber]? = some (some a.chatIdHex)

section
variable (derive : Seed → Option ChatId)

def World.after (w : World) (phase : Phase) (e : Event) : Option World :=
  (step derive w.session e).map fun s => { w with session := s, phase }

/-- A left group is an orphan until toxcore deletes it, one that could not be left a zombie. -/
def noted (n : GroupNumber) (id : ChatIdHex) (gone : Bool) : Event :=
  .op (if gone then .noteRetiringOrphan n id else .noteZombie n id)

def worldStep (w : World) : Turn → Option World
  | .request o => if requested o then w.after derive w.phase (.op o) else none
  | .ordinary n =>
    if n ≠ noGroup && w.tox[n]? = none then some { w with tox := w.tox.insert n none } else none
  | .iterate n => if w.phase = .idle then some { w with tox := w.tox.erase n } else none
  | .reused n now => match retiringChatIdOf w.session.registry n with
    | some id =>
      if w.tox[n]? ≠ some (some id) then w.after derive w.phase (.op (.onRetired id n now)) else none
    | none => none
  | .stray n => match w.tox[n]? with
    | some (some id) =>
      if w.phase = .idle then w.after derive .idle (.op (.noteZombie n id)) else none
    | _ => none
  | .tick =>
    if w.phase = .idle then
      w.after derive (.zombies (takeZombies w.session.registry).2) (.op .takeZombies) else none
  | .zombie gone => match w.phase with
    | .zombies ((n, id) :: rest) =>
      -- `LeaveGroup` fails only on a group that exists.
      if gone || w.tox[n]?.isSome then w.after derive (.zombies rest) (noted n id gone) else none
    | _ => none
  | .confirm => match w.phase with
    | .zombies [] => some { w with phase := .confirming (retiring w.session.registry) }
    | _ => none
  | .check now => match w.phase with
    | .confirming ((n, id) :: rest) =>
      if w.tox[n]? = some (some id) then some { w with phase := .confirming rest }
      else w.after derive (.confirming rest) (.op (.onRetired id n now))
    | _ => none
  | .plan now => match w.phase with
    | .confirming [] => w.after derive .executing (.plan now)
    | _ => none
  | .create a n => match w.phase with
    | .executing =>
      if a ∈ w.session.batch ∧ a.kind ≠ .leave ∧ w.returns a n then
        some { w with tox := w.tox.insert n (some a.chatIdHex), phase := .created a n }
      else none
    | _ => none
  | .record now => match w.phase with
    | .created a n =>
      w.after derive (if recordsGroup w.session.registry a n now then .executing else .refused a n)
        (.report a (.issued n true) now)
    | _ => none
  | .undo gone => match w.phase with
    | .refused a n => w.after derive .executing (noted n a.chatIdHex gone)
    | _ => none
  | .report a outcome now => match w.phase with
    | .executing =>
      if w.allows a outcome then w.after derive .executing (.report a outcome now) else none
    | _ => none
  | .drop a => match w.phase with
    | .executing => w.after derive .executing (.drop a)
    | _ => none
  | .done => match w.phase with
    | .executing => if w.session.batch = [] then some { w with phase := .idle } else none
    | _ => none

end

/-! ## The cell of one chat id -/

/-- A result or a timer is about to take the group from the cell. -/
def Exposed (c : Cell) (f : Option Action) : Prop :=
  c.pendingJoin = true ∨ c.pendingFound = true ∨
    (c.state.waits = true ∧ c.pendingLeave = false ∧ ∀ a, f = some a → a.kind ≠ .leave) ∨
    ∃ a, f = some a ∧ a.kind ≠ .leave ∧ a.attempt = c.attempt

/-- The group of an exposed cell may go. -/
def Sheltered (P : GroupNumber → Prop) (c : Cell) (f : Option Action) : Prop :=
  Exposed c f → P c.groupNumber

section
variable {P : GroupNumber → Prop}

theorem sheltered_same {c c' : Cell} {f : Option Action} (h : Sheltered P c f)
    (hs : SameBerth c c')
    (hw : c'.state.waits = true → c'.pendingLeave = false →
      c.state.waits = true ∧ c.pendingLeave = false) : Sheltered P c' f := by
  intro hexp
  rw [hs.group]
  refine h ?_
  obtain hj | hf | ⟨hst, hl, hk⟩ | ⟨a, ha, hk, hat⟩ := hexp
  · exact .inl (hs.join hj)
  · exact .inr (.inl (hs.found hf))
  · obtain ⟨hst, hl⟩ := hw hst hl
    exact .inr (.inr (.inl ⟨hst, hl, hk⟩))
  · exact .inr (.inr (.inr ⟨a, ha, hk, hat.trans hs.attempt⟩))

theorem sheltered_groupless (hP : P noGroup) {c : Cell} {f : Option Action}
    (hg : c.groupNumber = noGroup) : Sheltered P c f := by
  intro _
  rwa [hg]

/-- The cell keeps its group, or the group may go. -/
def KeepsGroup (P : GroupNumber → Prop) (x x' : Option Cell) : Prop :=
  ∀ c, x = some c → (∃ c', x' = some c' ∧ c'.groupNumber = c.groupNumber) ∨ P c.groupNumber

theorem sheltered_op {derive : Seed → Option ChatId} {r : Registry} {key : ChatIdHex} {o : Op}
    {x x' : Option Cell} {f : Option Action} (hP : P noGroup) (hfree : driven o = false)
    (hclear : o ≠ .clear) (hret : ∀ n now, o = .onRetired key n now → P n)
    (hI : ∀ c, x = some c → Sheltered P c f) (h : OpEffect derive r key o x x') :
    (∀ c', x' = some c' → Sheltered P c' f) ∧ KeepsGroup P x x' := by
  have hsame : ∀ c c' : Cell, Sheltered P c f → SameBerth c c' →
      (c'.state.waits = true → c'.pendingLeave = false →
        c.state.waits = true ∧ c.pendingLeave = false) →
      (∀ y, some c' = some y → Sheltered P y f) ∧ KeepsGroup P (some c) (some c') := by
    intro c c' hc hs hw
    refine ⟨?_, ?_⟩
    · intro y hy
      cases hy
      exact sheltered_same hc hs hw
    · intro y hy
      cases hy
      exact .inl ⟨c', rfl, hs.group⟩
  have hrefl : ∀ c : Cell, SameBerth c c := fun c => ⟨rfl, rfl, id, id, fun h => ⟨h, rfl⟩⟩
  cases h with
  | missed => exact ⟨hI, fun c hc => .inl ⟨c, hc, rfl⟩⟩
  | absent => exact ⟨by simp, by simp [KeepsGroup]⟩
  | cleared => exact absurd rfl hclear
  | created =>
    refine ⟨fun c hc => ?_, by simp [KeepsGroup]⟩
    cases hc
    exact sheltered_groupless hP rfl
  | present => exact hsame _ _ (hI _ rfl) (hrefl _) fun h h' => ⟨h, h'⟩
  | deferred =>
    exact hsame _ _ (hI _ rfl) ⟨rfl, rfl, id, id, fun h => ⟨h, rfl⟩⟩ fun h h' => ⟨h, h'⟩
  | leaveAsked =>
    rename_i now c _
    obtain ⟨hr, he⟩ | ⟨-, hg, he⟩ | ⟨hr, hg, he⟩ := requestLeave_cases now c <;> rw [he]
    · exact hsame _ _ (hI _ rfl) ⟨rfl, rfl, by simp, by simp, fun h => ⟨h, rfl⟩⟩ fun h h' => ⟨h, h'⟩
    · refine ⟨by simp, fun y hy => ?_⟩
      cases hy
      exact .inr (by rwa [hg])
    · exact hsame _ _ (hI _ rfl) ⟨rfl, rfl, by simp, by simp, fun h => absurd h hr⟩ (by simp)
  | planned | joinIssued | foundIssued | left | kept => simp [driven] at hfree
  | retired =>
    rename_i n now c
    unfold Cell.retired
    split_ifs with hr
    · refine ⟨fun c' hc' => sheltered_groupless hP (finishRetire_groupless hc').1, fun y hy => ?_⟩
      cases hy
      rw [hr.2]
      exact .inr (hret n now rfl)
    · exact hsame _ _ (hI _ rfl) (hrefl _) fun h h' => ⟨h, h'⟩
  | selfJoin =>
    exact hsame _ _ (hI _ rfl) ⟨rfl, rfl, id, id, by simp [Cell.selfJoin]⟩ fun h => by cases h
  | peerJoin hact =>
    rename_i peer pk now c
    obtain ⟨-, -, -, hr⟩ := activeCell_some hact
    obtain ⟨-, he⟩ | ⟨-, b, co, since, retries, he⟩ := peerJoin_cases peer pk now c <;> rw [he]
    · exact hsame _ _ (hI _ rfl) (hrefl _) fun h h' => ⟨h, h'⟩
    · refine hsame _ _ (hI _ rfl) ⟨rfl, rfl, id, id, ?_⟩ ?_
      · dsimp only
        split_ifs
        · intro h
          cases h
        · exact fun h => absurd h hr
      · dsimp only
        split_ifs
        · intro h
          cases h
        · exact fun h h' => ⟨h, h'⟩
  | peerExit =>
    rename_i peer self now c _
    obtain ⟨-, he⟩ | ⟨-, b, co, he⟩ := peerExit_cases peer self now c <;> rw [he]
    · exact hsame _ _ (hI _ rfl) (hrefl _) fun h h' => ⟨h, h'⟩
    · exact hsame _ _ (hI _ rfl) ⟨rfl, rfl, id, id, fun h => ⟨h, rfl⟩⟩ fun h h' => ⟨h, h'⟩
  | joinFail =>
    have hl : ∀ reason now (c : Cell), (c.expelled reason now).pendingLeave = true :=
      fun _ _ _ => enterBackoff_pendingLeave _ _
    exact hsame _ _ (hI _ rfl) (sameBerth_expelled _ _ _) fun _ h => by simp [hl] at h
  | kicked =>
    have hl : ∀ reason now (c : Cell), (c.expelled reason now).pendingLeave = true :=
      fun _ _ _ => enterBackoff_pendingLeave _ _
    exact hsame _ _ (hI _ rfl) (sameBerth_expelled _ _ _) fun _ h => by simp [hl] at h
  | packet =>
    rename_i peer pk isPrivate payload now c _
    obtain ⟨peers, budget, -, he⟩ := packet_eq peer pk isPrivate payload now c
    rw [he]
    exact hsame _ _ (hI _ rfl) ⟨rfl, rfl, id, id, fun h => ⟨h, rfl⟩⟩ fun h h' => ⟨h, h'⟩

theorem sheltered_timers (now : Ms) {c : Cell} (h : Sheltered P c none) :
    Sheltered P (c.timers now) none := by
  obtain he | ⟨-, hst, -, -, -, he⟩ | ⟨-, -, -, -, -, he⟩ | ⟨hidle, hw, n, w, he⟩ :=
    timers_cases now c <;> rw [he]
  · exact h
  · exact sheltered_same h ⟨rfl, rfl, id, id, fun hret => by simp [hst] at hret⟩ (by simp)
  · obtain ⟨hsame, -, hr, hat, hpj, hpf⟩ := enterBackoff_rests now
      { c with pendingLeave := true, leaveReason := .stale }
    exact sheltered_same h ⟨hsame, hat, (hpj ▸ ·), (hpf ▸ ·), fun hret => absurd hret hr⟩ (by simp)
  · intro _
    exact h (.inr (.inr (.inl ⟨hw, ((idle_iff c).mp hidle).1, by simp⟩)))

theorem sheltered_plan {r : Registry} {now : Ms} {c : Cell} (h : Sheltered P c none) :
    Sheltered P (planCell r now c).1 (planCell r now c).2 := by
  unfold planCell Cell.plan
  by_cases hr : c.state = .retiring
  · rw [if_pos hr]
    exact h
  rw [if_neg hr]
  have ht := sheltered_timers now h
  obtain he | ⟨hl, he⟩ | ⟨hl, -, -, hp, he⟩ := emit_cases r.accepting r.generation
    (blocked r c.chatIdHex) now (c.timers now) <;> rw [he]
  · exact ht
  · rintro (hj | hf | ⟨-, -, hk⟩ | ⟨a, ha, hk, -⟩)
    · exact ht (.inl hj)
    · exact ht (.inr (.inl hf))
    · exact absurd rfl (hk _ rfl)
    · cases ha
      exact absurd rfl hk
  · intro _
    exact ht (hp.imp id .inl)

/-- A start that is not recorded leaves the cell as exposed as it was. -/
theorem sheltered_landed {c : Cell} {a : Action} (hk : a.kind ≠ .leave)
    (h : Sheltered P c (some a)) : Sheltered P c none := by
  rintro (hj | hf | ⟨hw, hl, -⟩ | ⟨b, hb, -⟩)
  · exact h (.inl hj)
  · exact h (.inr (.inl hf))
  · refine h (.inr (.inr (.inl ⟨hw, hl, fun b hb => ?_⟩)))
    cases hb
    exact hk
  · cases hb

theorem sheltered_recorded {c : Cell} (hj : c.pendingJoin = false) (hf : c.pendingFound = false)
    (hw : c.state.waits = false) : Sheltered P c none := by
  rintro (hj' | hf' | ⟨hw', -⟩ | ⟨a, ha, -⟩)
  · simp [hj] at hj'
  · simp [hf] at hf'
  · simp [hw] at hw'
  · cases ha

/-- A recorded start takes the group of an exposed cell. -/
theorem sheltered_issued {generation : ℕ} {record : Cell → Cell} {refused : Cell → Bool}
    {a : Action} {c : Cell} (hb : Berthed c (some a)) (hk : a.kind ≠ .leave)
    (h : Sheltered P c (some a))
    (hrec : c.pendingJoin = false → c.pendingFound = false → Sheltered P (record c) none) :
    let c' := c.issued generation record refused a.generation a.attempt
    (∀ y, some c' = some y → Sheltered P y none) ∧ KeepsGroup P (some c) (some c') := by
  intro c'
  have hcases : (c' = c) ∨ (c' = record c ∧ a.attempt = c.attempt) := by
    simp only [c', Cell.issued]
    split_ifs with haw
    · simp only [Cell.awaits, Bool.and_eq_true, decide_eq_true_eq] at haw
      exact .inr ⟨rfl, haw.1.1.2.symm⟩
    · exact .inl rfl
  obtain hc' | ⟨hc', hat⟩ := hcases
  · rw [hc']
    refine ⟨fun y hy => ?_, fun y hy => .inl ⟨y, hy, rfl⟩⟩
    cases hy
    exact sheltered_landed hk h
  · obtain ⟨hj, hf⟩ := hb.starting a rfl hk hat
    rw [hc']
    refine ⟨fun y hy => ?_, fun y hy => ?_⟩
    · cases hy
      exact hrec hj hf
    · cases hy
      exact .inr (h (.inr (.inr (.inr ⟨a, rfl, hk, hat⟩))))

/-- What an event does to the cell of one chat id: an exposed cell loses only a group that
    may go, and no other cell loses its group. -/
theorem sheltered_step (derive : Seed → Option ChatId) {s s' : Session} {e : Event}
    {key : ChatIdHex} (hw : WellFormed s) (hs : step derive s e = some s') (hP : P noGroup)
    (hclear : e ≠ .op .clear) (hret : ∀ n now, e = .op (.onRetired key n now) → P n)
    (hlost : ∀ a now, e = .report a .lost now → a.chatIdHex = key → P a.groupNumber)
    (hb : Berthing.at s key)
    (hI : ∀ c, s.registry.cells[key]? = some c → Sheltered P c (flightAt s key)) :
    (∀ c, s'.registry.cells[key]? = some c → Sheltered P c (flightAt s' key)) ∧
      KeepsGroup P s.registry.cells[key]? s'.registry.cells[key]? := by
  have he := step_effect derive hw hs key
  obtain ⟨-, hb⟩ := hb
  generalize s'.registry.cells[key]? = x' at he ⊢
  generalize flightAt s' key = f' at he ⊢
  generalize s.registry.cells[key]? = x at he hI hb ⊢
  generalize flightAt s key = f at he hI hb
  have hkeep : ∀ x : Option Cell, KeepsGroup P x x := fun x c hc => .inl ⟨c, hc, rfl⟩
  cases he with
  | op hfree hclear' h =>
    exact sheltered_op hP hfree hclear' (fun n now ho => hret n now (by rw [ho])) hI h
  | cleared => exact absurd rfl hclear
  | planned =>
    refine ⟨fun c hc => ?_, fun c hc => ?_⟩
    · cases hc
      exact sheltered_plan (hI _ rfl)
    · cases hc
      exact .inl ⟨_, rfl, plan_groupNumber _ _ _⟩
  | unplanned => exact ⟨by simp, hkeep _⟩
  | elsewhere => exact ⟨hI, hkeep _⟩
  | unheard => exact ⟨by simp, hkeep _⟩
  | joinIssued hkey hk =>
    refine sheltered_issued (hb.1 _ rfl) (by simp [hk]) (hI _ rfl) fun hj hf => ?_
    obtain ⟨-, he⟩ | he := joinIssued_cases _ _ _ _ <;> rw [he]
    · exact sheltered_recorded hj hf rfl
    · exact sheltered_groupless hP (enterBackoff_rests _ _).1
  | foundIssued hkey hk =>
    refine sheltered_issued (hb.1 _ rfl) (by simp [hk]) (hI _ rfl) fun hj hf => ?_
    obtain ⟨-, he⟩ | he := foundIssued_cases _ _ _ _ <;> rw [he]
    · exact sheltered_recorded hj hf rfl
    · exact sheltered_groupless hP (enterBackoff_rests _ _).1
  | left hkey hk =>
    rename_i a now c
    obtain ⟨hg, -⟩ := (hb.1 c rfl).leaving a rfl hk
    rw [Cell.left, if_neg (by simpa using hg)]
    split_ifs with hn
    · refine ⟨fun c' hc' => sheltered_groupless hP (finishRetire_groupless hc').1, fun y hy => ?_⟩
      cases hy
      exact .inr (by rw [hg, hn]; exact hP)
    · refine ⟨fun y hy => ?_, fun y hy => ?_⟩
      · cases hy
        exact sheltered_recorded rfl rfl rfl
      · cases hy
        exact .inl ⟨_, rfl, rfl⟩
  | kept hkey hk =>
    rename_i a now c _
    refine ⟨fun y hy => ?_, fun y hy => ?_⟩
    · cases hy
      rintro (hj | hf | ⟨-, hl, -⟩ | ⟨b, hb', -⟩)
      · exact hI c rfl (.inl hj)
      · exact hI c rfl (.inr (.inl hf))
      · cases hl
      · cases hb'
    · cases hy
      exact .inl ⟨_, rfl, rfl⟩
  | lost hkey hk =>
    rename_i a now _ _
    refine ⟨fun c hc => ?_, hkeep _⟩
    intro _
    rw [((hb.1 c hc).leaving a rfl hk).1]
    exact hlost a now rfl hkey
  | dropped hkey hk => exact ⟨fun c hc => sheltered_landed hk (hI c hc), hkeep _⟩

end

/-! ## Holders -/

/-- The groups only the event thread knows of. -/
def Phase.holds : Phase → List (GroupNumber × ChatIdHex)
  | .zombies rest => rest
  | .created a n | .refused a n => [(n, a.chatIdHex)]
  | _ => []

def Live (w : World) (n : GroupNumber) (id : ChatIdHex) : Prop := w.tox[n]? = some (some id)

/-- Group `n` of `id` has a holder that is not the cell. -/
def Outside (w : World) (n : GroupNumber) (id : ChatIdHex) : Prop :=
  w.session.registry.zombies[n]? = some id ∨ w.session.registry.retiringOrphans[n]? = some id ∨
    (n, id) ∈ w.phase.holds

structure Core (w : World) : Prop where
  wf : WellFormed w.session
  exact : Exact w.session.registry
  berthed : ∀ id, Berthing.at w.session id
  numbers : ∀ n x, w.tox[n]? = some x → n ≠ noGroup
  held : ∀ n id, Live w n id →
    (∃ c, w.session.registry.cells[id]? = some c ∧ c.groupNumber = n) ∨ Outside w n id
  sheltered : ∀ (id : ChatIdHex) (c : Cell), w.session.registry.cells[id]? = some c →
    Sheltered (fun n => Live w n id → Outside w n id) c (flightAt w.session id)

theorem step_exact (derive : Seed → Option ChatId) {s s' : Session} {e : Event}
    (h : Exact s.registry) (hs : step derive s e = some s') : Exact s'.registry := by
  obtain he | ⟨o, he⟩ := step_registry derive hs
  · rwa [he]
  · rw [he]
    exact apply_exact derive h o

theorem core_session {derive : Seed → Option ChatId} {w : World} {e : Event} {s' : Session}
    (h : Core w) (hs : step derive w.session e = some s') (hclear : e ≠ .op .clear)
    (hout : ∀ n id, Live w n id → Outside w n id → Outside { w with session := s' } n id)
    (hret : ∀ id n now, e = .op (.onRetired id n now) → ¬Live w n id)
    (hlost : ∀ a now, e = .report a .lost now →
      Outside { w with session := s' } a.groupNumber a.chatIdHex) :
    Core { w with session := s' } := by
  have hcell : ∀ id : ChatIdHex,
      (∀ c, s'.registry.cells[id]? = some c →
        Sheltered (fun n => Live w n id → Outside { w with session := s' } n id) c (flightAt s' id)) ∧
      KeepsGroup (fun n => Live w n id → Outside { w with session := s' } n id)
        w.session.registry.cells[id]? s'.registry.cells[id]? := by
    intro id
    refine sheltered_step derive h.wf hs ?_ hclear ?_ ?_ (h.berthed id) ?_
    · exact fun hl => absurd rfl (h.numbers noGroup _ hl)
    · exact fun n now he hl => absurd hl (hret id n now he)
    · rintro a now he rfl -
      exact hlost a now he
    · exact fun c hc hexp hl => hout _ _ hl (h.sheltered id c hc hexp hl)
  refine ⟨step_wellFormed derive h.wf hs, step_exact derive h.exact hs,
    fun id => berthing_step derive h.wf hs (h.berthed id), h.numbers, ?_, fun id => (hcell id).1⟩
  intro n id hl
  obtain ⟨c, hc, rfl⟩ | ho := h.held n id hl
  · obtain ⟨c', hc', hg⟩ | hsafe := (hcell id).2 c hc
    · exact .inl ⟨c', hc', hg⟩
    · exact .inr (hsafe hl)
  · exact .inr (hout n id hl ho)

/-- A group may leave the event thread for a holder, or for a cell that is not exposed. -/
theorem core_phase {w : World} {p : Phase} (h : Core w)
    (hout : ∀ n id, Live w n id → Outside w n id → Outside { w with phase := p } n id ∨
      ∃ c, w.session.registry.cells[id]? = some c ∧ c.groupNumber = n ∧
        ¬Exposed c (flightAt w.session id)) : Core { w with phase := p } := by
  refine ⟨h.wf, h.exact, h.berthed, h.numbers, ?_, ?_⟩
  · intro n id hl
    obtain hc | ho := h.held n id hl
    · exact .inl hc
    · obtain ho | ⟨c, hc, hg, -⟩ := hout n id hl ho
      · exact .inr ho
      · exact .inl ⟨c, hc, hg⟩
  · intro id c hc hexp hl
    obtain ho | ⟨c', hc', -, hno⟩ := hout _ id hl (h.sheltered id c hc hexp hl)
    · exact ho
    · obtain rfl := Option.some.inj (hc.symm.trans hc')
      exact absurd hexp hno

theorem core_tox {w : World} {tox : Std.TreeMap GroupNumber (Option ChatIdHex)} (h : Core w)
    (hnum : ∀ n x, tox[n]? = some x → n ≠ noGroup)
    (hlive : ∀ n id, Live { w with tox } n id → Live w n id ∨ Outside w n id) :
    Core { w with tox } := by
  refine ⟨h.wf, h.exact, h.berthed, hnum, ?_, ?_⟩
  · intro n id hl
    exact (hlive n id hl).elim (h.held n id) .inr
  · intro id c hc hexp hl
    exact (hlive _ id hl).elim (h.sheltered id c hc hexp) fun ho => ho

/-- What still has to be asked of toxcore before the next plan. -/
def Phase.unconfirmed : Phase → Option (List (GroupNumber × ChatIdHex))
  | .idle | .zombies _ => none
  | .confirming rest => some rest
  | .executing | .created .. | .refused .. => some []

/-- The holders against toxcore: no holder is for another chat id than the number has. Once
    a tick has taken the zombies and asked for the retiring groups, the others are there. -/
structure Known (w : World) : Prop where
  agree : ∀ n id id', Outside w n id → Live w n id' → id = id'
  alive : w.phase ≠ .idle → ∀ (n : GroupNumber) (id : ChatIdHex),
    w.session.registry.zombies[n]? = some id → w.tox[n]?.isSome = true
  confirmed : ∀ rest, w.phase.unconfirmed = some rest → ∀ (n : GroupNumber) (id : ChatIdHex),
    w.session.registry.retiringOrphans[n]? = some id → Live w n id ∨ (n, id) ∈ rest
  created : ∀ a n, w.phase = .created a n ∨ w.phase = .refused a n → Live w n a.chatIdHex

/-! ## One turn -/

theorem after_some {derive : Seed → Option ChatId} {w w' : World} {p : Phase} {e : Event}
    (h : w.after derive p e = some w') :
    ∃ s', step derive w.session e = some s' ∧ w' = { w with session := s', phase := p } := by
  obtain ⟨s', hs, rfl⟩ := Option.map_eq_some_iff.mp h
  exact ⟨s', hs, rfl⟩

/-- An event that moves no zombie and no orphan. -/
def Event.still : Event → Bool
  | .op o => !o.moves
  | .report _ .lost _ => false
  | _ => true

theorem stores_step {derive : Seed → Option ChatId} {s s' : Session} {e : Event}
    (hstill : e.still = true) (hs : step derive s e = some s') :
    s'.registry.stores = s.registry.stores := by
  cases e with
  | op o =>
    have hm : o.moves = false := by simpa [Event.still] using hstill
    simp only [step] at hs
    split_ifs at hs <;> cases hs <;> exact stores_apply derive _ hm
  | plan now =>
    simp only [step] at hs
    split_ifs at hs
    cases hs
    rfl
  | report a outcome now =>
    simp only [step] at hs
    split_ifs at hs
    obtain ⟨o, ho, rfl⟩ := Option.map_eq_some_iff.mp hs
    refine stores_apply derive _ ?_
    cases outcome with
    | lost => cases hstill
    | issued n ok =>
      simp only [reportOp] at ho
      split at ho <;> cases ho <;> rfl
    | left | kept =>
      simp only [reportOp] at ho
      split_ifs at ho
      cases ho
      rfl
  | drop a =>
    simp only [step] at hs
    split_ifs at hs
    cases hs
    rfl

theorem outside_of_stores (w w' : World)
    (hz : w'.session.registry.stores = w.session.registry.stores)
    (hp : w'.phase.holds = w.phase.holds) {n : GroupNumber} {id : ChatIdHex} :
    Outside w' n id ↔ Outside w n id := by
  have h1 : w'.session.registry.zombies = w.session.registry.zombies := congrArg Prod.fst hz
  have h2 : w'.session.registry.retiringOrphans = w.session.registry.retiringOrphans :=
    congrArg Prod.snd hz
  unfold Outside
  rw [h1, h2, hp]

structure Afloat (w : World) : Prop where
  core : Core w
  known : Known w

theorem afloat_still {derive : Seed → Option ChatId} {w : World} {e : Event} {s' : Session}
    (h : Afloat w) (hs : step derive w.session e = some s') (hstill : e.still = true) :
    Afloat { w with session := s' } := by
  have hz := stores_step hstill hs
  have ho : ∀ n id, Outside { w with session := s' } n id ↔ Outside w n id :=
    fun _ _ => outside_of_stores w { w with session := s' } hz rfl
  have h1 : s'.registry.zombies = w.session.registry.zombies := congrArg Prod.fst hz
  have h2 : s'.registry.retiringOrphans = w.session.registry.retiringOrphans :=
    congrArg Prod.snd hz
  refine ⟨core_session h.core hs ?_ (fun n id _ => (ho n id).mpr) ?_ ?_, ?_⟩
  · rintro rfl
    cases hstill
  · rintro id n now rfl
    cases hstill
  · rintro a now rfl
    cases hstill
  · refine ⟨fun n id id' hout => h.known.agree n id id' ((ho n id).mp hout), ?_, ?_, h.known.created⟩
    · intro hp n id hz
      exact h.known.alive hp n id (h1 ▸ hz)
    · intro rest hp n id hz
      exact h.known.confirmed rest hp n id (h2 ▸ hz)

/-- An ordinary group takes a free number. -/
theorem afloat_ordinary {w : World} {n : GroupNumber} (h : Afloat w) (hn : n ≠ noGroup)
    (hfree : w.tox[n]? = none) : Afloat { w with tox := w.tox.insert n none } := by
  have hget : ∀ m : GroupNumber, (w.tox.insert n none)[m]? =
      if n = m then some none else w.tox[m]? := by
    intro m
    rw [Std.TreeMap.getElem?_insert]
    simp
  have hlive : ∀ m id, Live { w with tox := w.tox.insert n none } m id ↔ Live w m id := by
    intro m id
    unfold Live
    rw [hget]
    split_ifs with heq
    · subst heq
      simp [hfree]
    · rfl
  refine ⟨core_tox h.core ?_ fun m id hl => .inl ((hlive m id).mp hl), ?_⟩
  · intro m x hx
    rw [hget] at hx
    split_ifs at hx with heq
    · exact heq ▸ hn
    · exact h.core.numbers m x hx
  · refine ⟨fun m id id' ho hl => h.known.agree m id id' ho ((hlive m id').mp hl), ?_, ?_, ?_⟩
    · intro hp m id hz
      change (w.tox.insert n none)[m]?.isSome = true
      rw [hget]
      split_ifs
      · rfl
      · exact h.known.alive hp m id hz
    · intro rest hp m id ho
      exact (h.known.confirmed rest hp m id ho).imp (hlive m id).mpr fun h => h
    · intro a m hp
      exact (hlive m _).mpr (h.known.created a m hp)

theorem afloat_iterate {w : World} {n : GroupNumber} (h : Afloat w) (hp : w.phase = .idle) :
    Afloat { w with tox := w.tox.erase n } := by
  have hget : ∀ (m : GroupNumber) x, (w.tox.erase n)[m]? = some x → w.tox[m]? = some x := by
    intro m x hx
    rw [Std.TreeMap.getElem?_erase] at hx
    split_ifs at hx
    exact hx
  refine ⟨core_tox h.core (fun m x hx => h.core.numbers m x (hget m x hx))
    fun m id hl => .inl (hget m _ hl), ?_⟩
  refine ⟨fun m id id' ho hl => h.known.agree m id id' ho (hget m _ hl), ?_, ?_, ?_⟩
  · exact fun hne => absurd hp hne
  · intro rest hrest
    change w.phase.unconfirmed = some rest at hrest
    rw [hp] at hrest
    cases hrest
  · intro a m hor
    change w.phase = _ ∨ w.phase = _ at hor
    rw [hp] at hor
    rcases hor with h | h <;> cases h

theorem onRetired_stores (r : Registry) (id : ChatIdHex) (n : GroupNumber) (now : Ms) :
    (onRetired r id n now).stores = (dropOrphan r id n).stores := by
  unfold onRetired
  dsimp only
  split
  · rfl
  · split_ifs <;> rfl

theorem dropOrphan_get (r : Registry) (id : ChatIdHex) (n m : GroupNumber) :
    (dropOrphan r id n).retiringOrphans[m]? =
      if m = n ∧ r.retiringOrphans[n]? = some id then none else r.retiringOrphans[m]? := by
  unfold dropOrphan
  split_ifs with h1 h2 h2
  · simp [h2.1]
  · have hne : ¬n = m := fun h => h2 ⟨h.symm, h1⟩
    simp [Std.TreeMap.getElem?_erase, hne]
  · exact absurd h2.2 h1
  · rfl

/-- A retiring group that toxcore does not hold is released. -/
theorem afloat_retired {derive : Seed → Option ChatId} {w : World} {n : GroupNumber}
    {id : ChatIdHex} {now : Ms} {s' : Session} (h : Afloat w)
    (hs : step derive w.session (.op (.onRetired id n now)) = some s') (hdead : ¬Live w n id) :
    Afloat { w with session := s' } ∧
      ∀ m, s'.registry.retiringOrphans[m]? = some id → m ≠ n := by
  have hreg : s'.registry = onRetired w.session.registry id n now := by
    simp only [step, driven, Bool.false_eq_true, if_false] at hs
    rw [← Option.some.inj hs]
    rfl
  have hst := onRetired_stores w.session.registry id n now
  rw [← hreg] at hst
  have h1 : s'.registry.zombies = w.session.registry.zombies := by
    have hz : s'.registry.zombies = (dropOrphan w.session.registry id n).zombies :=
      congrArg Prod.fst hst
    rw [hz]
    unfold dropOrphan
    split_ifs <;> rfl
  have h2 : ∀ m : GroupNumber, s'.registry.retiringOrphans[m]? =
      if m = n ∧ w.session.registry.retiringOrphans[n]? = some id then none
      else w.session.registry.retiringOrphans[m]? := by
    intro m
    have ho : s'.registry.retiringOrphans = (dropOrphan w.session.registry id n).retiringOrphans :=
      congrArg Prod.snd hst
    rw [ho]
    exact dropOrphan_get _ id n m
  have hsub : ∀ (m : GroupNumber) (i : ChatIdHex), s'.registry.retiringOrphans[m]? = some i →
      w.session.registry.retiringOrphans[m]? = some i := by
    intro m i hm
    rw [h2] at hm
    split_ifs at hm
    exact hm
  have hback : ∀ m i, Outside { w with session := s' } m i → Outside w m i := by
    intro m i hout
    unfold Outside at hout ⊢
    rw [h1] at hout
    exact hout.imp (fun h => h) (Or.imp (hsub m i) fun h => h)
  refine ⟨⟨core_session h.core hs (by simp) ?_ ?_ (by simp), ?_⟩, ?_⟩
  · intro m i hl hout
    unfold Outside at hout ⊢
    rw [h1]
    refine hout.imp (fun h => h) (Or.imp (fun hm => ?_) fun h => h)
    change s'.registry.retiringOrphans[m]? = some i
    rw [h2, if_neg]
    · exact hm
    · rintro ⟨rfl, ho⟩
      obtain rfl := Option.some.inj (ho.symm.trans hm)
      exact hdead hl
  · rintro i m now' he hl
    cases he
    exact hdead hl
  · refine ⟨fun m i i' hout => h.known.agree m i i' (hback m i hout), ?_, ?_, h.known.created⟩
    · intro hp m i hz
      exact h.known.alive hp m i (h1 ▸ hz)
    · intro rest hp m i ho
      exact h.known.confirmed rest hp m i (hsub m i ho)
  · rintro m hm rfl
    have hold := hsub m id hm
    rw [h2, if_pos ⟨rfl, hold⟩] at hm
    cases hm

/-- Group `n` of `id` becomes an orphan or a zombie. No group of another chat id has that
    number, so no holder is lost under it. -/
theorem afloat_noted {derive : Seed → Option ChatId} {w : World} {n : GroupNumber}
    {id : ChatIdHex} (gone : Bool) {e : Event} {s' : Session} (h : Afloat w)
    (hs : step derive w.session e = some s') (hclear : e ≠ .op .clear)
    (hret : ∀ i m now, e ≠ .op (.onRetired i m now))
    (hlost : ∀ a now, e = .report a .lost now → a.groupNumber = n ∧ a.chatIdHex = id)
    (hst : s'.registry.stores = if gone then
        (w.session.registry.zombies, w.session.registry.retiringOrphans.insert n id)
      else (w.session.registry.zombies.insert n id, w.session.registry.retiringOrphans))
    (hagree : ∀ i, Live w n i → i = id)
    (hzombie : gone = false → w.phase ≠ .idle → w.tox[n]?.isSome = true)
    (horphan : gone = true → ∀ rest, w.phase.unconfirmed = some rest →
      Live w n id ∨ (n, id) ∈ rest) :
    Afloat { w with session := s' } ∧
      (s'.registry.zombies[n]? = some id ∨ s'.registry.retiringOrphans[n]? = some id) := by
  have hz : ∀ m : GroupNumber, s'.registry.zombies[m]? =
      if gone = false ∧ n = m then some id else w.session.registry.zombies[m]? := by
    intro m
    have h1 : s'.registry.zombies = _ := congrArg Prod.fst hst
    rw [h1]
    cases gone with
    | true => simp
    | false => simp [Std.TreeMap.getElem?_insert]
  have ho : ∀ m : GroupNumber, s'.registry.retiringOrphans[m]? =
      if gone = true ∧ n = m then some id else w.session.registry.retiringOrphans[m]? := by
    intro m
    have h1 : s'.registry.retiringOrphans = _ := congrArg Prod.snd hst
    rw [h1]
    cases gone with
    | true => simp [Std.TreeMap.getElem?_insert]
    | false => simp
  have hkept : s'.registry.zombies[n]? = some id ∨ s'.registry.retiringOrphans[n]? = some id := by
    cases gone with
    | true => exact .inr (by simp [ho])
    | false => exact .inl (by simp [hz])
  have hnew : Outside { w with session := s' } n id := hkept.imp (fun h => h) .inl
  have hfwd : ∀ m i, Live w m i → Outside w m i → Outside { w with session := s' } m i := by
    intro m i hl hout
    by_cases hm : n = m
    · subst hm
      rw [hagree i hl]
      exact hnew
    · refine hout.imp (fun h => ?_) (Or.imp (fun h => ?_) fun h => h)
      · simpa [hz, hm] using h
      · simpa [ho, hm] using h
  have hback : ∀ m i, Outside { w with session := s' } m i → Outside w m i ∨ (m = n ∧ i = id) := by
    rintro m i (hout | hout | hout)
    · rw [hz] at hout
      split_ifs at hout with hm
      · exact .inr ⟨hm.2.symm, (Option.some.inj hout).symm⟩
      · exact .inl (.inl hout)
    · rw [ho] at hout
      split_ifs at hout with hm
      · exact .inr ⟨hm.2.symm, (Option.some.inj hout).symm⟩
      · exact .inl (.inr (.inl hout))
    · exact .inl (.inr (.inr hout))
  refine ⟨⟨core_session h.core hs hclear hfwd ?_ ?_, ?_⟩, hkept⟩
  · exact fun i m now he => absurd he (hret i m now)
  · intro a now he
    obtain ⟨h1, h2⟩ := hlost a now he
    rw [h1, h2]
    exact hnew
  · refine ⟨?_, ?_, ?_, h.known.created⟩
    · intro m i i' hout hl
      obtain hout | ⟨rfl, rfl⟩ := hback m i hout
      · exact h.known.agree m i i' hout hl
      · exact (hagree i' hl).symm
    · intro hp m i hm
      change s'.registry.zombies[m]? = some i at hm
      rw [hz] at hm
      split_ifs at hm with hnm
      · exact hnm.2 ▸ hzombie hnm.1 hp
      · exact h.known.alive hp m i hm
    · intro rest hp m i hm
      change s'.registry.retiringOrphans[m]? = some i at hm
      rw [ho] at hm
      split_ifs at hm with hnm
      · obtain rfl := Option.some.inj hm
        exact hnm.2 ▸ horphan hnm.1 rest hp
      · exact h.known.confirmed rest hp m i hm

theorem noted_stores {derive : Seed → Option ChatId} {s s' : Session} {n : GroupNumber}
    {id : ChatIdHex} (gone : Bool) (hs : step derive s (noted n id gone) = some s') :
    s'.registry.stores = if gone then
        (s.registry.zombies, s.registry.retiringOrphans.insert n id)
      else (s.registry.zombies.insert n id, s.registry.retiringOrphans) := by
  cases gone <;> simp only [noted, step, if_true, if_false, Bool.false_eq_true, driven] at hs <;>
    rw [← Option.some.inj hs] <;> rfl

theorem noted_op (n : GroupNumber) (id : ChatIdHex) (gone : Bool) :
    noted n id gone ≠ .op .clear ∧ (∀ i m now, noted n id gone ≠ .op (.onRetired i m now)) ∧
      ∀ a now, noted n id gone ≠ .report a .lost now := by
  cases gone <;> simp [noted]

/-- The event thread moves on while the registry and toxcore stay as they are. -/
theorem afloat_phase {w : World} {p : Phase} (h : Afloat w)
    (hout : ∀ n id, Live w n id → (n, id) ∈ w.phase.holds → Outside { w with phase := p } n id ∨
      ∃ c, w.session.registry.cells[id]? = some c ∧ c.groupNumber = n ∧
        ¬Exposed c (flightAt w.session id))
    (hagree : ∀ n id, (n, id) ∈ p.holds → ∀ id', Live w n id' → id = id')
    (hbusy : p ≠ .idle → w.phase ≠ .idle)
    (hconf : ∀ rest, p.unconfirmed = some rest → ∀ (n : GroupNumber) (id : ChatIdHex),
      w.session.registry.retiringOrphans[n]? = some id → Live w n id ∨ (n, id) ∈ rest)
    (hcreated : ∀ a n, p = .created a n ∨ p = .refused a n → Live w n a.chatIdHex) :
    Afloat { w with phase := p } := by
  refine ⟨core_phase h.core ?_, ⟨?_, ?_, hconf, hcreated⟩⟩
  · rintro n id hl (ho | ho | ho)
    · exact .inl (.inl ho)
    · exact .inl (.inr (.inl ho))
    · exact hout n id hl ho
  · rintro n id id' (ho | ho | ho) hl
    · exact h.known.agree n id id' (.inl ho) hl
    · exact h.known.agree n id id' (.inr (.inl ho)) hl
    · exact hagree n id ho id' hl
  · exact fun hp => h.known.alive (hbusy hp)

theorem afloat_tick {derive : Seed → Option ChatId} {w : World} {s' : Session} (h : Afloat w)
    (hp : w.phase = .idle) (hs : step derive w.session (.op .takeZombies) = some s') :
    Afloat { w with session := s', phase := .zombies (takeZombies w.session.registry).2 } := by
  have hmem : ∀ (n : GroupNumber) (id : ChatIdHex),
      (n, id) ∈ (takeZombies w.session.registry).2 ↔ w.session.registry.zombies[n]? = some id :=
    fun n id => Std.TreeMap.mem_toList_iff_getElem?_eq_some
  have hz : s'.registry.stores = (∅, w.session.registry.retiringOrphans) := by
    simp only [step, driven, Bool.false_eq_true, if_false] at hs
    rw [← Option.some.inj hs]
    rfl
  have h1 : s'.registry.zombies = ∅ := congrArg Prod.fst hz
  have h2 : s'.registry.retiringOrphans = w.session.registry.retiringOrphans := congrArg Prod.snd hz
  set taken : Phase := .zombies (takeZombies w.session.registry).2
  -- The thread takes the zombies over before the registry lets them go.
  have hcore : Core { w with phase := taken } := by
    refine core_phase h.core ?_
    rintro n id - (ho | ho | ho)
    · exact .inl (.inl ho)
    · exact .inl (.inr (.inl ho))
    · rw [hp] at ho
      cases ho
  have hback : ∀ n id, Outside { w with session := s', phase := taken } n id → Outside w n id := by
    rintro n id (ho | ho | ho)
    · change s'.registry.zombies[n]? = some id at ho
      simp [h1] at ho
    · exact .inr (.inl (h2 ▸ ho))
    · exact .inl ((hmem n id).mp ho)
  refine ⟨core_session hcore hs (by simp) ?_ (by simp) (by simp), ⟨?_, ?_, ?_, ?_⟩⟩
  · rintro n id - (ho | ho | ho)
    · exact .inr (.inr ((hmem n id).mpr ho))
    · exact .inr (.inl (h2.symm ▸ ho))
    · exact .inr (.inr ho)
  · exact fun n id id' ho hl => h.known.agree n id id' (hback n id ho) hl
  · intro _ n id ho
    change s'.registry.zombies[n]? = some id at ho
    simp [h1] at ho
  · intro rest hrest
    cases hrest
  · rintro a n (h | h) <;> cases h

theorem afloat_create {w : World} {a : Action} {n : GroupNumber} (h : Afloat w)
    (hp : w.phase = .executing) (hret : w.returns a n = true) :
    Afloat { w with tox := w.tox.insert n (some a.chatIdHex), phase := .created a n } := by
  simp only [World.returns, Bool.and_eq_true, decide_eq_true_eq, Bool.or_eq_true] at hret
  obtain ⟨⟨hn, hfree⟩, -⟩ := hret
  have hget : ∀ m : GroupNumber, (w.tox.insert n (some a.chatIdHex))[m]? =
      if n = m then some (some a.chatIdHex) else w.tox[m]? := by
    intro m
    rw [Std.TreeMap.getElem?_insert]
    simp
  have hown : ∀ i, Outside w n i → i = a.chatIdHex := by
    intro i hout
    rcases hfree with hfree | hsame
    · rcases hout with hz | ho | hh
      · have hsome := h.known.alive (by simp [hp]) n i hz
        simp [hfree] at hsome
      · have hconf := h.known.confirmed [] (by rw [hp]; rfl) n i ho
        simp [Live, hfree] at hconf
      · rw [hp] at hh
        cases hh
    · exact h.known.agree n i _ hout hsame
  have hlive : ∀ m i, Live { w with tox := w.tox.insert n (some a.chatIdHex), phase := .created a n } m i →
      Live w m i ∨ (m = n ∧ i = a.chatIdHex) := by
    intro m i hl
    unfold Live at hl
    rw [hget] at hl
    split_ifs at hl with hm
    · exact .inr ⟨hm.symm, by simpa using hl.symm⟩
    · exact .inl hl
  have hmono : ∀ m i, Live w m i →
      Live { w with tox := w.tox.insert n (some a.chatIdHex), phase := .created a n } m i := by
    intro m i hl
    unfold Live at hl ⊢
    rw [hget]
    split_ifs with hm
    · subst hm
      rcases hfree with hfree | hsame
      · simp [hfree] at hl
      · exact hsame.symm.trans hl
    · exact hl
  have hcore : Core { w with phase := .created a n } := by
    refine core_phase h.core ?_
    rintro m i - (ho | ho | ho)
    · exact .inl (.inl ho)
    · exact .inl (.inr (.inl ho))
    · rw [hp] at ho
      cases ho
  refine ⟨core_tox hcore ?_ ?_, ⟨?_, ?_, ?_, ?_⟩⟩
  · intro m x hx
    rw [hget] at hx
    split_ifs at hx with hm
    · exact hm ▸ hn
    · exact h.core.numbers m x hx
  · intro m i hl
    obtain hl | ⟨rfl, rfl⟩ := hlive m i hl
    · exact .inl hl
    · exact .inr (.inr (.inr (by simp [Phase.holds])))
  · rintro m i i' hout hl
    have hout' : Outside w m i ∨ (m = n ∧ i = a.chatIdHex) := by
      rcases hout with ho | ho | ho
      · exact .inl (.inl ho)
      · exact .inl (.inr (.inl ho))
      · exact .inr (by simpa [Phase.holds] using ho)
    obtain hold | ⟨rfl, rfl⟩ := hlive m i' hl
    · obtain hout | ⟨rfl, rfl⟩ := hout'
      · exact h.known.agree m i i' hout hold
      · rcases hfree with hfree | hsame
        · simp [Live, hfree] at hold
        · exact Option.some.inj (Option.some.inj (hsame.symm.trans hold))
    · exact hout'.elim (hown i) fun h => h.2
  · intro _ m i hz
    change (w.tox.insert n (some a.chatIdHex))[m]?.isSome = true
    rw [hget]
    split_ifs
    · rfl
    · exact h.known.alive (by simp [hp]) m i hz
  · intro rest hrest m i ho
    refine (h.known.confirmed rest ?_ m i ho).imp (hmono m i) fun h => h
    rw [hp]
    exact hrest
  · rintro b m (heq | heq)
    · cases heq
      simp [Live]
    · cases heq

/-- A recorded group is the group of its cell, and no start is left to take it. -/
theorem recordsGroup_cell {derive : Seed → Option ChatId} {s s' : Session} {a : Action}
    {n : GroupNumber} {now : Ms} (hw : WellFormed s) (hb : Berthing.at s a.chatIdHex)
    (hs : step derive s (.report a (.issued n true) now) = some s') (hn : n ≠ noGroup)
    (hrec : recordsGroup s.registry a n now = true) :
    ∃ c, s'.registry.cells[a.chatIdHex]? = some c ∧ c.groupNumber = n ∧
      ¬Exposed c (flightAt s' a.chatIdHex) := by
  have he := step_effect derive hw hs a.chatIdHex
  obtain ⟨-, hb⟩ := hb
  generalize s'.registry.cells[a.chatIdHex]? = x' at he ⊢
  generalize flightAt s' a.chatIdHex = f' at he ⊢
  generalize flightAt s a.chatIdHex = f at he hb
  generalize hx : s.registry.cells[a.chatIdHex]? = x at he hb
  have hfresh : ∀ c : Cell, c.pendingJoin = false ∧ c.pendingFound = false →
      c.state.waits = false → ¬Exposed c none := by
    rintro c ⟨hj, hf⟩ hst hexp
    exact sheltered_recorded (P := fun _ => False) hj hf hst hexp
  cases he with
  | elsewhere h => exact absurd rfl h
  | unheard =>
    unfold recordsGroup onJoinIssued onFoundIssued at hrec
    rw [hx] at hrec
    cases hk : a.kind <;> simp [hk] at hrec
  | joinIssued hkey hk =>
    rename_i c
    simp only [recordsGroup, hk, onJoinIssued_answer hx] at hrec
    have hat : a.attempt = c.attempt := by
      simp only [Cell.awaits, Bool.and_eq_true, decide_eq_true_eq] at hrec
      exact hrec.1.2.symm
    refine ⟨_, rfl, ?_, hfresh _ ?_ ?_⟩ <;> simp only [Cell.issued, hrec, Cell.joinIssued]
    · simp [hn]
    · simpa [hn] using (hb.1 c rfl).starting a rfl (by simp [hk]) hat
    · simp [hn, State.waits]
  | foundIssued hkey hk =>
    rename_i c
    simp only [recordsGroup, hk, onFoundIssued_answer hx] at hrec
    have hat : a.attempt = c.attempt := by
      simp only [Cell.awaits, Bool.and_eq_true, decide_eq_true_eq] at hrec
      exact hrec.1.1.2.symm
    refine ⟨_, rfl, ?_, hfresh _ ?_ ?_⟩ <;> simp only [Cell.issued, hrec, Cell.foundIssued]
    · simp [hn]
    · simpa [hn] using (hb.1 c rfl).starting a rfl (by simp [hk]) hat
    · simp [hn, State.waits]

theorem afloat_record {derive : Seed → Option ChatId} {w : World} {a : Action} {n : GroupNumber}
    {now : Ms} {s' : Session} (h : Afloat w) (hp : w.phase = .created a n)
    (hs : step derive w.session (.report a (.issued n true) now) = some s') :
    Afloat { w with
      session := s'
      phase := if recordsGroup w.session.registry a n now then .executing else .refused a n } := by
  have hl : Live w n a.chatIdHex := h.known.created a n (.inl hp)
  have hnow := afloat_still h hs rfl
  have hconf : ∀ (m : GroupNumber) (i : ChatIdHex), s'.registry.retiringOrphans[m]? = some i →
      Live w m i ∨ (m, i) ∈ [] := by
    refine hnow.known.confirmed [] ?_
    change w.phase.unconfirmed = some []
    rw [hp]
    rfl
  split_ifs with hrec
  · refine afloat_phase hnow ?_ (by simp [Phase.holds]) (fun _ => by simp [hp]) ?_ (by simp)
    · intro m i _ hm
      change (m, i) ∈ w.phase.holds at hm
      rw [hp] at hm
      obtain ⟨rfl, rfl⟩ : m = n ∧ i = a.chatIdHex := by simpa [Phase.holds] using hm
      exact .inr (recordsGroup_cell h.core.wf (h.core.berthed _) hs (h.core.numbers _ _ hl) hrec)
    · intro rest hrest
      cases hrest
      exact hconf
  · refine afloat_phase hnow ?_ ?_ (fun _ => by simp [hp]) ?_ ?_
    · intro m i _ hm
      change (m, i) ∈ w.phase.holds at hm
      rw [hp] at hm
      exact .inl (.inr (.inr hm))
    · intro m i hm i'
      refine hnow.known.agree m i i' (.inr (.inr ?_))
      change (m, i) ∈ w.phase.holds
      rw [hp]
      exact hm
    · intro rest hrest
      cases hrest
      exact hconf
    · rintro b m (heq | heq)
      · cases heq
      · cases heq
        exact hl

theorem afloat_zombie {derive : Seed → Option ChatId} {w : World} {n : GroupNumber}
    {id : ChatIdHex} {rest : List (GroupNumber × ChatIdHex)} {gone : Bool} {s' : Session}
    (h : Afloat w) (hp : w.phase = .zombies ((n, id) :: rest))
    (hthere : gone = false → w.tox[n]?.isSome = true)
    (hs : step derive w.session (noted n id gone) = some s') :
    Afloat { w with session := s', phase := .zombies rest } := by
  have hmem : ∀ m i, (m, i) = (n, id) ∨ (m, i) ∈ rest → (m, i) ∈ w.phase.holds := by
    intro m i hm
    rw [hp]
    exact List.mem_cons.mpr hm
  obtain ⟨hclear, hret, hlost⟩ := noted_op n id gone
  obtain ⟨hnow, hkept⟩ := afloat_noted gone h hs hclear hret (fun a now he => absurd he (hlost a now))
    (noted_stores gone hs) (fun i hl => (h.known.agree n id i (.inr (.inr (hmem n id (.inl rfl)))) hl).symm)
    (fun hg _ => hthere hg) (fun _ rest' hrest => by simp [hp, Phase.unconfirmed] at hrest)
  refine afloat_phase hnow ?_ ?_ (fun _ => by simp [hp]) (by simp [Phase.unconfirmed]) (by simp)
  · intro m i _ hm
    change (m, i) ∈ w.phase.holds at hm
    rw [hp] at hm
    obtain heq | hm := List.mem_cons.mp hm
    · cases heq
      exact .inl (hkept.imp (fun h => h) .inl)
    · exact .inl (.inr (.inr hm))
  · intro m i hm i' hl
    exact h.known.agree m i i' (.inr (.inr (hmem m i (.inr hm)))) hl

theorem afloat_undo {derive : Seed → Option ChatId} {w : World} {a : Action} {n : GroupNumber}
    {gone : Bool} {s' : Session} (h : Afloat w) (hp : w.phase = .refused a n)
    (hs : step derive w.session (noted n a.chatIdHex gone) = some s') :
    Afloat { w with session := s', phase := .executing } := by
  have hl : Live w n a.chatIdHex := h.known.created a n (.inr hp)
  obtain ⟨hclear, hret, hlost⟩ := noted_op n a.chatIdHex gone
  obtain ⟨hnow, hkept⟩ := afloat_noted gone h hs hclear hret (fun b now he => absurd he (hlost b now))
    (noted_stores gone hs) (fun i hl' => Option.some.inj (Option.some.inj (hl'.symm.trans hl)))
    (fun _ _ => by rw [hl]; rfl) (fun _ _ _ => .inl hl)
  refine afloat_phase hnow ?_ (by simp [Phase.holds]) (fun _ => by simp [hp]) ?_ (by simp)
  · intro m i _ hm
    change (m, i) ∈ w.phase.holds at hm
    rw [hp] at hm
    obtain ⟨rfl, rfl⟩ : m = n ∧ i = a.chatIdHex := by simpa [Phase.holds] using hm
    exact .inl (hkept.imp (fun h => h) .inl)
  · intro rest hrest
    refine hnow.known.confirmed rest ?_
    change w.phase.unconfirmed = some rest
    rw [hp]
    exact hrest

/-- A leave failed after the registry moved on: its group becomes a zombie. -/
theorem afloat_lost {derive : Seed → Option ChatId} {w : World} {a : Action} {now : Ms}
    {s' : Session} (h : Afloat w) (hl : Live w a.groupNumber a.chatIdHex)
    (hs : step derive w.session (.report a .lost now) = some s') :
    Afloat { w with session := s' } := by
  have hst : s'.registry.stores =
      (w.session.registry.zombies.insert a.groupNumber a.chatIdHex,
        w.session.registry.retiringOrphans) := by
    simp only [step, reportOp] at hs
    split_ifs at hs
    · rw [← Option.some.inj hs]
      rfl
    · cases hs
  refine (afloat_noted false h hs (by simp) (by simp) ?_ hst ?_ ?_ (by simp)).1
  · intro b now' he
    cases he
    exact ⟨rfl, rfl⟩
  · exact fun i hl' => Option.some.inj (Option.some.inj (hl'.symm.trans hl))
  · intro _ _
    rw [hl]
    rfl

/-- The thread moves on with nothing in hand. -/
theorem afloat_onward {w : World} {p : Phase} (h : Afloat w) (hw : w.phase.holds = [])
    (hholds : p.holds = []) (hbusy : p ≠ .idle → w.phase ≠ .idle)
    (hconf : ∀ rest, p.unconfirmed = some rest → ∀ (n : GroupNumber) (id : ChatIdHex),
      w.session.registry.retiringOrphans[n]? = some id → Live w n id ∨ (n, id) ∈ rest) :
    Afloat { w with phase := p } := by
  refine afloat_phase h ?_ (by simp [hholds]) hbusy hconf ?_
  · intro n id _ hm
    simp [hw] at hm
  · rintro a n (rfl | rfl) <;> simp [Phase.holds] at hholds

theorem afloat_check {derive : Seed → Option ChatId} {w : World} {n : GroupNumber}
    {id : ChatIdHex} {rest : List (GroupNumber × ChatIdHex)} {now : Ms} {s' : Session}
    (h : Afloat w) (hp : w.phase = .confirming ((n, id) :: rest)) (hdead : ¬Live w n id)
    (hs : step derive w.session (.op (.onRetired id n now)) = some s') :
    Afloat { w with session := s', phase := .confirming rest } := by
  obtain ⟨hnow, hgone⟩ := afloat_retired h hs hdead
  refine afloat_onward hnow (by simp [hp, Phase.holds]) rfl (fun _ => by simp [hp]) ?_
  intro rest' hrest m i ho
  cases hrest
  obtain hl | hm := hnow.known.confirmed ((n, id) :: rest) (by simp [hp, Phase.unconfirmed]) m i ho
  · exact .inl hl
  · obtain heq | hm := List.mem_cons.mp hm
    · cases heq
      exact absurd rfl (hgone n ho)
    · exact .inr hm

theorem afloat_report {derive : Seed → Option ChatId} {w : World} {a : Action}
    {outcome : Outcome} {now : Ms} {s' : Session} (h : Afloat w)
    (hallow : w.allows a outcome = true)
    (hs : step derive w.session (.report a outcome now) = some s') :
    Afloat { w with session := s' } := by
  cases outcome with
  | lost => exact afloat_lost h (by simpa [World.allows, Live] using hallow) hs
  | issued | left | kept => exact afloat_still h hs rfl

theorem afloat_step (derive : Seed → Option ChatId) {w w' : World} {t : Turn} (h : Afloat w)
    (ht : worldStep derive w t = some w') : Afloat w' := by
  cases t with
  | request o =>
    simp only [worldStep] at ht
    split_ifs at ht with hreq
    obtain ⟨s', hs, rfl⟩ := after_some ht
    simp only [requested, Bool.and_eq_true, Bool.not_eq_true'] at hreq
    exact afloat_still h hs (by simp [Event.still, hreq.2])
  | ordinary n =>
    simp only [worldStep] at ht
    split_ifs at ht with hfree
    cases ht
    simp only [Bool.and_eq_true, decide_eq_true_eq] at hfree
    exact afloat_ordinary h hfree.1 hfree.2
  | iterate n =>
    simp only [worldStep] at ht
    split_ifs at ht with hp
    cases ht
    exact afloat_iterate h hp
  | reused n now =>
    simp only [worldStep] at ht
    split at ht
    · split_ifs at ht with hdead
      obtain ⟨s', hs, rfl⟩ := after_some ht
      exact (afloat_retired h hs hdead).1
    · cases ht
  | stray n =>
    simp only [worldStep] at ht
    split at ht
    · rename_i id hl
      split_ifs at ht with hp
      obtain ⟨s', hs, rfl⟩ := after_some ht
      rw [← hp]
      have hst := noted_stores false hs
      refine (afloat_noted false h hs (by simp) (by simp) (by simp) hst ?_ ?_ (by simp)).1
      · exact fun i hl' => Option.some.inj (Option.some.inj (hl'.symm.trans hl))
      · exact fun _ hbusy => absurd hp hbusy
    · cases ht
  | tick =>
    simp only [worldStep] at ht
    split_ifs at ht with hp
    obtain ⟨s', hs, rfl⟩ := after_some ht
    exact afloat_tick h hp hs
  | zombie gone =>
    simp only [worldStep] at ht
    split at ht
    · rename_i hp
      split_ifs at ht with hthere
      obtain ⟨s', hs, rfl⟩ := after_some ht
      refine afloat_zombie h hp (fun hg => ?_) hs
      simpa [hg] using hthere
    · cases ht
  | confirm =>
    simp only [worldStep] at ht
    split at ht
    · rename_i hp
      cases ht
      refine afloat_onward h (by simp [hp, Phase.holds]) rfl (fun _ => by simp [hp]) ?_
      intro rest hrest n id ho
      cases hrest
      refine .inr (List.mem_append_right _ ?_)
      exact Std.TreeMap.mem_toList_iff_getElem?_eq_some.mpr ho
    · cases ht
  | check now =>
    simp only [worldStep] at ht
    split at ht
    · rename_i n id rest hp
      split_ifs at ht with hl
      · cases ht
        refine afloat_onward h (by simp [hp, Phase.holds]) rfl (fun _ => by simp [hp]) ?_
        intro rest' hrest m i ho
        cases hrest
        obtain hlive | hm := h.known.confirmed ((n, id) :: rest) (by simp [hp, Phase.unconfirmed]) m i ho
        · exact .inl hlive
        · obtain heq | hm := List.mem_cons.mp hm
          · cases heq
            exact .inl hl
          · exact .inr hm
      · obtain ⟨s', hs, rfl⟩ := after_some ht
        exact afloat_check h hp hl hs
    · cases ht
  | plan now =>
    simp only [worldStep] at ht
    split at ht
    · rename_i hp
      obtain ⟨s', hs, rfl⟩ := after_some ht
      have hnow := afloat_still h hs rfl
      refine afloat_onward hnow (by simp [hp, Phase.holds]) rfl (fun _ => by simp [hp]) ?_
      intro rest hrest
      cases hrest
      exact hnow.known.confirmed [] (by simp [hp, Phase.unconfirmed])
    · cases ht
  | create a n =>
    simp only [worldStep] at ht
    split at ht
    · rename_i hp
      split_ifs at ht with hret
      cases ht
      exact afloat_create h hp hret.2.2
    · cases ht
  | record now =>
    simp only [worldStep] at ht
    split at ht
    · rename_i hp
      obtain ⟨s', hs, rfl⟩ := after_some ht
      exact afloat_record h hp hs
    · cases ht
  | undo gone =>
    simp only [worldStep] at ht
    split at ht
    · rename_i hp
      obtain ⟨s', hs, rfl⟩ := after_some ht
      exact afloat_undo h hp hs
    · cases ht
  | report a outcome now =>
    simp only [worldStep] at ht
    split at ht
    · rename_i hp
      split_ifs at ht with hallow
      obtain ⟨s', hs, rfl⟩ := after_some ht
      rw [← hp]
      exact afloat_report h hallow hs
    · cases ht
  | drop a =>
    simp only [worldStep] at ht
    split at ht
    · rename_i hp
      obtain ⟨s', hs, rfl⟩ := after_some ht
      rw [← hp]
      exact afloat_still h hs rfl
    · cases ht
  | done =>
    simp only [worldStep] at ht
    split at ht
    · rename_i hp
      split_ifs at ht
      cases ht
      refine afloat_onward h (by simp [hp, Phase.holds]) rfl (by simp) ?_
      intro rest hrest
      cases hrest
    · cases ht

theorem afloat_initial : Afloat {} := by
  refine ⟨⟨initial_wellFormed, initial_exact, fun id => ?_, ?_, ?_, ?_⟩, ⟨?_, ?_, ?_, ?_⟩⟩
  · simpa [Local.at, flightAt] using berthing_none
  · intro n x hx
    simp at hx
  · intro n id hl
    simp [Live] at hl
  · intro id c hc
    simp at hc
  · intro n id id' _ hl
    simp [Live] at hl
  · exact fun hp => absurd rfl hp
  · intro rest hrest
    cases hrest
  · rintro a n (hp | hp) <;> cases hp

/-- Every group toxcore holds for a rendezvous is owned, or the event thread has it in hand:
    just created, or taken from the zombies by the pass that leaves them. -/
theorem no_group_lost (derive : Seed → Option ChatId) (ts : List Turn) (w : World)
    (hrun : exec (worldStep derive) {} ts = some w) (n : GroupNumber) (id : ChatIdHex)
    (hl : w.tox[n]? = some (some id)) :
    owns w.session.registry n = true ∨
      (∃ a, (w.phase = .created a n ∨ w.phase = .refused a n) ∧ a.chatIdHex = id) ∨
      ∃ rest, w.phase = .zombies rest ∧ (n, id) ∈ rest := by
  have h : Afloat w := invariant (fun _ _ _ h ht => afloat_step derive h ht) afloat_initial hrun
  rw [h.core.exact n]
  obtain ⟨c, hc, hg⟩ | hz | ho | hp := h.core.held n id hl
  · exact .inl (.inl ⟨h.core.numbers n _ hl, id, c, hc, hg⟩)
  · exact .inl (.inr (.inl (Std.TreeMap.isSome_getElem?_iff_mem.mp (by rw [hz]; rfl))))
  · exact .inl (.inr (.inr (Std.TreeMap.isSome_getElem?_iff_mem.mp (by rw [ho]; rfl))))
  · right
    cases hphase : w.phase with
    | zombies rest =>
      rw [hphase] at hp
      exact .inr ⟨rest, rfl, hp⟩
    | created a m =>
      rw [hphase] at hp
      obtain ⟨rfl, rfl⟩ : n = m ∧ id = a.chatIdHex := by simpa [Phase.holds] using hp
      exact .inl ⟨a, .inl rfl, rfl⟩
    | refused a m =>
      rw [hphase] at hp
      obtain ⟨rfl, rfl⟩ : n = m ∧ id = a.chatIdHex := by simpa [Phase.holds] using hp
      exact .inl ⟨a, .inr rfl, rfl⟩
    | idle | confirming | executing =>
      rw [hphase] at hp
      cases hp

def startTurns : List Turn :=
  [.request (.setAccepting true), .request .bumpGeneration,
   .request (.requestJoin sampleSeed "n" "0123abcd" 1000), .tick, .confirm, .plan 1000,
   .create (sampleAction .join 2 1) 7]

/-- The join of a cell that was left meanwhile could not be undone; the next tick takes the
    zombie. -/
def takenTurns : List Turn :=
  startTurns ++ [.request (.requestLeave sampleId 1200),
    .request (.requestJoin sampleSeed "n" "0123abcd" 1300), .record 1400, .undo false, .done, .tick]

theorem taken_zombie_unowned : ¬∀ (ts : List Turn) (w : World),
    exec (worldStep sampleDerive) {} ts = some w → ∀ (n : GroupNumber) (id : ChatIdHex),
    w.tox[n]? = some (some id) → owns w.session.registry n = true ∨
      ∃ a, (w.phase = .created a n ∨ w.phase = .refused a n) ∧ a.chatIdHex = id := by
  intro hclaim
  have hrun : ((exec (worldStep sampleDerive) {} takenTurns).any fun w =>
      w.tox[(7 : GroupNumber)]? = some (some sampleId) ∧ owns w.session.registry 7 = false ∧
        w.phase = .zombies [(7, sampleId)]) = true := by
    decide
  obtain ⟨w, hw, h⟩ := (Option.any_eq_true _ _).mp hrun
  simp only [decide_eq_true_eq] at h
  obtain ⟨hl, hno, hp⟩ := h
  obtain hown | ⟨a, hphase, -⟩ := hclaim takenTurns w hw 7 sampleId hl
  · simp [hno] at hown
  · rw [hp] at hphase
    rcases hphase with hphase | hphase <;> cases hphase

theorem joined_group_kept : ∃ w,
    exec (worldStep sampleDerive) {} (startTurns ++ [.record 1400, .done]) = some w ∧
    w.tox[(7 : GroupNumber)]? = some (some sampleId) ∧ owns w.session.registry 7 = true := by
  have hrun : ((exec (worldStep sampleDerive) {} (startTurns ++ [.record 1400, .done])).any fun w =>
      w.tox[(7 : GroupNumber)]? = some (some sampleId) ∧ w.phase = .idle) = true := by
    decide
  obtain ⟨w, hw, h⟩ := (Option.any_eq_true _ _).mp hrun
  simp only [decide_eq_true_eq] at h
  obtain ⟨hl, hp⟩ := h
  obtain hown | ⟨a, hphase, -⟩ | ⟨rest, hphase, -⟩ := no_group_lost sampleDerive _ w hw 7 sampleId hl
  · exact ⟨w, hw, hl, hown⟩
  · rw [hp] at hphase
    rcases hphase with hphase | hphase <;> cases hphase
  · rw [hp] at hphase
    cases hphase

end Tim2Tox.RendezvousSession
