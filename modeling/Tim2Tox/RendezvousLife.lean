import Tim2Tox.RendezvousFlights

set_option autoImplicit false

/-!
# The life of a session

`RendezvousStart` and `RendezvousLeaveAll` are several critical sections each,
so a session has a half-done start and any number of half-done leave-alls next
to its registry and its planned batch. A cell without a next step of its own is
either waiting for the result of its planned action, or still to be reached by
a leave-all.
-/
namespace Tim2Tox.RendezvousSession
open RendezvousCodec RendezvousGroups LabelledRuns

/-- A half-done `RequestLeaveAll`: before its ids are read, and while they are left. -/
inductive Sweep where
  | bumped
  | leaving (ids : List ChatIdHex)
  deriving DecidableEq

structure Life where
  session : Session := {}
  starting : Bool := false
  sweeps : List Sweep := []

inductive Move where
  | session (e : Event)
  | start | started
  | leaveAll
  | sweep (k : ℕ) (now : Ms)

/-- Client joins and leaves, callbacks, and ticks that report what they execute. -/
def Event.ordinary : Event → Bool
  | .op (.setAccepting _) | .op .bumpGeneration | .op (.requestLeaveAll _) | .op .clear => false
  | .drop _ => false
  | _ => true

section
variable (derive : Seed → Option ChatId)

def lifeStep (l : Life) : Move → Option Life
  | .session e =>
    if e.ordinary then (step derive l.session e).map fun s => { l with session := s } else none
  | .start =>
    if l.starting then none
    else (step derive l.session (.op (.setAccepting true))).map fun s =>
      { l with session := s, starting := true }
  | .started =>
    if l.starting then (step derive l.session (.op .bumpGeneration)).map fun s =>
      { l with session := s, starting := false }
    else none
  | .leaveAll =>
    if l.session.registry.accepting then (step derive l.session (.op .bumpGeneration)).map fun s =>
      { l with session := s, sweeps := l.sweeps ++ [.bumped] }
    else none
  | .sweep k now => match l.sweeps[k]? with
    | none => none
    | some .bumped => some { l with sweeps := l.sweeps.set k (.leaving l.session.registry.cells.keys) }
    | some (.leaving []) => some { l with sweeps := l.sweeps.eraseIdx k }
    | some (.leaving (id :: ids)) =>
      (step derive l.session (.op (.requestLeave id now))).map fun s =>
        { l with session := s, sweeps := l.sweeps.set k (.leaving ids) }

end

/-- The cell has a next step: something owed, a group, or a timer that runs. -/
def Cell.progresses (c : Cell) : Bool :=
  c.pendingJoin || c.pendingFound || c.pendingLeave ||
    ((c.state = .joining || c.state = .joined) && c.groupNumber ≠ noGroup) ||
    (c.state = .backoff || c.state = .unavailable) ||
    (c.state = .retiring && c.groupNumber ≠ noGroup)

theorem progresses_of_group {c : Cell} (hg : c.groupNumber ≠ noGroup) : Cell.progresses c = true := by
  unfold Cell.progresses
  cases c.state <;> simp [hg]

theorem progresses_of_waits {c : Cell} (hw : c.state.waits = true) : Cell.progresses c = true := by
  unfold Cell.progresses
  cases hs : c.state <;> simp_all [State.waits]

theorem progresses_of_pending {c : Cell} (hp : c.pendingJoin = true ∨ c.pendingFound = true) :
    Cell.progresses c = true := by
  unfold Cell.progresses
  rcases hp with hp | hp <;> simp [hp]

theorem stuck_iff {c : Cell} : Cell.progresses c = false ↔
    c.groupNumber = noGroup ∧ c.state.waits = false ∧ c.pendingJoin = false ∧
      c.pendingFound = false ∧ c.pendingLeave = false := by
  unfold Cell.progresses
  by_cases hg : c.groupNumber = noGroup
  · cases hs : c.state <;> simp [hg, State.waits, and_assoc]
  · cases hs : c.state <;> simp [hg, State.waits]

/-! ## One chat id -/

/-- A stuck cell waits for the result of its planned action, or a leave-all is
    still to reach it. -/
def Covered (swept : Bool) (generation : ℕ) (c : Cell) (f : Option Action) : Prop :=
  Cell.progresses c = false → swept = true ∨
    ∃ a, f = some a ∧ a.kind ≠ .leave ∧ a.attempt = c.attempt ∧ a.generation = generation

theorem covered_of_progresses {swept : Bool} {generation : ℕ} {c : Cell} {f : Option Action}
    (h : Cell.progresses c = true) : Covered swept generation c f := by
  intro hno
  simp [h] at hno

theorem finishRetire_progresses {nextAttempt : ℕ} {now : Ms} {c c' : Cell}
    (h : c.finishRetire nextAttempt now = some c') : Cell.progresses c' = true := by
  obtain ⟨-, he⟩ | ⟨-, -, he⟩ | ⟨-, -, -, he⟩ | ⟨-, -, -, -, hw, he⟩ | ⟨-, -, -, -, he⟩ :=
    finishRetire_cases nextAttempt now c <;> rw [he] at h <;> cases h
  · exact progresses_of_pending (.inl rfl)
  · exact progresses_of_pending (.inr rfl)
  · exact progresses_of_waits hw
  · exact progresses_of_waits (enterBackoff_waits _ _)

/-- An operation leaves the cell alone, or with a next step. -/
theorem op_progresses {derive : Seed → Option ChatId} {r : Registry} {key : ChatIdHex} {o : Op}
    {x : Option Cell} {c' : Cell} {f : Option Action}
    (hstamp : ∀ a, f = some a → a.attempt < r.nextAttempt) (hfree : driven o = false)
    (hI : BerthedAt x f) (h : OpEffect derive r key o x (some c')) :
    x = some c' ∨ Cell.progresses c' = true := by
  have hb := berthed_op hstamp hfree hI h
  have hgroup : ∀ n : GroupNumber, ∀ c : Cell, activeCell r n = some (key, c) →
      c'.groupNumber = c.groupNumber → Cell.progresses c' = true := by
    intro n c hact hsame
    obtain ⟨hn, -, hg, -⟩ := activeCell_some hact
    exact progresses_of_group (by rw [hsame, hg]; exact hn)
  generalize hy : some c' = y at h
  cases h with
  | missed => exact .inl rfl
  | absent | cleared => cases hy
  | created =>
    cases hy
    exact .inr (progresses_of_pending (.inl rfl))
  | present => exact .inl rfl
  | deferred hret =>
    cases hy
    exact .inr (progresses_of_group (hb.retiring hret).1)
  | leaveAsked =>
    rename_i now c _
    obtain ⟨hret, he⟩ | ⟨-, -, he⟩ | ⟨-, hg, he⟩ := requestLeave_cases now c <;>
      rw [he] at hy <;> cases hy
    · exact .inr (progresses_of_group (hb.retiring hret).1)
    · exact .inr (progresses_of_group hg)
  | planned | joinIssued | foundIssued | left | kept => simp [driven] at hfree
  | retired =>
    rename_i n now c
    unfold Cell.retired at hy ⊢
    split_ifs at hy ⊢
    · exact .inr (finishRetire_progresses hy.symm)
    · exact .inl rfl
  | selfJoin hact =>
    cases hy
    exact .inr (hgroup _ _ hact (selfJoin_groupNumber _ _))
  | peerJoin hact =>
    cases hy
    exact .inr (hgroup _ _ hact (peerJoin_groupNumber _ _ _ _))
  | peerExit hact =>
    cases hy
    exact .inr (hgroup _ _ hact (peerExit_groupNumber _ _ _ _))
  | joinFail hact =>
    cases hy
    exact .inr (hgroup _ _ hact (expelled_groupNumber _ _ _))
  | kicked hact =>
    cases hy
    exact .inr (hgroup _ _ hact (expelled_groupNumber _ _ _))
  | packet hact =>
    cases hy
    exact .inr (hgroup _ _ hact (packet_groupNumber _ _ _ _ _ _))

theorem timers_progresses (now : Ms) (c : Cell) :
    c.timers now = c ∨ Cell.progresses (c.timers now) = true := by
  obtain he | ⟨-, -, hg, -, -, he⟩ | ⟨-, -, -, -, -, he⟩ | ⟨-, hw, n, w, he⟩ := timers_cases now c
  · exact .inl he
  · rw [he]
    exact .inr (progresses_of_group hg)
  · rw [he]
    exact .inr (progresses_of_waits (enterBackoff_waits _ _))
  · rw [he]
    exact .inr (progresses_of_waits hw)

/-- A planned start is the next step of its cell. -/
theorem covered_plan {swept : Bool} {r : Registry} {now : Ms} {c : Cell} (hb : Berthed c none)
    (h : Covered swept r.generation c none) :
    Covered swept r.generation (planCell r now c).1 (planCell r now c).2 := by
  unfold planCell Cell.plan
  by_cases hr : c.state = .retiring
  · rw [if_pos hr]
    exact h
  rw [if_neg hr]
  have hbt := berthed_timers now hb
  obtain he | ⟨hl, he⟩ | ⟨hl, -, -, -, he⟩ := emit_cases r.accepting r.generation
    (blocked r c.chatIdHex) now (c.timers now) <;> rw [he]
  · obtain ht | ht := timers_progresses now c
    · rw [ht]
      exact h
    · exact covered_of_progresses ht
  · refine covered_of_progresses ?_
    obtain hg | hw := hbt.owed hl
    · exact progresses_of_group hg
    · exact progresses_of_waits hw
  · exact fun _ => .inr ⟨_, rfl, startAction_kind _ _, rfl, rfl⟩

theorem covered_landed {swept : Bool} {generation : ℕ} {c : Cell} {f : Option Action}
    (h : Covered swept generation c f)
    (hf : ∀ a, f = some a → a.kind ≠ .leave → a.attempt = c.attempt → a.generation = generation →
      Cell.progresses c = true) : Covered swept generation c none := by
  intro hno
  obtain hs | ⟨a, ha, hk, hat, hgen⟩ := h hno
  · exact .inl hs
  · simp [hf a ha hk hat hgen] at hno

/-- A result that is refused is not the one a stuck cell waits for. -/
theorem covered_issued {swept : Bool} {generation : ℕ} {record : Cell → Cell}
    {refused : Cell → Bool} {a : Action} {c : Cell} (hb : Berthed c (some a))
    (h : Covered swept generation c (some a))
    (href : refused c = true → c.pendingLeave = true)
    (hrec : Cell.progresses (record c) = true) :
    Covered swept generation (c.issued generation record refused a.generation a.attempt) none := by
  unfold Cell.issued
  split_ifs with haw
  · exact covered_of_progresses hrec
  · refine covered_landed h fun b hb' _ hat hgen => ?_
    cases hb'
    by_contra hno
    obtain ⟨hg, -, -, -, hl⟩ := stuck_iff.mp (by simpa using hno)
    have hret : c.state ≠ .retiring := fun hr => (hb.retiring hr).1 hg
    have hno' : refused c = false := by
      by_contra hyes
      rw [href (by simpa using hyes)] at hl
      cases hl
    simp [Cell.awaits, hat, hgen, hret, hno'] at haw

theorem joinIssued_progresses (n : GroupNumber) (ok : Bool) (now : Ms) (c : Cell) :
    Cell.progresses (c.joinIssued n ok now) = true := by
  obtain ⟨hn, he⟩ | he := joinIssued_cases n ok now c <;> rw [he]
  · exact progresses_of_group hn
  · exact progresses_of_waits (enterBackoff_waits _ _)

theorem foundIssued_progresses (n : GroupNumber) (ok : Bool) (now : Ms) (c : Cell) :
    Cell.progresses (c.foundIssued n ok now) = true := by
  obtain ⟨hn, he⟩ | he := foundIssued_cases n ok now c <;> rw [he]
  · exact progresses_of_group hn
  · exact progresses_of_waits (enterBackoff_waits _ _)

theorem covered_left {swept : Bool} {generation nextAttempt : ℕ} {a : Action} {now : Ms}
    {c c' : Cell} (hk : a.kind = .leave) (h : Covered swept generation c (some a))
    (hc' : c.left nextAttempt a.reason now a.groupNumber = some c') :
    Covered swept generation c' none := by
  unfold Cell.left at hc'
  split_ifs at hc' with hg hn
  · cases hc'
    refine covered_landed h fun b hb hkb => ?_
    cases hb
    exact absurd hk hkb
  · exact covered_of_progresses (finishRetire_progresses hc')
  · cases hc'
    have hsame : c.groupNumber = a.groupNumber := by simpa using hg
    exact covered_of_progresses (progresses_of_group fun h => hn (hsame.symm.trans h))

theorem covered_step (derive : Seed → Option ChatId) {s s' : Session} {e : Event} {key : ChatIdHex}
    {swept : Bool} (hw : WellFormed s) (hord : e.ordinary = true) (hs : step derive s e = some s')
    (hb : Berthing.at s key)
    (hI : ∀ c, s.registry.cells[key]? = some c →
      Covered swept s.registry.generation c (flightAt s key)) :
    ∀ c, s'.registry.cells[key]? = some c →
      Covered swept s.registry.generation c (flightAt s' key) := by
  have he := step_effect derive hw hs key
  obtain ⟨hstamp, hb⟩ := hb
  intro c' hc'
  rw [hc'] at he
  generalize flightAt s' key = f' at he ⊢
  generalize s.registry.cells[key]? = x at he hI hb
  generalize flightAt s key = f at he hI hb hstamp
  generalize hy : some c' = y at he
  cases he with
  | op hfree hclear h =>
    subst hy
    obtain hsame | hp := op_progresses hstamp hfree hb h
    · exact hI c' hsame
    · exact covered_of_progresses hp
  | cleared => cases hord
  | planned =>
    cases hy
    exact covered_plan (hb.1 _ rfl) (hI _ rfl)
  | unplanned | unheard => cases hy
  | elsewhere => exact hI c' hy.symm
  | joinIssued =>
    cases hy
    exact covered_issued (hb.1 _ rfl) (hI _ rfl) (by simp) (joinIssued_progresses _ _ _ _)
  | foundIssued =>
    cases hy
    exact covered_issued (hb.1 _ rfl) (hI _ rfl) (fun h => h) (foundIssued_progresses _ _ _ _)
  | left hkey hk => exact covered_left hk (hI _ rfl) hy.symm
  | kept hkey hk hn =>
    rename_i a now c
    cases hy
    refine covered_of_progresses (progresses_of_group ?_)
    change c.groupNumber ≠ noGroup
    rw [((hb.1 c rfl).leaving a rfl hk).1]
    exact hn
  | lost hkey hk =>
    refine covered_landed (hI c' hy.symm) fun b hb' hkb => ?_
    cases hb'
    exact absurd hk hkb
  | dropped => cases hord

theorem opensGate_of_ordinary {o : Op} (h : (Event.op o).ordinary = true) : o.opensGate = false := by
  cases o with
  | setAccepting on => exact absurd (show false = true from h) Bool.false_ne_true
  | bumpGeneration => exact absurd (show false = true from h) Bool.false_ne_true
  | clear => exact absurd (show false = true from h) Bool.false_ne_true
  | _ => rfl

theorem generation_ordinary (derive : Seed → Option ChatId) {s s' : Session} {e : Event}
    (hord : e.ordinary = true) (hs : step derive s e = some s') :
    s'.registry.generation = s.registry.generation := by
  have hgate : ∀ o : Op, o.opensGate = false →
      (apply derive s.registry o).generation = s.registry.generation := fun o ho =>
    congrArg Prod.snd (gate_apply derive s.registry ho)
  cases e with
  | op o =>
    simp only [step] at hs
    split_ifs at hs <;> cases hs <;> exact hgate o (opensGate_of_ordinary hord)
  | plan now =>
    simp only [step] at hs
    split_ifs at hs
    cases hs
    exact hgate (.plan now) rfl
  | report a outcome now =>
    simp only [step] at hs
    split_ifs at hs
    obtain ⟨o, ho, rfl⟩ := Option.map_eq_some_iff.mp hs
    refine hgate o ?_
    cases outcome <;> simp only [reportOp] at ho <;> split at ho <;> simp_all <;> subst ho <;> rfl
  | drop a => cases hord

/-! ## The whole life -/

def Sweep.covers (id : ChatIdHex) : Sweep → Bool
  | .bumped => true
  | .leaving ids => id ∈ ids

/-- A half-done leave-all is still to reach `id`. -/
def swept (l : Life) (id : ChatIdHex) : Bool := l.sweeps.any (Sweep.covers id)

/-- What covers a stuck cell may change, as long as it stays covered. -/
theorem covered_swept {swept swept' : Bool} {generation generation' : ℕ} {c : Cell}
    {f : Option Action} (h : Covered swept generation c f)
    (hs : Cell.progresses c = false → swept = true → swept' = true)
    (hg : ∀ a, f = some a → a.kind ≠ .leave → swept' = true ∨ generation' = generation) :
    Covered swept' generation' c f := by
  intro hno
  obtain hsw | ⟨a, ha, hk, hat, hgen⟩ := h hno
  · exact .inl (hs hno hsw)
  · obtain hsw | heq := hg a ha hk
    · exact .inl hsw
    · exact .inr ⟨a, ha, hk, hat, hgen.trans heq.symm⟩

theorem any_set {α : Type} {l : List α} {k : ℕ} {old new : α} {p : α → Bool}
    (hk : l[k]? = some old) (h : l.any p = true) (hp : p old = true → p new = true) :
    (l.set k new).any p = true := by
  induction l generalizing k with
  | nil => cases h
  | cons a l ih =>
    rw [List.any_cons, Bool.or_eq_true] at h
    cases k with
    | zero =>
      obtain rfl : a = old := by simpa using hk
      simp only [List.set_cons_zero, List.any_cons, Bool.or_eq_true]
      exact h.imp hp fun h => h
    | succ k =>
      simp only [List.set_cons_succ, List.any_cons, Bool.or_eq_true]
      exact h.imp (fun h => h) fun h => ih (by simpa using hk) h

theorem any_eraseIdx {α : Type} {l : List α} {k : ℕ} {old : α} {p : α → Bool}
    (hk : l[k]? = some old) (h : l.any p = true) (hp : p old = false) :
    (l.eraseIdx k).any p = true := by
  induction l generalizing k with
  | nil => cases h
  | cons a l ih =>
    rw [List.any_cons, Bool.or_eq_true] at h
    cases k with
    | zero =>
      obtain rfl : a = old := by simpa using hk
      exact h.elim (fun h => by simp [hp] at h) fun h => h
    | succ k =>
      simp only [List.eraseIdx_cons_succ, List.any_cons, Bool.or_eq_true]
      exact h.imp (fun h => h) fun h => ih (by simpa using hk) h

structure LifeInv (l : Life) : Prop where
  wf : WellFormed l.session
  berthed : ∀ id : ChatIdHex, Berthing.at l.session id
  covered : ∀ (id : ChatIdHex) (c : Cell), l.session.registry.cells[id]? = some c →
    Covered (swept l id) l.session.registry.generation c (flightAt l.session id)

/-- `RendezvousStart` bumps the generation while no join or found is in flight: the
    thread that ticks is started after it. -/
def startsQuietly (l : Life) : Move → Bool
  | .started => l.session.batch.all fun a => a.kind = .leave
  | _ => true

theorem lifeInv_bump {derive : Seed → Option ChatId} {l l' : Life} {s : Session} (h : LifeInv l)
    (hs : step derive l.session (.op .bumpGeneration) = some s) (hl : l'.session = s)
    (hmono : ∀ id, swept l id = true → swept l' id = true)
    (hcov : ∀ id a, flightAt l.session id = some a → a.kind ≠ .leave → swept l' id = true) :
    LifeInv l' := by
  subst hl
  refine ⟨step_wellFormed derive h.wf hs, fun id => berthing_step derive h.wf hs (h.berthed id), ?_⟩
  intro id c hc
  simp only [step, driven, Bool.false_eq_true, if_false] at hs
  rw [← Option.some.inj hs] at hc ⊢
  exact covered_swept (h.covered id c hc) (fun _ => hmono id) fun a ha hk => .inl (hcov id a ha hk)

theorem lifeInv_leave {derive : Seed → Option ChatId} {l : Life} {s : Session} {k : ℕ} {now : Ms}
    {id : ChatIdHex} {ids : List ChatIdHex} (h : LifeInv l)
    (hk : l.sweeps[k]? = some (.leaving (id :: ids)))
    (hs : step derive l.session (.op (.requestLeave id now)) = some s) :
    LifeInv { l with session := s, sweeps := l.sweeps.set k (.leaving ids) } := by
  have hgen := generation_ordinary derive rfl hs
  refine ⟨step_wellFormed derive h.wf hs, fun key => berthing_step derive h.wf hs (h.berthed key), ?_⟩
  intro key c hc
  have hstep := covered_step derive h.wf rfl hs (h.berthed key) (h.covered key) c hc
  refine covered_swept hstep (fun hno hsw => ?_) fun _ _ _ => .inr hgen
  refine any_set hk hsw fun hcov => ?_
  simp only [Sweep.covers, decide_eq_true_eq] at hcov ⊢
  rcases List.mem_cons.mp hcov with rfl | hmem
  · -- The leave has just reached the cell, so it is not stuck.
    simp only [step, driven, Bool.false_eq_true, if_false] at hs
    obtain rfl := Option.some.inj hs
    change (requestLeave l.session.registry key now).1.cells[key]? = some c at hc
    rw [requestLeave_cells, if_pos rfl] at hc
    obtain ⟨c₀, hc₀, hleave⟩ := Option.bind_eq_some_iff.mp hc
    obtain ⟨hg, -, -, -, hl⟩ := stuck_iff.mp hno
    obtain ⟨hret, he⟩ | ⟨-, -, he⟩ | ⟨-, -, he⟩ := requestLeave_cases now c₀ <;>
      rw [he] at hleave <;> cases hleave
    · exact absurd hg (((h.berthed key).2.1 c₀ hc₀).retiring hret).1
    · cases hl
  · exact hmem

theorem lifeInv_step (derive : Seed → Option ChatId) (l : Life) (m : Move) (l' : Life)
    (h : LifeInv l) (hquiet : startsQuietly l m = true) (hs : lifeStep derive l m = some l') :
    LifeInv l' := by
  cases m with
  | session e =>
    simp only [lifeStep] at hs
    split_ifs at hs with hord
    obtain ⟨s, hstep, rfl⟩ := Option.map_eq_some_iff.mp hs
    have hgen := generation_ordinary derive hord hstep
    refine ⟨step_wellFormed derive h.wf hstep,
      fun id => berthing_step derive h.wf hstep (h.berthed id), fun id => ?_⟩
    rw [hgen]
    exact covered_step derive h.wf hord hstep (h.berthed id) (h.covered id)
  | start =>
    simp only [lifeStep] at hs
    split_ifs at hs
    obtain ⟨s, hstep, rfl⟩ := Option.map_eq_some_iff.mp hs
    refine ⟨step_wellFormed derive h.wf hstep,
      fun id => berthing_step derive h.wf hstep (h.berthed id), fun id => ?_⟩
    simp only [step, driven, Bool.false_eq_true, if_false] at hstep
    obtain rfl := Option.some.inj hstep
    exact h.covered id
  | started =>
    simp only [lifeStep] at hs
    split_ifs at hs
    obtain ⟨s, hstep, rfl⟩ := Option.map_eq_some_iff.mp hs
    refine lifeInv_bump h hstep rfl (fun _ h => h) fun id a ha hk => ?_
    have hmem := ((flightAt_iff h.wf).mp ha).1
    simp only [startsQuietly, List.all_eq_true, decide_eq_true_eq] at hquiet
    exact absurd (hquiet a hmem) hk
  | leaveAll =>
    simp only [lifeStep] at hs
    split_ifs at hs
    obtain ⟨s, hstep, rfl⟩ := Option.map_eq_some_iff.mp hs
    have hall : ∀ id, swept { l with session := s, sweeps := l.sweeps ++ [.bumped] } id = true := by
      intro id
      simp [swept, Sweep.covers]
    exact lifeInv_bump h hstep rfl (fun id _ => hall id) fun id _ _ _ => hall id
  | sweep k now =>
    simp only [lifeStep] at hs
    split at hs
    · cases hs
    · rename_i hk
      cases hs
      refine ⟨h.wf, h.berthed, fun id c hc => ?_⟩
      refine covered_swept (h.covered id c hc) (fun _ hsw => ?_) fun _ _ _ => .inr rfl
      refine any_set hk hsw fun _ => ?_
      simp only [Sweep.covers, decide_eq_true_eq]
      rw [Std.TreeMap.mem_keys, Std.TreeMap.mem_iff_isSome_getElem?, hc]
      rfl
    · rename_i hk
      cases hs
      refine ⟨h.wf, h.berthed, fun id c hc => ?_⟩
      refine covered_swept (h.covered id c hc) (fun _ hsw => ?_) fun _ _ _ => .inr rfl
      exact any_eraseIdx hk hsw (by simp [Sweep.covers])
    · rename_i hk
      obtain ⟨s, hstep, rfl⟩ := Option.map_eq_some_iff.mp hs
      exact lifeInv_leave h hk hstep

theorem lifeInv_initial : LifeInv {} :=
  ⟨initial_wellFormed, fun id => by simpa [Local.at, flightAt] using berthing_none, by simp⟩

/-- A tick plans the client's join between the two halves of `RendezvousStart`. -/
def hastyRun : List Move :=
  [.start, .session (.op (.requestJoin sampleSeed "n" "0123abcd" 1000)), .session (.plan 1000),
    .started, .session (.report (sampleAction .join 1 1) (.issued 7 true) 1000),
    .session (.op (.noteRetiringOrphan 7 sampleId))]

/-- A leave-all overtakes a join in flight, and the client joins again. -/
def overtakenRun : List Move :=
  [.start, .started, .session (.op (.requestJoin sampleSeed "n" "0123abcd" 1000)),
    .session (.plan 1000), .leaveAll,
    .session (.report (sampleAction .join 2 1) (.issued 7 true) 1000), .sweep 0 1100, .sweep 0 1100,
    .session (.op (.requestJoin sampleSeed "n" "0123abcd" 1200)), .sweep 0 1200]

end Tim2Tox.RendezvousSession
