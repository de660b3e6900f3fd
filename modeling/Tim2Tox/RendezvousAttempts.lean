import Tim2Tox.RendezvousPlanner

set_option autoImplicit false

/-!
# Late results

A result is recorded only for the attempt it was issued for. Attempt numbers
come from one counter, so a cell that was erased, or renewed by a rejoin or a
refound, never matches the stamps of an older action again.
-/
namespace Tim2Tox.RendezvousSession
open RendezvousCodec RendezvousGroups LabelledRuns

/-- A cell after an event keeps the attempt it had, or has one from the counter on. -/
theorem step_attempt (derive : Seed → Option ChatId) {s s' : Session} {e : Event}
    (hs : step derive s e = some s') {id : ChatIdHex} {c' : Cell}
    (hc' : s'.registry.cells[id]? = some c') :
    (∃ c, s.registry.cells[id]? = some c ∧ c.attempt = c'.attempt) ∨
      s.registry.nextAttempt ≤ c'.attempt := by
  obtain h | ⟨o, h⟩ := step_registry derive hs
  · rw [h] at hc'
    exact .inl ⟨c', hc', rfl⟩
  · have he := apply_effect derive s.registry o id
    rw [h] at hc'
    rw [hc'] at he
    cases hc : s.registry.cells[id]? with
    | none =>
      rw [hc] at he
      have ht := congrArg Prod.snd (effect_created hc he).1
      exact .inr (Nat.le_of_eq ht.symm)
    | some c =>
      rw [hc] at he
      obtain ht | ⟨ht, -⟩ := effect_tag hc he
      · exact .inl ⟨c, rfl, (congrArg Prod.snd ht).symm⟩
      · exact .inr (Nat.le_of_eq (congrArg Prod.snd ht).symm)

/-- Attempt numbers are never reused: over a run a cell keeps its attempt or
    has one that was not handed out when the run began. -/
theorem run_attempt (derive : Seed → Option ChatId) {s s' : Session} {es : List Event}
    (hr : exec (step derive) s es = some s') :
    s.registry.nextAttempt ≤ s'.registry.nextAttempt ∧
    ∀ (id : ChatIdHex) (c' : Cell), s'.registry.cells[id]? = some c' →
      (∃ c, s.registry.cells[id]? = some c ∧ c.attempt = c'.attempt) ∨
        s.registry.nextAttempt ≤ c'.attempt := by
  induction es generalizing s with
  | nil =>
    obtain rfl : s = s' := by simpa using hr
    exact ⟨Nat.le_refl _, fun id c' hc' => .inl ⟨c', hc', rfl⟩⟩
  | cons e es ih =>
    obtain ⟨u, hu, hr⟩ := exec_cons.mp hr
    have hle := step_nextAttempt_le derive hu
    obtain ⟨hle', hrest⟩ := ih hr
    refine ⟨Nat.le_trans hle hle', fun id c' hc' => ?_⟩
    obtain ⟨c, hc, hat⟩ | hge := hrest id c' hc'
    · obtain ⟨c₀, hc₀, hat₀⟩ | hge := step_attempt derive hu hc
      · exact .inl ⟨c₀, hc₀, hat₀.trans hat⟩
      · exact .inr (hat ▸ hge)
    · exact .inr (Nat.le_trans hle hge)

theorem run_generation_le (derive : Seed → Option ChatId) {s s' : Session} {es : List Event}
    (hr : exec (step derive) s es = some s') :
    s.registry.generation ≤ s'.registry.generation :=
  invariant (I := fun u : Session => s.registry.generation ≤ u.registry.generation)
    (fun _ _ _ h hs => Nat.le_trans h (step_generation_le derive hs)) (Nat.le_refl _) hr

/-- A cell with an attempt that is handed out already had it at every earlier moment. -/
theorem attempt_kept (derive : Seed → Option ChatId) {s s' : Session} {es : List Event}
    (hr : exec (step derive) s es = some s') {id : ChatIdHex} {c' : Cell}
    (hc' : s'.registry.cells[id]? = some c') (hlt : c'.attempt < s.registry.nextAttempt) :
    ∃ c, s.registry.cells[id]? = some c ∧ c.attempt = c'.attempt := by
  obtain h | h := (run_attempt derive hr).2 id c' hc'
  · exact h
  · omega

/-! ## No retirement before the report -/

/-- The only action planned for `id` is `a`, and the cell it was planned for does not retire. -/
def Unretired (a : Action) : Local := fun _ _ x f =>
  (∀ b, f = some b → b = a) ∧ ∀ c, x = some c → c.attempt = a.attempt → c.state ≠ .retiring

theorem issued_state {generation generation' attempt : ℕ} {record : Cell → Cell}
    {refused : Cell → Bool} {c : Cell} (hrec : (record c).state ≠ .retiring)
    (hc : c.state ≠ .retiring) :
    (c.issued generation record refused generation' attempt).state ≠ .retiring := by
  unfold Cell.issued
  split_ifs
  · exact hrec
  · exact hc

theorem joinIssued_state (n : GroupNumber) (ok : Bool) (now : Ms) (c : Cell) :
    (c.joinIssued n ok now).state ≠ .retiring := by
  obtain ⟨-, he⟩ | he := joinIssued_cases n ok now c <;> rw [he]
  · simp
  · exact ne_retiring_of_waits (enterBackoff_waits now _)

theorem foundIssued_state (n : GroupNumber) (ok : Bool) (now : Ms) (c : Cell) :
    (c.foundIssued n ok now).state ≠ .retiring := by
  obtain ⟨-, he⟩ | he := foundIssued_cases n ok now c <;> rw [he]
  · simp
  · exact ne_retiring_of_waits (enterBackoff_waits now _)

theorem planned_state {r : Registry} {now : Ms} {c : Cell} (h : c.state ≠ .retiring) :
    (planCell r now c).1.state ≠ .retiring := by
  have ht := timers_state now h
  unfold planCell Cell.plan
  rw [if_neg h]
  obtain he | ⟨-, he⟩ | ⟨-, -, -, -, he⟩ := emit_cases r.accepting r.generation
    (blocked r c.chatIdHex) now (c.timers now) <;> rw [he]
  · exact ht
  · exact ht
  · dsimp only
    split_ifs
    · simp
    · exact ht

theorem unretired_op {derive : Seed → Option ChatId} {r : Registry} {id : ChatIdHex} {o : Op}
    {x : Option Cell} {c' : Cell} {n : ℕ} (hfree : driven o = false)
    (hI : ∀ c, x = some c → c.attempt = n → c.state ≠ .retiring)
    (h : OpEffect derive r id o x (some c')) (hat : c'.attempt = n) : c'.state ≠ .retiring := by
  generalize hy : some c' = y at h
  cases h with
  | missed => exact hI c' hy.symm hat
  | absent | cleared => cases hy
  | created =>
    cases hy
    simp [newCell]
  | present => exact hI c' hy.symm hat
  | deferred h =>
    cases hy
    exact absurd h (hI _ rfl hat)
  | leaveAsked =>
    rename_i now c _
    obtain ⟨hr, he⟩ | ⟨-, -, he⟩ | ⟨hr, -, he⟩ := requestLeave_cases now c <;>
      rw [he] at hy <;> cases hy
    · exact hI c rfl hat
    · exact hr
  | planned | joinIssued | foundIssued | left | kept => simp [driven] at hfree
  | retired =>
    unfold Cell.retired at hy
    split_ifs at hy
    · exact finishRetire_state hy.symm
    · cases hy
      exact hI _ rfl hat
  | selfJoin =>
    cases hy
    simp [Cell.selfJoin]
  | peerJoin h =>
    rename_i peer pk now c
    obtain ⟨-, -, -, hs⟩ := activeCell_some h
    obtain ⟨-, he⟩ | ⟨-, b, co, since, retries, he⟩ := peerJoin_cases peer pk now c <;>
      rw [he] at hy <;> cases hy
    · exact hs
    · dsimp only
      split_ifs
      · simp
      · exact hs
  | peerExit h =>
    rename_i peer self now c
    obtain ⟨-, -, -, hs⟩ := activeCell_some h
    obtain ⟨-, he⟩ | ⟨-, b, co, he⟩ := peerExit_cases peer self now c <;>
      rw [he] at hy <;> cases hy <;> exact hs
  | joinFail | kicked =>
    cases hy
    exact ne_retiring_of_waits (enterBackoff_waits _ _)
  | packet h =>
    rename_i peer pk isPrivate payload now c
    obtain ⟨-, -, -, hs⟩ := activeCell_some h
    obtain ⟨peers, budget, -, he⟩ := packet_eq peer pk isPrivate payload now c
    rw [he] at hy
    cases hy
    exact hs

theorem unretired_step (derive : Seed → Option ChatId) {a : Action} (hk : a.kind ≠ .leave)
    {s s' : Session} {e : Event} (hw : WellFormed s) (hplan : ∀ now, e ≠ .plan now)
    (hs : step derive s e = some s') (id : ChatIdHex) (hI : (Unretired a).at s id) :
    (Unretired a).at s' id := by
  have he := step_effect derive hw hs id
  obtain ⟨hflight, hcell⟩ := hI
  unfold Local.at Unretired
  generalize s.registry.cells[id]? = x at he hcell
  generalize flightAt s id = f at he hflight
  generalize s'.registry.cells[id]? = x' at he ⊢
  generalize flightAt s' id = f' at he ⊢
  have hnoLeave : ∀ b, f = some b → b.kind ≠ .leave := fun b hb => hflight b hb ▸ hk
  cases he with
  | op hfree _ h =>
    refine ⟨hflight, ?_⟩
    rintro c' rfl hat
    exact unretired_op hfree hcell h hat
  | planned => exact absurd rfl (hplan _)
  | unplanned => exact absurd rfl (hplan _)
  | elsewhere => exact ⟨hflight, hcell⟩
  | joinIssued =>
    refine ⟨by simp, ?_⟩
    rintro c' hc' hat
    cases hc'
    rw [← hat] at hcell
    exact issued_state (joinIssued_state _ _ _ _)
      (hcell _ rfl (congrArg Prod.snd (issued_tag (joinIssued_tag _ _ _) _)).symm)
  | foundIssued =>
    refine ⟨by simp, ?_⟩
    rintro c' hc' hat
    cases hc'
    rw [← hat] at hcell
    exact issued_state (foundIssued_state _ _ _ _)
      (hcell _ rfl (congrArg Prod.snd (issued_tag (foundIssued_tag _ _ _) _)).symm)
  | left _ hleave => exact absurd hleave (hnoLeave _ rfl)
  | kept _ hleave => exact absurd hleave (hnoLeave _ rfl)
  | lost _ hleave => exact absurd hleave (hnoLeave _ rfl)
  | dropped => exact ⟨by simp, hcell⟩
  | cleared | unheard => exact ⟨by simp, by simp⟩

theorem unretired_run (derive : Seed → Option ChatId) {a : Action} (hk : a.kind ≠ .leave)
    {s s' : Session} {es : List Event} (hw : WellFormed s)
    (hplan : ∀ e ∈ es, ∀ now, e ≠ .plan now) (hr : exec (step derive) s es = some s')
    (id : ChatIdHex) (hI : (Unretired a).at s id) : (Unretired a).at s' id := by
  induction es generalizing s with
  | nil =>
    obtain rfl : s = s' := by simpa using hr
    exact hI
  | cons e es ih =>
    obtain ⟨u, hu, hr⟩ := exec_cons.mp hr
    have hI' := unretired_step derive hk hw (hplan e List.mem_cons_self) hu id hI
    exact ih (step_wellFormed derive hw hu) (fun e he => hplan e (List.mem_cons_of_mem _ he)) hr hI'

/-! ## The reports themselves -/

/-- A refused result leaves the registry alone; a recorded one found its attempt. -/
theorem onJoinIssued_spec (r : Registry) (id : ChatIdHex) (n : GroupNumber) (ok : Bool) (now : Ms)
    (generation attempt : ℕ) :
    ((onJoinIssued r id n ok now generation attempt).2 = true → r.generation = generation ∧
      ∃ c, r.cells[id]? = some c ∧ c.attempt = attempt) ∧
    ((onJoinIssued r id n ok now generation attempt).2 = false →
      (onJoinIssued r id n ok now generation attempt).1 = r) := by
  unfold onJoinIssued
  cases hc : r.cells[id]? with
  | none => simp
  | some c =>
    dsimp only
    split_ifs with haw
    · simp only [Cell.awaits, Bool.and_eq_true, decide_eq_true_eq] at haw
      exact ⟨fun _ => ⟨haw.1.1, c, rfl, haw.1.2⟩, by simp⟩
    · simp

theorem onFoundIssued_spec (r : Registry) (id : ChatIdHex) (n : GroupNumber) (ok : Bool) (now : Ms)
    (generation attempt : ℕ) :
    ((onFoundIssued r id n ok now generation attempt).2 = true → r.generation = generation ∧
      ∃ c, r.cells[id]? = some c ∧ c.attempt = attempt) ∧
    ((onFoundIssued r id n ok now generation attempt).2 = false →
      (onFoundIssued r id n ok now generation attempt).1 = r) := by
  unfold onFoundIssued
  cases hc : r.cells[id]? with
  | none => simp
  | some c =>
    dsimp only
    split_ifs with haw
    · simp only [Cell.awaits, Bool.and_eq_true, decide_eq_true_eq] at haw
      exact ⟨fun _ => ⟨haw.1.1.1, c, rfl, haw.1.1.2⟩, by simp⟩
    · simp

/-- Everywhere along the run the action's cell is there, on its attempt and
    under its generation; before the next `Plan` it has not retired either. -/
def StillTheAttempt (derive : Seed → Option ChatId) (a : Action) (t : Session) (fs : List Event) :
    Prop :=
  ∀ v, Visits (step derive) t fs v → v.registry.generation = a.generation ∧
    ∃ c, v.registry.cells[a.chatIdHex]? = some c ∧ c.attempt = a.attempt ∧
      (a.kind ≠ .leave → (∀ e ∈ fs, ∀ later, e ≠ .plan later) → c.state ≠ .retiring)

theorem stillTheAttempt (derive : Seed → Option ChatId) {s t u : Session} {now : Ms} {a : Action}
    {fs : List Event} (hs : WellFormed s) (ht : step derive s (.plan now) = some t)
    (ha : a ∈ t.batch) (hu : exec (step derive) t fs = some u)
    (hg : u.registry.generation = a.generation) {c : Cell}
    (hc : u.registry.cells[a.chatIdHex]? = some c) (hat : c.attempt = a.attempt) :
    StillTheAttempt derive a t fs := by
  have hwt := step_wellFormed derive hs ht
  have hplan : t = ⟨(plan s.registry now).1, (plan s.registry now).2⟩ := by
    simp only [step] at ht
    split_ifs at ht
    exact (Option.some.inj ht).symm
  have hmem : a ∈ (plan s.registry now).2 := by simpa [hplan] using ha
  obtain ⟨id, c₀, hc₀, hca⟩ := mem_plan.mp hmem
  obtain ⟨htag, hgen, hstate⟩ := plan_action hca
  have hid : a.chatIdHex = id := (congrArg Prod.fst htag).trans (hs.numbered.keyed id c₀ hc₀)
  have hstamp : a.attempt = c₀.attempt := congrArg Prod.snd htag
  have hgent : t.registry.generation = a.generation := by rw [hplan, hgen]; rfl
  have hltt : a.attempt < t.registry.nextAttempt := by
    rw [hplan, hstamp]
    exact hs.numbered.handedOut id c₀ hc₀
  intro v hv
  obtain ⟨es, gs, rfl, hes, hgs⟩ := hv.split hu
  have hle₁ := run_generation_le derive hes
  have hle₂ := run_generation_le derive hgs
  have hltv := Nat.lt_of_lt_of_le hltt (run_attempt derive hes).1
  obtain ⟨cv, hcv, hatv⟩ := attempt_kept derive hgs hc (by omega)
  refine ⟨by omega, cv, hcv, hatv.trans hat, fun hk hno => ?_⟩
  have hbase : (Unretired a).at t a.chatIdHex := by
    refine ⟨fun b hb => ?_, fun c hc _ => ?_⟩
    · obtain ⟨hb, hbid⟩ := (flightAt_iff hwt).mp hb
      exact List.inj_on_of_nodup_map hwt.distinct hb ha hbid
    · have hct : t.registry.cells[a.chatIdHex]? = some (planCell s.registry now c₀).1 := by
        rw [hplan, hid]
        simp [plan, hc₀]
      obtain rfl := Option.some.inj (hc.symm.trans hct)
      exact planned_state hstate
  have hrun := unretired_run derive hk hwt
    (fun e he => hno e (List.mem_append_left _ he)) hes a.chatIdHex hbase
  exact hrun.2 cv hcv (hatv.trans hat)

/-- A result with the stamps of an action planned earlier is recorded only on
    the attempt the action was issued for; a refused one changes nothing; and
    no attempt number is handed out twice. -/
theorem result_recorded_on_its_attempt (derive : Seed → Option ChatId) (es fs : List Event)
    (s t u : Session) (now later : Ms) (a : Action) (n : GroupNumber) (ok : Bool)
    (hes : exec (step derive) {} es = some s) (ht : step derive s (.plan now) = some t)
    (ha : a ∈ t.batch) (hu : exec (step derive) t fs = some u) :
    ((onJoinIssued u.registry a.chatIdHex n ok later a.generation a.attempt).2 = true ∨
        (onFoundIssued u.registry a.chatIdHex n ok later a.generation a.attempt).2 = true →
      StillTheAttempt derive a t fs) ∧
    ((onJoinIssued u.registry a.chatIdHex n ok later a.generation a.attempt).2 = false →
      (onJoinIssued u.registry a.chatIdHex n ok later a.generation a.attempt).1 = u.registry) ∧
    ((onFoundIssued u.registry a.chatIdHex n ok later a.generation a.attempt).2 = false →
      (onFoundIssued u.registry a.chatIdHex n ok later a.generation a.attempt).1 = u.registry) ∧
    ∀ v, Visits (step derive) t fs v → ∀ (id : ChatIdHex) (c : Cell),
      v.registry.cells[id]? = some c →
        (∃ c₀, t.registry.cells[id]? = some c₀ ∧ c₀.attempt = c.attempt) ∨
          t.registry.nextAttempt ≤ c.attempt := by
  have hs := run_wellFormed derive hes
  have hjoin := onJoinIssued_spec u.registry a.chatIdHex n ok later a.generation a.attempt
  have hfound := onFoundIssued_spec u.registry a.chatIdHex n ok later a.generation a.attempt
  refine ⟨fun h => ?_, hjoin.2, hfound.2, ?_⟩
  · obtain ⟨hg, c, hc, hat⟩ := h.elim hjoin.1 hfound.1
    exact stillTheAttempt derive hs ht ha hu hg hc hat
  · rintro v ⟨gs, hs, rfl, hgs⟩ id c hc
    exact (run_attempt derive hgs).2 id c hc

/-- A join that fails in toxcore, is left, retires into the back-off and is
    planned again: the attempt stays the same throughout. -/
def backoffRun : List Event :=
  [.report (sampleAction .join 2 1) (.issued 7 true) 1000, .op (.onJoinFail 7 false 2000),
   .plan 2000, .report (sampleLeave .failed 2 1) .left 2000, .op (.onRetired sampleId 7 2100),
   .plan 17100]

/-- The second join of the back-off carries the stamps of the first, and is
    recorded although the cell retired in between. -/
theorem recorded_after_retirement : ∃ s t u v,
    exec (step sampleDerive) {} joinRun = some s ∧ step sampleDerive s (.plan 1000) = some t ∧
    sampleAction .join 2 1 ∈ t.batch ∧ exec (step sampleDerive) t backoffRun = some u ∧
    sampleAction .join 2 1 ∈ u.batch ∧
    (onJoinIssued u.registry sampleId 8 true 17100 2 1).2 = true ∧
    Visits (step sampleDerive) t backoffRun v ∧
    ∃ c, v.registry.cells[sampleId]? = some c ∧ c.state = .retiring := by
  have hrun : (((exec (step sampleDerive) {} joinRun).bind fun s =>
      step sampleDerive s (.plan 1000)).any fun t => sampleAction .join 2 1 ∈ t.batch ∧
      ((exec (step sampleDerive) t backoffRun).any fun u => sampleAction .join 2 1 ∈ u.batch ∧
        (onJoinIssued u.registry sampleId 8 true 17100 2 1).2 = true) = true ∧
      ((exec (step sampleDerive) t (backoffRun.take 4)).any fun v =>
        v.registry.cells[sampleId]?.any fun c => c.state = .retiring) = true) = true := by
    decide
  obtain ⟨t, ht, h⟩ := (Option.any_eq_true _ _).mp hrun
  obtain ⟨s, hs, ht⟩ := Option.bind_eq_some_iff.mp ht
  simp only [decide_eq_true_eq] at h
  obtain ⟨ha, hu, hv⟩ := h
  obtain ⟨u, hu, h⟩ := (Option.any_eq_true _ _).mp hu
  simp only [decide_eq_true_eq] at h
  obtain ⟨v, hv, hc⟩ := (Option.any_eq_true _ _).mp hv
  obtain ⟨c, hc, hstate⟩ := (Option.any_eq_true _ _).mp hc
  exact ⟨s, t, u, v, hs, ht, ha, hu, h.1, h.2,
    ⟨backoffRun.take 4, backoffRun.drop 4, (List.take_append_drop 4 backoffRun).symm, hv⟩,
    c, hc, by simpa using hstate⟩

theorem result_recorded_at_once : ∃ s t, exec (step sampleDerive) {} joinRun = some s ∧
    step sampleDerive s (.plan 1000) = some t ∧
    (onJoinIssued t.registry sampleId 7 true 1000 2 1).2 = true ∧
    StillTheAttempt sampleDerive (sampleAction .join 2 1) t [] := by
  have hrun : (((exec (step sampleDerive) {} joinRun).bind fun s =>
      step sampleDerive s (.plan 1000)).any fun t => sampleAction .join 2 1 ∈ t.batch ∧
      (onJoinIssued t.registry sampleId 7 true 1000 2 1).2 = true) = true := by
    decide
  obtain ⟨t, ht, h⟩ := (Option.any_eq_true _ _).mp hrun
  obtain ⟨s, hs, ht⟩ := Option.bind_eq_some_iff.mp ht
  simp only [decide_eq_true_eq] at h
  exact ⟨s, t, hs, ht, h.2, (result_recorded_on_its_attempt sampleDerive joinRun [] s t t 1000 1000
    (sampleAction .join 2 1) 7 true hs ht h.1 rfl).1 (.inl h.2)⟩

end Tim2Tox.RendezvousSession
