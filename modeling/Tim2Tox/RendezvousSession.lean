import Mathlib.Data.List.Nodup
import Tim2Tox.LabelledRuns
import Tim2Tox.RendezvousOwned

set_option autoImplicit false

/-!
# Runs of the registry under its driver

The registry with the batch of actions `RendezvousTick` got from `Plan` and
has not reported yet. Client requests and callbacks come at any time; a
batch is planned once the previous one is done, and each action is reported
with any outcome its tox call can have. Which cell and which planned action
stand under one chat id changes only as `Effect` says.
-/
namespace Tim2Tox.RendezvousSession
open RendezvousCodec RendezvousGroups LabelledRuns

structure Session where
  registry : Registry := {}
  batch : List Action := []

/-- How `RendezvousExecute` ends: the number of a join or found, or what became
    of a leave. A kept group is owed again, or a zombie once the registry moved on. -/
inductive Outcome where
  | issued (n : GroupNumber) (ok : Bool)
  | left | kept | lost
  deriving DecidableEq

inductive Event where
  | op (o : Op)
  | plan (now : Ms)
  | report (a : Action) (outcome : Outcome) (now : Ms)
  | drop (a : Action)
  deriving DecidableEq

/-- Operations only the driver calls, and only for an action it planned. -/
def driven : Op → Bool
  | .plan _ | .onJoinIssued .. | .onFoundIssued .. | .onLeaveIssued .. | .onLeaveFailed .. => true
  | _ => false

/-- What `RendezvousExecute` records. A number that is none of ours counts as
    left, so only a leave with a group can fail. -/
def reportOp (r : Registry) (a : Action) (now : Ms) : Outcome → Option Op
  | .issued n ok => match a.kind with
    | .join => some (.onJoinIssued a.chatIdHex n ok now a.generation a.attempt)
    | .found => some (.onFoundIssued a.chatIdHex n ok now a.generation a.attempt)
    | .leave => none
  | .left =>
    if a.kind = .leave then some (.onLeaveIssued a.chatIdHex a.reason now a.groupNumber) else none
  | .kept =>
    if a.kind = .leave ∧ a.groupNumber ≠ noGroup then some (.onLeaveFailed a.chatIdHex now)
    else none
  | .lost =>
    if a.kind = .leave ∧ a.groupNumber ≠ noGroup ∧ r.generation ≠ a.generation then
      some (.noteZombie a.groupNumber a.chatIdHex) else none

section
variable (derive : Seed → Option ChatId)

/-- A join or found is dropped unreported only once admission has closed. -/
def step (s : Session) : Event → Option Session
  | .op o =>
    if driven o then none
    else some ⟨apply derive s.registry o, if o = .clear then [] else s.batch⟩
  | .plan now =>
    if s.batch.isEmpty then some ⟨(plan s.registry now).1, (plan s.registry now).2⟩ else none
  | .report a outcome now =>
    if a ∈ s.batch then
      (reportOp s.registry a now outcome).map fun o =>
        ⟨apply derive s.registry o, s.batch.erase a⟩
    else none
  | .drop a =>
    if a ∈ s.batch ∧ a.kind ≠ .leave ∧ !s.registry.accepting then
      some { s with batch := s.batch.erase a } else none

end

/-- Every event is an operation of the registry, or leaves it alone. -/
theorem step_registry (derive : Seed → Option ChatId) {s s' : Session} {e : Event}
    (hs : step derive s e = some s') :
    s'.registry = s.registry ∨ ∃ o, s'.registry = apply derive s.registry o := by
  cases e with
  | op o =>
    simp only [step] at hs
    split_ifs at hs <;> cases hs <;> exact .inr ⟨o, rfl⟩
  | plan now =>
    simp only [step] at hs
    split_ifs at hs
    cases hs
    exact .inr ⟨.plan now, rfl⟩
  | report a outcome now =>
    simp only [step] at hs
    split_ifs at hs
    obtain ⟨o, -, rfl⟩ := Option.map_eq_some_iff.mp hs
    exact .inr ⟨o, rfl⟩
  | drop a =>
    simp only [step] at hs
    split_ifs at hs
    cases hs
    exact .inl rfl

theorem step_nextAttempt_le (derive : Seed → Option ChatId) {s s' : Session} {e : Event}
    (hs : step derive s e = some s') : s.registry.nextAttempt ≤ s'.registry.nextAttempt := by
  obtain h | ⟨o, h⟩ := step_registry derive hs
  · exact Nat.le_of_eq (by rw [h])
  · rw [h, nextAttempt_apply]
    exact Nat.le_add_right _ _

theorem step_generation_le (derive : Seed → Option ChatId) {s s' : Session} {e : Event}
    (hs : step derive s e = some s') : s.registry.generation ≤ s'.registry.generation := by
  obtain h | ⟨o, h⟩ := step_registry derive hs
  · exact Nat.le_of_eq (by rw [h])
  · rw [h]
    exact generation_apply_le derive _ o

/-! ## Well-formed registries -/

/-- Every cell stands under its own chat id, with an attempt already handed out. -/
structure Numbered (r : Registry) : Prop where
  keyed : ∀ (id : ChatIdHex) (c : Cell), r.cells[id]? = some c → c.chatIdHex = id
  handedOut : ∀ (id : ChatIdHex) (c : Cell), r.cells[id]? = some c → c.attempt < r.nextAttempt

theorem numbered_empty : Numbered {} := ⟨by simp, by simp⟩

theorem numbered_apply (derive : Seed → Option ChatId) {r : Registry} (h : Numbered r) (o : Op) :
    Numbered (apply derive r o) := by
  have htag : ∀ (id : ChatIdHex) (c' : Cell), (apply derive r o).cells[id]? = some c' →
      c'.chatIdHex = id ∧ c'.attempt < (apply derive r o).nextAttempt := by
    intro id c' hc'
    have he := apply_effect derive r o id
    rw [hc'] at he
    rw [nextAttempt_apply]
    cases hc : r.cells[id]? with
    | none =>
      rw [hc] at he
      obtain ⟨ht, hr, -⟩ := effect_created hc he
      simp only [Cell.tag, Prod.mk.injEq] at ht
      exact ⟨ht.1, by rw [ht.2, hr, if_pos rfl]; omega⟩
    | some c =>
      rw [hc] at he
      have hid := h.keyed id c hc
      have hlt := h.handedOut id c hc
      obtain ht | ⟨ht, hr⟩ := effect_tag hc he
      · simp only [Cell.tag, Prod.mk.injEq] at ht
        exact ⟨ht.1.trans hid, by omega⟩
      · simp only [Cell.tag, Prod.mk.injEq] at ht
        exact ⟨ht.1.trans hid, by rw [ht.2, hr, if_pos rfl]; omega⟩
  exact ⟨fun id c hc => (htag id c hc).1, fun id c hc => (htag id c hc).2⟩

/-! ## The planned batch -/

theorem mem_plan {r : Registry} {now : Ms} {a : Action} :
    a ∈ (plan r now).2 ↔
      ∃ (id : ChatIdHex) (c : Cell), r.cells[id]? = some c ∧ (planCell r now c).2 = some a := by
  simp only [plan, List.mem_filterMap]
  constructor
  · rintro ⟨⟨id, c⟩, hmem, ha⟩
    exact ⟨id, c, Std.TreeMap.mem_toList_iff_getElem?_eq_some.mp hmem, ha⟩
  · rintro ⟨id, c, hc, ha⟩
    exact ⟨(id, c), Std.TreeMap.mem_toList_iff_getElem?_eq_some.mpr hc, ha⟩

theorem plan_distinct {r : Registry} (h : Numbered r) (now : Ms) :
    ((plan r now).2.map Action.chatIdHex).Nodup := by
  have hsub : ((plan r now).2.map Action.chatIdHex).Sublist r.cells.keys := by
    unfold plan
    rw [← Std.TreeMap.map_fst_toList_eq_keys]
    have hall : ∀ entry ∈ r.cells.toList, entry.2.chatIdHex = entry.1 := fun entry hmem =>
      h.keyed _ _ (Std.TreeMap.mem_toList_iff_getElem?_eq_some.mp hmem)
    dsimp only
    revert hall
    generalize r.cells.toList = entries
    intro hall
    induction entries with
    | nil => simp
    | cons entry entries ih =>
      have hrest := ih fun e he => hall e (List.mem_cons_of_mem _ he)
      cases ha : (planCell r now entry.2).2 with
      | none =>
        rw [List.filterMap_cons_none (by exact ha)]
        exact hrest.cons _
      | some a =>
        have hid : a.chatIdHex = entry.1 :=
          (congrArg Prod.fst (plan_action ha).1).trans (hall entry List.mem_cons_self)
        rw [List.filterMap_cons_some (by exact ha), List.map_cons, List.map_cons, hid]
        exact hrest.cons_cons _
  exact hsub.nodup Std.TreeMap.nodup_keys

/-- The planned, unreported action of one chat id. -/
def flightAt (s : Session) (id : ChatIdHex) : Option Action :=
  s.batch.find? fun a => a.chatIdHex = id

structure WellFormed (s : Session) : Prop where
  numbered : Numbered s.registry
  distinct : (s.batch.map Action.chatIdHex).Nodup

theorem flightAt_iff {s : Session} (h : WellFormed s) {id : ChatIdHex} {a : Action} :
    flightAt s id = some a ↔ a ∈ s.batch ∧ a.chatIdHex = id := by
  unfold flightAt
  constructor
  · intro hf
    exact ⟨List.mem_of_find?_eq_some hf, by simpa using List.find?_some hf⟩
  · rintro ⟨hmem, rfl⟩
    cases hf : s.batch.find? fun b => b.chatIdHex = a.chatIdHex with
    | none =>
      rw [List.find?_eq_none] at hf
      simpa using hf a hmem
    | some b =>
      have hb := List.mem_of_find?_eq_some hf
      have hid : b.chatIdHex = a.chatIdHex := by simpa using List.find?_some hf
      rw [List.inj_on_of_nodup_map h.distinct hb hmem hid]

theorem flightAt_erase {s : Session} (h : WellFormed s) {r : Registry} {a : Action}
    (ha : a ∈ s.batch) (id : ChatIdHex) :
    flightAt ⟨r, s.batch.erase a⟩ id = if a.chatIdHex = id then none else flightAt s id := by
  have hnd : s.batch.Nodup := h.distinct.of_map
  have hmem : ∀ b, b ∈ s.batch.erase a ↔ b ≠ a ∧ b ∈ s.batch := fun b => hnd.mem_erase_iff
  have hsame : ∀ b ∈ s.batch, b.chatIdHex = a.chatIdHex → b = a := fun b hb hid =>
    List.inj_on_of_nodup_map h.distinct hb ha hid
  split_ifs with hid
  · subst hid
    rw [flightAt, List.find?_eq_none]
    intro b hb
    obtain ⟨hne, hb⟩ := (hmem b).mp hb
    exact fun heq => hne (hsame b hb (by simpa using heq))
  · have hwf : WellFormed ⟨s.registry, s.batch.erase a⟩ :=
      ⟨h.numbered, h.distinct.sublist (List.erase_sublist.map _)⟩
    have hiff : ∀ b, flightAt ⟨r, s.batch.erase a⟩ id = some b ↔ flightAt s id = some b := by
      intro b
      change flightAt ⟨s.registry, s.batch.erase a⟩ id = some b ↔ _
      rw [flightAt_iff hwf, flightAt_iff h, hmem b]
      constructor
      · rintro ⟨⟨-, hb⟩, hb'⟩
        exact ⟨hb, hb'⟩
      · rintro ⟨hb, hb'⟩
        refine ⟨⟨?_, hb⟩, hb'⟩
        rintro rfl
        exact hid hb'
    exact Option.ext fun b => hiff b

/-! ## Every effect of an event on one chat id -/

/-- The event reports or drops the action of another chat id. -/
def Event.elsewhere (id : ChatIdHex) : Event → Prop
  | .report a _ _ | .drop a => a.chatIdHex ≠ id
  | _ => False

/-- What an event can do to the cell and the planned action under `id`. -/
inductive Effect (derive : Seed → Option ChatId) (r : Registry) (id : ChatIdHex) :
    Event → Option Cell → Option Action → Option Cell → Option Action → Prop where
  | op {o : Op} {c c' : Option Cell} {f : Option Action} (free : driven o = false)
    (notClear : o ≠ .clear) (h : OpEffect derive r id o c c') : Effect derive r id (.op o) c f c' f
  | cleared {c : Option Cell} {f : Option Action} : Effect derive r id (.op .clear) c f none none
  | planned {now : Ms} {c : Cell} : Effect derive r id (.plan now) (some c) none
      (some (planCell r now c).1) (planCell r now c).2
  | unplanned {now : Ms} : Effect derive r id (.plan now) none none none none
  | elsewhere {e : Event} {c : Option Cell} {f : Option Action} (h : e.elsewhere id) :
    Effect derive r id e c f c f
  | unheard {a : Action} {outcome : Outcome} {now : Ms} (key : a.chatIdHex = id) :
    Effect derive r id (.report a outcome now) none (some a) none none
  | joinIssued {a : Action} {n : GroupNumber} {ok : Bool} {now : Ms} {c : Cell}
    (key : a.chatIdHex = id) (kind : a.kind = .join) :
    Effect derive r id (.report a (.issued n ok) now) (some c) (some a)
      (some (c.issued r.generation (Cell.joinIssued n ok now) (fun _ => false)
        a.generation a.attempt)) none
  | foundIssued {a : Action} {n : GroupNumber} {ok : Bool} {now : Ms} {c : Cell}
    (key : a.chatIdHex = id) (kind : a.kind = .found) :
    Effect derive r id (.report a (.issued n ok) now) (some c) (some a)
      (some (c.issued r.generation (Cell.foundIssued n ok now) Cell.pendingLeave
        a.generation a.attempt)) none
  | left {a : Action} {now : Ms} {c : Cell} (key : a.chatIdHex = id) (kind : a.kind = .leave) :
    Effect derive r id (.report a .left now) (some c) (some a)
      (c.left r.nextAttempt a.reason now a.groupNumber) none
  | kept {a : Action} {now : Ms} {c : Cell} (key : a.chatIdHex = id) (kind : a.kind = .leave)
    (held : a.groupNumber ≠ noGroup) :
    Effect derive r id (.report a .kept now) (some c) (some a) (some (c.leaveFailed now)) none
  | lost {a : Action} {now : Ms} {c : Option Cell} (key : a.chatIdHex = id)
    (kind : a.kind = .leave) (held : a.groupNumber ≠ noGroup)
    (moved : r.generation ≠ a.generation) :
    Effect derive r id (.report a .lost now) c (some a) c none
  | dropped {a : Action} {c : Option Cell} (key : a.chatIdHex = id) (kind : a.kind ≠ .leave)
    (closed : r.accepting = false) : Effect derive r id (.drop a) c (some a) c none

theorem flightAt_plan {r : Registry} (h : Numbered r) (now : Ms) (id : ChatIdHex) :
    flightAt ⟨(plan r now).1, (plan r now).2⟩ id =
      r.cells[id]?.bind fun c => (planCell r now c).2 := by
  have hwf : WellFormed ⟨r, (plan r now).2⟩ := ⟨h, plan_distinct h now⟩
  refine Option.ext fun a => ?_
  change flightAt ⟨r, (plan r now).2⟩ id = some a ↔ _
  rw [flightAt_iff hwf, mem_plan, Option.bind_eq_some_iff]
  have hkey : ∀ (i : ChatIdHex) (c : Cell), r.cells[i]? = some c → (planCell r now c).2 = some a →
      a.chatIdHex = i := fun i c hc ha =>
    (congrArg Prod.fst (plan_action ha).1).trans (h.keyed i c hc)
  constructor
  · rintro ⟨⟨i, c, hc, ha⟩, hid⟩
    rw [hkey i c hc ha] at hid
    subst hid
    exact ⟨c, hc, ha⟩
  · rintro ⟨c, hc, ha⟩
    exact ⟨⟨id, c, hc, ha⟩, hkey id c hc ha⟩

theorem step_wellFormed (derive : Seed → Option ChatId) {s s' : Session} {e : Event}
    (h : WellFormed s) (hs : step derive s e = some s') : WellFormed s' := by
  cases e with
  | op o =>
    simp only [step] at hs
    split_ifs at hs with hd hc <;> cases hs
    · exact ⟨numbered_apply derive h.numbered o, List.nodup_nil⟩
    · exact ⟨numbered_apply derive h.numbered o, h.distinct⟩
  | plan now =>
    simp only [step] at hs
    split_ifs at hs
    cases hs
    exact ⟨numbered_apply derive h.numbered (.plan now), plan_distinct h.numbered now⟩
  | report a outcome now =>
    simp only [step] at hs
    split_ifs at hs with ha
    obtain ⟨o, -, rfl⟩ := Option.map_eq_some_iff.mp hs
    exact ⟨numbered_apply derive h.numbered o, h.distinct.sublist (List.erase_sublist.map _)⟩
  | drop a =>
    simp only [step] at hs
    split_ifs at hs with ha
    cases hs
    exact ⟨h.numbered, h.distinct.sublist (List.erase_sublist.map _)⟩

/-- The report of an action reaches the cell of its chat id alone. -/
theorem report_effect (derive : Seed → Option ChatId) {r : Registry} {a : Action}
    {outcome : Outcome} {now : Ms} {o : Op} (ho : reportOp r a now outcome = some o)
    (id : ChatIdHex) (hid : a.chatIdHex = id) : Effect derive r id (.report a outcome now)
      r.cells[id]? (some a) (apply derive r o).cells[id]? none := by
  subst hid
  rw [cells_apply]
  cases hc : r.cells[a.chatIdHex]? with
  | none =>
    have hact : (if o.hits derive r a.chatIdHex = true then o.act derive r none else none) = none := by
      cases outcome <;> simp only [reportOp] at ho <;> split at ho <;>
        simp_all <;> subst ho <;> simp [Op.act]
    rw [hact]
    exact .unheard rfl
  | some c =>
    cases outcome with
    | issued n ok =>
      simp only [reportOp] at ho
      cases hk : a.kind with
      | join =>
        rw [hk] at ho
        cases ho
        simpa [Op.hits, Op.act] using Effect.joinIssued rfl hk
      | found =>
        rw [hk] at ho
        cases ho
        simpa [Op.hits, Op.act] using Effect.foundIssued rfl hk
      | leave =>
        rw [hk] at ho
        cases ho
    | left =>
      simp only [reportOp] at ho
      split_ifs at ho with hk
      cases ho
      simpa [Op.hits, Op.act] using Effect.left rfl hk
    | kept =>
      simp only [reportOp] at ho
      split_ifs at ho with hk
      cases ho
      simpa [Op.hits, Op.act] using Effect.kept rfl hk.1 hk.2
    | lost =>
      simp only [reportOp] at ho
      split_ifs at ho with hk
      cases ho
      simpa [Op.hits, Op.act] using Effect.lost rfl hk.1 hk.2.1 hk.2.2

theorem report_missed (derive : Seed → Option ChatId) {r : Registry} {a : Action}
    {outcome : Outcome} {now : Ms} {o : Op} (ho : reportOp r a now outcome = some o)
    (id : ChatIdHex) (hid : a.chatIdHex ≠ id) :
    (apply derive r o).cells[id]? = r.cells[id]? := by
  have hmiss : o.hits derive r id = false := by
    cases outcome <;> simp only [reportOp] at ho <;> split at ho <;>
      simp_all <;> subst ho <;> simp [Op.hits, hid]
  rw [cells_apply, hmiss, if_neg (by simp)]

theorem step_effect (derive : Seed → Option ChatId) {s s' : Session} {e : Event}
    (h : WellFormed s) (hs : step derive s e = some s') (id : ChatIdHex) :
    Effect derive s.registry id e s.registry.cells[id]? (flightAt s id)
      s'.registry.cells[id]? (flightAt s' id) := by
  cases e with
  | op o =>
    simp only [step] at hs
    split_ifs at hs with hd hc <;> cases hs
    · subst hc
      rw [cells_apply]
      exact .cleared
    · exact .op (by simpa using hd) hc (apply_effect derive s.registry o id)
  | plan now =>
    simp only [step] at hs
    split_ifs at hs with hb
    cases hs
    have hnone : flightAt s id = none := by simp_all [flightAt]
    rw [flightAt_plan h.numbered, hnone]
    cases hc : s.registry.cells[id]? with
    | none =>
      have hc' : (plan s.registry now).1.cells[id]? = none := by simp [plan, hc]
      rw [hc']
      exact .unplanned
    | some c =>
      have hc' : (plan s.registry now).1.cells[id]? = some (planCell s.registry now c).1 := by
        simp [plan, hc]
      rw [hc']
      exact .planned
  | report a outcome now =>
    simp only [step] at hs
    split_ifs at hs with ha
    obtain ⟨o, ho, rfl⟩ := Option.map_eq_some_iff.mp hs
    rw [flightAt_erase h ha]
    split_ifs with hid
    · rw [(flightAt_iff h).mpr ⟨ha, hid⟩]
      exact report_effect derive ho id hid
    · rw [report_missed derive ho id hid]
      exact .elsewhere hid
  | drop a =>
    simp only [step] at hs
    split_ifs at hs with ha
    cases hs
    obtain ⟨ha, hk, hacc⟩ := ha
    rw [flightAt_erase h ha]
    split_ifs with hid
    · rw [(flightAt_iff h).mpr ⟨ha, hid⟩]
      exact .dropped hid hk (by simpa using hacc)
    · exact .elsewhere hid

theorem initial_wellFormed : WellFormed {} := ⟨numbered_empty, List.nodup_nil⟩

theorem run_wellFormed (derive : Seed → Option ChatId) {es : List Event} {s : Session}
    (hr : exec (step derive) {} es = some s) : WellFormed s :=
  invariant (fun _ _ _ h hs => step_wellFormed derive h hs) initial_wellFormed hr

/-! ## Invariants of one chat id along a run -/

section
variable (derive : Seed → Option ChatId)

/-- A property of the registry, one chat id, its cell and its planned action. -/
abbrev Local := Registry → ChatIdHex → Option Cell → Option Action → Prop

def Local.at (I : Local) (s : Session) (id : ChatIdHex) : Prop :=
  I s.registry id s.registry.cells[id]? (flightAt s id)

/-- The invariant rule for one chat id: it is enough to look at each effect. -/
theorem local_invariant {cond : Session → Event → Prop} {I : Local}
    (hinit : ∀ id, I {} id none none)
    (hstep : ∀ s e s' id, WellFormed s → cond s e → step derive s e = some s' → I.at s id →
      I.at s' id)
    {es : List Event} {s : Session} (hm : Meets (step derive) cond {} es)
    (hr : exec (step derive) {} es = some s) (id : ChatIdHex) : I.at s id := by
  have hboth : WellFormed s ∧ I.at s id := by
    refine invariant_of_meets (I := fun s => WellFormed s ∧ I.at s id) ?_ ?_ hm hr
    · rintro s e s' ⟨hw, hI⟩ hc hs
      exact ⟨step_wellFormed derive hw hs, hstep s e s' id hw hc hs hI⟩
    · exact ⟨initial_wellFormed, by simpa [Local.at, flightAt] using hinit id⟩
  exact hboth.2

/-! ## Observed runs -/

/-- A session with what an observer remembers of each chat id. -/
structure Observed (γ : Type) where
  session : Session
  memory : ChatIdHex → γ

variable {γ : Type} (observe : Session → Event → Session → ChatIdHex → γ → γ)

def observedStep (s : Observed γ) (e : Event) : Option (Observed γ) :=
  (step derive s.session e).map fun s' =>
    ⟨s', fun id => observe s.session e s' id (s.memory id)⟩

theorem observed_invariant {cond : Observed γ → Event → Prop} {I : γ → Local} {start : γ}
    (hinit : ∀ id, I start {} id none none)
    (hstep : ∀ (s : Observed γ) e s' id, WellFormed s.session → cond s e →
      step derive s.session e = some s' → (I (s.memory id)).at s.session id →
      (I (observe s.session e s' id (s.memory id))).at s' id)
    {es : List Event} {s : Observed γ}
    (hm : Meets (observedStep derive observe) cond ⟨{}, fun _ => start⟩ es)
    (hr : exec (observedStep derive observe) ⟨{}, fun _ => start⟩ es = some s) :
    WellFormed s.session ∧ ∀ id, (I (s.memory id)).at s.session id := by
  refine invariant_of_meets
    (I := fun s : Observed γ => WellFormed s.session ∧ ∀ id, (I (s.memory id)).at s.session id)
    ?_ ?_ hm hr
  · rintro s e u ⟨hw, hI⟩ hc hs
    obtain ⟨s', hs', rfl⟩ := Option.map_eq_some_iff.mp hs
    exact ⟨step_wellFormed derive hw hs', fun id => hstep s e s' id hw hc hs' (hI id)⟩
  · exact ⟨initial_wellFormed, fun id => by simpa [Local.at, flightAt] using hinit id⟩

end

end Tim2Tox.RendezvousSession
