import Tim2Tox.RendezvousFlights

set_option autoImplicit false

/-!
# What the planner starts

Which cells get a join or found from `Plan`, and that such a cell holds no
group while every leave is reported to the registry.
-/
namespace Tim2Tox.RendezvousSession
open RendezvousCodec RendezvousGroups LabelledRuns

/-- No leave that failed is lost to the registry. -/
def Event.lossless : Event → Prop
  | .report _ .lost _ => False
  | _ => True

instance : DecidablePred Event.lossless
  | .report _ .lost _ => .isFalse id
  | .report _ (.issued _ _) _ | .report _ .left _ | .report _ .kept _ => .isTrue trivial
  | .op _ | .plan _ | .drop _ => .isTrue trivial

theorem relinquished_of_lossless (s : Session) (e : Event) (h : e.lossless) :
    relinquished s e = true := by
  cases e with
  | report a outcome now =>
    cases outcome with
    | lost => exact h.elim
    | _ => rfl
  | _ => rfl

/-- A cell whose join or found is due: requested, or its back-off has elapsed. -/
def due (now : Ms) (c : Cell) : Bool :=
  c.state ≠ .retiring && !c.pendingLeave &&
    (c.pendingJoin || c.pendingFound ||
      (c.state = .backoff && now - c.stateSinceMs ≥ kBackoffMs) ||
      (c.state = .unavailable && now - c.stateSinceMs ≥ kUnavailableMs))

theorem timers_pending_iff (now : Ms) {c : Cell} (hr : c.state ≠ .retiring) :
    due now c = true ↔ (c.timers now).pendingLeave = false ∧
      ((c.timers now).pendingJoin = true ∨ (c.timers now).pendingFound = true) := by
  unfold due Cell.timers
  by_cases hp : (c.pendingLeave || c.pendingJoin || c.pendingFound) = true
  · rw [if_pos hp]
    simp only [Bool.or_eq_true] at hp
    by_cases hl : c.pendingLeave = true
    · simp [hl]
    · have hjf : c.pendingJoin = true ∨ c.pendingFound = true := by tauto
      simp [hr, hl, hjf]
  · rw [if_neg hp]
    simp only [Bool.or_eq_true, not_or, Bool.not_eq_true] at hp
    obtain ⟨⟨hl, hj⟩, hf⟩ := hp
    cases hs : c.state with
    | joining =>
      dsimp only
      split_ifs <;> simp [hl, hj, hf]
    | joined =>
      dsimp only
      split_ifs <;> simp [hl, hj, hf]
    | backoff =>
      dsimp only
      split_ifs with h <;> simp [hl, hj, hf, h]
    | unavailable =>
      dsimp only
      split_ifs with h <;> simp [hl, hj, hf, h]
    | retiring => exact absurd hs hr

/-- A join or found is planned exactly for the due cells that may be started. -/
theorem plan_start_iff (r : Registry) (now : Ms) (c : Cell) :
    (∃ a, (planCell r now c).2 = some a ∧ a.kind ≠ .leave) ↔
      due now c = true ∧ r.accepting = true ∧ blocked r c.chatIdHex = false := by
  unfold planCell Cell.plan
  by_cases hr : c.state = .retiring
  · rw [if_pos hr]
    simp [due, hr]
  rw [if_neg hr, timers_pending_iff now hr]
  generalize c.timers now = t
  unfold Cell.emit
  by_cases hl : t.pendingLeave = true
  · rw [if_pos hl]
    split_ifs <;> simp [hl, Cell.leaveAction]
  · rw [if_neg hl]
    simp only [Bool.not_eq_true] at hl
    by_cases hb : (!r.accepting || blocked r c.chatIdHex) = true
    · rw [if_pos hb]
      simp only [Bool.or_eq_true, Bool.not_eq_true'] at hb
      rcases hb with hb | hb <;> simp [hb]
    · rw [if_neg hb]
      simp only [Bool.or_eq_true, Bool.not_eq_true', not_or, Bool.not_eq_false,
        Bool.not_eq_true] at hb
      by_cases hp : (t.pendingJoin || t.pendingFound) = true
      · rw [if_pos hp]
        have hkind : (t.startAction r.generation).kind ≠ .leave := by
          unfold Cell.startAction
          cases t.pendingJoin <;> simp
        simp only [Bool.or_eq_true] at hp
        simp [hkind, hl, hb, hp]
      · rw [if_neg hp]
        simp only [Bool.or_eq_true] at hp
        simp [hp]

theorem blocked_false_iff (r : Registry) (id : ChatIdHex) :
    blocked r id = false ↔ ∀ n : GroupNumber, r.retiringOrphans[n]? ≠ some id := by
  unfold blocked
  rw [List.any_eq_false]
  constructor
  · intro h n hn
    simpa using h (n, id) (Std.TreeMap.mem_toList_iff_getElem?_eq_some.mpr hn)
  · rintro h ⟨n, id'⟩ hmem heq
    have hn := Std.TreeMap.mem_toList_iff_getElem?_eq_some.mp hmem
    obtain rfl : id' = id := by simpa using heq
    exact h n hn

/-- No start is planned for a chat id the registry holds a group of. -/
def NoSecondGroup (r : Registry) (now : Ms) : Prop :=
  ∀ a ∈ (plan r now).2, a.kind ≠ .leave →
    (∃ c, r.cells[a.chatIdHex]? = some c ∧ c.groupNumber = noGroup) ∧
      (∀ n : GroupNumber, r.retiringOrphans[n]? ≠ some a.chatIdHex) ∧
      ∀ n : GroupNumber, r.zombies[n]? ≠ some a.chatIdHex

/-- No zombie carries the chat id of a cell that is about to be started. -/
def NoDueZombie (r : Registry) (now : Ms) : Prop :=
  r.accepting = true → ∀ (id : ChatIdHex) (c : Cell), r.cells[id]? = some c → due now c = true →
    blocked r id = false → ∀ n : GroupNumber, r.zombies[n]? ≠ some id

/-- A leave and rejoin while the join of group 7 is in flight; the driver fails
    to leave the orphan and notes it as a zombie, also on the next tick. -/
def zombieRun : List Event :=
  [.op (.setAccepting true), .op .bumpGeneration,
   .op (.requestJoin sampleSeed "n" "0123abcd" 1000), .plan 1000,
   .op (.requestLeave sampleId 1200), .op (.requestJoin sampleSeed "n" "0123abcd" 1300),
   .report (sampleAction .join 2 1) (.issued 7 true) 1400, .op (.noteZombie 7 sampleId),
   .op .takeZombies, .op (.noteZombie 7 sampleId)]

/-- A client join from an accepting registry, before its first batch. -/
def joinRun : List Event :=
  [.op (.setAccepting true), .op .bumpGeneration,
   .op (.requestJoin sampleSeed "n" "0123abcd" 1000)]

end Tim2Tox.RendezvousSession
