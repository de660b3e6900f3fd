import Tim2Tox.SendHolds

set_option autoImplicit false

/-!
# Every step keeps the invariant

One lemma for each function of the send control, in the order of the source, then one for each
kind of step.
-/
namespace Tim2Tox.SendControl
open OfflineQueue LabelledRuns

/-- The task that goes on with an item. -/
def runs (item : Item) : Option Drain → Hand
  | some d => .drain d
  | none => .call item.message

structure Inv (m : Message) (w : World) (hand : Hand) : Prop where
  held : Held m w hand
  trail : Trail m w
  sync : Sync w
  law : Lawful m w

section
variable {m x : Message} {w : World} {hand : Hand} {d : Drain} {item : Item} {drain : Option Drain}

theorem controls_of_mem (h : Trail m w) (hmem : item ∈ w.cache) (hm : item.message = m) :
    controls m w.cache = [item.control] := by
  subst hm
  have hin := mem_controls.mpr hmem
  have hshort := h.short
  generalize controls item.message w.cache = k at hin hshort
  match k, hin, hshort with
  | [c], hin, _ => rw [List.mem_singleton.mp hin]
  | _ :: _ :: _, _, hshort => simp at hshort

theorem Trail.traced_of_mem (h : Trail m w) (hmem : item ∈ w.cache) (hm : item.message = m) :
    ¬Fresh m w := by
  intro hf
  have := controls_of_mem h hmem hm
  simp [(h.fresh hf).cache] at this

theorem ownRow_some {r : Row} (h : w.ownRow m = some r) : w.rows m = some r ∧ r.inWindow = true :=
  Option.filter_eq_some_iff.mp h

theorem Trail.traced_of_row (h : Trail m w) (hr : w.rows m ≠ none) : ¬Fresh m w :=
  fun hf => hr (h.fresh hf).rows.2.1

theorem Trail.traced_of_dispatched (h : Trail m w) (hd : w.dispatchedSends m = true) : ¬Fresh m w := by
  intro hf
  simp [(h.fresh hf).unsent] at hd

theorem known_of_traced (hn : ¬Fresh m w) : w.known m = true ∧
    ∀ t ∈ w.tasks, ∀ c, t.focus m ≠ some (.adding, c) := by
  refine ⟨?_, fun t ht c hfoc => hn (.inr ⟨t, ht, c, hfoc⟩)⟩
  by_contra hk
  exact hn (.inl (by simpa using hk))

/-! ## Plain moves -/

/-- Only what a drain claimed matters of it. -/
theorem Inv.locals {d' : Drain} (h : Inv m w (.drain d)) (hd : d'.claimed = d.claimed) :
    Inv m w (.drain d') := by
  have hclaims : Hand.claims m (.drain d') = Hand.claims m (.drain d) := by
    simp [Hand.claims, hd]
  have hholds : Hand.holds m (.drain d') = Hand.holds m (.drain d) := by
    simp only [Hand.holds, hclaims]
    rfl
  exact ⟨⟨hholds ▸ h.held.excl, hclaims ▸ h.held.claimed, h.held.ops, h.held.opsHand,
    hholds ▸ h.held.unknown, h.held.served⟩, h.trail, h.sync, h.law⟩

theorem Inv.setRow {r : Row} (h : Inv m w hand) (hmv : x = m → Moves m w r) :
    Inv m (w.setRow x r) hand :=
  ⟨⟨h.held.excl, h.held.claimed, h.held.ops, h.held.opsHand, h.held.unknown,
    h.held.served⟩,
    h.trail.setRow hmv, h.sync, ⟨h.law.quiet, h.law.once, h.law.life⟩⟩

theorem Inv.clearing {value : Bool} (h : Inv m w hand) : Inv m (w.clearing x value) hand :=
  ⟨⟨h.held.excl, h.held.claimed, h.held.ops, h.held.opsHand, h.held.unknown,
    h.held.served⟩,
    h.trail.frame ⟨⟨List.Sublist.refl _, rfl, rfl⟩, Logged.same rfl, rfl, rfl, rfl, rfl⟩, h.sync,
    ⟨h.law.quiet, h.law.once, h.law.life⟩⟩

theorem Inv.ready (h : Inv m w (runs item drain)) : Inv m (w.ready drain) .nobody := by
  cases drain with
  | some d =>
    have hj : Joins m w (.ready d) := joins_elsewhere rfl (by simp [Task.row]) rfl
    exact ⟨h.held.push rfl rfl rfl, h.trail.push hj, h.sync.push, ⟨h.law.quiet, h.law.once, h.law.life⟩⟩
  | none =>
    refine ⟨⟨?_, h.held.claimed, h.held.ops, by simp [Hand.calls], ?_, h.held.served⟩, h.trail,
      h.sync, h.law⟩
    · have := h.held.excl
      change w.tasks.countP _ + 0 ≤ 1
      omega
    · intro hk
      have := h.held.unknown hk
      change w.tasks.countP _ + 0 = 0
      omega

theorem Trail.claims {claimed : Message → Bool} (h : Trail m w) :
    Trail m { w with claimedSends := claimed } :=
  h.frame ⟨⟨List.Sublist.refl _, rfl, rfl⟩, Logged.same rfl, rfl, rfl, rfl, rfl⟩

theorem Inv.endDrain (h : Inv m w (runs item drain)) : Inv m (w.endDrain drain) .nobody := by
  cases drain with
  | some d =>
    exact ⟨h.held.endDrain, h.trail.claims, h.sync, ⟨h.law.quiet, h.law.once, h.law.life⟩⟩
  | none => exact h.ready

theorem Inv.keepQueued (h : Inv m w (.drain d)) (hx : x = m → m ∈ d.claimed) :
    Inv m (w.keepQueued d x) .nobody :=
  ⟨h.held.keepQueued hx, h.trail.claims, h.sync, ⟨h.law.quiet, h.law.once, h.law.life⟩⟩

theorem Trail.ops {ops : Message → Bool} (h : Trail m w) : Trail m { w with sendControlOps := ops } :=
  h.frame ⟨⟨List.Sublist.refl _, rfl, rfl⟩, Logged.same rfl, rfl, rfl, rfl, rfl⟩

theorem Trail.logs {e : Entry} (h : Trail m w) (hq : e = .queued m → controls m w.queueFile ≠ [])
    (hc : e = .cancelResult m .success → Doomed m w) : Trail m (w.logs e) := by
  have hfine : ∀ ρ, Fine w m ρ → Fine (w.logs e) m ρ :=
    fun ρ hρ => hρ.imp (List.mem_append_left _) id
  have hentry : ∀ {e'}, e' ∈ (w.logs e).log → e' ∈ w.log ∨ e = e' := by
    intro e' he
    exact (List.mem_append.mp he).imp id fun hlast => (List.mem_singleton.mp hlast).symm
  refine ⟨h.short, fun hd => List.mem_append_left _ (h.sent hd),
    h.proven.mono fun ρ hρ hp => List.mem_append_left _ (hρ hp), ?_, ?_, h.noFail, h.alone,
    h.clean, h.stays, fun hf => ?_, ?_, ?_⟩
  · intro t ht s c hfoc
    have hw := h.waits t ht s c hfoc
    cases s with
    | settling =>
      refine hw.imp id fun ⟨hctl, hcall, hne, hk⟩ => ⟨hctl, hcall, hne, fun hcache => ?_⟩
      obtain ⟨hr, hown, hl⟩ := hk hcache
      exact ⟨hfine _ hr, fun ρ hρ => hfine ρ (hown ρ hρ), fun hland => hfine _ (hl hland)⟩
    | unqueueing =>
      exact hw.imp id fun ⟨hctl, hcall, hk⟩ => ⟨hctl, hcall, fun hcache => (hk hcache).mono hfine⟩
    | _ => exact hw
  · exact h.order.imp fun hab => ⟨fun hfoc hcache ρ hρ => hfine ρ (hab.settled hfoc hcache ρ hρ),
      hab.cancelled, hab.cleared, hab.failed, hab.first⟩
  · have hn := h.fresh hf
    exact ⟨hn.cache, hn.rows, hn.tasks, hn.unsent⟩
  · intro hqueued
    obtain hold | he := hentry hqueued
    · exact (h.kept hold).imp id (·.mono hfine)
    · exact .inl (hq he)
  · intro hdone
    obtain hold | he := hentry hdone
    · exact h.doomed hold
    · exact hc he

theorem Inv.logs {e : Entry} (h : Inv m w hand) (hq : e ≠ .queued m)
    (hc : e = .cancelResult m .success → Doomed m w) (hs : e ≠ .native m true)
    (hquiet : ∀ ok, e = .native m ok → ¬Doomed m w) : Inv m (w.logs e) hand :=
  ⟨⟨h.held.excl, h.held.claimed, h.held.ops, h.held.opsHand, h.held.unknown,
    h.held.served⟩,
    h.trail.logs (fun he => absurd he hq) hc, h.sync,
    h.law.logs hs fun ok he hmem => hquiet ok he (h.trail.doomed hmem)⟩

/-- A cancel ends with a result. -/
theorem Inv.finishCancel {result : SendControlResult} (h : Inv m w (.call x))
    (hc : x = m → result = .success → Doomed m w) : Inv m (w.finishCancel x result) .nobody := by
  have hfree : Inv m { w with sendControlOps := Function.update w.sendControlOps x false } .nobody :=
    ⟨h.held.release, h.trail.ops, h.sync, ⟨h.law.quiet, h.law.once, h.law.life⟩⟩
  refine hfree.logs (by simp) ?_ (by simp) (by simp)
  intro he
  cases he
  exact hc rfl rfl

/-- A task that waits for the message joins. -/
theorem joins_on {s : Stage} (hs : s ≠ .adding)
    (h : item.message = m → ¬Fresh m w ∧ Waits m w (.on s item drain .waiting) item.control s ∧
      (s = .settling → item.control = some .failed → ∀ u ∈ w.tasks, ∀ c,
        u.focus m ≠ some (.clearing, c) ∧ u.focus m ≠ some (.failing, c)) ∧
      (s = .failing → ∀ u ∈ w.tasks, u.focus m ≠ some (.settling, some .failed)) ∧
      (s = .unqueueing → item.control = some .failed → ∀ u ∈ w.tasks, ∀ c,
        u.focus m ≠ some (.failing, c)) ∧
      (item.control = some .cancelled → s = .settling ∨ s = .unqueueing →
        (drain = none → controls m w.cache = [some .cancelled]) ∧
          ∀ u ∈ w.tasks, u.settles m = true → u.calls m = drain.isNone)) : Joins m w (.on s item drain .waiting) := by
  by_cases hm : item.message = m
  swap
  · exact joins_elsewhere (by simp [Task.focus, hm]) (by simp [Task.row]) rfl
  obtain ⟨htraced, hw, hset, hfail, hunq, halone⟩ := h hm
  have hfocus : ∀ s' c, Task.focus m (.on s item drain .waiting) = some (s', c) →
      s' = s ∧ c = item.control := by
    intro s' c hfoc
    simp only [Task.focus, hm, if_true, Option.some.injEq, Prod.mk.injEq] at hfoc
    exact ⟨hfoc.1.symm, hfoc.2.symm⟩
  refine ⟨by simp [Task.row], ?_, .inr htraced, ?_, ?_, ?_, ?_, ?_, rfl⟩
  · intro c hfoc
    exact hs (hfocus _ _ hfoc).1.symm
  · intro s' c hfoc
    obtain ⟨rfl, rfl⟩ := hfocus s' c hfoc
    exact hw
  · intro hfoc
    obtain ⟨hs', hc⟩ := hfocus _ _ hfoc
    exact hset hs'.symm hc.symm
  · intro c hfoc
    exact hfail (hfocus _ _ hfoc).1.symm
  · intro hfoc
    obtain ⟨hs', hc⟩ := hfocus _ _ hfoc
    exact hunq hs'.symm hc.symm
  · intro hsettles
    have hfoc : (s, item.control) = (.settling, some .cancelled) ∨
        (s, item.control) = (.unqueueing, some .cancelled) := by
      simpa [Task.settles, Task.focus, hm] using hsettles
    have hcalls : Task.calls m (.on s item drain .waiting) = drain.isNone := by
      cases drain <;> simp [Task.calls, hm]
    rw [hcalls, Option.isNone_iff_eq_none]
    obtain hfoc | hfoc := hfoc
    · exact halone (Prod.mk.inj hfoc).2 (.inl (Prod.mk.inj hfoc).1)
    · exact halone (Prod.mk.inj hfoc).2 (.inr (Prod.mk.inj hfoc).1)

theorem Inv.push {s : Stage} (h : Inv m w (runs item drain)) (hs : s.drains = true)
    (hj : item.message = m → ¬Fresh m w ∧ Waits m w (.on s item drain .waiting) item.control s ∧
      (s = .settling → item.control = some .failed → ∀ u ∈ w.tasks, ∀ c,
        u.focus m ≠ some (.clearing, c) ∧ u.focus m ≠ some (.failing, c)) ∧
      (s = .failing → ∀ u ∈ w.tasks, u.focus m ≠ some (.settling, some .failed)) ∧
      (s = .unqueueing → item.control = some .failed → ∀ u ∈ w.tasks, ∀ c,
        u.focus m ≠ some (.failing, c)) ∧
      (item.control = some .cancelled → s = .settling ∨ s = .unqueueing →
        (drain = none → controls m w.cache = [some .cancelled]) ∧
          ∀ u ∈ w.tasks, u.settles m = true → u.calls m = drain.isNone)) :
    Inv m (w.push (.on s item drain .waiting)) .nobody := by
  have hadd : s ≠ .adding := by
    rintro rfl
    cases hs
  refine ⟨h.held.push ?_ ?_ ?_, h.trail.push (joins_on hadd hj), h.sync.push,
    ⟨h.law.quiet, h.law.once, h.law.life⟩⟩
  · simp [Task.served, hs, Save.isWaiting]
  · cases drain <;> rfl
  · cases drain <;> rfl

/-! ## Tombstones -/

theorem settledRow_cancelled {r : Row} (h : r.isCancelled = true) :
    (w.settledRow item r).isCancelled = true := by
  unfold World.settledRow
  split_ifs <;> simp [h]

theorem settledRow_proven {r : Row} : (w.settledRow item r).deliveryProven = r.deliveryProven := by
  unfold World.settledRow
  split_ifs <;> rfl

/-- A tombstone of a failure leaves a row that says so, unless the message went out. -/
theorem fine_settledRow {r : Row} (h : Trail m w) (hm : item.message = m)
    (hr : w.rows m = some r) : Fine w m (some (w.settledRow item r)) := by
  subst hm
  unfold World.settledRow
  split_ifs with hcan hfail
  · exact .inr (by simp [SaysSo])
  · exact .inr (by simp [SaysSo])
  · simp only [Bool.and_eq_true, Bool.not_eq_true', not_and, Bool.not_eq_false] at hfail
    by_cases hc : r.isCancelled = true
    · exact .inr (by simp [SaysSo, hc])
    · by_cases hp : r.deliveryProven = true
      · exact .inl (h.proven.2.1 (by simpa [hr] using hp))
      · exact .inl (h.sent (hfail ⟨by simpa using hc, by simpa using hp⟩))

theorem Trail.moves_settledRow {r : Row} (h : Trail m w) (hm : item.message = m)
    (hmem : item ∈ w.cache) (hr : w.rows m = some r) : Moves m w (w.settledRow item r) := by
  have hk := controls_of_mem h hmem hm
  refine ⟨?_, .inl fun _ => fine_settledRow h hm hr, ?_, ?_, h.traced_of_mem hmem hm⟩
  · intro hc
    exact settledRow_cancelled (by simpa [IsCancelled, hr] using hc)
  · intro hc
    by_cases hold : r.isCancelled = true
    · exact .inl (by simp [IsCancelled, hr, hold])
    have hcontrol : item.control = some .cancelled := by
      by_contra hne
      unfold World.settledRow at hc
      rw [if_neg hne] at hc
      split_ifs at hc <;> exact hold hc
    refine .inr ⟨by simp [hk, hcontrol], fun t ht c hfoc => ?_⟩
    obtain ⟨-, -, ⟨-, hno | hno⟩ | ⟨-, hno⟩⟩ := h.waits t ht _ _ hfoc <;>
      simp [hk, hcontrol] at hno
  · intro hp
    rw [settledRow_proven] at hp
    exact .inl (by simpa [hr] using hp)

theorem Inv.settleTombstone {history : Bool} (h : Inv m w (runs item drain))
    (hc : item.message = m → dispatchable item.control = false ∧
      (drain = none → item.control = some .cancelled ∧
        controls m w.queueFile = [some .cancelled] ∧ ∀ u ∈ w.tasks, u.settles m = false)) :
    Inv m (w.settleTombstone history item drain) .nobody := by
  unfold World.settleTombstone
  cases hrow : w.tombstoneRow history drain.isNone item with
  | none =>
    cases drain with
    | some d => exact h.ready
    | none => exact h.finishCancel fun hm _ => .inl ((hc hm).2 rfl).2.1
  | some r' =>
    unfold World.tombstoneRow at hrow
    split_ifs at hrow with hguard
    obtain ⟨r, hown, rfl⟩ := Option.map_eq_some_iff.mp hrow
    obtain ⟨hr, -⟩ := ownRow_some hown
    simp only [Bool.and_eq_true, decide_eq_true_eq, Bool.or_eq_true, Bool.not_eq_true'] at hguard
    obtain ⟨⟨-, hmem⟩, howner⟩ := hguard
    have hset := h.setRow fun hm => h.trail.moves_settledRow hm hmem (hm ▸ hr)
    refine hset.push rfl fun hm => ?_
    subst hm
    obtain ⟨hno, hcall⟩ := hc rfl
    have hk := controls_of_mem h.trail hmem rfl
    have hrow' : (w.setRow item.message (w.settledRow item r)).rows item.message =
        some (w.settledRow item r) := by simp [World.setRow]
    refine ⟨h.trail.traced_of_mem hmem rfl, ?_, ?_, by simp, by simp, ?_⟩
    · unfold Waits
      rw [hrow']
      cases hctl : item.control with
      | none => simp [hctl, dispatchable] at hno
      | some c =>
        cases c with
        | retry => simp [hctl, dispatchable] at hno
        | cancelled =>
          refine .inl ⟨rfl, ?_, by simp [Task.row], by simp [Task.landed]⟩
          simp [IsCancelled, World.settledRow, hctl]
        | failed =>
          have hdrain : drain ≠ none := by
            intro hd
            simp [hctl] at hcall
            exact (hcall hd)
          refine .inr ⟨rfl, ?_, ?_, fun _ => ⟨?_, by simp [Task.row], by simp [Task.landed]⟩⟩
          · cases drain with
            | none => exact absurd rfl hdrain
            | some d => rfl
          · change controls item.message w.cache ≠ _
            simp [hk, hctl]
          · change Fine w _ _
            exact fine_settledRow h.trail rfl hr
    · intro _ hctl u hu c
      refine ⟨fun hfoc => ?_, fun hfoc => ?_⟩
      · obtain ⟨-, -, hk', -⟩ := h.trail.waits u hu _ _ hfoc
        simp [hk, hctl] at hk'
      · obtain ⟨-, hk', hd, -⟩ := h.trail.waits u hu _ _ hfoc
        rw [hk] at hk'
        cases hk'
        simp [hd] at hno
    · intro hctl _
      refine ⟨fun _ => hctl ▸ hk, fun u hu hs => ?_⟩
      cases drain with
      | none =>
        have := (hcall rfl).2.2 u hu
        simp [hs] at this
      | some d =>
        -- A drain settles only while no call works on the message.
        have hops : w.sendControlOps item.message = false := by simpa using howner
        by_contra hcalls
        have := h.held.ops u hu (by simpa using hcalls) fun c hfoc => by
          simp [Task.settles, hfoc] at hs
        simp [hops] at this

theorem Inv.settleRefusedItem (h : Inv m w (.drain d)) : Inv m (w.settleRefusedItem d item) .nobody := by
  have h' : Inv m w (runs item (some d)) := h
  unfold World.settleRefusedItem
  split_ifs with hops hctl hdone
  · exact h'.ready
  · exact h'.settleTombstone fun _ => ⟨by simpa using hctl, by simp⟩
  · refine h'.push rfl fun hm => ?_
    subst hm
    have hwhy : w.dispatchedSends item.message = true ∨ IsCancelled (w.rows item.message) := by
      simp only [Bool.or_eq_true, World.rowCancelled, Bool.and_eq_true] at hdone
      refine hdone.imp id fun ⟨_, hrow⟩ => ?_
      obtain ⟨r, hr, hc⟩ := (Option.any_eq_true _ _).mp hrow
      simp [IsCancelled, (ownRow_some hr).1, hc]
    refine ⟨?_, ⟨by simpa using hctl, hwhy⟩, by simp, by simp, by simp, by simp⟩
    obtain hd | hc := hwhy
    · exact h.trail.traced_of_dispatched hd
    · refine h.trail.traced_of_row fun hnone => ?_
      simp [IsCancelled, hnone] at hc
  · exact h'.ready

/-! ## Sending -/

/-- The drain may send its item: it claimed the message, whose only item is this one. -/
structure Going (m : Message) (w : World) (d : Drain) (item : Item) : Prop where
  claimed : m ∈ d.claimed
  queued : controls m w.cache = [item.control]
  dispatchable : dispatchable item.control = true
  unsent : w.dispatchedSends m = false

/-- No task is about to write that the message failed. -/
def Unfailed (m : Message) (w : World) : Prop :=
  ∀ t ∈ w.tasks, t.focus m ≠ some (.settling, some .failed)

theorem Going.traced (h : Trail m w) (hg : Going m w d item) : ¬Fresh m w := by
  intro hf
  have := hg.queued
  simp [(h.fresh hf).cache] at this

theorem Going.file (htext : m.text ≠ "") (h : Inv m w (.drain d)) (hg : Going m w d item) :
    controls m w.queueFile = [item.control] := by
  obtain hfile | ⟨t, ht, hholds, -⟩ :=
    h.sync.file_of_dispatchable htext h.trail hg.queued hg.dispatchable hg.unsent
  · exact hfile
  · have := h.held.free (by simp [Hand.holds, Hand.claims, hg.claimed]) t ht
    simp [hholds] at this

theorem Going.alive (htext : m.text ≠ "") (h : Inv m w (.drain d)) (hg : Going m w d item) :
    ¬Doomed m w := by
  have hfile := hg.file htext h
  have hdisp := hg.dispatchable
  rintro (hdoomed | ⟨hdoomed, -⟩)
  · have hctl : item.control = some .cancelled := by simpa [hfile] using hdoomed
    simp [hctl, OfflineQueue.dispatchable] at hdisp
  · simp [hfile] at hdoomed

theorem Inv.commitDrainFailure (h : Inv m w (.drain d))
    (hg : item.message = m → Going m w d item ∧ (w.ownRow m ≠ none → Unfailed m w)) :
    Inv m (w.commitDrainFailure d item) .nobody := by
  have h' : Inv m w (runs item (some d)) := h
  unfold World.commitDrainFailure
  split_ifs with hrow
  · refine h'.push rfl fun hm => ?_
    subst hm
    obtain ⟨hgo, hun⟩ := hg rfl
    refine ⟨hgo.traced h.trail, ⟨?_, hgo.queued, hgo.dispatchable, hgo.unsent⟩, by simp, ?_, by simp,
      by simp⟩
    · simpa [Task.claims] using hgo.claimed
    · intro _
      refine hun fun hnone => ?_
      simp [World.failedRow, hnone] at hrow
  · exact h'.endDrain

/-- A send is logged; it fails, or is that of another message. -/
theorem Inv.sendFails (htext : m.text ≠ "") (h : Inv m w (.drain d))
    (hg : item.message = m → Going m w d item) :
    Inv m (w.logs (.native item.message false)) (.drain d) := by
  refine h.logs (by simp) (by simp) (by simp) fun ok he => ?_
  cases he
  exact (hg rfl).alive htext h

theorem Inv.markDispatched (h : Inv m w hand) (hx : x ≠ m) : Inv m (w.markDispatched x) hand := by
  have hsame : (w.markDispatched x).dispatchedSends m = w.dispatchedSends m := by
    simp [World.markDispatched, Function.update_of_ne (Ne.symm hx)]
  refine ⟨⟨h.held.excl, h.held.claimed, h.held.ops, h.held.opsHand, h.held.unknown,
    h.held.served⟩,
    h.trail.markDispatched fun he => absurd he hx, h.sync, ⟨h.law.quiet, h.law.once, ?_⟩⟩
  rw [hsame]
  exact h.law.life

theorem Inv.sends (htext : m.text ≠ "") (h : Inv m w (.drain d))
    (hg : item.message = m → Going m w d item) :
    Inv m ((w.logs (.native item.message true)).markDispatched item.message) (.drain d) := by
  by_cases hm : item.message = m
  swap
  · have hlog : Inv m (w.logs (.native item.message true)) (.drain d) :=
      h.logs (by simp) (by simp) (by simpa using hm) fun ok he => by cases he; exact absurd rfl hm
    exact hlog.markDispatched hm
  subst hm
  have hgo := hg rfl
  have hquiet : .cancelResult item.message .success ∉ w.log :=
    fun hmem => hgo.alive htext h (h.trail.doomed hmem)
  refine ⟨⟨h.held.excl, h.held.claimed, h.held.ops, h.held.opsHand, h.held.unknown,
    h.held.served⟩, ?_, h.sync,
    h.law.sends hgo.unsent hquiet⟩
  refine (h.trail.logs (by simp) (by simp)).markDispatched fun _ => ⟨?_, ?_, ?_⟩
  · simp [Sent, World.logs]
  · exact h.held.free (by simp [Hand.holds, Hand.claims, hgo.claimed])
  · exact (hgo.traced h.trail :)

theorem Inv.dispatch {outcome : Outcome} (htext : m.text ≠ "") (h : Inv m w (.drain d))
    (hg : item.message = m → Going m w d item ∧ (w.ownRow m ≠ none → Unfailed m w)) :
    Inv m (w.dispatch d item outcome) .nobody := by
  have hgo : item.message = m → Going m w d item := fun hm => (hg hm).1
  have hfails : Inv m (w.logs (.native item.message false)) (runs item (some d)) :=
    h.sendFails htext hgo
  cases outcome with
  | ok =>
    have hsent : Inv m _ (runs item (some d)) := h.sends htext hgo
    refine hsent.push rfl fun hm => ?_
    subst hm
    refine ⟨?_, ⟨?_, (hgo rfl).dispatchable, ?_⟩, by simp, by simp, by simp, by simp⟩
    · exact ((hgo rfl).traced h.trail :)
    · simpa [Task.claims] using (hgo rfl).claimed
    · simp [World.markDispatched]
  | invalid => exact hfails.endDrain
  | transport => exact hfails.endDrain
  | error =>
    refine Inv.commitDrainFailure hfails fun hm => ⟨?_, (hg hm).2⟩
    exact ⟨(hgo hm).claimed, (hgo hm).queued, (hgo hm).dispatchable, (hgo hm).unsent⟩

theorem Inv.send {deliverable : Bool} {outcome : Outcome} (htext : m.text ≠ "")
    (h : Inv m w (.drain d))
    (hg : item.message = m → Going m w d item ∧ (w.ownRow m ≠ none → Unfailed m w)) :
    Inv m (w.send d item deliverable outcome) .nobody := by
  have h' : Inv m w (runs item (some d)) := h
  unfold World.send
  split_ifs with hempty hoff
  · have hm : item.message ≠ m := by
      rintro rfl
      exact htext hempty
    exact Inv.push (h'.markDispatched hm) rfl fun he => absurd he hm
  · exact h'.endDrain
  · exact h.dispatch htext hg

theorem Inv.cleared {deliverable : Bool} {outcome : Outcome} (htext : m.text ≠ "")
    (h : Inv m w (.drain d))
    (hg : item.message = m → Going m w d item ∧ (w.ownRow m ≠ none → Unfailed m w)) :
    Inv m (w.cleared d item deliverable outcome) .nobody := by
  unfold World.cleared
  split_ifs with hgroup
  · exact h.clearing.keepQueued fun hm => (hg hm).1.claimed
  · have hheld : Inv m (w.clearing item.message false)
        (.drain { d with history := d.history || w.loaded d.conversation }) :=
      h.clearing.locals rfl
    refine hheld.send htext fun hm => ⟨?_, (hg hm).2⟩
    have hgo := (hg hm).1
    exact ⟨hgo.claimed, hgo.queued, hgo.dispatchable, hgo.unsent⟩

theorem Inv.clearRetryFailureOf {deliverable : Bool} {outcome : Outcome} (htext : m.text ≠ "")
    (h : Inv m w (.drain d))
    (hg : item.message = m → Going m w d item ∧ item.control = some .retry) :
    Inv m (w.clearRetryFailureOf d item deliverable outcome) .nobody := by
  unfold World.clearRetryFailureOf
  cases hown : w.ownRow item.message with
  | none =>
    refine h.cleared htext fun hm => ⟨(hg hm).1, fun hrow => ?_⟩
    rw [hm] at hown
    exact absurd hown hrow
  | some r =>
    dsimp only
    split_ifs with hcan
    · exact h.clearing.keepQueued fun hm => (hg hm).1.claimed
    · have hr := (ownRow_some hown).1
      have hset : Inv m (w.setRow item.message { r with isPending := true, isFailed := false })
          (runs item (some d)) := by
        refine Inv.setRow h fun hm => ?_
        subst hm
        obtain ⟨hgo, hctl⟩ := hg rfl
        refine ⟨?_, .inr ⟨?_, ?_⟩, ?_, ?_, hgo.traced h.trail⟩
        · intro hc
          simp [IsCancelled, hr, hcan] at hc
        · simp [hgo.queued, hctl]
        · simp [hgo.file htext h]
        · intro hc
          exact absurd hc hcan
        · intro hp
          have hold : r.deliveryProven = true := hp
          exact .inl (by simpa [hr] using hold)
      refine hset.push rfl fun hm => ?_
      subst hm
      obtain ⟨hgo, hctl⟩ := hg rfl
      refine ⟨?_, ⟨?_, hctl, ?_, hgo.unsent⟩, by simp, by simp, by simp, by simp⟩
      · exact (hgo.traced h.trail :)
      · simpa [Task.claims] using hgo.claimed
      · exact hctl ▸ hgo.queued

theorem Inv.clearRetryFailureDurably {deliverable : Bool} {outcome : Outcome} (htext : m.text ≠ "")
    (h : Inv m w (.drain d))
    (hg : item.message = m → Going m w d item ∧ item.control = some .retry) :
    Inv m (w.clearRetryFailureDurably d item deliverable outcome) .nobody := by
  have hgo' : item.message = m →
      Going m (w.clearing item.message true) d item ∧ item.control = some .retry := by
    intro hm
    obtain ⟨hgo, hctl⟩ := hg hm
    exact ⟨⟨hgo.claimed, hgo.queued, hgo.dispatchable, hgo.unsent⟩, hctl⟩
  have hclear : Inv m (w.clearing item.message true) (runs item (some d)) := h.clearing
  unfold World.clearRetryFailureDurably
  split_ifs with hhist
  · exact Inv.clearRetryFailureOf htext hclear hgo'
  · refine hclear.push rfl fun hm => ?_
    subst hm
    obtain ⟨hgo, hctl⟩ := hgo' rfl
    refine ⟨hgo.traced hclear.trail, ⟨?_, hctl, hctl ▸ hgo.queued, hgo.unsent⟩, by simp, by simp, by simp,
      by simp⟩
    simpa [Task.claims] using hgo.claimed

theorem Inv.claim (h : Inv m w (.drain d)) (hclaim : w.claimable d item = true) :
    Inv m (w.claim item.message) (.drain { d with claimed := item.message :: d.claimed }) := by
  simp only [World.claimable, Bool.and_eq_true, Bool.not_eq_true', decide_eq_true_eq] at hclaim
  obtain ⟨⟨⟨⟨⟨-, hops⟩, hfree⟩, -⟩, -⟩, hmem⟩ := hclaim
  refine ⟨h.held.claim fun hm => ?_, h.trail.claims, h.sync, ⟨h.law.quiet, h.law.once, h.law.life⟩⟩
  obtain ⟨hknown, hadd⟩ := known_of_traced (h.trail.traced_of_mem hmem hm)
  subst hm
  exact ⟨hfree, hops, hknown, hadd⟩

theorem Inv.going (h : Inv m w (.drain d)) (hclaim : w.claimable d item = true)
    (hm : item.message = m) :
    Going m (w.claim item.message) { d with claimed := item.message :: d.claimed } item ∧
      (item.control ≠ some .retry → Unfailed m (w.claim item.message)) := by
  simp only [World.claimable, Bool.and_eq_true, Bool.not_eq_true', decide_eq_true_eq] at hclaim
  obtain ⟨⟨⟨⟨⟨hdisp, -⟩, -⟩, hunsent⟩, -⟩, hmem⟩ := hclaim
  have hk := controls_of_mem h.trail hmem hm
  subst hm
  refine ⟨⟨by simp, hk, hdisp, hunsent⟩, fun hctl t ht hfoc => ?_⟩
  obtain ⟨hne, -⟩ | ⟨-, -, hne, -⟩ := h.trail.waits t ht _ _ hfoc
  · cases hne
  · rw [hk] at hne
    simp only [OfflineQueue.dispatchable, Bool.or_eq_true, decide_eq_true_eq] at hdisp
    obtain hnone | hretry := hdisp
    · exact hne (by rw [hnone])
    · exact hctl hretry

/-- A drain takes its next item. -/
theorem Inv.next {deliverable : Bool} {outcome : Outcome} (htext : m.text ≠ "")
    (h : Inv m w (.drain d)) : Inv m (w.next d deliverable outcome) .nobody := by
  unfold World.next
  cases hd : d.rest with
  | nil =>
    have hrun : ∀ item, Inv m w (runs item (some d)) := fun _ => h
    exact (hrun { message := m }).endDrain
  | cons item rest =>
    have hrest : Inv m w (runs item (some { d with rest })) := h.locals rfl
    dsimp only
    split_ifs with hdiscard hoff hclaim hretry
    · refine hrest.push rfl fun hm => ?_
      simp only [Bool.and_eq_true, decide_eq_true_eq] at hdiscard
      exact absurd (hm ▸ hdiscard.2) htext
    · exact hrest.endDrain
    · have hgo := hrest.going hclaim
      exact (Inv.claim hrest hclaim).clearRetryFailureDurably htext
        fun hm => ⟨(hgo hm).1, hretry⟩
    · have hgo := hrest.going hclaim
      refine (Inv.claim hrest hclaim).send htext fun hm => ⟨(hgo hm).1, fun _ => (hgo hm).2 hretry⟩
    · exact Inv.settleRefusedItem hrest

end

end Tim2Tox.SendControl
