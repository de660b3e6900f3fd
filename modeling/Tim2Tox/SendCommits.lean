import Tim2Tox.SendSteps

set_option autoImplicit false

/-!
# Commits

What a queue mutation or a history save that is done, absent or failed does to the invariant.
-/
namespace Tim2Tox.SendControl
open OfflineQueue LabelledRuns

section
variable {m x : Message} {w : World} {hand : Hand} {d : Drain} {item : Item} {drain : Option Drain}
  {s : Stage} {sv : Save} {j : ℕ}

/-! ## The task whose turn it is -/

theorem handOf_runs (hs : s ≠ .adding) : handOf s item drain = runs item drain := by
  cases drain with
  | some d => rfl
  | none =>
    rw [handOf, if_neg hs]
    rfl

theorem queues_of_saves (hs : s.saves = true) : s.queues = false := by
  cases s <;> first | rfl | cases hs

theorem Held.others {t : Task} (h : Held m w .nobody) (ht : w.tasks[j]? = some t)
    (hholds : t.holds m = true) : ∀ u ∈ w.tasks.eraseIdx j, u.holds m = false := by
  obtain ⟨pre, post, hl, he, -, -⟩ := tasks_split ht
  have hexcl := h.excl
  rw [hl] at hexcl
  have hcount : (pre ++ post).countP (Task.holds m) = 0 := by
    simp only [List.countP_append, List.countP_cons, hholds, if_true] at hexcl ⊢
    omega
  rw [he]
  intro u hu
  simpa using List.countP_eq_zero.mp hcount u hu

/-- The first waiting mutation is the one in the file. -/
theorem Sync.turn (h : Sync w) (ht : w.tasks[j]? = some (.on s item drain sv))
    (hs : s.queues = true) (hfirst : isFirst w.tasks Task.queues j = true)
    (hi : w.installing = true) : (World.mutation s item).applies w.cache = true ∧
      w.queueFile = (World.mutation s item).apply w.cache := by
  obtain ⟨pre, post, hl, -, htake, -⟩ := tasks_split ht
  obtain ⟨hi', -⟩ | ⟨-, s', i', d', sv', hfind, happ, hfile⟩ := h
  · simp [hi] at hi'
  have hpre : pre.find? Task.queues = none := by
    rw [isFirst, htake] at hfirst
    rw [List.find?_eq_none]
    intro t htask
    have := List.all_eq_true.mp hfirst t htask
    simpa using this
  have hq : Task.queues (.on s item drain sv) = true := hs
  have hsame : w.tasks.find? Task.queues = some (.on s item drain sv) := by
    rw [hl, List.find?_append, hpre]
    simp [hq]
  rw [hsame] at hfind
  cases hfind
  exact ⟨happ, hfile⟩

/-- A task that does not hold the message settles or drops an item of it. -/
theorem Waits.unheld {u : Task} {c : Option Control} (htext : m.text ≠ "")
    (h : Waits m w u c s) (hu : u.holds m = false) :
    s = .settling ∨ s = .unqueueing ∨ s = .dropping := by
  simp only [Task.holds, Bool.or_eq_false_iff] at hu
  obtain ⟨hclaims, hcalls⟩ := hu
  cases s with
  | settling | unqueueing | dropping => simp
  | discarding => exact absurd h htext
  | adding => simp [Waits, hcalls] at h
  | cancelling | retrying => simp [Waits, hcalls] at h
  | loading | clearing | failing | removing | reremoving | reconciling =>
    simp [Waits, hclaims] at h

/-- While no row says cancelled, such a task is about a failure or a message that went out. -/
theorem Waits.unheld_clean {u : Task} {c : Option Control} (htext : m.text ≠ "")
    (h : Waits m w u c s) (hu : u.holds m = false) (hclean : Clean m w) :
    (s = .settling ∨ s = .unqueueing) ∧ c = some .failed ∧ u.calls m = false ∨
      s = .dropping ∧ dispatchable c = true ∧ w.dispatchedSends m = true := by
  obtain rfl | rfl | rfl := h.unheld htext hu
  · obtain ⟨-, hr, -⟩ | ⟨hc, hcall, -⟩ := h
    · exact absurd hr hclean.2.1
    · exact .inl ⟨.inl rfl, hc, hcall⟩
  · obtain ⟨-, hr⟩ | ⟨hc, hcall, -⟩ := h
    · exact absurd hr.2.1 hclean.2.1
    · exact .inl ⟨.inr rfl, hc, hcall⟩
  · obtain ⟨hc, hd | hr⟩ := h
    · exact .inr ⟨rfl, hc, hd⟩
    · exact absurd hr hclean.2.1

/-- A failure that is being settled does not care for an item that is no tombstone of it. -/
theorem Waits.failed {u : Task} (w : World) (hs : s = .settling ∨ s = .unqueueing)
    (hcall : u.calls m = false) (hne : controls m w.cache ≠ [none])
    (hk : controls m w.cache ≠ [some .failed]) : Waits m w u (some .failed) s := by
  obtain rfl | rfl := hs
  · exact .inr ⟨rfl, hcall, hne, fun h => absurd h hk⟩
  · exact .inr ⟨rfl, hcall, fun h => absurd h hk⟩

theorem Clean.settles {u : Task} (h : Trail m w) (hclean : Clean m w) (hu : u ∈ w.tasks) :
    u.settles m = false := by
  by_contra hs
  simp only [Task.settles, Bool.or_eq_true, decide_eq_true_eq, Bool.not_eq_false] at hs
  obtain hfoc | hfoc := hs
  · obtain ⟨-, hr, -⟩ | ⟨hc, -⟩ := h.waits u hu _ _ hfoc
    · exact hclean.2.1 hr
    · cases hc
  · obtain ⟨-, hr⟩ | ⟨hc, -⟩ := h.waits u hu _ _ hfoc
    · exact hclean.2.1 hr.2.1
    · cases hc

/-- The last item of the message goes: a tombstone, or one that was sent. -/
theorem Waits.emptied {u : Task} {c c' : Option Control} {w' : World} (h : Waits m w u c s)
    (hs : s ≠ .adding) (hk : controls m w.cache = [c'])
    (hdone : dispatchable c' = false ∨ w.dispatchedSends m = true)
    (hw' : w' = { w with cache := w'.cache, installing := w'.installing })
    (hk' : controls m w'.cache = []) : Waits m w' u c s := by
  have hbusy : dispatchable c' = true → w.dispatchedSends m = false → False := by
    intro hd hn
    simp [hd, hn] at hdone
  cases s with
  | adding => exact absurd rfl hs
  | cancelling | failing =>
    obtain ⟨-, hk'', hd, hn⟩ := h
    rw [hk] at hk''
    cases hk''
    exact (hbusy hd hn).elim
  | loading | clearing =>
    obtain ⟨-, -, hk'', hn⟩ := h
    rw [hk] at hk''
    cases hk''
    exact (hbusy rfl hn).elim
  | retrying =>
    obtain ⟨hcall, hclean, ⟨hc, -⟩ | ⟨-, hno⟩⟩ := h
    · rw [hw'] at hk' ⊢
      exact ⟨hcall, hclean, .inl ⟨hc, .inl hk'⟩⟩
    · simp [hk] at hno
  | settling =>
    obtain hcan | ⟨rfl, hcall, -⟩ := h
    · rw [hw']
      exact .inl hcan
    · exact Waits.failed w' (.inl rfl) hcall (by simp [hk']) (by simp [hk'])
  | unqueueing =>
    obtain hcan | ⟨rfl, hcall, -⟩ := h
    · rw [hw']
      exact .inl hcan
    · exact Waits.failed w' (.inr rfl) hcall (by simp [hk']) (by simp [hk'])
  | dropping | discarding | removing | reremoving | reconciling =>
    rw [hw']
    exact h

/-! ## The cache follows the file -/

/-- The mutation of the `j`-th task is done. -/
def installed (w : World) (j : ℕ) : World :=
  { w with tasks := w.tasks.eraseIdx j, cache := w.queueFile, installing := false }

theorem mem_of_eraseIdx {l : List Task} {u : Task} (h : u ∈ l.eraseIdx j) : u ∈ l :=
  (List.eraseIdx_sublist l j).subset h

theorem Trail.without (h : Trail m w) : Trail m { w with tasks := w.tasks.eraseIdx j } :=
  h.frame ⟨⟨List.eraseIdx_sublist _ _, rfl, rfl⟩, Logged.same rfl, rfl, rfl, rfl, rfl⟩

theorem Everywhere.without {φ : Option Row → Prop} (h : Everywhere φ m w) :
    Everywhere φ m { w with tasks := w.tasks.eraseIdx j } :=
  h.fewer ⟨List.eraseIdx_sublist _ _, rfl, rfl⟩

theorem queues_of_focus {u : Task} {c : Option Control} (h : u.focus m = some (s, c)) :
    u.queues = s.queues := by
  cases u with
  | ready | background => cases h
  | on s' i d' sv' =>
    simp only [Task.focus] at h
    split_ifs at h
    cases h
    rfl

/-- A task other than the one that queues the message waits for it: the message is no new one. -/
theorem Trail.not_fresh {c : Option Control} {t : Task} (h : Trail m w) (ht : t ∈ w.tasks)
    (hfoc : t.focus m = some (s, c)) (hs : s ≠ .adding) :
    ¬Fresh m w :=
  fun hf => hs ((h.fresh hf).tasks t ht s c hfoc).1

theorem not_fresh_without (h : ¬Fresh m w) : ¬Fresh m { w with tasks := w.tasks.eraseIdx j } := by
  rintro (hk | ⟨t, ht, hc⟩)
  · exact h (.inl hk)
  · exact h (.inr ⟨t, mem_of_eraseIdx ht, hc⟩)

/-- The commit of a mutation that leaves one item, which no waiting task relies on. -/
theorem Trail.commit_queued {c : Option Control} (htext : m.text ≠ "") (h : Trail m w)
    (hsync : Sync w) (hclean : Clean m w)
    (hothers : ∀ u ∈ w.tasks.eraseIdx j, u.holds m = false)
    (hfile : controls m w.queueFile = [c]) (hne : c ≠ none) (hnf : c ≠ some .failed)
    (hfresh : ¬Fresh m w) :
    Trail m (installed w j) := by
  obtain ⟨hshort, hcl⟩ := hsync.file_short h
  refine (h.without (j := j)).install hshort (fun c' hc' hn => (hcl c' hc' hn).without) ?_ ?_ ?_ (.inr (not_fresh_without hfresh))
  · intro u hu s' c' hfoc
    have hw := h.waits u (mem_of_eraseIdx hu) s' c' hfoc
    obtain ⟨hs', rfl, hcall⟩ | ⟨rfl, hd, hdone⟩ := hw.unheld_clean htext (hothers u hu) hclean
    · refine Waits.failed _ hs' hcall ?_ ?_
      · change controls m w.queueFile ≠ _
        simp [hfile, hne]
      · change controls m w.queueFile ≠ _
        simp [hfile, hnf]
    · exact ⟨hd, .inl hdone⟩
  · intro hf
    change controls m w.queueFile = _ at hf
    simp [hfile, hnf] at hf
  · intro u hu hs'
    have := Clean.settles h hclean (mem_of_eraseIdx hu)
    simp [hs'] at this

/-- The commit of a mutation that removes the item. -/
theorem Trail.commit_removed {c : Option Control} (h : Trail m w)
    (hk : controls m w.cache = [c]) (hdone : dispatchable c = false ∨ w.dispatchedSends m = true)
    (hfile : controls m w.queueFile = [])
    (halone : ∀ u ∈ w.tasks.eraseIdx j, u.settles m = true → u.calls m = true → False)
    (hfresh : ¬Fresh m w) :
    Trail m (installed w j) := by
  refine (h.without (j := j)).install ?_ ?_ ?_ ?_ ?_ (.inl hfile)
  · change (controls m w.queueFile).length ≤ 1
    simp [hfile]
  · intro c' hc'
    change c' ∈ controls m w.queueFile at hc'
    simp [hfile] at hc'
  · intro u hu s' c' hfoc
    have hw := (h.without (j := j)).waits u hu s' c' hfoc
    refine hw.emptied ?_ hk hdone rfl hfile
    rintro rfl
    exact hfresh (.inr ⟨u, mem_of_eraseIdx hu, c', hfoc⟩)
  · intro hf
    change controls m w.queueFile = _ at hf
    simp [hfile] at hf
  · exact fun u hu hs' hcall => (halone u hu hs' hcall).elim

/-- The item of a mutation that removes or replaces it is the one queued. -/
theorem Trail.controls_of_applies (h : Trail m w) (hm : item.message = m)
    (happ : (World.mutation s item).applies w.cache = true) (hadd : World.mutation s item ≠ .addMessage item) :
    controls m w.cache = [item.control] := by
  refine controls_of_mem h ?_ hm
  unfold World.mutation at happ hadd
  split at happ
  · exact absurd rfl hadd
  · simpa [Mutation.applies] using happ
  · split_ifs at happ hadd with hc
    · simpa [Mutation.applies] using happ
    · exact absurd rfl hadd
  · simpa [Mutation.applies] using happ
  · simpa [Mutation.applies] using happ

theorem Trail.commit (htext : m.text ≠ "") (h : Inv m w .nobody) (hm : item.message = m)
    (ht : w.tasks[j]? = some (.on s item drain sv)) (hs : s.queues = true)
    (hfirst : isFirst w.tasks Task.queues j = true) (hi : w.installing = true) :
    Trail m (installed w j) := by
  obtain ⟨happ, hfile⟩ := h.sync.turn ht hs hfirst hi
  have hmem : Task.on s item drain sv ∈ w.tasks := List.mem_of_getElem? ht
  have hfoc : Task.focus m (.on s item drain sv) = some (s, item.control) := by
    simp [Task.focus, hm]
  have hw := h.trail.waits _ hmem _ _ hfoc
  have hchanged : controls m w.queueFile = changed s item.control (controls m w.cache) := by
    rw [hfile, controls_mutation, if_pos hm]
  have hheld : Task.holds m (.on s item drain sv) = true →
      ∀ u ∈ w.tasks.eraseIdx j, u.holds m = false := h.held.others ht
  have hfresh : s ≠ .adding → _ := h.trail.not_fresh hmem hfoc
  cases s with
  | adding =>
    have hn := h.trail.fresh (.inr ⟨_, hmem, _, hfoc⟩)
    have hothers := hheld (by simp [Task.holds, show Task.calls m _ = true from hw])
    have hnone : ∀ u ∈ w.tasks.eraseIdx j, ∀ s c, u.focus m ≠ some (s, c) := by
      intro u hu s c hfoc'
      obtain ⟨rfl, -⟩ := hn.tasks u (mem_of_eraseIdx hu) s c hfoc'
      have hcall := h.trail.waits u (mem_of_eraseIdx hu) _ _ hfoc'
      have := hothers u hu
      simp [Task.holds, show Task.calls m u = true from hcall] at this
    have hclean : Clean m w := hn.rows.mono (by rintro _ rfl; simp [IsCancelled])
    have hknown : w.known m ≠ false := by
      intro hk
      have hzero := h.held.unknown hk
      have hcount := List.countP_pos_iff.mpr ⟨_, hmem, show Task.holds m _ = true by
        simp [Task.holds, show Task.calls m _ = true from hw]⟩
      omega
    obtain ⟨hshort, hcl⟩ := h.sync.file_short h.trail
    refine (h.trail.without (j := j)).install hshort (fun c _ _ => hclean.without) ?_ ?_ ?_ (.inr ?_)
    · exact fun u hu s c hfoc' => absurd hfoc' (hnone u hu s c)
    · exact fun _ => .inr fun u hu => hnone u hu _ _
    · intro u hu hs'
      simp [Task.settles, hnone u hu] at hs'
    · rintro (hk | ⟨u, hu, c, hfoc'⟩)
      · exact hknown hk
      · exact hnone u hu _ _ hfoc'
  | cancelling =>
    obtain ⟨hcall, hk, hd, -⟩ := hw
    have hclean := h.trail.clean_of_dispatchable hk hd
    refine Trail.commit_queued htext h.trail h.sync hclean (hheld (by simp [Task.holds, hcall]))
      (c := some .cancelled) ?_ (by simp) (by simp) (hfresh (by simp))
    simp [hchanged, changed, hk]
  | retrying =>
    obtain ⟨hcall, hclean, hk⟩ := hw
    refine Trail.commit_queued htext h.trail h.sync hclean (hheld (by simp [Task.holds, hcall]))
      (c := some .retry) ?_ (by simp) (by simp) (hfresh (by simp))
    obtain ⟨hc, -⟩ | ⟨hc, hk⟩ := hk
    · have hk := h.trail.controls_of_applies hm happ (by simp [World.mutation, hc])
      simp [hchanged, changed, hk, hc]
    · simp [hchanged, changed, hk, hc]
  | failing =>
    obtain ⟨hclaim, hk, hd, hunsent⟩ := hw
    have hclean := h.trail.clean_of_dispatchable hk hd
    have hothers := hheld (by simp [Task.holds, hclaim])
    -- A failure that was settled before would be unqueued before, or wait for it now.
    have hnone : ∀ u ∈ w.tasks.eraseIdx j, ∀ s c, u.focus m ≠ some (s, c) := by
      intro u hu s c hfoc'
      have hmem' := mem_of_eraseIdx hu
      obtain ⟨rfl | rfl, rfl, -⟩ | ⟨-, -, hdone⟩ :=
        (h.trail.waits u hmem' s c hfoc').unheld_clean htext (hothers u hu) hclean
      · exact h.trail.noFail u hmem' hfoc' _ hmem _ hfoc
      · obtain ⟨pre, post, hl, he, htake, -⟩ := tasks_split ht
        rw [he] at hu
        obtain hu | hu := List.mem_append.mp hu
        · rw [isFirst, htake] at hfirst
          have hno := List.all_eq_true.mp hfirst u hu
          simp [queues_of_focus hfoc', Stage.queues] at hno
        · have hord := h.trail.order
          rw [hl] at hord
          have := (List.pairwise_append.mp hord).2.1
          exact ((List.pairwise_cons.mp this).1 u hu).failed _ hfoc hfoc'
      · simp [hunsent] at hdone
    obtain ⟨hshort, -⟩ := h.sync.file_short h.trail
    refine (h.trail.without (j := j)).install hshort (fun c _ _ => hclean.without) ?_ ?_ ?_
      (.inr (not_fresh_without (hfresh (by simp))))
    · exact fun u hu s c hfoc' => absurd hfoc' (hnone u hu s c)
    · exact fun _ => .inr fun u hu => hnone u hu _ _
    · intro u hu hs'
      simp [Task.settles, hnone u hu] at hs'
  | unqueueing =>
    have hk := h.trail.controls_of_applies hm happ (by simp [World.mutation])
    have hno : dispatchable item.control = false := by
      obtain ⟨hc, -⟩ | ⟨hc, -⟩ := hw <;> simp [hc, dispatchable]
    refine h.trail.commit_removed hk (.inl hno) (by simp [hchanged, changed, hk]) ?_
      (hfresh (by simp))
    intro u hu hs' hcall
    obtain ⟨hk', hsame⟩ := h.trail.alone u (mem_of_eraseIdx hu) hs'
    have hc : item.control = some .cancelled := by simpa [hk] using hk' hcall
    have hown := hsame _ hmem (by simp [Task.settles, hfoc, hc])
    have := hheld (by simp [Task.holds, hown, hcall]) u hu
    simp [Task.holds, hcall] at this
  | dropping =>
    have hk := h.trail.controls_of_applies hm happ (by simp [World.mutation])
    obtain ⟨hd, hwhy⟩ := hw
    have hclean := h.trail.clean_of_dispatchable hk hd
    have hdone : w.dispatchedSends m = true := hwhy.resolve_right hclean.2.1
    refine h.trail.commit_removed hk (.inr hdone) (by simp [hchanged, changed, hk]) ?_
      (hfresh (by simp))
    intro u hu hs' _
    have := Clean.settles h.trail hclean (mem_of_eraseIdx hu)
    simp [hs'] at this
  | discarding => exact absurd hw htext
  | removing | reremoving =>
    obtain ⟨hclaim, -, hdone⟩ := hw
    have hk := h.trail.controls_of_applies hm happ (by simp [World.mutation])
    refine h.trail.commit_removed hk (.inr hdone) (by simp [hchanged, changed, hk]) ?_
      (hfresh (by simp))
    intro u hu _ hcall
    have := hheld (by simp [Task.holds, hclaim]) u hu
    simp [Task.holds, hcall] at this
  | settling | loading | clearing | reconciling => cases hs

theorem Inv.without {t : Task} (h : Inv m w .nobody) (ht : w.tasks[j]? = some t)
    (hq : t.queues = false ∨ w.installing = false) :
    Inv m { w with tasks := w.tasks.eraseIdx j } t.hand :=
  ⟨h.held.remove ht, h.trail.without, h.sync.remove ht hq, ⟨h.law.quiet, h.law.once, h.law.life⟩⟩

theorem Inv.commit (htext : m.text ≠ "") (h : Inv m w .nobody)
    (ht : w.tasks[j]? = some (.on s item drain sv)) (hs : s.queues = true)
    (hfirst : isFirst w.tasks Task.queues j = true) (hi : w.installing = true) :
    Inv m (installed w j) (handOf s item drain) := by
  have hheld := h.held.remove ht
  refine ⟨⟨hheld.excl, hheld.claimed, hheld.ops, hheld.opsHand, hheld.unknown, hheld.served⟩, ?_,
    .inl ⟨rfl, rfl⟩, ⟨h.law.quiet, h.law.once, h.law.life⟩⟩
  by_cases hm : item.message = m
  · exact Trail.commit htext h hm ht hs hfirst hi
  · refine h.trail.frame
      ⟨⟨List.eraseIdx_sublist _ _, rfl, rfl⟩, Logged.same rfl, ?_, rfl, rfl, rfl⟩
    obtain ⟨-, hfile⟩ := h.sync.turn ht hs hfirst hi
    change controls m w.queueFile = _
    rw [hfile, controls_mutation, if_neg hm]

/-! ## After a queue mutation -/

theorem Inv.loads {loaded : Conversation → Bool} (h : Inv m w hand) :
    Inv m { w with loaded := loaded } hand :=
  ⟨⟨h.held.excl, h.held.claimed, h.held.ops, h.held.opsHand, h.held.unknown, h.held.served⟩,
    h.trail.frame ⟨⟨List.Sublist.refl _, rfl, rfl⟩, Logged.same rfl, rfl, rfl, rfl, rfl⟩,
    h.sync, ⟨h.law.quiet, h.law.once, h.law.life⟩⟩

/-- The task has sent its item. -/
structure WentOut (m : Message) (w : World) (item : Item) (drain : Option Drain) : Prop where
  claims : (Task.on .reconciling item drain .waiting).claims m = true
  dispatchable : dispatchable item.control = true
  dispatched : w.dispatchedSends m = true

theorem claims_on (s s' : Stage) (sv sv' : Save) :
    (Task.on s item drain sv).claims m = (Task.on s' item drain sv').claims m := by
  cases drain <;> rfl

/-- The row of a message that went out. -/
theorem Inv.reconciled {r : Row} (h : Inv m w (runs item drain))
    (hw : item.message = m → WentOut m w item drain)
    (hr : r.isCancelled = (w.rows item.message).any Row.isCancelled)
    (hp : r.deliveryProven = (w.rows item.message).any Row.deliveryProven) :
    Inv m ((w.setRow item.message r).push (.on .reconciling item drain .waiting)) .nobody := by
  have htraced : item.message = m → ¬Fresh m w :=
    fun hm => h.trail.traced_of_dispatched (hw hm).dispatched
  have hset : Inv m (w.setRow item.message r) (runs item drain) := by
    refine h.setRow fun hm => ?_
    have hsent : Sent w m := h.trail.sent (hw hm).dispatched
    subst hm
    exact ⟨fun hc => hr.trans hc, .inl fun _ => .inl hsent, fun hc => .inl (hr.symm.trans hc),
      fun hc => .inl (hp.symm.trans hc), htraced rfl⟩
  exact hset.push rfl fun hm => ⟨htraced hm,
    ⟨(hw hm).claims, (hw hm).dispatchable, (hw hm).dispatched⟩, by simp, by simp, by simp, by simp⟩

theorem Inv.reconcile {history pendingRow : Bool} (h : Inv m w (runs item drain))
    (hw : item.message = m → WentOut m w item drain) :
    Inv m (w.reconcile history pendingRow item drain) .nobody := by
  unfold World.reconcile
  cases hown : w.ownRow item.message with
  | some r =>
    have hr := (ownRow_some hown).1
    dsimp only
    split_ifs with hgroup
    · exact h.ready
    · exact h.reconciled hw (by simp [hr]) (by simp [hr, Row.deliveryProven])
  | none =>
    dsimp only
    split_ifs with hgroup
    · exact h.ready
    · refine h.loads.reconciled
        (fun hm => ⟨(hw hm).claims, (hw hm).dispatchable, (hw hm).dispatched⟩) ?_ ?_
      · cases w.rows item.message <;> simp
      · cases w.rows item.message <;> simp [Row.deliveryProven]

theorem Inv.reconcileSentItem {history : Bool} (h : Inv m w (runs item drain))
    (hw : item.message = m → WentOut m w item drain) :
    Inv m (w.reconcileSentItem history item drain) .nobody := by
  unfold World.reconcileSentItem
  cases hown : w.ownRow item.message with
  | some r =>
    have hr := (ownRow_some hown).1
    dsimp only
    split_ifs with hhist
    · exact h.reconciled hw (by simp [hr]) (by simp [hr, Row.deliveryProven])
    · exact h.ready
  | none => exact h.ready

/-- A text was queued: its pending row is shown. -/
theorem Inv.mutated_adding {written : World.Written} (h : Inv m w .nobody)
    (hrow : item.message = m → written = .done → w.rows m = none ∧ controls m w.cache ≠ []) :
    Inv m (w.mutated .adding item drain written) .nobody := by
  simp only [World.mutated]
  split_ifs with hdone
  · refine Inv.loads (Inv.setRow h fun hm => ?_)
    obtain ⟨hnone, hk⟩ := hrow hm hdone
    subst hm
    rw [hnone]
    refine ⟨by simp [IsCancelled, hnone], .inl ?_, by simp, by simp [Row.deliveryProven], ?_⟩
    · rintro (hs | hs)
      · exact .inl hs
      · simp [SaysSo, hnone] at hs
    · exact fun hf => hk (h.trail.fresh hf).cache
  · exact h

theorem Inv.mutated_cancelling {written : World.Written} (h : Inv m w (.call item.message))
    (hfile : item.message = m → written = .done →
      controls m w.queueFile = [some .cancelled] ∧ ∀ u ∈ w.tasks, u.settles m = false) :
    Inv m (w.mutated .cancelling item drain written) .nobody := by
  cases written with
  | done =>
    have hrun : Inv m w (runs { item with control := some .cancelled } none) := h
    exact hrun.settleTombstone fun hm =>
      ⟨rfl, fun _ => ⟨rfl, (hfile hm rfl).1, (hfile hm rfl).2⟩⟩
  | absent => exact h.finishCancel (by simp)
  | failed => exact h.finishCancel (by simp)

theorem Inv.mutated_retrying {written : World.Written} (h : Inv m w (.call item.message))
    (hfile : item.message = m → written = .done → Clean m w ∧
      controls m w.cache = [some .retry] ∧ controls m w.queueFile = [some .retry]) :
    Inv m (w.mutated .retrying item drain written) .nobody := by
  have hfree : Inv m { w with sendControlOps := Function.update w.sendControlOps item.message false }
      .nobody :=
    ⟨h.held.release, h.trail.ops, h.sync, ⟨h.law.quiet, h.law.once, h.law.life⟩⟩
  simp only [World.mutated]
  split_ifs with hdone
  · cases hown : w.ownRow item.message with
    | none => exact hfree
    | some r =>
      have hr := (ownRow_some hown).1
      have hset := hfree.setRow (x := item.message) (r := { r with isPending := true, isFailed := false })
        fun hm => by
          subst hm
          obtain ⟨hclean, hk, hf⟩ := hfile rfl hdone
          have hcan : r.isCancelled = false := by simpa [IsCancelled, hr] using hclean.2.1
          refine ⟨?_, .inr ⟨?_, ?_⟩, ?_, ?_, ?_⟩
          · intro hc
            exact absurd hc hclean.2.1
          · change controls item.message w.cache ≠ _
            simp [hk]
          · change controls item.message w.queueFile ≠ _
            simp [hf]
          · intro hc
            simp [hcan] at hc
          · intro hp
            have hold : r.deliveryProven = true := hp
            exact .inl (by simpa [hr] using hold)
          · exact h.trail.traced_of_row (by simp [hr])
      exact ⟨hset.held.pushBackground, hset.trail.push (joins_elsewhere rfl (by simp [Task.row]) rfl),
        hset.sync.push, ⟨hset.law.quiet, hset.law.once, hset.law.life⟩⟩
  · exact hfree

/-- What a task relies on once its mutation is done, or is known not to be. -/
def Goes (m : Message) (w : World) (item : Item) (drain : Option Drain) (written : World.Written) :
    Stage → Prop
  | .adding => written = .done → w.rows m = none ∧ controls m w.cache ≠ []
  | .cancelling => written = .done →
      controls m w.queueFile = [some .cancelled] ∧ ∀ u ∈ w.tasks, u.settles m = false
  | .retrying => written = .done → Clean m w ∧
      controls m w.cache = [some .retry] ∧ controls m w.queueFile = [some .retry]
  | .unqueueing => drain = none → Doomed m w
  | .removing _ | .reremoving => WentOut m w item drain
  | .failing => drain ≠ none
  | _ => True

theorem Inv.afterSettle (h : Inv m w (runs item drain))
    (hd : item.message = m → drain = none → Doomed m w) :
    Inv m (w.afterSettle item drain) .nobody := by
  cases drain with
  | some d => exact h.ready
  | none => exact h.finishCancel fun hm _ => hd hm rfl

theorem Inv.mutated {written : World.Written} (h : Inv m w (handOf s item drain))
    (hserved : (Task.on s item drain sv).served = true)
    (hg : item.message = m → Goes m w item drain written s) :
    Inv m (w.mutated s item drain written) .nobody := by
  have hcall : s.drains = false → drain = none := by
    intro hs
    cases drain with
    | none => rfl
    | some d => simp [Task.served, hs] at hserved
  have hrun : s ≠ .adding → Inv m w (runs item drain) := by
    intro hs
    rw [handOf_runs hs] at h
    exact h
  cases s with
  | adding =>
    obtain rfl := hcall rfl
    exact Inv.mutated_adding h hg
  | cancelling =>
    obtain rfl := hcall rfl
    exact Inv.mutated_cancelling h hg
  | retrying =>
    obtain rfl := hcall rfl
    exact Inv.mutated_retrying h hg
  | unqueueing => exact (hrun (by simp)).afterSettle hg
  | discarding =>
    simp only [World.mutated]
    split_ifs with hf
    · exact (hrun (by simp)).endDrain
    · exact (hrun (by simp)).ready
  | removing pendingRow =>
    simp only [World.mutated]
    split_ifs with hf hempty
    · refine (hrun (by simp)).push rfl fun hm => ⟨?_, ⟨?_, ?_, ?_⟩, by simp, by simp,
        by simp, by simp⟩
      · exact h.trail.traced_of_dispatched (hg hm).dispatched
      · exact (claims_on _ _ _ _).trans (hg hm).claims
      · exact (hg hm).dispatchable
      · exact (hg hm).dispatched
    · exact (hrun (by simp)).ready
    · exact (hrun (by simp)).reconcile hg
  | reremoving => exact (hrun (by simp)).reconcileSentItem hg
  | failing =>
    simp only [World.mutated]
    split_ifs with hf
    · have hrun' : Inv m w (runs { item with control := some .failed } drain) := by
        have := hrun (by simp)
        cases drain <;> exact this
      exact hrun'.settleTombstone fun hm => ⟨rfl, fun hd => absurd hd (hg hm)⟩
    · exact (hrun (by simp)).endDrain
  | dropping | settling | loading | clearing | reconciling => exact (hrun (by simp)).ready

theorem drain_of_claims (h : (Task.on s item drain sv).claims m = true) : drain ≠ none := by
  rintro rfl
  cases h

theorem calls_on (hm : item.message = m) : (Task.on s item none sv).calls m = true := by
  simp [Task.calls, hm]

/-- Only a tombstone of a cancel stands where every row says cancelled. -/
theorem Trail.controls_of_cancelled (h : Trail m w) (he : IsCancelled (w.rows m)) :
    controls m w.cache = [] ∨ controls m w.cache = [some .cancelled] := by
  have hshort := h.short
  have hclean := h.clean
  generalize controls m w.cache = k at hshort hclean
  match k, hshort with
  | [], _ => exact .inl rfl
  | [c], _ =>
    by_cases hc : c = some .cancelled
    · exact .inr (by rw [hc])
    · exact absurd he (hclean c (by simp) hc).2.1
  | _ :: _ :: _, hshort => simp at hshort

theorem goes_done (h : Inv m w .nobody) (hm : item.message = m)
    (ht : w.tasks[j]? = some (.on s item drain sv)) (hs : s.queues = true)
    (hfirst : isFirst w.tasks Task.queues j = true) (hi : w.installing = true) :
    Goes m (installed w j) item drain .done s := by
  obtain ⟨happ, hfile⟩ := h.sync.turn ht hs hfirst hi
  have hmem : Task.on s item drain sv ∈ w.tasks := List.mem_of_getElem? ht
  have hfoc : Task.focus m (.on s item drain sv) = some (s, item.control) := by
    simp [Task.focus, hm]
  have hw := h.trail.waits _ hmem _ _ hfoc
  have hchanged : controls m w.queueFile = changed s item.control (controls m w.cache) := by
    rw [hfile, controls_mutation, if_pos hm]
  cases s with
  | adding =>
    have hn := h.trail.fresh (.inr ⟨_, hmem, _, hfoc⟩)
    refine fun _ => ⟨hn.rows.2.1, ?_⟩
    change controls m w.queueFile ≠ []
    simp [hchanged, changed]
  | cancelling =>
    obtain ⟨-, hk, hd, -⟩ := hw
    refine fun _ => ⟨?_, fun u hu => ?_⟩
    · change controls m w.queueFile = _
      simp [hchanged, changed, hk]
    · exact Clean.settles h.trail (h.trail.clean_of_dispatchable hk hd) (mem_of_eraseIdx hu)
  | retrying =>
    obtain ⟨-, hclean, hk⟩ := hw
    have hretry : controls m w.queueFile = [some .retry] := by
      obtain ⟨hc, -⟩ | ⟨hc, hk⟩ := hk
      · have hk := h.trail.controls_of_applies hm happ (by simp [World.mutation, hc])
        simp [hchanged, changed, hk, hc]
      · simp [hchanged, changed, hk, hc]
    exact fun _ => ⟨hclean.fewer ⟨List.eraseIdx_sublist _ _, rfl, rfl⟩, hretry, hretry⟩
  | unqueueing =>
    rintro rfl
    have hk := h.trail.controls_of_applies hm happ (by simp [World.mutation])
    obtain ⟨-, he⟩ | ⟨-, hcall, -⟩ := hw
    · refine .inr ⟨?_, he.fewer ⟨List.eraseIdx_sublist _ _, rfl, rfl⟩⟩
      change controls m w.queueFile = _
      simp [hchanged, changed, hk]
    · simp [calls_on hm] at hcall
  | removing | reremoving =>
    obtain ⟨hclaims, hd, hdone⟩ := hw
    exact ⟨(claims_on _ _ _ _).trans hclaims, hd, hdone⟩
  | failing => exact drain_of_claims hw.1
  | dropping | discarding | settling | loading | clearing | reconciling => trivial

/-- A mutation that failed, or whose item is gone. -/
theorem goes_undone {written : World.Written} (h : Inv m w .nobody) (hm : item.message = m)
    (ht : w.tasks[j]? = some (.on s item drain sv)) (hi : w.installing = false)
    (hwritten : written ≠ .done) :
    Goes m { w with tasks := w.tasks.eraseIdx j } item drain written s := by
  have hfoc : Task.focus m (.on s item drain sv) = some (s, item.control) := by
    simp [Task.focus, hm]
  have hw := h.trail.waits _ (List.mem_of_getElem? ht) _ _ hfoc
  cases s with
  | adding | cancelling | retrying => exact fun hd => absurd hd hwritten
  | unqueueing =>
    rintro rfl
    have hfile : w.queueFile = w.cache := by
      obtain ⟨-, hfile⟩ | ⟨hi', -⟩ := h.sync
      · exact hfile
      · simp [hi] at hi'
    obtain ⟨-, he⟩ | ⟨-, hcall, -⟩ := hw
    · unfold Doomed
      change controls m w.queueFile = _ ∨ controls m w.queueFile = _ ∧ _
      rw [hfile]
      obtain hk | hk := h.trail.controls_of_cancelled he.2.1
      · exact .inr ⟨hk, he.without⟩
      · exact .inl hk
    · simp [calls_on hm] at hcall
  | removing | reremoving =>
    obtain ⟨hclaims, hd, hdone⟩ := hw
    exact ⟨(claims_on _ _ _ _).trans hclaims, hd, hdone⟩
  | failing => exact drain_of_claims hw.1
  | dropping | discarding | settling | loading | clearing | reconciling => trivial

/-! ## After a history save -/

/-- The task whose turn it is saves before every other task of its conversation. -/
theorem first_of_saves {u : Task} {c : Conversation} {pre : List Task}
    (hfirst : isFirst w.tasks (Task.savesTo c) j = true) (htake : w.tasks.take j = pre)
    (hu : u ∈ pre) : u.savesTo c = false := by
  rw [isFirst, htake] at hfirst
  simpa using List.all_eq_true.mp hfirst u hu

theorem savesTo_of_row {u : Task} {ρ : Option Row} (h : u.row m = some ρ) :
    u.savesTo m.conversation = true := by
  cases u with
  | ready => cases h
  | background c sv' =>
    cases sv' with
    | waiting | landed => cases h
    | taken rows =>
      simp only [Task.row] at h
      split_ifs at h with hc
      simp [Task.savesTo, hc]
  | on s' i d' sv' =>
    cases sv' with
    | waiting | landed => cases h
    | taken rows =>
      simp only [Task.row] at h
      split_ifs at h with hc
      simp [Task.savesTo, hc.1, hc.2]

theorem savesTo_of_focus {u : Task} {c : Option Control} (h : u.focus m = some (s, c)) :
    u.savesTo m.conversation = s.saves := by
  cases u with
  | ready | background => cases h
  | on s' i d' sv' =>
    simp only [Task.focus] at h
    split_ifs at h with hm
    cases h
    simp [Task.savesTo, hm]

/-- A row that was saved first is in the file, and every later save agrees with it. -/
theorem everywhere_landed {φ : Option Row → Prop} {t : Task} (ht : w.tasks[j]? = some t)
    (hfirst : isFirst w.tasks (Task.savesTo m.conversation) j = true) (hfile : φ (w.historyFile m))
    (hrows : φ (w.rows m))
    (hlater : ∀ pre post, w.tasks = pre ++ t :: post → ∀ u ∈ post, ∀ ρ, u.row m = some ρ → φ ρ) :
    Everywhere φ m { w with tasks := w.tasks.eraseIdx j } := by
  obtain ⟨pre, post, hl, he, htake, -⟩ := tasks_split ht
  refine ⟨hfile, hrows, fun u hu ρ hρ => ?_⟩
  change u ∈ w.tasks.eraseIdx j at hu
  rw [he] at hu
  obtain hu | hu := List.mem_append.mp hu
  · have hno := first_of_saves hfirst htake hu
    simp [savesTo_of_row hρ] at hno
  · exact hlater pre post hl u hu ρ hρ

/-- Nobody else unqueues the tombstone a cancel is settling. -/
theorem Inv.doomed_of_call (htext : m.text ≠ "") (h : Inv m w .nobody)
    (ht : w.tasks[j]? = some (.on .settling item none sv)) (hm : item.message = m) :
    Doomed m { w with tasks := w.tasks.eraseIdx j } := by
  have hmem : Task.on .settling item none sv ∈ w.tasks := List.mem_of_getElem? ht
  have hfoc : Task.focus m (.on .settling item none sv) = some (.settling, item.control) := by
    simp [Task.focus, hm]
  have hothers := h.held.others ht (by simp [Task.holds, calls_on hm])
  have hc : item.control = some .cancelled := by
    obtain ⟨hc, -⟩ | ⟨-, hcall, -⟩ := h.trail.waits _ hmem _ _ hfoc
    · exact hc
    · simp [calls_on hm] at hcall
  obtain ⟨hk, hsame⟩ := h.trail.alone _ hmem (by simp [Task.settles, hfoc, hc])
  have hk := hk (calls_on hm)
  obtain hfile | ⟨u, hu, s', c', hfoc', hq, hfile⟩ :=
    (h.sync.remove ht (.inl rfl)).file (m := m)
  · exact .inl (hfile.trans hk)
  refine .inl (hfile.trans ?_)
  change changed s' c' (controls m w.cache) = _
  have hother : c' ≠ some .cancelled →
      ([some .cancelled] : List (Option Control)).erase c' = [some .cancelled] := by
    intro hne
    simp [Ne.symm hne]
  have hw := h.trail.waits u (mem_of_eraseIdx hu) s' c' hfoc'
  rw [hk]
  obtain rfl | rfl | rfl := hw.unheld htext (hothers u hu)
  · cases hq
  · refine hother fun hc' => ?_
    have hcall := hsame u (mem_of_eraseIdx hu) (by simp [Task.settles, hfoc', hc'])
    have := hothers u hu
    simp [Task.holds, hcall, calls_on hm] at this
  · refine hother fun hc' => ?_
    simp [Waits, hc', dispatchable] at hw

theorem Inv.saved {ok deliverable : Bool} {outcome : Outcome} (htext : m.text ≠ "")
    (h : Inv m w .nobody) (ht : w.tasks[j]? = some (.on s item drain sv)) (hs : s.saves = true)
    (hfirst : isFirst w.tasks (Task.savesTo item.message.conversation) j = true)
    (hland : ok = true → sv = .landed) :
    Inv m (World.saved { w with tasks := w.tasks.eraseIdx j } s item drain ok deliverable outcome)
      .nobody := by
  have hmem : Task.on s item drain sv ∈ w.tasks := List.mem_of_getElem? ht
  have hfoc : item.message = m → Task.focus m (.on s item drain sv) = some (s, item.control) := by
    intro hm
    simp [Task.focus, hm]
  have hrest : Inv m { w with tasks := w.tasks.eraseIdx j } (runs item drain) := by
    have hne : s ≠ .adding := by
      rintro rfl
      cases hs
    rw [← handOf_runs hne]
    exact h.without ht (.inl (queues_of_saves hs))
  have hafter : ∀ pre post, w.tasks = pre ++ Task.on s item drain sv :: post →
      ∀ u ∈ post, Order m w (.on s item drain sv) u := by
    intro pre post hl u hu
    have hord := h.trail.order
    rw [hl] at hord
    exact (List.pairwise_cons.mp (List.pairwise_append.mp hord).2.1).1 u hu
  cases s with
  | settling =>
    simp only [World.saved]
    split_ifs with hok
    · obtain rfl := hland hok
      refine hrest.push rfl fun hm => ?_
      have hw := h.trail.waits _ hmem _ _ (hfoc hm)
      refine ⟨not_fresh_without (h.trail.not_fresh hmem (hfoc hm) (by simp)), ?_, by simp, by simp,
        ?_, ?_⟩
      · subst hm
        obtain ⟨hc, hr, -, hl⟩ | ⟨hc, hcall, -, hk⟩ := hw
        · refine .inl ⟨hc, everywhere_landed ht hfirst (hl rfl) hr fun pre post hp u hu => ?_⟩
          exact (hafter pre post hp u hu).cancelled (by rw [hfoc rfl, hc])
        · refine .inr ⟨hc, ?_, fun hcache => ?_⟩
          · cases drain <;> exact hcall
          · obtain ⟨hr, -, hl⟩ := hk hcache
            refine everywhere_landed ht hfirst (hl rfl) hr fun pre post hp u hu => ?_
            exact (hafter pre post hp u hu).settled (by rw [hfoc rfl, hc]) hcache
      · intro _ hc u hu c
        exact h.trail.noFail _ hmem (by rw [hfoc hm, hc]) u (mem_of_eraseIdx hu) c
      · intro hc _
        obtain ⟨hk, hsame⟩ := h.trail.alone _ hmem (by simp [Task.settles, hfoc hm, hc])
        refine ⟨?_, fun u hu hs' => ?_⟩
        · rintro rfl
          exact hk (calls_on hm)
        · rw [hsame u (mem_of_eraseIdx hu) hs']
          cases drain <;> simp [Task.calls, hm]
    · refine hrest.afterSettle fun hm hd => ?_
      subst hd
      exact h.doomed_of_call htext ht hm
  | clearing =>
    cases drain with
    | none => exact hrest.ready
    | some d =>
      have hgo : item.message = m → Going m { w with tasks := w.tasks.eraseIdx j } d item ∧
          Unfailed m { w with tasks := w.tasks.eraseIdx j } := by
        intro hm
        obtain ⟨hclaim, hc, hk, hunsent⟩ := h.trail.waits _ hmem _ _ (hfoc hm)
        refine ⟨⟨?_, by rw [hc]; exact hk, by rw [hc]; rfl, hunsent⟩, fun u hu hfoc' => ?_⟩
        · simpa [Task.claims] using hclaim
        · obtain ⟨pre, post, hl, he, htake, -⟩ := tasks_split ht
          change u ∈ w.tasks.eraseIdx j at hu
          rw [he] at hu
          obtain hu | hu := List.mem_append.mp hu
          · subst hm
            have := first_of_saves hfirst htake hu
            simp [savesTo_of_focus hfoc', Stage.saves] at this
          · exact (hafter pre post hl u hu).cleared _ (hfoc hm) hfoc'
      simp only [World.saved]
      split_ifs with hok
      · exact Inv.cleared htext hrest fun hm => ⟨(hgo hm).1, fun _ => (hgo hm).2⟩
      · exact Inv.keepQueued (Inv.clearing hrest) fun hm => (hgo hm).1.claimed
  | reconciling =>
    cases drain <;> exact hrest.ready
  | _ => cases hs

theorem Inv.historyLoaded {deliverable : Bool} {outcome : Outcome} (htext : m.text ≠ "")
    (h : Inv m w (.drain d))
    (hg : item.message = m → Going m w d item ∧ item.control = some .retry) :
    Inv m (w.historyLoaded item d deliverable outcome) .nobody := by
  unfold World.historyLoaded
  split_ifs with hload
  · exact h.clearRetryFailureOf htext hg
  · exact h.clearing.keepQueued fun hm => (hg hm).1.claimed

end

end Tim2Tox.SendControl
