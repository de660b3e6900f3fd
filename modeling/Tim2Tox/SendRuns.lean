import Tim2Tox.SendCommits

set_option autoImplicit false

/-!
# Runs of the send control

Every step keeps the invariant of every message with a text, so what it says of the log and of
the two files holds after any run, restarts included.
-/
namespace Tim2Tox.SendControl
open OfflineQueue LabelledRuns

section
variable {m x : Message} {w w' : World} {item : Item} {drain : Option Drain} {s : Stage}
  {sv sv' : Save} {j : ℕ} {t t' : Task}

/-! ## A save makes progress -/

/-- The same task, further with its save. -/
structure Advances (m : Message) (t t' : Task) : Prop where
  focus : t'.focus m = t.focus m
  claims : t'.claims m = t.claims m
  calls : t'.calls m = t.calls m
  served : t'.served = t.served
  queues : t'.queues = t.queues
  savesTo : ∀ c, t'.savesTo c = t.savesTo c

theorem advances_on (hs : s.saves = true) :
    Advances m (.on s item drain sv) (.on s item drain sv') := by
  refine ⟨rfl, claims_on _ _ _ _, ?_, ?_, rfl, fun _ => rfl⟩
  · cases drain <;> rfl
  · simp [Task.served, hs]

theorem advances_background {c : Conversation} :
    Advances m (.background c sv) (.background c sv') :=
  ⟨rfl, rfl, rfl, rfl, rfl, fun _ => rfl⟩

theorem mem_swap {pre post : List Task} (hl : w.tasks = pre ++ t :: post) {u : Task}
    (hu : u ∈ pre ++ t' :: post) :
    u ∈ w.tasks ∧ (u ∈ pre ∨ u ∈ post) ∨ u = t' := by
  rw [hl]
  simp only [List.mem_append, List.mem_cons] at hu ⊢
  tauto

theorem Held.advance (h : Held m w .nobody) (ht : w.tasks[j]? = some t) (ha : Advances m t t') :
    Held m { w with tasks := w.tasks.set j t' } .nobody := by
  obtain ⟨pre, post, hl, -, -, hset⟩ := tasks_split ht
  have hcount : (pre ++ t' :: post).countP (Task.holds m) = w.tasks.countP (Task.holds m) := by
    rw [hl]
    simp [List.countP_cons, Task.holds, ha.claims, ha.calls]
  have ht' : t ∈ w.tasks := List.mem_of_getElem? ht
  rw [hset]
  refine ⟨hcount ▸ h.excl, ?_, ?_, by simp [Hand.calls], hcount ▸ h.unknown, ?_⟩
  · rw [h.claimed, hl]
    simp [or_and_right, exists_or, ha.claims]
  · intro u hu hc hadd
    obtain ⟨hu, -⟩ | rfl := mem_swap hl hu
    · exact h.ops u hu hc hadd
    · exact h.ops t ht' (ha.calls ▸ hc) (ha.focus ▸ hadd)
  · intro u hu
    obtain ⟨hu, -⟩ | rfl := mem_swap hl hu
    · exact h.served u hu
    · exact ha.served ▸ h.served t ht'

theorem Sync.advance (h : Sync w) (ht : w.tasks[j]? = some t) (ha : Advances m t t')
    (hq : t.queues = false) : Sync { w with tasks := w.tasks.set j t' } := by
  obtain ⟨pre, post, hl, -, -, hset⟩ := tasks_split ht
  refine h.imp id (And.imp_right ?_)
  rintro ⟨s, i, d, sv, hfind, happ, hfile⟩
  refine ⟨s, i, d, sv, ?_, happ, hfile⟩
  rw [hl] at hfind
  change (w.tasks.set j t').find? Task.queues = _
  rw [hset]
  simpa [List.find?_append, List.find?_cons, hq, ha.queues] using hfind

section
variable {file : Rows} {ex : Conversation → Bool} {l : List Task}

/-- What a task relies on after its save, or that of another, made progress. -/
theorem Waits.advance {c : Option Control} (hw : Waits m w t c s)
    (hev : ∀ φ, Everywhere φ m w →
      Everywhere φ m { w with historyFile := file, historyExists := ex, tasks := l })
    (hclaims : t'.claims m = t.claims m) (hcalls : t'.calls m = t.calls m)
    (hrow : ∀ ρ, t'.row m = some ρ → ρ = w.rows m ∨ t.row m = some ρ)
    (hland : s.saves = true → t'.landed = true →
      t.landed = true ∧ file m = w.historyFile m ∨ t.row m = some (file m)) :
    Waits m { w with historyFile := file, historyExists := ex, tasks := l } t' c s := by
  have hsaved : ∀ {φ : Option Row → Prop}, s.saves = true → φ (w.rows m) →
      (∀ ρ, t.row m = some ρ → φ ρ) → (t.landed = true → φ (w.historyFile m)) →
      (∀ ρ, t'.row m = some ρ → φ ρ) ∧ (t'.landed = true → φ (file m)) := by
    intro φ hs hr hown hl
    refine ⟨fun ρ hρ => ?_, fun hl' => ?_⟩
    · obtain rfl | hρ := hrow ρ hρ
      · exact hr
      · exact hown ρ hρ
    · obtain ⟨hold, hf⟩ | hf := hland hs hl'
      · rw [hf]
        exact hl hold
      · exact hown _ hf
  cases s with
  | adding => exact hcalls.trans hw
  | cancelling => exact ⟨hcalls ▸ hw.1, hw.2⟩
  | retrying => exact ⟨hcalls ▸ hw.1, hev _ hw.2.1, hw.2.2⟩
  | settling =>
    obtain ⟨hc, hr, hown, hl⟩ | ⟨hc, hcall, hne, hk⟩ := hw
    · exact .inl ⟨hc, hr, hsaved rfl hr hown hl⟩
    · refine .inr ⟨hc, hcalls ▸ hcall, hne, fun hcache => ?_⟩
      obtain ⟨hr, hown, hl⟩ := hk hcache
      exact ⟨hr, hsaved rfl hr hown hl⟩
  | unqueueing =>
    obtain ⟨hc, he⟩ | ⟨hc, hcall, hk⟩ := hw
    · exact .inl ⟨hc, hev _ he⟩
    · exact .inr ⟨hc, hcalls ▸ hcall, fun hcache => hev _ (hk hcache)⟩
  | dropping | discarding => exact hw
  | loading | clearing | removing | reremoving | reconciling | failing =>
    exact ⟨hclaims ▸ hw.1, hw.2⟩

/-- A save takes the rows of now, or what it took is in the file. -/
structure Saves (m : Message) (w : World) (j : ℕ) (t t' : Task) (file : Rows) : Prop
    extends Advances m t t' where
  get : w.tasks[j]? = some t
  first : ∀ c, t.savesTo c = true → isFirst w.tasks (Task.savesTo c) j = true
  row : ∀ ρ, t'.row m = some ρ → ρ = w.rows m
  written : file m = w.historyFile m ∨ t.row m = some (file m)
  landed : t'.landed = true → t.savesTo m.conversation = true → t.row m = some (file m)

/-- Every task was there before, but for its save. -/
theorem Saves.old {pre post : List Task} (hs : Saves m w j t t' file)
    (hl : w.tasks = pre ++ t :: post) {u : Task} (hu : u ∈ pre ++ t' :: post) :
    ∃ u' ∈ w.tasks, u'.focus m = u.focus m ∧ u'.calls m = u.calls m := by
  obtain ⟨hu, -⟩ | rfl := mem_swap hl hu
  · exact ⟨u, hu, rfl, rfl⟩
  · exact ⟨t, List.mem_of_getElem? hs.get, hs.focus.symm, hs.calls.symm⟩

theorem Saves.everywhere {φ : Option Row → Prop} {pre post : List Task}
    (hs : Saves m w j t t' file) (hl : w.tasks = pre ++ t :: post) (h : Everywhere φ m w) :
    Everywhere φ m { w with historyFile := file, historyExists := ex, tasks := pre ++ t' :: post } := by
  obtain ⟨h1, h2, h3⟩ := h
  refine ⟨?_, h2, fun u hu ρ hρ => ?_⟩
  · change φ (file m)
    obtain hf | hf := hs.written
    · rw [hf]
      exact h1
    · exact h3 t (List.mem_of_getElem? hs.get) _ hf
  · obtain ⟨hu, -⟩ | rfl := mem_swap hl hu
    · exact h3 u hu ρ hρ
    · rw [hs.row ρ hρ]
      exact h2

theorem Saves.waits {pre post : List Task} {u : Task} {c : Option Control} (h : Trail m w)
    (hs : Saves m w j t t' file) (hl : w.tasks = pre ++ t :: post) (htake : w.tasks.take j = pre)
    (hafter : ∀ u ∈ post, Order m w t u) (hu : u ∈ pre ++ t' :: post)
    (hfoc : u.focus m = some (s, c)) :
    Waits m { w with historyFile := file, historyExists := ex, tasks := pre ++ t' :: post } u c s := by
  obtain ⟨hu, hside⟩ | rfl := mem_swap hl hu
  · refine (h.waits u hu s c hfoc).advance (fun φ => hs.everywhere hl) rfl rfl (fun ρ => .inr) ?_
    intro hsaves hland
    refine .inl ⟨hland, hs.written.resolve_right fun hf => ?_⟩
    -- Whoever else has landed saves to another conversation.
    have hus := (savesTo_of_focus hfoc).trans hsaves
    have hts := savesTo_of_row hf
    obtain hu | hu := hside
    · have := first_of_saves (hs.first _ hts) htake hu
      simp [hus] at this
    · have := (hafter u hu).first hland _ hus
      simp [hts] at this
  · have hold := hs.focus ▸ hfoc
    refine (h.waits t (List.mem_of_getElem? hs.get) s c hold).advance (fun φ => hs.everywhere hl)
      hs.claims hs.calls (fun ρ hρ => .inl (hs.row ρ hρ)) ?_
    intro hsaves hland
    exact .inr (hs.landed hland ((savesTo_of_focus hold).trans hsaves))

theorem Saves.order {pre post : List Task} (h : Trail m w) (hs : Saves m w j t t' file)
    (hl : w.tasks = pre ++ t :: post) (htake : w.tasks.take j = pre) :
    (pre ++ t' :: post).Pairwise
      (Order m { w with historyFile := file, historyExists := ex, tasks := pre ++ t' :: post }) := by
  have hord := h.order
  rw [hl] at hord
  obtain ⟨hpre, hrest, hacross⟩ := List.pairwise_append.mp hord
  obtain ⟨hafter, hpost⟩ := List.pairwise_cons.mp hrest
  have hsame : ∀ {a b : Task}, Order m w a b →
      Order m { w with historyFile := file, historyExists := ex, tasks := pre ++ t' :: post } a b :=
    fun hab => ⟨hab.settled, hab.cancelled, hab.cleared, hab.failed, hab.first⟩
  refine List.pairwise_append.mpr ⟨hpre.imp hsame, List.pairwise_cons.mpr ⟨?_, hpost.imp hsame⟩, ?_⟩
  · intro u hu
    have hab := hafter u hu
    refine ⟨?_, ?_, ?_, ?_, ?_⟩
    · rw [hs.focus]
      exact hab.settled
    · rw [hs.focus]
      exact hab.cancelled
    · rw [hs.focus]
      exact hab.cleared
    · rw [hs.focus]
      exact hab.failed
    · intro hul c hus
      rw [hs.savesTo]
      exact hab.first hul c hus
  · intro a hap b hb
    obtain rfl | hb := List.mem_cons.mp hb
    · have hab := hacross a hap t (by simp)
      have haw : a ∈ w.tasks := by
        rw [hl]
        exact List.mem_append_left _ hap
      refine ⟨?_, ?_, ?_, ?_, ?_⟩
      · intro hfoc hc ρ hρ
        rw [hs.row ρ hρ]
        obtain ⟨hne, -⟩ | ⟨-, -, -, hk⟩ := h.waits a haw _ _ hfoc
        · cases hne
        · exact (hk hc).1
      · intro hfoc ρ hρ
        rw [hs.row ρ hρ]
        obtain ⟨-, hr, -⟩ | ⟨hne, -⟩ := h.waits a haw _ _ hfoc
        · exact hr
        · cases hne
      · rw [hs.focus]
        exact hab.cleared
      · rw [hs.focus]
        exact hab.failed
      · intro _ c hsv
        exact first_of_saves (hs.first c (hs.savesTo c ▸ hsv)) htake hap
    · exact hsame (hacross a hap b (List.mem_cons_of_mem _ hb))

theorem Trail.advance (h : Trail m w) (hs : Saves m w j t t' file) :
    Trail m { w with historyFile := file, historyExists := ex, tasks := w.tasks.set j t' } := by
  obtain ⟨pre, post, hl, -, htake, hset⟩ := tasks_split hs.get
  have hev : ∀ {φ : Option Row → Prop}, Everywhere φ m w → Everywhere φ m
      { w with historyFile := file, historyExists := ex, tasks := pre ++ t' :: post } :=
    hs.everywhere hl
  have hafter : ∀ u ∈ post, Order m w t u := by
    have hord := h.order
    rw [hl] at hord
    exact (List.pairwise_cons.mp (List.pairwise_append.mp hord).2.1).1
  rw [hset]
  refine ⟨h.short, h.sent, hev h.proven, ?_, hs.order h hl htake, ?_, ?_, ?_, h.stays.imp hev id,
    ?_, ?_, ?_⟩
  · exact fun u hu s c hfoc => hs.waits h hl htake hafter hu hfoc
  · intro u hu hfu v hv c hfv
    obtain ⟨u', hu', hfu', -⟩ := hs.old hl hu
    obtain ⟨v', hv', hfv', -⟩ := hs.old hl hv
    exact h.noFail u' hu' (hfu'.trans hfu) v' hv' c (hfv'.trans hfv)
  · intro u hu hsu
    obtain ⟨u', hu', hfu, hcu⟩ := hs.old hl hu
    obtain ⟨hk, hsame⟩ := h.alone u' hu' (by simpa [Task.settles, hfu] using hsu)
    refine ⟨hcu ▸ hk, fun v hv hsv => ?_⟩
    obtain ⟨v', hv', hfv, hcv⟩ := hs.old hl hv
    rw [← hcv, ← hcu]
    exact hsame v' hv' (by simpa [Task.settles, hfv] using hsv)
  · exact fun c hc hd => hev (h.clean c hc hd)
  · intro hf
    have hn : NoTrace m w := by
      refine h.fresh (hf.imp id ?_)
      rintro ⟨u, hu, c, hfoc⟩
      obtain ⟨u', hu', hfu, -⟩ := hs.old hl hu
      exact ⟨u', hu', c, hfu.trans hfoc⟩
    refine ⟨hn.cache, hev hn.rows, fun u hu s c hfoc => ?_, hn.unsent⟩
    obtain ⟨u', hu', hfu, -⟩ := hs.old hl hu
    exact hn.tasks u' hu' s c (hfu.trans hfoc)
  · exact fun hq => (h.kept hq).imp id hev
  · exact fun hq => (h.doomed hq).imp id (And.imp_right hev)

theorem Inv.advance (h : Inv m w .nobody) (hs : Saves m w j t t' file) (hq : t.queues = false) :
    Inv m { w with historyFile := file, historyExists := ex, tasks := w.tasks.set j t' } .nobody := by
  have hheld := h.held.advance hs.get hs.toAdvances
  have hsync := h.sync.advance hs.get hs.toAdvances hq
  exact ⟨⟨hheld.excl, hheld.claimed, hheld.ops, hheld.opsHand, hheld.unknown, hheld.served⟩,
    h.trail.advance hs, hsync, ⟨h.law.quiet, h.law.once, h.law.life⟩⟩

end

/-! ## Steps of the tasks -/

theorem turn_saves {c : Conversation} (h : w.turn j (.on s item drain sv) = true)
    (hc : (Task.on s item drain sv).savesTo c = true) :
    isFirst w.tasks (Task.savesTo c) j = true := by
  simp only [Task.savesTo, Bool.and_eq_true, decide_eq_true_eq] at hc
  obtain ⟨hs, rfl⟩ := hc
  simpa [World.turn, queues_of_saves hs] using h

theorem saves_of_served (h : (Task.on s item drain sv).served = true)
    (hsv : sv.isWaiting = false) : s.saves = true := by
  simp only [Task.served, hsv, Bool.and_eq_true, Bool.false_or] at h
  exact h.2

theorem stepTake_inv (h : Inv m w .nobody) (hstep : stepTake w j = some w') :
    Inv m w' .nobody := by
  unfold stepTake at hstep
  split at hstep
  · rename_i c hget
    split_ifs at hstep with hturn
    cases hstep
    refine h.advance ⟨advances_background, hget, ?_, ?_, .inl rfl, by simp [Task.landed]⟩ rfl
    · intro c' hc
      simp only [Task.savesTo, decide_eq_true_eq] at hc
      exact hc ▸ hturn
    · intro ρ hρ
      simp only [Task.row] at hρ
      split_ifs at hρ
      cases hρ
      rfl
  · rename_i stage item drain hget
    split_ifs at hstep with hturn
    cases hstep
    simp only [Bool.and_eq_true] at hturn
    refine h.advance ⟨advances_on hturn.1, hget, fun c => turn_saves hturn.2, ?_, .inl rfl,
      by simp [Task.landed]⟩ (queues_of_saves hturn.1)
    intro ρ hρ
    simp only [Task.row] at hρ
    split_ifs at hρ
    cases hρ
    rfl
  · cases hstep

theorem land_eq (w : World) (c : Conversation) (rows : Rows) (l : List Task) :
    { w.land c rows with tasks := l } =
      { w with
        historyFile := fun m => if m.conversation = c then rows m else w.historyFile m
        historyExists := Function.update w.historyExists c true
        tasks := l } := rfl

/-- A history save replaces the file. -/
theorem Inv.land {c : Conversation} {rows : Rows} (h : Inv m w .nobody) (ha : Advances m t t')
    (hget : w.tasks[j]? = some t) (hq : t.queues = false)
    (hfirst : ∀ c, t.savesTo c = true → isFirst w.tasks (Task.savesTo c) j = true)
    (hsaves : ∀ c', t.savesTo c' = true → c' = c) (hown : m.conversation = c → t.row m = some (rows m))
    (hrow : t'.row m = none) :
    Inv m { w.land c rows with tasks := w.tasks.set j t' } .nobody := by
  rw [land_eq]
  refine h.advance ⟨ha, hget, hfirst, by simp [hrow], ?_, ?_⟩ hq
  · by_cases hc : m.conversation = c
    · exact .inr (by rw [if_pos hc, hown hc])
    · exact .inl (by rw [if_neg hc])
  · intro _ hs
    have hc := hsaves _ hs
    rw [if_pos hc, hown hc]

/-- The queue file takes the mutation whose turn it is. -/
theorem Trail.write {queue : List Item} (h : Trail m w)
    (hkept : .queued m ∈ w.log → controls m queue ≠ [] ∨ Everywhere (Fine w m) m w)
    (hdoomed : .cancelResult m .success ∈ w.log → controls m queue = [some .cancelled] ∨
      controls m queue = [] ∧ Everywhere IsCancelled m w) :
    Trail m { w with queueFile := queue, installing := true } :=
  ⟨h.short, h.sent, h.proven, h.waits,
    h.order.imp fun hab => ⟨hab.settled, hab.cancelled, hab.cleared, hab.failed, hab.first⟩,
    h.noFail, h.alone, h.clean, h.stays, fun hf => ⟨(h.fresh hf).cache, (h.fresh hf).rows,
    (h.fresh hf).tasks, (h.fresh hf).unsent⟩, hkept, hdoomed⟩

theorem Inv.write_own (htext : m.text ≠ "") (h : Inv m w .nobody) (hm : item.message = m)
    (hmem : Task.on s item drain sv ∈ w.tasks) (hs : s.queues = true) (hi : w.installing = false)
    (happ : (World.mutation s item).applies w.cache = true) :
    Trail m { w with queueFile := (World.mutation s item).apply w.cache, installing := true } := by
  have hfoc : Task.focus m (.on s item drain sv) = some (s, item.control) := by
    simp [Task.focus, hm]
  have hw := h.trail.waits _ hmem _ _ hfoc
  have hchanged := controls_mutation m s item w.cache
  rw [if_pos hm] at hchanged
  have hfile : controls m w.queueFile = controls m w.cache := by
    obtain ⟨-, hfile⟩ | ⟨hi', -⟩ := h.sync
    · rw [hfile]
    · simp [hi] at hi'
  have hdoom : ∀ c, controls m w.cache = [c] → c ≠ some .cancelled →
      .cancelResult m .success ∉ w.log := by
    intro c hk hc hmem
    obtain hd | ⟨hd, -⟩ := h.trail.doomed hmem
    · rw [hfile, hk] at hd
      cases hd
      exact hc rfl
    · rw [hfile, hk] at hd
      cases hd
  have hclean : Clean m w → controls m w.cache = [] → .cancelResult m .success ∉ w.log := by
    intro hcl hk hmem
    obtain hd | ⟨-, hd⟩ := h.trail.doomed hmem
    · rw [hfile, hk] at hd
      cases hd
    · exact hcl.2.1 hd.2.1
  have hdisp : dispatchable item.control = true → item.control ≠ some .cancelled := by
    intro hd hc
    simp [hc, dispatchable] at hd
  cases s with
  | adding =>
    have hn := h.trail.fresh (.inr ⟨_, hmem, _, hfoc⟩)
    have hcl : Clean m w := hn.rows.mono (by rintro _ rfl; simp [IsCancelled])
    refine h.trail.write (fun _ => .inl ?_) fun hd => absurd hd (hclean hcl hn.cache)
    simp [hchanged, changed]
  | cancelling =>
    obtain ⟨-, hk, hd, -⟩ := hw
    refine h.trail.write (fun _ => .inl ?_) fun hd' => absurd hd' (hdoom _ hk (hdisp hd))
    simp [hchanged, changed, hk]
  | retrying =>
    obtain ⟨-, hcl, ⟨hc, -⟩ | ⟨hc, hk⟩⟩ := hw
    · have hk := h.trail.controls_of_applies hm happ (by simp [World.mutation, hc])
      refine h.trail.write (fun _ => .inl ?_) fun hd => absurd hd (hdoom _ hk (by simp [hc]))
      simp [hchanged, changed, hk, hc]
    · refine h.trail.write (fun _ => .inl ?_) fun hd => absurd hd (hclean hcl hk)
      simp [hchanged, changed, hk, hc]
  | failing =>
    obtain ⟨-, hk, hd, -⟩ := hw
    refine h.trail.write (fun _ => .inl ?_) fun hd' => absurd hd' (hdoom _ hk (hdisp hd))
    simp [hchanged, changed, hk]
  | unqueueing =>
    have hk := h.trail.controls_of_applies hm happ (by simp [World.mutation])
    obtain ⟨hc, he⟩ | ⟨hc, -, he⟩ := hw
    · refine h.trail.write (fun _ => .inr ?_) fun _ => .inr ⟨?_, he⟩
      · refine he.mono fun ρ hρ => .inr ?_
        cases ρ with
        | none => simp [IsCancelled] at hρ
        | some r =>
          have : r.isCancelled = true := by simpa [IsCancelled] using hρ
          simp [SaysSo, this]
      · simp [hchanged, changed, hk]
    · exact h.trail.write (fun _ => .inr (he (hc ▸ hk))) fun hd =>
        absurd hd (hdoom _ hk (by simp [hc]))
  | dropping =>
    have hk := h.trail.controls_of_applies hm happ (by simp [World.mutation])
    obtain ⟨hd, hwhy⟩ := hw
    have hsent := h.trail.sent (hwhy.resolve_right (h.trail.clean_of_dispatchable hk hd).2.1)
    exact h.trail.write (fun _ => .inr (h.trail.proven.mono fun _ _ => .inl hsent)) fun hd' =>
      absurd hd' (hdoom _ hk (hdisp hd))
  | discarding => exact absurd hw htext
  | removing | reremoving =>
    have hk := h.trail.controls_of_applies hm happ (by simp [World.mutation])
    obtain ⟨-, hd, hdone⟩ := hw
    have hsent := h.trail.sent hdone
    exact h.trail.write (fun _ => .inr (h.trail.proven.mono fun _ _ => .inl hsent)) fun hd' =>
      absurd hd' (hdoom _ hk (hdisp hd))
  | settling | loading | clearing | reconciling => cases hs

theorem turn_queues (h : w.turn j (.on s item drain sv) = true) (hs : s.queues = true) :
    isFirst w.tasks Task.queues j = true := by
  simpa [World.turn, hs] using h

theorem find_first (hget : w.tasks[j]? = some t) (hq : t.queues = true)
    (hfirst : isFirst w.tasks Task.queues j = true) : w.tasks.find? Task.queues = some t := by
  obtain ⟨pre, post, hl, -, htake, -⟩ := tasks_split hget
  have hpre : pre.find? Task.queues = none := by
    rw [isFirst, htake] at hfirst
    rw [List.find?_eq_none]
    intro u hu
    have := List.all_eq_true.mp hfirst u hu
    simpa using this
  rw [hl, List.find?_append, hpre]
  simp [hq]

theorem Inv.write (htext : m.text ≠ "") (h : Inv m w .nobody)
    (hget : w.tasks[j]? = some (.on s item drain sv)) (hs : s.queues = true)
    (hfirst : isFirst w.tasks Task.queues j = true) (hi : w.installing = false)
    (happ : (World.mutation s item).applies w.cache = true) :
    Inv m { w with
      queueFile := (World.mutation s item).apply w.cache
      installing := true
      log := if s = .adding then w.log ++ [.queued item.message] else w.log } .nobody := by
  have hmem : Task.on s item drain sv ∈ w.tasks := List.mem_of_getElem? hget
  have hcontrols := controls_mutation m s item w.cache
  have hfile : controls m w.queueFile = controls m w.cache := by
    obtain ⟨-, hfile⟩ | ⟨hi', -⟩ := h.sync
    · rw [hfile]
    · simp [hi] at hi'
  have htrail : Trail m
      { w with queueFile := (World.mutation s item).apply w.cache, installing := true } := by
    by_cases hm : item.message = m
    · exact h.write_own htext hm hmem hs hi happ
    · refine h.trail.frame ⟨⟨List.Sublist.refl _, rfl, rfl⟩, Logged.same rfl, rfl, ?_, rfl, rfl⟩
      change controls m ((World.mutation s item).apply w.cache) = _
      rw [hcontrols, if_neg hm, hfile]
  have hinv : Inv m
      { w with queueFile := (World.mutation s item).apply w.cache, installing := true } .nobody :=
    ⟨⟨h.held.excl, h.held.claimed, h.held.ops, h.held.opsHand, h.held.unknown, h.held.served⟩, htrail,
      .inr ⟨rfl, s, item, drain, sv, find_first hget hs hfirst, happ, rfl⟩,
      ⟨h.law.quiet, h.law.once, h.law.life⟩⟩
  by_cases hadd : s = .adding
  · simp only [if_pos hadd]
    refine ⟨⟨h.held.excl, h.held.claimed, h.held.ops, h.held.opsHand, h.held.unknown, h.held.served⟩,
      htrail.logs ?_ (by simp), hinv.sync, hinv.law.logs (by simp) (by simp)⟩
    intro he
    cases he
    change controls item.message ((World.mutation s item).apply w.cache) ≠ []
    rw [hcontrols, if_pos rfl, hadd]
    simp [changed]
  · simp only [if_neg hadd]
    exact hinv

theorem stepWrite_inv (htext : m.text ≠ "") (h : Inv m w .nobody) (hstep : stepWrite w j = some w') :
    Inv m w' .nobody := by
  unfold stepWrite at hstep
  split at hstep
  · rename_i c rows hget
    split_ifs at hstep with hturn
    cases hstep
    refine h.land advances_background hget rfl ?_ ?_ ?_ rfl
    · intro c' hc
      simp only [Task.savesTo, decide_eq_true_eq] at hc
      exact hc ▸ hturn
    · intro c' hc
      simp only [Task.savesTo, decide_eq_true_eq] at hc
      exact hc.symm
    · intro hc
      simp [Task.row, hc]
  · rename_i stage item drain save hget
    split at hstep
    · rename_i rows
      split_ifs at hstep with hturn
      cases hstep
      have hs := saves_of_served (h.held.served _ (List.mem_of_getElem? hget)) rfl
      refine h.land (advances_on hs) hget (queues_of_saves hs) (fun c => turn_saves hturn) ?_ ?_ rfl
      · intro c' hc
        simp only [Task.savesTo, Bool.and_eq_true, decide_eq_true_eq] at hc
        exact hc.2.symm
      · intro hc
        simp [Task.row, hs, hc]
    · simp only [Option.ite_none_right_eq_some, Option.some.injEq, Bool.and_eq_true,
        Bool.not_eq_true'] at hstep
      obtain ⟨⟨⟨⟨hs, hturn⟩, hi⟩, happ⟩, rfl⟩ := hstep
      exact h.write htext hget hs (turn_queues hturn hs) hi happ
  · cases hstep

theorem stepFail_inv (htext : m.text ≠ "") (h : Inv m w .nobody) (hstep : stepFail w j = some w') :
    Inv m w' .nobody := by
  unfold stepFail at hstep
  split at hstep
  · cases hstep
  · rename_i c save _ hget
    split_ifs at hstep with hturn
    cases hstep
    exact h.without hget (.inl rfl)
  · cases hstep
  · rename_i stage item drain save _ hget
    split_ifs at hstep with hturn hq happ hs
    · cases hstep
      simp only [Bool.and_eq_true, Bool.not_eq_true'] at happ
      refine Inv.mutated (h.without hget (.inr happ.1)) (h.held.served _ (List.mem_of_getElem? hget)) fun hm => ?_
      exact goes_undone h hm hget happ.1 (by simp)
    · cases hstep
      refine h.saved htext hget hs ?_ (by simp)
      exact turn_saves hturn (by simp [Task.savesTo, hs])
  · cases hstep

theorem stepResume_inv {deliverable : Bool} {outcome : Outcome} (htext : m.text ≠ "")
    (h : Inv m w .nobody) (hstep : stepResume w j deliverable outcome = some w') :
    Inv m w' .nobody := by
  unfold stepResume at hstep
  split at hstep
  · rename_i d hget
    cases hstep
    exact Inv.next htext (h.without hget (.inl rfl))
  · rename_i c hget
    split_ifs at hstep with hturn
    cases hstep
    exact h.without hget (.inl rfl)
  · rename_i item d save hget
    cases hstep
    refine Inv.historyLoaded htext (h.without hget (.inl rfl)) fun hm => ?_
    have hfoc : Task.focus m (.on .loading item (some d) save) = some (.loading, item.control) := by
      simp [Task.focus, hm]
    obtain ⟨hclaim, hc, hk, hunsent⟩ := h.trail.waits _ (List.mem_of_getElem? hget) _ _ hfoc
    refine ⟨⟨?_, by rw [hc]; exact hk, by rw [hc]; rfl, hunsent⟩, hc⟩
    simpa [Task.claims] using hclaim
  · rename_i stage item drain save _ hget
    split_ifs at hstep with hturn hq hi happ
    · cases hstep
      have hfirst := turn_queues hturn hq
      refine Inv.mutated (h.commit htext hget hq hfirst hi) (h.held.served _ (List.mem_of_getElem? hget)) fun hm => ?_
      exact goes_done h hm hget hq hfirst hi
    · cases hstep
      have hi : w.installing = false := by simpa using hi
      refine Inv.mutated (h.without hget (.inr hi)) (h.held.served _ (List.mem_of_getElem? hget)) fun hm => ?_
      exact goes_undone h hm hget hi (by simp)
    · split at hstep
      · cases hstep
        have hs := saves_of_served (h.held.served _ (List.mem_of_getElem? hget)) rfl
        refine h.saved htext hget hs ?_ (fun _ => rfl)
        exact turn_saves hturn (by simp [Task.savesTo, hs])
      · cases hstep
  · cases hstep

/-! ## Calls and what happens outside -/

/-- The first task of a message queues it. -/
theorem Trail.fresh_push (h : Trail m w) (hn : NoTrace m w)
    (hnone : ∀ u ∈ w.tasks, ∀ f, u.focus m ≠ some f) :
    Trail m (World.push { w with known := Function.update w.known m true }
      (.on .adding { message := m } none .waiting)) := by
  have hev : ∀ {φ : Option Row → Prop}, Everywhere φ m w → Everywhere φ m
      (World.push { w with known := Function.update w.known m true }
        (.on .adding { message := m } none .waiting)) := by
    intro φ he
    exact (everywhere_push (w := { w with known := Function.update w.known m true })
      (by simp [Task.row])).mpr he
  have hmem : ∀ u ∈ w.tasks ++ [Task.on .adding { message := m } none .waiting], ∀ s c,
      u.focus m = some (s, c) → u = .on .adding { message := m } none .waiting ∧ s = .adding ∧
        c = none := by
    intro u hu s c hfoc
    obtain hu | hu := List.mem_append.mp hu
    · exact absurd hfoc (hnone u hu _)
    · obtain rfl := List.mem_singleton.mp hu
      simp only [Task.focus, if_true, Option.some.injEq, Prod.mk.injEq] at hfoc
      exact ⟨rfl, hfoc.1.symm, hfoc.2.symm⟩
  have hclean : Clean m w := hn.rows.mono (by rintro _ rfl; simp [IsCancelled])
  refine ⟨h.short, h.sent, hev h.proven, ?_, ?_, ?_, ?_, fun c _ _ => hev hclean, .inl (hev hclean),
    fun _ => ?_, fun hq => (h.kept hq).imp id hev,
    fun hq => (h.doomed hq).imp id (And.imp_right hev)⟩
  · intro u hu s c hfoc
    obtain ⟨rfl, rfl, rfl⟩ := hmem u hu s c hfoc
    exact calls_on rfl
  · refine List.pairwise_append.mpr ⟨?_, List.pairwise_singleton _ _, ?_⟩
    · exact h.order.imp fun hab => ⟨hab.settled, hab.cancelled, hab.cleared, hab.failed, hab.first⟩
    · intro a ha b hb
      obtain rfl := List.mem_singleton.mp hb
      refine ⟨?_, ?_, ?_, ?_, by simp [Task.landed]⟩
      · exact fun hfoc => absurd hfoc (hnone a ha _)
      · exact fun hfoc => absurd hfoc (hnone a ha _)
      · exact fun c hfoc => absurd hfoc (hnone a ha _)
      · exact fun c hfoc => absurd hfoc (hnone a ha _)
  · intro u hu hfoc
    obtain ⟨-, hs, -⟩ := hmem u hu _ _ hfoc
    cases hs
  · intro u hu hs
    simp only [Task.settles, Bool.or_eq_true, decide_eq_true_eq] at hs
    obtain hfoc | hfoc := hs
    · obtain ⟨-, hs, -⟩ := hmem u hu _ _ hfoc
      cases hs
    · obtain ⟨-, hs, -⟩ := hmem u hu _ _ hfoc
      cases hs
  · exact ⟨hn.cache, hev hn.rows, fun u hu s c hfoc => (hmem u hu s c hfoc).2, hn.unsent⟩

/-- A new text is on its way to the queue. -/
theorem queueText_inv (h : Inv m w .nobody) (hknown : w.known x = false) :
    Inv m (World.push { w with known := Function.update w.known x true }
      (.on .adding { message := x } none .waiting)) .nobody := by
  by_cases hm : x = m
  swap
  · have hsame : Function.update w.known x true m = w.known m := Function.update_of_ne (Ne.symm hm) _ _
    have hinv : Inv m { w with known := Function.update w.known x true } .nobody :=
      ⟨⟨h.held.excl, h.held.claimed, h.held.ops, h.held.opsHand, fun hk => h.held.unknown (hsame ▸ hk), h.held.served⟩,
        h.trail.frame ⟨⟨List.Sublist.refl _, rfl, rfl⟩, Logged.same rfl, rfl, rfl, rfl, hsame⟩,
        h.sync, ⟨h.law.quiet, h.law.once, h.law.life⟩⟩
    refine ⟨hinv.held.push rfl rfl ?_, hinv.trail.push ?_, hinv.sync.push,
      ⟨h.law.quiet, h.law.once, h.law.life⟩⟩
    · simp [Task.calls, Hand.calls, hm]
    · exact joins_elsewhere (by simp [Task.focus, hm]) (by simp [Task.row]) rfl
  subst hm
  have hn := h.trail.fresh (.inl hknown)
  have hzero : w.tasks.countP (Task.holds x) = 0 := by
    have := h.held.unknown hknown
    omega
  have hnone : ∀ u ∈ w.tasks, ∀ f, u.focus x ≠ some f := by
    rintro u hu ⟨s, c⟩ hfoc
    obtain ⟨rfl, -⟩ := hn.tasks u hu s c hfoc
    have hcall : u.calls x = true := h.trail.waits u hu _ _ hfoc
    have := List.countP_eq_zero.mp hzero u hu
    simp [Task.holds, hcall] at this
  refine ⟨?_, ?_, Sync.push h.sync, ⟨h.law.quiet, h.law.once, h.law.life⟩⟩
  · refine ⟨?_, ?_, ?_, by simp [Hand.calls], by simp [World.push], ?_⟩
    · simp [World.push, hzero, Task.holds, Task.calls, Hand.holds, Hand.claims, Hand.calls]
    · change w.claimedSends x = true ↔ _
      rw [h.held.claimed]
      simp [World.push, or_and_right, exists_or, Task.claims]
    · intro u hu hc hadd
      obtain hu | hu := List.mem_append.mp hu
      · exact h.held.ops u hu hc hadd
      · obtain rfl := List.mem_singleton.mp hu
        exact absurd (by simp [Task.focus]) (hadd none)
    · intro u hu
      obtain hu | hu := List.mem_append.mp hu
      · exact h.held.served u hu
      · obtain rfl := List.mem_singleton.mp hu
        rfl
  · exact h.trail.fresh_push hn hnone

theorem sendPending_inv {d : Drain} (h : Inv m w .nobody) (hd : d.claimed = []) :
    Inv m (w.push (.ready d)) .nobody :=
  ⟨h.held.push rfl (by simp [Task.claims, Hand.claims, hd]) rfl,
    h.trail.push (joins_elsewhere rfl (by simp [Task.row]) rfl), h.sync.push,
    ⟨h.law.quiet, h.law.once, h.law.life⟩⟩

theorem saveHistory_inv {c : Conversation} (h : Inv m w .nobody) (hsv : sv.isWaiting = true ∨ sv = .taken w.rows) :
    Inv m (w.push (.background c sv)) .nobody := by
  refine ⟨h.held.pushBackground, h.trail.push (joins_elsewhere rfl ?_ ?_), h.sync.push,
    ⟨h.law.quiet, h.law.once, h.law.life⟩⟩
  · intro ρ hρ
    obtain hsv | rfl := hsv
    · cases sv with
      | waiting => cases hρ
      | taken | landed => cases hsv
    · simp only [Task.row] at hρ
      split_ifs at hρ
      cases hρ
      rfl
  · obtain hsv | rfl := hsv
    · cases sv with
      | waiting => rfl
      | taken | landed => cases hsv
    · rfl

theorem queuedItem_none (h : w.queuedItem m = none) : controls m w.cache = [] := by
  unfold controls
  rw [List.map_eq_nil_iff, List.filter_eq_nil_iff]
  exact fun item hmem => List.find?_eq_none.mp h item hmem

theorem queuedItem_some (h : w.queuedItem m = some item) : item ∈ w.cache ∧ item.message = m :=
  ⟨List.mem_of_find?_eq_some h, by simpa using List.find?_some h⟩

theorem cancel_inv (h : Inv m w .nobody) : Inv m (w.cancelQueuedMessage x) .nobody := by
  unfold World.cancelQueuedMessage
  cases hres : w.cancellable x with
  | error result =>
    refine h.logs (by simp) ?_ (by simp) (by simp)
    intro he
    cases he
    unfold World.cancellable at hres
    split_ifs at hres
    · cases hres
    · cases hres
    · split at hres
      · split_ifs at hres
        cases hres
      · cases hres
  | ok item =>
    unfold World.cancellable at hres
    split_ifs at hres with hbusy hops
    split at hres
    · rename_i item' hqueued
      split_ifs at hres with hdisp
      cases hres
      obtain ⟨hmem, rfl⟩ := queuedItem_some hqueued
      simp only [Bool.or_eq_true, not_or, Bool.not_eq_true] at hbusy
      have hops' : w.sendControlOps item.message = false := by simpa using hops
      have hknown : item.message = m → _ := fun hm =>
        known_of_traced (h.trail.traced_of_mem hmem hm)
      have hguard := h.held.guard (x := item.message) fun hm => by
        subst hm
        exact ⟨hbusy.1, hops', (hknown rfl).1, (hknown rfl).2⟩
      refine ⟨hguard.push rfl rfl rfl, h.trail.ops.push (joins_on (by simp) fun hm => ?_),
        Sync.push h.sync, ⟨h.law.quiet, h.law.once, h.law.life⟩⟩
      subst hm
      have hk := controls_of_mem h.trail hmem rfl
      exact ⟨(h.trail.traced_of_mem hmem rfl :), ⟨by simp [Task.calls], hk, hdisp, hbusy.2⟩, by simp,
        by simp, by simp, by simp⟩
    · cases hres

theorem retry_inv (h : Inv m w .nobody) : Inv m (w.retryFailedMessage x) .nobody := by
  unfold World.retryFailedMessage
  cases hres : w.retryable x with
  | none => exact h
  | some item =>
    unfold World.retryable at hres
    split_ifs at hres with hguard
    simp only [Bool.and_eq_true, Bool.not_eq_true'] at hguard
    obtain ⟨⟨hrow, hclaim⟩, hops⟩ := hguard
    obtain ⟨r, hown, hr⟩ := (Option.any_eq_true _ _).mp hrow
    simp only [Bool.and_eq_true, Bool.not_eq_true'] at hr
    have hrows := (ownRow_some hown).1
    have hitem : item.message = x ∧ (x = m → item.control = some .failed ∧
        controls m w.cache = [some .failed] ∨ item.control = some .retry ∧ controls m w.cache = []) := by
      split at hres
      · rename_i item' hqueued
        split_ifs at hres with hc
        cases hres
        obtain ⟨hmem, rfl⟩ := queuedItem_some hqueued
        exact ⟨rfl, fun hm => .inl ⟨hc, hc ▸ controls_of_mem h.trail hmem hm⟩⟩
      · rename_i hqueued
        cases hres
        refine ⟨rfl, fun hm => .inr ⟨rfl, ?_⟩⟩
        subst hm
        exact queuedItem_none hqueued
    obtain ⟨rfl, hitem⟩ := hitem
    have htraced : item.message = m → ¬Fresh m w := by
      rintro rfl
      exact h.trail.traced_of_row (by simp [hrows])
    have hheld := h.held.guard (x := item.message) fun hm => by
      have hknown := known_of_traced (htraced hm)
      subst hm
      exact ⟨hclaim, hops, hknown.1, hknown.2⟩
    refine ⟨hheld.push rfl rfl rfl, h.trail.ops.push (joins_on (by simp) fun hm => ?_),
      Sync.push h.sync, ⟨h.law.quiet, h.law.once, h.law.life⟩⟩
    have hclean : Clean m w := by
      refine h.trail.stays.resolve_right fun hc => ?_
      subst hm
      simp [IsCancelled, hrows, hr.2] at hc
    refine ⟨htraced hm, ⟨by simp [Task.calls, hm], hclean, ?_⟩, by simp, by simp, by simp, by simp⟩
    exact (hitem hm).imp (And.imp_right .inr) id

/-! ## Rows -/

theorem restored_cancelled {r : Row} : (w.restored m r).isCancelled = r.isCancelled := by
  unfold World.restored
  split_ifs <;> rfl

theorem restored_proven {r : Row} : (w.restored m r).deliveryProven = r.deliveryProven := by
  unfold World.restored
  split_ifs <;> rfl

/-- A row changes at all only while its send is queued and was not made. -/
theorem restored_eq {r : Row} (h : w.restored m r ≠ r) :
    w.dispatchedSends m = false ∧ ∃ c ∈ controls m w.cache, dispatchable c = true := by
  unfold World.restored at h
  split_ifs at h with hguard
  · simp only [Bool.and_eq_true, Bool.not_eq_true', List.any_eq_true, decide_eq_true_eq] at hguard
    obtain ⟨⟨-, hunsent⟩, item, hmem, hm, hd⟩ := hguard
    subst hm
    exact ⟨hunsent, item.control, mem_controls.mpr hmem, hd⟩
  · exact absurd rfl h

theorem Inv.file_of_queued {c : Option Control} (htext : m.text ≠ "") (h : Inv m w .nobody)
    (hc : c ∈ controls m w.cache) (hd : dispatchable c = true) (hunsent : w.dispatchedSends m = false) :
    controls m w.cache = [c] ∧ controls m w.queueFile ≠ [] := by
  have hk : controls m w.cache = [c] := by
    have hshort := h.trail.short
    generalize controls m w.cache = k at hc hshort
    match k, hc, hshort with
    | [c'], hc, _ => rw [List.mem_singleton.mp hc]
    | _ :: _ :: _, _, hshort => simp at hshort
  refine ⟨hk, ?_⟩
  obtain hfile | ⟨-, -, -, c', hfile⟩ := h.sync.file_of_dispatchable htext h.trail hk hd hunsent
  · simp [hfile]
  · simp [hfile]

theorem restoreQueuedPending_inv {c : Conversation} (htext : m.text ≠ "") (h : Inv m w .nobody) :
    Inv m (w.restoreQueuedPending c) .nobody := by
  refine ⟨⟨h.held.excl, h.held.claimed, h.held.ops, h.held.opsHand, h.held.unknown, h.held.served⟩,
    ?_, h.sync, ⟨h.law.quiet, h.law.once, h.law.life⟩⟩
  by_cases hsame : (w.restoreQueuedPending c).rows m = w.rows m
  · exact h.trail.frame ⟨⟨List.Sublist.refl _, hsame, rfl⟩, Logged.same rfl, rfl, rfl, rfl, rfl⟩
  have hrows : (w.restoreQueuedPending c).rows m =
      if m.conversation = c then (w.rows m).map (w.restored m) else w.rows m := rfl
  rw [hrows] at hsame
  split_ifs at hsame hrows with hc
  · cases hr : w.rows m with
    | none => simp [hr] at hsame
    | some r =>
      rw [hr] at hsame hrows
      obtain ⟨hunsent, k, hk, hd⟩ := restored_eq (w := w) (m := m) (r := r) (by simpa using hsame)
      obtain ⟨hqueued, hfile⟩ := h.file_of_queued htext hk hd hunsent
      have hset : Trail m (w.setRow m (w.restored m r)) := by
        refine h.trail.setRow fun _ => ⟨?_, .inr ⟨?_, hfile⟩, ?_, ?_, ?_⟩
        · intro hcan
          rw [restored_cancelled]
          simpa [IsCancelled, hr] using hcan
        · rw [hqueued]
          intro hk'
          cases hk'
          cases hd
        · intro hcan
          rw [restored_cancelled] at hcan
          exact .inl (by simp [IsCancelled, hr, hcan])
        · intro hp
          rw [restored_proven] at hp
          exact .inl (by simp [hr, hp])
        · exact h.trail.traced_of_row (by simp [hr])
      refine hset.frame ⟨⟨List.Sublist.refl _, ?_, rfl⟩, Logged.same rfl, rfl, rfl, rfl, rfl⟩
      rw [hrows]
      simp [World.setRow]
  · exact absurd rfl hsame

/-- A row that stays cancelled or not, and keeps saying that it failed unless it was delivered. -/
theorem rowEvent_inv {r r' : Row} (h : Inv m w .nobody) (hown : w.ownRow x = some r)
    (hcan : r'.isCancelled = r.isCancelled)
    (hfine : x = m → Sent w m ∨ (r.isFailed = true → r'.isFailed = true))
    (hproven : x = m → r'.deliveryProven = true → r.deliveryProven = true ∨ Sent w m) :
    Inv m (w.setRow x r') .nobody := by
  refine h.setRow fun hm => ?_
  subst hm
  have hr := (ownRow_some hown).1
  refine ⟨?_, .inl ?_, ?_, ?_, h.trail.traced_of_row (by simp [hr])⟩
  · intro hc
    rw [hcan]
    simpa [IsCancelled, hr] using hc
  · rintro (hs | hs)
    · exact .inl hs
    · refine (hfine rfl).imp id fun hfail => ?_
      simp only [SaysSo, hr, Option.any_some, Bool.or_eq_true] at hs
      simp only [SaysSo, Option.any_some, Bool.or_eq_true, hcan]
      exact hs.imp hfail id
  · intro hc
    rw [hcan] at hc
    exact .inl (by simp [IsCancelled, hr, hc])
  · intro hp
    exact (hproven rfl hp).imp (fun hold => by simp [hr, hold]) id

/-! ## A new process -/

theorem restart_rows : w.restart.rows m = (w.historyFile m).map fun r =>
    World.restored { (w.restart) with rows := fun _ => none } m { r with isPending := false } := by
  change ((w.historyFile m).map _).map _ = _
  rw [Option.map_map]
  rfl

theorem restart_cancelled : IsCancelled (w.restart.rows m) ↔ IsCancelled (w.historyFile m) := by
  rw [restart_rows]
  cases w.historyFile m <;> simp [IsCancelled, restored_cancelled]

theorem restart_everywhere {φ : Option Row → Prop} (hfile : φ (w.historyFile m))
    (hrows : φ (w.restart.rows m)) : Everywhere φ m w.restart :=
  ⟨hfile, hrows, by simp [World.restart]⟩

/-- With no queued send, the rows of a new process are those of the file. -/
theorem restart_saysSo (hk : controls m w.queueFile = []) (h : SaysSo (w.historyFile m)) :
    SaysSo (w.restart.rows m) := by
  rw [restart_rows]
  cases hr : w.historyFile m with
  | none => simp [hr, SaysSo] at h
  | some r =>
    have hsame : World.restored { (w.restart) with rows := fun _ => none } m
        { r with isPending := false } = { r with isPending := false } := by
      by_contra hne
      obtain ⟨-, c, hc, -⟩ := restored_eq hne
      change c ∈ controls m w.queueFile at hc
      simp [hk] at hc
    rw [Option.map_some, hsame]
    simpa [hr, SaysSo] using h

theorem Lawful.restart (h : Lawful m w) : Lawful m w.restart := by
  have hlog := h.logs (e := .restarted) (by simp) (by simp)
  refine ⟨hlog.quiet, hlog.once, fun pre life heq hno hmem => ?_⟩
  obtain ⟨life', rfl, -⟩ := log_last heq (List.ne_nil_of_mem hmem)
  exact absurd (by simp) hno

theorem restart_inv (h : Inv m w .nobody) : Inv m w.restart .nobody := by
  obtain ⟨hshort, hclean⟩ := h.sync.file_short h.trail
  have hcl : ¬IsCancelled (w.historyFile m) → Clean m w.restart := by
    intro hno
    exact restart_everywhere hno fun hc => hno (restart_cancelled.mp hc)
  have hlog : ∀ {e}, e ∈ w.log → e ∈ w.restart.log := fun he => List.mem_append_left _ he
  have hold : ∀ {e}, e ≠ .restarted → e ∈ w.restart.log → e ∈ w.log := by
    intro e hne he
    exact (List.mem_append.mp he).resolve_right fun hlast => hne (List.mem_singleton.mp hlast)
  refine ⟨⟨Nat.zero_le _, ?_, ?_, by simp [Hand.calls], fun _ => rfl, ?_⟩, ?_, .inl ⟨rfl, rfl⟩,
    h.law.restart⟩
  · simp [World.restart, Hand.claims]
  · simp [World.restart]
  · simp [World.restart]
  refine ⟨hshort, by simp [World.restart], ?_, by simp [World.restart], .nil,
    by simp [World.restart], by simp [World.restart], ?_, ?_, ?_, ?_, ?_⟩
  · have hfile := h.trail.proven.1
    refine restart_everywhere (fun hp => hlog (hfile hp)) fun hp => hlog (hfile ?_)
    rw [restart_rows] at hp
    cases hr : w.historyFile m with
    | none => simp [hr] at hp
    | some r =>
      rw [hr, Option.map_some, Option.any_some, restored_proven] at hp
      exact hp
  · exact fun c hc hne => hcl (hclean c hc hne).1
  · by_cases hc : IsCancelled (w.historyFile m)
    · exact .inr (restart_cancelled.mpr hc)
    · exact .inl (hcl hc)
  · rintro (hk | ⟨t, ht, -⟩)
    · have hn := h.trail.fresh (.inl hk)
      have hzero := h.held.unknown hk
      have hfile : controls m w.queueFile = [] := by
        obtain hfile | ⟨t, ht, s, c, hfoc, -⟩ := h.sync.file (m := m)
        · exact hfile.trans hn.cache
        · obtain ⟨rfl, -⟩ := hn.tasks t ht s c hfoc
          have hcall : t.calls m = true := h.trail.waits t ht _ _ hfoc
          have := List.countP_eq_zero.mp (Nat.eq_zero_of_add_eq_zero hzero).1 t ht
          simp [Task.holds, hcall] at this
      have hnone : w.historyFile m = none := hn.rows.1
      refine ⟨hfile, restart_everywhere hnone ?_, by simp [World.restart], rfl⟩
      rw [restart_rows, hnone]
      rfl
    · simp [World.restart] at ht
  · intro hq
    by_cases hk : controls m w.queueFile = []
    · refine .inr ?_
      have hfine := ((h.trail.kept (hold (by simp) hq)).resolve_left fun hne => hne hk).1
      refine restart_everywhere (hfine.imp hlog id) ?_
      exact hfine.imp hlog (restart_saysSo hk)
    · exact .inl hk
  · intro hq
    refine (h.trail.doomed (hold (by simp) hq)).imp id (And.imp_right fun he => ?_)
    exact restart_everywhere he.1 (restart_cancelled.mpr he.1)

/-! ## Runs -/

theorem step_inv {e : Event} (htext : m.text ≠ "") (h : Inv m w .nobody) (hstep : step w e = some w') :
    Inv m w' .nobody := by
  cases e with
  | queueText x =>
    simp only [step] at hstep
    split_ifs at hstep with hk
    cases hstep
    exact queueText_inv h (by simpa using hk)
  | cancelQueuedMessage x =>
    cases hstep
    exact cancel_inv h
  | retryFailedMessage x =>
    cases hstep
    exact retry_inv h
  | sendPending c =>
    cases hstep
    exact sendPending_inv h rfl
  | saveHistory c copied =>
    simp only [step] at hstep
    split_ifs at hstep
    · cases hstep
      exact saveHistory_inv h (.inr rfl)
    · cases hstep
      exact saveHistory_inv h (.inl rfl)
  | loadHistory c =>
    simp only [step] at hstep
    split_ifs at hstep
    cases hstep
    exact restoreQueuedPending_inv htext h
  | take j => exact stepTake_inv h hstep
  | write j => exact stepWrite_inv htext h hstep
  | fail j => exact stepFail_inv htext h hstep
  | resume j deliverable outcome => exact stepResume_inv htext h hstep
  | receipt x read =>
    simp only [step] at hstep
    split at hstep
    · rename_i r hown
      split_ifs at hstep with hguard
      cases hstep
      refine rowEvent_inv h hown rfl (fun hm => .inl ?_) fun hm _ => .inr ?_
      · exact hm ▸ hguard.1
      · exact hm ▸ hguard.1
    · cases hstep
  | failure x pending =>
    simp only [step] at hstep
    split at hstep
    · rename_i r hown
      split_ifs at hstep with hguard
      cases hstep
      exact rowEvent_inv h hown rfl (fun _ => .inr fun _ => rfl) fun _ hp => .inl hp
    · cases hstep
  | trim x =>
    simp only [step] at hstep
    split at hstep
    · rename_i r hown
      cases hstep
      exact rowEvent_inv h hown rfl (fun _ => .inr id) fun _ hp => .inl hp
    · cases hstep
  | restart =>
    cases hstep
    exact restart_inv h

theorem initial_inv : Inv m {} .nobody := by
  have hnone : ∀ {φ : Option Row → Prop}, φ none → Everywhere φ m {} :=
    fun h => ⟨h, h, by simp⟩
  refine ⟨⟨Nat.zero_le _, by simp [Hand.claims], by simp, by simp [Hand.calls], fun _ => rfl, by simp⟩,
    ?_, .inl ⟨rfl, rfl⟩, ⟨by simp, ?_, by simp⟩⟩
  swap
  · intro pre life post hlog _
    have hnil : life = [] := by simp_all
    simp [hnil]
  refine ⟨by simp, by simp, hnone (by simp [Honest]), by simp, .nil, by simp, by simp, by simp,
    .inl (hnone (by simp [IsCancelled])), fun _ => ⟨rfl, hnone rfl, by simp, rfl⟩, by simp, by simp⟩

theorem run_inv {es : List Event} (htext : m.text ≠ "") (hrun : exec step {} es = some w) :
    Inv m w .nobody :=
  invariant (fun _ _ _ h hstep => step_inv htext h hstep) initial_inv hrun

end

end Tim2Tox.SendControl
