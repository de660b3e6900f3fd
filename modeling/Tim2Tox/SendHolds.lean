import Tim2Tox.SendTrail

set_option autoImplicit false

/-!
# Who acts on a message

At most one task holds a message, as a drain that claimed it or as a call, and the queue file is
at most one mutation ahead of the cache.
-/
namespace Tim2Tox.SendControl
open OfflineQueue LabelledRuns

def Task.hand : Task → Hand
  | .ready d => .drain d
  | .background _ _ => .nobody
  | .on stage item drain _ => handOf stage item drain

section
variable {m x : Message} {w : World} {hand : Hand} {d : Drain}

theorem Task.hand_claims (t : Task) : t.hand.claims m = t.claims m := by
  cases t with
  | ready d => rfl
  | background => rfl
  | on s i drain sv =>
    cases drain with
    | some d => rfl
    | none =>
      simp only [Task.hand, handOf, Task.claims]
      split_ifs <;> rfl

theorem Task.hand_calls {t : Task} (h : t.hand.calls m = true) :
    t.calls m = true ∧ ∀ c, t.focus m ≠ some (.adding, c) := by
  cases t with
  | ready d => cases h
  | background => cases h
  | on s i drain sv =>
    cases drain with
    | some d => cases h
    | none =>
      simp only [Task.hand, handOf] at h
      split_ifs at h with hs
      · cases h
      · simp only [Hand.calls, decide_eq_true_eq] at h
        simp [Task.calls, Task.focus, h, hs]

theorem Task.hand_holds {t : Task} (h : t.hand.holds m = true) : t.holds m = true := by
  simp only [Hand.holds, Task.hand_claims, Bool.or_eq_true] at h
  simp only [Task.holds, Bool.or_eq_true]
  exact h.imp id fun hc => (Task.hand_calls hc).1

/-- The tasks before and after the `j`-th. -/
theorem tasks_split {l : List Task} {j : ℕ} {t : Task} (h : l[j]? = some t) :
    ∃ pre post, l = pre ++ t :: post ∧ l.eraseIdx j = pre ++ post ∧ l.take j = pre ∧
      ∀ t', l.set j t' = pre ++ t' :: post := by
  obtain ⟨hj, ht⟩ := List.getElem?_eq_some_iff.mp h
  refine ⟨l.take j, l.drop (j + 1), ?_, List.eraseIdx_eq_take_drop_succ l j, rfl, ?_⟩
  · rw [← ht, ← List.drop_eq_getElem_cons hj, List.take_append_drop]
  · intro t'
    rw [List.set_eq_take_append_cons_drop, if_pos hj]

/-! ## One holder -/

/-- No waiting task holds what the running one holds. -/
theorem Held.free (h : Held m w hand) (hh : hand.holds m = true) :
    ∀ t ∈ w.tasks, t.holds m = false := by
  have hcount : w.tasks.countP (Task.holds m) = 0 := by
    have := h.excl
    rw [hh, Bool.toNat_true] at this
    omega
  intro t ht
  have := List.countP_eq_zero.mp hcount t ht
  simpa using this

/-- Nobody holds a message that is neither claimed nor worked on nor being queued. -/
theorem Held.unheld (h : Held m w hand) (hcall : hand.calls m = false)
    (hclaim : w.claimedSends m = false) (hop : w.sendControlOps m = false)
    (hadd : ∀ t ∈ w.tasks, ∀ c, t.focus m ≠ some (.adding, c)) :
    w.tasks.countP (Task.holds m) = 0 ∧ hand.holds m = false := by
  have hnone : ¬((∃ t ∈ w.tasks, t.claims m = true) ∨ hand.claims m = true) := by
    rw [← h.claimed]
    simp [hclaim]
  refine ⟨List.countP_eq_zero.mpr fun t ht hh => ?_, ?_⟩
  · simp only [Task.holds, Bool.or_eq_true] at hh
    obtain hc | hc := hh
    · exact hnone (.inl ⟨t, ht, hc⟩)
    · have := h.ops t ht hc (hadd t ht)
      simp [hop] at this
  · have hno : hand.claims m = false := by
      simpa using fun hc => hnone (.inr hc)
    simp [Hand.holds, hno, hcall]

theorem Held.remove {j : ℕ} {t : Task} (h : Held m w .nobody) (ht : w.tasks[j]? = some t) :
    Held m { w with tasks := w.tasks.eraseIdx j } t.hand := by
  obtain ⟨pre, post, hl, he, -, -⟩ := tasks_split ht
  have hmem : ∀ u ∈ pre ++ post, u ∈ w.tasks := by
    intro u hu
    rw [hl]
    simp only [List.mem_append, List.mem_cons] at hu ⊢
    tauto
  have hcount : w.tasks.countP (Task.holds m) =
      (pre ++ post).countP (Task.holds m) + (t.holds m).toNat := by
    rw [hl]
    rw [List.countP_append, List.countP_append, List.countP_cons]
    cases t.holds m with
    | false => simp
    | true =>
      rw [Bool.toNat_true, if_pos rfl]
      omega
  have hnobody : (Hand.nobody.holds m).toNat = 0 := rfl
  have hhand : (t.hand.holds m).toNat ≤ (t.holds m).toNat := by
    cases hh : t.hand.holds m with
    | false => simp
    | true => simp [Task.hand_holds hh]
  rw [he]
  refine ⟨?_, ?_, ?_, ?_, ?_, fun u hu => h.served u (hmem u hu)⟩
  · have := h.excl
    rw [hcount, hnobody] at this
    change (pre ++ post).countP _ + _ ≤ 1
    omega
  · rw [h.claimed, hl, Task.hand_claims]
    simp only [List.mem_append, List.mem_cons, Hand.claims, Bool.false_eq_true, or_false]
    constructor
    · rintro ⟨u, hu | rfl | hu, hc⟩
      · exact .inl ⟨u, .inl hu, hc⟩
      · exact .inr hc
      · exact .inl ⟨u, .inr hu, hc⟩
    · rintro (⟨u, hu | hu, hc⟩ | hc)
      · exact ⟨u, .inl hu, hc⟩
      · exact ⟨u, .inr (.inr hu), hc⟩
      · exact ⟨t, .inr (.inl rfl), hc⟩
  · exact fun u hu => h.ops u (hmem u hu)
  · intro hc
    obtain ⟨hcalls, hadd⟩ := Task.hand_calls hc
    exact h.ops t (by rw [hl]; simp) hcalls hadd
  · intro hk
    have := h.unknown hk
    rw [hcount, hnobody] at this
    change (pre ++ post).countP _ + _ = 0
    omega

theorem Held.push {t : Task} (h : Held m w hand) (hserved : t.served = true)
    (hclaims : t.claims m = hand.claims m) (hcalls : t.calls m = hand.calls m) :
    Held m (w.push t) .nobody := by
  have hcount : (w.push t).tasks.countP (Task.holds m) =
      w.tasks.countP (Task.holds m) + (hand.holds m).toNat := by
    simp only [World.push, List.countP_append, List.countP_singleton, Task.holds, Hand.holds,
      hclaims, hcalls]
    cases hand.claims m || hand.calls m <;> rfl
  refine ⟨?_, ?_, ?_, by simp [Hand.calls], ?_, ?_⟩
  · rw [hcount]
    exact h.excl
  · rw [show (w.push t).claimedSends m = w.claimedSends m from rfl, h.claimed]
    simp only [World.push, List.mem_append, List.mem_singleton, Hand.claims, Bool.false_eq_true,
      or_false]
    constructor
    · rintro (⟨u, hu, hc⟩ | hc)
      · exact ⟨u, .inl hu, hc⟩
      · exact ⟨t, .inr rfl, hclaims.trans hc⟩
    · rintro ⟨u, hu | rfl, hc⟩
      · exact .inl ⟨u, hu, hc⟩
      · exact .inr (hclaims.symm.trans hc)
  · intro u hu hc
    obtain hu | hu := List.mem_append.mp hu
    · exact h.ops u hu hc
    · obtain rfl := List.mem_singleton.mp hu
      exact fun _ => h.opsHand (hcalls.symm.trans hc)
  · intro hk
    rw [hcount]
    exact h.unknown hk
  · intro u hu
    obtain hu | hu := List.mem_append.mp hu
    · exact h.served u hu
    · rw [List.mem_singleton.mp hu]
      exact hserved

/-- A save nobody awaits. -/
theorem Held.pushBackground {c : Conversation} {sv : Save} (h : Held m w hand) :
    Held m (w.push (.background c sv)) hand := by
  have hcount : (w.push (.background c sv)).tasks.countP (Task.holds m) =
      w.tasks.countP (Task.holds m) := by
    simp [World.push, Task.holds, Task.claims, Task.calls]
  refine ⟨hcount ▸ h.excl, ?_, ?_, h.opsHand, hcount ▸ h.unknown, ?_⟩
  · rw [show (w.push (.background c sv)).claimedSends m = w.claimedSends m from rfl, h.claimed]
    simp [World.push, or_and_right, exists_or, Task.claims]
  · intro u hu hc
    obtain hu | hu := List.mem_append.mp hu
    · exact h.ops u hu hc
    · obtain rfl := List.mem_singleton.mp hu
      cases hc
  · intro u hu
    obtain hu | hu := List.mem_append.mp hu
    · exact h.served u hu
    · rw [List.mem_singleton.mp hu]
      rfl

theorem Held.endDrain (h : Held m w (.drain d)) : Held m (w.endDrain d) .nobody := by
  refine ⟨?_, ?_, h.ops, by simp [Hand.calls], ?_, h.served⟩
  · have := h.excl
    change w.tasks.countP _ + 0 ≤ 1
    omega
  · change (w.claimedSends m && decide (m ∉ d.claimed)) = true ↔
      (∃ t ∈ w.tasks, t.claims m = true) ∨ _
    by_cases hd : m ∈ d.claimed
    · have hfree := h.free (by simp [Hand.holds, Hand.claims, hd])
      simp only [hd, not_true_eq_false, decide_false, Bool.and_false, Bool.false_eq_true, false_iff,
        Hand.claims, or_false, not_exists, not_and]
      intro t ht hc
      have := hfree t ht
      simp [Task.holds, hc] at this
    · have := h.claimed
      simp only [Hand.claims, hd, decide_false, Bool.false_eq_true, or_false] at this
      simp only [hd, not_false_eq_true, decide_true, Bool.and_true, this, Hand.claims,
        Bool.false_eq_true, or_false]
  · intro hk
    have := h.unknown hk
    change w.tasks.countP _ + 0 = 0
    omega

/-- A drain claims a message nobody holds. -/
theorem Held.claim (h : Held m w (.drain d)) (hx : x = m → w.claimedSends m = false ∧
      w.sendControlOps m = false ∧ w.known m = true ∧
      ∀ t ∈ w.tasks, ∀ c, t.focus m ≠ some (.adding, c)) :
    Held m (w.claim x) (.drain { d with claimed := x :: d.claimed }) := by
  by_cases hm : x = m
  · subst hm
    obtain ⟨hclaim, hop, hknown, hadd⟩ := hx rfl
    obtain ⟨hzero, hhand⟩ := h.unheld rfl hclaim hop hadd
    refine ⟨?_, ?_, h.ops, by simp [Hand.calls], ?_, h.served⟩
    · change w.tasks.countP _ + _ ≤ 1
      rw [hzero]
      simp [Hand.holds, Hand.claims]
    · simp [World.claim, Hand.claims]
    · intro hk
      simp [World.claim, hknown] at hk
  · have hclaims : Hand.claims m (.drain { d with claimed := x :: d.claimed }) =
        Hand.claims m (.drain d) := by
      simp [Hand.claims, Ne.symm hm]
    have hholds : Hand.holds m (.drain { d with claimed := x :: d.claimed }) =
        Hand.holds m (.drain d) := by
      simp only [Hand.holds, hclaims]
      rfl
    have hsame : (w.claim x).claimedSends m = w.claimedSends m := by
      simp [World.claim, Function.update_of_ne (Ne.symm hm)]
    exact ⟨hholds ▸ h.excl, by rw [hclaims, hsame]; exact h.claimed, h.ops, by simp [Hand.calls],
      fun hk => hholds ▸ h.unknown hk, h.served⟩

theorem Held.keepQueued (h : Held m w (.drain d)) (hx : x = m → m ∈ d.claimed) :
    Held m (w.keepQueued d x) .nobody := by
  refine ⟨?_, ?_, h.ops, by simp [Hand.calls], ?_, h.served⟩
  · have := h.excl
    change w.tasks.countP _ + 0 ≤ 1
    omega
  · by_cases hm : x = m
    · subst hm
      have hfree := h.free (by simp [Hand.holds, Hand.claims, hx rfl])
      simp only [World.keepQueued, World.endDrain, Function.update_self, Bool.false_and,
        Bool.false_eq_true, false_iff, Hand.claims, or_false, not_exists, not_and]
      intro t ht hc
      have := hfree t ht
      simp [Task.holds, hc] at this
    · have hend := h.endDrain.claimed
      simp only [World.endDrain, Hand.claims] at hend
      simp only [World.keepQueued, World.endDrain, Function.update_of_ne (Ne.symm hm), Hand.claims,
        List.mem_erase_of_ne (Ne.symm hm)]
      exact hend
  · intro hk
    have := h.unknown hk
    change w.tasks.countP _ + 0 = 0
    omega

/-- A call ends and releases its guard. -/
theorem Held.release (h : Held m w (.call x)) :
    Held m { w with sendControlOps := Function.update w.sendControlOps x false } .nobody := by
  refine ⟨?_, h.claimed, ?_, by simp [Hand.calls], ?_, h.served⟩
  · have := h.excl
    change w.tasks.countP _ + 0 ≤ 1
    omega
  · intro t ht hc hadd
    by_cases hm : x = m
    · subst hm
      have := h.free (by simp [Hand.holds, Hand.calls, Hand.claims]) t ht
      simp [Task.holds, hc] at this
    · simpa [Function.update_of_ne (Ne.symm hm)] using h.ops t ht hc hadd
  · intro hk
    have := h.unknown hk
    change w.tasks.countP _ + 0 = 0
    omega

/-- A call starts. -/
theorem Held.guard (h : Held m w .nobody) (hx : x = m → w.claimedSends m = false ∧
      w.sendControlOps m = false ∧ w.known m = true ∧
      ∀ t ∈ w.tasks, ∀ c, t.focus m ≠ some (.adding, c)) :
    Held m { w with sendControlOps := Function.update w.sendControlOps x true } (.call x) := by
  by_cases hm : x = m
  · subst hm
    obtain ⟨hclaim, hop, hknown, hadd⟩ := hx rfl
    obtain ⟨hzero, -⟩ := h.unheld rfl hclaim hop hadd
    refine ⟨?_, h.claimed, by simp, by simp, ?_, h.served⟩
    · change w.tasks.countP _ + _ ≤ 1
      rw [hzero]
      simp [Hand.holds, Hand.claims, Hand.calls]
    · intro hk
      simp [hknown] at hk
  · have hholds : Hand.holds m (.call x) = false := by simp [Hand.holds, Hand.claims, Hand.calls, hm]
    refine ⟨hholds ▸ h.excl, h.claimed, ?_, by simp [Hand.calls, hm],
      fun hk => hholds ▸ h.unknown hk, h.served⟩
    intro t ht hc hadd
    simpa [Function.update_of_ne (Ne.symm hm)] using h.ops t ht hc hadd

end

/-! ## The file ahead of the cache -/

/-- What the mutation of a task does to the controls of its message. -/
def changed (stage : Stage) (c : Option Control) (k : List (Option Control)) :
    List (Option Control) :=
  match stage with
  | .adding => k ++ [c]
  | .cancelling => k.replace c (some .cancelled)
  | .retrying => if c = some .failed then k.replace c (some .retry) else k ++ [c]
  | .failing => k.replace c (some .failed)
  | _ => k.erase c

theorem controls_mutation (m : Message) (stage : Stage) (item : Item) (queue : List Item) :
    controls m ((World.mutation stage item).apply queue) =
      if item.message = m then changed stage item.control (controls m queue)
      else controls m queue := by
  have hadd : controls m (queue ++ [item]) =
      if item.message = m then controls m queue ++ [item.control] else controls m queue := by
    rw [controls_append, controls_cons]
    split_ifs <;> simp
  cases stage with
  | adding => exact hadd
  | cancelling => exact controls_replace m queue rfl
  | failing => exact controls_replace m queue rfl
  | retrying =>
    simp only [World.mutation, changed]
    by_cases hc : item.control = some .failed
    · rw [if_pos hc, if_pos hc]
      exact controls_replace m queue rfl
    · rw [if_neg hc, if_neg hc]
      exact hadd
  | _ => exact controls_erase m item queue

/-- The queue file is the cache, or the first mutation is in it already. -/
def Sync (w : World) : Prop :=
  w.installing = false ∧ w.queueFile = w.cache ∨
    w.installing = true ∧ ∃ s i d sv, w.tasks.find? Task.queues = some (.on s i d sv) ∧
      (World.mutation s i).applies w.cache = true ∧
        w.queueFile = (World.mutation s i).apply w.cache

theorem Sync.file {m : Message} {w : World} (h : Sync w) :
    controls m w.queueFile = controls m w.cache ∨ ∃ t ∈ w.tasks, ∃ s c,
      t.focus m = some (s, c) ∧ s.queues = true ∧
        controls m w.queueFile = changed s c (controls m w.cache) := by
  obtain ⟨-, hfile⟩ | ⟨-, s, i, d, sv, hfind, -, hfile⟩ := h
  · exact .inl (by rw [hfile])
  · rw [hfile, controls_mutation]
    split_ifs with hm
    · refine .inr ⟨_, List.mem_of_find?_eq_some hfind, s, i.control, ?_, ?_, rfl⟩
      · simp [Task.focus, hm]
      · have hq : Task.queues (.on s i d sv) = true := List.find?_some hfind
        exact hq
    · exact .inl rfl

/-- A queued send nobody has finished stays in the file. -/
theorem Sync.file_of_dispatchable {m : Message} {w : World} {c : Option Control} (h : Sync w)
    (htext : m.text ≠ "") (ht : Trail m w) (hk : controls m w.cache = [c])
    (hc : dispatchable c = true) (hd : w.dispatchedSends m = false) :
    controls m w.queueFile = [c] ∨
      ∃ t ∈ w.tasks, t.holds m = true ∧ ∃ c', controls m w.queueFile = [c'] := by
  obtain hfile | ⟨t, hmem, s, c', hfoc, hq, hfile⟩ := h.file (m := m)
  · exact .inl (hfile.trans hk)
  rw [hfile, hk]
  have hw := ht.waits t hmem s c' hfoc
  have hclean := ht.clean_of_dispatchable hk hc
  have hother : dispatchable c' = false → ([c] : List (Option Control)).erase c' = [c] := by
    intro hc'
    have hne : c ≠ c' := by
      rintro rfl
      simp [hc] at hc'
    simp [hne]
  cases s with
  | cancelling =>
    obtain ⟨hcall, hk', -⟩ := hw
    rw [hk] at hk'
    cases hk'
    exact .inr ⟨t, hmem, by simp [Task.holds, hcall], some .cancelled, by simp [changed]⟩
  | failing =>
    obtain ⟨hclaim, hk', -⟩ := hw
    rw [hk] at hk'
    cases hk'
    exact .inr ⟨t, hmem, by simp [Task.holds, hclaim], some .failed, by simp [changed]⟩
  | retrying =>
    obtain ⟨-, -, ⟨-, hk' | hk'⟩ | ⟨-, hk'⟩⟩ := hw
    · simp [hk] at hk'
    · rw [hk] at hk'
      cases hk'
      cases hc
    · simp [hk] at hk'
  | adding =>
    have hn := ht.fresh (.inr ⟨t, hmem, c', hfoc⟩)
    simp [hn.cache] at hk
  | unqueueing =>
    refine .inl (hother ?_)
    obtain ⟨rfl, -⟩ | ⟨rfl, -⟩ := hw <;> rfl
  | dropping =>
    obtain ⟨-, hdone | hcan⟩ := hw
    · simp [hd] at hdone
    · exact absurd hcan hclean.2.1
  | discarding => exact absurd hw htext
  | removing | reremoving =>
    obtain ⟨-, -, hdone⟩ := hw
    simp [hd] at hdone
  | settling | loading | clearing | reconciling => cases hq

/-- A mutation leaves at most one item of the message, and none but a tombstone of a cancel when
    a row says cancelled. -/
theorem Sync.file_short {m : Message} {w : World} (h : Sync w) (ht : Trail m w) :
    (controls m w.queueFile).length ≤ 1 ∧
      ∀ c ∈ controls m w.queueFile, c ≠ some .cancelled → Clean m w := by
  obtain hfile | ⟨t, hmem, s, c', hfoc, -, hfile⟩ := h.file (m := m)
  · rw [hfile]
    exact ⟨ht.short, ht.clean⟩
  have hw := ht.waits t hmem s c' hfoc
  have herase : ((controls m w.cache).erase c').length ≤ 1 ∧
      ∀ c ∈ (controls m w.cache).erase c', c ≠ some .cancelled → Clean m w := by
    refine ⟨Nat.le_trans List.erase_sublist.length_le ht.short, fun c hc => ?_⟩
    exact ht.clean c (List.mem_of_mem_erase hc)
  rw [hfile]
  cases s with
  | adding =>
    have hn := ht.fresh (.inr ⟨t, hmem, c', hfoc⟩)
    have hclean : Clean m w := hn.rows.mono (by rintro _ rfl; simp [IsCancelled])
    simp [changed, hn.cache, hclean]
  | cancelling =>
    obtain ⟨-, hk, -⟩ := hw
    simp [changed, hk]
  | failing =>
    obtain ⟨-, hk, hc, -⟩ := hw
    simp [changed, hk, ht.clean_of_dispatchable hk hc]
  | retrying =>
    obtain ⟨-, hclean, ⟨rfl, hk | hk⟩ | ⟨rfl, hk⟩⟩ := hw <;> simp [changed, hk, hclean]
  | _ => exact herase

theorem Sync.push {w : World} {t : Task} (h : Sync w) : Sync (w.push t) := by
  refine h.imp id (And.imp_right ?_)
  rintro ⟨s, i, d, sv, hfind, happ, hfile⟩
  refine ⟨s, i, d, sv, ?_, happ, hfile⟩
  simp [World.push, List.find?_append, hfind]

theorem Sync.remove {w : World} {j : ℕ} {t : Task} (h : Sync w) (ht : w.tasks[j]? = some t)
    (hq : t.queues = false ∨ w.installing = false) :
    Sync { w with tasks := w.tasks.eraseIdx j } := by
  obtain ⟨pre, post, hl, he, -, -⟩ := tasks_split ht
  obtain ⟨hi, hfile⟩ | ⟨hi, s, i, d, sv, hfind, happ, hfile⟩ := h
  · exact .inl ⟨hi, hfile⟩
  · rw [hi] at hq
    obtain hq | hq := hq
    · refine .inr ⟨hi, s, i, d, sv, ?_, happ, hfile⟩
      rw [hl] at hfind
      simpa [he, List.find?_append, List.find?_cons, hq] using hfind
    · cases hq

/-! ## The log -/

/-- The log of a message: no send after a cancel that succeeded, and one that succeeds in the
    life of a process. -/
structure Lawful (m : Message) (w : World) : Prop where
  quiet : ∀ pre post, w.log = pre ++ .cancelResult m .success :: post → ∀ ok, .native m ok ∉ post
  once : ∀ pre life post, w.log = pre ++ life ++ post → .restarted ∉ life →
    life.count (.native m true) ≤ 1
  life : ∀ pre life, w.log = pre ++ life → .restarted ∉ life → .native m true ∈ life →
    w.dispatchedSends m = true

section
variable {m x : Message} {w : World}

theorem log_last {log pre post : List Entry} {e : Entry} (h : log ++ [e] = pre ++ post)
    (hne : post ≠ []) : ∃ post', post = post' ++ [e] ∧ log = pre ++ post' := by
  obtain ⟨post', last, rfl⟩ : ∃ post' last, post = post' ++ [last] :=
    ⟨post.dropLast, post.getLast hne, (List.dropLast_concat_getLast hne).symm⟩
  rw [← List.append_assoc] at h
  obtain ⟨hlog, hlast⟩ := List.append_inj' h rfl
  cases hlast
  exact ⟨post', rfl, hlog⟩

/-- An entry that is not a send of the message, or a send that fails. -/
theorem Lawful.logs {e : Entry} (h : Lawful m w) (hsend : e ≠ .native m true)
    (hquiet : ∀ ok, e = .native m ok → .cancelResult m .success ∉ w.log) :
    Lawful m (w.logs e) := by
  refine ⟨?_, ?_, ?_⟩
  · intro pre post hlog ok hmem
    obtain ⟨rest, hrest, hold⟩ := log_last hlog (by simp)
    cases rest with
    | nil =>
      cases hrest
      cases hmem
    | cons first rest =>
      cases hrest
      obtain hmem | hmem := List.mem_append.mp hmem
      · exact h.quiet pre rest hold ok hmem
      · have heq := List.mem_singleton.mp hmem
        exact hquiet ok heq.symm (by rw [hold]; simp)
  · intro pre life post hlog hno
    cases hpost : post with
    | nil =>
      rw [hpost, List.append_nil] at hlog
      cases hlife : life with
      | nil => simp
      | cons first rest =>
        obtain ⟨life', heq, hold⟩ := log_last hlog (by simp [hlife])
        rw [← hlife, heq, List.count_append, List.count_singleton, if_neg (by simpa using hsend)]
        refine h.once pre life' [] (by simpa using hold) fun hr => hno ?_
        rw [heq]
        exact List.mem_append_left _ hr
    | cons first rest =>
      obtain ⟨post', heq, hold⟩ := log_last hlog (by simp [hpost])
      exact h.once pre life post' hold hno
  · intro pre life hlog hno hmem
    obtain ⟨life', heq, hold⟩ := log_last hlog (List.ne_nil_of_mem hmem)
    rw [heq] at hno hmem
    obtain hmem | hmem := List.mem_append.mp hmem
    · exact h.life pre life' hold (fun hr => hno (List.mem_append_left _ hr)) hmem
    · exact absurd (List.mem_singleton.mp hmem).symm hsend

/-- A send that succeeds, the first in this life. -/
theorem Lawful.sends (h : Lawful m w) (hd : w.dispatchedSends m = false)
    (hquiet : .cancelResult m .success ∉ w.log) :
    Lawful m ((w.logs (.native m true)).markDispatched m) := by
  refine ⟨?_, ?_, ?_⟩
  · intro pre post hlog ok hmem
    obtain ⟨rest, hrest, hold⟩ := log_last hlog (by simp)
    cases rest with
    | nil =>
      cases hrest
    | cons first rest =>
      cases hrest
      exact hquiet (by rw [hold]; simp)
  · intro pre life post hlog hno
    cases hpost : post with
    | nil =>
      rw [hpost, List.append_nil] at hlog
      cases hlife : life with
      | nil => simp
      | cons first rest =>
        obtain ⟨life', heq, hold⟩ := log_last hlog (by simp [hlife])
        have hfirst : .native m true ∉ life' := by
          intro hmem
          have hdone := h.life pre life' hold (fun hr => hno (heq ▸ List.mem_append_left _ hr)) hmem
          simp [hd] at hdone
        rw [← hlife, heq, List.count_append, List.count_eq_zero_of_not_mem hfirst]
        simp
    | cons first rest =>
      obtain ⟨post', heq, hold⟩ := log_last hlog (by simp [hpost])
      exact h.once pre life post' hold hno
  · intro pre life hlog hno hmem
    simp [World.markDispatched]

end

end Tim2Tox.SendControl
