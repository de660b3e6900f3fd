import Tim2Tox.TextQueue

set_option autoImplicit false

/-!
# Counters and indexes of the text-event queue

The counters describe the live events, the indexes list the evictable ones in order, and the
tombstones stay within their margin, after any sequence of calls.
-/
namespace Tim2Tox.TextQueue
namespace Queue

/-! ## What the counters and the indexes say -/

def bytesOf (l : List TextEvent) : ℕ := ((l.filter TextEvent.live).map fun e => e.line.length).sum

def liveOf (i : ℤ) (l : List TextEvent) : ℕ := l.countP fun e => e.live && e.instanceId = i

/-- The counters describe the live events of a list. -/
structure Counts (l : List TextEvent) (q : Queue) : Prop where
  events : q.liveEvents = l.countP TextEvent.live
  bytes : q.liveBytes = bytesOf l
  perInstance : ∀ i, q.livePerInstance i = if liveOf i l = 0 then none else some (liveOf i l)

/-- The indexes list the live evictable events of a list whose first number is given. -/
structure Indexed (l : List TextEvent) (front : ℕ) (evictable : EventClass → List ℕ) : Prop where
  listed : ∀ i e, l[i]? = some e → e.live = true → e.cls ≠ .state → front + i ∈ evictable e.cls
  increasing : ∀ cls, (evictable cls).Pairwise (· < ·)
  resolves : ∀ cls seq e, seq ∈ evictable cls → front ≤ seq → l[seq - front]? = some e →
    e.live = true → e.cls = cls
  bounded : ∀ cls, ∀ seq ∈ evictable cls, seq < front + l.length

structure WellFormed (q : Queue) : Prop where
  counts : Counts q.textQ q
  indexed : Indexed q.textQ q.frontSeq q.evictable
  tombstones : q.tombstones = q.textQ.countP fun e => !e.live

section
variable {q : Queue} {l : List TextEvent} {e : TextEvent} {i : ℤ} {cls : EventClass}

theorem bytesOf_append (l l' : List TextEvent) : bytesOf (l ++ l') = bytesOf l + bytesOf l' := by
  simp [bytesOf]

theorem bytesOf_cons_live (h : e.live = true) : bytesOf (e :: l) = e.line.length + bytesOf l := by
  simp [bytesOf, h]

theorem bytesOf_cons_dead (h : e.live = false) : bytesOf (e :: l) = bytesOf l := by
  simp [bytesOf, h]

theorem liveOf_append (l l' : List TextEvent) : liveOf i (l ++ l') = liveOf i l + liveOf i l' := by
  simp [liveOf]

theorem liveOf_cons_live (h : e.live = true) :
    liveOf i (e :: l) = liveOf i l + if e.instanceId = i then 1 else 0 := by
  unfold liveOf
  rw [List.countP_cons, h]
  simp

theorem liveOf_cons_dead (h : e.live = false) : liveOf i (e :: l) = liveOf i l := by
  simp [liveOf, h]

/-- What a list says only depends on its live events. -/
theorem Counts.congr {l' : List TextEvent} (h : Counts l q)
    (hevents : l'.countP TextEvent.live = l.countP TextEvent.live) (hbytes : bytesOf l' = bytesOf l)
    (hlive : ∀ i, liveOf i l' = liveOf i l) : Counts l' q :=
  ⟨by rw [hevents, h.events], by rw [hbytes, h.bytes], fun i => by rw [hlive, h.perInstance]⟩

theorem counts_dead {p : List TextEvent} (hd : e.live = false) :
    Counts (p ++ e :: l) q ↔ Counts (p ++ l) q := by
  refine ⟨fun h => h.congr ?_ ?_ fun i => ?_, fun h => h.congr ?_ ?_ fun i => ?_⟩
  · simp [hd]
  · rw [bytesOf_append, bytesOf_append, bytesOf_cons_dead hd]
  · rw [liveOf_append, liveOf_append, liveOf_cons_dead hd]
  · simp [hd]
  · rw [bytesOf_append, bytesOf_append, bytesOf_cons_dead hd]
  · rw [liveOf_append, liveOf_append, liveOf_cons_dead hd]

/-- A live event leaves the list and the counters. -/
theorem Counts.uncount {pre : List TextEvent} (h : Counts (pre ++ e :: l) q) (hlive : e.live = true) :
    Counts (pre ++ l) (q.uncount e) := by
  refine ⟨?_, ?_, fun i => ?_⟩
  · change q.liveEvents - 1 = _
    rw [h.events, List.countP_append, List.countP_append, List.countP_cons, hlive]
    simp only [if_true]
    omega
  · change q.liveBytes - e.line.length = _
    rw [h.bytes, bytesOf_append, bytesOf_append, bytesOf_cons_live hlive]
    omega
  · have hold := h.perInstance i
    rw [liveOf_append, liveOf_cons_live hlive] at hold
    rw [liveOf_append]
    by_cases hi : e.instanceId = i
    · subst hi
      simp only [if_true] at hold
      have hne : liveOf e.instanceId pre + (liveOf e.instanceId l + 1) ≠ 0 := by omega
      rw [if_neg hne] at hold
      have hsub : liveOf e.instanceId pre + (liveOf e.instanceId l + 1) - 1 =
          liveOf e.instanceId pre + liveOf e.instanceId l := by omega
      simp only [Queue.uncount, Function.update_self, hold, Option.bind_some, hsub]
    · simp only [hi, if_false, Nat.add_zero] at hold
      simp only [Queue.uncount, Function.update_of_ne (Ne.symm hi), hold]

theorem Counts.accept (h : Counts l q) (hlive : e.live = true) : Counts (l ++ [e]) (q.accept e) := by
  refine ⟨?_, ?_, fun i => ?_⟩
  · change q.liveEvents + 1 = _
    simp [h.events, hlive]
  · change q.liveBytes + e.line.length = _
    rw [h.bytes, bytesOf_append, bytesOf_cons_live hlive]
    rfl
  · rw [liveOf_append, liveOf_cons_live hlive]
    have hnil : liveOf i [] = 0 := rfl
    by_cases hi : e.instanceId = i
    · subst hi
      have hcount : q.liveCountFor e.instanceId = liveOf e.instanceId l := by
        unfold Queue.liveCountFor
        rw [h.perInstance]
        split_ifs with hz
        · rw [hz]
          rfl
        · rfl
      simp only [Queue.accept, Function.update_self, hcount, if_true, hnil]
      rw [if_neg (by omega)]
    · simp only [Queue.accept, Function.update_of_ne (Ne.symm hi), hi, if_false, h.perInstance, hnil,
        Nat.add_zero]

/-! ## The indexes -/

theorem Indexed.nil (front : ℕ) : Indexed [] front fun _ => [] :=
  ⟨by simp, by simp, by simp, by simp⟩

/-- The index after a live event joined with the next number. -/
def pushed (evictable : EventClass → List ℕ) (e : TextEvent) (seq : ℕ) : EventClass → List ℕ :=
  if e.cls ≠ .state then Function.update evictable e.cls (evictable e.cls ++ [seq]) else evictable

theorem mem_pushed {evictable : EventClass → List ℕ} {seq next : ℕ} :
    seq ∈ pushed evictable e next cls ↔
      seq ∈ evictable cls ∨ e.cls ≠ .state ∧ cls = e.cls ∧ seq = next := by
  unfold pushed
  by_cases hstate : e.cls = .state
  · simp [hstate]
  · rw [if_pos hstate]
    by_cases hcls : cls = e.cls
    · subst hcls
      simp [hstate]
    · simp [hcls]

theorem getElem?_concat {l : List TextEvent} {k : ℕ} {e' : TextEvent}
    (h : (l ++ [e])[k]? = some e') : l[k]? = some e' ∨ k = l.length ∧ e' = e := by
  rcases Nat.lt_trichotomy k l.length with hlt | heq | hgt
  · rw [List.getElem?_append_left hlt] at h
    exact .inl h
  · subst heq
    rw [List.getElem?_concat_length] at h
    exact .inr ⟨rfl, (Option.some.inj h).symm⟩
  · have hnone : (l ++ [e])[k]? = none := List.getElem?_eq_none (by simp; omega)
    rw [hnone] at h
    contradiction

theorem Indexed.push {front : ℕ} {evictable : EventClass → List ℕ} (h : Indexed l front evictable) :
    Indexed (l ++ [e]) front (pushed evictable e (front + l.length)) := by
  constructor
  · intro k e' hk hlive hcls
    rw [mem_pushed]
    rcases getElem?_concat hk with hk | ⟨rfl, rfl⟩
    · exact .inl (h.listed k e' hk hlive hcls)
    · exact .inr ⟨hcls, rfl, rfl⟩
  · intro cls
    unfold pushed
    by_cases hstate : e.cls = .state
    · simpa [hstate] using h.increasing cls
    · rw [if_pos hstate]
      by_cases hcls : cls = e.cls
      · subst hcls
        rw [Function.update_self, List.pairwise_append]
        refine ⟨h.increasing _, by simp, ?_⟩
        intro seq hseq next hnext
        rw [List.mem_singleton] at hnext
        have := h.bounded _ seq hseq
        omega
      · rw [Function.update_of_ne hcls]
        exact h.increasing cls
  · intro cls seq e' hseq hfront hget hlive
    rcases mem_pushed.mp hseq with hold | ⟨-, rfl, rfl⟩
    · have hlt : seq - front < l.length := by
        have := h.bounded cls seq hold
        omega
      rw [List.getElem?_append_left hlt] at hget
      exact h.resolves cls seq e' hold hfront hget hlive
    · have hpos : front + l.length - front = l.length := by omega
      rw [hpos, List.getElem?_concat_length] at hget
      rw [← Option.some.inj hget]
  · intro cls seq hseq
    rw [List.length_append, List.length_singleton]
    rcases mem_pushed.mp hseq with hold | ⟨-, -, rfl⟩
    · have := h.bounded cls seq hold
      omega
    · omega

/-! ## The rebuild pass -/

/-- The records kept and the rest make up what the counters describe. -/
structure Rebuild.Invariant (r : Rebuild) (rest : List TextEvent) : Prop where
  counts : Counts (r.kept ++ rest) r.queue
  indexed : Indexed r.kept r.queue.frontSeq r.queue.evictable
  live : ∀ e ∈ r.kept, e.live = true

theorem Rebuild.Invariant.visit {r : Rebuild} {rest : List TextEvent} (instanceId keepEpoch : ℤ)
    (h : r.Invariant (e :: rest)) : (r.visit instanceId keepEpoch e).Invariant rest := by
  unfold Rebuild.visit
  by_cases hlive : e.live = true
  · rw [if_neg (by simp [hlive])]
    by_cases hpurge : purges instanceId keepEpoch e = true
    · rw [if_pos hpurge]
      exact ⟨h.counts.uncount hlive, h.indexed, h.live⟩
    · rw [if_neg hpurge]
      refine ⟨?_, ?_, ?_⟩
      · have hcounts := h.counts
        rw [List.append_cons] at hcounts
        dsimp only
        split_ifs
        · exact ⟨hcounts.events, hcounts.bytes, hcounts.perInstance⟩
        · exact hcounts
      · have hpush := h.indexed.push (e := e)
        unfold pushed at hpush
        dsimp only
        split_ifs at hpush ⊢ <;> exact hpush
      · intro e' he'
        rcases List.mem_append.mp he' with hold | hnew
        · exact h.live e' hold
        · rw [List.mem_singleton.mp hnew]
          exact hlive
  · rw [if_pos (by simp [hlive])]
    exact ⟨(counts_dead (by simpa using hlive)).mp h.counts, h.indexed, h.live⟩

theorem Rebuild.Invariant.pass (instanceId keepEpoch : ℤ) (rest : List TextEvent) :
    ∀ r : Rebuild, r.Invariant rest →
      (rest.foldl (Rebuild.visit instanceId keepEpoch) r).Invariant [] := by
  induction rest with
  | nil => exact fun r h => h
  | cons e rest ih => exact fun r h => ih _ (h.visit instanceId keepEpoch)

theorem WellFormed.purgeLocked (h : WellFormed q) (instanceId keepEpoch : ℤ) :
    WellFormed (q.purgeLocked instanceId keepEpoch).2 := by
  have hstart : Rebuild.Invariant { queue := { q with evictable := fun _ => [] } } q.textQ :=
    ⟨⟨h.counts.events, h.counts.bytes, h.counts.perInstance⟩, Indexed.nil _, by simp⟩
  have hend := hstart.pass instanceId keepEpoch
  refine ⟨?_, hend.indexed, ?_⟩
  · have hcounts := hend.counts
    rw [List.append_nil] at hcounts
    exact ⟨hcounts.events, hcounts.bytes, hcounts.perInstance⟩
  · have hnone : (List.countP (fun e => !e.live) (q.purgeLocked instanceId keepEpoch).2.textQ) = 0 := by
      rw [List.countP_eq_zero]
      intro e he
      simp [hend.live e he]
    rw [hnone]
    rfl

/-- A pass only takes events off the counters. -/
theorem Rebuild.pass_le (instanceId keepEpoch : ℤ) (rest : List TextEvent) :
    ∀ r : Rebuild,
      (rest.foldl (Rebuild.visit instanceId keepEpoch) r).queue.liveEvents ≤ r.queue.liveEvents ∧
      (rest.foldl (Rebuild.visit instanceId keepEpoch) r).queue.liveBytes ≤ r.queue.liveBytes := by
  induction rest with
  | nil => exact fun r => ⟨Nat.le_refl _, Nat.le_refl _⟩
  | cons e rest ih =>
    intro r
    have hvisit : (r.visit instanceId keepEpoch e).queue.liveEvents ≤ r.queue.liveEvents ∧
        (r.visit instanceId keepEpoch e).queue.liveBytes ≤ r.queue.liveBytes := by
      unfold Rebuild.visit
      split_ifs
      · exact ⟨Nat.le_refl _, Nat.le_refl _⟩
      · exact ⟨Nat.sub_le _ _, Nat.sub_le _ _⟩
      · exact ⟨Nat.le_refl _, Nat.le_refl _⟩
      · exact ⟨Nat.le_refl _, Nat.le_refl _⟩
    have hrest := ih (r.visit instanceId keepEpoch e)
    exact ⟨Nat.le_trans hrest.1 hvisit.1, Nat.le_trans hrest.2 hvisit.2⟩

theorem purgeLocked_le (q : Queue) (instanceId keepEpoch : ℤ) :
    (q.purgeLocked instanceId keepEpoch).2.liveEvents ≤ q.liveEvents ∧
      (q.purgeLocked instanceId keepEpoch).2.liveBytes ≤ q.liveBytes :=
  Rebuild.pass_le instanceId keepEpoch q.textQ _

/-! ## Removal -/

theorem Indexed.bury {front pos : ℕ} {evictable : EventClass → List ℕ} (h : Indexed l front evictable)
    (hdead : e.live = false) : Indexed (l.set pos e) front evictable := by
  have hget : ∀ {k : ℕ} {e' : TextEvent}, (l.set pos e)[k]? = some e' → e'.live = true →
      l[k]? = some e' := by
    intro k e' hk hlive
    by_cases hpos : pos = k
    · subst hpos
      rw [List.getElem?_set_self'] at hk
      rcases hl : l[pos]? with _ | e''
      · simp [hl] at hk
      · rw [hl] at hk
        rw [← Option.some.inj hk, Function.const_apply, hdead] at hlive
        contradiction
    · rwa [List.getElem?_set_ne hpos] at hk
  constructor
  · exact fun k e' hk hlive hcls => h.listed k e' (hget hk hlive) hlive hcls
  · exact h.increasing
  · exact fun cls seq e' hseq hfront hk hlive => h.resolves cls seq e' hseq hfront (hget hk hlive) hlive
  · intro cls seq hseq
    rw [List.length_set]
    exact h.bounded cls seq hseq

/-- An index loses its head when that is the number of no live event. -/
theorem Indexed.pop {front seq : ℕ} {rest : List ℕ} {evictable : EventClass → List ℕ}
    (h : Indexed l front (Function.update evictable cls (seq :: rest)))
    (hdead : ∀ e, front ≤ seq → l[seq - front]? = some e → e.live = false) :
    Indexed l front (Function.update evictable cls rest) := by
  have hsub : ∀ {c n}, n ∈ Function.update evictable cls rest c →
      n ∈ Function.update evictable cls (seq :: rest) c := by
    intro c n hn
    by_cases hc : c = cls
    · subst hc
      rw [Function.update_self] at hn ⊢
      exact List.mem_cons_of_mem _ hn
    · rwa [Function.update_of_ne hc] at hn ⊢
  constructor
  · intro k e hk hlive hstate
    have hold := h.listed k e hk hlive hstate
    by_cases hc : e.cls = cls
    · rw [hc, Function.update_self] at hold ⊢
      rcases List.mem_cons.mp hold with heq | hrest
      · have hk' : l[seq - front]? = some e := by rw [← heq, Nat.add_sub_cancel_left, hk]
        rw [hdead e (by omega) hk'] at hlive
        contradiction
      · exact hrest
    · rwa [Function.update_of_ne hc] at hold ⊢
  · intro c
    have hold := h.increasing c
    by_cases hc : c = cls
    · subst hc
      rw [Function.update_self] at hold ⊢
      exact (List.pairwise_cons.mp hold).2
    · rwa [Function.update_of_ne hc] at hold ⊢
  · exact fun c n e hn => h.resolves c n e (hsub hn)
  · exact fun c n hn => h.bounded c n (hsub hn)

/-- The front moves on, and the index entries before it go. -/
theorem Indexed.advance {front : ℕ} {dead : List TextEvent} {evictable : EventClass → List ℕ}
    (h : Indexed (dead ++ l) front evictable) :
    Indexed l (front + dead.length)
      fun cls => (evictable cls).dropWhile fun seq => seq < front + dead.length := by
  have hget : ∀ k, l[k]? = (dead ++ l)[dead.length + k]? := by
    intro k
    rw [List.getElem?_append_right (by omega), Nat.add_sub_cancel_left]
  constructor
  · intro k e hk hlive hcls
    rw [hget] at hk
    have hold := h.listed _ e hk hlive hcls
    rw [← Nat.add_assoc, ← List.takeWhile_append_dropWhile
      (p := fun seq => decide (seq < front + dead.length)) (l := evictable e.cls)] at hold
    rcases List.mem_append.mp hold with htaken | hkept
    · have hlt := List.all_eq_true.mp List.all_takeWhile _ htaken
      rw [decide_eq_true_eq] at hlt
      omega
    · exact hkept
  · exact fun cls => (h.increasing cls).sublist (List.dropWhile_sublist _)
  · intro cls seq e hseq hfront hk hlive
    have hpos : dead.length + (seq - (front + dead.length)) = seq - front := by omega
    rw [hget, hpos] at hk
    exact h.resolves cls seq e ((List.dropWhile_sublist _).subset hseq) (by omega) hk hlive
  · intro cls seq hseq
    have hold := h.bounded cls seq ((List.dropWhile_sublist _).subset hseq)
    rw [List.length_append] at hold
    omega

theorem Counts.dropWhile : ∀ l, Counts l q → Counts (l.dropWhile fun e => !e.live) q := by
  intro l
  induction l with
  | nil => exact id
  | cons e l ih =>
    intro h
    by_cases hlive : e.live = true
    · rwa [List.dropWhile_cons_of_neg (by simp [hlive])]
    · rw [List.dropWhile_cons_of_pos (by simp [hlive])]
      exact ih ((counts_dead (p := []) (by simpa using hlive)).mp h)

theorem WellFormed.trim (h : WellFormed q) : WellFormed q.trim := by
  have hsplit := List.takeWhile_append_dropWhile (p := fun e : TextEvent => !e.live) (l := q.textQ)
  refine ⟨?_, ?_, ?_⟩
  · have hcounts := Counts.dropWhile _ h.counts
    exact ⟨hcounts.events, hcounts.bytes, hcounts.perInstance⟩
  · have hindexed := h.indexed
    rw [← hsplit] at hindexed
    exact hindexed.advance
  · have hdead : (q.textQ.takeWhile fun e => !e.live).countP (fun e => !e.live) =
        (q.textQ.takeWhile fun e => !e.live).length :=
      List.countP_eq_length.mpr (List.all_eq_true.mp List.all_takeWhile)
    have htombstones := h.tombstones
    rw [← hsplit, List.countP_append, hdead] at htombstones
    change q.tombstones - (q.textQ.takeWhile fun e => !e.live).length =
      (q.textQ.dropWhile fun e => !e.live).countP fun e => !e.live
    omega

/-- The live event at a position becomes a tombstone; its number may have left its index. -/
theorem WellFormed.of_bury {pos : ℕ} (hcounts : Counts q.textQ q)
    (htombstones : q.tombstones = q.textQ.countP fun e => !e.live)
    (hget : q.textQ[pos]? = some e) (hlive : e.live = true)
    (hindexed : Indexed (q.textQ.set pos { e with line := [], live := false }) q.frontSeq q.evictable) :
    WellFormed (q.bury pos e) := by
  have hlt : pos < q.textQ.length := (List.getElem?_eq_some_iff.mp hget).1
  have hat : q.textQ[pos] = e := (List.getElem?_eq_some_iff.mp hget).2
  have hsplit : q.textQ = q.textQ.take pos ++ e :: q.textQ.drop (pos + 1) := by
    rw [← hat, List.getElem_cons_drop, List.take_append_drop]
  have hset : q.textQ.set pos { e with line := [], live := false } =
      q.textQ.take pos ++ { e with line := [], live := false } :: q.textQ.drop (pos + 1) :=
    List.set_eq_take_append_cons_drop.trans (if_pos hlt)
  refine ⟨?_, hindexed, ?_⟩
  · rw [hsplit] at hcounts
    have hburied := (counts_dead (e := { e with line := [], live := false }) rfl).mpr
      (hcounts.uncount hlive)
    change Counts (q.textQ.set pos { e with line := [], live := false }) _
    rw [hset]
    exact ⟨hburied.events, hburied.bytes, hburied.perInstance⟩
  · change q.tombstones + 1 = (q.textQ.set pos { e with line := [], live := false }).countP _
    rw [htombstones, hset]
    conv_lhs => rw [hsplit]
    simp [hlive]
    omega

/-- The tombstones stay within their margin and the live events under the hard caps. -/
structure Margins (q : Queue) : Prop where
  tombstones : q.tombstones ≤ max kCompactMinTombstones q.liveEvents
  events : q.liveEvents ≤ kHardMaxEvents
  bytes : q.liveBytes ≤ kHardMaxBytes

theorem Margins.purgeLocked (h : Margins q) (instanceId keepEpoch : ℤ) :
    Margins (q.purgeLocked instanceId keepEpoch).2 := by
  have hle := purgeLocked_le q instanceId keepEpoch
  exact ⟨Nat.zero_le _, Nat.le_trans hle.1 h.events, Nat.le_trans hle.2 h.bytes⟩

/-- What a removal at the position of a live event does. -/
structure Removed (q q' : Queue) : Prop where
  wellFormed : WellFormed q'
  tombstones : q'.tombstones ≤ max kCompactMinTombstones q'.liveEvents
  events : q'.liveEvents < q.liveEvents
  bytes : q'.liveBytes ≤ q.liveBytes

theorem Removed.margins {q' : Queue} (h : Removed q q') (hm : Margins q) : Margins q' :=
  ⟨h.tombstones, Nat.le_of_lt (Nat.lt_of_lt_of_le h.events hm.events),
    Nat.le_trans h.bytes hm.bytes⟩

theorem removed_of_bury {pos : ℕ} (hcounts : Counts q.textQ q)
    (htombstones : q.tombstones = q.textQ.countP fun e => !e.live)
    (hget : q.textQ[pos]? = some e) (hlive : e.live = true)
    (hindexed : Indexed (q.textQ.set pos { e with line := [], live := false }) q.frontSeq q.evictable) :
    Removed q (q.removeLocked pos) := by
  have htrim := (WellFormed.of_bury hcounts htombstones hget hlive hindexed).trim
  have hpositive : 0 < q.liveEvents := by
    rw [hcounts.events, List.countP_pos_iff]
    exact ⟨e, List.mem_of_getElem? hget, hlive⟩
  have hevents : (q.bury pos e).trim.liveEvents = q.liveEvents - 1 := rfl
  have hbytes : (q.bury pos e).trim.liveBytes = q.liveBytes - e.line.length := rfl
  simp only [removeLocked, hget]
  split_ifs with hcompact
  · have hle := purgeLocked_le (q.bury pos e).trim kSessionEpochUnknown 0
    exact ⟨htrim.purgeLocked _ _, Nat.zero_le _,
      by rw [compactLocked]; omega, by rw [compactLocked]; omega⟩
  · refine ⟨htrim, ?_, by omega, by omega⟩
    simp only [ge_iff_le, Bool.and_eq_true, decide_eq_true_eq, not_and, Nat.not_lt] at hcompact
    by_cases hmin : kCompactMinTombstones ≤ (q.bury pos e).trim.tombstones
    · have := hcompact hmin
      omega
    · omega

theorem WellFormed.removeLocked {pos : ℕ} (h : WellFormed q) (hget : q.textQ[pos]? = some e)
    (hlive : e.live = true) : Removed q (q.removeLocked pos) :=
  removed_of_bury h.counts h.tombstones hget hlive (h.indexed.bury rfl)

/-! ## Eviction -/

/-- What an eviction does: an event goes, or the index had no live event left. -/
structure Evicted (q : Queue) (result : Bool × Queue) : Prop where
  removed : result.1 = true → Removed q result.2
  unchanged : result.1 = false → WellFormed result.2 ∧ result.2.liveEvents = q.liveEvents ∧
    result.2.liveBytes = q.liveBytes ∧ result.2.tombstones = q.tombstones

theorem WellFormed.evictFrom (h : WellFormed q) : ∀ index : List ℕ,
    Indexed q.textQ q.frontSeq (Function.update q.evictable cls index) →
      Evicted q (q.evictFrom cls index) := by
  intro index
  induction index with
  | nil =>
    intro hindexed
    refine ⟨fun hevicted => by simp [Queue.evictFrom] at hevicted, fun _ => ?_⟩
    exact ⟨⟨⟨h.counts.events, h.counts.bytes, h.counts.perInstance⟩, hindexed, h.tombstones⟩,
      rfl, rfl, rfl⟩
  | cons seq rest ih =>
    intro hindexed
    unfold Queue.evictFrom
    split_ifs with hfront
    · refine ih (hindexed.pop fun e hle => ?_)
      omega
    · split
      · rename_i e hget
        split_ifs with hlive
        · have hburied : Indexed (q.textQ.set (seq - q.frontSeq) { e with line := [], live := false })
              q.frontSeq (Function.update q.evictable cls (seq :: rest)) := hindexed.bury rfl
          have hpopped := hburied.pop fun e' _ hget' => by
            rw [List.getElem?_set_self (List.getElem?_eq_some_iff.mp hget).1] at hget'
            rw [← Option.some.inj hget']
          have hremoved := removed_of_bury
            (q := recordDrop { q with evictable := Function.update q.evictable cls rest } cls)
            ⟨h.counts.events, h.counts.bytes, h.counts.perInstance⟩ h.tombstones hget hlive hpopped
          exact ⟨fun _ => ⟨hremoved.wellFormed, hremoved.tombstones, hremoved.events, hremoved.bytes⟩,
            by simp⟩
        · exact ih (hindexed.pop fun e' _ hget' => by
            rw [hget] at hget'
            rw [← Option.some.inj hget']
            simpa using hlive)
      · rename_i hget
        exact ih (hindexed.pop fun e _ hget' => by rw [hget] at hget'; contradiction)

theorem WellFormed.evictOldest (h : WellFormed q) (cls : EventClass) :
    Evicted q (q.evictOldest cls) := by
  refine h.evictFrom _ ?_
  rw [Function.update_eq_self]
  exact h.indexed

/-! ## Calls -/

/-- The counters, the indexes and the margins hold. -/
structure Sound (q : Queue) : Prop where
  wellFormed : WellFormed q
  margins : Margins q

theorem Sound.recordDrop (h : Sound q) (cls : EventClass) : Sound (q.recordDrop cls) :=
  ⟨⟨⟨h.wellFormed.counts.events, h.wellFormed.counts.bytes, h.wellFormed.counts.perInstance⟩,
    h.wellFormed.indexed, h.wellFormed.tombstones⟩,
    ⟨h.margins.tombstones, h.margins.events, h.margins.bytes⟩⟩

theorem Sound.evictOldest (h : Sound q) (cls : EventClass) : Sound (q.evictOldest cls).2 := by
  have hevicted := h.wellFormed.evictOldest cls
  by_cases hresult : (q.evictOldest cls).1 = true
  · have hremoved := hevicted.removed hresult
    exact ⟨hremoved.wellFormed, hremoved.margins h.margins⟩
  · have hsame := hevicted.unchanged (by simpa using hresult)
    refine ⟨hsame.1, ?_, ?_, ?_⟩
    · rw [hsame.2.2.2, hsame.2.1]
      exact h.margins.tombstones
    · rw [hsame.2.1]
      exact h.margins.events
    · rw [hsame.2.2.1]
      exact h.margins.bytes

theorem Sound.makeRoom (cls : EventClass) (bytes turns : ℕ) :
    ∀ q, Sound q → Sound (makeRoom cls bytes turns q) := by
  induction turns with
  | zero => exact fun q h => h
  | succ turns ih =>
    intro q h
    have hlossy := h.evictOldest .lossy
    have hchat := hlossy.evictOldest .chat
    unfold Queue.makeRoom
    split_ifs with hover hcls
    · split
      · rename_i q' heq
        rw [heq] at hlossy
        exact ih q' hlossy
      · rename_i q' heq
        rw [heq] at hchat
        split
        · rename_i q'' heq'
          rw [heq'] at hchat
          exact ih q'' hchat
        · rename_i q'' heq'
          rw [heq'] at hchat
          exact hchat
    · split
      · rename_i q' heq
        rw [heq] at hlossy
        exact ih q' hlossy
      · rename_i q' heq
        rw [heq] at hlossy
        exact hlossy
    · exact h

/-- More turns than live events change nothing: every turn but the last evicts one. -/
theorem WellFormed.makeRoom_succ (cls : EventClass) (bytes turns : ℕ) : ∀ q : Queue, WellFormed q →
    q.liveEvents < turns →
      Queue.makeRoom cls bytes (turns + 1) q = Queue.makeRoom cls bytes turns q := by
  induction turns with
  | zero => exact fun q _ hturns => absurd hturns (Nat.not_lt_zero _)
  | succ turns ih =>
    intro q h hturns
    have hlossy := h.evictOldest .lossy
    rw [Queue.makeRoom, Queue.makeRoom]
    split_ifs with hover hcls
    · rcases heq : q.evictOldest .lossy with ⟨evicted, q'⟩
      rw [heq] at hlossy
      cases evicted with
      | true =>
        have hremoved := hlossy.removed rfl
        have hless : q'.liveEvents < q.liveEvents := hremoved.events
        exact ih q' hremoved.wellFormed (by omega)
      | false =>
        have hsame := hlossy.unchanged rfl
        have hchat := hsame.1.evictOldest .chat
        dsimp only at hsame hchat ⊢
        rcases heq' : q'.evictOldest .chat with ⟨evicted, q''⟩
        rw [heq'] at hchat
        cases evicted with
        | true =>
          have hremoved := hchat.removed rfl
          have hless : q''.liveEvents < q'.liveEvents := hremoved.events
          exact ih q'' hremoved.wellFormed (by omega)
        | false => rfl
    · rcases heq : q.evictOldest .lossy with ⟨evicted, q'⟩
      rw [heq] at hlossy
      cases evicted with
      | true =>
        have hremoved := hlossy.removed rfl
        have hless : q'.liveEvents < q.liveEvents := hremoved.events
        exact ih q' hremoved.wellFormed (by omega)
      | false => rfl
    · rfl

theorem Sound.accept (h : Sound q) (hlive : e.live = true)
    (hroom : q.overCaps e.line.length kHardMaxEvents kHardMaxBytes = false) : Sound (q.accept e) := by
  simp only [Queue.overCaps, Bool.or_eq_false_iff, gt_iff_lt, decide_eq_false_iff_not,
    Nat.not_lt] at hroom
  refine ⟨⟨h.wellFormed.counts.accept hlive, h.wellFormed.indexed.push, ?_⟩, ?_, hroom.1, hroom.2⟩
  · change q.tombstones = (q.textQ ++ [e]).countP _
    simp [h.wellFormed.tombstones, hlive]
  · have hmargin := h.margins.tombstones
    change q.tombstones ≤ max _ (q.liveEvents + 1)
    omega

theorem overCaps_hard {bytes : ℕ} (h : q.overCaps bytes kSoftMaxEvents kSoftMaxBytes = false) :
    q.overCaps bytes kHardMaxEvents kHardMaxBytes = false := by
  simp only [Queue.overCaps, Bool.or_eq_false_iff, gt_iff_lt, decide_eq_false_iff_not, Nat.not_lt,
    kHardMaxEvents, kHardMaxBytes] at h ⊢
  omega

theorem Sound.enqueue (h : Sound q) (instanceId : ℤ) (line : Line) (sessionEpoch : ℤ) :
    Sound (q.enqueueTextLineForInstance instanceId line sessionEpoch) := by
  have hroom := Sound.makeRoom (classify line) line.length (q.liveEvents + 1) q h
  unfold enqueueTextLineForInstance
  dsimp only
  split_ifs with hsoft hstate hhard
  · exact hroom.recordDrop _
  · exact hroom.recordDrop _
  · exact hroom.accept rfl (by simpa using hhard)
  · exact hroom.accept rfl (overCaps_hard (by simpa using hsoft))

theorem Sound.purgeLocked (h : Sound q) (instanceId keepEpoch : ℤ) :
    Sound (q.purgeLocked instanceId keepEpoch).2 :=
  ⟨h.wellFormed.purgeLocked _ _, h.margins.purgeLocked _ _⟩

theorem Sound.withPolledEpoch (h : Sound q) (polledEpoch : ℤ → Option ℤ) :
    Sound { q with polledEpoch } :=
  ⟨⟨⟨h.wellFormed.counts.events, h.wellFormed.counts.bytes, h.wellFormed.counts.perInstance⟩,
    h.wellFormed.indexed, h.wellFormed.tombstones⟩,
    ⟨h.margins.tombstones, h.margins.events, h.margins.bytes⟩⟩

theorem Sound.enterSession (h : Sound q) (instanceId sessionEpoch : ℤ) :
    Sound (q.enterSession instanceId sessionEpoch) := by
  unfold Queue.enterSession
  split_ifs
  · exact (h.purgeLocked _ _).withPolledEpoch _
  · exact h

theorem Sound.pollText (h : Sound q) (instanceId sessionEpoch : ℤ) (buffer : Bool) (len : ℤ) :
    Sound (q.pollText instanceId sessionEpoch buffer len).2 := by
  have henter := h.enterSession instanceId sessionEpoch
  unfold Queue.pollText
  dsimp only
  split_ifs
  · exact henter
  · split
    · exact henter
    · rename_i k hk
      split_ifs
      · exact henter
      · rw [List.findIdx?_eq_some_iff_getElem] at hk
        obtain ⟨hlt, haddressed, -⟩ := hk
        have hlive : ((q.enterSession instanceId sessionEpoch).textQ[k]).live = true := by
          simp only [addressed, Bool.and_eq_true] at haddressed
          exact haddressed.1
        have hremoved := henter.wellFormed.removeLocked (List.getElem?_eq_getElem hlt) hlive
        exact ⟨hremoved.wellFormed, hremoved.margins henter.margins⟩

theorem Sound.after (h : Sound q) (call : Call) : Sound (q.after call) := by
  cases call with
  | enqueue instanceId line sessionEpoch => exact h.enqueue instanceId line sessionEpoch
  | poll instanceId sessionEpoch buffer len => exact h.pollText instanceId sessionEpoch buffer len
  | purge instanceId => exact (h.purgeLocked instanceId kSessionEpochNone).withPolledEpoch _

theorem Sound.empty : Sound {} := by
  refine ⟨⟨⟨rfl, rfl, fun i => rfl⟩, Indexed.nil _, rfl⟩, Nat.zero_le _, Nat.zero_le _, Nat.zero_le _⟩

theorem Sound.run (calls : List Call) : ∀ q, Sound q → Sound (calls.foldl Queue.after q) := by
  induction calls with
  | nil => exact fun q h => h
  | cons call calls ih => exact fun q h => ih _ (h.after call)

end

/-- After any sequence of calls the counters describe the live and the dead entries, the indexes
    list the evictable ones in order and by class, and the margins and the hard caps hold. -/
theorem queue_sound (calls : List Call) :
    WellFormed (calls.foldl Queue.after {}) ∧ Margins (calls.foldl Queue.after {}) :=
  have h := Sound.run calls {} Sound.empty
  ⟨h.wellFormed, h.margins⟩

end Queue
end Tim2Tox.TextQueue
