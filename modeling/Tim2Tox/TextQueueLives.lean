import Tim2Tox.TextQueueCounts

set_option autoImplicit false

/-!
# What each call does to the live events

The tombstones, the sequence numbers and the indexes are forgotten: an operation is described by
the list of live events it leaves, the drop counters and the epochs polled.
-/
namespace Tim2Tox.TextQueue
namespace Queue

def lives (q : Queue) : List TextEvent := q.textQ.filter TextEvent.live

/-- The queue is left with these live events and drop counters. -/
structure Leaves (q : Queue) (l : List TextEvent) (drops : EventClass → ℕ) (q' : Queue) : Prop where
  lives : q'.lives = l
  drops : q'.drops = drops
  polledEpoch : q'.polledEpoch = q.polledEpoch

section
variable {q : Queue} {e : TextEvent} {cls : EventClass}

theorem Counts.liveEvents_eq (h : WellFormed q) : q.liveEvents = q.lives.length := by
  rw [h.counts.events, List.countP_eq_length_filter]
  rfl

theorem Counts.liveBytes_eq (h : WellFormed q) :
    q.liveBytes = (q.lives.map fun e => e.line.length).sum := h.counts.bytes

theorem Counts.liveCountFor_eq (h : WellFormed q) (i : ℤ) :
    q.liveCountFor i = q.lives.countP fun e => decide (e.instanceId = i) := by
  rw [liveCountFor, h.counts.perInstance i]
  have hsame : liveOf i q.textQ = q.lives.countP fun e => decide (e.instanceId = i) := by
    rw [liveOf, lives, List.countP_filter]
    simp only [Bool.and_comm]
  split_ifs with hzero
  · rw [Option.getD_none, ← hsame, hzero]
  · rw [Option.getD_some, hsame]

/-! ## The rebuild pass -/

def kept (instanceId keepEpoch : ℤ) (e : TextEvent) : Bool := !purges instanceId keepEpoch e

theorem Rebuild.pass_kept (instanceId keepEpoch : ℤ) (rest : List TextEvent) : ∀ r : Rebuild,
    (rest.foldl (Rebuild.visit instanceId keepEpoch) r).kept =
      r.kept ++ (rest.filter TextEvent.live).filter (Queue.kept instanceId keepEpoch) := by
  induction rest with
  | nil => simp
  | cons e rest ih =>
    intro r
    rw [List.foldl_cons, ih]
    unfold Rebuild.visit
    by_cases hlive : e.live = true
    · by_cases hpurge : purges instanceId keepEpoch e = true
      · simp [hlive, hpurge, Queue.kept]
      · simp [hlive, hpurge, Queue.kept]
    · simp [hlive]

theorem Rebuild.pass_same (instanceId keepEpoch : ℤ) (rest : List TextEvent) : ∀ r : Rebuild,
    (rest.foldl (Rebuild.visit instanceId keepEpoch) r).queue.drops = r.queue.drops ∧
      (rest.foldl (Rebuild.visit instanceId keepEpoch) r).queue.polledEpoch =
        r.queue.polledEpoch := by
  induction rest with
  | nil => exact fun r => ⟨rfl, rfl⟩
  | cons e rest ih =>
    intro r
    have hvisit : (r.visit instanceId keepEpoch e).queue.drops = r.queue.drops ∧
        (r.visit instanceId keepEpoch e).queue.polledEpoch = r.queue.polledEpoch := by
      unfold Rebuild.visit
      split_ifs <;> exact ⟨rfl, rfl⟩
    have hrest := ih (r.visit instanceId keepEpoch e)
    exact ⟨hrest.1.trans hvisit.1, hrest.2.trans hvisit.2⟩

theorem purgeLocked_leaves (q : Queue) (instanceId keepEpoch : ℤ) :
    Leaves q (q.lives.filter (kept instanceId keepEpoch)) q.drops
      (q.purgeLocked instanceId keepEpoch).2 := by
  have hsame := Rebuild.pass_same instanceId keepEpoch q.textQ
    { queue := { q with evictable := fun _ => [] } }
  refine ⟨?_, hsame.1, hsame.2⟩
  have hkept := Rebuild.pass_kept instanceId keepEpoch q.textQ
    { queue := { q with evictable := fun _ => [] } }
  change List.filter TextEvent.live (Rebuild.kept _) = _
  rw [hkept, List.nil_append, ← lives, List.filter_filter]
  have hlive : ∀ e ∈ q.lives, e.live = true := fun e he => (List.mem_filter.mp he).2
  refine List.filter_congr fun e he => ?_
  rw [hlive e he, Bool.true_and]

theorem kept_unknown (keepEpoch : ℤ) (e : TextEvent) :
    kept kSessionEpochUnknown keepEpoch e = true := by
  simp [kept, purges]

theorem compactLocked_leaves (q : Queue) : Leaves q q.lives q.drops q.compactLocked := by
  have hpurge := purgeLocked_leaves q kSessionEpochUnknown 0
  have hall : q.lives.filter (kept kSessionEpochUnknown 0) = q.lives :=
    List.filter_eq_self.mpr fun e _ => kept_unknown 0 e
  rw [hall] at hpurge
  exact hpurge

/-! ## Removal -/

theorem filter_dropWhile_dead (l : List TextEvent) :
    (l.dropWhile fun e => !e.live).filter TextEvent.live = l.filter TextEvent.live := by
  induction l with
  | nil => rfl
  | cons e l ih =>
    by_cases hlive : e.live = true
    · simp [hlive]
    · simp [hlive, ih]

theorem trim_leaves (q : Queue) : Leaves q q.lives q.drops q.trim :=
  ⟨filter_dropWhile_dead q.textQ, rfl, rfl⟩

theorem removeLocked_leaves {pos : ℕ} (hget : q.textQ[pos]? = some e) :
    Leaves q ((q.textQ.take pos).filter TextEvent.live ++
      (q.textQ.drop (pos + 1)).filter TextEvent.live) q.drops (q.removeLocked pos) := by
  have hpos : pos < q.textQ.length := (List.getElem?_eq_some_iff.mp hget).1
  have hbury : (q.bury pos e).lives = (q.textQ.take pos).filter TextEvent.live ++
      (q.textQ.drop (pos + 1)).filter TextEvent.live := by
    change (q.textQ.set pos _).filter TextEvent.live = _
    rw [List.set_eq_take_append_cons_drop, if_pos hpos, List.filter_append, List.filter_cons_of_neg]
    simp
  have htrim := trim_leaves (q.bury pos e)
  rw [hbury] at htrim
  unfold removeLocked
  rw [hget]
  dsimp only
  split_ifs
  · have hcompact := compactLocked_leaves (q.bury pos e).trim
    exact ⟨hcompact.lives.trans htrim.lives, hcompact.drops.trans htrim.drops,
      hcompact.polledEpoch.trans htrim.polledEpoch⟩
  · exact ⟨htrim.lives, htrim.drops, htrim.polledEpoch⟩

/-- The first live event with a property goes: what is before it has the property nowhere. -/
theorem removeLocked_leaves_eraseP {pos : ℕ} {p : TextEvent → Bool} (hget : q.textQ[pos]? = some e)
    (hlive : e.live = true) (hp : p e = true)
    (hfirst : ∀ e' ∈ q.textQ.take pos, e'.live = true → p e' = false) :
    Leaves q (q.lives.eraseP p) q.drops (q.removeLocked pos) ∧ q.lives.find? p = some e := by
  have hpos : pos < q.textQ.length := (List.getElem?_eq_some_iff.mp hget).1
  have hsplit : q.lives = (q.textQ.take pos).filter TextEvent.live ++
      e :: (q.textQ.drop (pos + 1)).filter TextEvent.live := by
    have hself : q.textQ = q.textQ.take pos ++ e :: q.textQ.drop (pos + 1) := by
      have hcons : q.textQ.drop pos = e :: q.textQ.drop (pos + 1) := by
        rw [List.drop_eq_getElem_cons hpos, (List.getElem?_eq_some_iff.mp hget).2]
      rw [← hcons, List.take_append_drop]
    have hfilter := congrArg (List.filter TextEvent.live) hself
    rw [List.filter_append, List.filter_cons_of_pos hlive] at hfilter
    exact hfilter
  have hbefore : ∀ e' ∈ (q.textQ.take pos).filter TextEvent.live, ¬ p e' = true := by
    intro e' he'
    rw [List.mem_filter] at he'
    simp [hfirst e' he'.1 he'.2]
  have hremoved := removeLocked_leaves hget
  constructor
  · rw [hsplit, List.eraseP_append_right _ hbefore, List.eraseP_cons_of_pos hp]
    exact hremoved
  · rw [hsplit, List.find?_append, List.find?_eq_none.mpr hbefore, List.find?_cons_of_pos hp]
    rfl

/-! ## Eviction -/

def ofClass (cls : EventClass) (e : TextEvent) : Bool := e.cls = cls

/-- What evicting the oldest event of a class leaves. -/
def Evicts (q : Queue) (cls : EventClass) (result : Bool × Queue) : Prop :=
  (result.1 = true ∧ (∃ e, q.lives.find? (ofClass cls) = some e) ∧
    Leaves q (q.lives.eraseP (ofClass cls)) (q.recordDrop cls).drops result.2) ∨
  (result.1 = false ∧ q.lives.find? (ofClass cls) = none ∧ Leaves q q.lives q.drops result.2)

theorem evictFrom_evicts (hcls : cls ≠ .state) : ∀ index : List ℕ,
    Indexed q.textQ q.frontSeq (Function.update q.evictable cls index) →
      q.Evicts cls (q.evictFrom cls index) := by
  intro index
  induction index with
  | nil =>
    intro hindexed
    refine Or.inr ⟨rfl, ?_, ⟨rfl, rfl, rfl⟩⟩
    rw [List.find?_eq_none]
    intro e he
    obtain ⟨hmem, hlive⟩ := List.mem_filter.mp he
    obtain ⟨i, hi⟩ := List.getElem?_of_mem hmem
    intro hclass
    have hsame : e.cls = cls := by simpa [ofClass] using hclass
    have hlisted := hindexed.listed i e hi hlive (by rw [hsame]; exact hcls)
    rw [hsame, Function.update_self] at hlisted
    exact absurd hlisted (List.not_mem_nil)
  | cons seq rest ih =>
    intro hindexed
    unfold Queue.evictFrom
    split_ifs with hfront
    · refine ih (hindexed.pop fun e hle => ?_)
      omega
    · split
      · rename_i e hget
        split_ifs with hlive
        · have hle : q.frontSeq ≤ seq := Nat.not_lt.mp hfront
          have hclass : e.cls = cls := hindexed.resolves cls seq e (by simp) hle hget hlive
          -- an earlier live event of the class would be listed before the entry
          have hfirst : ∀ e' ∈ q.textQ.take (seq - q.frontSeq), e'.live = true →
              ofClass cls e' = false := by
            intro e' he' hlive'
            by_contra hother
            have hsame : e'.cls = cls := by simpa [ofClass] using hother
            obtain ⟨i, hi⟩ := List.getElem?_of_mem he'
            rw [List.getElem?_take] at hi
            have hlt : i < seq - q.frontSeq := by
              by_contra hge
              rw [if_neg hge] at hi
              contradiction
            rw [if_pos hlt] at hi
            have hlisted := hindexed.listed i e' hi hlive' (by rw [hsame]; exact hcls)
            rw [hsame, Function.update_self] at hlisted
            have hordered := hindexed.increasing cls
            rw [Function.update_self, List.pairwise_cons] at hordered
            rcases List.mem_cons.mp hlisted with heq | hlater
            · omega
            · have := hordered.1 _ hlater
              omega
          have hremoved := removeLocked_leaves_eraseP
            (q := recordDrop { q with evictable := Function.update q.evictable cls rest } cls)
            hget hlive (by simp [ofClass, hclass]) hfirst
          exact Or.inl ⟨rfl, ⟨e, hremoved.2⟩, hremoved.1.lives, hremoved.1.drops,
            hremoved.1.polledEpoch⟩
        · exact ih (hindexed.pop fun e' _ hget' => by
            rw [hget] at hget'
            rw [← Option.some.inj hget']
            simpa using hlive)
      · rename_i hget
        exact ih (hindexed.pop fun e _ hget' => by rw [hget] at hget'; contradiction)

theorem evictOldest_evicts (h : WellFormed q) (cls : EventClass) (hcls : cls ≠ .state) :
    q.Evicts cls (q.evictOldest cls) := by
  refine evictFrom_evicts hcls _ ?_
  rw [Function.update_eq_self]
  exact h.indexed

/-! ## Polls -/

/-- The event the poll comes to once its session is entered. -/
def oldestFor (q : Queue) (instanceId sessionEpoch : ℤ) : Option TextEvent :=
  (q.enterSession instanceId sessionEpoch).lives.find? (addressed instanceId)

theorem enterSession_lives (q : Queue) (instanceId sessionEpoch : ℤ) :
    (q.enterSession instanceId sessionEpoch).lives =
      if sessionEpoch > 0 ∧ q.polledEpoch instanceId ≠ some sessionEpoch then
        q.lives.filter (kept instanceId sessionEpoch)
      else q.lives := by
  unfold Queue.enterSession
  by_cases henter : sessionEpoch > 0 ∧ q.polledEpoch instanceId ≠ some sessionEpoch
  · rw [if_pos (by simpa using henter), if_pos henter]
    exact (purgeLocked_leaves q instanceId sessionEpoch).lives
  · rw [if_neg (by simpa using henter), if_neg henter]

theorem enterSession_drops (q : Queue) (instanceId sessionEpoch : ℤ) :
    (q.enterSession instanceId sessionEpoch).drops = q.drops := by
  unfold Queue.enterSession
  split_ifs
  · exact (purgeLocked_leaves q instanceId sessionEpoch).drops
  · rfl

theorem enterSession_polledEpoch (q : Queue) (instanceId sessionEpoch : ℤ) :
    (q.enterSession instanceId sessionEpoch).polledEpoch =
      if sessionEpoch > 0 then Function.update q.polledEpoch instanceId (some sessionEpoch)
      else q.polledEpoch := by
  unfold Queue.enterSession
  by_cases hpositive : sessionEpoch > 0
  · rw [if_pos hpositive]
    by_cases hseen : q.polledEpoch instanceId = some sessionEpoch
    · rw [if_neg (by simp [hseen]), ← hseen, Function.update_eq_self]
    · rw [if_pos (by simp [hpositive, hseen])]
      dsimp only
      rw [(purgeLocked_leaves q instanceId sessionEpoch).polledEpoch]
  · rw [if_neg (by simp [hpositive]), if_neg hpositive]

theorem live_of_addressed {i : ℤ} (h : addressed i e = true) : e.live = true := by
  simp only [addressed, Bool.and_eq_true] at h
  exact h.1

theorem find?_lives_eq (q : Queue) (i : ℤ) :
    q.lives.find? (addressed i) = q.textQ.find? (addressed i) := by
  rw [lives, List.find?_filter]
  congr 1
  funext e
  by_cases haddressed : addressed i e = true
  · simp [haddressed, live_of_addressed haddressed]
  · simp [haddressed]

/-- With both counters at zero no event is addressed to the instance. -/
theorem find?_of_counts_zero (h : WellFormed q) {i : ℤ} (hzero : q.liveCountFor 0 = 0 &&
    (i = 0 || q.liveCountFor i = 0)) : q.lives.find? (addressed i) = none := by
  simp only [Bool.and_eq_true, Bool.or_eq_true, decide_eq_true_eq] at hzero
  obtain ⟨hbroadcast, hown⟩ := hzero
  rw [List.find?_eq_none]
  intro e he
  rw [Counts.liveCountFor_eq h, List.countP_eq_zero] at hbroadcast
  have hnot0 := hbroadcast e he
  have hnot : ¬ e.instanceId = i := by
    rcases hown with hzero | hown
    · rw [hzero]
      simpa using hnot0
    · rw [Counts.liveCountFor_eq h, List.countP_eq_zero] at hown
      simpa using hown e he
  simp only [decide_eq_true_eq] at hnot0
  simp [addressed, hnot0, hnot]

/-- What a poll does, by the event it comes to. -/
theorem pollText_spec (h : WellFormed q) (i epoch : ℤ) (buffer : Bool) (len : ℤ) :
    (q.oldestFor i epoch = none ∧
      q.pollText i epoch buffer len = ({ result := 0 }, q.enterSession i epoch)) ∨
    ∃ e, q.oldestFor i epoch = some e ∧
      (q.pollText i epoch buffer len).1 = copyPayloadOrReturnRequiredCapacity e.line buffer len ∧
      (((q.pollText i epoch buffer len).1.result < 0 ∧
          (q.pollText i epoch buffer len).2 = q.enterSession i epoch) ∨
        (0 ≤ (q.pollText i epoch buffer len).1.result ∧
          Leaves (q.enterSession i epoch)
            ((q.enterSession i epoch).lives.eraseP (addressed i)) q.drops
            (q.pollText i epoch buffer len).2)) := by
  have hentered : WellFormed (q.enterSession i epoch) := by
    unfold Queue.enterSession
    split_ifs
    · have hpurged := h.purgeLocked i epoch
      exact ⟨⟨hpurged.counts.events, hpurged.counts.bytes, hpurged.counts.perInstance⟩,
        hpurged.indexed, hpurged.tombstones⟩
    · exact h
  have hdrops := enterSession_drops q i epoch
  unfold oldestFor Queue.pollText
  generalize q.enterSession i epoch = p at hentered hdrops ⊢
  dsimp only
  split_ifs with hzero
  · exact Or.inl ⟨find?_of_counts_zero hentered hzero, rfl⟩
  · rw [find?_lives_eq]
    split
    · rename_i hnone
      rw [List.findIdx?_eq_none_iff] at hnone
      exact Or.inl ⟨List.find?_eq_none.mpr fun e he => by simp [hnone e he], rfl⟩
    · rename_i k hk
      rw [List.findIdx?_eq_some_iff_getElem] at hk
      obtain ⟨hlt, haddressed, hbefore⟩ := hk
      have hget : p.textQ[k]? = some p.textQ[k] := List.getElem?_eq_getElem hlt
      have hfirst : ∀ e' ∈ p.textQ.take k, e'.live = true → addressed i e' = false := by
        intro e' he' _
        obtain ⟨j, hj, rfl⟩ := List.mem_take_iff_getElem.mp he'
        have := hbefore j (by omega)
        simpa using this
      have hremoved := removeLocked_leaves_eraseP hget (live_of_addressed haddressed) haddressed hfirst
      rw [find?_lives_eq] at hremoved
      refine Or.inr ⟨p.textQ[k], hremoved.2, ?_⟩
      rw [hget]
      dsimp only [Option.map_some, Option.getD_some]
      split_ifs with hnegative
      · exact ⟨rfl, Or.inl ⟨hnegative, rfl⟩⟩
      · refine ⟨rfl, Or.inr ⟨Int.not_lt.mp hnegative, ?_⟩⟩
        rw [← hdrops]
        exact hremoved.1

theorem purgeInstance_leaves (q : Queue) (i : ℤ) :
    (q.purgeInstance i).lives = q.lives.filter (kept i kSessionEpochNone) ∧
      (q.purgeInstance i).drops = q.drops ∧
      (q.purgeInstance i).polledEpoch = Function.update q.polledEpoch i none := by
  have hpurge := purgeLocked_leaves q i kSessionEpochNone
  refine ⟨hpurge.lives, hpurge.drops, ?_⟩
  unfold purgeInstance
  dsimp only
  rw [hpurge.polledEpoch]

end

end Queue
end Tim2Tox.TextQueue
