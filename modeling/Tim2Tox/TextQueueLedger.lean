import Tim2Tox.TextQueueLives

set_option autoImplicit false

/-!
# The delivery law of the text-event queue

A ledger numbers the events in the order they arrive and keeps what became of each: polled, live,
purged with a session, evicted for a newcomer or refused. It knows no tombstones and no indexes.
The queue runs beside it: the same live events, the same answers to polls, the same counters.
-/
namespace Tim2Tox.TextQueue

/-- An event and its place in the order of arrival. -/
abbrev Arrival : Type := ℕ × TextEvent

structure Ledger where
  arrived : List TextEvent := []
  live : List Arrival := []
  polled : List (ℤ × Arrival) := []
  purged : List Arrival := []
  evicted : List (Arrival × Arrival) := []
  refused : List Arrival := []
  polledEpoch : ℤ → Option ℤ := fun _ => none

namespace Ledger

def bytes (l : Ledger) : ℕ := (l.live.map fun a => a.2.line.length).sum

/-- The events counted as drops. -/
def dropped (l : Ledger) : List Arrival := l.evicted.map Prod.fst ++ l.refused

def overCaps (l : Ledger) (incomingBytes maxEvents maxBytes : ℕ) : Bool :=
  l.live.length + 1 > maxEvents || l.bytes + incomingBytes > maxBytes

/-- The oldest live event of a class makes room for the newcomer. -/
def evict (l : Ledger) (newcomer : Arrival) (cls : EventClass) : Option Ledger :=
  (l.live.find? fun a => Queue.ofClass cls a.2).map fun a =>
    { l with
      live := l.live.eraseP fun a => Queue.ofClass cls a.2
      evicted := l.evicted ++ [(a, newcomer)] }

def makeRoom (newcomer : Arrival) : ℕ → Ledger → Ledger
  | 0, l => l
  | turns + 1, l =>
    if l.overCaps newcomer.2.line.length kSoftMaxEvents kSoftMaxBytes then
      match l.evict newcomer .lossy with
      | some l => makeRoom newcomer turns l
      | none =>
        if newcomer.2.cls ≠ .lossy then
          match l.evict newcomer .chat with
          | some l => makeRoom newcomer turns l
          | none => l
        else l
    else l

def accept (l : Ledger) (newcomer : Arrival) : Ledger :=
  { l with arrived := l.arrived ++ [newcomer.2], live := l.live ++ [newcomer] }

def refuse (l : Ledger) (newcomer : Arrival) : Ledger :=
  { l with arrived := l.arrived ++ [newcomer.2], refused := l.refused ++ [newcomer] }

def settle (l : Ledger) (newcomer : Arrival) : Ledger :=
  if l.overCaps newcomer.2.line.length kSoftMaxEvents kSoftMaxBytes then
    if newcomer.2.cls ≠ .state then l.refuse newcomer
    else if l.overCaps newcomer.2.line.length kHardMaxEvents kHardMaxBytes then l.refuse newcomer
    else l.accept newcomer
  else l.accept newcomer

def newcomer (l : Ledger) (instanceId : ℤ) (line : Line) (sessionEpoch : ℤ) : Arrival :=
  (l.arrived.length, { instanceId, line, cls := classify line, live := true, sessionEpoch })

def enqueue (l : Ledger) (instanceId : ℤ) (line : Line) (sessionEpoch : ℤ) : Ledger :=
  let newcomer := l.newcomer instanceId line sessionEpoch
  (makeRoom newcomer (l.live.length + 1) l).settle newcomer

def purge (l : Ledger) (instanceId keepEpoch : ℤ) : Ledger :=
  { l with
    live := l.live.filter fun a => Queue.kept instanceId keepEpoch a.2
    purged := l.purged ++ l.live.filter fun a => !Queue.kept instanceId keepEpoch a.2 }

def enterSession (l : Ledger) (instanceId sessionEpoch : ℤ) : Ledger :=
  if sessionEpoch > 0 ∧ l.polledEpoch instanceId ≠ some sessionEpoch then
    { l.purge instanceId sessionEpoch with
      polledEpoch := Function.update l.polledEpoch instanceId (some sessionEpoch) }
  else l

def take (l : Ledger) (instanceId : ℤ) (a : Arrival) : Ledger :=
  { l with
    live := l.live.eraseP fun a => Queue.addressed instanceId a.2
    polled := l.polled ++ [(instanceId, a)] }

def poll (l : Ledger) (instanceId sessionEpoch : ℤ) (buffer : Bool) (len : ℤ) :
    Queue.Polled × Ledger :=
  let l := l.enterSession instanceId sessionEpoch
  match l.live.find? fun a => Queue.addressed instanceId a.2 with
  | none => ({ result := 0 }, l)
  | some a =>
    let polled := Queue.copyPayloadOrReturnRequiredCapacity a.2.line buffer len
    if polled.result < 0 then (polled, l) else (polled, l.take instanceId a)

def purgeInstance (l : Ledger) (instanceId : ℤ) : Ledger :=
  { l.purge instanceId kSessionEpochNone with
    polledEpoch := Function.update l.polledEpoch instanceId none }

def after (l : Ledger) : Call → Ledger
  | .enqueue instanceId line sessionEpoch => l.enqueue instanceId line sessionEpoch
  | .poll instanceId sessionEpoch buffer len => (l.poll instanceId sessionEpoch buffer len).2
  | .purge instanceId => l.purgeInstance instanceId

end Ledger

/-! ## The queue runs beside the ledger -/

namespace Queue

structure Matches (q : Queue) (l : Ledger) : Prop where
  sound : Sound q
  lives : q.lives = l.live.map Prod.snd
  drops : ∀ cls, q.drops cls = l.dropped.countP fun a => a.2.cls = cls
  polledEpoch : q.polledEpoch = l.polledEpoch

section
variable {q : Queue} {l : Ledger}

theorem Matches.overCaps (h : Matches q l) (incoming maxEvents maxBytes : ℕ) :
    q.overCaps incoming maxEvents maxBytes = l.overCaps incoming maxEvents maxBytes := by
  unfold Queue.overCaps Ledger.overCaps Ledger.bytes
  rw [Counts.liveEvents_eq h.sound.wellFormed, Counts.liveBytes_eq h.sound.wellFormed, h.lives,
    List.length_map, List.map_map]
  rfl

theorem Matches.find? (h : Matches q l) (p : TextEvent → Bool) :
    q.lives.find? p = (l.live.find? fun a => p a.2).map Prod.snd := by
  rw [h.lives, List.find?_map]
  rfl

theorem Matches.eraseP (h : Matches q l) (p : TextEvent → Bool) :
    q.lives.eraseP p = (l.live.eraseP fun a => p a.2).map Prod.snd := by
  rw [h.lives, List.eraseP_map]
  rfl

theorem Matches.filter (h : Matches q l) (p : TextEvent → Bool) :
    q.lives.filter p = (l.live.filter fun a => p a.2).map Prod.snd := by
  rw [h.lives, List.filter_map]
  rfl

/-- An eviction takes the same event from both, or from none. -/
theorem Matches.evict (h : Matches q l) (newcomer : Arrival) {cls : EventClass}
    (hcls : cls ≠ .state) :
    (∃ q' l', q.evictOldest cls = (true, q') ∧ l.evict newcomer cls = some l' ∧ Matches q' l') ∨
    (∃ q', q.evictOldest cls = (false, q') ∧ l.evict newcomer cls = none ∧ Matches q' l) := by
  have hsound := h.sound.evictOldest cls
  have hevicts := evictOldest_evicts h.sound.wellFormed cls hcls
  rcases heq : q.evictOldest cls with ⟨evicted, q'⟩
  rw [heq] at hsound hevicts
  rcases hevicts with ⟨hyes, ⟨e, hfound⟩, hleft⟩ | ⟨hno, hfound, hleft⟩
  · left
    obtain rfl : evicted = true := hyes
    rw [h.find?, Option.map_eq_some_iff] at hfound
    obtain ⟨a, hfind, rfl⟩ := hfound
    have hclass : a.2.cls = cls := by simpa [ofClass] using List.find?_some hfind
    refine ⟨q', _, rfl, by rw [Ledger.evict, hfind, Option.map_some], hsound, ?_, ?_, ?_⟩
    · rw [hleft.lives]
      exact h.eraseP _
    · intro c
      rw [hleft.drops]
      have hdropped : (l.evicted ++ [(a, newcomer)]).map Prod.fst ++ l.refused =
          l.evicted.map Prod.fst ++ a :: l.refused := by simp
      change _ = ((l.evicted ++ [(a, newcomer)]).map Prod.fst ++ l.refused).countP _
      rw [hdropped, List.countP_append, List.countP_cons]
      have hold := h.drops c
      rw [Ledger.dropped, List.countP_append] at hold
      change Function.update q.drops cls (q.drops cls + 1) c = _
      by_cases hc : c = cls
      · subst hc
        rw [Function.update_self, hclass]
        simp only [decide_true, if_true]
        omega
      · rw [Function.update_of_ne hc]
        have hne : ¬ cls = c := fun hsame => hc hsame.symm
        simp only [hclass, hne, decide_false, Bool.false_eq_true, if_false]
        omega
    · rw [hleft.polledEpoch]
      exact h.polledEpoch
  · right
    obtain rfl : evicted = false := hno
    rw [h.find?, Option.map_eq_none_iff] at hfound
    refine ⟨q', rfl, by rw [Ledger.evict, hfound, Option.map_none], hsound, ?_, ?_, ?_⟩
    · rw [hleft.lives, h.lives]
    · rw [hleft.drops]
      exact h.drops
    · rw [hleft.polledEpoch, h.polledEpoch]

theorem Matches.makeRoom (newcomer : Arrival) (turns : ℕ) : ∀ q l, Matches q l →
    Matches (Queue.makeRoom newcomer.2.cls newcomer.2.line.length turns q)
      (Ledger.makeRoom newcomer turns l) := by
  induction turns with
  | zero => exact fun q l h => h
  | succ turns ih =>
    intro q l h
    unfold Queue.makeRoom Ledger.makeRoom
    rw [h.overCaps]
    split_ifs with hover hcls
    · rcases h.evict newcomer (by decide : EventClass.lossy ≠ .state) with
        ⟨q', l', hq, hl, hnext⟩ | ⟨q', hq, hl, hsame⟩
      · rw [hq, hl]
        exact ih q' l' hnext
      · rw [hq, hl]
        dsimp only
        rcases hsame.evict newcomer (by decide : EventClass.chat ≠ .state) with
          ⟨q'', l', hq', hl', hnext⟩ | ⟨q'', hq', hl', hsame'⟩
        · rw [hq', hl']
          exact ih q'' l' hnext
        · rw [hq', hl']
          exact hsame'
    · rcases h.evict newcomer (by decide : EventClass.lossy ≠ .state) with
        ⟨q', l', hq, hl, hnext⟩ | ⟨q', hq, hl, hsame⟩
      · rw [hq, hl]
        exact ih q' l' hnext
      · rw [hq, hl]
        exact hsame
    · exact h

theorem Matches.accept (h : Matches q l) {e : TextEvent} (hlive : e.live = true) (n : ℕ)
    (hroom : q.overCaps e.line.length kHardMaxEvents kHardMaxBytes = false) :
    Matches (q.accept e) (l.accept (n, e)) := by
  refine ⟨h.sound.accept hlive hroom, ?_, h.drops, h.polledEpoch⟩
  have hold := h.lives
  rw [Queue.lives] at hold
  rw [Queue.lives, Queue.accept, List.filter_append, hold]
  simp [Ledger.accept, hlive]

theorem Matches.recordDrop (h : Matches q l) (a : Arrival) :
    Matches (q.recordDrop a.2.cls) (l.refuse a) := by
  refine ⟨h.sound.recordDrop _, h.lives, ?_, h.polledEpoch⟩
  intro c
  have hdropped : (l.refuse a).dropped = l.dropped ++ [a] := by
    simp [Ledger.dropped, Ledger.refuse]
  rw [hdropped, List.countP_append, ← h.drops c]
  change Function.update q.drops a.2.cls (q.drops a.2.cls + 1) c = _
  by_cases hc : c = a.2.cls
  · rw [hc, Function.update_self]
    simp
  · rw [Function.update_of_ne hc]
    have hne : ¬ a.2.cls = c := fun hsame => hc hsame.symm
    simp [hne]

theorem Matches.settle (h : Matches q l) {e : TextEvent} (hlive : e.live = true) (n : ℕ) :
    Matches (if q.overCaps e.line.length kSoftMaxEvents kSoftMaxBytes then
        if e.cls ≠ .state then q.recordDrop e.cls
        else if q.overCaps e.line.length kHardMaxEvents kHardMaxBytes then q.recordDrop e.cls
        else q.accept e
      else q.accept e) (l.settle (n, e)) := by
  unfold Ledger.settle
  rw [← h.overCaps, ← h.overCaps]
  dsimp only
  split_ifs with hsoft hstate hhard
  · exact h.recordDrop (n, e)
  · exact h.recordDrop (n, e)
  · exact h.accept hlive n (by simpa using hhard)
  · exact h.accept hlive n (overCaps_hard (by simpa using hsoft))

theorem Matches.enqueue (h : Matches q l) (i : ℤ) (line : Line) (epoch : ℤ) :
    Matches (q.enqueueTextLineForInstance i line epoch) (l.enqueue i line epoch) := by
  have hlength : q.liveEvents = l.live.length := by
    rw [Counts.liveEvents_eq h.sound.wellFormed, h.lives, List.length_map]
  have hroom := Matches.makeRoom (l.newcomer i line epoch) (l.live.length + 1) q l h
  rw [← hlength] at hroom
  unfold Ledger.enqueue
  rw [← hlength]
  exact hroom.settle (e := (l.newcomer i line epoch).2) rfl l.arrived.length

theorem Matches.enterSession (h : Matches q l) (i epoch : ℤ) :
    Matches (q.enterSession i epoch) (l.enterSession i epoch) := by
  refine ⟨h.sound.enterSession i epoch, ?_, ?_, ?_⟩
  · rw [enterSession_lives, h.polledEpoch, Ledger.enterSession]
    split_ifs
    · exact h.filter _
    · exact h.lives
  · rw [enterSession_drops, Ledger.enterSession]
    split_ifs <;> exact h.drops
  · rw [enterSession_polledEpoch, h.polledEpoch, Ledger.enterSession]
    by_cases hpositive : epoch > 0
    · by_cases hseen : l.polledEpoch i = some epoch
      · rw [if_pos hpositive, if_neg (by simp [hseen]), ← hseen, Function.update_eq_self]
      · rw [if_pos hpositive, if_pos ⟨hpositive, hseen⟩]
    · rw [if_neg hpositive, if_neg (by simp [hpositive])]

theorem Matches.poll (h : Matches q l) (i epoch : ℤ) (buffer : Bool) (len : ℤ) :
    (q.pollText i epoch buffer len).1 = (l.poll i epoch buffer len).1 ∧
      Matches (q.pollText i epoch buffer len).2 (l.poll i epoch buffer len).2 := by
  have hentered := h.enterSession i epoch
  have hsound := h.sound.pollText i epoch buffer len
  have hspec := pollText_spec h.sound.wellFormed i epoch buffer len
  rw [oldestFor, hentered.find?] at hspec
  unfold Ledger.poll
  dsimp only
  rcases hfind : (l.enterSession i epoch).live.find? (fun a => addressed i a.2) with _ | a
  · rw [hfind] at hspec ⊢
    rcases hspec with ⟨-, hpoll⟩ | ⟨e, hsome, -⟩
    · rw [hpoll]
      exact ⟨rfl, hentered⟩
    · simp at hsome
  · rw [hfind] at hspec ⊢
    rcases hspec with ⟨hnone, -⟩ | ⟨e, hsome, hanswer, hcase⟩
    · simp at hnone
    · obtain rfl : a.2 = e := by simpa using hsome
      dsimp only
      rw [← hanswer]
      rcases hcase with ⟨hnegative, hsame⟩ | ⟨hnonneg, hleft⟩
      · rw [if_pos hnegative, hsame]
        exact ⟨rfl, hentered⟩
      · rw [if_neg (by omega)]
        refine ⟨rfl, hsound, ?_, ?_, ?_⟩
        · rw [hleft.lives]
          exact hentered.eraseP _
        · intro c
          rw [hleft.drops, ← enterSession_drops q i epoch]
          exact hentered.drops c
        · rw [hleft.polledEpoch]
          exact hentered.polledEpoch

theorem Matches.after (h : Matches q l) (call : Call) : Matches (q.after call) (l.after call) := by
  cases call with
  | enqueue i line epoch => exact h.enqueue i line epoch
  | poll i epoch buffer len => exact (h.poll i epoch buffer len).2
  | purge i =>
    obtain ⟨hlives, hdrops, hepochs⟩ := purgeInstance_leaves q i
    refine ⟨h.sound.after (.purge i), ?_, ?_, ?_⟩
    · change (q.purgeInstance i).lives = _
      rw [hlives]
      exact h.filter _
    · intro c
      change (q.purgeInstance i).drops c = _
      rw [hdrops]
      exact h.drops c
    · change (q.purgeInstance i).polledEpoch = _
      rw [hepochs, h.polledEpoch]
      rfl

end

end Queue

/-! ## The laws of the ledger -/

namespace Ledger

/-- How often an event stands in a list. -/
def times (n : ℕ) (as : List Arrival) : ℕ := as.countP fun a => a.1 = n

structure Lawful (l : Ledger) : Prop where
  accounted : ∀ n, times n (l.polled.map Prod.snd) + times n l.live + times n l.purged +
    times n l.dropped = if n < l.arrived.length then 1 else 0
  genuine : ∀ a ∈ l.polled.map Prod.snd ++ l.live ++ l.purged ++ l.dropped,
    l.arrived[a.1]? = some a.2
  ordered : l.live.Pairwise fun a b => a.1 < b.1
  inOrder : ∀ i, (l.polled.filter fun p => p.1 = i).Pairwise fun a b => a.2.1 < b.2.1
  behind : ∀ p ∈ l.polled, ∀ a ∈ l.live, Queue.addressed p.1 a.2 = true → p.2.1 < a.1
  evictable : ∀ x ∈ l.evicted, x.1.2.cls ≠ .state
  spared : ∀ x ∈ l.evicted, x.2.2.cls = .lossy → x.1.2.cls ≠ .chat
  older : ∀ x ∈ l.evicted, ∀ a ∈ l.live, x.1.2.cls = a.2.cls → x.1.1 < a.1

section
variable {l : Ledger} {a : Arrival} {p : Arrival → Bool}

theorem find?_split {as : List Arrival} (h : as.find? p = some a) :
    ∃ before later, as = before ++ a :: later ∧ as.eraseP p = before ++ later ∧ p a = true ∧
      ∀ b ∈ before, ¬ p b = true := by
  obtain ⟨hp, before, later, hsplit, hbefore⟩ := List.find?_eq_some_iff_append.mp h
  refine ⟨before, later, hsplit, ?_, hp, fun b hb => by simpa using hbefore b hb⟩
  rw [hsplit, List.eraseP_append_right _ (fun b hb => by simpa using hbefore b hb),
    List.eraseP_cons_of_pos hp]

theorem times_erase {as : List Arrival} (h : as.find? p = some a) (n : ℕ) :
    times n as = times n (as.eraseP p) + if a.1 = n then 1 else 0 := by
  obtain ⟨before, later, hsplit, herase, -, -⟩ := find?_split h
  rw [herase, hsplit]
  simp only [times, List.countP_append, List.countP_cons, decide_eq_true_eq]
  omega

theorem times_filter (as : List Arrival) (n : ℕ) :
    times n as = times n (as.filter p) + times n (as.filter fun a => !p a) := by
  unfold times
  rw [List.countP_eq_countP_filter_add as _ p]

theorem times_append (as bs : List Arrival) (n : ℕ) :
    times n (as ++ bs) = times n as + times n bs := List.countP_append

theorem times_single (a : Arrival) (n : ℕ) : times n [a] = if a.1 = n then 1 else 0 := by
  simp [times, List.countP_cons]

/-- The first event with a property came before the others that have it. -/
theorem first_before {as : List Arrival} (hordered : as.Pairwise fun a b => a.1 < b.1)
    (h : as.find? p = some a) : ∀ b ∈ as.eraseP p, p b = true → a.1 < b.1 := by
  obtain ⟨before, later, hsplit, herase, -, hbefore⟩ := find?_split h
  intro b hb hpb
  rw [herase, List.mem_append] at hb
  rw [hsplit, List.pairwise_append, List.pairwise_cons] at hordered
  rcases hb with hb | hb
  · exact absurd hpb (hbefore b hb)
  · exact hordered.2.1.1 b hb

theorem Lawful.number_lt (h : Lawful l)
    (ha : a ∈ l.polled.map Prod.snd ++ l.live ++ l.purged ++ l.dropped) :
    a.1 < l.arrived.length := (List.getElem?_eq_some_iff.mp (h.genuine a ha)).1

theorem Lawful.evict {l' : Ledger} {newcomer : Arrival} {cls : EventClass} (h : Lawful l)
    (hcls : cls ≠ .state) (hspared : newcomer.2.cls = .lossy → cls ≠ .chat)
    (hevict : l.evict newcomer cls = some l') : Lawful l' ∧ l'.arrived = l.arrived := by
  obtain ⟨a, hfind, rfl⟩ := Option.map_eq_some_iff.mp hevict
  have hclass : a.2.cls = cls := by simpa [Queue.ofClass] using List.find?_some hfind
  have hmem : a ∈ l.live := List.mem_of_find?_eq_some hfind
  have hsub : ∀ b ∈ l.live.eraseP fun a => Queue.ofClass cls a.2, b ∈ l.live :=
    fun b hb => List.mem_of_mem_eraseP hb
  refine ⟨⟨?_, ?_, ?_, h.inOrder, ?_, ?_, ?_, ?_⟩, rfl⟩
  · intro n
    have hcount := h.accounted n
    rw [times_erase hfind n] at hcount
    rw [← hcount, dropped, dropped, List.map_append, times_append, times_append, times_append]
    simp only [List.map_cons, List.map_nil, times_single]
    omega
  · intro b hb
    refine h.genuine b ?_
    simp only [dropped, List.map_append, List.map_cons, List.map_nil, List.mem_append,
      List.mem_singleton] at hb ⊢
    rcases hb with ((hb | hb) | hb) | (hb | hb) | hb
    · simp [hb]
    · simp [hsub b hb]
    · simp [hb]
    · simp [hb]
    · simp [hb, hmem]
    · simp [hb]
  · exact h.ordered.sublist List.eraseP_sublist
  · exact fun p hp b hb => h.behind p hp b (hsub b hb)
  · intro x hx
    rcases List.mem_append.mp hx with hx | hx
    · exact h.evictable x hx
    · rw [List.mem_singleton.mp hx, hclass]
      exact hcls
  · intro x hx hlossy
    rcases List.mem_append.mp hx with hx | hx
    · exact h.spared x hx hlossy
    · rw [List.mem_singleton.mp hx] at hlossy ⊢
      rw [hclass]
      exact hspared hlossy
  · intro x hx b hb hsame
    rcases List.mem_append.mp hx with hx | hx
    · exact h.older x hx b (hsub b hb) hsame
    · rw [List.mem_singleton.mp hx] at hsame ⊢
      refine first_before h.ordered hfind b hb ?_
      simp only [Queue.ofClass, decide_eq_true_eq]
      rw [← hsame, hclass]

theorem Lawful.makeRoom (newcomer : Arrival) (turns : ℕ) : ∀ l, Lawful l →
    Lawful (makeRoom newcomer turns l) ∧ (makeRoom newcomer turns l).arrived = l.arrived := by
  induction turns with
  | zero => exact fun l h => ⟨h, rfl⟩
  | succ turns ih =>
    intro l h
    unfold Ledger.makeRoom
    split_ifs with hover hcls
    · split
      · rename_i l' hlossy
        have hnext := h.evict (by decide) (fun _ => by decide) hlossy
        have hrest := ih l' hnext.1
        exact ⟨hrest.1, hrest.2.trans hnext.2⟩
      · split
        · rename_i l' hchat
          have hnext := h.evict (by decide) (fun hlossy => absurd hlossy hcls) hchat
          have hrest := ih l' hnext.1
          exact ⟨hrest.1, hrest.2.trans hnext.2⟩
        · exact ⟨h, rfl⟩
    · split
      · rename_i l' hlossy
        have hnext := h.evict (by decide) (fun _ => by decide) hlossy
        have hrest := ih l' hnext.1
        exact ⟨hrest.1, hrest.2.trans hnext.2⟩
      · exact ⟨h, rfl⟩
    · exact ⟨h, rfl⟩

theorem Lawful.genuine_snoc (h : Lawful l) (e : TextEvent) :
    ∀ b ∈ l.polled.map Prod.snd ++ l.live ++ l.purged ++ l.dropped,
      (l.arrived ++ [e])[b.1]? = some b.2 := by
  intro b hb
  have hold := h.genuine b hb
  rw [List.getElem?_append_left (List.getElem?_eq_some_iff.mp hold).1]
  exact hold

theorem Lawful.accept (h : Lawful l) (ha : a.1 = l.arrived.length) : Lawful (l.accept a) := by
  have hnew : (l.arrived ++ [a.2])[a.1]? = some a.2 := by
    rw [ha, List.getElem?_concat_length]
  refine ⟨?_, ?_, ?_, h.inOrder, ?_, h.evictable, h.spared, ?_⟩
  · intro n
    have hcount := h.accounted n
    change times n (l.polled.map Prod.snd) + times n (l.live ++ [a]) + times n l.purged +
      times n l.dropped = if n < (l.arrived ++ [a.2]).length then 1 else 0
    rw [times_append, times_single, List.length_append, List.length_singleton]
    split_ifs at hcount ⊢ <;> omega
  · intro b hb
    have hcases : b ∈ l.polled.map Prod.snd ++ l.live ++ l.purged ++ l.dropped ∨ b = a := by
      change b ∈ l.polled.map Prod.snd ++ (l.live ++ [a]) ++ l.purged ++ l.dropped at hb
      simp only [List.mem_append, List.mem_singleton] at hb ⊢
      tauto
    rcases hcases with hold | rfl
    · exact h.genuine_snoc a.2 b hold
    · exact hnew
  · refine List.pairwise_append.mpr ⟨h.ordered, List.pairwise_singleton _ _, ?_⟩
    intro b hb c hc
    rw [List.mem_singleton.mp hc, ha]
    exact h.number_lt (by simp [hb])
  · intro x hx b hb haddressed
    rcases List.mem_append.mp hb with hb | hb
    · exact h.behind x hx b hb haddressed
    · rw [List.mem_singleton.mp hb, ha]
      have hpolled : x.2 ∈ l.polled.map Prod.snd := List.mem_map_of_mem hx
      exact h.number_lt (List.mem_append_left _ (List.mem_append_left _
        (List.mem_append_left _ hpolled)))
  · intro x hx b hb hsame
    rcases List.mem_append.mp hb with hb | hb
    · exact h.older x hx b hb hsame
    · rw [List.mem_singleton.mp hb, ha]
      have hevicted : x.1 ∈ l.evicted.map Prod.fst := List.mem_map_of_mem hx
      exact h.number_lt (List.mem_append_right _ (List.mem_append_left _ hevicted))

theorem Lawful.refuse (h : Lawful l) (ha : a.1 = l.arrived.length) : Lawful (l.refuse a) := by
  have hnew : (l.arrived ++ [a.2])[a.1]? = some a.2 := by
    rw [ha, List.getElem?_concat_length]
  have hdropped : (l.refuse a).dropped = l.dropped ++ [a] := by
    simp [dropped, Ledger.refuse]
  refine ⟨?_, ?_, h.ordered, h.inOrder, h.behind, h.evictable, h.spared, h.older⟩
  · intro n
    have hcount := h.accounted n
    rw [hdropped]
    change times n (l.polled.map Prod.snd) + times n l.live + times n l.purged +
      times n (l.dropped ++ [a]) = if n < (l.arrived ++ [a.2]).length then 1 else 0
    rw [times_append, times_single, List.length_append, List.length_singleton]
    split_ifs at hcount ⊢ <;> omega
  · intro b hb
    have hcases : b ∈ l.polled.map Prod.snd ++ l.live ++ l.purged ++ l.dropped ∨ b = a := by
      rw [hdropped] at hb
      change b ∈ l.polled.map Prod.snd ++ l.live ++ l.purged ++ (l.dropped ++ [a]) at hb
      simp only [List.mem_append, List.mem_singleton] at hb ⊢
      tauto
    rcases hcases with hold | rfl
    · exact h.genuine_snoc a.2 b hold
    · exact hnew

theorem Lawful.settle (h : Lawful l) (ha : a.1 = l.arrived.length) : Lawful (l.settle a) := by
  unfold Ledger.settle
  split_ifs
  · exact h.refuse ha
  · exact h.refuse ha
  · exact h.accept ha
  · exact h.accept ha

theorem Lawful.enqueue (h : Lawful l) (i : ℤ) (line : Line) (epoch : ℤ) :
    Lawful (l.enqueue i line epoch) := by
  have hroom := Lawful.makeRoom (l.newcomer i line epoch) (l.live.length + 1) l h
  refine hroom.1.settle ?_
  rw [hroom.2]
  rfl

theorem Lawful.purge (h : Lawful l) (i keepEpoch : ℤ) (polledEpoch : ℤ → Option ℤ) :
    Lawful { l.purge i keepEpoch with polledEpoch } := by
  have hsub : ∀ b ∈ l.live.filter (fun a => Queue.kept i keepEpoch a.2), b ∈ l.live :=
    fun b hb => (List.mem_filter.mp hb).1
  refine ⟨?_, ?_, h.ordered.sublist List.filter_sublist, h.inOrder,
    fun x hx b hb => h.behind x hx b (hsub b hb), h.evictable, h.spared,
    fun x hx b hb => h.older x hx b (hsub b hb)⟩
  · intro n
    have hcount := h.accounted n
    rw [times_filter (p := fun a => Queue.kept i keepEpoch a.2) l.live] at hcount
    change times n (l.polled.map Prod.snd) + times n (l.live.filter _) +
      times n (l.purged ++ l.live.filter _) + times n l.dropped = _
    rw [times_append]
    change _ = (if n < l.arrived.length then 1 else 0)
    omega
  · intro b hb
    refine h.genuine b ?_
    change b ∈ l.polled.map Prod.snd ++ l.live.filter _ ++ (l.purged ++ l.live.filter _) ++
      l.dropped at hb
    simp only [List.mem_append, List.mem_filter] at hb ⊢
    tauto

theorem Lawful.enterSession (h : Lawful l) (i epoch : ℤ) : Lawful (l.enterSession i epoch) := by
  unfold Ledger.enterSession
  split_ifs
  · exact h.purge i epoch _
  · exact h

theorem Lawful.take {i : ℤ} (h : Lawful l)
    (hfind : l.live.find? (fun a => Queue.addressed i a.2) = some a) : Lawful (l.take i a) := by
  have hmem : a ∈ l.live := List.mem_of_find?_eq_some hfind
  have hself : Queue.addressed i a.2 = true := by simpa using List.find?_some hfind
  have hsub : ∀ b ∈ l.live.eraseP fun a => Queue.addressed i a.2, b ∈ l.live :=
    fun b hb => List.mem_of_mem_eraseP hb
  refine ⟨?_, ?_, h.ordered.sublist List.eraseP_sublist, ?_, ?_, h.evictable, h.spared,
    fun x hx b hb => h.older x hx b (hsub b hb)⟩
  · intro n
    have hcount := h.accounted n
    rw [times_erase hfind n] at hcount
    change times n ((l.polled ++ [(i, a)]).map Prod.snd) + times n (l.live.eraseP _) +
      times n l.purged + times n l.dropped = (if n < l.arrived.length then 1 else 0)
    rw [List.map_append, times_append, List.map_cons, List.map_nil, times_single]
    dsimp only
    omega
  · intro b hb
    refine h.genuine b ?_
    change b ∈ (l.polled ++ [(i, a)]).map Prod.snd ++ l.live.eraseP _ ++ l.purged ++
      l.dropped at hb
    simp only [List.map_append, List.map_cons, List.map_nil, List.mem_append,
      List.mem_singleton] at hb ⊢
    rcases hb with (((hb | hb) | hb) | hb) | hb
    · tauto
    · rw [hb]
      tauto
    · have := hsub b hb
      tauto
    · tauto
    · tauto
  · intro j
    change ((l.polled ++ [(i, a)]).filter fun p => p.1 = j).Pairwise _
    rw [List.filter_append, List.pairwise_append]
    refine ⟨h.inOrder j, ?_, ?_⟩
    · exact (List.pairwise_singleton _ _).sublist List.filter_sublist
    · intro x hx y hy
      rw [List.mem_filter] at hx hy
      rw [List.mem_singleton] at hy
      obtain ⟨rfl, hj⟩ := hy
      have hi : x.1 = i := by
        have hleft : x.1 = j := by simpa using hx.2
        have hright : i = j := by simpa using hj
        rw [hleft, hright]
      exact h.behind x hx.1 a hmem (by rw [hi]; exact hself)
  · intro x hx b hb haddressed
    rcases List.mem_append.mp hx with hx | hx
    · exact h.behind x hx b (hsub b hb) haddressed
    · rw [List.mem_singleton.mp hx] at haddressed ⊢
      exact first_before h.ordered hfind b hb haddressed

theorem Lawful.after (h : Lawful l) (call : Call) : Lawful (l.after call) := by
  cases call with
  | enqueue i line epoch => exact h.enqueue i line epoch
  | purge i => exact h.purge i kSessionEpochNone _
  | poll i epoch buffer len =>
    have hentered := h.enterSession i epoch
    change Lawful (l.poll i epoch buffer len).2
    unfold Ledger.poll
    dsimp only
    split
    · exact hentered
    · rename_i a hfind
      split_ifs
      · exact hentered
      · exact hentered.take hfind

theorem makeRoom_same (newcomer : Arrival) (turns : ℕ) : ∀ l,
    (makeRoom newcomer turns l).polled = l.polled ∧
      (makeRoom newcomer turns l).refused = l.refused := by
  have hevict : ∀ l l' : Ledger, ∀ cls, l.evict newcomer cls = some l' →
      l'.polled = l.polled ∧ l'.refused = l.refused := by
    intro l l' cls h
    obtain ⟨a, -, rfl⟩ := Option.map_eq_some_iff.mp h
    exact ⟨rfl, rfl⟩
  induction turns with
  | zero => exact fun l => ⟨rfl, rfl⟩
  | succ turns ih =>
    intro l
    unfold Ledger.makeRoom
    split_ifs
    · split
      · rename_i l' hlossy
        rw [(ih l').1, (ih l').2]
        exact hevict l l' _ hlossy
      · split
        · rename_i l' hchat
          rw [(ih l').1, (ih l').2]
          exact hevict l l' _ hchat
        · exact ⟨rfl, rfl⟩
    · split
      · rename_i l' hlossy
        rw [(ih l').1, (ih l').2]
        exact hevict l l' _ hlossy
      · exact ⟨rfl, rfl⟩
    · exact ⟨rfl, rfl⟩

theorem enqueue_polled (i : ℤ) (line : Line) (epoch : ℤ) :
    (l.enqueue i line epoch).polled = l.polled := by
  have hsame := (makeRoom_same (l.newcomer i line epoch) (l.live.length + 1) l).1
  unfold Ledger.enqueue Ledger.settle
  dsimp only
  split_ifs <;> exact hsame

theorem enqueue_arrived (h : Lawful l) (i : ℤ) (line : Line) (epoch : ℤ) :
    (l.enqueue i line epoch).arrived = l.arrived ++ [(l.newcomer i line epoch).2] := by
  have hroom := (Lawful.makeRoom (l.newcomer i line epoch) (l.live.length + 1) l h).2
  unfold Ledger.enqueue Ledger.settle
  dsimp only
  split_ifs
  all_goals
    change (Ledger.makeRoom _ _ l).arrived ++ _ = _
    rw [hroom]

/-- A state event counted as a drop was refused: none is ever evicted. -/
theorem Lawful.dropped_state (h : Lawful l) :
    (l.dropped.countP fun a => a.2.cls = .state) = l.refused.countP fun a => a.2.cls = .state := by
  have hnone : ((l.evicted.map Prod.fst).countP fun a => a.2.cls = .state) = 0 := by
    rw [List.countP_eq_zero]
    intro a ha
    obtain ⟨x, hx, rfl⟩ := List.mem_map.mp ha
    simpa using h.evictable x hx
  rw [dropped, List.countP_append, hnone, Nat.zero_add]

theorem Lawful.refused_state (h : Lawful l) (i : ℤ) {line : Line} (epoch : ℤ)
    (hclass : classify line = .state) :
    ((l.enqueue i line epoch).dropped.countP fun a => a.2.cls = .state) =
        (l.dropped.countP fun a => a.2.cls = .state) ∨
      kHardMaxEvents < (l.enqueue i line epoch).live.length + 1 ∨
        kHardMaxBytes < (l.enqueue i line epoch).bytes + line.length := by
  have hrefused := (makeRoom_same (l.newcomer i line epoch) (l.live.length + 1) l).2
  rw [(h.enqueue i line epoch).dropped_state, h.dropped_state]
  unfold Ledger.enqueue Ledger.settle
  dsimp only
  split_ifs with hsoft hstate hhard
  · exact absurd hclass hstate
  · right
    simp only [Ledger.overCaps, Bool.or_eq_true, decide_eq_true_eq, gt_iff_lt] at hhard
    exact hhard
  · left
    change ((Ledger.makeRoom _ _ l).refused.countP _) = _
    rw [hrefused]
  · left
    change ((Ledger.makeRoom _ _ l).refused.countP _) = _
    rw [hrefused]

end

end Ledger

/-! ## Runs -/

namespace Queue

/-- The event a call enqueues. -/
def enqueued : Call → Option TextEvent
  | .enqueue instanceId line sessionEpoch =>
    some { instanceId, line, cls := classify line, live := true, sessionEpoch }
  | _ => none

/-- The bytes a call returns, and to which instance. -/
def answer (q : Queue) : Call → Option (ℤ × Line)
  | .poll instanceId sessionEpoch buffer len =>
    (q.pollText instanceId sessionEpoch buffer len).1.payload.map fun payload => (instanceId, payload)
  | _ => none

def answers : Queue → List Call → List (ℤ × Line)
  | _, [] => []
  | q, call :: calls => (q.answer call).toList ++ answers (q.after call) calls

/-- A poll comes with a buffer. -/
def buffered : Call → Bool
  | .poll _ _ buffer _ => buffer
  | _ => true

/-- What a run has done, told by the ledger beside it. -/
structure Delivers (calls : List Call) (q : Queue) (l : Ledger) : Prop where
  arrived : l.arrived = calls.filterMap enqueued
  live : q.lives = l.live.map Prod.snd
  returned : answers {} calls = l.polled.map fun p => (p.1, p.2.2.line)
  counted : ∀ cls, q.drops cls = l.dropped.countP fun a => a.2.cls = cls
  lawful : l.Lawful
  refusal : ∀ i line epoch, classify line = .state →
    (q.enqueueTextLineForInstance i line epoch).drops .state = q.drops .state ∨
      kHardMaxEvents < (q.enqueueTextLineForInstance i line epoch).lives.length + 1 ∨
      kHardMaxBytes < ((q.enqueueTextLineForInstance i line epoch).lives.map
        fun e => e.line.length).sum + line.length
  negative : ∀ i epoch buffer len, (q.pollText i epoch buffer len).1.result < 0 →
    (q.pollText i epoch buffer len).2.lives =
      if epoch > 0 ∧ q.polledEpoch i ≠ some epoch then
        q.lives.filter fun e => !purges i epoch e
      else q.lives

section
variable {q : Queue} {l : Ledger}

theorem copyPayload_payload {payload : Line} {len : ℤ}
    (h : 0 ≤ (copyPayloadOrReturnRequiredCapacity payload true len).result) :
    (copyPayloadOrReturnRequiredCapacity payload true len).payload = some payload := by
  unfold copyPayloadOrReturnRequiredCapacity at h ⊢
  split_ifs at h ⊢
  · simp at h
    omega
  · simp at h
    omega
  · contradiction
  · simp at h
    omega
  · rfl

theorem copyPayload_none {payload : Line} {buffer : Bool} {len : ℤ}
    (h : (copyPayloadOrReturnRequiredCapacity payload buffer len).result < 0) :
    (copyPayloadOrReturnRequiredCapacity payload buffer len).payload = none := by
  unfold copyPayloadOrReturnRequiredCapacity at h ⊢
  split_ifs at h ⊢
  · rfl
  · rfl
  · rfl
  · rfl
  · simp at h
    omega

/-- What a call returns is the line of the event it takes. -/
theorem Matches.answer (h : Matches q l) (call : Call) (hbuffer : buffered call = true) :
    (l.after call).polled.map (fun p => (p.1, p.2.2.line)) =
      l.polled.map (fun p => (p.1, p.2.2.line)) ++ (q.answer call).toList := by
  cases call with
  | enqueue i line epoch =>
    change (l.enqueue i line epoch).polled.map _ = _
    rw [Ledger.enqueue_polled]
    simp [Queue.answer]
  | purge i => simp [Queue.answer, Ledger.after, Ledger.purgeInstance, Ledger.purge]
  | poll i epoch buffer len =>
    obtain rfl : buffer = true := hbuffer
    have hsame := (h.poll i epoch true len).1
    have hpolled : (l.enterSession i epoch).polled = l.polled := by
      unfold Ledger.enterSession
      split_ifs <;> rfl
    simp only [Queue.answer, hsame]
    change (l.poll i epoch true len).2.polled.map _ = _
    unfold Ledger.poll
    dsimp only
    split
    · simp [hpolled]
    · rename_i a hfind
      split_ifs with hnegative
      · rw [copyPayload_none hnegative]
        simp [hpolled]
      · rw [copyPayload_payload (Int.not_lt.mp hnegative)]
        simp [Ledger.take, hpolled]

theorem Matches.run (calls : List Call) : ∀ q l, Matches q l → l.Lawful →
    (∀ call ∈ calls, buffered call = true) →
      Matches (calls.foldl Queue.after q) (calls.foldl Ledger.after l) ∧
      (calls.foldl Ledger.after l).Lawful ∧
      (calls.foldl Ledger.after l).arrived = l.arrived ++ calls.filterMap enqueued ∧
      (calls.foldl Ledger.after l).polled.map (fun p => (p.1, p.2.2.line)) =
        l.polled.map (fun p => (p.1, p.2.2.line)) ++ answers q calls := by
  induction calls with
  | nil =>
    intro q l h hlawful _
    exact ⟨h, hlawful, by simp, by simp [answers]⟩
  | cons call calls ih =>
    intro q l h hlawful hbuffers
    have hnext := ih (q.after call) (l.after call) (h.after call) (hlawful.after call)
      fun c hc => hbuffers c (List.mem_cons_of_mem _ hc)
    have hanswer := h.answer call (hbuffers call List.mem_cons_self)
    have harrived : (l.after call).arrived = l.arrived ++ (enqueued call).toList := by
      cases call with
      | enqueue i line epoch => exact Ledger.enqueue_arrived hlawful i line epoch
      | purge i => simp [enqueued, Ledger.after, Ledger.purgeInstance, Ledger.purge]
      | poll i epoch buffer len =>
        have hentered : (l.enterSession i epoch).arrived = l.arrived := by
          unfold Ledger.enterSession
          split_ifs <;> rfl
        change (l.poll i epoch buffer len).2.arrived = _
        unfold Ledger.poll
        dsimp only
        split
        · simp [hentered, enqueued]
        · split_ifs <;> simp [Ledger.take, hentered, enqueued]
    simp only [List.foldl_cons]
    refine ⟨hnext.1, hnext.2.1, ?_, ?_⟩
    · rw [hnext.2.2.1, harrived, List.append_assoc]
      cases hcall : enqueued call <;> simp [hcall]
    · rw [hnext.2.2.2, hanswer, answers, List.append_assoc]

end

/-- For every run of producers, polls with any buffer sizes and purges: each event is at every
    moment once polled, live, purged or counted as a drop of its class; what an instance polls are
    whole lines in the order of their arrival; state events are not evicted and refused only at a
    hard cap; a lossy newcomer costs no chat event; evicted events are older than the live ones of
    their class; and a poll that returns a negative number leaves the live events alone, but for
    what the first poll of a session drops. -/
theorem events_delivered_or_accounted (calls : List Call)
    (hbuffers : ∀ call ∈ calls, buffered call = true) :
    Delivers calls (calls.foldl Queue.after {}) (calls.foldl Ledger.after {}) := by
  have hempty : Ledger.Lawful {} :=
    ⟨fun n => by simp [Ledger.times, Ledger.dropped], by simp [Ledger.dropped], List.Pairwise.nil,
      fun i => List.Pairwise.nil, by simp, by simp, by simp, by simp⟩
  have hstart : Matches {} {} := ⟨Sound.empty, rfl, fun cls => rfl, rfl⟩
  obtain ⟨hmatches, hlawful, harrived, hreturned⟩ :=
    Matches.run calls {} {} hstart hempty hbuffers
  refine ⟨by simpa using harrived, hmatches.lives, by simpa using hreturned.symm, hmatches.drops,
    hlawful, ?_, ?_⟩
  · intro i line epoch hclass
    have hafter := hmatches.enqueue i line epoch
    rw [hafter.drops, hmatches.drops, hafter.lives, List.length_map, List.map_map]
    exact hlawful.refused_state i epoch hclass
  · intro i epoch buffer len hnegative
    have hspec := pollText_spec hmatches.sound.wellFormed i epoch buffer len
    refine Eq.trans ?_ (enterSession_lives _ i epoch)
    rcases hspec with ⟨-, hpoll⟩ | ⟨e, -, -, ⟨-, hsame⟩ | ⟨hnonneg, -⟩⟩
    · rw [hpoll]
    · rw [hsame]
    · omega

/-- One event polled, one purged with its session, one live. -/
def someCalls : List Call :=
  [.enqueue 7 (ascii "c2c:a:one") 1, .poll 7 1 true 64, .enqueue 7 (ascii "typing:a") 1,
    .enqueue 7 (ascii "c2c:b:two") 2, .poll 7 2 true 4]

theorem some_calls_accounted :
    Delivers someCalls (someCalls.foldl Queue.after {}) (someCalls.foldl Ledger.after {}) ∧
      answers {} someCalls = [(7, ascii "c2c:a:one")] :=
  ⟨events_delivered_or_accounted someCalls (by decide), by decide⟩

/-- The buffer is too small for the record of the new session, and the record the previous session
    left is gone all the same. -/
theorem short_buffer_drops_old_record :
    let q := List.foldl Queue.after {} [.enqueue 7 (ascii "c2c:a:one") 1,
      .enqueue 7 (ascii "c2c:b:two") 2]
    (q.pollText 7 2 true 4).1.result < 0 ∧ q.lives.length = 2 ∧
      (q.pollText 7 2 true 4).2.lives.length = 1 := by
  decide

end Queue
end Tim2Tox.TextQueue
