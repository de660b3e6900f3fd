import Tim2Tox.TextQueueLives

set_option autoImplicit false

/-!
# What a newcomer to the text-event queue displaces

The loop that makes room takes the events a newcomer may displace one by one until the newcomer
fits, and the newcomer is judged by what is left.
-/
namespace Tim2Tox.TextQueue
namespace Queue

/-! ## Live events as a plain list -/

/-- The events a newcomer of a class may displace. -/
def displaceable (newcomer : EventClass) (e : TextEvent) : Bool :=
  e.cls = .lossy || (e.cls = .chat && newcomer ≠ .lossy)

def bytesIn (l : List TextEvent) : ℕ := (l.map fun e => e.line.length).sum

/-- The newcomer does not fit beside the events. -/
def crowds (l : List TextEvent) (bytes maxEvents maxBytes : ℕ) : Bool :=
  l.length + 1 > maxEvents || bytesIn l + bytes > maxBytes

/-- Beside these events the newcomer is refused. -/
def refusedBeside (l : List TextEvent) (cls : EventClass) (bytes : ℕ) : Bool :=
  crowds l bytes kSoftMaxEvents kSoftMaxBytes &&
    (cls ≠ .state || crowds l bytes kHardMaxEvents kHardMaxBytes)

section
variable {l l' : List TextEvent} {cls : EventClass} {bytes : ℕ}

theorem crowds_perm (h : l.Perm l') (maxEvents maxBytes : ℕ) :
    crowds l bytes maxEvents maxBytes = crowds l' bytes maxEvents maxBytes := by
  have hbytes : bytesIn l = bytesIn l' := (h.map _).sum_nat
  rw [crowds, crowds, h.length_eq, hbytes]

theorem bytesIn_append (l l' : List TextEvent) : bytesIn (l ++ l') = bytesIn l + bytesIn l' := by
  rw [bytesIn, List.map_append, List.sum_append_nat]
  rfl

theorem crowds_append {maxEvents maxBytes : ℕ}
    (h : crowds l' bytes maxEvents maxBytes = true) :
    crowds (l ++ l') bytes maxEvents maxBytes = true := by
  rw [crowds, Bool.or_eq_true, decide_eq_true_eq, decide_eq_true_eq] at h ⊢
  rw [List.length_append, bytesIn_append]
  omega

end

section
variable {q : Queue} {cls : EventClass} {bytes : ℕ}

theorem WellFormed.overCaps_eq (h : WellFormed q) (bytes maxEvents maxBytes : ℕ) :
    q.overCaps bytes maxEvents maxBytes = crowds q.lives bytes maxEvents maxBytes := by
  rw [overCaps, crowds, Counts.liveEvents_eq h, Counts.liveBytes_eq h]
  rfl

/-! ## One turn of the loop -/

/-- One turn: the event evicted, if there is one, and the queue after it. -/
def displace (cls : EventClass) (q : Queue) : Option TextEvent × Queue :=
  match q.evictOldest .lossy with
  | (true, q') => (q.lives.find? (ofClass .lossy), q')
  | (false, q') =>
    if cls ≠ .lossy then
      match q'.evictOldest .chat with
      | (true, q'') => (q'.lives.find? (ofClass .chat), q'')
      | (false, q'') => (none, q'')
    else (none, q')

/-- The event leaves the live ones and nothing else changes there. -/
def Takes (e : TextEvent) (l l' : List TextEvent) : Prop :=
  ∃ before later, l = before ++ e :: later ∧ l' = before ++ later

theorem takes_eraseP {l : List TextEvent} {p : TextEvent → Bool} {e : TextEvent}
    (h : l.find? p = some e) : Takes e l (l.eraseP p) := by
  obtain ⟨hp, before, later, hsplit, hnone⟩ := List.find?_eq_some_iff_append.mp h
  have hbefore : ∀ b ∈ before, ¬ p b = true := fun b hb => by simpa using hnone b hb
  refine ⟨before, later, hsplit, ?_⟩
  rw [hsplit, List.eraseP_append_right _ hbefore, List.eraseP_cons_of_pos hp]

theorem Takes.perm {l l' : List TextEvent} {e : TextEvent} (h : Takes e l l') :
    l.Perm (e :: l') := by
  obtain ⟨before, later, rfl, rfl⟩ := h
  exact List.perm_middle

theorem Takes.filter {l l' : List TextEvent} {e : TextEvent} {p : TextEvent → Bool}
    (h : Takes e l l') (hp : p e = false) : l'.filter p = l.filter p := by
  obtain ⟨before, later, rfl, rfl⟩ := h
  rw [List.filter_append, List.filter_append, List.filter_cons_of_neg (by simp [hp])]

theorem find?_none_class {l : List TextEvent} (h : l.find? (ofClass cls) = none)
    {e : TextEvent} (he : e ∈ l) : e.cls ≠ cls := by
  have hnot := List.find?_eq_none.mp h e he
  simpa [ofClass] using hnot

/-- What one turn does: it evicts one event it may displace, or there is none. -/
theorem displace_spec (h : Sound q) (cls : EventClass) : Sound (displace cls q).2 ∧
    ((∃ e, (displace cls q).1 = some e ∧ displaceable cls e = true ∧
        Takes e q.lives (displace cls q).2.lives) ∨
      ((displace cls q).1 = none ∧ (displace cls q).2.lives = q.lives ∧
        ∀ e ∈ q.lives, displaceable cls e = false)) := by
  have hlossy := evictOldest_evicts h.wellFormed .lossy (by decide)
  have hsound := h.evictOldest .lossy
  rcases heq : q.evictOldest .lossy with ⟨evicted, q'⟩
  rw [heq] at hlossy hsound
  unfold displace
  rw [heq]
  rcases hlossy with ⟨rfl, ⟨e, hfound⟩, hleft⟩ | ⟨rfl, hnone, hleft⟩
  · refine ⟨hsound, Or.inl ⟨e, hfound, ?_, ?_⟩⟩
    · have hclass := List.find?_some hfound
      rw [ofClass] at hclass
      rw [displaceable, hclass, Bool.true_or]
    · rw [hleft.lives]
      exact takes_eraseP hfound
  · dsimp only at hleft hsound ⊢
    have hnoLossy : ∀ e ∈ q.lives, e.cls ≠ .lossy := fun e he => find?_none_class hnone he
    split_ifs with hcls
    · have hchat := evictOldest_evicts hsound.wellFormed .chat (by decide)
      have hsound' := hsound.evictOldest .chat
      rcases heq' : q'.evictOldest .chat with ⟨evicted', q''⟩
      rw [heq'] at hchat hsound'
      rcases hchat with ⟨rfl, ⟨e, hfound⟩, hleft'⟩ | ⟨rfl, hnone', hleft'⟩
      · refine ⟨hsound', Or.inl ⟨e, hfound, ?_, ?_⟩⟩
        · have hclass := List.find?_some hfound
          rw [ofClass] at hclass
          simp [displaceable, hclass, hcls]
        · rw [← hleft.lives, hleft'.lives]
          exact takes_eraseP hfound
      · refine ⟨hsound', Or.inr ⟨rfl, hleft'.lives.trans hleft.lives, fun e he => ?_⟩⟩
        rw [← hleft.lives] at he
        have hnoChat := find?_none_class hnone' he
        rw [hleft.lives] at he
        simp [displaceable, hnoLossy e he, hnoChat]
    · refine ⟨hsound, Or.inr ⟨rfl, hleft.lives, fun e he => ?_⟩⟩
      have hlossy' : cls = .lossy := by simpa using hcls
      simp [displaceable, hnoLossy e he, hlossy']

theorem makeRoom_turn (h : Sound q) (turns : ℕ)
    (hover : q.overCaps bytes kSoftMaxEvents kSoftMaxBytes = true) :
    makeRoom cls bytes (turns + 1) q =
      if (displace cls q).1.isSome then makeRoom cls bytes turns (displace cls q).2
      else (displace cls q).2 := by
  have hlossy := evictOldest_evicts h.wellFormed .lossy (by decide)
  have hsound := h.evictOldest .lossy
  rcases heq : q.evictOldest .lossy with ⟨evicted, q'⟩
  rw [heq] at hlossy hsound
  rw [makeRoom, if_pos hover, displace, heq]
  rcases hlossy with ⟨rfl, ⟨e, hfound⟩, -⟩ | ⟨rfl, -, -⟩
  · dsimp only
    rw [hfound]
    rfl
  · dsimp only at hsound ⊢
    by_cases hcls : cls = .lossy
    · subst hcls
      rfl
    · simp only [ne_eq, hcls, not_false_eq_true, if_true]
      have hchat := evictOldest_evicts hsound.wellFormed .chat (by decide)
      rcases heq' : q'.evictOldest .chat with ⟨evicted', q''⟩
      rw [heq'] at hchat
      rcases hchat with ⟨rfl, ⟨e, hfound⟩, -⟩ | ⟨rfl, -, -⟩
      · dsimp only
        rw [hfound]
        rfl
      · rfl

/-! ## The loop -/

/-- The events the loop evicts, in order. -/
def victims (cls : EventClass) (bytes : ℕ) : ℕ → Queue → List TextEvent
  | 0, _ => []
  | turns + 1, q =>
    if q.overCaps bytes kSoftMaxEvents kSoftMaxBytes then
      match displace cls q with
      | (some e, q') => e :: victims cls bytes turns q'
      | (none, _) => []
    else []

/-- Room was made: these events went, the last one while the newcomer did not fit, and where it
    still does not fit nothing is left that it may displace. -/
structure MadeRoom (cls : EventClass) (bytes : ℕ) (q : Queue) (evicted : List TextEvent)
    (q' : Queue) : Prop where
  sound : Sound q'
  perm : q.lives.Perm (evicted ++ q'.lives)
  mayGo : ∀ e ∈ evicted, displaceable cls e = true
  stay : (q'.lives.filter fun e => !displaceable cls e) =
    q.lives.filter fun e => !displaceable cls e
  last : ∀ e, evicted.getLast? = some e →
    crowds (e :: q'.lives) bytes kSoftMaxEvents kSoftMaxBytes = true
  ended : crowds q'.lives bytes kSoftMaxEvents kSoftMaxBytes = true →
    ∀ e ∈ q'.lives, displaceable cls e = false

theorem MadeRoom.none {q' : Queue} (hsound : Sound q') (hlives : q'.lives = q.lives)
    (hended : crowds q.lives bytes kSoftMaxEvents kSoftMaxBytes = true →
      ∀ e ∈ q.lives, displaceable cls e = false) : MadeRoom cls bytes q [] q' := by
  refine ⟨hsound, ?_, by simp, ?_, by simp, ?_⟩
  · rw [hlives]
    exact List.Perm.refl _
  · rw [hlives]
  · rw [hlives]
    exact hended

theorem MadeRoom.cons {q₁ q' : Queue} {e : TextEvent} {evicted : List TextEvent}
    (h : MadeRoom cls bytes q₁ evicted q') (hgone : displaceable cls e = true)
    (htakes : Takes e q.lives q₁.lives)
    (hover : crowds q.lives bytes kSoftMaxEvents kSoftMaxBytes = true) :
    MadeRoom cls bytes q (e :: evicted) q' := by
  have hperm : q.lives.Perm (e :: (evicted ++ q'.lives)) := htakes.perm.trans (h.perm.cons e)
  refine ⟨h.sound, hperm, ?_, ?_, ?_, h.ended⟩
  · intro e' he'
    rcases List.mem_cons.mp he' with rfl | hrest
    · exact hgone
    · exact h.mayGo e' hrest
  · rw [h.stay]
    exact htakes.filter (by rw [hgone]; rfl)
  · intro e' he'
    cases evicted with
    | nil =>
      obtain rfl : e = e' := by simpa using he'
      exact crowds_perm hperm _ _ ▸ hover
    | cons next later => exact h.last e' (by simpa using he')

theorem makeRoom_madeRoom (cls : EventClass) (bytes turns : ℕ) : ∀ q, Sound q →
    q.liveEvents < turns → MadeRoom cls bytes q (victims cls bytes turns q)
      (makeRoom cls bytes turns q) := by
  induction turns with
  | zero => exact fun q _ hturns => absurd hturns (Nat.not_lt_zero _)
  | succ turns ih =>
    intro q h hturns
    by_cases hover : q.overCaps bytes kSoftMaxEvents kSoftMaxBytes = true
    · rw [makeRoom_turn h turns hover, victims, if_pos hover]
      have hspec := displace_spec h cls
      have hcrowds := hover
      rw [h.wellFormed.overCaps_eq] at hcrowds
      rcases heq : displace cls q with ⟨found, q₁⟩
      rw [heq] at hspec
      obtain ⟨hsound, hcase⟩ := hspec
      rcases hcase with ⟨e, rfl, hgone, htakes⟩ | ⟨rfl, hlives, hnone⟩
      · have hfewer : q₁.liveEvents < turns := by
          have hlength := htakes.perm.length_eq
          have hcount := Counts.liveEvents_eq h.wellFormed
          have hcount' := Counts.liveEvents_eq hsound.wellFormed
          rw [List.length_cons] at hlength
          dsimp only at hlength hcount'
          omega
        exact (ih q₁ hsound hfewer).cons hgone htakes hcrowds
      · exact MadeRoom.none hsound hlives fun _ => hnone
    · rw [makeRoom, victims, if_neg hover, if_neg hover]
      rw [h.wellFormed.overCaps_eq] at hover
      exact MadeRoom.none h rfl fun hcrowds => absurd hcrowds hover

/-- The verdict of the call on its newcomer. -/
def admits (q : Queue) (line : Line) : Bool :=
  let room := makeRoom (classify line) line.length (q.liveEvents + 1) q
  !(room.overCaps line.length kSoftMaxEvents kSoftMaxBytes &&
    (classify line ≠ .state || room.overCaps line.length kHardMaxEvents kHardMaxBytes))

/-- The events evicted on the newcomer's account. -/
def evictedFor (q : Queue) (line : Line) : List TextEvent :=
  victims (classify line) line.length (q.liveEvents + 1) q

theorem enqueue_admits (q : Queue) (i : ℤ) (line : Line) (epoch : ℤ) :
    q.enqueueTextLineForInstance i line epoch =
      if q.admits line then
        (makeRoom (classify line) line.length (q.liveEvents + 1) q).accept
          { instanceId := i, line, cls := classify line, live := true, sessionEpoch := epoch }
      else
        (makeRoom (classify line) line.length (q.liveEvents + 1) q).recordDrop (classify line) := by
  unfold enqueueTextLineForInstance admits
  dsimp only
  split_ifs <;> simp_all

theorem admits_eq (q : Queue) (line : Line) (h : Sound q) :
    q.admits line = !refusedBeside (makeRoom (classify line) line.length (q.liveEvents + 1) q).lives
      (classify line) line.length := by
  have hroom := (Sound.makeRoom (classify line) line.length (q.liveEvents + 1) q h).wellFormed
  rw [admits, refusedBeside, hroom.overCaps_eq, hroom.overCaps_eq]

theorem refusedBeside_crowds {l : List TextEvent} (h : refusedBeside l cls bytes = true) :
    crowds l bytes kSoftMaxEvents kSoftMaxBytes = true := by
  rw [refusedBeside, Bool.and_eq_true] at h
  exact h.1

theorem refusedBeside_append {l l' : List TextEvent} (h : refusedBeside l' cls bytes = true) :
    refusedBeside (l ++ l') cls bytes = true := by
  rw [refusedBeside, Bool.and_eq_true, Bool.or_eq_true] at h ⊢
  exact ⟨crowds_append h.1, h.2.imp_right crowds_append⟩

theorem refusedBeside_perm {l l' : List TextEvent} (h : l.Perm l') :
    refusedBeside l cls bytes = refusedBeside l' cls bytes := by
  rw [refusedBeside, refusedBeside, crowds_perm h, crowds_perm h]

/-- A newcomer is refused where it does not fit beside the events it may not displace. -/
theorem MadeRoom.refused_iff {q' : Queue} {evicted : List TextEvent}
    (h : MadeRoom cls bytes q evicted q') :
    refusedBeside q'.lives cls bytes =
      refusedBeside (q.lives.filter fun e => !displaceable cls e) cls bytes := by
  rw [Bool.eq_iff_iff]
  rw [← h.stay]
  constructor
  · intro hrefused
    have hnone := h.ended (refusedBeside_crowds hrefused)
    have hsame : (q'.lives.filter fun e => !displaceable cls e) = q'.lives :=
      List.filter_eq_self.mpr fun e he => by rw [hnone e he]; rfl
    rw [hsame]
    exact hrefused
  · intro hrefused
    have hperm := List.filter_append_perm (displaceable cls) q'.lives
    rw [← refusedBeside_perm hperm]
    exact refusedBeside_append hrefused

theorem enqueue_refused (h : Sound q) (i : ℤ) {line : Line} (epoch : ℤ)
    (hrefused : q.admits line = false) :
    (q.enqueueTextLineForInstance i line epoch).lives =
      q.lives.filter fun e => !displaceable (classify line) e := by
  have hroom := makeRoom_madeRoom (classify line) line.length (q.liveEvents + 1) q h (by omega)
  have hbeside := q.admits_eq line h
  rw [hrefused] at hbeside
  have hnone := hroom.ended (@refusedBeside_crowds (classify line) _ _ (by simpa using hbeside))
  rw [enqueue_admits, hrefused, if_neg (by simp), ← hroom.stay]
  exact (List.filter_eq_self.mpr fun e he => by rw [hnone e he]; rfl).symm

theorem enqueue_admitted (h : Sound q) (i : ℤ) {line : Line} (epoch : ℤ)
    (hadmitted : q.admits line = true) :
    ∃ kept, (q.enqueueTextLineForInstance i line epoch).lives = kept ++
        [{ instanceId := i, line, cls := classify line, live := true, sessionEpoch := epoch }] ∧
      q.lives.Perm (q.evictedFor line ++ kept) ∧
      ∀ e, (q.evictedFor line).getLast? = some e →
        crowds (e :: kept) line.length kSoftMaxEvents kSoftMaxBytes = true := by
  have hroom := makeRoom_madeRoom (classify line) line.length (q.liveEvents + 1) q h (by omega)
  refine ⟨(makeRoom (classify line) line.length (q.liveEvents + 1) q).lives, ?_, hroom.perm,
    hroom.last⟩
  rw [enqueue_admits, hadmitted, if_pos rfl, lives, accept, List.filter_append]
  rfl

theorem admits_iff (h : Sound q) (line : Line) :
    q.admits line = false ↔ refusedBeside (q.lives.filter fun e =>
      !displaceable (classify line) e) (classify line) line.length = true := by
  have hroom := makeRoom_madeRoom (classify line) line.length (q.liveEvents + 1) q h (by omega)
  rw [q.admits_eq line h, hroom.refused_iff, Bool.not_eq_false']

end

/-- A newcomer is refused where it would not fit even beside the events it may not displace alone:
    then every event it may displace goes for nothing. A newcomer that is admitted evicts only
    while it does not fit. -/
theorem newcomer_displaces (calls : List Call) (i : ℤ) (line : Line) (epoch : ℤ) :
    let q := calls.foldl Queue.after {}
    let q' := q.enqueueTextLineForInstance i line epoch
    let stay := q.lives.filter fun e => !displaceable (classify line) e
    (q.admits line = false ↔ refusedBeside stay (classify line) line.length = true) ∧
      (q.admits line = false → q'.lives = stay) ∧
      (q.admits line = true → ∃ kept, q'.lives = kept ++
          [{ instanceId := i, line, cls := classify line, live := true, sessionEpoch := epoch }] ∧
        q.lives.Perm (q.evictedFor line ++ kept) ∧
        ∀ e, (q.evictedFor line).getLast? = some e →
          crowds (e :: kept) line.length kSoftMaxEvents kSoftMaxBytes = true) := by
  have hsound := Sound.run calls {} Sound.empty
  exact ⟨admits_iff hsound line, enqueue_refused hsound i epoch, enqueue_admitted hsound i epoch⟩

def oversize : Line := ascii "c2c:" ++ List.replicate kSoftMaxBytes 65

theorem oversize_length : oversize.length = 4 + kSoftMaxBytes := by
  rw [oversize, List.length_append, List.length_replicate]
  rfl

/-- A chat line larger than the byte cap empties the queue of chat and is dropped itself. -/
theorem oversize_newcomer_displaces :
    let q := Queue.enqueueTextLineForInstance {} 1 (ascii "c2c:hi") 5
    q.admits oversize = false ∧ q.lives.length = 1 ∧
      (q.enqueueTextLineForInstance 1 oversize 5).lives = [] := by
  have hsound : Sound (Queue.enqueueTextLineForInstance {} 1 (ascii "c2c:hi") 5) :=
    Sound.enqueue Sound.empty 1 (ascii "c2c:hi") 5
  have hclass : classify oversize = .chat := by decide
  have hlives : (Queue.enqueueTextLineForInstance {} 1 (ascii "c2c:hi") 5).lives =
      [{ instanceId := 1, line := ascii "c2c:hi", cls := .chat, live := true,
         sessionEpoch := 5 }] := by decide
  have hstay : ((Queue.enqueueTextLineForInstance {} 1 (ascii "c2c:hi") 5).lives.filter fun e =>
      !displaceable (classify oversize) e) = [] := by
    rw [hlives, hclass]
    rfl
  have hrefused : (Queue.enqueueTextLineForInstance {} 1 (ascii "c2c:hi") 5).admits oversize =
      false := by
    rw [admits_iff hsound, hstay, hclass, refusedBeside, crowds, oversize_length]
    rfl
  refine ⟨hrefused, by rw [hlives]; rfl, ?_⟩
  rw [enqueue_refused hsound 1 5 hrefused, hstay]

end Queue
end Tim2Tox.TextQueue
