import Tim2Tox.PendingDelivery

set_option autoImplicit false

/-!
# When a delivery receipt is raised

The roots and keys in terms of the receipts of toxcore, for any interleaving of the senders with
the event thread.
-/
namespace Tim2Tox.PendingDelivery

open KeyedTables LabelledRuns

def acked (acks : List Ack) (friendNumber number : UInt32) : Bool :=
  acks.any fun ack => decide (ack.friendNumber = friendNumber) && decide (ack.number = number)

theorem acked_iff {acks : List Ack} {friendNumber number : UInt32} :
    acked acks friendNumber number = true ↔
      ∃ ack ∈ acks, ack.friendNumber = friendNumber ∧ ack.number = number := by
  unfold acked
  simp only [List.any_eq_true, Bool.and_eq_true, decide_eq_true_eq]

namespace Tracked

/-- The fragments without a receipt since the text was tracked. -/
def waiting (t : Tracked) (acks : List Ack) : List UInt32 :=
  t.numbers.filter fun number => !acked (acks.drop t.before) t.friendNumber number

/-- The time is over, and a fragment had no receipt before that. -/
def Overdue (t : Tracked) (now : ℕ) (acks : List Ack) : Prop :=
  t.createdAt + kPendingDeliveryTtl ≤ now ∧
  ∃ number ∈ t.numbers, ∀ ack ∈ acks.drop t.before,
    ack.friendNumber = t.friendNumber → ack.number = number →
    t.createdAt + kPendingDeliveryTtl ≤ ack.time

def root (t : Tracked) (acks : List Ack) : PendingDeliveryRoot :=
  ⟨t.msgId, t.userId, t.friendNumber, (t.waiting acks).length, t.createdAt⟩

def deliveryReceipt (t : Tracked) : DeliveryReceipt := ⟨t.msgId, t.userId, false⟩

theorem mem_waiting {t : Tracked} {acks : List Ack} {number : UInt32} :
    number ∈ t.waiting acks ↔
      number ∈ t.numbers ∧ acked (acks.drop t.before) t.friendNumber number = false := by
  unfold waiting
  rw [List.mem_filter, Bool.not_eq_true']

/-- One more receipt. -/
theorem waiting_append {t : Tracked} {acks : List Ack} (h : t.before ≤ acks.length) (ack : Ack) :
    t.waiting (acks ++ [ack]) = (t.waiting acks).filter fun number =>
      !(decide (ack.friendNumber = t.friendNumber) && decide (ack.number = number)) := by
  unfold waiting
  rw [List.filter_filter, List.drop_append_of_le_length h]
  congr 1
  funext number
  unfold acked
  rw [List.any_append, List.any_cons, List.any_nil, Bool.or_false, Bool.not_or, Bool.and_comm]

/-- A receipt for another text. -/
theorem waiting_other {t : Tracked} {acks : List Ack} (h : t.before ≤ acks.length) {ack : Ack}
    (hother : ack.friendNumber = t.friendNumber → ack.number ∉ t.waiting acks) :
    t.waiting (acks ++ [ack]) = t.waiting acks := by
  rw [waiting_append h]
  refine List.filter_eq_self.mpr ?_
  intro number hmem
  rw [Bool.not_eq_true', Bool.and_eq_false_iff, decide_eq_false_iff_not, decide_eq_false_iff_not]
  by_cases hfriend : ack.friendNumber = t.friendNumber
  · right
    intro heq
    exact hother hfriend (heq ▸ hmem)
  · exact .inl hfriend

/-- A receipt for a fragment that waits. -/
theorem waiting_erase {t : Tracked} {acks : List Ack} (h : t.before ≤ acks.length)
    (hnodup : t.numbers.Nodup) {ack : Ack} (hfriend : ack.friendNumber = t.friendNumber) :
    t.waiting (acks ++ [ack]) = (t.waiting acks).erase ack.number := by
  have hwaiting : (t.waiting acks).Nodup := hnodup.filter _
  rw [waiting_append h, hwaiting.erase_eq_filter]
  refine List.filter_congr ?_
  intro number _
  rw [hfriend, decide_eq_true (rfl : t.friendNumber = t.friendNumber), Bool.true_and]
  by_cases heq : ack.number = number
  · simp [heq]
  · have hne : number ≠ ack.number := fun hsame => heq hsame.symm
    simp [heq, hne]

/-- A receipt now comes too late for a text that is overdue. -/
theorem Overdue.append {t : Tracked} {now : ℕ} {acks : List Ack} (h : t.Overdue now acks)
    (hbefore : t.before ≤ acks.length) {ack : Ack} (htime : ack.time = now) :
    t.Overdue now (acks ++ [ack]) := by
  obtain ⟨hover, number, hmem, hlate⟩ := h
  refine ⟨hover, number, hmem, ?_⟩
  intro other hother hfriend hnumber
  rw [List.drop_append_of_le_length hbefore, List.mem_append, List.mem_singleton] at hother
  rcases hother with hother | heq
  · exact hlate other hother hfriend hnumber
  · rw [heq, htime]
    exact hover

theorem Overdue.later {t : Tracked} {now : ℕ} {acks : List Ack} (h : t.Overdue now acks) (time : ℕ) :
    t.Overdue (now + time) acks := ⟨Nat.le_trans h.1 (Nat.le_add_right now time), h.2⟩

/-- A fragment that waits when the time is over. -/
theorem overdue_of_waiting {t : Tracked} {now : ℕ} {acks : List Ack} (hwaiting : t.waiting acks ≠ [])
    (hover : t.createdAt + kPendingDeliveryTtl ≤ now) : t.Overdue now acks := by
  obtain ⟨number, hmem⟩ := List.exists_mem_of_ne_nil _ hwaiting
  obtain ⟨hnumber, hnone⟩ := mem_waiting.mp hmem
  refine ⟨hover, number, hnumber, ?_⟩
  intro ack hack hfriend heq
  have hacked := acked_iff.mpr ⟨ack, hack, hfriend, heq⟩
  rw [hnone] at hacked
  exact absurd hacked (by decide)

end Tracked

/-- A send under way. -/
structure Sending.Ok (s : State) (seq : ℕ) (m : Sending) : Prop where
  named : m.msgId.seq = seq
  begun : seq < s.nextMessageSeq
  nodup : m.numbers.Nodup
  fragments : m.numbers.length + m.left = m.fragments
  positive : 0 < m.fragments
  done : ∀ now, m.clock = some now → m.left = 0 ∧ now ≤ s.now
  owner : ∀ number ∈ m.numbers, s.owner.lookup (m.friendNumber, number) = some seq

/-- A text that was tracked. -/
structure Tracked.Ok (s : State) (t : Tracked) : Prop where
  before : t.before ≤ s.acks.length
  nodup : t.numbers.Nodup
  nonempty : t.numbers ≠ []
  fragments : t.numbers.length = t.fragments
  begun : t.msgId.seq < s.nextMessageSeq
  ended : t.msgId.seq ∉ s.sending
  owner : ∀ number ∈ t.numbers, s.owner.lookup (t.friendNumber, number) = some t.msgId.seq

/-- What the tables say of the texts tracked, and what came of those that are gone. -/
structure Books (s : State) : Prop where
  sending : ∀ seq m, s.sending.lookup seq = some m → m.Ok s seq
  tracked : ∀ id t, s.tracked.lookup id = some t → t.Ok s
  below : ∀ id t, s.tracked.lookup id = some t → id < s.pending.nextRootId
  apart : ∀ id t id' t', s.tracked.lookup id = some t → s.tracked.lookup id' = some t' →
    t.msgId.seq = t'.msgId.seq → id = id'
  roots : ∀ id root, s.pending.roots.lookup id = some root →
    ∃ t, s.tracked.lookup id = some t ∧ t.waiting s.acks ≠ [] ∧ root = t.root s.acks
  fragments : ∀ key id, s.pending.fragments.lookup key = some id ↔
    id ∈ s.pending.roots ∧ ∃ t, s.tracked.lookup id = some t ∧
      ∃ number ∈ t.waiting s.acks, key = pendingDeliveryKey t.friendNumber number
  gone : ∀ id t, s.tracked.lookup id = some t → id ∉ s.pending.roots →
    t.waiting s.acks = [] ∧ t.deliveryReceipt ∈ s.raised ∨ id ∈ s.evicted ∨ id ∈ s.cleared ∨
      t.Overdue s.now s.acks
  raised : ∀ r ∈ s.raised, ∃ id t, s.tracked.lookup id = some t ∧ id ∉ s.pending.roots ∧
    t.waiting s.acks = [] ∧ r = t.deliveryReceipt
  once : (s.raised.map DeliveryReceipt.msgId).Nodup
  acks : ∀ ack ∈ s.acks, (ack.friendNumber, ack.number) ∈ s.owner

theorem books_init : Books {} := by
  refine ⟨?_, ?_, ?_, ?_, ?_, ?_, ?_, ?_, ?_, ?_⟩
  · intro seq m h
    cases h
  · intro id t h
    cases h
  · intro id t h
    cases h
  · intro id t id' t' h
    cases h
  · intro id root h
    cases h
  · intro key id
    constructor
    · intro h
      cases h
    · intro h
      exact absurd h.1 (AList.notMem_empty id)
  · intro id t h
    cases h
  · intro r h
    cases h
  · exact List.nodup_nil
  · intro ack h
    cases h

namespace Books

open PendingDeliveries

theorem mem_roots {p : PendingDeliveries} {id : ℕ} :
    id ∈ p.roots ↔ ∃ root, p.roots.lookup id = some root := by
  rw [← AList.lookup_isSome, Option.isSome_iff_exists]

/-- The owner of a number says which text it is of. -/
theorem same {s : State} (h : Books s) {id id' : ℕ} {t t' : Tracked} {friendNumber number : UInt32}
    (ht : s.tracked.lookup id = some t) (ht' : s.tracked.lookup id' = some t')
    (hfriend : t.friendNumber = friendNumber) (hfriend' : t'.friendNumber = friendNumber)
    (hmem : number ∈ t.numbers) (hmem' : number ∈ t'.numbers) : id = id' := by
  have ho := (h.tracked id t ht).owner number hmem
  have ho' := (h.tracked id' t' ht').owner number hmem'
  rw [hfriend] at ho
  rw [hfriend', ho] at ho'
  exact h.apart id t id' t' ht ht' (Option.some.inj ho')

/-- Roots that go for a reason. -/
theorem without {s : State} (h : Books s) {removed : ℕ → Prop} {p' : PendingDeliveries}
    (hw : Without removed s.pending p') {evicted cleared : List ℕ}
    (hevicted : ∀ id ∈ s.evicted, id ∈ evicted) (hcleared : ∀ id ∈ s.cleared, id ∈ cleared)
    (hreason : ∀ id t, s.tracked.lookup id = some t → id ∈ s.pending.roots → removed id →
      id ∈ evicted ∨ id ∈ cleared ∨ t.Overdue s.now s.acks) :
    Books { s with pending := p', evicted, cleared } := by
  have hroots : ∀ id, id ∈ p'.roots ↔ id ∈ s.pending.roots ∧ ¬ removed id := by
    intro id
    rw [mem_roots, mem_roots]
    constructor
    · intro hid
      obtain ⟨root, hroot⟩ := hid
      have hboth := (hw.roots id root).mp hroot
      exact ⟨⟨root, hboth.1⟩, hboth.2⟩
    · intro hid
      obtain ⟨⟨root, hroot⟩, hnot⟩ := hid
      exact ⟨root, (hw.roots id root).mpr ⟨hroot, hnot⟩⟩
  refine ⟨?_, ?_, ?_, h.apart, ?_, ?_, ?_, ?_, h.once, h.acks⟩
  · intro seq m hm
    have hok := h.sending seq m hm
    exact ⟨hok.named, hok.begun, hok.nodup, hok.fragments, hok.positive, hok.done, hok.owner⟩
  · intro id t ht
    have hok := h.tracked id t ht
    exact ⟨hok.before, hok.nodup, hok.nonempty, hok.fragments, hok.begun, hok.ended, hok.owner⟩
  · intro id t ht
    have hbelow := h.below id t ht
    rw [← hw.nextRootId] at hbelow
    exact hbelow
  · intro id root hroot
    exact h.roots id root ((hw.roots id root).mp hroot).1
  · intro key id
    change p'.fragments.lookup key = some id ↔ id ∈ p'.roots ∧ _
    rw [hw.fragments, h.fragments, hroots]
    constructor
    · intro hkey
      exact ⟨⟨hkey.1.1, hkey.2⟩, hkey.1.2⟩
    · intro hkey
      exact ⟨⟨hkey.1.1, hkey.2⟩, hkey.1.2⟩
  · intro id t ht hnot
    change id ∉ p'.roots at hnot
    rw [hroots] at hnot
    by_cases hlive : id ∈ s.pending.roots
    · have hremoved : removed id := by
        by_contra hkept
        exact hnot ⟨hlive, hkept⟩
      exact .inr (hreason id t ht hlive hremoved)
    · rcases h.gone id t ht hlive with hraised | hev | hcl | hover
      · exact .inl hraised
      · exact .inr (.inl (hevicted id hev))
      · exact .inr (.inr (.inl (hcleared id hcl)))
      · exact .inr (.inr (.inr hover))
  · intro r hr
    obtain ⟨id, t, ht, hgone, hrest⟩ := h.raised r hr
    refine ⟨id, t, ht, ?_, hrest⟩
    change id ∉ p'.roots
    rw [hroots]
    exact fun hid => hgone hid.1

/-- What is pruned was overdue. -/
theorem prune {s : State} (h : Books s) {now : ℕ} (hnow : now ≤ s.now) :
    Books { s with pending := s.pending.prunePendingDeliveries now } := by
  refine h.without (s.pending.removeRoots_without (s.pending.expired now)) (fun _ hid => hid)
    (fun _ hid => hid) ?_
  intro id t ht _ hexpired
  obtain ⟨root, hroot, hold⟩ := mem_expired.mp hexpired
  obtain ⟨t', ht', hwaiting, heq⟩ := h.roots id root hroot
  obtain rfl : t' = t := Option.some.inj (ht'.symm.trans ht)
  rw [heq] at hold
  exact .inr (.inr (Tracked.overdue_of_waiting hwaiting (Nat.le_trans hold hnow)))

/-! ## A receipt of toxcore -/

variable {s : State} {friendNumber number : UInt32}

/-- The receipt as it is noted. -/
def noted (s : State) (friendNumber number : UInt32) : List Ack :=
  s.acks ++ [⟨friendNumber, number, s.now⟩]

theorem sending_noted (h : Books s) {p' : PendingDeliveries} {raised : List DeliveryReceipt} :
    ∀ seq m, s.sending.lookup seq = some m →
      m.Ok { s with pending := p', acks := noted s friendNumber number, raised } seq := by
  intro seq m hm
  have hok := h.sending seq m hm
  exact ⟨hok.named, hok.begun, hok.nodup, hok.fragments, hok.positive, hok.done, hok.owner⟩

theorem tracked_noted (h : Books s) {p' : PendingDeliveries} {raised : List DeliveryReceipt} :
    ∀ id t, s.tracked.lookup id = some t →
      t.Ok { s with pending := p', acks := noted s friendNumber number, raised } := by
  intro id t ht
  have hok := h.tracked id t ht
  have hlength : t.before ≤ (noted s friendNumber number).length := by
    have hbefore := hok.before
    unfold noted
    rw [List.length_append]
    omega
  exact ⟨hlength, hok.nodup, hok.nonempty, hok.fragments, hok.begun, hok.ended, hok.owner⟩

theorem acks_noted (h : Books s) (howned : (friendNumber, number) ∈ s.owner) :
    ∀ ack ∈ noted s friendNumber number, (ack.friendNumber, ack.number) ∈ s.owner := by
  intro ack hack
  unfold noted at hack
  rw [List.mem_append, List.mem_singleton] at hack
  rcases hack with hack | heq
  · exact h.acks ack hack
  · rw [heq]
    exact howned

theorem waiting_noted (h : Books s) {id : ℕ} {t : Tracked} (ht : s.tracked.lookup id = some t)
    (hother : t.friendNumber = friendNumber → number ∉ t.waiting s.acks) :
    t.waiting (noted s friendNumber number) = t.waiting s.acks :=
  Tracked.waiting_other (h.tracked id t ht).before fun hfriend => hother hfriend.symm

theorem done_noted (h : Books s) {id : ℕ} {t : Tracked} (ht : s.tracked.lookup id = some t)
    (hdone : t.waiting s.acks = []) : t.waiting (noted s friendNumber number) = [] := by
  rw [h.waiting_noted ht ?_]
  · exact hdone
  · intro _ hmem
    rw [hdone] at hmem
    cases hmem

/-- A text that is gone stays where it is. -/
theorem gone_noted (h : Books s) {id : ℕ} {t : Tracked} (ht : s.tracked.lookup id = some t)
    (hgone : id ∉ s.pending.roots) {raised : List DeliveryReceipt} (hraised : ∀ r ∈ s.raised, r ∈ raised) :
    t.waiting (noted s friendNumber number) = [] ∧ t.deliveryReceipt ∈ raised ∨ id ∈ s.evicted ∨
      id ∈ s.cleared ∨ t.Overdue s.now (noted s friendNumber number) := by
  rcases h.gone id t ht hgone with ⟨hdone, hmem⟩ | hev | hcl | hover
  · exact .inl ⟨h.done_noted ht hdone, hraised _ hmem⟩
  · exact .inr (.inl hev)
  · exact .inr (.inr (.inl hcl))
  · exact .inr (.inr (.inr (hover.append (h.tracked id t ht).before rfl)))

/-- A receipt for no key. -/
theorem unmatched (h : Books s) (howned : (friendNumber, number) ∈ s.owner)
    (hnone : s.pending.fragments.lookup (pendingDeliveryKey friendNumber number) = none) :
    Books { s with acks := noted s friendNumber number } := by
  have hsame : ∀ id t, s.tracked.lookup id = some t → id ∈ s.pending.roots →
      t.waiting (noted s friendNumber number) = t.waiting s.acks := by
    intro id t ht hlive
    refine h.waiting_noted ht ?_
    intro hfriend hmem
    have hkey := (h.fragments (pendingDeliveryKey friendNumber number) id).mpr
      ⟨hlive, t, ht, number, hmem, by rw [hfriend]⟩
    rw [hnone] at hkey
    cases hkey
  refine ⟨h.sending_noted, h.tracked_noted, h.below, h.apart, ?_, ?_, ?_, ?_, h.once,
    h.acks_noted howned⟩
  · intro id root hroot
    obtain ⟨t, ht, hwaiting, heq⟩ := h.roots id root hroot
    have hkeep := hsame id t ht (mem_roots.mpr ⟨root, hroot⟩)
    refine ⟨t, ht, ?_, ?_⟩
    · rw [hkeep]
      exact hwaiting
    · unfold Tracked.root
      rw [hkeep]
      exact heq
  · intro key id
    rw [h.fragments]
    refine and_congr_right fun hlive => exists_congr fun t => and_congr_right fun ht => ?_
    dsimp only
    rw [hsame id t ht hlive]
  · intro id t ht hgone
    exact h.gone_noted ht hgone fun _ hr => hr
  · intro r hr
    obtain ⟨id, t, ht, hgone, hdone, heq⟩ := h.raised r hr
    exact ⟨id, t, ht, hgone, h.done_noted ht hdone, heq⟩

/-- The text of a key that is there. -/
theorem matched (h : Books s) {id : ℕ}
    (hkey : s.pending.fragments.lookup (pendingDeliveryKey friendNumber number) = some id) :
    ∃ t, s.tracked.lookup id = some t ∧ t.friendNumber = friendNumber ∧ number ∈ t.waiting s.acks ∧
      s.pending.roots.lookup id = some (t.root s.acks) := by
  obtain ⟨hlive, t, ht, n, hmem, heq⟩ := (h.fragments _ id).mp hkey
  obtain ⟨hfriend, hnumber⟩ := pendingDeliveryKey_inj heq
  obtain ⟨root, hroot⟩ := mem_roots.mp hlive
  obtain ⟨t', ht', -, hroot'⟩ := h.roots id root hroot
  obtain rfl : t' = t := Option.some.inj (ht'.symm.trans ht)
  rw [hroot'] at hroot
  exact ⟨t', ht, hfriend.symm, hnumber ▸ hmem, hroot⟩

/-- The other texts wait for what they waited for. -/
theorem waiting_elsewhere (h : Books s) {id id' : ℕ} {t t' : Tracked}
    (ht : s.tracked.lookup id = some t) (hfriend : t.friendNumber = friendNumber)
    (hmem : number ∈ t.waiting s.acks) (ht' : s.tracked.lookup id' = some t') (hne : id' ≠ id) :
    t'.waiting (noted s friendNumber number) = t'.waiting s.acks := by
  refine h.waiting_noted ht' ?_
  intro hfriend' hmem'
  exact hne (h.same ht' ht hfriend' hfriend (Tracked.mem_waiting.mp hmem').1
    (Tracked.mem_waiting.mp hmem).1)

theorem waiting_matched (h : Books s) {id : ℕ} {t : Tracked} (ht : s.tracked.lookup id = some t)
    (hfriend : t.friendNumber = friendNumber) :
    t.waiting (noted s friendNumber number) = (t.waiting s.acks).erase number :=
  Tracked.waiting_erase (h.tracked id t ht).before (h.tracked id t ht).nodup hfriend.symm

/-- The keys after a receipt, by the roots that are live after it. -/
theorem fragments_matched (h : Books s) {id : ℕ} {t : Tracked} (ht : s.tracked.lookup id = some t)
    (hfriend : t.friendNumber = friendNumber) (hmem : number ∈ t.waiting s.acks) (key : UInt64) (id' : ℕ) :
    (s.pending.fragments.erase (pendingDeliveryKey friendNumber number)).lookup key = some id' ↔
      id' ∈ s.pending.roots ∧ ∃ t', s.tracked.lookup id' = some t' ∧
        ∃ n ∈ t'.waiting (noted s friendNumber number), key = pendingDeliveryKey t'.friendNumber n := by
  have hnodup : (t.waiting s.acks).Nodup := (h.tracked id t ht).nodup.filter _
  by_cases heq : key = pendingDeliveryKey friendNumber number
  · rw [heq, AList.lookup_erase]
    constructor
    · intro hnone
      cases hnone
    · intro hsome
      obtain ⟨-, t', ht', n, hn, hkey⟩ := hsome
      obtain ⟨hfriend', hnumber⟩ := pendingDeliveryKey_inj hkey
      by_cases hid : id' = id
      · rw [hid] at ht'
        obtain rfl : t = t' := Option.some.inj (ht.symm.trans ht')
        rw [h.waiting_matched ht hfriend, ← hnumber] at hn
        exact absurd hn hnodup.not_mem_erase
      · rw [h.waiting_elsewhere ht hfriend hmem ht' hid, ← hnumber] at hn
        exact absurd (h.same ht' ht hfriend'.symm hfriend (Tracked.mem_waiting.mp hn).1
          (Tracked.mem_waiting.mp hmem).1) hid
  · rw [AList.lookup_erase_ne heq, h.fragments]
    refine and_congr_right fun _ => exists_congr fun t' => and_congr_right fun ht' =>
      exists_congr fun n => ?_
    by_cases hid : id' = id
    · rw [hid] at ht'
      obtain rfl : t = t' := Option.some.inj (ht.symm.trans ht')
      rw [h.waiting_matched ht hfriend]
      constructor
      · intro hn
        refine ⟨(List.mem_erase_of_ne ?_).mpr hn.1, hn.2⟩
        intro hsame
        exact heq (by rw [hn.2, hsame, hfriend])
      · intro hn
        exact ⟨List.mem_of_mem_erase hn.1, hn.2⟩
    · rw [h.waiting_elsewhere ht hfriend hmem ht' hid]

/-- A receipt that is not the last one of its text. -/
theorem counted (h : Books s) (howned : (friendNumber, number) ∈ s.owner) {id : ℕ} {t : Tracked}
    (ht : s.tracked.lookup id = some t) (hfriend : t.friendNumber = friendNumber)
    (hmem : number ∈ t.waiting s.acks) (hlive : id ∈ s.pending.roots)
    (hmore : (t.waiting (noted s friendNumber number)) ≠ []) :
    Books { s with
      pending := { s.pending.eraseFragment (pendingDeliveryKey friendNumber number) with
        roots := s.pending.roots.insert id (t.root (noted s friendNumber number)) }
      acks := noted s friendNumber number } := by
  have hroots : ∀ id', id' ∈ s.pending.roots.insert id (t.root (noted s friendNumber number)) ↔
      id' ∈ s.pending.roots := by
    intro id'
    rw [AList.mem_insert]
    constructor
    · intro hid
      rcases hid with heq | hid
      · rw [heq]
        exact hlive
      · exact hid
    · exact fun hid => .inr hid
  refine ⟨h.sending_noted, h.tracked_noted, h.below, h.apart, ?_, ?_, ?_, ?_, h.once,
    h.acks_noted howned⟩
  · intro id' root hroot
    change (s.pending.roots.insert id _).lookup id' = some root at hroot
    by_cases hid : id' = id
    · rw [hid, AList.lookup_insert] at hroot
      rw [hid]
      exact ⟨t, ht, hmore, (Option.some.inj hroot).symm⟩
    · rw [AList.lookup_insert_ne hid] at hroot
      obtain ⟨t', ht', hwaiting, heq⟩ := h.roots id' root hroot
      have hkeep := h.waiting_elsewhere ht hfriend hmem ht' hid
      refine ⟨t', ht', ?_, ?_⟩
      · rw [hkeep]
        exact hwaiting
      · unfold Tracked.root
        rw [hkeep]
        exact heq
  · intro key id'
    dsimp only
    rw [hroots]
    exact h.fragments_matched ht hfriend hmem key id'
  · intro id' t' ht' hgone
    dsimp only at hgone
    rw [hroots] at hgone
    exact h.gone_noted ht' hgone fun _ hr => hr
  · intro r hr
    obtain ⟨id', t', ht', hgone, hdone, heq⟩ := h.raised r hr
    refine ⟨id', t', ht', ?_, h.done_noted ht' hdone, heq⟩
    dsimp only
    rw [hroots]
    exact hgone

/-- The last receipt of a text. -/
theorem completed (h : Books s) (howned : (friendNumber, number) ∈ s.owner) {id : ℕ} {t : Tracked}
    (ht : s.tracked.lookup id = some t) (hfriend : t.friendNumber = friendNumber)
    (hmem : number ∈ t.waiting s.acks) (hlive : id ∈ s.pending.roots)
    (hlast : t.waiting (noted s friendNumber number) = []) :
    Books { s with
      pending :=
        (s.pending.eraseFragment (pendingDeliveryKey friendNumber number)).removePendingDeliveryRoot id
      acks := noted s friendNumber number
      raised := s.raised ++ [t.deliveryReceipt] } := by
  have hroots : ∀ id', id' ∈ s.pending.roots.erase id ↔ id' ≠ id ∧ id' ∈ s.pending.roots := by
    intro id'
    exact AList.mem_erase
  refine ⟨h.sending_noted, h.tracked_noted, h.below, h.apart, ?_, ?_, ?_, ?_, ?_,
    h.acks_noted howned⟩
  · intro id' root hroot
    change (s.pending.roots.erase id).lookup id' = some root at hroot
    have hid : id' ≠ id := by
      intro heq
      rw [heq, AList.lookup_erase] at hroot
      cases hroot
    rw [AList.lookup_erase_ne hid] at hroot
    obtain ⟨t', ht', hwaiting, heq⟩ := h.roots id' root hroot
    have hkeep := h.waiting_elsewhere ht hfriend hmem ht' hid
    refine ⟨t', ht', ?_, ?_⟩
    · rw [hkeep]
      exact hwaiting
    · unfold Tracked.root
      rw [hkeep]
      exact heq
  · intro key id'
    change (eraseIf _ (s.pending.fragments.erase _)).lookup key = some id' ↔
      id' ∈ s.pending.roots.erase id ∧ _
    rw [lookup_eraseIf_eq_some, h.fragments_matched ht hfriend hmem key id', hroots,
      decide_eq_false_iff_not]
    constructor
    · intro hkey
      exact ⟨⟨hkey.2, hkey.1.1⟩, hkey.1.2⟩
    · intro hkey
      exact ⟨⟨hkey.1.2, hkey.2⟩, hkey.1.1⟩
  · intro id' t' ht' hgone
    change id' ∉ s.pending.roots.erase id at hgone
    rw [hroots] at hgone
    by_cases hid : id' = id
    · rw [hid] at ht'
      obtain rfl : t = t' := Option.some.inj (ht.symm.trans ht')
      exact .inl ⟨hlast, List.mem_append_right _ (List.mem_singleton_self _)⟩
    · have hgone' : id' ∉ s.pending.roots := fun hmem' => hgone ⟨hid, hmem'⟩
      exact h.gone_noted ht' hgone' fun _ hr => List.mem_append_left _ hr
  · intro r hr
    change r ∈ s.raised ++ [t.deliveryReceipt] at hr
    rw [List.mem_append, List.mem_singleton] at hr
    rcases hr with hr | hr
    · obtain ⟨id', t', ht', hgone, hdone, heq⟩ := h.raised r hr
      refine ⟨id', t', ht', ?_, h.done_noted ht' hdone, heq⟩
      change id' ∉ s.pending.roots.erase id
      rw [hroots]
      exact fun hboth => hgone hboth.2
    · refine ⟨id, t, ht, ?_, hlast, hr⟩
      change id ∉ s.pending.roots.erase id
      rw [hroots]
      exact fun hboth => hboth.1 rfl
  · change ((s.raised ++ [t.deliveryReceipt]).map DeliveryReceipt.msgId).Nodup
    rw [List.map_append, List.nodup_append]
    refine ⟨h.once, List.nodup_singleton _, ?_⟩
    intro msgId hold msgId' hnew heq
    rw [List.mem_map] at hold
    obtain ⟨r, hr, hid⟩ := hold
    obtain ⟨id', t', ht', hgone, -, hreceipt⟩ := h.raised r hr
    have hmsg : t'.msgId = t.msgId := by
      have hnew' := List.mem_singleton.mp hnew
      rw [hreceipt] at hid
      exact (hid.trans heq).trans hnew'
    have hsame := h.apart id' t' id t ht' ht (by rw [hmsg])
    rw [hsame] at hgone
    exact hgone hlive

/-- What the handler does to the tables. -/
theorem acknowledge (h : Books s) (howned : (friendNumber, number) ∈ s.owner) :
    Books { s with
      pending := (s.pending.acknowledge friendNumber number).1
      acks := noted s friendNumber number
      raised := s.raised ++ ((s.pending.acknowledge friendNumber number).2.map fun root =>
        ⟨root.msgId, root.userId, false⟩).toList } := by
  cases hkey : s.pending.fragments.lookup (pendingDeliveryKey friendNumber number) with
  | none =>
    have hnone : s.pending.acknowledge friendNumber number = (s.pending, none) := by
      unfold PendingDeliveries.acknowledge
      dsimp only
      rw [hkey]
    rw [hnone]
    dsimp only [Option.map_none, Option.toList_none]
    rw [List.append_nil]
    exact h.unmatched howned hkey
  | some id =>
    obtain ⟨t, ht, hfriend, hmem, hroot⟩ := h.matched hkey
    have hlive := mem_roots.mpr ⟨_, hroot⟩
    have hcount : (t.waiting (noted s friendNumber number)).length =
        (t.waiting s.acks).length - 1 := by
      rw [h.waiting_matched ht hfriend]
      exact List.length_erase_of_mem hmem
    by_cases hlast : t.waiting (noted s friendNumber number) = []
    · have hzero : (t.root s.acks).remainingFragments - 1 = 0 := by
        change (t.waiting s.acks).length - 1 = 0
        rw [← hcount, hlast]
        rfl
      have hdone : s.pending.acknowledge friendNumber number =
          ((s.pending.eraseFragment (pendingDeliveryKey friendNumber number)).removePendingDeliveryRoot id,
            some { t.root s.acks with remainingFragments := (t.root s.acks).remainingFragments - 1 }) := by
        unfold PendingDeliveries.acknowledge
        dsimp only
        rw [hkey]
        dsimp only
        have hsame : (s.pending.eraseFragment (pendingDeliveryKey friendNumber number)).roots =
          s.pending.roots := rfl
        rw [hsame, hroot]
        dsimp only
        rw [if_pos hzero]
      rw [hdone]
      exact h.completed howned ht hfriend hmem hlive hlast
    · have hpositive : ¬ (t.root s.acks).remainingFragments - 1 = 0 := by
        change ¬ (t.waiting s.acks).length - 1 = 0
        rw [← hcount]
        exact fun hzero => hlast (List.length_eq_zero_iff.mp hzero)
      have hnext : { t.root s.acks with
          remainingFragments := (t.root s.acks).remainingFragments - 1 } =
          t.root (noted s friendNumber number) := by
        unfold Tracked.root
        rw [hcount]
      have hmore : s.pending.acknowledge friendNumber number =
          ({ s.pending.eraseFragment (pendingDeliveryKey friendNumber number) with
              roots := s.pending.roots.insert id (t.root (noted s friendNumber number)) }, none) := by
        unfold PendingDeliveries.acknowledge
        dsimp only
        rw [hkey]
        dsimp only
        have hsame : (s.pending.eraseFragment (pendingDeliveryKey friendNumber number)).roots =
          s.pending.roots := rfl
        rw [hsame, hroot]
        dsimp only
        rw [if_neg hpositive, hnext]
      rw [hmore]
      dsimp only [Option.map_none, Option.toList_none]
      rw [List.append_nil]
      exact h.counted howned ht hfriend hmem hlive hlast

theorem receipt (h : Books s) (howned : (friendNumber, number) ∈ s.owner) :
    Books (s.receipt friendNumber number) :=
  (h.prune (Nat.le_refl s.now)).acknowledge howned

/-! ## A text is tracked -/

/-- What the locked part removes first was overdue, or is evicted. -/
theorem room (h : Books s) {now : ℕ} (hnow : now ≤ s.now) :
    Books { s with
      pending := s.pending.room now
      evicted := s.evicted ++
        State.gone (s.pending.prunePendingDeliveries now) (s.pending.room now) } := by
  have hpruned := h.prune hnow
  refine hpruned.without (makeRoom_without _ _) (fun _ hid => List.mem_append_left _ hid)
    (fun _ hid => hid) ?_
  intro id t _ hlive hremoved
  refine .inl (List.mem_append_right _ ?_)
  unfold State.gone
  rw [List.mem_filter, decide_eq_true_eq]
  exact ⟨AList.mem_keys.mp hlive, hremoved.2⟩

/-- The numbers of a send under way have no keys. -/
theorem unkeyed (h : Books s) {seq : ℕ} {m : Sending} (hm : s.sending.lookup seq = some m) :
    ∀ n ∈ m.numbers, s.pending.fragments.lookup (pendingDeliveryKey m.friendNumber n) = none := by
  intro n hn
  cases hkey : s.pending.fragments.lookup (pendingDeliveryKey m.friendNumber n) with
  | none => rfl
  | some id =>
    obtain ⟨t, ht, hfriend, hmem, -⟩ := h.matched hkey
    have hok := h.tracked id t ht
    have howner := hok.owner n (Tracked.mem_waiting.mp hmem).1
    rw [hfriend, (h.sending seq m hm).owner n hn] at howner
    have hended := hok.ended
    rw [← Option.some.inj howner, ← AList.lookup_isSome, hm] at hended
    exact absurd rfl hended

/-- The text goes in under a new root. -/
theorem entered (h : Books s) {seq : ℕ} {m : Sending} (hm : s.sending.lookup seq = some m)
    (hleft : m.left = 0) (now : ℕ) :
    Books { s with
      pending :=
        { nextRootId := s.pending.nextRootId + 1
          roots := s.pending.roots.insert s.pending.nextRootId
            ⟨m.msgId, m.userId, m.friendNumber, m.numbers.length, now⟩
          fragments := m.numbers.foldl (fun fragments number =>
            emplace (pendingDeliveryKey m.friendNumber number) s.pending.nextRootId fragments)
              s.pending.fragments }
      sending := s.sending.erase seq
      tracked := s.tracked.insert s.pending.nextRootId
        ⟨m.msgId, m.userId, m.friendNumber, m.fragments, m.numbers, now, s.acks.length⟩ } := by
  have hok := h.sending seq m hm
  have hlive : seq ∈ s.sending := by
    rw [← AList.lookup_isSome, hm]
    rfl
  have hfresh : ∀ id t, s.tracked.lookup id = some t → id ≠ s.pending.nextRootId := by
    intro id t ht heq
    have hbelow := h.below id t ht
    omega
  have hunrooted : ∀ id, id ∈ s.pending.roots → id ≠ s.pending.nextRootId := by
    intro id hid
    obtain ⟨root, hroot⟩ := mem_roots.mp hid
    obtain ⟨t, ht, -⟩ := h.roots id root hroot
    exact hfresh id t ht
  have hwaiting : Tracked.waiting
      ⟨m.msgId, m.userId, m.friendNumber, m.fragments, m.numbers, now, s.acks.length⟩ s.acks =
        m.numbers := by
    unfold Tracked.waiting
    rw [List.drop_length]
    exact List.filter_eq_self.mpr fun _ _ => rfl
  have hlength : m.numbers.length = m.fragments := by
    have hsum := hok.fragments
    omega
  have hnonempty : m.numbers ≠ [] := by
    intro hnil
    have hpositive := hok.positive
    rw [← hlength, hnil] at hpositive
    exact absurd hpositive (by decide)
  have hother : ∀ {id t}, id ≠ s.pending.nextRootId →
      ((s.tracked.insert s.pending.nextRootId
        ⟨m.msgId, m.userId, m.friendNumber, m.fragments, m.numbers, now, s.acks.length⟩).lookup id =
          some t ↔ s.tracked.lookup id = some t) := by
    intro id t hid
    rw [AList.lookup_insert_ne hid]
  have hentry : ∀ {id t}, (s.tracked.insert s.pending.nextRootId
        ⟨m.msgId, m.userId, m.friendNumber, m.fragments, m.numbers, now, s.acks.length⟩).lookup id =
          some t →
      id = s.pending.nextRootId ∧
        t = ⟨m.msgId, m.userId, m.friendNumber, m.fragments, m.numbers, now, s.acks.length⟩ ∨
      s.tracked.lookup id = some t := by
    intro id t ht
    by_cases hid : id = s.pending.nextRootId
    · rw [hid, AList.lookup_insert] at ht
      exact .inl ⟨hid, (Option.some.inj ht).symm⟩
    · exact .inr ((hother hid).mp ht)
  refine ⟨?_, ?_, ?_, ?_, ?_, ?_, ?_, ?_, h.once, h.acks⟩
  · intro seq' m' hm'
    change (s.sending.erase seq).lookup seq' = some m' at hm'
    have hne : seq' ≠ seq := by
      intro heq
      rw [heq, AList.lookup_erase] at hm'
      cases hm'
    rw [AList.lookup_erase_ne hne] at hm'
    have hok' := h.sending seq' m' hm'
    exact ⟨hok'.named, hok'.begun, hok'.nodup, hok'.fragments, hok'.positive, hok'.done, hok'.owner⟩
  · intro id t ht
    rcases hentry ht with ⟨hid, heq⟩ | ht
    · rw [heq]
      refine ⟨Nat.le_refl _, hok.nodup, hnonempty, hlength, ?_, ?_, ?_⟩
      · rw [hok.named]
        exact hok.begun
      · rw [hok.named]
        change seq ∉ s.sending.erase seq
        rw [AList.mem_erase]
        exact fun hboth => hboth.1 rfl
      · rw [hok.named]
        exact hok.owner
    · have hold := h.tracked id t ht
      refine ⟨hold.before, hold.nodup, hold.nonempty, hold.fragments, hold.begun, ?_, hold.owner⟩
      change t.msgId.seq ∉ s.sending.erase seq
      rw [AList.mem_erase]
      exact fun hboth => hold.ended hboth.2
  · intro id t ht
    change id < s.pending.nextRootId + 1
    rcases hentry ht with ⟨hid, -⟩ | ht
    · omega
    · have hbelow := h.below id t ht
      omega
  · intro id t id' t' ht ht' hseq
    rcases hentry ht with ⟨hid, heq⟩ | ht
    · rcases hentry ht' with ⟨hid', -⟩ | ht'
      · exact hid.trans hid'.symm
      · have hended := (h.tracked id' t' ht').ended
        rw [← hseq, heq, hok.named] at hended
        exact absurd hlive hended
    · rcases hentry ht' with ⟨-, heq'⟩ | ht'
      · have hended := (h.tracked id t ht).ended
        rw [hseq, heq', hok.named] at hended
        exact absurd hlive hended
      · exact h.apart id t id' t' ht ht' hseq
  · intro id root hroot
    change (s.pending.roots.insert s.pending.nextRootId _).lookup id = some root at hroot
    by_cases hid : id = s.pending.nextRootId
    · rw [hid, AList.lookup_insert] at hroot
      rw [hid]
      refine ⟨_, AList.lookup_insert _, ?_, ?_⟩
      · rw [hwaiting]
        exact hnonempty
      · rw [← Option.some.inj hroot]
        unfold Tracked.root
        rw [hwaiting]
    · rw [AList.lookup_insert_ne hid] at hroot
      obtain ⟨t, ht, hrest⟩ := h.roots id root hroot
      exact ⟨t, (hother hid).mpr ht, hrest⟩
  · intro key id
    change (m.numbers.foldl _ s.pending.fragments).lookup key = some id ↔
      id ∈ s.pending.roots.insert s.pending.nextRootId _ ∧ _
    rw [lookup_emplaceAll, AList.mem_insert]
    constructor
    · intro hkey
      rcases hkey with hkey | ⟨hid, -, hnumber⟩
      · obtain ⟨hroot, t, ht, hrest⟩ := (h.fragments key id).mp hkey
        exact ⟨.inr hroot, t, (hother (hunrooted id hroot)).mpr ht, hrest⟩
      · rw [hid]
        refine ⟨.inl rfl, _, AList.lookup_insert _, ?_⟩
        rw [hwaiting]
        exact hnumber
    · intro hkey
      obtain ⟨hroot, t, ht, n, hn, heq⟩ := hkey
      rcases hentry ht with ⟨hid, ht⟩ | ht
      · rw [ht, hwaiting] at hn
        rw [ht] at heq
        refine .inr ⟨hid, ?_, n, hn, heq⟩
        rw [heq]
        exact h.unkeyed hm n hn
      · rcases hroot with hid | hroot
        · exact absurd hid (hfresh id t ht)
        · exact .inl ((h.fragments key id).mpr ⟨hroot, t, ht, n, hn, heq⟩)
  · intro id t ht hgone
    change id ∉ s.pending.roots.insert s.pending.nextRootId _ at hgone
    rw [AList.mem_insert, not_or] at hgone
    exact h.gone id t ((hother hgone.1).mp ht) hgone.2
  · intro r hr
    obtain ⟨id, t, ht, hgone, hrest⟩ := h.raised r hr
    refine ⟨id, t, (hother (hfresh id t ht)).mpr ht, ?_, hrest⟩
    change id ∉ s.pending.roots.insert s.pending.nextRootId _
    rw [AList.mem_insert, not_or]
    exact ⟨hfresh id t ht, hgone⟩

theorem track (h : Books s) {seq now : ℕ} {m : Sending} (hm : s.sending.lookup seq = some m)
    (hclock : m.clock = some now) : Books (s.track seq m now) := by
  have hok := h.sending seq m hm
  obtain ⟨hleft, hnow⟩ := hok.done now hclock
  have hroom := h.room hnow
  have hnonempty : m.numbers ≠ [] := by
    intro hnil
    have hsum := hok.fragments
    have hpositive := hok.positive
    rw [hnil, List.length_nil] at hsum
    omega
  have hnext : (s.pending.room now).nextRootId = s.pending.nextRootId := by
    have hpruned := (s.pending.removeRoots_without (s.pending.expired now)).nextRootId
    exact (makeRoom_without _ _).nextRootId.trans hpruned
  have hsame : (s.pending.room now).removeExisting m.friendNumber m.numbers = s.pending.room now :=
    removeExisting_eq m.numbers (hroom.unkeyed hm)
  have hentered := hroom.entered hm hleft now
  unfold State.track trackPendingDelivery
  rw [if_neg hnonempty]
  dsimp only at hentered ⊢
  rw [hsame]
  rw [hnext] at hentered ⊢
  exact hentered

/-! ## Runs -/

theorem begin (h : Books s) (nowNs : ℤ) (userId : List UInt8) (friendNumber : UInt32) {fragments : ℕ}
    (hsome : fragments ≠ 0) : Books (s.begin nowNs userId friendNumber fragments) := by
  refine ⟨?_, ?_, h.below, h.apart, h.roots, h.fragments, h.gone, h.raised, h.once, h.acks⟩
  · intro seq m hm
    change (s.sending.insert s.nextMessageSeq _).lookup seq = some m at hm
    by_cases hseq : seq = s.nextMessageSeq
    · rw [hseq, AList.lookup_insert] at hm
      rw [← Option.some.inj hm]
      refine ⟨hseq.symm, ?_, List.nodup_nil, Nat.zero_add _, Nat.pos_of_ne_zero hsome, ?_, ?_⟩
      · rw [hseq]
        exact Nat.lt_succ_self _
      · intro now hnow
        cases hnow
      · intro number hnumber
        cases hnumber
    · rw [AList.lookup_insert_ne hseq] at hm
      have hok := h.sending seq m hm
      exact ⟨hok.named, Nat.lt_succ_of_lt hok.begun, hok.nodup, hok.fragments, hok.positive, hok.done,
        hok.owner⟩
  · intro id t ht
    have hok := h.tracked id t ht
    refine ⟨hok.before, hok.nodup, hok.nonempty, hok.fragments, Nat.lt_succ_of_lt hok.begun, ?_,
      hok.owner⟩
    change t.msgId.seq ∉ s.sending.insert s.nextMessageSeq _
    rw [AList.mem_insert, not_or]
    have hbegun := hok.begun
    exact ⟨by omega, hok.ended⟩

/-- A number that is new stays whose it was. -/
theorem owner_fragment {seq : ℕ} {m : Sending} (hnew : (m.friendNumber, number) ∉ s.owner) {key : UInt32 × UInt32}
    {seq' : ℕ} (hkey : s.owner.lookup key = some seq') :
    (s.owner.insert (m.friendNumber, number) seq).lookup key = some seq' := by
  rw [AList.lookup_insert_ne]
  · exact hkey
  · intro heq
    rw [← heq, ← AList.lookup_isSome, hkey] at hnew
    exact hnew rfl

theorem fragment (h : Books s) {seq : ℕ} {m : Sending} (hm : s.sending.lookup seq = some m)
    (hleft : m.left ≠ 0) (hnew : (m.friendNumber, number) ∉ s.owner) :
    Books (s.fragment seq m number) := by
  have hlive : seq ∈ s.sending := by
    rw [← AList.lookup_isSome, hm]
    rfl
  refine ⟨?_, ?_, h.below, h.apart, h.roots, h.fragments, h.gone, h.raised, h.once, ?_⟩
  · intro seq' m' hm'
    change (s.sending.insert seq _).lookup seq' = some m' at hm'
    by_cases hseq : seq' = seq
    · rw [hseq, AList.lookup_insert] at hm'
      rw [← Option.some.inj hm', hseq]
      have hok := h.sending seq m hm
      have hfree : number ∉ m.numbers := by
        intro hmem
        have howner := hok.owner number hmem
        rw [← AList.lookup_isSome, howner] at hnew
        exact hnew rfl
      refine ⟨hok.named, hok.begun, ?_, ?_, hok.positive, ?_, ?_⟩
      · exact List.nodup_append.mpr ⟨hok.nodup, List.nodup_singleton _, fun a ha b hb heq =>
          hfree (List.mem_singleton.mp hb ▸ heq ▸ ha)⟩
      · have hsum := hok.fragments
        dsimp only
        rw [List.length_append, List.length_singleton]
        omega
      · intro now hnow
        exact absurd (hok.done now hnow).1 hleft
      · intro n hn
        change n ∈ m.numbers ++ [number] at hn
        rw [List.mem_append, List.mem_singleton] at hn
        rcases hn with hn | heq
        · exact owner_fragment hnew (hok.owner n hn)
        · rw [heq]
          exact AList.lookup_insert _
    · rw [AList.lookup_insert_ne hseq] at hm'
      have hok := h.sending seq' m' hm'
      exact ⟨hok.named, hok.begun, hok.nodup, hok.fragments, hok.positive, hok.done, fun n hn =>
        owner_fragment hnew (hok.owner n hn)⟩
  · intro id t ht
    have hok := h.tracked id t ht
    refine ⟨hok.before, hok.nodup, hok.nonempty, hok.fragments, hok.begun, ?_, fun n hn =>
      owner_fragment hnew (hok.owner n hn)⟩
    change t.msgId.seq ∉ s.sending.insert seq _
    rw [AList.mem_insert, not_or]
    refine ⟨?_, hok.ended⟩
    intro heq
    exact hok.ended (heq ▸ hlive)
  · intro ack hack
    change _ ∈ s.owner.insert _ _
    rw [AList.mem_insert]
    exact .inr (h.acks ack hack)

theorem giveUp (h : Books s) (seq : ℕ) : Books { s with sending := s.sending.erase seq } := by
  refine ⟨?_, ?_, h.below, h.apart, h.roots, h.fragments, h.gone, h.raised, h.once, h.acks⟩
  · intro seq' m' hm'
    change (s.sending.erase seq).lookup seq' = some m' at hm'
    have hne : seq' ≠ seq := by
      intro heq
      rw [heq, AList.lookup_erase] at hm'
      cases hm'
    rw [AList.lookup_erase_ne hne] at hm'
    have hok := h.sending seq' m' hm'
    exact ⟨hok.named, hok.begun, hok.nodup, hok.fragments, hok.positive, hok.done, hok.owner⟩
  · intro id t ht
    have hok := h.tracked id t ht
    refine ⟨hok.before, hok.nodup, hok.nonempty, hok.fragments, hok.begun, ?_, hok.owner⟩
    change t.msgId.seq ∉ s.sending.erase seq
    rw [AList.mem_erase]
    exact fun hboth => hok.ended hboth.2

theorem clock (h : Books s) {seq : ℕ} {m : Sending} (hm : s.sending.lookup seq = some m)
    (hleft : m.left = 0) :
    Books { s with sending := s.sending.insert seq { m with clock := some s.now } } := by
  have hlive : seq ∈ s.sending := by
    rw [← AList.lookup_isSome, hm]
    rfl
  refine ⟨?_, ?_, h.below, h.apart, h.roots, h.fragments, h.gone, h.raised, h.once, h.acks⟩
  · intro seq' m' hm'
    change (s.sending.insert seq _).lookup seq' = some m' at hm'
    by_cases hseq : seq' = seq
    · rw [hseq, AList.lookup_insert] at hm'
      rw [← Option.some.inj hm', hseq]
      have hok := h.sending seq m hm
      refine ⟨hok.named, hok.begun, hok.nodup, hok.fragments, hok.positive, ?_, hok.owner⟩
      intro now hnow
      exact ⟨hleft, Nat.le_of_eq (Option.some.inj hnow).symm⟩
    · rw [AList.lookup_insert_ne hseq] at hm'
      have hok := h.sending seq' m' hm'
      exact ⟨hok.named, hok.begun, hok.nodup, hok.fragments, hok.positive, hok.done, hok.owner⟩
  · intro id t ht
    have hok := h.tracked id t ht
    refine ⟨hok.before, hok.nodup, hok.nonempty, hok.fragments, hok.begun, ?_, hok.owner⟩
    change t.msgId.seq ∉ s.sending.insert seq _
    rw [AList.mem_insert, not_or]
    refine ⟨?_, hok.ended⟩
    intro heq
    exact hok.ended (heq ▸ hlive)

theorem later (h : Books s) (time : ℕ) : Books { s with now := s.now + time } := by
  refine ⟨?_, ?_, h.below, h.apart, h.roots, h.fragments, ?_, h.raised, h.once, h.acks⟩
  · intro seq m hm
    have hok := h.sending seq m hm
    refine ⟨hok.named, hok.begun, hok.nodup, hok.fragments, hok.positive, ?_, hok.owner⟩
    intro now hnow
    have hdone := hok.done now hnow
    exact ⟨hdone.1, Nat.le_trans hdone.2 (Nat.le_add_right _ _)⟩
  · intro id t ht
    have hok := h.tracked id t ht
    exact ⟨hok.before, hok.nodup, hok.nonempty, hok.fragments, hok.begun, hok.ended, hok.owner⟩
  · intro id t ht hgone
    rcases h.gone id t ht hgone with hraised | hev | hcl | hover
    · exact .inl hraised
    · exact .inr (.inl hev)
    · exact .inr (.inr (.inl hcl))
    · exact .inr (.inr (.inr (hover.later time)))

theorem rehash (h : Books s) {roots : AList fun _ : ℕ => PendingDeliveryRoot}
    (hperm : roots.entries.Perm s.pending.roots.entries) :
    Books { s with pending := { s.pending with roots } } := by
  have hlookup : ∀ id, roots.lookup id = s.pending.roots.lookup id :=
    fun id => AList.perm_lookup hperm
  have hw : Without (fun _ => False) s.pending { s.pending with roots } := by
    refine ⟨rfl, ?_, ?_⟩
    · intro id root
      rw [not_false_iff, and_true]
      dsimp only
      rw [hlookup]
    · intro key id
      rw [not_false_iff, and_true]
  exact h.without hw (fun _ hid => hid) (fun _ hid => hid) fun _ _ _ _ hfalse => hfalse.elim

theorem clear (h : Books s) :
    Books { s with
      pending := s.pending.clearPendingDeliveries
      cleared := s.cleared ++ s.pending.roots.keys } := by
  have hw : Without (fun id => id ∈ s.pending.roots) s.pending s.pending.clearPendingDeliveries := by
    refine ⟨rfl, ?_, ?_⟩
    · intro id root
      constructor
      · intro hroot
        cases hroot
      · intro hroot
        exact absurd (mem_roots.mpr ⟨root, hroot.1⟩) hroot.2
    · intro key id
      constructor
      · intro hkey
        cases hkey
      · intro hkey
        exact absurd ((h.fragments key id).mp hkey.1).1 hkey.2
  refine h.without hw (fun _ hid => hid) (fun _ hid => List.mem_append_left _ hid) ?_
  intro id t _ hlive _
  exact .inr (.inl (List.mem_append_right _ (AList.mem_keys.mp hlive)))

theorem clearFriend (h : Books s) (friendNumber : UInt32) :
    Books { s with
      pending := s.pending.clearPendingDeliveriesForFriend friendNumber
      cleared := s.cleared ++
        State.gone s.pending (s.pending.clearPendingDeliveriesForFriend friendNumber) } := by
  have hw := s.pending.removeRoots_without ((s.pending.roots.entries.filter fun entry =>
    decide (entry.2.friendNumber = friendNumber)).map Sigma.fst)
  refine h.without hw (fun _ hid => hid) (fun _ hid => List.mem_append_left _ hid) ?_
  intro id t _ hlive hremoved
  refine .inr (.inl (List.mem_append_right _ ?_))
  unfold State.gone
  rw [List.mem_filter, decide_eq_true_eq]
  refine ⟨AList.mem_keys.mp hlive, ?_⟩
  intro hkept
  obtain ⟨root, hroot⟩ := mem_roots.mp hkept
  exact ((hw.roots id root).mp hroot).2 hremoved

theorem step (h : Books s) {e : Event} {s' : State} (hstep : s.step e = some s') : Books s' := by
  cases e with
  | begin nowNs userId friendNumber fragments =>
    unfold State.step at hstep
    dsimp only at hstep
    split_ifs at hstep with hzero
    rw [← Option.some.inj hstep]
    exact h.begin nowNs userId friendNumber hzero
  | fragment seq number =>
    obtain ⟨m, hm, hrest⟩ := Option.bind_eq_some_iff.mp hstep
    split_ifs at hrest with hnot
    rw [← Option.some.inj hrest]
    rw [not_or] at hnot
    exact h.fragment hm hnot.1 hnot.2
  | giveUp seq =>
    unfold State.step at hstep
    dsimp only at hstep
    split_ifs at hstep
    rw [← Option.some.inj hstep]
    exact h.giveUp seq
  | clock seq =>
    obtain ⟨m, hm, hrest⟩ := Option.bind_eq_some_iff.mp hstep
    split_ifs at hrest with hready
    rw [← Option.some.inj hrest]
    exact h.clock hm hready.1
  | track seq =>
    obtain ⟨m, hm, hrest⟩ := Option.bind_eq_some_iff.mp hstep
    obtain ⟨now, hclock, heq⟩ := Option.map_eq_some_iff.mp hrest
    rw [← heq]
    exact h.track hm hclock
  | receipt friendNumber number =>
    unfold State.step at hstep
    dsimp only at hstep
    split_ifs at hstep with howned
    rw [← Option.some.inj hstep]
    exact h.receipt howned
  | later time =>
    rw [← Option.some.inj hstep]
    exact h.later time
  | rehash roots =>
    unfold State.step at hstep
    dsimp only at hstep
    split_ifs at hstep with hperm
    rw [← Option.some.inj hstep]
    exact h.rehash hperm
  | clear =>
    rw [← Option.some.inj hstep]
    exact h.clear
  | clearFriend friendNumber =>
    rw [← Option.some.inj hstep]
    exact h.clearFriend friendNumber

theorem run {es : List Event} {s' : State} (h : Books s) (hr : exec State.step s es = some s') :
    Books s' := invariant (fun _ _ _ hbooks hstep => Books.step hbooks hstep) h hr

/-- The keys of a live root are its fragments that wait. -/
theorem keys_perm (h : Books s) {id : ℕ} {t : Tracked} (ht : s.tracked.lookup id = some t)
    (hlive : id ∈ s.pending.roots) :
    ((s.pending.fragments.entries.filter fun entry => decide (entry.2 = id)).map Sigma.fst).Perm
      ((t.waiting s.acks).map (pendingDeliveryKey t.friendNumber)) := by
  have hkeys : ((s.pending.fragments.entries.filter fun entry =>
      decide (entry.2 = id)).map Sigma.fst).Nodup :=
    s.pending.fragments.nodupKeys.sublist List.filter_sublist
  have hwaiting : ((t.waiting s.acks).map (pendingDeliveryKey t.friendNumber)).Nodup :=
    ((h.tracked id t ht).nodup.filter _).map fun n n' hsame => (pendingDeliveryKey_inj hsame).2
  refine (List.perm_ext_iff_of_nodup hkeys hwaiting).mpr ?_
  intro key
  have hlookup : key ∈ (s.pending.fragments.entries.filter fun entry =>
      decide (entry.2 = id)).map Sigma.fst ↔ s.pending.fragments.lookup key = some id := by
    rw [List.mem_map]
    constructor
    · intro hmem
      obtain ⟨entry, hentry, hkey⟩ := hmem
      rw [List.mem_filter, decide_eq_true_eq] at hentry
      rw [← hkey, lookup_of_mem_entries hentry.1, hentry.2]
    · intro hkey
      refine ⟨⟨key, id⟩, ?_, rfl⟩
      rw [List.mem_filter, decide_eq_true_eq]
      exact ⟨mem_entries_of_lookup hkey, rfl⟩
  rw [hlookup, h.fragments, List.mem_map]
  constructor
  · intro hkey
    obtain ⟨-, t', ht', n, hn, heq⟩ := hkey
    obtain rfl : t' = t := Option.some.inj (ht'.symm.trans ht)
    exact ⟨n, hn, heq.symm⟩
  · intro hkey
    obtain ⟨n, hn, heq⟩ := hkey
    exact ⟨hlive, t, ht, n, hn, heq.symm⟩

theorem remaining (h : Books s) {key : UInt64} {id : ℕ}
    (hkey : s.pending.fragments.lookup key = some id) :
    ∃ root, s.pending.roots.lookup id = some root ∧
      root.remainingFragments = s.pending.fragments.entries.countP fun entry => decide (entry.2 = id) := by
  obtain ⟨hlive, -⟩ := (h.fragments key id).mp hkey
  obtain ⟨root, hroot⟩ := mem_roots.mp hlive
  obtain ⟨t, ht, -, heq⟩ := h.roots id root hroot
  refine ⟨root, hroot, ?_⟩
  have hlength := (h.keys_perm ht hlive).length_eq
  rw [List.length_map, List.length_map, ← List.countP_eq_length_filter] at hlength
  rw [heq, hlength]
  rfl

/-- A text whose fragments are all acknowledged in time after it was tracked. -/
theorem raised_of_acked (h : Books s) {id : ℕ} {t : Tracked} (ht : s.tracked.lookup id = some t)
    (hevicted : id ∉ s.evicted) (hcleared : id ∉ s.cleared)
    (hacked : ∀ n ∈ t.numbers, ∃ ack ∈ s.acks.drop t.before, ack.friendNumber = t.friendNumber ∧
      ack.number = n ∧ ack.time < t.createdAt + kPendingDeliveryTtl) :
    t.deliveryReceipt ∈ s.raised := by
  have hlive : id ∉ s.pending.roots := by
    intro hlive
    obtain ⟨root, hroot⟩ := mem_roots.mp hlive
    obtain ⟨t', ht', hwaiting, -⟩ := h.roots id root hroot
    obtain rfl : t' = t := Option.some.inj (ht'.symm.trans ht)
    obtain ⟨n, hn⟩ := List.exists_mem_of_ne_nil _ hwaiting
    obtain ⟨hnumber, hnone⟩ := Tracked.mem_waiting.mp hn
    obtain ⟨ack, hack, hfriend, heq, -⟩ := hacked n hnumber
    rw [acked_iff.mpr ⟨ack, hack, hfriend, heq⟩] at hnone
    cases hnone
  rcases h.gone id t ht hlive with ⟨-, hraised⟩ | hev | hcl | ⟨-, n, hn, hlate⟩
  · exact hraised
  · exact absurd hev hevicted
  · exact absurd hcl hcleared
  · obtain ⟨ack, hack, hfriend, heq, hintime⟩ := hacked n hn
    have hover := hlate ack hack hfriend heq
    omega

end Books

/-! ## Receipts in turn -/

/-- No receipt comes for a text before it is tracked. -/
def InTurn (s : State) : Event → Prop
  | .receipt friendNumber number =>
    ∀ entry ∈ s.sending.entries, entry.2.friendNumber = friendNumber → number ∉ entry.2.numbers
  | _ => True

instance (s : State) : ∀ e, Decidable (InTurn s e)
  | .receipt friendNumber number => inferInstanceAs (Decidable (∀ entry ∈ s.sending.entries,
      entry.2.friendNumber = friendNumber → number ∉ entry.2.numbers))
  | .begin _ _ _ _ => .isTrue trivial
  | .fragment _ _ => .isTrue trivial
  | .giveUp _ => .isTrue trivial
  | .clock _ => .isTrue trivial
  | .track _ => .isTrue trivial
  | .later _ => .isTrue trivial
  | .rehash _ => .isTrue trivial
  | .clear => .isTrue trivial
  | .clearFriend _ => .isTrue trivial

/-- The receipts of a text are those since it was tracked. -/
structure Turned (s : State) : Prop where
  sending : ∀ seq m, s.sending.lookup seq = some m →
    ∀ ack ∈ s.acks, ack.friendNumber = m.friendNumber → ack.number ∉ m.numbers
  tracked : ∀ id t, s.tracked.lookup id = some t →
    ∀ ack ∈ s.acks.take t.before, ack.friendNumber = t.friendNumber → ack.number ∉ t.numbers

theorem turned_init : Turned {} := by
  refine ⟨?_, ?_⟩
  · intro seq m h
    cases h
  · intro id t h
    cases h

namespace Turned

variable {s : State}

theorem receipt (h : Turned s) (hbooks : Books s) {friendNumber number : UInt32}
    (hturn : InTurn s (.receipt friendNumber number)) : Turned (s.receipt friendNumber number) := by
  change ∀ entry ∈ s.sending.entries, entry.2.friendNumber = friendNumber → number ∉ entry.2.numbers
    at hturn
  refine ⟨?_, ?_⟩
  · intro seq m hm ack hack hfriend
    change ack ∈ Books.noted s friendNumber number at hack
    unfold Books.noted at hack
    rw [List.mem_append, List.mem_singleton] at hack
    rcases hack with hack | heq
    · exact h.sending seq m hm ack hack hfriend
    · rw [heq] at hfriend ⊢
      have hentry := mem_entries_of_lookup hm
      exact hturn _ hentry hfriend.symm
  · intro id t ht ack hack
    change ack ∈ (Books.noted s friendNumber number).take t.before at hack
    unfold Books.noted at hack
    rw [List.take_append_of_le_length (hbooks.tracked id t ht).before] at hack
    exact h.tracked id t ht ack hack

theorem track (h : Turned s) {seq now : ℕ} {m : Sending} (hm : s.sending.lookup seq = some m) :
    Turned (s.track seq m now) := by
  refine ⟨?_, ?_⟩
  · intro seq' m' hm'
    change (s.sending.erase seq).lookup seq' = some m' at hm'
    have hne : seq' ≠ seq := by
      intro heq
      rw [heq, AList.lookup_erase] at hm'
      cases hm'
    rw [AList.lookup_erase_ne hne] at hm'
    exact h.sending seq' m' hm'
  · intro id t ht
    change (s.tracked.insert s.pending.nextRootId _).lookup id = some t at ht
    by_cases hid : id = s.pending.nextRootId
    · rw [hid, AList.lookup_insert] at ht
      rw [← Option.some.inj ht]
      intro ack hack
      exact h.sending seq m hm ack (List.mem_of_mem_take hack)
    · rw [AList.lookup_insert_ne hid] at ht
      exact h.tracked id t ht

theorem fragment (h : Turned s) (hbooks : Books s) {seq : ℕ} {m : Sending} {number : UInt32}
    (hm : s.sending.lookup seq = some m) (hnew : (m.friendNumber, number) ∉ s.owner) :
    Turned (s.fragment seq m number) := by
  refine ⟨?_, h.tracked⟩
  intro seq' m' hm' ack hack
  change (s.sending.insert seq _).lookup seq' = some m' at hm'
  by_cases hseq : seq' = seq
  · rw [hseq, AList.lookup_insert] at hm'
    rw [← Option.some.inj hm']
    dsimp only
    intro hfriend hmem
    rw [List.mem_append, List.mem_singleton] at hmem
    rcases hmem with hmem | heq
    · exact h.sending seq m hm ack hack hfriend hmem
    · have howned := hbooks.acks ack hack
      rw [hfriend, heq] at howned
      exact hnew howned
  · rw [AList.lookup_insert_ne hseq] at hm'
    exact h.sending seq' m' hm' ack hack

theorem step (h : Turned s) (hbooks : Books s) {e : Event} (hturn : InTurn s e) {s' : State}
    (hstep : s.step e = some s') : Turned s' := by
  cases e with
  | begin nowNs userId friendNumber fragments =>
    unfold State.step at hstep
    dsimp only at hstep
    split_ifs at hstep
    rw [← Option.some.inj hstep]
    refine ⟨?_, h.tracked⟩
    intro seq m hm ack hack
    change (s.sending.insert s.nextMessageSeq _).lookup seq = some m at hm
    by_cases hseq : seq = s.nextMessageSeq
    · rw [hseq, AList.lookup_insert] at hm
      rw [← Option.some.inj hm]
      exact fun _ => List.not_mem_nil
    · rw [AList.lookup_insert_ne hseq] at hm
      exact h.sending seq m hm ack hack
  | fragment seq number =>
    obtain ⟨m, hm, hrest⟩ := Option.bind_eq_some_iff.mp hstep
    split_ifs at hrest with hnot
    rw [← Option.some.inj hrest]
    rw [not_or] at hnot
    exact h.fragment hbooks hm hnot.2
  | giveUp seq =>
    unfold State.step at hstep
    dsimp only at hstep
    split_ifs at hstep
    rw [← Option.some.inj hstep]
    refine ⟨?_, h.tracked⟩
    intro seq' m' hm'
    change (s.sending.erase seq).lookup seq' = some m' at hm'
    have hne : seq' ≠ seq := by
      intro heq
      rw [heq, AList.lookup_erase] at hm'
      cases hm'
    rw [AList.lookup_erase_ne hne] at hm'
    exact h.sending seq' m' hm'
  | clock seq =>
    obtain ⟨m, hm, hrest⟩ := Option.bind_eq_some_iff.mp hstep
    split_ifs at hrest
    rw [← Option.some.inj hrest]
    refine ⟨?_, h.tracked⟩
    intro seq' m' hm'
    change (s.sending.insert seq _).lookup seq' = some m' at hm'
    by_cases hseq : seq' = seq
    · rw [hseq, AList.lookup_insert] at hm'
      rw [← Option.some.inj hm']
      exact h.sending seq m hm
    · rw [AList.lookup_insert_ne hseq] at hm'
      exact h.sending seq' m' hm'
  | track seq =>
    obtain ⟨m, hm, hrest⟩ := Option.bind_eq_some_iff.mp hstep
    obtain ⟨now, -, heq⟩ := Option.map_eq_some_iff.mp hrest
    rw [← heq]
    exact h.track hm
  | receipt friendNumber number =>
    unfold State.step at hstep
    dsimp only at hstep
    split_ifs at hstep
    rw [← Option.some.inj hstep]
    exact h.receipt hbooks hturn
  | later time =>
    rw [← Option.some.inj hstep]
    exact ⟨h.sending, h.tracked⟩
  | rehash roots =>
    unfold State.step at hstep
    dsimp only at hstep
    split_ifs at hstep
    rw [← Option.some.inj hstep]
    exact ⟨h.sending, h.tracked⟩
  | clear =>
    rw [← Option.some.inj hstep]
    exact ⟨h.sending, h.tracked⟩
  | clearFriend friendNumber =>
    rw [← Option.some.inj hstep]
    exact ⟨h.sending, h.tracked⟩

end Turned

/-- A text is reported delivered exactly once, when its fragments were acknowledged. -/
structure DeliveredOnce (s : State) : Prop where
  once : (s.raised.map DeliveryReceipt.msgId).Nodup
  acknowledged : ∀ r ∈ s.raised, ∃ id t, s.tracked.lookup id = some t ∧ r = t.deliveryReceipt ∧
    t.numbers.length = t.fragments ∧ t.numbers.Nodup ∧
    ∀ n ∈ t.numbers, acked s.acks t.friendNumber n = true
  remaining : ∀ key id, s.pending.fragments.lookup key = some id →
    ∃ root, s.pending.roots.lookup id = some root ∧
      root.remainingFragments = s.pending.fragments.entries.countP fun entry => decide (entry.2 = id)
  /-- Unless it was evicted, or a connection was lost. -/
  delivered : ∀ id t, s.tracked.lookup id = some t → id ∉ s.evicted → id ∉ s.cleared →
    (∀ n ∈ t.numbers, ∃ ack ∈ s.acks, ack.friendNumber = t.friendNumber ∧ ack.number = n ∧
      ack.time < t.createdAt + kPendingDeliveryTtl) →
    t.deliveryReceipt ∈ s.raised

theorem Books.deliveredOnce {s : State} (h : Books s) (hturned : Turned s) : DeliveredOnce s := by
  refine ⟨h.once, ?_, fun _ _ hkey => h.remaining hkey, ?_⟩
  · intro r hr
    obtain ⟨id, t, ht, -, hdone, heq⟩ := h.raised r hr
    have hok := h.tracked id t ht
    refine ⟨id, t, ht, heq, hok.fragments, hok.nodup, ?_⟩
    intro n hn
    by_contra hnone
    have hlate : acked (s.acks.drop t.before) t.friendNumber n = false := by
      cases hacked : acked (s.acks.drop t.before) t.friendNumber n with
      | false => rfl
      | true =>
        obtain ⟨ack, hack, hrest⟩ := acked_iff.mp hacked
        exact absurd (acked_iff.mpr ⟨ack, List.mem_of_mem_drop hack, hrest⟩) hnone
    have hmem := Tracked.mem_waiting.mpr ⟨hn, hlate⟩
    rw [hdone] at hmem
    cases hmem
  · intro id t ht hevicted hcleared hacked
    refine h.raised_of_acked ht hevicted hcleared ?_
    intro n hn
    obtain ⟨ack, hack, hfriend, heq, htime⟩ := hacked n hn
    rw [← List.take_append_drop t.before s.acks, List.mem_append] at hack
    rcases hack with hearly | hack
    · exact absurd (heq ▸ hn) (hturned.tracked id t ht ack hearly hfriend)
    · exact ⟨ack, hack, hfriend, heq, htime⟩

/-- In every run in which no receipt comes for a text before it is tracked. -/
theorem delivery_receipts_exact {es : List Event} {s : State} (hm : Meets State.step InTurn {} es)
    (hr : exec State.step {} es = some s) : DeliveredOnce s := by
  have hboth : Books s ∧ Turned s := by
    refine invariant_of_meets (I := fun s => Books s ∧ Turned s) ?_ ⟨books_init, turned_init⟩ hm hr
    intro s e s' h hturn hstep
    exact ⟨h.1.step hstep, h.2.step h.1 hturn hstep⟩
  exact hboth.1.deliveredOnce hboth.2

/-- Two fragments; the first receipt is repeated. -/
def twoFragments : List Event :=
  [.begin 0 [1] 3 2, .fragment 1 7, .fragment 1 8, .clock 1, .track 1, .later 5,
    .receipt 3 8, .receipt 3 8, .receipt 3 7]

theorem two_fragments_delivered :
    ∃ s, exec State.step {} twoFragments = some s ∧ s.raised = [⟨⟨0, 1⟩, [1], false⟩] ∧
      DeliveredOnce s := by
  have hrun : (exec State.step {} twoFragments).isSome = true := by decide
  have hmeets : Meets State.step InTurn {} twoFragments := by decide
  obtain ⟨s, hs⟩ := Option.isSome_iff_exists.mp hrun
  have hraised : ((exec State.step {} twoFragments).map State.raised) =
      some [⟨⟨0, 1⟩, [1], false⟩] := by decide
  rw [hs] at hraised
  exact ⟨s, hs, Option.some.inj hraised, delivery_receipts_exact hmeets hs⟩

/-- The receipt comes between the send and `TrackPendingDelivery`. -/
def earlyReceipt : List Event := [.begin 0 [1] 3 1, .fragment 1 7, .receipt 3 7, .clock 1, .track 1]

theorem early_receipt_lost :
    ∃ s, exec State.step {} earlyReceipt = some s ∧ ¬ DeliveredOnce s := by
  have hrun : (exec State.step {} earlyReceipt).isSome = true := by decide
  have hr := (Option.getD_of_ne_none (Option.isSome_iff_ne_none.mp hrun) {}).symm
  refine ⟨_, hr, ?_⟩
  intro h
  have htracked : ((exec State.step {} earlyReceipt).getD {}).tracked.lookup 1 =
      some ⟨⟨0, 1⟩, [1], 3, 1, [7], 0, 1⟩ := by rfl
  have hevicted : 1 ∉ ((exec State.step {} earlyReceipt).getD {}).evicted := by decide
  have hcleared : 1 ∉ ((exec State.step {} earlyReceipt).getD {}).cleared := by decide
  have hraised : ((exec State.step {} earlyReceipt).getD {}).raised = [] := by decide
  have hmem := h.delivered 1 _ htracked hevicted hcleared ?_
  · rw [hraised] at hmem
    cases hmem
  · intro n hn
    obtain rfl := List.mem_singleton.mp hn
    exact ⟨⟨3, 7, 0⟩, List.mem_singleton.mpr rfl, rfl, rfl, by decide⟩

end Tim2Tox.PendingDelivery
