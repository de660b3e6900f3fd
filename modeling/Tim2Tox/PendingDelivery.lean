import Mathlib.Algebra.Ring.Nat
import Mathlib.Data.List.MinMax
import Tim2Tox.KeyedTables
import Tim2Tox.LabelledRuns

set_option autoImplicit false

/-!
# Delivery receipts of C2C texts

A text is sent as fragments, and toxcore acknowledges each of them by its message number. The
manager keeps a root for a text and a key for every fragment that is not acknowledged.
-/
namespace Tim2Tox.PendingDelivery

open KeyedTables

/-- Nanoseconds of the steady clock. -/
def kPendingDeliveryTtl : ℕ := 600000000000

def kMaxPendingDeliveries : ℕ := 4096

def pendingDeliveryKey (friendNumber toxMessageNumber : UInt32) : UInt64 :=
  (friendNumber.toUInt64 <<< 32) ||| toxMessageNumber.toUInt64

theorem pendingDeliveryKey_toNat (friendNumber toxMessageNumber : UInt32) :
    (pendingDeliveryKey friendNumber toxMessageNumber).toNat =
      friendNumber.toNat * 2 ^ 32 + toxMessageNumber.toNat := by
  have hnumber : toxMessageNumber.toNat < 2 ^ 32 := toxMessageNumber.toNat_lt
  have hfriend : friendNumber.toNat < 2 ^ 32 := friendNumber.toNat_lt
  have hshift : friendNumber.toNat <<< 32 % 2 ^ 64 = friendNumber.toNat <<< 32 := by
    rw [Nat.shiftLeft_eq]
    exact Nat.mod_eq_of_lt (by omega)
  have hwidth : (32 : UInt64).toNat % 64 = 32 := by decide
  simp only [pendingDeliveryKey, UInt64.toNat_or, UInt64.toNat_shiftLeft, UInt32.toNat_toUInt64]
  rw [hwidth, hshift, ← Nat.shiftLeft_add_eq_or_of_lt hnumber, Nat.shiftLeft_eq]

/-- Friend and number can be read off a key. -/
theorem pendingDeliveryKey_inj {f n f' n' : UInt32}
    (h : pendingDeliveryKey f n = pendingDeliveryKey f' n') : f = f' ∧ n = n' := by
  have hnat := congrArg UInt64.toNat h
  rw [pendingDeliveryKey_toNat, pendingDeliveryKey_toNat] at hnat
  have hn : n.toNat < 2 ^ 32 := n.toNat_lt
  have hn' : n'.toNat < 2 ^ 32 := n'.toNat_lt
  refine ⟨UInt32.toNat_inj.mp ?_, UInt32.toNat_inj.mp ?_⟩
  · omega
  · omega

/-- The numbers in the text of a message id; the instance is always the same. -/
structure MessageId where
  nowNs : ℤ
  seq : ℕ
  deriving DecidableEq

structure PendingDeliveryRoot where
  msgId : MessageId
  userId : List UInt8
  friendNumber : UInt32
  remainingFragments : ℕ
  createdAt : ℕ
  deriving DecidableEq

/-- What `pending_deliveries_mutex_` guards. -/
structure PendingDeliveries where
  nextRootId : ℕ := 1
  roots : AList fun _ : ℕ => PendingDeliveryRoot := ∅
  fragments : AList fun _ : UInt64 => ℕ := ∅

namespace PendingDeliveries

def removePendingDeliveryRoot (p : PendingDeliveries) (rootId : ℕ) : PendingDeliveries :=
  { p with
    roots := p.roots.erase rootId
    fragments := eraseIf (fun entry => decide (entry.2 = rootId)) p.fragments }

def removeRoots (p : PendingDeliveries) (ids : List ℕ) : PendingDeliveries :=
  ids.foldl removePendingDeliveryRoot p

def expired (p : PendingDeliveries) (now : ℕ) : List ℕ :=
  (p.roots.entries.filter fun entry =>
    decide (entry.2.createdAt + kPendingDeliveryTtl ≤ now)).map Sigma.fst

def prunePendingDeliveries (p : PendingDeliveries) (now : ℕ) : PendingDeliveries :=
  p.removeRoots (p.expired now)

/-- The first of the oldest roots, in the order of the table. -/
def oldest (p : PendingDeliveries) : Option ℕ :=
  (p.roots.entries.argmin fun entry => entry.2.createdAt).map Sigma.fst

/-- The loop that evicts; every turn removes a root. -/
def makeRoom : ℕ → PendingDeliveries → PendingDeliveries
  | 0, p => p
  | turns + 1, p =>
    if p.roots.keys.length < kMaxPendingDeliveries then p
    else match p.oldest with
      | none => p
      | some rootId => makeRoom turns (p.removePendingDeliveryRoot rootId)

def room (p : PendingDeliveries) (now : ℕ) : PendingDeliveries :=
  makeRoom (p.prunePendingDeliveries now).roots.keys.length (p.prunePendingDeliveries now)

/-- A number that is used again takes the root away that had it. -/
def removeExisting (friendNumber : UInt32) (numbers : List UInt32) (p : PendingDeliveries) :
    PendingDeliveries :=
  numbers.foldl (fun p number =>
    match p.fragments.lookup (pendingDeliveryKey friendNumber number) with
    | none => p
    | some rootId => p.removePendingDeliveryRoot rootId) p

def emplace (key : UInt64) (rootId : ℕ) (fragments : AList fun _ : UInt64 => ℕ) :
    AList fun _ : UInt64 => ℕ :=
  if key ∈ fragments then fragments else fragments.insert key rootId

def trackPendingDelivery (p : PendingDeliveries) (now : ℕ) (friendNumber : UInt32)
    (toxMessageNumbers : List UInt32) (msgId : MessageId) (userId : List UInt8) :
    PendingDeliveries :=
  if toxMessageNumbers = [] then p
  else
    let p := (p.room now).removeExisting friendNumber toxMessageNumbers
    { nextRootId := p.nextRootId + 1
      roots := p.roots.insert p.nextRootId
        ⟨msgId, userId, friendNumber, toxMessageNumbers.length, now⟩
      fragments := toxMessageNumbers.foldl (fun fragments number =>
        emplace (pendingDeliveryKey friendNumber number) p.nextRootId fragments) p.fragments }

def eraseFragment (p : PendingDeliveries) (key : UInt64) : PendingDeliveries :=
  { p with fragments := p.fragments.erase key }

/-- A fragment is acknowledged; the root that is complete. -/
def acknowledge (p : PendingDeliveries) (friendNumber toxMessageNumber : UInt32) :
    PendingDeliveries × Option PendingDeliveryRoot :=
  let key := pendingDeliveryKey friendNumber toxMessageNumber
  match p.fragments.lookup key with
  | none => (p, none)
  | some rootId =>
    let p := p.eraseFragment key
    match p.roots.lookup rootId with
    | none => (p, none)
    | some root =>
      let root := { root with remainingFragments := root.remainingFragments - 1 }
      if root.remainingFragments = 0 then (p.removePendingDeliveryRoot rootId, some root)
      else ({ p with roots := p.roots.insert rootId root }, none)

/-- The locked part of the handler. -/
def handleFriendReadReceipt (p : PendingDeliveries) (now : ℕ) (friendNumber toxMessageNumber : UInt32) :
    PendingDeliveries × Option PendingDeliveryRoot :=
  (p.prunePendingDeliveries now).acknowledge friendNumber toxMessageNumber

def clearPendingDeliveries (p : PendingDeliveries) : PendingDeliveries :=
  { p with roots := ∅, fragments := ∅ }

def clearPendingDeliveriesForFriend (p : PendingDeliveries) (friendNumber : UInt32) :
    PendingDeliveries :=
  p.removeRoots ((p.roots.entries.filter fun entry =>
    decide (entry.2.friendNumber = friendNumber)).map Sigma.fst)

end PendingDeliveries

/-! ## What a removal leaves -/

namespace PendingDeliveries

/-- The roots in question are gone with their keys, and nothing else changed. -/
structure Without (removed : ℕ → Prop) (p p' : PendingDeliveries) : Prop where
  nextRootId : p'.nextRootId = p.nextRootId
  roots : ∀ id root, p'.roots.lookup id = some root ↔ p.roots.lookup id = some root ∧ ¬ removed id
  fragments : ∀ key id,
    p'.fragments.lookup key = some id ↔ p.fragments.lookup key = some id ∧ ¬ removed id

theorem without_refl (p : PendingDeliveries) : Without (fun _ => False) p p := by
  refine ⟨rfl, ?_, ?_⟩
  · intro id root
    rw [not_false_iff, and_true]
  · intro key id
    rw [not_false_iff, and_true]

theorem Without.trans {a b : ℕ → Prop} {p p' p'' : PendingDeliveries} (h : Without a p p')
    (h' : Without b p' p'') : Without (fun id => a id ∨ b id) p p'' := by
  refine ⟨h'.nextRootId.trans h.nextRootId, ?_, ?_⟩
  · intro id root
    rw [h'.roots, h.roots, and_assoc, not_or]
  · intro key id
    rw [h'.fragments, h.fragments, and_assoc, not_or]

theorem Without.congr {a b : ℕ → Prop} {p p' : PendingDeliveries} (h : Without a p p')
    (hab : ∀ id, a id ↔ b id) : Without b p p' := by
  have heq : a = b := funext fun id => propext (hab id)
  rw [← heq]
  exact h

theorem removePendingDeliveryRoot_without (p : PendingDeliveries) (rootId : ℕ) :
    Without (fun id => id = rootId) p (p.removePendingDeliveryRoot rootId) := by
  refine ⟨rfl, ?_, ?_⟩
  · intro id root
    change (p.roots.erase rootId).lookup id = some root ↔ _
    by_cases heq : id = rootId
    · rw [heq, AList.lookup_erase]
      simp
    · rw [AList.lookup_erase_ne heq]
      simp [heq]
  · intro key id
    change (eraseIf _ p.fragments).lookup key = some id ↔ _
    rw [lookup_eraseIf_eq_some, decide_eq_false_iff_not]

theorem removeRoots_without (ids : List ℕ) : ∀ p : PendingDeliveries,
    Without (fun id => id ∈ ids) p (p.removeRoots ids) := by
  induction ids with
  | nil => exact fun p => p.without_refl.congr fun id => by simp
  | cons first ids ih =>
    intro p
    have hfirst := p.removePendingDeliveryRoot_without first
    exact (hfirst.trans (ih _)).congr fun id => List.mem_cons.symm

theorem mem_expired {p : PendingDeliveries} {now id : ℕ} :
    id ∈ p.expired now ↔
      ∃ root, p.roots.lookup id = some root ∧ root.createdAt + kPendingDeliveryTtl ≤ now := by
  unfold expired
  rw [List.mem_map]
  constructor
  · intro h
    obtain ⟨entry, hmem, hid⟩ := h
    rw [List.mem_filter, decide_eq_true_eq] at hmem
    refine ⟨entry.2, ?_, hmem.2⟩
    rw [← hid]
    exact lookup_of_mem_entries hmem.1
  · intro h
    obtain ⟨root, hlookup, hold⟩ := h
    refine ⟨⟨id, root⟩, ?_, rfl⟩
    rw [List.mem_filter, decide_eq_true_eq]
    exact ⟨mem_entries_of_lookup hlookup, hold⟩

theorem makeRoom_without (turns : ℕ) : ∀ p : PendingDeliveries,
    Without (fun id => id ∈ p.roots ∧ id ∉ (makeRoom turns p).roots) p (makeRoom turns p) := by
  suffices h : ∀ p : PendingDeliveries, ∃ removed, Without removed p (makeRoom turns p) ∧
      ∀ id, removed id → id ∈ p.roots by
    intro p
    obtain ⟨removed, hwithout, hmem⟩ := h p
    refine hwithout.congr fun id => ?_
    constructor
    · intro hid
      refine ⟨hmem id hid, ?_⟩
      intro hkept
      rw [← AList.lookup_isSome, Option.isSome_iff_exists] at hkept
      obtain ⟨root, hroot⟩ := hkept
      exact ((hwithout.roots id root).mp hroot).2 hid
    · intro hid
      by_contra hnot
      have hkept := hid.1
      rw [← AList.lookup_isSome, Option.isSome_iff_exists] at hkept
      obtain ⟨root, hroot⟩ := hkept
      have hstays := (hwithout.roots id root).mpr ⟨hroot, hnot⟩
      refine hid.2 ?_
      rw [← AList.lookup_isSome, hstays]
      rfl
  induction turns with
  | zero => exact fun p => ⟨_, p.without_refl, fun id hid => hid.elim⟩
  | succ turns ih =>
    intro p
    unfold makeRoom
    split_ifs
    · exact ⟨_, p.without_refl, fun id hid => hid.elim⟩
    · cases hold : p.oldest with
      | none => exact ⟨_, p.without_refl, fun id hid => hid.elim⟩
      | some rootId =>
        obtain ⟨removed, hwithout, hmem⟩ := ih (p.removePendingDeliveryRoot rootId)
        refine ⟨_, (p.removePendingDeliveryRoot_without rootId).trans hwithout, ?_⟩
        intro id hid
        rcases hid with heq | hid
        · unfold oldest at hold
          rw [Option.map_eq_some_iff] at hold
          obtain ⟨entry, hargmin, hentry⟩ := hold
          have hin := List.argmin_mem hargmin
          rw [heq, ← hentry]
          exact AList.mem_keys.mpr (List.mem_map_of_mem hin)
        · have hin := hmem id hid
          exact (AList.mem_erase.mp hin).2

/-- After the loop there is room for one more root. -/
theorem makeRoom_room (turns : ℕ) : ∀ p : PendingDeliveries, p.roots.keys.length ≤ turns →
    (makeRoom turns p).roots.keys.length < kMaxPendingDeliveries := by
  induction turns with
  | zero =>
    intro p hturns
    have hpos : 0 < kMaxPendingDeliveries := by decide
    unfold makeRoom
    omega
  | succ turns ih =>
    intro p hturns
    unfold makeRoom
    split_ifs with hroom
    · exact hroom
    · cases hold : p.oldest with
      | none =>
        unfold oldest at hold
        rw [Option.map_eq_none_iff, List.argmin_eq_none] at hold
        have hpos : 0 < kMaxPendingDeliveries := by decide
        have hempty : p.roots.keys.length = 0 := by
          change (p.roots.entries.map Sigma.fst).length = 0
          rw [hold]
          rfl
        dsimp only
        omega
      | some rootId =>
        refine ih _ ?_
        unfold oldest at hold
        rw [Option.map_eq_some_iff] at hold
        obtain ⟨entry, hargmin, hentry⟩ := hold
        have hin : rootId ∈ p.roots := by
          rw [← hentry]
          exact AList.mem_keys.mpr (List.mem_map_of_mem (List.argmin_mem hargmin))
        have hless := keys_erase_lt hin
        change (p.roots.erase rootId).keys.length ≤ turns
        omega

/-- Numbers that no key has take nothing away. -/
theorem removeExisting_eq {friendNumber : UInt32} {p : PendingDeliveries} : ∀ numbers : List UInt32,
    (∀ n ∈ numbers, p.fragments.lookup (pendingDeliveryKey friendNumber n) = none) →
    p.removeExisting friendNumber numbers = p := by
  intro numbers
  induction numbers with
  | nil => exact fun _ => rfl
  | cons first numbers ih =>
    intro hnone
    have hfirst := hnone first List.mem_cons_self
    have hrest := ih fun n hn => hnone n (List.mem_cons_of_mem _ hn)
    unfold removeExisting at hrest ⊢
    rw [List.foldl_cons, hfirst]
    exact hrest

/-- The keys after those of a text are put in. -/
theorem lookup_emplaceAll (friendNumber : UInt32) (rootId : ℕ) (key : UInt64) (id : ℕ)
    (numbers : List UInt32) : ∀ fragments : AList fun _ : UInt64 => ℕ,
    (numbers.foldl (fun fragments number =>
      emplace (pendingDeliveryKey friendNumber number) rootId fragments) fragments).lookup key = some id ↔
      fragments.lookup key = some id ∨ id = rootId ∧ fragments.lookup key = none ∧
        ∃ number ∈ numbers, key = pendingDeliveryKey friendNumber number := by
  induction numbers with
  | nil =>
    intro fragments
    simp
  | cons first numbers ih =>
    intro fragments
    rw [List.foldl_cons, ih]
    unfold emplace
    split_ifs with hmem
    · have hold : ∀ n, key = pendingDeliveryKey friendNumber n → n = first →
          fragments.lookup key ≠ none := by
        intro n hkey heq
        rw [hkey, heq, ← Option.isSome_iff_ne_none, AList.lookup_isSome]
        exact hmem
      constructor
      · intro h
        rcases h with h | ⟨hid, hnone, n, hn, hkey⟩
        · exact .inl h
        · exact .inr ⟨hid, hnone, n, List.mem_cons_of_mem _ hn, hkey⟩
      · intro h
        rcases h with h | ⟨hid, hnone, n, hn, hkey⟩
        · exact .inl h
        · rcases List.mem_cons.mp hn with heq | hn
          · exact absurd hnone (hold n hkey heq)
          · exact .inr ⟨hid, hnone, n, hn, hkey⟩
    · have hnew : fragments.lookup (pendingDeliveryKey friendNumber first) = none :=
        AList.lookup_eq_none.mpr hmem
      by_cases heq : key = pendingDeliveryKey friendNumber first
      · rw [heq, AList.lookup_insert, hnew]
        simp [eq_comm]
      · rw [AList.lookup_insert_ne heq]
        constructor
        · intro h
          rcases h with h | ⟨hid, hnone, n, hn, hkey⟩
          · exact .inl h
          · exact .inr ⟨hid, hnone, n, List.mem_cons_of_mem _ hn, hkey⟩
        · intro h
          rcases h with h | ⟨hid, hnone, n, hn, hkey⟩
          · exact .inl h
          · rcases List.mem_cons.mp hn with hfirst | hn
            · exact absurd (hfirst ▸ hkey) heq
            · exact .inr ⟨hid, hnone, n, hn, hkey⟩

end PendingDeliveries

/-! ## Senders and the event thread -/

/-- A call of `SendC2CTextMessageWithType` before its success is reported: the fragments to go,
    the numbers of those sent, and the time `TrackPendingDelivery` has read. -/
structure Sending where
  msgId : MessageId
  userId : List UInt8
  friendNumber : UInt32
  fragments : ℕ
  left : ℕ
  numbers : List UInt32 := []
  clock : Option ℕ := none

/-- A text whose success was reported, and how many receipts came before it was tracked. -/
structure Tracked where
  msgId : MessageId
  userId : List UInt8
  friendNumber : UInt32
  fragments : ℕ
  numbers : List UInt32
  createdAt : ℕ
  before : ℕ

/-- A read receipt of toxcore. -/
structure Ack where
  friendNumber : UInt32
  number : UInt32
  time : ℕ

structure DeliveryReceipt where
  msgId : MessageId
  userId : List UInt8
  isPeerRead : Bool
  deriving DecidableEq

/-- The manager with the sends under way, and what happened: whose every number is, the
    receipts of toxcore, the texts tracked by their roots, the roots evicted for room or
    cleared with a connection, and the delivery receipts raised. -/
structure State where
  now : ℕ := 0
  pending : PendingDeliveries := {}
  nextMessageSeq : ℕ := 1
  sending : AList fun _ : ℕ => Sending := ∅
  owner : AList fun _ : UInt32 × UInt32 => ℕ := ∅
  acks : List Ack := []
  tracked : AList fun _ : ℕ => Tracked := ∅
  evicted : List ℕ := []
  cleared : List ℕ := []
  raised : List DeliveryReceipt := []

inductive Event where
  /-- A message id is made for a text in fragments. -/
  | begin (nowNs : ℤ) (userId : List UInt8) (friendNumber : UInt32) (fragments : ℕ)
  /-- `tox_friend_send_message` returns a number. -/
  | fragment (seq : ℕ) (number : UInt32)
  /-- A fragment fails, or the session has ended. -/
  | giveUp (seq : ℕ)
  /-- `TrackPendingDelivery` reads the clock, before it takes the lock. -/
  | clock (seq : ℕ)
  /-- Its locked part, after which success is reported. -/
  | track (seq : ℕ)
  | receipt (friendNumber number : UInt32)
  | later (time : ℕ)
  /-- The table of roots takes another order. -/
  | rehash (roots : AList fun _ : ℕ => PendingDeliveryRoot)
  | clear
  | clearFriend (friendNumber : UInt32)

namespace State

def begin (s : State) (nowNs : ℤ) (userId : List UInt8) (friendNumber : UInt32) (fragments : ℕ) :
    State :=
  { s with
    nextMessageSeq := s.nextMessageSeq + 1
    sending := s.sending.insert s.nextMessageSeq
      ⟨⟨nowNs, s.nextMessageSeq⟩, userId, friendNumber, fragments, fragments, [], none⟩ }

def fragment (s : State) (seq : ℕ) (m : Sending) (number : UInt32) : State :=
  { s with
    owner := s.owner.insert (m.friendNumber, number) seq
    sending := s.sending.insert seq
      { m with left := m.left - 1, numbers := m.numbers ++ [number] } }

/-- The roots of a table that another one does not have. -/
def gone (p p' : PendingDeliveries) : List ℕ := p.roots.keys.filter (· ∉ p'.roots)

def track (s : State) (seq : ℕ) (m : Sending) (now : ℕ) : State :=
  { s with
    pending := s.pending.trackPendingDelivery now m.friendNumber m.numbers m.msgId m.userId
    sending := s.sending.erase seq
    tracked := s.tracked.insert s.pending.nextRootId
      ⟨m.msgId, m.userId, m.friendNumber, m.fragments, m.numbers, now, s.acks.length⟩
    evicted := s.evicted ++ gone (s.pending.prunePendingDeliveries now) (s.pending.room now) }

def receipt (s : State) (friendNumber number : UInt32) : State :=
  let handled := s.pending.handleFriendReadReceipt s.now friendNumber number
  { s with
    pending := handled.1
    acks := s.acks ++ [⟨friendNumber, number, s.now⟩]
    raised := s.raised ++ (handled.2.map fun root => ⟨root.msgId, root.userId, false⟩).toList }

def step (s : State) : Event → Option State
  | .begin nowNs userId friendNumber fragments =>
    if fragments = 0 then none else some (s.begin nowNs userId friendNumber fragments)
  | .fragment seq number => (s.sending.lookup seq).bind fun m =>
    if m.left = 0 ∨ (m.friendNumber, number) ∈ s.owner then none else some (s.fragment seq m number)
  | .giveUp seq => if seq ∈ s.sending then some { s with sending := s.sending.erase seq } else none
  | .clock seq => (s.sending.lookup seq).bind fun m =>
    if m.left = 0 ∧ m.clock = none then
      some { s with sending := s.sending.insert seq { m with clock := some s.now } }
    else none
  | .track seq => (s.sending.lookup seq).bind fun m => m.clock.map fun now => s.track seq m now
  | .receipt friendNumber number =>
    if (friendNumber, number) ∈ s.owner then some (s.receipt friendNumber number) else none
  | .later time => some { s with now := s.now + time }
  | .rehash roots =>
    if roots.entries.Perm s.pending.roots.entries then
      some { s with pending := { s.pending with roots } }
    else none
  | .clear =>
    some { s with
      pending := s.pending.clearPendingDeliveries
      cleared := s.cleared ++ s.pending.roots.keys }
  | .clearFriend friendNumber =>
    some { s with
      pending := s.pending.clearPendingDeliveriesForFriend friendNumber
      cleared := s.cleared ++ gone s.pending (s.pending.clearPendingDeliveriesForFriend friendNumber) }

end State

end Tim2Tox.PendingDelivery
