import Tim2Tox.IdentityEdits

set_option autoImplicit false

/-!
# Claims and indexed members stay consistent

The claims of the friends and the claimants of the digests are mirror images
within all their caps, and so are the indexed members and their digests.
-/
namespace Tim2Tox.Identity
open KeyedTables MirroredTables ReplayFilters LabelledRuns

/-- The claims within their caps. -/
structure Capped (claims : Mirror Bytes Bytes Time) : Prop where
  consistent : claims.Consistent
  perFriend : ∀ friend, Mirror.size (claims.items friend) ≤ kMaxClaimsPerFriend
  perDigest : ∀ digest, (claims.owners digest).length ≤ kMaxClaimantsPerDigest
  inAll : claims.count ≤ kMaxIdentityClaims

structure IdentityTables.Indexed (t : IdentityTables) : Prop where
  claims : Capped t.claims
  members : t.members.Consistent

variable {t : IdentityTables} {claims : Mirror Bytes Bytes Time}

theorem Capped.unlink (h : Capped claims) (friend digest : Bytes) :
    Capped (claims.unlink friend digest) where
  consistent := h.consistent.unlink friend digest
  perFriend := fun other =>
    Nat.le_trans (Mirror.size_unlink_le friend digest claims other) (h.perFriend other)
  perDigest := fun other =>
    Nat.le_trans (Mirror.owners_unlink_le friend digest claims other) (h.perDigest other)
  inAll := Nat.le_trans (Mirror.count_unlink_le friend digest claims) h.inAll

theorem Capped.unlinkAll (h : Capped claims) (friend : Bytes) :
    Capped (claims.unlinkAll friend) where
  consistent := h.consistent.unlinkAll friend
  perFriend := by
    intro other
    rw [Mirror.items_unlinkAll]
    split_ifs
    · exact Nat.zero_le _
    · exact h.perFriend other
  perDigest := fun other =>
    Nat.le_trans (Mirror.owners_unlinkAll_le friend claims other) (h.perDigest other)
  inAll := Nat.le_trans (Nat.sub_le _ _) h.inAll

theorem Capped.refresh (h : Capped claims) {friend digest : Bytes}
    (known : digest ∈ claims.items friend) (now : Time) :
    Capped (claims.refresh friend digest now) where
  consistent := h.consistent.refresh known now
  perFriend := by
    intro other
    rw [Mirror.items_refresh]
    split_ifs
    · rw [Mirror.size_insert, if_pos known]
      exact h.perFriend friend
    · exact h.perFriend other
  perDigest := h.perDigest
  inAll := h.inAll

theorem Capped.link (h : Capped claims) {friend digest : Bytes}
    (unknown : digest ∉ claims.items friend)
    (hfriend : Mirror.size (claims.items friend) < kMaxClaimsPerFriend)
    (hdigest : (claims.owners digest).length < kMaxClaimantsPerDigest)
    (hall : claims.count < kMaxIdentityClaims) (now : Time) :
    Capped (claims.link friend digest now) where
  consistent := h.consistent.link friend digest now
  perFriend := by
    intro other
    rw [Mirror.items_link, if_neg unknown]
    split_ifs
    · rw [Mirror.size_insert, if_neg unknown]
      exact hfriend
    · exact h.perFriend other
  perDigest := by
    intro other
    refine Nat.le_trans (Mirror.owners_link_le friend digest now claims other) ?_
    split_ifs with hother
    · rw [hother]
      exact hdigest
    · exact h.perDigest other
  inAll := by
    change (if digest ∈ claims.items friend then claims.count else claims.count + 1) ≤ _
    rw [if_neg unknown]
    exact hall

/-! ## Room for one more claim -/

/-- An eviction takes one claim from an owner that has any. -/
theorem evictOldestOf_spec (walk : Iteration) {owner : Bytes}
    (howner : 0 < Mirror.size (t.claims.items owner)) :
    ∃ oldest ∈ t.claims.items owner,
      t.evictOldestOf walk owner = t.eraseIdentityClaimLocked owner oldest := by
  obtain ⟨digest, hdigest⟩ := List.exists_mem_of_length_pos howner
  unfold IdentityTables.evictOldestOf
  cases holdest : (walk.order (t.claims.items owner).entries).argmin fun claim => claim.2 with
  | none =>
    rw [List.argmin_eq_none] at holdest
    obtain ⟨entry, hentry, -⟩ := List.mem_map.mp hdigest
    rw [← walk.mem_order, holdest] at hentry
    exact absurd hentry List.not_mem_nil
  | some oldest =>
    have hentry := walk.mem_order.mp (List.argmin_mem holdest)
    exact ⟨oldest.1, AList.mem_keys.mpr (List.mem_map_of_mem hentry), rfl⟩

/-- The heaviest owner has claims, and nobody has more. -/
theorem heaviest_spec (walk : Iteration) (h : t.claims.Consistent) (hcount : 0 < t.claims.count) :
    ∃ owner, t.heaviest walk = some owner ∧ 0 < Mirror.size (t.claims.items owner) ∧
      ∀ other, Mirror.size (t.claims.items other) ≤ Mirror.size (t.claims.items owner) := by
  have hitems : ∀ entry ∈ t.claims.held.entries, t.claims.items entry.1 = entry.2 := fun entry hentry =>
    content_of_lookup (lookup_of_mem_entries hentry)
  obtain ⟨some', hsome, hpositive⟩ : ∃ entry ∈ t.claims.held.entries, 0 < Mirror.size entry.2 := by
    by_contra hnone
    have hzero : weight Mirror.size t.claims.held = 0 := by
      refine List.sum_eq_zero fun n hn => ?_
      obtain ⟨entry, hentry, rfl⟩ := List.mem_map.mp hn
      by_contra hne
      exact hnone ⟨entry, hentry, Nat.pos_of_ne_zero hne⟩
    rw [h.counts, hzero] at hcount
    exact absurd hcount (Nat.lt_irrefl 0)
  unfold IdentityTables.heaviest
  cases hheaviest : ((walk.order t.claims.held.entries).filter fun entry =>
      decide (0 < Mirror.size entry.2)).argmax fun entry => Mirror.size entry.2 with
  | none =>
    rw [List.argmax_eq_none] at hheaviest
    have hmem := walk.mem_order.mpr hsome
    rw [List.filter_eq_nil_iff] at hheaviest
    exact absurd (decide_eq_true hpositive) (hheaviest _ hmem)
  | some entry =>
    have hentry := List.mem_filter.mp (List.argmax_mem hheaviest)
    have hheld := hitems entry (walk.mem_order.mp hentry.1)
    have hsize := of_decide_eq_true hentry.2
    refine ⟨entry.1, rfl, ?_, fun other => ?_⟩
    · rw [hheld]
      exact hsize
    · rw [hheld]
      cases hother : t.claims.held.lookup other with
      | none =>
        rw [show t.claims.items other = ∅ from content_of_none hother]
        exact Nat.zero_le _
      | some items =>
        rw [show t.claims.items other = items from content_of_lookup hother]
        by_cases hempty : 0 < Mirror.size items
        · refine List.le_of_mem_argmax (a := ⟨other, items⟩) (List.mem_filter.mpr ⟨?_, ?_⟩) hheaviest
          · exact walk.mem_order.mpr (mem_entries_of_lookup hother)
          · exact decide_eq_true hempty
        · omega

/-- What making room leaves: the caps, room for one claim of the friend, and
    other friends' claims untouched unless they had as many. -/
structure Roomy (friend : Bytes) (before after : Mirror Bytes Bytes Time) : Prop where
  capped : Capped after
  forFriend : Mirror.size (after.items friend) < kMaxClaimsPerFriend
  inAll : after.count < kMaxIdentityClaims
  fewer : ∀ other digest, digest ∈ after.items other → digest ∈ before.items other
  owners : ∀ digest, (after.owners digest).length ≤ (before.owners digest).length
  fair : ∀ other digest, other ≠ friend → digest ∈ before.items other →
    digest ∉ after.items other →
      Mirror.size (before.items friend) ≤ Mirror.size (before.items other)

theorem Roomy.unlink {friend owner oldest : Bytes} (h : Capped claims)
    (holdest : oldest ∈ claims.items owner)
    (hfriend : Mirror.size ((claims.unlink owner oldest).items friend) < kMaxClaimsPerFriend)
    (howner : owner ≠ friend → Mirror.size (claims.items friend) ≤ Mirror.size (claims.items owner)) :
    Roomy friend claims (claims.unlink owner oldest) where
  capped := h.unlink owner oldest
  forFriend := hfriend
  inAll := by
    have hcount := Mirror.count_unlink holdest
    have htotal := h.consistent.weight_items owner
    have hpositive : 0 < Mirror.size (claims.items owner) :=
      List.length_pos_of_mem (AList.mem_keys.mp holdest)
    have hinAll := h.inAll
    omega
  fewer := fun _ _ hd => Mirror.mem_items_unlink hd
  owners := Mirror.owners_unlink_le owner oldest claims
  fair := by
    intro other d hother hd hgone
    by_cases hsame : other = owner
    · rw [hsame] at hother ⊢
      exact howner hother
    · rw [Mirror.items_unlink, if_neg hsame] at hgone
      exact absurd hd hgone

theorem makeRoomForClaim_spec (walk : Iteration) (friend : Bytes) (h : Capped t.claims) :
    Roomy friend t.claims (t.makeRoomForClaim walk friend).claims := by
  have hfriendCap : 0 < kMaxClaimsPerFriend := by decide
  have hallCap : 0 < kMaxIdentityClaims := by decide
  unfold IdentityTables.makeRoomForClaim
  dsimp only
  by_cases hshare : kMaxClaimsPerFriend ≤ Mirror.size (t.claims.items friend)
  · -- the friend pays for itself, and there is room in all then
    rw [if_pos hshare]
    obtain ⟨oldest, holdest, hevict⟩ := evictOldestOf_spec walk (Nat.lt_of_lt_of_le hfriendCap hshare)
    have hroomy : Roomy friend t.claims (t.claims.unlink friend oldest) := by
      refine Roomy.unlink h holdest ?_ fun hne => absurd rfl hne
      have hsize := Mirror.size_unlink holdest
      have hcap := h.perFriend friend
      omega
    rw [hevict, if_neg]
    · exact hroomy
    · exact Nat.not_le_of_lt hroomy.inAll
  rw [if_neg hshare]
  have hroom := Nat.lt_of_not_le hshare
  by_cases hfull : kMaxIdentityClaims ≤ t.claims.count
  · -- the heaviest owner pays, and nobody has more than it
    rw [if_pos hfull]
    obtain ⟨owner, howner, hpositive, hheaviest⟩ :=
      heaviest_spec walk h.consistent (Nat.lt_of_lt_of_le hallCap hfull)
    rw [howner]
    dsimp only
    obtain ⟨oldest, holdest, hevict⟩ := evictOldestOf_spec walk hpositive
    rw [hevict]
    exact Roomy.unlink h holdest
      (Nat.lt_of_le_of_lt (Mirror.size_unlink_le owner oldest t.claims friend) hroom)
      fun _ => hheaviest friend
  · rw [if_neg hfull]
    exact ⟨h, hroom, Nat.lt_of_not_le hfull, fun _ _ hd => hd, fun _ => Nat.le_refl _,
      fun _ _ _ hd hgone => absurd hd hgone⟩

/-! ## Every edit keeps the indices -/

theorem Capped.claim (h : Capped t.claims) (walk : Iteration) {friend digest : Bytes}
    (unknown : digest ∉ t.claims.items friend)
    (room : (t.claims.owners digest).length < kMaxClaimantsPerDigest) (now : Time) :
    Capped ((t.makeRoomForClaim walk friend).claims.link friend digest now) := by
  have hroomy := makeRoomForClaim_spec walk friend h
  exact hroomy.capped.link (fun hmem => unknown (hroomy.fewer friend digest hmem)) hroomy.forFriend
    (Nat.lt_of_le_of_lt (hroomy.owners digest) room) hroomy.inAll now

theorem Edit.indexed {now : Time} {grounds : Grounds}
    {t t' : IdentityTables} (ht : t.Indexed) (h : Edit now grounds t t') : t'.Indexed := by
  cases h with
  | other untouched => exact ⟨untouched.claims ▸ ht.claims, untouched.members ▸ ht.members⟩
  | idle => exact ⟨ht.claims, ht.members⟩
  | meter sender charges => exact ⟨ht.claims, ht.members⟩
  | unlink friend digest => exact ⟨ht.claims.unlink friend digest, ht.members⟩
  | unlinkAll friend => exact ⟨ht.claims.unlinkAll friend, ht.members⟩
  | refresh friend digest known => exact ⟨ht.claims.refresh known now, ht.members⟩
  | claim walk friend digest unknown room hints =>
    refine ⟨ht.claims.claim walk unknown room now, ?_⟩
    change (t.makeRoomForClaim walk friend).members.Consistent
    rw [(makeRoomForClaim_frame walk friend t).members]
    exact ht.members
  | removeMember member => exact ⟨ht.claims, ht.members.remove member⟩
  | addMember member digest absent => exact ⟨ht.claims, ht.members.add absent digest⟩
  | drop test => exact ⟨ht.claims, ht.members⟩
  | register walk nonce candidate unproven fresh friendRoom memberRoom =>
    obtain hroom | ⟨oldest, hroom⟩ := roomForChallenge_cases walk t
    · rw [hroom]
      exact ⟨ht.claims, ht.members⟩
    · rw [hroom]
      exact ⟨ht.claims, ht.members⟩
  | dropProven test => exact ⟨ht.claims, ht.members⟩
  | eraseProven key => exact ⟨ht.claims, ht.members⟩
  | prove walk sender nonce friend arrived pending opened => exact ⟨ht.claims, ht.members⟩
  | expire => exact ⟨ht.claims, ht.members⟩
  | record key unseen answers => exact ⟨ht.claims, ht.members⟩

theorem indexed_start : ({} : IdentityTables).Indexed where
  claims := ⟨Mirror.consistent_empty, fun _ => Nat.zero_le _, fun _ => Nat.zero_le _, Nat.zero_le _⟩
  members := Inverse.consistent_empty

theorem indexed_step {crypto : Crypto} {m m' : Machine} {input : Input} (hm : m.state.tables.Indexed)
    (h : step crypto m input = some m') : m'.state.tables.Indexed :=
  (edits_step_any h).keep (fun _ _ ht hedit => hedit.indexed ht) hm

theorem indexed_run {crypto : Crypto} {inputs : List Input} {m : Machine}
    (hr : exec (step crypto) {} inputs = some m) : m.state.tables.Indexed :=
  invariant (fun _ _ _ hm h => indexed_step hm h) indexed_start hr

/-- The tables a friend's hint packet finds: swept, and the packet charged. -/
def Machine.hintTables (now : Time) (friend : Bytes) (m : Machine) : IdentityTables :=
  ((m.pruned now).state.tables.takeFriendBudgetLocked friend now .hintPackets
    kMaxHintPacketsPerFriend).2

theorem indexed_hintTables {m : Machine} (hm : m.state.tables.Indexed) (now : Time) (friend : Bytes) :
    (m.hintTables now friend).Indexed := by
  have hedits : Edits now Grounds.any m.state.tables (m.hintTables now friend) :=
    (edits_pruned m).trans (edits_takeFriendBudgetLocked friend now .hintPackets
      kMaxHintPacketsPerFriend)
  exact hedits.keep (fun _ _ ht hedit => hedit.indexed ht) hm

theorem indexed_learnDigests (ht : t.Indexed) (walk : Iteration) (friend : Bytes) (now : Time)
    (digests : List Bytes) : (t.learnDigests walk friend now digests).2.Indexed := by
  have hedits : Edits now Grounds.any t (t.learnDigests walk friend now digests).2 :=
    edits_learnDigests walk trivial digests t
  exact hedits.keep (fun _ _ ht hedit => hedit.indexed ht) ht

/-- One digest of a hint packet takes a claim of another friend only when that
    friend has at least as many. -/
theorem learnDigest_fair (ht : t.Indexed) (walk : Iteration) (friend : Bytes) (now : Time)
    (digest : Bytes) {other claimed : Bytes} (hother : other ≠ friend)
    (hclaimed : claimed ∈ t.claims.items other)
    (hgone : claimed ∉ (t.learnDigest walk friend now digest).2.claims.items other) :
    Mirror.size (t.claims.items friend) ≤ Mirror.size (t.claims.items other) := by
  unfold IdentityTables.learnDigest at hgone
  split_ifs at hgone with hknown hfull
  · refine absurd ?_ hgone
    change claimed ∈ (t.claims.refresh friend digest now).items other
    rw [Mirror.items_refresh, if_neg hother]
    exact hclaimed
  · exact absurd hclaimed hgone
  · have hframe := (untouched_takeBothBudgetsLocked friend now .newDigests kMaxNewDigestsPerFriend
      kMaxNewDigestsGlobal t).claims
    dsimp only at hgone hframe
    split_ifs at hgone
    · rw [hframe] at hgone
      exact absurd hclaimed hgone
    · have hroomy := makeRoomForClaim_spec walk friend (hframe ▸ ht.claims)
      rw [← hframe] at hclaimed ⊢
      refine hroomy.fair other claimed hother hclaimed fun hkept => hgone ?_
      change claimed ∈ Mirror.items (Mirror.link friend digest now _) other
      rw [Mirror.items_link, if_neg hother]
      exact hkept

/-- The claims of the friends and the claimants of the digests mirror each other
    and are counted, no empty container is kept, the caps hold, no digest of a
    hint packet evicts a claim of a friend with fewer claims, and the indexed
    members are the inverse of their slots, each once. -/
theorem identity_indices_consistent (crypto : Crypto) (inputs : List Input) (m : Machine)
    (hr : exec (step crypto) {} inputs = some m) :
    let claims := m.state.tables.claims
    let members := m.state.tables.members
    (∀ friend digest, digest ∈ claims.items friend ↔ friend ∈ claims.owners digest) ∧
    claims.count = weight Mirror.size claims.held ∧
    (Full ∅ claims.held ∧ Full [] claims.holders ∧ Full [] members.index) ∧
    (∀ friend, Mirror.size (claims.items friend) ≤ kMaxClaimsPerFriend) ∧
    (∀ digest, (claims.owners digest).Nodup ∧
      (claims.owners digest).length ≤ kMaxClaimantsPerDigest) ∧
    claims.count ≤ kMaxIdentityClaims ∧
    (∀ (walk : Iteration) (now : Time) (friend : Bytes) (before : List Bytes)
      (digest other claimed : Bytes),
      let t := ((m.hintTables now friend).learnDigests walk friend now before).2
      other ≠ friend → claimed ∈ t.claims.items other →
        claimed ∉ (t.learnDigest walk friend now digest).2.claims.items other →
          Mirror.size (t.claims.items friend) ≤ Mirror.size (t.claims.items other)) ∧
    ∀ member digest, (members.slots.lookup member = some digest ↔ member ∈ members.keysOf digest) ∧
      (members.keysOf digest).Nodup := by
  have h := indexed_run hr
  have hclaims := h.claims.consistent
  refine ⟨hclaims.mirrors, hclaims.counts, ⟨hclaims.heldFull, hclaims.holdersFull, h.members.full⟩,
    h.claims.perFriend, fun digest => ⟨hclaims.nodup digest, h.claims.perDigest digest⟩,
    h.claims.inAll, ?_, fun member digest => ⟨h.members.inverse member digest, h.members.nodup digest⟩⟩
  intro walk now friend before digest other claimed t hother hclaimed hgone
  exact learnDigest_fair (indexed_learnDigests (indexed_hintTables h now friend) walk friend now before)
    walk friend now digest hother hclaimed hgone

/-! ## A small network -/

/-- A key all bytes of which are the same. -/
def plainKey (byte : UInt8) : Bytes := List.replicate keySize byte

theorem length_plainKey (byte : UInt8) : (plainKey byte).length = keySize := List.length_replicate

/-- We are key 1, friend `n` is key `n`, and member `p` of every group has key `p`;
    in each group we are key 9 and the chat is key 8. -/
def plainTox : ToxView where
  selfKey := plainKey 1
  friendKey number := some (plainKey (UInt8.ofNat number))
  friendNumber key := key.head?.map UInt8.toNat
  chatId _ := some (plainKey 8)
  selfGroupKey _ := some (plainKey 9)
  groupByChatId _ := some 0
  peerKey _ peer := some (plainKey (UInt8.ofNat peer))
  selfKey_length := length_plainKey 1
  chatId_length := fun _ _ h => Option.some.inj h ▸ length_plainKey 8
  selfGroupKey_length := fun _ _ h => Option.some.inj h ▸ length_plainKey 9
  friendKey_length := fun number _ h => Option.some.inj h ▸ length_plainKey (UInt8.ofNat number)
  peerKey_length := fun _ peer _ h => Option.some.inj h ▸ length_plainKey (UInt8.ofNat peer)

/-- The digest is the member's key, and a box carries its two keys and the text openly. -/
def plainCrypto : Crypto where
  sha256 bytes := bytes.drop keySize
  encryptData publicKey self _ plain := some (self.take 8 ++ publicKey.take 8 ++ plain)
  decryptData publicKey self _ box :=
    if box.take 16 = publicKey.take 8 ++ self.take 8 then some (box.drop 16) else none

def plainOutcome (nonce : UInt8) : Outcome where
  tox := plainTox
  walk := Iteration.asStored
  nonce := List.replicate kIdentityNonceSize nonce
  boxNonce := List.replicate boxNonceSize nonce
  sent := true
  nonce_length := List.length_replicate
  boxNonce_length := List.length_replicate

def plainInput (now : Time) (event : Event) : Input := ⟨now, plainOutcome 0, event⟩

/-- Friend 2 hints at the digest of member 3. -/
def hintRun : List Input := [plainInput 1000 (.friendPacket 2 (kIdentityHints :: plainKey 3))]

def hinted : Machine := (exec (step plainCrypto) {} hintRun).getD {}

theorem hinted_indices_consistent :
    hinted.state.tables.claims.count = 1 ∧ hinted.state.tables.claims.count ≤ kMaxIdentityClaims := by
  have hrun : (exec (step plainCrypto) {} hintRun).isSome = true := by decide
  have hr : exec (step plainCrypto) {} hintRun = some hinted :=
    (Option.getD_of_ne_none (Option.isSome_iff_ne_none.mp hrun) {}).symm
  exact ⟨by decide, (identity_indices_consistent plainCrypto hintRun hinted hr).2.2.2.2.2.1⟩

end Tim2Tox.Identity
