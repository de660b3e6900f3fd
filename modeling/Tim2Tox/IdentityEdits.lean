import Tim2Tox.IdentityHandlers
import Mathlib.Logic.Relation

set_option autoImplicit false

/-!
# What a step does to the tables

Every step of the handlers is a sequence of a few kinds of edits, each with
the guard the source checks before it. What all edits keep, all steps keep.
-/
namespace Tim2Tox.Identity
open KeyedTables MirroredTables ReplayFilters Relation

/-- What edits rest on: the proofs verified, each of a sender for a friend's
    challenge and the time it came in, the challenges recorded, the senders a proof
    was charged to, and the friends that hint. -/
structure Grounds where
  proved : (sender : GroupMember) → (arrived : Time) → (nonce friend : Bytes) → Prop
  recorded : ChallengeKey → Prop
  charged : Bytes → Prop
  hinted : Bytes → Prop

/-- Tables that differ in budgets of friends, caches and counters at most. -/
structure Untouched (t t' : IdentityTables) : Prop where
  claims : t'.claims = t.claims
  members : t'.members = t.members
  proven : t'.memberKeyToFriend = t.memberKeyToFriend
  pending : t'.pendingIdentityChallenges = t.pendingIdentityChallenges
  answered : t'.answered = t.answered
  senders : t'.identityRateByGroupSender = t.identityRateByGroupSender
  lastPrune : t'.identityLastPrune = t.identityLastPrune

/-- One edit at time `now`. -/
inductive Edit (now : Time) (grounds : Grounds) : IdentityTables → IdentityTables → Prop
  | other {t t' : IdentityTables} (untouched : Untouched t t') : Edit now grounds t t'
  | idle (t : IdentityTables) :
      Edit now grounds t ({ t with identityLastPrune := now }.dropIdleWindows now)
  | meter (t : IdentityTables) (sender : Bytes)
      (charges : (t.takeGroupSenderProofBudgetLocked sender now).1 = true → grounds.charged sender) :
      Edit now grounds t (t.takeGroupSenderProofBudgetLocked sender now).2
  | unlink (t : IdentityTables) (friend digest : Bytes) :
      Edit now grounds t (t.eraseIdentityClaimLocked friend digest)
  | unlinkAll (t : IdentityTables) (friend : Bytes) :
      Edit now grounds t (t.dropFriendIdentityClaimsLocked friend)
  | refresh (t : IdentityTables) (friend digest : Bytes) (known : digest ∈ t.claims.items friend) :
      Edit now grounds t (t.refreshClaim friend digest now)
  | claim (t : IdentityTables) (walk : Iteration) (friend digest : Bytes)
      (unknown : digest ∉ t.claims.items friend)
      (room : (t.claims.owners digest).length < kMaxClaimantsPerDigest)
      (hints : grounds.hinted friend) :
      Edit now grounds t ((t.makeRoomForClaim walk friend).addClaim friend digest now)
  | removeMember (t : IdentityTables) (member : GroupMember) :
      Edit now grounds t (t.eraseIndexedGroupMemberLocked member)
  | addMember (t : IdentityTables) (member : GroupMember) (digest : Bytes)
      (absent : member ∉ t.members.slots) :
      Edit now grounds t (t.addIndexedMember member digest)
  | drop (t : IdentityTables) (test : PendingIdentityChallenge → Bool) :
      Edit now grounds t (t.dropChallenges test)
  | register (t : IdentityTables) (walk : Iteration) (nonce : Bytes) (candidate : Candidate)
      (unproven : candidate.2.2 ∉ t.memberKeyToFriend)
      (fresh : t.countChallenges (candidate.pending now) = 0)
      (friendRoom :
        t.countChallenges (challengesOfFriend candidate.1 now) < kMaxPendingChallengesPerFriend)
      (memberRoom : t.countChallenges (challengesOfMember candidate.2 now) < kMaxClaimantsPerDigest) :
      Edit now grounds t ((t.roomForChallenge walk).addChallenge nonce (candidate.challenge now))
  | dropProven (t : IdentityTables) (test : ProvenGroupMember → Bool) :
      Edit now grounds t (t.dropProven test)
  | eraseProven (t : IdentityTables) (key : Bytes) : Edit now grounds t (t.eraseProven key)
  | prove (t : IdentityTables) (walk : Iteration) (sender : GroupMember) (nonce friend : Bytes)
      (arrived : Time) (pending : (nonce, friend) ∈ t.proofCandidates walk sender arrived)
      (opened : grounds.proved sender arrived nonce friend) :
      Edit now grounds t (t.addProven sender friend arrived)
  | expire (t : IdentityTables) : Edit now grounds t (t.expireAnswered now)
  | record (t : IdentityTables) (key : ChallengeKey) (unseen : key ∉ t.answered.seen)
      (answers : grounds.recorded key) :
      Edit now grounds t (t.pushAnswered key now)

abbrev Edits (now : Time) (grounds : Grounds) : IdentityTables → IdentityTables → Prop :=
  ReflTransGen (Edit now grounds)

variable {now : Time} {grounds : Grounds} {t : IdentityTables}

theorem Edit.edits {t' : IdentityTables} (h : Edit now grounds t t') : Edits now grounds t t' :=
  ReflTransGen.single h

/-- What every edit keeps holds after any number of them. -/
theorem Edits.keep {t' : IdentityTables} {I : IdentityTables → Prop} (h : Edits now grounds t t')
    (hedit : ∀ u u', I u → Edit now grounds u u' → I u') (ht : I t) : I t' := by
  induction h with
  | refl => exact ht
  | tail _ hlast ih => exact hedit _ _ ih hlast

theorem edits_foldl {α : Type} {change : IdentityTables → α → IdentityTables}
    (hchange : ∀ t a, Edits now grounds t (change t a)) (list : List α) :
    ∀ t, Edits now grounds t (list.foldl change t) := by
  induction list with
  | nil => exact fun t => ReflTransGen.refl
  | cons a list ih => exact fun t => (hchange t a).trans (ih _)

theorem edits_other {t' : IdentityTables} (h : Untouched t t') : Edits now grounds t t' :=
  ReflTransGen.single (.other h)

/-! ## Friends -/

theorem edits_noteFriendOffline (number : FriendNumber) (friend : Option Bytes) :
    Edits now grounds t (t.noteFriendOffline number friend) := by
  have hother : Edits now grounds t
      { t with onlineIdentityFriends := t.onlineIdentityFriends.erase number } :=
    edits_other ⟨rfl, rfl, rfl, rfl, rfl, rfl, rfl⟩
  cases friend with
  | none => exact hother
  | some friend =>
    exact (hother.tail (.unlinkAll _ friend)).tail
      (.drop _ fun challenge => decide (challenge.friend = friend))

theorem edits_purgeFriendIdentityState (number : FriendNumber) (friend : Bytes) :
    Edits now grounds t (t.purgeFriendIdentityState number friend) := by
  have hother : Edits now grounds t
      { t with onlineIdentityFriends := t.onlineIdentityFriends.erase number } :=
    edits_other ⟨rfl, rfl, rfl, rfl, rfl, rfl, rfl⟩
  unfold IdentityTables.purgeFriendIdentityState
  split_ifs
  · exact hother
  · have hdropped := (hother.tail (.unlinkAll _ friend)).tail
      (.drop _ fun challenge => decide (challenge.friend = friend))
    have hproven := hdropped.tail (.dropProven _ fun proven => decide (proven.friend = friend))
    exact hproven.trans (edits_other ⟨rfl, rfl, rfl, rfl, rfl, rfl, rfl⟩)

/-! ## The sweep and the budgets -/

theorem edits_eraseClaims (claims : List (Bytes × Bytes)) : Edits now grounds t (t.eraseClaims claims) :=
  edits_foldl (fun t claim => (Edit.unlink t claim.1 claim.2).edits) claims t

theorem edits_dropUnheldGroups : Edits now grounds t t.dropUnheldGroups :=
  (Edit.dropProven t _).edits

theorem eraseClaims_eq (claims : List (Bytes × Bytes)) : ∀ t : IdentityTables,
    t.eraseClaims claims = { t with
      claims := claims.foldl (fun mirror claim => mirror.unlink claim.1 claim.2) t.claims } := by
  induction claims with
  | nil => exact fun t => rfl
  | cons claim claims ih => exact fun t => ih (t.eraseIdentityClaimLocked claim.1 claim.2)

/-- The sweep, its windows first. -/
theorem sweep_eq (now : Time) (t : IdentityTables) : t.sweep now =
    (((({ t with identityLastPrune := now }.dropIdleWindows now).eraseClaims
      (t.expiredClaims now)).dropChallenges fun challenge => !challenge.unexpired now).expireAnswered
        now).dropUnheldGroups := by
  have hexpired : IdentityTables.expiredClaims now { t with identityLastPrune := now } =
      t.expiredClaims now := rfl
  unfold IdentityTables.sweep
  dsimp only
  rw [hexpired, eraseClaims_eq, eraseClaims_eq]
  rfl

theorem edits_sweep : Edits now grounds t (t.sweep now) := by
  have hidle : Edits now grounds t ({ t with identityLastPrune := now }.dropIdleWindows now) :=
    (Edit.idle t).edits
  have hclaims := hidle.trans (edits_eraseClaims (t.expiredClaims now))
  have hanswered := (hclaims.tail (.drop _ fun challenge => !challenge.unexpired now)).tail (.expire _)
  rw [sweep_eq]
  exact hanswered.trans edits_dropUnheldGroups

theorem edits_pruneIdentityStateLocked (s : IdentityState) (forcePrune : Bool) :
    Edits now grounds s.tables (s.pruneIdentityStateLocked now forcePrune).tables := by
  unfold IdentityState.pruneIdentityStateLocked
  split_ifs
  · exact ReflTransGen.refl
  · exact edits_sweep

theorem edits_takeFriendBudgetLocked (friend : Bytes) (at' : Time) (counter : RateCounter) (limit : ℕ) :
    Edits now grounds t (t.takeFriendBudgetLocked friend at' counter limit).2 :=
  edits_other ⟨rfl, rfl, rfl, rfl, rfl, rfl, rfl⟩

theorem edits_takeGlobalBudgetLocked (at' : Time) (counter : RateCounter) (limit : ℕ) :
    Edits now grounds t (t.takeGlobalBudgetLocked at' counter limit).2 :=
  edits_other ⟨rfl, rfl, rfl, rfl, rfl, rfl, rfl⟩

theorem untouched_takeBothBudgetsLocked (friend : Bytes) (at' : Time) (counter : RateCounter)
    (perFriend inAll : ℕ) (t : IdentityTables) :
    Untouched t (t.takeBothBudgetsLocked friend at' counter perFriend inAll).2 := by
  unfold IdentityTables.takeBothBudgetsLocked
  dsimp only
  split_ifs
  · exact ⟨rfl, rfl, rfl, rfl, rfl, rfl, rfl⟩
  · exact ⟨rfl, rfl, rfl, rfl, rfl, rfl, rfl⟩

theorem edits_takeBothBudgetsLocked (friend : Bytes) (at' : Time) (counter : RateCounter)
    (perFriend inAll : ℕ) :
    Edits now grounds t (t.takeBothBudgetsLocked friend at' counter perFriend inAll).2 :=
  edits_other (untouched_takeBothBudgetsLocked friend at' counter perFriend inAll t)

/-! ## Hints and indexed members -/

/-- Tables that differ in the claims at most. -/
structure SameButClaims (t u : IdentityTables) : Prop where
  members : u.members = t.members
  proven : u.memberKeyToFriend = t.memberKeyToFriend
  pending : u.pendingIdentityChallenges = t.pendingIdentityChallenges
  answered : u.answered = t.answered
  senders : u.identityRateByGroupSender = t.identityRateByGroupSender
  lastPrune : u.identityLastPrune = t.identityLastPrune

theorem evictOldestOf_frame (walk : Iteration) (owner : Bytes) (t : IdentityTables) :
    SameButClaims t (t.evictOldestOf walk owner) := by
  unfold IdentityTables.evictOldestOf
  split <;> exact ⟨rfl, rfl, rfl, rfl, rfl, rfl⟩

theorem SameButClaims.trans {t u v : IdentityTables} (h : SameButClaims t u) (h' : SameButClaims u v) :
    SameButClaims t v where
  members := h'.members.trans h.members
  proven := h'.proven.trans h.proven
  pending := h'.pending.trans h.pending
  answered := h'.answered.trans h.answered
  senders := h'.senders.trans h.senders
  lastPrune := h'.lastPrune.trans h.lastPrune

theorem makeRoomForClaim_frame (walk : Iteration) (friend : Bytes) (t : IdentityTables) :
    SameButClaims t (t.makeRoomForClaim walk friend) := by
  have hshare : SameButClaims t (if kMaxClaimsPerFriend ≤ Mirror.size (t.claims.items friend) then
      t.evictOldestOf walk friend else t) := by
    split_ifs
    · exact evictOldestOf_frame walk friend t
    · exact ⟨rfl, rfl, rfl, rfl, rfl, rfl⟩
  unfold IdentityTables.makeRoomForClaim
  dsimp only
  generalize (if kMaxClaimsPerFriend ≤ Mirror.size (t.claims.items friend) then
    t.evictOldestOf walk friend else t) = u at hshare ⊢
  by_cases hfull : kMaxIdentityClaims ≤ u.claims.count
  · rw [if_pos hfull]
    split
    · exact hshare
    · exact hshare.trans (evictOldestOf_frame walk _ u)
  · rw [if_neg hfull]
    exact hshare

theorem edits_learnDigest (walk : Iteration) {friend : Bytes} (hhints : grounds.hinted friend)
    (digest : Bytes) : Edits now grounds t (t.learnDigest walk friend now digest).2 := by
  unfold IdentityTables.learnDigest
  by_cases hknown : digest ∈ t.claims.items friend
  · rw [if_pos hknown]
    exact (Edit.refresh t friend digest hknown).edits
  rw [if_neg hknown]
  by_cases hfull : kMaxClaimantsPerDigest ≤ (t.claims.owners digest).length
  · rw [if_pos hfull]
  rw [if_neg hfull]
  have hcharged : Edits now grounds t (t.takeBothBudgetsLocked friend now .newDigests
      kMaxNewDigestsPerFriend kMaxNewDigestsGlobal).2 :=
    edits_takeBothBudgetsLocked friend now .newDigests kMaxNewDigestsPerFriend kMaxNewDigestsGlobal
  have hframe := (untouched_takeBothBudgetsLocked friend now .newDigests kMaxNewDigestsPerFriend
    kMaxNewDigestsGlobal t).claims
  dsimp only
  split_ifs
  · exact hcharged
  · refine hcharged.tail (.claim _ walk friend digest ?_ ?_ hhints)
    · rw [hframe]
      exact hknown
    · rw [hframe]
      exact Nat.lt_of_not_le hfull

theorem edits_learnDigests (walk : Iteration) {friend : Bytes} (hhints : grounds.hinted friend)
    (digests : List Bytes) : ∀ t : IdentityTables, Edits now grounds t (t.learnDigests walk friend now digests).2 := by
  induction digests with
  | nil => exact fun t => ReflTransGen.refl
  | cons digest digests ih =>
    intro t
    have hlearned : Edits now grounds t (t.learnDigest walk friend now digest).2 :=
      edits_learnDigest walk hhints digest
    unfold IdentityTables.learnDigests
    dsimp only
    split
    · exact hlearned
    · exact hlearned.trans (ih _)
    · exact hlearned.trans (ih _)
    · exact hlearned.trans (ih _)

theorem edits_takeHints (walk : Iteration) {friend : Bytes} (hhints : grounds.hinted friend)
    (body : Bytes) : Edits now grounds t (t.takeHints walk friend now body).2 := by
  have hcharged : Edits now grounds t
      (t.takeFriendBudgetLocked friend now .hintPackets kMaxHintPacketsPerFriend).2 :=
    edits_takeFriendBudgetLocked friend now .hintPackets kMaxHintPacketsPerFriend
  unfold IdentityTables.takeHints
  dsimp only
  split_ifs
  · exact hcharged.trans (edits_learnDigests walk hhints _ _)
  · exact hcharged

theorem edits_syncDropped : Edits now grounds t t.syncDropped :=
  edits_foldl (fun t member => (Edit.removeMember t member).edits) _ t

theorem edits_indexMember (computed : GroupMember × Bytes) :
    Edits now grounds t (t.indexMember computed) := by
  unfold IdentityTables.indexMember
  split_ifs with h
  · exact (Edit.addMember t _ _ (of_decide_eq_true (Bool.and_eq_true_iff.mp h).2)).edits
  · exact ReflTransGen.refl

theorem edits_syncAdded (computed : List (GroupMember × Bytes)) :
    Edits now grounds t (t.syncAdded computed) :=
  edits_foldl (fun _ computed => edits_indexMember computed) computed t

theorem edits_indexJoined (member : GroupMember) (digest : Bytes) :
    Edits now grounds t (t.indexJoined member digest) := by
  unfold IdentityTables.indexJoined
  dsimp only
  have hremoved : Edits now grounds t (t.eraseIndexedGroupMemberLocked member) :=
    (Edit.removeMember t member).edits
  split_ifs
  · exact ReflTransGen.refl
  · refine hremoved.tail (.addMember _ member digest ?_)
    change member ∉ (t.members.remove member).slots
    rw [← AList.lookup_eq_none, Inverse.slots_remove, if_pos rfl]
  · exact hremoved

/-! ## Challenges and proofs -/

theorem edits_recordAnswer {key : ChallengeKey} (hrecorded : grounds.recorded key) :
    Edits now grounds t (t.recordAnswer key now).2 := by
  have hcharged : Edits now grounds t (t.takeBothBudgetsLocked key.1 now .proofsSent
      kMaxProofsPerFriend kMaxProofsGlobal).2 :=
    edits_takeBothBudgetsLocked key.1 now .proofsSent kMaxProofsPerFriend kMaxProofsGlobal
  have hframe := (untouched_takeBothBudgetsLocked key.1 now .proofsSent kMaxProofsPerFriend
    kMaxProofsGlobal t).answered
  unfold IdentityTables.recordAnswer
  dsimp only
  split_ifs with hseen
  · exact ReflTransGen.refl
  · refine hcharged.tail (.record _ key ?_ hrecorded)
    rw [hframe]
    exact hseen
  · exact hcharged

theorem edits_arrivedProof {sender : GroupMember}
    (hcharged : (t.arrivedProof sender now).1 = true → grounds.charged sender.2) :
    Edits now grounds t (t.arrivedProof sender now).2 := by
  unfold IdentityTables.arrivedProof at hcharged ⊢
  dsimp only at hcharged ⊢
  split_ifs at hcharged ⊢ with hpending htaken
  · exact edits_other ⟨rfl, rfl, rfl, rfl, rfl, rfl, rfl⟩
  · exact (Edit.meter t sender.2 fun _ => hcharged rfl).edits
  · have hmeter : Edits now grounds t (t.takeGroupSenderProofBudgetLocked sender.2 now).2 :=
      (Edit.meter t sender.2 fun h => absurd h htaken).edits
    exact hmeter.trans (edits_other ⟨rfl, rfl, rfl, rfl, rfl, rfl, rfl⟩)

theorem evictOldestProven_cases (walk : Iteration) (t : IdentityTables) :
    t.evictOldestProven walk = t ∨ ∃ key, t.evictOldestProven walk = t.eraseProven key := by
  unfold IdentityTables.evictOldestProven
  split
  · exact .inl rfl
  · exact .inr ⟨_, rfl⟩

theorem edits_acceptProof (walk : Iteration) (sender : GroupMember) {nonce friend : Bytes}
    {arrived : Time} (hpending : (nonce, friend) ∈ t.proofCandidates walk sender arrived)
    (hproved : grounds.proved sender arrived nonce friend) :
    Edits now grounds t (t.acceptProof walk sender friend arrived) := by
  have hcounted : Edits now grounds t
      { t with diag := { t.diag with proofsAccepted := t.diag.proofsAccepted + 1 } } :=
    edits_other ⟨rfl, rfl, rfl, rfl, rfl, rfl, rfl⟩
  unfold IdentityTables.acceptProof
  dsimp only
  split_ifs
  · obtain hsame | ⟨key, hevicted⟩ := evictOldestProven_cases walk
      { t with diag := { t.diag with proofsAccepted := t.diag.proofsAccepted + 1 } }
    · rw [hsame]
      exact (hcounted.tail (.prove _ walk sender nonce friend arrived hpending hproved)).tail
        (.drop _ fun challenge => challenge.about sender)
    · rw [hevicted]
      exact ((hcounted.tail (.eraseProven _ key)).tail
        (.prove _ walk sender nonce friend arrived hpending hproved)).tail
          (.drop _ fun challenge => challenge.about sender)
  · exact (hcounted.tail (.prove _ walk sender nonce friend arrived hpending hproved)).tail
      (.drop _ fun challenge => challenge.about sender)

theorem edits_verifyProof (crypto : Crypto) (walk : Iteration) (self chat selfGroupKey : Bytes)
    (sender : GroupMember) (data : Bytes) (arrived : Time)
    (hproved : ∀ nonce friend,
      proves crypto self chat selfGroupKey sender.2 data nonce friend = true →
        grounds.proved sender arrived nonce friend) :
    Edits now grounds t (t.verifyProof crypto walk self chat selfGroupKey sender data arrived).2 := by
  have hstale : Edits now grounds t (t.dropStaleChallengesForMemberLocked sender
      (groupIdentityDigest crypto chat sender.2)) := (Edit.drop t _).edits
  unfold IdentityTables.verifyProof
  dsimp only
  generalize t.dropStaleChallengesForMemberLocked sender
    (groupIdentityDigest crypto chat sender.2) = u at hstale ⊢
  split_ifs
  · exact hstale.trans (edits_other ⟨rfl, rfl, rfl, rfl, rfl, rfl, rfl⟩)
  · exact hstale.trans (edits_other ⟨rfl, rfl, rfl, rfl, rfl, rfl, rfl⟩)
  · split
    · exact hstale.trans (edits_other ⟨rfl, rfl, rfl, rfl, rfl, rfl, rfl⟩)
    · rename_i candidate hfound
      have hcharged : Edits now grounds u
          (u.takeGlobalBudgetLocked arrived .proofVerifies kMaxProofVerifiesGlobal).2 :=
        edits_takeGlobalBudgetLocked arrived _ _
      have hproves := List.find?_some (p := fun candidate : Bytes × Bytes =>
        proves crypto self chat selfGroupKey sender.2 data candidate.1 candidate.2) hfound
      exact (hstale.trans hcharged).trans (edits_acceptProof walk sender
        (List.mem_of_find?_eq_some hfound) (hproved _ _ hproves))

theorem edits_forgetMember (member : GroupMember) (selfDisconnected : Bool) :
    Edits now grounds t (t.forgetMember member selfDisconnected) := by
  have hremoved : Edits now grounds t (t.eraseIndexedGroupMemberLocked member) :=
    (Edit.removeMember t member).edits
  have hdropped := hremoved.tail (.drop _ fun challenge => challenge.about member)
  unfold IdentityTables.forgetMember
  dsimp only
  split_ifs
  · exact hdropped
  · exact hdropped.tail (.eraseProven _ member.2)

theorem edits_registerChallenge (walk : Iteration) (nonce : Bytes) (candidate : Candidate) :
    Edits now grounds t (t.registerChallenge walk now nonce candidate).2 := by
  unfold IdentityTables.registerChallenge
  split_ifs with hproven hpending hfriend hmember
  · exact ReflTransGen.refl
  · exact ReflTransGen.refl
  · exact ReflTransGen.refl
  · exact ReflTransGen.refl
  · exact (Edit.register t walk nonce candidate hproven (Nat.eq_zero_of_not_pos hpending)
      (Nat.lt_of_not_le hfriend) (Nat.lt_of_not_le hmember)).edits

theorem evictOldestChallenge_cases (walk : Iteration) (t : IdentityTables) :
    t.evictOldestChallenge walk = t ∨ ∃ nonce, t.evictOldestChallenge walk =
      { t with pendingIdentityChallenges := t.pendingIdentityChallenges.erase nonce } := by
  unfold IdentityTables.evictOldestChallenge
  split
  · exact .inl rfl
  · exact .inr ⟨_, rfl⟩

/-- Making room takes at most one challenge away. -/
theorem roomForChallenge_cases (walk : Iteration) (t : IdentityTables) :
    t.roomForChallenge walk = t ∨ ∃ nonce, t.roomForChallenge walk =
      { t with pendingIdentityChallenges := t.pendingIdentityChallenges.erase nonce } := by
  unfold IdentityTables.roomForChallenge
  split_ifs
  · exact evictOldestChallenge_cases walk t
  · exact .inl rfl

/-! ## Peers -/

theorem edits_erasePeerIdCacheEntry (member : GroupMember) :
    Edits now grounds t (t.erasePeerIdCacheEntry member) := by
  unfold IdentityTables.erasePeerIdCacheEntry
  split
  · exact ReflTransGen.refl
  · exact edits_other ⟨rfl, rfl, rfl, rfl, rfl, rfl, rfl⟩

theorem edits_resolveGroupPeerIdForKey (tox : ToxView) (member : GroupMember) :
    Edits now grounds t (t.resolveGroupPeerIdForKey tox member).2 := by
  unfold IdentityTables.resolveGroupPeerIdForKey
  split
  · exact ReflTransGen.refl
  · split_ifs
    · exact ReflTransGen.refl
    · exact edits_erasePeerIdCacheEntry member

theorem edits_uncachePeer (walk : Iteration) (group : GroupNumber) (peer : PeerNumber) :
    Edits now grounds t (t.uncachePeer walk group peer).2 := by
  unfold IdentityTables.uncachePeer
  split
  · exact ReflTransGen.refl
  · exact edits_other ⟨rfl, rfl, rfl, rfl, rfl, rfl, rfl⟩

/-! ## Steps -/

/-- The proof the node verifies in this section names the friend's challenge. -/
def Machine.verifies (crypto : Crypto) (m : Machine) (outcome : Outcome) (sender : GroupMember)
    (arrived : Time) (nonce friend : Bytes) : Prop :=
  ∃ data chat selfGroupKey, m.task = .verify sender data arrived ∧
    outcome.tox.chatId sender.1 = some chat ∧
    outcome.tox.selfGroupKey sender.1 = some selfGroupKey ∧
    proves crypto outcome.tox.selfKey chat selfGroupKey sender.2 data nonce friend = true

/-- What the handler of a proof packet finds when it meters the sender. -/
def Machine.proofTables (now : Time) (data : Bytes) (m : Machine) : IdentityTables :=
  (({ m with state := { m.state with tables := m.state.tables.noteProof data } } : Machine).pruned
    now).state.tables

/-- What happens in a step is among the grounds. -/
structure Machine.Grants (crypto : Crypto) (m : Machine) (outcome : Outcome) (now : Time)
    (event : Event) (grounds : Grounds) : Prop where
  proved : ∀ sender arrived nonce friend, m.verifies crypto outcome sender arrived nonce friend →
    grounds.proved sender arrived nonce friend
  recorded : ∀ number data, event = .friendPacket number data → ∀ key, grounds.recorded key
  hinted : ∀ number data friend, event = .friendPacket number data →
    outcome.tox.friendKey number = some friend → grounds.hinted friend
  charged : ∀ group peer data sender, event = .proofPacket group peer data →
    outcome.tox.peerKey group peer = some sender → data.length = kIdentityProofPacketSize →
      ((m.proofTables now data).arrivedProof (group, sender) now).1 = true → grounds.charged sender

/-- The grounds that ask for nothing. -/
def Grounds.any : Grounds := ⟨fun _ _ _ _ => True, fun _ => True, fun _ => True, fun _ => True⟩

theorem Machine.grants_any (crypto : Crypto) (m : Machine) (outcome : Outcome) (now : Time)
    (event : Event) : m.Grants crypto outcome now event Grounds.any where
  proved := fun _ _ _ _ _ => trivial
  recorded := fun _ _ _ _ => trivial
  hinted := fun _ _ _ _ _ => trivial
  charged := fun _ _ _ _ _ _ _ _ => trivial

theorem edits_pruned (m : Machine) : Edits now grounds m.state.tables (m.pruned now).state.tables :=
  edits_pruneIdentityStateLocked m.state false

theorem edits_proofTables (m : Machine) (data : Bytes) :
    Edits now grounds m.state.tables (m.proofTables now data) := by
  have hnoted : Edits now grounds m.state.tables (m.state.tables.noteProof data) :=
    edits_other ⟨rfl, rfl, rfl, rfl, rfl, rfl, rfl⟩
  exact hnoted.trans (edits_pruned { m with
    state := { m.state with tables := m.state.tables.noteProof data } })

theorem edits_handleGroupIdentityAnnouncement (outcome : Outcome) (number : FriendNumber)
    (data : Bytes) (m : Machine) (hrecorded : ∀ key, grounds.recorded key)
    (hhinted : ∀ friend, outcome.tox.friendKey number = some friend → grounds.hinted friend) :
    Edits now grounds m.state.tables
      (m.handleGroupIdentityAnnouncement outcome now number data).state.tables := by
  have hpruned : Edits now grounds m.state.tables (m.pruned now).state.tables := edits_pruned m
  unfold Machine.handleGroupIdentityAnnouncement
  split
  · rename_i friend subtype body hfriend
    dsimp only
    have hrecord := hpruned.trans (edits_recordAnswer
      (hrecorded (friend, slice 0 keySize body, slice 64 kIdentityNonceSize body)))
    have hhints := hpruned.trans (edits_takeHints outcome.walk (hhinted friend hfriend) body)
    split_ifs <;> first | exact ReflTransGen.refl | exact hrecord | exact hhints
  · exact ReflTransGen.refl

theorem edits_answerChallenge (crypto : Crypto) (outcome : Outcome) (friend data : Bytes)
    (recorded : Time) (m : Machine) :
    Edits now grounds m.state.tables
      (m.answerChallenge crypto outcome friend data recorded).state.tables := by
  unfold Machine.answerChallenge
  dsimp only
  split
  · exact ReflTransGen.refl
  · rename_i group _
    have hresolved : Edits now grounds m.state.tables (m.state.tables.resolveGroupPeerIdForKey
        outcome.tox (group, slice keySize keySize data)).2 :=
      edits_resolveGroupPeerIdForKey outcome.tox (group, slice keySize keySize data)
    split
    · split
      · exact hresolved
      · exact hresolved.trans (edits_other ⟨rfl, rfl, rfl, rfl, rfl, rfl, rfl⟩)
    · exact hresolved

theorem edits_issueChallenge (outcome : Outcome) (candidates : List Candidate)
    (prefixes : AList (fun _ : GroupNumber => Option (Bytes × Bytes)))
    (sends : List (FriendNumber × Bytes)) (m : Machine) :
    Edits now grounds m.state.tables
      (m.issueChallenge outcome now candidates prefixes sends).state.tables := by
  unfold Machine.issueChallenge
  split
  · exact ReflTransGen.refl
  · dsimp only
    split
    · split_ifs
      · exact edits_registerChallenge outcome.walk outcome.nonce _
      · exact ReflTransGen.refl
    · exact ReflTransGen.refl

theorem edits_handleGroupIdentityProof (outcome : Outcome) (group : GroupNumber) (peer : PeerNumber)
    (data : Bytes) (m : Machine)
    (hcharged : ∀ sender, outcome.tox.peerKey group peer = some sender →
      data.length = kIdentityProofPacketSize →
      ((m.proofTables now data).arrivedProof (group, sender) now).1 = true → grounds.charged sender) :
    Edits now grounds m.state.tables
      (m.handleGroupIdentityProof outcome now group peer data).state.tables := by
  unfold Machine.handleGroupIdentityProof
  split
  · rename_i sender hsender
    split_ifs with hlength
    · have hnoted : Edits now grounds m.state.tables (m.proofTables now data) := edits_proofTables m data
      exact hnoted.trans (edits_arrivedProof (hcharged sender hsender hlength))
    · exact ReflTransGen.refl
  · exact ReflTransGen.refl

theorem edits_verify (crypto : Crypto) (outcome : Outcome) {sender : GroupMember} {data : Bytes}
    {arrived : Time} (m : Machine)
    (hproved : ∀ sender arrived nonce friend, m.verifies crypto outcome sender arrived nonce friend →
      grounds.proved sender arrived nonce friend)
    (htask : m.task = .verify sender data arrived) :
    Edits now grounds m.state.tables
      (m.verifyProof crypto outcome sender data arrived).state.tables := by
  unfold Machine.verifyProof
  dsimp only
  split
  · rename_i chat selfGroupKey hchat hself
    exact edits_verifyProof crypto outcome.walk outcome.tox.selfKey chat selfGroupKey sender data arrived
      fun nonce friend hproves =>
        hproved sender arrived nonce friend ⟨data, chat, selfGroupKey, htask, hchat, hself, hproves⟩
  · exact ReflTransGen.refl

theorem edits_handleGroupReceipt (outcome : Outcome) (group : GroupNumber) (peer : PeerNumber)
    (receipt : StrictGroupReceipt) (m : Machine) :
    Edits now grounds m.state.tables
      (m.handleGroupReceipt outcome now group peer receipt).state.tables := by
  unfold Machine.handleGroupReceipt
  split
  · split_ifs
    · exact edits_pruned
        { m with state := { m.state with receipts := m.state.receipts.countReceived } }
    · exact ReflTransGen.refl
  · exact ReflTransGen.refl

theorem edits_resume {crypto : Crypto} {outcome : Outcome} {m m' : Machine}
    (hproved : ∀ sender arrived nonce friend, m.verifies crypto outcome sender arrived nonce friend →
      grounds.proved sender arrived nonce friend)
    (h : m.resume crypto outcome now = some m') :
    Edits now grounds m.state.tables m'.state.tables := by
  unfold Machine.resume at h
  dsimp only at h
  split at h
  · cases h
  · split at h
    · cases h
      exact edits_syncDropped
    · cases h
      exact edits_syncDropped
  · cases h
    exact edits_syncAdded _
  · cases h
    exact ReflTransGen.refl
  · split at h
    · cases h
      exact ReflTransGen.refl
    · cases h
      exact edits_indexJoined _ _
  · cases h
    exact edits_issueChallenge _ _ _ _ _
  · cases h
    exact edits_answerChallenge _ _ _ _ _ _
  · rename_i sender data arrived htask
    cases h
    exact edits_verify crypto outcome m hproved htask
  · cases h
    exact edits_forgetMember _ _

theorem edits_handle {crypto : Crypto} {outcome : Outcome} {m m' : Machine} {event : Event}
    (hgrants : m.Grants crypto outcome now event grounds)
    (h : m.handle crypto outcome now event = some m') :
    Edits now grounds m.state.tables m'.state.tables := by
  cases event with
  | friendOffline number =>
    cases h
    exact edits_noteFriendOffline number _
  | friendOnline number =>
    cases h
    exact edits_other ⟨rfl, rfl, rfl, rfl, rfl, rfl, rfl⟩
  | friendPacket number data =>
    cases h
    exact edits_handleGroupIdentityAnnouncement outcome number data m 
      (hgrants.recorded number data rfl) fun friend => hgrants.hinted number data friend rfl
  | peerJoin group peer =>
    simp only [Machine.handle] at h
    split at h
    · cases h
      exact edits_other ⟨rfl, rfl, rfl, rfl, rfl, rfl, rfl⟩
    · cases h
      exact ReflTransGen.refl
  | peerMessage group peer =>
    simp only [Machine.handle] at h
    split at h
    · cases h
      exact edits_other ⟨rfl, rfl, rfl, rfl, rfl, rfl, rfl⟩
    · cases h
      exact ReflTransGen.refl
  | peerExit group peer selfDisconnected =>
    simp only [Machine.handle] at h
    split_ifs at h
    · split at h
      · cases h
        exact edits_uncachePeer outcome.walk group peer
      · cases h
        exact edits_uncachePeer outcome.walk group peer
    · cases h
      exact ReflTransGen.refl
  | proofPacket group peer data =>
    cases h
    exact edits_handleGroupIdentityProof outcome group peer data m fun sender =>
      hgrants.charged group peer data sender rfl
  | receiptPacket group peer receipt =>
    cases h
    exact edits_handleGroupReceipt outcome group peer receipt m
  | resume => exact edits_resume hgrants.proved h
  | purgeFriend number friend =>
    cases h
    exact edits_purgeFriendIdentityState number friend
  | erasePeer member =>
    cases h
    exact edits_erasePeerIdCacheEntry member
  | forgetGroup group =>
    cases h
    exact edits_other ⟨rfl, rfl, rfl, rfl, rfl, rfl, rfl⟩
  | mapGroup group groupId =>
    cases h
    exact edits_other ⟨rfl, rfl, rfl, rfl, rfl, rfl, rfl⟩
  | unmapGroup group =>
    cases h
    exact edits_other ⟨rfl, rfl, rfl, rfl, rfl, rfl, rfl⟩

theorem step_cases {crypto : Crypto} {m m' : Machine} {input : Input}
    (h : step crypto m input = some m') :
    m.clock ≤ input.now ∧ (input.event.isCallback = true → m.task.isIdle = true) ∧
      ∃ u, m.handle crypto input.outcome input.now input.event = some u ∧
        m' = { u with clock := input.now } := by
  unfold step at h
  split_ifs at h with hclock hbusy
  obtain ⟨u, hu, rfl⟩ := Option.map_eq_some_iff.mp h
  refine ⟨Nat.le_of_not_lt hclock, fun hcallback => ?_, u, hu, rfl⟩
  rw [hcallback, Bool.true_and, Bool.not_eq_true, Bool.not_eq_false'] at hbusy
  exact hbusy

theorem edits_step {crypto : Crypto} {m m' : Machine} {input : Input}
    (hgrants : m.Grants crypto input.outcome input.now input.event grounds)
    (h : step crypto m input = some m') :
    Edits input.now grounds m.state.tables m'.state.tables := by
  obtain ⟨-, -, u, hu, rfl⟩ := step_cases h
  have hhandled := edits_handle hgrants hu
  exact hhandled

theorem edits_step_any {crypto : Crypto} {m m' : Machine} {input : Input}
    (h : step crypto m input = some m') :
    Edits input.now Grounds.any m.state.tables m'.state.tables :=
  edits_step (m.grants_any crypto input.outcome input.now input.event) h

/-- A call of another thread edits the tables as it would at any time, and
    leaves the event thread where it is. -/
theorem call_cases {crypto : Crypto} {outcome : Outcome} {m m' : Machine} {event : Event}
    (grounds : Grounds) (hcall : event.isCall = true) (h : m.handle crypto outcome now event = some m') :
    m'.task = m.task ∧ m'.log = m.log ∧ m'.state.receipts = m.state.receipts ∧
      ∀ time, Edits time grounds m.state.tables m'.state.tables := by
  cases event with
  | purgeFriend number friend =>
    cases h
    exact ⟨rfl, rfl, rfl, fun time => edits_purgeFriendIdentityState number friend⟩
  | erasePeer member =>
    cases h
    exact ⟨rfl, rfl, rfl, fun time => edits_erasePeerIdCacheEntry member⟩
  | forgetGroup group =>
    cases h
    exact ⟨rfl, rfl, rfl, fun time => edits_other ⟨rfl, rfl, rfl, rfl, rfl, rfl, rfl⟩⟩
  | mapGroup group groupId =>
    cases h
    exact ⟨rfl, rfl, rfl, fun time => edits_other ⟨rfl, rfl, rfl, rfl, rfl, rfl, rfl⟩⟩
  | unmapGroup group =>
    cases h
    exact ⟨rfl, rfl, rfl, fun time => edits_other ⟨rfl, rfl, rfl, rfl, rfl, rfl, rfl⟩⟩
  | _ => cases hcall

/-! ## Which handler the event thread is in -/

theorem announcement_task (outcome : Outcome) (number : FriendNumber) (data : Bytes) {m : Machine}
    (hidle : m.task = .idle) (now : Time) :
    let m' := m.handleGroupIdentityAnnouncement outcome now number data
    m'.task = .idle ∨ (∃ friend added, m'.task = .sync friend added) ∨
      ∃ friend body, m'.task = .answer friend body now ∧ ∃ key, m'.log = m.log ++ [.recorded key now] := by
  unfold Machine.handleGroupIdentityAnnouncement
  split
  · dsimp only
    split_ifs
    · exact .inr (.inr ⟨_, _, rfl, _, rfl⟩)
    · exact .inl hidle
    · exact .inl hidle
    · exact .inl rfl
    · exact .inr (.inl ⟨_, _, rfl⟩)
    · exact .inl hidle
  · exact .inl hidle

theorem isIdle_iff (task : Task) : task.isIdle = true ↔ task = .idle := by
  cases task <;> simp [Task.isIdle]

theorem issueIdentityChallenges_task (candidates : List Candidate) (m : Machine) :
    (m.issueIdentityChallenges candidates).task = .idle ∨
      (m.issueIdentityChallenges candidates).task = .issue candidates ∅ [] := by
  change (if candidates = [] then Task.idle else _) = .idle ∨ (if candidates = [] then Task.idle else _) = _
  split_ifs
  · exact .inl rfl
  · exact .inr rfl

theorem issueChallenge_task (outcome : Outcome) (candidates : List Candidate)
    (prefixes : AList (fun _ : GroupNumber => Option (Bytes × Bytes)))
    (sends : List (FriendNumber × Bytes)) (m : Machine) (now : Time) :
    let m' := m.issueChallenge outcome now candidates prefixes sends
    m'.task = .idle ∨ ∃ candidates prefixes sends, m'.task = .issue candidates prefixes sends := by
  unfold Machine.issueChallenge
  split
  · exact .inl rfl
  · dsimp only
    split
    · split_ifs
      · exact .inr ⟨_, _, _, rfl⟩
      · exact .inr ⟨_, _, _, rfl⟩
    · exact .inr ⟨_, _, _, rfl⟩

theorem answerChallenge_task (crypto : Crypto) (outcome : Outcome) (friend data : Bytes)
    (recorded : Time) (m : Machine) :
    (m.answerChallenge crypto outcome friend data recorded).task = .idle := by
  unfold Machine.answerChallenge
  dsimp only
  split
  · rfl
  · split
    · split <;> rfl
    · rfl

theorem verifyProof_task (crypto : Crypto) (outcome : Outcome) (sender : GroupMember) (data : Bytes)
    (arrived : Time) (m : Machine) :
    (m.verifyProof crypto outcome sender data arrived).task = .idle := by
  unfold Machine.verifyProof
  dsimp only
  split <;> rfl

/-- The two tasks that carry a time start with a packet of that time. -/
def Task.timed : Task → Bool
  | .answer _ _ _ | .verify _ _ _ => true
  | _ => false

theorem resume_task {crypto : Crypto} {outcome : Outcome} {m m' : Machine}
    (h : m.resume crypto outcome now = some m') : m'.task.timed = false := by
  have hissue : ∀ candidates (u : Machine), (u.issueIdentityChallenges candidates).task.timed = false := by
    intro candidates u
    obtain htask | htask := issueIdentityChallenges_task candidates u
    · rw [htask]
      rfl
    · rw [htask]
      rfl
  unfold Machine.resume at h
  dsimp only at h
  split at h
  · cases h
  · split at h
    · cases h
      rfl
    · cases h
      rfl
  · cases h
    rfl
  · cases h
    exact hissue _ _
  · split at h
    · cases h
      rfl
    · cases h
      exact hissue _ _
  · rename_i candidates prefixes sends _
    cases h
    have hnext := issueChallenge_task outcome candidates prefixes sends m
    obtain htask | ⟨_, _, _, htask⟩ := hnext now
    · rw [htask]
      rfl
    · rw [htask]
      rfl
  · cases h
    rw [answerChallenge_task]
    rfl
  · cases h
    rw [verifyProof_task]
    rfl
  · cases h
    rfl

/-- A proof reaches the verifier only in the step of its packet. -/
theorem verify_task {crypto : Crypto} {outcome : Outcome} {m m' : Machine} {event : Event}
    (hcall : event.isCall = false) (hidle : event.isCallback = true → m.task.isIdle = true)
    (h : m.handle crypto outcome now event = some m') {sender : GroupMember} {data : Bytes}
    {arrived : Time} (htask : m'.task = .verify sender data arrived) :
    arrived = now ∧ ∃ group peer key, event = .proofPacket group peer data ∧
      outcome.tox.peerKey group peer = some key ∧ sender = (group, key) := by
  have hstart : event.isCallback = true → m.task = .idle := fun hcallback =>
    (isIdle_iff m.task).mp (hidle hcallback)
  have hsame : m.task = .idle → m'.task ≠ m.task := by
    intro hm hm'
    rw [htask, hm] at hm'
    cases hm'
  cases event with
  | friendOffline number =>
    have hm := hstart rfl
    cases h
    exact absurd rfl (hsame hm)
  | friendOnline number =>
    have hm := hstart rfl
    cases h
    exact absurd rfl (hsame hm)
  | friendPacket number data =>
    have hm := hstart rfl
    cases h
    have hnext := announcement_task outcome number data hm
    obtain hidle | ⟨_, _, hsync⟩ | ⟨_, _, hanswer, -⟩ := hnext now
    · rw [hidle] at htask
      cases htask
    · rw [hsync] at htask
      cases htask
    · rw [hanswer] at htask
      cases htask
  | peerJoin group peer =>
    have hm := hstart rfl
    simp only [Machine.handle] at h
    split at h
    · cases h
      change (if isConferenceMapKey group then Task.idle else _) = _ at htask
      split_ifs at htask
    · cases h
      exact absurd rfl (hsame hm)
  | peerMessage group peer =>
    have hm := hstart rfl
    simp only [Machine.handle] at h
    split at h
    · cases h
      exact absurd rfl (hsame hm)
    · cases h
      exact absurd rfl (hsame hm)
  | peerExit group peer selfDisconnected =>
    have hm := hstart rfl
    simp only [Machine.handle] at h
    split_ifs at h
    · split at h
      · cases h
        exact absurd rfl (hsame hm)
      · cases h
        cases htask
    · cases h
      exact absurd rfl (hsame hm)
  | proofPacket group peer packet =>
    have hm := hstart rfl
    cases h
    unfold Machine.handleGroupIdentityProof at htask hsame
    split at htask
    · rename_i key hkey
      split_ifs at htask
      · dsimp only at htask
        split_ifs at htask
        cases htask
        exact ⟨rfl, group, peer, key, rfl, hkey, rfl⟩
      · exact absurd (hm.symm.trans htask) (fun h => nomatch h)
    · exact absurd (hm.symm.trans htask) (fun h => nomatch h)
  | receiptPacket group peer receipt =>
    have hm := hstart rfl
    cases h
    unfold Machine.handleGroupReceipt at htask
    split at htask
    · split_ifs at htask
      · exact absurd (hm.symm.trans htask) (fun h => nomatch h)
      · exact absurd (hm.symm.trans htask) (fun h => nomatch h)
    · exact absurd (hm.symm.trans htask) (fun h => nomatch h)
  | resume =>
    have htimed := resume_task h
    rw [htask] at htimed
    cases htimed
  | _ => cases hcall

end Tim2Tox.Identity
