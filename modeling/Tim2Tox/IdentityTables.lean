import Tim2Tox.MirroredTables
import Tim2Tox.ReplayFilters
import Mathlib.Data.List.MinMax

set_option autoImplicit false

/-!
# The tables of friend identities in groups

Group members are named by keys of their own in each group. A friend hints at
its key by a digest, is challenged, and proves it with a sealed box. Here are
the tables behind this, with the functions that edit them under one lock.
-/
namespace Tim2Tox.Identity
open KeyedTables MirroredTables ReplayFilters

/-- Keys, nonces and digests are the bytes the source spells in hexadecimal. -/
abbrev Bytes : Type := List UInt8

/-- Milliseconds of the steady clock; `0` is the unset time point. -/
abbrev Time : Type := ℕ

abbrev GroupNumber : Type := ℕ
abbrev PeerNumber : Type := ℕ
abbrev FriendNumber : Type := ℕ

def kMaxPendingIdentityChallenges : ℕ := 256
def kMaxPendingChallengesPerFriend : ℕ := 32
def kIdentityChallengeTtl : Time := 60 * 1000
def kMaxClaimsPerFriend : ℕ := 256
def kMaxIdentityClaims : ℕ := 4096
def kMaxClaimantsPerDigest : ℕ := 8
def kIdentityClaimTtl : Time := 24 * 60 * 60 * 1000
def kMaxProvenMembers : ℕ := 4096
def kMaxIndexedMembers : ℕ := 16384
def kIdentityRateWindow : Time := 60 * 1000
def kMaxHintPacketsPerFriend : ℕ := 32
def kMaxNewDigestsPerFriend : ℕ := 128
def kMaxNewDigestsGlobal : ℕ := 512
def kMaxProofsPerFriend : ℕ := 32
def kMaxProofsGlobal : ℕ := 2048
def kMaxProofVerifiesGlobal : ℕ := 4096
def kMaxProofVerifiesPerSender : ℕ := 32
def kMaxProofVerifySenders : ℕ := 1024
def kMaxGroupReceiptsPerSender : ℕ := 2048
def kMaxGroupReceiptSenders : ℕ := 1024
def kMaxGroupReceiptsGlobal : ℕ := 16384
def kMaxAnsweredChallenges : ℕ := 1024
def kAnsweredChallengeTtl : Time := 10 * 60 * 1000
def kMaxSeenGroupReceipts : ℕ := 4096
def kSeenGroupReceiptTtl : Time := 10 * 60 * 1000
def kIdentityPruneInterval : Time := 30 * 1000

/-- The order in which a hash table is walked: any order of its entries. -/
structure Iteration where
  order : ∀ {α : Type}, List α → List α
  perm : ∀ {α : Type} (entries : List α), (order entries).Perm entries

def Iteration.asStored : Iteration := ⟨fun entries => entries, fun entries => List.Perm.refl entries⟩

theorem Iteration.mem_order (walk : Iteration) {α : Type} {entry : α} {entries : List α} :
    entry ∈ walk.order entries ↔ entry ∈ entries := (walk.perm entries).mem_iff

/-! ## Rate windows -/

structure IdentityRateWindow where
  windowStart : Time := 0
  hintPackets : ℕ := 0
  newDigests : ℕ := 0
  proofsSent : ℕ := 0
  proofVerifies : ℕ := 0
  receiptsIn : ℕ := 0
  deriving DecidableEq, Inhabited

/-- The counters of a window, as members to point at. -/
inductive RateCounter
  | hintPackets | newDigests | proofsSent | proofVerifies | receiptsIn
  deriving DecidableEq

def IdentityRateWindow.spent (window : IdentityRateWindow) : RateCounter → ℕ
  | .hintPackets => window.hintPackets
  | .newDigests => window.newDigests
  | .proofsSent => window.proofsSent
  | .proofVerifies => window.proofVerifies
  | .receiptsIn => window.receiptsIn

def IdentityRateWindow.spend (window : IdentityRateWindow) : RateCounter → IdentityRateWindow
  | .hintPackets => { window with hintPackets := window.hintPackets + 1 }
  | .newDigests => { window with newDigests := window.newDigests + 1 }
  | .proofsSent => { window with proofsSent := window.proofsSent + 1 }
  | .proofVerifies => { window with proofVerifies := window.proofVerifies + 1 }
  | .receiptsIn => { window with receiptsIn := window.receiptsIn + 1 }

/-- The window a budget is charged to: a new one once the old one is over. -/
def IdentityRateWindow.current (window : IdentityRateWindow) (now : Time) : IdentityRateWindow :=
  if window.windowStart = 0 ∨ kIdentityRateWindow ≤ now - window.windowStart then
    { windowStart := now }
  else window

def takeIdentityBudgetLocked (window : IdentityRateWindow) (now : Time) (counter : RateCounter)
    (limit : ℕ) : Bool × IdentityRateWindow :=
  if limit ≤ (window.current now).spent counter then (false, window.current now)
  else (true, (window.current now).spend counter)

/-! ## The state -/

/-- A member of one of our groups: group number and key. -/
abbrev GroupMember : Type := GroupNumber × Bytes

structure ProvenGroupMember where
  friend : Bytes
  groupNumber : GroupNumber
  provenAt : Time
  deriving DecidableEq

structure PendingIdentityChallenge where
  friend : Bytes
  groupNumber : GroupNumber
  memberKey : Bytes
  sentAt : Time
  deriving DecidableEq

/-- Friend, chat id and nonce of a challenge. -/
abbrev ChallengeKey : Type := Bytes × Bytes × Bytes

structure Mm6Diag where
  proofsSent : ℕ := 0
  proofsIn : ℕ := 0
  proofsAccepted : ℕ := 0
  proofsRejected : ℕ := 0
  lastProofPayload : Bytes := []
  deriving DecidableEq

/-- `claims` holds friend_group_digests_, digest_claimants_ and
    identity_claim_count_; `members` holds member_digest_index_ and
    member_digest_by_slot_; `answered` the table and the queue of the
    challenges answered. -/
structure IdentityTables where
  claims : Mirror Bytes Bytes Time := Mirror.empty
  members : Inverse GroupMember Bytes := Inverse.empty
  memberKeyToFriend : AList (fun _ : Bytes => ProvenGroupMember) := ∅
  pendingIdentityChallenges : AList (fun _ : Bytes => PendingIdentityChallenge) := ∅
  answered : ReplayFilter ChallengeKey := ReplayFilter.empty
  identityRateByFriend : AList (fun _ : Bytes => IdentityRateWindow) := ∅
  identityRateByGroupSender : AList (fun _ : Bytes => IdentityRateWindow) := ∅
  identityRateGlobal : IdentityRateWindow := {}
  identityLastPrune : Time := 0
  onlineIdentityFriends : List FriendNumber := []
  groupPeerIdCache : AList (fun _ : GroupNumber => AList (fun _ : Bytes => PeerNumber)) := ∅
  groupNumberToGroupId : AList (fun _ : GroupNumber => Bytes) := ∅
  diag : Mm6Diag := {}

structure ReceiptDiag where
  received : ℕ := 0
  refused : ℕ := 0
  refusedGlobal : ℕ := 0
  replayed : ℕ := 0
  forwarded : ℕ := 0
  deriving DecidableEq

/-- The tables of the group receipts. The two limits override the built-in
    ones in builds with test hooks; `0` means no override. -/
structure ReceiptTables where
  groupReceiptRateBySender : AList (fun _ : Bytes => IdentityRateWindow) := ∅
  groupReceiptRateGlobal : IdentityRateWindow := {}
  groupReceiptPerSenderLimitOverride : ℕ := 0
  groupReceiptGlobalLimitOverride : ℕ := 0
  seenGroupReceipts : ReplayFilter Bytes := ReplayFilter.empty
  diag : ReceiptDiag := {}

structure IdentityState where
  tables : IdentityTables := {}
  receipts : ReceiptTables := {}

/-! ## Claims and indexed members -/

def IdentityTables.eraseIdentityClaimLocked (friend digest : Bytes) (t : IdentityTables) :
    IdentityTables := { t with claims := t.claims.unlink friend digest }

def IdentityTables.dropFriendIdentityClaimsLocked (friend : Bytes) (t : IdentityTables) :
    IdentityTables := { t with claims := t.claims.unlinkAll friend }

def IdentityTables.eraseIndexedGroupMemberLocked (member : GroupMember) (t : IdentityTables) :
    IdentityTables := { t with members := t.members.remove member }

/-- The peer cache of a group names the key. -/
def IdentityTables.cached (t : IdentityTables) (member : GroupMember) : Bool :=
  decide (member.2 ∈ content ∅ member.1 t.groupPeerIdCache)

/-! ## Budgets -/

def IdentityTables.takeFriendBudgetLocked (friend : Bytes) (now : Time) (counter : RateCounter)
    (limit : ℕ) (t : IdentityTables) : Bool × IdentityTables :=
  let taken :=
    takeIdentityBudgetLocked ((t.identityRateByFriend.lookup friend).getD {}) now counter limit
  (taken.1, { t with identityRateByFriend := t.identityRateByFriend.insert friend taken.2 })

def IdentityTables.takeGlobalBudgetLocked (now : Time) (counter : RateCounter) (limit : ℕ)
    (t : IdentityTables) : Bool × IdentityTables :=
  let taken := takeIdentityBudgetLocked t.identityRateGlobal now counter limit
  (taken.1, { t with identityRateGlobal := taken.2 })

/-- The friend's budget first; the global one is charged only when it is not spent. -/
def IdentityTables.takeBothBudgetsLocked (friend : Bytes) (now : Time) (counter : RateCounter)
    (perFriend inAll : ℕ) (t : IdentityTables) : Bool × IdentityTables :=
  let charged := t.takeFriendBudgetLocked friend now counter perFriend
  if charged.1 then charged.2.takeGlobalBudgetLocked now counter inAll else charged

def PendingIdentityChallenge.unexpired (challenge : PendingIdentityChallenge) (now : Time) : Bool :=
  decide (now - challenge.sentAt ≤ kIdentityChallengeTtl)

def PendingIdentityChallenge.about (challenge : PendingIdentityChallenge) (member : GroupMember) :
    Bool := decide ((challenge.groupNumber, challenge.memberKey) = member)

def IdentityTables.hasPendingChallengeForSenderLocked (sender : GroupMember) (now : Time)
    (t : IdentityTables) : Bool :=
  t.pendingIdentityChallenges.entries.any fun entry =>
    entry.2.about sender && entry.2.unexpired now

/-- A window for a new sender is opened only while there is room in the table. -/
def takeSenderBudgetLocked (sender : Bytes) (now : Time) (counter : RateCounter)
    (limit senders : ℕ) (rates : AList (fun _ : Bytes => IdentityRateWindow)) :
    Bool × AList (fun _ : Bytes => IdentityRateWindow) :=
  if sender ∉ rates ∧ senders ≤ rates.keys.length then (false, rates)
  else
    let taken := takeIdentityBudgetLocked ((rates.lookup sender).getD {}) now counter limit
    (taken.1, rates.insert sender taken.2)

def IdentityTables.takeGroupSenderProofBudgetLocked (sender : Bytes) (now : Time)
    (t : IdentityTables) : Bool × IdentityTables :=
  let taken := takeSenderBudgetLocked sender now .proofVerifies kMaxProofVerifiesPerSender
    kMaxProofVerifySenders t.identityRateByGroupSender
  (taken.1, { t with identityRateByGroupSender := taken.2 })

def effectiveReceiptCap (overrideValue builtIn : ℕ) : ℕ :=
  if overrideValue ≠ 0 then overrideValue else builtIn

def ReceiptTables.takeGroupSenderReceiptBudgetLocked (sender : Bytes) (now : Time)
    (r : ReceiptTables) : Bool × ReceiptTables :=
  let taken := takeSenderBudgetLocked sender now .receiptsIn
    (effectiveReceiptCap r.groupReceiptPerSenderLimitOverride kMaxGroupReceiptsPerSender)
    kMaxGroupReceiptSenders r.groupReceiptRateBySender
  (taken.1, { r with groupReceiptRateBySender := taken.2 })

def ReceiptTables.takeGlobalBudgetLocked (now : Time) (r : ReceiptTables) : Bool × ReceiptTables :=
  let taken := takeIdentityBudgetLocked r.groupReceiptRateGlobal now .receiptsIn
    (effectiveReceiptCap r.groupReceiptGlobalLimitOverride kMaxGroupReceiptsGlobal)
  (taken.1, { r with groupReceiptRateGlobal := taken.2 })

/-! ## Challenges that are dropped -/

def IdentityTables.dropChallenges (test : PendingIdentityChallenge → Bool) (t : IdentityTables) :
    IdentityTables :=
  { t with
    pendingIdentityChallenges := eraseIf (fun entry => test entry.2) t.pendingIdentityChallenges }

local instance instLawfulBEqBytes : LawfulBEq Bytes := inferInstance

def IdentityTables.dropStaleChallengesForMemberLocked (member : GroupMember) (digest : Bytes)
    (t : IdentityTables) : IdentityTables :=
  t.dropChallenges fun challenge =>
    challenge.about member && !decide (challenge.friend ∈ t.claims.owners digest)

/-! ## The sweep -/

def dropOldWindows (now : Time) (rates : AList (fun _ : Bytes => IdentityRateWindow)) :
    AList (fun _ : Bytes => IdentityRateWindow) :=
  eraseIf (fun entry => decide (kIdentityRateWindow ≤ now - entry.2.windowStart)) rates

def IdentityTables.expiredClaims (now : Time) (t : IdentityTables) : List (Bytes × Bytes) :=
  t.claims.held.entries.flatMap fun entry =>
    (entry.2.entries.filter fun claim => decide (kIdentityClaimTtl < now - claim.2)).map
      fun claim => (entry.1, claim.1)

def IdentityTables.eraseClaims (claims : List (Bytes × Bytes)) (t : IdentityTables) : IdentityTables :=
  claims.foldl (fun t claim => t.eraseIdentityClaimLocked claim.1 claim.2) t

def IdentityTables.expireAnswered (now : Time) (t : IdentityTables) : IdentityTables :=
  { t with answered := t.answered.expire kAnsweredChallengeTtl now }

def IdentityTables.dropProven (test : ProvenGroupMember → Bool) (t : IdentityTables) :
    IdentityTables :=
  { t with memberKeyToFriend := eraseIf (fun entry => test entry.2) t.memberKeyToFriend }

/-- Proven members of groups that are held no more are dropped. -/
def IdentityTables.dropUnheldGroups (t : IdentityTables) : IdentityTables :=
  t.dropProven fun proven => decide (proven.groupNumber ∉ t.groupNumberToGroupId)

def IdentityTables.dropIdleWindows (now : Time) (t : IdentityTables) : IdentityTables :=
  { t with
    identityRateByFriend := dropOldWindows now t.identityRateByFriend
    identityRateByGroupSender := dropOldWindows now t.identityRateByGroupSender }

def IdentityTables.sweep (now : Time) (t : IdentityTables) : IdentityTables :=
  let t := { t with identityLastPrune := now }
  let t := t.eraseClaims (t.expiredClaims now)
  let t := t.dropChallenges fun challenge => !challenge.unexpired now
  ((t.expireAnswered now).dropUnheldGroups).dropIdleWindows now

def ReceiptTables.sweep (now : Time) (r : ReceiptTables) : ReceiptTables :=
  { r with
    seenGroupReceipts := r.seenGroupReceipts.expire kSeenGroupReceiptTtl now
    groupReceiptRateBySender := dropOldWindows now r.groupReceiptRateBySender }

def IdentityTables.prunedRecently (now : Time) (t : IdentityTables) : Bool :=
  decide (t.identityLastPrune ≠ 0 ∧ now - t.identityLastPrune < kIdentityPruneInterval)

def IdentityState.pruneIdentityStateLocked (now : Time) (forcePrune : Bool) (s : IdentityState) :
    IdentityState :=
  if !forcePrune && s.tables.prunedRecently now then s
  else ⟨s.tables.sweep now, s.receipts.sweep now⟩

end Tim2Tox.Identity
