import Tim2Tox.IdentityTables
import Tim2Tox.LabelledRuns

set_option autoImplicit false

/-!
# The handlers of friend identities in groups

Each handler is cut where the source lets go of the lock. The tox event thread
runs one handler at a time and keeps what is left of it as its task; functions
called from other threads may run between any two of its sections.
-/
namespace Tim2Tox.Identity
open KeyedTables MirroredTables ReplayFilters LabelledRuns

def kIdentityHints : UInt8 := 1
def kIdentityChallenge : UInt8 := 2
def keySize : ℕ := 32
def kIdentityNonceSize : ℕ := 16
def kDigestsPerPacket : ℕ := 40
def boxNonceSize : ℕ := 24

/-- The bytes of "T2T-MM6-proof-v2". -/
def kIdentityProofDomain : Bytes :=
  [84, 50, 84, 45, 77, 77, 54, 45, 112, 114, 111, 111, 102, 45, 118, 50]

def kIdentityProofPlainSize : ℕ := 160
def kIdentityProofPacketSize : ℕ := 200

/-- The functions of the crypto library. A secret key is named by its public key. -/
structure Crypto where
  sha256 : Bytes → Bytes
  encryptData : (publicKey self nonce plain : Bytes) → Option Bytes
  decryptData : (publicKey self nonce box : Bytes) → Option Bytes

/-- What toxcore answers while a section runs. -/
structure ToxView where
  selfKey : Bytes
  friendKey : FriendNumber → Option Bytes
  friendNumber : Bytes → Option FriendNumber
  chatId : GroupNumber → Option Bytes
  selfGroupKey : GroupNumber → Option Bytes
  groupByChatId : Bytes → Option GroupNumber
  peerKey : GroupNumber → PeerNumber → Option Bytes
  selfKey_length : selfKey.length = keySize
  chatId_length : ∀ group chat, chatId group = some chat → chat.length = keySize
  selfGroupKey_length : ∀ group key, selfGroupKey group = some key → key.length = keySize
  friendKey_length : ∀ number key, friendKey number = some key → key.length = keySize
  peerKey_length : ∀ group peer key, peerKey group peer = some key → key.length = keySize

/-- What a section gets from outside: toxcore's answers, the order of the hash
    tables, random bytes, and whether the packet it sends is taken. -/
structure Outcome where
  tox : ToxView
  walk : Iteration
  nonce : Bytes
  boxNonce : Bytes
  sent : Bool
  nonce_length : nonce.length = kIdentityNonceSize
  boxNonce_length : boxNonce.length = boxNonceSize

def isConferenceMapKey (key : GroupNumber) : Bool := decide (key ≠ 0xFFFFFFFF) && key.testBit 31

def slice (offset count : ℕ) (bytes : Bytes) : Bytes := (bytes.drop offset).take count

def groupIdentityDigest (crypto : Crypto) (chat key : Bytes) : Bytes := crypto.sha256 (chat ++ key)

/-! ## Friends come, go and are deleted -/

def IdentityTables.noteFriendOffline (number : FriendNumber) (friend : Option Bytes)
    (t : IdentityTables) : IdentityTables :=
  let t := { t with onlineIdentityFriends := t.onlineIdentityFriends.erase number }
  match friend with
  | none => t
  | some friend =>
    (t.dropFriendIdentityClaimsLocked friend).dropChallenges fun challenge =>
      decide (challenge.friend = friend)

def IdentityTables.noteFriendOnline (number : FriendNumber) (t : IdentityTables) : IdentityTables :=
  { t with onlineIdentityFriends := List.insert number t.onlineIdentityFriends }

def IdentityTables.purgeFriendIdentityState (number : FriendNumber) (friend : Bytes)
    (t : IdentityTables) : IdentityTables :=
  let t := { t with onlineIdentityFriends := t.onlineIdentityFriends.erase number }
  if friend = [] then t
  else
    let t := t.dropFriendIdentityClaimsLocked friend
    let t := t.dropChallenges fun challenge => decide (challenge.friend = friend)
    let t := t.dropProven fun proven => decide (proven.friend = friend)
    { t with identityRateByFriend := t.identityRateByFriend.erase friend }

/-! ## Hints -/

/-- Drops the claim an owner has not repeated for the longest time. -/
def IdentityTables.evictOldestOf (walk : Iteration) (owner : Bytes) (t : IdentityTables) :
    IdentityTables :=
  match (walk.order (t.claims.items owner).entries).argmin fun claim => claim.2 with
  | none => t
  | some oldest => t.eraseIdentityClaimLocked owner oldest.1

/-- The owner of the most claims. -/
def IdentityTables.heaviest (walk : Iteration) (t : IdentityTables) : Option Bytes :=
  (((walk.order t.claims.held.entries).filter fun entry => decide (0 < Mirror.size entry.2)).argmax
    fun entry => Mirror.size entry.2).map fun entry => entry.1

/-- Makes room for one more claim of the friend, first in its own share, then in all. -/
def IdentityTables.makeRoomForClaim (walk : Iteration) (friend : Bytes) (t : IdentityTables) :
    IdentityTables :=
  let t :=
    if kMaxClaimsPerFriend ≤ Mirror.size (t.claims.items friend) then t.evictOldestOf walk friend
    else t
  if kMaxIdentityClaims ≤ t.claims.count then
    match t.heaviest walk with
    | none => t
    | some owner => t.evictOldestOf walk owner
  else t

def IdentityTables.addClaim (friend digest : Bytes) (now : Time) (t : IdentityTables) :
    IdentityTables := { t with claims := t.claims.link friend digest now }

def IdentityTables.refreshClaim (friend digest : Bytes) (now : Time) (t : IdentityTables) :
    IdentityTables := { t with claims := t.claims.refresh friend digest now }

/-- What one digest of a hint packet does. -/
inductive Learned
  | known | full | overBudget | added
  deriving DecidableEq

def IdentityTables.learnDigest (walk : Iteration) (friend : Bytes) (now : Time) (digest : Bytes)
    (t : IdentityTables) : Learned × IdentityTables :=
  if digest ∈ t.claims.items friend then
    (.known, t.refreshClaim friend digest now)
  else if kMaxClaimantsPerDigest ≤ (t.claims.owners digest).length then (.full, t)
  else
    let charged :=
      t.takeBothBudgetsLocked friend now .newDigests kMaxNewDigestsPerFriend kMaxNewDigestsGlobal
    if !charged.1 then (.overBudget, charged.2)
    else (.added, (charged.2.makeRoomForClaim walk friend).addClaim friend digest now)

/-- The loop over the digests of a packet: the digests added, and the tables. -/
def IdentityTables.learnDigests (walk : Iteration) (friend : Bytes) (now : Time) :
    List Bytes → IdentityTables → List Bytes × IdentityTables
  | [], t => ([], t)
  | digest :: digests, t =>
    let learned := t.learnDigest walk friend now digest
    match learned.1 with
    | .overBudget => ([], learned.2)
    | .added =>
      let rest := learned.2.learnDigests walk friend now digests
      (digest :: rest.1, rest.2)
    | .known | .full => learned.2.learnDigests walk friend now digests

/-- The digests a hint packet carries; what is over one packet's worth is ignored. -/
def digestsOf (body : Bytes) : List Bytes :=
  (List.range (min (body.length / keySize) kDigestsPerPacket)).map fun n =>
    slice (n * keySize) keySize body

def IdentityTables.takeHints (walk : Iteration) (friend : Bytes) (now : Time) (body : Bytes)
    (t : IdentityTables) : List Bytes × IdentityTables :=
  let charged := t.takeFriendBudgetLocked friend now .hintPackets kMaxHintPacketsPerFriend
  if charged.1 then charged.2.learnDigests walk friend now (digestsOf body) else ([], charged.2)

/-! ## The index of our groups' members -/

/-- Members that left the peer cache leave the index; the answer lists members
    in the cache that were never hashed. -/
def IdentityTables.syncDropped (t : IdentityTables) : IdentityTables :=
  ((t.members.index.entries.flatMap fun entry => entry.2).filter fun member => !t.cached member).foldl
    (fun t member => t.eraseIndexedGroupMemberLocked member) t

def IdentityTables.missingMembers (walk : Iteration) (t : IdentityTables) : List GroupMember :=
  let cached := (walk.order t.groupPeerIdCache.entries).flatMap fun group =>
    if isConferenceMapKey group.1 then []
    else (walk.order group.2.entries).map fun peer => (group.1, peer.1)
  (cached.filter fun member => decide (member ∉ t.members.slots)).take
    (kMaxIndexedMembers - t.members.slots.keys.length)

def digestOfMember (crypto : Crypto) (tox : ToxView) (member : GroupMember) :
    Option (GroupMember × Bytes) :=
  (tox.chatId member.1).bind fun chat =>
    if member.2.length = keySize then some (member, groupIdentityDigest crypto chat member.2) else none

def IdentityTables.addIndexedMember (member : GroupMember) (digest : Bytes) (t : IdentityTables) :
    IdentityTables := { t with members := t.members.add member digest }

def IdentityTables.indexMember (t : IdentityTables) (computed : GroupMember × Bytes) : IdentityTables :=
  if t.cached computed.1 && decide (computed.1 ∉ t.members.slots) then
    t.addIndexedMember computed.1 computed.2
  else t

def IdentityTables.syncAdded (computed : List (GroupMember × Bytes)) (t : IdentityTables) :
    IdentityTables := computed.foldl IdentityTables.indexMember t

/-- A friend to challenge for a member. -/
abbrev Candidate : Type := Bytes × GroupMember

def IdentityTables.candidatesFor (friend : Bytes) (added : List Bytes) (t : IdentityTables) :
    List Candidate :=
  added.flatMap fun digest =>
    ((t.members.keysOf digest).filter fun member => decide (member.2 ∉ t.memberKeyToFriend)).map
      fun member => (friend, member)

/-- A joined member is indexed under its digest; a reused group number moves it. -/
def IdentityTables.indexJoined (member : GroupMember) (digest : Bytes) (t : IdentityTables) :
    IdentityTables :=
  if t.members.slots.lookup member = some digest then t
  else
    let t := t.eraseIndexedGroupMemberLocked member
    if t.members.slots.keys.length < kMaxIndexedMembers then t.addIndexedMember member digest
    else t

def IdentityTables.claimantsOf (walk : Iteration) (member : GroupMember) (digest : Bytes)
    (t : IdentityTables) : List Candidate :=
  if member.2 ∈ t.memberKeyToFriend then []
  else (walk.order (t.claims.owners digest)).map fun friend => (friend, member)

/-! ## Challenges -/

def IdentityTables.countChallenges (test : PendingIdentityChallenge → Bool) (t : IdentityTables) : ℕ :=
  t.pendingIdentityChallenges.entries.countP fun entry => test entry.2

/-- The unexpired challenge of the friend for the member. -/
def Candidate.pending (candidate : Candidate) (now : Time) (challenge : PendingIdentityChallenge) :
    Bool :=
  challenge.unexpired now && decide (challenge.friend = candidate.1) && challenge.about candidate.2

def challengesOfFriend (friend : Bytes) (now : Time) (challenge : PendingIdentityChallenge) : Bool :=
  challenge.unexpired now && decide (challenge.friend = friend)

def challengesOfMember (member : GroupMember) (now : Time) (challenge : PendingIdentityChallenge) :
    Bool := challenge.unexpired now && challenge.about member

def IdentityTables.evictOldestChallenge (walk : Iteration) (t : IdentityTables) : IdentityTables :=
  match (walk.order t.pendingIdentityChallenges.entries).argmin fun entry => entry.2.sentAt with
  | none => t
  | some oldest =>
    { t with pendingIdentityChallenges := t.pendingIdentityChallenges.erase oldest.1 }

def IdentityTables.roomForChallenge (walk : Iteration) (t : IdentityTables) : IdentityTables :=
  if kMaxPendingIdentityChallenges ≤ t.pendingIdentityChallenges.keys.length then
    t.evictOldestChallenge walk
  else t

def IdentityTables.addChallenge (nonce : Bytes) (challenge : PendingIdentityChallenge)
    (t : IdentityTables) : IdentityTables :=
  { t with pendingIdentityChallenges := t.pendingIdentityChallenges.insert nonce challenge }

def Candidate.challenge (candidate : Candidate) (now : Time) : PendingIdentityChallenge :=
  ⟨candidate.1, candidate.2.1, candidate.2.2, now⟩

/-- Enters a challenge into the table, or says that it must not be sent. -/
def IdentityTables.registerChallenge (walk : Iteration) (now : Time) (nonce : Bytes)
    (candidate : Candidate) (t : IdentityTables) : Bool × IdentityTables :=
  if candidate.2.2 ∈ t.memberKeyToFriend then (false, t)
  else if 0 < t.countChallenges (candidate.pending now) then (false, t)
  else if kMaxPendingChallengesPerFriend ≤ t.countChallenges (challengesOfFriend candidate.1 now) then
    (false, t)
  else if kMaxClaimantsPerDigest ≤ t.countChallenges (challengesOfMember candidate.2 now) then
    (false, t)
  else (true, (t.roomForChallenge walk).addChallenge nonce (candidate.challenge now))

def IdentityTables.pushAnswered (key : ChallengeKey) (now : Time) (t : IdentityTables) :
    IdentityTables := { t with answered := t.answered.record kMaxAnsweredChallenges now key }

/-- Records a challenge as answered, unless it was or a budget is spent. -/
def IdentityTables.recordAnswer (key : ChallengeKey) (now : Time) (t : IdentityTables) :
    Bool × IdentityTables :=
  if key ∈ t.answered.seen then (false, t)
  else
    let charged := t.takeBothBudgetsLocked key.1 now .proofsSent kMaxProofsPerFriend kMaxProofsGlobal
    if charged.1 then (true, charged.2.pushAnswered key now) else (false, charged.2)

/-! ## Proofs -/

def proofPlain (chat askerGroupKey responderGroupKey nonce askerKey : Bytes) : Bytes :=
  kIdentityProofDomain ++ (chat ++ (askerGroupKey ++ (responderGroupKey ++ (nonce ++ askerKey))))

/-- The payload of a proof packet: the nonce of the box, then the box. -/
def sealIdentityProof (crypto : Crypto) (self chat askerGroupKey responderGroupKey nonce askerKey
    boxNonce : Bytes) : Option Bytes :=
  (crypto.encryptData askerKey self boxNonce
    (proofPlain chat askerGroupKey responderGroupKey nonce askerKey)).map fun box => boxNonce ++ box

/-- Every field of an opened proof is the one we asked about. -/
def boundTo (chat selfGroupKey sender nonce self plain : Bytes) : Bool :=
  decide (slice 0 16 plain = kIdentityProofDomain) && decide (slice 16 keySize plain = chat) &&
    decide (slice 48 keySize plain = selfGroupKey) && decide (slice 80 keySize plain = sender) &&
    decide (slice 128 keySize plain = self) && decide (slice 112 kIdentityNonceSize plain = nonce)

/-- The payload opens with the friend's key to a proof for this challenge. -/
def proves (crypto : Crypto) (self chat selfGroupKey sender data nonce friend : Bytes) : Bool :=
  match crypto.decryptData friend self (data.take boxNonceSize) (data.drop boxNonceSize) with
  | none => false
  | some plain =>
    decide (plain.length = kIdentityProofPlainSize) &&
      boundTo chat selfGroupKey sender nonce self plain

def IdentityTables.rejectProof (t : IdentityTables) : IdentityTables :=
  { t with diag := { t.diag with proofsRejected := t.diag.proofsRejected + 1 } }

def IdentityTables.noteProof (data : Bytes) (t : IdentityTables) : IdentityTables :=
  { t with diag := { t.diag with proofsIn := t.diag.proofsIn + 1, lastProofPayload := data } }

/-- The gate and the budget a proof passes before anything is spent on it. -/
def IdentityTables.arrivedProof (sender : GroupMember) (now : Time) (t : IdentityTables) :
    Bool × IdentityTables :=
  if !t.hasPendingChallengeForSenderLocked sender now then (false, t.rejectProof)
  else
    let taken := t.takeGroupSenderProofBudgetLocked sender.2 now
    if taken.1 then (true, taken.2) else (false, taken.2.rejectProof)

def IdentityTables.proofCandidates (walk : Iteration) (sender : GroupMember) (now : Time)
    (t : IdentityTables) : List (Bytes × Bytes) :=
  (((walk.order t.pendingIdentityChallenges.entries).filter fun entry =>
    challengesOfMember sender now entry.2).map fun entry => (entry.1, entry.2.friend)).take
      kMaxClaimantsPerDigest

def IdentityTables.eraseProven (key : Bytes) (t : IdentityTables) : IdentityTables :=
  { t with memberKeyToFriend := t.memberKeyToFriend.erase key }

def IdentityTables.addProven (sender : GroupMember) (friend : Bytes) (now : Time) (t : IdentityTables) :
    IdentityTables :=
  { t with memberKeyToFriend := t.memberKeyToFriend.insert sender.2 ⟨friend, sender.1, now⟩ }

def IdentityTables.evictOldestProven (walk : Iteration) (t : IdentityTables) : IdentityTables :=
  match (walk.order t.memberKeyToFriend.entries).argmin fun entry => entry.2.provenAt with
  | none => t
  | some oldest => t.eraseProven oldest.1

def IdentityTables.acceptProof (walk : Iteration) (sender : GroupMember) (friend : Bytes) (now : Time)
    (t : IdentityTables) : IdentityTables :=
  let t := { t with diag := { t.diag with proofsAccepted := t.diag.proofsAccepted + 1 } }
  let t :=
    if sender.2 ∉ t.memberKeyToFriend ∧ kMaxProvenMembers ≤ t.memberKeyToFriend.keys.length then
      t.evictOldestProven walk
    else t
  (t.addProven sender friend now).dropChallenges fun challenge => challenge.about sender

/-- Opens a proof against our pending challenges for its sender: the friend it
    is accepted for, and the tables. -/
def IdentityTables.verifyProof (crypto : Crypto) (walk : Iteration) (self chat selfGroupKey : Bytes)
    (sender : GroupMember) (data : Bytes) (now : Time) (t : IdentityTables) :
    Option Bytes × IdentityTables :=
  let t := t.dropStaleChallengesForMemberLocked sender (groupIdentityDigest crypto chat sender.2)
  let candidates := t.proofCandidates walk sender now
  if candidates = [] then (none, t.rejectProof)
  else
    let taken := t.takeGlobalBudgetLocked now .proofVerifies kMaxProofVerifiesGlobal
    if !taken.1 then (none, taken.2.rejectProof)
    else
      match candidates.find? fun candidate =>
        proves crypto self chat selfGroupKey sender.2 data candidate.1 candidate.2 with
      | none => (none, taken.2.rejectProof)
      | some candidate => (some candidate.2, taken.2.acceptProof walk sender candidate.2 now)

/-! ## Members leave -/

/-- The keys cached for a peer number leave the cache; the first one names who left. -/
def IdentityTables.uncachePeer (walk : Iteration) (group : GroupNumber) (peer : PeerNumber)
    (t : IdentityTables) : Option Bytes × IdentityTables :=
  match t.groupPeerIdCache.lookup group with
  | none => (none, t)
  | some peers =>
    (((walk.order peers.entries).find? fun entry => decide (entry.2 = peer)).map fun entry => entry.1,
      { t with
        groupPeerIdCache := t.groupPeerIdCache.insert group
          (eraseIf (fun entry => decide (entry.2 = peer)) peers) })

def IdentityTables.forgetMember (member : GroupMember) (selfDisconnected : Bool) (t : IdentityTables) :
    IdentityTables :=
  let t := t.eraseIndexedGroupMemberLocked member
  let t := t.dropChallenges fun challenge => challenge.about member
  if selfDisconnected then t else t.eraseProven member.2

def IdentityTables.erasePeerIdCacheEntry (member : GroupMember) (t : IdentityTables) :
    IdentityTables :=
  match t.groupPeerIdCache.lookup member.1 with
  | none => t
  | some peers =>
    { t with groupPeerIdCache := t.groupPeerIdCache.insert member.1 (peers.erase member.2) }

def IdentityTables.cachePeer (member : GroupMember) (peer : PeerNumber) (t : IdentityTables) :
    IdentityTables :=
  { t with
    groupPeerIdCache := t.groupPeerIdCache.insert member.1
      ((content ∅ member.1 t.groupPeerIdCache).insert member.2 peer) }

/-- Scans the peers of a group for a key. -/
def findPeer (tox : ToxView) (group : GroupNumber) (key : Bytes) : ℕ → PeerNumber → ℕ → Option PeerNumber
  | 0, _, _ => none
  | turns + 1, peer, failures =>
    match tox.peerKey group peer with
    | some found => if found = key then some peer else findPeer tox group key turns (peer + 1) 0
    | none => if 48 < failures + 1 then none else findPeer tox group key turns (peer + 1) (failures + 1)

def IdentityTables.resolveGroupPeerIdForKey (tox : ToxView) (member : GroupMember) (t : IdentityTables) :
    Option PeerNumber × IdentityTables :=
  match (content ∅ member.1 t.groupPeerIdCache).lookup member.2 with
  | none => (findPeer tox member.1 member.2 256 0 0, t)
  | some peer =>
    if tox.peerKey member.1 peer = some member.2 then (some peer, t)
    else (findPeer tox member.1 member.2 256 0 0, t.erasePeerIdCacheEntry member)

/-! ## Group receipts -/

structure StrictGroupReceipt where
  msgId : Bytes
  receiptType : Bytes
  sender : Bytes
  deriving DecidableEq

def separator : UInt8 := 124

def receiptReplayKey (groupId sender : Bytes) (receipt : StrictGroupReceipt) : Bytes :=
  groupId ++ separator :: (sender ++ separator :: (receipt.receiptType ++ separator :: receipt.msgId))

def ReceiptTables.countReceived (r : ReceiptTables) : ReceiptTables :=
  { r with diag := { r.diag with received := r.diag.received + 1 } }

def ReceiptTables.countRefused (r : ReceiptTables) : ReceiptTables :=
  { r with diag := { r.diag with refused := r.diag.refused + 1 } }

def ReceiptTables.countRefusedGlobal (r : ReceiptTables) : ReceiptTables :=
  { r with diag := { r.diag with refusedGlobal := r.diag.refusedGlobal + 1 } }

def ReceiptTables.countReplayed (r : ReceiptTables) : ReceiptTables :=
  { r with diag := { r.diag with replayed := r.diag.replayed + 1 } }

def ReceiptTables.recordReceipt (key : Bytes) (now : Time) (r : ReceiptTables) : ReceiptTables :=
  { r with
    seenGroupReceipts := r.seenGroupReceipts.record kMaxSeenGroupReceipts now key
    diag := { r.diag with forwarded := r.diag.forwarded + 1 } }

/-- Meters a receipt and looks it up in the replay filter: the key it is
    forwarded under, if it is. -/
def ReceiptTables.takeReceipt (groupId : Option Bytes) (sender : Bytes) (receipt : StrictGroupReceipt)
    (now : Time) (r : ReceiptTables) : Option Bytes × ReceiptTables :=
  let ofSender := r.takeGroupSenderReceiptBudgetLocked sender now
  if !ofSender.1 then (none, ofSender.2.countRefused)
  else
    let ofAll := ofSender.2.takeGlobalBudgetLocked now
    if !ofAll.1 then (none, ofAll.2.countRefusedGlobal)
    else
      match groupId with
      | none => (none, ofAll.2)
      | some groupId =>
        if receiptReplayKey groupId sender receipt ∈ ofAll.2.seenGroupReceipts.seen then
          (none, ofAll.2.countReplayed)
        else
          (some (receiptReplayKey groupId sender receipt),
            ofAll.2.recordReceipt (receiptReplayKey groupId sender receipt) now)

/-! ## The event thread -/

/-- What is left of the handler the event thread is in. -/
inductive Task
  | idle
  /-- Hints were taken; the members of our groups are indexed next. -/
  | sync (friend : Bytes) (added : List Bytes)
  | hash (friend : Bytes) (added : List Bytes) (missing : List GroupMember)
  | lookUp (friend : Bytes) (added : List Bytes)
  | matchJoined (member : GroupMember)
  /-- Challenges to issue, what was asked about their groups, and those to send. -/
  | issue (candidates : List Candidate) (prefixes : AList (fun _ : GroupNumber => Option (Bytes × Bytes)))
    (sends : List (FriendNumber × Bytes))
  | answer (friend data : Bytes) (now : Time)
  | verify (sender : GroupMember) (data : Bytes) (now : Time)
  | forget (member : GroupMember) (selfDisconnected : Bool)

/-- What the handlers do towards the outside. -/
inductive Output
  | recorded (key : ChallengeKey) (now : Time)
  | answered (key : ChallengeKey) (now : Time) (group : GroupNumber) (peer : PeerNumber) (payload : Bytes)
  | challenged (friend : FriendNumber) (body : Bytes)
  | accepted (sender : GroupMember) (friend : Bytes) (now : Time)
  | forwarded (key : Bytes) (now : Time)
  deriving DecidableEq

/-- The handlers of one node, with a log of what they did. -/
structure Machine where
  state : IdentityState := {}
  task : Task := .idle
  clock : Time := 0
  log : List Output := []

def Machine.setTables (m : Machine) (tables : IdentityTables) : Machine :=
  { m with state := { m.state with tables } }

def challengeBody (chat selfGroupKey nonce : Bytes) : Bytes :=
  kIdentityChallenge :: (chat ++ (selfGroupKey ++ nonce))

/-- What a challenge says about its group, asked once a call for each group. -/
def askGroup (tox : ToxView) (group : GroupNumber) : Option (Bytes × Bytes) :=
  (tox.chatId group).bind fun chat => (tox.selfGroupKey group).map fun key => (chat, key)

def Machine.pruned (now : Time) (m : Machine) : Machine :=
  { m with state := m.state.pruneIdentityStateLocked now false }

/-- A frame of a friend's identity channel. -/
def Machine.handleGroupIdentityAnnouncement (outcome : Outcome) (now : Time) (number : FriendNumber)
    (data : Bytes) (m : Machine) : Machine :=
  match outcome.tox.friendKey number, data with
  | some friend, subtype :: body =>
    if subtype = kIdentityChallenge then
      if body.length = keySize + keySize + kIdentityNonceSize then
        let m := m.pruned now
        let key := (friend, slice 0 keySize body, slice 64 kIdentityNonceSize body)
        let recorded := m.state.tables.recordAnswer key now
        if recorded.1 then
          { m.setTables recorded.2 with
            task := .answer friend body now
            log := m.log ++ [.recorded key now] }
        else m.setTables recorded.2
      else m
    else if subtype = kIdentityHints ∧ body ≠ [] ∧ body.length % keySize = 0 then
      let m := m.pruned now
      let hints := m.state.tables.takeHints outcome.walk friend now body
      { m.setTables hints.2 with task := if hints.1 = [] then .idle else .sync friend hints.1 }
    else m
  | _, _ => m

def IdentityTables.noteSent (sent : Bool) (t : IdentityTables) : IdentityTables :=
  { t with diag := { t.diag with proofsSent := t.diag.proofsSent + sent.toNat } }

/-- The answer to a recorded challenge, sealed for the friend that sent it. -/
def Machine.answerChallenge (crypto : Crypto) (outcome : Outcome) (friend data : Bytes) (now : Time)
    (m : Machine) : Machine :=
  let m := { m with task := .idle }
  match outcome.tox.groupByChatId (slice 0 keySize data) with
  | none => m
  | some group =>
    let resolved :=
      m.state.tables.resolveGroupPeerIdForKey outcome.tox (group, slice keySize keySize data)
    let m := m.setTables resolved.2
    match resolved.1, outcome.tox.selfGroupKey group with
    | some peer, some selfGroupKey =>
      match sealIdentityProof crypto outcome.tox.selfKey (slice 0 keySize data)
        (slice keySize keySize data) selfGroupKey (slice 64 kIdentityNonceSize data) friend
        outcome.boxNonce with
      | none => m
      | some payload =>
        let key := (friend, slice 0 keySize data, slice 64 kIdentityNonceSize data)
        { m.setTables (m.state.tables.noteSent outcome.sent) with
          log := m.log ++ [.answered key now group peer payload] }
    | _, _ => m

/-- One challenge of those to issue; the challenges are sent when none is left. -/
def Machine.issueChallenge (outcome : Outcome) (now : Time) (candidates : List Candidate)
    (prefixes : AList (fun _ : GroupNumber => Option (Bytes × Bytes)))
    (sends : List (FriendNumber × Bytes)) (m : Machine) : Machine :=
  match candidates with
  | [] => { m with task := .idle, log := m.log ++ sends.map fun send => .challenged send.1 send.2 }
  | candidate :: candidates =>
    let known := (prefixes.lookup candidate.2.1).getD (askGroup outcome.tox candidate.2.1)
    let prefixes := prefixes.insert candidate.2.1 known
    match known, outcome.tox.friendNumber candidate.1 with
    | some (chat, selfGroupKey), some number =>
      let registered := m.state.tables.registerChallenge outcome.walk now outcome.nonce candidate
      if registered.1 then
        { m.setTables registered.2 with
          task := .issue candidates prefixes
            (sends ++ [(number, challengeBody chat selfGroupKey outcome.nonce)]) }
      else { m with task := .issue candidates prefixes sends }
    | _, _ => { m with task := .issue candidates prefixes sends }

def Machine.issueIdentityChallenges (candidates : List Candidate) (m : Machine) : Machine :=
  { m with task := if candidates = [] then .idle else .issue candidates ∅ [] }

/-- A proof packet, up to the budget of its sender. -/
def Machine.handleGroupIdentityProof (outcome : Outcome) (now : Time) (group : GroupNumber)
    (peer : PeerNumber) (data : Bytes) (m : Machine) : Machine :=
  match outcome.tox.peerKey group peer with
  | some sender =>
    if data.length = kIdentityProofPacketSize then
      let m := { m with state := { m.state with tables := m.state.tables.noteProof data } }.pruned now
      let arrived := m.state.tables.arrivedProof (group, sender) now
      { m.setTables arrived.2 with
        task := if arrived.1 then .verify (group, sender) data now else .idle }
    else m
  | none => m

def Machine.verifyProof (crypto : Crypto) (outcome : Outcome) (sender : GroupMember) (data : Bytes)
    (now : Time) (m : Machine) : Machine :=
  let m := { m with task := .idle }
  match outcome.tox.chatId sender.1, outcome.tox.selfGroupKey sender.1 with
  | some chat, some selfGroupKey =>
    let verified := m.state.tables.verifyProof crypto outcome.walk outcome.tox.selfKey chat selfGroupKey
      sender data now
    { m.setTables verified.2 with
      log := m.log ++ verified.1.toList.map fun friend => .accepted sender friend now }
  | _, _ => m

/-- A group receipt whose packet was well formed. -/
def Machine.handleGroupReceipt (outcome : Outcome) (now : Time) (group : GroupNumber)
    (peer : PeerNumber) (receipt : StrictGroupReceipt) (m : Machine) : Machine :=
  match outcome.tox.peerKey group peer with
  | some sender =>
    if receipt.sender = sender then
      let m := { m with state := { m.state with receipts := m.state.receipts.countReceived } }.pruned now
      let taken := m.state.receipts.takeReceipt
        (m.state.tables.groupNumberToGroupId.lookup group) sender receipt now
      { m with
        state := { m.state with receipts := taken.2 }
        log := m.log ++ taken.1.toList.map fun key => .forwarded key now }
    else m
  | none => m

/-- The next section of the handler the event thread is in. -/
def Machine.resume (crypto : Crypto) (outcome : Outcome) (now : Time) (m : Machine) : Option Machine :=
  let tables := m.state.tables
  match m.task with
  | .idle => none
  | .sync friend added =>
    let tables := tables.syncDropped
    match tables.missingMembers outcome.walk with
    | [] => some { m.setTables tables with task := .lookUp friend added }
    | missing => some { m.setTables tables with task := .hash friend added missing }
  | .hash friend added missing =>
    some { m.setTables (tables.syncAdded (missing.filterMap (digestOfMember crypto outcome.tox))) with
      task := .lookUp friend added }
  | .lookUp friend added => some (m.issueIdentityChallenges (tables.candidatesFor friend added))
  | .matchJoined member =>
    match outcome.tox.chatId member.1 with
    | none => some { m with task := .idle }
    | some chat =>
      let digest := groupIdentityDigest crypto chat member.2
      let tables := tables.indexJoined member digest
      some ((m.setTables tables).issueIdentityChallenges
        (tables.claimantsOf outcome.walk member digest))
  | .issue candidates prefixes sends => some (m.issueChallenge outcome now candidates prefixes sends)
  | .answer friend data recorded => some (m.answerChallenge crypto outcome friend data recorded)
  | .verify sender data arrived => some (m.verifyProof crypto outcome sender data arrived)
  | .forget member selfDisconnected =>
    some { m.setTables (tables.forgetMember member selfDisconnected) with task := .idle }

inductive Event
  /-- Callbacks of the event thread. -/
  | friendOffline (number : FriendNumber)
  | friendOnline (number : FriendNumber)
  | friendPacket (number : FriendNumber) (data : Bytes)
  | peerJoin (group : GroupNumber) (peer : PeerNumber)
  | peerMessage (group : GroupNumber) (peer : PeerNumber)
  | peerExit (group : GroupNumber) (peer : PeerNumber) (selfDisconnected : Bool)
  | proofPacket (group : GroupNumber) (peer : PeerNumber) (data : Bytes)
  | receiptPacket (group : GroupNumber) (peer : PeerNumber) (receipt : StrictGroupReceipt)
  /-- The next section of the handler that runs. -/
  | resume
  /-- Calls that may come from any thread. -/
  | purgeFriend (number : FriendNumber) (friend : Bytes)
  | erasePeer (member : GroupMember)
  | forgetGroup (group : GroupNumber)
  | mapGroup (group : GroupNumber) (groupId : Bytes)
  | unmapGroup (group : GroupNumber)

def Event.isCallback : Event → Bool
  | .friendOffline _ | .friendOnline _ | .friendPacket _ _ | .peerJoin _ _ | .peerMessage _ _
  | .peerExit _ _ _ | .proofPacket _ _ _ | .receiptPacket _ _ _ => true
  | _ => false

/-- Calls of other threads. -/
def Event.isCall : Event → Bool
  | .purgeFriend _ _ | .erasePeer _ | .forgetGroup _ | .mapGroup _ _ | .unmapGroup _ => true
  | _ => false

def Task.isIdle : Task → Bool
  | .idle => true
  | _ => false

def Machine.handle (crypto : Crypto) (outcome : Outcome) (now : Time) (m : Machine) :
    Event → Option Machine
  | .friendOffline number =>
    some (m.setTables (m.state.tables.noteFriendOffline number (outcome.tox.friendKey number)))
  | .friendOnline number => some (m.setTables (m.state.tables.noteFriendOnline number))
  | .friendPacket number data => some (m.handleGroupIdentityAnnouncement outcome now number data)
  | .peerJoin group peer =>
    match m.state.tables.groupNumberToGroupId.lookup group, outcome.tox.peerKey group peer with
    | some _, some key =>
      let tables := m.state.tables.cachePeer (group, key) peer
      some { m.setTables tables with
        task := if isConferenceMapKey group then .idle else .matchJoined (group, key) }
    | _, _ => some m
  | .peerMessage group peer =>
    match outcome.tox.peerKey group peer with
    | some key => some (m.setTables (m.state.tables.cachePeer (group, key) peer))
    | none => some m
  | .peerExit group peer selfDisconnected =>
    if group ∉ m.state.tables.groupNumberToGroupId then some m
    else
      let uncached := m.state.tables.uncachePeer outcome.walk group peer
      match uncached.1.or (outcome.tox.peerKey group peer) with
      | none => some (m.setTables uncached.2)
      | some key => some { m.setTables uncached.2 with task := .forget (group, key) selfDisconnected }
  | .proofPacket group peer data => some (m.handleGroupIdentityProof outcome now group peer data)
  | .receiptPacket group peer receipt => some (m.handleGroupReceipt outcome now group peer receipt)
  | .resume => m.resume crypto outcome now
  | .purgeFriend number friend =>
    some (m.setTables (m.state.tables.purgeFriendIdentityState number friend))
  | .erasePeer member => some (m.setTables (m.state.tables.erasePeerIdCacheEntry member))
  | .forgetGroup group =>
    some (m.setTables { m.state.tables with
      groupPeerIdCache := m.state.tables.groupPeerIdCache.erase group })
  | .mapGroup group groupId =>
    some (m.setTables { m.state.tables with
      groupNumberToGroupId := m.state.tables.groupNumberToGroupId.insert group groupId })
  | .unmapGroup group =>
    some (m.setTables { m.state.tables with
      groupNumberToGroupId := m.state.tables.groupNumberToGroupId.erase group })

/-- A step at a time that is not earlier than the last; callbacks find the
    event thread idle. -/
structure Input where
  now : Time
  outcome : Outcome
  event : Event

def step (crypto : Crypto) (m : Machine) (input : Input) : Option Machine :=
  if input.now < m.clock then none
  else if input.event.isCallback && !m.task.isIdle then none
  else (m.handle crypto input.outcome input.now input.event).map fun m =>
    { m with clock := input.now }

end Tim2Tox.Identity
