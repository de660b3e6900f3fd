import Tim2Tox.IdentityReplays
import Mathlib.Logic.Function.Basic

set_option autoImplicit false

/-!
# Nodes in a network

Any number of nodes run the handlers. Whoever holds another long-term key may
seal any text, and packets of any bytes come in at any time; what toxcore and
the boxes promise about them is named here.
-/
namespace Tim2Tox.Identity
open KeyedTables MirroredTables ReplayFilters LabelledRuns

/-- A box that was sealed: by whom, for whom, the packet payload and the text. -/
structure Sealing where
  sealer : Bytes
  peer : Bytes
  payload : Bytes
  plain : Bytes

/-- The proof a node seals for the answer it is at, as `answerChallenge` does. -/
def Machine.sealing (crypto : Crypto) (outcome : Outcome) (m : Machine) : Option Sealing :=
  match m.task with
  | .answer friend data _ =>
    match outcome.tox.groupByChatId (slice 0 keySize data) with
    | none => none
    | some group =>
      match (m.state.tables.resolveGroupPeerIdForKey outcome.tox (group, slice keySize keySize data)).1,
          outcome.tox.selfGroupKey group with
      | some _, some selfGroupKey =>
        (sealIdentityProof crypto outcome.tox.selfKey (slice 0 keySize data) (slice keySize keySize data)
          selfGroupKey (slice 64 kIdentityNonceSize data) friend outcome.boxNonce).map fun payload =>
            ⟨outcome.tox.selfKey, friend, payload, proofPlain (slice 0 keySize data)
              (slice keySize keySize data) selfGroupKey (slice 64 kIdentityNonceSize data) friend⟩
      | _, _ => none
  | _ => none

/-- A node answers with a packet exactly when it seals one. -/
theorem answerChallenge_sealing {crypto : Crypto} {outcome : Outcome} {m : Machine} {friend data : Bytes}
    {recorded : Time} (htask : m.task = .answer friend data recorded) :
    let m' := m.answerChallenge crypto outcome friend data recorded
    (m.sealing crypto outcome = none ∧ m'.log = m.log) ∨
      ∃ sealing group peer, m.sealing crypto outcome = some sealing ∧
        m'.log = m.log ++ [.answered (friend, slice 0 keySize data, slice 64 kIdentityNonceSize data)
          recorded group peer sealing.payload] := by
  unfold Machine.answerChallenge Machine.sealing
  rw [htask]
  dsimp only
  cases outcome.tox.groupByChatId (slice 0 keySize data) with
  | none => exact .inl ⟨rfl, rfl⟩
  | some group =>
    dsimp only
    generalize m.state.tables.resolveGroupPeerIdForKey outcome.tox (group, slice keySize keySize data) =
      resolved
    cases resolved.1 with
    | none => exact .inl ⟨rfl, rfl⟩
    | some peer =>
      cases outcome.tox.selfGroupKey group with
      | none => exact .inl ⟨rfl, rfl⟩
      | some selfGroupKey =>
        dsimp only
        cases sealIdentityProof crypto outcome.tox.selfKey (slice 0 keySize data)
            (slice keySize keySize data) selfGroupKey (slice 64 kIdentityNonceSize data) friend
            outcome.boxNonce with
        | none => exact .inl ⟨rfl, rfl⟩
        | some payload => exact .inr ⟨_, group, peer, rfl, rfl⟩

def Input.sealing (crypto : Crypto) (m : Machine) (input : Input) : Option Sealing :=
  match input.event with
  | .resume => m.sealing crypto input.outcome
  | _ => none

/-- The nodes: their long-term keys, and their own keys in the groups. -/
structure Network (ι : Type) where
  crypto : Crypto
  key : ι → Bytes
  groupKey : ι → (chat : Bytes) → (key : Bytes) → Prop

/-- The machines of the nodes, all boxes sealed so far, and the proofs the nodes sent. -/
structure World (ι : Type) where
  machines : ι → Machine := fun _ => {}
  sealings : List Sealing := []
  sent : List (ι × Bytes) := []

inductive Move (ι : Type)
  | node (n : ι) (input : Input)
  /-- Somebody else seals a box. -/
  | outsider (sealing : Sealing)

variable {ι : Type} [DecidableEq ι]

def World.step (net : Network ι) (w : World ι) : Move ι → Option (World ι)
  | .node n input => (Identity.step net.crypto (w.machines n) input).map fun m =>
    let sealing := input.sealing net.crypto (w.machines n)
    { machines := Function.update w.machines n m
      sealings := w.sealings ++ sealing.toList
      sent := w.sent ++ sealing.toList.map fun sealing => (n, sealing.payload) }
  | .outsider sealing => some { w with sealings := w.sealings ++ [sealing] }

/-! ## What toxcore and the boxes promise -/

/-- A new box is not the payload of an old one of another sealer. -/
def World.Fresh (w : World ι) (sealing : Sealing) : Prop :=
  ∀ old ∈ w.sealings, old.payload = sealing.payload → old.sealer = sealing.sealer

/-- The promises for a step of a node. -/
structure Promised (net : Network ι) (w : World ι) (n : ι) (input : Input) : Prop where
  /-- toxcore is the node's own. -/
  self : input.outcome.tox.selfKey = net.key n
  /-- No node is a friend of itself. -/
  friend : ∀ number data, input.event = .friendPacket number data →
    input.outcome.tox.friendKey number ≠ some (net.key n)
  /-- The key toxcore gives for us in a group is ours. -/
  ownKey : ∀ chat group key, input.outcome.tox.groupByChatId chat = some group →
    input.outcome.tox.selfGroupKey group = some key → net.groupKey n chat key
  /-- A proof in the envelope of a node's group key was sent by the node. -/
  envelope : ∀ group peer data key other chat, input.event = .proofPacket group peer data →
    input.outcome.tox.peerKey group peer = some key → net.groupKey other chat key →
      (other, data) ∈ w.sent
  /-- A box opens between two long-term keys only if a holder of one sealed it for the other. -/
  opens : ∀ sender data arrived, input.event = .resume →
    (w.machines n).task = .verify sender data arrived →
      ∀ entry ∈ (w.machines n).state.tables.pendingIdentityChallenges.entries, ∀ plain,
        net.crypto.decryptData entry.2.friend (net.key n) (data.take boxNonceSize)
          (data.drop boxNonceSize) = some plain →
        ∃ sealing ∈ w.sealings, sealing.payload = data ∧ sealing.plain = plain ∧
          ((sealing.sealer = entry.2.friend ∧ sealing.peer = net.key n) ∨
            (sealing.sealer = net.key n ∧ sealing.peer = entry.2.friend))
  /-- Nonces are fresh. -/
  fresh : ∀ sealing, input.sealing net.crypto (w.machines n) = some sealing → w.Fresh sealing

/-- The promises for a move: only the node itself seals with its long-term key. -/
def Trusted (net : Network ι) (w : World ι) : Move ι → Prop
  | .node n input => Promised net w n input
  | .outsider sealing => (∀ n, sealing.sealer ≠ net.key n) ∧ w.Fresh sealing

end Tim2Tox.Identity
