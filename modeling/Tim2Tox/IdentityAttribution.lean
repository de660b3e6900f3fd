import Tim2Tox.IdentityChallenges
import Tim2Tox.IdentityNetwork

set_option autoImplicit false

/-!
# Who a member key is attributed to

An accepted proof was sealed by the friend it is accepted for, and it names the
member as that friend's own key. Whoever relays, reflects or replays boxes gets
no key attributed that is not its own.
-/
namespace Tim2Tox.Identity
open KeyedTables MirroredTables ReplayFilters LabelledRuns

/-! ## The fields of a proof -/

theorem drop_eq_slice (offset count : ℕ) (bytes : Bytes) :
    bytes.drop offset = slice offset count bytes ++ bytes.drop (offset + count) := by
  unfold slice
  rw [← List.drop_drop]
  exact (List.take_append_drop count (bytes.drop offset)).symm

/-- An opened proof with the fields we asked for is the text the friend sealed. -/
theorem eq_proofPlain {chat selfGroupKey sender nonce self plain : Bytes}
    (hlength : plain.length = kIdentityProofPlainSize)
    (hbound : boundTo chat selfGroupKey sender nonce self plain = true) :
    plain = proofPlain chat selfGroupKey sender nonce self := by
  unfold boundTo at hbound
  simp only [Bool.and_eq_true, decide_eq_true_eq] at hbound
  obtain ⟨⟨⟨⟨⟨hdomain, hchat⟩, hself⟩, hsender⟩, hkey⟩, hnonce⟩ := hbound
  have hrest : plain.drop 160 = [] := List.drop_eq_nil_of_le (Nat.le_of_eq hlength)
  calc plain = plain.drop 0 := rfl
    _ = slice 0 16 plain ++ plain.drop 16 := drop_eq_slice 0 16 plain
    _ = slice 0 16 plain ++ (slice 16 32 plain ++ plain.drop 48) := by rw [drop_eq_slice 16 32 plain]
    _ = slice 0 16 plain ++ (slice 16 32 plain ++ (slice 48 32 plain ++ plain.drop 80)) := by
      rw [drop_eq_slice 48 32 plain]
    _ = slice 0 16 plain ++ (slice 16 32 plain ++ (slice 48 32 plain ++ (slice 80 32 plain ++
        plain.drop 112))) := by rw [drop_eq_slice 80 32 plain]
    _ = slice 0 16 plain ++ (slice 16 32 plain ++ (slice 48 32 plain ++ (slice 80 32 plain ++
        (slice 112 16 plain ++ plain.drop 128)))) := by rw [drop_eq_slice 112 16 plain]
    _ = slice 0 16 plain ++ (slice 16 32 plain ++ (slice 48 32 plain ++ (slice 80 32 plain ++
        (slice 112 16 plain ++ (slice 128 32 plain ++ plain.drop 160))))) := by
      rw [drop_eq_slice 128 32 plain]
    _ = proofPlain chat selfGroupKey sender nonce self := by
      rw [hrest, List.append_nil]
      change slice 16 32 plain = chat at hchat
      change slice 48 32 plain = selfGroupKey at hself
      change slice 80 32 plain = sender at hsender
      change slice 112 16 plain = nonce at hnonce
      change slice 128 32 plain = self at hkey
      rw [hdomain, hchat, hself, hsender, hnonce, hkey]
      rfl

theorem length_slice {offset count : ℕ} {bytes : Bytes} (h : offset + count ≤ bytes.length) :
    (slice offset count bytes).length = count := by
  unfold slice
  rw [List.length_take, List.length_drop]
  omega

/-- The fields of a proof have their sizes. -/
structure FieldSizes (chat asker responder nonce : Bytes) : Prop where
  chat : chat.length = keySize
  asker : asker.length = keySize
  responder : responder.length = keySize
  nonce : nonce.length = kIdentityNonceSize

theorem fieldSizes_of_boundTo {chat selfGroupKey sender nonce self plain : Bytes}
    (hlength : plain.length = kIdentityProofPlainSize)
    (hbound : boundTo chat selfGroupKey sender nonce self plain = true) :
    FieldSizes chat selfGroupKey sender nonce := by
  unfold boundTo at hbound
  simp only [Bool.and_eq_true, decide_eq_true_eq] at hbound
  obtain ⟨⟨⟨⟨⟨-, hchat⟩, hself⟩, hsender⟩, -⟩, hnonce⟩ := hbound
  have hfield : ∀ offset count, offset + count ≤ 160 → (slice offset count plain).length = count := by
    intro offset count h
    refine length_slice ?_
    rw [hlength]
    exact h
  refine ⟨?_, ?_, ?_, ?_⟩
  · rw [← hchat]
    exact hfield 16 32 (by decide)
  · rw [← hself]
    exact hfield 48 32 (by decide)
  · rw [← hsender]
    exact hfield 80 32 (by decide)
  · rw [← hnonce]
    exact hfield 112 16 (by decide)

/-- Proofs with fields of one size are the same only when all fields are. -/
theorem proofPlain_inj {chat chat' asker asker' responder responder' nonce nonce' key key' : Bytes}
    (hs : FieldSizes chat asker responder nonce) (hs' : FieldSizes chat' asker' responder' nonce')
    (h : proofPlain chat asker responder nonce key = proofPlain chat' asker' responder' nonce' key') :
    chat = chat' ∧ responder = responder' ∧ key = key' := by
  unfold proofPlain at h
  obtain ⟨-, h⟩ := List.append_inj h rfl
  obtain ⟨hc, h⟩ := List.append_inj h (hs.chat.trans hs'.chat.symm)
  obtain ⟨-, h⟩ := List.append_inj h (hs.asker.trans hs'.asker.symm)
  obtain ⟨hr, h⟩ := List.append_inj h (hs.responder.trans hs'.responder.symm)
  exact ⟨hc, hr, (List.append_inj h (hs.nonce.trans hs'.nonce.symm)).2⟩

/-! ## What the verifier accepts -/

variable {crypto : Crypto} {now : Time} {t t' : IdentityTables}

theorem verifyProof_accepted {walk : Iteration} {self chat selfGroupKey data friend : Bytes}
    {sender : GroupMember}
    (h : (t.verifyProof crypto walk self chat selfGroupKey sender data now).1 = some friend) :
    ∃ nonce challenge, t.pendingIdentityChallenges.lookup nonce = some challenge ∧
      challenge.friend = friend ∧ challengesOfMember sender now challenge = true ∧
      friend ∈ t.claims.owners (groupIdentityDigest crypto chat sender.2) ∧
      proves crypto self chat selfGroupKey sender.2 data nonce friend = true := by
  unfold IdentityTables.verifyProof at h
  dsimp only at h
  split_ifs at h
  split at h
  · cases h
  · rename_i candidate hfound
    cases h
    have hproves := List.find?_some (p := fun candidate : Bytes × Bytes =>
      proves crypto self chat selfGroupKey sender.2 data candidate.1 candidate.2) hfound
    obtain ⟨entry, hentry, hcandidate⟩ :=
      List.mem_map.mp (List.mem_of_mem_take (List.mem_of_find?_eq_some hfound))
    obtain ⟨hmem, hmember⟩ := List.mem_filter.mp hentry
    have hpending := walk.mem_order.mp hmem
    obtain ⟨hkept, hclaimed⟩ := mem_entries_eraseIf.mp hpending
    have hlookup := lookup_of_mem_entries hkept
    change (entry.2.about sender && !decide (entry.2.friend ∈ _)) = false at hclaimed
    rw [(Bool.and_eq_true_iff.mp hmember).2, Bool.true_and, Bool.not_eq_false', decide_eq_true_eq]
      at hclaimed
    rw [← hcandidate] at hproves ⊢
    exact ⟨entry.1, entry.2, hlookup, rfl, hmember, hclaimed, hproves⟩

/-- Nothing is proven that was not before. -/
def NoMoreProven (before after : IdentityTables) : Prop :=
  ∀ key proven, after.memberKeyToFriend.lookup key = some proven →
    before.memberKeyToFriend.lookup key = some proven

theorem NoMoreProven.trans {t₁ t₂ t₃ : IdentityTables} (h : NoMoreProven t₁ t₂) (h' : NoMoreProven t₂ t₃) :
    NoMoreProven t₁ t₃ := fun key proven hlookup => h key proven (h' key proven hlookup)

theorem noMoreProven_eraseProven (key : Bytes) (t : IdentityTables) : NoMoreProven t (t.eraseProven key) := by
  intro other proven hlookup
  by_cases hother : other = key
  · change (t.memberKeyToFriend.erase key).lookup other = _ at hlookup
    rw [hother, AList.lookup_erase] at hlookup
    cases hlookup
  · change (t.memberKeyToFriend.erase key).lookup other = _ at hlookup
    rw [AList.lookup_erase_ne hother] at hlookup
    exact hlookup

/-- An accepted proof adds its own entry at most. -/
theorem acceptProof_proven (walk : Iteration) (sender : GroupMember) (friend : Bytes) (arrived : Time)
    (t : IdentityTables) {key : Bytes} {proven : ProvenGroupMember}
    (h : (t.acceptProof walk sender friend arrived).memberKeyToFriend.lookup key = some proven) :
    t.memberKeyToFriend.lookup key = some proven ∨
      (key = sender.2 ∧ proven = ⟨friend, sender.1, arrived⟩) := by
  have hinsert : ∀ u : IdentityTables, NoMoreProven t u →
      (u.addProven sender friend arrived).memberKeyToFriend.lookup key = some proven →
      t.memberKeyToFriend.lookup key = some proven ∨
        (key = sender.2 ∧ proven = ⟨friend, sender.1, arrived⟩) := by
    intro u hu hlookup
    change (u.memberKeyToFriend.insert sender.2 _).lookup key = _ at hlookup
    by_cases hkey : key = sender.2
    · rw [hkey, AList.lookup_insert] at hlookup
      exact .inr ⟨hkey, (Option.some.inj hlookup).symm⟩
    · rw [AList.lookup_insert_ne hkey] at hlookup
      exact .inl (hu key proven hlookup)
  unfold IdentityTables.acceptProof at h
  dsimp only at h
  split_ifs at h
  · refine hinsert _ ?_ h
    obtain hsame | ⟨oldest, hevicted⟩ := evictOldestProven_cases walk
      { t with diag := { t.diag with proofsAccepted := t.diag.proofsAccepted + 1 } }
    · rw [hsame]
      exact fun _ _ hlookup => hlookup
    · rw [hevicted]
      exact noMoreProven_eraseProven oldest _
  · exact hinsert { t with diag := { t.diag with proofsAccepted := t.diag.proofsAccepted + 1 } }
      (fun _ _ hlookup => hlookup) h

theorem verifyProof_proven (walk : Iteration) (self chat selfGroupKey data : Bytes) (sender : GroupMember)
    (now : Time) (t : IdentityTables) {key : Bytes} {proven : ProvenGroupMember}
    (h : (t.verifyProof crypto walk self chat selfGroupKey sender data now).2.memberKeyToFriend.lookup key =
      some proven) :
    t.memberKeyToFriend.lookup key = some proven ∨
      ((t.verifyProof crypto walk self chat selfGroupKey sender data now).1 = some proven.friend ∧
        key = sender.2 ∧ proven = ⟨proven.friend, sender.1, now⟩) := by
  unfold IdentityTables.verifyProof at h ⊢
  dsimp only at h ⊢
  split_ifs at h ⊢
  · exact .inl h
  · exact .inl h
  · split at h
    · exact .inl h
    · rename_i candidate hfound
      obtain hold | ⟨hkey, hproven⟩ := acceptProof_proven walk sender candidate.2 now _ h
      · exact .inl hold
      · rw [hproven]
        exact .inr ⟨rfl, hkey, rfl⟩

/-- The grounds of a step that verifies no proof. -/
def Grounds.unproved : Grounds := ⟨fun _ _ _ _ => False, fun _ => True, fun _ => True, fun _ => True⟩

theorem Edits.noMoreProven (h : Edits now Grounds.unproved t t') : NoMoreProven t t' := by
  refine h.keep (I := fun u => NoMoreProven t u) (fun u u' hu hedit => hu.trans ?_)
    fun _ _ hlookup => hlookup
  cases hedit with
  | other untouched =>
    intro key proven hlookup
    rw [untouched.proven] at hlookup
    exact hlookup
  | claim walk friend digest unknown room hints =>
    intro key proven hlookup
    change (u.makeRoomForClaim walk friend).memberKeyToFriend.lookup key = _ at hlookup
    rw [(makeRoomForClaim_frame walk friend u).proven] at hlookup
    exact hlookup
  | register walk nonce candidate unproven fresh friendRoom memberRoom =>
    obtain hroom | ⟨oldest, hroom⟩ := roomForChallenge_cases walk u
    · rw [hroom]
      exact fun _ _ hlookup => hlookup
    · rw [hroom]
      exact fun _ _ hlookup => hlookup
  | dropProven test => exact fun _ _ hlookup => (lookup_eraseIf_eq_some.mp hlookup).1
  | eraseProven key => exact noMoreProven_eraseProven key u
  | prove walk sender nonce friend arrived pending opened => exact absurd opened id
  | _ => exact fun _ _ hlookup => hlookup

/-- What there is to say of a machine that accepts a proof in a section. -/
structure Accepts (crypto : Crypto) (m : Machine) (outcome : Outcome) (key : Bytes)
    (proven : ProvenGroupMember) (data chat selfGroupKey nonce : Bytes)
    (challenge : PendingIdentityChallenge) : Prop where
  task : m.task = .verify (proven.groupNumber, key) data proven.provenAt
  inChat : outcome.tox.chatId proven.groupNumber = some chat
  ownKey : outcome.tox.selfGroupKey proven.groupNumber = some selfGroupKey
  pending : m.state.tables.pendingIdentityChallenges.lookup nonce = some challenge
  friend : challenge.friend = proven.friend
  member : challengesOfMember (proven.groupNumber, key) proven.provenAt challenge = true
  claimed : proven.friend ∈ m.state.tables.claims.owners (groupIdentityDigest crypto chat key)
  proves : proves crypto outcome.tox.selfKey chat selfGroupKey key data nonce proven.friend = true

theorem Event.cases_thread (event : Event) :
    event.isCallback = true ∨ event.isCall = true ∨ event = .resume := by
  cases event with
  | resume => exact .inr (.inr rfl)
  | _ => first | exact .inl rfl | exact .inr (.inl rfl)

/-- A key is proven after a step if it was before, or if the step accepts its proof. -/
theorem proven_step {m m' : Machine} {input : Input} (h : step crypto m input = some m') {key : Bytes}
    {proven : ProvenGroupMember} (hlookup : m'.state.tables.memberKeyToFriend.lookup key = some proven) :
    m.state.tables.memberKeyToFriend.lookup key = some proven ∨
      (input.event = .resume ∧
        m'.log = m.log ++ [.accepted (proven.groupNumber, key) proven.friend proven.provenAt] ∧
        ∃ data chat selfGroupKey nonce challenge,
          Accepts crypto m input.outcome key proven data chat selfGroupKey nonce challenge) := by
  obtain ⟨-, hidle, u, hu, rfl⟩ := step_cases h
  by_cases hverify : input.event = .resume ∧ ∃ sender data arrived, m.task = .verify sender data arrived
  · obtain ⟨hevent, sender, data, arrived, htask⟩ := hverify
    rw [hevent] at hu
    have hresume : m.resume crypto input.outcome input.now =
        some (m.verifyProof crypto input.outcome sender data arrived) := by
      unfold Machine.resume
      rw [htask]
    change m.resume crypto input.outcome input.now = some u at hu
    obtain rfl := Option.some.inj (hresume.symm.trans hu)
    unfold Machine.verifyProof at hlookup ⊢
    dsimp only at hlookup ⊢
    split at hlookup
    · rename_i chat selfGroupKey hchat hself
      obtain hold | ⟨haccepted, hkey, hproven⟩ := verifyProof_proven _ _ _ _ _ _ _ _ hlookup
      · exact .inl hold
      · obtain ⟨nonce, challenge, hpending, hfriend, hmember, hclaimed, hproves⟩ :=
          verifyProof_accepted haccepted
        have hgroup : proven.groupNumber = sender.1 := congrArg ProvenGroupMember.groupNumber hproven
        have hat : proven.provenAt = arrived := congrArg ProvenGroupMember.provenAt hproven
        have hsender : (proven.groupNumber, key) = sender := by rw [hgroup, hkey]
        refine .inr ⟨hevent, ?_, data, chat, selfGroupKey, nonce, challenge, ?_⟩
        · rw [hsender, hat]
          exact congrArg (fun accepted : Option Bytes => m.log ++ accepted.toList.map fun friend =>
            Output.accepted sender friend arrived) haccepted
        · refine ⟨?_, ?_, ?_, hpending, hfriend, ?_, ?_, ?_⟩
          · rw [hsender, hat]
            exact htask
          · rw [hgroup]
            exact hchat
          · rw [hgroup]
            exact hself
          · rw [hsender, hat]
            exact hmember
          · rw [hkey]
            exact hclaimed
          · rw [hkey]
            exact hproves
    · exact .inl hlookup
  · refine .inl ?_
    by_cases hcall : input.event.isCall = true
    · obtain ⟨-, -, -, hedits⟩ := call_cases Grounds.unproved hcall hu
      exact (hedits input.now).noMoreProven key proven hlookup
    · have hgrants : m.Grants crypto input.outcome input.now input.event Grounds.unproved := by
        refine ⟨fun sender arrived nonce friend hverifies => ?_, fun _ _ _ _ => trivial,
          fun _ _ _ _ _ => trivial, fun _ _ _ _ _ _ _ _ => trivial⟩
        obtain ⟨data, chat, selfGroupKey, htask, -⟩ := hverifies
        obtain hcallback | hcall' | hresume := input.event.cases_thread
        · have hbusy := hidle hcallback
          rw [htask] at hbusy
          cases hbusy
        · exact hcall hcall'
        · exact hverify ⟨hresume, sender, data, arrived, htask⟩
      have hedits := edits_handle hgrants hu
      exact hedits.noMoreProven key proven hlookup

/-! ## What a node answers and verifies -/

/-- A challenge comes to the answer with a body of its size, from the friend that sent it. -/
theorem answer_origin {m m' : Machine} {input : Input} (h : step crypto m input = some m')
    {friend data : Bytes} {recorded : Time} (htask : m'.task = .answer friend data recorded) :
    m.task = .answer friend data recorded ∨
      ∃ number packet, input.event = .friendPacket number packet ∧
        input.outcome.tox.friendKey number = some friend ∧
        data.length = keySize + keySize + kIdentityNonceSize := by
  obtain ⟨-, hcallback, u, hu, rfl⟩ := step_cases h
  have hidle : input.event.isCallback = true → m.task = .idle := fun hevent =>
    (isIdle_iff m.task).mp (hcallback hevent)
  by_cases hframe : ∃ number packet, input.event = .friendPacket number packet
  · obtain ⟨number, packet, hevent⟩ := hframe
    rw [hevent] at hu
    cases hu
    refine .inr ⟨number, packet, hevent, ?_⟩
    have hm := hidle (by rw [hevent]; rfl)
    unfold Machine.handleGroupIdentityAnnouncement at htask
    split at htask
    · rename_i hfriend
      dsimp only at htask
      split_ifs at htask with hsubtype hlength
      · cases htask
        exact ⟨hfriend, hlength⟩
      · exact absurd (hm.symm.trans htask) fun h => nomatch h
      · exact absurd (hm.symm.trans htask) fun h => nomatch h
      · exact absurd (hm.symm.trans htask) fun h => nomatch h
    · exact absurd (hm.symm.trans htask) fun h => nomatch h
  by_cases hreceipt : ∃ group peer receipt, input.event = .receiptPacket group peer receipt
  · obtain ⟨group, peer, receipt, hevent⟩ := hreceipt
    rw [hevent] at hu
    cases hu
    have hm := hidle (by rw [hevent]; rfl)
    unfold Machine.handleGroupReceipt at htask
    split at htask
    · split_ifs at htask
      · exact absurd (hm.symm.trans htask) fun h => nomatch h
      · exact absurd (hm.symm.trans htask) fun h => nomatch h
    · exact absurd (hm.symm.trans htask) fun h => nomatch h
  obtain ⟨hquiet, -⟩ := handle_quiet (fun number data hevent => hframe ⟨number, data, hevent⟩)
    (fun group peer receipt hevent => hreceipt ⟨group, peer, receipt, hevent⟩) hidle hu
  cases hquiet with
  | same task log => exact .inl (task.symm.trans htask)
  | silent task more log quiet => exact absurd htask (task friend data recorded)
  | answer task friend data recorded answering group peer payload log =>
    exact absurd (task.symm.trans htask) fun h => nomatch h

theorem verify_origin {m m' : Machine} {input : Input} (h : step crypto m input = some m')
    {sender : GroupMember} {data : Bytes} {arrived : Time}
    (htask : m'.task = .verify sender data arrived) :
    m.task = .verify sender data arrived ∨
      ∃ group peer key, input.event = .proofPacket group peer data ∧
        input.outcome.tox.peerKey group peer = some key ∧ sender = (group, key) := by
  obtain ⟨-, hidle, u, hu, rfl⟩ := step_cases h
  by_cases hcall : input.event.isCall = true
  · obtain ⟨hsame, -⟩ := call_cases Grounds.any hcall hu
    exact .inl (hsame.symm.trans htask)
  · exact .inr (verify_task (Bool.eq_false_iff.mpr hcall) hidle hu htask).2

/-! ## The boxes of honest nodes -/

theorem sealing_spec {outcome : Outcome} {m : Machine} {sealing : Sealing}
    (h : m.sealing crypto outcome = some sealing) :
    ∃ friend data recorded group responder, m.task = .answer friend data recorded ∧
      outcome.tox.groupByChatId (slice 0 keySize data) = some group ∧
      outcome.tox.selfGroupKey group = some responder ∧
      sealing.sealer = outcome.tox.selfKey ∧ sealing.peer = friend ∧
      sealing.plain = proofPlain (slice 0 keySize data) (slice keySize keySize data) responder
        (slice 64 kIdentityNonceSize data) friend := by
  unfold Machine.sealing at h
  split at h
  · rename_i friend data recorded htask
    split at h
    · cases h
    · rename_i group hgroup
      split at h
      · rename_i peer responder hpeer hresponder
        obtain ⟨payload, -, rfl⟩ := Option.map_eq_some_iff.mp h
        exact ⟨friend, data, recorded, group, responder, htask, hgroup, hresponder, rfl, rfl, rfl⟩
      · cases h
  · cases h

variable {ι : Type} {net : Network ι} {w w' : World ι}

/-- The box of a node: a proof with an own key of the node, for somebody else. -/
structure OwnProof (net : Network ι) (n : ι) (sealing : Sealing) : Prop where
  other : sealing.peer ≠ net.key n
  names : ∃ chat asker responder nonce, FieldSizes chat asker responder nonce ∧
    net.groupKey n chat responder ∧
    sealing.plain = proofPlain chat asker responder nonce sealing.peer

/-- What holds of the nodes and the boxes at any time. -/
structure World.Honest (net : Network ι) (w : World ι) : Prop where
  answers : ∀ n friend data recorded, (w.machines n).task = .answer friend data recorded →
    friend ≠ net.key n ∧ data.length = keySize + keySize + kIdentityNonceSize
  verifies : ∀ n sender data arrived, (w.machines n).task = .verify sender data arrived →
    ∀ other chat, net.groupKey other chat sender.2 → (other, data) ∈ w.sent
  boxes : ∀ sealing ∈ w.sealings, ∀ n, sealing.sealer = net.key n → OwnProof net n sealing
  sent : ∀ entry ∈ w.sent, ∃ sealing ∈ w.sealings,
    sealing.sealer = net.key entry.1 ∧ sealing.payload = entry.2
  unique : ∀ sealing ∈ w.sealings, ∀ other ∈ w.sealings, sealing.payload = other.payload →
    sealing.sealer = other.sealer

theorem honest_start : ({} : World ι).Honest net where
  answers := fun _ _ _ _ h => nomatch h
  verifies := fun _ _ _ _ h => nomatch h
  boxes := fun _ h => absurd h List.not_mem_nil
  sent := fun _ h => absurd h List.not_mem_nil
  unique := fun _ h => absurd h List.not_mem_nil

theorem ownProof_of_sealing {n : ι} {input : Input} {sealing : Sealing} (hw : w.Honest net)
    (hpromised : Promised net w n input)
    (h : input.sealing net.crypto (w.machines n) = some sealing) :
    sealing.sealer = net.key n ∧ OwnProof net n sealing := by
  unfold Input.sealing at h
  split at h
  · obtain ⟨friend, data, recorded, group, responder, htask, hgroup, hresponder, hsealer, hpeer, hplain⟩ :=
      sealing_spec h
    obtain ⟨hfriend, hlength⟩ := hw.answers n friend data recorded htask
    have hfield : ∀ offset count, offset + count ≤ 80 → (slice offset count data).length = count := by
      intro offset count hle
      refine length_slice ?_
      rw [hlength]
      exact hle
    refine ⟨hsealer.trans hpromised.self, ?_, ?_⟩
    · rw [hpeer]
      exact hfriend
    · refine ⟨slice 0 keySize data, slice keySize keySize data, responder,
        slice 64 kIdentityNonceSize data, ⟨?_, ?_, ?_, ?_⟩, ?_, ?_⟩
      · exact hfield 0 32 (by decide)
      · exact hfield 32 32 (by decide)
      · exact input.outcome.tox.selfGroupKey_length group responder hresponder
      · exact hfield 64 16 (by decide)
      · exact hpromised.ownKey _ group responder hgroup hresponder
      · rw [hpeer]
        exact hplain
  · cases h

theorem fresh_unique {sealings : List Sealing} {sealing : Sealing}
    (hunique : ∀ old ∈ sealings, ∀ other ∈ sealings, old.payload = other.payload →
      old.sealer = other.sealer)
    (hfresh : ∀ old ∈ sealings, old.payload = sealing.payload → old.sealer = sealing.sealer) :
    ∀ old ∈ sealings ++ [sealing], ∀ other ∈ sealings ++ [sealing], old.payload = other.payload →
      old.sealer = other.sealer := by
  intro old hold other hother hpayload
  obtain hold | hnew := List.mem_append.mp hold
  · obtain hother | hnew' := List.mem_append.mp hother
    · exact hunique old hold other hother hpayload
    · rw [List.mem_singleton.mp hnew'] at hpayload ⊢
      exact hfresh old hold hpayload
  · rw [List.mem_singleton.mp hnew] at hpayload ⊢
    obtain hother | hnew' := List.mem_append.mp hother
    · exact (hfresh other hother hpayload.symm).symm
    · rw [List.mem_singleton.mp hnew']

variable [DecidableEq ι]

theorem World.step_node {n : ι} {input : Input} (h : w.step net (.node n input) = some w') :
    ∃ m, Identity.step net.crypto (w.machines n) input = some m ∧
      w'.machines = Function.update w.machines n m ∧
      w'.sealings = w.sealings ++ (input.sealing net.crypto (w.machines n)).toList ∧
      w'.sent = w.sent ++ (input.sealing net.crypto (w.machines n)).toList.map fun sealing =>
        (n, sealing.payload) := by
  obtain ⟨m, hm, rfl⟩ := Option.map_eq_some_iff.mp h
  exact ⟨m, hm, rfl, rfl, rfl⟩

/-- A step of a node: its boxes are its own proofs, and its envelopes what it sent. -/
theorem honest_node {n : ι} {input : Input} (hkey : Function.Injective net.key) (hw : w.Honest net)
    (hpromised : Promised net w n input) (h : w.step net (.node n input) = some w') :
    w'.Honest net := by
  obtain ⟨m, hm, hmachines, hsealings, hsent⟩ := World.step_node h
  have hmachine : ∀ other, other ≠ n → w'.machines other = w.machines other := by
    intro other hother
    rw [hmachines]
    exact Function.update_of_ne hother m w.machines
  have hself : w'.machines n = m := by
    rw [hmachines]
    exact Function.update_self n m w.machines
  have holdSent : ∀ entry ∈ w.sent, entry ∈ w'.sent := by
    intro entry hentry
    rw [hsent]
    exact List.mem_append_left _ hentry
  refine ⟨?_, ?_, ?_, ?_, ?_⟩
  · intro other friend data recorded htask
    by_cases hother : other = n
    · rw [hother] at htask ⊢
      rw [hself] at htask
      obtain hold | ⟨number, packet, hevent, hfriend, hlength⟩ := answer_origin hm htask
      · exact hw.answers n friend data recorded hold
      · refine ⟨fun heq => hpromised.friend number packet hevent ?_, hlength⟩
        rw [hfriend, heq]
    · rw [hmachine other hother] at htask
      exact hw.answers other friend data recorded htask
  · intro node sender data arrived htask other chat hown
    by_cases hnode : node = n
    · rw [hnode, hself] at htask
      obtain hold | ⟨group, peer, key, hevent, hpeer, hsender⟩ := verify_origin hm htask
      · exact holdSent _ (hw.verifies n sender data arrived hold other chat hown)
      · rw [hsender] at hown
        exact holdSent _ (hpromised.envelope group peer data key other chat hevent hpeer hown)
    · rw [hmachine node hnode] at htask
      exact holdSent _ (hw.verifies node sender data arrived htask other chat hown)
  · intro sealing hsealing other hsealer
    rw [hsealings] at hsealing
    obtain hold | hnew := List.mem_append.mp hsealing
    · exact hw.boxes sealing hold other hsealer
    · obtain ⟨hown, hproof⟩ := ownProof_of_sealing hw hpromised (Option.mem_toList.mp hnew)
      rw [← hkey (hown.symm.trans hsealer)]
      exact hproof
  · intro entry hentry
    rw [hsent] at hentry
    rw [hsealings]
    obtain hold | hnew := List.mem_append.mp hentry
    · obtain ⟨sealing, hmem, hsealer, hpayload⟩ := hw.sent entry hold
      exact ⟨sealing, List.mem_append_left _ hmem, hsealer, hpayload⟩
    · obtain ⟨sealing, hmem, rfl⟩ := List.mem_map.mp hnew
      obtain ⟨hown, -⟩ := ownProof_of_sealing hw hpromised (Option.mem_toList.mp hmem)
      exact ⟨sealing, List.mem_append_right _ hmem, hown, rfl⟩
  · rw [hsealings]
    cases hnew : input.sealing net.crypto (w.machines n) with
    | none =>
      rw [Option.toList_none, List.append_nil]
      exact hw.unique
    | some sealing => exact fresh_unique hw.unique (hpromised.fresh sealing hnew)

theorem honest_step (hkey : Function.Injective net.key) {move : Move ι} (hw : w.Honest net)
    (htrusted : Trusted net w move) (h : w.step net move = some w') : w'.Honest net := by
  cases move with
  | node n input => exact honest_node hkey hw htrusted h
  | outsider sealing =>
    cases h
    obtain ⟨hforeign, hfresh⟩ := htrusted
    refine ⟨hw.answers, hw.verifies, ?_, ?_, fresh_unique hw.unique hfresh⟩
    · intro old hold n hsealer
      obtain hold | hnew := List.mem_append.mp hold
      · exact hw.boxes old hold n hsealer
      · rw [List.mem_singleton.mp hnew] at hsealer
        exact absurd hsealer (hforeign n)
    · intro entry hentry
      obtain ⟨old, hmem, hold⟩ := hw.sent entry hentry
      exact ⟨old, List.mem_append_left _ hmem, hold⟩

/-! ## Attribution -/

/-- Why a node maps a member key to a friend: in some step of the run it accepted
    a proof with a challenge of the friend pending, and the box was sealed by the
    holder of the friend's key and names the member key as the holder's own. -/
def Attributed (net : Network ι) (moves : List (Move ι)) (n : ι) (key : Bytes)
    (proven : ProvenGroupMember) : Prop :=
  ∃ before input after w m data chat selfGroupKey nonce challenge sealing,
    moves = before ++ .node n input :: after ∧ exec (World.step net) {} before = some w ∧
    Identity.step net.crypto (w.machines n) input = some m ∧
    m.log = (w.machines n).log ++
      [.accepted (proven.groupNumber, key) proven.friend proven.provenAt] ∧
    Accepts net.crypto (w.machines n) input.outcome key proven data chat selfGroupKey nonce challenge ∧
    sealing ∈ w.sealings ∧ sealing.payload = data ∧ sealing.sealer = proven.friend ∧
    sealing.peer = net.key n ∧ sealing.plain = proofPlain chat selfGroupKey key nonce (net.key n) ∧
    (∀ other chat', net.groupKey other chat' key → proven.friend = net.key other) ∧
    ∀ other, proven.friend = net.key other → net.groupKey other chat key

theorem attributed_of_accepts {before : List (Move ι)} {n : ι} {input : Input} {m : Machine} {key : Bytes}
    {proven : ProvenGroupMember} {data chat selfGroupKey nonce : Bytes}
    {challenge : PendingIdentityChallenge} (hw : w.Honest net) (hpromised : Promised net w n input)
    (hrun : exec (World.step net) {} before = some w) (hevent : input.event = .resume)
    (hstep : Identity.step net.crypto (w.machines n) input = some m)
    (hlog : m.log = (w.machines n).log ++
      [.accepted (proven.groupNumber, key) proven.friend proven.provenAt])
    (haccepts : Accepts net.crypto (w.machines n) input.outcome key proven data chat selfGroupKey nonce
      challenge) : Attributed net (before ++ [.node n input]) n key proven := by
  have hproves := haccepts.proves
  unfold proves at hproves
  rw [hpromised.self] at hproves
  split at hproves
  · cases hproves
  · rename_i plain hplain
    rw [Bool.and_eq_true, decide_eq_true_eq] at hproves
    obtain ⟨hlength, hbound⟩ := hproves
    have hsizes := fieldSizes_of_boundTo hlength hbound
    have htext := eq_proofPlain hlength hbound
    have hentry := mem_entries_of_lookup haccepts.pending
    rw [← haccepts.friend] at hplain
    obtain ⟨sealing, hsealing, hpayload, hsealed, hwho⟩ :=
      hpromised.opens _ data _ hevent haccepts.task _ hentry plain hplain
    rw [htext] at hsealed
    -- a box of our own that comes back is for somebody else than us
    have hsealer : sealing.sealer = proven.friend ∧ sealing.peer = net.key n := by
      obtain ⟨hsealer, hpeer⟩ | ⟨hsealer, hpeer⟩ := hwho
      · exact ⟨hsealer.trans haccepts.friend, hpeer⟩
      · have hown := hw.boxes sealing hsealing n hsealer
        obtain ⟨chat', asker, responder, nonce', hsizes', -, hnames⟩ := hown.names
        have hsame := (proofPlain_inj hsizes' hsizes (hnames.symm.trans hsealed)).2.2
        exact absurd hsame hown.other
    refine ⟨before, input, [], w, m, data, chat, selfGroupKey, nonce, challenge, sealing, rfl, hrun, hstep,
      hlog, haccepts, hsealing, hpayload, hsealer.1, hsealer.2, hsealed, ?_, ?_⟩
    · intro other chat' hown
      obtain ⟨sent, hmem, hsender, hdata⟩ :=
        hw.sent _ (hw.verifies n _ data _ haccepts.task other chat' hown)
      have hsame := hw.unique sealing hsealing sent hmem (hpayload.trans hdata.symm)
      exact hsealer.1.symm.trans (hsame.trans hsender)
    · intro other hfriend
      have hown := hw.boxes sealing hsealing other (hsealer.1.trans hfriend)
      obtain ⟨chat', asker, responder, nonce', hsizes', hgroupKey, hnames⟩ := hown.names
      obtain ⟨hchat, hkey, -⟩ := proofPlain_inj hsizes' hsizes (hnames.symm.trans hsealed)
      rw [hchat, hkey] at hgroupKey
      exact hgroupKey

theorem attributed_append {moves : List (Move ι)} {n : ι} {key : Bytes} {proven : ProvenGroupMember}
    (h : Attributed net moves n key proven) (move : Move ι) :
    Attributed net (moves ++ [move]) n key proven := by
  obtain ⟨before, input, after, w, m, data, chat, selfGroupKey, nonce, challenge, sealing, rfl, hrest⟩ := h
  refine ⟨before, input, after ++ [move], w, m, data, chat, selfGroupKey, nonce, challenge, sealing, ?_,
    hrest⟩
  rw [List.append_assoc, List.cons_append]

theorem honest_run (hkey : Function.Injective net.key) {moves : List (Move ι)}
    (hm : Meets (World.step net) (Trusted net) {} moves)
    (hr : exec (World.step net) {} moves = some w) : w.Honest net :=
  invariant_of_meets (fun _ _ _ hw htrusted h => honest_step hkey hw htrusted h) honest_start hm hr

theorem attributed_run (hkey : Function.Injective net.key) {moves : List (Move ι)} :
    ∀ {w : World ι}, Meets (World.step net) (Trusted net) {} moves →
      exec (World.step net) {} moves = some w →
      ∀ n key proven, (w.machines n).state.tables.memberKeyToFriend.lookup key = some proven →
        Attributed net moves n key proven := by
  induction moves using List.reverseRecOn with
  | nil =>
    intro w _ hr n key proven hlookup
    cases hr
    cases hlookup
  | append_singleton moves move ih =>
    intro w hm hr n key proven hlookup
    obtain ⟨u, hu, hlast⟩ := exec_append.mp hr
    obtain ⟨hbefore, htrusted, -⟩ := meets_append hm hu
    obtain ⟨w', hstep, hend⟩ := exec_cons.mp hlast
    cases hend
    have hu' := honest_run hkey hbefore hu
    cases move with
    | outsider sealing =>
      cases hstep
      exact attributed_append (ih hbefore hu n key proven hlookup) _
    | node other input =>
      obtain ⟨m, hmachine, hmachines, -, -⟩ := World.step_node hstep
      rw [hmachines] at hlookup
      by_cases hother : n = other
      · rw [hother] at hlookup ⊢
        rw [Function.update_self] at hlookup
        obtain hold | ⟨hevent, hlog, data, chat, selfGroupKey, nonce, challenge, haccepts⟩ :=
          proven_step hmachine hlookup
        · exact attributed_append (ih hbefore hu other key proven hold) _
        · exact attributed_of_accepts hu' htrusted hu hevent hmachine hlog haccepts
      · rw [Function.update_of_ne hother] at hlookup
        exact attributed_append (ih hbefore hu n key proven hlookup) _

/-! ## Friends that are deleted -/

/-- The friend claims no member, and no key is attributed to it. -/
structure Purged (friend : Bytes) (t : IdentityTables) : Prop where
  unclaimed : ∀ digest, digest ∉ t.claims.items friend
  unproven : ∀ key proven, t.memberKeyToFriend.lookup key = some proven → proven.friend ≠ friend

theorem Edits.unclaimed {friend : Bytes} (ht : t.Indexed)
    (hedits : Edits now ⟨fun _ _ _ _ => True, fun _ => True, fun _ => True, fun other => other ≠ friend⟩
      t t') (h : ∀ digest, digest ∉ t.claims.items friend) : ∀ digest, digest ∉ t'.claims.items friend := by
  refine (hedits.keep (I := fun u => u.Indexed ∧ ∀ digest, digest ∉ u.claims.items friend) ?_ ⟨ht, h⟩).2
  intro u u' hu hedit
  refine ⟨hedit.indexed hu.1, fun digest hmem => ?_⟩
  cases hedit with
  | other untouched =>
    rw [untouched.claims] at hmem
    exact hu.2 digest hmem
  | unlink owner gone => exact hu.2 digest (Mirror.mem_items_unlink hmem)
  | unlinkAll owner =>
    change digest ∈ (u.claims.unlinkAll owner).items friend at hmem
    rw [Mirror.items_unlinkAll] at hmem
    split_ifs at hmem
    · exact AList.notMem_empty digest hmem
    · exact hu.2 digest hmem
  | refresh owner again known =>
    change digest ∈ (u.claims.refresh owner again now).items friend at hmem
    rw [Mirror.items_refresh] at hmem
    split_ifs at hmem with howner
    · rw [← howner] at known
      exact hu.2 again known
    · exact hu.2 digest hmem
  | claim walk owner new unknown room hints =>
    change digest ∈ (Mirror.link owner new now (u.makeRoomForClaim walk owner).claims).items friend at hmem
    rw [Mirror.items_link, if_neg (Ne.symm hints)] at hmem
    exact hu.2 digest ((makeRoomForClaim_spec walk owner hu.1.claims).fewer friend digest hmem)
  | register walk nonce candidate unproven fresh friendRoom memberRoom =>
    obtain hroom | ⟨oldest, hroom⟩ := roomForChallenge_cases walk u
    · rw [hroom] at hmem
      exact hu.2 digest hmem
    · rw [hroom] at hmem
      exact hu.2 digest hmem
  | _ => exact hu.2 digest hmem

theorem purged_purge {number : FriendNumber} {friend : Bytes} (hfriend : friend ≠ []) (t : IdentityTables) :
    Purged friend (t.purgeFriendIdentityState number friend) := by
  unfold IdentityTables.purgeFriendIdentityState
  dsimp only
  rw [if_neg hfriend]
  refine ⟨fun digest hmem => ?_, fun key proven hlookup => ?_⟩
  · change digest ∈ (t.claims.unlinkAll friend).items friend at hmem
    rw [Mirror.items_unlinkAll, if_pos rfl] at hmem
    exact AList.notMem_empty digest hmem
  · exact of_decide_eq_false (lookup_eraseIf_eq_some.mp hlookup).2

/-- A friend that does not hint again gets no key attributed. -/
theorem purged_step {m m' : Machine} {input : Input} {friend : Bytes} (hm : m.state.tables.Indexed)
    (hpurged : Purged friend m.state.tables)
    (hquiet : ∀ number data, input.event = .friendPacket number data →
      input.outcome.tox.friendKey number ≠ some friend)
    (h : step crypto m input = some m') : Purged friend m'.state.tables := by
  refine ⟨?_, fun key proven hlookup hfriend => ?_⟩
  · refine Edits.unclaimed hm (edits_step ?_ h) hpurged.unclaimed
    refine ⟨fun _ _ _ _ _ => trivial, fun _ _ _ _ => trivial, fun number data other hevent hother heq => ?_,
      fun _ _ _ _ _ _ _ _ => trivial⟩
    exact hquiet number data hevent (heq ▸ hother)
  · obtain hold | ⟨-, -, data, chat, selfGroupKey, nonce, challenge, haccepts⟩ := proven_step h hlookup
    · exact hpurged.unproven key proven hold hfriend
    · have hclaimed := (hm.claims.consistent.mirrors _ _).mpr haccepts.claimed
      rw [hfriend] at hclaimed
      exact hpurged.unclaimed _ hclaimed

theorem machine_step {n : ι} {move : Move ι} (h : w.step net move = some w') :
    w'.machines n = w.machines n ∨ ∃ input m, move = .node n input ∧
      Identity.step net.crypto (w.machines n) input = some m ∧ w'.machines n = m := by
  cases move with
  | outsider sealing =>
    cases h
    exact .inl rfl
  | node other input =>
    obtain ⟨m, hm, hmachines, -, -⟩ := World.step_node h
    rw [hmachines]
    by_cases hother : n = other
    · subst hother
      exact .inr ⟨input, m, rfl, hm, Function.update_self n m w.machines⟩
    · exact .inl (Function.update_of_ne hother m w.machines)

theorem indexed_machines {moves : List (Move ι)} (hr : exec (World.step net) {} moves = some w) (n : ι) :
    (w.machines n).state.tables.Indexed := by
  refine invariant (I := fun w : World ι => (w.machines n).state.tables.Indexed) ?_ indexed_start hr
  intro u move u' hu h
  obtain hsame | ⟨input, m, -, hm, hmachine⟩ := machine_step h
  · rw [hsame]
    exact hu
  · rw [hmachine]
    exact indexed_step hu hm

theorem purged_later {n : ι} {friend : Bytes} {later : List (Move ι)} : ∀ {w w' : World ι},
    (∀ input number data, .node n input ∈ later → input.event = .friendPacket number data →
      input.outcome.tox.friendKey number ≠ some friend) →
    (w.machines n).state.tables.Indexed → Purged friend (w.machines n).state.tables →
    exec (World.step net) w later = some w' → Purged friend (w'.machines n).state.tables := by
  induction later with
  | nil =>
    intro w w' _ _ hpurged hr
    cases hr
    exact hpurged
  | cons move later ih =>
    intro w w' hquiet hindexed hpurged hr
    obtain ⟨u, hu, hrest⟩ := exec_cons.mp hr
    have hlater : ∀ input number data, .node n input ∈ later → input.event = .friendPacket number data →
        input.outcome.tox.friendKey number ≠ some friend := fun input number data hmem =>
      hquiet input number data (List.mem_cons_of_mem move hmem)
    obtain hsame | ⟨input, m, rfl, hm, hmachine⟩ := machine_step (n := n) hu
    · refine ih hlater ?_ ?_ hrest
      · rw [hsame]
        exact hindexed
      · rw [hsame]
        exact hpurged
    · refine ih hlater ?_ ?_ hrest
      · rw [hmachine]
        exact indexed_step hindexed hm
      · rw [hmachine]
        exact purged_step hindexed hpurged
          (fun number data => hquiet input number data List.mem_cons_self) hm

/-- Every key is attributed to the friend whose holder sealed a proof for it: while
    an unexpired challenge of the friend was pending, in the chat of the group, for
    us and naming the key as the holder's own. A friend that is purged gets no key
    attributed until it hints again. -/
theorem identity_attribution_sound (net : Network ι) (hkey : Function.Injective net.key)
    (moves : List (Move ι)) (w : World ι) (hm : Meets (World.step net) (Trusted net) {} moves)
    (hr : exec (World.step net) {} moves = some w) :
    (∀ n key proven, (w.machines n).state.tables.memberKeyToFriend.lookup key = some proven →
      Attributed net moves n key proven) ∧
    ∀ n now outcome number friend w₁ later w₂, friend ≠ [] →
      w.step net (.node n ⟨now, outcome, .purgeFriend number friend⟩) = some w₁ →
      exec (World.step net) w₁ later = some w₂ →
      (∀ input number data, .node n input ∈ later → input.event = .friendPacket number data →
        input.outcome.tox.friendKey number ≠ some friend) →
      ∀ key proven, (w₂.machines n).state.tables.memberKeyToFriend.lookup key = some proven →
        proven.friend ≠ friend := by
  refine ⟨attributed_run hkey hm hr, ?_⟩
  intro n now outcome number friend w₁ later w₂ hfriend hpurge hlater hquiet
  obtain ⟨m, hstep, hmachines, -, -⟩ := World.step_node hpurge
  have hmachine : w₁.machines n = m := by
    rw [hmachines]
    exact Function.update_self n m w.machines
  have hpurged : Purged friend (w₁.machines n).state.tables := by
    obtain ⟨-, -, u, hu, rfl⟩ := step_cases hstep
    cases hu
    rw [hmachine]
    exact purged_purge hfriend (w.machines n).state.tables
  have hindexed : (w₁.machines n).state.tables.Indexed := by
    rw [hmachine]
    exact indexed_step (indexed_machines hr n) hstep
  exact (purged_later hquiet hindexed hpurged hlater).unproven

/-! ## Two nodes -/

/-- Node `true` has the keys of the small network, and node `false` is its friend 2
    and member 3. -/
def nodeKey (n : Bool) : Bytes := plainKey (if n then 1 else 2)

def nodeGroupKey (n : Bool) : Bytes := plainKey (if n then 9 else 3)

def nodeTox (n : Bool) : ToxView :=
  { plainTox with
    selfKey := nodeKey n
    selfGroupKey := fun _ => some (nodeGroupKey n)
    selfKey_length := length_plainKey _
    selfGroupKey_length := fun _ _ h => Option.some.inj h ▸ length_plainKey _ }

def twoNodes : Network Bool := ⟨plainCrypto, nodeKey, fun n _ key => key = nodeGroupKey n⟩

def nodeInput (n : Bool) (now : Time) (event : Event) : Input :=
  ⟨now, { plainOutcome 0 with tox := nodeTox n }, event⟩

/-- The promises for a step of one of the two nodes, as a test. -/
def promisedTest (w : World Bool) (n : Bool) (now : Time) (event : Event) : Bool :=
  (match event with
    | .friendPacket number _ => decide (plainKey (UInt8.ofNat number) ≠ nodeKey n)
    | .proofPacket _ peer data => [true, false].all fun other =>
      decide (plainKey (UInt8.ofNat peer) ≠ nodeGroupKey other) || decide ((other, data) ∈ w.sent)
    | .resume =>
      match (w.machines n).task with
      | .verify _ data _ => (w.machines n).state.tables.pendingIdentityChallenges.entries.all fun entry =>
        match plainCrypto.decryptData entry.2.friend (nodeKey n) (data.take boxNonceSize)
          (data.drop boxNonceSize) with
        | none => true
        | some plain => w.sealings.any fun sealing => decide (sealing.payload = data ∧
          sealing.plain = plain ∧ sealing.sealer = entry.2.friend ∧ sealing.peer = nodeKey n)
      | _ => true
    | _ => true) &&
  ((nodeInput n now event).sealing plainCrypto (w.machines n)).all fun sealing =>
    w.sealings.all fun old => decide (old.payload = sealing.payload → old.sealer = sealing.sealer)

theorem promised_of_test {w : World Bool} {n : Bool} {now : Time} {event : Event}
    (h : promisedTest w n now event = true) : Promised twoNodes w n (nodeInput n now event) := by
  unfold promisedTest at h
  obtain ⟨hevent, hfresh⟩ := Bool.and_eq_true_iff.mp h
  refine ⟨rfl, ?_, ?_, ?_, ?_, ?_⟩
  · rintro number data rfl heq
    exact of_decide_eq_true hevent (Option.some.inj heq)
  · intro chat group key _ hkey
    exact (Option.some.inj hkey).symm
  · rintro group peer data key other chat rfl hpeer hown
    have hother := List.all_eq_true.mp hevent other (by cases other <;> decide)
    rw [Bool.or_eq_true, decide_eq_true_eq, decide_eq_true_eq] at hother
    refine hother.resolve_left fun hne => hne ?_
    exact (Option.some.inj hpeer).trans hown
  · rintro sender data arrived rfl htask entry hentry plain hplain
    dsimp only at hevent
    rw [htask] at hevent
    have hopens := List.all_eq_true.mp hevent entry hentry
    change plainCrypto.decryptData entry.2.friend (nodeKey n) (data.take boxNonceSize)
      (data.drop boxNonceSize) = some plain at hplain
    rw [hplain] at hopens
    obtain ⟨sealing, hsealing, hsealed⟩ := List.any_eq_true.mp hopens
    obtain ⟨hpayload, htext, hsealer, hpeer⟩ := of_decide_eq_true hsealed
    exact ⟨sealing, hsealing, hpayload, htext, .inl ⟨hsealer, hpeer⟩⟩
  · intro sealing hsealing old hold
    change (nodeInput n now event).sealing plainCrypto (w.machines n) = some sealing at hsealing
    rw [hsealing] at hfresh
    exact of_decide_eq_true (List.all_eq_true.mp hfresh old hold)

abbrev NodeStep : Type := Bool × Time × Event

def NodeStep.move (e : NodeStep) : Move Bool := .node e.1 (nodeInput e.1 e.2.1 e.2.2)

def promisedAll (w : World Bool) : List NodeStep → Bool
  | [] => true
  | e :: es => promisedTest w e.1 e.2.1 e.2.2 &&
    (w.step twoNodes (NodeStep.move e)).all fun u => promisedAll u es

theorem meets_of_tests (es : List NodeStep) : ∀ {w : World Bool}, promisedAll w es = true →
    Meets (World.step twoNodes) (Trusted twoNodes) w (es.map NodeStep.move) := by
  induction es with
  | nil => exact fun _ => trivial
  | cons e es ih =>
    intro w h
    obtain ⟨htest, hrest⟩ := Bool.and_eq_true_iff.mp h
    refine ⟨promised_of_test htest, fun u hu => ih ?_⟩
    rw [hu] at hrest
    exact hrest

/-- The friend claims its member, is challenged when the member joins, answers, and
    its proof is accepted. -/
def proofRun : List NodeStep :=
  joinRun.map (fun input => (true, input.now, input.event)) ++
    [(false, 1500, .friendPacket 1 (challengeBody (plainKey 8) (plainKey 9)
        (List.replicate kIdentityNonceSize 0))), (false, 1600, .resume),
      (true, 2000, .proofPacket 0 3 plainProof), (true, 2001, .resume)]

def provenWorld : World Bool :=
  (exec (World.step twoNodes) {} (proofRun.map NodeStep.move)).getD {}

theorem proven_member_attributed :
    Attributed twoNodes (proofRun.map NodeStep.move) true (plainKey 3) ⟨plainKey 2, 0, 2000⟩ := by
  have hrun : (exec (World.step twoNodes) {} (proofRun.map NodeStep.move)).isSome = true := by
    decide +kernel
  have hr : exec (World.step twoNodes) {} (proofRun.map NodeStep.move) = some provenWorld :=
    (Option.getD_of_ne_none (Option.isSome_iff_ne_none.mp hrun) {}).symm
  have hne : nodeKey true ≠ nodeKey false := by decide
  have hkey : Function.Injective twoNodes.key := by
    intro a b h
    cases a with
    | false => cases b with
      | false => rfl
      | true => exact absurd h.symm hne
    | true => cases b with
      | false => exact absurd h hne
      | true => rfl
  have htests : promisedAll {} proofRun = true := by decide +kernel
  exact (identity_attribution_sound twoNodes hkey (proofRun.map NodeStep.move) provenWorld
    (meets_of_tests proofRun htests) hr).1 true (plainKey 3) ⟨plainKey 2, 0, 2000⟩ (by decide +kernel)

end Tim2Tox.Identity
