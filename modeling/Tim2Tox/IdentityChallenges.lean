import Tim2Tox.IdentityClaims

set_option autoImplicit false

/-!
# No honest proof is crowded out

The table of pending challenges keeps within its quotas, so the verifier looks
at every challenge for a sender, in whatever order the table is walked.
-/
namespace Tim2Tox.Identity
open KeyedTables MirroredTables ReplayFilters LabelledRuns

/-- The quotas of the challenges that are unexpired at a time. -/
structure IdentityTables.Quotas (now : Time) (t : IdentityTables) : Prop where
  once : ∀ candidate : Candidate, t.countChallenges (candidate.pending now) ≤ 1
  perFriend : ∀ friend,
    t.countChallenges (challengesOfFriend friend now) ≤ kMaxPendingChallengesPerFriend
  perMember : ∀ member, t.countChallenges (challengesOfMember member now) ≤ kMaxClaimantsPerDigest
  inAll : t.pendingIdentityChallenges.keys.length ≤ kMaxPendingIdentityChallenges

variable {now hence : Time} {t t' : IdentityTables}

theorem unexpired_mono (h : now ≤ hence) {challenge : PendingIdentityChallenge}
    (hhence : challenge.unexpired hence = true) : challenge.unexpired now = true := by
  have := of_decide_eq_true hhence
  exact decide_eq_true (Nat.le_trans (Nat.sub_le_sub_right h _) this)

theorem countChallenges_mono {test weaker : PendingIdentityChallenge → Bool}
    (h : ∀ challenge, test challenge = true → weaker challenge = true) (t : IdentityTables) :
    t.countChallenges test ≤ t.countChallenges weaker :=
  List.countP_mono_left fun entry _ => h entry.2

/-- Challenges only expire as time goes on. -/
theorem IdentityTables.Quotas.later (hq : t.Quotas now) (h : now ≤ hence) : t.Quotas hence where
  once candidate := by
    refine Nat.le_trans (countChallenges_mono (fun challenge hc => ?_) t) (hq.once candidate)
    simp only [Candidate.pending, Bool.and_eq_true] at hc ⊢
    exact ⟨⟨unexpired_mono h hc.1.1, hc.1.2⟩, hc.2⟩
  perFriend friend := by
    refine Nat.le_trans (countChallenges_mono (fun challenge hc => ?_) t) (hq.perFriend friend)
    simp only [challengesOfFriend, Bool.and_eq_true] at hc ⊢
    exact ⟨unexpired_mono h hc.1, hc.2⟩
  perMember member := by
    refine Nat.le_trans (countChallenges_mono (fun challenge hc => ?_) t) (hq.perMember member)
    simp only [challengesOfMember, Bool.and_eq_true] at hc ⊢
    exact ⟨unexpired_mono h hc.1, hc.2⟩
  inAll := hq.inAll

/-- Fewer challenges keep the quotas. -/
theorem IdentityTables.Quotas.sublist (hq : t.Quotas now)
    (h : t'.pendingIdentityChallenges.entries.Sublist t.pendingIdentityChallenges.entries) :
    t'.Quotas now where
  once candidate := Nat.le_trans h.countP_le (hq.once candidate)
  perFriend friend := Nat.le_trans h.countP_le (hq.perFriend friend)
  perMember member := Nat.le_trans h.countP_le (hq.perMember member)
  inAll := by
    have hlength : t'.pendingIdentityChallenges.keys.length ≤ t.pendingIdentityChallenges.keys.length :=
      (h.map Sigma.fst).length_le
    exact Nat.le_trans hlength hq.inAll

theorem roomForChallenge_sublist (walk : Iteration) (t : IdentityTables) :
    (t.roomForChallenge walk).pendingIdentityChallenges.entries.Sublist
      t.pendingIdentityChallenges.entries := by
  obtain hroom | ⟨oldest, hroom⟩ := roomForChallenge_cases walk t
  · rw [hroom]
  · rw [hroom]
    exact List.kerase_sublist oldest _

theorem roomForChallenge_length (walk : Iteration)
    (h : t.pendingIdentityChallenges.keys.length ≤ kMaxPendingIdentityChallenges) :
    (t.roomForChallenge walk).pendingIdentityChallenges.keys.length + 1 ≤
      kMaxPendingIdentityChallenges := by
  have hcap : 0 < kMaxPendingIdentityChallenges := by decide
  unfold IdentityTables.roomForChallenge
  split_ifs with hfull
  · unfold IdentityTables.evictOldestChallenge
    cases holdest : (walk.order t.pendingIdentityChallenges.entries).argmin
        fun entry => entry.2.sentAt with
    | none =>
      rw [List.argmin_eq_none] at holdest
      have hempty := (walk.perm t.pendingIdentityChallenges.entries).length_eq
      rw [holdest] at hempty
      have hlength : t.pendingIdentityChallenges.keys.length =
        t.pendingIdentityChallenges.entries.length := List.length_map _
      change t.pendingIdentityChallenges.keys.length + 1 ≤ _
      rw [hlength, ← hempty]
      exact hcap
    | some oldest =>
      have hmem : oldest.1 ∈ t.pendingIdentityChallenges :=
        AList.mem_keys.mpr (List.mem_map_of_mem (walk.mem_order.mp (List.argmin_mem holdest)))
      exact Nat.le_trans (keys_erase_lt hmem) h
  · exact Nat.lt_of_not_le hfull

theorem countChallenges_add (test : PendingIdentityChallenge → Bool) (walk : Iteration) (nonce : Bytes)
    (challenge : PendingIdentityChallenge) (t : IdentityTables) :
    ((t.roomForChallenge walk).addChallenge nonce challenge).countChallenges test ≤
      t.countChallenges test + if test challenge then 1 else 0 := by
  have hroom := (roomForChallenge_sublist walk t).countP_le (p := fun entry => test entry.2)
  have hinsert := countP_insert_le (fun entry => test entry.2) nonce challenge
    (t.roomForChallenge walk).pendingIdentityChallenges
  exact Nat.le_trans hinsert (Nat.add_le_add_right hroom _)

theorem Edit.quotas {grounds : Grounds} (hq : t.Quotas now)
    (h : Edit now grounds t t') : t'.Quotas now := by
  have hsame : t'.pendingIdentityChallenges = t.pendingIdentityChallenges → t'.Quotas now := by
    intro hpending
    refine hq.sublist ?_
    rw [hpending]
  cases h with
  | other untouched => exact hsame untouched.pending
  | idle => exact hsame rfl
  | meter sender charges => exact hsame rfl
  | unlink friend digest => exact hsame rfl
  | unlinkAll friend => exact hsame rfl
  | refresh friend digest known => exact hsame rfl
  | claim walk friend digest unknown room hints => exact hsame (makeRoomForClaim_frame walk friend t).pending
  | removeMember member => exact hsame rfl
  | addMember member digest absent => exact hsame rfl
  | drop test => exact hq.sublist List.filter_sublist
  | register walk nonce candidate unproven fresh friendRoom memberRoom =>
    have hunexpired : (candidate.challenge now).unexpired now = true :=
      decide_eq_true (by rw [show (candidate.challenge now).sentAt = now from rfl, Nat.sub_self]; decide)
    refine ⟨fun other => ?_, fun friend => ?_, fun member => ?_, ?_⟩
    · refine Nat.le_trans (countChallenges_add _ walk nonce _ t) ?_
      by_cases hother : other = candidate
      · rw [hother, fresh, Nat.zero_add]
        split_ifs <;> decide
      · rw [if_neg]
        · exact hq.once other
        · intro htest
          simp only [Candidate.pending, Bool.and_eq_true, decide_eq_true_eq,
            PendingIdentityChallenge.about] at htest
          exact hother (Prod.ext htest.1.2.symm htest.2.symm)
    · refine Nat.le_trans (countChallenges_add _ walk nonce _ t) ?_
      by_cases hfriend : friend = candidate.1
      · rw [hfriend]
        split_ifs <;> omega
      · rw [if_neg]
        · exact hq.perFriend friend
        · intro htest
          simp only [challengesOfFriend, Bool.and_eq_true, decide_eq_true_eq] at htest
          exact hfriend htest.2.symm
    · refine Nat.le_trans (countChallenges_add _ walk nonce _ t) ?_
      by_cases hmember : member = candidate.2
      · rw [hmember]
        split_ifs <;> omega
      · rw [if_neg]
        · exact hq.perMember member
        · intro htest
          simp only [challengesOfMember, Bool.and_eq_true, decide_eq_true_eq,
            PendingIdentityChallenge.about] at htest
          exact hmember htest.2.symm
    · exact Nat.le_trans (keys_insert_le nonce _ _) (roomForChallenge_length walk hq.inAll)
  | dropProven test => exact hsame rfl
  | eraseProven key => exact hsame rfl
  | prove walk sender nonce friend arrived pending opened => exact hsame rfl
  | expire => exact hsame rfl
  | record key unseen answers => exact hsame rfl

/-- The quotas hold now, and for a proof on its way to the verifier also at the
    time it came in. -/
structure Machine.Keeps (m : Machine) : Prop where
  quotas : m.state.tables.Quotas m.clock
  arrived : ∀ sender data arrived, m.task = .verify sender data arrived →
    m.state.tables.Quotas arrived

theorem keeps_start : ({} : Machine).Keeps where
  quotas := ⟨fun _ => Nat.zero_le _, fun _ => Nat.zero_le _, fun _ => Nat.zero_le _, Nat.zero_le _⟩
  arrived := fun _ _ _ h => nomatch h

theorem keeps_step {crypto : Crypto} {m m' : Machine} {input : Input} (hm : m.Keeps)
    (h : step crypto m input = some m') : m'.Keeps := by
  have hedits := edits_step_any h
  obtain ⟨hclock, hidle, u, hu, rfl⟩ := step_cases h
  have hquotas : u.state.tables.Quotas input.now :=
    hedits.keep (fun _ _ hq hedit => hedit.quotas hq) (hm.quotas.later hclock)
  refine ⟨hquotas, fun sender data arrived htask => ?_⟩
  change u.task = _ at htask
  by_cases hcall : input.event.isCall = true
  · obtain ⟨hsame, -, -, htimes⟩ := call_cases Grounds.any hcall hu
    exact (htimes arrived).keep (fun _ _ hq hedit => hedit.quotas hq)
      (hm.arrived sender data arrived (hsame.symm.trans htask))
  · rw [(verify_task (Bool.eq_false_iff.mpr hcall) hidle hu htask).1]
    exact hquotas

theorem keeps_run {crypto : Crypto} {inputs : List Input} {m : Machine}
    (hr : exec (step crypto) {} inputs = some m) : m.Keeps :=
  invariant (fun _ _ _ hm h => keeps_step hm h) keeps_start hr

/-! ## The proof that answers a pending challenge -/

theorem countP_eq_filter_order (walk : Iteration) {α : Type} (test : α → Bool) (entries : List α) :
    ((walk.order entries).filter test).length = entries.countP test := by
  rw [← List.countP_eq_length_filter]
  exact (walk.perm entries).countP_eq test

/-- Within the quotas the verifier looks at every challenge for the sender. -/
theorem mem_proofCandidates (hq : t.Quotas now) (walk : Iteration) {sender : GroupMember}
    {nonce : Bytes} {challenge : PendingIdentityChallenge}
    (hpending : t.pendingIdentityChallenges.lookup nonce = some challenge)
    (hmember : challengesOfMember sender now challenge = true) :
    (nonce, challenge.friend) ∈ t.proofCandidates walk sender now := by
  unfold IdentityTables.proofCandidates
  rw [List.take_of_length_le]
  · refine List.mem_map.mpr ⟨⟨nonce, challenge⟩, List.mem_filter.mpr ⟨?_, hmember⟩, rfl⟩
    exact walk.mem_order.mpr (mem_entries_of_lookup hpending)
  · rw [List.length_map, countP_eq_filter_order walk fun entry : (_ : Bytes) × PendingIdentityChallenge =>
      challengesOfMember sender now entry.2]
    exact hq.perMember sender

theorem acceptProof_lookup (walk : Iteration) (sender : GroupMember) (friend : Bytes) (arrived : Time)
    (t : IdentityTables) : (t.acceptProof walk sender friend arrived).memberKeyToFriend.lookup sender.2 =
      some ⟨friend, sender.1, arrived⟩ := by
  unfold IdentityTables.acceptProof
  exact AList.lookup_insert _

/-- The verifier accepts a proof for a pending challenge of a friend that still
    claims the member, in whatever order it walks the table. -/
theorem verifyProof_accepts (crypto : Crypto) (walk : Iteration) {self chat selfGroupKey data : Bytes}
    {sender : GroupMember} {arrived : Time} {nonce : Bytes} {challenge : PendingIdentityChallenge}
    (hq : t.Quotas arrived) (hpending : t.pendingIdentityChallenges.lookup nonce = some challenge)
    (hmember : challengesOfMember sender arrived challenge = true)
    (hclaims : challenge.friend ∈ t.claims.owners (groupIdentityDigest crypto chat sender.2))
    (hbudget : (t.takeGlobalBudgetLocked arrived .proofVerifies kMaxProofVerifiesGlobal).1 = true)
    (hproves : proves crypto self chat selfGroupKey sender.2 data nonce challenge.friend = true) :
    ∃ friend, (t.verifyProof crypto walk self chat selfGroupKey sender data arrived).1 = some friend ∧
      (∃ nonce, proves crypto self chat selfGroupKey sender.2 data nonce friend = true) ∧
      (t.verifyProof crypto walk self chat selfGroupKey sender data arrived).2.memberKeyToFriend.lookup
        sender.2 = some ⟨friend, sender.1, arrived⟩ := by
  unfold IdentityTables.verifyProof
  dsimp only
  have hkept : (t.dropStaleChallengesForMemberLocked sender
      (groupIdentityDigest crypto chat sender.2)).pendingIdentityChallenges.lookup nonce =
        some challenge := by
    refine lookup_eraseIf_eq_some.mpr ⟨hpending, ?_⟩
    change (challenge.about sender && !decide (challenge.friend ∈ _)) = false
    rw [decide_eq_true hclaims, Bool.not_true, Bool.and_false]
  have hqdropped : (t.dropStaleChallengesForMemberLocked sender
      (groupIdentityDigest crypto chat sender.2)).Quotas arrived := hq.sublist List.filter_sublist
  have hcandidate := mem_proofCandidates hqdropped walk hkept hmember
  have hglobal : ((t.dropStaleChallengesForMemberLocked sender
      (groupIdentityDigest crypto chat sender.2)).takeGlobalBudgetLocked arrived .proofVerifies
        kMaxProofVerifiesGlobal).1 = true := hbudget
  generalize t.dropStaleChallengesForMemberLocked sender (groupIdentityDigest crypto chat sender.2) = u
    at hcandidate hglobal ⊢
  have hsome : ((u.proofCandidates walk sender arrived).find? fun candidate =>
      proves crypto self chat selfGroupKey sender.2 data candidate.1 candidate.2).isSome = true :=
    List.find?_isSome.mpr ⟨_, hcandidate, hproves⟩
  obtain ⟨accepted, haccepted⟩ := Option.isSome_iff_exists.mp hsome
  have hopened := List.find?_some (p := fun candidate : Bytes × Bytes =>
    proves crypto self chat selfGroupKey sender.2 data candidate.1 candidate.2) haccepted
  rw [if_neg (List.ne_nil_of_mem hcandidate), hglobal, haccepted]
  exact ⟨accepted.2, rfl, ⟨accepted.1, hopened⟩, acceptProof_lookup walk sender accepted.2 arrived _⟩

/-- The sweep takes expired challenges only. -/
theorem lookup_sweep {nonce : Bytes} {challenge : PendingIdentityChallenge}
    (hpending : t.pendingIdentityChallenges.lookup nonce = some challenge)
    (hunexpired : challenge.unexpired now = true) :
    (t.sweep now).pendingIdentityChallenges.lookup nonce = some challenge := by
  rw [sweep_eq, eraseClaims_eq]
  refine lookup_eraseIf_eq_some.mpr ⟨hpending, ?_⟩
  change (!challenge.unexpired now) = false
  rw [hunexpired, Bool.not_true]

theorem lookup_pruned {m : Machine} {nonce : Bytes} {challenge : PendingIdentityChallenge}
    (hpending : m.state.tables.pendingIdentityChallenges.lookup nonce = some challenge)
    (hunexpired : challenge.unexpired now = true) :
    (m.pruned now).state.tables.pendingIdentityChallenges.lookup nonce = some challenge := by
  change (m.state.pruneIdentityStateLocked now false).tables.pendingIdentityChallenges.lookup nonce = _
  unfold IdentityState.pruneIdentityStateLocked
  split_ifs
  · exact hpending
  · exact lookup_sweep hpending hunexpired

theorem hasPendingChallenge_of_lookup {sender : GroupMember} {nonce : Bytes}
    {challenge : PendingIdentityChallenge}
    (hpending : t.pendingIdentityChallenges.lookup nonce = some challenge)
    (hmember : challengesOfMember sender now challenge = true) :
    t.hasPendingChallengeForSenderLocked sender now = true := by
  obtain ⟨hunexpired, habout⟩ := Bool.and_eq_true_iff.mp hmember
  refine List.any_eq_true.mpr ⟨⟨nonce, challenge⟩, mem_entries_of_lookup hpending, ?_⟩
  exact Bool.and_eq_true_iff.mpr ⟨habout, hunexpired⟩

/-- A sender with an unexpired challenge passes the gate, and its proof is
    verified next when its budget is not spent. -/
theorem handleGroupIdentityProof_verifies {outcome : Outcome} {group : GroupNumber} {peer : PeerNumber}
    {data sender : Bytes} {m : Machine} (hsender : outcome.tox.peerKey group peer = some sender)
    (hlength : data.length = kIdentityProofPacketSize) {nonce : Bytes}
    {challenge : PendingIdentityChallenge}
    (hpending : m.state.tables.pendingIdentityChallenges.lookup nonce = some challenge)
    (hmember : challengesOfMember (group, sender) now challenge = true)
    (hbudget : ((m.proofTables now data).takeGroupSenderProofBudgetLocked sender now).1 = true) :
    (m.handleGroupIdentityProof outcome now group peer data).task = .verify (group, sender) data now := by
  have hkept : (m.proofTables now data).pendingIdentityChallenges.lookup nonce = some challenge :=
    lookup_pruned (m := { m with state := { m.state with tables := m.state.tables.noteProof data } })
      hpending (Bool.and_eq_true_iff.mp hmember).1
  have hgate := hasPendingChallenge_of_lookup hkept hmember
  have harrived : ((m.proofTables now data).arrivedProof (group, sender) now).1 = true := by
    unfold IdentityTables.arrivedProof
    dsimp only
    rw [hgate, hbudget]
    rfl
  unfold Machine.handleGroupIdentityProof
  rw [hsender]
  dsimp only
  rw [if_pos hlength]
  exact if_pos harrived

/-- Calls of other threads leave the event thread where it is. -/
theorem task_calls {crypto : Crypto} {calls : List Input} (hcalls : ∀ call ∈ calls, call.event.isCall = true) :
    ∀ {m m' : Machine}, exec (step crypto) m calls = some m' → m'.task = m.task := by
  induction calls with
  | nil =>
    intro m m' hr
    cases hr
    rfl
  | cons call calls ih =>
    intro m m' hr
    obtain ⟨u, hu, hrest⟩ := exec_cons.mp hr
    obtain ⟨-, -, v, hv, rfl⟩ := step_cases hu
    have htask := (call_cases Grounds.any
      (hcalls call List.mem_cons_self) hv).1
    exact (ih (fun other hother => hcalls other (List.mem_cons_of_mem call hother)) hrest).trans htask

/-- Friend 2 claims member 3, which joins group 0, so friend 2 is challenged. -/
def joinRun : List Input :=
  [plainInput 1000 (.mapGroup 0 [1]), plainInput 1000 (.friendPacket 2 (kIdentityHints :: plainKey 3)),
    plainInput 1000 .resume, plainInput 1000 .resume, plainInput 1000 (.peerJoin 0 3),
    plainInput 1001 .resume, plainInput 1002 .resume, plainInput 1003 .resume]

def challenging : Machine := (exec (step plainCrypto) {} joinRun).getD {}

/-- Friend 2's proof that it is member 3 of our chat 8, where we are member 9. -/
def plainProof : Bytes :=
  (sealIdentityProof plainCrypto (plainKey 2) (plainKey 8) (plainKey 9) (plainKey 3)
    (List.replicate kIdentityNonceSize 0) (plainKey 1) (List.replicate boxNonceSize 0)).getD []

/-- The proof comes in, and a group is forgotten before it is verified. -/
def proofMachine : Machine :=
  (step plainCrypto challenging (plainInput 2000 (.proofPacket 0 3 plainProof))).getD {}

def openingMachine : Machine :=
  (exec (step plainCrypto) proofMachine [plainInput 2001 (.forgetGroup 5)]).getD {}

end Tim2Tox.Identity
