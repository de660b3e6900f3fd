import Tim2Tox.IdentityClaims

set_option autoImplicit false

/-!
# What receipts can do to identities

Receipts have budgets and a filter of their own. The sweep is all they share
with the identities: a run acts on the identities as its identity inputs and
the sweeps of its receipts do.
-/
namespace Tim2Tox.Identity
open KeyedTables MirroredTables ReplayFilters LabelledRuns

/-- The outputs that are not about receipts. -/
def Output.ofIdentity : Output → Bool
  | .forwarded _ _ => false
  | _ => true

def identityLog (log : List Output) : List Output := log.filter Output.ofIdentity

theorem identityLog_append (log more : List Output) :
    identityLog (log ++ more) = identityLog log ++ identityLog more := List.filter_append log more

/-- Machines that differ in what concerns receipts at most. -/
structure SameIdentity (m m' : Machine) : Prop where
  tables : m.state.tables = m'.state.tables
  task : m.task = m'.task
  log : identityLog m.log = identityLog m'.log

theorem SameIdentity.trans {m m' m'' : Machine} (h : SameIdentity m m') (h' : SameIdentity m' m'') :
    SameIdentity m m'' := ⟨h.tables.trans h'.tables, h.task.trans h'.task, h.log.trans h'.log⟩

theorem SameIdentity.symm {m m' : Machine} (h : SameIdentity m m') : SameIdentity m' m :=
  ⟨h.tables.symm, h.task.symm, h.log.symm⟩

variable {m m' : Machine} {now : Time} {crypto : Crypto} {outcome : Outcome}

/-! ## Handlers read and write the identities only -/

theorem pruned_tables (now : Time) (m : Machine) : (m.pruned now).state.tables =
    if m.state.tables.prunedRecently now then m.state.tables else m.state.tables.sweep now := by
  change (m.state.pruneIdentityStateLocked now false).tables = _
  unfold IdentityState.pruneIdentityStateLocked
  rw [Bool.not_false, Bool.true_and]
  split_ifs <;> rfl

theorem SameIdentity.pruned (h : SameIdentity m m') (now : Time) :
    SameIdentity (m.pruned now) (m'.pruned now) where
  tables := by rw [pruned_tables, pruned_tables, h.tables]
  task := h.task
  log := h.log

theorem SameIdentity.extend (h : SameIdentity m m') (tables : IdentityTables) (task : Task)
    (more : List Output) : SameIdentity { m.setTables tables with task, log := m.log ++ more }
      { m'.setTables tables with task, log := m'.log ++ more } where
  tables := rfl
  task := rfl
  log := by rw [identityLog_append, identityLog_append, h.log]

theorem SameIdentity.change (h : SameIdentity m m') (tables : IdentityTables) (task : Task) :
    SameIdentity { m.setTables tables with task } { m'.setTables tables with task } :=
  ⟨rfl, rfl, h.log⟩

theorem SameIdentity.setTables (h : SameIdentity m m') (tables : IdentityTables) :
    SameIdentity (m.setTables tables) (m'.setTables tables) := ⟨rfl, h.task, h.log⟩

theorem SameIdentity.setTask (h : SameIdentity m m') (task : Task) :
    SameIdentity { m with task } { m' with task } := ⟨h.tables, rfl, h.log⟩

theorem announcement_same (h : SameIdentity m m') (number : FriendNumber) (data : Bytes) :
    SameIdentity (m.handleGroupIdentityAnnouncement outcome now number data)
      (m'.handleGroupIdentityAnnouncement outcome now number data) := by
  have hpruned := h.pruned now
  unfold Machine.handleGroupIdentityAnnouncement
  split
  · rename_i friend subtype body _
    dsimp only
    rw [hpruned.tables]
    split_ifs
    · exact hpruned.extend _ _ _
    · exact hpruned.setTables _
    · exact h
    · exact hpruned.change _ _
    · exact hpruned.change _ _
    · exact h
  · exact h

theorem issueIdentityChallenges_same (h : SameIdentity m m') (candidates : List Candidate) :
    SameIdentity (m.issueIdentityChallenges candidates) (m'.issueIdentityChallenges candidates) :=
  h.setTask _

theorem issueChallenge_same (h : SameIdentity m m') (candidates : List Candidate)
    (prefixes : AList (fun _ : GroupNumber => Option (Bytes × Bytes)))
    (sends : List (FriendNumber × Bytes)) :
    SameIdentity (m.issueChallenge outcome now candidates prefixes sends)
      (m'.issueChallenge outcome now candidates prefixes sends) := by
  unfold Machine.issueChallenge
  rw [h.tables]
  split
  · refine ⟨h.tables, rfl, ?_⟩
    dsimp only
    rw [identityLog_append, identityLog_append, h.log]
  · dsimp only
    split
    · split_ifs
      · exact h.change _ _
      · exact h.setTask _
    · exact h.setTask _

theorem answerChallenge_same (h : SameIdentity m m') (friend data : Bytes) (recorded : Time) :
    SameIdentity (m.answerChallenge crypto outcome friend data recorded)
      (m'.answerChallenge crypto outcome friend data recorded) := by
  unfold Machine.answerChallenge
  dsimp only
  rw [h.tables]
  split
  · exact h.setTask _
  · split
    · split
      · exact h.change _ _
      · refine ⟨rfl, rfl, ?_⟩
        rw [identityLog_append, identityLog_append]
        exact congrArg (· ++ _) h.log
    · exact h.change _ _

theorem verifyProof_same (h : SameIdentity m m') (sender : GroupMember) (data : Bytes) (arrived : Time) :
    SameIdentity (m.verifyProof crypto outcome sender data arrived)
      (m'.verifyProof crypto outcome sender data arrived) := by
  unfold Machine.verifyProof
  dsimp only
  rw [h.tables]
  split
  · exact h.extend _ _ _
  · exact h.setTask _

theorem handleGroupIdentityProof_same (h : SameIdentity m m') (group : GroupNumber) (peer : PeerNumber)
    (data : Bytes) : SameIdentity (m.handleGroupIdentityProof outcome now group peer data)
      (m'.handleGroupIdentityProof outcome now group peer data) := by
  have hnoted : SameIdentity
      { m with state := { m.state with tables := m.state.tables.noteProof data } }
      { m' with state := { m'.state with tables := m'.state.tables.noteProof data } } :=
    ⟨congrArg (IdentityTables.noteProof data) h.tables, h.task, h.log⟩
  have hpruned := hnoted.pruned now
  unfold Machine.handleGroupIdentityProof
  split
  · split_ifs
    · dsimp only
      rw [hpruned.tables]
      exact hpruned.change _ _
    · exact h
  · exact h

/-- Sections do the same, or neither is there. -/
def SameResult (r r' : Option Machine) : Prop :=
  ∀ u, r = some u → ∃ u', r' = some u' ∧ SameIdentity u u'

theorem SameIdentity.result {u u' : Machine} (h : SameIdentity u u') :
    SameResult (some u) (some u') := by
  intro v hv
  cases hv
  exact ⟨u', rfl, h⟩

theorem resume_same (h : SameIdentity m m') :
    SameResult (m.resume crypto outcome now) (m'.resume crypto outcome now) := by
  unfold Machine.resume
  dsimp only
  rw [h.task, h.tables]
  split
  · intro u hu
    cases hu
  · split
    · exact (h.change _ _).result
    · exact (h.change _ _).result
  · exact (h.change _ _).result
  · exact (issueIdentityChallenges_same h _).result
  · split
    · exact (h.setTask _).result
    · exact (issueIdentityChallenges_same (h.setTables _) _).result
  · exact (issueChallenge_same h _ _ _).result
  · exact (answerChallenge_same h _ _ _).result
  · exact (verifyProof_same h _ _ _).result
  · exact (h.change _ _).result

theorem handle_same (h : SameIdentity m m') {event : Event}
    (hreceipt : ∀ group peer receipt, event ≠ .receiptPacket group peer receipt) :
    SameResult (m.handle crypto outcome now event) (m'.handle crypto outcome now event) := by
  cases event with
  | friendOffline number =>
    unfold Machine.handle
    rw [h.tables]
    exact (h.setTables _).result
  | friendOnline number =>
    unfold Machine.handle
    rw [h.tables]
    exact (h.setTables _).result
  | friendPacket number data => exact (announcement_same h number data).result
  | peerJoin group peer =>
    unfold Machine.handle
    rw [h.tables]
    dsimp only
    split
    · exact (h.change _ _).result
    · exact h.result
  | peerMessage group peer =>
    unfold Machine.handle
    rw [h.tables]
    dsimp only
    split
    · exact (h.setTables _).result
    · exact h.result
  | peerExit group peer selfDisconnected =>
    unfold Machine.handle
    rw [h.tables]
    dsimp only
    split_ifs
    · split
      · exact (h.setTables _).result
      · exact (h.change _ _).result
    · exact h.result
  | proofPacket group peer data => exact (handleGroupIdentityProof_same h group peer data).result
  | receiptPacket group peer receipt => exact absurd rfl (hreceipt group peer receipt)
  | resume => exact resume_same h
  | purgeFriend number friend =>
    unfold Machine.handle
    rw [h.tables]
    exact (h.setTables _).result
  | erasePeer member =>
    unfold Machine.handle
    rw [h.tables]
    exact (h.setTables _).result
  | forgetGroup group =>
    unfold Machine.handle
    rw [h.tables]
    exact (h.setTables _).result
  | mapGroup group groupId =>
    unfold Machine.handle
    rw [h.tables]
    exact (h.setTables _).result
  | unmapGroup group =>
    unfold Machine.handle
    rw [h.tables]
    exact (h.setTables _).result

/-! ## What a run shows the identities -/

/-- An input as the identities see it. -/
inductive Seen
  | input (input : Input)
  | sweep (now : Time)

/-- The receipt passes the checks of its packet and finds the sweep due. -/
def sweepsReceipt (outcome : Outcome) (now : Time) (group : GroupNumber) (peer : PeerNumber)
    (receipt : StrictGroupReceipt) (m : Machine) : Bool :=
  decide (outcome.tox.peerKey group peer = some receipt.sender) && !m.state.tables.prunedRecently now

def Input.seen (input : Input) (m : Machine) : List Seen :=
  match input.event with
  | .receiptPacket group peer receipt =>
    if sweepsReceipt input.outcome input.now group peer receipt m then [.sweep input.now] else []
  | _ => [.input input]

/-- The identity inputs of a run and the sweeps its receipts cause, in order. -/
def seenIn (crypto : Crypto) : Machine → List Input → List Seen
  | _, [] => []
  | m, input :: inputs =>
    input.seen m ++ (step crypto m input).elim [] fun u => seenIn crypto u inputs

/-- The handlers without receipts: identity inputs and bare sweeps. -/
def stepSeen (crypto : Crypto) (m : Machine) : Seen → Option Machine
  | .input input => m.handle crypto input.outcome input.now input.event
  | .sweep now => some (m.setTables (m.state.tables.sweep now))

theorem receipt_tables (outcome : Outcome) (now : Time) (group : GroupNumber) (peer : PeerNumber)
    (receipt : StrictGroupReceipt) (m : Machine) :
    let u := m.handleGroupReceipt outcome now group peer receipt
    u.task = m.task ∧ identityLog u.log = identityLog m.log ∧ u.state.tables =
      if sweepsReceipt outcome now group peer receipt m then m.state.tables.sweep now
      else m.state.tables := by
  unfold Machine.handleGroupReceipt sweepsReceipt
  cases hpeer : outcome.tox.peerKey group peer with
  | none => exact ⟨rfl, rfl, rfl⟩
  | some sender =>
    dsimp only
    by_cases hsender : receipt.sender = sender
    · rw [if_pos hsender, hsender, decide_eq_true rfl, Bool.true_and]
      refine ⟨rfl, ?_, ?_⟩
      · dsimp only
        rw [identityLog_append]
        refine (congrArg (identityLog m.log ++ ·) (List.filter_eq_nil_iff.mpr fun item hitem => ?_)).trans
          (List.append_nil _)
        obtain ⟨key, -, rfl⟩ := List.mem_map.mp hitem
        exact Bool.false_ne_true
      · refine (pruned_tables now _).trans ?_
        cases m.state.tables.prunedRecently now
        · rfl
        · rfl
    · rw [if_neg hsender, decide_eq_false fun h => hsender (Option.some.inj h).symm]
      exact ⟨rfl, rfl, rfl⟩

/-- A run does to the identities what the identities see of it. -/
theorem seen_run : ∀ (inputs : List Input) {m m' c : Machine}, SameIdentity m c →
    exec (step crypto) m inputs = some m' →
      ∃ c', exec (stepSeen crypto) c (seenIn crypto m inputs) = some c' ∧ SameIdentity m' c' := by
  intro inputs
  induction inputs with
  | nil =>
    intro m m' c hsame hr
    cases hr
    exact ⟨c, rfl, hsame⟩
  | cons input inputs ih =>
    intro m m' c hsame hr
    obtain ⟨u, hu, hrest⟩ := exec_cons.mp hr
    have hcons : seenIn crypto m (input :: inputs) =
        input.seen m ++ (step crypto m input).elim [] fun u => seenIn crypto u inputs := rfl
    have hseen : seenIn crypto m (input :: inputs) = input.seen m ++ seenIn crypto u inputs := by
      rw [hcons, hu]
      rfl
    obtain ⟨-, -, v, hv, rfl⟩ := step_cases hu
    rw [hseen]
    obtain ⟨d, hd, hsame'⟩ : ∃ d, exec (stepSeen crypto) c (input.seen m) = some d ∧ SameIdentity v d := by
      by_cases hreceipt : ∃ group peer receipt, input.event = .receiptPacket group peer receipt
      · obtain ⟨group, peer, receipt, hevent⟩ := hreceipt
        rw [hevent] at hv
        cases hv
        have hview : input.seen m =
            if sweepsReceipt input.outcome input.now group peer receipt m then [.sweep input.now]
            else [] := by
          unfold Input.seen
          rw [hevent]
        obtain ⟨htask, hlog, htables⟩ := receipt_tables input.outcome input.now group peer
          receipt m
        rw [hview]
        split_ifs at htables ⊢
        · refine ⟨c.setTables (c.state.tables.sweep input.now), rfl, ?_, htask.trans hsame.task,
            hlog.trans hsame.log⟩
          rw [htables, hsame.tables]
          rfl
        · exact ⟨c, rfl, htables.trans hsame.tables, htask.trans hsame.task, hlog.trans hsame.log⟩
      · have hview : input.seen m = [.input input] := by
          unfold Input.seen
          split
          · rename_i group peer receipt hevent
            exact absurd ⟨group, peer, receipt, hevent⟩ hreceipt
          · rfl
        obtain ⟨d, hd, hsame'⟩ := handle_same hsame
          (fun group peer receipt hevent => hreceipt ⟨group, peer, receipt, hevent⟩) v hv
        rw [hview]
        exact ⟨d, exec_cons.mpr ⟨d, hd, rfl⟩, hsame'⟩
    have hmoved : SameIdentity { v with clock := input.now } d :=
      ⟨hsame'.tables, hsame'.task, hsame'.log⟩
    obtain ⟨c', hc', hlast⟩ := ih hmoved hrest
    exact ⟨c', exec_append.mpr ⟨d, hd, hc'⟩, hlast⟩

/-- Runs of which the identities see the same leave them the same. -/
theorem same_of_seen {inputs inputs' : List Input} (hr : exec (step crypto) {} inputs = some m)
    (hr' : exec (step crypto) {} inputs' = some m')
    (hseen : seenIn crypto {} inputs = seenIn crypto {} inputs') : SameIdentity m m' := by
  obtain ⟨c, hc, hsame⟩ := seen_run inputs ⟨rfl, rfl, rfl⟩ hr
  obtain ⟨c', hc', hsame'⟩ := seen_run inputs' ⟨rfl, rfl, rfl⟩ hr'
  rw [hseen, hc'] at hc
  cases hc
  exact hsame.trans hsame'.symm

/-! ## Windows of the senders of proofs -/

/-- A proof of the sender was charged to it in the run, at that time. -/
def ChargedProof (crypto : Crypto) (inputs : List Input) (sender : Bytes) (time : Time) : Prop :=
  ∃ before input after m group peer data, inputs = before ++ input :: after ∧
    exec (step crypto) {} before = some m ∧ input.now = time ∧
    input.event = .proofPacket group peer data ∧
    input.outcome.tox.peerKey group peer = some sender ∧ data.length = kIdentityProofPacketSize ∧
    ((m.proofTables time data).arrivedProof (group, sender) time).1 = true

theorem ChargedProof.append {inputs : List Input} {sender : Bytes} {time : Time}
    (h : ChargedProof crypto inputs sender time) (more : List Input) :
    ChargedProof crypto (inputs ++ more) sender time := by
  obtain ⟨before, input, after, m, group, peer, data, rfl, hrest⟩ := h
  refine ⟨before, input, after ++ more, m, group, peer, data, ?_, hrest⟩
  rw [List.append_assoc, List.cons_append]

/-- Every window was opened by a charge, and the last sweep spared it. -/
structure IdentityTables.Metered (now : Time) (charged : Bytes → Time → Prop) (t : IdentityTables) :
    Prop where
  swept : t.identityLastPrune ≤ now
  opened : ∀ sender window, t.identityRateByGroupSender.lookup sender = some window →
    charged sender window.windowStart ∧ window.windowStart ≤ now
  spared : ∀ sender window, t.identityRateByGroupSender.lookup sender = some window →
    t.identityLastPrune < window.windowStart + kIdentityRateWindow

variable {charged : Bytes → Time → Prop} {t t' : IdentityTables}

/-- A window keeps its start, or the charge opens it anew. -/
theorem takeIdentityBudgetLocked_start (window : IdentityRateWindow) (now : Time) (counter : RateCounter)
    {limit : ℕ} (hlimit : 0 < limit) :
    let taken := takeIdentityBudgetLocked window now counter limit
    (window.windowStart ≠ 0 ∧ taken.2.windowStart = window.windowStart) ∨
      (taken.1 = true ∧ taken.2.windowStart = now) := by
  have hspend : ∀ window : IdentityRateWindow, (window.spend counter).windowStart = window.windowStart := by
    intro window
    cases counter <;> rfl
  unfold takeIdentityBudgetLocked
  by_cases hover : window.windowStart = 0 ∨ kIdentityRateWindow ≤ now - window.windowStart
  · have hcurrent : window.current now = { windowStart := now } := if_pos hover
    have hspent : ({ windowStart := now } : IdentityRateWindow).spent counter = 0 := by
      cases counter <;> rfl
    rw [hcurrent, hspent, if_neg (Nat.not_le_of_lt hlimit)]
    exact .inr ⟨rfl, hspend _⟩
  · have hcurrent : window.current now = window := if_neg hover
    rw [hcurrent]
    refine .inl ⟨fun h => hover (.inl h), ?_⟩
    split_ifs
    · rfl
    · exact hspend window

theorem IdentityTables.Metered.meter (ht : t.Metered now charged) (sender : Bytes)
    (hcharged : (t.takeGroupSenderProofBudgetLocked sender now).1 = true → charged sender now) :
    (t.takeGroupSenderProofBudgetLocked sender now).2.Metered now charged := by
  unfold IdentityTables.takeGroupSenderProofBudgetLocked takeSenderBudgetLocked at hcharged ⊢
  split_ifs at hcharged ⊢ with hfull
  · exact ht
  dsimp only at hcharged ⊢
  have hstart := takeIdentityBudgetLocked_start
    ((t.identityRateByGroupSender.lookup sender).getD {}) now .proofVerifies
    (show 0 < kMaxProofVerifiesPerSender by decide)
  generalize takeIdentityBudgetLocked ((t.identityRateByGroupSender.lookup sender).getD {}) now
    .proofVerifies kMaxProofVerifiesPerSender = taken at hcharged hstart ⊢
  -- the window of the sender was there before, or was opened now
  have hwindow : (charged sender taken.2.windowStart ∧ taken.2.windowStart ≤ now) ∧
      t.identityLastPrune < taken.2.windowStart + kIdentityRateWindow := by
    obtain ⟨hset, hsame⟩ | ⟨htaken, hnow⟩ := hstart
    · cases hlookup : t.identityRateByGroupSender.lookup sender with
      | none =>
        rw [hlookup] at hset
        exact absurd rfl hset
      | some window =>
        rw [hlookup] at hsame
        rw [hsame]
        exact ⟨ht.opened sender window hlookup, ht.spared sender window hlookup⟩
    · rw [hnow]
      have hwide : 0 < kIdentityRateWindow := by decide
      exact ⟨⟨hcharged htaken, Nat.le_refl now⟩,
        Nat.lt_of_le_of_lt ht.swept (Nat.lt_add_of_pos_right hwide)⟩
  refine ⟨ht.swept, fun other window hlookup => ?_, fun other window hlookup => ?_⟩
  · by_cases hother : other = sender
    · subst hother
      rw [AList.lookup_insert] at hlookup
      cases hlookup
      exact hwindow.1
    · rw [AList.lookup_insert_ne hother] at hlookup
      exact ht.opened other window hlookup
  · by_cases hother : other = sender
    · subst hother
      rw [AList.lookup_insert] at hlookup
      cases hlookup
      exact hwindow.2
    · rw [AList.lookup_insert_ne hother] at hlookup
      exact ht.spared other window hlookup

theorem IdentityTables.Metered.congr (ht : t.Metered now charged)
    (hsenders : t'.identityRateByGroupSender = t.identityRateByGroupSender)
    (hlast : t'.identityLastPrune = t.identityLastPrune) : t'.Metered now charged where
  swept := hlast ▸ ht.swept
  opened := hsenders ▸ ht.opened
  spared := by
    rw [hsenders, hlast]
    exact ht.spared

theorem Edit.metered {grounds : Grounds} (hcharged : ∀ sender, grounds.charged sender → charged sender now)
    (ht : t.Metered now charged) (h : Edit now grounds t t') : t'.Metered now charged := by
  cases h with
  | other untouched => exact ht.congr untouched.senders untouched.lastPrune
  | idle =>
    refine ⟨Nat.le_refl now, fun sender window hlookup => ?_, fun sender window hlookup => ?_⟩
    · exact ht.opened sender window (lookup_eraseIf_eq_some.mp hlookup).1
    · have hlive := of_decide_eq_false (lookup_eraseIf_eq_some.mp hlookup).2
      exact Nat.lt_of_not_le fun hover => hlive (Nat.le_sub_of_add_le' hover)
  | meter sender charges => exact ht.meter sender fun htaken => hcharged sender (charges htaken)
  | claim walk friend digest unknown room hints =>
    have hframe := makeRoomForClaim_frame walk friend t
    exact ht.congr hframe.senders hframe.lastPrune
  | register walk nonce candidate unproven fresh friendRoom memberRoom =>
    obtain hroom | ⟨oldest, hroom⟩ := roomForChallenge_cases walk t
    · rw [hroom]
      exact ht.congr rfl rfl
    · rw [hroom]
      exact ht.congr rfl rfl
  | _ => exact ht.congr rfl rfl

theorem IdentityTables.Metered.later (ht : t.Metered now charged) {hence : Time} (h : now ≤ hence) :
    t.Metered hence charged where
  swept := Nat.le_trans ht.swept h
  opened := fun sender window hlookup =>
    ⟨(ht.opened sender window hlookup).1, Nat.le_trans (ht.opened sender window hlookup).2 h⟩
  spared := ht.spared

theorem IdentityTables.Metered.weaken {weaker : Bytes → Time → Prop}
    (h : ∀ sender time, charged sender time → weaker sender time) (ht : t.Metered now charged) :
    t.Metered now weaker where
  swept := ht.swept
  opened := fun sender window hlookup =>
    ⟨h sender _ (ht.opened sender window hlookup).1, (ht.opened sender window hlookup).2⟩
  spared := ht.spared

theorem metered_start : ({} : IdentityTables).Metered now charged where
  swept := Nat.zero_le now
  opened := fun _ _ h => nomatch h
  spared := fun _ _ h => nomatch h

theorem metered_run {inputs : List Input} : ∀ {m : Machine},
    exec (step crypto) {} inputs = some m →
      m.state.tables.Metered m.clock (ChargedProof crypto inputs) := by
  induction inputs using List.reverseRecOn with
  | nil =>
    intro m hr
    cases hr
    exact metered_start
  | append_singleton inputs input ih =>
    intro m hr
    obtain ⟨u, hu, hlast⟩ := exec_append.mp hr
    obtain ⟨m', hstep, hend⟩ := exec_cons.mp hlast
    cases hend
    obtain ⟨hclock, -, v, hv, hm⟩ := step_cases hstep
    have hbefore : u.state.tables.Metered input.now (ChargedProof crypto (inputs ++ [input])) :=
      ((ih hu).later hclock).weaken fun sender time h => h.append [input]
    have hgrants : u.Grants crypto input.outcome input.now input.event
        ⟨fun _ _ _ _ => True, fun _ => True,
          fun sender => ChargedProof crypto (inputs ++ [input]) sender input.now, fun _ => True⟩ :=
      ⟨fun _ _ _ _ _ => trivial, fun _ _ _ _ => trivial, fun _ _ _ _ _ => trivial,
        fun group peer data sender hevent hpeer hlength harrived =>
          ⟨inputs, input, [], u, group, peer, data, rfl, hu, rfl, hevent, hpeer, hlength, harrived⟩⟩
    have hafter := (edits_step hgrants hstep).keep
      (fun _ _ ht hedit => hedit.metered (fun _ hcharged => hcharged) ht) hbefore
    rw [hm] at hafter ⊢
    exact hafter

/-- The table of the windows is full, and the sender has none. -/
def IdentityTables.LacksWindow (sender : Bytes) (t : IdentityTables) : Prop :=
  sender ∉ t.identityRateByGroupSender ∧
    kMaxProofVerifySenders ≤ t.identityRateByGroupSender.keys.length

theorem pruned_lastPrune (now : Time) (m : Machine) :
    now < (m.pruned now).state.tables.identityLastPrune + kIdentityPruneInterval := by
  have hpositive : 0 < kIdentityPruneInterval := by decide
  rw [pruned_tables]
  split_ifs with hrecent
  · have hinterval := (of_decide_eq_true hrecent).2
    exact Nat.lt_of_not_le fun hover =>
      Nat.not_le_of_lt hinterval (Nat.le_sub_of_add_le' hover)
  · rw [sweep_eq, eraseClaims_eq]
    exact Nat.lt_add_of_pos_right hpositive

/-- A proof finds no window only while that many other senders have one of late. -/
theorem lacksWindow_senders {inputs : List Input} (hr : exec (step crypto) {} inputs = some m)
    (hclock : m.clock ≤ now) {data sender : Bytes} (hlacks : (m.proofTables now data).LacksWindow sender) :
    ∃ senders : List Bytes, senders.Nodup ∧ kMaxProofVerifySenders ≤ senders.length ∧
      sender ∉ senders ∧ ∀ other ∈ senders, ∃ time, ChargedProof crypto inputs other time ∧
        time ≤ now ∧ now - time < kIdentityRateWindow + kIdentityPruneInterval := by
  have hpruned : now < (m.proofTables now data).identityLastPrune + kIdentityPruneInterval :=
    pruned_lastPrune now { m with state := { m.state with tables := m.state.tables.noteProof data } }
  have hedits : Edits now ⟨fun _ _ _ _ => True, fun _ => True, fun _ => False,
      fun _ => True⟩ m.state.tables
      (m.proofTables now data) := edits_proofTables m data
  have hmetered : (m.proofTables now data).Metered now (ChargedProof crypto inputs) :=
    hedits.keep (fun _ _ ht hedit => hedit.metered (fun _ hcharged => absurd hcharged id) ht)
      ((metered_run hr).later hclock)
  refine ⟨(m.proofTables now data).identityRateByGroupSender.keys, AList.keys_nodup _, hlacks.2,
    fun hmem => hlacks.1 (AList.mem_keys.mpr hmem), fun other hother => ?_⟩
  obtain ⟨window, hlookup⟩ := Option.isSome_iff_exists.mp
    (AList.lookup_isSome.mpr (AList.mem_keys.mpr hother))
  obtain ⟨hcharged, hpast⟩ := hmetered.opened other window hlookup
  have hspared := hmetered.spared other window hlookup
  refine ⟨window.windowStart, hcharged, hpast, Nat.sub_lt_left_of_lt_add hpast ?_⟩
  calc now < (m.proofTables now data).identityLastPrune + kIdentityPruneInterval := hpruned
    _ < window.windowStart + kIdentityRateWindow + kIdentityPruneInterval :=
      Nat.add_lt_add_right hspared kIdentityPruneInterval
    _ = window.windowStart + (kIdentityRateWindow + kIdentityPruneInterval) := Nat.add_assoc _ _ _

/-- What a run gets from outside apart from receipts: the packets and the calls. -/
def Event.received : Event → Bool
  | .receiptPacket _ _ _ | .resume => false
  | _ => true

/-- A day after friend 2 claimed member 3, the member joins. -/
def lateJoin (receipts : List Input) (sections : ℕ) : List Input :=
  [plainInput 1000 (.mapGroup 0 [1]), plainInput 1000 (.friendPacket 2 (kIdentityHints :: plainKey 3)),
    plainInput 1000 .resume, plainInput 1000 .resume] ++ receipts ++
  plainInput 86402000 (.peerJoin 0 3) :: List.replicate sections (plainInput 86402000 .resume)

/-- Member 4 reports that it has read a message. -/
def receiptInput (now : Time) : Input := plainInput now (.receiptPacket 0 4 ⟨[1], [2], plainKey 4⟩)

def isChallenge : Output → Bool
  | .challenged _ _ => true
  | _ => false

/-- The state a run ends in when it was possible. -/
def ended (inputs : List Input) : Option Machine := exec (step plainCrypto) {} inputs

/-- Friend 2 hints at member 3, and a receipt comes right after it. -/
def hintAndReceipt : List Input :=
  [plainInput 1000 (.friendPacket 2 (kIdentityHints :: plainKey 3)), plainInput 1000 .resume,
    plainInput 1000 .resume, receiptInput 1001]

end Tim2Tox.Identity
