import Tim2Tox.IdentityClaims

set_option autoImplicit false

/-!
# Challenges are answered once, receipts are forwarded once

The log of a run is the history of both replay filters: what a run recorded or
forwarded is in the filters as long as its time to live and their caps allow.
-/
namespace Tim2Tox.Identity
open KeyedTables MirroredTables ReplayFilters LabelledRuns

def Output.recordedEntry : Output → Option (Time × ChallengeKey)
  | .recorded key now => some (now, key)
  | _ => none

def Output.forwardedEntry : Output → Option (Time × Bytes)
  | .forwarded key now => some (now, key)
  | _ => none

/-- The challenges recorded, in order. -/
def recordedIn (log : List Output) : List (Time × ChallengeKey) := log.filterMap Output.recordedEntry

/-- The receipts forwarded, in order. -/
def forwardedIn (log : List Output) : List (Time × Bytes) := log.filterMap Output.forwardedEntry

theorem recordedIn_append (log more : List Output) :
    recordedIn (log ++ more) = recordedIn log ++ recordedIn more := List.filterMap_append

theorem forwardedIn_append (log more : List Output) :
    forwardedIn (log ++ more) = forwardedIn log ++ forwardedIn more := List.filterMap_append

/-- Friend, chat id and nonce of a challenge's body. -/
def challengeKey (friend data : Bytes) : ChallengeKey :=
  (friend, slice 0 keySize data, slice 64 kIdentityNonceSize data)

/-- Every answer follows the entry of its challenge. -/
def Paired (log : List Output) : Prop :=
  ∀ before key now group peer payload after,
    log = before ++ .answered key now group peer payload :: after →
      ∃ earlier, before = earlier ++ [.recorded key now]

theorem paired_append {log more : List Output} (hlog : Paired log)
    (hmore : ∀ before key now group peer payload after,
      more = before ++ .answered key now group peer payload :: after →
        ∃ earlier, log ++ before = earlier ++ [.recorded key now]) : Paired (log ++ more) := by
  intro before key now group peer payload after hsplit
  obtain ⟨c, rfl, hc⟩ | ⟨c, rfl, hc⟩ := List.append_eq_append_iff.mp hsplit
  · exact hmore c key now group peer payload after hc
  · cases c with
    | nil =>
      obtain ⟨earlier, h⟩ := hmore [] key now group peer payload after hc.symm
      simp only [List.append_nil] at h ⊢
      exact ⟨earlier, h⟩
    | cons item c =>
      obtain ⟨rfl, -⟩ := List.cons.inj hc
      exact hlog before key now group peer payload c rfl

theorem paired_silent {log more : List Output} (hlog : Paired log)
    (hmore : ∀ key now group peer payload, .answered key now group peer payload ∉ more) :
    Paired (log ++ more) := by
  refine paired_append hlog fun before key now group peer payload after hsplit => ?_
  refine absurd ?_ (hmore key now group peer payload)
  rw [hsplit]
  exact List.mem_append_right _ List.mem_cons_self

/-- The filters, their histories and the answer that is under way. -/
structure Machine.Filtered (m : Machine) : Prop where
  answered : Guards kAnsweredChallengeTtl kMaxAnsweredChallenges m.clock (recordedIn m.log)
    m.state.tables.answered
  receipts : Guards kSeenGroupReceiptTtl kMaxSeenGroupReceipts m.clock (forwardedIn m.log)
    m.state.receipts.seenGroupReceipts
  paired : Paired m.log
  answering : ∀ friend data now, m.task = .answer friend data now →
    ∃ earlier, m.log = earlier ++ [.recorded (challengeKey friend data) now]

theorem filtered_start : ({} : Machine).Filtered where
  answered := guards_empty 0
  receipts := guards_empty 0
  paired := fun before key now group peer payload after h => absurd h (by simp)
  answering := fun _ _ _ h => nomatch h

/-! ## Steps that record nothing -/

variable {now : Time} {t : IdentityTables}

/-- The grounds of a step that records no challenge. -/
def Grounds.silent : Grounds := ⟨fun _ _ _ _ => True, fun _ => False, fun _ => True, fun _ => True⟩

theorem Edits.answered {t t' : IdentityTables} {history : List (Time × ChallengeKey)}
    (hedits : Edits now Grounds.silent t t')
    (h : Guards kAnsweredChallengeTtl kMaxAnsweredChallenges now history t.answered) :
    Guards kAnsweredChallengeTtl kMaxAnsweredChallenges now history t'.answered := by
  refine hedits.keep (I := fun t =>
    Guards kAnsweredChallengeTtl kMaxAnsweredChallenges now history t.answered) ?_ h
  intro u u' hu hedit
  cases hedit with
  | other untouched =>
    rw [untouched.answered]
    exact hu
  | claim walk friend digest unknown room hints =>
    change Guards _ _ _ _ (u.makeRoomForClaim walk friend).answered
    rw [(makeRoomForClaim_frame walk friend u).answered]
    exact hu
  | register walk nonce candidate unproven fresh friendRoom memberRoom =>
    obtain hroom | ⟨oldest, hroom⟩ := roomForChallenge_cases walk u
    · rw [hroom]
      exact hu
    · rw [hroom]
      exact hu
  | expire => exact hu.expire
  | record key unseen answers => exact absurd answers id
  | _ => exact hu

/-- Items that are neither recorded, answered nor forwarded. -/
def Output.silent : Output → Bool
  | .challenged _ _ | .accepted _ _ _ => true
  | _ => false

theorem recordedIn_silent {more : List Output} (h : ∀ item ∈ more, item.silent = true) :
    recordedIn more = [] := by
  refine List.filterMap_eq_nil_iff.mpr fun item hitem => ?_
  have hsilent := h item hitem
  cases item with
  | recorded key now => cases hsilent
  | _ => rfl

theorem forwardedIn_silent {more : List Output} (h : ∀ item ∈ more, item.silent = true) :
    forwardedIn more = [] := by
  refine List.filterMap_eq_nil_iff.mpr fun item hitem => ?_
  have hsilent := h item hitem
  cases item with
  | forwarded key now => cases hsilent
  | _ => rfl

/-- What a step does to the event thread and the log when it records nothing. -/
inductive Quiet (m m' : Machine) : Prop
  | same (task : m'.task = m.task) (log : m'.log = m.log)
  | silent (task : ∀ friend data now, m'.task ≠ .answer friend data now) (more : List Output)
      (log : m'.log = m.log ++ more) (quiet : ∀ item ∈ more, item.silent = true)
  | answer (task : m'.task = .idle) (friend data : Bytes) (recorded : Time)
      (answering : m.task = .answer friend data recorded) (group : GroupNumber) (peer : PeerNumber)
      (payload : Bytes)
      (log : m'.log = m.log ++ [.answered (challengeKey friend data) recorded group peer payload])

theorem Quiet.moved {m m' : Machine} (htask : ∀ friend data now, m'.task ≠ .answer friend data now)
    (hlog : m'.log = m.log) : Quiet m m' :=
  .silent htask [] (hlog.trans (List.append_nil _).symm) fun _ h => absurd h List.not_mem_nil

theorem pruned_receipts (now : Time) (m : Machine) :
    (m.pruned now).state.receipts = m.state.receipts ∨
      (m.pruned now).state.receipts = m.state.receipts.sweep now := by
  change (m.state.pruneIdentityStateLocked now false).receipts = _ ∨
    (m.state.pruneIdentityStateLocked now false).receipts = _
  unfold IdentityState.pruneIdentityStateLocked
  split_ifs
  · exact .inl rfl
  · exact .inr rfl

theorem pruned_guards {now : Time} {m : Machine} {history : List (Time × Bytes)}
    (h : Guards kSeenGroupReceiptTtl kMaxSeenGroupReceipts now history
      m.state.receipts.seenGroupReceipts) :
    Guards kSeenGroupReceiptTtl kMaxSeenGroupReceipts now history
      (m.pruned now).state.receipts.seenGroupReceipts := by
  obtain hsame | hswept := pruned_receipts now m
  · rw [hsame]
    exact h
  · rw [hswept]
    exact h.expire

/-- The step leaves the filter of the receipts to its history, or sweeps it. -/
def SweptReceipts (now : Time) (m m' : Machine) : Prop :=
  ∀ history, Guards kSeenGroupReceiptTtl kMaxSeenGroupReceipts now history
      m.state.receipts.seenGroupReceipts →
    Guards kSeenGroupReceiptTtl kMaxSeenGroupReceipts now history m'.state.receipts.seenGroupReceipts

def SweptAnswers (now : Time) (m m' : Machine) : Prop :=
  ∀ history, Guards kAnsweredChallengeTtl kMaxAnsweredChallenges now history
      m.state.tables.answered →
    Guards kAnsweredChallengeTtl kMaxAnsweredChallenges now history m'.state.tables.answered

theorem quiet_filtered {m : Machine} (hm : m.Filtered) (hnow : m.clock ≤ now) (m' : Machine)
    (hanswers : SweptAnswers now m m') (hreceipts : SweptReceipts now m m') (hquiet : Quiet m m') :
    { m' with clock := now }.Filtered := by
  have hanswered := hanswers _ (hm.answered.later hnow)
  have hforwarded := hreceipts _ (hm.receipts.later hnow)
  cases hquiet with
  | same task log =>
    refine ⟨?_, ?_, ?_, fun friend data at' htask => ?_⟩
    · rw [log]
      exact hanswered
    · rw [log]
      exact hforwarded
    · rw [log]
      exact hm.paired
    · obtain ⟨earlier, h⟩ := hm.answering friend data at' (task.symm.trans htask)
      exact ⟨earlier, log.trans h⟩
  | silent task more log quiet =>
    refine ⟨?_, ?_, ?_, fun friend data at' htask => absurd htask (task friend data at')⟩
    · change Guards _ _ _ (recordedIn m'.log) _
      rw [log, recordedIn_append, recordedIn_silent quiet, List.append_nil]
      exact hanswered
    · change Guards _ _ _ (forwardedIn m'.log) _
      rw [log, forwardedIn_append, forwardedIn_silent quiet, List.append_nil]
      exact hforwarded
    · change Paired m'.log
      rw [log]
      refine paired_silent hm.paired fun key at' group peer payload hmem => ?_
      cases quiet _ hmem
  | answer task friend data recorded answering group peer payload log =>
    refine ⟨?_, ?_, ?_, fun friend data at' htask => ?_⟩
    · change Guards _ _ _ (recordedIn m'.log) _
      rw [log, recordedIn_append]
      exact (List.append_nil (recordedIn m.log)).symm ▸ hanswered
    · change Guards _ _ _ (forwardedIn m'.log) _
      rw [log, forwardedIn_append]
      exact (List.append_nil (forwardedIn m.log)).symm ▸ hforwarded
    · change Paired m'.log
      rw [log]
      refine paired_append hm.paired fun before key at' group' peer' payload' after hsplit => ?_
      obtain ⟨earlier, h⟩ := hm.answering friend data recorded answering
      cases before with
      | nil =>
        obtain ⟨hitem, -⟩ := List.cons.inj hsplit
        cases hitem
        exact ⟨earlier, (List.append_nil _).trans h⟩
      | cons item before => exact absurd (List.cons.inj hsplit).2 (by simp)
    · rw [task] at htask
      cases htask

theorem issueIdentityChallenges_quiet (candidates : List Candidate) {m u : Machine}
    (hlog : u.log = m.log) : Quiet m (u.issueIdentityChallenges candidates) := by
  refine .moved (fun friend data at' htask => ?_) hlog
  obtain hidle | hissue := issueIdentityChallenges_task candidates u
  · rw [hidle] at htask
    cases htask
  · rw [hissue] at htask
    cases htask

theorem issueChallenge_quiet (outcome : Outcome) (candidates : List Candidate)
    (prefixes : AList (fun _ : GroupNumber => Option (Bytes × Bytes)))
    (sends : List (FriendNumber × Bytes)) (m : Machine) (now : Time) :
    Quiet m (m.issueChallenge outcome now candidates prefixes sends) := by
  unfold Machine.issueChallenge
  split
  · refine .silent (fun friend data at' htask => nomatch htask) _ rfl fun item hitem => ?_
    obtain ⟨send, -, rfl⟩ := List.mem_map.mp hitem
    rfl
  · dsimp only
    split
    · split_ifs
      · exact .moved (fun friend data at' htask => nomatch htask) rfl
      · exact .moved (fun friend data at' htask => nomatch htask) rfl
    · exact .moved (fun friend data at' htask => nomatch htask) rfl

theorem answerChallenge_quiet (crypto : Crypto) (outcome : Outcome) {friend data : Bytes}
    {recorded : Time} {m : Machine} (htask : m.task = .answer friend data recorded) :
    Quiet m (m.answerChallenge crypto outcome friend data recorded) := by
  unfold Machine.answerChallenge
  dsimp only
  split
  · exact .moved (fun friend data at' htask => nomatch htask) rfl
  · split
    · split
      · exact .moved (fun friend data at' htask => nomatch htask) rfl
      · exact .answer rfl friend data recorded htask _ _ _ rfl
    · exact .moved (fun friend data at' htask => nomatch htask) rfl

theorem verifyProof_quiet (crypto : Crypto) (outcome : Outcome) (sender : GroupMember) (data : Bytes)
    (arrived : Time) (m : Machine) : Quiet m (m.verifyProof crypto outcome sender data arrived) := by
  unfold Machine.verifyProof
  dsimp only
  split
  · refine .silent (fun friend data at' htask => nomatch htask) _ rfl fun item hitem => ?_
    obtain ⟨friend, -, rfl⟩ := List.mem_map.mp hitem
    rfl
  · exact .moved (fun friend data at' htask => nomatch htask) rfl

theorem resume_quiet {crypto : Crypto} {outcome : Outcome} {m m' : Machine}
    (h : m.resume crypto outcome now = some m') :
    Quiet m m' ∧ m'.state.receipts = m.state.receipts := by
  unfold Machine.resume at h
  dsimp only at h
  split at h
  · cases h
  · split at h
    · cases h
      exact ⟨.moved (fun friend data at' htask => nomatch htask) rfl, rfl⟩
    · cases h
      exact ⟨.moved (fun friend data at' htask => nomatch htask) rfl, rfl⟩
  · cases h
    exact ⟨.moved (fun friend data at' htask => nomatch htask) rfl, rfl⟩
  · cases h
    exact ⟨issueIdentityChallenges_quiet _ rfl, rfl⟩
  · split at h
    · cases h
      exact ⟨.moved (fun friend data at' htask => nomatch htask) rfl, rfl⟩
    · cases h
      exact ⟨issueIdentityChallenges_quiet _ rfl, rfl⟩
  · cases h
    refine ⟨issueChallenge_quiet _ _ _ _ _ _, ?_⟩
    unfold Machine.issueChallenge
    split
    · rfl
    · dsimp only
      split
      · split_ifs <;> rfl
      · rfl
  · rename_i friend data recorded htask
    cases h
    refine ⟨answerChallenge_quiet crypto outcome htask, ?_⟩
    unfold Machine.answerChallenge
    dsimp only
    split
    · rfl
    · split
      · split <;> rfl
      · rfl
  · cases h
    refine ⟨verifyProof_quiet _ _ _ _ _ _, ?_⟩
    unfold Machine.verifyProof
    dsimp only
    split <;> rfl
  · cases h
    exact ⟨.moved (fun friend data at' htask => nomatch htask) rfl, rfl⟩

theorem SweptReceipts.same {m m' : Machine} (h : m'.state.receipts = m.state.receipts) :
    SweptReceipts now m m' := by
  intro history hguards
  rw [h]
  exact hguards

/-- Friends' frames and receipts apart, no event records or forwards anything. -/
theorem handle_quiet {crypto : Crypto} {outcome : Outcome} {m m' : Machine} {event : Event}
    (hframe : ∀ number data, event ≠ .friendPacket number data)
    (hreceipt : ∀ group peer receipt, event ≠ .receiptPacket group peer receipt)
    (hidle : event.isCallback = true → m.task = .idle)
    (h : m.handle crypto outcome now event = some m') : Quiet m m' ∧ SweptReceipts now m m' := by
  by_cases hcall : event.isCall = true
  · obtain ⟨htask, hlog, hreceipts, -⟩ := call_cases Grounds.any hcall h
    exact ⟨.same htask hlog, .same hreceipts⟩
  cases event with
  | friendOffline number =>
    cases h
    exact ⟨.same rfl rfl, .same rfl⟩
  | friendOnline number =>
    cases h
    exact ⟨.same rfl rfl, .same rfl⟩
  | friendPacket number data => exact absurd rfl (hframe number data)
  | peerJoin group peer =>
    simp only [Machine.handle] at h
    split at h
    · cases h
      refine ⟨.moved (fun friend data at' htask => ?_) rfl, .same rfl⟩
      change (if isConferenceMapKey group then Task.idle else _) = _ at htask
      split_ifs at htask
    · cases h
      exact ⟨.same rfl rfl, .same rfl⟩
  | peerMessage group peer =>
    simp only [Machine.handle] at h
    split at h
    · cases h
      exact ⟨.same rfl rfl, .same rfl⟩
    · cases h
      exact ⟨.same rfl rfl, .same rfl⟩
  | peerExit group peer selfDisconnected =>
    simp only [Machine.handle] at h
    split_ifs at h
    · split at h
      · cases h
        exact ⟨.same rfl rfl, .same rfl⟩
      · cases h
        refine ⟨.moved (fun friend data at' htask => ?_) rfl, .same rfl⟩
        cases htask
    · cases h
      exact ⟨.same rfl rfl, .same rfl⟩
  | proofPacket group peer data =>
    cases h
    unfold Machine.handleGroupIdentityProof
    split
    · split_ifs
      · refine ⟨.moved (fun friend data at' htask => ?_) rfl, fun history hguards => ?_⟩
        · dsimp only at htask
          split_ifs at htask
        · exact pruned_guards hguards
      · exact ⟨.same rfl rfl, .same rfl⟩
    · exact ⟨.same rfl rfl, .same rfl⟩
  | receiptPacket group peer receipt => exact absurd rfl (hreceipt group peer receipt)
  | resume =>
    obtain ⟨hquiet, hsame⟩ := resume_quiet h
    exact ⟨hquiet, .same hsame⟩
  | _ => exact absurd rfl hcall

/-! ## Challenges that are recorded and receipts that are forwarded -/

theorem recordAnswer_cases (key : ChallengeKey) (now : Time) (t : IdentityTables) :
    ((t.recordAnswer key now).1 = false ∧ (t.recordAnswer key now).2.answered = t.answered) ∨
      ((t.recordAnswer key now).1 = true ∧ key ∉ t.answered.seen ∧
        (t.recordAnswer key now).2.answered = t.answered.record kMaxAnsweredChallenges now key) := by
  have hframe := (untouched_takeBothBudgetsLocked key.1 now .proofsSent kMaxProofsPerFriend
    kMaxProofsGlobal t).answered
  unfold IdentityTables.recordAnswer
  dsimp only
  split_ifs with hseen hcharged
  · exact .inl ⟨rfl, rfl⟩
  · refine .inr ⟨rfl, hseen, ?_⟩
    change ReplayFilter.record _ _ _ (IdentityTables.answered _) = _
    rw [hframe]
  · exact .inl ⟨rfl, hframe⟩

theorem takeReceipt_cases (groupId : Option Bytes) (sender : Bytes) (receipt : StrictGroupReceipt)
    (now : Time) (r : ReceiptTables) :
    ((r.takeReceipt groupId sender receipt now).1 = none ∧
        (r.takeReceipt groupId sender receipt now).2.seenGroupReceipts = r.seenGroupReceipts) ∨
      ∃ key, (r.takeReceipt groupId sender receipt now).1 = some key ∧ key ∉ r.seenGroupReceipts.seen ∧
        (r.takeReceipt groupId sender receipt now).2.seenGroupReceipts =
          r.seenGroupReceipts.record kMaxSeenGroupReceipts now key := by
  unfold ReceiptTables.takeReceipt
  dsimp only
  split_ifs
  · exact .inl ⟨rfl, rfl⟩
  · exact .inl ⟨rfl, rfl⟩
  · cases groupId with
    | none => exact .inl ⟨rfl, rfl⟩
    | some groupId =>
      dsimp only
      split_ifs with hseen
      · exact .inl ⟨rfl, rfl⟩
      · exact .inr ⟨_, rfl, hseen, rfl⟩

theorem pruned_answers (now : Time) (m : Machine) : SweptAnswers now m (m.pruned now) :=
  fun _ hguards => Edits.answered (edits_pruned m) hguards

theorem takeHints_answers {history : List (Time × ChallengeKey)} (walk : Iteration)
    (friend body : Bytes)
    (h : Guards kAnsweredChallengeTtl kMaxAnsweredChallenges now history t.answered) :
    Guards kAnsweredChallengeTtl kMaxAnsweredChallenges now history
      (t.takeHints walk friend now body).2.answered :=
  Edits.answered (edits_takeHints walk trivial body) h

/-- A challenge is recorded and goes to the answer, or is dropped. -/
theorem challenge_filtered {m : Machine} (hm : m.Filtered) (hnow : m.clock ≤ now) (friend body : Bytes) :
    let key := challengeKey friend body
    let recorded := (m.pruned now).state.tables.recordAnswer key now
    (recorded.1 = false → { (m.pruned now).setTables recorded.2 with clock := now }.Filtered) ∧
      (recorded.1 = true → { (m.pruned now).setTables recorded.2 with
        task := .answer friend body now
        log := m.log ++ [Output.recorded key now]
        clock := now }.Filtered) := by
  have hreceipts : SweptReceipts now m (m.pruned now) := fun _ hguards => pruned_guards hguards
  have hanswers := pruned_answers now m
  obtain ⟨hrefused, hsame⟩ | ⟨htaken, hunseen, hrecord⟩ :=
    recordAnswer_cases (challengeKey friend body) now (m.pruned now).state.tables
  · refine ⟨fun _ => ?_, fun htaken => absurd (hrefused.symm.trans htaken) Bool.false_ne_true⟩
    refine quiet_filtered hm hnow _ (fun history hguards => ?_) hreceipts (.same rfl rfl)
    have hkept := hanswers history hguards
    rw [← hsame] at hkept
    exact hkept
  · refine ⟨fun hrefused => absurd (hrefused.symm.trans htaken) Bool.false_ne_true, fun _ => ?_⟩
    have hguards := hanswers _ (hm.answered.later hnow)
    have hrecorded := hguards.record (by decide) hunseen
    rw [← hrecord] at hrecorded
    refine ⟨?_, ?_, ?_, fun friend' data' at' htask => ?_⟩
    · change Guards _ _ _ (recordedIn (m.log ++ [_])) _
      rw [recordedIn_append]
      exact hrecorded
    · change Guards _ _ _ (forwardedIn (m.log ++ [_])) _
      rw [forwardedIn_append]
      exact (List.append_nil (forwardedIn m.log)).symm ▸ hreceipts _ (hm.receipts.later hnow)
    · refine paired_silent hm.paired fun key at' group peer payload hmem => ?_
      cases List.mem_singleton.mp hmem
    · cases htask
      exact ⟨m.log, rfl⟩

theorem announcement_filtered {outcome : Outcome} {number : FriendNumber} {data : Bytes} {m : Machine}
    (hm : m.Filtered) (hnow : m.clock ≤ now) :
    { m.handleGroupIdentityAnnouncement outcome now number data with clock := now }.Filtered := by
  have hreceipts : SweptReceipts now m (m.pruned now) := fun _ hguards => pruned_guards hguards
  have hnothing : { m with clock := now }.Filtered :=
    quiet_filtered hm hnow _ (fun _ h => h) (fun _ h => h) (.same rfl rfl)
  unfold Machine.handleGroupIdentityAnnouncement
  split
  · rename_i friend subtype body _
    have hchallenge := challenge_filtered hm hnow friend body
    have hhints : ∀ task, (∀ friend data now, task ≠ Task.answer friend data now) →
        { (m.pruned now).setTables ((m.pruned now).state.tables.takeHints outcome.walk friend now
          body).2 with task, clock := now }.Filtered := by
      intro task htask
      refine quiet_filtered hm hnow { (m.pruned now).setTables ((m.pruned now).state.tables.takeHints
        outcome.walk friend now body).2 with task } (fun history hguards => ?_) hreceipts
        (.moved htask rfl)
      exact takeHints_answers outcome.walk friend body (pruned_answers now m history hguards)
    dsimp only
    split_ifs with hsubtype hlength hrecorded hframe hadded
    · exact hchallenge.2 hrecorded
    · exact hchallenge.1 (Bool.eq_false_iff.mpr hrecorded)
    · exact hnothing
    · exact hhints .idle fun _ _ _ h => nomatch h
    · exact hhints (.sync _ _) fun _ _ _ h => nomatch h
    · exact hnothing
  · exact hnothing

/-- A receipt is forwarded under a key that is not in the filter, or nothing is. -/
theorem receipt_filtered {outcome : Outcome} {group : GroupNumber} {peer : PeerNumber}
    {receipt : StrictGroupReceipt} {m : Machine} (hm : m.Filtered) (hnow : m.clock ≤ now)
    (hidle : m.task = .idle) :
    { m.handleGroupReceipt outcome now group peer receipt with clock := now }.Filtered := by
  have hnothing : { m with clock := now }.Filtered :=
    quiet_filtered hm hnow _ (fun _ h => h) (fun _ h => h) (.same rfl rfl)
  unfold Machine.handleGroupReceipt
  split
  · rename_i sender _
    split_ifs
    · have hanswered := pruned_answers now
        { m with state := { m.state with receipts := m.state.receipts.countReceived } } _
        (hm.answered.later hnow)
      have hreceipts : Guards kSeenGroupReceiptTtl kMaxSeenGroupReceipts now (forwardedIn m.log)
          (Machine.pruned now { m with
            state := { m.state with receipts := m.state.receipts.countReceived }
            }).state.receipts.seenGroupReceipts := pruned_guards (hm.receipts.later hnow)
      have hlog : (Machine.pruned now { m with
            state := { m.state with receipts := m.state.receipts.countReceived } }).log = m.log := rfl
      have htask : (Machine.pruned now { m with
            state := { m.state with receipts := m.state.receipts.countReceived } }).task = .idle := hidle
      dsimp only
      generalize Machine.pruned now { m with
        state := { m.state with receipts := m.state.receipts.countReceived } } = u
        at hanswered hreceipts hlog htask ⊢
      obtain ⟨hnone, hsame⟩ | ⟨key, hsome, hunseen, hrecord⟩ := takeReceipt_cases
        (u.state.tables.groupNumberToGroupId.lookup group) sender receipt now u.state.receipts
      · rw [hnone]
        rw [← hsame] at hreceipts
        refine ⟨?_, ?_, ?_, fun friend data at' h => ?_⟩
        · change Guards _ _ _ (recordedIn (u.log ++ [])) _
          rw [List.append_nil, hlog]
          exact hanswered
        · change Guards _ _ _ (forwardedIn (u.log ++ [])) _
          rw [List.append_nil, hlog]
          exact hreceipts
        · change Paired (u.log ++ [])
          rw [List.append_nil, hlog]
          exact hm.paired
        · rw [htask] at h
          cases h
      · rw [hsome]
        have hrecorded := hreceipts.record (by decide) hunseen
        rw [← hrecord] at hrecorded
        refine ⟨?_, ?_, ?_, fun friend data at' h => ?_⟩
        · change Guards _ _ _ (recordedIn (u.log ++ [.forwarded key now])) _
          rw [recordedIn_append, hlog]
          exact (List.append_nil (recordedIn m.log)).symm ▸ hanswered
        · change Guards _ _ _ (forwardedIn (u.log ++ [.forwarded key now])) _
          rw [forwardedIn_append, hlog]
          exact hrecorded
        · change Paired (u.log ++ [.forwarded key now])
          rw [hlog]
          refine paired_silent hm.paired fun key at' group peer payload hmem => ?_
          cases List.mem_singleton.mp hmem
        · rw [htask] at h
          cases h
    · exact hnothing
  · exact hnothing

theorem filtered_step {crypto : Crypto} {m m' : Machine} {input : Input} (hm : m.Filtered)
    (h : step crypto m input = some m') : m'.Filtered := by
  obtain ⟨hclock, hcallback, u, hu, rfl⟩ := step_cases h
  have hidle : input.event.isCallback = true → m.task = .idle := fun hevent =>
    (isIdle_iff m.task).mp (hcallback hevent)
  by_cases hframe : ∃ number data, input.event = .friendPacket number data
  · obtain ⟨number, data, hevent⟩ := hframe
    rw [hevent] at hu hidle
    cases hu
    exact announcement_filtered hm hclock
  by_cases hreceipt : ∃ group peer receipt, input.event = .receiptPacket group peer receipt
  · obtain ⟨group, peer, receipt, hevent⟩ := hreceipt
    rw [hevent] at hu hidle
    cases hu
    exact receipt_filtered hm hclock (hidle rfl)
  have hframe' : ∀ number data, input.event ≠ .friendPacket number data :=
    fun number data hevent => hframe ⟨number, data, hevent⟩
  have hedits : Edits input.now Grounds.silent m.state.tables u.state.tables :=
    edits_handle ⟨fun _ _ _ _ _ => trivial,
      fun number data hevent => absurd hevent (hframe' number data), fun _ _ _ _ _ => trivial,
      fun _ _ _ _ _ _ _ _ => trivial⟩ hu
  obtain ⟨hquiet, hreceipts⟩ := handle_quiet hframe'
    (fun group peer receipt hevent => hreceipt ⟨group, peer, receipt, hevent⟩) hidle hu
  exact quiet_filtered hm hclock _ (fun _ hguards => hedits.answered hguards) hreceipts hquiet

theorem filtered_run {crypto : Crypto} {inputs : List Input} {m : Machine}
    (hr : exec (step crypto) {} inputs = some m) : m.Filtered :=
  invariant (fun _ _ _ hm h => filtered_step hm h) filtered_start hr

/-! ## Once within the time to live -/

theorem Machine.Filtered.answered_once {m : Machine} (hm : m.Filtered) {before between after : List Output}
    {key : ChallengeKey} {now hence : Time} {group group' : GroupNumber} {peer peer' : PeerNumber}
    {payload payload' : Bytes}
    (hlog : m.log = before ++ .answered key now group peer payload ::
      (between ++ .answered key hence group' peer' payload' :: after))
    (hsoon : hence - now ≤ kAnsweredChallengeTtl) :
    kMaxAnsweredChallenges ≤ others key (recordedIn between) := by
  obtain ⟨earlier, rfl⟩ := hm.paired before key now group peer payload _ hlog
  have hlog' : m.log = (earlier ++ [.recorded key now] ++ .answered key now group peer payload :: between) ++
      .answered key hence group' peer' payload' :: after := by
    rw [hlog, List.append_assoc _ (_ :: between), List.cons_append]
  obtain ⟨later, hlater⟩ := hm.paired _ key hence group' peer' payload' after hlog'
  -- the second entry lies between the two answers
  obtain rfl | ⟨mid, item, rfl⟩ := between.eq_nil_or_concat
  · have hlast := (List.append_inj' hlater rfl).2
    cases (List.cons.inj hlast).1
  rw [List.concat_eq_append] at hlater hlog ⊢
  rw [← List.cons_append, ← List.append_assoc] at hlater
  obtain ⟨-, hitem⟩ := List.append_inj' hlater rfl
  obtain rfl := (List.cons.inj hitem).1
  have hhistory : recordedIn m.log = recordedIn earlier ++ (now, key) :: recordedIn mid ++
      (hence, key) :: recordedIn after := by
    rw [hlog]
    simp only [recordedIn, List.filterMap_append, List.filterMap_cons,
      Output.recordedEntry, List.append_assoc, List.cons_append, List.nil_append]
  have honce := hm.answered.once _ _ _ _ _ hhistory rfl hsoon
  refine Nat.le_trans honce (others_mono ?_)
  rw [recordedIn_append]
  exact List.subset_append_left _ _

theorem Machine.Filtered.forwarded_once {m : Machine} (hm : m.Filtered)
    {before between after : List Output} {key : Bytes} {now hence : Time}
    (hlog : m.log = before ++ .forwarded key now :: (between ++ .forwarded key hence :: after))
    (hsoon : hence - now ≤ kSeenGroupReceiptTtl) :
    kMaxSeenGroupReceipts ≤ others key (forwardedIn between) := by
  have hhistory : forwardedIn m.log = forwardedIn before ++ (now, key) :: forwardedIn between ++
      (hence, key) :: forwardedIn after := by
    rw [hlog]
    simp only [forwardedIn, List.filterMap_append, List.filterMap_cons, Output.forwardedEntry,
      List.append_assoc, List.cons_append]
  exact hm.receipts.once _ _ _ _ _ hhistory rfl hsoon

/-- Table and queue of both filters hold the same keys, each once, in the order in
    which they came and within the cap; a challenge is answered, and a receipt
    forwarded, twice within the time to live only when a whole table of others was
    recorded in between. -/
theorem replay_filters_hold (crypto : Crypto) (inputs : List Input) (m : Machine)
    (hr : exec (step crypto) {} inputs = some m) :
    let answered := m.state.tables.answered
    let receipts := m.state.receipts.seenGroupReceipts
    (answered.seen.keys.Perm (answered.order.map Prod.snd) ∧ (answered.order.map Prod.snd).Nodup ∧
      answered.order <:+ recordedIn m.log ∧ answered.seen.keys.length ≤ kMaxAnsweredChallenges) ∧
    (receipts.seen.keys.Perm (receipts.order.map Prod.snd) ∧ (receipts.order.map Prod.snd).Nodup ∧
      receipts.order <:+ forwardedIn m.log ∧ receipts.seen.keys.length ≤ kMaxSeenGroupReceipts) ∧
    (∀ before between after key now hence group group' peer peer' payload payload',
      m.log = before ++ .answered key now group peer payload ::
        (between ++ .answered key hence group' peer' payload' :: after) →
      hence - now ≤ kAnsweredChallengeTtl →
        kMaxAnsweredChallenges ≤ others key (recordedIn between)) ∧
    ∀ before between after groupId sender receipt now hence,
      let key := receiptReplayKey groupId sender receipt
      m.log = before ++ .forwarded key now :: (between ++ .forwarded key hence :: after) →
      hence - now ≤ kSeenGroupReceiptTtl →
        kMaxSeenGroupReceipts ≤ others key (forwardedIn between) := by
  have hm := filtered_run hr
  refine ⟨hm.answered.tables, hm.receipts.tables, ?_, ?_⟩
  · intro before between after key now hence group group' peer peer' payload payload' hlog hsoon
    exact hm.answered_once hlog hsoon
  · intro before between after groupId sender receipt now hence key hlog hsoon
    exact hm.forwarded_once hlog hsoon

/-- Friend 2 challenges us twice with one nonce, as member 3 of group 0. -/
def challengeRun : List Input :=
  let frame := kIdentityChallenge :: (plainKey 8 ++ plainKey 3 ++ List.replicate kIdentityNonceSize 7)
  [plainInput 1000 (.friendPacket 2 frame), plainInput 1001 .resume, plainInput 2000 (.friendPacket 2 frame)]

def challenged : Machine := (exec (step plainCrypto) {} challengeRun).getD {}

theorem challenge_answered_once :
    challenged.log.length = 2 ∧ challenged.state.tables.answered.seen.keys.length = 1 ∧
      challenged.state.tables.answered.seen.keys.length ≤ kMaxAnsweredChallenges := by
  have hrun : (exec (step plainCrypto) {} challengeRun).isSome = true := by decide
  have hr : exec (step plainCrypto) {} challengeRun = some challenged :=
    (Option.getD_of_ne_none (Option.isSome_iff_ne_none.mp hrun) {}).symm
  have hlaw := replay_filters_hold plainCrypto challengeRun challenged hr
  exact ⟨by decide, by decide, hlaw.1.2.2.2⟩

end Tim2Tox.Identity
