import Tim2Tox.KeyedTables
import Tim2Tox.Signaling

set_option autoImplicit false

/-!
# How an invite ends

An invite ends for the listeners with one terminal notice. Every way it can end takes it from its
table; a packet that comes when the table has no entry for it is told to the listeners all the
same, unless it is a timeout.
-/
namespace Tim2Tox.Signaling
open LabelledRuns KeyedTables

def Notice.terminal (notice : Notice) : Bool :=
  match notice.kind with
  | .newInvitation .. => false
  | _ => true

namespace Manager

/-- How often the listeners were told that an invite ended. -/
def ends (m : Manager) (id : Bytes) : ℕ :=
  m.notices.countP fun notice => notice.terminal && notice.inviteID = id

/-- How often an invite stands in the tables. -/
def pending (m : Manager) (id : Bytes) : ℕ :=
  (if id ∈ m.active then 1 else 0) + if id ∈ m.received then 1 else 0

/-- The operation comes in turn: an answer while the invite is active, a cancel while it rings, and
    a new invite under an id that neither is in the other table nor has ended before. -/
def inTurn (m : Manager) : Op → Bool
  | .invite time _ _ _ _ _ =>
    let id := uniqueID time m.uniqueIdCounter
    id ∉ m.received && m.ends id = 0
  | .task _ =>
    match m.tasks with
    | [] => true
    | (_, packet) :: _ =>
      match packet.type with
      | .invite => packet.inviteID ∉ m.active && m.ends packet.inviteID = 0
      | .accept | .reject => packet.inviteID ∈ m.active
      | .cancel => packet.inviteID ∈ m.received
      | .timeout => true
  | _ => true

section
variable {m m' : Manager} {id : Bytes}

/-! ## Entries and notices -/

theorem pending_eq (hactive : m'.active = m.active) (hreceived : m'.received = m.received) :
    m'.pending id = m.pending id := by
  unfold pending
  rw [hactive, hreceived]

theorem ends_notify (key : Bytes) (kind : NoticeKind) :
    (m.notify key kind).ends id =
      m.ends id + if ({ inviteID := key, kind } : Notice).terminal ∧ key = id then 1 else 0 := by
  unfold ends notify
  rw [List.countP_append]
  simp [List.countP_cons]

/-- An entry that leaves its table pays for one terminal notice. -/
theorem pending_erase_active (id key : Bytes) (h : key ∈ m.active) :
    ({ m with active := m.active.erase key } : Manager).pending id + (if key = id then 1 else 0) =
      m.pending id := by
  unfold pending
  dsimp only
  by_cases hkey : key = id
  · subst hkey
    simp only [AList.mem_erase, h, ne_eq, not_true_eq_false, false_and, if_true, if_false]
    omega
  · have hne : id ≠ key := fun hsame => hkey hsame.symm
    simp only [AList.mem_erase, ne_eq, hne, not_false_eq_true, true_and, hkey, if_false]
    omega

theorem pending_erase_received (id key : Bytes) (h : key ∈ m.received) :
    ({ m with received := m.received.erase key } : Manager).pending id +
      (if key = id then 1 else 0) = m.pending id := by
  unfold pending
  dsimp only
  by_cases hkey : key = id
  · subst hkey
    simp only [AList.mem_erase, h, ne_eq, not_true_eq_false, false_and, if_true, if_false]
  · have hne : id ≠ key := fun hsame => hkey hsame.symm
    simp only [AList.mem_erase, ne_eq, hne, not_false_eq_true, true_and, hkey, if_false]
    omega

/-! ## Timeouts -/

def expiredIds {β : Type} (map : AList fun _ : Bytes => β) (late : β → Bool) : List Bytes :=
  (map.entries.filter fun entry => late entry.2).map Sigma.fst

theorem expiredIds_sublist {β : Type} (map : AList fun _ : Bytes => β) (late : β → Bool) :
    (expiredIds map late).Sublist map.keys :=
  List.Sublist.map Sigma.fst List.filter_sublist

/-- The expired entries of a table pay for as many notices. -/
theorem count_expired {β : Type} (id : Bytes) (map : AList fun _ : Bytes => β) (late : β → Bool) :
    (expiredIds map late).count id +
      (if id ∈ eraseAll (expiredIds map late) map then 1 else 0) =
        if id ∈ map then 1 else 0 := by
  have hsub := expiredIds_sublist map late
  have hnodup : (expiredIds map late).Nodup := hsub.nodup map.keys_nodup
  simp only [mem_eraseAll]
  by_cases hexpired : id ∈ expiredIds map late
  · have hmem : id ∈ map := AList.mem_keys.mpr (hsub.subset hexpired)
    rw [List.count_eq_one_of_mem hnodup hexpired]
    simp [hexpired, hmem]
  · rw [List.count_eq_zero_of_not_mem hexpired]
    simp [hexpired]

theorem foldl_notify_notices (id : Bytes) (ids : List Bytes) : ∀ m : Manager,
    (ids.foldl (fun m id => m.notify id .timedOut) m).ends id = m.ends id + ids.count id ∧
      (ids.foldl (fun m id => m.notify id .timedOut) m).active = m.active ∧
      (ids.foldl (fun m id => m.notify id .timedOut) m).received = m.received := by
  induction ids with
  | nil => simp
  | cons key ids ih =>
    intro m
    obtain ⟨hends, hactive, hreceived⟩ := ih (m.notify key .timedOut)
    rw [List.foldl_cons, hends, hactive, hreceived, ends_notify, List.count_cons]
    refine ⟨?_, rfl, rfl⟩
    simp only [Notice.terminal, true_and, beq_iff_eq]
    omega

theorem foldl_send_same {α : Type} (f : α → ℕ × SignalingPacket) (as : List α) : ∀ m : Manager,
    (as.foldl (fun m a => m.sendToxPacket (f a).1 (f a).2) m).notices = m.notices ∧
      (as.foldl (fun m a => m.sendToxPacket (f a).1 (f a).2) m).active = m.active ∧
      (as.foldl (fun m a => m.sendToxPacket (f a).1 (f a).2) m).received = m.received := by
  induction as with
  | nil => simp
  | cons a as ih => exact fun m => ih (m.sendToxPacket (f a).1 (f a).2)

theorem checkTimeouts_balance (m : Manager) (now : ℕ) (id : Bytes) :
    (m.checkTimeouts now).ends id + (m.checkTimeouts now).pending id = m.ends id + m.pending id := by
  have hsent : (m.expiredSent now).map Prod.fst =
      expiredIds m.active fun info => due now info.deadline := by
    rw [expiredSent, List.map_map]
    rfl
  have hfold : (m.expiredSent now).foldl (fun map entry => map.erase entry.1) m.active =
      eraseAll (expiredIds m.active fun info => due now info.deadline) m.active := by
    rw [eraseAll, ← hsent, List.foldl_map]
  unfold checkTimeouts
  dsimp only
  rw [hfold, hsent]
  change Manager.ends (List.foldl _ (List.foldl _ { m with
      active := eraseAll (expiredIds m.active fun info => due now info.deadline) m.active
      received := eraseAll (m.expiredReceived now) m.received } _) _) id + Manager.pending
    (List.foldl _ (List.foldl _ { m with
      active := eraseAll (expiredIds m.active fun info => due now info.deadline) m.active
      received := eraseAll (m.expiredReceived now) m.received } _) _) id = _
  generalize hm : ({ m with
      active := eraseAll (expiredIds m.active fun info => due now info.deadline) m.active
      received := eraseAll (m.expiredReceived now) m.received } : Manager) = erased
  obtain ⟨hnotices, hactive, hreceived⟩ := foldl_send_same
    (fun entry : Bytes × ℕ => (entry.2, { type := .cancel, inviteID := entry.1 }))
    (m.expiredSent now) erased
  obtain ⟨hends, hactive', hreceived'⟩ := foldl_notify_notices id
    (expiredIds m.active (fun info => due now info.deadline) ++ m.expiredReceived now)
    ((m.expiredSent now).foldl
      (fun m entry => m.sendToxPacket entry.2 { type := .cancel, inviteID := entry.1 }) erased)
  have hstart : ((m.expiredSent now).foldl (fun m entry => m.sendToxPacket entry.2
      { type := .cancel, inviteID := entry.1 }) erased).ends id = m.ends id := by
    unfold ends
    rw [hnotices, ← hm]
  have hpending : erased.pending id =
      (if id ∈ eraseAll (expiredIds m.active fun info => due now info.deadline) m.active
        then 1 else 0) + if id ∈ eraseAll (m.expiredReceived now) m.received then 1 else 0 := by
    rw [← hm]
    rfl
  rw [hends, hstart, pending_eq hactive' hreceived', pending_eq hactive hreceived, hpending,
    List.count_append]
  have hcount := count_expired id m.active fun info => due now info.deadline
  have hcount' := count_expired id m.received fun info => due now info.deadline
  change List.count id (m.expiredReceived now) + _ = _ at hcount'
  unfold pending
  change _ = m.ends id + _
  have hfold' : (expiredIds m.received fun info => due now info.deadline) = m.expiredReceived now := rfl
  rw [hfold'] at hcount'
  omega

/-! ## Steps -/

/-- No invite is told to end that does not leave its table, or the id begins a new invite. -/
def Balanced (m m' : Manager) : Prop :=
  ∀ id, m'.ends id + m'.pending id ≤ m.ends id + m.pending id ∨
    (m'.ends id = m.ends id ∧ m.ends id = 0 ∧ m'.pending id ≤ 1)

theorem Balanced.of_same (hnotices : m'.notices = m.notices)
    (hactive : ∀ key, key ∈ m'.active → key ∈ m.active)
    (hreceived : ∀ key, key ∈ m'.received → key ∈ m.received) : Balanced m m' := by
  intro id
  left
  have hends : m'.ends id = m.ends id := by
    unfold ends
    rw [hnotices]
  have hpending : m'.pending id ≤ m.pending id := by
    unfold pending
    have h₁ := hactive id
    have h₂ := hreceived id
    split_ifs <;> first | omega | tauto
  omega

/-- An invite that goes out is recorded under the id minted for it; nothing else changes. -/
theorem invite_shape (m : Manager) (time now : ℕ) (route : Route) (data : Bytes)
    (onlineUserOnly : Bool) (timeout : ℤ) :
    (m.invite time now route data onlineUserOnly timeout).2.2.notices = m.notices ∧
      (m.invite time now route data onlineUserOnly timeout).2.2.received = m.received ∧
      ((m.invite time now route data onlineUserOnly timeout).2.2.active = m.active ∨
        ∃ info, (m.invite time now route data onlineUserOnly timeout).2.2.active =
          m.active.insert (uniqueID time m.uniqueIdCounter) info) := by
  unfold Manager.invite generateUniqueID
  split_ifs
  · exact ⟨rfl, rfl, Or.inl rfl⟩
  all_goals
    dsimp only
    split
    · exact ⟨rfl, rfl, Or.inl rfl⟩
    · first
        | exact ⟨rfl, rfl, Or.inl rfl⟩
        | exact ⟨rfl, rfl, Or.inr ⟨_, rfl⟩⟩

theorem Balanced.invite (m : Manager) (time now : ℕ) (route : Route) (data : Bytes)
    (onlineUserOnly : Bool) (timeout : ℤ)
    (hturn : m.inTurn (.invite time now route data onlineUserOnly timeout) = true) :
    Balanced m (m.invite time now route data onlineUserOnly timeout).2.2 := by
  simp only [inTurn, Bool.and_eq_true, decide_eq_true_eq] at hturn
  obtain ⟨hnotices, hreceived, hactive⟩ := invite_shape m time now route data onlineUserOnly timeout
  generalize (m.invite time now route data onlineUserOnly timeout).2.2 = m' at *
  rcases hactive with hsame | ⟨info, hinsert⟩
  · exact Balanced.of_same hnotices (by simp [hsame]) (by simp [hreceived])
  · intro id
    have hends : m'.ends id = m.ends id := by
      unfold ends
      rw [hnotices]
    by_cases hid : id = uniqueID time m.uniqueIdCounter
    · right
      subst hid
      refine ⟨hends, hturn.2, ?_⟩
      unfold pending
      simp only [hreceived, hturn.1, if_false]
      split_ifs <;> omega
    · left
      have hpending : m'.pending id = m.pending id := by
        unfold pending
        simp only [hinsert, hreceived, AList.mem_insert, hid, false_or]
      omega

/-- The entry of the packet leaves its table with its notice. -/
theorem Balanced.erase_active (key : Bytes) (kind : NoticeKind) (h : key ∈ m.active)
    (tasks : List (ℕ × SignalingPacket)) :
    Balanced m (({ m with tasks, active := m.active.erase key } : Manager).notify key kind) := by
  intro id
  left
  have hpending := pending_erase_active id key h
  rw [ends_notify]
  change m.ends id + _ + ({ m with active := m.active.erase key } : Manager).pending id ≤ _
  split_ifs at hpending ⊢ <;> first | omega | tauto

theorem Balanced.erase_received (key : Bytes) (kind : NoticeKind) (h : key ∈ m.received)
    (tasks : List (ℕ × SignalingPacket)) :
    Balanced m (({ m with tasks, received := m.received.erase key } : Manager).notify key kind) := by
  intro id
  left
  have hpending := pending_erase_received id key h
  rw [ends_notify]
  change m.ends id + _ + ({ m with received := m.received.erase key } : Manager).pending id ≤ _
  split_ifs at hpending ⊢ <;> first | omega | tauto

theorem Balanced.insert_received (key : Bytes) (info : ReceivedInviteInfo) (inviter : ℕ)
    (groupID data : Bytes) (tasks : List (ℕ × SignalingPacket)) (hactive : key ∉ m.active)
    (hends : m.ends key = 0) :
    Balanced m (({ m with tasks, received := m.received.insert key info } : Manager).notify key
      (.newInvitation inviter groupID data)) := by
  intro id
  rw [ends_notify]
  simp only [Notice.terminal, Bool.false_eq_true, false_and, if_false]
  by_cases hid : id = key
  · right
    subst hid
    refine ⟨rfl, hends, ?_⟩
    unfold pending
    simp only [notify, hactive, if_false, AList.mem_insert, true_or, if_true]
    omega
  · left
    apply Nat.le_of_eq
    change m.ends id + 0 + _ = _
    unfold pending
    simp only [notify, AList.mem_insert, hid, false_or]
    rfl

theorem Balanced.handle (m : Manager) (now friendNumber : ℕ) (packet : SignalingPacket)
    (tasks : List (ℕ × SignalingPacket))
    (hturn : m.inTurn (.task now) = true) (htasks : m.tasks = (friendNumber, packet) :: tasks) :
    Balanced m ({ m with tasks }.handle now friendNumber packet) := by
  simp only [inTurn, htasks] at hturn
  unfold Manager.handle
  rcases htype : packet.type with _ | _ | _ | _ | _
  all_goals
    rw [htype] at hturn
    dsimp only at hturn ⊢
  · simp only [Bool.and_eq_true, decide_eq_true_eq] at hturn
    exact Balanced.insert_received _ _ _ _ _ tasks hturn.1 hturn.2
  · exact Balanced.erase_active _ _ (by simpa using hturn) tasks
  · exact Balanced.erase_active _ _ (by simpa using hturn) tasks
  · exact Balanced.erase_received _ _ (by simpa using hturn) tasks
  · split
    · exact Balanced.of_same rfl (fun _ h => h) (fun _ h => h)
    · rename_i info hlookup
      split_ifs
      · exact Balanced.of_same rfl (fun _ h => h) (fun _ h => h)
      · refine Balanced.erase_received _ _ ?_ tasks
        rw [← AList.lookup_isSome, hlookup]
        rfl

/-- A local answer takes an entry from a table and tells nobody. -/
theorem Balanced.cancel (m : Manager) (id data : Bytes) : Balanced m (m.cancel id data).2 := by
  unfold Manager.cancel
  split
  · exact Balanced.of_same rfl (fun _ h => h) (fun _ h => h)
  · exact Balanced.of_same rfl (fun _ h => (AList.mem_erase.mp h).2) (fun _ h => h)

theorem Balanced.accept (m : Manager) (id data : Bytes) : Balanced m (m.accept id data).2 := by
  unfold Manager.accept
  split
  · exact Balanced.of_same rfl (fun _ h => h) (fun _ h => (AList.mem_erase.mp h).2)
  · split
    · exact Balanced.of_same rfl (fun _ h => h) (fun _ h => h)
    · exact Balanced.of_same rfl (fun _ h => (AList.mem_erase.mp h).2) (fun _ h => h)

theorem Balanced.reject (m : Manager) (id data : Bytes) : Balanced m (m.reject id data).2 := by
  unfold Manager.reject
  split
  · exact Balanced.of_same rfl (fun _ h => h) (fun _ h => (AList.mem_erase.mp h).2)
  · exact Balanced.of_same rfl (fun _ h => h) (fun _ h => h)

theorem inviteInGroup_same (m : Manager) (time : ℕ) (groupID data : Bytes)
    (invitees : List (Option ℕ)) (timeout : ℤ) :
    (m.inviteInGroup time groupID data invitees timeout).2.notices = m.notices ∧
      (m.inviteInGroup time groupID data invitees timeout).2.active = m.active ∧
      (m.inviteInGroup time groupID data invitees timeout).2.received = m.received :=
  foldl_send_same (fun friendNumber : ℕ => (friendNumber, _)) invitees.reduceOption
    { m with uniqueIdCounter := m.uniqueIdCounter + 1 }

theorem step_balanced {op : Op} (hturn : m.inTurn op = true) (hstep : m.step op = some m') :
    Balanced m m' := by
  have hreset : Balanced m m.resetSessionState :=
    Balanced.of_same rfl (fun _ h => absurd h (AList.notMem_empty _))
      (fun _ h => absurd h (AList.notMem_empty _))
  cases op with
  | setManagerImpl managerImpl =>
    rw [← Option.some.inj hstep]
    unfold Manager.setManagerImpl
    dsimp only
    split_ifs
    · exact hreset
    · exact Balanced.of_same rfl (fun _ h => h) (fun _ h => h)
  | resetSessionState =>
    rw [← Option.some.inj hstep]
    exact hreset
  | invite time now route data onlineUserOnly timeout =>
    rw [← Option.some.inj hstep]
    exact Balanced.invite m time now route data onlineUserOnly timeout hturn
  | inviteInGroup time groupID data invitees timeout =>
    rw [← Option.some.inj hstep]
    obtain ⟨hnotices, hactive, hreceived⟩ :=
      inviteInGroup_same m time groupID data invitees timeout
    exact Balanced.of_same hnotices (by simp [hactive]) (by simp [hreceived])
  | cancel id data =>
    rw [← Option.some.inj hstep]
    exact Balanced.cancel m id data
  | accept id data =>
    rw [← Option.some.inj hstep]
    exact Balanced.accept m id data
  | reject id data =>
    rw [← Option.some.inj hstep]
    exact Balanced.reject m id data
  | checkTimeouts now =>
    rw [← Option.some.inj hstep]
    exact fun id => Or.inl (Nat.le_of_eq (checkTimeouts_balance m now id))
  | onToxMessage friendNumber data =>
    rw [← Option.some.inj hstep]
    unfold Manager.onToxMessage
    split
    · exact Balanced.of_same rfl (fun _ h => h) (fun _ h => h)
    · split_ifs
      · exact Balanced.of_same rfl (fun _ h => h) (fun _ h => h)
      · exact Balanced.of_same rfl (fun _ h => h) (fun _ h => h)
  | task now =>
    change m.runTask now = some m' at hstep
    unfold runTask at hstep
    split at hstep
    · contradiction
    · rename_i friendNumber packet tasks htasks
      rw [← Option.some.inj hstep]
      exact Balanced.handle m now friendNumber packet tasks hturn htasks

/-! ## Runs -/

/-- An id stands for one invite that has ended or is pending in one table. -/
def Once (m : Manager) : Prop := ∀ id, m.ends id + m.pending id ≤ 1

theorem Once.step {op : Op} (h : Once m) (hturn : m.inTurn op = true)
    (hstep : m.step op = some m') : Once m' := by
  intro id
  have hold := h id
  rcases step_balanced hturn hstep id with hle | ⟨hends, hzero, hpending⟩
  · omega
  · omega

end

/-- One invite made and answered, one received and called off. -/
def twoCalls : List Op :=
  [.setManagerImpl (some 0), .invite 100 0 ⟨some 3, true, true⟩ (text "ring") false 30,
    .onToxMessage 3 (serializePacket { type := .accept, inviteID := text "inv_100_0" }), .task 5,
    .onToxMessage 4 (serializePacket { type := .invite, inviteID := text "inv_99_0", timeout := 30 }),
    .task 6, .onToxMessage 4 (serializePacket { type := .cancel, inviteID := text "inv_99_0" }),
    .task 7]

end Manager
end Tim2Tox.Signaling
