import Tim2Tox.SignalingCancels
import Tim2Tox.SignalingInvites

set_option autoImplicit false

/-!
# Signaling between sides

Any number of sides that run the manager and know each other under friend numbers. A packet that tox
takes can arrive at any later time, in any order, more than once or never.
-/
namespace Tim2Tox.SignalingNetwork
open LabelledRuns KeyedTables Signaling

variable {ι : Type} [DecidableEq ι]

/-- What a side does by itself, or the arrival of a packet that a side sent. -/
inductive Event (ι : Type) where
  | does (side : ι) (op : Op)
  | arrives (sender : ι) (place : ℕ) (receiver : ι) (friendNumber : ℕ)

def isArrival : Op → Bool
  | .onToxMessage _ _ => true
  | _ => false

/-- `friends` says whom a friend number of a side stands for. -/
def step (friends : ι → ℕ → Option ι) (net : ι → Manager) : Event ι → Option (ι → Manager)
  | .does side op =>
    if isArrival op then none else ((net side).step op).map (Function.update net side)
  | .arrives sender place receiver friendNumber =>
    ((net sender).sent[place]?.filter fun item => friends sender item.1 = some receiver ∧
      friends receiver friendNumber = some sender ∧ SignalingInvites.carried item.2).map fun item =>
        Function.update net receiver ((net receiver).onToxMessage friendNumber (serializePacket item.2))

/-! ## What a side does by itself -/

/-- The side has sent the friend an invite with the id. -/
def Offered (m : Manager) (friendNumber : ℕ) (id : Bytes) : Prop :=
  ∃ packet, (friendNumber, packet) ∈ m.sent ∧ packet.type = .invite ∧ packet.inviteID = id

/-- Why a side sends a packet. -/
def Reason (m : Manager) (friendNumber : ℕ) (packet : SignalingPacket) : Prop :=
  packet.type = .invite ∨
  (packet.type = .cancel ∨ packet.type = .accept) ∧
    (∃ info, m.active.lookup packet.inviteID = some info ∧ info.friendNumber = friendNumber) ∨
  (packet.type = .accept ∨ packet.type = .reject) ∧
    ∃ info, m.received.lookup packet.inviteID = some info ∧ info.inviter = friendNumber

/-- Packets have their reasons, tables only lose invites that were received or gain some that were sent,
    and the listeners are told of timeouts only. -/
structure Alone (m m' : Manager) : Prop where
  sent : m.sent ⊆ m'.sent
  packets : ∀ item ∈ m'.sent, item ∈ m.sent ∨ item.2.timeout < 2 ^ 32 ∧ Reason m item.1 item.2
  received : ∀ id info, m'.received.lookup id = some info → m.received.lookup id = some info
  active : ∀ id info, m'.active.lookup id = some info →
    m.active.lookup id = some info ∨ Offered m' info.friendNumber id
  tasks : m'.tasks = m.tasks
  notices : ∀ notice ∈ m'.notices, notice ∈ m.notices ∨ notice.kind = .timedOut

section
variable {m m' : Manager}

/-- Nothing is sent and nothing told. -/
theorem alone_silent (hsent : m'.sent = m.sent)
    (hreceived : ∀ id info, m'.received.lookup id = some info → m.received.lookup id = some info)
    (hactive : ∀ id info, m'.active.lookup id = some info → m.active.lookup id = some info)
    (htasks : m'.tasks = m.tasks) (hnotices : m'.notices = m.notices) : Alone m m' where
  sent := hsent ▸ List.Subset.refl _
  packets := fun _ hitem => .inl (hsent ▸ hitem)
  received := hreceived
  active := fun id info hinfo => .inl (hactive id info hinfo)
  tasks := htasks
  notices := fun _ hnotice => .inl (hnotices ▸ hnotice)

/-- Packets are sent, all for one reason. -/
theorem alone_sends {items : List (ℕ × SignalingPacket)} (hsent : m'.sent = m.sent ++ items)
    (hitems : ∀ item ∈ items, item.2.timeout < 2 ^ 32 ∧ Reason m item.1 item.2)
    (hreceived : ∀ id info, m'.received.lookup id = some info → m.received.lookup id = some info)
    (hactive : ∀ id info, m'.active.lookup id = some info →
      m.active.lookup id = some info ∨ Offered m' info.friendNumber id)
    (htasks : m'.tasks = m.tasks)
    (hnotices : ∀ notice ∈ m'.notices, notice ∈ m.notices ∨ notice.kind = .timedOut) : Alone m m' where
  sent := hsent ▸ List.subset_append_left _ _
  packets := fun item hitem => (List.mem_append.mp (hsent ▸ hitem)).imp_right (hitems item)
  received := hreceived
  active := hactive
  tasks := htasks
  notices := hnotices

theorem lookup_eraseAll_of {β : Type} {map : AList fun _ : Bytes => β} {keys : List Bytes} {id : Bytes} {value : β}
    (h : (eraseAll keys map).lookup id = some value) : map.lookup id = some value := by
  rw [lookup_eraseAll] at h
  split_ifs at h
  exact h

theorem alone_invite (time now : ℕ) (route : Route) (data : Bytes) (onlineUserOnly : Bool) (timeout : ℤ) :
    Alone m (m.invite time now route data onlineUserOnly timeout).2.2 := by
  have hnothing : Alone m { m with uniqueIdCounter := m.uniqueIdCounter + 1 } :=
    alone_silent rfl (fun _ _ h => h) (fun _ _ h => h) rfl rfl
  unfold Manager.invite Manager.generateUniqueID
  split_ifs
  · exact alone_silent rfl (fun _ _ h => h) (fun _ _ h => h) rfl rfl
  all_goals
    dsimp only
    split
    · exact hnothing
    · first
        | exact hnothing
        | refine alone_sends rfl (fun item hitem => ?_) (fun _ _ h => h) (fun id info hinfo => ?_) rfl
            fun notice hnotice => .inl hnotice
          · rw [List.mem_singleton.mp hitem]
            exact ⟨SignalingInvites.timeout_lt timeout, .inl rfl⟩
          · by_cases hid : id = Manager.uniqueID time m.uniqueIdCounter
            · rw [hid, AList.lookup_insert] at hinfo
              rw [← Option.some.inj hinfo, hid]
              exact .inr ⟨_, List.mem_append_right _ (List.mem_singleton_self _), rfl, rfl⟩
            · rw [AList.lookup_insert_ne hid] at hinfo
              exact .inl hinfo

theorem alone_inviteInGroup (time : ℕ) (groupID data : Bytes) (invitees : List (Option ℕ)) (timeout : ℤ) :
    Alone m (m.inviteInGroup time groupID data invitees timeout).2 := by
  let packet : SignalingPacket :=
    { type := .invite, inviteID := Manager.uniqueID time m.uniqueIdCounter,
      data := text "GID:" ++ cString groupID ++ text ";" ++ cString data, timeout := (timeout % 2 ^ 32).toNat }
  have hfold : (m.inviteInGroup time groupID data invitees timeout).2 =
      { m with
        uniqueIdCounter := m.uniqueIdCounter + 1
        sent := m.sent ++ invitees.reduceOption.map fun friendNumber => (friendNumber, packet) } :=
    SignalingCancels.foldl_sendToxPacket (fun friendNumber => (friendNumber, packet)) invitees.reduceOption _
  rw [hfold]
  refine alone_sends rfl (fun item hitem => ?_) (fun _ _ h => h) (fun _ _ h => .inl h) rfl fun _ h => .inl h
  obtain ⟨friendNumber, -, rfl⟩ := List.mem_map.mp hitem
  exact ⟨SignalingInvites.timeout_lt timeout, .inl rfl⟩

theorem alone_cancel (inviteID data : Bytes) : Alone m (m.cancel inviteID data).2 := by
  unfold Manager.cancel
  cases hinfo : m.active.lookup (cString inviteID) with
  | none => exact alone_silent rfl (fun _ _ h => h) (fun _ _ h => h) rfl rfl
  | some info =>
    refine alone_sends rfl (fun item hitem => ?_) (fun _ _ h => h) (fun _ _ h => .inl (lookup_erase_some h).2) rfl
      fun _ h => .inl h
    rw [List.mem_singleton.mp hitem]
    exact ⟨Nat.two_pow_pos 32, .inr (.inl ⟨.inl rfl, info, hinfo, rfl⟩)⟩

theorem alone_accept (inviteID data : Bytes) : Alone m (m.accept inviteID data).2 := by
  unfold Manager.accept
  cases hreceived : m.received.lookup (cString inviteID) with
  | some info =>
    refine alone_sends rfl (fun item hitem => ?_) (fun _ _ h => (lookup_erase_some h).2) (fun _ _ h => .inl h) rfl
      fun _ h => .inl h
    rw [List.mem_singleton.mp hitem]
    exact ⟨Nat.two_pow_pos 32, .inr (.inr ⟨.inl rfl, info, hreceived, rfl⟩)⟩
  | none =>
    dsimp only
    cases hinfo : m.active.lookup (cString inviteID) with
    | none => exact alone_silent rfl (fun _ _ h => h) (fun _ _ h => h) rfl rfl
    | some info =>
      refine alone_sends rfl (fun item hitem => ?_) (fun _ _ h => h) (fun _ _ h => .inl (lookup_erase_some h).2) rfl
        fun _ h => .inl h
      rw [List.mem_singleton.mp hitem]
      exact ⟨Nat.two_pow_pos 32, .inr (.inl ⟨.inr rfl, info, hinfo, rfl⟩)⟩

theorem alone_reject (inviteID data : Bytes) : Alone m (m.reject inviteID data).2 := by
  unfold Manager.reject
  cases hreceived : m.received.lookup (cString inviteID) with
  | none => exact alone_silent rfl (fun _ _ h => h) (fun _ _ h => h) rfl rfl
  | some info =>
    refine alone_sends rfl (fun item hitem => ?_) (fun _ _ h => (lookup_erase_some h).2) (fun _ _ h => .inl h) rfl
      fun _ h => .inl h
    rw [List.mem_singleton.mp hitem]
    exact ⟨Nat.two_pow_pos 32, .inr (.inr ⟨.inr rfl, info, hreceived, rfl⟩)⟩

theorem alone_checkTimeouts (now : ℕ) : Alone m (m.checkTimeouts now) := by
  rw [SignalingCancels.checkTimeouts_eq]
  refine alone_sends rfl (fun item hitem => ?_) (fun _ _ h => lookup_eraseAll_of h)
    (fun _ _ h => .inl (lookup_eraseAll_of h)) rfl fun notice hnotice => ?_
  · obtain ⟨⟨id, friendNumber⟩, hentry, rfl⟩ := List.mem_map.mp hitem
    obtain ⟨info, hinfo, -, hfriend⟩ := SignalingCancels.mem_expiredSent.mp hentry
    exact ⟨Nat.two_pow_pos 32, .inr (.inl ⟨.inl rfl, info, hinfo, hfriend⟩)⟩
  · refine (List.mem_append.mp hnotice).imp_right fun hlast => ?_
    obtain ⟨id, -, rfl⟩ := List.mem_map.mp hlast
    rfl

theorem alone_empty : Alone m { m with active := ∅, received := ∅ } := by
  refine alone_silent rfl (fun id info hinfo => ?_) (fun id info hinfo => ?_) rfl rfl
  all_goals
    rw [AList.lookup_empty] at hinfo
    contradiction

theorem alone_setManagerImpl (managerImpl : Option ℕ) : Alone m (m.setManagerImpl managerImpl) := by
  have hempty := alone_empty (m := m)
  unfold Manager.setManagerImpl
  dsimp only
  split_ifs
  · exact ⟨hempty.sent, hempty.packets, hempty.received, hempty.active, hempty.tasks, hempty.notices⟩
  · exact alone_silent rfl (fun _ _ h => h) (fun _ _ h => h) rfl rfl

/-- Every op but the task of a packet and its arrival. -/
theorem alone_step {op : Op} (hstep : m.step op = some m') (harrival : isArrival op = false)
    (htask : ∀ now, op ≠ .task now) : Alone m m' := by
  cases op with
  | setManagerImpl managerImpl => exact Option.some.inj hstep ▸ alone_setManagerImpl managerImpl
  | resetSessionState => exact Option.some.inj hstep ▸ alone_empty
  | invite time now route data onlineUserOnly timeout =>
    exact Option.some.inj hstep ▸ alone_invite time now route data onlineUserOnly timeout
  | inviteInGroup time groupID data invitees timeout =>
    exact Option.some.inj hstep ▸ alone_inviteInGroup time groupID data invitees timeout
  | cancel inviteID data => exact Option.some.inj hstep ▸ alone_cancel inviteID data
  | accept inviteID data => exact Option.some.inj hstep ▸ alone_accept inviteID data
  | reject inviteID data => exact Option.some.inj hstep ▸ alone_reject inviteID data
  | checkTimeouts now => exact Option.some.inj hstep ▸ alone_checkTimeouts now
  | onToxMessage friendNumber data => contradiction
  | task now => exact absurd rfl (htask now)

end

/-! ## What the sides know of each other -/

section
variable (friends : ι → ℕ → Option ι) (net : ι → Manager)

/-- `a` has sent the packet to `b`. -/
def Sent (a b : ι) (packet : SignalingPacket) : Prop :=
  ∃ friendNumber, (friendNumber, packet) ∈ (net a).sent ∧ friends a friendNumber = some b

def Invited (a b : ι) (id : Bytes) : Prop := ∃ friendNumber, Offered (net a) friendNumber id ∧
  friends a friendNumber = some b

/-- The friend has sent the packet that the listeners are told of. -/
def Caused (a : ι) (friendNumber : ℕ) (p : ι → SignalingPacket → Prop) : Prop :=
  ∃ b packet, friends a friendNumber = some b ∧ Sent friends net b a packet ∧ p b packet

/-- Invites are sent at will, cancels and answers only of invites between the two sides. -/
def Justified (a : ι) (friendNumber : ℕ) (packet : SignalingPacket) : Prop :=
  packet.timeout < 2 ^ 32 ∧ (packet.type = .invite ∨
    (packet.type = .cancel ∨ packet.type = .accept) ∧ Offered (net a) friendNumber packet.inviteID ∨
    (packet.type = .accept ∨ packet.type = .reject) ∧
      ∃ b, friends a friendNumber = some b ∧ Invited friends net b a packet.inviteID)

/-- What the listeners of a side are told happened at the other side, to an invite between the two. -/
def Told (a : ι) (notice : Notice) : Prop :=
  match notice.kind with
  | .newInvitation inviter groupID data => Caused friends net a inviter fun _ packet =>
    packet.type = .invite ∧ packet.inviteID = notice.inviteID ∧
      groupID = cString (Manager.splitGroup packet.data).1 ∧ data = cString (Manager.splitGroup packet.data).2
  | .accepted invitee data => Caused friends net a invitee fun b packet =>
    packet.type = .accept ∧ packet.inviteID = notice.inviteID ∧ data = cString packet.data ∧
      (Invited friends net a b notice.inviteID ∨ Invited friends net b a notice.inviteID)
  | .rejected invitee data => Caused friends net a invitee fun b packet =>
    packet.type = .reject ∧ packet.inviteID = notice.inviteID ∧ data = cString packet.data ∧
      Invited friends net a b notice.inviteID
  | .cancelled inviter data => Caused friends net a inviter fun b packet =>
    packet.type = .cancel ∧ packet.inviteID = notice.inviteID ∧ data = cString packet.data ∧
      Invited friends net b a notice.inviteID
  | .timedOut => True

structure Causal : Prop where
  packets : ∀ a, ∀ item ∈ (net a).sent, Justified friends net a item.1 item.2
  received : ∀ a id info, (net a).received.lookup id = some info →
    ∃ b, friends a info.inviter = some b ∧ Invited friends net b a id
  active : ∀ a id info, (net a).active.lookup id = some info → Offered (net a) info.friendNumber id
  tasks : ∀ a, ∀ task ∈ (net a).tasks, ∃ b, friends a task.1 = some b ∧ Sent friends net b a task.2
  told : ∀ a, ∀ notice ∈ (net a).notices, Told friends net a notice

end

section
variable {friends : ι → ℕ → Option ι} {net net' : ι → Manager}

/-! ## What was sent stays sent -/

omit [DecidableEq ι] in
theorem Offered.mono {m m' : Manager} {friendNumber : ℕ} {id : Bytes} (hsent : m.sent ⊆ m'.sent)
    (h : Offered m friendNumber id) : Offered m' friendNumber id :=
  h.imp fun _ hpacket => hpacket.imp_left (hsent ·)

omit [DecidableEq ι] in
theorem Invited.mono {a b : ι} {id : Bytes} (hsent : ∀ c, (net c).sent ⊆ (net' c).sent)
    (h : Invited friends net a b id) : Invited friends net' a b id :=
  h.imp fun _ hoffered => hoffered.imp_left (Offered.mono (hsent a))

omit [DecidableEq ι] in
theorem Sent.mono {a b : ι} {packet : SignalingPacket} (hsent : ∀ c, (net c).sent ⊆ (net' c).sent)
    (h : Sent friends net a b packet) : Sent friends net' a b packet :=
  h.imp fun _ hpacket => hpacket.imp_left (hsent a ·)

omit [DecidableEq ι] in
theorem Justified.mono {a : ι} {friendNumber : ℕ} {packet : SignalingPacket}
    (hsent : ∀ c, (net c).sent ⊆ (net' c).sent) (h : Justified friends net a friendNumber packet) :
    Justified friends net' a friendNumber packet := by
  refine h.imp_right fun hwhy => hwhy.imp_right fun hwhy => hwhy.imp ?_ ?_
  · exact And.imp_right (Offered.mono (hsent a))
  · exact And.imp_right fun ⟨b, hfriend, hinvited⟩ => ⟨b, hfriend, hinvited.mono hsent⟩

omit [DecidableEq ι] in
theorem Caused.mono {a : ι} {friendNumber : ℕ} {p q : ι → SignalingPacket → Prop}
    (hsent : ∀ c, (net c).sent ⊆ (net' c).sent) (hpq : ∀ b packet, p b packet → q b packet)
    (h : Caused friends net a friendNumber p) : Caused friends net' a friendNumber q := by
  obtain ⟨b, packet, hfriend, hpacket, hp⟩ := h
  exact ⟨b, packet, hfriend, hpacket.mono hsent, hpq b packet hp⟩

omit [DecidableEq ι] in
theorem Told.mono {a : ι} {notice : Notice} (hsent : ∀ c, (net c).sent ⊆ (net' c).sent)
    (h : Told friends net a notice) : Told friends net' a notice := by
  obtain ⟨id, kind⟩ := notice
  cases kind with
  | newInvitation inviter groupID data => exact Caused.mono hsent (fun _ _ hp => hp) h
  | accepted invitee data =>
    exact Caused.mono hsent (fun _ _ hp => ⟨hp.1, hp.2.1, hp.2.2.1,
      hp.2.2.2.imp (Invited.mono hsent) (Invited.mono hsent)⟩) h
  | rejected invitee data =>
    exact Caused.mono hsent (fun _ _ hp => ⟨hp.1, hp.2.1, hp.2.2.1, hp.2.2.2.mono hsent⟩) h
  | cancelled inviter data =>
    exact Caused.mono hsent (fun _ _ hp => ⟨hp.1, hp.2.1, hp.2.2.1, hp.2.2.2.mono hsent⟩) h
  | timedOut => trivial

/-! ## Steps -/

theorem grows_update (side : ι) {m : Manager} (hsent : (net side).sent ⊆ m.sent) :
    ∀ c, (net c).sent ⊆ (Function.update net side m c).sent := by
  intro c
  by_cases hc : c = side
  · rw [hc, Function.update_self]
    exact hsent
  · rw [Function.update_of_ne hc]
    exact List.Subset.refl _

/-- One side moves on, and all that is new there is accounted for. -/
theorem Causal.update (h : Causal friends net) (side : ι) {m : Manager} (hnet : net' = Function.update net side m)
    (hsent : (net side).sent ⊆ m.sent)
    (hpackets : ∀ item ∈ m.sent, item ∈ (net side).sent ∨ Justified friends net' side item.1 item.2)
    (hreceived : ∀ id info, m.received.lookup id = some info → (net side).received.lookup id = some info ∨
      ∃ b, friends side info.inviter = some b ∧ Invited friends net' b side id)
    (hactive : ∀ id info, m.active.lookup id = some info →
      (net side).active.lookup id = some info ∨ Offered m info.friendNumber id)
    (htasks : ∀ task ∈ m.tasks, task ∈ (net side).tasks ∨
      ∃ b, friends side task.1 = some b ∧ Sent friends net' b side task.2)
    (hnotices : ∀ notice ∈ m.notices, notice ∈ (net side).notices ∨ Told friends net' side notice) :
    Causal friends net' := by
  have hself : net' side = m := hnet ▸ Function.update_self side m net
  have hne : ∀ a, a ≠ side → net' a = net a := fun a ha => hnet ▸ Function.update_of_ne ha m net
  have hgrows : ∀ c, (net c).sent ⊆ (net' c).sent := hnet ▸ grows_update side hsent
  refine ⟨fun a item hitem => ?_, fun a id info hinfo => ?_, fun a id info hinfo => ?_, fun a task htask => ?_,
    fun a notice hnotice => ?_⟩
  all_goals by_cases ha : a = side
  · rw [ha, hself] at hitem
    rw [ha]
    exact (hpackets item hitem).elim (fun hold => (h.packets side item hold).mono hgrows) fun hnew => hnew
  · rw [hne a ha] at hitem
    exact (h.packets a item hitem).mono hgrows
  · rw [ha, hself] at hinfo
    rw [ha]
    refine (hreceived id info hinfo).elim (fun hold => ?_) fun hnew => hnew
    obtain ⟨b, hfriend, hinvited⟩ := h.received side id info hold
    exact ⟨b, hfriend, hinvited.mono hgrows⟩
  · rw [hne a ha] at hinfo
    obtain ⟨b, hfriend, hinvited⟩ := h.received a id info hinfo
    exact ⟨b, hfriend, hinvited.mono hgrows⟩
  · rw [ha, hself] at hinfo ⊢
    exact (hactive id info hinfo).elim (fun hold => (h.active side id info hold).mono hsent) fun hnew => hnew
  · rw [hne a ha] at hinfo ⊢
    exact h.active a id info hinfo
  · rw [ha, hself] at htask
    rw [ha]
    refine (htasks task htask).elim (fun hold => ?_) fun hnew => hnew
    obtain ⟨b, hfriend, hpacket⟩ := h.tasks side task hold
    exact ⟨b, hfriend, hpacket.mono hgrows⟩
  · rw [hne a ha] at htask
    obtain ⟨b, hfriend, hpacket⟩ := h.tasks a task htask
    exact ⟨b, hfriend, hpacket.mono hgrows⟩
  · rw [ha, hself] at hnotice
    rw [ha]
    exact (hnotices notice hnotice).elim (fun hold => (h.told side notice hold).mono hgrows) fun hnew => hnew
  · rw [hne a ha] at hnotice
    exact (h.told a notice hnotice).mono hgrows

theorem Causal.alone (h : Causal friends net) (side : ι) {m : Manager} (halone : Alone (net side) m) :
    Causal friends (Function.update net side m) := by
  have hgrows := grows_update side halone.sent
  refine h.update side rfl halone.sent (fun item hitem => ?_) (fun id info hinfo => .inl (halone.received id info hinfo))
    halone.active (fun task htask => .inl (halone.tasks ▸ htask)) fun notice hnotice => ?_
  · refine (halone.packets item hitem).imp_right fun ⟨htimeout, hreason⟩ => ⟨htimeout, ?_⟩
    rcases hreason with hinvite | ⟨htype, info, hinfo, hfriend⟩ | ⟨htype, info, hinfo, hfriend⟩
    · exact .inl hinvite
    · refine .inr (.inl ⟨htype, ?_⟩)
      rw [Function.update_self, ← hfriend]
      exact (h.active side _ info hinfo).mono halone.sent
    · obtain ⟨b, hknown, hinvited⟩ := h.received side _ info hinfo
      exact .inr (.inr ⟨htype, b, hfriend ▸ hknown, hinvited.mono hgrows⟩)
  · refine (halone.notices notice hnotice).imp_right fun htimedOut => ?_
    unfold Told
    rw [htimedOut]
    trivial

omit [DecidableEq ι] in
/-- What a packet of the other side says of the invite. -/
theorem Causal.between (h : Causal friends net) {a b : ι} {packet : SignalingPacket}
    (hpacket : Sent friends net b a packet) : packet.timeout < 2 ^ 32 ∧ (packet.type = .invite ∨
      packet.type = .cancel ∧ Invited friends net b a packet.inviteID ∨
      packet.type = .accept ∧ (Invited friends net a b packet.inviteID ∨ Invited friends net b a packet.inviteID) ∨
      packet.type = .reject ∧ Invited friends net a b packet.inviteID) := by
  obtain ⟨friendNumber, hmem, hfriend⟩ := hpacket
  obtain ⟨htimeout, hwhy⟩ := h.packets b _ hmem
  refine ⟨htimeout, ?_⟩
  rcases hwhy with hinvite | ⟨htype, hoffered⟩ | ⟨htype, c, hknown, hinvited⟩
  · exact .inl hinvite
  · have hinvited : Invited friends net b a packet.inviteID := ⟨friendNumber, hoffered, hfriend⟩
    exact .inr (htype.imp (fun hcancel => ⟨hcancel, hinvited⟩) fun haccept => .inl ⟨haccept, .inr hinvited⟩)
  · obtain rfl := Option.some.inj (hfriend.symm.trans hknown)
    exact .inr (.inr (htype.imp (fun haccept => ⟨haccept, .inl hinvited⟩) fun hreject => ⟨hreject, hinvited⟩))

/-- The task of a packet changes the tables at its invite and tells the listeners at most one thing. -/
theorem handle_frame (m : Manager) (now friendNumber : ℕ) (packet : SignalingPacket) :
    (m.handle now friendNumber packet).sent = m.sent ∧ (m.handle now friendNumber packet).tasks = m.tasks ∧
      (∀ id info, (m.handle now friendNumber packet).active.lookup id = some info →
        m.active.lookup id = some info) ∧
      ∀ id info, (m.handle now friendNumber packet).received.lookup id = some info →
        m.received.lookup id = some info ∨
          packet.type = .invite ∧ id = packet.inviteID ∧ info.inviter = friendNumber := by
  unfold Manager.handle
  cases packet.type with
  | invite =>
    refine ⟨rfl, rfl, fun _ _ h => h, fun id info hinfo => ?_⟩
    by_cases hid : id = packet.inviteID
    · change (m.received.insert _ _).lookup id = some info at hinfo
      rw [hid, AList.lookup_insert] at hinfo
      exact .inr ⟨rfl, hid, Option.some.inj hinfo ▸ rfl⟩
    · exact .inl ((AList.lookup_insert_ne hid).symm.trans hinfo)
  | accept => exact ⟨rfl, rfl, fun _ _ h => (lookup_erase_some h).2, fun _ _ h => .inl h⟩
  | reject => exact ⟨rfl, rfl, fun _ _ h => (lookup_erase_some h).2, fun _ _ h => .inl h⟩
  | cancel => exact ⟨rfl, rfl, fun _ _ h => h, fun _ _ h => .inl (lookup_erase_some h).2⟩
  | timeout =>
    dsimp only
    cases m.received.lookup packet.inviteID with
    | none => exact ⟨rfl, rfl, fun _ _ h => h, fun _ _ h => .inl h⟩
    | some info =>
      dsimp only
      split_ifs
      · exact ⟨rfl, rfl, fun _ _ h => h, fun _ _ h => .inl h⟩
      · exact ⟨rfl, rfl, fun _ _ h => h, fun _ _ h => .inl (lookup_erase_some h).2⟩

theorem Causal.task (h : Causal friends net) (a : ι) {m : Manager} {now : ℕ} (htask : (net a).runTask now = some m) :
    Causal friends (Function.update net a m) := by
  unfold Manager.runTask at htask
  cases htasks : (net a).tasks with
  | nil =>
    rw [htasks] at htask
    contradiction
  | cons first rest =>
    rw [htasks] at htask
    obtain ⟨friendNumber, packet⟩ := first
    have hm : Manager.handle { net a with tasks := rest } now friendNumber packet = m := Option.some.inj htask
    obtain ⟨b, hfriend, hpacket⟩ := h.tasks a (friendNumber, packet) (htasks ▸ List.mem_cons_self)
    obtain ⟨hsent, hrest, hactive, hreceived⟩ := handle_frame { net a with tasks := rest } now friendNumber packet
    rw [hm] at hsent hrest hactive hreceived
    have hsame : (net a).sent ⊆ m.sent := hsent ▸ List.Subset.refl _
    have hgrows := grows_update a hsame
    refine h.update a rfl hsame (fun item hitem => .inl (hsent ▸ hitem))
      (fun id info hinfo => ?_) (fun id info hinfo => .inl (hactive id info hinfo)) (fun task hmem => ?_)
      fun notice hnotice => ?_
    · refine (hreceived id info hinfo).imp_right fun ⟨htype, hid, hinviter⟩ => ⟨b, hinviter ▸ hfriend, ?_⟩
      obtain ⟨number, hmem, hknown⟩ := hpacket.mono hgrows
      exact ⟨number, ⟨packet, hmem, htype, hid.symm⟩, hknown⟩
    · rw [hrest] at hmem
      exact .inl (htasks ▸ List.mem_cons_of_mem _ hmem)
    · have htold := hpacket.mono hgrows
      rw [← hm, Manager.handle] at hnotice
      rcases (h.between hpacket).2 with htype | ⟨htype, hinvited⟩ | ⟨htype, hinvited⟩ | ⟨htype, hinvited⟩
      all_goals
        rw [htype] at hnotice
        refine (List.mem_append.mp hnotice).imp_right fun hlast => ?_
        rw [List.mem_singleton.mp hlast]
      · exact ⟨b, packet, hfriend, htold, htype, rfl, rfl, rfl⟩
      · exact ⟨b, packet, hfriend, htold, htype, rfl, rfl, hinvited.mono hgrows⟩
      · exact ⟨b, packet, hfriend, htold, htype, rfl, rfl, hinvited.imp (Invited.mono hgrows) (Invited.mono hgrows)⟩
      · exact ⟨b, packet, hfriend, htold, htype, rfl, rfl, hinvited.mono hgrows⟩

theorem Causal.step (h : Causal friends net) {e : Event ι} (he : step friends net e = some net') :
    Causal friends net' := by
  cases e with
  | does side op =>
    change (if isArrival op = true then none else _) = some net' at he
    split_ifs at he with harrival
    obtain ⟨m, hm, rfl⟩ := Option.map_eq_some_iff.mp he
    by_cases htask : ∃ now, op = .task now
    · obtain ⟨now, rfl⟩ := htask
      exact h.task side hm
    · exact h.alone side (alone_step hm (Bool.eq_false_iff.mpr harrival) fun now heq => htask ⟨now, heq⟩)
  | arrives sender place receiver friendNumber =>
    obtain ⟨⟨number, packet⟩, hitem, rfl⟩ := Option.map_eq_some_iff.mp he
    obtain ⟨hplace, hwhich⟩ := Option.filter_eq_some_iff.mp hitem
    obtain ⟨hto, hfrom, hcarried⟩ := of_decide_eq_true hwhich
    have hpacket : Sent friends net sender receiver packet := ⟨number, List.mem_of_getElem? hplace, hto⟩
    unfold Manager.onToxMessage
    rw [SignalingInvites.parse_serializePacket (h.between hpacket).1 hcarried]
    dsimp only
    split_ifs
    · rw [Function.update_eq_self]
      exact h
    · refine h.update receiver rfl (List.Subset.refl _) (fun _ hmem => .inl hmem) (fun _ _ hinfo => .inl hinfo)
        (fun _ _ hinfo => .inl hinfo) (fun task htask => ?_) fun _ hnotice => .inl hnotice
      refine (List.mem_append.mp htask).imp_right fun hlast => ?_
      rw [List.mem_singleton.mp hlast]
      exact ⟨sender, hfrom, hpacket.mono (grows_update receiver (List.Subset.refl _))⟩

omit [DecidableEq ι] in
theorem causal_initial : Causal friends fun _ : ι => {} where
  packets := fun _ _ hitem => absurd hitem List.not_mem_nil
  received := fun _ id info hinfo => absurd (hinfo.symm.trans (AList.lookup_empty id)) (Option.some_ne_none info)
  active := fun _ id info hinfo => absurd (hinfo.symm.trans (AList.lookup_empty id)) (Option.some_ne_none info)
  tasks := fun _ _ htask => absurd htask List.not_mem_nil
  told := fun _ _ hnotice => absurd hnotice List.not_mem_nil

end

/-- Among sides that all run the manager nothing is made up: whatever is lost, late, reordered or
    repeated, a side answers or cancels an invite only towards the other party of it, and what the
    listeners of a side are told of a friend the friend has done, to an invite between the two. -/
theorem answers_follow_invites (friends : ι → ℕ → Option ι) (es : List (Event ι)) (net : ι → Manager)
    (hrun : exec (step friends) (fun _ => {}) es = some net) :
    (∀ a, ∀ item ∈ (net a).sent, Justified friends net a item.1 item.2) ∧
      ∀ a, ∀ notice ∈ (net a).notices, Told friends net a notice := by
  have h : Causal friends net := invariant (fun _ _ _ h he => h.step he) causal_initial hrun
  exact ⟨h.packets, h.told⟩

/-- Two sides, each the friend number 0 of the other: `false` invites `true`, who accepts. -/
def inviteAndAccept : List (Event Bool) :=
  [.does false (.setManagerImpl (some 1)), .does true (.setManagerImpl (some 2)),
    .does false (.invite 1 0 ⟨some 0, true, true⟩ [] false 30), .arrives false 0 true 0, .does true (.task 1),
    .does true (.accept (Manager.uniqueID 1 0) []), .arrives true 0 false 0, .does false (.task 2)]

theorem accepted_follows_invite :
    ∃ net, exec (step fun side n => if n = 0 then some !side else none) (fun _ => {}) inviteAndAccept = some net ∧
      (net false).notices = [⟨Manager.uniqueID 1 0, .accepted 0 []⟩] ∧
      ∀ a, ∀ notice ∈ (net a).notices, Told (fun side n => if n = 0 then some !side else none) net a notice := by
  have hnotices : (exec (step fun side n => if n = 0 then some !side else none) (fun _ => {}) inviteAndAccept).map
      (fun net => (net false).notices) = some [⟨Manager.uniqueID 1 0, .accepted 0 []⟩] := by decide
  obtain ⟨net, hnet, heq⟩ := Option.map_eq_some_iff.mp hnotices
  exact ⟨net, hnet, heq, (answers_follow_invites _ inviteAndAccept net hnet).2⟩

end Tim2Tox.SignalingNetwork
