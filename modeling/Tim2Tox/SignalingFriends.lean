import Tim2Tox.SignalingEnds

set_option autoImplicit false

/-!
# Packets of other friends

The tables are keyed by the invite id alone, and the id is minted by whoever sends the invite. A
packet of one friend can name the invite of another; only the timeout is checked against the
inviter.
-/
namespace Tim2Tox.Signaling
open LabelledRuns

/-- A packet on its way in: when it is handled, from whom, and its payload. -/
structure Incoming where
  now : ℕ
  friendNumber : ℕ
  data : Bytes

/-- Which table an invite stands in. -/
inductive Side where
  | sent
  | received
  deriving DecidableEq

namespace Manager

/-- A packet arrives and its task is run. -/
def process (m : Manager) (incoming : Incoming) : Manager :=
  match parsePacket incoming.data with
  | none => m
  | some packet =>
    if m.managerImpl.isNone then m else m.handle incoming.now incoming.friendNumber packet

/-- Who rings under an id. -/
def ringing (m : Manager) (id : Bytes) : Option ℕ :=
  (m.received.lookup id).map ReceivedInviteInfo.inviter

/-- The invite is exchanged with this friend. -/
def With (m : Manager) (side : Side) (id : Bytes) (friendNumber : ℕ) : Prop :=
  match side with
  | .sent => (m.active.lookup id).map SignalingInviteInfo.friendNumber = some friendNumber
  | .received => m.ringing id = some friendNumber

/-- The entry of the invite is the same and no listener was told that it ended. -/
def Untouched (side : Side) (id : Bytes) (m m' : Manager) : Prop :=
  (match side with
    | .sent => m'.active.lookup id = m.active.lookup id
    | .received => m'.received.lookup id = m.received.lookup id) ∧
  m'.ends id = m.ends id

/-- Of the packets that name the invite none is an answer or a cancel; a ringing invite is not
    named by another invite; and nobody who rings under the id of an invite sent lets it time out. -/
def harmless (side : Side) (id : Bytes) : Option ℕ → List Incoming → Bool
  | _, [] => true
  | ringing, incoming :: rest =>
    match parsePacket incoming.data with
    | none => harmless side id ringing rest
    | some packet =>
      if packet.inviteID ≠ id then harmless side id ringing rest
      else match packet.type with
        | .invite => side = .sent && harmless side id (some incoming.friendNumber) rest
        | .accept | .reject | .cancel => false
        | .timeout => ringing ≠ some incoming.friendNumber && harmless side id ringing rest

section
variable {m m' : Manager} {id : Bytes} {side : Side} {friend : ℕ}

/-! ## One packet -/

theorem ends_notify_terminal (key : Bytes) {kind : NoticeKind}
    (h : ({ inviteID := key, kind } : Notice).terminal = true) :
    (m.notify key kind).ends key = m.ends key + 1 := by
  rw [ends_notify]
  simp [h]

theorem ends_notify_other {key : Bytes} (kind : NoticeKind) (h : key ≠ id) :
    (m.notify key kind).ends id = m.ends id := by
  rw [ends_notify]
  simp [h]

/-- A packet that names another invite. -/
theorem handle_other {packet : SignalingPacket} (now friendNumber : ℕ)
    (hid : packet.inviteID ≠ id) :
    (m.handle now friendNumber packet).active.lookup id = m.active.lookup id ∧
      (m.handle now friendNumber packet).received.lookup id = m.received.lookup id ∧
      (m.handle now friendNumber packet).ends id = m.ends id := by
  have hne : id ≠ packet.inviteID := fun hsame => hid hsame.symm
  unfold handle
  dsimp only
  split
  · exact ⟨rfl, AList.lookup_insert_ne hne, ends_notify_other _ hid⟩
  · exact ⟨AList.lookup_erase_ne hne, rfl, ends_notify_other _ hid⟩
  · exact ⟨AList.lookup_erase_ne hne, rfl, ends_notify_other _ hid⟩
  · exact ⟨rfl, AList.lookup_erase_ne hne, ends_notify_other _ hid⟩
  · split
    · exact ⟨rfl, rfl, rfl⟩
    · split_ifs
      · exact ⟨rfl, rfl, rfl⟩
      · exact ⟨rfl, AList.lookup_erase_ne hne, ends_notify_other _ hid⟩

theorem handle_managerImpl (now friendNumber : ℕ) (packet : SignalingPacket) :
    (m.handle now friendNumber packet).managerImpl = m.managerImpl := by
  unfold handle
  dsimp only
  split
  · rfl
  · rfl
  · rfl
  · rfl
  · split
    · rfl
    · split_ifs <;> rfl

theorem ends_le_handle (m : Manager) (id : Bytes) (now friendNumber : ℕ) (packet : SignalingPacket) :
    m.ends id ≤ (m.handle now friendNumber packet).ends id := by
  have hnotify : ∀ (m' : Manager) key kind, m'.ends id ≤ (m'.notify key kind).ends id := by
    intro m' key kind
    rw [ends_notify]
    omega
  unfold handle
  dsimp only
  split
  · exact hnotify _ _ _
  · exact hnotify _ _ _
  · exact hnotify _ _ _
  · exact hnotify _ _ _
  · split
    · exact Nat.le_refl _
    · split_ifs
      · exact Nat.le_refl _
      · exact hnotify _ _ _

/-- A ringing invite that is not this friend's does not become it by a packet of another. -/
theorem ringing_handle_ne (now friendNumber : ℕ) (packet : SignalingPacket)
    (hother : friendNumber ≠ friend) (h : m.ringing id ≠ some friend) :
    (m.handle now friendNumber packet).ringing id ≠ some friend := by
  by_cases hid : packet.inviteID = id
  · have herase : ((m.received.erase packet.inviteID).lookup id).map ReceivedInviteInfo.inviter ≠
        some friend := by
      rw [hid, AList.lookup_erase]
      simp
    unfold handle
    dsimp only
    split
    · change ((m.received.insert packet.inviteID _).lookup id).map _ ≠ _
      rw [hid, AList.lookup_insert]
      simpa using hother
    · exact h
    · exact h
    · exact herase
    · split
      · exact h
      · split_ifs
        · exact h
        · exact herase
  · unfold ringing
    rw [(handle_other now friendNumber hid).2.1]
    exact h

/-! ## Sequences of packets -/

/-- The invite was touched, for good. -/
def Broken (side : Side) (id : Bytes) (friend : ℕ) (m m' : Manager) : Prop :=
  m.ends id < m'.ends id ∨ (side = .received ∧ m'.ringing id ≠ some friend)

theorem Broken.not_untouched (h : Broken side id friend m m') (hwith : m.With side id friend) :
    ¬ Untouched side id m m' := by
  intro hsame
  rcases h with hmore | ⟨rfl, hnot⟩
  · have := hsame.2
    omega
  · apply hnot
    have hringing : m.ringing id = some friend := hwith
    unfold ringing at hringing ⊢
    rw [hsame.1]
    exact hringing

theorem Broken.process (h : Broken side id friend m m') (incoming : Incoming)
    (hother : incoming.friendNumber ≠ friend) :
    Broken side id friend m (m'.process incoming) := by
  unfold Manager.process
  split
  · exact h
  · rename_i packet _
    split_ifs
    · exact h
    · rcases h with hmore | ⟨hside, hnot⟩
      · have hle := ends_le_handle m' id incoming.now incoming.friendNumber packet
        left
        omega
      · right
        exact ⟨hside, ringing_handle_ne _ _ _ hother hnot⟩

theorem Broken.processAll (rest : List Incoming) : ∀ m', Broken side id friend m m' →
    (∀ incoming ∈ rest, incoming.friendNumber ≠ friend) →
      Broken side id friend m (rest.foldl Manager.process m') := by
  induction rest with
  | nil => exact fun m' h _ => h
  | cons incoming rest ih =>
    intro m' h hothers
    exact ih _ (h.process incoming (hothers incoming List.mem_cons_self))
      fun i hi => hothers i (List.mem_cons_of_mem _ hi)

/-- What one packet that names the invite does, by its type. -/
theorem handle_named {m₀ : Manager} {packet : SignalingPacket} (now friendNumber : ℕ)
    (hid : packet.inviteID = id) (hsame : Untouched side id m₀ m)
    (hwith : m₀.With side id friend) (hother : friendNumber ≠ friend) :
    match packet.type with
    | .invite =>
      if side = .sent then Untouched side id m₀ (m.handle now friendNumber packet) ∧
        (m.handle now friendNumber packet).ringing id = some friendNumber
      else Broken side id friend m₀ (m.handle now friendNumber packet)
    | .accept | .reject | .cancel => Broken side id friend m₀ (m.handle now friendNumber packet)
    | .timeout =>
      if m.ringing id = some friendNumber then
        Broken side id friend m₀ (m.handle now friendNumber packet)
      else m.handle now friendNumber packet = m := by
  have hends := hsame.2
  have htold : ∀ (m' : Manager) (kind : NoticeKind), m'.ends id = m.ends id →
      ({ inviteID := packet.inviteID, kind } : Notice).terminal = true →
        Broken side id friend m₀ (m'.notify packet.inviteID kind) := by
    intro m' kind hm' hterminal
    left
    rw [← hends, ← hm', ← hid, ends_notify_terminal packet.inviteID hterminal]
    omega
  unfold handle
  rcases htype : packet.type with _ | _ | _ | _ | _
  all_goals dsimp only
  · have hringing : ∀ info kind, (({ m with received := m.received.insert packet.inviteID info }
        : Manager).notify packet.inviteID kind).ringing id = some info.inviter := by
      intro info kind
      unfold ringing
      simp only [notify, hid, AList.lookup_insert, Option.map_some]
    split_ifs with hside
    · subst hside
      refine ⟨⟨hsame.1, ?_⟩, hringing _ _⟩
      rw [ends_notify]
      simp only [Notice.terminal, Bool.false_eq_true, false_and, if_false]
      exact hends
    · right
      refine ⟨by cases side <;> simp_all, ?_⟩
      rw [hringing]
      simpa using hother
  · exact htold _ _ rfl rfl
  · exact htold _ _ rfl rfl
  · exact htold _ _ rfl rfl
  · rcases hlookup : m.received.lookup packet.inviteID with _ | info
    · have hquiet : m.ringing id = none := by
        unfold ringing
        rw [← hid, hlookup]
        rfl
      rw [if_neg (by simp [hquiet])]
    · have hrings : m.ringing id = some info.inviter := by
        unfold ringing
        rw [← hid, hlookup]
        rfl
      dsimp only
      by_cases hinviter : info.inviter = friendNumber
      · rw [if_pos (by rw [hrings, hinviter]), if_neg (by simp [hinviter])]
        exact htold _ _ rfl rfl
      · rw [if_neg (by simp [hrings, hinviter]), if_pos hinviter]

theorem processAll_cases {m₀ : Manager} (hwith : m₀.With side id friend) (rest : List Incoming) :
    ∀ m, m.managerImpl.isNone = false → Untouched side id m₀ m →
      (∀ incoming ∈ rest, incoming.friendNumber ≠ friend) →
        (harmless side id (m.ringing id) rest = true ∧
          Untouched side id m₀ (rest.foldl Manager.process m)) ∨
        (harmless side id (m.ringing id) rest = false ∧
          Broken side id friend m₀ (rest.foldl Manager.process m)) := by
  induction rest with
  | nil => exact fun m _ hsame _ => Or.inl ⟨rfl, hsame⟩
  | cons incoming rest ih =>
    intro m hattached hsame hothers
    have hother := hothers incoming List.mem_cons_self
    have hrest : ∀ i ∈ rest, i.friendNumber ≠ friend :=
      fun i hi => hothers i (List.mem_cons_of_mem _ hi)
    rw [List.foldl_cons, harmless]
    rcases hparse : parsePacket incoming.data with _ | packet
    · have hprocess : m.process incoming = m := by simp [process, hparse]
      rw [hprocess]
      exact ih m hattached hsame hrest
    · have hprocess : m.process incoming =
          m.handle incoming.now incoming.friendNumber packet := by
        simp [process, hparse, hattached]
      have hstill : (m.handle incoming.now incoming.friendNumber packet).managerImpl.isNone =
          false := by
        rw [handle_managerImpl]
        exact hattached
      rw [hprocess]
      dsimp only
      by_cases hid : packet.inviteID = id
      · rw [if_neg (by simp [hid])]
        have hcase := handle_named incoming.now incoming.friendNumber hid hsame hwith hother
        rcases htype : packet.type with _ | _ | _ | _ | _
        all_goals
          rw [htype] at hcase
          dsimp only at hcase ⊢
        · by_cases hside : side = .sent
          · rw [if_pos hside] at hcase
            rw [← hcase.2]
            simpa [hside] using ih _ hstill hcase.1 hrest
          · rw [if_neg hside] at hcase
            right
            exact ⟨by simp [hside], hcase.processAll rest _ hrest⟩
        · exact Or.inr ⟨rfl, hcase.processAll rest _ hrest⟩
        · exact Or.inr ⟨rfl, hcase.processAll rest _ hrest⟩
        · exact Or.inr ⟨rfl, hcase.processAll rest _ hrest⟩
        · by_cases hrings : m.ringing id = some incoming.friendNumber
          · rw [if_pos hrings] at hcase
            right
            exact ⟨by simp [hrings], hcase.processAll rest _ hrest⟩
          · rw [if_neg hrings] at hcase
            rw [hcase]
            simpa [hrings] using ih m hattached hsame hrest
      · rw [if_pos hid]
        obtain ⟨hactive, hreceived, hends⟩ :=
          handle_other (m := m) incoming.now incoming.friendNumber hid
        have hringing : (m.handle incoming.now incoming.friendNumber packet).ringing id =
            m.ringing id := by
          unfold ringing
          rw [hreceived]
        have hnext : Untouched side id m₀ (m.handle incoming.now incoming.friendNumber packet) := by
          refine ⟨?_, hends.trans hsame.2⟩
          have hentry := hsame.1
          cases side with
          | sent => exact hactive.trans hentry
          | received => exact hreceived.trans hentry
        rw [← hringing]
        exact ih _ hstill hnext hrest

theorem process_detached (rest : List Incoming) (h : m.managerImpl.isNone = true) :
    rest.foldl Manager.process m = m := by
  induction rest with
  | nil => rfl
  | cons incoming rest ih =>
    have hprocess : m.process incoming = m := by
      unfold process
      split
      · rfl
      · rw [if_pos h]
    rw [List.foldl_cons, hprocess, ih]

end

/-- A call from friend 3 rings. -/
def ringingCall : Manager :=
  { managerImpl := some 0
    received := AList.insert (text "inv_100_0") { inviter := 3, deadline := 30000 } ∅ }

end Manager
end Tim2Tox.Signaling
