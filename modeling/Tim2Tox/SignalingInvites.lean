import Mathlib.Data.List.TakeWhile
import Tim2Tox.PacketFraming

set_option autoImplicit false

/-!
# What an invite carries

The group of an invite and its data travel in one field: `GID:`, the group id, a semicolon, the data.
-/
namespace Tim2Tox.SignalingInvites
open Signaling

/-! ## The other side -/

/-- What a packet's bytes and the id byte before them may take. -/
def carried (packet : SignalingPacket) : Bool :=
  1 + (serializePacket packet).length ≤ PacketFraming.Control.toxMaxCustomPacketSize

/-- Whoever receives the packet has a task posted that, whenever it is run, tells of an invite with
    this group and these data. -/
def Reported (packet : SignalingPacket) (groupID data : Bytes) : Prop :=
  ∀ (m : Manager) (friendNumber : ℕ), m.managerImpl.isSome →
    ∃ task, (m.onToxMessage friendNumber (serializePacket packet)).tasks = m.tasks ++ [task] ∧
      ∀ (later : Manager) (now : ℕ) (rest : List (ℕ × SignalingPacket)), later.tasks = task :: rest →
        (later.runTask now).map Manager.notices = some (later.notices ++
          [{ inviteID := packet.inviteID, kind := .newInvitation friendNumber groupID data }])

/-- The packets that were handed to tox in between. -/
def sentSince (before after : Manager) : List SignalingPacket :=
  (after.sent.drop before.sent.length).map Prod.snd

/-- Every packet of an invite that tox takes is reported with the group and the data. -/
def Intact (before after : Manager) (groupID data : Bytes) : Prop :=
  ∀ packet ∈ sentSince before after, carried packet = true → Reported packet groupID data

/-! ## Packets -/

section
variable {packet : SignalingPacket}

theorem ofCode_code (type : SignalingType) : SignalingType.ofCode type.code = some type := by
  cases type <;> rfl

/-- The packet with the machine words that are copied. -/
def framed (packet : SignalingPacket) : PacketFraming.Packet :=
  { type := packet.type.code, inviteID := packet.inviteID, data := packet.data,
    timeout := UInt32.ofNat packet.timeout }

theorem serializePacket_framed (htimeout : packet.timeout < 2 ^ 32) :
    serializePacket packet = PacketFraming.serializePacket .little (framed packet) := by
  have hword : (UInt32.ofNat packet.timeout).toNat = packet.timeout := Nat.mod_eq_of_lt htimeout
  have hbytes := PacketFraming.littleEndian_htonl (UInt32.ofNat packet.timeout)
  rw [hword] at hbytes
  rw [serializePacket, ← hbytes]
  rfl

theorem serializePacket_length : (serializePacket packet).length =
    13 + packet.inviteID.length + packet.data.length := by
  rw [serializePacket]
  simp only [List.length_append, List.length_cons, List.length_nil, littleEndian32, bigEndian32,
    List.length_reverse]
  omega

theorem parse_serializePacket (htimeout : packet.timeout < 2 ^ 32) (hcarried : carried packet = true) :
    parsePacket (serializePacket packet) = some packet := by
  have hshort := of_decide_eq_true hcarried
  rw [serializePacket_length] at hshort
  have hmax : PacketFraming.Control.toxMaxCustomPacketSize = 1373 := rfl
  have hid : (framed packet).inviteID.length < 2 ^ 32 := by
    change packet.inviteID.length < 2 ^ 32
    omega
  have hdata : (framed packet).data.length < 2 ^ 32 := by
    change packet.data.length < 2 ^ 32
    omega
  have hlength : (PacketFraming.serializePacket .little (framed packet)).length <
      PacketFraming.Target.sizeMax .lp64 := by
    rw [← serializePacket_framed htimeout, serializePacket_length]
    change _ < 2 ^ 64
    omega
  have hhandled : (framed packet).handled = some packet := by
    rw [PacketFraming.Packet.handled, framed, ofCode_code, Option.map_some,
      show (UInt32.ofNat packet.timeout).toNat = packet.timeout from Nat.mod_eq_of_lt htimeout]
  rw [serializePacket_framed htimeout, PacketFraming.parsePacket_handled 0 hlength,
    PacketFraming.parsePacket_serializePacket .lp64 0 hid hdata hlength, Option.bind_some, hhandled]

/-- What is reported is what the receiver splits the data into. -/
theorem reported_iff {groupID data : Bytes} (htype : packet.type = .invite)
    (htimeout : packet.timeout < 2 ^ 32) (hcarried : carried packet = true) :
    Reported packet groupID data ↔ cString (Manager.splitGroup packet.data).1 = groupID ∧
      cString (Manager.splitGroup packet.data).2 = data := by
  have hparse := parse_serializePacket htimeout hcarried
  have hposted : ∀ (m : Manager) (friendNumber : ℕ), m.managerImpl.isSome →
      (m.onToxMessage friendNumber (serializePacket packet)).tasks =
        m.tasks ++ [(friendNumber, packet)] := by
    intro m friendNumber hattached
    have hnone : m.managerImpl.isNone = false := by
      rw [← Option.not_isSome, hattached]
      rfl
    rw [Manager.onToxMessage, hparse]
    dsimp only
    rw [hnone]
    rfl
  have hrun : ∀ (later : Manager) (now friendNumber : ℕ) (rest : List (ℕ × SignalingPacket)),
      later.tasks = (friendNumber, packet) :: rest →
      (later.runTask now).map Manager.notices = some (later.notices ++
        [{ inviteID := packet.inviteID, kind := .newInvitation friendNumber
            (cString (Manager.splitGroup packet.data).1) (cString (Manager.splitGroup packet.data).2) }]) := by
    intro later now friendNumber rest htasks
    rw [Manager.runTask, htasks]
    simp only [Manager.handle, htype]
    rfl
  constructor
  · intro hreported
    obtain ⟨task, htask, hnotices⟩ := hreported { managerImpl := some 0 } 0 rfl
    rw [hposted _ 0 rfl] at htask
    have hsame := List.append_cancel_left htask
    rw [List.singleton_inj] at hsame
    have hsaid := hnotices { tasks := [task] } 0 [] rfl
    rw [hrun _ 0 0 [] (by rw [hsame])] at hsaid
    have hlist := List.append_cancel_left (Option.some.inj hsaid)
    rw [List.singleton_inj, Notice.mk.injEq, NoticeKind.newInvitation.injEq] at hlist
    exact ⟨hlist.2.2.1, hlist.2.2.2⟩
  · intro hsplit m friendNumber hattached
    refine ⟨(friendNumber, packet), hposted m friendNumber hattached, ?_⟩
    intro later now rest htasks
    rw [hrun later now friendNumber rest htasks, hsplit.1, hsplit.2]

end

/-! ## Splitting -/

def mark : Bytes := text "GID:"

/-- The string comes out of `CString` as it is. -/
structure Whole (s : Bytes) : Prop where
  short : s.length ≤ 1000000
  noNul : 0 ∉ s

theorem takeWhile_ne_eq_self {b : UInt8} {s : Bytes} : s.takeWhile (· ≠ b) = s ↔ b ∉ s := by
  rw [List.takeWhile_eq_self_iff]
  constructor
  · intro hall hmem
    exact absurd rfl (of_decide_eq_true (hall b hmem))
  · intro hnot c hc
    apply decide_eq_true
    rintro rfl
    exact hnot hc

theorem whole_cString (s : Bytes) : Whole (cString s) := by
  rw [cString]
  split_ifs with hlong
  · exact ⟨Nat.zero_le _, List.not_mem_nil⟩
  · refine ⟨Nat.le_trans (List.takeWhile_prefix _).length_le (Nat.not_lt.mp hlong), ?_⟩
    intro hzero
    have hne := List.mem_takeWhile_imp hzero
    exact absurd rfl (of_decide_eq_true hne)

theorem Whole.cString {s : Bytes} (h : Whole s) : cString s = s := by
  rw [Signaling.cString, if_neg (Nat.not_lt.mpr h.short)]
  exact takeWhile_ne_eq_self.mpr h.noNul

theorem Whole.of_subset {s t : Bytes} (h : Whole s) (hsub : t ⊆ s) (hlength : t.length ≤ s.length) : Whole t :=
  ⟨Nat.le_trans hlength h.short, fun hzero => h.noNul (hsub hzero)⟩

section
variable {rest : Bytes}

/-- What follows the mark is split at its first semicolon. -/
theorem splitGroup_mark (rest : Bytes) : Manager.splitGroup (mark ++ rest) =
    if 59 ∈ rest then (rest.takeWhile (· ≠ 59), rest.drop ((rest.takeWhile (· ≠ 59)).length + 1))
    else (rest, mark ++ rest) := by
  have hmark : (text "GID:").isPrefixOf (mark ++ rest) = true :=
    List.isPrefixOf_iff_prefix.mpr (List.prefix_append mark rest)
  have hdrop : (mark ++ rest).drop 4 = rest := List.drop_left' rfl
  rw [Manager.splitGroup, if_pos hmark]
  dsimp only
  rw [hdrop]
  by_cases hmem : 59 ∈ rest
  · have hlt : (rest.takeWhile (· ≠ 59)).length < rest.length := by
      apply Nat.lt_of_le_of_ne (List.takeWhile_prefix _).length_le
      intro heq
      exact takeWhile_ne_eq_self.mp ((List.takeWhile_prefix _).eq_of_length heq) hmem
    rw [if_pos hlt, if_pos hmem]
  · have hall : rest.takeWhile (· ≠ 59) = rest := takeWhile_ne_eq_self.mpr hmem
    rw [hall, if_neg (Nat.lt_irrefl _), if_neg hmem]

theorem splitGroup_unmarked {data : Bytes} (h : ¬ mark <+: data) :
    Manager.splitGroup data = ([], data) := by
  have hmark : ¬ (text "GID:").isPrefixOf data = true := fun hprefix =>
    h (List.isPrefixOf_iff_prefix.mp hprefix)
  rw [Manager.splitGroup, if_neg hmark]

end

/-- The group id loses what follows its first semicolon. -/
theorem splitGroup_grouped (groupID data : Bytes) :
    (Manager.splitGroup (mark ++ (groupID ++ 59 :: data))).1 = groupID.takeWhile (· ≠ 59) := by
  have hmem : 59 ∈ groupID ++ 59 :: data := List.mem_append_right _ List.mem_cons_self
  rw [splitGroup_mark, if_pos hmem]
  induction groupID with
  | nil => rfl
  | cons b groupID ih =>
    rw [List.cons_append, List.takeWhile_cons, List.takeWhile_cons]
    have hrest := ih (List.mem_append_right _ List.mem_cons_self)
    dsimp only at hrest ⊢
    rw [hrest]

theorem splitGroup_clean {groupID data : Bytes} (h : 59 ∉ groupID) :
    Manager.splitGroup (mark ++ (groupID ++ 59 :: data)) = (groupID, data) := by
  have hmem : 59 ∈ groupID ++ 59 :: data := List.mem_append_right _ List.mem_cons_self
  have hfirst := splitGroup_grouped groupID data
  have hall : groupID.takeWhile (· ≠ 59) = groupID := takeWhile_ne_eq_self.mpr h
  rw [splitGroup_mark, if_pos hmem] at hfirst ⊢
  dsimp only at hfirst
  rw [hfirst, hall, ← List.drop_drop, List.drop_left]
  rfl

/-- A group and data come back exactly if nothing cuts them. -/
theorem grouped_iff (groupID data : Bytes) :
    (cString (Manager.splitGroup (mark ++ (cString groupID ++ 59 :: cString data))).1 = groupID ∧
      cString (Manager.splitGroup (mark ++ (cString groupID ++ 59 :: cString data))).2 = data) ↔
      Whole groupID ∧ 59 ∉ groupID ∧ Whole data := by
  constructor
  · rintro ⟨hgroup, hdata⟩
    have hwhole : Whole groupID := hgroup ▸ whole_cString _
    rw [hwhole.cString] at hgroup hdata
    rw [splitGroup_grouped] at hgroup
    have hfront := List.takeWhile_prefix (p := (· ≠ 59)) (l := groupID)
    have hcut : Whole (groupID.takeWhile (· ≠ 59)) := hwhole.of_subset hfront.subset hfront.length_le
    rw [hcut.cString] at hgroup
    have hsemicolon : 59 ∉ groupID := takeWhile_ne_eq_self.mp hgroup
    rw [splitGroup_clean hsemicolon, (whole_cString data).cString] at hdata
    exact ⟨hwhole, hsemicolon, hdata ▸ whole_cString data⟩
  · rintro ⟨hgroup, hsemicolon, hdata⟩
    rw [hgroup.cString, hdata.cString, splitGroup_clean hsemicolon]
    exact ⟨hgroup.cString, hdata.cString⟩

/-- Data without a group come back unless they look like data with one. -/
theorem plain_iff (data : Bytes) :
    (cString (Manager.splitGroup (cString data)).1 = [] ∧
      cString (Manager.splitGroup (cString data)).2 = data) ↔
      Whole data ∧ (mark <+: data → data = mark) := by
  constructor
  · rintro ⟨hgroup, hdata⟩
    have hwhole : Whole data := hdata ▸ whole_cString _
    refine ⟨hwhole, ?_⟩
    rintro ⟨rest, rfl⟩
    rw [hwhole.cString, splitGroup_mark] at hgroup hdata
    split_ifs at hgroup hdata with hmem
    · -- the reported data are shorter
      have hlength := congrArg List.length hdata
      have hdrop : Whole (rest.drop ((rest.takeWhile (· ≠ 59)).length + 1)) := by
        apply hwhole.of_subset
        · exact fun b hb => List.mem_append_right _ (List.mem_of_mem_drop hb)
        · rw [List.length_drop, List.length_append]
          omega
      rw [hdrop.cString, List.length_drop, List.length_append, show mark.length = 4 from rfl] at hlength
      omega
    · have hrest : Whole rest := hwhole.of_subset (List.subset_append_right _ _) (by
        rw [List.length_append]
        omega)
      rw [hrest.cString] at hgroup
      rw [hgroup, List.append_nil]
  · rintro ⟨hwhole, hmark⟩
    rw [hwhole.cString]
    by_cases hlooks : mark <+: data
    · rw [hmark hlooks]
      decide
    · rw [splitGroup_unmarked hlooks]
      exact ⟨rfl, hwhole.cString⟩

/-! ## Invites -/

/-- The bytes of an invite with so many bytes of data and the id byte before them are too many. -/
def TooLong (m : Manager) (time dataLength : ℕ) : Prop :=
  PacketFraming.Control.toxMaxCustomPacketSize <
    14 + (Manager.uniqueID time m.uniqueIdCounter).length + dataLength

/-- When a group invite carries its group and data. -/
def GroupPasses (m : Manager) (time : ℕ) (groupID data : Bytes) (invitees : List (Option ℕ)) : Prop :=
  (∀ invitee ∈ invitees, invitee = none) ∨
    TooLong m time (5 + (cString groupID).length + (cString data).length) ∨
      Whole groupID ∧ 59 ∉ groupID ∧ Whole data

/-- When an invite without a group carries its data. -/
def PlainPasses (m : Manager) (time : ℕ) (route : Route) (data : Bytes) (onlineUserOnly : Bool) : Prop :=
  (m.managerImpl = none ∨ route.friendNumber = none ∨ route.toxReady = false ∨
      (onlineUserOnly = true ∧ route.online = false)) ∨
    TooLong m time (cString data).length ∨ Whole data ∧ (mark <+: data → data = mark)

section
variable {m : Manager} {packet : SignalingPacket} {groupID data : Bytes}

theorem sendToxPacket_all (packet : SignalingPacket) (friends : List ℕ) : ∀ m : Manager,
    (friends.foldl (fun m friendNumber => m.sendToxPacket friendNumber packet) m).sent =
      m.sent ++ friends.map fun friendNumber => (friendNumber, packet) := by
  induction friends with
  | nil =>
    intro m
    exact (List.append_nil _).symm
  | cons friendNumber friends ih =>
    intro m
    rw [List.foldl_cons, ih, List.map_cons]
    exact List.append_assoc m.sent [(friendNumber, packet)] _

theorem intact_of_sent {after : Manager} {friends : List ℕ}
    (hsent : after.sent = m.sent ++ friends.map fun friendNumber => (friendNumber, packet)) :
    Intact m after groupID data ↔
      friends = [] ∨ carried packet = false ∨ Reported packet groupID data := by
  have hsince : sentSince m after = friends.map fun _ => packet := by
    rw [sentSince, hsent, List.drop_left, List.map_map]
    rfl
  rw [Intact, hsince]
  cases friends with
  | nil => exact ⟨fun _ => Or.inl rfl, fun _ packet hpacket => absurd hpacket List.not_mem_nil⟩
  | cons friendNumber friends =>
    constructor
    · intro hall
      right
      have hfirst := hall packet List.mem_cons_self
      cases hcarried : carried packet with
      | false => exact Or.inl rfl
      | true => exact Or.inr (hfirst hcarried)
    · intro hcases sent hmem hcarried
      obtain ⟨-, -, rfl⟩ := List.mem_map.mp hmem
      rw [hcarried] at hcases
      simpa using hcases

theorem carried_iff : carried packet = false ↔
    PacketFraming.Control.toxMaxCustomPacketSize < 14 + packet.inviteID.length + packet.data.length := by
  rw [carried, decide_eq_false_iff_not, serializePacket_length]
  omega

theorem timeout_lt (timeout : ℤ) : (timeout % 2 ^ 32).toNat < 2 ^ 32 := by
  have hlt := Int.emod_lt_of_pos timeout (show (0 : ℤ) < 2 ^ 32 by decide)
  omega

theorem intact_iff {after : Manager} {friends : List ℕ} {split : Prop} (htype : packet.type = .invite)
    (htimeout : packet.timeout < 2 ^ 32)
    (hsent : after.sent = m.sent ++ friends.map fun friendNumber => (friendNumber, packet))
    (hsplit : (cString (Manager.splitGroup packet.data).1 = groupID ∧
      cString (Manager.splitGroup packet.data).2 = data) ↔ split) :
    Intact m after groupID data ↔ friends = [] ∨ carried packet = false ∨ split := by
  rw [intact_of_sent hsent]
  cases hcarried : carried packet with
  | false => simp
  | true => rw [reported_iff htype htimeout hcarried, hsplit]

theorem reduceOption_eq_nil {invitees : List (Option ℕ)} :
    invitees.reduceOption = [] ↔ ∀ invitee ∈ invitees, invitee = none :=
  List.filterMap_eq_nil_iff

theorem group_intact (m : Manager) (time : ℕ) (groupID data : Bytes) (invitees : List (Option ℕ))
    (timeout : ℤ) : Intact m (m.inviteInGroup time groupID data invitees timeout).2 groupID data ↔
      GroupPasses m time groupID data invitees := by
  let packet : SignalingPacket :=
    { type := .invite, inviteID := Manager.uniqueID time m.uniqueIdCounter,
      data := text "GID:" ++ cString groupID ++ text ";" ++ cString data,
      timeout := (timeout % 2 ^ 32).toNat }
  have hsent : (m.inviteInGroup time groupID data invitees timeout).2.sent =
      m.sent ++ invitees.reduceOption.map fun friendNumber => (friendNumber, packet) :=
    sendToxPacket_all packet _ _
  have hdata : packet.data = mark ++ (cString groupID ++ 59 :: cString data) := by
    change text "GID:" ++ cString groupID ++ text ";" ++ cString data = _
    rw [List.append_assoc, List.append_assoc]
    rfl
  have hlength : packet.data.length = 5 + (cString groupID).length + (cString data).length := by
    rw [hdata, List.length_append, List.length_append, List.length_cons, show mark.length = 4 from rfl]
    omega
  have hsplit := grouped_iff groupID data
  rw [← hdata] at hsplit
  rw [intact_iff rfl (timeout_lt timeout) hsent hsplit, carried_iff, hlength, reduceOption_eq_nil]
  rfl

theorem plain_intact (m : Manager) (time now : ℕ) (route : Route) (data : Bytes) (onlineUserOnly : Bool)
    (timeout : ℤ) : Intact m (m.invite time now route data onlineUserOnly timeout).2.2 [] data ↔
      PlainPasses m time route data onlineUserOnly := by
  let packet : SignalingPacket :=
    { type := .invite, inviteID := Manager.uniqueID time m.uniqueIdCounter, data := cString data,
      timeout := (timeout % 2 ^ 32).toNat }
  have hsent : ∃ friends : List ℕ, (m.invite time now route data onlineUserOnly timeout).2.2.sent =
      m.sent ++ (friends.map fun friendNumber => (friendNumber, packet)) ∧
      (friends = [] ↔ m.managerImpl = none ∨ route.friendNumber = none ∨ route.toxReady = false ∨
        (onlineUserOnly = true ∧ route.online = false)) := by
    have hnothing : m.sent = m.sent ++ ([] : List ℕ).map fun friendNumber => (friendNumber, packet) :=
      (List.append_nil _).symm
    rw [Manager.invite]
    cases hattached : m.managerImpl with
    | none => exact ⟨[], hnothing, by simp⟩
    | some manager =>
      cases hfriend : route.friendNumber with
      | none => exact ⟨[], hnothing, by simp⟩
      | some friendNumber =>
        cases hready : route.toxReady with
        | false => exact ⟨[], by cases onlineUserOnly <;> exact hnothing, by simp⟩
        | true =>
          cases honly : onlineUserOnly with
          | false => exact ⟨[friendNumber], rfl, by simp⟩
          | true =>
            cases honline : route.online with
            | false => exact ⟨[], hnothing, by simp⟩
            | true => exact ⟨[friendNumber], rfl, by simp⟩
  obtain ⟨friends, hsent, hnone⟩ := hsent
  rw [intact_iff rfl (timeout_lt timeout) hsent (plain_iff data), carried_iff, hnone]
  rfl

end

/-- An invite carries its group and data, and one without a group its data alone: exactly when
    nothing in them reads as a mark or an end. -/
theorem invites_carried (m : Manager) (time now : ℕ) (groupID data : Bytes) (timeout : ℤ) :
    (∀ invitees, Intact m (m.inviteInGroup time groupID data invitees timeout).2 groupID data ↔
      GroupPasses m time groupID data invitees) ∧
    ∀ route onlineUserOnly,
      Intact m (m.invite time now route data onlineUserOnly timeout).2.2 [] data ↔
        PlainPasses m time route data onlineUserOnly :=
  ⟨fun invitees => group_intact m time groupID data invitees timeout,
    fun route onlineUserOnly => plain_intact m time now route data onlineUserOnly timeout⟩

/-- A group id with a semicolon gives up its end to the data. -/
theorem semicolon_moves_data : ¬ ∀ (m : Manager) (time : ℕ) (groupID data : Bytes)
    (invitees : List (Option ℕ)) (timeout : ℤ),
    Intact m (m.inviteInGroup time groupID data invitees timeout).2 groupID data := by
  intro hall
  have hintact := hall {} 100 (text "a;b") (text "ring") [some 3] 30
  rw [group_intact, GroupPasses] at hintact
  obtain hnone | hlong | ⟨-, hsemicolon, -⟩ := hintact
  · exact absurd (hnone (some 3) List.mem_cons_self) (by decide)
  · exact absurd hlong (by
      rw [TooLong]
      decide)
  · exact hsemicolon (by decide)

end Tim2Tox.SignalingInvites
