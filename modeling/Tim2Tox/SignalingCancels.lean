import Tim2Tox.SignalingEnds
import Tim2Tox.SignalingInvites

set_option autoImplicit false

/-!
# Ending an invite

Which invites are out with whom, kept beside the manager, and what their sender can do about them.
-/
namespace Tim2Tox.SignalingCancels
open LabelledRuns KeyedTables Signaling

/-! ## What is out -/

/-- An invite that went out to a friend. `start` is the clock its deadline was reckoned from. -/
structure Outgoing where
  id : Bytes
  friendNumber : ℕ
  timeout : ℤ
  start : Option ℕ
  deriving DecidableEq

def Outgoing.due (o : Outgoing) (now : ℕ) : Bool :=
  o.start.any fun start => Manager.due now (Manager.deadlineAfter start o.timeout.toNat)

/-- The packets handed to tox in between. -/
def sends (before after : Manager) : List (ℕ × SignalingPacket) := after.sent.drop before.sent.length

/-- The invites that went out under the id that was returned, where that is not empty. -/
def wentOut (before after : Manager) (id : Bytes) (timeout : ℤ) (start : Option ℕ) : List Outgoing :=
  (sends before after).filterMap fun (friendNumber, packet) =>
    if packet.type = .invite && packet.inviteID = id && cString id ≠ [] then
      some { id, friendNumber, timeout, start }
    else none

/-- The manager and the invites that nobody has answered, cancelled or let run out. -/
structure Tracked where
  manager : Manager := {}
  out : List Outgoing := []

namespace Tracked

def outAfter (t : Tracked) (after : Manager) : Op → List Outgoing
  | .invite time now route data onlineUserOnly timeout =>
    t.out ++ wentOut t.manager after
      (t.manager.invite time now route data onlineUserOnly timeout).2.1 timeout (some now)
  | .inviteInGroup time groupID data invitees timeout =>
    t.out ++ wentOut t.manager after
      (t.manager.inviteInGroup time groupID data invitees timeout).1 timeout none
  | .cancel inviteID data =>
    if (t.manager.cancel inviteID data).1 = .success then
      t.out.filter fun o => o.id ≠ cString inviteID
    else t.out
  | .checkTimeouts now => t.out.filter fun o => !o.due now
  | .task _ =>
    match t.manager.tasks with
    | [] => t.out
    | (friendNumber, packet) :: _ =>
      match packet.type with
      | .accept | .reject =>
        t.out.filter fun o => !(o.id = packet.inviteID && o.friendNumber = friendNumber)
      | _ => t.out
  | _ => t.out

def step (t : Tracked) (op : Op) : Option Tracked :=
  (t.manager.step op).map fun after => { manager := after, out := t.outAfter after op }

/-- A cancel succeeds and goes to everyone the invite is out with. -/
def Cancels (t : Tracked) (o : Outgoing) : Prop :=
  ∀ data, (t.manager.cancel o.id data).1 = .success ∧
    ∀ o' ∈ t.out, o'.id = o.id →
      (o'.friendNumber, Manager.answer .cancel o.id data) ∈
        sends t.manager (t.manager.cancel o.id data).2

/-- From its deadline on, the next check ends the invite: it leaves the table, the friend is sent a
    cancel and the listeners are told. -/
def RunsOut (t : Tracked) (o : Outgoing) : Prop :=
  ∃ deadline, (∀ start, o.start = some start → deadline = start + o.timeout.toNat * 1000) ∧
    ∀ now, deadline ≤ now →
      o.id ∉ (t.manager.checkTimeouts now).active ∧
      (o.friendNumber, { type := .cancel, inviteID := o.id }) ∈
        sends t.manager (t.manager.checkTimeouts now) ∧
      { inviteID := o.id, kind := .timedOut } ∈
        (t.manager.checkTimeouts now).notices.drop t.manager.notices.length

/-- Every invite that is out can be ended by its sender. -/
def Endable (t : Tracked) : Prop :=
  ∀ o ∈ t.out, t.Cancels o ∧ (0 < o.timeout → t.RunsOut o)

/-- A call that reports an error returns no id. -/
def NoIdOnError (t : Tracked) : Op → Prop
  | .invite time now route data onlineUserOnly timeout =>
    (t.manager.invite time now route data onlineUserOnly timeout).1 ≠ .success →
      (t.manager.invite time now route data onlineUserOnly timeout).2.1 = []
  | _ => True

/-- No group invite goes out, no online-only one is refused for being offline; an own invite is
    answered by its invitee only, and none is out when the session is reset. -/
def inOrder (t : Tracked) : Op → Bool
  | .setManagerImpl managerImpl =>
    managerImpl = t.manager.managerImpl || t.manager.active.entries.isEmpty
  | .resetSessionState => t.manager.active.entries.isEmpty
  | .invite _ _ route _ onlineUserOnly _ =>
    !(t.manager.managerImpl.isSome && route.friendNumber.isSome && route.toxReady &&
      onlineUserOnly && !route.online)
  | .inviteInGroup _ _ _ invitees _ => invitees.all Option.isNone
  | .accept inviteID _ =>
    (t.manager.received.lookup (cString inviteID)).isSome ||
      (t.manager.active.lookup (cString inviteID)).isNone
  | .task _ =>
    match t.manager.tasks with
    | [] => true
    | (friendNumber, packet) :: _ =>
      match packet.type with
      | .accept | .reject =>
        (t.manager.active.lookup packet.inviteID).all fun info => info.friendNumber = friendNumber
      | _ => true
  | _ => true

end Tracked

/-! ## Ids -/

theorem text_toString (n : ℕ) :
    text (toString n) = (Nat.toDigits 10 n).map fun c => UInt8.ofNat c.toNat := by
  change (Nat.repr n).toList.map _ = _
  rw [Nat.toList_repr]

theorem toNat_digit {n : ℕ} {c : Char} (h : c ∈ Nat.toDigits 10 n) :
    (UInt8.ofNat c.toNat).toNat = c.toNat ∧ 48 ≤ c.toNat ∧ c.toNat ≤ 57 := by
  have hdigit := Nat.isDigit_of_mem_toDigits (by decide) (by decide) h
  rw [Char.isDigit, Bool.and_eq_true, decide_eq_true_eq, decide_eq_true_eq] at hdigit
  have hlow : 48 ≤ c.toNat := UInt32.le_iff_toNat_le.mp hdigit.1
  have hhigh : c.toNat ≤ 57 := UInt32.le_iff_toNat_le.mp hdigit.2
  refine ⟨?_, hlow, hhigh⟩
  rw [UInt8.toNat_ofNat']
  omega

theorem digit_of_mem {n : ℕ} {b : UInt8} (h : b ∈ text (toString n)) : 48 ≤ b.toNat ∧ b.toNat ≤ 57 := by
  rw [text_toString] at h
  obtain ⟨c, hc, rfl⟩ := List.mem_map.mp h
  have hdigit := toNat_digit hc
  rw [hdigit.1]
  exact hdigit.2

theorem text_toString_inj {m n : ℕ} (h : text (toString m) = text (toString n)) : m = n := by
  have hback : ∀ k : ℕ, (text (toString k)).map (fun b => Char.ofNat b.toNat) = Nat.toDigits 10 k := by
    intro k
    rw [text_toString, List.map_map]
    conv_rhs => rw [← List.map_id (Nat.toDigits 10 k)]
    apply List.map_congr_left
    intro c hc
    change Char.ofNat (UInt8.ofNat c.toNat).toNat = c
    rw [(toNat_digit hc).1, Char.ofNat_toNat]
  have hdigits := congrArg (List.map fun b => Char.ofNat b.toNat) h
  rw [hback, hback] at hdigits
  have hvalue := congrArg (fun l => Nat.ofDigitChars 10 l 0) hdigits
  rwa [Nat.ofDigitChars_toDigits (by decide) (by decide),
    Nat.ofDigitChars_toDigits (by decide) (by decide)] at hvalue

/-- What follows the first underscore behind the mark of an id. -/
def counterText (id : Bytes) : Bytes := ((id.drop 4).dropWhile (· ≠ 95)).drop 1

theorem counterText_uniqueID (time counter : ℕ) :
    counterText (Manager.uniqueID time counter) = text (toString counter) := by
  have hdrop : (Manager.uniqueID time counter).drop 4 =
      text (toString time) ++ 95 :: text (toString counter) := by
    rw [Manager.uniqueID, List.append_assoc, List.append_assoc]
    exact List.drop_left' rfl
  have hdigits : ∀ b ∈ text (toString time), decide (b ≠ 95) = true := by
    intro b hb
    apply decide_eq_true
    rintro rfl
    exact absurd (digit_of_mem hb) (by decide)
  rw [counterText, hdrop, List.dropWhile_append_of_pos hdigits]
  rfl

/-- Two ids with different counters differ. -/
theorem uniqueID_ne {time time' counter counter' : ℕ} (h : counter ≠ counter') :
    Manager.uniqueID time counter ≠ Manager.uniqueID time' counter' := by
  intro hsame
  have htext := congrArg counterText hsame
  rw [counterText_uniqueID, counterText_uniqueID] at htext
  exact h (text_toString_inj htext)

theorem cString_uniqueID {time counter : ℕ} (h : cString (Manager.uniqueID time counter) ≠ []) :
    cString (Manager.uniqueID time counter) = Manager.uniqueID time counter := by
  rw [cString] at h ⊢
  split_ifs at h ⊢
  · contradiction
  · apply SignalingInvites.takeWhile_ne_eq_self.mpr
    rw [Manager.uniqueID]
    simp only [List.mem_append, not_or]
    refine ⟨⟨⟨by decide, ?_⟩, by decide⟩, ?_⟩
    · exact fun hzero => absurd (digit_of_mem hzero).1 (by decide)
    · exact fun hzero => absurd (digit_of_mem hzero).1 (by decide)

/-! ## Timeouts -/

theorem foldl_notify (ids : List Bytes) : ∀ m : Manager,
    ids.foldl (fun m id => m.notify id .timedOut) m =
      { m with notices := m.notices ++ ids.map fun id => { inviteID := id, kind := .timedOut } } := by
  induction ids with
  | nil =>
    intro m
    rw [List.map_nil, List.append_nil]
    rfl
  | cons id ids ih =>
    intro m
    rw [List.foldl_cons, ih, Manager.notify, List.map_cons]
    dsimp only
    rw [List.append_assoc]
    rfl

theorem foldl_sendToxPacket {α : Type} (f : α → ℕ × SignalingPacket) (as : List α) : ∀ m : Manager,
    as.foldl (fun m a => m.sendToxPacket (f a).1 (f a).2) m =
      { m with sent := m.sent ++ as.map f } := by
  induction as with
  | nil =>
    intro m
    rw [List.map_nil, List.append_nil]
    rfl
  | cons a as ih =>
    intro m
    rw [List.foldl_cons, ih, Manager.sendToxPacket, List.map_cons]
    dsimp only
    rw [List.append_assoc]
    rfl

/-- What a check does, all of it. -/
theorem checkTimeouts_eq (m : Manager) (now : ℕ) : m.checkTimeouts now =
    { m with
      active := eraseAll ((m.expiredSent now).map Prod.fst) m.active
      received := eraseAll (m.expiredReceived now) m.received
      sent := m.sent ++ (m.expiredSent now).map fun entry =>
        (entry.2, { type := .cancel, inviteID := entry.1 })
      notices := m.notices ++ ((m.expiredSent now).map Prod.fst ++ m.expiredReceived now).map
        fun id => { inviteID := id, kind := .timedOut } } := by
  have hactive : (m.expiredSent now).foldl (fun map entry => map.erase entry.1) m.active =
      eraseAll ((m.expiredSent now).map Prod.fst) m.active := by
    rw [eraseAll, List.foldl_map]
  rw [Manager.checkTimeouts]
  rw [foldl_notify, hactive]
  have hsends := foldl_sendToxPacket
    (fun entry : Bytes × ℕ => (entry.2, { type := .cancel, inviteID := entry.1 })) (m.expiredSent now)
  rw [hsends]
  rfl

theorem mem_expiredSent {m : Manager} {now : ℕ} {id : Bytes} {friendNumber : ℕ} :
    (id, friendNumber) ∈ m.expiredSent now ↔ ∃ info, m.active.lookup id = some info ∧
      Manager.due now info.deadline = true ∧ info.friendNumber = friendNumber := by
  rw [Manager.expiredSent, List.mem_map]
  constructor
  · rintro ⟨entry, hentry, heq⟩
    rw [List.mem_filter] at hentry
    rw [Prod.mk.injEq] at heq
    refine ⟨entry.2, ?_, hentry.2, heq.2⟩
    rw [← heq.1]
    exact lookup_of_mem_entries hentry.1
  · rintro ⟨info, hlookup, hdue, hfriend⟩
    refine ⟨⟨id, info⟩, List.mem_filter.mpr ⟨mem_entries_of_lookup hlookup, hdue⟩, ?_⟩
    rw [hfriend]

/-! ## What is kept of an invite -/

/-- The invite is in the table, with its friend and its deadline. -/
structure Kept (m : Manager) (o : Outgoing) : Prop where
  minted : ∃ time counter, counter < m.uniqueIdCounter ∧ o.id = Manager.uniqueID time counter
  whole : cString o.id = o.id
  recorded : ∃ start, o.start = some start ∧ m.active.lookup o.id =
    some { friendNumber := o.friendNumber, deadline := Manager.deadlineAfter start o.timeout.toNat }

section
variable {m m' : Manager} {o : Outgoing}

theorem Kept.frame (h : Kept m o) (hlookup : m'.active.lookup o.id = m.active.lookup o.id)
    (hcounter : m.uniqueIdCounter ≤ m'.uniqueIdCounter) : Kept m' o := by
  obtain ⟨time, counter, hlt, hid⟩ := h.minted
  refine ⟨⟨time, counter, Nat.lt_of_lt_of_le hlt hcounter, hid⟩, h.whole, ?_⟩
  rw [hlookup]
  exact h.recorded

theorem Kept.mem (h : Kept m o) : o.id ∈ m.active := by
  obtain ⟨start, -, hlookup⟩ := h.recorded
  rw [← AList.lookup_isSome, hlookup]
  rfl

theorem Kept.not_isEmpty (h : Kept m o) : m.active.entries.isEmpty = false := by
  obtain ⟨start, -, hlookup⟩ := h.recorded
  have hmem := mem_entries_of_lookup hlookup
  rw [List.isEmpty_eq_false_iff]
  exact List.ne_nil_of_mem hmem

/-- The table and the ledger agree on when the invite is due. -/
theorem Kept.mem_expiredSent_iff (h : Kept m o) (now : ℕ) :
    o.id ∈ (m.expiredSent now).map Prod.fst ↔ o.due now = true := by
  obtain ⟨start, hstart, hlookup⟩ := h.recorded
  rw [Outgoing.due, hstart, Option.any_some]
  constructor
  · intro hmem
    obtain ⟨⟨id, friendNumber⟩, hentry, hid⟩ := List.mem_map.mp hmem
    change id = o.id at hid
    rw [hid] at hentry
    obtain ⟨info, hinfo, hdue, -⟩ := mem_expiredSent.mp hentry
    rw [hlookup] at hinfo
    cases hinfo
    exact hdue
  · intro hdue
    exact List.mem_map.mpr ⟨(o.id, o.friendNumber), mem_expiredSent.mpr ⟨_, hlookup, hdue, rfl⟩, rfl⟩

/-! ## What the sender can do -/

theorem cancel_of_lookup {id : Bytes} (data : Bytes) {info : SignalingInviteInfo} (hwhole : cString id = id)
    (hlookup : m.active.lookup id = some info) :
    m.cancel id data = (.success,
      { m.sendToxPacket info.friendNumber (Manager.answer .cancel id data) with
        active := m.active.erase id }) := by
  rw [Manager.cancel, hwhole, hlookup]
  rfl

theorem sends_send (friendNumber : ℕ) (packet : SignalingPacket) :
    sends m (m.sendToxPacket friendNumber packet) = [(friendNumber, packet)] := by
  rw [sends, Manager.sendToxPacket, List.drop_left]

theorem Kept.cancels {t : Tracked} (hkept : ∀ o ∈ t.out, Kept t.manager o) {o : Outgoing}
    (ho : o ∈ t.out) : t.Cancels o := by
  intro data
  obtain ⟨start, -, hlookup⟩ := (hkept o ho).recorded
  have hcancel := cancel_of_lookup data (hkept o ho).whole hlookup
  rw [hcancel]
  refine ⟨rfl, ?_⟩
  intro o' ho' hid
  obtain ⟨start', -, hlookup'⟩ := (hkept o' ho').recorded
  rw [hid, hlookup] at hlookup'
  have hfriend : o.friendNumber = o'.friendNumber :=
    congrArg SignalingInviteInfo.friendNumber (Option.some.inj hlookup')
  change _ ∈ sends t.manager (t.manager.sendToxPacket o.friendNumber _)
  rw [sends_send, hfriend]
  exact List.mem_singleton.mpr rfl

theorem due_deadlineAfter {start timeout now : ℕ} (hpos : 0 < timeout)
    (hnow : start + timeout * 1000 ≤ now) :
    Manager.due now (Manager.deadlineAfter start timeout) = true := by
  rw [Manager.deadlineAfter, if_pos hpos, Manager.due, Bool.and_eq_true, decide_eq_true_eq,
    decide_eq_true_eq]
  omega

theorem Kept.runsOut {t : Tracked} {o : Outgoing} (h : Kept t.manager o) (htimeout : 0 < o.timeout) :
    t.RunsOut o := by
  obtain ⟨start, hstart, hlookup⟩ := h.recorded
  refine ⟨start + o.timeout.toNat * 1000, ?_, ?_⟩
  · intro start' hstart'
    rw [hstart] at hstart'
    cases hstart'
    rfl
  · intro now hnow
    have hpos : 0 < o.timeout.toNat := by omega
    have hdue := due_deadlineAfter hpos hnow
    have hentry : (o.id, o.friendNumber) ∈ t.manager.expiredSent now :=
      mem_expiredSent.mpr ⟨_, hlookup, hdue, rfl⟩
    have hexpired : o.id ∈ (t.manager.expiredSent now).map Prod.fst :=
      List.mem_map.mpr ⟨_, hentry, rfl⟩
    rw [checkTimeouts_eq]
    refine ⟨?_, ?_, ?_⟩
    · exact fun hmem => (mem_eraseAll.mp hmem).2 hexpired
    · rw [sends, List.drop_left]
      exact List.mem_map.mpr ⟨_, hentry, rfl⟩
    · rw [List.drop_left]
      exact List.mem_map.mpr ⟨o.id, List.mem_append_left _ hexpired, rfl⟩

end

theorem endable_of_kept {t : Tracked} (hkept : ∀ o ∈ t.out, Kept t.manager o) : t.Endable :=
  fun o ho => ⟨Kept.cancels hkept ho, (hkept o ho).runsOut⟩

/-! ## Steps -/

/-- How an invite ends: it fails and sends nothing, with an id only when the friend is offline, or
    it goes out and is recorded. -/
inductive Invited (m : Manager) (time now : ℕ) (route : Route) (onlineUserOnly : Bool) (timeout : ℤ) :
    Reply × Bytes × Manager → Prop where
  | failed (reply : Reply) (id : Bytes) (m' : Manager) (hreply : reply ≠ .success)
      (hactive : m'.active = m.active) (hsent : m'.sent = m.sent)
      (hcounter : m.uniqueIdCounter ≤ m'.uniqueIdCounter)
      (hid : id ≠ [] → m.managerImpl.isSome = true ∧ route.friendNumber.isSome = true ∧
        route.toxReady = true ∧ onlineUserOnly = true ∧ route.online = false) :
      Invited m time now route onlineUserOnly timeout (reply, id, m')
  | sent (m' : Manager) (friendNumber : ℕ) (packet : SignalingPacket) (htype : packet.type = .invite)
      (hid : packet.inviteID = Manager.uniqueID time m.uniqueIdCounter)
      (hactive : m'.active = m.active.insert (Manager.uniqueID time m.uniqueIdCounter)
        { friendNumber, deadline := Manager.deadlineAfter now timeout.toNat })
      (hsent : m'.sent = m.sent ++ [(friendNumber, packet)])
      (hcounter : m'.uniqueIdCounter = m.uniqueIdCounter + 1) :
      Invited m time now route onlineUserOnly timeout
        (.success, Manager.uniqueID time m.uniqueIdCounter, m')

theorem invited (m : Manager) (time now : ℕ) (route : Route) (data : Bytes) (onlineUserOnly : Bool)
    (timeout : ℤ) : Invited m time now route onlineUserOnly timeout
      (m.invite time now route data onlineUserOnly timeout) := by
  have hoffline : Reply.userOffline ≠ .success := by decide
  rw [Manager.invite]
  cases hattached : m.managerImpl with
  | none => exact .failed _ _ _ hoffline rfl rfl (Nat.le_refl _) fun hid => absurd rfl hid
  | some manager =>
    cases hfriend : route.friendNumber with
    | none => exact .failed _ _ _ hoffline rfl rfl (Nat.le_succ _) fun hid => absurd rfl hid
    | some friendNumber =>
      cases hready : route.toxReady with
      | false =>
        cases onlineUserOnly with
        | false => exact .failed _ _ _ hoffline rfl rfl (Nat.le_succ _) fun hid => absurd rfl hid
        | true => exact .failed _ _ _ hoffline rfl rfl (Nat.le_succ _) fun hid => absurd rfl hid
      | true =>
        cases honly : onlineUserOnly with
        | false => exact .sent _ friendNumber _ rfl rfl rfl rfl rfl
        | true =>
          cases honline : route.online with
          | false =>
            refine .failed _ _ _ hoffline rfl rfl (Nat.le_succ _) fun _ => ?_
            rw [hattached, hfriend]
            exact ⟨rfl, rfl, hready, rfl, honline⟩
          | true => exact .sent _ friendNumber _ rfl rfl rfl rfl rfl

section
variable {t u : Tracked}

theorem no_id_on_error {op : Op} (horder : t.inOrder op = true) : t.NoIdOnError op := by
  cases op with
  | invite time now route data onlineUserOnly timeout =>
    change (t.manager.invite time now route data onlineUserOnly timeout).1 ≠ .success → _ = _
    have hcases := invited t.manager time now route data onlineUserOnly timeout
    generalize t.manager.invite time now route data onlineUserOnly timeout = out at hcases ⊢
    intro herror
    cases hcases with
    | failed reply id m' hreply hactive hsent hcounter hid =>
      change id = []
      by_contra hne
      obtain ⟨hattached, hfriend, hready, honly, honline⟩ := hid hne
      rw [Tracked.inOrder, hattached, hfriend, hready, honly, honline] at horder
      exact absurd horder (by decide)
    | sent => exact absurd rfl herror
  | _ => trivial

/-- Nothing goes out and nothing is taken from the table. -/
theorem kept_of_frame {m' : Manager} (hkept : ∀ o ∈ t.out, Kept t.manager o)
    (hactive : m'.active = t.manager.active)
    (hcounter : t.manager.uniqueIdCounter ≤ m'.uniqueIdCounter) : ∀ o ∈ t.out, Kept m' o :=
  fun o ho => (hkept o ho).frame (by rw [hactive]) hcounter

theorem kept_of_empty {m' : Manager} (hkept : ∀ o ∈ t.out, Kept t.manager o)
    (hempty : t.manager.active.entries.isEmpty = true) : ∀ o ∈ t.out, Kept m' o := by
  intro o ho
  have hnot := (hkept o ho).not_isEmpty
  rw [hempty] at hnot
  contradiction

theorem wentOut_nothing {before after : Manager} (hsent : after.sent = before.sent) (id : Bytes)
    (timeout : ℤ) (start : Option ℕ) : wentOut before after id timeout start = [] := by
  rw [wentOut, sends, hsent, List.drop_length]
  rfl

theorem kept_invite (hkept : ∀ o ∈ t.out, Kept t.manager o) (time now : ℕ) (route : Route)
    (data : Bytes) (onlineUserOnly : Bool) (timeout : ℤ) :
    ∀ o ∈ t.out ++ wentOut t.manager
        (t.manager.invite time now route data onlineUserOnly timeout).2.2
        (t.manager.invite time now route data onlineUserOnly timeout).2.1 timeout (some now),
      Kept (t.manager.invite time now route data onlineUserOnly timeout).2.2 o := by
  have hcases := invited t.manager time now route data onlineUserOnly timeout
  generalize t.manager.invite time now route data onlineUserOnly timeout = result at hcases ⊢
  cases hcases with
  | failed reply id m' hreply hactive hsent hcounter hid =>
    dsimp only
    rw [wentOut_nothing hsent, List.append_nil]
    exact kept_of_frame hkept hactive hcounter
  | sent m' friendNumber packet htype hid hactive hsent hcounter =>
    dsimp only
    intro o ho
    rw [List.mem_append] at ho
    cases ho with
    | inl hold =>
      obtain ⟨time', counter', hlt, holdId⟩ := (hkept o hold).minted
      have hne : o.id ≠ Manager.uniqueID time t.manager.uniqueIdCounter := by
        rw [holdId]
        exact uniqueID_ne (Nat.ne_of_lt hlt)
      apply (hkept o hold).frame
      · rw [hactive, AList.lookup_insert_ne hne]
      · omega
    | inr hnew =>
      rw [wentOut, sends, hsent, List.drop_left, List.mem_filterMap] at hnew
      obtain ⟨entry, hentry, hsome⟩ := hnew
      rw [List.mem_singleton] at hentry
      rw [hentry] at hsome
      dsimp only at hsome
      rw [htype, hid] at hsome
      split_ifs at hsome with hgood
      cases hsome
      rw [Bool.and_eq_true, decide_eq_true_eq] at hgood
      refine ⟨⟨time, t.manager.uniqueIdCounter, by omega, rfl⟩, cString_uniqueID hgood.2, now, rfl, ?_⟩
      rw [hactive, AList.lookup_insert]

/-- Erasing another id keeps an invite. -/
theorem kept_erase {m' : Manager} {o : Outgoing} {key : Bytes} (h : Kept t.manager o)
    (hne : o.id ≠ key) (hactive : m'.active = t.manager.active.erase key)
    (hcounter : m'.uniqueIdCounter = t.manager.uniqueIdCounter) : Kept m' o := by
  apply h.frame
  · rw [hactive, AList.lookup_erase_ne hne]
  · omega

theorem kept_cancel (hkept : ∀ o ∈ t.out, Kept t.manager o) (inviteID data : Bytes) :
    ∀ o ∈ (if (t.manager.cancel inviteID data).1 = .success then
        t.out.filter fun o => o.id ≠ cString inviteID else t.out),
      Kept (t.manager.cancel inviteID data).2 o := by
  rw [Manager.cancel]
  cases hlookup : t.manager.active.lookup (cString inviteID) with
  | none => exact kept_of_frame hkept rfl (Nat.le_refl _)
  | some info =>
    dsimp only
    rw [if_pos rfl]
    intro o ho
    rw [List.mem_filter, decide_eq_true_eq] at ho
    exact kept_erase (hkept o ho.1) ho.2 rfl rfl

theorem kept_accept (hkept : ∀ o ∈ t.out, Kept t.manager o) (inviteID data : Bytes)
    (horder : t.inOrder (.accept inviteID data) = true) :
    ∀ o ∈ t.out, Kept (t.manager.accept inviteID data).2 o := by
  rw [Tracked.inOrder] at horder
  rw [Manager.accept]
  cases hreceived : t.manager.received.lookup (cString inviteID) with
  | some info => exact kept_of_frame hkept rfl (Nat.le_refl _)
  | none =>
    cases hactive : t.manager.active.lookup (cString inviteID) with
    | none => exact kept_of_frame hkept rfl (Nat.le_refl _)
    | some info =>
      rw [hreceived, hactive] at horder
      contradiction

theorem kept_reject (hkept : ∀ o ∈ t.out, Kept t.manager o) (inviteID data : Bytes) :
    ∀ o ∈ t.out, Kept (t.manager.reject inviteID data).2 o := by
  rw [Manager.reject]
  cases t.manager.received.lookup (cString inviteID) with
  | some info => exact kept_of_frame hkept rfl (Nat.le_refl _)
  | none => exact hkept

theorem kept_checkTimeouts (hkept : ∀ o ∈ t.out, Kept t.manager o) (now : ℕ) :
    ∀ o ∈ t.out.filter fun o => !o.due now, Kept (t.manager.checkTimeouts now) o := by
  intro o ho
  rw [List.mem_filter, Bool.not_eq_true'] at ho
  rw [checkTimeouts_eq]
  apply (hkept o ho.1).frame
  · have hnot : o.id ∉ (t.manager.expiredSent now).map Prod.fst := by
      rw [(hkept o ho.1).mem_expiredSent_iff, ho.2]
      decide
    exact (lookup_eraseAll _ _ _).trans (if_neg hnot)
  · exact Nat.le_refl _

theorem kept_onToxMessage (hkept : ∀ o ∈ t.out, Kept t.manager o) (friendNumber : ℕ) (data : Bytes) :
    ∀ o ∈ t.out, Kept (t.manager.onToxMessage friendNumber data) o := by
  rw [Manager.onToxMessage]
  cases parsePacket data with
  | none => exact hkept
  | some packet =>
    dsimp only
    split_ifs
    · exact hkept
    · exact kept_of_frame hkept rfl (Nat.le_refl _)

/-- An answer takes the invite from the table that it takes from the ledger. -/
theorem kept_answer {m' : Manager} {friendNumber : ℕ} {packet : SignalingPacket}
    (hkept : ∀ o ∈ t.out, Kept t.manager o)
    (horder : (t.manager.active.lookup packet.inviteID).all
      (fun info => info.friendNumber = friendNumber) = true)
    (hactive : m'.active = t.manager.active.erase packet.inviteID)
    (hcounter : m'.uniqueIdCounter = t.manager.uniqueIdCounter) :
    ∀ o ∈ t.out.filter (fun o => !(o.id = packet.inviteID && o.friendNumber = friendNumber)),
      Kept m' o := by
  intro o ho
  rw [List.mem_filter, Bool.not_eq_true', Bool.and_eq_false_iff, decide_eq_false_iff_not,
    decide_eq_false_iff_not] at ho
  apply kept_erase (hkept o ho.1) _ hactive hcounter
  intro hid
  obtain ⟨start, -, hlookup⟩ := (hkept o ho.1).recorded
  rw [← hid, hlookup, Option.all_some, decide_eq_true_eq] at horder
  cases ho.2 with
  | inl hne => exact hne hid
  | inr hne => exact hne horder

theorem kept_task (hkept : ∀ o ∈ t.out, Kept t.manager o) (now : ℕ) {m' : Manager}
    (horder : t.inOrder (.task now) = true) (hrun : t.manager.runTask now = some m') :
    ∀ o ∈ t.outAfter m' (.task now), Kept m' o := by
  rw [Manager.runTask] at hrun
  rw [Tracked.inOrder] at horder
  rw [Tracked.outAfter]
  cases htasks : t.manager.tasks with
  | nil =>
    rw [htasks] at hrun
    contradiction
  | cons task tasks =>
    obtain ⟨friendNumber, packet⟩ := task
    rw [htasks] at hrun horder
    dsimp only at hrun horder ⊢
    have heq := Option.some.inj hrun
    rw [← heq, Manager.handle]
    cases htype : packet.type with
    | invite => exact kept_of_frame hkept rfl (Nat.le_refl _)
    | accept =>
      rw [htype] at horder
      exact kept_answer hkept horder rfl rfl
    | reject =>
      rw [htype] at horder
      exact kept_answer hkept horder rfl rfl
    | cancel => exact kept_of_frame hkept rfl (Nat.le_refl _)
    | timeout =>
      dsimp only
      cases t.manager.received.lookup packet.inviteID with
      | none => exact kept_of_frame hkept rfl (Nat.le_refl _)
      | some info =>
        dsimp only
        split_ifs
        · exact kept_of_frame hkept rfl (Nat.le_refl _)
        · exact kept_of_frame hkept rfl (Nat.le_refl _)

theorem kept_inviteInGroup (hkept : ∀ o ∈ t.out, Kept t.manager o) (time : ℕ) (groupID data : Bytes)
    (invitees : List (Option ℕ)) (timeout : ℤ)
    (horder : t.inOrder (.inviteInGroup time groupID data invitees timeout) = true) :
    ∀ o ∈ t.out ++ wentOut t.manager (t.manager.inviteInGroup time groupID data invitees timeout).2
        (t.manager.inviteInGroup time groupID data invitees timeout).1 timeout none,
      Kept (t.manager.inviteInGroup time groupID data invitees timeout).2 o := by
  have hnone : invitees.reduceOption = [] := SignalingInvites.reduceOption_eq_nil.mpr fun invitee hmem =>
    Option.isNone_iff_eq_none.mp (List.all_eq_true.mp horder invitee hmem)
  have hsent : (t.manager.generateUniqueID time).2.sent = t.manager.sent := rfl
  rw [Manager.inviteInGroup]
  dsimp only
  rw [hnone, List.foldl_nil, wentOut_nothing hsent, List.append_nil]
  exact kept_of_frame hkept rfl (Nat.le_succ _)

/-- What is out stays kept through a step in order. -/
theorem kept_step {op : Op} (hkept : ∀ o ∈ t.out, Kept t.manager o) (horder : t.inOrder op = true)
    (hstep : t.step op = some u) : ∀ o ∈ u.out, Kept u.manager o := by
  obtain ⟨m', hm', rfl⟩ := Option.map_eq_some_iff.mp hstep
  cases op with
  | setManagerImpl managerImpl =>
    cases hm'
    change ∀ o ∈ t.out, Kept (t.manager.setManagerImpl managerImpl) o
    rw [Tracked.inOrder, Bool.or_eq_true, decide_eq_true_eq] at horder
    cases horder with
    | inl hsame =>
      rw [Manager.setManagerImpl, if_neg (not_not_intro hsame)]
      exact kept_of_frame hkept rfl (Nat.le_refl _)
    | inr hempty => exact kept_of_empty hkept hempty
  | resetSessionState =>
    cases hm'
    change ∀ o ∈ t.out, Kept t.manager.resetSessionState o
    exact kept_of_empty hkept horder
  | invite time now route data onlineUserOnly timeout =>
    cases hm'
    exact kept_invite hkept time now route data onlineUserOnly timeout
  | inviteInGroup time groupID data invitees timeout =>
    cases hm'
    exact kept_inviteInGroup hkept time groupID data invitees timeout horder
  | cancel inviteID data =>
    cases hm'
    exact kept_cancel hkept inviteID data
  | accept inviteID data =>
    cases hm'
    exact kept_accept hkept inviteID data horder
  | reject inviteID data =>
    cases hm'
    exact kept_reject hkept inviteID data
  | checkTimeouts now =>
    cases hm'
    exact kept_checkTimeouts hkept now
  | onToxMessage friendNumber data =>
    cases hm'
    exact kept_onToxMessage hkept friendNumber data
  | task now => exact kept_task hkept now horder hm'

end

theorem exec_manager (ops : List Op) : ∀ t : Tracked,
    (exec Tracked.step t ops).map Tracked.manager = exec Manager.step t.manager ops := by
  induction ops with
  | nil => exact fun t => rfl
  | cons op ops ih =>
    intro t
    change ((t.step op).bind fun u => exec Tracked.step u ops).map _ =
      (t.manager.step op).bind fun m => exec Manager.step m ops
    rw [Tracked.step]
    cases t.manager.step op with
    | none => rfl
    | some m => exact ih { manager := m, out := t.outAfter m op }

/-- A call that rings at friend 3 for half a minute. -/
def ringing : List Op :=
  [.setManagerImpl (some 0), .invite 100 7 ⟨some 3, true, true⟩ (text "ring") true 30,
    .checkTimeouts 29000]

end Tim2Tox.SignalingCancels
