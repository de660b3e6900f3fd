import Tim2Tox.RendezvousRequests

set_option autoImplicit false

/-!
# The lines of one chat id

An observer keeps the lines published for each chat id, those the callbacks
return and those `RendezvousExecute` emits. Joined and left lines alternate as
long as no callback reaches a cell that is being left behind the client's back.
-/
namespace Tim2Tox.RendezvousSession
open RendezvousCodec RendezvousGroups LabelledRuns

/-! ## Alternation -/

/-- Two joined lines have a left line between them, and traffic comes after a
    joined line with no left line in between. -/
structure Alternates (log : List Line) : Prop where
  apart : ∀ pre mid post j j', log = pre ++ j :: (mid ++ j' :: post) → j.isJoined = true →
    j'.isJoined = true → ∃ l ∈ mid, l.isLeft = true
  within : ∀ pre post l, log = pre ++ l :: post → l.isTraffic = true →
    ∃ fore mid j, pre = fore ++ j :: mid ∧ j.isJoined = true ∧ ∀ l ∈ mid, l.isLeft = false

/-- Whether the client takes the cell as joined after the line, if the line is in order. -/
def bracket (inside : Bool) : Line → Option Bool
  | .joined .. => if inside then none else some true
  | .left .. => some false
  | .peer .. | .packet .. => if inside then some true else none
  | .peersChanged .. | .full .. => some inside

theorem bracket_true {i : Bool} {l : Line} (h : bracket i l = some true) :
    l.isLeft = false ∧ (l.isJoined = true ∨ i = true) := by
  cases l <;> cases i <;> simp_all [bracket, Line.isLeft, Line.isJoined]

theorem bracket_stays {u : Bool} {l : Line} (h : bracket true l = some u)
    (hl : l.isLeft = false) : u = true := by
  cases l <;> simp_all [bracket, Line.isLeft]

/-- The last joined line of a log that ends inside. -/
theorem exec_inside {i : Bool} {log : List Line} (h : exec bracket i log = some true) :
    (i = true ∧ ∀ l ∈ log, l.isLeft = false) ∨
      ∃ fore mid j, log = fore ++ j :: mid ∧ j.isJoined = true ∧ ∀ l ∈ mid, l.isLeft = false := by
  induction log generalizing i with
  | nil => exact .inl ⟨by simpa using h, by simp⟩
  | cons l log ih =>
    obtain ⟨u, hu, h⟩ := exec_cons.mp h
    obtain ⟨rfl, hlog⟩ | ⟨fore, mid, j, rfl, hj⟩ := ih h
    · obtain ⟨hl, hj | hi⟩ := bracket_true hu
      · exact .inr ⟨[], log, l, rfl, hj, hlog⟩
      · refine .inl ⟨hi, fun m hm => ?_⟩
        rcases List.mem_cons.mp hm with rfl | hm
        · exact hl
        · exact hlog m hm
    · exact .inr ⟨l :: fore, mid, j, rfl, hj⟩

theorem exec_stays {u : Bool} {log : List Line} (h : exec bracket true log = some u)
    (hlog : ∀ l ∈ log, l.isLeft = false) : u = true := by
  induction log with
  | nil => simpa using h.symm
  | cons l log ih =>
    obtain ⟨v, hv, h⟩ := exec_cons.mp h
    obtain rfl := bracket_stays hv (hlog l List.mem_cons_self)
    exact ih h fun m hm => hlog m (List.mem_cons_of_mem _ hm)

theorem alternates_of_exec {log : List Line} {i : Bool} (h : exec bracket false log = some i) :
    Alternates log := by
  refine ⟨?_, ?_⟩
  · intro pre mid post j j' hlog hj hj'
    rw [hlog] at h
    obtain ⟨u, -, h⟩ := exec_append.mp h
    obtain ⟨v, hv, h⟩ := exec_cons.mp h
    obtain ⟨w, hw, h⟩ := exec_append.mp h
    obtain ⟨x, hx, -⟩ := exec_cons.mp h
    by_contra hno
    have hmid : ∀ l ∈ mid, l.isLeft = false := by
      intro l hl
      by_contra hne
      exact hno ⟨l, hl, by simpa using hne⟩
    have hvt : v = true := by
      cases j <;> cases u <;> simp_all [bracket, Line.isJoined]
    subst hvt
    have hwt := exec_stays hw hmid
    subst hwt
    cases j' <;> simp [bracket, Line.isJoined] at hx hj'
  · intro pre post l hlog hl
    rw [hlog] at h
    obtain ⟨u, hu, h⟩ := exec_append.mp h
    obtain ⟨v, hv, -⟩ := exec_cons.mp h
    have hut : u = true := by
      cases l <;> cases u <;> simp_all [bracket, Line.isTraffic]
    subst hut
    obtain ⟨hfalse, -⟩ | hlast := exec_inside hu
    · cases hfalse
    · exact hlast

/-! ## The published lines -/

/-- The lines the callbacks return. -/
def published (r : Registry) : Op → List Line
  | .onSelfJoin n now => (onSelfJoin r n now).2
  | .onPeerJoin n peer pk now => (onPeerJoin r n peer pk now).2
  | .onPeerExit n peer self now => (onPeerExit r n peer self now).2
  | .onJoinFail n peerLimit now => (onJoinFail r n peerLimit now).2
  | .onKickedSelf n now => (onKickedSelf r n now).2
  | .onPacket n peer pk isPrivate payload now => (onPacket r n peer pk isPrivate payload now).2.lines
  | _ => []

/-- The lines `RendezvousExecute` emits with the report. -/
def reported (r : Registry) (a : Action) (now : Ms) : Outcome → List Line
  | .issued n ok => match a.kind with
    | .join =>
      if (onJoinIssued r a.chatIdHex n ok now a.generation a.attempt).2 && !(ok && n ≠ noGroup) then
        [.left a.chatIdHex .failed] else []
    | .found =>
      if (onFoundIssued r a.chatIdHex n ok now a.generation a.attempt).2 then
        [if ok && n ≠ noGroup then .joined a.chatIdHex true else .left a.chatIdHex .failed] else []
    | .leave => []
  | .left => if a.kind = .leave ∧ a.reason ≠ .refound then [.left a.chatIdHex a.reason] else []
  | .kept | .lost => []

def emitted (s : Session) : Event → List Line
  | .op o => published s.registry o
  | .report a outcome now => reported s.registry a now outcome
  | .plan _ | .drop _ => []

/-- The lines of one chat id so far. -/
def logged (s : Session) (e : Event) (_ : Session) (id : ChatIdHex) (log : List Line) : List Line :=
  log ++ (emitted s e).filter fun l => l.chatIdHex = id

/-- A silent leave of the cell, the one before a found, is owed or in flight. -/
def refoundOwed (s : Session) (id : ChatIdHex) (c : Cell) : Bool :=
  c.pendingLeave && c.leaveReason = .refound ||
    (flightAt s id).any fun a => a.kind = .leave && a.reason = .refound

/-- A join callback of a cell not announced finds it neither in the back-off nor
    being left for a found; a packet finds it announced. -/
def inOrder (s : Session) (e : Event) : Bool :=
  relinquished s e && match e with
    | .op .clear => false
    | .op (.onSelfJoin n _) | .op (.onPeerJoin n _ _ _) =>
      (activeCell s.registry n).all fun entry =>
        entry.2.announced || !(entry.2.state.waits || refoundOwed s entry.1 entry.2)
    | .op (.onPacket n _ _ _ _ _) => (activeCell s.registry n).all fun entry => entry.2.announced
    | _ => true

/-! ## Lines and their cell -/

theorem selfJoin_lines (now : Ms) (c : Cell) : ∀ l ∈ (c.selfJoin now).2, l.chatIdHex = c.chatIdHex := by
  intro l hl
  unfold Cell.selfJoin at hl
  dsimp only at hl
  split_ifs at hl
  · cases hl
  · rw [List.mem_singleton.mp hl]
    rfl

theorem peerEvent_lines (pk : PeerPkHex) (entered : Bool) (now : Ms) (c : Cell) :
    (c.peerEvent pk entered now).2 = [] ∨
      (c.peerEvent pk entered now).2 = [.peer c.chatIdHex pk entered] ∨
      (c.peerEvent pk entered now).2 = [.peersChanged c.chatIdHex c.peers.size] := by
  unfold Cell.peerEvent
  dsimp only
  split_ifs
  · exact .inr (.inl rfl)
  · exact .inl rfl
  · exact .inr (.inr rfl)

theorem peerEvent_chatIdHex {pk : PeerPkHex} {entered : Bool} {now : Ms} {c : Cell} {l : Line}
    (hl : l ∈ (c.peerEvent pk entered now).2) : l.chatIdHex = c.chatIdHex := by
  obtain h | h | h := peerEvent_lines pk entered now c <;> rw [h] at hl
  · cases hl
  · rw [List.mem_singleton.mp hl]
    rfl
  · rw [List.mem_singleton.mp hl]
    rfl

theorem confirmPeer_chatIdHex (peer : PeerId) (pk : PeerPkHex) (now : Ms) (c : Cell) :
    (c.confirmPeer peer pk now).chatIdHex = c.chatIdHex := by
  unfold Cell.confirmPeer
  dsimp only
  split_ifs <;> rfl

theorem peerJoin_published {peer : PeerId} {pk : PeerPkHex} (hpk : pk ≠ "") (now : Ms) (c : Cell) :
    (c.peerJoin peer pk now).2 = (if c.announced then [] else [.joined c.chatIdHex c.founded]) ++
      ((c.confirmPeer peer pk now).peerEvent pk true now).2 := by
  unfold Cell.peerJoin
  rw [if_neg hpk]

theorem peerJoin_lines (peer : PeerId) (pk : PeerPkHex) (now : Ms) (c : Cell) :
    ∀ l ∈ (c.peerJoin peer pk now).2, l.chatIdHex = c.chatIdHex := by
  intro l hl
  by_cases hpk : pk = ""
  · simp [Cell.peerJoin, hpk] at hl
  · rw [peerJoin_published hpk] at hl
    rcases List.mem_append.mp hl with hl | hl
    · cases ha : c.announced with
      | true => simp [ha] at hl
      | false =>
        rw [ha] at hl
        rw [List.mem_singleton.mp hl]
        rfl
    · exact (peerEvent_chatIdHex hl).trans (confirmPeer_chatIdHex peer pk now c)

theorem peerExit_lines (peer : PeerId) (self : Bool) (now : Ms) (c : Cell) :
    ∀ l ∈ (c.peerExit peer self now).2, l.chatIdHex = c.chatIdHex := by
  intro l hl
  unfold Cell.peerExit at hl
  split at hl
  · cases hl
  · split_ifs at hl
    · cases hl
    · have h := peerEvent_chatIdHex hl
      exact h

theorem joinFail_lines (peerLimit : Bool) (now : Ms) (c : Cell) :
    ∀ l ∈ (c.joinFail peerLimit now).2, l.chatIdHex = c.chatIdHex := by
  intro l hl
  unfold Cell.joinFail at hl
  dsimp only at hl
  split_ifs at hl
  · rw [List.mem_singleton.mp hl]
    rfl
  · cases hl

theorem packet_lines (peer : PeerId) (pk : PeerPkHex) (isPrivate : Bool) (payload : List UInt8)
    (now : Ms) (c : Cell) : (c.packet peer pk isPrivate payload now).2.lines = [] ∨
      ∃ sender, (c.packet peer pk isPrivate payload now).2.lines =
        [.packet c.chatIdHex sender isPrivate payload] := by
  have hl : (c.learnPeer peer pk).chatIdHex = c.chatIdHex := by
    unfold Cell.learnPeer
    split_ifs <;> rfl
  unfold Cell.packet
  dsimp only
  split_ifs
  · exact .inl rfl
  · exact .inl rfl
  · exact .inr ⟨c.senderPk peer pk, by rw [hl]; rfl⟩
  · exact .inl rfl

theorem callback_lines {r : Registry} {n : GroupNumber} {id : ChatIdHex} {c : Cell}
    (h : activeCell r n = some (id, c)) (f : Cell → Cell × List Line) :
    (callback r n f).2 = (f c).2 := by
  unfold callback
  rw [h]

/-- No line of `id` comes from an operation that does not reach a cell under `id`. -/
theorem callback_elsewhere {r : Registry} {n : GroupNumber} {id : ChatIdHex} (hr : Numbered r)
    (hmiss : ((activeCell r n).any fun entry => entry.1 = id) = false)
    {f : Cell → Cell × List Line} (hf : ∀ c, ∀ l ∈ (f c).2, l.chatIdHex = c.chatIdHex) :
    (callback r n f).2.filter (fun l => l.chatIdHex = id) = [] := by
  cases ha : activeCell r n with
  | none => simp [callback, ha]
  | some entry =>
    obtain ⟨id', c⟩ := entry
    obtain ⟨-, hc, -⟩ := activeCell_some ha
    rw [callback_lines ha, List.filter_eq_nil_iff]
    intro l hl heq
    have hid : id' = id := by
      rw [← hr.keyed id' c hc, ← hf c l hl]
      simpa using heq
    simp [ha, hid] at hmiss

theorem published_elsewhere (derive : Seed → Option ChatId) {r : Registry} {o : Op}
    {id : ChatIdHex} (hr : Numbered r) (hmiss : o.hits derive r id = false) :
    (published r o).filter (fun l => l.chatIdHex = id) = [] := by
  cases o with
  | onSelfJoin n now => exact callback_elsewhere hr hmiss (selfJoin_lines now)
  | onPeerJoin n peer pk now => exact callback_elsewhere hr hmiss (peerJoin_lines peer pk now)
  | onPeerExit n peer self now => exact callback_elsewhere hr hmiss (peerExit_lines peer self now)
  | onJoinFail n peerLimit now => exact callback_elsewhere hr hmiss (joinFail_lines peerLimit now)
  | onKickedSelf n now => exact callback_elsewhere hr hmiss (by simp [Cell.kickedSelf])
  | onPacket n peer pk isPrivate payload now =>
    have h := callback_elsewhere hr hmiss
      (f := fun c => (c, (c.packet peer pk isPrivate payload now).2.lines)) ?_
    · cases ha : activeCell r n with
      | none => simp [published, onPacket, ha, PacketVerdict.lines]
      | some entry =>
        rw [callback_lines ha] at h
        simpa [published, onPacket, ha] using h
    · intro c l hl
      dsimp only at hl
      obtain he | ⟨sender, he⟩ := packet_lines peer pk isPrivate payload now c <;> rw [he] at hl
      · cases hl
      · rw [List.mem_singleton.mp hl]
        rfl
  | _ => rfl

theorem published_absent {r : Registry} {o : Op} {id : ChatIdHex} (hr : Numbered r)
    (hx : r.cells[id]? = none) : (published r o).filter (fun l => l.chatIdHex = id) = [] := by
  have hmiss : ∀ n, ((activeCell r n).any fun entry => entry.1 = id) = false := by
    intro n
    by_contra hne
    obtain ⟨⟨id', c⟩, ha, hid⟩ := (Option.any_eq_true _ _).mp (by simpa using hne)
    obtain ⟨-, hc, -⟩ := activeCell_some ha
    have hid' : id' = id := by simpa using hid
    rw [hid', hx] at hc
    cases hc
  cases o with
  | onSelfJoin n | onPeerJoin n | onPeerExit n | onJoinFail n | onKickedSelf n | onPacket n =>
    exact published_elsewhere (fun _ => none) hr (hmiss n)
  | _ => rfl

/-! ## The invariant -/

/-- What the lines so far say of a cell: `inside` after a joined line without a left one. -/
structure Told (inside : Bool) (c : Cell) (f : Option Action) : Prop where
  held : inside = true → c.groupNumber ≠ noGroup ∧ c.state ≠ .retiring ∧
    (c.announced = true ∨ c.state.waits = true)
  announced : c.announced = true → inside = true ∧ c.state = .joined
  peers : c.peers.isEmpty = false → inside = true
  refound : c.leaveReason = .refound → c.pendingLeave = true → inside = false
  silent : ∀ a, f = some a → a.kind = .leave → a.reason = .refound → inside = false
  copied : ∀ a, f = some a → a.kind = .leave → c.leaveReason = .refound → a.reason = .refound

theorem told_outside {c : Cell} {f : Option Action} (ha : c.announced = false)
    (hp : c.peers.isEmpty = true) (hf : ∀ a, f = some a → a.kind ≠ .leave) : Told false c f :=
  ⟨by simp, by simp [ha], by simp [hp], by simp, by simp, fun a ha hk => absurd hk (hf a ha)⟩

theorem outside_of_told {i : Bool} {c : Cell} {f : Option Action} (h : Told i c f)
    (hout : c.groupNumber = noGroup ∨ c.state = .retiring) :
    i = false ∧ c.announced = false ∧ c.peers.isEmpty = true := by
  have hi : i = false := by
    by_contra hne
    obtain ⟨hg, hr, -⟩ := h.held (by simpa using hne)
    exact hout.elim hg hr
  subst hi
  refine ⟨rfl, ?_, ?_⟩
  · by_contra hne
    simpa using (h.announced (by simpa using hne)).1
  · by_contra hne
    simpa using h.peers (by simpa using hne)

/-- A join callback that is in order finds an unannounced cell outside. -/
theorem outside_of_unannounced {i : Bool} {c : Cell} {f : Option Action} (h : Told i c f)
    (ha : c.announced = false) (hw : c.state.waits = false) : i = false := by
  by_contra hne
  obtain ⟨-, -, hor⟩ := h.held (by simpa using hne)
  simp [ha, hw] at hor

/-- An effect that keeps what the lines say. -/
theorem told_same {i : Bool} {c c' : Cell} {f f' : Option Action} (h : Told i c f)
    (hg : c'.groupNumber = c.groupNumber) (hs : c'.state = c.state)
    (ha : c'.announced = c.announced) (hp : c'.peers.isEmpty = false → c.peers.isEmpty = false)
    (hl : c'.leaveReason = .refound → c.leaveReason = .refound)
    (hpl : c'.leaveReason = .refound → c'.pendingLeave = true → c.pendingLeave = true ∨
      ∃ a, f = some a ∧ a.kind = .leave)
    (hf : ∀ a, f' = some a → f = some a) : Told i c' f' := by
  refine ⟨?_, ?_, fun he => h.peers (hp he), ?_, fun a ha => h.silent a (hf a ha),
    fun a ha hk hr => h.copied a (hf a ha) hk (hl hr)⟩
  · rw [hg, hs, ha]
    exact h.held
  · rw [ha, hs]
    exact h.announced
  · intro hr hp'
    obtain hp | ⟨a, ha, hk⟩ := hpl hr hp'
    · exact h.refound (hl hr) hp
    · exact h.silent a ha hk (h.copied a ha hk (hl hr))

theorem told_landed {i : Bool} {c : Cell} {f : Option Action} (h : Told i c f) : Told i c none :=
  told_same h rfl rfl rfl id id (fun _ h => .inl h) (by simp)

theorem told_expelled {i : Bool} {reason : Reason} {now : Ms} {c : Cell} {f : Option Action}
    (h : Told i c f) (hg : c.groupNumber ≠ noGroup) (hreason : reason ≠ .refound) :
    Told i (c.expelled reason now) f := by
  have hw : (c.expelled reason now).state.waits = true := enterBackoff_waits _ _
  obtain ⟨w, n, he⟩ := expelled_eq reason now c
  have hr : (c.expelled reason now).state ≠ .retiring := by
    intro hr
    rw [hr] at hw
    cases hw
  rw [he] at hw hr ⊢
  exact ⟨fun _ => ⟨hg, hr, .inr hw⟩, by simp, by simp, fun hr => absurd hr hreason, h.silent,
    fun _ _ _ hr => absurd hr hreason⟩

theorem finishRetire_quiet {nextAttempt : ℕ} {now : Ms} {c c' : Cell}
    (h : c.finishRetire nextAttempt now = some c') (ha : c.announced = false)
    (hp : c.peers.isEmpty = true) : c'.announced = false ∧ c'.peers.isEmpty = true := by
  obtain ⟨-, he⟩ | ⟨-, -, he⟩ | ⟨-, -, -, he⟩ | ⟨-, -, -, -, -, he⟩ | ⟨-, -, -, -, he⟩ :=
    finishRetire_cases nextAttempt now c <;> rw [he] at h <;> cases h
  · exact ⟨ha, hp⟩
  · exact ⟨ha, hp⟩
  · exact ⟨ha, hp⟩
  · obtain ⟨w, n, hb⟩ := enterBackoff_eq now { c with groupNumber := noGroup, retireReason := .unset }
    rw [hb]
    simp

/-- The cell and the planned action of one chat id against its lines. -/
def ToldAt (i : Bool) (x : Option Cell) (f : Option Action) : Prop :=
  (∀ c, x = some c → Told i c f) ∧ (x = none → i = false)

theorem toldAt_some {i : Bool} {c : Cell} {f : Option Action} (h : Told i c f) :
    ToldAt i (some c) f := by
  refine ⟨fun c' hc' => ?_, by simp⟩
  cases hc'
  exact h

theorem toldAt_none (f : Option Action) : ToldAt false none f := ⟨by simp, fun _ => rfl⟩

/-- The lines of an event for one chat id are in order, and lead to what is told after it. -/
def Tells (i : Bool) (lines : List Line) (x' : Option Cell) (f' : Option Action) : Prop :=
  ∃ i', exec bracket i lines = some i' ∧ ToldAt i' x' f'

theorem tells_nothing {i : Bool} {x' : Option Cell} {f' : Option Action} (h : ToldAt i x' f') :
    Tells i [] x' f' :=
  ⟨i, rfl, h⟩

theorem tells_peerEvent {pk : PeerPkHex} {entered : Bool} {now : Ms} {c : Cell} :
    exec bracket true (c.peerEvent pk entered now).2 = some true := by
  obtain h | h | h := peerEvent_lines pk entered now c <;> rw [h] <;> rfl

theorem filter_own {lines : List Line} {id : ChatIdHex} (h : ∀ l ∈ lines, l.chatIdHex = id) :
    lines.filter (fun l => l.chatIdHex = id) = lines := by
  rw [List.filter_eq_self]
  intro l hl
  simpa using h l hl

/-! ## Operations -/

theorem callback_own {r : Registry} {n : GroupNumber} {id : ChatIdHex} {c : Cell} (hr : Numbered r)
    (h : activeCell r n = some (id, c)) {f : Cell → Cell × List Line}
    (hf : ∀ l ∈ (f c).2, l.chatIdHex = c.chatIdHex) :
    (callback r n f).2.filter (fun l => l.chatIdHex = id) = (f c).2 := by
  obtain ⟨-, hc, -⟩ := activeCell_some h
  rw [callback_lines h]
  exact filter_own fun l hl => (hf l hl).trans (hr.keyed id c hc)

/-- A join callback finds the cell announced, or neither in the back-off nor being
    left for a found. -/
def Welcome (c : Cell) (f : Option Action) : Prop :=
  c.announced = true ∨ (c.state.waits = false ∧
    (c.leaveReason = .refound → c.pendingLeave = false) ∧
    ∀ a, f = some a → a.kind = .leave → a.reason ≠ .refound)

/-- A welcome cell that turns announced. -/
theorem told_announced {c c' : Cell} {f : Option Action} {i : Bool} (h : Told i c f)
    (hw : Welcome c f) (hg : c'.groupNumber ≠ noGroup) (hs : c'.state = .joined)
    (ha : c'.announced = true) (hl : c'.leaveReason = c.leaveReason)
    (hp : c'.pendingLeave = c.pendingLeave) : Told true c' f := by
  refine ⟨fun _ => ⟨hg, by simp [hs], .inl ha⟩, fun _ => ⟨rfl, hs⟩, fun _ => rfl, ?_, ?_, ?_⟩
  · intro hr hpend
    rw [hl] at hr
    rw [hp] at hpend
    obtain hann | ⟨-, hno, -⟩ := hw
    · simpa [(h.announced hann).1] using h.refound hr hpend
    · simp [hno hr] at hpend
  · intro a hf hk hr
    obtain hann | ⟨-, -, hno⟩ := hw
    · simpa [(h.announced hann).1] using h.silent a hf hk hr
    · exact absurd hr (hno a hf hk)
  · rw [hl]
    exact h.copied

theorem tells_joined {i : Bool} {c : Cell} {f : Option Action} (h : Told i c f)
    (hw : Welcome c f) :
    exec bracket i (if c.announced then [] else [.joined c.chatIdHex c.founded]) = some true := by
  obtain hann | ⟨hno, -⟩ := hw
  · rw [hann, (h.announced hann).1]
    rfl
  · cases ha : c.announced with
    | true =>
      rw [(h.announced ha).1]
      rfl
    | false =>
      rw [outside_of_unannounced h ha hno]
      rfl

theorem tells_selfJoin {i : Bool} {c : Cell} {f : Option Action} (now : Ms)
    (h : Told i c f) (hg : c.groupNumber ≠ noGroup) (hw : Welcome c f) :
    Tells i (c.selfJoin now).2 (some (c.selfJoin now).1) f :=
  ⟨true, tells_joined h hw, toldAt_some (told_announced h hw hg rfl rfl rfl rfl)⟩

theorem tells_peerJoin {i : Bool} {c : Cell} {f : Option Action} (peer : PeerId) (pk : PeerPkHex)
    (now : Ms) (h : Told i c f) (hg : c.groupNumber ≠ noGroup) (hr : c.state ≠ .retiring)
    (hw : Welcome c f) :
    Tells i (c.peerJoin peer pk now).2 (some (c.peerJoin peer pk now).1) f := by
  obtain ⟨-, he⟩ | ⟨hpk, b, co, since, retries, he⟩ := peerJoin_cases peer pk now c
  · rw [he]
    exact tells_nothing (toldAt_some h)
  · refine ⟨true, ?_, toldAt_some ?_⟩
    · rw [peerJoin_published hpk]
      exact exec_append.mpr ⟨true, tells_joined h hw, tells_peerEvent⟩
    · rw [he]
      have hs : (if c.state = .joining then .joined else c.state) = State.joined := by
        obtain hann | ⟨hno, -⟩ := hw
        · rw [(h.announced hann).2]
          rfl
        · cases hst : c.state <;> simp_all [State.waits]
      exact told_announced h hw hg hs rfl rfl rfl

theorem tells_peerExit {i : Bool} {c : Cell} {f : Option Action} (peer : PeerId) (self : Bool)
    (now : Ms) (h : Told i c f) :
    Tells i (c.peerExit peer self now).2 (some (c.peerExit peer self now).1) f := by
  obtain ⟨-, he⟩ | ⟨hpeer, b, co, he⟩ := peerExit_cases peer self now c
  · rw [he]
    exact tells_nothing (toldAt_some h)
  · have hne : c.peers.isEmpty = false := by
      by_contra hemp
      simp only [Bool.not_eq_false] at hemp
      exact hpeer (Std.TreeMap.getElem?_of_isEmpty hemp)
    have hi := h.peers hne
    refine ⟨true, ?_, toldAt_some ?_⟩
    · subst hi
      unfold Cell.peerExit
      split
      · rfl
      · split_ifs
        · rfl
        · exact tells_peerEvent
    · rw [he, ← hi]
      exact told_same h rfl rfl rfl (fun _ => hne) id (fun _ h => .inl h) fun _ h => h

theorem tells_packet {i : Bool} {c : Cell} {f : Option Action} (peer : PeerId) (pk : PeerPkHex)
    (isPrivate : Bool) (payload : List UInt8) (now : Ms) (h : Told i c f)
    (hann : c.announced = true) :
    Tells i (c.packet peer pk isPrivate payload now).2.lines
      (some (c.packet peer pk isPrivate payload now).1) f := by
  obtain ⟨rfl, hs⟩ := h.announced hann
  refine ⟨true, ?_, toldAt_some ?_⟩
  · obtain he | ⟨sender, he⟩ := packet_lines peer pk isPrivate payload now c <;> rw [he] <;> rfl
  · obtain ⟨peers, budget, -, he⟩ := packet_eq peer pk isPrivate payload now c
    rw [he]
    exact ⟨h.held, h.announced, fun _ => rfl, h.refound, h.silent, h.copied⟩

theorem welcome_of_inOrder {s : Session} {n : GroupNumber} {id : ChatIdHex} {c : Cell}
    (hact : activeCell s.registry n = some (id, c))
    (h : ((activeCell s.registry n).all fun entry =>
      entry.2.announced || !(entry.2.state.waits || refoundOwed s entry.1 entry.2)) = true) :
    Welcome c (flightAt s id) := by
  rw [hact, Option.all_some, Bool.or_eq_true] at h
  refine h.imp (fun h => h) fun h => ?_
  simp only [refoundOwed, Bool.not_eq_true', Bool.or_eq_false_iff] at h
  refine ⟨h.1, fun hr => ?_, fun a ha hk hr => ?_⟩
  · simpa [hr] using h.2.1
  · simp [ha, hk, hr] at h

theorem tells_op {derive : Seed → Option ChatId} {s : Session} {key : ChatIdHex} {o : Op}
    {x x' : Option Cell} {i : Bool} (hr : Numbered s.registry) (hfree : driven o = false)
    (hord : inOrder s (.op o) = true) (hx : s.registry.cells[key]? = x)
    (hheld : ∀ c, x = some c → Held c (flightAt s key))
    (hgone : x = none → ∀ a, flightAt s key = some a → a.kind ≠ .leave)
    (hI : ToldAt i x (flightAt s key)) (h : OpEffect derive s.registry key o x x') :
    Tells i ((published s.registry o).filter fun l => l.chatIdHex = key) x' (flightAt s key) := by
  cases h with
  | missed hmiss =>
    rw [published_elsewhere derive hr hmiss]
    exact tells_nothing hI
  | absent =>
    rw [published_absent hr hx]
    exact tells_nothing hI
  | cleared => simp [inOrder] at hord
  | created =>
    obtain rfl := hI.2 rfl
    exact tells_nothing (toldAt_some (told_outside rfl (by simp [newCell]) (hgone rfl)))
  | present => exact tells_nothing hI
  | deferred =>
    exact tells_nothing (toldAt_some
      (told_same (hI.1 _ rfl) rfl rfl rfl id id (fun _ h => .inl h) fun _ h => h))
  | leaveAsked ho =>
    rename_i now c
    have hlines : published s.registry o = [] := by
      rcases ho with rfl | rfl <;> rfl
    have hold := hI.1 c rfl
    rw [hlines]
    refine tells_nothing ?_
    obtain ⟨hret, he⟩ | ⟨-, hg, he⟩ | ⟨hret, hg, he⟩ := requestLeave_cases now c <;> rw [he]
    · exact toldAt_some (told_same hold rfl rfl rfl id id (fun _ h => .inl h) fun _ h => h)
    · obtain ⟨rfl, -⟩ := outside_of_told hold (.inl hg)
      exact toldAt_none _
    · exact toldAt_some (told_same hold rfl rfl rfl id (by simp) (by simp) fun _ h => h)
  | planned | joinIssued | foundIssued | left | kept => simp [driven] at hfree
  | retired =>
    rename_i n now c
    have hold := hI.1 c rfl
    refine tells_nothing ?_
    unfold Cell.retired
    split_ifs with hret
    · obtain ⟨rfl, hann, hpeers⟩ := outside_of_told hold (.inr hret.1)
      refine ⟨fun c' hc' => ?_, fun _ => rfl⟩
      obtain ⟨hann', hpeers'⟩ := finishRetire_quiet hc' hann hpeers
      exact told_outside hann' hpeers' fun a ha hk => ((hheld c rfl).leaving a ha hk).2.2 hret.1
    · exact toldAt_some hold
  | selfJoin hact =>
    rename_i n now c
    obtain ⟨hn, -, hg, -⟩ := activeCell_some hact
    have hw := welcome_of_inOrder hact (by simpa [inOrder, relinquished] using hord)
    have hlines := callback_own hr hact (selfJoin_lines now c)
    unfold published onSelfJoin
    rw [hlines]
    exact tells_selfJoin now (hI.1 _ rfl) (hg ▸ hn) hw
  | peerJoin hact =>
    rename_i n peer pk now c
    obtain ⟨hn, -, hg, hret⟩ := activeCell_some hact
    have hw := welcome_of_inOrder hact (by simpa [inOrder, relinquished] using hord)
    have hlines := callback_own hr hact (peerJoin_lines peer pk now c)
    unfold published onPeerJoin
    rw [hlines]
    exact tells_peerJoin peer pk now (hI.1 _ rfl) (hg ▸ hn) hret hw
  | peerExit hact =>
    rename_i n peer self now c
    have hlines := callback_own hr hact (peerExit_lines peer self now c)
    unfold published onPeerExit
    rw [hlines]
    exact tells_peerExit peer self now (hI.1 _ rfl)
  | joinFail hact =>
    rename_i n peerLimit now c
    obtain ⟨hn, -, hg, -⟩ := activeCell_some hact
    have hlines := callback_own hr hact (joinFail_lines peerLimit now c)
    unfold published onJoinFail
    rw [hlines]
    refine ⟨i, ?_, toldAt_some (told_expelled (hI.1 _ rfl) (hg ▸ hn) (by split_ifs <;> simp))⟩
    unfold Cell.joinFail
    cases peerLimit <;> rfl
  | kicked hact =>
    rename_i n now c
    obtain ⟨hn, -, hg, -⟩ := activeCell_some hact
    have hlines := callback_own hr hact (f := Cell.kickedSelf now) (by simp [Cell.kickedSelf])
    unfold published onKickedSelf
    rw [hlines]
    exact ⟨i, rfl, toldAt_some (told_expelled (hI.1 _ rfl) (hg ▸ hn) (by simp))⟩
  | packet hact =>
    rename_i n peer pk isPrivate payload now c
    have hann : c.announced = true := by
      simpa [inOrder, relinquished, hact] using hord
    have hlines : (published s.registry (.onPacket n peer pk isPrivate payload now)).filter
        (fun l => l.chatIdHex = key) = (c.packet peer pk isPrivate payload now).2.lines := by
      obtain ⟨-, hc, -⟩ := activeCell_some hact
      have hp : published s.registry (.onPacket n peer pk isPrivate payload now) =
          (c.packet peer pk isPrivate payload now).2.lines := by
        simp [published, onPacket, hact]
      rw [hp]
      refine filter_own fun l hl => ?_
      obtain he | ⟨sender, he⟩ := packet_lines peer pk isPrivate payload now c <;> rw [he] at hl
      · cases hl
      · rw [List.mem_singleton.mp hl]
        exact hr.keyed key c hc
    rw [hlines]
    exact tells_packet peer pk isPrivate payload now (hI.1 c rfl) hann

/-! ## The planner and the reports -/

theorem told_timers {i : Bool} (now : Ms) {c : Cell} (hheld : Held c none) (h : Told i c none) :
    Told i (c.timers now) none := by
  obtain he | ⟨-, hst, hg, -, hpeers, he⟩ | ⟨-, hst, -, -, -, he⟩ | ⟨-, -, n, w, he⟩ :=
    timers_cases now c <;> rw [he]
  · exact h
  · have hann : c.announced = false := by
      by_contra hne
      have hj := (h.announced (by simpa using hne)).2
      simp [hst] at hj
    obtain rfl := outside_of_unannounced h hann (by rw [hst]; rfl)
    exact told_outside hann hpeers (by simp)
  · have hw := enterBackoff_waits now { c with pendingLeave := true, leaveReason := .stale }
    obtain ⟨hg, -, hr, -⟩ := enterBackoff_rests now
      { c with pendingLeave := true, leaveReason := .stale }
    have hgroup := hheld.joined hst
    obtain ⟨start, retries, hb⟩ := enterBackoff_eq now
      { c with pendingLeave := true, leaveReason := .stale }
    refine ⟨fun _ => ⟨by rwa [hg], hr, .inr hw⟩, ?_, ?_, ?_, by simp, by simp⟩ <;> rw [hb] <;> simp
  · exact told_same h rfl rfl rfl id id (fun _ h => .inl h) fun _ h => h

theorem told_plan {r : Registry} {i : Bool} {now : Ms} {c : Cell} (hheld : Held c none)
    (h : Told i c none) : Told i (planCell r now c).1 (planCell r now c).2 := by
  unfold planCell Cell.plan
  by_cases hret : c.state = .retiring
  · rw [if_pos hret]
    exact h
  rw [if_neg hret]
  have ht := told_timers now hheld h
  have hheld' := held_timers now hheld
  obtain he | ⟨hl, he⟩ | ⟨hl, -, -, hp, he⟩ := emit_cases r.accepting r.generation
    (blocked r c.chatIdHex) now (c.timers now) <;> rw [he]
  · exact ht
  · have hreason : ((c.timers now).leaveAction r.generation).reason = .refound →
        (c.timers now).leaveReason = .refound := by
      unfold Cell.leaveAction
      dsimp only
      split_ifs <;> simp
    refine ⟨ht.held, ht.announced, ht.peers, by simp, ?_, ?_⟩
    · intro a ha _ hr
      cases ha
      exact ht.refound (hreason hr) hl
    · intro a ha _ hr
      cases ha
      dsimp only at hr
      simp [Cell.leaveAction, hr]
  · obtain ⟨rfl, hann, hpeers⟩ := outside_of_told ht (.inl (hheld'.pending hp))
    refine told_outside hann hpeers ?_
    intro a ha hk
    cases ha
    unfold Cell.startAction at hk
    dsimp only at hk
    split_ifs at hk

theorem enterBackoff_outside (now : Ms) (c : Cell) :
    Told false (Cell.enterBackoff now c) none := by
  obtain ⟨w, n, h⟩ := enterBackoff_eq now c
  refine told_outside ?_ ?_ (by simp) <;> rw [h]
  simp

theorem tells_joinIssued {r : Registry} {i : Bool} {a : Action} {n : GroupNumber} {ok : Bool}
    {now : Ms} {c : Cell} (hc : r.cells[a.chatIdHex]? = some c) (hk : a.kind = .join)
    (hheld : Held c (some a)) (h : Told i c (some a)) :
    Tells i (reported r a now (.issued n ok)) (some (c.issued r.generation
      (Cell.joinIssued n ok now) (fun _ => false) a.generation a.attempt)) none := by
  have hlines : reported r a now (.issued n ok) =
      if c.awaits r.generation a.generation a.attempt && !(ok && n ≠ noGroup) then
        [.left a.chatIdHex .failed] else [] := by
    simp only [reported, hk, onJoinIssued_answer hc]
  rw [hlines]
  unfold Cell.issued
  cases haw : c.awaits r.generation a.generation a.attempt with
  | false => exact tells_nothing (toldAt_some (told_landed h))
  | true =>
    have hat : a.attempt = c.attempt := by
      simp only [Cell.awaits, Bool.and_eq_true, decide_eq_true_eq] at haw
      exact haw.1.2.symm
    obtain ⟨rfl, hann, hpeers⟩ := outside_of_told h (.inl (hheld.starting a rfl (by simp [hk]) hat).1)
    cases hok : (ok && decide (n ≠ noGroup)) with
    | true =>
      refine ⟨false, rfl, toldAt_some ?_⟩
      simp only [Cell.joinIssued, hok, Bool.not_false, Bool.and_self, if_true]
      exact told_outside rfl hpeers (by simp)
    | false =>
      refine ⟨false, rfl, toldAt_some ?_⟩
      simp only [Cell.joinIssued, hok, Bool.not_false, Bool.and_self, if_true, Bool.false_eq_true,
        if_false]
      exact enterBackoff_outside now _

theorem tells_foundIssued {r : Registry} {i : Bool} {a : Action} {n : GroupNumber} {ok : Bool}
    {now : Ms} {c : Cell} (hc : r.cells[a.chatIdHex]? = some c) (hk : a.kind = .found)
    (hheld : Held c (some a)) (h : Told i c (some a)) :
    Tells i (reported r a now (.issued n ok)) (some (c.issued r.generation
      (Cell.foundIssued n ok now) Cell.pendingLeave a.generation a.attempt)) none := by
  have hlines : reported r a now (.issued n ok) =
      if c.awaits r.generation a.generation a.attempt && !c.pendingLeave then
        [if ok && n ≠ noGroup then .joined a.chatIdHex true else .left a.chatIdHex .failed]
      else [] := by
    simp only [reported, hk, onFoundIssued_answer hc]
  rw [hlines]
  unfold Cell.issued
  cases haw : (c.awaits r.generation a.generation a.attempt && !c.pendingLeave) with
  | false => exact tells_nothing (toldAt_some (told_landed h))
  | true =>
    simp only [Cell.awaits, Bool.and_eq_true, decide_eq_true_eq, Bool.not_eq_true'] at haw
    obtain ⟨rfl, hann, hpeers⟩ :=
      outside_of_told h (.inl (hheld.starting a rfl (by simp [hk]) haw.1.1.2.symm).1)
    cases hok : (ok && decide (n ≠ noGroup)) with
    | true =>
      have hn : n ≠ noGroup := by
        simp only [Bool.and_eq_true, decide_eq_true_eq] at hok
        exact hok.2
      refine ⟨true, rfl, toldAt_some ?_⟩
      simp only [Cell.foundIssued, hok, if_true]
      exact ⟨fun _ => ⟨hn, by simp, .inl rfl⟩, fun _ => ⟨rfl, rfl⟩, fun _ => rfl,
        by simp [haw.2], by simp, by simp⟩
    | false =>
      refine ⟨false, rfl, toldAt_some ?_⟩
      simp only [Cell.foundIssued, hok, if_true, Bool.false_eq_true, if_false]
      exact enterBackoff_outside now _

theorem reported_own (r : Registry) (a : Action) (now : Ms) (outcome : Outcome) :
    ∀ l ∈ reported r a now outcome, l.chatIdHex = a.chatIdHex := by
  intro l hl
  cases outcome with
  | issued n ok =>
    cases hk : a.kind with
    | join =>
      simp only [reported, hk] at hl
      split_ifs at hl
      · rw [List.mem_singleton.mp hl]
        rfl
      · cases hl
    | found =>
      simp only [reported, hk] at hl
      split_ifs at hl
      · rw [List.mem_singleton.mp hl]
        rfl
      · rw [List.mem_singleton.mp hl]
        rfl
      · cases hl
    | leave =>
      simp only [reported, hk] at hl
      cases hl
  | left =>
    simp only [reported] at hl
    split_ifs at hl
    · rw [List.mem_singleton.mp hl]
      rfl
    · cases hl
  | kept | lost => cases hl

theorem emitted_elsewhere {s : Session} {e : Event} {id : ChatIdHex} (h : e.elsewhere id) :
    (emitted s e).filter (fun l => l.chatIdHex = id) = [] := by
  rw [List.filter_eq_nil_iff]
  intro l hl heq
  cases e with
  | report a outcome now =>
    have hne : a.chatIdHex ≠ id := h
    exact hne ((reported_own _ _ _ _ l hl).symm.trans (by simpa using heq))
  | op o => exact h
  | plan now => exact h
  | drop a => cases hl

theorem reported_unheard {r : Registry} {a : Action} {now : Ms} {outcome : Outcome}
    (hx : r.cells[a.chatIdHex]? = none) (hk : a.kind ≠ .leave) : reported r a now outcome = [] := by
  cases outcome with
  | issued n ok => cases hk : a.kind <;> simp [reported, hk, onJoinIssued, onFoundIssued, hx]
  | left => simp [reported, hk]
  | kept | lost => rfl

/-- A leave that is done closes the lines of its cell; the silent one finds them closed. -/
theorem tells_left {r : Registry} {i : Bool} {a : Action} {now : Ms} {c : Cell}
    (hk : a.kind = .leave) (hheld : Held c (some a)) (h : Told i c (some a)) :
    Tells i (reported r a now .left) (c.left r.nextAttempt a.reason now a.groupNumber) none := by
  obtain ⟨hg, hn, -⟩ := hheld.leaving a rfl hk
  rw [Cell.left, if_neg (by simpa using hg), if_neg (hg ▸ hn)]
  refine ⟨false, ?_, toldAt_some (told_outside rfl (by simp [Cell.leaveIssued]) (by simp))⟩
  by_cases hr : a.reason = .refound
  · simp [reported, hr, h.silent a rfl hk hr]
  · simp [reported, hk, hr, exec, bracket]

/-- What an event publishes for one chat id is in order. -/
theorem tells_step (derive : Seed → Option ChatId) {s s' : Session} {e : Event} {key : ChatIdHex}
    {i : Bool} (hw : WellFormed s) (hord : inOrder s e = true) (hs : step derive s e = some s')
    (hm : Moored.at s key) (hI : ToldAt i s.registry.cells[key]? (flightAt s key)) :
    Tells i ((emitted s e).filter fun l => l.chatIdHex = key) s'.registry.cells[key]?
      (flightAt s' key) := by
  have he := step_effect derive hw hs key
  obtain ⟨-, hheld, hgone⟩ := hm
  generalize s'.registry.cells[key]? = x' at he ⊢
  generalize flightAt s' key = f' at he ⊢
  generalize hx : s.registry.cells[key]? = x at he hI hheld hgone
  generalize hf : flightAt s key = f at he hI hheld hgone
  cases he with
  | op hfree hclear h =>
    subst hf
    exact tells_op hw.numbered hfree hord hx hheld hgone hI h
  | cleared => simp [inOrder] at hord
  | planned => exact tells_nothing (toldAt_some (told_plan (hheld _ rfl) (hI.1 _ rfl)))
  | unplanned => exact tells_nothing hI
  | elsewhere h =>
    rw [emitted_elsewhere h]
    exact tells_nothing hI
  | unheard hkey =>
    subst hkey
    rw [emitted, filter_own (reported_own _ _ _ _), reported_unheard hx (hgone rfl _ rfl)]
    exact tells_nothing ⟨by simp, hI.2⟩
  | joinIssued hkey hk =>
    subst hkey
    rw [emitted, filter_own (reported_own _ _ _ _)]
    exact tells_joinIssued hx hk (hheld _ rfl) (hI.1 _ rfl)
  | foundIssued hkey hk =>
    subst hkey
    rw [emitted, filter_own (reported_own _ _ _ _)]
    exact tells_foundIssued hx hk (hheld _ rfl) (hI.1 _ rfl)
  | left hkey hk =>
    subst hkey
    rw [emitted, filter_own (reported_own _ _ _ _)]
    exact tells_left hk (hheld _ rfl) (hI.1 _ rfl)
  | kept hkey hk =>
    exact tells_nothing (toldAt_some (told_same (hI.1 _ rfl) rfl rfl rfl id id
      (fun _ _ => .inr ⟨_, rfl, hk⟩) (by simp)))
  | lost => exact tells_nothing ⟨fun c hc => told_landed (hI.1 c hc), hI.2⟩
  | dropped => exact tells_nothing ⟨fun c hc => told_landed (hI.1 c hc), hI.2⟩

/-- The log of a chat id is in order, and what it tells fits its cell. -/
def Logged (log : List Line) : Local := fun r id x f =>
  Moored r id x f ∧ ∃ i, exec bracket false log = some i ∧ ToldAt i x f

theorem logged_step (derive : Seed → Option ChatId) (s : Observed (List Line)) (e : Event)
    (s' : Session) (id : ChatIdHex) (hw : WellFormed s.session)
    (hord : inOrder s.session e = true) (hs : step derive s.session e = some s')
    (hI : (Logged (s.memory id)).at s.session id) :
    (Logged (logged s.session e s' id (s.memory id))).at s' id := by
  obtain ⟨hm, i, hi, htold⟩ := hI
  have hrel : relinquished s.session e = true := by
    unfold inOrder at hord
    exact (Bool.and_eq_true_iff.mp hord).1
  obtain ⟨i', hi', htold'⟩ := tells_step derive hw hord hs hm htold
  exact ⟨moored_step derive s.session e s' id hw hrel hs hm, i',
    exec_append.mpr ⟨i, hi, hi'⟩, htold'⟩

/-- Joined and left lines alternate in every run whose callbacks come in order. -/
theorem lines_alternate (derive : Seed → Option ChatId) (es : List Event)
    (s : Observed (List Line))
    (hm : Meets (observedStep derive logged) (fun s e => inOrder s.session e = true)
      ⟨{}, fun _ => []⟩ es)
    (hr : exec (observedStep derive logged) ⟨{}, fun _ => []⟩ es = some s) (id : ChatIdHex) :
    Alternates (s.memory id) := by
  have hinv := observed_invariant derive logged (I := Logged)
    (fun _ => ⟨moored_none, false, rfl, toldAt_none _⟩) (logged_step derive) hm hr
  obtain ⟨-, i, hi, -⟩ := hinv.2 id
  exact alternates_of_exec hi

/-- A kick, and a peer that joins before the leave of the group is planned. -/
def kickedRun : List Event :=
  joinedRun ++ [.op (.onKickedSelf 7 2000), .op (.onPeerJoin 7 3 "ab" 2100)]

theorem joined_twice : ∃ s,
    exec (observedStep sampleDerive logged) ⟨{}, fun _ => []⟩ kickedRun = some s ∧
    ¬Alternates (s.memory sampleId) := by
  have hrun : ((exec (observedStep sampleDerive logged) ⟨{}, fun _ => []⟩ kickedRun).any
      fun s => s.memory sampleId = [.joined sampleId false, .joined sampleId false,
        .peer sampleId "ab" true]) = true := by decide
  obtain ⟨s, hs, h⟩ := (Option.any_eq_true _ _).mp hrun
  refine ⟨s, hs, fun halt => ?_⟩
  obtain ⟨l, hl, -⟩ := halt.apart [] [] _ _ _ (of_decide_eq_true h) rfl rfl
  cases hl

/-- A peer joins the cell and sends a packet; the client leaves and joins again. -/
def visitRun : List Event :=
  joinedRun ++ [.op (.onPeerJoin 7 3 "ab" 1200), .op (.onPacket 7 3 "ab" false [1, 2] 1300),
    .op (.requestLeave sampleId 2000), .plan 2100, .report (sampleLeave .left 2 1) .left 2100,
    .op (.requestJoin sampleSeed "n" "0123abcd" 2150), .op (.onRetired sampleId 7 2200),
    .plan 2300, .report (sampleAction .join 2 2) (.issued 8 true) 2300, .op (.onSelfJoin 8 2400)]

theorem visit_alternates : ∃ s,
    exec (observedStep sampleDerive logged) ⟨{}, fun _ => []⟩ visitRun = some s ∧
    s.memory sampleId = [.joined sampleId false, .peer sampleId "ab" true,
      .packet sampleId "ab" false [1, 2], .left sampleId .left, .joined sampleId false] ∧
    Alternates (s.memory sampleId) := by
  have hrun : ((exec (observedStep sampleDerive logged) ⟨{}, fun _ => []⟩ visitRun).any
      fun s => s.memory sampleId = [.joined sampleId false, .peer sampleId "ab" true,
        .packet sampleId "ab" false [1, 2], .left sampleId .left,
        .joined sampleId false]) = true := by decide
  obtain ⟨s, hs, h⟩ := (Option.any_eq_true _ _).mp hrun
  exact ⟨s, hs, of_decide_eq_true h,
    lines_alternate sampleDerive visitRun s (by decide) hs sampleId⟩

end Tim2Tox.RendezvousSession
