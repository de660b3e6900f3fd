import Tim2Tox.GroupReceiptQueue
import Tim2Tox.LabelledRuns

set_option autoImplicit false

/-!
# Sections of the group read receipt queue

The queue of one account: a map in memory and one list in the preferences that holds every group and
author, is read back once in a process life and is written as a whole. The sections that use the list
come one after the other; a park changes the memory before its section.
-/
namespace Tim2Tox.GroupReceiptQueue
open ArrivalOrder LabelledRuns ReadReceiptQueue

/-! ## The service -/

/-- The sections that use the stored list. -/
inductive Section where
  | park
  | batch (keys : List Key)
  | flush (key : Key)
  | recovery (key : Key)
  deriving DecidableEq

/-- How far the section that has the list has come. -/
inductive Phase where
  | waiting
  | reading
  | ready
  | writing (value : List Entry) (taken : List MsgId)
  deriving DecidableEq

/-- The queue of an account with its sections, the walk that collects parks and the loops of sends.
    Then what happened: the stored ids that wait, the order in which ids and keys came in this life,
    and whether the map has been filled against it. -/
structure Service where
  mem : Queue := .empty
  hydrated : Bool := false
  blob : List Entry := []
  gate : List Section := []
  phase : Phase := .waiting
  window : Option (List Key) := none
  sends : List (Key × List MsgId) := []
  due : List (Key × MsgId) := []
  scopes : List Key := []
  arrived : List (Key × MsgId) := []
  mixed : Bool := false

inductive Event where
  | park (groupID authorKey : String) (msgIDs : List MsgId)
  | walk
  | walked
  | peerLive (groupID authorKey : String)
  | enter
  | read (ok : Bool)
  | write
  | wrote (ok : Bool)
  | send (loop : ℕ)
  | restart (landed : Bool)

namespace Service

/-- The first life, with what the preferences hold. -/
def start (blob : List Entry) : Service := { blob, due := stored blob }

/-- `_queuePendingGroupReadReceipts`: the memory at once; the section now or at the end of the walk. -/
def queuePendingGroupReadReceipts (s : Service) (key : Key) (msgIDs : List MsgId) : Service :=
  let mem := s.mem.applyGroupReadReceiptPark key msgIDs
  let s := { s with
    mem
    due := s.due.filter fun x => x ∈ s.mem → x ∈ mem
    scopes := s.mem.scopesAfter key s.scopes
    arrived := s.mem.arrivedAfter key msgIDs s.arrived }
  match s.window with
  | some keys => { s with window := some (keys ++ [key]) }
  | none => { s with gate := s.gate ++ [.park] }

/-- `_flushPendingGroupReadReceiptsForLivePeer` -/
def flushForLivePeer (s : Service) (key : Key) : Service :=
  if s.mem.ids key ≠ [] then { s with gate := s.gate ++ [.flush key] }
  else if s.hydrated then s
  else { s with gate := s.gate ++ [.recovery key] }

/-- A section begins; a read is made once in a life. -/
def enter (s : Service) : Option Service :=
  match s.phase, s.gate with
  | .waiting, .flush key :: rest =>
    let mem := s.mem.remove key
    if s.mem.ids key = [] then some { s with mem, gate := rest }
    else some { s with mem, phase := .writing mem.flat (s.mem.ids key) }
  | .waiting, _ :: _ =>
    if s.hydrated then some { s with phase := .ready }
    else some { s with hydrated := true, phase := .reading }
  | _, _ => none

/-- The read has come back, or thrown. -/
def read (s : Service) (ok : Bool) : Option Service :=
  if s.phase = .reading then
    let mem := if ok then s.mem.recover s.blob else s.mem
    some { s with
      mem
      phase := .ready
      scopes := if s.mem.keys = [] then mem.keys else s.scopes
      arrived := if s.mem.keys = [] then mem.pairs else s.arrived
      mixed := s.mixed || (ok && s.mem.keys ≠ [] && s.blob ≠ []) }
  else none

/-- After the recovery the whole map is written, or looked up. -/
def write (s : Service) : Option Service :=
  match s.phase, s.gate with
  | .ready, .park :: _ => some { s with phase := .writing s.mem.flat [] }
  | .ready, .batch keys :: _ =>
    let mem := keys.foldl Queue.capAt s.mem
    some { s with
      mem
      due := s.due.filter fun x => x ∈ s.mem → x ∈ mem
      phase := .writing mem.flat [] }
  | .ready, .recovery key :: rest =>
    some { s with
      gate := rest ++ if s.mem.ids key = [] then [] else [.flush key]
      phase := .waiting }
  | _, _ => none

/-- The write has come back, or thrown. -/
def wrote (s : Service) (ok : Bool) : Option Service :=
  match s.phase, s.gate with
  | .writing value taken, .flush key :: rest =>
    if ok then
      some { s with
        gate := rest
        phase := .waiting
        blob := value
        sends := s.sends ++ [(key, taken)]
        due := s.due.filter (·.1 ≠ key) }
    else some { s with gate := rest, phase := .waiting, mem := s.mem.add key taken, mixed := true }
  | .writing value _, _ :: rest =>
    if ok then
      some { s with
        gate := rest
        phase := .waiting
        blob := value
        due := s.due ++ (stored value).filter (· ∈ s.mem) }
    else some { s with gate := rest, phase := .waiting }
  | _, _ => none

/-- A loop hands its next id to the send. -/
def send (s : Service) (loop : ℕ) : Option Service :=
  s.sends[loop]?.map fun item => { s with sends := s.sends.set loop (item.1, item.2.tail) }

/-- The process ends, in the middle of a write before or after it has landed. -/
def restart (s : Service) (landed : Bool) : Service :=
  match landed, s.phase, s.gate with
  | true, .writing value _, .flush key :: _ =>
    { blob := value, due := s.due.filter (·.1 ≠ key) ++ stored value }
  | true, .writing value _, _ => { blob := value, due := s.due ++ stored value }
  | _, _, _ => { blob := s.blob, due := s.due ++ stored s.blob }

/-- A walk over the messages on view is not interrupted, but by the end of the process. -/
def step (s : Service) : Event → Option Service
  | .park groupID authorKey msgIDs =>
    if groupID = "" ∨ authorKey = "" ∨ msgIDs = [] then some s
    else some (s.queuePendingGroupReadReceipts (groupReadReceiptQueueKey groupID authorKey) msgIDs)
  | .walk => if s.window = none then some { s with window := some [] } else none
  | .walked => s.window.map fun keys =>
    { s with window := none, gate := if keys = [] then s.gate else s.gate ++ [.batch keys] }
  | .restart landed => some (s.restart landed)
  | e =>
    if s.window ≠ none then none
    else match e with
      | .peerLive groupID authorKey =>
        if groupID = "" ∨ authorKey = "" then some s
        else some (s.flushForLivePeer (groupReadReceiptQueueKey groupID authorKey))
      | .enter => s.enter
      | .read ok => s.read ok
      | .write => s.write
      | .wrote ok => s.wrote ok
      | .send loop => s.send loop
      | _ => none

end Service

/-- The keys that the write of a walk bounds again. -/
def Service.touched (s : Service) : List Key :=
  match s.gate with
  | .batch keys :: _ => keys
  | _ => []

/-- The one read of a life brings every stored id, within the bounds, and ids are pushed out only
    while the map is in the order in which they came. -/
def Recovers (s : Service) : Event → Prop
  | .park groupID authorKey msgIDs => s.mixed = true →
    (groupReadReceiptQueueKey groupID authorKey ∈ s.mem.keys ∨ s.mem.keys.length < 64) ∧
      (addAll (s.mem.ids (groupReadReceiptQueueKey groupID authorKey)) msgIDs).length ≤ 200
  | .read ok => if ok then
      stored (s.blob.dropWhile (· ≠ .undecodable)) = [] ∧ s.mem.Fits s.blob
    else stored s.blob = []
  | .write => s.mixed = true → ∀ key ∈ s.touched, (s.mem.ids key).length ≤ 200
  | _ => True

instance (s : Service) : ∀ e, Decidable (Recovers s e)
  | .park _ _ _ => inferInstanceAs (Decidable (_ → _))
  | .read _ => inferInstanceAs (Decidable (ite _ _ _))
  | .write => inferInstanceAs (Decidable (_ → _))
  | .walk | .walked | .peerLive _ _ | .enter | .wrote _ | .send _ | .restart _ => .isTrue trivial

/-! ## What holds in every state -/

namespace Service

/-- A flush of the scope has the stored list, or is next. -/
def Flushing (s : Service) (key : Key) : Prop := s.gate.head? = some (.flush key)

structure Kept (s : Service) : Prop where
  valid : ∀ x ∈ s.due, WellFormed x
  listed : ∀ x ∈ s.due, x ∈ stored s.blob
  held : s.phase ≠ .waiting → s.gate ≠ []
  unread : s.hydrated = false → s.phase = .waiting ∧ (∀ key, ¬ s.Flushing key) ∧
    (s.gate = [] → s.window.getD [] = [] → ∀ key, s.mem.ids key = [])
  known : s.hydrated = true → s.phase ≠ .reading → ∀ x ∈ s.due, x ∈ s.mem ∨
    ∃ value taken, s.phase = .writing value taken ∧ s.Flushing x.1 ∧ x.2 ∈ taken
  value : ∀ value taken, s.phase = .writing value taken → ∀ x ∈ s.due,
    x ∈ stored value ∨ s.Flushing x.1
  cleared : ∀ value taken key, s.phase = .writing value taken → s.Flushing key →
    ∀ entry ∈ value, entry.isOf key = false
  order : s.mixed = false → s.mem.Bounded ∧ s.mem.Ordered s.scopes s.arrived

variable {s u : Service}

theorem flushing_append {gate : List Section} {sec : Section} {key : Key}
    (h : (gate ++ [sec]).head? = some (.flush key)) :
    gate.head? = some (.flush key) ∨ gate = [] ∧ sec = .flush key := by
  cases gate with
  | nil => exact .inr ⟨rfl, Option.some.inj h⟩
  | cons first rest => exact .inl h

theorem not_writing {value : List Entry} {taken : List MsgId} (h : s.phase = .waiting) :
    s.phase ≠ .writing value taken := by
  rw [h]
  exact fun h => by contradiction

/-- A section comes in behind the others. -/
theorem Kept.enqueue (h : s.Kept) {sec : Section}
    (hflush : ∀ key, sec = .flush key → s.gate = [] → s.phase = .waiting ∧ s.hydrated = true) :
    Kept { s with gate := s.gate ++ [sec] } := by
  have hflushing : ∀ key, s.Flushing key → Flushing { s with gate := s.gate ++ [sec] } key := by
    intro key hkey
    change (s.gate ++ [sec]).head? = some (.flush key)
    rw [List.head?_append, show s.gate.head? = some (.flush key) from hkey]
    rfl
  refine ⟨h.valid, h.listed, fun _ hnil => ?_, fun hread => ?_, fun hread hphase x hx => ?_,
    fun value taken hphase x hx => ?_, fun value taken key hphase hkey => ?_, h.order⟩
  · exact List.append_ne_nil_of_right_ne_nil _ (List.cons_ne_nil sec []) hnil
  · obtain ⟨hphase, hnot, -⟩ := h.unread hread
    refine ⟨hphase, fun key hkey => ?_, fun hnil => ?_⟩
    · rcases flushing_append hkey with hold | ⟨hgate, hsec⟩
      · exact hnot key hold
      · exact Bool.false_ne_true (hread.symm.trans (hflush key hsec hgate).2)
    · exact absurd hnil (List.append_ne_nil_of_right_ne_nil _ (List.cons_ne_nil sec []))
  · refine (h.known hread hphase x hx).imp_right fun hfly => ?_
    obtain ⟨value, taken, hwriting, hkey, hid⟩ := hfly
    exact ⟨value, taken, hwriting, hflushing _ hkey, hid⟩
  · exact (h.value value taken hphase x hx).imp_right (hflushing x.1)
  · rcases flushing_append hkey with hold | ⟨hgate, hsec⟩
    · exact h.cleared value taken key hphase hold
    · exact absurd hphase (not_writing (hflush key hsec hgate).1)

/-- The map of a park, and what is left of the ids that wait. -/
theorem Kept.parked (h : s.Kept) {key : Key} {msgIDs : List MsgId} {window : Option (List Key)}
    (hwindow : window.getD [] = [] → s.gate = [] → ∀ other,
      (s.mem.applyGroupReadReceiptPark key msgIDs).ids other = []) :
    Kept { s with
      mem := s.mem.applyGroupReadReceiptPark key msgIDs
      due := s.due.filter fun x => x ∈ s.mem → x ∈ s.mem.applyGroupReadReceiptPark key msgIDs
      scopes := s.mem.scopesAfter key s.scopes
      arrived := s.mem.arrivedAfter key msgIDs s.arrived
      window := window } := by
  have hsub : ∀ x ∈ s.due.filter fun x => x ∈ s.mem → x ∈ s.mem.applyGroupReadReceiptPark key msgIDs,
      x ∈ s.due ∧ (x ∈ s.mem → x ∈ s.mem.applyGroupReadReceiptPark key msgIDs) := by
    intro x hx
    obtain ⟨hdue, hkept⟩ := List.mem_filter.mp hx
    exact ⟨hdue, of_decide_eq_true hkept⟩
  refine ⟨fun x hx => h.valid x (hsub x hx).1, fun x hx => h.listed x (hsub x hx).1, h.held,
    fun hread => ?_, fun hread hphase x hx => ?_, fun value taken hphase x hx => ?_, h.cleared,
    fun hmixed => ?_⟩
  · obtain ⟨hphase, hnot, -⟩ := h.unread hread
    exact ⟨hphase, hnot, fun hgate hnone => hwindow hnone hgate⟩
  · obtain ⟨hdue, hkept⟩ := hsub x hx
    exact (h.known hread hphase x hdue).imp_left hkept
  · exact h.value value taken hphase x (hsub x hx).1
  · obtain ⟨hbounded, hordered⟩ := h.order hmixed
    exact ⟨hbounded.park key msgIDs, hordered.park key msgIDs⟩

theorem Kept.park (h : s.Kept) (key : Key) (msgIDs : List MsgId) :
    (s.queuePendingGroupReadReceipts key msgIDs).Kept := by
  unfold queuePendingGroupReadReceipts
  dsimp only
  cases hwindow : s.window with
  | some keys =>
    refine h.parked fun hnil => ?_
    exact absurd hnil (List.append_ne_nil_of_right_ne_nil _ (List.cons_ne_nil key []))
  | none =>
    have hqueued : Kept { s with gate := s.gate ++ [.park] } := h.enqueue fun _ hsec => by contradiction
    refine hqueued.parked fun _ hnil => ?_
    exact absurd hnil (List.append_ne_nil_of_right_ne_nil _ (List.cons_ne_nil _ []))

theorem Kept.changeWindow (h : s.Kept) {window : Option (List Key)}
    (hsame : s.gate = [] → window.getD [] = [] → s.window.getD [] = []) : Kept { s with window := window } := by
  refine ⟨h.valid, h.listed, h.held, fun hread => ?_, h.known, h.value, h.cleared, h.order⟩
  obtain ⟨hphase, hnot, hempty⟩ := h.unread hread
  exact ⟨hphase, hnot, fun hgate hnone => hempty hgate (hsame hgate hnone)⟩

theorem Kept.walked (h : s.Kept) {keys : List Key} (hwindow : s.window = some keys) :
    Kept { s with window := none, gate := if keys = [] then s.gate else s.gate ++ [.batch keys] } := by
  split_ifs with hkeys
  · refine h.changeWindow fun _ _ => ?_
    rw [hwindow, hkeys]
    rfl
  · have hqueued : Kept { s with gate := s.gate ++ [.batch keys] } := h.enqueue fun _ hsec => by contradiction
    refine hqueued.changeWindow fun hnil => ?_
    exact absurd hnil (List.append_ne_nil_of_right_ne_nil _ (List.cons_ne_nil _ []))

theorem Kept.flushForLivePeer (h : s.Kept) (hwindow : s.window = none) (key : Key) :
    (s.flushForLivePeer key).Kept := by
  unfold Service.flushForLivePeer
  split_ifs with hids hread
  · refine h.enqueue fun _ _ hgate => ⟨?_, ?_⟩
    · by_contra hphase
      exact h.held hphase hgate
    · by_contra hread
      rw [Bool.not_eq_true] at hread
      refine hids ((h.unread hread).2.2 hgate ?_ key)
      rw [hwindow]
      rfl
  · exact h
  · exact h.enqueue fun _ hsec => by contradiction

/-- Between the sections the map has every id that waits. -/
theorem Kept.mem_of_due (h : s.Kept) (hread : s.hydrated = true) (hphase : s.phase ≠ .reading)
    (hidle : ∀ value taken, s.phase ≠ .writing value taken) {x : Key × MsgId} (hx : x ∈ s.due) : x ∈ s.mem := by
  refine (h.known hread hphase x hx).resolve_right fun hfly => ?_
  obtain ⟨value, taken, hwriting, -⟩ := hfly
  exact hidle value taken hwriting

theorem Kept.enter (h : s.Kept) (he : s.enter = some u) : u.Kept := by
  unfold Service.enter at he
  split at he
  · rename_i key rest hphase hgate
    have hflushing : s.Flushing key := congrArg List.head? hgate
    have hread : s.hydrated = true := by
      by_contra hno
      exact (h.unread (Bool.eq_false_iff.mpr hno)).2.1 key hflushing
    have hmem : ∀ x ∈ s.due, x ∈ s.mem := fun x hx =>
      h.mem_of_due hread (by rw [hphase]; exact fun h => by contradiction) (fun _ _ => not_writing hphase) hx
    have horder : s.mixed = false → (s.mem.remove key).Bounded ∧ (s.mem.remove key).Ordered s.scopes s.arrived :=
      fun hmixed => ⟨(h.order hmixed).1.remove key, (h.order hmixed).2.remove key⟩
    dsimp only at he
    split_ifs at he with hids
    · obtain rfl := Option.some.inj he
      refine ⟨h.valid, h.listed, fun hno => absurd hphase hno, fun hno => ?_, fun _ _ x hx => .inl ?_,
        fun _ _ hwriting => absurd hwriting (not_writing hphase),
        fun _ _ _ hwriting => absurd hwriting (not_writing hphase), horder⟩
      · exact absurd (hread.symm.trans hno) (by decide)
      · refine Queue.mem_remove.mpr ⟨fun hkey => ?_, hmem x hx⟩
        have hid : x.2 ∈ s.mem.ids x.1 := hmem x hx
        rw [hkey, hids] at hid
        exact List.not_mem_nil hid
    · obtain rfl := Option.some.inj he
      refine ⟨h.valid, h.listed, fun _ hnil => ?_, fun hno => ?_, fun _ _ x hx => ?_, fun value taken hwriting x hx => ?_,
        fun value taken other hwriting hother entry hentry => ?_, horder⟩
      · rw [show s.gate = [] from hnil] at hgate
        contradiction
      · exact absurd (hread.symm.trans hno) (by decide)
      · by_cases hkey : x.1 = key
        · refine .inr ⟨_, _, rfl, ?_, ?_⟩
          · rw [hkey]
            exact hflushing
          · rw [← hkey]
            exact hmem x hx
        · exact .inl (Queue.mem_remove.mpr ⟨hkey, hmem x hx⟩)
      · obtain ⟨rfl, -⟩ := Phase.writing.inj hwriting
        by_cases hkey : x.1 = key
        · right
          rw [hkey]
          exact hflushing
        · exact .inl (Queue.stored_flat (Queue.mem_remove.mpr ⟨hkey, hmem x hx⟩) (h.valid x hx))
      · obtain ⟨rfl, -⟩ := Phase.writing.inj hwriting
        have hsame : Section.flush key = .flush other := Option.some.inj (hflushing.symm.trans hother)
        obtain rfl := Section.flush.inj hsame
        refine Queue.isOf_flat (fun hmem => ?_) hentry
        exact of_decide_eq_true (List.mem_filter.mp hmem).2 rfl
  · rename_i first rest hnot hphase hgate
    have hne : s.gate ≠ [] := by
      rw [hgate]
      exact List.cons_ne_nil _ _
    split_ifs at he with hread
    · obtain rfl := Option.some.inj he
      refine ⟨h.valid, h.listed, fun _ => hne, fun hno => ?_, fun _ _ x hx => .inl ?_,
        fun _ _ hwriting => by contradiction, fun _ _ _ hwriting => by contradiction, h.order⟩
      · exact absurd (hread.symm.trans hno) (by decide)
      · exact h.mem_of_due hread (by rw [hphase]; exact fun h => by contradiction) (fun _ _ => not_writing hphase) hx
    · obtain rfl := Option.some.inj he
      exact ⟨h.valid, h.listed, fun _ => hne, fun hno => by contradiction, fun _ hno => absurd rfl hno,
        fun _ _ hwriting => by contradiction, fun _ _ _ hwriting => by contradiction, h.order⟩
  · contradiction

theorem not_unread (h : s.Kept) (hphase : s.phase ≠ .waiting) : s.hydrated = true := by
  by_contra hno
  exact hphase (h.unread (Bool.eq_false_iff.mpr hno)).1

theorem Kept.read (h : s.Kept) {ok : Bool} (hrecovers : Recovers s (.read ok)) (he : s.read ok = some u) :
    u.Kept := by
  unfold Service.read at he
  by_cases hphase : s.phase = .reading
  swap
  · rw [if_neg hphase] at he
    contradiction
  rw [if_pos hphase] at he
  have hread : s.hydrated = true := not_unread h (by rw [hphase]; exact fun h => by contradiction)
  have hgate : s.gate ≠ [] := h.held (by rw [hphase]; exact fun h => by contradiction)
  obtain rfl := Option.some.inj he
  refine ⟨h.valid, h.listed, fun _ => hgate, fun hno => ?_, fun _ _ x hx => .inl ?_,
    fun _ _ hwriting => by contradiction, fun _ _ _ hwriting => by contradiction, fun hmixed => ?_⟩
  · exact absurd (hread.symm.trans hno) (by decide)
  · cases ok with
    | true =>
      have hall : stored (s.blob.dropWhile (· ≠ .undecodable)) = [] ∧ s.mem.Fits s.blob := hrecovers
      exact (Queue.recover_spec hall.2 hall.1).2 x (h.listed x hx)
    | false =>
      have hnone : stored s.blob = [] := hrecovers
      have hold := h.listed x hx
      rw [hnone] at hold
      exact absurd hold List.not_mem_nil
  · change (s.mixed || (ok && s.mem.keys ≠ [] && s.blob ≠ [])) = false at hmixed
    rw [Bool.or_eq_false_iff] at hmixed
    obtain ⟨hbounded, hordered⟩ := h.order hmixed.1
    dsimp only
    cases ok with
    | false =>
      refine ⟨hbounded, ?_⟩
      by_cases hkeys : s.mem.keys = []
      · simp only [if_pos hkeys]
        exact s.mem.ordered_self
      · simp only [if_neg hkeys]
        exact hordered
    | true =>
      refine ⟨hbounded.recover s.blob, ?_⟩
      by_cases hkeys : s.mem.keys = []
      · simp only [if_pos hkeys]
        exact (s.mem.recover s.blob).ordered_self
      · have hblob : s.blob = [] := by simpa [hkeys] using hmixed.2
        simp only [if_neg hkeys, hblob]
        exact hordered

theorem foldl_capAt {queue : Queue} {keys : List Key} (h : ∀ key ∈ keys, (queue.ids key).length ≤ 200) :
    keys.foldl Queue.capAt queue = queue := by
  induction keys with
  | nil => rfl
  | cons key keys ih =>
    obtain ⟨hkey, hrest⟩ := List.forall_mem_cons.mp h
    rw [List.foldl_cons, Queue.capAt_eq hkey]
    exact ih hrest

theorem not_flushing {sec : Section} {rest : List Section} (hgate : s.gate = sec :: rest)
    (hsec : ∀ key, sec ≠ .flush key) (key : Key) : ¬ s.Flushing key := by
  intro hkey
  rw [Flushing, hgate] at hkey
  exact hsec key (Option.some.inj hkey)

theorem Kept.mem_ready (h : s.Kept) (hphase : s.phase = .ready) {x : Key × MsgId} (hx : x ∈ s.due) :
    x ∈ s.mem := by
  refine h.mem_of_due (not_unread h ?_) ?_ ?_ hx
  all_goals
    rw [hphase]
    intros
    exact fun h => by contradiction

/-- The whole map is handed to the preferences. -/
theorem Kept.writes (h : s.Kept) (hphase : s.phase = .ready) (hhead : ∀ key, ¬ s.Flushing key) :
    Kept { s with phase := .writing s.mem.flat [] } := by
  have hne : s.phase ≠ .waiting := by
    rw [hphase]
    exact fun h => by contradiction
  refine ⟨h.valid, h.listed, fun _ => h.held hne, fun hno => ?_, fun _ _ x hx => .inl (h.mem_ready hphase hx),
    fun value taken hwriting x hx => .inl ?_, fun value taken key _ hkey => absurd hkey (hhead key), h.order⟩
  · exact absurd ((not_unread h hne).symm.trans hno) (by decide)
  · obtain ⟨rfl, -⟩ := Phase.writing.inj hwriting
    exact Queue.stored_flat (h.mem_ready hphase hx) (h.valid x hx)

theorem Kept.short_batch (h : s.Kept) (hrecovers : Recovers s .write) {keys : List Key} {rest : List Section}
    (hgate : s.gate = .batch keys :: rest) : ∀ key ∈ keys, (s.mem.ids key).length ≤ 200 := by
  cases hmixed : s.mixed with
  | true =>
    have hshort := hrecovers hmixed
    rw [touched, hgate] at hshort
    exact hshort
  | false => exact fun key _ => (h.order hmixed).1.ids key

theorem Kept.write (h : s.Kept) (hrecovers : Recovers s .write) (he : s.write = some u) : u.Kept := by
  unfold Service.write at he
  split at he
  · rename_i rest hphase hgate
    obtain rfl := Option.some.inj he
    exact h.writes hphase (not_flushing hgate fun _ hsec => by contradiction)
  · rename_i keys rest hphase hgate
    have hshort := h.short_batch hrecovers hgate
    have hdue : (s.due.filter fun x => x ∈ s.mem → x ∈ s.mem) = s.due :=
      List.filter_eq_self.mpr fun x _ => decide_eq_true fun hx => hx
    dsimp only at he
    rw [foldl_capAt hshort, hdue] at he
    obtain rfl := Option.some.inj he
    exact h.writes hphase (not_flushing hgate fun _ hsec => by contradiction)
  · rename_i key rest hphase hgate
    have hread : s.hydrated = true := not_unread h (by rw [hphase]; exact fun h => by contradiction)
    obtain rfl := Option.some.inj he
    refine ⟨h.valid, h.listed, fun hno => absurd rfl hno, fun hno => ?_, fun _ _ x hx => .inl (h.mem_ready hphase hx),
      fun _ _ hwriting => by contradiction, fun _ _ _ hwriting => by contradiction, h.order⟩
    exact absurd (hread.symm.trans hno) (by decide)
  · contradiction

theorem Kept.wrote (h : s.Kept) {ok : Bool} (he : s.wrote ok = some u) : u.Kept := by
  unfold Service.wrote at he
  split at he
  · rename_i value taken key rest hphase hgate
    have hflushing : s.Flushing key := congrArg List.head? hgate
    have hread : s.hydrated = true := not_unread h (by rw [hphase]; exact fun h => by contradiction)
    have hknown : ∀ x ∈ s.due, x ∈ s.mem ∨ x.1 = key ∧ x.2 ∈ taken := by
      intro x hx
      refine (h.known hread (by rw [hphase]; exact fun h => by contradiction) x hx).imp_right fun hfly => ?_
      obtain ⟨_, _, hwriting, hkey, hid⟩ := hfly
      obtain ⟨-, rfl⟩ := Phase.writing.inj (hphase.symm.trans hwriting)
      have hsame : Section.flush key = .flush x.1 := Option.some.inj (hflushing.symm.trans hkey)
      exact ⟨(Section.flush.inj hsame).symm, hid⟩
    split_ifs at he with hok
    · obtain rfl := Option.some.inj he
      have hdue : ∀ x ∈ s.due.filter (·.1 ≠ key), x ∈ s.due ∧ x.1 ≠ key := fun x hx =>
        ⟨(List.mem_filter.mp hx).1, of_decide_eq_true (List.mem_filter.mp hx).2⟩
      refine ⟨fun x hx => h.valid x (hdue x hx).1, fun x hx => ?_, fun hno => absurd rfl hno, fun hno => ?_,
        fun _ _ x hx => .inl ?_, fun _ _ hwriting => by contradiction, fun _ _ _ hwriting => by contradiction,
        h.order⟩
      · refine (h.value value taken hphase x (hdue x hx).1).resolve_right fun hkey => ?_
        have hsame : Section.flush key = .flush x.1 := Option.some.inj (hflushing.symm.trans hkey)
        exact (hdue x hx).2 (Section.flush.inj hsame).symm
      · exact absurd (hread.symm.trans hno) (by decide)
      · exact (hknown x (hdue x hx).1).resolve_right fun htaken => (hdue x hx).2 htaken.1
    · obtain rfl := Option.some.inj he
      refine ⟨h.valid, h.listed, fun hno => absurd rfl hno, fun hno => ?_, fun _ _ x hx => .inl ?_,
        fun _ _ hwriting => by contradiction, fun _ _ _ hwriting => by contradiction, fun hmixed => by contradiction⟩
      · exact absurd (hread.symm.trans hno) (by decide)
      · exact Queue.mem_add.mpr (hknown x hx)
  · rename_i value taken sec rest hnot hphase hgate
    have hhead := not_flushing hgate hnot
    have hread : s.hydrated = true := not_unread h (by rw [hphase]; exact fun h => by contradiction)
    have hmem : ∀ x ∈ s.due, x ∈ s.mem := by
      intro x hx
      refine (h.known hread (by rw [hphase]; exact fun h => by contradiction) x hx).resolve_right fun hfly => ?_
      obtain ⟨_, _, -, hkey, -⟩ := hfly
      exact hhead x.1 hkey
    split_ifs at he with hok
    · obtain rfl := Option.some.inj he
      have hdue : ∀ x ∈ s.due ++ (stored value).filter (· ∈ s.mem), x ∈ stored value ∧ x ∈ s.mem := by
        intro x hx
        rcases List.mem_append.mp hx with hx | hx
        · exact ⟨(h.value value taken hphase x hx).resolve_right (hhead x.1), hmem x hx⟩
        · exact ⟨(List.mem_filter.mp hx).1, of_decide_eq_true (List.mem_filter.mp hx).2⟩
      refine ⟨fun x hx => wellFormed_of_stored (hdue x hx).1, fun x hx => (hdue x hx).1, fun hno => absurd rfl hno,
        fun hno => ?_, fun _ _ x hx => .inl (hdue x hx).2, fun _ _ hwriting => by contradiction,
        fun _ _ _ hwriting => by contradiction, h.order⟩
      exact absurd (hread.symm.trans hno) (by decide)
    · obtain rfl := Option.some.inj he
      refine ⟨h.valid, h.listed, fun hno => absurd rfl hno, fun hno => ?_, fun _ _ x hx => .inl (hmem x hx),
        fun _ _ hwriting => by contradiction, fun _ _ _ hwriting => by contradiction, h.order⟩
      exact absurd (hread.symm.trans hno) (by decide)
  · contradiction

/-- A life that has just begun. -/
theorem Kept.fresh {blob : List Entry} {due : List (Key × MsgId)} (h : ∀ x ∈ due, x ∈ stored blob) :
    Kept { blob, due } where
  valid x hx := wellFormed_of_stored (h x hx)
  listed := h
  held hphase := absurd rfl hphase
  unread _ := ⟨rfl, fun _ h => by contradiction, fun _ _ _ => rfl⟩
  known hread := by contradiction
  value _ _ hphase := by contradiction
  cleared _ _ _ hphase := by contradiction
  order _ := ⟨⟨Nat.zero_le _, fun _ => Nat.zero_le _⟩, ⟨inOrder_nil _, fun _ => inOrder_nil _⟩⟩

theorem Kept.restart (h : s.Kept) (landed : Bool) : (s.restart landed).Kept := by
  unfold Service.restart
  split
  · rename_i value taken key rest hphase hgate
    refine Kept.fresh fun x hx => ?_
    rcases List.mem_append.mp hx with hx | hx
    · obtain ⟨hdue, hne⟩ := List.mem_filter.mp hx
      refine (h.value value taken hphase x hdue).resolve_right fun hkey => ?_
      rw [Flushing, hgate] at hkey
      exact of_decide_eq_true hne (Section.flush.inj (Option.some.inj hkey)).symm
    · exact hx
  · rename_i value taken hphase hnot
    refine Kept.fresh fun x hx => ?_
    rcases List.mem_append.mp hx with hx | hx
    · refine (h.value value taken hphase x hx).resolve_right fun hkey => ?_
      obtain ⟨rest, hgate⟩ := List.head?_eq_some_iff.mp hkey
      exact hnot x.1 rest hgate
    · exact hx
  · refine Kept.fresh fun x hx => ?_
    rcases List.mem_append.mp hx with hx | hx
    · exact h.listed x hx
    · exact hx

/-! ## One step -/

theorem step_park {groupID authorKey : String} {msgIDs : List MsgId}
    (he : s.step (.park groupID authorKey msgIDs) = some u) :
    u = s ∨ u = s.queuePendingGroupReadReceipts (groupReadReceiptQueueKey groupID authorKey) msgIDs := by
  change (if groupID = "" ∨ authorKey = "" ∨ msgIDs = [] then some s
    else some (s.queuePendingGroupReadReceipts (groupReadReceiptQueueKey groupID authorKey) msgIDs)) = some u at he
  split_ifs at he
  · exact .inl (Option.some.inj he).symm
  · exact .inr (Option.some.inj he).symm

theorem step_walk (he : s.step .walk = some u) : s.window = none ∧ u = { s with window := some [] } := by
  change (if s.window = none then some { s with window := some [] } else none) = some u at he
  split_ifs at he with hwindow
  exact ⟨hwindow, (Option.some.inj he).symm⟩

/-- While a walk is under way, nothing but it goes on. -/
theorem of_window {next : Option Service} (he : (if s.window ≠ none then none else next) = some u) :
    s.window = none ∧ next = some u := by
  split_ifs at he with hwindow
  exact ⟨not_not.mp hwindow, he⟩

theorem step_peerLive {groupID authorKey : String} (he : s.step (.peerLive groupID authorKey) = some u) :
    s.window = none ∧ (u = s ∨ u = s.flushForLivePeer (groupReadReceiptQueueKey groupID authorKey)) := by
  obtain ⟨hwindow, he⟩ := of_window he
  refine ⟨hwindow, ?_⟩
  split_ifs at he
  · exact .inl (Option.some.inj he).symm
  · exact .inr (Option.some.inj he).symm

theorem step_enter (he : s.step .enter = some u) : s.enter = some u := (of_window he).2

theorem step_read {ok : Bool} (he : s.step (.read ok) = some u) : s.read ok = some u := (of_window he).2

theorem step_write (he : s.step .write = some u) : s.write = some u := (of_window he).2

theorem step_wrote {ok : Bool} (he : s.step (.wrote ok) = some u) : s.wrote ok = some u := (of_window he).2

theorem step_send {loop : ℕ} (he : s.step (.send loop) = some u) : s.send loop = some u := (of_window he).2

/-- The begin of a section takes nothing from the ids that wait and sends nothing. -/
theorem enter_frame (he : s.enter = some u) : u.due = s.due ∧ u.sends = s.sends := by
  unfold Service.enter at he
  split at he
  · dsimp only at he
    split_ifs at he
    · exact Option.some.inj he ▸ ⟨rfl, rfl⟩
    · exact Option.some.inj he ▸ ⟨rfl, rfl⟩
  · split_ifs at he
    · exact Option.some.inj he ▸ ⟨rfl, rfl⟩
    · exact Option.some.inj he ▸ ⟨rfl, rfl⟩
  · contradiction

theorem read_frame {ok : Bool} (he : s.read ok = some u) : u.due = s.due ∧ u.sends = s.sends := by
  unfold Service.read at he
  by_cases hphase : s.phase = .reading
  · rw [if_pos hphase] at he
    exact Option.some.inj he ▸ ⟨rfl, rfl⟩
  · rw [if_neg hphase] at he
    contradiction

theorem Kept.step (h : s.Kept) {e : Event} (hrecovers : Recovers s e) (he : s.step e = some u) : u.Kept := by
  cases e with
  | park groupID authorKey msgIDs =>
    rcases step_park he with rfl | rfl
    · exact h
    · exact h.park _ _
  | walk =>
    obtain ⟨hwindow, rfl⟩ := step_walk he
    refine h.changeWindow fun _ _ => ?_
    rw [hwindow]
    rfl
  | walked =>
    obtain ⟨keys, hkeys, rfl⟩ := Option.map_eq_some_iff.mp he
    exact h.walked hkeys
  | restart landed => exact Option.some.inj he ▸ h.restart landed
  | peerLive groupID authorKey =>
    obtain ⟨hwindow, rfl | rfl⟩ := step_peerLive he
    · exact h
    · exact h.flushForLivePeer hwindow _
  | enter => exact h.enter (step_enter he)
  | read ok => exact h.read hrecovers (step_read he)
  | write => exact h.write hrecovers (step_write he)
  | wrote ok => exact h.wrote (step_wrote he)
  | send loop =>
    obtain ⟨item, -, rfl⟩ := Option.map_eq_some_iff.mp (step_send he)
    exact ⟨h.valid, h.listed, h.held, h.unread, h.known, h.value, h.cleared, h.order⟩

/-! ## What a step does to the ids -/

/-- Nothing but the end of a flush gives a loop of sends an id. -/
theorem Kept.sends_step (h : s.Kept) {e : Event} (he : s.step e = some u) {item : Key × List MsgId}
    (hitem : item ∈ u.sends) : (∃ old ∈ s.sends, old.1 = item.1 ∧ item.2 <:+ old.2) ∨
      ∀ entry ∈ u.blob, entry.isOf item.1 = false := by
  have hsame : u.sends = s.sends → ∃ old ∈ s.sends, old.1 = item.1 ∧ item.2 <:+ old.2 := fun heq =>
    ⟨item, heq ▸ hitem, rfl, List.suffix_rfl⟩
  cases e with
  | park groupID authorKey msgIDs =>
    rcases step_park he with rfl | rfl
    · exact .inl (hsame rfl)
    · refine .inl (hsame ?_)
      unfold queuePendingGroupReadReceipts
      cases s.window <;> rfl
  | walk =>
    obtain ⟨-, rfl⟩ := step_walk he
    exact .inl (hsame rfl)
  | walked =>
    obtain ⟨keys, -, rfl⟩ := Option.map_eq_some_iff.mp he
    exact .inl (hsame rfl)
  | restart landed =>
    obtain rfl := Option.some.inj he
    have hnone : (s.restart landed).sends = [] := by
      unfold Service.restart
      split <;> rfl
    rw [hnone] at hitem
    exact absurd hitem List.not_mem_nil
  | peerLive groupID authorKey =>
    obtain ⟨-, rfl | rfl⟩ := step_peerLive he
    · exact .inl (hsame rfl)
    · refine .inl (hsame ?_)
      unfold Service.flushForLivePeer
      split_ifs <;> rfl
  | enter => exact .inl (hsame (enter_frame (step_enter he)).2)
  | read ok => exact .inl (hsame (read_frame (step_read he)).2)
  | write =>
    have he := step_write he
    unfold Service.write at he
    split at he
    · exact .inl (hsame (Option.some.inj he ▸ rfl))
    · exact .inl (hsame (Option.some.inj he ▸ rfl))
    · exact .inl (hsame (Option.some.inj he ▸ rfl))
    · contradiction
  | wrote ok =>
    have he := step_wrote he
    unfold Service.wrote at he
    split at he
    · rename_i value taken key rest hphase hgate
      split_ifs at he
      · obtain rfl := Option.some.inj he
        rcases List.mem_append.mp hitem with hold | hnew
        · exact .inl ⟨item, hold, rfl, List.suffix_rfl⟩
        · right
          rw [List.mem_singleton.mp hnew]
          exact h.cleared value taken key hphase (congrArg List.head? hgate)
      · exact .inl (hsame (Option.some.inj he ▸ rfl))
    · split_ifs at he
      · exact .inl (hsame (Option.some.inj he ▸ rfl))
      · exact .inl (hsame (Option.some.inj he ▸ rfl))
    · contradiction
  | send loop =>
    obtain ⟨old, hold, rfl⟩ := Option.map_eq_some_iff.mp (step_send he)
    rcases List.mem_or_eq_of_mem_set hitem with hmem | rfl
    · exact .inl ⟨item, hmem, rfl, List.suffix_rfl⟩
    · exact .inl ⟨old, List.mem_of_getElem? hold, rfl, List.tail_suffix _⟩

/-- The park pushes the id out: its scope keeps 200 ids that all came after it, or 64 scopes came
    after its own. -/
def PushesOut (e : Event) (u : Service) (x : Key × MsgId) : Prop :=
  ∃ groupID authorKey msgIDs, e = .park groupID authorKey msgIDs ∧
    ((64 ≤ u.mem.keys.length ∧ ∀ key ∈ u.mem.keys, CameAfter u.scopes key x.1) ∨
      x.1 = groupReadReceiptQueueKey groupID authorKey ∧ (u.mem.ids x.1).length = 200 ∧
        ∀ id ∈ u.mem.ids x.1, CameAfter u.arrived (x.1, id) x)

theorem park_shape {key : Key} {msgIDs : List MsgId} (hu : u = s.queuePendingGroupReadReceipts key msgIDs) :
    u.mem = s.mem.applyGroupReadReceiptPark key msgIDs ∧ u.scopes = s.mem.scopesAfter key s.scopes ∧
      u.arrived = s.mem.arrivedAfter key msgIDs s.arrived ∧
      u.due = s.due.filter fun x => x ∈ s.mem → x ∈ s.mem.applyGroupReadReceiptPark key msgIDs := by
  rw [hu, queuePendingGroupReadReceipts]
  cases s.window <;> exact ⟨rfl, rfl, rfl, rfl⟩

/-- An id waits on, is flushed or is pushed out by newer ones. -/
theorem Kept.due_step (h : s.Kept) {e : Event} (hrecovers : Recovers s e) (he : s.step e = some u)
    {x : Key × MsgId} (hx : x ∈ s.due) :
    x ∈ u.due ∨ (s.Flushing x.1 ∧ (e = .wrote true ∨ e = .restart true)) ∨ PushesOut e u x := by
  cases e with
  | park groupID authorKey msgIDs =>
    rcases step_park he with rfl | hpark
    · exact .inl hx
    · obtain ⟨hmap, hscopes, harrived, hdue⟩ := park_shape hpark
      by_cases hgone : x ∈ s.mem ∧ x ∉ s.mem.applyGroupReadReceiptPark
          (groupReadReceiptQueueKey groupID authorKey) msgIDs
      · obtain ⟨hin, hout⟩ := hgone
        cases hmixed : s.mixed with
        | true =>
          obtain ⟨hroom, hplace⟩ := hrecovers hmixed
          exact absurd (Queue.park_keeps hroom hplace hin) hout
        | false =>
          refine .inr (.inr ⟨groupID, authorKey, msgIDs, rfl, ?_⟩)
          rw [hmap, hscopes, harrived]
          refine ((h.order hmixed).2.evicted hin hout).imp_right fun hover => ?_
          obtain ⟨hkey, hrest⟩ := hover
          rw [hkey]
          exact ⟨rfl, hrest⟩
      · left
        rw [hdue]
        refine List.mem_filter.mpr ⟨hx, decide_eq_true fun hin => ?_⟩
        exact not_not.mp fun hout => hgone ⟨hin, hout⟩
  | walk =>
    obtain ⟨-, rfl⟩ := step_walk he
    exact .inl hx
  | walked =>
    obtain ⟨keys, -, rfl⟩ := Option.map_eq_some_iff.mp he
    exact .inl hx
  | restart landed =>
    obtain rfl := Option.some.inj he
    unfold Service.restart
    split
    · rename_i value taken key rest hphase hgate
      by_cases hkey : x.1 = key
      · refine .inr (.inl ⟨?_, .inr rfl⟩)
        rw [hkey]
        exact congrArg List.head? hgate
      · exact .inl (List.mem_append_left _ (List.mem_filter.mpr ⟨hx, decide_eq_true hkey⟩))
    · exact .inl (List.mem_append_left _ hx)
    · exact .inl (List.mem_append_left _ hx)
  | peerLive groupID authorKey =>
    obtain ⟨-, rfl | rfl⟩ := step_peerLive he
    · exact .inl hx
    · left
      unfold Service.flushForLivePeer
      split_ifs <;> exact hx
  | enter =>
    left
    rw [(enter_frame (step_enter he)).1]
    exact hx
  | read ok =>
    left
    rw [(read_frame (step_read he)).1]
    exact hx
  | write =>
    have he := step_write he
    unfold Service.write at he
    split at he
    · exact .inl (Option.some.inj he ▸ hx)
    · rename_i keys rest hphase hgate
      have hshort := h.short_batch hrecovers hgate
      dsimp only at he
      rw [foldl_capAt hshort] at he
      refine .inl (Option.some.inj he ▸ ?_)
      exact List.mem_filter.mpr ⟨hx, decide_eq_true fun hin => hin⟩
    · exact .inl (Option.some.inj he ▸ hx)
    · contradiction
  | wrote ok =>
    have he := step_wrote he
    unfold Service.wrote at he
    split at he
    · rename_i value taken key rest hphase hgate
      split_ifs at he with hok
      · obtain rfl := Option.some.inj he
        by_cases hkey : x.1 = key
        · refine .inr (.inl ⟨?_, .inl (by rw [hok])⟩)
          rw [hkey]
          exact congrArg List.head? hgate
        · exact .inl (List.mem_filter.mpr ⟨hx, decide_eq_true hkey⟩)
      · exact .inl (Option.some.inj he ▸ hx)
    · split_ifs at he
      · exact .inl (Option.some.inj he ▸ List.mem_append_left _ hx)
      · exact .inl (Option.some.inj he ▸ hx)
    · contradiction
  | send loop =>
    obtain ⟨item, -, rfl⟩ := Option.map_eq_some_iff.mp (step_send he)
    exact .inl hx

/-- The ids of a park are in the map, or newer ones of it push them out. -/
theorem Kept.comes (h : s.Kept) {groupID authorKey : String} {msgIDs : List MsgId}
    (hrecovers : Recovers s (.park groupID authorKey msgIDs)) (he : s.step (.park groupID authorKey msgIDs) = some u)
    (hgroup : groupID ≠ "") (hauthor : authorKey ≠ "") {id : MsgId} (hid : id ∈ msgIDs) :
    (groupReadReceiptQueueKey groupID authorKey, id) ∈ u.mem ∨ PushesOut (.park groupID authorKey msgIDs) u
      (groupReadReceiptQueueKey groupID authorKey, id) := by
  change (if groupID = "" ∨ authorKey = "" ∨ msgIDs = [] then some s
    else some (s.queuePendingGroupReadReceipts (groupReadReceiptQueueKey groupID authorKey) msgIDs)) = some u at he
  rw [if_neg] at he
  swap
  · rw [not_or, not_or]
    exact ⟨hgroup, hauthor, List.ne_nil_of_mem hid⟩
  obtain ⟨hmap, hscopes, harrived, -⟩ := park_shape (Option.some.inj he).symm
  rw [or_iff_not_imp_left]
  intro hout
  refine ⟨groupID, authorKey, msgIDs, rfl, .inr ⟨rfl, ?_⟩⟩
  rw [hmap] at hout ⊢
  rw [harrived]
  cases hmixed : s.mixed with
  | true =>
    obtain ⟨hroom, hplace⟩ := hrecovers hmixed
    exact absurd (Queue.park_brings hroom hplace hid) hout
  | false => exact (h.order hmixed).2.overflows ((mem_addAll _ _).mpr (.inr hid)) hout

/-- A flush of one scope leaves the ids of the others. -/
theorem flush_alone {key other : Key} (hkey : s.Flushing key) (hother : other ≠ key) {e : Event}
    (hflush : e = .enter ∨ ∃ ok, e = .wrote ok) (he : s.step e = some u) :
    u.mem.ids other = s.mem.ids other ∧ ∀ x ∈ s.due, x.1 = other → x ∈ u.due := by
  rcases hflush with rfl | ⟨ok, rfl⟩
  · have he := step_enter he
    unfold Service.enter at he
    split at he
    · rename_i first rest hphase hgate
      rw [Flushing, hgate] at hkey
      obtain rfl := Section.flush.inj (Option.some.inj hkey)
      dsimp only at he
      split_ifs at he
      · obtain rfl := Option.some.inj he
        exact ⟨Function.update_of_ne hother _ _, fun x hx _ => hx⟩
      · obtain rfl := Option.some.inj he
        exact ⟨Function.update_of_ne hother _ _, fun x hx _ => hx⟩
    · rename_i first rest hnot hphase hgate
      exact absurd hkey (not_flushing hgate hnot key)
    · contradiction
  · have he := step_wrote he
    unfold Service.wrote at he
    split at he
    · rename_i value taken first rest hphase hgate
      rw [Flushing, hgate] at hkey
      obtain rfl := Section.flush.inj (Option.some.inj hkey)
      split_ifs at he
      · obtain rfl := Option.some.inj he
        refine ⟨rfl, fun x hx hsame => List.mem_filter.mpr ⟨hx, decide_eq_true ?_⟩⟩
        rw [hsame]
        exact hother
      · obtain rfl := Option.some.inj he
        exact ⟨Function.update_of_ne hother _ _, fun x hx _ => hx⟩
    · rename_i value taken first rest hnot hphase hgate
      exact absurd hkey (not_flushing hgate hnot key)
    · contradiction

/-- What is written holds every id of the map. -/
theorem write_whole (he : s.step .write = some u) {value : List Entry} {taken : List MsgId}
    (hphase : u.phase = .writing value taken) {x : Key × MsgId} (hx : x ∈ u.mem) (hvalid : WellFormed x) :
    x ∈ stored value := by
  have he := step_write he
  unfold Service.write at he
  split at he
  · obtain rfl := Option.some.inj he
    obtain ⟨rfl, -⟩ := Phase.writing.inj hphase
    exact Queue.stored_flat hx hvalid
  · obtain rfl := Option.some.inj he
    obtain ⟨rfl, -⟩ := Phase.writing.inj hphase
    exact Queue.stored_flat hx hvalid
  · obtain rfl := Option.some.inj he
    contradiction
  · contradiction

/-- When the write of parks has come back, what it stored waits, as far as the map still has it. -/
theorem wrote_due (hhead : ∀ key, ¬ s.Flushing key) (he : s.step (.wrote true) = some u) {x : Key × MsgId}
    (hx : x ∈ u.mem) (hstored : x ∈ stored u.blob) : x ∈ u.due := by
  have he := step_wrote he
  unfold Service.wrote at he
  split at he
  · rename_i value taken key rest hphase hgate
    exact absurd (congrArg List.head? hgate) (hhead key)
  · rw [if_pos rfl] at he
    obtain rfl := Option.some.inj he
    exact List.mem_append_right _ (List.mem_filter.mpr ⟨hstored, decide_eq_true hx⟩)
  · contradiction

theorem restart_due (landed : Bool) {x : Key × MsgId} (hx : x ∈ stored (s.restart landed).blob) :
    x ∈ (s.restart landed).due := by
  unfold Service.restart at hx ⊢
  split at hx <;> exact List.mem_append_right _ hx

end Service

/-- What a step owes to the ids that wait. -/
structure Faithful (s : Service) (e : Event) (u : Service) : Prop where
  /-- What a loop sends has just been cleared from the stored list, or the loop had it before. -/
  sends : ∀ item ∈ u.sends, (∃ old ∈ s.sends, old.1 = item.1 ∧ item.2 <:+ old.2) ∨
    ∀ entry ∈ u.blob, entry.isOf item.1 = false
  /-- An id waits on until it is flushed or pushed out by newer ones. -/
  waits : ∀ x ∈ s.due, x ∈ u.due ∨ (s.Flushing x.1 ∧ (e = .wrote true ∨ e = .restart true)) ∨
    Service.PushesOut e u x
  /-- A flush leaves the other scopes alone. -/
  alone : ∀ key, s.Flushing key → (e = .enter ∨ ∃ ok, e = .wrote ok) → ∀ other, other ≠ key →
    u.mem.ids other = s.mem.ids other ∧ ∀ x ∈ s.due, x.1 = other → x ∈ u.due
  /-- A new life inherits what is stored. -/
  inherits : ∀ landed, e = .restart landed → ∀ x ∈ stored u.blob, x ∈ u.due
  /-- The ids of a park come into the map, its section writes the map, and then they wait. -/
  comes : ∀ groupID authorKey msgIDs, e = .park groupID authorKey msgIDs → groupID ≠ "" → authorKey ≠ "" →
    ∀ id ∈ msgIDs, (groupReadReceiptQueueKey groupID authorKey, id) ∈ u.mem ∨
      Service.PushesOut e u (groupReadReceiptQueueKey groupID authorKey, id)
  whole : e = .write → ∀ value taken, u.phase = .writing value taken → ∀ x ∈ u.mem, WellFormed x →
    x ∈ stored value
  parked : e = .wrote true → (∀ key, ¬ s.Flushing key) → ∀ x ∈ u.mem, x ∈ stored u.blob → x ∈ u.due

/-- An id that an earlier life stored or a park brought stays stored until it is flushed or pushed out
    by newer ones, and no flush sends what is stored, when every life reads its list back whole. -/
theorem parked_receipts_kept (blob : List Entry) (es : List Event) (s : Service)
    (hrun : exec Service.step (.start blob) es = some s)
    (hmeets : Meets Service.step Recovers (.start blob) es) :
    (∀ x ∈ s.due, x ∈ stored s.blob) ∧
      ∀ e u, s.step e = some u → Recovers s e → Faithful s e u := by
  have h : s.Kept := invariant_of_meets (fun _ _ _ h hc he => h.step hc he)
    (Service.Kept.fresh fun _ hx => hx) hmeets hrun
  refine ⟨h.listed, fun e u he hrecovers => ?_⟩
  refine ⟨fun item hitem => h.sends_step he hitem, fun x hx => h.due_step hrecovers he hx,
    fun key hkey hflush other hother => Service.flush_alone hkey hother hflush he, ?_, ?_, ?_, ?_⟩
  · rintro landed rfl x hx
    obtain rfl := Option.some.inj he
    exact Service.restart_due landed hx
  · rintro groupID authorKey msgIDs rfl hgroup hauthor id hid
    exact h.comes hrecovers he hgroup hauthor hid
  · rintro rfl value taken hphase x hx hvalid
    exact Service.write_whole he hphase hx hvalid
  · rintro rfl hhead x hx hstored
    exact Service.wrote_due hhead he hx hstored

/-- An id of an earlier life, and what the list holds when it has been read back. -/
def oneStored : List Entry := [.triple "group" "bob" "m1"]

/-- The author of the stored id is live; then an id for another author is parked. -/
def recoverThenPark : List Event :=
  [.peerLive "group" "bob", .enter, .read true, .write, .park "group" "carol" ["m2"], .enter, .wrote false,
    .enter, .write, .wrote true]

theorem kept_over_recovery :
    ∃ s, exec Service.step (.start oneStored) recoverThenPark = some s ∧
      s.due = [(groupReadReceiptQueueKey "group" "bob", "m1"), (groupReadReceiptQueueKey "group" "carol", "m2"),
        (groupReadReceiptQueueKey "group" "bob", "m1")] ∧
      (∀ x ∈ s.due, x ∈ stored s.blob) ∧
      ∀ e u, s.step e = some u → Recovers s e → Faithful s e u := by
  have hdue : (exec Service.step (.start oneStored) recoverThenPark).map Service.due =
      some [(groupReadReceiptQueueKey "group" "bob", "m1"), (groupReadReceiptQueueKey "group" "carol", "m2"),
        (groupReadReceiptQueueKey "group" "bob", "m1")] := by decide
  have hmeets : Meets Service.step Recovers (.start oneStored) recoverThenPark := by decide
  obtain ⟨s, hs, heq⟩ := Option.map_eq_some_iff.mp hdue
  exact ⟨s, hs, heq, parked_receipts_kept oneStored recoverThenPark s hs hmeets⟩

/-- The one read of the life throws before an id is parked. -/
def readThrows : List Event :=
  [.park "group" "carol" ["m2"], .enter, .read false, .write, .wrote true]

/-- The write of the park forgets the id that was stored. -/
theorem failed_read_forgets :
    ∃ s, exec Service.step (.start oneStored) readThrows = some s ∧
      (groupReadReceiptQueueKey "group" "bob", "m1") ∈ s.due ∧
      (groupReadReceiptQueueKey "group" "bob", "m1") ∉ stored s.blob := by
  have hends : (exec Service.step (.start oneStored) readThrows).map (fun s => (s.due, stored s.blob)) =
      some ([(groupReadReceiptQueueKey "group" "bob", "m1"), (groupReadReceiptQueueKey "group" "carol", "m2")],
        [(groupReadReceiptQueueKey "group" "carol", "m2")]) := by decide
  obtain ⟨s, hs, heq⟩ := Option.map_eq_some_iff.mp hends
  obtain ⟨hdue, hblob⟩ := Prod.mk.inj heq
  refine ⟨s, hs, ?_, ?_⟩
  · rw [hdue]
    decide
  · rw [hblob]
    decide

end Tim2Tox.GroupReceiptQueue
