import Mathlib.Algebra.Ring.Nat
import Mathlib.Data.List.Perm.Basic
import Mathlib.Logic.Function.Basic
import Tim2Tox.LabelledRuns

set_option autoImplicit false

/-!
# Read receipts that wait for a peer

The queue of `FfiChatService` for a peer that is offline: a set in memory and a list in the
preferences. Both functions are tasks that can be overtaken at every await.
-/
namespace Tim2Tox.ReadReceiptQueue

abbrev PeerId : Type := String
abbrev MsgId : Type := String

/-- `addAll` of a set that keeps the order of insertion. -/
def addAll (set ids : List MsgId) : List MsgId :=
  ids.foldl (fun set id => if id ∈ set then set else set ++ [id]) set

/-- The loop that removes the first one while there are more than 200. -/
def cap : List MsgId → List MsgId
  | [] => []
  | id :: rest => if 200 < (id :: rest).length then cap rest else id :: rest

/-- What the loop removes. -/
def overflow : List MsgId → List MsgId
  | [] => []
  | id :: rest => if 200 < (id :: rest).length then id :: overflow rest else []

theorem mem_addAll {id : MsgId} (ids : List MsgId) : ∀ set : List MsgId,
    id ∈ addAll set ids ↔ id ∈ set ∨ id ∈ ids := by
  induction ids with
  | nil => simp [addAll]
  | cons first ids ih =>
    intro set
    have hstep : addAll set (first :: ids) = addAll (if first ∈ set then set else set ++ [first]) ids := rfl
    rw [hstep, ih]
    split_ifs with hmem
    · rw [List.mem_cons]
      constructor
      · intro h
        rcases h with h | h
        · exact .inl h
        · exact .inr (.inr h)
      · intro h
        rcases h with h | h | h
        · exact .inl h
        · exact .inl (h ▸ hmem)
        · exact .inr h
    · rw [List.mem_append, List.mem_singleton, List.mem_cons, or_assoc]

theorem nodup_addAll (ids : List MsgId) : ∀ set : List MsgId, set.Nodup → (addAll set ids).Nodup := by
  induction ids with
  | nil => exact fun _ h => h
  | cons first ids ih =>
    intro set h
    have hstep : addAll set (first :: ids) = addAll (if first ∈ set then set else set ++ [first]) ids := rfl
    rw [hstep]
    refine ih _ ?_
    split_ifs with hmem
    · exact h
    · refine List.nodup_append.mpr ⟨h, by simp, ?_⟩
      intro a ha b hb heq
      rw [List.mem_singleton] at hb
      exact hmem (hb ▸ heq ▸ ha)

/-- The set is what is removed and what stays. -/
theorem overflow_append_cap (set : List MsgId) : overflow set ++ cap set = set := by
  induction set with
  | nil => rfl
  | cons id rest ih =>
    unfold overflow cap
    split_ifs
    · rw [List.cons_append, ih]
    · rfl

/-- What stays is the newest 200. -/
theorem cap_eq_drop (set : List MsgId) : cap set = set.drop (set.length - 200) := by
  induction set with
  | nil => rfl
  | cons id rest ih =>
    unfold cap
    rw [List.length_cons]
    split_ifs with h
    · have hlength : rest.length + 1 - 200 = rest.length - 200 + 1 := by omega
      rw [ih, hlength, List.drop_succ_cons]
    · have hlength : rest.length + 1 - 200 = 0 := by omega
      rw [hlength, List.drop_zero]

theorem nodup_cap {set : List MsgId} (h : set.Nodup) : (cap set).Nodup := by
  rw [cap_eq_drop]
  exact h.sublist (List.drop_sublist _ _)

theorem mem_of_mem_cap {set : List MsgId} {id : MsgId} (h : id ∈ cap set) : id ∈ set := by
  rw [cap_eq_drop] at h
  exact List.mem_of_mem_drop h

theorem mem_cap {set : List MsgId} {id : MsgId} (h : id ∈ set) (hkept : id ∉ overflow set) :
    id ∈ cap set := by
  rw [← overflow_append_cap set, List.mem_append] at h
  rcases h with h | h
  · exact absurd h hkept
  · exact h

/-! ## One peer -/

/-- A call at an await: a preference write, the read or the write of a flush, or its loop of sends.
    A loop also says which of the ids that waited it has taken over. -/
inductive Task where
  | saving (value : List MsgId)
  | reading (mem : List MsgId)
  | clearing (mem pending : List MsgId)
  | sending (pending due : List MsgId)

namespace Task

/-- The preferences are in use. -/
def accesses : Task → Bool
  | sending _ _ => false
  | _ => true

/-- What a flush took out of the set and may put back. -/
def taken : Task → List MsgId
  | reading mem => mem
  | clearing mem _ => mem
  | _ => []

/-- The list of a flush. -/
def pending : Task → List MsgId
  | saving _ => []
  | reading mem => mem
  | clearing _ pending => pending
  | sending pending _ => pending

def toSend : Task → List MsgId
  | sending pending _ => pending
  | _ => []

def due : Task → List MsgId
  | sending _ due => due
  | _ => []

end Task

/-- The two halves of a peer's queue and the calls under way. Then what happened: the ids that
    wait, of this life and of earlier ones, those whose write has completed, what the life began
    with, and what it queued and handed to the send. -/
structure Queue where
  mem : List MsgId := []
  stored : List MsgId := []
  tasks : List Task := []
  fresh : List MsgId := []
  inherited : List MsgId := []
  saved : List MsgId := []
  startedWith : List MsgId := []
  queued : List MsgId := []
  handed : List MsgId := []
  past : List MsgId := []

namespace Queue

/-- The call, as far as its first await. -/
def queuePendingReadReceipts (q : Queue) (durable : Bool) (msgIDs : List MsgId) : Queue :=
  let mem := addAll q.mem msgIDs
  { q with
    mem := cap mem
    tasks := if durable then .saving (cap mem) :: q.tasks else q.tasks
    fresh := (q.fresh ++ msgIDs).filter (· ∉ overflow mem)
    saved := q.saved.filter fun id => id ∉ overflow mem ∨ id ∈ q.inherited
    queued := q.queued ++ msgIDs }

/-- Without preferences the sends begin at once. -/
def flushPendingReadReceipts (q : Queue) (durable : Bool) : Queue :=
  if durable then { q with mem := [], tasks := .reading q.mem :: q.tasks }
  else { q with mem := [], fresh := [], tasks := .sending q.mem q.fresh :: q.tasks }

/-- The `catch` of a flush. -/
def putBack (q : Queue) (mem : List MsgId) : Queue :=
  if mem = [] then q else { q with mem := addAll q.mem mem }

/-- The flush has both halves and starts to send. -/
def startSending (q : Queue) (pending : List MsgId) : Queue :=
  { q with
    fresh := []
    inherited := []
    saved := []
    tasks := .sending pending (q.fresh ++ q.inherited) :: q.tasks }

/-- The call goes on after its await, which completed normally or by a throw; `q` is without the
    call. `_sendReceipt` does not throw. -/
def resumed (q : Queue) (ok : Bool) : Task → Queue
  | .saving value => if ok then { q with stored := value, saved := q.saved ++ value } else q
  | .reading mem =>
    if !ok then q.putBack mem
    else if q.stored = [] then q.startSending mem
    else { q with tasks := .clearing mem (addAll mem q.stored) :: q.tasks }
  | .clearing mem pending =>
    if !ok then q.putBack mem else { q with stored := [] }.startSending pending
  | .sending [] _ => q
  | .sending (id :: rest) due =>
    { q with
      handed := q.handed ++ [id]
      tasks := .sending rest (due.filter (· ≠ id)) :: q.tasks }

def resume (q : Queue) (task : ℕ) (ok : Bool) : Option Queue :=
  q.tasks[task]?.map fun t => { q with tasks := q.tasks.eraseIdx task }.resumed ok t

/-- The process ends. What waited and was saved waits on; the rest is lost with the memory. -/
def restart (q : Queue) : Queue :=
  { stored := q.stored
    inherited := (q.inherited ++ q.fresh).filter (· ∈ q.saved)
    saved := (q.inherited ++ q.fresh).filter (· ∈ q.saved)
    startedWith := q.stored
    past := q.past ++ q.handed }

end Queue

/-! ## All peers -/

/-- Whether this life has preferences and an account, and the queue of every peer. -/
structure State where
  durable : Bool
  queue : PeerId → Queue

inductive Event where
  | queue (peer : PeerId) (msgIDs : List MsgId)
  | flush (peer : PeerId)
  | resume (peer : PeerId) (task : ℕ) (ok : Bool)
  | restart (durable : Bool)

namespace State

/-- The first life, with what the preferences hold. -/
def start (durable : Bool) (stored : PeerId → List MsgId) : State :=
  { durable
    queue := fun peer =>
      { stored := stored peer
        inherited := stored peer
        saved := stored peer
        startedWith := stored peer } }

def atPeer (s : State) (peer : PeerId) (q : Queue) : State :=
  { s with queue := Function.update s.queue peer q }

def step (s : State) : Event → Option State
  | .queue peer msgIDs => some (s.atPeer peer ((s.queue peer).queuePendingReadReceipts s.durable msgIDs))
  | .flush peer => some (s.atPeer peer ((s.queue peer).flushPendingReadReceipts s.durable))
  | .resume peer task ok => ((s.queue peer).resume task ok).map (s.atPeer peer)
  | .restart durable => some { durable, queue := fun peer => (s.queue peer).restart }

end State

/-! ## Calls one after the other -/

/-- A call for a peer comes when no other one of the peer uses the preferences, and an id is queued
    when what earlier lives left has been taken over. -/
def Orderly (s : State) : Event → Prop
  | .queue peer _ => s.durable = true →
    (s.queue peer).inherited = [] ∧ (s.queue peer).tasks.all (!·.accesses)
  | .flush peer => (s.queue peer).tasks.all (!·.accesses)
  | _ => True

instance (s : State) : ∀ e, Decidable (Orderly s e)
  | .queue peer _ => inferInstanceAs (Decidable (s.durable = true →
      (s.queue peer).inherited = [] ∧ (s.queue peer).tasks.all (!·.accesses)))
  | .flush peer => inferInstanceAs (Decidable ((s.queue peer).tasks.all (!·.accesses) = true))
  | .resume _ _ _ => .isTrue trivial
  | .restart _ => .isTrue trivial

namespace Queue

/-- The flush that has taken the id out of the set may put it back. -/
def Taken (q : Queue) (id : MsgId) : Prop := ∃ t ∈ q.tasks, id ∈ t.taken

/-- A call under way. -/
def TaskOk (q : Queue) : Task → Prop
  | .saving value => value = q.mem ∧ q.inherited = []
  | .reading mem => mem.Nodup ∧ q.mem = []
  | .clearing mem pending =>
    mem.Nodup ∧ q.mem = [] ∧ pending.Nodup ∧ ∀ id, id ∈ pending ↔ id ∈ mem ∨ id ∈ q.stored
  | .sending pending due => pending.Nodup ∧ ∀ id ∈ due, id ∈ pending

/-- How often an id is in the loops of sends. -/
def toSend (q : Queue) (id : MsgId) : ℕ := (q.tasks.map fun t => t.toSend.count id).sum

/-- Where a flush finds the id. -/
def Present (q : Queue) (durable : Bool) (id : MsgId) : Prop :=
  id ∈ q.mem ∨ durable = true ∧ id ∈ q.stored ∨ q.Taken id

/-- How often the send may have the id in this life. -/
def credit (q : Queue) (id : MsgId) : ℕ :=
  q.queued.count id + if id ∈ q.startedWith then 1 else 0

structure Ok (q : Queue) (durable : Bool) : Prop where
  one : q.tasks.countP Task.accesses ≤ 1
  inUse : 0 < q.tasks.countP Task.accesses → durable = true
  mem : q.mem.Nodup
  tasks : ∀ t ∈ q.tasks, q.TaskOk t
  saved : ∀ id ∈ q.saved, id ∈ q.stored
  inherited : ∀ id ∈ q.inherited, id ∈ q.saved
  fresh : ∀ id ∈ q.fresh, id ∈ q.mem ∨ q.Taken id
  known : ∀ id ∈ q.saved, id ∈ q.mem ∨ id ∈ q.inherited ∨ q.Taken id
  unread : durable = false → ∀ id ∈ q.saved, id ∈ q.inherited
  sends : ∀ id, q.handed.count id + q.toSend id ≤ q.credit id
  spare : ∀ id, q.Present durable id → q.handed.count id + q.toSend id < q.credit id

variable {q : Queue} {durable : Bool}

theorem not_taken {id : MsgId} (hidle : q.tasks.countP Task.accesses = 0) : ¬ q.Taken id := by
  intro h
  obtain ⟨t, ht, hid⟩ := h
  rw [List.countP_eq_zero] at hidle
  have hnot := hidle t ht
  cases t with
  | saving value => exact hnot rfl
  | reading mem => exact hnot rfl
  | clearing mem pending => exact hnot rfl
  | sending pending due => cases hid

/-- The loops of sends do not depend on the queue. -/
theorem taskOk_idle {q q' : Queue} {tasks : List Task} (hidle : tasks.countP Task.accesses = 0)
    (h : ∀ t ∈ tasks, q.TaskOk t) : ∀ t ∈ tasks, q'.TaskOk t := by
  intro t ht
  rw [List.countP_eq_zero] at hidle
  have hnot := hidle t ht
  cases t with
  | saving value => exact absurd rfl hnot
  | reading mem => exact absurd rfl hnot
  | clearing mem pending => exact absurd rfl hnot
  | sending pending due => exact h _ ht

theorem taken_cons {q : Queue} {t : Task} {id : MsgId} :
    Taken { q with tasks := t :: q.tasks } id ↔ id ∈ t.taken ∨ q.Taken id := by
  unfold Taken
  constructor
  · intro h
    obtain ⟨t', ht', hid⟩ := h
    rcases List.mem_cons.mp ht' with heq | ht'
    · exact .inl (heq ▸ hid)
    · exact .inr ⟨t', ht', hid⟩
  · intro h
    rcases h with hid | ⟨t', ht', hid⟩
    · exact ⟨t, List.mem_cons_self, hid⟩
    · exact ⟨t', List.mem_cons_of_mem _ ht', hid⟩

theorem toSend_cons (q : Queue) (t : Task) (id : MsgId) :
    toSend { q with tasks := t :: q.tasks } id = t.toSend.count id + q.toSend id := by
  unfold toSend
  rw [List.map_cons, List.sum_cons]

/-- A list without repetitions counts what it holds. -/
theorem count_le_of_spare {list : List MsgId} (hnodup : list.Nodup) {id : MsgId} {n credit : ℕ}
    (hle : n ≤ credit) (hspare : id ∈ list → n < credit) : list.count id + n ≤ credit := by
  by_cases hmem : id ∈ list
  · have hone := List.nodup_iff_count.mp hnodup id
    have hless := hspare hmem
    omega
  · rw [List.count_eq_zero_of_not_mem hmem]
    omega

namespace Ok

theorem idle_of_accesses {t : Task} (h : Ok { q with tasks := t :: q.tasks } durable)
    (ht : t.accesses = true) : q.tasks.countP Task.accesses = 0 := by
  have hone := h.one
  rw [List.countP_cons_of_pos ht] at hone
  omega

theorem durable_of_accesses {t : Task} (h : Ok { q with tasks := t :: q.tasks } durable)
    (ht : t.accesses = true) : durable = true := by
  refine h.inUse ?_
  rw [List.countP_cons_of_pos ht]
  omega

/-- Nothing is taken but by the call in question. -/
theorem taken_of_accesses {t : Task} (h : Ok { q with tasks := t :: q.tasks } durable)
    (ht : t.accesses = true) {id : MsgId} (hid : Taken { q with tasks := t :: q.tasks } id) :
    id ∈ t.taken := by
  rcases taken_cons.mp hid with hid | hid
  · exact hid
  · exact absurd hid (not_taken (h.idle_of_accesses ht))

theorem queuePendingReadReceipts (h : Ok q durable) (msgIDs : List MsgId)
    (hidle : q.tasks.countP Task.accesses = 0) (hinherited : durable = true → q.inherited = []) :
    Ok (q.queuePendingReadReceipts durable msgIDs) durable := by
  have htoSend : (q.queuePendingReadReceipts durable msgIDs).toSend = q.toSend := by
    funext id
    unfold Queue.queuePendingReadReceipts
    cases durable with
    | true =>
      have hcons := toSend_cons q (.saving (cap (addAll q.mem msgIDs))) id
      exact hcons.trans (Nat.zero_add _)
    | false => rfl
  have htaken : ∀ id, ¬ (q.queuePendingReadReceipts durable msgIDs).Taken id := by
    intro id hid
    unfold Queue.queuePendingReadReceipts at hid
    cases durable with
    | true =>
      obtain ⟨t, ht, hid⟩ := hid
      rcases List.mem_cons.mp ht with heq | ht
      · rw [heq] at hid
        cases hid
      · exact not_taken hidle ⟨t, ht, hid⟩
    | false => exact not_taken hidle hid
  have hcredit : ∀ id, q.credit id ≤ (q.queuePendingReadReceipts durable msgIDs).credit id := by
    intro id
    unfold credit
    exact Nat.add_le_add_right ((List.sublist_append_left _ _).count_le id) _
  refine ⟨?_, ?_, ?_, ?_, ?_, ?_, ?_, ?_, ?_, ?_, ?_⟩
  · change (if durable then _ else _ : List Task).countP Task.accesses ≤ 1
    split_ifs
    · rw [List.countP_cons_of_pos rfl, hidle]
    · rw [hidle]
      exact Nat.zero_le 1
  · intro huse
    change 0 < (if durable then _ else _ : List Task).countP Task.accesses at huse
    split_ifs at huse with hdurable
    · exact hdurable
    · rw [hidle] at huse
      exact absurd huse (Nat.lt_irrefl 0)
  · exact nodup_cap (nodup_addAll msgIDs q.mem h.mem)
  · intro t ht
    change t ∈ (if durable then _ else _ : List Task) at ht
    split_ifs at ht with hdurable
    · rcases List.mem_cons.mp ht with heq | ht
      · rw [heq]
        exact ⟨rfl, hinherited hdurable⟩
      · exact taskOk_idle hidle h.tasks t ht
    · exact taskOk_idle hidle h.tasks t ht
  · intro id hid
    exact h.saved id (List.mem_filter.mp hid).1
  · intro id hid
    exact List.mem_filter.mpr ⟨h.inherited id hid, decide_eq_true (.inr hid)⟩
  · intro id hid
    obtain ⟨hid, hkept⟩ := List.mem_filter.mp hid
    rw [decide_eq_true_eq] at hkept
    left
    refine mem_cap ((mem_addAll msgIDs q.mem).mpr ?_) hkept
    rcases List.mem_append.mp hid with hfresh | hnew
    · rcases h.fresh id hfresh with hmem | htaken
      · exact .inl hmem
      · exact absurd htaken (not_taken hidle)
    · exact .inr hnew
  · intro id hid
    obtain ⟨hid, hkept⟩ := List.mem_filter.mp hid
    rw [decide_eq_true_eq] at hkept
    rcases h.known id hid with hmem | hinh | htaken
    · rcases hkept with hkept | hinh
      · exact .inl (mem_cap ((mem_addAll msgIDs q.mem).mpr (.inl hmem)) hkept)
      · exact .inr (.inl hinh)
    · exact .inr (.inl hinh)
    · exact absurd htaken (not_taken hidle)
  · intro hdurable id hid
    exact h.unread hdurable id (List.mem_filter.mp hid).1
  · intro id
    rw [htoSend]
    exact Nat.le_trans (h.sends id) (hcredit id)
  · intro id hpresent
    rw [htoSend]
    rcases hpresent with hmem | hstored | htaken'
    · rcases (mem_addAll msgIDs q.mem).mp (mem_of_mem_cap hmem) with hmem | hnew
      · exact Nat.lt_of_lt_of_le (h.spare id (.inl hmem)) (hcredit id)
      · have hle := h.sends id
        have hpos := List.count_pos_iff.mpr hnew
        have hgrows : (q.queuePendingReadReceipts durable msgIDs).credit id =
            q.credit id + msgIDs.count id := by
          unfold credit
          have hcount : (q.queuePendingReadReceipts durable msgIDs).queued.count id =
              q.queued.count id + msgIDs.count id := List.count_append
          have hsame : (q.queuePendingReadReceipts durable msgIDs).startedWith = q.startedWith := rfl
          rw [hcount, hsame]
          omega
        rw [hgrows]
        change q.handed.count id + q.toSend id < _
        omega
    · exact Nat.lt_of_lt_of_le (h.spare id (.inr (.inl hstored))) (hcredit id)
    · exact absurd htaken' (htaken id)

theorem flushPendingReadReceipts (h : Ok q durable) (hidle : q.tasks.countP Task.accesses = 0) :
    Ok (q.flushPendingReadReceipts durable) durable := by
  unfold Queue.flushPendingReadReceipts
  split_ifs with hdurable
  · have htaken : ∀ id, Taken { q with mem := [], tasks := .reading q.mem :: q.tasks } id ↔ id ∈ q.mem := by
      intro id
      have hcons := @taken_cons { q with mem := [] } (.reading q.mem) id
      rw [hcons]
      constructor
      · intro hid
        rcases hid with hid | hid
        · exact hid
        · exact absurd hid (not_taken hidle)
      · exact fun hid => .inl hid
    have htoSend : ∀ id, toSend { q with mem := [], tasks := .reading q.mem :: q.tasks } id =
        q.toSend id := by
      intro id
      exact (toSend_cons { q with mem := [] } (.reading q.mem) id).trans (Nat.zero_add _)
    refine ⟨?_, fun _ => hdurable, List.nodup_nil, ?_, h.saved, h.inherited, ?_, ?_, h.unread, ?_, ?_⟩
    · rw [List.countP_cons_of_pos rfl, hidle]
    · intro t ht
      rcases List.mem_cons.mp ht with heq | ht
      · rw [heq]
        exact ⟨h.mem, rfl⟩
      · exact taskOk_idle hidle h.tasks t ht
    · intro id hid
      rw [htaken]
      rcases h.fresh id hid with hmem | hid
      · exact .inr hmem
      · exact absurd hid (not_taken hidle)
    · intro id hid
      rw [htaken]
      rcases h.known id hid with hmem | hinh | hid
      · exact .inr (.inr hmem)
      · exact .inr (.inl hinh)
      · exact absurd hid (not_taken hidle)
    · intro id
      rw [htoSend]
      exact h.sends id
    · intro id hpresent
      rw [htoSend]
      refine h.spare id ?_
      unfold Present at hpresent
      rw [htaken] at hpresent
      rcases hpresent with hmem | hstored | hmem
      · cases hmem
      · exact .inr (.inl hstored)
      · exact .inl hmem
  · have hoff : durable = false := eq_false_of_ne_true hdurable
    have htaken : ∀ id,
        ¬ Taken { q with mem := [], fresh := [], tasks := .sending q.mem q.fresh :: q.tasks } id := by
      intro id hid
      have hcons := @taken_cons { q with mem := [], fresh := [] } (.sending q.mem q.fresh) id
      rcases hcons.mp hid with hid | hid
      · cases hid
      · exact not_taken hidle hid
    have htoSend : ∀ id,
        toSend { q with mem := [], fresh := [], tasks := .sending q.mem q.fresh :: q.tasks } id =
          q.mem.count id + q.toSend id :=
      toSend_cons { q with mem := [], fresh := [] } (.sending q.mem q.fresh)
    refine ⟨?_, ?_, List.nodup_nil, ?_, h.saved, h.inherited, ?_, ?_, h.unread, ?_, ?_⟩
    · rw [List.countP_cons_of_neg Bool.false_ne_true, hidle]
      exact Nat.zero_le 1
    · intro huse
      rw [List.countP_cons_of_neg Bool.false_ne_true, hidle] at huse
      exact absurd huse (Nat.lt_irrefl 0)
    · intro t ht
      rcases List.mem_cons.mp ht with heq | ht
      · rw [heq]
        refine ⟨h.mem, ?_⟩
        intro id hid
        rcases h.fresh id hid with hmem | hid
        · exact hmem
        · exact absurd hid (not_taken hidle)
      · exact taskOk_idle hidle h.tasks t ht
    · intro id hid
      cases hid
    · intro id hid
      exact .inr (.inl (h.unread hoff id hid))
    · intro id
      have hle := count_le_of_spare h.mem (h.sends id) fun hmem => h.spare id (.inl hmem)
      rw [htoSend]
      change q.handed.count id + (q.mem.count id + q.toSend id) ≤ q.credit id
      omega
    · intro id hpresent
      rcases hpresent with hmem | hstored | hid
      · cases hmem
      · rw [hoff] at hstored
        exact absurd hstored.1 (by decide)
      · exact absurd hid (htaken id)

/-- A call is over. -/
theorem drop {t : Task} (h : Ok { q with tasks := t :: q.tasks } durable) (ht : t.taken = []) :
    Ok q durable := by
  have htaken : ∀ id, Taken { q with tasks := t :: q.tasks } id → q.Taken id := by
    intro id hid
    rcases taken_cons.mp hid with hid | hid
    · rw [ht] at hid
      cases hid
    · exact hid
  have hcount : q.tasks.countP Task.accesses ≤ (t :: q.tasks).countP Task.accesses :=
    (List.sublist_cons_self t q.tasks).countP_le
  have htoSend : ∀ id, q.toSend id ≤ toSend { q with tasks := t :: q.tasks } id := by
    intro id
    rw [toSend_cons]
    exact Nat.le_add_left _ _
  refine ⟨Nat.le_trans hcount h.one, fun huse => h.inUse (Nat.lt_of_lt_of_le huse hcount), h.mem, ?_,
    h.saved, h.inherited, ?_, ?_, h.unread, ?_, ?_⟩
  · intro t' ht'
    have hok := h.tasks t' (List.mem_cons_of_mem _ ht')
    cases t' with
    | saving value => exact hok
    | reading mem => exact hok
    | clearing mem pending => exact hok
    | sending pending due => exact hok
  · intro id hid
    exact (h.fresh id hid).imp_right (htaken id)
  · intro id hid
    exact (h.known id hid).imp_right fun hrest => hrest.imp_right (htaken id)
  · intro id
    have hle := h.sends id
    have hmore := htoSend id
    change q.handed.count id + _ ≤ q.credit id at hle
    omega
  · intro id hpresent
    have hless : q.handed.count id + toSend { q with tasks := t :: q.tasks } id < q.credit id := by
      refine h.spare id ?_
      rcases hpresent with hmem | hstored | hid
      · exact .inl hmem
      · exact .inr (.inl hstored)
      · exact .inr (.inr (taken_cons.mpr (.inr hid)))
    have hmore := htoSend id
    omega

/-- A write has completed. -/
theorem saved_completed {value : List MsgId} (h : Ok { q with tasks := .saving value :: q.tasks } durable) :
    Ok { q with stored := value, saved := q.saved ++ value } durable := by
  have hidle := h.idle_of_accesses rfl
  obtain ⟨hvalue, hinherited⟩ := h.tasks _ List.mem_cons_self
  have hrest := h.drop rfl
  have hsaved : ∀ id ∈ q.saved, id ∈ q.mem := by
    intro id hid
    rcases hrest.known id hid with hmem | hinh | hid
    · exact hmem
    · change q.inherited = [] at hinherited
      rw [hinherited] at hinh
      cases hinh
    · exact absurd hid (not_taken hidle)
  change value = q.mem at hvalue
  rw [hvalue]
  refine ⟨hrest.one, hrest.inUse, h.mem, taskOk_idle hidle hrest.tasks, ?_, ?_, hrest.fresh, ?_, ?_,
    hrest.sends, ?_⟩
  · intro id hid
    rcases List.mem_append.mp hid with hid | hid
    · exact hsaved id hid
    · exact hid
  · intro id hid
    exact List.mem_append_left _ (h.inherited id hid)
  · intro id hid
    rcases List.mem_append.mp hid with hid | hid
    · exact .inl (hsaved id hid)
    · exact .inl hid
  · intro hoff
    rw [h.durable_of_accesses rfl] at hoff
    cases hoff
  · intro id hpresent
    refine hrest.spare id ?_
    rcases hpresent with hmem | hstored | hid
    · exact .inl hmem
    · exact .inl hstored.2
    · exact .inr (.inr hid)

/-- A flush is given up. -/
theorem putBack {t : Task} (h : Ok { q with tasks := t :: q.tasks } durable) (ht : t.accesses = true)
    (hempty : q.mem = []) : Ok (q.putBack t.taken) durable := by
  have hidle := h.idle_of_accesses ht
  have hmem : (q.putBack t.taken).mem = addAll [] t.taken := by
    unfold Queue.putBack
    split_ifs with hnone
    · rw [hempty, hnone]
      rfl
    · change addAll q.mem t.taken = _
      rw [hempty]
  have hsame : q.putBack t.taken = { q with mem := addAll [] t.taken } := by
    rw [← hmem]
    unfold Queue.putBack
    split_ifs
    · rfl
    · rfl
  have hback : ∀ id, id ∈ addAll [] t.taken ↔ id ∈ t.taken := by
    intro id
    rw [mem_addAll]
    constructor
    · intro hid
      rcases hid with hid | hid
      · cases hid
      · exact hid
    · exact fun hid => .inr hid
  have htoSend : ∀ id, q.toSend id ≤ toSend { q with tasks := t :: q.tasks } id := by
    intro id
    rw [toSend_cons]
    exact Nat.le_add_left _ _
  rw [hsame]
  refine ⟨?_, ?_, nodup_addAll _ _ List.nodup_nil, ?_, h.saved, h.inherited, ?_, ?_, h.unread, ?_, ?_⟩
  · rw [hidle]
    exact Nat.zero_le 1
  · intro huse
    rw [hidle] at huse
    exact absurd huse (Nat.lt_irrefl 0)
  · exact taskOk_idle hidle fun t' ht' => h.tasks t' (List.mem_cons_of_mem _ ht')
  · intro id hid
    rcases h.fresh id hid with hmem' | hid
    · rw [hempty] at hmem'
      cases hmem'
    · exact .inl ((hback id).mpr (h.taken_of_accesses ht hid))
  · intro id hid
    rcases h.known id hid with hmem' | hinh | hid
    · rw [hempty] at hmem'
      cases hmem'
    · exact .inr (.inl hinh)
    · exact .inl ((hback id).mpr (h.taken_of_accesses ht hid))
  · intro id
    have hle := h.sends id
    have hmore := htoSend id
    change q.handed.count id + _ ≤ q.credit id at hle
    change q.handed.count id + q.toSend id ≤ q.credit id
    omega
  · intro id hpresent
    have hless : q.handed.count id + toSend { q with tasks := t :: q.tasks } id < q.credit id := by
      refine h.spare id ?_
      rcases hpresent with hmem' | hstored | hid
      · exact .inr (.inr (taken_cons.mpr (.inl ((hback id).mp hmem'))))
      · exact .inr (.inl hstored)
      · exact absurd hid (not_taken hidle)
    have hmore := htoSend id
    change q.handed.count id + q.toSend id < q.credit id
    omega

/-- The loop of sends begins with both halves cleared. -/
theorem startSending {t : Task} {pending : List MsgId}
    (h : Ok { q with tasks := t :: q.tasks } durable) (ht : t.accesses = true)
    (hempty : q.mem = []) (hnodup : pending.Nodup)
    (hpending : ∀ id, id ∈ pending ↔ id ∈ t.taken ∨ id ∈ q.stored) :
    Ok ({ q with stored := [] }.startSending pending) durable := by
  have hidle := h.idle_of_accesses ht
  have hdurable := h.durable_of_accesses ht
  have htaken : ∀ id, ¬ ({ q with stored := [] }.startSending pending).Taken id := by
    intro id hid
    have hcons := (@taken_cons { q with stored := [], fresh := [], inherited := [], saved := [] }
      (.sending pending (q.fresh ++ q.inherited)) id).mp hid
    rcases hcons with hid | hid
    · cases hid
    · exact not_taken hidle hid
  have hspare : ∀ id ∈ pending, q.handed.count id + q.toSend id < q.credit id := by
    intro id hid
    have hless : q.handed.count id + toSend { q with tasks := t :: q.tasks } id < q.credit id := by
      refine h.spare id ?_
      rcases (hpending id).mp hid with hid | hid
      · exact .inr (.inr (taken_cons.mpr (.inl hid)))
      · exact .inr (.inl ⟨hdurable, hid⟩)
    rw [toSend_cons] at hless
    omega
  have htoSend : ∀ id, ({ q with stored := [] }.startSending pending).toSend id =
      pending.count id + q.toSend id :=
    toSend_cons { q with stored := [], fresh := [], inherited := [], saved := [] }
      (.sending pending (q.fresh ++ q.inherited))
  refine ⟨?_, fun _ => hdurable, ?_, ?_, ?_, ?_, ?_, ?_, ?_, ?_, ?_⟩
  · change (Task.sending pending (q.fresh ++ q.inherited) :: q.tasks).countP Task.accesses ≤ 1
    rw [List.countP_cons_of_neg Bool.false_ne_true, hidle]
    exact Nat.zero_le 1
  · exact h.mem
  · intro t' ht'
    rcases List.mem_cons.mp ht' with heq | ht'
    · rw [heq]
      refine ⟨hnodup, ?_⟩
      intro id hid
      rw [hpending]
      rcases List.mem_append.mp hid with hid | hid
      · rcases h.fresh id hid with hmem | hid
        · rw [hempty] at hmem
          cases hmem
        · exact .inl (h.taken_of_accesses ht hid)
      · exact .inr (h.saved id (h.inherited id hid))
    · exact taskOk_idle hidle (fun t'' ht'' => h.tasks t'' (List.mem_cons_of_mem _ ht'')) t' ht'
  · intro id hid
    cases hid
  · intro id hid
    cases hid
  · intro id hid
    cases hid
  · intro id hid
    cases hid
  · intro _ id hid
    cases hid
  · intro id
    have hle := h.sends id
    rw [toSend_cons] at hle
    change q.handed.count id + _ ≤ q.credit id at hle
    have hcount := @count_le_of_spare _ hnodup _ (q.handed.count id + q.toSend id) (q.credit id)
      (by omega) (hspare id)
    rw [htoSend]
    change q.handed.count id + (pending.count id + q.toSend id) ≤ q.credit id
    omega
  · intro id hpresent
    rcases hpresent with hmem | hstored | hid
    · change id ∈ q.mem at hmem
      rw [hempty] at hmem
      cases hmem
    · cases hstored.2
    · exact absurd hid (htaken id)

/-- The flush has read the preference, and clears it. -/
theorem readMore {mem : List MsgId} (h : Ok { q with tasks := .reading mem :: q.tasks } durable) :
    Ok { q with tasks := .clearing mem (addAll mem q.stored) :: q.tasks } durable := by
  have hidle := h.idle_of_accesses rfl
  obtain ⟨hnodup, hempty⟩ := h.tasks _ List.mem_cons_self
  have htaken : ∀ id, Taken { q with tasks := .clearing mem (addAll mem q.stored) :: q.tasks } id ↔
      Taken { q with tasks := .reading mem :: q.tasks } id := by
    intro id
    rw [taken_cons, taken_cons]
    exact Iff.rfl
  have htoSend : ∀ id, toSend { q with tasks := .clearing mem (addAll mem q.stored) :: q.tasks } id =
      toSend { q with tasks := .reading mem :: q.tasks } id := by
    intro id
    rw [toSend_cons, toSend_cons]
    rfl
  refine ⟨h.one, h.inUse, h.mem, ?_, h.saved, h.inherited, ?_, ?_, h.unread, ?_, ?_⟩
  · intro t ht
    rcases List.mem_cons.mp ht with heq | ht
    · rw [heq]
      exact ⟨hnodup, hempty, nodup_addAll _ _ hnodup, fun id => mem_addAll _ _⟩
    · exact taskOk_idle hidle (fun t' ht' => h.tasks t' (List.mem_cons_of_mem _ ht')) t ht
  · intro id hid
    rw [htaken]
    exact h.fresh id hid
  · intro id hid
    rw [htaken]
    exact h.known id hid
  · intro id
    rw [htoSend]
    exact h.sends id
  · intro id hpresent
    rw [htoSend]
    unfold Present at hpresent
    rw [htaken] at hpresent
    exact h.spare id hpresent

/-- One id is handed to the send. -/
theorem handOver {id : MsgId} {rest due : List MsgId}
    (h : Ok { q with tasks := .sending (id :: rest) due :: q.tasks } durable) :
    Ok { q with
      handed := q.handed ++ [id]
      tasks := .sending rest (due.filter (· ≠ id)) :: q.tasks } durable := by
  obtain ⟨hnodup, hdue⟩ := h.tasks _ List.mem_cons_self
  have htaken : ∀ id', Taken { q with
        handed := q.handed ++ [id]
        tasks := .sending rest (due.filter (· ≠ id)) :: q.tasks } id' ↔
      Taken { q with tasks := .sending (id :: rest) due :: q.tasks } id' := by
    intro id'
    rw [taken_cons]
    exact taken_cons (q := { q with handed := q.handed ++ [id] })
  have hcount : ∀ id', (q.handed ++ [id]).count id' +
      toSend { q with tasks := .sending rest (due.filter (· ≠ id)) :: q.tasks } id' =
        q.handed.count id' + toSend { q with tasks := .sending (id :: rest) due :: q.tasks } id' := by
    intro id'
    rw [toSend_cons, toSend_cons, List.count_append]
    have hhead : (id :: rest).count id' = [id].count id' + rest.count id' :=
      (List.count_append : ([id] ++ rest).count id' = _)
    change _ + (rest.count id' + _) = _ + ((id :: rest).count id' + _)
    rw [hhead]
    omega
  refine ⟨h.one, h.inUse, h.mem, ?_, h.saved, h.inherited, ?_, ?_, h.unread, ?_, ?_⟩
  · intro t ht
    rcases List.mem_cons.mp ht with heq | ht
    · rw [heq]
      refine ⟨(List.nodup_cons.mp hnodup).2, ?_⟩
      intro id' hid
      obtain ⟨hid, hne⟩ := List.mem_filter.mp hid
      rw [decide_eq_true_eq] at hne
      exact (List.mem_cons.mp (hdue id' hid)).resolve_left hne
    · exact h.tasks t (List.mem_cons_of_mem _ ht)
  · intro id' hid
    exact (h.fresh id' hid).imp_right (htaken id').mpr
  · intro id' hid
    exact (h.known id' hid).imp_right fun hrest => hrest.imp_right (htaken id').mpr
  · intro id'
    have hle := h.sends id'
    exact Nat.le_trans (Nat.le_of_eq (hcount id')) hle
  · intro id' hpresent
    have hless := h.spare id' (hpresent.imp_right fun hrest => hrest.imp_right (htaken id').mp)
    exact Nat.lt_of_le_of_lt (Nat.le_of_eq (hcount id')) hless

theorem resumed {t : Task} (h : Ok { q with tasks := t :: q.tasks } durable) (ok : Bool) :
    Ok (q.resumed ok t) durable := by
  cases t with
  | saving value =>
    unfold Queue.resumed
    dsimp only
    split_ifs
    · exact h.saved_completed
    · exact h.drop rfl
  | reading mem =>
    obtain ⟨hnodup, hempty⟩ := h.tasks _ List.mem_cons_self
    unfold Queue.resumed
    dsimp only
    split_ifs with hfailed hstored
    · exact h.putBack rfl hempty
    · have hpending : ∀ id, id ∈ mem ↔ id ∈ mem ∨ id ∈ q.stored := by
        intro id
        rw [hstored]
        simp
      have hstart := h.startSending rfl hempty hnodup hpending
      rw [← hstored] at hstart
      exact hstart
    · exact h.readMore
  | clearing mem pending =>
    obtain ⟨-, hempty, hnodup, hpending⟩ := h.tasks _ List.mem_cons_self
    unfold Queue.resumed
    dsimp only
    split_ifs
    · exact h.putBack rfl hempty
    · exact h.startSending rfl hempty hnodup hpending
  | sending pending due =>
    cases pending with
    | nil => exact h.drop rfl
    | cons id rest => exact h.handOver

/-- The order of the calls says nothing. -/
theorem perm {tasks : List Task} (h : Ok q durable) (hperm : q.tasks.Perm tasks) :
    Ok { q with tasks } durable := by
  have htaken : ∀ id, Taken { q with tasks } id ↔ q.Taken id := by
    intro id
    unfold Taken
    constructor
    · intro hid
      obtain ⟨t, ht, hid⟩ := hid
      exact ⟨t, hperm.mem_iff.mpr ht, hid⟩
    · intro hid
      obtain ⟨t, ht, hid⟩ := hid
      exact ⟨t, hperm.mem_iff.mp ht, hid⟩
  have htoSend : ∀ id, toSend { q with tasks } id = q.toSend id :=
    fun id => ((hperm.map _).sum_nat).symm
  have hcount : tasks.countP Task.accesses = q.tasks.countP Task.accesses := (hperm.countP_eq _).symm
  refine ⟨?_, ?_, h.mem, ?_, h.saved, h.inherited, ?_, ?_, h.unread, ?_, ?_⟩
  · rw [hcount]
    exact h.one
  · rw [hcount]
    exact h.inUse
  · intro t ht
    have hok := h.tasks t (hperm.mem_iff.mpr ht)
    cases t with
    | saving value => exact hok
    | reading mem => exact hok
    | clearing mem pending => exact hok
    | sending pending due => exact hok
  · intro id hid
    rw [htaken]
    exact h.fresh id hid
  · intro id hid
    rw [htaken]
    exact h.known id hid
  · intro id
    rw [htoSend]
    exact h.sends id
  · intro id hpresent
    rw [htoSend]
    unfold Present at hpresent
    rw [htaken] at hpresent
    exact h.spare id hpresent

theorem resume (h : Ok q durable) {task : ℕ} {ok : Bool} {q' : Queue}
    (hresume : q.resume task ok = some q') : Ok q' durable := by
  obtain ⟨t, ht, heq⟩ := Option.map_eq_some_iff.mp hresume
  obtain ⟨hlt, hget⟩ := List.getElem?_eq_some_iff.mp ht
  have hperm : q.tasks.Perm (t :: q.tasks.eraseIdx task) := by
    have hcons := List.getElem_cons_eraseIdx_perm hlt
    rw [hget] at hcons
    exact hcons.symm
  rw [← heq]
  exact resumed (q := { q with tasks := q.tasks.eraseIdx task }) (h.perm hperm) ok

theorem restart (h : Ok q durable) (durable' : Bool) : Ok q.restart durable' := by
  refine ⟨Nat.zero_le 1, fun huse => absurd huse (Nat.lt_irrefl 0), List.nodup_nil, ?_, ?_, ?_, ?_, ?_, ?_,
    ?_, ?_⟩
  · intro t ht
    cases ht
  · intro id hid
    obtain ⟨-, hsaved⟩ := List.mem_filter.mp hid
    rw [decide_eq_true_eq] at hsaved
    exact h.saved id hsaved
  · exact fun id hid => hid
  · intro id hid
    cases hid
  · exact fun id hid => .inr (.inl hid)
  · exact fun _ id hid => hid
  · exact fun id => Nat.zero_le _
  · intro id hpresent
    have hstored : id ∈ q.stored := by
      rcases hpresent with hmem | hstored | ⟨t, ht, -⟩
      · cases hmem
      · exact hstored.2
      · cases ht
    change 0 < 0 + if id ∈ q.stored then 1 else 0
    rw [if_pos hstored]
    decide

theorem start (stored : List MsgId) (durable : Bool) :
    Ok { stored, inherited := stored, saved := stored, startedWith := stored } durable := by
  refine ⟨Nat.zero_le 1, fun huse => absurd huse (Nat.lt_irrefl 0), List.nodup_nil, ?_, fun _ hid => hid,
    fun _ hid => hid, ?_, fun id hid => .inr (.inl hid), fun _ id hid => hid, fun id => Nat.zero_le _, ?_⟩
  · intro t ht
    cases ht
  · intro id hid
    cases hid
  · intro id hpresent
    have hstored : id ∈ stored := by
      rcases hpresent with hmem | hstored | ⟨t, ht, -⟩
      · cases hmem
      · exact hstored.2
      · cases ht
    change 0 < 0 + if id ∈ stored then 1 else 0
    rw [if_pos hstored]
    decide

end Ok

/-- The id was queued, and has not been handed to the send, removed by the cap or lost with the
    memory of a process since. -/
def Owed (q : Queue) (id : MsgId) : Prop :=
  id ∈ q.fresh ∨ id ∈ q.inherited ∨ ∃ t ∈ q.tasks, id ∈ t.due

/-- In the set or the list of a flush, or in the preference. -/
def Held (q : Queue) (id : MsgId) : Prop :=
  id ∈ q.mem ∨ id ∈ q.stored ∨ ∃ t ∈ q.tasks, id ∈ t.pending

theorem Ok.held {q : Queue} {durable : Bool} (h : Ok q durable) {id : MsgId} (howed : q.Owed id) :
    q.Held id := by
  rcases howed with hfresh | hinherited | ⟨t, ht, hdue⟩
  · rcases h.fresh id hfresh with hmem | ⟨t, ht, htaken⟩
    · exact .inl hmem
    · refine .inr (.inr ⟨t, ht, ?_⟩)
      have hok := h.tasks t ht
      cases t with
      | saving value => cases htaken
      | reading mem => exact htaken
      | clearing mem pending => exact (hok.2.2.2 id).mpr (.inl htaken)
      | sending pending due => cases htaken
  · exact .inr (.inl (h.saved id (h.inherited id hinherited)))
  · refine .inr (.inr ⟨t, ht, ?_⟩)
    have hok := h.tasks t ht
    cases t with
    | saving value => cases hdue
    | reading mem => cases hdue
    | clearing mem pending => cases hdue
    | sending pending due => exact hok.2 id hdue

end Queue

/-! ## Runs -/

structure Kept (s : State) : Prop where
  held : ∀ peer id, (s.queue peer).Owed id → (s.queue peer).Held id
  /-- Not more often than it was queued in this life, and once for the preference of an earlier one. -/
  once : ∀ peer id, (s.queue peer).handed.count id ≤
    (s.queue peer).queued.count id + if id ∈ (s.queue peer).startedWith then 1 else 0

theorem step_ok {s s' : State} {e : Event} (h : ∀ peer, (s.queue peer).Ok s.durable)
    (horderly : Orderly s e) (hstep : s.step e = some s') : ∀ peer, (s'.queue peer).Ok s'.durable := by
  have hidle : ∀ {q : Queue}, q.tasks.all (!·.accesses) = true → q.tasks.countP Task.accesses = 0 := by
    intro q hall
    rw [List.countP_eq_zero]
    rw [List.all_eq_true] at hall
    intro t ht huse
    have hnot := hall t ht
    rw [huse] at hnot
    cases hnot
  have hat : ∀ {peer : PeerId} {q : Queue}, q.Ok s.durable →
      ∀ other, ((s.atPeer peer q).queue other).Ok s.durable := by
    intro peer q hq other
    change (Function.update s.queue peer q other).Ok s.durable
    by_cases heq : other = peer
    · rw [heq, Function.update_self]
      exact hq
    · rw [Function.update_of_ne heq]
      exact h other
  cases e with
  | queue peer msgIDs =>
    rw [← Option.some.inj hstep]
    refine hat ((h peer).queuePendingReadReceipts msgIDs ?_ fun hdurable => (horderly hdurable).1)
    cases hdurable : s.durable with
    | true => exact hidle (horderly hdurable).2
    | false =>
      by_contra hbusy
      have huse := (h peer).inUse (Nat.pos_of_ne_zero hbusy)
      rw [hdurable] at huse
      cases huse
  | flush peer =>
    rw [← Option.some.inj hstep]
    exact hat ((h peer).flushPendingReadReceipts (hidle horderly))
  | resume peer task ok =>
    obtain ⟨q', hresume, heq⟩ := Option.map_eq_some_iff.mp hstep
    rw [← heq]
    exact hat ((h peer).resume hresume)
  | restart durable =>
    rw [← Option.some.inj hstep]
    exact fun peer => (h peer).restart durable

open LabelledRuns

theorem read_receipts_kept {durable : Bool} {stored : PeerId → List MsgId} {es : List Event} {s : State}
    (hm : Meets State.step Orderly (.start durable stored) es)
    (hr : exec State.step (.start durable stored) es = some s) : Kept s := by
  have hok : ∀ peer, (s.queue peer).Ok s.durable := by
    refine invariant_of_meets (I := fun s => ∀ peer, (s.queue peer).Ok s.durable)
      (fun s e s' h horderly hstep => step_ok h horderly hstep) ?_ hm hr
    exact fun peer => Queue.Ok.start (stored peer) durable
  refine ⟨fun peer id howed => (hok peer).held howed, ?_⟩
  intro peer id
  have hle := (hok peer).sends id
  unfold Queue.credit at hle
  omega

/-- Two ids are queued, one of them again; a process later the peer comes online. -/
def offlineThenOnline : List Event :=
  [.queue "peer" ["a", "b"], .resume "peer" 0 true, .queue "peer" ["a"], .resume "peer" 0 false,
    .restart true, .flush "peer", .resume "peer" 0 true, .resume "peer" 0 true, .resume "peer" 0 true]

theorem kept_over_restart :
    ∃ s, exec State.step (.start true fun _ => []) offlineThenOnline = some s ∧
      (s.queue "peer").handed = ["a"] ∧ (s.queue "peer").Held "b" ∧ Kept s := by
  have hrun : (exec State.step (.start true fun _ => []) offlineThenOnline).isSome = true := by
    decide
  have hmeets : Meets State.step Orderly (.start true fun _ => []) offlineThenOnline := by
    decide
  obtain ⟨s, hs⟩ := Option.isSome_iff_exists.mp hrun
  have hhanded : (exec State.step (.start true fun _ => []) offlineThenOnline).map
      (fun s => ((s.queue "peer").handed, (s.queue "peer").tasks.flatMap Task.due)) =
        some (["a"], ["b"]) := by decide
  rw [hs] at hhanded
  have hpair := Option.some.inj hhanded
  have hkept := read_receipts_kept hmeets hs
  refine ⟨s, hs, congrArg Prod.fst hpair, hkept.held "peer" "b" ?_, hkept⟩
  have hdues : (s.queue "peer").tasks.flatMap Task.due = ["b"] := congrArg Prod.snd hpair
  have hmem : "b" ∈ (s.queue "peer").tasks.flatMap Task.due := by
    rw [hdues]
    exact List.mem_singleton_self _
  obtain ⟨t, ht, hdue⟩ := List.mem_flatMap.mp hmem
  exact .inr (.inr ⟨t, ht, hdue⟩)

/-- A process ends between the write of a flush and its first send. -/
def endsInFlush : List Event :=
  [.queue "peer" ["a"], .resume "peer" 0 true, .flush "peer", .resume "peer" 0 true,
    .resume "peer" 0 true, .restart true]

theorem flush_lost_with_process :
    ∃ s, exec State.step (.start true fun _ => []) endsInFlush = some s ∧
      (s.queue "peer").past = [] ∧ (s.queue "peer").handed = [] ∧ ¬ (s.queue "peer").Held "a" := by
  have hrun : (exec State.step (.start true fun _ => []) endsInFlush).isSome = true := by decide
  obtain ⟨s, hs⟩ := Option.isSome_iff_exists.mp hrun
  have hends : (exec State.step (.start true fun _ => []) endsInFlush).map
      (fun s => ((s.queue "peer").past, (s.queue "peer").handed, (s.queue "peer").mem,
        (s.queue "peer").stored, (s.queue "peer").tasks.flatMap Task.pending)) =
          some ([], [], [], [], []) := by decide
  rw [hs] at hends
  have hall := Option.some.inj hends
  simp only [Prod.mk.injEq] at hall
  obtain ⟨hpast, hhanded, hmem, hstored, htasks⟩ := hall
  refine ⟨s, hs, hpast, hhanded, ?_⟩
  intro hheld
  rcases hheld with hid | hid | ⟨t, ht, hid⟩
  · rw [hmem] at hid
    cases hid
  · rw [hstored] at hid
    cases hid
  · have hin := List.mem_flatMap.mpr ⟨t, ht, hid⟩
    rw [htasks] at hin
    cases hin

end Tim2Tox.ReadReceiptQueue
