import Mathlib.Data.Finset.Insert
import Mathlib.Data.Finset.Erase
import Mathlib.Data.List.AList
import Tim2Tox.LabelledRuns

set_option autoImplicit false

/-!
# Whether a group can be reached

`GroupWireReadiness`: the groups that wait for the end of a sync, the confirmed peers of each group,
and the calls that toxcore's callbacks make on both.
-/
namespace Tim2Tox.GroupWireReadiness
open LabelledRuns

abbrev GroupNumber : Type := UInt32
abbrev PeerId : Type := UInt32

structure State where
  awaitingSync : Finset GroupNumber
  confirmedPeers : AList fun _ : GroupNumber => Finset PeerId

inductive Call where
  | beginSync (group : GroupNumber)
  | syncDone (group : GroupNumber)
  | peerConfirmed (group : GroupNumber) (peer : PeerId)
  | peerExited (group : GroupNumber) (peer : PeerId)
  | forget (group : GroupNumber)
  | clear

namespace State

def initial : State := { awaitingSync := ∅, confirmedPeers := ∅ }

def isAwaitingSync (s : State) (group : GroupNumber) : Bool := group ∈ s.awaitingSync

def ready (s : State) (group : GroupNumber) : Bool :=
  if s.isAwaitingSync group then false
  else match s.confirmedPeers.lookup group with
    | some peers => peers ≠ ∅
    | none => false

def beginSync (s : State) (group : GroupNumber) : State :=
  { awaitingSync := insert group s.awaitingSync
    confirmedPeers := s.confirmedPeers.erase group }

def syncDone (s : State) (group : GroupNumber) : State × Bool :=
  let next := { s with awaitingSync := s.awaitingSync.erase group }
  (next, next.ready group)

def peerConfirmed (s : State) (group : GroupNumber) (peer : PeerId) : State × Bool :=
  let wasReady := s.ready group
  -- `operator[]` puts the empty set where there is none.
  let peers := (s.confirmedPeers.lookup group).getD ∅
  let next := { s with confirmedPeers := s.confirmedPeers.insert group (insert peer peers) }
  (next, !wasReady && next.ready group)

def peerExited (s : State) (group : GroupNumber) (peer : PeerId) : State :=
  match s.confirmedPeers.lookup group with
  | none => s
  | some peers =>
    let left := peers.erase peer
    if left = ∅ then { s with confirmedPeers := s.confirmedPeers.erase group }
    else { s with confirmedPeers := s.confirmedPeers.insert group left }

def forget (s : State) (group : GroupNumber) : State :=
  { awaitingSync := s.awaitingSync.erase group
    confirmedPeers := s.confirmedPeers.erase group }

def clear (_ : State) : State := { awaitingSync := ∅, confirmedPeers := ∅ }

/-- One call: the state it leaves, and its result where it has one. -/
def step (s : State) : Call → State × Option Bool
  | .beginSync group => (s.beginSync group, none)
  | .syncDone group => ((s.syncDone group).1, some (s.syncDone group).2)
  | .peerConfirmed group peer => ((s.peerConfirmed group peer).1, some (s.peerConfirmed group peer).2)
  | .peerExited group peer => (s.peerExited group peer, none)
  | .forget group => (s.forget group, none)
  | .clear => (s.clear, none)

end State

/-- The state after some calls on a new object. -/
def run (calls : List Call) : State :=
  calls.foldl (fun s call => (s.step call).1) State.initial

/-! ## What the calls say -/

/-- The call is about the group. -/
def Call.Covers (group : GroupNumber) : Call → Prop
  | .beginSync other | .syncDone other | .peerConfirmed other _ | .peerExited other _ |
    .forget other => other = group
  | .clear => True

/-- What starts a new connection of the group or ends the old one. -/
inductive Call.Resets (group : GroupNumber) : Call → Prop where
  | beginSync : Resets group (.beginSync group)
  | forget : Resets group (.forget group)
  | clear : Resets group .clear

inductive Call.EndsSync (group : GroupNumber) : Call → Prop where
  | syncDone : EndsSync group (.syncDone group)
  | forget : EndsSync group (.forget group)
  | clear : EndsSync group .clear

inductive Call.EndsPeer (group : GroupNumber) (peer : PeerId) : Call → Prop where
  | reset {call : Call} (h : call.Resets group) : EndsPeer group peer call
  | exited : EndsPeer group peer (.peerExited group peer)

/-- A sync of the group began and has not ended. -/
def Awaits (group : GroupNumber) (calls : List Call) : Prop :=
  Since (· = .beginSync group) (Call.EndsSync group) calls

/-- The peer was confirmed for the present connection of the group and has not exited. -/
def Confirmed (group : GroupNumber) (peer : PeerId) (calls : List Call) : Prop :=
  Since (· = .peerConfirmed group peer) (Call.EndsPeer group peer) calls

/-! ## What a call does to both tables -/

/-- The confirmed peers that are stored for the group. -/
def State.peersOf (s : State) (group : GroupNumber) : Finset PeerId :=
  (s.confirmedPeers.lookup group).getD ∅

theorem ready_iff (s : State) (group : GroupNumber) :
    s.ready group = true ↔ group ∉ s.awaitingSync ∧ ∃ peer, peer ∈ s.peersOf group := by
  unfold State.ready State.isAwaitingSync State.peersOf
  by_cases hawaits : group ∈ s.awaitingSync
  · rw [if_pos (decide_eq_true hawaits)]
    exact iff_of_false Bool.false_ne_true fun h => h.1 hawaits
  · rw [if_neg (by rwa [decide_eq_true_eq])]
    cases s.confirmedPeers.lookup group with
    | none => simp
    | some peers =>
      dsimp only
      rw [decide_eq_true_eq, ← Finset.nonempty_iff_ne_empty]
      exact ⟨fun h => ⟨hawaits, h⟩, fun h => h.2⟩

theorem step_awaiting (group : GroupNumber) (s : State) (call : Call) :
    group ∈ (s.step call).1.awaitingSync ↔
      call = .beginSync group ∨ (group ∈ s.awaitingSync ∧ ¬ call.EndsSync group) := by
  cases call with
  | beginSync other =>
    have hstays : ¬ Call.EndsSync group (.beginSync other) := nofun
    change group ∈ insert other s.awaitingSync ↔ _
    rw [Finset.mem_insert, Call.beginSync.injEq, eq_comm, and_iff_left hstays]
  | syncDone other =>
    change group ∈ s.awaitingSync.erase other ↔ _
    rw [Finset.mem_erase]
    constructor
    · intro h
      refine .inr ⟨h.2, fun hend => ?_⟩
      cases hend
      exact h.1 rfl
    · rintro (h | h)
      · cases h
      · refine ⟨fun heq => ?_, h.1⟩
        rw [heq] at h
        exact h.2 .syncDone
  | peerConfirmed other peer =>
    have hstays : ¬ Call.EndsSync group (.peerConfirmed other peer) := nofun
    change group ∈ s.awaitingSync ↔ _
    rw [and_iff_left hstays, or_iff_right nofun]
  | peerExited other peer =>
    have hstays : ¬ Call.EndsSync group (.peerExited other peer) := nofun
    have hsame : (s.peerExited other peer).awaitingSync = s.awaitingSync := by
      unfold State.peerExited
      split
      · rfl
      · dsimp only
        split_ifs <;> rfl
    change group ∈ (s.peerExited other peer).awaitingSync ↔ _
    rw [hsame, and_iff_left hstays, or_iff_right nofun]
  | forget other =>
    change group ∈ s.awaitingSync.erase other ↔ _
    rw [Finset.mem_erase]
    constructor
    · intro h
      refine .inr ⟨h.2, fun hend => ?_⟩
      cases hend
      exact h.1 rfl
    · rintro (h | h)
      · cases h
      · refine ⟨fun heq => ?_, h.1⟩
        rw [heq] at h
        exact h.2 .forget
  | clear =>
    change group ∈ (∅ : Finset GroupNumber) ↔ _
    refine iff_of_false (Finset.notMem_empty group) ?_
    rintro (h | h)
    · cases h
    · exact h.2 .clear

section
variable (s : State) (group other : GroupNumber) (peer : PeerId)

theorem peersOf_erase :
    ((s.confirmedPeers.erase other).lookup group).getD ∅ =
      if group = other then ∅ else s.peersOf group := by
  split_ifs with h
  · rw [h, AList.lookup_erase]
    rfl
  · rw [AList.lookup_erase_ne h]
    rfl

theorem peersOf_insert (peers : Finset PeerId) :
    ((s.confirmedPeers.insert other peers).lookup group).getD ∅ =
      if group = other then peers else s.peersOf group := by
  split_ifs with h
  · rw [h, AList.lookup_insert]
    rfl
  · rw [AList.lookup_insert_ne h]
    rfl

theorem peersOf_peerExited : (s.peerExited other peer).peersOf group =
    if group = other then (s.peersOf group).erase peer else s.peersOf group := by
  have hpeers : s.peersOf other = (s.confirmedPeers.lookup other).getD ∅ := rfl
  unfold State.peerExited
  cases hlookup : s.confirmedPeers.lookup other with
  | none =>
    rw [hlookup] at hpeers
    dsimp only
    split_ifs with h
    · rw [h, hpeers]
      rfl
    · rfl
  | some peers =>
    rw [hlookup] at hpeers
    dsimp only
    split_ifs with hleft h h
    · rw [State.peersOf, peersOf_erase, if_pos h, h, hpeers]
      exact hleft.symm
    · rw [State.peersOf, peersOf_erase, if_neg h]
    · rw [State.peersOf, peersOf_insert, if_pos h, h, hpeers]
      rfl
    · rw [State.peersOf, peersOf_insert, if_neg h]

end

theorem step_confirmed (group : GroupNumber) (peer : PeerId) (s : State) (call : Call) :
    peer ∈ (s.step call).1.peersOf group ↔
      call = .peerConfirmed group peer ∨ (peer ∈ s.peersOf group ∧ ¬ call.EndsPeer group peer) := by
  cases call with
  | beginSync other =>
    change peer ∈ ((s.confirmedPeers.erase other).lookup group).getD ∅ ↔ _
    rw [peersOf_erase, or_iff_right nofun]
    split_ifs with h
    · rw [h]
      exact iff_of_false (Finset.notMem_empty peer) fun hstays => hstays.2 (.reset .beginSync)
    · refine (and_iff_left fun hend => ?_).symm
      cases hend with
      | reset hreset =>
        cases hreset
        exact h rfl
  | syncDone other =>
    change peer ∈ s.peersOf group ↔ _
    rw [or_iff_right nofun]
    refine (and_iff_left fun hend => ?_).symm
    cases hend with
    | reset hreset => cases hreset
  | peerConfirmed other found =>
    have hstays : ¬ Call.EndsPeer group peer (.peerConfirmed other found) := by
      intro hend
      cases hend with
      | reset hreset => cases hreset
    change peer ∈
      ((s.confirmedPeers.insert other (insert found (s.peersOf other))).lookup group).getD ∅ ↔ _
    rw [peersOf_insert, and_iff_left hstays, Call.peerConfirmed.injEq]
    split_ifs with h
    · rw [h, Finset.mem_insert, eq_comm (a := peer), and_iff_right rfl]
    · rw [or_iff_right fun heq => h heq.1.symm]
  | peerExited other found =>
    change peer ∈ (s.peerExited other found).peersOf group ↔ _
    rw [peersOf_peerExited, or_iff_right nofun]
    split_ifs with h
    · rw [h, Finset.mem_erase, and_comm]
      refine and_congr_right fun _ => ?_
      constructor
      · intro hne hend
        cases hend with
        | reset hreset => cases hreset
        | exited => exact hne rfl
      · intro hstays heq
        rw [heq] at hstays
        exact hstays .exited
    · refine (and_iff_left fun hend => ?_).symm
      cases hend with
      | reset hreset => cases hreset
      | exited => exact h rfl
  | forget other =>
    change peer ∈ ((s.confirmedPeers.erase other).lookup group).getD ∅ ↔ _
    rw [peersOf_erase, or_iff_right nofun]
    split_ifs with h
    · rw [h]
      exact iff_of_false (Finset.notMem_empty peer) fun hstays => hstays.2 (.reset .forget)
    · refine (and_iff_left fun hend => ?_).symm
      cases hend with
      | reset hreset =>
        cases hreset
        exact h rfl
  | clear =>
    change peer ∈ ((∅ : AList fun _ : GroupNumber => Finset PeerId).lookup group).getD ∅ ↔ _
    rw [AList.lookup_empty, or_iff_right nofun]
    exact iff_of_false (Finset.notMem_empty peer) fun hstays => hstays.2 (.reset .clear)

/-! ## Runs -/

theorem awaiting_iff (group : GroupNumber) (calls : List Call) :
    group ∈ (run calls).awaitingSync ↔ Awaits group calls :=
  since_foldl (p := fun s : State => group ∈ s.awaitingSync) (step_awaiting group)
    (Finset.notMem_empty group) calls

theorem confirmed_iff (group : GroupNumber) (peer : PeerId) (calls : List Call) :
    peer ∈ (run calls).peersOf group ↔ Confirmed group peer calls := by
  have hnone : peer ∉ State.initial.peersOf group := Finset.notMem_empty peer
  exact since_foldl (p := fun s : State => peer ∈ s.peersOf group) (step_confirmed group peer) hnone
    calls

theorem run_ready_iff (group : GroupNumber) (calls : List Call) :
    (run calls).ready group = true ↔
      ¬ Awaits group calls ∧ ∃ peer, Confirmed group peer calls := by
  simp only [ready_iff, awaiting_iff, confirmed_iff]

theorem run_append_singleton (calls : List Call) (call : Call) :
    run (calls ++ [call]) = ((run calls).step call).1 := by
  rw [run, List.foldl_append]
  rfl

/-- A call about other groups says nothing about this one. -/
theorem ready_step_of_not_covers {s : State} {group : GroupNumber} {call : Call}
    (h : ¬ call.Covers group) : (s.step call).1.ready group = s.ready group := by
  have hnot : call ≠ .beginSync group ∧ ¬ call.EndsSync group ∧ ¬ call.Resets group := by
    refine ⟨fun heq => ?_, fun hend => ?_, fun hreset => ?_⟩
    · rw [heq] at h
      exact h rfl
    · cases hend <;> exact h (by trivial)
    · cases hreset <;> exact h (by trivial)
  have hpeer : ∀ peer, call ≠ .peerConfirmed group peer ∧ ¬ call.EndsPeer group peer := by
    refine fun peer => ⟨fun heq => ?_, fun hend => ?_⟩
    · rw [heq] at h
      exact h rfl
    · cases hend with
      | reset hreset => exact hnot.2.2 hreset
      | exited => exact h rfl
  rw [Bool.eq_iff_iff, ready_iff, ready_iff, step_awaiting, or_iff_right hnot.1,
    and_iff_left hnot.2.1]
  refine and_congr_right fun _ => exists_congr fun peer => ?_
  rw [step_confirmed, or_iff_right (hpeer peer).1, and_iff_left (hpeer peer).2]

/-- Where a sync only ends while one is awaited, a result is true exactly when its call made the
    group ready. -/
theorem reported_iff {s : State} {group : GroupNumber} {call : Call} (hcovers : call.Covers group)
    (hawaits : call = .syncDone group → group ∈ s.awaitingSync) :
    (s.step call).2 = some true ↔ s.ready group = false ∧ (s.step call).1.ready group = true := by
  have hblocked : ∀ next : State, group ∈ next.awaitingSync → next.ready group ≠ true :=
    fun next hmem hready => ((ready_iff next group).mp hready).1 hmem
  have hnobody : ∀ next : State, next.peersOf group = ∅ → next.ready group ≠ true := by
    intro next hnone hready
    obtain ⟨peer, hpeer⟩ := ((ready_iff next group).mp hready).2
    rw [hnone] at hpeer
    exact Finset.notMem_empty peer hpeer
  cases call with
  | beginSync other =>
    obtain rfl : other = group := hcovers
    refine iff_of_false nofun fun h => hblocked _ ?_ h.2
    exact Finset.mem_insert_self other s.awaitingSync
  | syncDone other =>
    obtain rfl : other = group := hcovers
    have hbefore := Bool.eq_false_iff.mpr (hblocked s (hawaits rfl))
    change some (s.syncDone other).2 = some true ↔ _ ∧ (s.syncDone other).2 = true
    rw [Option.some.injEq, and_iff_right hbefore]
  | peerConfirmed other peer =>
    obtain rfl : other = group := hcovers
    change some (!s.ready other && _) = some true ↔ _
    rw [Option.some.injEq, Bool.and_eq_true, Bool.not_eq_true']
    rfl
  | peerExited other peer =>
    obtain rfl : other = group := hcovers
    refine iff_of_false nofun fun h => ?_
    have hready := (ready_iff _ _).mp h.2
    obtain ⟨hsync, found, hfound⟩ := hready
    rw [step_awaiting, or_iff_right nofun, and_iff_left nofun] at hsync
    rw [step_confirmed, or_iff_right nofun] at hfound
    have hbefore := (ready_iff s other).mpr ⟨hsync, found, hfound.1⟩
    rw [h.1] at hbefore
    cases hbefore
  | forget other =>
    obtain rfl : other = group := hcovers
    refine iff_of_false nofun fun h => hnobody _ ?_ h.2
    change ((s.confirmedPeers.erase other).lookup other).getD ∅ = ∅
    rw [peersOf_erase, if_pos rfl]
  | clear => exact iff_of_false nofun fun h => hnobody _ rfl h.2

/-- A group is ready when the calls say so, whatever they say of others. Where a sync only ends
    while one is awaited, the true results mark the changes to ready. -/
theorem readiness_follows_toxcore (calls : List Call) (group : GroupNumber) :
    ((run calls).ready group = true ↔ ¬ Awaits group calls ∧ ∃ peer, Confirmed group peer calls) ∧
      (∀ call, ¬ call.Covers group →
        (run (calls ++ [call])).ready group = (run calls).ready group) ∧
      ((∀ before after, calls = before ++ .syncDone group :: after → Awaits group before) →
        ∀ before call after, calls = before ++ call :: after → call.Covers group →
          (((run before).step call).2 = some true ↔
            (run before).ready group = false ∧ (run (before ++ [call])).ready group = true)) := by
  refine ⟨run_ready_iff group calls, fun call hcall => ?_,
    fun hsyncs before call after hcalls hcovers => ?_⟩
  · rw [run_append_singleton]
    exact ready_step_of_not_covers hcall
  · rw [run_append_singleton]
    refine reported_iff hcovers fun hdone => ?_
    rw [hdone] at hcalls
    exact (awaiting_iff group before).mpr (hsyncs before after hcalls)

-- A sync that ends while none is awaited is reported too, though the group was ready before.
example : ((run [.peerConfirmed 3 1]).step (.syncDone 3)).2 = some true ∧
    (run [.peerConfirmed 3 1]).ready 3 = true := by decide

end Tim2Tox.GroupWireReadiness
