import Mathlib.Data.List.Range
import Tim2Tox.FaultyPrograms
import Tim2Tox.LabelledRuns

set_option autoImplicit false

/-!
# Tasks chained by a fence

Every task awaits the future that was the fence when it was submitted and puts its own in its
place. Tasks are submitted, started and advanced in any order the futures allow; they take effect
one at a time, in the order of submission.
-/
namespace Tim2Tox.FencedTasks

open FaultyPrograms (Prog Fault Exit)
open LabelledRuns (exec)

variable {σ ω α : Type}

/-- A submitted task with the ticket of the future it awaits; `none` is a completed one. -/
structure Waiting (ω : Type) where
  ticket : ℕ
  previous : Option ℕ
  op : ω

/-- A started task: what is left of its program, and the faults its steps met. -/
structure Running (σ ω α : Type) where
  ticket : ℕ
  op : ω
  rest : Prog σ α
  before : σ
  faults : List Fault := []

structure Entry (σ ω α : Type) where
  op : ω
  before : σ
  faults : List Fault
  exit : Exit α
  after : σ

structure Tasks (σ ω α : Type) where
  state : σ
  fence : Option ℕ := none
  submitted : List ω := []
  waiting : List (Waiting ω) := []
  running : List (Running σ ω α) := []
  completed : List ℕ := []
  log : List (Entry σ ω α) := []

inductive Event (ω : Type) where
  | submit (op : ω)
  | start (ticket : ℕ)
  | advance (ticket : ℕ) (passes : Bool)

namespace Tasks

/-- The future of the task completes; as the fence it gives way to a completed one. -/
def finish (s : Tasks σ ω α) (task : Running σ ω α) (exit : Exit α) : Tasks σ ω α :=
  { s with
    fence := if s.fence = some task.ticket then none else s.fence
    running := s.running.filter fun other => other.ticket ≠ task.ticket
    completed := s.completed ++ [task.ticket]
    log := s.log ++ [⟨task.op, task.before, task.faults, exit, s.state⟩] }

def progress (s : Tasks σ ω α) (task : Running σ ω α) (state : σ) : Tasks σ ω α :=
  { s with
    state
    running := s.running.map fun other => if other.ticket = task.ticket then task else other }

def advance (s : Tasks σ ω α) (task : Running σ ω α) (passes : Bool) : Tasks σ ω α :=
  match task.rest with
  | .done a => s.finish task (.done a)
  | .throw => s.finish task .failed
  | .memory change next =>
    s.progress { task with rest := next (change s.state) } (change s.state)
  | .step change torn next caught =>
    if passes then
      s.progress
        { task with rest := next (change s.state), faults := task.faults ++ [.passes] }
        (change s.state)
    else
      s.progress { task with rest := caught, faults := task.faults ++ [.fails] } (torn s.state)

def step (program : ω → Prog σ α) (s : Tasks σ ω α) : Event ω → Option (Tasks σ ω α)
  | .submit op =>
    some { s with
      fence := some s.submitted.length
      submitted := s.submitted ++ [op]
      waiting := s.waiting ++ [⟨s.submitted.length, s.fence, op⟩] }
  | .start ticket =>
    match s.waiting.find? fun task => task.ticket = ticket with
    | none => none
    | some task =>
      if task.previous.all (· ∈ s.completed) then
        some { s with
          waiting := s.waiting.filter fun other => other.ticket ≠ ticket
          running := s.running ++ [⟨ticket, task.op, program task.op, s.state, []⟩] }
      else none
  | .advance ticket passes =>
    (s.running.find? fun task => task.ticket = ticket).map fun task => s.advance task passes

end Tasks

/-! ## One at a time -/

/-- Every entry is a run of its program from where the one before it ended. -/
def Sequential (program : ω → Prog σ α) : σ → List (Entry σ ω α) → Prop
  | _, [] => True
  | s, e :: log => (e.before = s ∧ (program e.op).run e.faults e.before = (e.exit, e.after)) ∧
      Sequential program e.after log

/-- Where the last entry ended. -/
def lastState (s : σ) (log : List (Entry σ ω α)) : σ := log.foldl (fun _ e => e.after) s

theorem sequential_concat {program : ω → Prog σ α} {e : Entry σ ω α} (log : List (Entry σ ω α)) :
    ∀ {s : σ}, Sequential program s log → e.before = lastState s log →
      (program e.op).run e.faults e.before = (e.exit, e.after) →
      Sequential program s (log ++ [e]) := by
  induction log with
  | nil => exact fun _ hbefore hrun => ⟨⟨hbefore, hrun⟩, trivial⟩
  | cons first log ih => exact fun h hbefore hrun => ⟨h.1, ih h.2 hbefore hrun⟩

theorem lastState_concat (s : σ) (log : List (Entry σ ω α)) (e : Entry σ ω α) :
    lastState s (log ++ [e]) = e.after := by
  unfold lastState
  rw [List.foldl_append]
  rfl

/-- The tickets go out in order, the completed ones first, and at most one task is started. -/
structure Ordered (program : ω → Prog σ α) (s₀ : σ) (s : Tasks σ ω α) : Prop where
  one : s.running.length ≤ 1
  order : s.log.map Entry.op ++ s.running.map Running.op ++ s.waiting.map Waiting.op = s.submitted
  tickets : s.running.map Running.ticket ++ s.waiting.map Waiting.ticket =
    List.range' s.log.length (s.running.length + s.waiting.length)
  completed : s.completed = List.range s.log.length
  first : ∀ w ∈ s.waiting, w.previous = none → w.ticket = s.log.length
  next : ∀ w ∈ s.waiting, ∀ p, w.previous = some p → p + 1 = w.ticket
  idle : s.fence = none → s.running = [] ∧ s.waiting = []
  latest : ∀ t, s.fence = some t → t + 1 = s.submitted.length ∧ s.log.length ≤ t
  sequential : Sequential program s₀ s.log
  resting : s.running = [] → s.state = lastState s₀ s.log
  midway : ∀ r ∈ s.running, r.before = lastState s₀ s.log ∧
    ∀ rest, (program r.op).run (r.faults ++ rest) r.before = r.rest.run rest s.state
  alive : ∀ e ∈ s.log, e.exit ≠ .died

section
variable {program : ω → Prog σ α} {s₀ : σ} {s : Tasks σ ω α}

theorem Ordered.init : Ordered program s₀ { state := s₀ } := by
  constructor <;> simp [Sequential, lastState]

theorem Ordered.submitted_length (h : Ordered program s₀ s) :
    s.log.length + s.running.length + s.waiting.length = s.submitted.length := by
  have hlength := congrArg List.length h.order
  simp only [List.length_append, List.length_map] at hlength
  exact hlength

theorem Ordered.submit (h : Ordered program s₀ s) (op : ω) :
    Ordered program s₀ { s with
      fence := some s.submitted.length
      submitted := s.submitted ++ [op]
      waiting := s.waiting ++ [⟨s.submitted.length, s.fence, op⟩] } := by
  have hlength := h.submitted_length
  refine ⟨h.one, ?_, ?_, h.completed, ?_, ?_, ?_, ?_, h.sequential, h.resting, h.midway, h.alive⟩
  · change s.log.map Entry.op ++ s.running.map Running.op ++ (s.waiting ++ [_]).map Waiting.op = _
    rw [List.map_append, ← List.append_assoc, h.order]
    rfl
  · change s.running.map Running.ticket ++ (s.waiting ++ [_]).map Waiting.ticket =
      List.range' s.log.length (s.running.length + (s.waiting ++ [_]).length)
    rw [List.map_append, ← List.append_assoc, h.tickets, List.length_append, ← Nat.add_assoc]
    change _ ++ [s.submitted.length] = List.range' _ (_ + 1)
    rw [List.range'_concat, ← hlength]
    simp [Nat.add_assoc]
  · intro w hw hnone
    rcases List.mem_append.mp hw with hw | hw
    · exact h.first w hw hnone
    · obtain rfl := List.mem_singleton.mp hw
      obtain ⟨hrunning, hwaiting⟩ := h.idle hnone
      rw [hrunning, hwaiting] at hlength
      simpa using hlength.symm
  · intro w hw p hp
    rcases List.mem_append.mp hw with hw | hw
    · exact h.next w hw p hp
    · obtain rfl := List.mem_singleton.mp hw
      exact (h.latest p hp).1
  · intro hnone
    contradiction
  · intro t ht
    obtain rfl := Option.some.inj ht
    refine ⟨by simp, ?_⟩
    change s.log.length ≤ s.submitted.length
    omega

/-- A task whose awaited future has completed is the next in order, and none is started. -/
theorem Ordered.ready (h : Ordered program s₀ s) {w : Waiting ω} (hw : w ∈ s.waiting)
    (hready : w.previous.all (· ∈ s.completed) = true) :
    w.ticket = s.log.length ∧ s.running = [] := by
  have hticket : w.ticket ∈ s.running.map Running.ticket ++ s.waiting.map Waiting.ticket :=
    List.mem_append_right _ (List.mem_map_of_mem hw)
  rw [h.tickets, List.mem_range'_1] at hticket
  have hfirst : w.ticket = s.log.length := by
    cases hprevious : w.previous with
    | none => exact h.first w hw hprevious
    | some p =>
      have hnext := h.next w hw p hprevious
      rw [hprevious, h.completed] at hready
      have hless : p < s.log.length := by simpa using hready
      omega
  refine ⟨hfirst, ?_⟩
  cases hrunning : s.running with
  | nil => rfl
  | cons r rest =>
    have htickets := h.tickets
    have hone := h.one
    rw [hrunning] at htickets hone
    obtain rfl : rest = [] := by
      cases rest with
      | nil => rfl
      | cons other rest => simp at hone
    -- the started task has this ticket, so the waiting ones come after it
    have hcount : [r].length + s.waiting.length = s.waiting.length + 1 := Nat.add_comm _ _
    rw [hcount, List.range'_succ, List.map_cons, List.map_nil, List.singleton_append] at htickets
    have hafter := (List.cons.inj htickets).2
    have hmem : w.ticket ∈ s.waiting.map Waiting.ticket := List.mem_map_of_mem hw
    rw [hafter, List.mem_range'_1] at hmem
    omega

theorem Ordered.start (h : Ordered program s₀ s) {ticket : ℕ} {w : Waiting ω}
    (hfind : (s.waiting.find? fun task => task.ticket = ticket) = some w)
    (hready : w.previous.all (· ∈ s.completed) = true) :
    Ordered program s₀ { s with
      waiting := s.waiting.filter fun other => other.ticket ≠ ticket
      running := s.running ++ [⟨ticket, w.op, program w.op, s.state, []⟩] } := by
  have hw : w ∈ s.waiting := List.mem_of_find?_eq_some hfind
  have hticket : w.ticket = ticket := by simpa using List.find?_some hfind
  obtain ⟨hfirst, hnone⟩ := h.ready hw hready
  have hstart : ticket = s.log.length := hticket.symm.trans hfirst
  obtain ⟨head, tail, hwaiting⟩ := List.exists_cons_of_ne_nil (List.ne_nil_of_mem hw)
  have htickets := h.tickets
  rw [hnone, hwaiting, List.map_nil, List.nil_append, List.map_cons, List.length_cons,
    List.length_nil, Nat.zero_add, List.range'_succ] at htickets
  obtain ⟨hhead, htail⟩ := List.cons.inj htickets
  have hsame : head = w := by
    rw [hwaiting, List.find?_cons_of_pos (by simp [hhead, hstart])] at hfind
    exact Option.some.inj hfind
  have hafter : ∀ other ∈ tail, other.ticket ≠ ticket := by
    intro other hother heq
    have hmem : other.ticket ∈ tail.map Waiting.ticket := List.mem_map_of_mem hother
    rw [htail, List.mem_range'_1] at hmem
    omega
  have hleft : (s.waiting.filter fun other => other.ticket ≠ ticket) = tail := by
    rw [hwaiting, List.filter_cons_of_neg (by simp [hhead, hstart])]
    exact List.filter_eq_self.mpr fun other hother => by simpa using hafter other hother
  have hsub : ∀ other ∈ tail, other ∈ s.waiting := fun other hother => by
    rw [hwaiting]
    exact List.mem_cons_of_mem head hother
  rw [hleft, hnone]
  refine ⟨Nat.le_refl 1, ?_, ?_, h.completed, ?_, ?_, ?_, h.latest, h.sequential, ?_, ?_, h.alive⟩
  · have horder := h.order
    rw [hnone, hwaiting, hsame] at horder
    simpa using horder
  · change [ticket] ++ tail.map Waiting.ticket = List.range' s.log.length (1 + tail.length)
    rw [htail, hstart, Nat.add_comm 1, List.range'_succ]
    rfl
  · intro other hother hnone'
    exact h.first other (hsub other hother) hnone'
  · intro other hother
    exact h.next other (hsub other hother)
  · intro hfence
    have hempty := (h.idle hfence).2
    rw [hwaiting] at hempty
    contradiction
  · intro hempty
    contradiction
  · intro r hr
    obtain rfl := List.mem_singleton.mp hr
    exact ⟨h.resting hnone, fun rest => rfl⟩

/-- The one started task. -/
theorem Ordered.only (h : Ordered program s₀ s) {r : Running σ ω α} (hr : r ∈ s.running) :
    s.running = [r] := by
  have hone := h.one
  cases hrunning : s.running with
  | nil =>
    rw [hrunning] at hr
    contradiction
  | cons first rest =>
    rw [hrunning] at hr hone
    cases rest with
    | nil => rw [List.mem_singleton.mp hr]
    | cons second rest => simp at hone

theorem Ordered.finish (h : Ordered program s₀ s) {r : Running σ ω α} (hr : r ∈ s.running)
    {exit : Exit α} (hexit : exit ≠ .died)
    (hrun : (program r.op).run r.faults r.before = (exit, s.state)) :
    Ordered program s₀ (s.finish r exit) := by
  have honly := h.only hr
  have hlength := h.submitted_length
  have htickets := h.tickets
  have hcount : [r].length + s.waiting.length = s.waiting.length + 1 := Nat.add_comm _ _
  rw [honly, hcount, List.range'_succ, List.map_cons, List.map_nil, List.singleton_append]
    at htickets
  obtain ⟨hticket, hafter⟩ := List.cons.inj htickets
  rw [honly] at hlength
  have hlast : (s.log ++ [(⟨r.op, r.before, r.faults, exit, s.state⟩ : Entry σ ω α)]).length =
      s.log.length + 1 := by simp
  have hnone : (s.running.filter fun other => other.ticket ≠ r.ticket) = [] := by
    rw [honly]
    simp
  unfold Tasks.finish
  rw [hnone]
  refine ⟨Nat.zero_le 1, ?_, ?_, ?_, ?_, h.next, ?_, ?_, ?_, ?_, ?_, ?_⟩
  · have horder := h.order
    rw [honly] at horder
    simpa using horder
  · change [] ++ s.waiting.map Waiting.ticket = List.range' _ (0 + s.waiting.length)
    rw [hlast, hafter, Nat.zero_add, List.nil_append]
  · change s.completed ++ [r.ticket] = List.range _
    rw [hlast, List.range_succ, h.completed, hticket]
  · intro w hw hfirst
    have hfront := h.first w hw hfirst
    have hmem : w.ticket ∈ s.waiting.map Waiting.ticket := List.mem_map_of_mem hw
    rw [hafter, List.mem_range'_1] at hmem
    omega
  · intro hfence
    refine ⟨rfl, ?_⟩
    change (if s.fence = some r.ticket then none else s.fence) = none at hfence
    split_ifs at hfence with hmine
    · -- the fence is the future of this task: none was submitted after it
      have hsubmitted := (h.latest r.ticket hmine).1
      have hempty : s.waiting.length = 0 := by
        change s.log.length + 1 + s.waiting.length = s.submitted.length at hlength
        omega
      exact List.length_eq_zero_iff.mp hempty
    · exact (h.idle hfence).2
  · intro t ht
    change (if s.fence = some r.ticket then none else s.fence) = some t at ht
    split_ifs at ht with hmine
    obtain ⟨hsubmitted, hfar⟩ := h.latest t ht
    refine ⟨hsubmitted, ?_⟩
    rw [hlast]
    have hother : t ≠ r.ticket := by
      rintro rfl
      exact hmine ht
    omega
  · exact sequential_concat s.log h.sequential (h.midway r hr).1 hrun
  · intro _
    rw [lastState_concat]
  · intro other hother
    contradiction
  · intro e he
    rcases List.mem_append.mp he with he | he
    · exact h.alive e he
    · obtain rfl := List.mem_singleton.mp he
      exact hexit

theorem Ordered.progress (h : Ordered program s₀ s) {r : Running σ ω α} (hr : r ∈ s.running)
    (rest : Prog σ α) (more : List Fault) (state : σ)
    (hrest : ∀ faults, r.rest.run (more ++ faults) s.state = rest.run faults state) :
    Ordered program s₀
      (s.progress { r with rest := rest, faults := r.faults ++ more } state) := by
  have honly := h.only hr
  obtain ⟨hbefore, hrun⟩ := h.midway r hr
  have hmap : (s.running.map fun other => if other.ticket = r.ticket then
      { r with rest := rest, faults := r.faults ++ more } else other) =
      [{ r with rest := rest, faults := r.faults ++ more }] := by
    rw [honly]
    simp
  have horder := h.order
  have htickets := h.tickets
  rw [honly] at horder htickets
  unfold Tasks.progress
  dsimp only
  rw [hmap]
  refine ⟨Nat.le_refl 1, horder, htickets, h.completed, h.first, h.next, ?_, h.latest, h.sequential,
    ?_, ?_, h.alive⟩
  · intro hfence
    have hnone := (h.idle hfence).1
    rw [honly] at hnone
    contradiction
  · intro hempty
    contradiction
  · intro other hother
    obtain rfl := List.mem_singleton.mp hother
    refine ⟨hbefore, fun faults => ?_⟩
    change (program r.op).run (r.faults ++ more ++ faults) r.before = rest.run faults state
    rw [List.append_assoc, hrun, hrest]

theorem Ordered.advance (h : Ordered program s₀ s) {r : Running σ ω α} (hr : r ∈ s.running)
    (passes : Bool) : Ordered program s₀ (s.advance r passes) := by
  have hrun := (h.midway r hr).2 []
  rw [List.append_nil] at hrun
  unfold Tasks.advance
  split
  · rename_i a hrest
    rw [hrest] at hrun
    exact h.finish hr (by simp) hrun
  · rename_i hrest
    rw [hrest] at hrun
    exact h.finish hr (by simp) hrun
  · rename_i change next hrest
    have hstep := h.progress hr (next (change s.state)) [] (change s.state)
      fun faults => by rw [hrest]; rfl
    rw [List.append_nil] at hstep
    exact hstep
  · rename_i change torn next caught hrest
    split_ifs
    · exact h.progress hr _ _ _ fun faults => by rw [hrest]; rfl
    · exact h.progress hr _ _ _ fun faults => by rw [hrest]; rfl

theorem Ordered.step (h : Ordered program s₀ s) {e : Event ω} {u : Tasks σ ω α}
    (hstep : s.step program e = some u) : Ordered program s₀ u := by
  cases e with
  | submit op =>
    obtain rfl := Option.some.inj hstep
    exact h.submit op
  | start ticket =>
    unfold Tasks.step at hstep
    dsimp only at hstep
    split at hstep
    · contradiction
    · rename_i w hfind
      split_ifs at hstep with hready
      obtain rfl := Option.some.inj hstep
      exact h.start hfind hready
  | advance ticket passes =>
    obtain ⟨r, hfind, rfl⟩ := Option.map_eq_some_iff.mp hstep
    exact h.advance (List.mem_of_find?_eq_some hfind) passes

theorem Ordered.exec {events : List (Event ω)}
    (hrun : exec (Tasks.step program) { state := s₀ } events = some s) :
    Ordered program s₀ s :=
  LabelledRuns.invariant (fun _ _ _ h hstep => h.step hstep) Ordered.init hrun

end

end Tim2Tox.FencedTasks
