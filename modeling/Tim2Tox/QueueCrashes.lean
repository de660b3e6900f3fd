import Tim2Tox.QueueSpecs

set_option autoImplicit false

/-!
# Crashes of the offline queue

Processes that come and go over the same files, each of which may die at any file step of any
operation. What a load returns is the queue of the last completed operation or that of one
interrupted since.
-/
namespace Tim2Tox.QueueFiles

open FaultyPrograms (Prog Fault Exit)

variable {DateTime : Type}

/-! ## The queue the files stand for -/

/-- A load would return the queue, and a primary that is there can be read. -/
def Holds (iso : Iso8601 DateTime) (queue : Queue DateTime) (v : View DateTime) : Prop :=
  recover iso v = some queue ∧ ∀ contents, v.primary = some contents →
    (readSnapshot iso contents).isSome

section
variable {iso : Iso8601 DateTime} {queue : Queue DateTime} {v u : View DateTime}

theorem holds_of_primary {contents : Contents} (hprimary : u.primary = some contents)
    (hread : readSnapshot iso contents = some queue) : Holds iso queue u := by
  refine ⟨?_, ?_⟩
  · unfold recover
    rw [hprimary]
    dsimp only
    rw [hread, Option.some_or]
  · intro other hother
    obtain rfl : contents = other := Option.some.inj (hprimary.symm.trans hother)
    rw [hread]
    rfl

theorem holds_of_written (hprimary : u.primary = some (.json (toJson iso queue))) :
    Holds iso queue u := holds_of_primary hprimary (readSnapshot_toJson iso queue)

theorem Holds.read (h : Holds iso queue v) {contents : Contents}
    (hprimary : v.primary = some contents) : readSnapshot iso contents = some queue := by
  obtain ⟨found, hfound⟩ := Option.isSome_iff_exists.mp (h.2 contents hprimary)
  have hrecover := h.1
  unfold recover at hrecover
  rw [hprimary] at hrecover
  dsimp only at hrecover
  rw [hfound, Option.some_or] at hrecover
  rw [hfound, hrecover]

theorem Holds.backed (h : Holds iso queue v) (hu : Backed v u) : Holds iso queue u := by
  rcases hu with rfl | ⟨contents, hprimary, rfl⟩
  · exact h
  · exact holds_of_primary hprimary (h.read hprimary)

theorem Holds.restored (h : Holds iso queue v) (hu : Restored False iso v u) :
    Holds iso queue u := by
  rcases hu with rfl | ⟨rfl, hbackup, hprimary⟩
  · exact h
  · have hmissing : v.primary = none := by
      rcases hcase : v.primary with _ | contents
      · rfl
      · have hread := h.read hcase
        have hunread := hprimary not_false
        rw [hcase] at hunread
        change readSnapshot iso contents = none at hunread
        rw [hread] at hunread
        contradiction
    obtain ⟨contents, hcontents⟩ : ∃ contents, v.backup = some contents := by
      rcases hcase : v.backup with _ | contents
      · rw [hcase] at hbackup
        contradiction
      · exact ⟨contents, rfl⟩
    have hread : readSnapshot iso contents = some queue := by
      have hrecover := h.1
      unfold recover at hrecover
      rw [hmissing, hcontents] at hrecover
      exact hrecover
    exact holds_of_primary hcontents hread

theorem holds_of_empty (hprimary : u.primary = none) (hbackup : u.backup = none) :
    Holds iso ∅ u := by
  refine ⟨?_, ?_⟩
  · unfold recover
    rw [hprimary, hbackup]
    rfl
  · intro contents hcontents
    rw [hprimary] at hcontents
    contradiction

theorem holds_of_cleared (hu : Cleared iso u) : Holds iso ∅ u := by
  rcases hu with hprimary | ⟨hprimary, hbackup | hbackup⟩
  · exact holds_of_written hprimary
  · refine ⟨?_, ?_⟩
    · unfold recover
      rw [hprimary, hbackup]
      exact readSnapshot_toJson iso ∅
    · intro contents hcontents
      rw [hprimary] at hcontents
      contradiction
  · exact holds_of_empty hprimary hbackup

theorem holds_of_load {mayFail : Prop} (hu : LoadDone mayFail iso v queue u) :
    Holds iso queue u := by
  obtain ⟨-, hfile, hbackup, -⟩ := hu
  rcases hprimary : u.primary with _ | contents
  · rw [hprimary] at hfile
    obtain rfl : ∅ = queue := Option.some.inj hfile
    exact holds_of_empty hprimary (hbackup hprimary)
  · rw [hprimary] at hfile
    exact holds_of_primary hprimary hfile

end

/-! ## Processes and crashes -/

/-- The files, the queue in memory, the queue of the last operation that completed and those of the
    operations interrupted since. -/
structure Device (DateTime : Type) where
  store : Store DateTime
  before : Queue DateTime
  interrupted : List (Queue DateTime) := []
  /-- This process has loaded the queue or written it. -/
  loaded : Bool := false

/-- An operation, and the file step its process dies at if it does. -/
structure Call (DateTime : Type) where
  op : Operation DateTime
  diesAt : Option ℕ := none

def crash : Option ℕ → List Fault
  | none => []
  | some n => List.replicate n .passes ++ [.dies]

/-- After an operation that was to write the snapshot. The next process has nothing in memory. -/
def Device.settle (d : Device DateTime) (snapshot : Option (Queue DateTime)) :
    Exit (Reply DateTime) × Store DateTime → Device DateTime
  | (.done (.queue queue), store) => ⟨store, queue, [], true⟩
  | (.done _, store) =>
    match snapshot with
    | none => { d with store }
    | some queue => ⟨store, queue, [], true⟩
  | (.failed, store) => { d with store, interrupted := d.interrupted ++ snapshot.toList }
  | (.died, store) =>
    ⟨{ store with cache := ∅ }, d.before, d.interrupted ++ snapshot.toList, false⟩

/-- A device whose files hold a queue, before its first process. -/
def Device.start (files : File → Option Contents) (queue : Queue DateTime) : Device DateTime :=
  { store := ⟨files, ∅⟩, before := queue }

/-- The files hold one of the queues a load may return; a process that has loaded has it too. -/
def Recoverable (iso : Iso8601 DateTime) (d : Device DateTime) : Prop :=
  (∃ queue ∈ d.before :: d.interrupted, Holds iso queue d.store.view) ∧
    (d.loaded = true → d.interrupted = [] ∧ d.store.cache = d.before)

section
variable {iso : Iso8601 DateTime}

theorem crash_never_fails (diesAt : Option ℕ) : Fault.fails ∈ crash diesAt → False := by
  intro h
  cases diesAt with
  | none => simp [crash] at h
  | some n => simp [crash] at h

theorem Recoverable.died {d : Device DateTime} {store : Store DateTime}
    {snapshot : Option (Queue DateTime)}
    (h : ∃ queue ∈ d.before :: (d.interrupted ++ snapshot.toList), Holds iso queue store.view) :
    Recoverable iso (d.settle snapshot (.died, store)) := by
  obtain ⟨queue, hmem, hholds⟩ := h
  refine ⟨⟨queue, hmem, hholds⟩, fun hloaded => ?_⟩
  contradiction

theorem settle_done {d : Device DateTime} {reply : Reply DateTime} {store : Store DateTime}
    (hreply : ∀ queue, reply ≠ .queue queue) (queue : Queue DateTime) :
    d.settle none (.done reply, store) = { d with store } ∧
      d.settle (some queue) (.done reply, store) = ⟨store, queue, [], true⟩ := by
  cases reply with
  | unit => exact ⟨rfl, rfl⟩
  | flag value => exact ⟨rfl, rfl⟩
  | queue other => exact absurd rfl (hreply other)

end

variable [DecidableEq DateTime]

def Device.call (iso : Iso8601 DateTime) (d : Device DateTime) (c : Call DateTime) :
    Device DateTime :=
  d.settle (c.op.snapshot d.store.cache) ((c.op.program iso).run (crash c.diesAt) d.store)

def Device.run (iso : Iso8601 DateTime) (d : Device DateTime) (calls : List (Call DateTime)) :
    Device DateTime := calls.foldl (Device.call iso) d

section
variable {iso : Iso8601 DateTime}

/-- Of the loads that do not die each returns a queue the files hold. -/
theorem Recoverable.load {d : Device DateTime} (h : Recoverable iso d) (diesAt : Option ℕ) :
    Prog.Ends (fun reply store => ∃ queue ∈ d.before :: d.interrupted, reply = .queue queue ∧
        Holds iso queue store.view ∧ store.cache = queue)
      (fun _ => False)
      (fun store => ∃ queue ∈ d.before :: d.interrupted, Holds iso queue store.view)
      ((Operation.loadQueue.program iso).run (crash diesAt) d.store) := by
  obtain ⟨⟨queue, hmem, hholds⟩, -⟩ := h
  refine Prog.wp_run _ _ _ (crash_never_fails diesAt)
    (Prog.wp_mono _ ?_ ?_ ?_ _ (loadQueue_program iso d.store))
  · rintro reply store ⟨found, hreply, hdone⟩
    have hfound : queue = found :=
      Option.some.inj (hholds.1.symm.trans (hdone.2.2.2 not_false))
    subst hfound
    exact ⟨queue, hmem, hreply, holds_of_load hdone, hdone.1⟩
  · rintro store ⟨-, hlost⟩
    have hnone := hlost not_false
    rw [hholds.1] at hnone
    contradiction
  · intro store hrestored
    exact ⟨queue, hmem, hholds.restored hrestored⟩

theorem Recoverable.loadQueue {d : Device DateTime} (h : Recoverable iso d) (diesAt : Option ℕ) :
    Recoverable iso (d.call iso ⟨.loadQueue, diesAt⟩) := by
  have hends := h.load diesAt
  unfold Device.call
  dsimp only
  rcases hrun : (Operation.loadQueue.program iso).run (crash diesAt) d.store with
    ⟨reply | _ | _, store⟩
  · rw [hrun] at hends
    obtain ⟨found, -, rfl, hfound, hcache⟩ := hends
    exact ⟨⟨found, List.mem_cons_self, hfound⟩, fun _ => ⟨rfl, hcache⟩⟩
  · rw [hrun] at hends
    exact hends.elim
  · rw [hrun] at hends
    obtain ⟨found, hfound, hheld⟩ := hends
    exact Recoverable.died ⟨found, List.mem_append_left _ hfound, hheld⟩

theorem Recoverable.clearQueueFile {d : Device DateTime} (h : Recoverable iso d)
    (diesAt : Option ℕ) : Recoverable iso (d.call iso ⟨.clearQueueFile, diesAt⟩) := by
  obtain ⟨⟨queue, hmem, hholds⟩, -⟩ := h
  have hends := Prog.wp_run _ (crash diesAt) d.store (crash_never_fails diesAt)
    (clearQueueFile_program iso d.store)
  unfold Device.call
  dsimp only
  rcases hrun : (Operation.clearQueueFile.program iso).run (crash diesAt) d.store with
    ⟨reply | _ | _, store⟩
  · rw [hrun] at hends
    obtain ⟨rfl, hprimary, hbackup, hcache⟩ := hends
    exact ⟨⟨∅, List.mem_cons_self, holds_of_empty hprimary hbackup⟩, fun _ => ⟨rfl, hcache⟩⟩
  · rw [hrun] at hends
    exact hends.2.elim
  · rw [hrun] at hends
    apply Recoverable.died
    rcases hends with hsame | hcleared
    · exact ⟨queue, List.mem_append_left _ hmem, hsame ▸ hholds⟩
    · exact ⟨∅, List.mem_cons_of_mem _ (List.mem_append_right _ List.mem_cons_self),
        holds_of_cleared hcleared⟩

theorem Recoverable.mutate {d : Device DateTime} (h : Recoverable iso d) {op : Operation DateTime}
    (hop : op.program iso = op.mutate iso) (diesAt : Option ℕ) :
    Recoverable iso (d.call iso ⟨op, diesAt⟩) := by
  obtain ⟨⟨queue, hmem, hholds⟩, hloaded⟩ := h
  have hends := Prog.wp_run _ (crash diesAt) d.store (crash_never_fails diesAt)
    (mutate_spec iso op d.store)
  unfold Device.call
  dsimp only
  rw [hop]
  rcases hrun : (op.mutate iso).run (crash diesAt) d.store with ⟨reply | _ | _, store⟩
  · rw [hrun] at hends
    obtain ⟨hreply, hwritten⟩ := hends
    change match op.snapshot d.store.cache with
      | none => store.view = d.store.view
      | some queue => store.view.primary = some (.json (toJson iso queue)) ∧
          store.view.cache = queue at hwritten
    rcases hsnapshot : op.snapshot d.store.cache with _ | written
    · rw [hsnapshot] at hwritten
      have hsame : store.view = d.store.view := hwritten
      have hcache : store.cache = d.store.cache := congrArg View.cache hsame
      rw [(settle_done hreply queue).1]
      exact ⟨⟨queue, hmem, hsame ▸ hholds⟩, fun hl => ⟨(hloaded hl).1, hcache.trans (hloaded hl).2⟩⟩
    · rw [hsnapshot] at hwritten
      rw [(settle_done hreply written).2]
      exact ⟨⟨written, List.mem_cons_self, holds_of_written hwritten.1⟩, fun _ => ⟨rfl, hwritten.2⟩⟩
  · rw [hrun] at hends
    exact hends.2.elim
  · rw [hrun] at hends
    apply Recoverable.died
    rcases hends with hbacked | ⟨written, hsnapshot, hprimary⟩
    · exact ⟨queue, List.mem_append_left _ hmem, hholds.backed hbacked⟩
    · have hsnap : op.snapshot d.store.cache = some written := hsnapshot
      rw [hsnap]
      exact ⟨written, List.mem_cons_of_mem _ (List.mem_append_right _ List.mem_cons_self),
        holds_of_written hprimary⟩

theorem Recoverable.call {d : Device DateTime} (h : Recoverable iso d) (c : Call DateTime) :
    Recoverable iso (d.call iso c) := by
  obtain ⟨op, diesAt⟩ := c
  rcases program_cases iso op with rfl | rfl | hop
  · exact h.loadQueue diesAt
  · exact h.clearQueueFile diesAt
  · exact h.mutate hop diesAt

theorem Recoverable.run (calls : List (Call DateTime)) : ∀ {d : Device DateTime},
    Recoverable iso d → Recoverable iso (d.run iso calls) := by
  induction calls with
  | nil => exact fun h => h
  | cons c calls ih => exact fun h => ih (h.call c)

end

/-! ## The queue survives -/

/-- Every load that completes returns the queue before or one an interrupted operation was to leave,
    a load that is not interrupted completes, and a process that has loaded works on the queue
    before: interrupted, its operation adds the queue it makes of it and nothing else. -/
def Survives (iso : Iso8601 DateTime) (d : Device DateTime) : Prop :=
  (∀ diesAt reply, ((Operation.loadQueue.program iso).run (crash diesAt) d.store).1 = .done reply →
    ∃ found ∈ d.before :: d.interrupted, reply = .queue found) ∧
  (∃ reply, ((Operation.loadQueue.program iso).run [] d.store).1 = .done reply) ∧
  (d.loaded = true → d.interrupted = [] ∧ d.store.cache = d.before ∧
    ∀ op diesAt store, (op.program iso).run (crash diesAt) d.store = (.died, store) →
      (d.call iso ⟨op, diesAt⟩).before = d.before ∧
      (d.call iso ⟨op, diesAt⟩).interrupted = (op.snapshot d.before).toList)

theorem load_returns_before_or_after (iso : Iso8601 DateTime) {files : File → Option Contents}
    {queue : Queue DateTime} (hstart : Holds iso queue (Store.mk files ∅).view)
    (calls : List (Call DateTime)) :
    Survives iso ((Device.start files queue).run iso calls) := by
  have hinit : Recoverable iso (Device.start files queue) := by
    refine ⟨⟨queue, List.mem_cons_self, hstart⟩, fun hloaded => ?_⟩
    contradiction
  have h := Recoverable.run calls hinit
  generalize (Device.start files queue).run iso calls = d at h
  refine ⟨?_, ?_, ?_⟩
  · intro diesAt reply hdone
    have hends := h.load diesAt
    rcases hrun : (Operation.loadQueue.program iso).run (crash diesAt) d.store with ⟨exit, store⟩
    rw [hrun] at hends hdone
    change exit = .done reply at hdone
    rw [hdone] at hends
    obtain ⟨found, hfound, hreply, -⟩ := hends
    exact ⟨found, hfound, hreply⟩
  · have hends := h.load none
    have halive := Prog.run_nil_ne_died (Operation.loadQueue.program iso) d.store
    change Prog.Ends _ _ _ ((Operation.loadQueue.program iso).run [] d.store) at hends
    rcases hrun : (Operation.loadQueue.program iso).run [] d.store with ⟨reply | _ | _, store⟩
    · exact ⟨reply, rfl⟩
    · rw [hrun] at hends
      exact hends.elim
    · rw [hrun] at halive
      exact absurd rfl halive
  · intro hloaded
    obtain ⟨hnone, hcache⟩ := h.2 hloaded
    refine ⟨hnone, hcache, ?_⟩
    intro op diesAt store hdied
    unfold Device.call
    rw [hdied, hcache]
    refine ⟨rfl, ?_⟩
    change d.interrupted ++ _ = _
    rw [hnone, List.nil_append]

/-- One point of time. -/
def noon : Iso8601 Unit where
  toIso8601String := fun _ => "2024-05-01T12:00:00.000Z"
  parse := fun text => if text = "2024-05-01T12:00:00.000Z" then some () else none
  parse_toIso8601String := fun _ => rfl

/-- A process that adds a message and dies while it clears the files, and the loads after it. -/
theorem interrupted_clear_survives :
    let item : OfflineMessageItem Unit := { kind := "text", text := "hi", timestamp := () }
    let d := (Device.start (fun _ => none) ∅).run noon
      [⟨.addMessage "peer" item, none⟩, ⟨.clearQueueFile, some 10⟩, ⟨.loadQueue, some 3⟩]
    Survives noon d ∧ d.before.entries = [⟨"peer", [item]⟩] ∧
      d.interrupted.map AList.entries = [[]] :=
  ⟨load_returns_before_or_after noon (holds_of_empty rfl rfl) _, by decide,
    by decide⟩

end Tim2Tox.QueueFiles
