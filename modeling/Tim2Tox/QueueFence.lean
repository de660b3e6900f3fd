import Tim2Tox.FencedTasks
import Tim2Tox.QueueCrashes

set_option autoImplicit false

/-!
# The offline queue and its file

Calls submitted at any time, whose file steps may fail. They take effect one at a time in the order
of submission; each leaves the queue in memory and the primary in agreement, or as they were.
-/
namespace Tim2Tox.QueueFiles

open FaultyPrograms (Prog Fault Exit)
open FencedTasks (Tasks Event Entry Ordered Sequential lastState)
open LabelledRuns (exec)

variable {DateTime : Type}

/-- The queue in memory is what the primary decodes to. -/
def Agrees (iso : Iso8601 DateTime) (s : Store DateTime) : Prop :=
  fileQueue iso (s.files .primary) = some s.cache

/-- Neither the queue in memory nor the primary has changed. -/
def Unchanged (s u : Store DateTime) : Prop :=
  u.cache = s.cache ∧ u.files .primary = s.files .primary

theorem unchanged_of_backed {s u : Store DateTime} (h : Backed s.view u.view) : Unchanged s u := by
  rcases h with hsame | ⟨contents, -, hbacked⟩
  · exact ⟨congrArg View.cache hsame, congrArg View.primary hsame⟩
  · exact ⟨congrArg View.cache hbacked, congrArg View.primary hbacked⟩

variable [DecidableEq DateTime]

/-- An operation on the queue in memory that finds nothing to change there. -/
def Operation.idle (cache : Queue DateTime) : Operation DateTime → Bool
  | .loadQueue => false
  | op => (op.snapshot cache).isNone

/-- What one operation leaves. A clear that fails after it published the empty primary stays
    cleared, and a load that fails after it rewrote the primary leaves it so. -/
def Outcome (iso : Iso8601 DateTime) (op : Operation DateTime) (s u : Store DateTime) :
    Exit (Reply DateTime) → Prop
  | .done _ => if op.idle s.cache then Unchanged s u else Agrees iso u
  | .failed => Unchanged s u ∨
      op = .clearQueueFile ∧ u.cache = ∅ ∧ Agrees iso u ∨
      op = .loadQueue ∧ u.cache = s.cache ∧ u.files .primary = s.files .backup ∧
        ((s.files .backup).bind (readSnapshot iso)).isSome
  | .died => False

section
variable {iso : Iso8601 DateTime}

theorem loadQueue_outcome (s : Store DateTime) :
    (Operation.loadQueue.program iso).wp True
      (fun reply u => Outcome iso .loadQueue s u (.done reply))
      (fun u => Outcome iso .loadQueue s u .failed) (fun _ => True) s := by
  refine Prog.wp_mono _ ?_ ?_ (fun _ _ => trivial) s (loadQueue_program iso s)
  · rintro reply u ⟨queue, -, hcache, hprimary, -, -⟩
    have hqueue : u.cache = queue := hcache
    change Agrees iso u
    unfold Agrees
    rw [hqueue]
    exact hprimary
  · rintro u ⟨hsame | ⟨hview, hbackup, -⟩, -⟩
    · exact Or.inl (unchanged_of_backed (Or.inl hsame))
    · exact Or.inr (Or.inr ⟨rfl, congrArg View.cache hview, congrArg View.primary hview, hbackup⟩)

theorem clearQueueFile_outcome (s : Store DateTime) :
    (Operation.clearQueueFile.program iso).wp True
      (fun reply u => Outcome iso .clearQueueFile s u (.done reply))
      (fun u => Outcome iso .clearQueueFile s u .failed) (fun _ => True) s := by
  refine Prog.wp_mono _ ?_ ?_ (fun _ _ => trivial) s (clearQueueFile_program iso s)
  · rintro reply u ⟨-, hprimary, -, hcache⟩
    have hnone : u.files .primary = none := hprimary
    have hempty : u.cache = ∅ := hcache
    change Agrees iso u
    unfold Agrees
    rw [hnone, hempty]
    rfl
  · rintro u ⟨hsame | ⟨hcleared, hcache⟩, -⟩
    · exact Or.inl (unchanged_of_backed (Or.inl hsame))
    · refine Or.inr (Or.inl ⟨rfl, hcache, ?_⟩)
      have hempty : u.cache = ∅ := hcache
      unfold Agrees
      rw [hempty]
      rcases hcleared with hprimary | ⟨hprimary, -⟩
      · have hthere : u.files .primary = some (.json (toJson iso ∅)) := hprimary
        rw [hthere]
        exact readSnapshot_toJson iso ∅
      · have hnone : u.files .primary = none := hprimary
        rw [hnone]
        rfl

theorem idle_of_mutate {op : Operation DateTime} (hload : op ≠ .loadQueue) (cache : Queue DateTime) :
    op.idle cache = (op.snapshot cache).isNone := by
  cases op with
  | loadQueue => exact absurd rfl hload
  | _ => rfl

theorem mutate_outcome {op : Operation DateTime} (hload : op ≠ .loadQueue) (s : Store DateTime) :
    (op.mutate iso).wp True (fun reply u => Outcome iso op s u (.done reply))
      (fun u => Outcome iso op s u .failed) (fun _ => True) s := by
  refine Prog.wp_mono _ ?_ ?_ (fun _ _ => trivial) s (mutate_spec iso op s)
  · rintro reply u ⟨-, hwritten⟩
    change if op.idle s.cache = true then Unchanged s u else Agrees iso u
    rw [idle_of_mutate hload]
    rcases hsnapshot : op.snapshot s.cache with _ | queue
    · rw [show op.snapshot s.view.cache = none from hsnapshot] at hwritten
      exact unchanged_of_backed (Or.inl hwritten)
    · rw [show op.snapshot s.view.cache = some queue from hsnapshot] at hwritten
      have hprimary : u.files .primary = some (.json (toJson iso queue)) := hwritten.1
      have hcache : u.cache = queue := hwritten.2
      change Agrees iso u
      unfold Agrees
      rw [hprimary, hcache]
      exact readSnapshot_toJson iso queue
  · rintro u ⟨hbacked, -⟩
    exact Or.inl (unchanged_of_backed hbacked)

/-- The outcome of an operation run to its end, whatever steps failed. -/
theorem outcome_of_run {op : Operation DateTime} {faults : List Fault} {s u : Store DateTime}
    {exit : Exit (Reply DateTime)} (hexit : exit ≠ .died)
    (hrun : (op.program iso).run faults s = (exit, u)) : Outcome iso op s u exit := by
  have hwp : (op.program iso).wp True (fun reply u => Outcome iso op s u (.done reply))
      (fun u => Outcome iso op s u .failed) (fun _ => True) s := by
    by_cases hload : op = .loadQueue
    · subst hload
      exact loadQueue_outcome s
    rcases program_cases iso op with rfl | rfl | hop
    · exact absurd rfl hload
    · exact clearQueueFile_outcome s
    · rw [hop]
      exact mutate_outcome hload s
  have hends := Prog.wp_run _ faults s (fun _ => trivial) hwp
  rw [hrun] at hends
  cases exit with
  | done reply => exact hends
  | failed => exact hends
  | died => exact absurd rfl hexit

theorem outcomes_of_sequential {log : List (Entry (Store DateTime) (Operation DateTime)
    (Reply DateTime))} : ∀ {s : Store DateTime},
    Sequential (fun op : Operation DateTime => op.program iso) s log →
    (∀ e ∈ log, e.exit ≠ .died) → ∀ e ∈ log, Outcome iso e.op e.before e.after e.exit := by
  induction log with
  | nil => simp
  | cons first log ih =>
    intro s hseq halive e he
    rcases List.mem_cons.mp he with rfl | he
    · exact outcome_of_run (halive e List.mem_cons_self) hseq.1.2
    · exact ih hseq.2 (fun other hother => halive other (List.mem_cons_of_mem _ hother)) e he

end

/-! ## The service -/

/-- The operations of the service over the files, as tasks chained by `_mutationFence`. -/
def step (iso : Iso8601 DateTime) :
    Tasks (Store DateTime) (Operation DateTime) (Reply DateTime) → Event (Operation DateTime) →
      Option (Tasks (Store DateTime) (Operation DateTime) (Reply DateTime)) :=
  Tasks.step fun op => op.program iso

def hello : OfflineMessageItem Unit := { kind := "text", text := "hi", timestamp := () }

/-- The files of a queue with one message. -/
def oneMessage : File → Option Contents
  | .primary => some (.json (toJson noon ⟨[⟨"peer", [hello]⟩], by simp [List.NodupKeys, List.keys]⟩))
  | _ => none

/-- How an operation ended, and the peers in memory and in the primary. -/
structure Told where
  completed : Bool
  cache : List String
  before : Option (List String)
  after : Option (List String)
  deriving DecidableEq

def told (e : Entry (Store Unit) (Operation Unit) (Reply Unit)) : Told where
  completed := match e.exit with
    | .done _ => true
    | _ => false
  cache := e.after.cache.keys
  before := (fileQueue noon (e.before.files .primary)).map AList.keys
  after := (fileQueue noon (e.after.files .primary)).map AList.keys

theorem exists_told {start : Tasks (Store Unit) (Operation Unit) (Reply Unit)}
    {events : List (Event (Operation Unit))} {x : Told}
    (h : (exec (step noon) start events).map (fun s => s.log.map told) = some [x]) :
    ∃ s, exec (step noon) start events = some s ∧ ∃ e ∈ s.log, told e = x := by
  obtain ⟨s, hrun, hlog⟩ := Option.map_eq_some_iff.mp h
  have hmem : x ∈ s.log.map told := by
    rw [hlog]
    exact List.mem_singleton_self x
  exact ⟨s, hrun, List.mem_map.mp hmem⟩

end Tim2Tox.QueueFiles
