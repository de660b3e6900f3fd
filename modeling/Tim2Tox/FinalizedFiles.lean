import Tim2Tox.FileDisks
import Tim2Tox.LabelledRuns

set_option autoImplicit false

/-!
# Finalising received files

A completed file is moved to its destination directory. Every await of `finalizeReceivedFile` is a
step of its own, so that calls can be interleaved; what the file system answers comes with the step.
-/
namespace Tim2Tox.FinalizedFiles
open FileDisks LabelledRuns

/-- `package:path` -/
structure PathRules where
  join : String → String → String
  basenameWithoutExtension : String → String
  extension : String → String

structure Call where
  source : String
  destDir : String
  fileName : String
  uniqueTag : String
  moveSource : Bool

def candidate (P : PathRules) (c : Call) (i : ℕ) : String :=
  P.join c.destDir
    (if i = 0 then c.fileName
      else P.basenameWithoutExtension c.fileName ++ "_" ++ toString i ++ P.extension c.fileName)

def stage (c : Call) (dest : String) : String := dest ++ "." ++ c.uniqueTag ++ ".toxee-part"

/-- What `placeOnto` renames. -/
inductive Placed where
  | source
  | stage
  deriving DecidableEq

def Placed.path (c : Call) (dest : String) : Placed → String
  | .source => c.source
  | .stage => FinalizedFiles.stage c dest

/-- The next await of a call. -/
inductive Pc where
  | createDir
  | reserve (i : ℕ)
  /-- The reservation failed; is the name taken? -/
  | taken (i : ℕ)
  /-- `placeOnto` on Windows drops the reservation first. -/
  | dropReservation (what : Placed) (dest : String)
  | rename (what : Placed) (dest : String)
  /-- The source could not be moved; on Windows the reservation may be gone. -/
  | checkReservation (dest : String)
  | reserveAgain (dest : String)
  | copy (dest : String)
  | checkStage (dest : String)
  | deleteStage (dest : String)
  | checkDest (dest : String)
  | deleteDest (dest : String)
  | deleteSource (dest : String)
  | done (dest : String)
  | failed
  deriving DecidableEq

/-- Whether the operation goes through, and what a copy that does not leaves in the stage. -/
structure Outcome where
  ok : Bool
  torn : Option (List UInt8)

abbrev Files := Disk String UInt8

def placeOnto (isWindows : Bool) (what : Placed) (dest : String) : Pc :=
  if isWindows then .dropReservation what dest else .rename what dest

/-- `placeOnto` has thrown. -/
def notPlaced (isWindows : Bool) (dest : String) : Placed → Pc
  | .source => if isWindows then .checkReservation dest else .copy dest
  | .stage => .checkStage dest

/-- `placeOnto` has returned. -/
def placed (c : Call) (dest : String) : Placed → Pc
  | .source => .done dest
  | .stage => if c.moveSource then .deleteSource dest else .done dest

def writeFile (disk : Files) (path : String) (content : List UInt8) : Files :=
  let opened := disk.openTruncate path
  opened.1.fill opened.2 content

/-- One await of a call, none when the call has ended. -/
def advance (P : PathRules) (isWindows : Bool) (c : Call) (disk : Files) (o : Outcome) :
    Pc → Option (Files × Pc)
  | .createDir => some (disk, if o.ok then .reserve 0 else .failed)
  | .reserve i =>
    let dest := candidate P c i
    if o.ok = true ∧ disk.entry dest = none then
      some (disk.create dest, if c.moveSource then placeOnto isWindows .source dest else .copy dest)
    else some (disk, .taken i)
  | .taken i =>
    if disk.entry (candidate P c i) ≠ none ∧ i + 1 < 10000 then some (disk, .reserve (i + 1))
    else some (disk, .failed)
  | .dropReservation what dest =>
    if o.ok = true ∧ disk.entry dest ≠ none then some (disk.unlink dest, .rename what dest)
    else some (disk, notPlaced isWindows dest what)
  | .rename what dest =>
    if o.ok = true ∧ disk.entry (what.path c dest) ≠ none then
      some (disk.rename (what.path c dest) dest, placed c dest what)
    else some (disk, notPlaced isWindows dest what)
  | .checkReservation dest =>
    if disk.entry dest ≠ none then some (disk, .copy dest) else some (disk, .reserveAgain dest)
  | .reserveAgain dest =>
    if o.ok = true ∧ disk.entry dest = none then some (disk.create dest, .copy dest)
    else some (disk, .failed)
  | .copy dest =>
    match o.ok, disk.entry c.source with
    | true, some file =>
      some (writeFile disk (stage c dest) (disk.content file), placeOnto isWindows .stage dest)
    | _, _ =>
      match o.torn with
      | none => some (disk, .checkStage dest)
      | some torn => some (writeFile disk (stage c dest) torn, .checkStage dest)
  | .checkStage dest =>
    if disk.entry (stage c dest) ≠ none then some (disk, .deleteStage dest)
    else some (disk, .checkDest dest)
  | .deleteStage dest =>
    some (if o.ok then disk.unlink (stage c dest) else disk, .checkDest dest)
  | .checkDest dest =>
    if disk.entry dest ≠ none then some (disk, .deleteDest dest) else some (disk, .failed)
  | .deleteDest dest => some (if o.ok then disk.unlink dest else disk, .failed)
  | .deleteSource dest => some (if o.ok then disk.unlink c.source else disk, .done dest)
  | .done _ => none
  | .failed => none

/-- Any number of calls at once. -/
structure State (ι : Type) where
  disk : Files
  pc : ι → Pc

variable {ι : Type}

def step [DecidableEq ι] (P : PathRules) (isWindows : Bool) (calls : ι → Call) (s : State ι) (label : ι × Outcome) :
    Option (State ι) :=
  (advance P isWindows (calls label.1) s.disk label.2 (s.pc label.1)).map fun next =>
    ⟨next.1, Function.update s.pc label.1 next.2⟩

def start (ι : Type) (disk : Files) : State ι := ⟨disk, fun _ => .createDir⟩

/-! ## What is kept -/

/-- The destination of a call that has one. -/
def destOf : Pc → Option String
  | .createDir => none
  | .reserve _ => none
  | .taken _ => none
  | .dropReservation _ dest => some dest
  | .rename _ dest => some dest
  | .checkReservation dest => some dest
  | .reserveAgain dest => some dest
  | .copy dest => some dest
  | .checkStage dest => some dest
  | .deleteStage dest => some dest
  | .checkDest dest => some dest
  | .deleteDest dest => some dest
  | .deleteSource dest => some dest
  | .done dest => some dest
  | .failed => none

/-- The stage of a call that may have one. -/
def stageOf (c : Call) : Pc → Option String
  | .rename .stage dest => some (stage c dest)
  | .checkStage dest => some (stage c dest)
  | .deleteStage dest => some (stage c dest)
  | _ => none

section
variable (calls : ι → Call) (before : Files)

/-- A call that moves the file of this name away has succeeded. -/
def Moved (s : State ι) (name : String) : Prop :=
  ∃ c dest, (calls c).source = name ∧ (calls c).moveSource = true ∧ s.pc c = .done dest

/-- The bytes the source of the call had. -/
def HasSource (c : Call) (disk : Files) (name : String) : Prop :=
  ∃ file source, disk.entry name = some file ∧ before.entry c.source = some source ∧
    disk.content file = before.content source

/-- What finalising promises of the files that were there before and of those it publishes. -/
structure Published (s : State ι) : Prop where
  kept : ∀ name file, before.entry name = some file →
    s.disk.entry name = some file ∧ s.disk.content file = before.content file ∨ Moved calls s name
  failed : ∀ c, s.pc c = .failed →
    HasSource before (calls c) s.disk (calls c).source ∨ Moved calls s (calls c).source
  distinct : ∀ c d dest, s.pc c = .done dest → s.pc d = .done dest → c = d
  done : ∀ c dest, s.pc c = .done dest → HasSource before (calls c) s.disk dest

/-- The names of a call; a call that has failed has none. -/
def Has (c : Call) (pc : Pc) (name : String) : Prop :=
  destOf pc = some name ∨ stageOf c pc = some name

/-- Every name that was not there before is the destination or the stage of a call that has not
    failed. -/
def Tidy (s : State ι) : Prop :=
  ∀ name file, s.disk.entry name = some file →
    before.entry name = some file ∨ ∃ c, Has (calls c) (s.pc c) name

end

/-- The stages are names of their own, and a source that several calls have is no destination. -/
structure Separate (P : PathRules) (calls : ι → Call) (before : Files) : Prop where
  sources : ∀ c, before.entry (calls c).source ≠ none
  newStage : ∀ c i, before.entry (stage (calls c) (candidate P (calls c) i)) = none
  stageOfNone : ∀ c d i j, stage (calls c) (candidate P (calls c) i) ≠ candidate P (calls d) j
  stagesApart : ∀ c d i j, c ≠ d →
    stage (calls c) (candidate P (calls c) i) ≠ stage (calls d) (candidate P (calls d) j)
  shared : ∀ c d, c ≠ d → (calls c).source = (calls d).source →
    ∀ e i, candidate P (calls e) i ≠ (calls c).source

end Tim2Tox.FinalizedFiles
