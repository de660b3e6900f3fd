import Tim2Tox.HistoryStore

set_option autoImplicit false

/-!
# Rows on their way to the files

A row moves from the cached list to the rows queued for the archive, to the archive and to the main
file. `P` marks the rows to follow. The operations of the lock are taken in order: what is owed when
the next one writes the main file must be in the rows it writes, in the batch it archives or in the
archive, and what an operation adds is owed to all that wait behind it.
-/
namespace Tim2Tox.HistoryStore
open ChatHistory ChatMessage

section
variable (P : ChatMessage → Prop)

def Has (rows : List ChatMessage) : Prop := ∃ r ∈ rows, P r

variable {P} {rows rows' : List ChatMessage}

theorem not_has_nil : ¬Has P [] := by
  rintro ⟨r, hr, -⟩
  exact List.not_mem_nil hr

theorem has_append : Has P (rows ++ rows') ↔ Has P rows ∨ Has P rows' := by
  unfold Has
  simp only [List.mem_append, or_and_right, exists_or]

theorem Has.mono (h : Has P rows) (hsub : ∀ r ∈ rows, r ∈ rows') : Has P rows' := by
  obtain ⟨r, hr, hP⟩ := h
  exact ⟨r, hsub r hr, hP⟩

theorem has_perm (hperm : rows.Perm rows') : Has P rows ↔ Has P rows' :=
  ⟨fun h => h.mono fun _ hr => hperm.mem_iff.mp hr, fun h => h.mono fun _ hr => hperm.mem_iff.mpr hr⟩

theorem Has.map {f : ChatMessage → ChatMessage} (hf : ∀ r, P r → P (f r)) (h : Has P rows) :
    Has P (rows.map f) := by
  obtain ⟨r, hr, hP⟩ := h
  exact ⟨f r, List.mem_map_of_mem hr, hf r hP⟩

theorem Has.filter {p : ChatMessage → Bool} (h : Has P rows) (hp : ∀ r ∈ rows, P r → p r = true) :
    Has P (rows.filter p) := by
  obtain ⟨r, hr, hP⟩ := h
  exact ⟨r, List.mem_filter.mpr ⟨hr, hp r hr hP⟩, hP⟩

end

/-! ## Rows under calls and loads -/

section
variable {P : ChatMessage → Prop} {sent : Option (String → Bool)}

theorem has_window {rows : List ChatMessage} {m : ChatMessage} :
    Has P (appendRow sent rows m) ↔
      Has P (appendWindow sent rows m).1 ∨ Has P (appendWindow sent rows m).2 := by
  obtain ⟨n, -, heq⟩ := appendWindow_eq sent rows m
  rw [heq, ← has_append, List.take_append_drop]

theorem window_ne_nil {rows : List ChatMessage} {m : ChatMessage} :
    (appendWindow sent rows m).2 ≠ [] := by
  obtain ⟨n, hlt, heq⟩ := appendWindow_eq sent rows m
  rw [heq]
  intro hnil
  have := List.drop_eq_nil_iff.mp hnil
  omega

theorem has_sorted {rows : List ChatMessage} :
    Has P (sortChatMessagesChronologically rows) ↔ Has P rows :=
  has_perm (List.perm_insertionSort _ _)

/-- Live rows stay. -/
theorem has_install_live {live : Option (List ChatMessage)} (messages : List ChatMessage)
    (deleted : String → Bool) (barrier : ℤ) (legacyLayout : Bool) (h : Has P (live.getD [])) :
    Has P ((installLoadedHistory live messages deleted barrier legacyLayout).cache.getD []) := by
  unfold installLoadedHistory
  dsimp only
  split_ifs with hlive hempty hnew
  · exact h
  · rw [hlive] at h
    exact absurd h not_has_nil
  · exact h
  · change Has P (sortChatMessagesChronologically _)
    rw [has_sorted, has_append]
    exact .inr h

/-- A row of the file that is not deleted comes in, or a live row stands for it. -/
theorem has_install_row {live : Option (List ChatMessage)} {messages : List ChatMessage}
    {deleted : String → Bool} {barrier : ℤ} {legacyLayout : Bool} {r : ChatMessage}
    (hr : r ∈ loadedRows deleted barrier messages) (hP : P r)
    (hlive : represented (live.getD []) r = true → Has P (live.getD [])) :
    Has P ((installLoadedHistory live messages deleted barrier legacyLayout).cache.getD []) := by
  unfold installLoadedHistory
  dsimp only
  by_cases hnil : live.getD [] = []
  · rw [if_pos hnil]
    by_cases hempty : loadedRows deleted barrier messages = []
    · rw [hempty] at hr
      exact absurd hr List.not_mem_nil
    · rw [if_neg hempty]
      exact ⟨r, hr, hP⟩
  · rw [if_neg hnil]
    by_cases hrep : represented (live.getD []) r = true
    · have hkept := hlive hrep
      split_ifs with hnew
      · exact hkept
      · change Has P (sortChatMessagesChronologically _)
        rw [has_sorted, has_append]
        exact .inr hkept
    · have hmem : r ∈ (loadedRows deleted barrier messages).filter
          fun m => !represented (live.getD []) m := by
        rw [List.mem_filter, Bool.not_eq_true']
        exact ⟨hr, Bool.eq_false_iff.mpr hrep⟩
      rw [if_neg (List.ne_nil_of_mem hmem)]
      change Has P (sortChatMessagesChronologically _)
      rw [has_sorted, has_append]
      exact .inl ⟨r, hmem, hP⟩

theorem has_install_file {live : Option (List ChatMessage)} {messages : List ChatMessage}
    {deleted : String → Bool} {barrier : ℤ} {legacyLayout : Bool}
    (h : Has P (loadedRows deleted barrier messages))
    (hlive : ∀ r, P r → represented (live.getD []) r = true → Has P (live.getD [])) :
    Has P ((installLoadedHistory live messages deleted barrier legacyLayout).cache.getD []) := by
  obtain ⟨r, hr, hP⟩ := h
  exact has_install_row hr hP (hlive r hP)

/-- A mark that only depends on the identities of a row outlives the steps of a load that do not
    merge. -/
theorem has_loaded (hsame : ∀ a b, identitiesOf a = identitiesOf b → P a → P b)
    {messages : List ChatMessage} {deleted : String → Bool} {barrier : ℤ}
    (h : Has P (dedupeByIdentity (messages.map notPending)))
    (hdeleted : ∀ r, P r → (identitiesOf r).any deleted = false) :
    Has P (loadedRows deleted barrier messages) := by
  unfold loadedRows
  refine Has.map (fun r hP => hsame r _ (reconcile_same barrier r).2.2.1.symm hP) ?_
  rw [has_sorted]
  unfold survivors
  refine h.filter fun r _ hP => ?_
  rw [hdeleted r hP]
  rfl

end
/-! ## The archive file -/

namespace ArchiveFile

variable {a : ArchiveFile} {batch : List ChatMessage}

theorem append_nil (a : ArchiveFile) : a.append [] = a := by
  unfold append
  split
  · rfl
  · contradiction
  · contradiction

/-- A file whose last line has its end takes whole lines. -/
theorem append_of_ended (h : a.tail = none) (batch : List ChatMessage) :
    a.append batch = { a with lines := a.lines ++ batch.map some } := by
  cases batch with
  | nil => rw [append_nil, List.map_nil, List.append_nil]
  | cons m batch =>
    unfold append
    rw [h]

theorem rows_append (h : a.tail = none) (hm : a.malformed = false) (batch : List ChatMessage) :
    (a.append batch).rows = a.rows ++ batch := by
  have hbatch : (batch.map some).reduceOption = batch := by
    rw [List.reduceOption, List.filterMap_map]
    exact List.filterMap_some
  rw [append_of_ended h]
  unfold rows
  simp [hm, h, List.reduceOption_append, hbatch]

theorem mem_rows_appendTorn {a' : ArchiveFile} {k : ℕ} {cut : Cut} (h : a.tail = none)
    (hm : a.malformed = false) (hcut : cut ≠ .insideChar) (heq : a.appendTorn batch k cut = some a')
    {r : ChatMessage} (hr : r ∈ a.rows) : r ∈ a'.rows := by
  have hended : (a.append (batch.take k)).tail = none := by
    rw [append_of_ended h]
    exact h
  have hread : (a.append (batch.take k)).malformed = false := by
    rw [append_of_ended h]
    exact hm
  have hmem : r ∈ (a.append (batch.take k)).lines.reduceOption := by
    have hrows := rows_append h hm (batch.take k)
    have : r ∈ (a.append (batch.take k)).rows := by
      rw [hrows]
      exact List.mem_append_left _ hr
    simpa [rows, hread, hended] using this
  unfold appendTorn at heq
  dsimp only at heq
  split at heq
  · obtain rfl := Option.some.inj heq
    simp [rows, hread, hmem]
  · obtain rfl := Option.some.inj heq
    simp [rows, hread, hmem]
  · obtain rfl := Option.some.inj heq
    simp [rows, hread, hmem]
  · contradiction
  · contradiction

theorem appendTorn_nothing (a : ArchiveFile) (batch : List ChatMessage) :
    a.appendTorn batch 0 .boundary = some a := by
  unfold appendTorn
  rw [List.take_zero, append_nil]

theorem mem_rows_without {hit : ChatMessage → Bool} (hm : a.malformed = false) {r : ChatMessage} :
    r ∈ (a.without hit).rows ↔ r ∈ a.rows ∧ hit r = false := by
  unfold without rows
  simp only [hm, Bool.false_eq_true, if_false, Option.join_none, Option.toList_none, List.append_nil,
    List.reduceOption_mem_iff, List.mem_filter, List.mem_append, Option.mem_toList, Option.any_some,
    Bool.not_eq_true', Option.join_eq_some_iff]

end ArchiveFile

/-! ## The operations in order -/

namespace Op

def isSave : Op → Bool
  | .save _ => true
  | _ => false

/-- The appends whose futures complete with the operation. -/
def waiters : Op → List Ticket
  | .save w => w.waiters
  | .drain waiters => waiters
  | _ => []

/-- The rows the operation would write to the main file. -/
def rows (cached : List ChatMessage) : Op → List ChatMessage
  | .save w => w.rows.getD cached
  | _ => []

/-- A save of a copy keeps its rows; a save of the cached list follows it. -/
theorem rows_carry {P : ChatMessage → Prop} {cached cached' : List ChatMessage} {X : Prop} (op : Op)
    (h : Has P cached → Has P cached' ∨ X) (hop : Has P (op.rows cached)) :
    Has P (op.rows cached') ∨ X := by
  cases op with
  | save w =>
    change Has P (w.rows.getD cached) at hop
    change Has P (w.rows.getD cached') ∨ X
    rcases hw : w.rows with _ | rows
    · rw [hw] at hop
      exact h hop
    · rw [hw] at hop
      exact .inl hop
  | _ => exact absurd hop not_has_nil

end Op

structure Rule where
  gives : Phase → Op → Prop
  cover : Phase → Op → Prop

/-- What is owed at the head of the queue and what its operations add holds at the end of it. -/
def Trail (R : Rule) : Prop → Phase → List Job → Prop → Prop
  | owed, _, [], last => owed → last
  | owed, phase, j :: js, last =>
    (j.op.isSave = true ∧ owed ∨ R.gives phase j.op → R.cover phase j.op) ∧
      Trail R (owed ∨ R.gives phase j.op) .waiting js last

namespace Trail

variable {R R' : Rule} {owed owed' last last' : Prop} {phase phase' : Phase} {js : List Job} {j : Job}

theorem imp (h : Trail R owed phase js last) (howed : owed' → owed) (hlast : last → last')
    (hgives : ∀ op, R'.gives .waiting op → R.gives .waiting op)
    (hcover : ∀ op, R.cover .waiting op → R'.cover .waiting op)
    (hgives₀ : ∀ j, js.head? = some j → R'.gives phase' j.op → R.gives phase j.op)
    (hcover₀ : ∀ j, js.head? = some j → R.cover phase j.op → R'.cover phase' j.op) :
    Trail R' owed' phase' js last' := by
  induction js generalizing owed owed' phase phase' with
  | nil => exact fun ho => hlast (h (howed ho))
  | cons j js ih =>
    obtain ⟨hj, htail⟩ := h
    refine ⟨fun ho => hcover₀ j rfl (hj ?_), ?_⟩
    · rcases ho with ⟨hsave, ho⟩ | hg
      · exact .inl ⟨hsave, howed ho⟩
      · exact .inr (hgives₀ j rfl hg)
    · refine ih htail ?_ (fun _ _ => hgives _) (fun _ _ => hcover _)
      rintro (ho | hg)
      · exact .inl (howed ho)
      · exact .inr (hgives₀ j rfl hg)

/-- The operation at the head is over. -/
theorem tail (h : Trail R owed phase (j :: js) last) :
    Trail R (owed ∨ R.gives phase j.op) .waiting js last := h.2

theorem head (h : Trail R owed phase (j :: js) last)
    (ho : j.op.isSave = true ∧ owed ∨ R.gives phase j.op) : R.cover phase j.op := h.1 ho

/-- An operation joins the queue; an empty queue has nothing under way. -/
theorem snoc (h : Trail R owed phase js last) (hidle : js = [] → phase = .waiting)
    (hlast : last ∨ R.gives .waiting j.op → last')
    (hcover : (j.op.isSave = true ∧ last) ∨ R.gives .waiting j.op → R.cover .waiting j.op) :
    Trail R owed phase (js ++ [j]) last' := by
  induction js generalizing owed phase with
  | nil =>
    rw [hidle rfl]
    refine ⟨fun ho => hcover ?_, fun ho => hlast ?_⟩
    · rcases ho with ⟨hsave, ho⟩ | hg
      · exact .inl ⟨hsave, h ho⟩
      · exact .inr hg
    · rcases ho with ho | hg
      · exact .inl (h ho)
      · exact .inr hg
  | cons i js ih => exact ⟨h.1, ih h.2 fun _ => rfl⟩

/-- Every operation has what could be owed. -/
theorem of_cover (hlast : last) (hcover : ∀ i ∈ js, i.op.isSave = true ∨ R.gives .waiting i.op →
    R.cover .waiting i.op) (hhead : ∀ i, js.head? = some i →
      i.op.isSave = true ∨ R.gives phase i.op → R.cover phase i.op) : Trail R owed phase js last := by
  induction js generalizing owed phase with
  | nil => exact fun _ => hlast
  | cons i js ih =>
    refine ⟨fun ho => hhead i rfl ?_, ih (fun k hk => hcover k (List.mem_cons_of_mem _ hk)) ?_⟩
    · rcases ho with ⟨hsave, -⟩ | hg
      · exact .inl hsave
      · exact .inr hg
    · intro k hk
      exact hcover k (List.mem_cons_of_mem _ (List.mem_of_mem_head? hk))

theorem of_none (howed : ¬owed) (hgives : ∀ j ∈ js, ¬R.gives .waiting j.op)
    (hhead : ∀ j, js.head? = some j → ¬R.gives phase j.op) : Trail R owed phase js last := by
  induction js generalizing owed phase with
  | nil => exact fun ho => absurd ho howed
  | cons j js ih =>
    have hj := hhead j rfl
    refine ⟨fun ho => ?_, ih ?_ (fun i hi => hgives i (List.mem_cons_of_mem _ hi)) fun i hi =>
      hgives i (List.mem_cons_of_mem _ (List.mem_of_mem_head? hi))⟩
    · rcases ho with ⟨-, ho⟩ | hg
      · exact absurd ho howed
      · exact absurd hg hj
    · rintro (ho | hg)
      · exact howed ho
      · exact hj hg

/-- Operations that write nothing and add nothing leave what is owed to the end. -/
theorem of_quiet (hquiet : ∀ j ∈ js, ¬R.gives .waiting j.op)
    (hsave : ∀ j ∈ js, j.op.isSave = false) (hlast : owed → last) : Trail R owed .waiting js last := by
  induction js generalizing owed with
  | nil => exact hlast
  | cons j js ih =>
    have hj := hquiet j (List.mem_cons_self ..)
    refine ⟨fun ho => ?_, ih (fun i hi => hquiet i (List.mem_cons_of_mem _ hi))
      (fun i hi => hsave i (List.mem_cons_of_mem _ hi)) fun ho => hlast (ho.resolve_right hj)⟩
    rcases ho with ⟨hs, -⟩ | hg
    · rw [hsave j (List.mem_cons_self ..)] at hs
      contradiction
    · exact absurd hg hj

end Trail

/-! ## What is followed -/

/-- What is owed to the files: the appends from a place in the log on that have completed, or what
    the main file holds. -/
inductive Kind where
  | appended (n : ℕ)
  | filed

/-- An append of the log from `n` on brought a marked row. -/
def Brought (P : ChatMessage → Prop) (n : ℕ) (tickets : List Ticket) : Prop :=
  ∃ t ∈ tickets, n ≤ t.number ∧ P t.message

theorem not_brought_nil {P : ChatMessage → Prop} {n : ℕ} : ¬Brought P n [] := by
  rintro ⟨t, ht, -⟩
  exact List.not_mem_nil ht

theorem brought_append {P : ChatMessage → Prop} {n : ℕ} {ts ts' : List Ticket} :
    Brought P n (ts ++ ts') ↔ Brought P n ts ∨ Brought P n ts' := by
  unfold Brought
  simp only [List.mem_append, or_and_right, exists_or]

namespace Store

def mainRows (s : Store) : List ChatMessage := (s.main.map HistoryFile.messages).getD []

section
variable (P : ChatMessage → Prop) (k : Kind) (s : Store)

def InMemory : Prop := Has P s.rows ∨ Has P s.pendingArchive ∨ Has P s.archive.rows

/-- What the operation under way, or one that waits, will leave to read. -/
def cover : Phase → Op → Prop
  | .draining batch _, op => Has P (op.rows s.rows) ∨ Has P batch ∨ Has P s.archive.rows
  | .encoded file, _ => Has P file.messages ∨ Has P s.archive.rows
  | .written file, _ => Has P file.messages ∨ Has P s.archive.rows
  | .replaced, _ => Has P s.mainRows ∨ Has P s.archive.rows
  | _, op => Has P (op.rows s.rows) ∨ Has P s.pendingArchive ∨ Has P s.archive.rows

/-- What the main file will hold once the operation has written it. -/
def writes : Phase → Op → Prop
  | .encoded file, _ => Has P file.messages
  | .written file, _ => Has P file.messages
  | .replaced, _ => False
  | _, op => Has P (op.rows s.rows)

def gives (phase : Phase) (op : Op) : Prop :=
  match k with
  | .appended n => Brought P n op.waiters
  | .filed => s.writes P phase op

def owed : Prop :=
  match k with
  | .appended n => Brought P n s.acked
  | .filed => Has P s.mainRows

def rule : Rule := ⟨s.gives P k, s.cover P⟩

end

/-- The queue of the lock in good order: nothing is under way when it is empty, no operation is
    stale and none clears, and the batch being archived heads the queue for the archive. -/
structure Orderly (s : Store) : Prop where
  idle : s.jobs = [] → s.phase = .waiting
  current : ∀ j ∈ s.jobs, j.token = s.gen ∧ ∀ n, j.op ≠ .clear n
  batch : ∀ rows gen, s.phase = .draining rows gen → gen = s.gen ∧ rows <+: s.pendingArchive

/-- The operations in order leave what is owed to read, and so does the memory once the cached list
    has the rows of the file. -/
structure Safe (P : ChatMessage → Prop) (k : Kind) (s : Store) : Prop where
  orderly : s.Orderly
  trail : Trail (s.rule P k) (s.owed P k) s.phase s.jobs (s.merged = true → s.InMemory P)

/-- No marked row is lost from the memory and the archive. -/
structure Carry (P : ChatMessage → Prop) (s u : Store) : Prop where
  rows : Has P s.rows → Has P u.rows ∨ Has P u.pendingArchive
  pending : Has P s.pendingArchive → Has P u.pendingArchive ∨ Has P u.archive.rows
  archive : Has P s.archive.rows → Has P u.archive.rows

variable {P : ChatMessage → Prop} {k : Kind} {s u : Store}

theorem Carry.inMemory (h : Carry P s u) (hs : s.InMemory P) : u.InMemory P := by
  rcases hs with hr | hp | ha
  · rcases h.rows hr with hr | hp
    · exact .inl hr
    · exact .inr (.inl hp)
  · exact .inr (h.pending hp)
  · exact .inr (.inr (h.archive ha))

theorem Carry.cover_waiting (h : Carry P s u) {op : Op} (hs : s.cover P .waiting op) :
    u.cover P .waiting op := by
  rcases hs with hr | hp | ha
  · rcases op.rows_carry h.rows hr with hr | hp
    · exact .inl hr
    · exact .inr (.inl hp)
  · exact .inr (h.pending hp)
  · exact .inr (.inr (h.archive ha))

/-! ## The queue -/

theorem Orderly.enqueue (h : s.Orderly) {op : Op} (hclear : ∀ n, op ≠ .clear n) :
    (s.enqueue op).Orderly := by
  refine ⟨fun hnil => absurd hnil (by simp [Store.enqueue]), fun j hj => ?_, h.batch⟩
  rcases List.mem_append.mp hj with hj | hj
  · exact h.current j hj
  · rw [List.mem_singleton.mp hj]
    exact ⟨rfl, hclear⟩

theorem Orderly.next (h : s.Orderly) : s.next.Orderly :=
  ⟨fun _ => rfl, fun j hj => h.current j (List.mem_of_mem_tail hj), fun _ _ hb => by contradiction⟩

/-- The queue stays as it is. -/
theorem Orderly.same (h : s.Orderly) (hjobs : u.jobs = s.jobs) (hphase : u.phase = s.phase)
    (hgen : u.gen = s.gen) (hpending : s.pendingArchive <+: u.pendingArchive) : u.Orderly := by
  refine ⟨fun hnil => ?_, fun j hj => ?_, fun rows gen hb => ?_⟩
  · rw [hphase]
    rw [hjobs] at hnil
    exact h.idle hnil
  · rw [hjobs] at hj
    rw [hgen]
    exact h.current j hj
  · rw [hphase] at hb
    obtain ⟨hg, hprefix⟩ := h.batch rows gen hb
    exact ⟨hg.trans hgen.symm, hprefix.trans hpending⟩

/-- An operation that saves, if it does, the cached list joins the queue. -/
theorem Safe.enqueue (h : s.Safe P k) {op : Op} (hclear : ∀ n, op ≠ .clear n)
    (hsave : op.isSave = true → s.merged = true ∧ op.rows s.rows = s.rows)
    (hgives : s.gives P k .waiting op → s.InMemory P ∧ s.cover P .waiting op) :
    (s.enqueue op).Safe P k := by
  refine ⟨h.orderly.enqueue hclear, ?_⟩
  refine Trail.snoc (j := ⟨op, s.gen⟩) h.trail h.orderly.idle ?_ ?_
  · rintro (hlast | hg) hmerged
    · exact hlast hmerged
    · exact (hgives hg).1
  · rintro (⟨hop, hlast⟩ | hg)
    · obtain ⟨hmerged, hrows⟩ := hsave hop
      change Has P (op.rows s.rows) ∨ _
      rw [hrows]
      exact hlast hmerged
    · exact (hgives hg).2

theorem owed_next : s.next.owed P k = s.owed P k := by
  cases k <;> rfl

/-- The operation at the head is over; what is owed then was owed before or is what it gave. -/
theorem Safe.over (h : s.Safe P k) {j : Job} (hhead : s.jobs.head? = some j) (hjobs : u.jobs = s.jobs.tail)
    (horderly : u.Orderly) (hphase : u.phase = .waiting) (hcarry : Carry P s u)
    (howed : u.owed P k → s.owed P k ∨ s.gives P k s.phase j.op)
    (hmerged : u.merged = true → s.merged = true)
    (hgives : ∀ op, u.gives P k .waiting op → s.gives P k .waiting op) : u.Safe P k := by
  refine ⟨horderly, ?_⟩
  obtain ⟨js, hs⟩ := List.head?_eq_some_iff.mp hhead
  have htrail := h.trail
  rw [hs] at htrail
  rw [hjobs, hs, hphase]
  exact htrail.tail.imp howed (fun hlast hm => hcarry.inMemory (hlast (hmerged hm))) hgives
    (fun _ => hcarry.cover_waiting) (fun i _ => hgives i.op) fun _ _ => hcarry.cover_waiting

/-- The operation at the head is over and has left nothing. -/
theorem Safe.next (h : s.Safe P k) : s.next.Safe P k := by
  rcases hjobs : s.jobs with _ | ⟨j, js⟩
  · refine ⟨h.orderly.next, ?_⟩
    have htrail := h.trail
    rw [hjobs] at htrail
    change Trail _ _ _ s.jobs.tail _
    rw [hjobs]
    exact fun ho => htrail (by rw [← owed_next]; exact ho)
  · refine h.over (u := s.next) (j := j) (by rw [hjobs]; rfl) rfl h.orderly.next rfl
      ⟨fun hr => .inl hr, fun hp => .inl hp, fun ha => ha⟩ (fun ho => .inl ?_) (fun hm => hm) ?_
    · rw [owed_next] at ho
      exact ho
    · cases k <;> exact fun _ hg => hg

/-- The queue stays and nothing marked is lost or gained. -/
theorem Safe.move (h : s.Safe P k) (horderly : u.Orderly) (hjobs : u.jobs = s.jobs)
    (hcarry : Carry P s u) (howed : u.owed P k → s.owed P k) (hmerged : u.merged = true → s.merged = true)
    (hgives : ∀ op, u.gives P k .waiting op → s.gives P k .waiting op)
    (hhead : ∀ j, s.jobs.head? = some j → (u.gives P k u.phase j.op → s.gives P k s.phase j.op) ∧
      (s.cover P s.phase j.op → u.cover P u.phase j.op)) : u.Safe P k := by
  refine ⟨horderly, ?_⟩
  rw [hjobs]
  exact h.trail.imp howed (fun hlast hm => hcarry.inMemory (hlast (hmerged hm))) hgives
    (fun _ => hcarry.cover_waiting) (fun j hj => (hhead j hj).1) fun j hj => (hhead j hj).2

/-- The operation under way goes on to a phase that writes the same and leaves as much to read. -/
theorem Safe.advance (h : s.Safe P k) {phase : Phase} {temp backup : FileState}
    (horderly : { s with phase, temp, backup }.Orderly)
    (hwrites : ∀ j, s.jobs.head? = some j → s.writes P phase j.op → s.writes P s.phase j.op)
    (hcover : ∀ j, s.jobs.head? = some j → s.cover P s.phase j.op → s.cover P phase j.op) :
    { s with phase, temp, backup }.Safe P k := by
  refine h.move (u := { s with phase, temp, backup }) horderly rfl
    ⟨fun hr => .inl hr, fun hp => .inl hp, fun ha => ha⟩ ?_ (fun hm => hm) ?_ fun j hj => ⟨?_, hcover j hj⟩
  · cases k <;> exact fun ho => ho
  · cases k <;> exact fun _ hg => hg
  · cases k with
    | appended n => exact fun hg => hg
    | filed => exact hwrites j hj

/-- An operation of the current generation does its work. -/
theorem startJob_current {j : Job} (h : j.token = s.gen) (ok backupOk : Bool) :
    s.startJob j ok backupOk = match j.op with
      | .save _ => { s with phase := .copying }
      | .load => (s.loadHistoryLocked ok backupOk).next
      | .archived => (s.readArchive ok).next
      | .removeRows ids cached r =>
        if ok && !s.archive.malformed then (s.removeRowsLocked ids cached r).next
        else { s.next with archiveCache := none }
      | .drain _ => { s with phase := .draining s.pendingArchive s.gen }
      | .clear _ => { s with main := none, phase := .mainGone } := by
  have hfresh : ¬j.token ≠ s.gen := fun hne => hne h
  unfold startJob
  cases j.op <;> simp only [if_neg hfresh]

theorem copy_shape {c : Copy} {v : Store} (h : s.copyToBackup c = some v) :
    ∃ backup, v = { s with backup } ∧ (backup = .malformed → s.backup = .malformed ∨ c = .malformed) := by
  unfold copyToBackup at h
  split at h
  · obtain rfl := Option.some.inj h
    exact ⟨s.backup, rfl, .inl⟩
  · contradiction
  · obtain rfl := Option.some.inj h
    exact ⟨_, rfl, fun hb => by contradiction⟩
  · obtain rfl := Option.some.inj h
    exact ⟨_, rfl, fun hb => by contradiction⟩
  · split_ifs at h
    obtain rfl := Option.some.inj h
    exact ⟨_, rfl, fun _ => .inr rfl⟩

/-! ## A load -/

/-- What a load can change. -/
theorem installLoaded_shape (s : Store) (messages : List ChatMessage) (legacyLayout : Bool) :
    ∃ lastView dirty returned debounce, s.installLoaded messages legacyLayout =
      { s with
        cache := (installLoadedHistory s.cache messages s.isDeleted (s.lastView.getD 0) legacyLayout).cache
        lastView, dirtyAfterLoad := dirty, returned, debounce } ∧
      debounce.getD [] = s.debounce.getD [] := by
  unfold installLoaded
  dsimp only
  split_ifs
  · exact ⟨_, _, _, _, rfl, List.append_nil _⟩
  · exact ⟨_, _, _, _, rfl, rfl⟩

/-- A load of the main file, of the backup or of nothing. -/
theorem load_shape (s : Store) (ok backupOk : Bool) :
    ∃ cache lastView dirty returned debounce merged, s.loadHistoryLocked ok backupOk =
      { s with cache, lastView, dirtyAfterLoad := dirty, returned, debounce, merged } ∧
      debounce.getD [] = s.debounce.getD [] ∧
      (cache = s.cache ∨ ∃ messages barrier legacyLayout,
        cache = (installLoadedHistory s.cache messages s.isDeleted barrier legacyLayout).cache) ∧
      (merged = s.merged ∨ merged = (s.merged || s.savesDone)) ∧
      (ok = true → merged = (s.merged || s.savesDone)) ∧
      (s.merged = false → merged = true → ∀ file, s.main = some file → ∃ barrier,
        cache = (installLoadedHistory s.cache file.messages s.isDeleted barrier false).cache) := by
  have hbackup : ∃ cache lastView dirty returned debounce, s.loadFromBackup backupOk =
      { s with cache, lastView, dirtyAfterLoad := dirty, returned, debounce } ∧
      debounce.getD [] = s.debounce.getD [] ∧
      (cache = s.cache ∨ ∃ messages barrier legacyLayout,
        cache = (installLoadedHistory s.cache messages s.isDeleted barrier legacyLayout).cache) := by
    unfold loadFromBackup
    split
    · split_ifs
      · rename_i file _ _
        obtain ⟨lastView, dirty, returned, debounce, heq, hd⟩ := installLoaded_shape
          { s with lastView := s.lastView.or (some file.lastViewTimestamp) } file.messages true
        exact ⟨_, lastView, dirty, returned, debounce, heq, hd, .inr ⟨_, _, _, rfl⟩⟩
      · exact ⟨_, _, _, _, _, rfl, rfl, .inl rfl⟩
    · exact ⟨_, _, _, _, _, rfl, rfl, .inl rfl⟩
  obtain ⟨cache, lastView, dirty, returned, debounce, heq, hd, hcache⟩ := hbackup
  unfold loadHistoryLocked
  split
  · rename_i hmain
    refine ⟨cache, lastView, dirty, returned, debounce, s.merged || s.savesDone, ?_, hd, hcache, .inr rfl,
      fun _ => rfl, ?_⟩
    · rw [heq]
    · intro _ _ file hfile
      rw [hmain] at hfile
      contradiction
  · rename_i file hmain
    split_ifs with hok
    · obtain ⟨lastView, dirty, returned, debounce, heq, hd⟩ := installLoaded_shape
        { s with lastView := some file.lastViewTimestamp, merged := s.merged || s.savesDone }
        file.messages false
      refine ⟨_, lastView, dirty, returned, debounce, _, heq, hd, .inr ⟨_, _, _, rfl⟩, .inr rfl, fun _ => rfl, ?_⟩
      intro _ _ file' hfile
      rw [hmain] at hfile
      obtain rfl := Option.some.inj hfile
      exact ⟨_, rfl⟩
    · refine ⟨cache, lastView, dirty, returned, debounce, s.merged, heq, hd, hcache, .inl rfl,
        fun hyes => absurd hyes hok, ?_⟩
      intro hno hyes
      rw [hno] at hyes
      contradiction

/-! ## A removal from the archive -/

theorem removeRows_shape (s : Store) (ids : List String) (cached : Bool) (r : Removal) :
    ∃ recentlyDeleted deleteSeq removals, s.removeRowsLocked ids cached r =
      { s.removeArchivedRows ids with recentlyDeleted, deleteSeq, removals } := by
  unfold removeRowsLocked
  dsimp only
  split_ifs <;> exact ⟨_, _, _, rfl⟩

theorem mem_removed_archive {ids : List String} (hread : s.archive.malformed = false) {m : ChatMessage} :
    m ∈ (s.removeArchivedRows ids).archive.rows ↔ m ∈ s.archive.rows ∧ hits ids m = false := by
  unfold removeArchivedRows
  dsimp only
  split_ifs with hany
  · exact ArchiveFile.mem_rows_without hread
  · rw [Bool.not_eq_true, List.any_eq_false] at hany
    exact ⟨fun hm => ⟨hm, Bool.eq_false_iff.mpr (hany m hm)⟩, fun hm => hm.1⟩

/-- The archive loses only the rows the ids name. -/
theorem carry_removeArchivedRows {ids : List String} (hread : s.archive.malformed = false)
    (hspare : ∀ m ∈ s.archive.rows ++ s.pendingArchive, P m → hits ids m = false) :
    Carry P s (s.removeArchivedRows ids) := by
  refine ⟨fun hr => .inl hr, fun hp => .inl ?_, fun ha => ?_⟩
  · exact hp.filter fun m hm hP => by rw [hspare m (List.mem_append_right _ hm) hP]; rfl
  · obtain ⟨m, hm, hP⟩ := ha
    exact ⟨m, (mem_removed_archive hread).mpr ⟨hm, hspare m (List.mem_append_left _ hm) hP⟩, hP⟩

/-! ## The archive takes a batch -/

section
variable {batch : List ChatMessage} {gen : ℕ}

theorem drainDone_archive : (s.drainDone batch gen).archive = s.archive.append batch := by
  unfold drainDone
  by_cases hnil : batch = []
  · rw [if_pos hnil, hnil, ArchiveFile.append_nil]
  · rw [if_neg hnil]

theorem drainDone_pending (hgen : gen = s.gen) :
    (s.drainDone batch gen).pendingArchive = s.pendingArchive.drop batch.length := by
  unfold drainDone
  by_cases hnil : batch = []
  · rw [if_pos hnil, hnil]
    rfl
  · rw [if_neg hnil]
    exact if_pos hgen

/-- The rest of the store does not change. -/
theorem drainDone_eq : s.drainDone batch gen =
    { s with
      archive := (s.drainDone batch gen).archive
      pendingArchive := (s.drainDone batch gen).pendingArchive
      archiveCache := (s.drainDone batch gen).archiveCache } := by
  unfold drainDone
  by_cases hnil : batch = []
  · rw [if_pos hnil]
  · rw [if_neg hnil]

theorem drainDone_rows : (s.drainDone batch gen).rows = s.rows := by
  rw [drainDone_eq]
  rfl

theorem has_batch (hended : batch ≠ [] → s.archive.tail = none ∧ s.archive.malformed = false)
    (hP : Has P batch ∨ Has P s.archive.rows) : Has P (s.drainDone batch gen).archive.rows := by
  rw [drainDone_archive]
  by_cases hnil : batch = []
  · rw [hnil, ArchiveFile.append_nil]
    rw [hnil] at hP
    exact hP.resolve_left not_has_nil
  · obtain ⟨htail, hread⟩ := hended hnil
    rw [ArchiveFile.rows_append htail hread, has_append]
    exact hP.symm

theorem carry_drainDone (hended : batch ≠ [] → s.archive.tail = none ∧ s.archive.malformed = false)
    (hgen : gen = s.gen) (hbatch : batch <+: s.pendingArchive) : Carry P s (s.drainDone batch gen) := by
  refine ⟨fun hr => .inl ?_, fun hp => ?_, fun ha => has_batch hended (.inr ha)⟩
  · rw [drainDone_rows]
    exact hr
  · obtain ⟨rest, hrest⟩ := hbatch
    rw [← hrest, has_append] at hp
    rcases hp with hp | hp
    · exact .inr (has_batch hended (.inl hp))
    · rw [drainDone_pending hgen, ← hrest, List.drop_left]
      exact .inl hp

/-- The batch is archived and the rows to write are fixed. -/
theorem Safe.drained (h : s.Safe P k) {w : Save} {token : ℕ}
    (hhead : s.jobs.head? = some ⟨.save w, token⟩) (hphase : s.phase = .draining batch gen)
    (hended : batch ≠ [] → s.archive.tail = none ∧ s.archive.malformed = false) :
    { s.drainDone batch gen with phase := .encoded ((s.drainDone batch gen).encode w) }.Safe P k := by
  obtain ⟨hgen, hbatch⟩ := h.orderly.batch batch gen hphase
  have hcarry := carry_drainDone (P := P) hended hgen hbatch
  have hrows : (s.drainDone batch gen).encode w =
      { lastViewTimestamp := s.lastView.getD 0, messages := (Op.save w).rows s.rows } := by
    rw [drainDone_eq]
    rfl
  rw [drainDone_eq] at hcarry hrows ⊢
  refine h.move (u := { s with
      archive := (s.drainDone batch gen).archive
      pendingArchive := (s.drainDone batch gen).pendingArchive
      archiveCache := (s.drainDone batch gen).archiveCache
      phase := _ }) ⟨fun hnil => ?_, h.orderly.current, fun _ _ hb => by contradiction⟩ rfl
    ⟨hcarry.rows, hcarry.pending, hcarry.archive⟩ ?_ (fun hm => hm) ?_ fun j hj => ?_
  · change s.jobs = [] at hnil
    rw [hnil] at hhead
    contradiction
  · cases k <;> exact fun ho => ho
  · cases k <;> exact fun _ hg => hg
  · rw [hhead] at hj
    obtain rfl := Option.some.inj hj
    rw [hrows, hphase]
    refine ⟨?_, fun hcover => ?_⟩
    · cases k <;> exact fun hg => hg
    · rcases hcover with hr | hP
      · exact .inl hr
      · exact .inr (has_batch hended hP)

/-- The file takes the place of the old one: what it holds is owed now. -/
theorem Safe.renamed (h : s.Safe P k) {w : Save} {token : ℕ} {file : HistoryFile}
    (hhead : s.jobs.head? = some ⟨.save w, token⟩) (hphase : s.phase = .written file) (seq : ℕ) :
    { s.clearTombstonesUpTo seq with
      main := some file, temp := .absent, phase := .replaced }.Safe P k := by
  obtain ⟨js, hs⟩ := List.head?_eq_some_iff.mp hhead
  refine ⟨⟨fun hnil => ?_, h.orderly.current, fun _ _ hb => by contradiction⟩, ?_⟩
  · change s.jobs = [] at hnil
    rw [hnil] at hhead
    contradiction
  · have htrail := h.trail
    rw [hs, hphase] at htrail
    change Trail _ _ _ s.jobs _
    rw [hs]
    cases k with
    | appended n =>
      refine htrail.imp (fun ho => ho) (fun hl => hl) (fun _ hg => hg) (fun _ hc => hc)
        (fun _ _ hg => hg) fun j hj hc => ?_
      exact hc
    | filed =>
      refine ⟨fun ho => ?_, ?_⟩
      · rcases ho with ⟨-, hmain⟩ | hg
        · exact .inl hmain
        · exact hg.elim
      · refine htrail.tail.imp ?_ (fun hl => hl) (fun _ hg => hg) (fun _ hc => hc)
          (fun _ _ hg => hg) fun _ _ hc => hc
        rintro (hmain | hg)
        · exact .inr hmain
        · exact hg.elim

end

end Store
end Tim2Tox.HistoryStore
