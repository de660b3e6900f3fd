import Tim2Tox.HistoryTrail
import Tim2Tox.LabelledRuns

set_option autoImplicit false

/-!
# Acknowledged rows are kept

Process lives that start with a load and then append, update, remove other rows and save, with saves
that fail and lives that end anywhere. An append that completed is in the main file or in the archive,
every save that waits has it or finds it archived, and the next life reads it, unless a write was cut
where the code cannot go on from it: inside a character, or in a line that the next append continues.
-/
namespace Tim2Tox.HistoryStore
open ChatHistory ChatMessage LabelledRuns

/-- The store of a process that has just started on these files. -/
def opened (main : Option HistoryFile) (temp backup : FileState) (archive : ArchiveFile) : Store :=
  { main, temp, backup, archive, merged := main = none }

/-! ## Runs -/

def carries (id : String) (r : ChatMessage) : Bool := id ∈ identitiesOf r

/-- Some row overflows the memory window. -/
def overflows (sent : Option (String → Bool)) (s : Store) (m : ChatMessage) : Bool :=
  (appendWindow sent s.rows m).1 ≠ []

/-- A save of the cached list itself has taken its batch for the archive and not yet its rows. -/
def listStillToRead (s : Store) : Bool :=
  match s.phase, s.jobs.head? with
  | .draining _ _, some ⟨.save w, _⟩ => w.rows = none
  | _, _ => false

/-- A life loads the conversation before its calls, loads read the file, and nothing clears. -/
def startsLoaded (s : Store) : Event → Bool
  | .append _ => s.merged
  | .update _ _ => s.merged
  | .remove _ => s.merged
  | .debounced => s.merged
  | .retried => s.merged
  | .flushDirty => s.merged
  | .flush => s.merged
  | .clear => false
  | .dropCache => false
  | .start ok _ => match s.jobs.head? with
    | some ⟨.load, _⟩ => ok
    | _ => true
  | _ => true

/-- No row with the identity is removed. -/
def removesOthers (id : String) (s : Store) : Event → Bool
  | .remove msgID => s.rows.all fun r => !idMatches r msgID || !carries id r
  | .start _ _ => match s.jobs.head? with
    | some ⟨.removeRows ids _ _, _⟩ =>
      (s.archive.rows ++ s.pendingArchive).all fun r => !Store.hits ids r || !carries id r
    | _ => true
  | _ => true

/-- A row with the identity goes into a row that has it: into the row an append or an update makes
    of it, into the rows a load or an archive read makes of the file, and no cached row without the
    identity is taken for an archived one. -/
def mergesKeep (sent : Option (String → Bool)) (id : String) (s : Store) : Event → Bool
  | .append m => (!s.rows.any (carries id) && !carries id m) || (appendRow sent s.rows m).any (carries id)
  | .update msgID u => !s.rows.any (carries id) || (updateRow sent s.rows msgID u).any (carries id)
  | .start _ _ => match s.jobs.head? with
    | some ⟨.load, _⟩ => !s.mainRows.any (carries id) ||
        (dedupeByIdentity (s.mainRows.map notPending)).any (carries id)
    | some ⟨.archived, _⟩ => !s.archive.rows.any (carries id) ||
        (dedupeByIdentity (s.archive.rows.map notPending)).any fun a => carries id a &&
          s.rows.all fun c => (identitiesOf a).all (· ∉ identitiesOf c) || carries id c
    | _ => true
  | _ => true

/-- No write is cut inside a character, the archive is not continued in a line without end, and no
    row overflows once a save of the cached list itself has taken its batch for the archive. -/
def cutsClean (sent : Option (String → Bool)) (s : Store) : Event → Bool
  | .append m => !(overflows sent s m && listStillToRead s)
  | .copied c => c ≠ .malformed
  | .drained => match s.phase with
    | .draining (_ :: _) _ => s.archive.tail = none && !s.archive.malformed
    | _ => true
  | .drainFailed k cut => (k = 0 && cut = .boundary) ||
      (s.archive.tail = none && !s.archive.malformed && cut ≠ .insideChar)
  | _ => true

/-! ## The invariant -/

namespace Store

/-- Every append whose future is open or done. -/
def tickets (s : Store) : List Ticket :=
  s.debounce.getD [] ++ (s.acked ++ s.jobs.flatMap fun j => j.op.waiters)

/-- Without the rows of the file in the cached list there is no list, and nothing to write or to
    remove has been called. -/
def Unread (s : Store) : Prop :=
  s.merged = false → s.cache = none ∧ s.recentlyDeleted = [] ∧ ∀ j ∈ s.jobs, j.op = .load ∨ j.op = .archived

/-- From the `n`-th call on: an append that completed is on disk and one that waits for the timer
    is cached. -/
structure Kept (P : ChatMessage → Prop) (n : ℕ) (s : Store) : Prop where
  safe : s.Safe P (.appended n)
  acked : Brought P n s.acked → Has P s.mainRows ∨ Has P s.archive.rows
  waiting : Brought P n (s.debounce.getD []) → Has P s.rows
  unread : s.Unread
  numbered : ∀ t ∈ s.tickets, t.number < s.log.length

/-- The step takes no marked row away and merges none into an unmarked one. -/
def HandsOn (P : ChatMessage → Prop) (sent : Option (String → Bool)) (s : Store) : Event → Prop
  | .append m => Has P s.rows ∨ P m → Has P (appendRow sent s.rows m)
  | .update msgID u => Has P s.rows → Has P (updateRow sent s.rows msgID u)
  | .remove msgID => ∀ r ∈ s.rows, P r → idMatches r msgID = false
  | .start _ _ => ∀ j, s.jobs.head? = some j →
      (j.op = .load → Has P s.mainRows → Has P (dedupeByIdentity (s.mainRows.map notPending))) ∧
      ∀ ids cached r, j.op = .removeRows ids cached r →
        ∀ m ∈ s.archive.rows ++ s.pendingArchive, P m → hits ids m = false
  | _ => True

variable {P : ChatMessage → Prop} {n : ℕ} {s u : Store}

/-- Before the call nothing of it is owed. -/
theorem Kept.of_short {Q : ChatMessage → Prop} {m : ℕ} (h : s.Kept Q m) (hlog : s.log.length ≤ n) :
    s.Kept P n := by
  have hnone : ∀ ts : List Ticket, (∀ t ∈ ts, t ∈ s.tickets) → ¬Brought P n ts := by
    rintro ts hts ⟨t, ht, hn, -⟩
    have := h.numbered t (hts t ht)
    omega
  have hacked : ¬Brought P n s.acked := hnone _ fun t ht =>
    List.mem_append_right _ (List.mem_append_left _ ht)
  have hgives : ∀ j ∈ s.jobs, ∀ phase, ¬s.gives P (.appended n) phase j.op := fun j hj _ =>
    hnone _ fun t ht => List.mem_append_right _ (List.mem_append_right _ (List.mem_flatMap.mpr ⟨j, hj, ht⟩))
  refine ⟨⟨h.safe.orderly, ?_⟩, fun ha => absurd ha hacked, fun hw => absurd hw ?_, h.unread, h.numbered⟩
  · exact Trail.of_none hacked (fun j hj => hgives j hj .waiting) fun j hj =>
      hgives j (List.mem_of_mem_head? hj) s.phase
  · exact hnone _ fun t ht => List.mem_append_left _ ht

theorem Kept.open (main : Option HistoryFile) (temp backup : FileState) (archive : ArchiveFile) :
    (opened main temp backup archive).Kept P n := by
  refine ⟨⟨⟨fun _ => rfl, fun j hj => absurd hj List.not_mem_nil, fun _ _ hb => by contradiction⟩,
    fun ho => absurd ho not_brought_nil⟩, fun ha => absurd ha not_brought_nil,
    fun hw => absurd hw not_brought_nil, fun _ => ⟨rfl, rfl, fun j hj => absurd hj List.not_mem_nil⟩,
    fun t ht => absurd ht List.not_mem_nil⟩

/-! ## Calls -/

theorem Kept.enqueue (h : s.Kept P n) {op : Op} (hclear : ∀ n, op ≠ .clear n)
    (hquiet : s.merged = false → op = .load ∨ op = .archived)
    (hsave : op.isSave = true → s.merged = true ∧ op.rows s.rows = s.rows)
    (hgives : Brought P n op.waiters → s.InMemory P ∧ s.cover P .waiting op)
    (hnumber : ∀ t ∈ op.waiters, t.number < s.log.length) : (s.enqueue op).Kept P n := by
  refine ⟨h.safe.enqueue hclear hsave hgives, h.acked, h.waiting, fun hm => ?_, fun t ht => ?_⟩
  · obtain ⟨hcache, hdeleted, hjobs⟩ := h.unread hm
    refine ⟨hcache, hdeleted, fun j hj => ?_⟩
    rcases List.mem_append.mp hj with hj | hj
    · exact hjobs j hj
    · rw [List.mem_singleton.mp hj]
      exact hquiet hm
  · unfold tickets Store.enqueue at ht
    rw [List.flatMap_append, List.mem_append, List.mem_append, List.mem_append] at ht
    rcases ht with ht | ht | ht | ht
    · exact h.numbered t (List.mem_append_left _ ht)
    · exact h.numbered t (List.mem_append_right _ (List.mem_append_left _ ht))
    · exact h.numbered t (List.mem_append_right _ (List.mem_append_right _ ht))
    · exact hnumber t (by simpa using ht)

/-- An operation that saves nothing and completes no append. -/
theorem Kept.enqueue_plain (h : s.Kept P n) {op : Op} (hclear : ∀ n, op ≠ .clear n)
    (hquiet : s.merged = false → op = .load ∨ op = .archived) (hsave : op.isSave = false)
    (hwaiters : op.waiters = []) : (s.enqueue op).Kept P n := by
  refine h.enqueue hclear hquiet (fun hs => ?_) (fun hg => ?_) fun t ht => ?_
  · rw [hsave] at hs
    contradiction
  · rw [hwaiters] at hg
    exact absurd hg not_brought_nil
  · rw [hwaiters] at ht
    exact absurd ht List.not_mem_nil

/-- Only a save of the list itself that has its batch depends on the cached rows alone. -/
theorem Carry.cover_head (h : Carry P s u) {j : Job} (hhead : s.jobs.head? = some j)
    (hmain : u.mainRows = s.mainRows) (hread : listStillToRead s = true → Has P s.rows → Has P u.rows)
    (hc : s.cover P s.phase j.op) : u.cover P s.phase j.op := by
  rcases hp : s.phase with _ | _ | ⟨batch, gen⟩ | file | file | _ | _ | _
  · rw [hp] at hc
    exact h.cover_waiting hc
  · rw [hp] at hc
    exact h.cover_waiting hc
  · rw [hp] at hc
    rcases hc with hr | hb | ha
    · rcases hop : j.op with w | _ | _ | ⟨ids, cached, r⟩ | waiters | called
      · rw [hop] at hr
        change Has P (w.rows.getD s.rows) at hr
        refine .inl ?_
        change Has P (w.rows.getD u.rows)
        rcases hw : w.rows with _ | rows
        · rw [hw] at hr
          refine hread ?_ hr
          obtain ⟨op, token⟩ := j
          obtain rfl : op = .save w := hop
          unfold listStillToRead
          rw [hp, hhead]
          exact decide_eq_true hw
        · rw [hw] at hr
          exact hr
      all_goals
        rw [hop] at hr
        exact absurd hr not_has_nil
    · exact .inr (.inl hb)
    · exact .inr (.inr (h.archive ha))
  · rw [hp] at hc
    exact hc.imp_right h.archive
  · rw [hp] at hc
    exact hc.imp_right h.archive
  · rw [hp] at hc
    refine hc.imp ?_ h.archive
    rw [hmain]
    exact fun hm => hm
  · rw [hp] at hc
    exact h.cover_waiting hc
  · rw [hp] at hc
    exact h.cover_waiting hc

/-- The cached list changes, rows may move to the queue for the archive, and nothing else does. -/
theorem Kept.edit (h : s.Kept P n) (hjobs : u.jobs = s.jobs) (hphase : u.phase = s.phase)
    (hmain : u.main = s.main) (harchive : u.archive = s.archive) (hacked : u.acked = s.acked)
    (hgen : u.gen = s.gen) (hmerged : u.merged = s.merged) (hpending : s.pendingArchive <+: u.pendingArchive)
    (hlog : s.log.length ≤ u.log.length)
    (hrows : Has P s.rows → Has P u.rows ∨ Has P u.pendingArchive)
    (hread : listStillToRead s = true → Has P s.rows → Has P u.rows)
    (hwaiting : Brought P n (u.debounce.getD []) → Has P u.rows)
    (hunread : u.merged = false → u.cache = none ∧ u.recentlyDeleted = [])
    (hnumber : ∀ t ∈ u.debounce.getD [], t.number < u.log.length) : u.Kept P n := by
  have hcarry : Carry P s u := by
    refine ⟨hrows, fun hp => .inl (hp.mono fun r hr => hpending.subset hr), fun ha => ?_⟩
    rw [harchive]
    exact ha
  have horderly := h.safe.orderly.same hjobs hphase hgen hpending
  refine ⟨h.safe.move horderly hjobs hcarry ?_ ?_ (fun _ hg => hg) fun j hj => ⟨fun hg => hg, ?_⟩, ?_,
    hwaiting, fun hm => ⟨(hunread hm).1, (hunread hm).2, ?_⟩, fun t ht => ?_⟩
  · change Brought P n u.acked → Brought P n s.acked
    rw [hacked]
    exact fun ho => ho
  · rw [hmerged]
    exact fun hm => hm
  · rw [hphase]
    have hsame : u.mainRows = s.mainRows := by
      unfold mainRows
      rw [hmain]
    exact hcarry.cover_head hj hsame hread
  · unfold mainRows
    rw [hacked, hmain, harchive]
    exact h.acked
  · rw [hmerged] at hm
    rw [hjobs]
    exact (h.unread hm).2.2
  · unfold tickets at ht
    rw [hacked, hjobs] at ht
    rcases List.mem_append.mp ht with ht | ht
    · exact hnumber t ht
    · exact Nat.lt_of_lt_of_le (h.numbered t (List.mem_append_right _ ht)) hlog

/-- A save that has nothing to write returns at once, and so does the timer without a list. -/
theorem Kept.acknowledge (h : s.Kept P n) {waiters : List Ticket} (hnone : ¬Brought P n waiters)
    (hnumber : ∀ t ∈ waiters, t.number < s.log.length) :
    { s with acked := s.acked ++ waiters }.Kept P n := by
  have hacked : Brought P n (s.acked ++ waiters) → Brought P n s.acked := by
    rw [brought_append]
    exact fun ho => ho.resolve_right hnone
  refine ⟨⟨h.safe.orderly.same rfl rfl rfl List.prefix_rfl, ?_⟩, fun ha => h.acked (hacked ha),
    h.waiting, h.unread, fun t ht => ?_⟩
  · exact h.safe.trail.imp hacked (fun hl => hl) (fun _ hg => hg) (fun _ hc => hc) (fun _ _ hg => hg)
      fun _ _ hc => hc
  · unfold tickets at ht
    rw [List.mem_append, List.mem_append, List.mem_append] at ht
    rcases ht with ht | (ht | ht) | ht
    · exact h.numbered t (List.mem_append_left _ ht)
    · exact h.numbered t (List.mem_append_right _ (List.mem_append_left _ ht))
    · exact hnumber t ht
    · exact h.numbered t (List.mem_append_right _ (List.mem_append_right _ ht))

theorem Kept.saveHistory (h : s.Kept P n) (hmerged : s.merged = true)
    {rows : Option (List ChatMessage)} (hrows : rows.getD s.rows = s.rows) {waiters : List Ticket}
    (hwaiters : Brought P n waiters → s.InMemory P) (hempty : s.rows = [] → ¬Brought P n waiters)
    (hnumber : ∀ t ∈ waiters, t.number < s.log.length) (removal : Option (Removal × List String)) :
    (s.saveHistory rows waiters removal).Kept P n := by
  have hquiet : ∀ {op : Op}, s.merged = false → op = .load ∨ op = .archived := by
    rw [hmerged]
    exact fun hm => by contradiction
  unfold Store.saveHistory
  dsimp only
  split_ifs with hnil
  · rw [Bool.and_eq_true, decide_eq_true_eq, hrows] at hnil
    have hack := h.acknowledge (hempty hnil.1) hnumber
    unfold complete
    rcases removal with _ | ⟨r, ids⟩
    · exact hack
    · exact hack.enqueue_plain (fun _ => by simp) hquiet rfl rfl
  · refine h.enqueue (fun _ => by simp) hquiet (fun _ => ⟨hmerged, hrows⟩) (fun hg => ?_) hnumber
    have hmem := hwaiters hg
    refine ⟨hmem, ?_⟩
    change Has P (rows.getD s.rows) ∨ _
    rw [hrows]
    exact hmem

theorem Kept.resaveCached (h : s.Kept P n) (hmerged : s.merged = true) {waiters : List Ticket}
    (hwaiters : Brought P n waiters → Has P s.rows)
    (hnumber : ∀ t ∈ waiters, t.number < s.log.length) : (s.resaveCached waiters).Kept P n := by
  have hempty : s.rows = [] → ¬Brought P n waiters := by
    intro hnil hb
    have := hwaiters hb
    rw [hnil] at this
    exact not_has_nil this
  unfold Store.resaveCached
  split
  · rename_i hnone
    refine h.acknowledge (hempty ?_) hnumber
    unfold rows
    rw [hnone]
    rfl
  · rename_i list hlist
    refine h.saveHistory hmerged ?_ (fun hb => .inl (hwaiters hb)) hempty hnumber none
    unfold rows
    rw [hlist]
    rfl

section
variable {sent : Option (String → Bool)}

/-- The timers, the barrier and what was returned are not looked at. -/
theorem Kept.aside (h : s.Kept P n) {lastView : Option ℤ} {retry dirty : Bool} {attempts : ℕ}
    {archiveCache : Option (List ChatMessage)} {removals : List Removal} {returned : List ChatMessage} :
    { s with
      lastView, retry, dirtyAfterLoad := dirty, attempts, archiveCache, removals, returned }.Kept P n :=
  h.edit rfl rfl rfl rfl rfl rfl rfl List.prefix_rfl (Nat.le_refl _) (fun hr => .inl hr)
    (fun _ hr => hr) h.waiting (fun hm => ⟨(h.unread hm).1, (h.unread hm).2.1⟩)
    fun t ht => h.numbered t (List.mem_append_left _ ht)

theorem Kept.append (h : s.Kept P n) (hmerged : s.merged = true) {m : ChatMessage}
    (hhands : Has P s.rows ∨ P m → Has P (appendRow sent s.rows m))
    (hclean : ¬(overflows sent s m = true ∧ listStillToRead s = true)) :
    (s.appendHistory sent m).Kept P n := by
  have hunread : s.merged = false → (some (appendWindow sent s.rows m).2 : Option (List ChatMessage)) = none ∧
      s.recentlyDeleted = [] := by
    rw [hmerged]
    exact fun hm => by contradiction
  have hold : ∀ t ∈ s.debounce.getD [], t.number < s.log.length := fun t ht =>
    h.numbered t (List.mem_append_left _ ht)
  have hall : Brought P n (s.debounce.getD [] ++ [⟨s.log.length, m⟩]) →
      Has P (appendRow sent s.rows m) := by
    rw [brought_append]
    rintro (hb | ⟨t, ht, -, hP⟩)
    · exact hhands (.inl (h.waiting hb))
    · rw [List.mem_singleton.mp ht] at hP
      exact hhands (.inr hP)
  have hnumber : ∀ t ∈ s.debounce.getD [] ++ [(⟨s.log.length, m⟩ : Ticket)],
      t.number < (s.log ++ [Entry.added m]).length := by
    intro t ht
    rw [List.length_append, List.length_singleton]
    rcases List.mem_append.mp ht with ht | ht
    · have := hold t ht
      omega
    · rw [List.mem_singleton.mp ht]
      exact Nat.lt_succ_self _
  have hmoved : Has P s.rows → Has P (appendWindow sent s.rows m).2 ∨
      Has P (s.pendingArchive ++ (appendWindow sent s.rows m).1) := by
    intro hr
    rcases has_window.mp (hhands (.inl hr)) with hgone | hkept
    · exact .inr (has_append.mpr (.inr hgone))
    · exact .inl hkept
  unfold appendHistory
  dsimp only
  by_cases hgone : (appendWindow sent s.rows m).1 = []
  · have hkept : Has P (appendRow sent s.rows m) → Has P (appendWindow sent s.rows m).2 := by
      rw [has_window, hgone]
      exact fun hw => hw.resolve_left not_has_nil
    rw [if_pos hgone]
    exact h.edit (u := Store.scheduleDebouncedSave _ _) rfl rfl rfl rfl rfl rfl rfl
      (List.prefix_append ..) (by simp [scheduleDebouncedSave]) hmoved
      (fun _ hr => hkept (hhands (.inl hr))) (fun hb => hkept (hall hb)) hunread hnumber
  · have hstill : ¬listStillToRead s = true := fun hl => hclean ⟨decide_eq_true hgone, hl⟩
    have hedit := h.edit (u := { s with
        cache := some (appendWindow sent s.rows m).2
        pendingArchive := s.pendingArchive ++ (appendWindow sent s.rows m).1
        log := s.log ++ [Entry.added m]
        debounce := none }) rfl rfl rfl rfl rfl rfl rfl (List.prefix_append ..)
      (by simp) hmoved (fun hl => absurd hl hstill) (fun hb => absurd hb not_brought_nil) hunread
      (fun t ht => absurd ht List.not_mem_nil)
    rw [if_neg hgone]
    refine hedit.saveHistory hmerged rfl (fun hb => ?_) (fun hnil => absurd hnil window_ne_nil) hnumber none
    rcases has_window.mp (hall hb) with hgone | hkept
    · exact .inr (.inl (has_append.mpr (.inr hgone)))
    · exact .inl hkept

theorem Kept.update (h : s.Kept P n) (hmerged : s.merged = true) {msgID : String} {updated : ChatMessage}
    (hhands : Has P s.rows → Has P (updateRow sent s.rows msgID updated)) :
    (s.updateMessage sent msgID updated).Kept P n := by
  unfold updateMessage
  split_ifs with hany
  · have hedit : { s with
        cache := some (updateRow sent s.rows msgID updated)
        log := s.log ++ [Entry.updated updated] }.Kept P n := by
      refine h.edit rfl rfl rfl rfl rfl rfl rfl List.prefix_rfl (by simp) (fun hr => .inl (hhands hr))
        (fun _ hr => hhands hr) (fun hb => hhands (h.waiting hb)) (fun hm => ?_) fun t ht => ?_
      · change s.merged = false at hm
        rw [hmerged] at hm
        contradiction
      · have := h.numbered t (List.mem_append_left _ ht)
        rw [List.length_append]
        omega
    exact hedit.saveHistory hmerged rfl (fun hb => absurd hb not_brought_nil)
      (fun _ => not_brought_nil) (fun t ht => absurd ht List.not_mem_nil) none
  · exact h

theorem Kept.remove (h : s.Kept P n) (hmerged : s.merged = true) {msgID : String}
    (hspare : ∀ r ∈ s.rows, P r → idMatches r msgID = false) : (s.removeMessage msgID).Kept P n := by
  have hrows : Has P s.rows → Has P (s.rows.filter fun m => !idMatches m msgID) := fun hr =>
    hr.filter fun r hr hP => by rw [hspare r hr hP]; rfl
  unfold removeMessage
  dsimp only
  split_ifs with hnil
  · refine h.enqueue_plain (fun _ => by simp) (fun hm => ?_) rfl rfl
    rw [hmerged] at hm
    contradiction
  · have hedit : ({ s with
        cache := some (s.rows.filter fun m => !idMatches m msgID)
        log := s.log ++ [Entry.removed (s.rows.filter (idMatches · msgID))] }.noteRemovedFromCache
          (s.rows.filter (idMatches · msgID))).Kept P n := by
      refine h.edit rfl rfl rfl rfl rfl rfl rfl List.prefix_rfl (by simp [noteRemovedFromCache])
        (fun hr => .inl (hrows hr)) (fun _ hr => hrows hr) (fun hb => hrows (h.waiting hb)) (fun hm => ?_)
        fun t ht => ?_
      · change s.merged = false at hm
        rw [hmerged] at hm
        contradiction
      · have := h.numbered t (List.mem_append_left _ ht)
        change t.number < (s.log ++ [Entry.removed _]).length
        rw [List.length_append]
        omega
    exact hedit.saveHistory hmerged rfl (fun hb => absurd hb not_brought_nil)
      (fun _ => not_brought_nil) (fun t ht => absurd ht List.not_mem_nil) _

/-- A timer is off: the appends that wait for it are handed to what is called now. -/
theorem Kept.timersOff (h : s.Kept P n) {retry dirty : Bool} :
    { s with debounce := none, retry, dirtyAfterLoad := dirty }.Kept P n :=
  h.edit rfl rfl rfl rfl rfl rfl rfl List.prefix_rfl (Nat.le_refl _) (fun hr => .inl hr)
    (fun _ hr => hr) (fun hb => absurd hb not_brought_nil)
    (fun hm => ⟨(h.unread hm).1, (h.unread hm).2.1⟩) fun _ ht => absurd ht List.not_mem_nil

theorem Kept.flush (h : s.Kept P n) (hmerged : s.merged = true) : s.flushConversation.Kept P n := by
  have hnumber : ∀ t ∈ s.debounce.getD [], t.number < s.log.length := fun t ht =>
    h.numbered t (List.mem_append_left _ ht)
  have hoff : { s with debounce := none, retry := false, dirtyAfterLoad := false }.Kept P n := h.timersOff
  unfold flushConversation
  dsimp only
  split_ifs with hdrain
  · simp only [Bool.and_eq_true, decide_eq_true_eq] at hdrain
    refine hoff.enqueue (fun _ => by simp) (fun hm => ?_) (fun hs => by contradiction) (fun hb => ?_) hnumber
    · change s.merged = false at hm
      rw [hmerged] at hm
      contradiction
    · have hr := h.waiting hb
      change Has P s.rows at hr
      rw [show s.rows = [] from hdrain.1.1] at hr
      exact absurd hr not_has_nil
  · exact hoff.resaveCached hmerged h.waiting hnumber

theorem Kept.crash (h : s.Kept P n) : s.crash.Kept P n := by
  refine ⟨⟨⟨fun _ => rfl, fun j hj => absurd hj List.not_mem_nil, fun _ _ hb => by contradiction⟩, ?_⟩,
    h.acked, fun hw => absurd hw not_brought_nil,
    fun _ => ⟨rfl, rfl, fun j hj => absurd hj List.not_mem_nil⟩, fun t ht => ?_⟩
  · intro ho hmerged
    have hnone : s.main = none := of_decide_eq_true hmerged
    rcases h.acked ho with hmain | harchive
    · unfold mainRows at hmain
      rw [hnone] at hmain
      exact absurd hmain not_has_nil
    · exact .inr (.inr harchive)
  · have hacked : t ∈ s.acked := by simpa [tickets, Store.crash] using ht
    exact h.numbered t (List.mem_append_right _ (List.mem_append_left _ hacked))

/-! ## The operation that holds the lock -/

theorem tickets_tail {t : Ticket} (ht : t ∈ s.jobs.tail.flatMap fun j => j.op.waiters) : t ∈ s.tickets := by
  obtain ⟨j, hj, ht⟩ := List.mem_flatMap.mp ht
  exact List.mem_append_right _
    (List.mem_append_right _ (List.mem_flatMap.mpr ⟨j, List.mem_of_mem_tail hj, ht⟩))

theorem Unread.next (h : s.Unread) : s.next.Unread := by
  intro hm
  obtain ⟨hcache, hdeleted, hjobs⟩ := h hm
  exact ⟨hcache, hdeleted, fun j hj => hjobs j (List.mem_of_mem_tail hj)⟩

theorem Kept.next (h : s.Kept P n) : s.next.Kept P n := by
  refine ⟨h.safe.next, h.acked, h.waiting, h.unread.next, fun t ht => h.numbered t ?_⟩
  rcases List.mem_append.mp ht with ht | ht
  · exact List.mem_append_left _ ht
  · rcases List.mem_append.mp ht with ht | ht
    · exact List.mem_append_right _ (List.mem_append_left _ ht)
    · exact tickets_tail ht

theorem Kept.fail (h : s.Kept P n) (op : Op) : (s.fail op).Kept P n := by
  cases op with
  | save w => exact h.next.aside
  | _ => exact h.next

/-- A save or a drain of the queue is under way: the list has the rows of the file. -/
theorem Kept.merged_of_head (h : s.Kept P n) {j : Job} (hhead : s.jobs.head? = some j)
    (hload : j.op ≠ .load) (harchived : j.op ≠ .archived) : s.merged = true := by
  by_contra hno
  have hjobs := (h.unread (Bool.eq_false_iff.mpr hno)).2.2
  rcases hjobs j (List.mem_of_mem_head? hhead) with heq | heq
  · exact hload heq
  · exact harchived heq

theorem savesDone_of_quiet (h : ∀ j ∈ s.jobs, j.op = .load ∨ j.op = .archived) : s.savesDone = true := by
  refine List.all_eq_true.mpr fun j hj => ?_
  rcases h j hj with heq | heq
  · rw [heq]
  · rw [heq]

/-- A load that reads brings the rows of the file, if the list has not got them. -/
theorem Kept.load (h : s.Kept P n) {j : Job} (hhead : s.jobs.head? = some j)
    (hsame : ∀ a b, identitiesOf a = identitiesOf b → P a → P b)
    (hmerge : Has P s.mainRows → Has P (dedupeByIdentity (s.mainRows.map notPending)))
    (backupOk : Bool) : (s.loadHistoryLocked true backupOk).next.Kept P n := by
  obtain ⟨cache, lastView, dirty, returned, debounce, merged, heq, hd, hcache, -, hread, hfile⟩ :=
    load_shape s true backupOk
  have hlive : Has P s.rows → Has P (cache.getD []) := by
    rcases hcache with rfl | ⟨messages, barrier, legacyLayout, rfl⟩
    · exact fun hr => hr
    · exact has_install_live messages s.isDeleted barrier legacyLayout
  have hmerged : merged = true := by
    rw [hread rfl]
    rcases hm : s.merged with _ | _
    · rw [savesDone_of_quiet (h.unread hm).2.2]
      rfl
    · rfl
  have hnumber : ∀ t ∈ debounce.getD [], t.number < s.log.length := by
    rw [hd]
    exact fun t ht => h.numbered t (List.mem_append_left _ ht)
  have htickets : ∀ t ∈ debounce.getD [] ++ (s.acked ++ s.jobs.tail.flatMap fun j => j.op.waiters),
      t.number < s.log.length := by
    intro t ht
    rcases List.mem_append.mp ht with ht | ht
    · exact hnumber t ht
    · rcases List.mem_append.mp ht with ht | ht
      · exact h.numbered t (List.mem_append_right _ (List.mem_append_left _ ht))
      · exact h.numbered t (tickets_tail ht)
  have hwaiting : Brought P n (debounce.getD []) → Has P (cache.getD []) := by
    rw [hd]
    exact fun hb => hlive (h.waiting hb)
  have horderly : ({ s with cache, lastView, dirtyAfterLoad := dirty, returned, debounce, merged }
      : Store).next.Orderly :=
    (h.safe.orderly.same (u := { s with cache, lastView, dirtyAfterLoad := dirty, returned, debounce, merged })
      rfl rfl rfl List.prefix_rfl).next
  rw [heq]
  refine ⟨⟨horderly, ?_⟩, h.acked, hwaiting, fun hm => ?_, htickets⟩
  · rcases hm : s.merged with _ | _
    · -- nothing but reads is queued: what has been acknowledged is in the file or in the archive
      have hjobs := (h.unread hm).2.2
      refine Trail.of_quiet (fun i hi hg => ?_) (fun i hi => ?_) fun ho _ => ?_
      · have hmem := List.mem_of_mem_tail (l := s.jobs) hi
        rcases hjobs i hmem with hi | hi
        · exact not_brought_nil (show Brought P n (Op.waiters .load) by rw [← hi]; exact hg)
        · exact not_brought_nil (show Brought P n (Op.waiters .archived) by rw [← hi]; exact hg)
      · have hmem := List.mem_of_mem_tail (l := s.jobs) hi
        rcases hjobs i hmem with hi | hi
        · rw [hi]
          rfl
        · rw [hi]
          rfl
      · rcases h.acked ho with hmain | harchive
        · refine .inl ?_
          rcases hs : s.main with _ | file
          · unfold mainRows at hmain
            rw [hs] at hmain
            exact absurd hmain not_has_nil
          · obtain ⟨barrier, rfl⟩ := hfile hm hmerged file hs
            have hrows : s.mainRows = file.messages := by
              unfold mainRows
              rw [hs]
              rfl
            rw [hrows] at hmerge hmain
            refine has_install_file (has_loaded hsame (hmerge hmain) fun r _ => ?_) fun r _ hrep => ?_
            · rw [List.any_eq_false]
              intro id _
              unfold isDeleted
              rw [(h.unread hm).2.1]
              simp
            · rw [(h.unread hm).1] at hrep
              contradiction
        · exact .inr (.inr harchive)
    · exact (h.safe.over (u := Store.next { s with cache, lastView, dirtyAfterLoad := dirty, returned, debounce, merged })
        hhead rfl horderly rfl ⟨fun hr => .inl (hlive hr), fun hp => .inl hp, fun ha => ha⟩
        (fun ho => .inl ho) (fun _ => hm) fun _ hg => hg).trail
  · change merged = false at hm
    rw [hmerged] at hm
    contradiction

theorem Kept.removeRows (h : s.Kept P n) {j : Job} (hhead : s.jobs.head? = some j) {ids : List String}
    {cached : Bool} {r : Removal} (hop : j.op = .removeRows ids cached r)
    (hread : s.archive.malformed = false)
    (hspare : ∀ m ∈ s.archive.rows ++ s.pendingArchive, P m → hits ids m = false) :
    (s.removeRowsLocked ids cached r).next.Kept P n := by
  have hmerged := h.merged_of_head hhead (by rw [hop]; simp) (by rw [hop]; simp)
  have hcarry := carry_removeArchivedRows hread hspare
  obtain ⟨deleted, seq, removals, heq⟩ := removeRows_shape s ids cached r
  rw [heq]
  refine ⟨h.safe.over (u := Store.next { s.removeArchivedRows ids with
      recentlyDeleted := deleted, deleteSeq := seq, removals }) hhead rfl
    ⟨fun _ => rfl, h.safe.orderly.next.current, fun _ _ hb => by contradiction⟩ rfl
    ⟨hcarry.rows, hcarry.pending, hcarry.archive⟩ (fun ho => .inl ho) (fun hm => hm) (fun _ hg => hg),
    fun ha => ?_, h.waiting, fun hm => ?_, fun t ht => ?_⟩
  · rcases h.acked ha with hm | ha
    · exact .inl hm
    · exact .inr (hcarry.archive ha)
  · change s.merged = false at hm
    rw [hmerged] at hm
    contradiction
  · have hlt : t.number < s.log.length := by
      rcases List.mem_append.mp ht with ht | ht
      · exact h.numbered t (List.mem_append_left _ ht)
      · rcases List.mem_append.mp ht with ht | ht
        · exact h.numbered t (List.mem_append_right _ (List.mem_append_left _ ht))
        · exact h.numbered t (tickets_tail ht)
    change t.number < (s.log ++ [Entry.removed _]).length
    rw [List.length_append]
    omega

/-- The phase of the operation under way changes, and with it only the files nothing is read from. -/
theorem Kept.advance (h : s.Kept P n) {j : Job} (hhead : s.jobs.head? = some j) {phase : Phase}
    {temp backup : FileState}
    (hbatch : ∀ rows gen, phase = .draining rows gen → gen = s.gen ∧ rows <+: s.pendingArchive)
    (hcover : s.cover P s.phase j.op → s.cover P phase j.op) :
    { s with phase, temp, backup }.Kept P n := by
  refine ⟨h.safe.move (u := { s with phase, temp, backup }) ⟨fun hnil => ?_, h.safe.orderly.current, hbatch⟩ rfl
    ⟨fun hr => .inl hr, fun hp => .inl hp, fun ha => ha⟩ (fun ho => ho) (fun hm => hm) (fun _ hg => hg)
    fun i hi => ⟨fun hg => hg, ?_⟩, h.acked, h.waiting, h.unread, h.numbered⟩
  · change s.jobs = [] at hnil
    rw [hnil] at hhead
    contradiction
  · rw [hhead] at hi
    obtain rfl := Option.some.inj hi
    exact hcover

theorem Kept.start (h : s.Kept P n) {j : Job} (hhead : s.jobs.head? = some j)
    (hwaiting : s.phase = .waiting) (hsame : ∀ a b, identitiesOf a = identitiesOf b → P a → P b)
    {ok backupOk : Bool} (hread : j.op = .load → ok = true)
    (hhands : s.HandsOn P sent (.start ok backupOk)) : (s.startJob j ok backupOk).Kept P n := by
  obtain ⟨hload, hremove⟩ := hhands j hhead
  obtain ⟨htoken, hclear⟩ := h.safe.orderly.current j (List.mem_of_mem_head? hhead)
  rw [startJob_current htoken]
  rcases hop : j.op with w | _ | _ | ⟨ids, cached, r⟩ | waiters | called
  · refine h.advance hhead (fun _ _ hb => by contradiction) fun hc => ?_
    rw [hwaiting] at hc
    exact hc
  · rw [hread hop]
    exact h.load hhead hsame (hload hop) backupOk
  · dsimp only [readArchive]
    split_ifs
    · exact h.aside.next
    · exact h.aside.next
  · dsimp only
    split_ifs with hok
    · rw [Bool.and_eq_true, Bool.not_eq_true'] at hok
      exact h.removeRows hhead hop hok.2 (hremove ids cached r hop)
    · exact h.next.aside
  · refine h.advance hhead (fun rows gen hb => ?_) fun hc => ?_
    · obtain ⟨rfl, rfl⟩ := Phase.draining.inj hb
      exact ⟨rfl, List.prefix_rfl⟩
    · rw [hwaiting] at hc
      exact hc
  · exact absurd hop (hclear called)

/-- The archive holds more than before. -/
theorem Kept.archiveGrows (h : s.Kept P n) {archive : ArchiveFile}
    (hmono : Has P s.archive.rows → Has P archive.rows) : { s with archive }.Kept P n := by
  have hcarry : Carry P s { s with archive } := ⟨fun hr => .inl hr, fun hp => .inl hp, hmono⟩
  refine ⟨h.safe.move (u := { s with archive }) (h.safe.orderly.same rfl rfl rfl List.prefix_rfl) rfl hcarry
    (fun ho => ho) (fun hm => hm) (fun _ hg => hg) fun j _ => ⟨fun hg => hg, ?_⟩, fun ha => ?_, h.waiting,
    h.unread, h.numbered⟩
  · change s.cover P s.phase j.op → Store.cover P { s with archive } s.phase j.op
    rcases s.phase with _ | _ | ⟨batch, gen⟩ | file | file | _ | _ | _
    · exact hcarry.cover_waiting
    · exact hcarry.cover_waiting
    · rintro (hr | hb | ha)
      · exact .inl hr
      · exact .inr (.inl hb)
      · exact .inr (.inr (hmono ha))
    · exact fun hc => hc.imp_right hmono
    · exact fun hc => hc.imp_right hmono
    · exact fun hc => hc.imp_right hmono
    · exact hcarry.cover_waiting
    · exact hcarry.cover_waiting
  · exact (h.acked ha).imp_right hmono

theorem Kept.drained (h : s.Kept P n) {w : Save} {token gen : ℕ} {batch : List ChatMessage}
    (hhead : s.jobs.head? = some ⟨.save w, token⟩) (hphase : s.phase = .draining batch gen)
    (hended : batch ≠ [] → s.archive.tail = none ∧ s.archive.malformed = false) :
    { s.drainDone batch gen with phase := .encoded ((s.drainDone batch gen).encode w) }.Kept P n := by
  have hsafe := h.safe.drained hhead hphase hended
  have hacked : Brought P n s.acked → Has P s.mainRows ∨ Has P (s.drainDone batch gen).archive.rows :=
    fun ha => (h.acked ha).imp_right fun ha => has_batch hended (.inr ha)
  rw [drainDone_eq] at hsafe ⊢
  exact ⟨hsafe, hacked, h.waiting, h.unread, h.numbered⟩

/-- The queue for the archive alone is written. -/
theorem Kept.drainedAlone (h : s.Kept P n) {waiters : List Ticket} {token gen : ℕ}
    {batch : List ChatMessage} (hhead : s.jobs.head? = some ⟨.drain waiters, token⟩)
    (hphase : s.phase = .draining batch gen)
    (hended : batch ≠ [] → s.archive.tail = none ∧ s.archive.malformed = false) :
    { (s.drainDone batch gen).next with
      acked := (s.drainDone batch gen).acked ++ waiters }.Kept P n := by
  obtain ⟨hgen, hbatch⟩ := h.safe.orderly.batch batch gen hphase
  have hcarry := carry_drainDone (P := P) hended hgen hbatch
  have harchive : Has P s.archive.rows → Has P (s.drainDone batch gen).archive.rows := hcarry.archive
  have hgiven : Brought P n waiters → Has P (s.drainDone batch gen).archive.rows := by
    intro hb
    obtain ⟨js, hs⟩ := List.head?_eq_some_iff.mp hhead
    have htrail := h.safe.trail
    rw [hs, hphase] at htrail
    rcases htrail.head (.inr hb) with hr | hP
    · exact absurd hr not_has_nil
    · exact has_batch hended hP
  have hwaiters : ∀ t ∈ waiters, t ∈ s.tickets := fun t ht =>
    List.mem_append_right _ (List.mem_append_right _
      (List.mem_flatMap.mpr ⟨_, List.mem_of_mem_head? hhead, ht⟩))
  rw [drainDone_eq] at hcarry ⊢
  refine ⟨h.safe.over (u := { Store.next { s with
        archive := (s.drainDone batch gen).archive
        pendingArchive := (s.drainDone batch gen).pendingArchive
        archiveCache := (s.drainDone batch gen).archiveCache } with acked := s.acked ++ waiters })
      hhead rfl ⟨fun _ => rfl, h.safe.orderly.next.current, fun _ _ hb => by contradiction⟩ rfl
      ⟨hcarry.rows, hcarry.pending, hcarry.archive⟩ (fun ho => ?_) (fun hm => hm) (fun _ hg => hg),
    fun ha => ?_, h.waiting, h.unread.next, fun t ht => ?_⟩
  · exact brought_append.mp ho
  · rcases brought_append.mp ha with ha | hb
    · exact (h.acked ha).imp_right harchive
    · exact .inr (hgiven hb)
  · refine h.numbered t ?_
    rcases List.mem_append.mp ht with ht | ht
    · exact List.mem_append_left _ ht
    · rcases List.mem_append.mp ht with ht | ht
      · rcases List.mem_append.mp ht with ht | ht
        · exact List.mem_append_right _ (List.mem_append_left _ ht)
        · exact hwaiters t ht
      · exact tickets_tail ht

theorem Kept.renamed (h : s.Kept P n) {w : Save} {token : ℕ} {file : HistoryFile}
    (hhead : s.jobs.head? = some ⟨.save w, token⟩) (hphase : s.phase = .written file) :
    { s.clearTombstonesUpTo w.deleteSeqAtStart with
      main := some file, temp := .absent, phase := .replaced }.Kept P n := by
  have hmerged := h.merged_of_head hhead (by simp) (by simp)
  refine ⟨h.safe.renamed hhead hphase _, fun ha => ?_, h.waiting, fun hm => ?_, h.numbered⟩
  · obtain ⟨js, hs⟩ := List.head?_eq_some_iff.mp hhead
    have htrail := h.safe.trail
    rw [hs, hphase] at htrail
    exact htrail.head (.inl ⟨rfl, ha⟩)
  · change s.merged = false at hm
    rw [hmerged] at hm
    contradiction

/-- The save returns: what it stood for is in the file it wrote or in the archive. -/
theorem Kept.finished (h : s.Kept P n) {w : Save} {token : ℕ}
    (hhead : s.jobs.head? = some ⟨.save w, token⟩) (hphase : s.phase = .replaced) :
    (Store.complete { s.next with backup := .absent, attempts := 0, retry := false } w).Kept P n := by
  have hmerged := h.merged_of_head hhead (by simp) (by simp)
  have hgiven : Brought P n w.waiters → Has P s.mainRows ∨ Has P s.archive.rows := by
    intro hb
    obtain ⟨js, hs⟩ := List.head?_eq_some_iff.mp hhead
    have htrail := h.safe.trail
    rw [hs, hphase] at htrail
    exact htrail.head (.inr hb)
  have hwaiters : ∀ t ∈ w.waiters, t ∈ s.tickets := fun t ht =>
    List.mem_append_right _ (List.mem_append_right _
      (List.mem_flatMap.mpr ⟨_, List.mem_of_mem_head? hhead, ht⟩))
  have hack : { s.next with
      backup := .absent, attempts := 0, retry := false, acked := s.acked ++ w.waiters }.Kept P n := by
    refine ⟨h.safe.over (u := { s.next with
        backup := .absent, attempts := 0, retry := false, acked := s.acked ++ w.waiters }) hhead rfl
      ⟨fun _ => rfl, h.safe.orderly.next.current, fun _ _ hb => by contradiction⟩ rfl
      ⟨fun hr => .inl hr, fun hp => .inl hp, fun ha => ha⟩ (fun ho => ?_) (fun hm => hm) (fun _ hg => hg),
      fun ha => ?_, h.waiting, h.unread.next, fun t ht => ?_⟩
    · exact brought_append.mp ho
    · rcases brought_append.mp ha with ha | hb
      · exact h.acked ha
      · exact hgiven hb
    · refine h.numbered t ?_
      rcases List.mem_append.mp ht with ht | ht
      · exact List.mem_append_left _ ht
      · rcases List.mem_append.mp ht with ht | ht
        · rcases List.mem_append.mp ht with ht | ht
          · exact List.mem_append_right _ (List.mem_append_left _ ht)
          · exact hwaiters t ht
        · exact tickets_tail ht
  unfold complete
  rcases w.removal with _ | ⟨r, ids⟩
  · exact hack
  · refine hack.enqueue_plain (fun _ => by simp) (fun hm => ?_) rfl rfl
    change s.merged = false at hm
    rw [hmerged] at hm
    contradiction

/-! ## Every step -/

theorem Kept.jobStep (sent : Option (String → Bool)) (h : s.Kept P n) {j : Job} (hhead : s.jobs.head? = some j)
    (hsame : ∀ a b, identitiesOf a = identitiesOf b → P a → P b) {e : Event} (he : s.jobStep j e = some u)
    (hstart : startsLoaded s e = true) (hclean : cutsClean sent s e = true) (hhands : s.HandsOn P sent e) :
    u.Kept P n := by
  obtain ⟨op, token⟩ := j
  cases e with
  | refused =>
    simp only [Store.jobStep] at he
    split_ifs at he
    obtain rfl := Option.some.inj he
    exact h.fail op
  | start ok backupOk =>
    simp only [Store.jobStep] at he
    split_ifs at he with hphase hbad
    · obtain rfl := Option.some.inj he
      exact h.fail op
    · obtain rfl := Option.some.inj he
      refine h.start hhead (not_not.mp hphase) hsame (fun hop => ?_) hhands
      obtain rfl : op = .load := hop
      unfold startsLoaded at hstart
      rw [hhead] at hstart
      exact hstart
  | copied c =>
    simp only [Store.jobStep] at he
    split_ifs at he with hphase
    obtain ⟨v, hv, rfl⟩ := Option.map_eq_some_iff.mp he
    obtain ⟨backup, rfl, -⟩ := copy_shape hv
    refine h.advance hhead (fun rows gen hb => ?_) fun hc => ?_
    · obtain ⟨rfl, rfl⟩ := Phase.draining.inj hb
      exact ⟨rfl, List.prefix_rfl⟩
    · rw [hphase] at hc
      exact hc
  | drained =>
    have hended : ∀ batch gen, s.phase = .draining batch gen → batch ≠ [] →
        s.archive.tail = none ∧ s.archive.malformed = false := by
      intro batch gen hphase hne
      unfold cutsClean at hclean
      rw [hphase] at hclean
      obtain ⟨m, batch, rfl⟩ := List.exists_cons_of_ne_nil hne
      simpa using hclean
    simp only [Store.jobStep] at he
    split at he
    · rename_i batch gen w hphase
      obtain rfl := Option.some.inj he
      exact h.drained hhead hphase (hended batch gen hphase)
    · rename_i batch gen waiters hphase
      obtain rfl := Option.some.inj he
      exact h.drainedAlone hhead hphase (hended batch gen hphase)
    · contradiction
  | drainFailed k cut =>
    simp only [Store.jobStep] at he
    split at he
    · rename_i batch gen hphase
      split_ifs at he
      obtain ⟨archive, harchive, rfl⟩ := Option.map_eq_some_iff.mp he
      refine (h.archiveGrows fun ha => ?_).fail op
      unfold cutsClean at hclean
      simp only [Bool.or_eq_true, Bool.and_eq_true, decide_eq_true_eq, Bool.not_eq_true'] at hclean
      rcases hclean with ⟨rfl, rfl⟩ | ⟨⟨htail, hread⟩, hcut⟩
      · rw [ArchiveFile.appendTorn_nothing] at harchive
        rw [← Option.some.inj harchive]
        exact ha
      · exact ha.mono fun r hr => ArchiveFile.mem_rows_appendTorn htail hread hcut harchive hr
    · contradiction
  | tempWritten ok =>
    simp only [Store.jobStep] at he
    split at he
    · rename_i file hphase
      split_ifs at he
      · obtain rfl := Option.some.inj he
        refine h.advance hhead (fun _ _ hb => by contradiction) fun hc => ?_
        rw [hphase] at hc
        exact hc
      · obtain rfl := Option.some.inj he
        exact (h.advance hhead h.safe.orderly.batch fun hc => hc).fail op
    · contradiction
  | renamed ok =>
    simp only [Store.jobStep] at he
    split at he
    · rename_i file w hphase
      split_ifs at he
      · obtain rfl := Option.some.inj he
        exact h.renamed hhead hphase
      · obtain rfl := Option.some.inj he
        exact h.fail _
    · contradiction
  | finished =>
    simp only [Store.jobStep] at he
    split at he
    · rename_i w hphase
      obtain rfl := Option.some.inj he
      exact h.finished hhead hphase
    · contradiction
  | backupDeleted =>
    simp only [Store.jobStep] at he
    split_ifs at he with hphase
    obtain rfl := Option.some.inj he
    refine h.advance hhead (fun _ _ hb => by contradiction) fun hc => ?_
    rw [hphase] at hc
    exact hc
  | archiveDeleted =>
    simp only [Store.jobStep] at he
    split at he
    · exact absurd rfl ((h.safe.orderly.current _ (List.mem_of_mem_head? hhead)).2 _)
    · contradiction
  | _ => contradiction

theorem Kept.step (h : s.Kept P n) (hsame : ∀ a b, identitiesOf a = identitiesOf b → P a → P b)
    {e : Event} (hstart : startsLoaded s e = true) (hclean : cutsClean sent s e = true)
    (hhands : s.HandsOn P sent e) (he : s.step sent e = some u) : u.Kept P n := by
  have hs : { s with returned := [] }.Kept P n := h.aside
  cases e with
  | append m =>
    obtain rfl := Option.some.inj he
    refine hs.append hstart hhands fun hboth => ?_
    unfold cutsClean at hclean
    rw [Bool.not_eq_true', Bool.and_eq_false_iff] at hclean
    rcases hclean with hno | hno
    · exact Bool.false_ne_true (hno.symm.trans hboth.1)
    · exact Bool.false_ne_true (hno.symm.trans hboth.2)
  | update msgID updated =>
    obtain rfl := Option.some.inj he
    exact hs.update hstart hhands
  | remove msgID =>
    obtain rfl := Option.some.inj he
    exact hs.remove hstart hhands
  | clear => contradiction
  | load =>
    obtain rfl := Option.some.inj he
    exact hs.enqueue_plain (fun _ => by simp) (fun _ => .inl rfl) rfl rfl
  | archived =>
    obtain rfl := Option.some.inj he
    unfold loadArchivedHistory
    split
    · exact hs.aside
    · exact hs.enqueue_plain (fun _ => by simp) (fun _ => .inr rfl) rfl rfl
  | dropCache => contradiction
  | debounced =>
    obtain ⟨waiters, hw, rfl⟩ := Option.map_eq_some_iff.mp he
    have hwaiters : s.debounce.getD [] = waiters := by
      rw [show s.debounce = some waiters from hw]
      rfl
    refine hs.timersOff.resaveCached hstart ?_ ?_
    · rw [← hwaiters]
      exact h.waiting
    · rw [← hwaiters]
      exact fun t ht => h.numbered t (List.mem_append_left _ ht)
  | retried =>
    simp only [Store.step, act] at he
    split_ifs at he
    obtain rfl := Option.some.inj he
    have hoff : { s with returned := [], retry := false }.Kept P n := h.aside
    exact hoff.resaveCached hstart (fun hb => absurd hb not_brought_nil)
      fun t ht => absurd ht List.not_mem_nil
  | flushDirty =>
    simp only [Store.step, act] at he
    split_ifs at he
    obtain rfl := Option.some.inj he
    unfold flushDirtyAfterLoad
    dsimp only
    split
    · exact hs.aside
    · rename_i list hlist
      have hoff : { s with returned := [], dirtyAfterLoad := false }.Kept P n := h.aside
      refine hoff.saveHistory hstart ?_ (fun hb => absurd hb not_brought_nil)
        (fun _ => not_brought_nil) (fun t ht => absurd ht List.not_mem_nil) none
      unfold Store.rows
      exact (congrArg (Option.getD · []) hlist).symm
  | flush =>
    obtain rfl := Option.some.inj he
    exact hs.flush hstart
  | crash =>
    obtain rfl := Option.some.inj he
    exact hs.crash
  | _ =>
    obtain ⟨j, hj, he⟩ := Option.bind_eq_some_iff.mp he
    exact Kept.jobStep sent hs hj hsame he hstart hclean hhands

/-- A step logs at most one call and leaves the backup readable. -/
def Frame (s u : Store) : Prop :=
  u.log.length ≤ s.log.length + 1 ∧ (u.backup = .malformed → s.backup = .malformed)

theorem Frame.of_eq (hlog : u.log = s.log) (hbackup : u.backup = s.backup) : Frame s u := by
  refine ⟨?_, fun hb => hbackup.symm.trans hb⟩
  rw [hlog]
  exact Nat.le_succ _

theorem Frame.of_call {entry : Entry} (hlog : u.log = s.log ++ [entry]) (hbackup : u.backup = s.backup) :
    Frame s u := by
  refine ⟨?_, fun hb => hbackup.symm.trans hb⟩
  rw [hlog, List.length_append, List.length_singleton]

theorem complete_frame (s : Store) (w : Save) :
    (s.complete w).log = s.log ∧ (s.complete w).backup = s.backup := by
  unfold complete
  rcases w.removal with _ | ⟨r, ids⟩ <;> exact ⟨rfl, rfl⟩

theorem saveHistory_frame (s : Store) (rows : Option (List ChatMessage)) (waiters : List Ticket)
    (removal : Option (Removal × List String)) : (s.saveHistory rows waiters removal).log = s.log ∧
      (s.saveHistory rows waiters removal).backup = s.backup := by
  unfold Store.saveHistory
  dsimp only
  split_ifs
  · exact complete_frame s _
  · exact ⟨rfl, rfl⟩

theorem resaveCached_frame (s : Store) (waiters : List Ticket) :
    (s.resaveCached waiters).log = s.log ∧ (s.resaveCached waiters).backup = s.backup := by
  unfold Store.resaveCached
  split
  · exact ⟨rfl, rfl⟩
  · exact saveHistory_frame ..

theorem fail_frame (s : Store) (op : Op) : Frame s (s.fail op) := by
  cases op <;> exact Frame.of_eq rfl rfl

theorem startJob_frame (s : Store) (j : Job) (ok backupOk : Bool) : Frame s (s.startJob j ok backupOk) := by
  unfold startJob
  rcases j.op with w | _ | _ | ⟨ids, cached, r⟩ | waiters | called <;> dsimp only
  · split_ifs
    · exact Frame.of_eq (complete_frame s.next w).1 (complete_frame s.next w).2
    · exact Frame.of_eq rfl rfl
  · split_ifs
    · exact Frame.of_eq rfl rfl
    · obtain ⟨_, _, _, _, _, _, heq, -⟩ := load_shape s ok backupOk
      rw [heq]
      exact Frame.of_eq rfl rfl
  · unfold readArchive
    split_ifs <;> exact Frame.of_eq rfl rfl
  · obtain ⟨_, _, _, heq⟩ := removeRows_shape s ids cached r
    rw [heq]
    split_ifs
    · exact Frame.of_eq rfl rfl
    · exact Frame.of_eq rfl rfl
    · exact Frame.of_call rfl rfl
    · exact Frame.of_eq rfl rfl
  · split_ifs <;> exact Frame.of_eq rfl rfl
  · exact Frame.of_eq rfl rfl

theorem jobStep_frame {j : Job} {e : Event} (he : s.jobStep j e = some u)
    (hcopy : e ≠ .copied .malformed) : Frame s u := by
  have hdrain : ∀ batch gen, (s.drainDone batch gen).log = s.log ∧
      (s.drainDone batch gen).backup = s.backup := fun batch gen => by
    rw [drainDone_eq]
    exact ⟨rfl, rfl⟩
  cases e <;> simp only [Store.jobStep] at he <;> try contradiction
  case start ok backupOk =>
    split_ifs at he
    · rw [← Option.some.inj he]
      exact fail_frame s j.op
    · rw [← Option.some.inj he]
      exact startJob_frame s j ok backupOk
  case copied c =>
    split_ifs at he
    obtain ⟨v, hv, rfl⟩ := Option.map_eq_some_iff.mp he
    obtain ⟨backup, rfl, hbackup⟩ := copy_shape hv
    refine ⟨Nat.le_succ _, fun hb => (hbackup hb).resolve_right fun hc => ?_⟩
    rw [hc] at hcopy
    exact hcopy rfl
  case drained =>
    split at he
    · rename_i batch gen w _ _
      rw [← Option.some.inj he]
      exact Frame.of_eq (hdrain batch gen).1 (hdrain batch gen).2
    · rename_i batch gen waiters _ _
      rw [← Option.some.inj he]
      exact Frame.of_eq (hdrain batch gen).1 (hdrain batch gen).2
    · contradiction
  case drainFailed k cut =>
    split at he
    · split_ifs at he
      obtain ⟨archive, -, rfl⟩ := Option.map_eq_some_iff.mp he
      exact fail_frame { s with archive } j.op
    · contradiction
  case refused =>
    split_ifs at he
    rw [← Option.some.inj he]
    exact fail_frame s j.op
  case tempWritten ok =>
    split at he
    · split_ifs at he
      · rw [← Option.some.inj he]
        exact Frame.of_eq rfl rfl
      · rw [← Option.some.inj he]
        exact fail_frame { s with temp := .torn } j.op
    · contradiction
  case renamed ok =>
    split at he
    · split_ifs at he
      · rw [← Option.some.inj he]
        exact Frame.of_eq rfl rfl
      · rw [← Option.some.inj he]
        exact fail_frame s _
    · contradiction
  case finished =>
    split at he
    · rename_i w _ _
      rw [← Option.some.inj he]
      have hframe := complete_frame { s.next with backup := .absent, attempts := 0, retry := false } w
      refine ⟨?_, fun hb => ?_⟩
      · rw [hframe.1]
        exact Nat.le_succ _
      · rw [hframe.2] at hb
        contradiction
    · contradiction
  case backupDeleted =>
    split_ifs at he
    rw [← Option.some.inj he]
    exact ⟨Nat.le_succ _, fun hb => by contradiction⟩
  case archiveDeleted =>
    split at he
    · rw [← Option.some.inj he]
      exact Frame.of_eq rfl rfl
    · contradiction

theorem step_frame {e : Event} (he : s.step sent e = some u) (hcopy : e ≠ .copied .malformed) :
    Frame s u := by
  cases e with
  | append m =>
    obtain rfl := Option.some.inj he
    unfold appendHistory
    dsimp only
    split_ifs
    · exact Frame.of_call rfl rfl
    · exact Frame.of_call (saveHistory_frame ..).1 (saveHistory_frame ..).2
  | update msgID updated =>
    obtain rfl := Option.some.inj he
    unfold updateMessage
    split_ifs
    · exact Frame.of_call (saveHistory_frame ..).1 (saveHistory_frame ..).2
    · exact Frame.of_eq rfl rfl
  | remove msgID =>
    obtain rfl := Option.some.inj he
    unfold removeMessage
    dsimp only
    split_ifs
    · exact Frame.of_eq rfl rfl
    · exact Frame.of_call (saveHistory_frame ..).1 (saveHistory_frame ..).2
  | archived =>
    obtain rfl := Option.some.inj he
    unfold loadArchivedHistory
    split <;> exact Frame.of_eq rfl rfl
  | debounced =>
    obtain ⟨waiters, -, rfl⟩ := Option.map_eq_some_iff.mp he
    exact Frame.of_eq (resaveCached_frame ..).1 (resaveCached_frame ..).2
  | retried =>
    simp only [Store.step, act] at he
    split_ifs at he
    obtain rfl := Option.some.inj he
    exact Frame.of_eq (resaveCached_frame ..).1 (resaveCached_frame ..).2
  | flushDirty =>
    simp only [Store.step, act] at he
    split_ifs at he
    obtain rfl := Option.some.inj he
    unfold flushDirtyAfterLoad
    dsimp only
    split
    · exact Frame.of_eq rfl rfl
    · exact Frame.of_eq (saveHistory_frame ..).1 (saveHistory_frame ..).2
  | flush =>
    obtain rfl := Option.some.inj he
    unfold flushConversation
    dsimp only
    split_ifs
    · exact Frame.of_eq rfl rfl
    · exact Frame.of_eq (resaveCached_frame ..).1 (resaveCached_frame ..).2
  | clear =>
    obtain rfl := Option.some.inj he
    exact Frame.of_eq rfl rfl
  | load =>
    obtain rfl := Option.some.inj he
    exact Frame.of_eq rfl rfl
  | dropCache =>
    obtain rfl := Option.some.inj he
    exact Frame.of_eq rfl rfl
  | crash =>
    obtain rfl := Option.some.inj he
    exact Frame.of_eq rfl rfl
  | _ =>
    obtain ⟨j, -, he⟩ := Option.bind_eq_some_iff.mp he
    have hframe := jobStep_frame he hcopy
    exact hframe

end

/-! ## The next life -/

/-- The process dies, and the next one loads the conversation. -/
def nextLoad : List Event := [.crash, .load, .start true true]

def nextArchived : List Event := [.archived, .start true true]

/-- The store when the next life reads the file. -/
def reopened (s : Store) : Store := { s.crash with jobs := [⟨.load, 0⟩] }

theorem exec_nextLoad (sent : Option (String → Bool)) (hbackup : s.backup ≠ .malformed) :
    exec (Store.step sent) s nextLoad = some (s.reopened.loadHistoryLocked true true).next := by
  have hstart : Store.step sent s.reopened (.start true true) =
      some (s.reopened.loadHistoryLocked true true).next := by
    change (if ¬(Phase.waiting = Phase.waiting) then none else if s.backup = .malformed then _ else _) = _
    rw [if_neg (not_not.mpr rfl), if_neg hbackup]
    rfl
  exact exec_cons.mpr ⟨s.crash, rfl, exec_cons.mpr ⟨s.reopened, rfl,
    exec_cons.mpr ⟨_, hstart, rfl⟩⟩⟩

/-- A load into no list returns what it installs. -/
theorem returned_load (hcache : s.cache = none) (hreturned : s.returned = []) (ok backupOk : Bool) :
    (s.loadHistoryLocked ok backupOk).returned = (s.loadHistoryLocked ok backupOk).rows := by
  have hinstall : ∀ (u : Store) messages legacyLayout, u.cache = none →
      (u.installLoaded messages legacyLayout).returned = (u.installLoaded messages legacyLayout).rows := by
    intro u messages legacyLayout hu
    unfold installLoaded installLoadedHistory
    rw [hu]
    dsimp only
    split_ifs <;> rfl
  have hbackup : (s.loadFromBackup backupOk).returned = (s.loadFromBackup backupOk).rows := by
    have hnothing : s.returned = s.rows := by
      unfold rows
      rw [hreturned, hcache]
      rfl
    unfold loadFromBackup
    split
    · split_ifs
      · exact hinstall _ _ _ hcache
      · exact hnothing
    · exact hnothing
  unfold loadHistoryLocked
  split
  · exact hbackup
  · split_ifs
    · exact hinstall _ _ _ hcache
    · exact hbackup

end Store

/-- The condition of the run: a life loads before its calls, and no write is cut where the code
    cannot go on from it; from the `n`-th call on the row is neither removed nor merged away. -/
def keepsRow (sent : Option (String → Bool)) (id : String) (n : ℕ) (s : Store) (e : Event) : Prop :=
  startsLoaded s e = true ∧ cutsClean sent s e = true ∧
    (n ≤ s.log.length → removesOthers id s e = true ∧ mergesKeep sent id s e = true)

instance (sent : Option (String → Bool)) (id : String) (n : ℕ) (s : Store) (e : Event) :
    Decidable (keepsRow sent id n s e) := inferInstanceAs (Decidable (_ ∧ _ ∧ (_ → _ ∧ _)))

section
variable {sent : Option (String → Bool)} {id : String} {n : ℕ} {s u : Store} {e : Event}

theorem carries_eq_false {r : ChatMessage} : carries id r = false ↔ id ∉ identitiesOf r :=
  decide_eq_false_iff_not

theorem any_carries {rows : List ChatMessage} :
    rows.any (carries id) = true ↔ Has (fun r => id ∈ identitiesOf r) rows := by
  unfold Has carries
  simp only [List.any_eq_true, decide_eq_true_eq]

theorem handsOn_carries (hspare : removesOthers id s e = true) (hmerge : mergesKeep sent id s e = true) :
    s.HandsOn (fun r => id ∈ identitiesOf r) sent e := by
  cases e with
  | append m =>
    intro hP
    simp only [mergesKeep, Bool.or_eq_true, Bool.and_eq_true, Bool.not_eq_true'] at hmerge
    rcases hmerge with ⟨hrows, hm⟩ | hmerge
    · rcases hP with hr | hm'
      · exact absurd (any_carries.mpr hr) (by rw [hrows]; simp)
      · exact absurd hm' (carries_eq_false.mp hm)
    · exact any_carries.mp hmerge
  | update msgID updated =>
    intro hr
    simp only [mergesKeep, Bool.or_eq_true, Bool.not_eq_true'] at hmerge
    rcases hmerge with hrows | hmerge
    · exact absurd (any_carries.mpr hr) (by rw [hrows]; simp)
    · exact any_carries.mp hmerge
  | remove msgID =>
    intro r hr hP
    have hall := List.all_eq_true.mp hspare r hr
    rw [Bool.or_eq_true, Bool.not_eq_true', Bool.not_eq_true'] at hall
    exact hall.resolve_right fun hno => absurd hP (carries_eq_false.mp hno)
  | start ok backupOk =>
    rintro ⟨op, token⟩ hj
    refine ⟨fun hop hr => ?_, fun ids cached r hop m hm hP => ?_⟩
    · obtain rfl : op = .load := hop
      simp only [mergesKeep, hj, Bool.or_eq_true, Bool.not_eq_true'] at hmerge
      rcases hmerge with hrows | hmerge
      · exact absurd (any_carries.mpr hr) (by rw [hrows]; simp)
      · exact any_carries.mp hmerge
    · obtain rfl : op = .removeRows ids cached r := hop
      simp only [removesOthers, hj] at hspare
      have hall := List.all_eq_true.mp hspare m hm
      rw [Bool.or_eq_true, Bool.not_eq_true', Bool.not_eq_true'] at hall
      exact hall.resolve_right fun hno => absurd hP (carries_eq_false.mp hno)
  | _ => trivial

theorem handsOn_nothing : s.HandsOn (fun _ => False) sent e := by
  have hnone : ∀ rows, ¬Has (fun _ => False) rows := fun rows ⟨_, _, hF⟩ => hF
  cases e with
  | append m => exact fun hP => hP.elim (fun hr => absurd hr (hnone _)) False.elim
  | update msgID updated => exact fun hr => absurd hr (hnone _)
  | remove msgID => exact fun _ _ hF => hF.elim
  | start ok backupOk => exact fun j _ => ⟨fun _ hr => absurd hr (hnone _), fun _ _ _ _ _ _ hF => hF.elim⟩
  | _ => trivial

/-- The invariant along a run. -/
structure Followed (id : String) (n : ℕ) (s : Store) : Prop where
  plain : s.Kept (fun _ => False) 0
  kept : s.Kept (fun r => id ∈ identitiesOf r) n
  readable : s.backup ≠ .malformed

theorem Followed.step (h : Followed id n s) (hcond : keepsRow sent id n s e)
    (he : s.step sent e = some u) : Followed id n u := by
  obtain ⟨hstart, hclean, hrow⟩ := hcond
  have hcopy : e ≠ .copied .malformed := by
    rintro rfl
    simp [cutsClean] at hclean
  have hframe := Store.step_frame he hcopy
  have hplain := h.plain.step (fun _ _ _ hF => hF) hstart hclean handsOn_nothing he
  refine ⟨hplain, ?_, fun hb => h.readable (hframe.2 hb)⟩
  by_cases hlog : n ≤ s.log.length
  · obtain ⟨hspare, hmerge⟩ := hrow hlog
    exact h.kept.step (fun a b heq hP => heq ▸ hP) hstart hclean (handsOn_carries hspare hmerge) he
  · have := hframe.1
    exact hplain.of_short (by omega)

theorem Followed.open {main : Option HistoryFile} {temp backup : FileState} {archive : ArchiveFile}
    (hbackup : backup ≠ .malformed) : Followed id n (opened main temp backup archive) :=
  ⟨Store.Kept.open main temp backup archive, Store.Kept.open main temp backup archive, hbackup⟩

/-- The archive of the next life shows the row, or the cached list has it. -/
theorem archived_returns {u : Store} (hjobs : u.jobs = []) (hphase : u.phase = .waiting) (hgen : u.gen = 0)
    (hbackup : u.backup ≠ .malformed) (hcache : u.archiveCache = none) (hpending : u.pendingArchive = [])
    (hdeleted : u.recentlyDeleted = []) (hlog : n ≤ u.log.length)
    (hmeets : Meets (Store.step sent) (keepsRow sent id n) u Store.nextArchived) :
    ∃ v, exec (Store.step sent) u Store.nextArchived = some v ∧
      (Has (fun r => id ∈ identitiesOf r) u.archive.rows →
        Has (fun r => id ∈ identitiesOf r) u.rows ∨ Has (fun r => id ∈ identitiesOf r) v.returned) := by
  let w : Store := { u with returned := [], jobs := [⟨.archived, 0⟩] }
  have hcall : Store.step sent u .archived = some w := by
    have hmiss : Store.loadArchivedHistory { u with returned := [] } =
        Store.enqueue { u with returned := [] } .archived := by
      unfold Store.loadArchivedHistory
      split
      · rename_i rows hrows
        rw [show u.archiveCache = some rows from hrows] at hcache
        contradiction
      · rfl
    change some (Store.loadArchivedHistory { u with returned := [] }) = _
    rw [hmiss]
    simp only [Store.enqueue, hjobs, hgen, List.nil_append, w]
  have hstart : Store.step sent w (.start true true) = some (w.readArchive true).next := by
    change (if ¬(u.phase = .waiting) then none else if u.backup = .malformed then _ else
      some (Store.startJob w ⟨.archived, 0⟩ true true)) = _
    rw [if_neg (not_not.mpr hphase), if_neg hbackup, Store.startJob_current hgen.symm]
  have hmerge := ((hmeets.2 w hcall).1.2.2 hlog).2
  refine ⟨_, exec_cons.mpr ⟨w, hcall, exec_cons.mpr ⟨_, hstart, rfl⟩⟩, fun hP => ?_⟩
  have hread : u.archive.malformed = false := by
    by_contra hbad
    unfold ArchiveFile.rows at hP
    rw [if_pos (by simpa using hbad)] at hP
    exact not_has_nil hP
  simp only [mergesKeep, w, List.head?_cons, Bool.or_eq_true, Bool.not_eq_true'] at hmerge
  rcases hmerge with hno | hmerge
  · exact absurd (any_carries.mpr hP) (by rw [hno]; simp)
  · obtain ⟨a, ha, hfound⟩ := List.any_eq_true.mp hmerge
    rw [Bool.and_eq_true, List.all_eq_true] at hfound
    by_cases hhidden : ∃ c ∈ u.rows, ∃ x ∈ identitiesOf a, x ∈ identitiesOf c
    · obtain ⟨c, hc, x, hxa, hxc⟩ := hhidden
      have hall := hfound.2 c hc
      rw [Bool.or_eq_true, List.all_eq_true] at hall
      refine .inl ⟨c, hc, ?_⟩
      rcases hall with hall | hcarries
      · exact absurd hxc (of_decide_eq_true (hall x hxa))
      · exact of_decide_eq_true hcarries
    · refine .inr ⟨a, ?_, of_decide_eq_true hfound.1⟩
      have hview : ((w.readArchive true).next).returned =
          w.archivedView (sortChatMessagesChronologically
            (dedupeByIdentity (u.archive.rows.map notPending))) := by
        unfold Store.readArchive
        rw [show w.archive.malformed = false from hread]
        rfl
      rw [hview]
      unfold Store.archivedView
      rw [show w.pendingArchive = [] from hpending, if_pos rfl, List.mem_filter]
      refine ⟨(List.mem_insertionSort _).mpr ha, ?_⟩
      rw [Bool.not_eq_true', List.any_eq_false]
      intro x hx
      rw [Bool.or_eq_true, not_or]
      refine ⟨?_, fun hany => ?_⟩
      · unfold Store.isDeleted
        rw [show w.recentlyDeleted = [] from hdeleted]
        simp
      · obtain ⟨c, hc, hxc⟩ := List.any_eq_true.mp hany
        exact hhidden ⟨c, hc, x, hx, of_decide_eq_true hxc⟩

end

/-- Every append that completed comes back in the next life by each of its identities, from the file
    or from the archive, unless its row was removed or merged away. -/
theorem acknowledged_row_comes_back (sent : Option (String → Bool)) (main : Option HistoryFile)
    (temp backup : FileState) (archive : ArchiveFile) (hbackup : backup ≠ .malformed) (es : List Event)
    (s : Store) (hrun : exec (Store.step sent) (opened main temp backup archive) es = some s)
    (t : Ticket) (ht : t ∈ s.acked) (id : String) (hid : id ∈ identitiesOf t.message)
    (hmeets : Meets (Store.step sent) (keepsRow sent id t.number) (opened main temp backup archive)
      (es ++ (Store.nextLoad ++ Store.nextArchived))) :
    ∃ u v, exec (Store.step sent) s Store.nextLoad = some u ∧
      exec (Store.step sent) u Store.nextArchived = some v ∧
      ∃ r ∈ u.returned ++ v.returned, id ∈ identitiesOf r := by
  obtain ⟨hbefore, hafter⟩ := meets_append hmeets hrun
  have hs : Followed id t.number s :=
    invariant_of_meets (fun _ _ _ h hc he => h.step hc he) (Followed.open hbackup) hbefore hrun
  have hload := Store.exec_nextLoad sent hs.readable
  obtain ⟨hlife, harchive⟩ := meets_append hafter hload
  have hu : Followed id t.number (s.reopened.loadHistoryLocked true true).next :=
    invariant_of_meets (fun _ _ _ h hc he => h.step hc he) hs hlife hload
  have hreturned := Store.returned_load (s := s.reopened) rfl rfl true true
  obtain ⟨cache, lastView, dirty, returned, debounce, merged, heq, -, -, -, hmerged, -⟩ :=
    Store.load_shape s.reopened true true
  rw [heq] at hu hload hreturned harchive
  have hyes : merged = true := by
    rw [hmerged rfl]
    exact Bool.or_eq_true_iff.mpr (.inr rfl)
  -- nothing is queued: what was acknowledged is in the cached list or in the archive
  have hmemory := hu.kept.safe.trail ⟨t, ht, Nat.le_refl _, hid⟩ hyes
  have hnumber : t.number < s.log.length :=
    hs.kept.numbered t (List.mem_append_right _ (List.mem_append_left _ ht))
  obtain ⟨v, hv, hshown⟩ := archived_returns rfl rfl rfl hu.readable rfl rfl rfl
    (Nat.le_of_lt hnumber) harchive
  refine ⟨_, v, hload, hv, ?_⟩
  have hcached : Has (fun r => id ∈ identitiesOf r) (cache.getD []) →
      ∃ r ∈ returned ++ v.returned, id ∈ identitiesOf r := by
    rintro ⟨r, hr, hP⟩
    refine ⟨r, List.mem_append_left _ ?_, hP⟩
    rw [show returned = cache.getD [] from hreturned]
    exact hr
  rcases hmemory with hr | hp | ha
  · exact hcached hr
  · exact absurd hp not_has_nil
  · rcases hshown ha with hr | ⟨r, hr, hP⟩
    · exact hcached hr
    · exact ⟨r, List.mem_append_right _ hr, hP⟩

/-- A message of the other side. -/
def incoming (id text : String) (timestamp : ℤ) : ChatMessage :=
  { text, fromUserId := "peer", isSelf := false, timestamp, msgID := some id }

/-- The save that holds the lock takes its steps. -/
def saveSteps : List Event :=
  [.start true true, .copied .skipped, .drained, .tempWritten true, .renamed true, .finished]

def appendAndSave (m : ChatMessage) : List Event := [.append m, .debounced] ++ saveSteps

def afterSave : Store :=
  (exec (Store.step none) (opened none .absent .absent {}) (appendAndSave (incoming "m1" "é" 1000))).getD {}

theorem first_row_comes_back : ∃ u v, exec (Store.step none) afterSave Store.nextLoad = some u ∧
    exec (Store.step none) u Store.nextArchived = some v ∧
    ∃ r ∈ u.returned ++ v.returned, "m1" ∈ identitiesOf r :=
  acknowledged_row_comes_back none none .absent .absent {} (by simp) (appendAndSave (incoming "m1" "é" 1000))
    afterSave (by decide) ⟨0, incoming "m1" "é" 1000⟩ (by decide) "m1" (by decide)
    (by decide)

/-- The life that dies while it copies the file to the backup, inside a character. -/
def tornBackup : List Event :=
  appendAndSave (incoming "m1" "é" 1000) ++
    [.append (incoming "m2" "b" 2000), .debounced, .start true true, .copied .malformed]

def afterTornBackup : Store :=
  (exec (Store.step none) (opened none .absent .absent {}) tornBackup).getD {}

/-- The next life cannot read what a completed append left. -/
theorem torn_backup_hides_the_row :
    exec (Store.step none) (opened none .absent .absent {}) tornBackup = some afterTornBackup ∧
    Meets (Store.step none) (fun s e => startsLoaded s e = true ∧ removesOthers "m1" s e = true ∧
      mergesKeep none "m1" s e = true) (opened none .absent .absent {}) tornBackup ∧
    ⟨0, incoming "m1" "é" 1000⟩ ∈ afterTornBackup.acked ∧
    ¬∃ u v, exec (Store.step none) afterTornBackup Store.nextLoad = some u ∧
      exec (Store.step none) u Store.nextArchived = some v ∧
      ∃ r ∈ u.returned ++ v.returned, "m1" ∈ identitiesOf r := by
  refine ⟨by decide, by decide, by decide, ?_⟩
  rintro ⟨u, v, hu, hv, r, hr, -⟩
  have hload : exec (Store.step none) afterTornBackup Store.nextLoad =
      some ((exec (Store.step none) afterTornBackup Store.nextLoad).getD {}) := by decide
  have harchived : exec (Store.step none) ((exec (Store.step none) afterTornBackup Store.nextLoad).getD {})
      Store.nextArchived = some ((exec (Store.step none)
        ((exec (Store.step none) afterTornBackup Store.nextLoad).getD {}) Store.nextArchived).getD {}) := by
    decide
  obtain rfl := Option.some.inj (hload.symm.trans hu)
  obtain rfl := Option.some.inj (harchived.symm.trans hv)
  revert hr
  have hnone : ((exec (Store.step none) afterTornBackup Store.nextLoad).getD {}).returned ++
      ((exec (Store.step none) ((exec (Store.step none) afterTornBackup Store.nextLoad).getD {})
        Store.nextArchived).getD {}).returned = [] := by
    decide
  rw [hnone]
  exact List.not_mem_nil

end Tim2Tox.HistoryStore
