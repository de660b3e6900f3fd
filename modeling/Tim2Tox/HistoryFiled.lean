import Tim2Tox.HistoryKept

set_option autoImplicit false

/-!
# Rows of the file

What a save writes over the main file: the rows that were there, or the archive has them, as long as
every save is called with the rows of the file in the cached list. A clear discards what was called
before it, so while one waits for the lock only what waits behind it counts.
-/
namespace Tim2Tox.HistoryStore
open ChatHistory ChatMessage LabelledRuns

/-! ## Saves of the list itself and of copies -/

namespace Op

/-- A save of the cached list itself that has not read its rows yet. -/
def readsList (phase : Phase) : Op → Bool
  | .save w => w.rows = none && match phase with
    | .encoded _ | .written _ | .replaced => false
    | _ => true
  | _ => false

def savesCopy : Op → Bool
  | .save w => w.rows ≠ none
  | _ => false

def isClear : Op → Bool
  | .clear _ => true
  | _ => false

/-- A save of the list has no marked row unless the list has one. -/
theorem rows_back {P : ChatMessage → Prop} {cached cached' : List ChatMessage} (op : Op)
    (h : Has P cached' → Has P cached) (hop : Has P (op.rows cached')) : Has P (op.rows cached) :=
  (op.rows_carry (X := False) (fun hr => .inl (h hr)) hop).resolve_right id

theorem reads_of_list {op : Op} (hsave : op.isSave = true) (hcopy : op.savesCopy = false) :
    op.readsList .waiting = true := by
  cases op with
  | save w =>
    have hrows : w.rows = none := by simpa [savesCopy] using hcopy
    simp [readsList, hrows]
  | _ => contradiction

end Op

/-- A save of a copy waits behind a save of the list that has not read it yet. -/
def copyBehindList : Phase → List Job → Bool
  | _, [] => false
  | phase, j :: js => (j.op.readsList phase && js.any fun i => i.op.savesCopy) || copyBehindList .waiting js

namespace Trail

variable {R R' : Rule} {owed owed' last last' : Prop} {phase : Phase} {js : List Job}

/-- The cached list has gained a row: every save that still reads it has the row. -/
theorem grow (h : Trail R owed phase js last) (howed : owed' → owed) (hlast : last')
    (hgives : ∀ op phase, R'.gives phase op → R.gives phase op ∨ op.readsList phase = true)
    (hsave : ∀ op, R'.gives .waiting op → op.isSave = true)
    (hcover : ∀ op phase, R.cover phase op → R'.cover phase op)
    (hreads : ∀ op phase, op.readsList phase = true → R'.cover phase op)
    (horder : copyBehindList phase js = false) : Trail R' owed' phase js last' := by
  induction js generalizing owed owed' phase with
  | nil => exact fun _ => hlast
  | cons j js ih =>
    obtain ⟨hj, htail⟩ := h
    unfold copyBehindList at horder
    rw [Bool.or_eq_false_iff, Bool.and_eq_false_iff] at horder
    rcases hread : j.op.readsList phase with _ | _
    · have hsame : R'.gives phase j.op → R.gives phase j.op := fun hg =>
        (hgives j.op phase hg).resolve_right (by rw [hread]; exact Bool.false_ne_true)
      refine ⟨fun ho => hcover _ _ (hj ?_), ih htail ?_ horder.2⟩
      · rcases ho with ho | hg
        · exact .inl ⟨ho.1, howed ho.2⟩
        · exact .inr (hsame hg)
      · intro ho
        exact ho.imp howed hsame
    · -- behind it every save reads the list as well
      have hcopies : ∀ i ∈ js, i.op.savesCopy = false := by
        rcases horder.1 with hno | hno
        · rw [hread] at hno
          contradiction
        · exact fun i hi => Bool.eq_false_iff.mpr (List.any_eq_false.mp hno i hi)
      have hall : ∀ i ∈ js, i.op.isSave = true ∨ R'.gives .waiting i.op → R'.cover .waiting i.op :=
        fun i hi ho => hreads _ _ (Op.reads_of_list (ho.elim id (hsave i.op)) (hcopies i hi))
      exact ⟨fun _ => hreads _ _ hread, of_cover hlast hall
        fun i hi => hall i (List.mem_of_mem_head? hi)⟩

/-- The operations are replaced by others that write the same. -/
theorem map (f : Job → Job) (h : Trail R owed phase js last) (howed : owed' → owed)
    (hlast : last → last') (hsave : ∀ j, (f j).op.isSave = j.op.isSave)
    (hgives : ∀ j phase, R'.gives phase (f j).op → R.gives phase j.op)
    (hcover : ∀ j phase, R.cover phase j.op → R'.cover phase (f j).op) :
    Trail R' owed' phase (js.map f) last' := by
  induction js generalizing owed owed' phase with
  | nil => exact fun ho => hlast (h (howed ho))
  | cons j js ih =>
    refine ⟨fun ho => hcover j phase (h.1 ?_), ih h.2 fun ho => ho.imp howed (hgives j phase)⟩
    rw [hsave] at ho
    exact ho.imp (fun ho => ⟨ho.1, howed ho.2⟩) (hgives j phase)

end Trail

/-! ## Calls while no clear waits -/

namespace Store

variable {P : ChatMessage → Prop} {s u : Store} {sent : Option (String → Bool)}

/-- What the rows of the file depend on. -/
theorem Safe.same (h : s.Safe P .filed) (hcache : u.cache = s.cache)
    (hpending : u.pendingArchive = s.pendingArchive) (harchive : u.archive = s.archive)
    (hmain : u.main = s.main) (hjobs : u.jobs = s.jobs) (hphase : u.phase = s.phase)
    (hgen : u.gen = s.gen) (hmerged : u.merged = true → s.merged = true) : u.Safe P .filed := by
  cases s
  cases u
  dsimp only at hcache hpending harchive hmain hjobs hphase hgen hmerged
  subst hcache hpending harchive hmain hjobs hphase hgen
  refine ⟨⟨h.orderly.idle, h.orderly.current, h.orderly.batch⟩, ?_⟩
  exact h.trail.imp (fun ho => ho) (fun hlast hm => hlast (hmerged hm)) (fun _ hg => hg)
    (fun _ hc => hc) (fun _ _ hg => hg) fun _ _ hc => hc

theorem isSave_of_rows {op : Op} {cached : List ChatMessage} (h : Has P (op.rows cached)) :
    op.isSave = true := by
  cases op with
  | save w => rfl
  | _ => exact absurd h not_has_nil

theorem writes_back (hgain : Has P u.rows → Has P s.rows) {phase : Phase} {op : Op}
    (h : u.writes P phase op) : s.writes P phase op := by
  cases phase with
  | encoded file => exact h
  | written file => exact h
  | replaced => exact h
  | _ => exact op.rows_back hgain h

/-- What a save would write has no other marked rows than before, or it reads the list. -/
theorem writes_or_reads (op : Op) (phase : Phase) (h : u.writes P phase op) :
    s.writes P phase op ∨ op.readsList phase = true := by
  have hrows : Has P (op.rows u.rows) → Has P (op.rows s.rows) ∨ op.readsList .waiting = true := by
    intro hr
    cases op with
    | save w =>
      change Has P (w.rows.getD u.rows) at hr
      cases hw : w.rows with
      | none => exact .inr (by simp [Op.readsList, hw])
      | some rows =>
        rw [hw] at hr
        refine .inl ?_
        change Has P (w.rows.getD s.rows)
        rw [hw]
        exact hr
    | _ => exact absurd hr not_has_nil
  cases phase with
  | encoded file => exact .inl h
  | written file => exact .inl h
  | replaced => exact .inl h
  | _ => exact hrows h

/-- A save that does not read the list keeps its rows, and the others had none. -/
theorem cover_grown (hcarry : Carry P s u) (hmain : u.mainRows = s.mainRows) (hs : ¬Has P s.rows)
    {op : Op} {phase : Phase} (h : s.cover P phase op) : u.cover P phase op := by
  have hrows : Has P (op.rows s.rows) → Has P (op.rows u.rows) := fun hr =>
    (op.rows_carry (X := False) (fun hr => absurd hr hs) hr).resolve_right id
  cases phase with
  | draining batch gen => exact h.imp hrows fun hb => hb.imp_right hcarry.archive
  | encoded file => exact h.imp_right hcarry.archive
  | written file => exact h.imp_right hcarry.archive
  | replaced =>
    refine h.imp ?_ hcarry.archive
    rw [hmain]
    exact fun hm => hm
  | _ => exact hcarry.cover_waiting h

theorem cover_of_reads (hu : Has P u.rows) {op : Op} {phase : Phase}
    (h : op.readsList phase = true) : u.cover P phase op := by
  cases op with
  | save w =>
    have hrows : w.rows = none := by
      unfold Op.readsList at h
      rw [Bool.and_eq_true, decide_eq_true_eq] at h
      exact h.1
    have hlist : Has P ((Op.save w).rows u.rows) := by
      change Has P (w.rows.getD u.rows)
      rw [hrows]
      exact hu
    cases phase with
    | encoded file => simp [Op.readsList] at h
    | written file => simp [Op.readsList] at h
    | replaced => simp [Op.readsList] at h
    | _ => exact .inl hlist
  | _ => contradiction

/-- The cached list changes, rows may move to the queue for the archive, and nothing else does. -/
theorem Safe.edit (h : s.Safe P .filed) (hjobs : u.jobs = s.jobs) (hphase : u.phase = s.phase)
    (hmain : u.main = s.main) (harchive : u.archive = s.archive) (hgen : u.gen = s.gen)
    (hmerged : u.merged = s.merged) (hpending : s.pendingArchive <+: u.pendingArchive)
    (hrows : Has P s.rows → Has P u.rows ∨ Has P u.pendingArchive)
    (hread : listStillToRead s = true → Has P s.rows → Has P u.rows)
    (hadds : Has P u.rows → Has P s.rows ∨ copyBehindList s.phase s.jobs = false) :
    u.Safe P .filed := by
  have hcarry : Carry P s u := by
    refine ⟨hrows, fun hp => .inl (hp.mono fun r hr => hpending.subset hr), fun ha => ?_⟩
    rw [harchive]
    exact ha
  have hsame : u.mainRows = s.mainRows := by
    unfold mainRows
    rw [hmain]
  have horderly := h.orderly.same hjobs hphase hgen hpending
  have howed : u.owed P .filed → s.owed P .filed := by
    intro ho
    change Has P u.mainRows at ho
    rw [hsame] at ho
    exact ho
  by_cases hnew : Has P u.rows ∧ ¬Has P s.rows
  · obtain ⟨hu, hs⟩ := hnew
    refine ⟨horderly, ?_⟩
    rw [hjobs, hphase]
    refine h.trail.grow howed (fun _ => .inl hu) writes_or_reads
      (fun op hg => isSave_of_rows hg) (fun op phase hc => cover_grown hcarry hsame hs hc)
      (fun op phase hop => cover_of_reads hu hop) ((hadds hu).resolve_left hs)
  · have hgain : Has P u.rows → Has P s.rows := fun hu => by_contra fun hs => hnew ⟨hu, hs⟩
    refine h.move horderly hjobs hcarry howed (fun hm => hmerged.symm.trans hm)
      (fun op hg => op.rows_back hgain hg) fun j hj => ?_
    rw [hphase]
    exact ⟨writes_back hgain, hcarry.cover_head hj hsame hread⟩

theorem Safe.enqueue_plain (h : s.Safe P .filed) {op : Op} (hclear : ∀ n, op ≠ .clear n)
    (hsave : op.isSave = false) : (s.enqueue op).Safe P .filed := by
  refine h.enqueue hclear (fun hs => ?_) fun hg => ?_
  · rw [hsave] at hs
    contradiction
  · have := isSave_of_rows hg
    rw [hsave] at this
    contradiction

theorem Safe.complete (h : s.Safe P .filed) (w : Save) : (s.complete w).Safe P .filed := by
  have hack : { s with acked := s.acked ++ w.waiters }.Safe P .filed :=
    h.same rfl rfl rfl rfl rfl rfl rfl fun hm => hm
  unfold Store.complete
  rcases w.removal with _ | ⟨r, ids⟩
  · exact hack
  · exact hack.enqueue_plain (fun _ => by simp) rfl

/-- Something would be written. -/
def hasRowsToSave (s : Store) : Bool := s.rows ≠ [] || s.emptyIsADelete

theorem Safe.saveHistory (h : s.Safe P .filed) {rows : Option (List ChatMessage)}
    (hrows : rows.getD s.rows = s.rows) (hmerged : s.hasRowsToSave = true → s.merged = true)
    (waiters : List Ticket) (removal : Option (Removal × List String)) :
    (s.saveHistory rows waiters removal).Safe P .filed := by
  unfold Store.saveHistory
  dsimp only
  rw [hrows]
  split_ifs with hnil
  · exact h.complete _
  · have hsaves : s.hasRowsToSave = true := by
      unfold hasRowsToSave
      rw [Bool.and_eq_true, decide_eq_true_eq, not_and_or] at hnil
      rw [Bool.or_eq_true, decide_eq_true_eq]
      exact hnil.imp (fun hne => hne) fun hdel => by simpa using hdel
    refine h.enqueue (fun _ => by simp) (fun _ => ⟨hmerged hsaves, hrows⟩) fun hg => ?_
    change Has P (rows.getD s.rows) at hg
    rw [hrows] at hg
    refine ⟨.inl hg, .inl ?_⟩
    change Has P (rows.getD s.rows)
    rw [hrows]
    exact hg

theorem Safe.resaveCached (h : s.Safe P .filed) (hmerged : s.hasRowsToSave = true → s.merged = true)
    (waiters : List Ticket) : (s.resaveCached waiters).Safe P .filed := by
  unfold Store.resaveCached
  split
  · exact h.same rfl rfl rfl rfl rfl rfl rfl fun hm => hm
  · rename_i list hlist
    refine h.saveHistory ?_ hmerged waiters none
    unfold rows
    rw [hlist]
    rfl

theorem Safe.append (h : s.Safe P .filed) {m : ChatMessage}
    (hmerged : overflows sent s m = true → s.merged = true)
    (hclean : ¬(overflows sent s m = true ∧ listStillToRead s = true))
    (hhands : Has P s.rows → Has P (appendRow sent s.rows m))
    (hadds : Has P (appendWindow sent s.rows m).2 → Has P s.rows ∨ copyBehindList s.phase s.jobs = false) :
    (s.appendHistory sent m).Safe P .filed := by
  have hmoved : Has P s.rows → Has P (appendWindow sent s.rows m).2 ∨
      Has P (s.pendingArchive ++ (appendWindow sent s.rows m).1) := by
    intro hr
    rcases has_window.mp (hhands hr) with hgone | hkept
    · exact .inr (has_append.mpr (.inr hgone))
    · exact .inl hkept
  unfold appendHistory
  dsimp only
  by_cases hgone : (appendWindow sent s.rows m).1 = []
  · have hkept : Has P (appendRow sent s.rows m) → Has P (appendWindow sent s.rows m).2 := by
      rw [has_window, hgone]
      exact fun hw => hw.resolve_left not_has_nil
    rw [if_pos hgone]
    exact h.edit (u := Store.scheduleDebouncedSave _ _) rfl rfl rfl rfl rfl rfl
      (List.prefix_append ..) hmoved (fun _ hr => hkept (hhands hr)) hadds
  · have hover : overflows sent s m = true := decide_eq_true hgone
    have hstill : ¬listStillToRead s = true := fun hl => hclean ⟨hover, hl⟩
    have hedit := h.edit (u := { s with
        cache := some (appendWindow sent s.rows m).2
        pendingArchive := s.pendingArchive ++ (appendWindow sent s.rows m).1
        log := s.log ++ [Entry.added m]
        debounce := none }) rfl rfl rfl rfl rfl rfl (List.prefix_append ..) hmoved
      (fun hl => absurd hl hstill) hadds
    rw [if_neg hgone]
    exact hedit.saveHistory rfl (fun _ => hmerged hover) _ none

theorem Safe.update (h : s.Safe P .filed) {msgID : String} {updated : ChatMessage}
    (hmerged : s.rows.any (idMatches · msgID) = true → s.merged = true)
    (hhands : Has P s.rows → Has P (updateRow sent s.rows msgID updated))
    (hadds : Has P (updateRow sent s.rows msgID updated) →
      Has P s.rows ∨ copyBehindList s.phase s.jobs = false) :
    (s.updateMessage sent msgID updated).Safe P .filed := by
  unfold updateMessage
  split_ifs with hany
  · have hedit : { s with
        cache := some (updateRow sent s.rows msgID updated)
        log := s.log ++ [Entry.updated updated] }.Safe P .filed :=
      h.edit rfl rfl rfl rfl rfl rfl List.prefix_rfl (fun hr => .inl (hhands hr))
        (fun _ hr => hhands hr) hadds
    exact hedit.saveHistory rfl (fun _ => hmerged hany) [] none
  · exact h

theorem Safe.remove (h : s.Safe P .filed) {msgID : String}
    (hmerged : s.rows.any (idMatches · msgID) = true → s.merged = true)
    (hspare : ∀ r ∈ s.rows, P r → idMatches r msgID = false) : (s.removeMessage msgID).Safe P .filed := by
  have hrows : Has P s.rows → Has P (s.rows.filter fun m => !idMatches m msgID) := fun hr =>
    hr.filter fun r hr hP => by rw [hspare r hr hP]; rfl
  have hback : Has P (s.rows.filter fun m => !idMatches m msgID) → Has P s.rows := fun hr =>
    hr.mono fun r hr => List.mem_of_mem_filter hr
  unfold removeMessage
  dsimp only
  split_ifs with hnil
  · exact h.enqueue_plain (fun _ => by simp) rfl
  · have hany : s.rows.any (idMatches · msgID) = true := by
      obtain ⟨r, hr⟩ := List.exists_mem_of_ne_nil _ hnil
      exact List.any_eq_true.mpr ⟨r, List.mem_of_mem_filter hr, (List.mem_filter.mp hr).2⟩
    have hedit : ({ s with
        cache := some (s.rows.filter fun m => !idMatches m msgID)
        log := s.log ++ [Entry.removed (s.rows.filter (idMatches · msgID))] }.noteRemovedFromCache
          (s.rows.filter (idMatches · msgID))).Safe P .filed :=
      h.edit rfl rfl rfl rfl rfl rfl List.prefix_rfl (fun hr => .inl (hrows hr))
        (fun _ hr => hrows hr) fun hr => .inl (hback hr)
    exact hedit.saveHistory rfl (fun _ => hmerged hany) [] _

theorem Safe.flush (h : s.Safe P .filed) (hmerged : s.hasRowsToSave = true → s.merged = true) :
    s.flushConversation.Safe P .filed := by
  have hoff : { s with debounce := none, retry := false, dirtyAfterLoad := false }.Safe P .filed :=
    h.same rfl rfl rfl rfl rfl rfl rfl fun hm => hm
  unfold flushConversation
  dsimp only
  split_ifs
  · exact hoff.enqueue_plain (fun _ => by simp) rfl
  · exact hoff.resaveCached hmerged _

theorem mainRows_of_none (h : s.main = none) : s.mainRows = [] := by
  unfold mainRows
  rw [h]
  rfl

theorem Safe.crash (s : Store) : s.crash.Safe P .filed := by
  refine ⟨⟨fun _ => rfl, fun j hj => absurd hj List.not_mem_nil, fun _ _ hb => by contradiction⟩, ?_⟩
  intro ho hmerged
  have hnone : s.main = none := of_decide_eq_true hmerged
  change Has P s.mainRows at ho
  rw [mainRows_of_none hnone] at ho
  exact absurd ho not_has_nil

/-! ## The cached list is dropped -/

/-- A save that waits keeps the rows it would have read. -/
def detached (rows : List ChatMessage) (j : Job) : Job :=
  match j.op with
  | .save w => { j with op := .save { w with rows := some (w.rows.getD rows) } }
  | _ => j

theorem detach_eq (s : Store) : s.detach = s.jobs.map (detached s.rows) := rfl

theorem detached_same (rows : List ChatMessage) (j : Job) : (detached rows j).token = j.token ∧
    (detached rows j).op.isSave = j.op.isSave ∧ (detached rows j).op.isClear = j.op.isClear := by
  obtain ⟨op, token⟩ := j
  cases op <;> exact ⟨rfl, rfl, rfl⟩

theorem detached_rows (rows cached : List ChatMessage) (j : Job) :
    (detached rows j).op.rows cached = j.op.rows rows := by
  obtain ⟨op, token⟩ := j
  cases op <;> rfl

/-- What is under way fits the operation that holds the lock. -/
def Fits (phase : Phase) (op : Op) : Prop :=
  match phase with
  | .waiting => True
  | .draining _ _ => op.isSave = true ∨ ∃ waiters, op = .drain waiters
  | .mainGone | .backupGone => op.isClear = true
  | _ => op.isSave = true

theorem fits_detached {rows : List ChatMessage} {phase : Phase} {j : Job} (h : Fits phase j.op) :
    Fits phase (detached rows j).op := by
  obtain ⟨-, hsave, hclear⟩ := detached_same rows j
  cases phase with
  | waiting => trivial
  | draining batch gen =>
    refine h.imp (fun hs => hsave.trans hs) fun hd => ?_
    obtain ⟨waiters, hop⟩ := hd
    refine ⟨waiters, ?_⟩
    unfold detached
    rw [hop]
    exact hop
  | mainGone => exact hclear.trans h
  | backupGone => exact hclear.trans h
  | _ => exact hsave.trans h

theorem Safe.dropCache (h : s.Safe P .filed)
    (hfits : ∀ j, s.jobs.head? = some j → Fits s.phase j.op) : s.removeCachedHistory.Safe P .filed := by
  have horderly : s.removeCachedHistory.Orderly := by
    refine ⟨fun hnil => h.orderly.idle ?_, fun j hj => ?_, h.orderly.batch⟩
    · change s.jobs.map (detached s.rows) = [] at hnil
      exact List.map_eq_nil_iff.mp hnil
    · change j ∈ s.jobs.map (detached s.rows) at hj
      obtain ⟨i, hi, rfl⟩ := List.mem_map.mp hj
      obtain ⟨htoken, hclear⟩ := h.orderly.current i hi
      obtain ⟨hsame, -, hisClear⟩ := detached_same s.rows i
      refine ⟨hsame.trans htoken, fun n hn => ?_⟩
      rw [hn] at hisClear
      cases hop : i.op with
      | clear m => exact hclear m hop
      | _ =>
        rw [hop] at hisClear
        contradiction
  refine ⟨horderly, ?_⟩
  by_cases hgone : s.removeCachedHistory.merged = true
  · -- no file and no save: nothing is owed
    change (s.main = none && s.savesDone) = true at hgone
    rw [Bool.and_eq_true, decide_eq_true_eq] at hgone
    obtain ⟨hmain, hdone⟩ := hgone
    have hquiet : ∀ j ∈ s.removeCachedHistory.jobs, j.op.isSave = false := by
      intro j hj
      change j ∈ s.jobs.map (detached s.rows) at hj
      obtain ⟨i, hi, rfl⟩ := List.mem_map.mp hj
      rw [(detached_same s.rows i).2.1]
      have hi' := List.all_eq_true.mp hdone i hi
      cases hop : i.op with
      | save w =>
        rw [hop] at hi'
        contradiction
      | _ => rfl
    refine Trail.of_none ?_ (fun j hj hg => ?_) fun j hj hg => ?_
    · change ¬Has P s.mainRows
      rw [mainRows_of_none hmain]
      exact not_has_nil
    · have := isSave_of_rows hg
      rw [hquiet j hj] at this
      contradiction
    · have hno := hquiet j (List.mem_of_mem_head? hj)
      have hwrite : Fits s.phase j.op := by
        change (s.jobs.map (detached s.rows)).head? = some j at hj
        rw [List.head?_map, Option.map_eq_some_iff] at hj
        obtain ⟨i, hi, rfl⟩ := hj
        exact fits_detached (hfits i hi)
      change s.removeCachedHistory.writes P s.phase j.op at hg
      rcases hphase : s.phase with _ | _ | ⟨batch, gen⟩ | file | file | _ | _ | _
      all_goals
        rw [hphase] at hg hwrite
        first
          | exact absurd ((isSave_of_rows hg).symm.trans hno) (by decide)
          | exact absurd (hwrite.symm.trans hno) (by decide)
  · refine h.trail.map (detached s.rows) (fun ho => ho) (fun _ hm => absurd hm hgone)
      (fun j => (detached_same s.rows j).2.1) (fun j phase hg => ?_) fun j phase hc => ?_
    · have hrows := detached_rows s.rows s.removeCachedHistory.rows j
      cases phase with
      | encoded file => exact hg
      | written file => exact hg
      | replaced => exact hg
      | _ => exact (congrArg (Has P) hrows).mp hg
    · have hrows := detached_rows s.rows s.removeCachedHistory.rows j
      cases phase with
      | encoded file => exact hc
      | written file => exact hc
      | replaced => exact hc
      | _ => exact hc.imp_left (congrArg (Has P) hrows).mpr

/-! ## The operation that holds the lock while no clear waits -/

/-- The archive holds more than before. -/
theorem Safe.archiveGrows (h : s.Safe P .filed) {archive : ArchiveFile}
    (hmono : Has P s.archive.rows → Has P archive.rows) : { s with archive }.Safe P .filed := by
  have hcarry : Carry P s { s with archive } := ⟨fun hr => .inl hr, fun hp => .inl hp, hmono⟩
  exact h.move (u := { s with archive }) (h.orderly.same rfl rfl rfl List.prefix_rfl) rfl hcarry
    (fun ho => ho) (fun hm => hm) (fun _ hg => hg) fun j hj =>
      ⟨fun hg => hg, hcarry.cover_head hj rfl fun _ hr => hr⟩

theorem Safe.fail (h : s.Safe P .filed) (op : Op) : (s.fail op).Safe P .filed := by
  cases op with
  | save w => exact h.next.same rfl rfl rfl rfl rfl rfl rfl fun hm => hm
  | _ => exact h.next

/-- The list has the rows of the file after a read with no save behind it. -/
theorem Safe.learn (h : s.Safe P .filed) (hphase : s.phase = .waiting)
    (hdone : ∀ j ∈ s.jobs, j.op.isSave = false) (hmem : Has P s.mainRows → s.InMemory P)
    (merged : Bool) : { s with merged }.Safe P .filed := by
  refine ⟨⟨h.orderly.idle, h.orderly.current, h.orderly.batch⟩, ?_⟩
  change Trail _ _ s.phase s.jobs _
  rw [hphase]
  refine Trail.of_quiet (fun j hj hg => ?_) hdone fun ho _ => hmem ho
  have := isSave_of_rows hg
  rw [hdone j hj] at this
  contradiction

theorem not_isSave_of_savesDone (h : s.savesDone = true) : ∀ j ∈ s.jobs, j.op.isSave = false := by
  intro j hj
  have hdone := List.all_eq_true.mp h j hj
  cases hop : j.op with
  | save w =>
    rw [hop] at hdone
    contradiction
  | _ => rfl

theorem rows_install (s : Store) (messages : List ChatMessage) (legacyLayout : Bool) :
    (s.installLoaded messages legacyLayout).rows = (installLoadedHistory s.cache messages s.isDeleted
      (s.lastView.getD 0) legacyLayout).cache.getD [] := by
  obtain ⟨lastView, dirty, returned, debounce, heq, -⟩ := installLoaded_shape s messages legacyLayout
  rw [heq]
  rfl

theorem merged_install (s : Store) (messages : List ChatMessage) (legacyLayout : Bool) :
    (s.installLoaded messages legacyLayout).merged = s.merged := by
  obtain ⟨lastView, dirty, returned, debounce, heq, -⟩ := installLoaded_shape s messages legacyLayout
  rw [heq]

theorem merged_backup (s : Store) (backupOk : Bool) : (s.loadFromBackup backupOk).merged = s.merged := by
  unfold loadFromBackup
  split
  · split_ifs
    · exact merged_install ..
    · rfl
  · rfl

/-- A load that lets the list have the rows of the file has read the file, if there is one. -/
theorem merged_load (s : Store) (ok backupOk : Bool)
    (hm : (s.loadHistoryLocked ok backupOk).merged = true) (hno : s.merged = false) :
    s.savesDone = true ∧ (s.main = none ∨ ok = true) := by
  unfold loadHistoryLocked at hm
  split at hm
  · rename_i hmain
    change (s.merged || s.savesDone) = true at hm
    rw [hno, Bool.false_or] at hm
    exact ⟨hm, .inl hmain⟩
  · split_ifs at hm with hok
    · rw [merged_install] at hm
      change (s.merged || s.savesDone) = true at hm
      rw [hno, Bool.false_or] at hm
      exact ⟨hm, .inr hok⟩
    · rw [merged_backup, hno] at hm
      contradiction

theorem Safe.load (h : s.Safe P .filed) (ok backupOk : Bool)
    (hfile : ok = true → s.merged = false → Has P s.mainRows →
      Has P (s.loadHistoryLocked ok backupOk).rows)
    (hadds : Has P (s.loadHistoryLocked ok backupOk).rows →
      Has P s.rows ∨ copyBehindList s.phase s.jobs = false) :
    (s.loadHistoryLocked ok backupOk).next.Safe P .filed := by
  have hread := merged_load s ok backupOk
  obtain ⟨cache, lastView, dirty, returned, debounce, merged, heq, -, hcache, -, -, -⟩ :=
    load_shape s ok backupOk
  rw [heq] at hfile hadds hread ⊢
  have hlive : Has P s.rows → Has P (cache.getD []) := by
    rcases hcache with rfl | ⟨messages, barrier, legacyLayout, rfl⟩
    · exact fun hr => hr
    · exact has_install_live messages s.isDeleted barrier legacyLayout
  have hedit : { s with cache, lastView, dirtyAfterLoad := dirty, returned, debounce }.Safe P .filed :=
    h.edit rfl rfl rfl rfl rfl rfl List.prefix_rfl (fun hr => .inl (hlive hr)) (fun _ hr => hlive hr) hadds
  by_cases hnew : merged = true ∧ s.merged = false
  · obtain ⟨hdone, hmain⟩ := hread hnew.1 hnew.2
    refine hedit.next.learn rfl (fun j hj => not_isSave_of_savesDone hdone j (List.mem_of_mem_tail hj))
      (fun ho => ?_) merged
    change Has P s.mainRows at ho
    rcases hmain with hnone | hok
    · rw [mainRows_of_none hnone] at ho
      exact absurd ho not_has_nil
    · exact .inl (hfile hok hnew.2 ho)
  · refine hedit.next.same rfl rfl rfl rfl rfl rfl rfl fun hm => ?_
    change s.merged = true
    change merged = true at hm
    by_contra hno
    exact hnew ⟨hm, Bool.eq_false_iff.mpr hno⟩

theorem Safe.removeRows (h : s.Safe P .filed) {j : Job} (hhead : s.jobs.head? = some j)
    {ids : List String} (hread : s.archive.malformed = false)
    (hspare : ∀ m ∈ s.archive.rows ++ s.pendingArchive, P m → hits ids m = false) (cached : Bool)
    (r : Removal) : (s.removeRowsLocked ids cached r).next.Safe P .filed := by
  have hcarry := carry_removeArchivedRows hread hspare
  obtain ⟨deleted, seq, removals, heq⟩ := removeRows_shape s ids cached r
  rw [heq]
  exact h.over (u := Store.next { s.removeArchivedRows ids with
      recentlyDeleted := deleted, deleteSeq := seq, removals }) hhead rfl
    ⟨fun _ => rfl, h.orderly.next.current, fun _ _ hb => by contradiction⟩ rfl
    ⟨hcarry.rows, hcarry.pending, hcarry.archive⟩ (fun ho => .inl ho) (fun hm => hm) fun _ hg => hg

theorem Safe.drainedAlone (h : s.Safe P .filed) {j : Job} (hhead : s.jobs.head? = some j) {gen : ℕ}
    {batch : List ChatMessage} (hphase : s.phase = .draining batch gen)
    (hended : batch ≠ [] → s.archive.tail = none ∧ s.archive.malformed = false) (waiters : List Ticket) :
    { (s.drainDone batch gen).next with
      acked := (s.drainDone batch gen).acked ++ waiters }.Safe P .filed := by
  obtain ⟨hgen, hbatch⟩ := h.orderly.batch batch gen hphase
  have hcarry := carry_drainDone (P := P) hended hgen hbatch
  rw [drainDone_eq] at hcarry ⊢
  exact h.over (u := { Store.next { s with
        archive := (s.drainDone batch gen).archive
        pendingArchive := (s.drainDone batch gen).pendingArchive
        archiveCache := (s.drainDone batch gen).archiveCache } with acked := s.acked ++ waiters })
      hhead rfl ⟨fun _ => rfl, h.orderly.next.current, fun _ _ hb => by contradiction⟩ rfl
      ⟨hcarry.rows, hcarry.pending, hcarry.archive⟩ (fun ho => .inl ho) (fun hm => hm) fun _ hg => hg

theorem Safe.finished (h : s.Safe P .filed) (w : Save) :
    (Store.complete { s.next with backup := .absent, attempts := 0, retry := false } w).Safe P .filed := by
  have hdone : { s.next with backup := .absent, attempts := 0, retry := false }.Safe P .filed :=
    h.next.same rfl rfl rfl rfl rfl rfl rfl fun hm => hm
  exact hdone.complete w

end Store

/-! ## The condition of a step -/

/-- A save is called only when the cached list has the rows of the file, and nothing clears. -/
def savesMerged (sent : Option (String → Bool)) (s : Store) : Event → Bool
  | .append m => !overflows sent s m || s.merged
  | .update msgID _ => !s.rows.any (idMatches · msgID) || s.merged
  | .remove msgID => !s.rows.any (idMatches · msgID) || s.merged
  | .debounced => !s.hasRowsToSave || s.merged
  | .retried => !s.hasRowsToSave || s.merged
  | .flushDirty => !s.hasRowsToSave || s.merged
  | .flush => !s.hasRowsToSave || s.merged
  | .clear => false
  | _ => true

/-- The load brings a row of the file with the identity: no tombstone names it, and only a row with
    the identity stands for it in the list. -/
def loadBrings (id : String) (s : Store) : Bool :=
  (dedupeByIdentity (s.mainRows.map notPending)).any fun r => carries id r &&
    !(identitiesOf r).any s.isDeleted && (!represented s.rows r || s.rows.any (carries id))

/-- A row with the identity is merged into a row that has it. -/
def mergesFiled (sent : Option (String → Bool)) (id : String) (s : Store) : Event → Bool
  | .append m => !s.rows.any (carries id) || (appendRow sent s.rows m).any (carries id)
  | .update msgID u => !s.rows.any (carries id) || (updateRow sent s.rows msgID u).any (carries id)
  | .start ok _ => match s.jobs.head? with
    | some ⟨.load, _⟩ => !ok || s.merged || !s.mainRows.any (carries id) || loadBrings id s
    | _ => true
  | _ => true

/-- No row with the identity comes into the list while a save of a copy waits behind a save of the
    list itself. -/
def addsInOrder (sent : Option (String → Bool)) (id : String) (s : Store) : Event → Bool
  | .append m => s.rows.any (carries id) || !(appendWindow sent s.rows m).2.any (carries id) ||
      !copyBehindList s.phase s.jobs
  | .update msgID u => s.rows.any (carries id) || !(updateRow sent s.rows msgID u).any (carries id) ||
      !copyBehindList s.phase s.jobs
  | .start ok backupOk => match s.jobs.head? with
    | some ⟨.load, _⟩ => s.rows.any (carries id) ||
        !(s.loadHistoryLocked ok backupOk).rows.any (carries id) || !copyBehindList s.phase s.jobs
    | _ => true
  | _ => true

/-- The archive is not cut inside a character or continued in a line without end, and no row
    overflows once a save of the list itself has taken its batch. -/
def archivesClean (sent : Option (String → Bool)) (s : Store) : Event → Bool
  | .copied _ => true
  | e => cutsClean sent s e

def keepsFiled (sent : Option (String → Bool)) (id : String) (s : Store) (e : Event) : Prop :=
  savesMerged sent s e = true ∧ archivesClean sent s e = true ∧ removesOthers id s e = true ∧
    mergesFiled sent id s e = true ∧ addsInOrder sent id s e = true

instance (sent : Option (String → Bool)) (id : String) (s : Store) (e : Event) :
    Decidable (keepsFiled sent id s e) := inferInstanceAs (Decidable (_ ∧ _ ∧ _ ∧ _ ∧ _))

/-! ## Every step -/

/-- The invariant along a run. -/
structure Filed (id : String) (s : Store) : Prop where
  safe : s.Safe (fun r => id ∈ identitiesOf r) .filed
  fits : ∀ j, s.jobs.head? = some j → Store.Fits s.phase j.op

/-- The queue grows at its end while the operation that holds the lock goes on. -/
def Grows (s u : Store) : Prop := u.phase = s.phase ∧ s.jobs <+: u.jobs

theorem complete_grows (s : Store) (w : Save) : Grows s (s.complete w) := by
  unfold Store.complete
  rcases w.removal with _ | ⟨r, ids⟩
  · exact ⟨rfl, List.prefix_rfl⟩
  · exact ⟨rfl, List.prefix_append ..⟩

theorem saveHistory_grows (s : Store) (rows : Option (List ChatMessage)) (waiters : List Ticket)
    (removal : Option (Removal × List String)) : Grows s (s.saveHistory rows waiters removal) := by
  unfold Store.saveHistory
  dsimp only
  split_ifs
  · exact complete_grows s _
  · exact ⟨rfl, List.prefix_append ..⟩

theorem resaveCached_grows (s : Store) (waiters : List Ticket) : Grows s (s.resaveCached waiters) := by
  unfold Store.resaveCached
  split
  · exact ⟨rfl, List.prefix_rfl⟩
  · exact saveHistory_grows ..

section
variable {sent : Option (String → Bool)} {id : String} {s u : Store} {e : Event}

theorem Filed.grown (h : Filed id s) (hgrows : Grows s u) :
    ∀ j, u.jobs.head? = some j → Store.Fits u.phase j.op := by
  intro j hj
  obtain ⟨hphase, rest, hrest⟩ := hgrows
  rw [hphase]
  rcases hjobs : s.jobs with _ | ⟨i, js⟩
  · rw [h.safe.orderly.idle hjobs]
    trivial
  · rw [← hrest, hjobs] at hj
    exact h.fits j (by rw [hjobs]; exact hj)

theorem fits_waiting (hphase : u.phase = .waiting) :
    ∀ j, u.jobs.head? = some j → Store.Fits u.phase j.op := by
  intro j _
  rw [hphase]
  trivial

theorem fail_waiting (s : Store) (op : Op) : (s.fail op).phase = .waiting := by
  cases op <;> rfl

/-- An operation goes on to a phase that writes the same and leaves as much to read. -/
theorem Filed.advance (h : Filed id s) {j : Job} (hhead : s.jobs.head? = some j) {phase : Phase}
    {temp backup : FileState} (hfits : Store.Fits phase j.op)
    (hbatch : ∀ rows gen, phase = .draining rows gen → gen = s.gen ∧ rows <+: s.pendingArchive)
    (hwrites : s.writes (fun r => id ∈ identitiesOf r) phase j.op →
      s.writes (fun r => id ∈ identitiesOf r) s.phase j.op)
    (hcover : s.cover (fun r => id ∈ identitiesOf r) s.phase j.op →
      s.cover (fun r => id ∈ identitiesOf r) phase j.op) :
    Filed id { s with phase, temp, backup } := by
  have honly : ∀ i, s.jobs.head? = some i → i = j := fun i hi =>
    Option.some.inj (hi.symm.trans hhead)
  refine ⟨h.safe.advance ⟨fun hnil => ?_, h.safe.orderly.current, hbatch⟩ (fun i hi => ?_) fun i hi => ?_,
    fun i hi => ?_⟩
  · change s.jobs = [] at hnil
    rw [hnil] at hhead
    contradiction
  · rw [honly i hi]
    exact hwrites
  · rw [honly i hi]
    exact hcover
  · rw [honly i hi]
    exact hfits

theorem has_of_any {rows : List ChatMessage} (h : rows.any (carries id) = true) :
    Has (fun r => id ∈ identitiesOf r) rows := any_carries.mp h

theorem Filed.load (h : Filed id s) {j : Job} (hhead : s.jobs.head? = some j) (hop : j.op = .load)
    {ok backupOk : Bool} (hmerge : mergesFiled sent id s (.start ok backupOk) = true)
    (hadds : addsInOrder sent id s (.start ok backupOk) = true) :
    Filed id (s.loadHistoryLocked ok backupOk).next := by
  obtain ⟨op, token⟩ := j
  obtain rfl : op = .load := hop
  simp only [mergesFiled, hhead, Bool.or_eq_true, Bool.not_eq_true'] at hmerge
  simp only [addsInOrder, hhead, Bool.or_eq_true, Bool.not_eq_true'] at hadds
  refine ⟨h.safe.load ok backupOk (fun hok hno hfile => ?_) (fun hr => ?_), fits_waiting rfl⟩
  · have hbrings : loadBrings id s = true := by
      rcases hmerge with ((hbad | hbad) | hbad) | hbrings
      · rw [hok] at hbad
        contradiction
      · rw [hno] at hbad
        contradiction
      · rw [any_carries.mpr hfile] at hbad
        contradiction
      · exact hbrings
    obtain ⟨r, hr, hrow⟩ := List.any_eq_true.mp hbrings
    simp only [Bool.and_eq_true, Bool.or_eq_true, Bool.not_eq_true'] at hrow
    obtain ⟨⟨hid, hdeleted⟩, hlive⟩ := hrow
    unfold Store.loadHistoryLocked
    cases hmain : s.main with
    | none =>
      rw [Store.mainRows_of_none hmain] at hfile
      exact absurd hfile not_has_nil
    | some file =>
      have hrows : s.mainRows = file.messages := by
        unfold Store.mainRows
        rw [hmain]
        rfl
      dsimp only
      rw [if_pos hok]
      rw [Store.rows_install]
      change Has _ ((installLoadedHistory s.cache file.messages s.isDeleted
        file.lastViewTimestamp false).cache.getD [])
      have hsame := reconcile_same file.lastViewTimestamp r
      rw [hrows] at hr
      refine has_install_row (r := reconcile file.lastViewTimestamp r) ?_ ?_ fun hrep => ?_
      · refine List.mem_map_of_mem ?_
        rw [sortChatMessagesChronologically, List.mem_insertionSort]
        refine List.mem_filter.mpr ⟨hr, ?_⟩
        rw [hdeleted]
        rfl
      · rw [hsame.2.2.1]
        exact of_decide_eq_true hid
      · refine has_of_any (hlive.resolve_left fun hno => ?_)
        have : represented s.rows r = true := by
          unfold represented at hrep ⊢
          rw [hsame.1, hsame.2.1, hsame.2.2.1] at hrep
          exact hrep
        rw [this] at hno
        contradiction
  · rcases hadds with (hrows | hnew) | horder
    · exact .inl (has_of_any hrows)
    · rw [any_carries.mpr hr] at hnew
      contradiction
    · exact .inr horder

theorem spared_archive {ok backupOk : Bool} {ids : List String} {cached : Bool} {r : Removal} {token : ℕ}
    (hhead : s.jobs.head? = some ⟨.removeRows ids cached r, token⟩)
    (hspare : removesOthers id s (.start ok backupOk) = true) :
    ∀ m ∈ s.archive.rows ++ s.pendingArchive, id ∈ identitiesOf m → Store.hits ids m = false := by
  intro m hm hid
  simp only [removesOthers, hhead] at hspare
  have hall := List.all_eq_true.mp hspare m hm
  rw [Bool.or_eq_true, Bool.not_eq_true', Bool.not_eq_true'] at hall
  exact hall.resolve_right fun hno => carries_eq_false.mp hno hid

theorem Filed.start (h : Filed id s) {j : Job} (hhead : s.jobs.head? = some j)
    (hwaiting : s.phase = .waiting) {ok backupOk : Bool}
    (hspare : removesOthers id s (.start ok backupOk) = true)
    (hmerge : mergesFiled sent id s (.start ok backupOk) = true)
    (hadds : addsInOrder sent id s (.start ok backupOk) = true) :
    Filed id (s.startJob j ok backupOk) := by
  obtain ⟨htoken, hclear⟩ := h.safe.orderly.current j (List.mem_of_mem_head? hhead)
  rw [Store.startJob_current htoken]
  obtain ⟨op, token⟩ := j
  cases op with
  | save w =>
    refine h.advance hhead rfl (fun _ _ hb => by contradiction) (fun hw => ?_) fun hc => ?_
    · rw [hwaiting]
      exact hw
    · rw [hwaiting] at hc
      exact hc
  | load => exact h.load hhead rfl hmerge hadds
  | archived =>
    refine ⟨?_, fits_waiting rfl⟩
    dsimp only [Store.readArchive]
    split_ifs
    · exact h.safe.next.same rfl rfl rfl rfl rfl rfl rfl fun hm => hm
    · exact h.safe.next.same rfl rfl rfl rfl rfl rfl rfl fun hm => hm
  | removeRows ids cached r =>
    dsimp only
    split_ifs with hok
    · rw [Bool.and_eq_true, Bool.not_eq_true'] at hok
      exact ⟨h.safe.removeRows hhead hok.2 (spared_archive hhead hspare) cached r, fits_waiting rfl⟩
    · exact ⟨h.safe.next.same rfl rfl rfl rfl rfl rfl rfl fun hm => hm, fits_waiting rfl⟩
  | drain waiters =>
    refine h.advance hhead (.inr ⟨waiters, rfl⟩) (fun rows gen hb => ?_) (fun hw => ?_) fun hc => ?_
    · obtain ⟨rfl, rfl⟩ := Phase.draining.inj hb
      exact ⟨rfl, List.prefix_rfl⟩
    · rw [hwaiting]
      exact hw
    · rw [hwaiting] at hc
      exact hc
  | clear called => exact absurd rfl (hclear called)

theorem Filed.fail (h : s.Safe (fun r => id ∈ identitiesOf r) .filed) (op : Op) : Filed id (s.fail op) :=
  ⟨h.fail op, fits_waiting (fail_waiting s op)⟩

theorem Filed.jobStep (h : Filed id s) {j : Job} (hhead : s.jobs.head? = some j)
    (he : s.jobStep j e = some u) (hclean : archivesClean sent s e = true)
    (hspare : removesOthers id s e = true) (hmerge : mergesFiled sent id s e = true)
    (hadds : addsInOrder sent id s e = true) : Filed id u := by
  obtain ⟨op, token⟩ := j
  cases e with
  | refused =>
    simp only [Store.jobStep] at he
    split_ifs at he
    obtain rfl := Option.some.inj he
    exact Filed.fail h.safe op
  | start ok backupOk =>
    simp only [Store.jobStep] at he
    split_ifs at he with hphase hbad
    · obtain rfl := Option.some.inj he
      exact Filed.fail h.safe op
    · obtain rfl := Option.some.inj he
      exact h.start hhead (not_not.mp hphase) hspare hmerge hadds
  | copied c =>
    simp only [Store.jobStep] at he
    split_ifs at he with hphase
    obtain ⟨v, hv, rfl⟩ := Option.map_eq_some_iff.mp he
    obtain ⟨backup, rfl, -⟩ := Store.copy_shape hv
    have hfits := h.fits _ hhead
    rw [hphase] at hfits
    refine h.advance hhead (.inl hfits) (fun rows gen hb => ?_) (fun hw => ?_) fun hc => ?_
    · obtain ⟨rfl, rfl⟩ := Phase.draining.inj hb
      exact ⟨rfl, List.prefix_rfl⟩
    · rw [hphase]
      exact hw
    · rw [hphase] at hc
      exact hc
  | drained =>
    have hended : ∀ batch gen, s.phase = .draining batch gen → batch ≠ [] →
        s.archive.tail = none ∧ s.archive.malformed = false := by
      intro batch gen hphase hne
      unfold archivesClean cutsClean at hclean
      rw [hphase] at hclean
      obtain ⟨m, batch, rfl⟩ := List.exists_cons_of_ne_nil hne
      simpa using hclean
    simp only [Store.jobStep] at he
    split at he
    · rename_i batch gen w hphase
      obtain rfl := Option.some.inj he
      refine ⟨h.safe.drained hhead hphase (hended batch gen hphase), fun i hi => ?_⟩
      have hjobs : (s.drainDone batch gen).jobs = s.jobs := by
        rw [Store.drainDone_eq]
      change (s.drainDone batch gen).jobs.head? = some i at hi
      rw [hjobs, hhead] at hi
      obtain rfl := Option.some.inj hi
      exact rfl
    · rename_i batch gen waiters hphase
      obtain rfl := Option.some.inj he
      exact ⟨h.safe.drainedAlone hhead hphase (hended batch gen hphase) waiters, fits_waiting rfl⟩
    · contradiction
  | drainFailed k cut =>
    simp only [Store.jobStep] at he
    split at he
    · rename_i batch gen hphase
      split_ifs at he
      obtain ⟨archive, harchive, rfl⟩ := Option.map_eq_some_iff.mp he
      refine Filed.fail (h.safe.archiveGrows fun ha => ?_) op
      unfold archivesClean cutsClean at hclean
      simp only [Bool.or_eq_true, Bool.and_eq_true, decide_eq_true_eq, Bool.not_eq_true'] at hclean
      rcases hclean with ⟨rfl, rfl⟩ | ⟨⟨htail, hread⟩, hcut⟩
      · rw [ArchiveFile.appendTorn_nothing] at harchive
        rw [← Option.some.inj harchive]
        exact ha
      · exact ha.mono fun r hr => ArchiveFile.mem_rows_appendTorn htail hread hcut harchive hr
    · contradiction
  | tempWritten ok =>
    simp only [Store.jobStep] at he
    split at he
    · rename_i file hphase
      split_ifs at he
      · obtain rfl := Option.some.inj he
        have hfits := h.fits _ hhead
        rw [hphase] at hfits
        refine h.advance hhead hfits (fun _ _ hb => by contradiction) (fun hw => ?_) fun hc => ?_
        · rw [hphase]
          exact hw
        · rw [hphase] at hc
          exact hc
      · obtain rfl := Option.some.inj he
        have htorn : { s with temp := .torn }.Safe (fun r => id ∈ identitiesOf r) .filed :=
          h.safe.same rfl rfl rfl rfl rfl rfl rfl fun hm => hm
        exact Filed.fail htorn op
    · contradiction
  | renamed ok =>
    simp only [Store.jobStep] at he
    split at he
    · rename_i file w hphase
      split_ifs at he
      · obtain rfl := Option.some.inj he
        refine ⟨h.safe.renamed hhead hphase _, fun i hi => ?_⟩
        change s.jobs.head? = some i at hi
        rw [hhead] at hi
        obtain rfl := Option.some.inj hi
        exact rfl
      · obtain rfl := Option.some.inj he
        exact Filed.fail h.safe _
    · contradiction
  | finished =>
    simp only [Store.jobStep] at he
    split at he
    · rename_i w hphase
      obtain rfl := Option.some.inj he
      exact ⟨h.safe.finished w, fits_waiting (complete_grows _ w).1⟩
    · contradiction
  | backupDeleted =>
    simp only [Store.jobStep] at he
    split_ifs at he with hphase
    have hfits := h.fits _ hhead
    rw [hphase] at hfits
    cases op with
    | clear called => exact absurd rfl ((h.safe.orderly.current _ (List.mem_of_mem_head? hhead)).2 called)
    | _ => contradiction
  | archiveDeleted =>
    simp only [Store.jobStep] at he
    split at he
    · exact absurd rfl ((h.safe.orderly.current _ (List.mem_of_mem_head? hhead)).2 _)
    · contradiction
  | _ => contradiction

/-- No row with the identity is among those a removal takes from the list. -/
theorem spared_rows {msgID : String} (hspare : removesOthers id s (.remove msgID) = true) :
    ∀ r ∈ s.rows, id ∈ identitiesOf r → idMatches r msgID = false := by
  intro r hr hid
  have hall := List.all_eq_true.mp hspare r hr
  rw [Bool.or_eq_true, Bool.not_eq_true', Bool.not_eq_true'] at hall
  exact hall.resolve_right fun hno => carries_eq_false.mp hno hid

/-- A merge into a row that has the identity hands the row on. -/
theorem handed {rows rows' : List ChatMessage}
    (h : (!rows.any (carries id) || rows'.any (carries id)) = true)
    (hr : Has (fun r => id ∈ identitiesOf r) rows) : Has (fun r => id ∈ identitiesOf r) rows' := by
  rw [Bool.or_eq_true, Bool.not_eq_true', any_carries.mpr hr] at h
  exact has_of_any (h.resolve_left fun hno => Bool.false_ne_true hno.symm)

/-- A row that comes into the list was there, or comes in order. -/
theorem ordered {rows rows' : List ChatMessage} {late : Bool}
    (h : (rows.any (carries id) || !rows'.any (carries id) || !late) = true)
    (hr : Has (fun r => id ∈ identitiesOf r) rows') :
    Has (fun r => id ∈ identitiesOf r) rows ∨ late = false := by
  rw [Bool.or_eq_true, Bool.or_eq_true, Bool.not_eq_true', Bool.not_eq_true', any_carries.mpr hr] at h
  exact h.imp_left fun h => has_of_any (h.resolve_right fun hno => Bool.false_ne_true hno.symm)

/-- A save is called with the rows of the file, or there is nothing to save. -/
theorem saved_merged {saves merged : Bool} (h : (!saves || merged) = true) (hs : saves = true) :
    merged = true := by
  rw [hs] at h
  exact h

theorem backup_rows (s : Store) (rows : List ChatMessage) (backupOk : Bool) :
    (Store.loadFromBackup { s with returned := rows } backupOk).rows = (s.loadFromBackup backupOk).rows := by
  unfold Store.loadFromBackup
  dsimp only
  split
  · split_ifs
    · rw [Store.rows_install, Store.rows_install]
      rfl
    · rfl
  · rfl

/-- What a load brings does not depend on what the last load returned. -/
theorem loaded_rows (s : Store) (rows : List ChatMessage) (ok backupOk : Bool) :
    (Store.loadHistoryLocked { s with returned := rows } ok backupOk).rows =
      (s.loadHistoryLocked ok backupOk).rows := by
  unfold Store.loadHistoryLocked
  dsimp only
  split
  · exact backup_rows s rows backupOk
  · split_ifs
    · rw [Store.rows_install, Store.rows_install]
      rfl
    · exact backup_rows s rows backupOk

theorem adds_again (hadds : addsInOrder sent id s e = true) :
    addsInOrder sent id { s with returned := [] } e = true := by
  cases e with
  | start ok backupOk =>
    simp only [addsInOrder, loaded_rows] at hadds ⊢
    exact hadds
  | _ => exact hadds

theorem Filed.step (h : Filed id s) (hcond : keepsFiled sent id s e) (he : s.step sent e = some u) :
    Filed id u := by
  obtain ⟨hmerged, hclean, hspare, hmerge, hadds⟩ := hcond
  have hs : Filed id { s with returned := [] } :=
    ⟨h.safe.same rfl rfl rfl rfl rfl rfl rfl fun hm => hm, h.fits⟩
  cases e with
  | append m =>
    obtain rfl := Option.some.inj he
    refine ⟨hs.safe.append (saved_merged hmerged) (fun hboth => ?_) (handed hmerge) (ordered hadds), ?_⟩
    · have hno : (!(overflows sent s m && listStillToRead s)) = true := hclean
      rw [show overflows sent s m = true from hboth.1, show listStillToRead s = true from hboth.2] at hno
      contradiction
    · refine hs.grown ?_
      unfold Store.appendHistory
      dsimp only
      split_ifs
      · exact ⟨rfl, List.prefix_rfl⟩
      · exact saveHistory_grows ..
  | update msgID updated =>
    obtain rfl := Option.some.inj he
    refine ⟨hs.safe.update (saved_merged hmerged) (handed hmerge) (ordered hadds), hs.grown ?_⟩
    unfold Store.updateMessage
    split_ifs
    · exact saveHistory_grows ..
    · exact ⟨rfl, List.prefix_rfl⟩
  | remove msgID =>
    obtain rfl := Option.some.inj he
    refine ⟨hs.safe.remove (saved_merged hmerged) (spared_rows hspare), hs.grown ?_⟩
    unfold Store.removeMessage
    dsimp only
    split_ifs
    · exact ⟨rfl, List.prefix_append ..⟩
    · exact saveHistory_grows ..
  | clear => contradiction
  | load =>
    obtain rfl := Option.some.inj he
    exact ⟨hs.safe.enqueue_plain (fun _ => by simp) rfl, hs.grown ⟨rfl, List.prefix_append ..⟩⟩
  | archived =>
    obtain rfl := Option.some.inj he
    unfold Store.loadArchivedHistory
    split
    · exact ⟨hs.safe.same rfl rfl rfl rfl rfl rfl rfl fun hm => hm, hs.fits⟩
    · exact ⟨hs.safe.enqueue_plain (fun _ => by simp) rfl, hs.grown ⟨rfl, List.prefix_append ..⟩⟩
  | dropCache =>
    obtain rfl := Option.some.inj he
    refine ⟨hs.safe.dropCache hs.fits, fun j hj => ?_⟩
    change (s.jobs.map (Store.detached s.rows)).head? = some j at hj
    rw [List.head?_map, Option.map_eq_some_iff] at hj
    obtain ⟨i, hi, rfl⟩ := hj
    exact Store.fits_detached (h.fits i hi)
  | debounced =>
    obtain ⟨waiters, -, rfl⟩ := Option.map_eq_some_iff.mp he
    have hoff : Filed id { s with returned := [], debounce := none } :=
      ⟨h.safe.same rfl rfl rfl rfl rfl rfl rfl fun hm => hm, h.fits⟩
    exact ⟨hoff.safe.resaveCached (saved_merged hmerged) waiters, hoff.grown (resaveCached_grows ..)⟩
  | retried =>
    simp only [Store.step, Store.act] at he
    split_ifs at he
    obtain rfl := Option.some.inj he
    have hoff : Filed id { s with returned := [], retry := false } :=
      ⟨h.safe.same rfl rfl rfl rfl rfl rfl rfl fun hm => hm, h.fits⟩
    exact ⟨hoff.safe.resaveCached (saved_merged hmerged) [], hoff.grown (resaveCached_grows ..)⟩
  | flushDirty =>
    simp only [Store.step, Store.act] at he
    split_ifs at he
    obtain rfl := Option.some.inj he
    unfold Store.flushDirtyAfterLoad
    dsimp only
    split
    · exact ⟨hs.safe.same rfl rfl rfl rfl rfl rfl rfl fun hm => hm, hs.fits⟩
    · rename_i list hlist
      have hoff : Filed id { s with returned := [], dirtyAfterLoad := false } :=
        ⟨h.safe.same rfl rfl rfl rfl rfl rfl rfl fun hm => hm, h.fits⟩
      refine ⟨hoff.safe.saveHistory ?_ (saved_merged hmerged) [] none, hoff.grown (saveHistory_grows ..)⟩
      unfold Store.rows
      exact (congrArg (Option.getD · []) hlist).symm
  | flush =>
    obtain rfl := Option.some.inj he
    refine ⟨hs.safe.flush (saved_merged hmerged), hs.grown ?_⟩
    unfold Store.flushConversation
    dsimp only
    split_ifs
    · exact ⟨rfl, List.prefix_append ..⟩
    · exact resaveCached_grows ..
  | crash =>
    obtain rfl := Option.some.inj he
    exact ⟨Store.Safe.crash _, fits_waiting rfl⟩
  | _ =>
    obtain ⟨j, hj, he⟩ := Option.bind_eq_some_iff.mp he
    exact hs.jobStep hj he hclean hspare hmerge (adds_again hadds)

theorem Filed.open (main : Option HistoryFile) (temp backup : FileState) (archive : ArchiveFile) :
    Filed id (opened main temp backup archive) := by
  refine ⟨⟨⟨fun _ => rfl, fun j hj => absurd hj List.not_mem_nil, fun _ _ hb => by contradiction⟩,
    fun ho hmerged => ?_⟩, fun j hj => by contradiction⟩
  have hnone : main = none := of_decide_eq_true hmerged
  change Has _ (opened main temp backup archive).mainRows at ho
  rw [Store.mainRows_of_none (s := opened main temp backup archive) hnone] at ho
  exact absurd ho not_has_nil

end

/-- A save never takes a row out of the file that the archive does not have, unless the row was
    removed or merged away, when every save was called with the rows of the file in the list. -/
theorem save_keeps_filed_rows (sent : Option (String → Bool)) (main : Option HistoryFile)
    (temp backup : FileState) (archive : ArchiveFile) (id : String) (es : List Event) (s u : Store)
    (hrun : exec (Store.step sent) (opened main temp backup archive) es = some s)
    (hmeets : Meets (Store.step sent) (keepsFiled sent id) (opened main temp backup archive) es)
    (hsave : s.step sent (.renamed true) = some u)
    (hrow : ∃ r ∈ s.mainRows, id ∈ identitiesOf r) :
    ∃ r ∈ u.mainRows ++ u.archive.rows, id ∈ identitiesOf r := by
  have hs : Filed id s :=
    invariant_of_meets (fun _ _ _ h hc he => h.step hc he) (Filed.open main temp backup archive) hmeets hrun
  obtain ⟨⟨op, token⟩, hhead, he⟩ := Option.bind_eq_some_iff.mp hsave
  obtain ⟨js, hjobs⟩ : ∃ js, s.jobs = ⟨op, token⟩ :: js := List.head?_eq_some_iff.mp hhead
  simp only [Store.jobStep] at he
  split at he
  · rename_i file w hphase
    rw [if_pos trivial] at he
    obtain rfl := Option.some.inj he
    -- the save that holds the lock owes the row and has it, or finds it archived
    have htrail := hs.safe.trail
    rw [hjobs] at htrail
    have hcover := htrail.head (.inl ⟨rfl, hrow⟩)
    rw [show s.phase = .written file from hphase] at hcover
    exact has_append.mpr hcover
  · contradiction

/-- A file with one row. -/
def oneRow : HistoryFile := { lastViewTimestamp := 0, messages := [incoming "m1" "a" 1000] }

/-- A save up to its rename. -/
def written : List Event := saveSteps.take 4

/-- The run that loads the file before the first row is appended. -/
def loadedAppend : List Event :=
  [.load, .start true true, .append (incoming "m2" "b" 2000), .debounced] ++ written

def afterLoadedAppend : Store :=
  (exec (Store.step none) (opened (some oneRow) .absent .absent {}) loadedAppend).getD {}

def afterLoadedSave : Store := (afterLoadedAppend.step none (.renamed true)).getD {}

theorem loaded_append_keeps_row : ∃ r ∈ afterLoadedSave.mainRows ++ afterLoadedSave.archive.rows,
    "m1" ∈ identitiesOf r :=
  save_keeps_filed_rows none (some oneRow) .absent .absent {} "m1" loadedAppend afterLoadedAppend
    afterLoadedSave (by decide) (by decide) (by decide) ⟨incoming "m1" "a" 1000, by decide, by decide⟩

/-- The run that appends before the first load. -/
def earlyAppend : List Event := [.append (incoming "m2" "b" 2000), .debounced] ++ written

def afterEarlyAppend : Store :=
  (exec (Store.step none) (opened (some oneRow) .absent .absent {}) earlyAppend).getD {}

def afterEarlySave : Store := (afterEarlyAppend.step none (.renamed true)).getD {}

/-- The debounced save of the row writes the one row over the file. -/
theorem early_append_discards_row :
    exec (Store.step none) (opened (some oneRow) .absent .absent {}) earlyAppend = some afterEarlyAppend ∧
    afterEarlyAppend.step none (.renamed true) = some afterEarlySave ∧
    (∃ r ∈ afterEarlyAppend.mainRows, "m1" ∈ identitiesOf r) ∧
    ¬∃ r ∈ afterEarlySave.mainRows ++ afterEarlySave.archive.rows, "m1" ∈ identitiesOf r :=
  ⟨by decide, by decide, ⟨incoming "m1" "a" 1000, by decide, by decide⟩, by decide⟩

end Tim2Tox.HistoryStore
