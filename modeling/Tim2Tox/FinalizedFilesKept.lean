import Mathlib.Tactic.Common
import Tim2Tox.FinalizedFiles

set_option autoImplicit false

/-!
# Finalised files are kept

What one await of one call leaves alone for all the others, and what follows for interleaved runs.
-/
namespace Tim2Tox.FinalizedFiles
open FileDisks LabelledRuns

variable {ι : Type}

/-- The call has tried to copy, or has no need to. -/
def copied : Pc → Bool
  | .rename .stage _ => true
  | .checkStage _ => true
  | .deleteStage _ => true
  | .checkDest _ => true
  | .deleteDest _ => true
  | .deleteSource _ => true
  | .done _ => true
  | .failed => true
  | _ => false

/-- What a call has on the disk. -/
structure Owns (P : PathRules) (before : Files) (c : Call) (disk : Files) (pc : Pc) : Prop where
  dest : ∀ dest, destOf pc = some dest → (∃ i, dest = candidate P c i) ∧ disk.entry dest ≠ none
  staged : ∀ dest, pc = .rename .stage dest → HasSource before c disk (stage c dest)
  published : ∀ dest, pc = .done dest ∨ pc = .deleteSource dest → HasSource before c disk dest
  moving : ∀ dest, pc = .rename .source dest ∨ pc = .deleteSource dest → c.moveSource = true
  posix : ∀ what dest, pc ≠ .dropReservation what dest ∧ pc ≠ .checkReservation dest ∧
    pc ≠ .reserveAgain dest

structure Sound (P : PathRules) (calls : ι → Call) (before : Files) (s : State ι) : Prop where
  later : before.fresh ≤ s.disk.fresh
  content : ∀ file, file < before.fresh → s.disk.content file = before.content file
  known : ∀ name file, s.disk.entry name = some file → before.entry name = some file ∨
    (∃ c i, name = candidate P (calls c) i) ∨
      ∃ c i, copied (s.pc c) = true ∧ name = stage (calls c) (candidate P (calls c) i)
  kept : ∀ name file, before.entry name = some file →
    s.disk.entry name = some file ∨ Moved calls s name
  free : ∀ c dest, destOf (s.pc c) = some dest → ∀ file, before.entry dest = some file →
    Moved calls s dest
  distinct : ∀ c d dest, destOf (s.pc c) = some dest → destOf (s.pc d) = some dest → c = d
  owns : ∀ c, Owns P before (calls c) s.disk (s.pc c)

/-! ## One step -/

section
variable {P : PathRules} {calls : ι → Call} {before : Files} {s : State ι} {c : ι} {disk' : Files}
  {pc' : Pc}

theorem HasSource.frame {call : Call} {disk : Files} {name : String}
    (h : HasSource before call disk name) (hentry : disk'.entry name = disk.entry name)
    (hcontent : ∀ file, file < disk.fresh → disk'.content file = disk.content file) :
    HasSource before call disk' name := by
  obtain ⟨file, source, hfile, hsource, hbytes⟩ := h
  refine ⟨file, source, hentry.trans hfile, hsource, ?_⟩
  rw [hcontent file (disk.named name file hfile)]
  exact hbytes

theorem Owns.frame {call : Call} {disk : Files} {pc : Pc} (h : Owns P before call disk pc)
    (hentry : ∀ dest, destOf pc = some dest → disk'.entry dest = disk.entry dest ∧
      disk'.entry (stage call dest) = disk.entry (stage call dest))
    (hcontent : ∀ file, file < disk.fresh → disk'.content file = disk.content file) :
    Owns P before call disk' pc := by
  constructor
  · intro dest hdest
    obtain ⟨hcandidate, hthere⟩ := h.dest dest hdest
    rw [(hentry dest hdest).1]
    exact ⟨hcandidate, hthere⟩
  · intro dest hpc
    have hdest : destOf pc = some dest := by
      rw [hpc]
      rfl
    exact (h.staged dest hpc).frame (hentry dest hdest).2 hcontent
  · intro dest hpc
    have hdest : destOf pc = some dest := by
      cases hpc with
      | inl hdone =>
        rw [hdone]
        rfl
      | inr hdelete =>
        rw [hdelete]
        rfl
    exact (h.published dest hpc).frame (hentry dest hdest).1 hcontent
  · exact h.moving
  · exact h.posix

theorem Moved.after [DecidableEq ι] {name : String} (h : Moved calls s name) (hrunning : ∀ dest, s.pc c ≠ .done dest) :
    Moved calls ⟨disk', Function.update s.pc c pc'⟩ name := by
  obtain ⟨d, dest, hsource, hmove, hdone⟩ := h
  refine ⟨d, dest, hsource, hmove, ?_⟩
  have hd : d ≠ c := by
    rintro rfl
    exact hrunning dest hdone
  change Function.update s.pc c pc' d = _
  rw [Function.update_of_ne hd]
  exact hdone

/-- What a step of one call has to keep to for the others. -/
theorem Sound.move [DecidableEq ι] (h : Sound P calls before s) (hrunning : ∀ dest, s.pc c ≠ .done dest)
    (hfresh : s.disk.fresh ≤ disk'.fresh)
    (hcontent : ∀ file, file < s.disk.fresh → disk'.content file = s.disk.content file)
    (hothers : ∀ d, d ≠ c → ∀ dest, destOf (s.pc d) = some dest →
      disk'.entry dest = s.disk.entry dest ∧
        disk'.entry (stage (calls d) dest) = s.disk.entry (stage (calls d) dest))
    (hknown : ∀ name file, disk'.entry name = some file → s.disk.entry name = some file ∨
      (∃ i, name = candidate P (calls c) i) ∨
        ∃ i, copied pc' = true ∧ name = stage (calls c) (candidate P (calls c) i))
    (hcopied : copied (s.pc c) = true → copied pc' = true)
    (hlost : ∀ name file, before.entry name = some file → s.disk.entry name = some file →
      disk'.entry name = some file ∨ Moved calls s name ∨
        (calls c).source = name ∧ (calls c).moveSource = true ∧ ∃ dest, pc' = .done dest)
    (hdest : ∀ dest, destOf pc' = some dest →
      destOf (s.pc c) = some dest ∨ s.disk.entry dest = none)
    (howns : Owns P before (calls c) disk' pc') :
    Sound P calls before ⟨disk', Function.update s.pc c pc'⟩ := by
  have hself : Function.update s.pc c pc' c = pc' := Function.update_self _ _ _
  have hother : ∀ d, d ≠ c → Function.update s.pc c pc' d = s.pc d :=
    fun d hd => Function.update_of_ne hd _ _
  -- a destination that was not taken belongs to no other call
  have hnew : ∀ dest, destOf pc' = some dest → ∀ d, d ≠ c → destOf (s.pc d) ≠ some dest := by
    intro dest hpc d hd hsame
    cases hdest dest hpc with
    | inl hold => exact hd (h.distinct d c dest hsame hold)
    | inr hnone => exact ((h.owns d).dest dest hsame).2 hnone
  constructor
  · exact Nat.le_trans h.later hfresh
  · intro file hfile
    rw [← h.content file hfile]
    exact hcontent file (Nat.lt_of_lt_of_le hfile h.later)
  · intro name file hname
    rcases hknown name file hname with hsame | hcandidate | hstage
    · rcases h.known name file hsame with hinitial | hcandidate | ⟨d, i, hd, hstage⟩
      · exact .inl hinitial
      · exact .inr (.inl hcandidate)
      · refine .inr (.inr ⟨d, i, ?_, hstage⟩)
        change copied (Function.update s.pc c pc' d) = true
        by_cases hc : d = c
        · rw [hc, hself]
          exact hcopied (hc ▸ hd)
        · rw [hother d hc]
          exact hd
    · exact .inr (.inl ⟨c, hcandidate⟩)
    · obtain ⟨i, hcopy, hstage⟩ := hstage
      refine .inr (.inr ⟨c, i, ?_, hstage⟩)
      change copied (Function.update s.pc c pc' c) = true
      rw [hself]
      exact hcopy
  · intro name file hname
    cases h.kept name file hname with
    | inr hmoved => exact .inr (hmoved.after hrunning)
    | inl hthere =>
      rcases hlost name file hname hthere with hsame | hmoved | ⟨hsource, hmove, dest, hdone⟩
      · exact .inl hsame
      · exact .inr (hmoved.after hrunning)
      · exact .inr ⟨c, dest, hsource, hmove, hself.trans hdone⟩
  · intro d dest hpc file hname
    change destOf (Function.update s.pc c pc' d) = some dest at hpc
    by_cases hc : d = c
    · rw [hc, hself] at hpc
      cases hdest dest hpc with
      | inl hold => exact (h.free c dest hold file hname).after hrunning
      | inr hnone =>
        cases h.kept dest file hname with
        | inl hthere => cases hnone.symm.trans hthere
        | inr hmoved => exact hmoved.after hrunning
    · rw [hother d hc] at hpc
      exact (h.free d dest hpc file hname).after hrunning
  · intro d e dest hd he
    change destOf (Function.update s.pc c pc' d) = some dest at hd
    change destOf (Function.update s.pc c pc' e) = some dest at he
    by_cases hdc : d = c
    · by_cases hec : e = c
      · rw [hdc, hec]
      · rw [hdc, hself] at hd
        rw [hother e hec] at he
        cases hnew dest hd e hec he
    · rw [hother d hdc] at hd
      by_cases hec : e = c
      · rw [hec, hself] at he
        cases hnew dest he d hdc hd
      · rw [hother e hec] at he
        exact h.distinct d e dest hd he
  · intro d
    change Owns P before (calls d) disk' (Function.update s.pc c pc' d)
    by_cases hc : d = c
    · rw [hc, hself]
      exact howns
    · rw [hother d hc]
      exact (h.owns d).frame (hothers d hc) hcontent

/-- The pcs that promise nothing but the destination. -/
def plain : Pc → Bool
  | .createDir => true
  | .reserve _ => true
  | .taken _ => true
  | .copy _ => true
  | .checkStage _ => true
  | .deleteStage _ => true
  | .checkDest _ => true
  | .deleteDest _ => true
  | .failed => true
  | _ => false

theorem Owns.of_plain {call : Call} {disk : Files} {pc : Pc} (hplain : plain pc = true)
    (hdest : ∀ dest, destOf pc = some dest →
      (∃ i, dest = candidate P call i) ∧ disk.entry dest ≠ none) : Owns P before call disk pc := by
  constructor
  · exact hdest
  · intro dest hpc
    rw [hpc] at hplain
    cases hplain
  · intro dest hpc
    cases hpc with
    | inl hdone =>
      rw [hdone] at hplain
      cases hplain
    | inr hdelete =>
      rw [hdelete] at hplain
      cases hplain
  · intro dest hpc
    cases hpc with
    | inl hrename =>
      rw [hrename] at hplain
      cases hplain
    | inr hdelete =>
      rw [hdelete] at hplain
      cases hplain
  · intro what dest
    refine ⟨?_, ?_, ?_⟩ <;> intro hpc <;> rw [hpc] at hplain <;> cases hplain

/-- A step that leaves the disk as it is. -/
theorem Sound.turn [DecidableEq ι] (h : Sound P calls before s) (hrunning : ∀ dest, s.pc c ≠ .done dest)
    (hplain : plain pc' = true) (hcopied : copied (s.pc c) = true → copied pc' = true)
    (hdest : ∀ dest, destOf pc' = some dest → destOf (s.pc c) = some dest) :
    Sound P calls before ⟨s.disk, Function.update s.pc c pc'⟩ := by
  apply h.move hrunning (Nat.le_refl _)
  · exact fun file hfile => rfl
  · exact fun d hd dest hpc => ⟨rfl, rfl⟩
  · exact fun name file hname => .inl hname
  · exact hcopied
  · exact fun name file hname hthere => .inl hthere
  · exact fun dest hpc => .inl (hdest dest hpc)
  · exact .of_plain hplain fun dest hpc => (h.owns c).dest dest (hdest dest hpc)

/-- The destination of one call is not the source of another that is not done. -/
theorem Sound.dest_ne_source (h : Sound P calls before s) (hsep : Separate P calls before)
    (hrunning : ∀ dest, s.pc c ≠ .done dest) {d : ι} {dest : String}
    (hdest : destOf (s.pc d) = some dest) : dest ≠ (calls c).source := by
  intro heq
  obtain ⟨source, hsource⟩ := Option.ne_none_iff_exists'.mp (hsep.sources c)
  obtain ⟨e, moved, hshared, hmove, hdone⟩ := h.free d dest hdest source (heq ▸ hsource)
  obtain ⟨i, hi⟩ := ((h.owns d).dest dest hdest).1
  have hce : c ≠ e := by
    rintro rfl
    exact hrunning moved hdone
  exact hsep.shared c e hce (heq.symm.trans hshared.symm) d i (hi.symm.trans heq)

/-- What the source of a call that is not done leads to was there before. -/
theorem Sound.source_before (h : Sound P calls before s) (hsep : Separate P calls before)
    (hrunning : ∀ dest, s.pc c ≠ .done dest) {file : ℕ}
    (hfile : s.disk.entry (calls c).source = some file) :
    before.entry (calls c).source = some file := by
  obtain ⟨source, hsource⟩ := Option.ne_none_iff_exists'.mp (hsep.sources c)
  rcases h.known _ file hfile with hinitial | ⟨d, i, hcandidate⟩ | ⟨d, i, hd, hstage⟩
  · exact hinitial
  · cases h.kept _ source hsource with
    | inl hthere =>
      rw [hsource]
      exact hthere.symm.trans hfile
    | inr hmoved =>
      obtain ⟨e, moved, hshared, hmove, hdone⟩ := hmoved
      have hce : c ≠ e := by
        rintro rfl
        exact hrunning moved hdone
      cases hsep.shared c e hce hshared.symm d i hcandidate.symm
  · have hnone := hsep.newStage d i
    rw [← hstage, hsource] at hnone
    cases hnone

theorem Sound.source_content (h : Sound P calls before s) (hsep : Separate P calls before)
    (hrunning : ∀ dest, s.pc c ≠ .done dest) {file : ℕ}
    (hfile : s.disk.entry (calls c).source = some file) :
    before.entry (calls c).source = some file ∧ s.disk.content file = before.content file := by
  have hbefore := h.source_before hsep hrunning hfile
  exact ⟨hbefore, h.content file (before.named _ file hbefore)⟩

/-- There is no stage before it is written. -/
theorem Sound.no_stage (h : Sound P calls before s) (hsep : Separate P calls before) {i : ℕ}
    (hcopied : copied (s.pc c) = false) :
    s.disk.entry (stage (calls c) (candidate P (calls c) i)) = none := by
  cases hentry : s.disk.entry (stage (calls c) (candidate P (calls c) i)) with
  | none => rfl
  | some file =>
    rcases h.known _ file hentry with hinitial | ⟨d, j, hcandidate⟩ | ⟨d, j, hd, hstage⟩
    · cases (hsep.newStage c i).symm.trans hinitial
    · cases hsep.stageOfNone c d i j hcandidate
    · by_cases hcd : c = d
      · rw [← hcd, hcopied] at hd
        cases hd
      · cases hsep.stagesApart c d i j hcd hstage

theorem Separate.stage_ne_source (hsep : Separate P calls before) {d : ι} {i : ℕ} :
    stage (calls c) (candidate P (calls c) i) ≠ (calls d).source := by
  intro heq
  have hnone := hsep.newStage c i
  rw [heq] at hnone
  exact hsep.sources d hnone

/-! ### What each await does -/

variable [DecidableEq ι] {dest : String}

theorem Sound.reserved (h : Sound P calls before s) (hsep : Separate P calls before) {i : ℕ}
    (hpc : s.pc c = .reserve i) (hnone : s.disk.entry (candidate P (calls c) i) = none)
    (hpc' : pc' = .copy (candidate P (calls c) i) ∨
      pc' = .rename .source (candidate P (calls c) i) ∧ (calls c).moveSource = true) :
    Sound P calls before
      ⟨s.disk.create (candidate P (calls c) i), Function.update s.pc c pc'⟩ := by
  have hown : destOf pc' = some (candidate P (calls c) i) := by
    rcases hpc' with rfl | ⟨rfl, hmove⟩ <;> rfl
  have hdest : ∀ dest, destOf pc' = some dest → candidate P (calls c) i = dest :=
    fun dest hdest => Option.some.inj (hown.symm.trans hdest)
  have hthere : (s.disk.create (candidate P (calls c) i)).entry (candidate P (calls c) i) ≠ none := by
    rw [Disk.entry_create_self]
    exact Option.some_ne_none _
  apply h.move
  · intro dest hdone
    cases hpc.symm.trans hdone
  · exact Nat.le_succ _
  · exact fun file hfile => Disk.content_create hfile
  · intro d hd dest hd'
    obtain ⟨⟨j, hj⟩, hold⟩ := (h.owns d).dest dest hd'
    have hne : dest ≠ candidate P (calls c) i := by
      rintro rfl
      exact hold hnone
    refine ⟨Disk.entry_create_ne hne, Disk.entry_create_ne ?_⟩
    rw [hj]
    exact hsep.stageOfNone d c j i
  · intro name file hname
    by_cases hname' : name = candidate P (calls c) i
    · exact .inr (.inl ⟨i, hname'⟩)
    · rw [Disk.entry_create_ne hname'] at hname
      exact .inl hname
  · intro hcopied
    rw [hpc] at hcopied
    cases hcopied
  · intro name file hname hold
    left
    rw [Disk.entry_create_ne]
    · exact hold
    · rintro rfl
      cases hnone.symm.trans hold
  · intro dest hpc'
    rw [← hdest dest hpc']
    exact .inr hnone
  · rcases hpc' with rfl | ⟨rfl, hmove⟩
    · apply Owns.of_plain rfl
      intro dest hpc'
      rw [← hdest dest hpc']
      exact ⟨⟨i, rfl⟩, hthere⟩
    · constructor
      · intro dest hpc'
        rw [← hdest dest hpc']
        exact ⟨⟨i, rfl⟩, hthere⟩
      · intro dest hstaged
        cases hstaged
      · intro dest hdone
        rcases hdone with hdone | hdelete
        · cases hdone
        · cases hdelete
      · exact fun dest _ => hmove
      · intro what dest
        refine ⟨?_, ?_, ?_⟩ <;> intro hwindows <;> cases hwindows

/-- The call's own source replaces its reservation. -/
theorem Sound.sourceMoved (h : Sound P calls before s) (hsep : Separate P calls before)
    (hpc : s.pc c = .rename .source dest) {file : ℕ}
    (hfile : s.disk.entry (calls c).source = some file) :
    Sound P calls before
      ⟨s.disk.rename (calls c).source dest, Function.update s.pc c (.done dest)⟩ := by
  have hrunning : ∀ dest, s.pc c ≠ .done dest := by
    intro dest hdone
    cases hpc.symm.trans hdone
  have hdest : destOf (s.pc c) = some dest := by
    rw [hpc]
    rfl
  obtain ⟨⟨i, hi⟩, hthere⟩ := (h.owns c).dest dest hdest
  have hmove := (h.owns c).moving dest (.inl hpc)
  obtain ⟨hbefore, hbytes⟩ := h.source_content hsep hrunning hfile
  obtain ⟨hentry, hcontent, hfresh⟩ := @Disk.rename_spec _ _ _ _ _ _ dest hfile
  have hkeep : ∀ name, name ≠ dest → name ≠ (calls c).source →
      (s.disk.rename (calls c).source dest).entry name = s.disk.entry name := by
    intro name hname hsource
    rw [hentry, Function.update_of_ne hname, Function.update_of_ne hsource]
  have hplaced : (s.disk.rename (calls c).source dest).entry dest = some file := by
    rw [hentry, Function.update_self]
  apply h.move hrunning
  · rw [hfresh]
  · intro n hn
    rw [hcontent]
  · intro d hd other hother
    obtain ⟨⟨j, hj⟩, hold⟩ := (h.owns d).dest other hother
    constructor
    · apply hkeep
      · rintro rfl
        exact hd (h.distinct d c other hother hdest)
      · exact h.dest_ne_source hsep hrunning hother
    · rw [hj]
      apply hkeep
      · rw [hi]
        exact hsep.stageOfNone d c j i
      · exact hsep.stage_ne_source
  · intro name n hname
    by_cases hdestName : name = dest
    · exact .inr (.inl ⟨i, hdestName.trans hi⟩)
    · by_cases hsource : name = (calls c).source
      · rw [hentry, Function.update_of_ne hdestName, hsource, Function.update_self] at hname
        cases hname
      · rw [hkeep name hdestName hsource] at hname
        exact .inl hname
  · exact fun _ => rfl
  · intro name n hname hold
    by_cases hdestName : name = dest
    · right
      left
      rw [hdestName]
      exact h.free c dest hdest n (hdestName ▸ hname)
    · by_cases hsource : name = (calls c).source
      · exact .inr (.inr ⟨hsource.symm, hmove, dest, rfl⟩)
      · left
        rw [hkeep name hdestName hsource]
        exact hold
  · intro other hother
    left
    rw [hdest]
    exact hother
  · constructor
    · intro other hother
      obtain rfl := Option.some.inj hother
      rw [hplaced]
      exact ⟨⟨i, hi⟩, Option.some_ne_none _⟩
    · intro other hstaged
      cases hstaged
    · intro other hdone
      rcases hdone with hdone | hdelete
      · cases hdone
        exact ⟨file, file, hplaced, hbefore, (congrFun hcontent file).trans hbytes⟩
      · cases hdelete
    · exact fun other _ => hmove
    · intro what other
      refine ⟨?_, ?_, ?_⟩ <;> intro hwindows <;> cases hwindows

/-- The stage replaces the reservation. -/
theorem Sound.stageMoved (h : Sound P calls before s) (hsep : Separate P calls before)
    (hpc : s.pc c = .rename .stage dest)
    (hpc' : pc' = .done dest ∨ pc' = .deleteSource dest ∧ (calls c).moveSource = true) :
    Sound P calls before
      ⟨s.disk.rename (stage (calls c) dest) dest, Function.update s.pc c pc'⟩ := by
  have hdest : destOf (s.pc c) = some dest := by
    rw [hpc]
    rfl
  have hown : destOf pc' = some dest := by
    rcases hpc' with rfl | ⟨rfl, hmove⟩ <;> rfl
  obtain ⟨⟨i, hi⟩, hthere⟩ := (h.owns c).dest dest hdest
  obtain ⟨file, source, hfile, hsource, hbytes⟩ := (h.owns c).staged dest hpc
  obtain ⟨hentry, hcontent, hfresh⟩ := @Disk.rename_spec _ _ _ _ _ _ dest hfile
  have hnew : before.entry (stage (calls c) dest) = none := by
    rw [hi]
    exact hsep.newStage c i
  have hkeep : ∀ name, name ≠ dest → name ≠ stage (calls c) dest →
      (s.disk.rename (stage (calls c) dest) dest).entry name = s.disk.entry name := by
    intro name hname hstage
    rw [hentry, Function.update_of_ne hname, Function.update_of_ne hstage]
  have hplaced : (s.disk.rename (stage (calls c) dest) dest).entry dest = some file := by
    rw [hentry, Function.update_self]
  apply h.move
  · intro other hdone
    cases hpc.symm.trans hdone
  · rw [hfresh]
  · intro n hn
    rw [hcontent]
  · intro d hd other hother
    obtain ⟨⟨j, hj⟩, hold⟩ := (h.owns d).dest other hother
    constructor
    · apply hkeep
      · rintro rfl
        exact hd (h.distinct d c other hother hdest)
      · rw [hi, hj]
        exact (hsep.stageOfNone c d i j).symm
    · rw [hj]
      apply hkeep
      · rw [hi]
        exact hsep.stageOfNone d c j i
      · rw [hi]
        exact hsep.stagesApart d c j i hd
  · intro name n hname
    by_cases hdestName : name = dest
    · exact .inr (.inl ⟨i, hdestName.trans hi⟩)
    · by_cases hstage : name = stage (calls c) dest
      · rw [hentry, Function.update_of_ne hdestName, hstage, Function.update_self] at hname
        cases hname
      · rw [hkeep name hdestName hstage] at hname
        exact .inl hname
  · intro _
    rcases hpc' with rfl | ⟨rfl, hmove⟩ <;> rfl
  · intro name n hname hold
    by_cases hdestName : name = dest
    · right
      left
      rw [hdestName]
      exact h.free c dest hdest n (hdestName ▸ hname)
    · by_cases hstage : name = stage (calls c) dest
      · rw [hstage, hnew] at hname
        cases hname
      · left
        rw [hkeep name hdestName hstage]
        exact hold
  · intro other hother
    left
    rw [hdest]
    exact hown.symm.trans hother
  · constructor
    · intro other hother
      obtain rfl := Option.some.inj (hown.symm.trans hother)
      rw [hplaced]
      exact ⟨⟨i, hi⟩, Option.some_ne_none _⟩
    · rintro other rfl
      rcases hpc' with hdone | ⟨hdelete, hmove⟩
      · cases hdone
      · cases hdelete
    · intro other hdone
      have hother : other = dest := by
        rcases hdone with rfl | rfl
        · exact (Option.some.inj hown)
        · exact (Option.some.inj hown)
      rw [hother]
      exact ⟨file, source, hplaced, hsource, (congrFun hcontent file).trans hbytes⟩
    · intro other hmoving
      rcases hpc' with rfl | ⟨rfl, hmove⟩
      · rcases hmoving with hrename | hdelete
        · cases hrename
        · cases hdelete
      · exact hmove
    · intro what other
      rcases hpc' with rfl | ⟨rfl, hmove⟩ <;>
        refine ⟨?_, ?_, ?_⟩ <;> intro hwindows <;> cases hwindows

/-- The stage is written, in full or not. -/
theorem Sound.stageWritten (h : Sound P calls before s) (hsep : Separate P calls before)
    {bytes : List UInt8} (hpc : s.pc c = .copy dest)
    (hpc' : pc' = .checkStage dest ∨ pc' = .rename .stage dest ∧
      ∃ source, before.entry (calls c).source = some source ∧ bytes = before.content source) :
    Sound P calls before
      ⟨writeFile s.disk (stage (calls c) dest) bytes, Function.update s.pc c pc'⟩ := by
  have hdest : destOf (s.pc c) = some dest := by
    rw [hpc]
    rfl
  have hown : destOf pc' = some dest := by
    rcases hpc' with rfl | ⟨rfl, hbytes⟩ <;> rfl
  have hcopying : copied (s.pc c) = false := by
    rw [hpc]
    rfl
  obtain ⟨⟨i, hi⟩, hthere⟩ := (h.owns c).dest dest hdest
  have hnone : s.disk.entry (stage (calls c) dest) = none := by
    rw [hi]
    exact h.no_stage hsep hcopying
  have hwritten : writeFile s.disk (stage (calls c) dest) bytes =
      (s.disk.create (stage (calls c) dest)).fill s.disk.fresh bytes := by
    rw [writeFile, Disk.openTruncate_new hnone]
  have hkeep : ∀ name, name ≠ stage (calls c) dest →
      (writeFile s.disk (stage (calls c) dest) bytes).entry name = s.disk.entry name := by
    intro name hname
    rw [hwritten]
    exact Disk.entry_create_ne hname
  have hstaged : (writeFile s.disk (stage (calls c) dest) bytes).entry (stage (calls c) dest) =
      some s.disk.fresh := by
    rw [hwritten]
    exact Disk.entry_create_self
  have hdestKept : ∀ d other, destOf (s.pc d) = some other → other ≠ stage (calls c) dest := by
    intro d other hother
    obtain ⟨j, hj⟩ := ((h.owns d).dest other hother).1
    rw [hi, hj]
    exact (hsep.stageOfNone c d i j).symm
  apply h.move
  · intro other hdone
    cases hpc.symm.trans hdone
  · rw [hwritten]
    exact Nat.le_succ _
  · intro n hn
    rw [hwritten, Disk.content_fill_ne (Nat.ne_of_lt hn), Disk.content_create hn]
  · intro d hd other hother
    obtain ⟨j, hj⟩ := ((h.owns d).dest other hother).1
    refine ⟨hkeep other (hdestKept d other hother), hkeep _ ?_⟩
    rw [hi, hj]
    exact hsep.stagesApart d c j i hd
  · intro name n hname
    by_cases hstage : name = stage (calls c) dest
    · refine .inr (.inr ⟨i, ?_, hi ▸ hstage⟩)
      rcases hpc' with rfl | ⟨rfl, hbytes⟩ <;> rfl
    · rw [hkeep name hstage] at hname
      exact .inl hname
  · intro hcopied
    rw [hcopying] at hcopied
    cases hcopied
  · intro name n hname hold
    left
    rw [hkeep]
    · exact hold
    · rintro rfl
      cases hnone.symm.trans hold
  · intro other hother
    left
    rw [hdest]
    exact hown.symm.trans hother
  · have hdestThere : ∀ other, destOf pc' = some other → (∃ i, other = candidate P (calls c) i) ∧
        (writeFile s.disk (stage (calls c) dest) bytes).entry other ≠ none := by
      intro other hother
      obtain rfl := Option.some.inj (hown.symm.trans hother)
      rw [hkeep dest (hdestKept c dest hdest)]
      exact ⟨⟨i, hi⟩, hthere⟩
    rcases hpc' with rfl | ⟨rfl, source, hsource, hbytes⟩
    · exact .of_plain rfl hdestThere
    · constructor
      · exact hdestThere
      · intro other hother
        cases hother
        refine ⟨s.disk.fresh, source, hstaged, hsource, ?_⟩
        rw [hwritten, Disk.content_fill_self]
        exact hbytes
      · intro other hdone
        rcases hdone with hdone | hdelete
        · cases hdone
        · cases hdelete
      · intro other hmoving
        rcases hmoving with hrename | hdelete
        · cases hrename
        · cases hdelete
      · intro what other
        refine ⟨?_, ?_, ?_⟩ <;> intro hwindows <;> cases hwindows

/-- A name that no other call has a use for is removed. -/
theorem Sound.dropped (h : Sound P calls before s) {name : String}
    (hrunning : ∀ dest, s.pc c ≠ .done dest)
    (hothers : ∀ d, d ≠ c → ∀ dest, destOf (s.pc d) = some dest →
      dest ≠ name ∧ stage (calls d) dest ≠ name)
    (hcopied : copied (s.pc c) = true → copied pc' = true)
    (hlost : ∀ file, before.entry name = some file → Moved calls s name ∨
      (calls c).source = name ∧ (calls c).moveSource = true ∧ ∃ dest, pc' = .done dest)
    (hdest : ∀ dest, destOf pc' = some dest → destOf (s.pc c) = some dest)
    (howns : Owns P before (calls c) (s.disk.unlink name) pc') :
    Sound P calls before ⟨s.disk.unlink name, Function.update s.pc c pc'⟩ := by
  apply h.move hrunning
  · exact Nat.le_refl _
  · exact fun file hfile => rfl
  · intro d hd dest hd'
    obtain ⟨hne, hstage⟩ := hothers d hd dest hd'
    exact ⟨Disk.entry_unlink_ne hne, Disk.entry_unlink_ne hstage⟩
  · intro other file hother
    left
    by_cases hname : other = name
    · rw [hname, Disk.entry_unlink_self] at hother
      cases hother
    · rw [Disk.entry_unlink_ne hname] at hother
      exact hother
  · exact hcopied
  · intro other file hother hold
    by_cases hname : other = name
    · right
      rw [hname] at hother ⊢
      exact hlost file hother
    · left
      rw [Disk.entry_unlink_ne hname]
      exact hold
  · exact fun dest hpc => .inl (hdest dest hpc)
  · exact howns

theorem Sound.stageDropped (h : Sound P calls before s) (hsep : Separate P calls before)
    (hpc : s.pc c = .deleteStage dest) : Sound P calls before
      ⟨s.disk.unlink (stage (calls c) dest), Function.update s.pc c (.checkDest dest)⟩ := by
  have hdest : destOf (s.pc c) = some dest := by
    rw [hpc]
    rfl
  obtain ⟨⟨i, hi⟩, hthere⟩ := (h.owns c).dest dest hdest
  apply h.dropped
  · intro other hdone
    cases hpc.symm.trans hdone
  · intro d hd other hother
    obtain ⟨j, hj⟩ := ((h.owns d).dest other hother).1
    rw [hi, hj]
    exact ⟨(hsep.stageOfNone c d i j).symm, hsep.stagesApart d c j i hd⟩
  · exact fun _ => rfl
  · intro file hbefore
    rw [hi, hsep.newStage c i] at hbefore
    cases hbefore
  · intro other hother
    rw [hdest]
    exact hother
  · apply Owns.of_plain rfl
    intro other hother
    obtain rfl := Option.some.inj hother
    refine ⟨⟨i, hi⟩, ?_⟩
    rw [Disk.entry_unlink_ne]
    · exact hthere
    · rw [hi]
      exact (hsep.stageOfNone c c i i).symm

theorem Sound.destDropped (h : Sound P calls before s) (hsep : Separate P calls before)
    (hpc : s.pc c = .deleteDest dest) :
    Sound P calls before ⟨s.disk.unlink dest, Function.update s.pc c .failed⟩ := by
  have hdest : destOf (s.pc c) = some dest := by
    rw [hpc]
    rfl
  obtain ⟨⟨i, hi⟩, hthere⟩ := (h.owns c).dest dest hdest
  apply h.dropped
  · intro other hdone
    cases hpc.symm.trans hdone
  · intro d hd other hother
    obtain ⟨j, hj⟩ := ((h.owns d).dest other hother).1
    constructor
    · rintro rfl
      exact hd (h.distinct d c other hother hdest)
    · rw [hi, hj]
      exact hsep.stageOfNone d c j i
  · exact fun _ => rfl
  · exact fun file hbefore => .inl (h.free c dest hdest file hbefore)
  · intro other hother
    cases hother
  · apply Owns.of_plain rfl
    intro other hother
    cases hother

theorem Owns.finished {call : Call} {disk : Files} (h : Owns P before call disk (.deleteSource dest))
    (hentry : disk'.entry dest = disk.entry dest)
    (hcontent : ∀ file, file < disk.fresh → disk'.content file = disk.content file) :
    Owns P before call disk' (.done dest) := by
  constructor
  · intro other hother
    rw [← Option.some.inj hother, hentry]
    exact h.dest dest rfl
  · intro other hother
    cases hother
  · intro other hdone
    rcases hdone with hdone | hdelete
    · cases hdone
      exact (h.published dest (.inr rfl)).frame hentry hcontent
    · cases hdelete
  · exact fun other _ => h.moving dest (.inr rfl)
  · intro what other
    refine ⟨?_, ?_, ?_⟩ <;> intro hwindows <;> cases hwindows

theorem Sound.sourceDropped (h : Sound P calls before s) (hsep : Separate P calls before)
    (hpc : s.pc c = .deleteSource dest) : Sound P calls before
      ⟨s.disk.unlink (calls c).source, Function.update s.pc c (.done dest)⟩ := by
  have hrunning : ∀ dest, s.pc c ≠ .done dest := by
    intro other hdone
    cases hpc.symm.trans hdone
  have hdest : destOf (s.pc c) = some dest := by
    rw [hpc]
    rfl
  have howns := h.owns c
  rw [hpc] at howns
  apply h.dropped hrunning
  · intro d hd other hother
    obtain ⟨j, hj⟩ := ((h.owns d).dest other hother).1
    refine ⟨h.dest_ne_source hsep hrunning hother, ?_⟩
    rw [hj]
    exact hsep.stage_ne_source
  · exact fun _ => rfl
  · exact fun file _ => .inr ⟨rfl, howns.moving dest (.inr rfl), dest, rfl⟩
  · intro other hother
    rw [hdest]
    exact hother
  · apply howns.finished
    · exact Disk.entry_unlink_ne (h.dest_ne_source hsep hrunning hdest)
    · exact fun file hfile => rfl

theorem Sound.sourceLeft (h : Sound P calls before s) (hpc : s.pc c = .deleteSource dest) :
    Sound P calls before ⟨s.disk, Function.update s.pc c (.done dest)⟩ := by
  have hdest : destOf (s.pc c) = some dest := by
    rw [hpc]
    rfl
  have howns := h.owns c
  rw [hpc] at howns
  apply h.move
  · intro other hdone
    cases hpc.symm.trans hdone
  · exact Nat.le_refl _
  · exact fun file hfile => rfl
  · exact fun d hd other hother => ⟨rfl, rfl⟩
  · exact fun name file hname => .inl hname
  · exact fun _ => rfl
  · exact fun name file hname hold => .inl hold
  · intro other hother
    left
    rw [hdest]
    exact hother
  · exact howns.finished rfl fun file hfile => rfl

/-- What a copy leaves: the whole stage, no stage or a part of one. -/
theorem copy_cases {P : PathRules} {isWindows : Bool} {call : Call} {disk : Files} {o : Outcome}
    {dest : String} {next : Files × Pc}
    (hnext : FinalizedFiles.advance P isWindows call disk o (.copy dest) = some next) :
    (∃ file, disk.entry call.source = some file ∧
      next = (writeFile disk (stage call dest) (disk.content file), placeOnto isWindows .stage dest)) ∨
    next = (disk, .checkStage dest) ∨
    ∃ torn, next = (writeFile disk (stage call dest) torn, .checkStage dest) := by
  rw [FinalizedFiles.advance] at hnext
  split at hnext
  · rename_i file hok hfile
    exact .inl ⟨file, hfile, (Option.some.inj hnext).symm⟩
  · split at hnext
    · exact .inr (.inl (Option.some.inj hnext).symm)
    · rename_i torn htorn
      exact .inr (.inr ⟨torn, (Option.some.inj hnext).symm⟩)

theorem Sound.advance (h : Sound P calls before s) (hsep : Separate P calls before) {o : Outcome}
    {pc : Pc} (hpc : s.pc c = pc) {next : Files × Pc}
    (hnext : FinalizedFiles.advance P false (calls c) s.disk o pc = some next) :
    Sound P calls before ⟨next.1, Function.update s.pc c next.2⟩ := by
  have hrunning : ∀ dest, s.pc c ≠ .done dest := by
    intro dest hdone
    rw [← hpc, hdone] at hnext
    cases hnext
  -- the turns keep what the pc had
  have hturn : ∀ pc', plain pc' = true → (copied pc = true → copied pc' = true) →
      (∀ dest, destOf pc' = some dest → destOf pc = some dest) →
      Sound P calls before ⟨s.disk, Function.update s.pc c pc'⟩ := by
    intro pc' hplain hcopied hdest
    rw [← hpc] at hcopied hdest
    exact h.turn hrunning hplain hcopied hdest
  unfold FinalizedFiles.advance at hnext
  cases pc with
  | createDir =>
    obtain rfl := Option.some.inj hnext
    dsimp only
    split_ifs
    · exact hturn _ rfl (fun h => h) fun dest h => h
    · exact hturn _ rfl (fun _ => rfl) fun dest h => h
  | reserve i =>
    dsimp only at hnext
    split_ifs at hnext with hok hmove
    · obtain rfl := Option.some.inj hnext
      exact h.reserved hsep hpc hok.2 (.inr ⟨rfl, hmove⟩)
    · obtain rfl := Option.some.inj hnext
      exact h.reserved hsep hpc hok.2 (.inl rfl)
    · obtain rfl := Option.some.inj hnext
      exact hturn _ rfl (fun h => h) fun dest h => h
  | taken i =>
    dsimp only at hnext
    split_ifs at hnext
    · obtain rfl := Option.some.inj hnext
      exact hturn _ rfl (fun h => h) fun dest h => h
    · obtain rfl := Option.some.inj hnext
      exact hturn _ rfl (fun _ => rfl) fun dest h => h
  | dropReservation what dest => cases ((h.owns c).posix what dest).1 hpc
  | rename what dest =>
    dsimp only at hnext
    split_ifs at hnext with hok
    · obtain ⟨file, hfile⟩ := Option.ne_none_iff_exists'.mp hok.2
      obtain rfl := Option.some.inj hnext
      cases what with
      | source => exact h.sourceMoved hsep hpc hfile
      | stage =>
        apply h.stageMoved hsep hpc
        dsimp only
        rw [placed]
        split_ifs with hmove
        · exact .inr ⟨rfl, hmove⟩
        · exact .inl rfl
    · obtain rfl := Option.some.inj hnext
      cases what with
      | source => exact hturn _ rfl (fun h => h) fun dest h => h
      | stage => exact hturn _ rfl (fun h => h) fun dest h => h
  | checkReservation dest => cases ((h.owns c).posix .source dest).2.1 hpc
  | reserveAgain dest => cases ((h.owns c).posix .source dest).2.2 hpc
  | copy dest =>
    rcases copy_cases (P := P) hnext with ⟨file, hfile, rfl⟩ | rfl | ⟨torn, rfl⟩
    · obtain ⟨hbefore, hbytes⟩ := h.source_content hsep hrunning hfile
      exact h.stageWritten hsep hpc (.inr ⟨rfl, file, hbefore, hbytes⟩)
    · exact hturn _ rfl (fun _ => rfl) fun dest h => h
    · exact h.stageWritten hsep hpc (.inl rfl)
  | checkStage dest =>
    dsimp only at hnext
    split_ifs at hnext
    · obtain rfl := Option.some.inj hnext
      exact hturn _ rfl (fun h => h) fun dest h => h
    · obtain rfl := Option.some.inj hnext
      exact hturn _ rfl (fun h => h) fun dest h => h
  | deleteStage dest =>
    obtain rfl := Option.some.inj hnext
    dsimp only
    split_ifs
    · exact h.stageDropped hsep hpc
    · exact hturn _ rfl (fun h => h) fun dest h => h
  | checkDest dest =>
    dsimp only at hnext
    split_ifs at hnext
    · obtain rfl := Option.some.inj hnext
      exact hturn _ rfl (fun h => h) fun dest h => h
    · obtain rfl := Option.some.inj hnext
      exact hturn _ rfl (fun h => h) fun dest h => by cases h
  | deleteDest dest =>
    obtain rfl := Option.some.inj hnext
    dsimp only
    split_ifs
    · exact h.destDropped hsep hpc
    · exact hturn _ rfl (fun h => h) fun dest h => by cases h
  | deleteSource dest =>
    obtain rfl := Option.some.inj hnext
    dsimp only
    split_ifs
    · exact h.sourceDropped hsep hpc
    · exact h.sourceLeft hpc
  | done dest => cases hrunning dest hpc
  | failed => cases hnext

theorem Sound.step (h : Sound P calls before s) (hsep : Separate P calls before)
    {label : ι × Outcome} {s' : State ι}
    (hstep : FinalizedFiles.step P false calls s label = some s') : Sound P calls before s' := by
  obtain ⟨next, hnext, rfl⟩ := Option.map_eq_some_iff.mp hstep
  exact h.advance hsep rfl hnext

omit [DecidableEq ι] in
theorem sound_start : Sound P calls before (start ι before) where
  later := Nat.le_refl _
  content file hfile := rfl
  known name file hname := .inl hname
  kept name file hname := .inl hname
  free c dest hdest := by cases hdest
  distinct c d dest hdest := by cases hdest
  owns c := .of_plain rfl fun dest hdest => by cases hdest

omit [DecidableEq ι] in
theorem Sound.published (h : Sound P calls before s) (hsep : Separate P calls before) :
    Published calls before s where
  kept name file hname := by
    cases h.kept name file hname with
    | inl hthere => exact .inl ⟨hthere, h.content file (before.named name file hname)⟩
    | inr hmoved => exact .inr hmoved
  failed c hfailed := by
    obtain ⟨source, hsource⟩ := Option.ne_none_iff_exists'.mp (hsep.sources c)
    cases h.kept _ source hsource with
    | inl hthere =>
      exact .inl ⟨source, source, hthere, hsource, h.content source (before.named _ _ hsource)⟩
    | inr hmoved => exact .inr hmoved
  distinct c d dest hc hd := by
    apply h.distinct c d dest
    · rw [hc]
      rfl
    · rw [hd]
      rfl
  done c dest hdone := (h.owns c).published dest (.inl hdone)

/-! ### Nothing is left behind -/

theorem Tidy.after (h : Tidy calls before s)
    (hnames : ∀ name file, disk'.entry name = some file → Has (calls c) pc' name ∨
      s.disk.entry name = some file ∧ (Has (calls c) (s.pc c) name → Has (calls c) pc' name)) :
    Tidy calls before ⟨disk', Function.update s.pc c pc'⟩ := by
  have hself : Function.update s.pc c pc' c = pc' := Function.update_self _ _ _
  intro name file hname
  change _ ∨ ∃ d, Has (calls d) (Function.update s.pc c pc' d) name
  rcases hnames name file hname with hnew | ⟨hold, hstill⟩
  · right
    refine ⟨c, ?_⟩
    rw [hself]
    exact hnew
  · rcases h name file hold with hbefore | ⟨d, hd⟩
    · exact .inl hbefore
    · right
      refine ⟨d, ?_⟩
      by_cases hdc : d = c
      · rw [hdc, hself]
        exact hstill (hdc ▸ hd)
      · rw [Function.update_of_ne hdc]
        exact hd

/-- The clean-up after a failure goes through. -/
def CleansUp (s : State ι) (label : ι × Outcome) : Prop :=
  ∀ dest, s.pc label.1 = .deleteStage dest ∨ s.pc label.1 = .deleteDest dest → label.2.ok = true

theorem Tidy.renamed (h : Tidy calls before s) {name : String} (hown : destOf pc' = some dest)
    (hhas : ∀ other, Has (calls c) (s.pc c) other → other = dest ∨ other = name) :
    Tidy calls before ⟨s.disk.rename name dest, Function.update s.pc c pc'⟩ := by
  apply h.after
  intro other file hother
  by_cases hdest : other = dest
  · left
    rw [hdest]
    exact .inl hown
  · cases hname : s.disk.entry name with
    | none =>
      rw [Disk.rename_none hname] at hother
      refine .inr ⟨hother, fun hhad => ?_⟩
      cases hhas other hhad with
      | inl heq => cases hdest heq
      | inr heq => cases hname.symm.trans (heq ▸ hother)
    | some moved =>
      rw [(Disk.rename_spec hname).1, Function.update_of_ne hdest] at hother
      by_cases hsource : other = name
      · rw [hsource, Function.update_self] at hother
        cases hother
      · rw [Function.update_of_ne hsource] at hother
        refine .inr ⟨hother, fun hhad => ?_⟩
        cases hhas other hhad with
        | inl heq => cases hdest heq
        | inr heq => cases hsource heq

theorem Tidy.dropped (h : Tidy calls before s) {name : String}
    (hhas : ∀ other, other ≠ name → Has (calls c) (s.pc c) other → Has (calls c) pc' other) :
    Tidy calls before ⟨s.disk.unlink name, Function.update s.pc c pc'⟩ := by
  apply h.after
  intro other file hother
  by_cases hname : other = name
  · rw [hname, Disk.entry_unlink_self] at hother
    cases hother
  · rw [Disk.entry_unlink_ne hname] at hother
    exact .inr ⟨hother, hhas other hname⟩

theorem Tidy.written (h : Tidy calls before s) {bytes : List UInt8}
    (hpc : s.pc c = .copy dest) (hown : destOf pc' = some dest)
    (hstage : stageOf (calls c) pc' = some (stage (calls c) dest)) :
    Tidy calls before
      ⟨writeFile s.disk (stage (calls c) dest) bytes, Function.update s.pc c pc'⟩ := by
  apply h.after
  intro other file hother
  by_cases hname : other = stage (calls c) dest
  · left
    rw [hname]
    exact .inr hstage
  · right
    have hsame : (writeFile s.disk (stage (calls c) dest) bytes).entry other =
        s.disk.entry other := by
      rw [writeFile, Disk.openTruncate]
      cases s.disk.entry (stage (calls c) dest) with
      | none => exact Disk.entry_create_ne hname
      | some old => rfl
    rw [hsame] at hother
    refine ⟨hother, fun hhad => ?_⟩
    rw [hpc] at hhad
    cases hhad with
    | inl hdest => exact .inl (hown.trans hdest)
    | inr hnone => cases hnone

theorem Tidy.advance (h : Tidy calls before s) (hsound : Sound P calls before s) {o : Outcome}
    (hclean : CleansUp s (c, o)) {pc : Pc} (hpc : s.pc c = pc) {next : Files × Pc}
    (hnext : FinalizedFiles.advance P false (calls c) s.disk o pc = some next) :
    Tidy calls before ⟨next.1, Function.update s.pc c next.2⟩ := by
  have hturn : ∀ pc', (∀ name file, s.disk.entry name = some file → Has (calls c) pc name →
      Has (calls c) pc' name) → Tidy calls before ⟨s.disk, Function.update s.pc c pc'⟩ := by
    intro pc' hstill
    rw [← hpc] at hstill
    exact h.after fun name file hname => .inr ⟨hname, hstill name file hname⟩
  have hnothing : ∀ {pc' : Pc} {name : String}, destOf pc' = none → stageOf (calls c) pc' = none →
      ¬ Has (calls c) pc' name := by
    intro pc' name hdest hstage hhas
    cases hhas with
    | inl hsome => cases hdest.symm.trans hsome
    | inr hsome => cases hstage.symm.trans hsome
  unfold FinalizedFiles.advance at hnext
  cases pc with
  | createDir =>
    obtain rfl := Option.some.inj hnext
    exact hturn _ fun name file hname hhas => (hnothing rfl rfl hhas).elim
  | reserve i =>
    dsimp only at hnext
    split_ifs at hnext with hok hmove
    · obtain rfl := Option.some.inj hnext
      apply h.after
      intro other file hother
      by_cases hname : other = candidate P (calls c) i
      · exact .inl (.inl (congrArg some hname.symm))
      · rw [Disk.entry_create_ne hname] at hother
        refine .inr ⟨hother, fun hhas => ?_⟩
        rw [hpc] at hhas
        exact (hnothing rfl rfl hhas).elim
    · obtain rfl := Option.some.inj hnext
      apply h.after
      intro other file hother
      by_cases hname : other = candidate P (calls c) i
      · exact .inl (.inl (congrArg some hname.symm))
      · rw [Disk.entry_create_ne hname] at hother
        refine .inr ⟨hother, fun hhas => ?_⟩
        rw [hpc] at hhas
        exact (hnothing rfl rfl hhas).elim
    · obtain rfl := Option.some.inj hnext
      exact hturn _ fun name file hname hhas => (hnothing rfl rfl hhas).elim
  | taken i =>
    dsimp only at hnext
    split_ifs at hnext
    · obtain rfl := Option.some.inj hnext
      exact hturn _ fun name file hname hhas => (hnothing rfl rfl hhas).elim
    · obtain rfl := Option.some.inj hnext
      exact hturn _ fun name file hname hhas => (hnothing rfl rfl hhas).elim
  | dropReservation what dest => cases ((hsound.owns c).posix what dest).1 hpc
  | rename what dest =>
    dsimp only at hnext
    split_ifs at hnext with hok
    · obtain rfl := Option.some.inj hnext
      cases what with
      | source =>
        apply h.renamed rfl
        intro other hhas
        rw [hpc] at hhas
        cases hhas with
        | inl hdest => exact .inl (Option.some.inj hdest).symm
        | inr hnone => cases hnone
      | stage =>
        have hown : destOf (placed (calls c) dest .stage) = some dest := by
          rw [placed]
          split_ifs <;> rfl
        apply h.renamed hown
        intro other hhas
        rw [hpc] at hhas
        cases hhas with
        | inl hdest => exact .inl (Option.some.inj hdest).symm
        | inr hstage => exact .inr (Option.some.inj hstage).symm
    · obtain rfl := Option.some.inj hnext
      cases what with
      | source => exact hturn _ fun name file hname hhas => hhas
      | stage => exact hturn _ fun name file hname hhas => hhas
  | checkReservation dest => cases ((hsound.owns c).posix .source dest).2.1 hpc
  | reserveAgain dest => cases ((hsound.owns c).posix .source dest).2.2 hpc
  | copy dest =>
    rcases copy_cases (P := P) hnext with ⟨file, hfile, rfl⟩ | rfl | ⟨torn, rfl⟩
    · exact h.written hpc rfl rfl
    · apply hturn
      intro name file hname hhas
      cases hhas with
      | inl hdest => exact .inl hdest
      | inr hnone => cases hnone
    · exact h.written hpc rfl rfl
  | checkStage dest =>
    dsimp only at hnext
    split_ifs at hnext with hthere
    · obtain rfl := Option.some.inj hnext
      exact hturn _ fun name file hname hhas => hhas
    · obtain rfl := Option.some.inj hnext
      apply hturn
      intro name file hname hhas
      cases hhas with
      | inl hdest => exact .inl hdest
      | inr hstage =>
        rw [Option.some.inj hstage] at hthere
        exact absurd (hname ▸ Option.some_ne_none file) hthere
  | deleteStage dest =>
    obtain rfl := Option.some.inj hnext
    rw [hclean dest (.inl hpc), if_pos rfl]
    apply h.dropped
    intro other hother hhas
    rw [hpc] at hhas
    cases hhas with
    | inl hdest => exact .inl hdest
    | inr hstage => cases hother (Option.some.inj hstage).symm
  | checkDest dest =>
    dsimp only at hnext
    split_ifs at hnext with hthere
    · obtain rfl := Option.some.inj hnext
      exact hturn _ fun name file hname hhas => hhas
    · obtain rfl := Option.some.inj hnext
      apply hturn
      intro name file hname hhas
      cases hhas with
      | inl hdest =>
        rw [Option.some.inj hdest] at hthere
        exact absurd (hname ▸ Option.some_ne_none file) hthere
      | inr hnone => cases hnone
  | deleteDest dest =>
    obtain rfl := Option.some.inj hnext
    rw [hclean dest (.inr hpc), if_pos rfl]
    apply h.dropped
    intro other hother hhas
    rw [hpc] at hhas
    cases hhas with
    | inl hdest => cases hother (Option.some.inj hdest).symm
    | inr hnone => cases hnone
  | deleteSource dest =>
    obtain rfl := Option.some.inj hnext
    dsimp only
    split_ifs
    · apply h.dropped
      intro other hother hhas
      rw [hpc] at hhas
      exact hhas
    · exact hturn _ fun name file hname hhas => hhas
  | done dest => cases hnext
  | failed => cases hnext

omit [DecidableEq ι] in
theorem tidy_start : Tidy calls before (start ι before) := fun _ _ hname => .inl hname

/-! ## Runs -/

theorem received_files_published (P : PathRules) (calls : ι → Call) (before : Files)
    (hsep : Separate P calls before) (labels : List (ι × Outcome)) (s : State ι)
    (hrun : exec (FinalizedFiles.step P false calls) (start ι before) labels = some s) :
    Published calls before s ∧
      (Meets (FinalizedFiles.step P false calls) CleansUp (start ι before) labels →
        Tidy calls before s) := by
  have hsound : Sound P calls before s := by
    refine invariant ?_ sound_start hrun
    intro u label v hu hstep
    exact Sound.step hu hsep hstep
  refine ⟨hsound.published hsep, fun hclean => ?_⟩
  have hboth : Sound P calls before s ∧ Tidy calls before s := by
    refine invariant_of_meets (I := fun u => Sound P calls before u ∧ Tidy calls before u) ?_
      ⟨sound_start, tidy_start⟩ hclean hrun
    intro u label v hu hlabel hstep
    refine ⟨Sound.step hu.1 hsep hstep, ?_⟩
    obtain ⟨next, hnext, rfl⟩ := Option.map_eq_some_iff.mp hstep
    exact Tidy.advance hu.2 hu.1 hlabel rfl hnext
  exact hboth.2

end

/-! ## Runs on fixed calls -/

def rules : PathRules := ⟨fun dir name => dir ++ "/" ++ name, fun _ => "a", fun _ => ".pdf"⟩

def noFiles : Files := ⟨fun _ => none, fun _ => [], 0, fun _ _ h => by cases h⟩

def files : Files := writeFile (writeFile noFiles "r/1" [1]) "r/2" [2]

inductive Caller where
  | first
  | second
  | third
  deriving DecidableEq

def goes (c : Caller) : Caller × Outcome := (c, ⟨true, none⟩)

def fails (c : Caller) : Caller × Outcome := (c, ⟨false, some [1]⟩)

def moving : Caller → Call
  | .first => ⟨"r/1", "d", "a.pdf", "x", true⟩
  | .second => ⟨"r/2", "d", "a.pdf", "y", true⟩
  | .third => ⟨"r/2", "e", "b.pdf", "z", true⟩

/-- Two calls with one name take turns. -/
def sameName : List (Caller × Outcome) :=
  [goes .first, goes .second, goes .first, goes .second, goes .second, goes .second, goes .second,
    goes .first]

theorem candidate_last (c : Caller) (i : ℕ) :
    (candidate rules (moving c) i).toList.getLast? = some 'f' := by
  have hname : ∀ dir name : String, name.toList.getLast? = some 'f' →
      (rules.join dir name).toList.getLast? = some 'f' := by
    intro dir name hlast
    change (dir ++ "/" ++ name).toList.getLast? = some 'f'
    rw [String.toList_append, List.getLast?_append, hlast]
    rfl
  rw [candidate]
  apply hname
  split_ifs
  · cases c <;> decide
  · change ("a" ++ "_" ++ toString i ++ ".pdf").toList.getLast? = some 'f'
    rw [String.toList_append, List.getLast?_append]
    rfl

theorem stage_tail (c : Caller) (dest : String) : (stage (moving c) dest).toList =
    dest.toList ++ (("." ++ (moving c).uniqueTag ++ ".toxee-part").toList) := by
  simp only [stage, String.toList_append, List.append_assoc]

theorem stage_last (c : Caller) (dest : String) :
    (stage (moving c) dest).toList.getLast? = some 't' := by
  rw [stage, String.toList_append, List.getLast?_append]
  rfl

theorem files_none {name : String} (hone : name ≠ "r/1") (htwo : name ≠ "r/2") :
    files.entry name = none := by
  have hfirst : (writeFile noFiles "r/1" [1]).entry name = none := Function.update_of_ne hone _ _
  rw [← hfirst]
  exact Function.update_of_ne htwo _ _

theorem moving_separate : Separate rules moving files where
  sources c := by cases c <;> decide
  newStage c i := by
    have hlast := stage_last c (candidate rules (moving c) i)
    apply files_none
    · intro heq
      rw [heq] at hlast
      revert hlast
      decide
    · intro heq
      rw [heq] at hlast
      revert hlast
      decide
  stageOfNone c d i j heq := by
    have hlast := stage_last c (candidate rules (moving c) i)
    rw [heq, candidate_last] at hlast
    cases hlast
  stagesApart c d i j hcd heq := by
    have htail := congrArg String.toList heq
    rw [stage_tail, stage_tail] at htail
    have htags := List.append_inj_right' htail (by cases c <;> cases d <;> decide)
    revert hcd htags
    cases c <;> cases d <;> decide
  shared c d hcd hsource e i heq := by
    have hlast := candidate_last e i
    rw [heq] at hlast
    revert hlast
    cases c <;> decide

/-- When nothing fails, no clean-up does. -/
theorem cleansUp_of_ok {labels : List (Caller × Outcome)}
    (h : ∀ label ∈ labels, label.2.ok = true) (s : State Caller) :
    Meets (step rules false moving) CleansUp s labels := by
  induction labels generalizing s with
  | nil => trivial
  | cons label labels ih =>
    refine ⟨fun dest _ => h label List.mem_cons_self, fun u _ => ?_⟩
    exact ih (fun other hother => h other (List.mem_cons_of_mem _ hother)) u

theorem same_name_twice : ∃ s : State Caller,
    exec (step rules false moving) (start Caller files) sameName = some s ∧
      s.pc .first = .done "d/a.pdf" ∧ s.pc .second = .done "d/a_1.pdf" ∧
      Published moving files s ∧ Tidy moving files s := by
  have hends : ((exec (step rules false moving) (start Caller files) sameName).map fun s =>
      (s.pc .first, s.pc .second)) = some (.done "d/a.pdf", .done "d/a_1.pdf") := by decide
  obtain ⟨s, hrun, hpcs⟩ := Option.map_eq_some_iff.mp hends
  obtain ⟨hpublished, htidy⟩ :=
    received_files_published rules moving files moving_separate sameName s hrun
  have hok : ∀ label ∈ sameName, label.2.ok = true := by
    simp [sameName, goes]
  exact ⟨s, hrun, congrArg Prod.fst hpcs, congrArg Prod.snd hpcs, hpublished,
    htidy (cleansUp_of_ok hok _)⟩

/-! ## Where it does not hold -/

def filesAndStage : Files := writeFile files "d/a.pdf.x.toxee-part" [3]

def filesAndSource : Files := writeFile files "d/a.pdf" [3]

def copying : Caller → Call
  | .first => ⟨"r/1", "d", "a.pdf", "x", false⟩
  | .second => ⟨"r/2", "d", "a.pdf", "y", false⟩
  | .third => ⟨"r/2", "e", "b.pdf", "z", false⟩

def sharing : Caller → Call
  | .first => ⟨"d/a.pdf", "d", "b.pdf", "x", true⟩
  | .second => ⟨"d/a.pdf", "d", "b.pdf", "y", true⟩
  | .third => ⟨"r/1", "d", "a.pdf", "z", true⟩

/-- A copy fails and so does all of the clean-up. -/
def failedCleanUp : List (Caller × Outcome) :=
  [goes .first, goes .first, fails .first, goes .first, fails .first, goes .first, fails .first]

/-- On Windows the reservation is gone for a moment. -/
def reservedTwice : List (Caller × Outcome) :=
  [goes .first, goes .first, goes .first, goes .second, goes .second, goes .first, goes .second,
    goes .second]

def copiedOnce : List (Caller × Outcome) :=
  [goes .first, goes .first, goes .first, goes .first]

/-- The name the first call has moved away is a destination when the second call moves it. -/
def movedTwice : List (Caller × Outcome) :=
  [goes .first, goes .first, goes .second, goes .second, goes .second, goes .second, goes .first,
    goes .third, goes .third, goes .third, goes .second]

theorem finalising_can_leave_or_lose_files :
    (∃ s, exec (step rules false copying) (start Caller files) failedCleanUp = some s ∧
      s.pc .first = .failed ∧ ¬ Tidy copying files s) ∧
    (∃ s, exec (step rules true moving) (start Caller files) reservedTwice = some s ∧
      ¬ Published moving files s) ∧
    (∃ s, exec (step rules false copying) (start Caller filesAndStage) copiedOnce = some s ∧
      ¬ Published copying filesAndStage s) ∧
    ∃ s, exec (step rules false sharing) (start Caller filesAndSource) movedTwice = some s ∧
      ¬ Published sharing filesAndSource s := by
  have hleft : ((exec (step rules false copying) (start Caller files) failedCleanUp).map fun s =>
      (s.disk.entry "d/a.pdf", s.pc .first, s.pc .second, s.pc .third)) =
        some (some 2, .failed, .createDir, .createDir) := by decide
  have hboth : ((exec (step rules true moving) (start Caller files) reservedTwice).map fun s =>
      (s.pc .first, s.pc .second)) = some (.done "d/a.pdf", .done "d/a.pdf") := by decide
  have hstage : ((exec (step rules false copying) (start Caller filesAndStage) copiedOnce).map
      fun s => (s.disk.entry "d/a.pdf.x.toxee-part", s.pc .first, s.pc .second, s.pc .third)) =
        some (none, .done "d/a.pdf", .createDir, .createDir) := by decide
  have hmoved : ((exec (step rules false sharing) (start Caller filesAndSource) movedTwice).map
      fun s => (s.disk.entry "d/a.pdf", s.pc .third)) = some (none, .done "d/a.pdf") := by
    decide
  refine ⟨?_, ?_, ?_, ?_⟩
  · obtain ⟨s, hrun, hends⟩ := Option.map_eq_some_iff.mp hleft
    simp only [Prod.mk.injEq] at hends
    obtain ⟨hentry, hfirst, hsecond, hthird⟩ := hends
    refine ⟨s, hrun, hfirst, fun htidy => ?_⟩
    cases htidy _ _ hentry with
    | inl hbefore =>
      revert hbefore
      decide
    | inr hhas =>
      obtain ⟨c, hc⟩ := hhas
      cases c with
      | first =>
        rw [hfirst] at hc
        simp [Has, destOf, stageOf] at hc
      | second =>
        rw [hsecond] at hc
        simp [Has, destOf, stageOf] at hc
      | third =>
        rw [hthird] at hc
        simp [Has, destOf, stageOf] at hc
  · obtain ⟨s, hrun, hends⟩ := Option.map_eq_some_iff.mp hboth
    simp only [Prod.mk.injEq] at hends
    refine ⟨s, hrun, fun hpublished => ?_⟩
    cases hpublished.distinct _ _ _ hends.1 hends.2
  · obtain ⟨s, hrun, hends⟩ := Option.map_eq_some_iff.mp hstage
    simp only [Prod.mk.injEq] at hends
    obtain ⟨hentry, hfirst, hsecond, hthird⟩ := hends
    refine ⟨s, hrun, fun hpublished => ?_⟩
    have hbefore : filesAndStage.entry "d/a.pdf.x.toxee-part" = some 2 := by decide
    cases hpublished.kept _ _ hbefore with
    | inl hthere => cases hentry.symm.trans hthere.1
    | inr hgone =>
      obtain ⟨c, dest, hsource, hmove, hdone⟩ := hgone
      cases c <;> cases hmove
  · obtain ⟨s, hrun, hends⟩ := Option.map_eq_some_iff.mp hmoved
    simp only [Prod.mk.injEq] at hends
    refine ⟨s, hrun, fun hpublished => ?_⟩
    obtain ⟨file, source, hfile, hrest⟩ := hpublished.done _ _ hends.2
    cases hends.1.symm.trans hfile

end Tim2Tox.FinalizedFiles
