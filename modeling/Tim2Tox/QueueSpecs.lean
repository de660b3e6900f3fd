import Tim2Tox.QueueFiles

set_option autoImplicit false

/-!
# What the file programs do

A snapshot that is written is read back as it was. For every program, what it leaves when it
completes, fails or dies, in terms of the primary and the backup alone: the staging files are never
read.
-/
namespace Tim2Tox.QueueFiles

open FaultyPrograms (Prog)
open OfflineQueue (ContentKind)

variable {DateTime : Type}

/-! ## Reading back -/

theorem optionalString_of_field {json : List (String × Json)} {key : String} {value : Option String}
    (h : field json key = optionalText value) : optionalString json key = some value := by
  unfold optionalString
  rw [h]
  cases value <;> rfl

theorem contentKind_name (kind : ContentKind) :
    chatMessageContentKindFromJson (.text (contentKindName kind)) = kind := by
  cases kind <;> rfl

theorem itemFromJson_itemToJson (iso : Iso8601 DateTime) (item : OfflineMessageItem DateTime) :
    itemFromJson iso (itemToJson iso item) = some item := by
  have hfilePath : optionalString (itemFields iso item) "filePath" = some item.filePath :=
    optionalString_of_field (by simp [itemFields, field, List.lookup_cons])
  have hkind : optionalString (itemFields iso item) "kind" = some (some item.kind) :=
    optionalString_of_field (by simp [itemFields, field, optionalText])
  have htext : optionalString (itemFields iso item) "text" = some (some item.text) :=
    optionalString_of_field (by simp [itemFields, field, List.lookup_cons, optionalText])
  have hfileName : optionalString (itemFields iso item) "fileName" = some item.fileName :=
    optionalString_of_field (by simp [itemFields, field, List.lookup_cons])
  have htime : requiredString (itemFields iso item) "timestamp" =
      some (iso.toIso8601String item.timestamp) := by
    simp [itemFields, requiredString, field, List.lookup_cons]
  have hmsgID : optionalString (itemFields iso item) "msgID" = some item.msgID :=
    optionalString_of_field (by simp [itemFields, field, List.lookup_cons])
  have hdata : optionalString (itemFields iso item) "cloudCustomData" =
      some item.cloudCustomData := by
    refine optionalString_of_field ?_
    unfold itemFields
    cases item.cloudCustomData <;> cases item.control <;> simp [field, List.lookup_cons, optionalText]
  have hcontrol : optionalString (itemFields iso item) "control" = some item.control := by
    refine optionalString_of_field ?_
    unfold itemFields
    cases item.cloudCustomData <;> cases item.control <;> simp [field, List.lookup_cons, optionalText]
  have hcontent : field (itemFields iso item) "contentKind" =
      .text (contentKindName item.contentKind) := by
    unfold itemFields
    cases item.cloudCustomData <;> simp [field, List.lookup_cons]
  simp [itemToJson, itemFromJson, hfilePath, hkind, htext, hfileName, htime, hmsgID, hdata, hcontrol,
    hcontent, iso.parse_toIso8601String, contentKind_name]

theorem itemsFromJson_itemsToJson (iso : Iso8601 DateTime)
    (items : List (OfflineMessageItem DateTime)) :
    (items.map (itemToJson iso)).mapM (itemFromJson iso) = some items := by
  induction items with
  | nil => rfl
  | cons item items ih =>
    rw [List.map_cons, List.mapM_cons, itemFromJson_itemToJson, ih]
    rfl

theorem fromEntries_map (iso : Iso8601 DateTime) :
    ∀ (entries : List (Sigma fun _ : String => List (OfflineMessageItem DateTime)))
      (queue : Queue DateTime) (hkeys : (queue.entries ++ entries).NodupKeys),
      fromEntries iso queue
        (entries.map fun entry => (entry.1, .list (entry.2.map (itemToJson iso)))) =
      some ⟨queue.entries ++ entries, hkeys⟩ := by
  intro entries
  induction entries with
  | nil =>
    intro queue hkeys
    simp [fromEntries]
  | cons entry entries ih =>
    intro queue hkeys
    have hfresh : entry.1 ∉ queue := by
      rw [List.nodupKeys_middle] at hkeys
      have hnot := (List.nodupKeys_cons.mp hkeys).1
      rw [List.keys_append, List.mem_append] at hnot
      exact fun h => hnot (Or.inl h)
    rw [List.map_cons, fromEntries, itemsFromJson_itemsToJson]
    have hassign : (assign entry.1 entry.2 queue).entries = queue.entries ++ [entry] := by
      rw [assign, dif_neg hfresh]
    have hmore : ((assign entry.1 entry.2 queue).entries ++ entries).NodupKeys := by
      rw [hassign, List.append_assoc]
      exact hkeys
    have hrest := ih (assign entry.1 entry.2 queue) hmore
    refine hrest.trans ?_
    congr 2
    rw [hassign, List.append_assoc]
    rfl

theorem readSnapshot_toJson (iso : Iso8601 DateTime) (snapshot : Queue DateTime) :
    readSnapshot iso (.json (toJson iso snapshot)) = some snapshot :=
  fromEntries_map iso snapshot.entries ∅ snapshot.nodupKeys

/-! ## What does not depend on the staging files -/

structure View (DateTime : Type) where
  primary : Option Contents
  backup : Option Contents
  cache : Queue DateTime

def Store.view (s : Store DateTime) : View DateTime :=
  ⟨s.files .primary, s.files .backup, s.cache⟩

def File.staging : File → Bool
  | .temp | .backupTemp => true
  | _ => false

theorem view_put {file : File} (h : file.staging = true) (s : Store DateTime)
    (contents : Option Contents) : (s.put file contents).view = s.view := by
  cases file with
  | primary => contradiction
  | backup => contradiction
  | temp => rfl
  | backupTemp => rfl

theorem view_move {staging target : File} (hstaging : staging.staging = true)
    {s : Store DateTime} {content : Contents} (hcontent : s.files staging = some content) :
    (s.move staging target).view = (s.put target (some content)).view := by
  unfold Store.move
  rw [view_put hstaging, hcontent]

/-- A program seen through the primary, the backup and the queue in memory. -/
def Spec {α : Type} (mayFail : Prop) (p : Prog (Store DateTime) α) (done : α → View DateTime → Prop)
    (failed died : View DateTime → Prop) (s : Store DateTime) : Prop :=
  p.wp mayFail (fun a u => done a u.view) (fun u => failed u.view) (fun u => died u.view) s

theorem Spec.andThen {α β : Type} {mayFail : Prop} {p : Prog (Store DateTime) β} {k : β → Prog (Store DateTime) α}
    (middle : β → View DateTime → Prop) {done : α → View DateTime → Prop}
    {failed died : View DateTime → Prop} {s : Store DateTime} (hp : Spec mayFail p middle failed died s)
    (hk : ∀ b u, middle b u.view → Spec mayFail (k b) done failed died u) :
    Spec mayFail (p >>= k) done failed died s :=
  Prog.wp_andThen hp fun b u h => hk b u h

section
variable {α : Type} {mayFail : Prop} {done : α → View DateTime → Prop}
  {failed died : View DateTime → Prop} {s : Store DateTime}

theorem touch_andThen {k : Unit → Prog (Store DateTime) α} (hk : Spec mayFail (k ()) done failed died s)
    (hfailed : mayFail → failed s.view) (hdied : died s.view) :
    Spec mayFail (touch >>= k) done failed died s := ⟨hk, hfailed, hdied⟩

theorem replaceCache_andThen {snapshot : Queue DateTime} {k : Unit → Prog (Store DateTime) α}
    (hk : Spec mayFail (k ()) done failed died (s.replaceCache snapshot)) :
    Spec mayFail (replaceCache snapshot >>= k) done failed died s := hk

theorem exists_andThen {file : File} {k : Bool → Prog (Store DateTime) α}
    (hk : Spec mayFail (k (s.files file).isSome) done failed died s)
    (hfailed : mayFail → failed s.view) (hdied : died s.view) :
    Spec mayFail (exists_ file >>= k) done failed died s := ⟨hk, hfailed, hdied⟩

theorem read_andThen {file : File} {contents : Contents} {k : Contents → Prog (Store DateTime) α}
    (hfile : s.files file = some contents) (hk : Spec mayFail (k contents) done failed died s)
    (hfailed : mayFail → failed s.view) (hdied : died s.view) :
    Spec mayFail (read file >>= k) done failed died s := by
  refine ⟨?_, hfailed, hdied⟩
  simp only [id, hfile]
  exact hk

end

section
variable {mayFail : Prop} {done : Unit → View DateTime → Prop} {failed died : View DateTime → Prop}
  {s : Store DateTime}

theorem stageAndRename_spec {target staging : File} {content : Contents}
    (hstaging : staging.staging = true) (htarget : target.staging = false)
    (hfailed : mayFail → failed s.view) (hdied : died s.view)
    (hdone : done () (s.put target (some content)).view) :
    Spec mayFail (stageAndRename target staging content) done failed died s := by
  have hview : ∀ contents, (s.put staging contents).view = s.view := view_put hstaging s
  have htwice : ∀ c d, ((s.put staging c).put staging d).view = s.view := fun c d =>
    (view_put hstaging _ d).trans (hview c)
  have hwritten : ((s.put staging (some .unreadable)).put staging (some content)).files staging =
      some content := by
    simp [Store.put]
  have hmoved : (((s.put staging (some .unreadable)).put staging (some content)).move
      staging target).view = (s.put target (some content)).view := by
    rw [view_move hstaging hwritten]
    cases target with
    | primary => cases staging <;> first | contradiction | rfl
    | backup => cases staging <;> first | contradiction | rfl
    | temp => contradiction
    | backupTemp => contradiction
  unfold Spec stageAndRename
  simp only [Prog.wp_bind, Prog.wp_tryFinally, openWrite, write, touch, rename, Prog.wp, id, htwice,
     hwritten, hmoved, Option.isSome_some, if_true, hdied, hdone, and_true, true_and]
  exact ⟨⟨⟨⟨hfailed, hfailed⟩, fun hmay => ⟨hfailed hmay, hfailed⟩⟩,
    fun hmay => ⟨hfailed hmay, hfailed⟩⟩, hfailed⟩

theorem writePrimary_spec {content : Contents} (hfailed : mayFail → failed s.view) (hdied : died s.view)
    (hdone : done () { s.view with primary := some content }) :
    Spec mayFail (writeStringAtomically .primary .temp content) done failed died s :=
  ⟨stageAndRename_spec rfl rfl hfailed hdied hdone, hfailed, hdied⟩

theorem copyPrimaryToBackup_spec (hfailed : mayFail → failed s.view)
    (hmissing : s.view.primary = none → failed s.view) (hdied : died s.view)
    (hdone : ∀ content, s.view.primary = some content →
      done () { s.view with backup := some content }) :
    Spec mayFail copyPrimaryToBackup done failed died s := by
  refine touch_andThen ?_ hfailed hdied
  rcases hprimary : s.files .primary with _ | content
  · have hthrows : ∀ k : Contents → Prog (Store DateTime) Unit,
        Spec mayFail (read .primary >>= k) done failed died s := by
      intro k
      refine ⟨?_, hfailed, hdied⟩
      simp only [id, hprimary]
      exact hmissing hprimary
    exact hthrows _
  · exact read_andThen hprimary (stageAndRename_spec rfl rfl hfailed hdied (hdone content hprimary))
      hfailed hdied

theorem deleteIfExists_spec {file : File} (hdone : done () (s.put file none).view)
    (hfailed : mayFail → failed s.view) (hdied : died s.view) :
    Spec mayFail (deleteIfExists file) done failed died s := by
  refine ⟨?_, hfailed, hdied⟩
  change Prog.wp _ _ _ _ (if (s.files file).isSome = true then delete file else pure ()) s
  refine Prog.wp_ite (fun _ => ⟨hdone, hfailed, hdied⟩) fun hmissing => ?_
  have hnone : s.files file = none := by simpa using hmissing
  have hsame : s.put file none = s := by
    unfold Store.put
    rw [← hnone, Function.update_eq_self]
  rw [hsame] at hdone
  exact hdone

theorem deleteStagingArtifacts_spec (hdone : done () s.view) (hfailed : mayFail → failed s.view)
    (hdied : died s.view) : Spec mayFail deleteStagingArtifacts done failed died s := by
  refine Spec.andThen (fun _ u => u = s.view) ?_ ?_
  · exact deleteIfExists_spec (view_put rfl s none) hfailed hdied
  · intro _ u hu
    refine deleteIfExists_spec ?_ (hu ▸ hfailed) (hu ▸ hdied)
    rw [view_put rfl u none, hu]
    exact hdone

/-- The primary goes first, then the backup. -/
theorem deleteArtifacts_spec (hdone : done () { s.view with primary := none, backup := none })
    (hfailed : mayFail → failed s.view) (hdied : died s.view)
    (hfailed₁ : mayFail → failed { s.view with primary := none })
    (hdied₁ : died { s.view with primary := none })
    (hfailed₂ : mayFail → failed { s.view with primary := none, backup := none })
    (hdied₂ : died { s.view with primary := none, backup := none }) :
    Spec mayFail deleteArtifacts done failed died s := by
  refine Spec.andThen (fun _ u => u = { s.view with primary := none }) ?_ ?_
  · exact deleteIfExists_spec rfl hfailed hdied
  intro _ u hu
  refine Spec.andThen (fun _ u => u = { s.view with primary := none, backup := none })
    ?_ ?_
  · refine deleteIfExists_spec ?_ (hu ▸ hfailed₁) (hu ▸ hdied₁)
    change ({ u.view with backup := none } : View DateTime) = _
    rw [hu]
  · intro _ u hu
    exact deleteStagingArtifacts_spec (hu ▸ hdone) (hu ▸ hfailed₂) (hu ▸ hdied₂)

end

/-! ## Snapshots -/

section
variable {mayFail : Prop} {iso : Iso8601 DateTime} {s : Store DateTime}

/-- Only the backup has changed, into a copy of the primary. -/
def Backed (v u : View DateTime) : Prop :=
  u = v ∨ ∃ contents, v.primary = some contents ∧ u = { v with backup := some contents }

theorem writeSnapshot_spec (snapshot : Queue DateTime) :
    Spec mayFail (writeSnapshot iso snapshot)
      (fun _ u => u.primary = some (.json (toJson iso snapshot)) ∧ u.cache = s.view.cache)
      (fun u => Backed s.view u ∧ mayFail)
      (fun u => Backed s.view u ∨ u.primary = some (.json (toJson iso snapshot))) s := by
  have hstart : Backed s.view s.view := Or.inl rfl
  have hrest : ∀ u : Store DateTime, Backed s.view u.view →
      Spec mayFail (do
          writeStringAtomically .primary .temp (.json (toJson iso snapshot))
          Prog.tryCatch copyPrimaryToBackup (pure ()))
        (fun _ u => u.primary = some (.json (toJson iso snapshot)) ∧ u.cache = s.view.cache)
        (fun u => Backed s.view u ∧ mayFail)
        (fun u => Backed s.view u ∨ u.primary = some (.json (toJson iso snapshot))) u := by
    intro u hu
    have hcache : u.view.cache = s.view.cache := by
      rcases hu with hu | ⟨_, _, hu⟩
      · rw [hu]
      · rw [hu]
    refine Spec.andThen (fun _ u => u.primary = some (.json (toJson iso snapshot)) ∧
      u.cache = s.view.cache) (writePrimary_spec (fun hmay => ⟨hu, hmay⟩) (Or.inl hu) ⟨rfl, hcache⟩) ?_
    intro _ w hw
    have hcopy : Spec mayFail copyPrimaryToBackup
        (fun _ u => u.primary = some (.json (toJson iso snapshot)) ∧ u.cache = s.view.cache)
        (fun u => u.primary = some (.json (toJson iso snapshot)) ∧ u.cache = s.view.cache)
        (fun u => Backed s.view u ∨ u.primary = some (.json (toJson iso snapshot))) w :=
      copyPrimaryToBackup_spec (fun _ => hw) (fun _ => hw) (Or.inr hw.1) fun _ _ => hw
    unfold Spec
    rw [Prog.wp_tryCatch]
    exact hcopy
  refine ⟨?_, fun hmay => ⟨hstart, hmay⟩, Or.inl hstart⟩
  change Prog.wp _ _ _ _ (if (s.files .primary).isSome = true then _ else _) s
  refine Prog.wp_ite (fun hexists => ?_) fun _ => hrest s hstart
  refine Spec.andThen (fun _ u => Backed s.view u) ?_ fun _ u hu => hrest u hu
  refine copyPrimaryToBackup_spec (fun hmay => ⟨hstart, hmay⟩) (fun hnone => ?_) (Or.inl hstart)
    fun contents h => Or.inr ⟨contents, h, rfl⟩
  have hmissing : s.files .primary = none := hnone
  rw [hmissing] at hexists
  contradiction

/-! ## Loading -/

/-- What a file decodes to; a file that is not there is an empty queue. -/
def fileQueue (iso : Iso8601 DateTime) : Option Contents → Option (Queue DateTime)
  | some contents => readSnapshot iso contents
  | none => some ∅

/-- The queue a load comes to when nothing fails. -/
def recover (iso : Iso8601 DateTime) (v : View DateTime) : Option (Queue DateTime) :=
  match v.primary with
  | some contents => (readSnapshot iso contents).or (v.backup.bind (readSnapshot iso))
  | none => fileQueue iso v.backup

/-- The primary has been rewritten from a backup that can be read, or nothing has changed. Without
    failures it is rewritten only when it cannot be read. -/
def Restored (mayFail : Prop) (iso : Iso8601 DateTime) (v u : View DateTime) : Prop :=
  u = v ∨ u = { v with primary := v.backup } ∧ (v.backup.bind (readSnapshot iso)).isSome ∧
    (¬mayFail → v.primary.bind (readSnapshot iso) = none)

/-- A load that completes: the queue in memory is that of the primary, and what was recovered. -/
def LoadDone (mayFail : Prop) (iso : Iso8601 DateTime) (v : View DateTime) (queue : Queue DateTime)
    (u : View DateTime) : Prop :=
  u.cache = queue ∧ fileQueue iso u.primary = some queue ∧ (u.primary = none → u.backup = none) ∧
    (¬mayFail → recover iso v = some queue)

/-- Without failures a load throws only when neither file can be read. -/
def LoadFailed (mayFail : Prop) (iso : Iso8601 DateTime) (v u : View DateTime) : Prop :=
  Restored mayFail iso v u ∧ (¬mayFail → recover iso v = none)

theorem tryReadSnapshot_spec {source : File}
    {done : Option (Queue DateTime) → View DateTime → Prop} {failed died : View DateTime → Prop}
    (hread : done ((s.files source).bind (readSnapshot iso)) s.view)
    (hmissed : mayFail → done none s.view) (hfailed : mayFail → failed s.view)
    (hdied : died s.view) : Spec mayFail (tryReadSnapshot iso source) done failed died s := by
  refine ⟨?_, hfailed, hdied⟩
  change Prog.wp _ _ _ _ (if (s.files source).isSome = true then _ else _) s
  rcases hsource : s.files source with _ | contents
  · rw [hsource] at hread
    exact hread
  · rw [hsource] at hread
    refine ⟨?_, hmissed, hdied⟩
    change Prog.wp _ _ _ _ (Prog.tryCatch (Prog.bind (match s.files source with
      | some contents => Prog.done contents
      | none => Prog.throw) _) _) s
    rw [hsource]
    exact hread

theorem restoreBackup_spec {v : View DateTime} {snapshot : Queue DateTime} (hs : s.view = v)
    (hbackup : v.backup.bind (readSnapshot iso) = some snapshot)
    (hprimary : ¬mayFail → v.primary.bind (readSnapshot iso) = none) :
    Spec mayFail (restoreBackup snapshot)
      (fun a u => a = snapshot ∧ u.cache = a ∧ fileQueue iso u.primary = some a ∧
        u.primary ≠ none)
      (fun u => Restored mayFail iso v u ∧ mayFail) (Restored mayFail iso v) s := by
  have hsame : Restored mayFail iso v s.view := Or.inl hs
  have hrestored : Restored mayFail iso v { v with primary := v.backup } :=
    Or.inr ⟨rfl, by rw [hbackup]; rfl, hprimary⟩
  obtain ⟨contents, hcontents, hread⟩ := Option.bind_eq_some_iff.mp hbackup
  refine Spec.andThen (fun _ u => u = { v with primary := v.backup }) ?_ ?_
  · have hfile : s.files .backup = some contents := by
      rw [← hcontents, ← hs]
      rfl
    refine read_andThen hfile (writePrimary_spec (fun hmay => ⟨hsame, hmay⟩) hsame ?_)
      (fun hmay => ⟨hsame, hmay⟩) hsame
    change (⟨some contents, s.view.backup, s.view.cache⟩ : View DateTime) =
      ⟨v.backup, v.backup, v.cache⟩
    rw [hs, hcontents]
  · intro _ u hu
    rw [← hu] at hrestored
    refine Spec.andThen (fun _ w => w = u.view)
      (deleteStagingArtifacts_spec rfl (fun hmay => ⟨hrestored, hmay⟩) hrestored) fun _ w hw => ?_
    refine ⟨rfl, rfl, ?_, ?_⟩
    · change fileQueue iso w.view.primary = some snapshot
      rw [hw, hu, hcontents]
      exact hread
    · change w.view.primary ≠ none
      rw [hw, hu, hcontents]
      simp

/-- The branch on a backup: restored when it can be read. -/
theorem backup_spec {v : View DateTime} (hs : s.view = v)
    (hprimary : ¬mayFail → v.primary.bind (readSnapshot iso) = none)
    (hrecover : ¬mayFail → recover iso v = v.backup.bind (readSnapshot iso)) :
    Spec mayFail (do
        match ← tryReadSnapshot iso .backup with
        | some snapshot => restoreBackup snapshot
        | none => .throw)
      (LoadDone mayFail iso v) (LoadFailed mayFail iso v) (Restored mayFail iso v) s := by
  have hsame : Restored mayFail iso v s.view := Or.inl hs
  have hfile : s.files .backup = v.backup := by
    rw [← hs]
    rfl
  refine Spec.andThen (fun found u => u = v ∧ (found = v.backup.bind (readSnapshot iso) ∨
    found = none ∧ mayFail)) ?_ ?_
  · refine tryReadSnapshot_spec ⟨hs, Or.inl (by rw [hfile])⟩ (fun hmay => ⟨hs, Or.inr ⟨rfl, hmay⟩⟩)
      (fun hmay => ⟨hsame, fun hnot => absurd hmay hnot⟩) hsame
  · rintro found u ⟨hu, hfound⟩
    cases found with
    | none =>
      refine ⟨Or.inl hu, fun hnot => ?_⟩
      rcases hfound with hfound | ⟨-, hmay⟩
      · rw [hrecover hnot, ← hfound]
      · exact absurd hmay hnot
    | some snapshot =>
      have hbackup : v.backup.bind (readSnapshot iso) = some snapshot := by
        rcases hfound with hfound | ⟨hfound, -⟩
        · exact hfound.symm
        · contradiction
      refine Prog.wp_mono _ ?_ ?_ (fun _ h => h) u (restoreBackup_spec hu hbackup hprimary)
      · rintro a w ⟨rfl, hcache, hread, hthere⟩
        exact ⟨hcache, hread, fun hnone => absurd hnone hthere, fun hnot =>
          (hrecover hnot).trans hbackup⟩
      · rintro w ⟨hw, hmay⟩
        exact ⟨hw, fun hnot => absurd hmay hnot⟩

theorem loadQueue_spec (iso : Iso8601 DateTime) (s : Store DateTime) :
    Spec mayFail (loadQueue iso false)
      (LoadDone mayFail iso s.view) (LoadFailed mayFail iso s.view) (Restored mayFail iso s.view)
      s := by
  have hsame : Restored mayFail iso s.view s.view := Or.inl rfl
  have hfailed : mayFail → LoadFailed mayFail iso s.view s.view := fun hmay =>
    ⟨hsame, fun hnot => absurd hmay hnot⟩
  refine touch_andThen (exists_andThen ?_ hfailed hsame) hfailed hsame
  rcases hprimary : s.files .primary with _ | contents
  · -- without a primary the backup decides
    have hview : s.view.primary = none := hprimary
    refine exists_andThen ?_ hfailed hsame
    rcases hbackup : s.files .backup with _ | contents
    · have hviewb : s.view.backup = none := hbackup
      change Spec mayFail (deleteStagingArtifacts >>= _) _ _ _ s
      refine Spec.andThen (fun _ u => u = s.view)
        (deleteStagingArtifacts_spec rfl hfailed hsame) fun _ u hu => ?_
      have hempty : u.view.primary = none ∧ u.view.backup = none := by
        rw [hu]
        exact ⟨hview, hviewb⟩
      refine ⟨rfl, ?_, fun _ => hempty.2, fun _ => ?_⟩
      · change fileQueue iso u.view.primary = _
        rw [hempty.1]
        rfl
      · unfold recover
        rw [hview, hviewb]
        rfl
    · refine backup_spec rfl (fun _ => by rw [hview]; rfl) fun _ => ?_
      have hviewb : s.view.backup = some contents := hbackup
      unfold recover
      rw [hview, hviewb]
      rfl
  · have hview : s.view.primary = some contents := hprimary
    change Spec mayFail (tryReadSnapshot iso .primary >>= _) _ _ _ s
    refine Spec.andThen (fun found u => u = s.view ∧ (found = readSnapshot iso contents ∨
      found = none ∧ mayFail)) ?_ ?_
    · refine tryReadSnapshot_spec ⟨rfl, Or.inl (by rw [hprimary]; rfl)⟩
        (fun hmay => ⟨rfl, Or.inr ⟨rfl, hmay⟩⟩) hfailed hsame
    · rintro found u ⟨hu, hfound⟩
      cases found with
      | none =>
        have hunread : ¬mayFail → readSnapshot iso contents = none := by
          intro hnot
          rcases hfound with hfound | ⟨-, hmay⟩
          · exact hfound.symm
          · exact absurd hmay hnot
        refine backup_spec hu (fun hnot => by rw [hview]; exact hunread hnot) fun hnot => ?_
        unfold recover
        rw [hview]
        dsimp only
        rw [hunread hnot, Option.none_or]
      | some snapshot =>
        have hread : readSnapshot iso contents = some snapshot := by
          rcases hfound with hfound | ⟨hfound, -⟩
          · exact hfound.symm
          · contradiction
        have hkept : Restored mayFail iso s.view u.view := Or.inl hu
        refine Spec.andThen (fun _ w => w = s.view) (deleteStagingArtifacts_spec hu
          (fun hmay => ⟨hkept, fun hnot => absurd hmay hnot⟩) hkept) fun _ w hw => ?_
        have hthere : w.view.primary = some contents := by rw [hw, hview]
        refine ⟨rfl, ?_, fun hnone => ?_, fun _ => ?_⟩
        · change fileQueue iso w.view.primary = _
          rw [hthere]
          exact hread
        · change w.view.primary = none at hnone
          rw [hthere] at hnone
          contradiction
        · unfold recover
          rw [hview]
          dsimp only
          rw [hread, Option.some_or]

/-! ## Clearing -/

/-- The empty primary has been published: it, or else the backup, or else no file is there. -/
def Cleared (iso : Iso8601 DateTime) (u : View DateTime) : Prop :=
  u.primary = some (.json (toJson iso ∅)) ∨
    u.primary = none ∧ (u.backup = some (.json (toJson iso ∅)) ∨ u.backup = none)

theorem clearQueueFile_spec (iso : Iso8601 DateTime) (s : Store DateTime) :
    Spec mayFail (clearQueueFile iso)
      (fun _ u => u.primary = none ∧ u.backup = none ∧ u.cache = ∅)
      (fun u => (u = s.view ∨ Cleared iso u ∧ u.cache = ∅) ∧ mayFail)
      (fun u => u = s.view ∨ Cleared iso u) s := by
  have hstart : mayFail → (s.view = s.view ∨ Cleared iso s.view ∧ s.view.cache = ∅) ∧ mayFail :=
    fun hmay => ⟨Or.inl rfl, hmay⟩
  refine touch_andThen ?_ hstart (Or.inl rfl)
  refine Spec.andThen (fun _ u => u.primary = some (.json (toJson iso ∅)))
    (writePrimary_spec hstart (Or.inl rfl) rfl) ?_
  intro _ u hu
  -- from here on the queue in memory is empty and every file stands for the empty queue
  refine replaceCache_andThen ?_
  have hcommitted : Cleared iso (u.replaceCache ∅).view := Or.inl hu
  refine Spec.andThen (fun _ w => w.primary = some (.json (toJson iso ∅)) ∧
    w.backup = some (.json (toJson iso ∅)) ∧ w.cache = ∅) ?_ ?_
  · refine copyPrimaryToBackup_spec (fun hmay => ⟨Or.inr ⟨hcommitted, rfl⟩, hmay⟩) (fun hnone => ?_)
      (Or.inr hcommitted) fun contents hcontents => ?_
    · change u.view.primary = none at hnone
      rw [hu] at hnone
      contradiction
    · change u.view.primary = some contents at hcontents
      rw [hu] at hcontents
      rw [← hcontents]
      exact ⟨hu, rfl, rfl⟩
  · rintro _ w ⟨hprimary, hbackup, hcache⟩
    exact deleteArtifacts_spec ⟨rfl, rfl, hcache⟩
      (fun hmay => ⟨Or.inr ⟨Or.inl hprimary, hcache⟩, hmay⟩) (Or.inr (Or.inl hprimary))
      (fun hmay => ⟨Or.inr ⟨Or.inr ⟨rfl, Or.inl hbackup⟩, hcache⟩, hmay⟩)
      (Or.inr (Or.inr ⟨rfl, Or.inl hbackup⟩))
      (fun hmay => ⟨Or.inr ⟨Or.inr ⟨rfl, Or.inr rfl⟩, hcache⟩, hmay⟩)
      (Or.inr (Or.inr ⟨rfl, Or.inr rfl⟩))

/-! ## The operations -/

variable [DecidableEq DateTime]

theorem mutate_spec (iso : Iso8601 DateTime) (op : Operation DateTime) (s : Store DateTime) :
    Spec mayFail (op.mutate iso)
      (fun reply u => (∀ queue, reply ≠ .queue queue) ∧
        match op.snapshot s.view.cache with
        | none => u = s.view
        | some queue => u.primary = some (.json (toJson iso queue)) ∧ u.cache = queue)
      (fun u => Backed s.view u ∧ mayFail)
      (fun u => Backed s.view u ∨ ∃ queue, op.snapshot s.view.cache = some queue ∧
        u.primary = some (.json (toJson iso queue))) s := by
  have hreply : ∀ written queue, op.reply written ≠ .queue queue := by
    intro written queue
    cases op <;> simp [Operation.reply]
  change Prog.wp _ _ _ _ (match op.snapshot s.cache with
    | none => pure (op.reply false)
    | some snapshot => _) s
  rcases hsnapshot : op.snapshot s.cache with _ | snapshot
  · have hview : op.snapshot s.view.cache = none := hsnapshot
    rw [hview]
    exact ⟨hreply false, rfl⟩
  · have hview : op.snapshot s.view.cache = some snapshot := hsnapshot
    have hstart : Backed s.view s.view := Or.inl rfl
    rw [hview]
    have hsave : Spec mayFail (saveSnapshot iso snapshot)
        (fun _ u => u.primary = some (.json (toJson iso snapshot)) ∧ u.cache = s.view.cache)
        (fun u => Backed s.view u ∧ mayFail)
        (fun u => Backed s.view u ∨ u.primary = some (.json (toJson iso snapshot))) s :=
      touch_andThen (writeSnapshot_spec snapshot) (fun hmay => ⟨hstart, hmay⟩) (Or.inl hstart)
    refine Prog.wp_andThen (Prog.wp_mono _ (fun _ _ h => h) (fun _ h => h) ?_ s hsave) ?_
    · rintro u (hu | hu)
      · exact Or.inl hu
      · exact Or.inr ⟨snapshot, rfl, hu⟩
    · intro _ u hu
      exact ⟨hreply true, hu.1, rfl⟩

theorem loadQueue_program (iso : Iso8601 DateTime) (s : Store DateTime) :
    Spec mayFail (Operation.loadQueue.program iso)
      (fun reply u => ∃ queue, reply = .queue queue ∧ LoadDone mayFail iso s.view queue u)
      (LoadFailed mayFail iso s.view) (Restored mayFail iso s.view) s :=
  Spec.andThen _ (loadQueue_spec iso s) fun queue _ hu => ⟨queue, rfl, hu⟩

theorem clearQueueFile_program (iso : Iso8601 DateTime) (s : Store DateTime) :
    Spec mayFail (Operation.clearQueueFile.program iso)
      (fun reply u => reply = .unit ∧ u.primary = none ∧ u.backup = none ∧ u.cache = ∅)
      (fun u => (u = s.view ∨ Cleared iso u ∧ u.cache = ∅) ∧ mayFail)
      (fun u => u = s.view ∨ Cleared iso u) s :=
  Spec.andThen _ (clearQueueFile_spec iso s) fun _ _ hu => ⟨rfl, hu⟩

/-- The programs of the operations. -/
theorem program_cases (iso : Iso8601 DateTime) (op : Operation DateTime) :
    op = .loadQueue ∨ op = .clearQueueFile ∨ op.program iso = op.mutate iso := by
  cases op with
  | loadQueue => exact Or.inl rfl
  | clearQueueFile => exact Or.inr (Or.inl rfl)
  | _ => exact Or.inr (Or.inr rfl)

end

end Tim2Tox.QueueFiles
