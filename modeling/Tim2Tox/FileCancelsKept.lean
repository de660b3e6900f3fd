import Tim2Tox.FileCancels
import Tim2Tox.ReceivedChunks

set_option autoImplicit false

/-!
# Cancelled receives remove their own files

As long as names in use are not opened again, a file under the names of an open receive is one its
own accept made.
-/
namespace Tim2Tox.FileCancels
open FileDisks StorageNames KeyedTables FileReceives ReceivedChunks

/-! ## Disks -/

/-- Of a changed disk every entry was there before, or is a new file under one of the names. -/
structure Grown (created : List Bytes) (disk disk' : Disk Bytes UInt8) : Prop where
  entries : ∀ name file, disk'.entry name = some file →
    disk.entry name = some file ∨ (disk.fresh ≤ file ∧ name ∈ created)
  fresh : disk.fresh ≤ disk'.fresh

section
variable {created : List Bytes} {disk disk' disk'' : Disk Bytes UInt8}

theorem Grown.refl : Grown created disk disk := ⟨fun _ _ h => .inl h, Nat.le_refl _⟩

theorem Grown.trans (h : Grown created disk disk') (h' : Grown created disk' disk'') :
    Grown created disk disk'' := by
  refine ⟨?_, h.fresh.trans h'.fresh⟩
  intro name file hentry
  cases h'.entries name file hentry with
  | inl hbefore => exact h.entries name file hbefore
  | inr hnew => exact .inr ⟨h.fresh.trans hnew.1, hnew.2⟩

theorem Grown.mono {more : List Bytes} (h : Grown [] disk disk') : Grown more disk disk' := by
  refine ⟨?_, h.fresh⟩
  intro name file hentry
  cases h.entries name file hentry with
  | inl hbefore => exact .inl hbefore
  | inr hnew => cases hnew.2

theorem Grown.unlink (path : Bytes) : Grown created disk (disk.unlink path) := by
  refine ⟨?_, Nat.le_refl _⟩
  intro name file hentry
  by_cases hname : name = path
  · rw [hname, Disk.entry_unlink_self] at hentry
    cases hentry
  · rw [Disk.entry_unlink_ne hname] at hentry
    exact .inl hentry

theorem Grown.openTruncate {path : Bytes} (h : path ∈ created) :
    Grown created disk (disk.openTruncate path).1 := by
  unfold Disk.openTruncate
  cases hentry : disk.entry path with
  | some file => exact ⟨fun _ _ h => .inl h, Nat.le_refl _⟩
  | none =>
    refine ⟨?_, Nat.le_succ _⟩
    intro name file hname
    by_cases hpath : name = path
    · rw [hpath] at hname ⊢
      dsimp only at hname
      rw [Disk.entry_create_self] at hname
      exact .inr ⟨Nat.le_of_eq (Option.some.inj hname), h⟩
    · dsimp only at hname
      rw [Disk.entry_create_ne hpath] at hname
      exact .inl hname

theorem Grown.removed (h : Grown [] disk disk') {name : Bytes} {file : ℕ}
    (hentry : disk'.entry name = some file) : disk.entry name = some file := by
  cases h.entries name file hentry with
  | inl hbefore => exact hbefore
  | inr hnew => cases hnew.2

end

/-! ## Steps of the native side -/

/-- An open receive was open before, with the same path. -/
def StillOpen (s : State) (key : Key) (ctx' : RecvCtx) : Prop :=
  ∃ ctx, s.context key = some ctx ∧ ctx.fp ≠ none ∧ ctx.path = ctx'.path

/-- Nothing is opened, and nothing put on the disk. -/
structure Shrunk (s s' : State) : Prop where
  contexts : ∀ key ctx', s'.context key = some ctx' → ctx'.fp ≠ none → StillOpen s key ctx'
  disk : Grown [] s.disk s'.disk

theorem Shrunk.refl (s : State) : Shrunk s s :=
  ⟨fun _ ctx' hctx hopen => ⟨ctx', hctx, hopen, rfl⟩, .refl⟩

/-- Only the disk changes. -/
theorem Shrunk.of_disk {s : State} {disk : Disk Bytes UInt8} (h : Grown [] s.disk disk) :
    Shrunk s { s with disk := disk } :=
  ⟨fun _ ctx' hctx hopen => ⟨ctx', hctx, hopen, rfl⟩, h⟩

theorem Shrunk.forget {s : State} {key : Key} {disk : Disk Bytes UInt8}
    (h : Grown [] s.disk disk) : Shrunk s { s.forget key with disk := disk } := by
  refine ⟨?_, h⟩
  intro k ctx' hctx hopen
  by_cases hk : k = key
  · rw [hk] at hctx
    cases (context_forget_self s key).symm.trans hctx
  · exact ⟨ctx', (context_forget_ne hk).symm.trans hctx, hopen, rfl⟩

theorem Shrunk.put {s : State} {key : Key} {ctx ctx' : RecvCtx} {disk : Disk Bytes UInt8}
    (hctx : s.context key = some ctx) (hfp : ctx'.fp = ctx.fp) (hpath : ctx'.path = ctx.path)
    (h : Grown [] s.disk disk) : Shrunk s ({ s with disk := disk }.put key ctx') := by
  refine ⟨?_, h⟩
  intro k found hfound hopen
  by_cases hk : k = key
  · rw [hk, context_put_self] at hfound
    obtain rfl := Option.some.inj hfound
    rw [hk]
    rw [hfp] at hopen
    exact ⟨ctx, hctx, hopen, hpath.symm⟩
  · rw [context_put_ne _ hk] at hfound
    exact ⟨found, hfound, hopen, rfl⟩

theorem removeReceived_grown (disk : Disk Bytes UInt8) (path : Bytes) :
    Grown [] disk ((disk.unlink path).unlink (receiveMarkerPath path)) :=
  (Grown.unlink _).trans (.unlink _)

theorem discardReceive_shrunk (s : State) (key : Key) : Shrunk s (discardReceive s key).1 := by
  rw [discardReceive]
  cases s.context key with
  | none => exact .refl s
  | some ctx => exact Shrunk.forget (removeReceived_grown _ _)

theorem Shrunk.trans {s s' s'' : State} (h : Shrunk s s') (h' : Shrunk s' s'') : Shrunk s s'' := by
  refine ⟨?_, h.disk.trans h'.disk⟩
  intro key ctx'' hctx hopen
  obtain ⟨ctx', hctx', hopen', hpath'⟩ := h'.contexts key ctx'' hctx hopen
  obtain ⟨ctx, hbefore, hopenBefore, hpath⟩ := h.contexts key ctx' hctx' hopen'
  exact ⟨ctx, hbefore, hopenBefore, hpath.trans hpath'⟩

theorem filled_grown (p : Platform) (s : State) (c : Chunk) (fp : ℕ) :
    Grown [] s.disk (filled p s c fp).disk := ⟨fun _ _ h => .inl h, Nat.le_refl _⟩

theorem failReceive_state (s : State) (key : Key) (fileNumber : UInt32) (reason : Reason) :
    (failReceive s key fileNumber reason).1 = (discardReceive s key).1 := by
  rw [failReceive]
  rcases discardReceive s key with ⟨s', _ | ctx⟩
  · rfl
  · rfl

theorem finishReceive_shrunk (p : Platform) (s : State) (c : Chunk) (ctx : RecvCtx) :
    Shrunk s (finishReceive p s c ctx).1 := by
  have hfinished := finishReceive_finished p s c ctx
  generalize finishReceive p s c ctx = out at hfinished
  cases hfinished with
  | failed reason => exact Shrunk.forget (removeReceived_grown _ _)
  | done hnoted hexact => exact Shrunk.forget .refl
  | empty => exact Shrunk.forget .refl

theorem chunk_shrunk (p : Platform) (s : State) (c : Chunk) :
    Shrunk s (fileRecvChunkCallback p s c).1 := by
  have hanswered := chunk_answered p s c
  generalize fileRecvChunkCallback p s c = out at hanswered
  cases hanswered with
  | missing h => exact .refl s
  | last ctx h => exact finishReceive_shrunk p s c ctx
  | beyond ctx h => exact Shrunk.put h rfl rfl .refl
  | unopened h => exact .refl s
  | written ctx fp receivedEnd h => exact Shrunk.put h rfl rfl (filled_grown p s c fp)
  | failed ctx fp reason h =>
    rw [failReceive_state]
    have hfill : Shrunk s (filled p s c fp) := .of_disk (filled_grown p s c fp)
    exact hfill.trans (discardReceive_shrunk _ _)

theorem foldl_unlink_grown (entries : List (Sigma fun _ : Key => RecvCtx)) :
    ∀ disk : Disk Bytes UInt8,
      Grown [] disk (entries.foldl (fun disk entry => disk.unlink entry.2.path) disk) := by
  induction entries with
  | nil => exact fun disk => .refl
  | cons entry entries ih => exact fun disk => (Grown.unlink _).trans (ih _)

theorem sessionEnd_shrunk (s : State) (instanceId : ℤ) :
    Shrunk s (eraseRecvContextsForInstance s instanceId) := by
  refine ⟨?_, foldl_unlink_grown _ _⟩
  intro key ctx' hctx hopen
  cases eraseRecvContexts_context s instanceId key with
  | inl hgone => cases hgone.symm.trans hctx
  | inr hsame => exact ⟨ctx', hsame.symm.trans hctx, hopen, rfl⟩

/-! ## Accepting -/

/-- At most one receive is opened, and only files under its names are made. -/
structure Opened (key : Key) (s s' : State) : Prop where
  contexts : ∀ k ctx', s'.context k = some ctx' → ctx'.fp ≠ none → StillOpen s k ctx' ∨
    (k = key ∧ ∃ ctx, s.context key = some ctx ∧ ctx.fp = none ∧ ctx.path = ctx'.path)
  disk : ∃ created, Grown created s.disk s'.disk ∧ ∀ name ∈ created,
    ∃ ctx, s.context key = some ctx ∧ ctx.fp = none ∧ name ∈ names ctx

theorem Shrunk.opened {s s' : State} (h : Shrunk s s') (key : Key) : Opened key s s' :=
  ⟨fun k ctx' hctx hopen => .inl (h.contexts k ctx' hctx hopen),
    [], h.disk, fun _ hname => absurd hname List.not_mem_nil⟩

theorem Opened.shrunk {key : Key} {s s' s'' : State} (h : Opened key s s') (h' : Shrunk s' s'') :
    Opened key s s'' := by
  obtain ⟨created, hgrown, hcreated⟩ := h.disk
  refine ⟨?_, created, hgrown.trans h'.disk.mono, hcreated⟩
  intro k ctx'' hctx hopen
  obtain ⟨ctx', hctx', hopen', hpath⟩ := h'.contexts k ctx'' hctx hopen
  cases h.contexts k ctx' hctx' hopen' with
  | inl hstill =>
    obtain ⟨ctx, hbefore, hopenBefore, hpath'⟩ := hstill
    exact .inl ⟨ctx, hbefore, hopenBefore, hpath'.trans hpath⟩
  | inr hnew =>
    obtain ⟨hkey, ctx, hbefore, hclosed, hpath'⟩ := hnew
    exact .inr ⟨hkey, ctx, hbefore, hclosed, hpath'.trans hpath⟩

section
variable {s : State} {key : Key} {ctx : RecvCtx} {disk : Disk Bytes UInt8}

/-- A try that came to nothing. -/
theorem opened_of_disk (hctx : s.context key = some ctx) (hclosed : ctx.fp = none)
    (h : Grown (names ctx) s.disk disk) : Opened key s { s with disk := disk } :=
  ⟨fun _ ctx' hfound hopen => .inl ⟨ctx', hfound, hopen, rfl⟩, names ctx, h,
    fun _ hname => ⟨ctx, hctx, hclosed, hname⟩⟩

theorem opened_of_put (hctx : s.context key = some ctx) (hclosed : ctx.fp = none) (fp : Option ℕ)
    (h : Grown (names ctx) s.disk disk) :
    Opened key s ({ s with disk := disk }.put key { ctx with fp := fp }) := by
  refine ⟨?_, names ctx, h, fun _ hname => ⟨ctx, hctx, hclosed, hname⟩⟩
  intro k ctx' hfound hopen
  by_cases hk : k = key
  · rw [hk, context_put_self] at hfound
    obtain rfl := Option.some.inj hfound
    exact .inr ⟨hk, ctx, hctx, hclosed, rfl⟩
  · rw [context_put_ne _ hk] at hfound
    exact .inl ⟨ctx', hfound, hopen, rfl⟩

end

theorem openReceive_opened (p : Platform) (s : State) (key : Key) (io : ControlIo) :
    Opened key s (openReceive p s key io).1 := by
  have hsame : Opened key s s := (Shrunk.refl s).opened key
  unfold openReceive
  cases hctx : s.context key with
  | none => exact hsame
  | some ctx =>
    dsimp only
    by_cases hlarge : ctx.kind = avatarKind ∧ ctx.size > kAvatarMaxBytes
    · rw [if_pos hlarge]
      exact hsame
    · rw [if_neg hlarge]
      by_cases hopen : ctx.fp ≠ none
      · rw [if_pos hopen]
        exact hsame
      · rw [if_neg hopen]
        have hclosed : ctx.fp = none := not_not.mp hopen
        have hpath : ctx.path ∈ names ctx := List.mem_cons_self
        have hmarker : receiveMarkerPath ctx.path ∈ names ctx :=
          List.mem_cons_of_mem _ List.mem_cons_self
        have hmarked : Grown (names ctx) s.disk
            (if (ctx.kind != avatarKind && io.markerOpens) = true then
              (s.disk.openTruncate (receiveMarkerPath ctx.path)).1 else s.disk) := by
          split_ifs
          · exact .openTruncate hmarker
          · exact .refl
        generalize (if (ctx.kind != avatarKind && io.markerOpens) = true then
          (s.disk.openTruncate (receiveMarkerPath ctx.path)).1 else s.disk) = marked at hmarked
        split_ifs
        · exact hsame
        · exact opened_of_disk hctx hclosed (hmarked.trans (.unlink _))
        · exact opened_of_disk hctx hclosed (hmarked.trans (.unlink _))
        · exact opened_of_disk hctx hclosed hmarked
        · exact opened_of_put hctx hclosed _ (hmarked.trans (.openTruncate hpath))

theorem closeOpened_shrunk (s : State) (key : Key) (opened : ℕ × Bytes) :
    Shrunk s (closeOpened s key opened) := by
  unfold closeOpened
  cases hctx : s.context key with
  | none => exact .refl s
  | some ctx =>
    dsimp only
    by_cases hown : ctx.fp = some opened.1
    · rw [if_pos hown]
      refine ⟨?_, ?_⟩
      · intro k ctx' hfound hopen
        by_cases hk : k = key
        · rw [hk, context_put_self] at hfound
          obtain rfl := Option.some.inj hfound
          cases hopen rfl
        · rw [context_put_ne _ hk] at hfound
          exact ⟨ctx', hfound, hopen, rfl⟩
      · split_ifs
        · exact (Grown.unlink _).trans (.unlink _)
        · exact .unlink _
    · rw [if_neg hown]
      exact .refl s

theorem accept_opened (p : Platform) (s : State) (instanceId : ℤ) (friendNo fileNumber : UInt32)
    (io : ControlIo) :
    Opened (fileKey instanceId friendNo fileNumber) s
      (fileControl p s instanceId (.ok friendNo) fileNumber 0 io).1 := by
  unfold fileControl
  dsimp only
  rw [if_pos rfl]
  have hopen := openReceive_opened p s (fileKey instanceId friendNo fileNumber) io
  generalize openReceive p s (fileKey instanceId friendNo fileNumber) io = out at hopen
  obtain ⟨s', code | opened⟩ := out
  · exact hopen
  · dsimp only
    split_ifs
    · exact hopen
    · cases opened with
      | none => exact hopen
      | some opened => exact hopen.shrunk (closeOpened_shrunk s' _ opened)

theorem control_shrunk (p : Platform) (s : State) (instanceId : ℤ) (target : Except ℤ UInt32)
    (fileNumber : UInt32) {control : ℤ} (h : control ≠ 0) (io : ControlIo) :
    Shrunk s (fileControl p s instanceId target fileNumber control io).1 := by
  cases target with
  | error code => exact .refl s
  | ok friendNo =>
    unfold fileControl
    dsimp only
    rw [if_neg h]
    by_cases hpause : control = 1
    · rw [if_pos hpause]
      exact .refl s
    · rw [if_neg hpause]
      by_cases hcancel : control = 2
      · rw [if_pos hcancel]
        by_cases hcontrolled : io.controlled = true
        · rw [if_pos hcontrolled]
          exact discardReceive_shrunk s _
        · rw [if_neg hcontrolled]
          exact .refl s
      · rw [if_neg hcancel]
        exact .refl s

/-! ## The invariant -/

/-- What is under the names of an open receive it has made itself, and it is not complete. -/
structure Kept (s : System) : Prop where
  own : ∀ key ctx, s.native.context key = some ctx → ctx.fp ≠ none → ∀ name ∈ names ctx, ∀ file,
    s.native.disk.entry name = some file →
      s.ledger.creator file = some (s.ledger.current key) ∧ s.ledger.complete file = false
  complete : ∀ file, s.ledger.complete file = true → file < s.native.disk.fresh

theorem kept_start {s : System} (h : Start s) : Kept s := by
  constructor
  · intro key ctx hctx
    rw [State.context, h.contexts] at hctx
    cases hctx
  · intro file hcomplete
    rw [h.complete] at hcomplete
    cases hcomplete

theorem names_eq {ctx ctx' : RecvCtx} (h : ctx.path = ctx'.path) : names ctx = names ctx' := by
  rw [names, names, h]

/-- Nothing is opened: the ledger may only learn of other keys, of new files and of files of no open
    receive. -/
theorem Kept.shrunk {s : System} {native : State} {ledger : Ledger} (hkept : Kept s)
    (h : Shrunk s.native native)
    (hgeneration : ∀ key ctx, native.context key = some ctx → ctx.fp ≠ none →
      ledger.generation key = s.ledger.generation key)
    (hcreator : ∀ file, file < s.native.disk.fresh → ledger.creator file = s.ledger.creator file)
    (hcomplete : ∀ file, ledger.complete file = true → s.ledger.complete file = true ∨
      (file < s.native.disk.fresh ∧ ∀ key ctx, native.context key = some ctx → ctx.fp ≠ none →
        s.ledger.creator file ≠ some (s.ledger.current key)))
    (service : Service) : Kept ⟨native, service, ledger⟩ := by
  constructor
  · intro key ctx' hctx hopen name hname file hentry
    obtain ⟨ctx, hbefore, hopenBefore, hpath⟩ := h.contexts key ctx' hctx hopen
    rw [← names_eq hpath] at hname
    have hthere := h.disk.removed hentry
    obtain ⟨hown, hincomplete⟩ := hkept.own key ctx hbefore hopenBefore name hname file hthere
    have hcurrent : ledger.current key = s.ledger.current key := by
      rw [Ledger.current, Ledger.current, hgeneration key ctx' hctx hopen]
    dsimp only
    rw [hcreator file (s.native.disk.named name file hthere), hcurrent]
    refine ⟨hown, ?_⟩
    rw [← Bool.not_eq_true]
    intro hnow
    cases hcomplete file hnow with
    | inl hthen =>
      rw [hincomplete] at hthen
      cases hthen
    | inr hother => exact hother.2 key ctx' hctx hopen hown
  · intro file hnow
    cases hcomplete file hnow with
    | inl hthen => exact Nat.lt_of_lt_of_le (hkept.complete file hthen) h.disk.fresh
    | inr hother => exact Nat.lt_of_lt_of_le hother.1 h.disk.fresh

/-- The same ledger. -/
theorem Kept.same {s : System} {native : State} (hkept : Kept s) (h : Shrunk s.native native)
    (service : Service) : Kept ⟨native, service, s.ledger⟩ :=
  hkept.shrunk h (fun _ _ _ _ => rfl) (fun _ _ => rfl) (fun _ hcomplete => .inl hcomplete) service

theorem acceptFits_closed {s : State} {key : Key} {ctx : RecvCtx} {name : Bytes}
    (h : acceptFits s key = true) (hctx : s.context key = some ctx) (hclosed : ctx.fp = none)
    (hname : name ∈ names ctx) : s.disk.entry name = none ∧ openElsewhere s key name = false := by
  simp only [acceptFits, hctx, hclosed, Option.isSome_none, Bool.false_or, List.all_eq_true,
    Bool.and_eq_true, Bool.not_eq_true', Option.isNone_iff_eq_none] at h
  exact h name hname

theorem openElsewhere_of_open {s : State} {key k : Key} {ctx : RecvCtx} {name : Bytes}
    (hctx : s.context k = some ctx) (hk : k ≠ key) (hopen : ctx.fp ≠ none)
    (hname : name ∈ names ctx) : openElsewhere s key name = true := by
  rw [openElsewhere, List.any_eq_true]
  refine ⟨⟨k, ctx⟩, mem_entries_of_lookup hctx, ?_⟩
  simp only [Bool.and_eq_true, decide_eq_true_eq, Option.isSome_iff_ne_none, List.contains_iff_mem]
  exact ⟨⟨hk, hopen⟩, hname⟩

theorem Kept.opened {s : System} {native : State} {key : Key} (hkept : Kept s)
    (h : Opened key s.native native) (hfits : acceptFits s.native key = true) (service : Service) :
    Kept ⟨native, service,
      { s.ledger with
        creator := fun file =>
          if s.native.disk.fresh ≤ file ∧ file < native.disk.fresh then some (s.ledger.current key)
          else s.ledger.creator file }⟩ := by
  obtain ⟨created, hgrown, hcreated⟩ := h.disk
  constructor
  · intro k ctx' hctx hopen name hname file hentry
    dsimp only at hctx hentry ⊢
    cases h.contexts k ctx' hctx hopen with
    | inl hstill =>
      obtain ⟨ctx, hbefore, hopenBefore, hpath⟩ := hstill
      rw [← names_eq hpath] at hname
      cases hgrown.entries name file hentry with
      | inl hthere =>
        have hold := s.native.disk.named name file hthere
        rw [if_neg (by omega)]
        exact hkept.own k ctx hbefore hopenBefore name hname file hthere
      | inr hnew =>
        -- the name would be that of two receives
        obtain ⟨opened, hopened, hclosed, hopenedName⟩ := hcreated name hnew.2
        have hk : k ≠ key := by
          intro heq
          rw [heq] at hbefore
          cases hopened.symm.trans hbefore
          exact hopenBefore hclosed
        have hfree := (acceptFits_closed hfits hopened hclosed hopenedName).2
        rw [openElsewhere_of_open hbefore hk hopenBefore hname] at hfree
        cases hfree
    | inr hnow =>
      obtain ⟨hk, ctx, hbefore, hclosed, hpath⟩ := hnow
      rw [← names_eq hpath] at hname
      have hnone := (acceptFits_closed hfits hbefore hclosed hname).1
      cases hgrown.entries name file hentry with
      | inl hthere => cases hnone.symm.trans hthere
      | inr hnew =>
        have hbound := native.disk.named name file hentry
        rw [if_pos ⟨hnew.1, hbound⟩, hk]
        refine ⟨rfl, ?_⟩
        rw [← Bool.not_eq_true]
        intro hcomplete
        have hold := hkept.complete file hcomplete
        omega
  · exact fun file hcomplete => Nat.lt_of_lt_of_le (hkept.complete file hcomplete) hgrown.fresh

theorem offer_shrunk (s : State) (o : Offer) : Shrunk s (fileRecvCallback s o).1 := by
  cases offer_cases s o with
  | inl hnone =>
    rw [hnone.1]
    exact .refl s
  | inr hput =>
    rw [hput.1]
    refine ⟨?_, .refl⟩
    intro k ctx' hctx hopen
    by_cases hk : k = o.key
    · rw [hk, context_put_self] at hctx
      cases hctx
      cases hopen rfl
    · rw [context_put_ne _ hk] at hctx
      exact ⟨ctx', hctx, hopen, rfl⟩

/-- The last chunk of an open receive: what it leaves under its path is from now on complete. -/
theorem Kept.chunk {s : System} (hkept : Kept s) (p : Platform) (c : Chunk) (service : Service) :
    Kept ⟨(fileRecvChunkCallback p s.native c).1, service,
      s.ledger.note s.native (fileRecvChunkCallback p s.native c).1 (.chunk c)⟩ := by
  have hshrunk := chunk_shrunk p s.native c
  rw [Ledger.note]
  cases hctx : s.native.context c.key with
  | none => exact hkept.same hshrunk service
  | some ctx =>
    dsimp only
    by_cases hlast : c.length = 0 ∧ ctx.fp ≠ none
    · rw [if_pos hlast]
      apply hkept.shrunk hshrunk
      · exact fun _ _ _ _ => rfl
      · exact fun _ _ => rfl
      intro file hnow
      simp only [Bool.or_eq_true, decide_eq_true_eq] at hnow
      cases hnow with
      | inl hthen => exact .inl hthen
      | inr hpath =>
        have hthere := hshrunk.disk.removed hpath
        have hown := (hkept.own c.key ctx hctx hlast.2 ctx.path List.mem_cons_self file hthere).1
        refine .inr ⟨s.native.disk.named ctx.path file hthere, ?_⟩
        intro k ctx' hfound hopen hother
        have hk : k = c.key := congrArg Prod.fst (Option.some.inj (hother.symm.trans hown))
        have hgone : (fileRecvChunkCallback p s.native c).1.context c.key = none := by
          rw [fileRecvChunkCallback, hctx]
          dsimp only
          rw [if_pos hlast.1, finished_context (finishReceive_finished p s.native c ctx), if_pos rfl]
        rw [hk, hgone] at hfound
        cases hfound
    · rw [if_neg hlast]
      exact hkept.same hshrunk service

theorem kept_native {s : System} {event : FileReceives.Event} (p : Platform) (hkept : Kept s)
    (hfits : Fits s (.native event)) : Kept (step p s (.native event)) := by
  cases event with
  | offer o =>
    have hshrunk := offer_shrunk s.native o
    change Kept ⟨_, _, if Ledger.leavesContext o then _ else _⟩
    split_ifs with hleaves
    · apply hkept.shrunk hshrunk
      · intro key ctx hctx hopen
        have hkey : key ≠ o.key := by
          intro heq
          cases offer_cases s.native o with
          | inl hnone => cases hleaves.symm.trans hnone.2
          | inr hput =>
            rw [hput.1, heq, context_put_self] at hctx
            cases hctx
            cases hopen rfl
        exact Function.update_of_ne hkey _ _
      · exact fun _ _ => rfl
      · exact fun _ hcomplete => .inl hcomplete
    · exact hkept.same hshrunk s.service
  | control instanceId target fileNumber control io =>
    cases target with
    | error code => exact hkept.same (.refl s.native) s.service
    | ok friendNo =>
      by_cases haccept : control = 0
      · rw [haccept] at hfits ⊢
        exact hkept.opened (accept_opened p s.native instanceId friendNo fileNumber io)
          (hfits.1 rfl) s.service
      · apply hkept.shrunk
          (control_shrunk p s.native instanceId (.ok friendNo) fileNumber haccept io)
        · exact fun _ _ _ _ => rfl
        · intro file hold
          exact if_neg fun hnew => Nat.not_le_of_lt hold hnew.1
        · exact fun _ hcomplete => .inl hcomplete
  | canceled instanceId friendNumber fileNumber senderHex =>
    exact hkept.same (discardReceive_shrunk s.native _) s.service
  | chunk c => exact hkept.chunk p c s.service
  | sessionEnd instanceId => exact hkept.same (sessionEnd_shrunk s.native instanceId) s.service
  | recvDir dir =>
    have hshrunk : Shrunk s.native { s.native with fileRecvDir := dir } :=
      ⟨fun _ ctx hctx hopen => ⟨ctx, hctx, hopen, rfl⟩, .refl⟩
    exact hkept.same hshrunk s.service
  | outside disk =>
    constructor
    · intro key ctx hctx hopen name hname file hentry
      exact hkept.own key ctx hctx hopen name hname file
        (hfits.2 key ctx hctx hopen name hname file hentry)
    · exact fun file hcomplete => Nat.lt_of_lt_of_le (hkept.complete file hcomplete) hfits.1

theorem kept_step {s : System} {event : Event} (p : Platform) (hkept : Kept s)
    (hfits : Fits s event) : Kept (step p s event) := by
  cases event with
  | native event => exact kept_native p hkept hfits
  | fileRequest => exact hkept.same (.refl s.native) _
  | recorded => exact hkept.same (.refl s.native) _
  | finished => exact hkept.same (.refl s.native) _
  | fileControl => exact hkept.same (.refl s.native) _
  | deletion n =>
    rw [step]
    split
    · exact hkept
    · exact hkept.same (.of_disk (.unlink _)) _

/-! ## What an event removes -/

theorem unlink_changed {disk : Disk Bytes UInt8} {path name : Bytes} {file : ℕ}
    (hentry : disk.entry name = some file) (h : (disk.unlink path).entry name ≠ some file) :
    name = path := by
  by_contra hname
  rw [Disk.entry_unlink_ne hname] at h
  exact h hentry

/-- A discarded receive takes what is under its names. -/
theorem discardReceive_changed {s : State} {key : Key} {name : Bytes} {file : ℕ}
    (hentry : s.disk.entry name = some file)
    (h : (discardReceive s key).1.disk.entry name ≠ some file) :
    ∃ ctx, s.context key = some ctx ∧ name ∈ names ctx := by
  rw [discardReceive] at h
  cases hctx : s.context key with
  | none =>
    rw [hctx] at h
    cases h hentry
  | some ctx =>
    rw [hctx] at h
    refine ⟨ctx, rfl, ?_⟩
    change ((s.disk.unlink ctx.path).unlink (receiveMarkerPath ctx.path)).entry name ≠ _ at h
    by_cases hpath : name = ctx.path
    · rw [hpath]
      exact List.mem_cons_self
    · rw [← Disk.entry_unlink_ne hpath] at hentry
      rw [unlink_changed hentry h]
      exact List.mem_cons_of_mem _ List.mem_cons_self

theorem Kept.discarded {s : System} {key : Key} {name : Bytes} {file : ℕ} (hkept : Kept s)
    (hfits : cancelFits s.native key = true) (hentry : s.native.disk.entry name = some file)
    (h : (discardReceive s.native key).1.disk.entry name ≠ some file) :
    s.ledger.creator file = some (s.ledger.current key) ∧ s.ledger.complete file = false := by
  obtain ⟨ctx, hctx, hname⟩ := discardReceive_changed hentry h
  cases hfp : ctx.fp with
  | some fp =>
    refine hkept.own key ctx hctx ?_ name hname file hentry
    rw [hfp]
    exact Option.some_ne_none fp
  | none =>
    simp only [cancelFits, hctx, hfp, Option.isSome_none, Bool.false_or, List.all_eq_true,
      Option.isNone_iff_eq_none] at hfits
    cases (hfits name hname).symm.trans hentry

/-- A chunk whose write fails has its open receive discarded. -/
theorem writeFails_discards {p : Platform} {s : State} {c : Chunk} (h : writeFails p s c = true) :
    cancelFits s c.key = true ∧ ∃ fp,
      (fileRecvChunkCallback p s c).1 = (discardReceive (filled p s c fp) c.key).1 := by
  rw [writeFails] at h
  rw [cancelFits, fileRecvChunkCallback]
  cases hctx : s.context c.key with
  | none =>
    rw [hctx] at h
    cases h
  | some ctx =>
    simp only [hctx, Bool.and_eq_true, bne_iff_ne, ne_eq] at h
    obtain ⟨⟨⟨hsome, hrange⟩, hopen⟩, hshort⟩ := h
    obtain ⟨last, hlast⟩ := Option.isSome_iff_exists.mp hrange
    obtain ⟨fp, hfp⟩ := Option.isSome_iff_exists.mp hopen
    dsimp only
    rw [if_neg hsome, hlast, hfp]
    refine ⟨rfl, fp, ?_⟩
    dsimp only
    rw [writeChunk]
    dsimp only
    have hnot : ¬ (c.written p = c.data.length ∧ c.io.flushes = true) := by
      simp only [Bool.not_eq_true', Bool.and_eq_false_iff, beq_eq_false_iff_ne] at hshort
      intro hfull
      cases hshort with
      | inl hwritten => exact hwritten hfull.1
      | inr hflushed => cases hflushed.symm.trans hfull.2
    rw [if_neg hnot, failReceive_state]
    rfl

theorem proper_step {s : System} {event : Event} (p : Platform) (hkept : Kept s)
    (hfits : Fits s event) : Proper p s event := by
  intro transfer hremover name file hentry hchanged
  cases event with
  | native event =>
    obtain ⟨key, hkey, rfl⟩ := Option.map_eq_some_iff.mp hremover
    cases event with
    | canceled instanceId friendNumber fileNumber senderHex =>
      cases hkey
      exact hkept.discarded hfits hentry hchanged
    | control instanceId target fileNumber control io =>
      cases target with
      | error code => cases hkey
      | ok friendNo =>
        rw [discards] at hkey
        split_ifs at hkey with hcancel
        cases hkey
        obtain ⟨rfl, hcontrolled⟩ := hcancel
        refine hkept.discarded (hfits.2 rfl hcontrolled) hentry ?_
        change (fileControl p s.native instanceId (.ok friendNo) fileNumber 2 io).1.disk.entry name ≠ _
          at hchanged
        rw [fileControl, if_neg (by decide), if_neg (by decide), if_pos rfl, if_pos hcontrolled] at hchanged
        exact hchanged
    | chunk c =>
      rw [discards] at hkey
      split_ifs at hkey with hfails
      cases hkey
      obtain ⟨hcancel, fp, hstate⟩ := writeFails_discards hfails
      change (fileRecvChunkCallback p s.native c).1.disk.entry name ≠ _ at hchanged
      rw [hstate] at hchanged
      -- the write leaves the names alone
      have hfilled : Kept { s with native := filled p s.native c fp } :=
        hkept.same (.of_disk (filled_grown p s.native c fp)) _
      exact hfilled.discarded hcancel hentry hchanged
    | _ => cases hkey
  | deletion n =>
    rw [remover] at hremover
    obtain ⟨⟨made, path⟩, hpending, rfl⟩ := Option.map_eq_some_iff.mp hremover
    rw [step, hpending] at hchanged
    have hname : name = path := unlink_changed hentry hchanged
    rw [hname] at hentry
    cases hfits made path hpending with
    | inl hnone => cases hnone.symm.trans hentry
    | inr hown =>
      rw [ownPath] at hown
      cases hctx : s.native.context made.1 with
      | none =>
        rw [hctx] at hown
        cases hown
      | some ctx =>
        simp only [hctx, Bool.and_eq_true, decide_eq_true_eq, Option.isSome_iff_ne_none] at hown
        obtain ⟨⟨hgeneration, hopen⟩, rfl⟩ := hown
        have hkeep := hkept.own made.1 ctx hctx hopen ctx.path List.mem_cons_self file hentry
        rw [Ledger.current, hgeneration] at hkeep
        exact hkeep
  | _ => cases hremover

/-! ## Runs -/

theorem Kept.allProper {p : Platform} : ∀ {events : List Event} {s : System}, Kept s →
    AllFit p s events → AllProper p s events
  | [], _, _, _ => trivial
  | _ :: _, _, hkept, hfits =>
    ⟨proper_step p hkept hfits.1, (kept_step p hkept hfits.1).allProper hfits.2⟩

/-- As long as names in use are not opened again, nothing is cancelled under a name it did not open
    and no late deletion runs, what is removed for a receive are files its accept made. -/
theorem cancels_remove_own_files (p : Platform) (s : System) (hstart : Start s)
    (events : List Event) (h : AllFit p s events) : AllProper p s events :=
  (kept_start hstart).allProper h

def noReceives : System :=
  ⟨⟨[47], ∅, emptyDisk⟩, ⟨none, ∅, ∅, ∅, ∅, [], []⟩, ⟨fun _ => 0, fun _ => none, fun _ => false⟩⟩

/-- The note is offered and accepted, and one chunk is written. -/
def halfReceived : List Event :=
  [.native (.offer note), .native (.control 1 (.ok 0) 3 0 accepted), .native (.chunk body)]

def noteCanceled : Event := .native (.canceled 1 0 3 [97])

theorem half_received_note_removed :
    AllProper linux noReceives (halfReceived ++ [noteCanceled]) ∧
      ((halfReceived.foldl (step linux) noReceives).native.disk.entry (note.full [47])).isSome = true ∧
      ((halfReceived ++ [noteCanceled]).foldl (step linux) noReceives).native.disk.entry
        (note.full [47]) = none := by
  have hstart : Start noReceives := ⟨rfl, fun _ => rfl, fun _ => rfl⟩
  refine ⟨cancels_remove_own_files linux noReceives hstart _ ?_, by decide, by decide⟩
  refine ⟨trivial, ⟨fun _ => by decide, fun h => ?_⟩, trivial, ?_, trivial⟩
  · cases h
  · change cancelFits _ _ = true
    decide

/-- The same note is offered again after it came in full, and taken back. -/
def offeredAgain : List Event :=
  halfReceived ++ [.native (.chunk final), .native (.offer note)]

/-- The file that had come in full is removed. -/
theorem received_note_removed :
    ¬ ∀ (p : Platform) (s : System), Start s → ∀ events, AllProper p s events := by
  intro h
  have hstart : Start noReceives := ⟨rfl, fun _ => rfl, fun _ => rfl⟩
  have hproper := (h linux noReceives hstart (offeredAgain ++ [noteCanceled])).2.2.2.2.2.1
  have hremoved := hproper _ rfl (note.full [47]) 1 (by decide) (by decide)
  revert hremoved
  decide

end Tim2Tox.FileCancels
