import Tim2Tox.FileReceives

set_option autoImplicit false

/-!
# Received chunks

A chunk is written inside the announced size or not at all, and what failed once is never reported
as done.
-/
namespace Tim2Tox.ReceivedChunks
open FileDisks StorageNames KeyedTables FileReceives

/-! ## Ranges -/

theorem checkedEndPosition_eq_some {position written last : UInt64} :
    checkedEndPosition position written = some last ↔
      position.toNat + written.toNat < 2 ^ 64 ∧ last.toNat = position.toNat + written.toNat := by
  have hposition := position.toNat_lt
  have hroom : (0xFFFFFFFFFFFFFFFF - position).toNat = 2 ^ 64 - 1 - position.toNat := by
    rw [UInt64.toNat_sub_of_le]
    · rfl
    · rw [UInt64.le_iff_toNat_le]
      change position.toNat ≤ 2 ^ 64 - 1
      omega
  rw [checkedEndPosition]
  by_cases hover : written > 0xFFFFFFFFFFFFFFFF - position
  · rw [if_pos hover]
    have hlarge := UInt64.lt_iff_toNat_lt.mp hover
    rw [hroom] at hlarge
    constructor
    · intro h
      cases h
    · intro h
      omega
  · rw [if_neg hover]
    have hsmall := mt UInt64.lt_iff_toNat_lt.mpr hover
    rw [hroom] at hsmall
    have hsum : (position + written).toNat = position.toNat + written.toNat := by
      rw [UInt64.toNat_add]
      apply Nat.mod_eq_of_lt
      omega
    constructor
    · intro h
      obtain rfl := Option.some.inj h
      exact ⟨by omega, hsum⟩
    · intro h
      rw [Option.some_inj, ← UInt64.toNat_inj, hsum]
      exact h.2.symm

theorem checkedWriteRange_eq_some {position length expectedSize last : UInt64} :
    checkedWriteRange position length expectedSize = some last ↔
      position.toNat + length.toNat ≤ expectedSize.toNat ∧
        last.toNat = position.toNat + length.toNat := by
  have hsize := expectedSize.toNat_lt
  rw [checkedWriteRange, Option.filter_eq_some_iff, checkedEndPosition_eq_some, decide_eq_true_iff,
    UInt64.le_iff_toNat_le]
  omega

/-! ## Contexts -/

theorem context_put_self (s : State) (key : Key) (ctx : RecvCtx) :
    (s.put key ctx).context key = some ctx := AList.lookup_insert _

theorem context_put_ne {s : State} {key k : Key} (ctx : RecvCtx) (h : k ≠ key) :
    (s.put key ctx).context k = s.context k := AList.lookup_insert_ne h

theorem context_forget_self (s : State) (key : Key) : (s.forget key).context key = none :=
  AList.lookup_erase _ _

theorem context_forget_ne {s : State} {key k : Key} (h : k ≠ key) :
    (s.forget key).context k = s.context k := AList.lookup_erase_ne h

theorem discardReceive_context (s : State) (key k : Key) :
    (discardReceive s key).1.context k = if k = key then none else s.context k := by
  rw [discardReceive]
  cases hctx : s.context key with
  | none =>
    by_cases h : k = key
    · rw [if_pos h, h]
      exact hctx
    · rw [if_neg h]
  | some ctx =>
    change (s.forget key).context k = _
    by_cases h : k = key
    · rw [if_pos h, h, context_forget_self]
    · rw [if_neg h, context_forget_ne h]

theorem eraseRecvContexts_context (s : State) (instanceId : ℤ) (k : Key) :
    (eraseRecvContextsForInstance s instanceId).context k = none ∨
      (eraseRecvContextsForInstance s instanceId).context k = s.context k := by
  change (eraseAll _ s.recvFiles).lookup k = none ∨ (eraseAll _ s.recvFiles).lookup k = _
  rw [lookup_eraseAll]
  by_cases h : k ∈ (s.recvFiles.entries.filter fun entry => entry.1.1 == instanceId).map Sigma.fst
  · rw [if_pos h]
    exact .inl rfl
  · rw [if_neg h]
    exact .inr rfl

/-- What a step may do to the context of one transfer. -/
inductive Moved (key : Key) (before after : Option RecvCtx) (effects : List Effect) : Prop
  | gone (h : after = none)
  | kept (ctx ctx' : RecvCtx) (hbefore : before = some ctx) (hafter : after = some ctx')
      (hsize : ctx'.size = ctx.size) (hpath : ctx'.path = ctx.path)
      (hfull : ∀ file position length written flushed,
        .write key file position length written flushed ∈ effects → written = length ∧ flushed = true)
      (hreported : ∀ instanceId senderHex fileNumber reason,
        .enqueue key (.fileRecvFailed instanceId senderHex fileNumber reason) ∉ effects)
      (hnoted : ctx'.ioFailed = false → ctx.ioFailed = false ∧ .markIoFailed key ∉ effects)

/-- The steps that have nothing to do with the transfer. -/
theorem Moved.aside {key : Key} {before after : Option RecvCtx} {effects : List Effect}
    (h : after = before) (hwrite : ∀ file position length written flushed,
      .write key file position length written flushed ∉ effects)
    (hreported : ∀ instanceId senderHex fileNumber reason,
      .enqueue key (.fileRecvFailed instanceId senderHex fileNumber reason) ∉ effects)
    (hnoted : .markIoFailed key ∉ effects) : Moved key before after effects := by
  subst h
  cases after with
  | none => exact .gone rfl
  | some ctx =>
    apply Moved.kept ctx ctx rfl rfl rfl rfl
    · intro file position length written flushed hmem
      cases hwrite _ _ _ _ _ hmem
    · exact hreported
    · intro h
      exact ⟨h, hnoted⟩

/-- The contexts are the same but for the files they have open. -/
def Refiled (s s' : State) : Prop :=
  ∀ k, s'.context k = s.context k ∨
    ∃ ctx fp, s.context k = some ctx ∧ s'.context k = some { ctx with fp := fp }

theorem Refiled.same {s s' : State} (h : ∀ k, s'.context k = s.context k) : Refiled s s' :=
  fun k => .inl (h k)

theorem Refiled.put {s s' : State} {key : Key} {ctx : RecvCtx} {fp : Option ℕ}
    (hctx : s.context key = some ctx) (h : ∀ k, s'.context k = s.context k) :
    Refiled s (s'.put key { ctx with fp := fp }) := by
  intro k
  by_cases hkey : k = key
  · right
    subst hkey
    exact ⟨ctx, fp, hctx, context_put_self s' k _⟩
  · left
    rw [context_put_ne _ hkey]
    exact h k

theorem Refiled.trans {s s' s'' : State} (h : Refiled s s') (h' : Refiled s' s'') :
    Refiled s s'' := by
  intro k
  cases h k with
  | inl hsame =>
    rw [← hsame]
    exact h' k
  | inr hfiled =>
    right
    obtain ⟨ctx, fp, hbefore, hafter⟩ := hfiled
    cases h' k with
    | inl hsame => exact ⟨ctx, fp, hbefore, hsame.trans hafter⟩
    | inr hagain =>
      obtain ⟨ctx', fp', hbefore', hafter'⟩ := hagain
      obtain rfl := Option.some.inj (hafter.symm.trans hbefore')
      exact ⟨ctx, fp', hbefore, hafter'⟩

theorem Refiled.ite {α : Type} {s : State} {c : Prop} [Decidable c] {x y : State × α}
    (hx : Refiled s x.1) (hy : Refiled s y.1) : Refiled s (if c then x else y).1 := by
  split_ifs
  · exact hx
  · exact hy

theorem openReceive_refiled (p : Platform) (s : State) (key : Key) (io : ControlIo) :
    Refiled s (openReceive p s key io).1 := by
  unfold openReceive
  cases hctx : s.context key with
  | none => exact .same fun _ => rfl
  | some ctx =>
    -- the guards one after the other
    repeat
      apply Refiled.ite
      · exact .same fun _ => rfl
    exact .put hctx fun _ => rfl

theorem closeOpened_refiled (s : State) (key : Key) (opened : ℕ × Bytes) :
    Refiled s (closeOpened s key opened) := by
  unfold closeOpened
  cases hctx : s.context key with
  | none => exact .same fun _ => rfl
  | some ctx =>
    dsimp only
    split_ifs
    · exact .put hctx fun _ => rfl
    · exact .put hctx fun _ => rfl
    · exact .same fun _ => rfl

theorem Refiled.moved {s s' : State} (h : Refiled s s') (key : Key) :
    Moved key (s.context key) (s'.context key) [] := by
  cases h key with
  | inl hsame => apply Moved.aside hsame <;> intros <;> exact List.not_mem_nil
  | inr hfiled =>
    obtain ⟨ctx, fp, hbefore, hafter⟩ := hfiled
    apply Moved.kept ctx { ctx with fp := fp } hbefore hafter rfl rfl
    · intro file position length written flushed hmem
      cases hmem
    · intros
      exact List.not_mem_nil
    · intro h
      exact ⟨h, List.not_mem_nil⟩

theorem fileControl_moved (p : Platform) (s : State) (instanceId : ℤ) (target : Except ℤ UInt32)
    (fileNumber : UInt32) (control : ℤ) (io : ControlIo) (key : Key) :
    Moved key (s.context key)
      ((fileControl p s instanceId target fileNumber control io).1.context key) [] := by
  have hsame : Refiled s s := .same fun _ => rfl
  cases target with
  | error code => exact hsame.moved key
  | ok friendNo =>
    unfold fileControl
    dsimp only
    by_cases hresume : control = 0
    · rw [if_pos hresume]
      have hopen := openReceive_refiled p s (fileKey instanceId friendNo fileNumber) io
      generalize openReceive p s (fileKey instanceId friendNo fileNumber) io = out at hopen
      obtain ⟨s', code | opened⟩ := out
      · exact hopen.moved key
      · dsimp only
        split_ifs
        · exact hopen.moved key
        · cases opened with
          | none => exact hopen.moved key
          | some opened => exact (hopen.trans (closeOpened_refiled s' _ opened)).moved key
    · rw [if_neg hresume]
      by_cases hpause : control = 1
      · rw [if_pos hpause]
        exact hsame.moved key
      · rw [if_neg hpause]
        split_ifs
        · dsimp only
          rw [discardReceive_context]
          split_ifs
          · exact .gone rfl
          · exact hsame.moved key
        · exact hsame.moved key
        · exact hsame.moved key

/-! ## Chunks -/

theorem chunk_length_toNat (c : Chunk) : c.length.toNat = c.data.length := by
  rw [Chunk.length, UInt64.toNat_ofNat']
  exact Nat.mod_eq_of_lt c.bounded

theorem written_le (p : Platform) (c : Chunk) : c.written p ≤ c.data.length := by
  rw [Chunk.written]
  split_ifs
  · exact c.io.written_le
  · exact Nat.zero_le _

theorem landed_length_le (p : Platform) (c : Chunk) : (c.landed p).length ≤ c.data.length := by
  rw [Chunk.landed]
  split_ifs
  · exact List.length_take_le' _ _
  · exact Nat.zero_le _

/-- A write that is reported in full and flushed has landed in full. -/
theorem landed_of_full {p : Platform} {c : Chunk} (hempty : c.data.length ≠ 0)
    (h : c.written p = c.data.length) (hflushed : c.io.flushes = true) : c.landed p = c.data := by
  have hlanded := c.io.flushed hflushed
  rw [Chunk.written] at h
  rw [Chunk.landed]
  split_ifs at h with hseeks
  · rw [if_pos hseeks, hlanded, h, List.take_length]
  · exact absurd h.symm hempty

theorem failReceive_context (s : State) (key : Key) (fileNumber : UInt32) (reason : Reason)
    (k : Key) : (failReceive s key fileNumber reason).1.context k =
      if k = key then none else s.context k := by
  rw [← discardReceive_context, failReceive]
  cases discardReceive s key with
  | mk s' found =>
    cases found with
    | none => rfl
    | some ctx => rfl

theorem failReceive_effects {s : State} {key : Key} {fileNumber : UInt32} {reason : Reason}
    {effect : Effect} (h : effect ∈ (failReceive s key fileNumber reason).2) :
    ∃ ctx : RecvCtx, effect =
      .enqueue key (.fileRecvFailed key.1 ctx.senderHex fileNumber reason) := by
  rw [failReceive] at h
  generalize discardReceive s key = out at h
  obtain ⟨s', found⟩ := out
  cases found with
  | none => cases h
  | some ctx => exact ⟨ctx, List.mem_singleton.mp h⟩

theorem failReceive_content (s : State) (key : Key) (fileNumber : UInt32) (reason : Reason) :
    (failReceive s key fileNumber reason).1.disk.content = s.disk.content := by
  rw [failReceive, discardReceive]
  cases s.context key with
  | none => rfl
  | some ctx => rfl

/-- The state after the write of a chunk. -/
def filled (p : Platform) (s : State) (c : Chunk) (fp : ℕ) : State :=
  { s with disk := s.disk.fill fp (overwrite 0 (s.disk.content fp) c.position.toNat (c.landed p)) }

/-- The write of a chunk. -/
def writeOf (p : Platform) (c : Chunk) (fp : ℕ) : Effect :=
  .write c.key fp c.position c.data.length (c.written p) c.io.flushes

/-- What the callback may do with a chunk. -/
inductive Answered (p : Platform) (s : State) (c : Chunk) : State × List Effect → Prop
  | missing (h : s.context c.key = none) : Answered p s c (s, [])
  | last (ctx : RecvCtx) (h : s.context c.key = some ctx) : Answered p s c (finishReceive p s c ctx)
  | beyond (ctx : RecvCtx) (h : s.context c.key = some ctx) :
      Answered p s c (s.put c.key { ctx with ioFailed := true }, [.markIoFailed c.key])
  | unopened (h : s.context c.key ≠ none) : Answered p s c (s, [])
  | written (ctx : RecvCtx) (fp : ℕ) (receivedEnd : UInt64) (h : s.context c.key = some ctx)
      (hsome : c.data.length ≠ 0) (hin : c.position.toNat + c.data.length ≤ ctx.size.toNat)
      (hfull : c.written p = c.data.length) (hflushed : c.io.flushes = true) :
      Answered p s c ((filled p s c fp).put c.key { ctx with received := receivedEnd },
        [writeOf p c fp, .enqueue c.key
          (.progressRecv c.instanceId ctx.senderHex receivedEnd ctx.size ctx.path)])
  | failed (ctx : RecvCtx) (fp : ℕ) (reason : Reason) (h : s.context c.key = some ctx)
      (hin : c.position.toNat + c.data.length ≤ ctx.size.toNat)
      (hshort : ¬ (c.written p = c.data.length ∧ c.io.flushes = true)) :
      Answered p s c ((failReceive (filled p s c fp) c.key c.fileNumber reason).1,
        writeOf p c fp :: (failReceive (filled p s c fp) c.key c.fileNumber reason).2)

theorem chunk_answered (p : Platform) (s : State) (c : Chunk) :
    Answered p s c (fileRecvChunkCallback p s c) := by
  rw [fileRecvChunkCallback]
  cases hctx : s.context c.key with
  | none => exact .missing hctx
  | some ctx =>
    dsimp only
    by_cases hlast : c.length = 0
    · rw [if_pos hlast]
      exact .last ctx hctx
    · rw [if_neg hlast]
      have hsome : c.data.length ≠ 0 := by
        intro h
        apply hlast
        rw [← UInt64.toNat_inj, chunk_length_toNat, h]
        rfl
      cases hrange : checkedWriteRange c.position c.length ctx.size with
      | none => exact .beyond ctx hctx
      | some last =>
        have hin := (checkedWriteRange_eq_some.mp hrange).1
        rw [chunk_length_toNat] at hin
        dsimp only
        cases hfp : ctx.fp with
        | none =>
          apply Answered.unopened
          rw [hctx]
          exact Option.some_ne_none ctx
        | some fp =>
          dsimp only
          rw [writeChunk]
          dsimp only
          by_cases hfull : c.written p = c.data.length ∧ c.io.flushes = true
          · rw [if_pos hfull]
            cases hend : checkedEndPosition c.position (UInt64.ofNat (c.written p)) with
            | some receivedEnd => exact .written ctx fp receivedEnd hctx hsome hin hfull.1 hfull.2
            | none =>
              -- the range was checked before the write
              have hsize := ctx.size.toNat_lt
              have hwritten : (UInt64.ofNat (c.written p)).toNat = c.data.length := by
                rw [hfull.1]
                exact chunk_length_toNat c
              have hreached : checkedEndPosition c.position (UInt64.ofNat (c.written p)) = some last := by
                apply checkedEndPosition_eq_some.mpr
                have hlast := (checkedWriteRange_eq_some.mp hrange).2
                rw [chunk_length_toNat] at hlast
                rw [hwritten]
                omega
              rw [hend] at hreached
              cases hreached
          · rw [if_neg hfull]
            exact .failed ctx fp _ hctx hin hfull

/-- The end of a transfer: a failure, or a file of the announced size that never failed. -/
inductive Finished (s : State) (c : Chunk) (ctx : RecvCtx) : State × List Effect → Prop
  | failed (reason : Reason) : Finished s c ctx ((s.forget c.key).removeReceived ctx.path,
      [.enqueue c.key (.fileRecvFailed c.instanceId ctx.senderHex c.fileNumber reason)])
  | done (hnoted : ctx.ioFailed = false)
      (hexact : s.disk.fileSize ctx.path = some ctx.size.toNat) :
      Finished s c ctx (s.forget c.key,
        [.enqueue c.key (.progressRecv c.instanceId ctx.senderHex ctx.size ctx.size ctx.path),
          .enqueue c.key (.fileDone c.instanceId ctx.senderHex ctx.kind ctx.path)])
  | empty : Finished s c ctx (s.forget c.key, [])

theorem finishReceive_finished (p : Platform) (s : State) (c : Chunk) (ctx : RecvCtx) :
    Finished s c ctx (finishReceive p s c ctx) := by
  rw [finishReceive]
  dsimp only
  generalize (!(ctx.fp.isSome && !c.io.flushes) && !(ctx.fp.isSome && !c.io.closes)) = closeOk
  by_cases hfails :
      (ctx.ioFailed || !closeOk || !hasExactFileSize (s.forget c.key) ctx.path ctx.size c.io.stats) = true
  · rw [if_pos hfails]
    exact .failed _
  · rw [if_neg hfails]
    simp only [Bool.or_eq_true, Bool.not_eq_true', not_or, Bool.not_eq_true, Bool.not_eq_false,
      hasExactFileSize, Bool.and_eq_true, beq_iff_eq] at hfails
    split_ifs
    · exact .done hfails.1.1 hfails.2.2
    · exact .empty

theorem finished_context {s : State} {c : Chunk} {ctx : RecvCtx} {out : State × List Effect}
    (h : Finished s c ctx out) (k : Key) :
    out.1.context k = if k = c.key then none else s.context k := by
  have hforget : (s.forget c.key).context k = if k = c.key then none else s.context k := by
    by_cases hk : k = c.key
    · rw [if_pos hk, hk, context_forget_self]
    · rw [if_neg hk, context_forget_ne hk]
  cases h with
  | failed reason => exact hforget
  | done hnoted hexact => exact hforget
  | empty => exact hforget

def effectKey : Effect → Key
  | .write key _ _ _ _ _ => key
  | .markIoFailed key => key
  | .enqueue key _ => key

theorem failReceive_keys {s : State} {key : Key} {fileNumber : UInt32} {reason : Reason} :
    ∀ effect ∈ (failReceive s key fileNumber reason).2, effectKey effect = key := by
  intro effect h
  obtain ⟨ctx, rfl⟩ := failReceive_effects h
  rfl

/-- The callback does nothing to other transfers. -/
theorem answered_elsewhere {p : Platform} {s : State} {c : Chunk} {out : State × List Effect}
    (h : Answered p s c out) :
    (∀ k, k ≠ c.key → out.1.context k = s.context k) ∧ ∀ effect ∈ out.2, effectKey effect = c.key := by
  cases h with
  | missing h => exact ⟨fun k hk => rfl, by simp⟩
  | last ctx h =>
    have hfinished := finishReceive_finished p s c ctx
    generalize finishReceive p s c ctx = out at hfinished
    constructor
    · intro k hk
      rw [finished_context hfinished, if_neg hk]
    · cases hfinished with
      | failed reason => simp [effectKey]
      | done hnoted hexact => simp [effectKey]
      | empty => simp
  | beyond ctx h => exact ⟨fun k hk => context_put_ne _ hk, by simp [effectKey]⟩
  | unopened h => exact ⟨fun k hk => rfl, by simp⟩
  | written ctx fp receivedEnd h hsome hin hfull hflushed =>
    exact ⟨fun k hk => context_put_ne _ hk, by simp [effectKey, writeOf]⟩
  | failed ctx fp reason h hin hshort =>
    constructor
    · intro k hk
      rw [failReceive_context, if_neg hk]
      rfl
    · intro effect hmem
      cases List.mem_cons.mp hmem with
      | inl heq =>
        rw [heq]
        rfl
      | inr hrest => exact failReceive_keys effect hrest

theorem answered_moved {p : Platform} {s : State} {c : Chunk} {out : State × List Effect}
    (h : Answered p s c out) (key : Key) : Moved key (s.context key) (out.1.context key) out.2 := by
  by_cases hkey : key = c.key
  · subst hkey
    cases h with
    | missing h => exact .gone h
    | last ctx h =>
      apply Moved.gone
      rw [finished_context (finishReceive_finished p s c ctx), if_pos rfl]
    | beyond ctx h =>
      apply Moved.kept ctx { ctx with ioFailed := true } h (context_put_self _ _ _) rfl rfl
      · intro file position length written flushed hmem
        simp at hmem
      · simp
      · intro hfalse
        cases hfalse
    | unopened h => apply Moved.aside rfl <;> simp
    | written ctx fp receivedEnd h hsome hin hfull hflushed =>
      apply Moved.kept ctx { ctx with received := receivedEnd } h (context_put_self _ _ _) rfl rfl
      · intro file position length written flushed hmem
        simp only [writeOf, List.mem_cons, List.not_mem_nil, or_false, reduceCtorEq, or_false] at hmem
        cases hmem
        exact ⟨hfull, hflushed⟩
      · simp [writeOf]
      · intro hnoted
        exact ⟨hnoted, by simp [writeOf]⟩
    | failed ctx fp reason h hin hshort =>
      apply Moved.gone
      rw [failReceive_context, if_pos rfl]
  · obtain ⟨hcontext, heffects⟩ := answered_elsewhere h
    apply Moved.aside (hcontext key hkey)
    · intro file position length written flushed hmem
      exact hkey (heffects _ hmem)
    · intro instanceId senderHex fileNumber reason hmem
      exact hkey (heffects _ hmem)
    · intro hmem
      exact hkey (heffects _ hmem)

/-! ## Runs -/

/-- The offer leaves a context; an avatar that is taken back leaves none. -/
def leavesContext (o : Offer) : Bool :=
  !o.isAvatarDeletion && (o.kind != avatarKind || o.fileId.isSome)

/-- No event is another offer that takes the key over. -/
def NoOffer (key : Key) (events : List Event) : Prop :=
  ∀ o, .offer o ∈ events → o.key = key → leavesContext o = false

theorem offer_cases (s : State) (o : Offer) :
    (fileRecvCallback s o).1 = s ∧ leavesContext o = false ∨
      (fileRecvCallback s o).1 =
        s.put o.key ⟨none, o.fileSize, 0, o.full s.fileRecvDir, o.senderHex, o.kind, false⟩ ∧
        leavesContext o = true := by
  rw [fileRecvCallback, leavesContext]
  cases hdeletion : o.isAvatarDeletion with
  | true =>
    left
    rw [if_pos rfl]
    refine ⟨?_, rfl⟩
    split_ifs
    · cases o.fileId with
      | none => rfl
      | some fileId => rfl
    · rfl
  | false =>
    by_cases havatar : o.kind = avatarKind
    · cases hid : o.fileId with
      | none =>
        left
        rw [if_pos havatar, havatar]
        exact ⟨rfl, rfl⟩
      | some fileId =>
        right
        rw [if_pos havatar]
        exact ⟨rfl, by simp⟩
    · right
      rw [if_neg havatar]
      exact ⟨rfl, by simp [havatar]⟩

theorem offer_effects {s : State} {o : Offer} {effect : Effect}
    (h : effect ∈ (fileRecvCallback s o).2) :
    (∃ instanceId senderHex fileNumber fileSize fileId,
        effect = .enqueue o.key (.avatarRequest instanceId senderHex fileNumber fileSize fileId)) ∨
      ∃ instanceId senderHex fileNumber fileSize kind name,
        effect = .enqueue o.key (.fileRequest instanceId senderHex fileNumber fileSize kind name) := by
  rw [fileRecvCallback] at h
  by_cases havatar : o.kind = avatarKind
  · rw [if_pos havatar] at h
    cases hid : o.fileId with
    | none =>
      rw [hid] at h
      cases h
    | some fileId =>
      rw [hid] at h
      exact .inl ⟨_, _, _, _, _, List.mem_singleton.mp h⟩
  · rw [if_neg havatar] at h
    exact .inr ⟨_, _, _, _, _, _, List.mem_singleton.mp h⟩

theorem offer_moved {s : State} {o : Offer} {key : Key} (h : o.key = key → leavesContext o = false) :
    Moved key (s.context key) ((fileRecvCallback s o).1.context key) (fileRecvCallback s o).2 := by
  have hsame : (fileRecvCallback s o).1.context key = s.context key := by
    cases offer_cases s o with
    | inl hnone => rw [hnone.1]
    | inr hput =>
      have hkey : o.key ≠ key := by
        intro heq
        cases (h heq).symm.trans hput.2
      rw [hput.1]
      exact context_put_ne _ (Ne.symm hkey)
  apply Moved.aside hsame
  · intro file position length written flushed hmem
    have heffect := offer_effects hmem
    simp at heffect
  · intro instanceId senderHex fileNumber reason hmem
    have heffect := offer_effects hmem
    simp at heffect
  · intro hmem
    have heffect := offer_effects hmem
    simp at heffect

theorem step_moved {p : Platform} {s : State} {event : Event} {key : Key}
    (h : ∀ o, event = .offer o → o.key = key → leavesContext o = false) :
    Moved key (s.context key) ((step p s event).1.context key) (step p s event).2 := by
  have hsame : Refiled s s := .same fun _ => rfl
  cases event with
  | offer o => exact offer_moved (h o rfl)
  | control instanceId target fileNumber control io =>
    exact fileControl_moved p s instanceId target fileNumber control io key
  | canceled instanceId friendNumber fileNumber senderHex =>
    by_cases hkey : key = fileKey instanceId friendNumber fileNumber
    · apply Moved.gone
      change (discardReceive s _).1.context key = none
      rw [discardReceive_context, if_pos hkey]
    · apply Moved.aside
      · change (discardReceive s _).1.context key = _
        rw [discardReceive_context, if_neg hkey]
      · simp [step]
      · simp [step]
      · simp [step]
  | chunk c => exact answered_moved (chunk_answered p s c) key
  | sessionEnd instanceId =>
    cases eraseRecvContexts_context s instanceId key with
    | inl hgone => exact .gone hgone
    | inr hkept => apply Moved.aside hkept <;> intros <;> exact List.not_mem_nil
  | recvDir dir => exact hsame.moved key
  | outside disk => exact hsame.moved key

/-- What holds of a transfer that still has its context. -/
def Follows (o : Offer) (path : Bytes) (s : State) (effects : List Effect) : Prop :=
  ∀ ctx, s.context o.key = some ctx → ctx.size = o.fileSize ∧ ctx.path = path ∧
    (∀ file position length written flushed,
      .write o.key file position length written flushed ∈ effects → written = length ∧ flushed = true) ∧
    (∀ instanceId senderHex fileNumber reason,
      .enqueue o.key (.fileRecvFailed instanceId senderHex fileNumber reason) ∉ effects) ∧
    (ctx.ioFailed = false → .markIoFailed o.key ∉ effects)

theorem Follows.step {o : Offer} {path : Bytes} {p : Platform} {s : State} {effects : List Effect}
    {event : Event} (h : Follows o path s effects)
    (hnew : ∀ o', event = .offer o' → o'.key = o.key → leavesContext o' = false) :
    Follows o path (FileReceives.step p s event).1 (effects ++ (FileReceives.step p s event).2) := by
  intro ctx' hctx'
  cases step_moved (p := p) (s := s) hnew with
  | gone hgone =>
    rw [hgone] at hctx'
    cases hctx'
  | kept ctx ctx'' hbefore hafter hsize hpath hfull hreported hnoted =>
    obtain rfl := Option.some.inj (hafter.symm.trans hctx')
    obtain ⟨hsize', hpath', hfull', hreported', hnoted'⟩ := h ctx hbefore
    refine ⟨hsize.trans hsize', hpath.trans hpath', ?_, ?_, ?_⟩
    · intro file position length written flushed hmem
      cases List.mem_append.mp hmem with
      | inl hearlier => exact hfull' _ _ _ _ _ hearlier
      | inr hnow => exact hfull _ _ _ _ _ hnow
    · intro instanceId senderHex fileNumber reason hmem
      cases List.mem_append.mp hmem with
      | inl hearlier => exact hreported' _ _ _ _ hearlier
      | inr hnow => exact hreported _ _ _ _ hnow
    · intro hfalse hmem
      cases List.mem_append.mp hmem with
      | inl hearlier => exact hnoted' (hnoted hfalse).1 hearlier
      | inr hnow => exact (hnoted hfalse).2 hnow

theorem Follows.run {o : Offer} {path : Bytes} {p : Platform} {events : List Event} :
    ∀ {s : State} {effects : List Effect}, Follows o path s effects → NoOffer o.key events →
      Follows o path (FileReceives.run p s events).1 (effects ++ (FileReceives.run p s events).2) := by
  induction events with
  | nil =>
    intro s effects h hnew
    change Follows o path s (effects ++ [])
    rw [List.append_nil]
    exact h
  | cons event events ih =>
    intro s effects h hnew
    have hstep : Follows o path (FileReceives.step p s event).1
        (effects ++ (FileReceives.step p s event).2) :=
      h.step fun o' heq => hnew o' (by simp [heq])
    have hrest := ih hstep fun o' hmem => hnew o' (List.mem_cons_of_mem _ hmem)
    rw [List.append_assoc] at hrest
    exact hrest

/-- What one chunk callback keeps to, in a transfer whose announced size is that of the offer and
    in which `earlier` has happened. -/
structure Inside (o : Offer) (path : Bytes) (earlier : List Effect) (before : State) (c : Chunk)
    (after : State × List Effect) : Prop where
  writes : ∀ key file position length written flushed,
    .write key file position length written flushed ∈ after.2 →
      key = o.key ∧ position = c.position ∧ length = c.data.length ∧
        position.toNat + length ≤ o.fileSize.toNat ∧
        (written = length ∧ flushed = true → ∀ n, n < length →
          (after.1.disk.content file)[position.toNat + n]? = c.data[n]?)
  outside : ∀ file n, o.fileSize.toNat ≤ n →
    (after.1.disk.content file)[n]? = (before.disk.content file)[n]?
  done : ∀ instanceId senderHex kind donePath,
    .enqueue o.key (.fileDone instanceId senderHex kind donePath) ∈ after.2 →
      donePath = path ∧ after.1.disk.fileSize path = some o.fileSize.toNat ∧
        (∀ file position length written flushed,
          .write o.key file position length written flushed ∈ earlier →
            written = length ∧ flushed = true) ∧
        .markIoFailed o.key ∉ earlier ∧
        ∀ instanceId senderHex fileNumber reason,
          .enqueue o.key (.fileRecvFailed instanceId senderHex fileNumber reason) ∉ earlier

theorem filled_content (p : Platform) (s : State) (c : Chunk) (fp file : ℕ) :
    (filled p s c fp).disk.content file =
      if file = fp then overwrite 0 (s.disk.content fp) c.position.toNat (c.landed p)
      else s.disk.content file := Function.update_apply _ _ _ _

theorem filled_beyond {p : Platform} {s : State} {c : Chunk} {fp size : ℕ}
    (hin : c.position.toNat + c.data.length ≤ size) (file n : ℕ) (h : size ≤ n) :
    ((filled p s c fp).disk.content file)[n]? = (s.disk.content file)[n]? := by
  have hlanded := landed_length_le p c
  rw [filled_content]
  split_ifs with hfile
  · rw [hfile]
    apply overwrite_beyond
    omega
  · rfl

theorem Follows.inside {o : Offer} {path : Bytes} {p : Platform} {s : State} {earlier : List Effect}
    {c : Chunk} {out : State × List Effect} (h : Follows o path s earlier) (hkey : c.key = o.key)
    (hout : Answered p s c out) : Inside o path earlier s c out := by
  have hsilent : Inside o path earlier s c (s, []) := by
    constructor
    · intro key file position length written flushed hmem
      cases hmem
    · exact fun file n hn => rfl
    · intro instanceId senderHex kind donePath hmem
      cases hmem
  cases hout with
  | missing hctx => exact hsilent
  | unopened hctx => exact hsilent
  | beyond ctx hctx =>
    constructor
    · intro key file position length written flushed hmem
      cases List.mem_singleton.mp hmem
    · exact fun file n hn => rfl
    · intro instanceId senderHex kind donePath hmem
      cases List.mem_singleton.mp hmem
  | last ctx hctx =>
    rw [hkey] at hctx
    obtain ⟨hsize, hpath, hfull, hreported, hnoted⟩ := h ctx hctx
    have hfinished := finishReceive_finished p s c ctx
    generalize finishReceive p s c ctx = out at hfinished
    cases hfinished with
    | failed reason =>
      constructor
      · intro key file position length written flushed hmem
        cases List.mem_singleton.mp hmem
      · exact fun file n hn => rfl
      · intro instanceId senderHex kind donePath hmem
        simp at hmem
    | done hfalse hexact =>
      constructor
      · intro key file position length written flushed hmem
        simp at hmem
      · exact fun file n hn => rfl
      · intro instanceId senderHex kind donePath hmem
        simp only [List.mem_cons, List.not_mem_nil, Effect.enqueue.injEq, reduceCtorEq, and_false,
          Line.fileDone.injEq, or_false, false_or] at hmem
        rw [hpath, hsize] at hexact
        exact ⟨hmem.2.2.2.2.trans hpath, hexact, hfull, hnoted hfalse, hreported⟩
    | empty =>
      constructor
      · intro key file position length written flushed hmem
        cases hmem
      · exact fun file n hn => rfl
      · intro instanceId senderHex kind donePath hmem
        cases hmem
  | written ctx fp receivedEnd hctx hsome hin hfullWrite hflushed =>
    rw [hkey] at hctx
    obtain ⟨hsize, hpath, hfull, hreported, hnoted⟩ := h ctx hctx
    rw [hsize] at hin
    constructor
    · intro key file position length written flushed hmem
      simp only [writeOf, List.mem_cons, List.not_mem_nil, Effect.write.injEq, reduceCtorEq,
        or_false] at hmem
      obtain ⟨rfl, rfl, rfl, rfl, rfl, rfl⟩ := hmem
      refine ⟨hkey, rfl, rfl, hin, ?_⟩
      intro _ n hn
      change ((filled p s c file).disk.content file)[_]? = _
      rw [filled_content, if_pos rfl, landed_of_full hsome hfullWrite hflushed,
        overwrite_within hn]
    · exact filled_beyond hin
    · intro instanceId senderHex kind donePath hmem
      simp [writeOf] at hmem
  | failed ctx fp reason hctx hin hshort =>
    rw [hkey] at hctx
    obtain ⟨hsize, hpath, hfull, hreported, hnoted⟩ := h ctx hctx
    rw [hsize] at hin
    constructor
    · intro key file position length written flushed hmem
      cases List.mem_cons.mp hmem with
      | inl heq =>
        cases heq
        refine ⟨hkey, rfl, rfl, hin, ?_⟩
        intro hfullWrite
        cases hshort hfullWrite
      | inr hrest =>
        obtain ⟨ctx', heq⟩ := failReceive_effects hrest
        cases heq
    · intro file n hn
      rw [failReceive_content]
      exact filled_beyond hin file n hn
    · intro instanceId senderHex kind donePath hmem
      cases List.mem_cons.mp hmem with
      | inl heq => cases heq
      | inr hrest =>
        obtain ⟨ctx', heq⟩ := failReceive_effects hrest
        simp at heq

def linux : Platform := ⟨0x7FFFFFFFFFFFFFFF, 28, some 122⟩

def emptyDisk : Disk Bytes UInt8 := ⟨fun _ => none, fun _ => [], 0, fun _ _ h => by cases h⟩

def note : Offer := ⟨1, 0, 3, 0, 2, [110], [97], none⟩

def accepted : ControlIo := ⟨none, true, true, 0, true, 0, true⟩

def body : Chunk := ⟨1, 0, 3, 0, [104, 105], by decide,
  ⟨true, 2, 2, 0, true, 0, true, 0, true, by decide, by decide, fun _ => rfl⟩⟩

def final : Chunk := ⟨1, 0, 3, 2, [], by decide,
  ⟨true, 0, 0, 0, true, 0, true, 0, true, by decide, by decide, fun _ => rfl⟩⟩

def noteEvents : List Event := [.control 1 (.ok 0) 3 0 accepted, .chunk body]

end Tim2Tox.ReceivedChunks
