import Tim2Tox.HistoryDedupe
import Tim2Tox.Utf16

set_option autoImplicit false

/-!
# What a merge of two copies keeps

`_mergeMessages` on any two copies: the ids and the flags always, the file path and its own result
only where the later copy brings a path of its own and no failure the ids would deny.
-/
namespace Tim2Tox.ChatHistory
open ChatMessage

/-! ## The order of ids -/

theorem codeUnits_eq (s : String) : codeUnits s = Utf16.encode s.toList := rfl

theorem codeUnits_inj {a b : String} (h : codeUnits a = codeUnits b) : a = b := by
  rw [codeUnits_eq, codeUnits_eq] at h
  exact String.toList_injective (Utf16.encode_inj h)

/-- The sorted ids depend on the set of the ids alone. -/
theorem sortedIds_congr {a b : List String} (h : ∀ id, id ∈ a ↔ id ∈ b) :
    sortedIds a = sortedIds b := by
  have hmem : ∀ id, id ∈ a.dedup ↔ id ∈ b.dedup := fun id => by
    rw [List.mem_dedup, List.mem_dedup, h]
  have hperm : (sortedIds a).Perm (sortedIds b) :=
    (List.perm_insertionSort _ _).trans
      (((List.perm_ext_iff_of_nodup (List.nodup_dedup a) (List.nodup_dedup b)).mpr hmem).trans
        (List.perm_insertionSort _ _).symm)
  have hsorted : ∀ l : List String, (sortedIds l).Pairwise fun a b => codeUnits a ≤ codeUnits b := by
    intro l
    have htotal : Std.Total fun a b : String => codeUnits a ≤ codeUnits b :=
      ⟨fun a b => le_total (codeUnits a) (codeUnits b)⟩
    have htrans : IsTrans String fun a b => codeUnits a ≤ codeUnits b := ⟨fun a b c => le_trans⟩
    exact List.pairwise_insertionSort _ _
  exact List.Perm.eq_of_pairwise (fun a b _ _ hab hba => codeUnits_inj (le_antisymm hab hba))
    (hsorted a) (hsorted b) hperm

/-! ## What a merge keeps -/

/-- The row of a file path that is there to stay. -/
def hasFinalPath (m : ChatMessage) : Bool := m.filePath.isSome && !m.isTempPath

/-- The merge of two copies carries what either knew, and taking the later copy in again changes
    nothing. -/
structure MergeKeeps (sent : Option (String → Bool)) (e u : ChatMessage) : Prop where
  ids : ∀ id, id ∈ e.ids ∨ id ∈ u.ids → id ∈ (mergeMessages sent e u).ids
  received : e.isReceived = true ∨ u.isReceived = true → (mergeMessages sent e u).isReceived = true
  read : e.isRead = true ∨ u.isRead = true → (mergeMessages sent e u).isRead = true
  cancelled : e.isCancelled = true ∨ u.isCancelled = true →
    (mergeMessages sent e u).isCancelled = true
  needReadReceipt : e.needReadReceipt = true ∨ u.needReadReceipt = true →
    (mergeMessages sent e u).needReadReceipt = true
  path : e.filePath.isSome = true ∨ u.filePath.isSome = true →
    (mergeMessages sent e u).filePath.isSome = true
  finalPath : hasFinalPath e = true ∨ hasFinalPath u = true →
    hasFinalPath (mergeMessages sent e u) = true
  again : mergeMessages sent (mergeMessages sent e u) u = mergeMessages sent e u

/-- The later copy's failure is denied by the older id alone, which the merge makes an alias. -/
def failureReturns (sent : Option (String → Bool)) (e u : ChatMessage) : Bool :=
  u.isFailed && !(u.isReceived || e.isReceived) && !(u.isRead || e.isRead) &&
    sent.any fun sent => e.msgID.any sent && u.msgID.any fun id => !sent id

/-- The later copy brings a path unless neither has one, a final path where the older copy has
    none, and no failure denied by the older id alone. -/
def mergeable (sent : Option (String → Bool)) (e u : ChatMessage) : Bool :=
  (u.filePath.isSome || e.filePath.isNone) && !(u.isTempPath && e.filePath.isNone) &&
    !failureReturns sent e u

section
variable {sent : Option (String → Bool)} {e u : ChatMessage}

theorem isTempPath_of_none {m : ChatMessage} (h : m.filePath = none) : m.isTempPath = false := by
  unfold isTempPath
  rw [h]

theorem isTempPath_congr {a b : ChatMessage} (h : a.filePath = b.filePath) :
    a.isTempPath = b.isTempPath := by
  unfold isTempPath
  rw [h]

/-- A temporary path always gives way to what the older copy has, nothing included. -/
theorem merged_filePath : (mergeMessages sent e u).filePath =
    if u.isTempPath then e.filePath else u.filePath := by
  change (if u.isTempPath && !e.isTempPath then e.filePath
    else if !u.isTempPath then u.filePath else e.filePath) = _
  cases u.isTempPath <;> cases e.isTempPath <;> rfl

theorem merged_path_iff : (e.filePath.isSome = true ∨ u.filePath.isSome = true →
    (mergeMessages sent e u).filePath.isSome = true) ↔
      (u.filePath.isSome || e.filePath.isNone) = true ∧
        (u.isTempPath && e.filePath.isNone) = false := by
  rw [merged_filePath]
  by_cases htemp : u.isTempPath = true
  · have hsome : u.filePath.isSome = true := by
      by_contra hnone
      rw [isTempPath_of_none (by simpa using hnone)] at htemp
      contradiction
    rw [if_pos htemp, htemp, hsome]
    cases e.filePath <;> simp
  · rw [if_neg htemp]
    simp only [Bool.not_eq_true] at htemp
    rw [htemp]
    cases e.filePath <;> cases u.filePath <;> simp

theorem merged_finalPath (hpath : (u.filePath.isSome || e.filePath.isNone) = true) :
    hasFinalPath e = true ∨ hasFinalPath u = true →
      hasFinalPath (mergeMessages sent e u) = true := by
  intro hfinal
  have hmerged := @merged_filePath sent e u
  by_cases htemp : u.isTempPath = true
  · rw [if_pos htemp] at hmerged
    have hu : hasFinalPath u = false := by rw [hasFinalPath, htemp, Bool.not_true, Bool.and_false]
    rw [hu] at hfinal
    rw [hasFinalPath, hmerged, isTempPath_congr hmerged]
    simpa [hasFinalPath] using hfinal
  · rw [if_neg htemp] at hmerged
    have hsome : u.filePath.isSome = true := by
      rcases hfinal with he | hu
      · rw [hasFinalPath, Bool.and_eq_true] at he
        rw [Bool.or_eq_true, Option.isNone_iff_eq_none] at hpath
        rcases hpath with hu | hnone
        · exact hu
        · rw [hnone] at he
          simp at he
      · rw [hasFinalPath, Bool.and_eq_true] at hu
        exact hu.1
    rw [hasFinalPath, hmerged, isTempPath_congr hmerged, hsome, Bool.true_and, Bool.not_eq_true']
    simpa using htemp

/-- The failure of the second merge: the older id no longer speaks for the send. -/
theorem mergedFailure_again (isReceived isRead : Bool) (e u : ChatMessage) {m : ChatMessage}
    (hfailed : m.isFailed = mergedFailure e u isReceived isRead sent)
    (hid : m.msgID = u.msgID.or e.msgID) :
    mergedFailure m u isReceived isRead sent = mergedFailure e u isReceived isRead sent ↔
      (u.isFailed && !isReceived && !isRead &&
        sent.any fun sent => e.msgID.any sent && u.msgID.any fun id => !sent id) = false := by
  unfold mergedFailure at hfailed ⊢
  rw [hfailed, hid]
  cases u.isFailed <;> cases isReceived <;> cases isRead <;> rcases sent with _ | sent <;>
    rcases e.msgID with _ | a <;> rcases u.msgID with _ | b <;> cases e.isFailed <;> simp
  all_goals cases sent b <;> simp

theorem merged_aliases : (mergeMessages sent e u).altMsgIds =
    sortedIds ((e.ids ++ u.ids).filter fun id => some id ≠ u.msgID.or e.msgID) := by
  refine sortedIds_congr fun id => ?_
  simp only [List.mem_filter, List.mem_append, Option.mem_toList, mem_ids]
  tauto

theorem merged_msgID_again : u.msgID.or (mergeMessages sent e u).msgID = u.msgID.or e.msgID := by
  change u.msgID.or (u.msgID.or e.msgID) = _
  cases u.msgID <;> rfl

theorem merged_aliases_again : (mergeMessages sent (mergeMessages sent e u) u).altMsgIds =
    (mergeMessages sent e u).altMsgIds := by
  rw [merged_aliases, merged_aliases (e := e), merged_msgID_again]
  refine sortedIds_congr fun id => ?_
  rw [List.mem_filter, List.mem_filter, List.mem_append, List.mem_append, mem_ids_mergeMessages]
  tauto

theorem or_again {α : Type} (a b : Option α) : a.or (a.or b) = a.or b := by
  cases a <;> rfl

theorem bool_or_again (a b : Bool) : (a || (a || b)) = (a || b) := by
  cases a <;> rfl

theorem merged_kind_again : mergedKind u (mergeMessages sent e u) .normal =
    (mergeMessages sent e u).contentKind := by
  change (if u.contentKind = .action || mergedKind u e .normal = .action then _ else _) =
    mergedKind u e .normal
  unfold mergedKind
  cases u.contentKind <;> cases e.contentKind <;> rfl

theorem merged_again_iff : mergeMessages sent (mergeMessages sent e u) u = mergeMessages sent e u ↔
    failureReturns sent e u = false := by
  have hfailure := @mergedFailure_again sent (u.isReceived || e.isReceived)
    (u.isRead || e.isRead) e u (m := mergeMessages sent e u) rfl rfl
  have hagain : (mergeMessages sent (mergeMessages sent e u) u).isFailed =
      mergedFailure (mergeMessages sent e u) u (u.isReceived || e.isReceived)
        (u.isRead || e.isRead) sent := by
    change mergedFailure _ u (u.isReceived || (u.isReceived || e.isReceived))
      (u.isRead || (u.isRead || e.isRead)) sent = _
    rw [bool_or_again, bool_or_again]
  have hpath : (mergeMessages sent (mergeMessages sent e u) u).filePath =
      (mergeMessages sent e u).filePath := by
    rw [merged_filePath, merged_filePath]
    split_ifs <;> rfl
  change _ ↔ (u.isFailed && !(u.isReceived || e.isReceived) && !(u.isRead || e.isRead) && _) = false
  rw [← hfailure, ← hagain]
  constructor
  · intro heq
    rw [heq]
    rfl
  · intro hsame
    have htext : (if u.text.isEmpty then (mergeMessages sent e u).text else u.text) =
        (mergeMessages sent e u).text := by
      change (if u.text.isEmpty then if u.text.isEmpty then e.text else u.text else u.text) =
        if u.text.isEmpty then e.text else u.text
      split_ifs <;> rfl
    have htime : (if u.timestamp > (mergeMessages sent e u).timestamp then u.timestamp
        else (mergeMessages sent e u).timestamp) = (mergeMessages sent e u).timestamp := by
      refine if_neg ?_
      change ¬ u.timestamp > if u.timestamp > e.timestamp then u.timestamp else e.timestamp
      split_ifs <;> omega
    have hpending : (u.isPending && (u.isPending && e.isPending)) = (u.isPending && e.isPending) := by
      cases u.isPending <;> rfl
    exact ChatMessage.mk.injEq .. ▸ ⟨htext, rfl, rfl, htime, or_again _ _, hpath, or_again _ _,
      or_again _ _, merged_kind_again, hpending, hsame, bool_or_again _ _, bool_or_again _ _,
      bool_or_again _ _, merged_msgID_again, rfl, or_again _ _, or_again _ _, or_again _ _,
      merged_aliases_again, or_again _ _, bool_or_again _ _⟩

/-- A merge keeps what either copy knew exactly where the later copy brings a path unless neither has
    one, a final one where the older has none, and no failure denied by the older id alone. -/
theorem merge_keeps_state_iff (sent : Option (String → Bool)) (e u : ChatMessage) :
    MergeKeeps sent e u ↔ mergeable sent e u = true := by
  have hpaths := @merged_path_iff sent e u
  rw [mergeable, Bool.and_eq_true, Bool.and_eq_true, Bool.not_eq_true', Bool.not_eq_true',
    ← hpaths, ← merged_again_iff]
  constructor
  · intro h
    exact ⟨h.path, h.again⟩
  · intro h
    obtain ⟨hpath, hagain⟩ := h
    have hor : ∀ a b : Bool, a = true ∨ b = true → (b || a) = true := by
      intro a b hab
      rw [Bool.or_eq_true]
      exact hab.symm
    exact ⟨fun id hid => mem_ids_mergeMessages.mpr hid, hor _ _, hor _ _, hor _ _, hor _ _, hpath,
      merged_finalPath (hpaths.mp hpath).1, hagain⟩

end

def receivedFile : ChatMessage :=
  { text := "a.png", fromUserId := "bob", isSelf := false, timestamp := 1000,
    filePath := some "/data/Downloads/a.png", msgID := some "m1" }

def readCopy : ChatMessage :=
  { text := "a.png", fromUserId := "bob", isSelf := false, timestamp := 1000, isRead := true,
    msgID := some "m1" }

/-- A copy without a path takes the path of the file received. -/
theorem merge_without_path_loses_file :
    idMatches receivedFile "m1" = true ∧ idMatches readCopy "m1" = true ∧
      hasFinalPath receivedFile = true ∧ (mergeMessages none receivedFile readCopy).filePath = none ∧
        ¬ MergeKeeps none receivedFile readCopy := by
  have hlost : hasFinalPath receivedFile = true ∧
      (mergeMessages none receivedFile readCopy).filePath = none := by decide
  refine ⟨by decide, by decide, hlost.1, hlost.2, fun h => ?_⟩
  have hkept := h.path (Or.inl rfl)
  rw [hlost.2] at hkept
  contradiction

end Tim2Tox.ChatHistory
