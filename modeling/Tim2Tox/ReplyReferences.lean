import Tim2Tox.RepliesShown

set_option autoImplicit false

/-!
# The JSON of replies

When the reply object that goes out still has its message id.
-/
namespace Tim2Tox.ReplyMessages
open MergerMessages StorageNames TextSearch QToxMessageFragmenter

/-! ## The JSON that goes out -/

/-- Between the outer braces no closing brace comes before its opening one, those of strings
    counted. -/
def BracesMatch (replyJson : Bytes) : Prop :=
  ∃ inner, replyJson = openBrace :: inner ++ [closeBrace] ∧
    (∀ n, (inner.take n).count closeBrace ≤ (inner.take n).count openBrace) ∧
    inner.count closeBrace = inner.count openBrace

theorem scanObject_inner {inner rest : Bytes} : ∀ depth : ℕ,
    (∀ n, (inner.take n).count closeBrace < depth + (inner.take n).count openBrace) →
    inner.count closeBrace + 1 = depth + inner.count openBrace →
    scanObject depth (inner ++ closeBrace :: rest) = some inner := by
  induction inner with
  | nil =>
    intro depth _ hend
    rw [List.count_nil, List.count_nil] at hend
    have hone : depth = 1 := by omega
    rw [List.nil_append, scanObject, if_neg (by decide), if_pos rfl, if_pos hone]
  | cons c inner ih =>
    intro depth hdepth hend
    have hlater : ∀ n, ((c :: inner.take n).count closeBrace) <
        depth + (c :: inner.take n).count openBrace := fun n => hdepth (n + 1)
    rw [List.cons_append, scanObject]
    split_ifs with hopen hclose hone
    · have hother : openBrace ≠ closeBrace := by decide
      rw [hopen] at hlater hend
      rw [List.count_cons_self, List.count_cons_of_ne hother] at hend
      have hinner := ih (depth + 1) (fun n => by
        have := hlater n
        rw [List.count_cons_self, List.count_cons_of_ne hother] at this
        omega) (by omega)
      rw [hinner, hopen]
      rfl
    · have hfirst := hlater 0
      rw [hclose, hone, List.take_zero] at hfirst
      exact absurd hfirst (by decide)
    · have hother : closeBrace ≠ openBrace := by decide
      have hfirst := hlater 0
      rw [hclose] at hlater hend hfirst
      rw [List.count_cons_self, List.count_cons_of_ne hother] at hend hfirst
      rw [List.take_zero, List.count_nil, List.count_nil] at hfirst
      have hinner := ih (depth - 1) (fun n => by
        have := hlater n
        rw [List.count_cons_self, List.count_cons_of_ne hother] at this
        omega) (by omega)
      rw [hinner, hclose]
      rfl
    · rw [List.count_cons_of_ne hclose, List.count_cons_of_ne hopen] at hend
      have hinner := ih depth (fun n => by
        have := hlater n
        rw [List.count_cons_of_ne hclose, List.count_cons_of_ne hopen] at this
        exact this) hend
      rw [hinner]
      rfl

theorem dropWhile_blank {blank : Bytes} (h : blank.all MergerMessages.isBlank = true) {c : UInt8}
    (hc : MergerMessages.isBlank c = false) (rest : Bytes) :
    (blank ++ c :: rest).dropWhile MergerMessages.isBlank = c :: rest := by
  induction blank with
  | nil => rw [List.nil_append, List.dropWhile_cons_of_neg (by simp [hc])]
  | cons b blank ih =>
    rw [List.all_cons, Bool.and_eq_true] at h
    rw [List.cons_append, List.dropWhile_cons_of_pos h.1, ih h.2]

theorem replyUnder_key {key blank replyJson : Bytes} (hcolon : colon ∉ key)
    (hblank : blank.all MergerMessages.isBlank = true) (h : BracesMatch replyJson) :
    replyUnder (underKey key blank replyJson) key = some replyJson := by
  obtain ⟨inner, rfl, hdepth, hend⟩ := h
  have hwritten : underKey key blank (openBrace :: inner ++ [closeBrace]) = openBrace :: quote ::
      (key ++ quote :: colon :: (blank ++ openBrace :: (inner ++ closeBrace :: [closeBrace]))) := by
    simp [underKey, quoted]
  have hafter : afterKey (underKey key blank (openBrace :: inner ++ [closeBrace])) key =
      some (openBrace :: (inner ++ closeBrace :: [closeBrace])) := by
    rw [afterKey_eq, hwritten, behindKey_other (by decide), behindKey_here (key_written _ _),
      behind_name hcolon, Option.map_some, dropWhile_blank hblank (by decide)]
  have hhas : hasJsonKey (underKey key blank (openBrace :: inner ++ [closeBrace])) key = true := by
    unfold hasJsonKey
    cases hfind : find (quoted key) (underKey key blank (openBrace :: inner ++ [closeBrace])) with
    | none =>
      unfold afterKey at hafter
      rw [hfind] at hafter
      cases hafter
    | some n => rfl
  have hscan : scanObject 1 (inner ++ closeBrace :: [closeBrace]) = some inner :=
    scanObject_inner 1 (fun n => by have := hdepth n; omega) (by omega)
  have hvalue : extractJsonValue (underKey key blank (openBrace :: inner ++ [closeBrace])) key =
      openBrace :: inner ++ [closeBrace] := by
    unfold extractJsonValue
    rw [hafter]
    dsimp only
    rw [if_neg (by decide), if_pos rfl, hscan]
  rw [replyUnder, hhas, if_pos rfl, hvalue]
  rfl

/-- Nothing else in the custom data is taken for the reply object. -/
structure TakenWhole (cloudCustomData replyJson : Bytes) : Prop where
  braces : BracesMatch replyJson
  key : hasJsonKey cloudCustomData (ascii "messageReference") = true →
    openBrace :: quoted (ascii "messageReference") <+: cloudCustomData

theorem extracted_reply {cloudCustomData replyJson : Bytes} (h : Carried cloudCustomData replyJson)
    (hwhole : TakenWhole cloudCustomData replyJson) :
    extractReplyJsonFromCloudCustomData cloudCustomData = replyJson := by
  obtain ⟨blank, hblank, hcases⟩ := h
  cases hcases with
  | inl hreference =>
    rw [hreference, extractReplyJsonFromCloudCustomData,
      replyUnder_key (by decide) hblank hwhole.braces]
    rfl
  | inr hreply =>
    have hkey : hasJsonKey cloudCustomData (ascii "messageReference") = false := by
      rw [← Bool.not_eq_true]
      intro hhas
      have hstart := hwhole.key hhas
      rw [hreply, underKey, List.cons_append, List.cons_prefix_cons] at hstart
      have hshorter := List.prefix_of_prefix_length_le (List.prefix_append _ _) hstart.2
        (by decide)
      exact absurd hshorter (by decide)
    have hnone : replyUnder cloudCustomData (ascii "messageReference") = none := by
      rw [replyUnder, hkey]
      rfl
    rw [extractReplyJsonFromCloudCustomData, hnone, hreply,
      replyUnder_key (by decide) hblank hwhole.braces]
    rfl

/-! ## Shortened replies -/

theorem stringBody_of_all {text : Bytes}
    (h : text.all (fun c => 32 ≤ c && c != quote && c != backslash) = true) : StringBody text := by
  induction text with
  | nil => exact .nil
  | cons c text ih =>
    rw [List.all_cons, Bool.and_eq_true, Bool.and_eq_true, Bool.and_eq_true, decide_eq_true_eq,
      bne_iff_ne, bne_iff_ne] at h
    exact .plain h.1.1.1 h.1.1.2 h.1.2 (ih h.2)

theorem smallReply_object {version messageID : Bytes} (hversion : Value version)
    (hid : StringBody messageID) : ReplyObject (smallReply version messageID) messageID := by
  have hblank : Blank [] := fun c hc => absurd hc List.not_mem_nil
  have hname : StringBody (ascii "version") := stringBody_of_all (by decide)
  have hidName : StringBody (ascii "messageID") := stringBody_of_all (by decide)
  have hfirst := Member.mk hblank hname hblank hblank hversion hblank
  have hsecond := Member.mk hblank hidName hblank hblank (Value.string hid) hblank
  refine ⟨_, _, ?_, Members.more hfirst (Members.last hsecond), hid, ?_⟩
  · have hfront : ascii "\"version\":" = quoted (ascii "version") ++ [colon] := by decide
    have hmiddle : ascii ",\"messageID\":\"" =
        comma :: quoted (ascii "messageID") ++ [colon, quote] := by decide
    rw [smallReply, hfront, hmiddle]
    simp
  · have hother : ascii "version" ≠ ascii "messageID" := by decide
    simp [hother, quoted]

theorem one_value : Value (ascii "1") := by
  have hdigits : Digits (ascii "1") := ⟨by decide, by decide⟩
  have hnumber : Number [] (ascii "1") [] [] :=
    ⟨List.mem_cons_self, .inr ⟨hdigits, by decide⟩, .inl rfl, .inl rfl⟩
  have hvalue := Value.number hnumber
  rw [List.nil_append, List.append_nil, List.append_nil] at hvalue
  exact hvalue

/-- What the shortening finds in the reply object is its message id and a version. -/
structure FoundWhole (replyJson messageID : Bytes) : Prop where
  found : extractJsonValue replyJson (ascii "messageID") = messageID
  some_id : messageID ≠ []
  version : extractJsonValue replyJson (ascii "version") = [] ∨
    Value (extractJsonValue replyJson (ascii "version"))

theorem shortened_object {replyJson messageID : Bytes} (h : ReplyObject replyJson messageID)
    (text : Bytes)
    (hfound : isMessageTooLong (buildMessageWithReply replyJson text) = true →
      FoundWhole replyJson messageID) :
    ReplyObject (shortenedReply replyJson text) messageID := by
  obtain ⟨_, _, _, _, hid, _⟩ := id h
  unfold shortenedReply
  by_cases hlong : isMessageTooLong (buildMessageWithReply replyJson text) = true
  · have hwhole := hfound hlong
    have hcompressed : ReplyObject (compressReplyJson replyJson) messageID := by
      unfold compressReplyJson
      dsimp only
      rw [hwhole.found, if_neg hwhole.some_id]
      apply smallReply_object _ hid
      split_ifs with hversion
      · exact one_value
      · exact hwhole.version.resolve_left hversion
    rw [hlong]
    dsimp only
    rw [hwhole.found, if_neg hwhole.some_id]
    split_ifs
    · exact h
    · exact hcompressed
    · exact smallReply_object one_value hid
  · rw [Bool.not_eq_true] at hlong
    rw [hlong]
    exact h

end Tim2Tox.ReplyMessages
