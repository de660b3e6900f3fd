import Tim2Tox.ReplyReferences

set_option autoImplicit false

/-!
# Replies that arrive

When the texts and the reference that are shown are those that were sent.
-/
namespace Tim2Tox.ReplyMessages
open MergerMessages StorageNames TextSearch QToxMessageFragmenter

/-! ## What is sent -/

theorem sentReply_eq_nil {cloudCustomData : Bytes} (text : Bytes)
    (h : extractReplyJsonFromCloudCustomData cloudCustomData = []) :
    sentReply cloudCustomData text = [] := by
  have hcompressed : compressReplyJson [] = [] := by decide
  have hid : extractJsonValue [] (ascii "messageID") = [] := by decide
  rw [sentReply, h, shortenedReply]
  dsimp only
  rw [hcompressed, hid, if_pos rfl, ite_self, ite_self]

theorem finalMessageText_eq (cloudCustomData text : Bytes) :
    finalMessageText ⟨.normal, text⟩ cloudCustomData =
      buildMessageWithReply (sentReply cloudCustomData text) text := by
  unfold finalMessageText
  by_cases h : extractReplyJsonFromCloudCustomData cloudCustomData = []
  · rw [sentReply_eq_nil text h, if_neg fun hand => hand.2 h]
    rfl
  · dsimp only
    rw [if_pos ⟨rfl, h⟩]
    rfl

theorem fragments_of_some {text : Bytes} {fragments : List Bytes}
    (h : fragmentMessage text = some fragments) :
    isValidInput text = true ∧ Fragments kMessagePayloadLimit text fragments := by
  by_cases hvalid : isValidInput text = true
  · obtain ⟨found, hsome, hfragments⟩ := fragmentMessage_valid hvalid
    obtain rfl := Option.some.inj (h.symm.trans hsome)
    exact ⟨hvalid, hfragments⟩
  · rw [Bool.not_eq_true] at hvalid
    rw [fragmentMessage, hvalid] at h
    cases h

theorem received_of_normal {text : Bytes} (cloudCustomData : Bytes) (hvalid : isValidInput text = true)
    (hnormal : hasMePrefix text = false) :
    received text cloudCustomData =
      (fragmentMessage (buildMessageWithReply (sentReply cloudCustomData text) text)).map
        fun fragments => fragments.map (handleFriendMessage .normal) := by
  have hprepared := (prepared_iff.mpr ⟨hvalid, hnormal, rfl⟩).1
  rw [received, sendC2CTextMessageWithType, hprepared, Option.bind_some, finalMessageText_eq,
    Option.map_map]
  rfl

/-- A text is shown only of what was sent as a text. -/
theorem normal_of_received {text cloudCustomData shown data : Bytes} {later : List Received}
    (h : received text cloudCustomData = some (.text shown data :: later)) :
    isValidInput text = true ∧ hasMePrefix text = false ∧ ∃ first fragments,
      fragmentMessage (buildMessageWithReply (sentReply cloudCustomData text) text) =
        some (first :: fragments) ∧
      handleFriendMessage .normal first = .text shown data ∧
      fragments.map (handleFriendMessage .normal) = later := by
  unfold received sendC2CTextMessageWithType at h
  obtain ⟨sent, hsent, hmap⟩ := Option.map_eq_some_iff.mp h
  obtain ⟨prepared, hprepared, hfragments⟩ := Option.bind_eq_some_iff.mp hsent
  obtain ⟨fragments, hsome, rfl⟩ := Option.map_eq_some_iff.mp hfragments
  dsimp only at hmap
  cases fragments with
  | nil => cases hmap
  | cons first fragments =>
    rw [List.map_cons] at hmap
    injection hmap with hfirst hlater
    cases htype : prepared.type with
    | action =>
      rw [htype] at hfirst
      cases hfirst
    | normal =>
      obtain ⟨hvalid, hnormal, rfl⟩ := prepared_iff.mp ⟨hprepared, htype⟩
      rw [finalMessageText_eq] at hsome
      exact ⟨hvalid, hnormal, first, fragments, hsome, hfirst, hlater⟩

theorem plain_fragments {fragments : List Bytes} {texts : List Bytes}
    (h : fragments.map (handleFriendMessage .normal) = texts.map fun text => .text text []) :
    texts = fragments ∧ ∀ fragment ∈ fragments, Undisturbed fragment := by
  induction fragments generalizing texts with
  | nil =>
    cases texts with
    | nil => exact ⟨rfl, fun fragment hmem => absurd hmem List.not_mem_nil⟩
    | cons text texts => cases h
  | cons fragment fragments ih =>
    cases texts with
    | nil => cases h
    | cons text texts =>
      rw [List.map_cons, List.map_cons] at h
      injection h with hfirst hlater
      obtain ⟨hundisturbed, rfl⟩ := plain_shown hfirst
      obtain ⟨rfl, hrest⟩ := ih hlater
      refine ⟨rfl, ?_⟩
      rw [List.forall_mem_cons]
      exact ⟨hundisturbed, hrest⟩

theorem fragments_plain {fragments : List Bytes} (h : ∀ fragment ∈ fragments, Undisturbed fragment) :
    fragments.map (handleFriendMessage .normal) = fragments.map fun text => .text text [] :=
  List.map_congr_left fun fragment hmem => shown_plain (h fragment hmem)

/-! ## Texts without a reply -/

theorem plain_arrives_iff {cloudCustomData : Bytes} (text : Bytes)
    (h : extractReplyJsonFromCloudCustomData cloudCustomData = []) :
    PlainArrives cloudCustomData text ↔ PlainFits text := by
  have hbody : buildMessageWithReply (sentReply cloudCustomData text) text = text := by
    rw [sentReply_eq_nil text h]
    rfl
  constructor
  · rintro ⟨texts, hreceived, hjoined⟩
    cases texts with
    | nil =>
      obtain rfl : [] = text := hjoined
      cases hreceived
    | cons shown texts =>
      obtain ⟨hvalid, hnormal, first, fragments, hsome, hfirst, hlater⟩ :=
        normal_of_received hreceived
      have hshown : (first :: fragments).map (handleFriendMessage .normal) =
          (shown :: texts).map fun text => .text text [] := by
        rw [List.map_cons, List.map_cons, hfirst, hlater]
      have hundisturbed := (plain_fragments hshown).2
      rw [hbody] at hsome
      constructor
      case valid => exact hvalid
      case normal => exact hnormal
      case undisturbed =>
        intro fragments hfragments
        obtain rfl := Option.some.inj (hsome.symm.trans hfragments)
        exact hundisturbed
  · intro hfits
    obtain ⟨fragments, hsome, hfragments⟩ := fragmentMessage_valid hfits.valid
    refine ⟨fragments, ?_, hfragments.joined⟩
    rw [received_of_normal cloudCustomData hfits.valid hfits.normal, hbody, hsome, Option.map_some,
      fragments_plain (hfits.undisturbed fragments hsome)]

/-! ## Where the first fragment ends -/

theorem byteAt_behind (front text : Bytes) (k : ℕ) :
    byteAt (front ++ newline :: text) (front.length + 1 + k) = byteAt text k := by
  have hplace : front.length + 1 + k - front.length = k + 1 := by omega
  rw [byteAt, byteAt, List.getD_eq_getElem?_getD, List.getElem?_append_right (by omega), hplace,
    List.getElem?_cons_succ, List.getD_eq_getElem?_getD]

theorem byteAt_newline (front text : Bytes) :
    byteAt (front ++ newline :: text) front.length = newline := by
  rw [byteAt, List.getD_eq_getElem?_getD, List.getElem?_append_right (Nat.le_refl _), Nat.sub_self]
  rfl

/-- The first fragment has some of the text behind the line feed if all fits, or if the text has a
    line feed of its own in the budget. -/
theorem room_iff {limit : ℕ} {front text first : Bytes} {later : List Bytes}
    (h : Fragments limit (front ++ newline :: text) (first :: later)) (htext : text ≠ []) :
    front.length + 1 < first.length ↔
      (front ++ newline :: text).length ≤ limit ∨ newline ∈ text.take (limit - (front.length + 1)) := by
  have hpos := List.length_pos_iff.mpr htext
  by_cases hshort : (front ++ newline :: text).length ≤ limit
  · have hfirst := h.single hshort
    injection hfirst with hfirst
    rw [hfirst, List.length_append, List.length_cons]
    constructor
    · exact fun _ => .inl (by rw [List.length_append, List.length_cons] at hshort; exact hshort)
    · intro _
      omega
  · have hwithin := (h.sendable first List.mem_cons_self).2.1
    have hlater : later ≠ [] := by
      intro hnil
      have hjoined := h.joined
      rw [hnil, List.flatten_cons, List.flatten_nil, List.append_nil] at hjoined
      rw [← hjoined] at hshort
      exact hshort hwithin
    have hpreferred := h.preferred [] first later rfl hlater
    have hjoined := h.joined
    rw [List.flatten_cons] at hjoined
    rw [hjoined] at hpreferred
    constructor
    · intro hlong
      have hnewline : ¬ NoneOf isNewline limit (front ++ newline :: text) := by
        intro hnone
        have hbyte := hnone front.length (by omega)
        rw [byteAt_newline] at hbyte
        exact absurd hbyte (by decide)
      have hends := (hpreferred.resolve_right fun hrest =>
        hrest.elim (fun hblank => hnewline hblank.1) fun hboundary => hnewline hboundary.1)
      obtain ⟨k, hk⟩ := Nat.exists_eq_add_of_lt hlong
      have hplace : first.length - 1 = front.length + 1 + k := by omega
      have hending := hends.ending
      rw [hplace, byteAt_behind, isNewline, decide_eq_true_eq] at hending
      have hget : text[k]? = some newline := by
        rw [byteAt, List.getD_eq_getElem?_getD] at hending
        cases hget : text[k]? with
        | none =>
          rw [hget] at hending
          cases hending
        | some c =>
          rw [hget] at hending
          exact congrArg some hending
      right
      apply List.mem_of_getElem? (i := k)
      rw [List.getElem?_take_of_lt (by omega), hget]
    · intro hcases
      obtain ⟨k, hk⟩ := List.mem_iff_getElem?.mp (hcases.resolve_left hshort)
      rw [List.getElem?_take] at hk
      split_ifs at hk with hin
      have hbyte : isNewline (byteAt (front ++ newline :: text) (front.length + 1 + k)) = true := by
        rw [byteAt_behind, byteAt, List.getD_eq_getElem?_getD, hk]
        rfl
      have hnewline : ¬ NoneOf isNewline limit (front ++ newline :: text) := by
        intro hnone
        rw [hnone _ (by omega)] at hbyte
        cases hbyte
      have hends := (hpreferred.resolve_right fun hrest =>
        hrest.elim (fun hblank => hnewline hblank.1) fun hboundary => hnewline hboundary.1)
      by_contra hshortFirst
      rw [hends.last (front.length + 1 + k) (by omega) (by omega)] at hbyte
      cases hbyte

/-! ## Texts with a reply -/

theorem replyEndMarker_eq : replyEndMarker = openBracket :: replyEndMarker.tail := by
  decide

theorem message_eq {replyJson : Bytes} (h : replyJson ≠ []) (text : Bytes) :
    buildMessageWithReply replyJson text =
      marked replyStartMarker (openBracket :: replyEndMarker.tail) replyJson text := by
  rw [← replyEndMarker_eq, buildMessageWithReply, if_neg h]
  simp [marked]

theorem message_split {replyJson : Bytes} (h : replyJson ≠ []) (text : Bytes) :
    buildMessageWithReply replyJson text =
      (replyStartMarker ++ replyJson ++ replyEndMarker) ++ newline :: text := by
  rw [buildMessageWithReply, if_neg h]
  simp

theorem ReplyObject.ne_nil {replyJson messageID : Bytes} (h : ReplyObject replyJson messageID) :
    replyJson ≠ [] := by
  obtain ⟨text, members, rfl, _⟩ := h
  exact List.cons_ne_nil _ _

/-- The mark is in the JSON or nowhere in front of its own place. -/
theorem ReplyObject.mark_iff {replyJson messageID : Bytes} (h : ReplyObject replyJson messageID) :
    replyEndMarker <:+: replyStartMarker ++ replyJson ↔ replyEndMarker <:+: replyJson := by
  obtain ⟨text, members, rfl, _⟩ := h
  constructor
  · intro hmark
    rw [List.cons_append, infix_split (by decide) (by decide)] at hmark
    exact List.infix_cons (hmark.resolve_left (by decide))
  · exact fun hmark => hmark.trans (List.suffix_append _ _).isInfix

theorem dropWhile_append {before : Bytes} (h : before.dropWhile isLineEnd ≠ []) (behind : Bytes) :
    before.dropWhile isLineEnd ++ behind = (before ++ behind).dropWhile isLineEnd := by
  induction before with
  | nil => exact absurd rfl h
  | cons c before ih =>
    rw [List.cons_append, List.dropWhile_cons, List.dropWhile_cons]
    rw [List.dropWhile_cons] at h
    split_ifs at h ⊢ with hc
    · exact ih h
    · rfl

theorem length_with_newline (front : Bytes) : (front ++ [newline]).length = front.length + 1 := by
  rw [List.length_append, List.length_singleton]

theorem parsed_reply {replyJson : Bytes} (h : replyJson ≠ [])
    (hmark : ¬ replyEndMarker <:+: replyStartMarker ++ replyJson) (text : Bytes) :
    parseMessageWithReply (buildMessageWithReply replyJson text) =
      ⟨true, replyJson, text.dropWhile isLineEnd⟩ := by
  rw [replyEndMarker_eq] at hmark
  rw [parseMessageWithReply, message_eq h, replyEndMarker_eq]
  exact parseBetween_marked (by decide) (by decide) hmark

/-- A first fragment that is long enough begins like the message. -/
theorem first_split {front text first : Bytes} {later : List Bytes}
    (hjoined : first ++ later.flatten = front ++ newline :: text)
    (hlong : front.length + 1 < first.length) :
    ∃ behind, first = front ++ newline :: behind ∧ behind ≠ [] ∧ text = behind ++ later.flatten := by
  have hwhole : front ++ newline :: text = (front ++ [newline]) ++ text := by simp
  have hstart : front ++ [newline] <+: first ++ later.flatten := by
    rw [hjoined, hwhole]
    exact List.prefix_append _ _
  obtain ⟨behind, hbehind⟩ := List.prefix_of_prefix_length_le hstart (List.prefix_append _ _) (by
    rw [List.length_append, List.length_singleton]
    omega)
  refine ⟨behind, ?_, ?_, ?_⟩
  · rw [← hbehind]
    simp
  · rintro rfl
    rw [← hbehind, List.append_nil, List.length_append, List.length_singleton] at hlong
    exact Nat.lt_irrefl _ hlong
  · rw [← hbehind, hwhole, List.append_assoc] at hjoined
    exact (List.append_cancel_left hjoined).symm

theorem reply_of_fits {cloudCustomData text messageID : Bytes}
    (h : ReplyFits cloudCustomData text messageID) :
    ReplyArrives cloudCustomData text messageID := by
  obtain ⟨fragments, hsome, hfragments⟩ := fragmentMessage_valid h.sendable
  have hjson := h.object.ne_nil
  obtain ⟨htext, hzero, -⟩ := (isValidInput_iff text).mp h.valid
  have hmark : ¬ replyEndMarker <:+: replyStartMarker ++ sentReply cloudCustomData text :=
    mt h.object.mark_iff.mp h.mark
  cases fragments with
  | nil =>
    have hempty := hfragments.joined
    rw [message_split hjson] at hempty
    cases (List.append_eq_nil_iff.mp hempty.symm).2
  | cons first later =>
    have hroom := h.room
    have hsplit := hfragments
    rw [message_split hjson] at hroom hsplit
    rw [length_with_newline] at hroom
    have hlong := (room_iff hsplit htext).mpr hroom
    have hjoined := hsplit.joined
    rw [List.flatten_cons] at hjoined
    obtain ⟨front, hfirst, hfront, hlater⟩ := first_split hjoined hlong
    rw [← message_split hjson] at hfirst
    have hstart : front.dropWhile isLineEnd = front := by
      rw [text_kept_iff]
      have hhead := h.start
      cases front with
      | nil => exact absurd rfl hfront
      | cons c front =>
        rw [hlater] at hhead
        exact hhead
    have hclean : cString front = front := by
      rw [cString_eq_iff]
      rw [hlater] at hzero
      exact fun hmem => hzero (List.mem_append_left _ hmem)
    have hparse := parsed_reply hjson hmark front
    rw [← hfirst, hstart] at hparse
    have hreply : hasJson (parseMessageWithReply first) = true := by
      rw [hparse, hasJson, Bool.and_eq_true, Bool.not_eq_true', List.isEmpty_eq_false_iff]
      exact ⟨rfl, hjson⟩
    obtain ⟨hmerger, hplain⟩ := h.undisturbed first later hsome
    have hshown := shown_reply hmerger hreply
    rw [hparse] at hshown
    dsimp only at hshown
    rw [hclean] at hshown
    refine ⟨front, sentReply cloudCustomData text, later, ?_, h.object, hfront, hlater.symm⟩
    rw [received_of_normal cloudCustomData h.valid h.normal, hsome, Option.map_some, List.map_cons,
      hshown, fragments_plain hplain]

/-- What is left behind a line feed alone is no text. -/
theorem long_of_text {front text first : Bytes} {later : List Bytes}
    (hjoined : first ++ later.flatten = front ++ newline :: text) (hin : front.length ≤ first.length)
    (hshown : (first.drop front.length).dropWhile isLineEnd ≠ []) : front.length + 1 < first.length := by
  have hrest : first.drop front.length ++ later.flatten = newline :: text := by
    rw [← List.drop_append_of_le_length hin, hjoined, List.drop_left]
  have hlength : (first.drop front.length).length = first.length - front.length := List.length_drop
  by_contra hshort
  cases hdrop : first.drop front.length with
  | nil =>
    rw [hdrop] at hshown
    exact hshown rfl
  | cons c rest =>
    rw [hdrop] at hrest hlength hshown
    rw [List.length_cons] at hlength
    have hnil : rest = [] := List.length_eq_zero_iff.mp (by omega)
    rw [hnil] at hrest hshown
    injection hrest with hc _
    rw [hc] at hshown
    exact hshown rfl

theorem take_drop_append {first : Bytes} {a b : ℕ} (h : a + b ≤ first.length) (later : Bytes) :
    ((first ++ later).drop a).take b = (first.drop a).take b := by
  have hlength : (first.drop a).length = first.length - a := List.length_drop
  rw [List.drop_append_of_le_length (by omega), List.take_append_of_le_length (by omega)]

theorem fits_of_reply {cloudCustomData text messageID : Bytes}
    (h : ReplyArrives cloudCustomData text messageID) :
    ReplyFits cloudCustomData text messageID := by
  obtain ⟨shown, replyJson, texts, hreceived, hobject, hshown, hjoined⟩ := h
  obtain ⟨hvalid, hnormal, first, later, hsome, hfirst, hlater⟩ := normal_of_received hreceived
  obtain ⟨rfl, hplain⟩ := plain_fragments hlater
  obtain ⟨hsendable, hfragments⟩ := fragments_of_some hsome
  obtain ⟨hmerger, hreply, hshownEq, hdata⟩ := reply_shown hfirst (reference_ne_nil hobject.ne_nil)
  obtain rfl := reference_injective hobject.ne_nil hdata
  obtain ⟨startPos, endPos, hstart, hend, hbefore, hparse⟩ :=
    parseBetween_marks (json_of_hasJson hreply).1
  change parseMessageWithReply first = _ at hparse
  have htext := ((isValidInput_iff text).mp hvalid).1
  have hbody := hfragments.joined
  rw [List.flatten_cons] at hbody
  -- no zero byte cuts the text off
  have hclean : cString (parseMessageWithReply first).text = (parseMessageWithReply first).text := by
    have hzero := ((isValidInput_iff _).mp hsendable).2.1
    rw [cString_eq_iff, hparse]
    intro hmem
    apply hzero
    rw [← hbody]
    exact List.mem_append_left _
      (List.mem_of_mem_drop ((List.dropWhile_sublist isLineEnd).subset hmem))
  rw [hclean, hparse] at hshownEq
  dsimp only at hshownEq
  have hin : endPos + replyEndMarker.length ≤ first.length := by
    obtain ⟨hle, hmark⟩ := find_some hend
    have hlength := hmark.length_le
    rw [List.length_drop] at hlength
    omega
  have hrest : text = ((buildMessageWithReply (sentReply cloudCustomData text) text).drop
      (endPos + replyEndMarker.length)).dropWhile isLineEnd := by
    rw [← hbody, List.drop_append_of_le_length hin, ← dropWhile_append, ← hshownEq, hjoined]
    rw [← hshownEq]
    exact hshown
  have hendBody := find_extend hend texts.flatten
  rw [hbody] at hendBody
  have hjson : sentReply cloudCustomData text ≠ [] := by
    intro hnil
    rw [hnil] at hrest
    have hlength := (List.dropWhile_sublist (l := text.drop (endPos + replyEndMarker.length))
      isLineEnd).length_le
    have hmark : 0 < replyEndMarker.length := by decide
    have hpos := List.length_pos_iff.mpr htext
    change text = (text.drop (endPos + replyEndMarker.length)).dropWhile isLineEnd at hrest
    rw [← hrest, List.length_drop] at hlength
    omega
  have hmark : ¬ replyEndMarker <:+: replyStartMarker ++ sentReply cloudCustomData text := by
    intro hearly
    rw [message_eq hjson, replyEndMarker_eq] at hendBody hrest
    rw [replyEndMarker_eq] at hearly
    obtain ⟨n, hfound, hn⟩ := marked_early text hearly
    obtain rfl := Option.some.inj (hendBody.symm.trans hfound)
    have hlong := length_after_early text (by decide) hn
    apply Nat.ne_of_lt hlong
    exact congrArg List.length hrest
  have hplace : endPos = (replyStartMarker ++ sentReply cloudCustomData text).length := by
    rw [message_eq hjson, replyEndMarker_eq] at hendBody
    rw [replyEndMarker_eq] at hmark
    have hfound := marked_end text (by decide) hmark
    exact Option.some.inj (hendBody.symm.trans hfound)
  have hfront : endPos + replyEndMarker.length =
      (replyStartMarker ++ sentReply cloudCustomData text ++ replyEndMarker).length := by
    rw [hplace]
    exact List.length_append.symm
  have hsplit := hfragments
  rw [message_split hjson] at hsplit hbody hrest
  rw [hfront, List.drop_left, List.dropWhile_cons_of_pos (by decide)] at hrest
  have hlong : (replyStartMarker ++ sentReply cloudCustomData text ++ replyEndMarker).length + 1 <
      first.length := by
    apply long_of_text hbody
    · rw [← hfront]
      exact hin
    · rw [← hfront, ← hshownEq]
      exact hshown
  have hjsonEq : (parseMessageWithReply first).json = sentReply cloudCustomData text := by
    have hwhole : replyStartMarker <+: first ++ texts.flatten := by
      rw [hbody, List.append_assoc, List.append_assoc]
      exact List.prefix_append _ _
    have hhere : replyStartMarker <+: first := by
      apply List.prefix_of_prefix_length_le hwhole (List.prefix_append _ _)
      rw [List.length_append, List.length_append] at hlong
      omega
    obtain rfl := Option.some.inj (hstart.symm.trans (find_here hhere))
    have hlength : 0 + replyStartMarker.length + (endPos - (0 + replyStartMarker.length)) ≤
        first.length := by
      rw [hplace, List.length_append]
      rw [List.length_append, List.length_append] at hlong
      omega
    rw [hparse]
    dsimp only
    rw [← take_drop_append hlength texts.flatten, hbody, ← message_split hjson, message_eq hjson, hplace]
    exact json_marked
  constructor
  case valid => exact hvalid
  case normal => exact hnormal
  case object =>
    rw [← hjsonEq]
    exact hobject
  case sendable => exact hsendable
  case mark =>
    intro hin
    exact hmark (hin.trans (List.suffix_append _ _).isInfix)
  case start => exact (text_kept_iff text).mp hrest.symm
  case room =>
    rw [message_split hjson, length_with_newline]
    exact (room_iff hsplit htext).mp hlong
  case undisturbed =>
    intro first' later' hfragments'
    obtain ⟨rfl, rfl⟩ := List.cons_eq_cons.mp (Option.some.inj (hsome.symm.trans hfragments'))
    exact ⟨hmerger, hplain⟩

/-! ## Replies and plain texts -/

end Tim2Tox.ReplyMessages
