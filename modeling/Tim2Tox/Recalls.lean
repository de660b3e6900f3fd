import Tim2Tox.ChatHistory
import Tim2Tox.ConversationIds

set_option autoImplicit false

/-!
# Recalled messages

A recall names a text by its length and a beginning of it. The receiver looks among its latest rows for the
one that is meant, and deletes nothing where none or several could be.
-/
namespace Tim2Tox.Recalls
open ChatHistory ConversationIds DartText

/-- The payload of a `__revoke__:` text, as far as it is read. -/
structure Recall where
  msgID : Option String
  senderTimestampMs : Option ℤ
  textPrefix : Option Units
  textLen : Option ℤ

/-- The beginning and the length of the text, if the sender gives both. -/
def Recall.contentKey (parsed : Recall) : Option (Units × ℤ) :=
  parsed.textPrefix.bind fun textPrefix => parsed.textLen.map (textPrefix, ·)

/-! ## The sender -/

/-- The loop of `revokeMessage`; `size` is the length of the payload with a prefix. -/
def cutPrefix (size : Units → ℕ) (textPrefix : Units) : Units :=
  if h : textPrefix ≠ [] ∧ 1100 < size textPrefix then
    cutPrefix size (textPrefix.take (textPrefix.length * 3 / 4))
  else textPrefix
termination_by textPrefix.length
decreasing_by
  have hpos := List.length_pos_iff.mpr h.1
  rw [List.length_take]
  omega

/-- What goes out for a message that was found, if it is not too old. -/
def revokeMessage (size : Units → ℕ) (nowSeconds : ℤ) (msgID : String) (timestamp : Option ℤ) (text : Units) :
    Option Recall :=
  let tsSeconds := timestamp.getD 0
  if msgID = "" ∨ (0 < tsSeconds ∧ 120 < nowSeconds - tsSeconds) then none
  else some {
    msgID
    senderTimestampMs := some (tsSeconds * 1000)
    textPrefix := some (cutPrefix size text)
    textLen := some text.length }

/-! ## The receiver -/

def isSameSender (senderUid : Units) (m : ChatMessage) : Bool := normalize (ofString m.fromUserId) = senderUid

/-- A row of the sender with an id and a text that is no control signal. -/
def isCandidate (senderUid : Units) (m : ChatMessage) : Bool :=
  isSameSender senderUid m && m.msgID.isSome && m.text ≠ "" && !(ofString "__").isPrefixOf (ofString m.text)

def hasContent (key : Units × ℤ) (m : ChatMessage) : Bool :=
  (ofString m.text).length = key.2 && key.1.isPrefixOf (ofString m.text)

def delta (senderTimestampMs : ℤ) (m : ChatMessage) : ℤ := (m.millis - senderTimestampMs).natAbs

def isCloser (strictly : Bool) (a b : ℤ) : Bool := if strictly then a < b else a ≤ b

/-- The loops over the rows for the closest one in time. -/
def closest (strictly : Bool) (senderTimestampMs bestDelta : ℤ) (rows : List ChatMessage) :
    Option ChatMessage :=
  (rows.foldl (fun best m => if isCloser strictly (delta senderTimestampMs m) best.2
    then (some m, delta senderTimestampMs m) else best) (none, bestDelta)).1

def resolveRevokeTarget (recent : List ChatMessage) (senderUid : Units) (parsed : Recall) : Option ChatMessage :=
  match parsed.contentKey with
  | some key =>
    match recent.filter fun m => isCandidate senderUid m && hasContent key m with
    | [m] => some m
    | found => parsed.senderTimestampMs.bind (closest true · 2000 found)
  | none => parsed.senderTimestampMs.bind (closest false · 5000 (recent.filter (isCandidate senderUid)))

def recentRows (history : List ChatMessage) : List ChatMessage := history.reverse.take 100

/-- The row of the conversation that the sender wrote and the id names. -/
def legacyTarget (history : List ChatMessage) (senderUid : Units) (msgID : String) : Option String :=
  match history.filter fun m => idMatches m msgID && isSameSender senderUid m with
  | [m] => m.msgID
  | _ => none

/-- The id that `_maybeInterceptControlSignal` deletes for a recall; a payload that cannot be read deletes
    nothing. -/
def maybeInterceptControlSignal (history : List ChatMessage) (isSelf : Bool) (fromUserId : String)
    (payload : Option Recall) : Option String :=
  payload.bind fun parsed =>
    let senderUid := normalize (ofString fromUserId)
    Option.filter (· ≠ "") <|
      if isSelf then parsed.msgID
      else match resolveRevokeTarget (recentRows history) senderUid parsed with
        | some best => best.msgID
        | none =>
          if parsed.contentKey.isSome then none
          else (parsed.msgID.filter (· ≠ "")).bind (legacyTarget history senderUid)

/-! ## What is cut -/

theorem cutPrefix_fits (size : Units → ℕ) (text : Units) :
    cutPrefix size text <+: text ∧ (cutPrefix size text = [] ∨ size (cutPrefix size text) ≤ 1100) := by
  induction text using cutPrefix.induct size with
  | case1 text hlong ih =>
    rw [cutPrefix, dif_pos hlong]
    exact ⟨ih.1.trans (List.take_prefix _ _), ih.2⟩
  | case2 text hdone =>
    rw [cutPrefix, dif_neg hdone]
    refine ⟨List.prefix_refl _, ?_⟩
    by_cases hempty : text = []
    · exact .inl hempty
    · exact .inr (Nat.le_of_not_lt fun hlong => hdone ⟨hempty, hlong⟩)

/-! ## The closest row -/

theorem isCloser_true {a b : ℤ} : isCloser true a b = true ↔ a < b := decide_eq_true_iff

theorem isCloser_false {a b : ℤ} : isCloser false a b = true ↔ a ≤ b := decide_eq_true_iff

theorem le_of_isCloser {strictly : Bool} {a b : ℤ} (h : isCloser strictly a b = true) : a ≤ b := by
  cases strictly with
  | false => exact isCloser_false.mp h
  | true => exact (isCloser_true.mp h).le

theorem le_of_not_isCloser {strictly : Bool} {a b : ℤ} (h : ¬ isCloser strictly a b = true) : b ≤ a := by
  cases strictly with
  | false => exact (Int.not_le.mp fun hle => h (isCloser_false.mpr hle)).le
  | true => exact Int.not_lt.mp fun hlt => h (isCloser_true.mpr hlt)

theorem isCloser_trans {strictly : Bool} {a b c : ℤ} (hab : isCloser strictly a b = true)
    (hbc : isCloser strictly b c = true) : isCloser strictly a c = true := by
  cases strictly with
  | false => exact isCloser_false.mpr ((isCloser_false.mp hab).trans (isCloser_false.mp hbc))
  | true => exact isCloser_true.mpr ((isCloser_true.mp hab).trans (isCloser_true.mp hbc))

/-- The loop goes from the best so far to the best of all. -/
theorem closest_fold (strictly : Bool) (ts : ℤ) (rows : List ChatMessage) : ∀ first best : Option ChatMessage × ℤ,
    best = rows.foldl (fun best m => if isCloser strictly (delta ts m) best.2
      then (some m, delta ts m) else best) first →
    best.2 ≤ first.2 ∧ (∀ other ∈ rows, best.2 ≤ delta ts other) ∧
      (best = first ∨ ∃ m ∈ rows, best = (some m, delta ts m) ∧ isCloser strictly (delta ts m) first.2 = true) := by
  induction rows with
  | nil =>
    rintro first best rfl
    exact ⟨Int.le_refl _, fun _ hin => absurd hin List.not_mem_nil, .inl rfl⟩
  | cons m rows ih =>
    intro first best h
    rw [List.foldl_cons] at h
    obtain ⟨hle, hall, hwhich⟩ := ih _ best h
    split_ifs at hle hwhich with hcloser
    · refine ⟨hle.trans (le_of_isCloser hcloser), List.forall_mem_cons.mpr ⟨hle, hall⟩, .inr ?_⟩
      rcases hwhich with heq | ⟨m', hm', heq, hcloser'⟩
      · exact ⟨m, List.mem_cons_self, heq, hcloser⟩
      · exact ⟨m', List.mem_cons_of_mem _ hm', heq, isCloser_trans hcloser' hcloser⟩
    · refine ⟨hle, List.forall_mem_cons.mpr ⟨hle.trans (le_of_not_isCloser hcloser), hall⟩, ?_⟩
      exact hwhich.imp_right fun ⟨m', hm', hrest⟩ => ⟨m', List.mem_cons_of_mem _ hm', hrest⟩

theorem closest_spec {strictly : Bool} {ts bestDelta : ℤ} {rows : List ChatMessage} {m : ChatMessage}
    (h : closest strictly ts bestDelta rows = some m) :
    m ∈ rows ∧ isCloser strictly (delta ts m) bestDelta = true ∧ ∀ other ∈ rows, delta ts m ≤ delta ts other := by
  obtain ⟨-, hall, heq | ⟨m', hm', heq, hcloser⟩⟩ := closest_fold strictly ts rows (none, bestDelta) _ rfl
  · rw [closest, heq] at h
    contradiction
  · rw [closest, heq] at h
    obtain rfl := Option.some.inj h
    rw [heq] at hall
    exact ⟨hm', hcloser, hall⟩

/-! ## What is deleted -/

/-- The row is what the recall by the sender means: with a text, the only one among the latest rows that has
    it, or of those the closest in time, by less than two seconds; without, the closest one within five, or the
    only one with the id. -/
def Meant (history : List ChatMessage) (senderUid : Units) (parsed : Recall) (m : ChatMessage) : Prop :=
  match parsed.contentKey with
  | some key =>
    let found := (recentRows history).filter fun m => isCandidate senderUid m && hasContent key m
    found = [m] ∨ m ∈ found ∧ ∃ ts, parsed.senderTimestampMs = some ts ∧ delta ts m < 2000 ∧
      ∀ other ∈ found, delta ts m ≤ delta ts other
  | none =>
    let found := (recentRows history).filter (isCandidate senderUid)
    (m ∈ found ∧ ∃ ts, parsed.senderTimestampMs = some ts ∧ delta ts m ≤ 5000 ∧
      ∀ other ∈ found, delta ts m ≤ delta ts other) ∨
    ∃ id, parsed.msgID = some id ∧ (history.filter fun m => idMatches m id && isSameSender senderUid m) = [m]

theorem resolve_meant {history : List ChatMessage} {senderUid : Units} {parsed : Recall} {m : ChatMessage}
    (h : resolveRevokeTarget (recentRows history) senderUid parsed = some m) : Meant history senderUid parsed m := by
  unfold resolveRevokeTarget at h
  unfold Meant
  cases hkey : parsed.contentKey with
  | none =>
    rw [hkey] at h
    obtain ⟨ts, hts, hclosest⟩ := Option.bind_eq_some_iff.mp h
    obtain ⟨hm, hcloser, hall⟩ := closest_spec hclosest
    exact .inl ⟨hm, ts, hts, isCloser_false.mp hcloser, hall⟩
  | some key =>
    rw [hkey] at h
    dsimp only at h ⊢
    split at h
    · obtain rfl := Option.some.inj h
      exact .inl ‹_›
    · obtain ⟨ts, hts, hclosest⟩ := Option.bind_eq_some_iff.mp h
      obtain ⟨hm, hcloser, hall⟩ := closest_spec hclosest
      exact .inr ⟨hm, ts, hts, isCloser_true.mp hcloser, hall⟩

/-- A text that only one row has names it. -/
theorem resolve_only {recent : List ChatMessage} {senderUid : Units} {parsed : Recall} {key : Units × ℤ}
    {m : ChatMessage} (hkey : parsed.contentKey = some key)
    (hfound : (recent.filter fun other => isCandidate senderUid other && hasContent key other) = [m]) :
    resolveRevokeTarget recent senderUid parsed = some m := by
  unfold resolveRevokeTarget
  rw [hkey]
  dsimp only
  rw [hfound]

theorem own_of_candidate {history : List ChatMessage} {senderUid : Units} {m : ChatMessage}
    (hin : m ∈ recentRows history) (h : isCandidate senderUid m = true) :
    m ∈ history ∧ isSameSender senderUid m = true := by
  refine ⟨List.mem_reverse.mp (List.mem_of_mem_take hin), ?_⟩
  unfold isCandidate at h
  simp only [Bool.and_eq_true] at h
  exact h.1.1.1

/-- The sender of a recall wrote the row that it means. -/
theorem Meant.own {history : List ChatMessage} {senderUid : Units} {parsed : Recall} {m : ChatMessage}
    (h : Meant history senderUid parsed m) : m ∈ history ∧ isSameSender senderUid m = true := by
  unfold Meant at h
  cases hkey : parsed.contentKey with
  | none =>
    rw [hkey] at h
    rcases h with ⟨hm, -⟩ | ⟨id, -, hfound⟩
    · exact own_of_candidate (List.mem_filter.mp hm).1 (List.mem_filter.mp hm).2
    · have hm := List.mem_filter.mp (hfound.symm ▸ List.mem_singleton_self m)
      exact ⟨hm.1, (Bool.and_eq_true_iff.mp hm.2).2⟩
  | some key =>
    rw [hkey] at h
    have hm : m ∈ (recentRows history).filter fun m => isCandidate senderUid m && hasContent key m := by
      rcases h with hfound | ⟨hm, -⟩
      · exact hfound.symm ▸ List.mem_singleton_self m
      · exact hm
    exact own_of_candidate (List.mem_filter.mp hm).1 (Bool.and_eq_true_iff.mp (List.mem_filter.mp hm).2).1

theorem legacyTarget_some {history : List ChatMessage} {senderUid : Units} {msgID id : String}
    (h : legacyTarget history senderUid msgID = some id) :
    ∃ m, (history.filter fun m => idMatches m msgID && isSameSender senderUid m) = [m] ∧ m.msgID = some id := by
  unfold legacyTarget at h
  split at h
  · exact ⟨_, ‹_›, h⟩
  · contradiction

theorem filter_eq_singleton {l : List ChatMessage} {p : ChatMessage → Bool} {m : ChatMessage} (hp : p m = true)
    (hcount : l.count m = 1) (hall : ∀ other ∈ l, p other = true → other = m) : l.filter p = [m] := by
  have hsame : l.filter p = List.replicate (l.filter p).length m :=
    List.eq_replicate_of_mem fun other hother =>
      hall other (List.mem_filter.mp hother).1 (List.mem_filter.mp hother).2
  have hlength : (l.filter p).length = 1 := by
    rw [← hcount, ← List.count_filter hp, hsame, List.count_replicate_self, List.length_replicate]
  rw [hsame, hlength]
  rfl

/-- The id that a recall deletes is of a row that its sender wrote in the conversation and that it means. And the
    recall of a text finds the row of the text, however late it comes, if the row is among the latest and no
    other of them by the sender begins as the recall says and is as long. -/
theorem recalls_delete_what_is_meant (size : Units → ℕ) :
    (∀ history fromUserId payload id, maybeInterceptControlSignal history false fromUserId payload = some id →
      ∃ parsed m, payload = some parsed ∧ m ∈ history ∧ m.msgID = some id ∧
        isSameSender (normalize (ofString fromUserId)) m = true ∧
        Meant history (normalize (ofString fromUserId)) parsed m) ∧
    ∀ now sentID timestamp history fromUserId m id parsed,
      revokeMessage size now sentID timestamp (ofString m.text) = some parsed →
      m ∈ recentRows history → m.msgID = some id → id ≠ "" →
      isCandidate (normalize (ofString fromUserId)) m = true → (recentRows history).count m = 1 →
      (∀ other ∈ recentRows history, isCandidate (normalize (ofString fromUserId)) other = true →
        (ofString other.text).length = (ofString m.text).length →
        cutPrefix size (ofString m.text) <+: ofString other.text → other = m) →
      maybeInterceptControlSignal history false fromUserId (some parsed) = some id := by
  refine ⟨fun history fromUserId payload id h => ?_, fun now sentID timestamp history fromUserId m id parsed hsent
    hrecent hid hne hcandidate hcount honly => ?_⟩
  · obtain ⟨parsed, rfl, hparsed⟩ := Option.bind_eq_some_iff.mp h
    have htarget := (Option.filter_eq_some_iff.mp hparsed).1
    rw [if_neg Bool.false_ne_true] at htarget
    refine ⟨parsed, ?_⟩
    have hrow : ∃ m, m.msgID = some id ∧ Meant history (normalize (ofString fromUserId)) parsed m := by
      cases hbest : resolveRevokeTarget (recentRows history) (normalize (ofString fromUserId)) parsed with
      | some m =>
        rw [hbest] at htarget
        exact ⟨m, htarget, resolve_meant hbest⟩
      | none =>
        rw [hbest] at htarget
        dsimp only at htarget
        split_ifs at htarget with hkey
        obtain ⟨msgID, hmsgID, hlegacy⟩ := Option.bind_eq_some_iff.mp htarget
        obtain ⟨m, hfound, hid⟩ := legacyTarget_some hlegacy
        refine ⟨m, hid, ?_⟩
        unfold Meant
        rw [Option.not_isSome_iff_eq_none.mp hkey]
        exact .inr ⟨msgID, (Option.filter_eq_some_iff.mp hmsgID).1, hfound⟩
    obtain ⟨m, hid, hmeant⟩ := hrow
    exact ⟨m, rfl, hmeant.own.1, hid, hmeant.own.2, hmeant⟩
  · unfold revokeMessage at hsent
    dsimp only at hsent
    split_ifs at hsent
    obtain rfl := Option.some.inj hsent
    have hfound : ((recentRows history).filter fun other => isCandidate (normalize (ofString fromUserId)) other &&
        hasContent (cutPrefix size (ofString m.text), (ofString m.text).length) other) = [m] := by
      refine filter_eq_singleton ?_ hcount fun other hother hboth => ?_
      · rw [hcandidate, Bool.true_and, hasContent, decide_eq_true rfl, Bool.true_and, List.isPrefixOf_iff_prefix]
        exact (cutPrefix_fits size _).1
      · obtain ⟨hfits, hcontent⟩ := Bool.and_eq_true_iff.mp hboth
        obtain ⟨hlength, hprefix⟩ := Bool.and_eq_true_iff.mp hcontent
        exact honly other hother hfits (Int.ofNat.inj (of_decide_eq_true hlength))
          (List.isPrefixOf_iff_prefix.mp hprefix)
    unfold maybeInterceptControlSignal
    rw [Option.bind_some]
    dsimp only
    rw [if_neg Bool.false_ne_true, resolve_only rfl hfound]
    dsimp only
    rw [hid, Option.filter_some, if_pos (decide_eq_true hne)]

example : maybeInterceptControlSignal
    [{ text := "see you", fromUserId := "eve", isSelf := false, timestamp := 5000, msgID := some "a" },
      { text := "see you", fromUserId := "bob", isSelf := false, timestamp := 6000, msgID := some "b" }]
    false "bob" (some ⟨some "x", some 86400000, some (ofString "see"), some 7⟩) = some "b" := by decide

end Tim2Tox.Recalls
