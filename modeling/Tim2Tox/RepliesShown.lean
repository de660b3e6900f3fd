import Tim2Tox.ReplyMessages
import Tim2Tox.MarkedMessages
import Tim2Tox.MergerJson

set_option autoImplicit false

/-!
# What is shown of replies

What the receiver of a reply is to show, in terms of JSON objects, and when it does.
-/
namespace Tim2Tox.ReplyMessages
open MergerMessages StorageNames TextSearch QToxMessageFragmenter

/-! ## JSON objects -/

def Blank (text : Bytes) : Prop := ∀ c ∈ text, c ∈ [space, tab, newline, carriageReturn]

def isDigit (c : UInt8) : Bool := 48 ≤ c && c ≤ 57

def isHexDigit (c : UInt8) : Bool := isDigit c || (97 ≤ c && c ≤ 102) || (65 ≤ c && c ≤ 70)

/-- What stands between the quotes of a string. -/
inductive StringBody : Bytes → Prop where
  | nil : StringBody []
  | plain {c : UInt8} {text : Bytes} : 32 ≤ c → c ≠ quote → c ≠ backslash → StringBody text →
      StringBody (c :: text)
  | escape {e : UInt8} {text : Bytes} : e ∈ ascii "\"\\/bfnrt" → StringBody text →
      StringBody (backslash :: e :: text)
  | unicode {digits text : Bytes} : digits.length = 4 → digits.all isHexDigit = true →
      StringBody text → StringBody (backslash :: 117 :: digits ++ text)

def Digits (text : Bytes) : Prop := text ≠ [] ∧ text.all isDigit = true

structure Number (sign whole fraction exponent : Bytes) : Prop where
  signed : sign ∈ [[], ascii "-"]
  no_leading_zero : whole = ascii "0" ∨ (Digits whole ∧ whole.head? ≠ some 48)
  decimals : fraction = [] ∨ ∃ digits, fraction = ascii "." ++ digits ∧ Digits digits
  power : exponent = [] ∨ ∃ e ∈ [ascii "e", ascii "E"], ∃ s ∈ [[], ascii "+", ascii "-"],
    ∃ digits, exponent = e ++ s ++ digits ∧ Digits digits

mutual

inductive Value : Bytes → Prop where
  | string {body : Bytes} : StringBody body → Value (quote :: body ++ [quote])
  | number {sign whole fraction exponent : Bytes} : Number sign whole fraction exponent →
      Value (sign ++ whole ++ fraction ++ exponent)
  | word {text : Bytes} : text ∈ [ascii "true", ascii "false", ascii "null"] → Value text
  | noElements {blank : Bytes} : Blank blank → Value (openBracket :: blank ++ [closeBracket])
  | array {text : Bytes} : Elements text → Value (openBracket :: text ++ [closeBracket])
  | noMembers {blank : Bytes} : Blank blank → Value (openBrace :: blank ++ [closeBrace])
  | object {text : Bytes} {members : List (Bytes × Bytes)} : Members text members →
      Value (openBrace :: text ++ [closeBrace])

inductive Elements : Bytes → Prop where
  | last {before value behind : Bytes} : Blank before → Value value → Blank behind →
      Elements (before ++ value ++ behind)
  | more {before value behind rest : Bytes} : Blank before → Value value → Blank behind →
      Elements rest → Elements (before ++ value ++ behind ++ comma :: rest)

/-- A name as it is written, the colon and the value. -/
inductive Member : Bytes → Bytes × Bytes → Prop where
  | mk {before name behind front value last : Bytes} : Blank before → StringBody name →
      Blank behind → Blank front → Value value → Blank last →
      Member (before ++ quoted name ++ behind ++ colon :: (front ++ value ++ last)) (name, value)

inductive Members : Bytes → List (Bytes × Bytes) → Prop where
  | last {text : Bytes} {member : Bytes × Bytes} : Member text member → Members text [member]
  | more {text rest : Bytes} {member : Bytes × Bytes} {members : List (Bytes × Bytes)} :
      Member text member → Members rest members →
      Members (text ++ comma :: rest) (member :: members)

end

/-- The JSON of an object with one message id, which is written like this. -/
def ReplyObject (replyJson messageID : Bytes) : Prop :=
  ∃ text members, replyJson = openBrace :: text ++ [closeBrace] ∧ Members text members ∧
    StringBody messageID ∧ members.filter (fun member => member.1 = ascii "messageID") =
      [(ascii "messageID", quoted messageID)]

/-- Custom data with a reply object, as `MessageReplyUtil` documents it. -/
def underKey (key blank replyJson : Bytes) : Bytes :=
  openBrace :: quoted key ++ colon :: (blank ++ replyJson ++ [closeBrace])

def Carried (cloudCustomData replyJson : Bytes) : Prop :=
  ∃ blank : Bytes, blank.all MergerMessages.isBlank = true ∧
    (cloudCustomData = underKey (ascii "messageReference") blank replyJson ∨
      cloudCustomData = underKey (ascii "messageReply") blank replyJson)

/-! ## What is to be shown -/

/-- The first text has a reference with the message id, the others are plain. -/
def ReplyArrives (cloudCustomData text messageID : Bytes) : Prop :=
  ∃ (first replyJson : Bytes) (later : List Bytes),
    received text cloudCustomData = some (.text first (buildCloudCustomDataFromReplyJson replyJson) ::
      later.map fun text => .text text []) ∧
    ReplyObject replyJson messageID ∧ first ≠ [] ∧ first ++ later.flatten = text

def PlainArrives (cloudCustomData text : Bytes) : Prop :=
  ∃ texts : List Bytes, received text cloudCustomData = some (texts.map fun text => .text text []) ∧
    texts.flatten = text

/-! ## When it is shown -/

/-- The first start mark is somewhere before the first end mark, with something between them. -/
def hasJson (parsed : Parsed) : Bool := parsed.hasMarks && !parsed.json.isEmpty

structure Undisturbed (message : Bytes) : Prop where
  merger : hasJson (parseMessageWithMerger message) = false
  reply : hasJson (parseMessageWithReply message) = false

/-- The JSON that goes out in front of the text. -/
def sentReply (cloudCustomData text : Bytes) : Bytes :=
  shortenedReply (extractReplyJsonFromCloudCustomData cloudCustomData) text

structure PlainFits (text : Bytes) : Prop where
  valid : isValidInput text = true
  normal : hasMePrefix text = false
  undisturbed : ∀ fragments, fragmentMessage text = some fragments →
    ∀ fragment ∈ fragments, Undisturbed fragment

structure ReplyFits (cloudCustomData text messageID : Bytes) : Prop where
  valid : isValidInput text = true
  normal : hasMePrefix text = false
  object : ReplyObject (sentReply cloudCustomData text) messageID
  sendable : isValidInput (buildMessageWithReply (sentReply cloudCustomData text) text) = true
  mark : ¬ replyEndMarker <:+: sentReply cloudCustomData text
  start : ∀ c ∈ text.head?, isLineEnd c = false
  /-- The last line feed in the budget of the first fragment is not the one behind the mark. -/
  room : (buildMessageWithReply (sentReply cloudCustomData text) text).length ≤ kMessagePayloadLimit ∨
    newline ∈ text.take (kMessagePayloadLimit -
      (replyStartMarker ++ sentReply cloudCustomData text ++ replyEndMarker ++ [newline]).length)
  undisturbed : ∀ first later,
    fragmentMessage (buildMessageWithReply (sentReply cloudCustomData text) text) =
      some (first :: later) →
    hasJson (parseMessageWithMerger first) = false ∧ ∀ fragment ∈ later, Undisturbed fragment

/-! ## How a fragment is read -/

theorem handleFriendMessage_normal (message : Bytes) :
    ∃ title abstractList, handleFriendMessage .normal message =
      if hasJson (parseMessageWithMerger message) then .merger title abstractList
      else if hasJson (parseMessageWithReply message) then
        .text (cString (parseMessageWithReply message).text)
          (buildCloudCustomDataFromReplyJson (parseMessageWithReply message).json)
      else .text message [] :=
  ⟨_, _, rfl⟩

theorem shown_plain {message : Bytes} (h : Undisturbed message) :
    handleFriendMessage .normal message = .text message [] := by
  obtain ⟨title, abstractList, heq⟩ := handleFriendMessage_normal message
  rw [heq, h.merger, h.reply]
  rfl

theorem shown_reply {message : Bytes} (hmerger : hasJson (parseMessageWithMerger message) = false)
    (hreply : hasJson (parseMessageWithReply message) = true) :
    handleFriendMessage .normal message = .text (cString (parseMessageWithReply message).text)
      (buildCloudCustomDataFromReplyJson (parseMessageWithReply message).json) := by
  obtain ⟨title, abstractList, heq⟩ := handleFriendMessage_normal message
  rw [heq, hmerger, hreply]
  rfl

theorem reference_ne_nil {replyJson : Bytes} (h : replyJson ≠ []) :
    buildCloudCustomDataFromReplyJson replyJson ≠ [] := by
  rw [buildCloudCustomDataFromReplyJson, if_neg h]
  exact List.cons_ne_nil _ _

theorem json_of_hasJson {parsed : Parsed} (h : hasJson parsed = true) :
    parsed.hasMarks = true ∧ parsed.json ≠ [] := by
  rw [hasJson, Bool.and_eq_true, Bool.not_eq_true', List.isEmpty_eq_false_iff] at h
  exact h

theorem plain_shown {message text : Bytes}
    (h : handleFriendMessage .normal message = .text text []) :
    Undisturbed message ∧ text = message := by
  obtain ⟨title, abstractList, heq⟩ := handleFriendMessage_normal message
  rw [heq] at h
  split_ifs at h with hmerger hreply
  · injection h with htext hdata
    exact absurd hdata (reference_ne_nil (json_of_hasJson hreply).2)
  · injection h with htext hdata
    rw [Bool.not_eq_true] at hmerger hreply
    exact ⟨⟨hmerger, hreply⟩, htext.symm⟩

theorem reply_shown {message text data : Bytes}
    (h : handleFriendMessage .normal message = .text text data) (hdata : data ≠ []) :
    hasJson (parseMessageWithMerger message) = false ∧
      hasJson (parseMessageWithReply message) = true ∧
      text = cString (parseMessageWithReply message).text ∧
      data = buildCloudCustomDataFromReplyJson (parseMessageWithReply message).json := by
  obtain ⟨title, abstractList, heq⟩ := handleFriendMessage_normal message
  rw [heq] at h
  split_ifs at h with hmerger hreply
  · injection h with htext hjson
    rw [Bool.not_eq_true] at hmerger
    exact ⟨hmerger, hreply, htext.symm, hjson.symm⟩
  · injection h with htext hjson
    exact absurd hjson.symm hdata

theorem reference_injective {replyJson other : Bytes} (h : replyJson ≠ [])
    (heq : buildCloudCustomDataFromReplyJson replyJson = buildCloudCustomDataFromReplyJson other) :
    replyJson = other := by
  by_cases hother : other = []
  · rw [hother] at heq
    exact absurd heq (reference_ne_nil h)
  · rw [buildCloudCustomDataFromReplyJson, buildCloudCustomDataFromReplyJson, if_neg h,
      if_neg hother] at heq
    exact List.append_cancel_left (List.append_cancel_right heq)

/-! ## What is sent -/

theorem prepared_iff {text : Bytes} {prepared : PreparedTextMessage} :
    prepareTextMessage text false = some prepared ∧ prepared.type = .normal ↔
      isValidInput text = true ∧ hasMePrefix text = false ∧ prepared = ⟨.normal, text⟩ := by
  unfold prepareTextMessage
  constructor
  · rintro ⟨hprepared, htype⟩
    split_ifs at hprepared with hvalid hempty hme
    · injection hprepared with heq
      rw [← heq] at htype
      cases htype
    · injection hprepared with heq
      rw [Bool.false_or, Bool.not_eq_true] at hme
      have hbody : messageBody text = text := by rw [messageBody, hme]; rfl
      rw [hbody] at heq
      exact ⟨by simpa using hvalid, hme, heq.symm⟩
  · rintro ⟨hvalid, hme, rfl⟩
    have hbody : messageBody text = text := by rw [messageBody, hme]; rfl
    have hempty := ((isValidInput_iff text).mp hvalid).1
    rw [hvalid, hbody, hme]
    simp [hempty]

end Tim2Tox.ReplyMessages
