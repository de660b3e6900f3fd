import Mathlib.Data.List.TakeWhile
import Tim2Tox.MessageFragmenter

set_option autoImplicit false

/-!
# Typed actions

A typed text that begins with `/me ` is an action. The service takes the mark away, keeps what is
left as the row and hands it to the native send, at once or when a queued item is drained; the
native send looks for the mark again. A text is a list of characters; its first four code units
spell the mark exactly when its first four characters do.
-/
namespace Tim2Tox.ActionText
open Utf8 QToxMessageFragmenter

inductive ChatMessageContentKind where
  | normal
  | action
  deriving DecidableEq

/-- `toLowerCase` is that of ASCII here: no other character has one of `/me ` as its lower case. -/
def looksLikeAction (text : List Char) : Bool := (text.take 4).map Char.toLower == "/me ".toList

structure Outgoing where
  text : List Char
  contentKind : ChatMessageContentKind
  deriving DecidableEq

def parseOutgoingChatText (text : List Char) : Outgoing :=
  if looksLikeAction text then ⟨text.drop 4, .action⟩ else ⟨text, .normal⟩

/-- Whether `_validateOutgoingText` lets it through. -/
def validateOutgoingText (outgoing : Outgoing) : Bool :=
  !outgoing.text.contains '\x00' &&
    !(outgoing.contentKind == .action && outgoing.text.isEmpty)

/-! ## The native send -/

inductive Target where
  | c2c
  | group

/-- A `const char*` ends before its first zero. -/
def cString (bytes : Text) : Text := bytes.takeWhile (· ≠ 0)

abbrev Wire := MessageType × List Text

/-- What goes out once the peer is there; a send through these exports has no custom data. -/
def sendTextMessageWithType (text : Text) (forceAction : Bool) : Option Wire :=
  (prepareTextMessage (cString text) forceAction).bind fun prepared =>
    (fragmentMessage prepared.body).map fun fragments => (prepared.type, fragments)

def sendC2CTextMessage (text : Text) : Option Wire := sendTextMessageWithType text false
def sendC2CActionMessage (text : Text) : Option Wire := sendTextMessageWithType text true
def sendGroupTextMessage (text : Text) : Option Wire := sendTextMessageWithType text false
def sendGroupActionMessage (text : Text) : Option Wire := sendTextMessageWithType text true

/-! ## The service -/

/-- `_sendC2cTextByKindChecked` and `_sendGroupTextByKindChecked`. -/
def sendTextByKindChecked (target : Target) (outgoing : Outgoing) : Option Wire :=
  if !validateOutgoingText outgoing then none
  else
    let native := encode outgoing.text
    match target, outgoing.contentKind with
    | .c2c, .normal => sendC2CTextMessage native
    | .c2c, .action => sendC2CActionMessage native
    | .group, .normal => sendGroupTextMessage native
    | .group, .action => sendGroupActionMessage native

/-- The row of our own history and what went out, or the item that waits in the queue. -/
structure Sent where
  row : Outgoing
  wire : Option Wire
  queued : Option Outgoing

/-- `sendTextWithResult` and `sendGroupTextWithResult`; `none` when it throws. -/
def sendTextWithResult (target : Target) (online : Bool) (text : List Char) : Option Sent :=
  let outgoing := parseOutgoingChatText text
  if !validateOutgoingText outgoing then none
  else if online then
    (sendTextByKindChecked target outgoing).map fun wire => ⟨outgoing, some wire, none⟩
  else if !validateOutgoingText outgoing then none
  else some ⟨outgoing, none, some outgoing⟩

/-- What goes out when the queue is drained. -/
def drain (target : Target) (item : Outgoing) : Option Wire := sendTextByKindChecked target item

/-- What goes out, at once or later. -/
def Sent.out (target : Target) (sent : Sent) : Option Wire :=
  sent.wire.or (sent.queued.bind (drain target))

/-! ## Encoded text -/

theorem toLower_toNat (c : Char) :
    c.toLower.toNat = if 65 ≤ c.toNat ∧ c.toNat ≤ 90 then c.toNat + 32 else c.toNat := by
  have hupper : (c.val ≥ 'A'.val ∧ c.val ≤ 'Z'.val) ↔ (65 ≤ c.toNat ∧ c.toNat ≤ 90) := Iff.rfl
  delta Char.toLower
  by_cases h : c.val ≥ 'A'.val ∧ c.val ≤ 'Z'.val
  · have hbound := hupper.mp h
    rw [dif_pos h, if_pos hbound]
    change (c.toNat + 32) % 4294967296 = c.toNat + 32
    omega
  · rw [dif_neg h, if_neg (mt hupper.mpr h)]

theorem char_eq_iff {c d : Char} : c = d ↔ c.toNat = d.toNat :=
  ⟨congrArg Char.toNat, Char.toNat_inj.mp⟩

theorem toLower_plain {c m : Char} (hm : m.toNat < 65) : c.toLower = m ↔ c = m := by
  rw [char_eq_iff, char_eq_iff, toLower_toNat]
  split_ifs <;> omega

theorem toLower_letter {c m upper : Char} (hlow : 97 ≤ m.toNat) (hupper : upper.toNat + 32 = m.toNat)
    (hhigh : m.toNat ≤ 122) : c.toLower = m ↔ c = m ∨ c = upper := by
  rw [char_eq_iff, char_eq_iff, char_eq_iff, toLower_toNat]
  split_ifs <;> omega

/-- The spellings of the mark. -/
def marks : List (List Char) :=
  [['/', 'm', 'e', ' '], ['/', 'm', 'E', ' '], ['/', 'M', 'e', ' '], ['/', 'M', 'E', ' ']]

theorem looksLikeAction_iff {text : List Char} :
    looksLikeAction text = true ↔ ∃ mark ∈ marks, text = mark ++ text.drop 4 := by
  rcases text with _ | ⟨a, _ | ⟨b, _ | ⟨c, _ | ⟨d, rest⟩⟩⟩⟩
  · simp [looksLikeAction, marks]
  · simp [looksLikeAction, marks]
  · simp [looksLikeAction, marks]
  · simp [looksLikeAction, marks]
  · have ha : a.toLower = '/' ↔ a = '/' := toLower_plain (by decide)
    have hb : b.toLower = 'm' ↔ b = 'm' ∨ b = 'M' := toLower_letter (by decide) rfl (by decide)
    have hc : c.toLower = 'e' ↔ c = 'e' ∨ c = 'E' := toLower_letter (by decide) rfl (by decide)
    have hd : d.toLower = ' ' ↔ d = ' ' := toLower_plain (by decide)
    have hmark : "/me ".toList = ['/', 'm', 'e', ' '] := by decide
    rw [looksLikeAction, hmark]
    simp only [List.take_succ_cons, List.take_zero, List.map_cons, List.map_nil, beq_iff_eq,
      List.cons.injEq, and_true, ha, hb, hc, hd, marks, List.mem_cons, List.not_mem_nil, or_false,
      exists_eq_or_imp, exists_eq_left, List.drop_succ_cons, List.drop_zero, List.cons_append,
      List.nil_append]
    tauto

theorem map_encode_marks : marks.map encode = mePrefixes := by decide

theorem mark_length {mark : List Char} (h : mark ∈ marks) :
    mark.length = 4 ∧ (encode mark).length = 4 := by
  have hall : marks.all (fun m => m.length = 4 ∧ (encode m).length = 4) = true := by
    decide
  exact of_decide_eq_true (List.all_eq_true.mp hall mark h)

/-- The native send sees the mark where the service does. -/
theorem hasMePrefix_encode (text : List Char) :
    hasMePrefix (encode text) = looksLikeAction text := by
  rw [Bool.eq_iff_iff, hasMePrefix_iff, looksLikeAction_iff, ← map_encode_marks]
  constructor
  · intro h
    obtain ⟨me, hme, htext⟩ := h
    obtain ⟨mark, hmark, rfl⟩ := List.mem_map.mp hme
    obtain ⟨rest, hrest, -⟩ := encode_append_inj htext.symm
    refine ⟨mark, hmark, ?_⟩
    rw [hrest, List.drop_left' (mark_length hmark).1]
  · intro h
    obtain ⟨mark, hmark, htext⟩ := h
    refine ⟨encode mark, List.mem_map_of_mem hmark, ?_⟩
    have hbytes : encode text = encode mark ++ encode (text.drop 4) := by
      rw [← encode_append, ← htext]
    rw [hbytes, List.drop_left' (mark_length hmark).2]

/-! ## What is sent -/

/-- An action without the mark goes out as it is. -/
theorem sendTextMessageWithType_action {text : List Char} (hne : text ≠ [])
    (hzero : '\x00' ∉ text) (hmark : looksLikeAction text = false) :
    ∃ fragments, sendTextMessageWithType (encode text) true = some (.action, fragments) ∧
      fragments.flatten = encode text := by
  have hbytes : encode text ≠ [] := by
    obtain ⟨c, cs, rfl⟩ := List.exists_cons_of_ne_nil hne
    exact encode_ne_nil c cs
  have hnot : 0 ∉ encode text := fun h => hzero (zero_mem_encode.mp h)
  have hvalid : isValidInput (encode text) = true :=
    (isValidInput_iff _).mpr ⟨hbytes, hnot, text, rfl⟩
  have hwhole : cString (encode text) = encode text := by
    rw [cString, List.takeWhile_eq_self_iff]
    intro b hb
    apply decide_eq_true
    intro heq
    rw [heq] at hb
    exact hnot hb
  have hbody : messageBody (encode text) = encode text := by
    rw [messageBody, hasMePrefix_encode, hmark]
    rfl
  obtain ⟨fragments, hfragments, hparts⟩ := fragmentMessage_valid hvalid
  refine ⟨fragments, ?_, hparts.joined⟩
  have hempty : (encode text).isEmpty = false := List.isEmpty_eq_false_iff.mpr hbytes
  rw [sendTextMessageWithType, hwhole, prepareTextMessage, hvalid, hbody, hempty]
  change (fragmentMessage (encode text)).map _ = _
  rw [hfragments]
  rfl

theorem sendTextByKindChecked_action (target : Target) {text : List Char} (hne : text ≠ [])
    (hzero : '\x00' ∉ text) (hmark : looksLikeAction text = false) :
    ∃ fragments, sendTextByKindChecked target ⟨text, .action⟩ = some (.action, fragments) ∧
      fragments.flatten = encode text := by
  have hvalid : validateOutgoingText ⟨text, .action⟩ = true := by
    rw [validateOutgoingText, List.isEmpty_eq_false_iff.mpr hne]
    rw [Bool.and_false, Bool.not_false, Bool.and_true, Bool.not_eq_true',
      ← Bool.not_eq_true, List.contains_iff_mem]
    exact hzero
  rw [sendTextByKindChecked, hvalid]
  cases target with
  | c2c => exact sendTextMessageWithType_action hne hzero hmark
  | group => exact sendTextMessageWithType_action hne hzero hmark

theorem validateOutgoingText_action {text : List Char} :
    validateOutgoingText ⟨text, .action⟩ = false ↔ text = [] ∨ '\x00' ∈ text := by
  rw [validateOutgoingText, Bool.and_eq_false_iff, Bool.not_eq_false', Bool.not_eq_false',
    List.contains_iff_mem, or_comm]
  change text.isEmpty = true ∨ _ ↔ _
  rw [List.isEmpty_iff]

end Tim2Tox.ActionText
