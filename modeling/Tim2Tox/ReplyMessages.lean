import Tim2Tox.MergerMessages
import Tim2Tox.MessageFragmenter

set_option autoImplicit false

/-!
# Replies

`MessageReplyUtil`: the reply object of the custom data goes out in front of the text, between two
marks; the receiver looks for the marks of a merged message first, then for those of a reply.
-/
namespace Tim2Tox.ReplyMessages
open MergerMessages StorageNames TextSearch QToxMessageFragmenter

/-! ## MessageReplyUtil.cpp -/

def replyStartMarker : Bytes := ascii "[REPLY_START]"
def replyEndMarker : Bytes := ascii "[REPLY_END]"

def hasJsonKey (json key : Bytes) : Bool := (find (quoted key) json).isSome

def replyUnder (cloudDataStr key : Bytes) : Option Bytes :=
  if hasJsonKey cloudDataStr key then
    let replyData := extractJsonValue cloudDataStr key
    if replyData.head? = some openBrace then some replyData else none
  else none

def extractReplyJsonFromCloudCustomData (cloudCustomData : Bytes) : Bytes :=
  ((replyUnder cloudCustomData (ascii "messageReference")).or
    (replyUnder cloudCustomData (ascii "messageReply"))).getD []

def buildMessageWithReply (replyJson text : Bytes) : Bytes :=
  if replyJson = [] then text
  else replyStartMarker ++ replyJson ++ replyEndMarker ++ [newline] ++ text

def parseMessageWithReply (message : Bytes) : Parsed :=
  parseBetween replyStartMarker replyEndMarker message

def buildCloudCustomDataFromReplyJson (replyJson : Bytes) : Bytes :=
  if replyJson = [] then []
  else openBrace :: ascii "\"messageReference\":" ++ replyJson ++ [closeBrace]

def isMessageTooLong (message : Bytes) : Bool := message.length > toxMaxMessageLength

/-- The JSON of a version and a message id, both as they were found. -/
def smallReply (version messageID : Bytes) : Bytes :=
  openBrace :: ascii "\"version\":" ++ version ++ ascii ",\"messageID\":\"" ++ messageID ++
    [quote, closeBrace]

def compressReplyJson (replyJson : Bytes) : Bytes :=
  let messageID := extractJsonValue replyJson (ascii "messageID")
  let version := extractJsonValue replyJson (ascii "version")
  if messageID = [] then replyJson
  else smallReply (if version = [] then ascii "1" else version) messageID

/-! ## V2TIMManagerImpl.cpp: the sender -/

/-- The reply that goes out: as it is, compressed, or only its message id. -/
def shortenedReply (replyJson text : Bytes) : Bytes :=
  if !isMessageTooLong (buildMessageWithReply replyJson text) then replyJson
  else
    let compressedReply := compressReplyJson replyJson
    if !isMessageTooLong (buildMessageWithReply compressedReply text) then compressedReply
    else
      let messageID := extractJsonValue replyJson (ascii "messageID")
      if messageID = [] then compressedReply else smallReply (ascii "1") messageID

def finalMessageText (prepared : PreparedTextMessage) (cloudCustomData : Bytes) : Bytes :=
  let replyJson := extractReplyJsonFromCloudCustomData cloudCustomData
  if prepared.type = .normal ∧ replyJson ≠ [] then
    buildMessageWithReply (shortenedReply replyJson prepared.body) prepared.body
  else prepared.body

/-- The fragments and their type, once the friend is found and connected. -/
def sendC2CTextMessageWithType (text cloudCustomData : Bytes) (forceAction : Bool) :
    Option (MessageType × List Bytes) :=
  (prepareTextMessage text forceAction).bind fun prepared =>
    (fragmentMessage (finalMessageText prepared cloudCustomData)).map fun fragments =>
      (prepared.type, fragments)

/-! ## V2TIMManagerImpl.cpp: the receiver -/

inductive Received where
  | action (text : Bytes)
  | merger (title : Bytes) (abstractList : List Bytes)
  | text (text cloudCustomData : Bytes)
  deriving DecidableEq

def handleFriendMessage (type : MessageType) (message : Bytes) : Received :=
  match type with
  | .action => .action message
  | .normal =>
    let merger := parseMessageWithMerger message
    if merger.hasMarks && !merger.json.isEmpty then
      let abstractVec := (extractAbstractList merger.json).map cString
      .merger (cString (extractTitle merger.json))
        (if abstractVec.isEmpty && !merger.text.isEmpty then [cString merger.text] else abstractVec)
    else
      let reply := parseMessageWithReply message
      if reply.hasMarks && !reply.json.isEmpty then
        .text (cString reply.text) (buildCloudCustomDataFromReplyJson reply.json)
      else .text message []

/-- What the friend gets: every fragment is a message of its own. -/
def received (text cloudCustomData : Bytes) : Option (List Received) :=
  (sendC2CTextMessageWithType text cloudCustomData false).map fun sent =>
    sent.2.map (handleFriendMessage sent.1)

end Tim2Tox.ReplyMessages
