import Tim2Tox.StorageNames
import Tim2Tox.TextSearch

set_option autoImplicit false

/-!
# Merged messages

`MergerMessageUtil`: a title, a list of abstracts and a list of message ids are written as JSON
between two marks in front of a text, and read back by searches for marks, keys and quotes.
-/
namespace Tim2Tox.MergerMessages
open TextSearch StorageNames

def quote : UInt8 := 34
def backslash : UInt8 := 92
def colon : UInt8 := 58
def comma : UInt8 := 44
def openBracket : UInt8 := 91
def closeBracket : UInt8 := 93
def openBrace : UInt8 := 123
def closeBrace : UInt8 := 125
def newline : UInt8 := 10
def carriageReturn : UInt8 := 13
def tab : UInt8 := 9
def space : UInt8 := 32

def ascii (text : String) : Bytes := text.toList.map Char.toUInt8

/-! ## MessageReplyUtil.cpp: `ExtractJsonValue` -/

def isBlank (c : UInt8) : Bool := c == space || c == tab

def isLineEnd (c : UInt8) : Bool := c == newline || c == carriageReturn

def quoted (key : Bytes) : Bytes := quote :: key ++ [quote]

/-- The value behind the key and its colon, as far as the text goes. -/
def afterKey (json key : Bytes) : Option Bytes :=
  match find (quoted key) json with
  | none => none
  | some keyPos =>
    match findFrom [colon] json keyPos with
    | none => none
    | some colonPos => some ((json.drop (colonPos + 1)).dropWhile isBlank)

/-- The object up to the brace that closes it, strings not heeded. -/
def scanObject : ℕ → Bytes → Option Bytes
  | _, [] => none
  | braceCount, c :: text =>
    if c = openBrace then (scanObject (braceCount + 1) text).map (c :: ·)
    else if c = closeBrace then
      if braceCount = 1 then some [] else (scanObject (braceCount - 1) text).map (c :: ·)
    else (scanObject braceCount text).map (c :: ·)

def endsValue (c : UInt8) : Bool :=
  c == comma || c == closeBrace || c == closeBracket || isBlank c || isLineEnd c

def extractJsonValue (json key : Bytes) : Bytes :=
  match afterKey json key with
  | none => []
  | some [] => []
  | some (c :: text) =>
    if c = quote then
      match find [quote] text with
      | none => []
      | some strEnd => text.take strEnd
    else if c = openBrace then
      match scanObject 1 text with
      | none => []
      | some object => openBrace :: object ++ [closeBrace]
    else (c :: text).takeWhile fun c => !endsValue c

/-! ## MergerMessageUtil.cpp -/

def mergerStartMarker : Bytes := ascii "[MERGER_START]"
def mergerEndMarker : Bytes := ascii "[MERGER_END]"

/-- What `CString` shows of a text. -/
def cString (text : Bytes) : Bytes := text.takeWhile fun c => c != 0

/-- One turn of the escaping loops; that of the message ids leaves control characters alone. -/
def escapeByte (controls : Bool) (c : UInt8) : Bytes :=
  if c = quote then [backslash, quote]
  else if c = backslash then [backslash, backslash]
  else if controls && c == newline then ascii "\\n"
  else if controls && c == carriageReturn then ascii "\\r"
  else if controls && c == tab then ascii "\\t"
  else [c]

def escape (controls : Bool) (text : Bytes) : Bytes := text.flatMap (escapeByte controls)

def quotedList (controls : Bool) (texts : List Bytes) : Bytes :=
  List.intercalate [comma] (texts.map fun text => quote :: escape controls (cString text) ++ [quote])

def buildMergerJson (messageIDs : List Bytes) (title : Bytes) (abstractList : List Bytes) : Bytes :=
  [openBrace] ++ ascii "\"title\":\"" ++ escape true (cString title) ++ ascii "\"," ++
    ascii "\"abstractList\":[" ++ quotedList true abstractList ++ ascii "]," ++
    ascii "\"messageIDList\":[" ++ quotedList false messageIDs ++ ascii "]" ++ [closeBrace]

def buildMessageWithMerger (mergerJson compatibleText : Bytes) : Bytes :=
  mergerStartMarker ++ mergerJson ++ mergerEndMarker ++ [newline] ++ compatibleText

structure Parsed where
  hasMarks : Bool
  json : Bytes
  text : Bytes
  deriving DecidableEq

/-- The text behind a mark, without the line ends it begins with. -/
def textAfter (message : Bytes) (start : ℕ) : Bytes :=
  if start < message.length then (message.drop start).dropWhile isLineEnd else []

/-- What is between two marks and behind them; `ParseMessageWithReply` does the same with its own
    marks. -/
def parseBetween (startMarker endMarker message : Bytes) : Parsed :=
  match find startMarker message, find endMarker message with
  | some startPos, some endPos =>
    if endPos ≤ startPos then ⟨false, [], message⟩
    else
      let jsonStart := startPos + startMarker.length
      ⟨true, (message.drop jsonStart).take (endPos - jsonStart),
        textAfter message (endPos + endMarker.length)⟩
  | _, _ => ⟨false, [], message⟩

def parseMessageWithMerger (message : Bytes) : Parsed :=
  parseBetween mergerStartMarker mergerEndMarker message

/-- The text of a string up to the quote that ends it, and what is behind the quote. -/
def scanString : Bool → Bytes → Option (Bytes × Bytes)
  | _, [] => none
  | true, c :: text => (scanString false text).map fun found => (c :: found.1, found.2)
  | false, c :: text =>
    if c = backslash then (scanString true text).map fun found => (c :: found.1, found.2)
    else if c = quote then some ([], text)
    else (scanString false text).map fun found => (c :: found.1, found.2)

/-- The byte an escape stands for. -/
def unescapeByte (c : UInt8) : Option UInt8 :=
  if c = 110 then some newline
  else if c = 114 then some carriageReturn
  else if c = 116 then some tab
  else if c = quote then some quote
  else if c = backslash then some backslash
  else none

def unescape : Bytes → Bytes
  | [] => []
  | [c] => [c]
  | c :: d :: text =>
    if c = backslash then
      match unescapeByte d with
      | some plain => plain :: unescape text
      | none => c :: unescape (d :: text)
    else c :: unescape (d :: text)

def skipComma : Bytes → Bytes
  | [] => []
  | c :: text => if c = comma then text else c :: text

/-- The loop over the elements; every turn takes at least one byte. -/
def arrayElements : ℕ → Bytes → List Bytes
  | 0, _ => []
  | turns + 1, text =>
    if text.head? = some closeBracket then []
    else
      match text.dropWhile fun c => isBlank c || isLineEnd c with
      | [] => []
      | c :: rest =>
        if c = closeBracket then []
        else if c = quote then
          match scanString false rest with
          | none => []
          | some (value, behind) => unescape value :: arrayElements turns (skipComma behind)
        else
          arrayElements turns
            (skipComma ((c :: rest).dropWhile fun c => c != comma && c != closeBracket))

def extractJsonArray (json key : Bytes) : List Bytes :=
  match afterKey json key with
  | none => []
  | some [] => []
  | some (c :: text) => if c = openBracket then arrayElements (text.length + 1) text else []

def extractAbstractList (mergerJson : Bytes) : List Bytes :=
  extractJsonArray mergerJson (ascii "abstractList")

def extractMessageIDs (mergerJson : Bytes) : List Bytes :=
  if find (ascii "messageIDList") mergerJson ≠ none then
    extractJsonArray mergerJson (ascii "messageIDList")
  else if mergerJson.head? = some openBracket then
    extractJsonArray (openBrace :: ascii "\"array\":" ++ mergerJson ++ [closeBrace]) (ascii "array")
  else []

def extractTitle (mergerJson : Bytes) : Bytes := extractJsonValue mergerJson (ascii "title")

end Tim2Tox.MergerMessages
