import Tim2Tox.JsonText
import Tim2Tox.Utf8

set_option autoImplicit false

/-!
# The strict receipt scanner

`ParseStrictReceiptJson` with the checks it runs on the bytes of a receipt body, and the body that
`SendGroupReceipt` builds. The index of the source is a position in the body; a read at or past its
end, or a difference of sizes below zero, ends the scan as `beyond`.
-/
namespace Tim2Tox.GroupReceipts

/-- How a scan ends. `stuck` is a loop that used up its fuel. -/
inductive Outcome (α : Type) where
  | beyond | stuck | reject
  | accept (value : α)
  deriving DecidableEq, Repr

def Outcome.bind {α β : Type} : Outcome α → (α → Outcome β) → Outcome β
  | .beyond, _ => .beyond
  | .stuck, _ => .stuck
  | .reject, _ => .reject
  | .accept a, f => f a

instance : Monad Outcome where
  pure := .accept
  bind := Outcome.bind

abbrev Bytes := List UInt8

/-- A character literal of the source. -/
def byte (c : Char) : UInt8 := UInt8.ofNat c.toNat

def read (data : Bytes) (i : ℕ) : Outcome UInt8 :=
  match data[i]? with
  | some b => .accept b
  | none => .beyond

/-- `a - b` of two sizes. -/
def diff (a b : ℕ) : Outcome ℕ := if b ≤ a then .accept (a - b) else .beyond

/-! ## UTF-8 -/

/-- What the first byte of a sequence says: how many bytes follow, its payload, and the least
    code point that needs that many. -/
def leadByte (c : UInt8) : Option (ℕ × ℕ × ℕ) :=
  if c &&& 0xE0 = 0xC0 then some (1, (c &&& 0x1F).toNat, 0x80)
  else if c &&& 0xF0 = 0xE0 then some (2, (c &&& 0x0F).toNat, 0x800)
  else if c &&& 0xF8 = 0xF0 then some (3, (c &&& 0x07).toNat, 0x10000)
  else none

/-- The bytes that follow the first one. -/
def tailBytes (data : Bytes) : ℕ → ℕ → ℕ → Outcome ℕ
  | 0, _, cp => .accept cp
  | extra + 1, i, cp => do
    let cc ← read data i
    if cc &&& 0xC0 ≠ 0x80 then .reject
    else tailBytes data extra (i + 1) ((cp <<< 6) ||| (cc &&& 0x3F).toNat)

/-- One round of the loop of `IsValidUtf8`: the position of the next character. -/
def nextChar (data : Bytes) (i : ℕ) : Outcome ℕ := do
  let c ← read data i
  if c < 0x80 then .accept (i + 1)
  else match leadByte c with
    | none => .reject
    | some (extra, cp, least) => do
      let left ← diff data.length i
      if left ≤ extra then .reject
      else do
        let cp ← tailBytes data extra (i + 1) cp
        if cp < least ∨ cp > 0x10FFFF ∨ (cp ≥ 0xD800 ∧ cp ≤ 0xDFFF) then .reject
        else .accept (i + (extra + 1))

def validUtf8From (data : Bytes) : ℕ → ℕ → Outcome Unit
  | 0, _ => .stuck
  | fuel + 1, i =>
    if i < data.length then do
      let j ← nextChar data i
      validUtf8From data fuel j
    else .accept ()

def isValidUtf8 (data : Bytes) : Outcome Unit := validUtf8From data (data.length + 1) 0

def appendUtf8 (cp : ℕ) : Bytes :=
  if cp < 0x80 then [UInt8.ofNat cp]
  else if cp < 0x800 then
    [UInt8.ofNat (0xC0 ||| (cp >>> 6)), UInt8.ofNat (0x80 ||| (cp &&& 0x3F))]
  else if cp < 0x10000 then
    [UInt8.ofNat (0xE0 ||| (cp >>> 12)), UInt8.ofNat (0x80 ||| ((cp >>> 6) &&& 0x3F)),
      UInt8.ofNat (0x80 ||| (cp &&& 0x3F))]
  else
    [UInt8.ofNat (0xF0 ||| (cp >>> 18)), UInt8.ofNat (0x80 ||| ((cp >>> 12) &&& 0x3F)),
      UInt8.ofNat (0x80 ||| ((cp >>> 6) &&& 0x3F)), UInt8.ofNat (0x80 ||| (cp &&& 0x3F))]

/-! ## Strings -/

def isSpace (b : UInt8) : Bool := b = byte ' ' || b = byte '\t' || b = byte '\n' || b = byte '\r'

def skipWs (data : Bytes) : ℕ → ℕ → Outcome ℕ
  | 0, _ => .stuck
  | fuel + 1, i =>
    if i < data.length then do
      let c ← read data i
      if isSpace c then skipWs data fuel (i + 1) else .accept i
    else .accept i

def hexDigit (h : UInt8) : Option ℕ :=
  if byte '0' ≤ h ∧ h ≤ byte '9' then some (h.toNat - (byte '0').toNat)
  else if byte 'a' ≤ h ∧ h ≤ byte 'f' then some (h.toNat - (byte 'a').toNat + 10)
  else if byte 'A' ≤ h ∧ h ≤ byte 'F' then some (h.toNat - (byte 'A').toNat + 10)
  else none

def hexLoop (data : Bytes) : ℕ → ℕ → ℕ → Outcome ℕ
  | 0, _, value => .accept value
  | k + 1, i, value => do
    let h ← read data i
    match hexDigit h with
    | none => .reject
    | some v => hexLoop data k (i + 1) ((value <<< 4) ||| v)

def parseHex4 (data : Bytes) (start : ℕ) : Outcome ℕ :=
  if start > data.length then .reject
  else do
    let left ← diff data.length start
    if left < 4 then .reject else hexLoop data 4 start 0

def simpleEscape (esc : UInt8) : Option UInt8 :=
  if esc = byte '"' then some (byte '"')
  else if esc = byte '\\' then some (byte '\\')
  else if esc = byte '/' then some (byte '/')
  else if esc = byte 'b' then some 0x08
  else if esc = byte 'f' then some 0x0C
  else if esc = byte 'n' then some (byte '\n')
  else if esc = byte 'r' then some (byte '\r')
  else if esc = byte 't' then some (byte '\t')
  else none

/-- The code point of a `\u` escape whose digits end at `i`, and where its text ends: a high
    surrogate needs the escape of a low one right behind it. -/
def pairUp (data : Bytes) (i cp : ℕ) : Outcome (ℕ × ℕ) :=
  if 0xDC00 ≤ cp ∧ cp ≤ 0xDFFF then .reject
  else if 0xD800 ≤ cp ∧ cp ≤ 0xDBFF then do
    let left ← diff data.length i
    if left < 6 then .reject
    else do
      let c ← read data i
      if c ≠ byte '\\' then .reject
      else do
        let u ← read data (i + 1)
        if u ≠ byte 'u' then .reject
        else do
          let low ← parseHex4 data (i + 2)
          if low < 0xDC00 ∨ low > 0xDFFF then .reject
          else .accept (i + 6, 0x10000 + ((cp - 0xD800) <<< 10) + (low - 0xDC00))
  else .accept (i, cp)

/-- The loop of `parse_string`: it stops at the closing quote or at the end. -/
def stringLoop (data : Bytes) : ℕ → ℕ → Bytes → Outcome (ℕ × Bytes)
  | 0, _, _ => .stuck
  | fuel + 1, i, out =>
    if i < data.length then do
      let c ← read data i
      if c = byte '"' then .accept (i, out)
      else if c < 0x20 then .reject
      else if c ≠ byte '\\' then stringLoop data fuel (i + 1) (out ++ [c])
      else if i + 1 ≥ data.length then .reject
      else do
        let esc ← read data (i + 1)
        match simpleEscape esc with
        | some b => stringLoop data fuel (i + 2) (out ++ [b])
        | none =>
          if esc = byte 'u' then do
            let cp ← parseHex4 data (i + 2)
            let (j, cp) ← pairUp data (i + 6) cp
            stringLoop data fuel j (out ++ appendUtf8 cp)
          else .reject
    else .accept (i, out)

def parseString (data : Bytes) (i : ℕ) : Outcome (ℕ × Bytes) :=
  if i ≥ data.length then .reject
  else do
    let c ← read data i
    if c ≠ byte '"' then .reject
    else do
      let (j, out) ← stringLoop data (data.length + 1) (i + 1) []
      if j ≥ data.length then .reject else .accept (j + 1, out)

/-! ## The object -/

/-- `std::map::emplace`: refused when the key is there. -/
def emplace (fields : List (Bytes × Bytes)) (key value : Bytes) : Option (List (Bytes × Bytes)) :=
  if fields.any fun f => f.1 = key then none else some (fields ++ [(key, value)])

def find (fields : List (Bytes × Bytes)) (key : Bytes) : Option Bytes :=
  (fields.find? fun f => f.1 = key).map Prod.snd

/-- One member up to the punctuation behind it. -/
def parseMember (data : Bytes) (i : ℕ) : Outcome (ℕ × Bytes × Bytes) := do
  let i ← skipWs data (data.length + 1) i
  let (i, key) ← parseString data i
  let i ← skipWs data (data.length + 1) i
  if i ≥ data.length then .reject
  else do
    let c ← read data i
    if c ≠ byte ':' then .reject
    else do
      let i ← skipWs data (data.length + 1) (i + 1)
      let (i, value) ← parseString data i
      .accept (i, key, value)

def memberLoop (data : Bytes) : ℕ → ℕ → List (Bytes × Bytes) →
    Outcome (ℕ × List (Bytes × Bytes))
  | 0, _, _ => .stuck
  | fuel + 1, i, fields => do
    let (i, key, value) ← parseMember data i
    match emplace fields key value with
    | none => .reject
    | some fields => do
      let i ← skipWs data (data.length + 1) i
      if i < data.length then do
        let c ← read data i
        if c = byte ',' then memberLoop data fuel (i + 1) fields
        else if c = byte '}' then .accept (i + 1, fields)
        else .reject
      else .reject

structure StrictGroupReceipt where
  msgId : Bytes
  receiptType : Bytes
  sender : Bytes
  deriving DecidableEq, Repr

/-- The bytes of a string literal. -/
def literal (s : String) : Bytes := Utf8.encode s.toList

def isXDigit (b : UInt8) : Bool := (hexDigit b).isSome

/-- The schema check on the collected fields. -/
def checkFields (fields : List (Bytes × Bytes)) : Outcome StrictGroupReceipt :=
  match find fields (literal "type"), find fields (literal "msgID"),
    find fields (literal "receiptType"), find fields (literal "sender") with
  | some type, some msgId, some receiptType, some sender =>
    if type = literal "receipt" ∧ msgId ≠ [] ∧
        (receiptType = literal "received" ∨ receiptType = literal "read") ∧
        sender.length = 64 ∧ sender.all isXDigit then
      .accept ⟨msgId, receiptType, sender⟩
    else .reject
  | _, _, _, _ => .reject

def parseStrictReceiptJson (data : Bytes) : Outcome StrictGroupReceipt := do
  isValidUtf8 data
  let i ← skipWs data (data.length + 1) 0
  if i ≥ data.length then .reject
  else do
    let c ← read data i
    if c ≠ byte '\x7b' then .reject
    else do
      let (i, fields) ← memberLoop data (data.length + 1) (i + 1) []
      let i ← skipWs data (data.length + 1) i
      if i ≠ data.length ∨ fields.length ≠ 4 then .reject else checkFields fields

/-! ## The body of a receipt -/

def escapeJsonForReceipt (value : Bytes) : Bytes :=
  value.flatMap fun c =>
    if c = byte '"' then [byte '\\', byte '"']
    else if c = byte '\\' then [byte '\\', byte '\\']
    else if c ≥ 0x20 then [c] else []

def toxBytesToHex (bytes : Bytes) : Bytes :=
  bytes.flatMap fun (b : UInt8) => [(literal "0123456789ABCDEF").getD ((b >>> 4) &&& 0xF).toNat 0,
    (literal "0123456789ABCDEF").getD (b &&& 0xF).toNat 0]

/-- The body `SendGroupReceipt` sends under our key of the group. -/
def groupReceiptBody (msgId receiptType selfGroupKey : Bytes) : Bytes :=
  literal "\x7b\"type\":\"receipt\",\"msgID\":\"" ++ escapeJsonForReceipt msgId ++
    literal "\",\"receiptType\":\"" ++ receiptType ++ literal "\",\"sender\":\"" ++
    toxBytesToHex selfGroupKey ++ literal "\"\x7d"

/-- What `HandleGroupCustomPrivatePacket` takes for a receipt. -/
def receiptPayload (payload : Bytes) : Outcome StrictGroupReceipt :=
  if payload.length = 0 ∨ payload.length > 1024 then .reject else parseStrictReceiptJson payload

end Tim2Tox.GroupReceipts
