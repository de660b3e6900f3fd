import Mathlib.Data.List.AList
import Mathlib.Data.List.DropRight

set_option autoImplicit false

/-!
# The IRC client

What `IrcClientManager` writes to the socket of a channel for a group message, how a line is
parsed, and the read loop with its reconnects. Strings are bytes; a send writes all it is given.
-/
namespace Tim2Tox.IrcClient

/-- The bytes of a `std::string`. -/
abbrev Bytes : Type := List UInt8

def ascii (s : String) : Bytes := s.toList.map fun c => UInt8.ofNat c.toNat

def space : UInt8 := 32
def colon : UInt8 := 58
def lineFeed : UInt8 := 10
def carriageReturn : UInt8 := 13

/-- Up to the first separator, if there is one. -/
theorem takeWhile_ne_cases (sep : UInt8) (l : Bytes) :
    (l.takeWhile (· ≠ sep) = l ∧ ∀ b ∈ l, b ≠ sep) ∨
    ∃ word rest, l = word ++ sep :: rest ∧ l.takeWhile (· ≠ sep) = word ∧
      l.drop (word.length + 1) = rest ∧ ∀ b ∈ word, b ≠ sep := by
  induction l with
  | nil => simp
  | cons b l ih =>
    by_cases hb : b = sep
    · right
      refine ⟨[], l, by simp [hb], by simp [hb], rfl, by simp⟩
    · rcases ih with ⟨hall, hnone⟩ | ⟨word, rest, hsplit, hword, hdrop, hnone⟩
      · left
        refine ⟨?_, ?_⟩
        · rw [List.takeWhile_cons_of_pos (by simp [hb]), hall]
        · intro c hc
          rcases List.mem_cons.mp hc with rfl | hc
          · exact hb
          · exact hnone c hc
      · right
        refine ⟨b :: word, rest, by rw [hsplit]; rfl, ?_, ?_, ?_⟩
        · rw [List.takeWhile_cons_of_pos (by simp [hb]), hword]
        · rw [List.length_cons, List.drop_succ_cons]
          exact hdrop
        · intro c hc
          rcases List.mem_cons.mp hc with rfl | hc
          · exact hb
          · exact hnone c hc

/-! ## Lines -/

/-- Blank, tab, carriage return and line feed. -/
def isWhite (b : UInt8) : Bool := b = 32 || b = 9 || b = 13 || b = 10

def trimCopy (value : Bytes) : Bytes := (value.dropWhile isWhite).rdropWhile isWhite

def toUpper (b : UInt8) : UInt8 := if 97 ≤ b ∧ b ≤ 122 then b - 32 else b

def upperCopy (value : Bytes) : Bytes := value.map toUpper

structure ParsedIrcMessage where
  source : Bytes := []
  command : Bytes := []
  params : List Bytes := []
  trailing : Option Bytes := none
  deriving DecidableEq

/-- The text before the first blank, and what is after it if there is one. -/
def cutAtSpace (rest : Bytes) : Bytes × Option Bytes :=
  let word := rest.takeWhile (· ≠ space)
  (word, if word.length < rest.length then some (rest.drop (word.length + 1)) else none)

/-- The loop over the parameters; every turn takes one byte at least. -/
def parseParams : ℕ → Bytes → ParsedIrcMessage → ParsedIrcMessage
  | 0, _, parsed => parsed
  | _ + 1, [], parsed => parsed
  | turns + 1, b :: rest, parsed =>
    if b = colon then { parsed with trailing := some rest }
    else match cutAtSpace (b :: rest) with
      | (word, none) => { parsed with params := parsed.params ++ [word] }
      | (word, some after) =>
        parseParams turns (trimCopy after) { parsed with params := parsed.params ++ [word] }

def parseCommand (rest : Bytes) (parsed : ParsedIrcMessage) : ParsedIrcMessage :=
  match cutAtSpace rest with
  | (word, none) => { parsed with command := upperCopy word }
  | (word, some after) =>
    parseParams (trimCopy after).length (trimCopy after) { parsed with command := upperCopy word }

def parseIrcMessage (rawLine : Bytes) : ParsedIrcMessage :=
  match trimCopy rawLine with
  | [] => {}
  | b :: rest =>
    if b = colon then
      match cutAtSpace (b :: rest) with
      | (word, none) => { source := word.tail }
      | (word, some after) => parseCommand (trimCopy after) { source := word.tail }
    else parseCommand (b :: rest) {}

/-! ## Sending -/

structure IrcChannel where
  groupId : Bytes
  connected : Bool
  sockOpen : Bool

structure IrcClientManager where
  channels : AList fun _ : Bytes => IrcChannel := ∅
  /-- A callback takes the group messages instead of the relay. -/
  toxGroupMessageCallback : Bool := false

/-- The command with its line end. -/
def sendIrcCommand (command : Bytes) : Bytes :=
  if command.getLast? = some lineFeed then command else command ++ [lineFeed]

def privmsg (channel message : Bytes) : Bytes :=
  ascii "PRIVMSG " ++ channel ++ ascii " :" ++ message

/-- What is written to the socket of the channel. -/
def IrcClientManager.sendMessage (m : IrcClientManager) (channel message : Bytes) : Option Bytes :=
  match m.channels.lookup channel with
  | none => none
  | some info =>
    if info.connected && info.sockOpen then some (sendIrcCommand (privmsg channel message)) else none

/-- The channel a group message goes to and what is written to its socket. -/
def IrcClientManager.onToxGroupMessage (m : IrcClientManager) (groupId _sender message : Bytes) :
    Option (Bytes × Bytes) :=
  if m.toxGroupMessageCallback then none
  else match m.channels.entries.find? fun entry => entry.2.groupId = groupId with
    | none => none
    | some entry => (m.sendMessage entry.1 message).map fun written => (entry.1, written)

/-! ## Reading -/

def kMaxLineBufferBytes : ℕ := 65536
def maxReconnectAttempts : ℕ := 10

def stripReturn (line : Bytes) : Bytes :=
  if line.getLast? = some carriageReturn then line.dropLast else line

/-- The loop that takes complete lines off the buffer; every turn takes a line end. -/
def takeLines : ℕ → Bytes → List Bytes × Bytes
  | 0, buffer => ([], buffer)
  | turns + 1, buffer =>
    let line := buffer.takeWhile (· ≠ lineFeed)
    if line.length < buffer.length then
      let (lines, rest) := takeLines turns (buffer.drop (line.length + 1))
      (stripReturn line :: lines, rest)
    else ([], buffer)

/-- The read loop of a channel: the line buffer, and for this connection and the ones before it
    what arrived and what was handed to `processIrcMessage`. -/
structure Reader where
  lineBuffer : Bytes := []
  sockOpen : Bool := true
  shouldStop : Bool := false
  reconnectAttempts : ℕ := 0
  stream : Bytes := []
  lines : List Bytes := []
  past : List (Bytes × List Bytes) := []

inductive Event where
  | recv (chunk : Bytes)
  | closed
  | attemptReconnect (delayOver connected : Bool)
  | stop

namespace Reader

def recv (r : Reader) (chunk : Bytes) : Reader :=
  let buffer := r.lineBuffer ++ chunk
  let (lines, rest) := takeLines buffer.length buffer
  { r with
    lineBuffer := if rest.length > kMaxLineBufferBytes then [] else rest
    stream := r.stream ++ chunk
    lines := r.lines ++ lines }

/-- The socket of a connection that ended is closed at once. -/
def closed (r : Reader) : Reader := { r with sockOpen := false }

def attemptReconnect (r : Reader) (delayOver connected : Bool) : Reader :=
  if r.reconnectAttempts ≥ maxReconnectAttempts then { r with shouldStop := true }
  else if !delayOver then r
  else if !connected then { r with reconnectAttempts := r.reconnectAttempts + 1 }
  else
    { r with
      reconnectAttempts := 0
      sockOpen := true
      stream := []
      lines := []
      past := r.past ++ [(r.stream, r.lines)] }

def step (r : Reader) : Event → Option Reader
  | .recv chunk => if r.sockOpen && !r.shouldStop && !chunk.isEmpty then some (r.recv chunk) else none
  | .closed => if r.sockOpen && !r.shouldStop then some r.closed else none
  | .attemptReconnect delayOver connected =>
    if !r.sockOpen && !r.shouldStop then some (r.attemptReconnect delayOver connected) else none
  | .stop => some { r with shouldStop := true }

end Reader

end Tim2Tox.IrcClient
