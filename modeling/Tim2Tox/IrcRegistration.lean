import Tim2Tox.IrcClient
import Mathlib.Data.List.Infix

set_option autoImplicit false

/-!
# Registration with an IRC server

What `processIrcMessage` does with the lines of one connection, and when it
sends the JOIN of its channel.
-/
namespace Tim2Tox.IrcClient

inductive ConnectionStatus
  | disconnected | connecting | authenticating | connected | reconnecting | error
  deriving DecidableEq

/-- The callbacks of the manager. -/
inductive Report
  | status (status : ConnectionStatus) (message : Bytes)
  | users (users : List Bytes)
  | joinPart (nickname : Bytes) (isJoin : Bool)
  | message (sender text : Bytes)
  deriving DecidableEq

/-- The channel on one connection: its configuration, what the lines of the server
    change, the commands sent and the callbacks made. -/
structure Session where
  channel : Bytes
  password : Bytes
  useSasl : Bool
  saslUsername : Bytes
  saslPassword : Bytes
  customNickname : Bytes
  baseNickname : Bytes
  nicknameSuffix : ℕ := 0
  saslAuthenticated : Bool := false
  joinSent : Bool := false
  connected : Bool := false
  shouldStop : Bool := false
  status : ConnectionStatus := .connecting
  userList : List Bytes := []
  sent : List Bytes := []
  reports : List Report := []

def contains (word line : Bytes) : Bool := decide (word <:+: line)

def nicknameFromPrefix (source : Bytes) : Bytes :=
  if 33 ∈ source then source.takeWhile (· ≠ 33)
  else if 64 ∈ source then source.takeWhile (· ≠ 64)
  else source

def paramsContainChannel (message : ParsedIrcMessage) (channel : Bytes) : Bool :=
  decide (message.trailing = some channel) || decide (channel ∈ message.params)

namespace Session

def send (s : Session) (command : Bytes) : Session := { s with sent := s.sent ++ [sendIrcCommand command] }

def report (s : Session) (report : Report) : Session := { s with reports := s.reports ++ [report] }

def updateConnectionStatus (s : Session) (status : ConnectionStatus) (message : Bytes) : Session :=
  { s with status }.report (.status status message)

def generateNickname (s : Session) : Bytes :=
  if s.customNickname ≠ [] ∧ s.nicknameSuffix = 0 then s.customNickname
  else if s.nicknameSuffix = 0 then s.baseNickname
  else s.baseNickname ++ ascii "_" ++ ascii (toString s.nicknameSuffix)

def handlePing (s : Session) (line : Bytes) : Session :=
  if 4 < line.length ∧ line.take 4 = ascii "PING" then s.send (ascii "PONG" ++ line.drop 4) else s

def joinCommand (s : Session) : Bytes :=
  ascii "JOIN " ++ s.channel ++ if s.password = [] then [] else ascii " " ++ s.password

def sendJoinIfNeeded (s : Session) : Session :=
  if s.joinSent then s else { s with joinSent := true }.send s.joinCommand

def handlePrivmsg (s : Session) (line : Bytes) : Session :=
  let parsed := parseIrcMessage line
  match parsed.params, parsed.trailing with
  | target :: _, some text =>
    if parsed.command = ascii "PRIVMSG" ∧ target = s.channel then
      s.report (.message (nicknameFromPrefix parsed.source) text)
    else s
  | _, _ => s

def isNameMark (b : UInt8) : Bool := b = 64 || b = 43 || b = 37 || b = 38 || b = 126

/-- The blanks of the C locale. -/
def isSpace (b : UInt8) : Bool := b = 32 || (9 ≤ b && b ≤ 13)

def handleNamesResponse (s : Session) (line : Bytes) : Session :=
  let parsed := parseIrcMessage line
  match parsed.trailing with
  | none => s
  | some names =>
    if paramsContainChannel parsed s.channel then
      let users := ((names.splitOnP isSpace).map fun name => name.dropWhile isNameMark).filter (· ≠ [])
      { s with userList := users }.report (.users users)
    else s

def handleJoinPart (s : Session) (line : Bytes) (isJoin : Bool) : Session :=
  let parsed := parseIrcMessage line
  let nickname := nicknameFromPrefix parsed.source
  if (parsed.command = ascii "JOIN" ∨ parsed.command = ascii "PART") ∧
      !paramsContainChannel parsed s.channel then s
  else if nickname = [] then s
  else
    let users :=
      if isJoin then (if nickname ∈ s.userList then s.userList else s.userList ++ [nickname])
      else s.userList.filter (· ≠ nickname)
    ({ s with userList := users }.report (.joinPart nickname isJoin)).report (.users users)

def base64Char (index : ℕ) : UInt8 :=
  (ascii "ABCDEFGHIJKLMNOPQRSTUVWXYZabcdefghijklmnopqrstuvwxyz0123456789+/").getD index 0

/-- Three bytes make four characters; what is missing at the end is padded. -/
def base64Encode : Bytes → Bytes
  | [] => []
  | [a] =>
    let val := a.toNat
    [base64Char (val / 4), base64Char (val % 4 * 16), 61, 61]
  | [a, b] =>
    let val := a.toNat * 256 + b.toNat
    [base64Char (val / 1024), base64Char (val / 16 % 64), base64Char (val % 16 * 4), 61]
  | a :: b :: c :: rest =>
    let val := (a.toNat * 256 + b.toNat) * 256 + c.toNat
    base64Char (val / 262144) :: base64Char (val / 4096 % 64) :: base64Char (val / 64 % 64) ::
      base64Char (val % 64) :: base64Encode rest

/-- The literal "\0" is an empty string, so only the name and the password are encoded. -/
def handleSaslAuth (s : Session) (line : Bytes) : Session :=
  if contains (ascii "AUTHENTICATE +") line then
    s.send (ascii "AUTHENTICATE " ++ base64Encode (s.saslUsername ++ s.saslPassword))
  else s

def handleNickConflict (s : Session) : Session :=
  let s := { s with nicknameSuffix := s.nicknameSuffix + 1 }
  s.send (ascii "NICK " ++ s.generateNickname)

/-- A line that contains "CAP" somewhere. -/
def handleCap (s : Session) (line : Bytes) : Session :=
  if contains (ascii "ACK :sasl") line || contains (ascii "ACK sasl") line then
    s.send (ascii "AUTHENTICATE PLAIN")
  else if contains (ascii "NAK") line then s
  else if contains (ascii "LS") line && contains (ascii "sasl") line then s.send (ascii "CAP REQ :sasl")
  else s

def isNumeric (command : Bytes) : Bool :=
  decide (command.length = 3) && command.head?.any fun b => 48 ≤ b && b ≤ 57

def isWelcome (command : Bytes) : Bool :=
  command = ascii "001" || command = ascii "002" || command = ascii "003"

def isSaslSuccess (command : Bytes) : Bool := command = ascii "900" || command = ascii "903"

def handleNumeric (s : Session) (line command : Bytes) : Session :=
  if isWelcome command then
    if !s.useSasl || s.saslAuthenticated then s.sendJoinIfNeeded else s
  else if isSaslSuccess command then
    ({ s with saslAuthenticated := true }.send (ascii "CAP END")).sendJoinIfNeeded
  else if command = ascii "904" ∨ command = ascii "905" then
    { s.updateConnectionStatus .error (ascii "SASL authentication failed") with shouldStop := true }
  else if command = ascii "433" then s.handleNickConflict
  else if command ∈ [ascii "471", ascii "473", ascii "474", ascii "475"] then
    s.updateConnectionStatus .error (ascii "Channel error: " ++ line)
  else s

def processIrcMessage (s : Session) (line : Bytes) : Session :=
  let parsed := parseIrcMessage line
  if line = [] ∨ parsed.command = [] then s
  else if parsed.command = ascii "PING" then s.handlePing line
  else if parsed.command = ascii "PRIVMSG" then s.handlePrivmsg line
  else if parsed.command = ascii "JOIN" ∧ paramsContainChannel parsed s.channel then
    let nick := nicknameFromPrefix parsed.source
    if nick ≠ [] ∧ nick = s.generateNickname then
      ({ s with connected := true }.updateConnectionStatus .connected
        (ascii "Connected to channel")).send (ascii "NAMES " ++ s.channel)
    else s.handleJoinPart line true
  else if parsed.command = ascii "QUIT" ∨
      (parsed.command = ascii "PART" ∧ paramsContainChannel parsed s.channel) then
    s.handleJoinPart line false
  else if parsed.command = ascii "353" then s.handleNamesResponse line
  else if parsed.command = ascii "366" then s
  else if contains (ascii "CAP") line then s.handleCap line
  else if parsed.command = ascii "AUTHENTICATE" then s.handleSaslAuth line
  else if isNumeric parsed.command then s.handleNumeric line parsed.command
  else s

/-- The lines of a connection, in order. -/
def processLines (s : Session) (lines : List Bytes) : Session := lines.foldl processIrcMessage s

/-- A connection is made, the first or one after it. -/
def connect (s : Session) (again : Bool) : Session :=
  let s := { s with saslAuthenticated := false, joinSent := false, connected := false, sent := [] }
  let nick := s.generateNickname
  let s :=
    if !s.useSasl then s
    else if again then s.send (ascii "CAP REQ :sasl")
    else (s.send (ascii "CAP REQ :sasl")).updateConnectionStatus .authenticating
      (ascii "Starting SASL authentication")
  let s := (s.send (ascii "NICK " ++ nick)).send (ascii "USER " ++ nick ++ ascii " 8 * :" ++ nick)
  if again then s.updateConnectionStatus .connecting (ascii "Reconnected, authenticating") else s

end Session

/-! ## When the channel is joined -/

def command (line : Bytes) : Bytes := (parseIrcMessage line).command

/-- A line without "CAP" in it gets past the test for capabilities. -/
def acts (line : Bytes) : Bool := !contains (ascii "CAP") line

def welcomes (line : Bytes) : Bool := command line = ascii "001"

/-- The exchange ends well with 900 or 903. -/
def finishes (line : Bytes) : Bool := Session.isSaslSuccess (command line)

def welcomed (lines : List Bytes) : Bool := lines.any welcomes

def finished (lines : List Bytes) : Bool := lines.any finishes

namespace Session

/-- How many JOINs of the channel were sent on this connection. -/
def joins (s : Session) : ℕ := s.sent.count (sendIrcCommand s.joinCommand)

/-- One JOIN at most, only after the welcome and the exchange, and then for certain. -/
structure JoinsInOrder (s : Session) (lines : List Bytes) : Prop where
  once : s.joins ≤ 1
  afterWelcome : 0 < s.joins → welcomed lines = true
  afterSasl : 0 < s.joins → s.useSasl = true → finished lines = true
  sent : welcomed lines = true → (s.useSasl = true → finished lines = true) → 0 < s.joins

/-- What the client relies on at a line after others. -/
structure Orderly (useSasl : Bool) (before : List Bytes) (line : Bytes) : Prop where
  /-- 900 and 903 follow the welcome, and 002 and 003 without SASL. -/
  later : acts line = true →
    (finishes line = true ∨ useSasl = false ∧ isWelcome (command line) = true ∧ welcomes line = false) →
    welcomed before = true
  /-- The welcome itself is seen. -/
  seen : useSasl = false → welcomes line = true → welcomed before = false → acts line = true
  /-- The welcome precedes the end of the exchange. -/
  first : useSasl = true → welcomes line = true → welcomed before = false → finished before = false
  /-- The end of the exchange is seen. -/
  ends : useSasl = true → finishes line = true → welcomed before = true → finished before = false →
    acts line = true

/-! ## What one line does -/

/-- What the registration rests on is the same, and no JOIN was sent. -/
structure Keeps (s s' : Session) : Prop where
  channel : s'.channel = s.channel
  password : s'.password = s.password
  useSasl : s'.useSasl = s.useSasl
  saslAuthenticated : s'.saslAuthenticated = s.saslAuthenticated
  joinSent : s'.joinSent = s.joinSent
  joins : s'.joins = s.joins

theorem keeps_refl (s : Session) : Keeps s s := ⟨rfl, rfl, rfl, rfl, rfl, rfl⟩

theorem Keeps.trans {a b c : Session} (hab : Keeps a b) (hbc : Keeps b c) : Keeps a c := by
  refine ⟨hbc.channel.trans hab.channel, hbc.password.trans hab.password,
    hbc.useSasl.trans hab.useSasl, hbc.saslAuthenticated.trans hab.saslAuthenticated,
    hbc.joinSent.trans hab.joinSent, hbc.joins.trans hab.joins⟩

theorem sendIrcCommand_head (command : Bytes) (h : command.head? ≠ some 74) :
    (sendIrcCommand command).head? ≠ some 74 := by
  unfold sendIrcCommand
  cases command with
  | nil => decide
  | cons b rest =>
    split_ifs
    · exact h
    · exact h

theorem joinCommand_head (s : Session) : (sendIrcCommand s.joinCommand).head? = some 74 := by
  have h : ∃ rest, s.joinCommand = 74 :: rest := ⟨_, rfl⟩
  obtain ⟨rest, hrest⟩ := h
  unfold sendIrcCommand
  rw [hrest]
  split_ifs
  · rfl
  · rfl

/-- Only the JOIN starts with a J. -/
theorem send_keeps (s : Session) (command : Bytes) (h : command.head? ≠ some 74) :
    Keeps s (s.send command) := by
  refine ⟨rfl, rfl, rfl, rfl, rfl, ?_⟩
  have hne : sendIrcCommand command ≠ sendIrcCommand s.joinCommand := by
    intro heq
    exact sendIrcCommand_head command h (heq ▸ s.joinCommand_head)
  have hcount : [sendIrcCommand command].count (sendIrcCommand s.joinCommand) = 0 := by
    rw [List.count_singleton, if_neg (by simpa using hne)]
  have happ : (s.send command).joins =
      s.joins + [sendIrcCommand command].count (sendIrcCommand s.joinCommand) :=
    List.count_append
  rw [happ, hcount, Nat.add_zero]

theorem report_keeps (s : Session) (report : Report) : Keeps s (s.report report) :=
  ⟨rfl, rfl, rfl, rfl, rfl, rfl⟩

theorem updateConnectionStatus_keeps (s : Session) (status : ConnectionStatus) (message : Bytes) :
    Keeps s (s.updateConnectionStatus status message) := ⟨rfl, rfl, rfl, rfl, rfl, rfl⟩

theorem handlePing_keeps (s : Session) (line : Bytes) : Keeps s (s.handlePing line) := by
  unfold handlePing
  split_ifs
  · exact s.send_keeps _ (by simp [ascii])
  · exact s.keeps_refl

theorem handlePrivmsg_keeps (s : Session) (line : Bytes) : Keeps s (s.handlePrivmsg line) := by
  unfold handlePrivmsg
  dsimp only
  split
  · split_ifs
    · exact s.report_keeps _
    · exact s.keeps_refl
  · exact s.keeps_refl

theorem handleNamesResponse_keeps (s : Session) (line : Bytes) :
    Keeps s (s.handleNamesResponse line) := by
  unfold handleNamesResponse
  dsimp only
  split
  · exact s.keeps_refl
  · split_ifs
    · exact ⟨rfl, rfl, rfl, rfl, rfl, rfl⟩
    · exact s.keeps_refl

theorem handleJoinPart_keeps (s : Session) (line : Bytes) (isJoin : Bool) :
    Keeps s (s.handleJoinPart line isJoin) := by
  unfold handleJoinPart
  dsimp only
  split_ifs
  · exact s.keeps_refl
  · exact s.keeps_refl
  · exact ⟨rfl, rfl, rfl, rfl, rfl, rfl⟩
  · exact ⟨rfl, rfl, rfl, rfl, rfl, rfl⟩
  · exact ⟨rfl, rfl, rfl, rfl, rfl, rfl⟩

theorem handleSaslAuth_keeps (s : Session) (line : Bytes) : Keeps s (s.handleSaslAuth line) := by
  unfold handleSaslAuth
  split_ifs
  · exact s.send_keeps _ (by simp [ascii])
  · exact s.keeps_refl

theorem handleNickConflict_keeps (s : Session) : Keeps s s.handleNickConflict := by
  have hmark : Keeps s { s with nicknameSuffix := s.nicknameSuffix + 1 } :=
    ⟨rfl, rfl, rfl, rfl, rfl, rfl⟩
  exact hmark.trans (send_keeps _ _ (by simp [ascii]))

theorem handleCap_keeps (s : Session) (line : Bytes) : Keeps s (s.handleCap line) := by
  unfold handleCap
  split_ifs
  · exact s.send_keeps _ (by decide)
  · exact s.keeps_refl
  · exact s.send_keeps _ (by decide)
  · exact s.keeps_refl

/-- The lines the JOIN may be sent at. -/
def joinsAt (s : Session) (line : Bytes) : Bool :=
  acts line && (finishes line || isWelcome (command line) && (!s.useSasl || s.saslAuthenticated))

/-- What one line changes of the registration. -/
structure Registers (s : Session) (line : Bytes) (s' : Session) : Prop where
  useSasl : s'.useSasl = s.useSasl
  saslAuthenticated : s'.saslAuthenticated = (s.saslAuthenticated || (acts line && finishes line))
  joinSent : s'.joinSent = (s.joinSent || s.joinsAt line)
  joins : s'.joins = s.joins + if s.joinsAt line && !s.joinSent then 1 else 0

theorem Keeps.registers {s s' : Session} (h : Keeps s s') (line : Bytes)
    (hends : (acts line && finishes line) = false) (hjoins : s.joinsAt line = false) :
    Registers s line s' := by
  refine ⟨h.useSasl, ?_, ?_, ?_⟩
  · rw [h.saslAuthenticated, hends, Bool.or_false]
  · rw [h.joinSent, hjoins, Bool.or_false]
  · rw [h.joins, hjoins]
    rfl

/-- A line of another command. -/
theorem Keeps.aside {s s' : Session} (h : Keeps s s') (line : Bytes) {word : Bytes}
    (hword : command line = word) (hwelcome : isWelcome word = false)
    (hends : isSaslSuccess word = false) : Registers s line s' := by
  have hfin : finishes line = false := by
    unfold finishes
    rw [hword, hends]
  refine h.registers line ?_ ?_
  · rw [hfin, Bool.and_false]
  · unfold joinsAt
    rw [hfin, hword, hwelcome, Bool.false_and, Bool.or_false, Bool.and_false]

theorem sendJoinIfNeeded_joins (s : Session) :
    s.sendJoinIfNeeded.joins = s.joins + if s.joinSent then 0 else 1 := by
  unfold sendJoinIfNeeded
  split_ifs
  · rfl
  · have hadd : ({ s with joinSent := true }.send s.joinCommand).joins =
        s.joins + [sendIrcCommand s.joinCommand].count (sendIrcCommand s.joinCommand) :=
      List.count_append
    rw [hadd, List.count_singleton_self]

theorem sendJoinIfNeeded_joinSent (s : Session) : s.sendJoinIfNeeded.joinSent = true := by
  unfold sendJoinIfNeeded
  split_ifs with h
  · exact h
  · rfl

theorem sendJoinIfNeeded_useSasl (s : Session) : s.sendJoinIfNeeded.useSasl = s.useSasl := by
  unfold sendJoinIfNeeded
  split_ifs
  · rfl
  · rfl

theorem sendJoinIfNeeded_saslAuthenticated (s : Session) :
    s.sendJoinIfNeeded.saslAuthenticated = s.saslAuthenticated := by
  unfold sendJoinIfNeeded
  split_ifs
  · rfl
  · rfl

/-- The numerics of the welcome are not those of the exchange. -/
theorem isSaslSuccess_of_isWelcome {code : Bytes} (h : isWelcome code = true) :
    isSaslSuccess code = false := by
  simp only [isWelcome, Bool.or_eq_true, decide_eq_true_eq] at h
  rcases h with (h | h) | h
  · rw [h]
    decide
  · rw [h]
    decide
  · rw [h]
    decide

theorem isNumeric_of_isWelcome {code : Bytes} (h : isWelcome code = true) : isNumeric code = true := by
  simp only [isWelcome, Bool.or_eq_true, decide_eq_true_eq] at h
  rcases h with (h | h) | h
  · rw [h]
    decide
  · rw [h]
    decide
  · rw [h]
    decide

theorem isNumeric_of_isSaslSuccess {code : Bytes} (h : isSaslSuccess code = true) :
    isNumeric code = true := by
  simp only [isSaslSuccess, Bool.or_eq_true, decide_eq_true_eq] at h
  rcases h with h | h
  · rw [h]
    decide
  · rw [h]
    decide

theorem handleNumeric_registers (s : Session) (line : Bytes) (hacts : acts line = true) :
    Registers s line (s.handleNumeric line (command line)) := by
  unfold handleNumeric
  split_ifs with hwelcome hmay hends hfailed hnick hchannel
  · have hfin : finishes line = false := isSaslSuccess_of_isWelcome hwelcome
    have hat : s.joinsAt line = true := by
      unfold joinsAt
      rw [hacts, hwelcome, hmay, hfin]
      rfl
    refine ⟨s.sendJoinIfNeeded_useSasl, ?_, ?_, ?_⟩
    · rw [s.sendJoinIfNeeded_saslAuthenticated, hfin, Bool.and_false, Bool.or_false]
    · rw [s.sendJoinIfNeeded_joinSent, hat, Bool.or_true]
    · rw [s.sendJoinIfNeeded_joins, hat]
      cases s.joinSent
      · rfl
      · rfl
  · have hfin : finishes line = false := isSaslSuccess_of_isWelcome hwelcome
    refine s.keeps_refl.registers line ?_ ?_
    · rw [hfin, Bool.and_false]
    · unfold joinsAt
      rw [hfin, eq_false_of_ne_true hmay, Bool.and_false, Bool.or_false, Bool.and_false]
  · have hfin : finishes line = true := hends
    have hat : s.joinsAt line = true := by
      unfold joinsAt
      rw [hacts, hfin]
      rfl
    have hkeeps : Keeps { s with saslAuthenticated := true }
        ({ s with saslAuthenticated := true }.send (ascii "CAP END")) :=
      send_keeps _ _ (by decide)
    refine ⟨?_, ?_, ?_, ?_⟩
    · rw [sendJoinIfNeeded_useSasl, hkeeps.useSasl]
    · rw [sendJoinIfNeeded_saslAuthenticated, hkeeps.saslAuthenticated, hacts, hfin, Bool.true_and,
        Bool.or_true]
    · rw [sendJoinIfNeeded_joinSent, hat, Bool.or_true]
    · rw [sendJoinIfNeeded_joins, hkeeps.joins, hkeeps.joinSent, hat]
      dsimp only
      have hsame : ({ s with saslAuthenticated := true } : Session).joins = s.joins := rfl
      rw [hsame]
      cases s.joinSent
      · rfl
      · rfl
  all_goals
    have hw : isWelcome (command line) = false := eq_false_of_ne_true hwelcome
    have hfin : isSaslSuccess (command line) = false := eq_false_of_ne_true hends
  · have hkeeps : Keeps s ({ s.updateConnectionStatus .error (ascii "SASL authentication failed") with
        shouldStop := true }) := ⟨rfl, rfl, rfl, rfl, rfl, rfl⟩
    exact hkeeps.aside line rfl hw hfin
  · exact s.handleNickConflict_keeps.aside line rfl hw hfin
  · exact (s.updateConnectionStatus_keeps _ _).aside line rfl hw hfin
  · exact s.keeps_refl.aside line rfl hw hfin

theorem processIrcMessage_registers (s : Session) (line : Bytes) :
    Registers s line (s.processIrcMessage line) := by
  unfold processIrcMessage
  dsimp only
  split_ifs with hnone hping htext hjoin hself hleave hnames hend hcap hauth hnumeric
  · have hcommand : command line = [] := by
      rcases hnone with hline | hcommand
      · rw [hline]
        rfl
      · exact hcommand
    exact s.keeps_refl.aside line hcommand (by decide) (by decide)
  · exact (s.handlePing_keeps line).aside line hping (by decide) (by decide)
  · exact (s.handlePrivmsg_keeps line).aside line htext (by decide) (by decide)
  · have hmark : Keeps s ({ s with connected := true }.updateConnectionStatus .connected
        (ascii "Connected to channel")) := ⟨rfl, rfl, rfl, rfl, rfl, rfl⟩
    have hsend : Keeps s (({ s with connected := true }.updateConnectionStatus .connected
        (ascii "Connected to channel")).send (ascii "NAMES " ++ s.channel)) :=
      hmark.trans (send_keeps _ _ (by simp [ascii]))
    exact hsend.aside line hjoin.1 (by decide) (by decide)
  · exact (s.handleJoinPart_keeps line true).aside line hjoin.1 (by decide)
      (by decide)
  · rcases hleave with hquit | hpart
    · exact (s.handleJoinPart_keeps line false).aside line hquit (by decide)
        (by decide)
    · exact (s.handleJoinPart_keeps line false).aside line hpart.1 (by decide)
        (by decide)
  · exact (s.handleNamesResponse_keeps line).aside line hnames (by decide)
      (by decide)
  · exact s.keeps_refl.aside line hend (by decide) (by decide)
  · have hacts : acts line = false := by
      unfold acts
      rw [hcap]
      rfl
    refine (s.handleCap_keeps line).registers line ?_ ?_
    · rw [hacts, Bool.false_and]
    · unfold joinsAt
      rw [hacts, Bool.false_and]
  · exact (s.handleSaslAuth_keeps line).aside line hauth (by decide) (by decide)
  · have hacts : acts line = true := by
      unfold acts
      rw [eq_false_of_ne_true hcap]
      rfl
    exact s.handleNumeric_registers line hacts
  · have hword : isWelcome (command line) = false := by
      cases hwelcome : isWelcome (command line) with
      | false => rfl
      | true => exact absurd (isNumeric_of_isWelcome hwelcome) hnumeric
    have hfin : isSaslSuccess (command line) = false := by
      cases hends : isSaslSuccess (command line) with
      | false => rfl
      | true => exact absurd (isNumeric_of_isSaslSuccess hends) hnumeric
    exact s.keeps_refl.aside line rfl hword hfin

/-! ## What all the lines do -/

/-- The JOIN has been sent. -/
def joined (useSasl : Bool) (lines : List Bytes) : Bool :=
  lines.any fun line => acts line && (finishes line || isWelcome (command line) && !useSasl)

/-- The JOIN should have been sent. -/
def due (useSasl : Bool) (lines : List Bytes) : Bool :=
  welcomed lines && (!useSasl || finished lines)

theorem connect_keeps (s : Session) (again : Bool) :
    Keeps { s with saslAuthenticated := false, joinSent := false, connected := false, sent := [] }
      (s.connect again) := by
  unfold connect
  dsimp only
  have hnick : ∀ t : Session, ∀ nick : Bytes,
      Keeps t ((t.send (ascii "NICK " ++ nick)).send (ascii "USER " ++ nick ++ ascii " 8 * :" ++ nick)) := by
    intro t nick
    exact (t.send_keeps _ (by simp [ascii])).trans (send_keeps _ _ (by simp [ascii]))
  have hcap : ∀ t : Session, Keeps t (t.send (ascii "CAP REQ :sasl")) :=
    fun t => t.send_keeps _ (by decide)
  split_ifs
  · exact (hnick _ _).trans (updateConnectionStatus_keeps _ _ _)
  · exact ((hcap _).trans (hnick _ _)).trans (updateConnectionStatus_keeps _ _ _)
  · exact hnick _ _
  · exact ((hcap _).trans (updateConnectionStatus_keeps _ _ _)).trans (hnick _ _)

/-- The flags of the registration, by the lines. -/
structure Registered (useSasl : Bool) (lines : List Bytes) (s : Session) : Prop where
  configured : s.useSasl = useSasl
  saslAuthenticated : s.saslAuthenticated = lines.any fun line => acts line && finishes line
  joinSent : s.joinSent = joined useSasl lines
  joins : s.joins = if joined useSasl lines then 1 else 0

theorem connect_registered (s : Session) (again : Bool) :
    Registered s.useSasl [] (s.connect again) := by
  have h := s.connect_keeps again
  exact ⟨h.useSasl, h.saslAuthenticated, h.joinSent, h.joins⟩

/-- The exchange ended, so the JOIN was sent. -/
theorem joined_of_ended {useSasl : Bool} {lines : List Bytes}
    (h : (lines.any fun line => acts line && finishes line) = true) : joined useSasl lines = true := by
  rw [List.any_eq_true] at h
  obtain ⟨line, hmem, hline⟩ := h
  unfold joined
  rw [List.any_eq_true]
  refine ⟨line, hmem, ?_⟩
  rw [Bool.and_eq_true] at hline
  rw [hline.1, hline.2]
  rfl

theorem Registered.line {useSasl : Bool} {lines : List Bytes} {s : Session}
    (h : Registered useSasl lines s) (line : Bytes) :
    Registered useSasl (lines ++ [line]) (s.processIrcMessage line) := by
  have hstep := s.processIrcMessage_registers line
  have hsent : (s.processIrcMessage line).joinSent = joined useSasl (lines ++ [line]) := by
    rw [hstep.joinSent, h.joinSent]
    unfold joinsAt
    rw [h.configured, h.saslAuthenticated]
    cases hended : lines.any fun line => acts line && finishes line with
    | true =>
      have hjoined := @joined_of_ended useSasl _ hended
      unfold joined at hjoined ⊢
      rw [List.any_append, hjoined, Bool.true_or, Bool.true_or]
    | false =>
      unfold joined
      rw [List.any_append, List.any_cons, List.any_nil, Bool.or_false, Bool.or_false]
  refine ⟨hstep.useSasl.trans h.configured, ?_, hsent, ?_⟩
  · rw [hstep.saslAuthenticated, h.saslAuthenticated, List.any_append, List.any_cons, List.any_nil,
      Bool.or_false]
  · have hboth := hstep.joinSent
    rw [hsent, h.joinSent] at hboth
    rw [hstep.joins, h.joins, h.joinSent, hboth]
    cases joined useSasl lines with
    | true => simp
    | false => simp

theorem processLines_registered (s : Session) (again : Bool) (lines : List Bytes) :
    Registered s.useSasl lines ((s.connect again).processLines lines) := by
  induction lines using List.reverseRecOn with
  | nil => exact s.connect_registered again
  | append_singleton lines line ih =>
    unfold processLines at ih ⊢
    rw [List.foldl_append]
    exact ih.line line

/-- In order is: sent when due. -/
theorem Registered.inOrder_iff {useSasl : Bool} {lines : List Bytes} {s : Session}
    (h : Registered useSasl lines s) :
    JoinsInOrder s lines ↔ joined useSasl lines = due useSasl lines := by
  have hjoins := h.joins
  constructor
  · intro horder
    cases hjoined : joined useSasl lines with
    | true =>
      rw [hjoined] at hjoins
      have hpos : 0 < s.joins := by
        rw [hjoins]
        decide
      have hsasl : (!useSasl || finished lines) = true := by
        cases huse : useSasl with
        | false => rfl
        | true => exact horder.afterSasl hpos (h.configured.trans huse)
      unfold due
      rw [horder.afterWelcome hpos, hsasl]
      rfl
    | false =>
      rw [hjoined] at hjoins
      cases hdue : due useSasl lines with
      | false => rfl
      | true =>
        unfold due at hdue
        rw [Bool.and_eq_true] at hdue
        have hpos : 0 < s.joins := by
          refine horder.sent hdue.1 ?_
          intro huse
          have hends := hdue.2
          rw [← h.configured, huse] at hends
          exact hends
        rw [hjoins] at hpos
        exact absurd hpos (by decide)
  · intro heq
    rw [heq] at hjoins
    refine ⟨?_, ?_, ?_, ?_⟩
    · rw [hjoins]
      split_ifs
      · exact Nat.le_refl 1
      · exact Nat.zero_le 1
    · intro hpos
      cases hdue : due useSasl lines with
      | false =>
        rw [hjoins, hdue] at hpos
        exact absurd hpos (by decide)
      | true =>
        unfold due at hdue
        rw [Bool.and_eq_true] at hdue
        exact hdue.1
    · intro hpos huse
      cases hdue : due useSasl lines with
      | false =>
        rw [hjoins, hdue] at hpos
        exact absurd hpos (by decide)
      | true =>
        unfold due at hdue
        rw [Bool.and_eq_true] at hdue
        have hends := hdue.2
        rw [← h.configured, huse] at hends
        exact hends
    · intro hwelcome hends
      have hdue : due useSasl lines = true := by
        unfold due
        rw [hwelcome, Bool.true_and]
        cases huse : useSasl with
        | false => rfl
        | true => exact hends (h.configured.trans huse)
      rw [hjoins, hdue]
      decide

theorem isWelcome_of_welcomes {line : Bytes} (h : welcomes line = true) :
    isWelcome (command line) = true := by
  unfold welcomes at h
  rw [decide_eq_true_eq] at h
  rw [h]
  decide

/-- One more line after lines that were in order. -/
theorem due_line_iff (useSasl : Bool) (before : List Bytes) (line : Bytes)
    (h : joined useSasl before = due useSasl before) :
    joined useSasl (before ++ [line]) = due useSasl (before ++ [line]) ↔
      Orderly useSasl before line := by
  have hjoined : joined useSasl (before ++ [line]) = (joined useSasl before ||
      acts line && (finishes line || isWelcome (command line) && !useSasl)) := by
    unfold joined
    rw [List.any_append, List.any_cons, List.any_nil, Bool.or_false]
  have hdue : due useSasl (before ++ [line]) = ((welcomed before || welcomes line) &&
      (!useSasl || (finished before || finishes line))) := by
    unfold due welcomed finished
    rw [List.any_append, List.any_append, List.any_cons, List.any_nil, List.any_cons, List.any_nil,
      Bool.or_false, Bool.or_false]
  have hword : welcomes line = true → isWelcome (command line) = true := isWelcome_of_welcomes
  have hapart : isWelcome (command line) = true → finishes line = false := isSaslSuccess_of_isWelcome
  have hbefore : due useSasl before = (welcomed before && (!useSasl || finished before)) := rfl
  rw [hjoined, hdue, h, hbefore]
  constructor
  · intro heq
    refine ⟨?_, ?_, ?_, ?_⟩
    · intro hacts hcase
      grind
    · intro huse hwelcome hnew
      grind
    · intro huse hwelcome hnew
      grind
    · intro huse hends hwelcome hnew
      grind
  · rintro ⟨hlater, hseen, hfirst, hends⟩
    cases useSasl with
    | false => grind
    | true => grind

/-- On every connection, and after every line of it, the JOIN of the channel was sent once when the
    welcome and the end of the exchange were received and not before, if and only if the lines
    came as the client relies on. -/
theorem join_in_order_iff (s : Session) (again : Bool) (lines : List Bytes) :
    (∀ before, before <+: lines → JoinsInOrder ((s.connect again).processLines before) before) ↔
      ∀ before line, before ++ [line] <+: lines → Orderly s.useSasl before line := by
  constructor
  · intro horder before line hpre
    have hbefore := (s.processLines_registered again before).inOrder_iff.mp
      (horder before ((List.prefix_append before [line]).trans hpre))
    have hafter := (s.processLines_registered again (before ++ [line])).inOrder_iff.mp
      (horder (before ++ [line]) hpre)
    exact (due_line_iff s.useSasl before line hbefore).mp hafter
  · intro horderly before
    induction before using List.reverseRecOn with
    | nil =>
      intro _
      exact (s.processLines_registered again []).inOrder_iff.mpr rfl
    | append_singleton before line ih =>
      intro hpre
      have hbefore := (s.processLines_registered again before).inOrder_iff.mp
        (ih ((List.prefix_append before [line]).trans hpre))
      exact (s.processLines_registered again (before ++ [line])).inOrder_iff.mpr
        ((due_line_iff s.useSasl before line hbefore).mpr (horderly before line hpre))

def captain : Session where
  channel := ascii "#sea"
  password := []
  useSasl := false
  saslUsername := []
  saslPassword := []
  customNickname := ascii "CAPTAIN"
  baseNickname := ascii "CAPTAIN"

/-- The nickname hides the welcome; with SASL the JOIN precedes it. -/
theorem join_out_of_order :
    ¬ JoinsInOrder ((captain.connect false).processLines [ascii ":irc 001 CAPTAIN :Welcome"])
      [ascii ":irc 001 CAPTAIN :Welcome"] ∧
    ¬ JoinsInOrder ((({ captain with useSasl := true } : Session).connect false).processLines
        [ascii ":irc CAP * ACK :sasl", ascii "AUTHENTICATE +", ascii ":irc 903 * :done"])
      [ascii ":irc CAP * ACK :sasl", ascii "AUTHENTICATE +", ascii ":irc 903 * :done"] := by
  constructor
  · intro h
    have hwelcomed : welcomed [ascii ":irc 001 CAPTAIN :Welcome"] = true := by decide
    have hjoins : ¬ 0 < ((captain.connect false).processLines
      [ascii ":irc 001 CAPTAIN :Welcome"]).joins := by decide
    have hplain : ((captain.connect false).processLines
      [ascii ":irc 001 CAPTAIN :Welcome"]).useSasl = false := by decide
    refine hjoins (h.sent hwelcomed ?_)
    intro huse
    rw [hplain] at huse
    exact absurd huse (by decide)
  · intro h
    have hwelcomed := h.afterWelcome (by decide)
    exact absurd hwelcomed (by decide)

end Session

end Tim2Tox.IrcClient
