import Mathlib.Data.Set.Insert
import Tim2Tox.IrcMessages
import Tim2Tox.IrcRegistration
import Tim2Tox.LabelledRuns

set_option autoImplicit false

/-!
# The user list of a channel

NAMES replies, joins and parts as they come in lines, the membership they tell, and when the user
list is that membership.
-/
namespace Tim2Tox.IrcUsers
open IrcClient IrcMessages LabelledRuns

/-! ## Lines for a channel -/

/-- A nickname with the marks a NAMES reply puts before it. -/
structure Entry where
  marks : Bytes
  nick : Bytes
  marked : ∀ b ∈ marks, Session.isNameMark b = true
  nonempty : nick ≠ []
  noSpace : ∀ b ∈ nick, Session.isSpace b = false
  unmarked : ∀ b, nick.head? = some b → Session.isNameMark b = false

def Entry.text (e : Entry) : Bytes := e.marks ++ e.nick

/-- The names as they are written, with a blank between them. -/
def written : List Entry → Bytes
  | [] => []
  | [e] => e.text
  | e :: es => e.text ++ space :: written es

inductive Event where
  | names (entries : List Entry)
  | endOfNames
  | join (nick : Bytes)
  | part (nick : Bytes)

namespace Event

def command : Event → Bytes
  | .names _ => ascii "353"
  | .endOfNames => ascii "366"
  | .join _ => ascii "JOIN"
  | .part _ => ascii "PART"

/-- What the message has beside the command and the channel. -/
def Tells (message : Message) : Event → Prop
  | .names entries => message.trim.trailing.map Trailing.text = some (written entries)
  | .endOfNames => True
  | .join nick | .part nick => nick ≠ [] ∧ nicknameFromPrefix message.source = nick

end Event

structure ChannelLine (channel : Bytes) where
  event : Event
  message : Message
  plain : message.Plain
  command : upperCopy message.command.text = event.command
  addressed : paramsContainChannel message.trim.parsed channel = true
  tells : event.Tells message

/-! ## The membership -/

/-- Who is in the channel according to the lines; whether a NAMES reply is coming in, and whether
    any has. -/
structure Membership where
  present : Set Bytes
  listing : Bool
  known : Bool

def nicks (entries : List Entry) : List Bytes := entries.map Entry.nick

namespace Membership

def step (m : Membership) : Event → Membership
  | .names entries =>
    { present := if m.listing then m.present ∪ {nick | nick ∈ nicks entries} else {nick | nick ∈ nicks entries}
      listing := true
      known := true }
  | .endOfNames =>
    { present := if m.listing then m.present else ∅
      listing := false
      known := true }
  | .join nick => { m with present := insert nick m.present }
  | .part nick => { m with present := m.present \ {nick} }

/-- The list names those present, each once. -/
def Mirrors (m : Membership) (userList : List Bytes) : Prop :=
  userList.Nodup ∧ ∀ nick, nick ∈ userList ↔ nick ∈ m.present

/-- What is to hold once a reply is complete, and then after every line outside of a reply. -/
def Shown (m : Membership) (userList : List Bytes) : Prop :=
  m.known = true → m.listing = false → m.Mirrors userList

/-- A NAMES line names nobody twice, and a further one of the same reply again names all that are
    present; a reply has such a line unless the channel is known to be empty; the client's own JOIN
    comes before all NAMES lines or when it is listed. -/
def Fits (own : Bytes) (m : Membership) : Event → Prop
  | .names entries =>
    (nicks entries).Nodup ∧ (m.listing = true → ∀ nick ∈ m.present, nick ∈ nicks entries)
  | .endOfNames => m.listing = true ∨ (m.known = true ∧ m.present = ∅)
  | .join nick => nick = own → m.known = true → nick ∈ m.present
  | .part _ => True

/-- No line has come yet. -/
def start : Membership := ⟨∅, false, false⟩

end Membership

/-! ## Runs -/

abbrev State := Session × Membership

def step {channel : Bytes} (s : State) (line : ChannelLine channel) : Option State :=
  some (s.1.processIrcMessage line.message.line, s.2.step line.event)

/-! ## Names are read as they are written -/

theorem dropMarks (e : Entry) : e.text.dropWhile Session.isNameMark = e.nick := by
  rw [Entry.text, List.dropWhile_append_of_pos e.marked]
  obtain ⟨b, rest, hnick⟩ := List.exists_cons_of_ne_nil e.nonempty
  have hfirst := e.unmarked b (by rw [hnick]; rfl)
  rw [hnick, List.dropWhile_cons_of_neg]
  rw [hfirst]
  exact Bool.false_ne_true

theorem mark_ne_space {b : UInt8} (h : Session.isNameMark b = true) : Session.isSpace b = false := by
  simp only [Session.isNameMark, Bool.or_eq_true, decide_eq_true_eq] at h
  rcases h with (((rfl | rfl) | rfl) | rfl) | rfl <;> decide

theorem text_noSpace (e : Entry) : ∀ b ∈ e.text, Session.isSpace b = false := by
  intro b hb
  cases List.mem_append.mp hb with
  | inl hmark => exact mark_ne_space (e.marked b hmark)
  | inr hnick => exact e.noSpace b hnick

/-- The names that `handleNamesResponse` finds. -/
def namesIn (text : Bytes) : List Bytes :=
  ((text.splitOnP Session.isSpace).map fun name => name.dropWhile Session.isNameMark).filter (· ≠ [])

theorem namesIn_append (before after : Bytes) :
    namesIn (before ++ space :: after) = namesIn before ++ namesIn after := by
  rw [namesIn, List.splitOnP_append_cons _ _ (by decide), List.map_append, List.filter_append]
  rfl

theorem namesIn_text (e : Entry) : namesIn e.text = [e.nick] := by
  rw [namesIn, List.splitOnP_eq_singleton (text_noSpace e), List.map_singleton, dropMarks]
  exact List.filter_cons_of_pos (decide_eq_true e.nonempty)

theorem namesIn_written : ∀ entries : List Entry, namesIn (written entries) = nicks entries
  | [] => rfl
  | [e] => namesIn_text e
  | e :: e' :: es => by
    rw [written, namesIn_append, namesIn_text, namesIn_written (e' :: es)]
    · rfl
    · exact List.cons_ne_nil _ _

/-! ## What the session does with a line -/

/-- What the lines of the channel leave as it is. -/
structure Same (s s' : Session) : Prop where
  channel : s'.channel = s.channel
  nickname : s'.generateNickname = s.generateNickname

section
variable {channel : Bytes} (s : Session) (line : ChannelLine channel)

theorem parse_eq : parseIrcMessage line.message.line = line.message.trim.parsed :=
  parse_plain line.plain

theorem command_eq : (parseIrcMessage line.message.line).command = line.event.command := by
  rw [parse_eq]
  exact line.command

theorem line_ne_nil : line.message.line ≠ [] := by
  obtain ⟨b, hb, -⟩ := line_head line.plain
  rintro hnil
  rw [hnil] at hb
  cases hb

theorem addressed_eq (h : s.channel = channel) :
    paramsContainChannel (parseIrcMessage line.message.line) s.channel = true := by
  rw [parse_eq, h]
  exact line.addressed

theorem not_silent {command : Bytes} (h : line.event.command = command) (hne : command ≠ []) :
    ¬ (line.message.line = [] ∨ (parseIrcMessage line.message.line).command = []) := by
  rintro (hline | hcommand)
  · exact line_ne_nil line hline
  · rw [command_eq, h] at hcommand
    exact hne hcommand

theorem command_of {command : Bytes} (h : line.event.command = command) :
    (parseIrcMessage line.message.line).command = command := (command_eq line).trans h

theorem process_names {entries : List Entry} (hchannel : s.channel = channel)
    (h : line.event = .names entries) : s.processIrcMessage line.message.line =
      { s with userList := nicks entries }.report (.users (nicks entries)) := by
  have hevent : line.event.command = ascii "353" := by rw [h]; rfl
  have htrailing : (parseIrcMessage line.message.line).trailing = some (written entries) := by
    have htells := line.tells
    rw [h] at htells
    rw [parse_eq]
    exact htells
  have hnames : s.handleNamesResponse line.message.line =
      { s with userList := nicks entries }.report (.users (nicks entries)) := by
    rw [Session.handleNamesResponse]
    dsimp only
    rw [htrailing]
    dsimp only
    rw [if_pos (addressed_eq s line hchannel), ← namesIn_written]
    rfl
  rw [Session.processIrcMessage]
  dsimp only
  rw [if_neg (not_silent line hevent (by decide)), command_of line hevent,
    if_neg (by decide), if_neg (by decide),
    if_neg fun hjoin => absurd hjoin.1 (by decide), if_neg, if_pos rfl, hnames]
  rintro (hquit | hpart)
  · exact absurd hquit (by decide)
  · exact absurd hpart.1 (by decide)

theorem process_end (h : line.event = .endOfNames) : s.processIrcMessage line.message.line = s := by
  have hevent : line.event.command = ascii "366" := by rw [h]; rfl
  rw [Session.processIrcMessage]
  dsimp only
  rw [if_neg (not_silent line hevent (by decide)), command_of line hevent,
    if_neg (by decide), if_neg (by decide),
    if_neg fun hjoin => absurd hjoin.1 (by decide), if_neg, if_neg (by decide),
    if_pos rfl]
  rintro (hquit | hpart)
  · exact absurd hquit (by decide)
  · exact absurd hpart.1 (by decide)

/-- The nickname is that of the line, and the channel is named. -/
theorem handleJoinPart_eq {nick : Bytes} (hchannel : s.channel = channel) (hnick : nick ≠ [])
    (hsource : nicknameFromPrefix line.message.source = nick) (isJoin : Bool) :
    (s.handleJoinPart line.message.line isJoin).userList =
      (if isJoin then (if nick ∈ s.userList then s.userList else s.userList ++ [nick])
        else s.userList.filter (· ≠ nick)) ∧
    Same s (s.handleJoinPart line.message.line isJoin) := by
  have hfound : nicknameFromPrefix (parseIrcMessage line.message.line).source = nick := by
    rw [parse_eq]
    exact hsource
  have hnamed : ¬ (((parseIrcMessage line.message.line).command = ascii "JOIN" ∨
      (parseIrcMessage line.message.line).command = ascii "PART") ∧
      (!paramsContainChannel (parseIrcMessage line.message.line) s.channel) = true) := by
    rw [addressed_eq s line hchannel]
    exact fun h => Bool.false_ne_true h.2
  rw [Session.handleJoinPart]
  dsimp only
  rw [if_neg hnamed, hfound, if_neg hnick]
  exact ⟨rfl, rfl, rfl⟩

theorem process_join {nick : Bytes} (hchannel : s.channel = channel) (h : line.event = .join nick) :
    (s.processIrcMessage line.message.line).userList =
      (if nick = s.generateNickname ∨ nick ∈ s.userList then s.userList else s.userList ++ [nick]) ∧
    Same s (s.processIrcMessage line.message.line) := by
  have hevent : line.event.command = ascii "JOIN" := by rw [h]; rfl
  have htells : nick ≠ [] ∧ nicknameFromPrefix line.message.source = nick := by
    have htells := line.tells
    rw [h] at htells
    exact htells
  have hfound : nicknameFromPrefix (parseIrcMessage line.message.line).source = nick := by
    rw [parse_eq]
    exact htells.2
  have hjoin : (ascii "JOIN" = ascii "JOIN" ∧
      paramsContainChannel (parseIrcMessage line.message.line) s.channel = true) :=
    ⟨rfl, addressed_eq s line hchannel⟩
  rw [Session.processIrcMessage]
  dsimp only
  rw [if_neg (not_silent line hevent (by decide)), command_of line hevent,
    if_neg (by decide), if_neg (by decide), if_pos hjoin, hfound]
  by_cases hown : nick = s.generateNickname
  · rw [if_pos ⟨htells.1, hown⟩, if_pos (.inl hown)]
    exact ⟨rfl, rfl, rfl⟩
  · obtain ⟨husers, hsame⟩ := handleJoinPart_eq s line hchannel htells.1 htells.2 true
    rw [if_neg fun hboth => hown hboth.2, husers, if_pos rfl]
    refine ⟨?_, hsame⟩
    by_cases hlisted : nick ∈ s.userList
    · rw [if_pos hlisted, if_pos (.inr hlisted)]
    · rw [if_neg hlisted, if_neg fun hor => hor.elim hown hlisted]

theorem process_part {nick : Bytes} (hchannel : s.channel = channel) (h : line.event = .part nick) :
    (s.processIrcMessage line.message.line).userList = s.userList.filter (· ≠ nick) ∧
    Same s (s.processIrcMessage line.message.line) := by
  have hevent : line.event.command = ascii "PART" := by rw [h]; rfl
  have htells : nick ≠ [] ∧ nicknameFromPrefix line.message.source = nick := by
    have htells := line.tells
    rw [h] at htells
    exact htells
  have hpart : ascii "PART" = ascii "QUIT" ∨ (ascii "PART" = ascii "PART" ∧
      paramsContainChannel (parseIrcMessage line.message.line) s.channel = true) :=
    .inr ⟨rfl, addressed_eq s line hchannel⟩
  rw [Session.processIrcMessage]
  dsimp only
  rw [if_neg (not_silent line hevent (by decide)), command_of line hevent,
    if_neg (by decide), if_neg (by decide),
    if_neg fun hjoin => absurd hjoin.1 (by decide), if_pos hpart]
  exact handleJoinPart_eq s line hchannel htells.1 htells.2 false

end

/-! ## The list is the membership -/

/-- Once a NAMES line has come, the list mirrors the membership. -/
structure Kept (channel own : Bytes) (s : State) : Prop where
  channel : s.1.channel = channel
  nickname : s.1.generateNickname = own
  users : s.2.known = true → s.2.Mirrors s.1.userList
  listed : s.2.listing = true → s.2.known = true

theorem kept_step {channel own : Bytes} {s s' : State} {line : ChannelLine channel}
    (h : Kept channel own s) (hfits : s.2.Fits own line.event) (hstep : step s line = some s') :
    Kept channel own s' := by
  obtain rfl := Option.some.inj hstep
  cases hevent : line.event with
  | names entries =>
    rw [hevent] at hfits
    obtain ⟨hnodup, hagain⟩ := hfits
    rw [process_names s.1 line h.channel hevent]
    refine ⟨h.channel, h.nickname, fun _ => ⟨hnodup, ?_⟩, fun _ => rfl⟩
    intro nick
    change nick ∈ nicks entries ↔ nick ∈ (if s.2.listing then _ else _)
    split_ifs with hlisting
    · rw [Set.mem_union]
      exact ⟨.inr, fun hor => hor.elim (hagain hlisting nick) id⟩
    · rfl
  | endOfNames =>
    rw [hevent] at hfits
    rw [process_end s.1 line hevent]
    refine ⟨h.channel, h.nickname, fun _ => ?_, fun _ => rfl⟩
    change Membership.Mirrors ⟨if s.2.listing then s.2.present else ∅, false, true⟩ s.1.userList
    cases hfits with
    | inl hlisting =>
      rw [if_pos hlisting]
      exact h.users (h.listed hlisting)
    | inr hempty =>
      obtain ⟨hknown, hnobody⟩ := hempty
      have hmirrors := h.users hknown
      rw [← hnobody, ite_self]
      exact hmirrors
  | join nick =>
    rw [hevent] at hfits
    obtain ⟨husers, hsame⟩ := process_join s.1 line h.channel hevent
    refine ⟨hsame.channel.trans h.channel, hsame.nickname.trans h.nickname, ?_, h.listed⟩
    intro hknown
    obtain ⟨hnodup, hmirrors⟩ := h.users hknown
    change Membership.Mirrors _ (s.1.processIrcMessage line.message.line).userList
    rw [husers]
    split_ifs with hthere
    · have hpresent : nick ∈ s.2.present := by
        cases hthere with
        | inl hown => exact hfits (hown.trans h.nickname) hknown
        | inr hlisted => exact (hmirrors nick).mp hlisted
      refine ⟨hnodup, ?_⟩
      intro other
      change other ∈ _ ↔ other ∈ insert nick s.2.present
      rw [Set.insert_eq_of_mem hpresent]
      exact hmirrors other
    · have habsent : nick ∉ s.1.userList := fun hlisted => hthere (.inr hlisted)
      refine ⟨?_, ?_⟩
      · rw [List.nodup_append_comm]
        exact List.nodup_cons.mpr ⟨habsent, hnodup⟩
      · intro other
        change other ∈ _ ↔ other ∈ insert nick s.2.present
        rw [List.mem_append, List.mem_singleton, hmirrors other, Set.mem_insert_iff, or_comm]
  | part nick =>
    obtain ⟨husers, hsame⟩ := process_part s.1 line h.channel hevent
    refine ⟨hsame.channel.trans h.channel, hsame.nickname.trans h.nickname, ?_, h.listed⟩
    intro hknown
    obtain ⟨hnodup, hmirrors⟩ := h.users hknown
    change Membership.Mirrors _ (s.1.processIrcMessage line.message.line).userList
    rw [husers]
    refine ⟨hnodup.filter _, ?_⟩
    intro other
    change _ ↔ other ∈ s.2.present \ {nick}
    rw [List.mem_filter, hmirrors other, Set.mem_sdiff, Set.mem_singleton_iff, decide_eq_true_eq]

/-- The list holds those present and nobody twice, as long as each NAMES reply is whole in one line. -/
theorem user_list_is_membership (s : Session) (lines : List (ChannelLine s.channel))
    (hfits : Meets step (fun state line => state.2.Fits s.generateNickname line.event) (s, .start) lines)
    {s' : State} (hrun : exec step (s, .start) lines = some s') : s'.2.Shown s'.1.userList := by
  have hstart : Kept s.channel s.generateNickname (s, .start) :=
    ⟨rfl, rfl, fun h => Bool.noConfusion h, fun h => Bool.noConfusion h⟩
  have hkept := invariant_of_meets (fun state line state' h hfits hstep => kept_step h hfits hstep)
    hstart hfits hrun
  exact fun hknown _ => hkept.users hknown

def sea : Session where
  channel := ascii "#sea"
  password := []
  useSasl := false
  saslUsername := []
  saslPassword := []
  customNickname := ascii "me"
  baseNickname := ascii "me"

def Entry.ofText (marks nick : Bytes)
    (h : (marks.all Session.isNameMark && !nick.isEmpty && nick.all (fun b => !Session.isSpace b) &&
      nick.head?.all fun b => !Session.isNameMark b) = true) : Entry where
  marks := marks
  nick := nick
  marked := by
    simp only [Bool.and_eq_true] at h
    exact List.all_eq_true.mp h.1.1.1
  nonempty := by
    simp only [Bool.and_eq_true] at h
    rintro rfl
    exact Bool.noConfusion h.1.1.2
  noSpace b hb := by
    simp only [Bool.and_eq_true] at h
    exact Bool.not_eq_true' _ |>.mp (List.all_eq_true.mp h.1.2 b hb)
  unmarked b hb := by
    simp only [Bool.and_eq_true] at h
    rw [hb] at h
    exact Bool.not_eq_true' _ |>.mp h.2

def ann : Entry := .ofText (ascii "@") (ascii "ann") (by decide)
def bob : Entry := .ofText [] (ascii "bob") (by decide)

theorem plain_of_all {m : Message}
    (h : (m.command :: m.params).all (fun word => word.text.all fun b => !isWhite b) = true) :
    m.Plain := by
  intro word hword b hb
  have hall := List.all_eq_true.mp (List.all_eq_true.mp h word hword) b hb
  exact Bool.not_eq_true' _ |>.mp hall

def seaWord : Word := .ofText (ascii "#sea") (by decide)

def namesMessage (text : Trailing) : Message :=
  ⟨ascii "irc", by decide, .ofText (ascii "353") (by decide),
    [.ofText (ascii "me") (by decide), .ofText (ascii "=") (by decide), seaWord],
    some text⟩

def annLine : ChannelLine sea.channel where
  event := .names [ann]
  message := namesMessage (.ofText (ascii "@ann") (by decide))
  plain := plain_of_all (by decide)
  command := by decide
  addressed := by decide
  tells := show Option.map _ _ = some _ by decide

def bobLine : ChannelLine sea.channel where
  event := .names [bob]
  message := namesMessage (.ofText (ascii "bob") (by decide))
  plain := plain_of_all (by decide)
  command := by decide
  addressed := by decide
  tells := show Option.map _ _ = some _ by decide

def endLine : ChannelLine sea.channel where
  event := .endOfNames
  message := ⟨ascii "irc", by decide, .ofText (ascii "366") (by decide),
    [.ofText (ascii "me") (by decide), seaWord], some (.ofText (ascii "End") (by decide))⟩
  plain := plain_of_all (by decide)
  command := by decide
  addressed := by decide
  tells := trivial

def bobJoins : ChannelLine sea.channel where
  event := .join (ascii "bob")
  message := ⟨ascii "bob!b@h", by decide, .ofText (ascii "JOIN") (by decide), [seaWord],
    none⟩
  plain := plain_of_all (by decide)
  command := by decide
  addressed := by decide
  tells := ⟨by decide, by decide⟩

/-- One reply, then a join. -/
theorem ann_and_bob_listed : ∃ s', exec step (sea, .start) [annLine, endLine, bobJoins] = some s' ∧
    s'.1.userList = [ascii "ann", ascii "bob"] ∧ s'.2.Shown s'.1.userList := by
  refine ⟨_, rfl, by decide, user_list_is_membership sea [annLine, endLine, bobJoins] ?_ rfl⟩
  refine ⟨⟨by decide, fun h => Bool.noConfusion h⟩, fun u hu => ?_⟩
  obtain rfl := Option.some.inj hu
  refine ⟨.inl rfl, fun u hu => ?_⟩
  obtain rfl := Option.some.inj hu
  refine ⟨fun hown => absurd hown (by decide), fun u hu => trivial⟩

/-- Of a reply in two lines only the second is left. -/
theorem first_names_lost :
    ¬ ∀ (s : Session) (lines : List (ChannelLine s.channel)) (s' : State),
      exec step (s, .start) lines = some s' → s'.2.Shown s'.1.userList := by
  intro h
  have hshown := h sea [annLine, bobLine, endLine] _ rfl rfl rfl
  have hann := (hshown.2 (ascii "ann")).mpr (.inl (show ascii "ann" ∈ nicks [ann] by decide))
  revert hann
  decide

end Tim2Tox.IrcUsers
