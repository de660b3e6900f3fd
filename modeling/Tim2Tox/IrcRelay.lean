import Tim2Tox.IrcClient

set_option autoImplicit false

/-!
# The IRC relay

What a server makes of the bytes written for a group message. The text goes into the line as it is,
so every line end in it begins a line of its own.
-/
namespace Tim2Tox.IrcClient

/-! ## The server's view -/

/-- The lines a server reads, by the bytes it takes for line ends; blank ones are ignored. -/
def serverLines (lineEnd : UInt8 → Bool) (written : Bytes) : List Bytes :=
  (written.splitOnP lineEnd).filter fun line => trimCopy line ≠ []

/-- The line is a PRIVMSG to the channel and to nothing else. -/
def toChannel (channel line : Bytes) : Bool :=
  (parseIrcMessage line).command = ascii "PRIVMSG" && (parseIrcMessage line).params = [channel] &&
    (parseIrcMessage line).trailing.isSome

/-- The name is one parameter of a line. -/
def isParameter (lineEnd : UInt8 → Bool) (channel : Bytes) : Bool :=
  (channel.head?.any fun b => !isWhite b && b ≠ colon) &&
    channel.all fun b => b ≠ space && !lineEnd b

section
variable {lineEnd : UInt8 → Bool}

theorem splitOnP_append_left {head rest : Bytes} (h : ∀ b ∈ head, lineEnd b = false) :
    (head ++ rest).splitOnP lineEnd = (rest.splitOnP lineEnd).modifyHead (head ++ ·) := by
  induction head with
  | nil => cases hrest : rest.splitOnP lineEnd <;> simp [hrest]
  | cons b head ih =>
    rw [List.cons_append, List.splitOnP_cons_eq_if_modifyHead, if_neg (by simp [h b]),
      ih fun c hc => h c (List.mem_cons_of_mem _ hc)]
    cases rest.splitOnP lineEnd <;> simp

theorem mem_splitOnP {stream : Bytes} : ∀ line ∈ stream.splitOnP lineEnd, ∀ b ∈ line,
    lineEnd b = false := by
  induction stream with
  | nil => simp
  | cons c stream ih =>
    rw [List.splitOnP_cons_eq_if_modifyHead]
    intro line hline b hb
    split_ifs at hline with hend
    · rcases List.mem_cons.mp hline with rfl | hline
      · contradiction
      · exact ih line hline b hb
    · obtain ⟨first, lines, hsplit⟩ :=
        List.exists_cons_of_ne_nil (List.splitOnP_ne_nil lineEnd stream)
      rw [hsplit] at hline ih
      rcases List.mem_cons.mp hline with rfl | hline
      · rcases List.mem_cons.mp hb with rfl | hb
        · simpa using hend
        · exact ih first List.mem_cons_self b hb
      · exact ih line (List.mem_cons_of_mem _ hline) b hb

end

/-! ## What the parser accepts -/

theorem trimCopy_start (value : Bytes) : trimCopy value <+: value.dropWhile isWhite :=
  List.rdropWhile_prefix isWhite _

theorem trimCopy_head {value : Bytes} {b : UInt8} {rest : Bytes} (h : trimCopy value = b :: rest) :
    isWhite b = false := by
  have hprefix := trimCopy_start value
  rw [h] at hprefix
  obtain ⟨after, hafter⟩ := hprefix
  have hne : value.dropWhile isWhite ≠ [] := by
    rw [← hafter]
    simp
  have hnot := List.head_dropWhile_not isWhite hne
  have hhead : (value.dropWhile isWhite).head hne = b := by
    simp only [← hafter]
    rfl
  rw [hhead] at hnot
  simpa using hnot

theorem mem_of_mem_trimCopy {value : Bytes} {b : UInt8} (h : b ∈ trimCopy value) : b ∈ value :=
  (List.dropWhile_suffix isWhite).subset ((trimCopy_start value).subset h)

theorem mem_of_cutAtSpace {rest after : Bytes} (h : (cutAtSpace rest).2 = some after) :
    ∀ b ∈ after, b ∈ rest := by
  unfold cutAtSpace at h
  dsimp only at h
  split_ifs at h
  obtain rfl := Option.some.inj h
  exact fun b hb => List.mem_of_mem_drop hb

/-- A parameter begins with neither white space nor a colon and has no blank in it. -/
def Parameter (allowed : UInt8 → Prop) (param : Bytes) : Prop :=
  (∃ b rest, param = b :: rest ∧ isWhite b = false ∧ b ≠ colon) ∧
    ∀ b ∈ param, b ≠ space ∧ allowed b

theorem parameter_of_cut {allowed : UInt8 → Prop} {b : UInt8} {rest : Bytes}
    (hwhite : isWhite b = false) (hcolon : b ≠ colon) (hallowed : ∀ c ∈ b :: rest, allowed c) :
    Parameter allowed (cutAtSpace (b :: rest)).1 := by
  have hspace : b ≠ space := by
    rintro rfl
    contradiction
  unfold cutAtSpace
  dsimp only
  rw [List.takeWhile_cons_of_pos (by simpa using hspace)]
  refine ⟨⟨b, _, rfl, hwhite, hcolon⟩, ?_⟩
  intro c hc
  rcases List.mem_cons.mp hc with rfl | hc
  · exact ⟨hspace, hallowed c List.mem_cons_self⟩
  · have hword : c ≠ space := by simpa using List.mem_takeWhile_imp hc
    exact ⟨hword, hallowed c (List.mem_cons_of_mem _ ((List.takeWhile_prefix _).subset hc))⟩

theorem parseParams_wellFormed {allowed : UInt8 → Prop} (turns : ℕ) : ∀ rest parsed,
    (∀ b tail, rest = b :: tail → isWhite b = false) → (∀ b ∈ rest, allowed b) →
    (∀ param ∈ parsed.params, Parameter allowed param) →
      ∀ param ∈ (parseParams turns rest parsed).params, Parameter allowed param := by
  induction turns with
  | zero => exact fun rest parsed _ _ h => h
  | succ turns ih =>
    intro rest parsed hwhite hallowed h
    cases rest with
    | nil => exact h
    | cons b rest =>
      unfold parseParams
      split_ifs with hcolon
      · exact h
      · have hword := parameter_of_cut (hwhite b rest rfl) hcolon hallowed
        have hmore : ∀ param ∈ parsed.params ++ [(cutAtSpace (b :: rest)).1],
            Parameter allowed param := by
          intro param hparam
          rcases List.mem_append.mp hparam with hold | hnew
          · exact h param hold
          · rw [List.mem_singleton.mp hnew]
            exact hword
        rcases hcut : cutAtSpace (b :: rest) with ⟨word, _ | after⟩
        · rw [hcut] at hmore
          exact hmore
        · rw [hcut] at hmore
          refine ih (trimCopy after) _ (fun c tail htrim => trimCopy_head htrim) ?_ hmore
          intro c hc
          exact hallowed c (mem_of_cutAtSpace (by rw [hcut]) c (mem_of_mem_trimCopy hc))

theorem parseCommand_wellFormed {allowed : UInt8 → Prop} {rest : Bytes} {parsed : ParsedIrcMessage}
    (hallowed : ∀ b ∈ rest, allowed b) (h : parsed.params = []) :
    ∀ param ∈ (parseCommand rest parsed).params, Parameter allowed param := by
  unfold parseCommand
  rcases hcut : cutAtSpace rest with ⟨word, _ | after⟩
  · simp [h]
  · refine parseParams_wellFormed _ _ _ (fun c tail htrim => trimCopy_head htrim) ?_ (by simp [h])
    intro c hc
    exact hallowed c (mem_of_cutAtSpace (by rw [hcut]) c (mem_of_mem_trimCopy hc))

/-- Whatever the line: the parameters the parser finds are parameters. -/
theorem parseIrcMessage_wellFormed {allowed : UInt8 → Prop} {line : Bytes}
    (hallowed : ∀ b ∈ line, allowed b) :
    ∀ param ∈ (parseIrcMessage line).params, Parameter allowed param := by
  unfold parseIrcMessage
  have htrimmed : ∀ b ∈ trimCopy line, allowed b := fun b hb => hallowed b (mem_of_mem_trimCopy hb)
  rcases htrim : trimCopy line with _ | ⟨b, rest⟩
  · simp
  · rw [htrim] at htrimmed
    dsimp only
    split_ifs
    · rcases hcut : cutAtSpace (b :: rest) with ⟨word, _ | after⟩
      · simp
      · refine parseCommand_wellFormed ?_ rfl
        intro c hc
        exact htrimmed c (mem_of_cutAtSpace (by rw [hcut]) c (mem_of_mem_trimCopy hc))
    · exact parseCommand_wellFormed htrimmed rfl

/-! ## A PRIVMSG line -/

theorem rdropWhile_append_of_not {p : UInt8 → Bool} {b : UInt8} (before after : Bytes)
    (hb : p b = false) :
    (before ++ b :: after).rdropWhile p = before ++ b :: after.rdropWhile p := by
  induction after using List.reverseRecOn with
  | nil => simp [hb]
  | append_singleton after c ih =>
    have hassoc : before ++ b :: (after ++ [c]) = (before ++ b :: after) ++ [c] := by simp
    rw [hassoc, List.rdropWhile_concat, List.rdropWhile_concat]
    split_ifs
    · exact ih
    · simp

/-- The first byte is not white, and a colon stands before what is trimmed at the end. -/
theorem trimCopy_colon {value before after : Bytes} {b : UInt8}
    (hvalue : value = before ++ colon :: after) (hfirst : value.head? = some b)
    (hb : isWhite b = false) :
    trimCopy value = before ++ colon :: after.rdropWhile isWhite := by
  have hdrop : value.dropWhile isWhite = value := by
    obtain ⟨rest, hcons⟩ := List.head?_eq_some_iff.mp hfirst
    rw [hcons, List.dropWhile_cons_of_neg (by simp [hb])]
  unfold trimCopy
  rw [hdrop, hvalue]
  exact rdropWhile_append_of_not _ _ (by decide)

theorem cutAtSpace_append (word rest : Bytes) (hword : ∀ b ∈ word, b ≠ space) :
    cutAtSpace (word ++ space :: rest) = (word, some rest) := by
  have htake : (word ++ space :: rest).takeWhile (· ≠ space) = word := by
    rw [List.takeWhile_append_of_pos (by simpa using hword)]
    simp
  unfold cutAtSpace
  dsimp only
  rw [htake]
  simp

theorem parseParams_privmsg {channel : Bytes} (turns : ℕ) (text : Bytes) (parsed : ParsedIrcMessage)
    (hhead : ∃ b rest, channel = b :: rest ∧ b ≠ colon) (hblank : ∀ b ∈ channel, b ≠ space) :
    ∃ shown, parseParams (turns + 2) (channel ++ space :: colon :: text) parsed =
      { parsed with params := parsed.params ++ [channel], trailing := some shown } := by
  obtain ⟨b, rest, hchannel, hcolon⟩ := hhead
  have hcut := cutAtSpace_append channel (colon :: text) hblank
  have htrim : trimCopy (colon :: text) = colon :: text.rdropWhile isWhite :=
    trimCopy_colon (List.nil_append _).symm rfl (by decide)
  rw [hchannel, List.cons_append] at hcut ⊢
  refine ⟨text.rdropWhile isWhite, ?_⟩
  rw [parseParams, if_neg hcolon, hcut]
  dsimp only
  rw [htrim, parseParams, if_pos rfl]

theorem isParameter_iff {lineEnd : UInt8 → Bool} {channel : Bytes} :
    isParameter lineEnd channel = true ↔ Parameter (fun b => lineEnd b = false) channel := by
  unfold isParameter Parameter
  cases channel <;> simp

/-- A line made for a channel whose name is a parameter, with any text without a line end. -/
theorem toChannel_privmsg {allowed : UInt8 → Prop} {channel : Bytes} (text : Bytes)
    (h : Parameter allowed channel) : toChannel channel (privmsg channel text) = true := by
  obtain ⟨⟨b, rest, hchannel, hwhite, hcolon⟩, hall⟩ := h
  have hblank : ∀ c ∈ channel, c ≠ space := fun c hc => (hall c hc).1
  have hline : privmsg channel text =
      (ascii "PRIVMSG" ++ space :: (channel ++ [space])) ++ colon :: text := by
    simp [privmsg, ascii, space, colon]
  have htrim : trimCopy (privmsg channel text) =
      (ascii "PRIVMSG" ++ space :: (channel ++ [space])) ++ colon :: text.rdropWhile isWhite :=
    trimCopy_colon hline (b := 80) rfl (by decide)
  have hrest : trimCopy (channel ++ space :: colon :: text.rdropWhile isWhite) =
      (channel ++ [space]) ++ colon :: (text.rdropWhile isWhite).rdropWhile isWhite := by
    refine trimCopy_colon (b := b) (by simp) ?_ hwhite
    simp [hchannel]
  have hcut := cutAtSpace_append (ascii "PRIVMSG")
    (channel ++ space :: colon :: text.rdropWhile isWhite) (by decide +kernel)
  generalize text.rdropWhile isWhite = shortened at htrim hrest hcut
  have hparse : ∃ shown, parseIrcMessage (privmsg channel text) =
      { command := ascii "PRIVMSG", params := [channel], trailing := some shown } := by
    have hturns : (channel ++ [space] ++ colon :: shortened.rdropWhile isWhite).length =
        channel.length + (shortened.rdropWhile isWhite).length + 2 := by
      simp
      omega
    obtain ⟨shown, hparams⟩ := parseParams_privmsg
      (channel.length + (shortened.rdropWhile isWhite).length) (shortened.rdropWhile isWhite)
      { command := ascii "PRIVMSG" } ⟨b, rest, hchannel, hcolon⟩ hblank
    refine ⟨shown, ?_⟩
    have hstart : trimCopy (privmsg channel text) = 80 :: (ascii "RIVMSG" ++
        space :: (channel ++ space :: colon :: shortened)) := by
      rw [htrim]
      simp [ascii]
    have hsame : (80 : UInt8) :: (ascii "RIVMSG" ++ space :: (channel ++ space :: colon :: shortened))
        = ascii "PRIVMSG" ++ space :: (channel ++ space :: colon :: shortened) := by
      simp [ascii]
    unfold parseIrcMessage
    rw [hstart]
    dsimp only
    rw [if_neg (by decide), parseCommand, hsame, hcut]
    dsimp only
    have hupper : upperCopy (ascii "PRIVMSG") = ascii "PRIVMSG" := by decide
    rw [hrest, hturns, hupper]
    simpa using hparams
  obtain ⟨shown, hparse⟩ := hparse
  simp [toChannel, hparse]

/-! ## The lines of one message -/

section
variable {lineEnd : UInt8 → Bool}

/-- A final line end adds an empty line at most. -/
theorem serverLines_sendIrcCommand (hfeed : lineEnd lineFeed = true) (command : Bytes) :
    serverLines lineEnd (sendIrcCommand command) = serverLines lineEnd command := by
  unfold sendIrcCommand
  split_ifs with hlast
  · rfl
  · unfold serverLines
    rw [List.splitOnP_append_cons _ _ hfeed, List.filter_append]
    simp [trimCopy]

theorem sendIrcCommand_last (command : Bytes) :
    (sendIrcCommand command).getLast? = some lineFeed := by
  unfold sendIrcCommand
  split_ifs with hlast
  · exact hlast
  · simp

/-- No byte of the command word is a line end. -/
theorem command_whole (hends : ∀ b, lineEnd b = true → b = 0 ∨ b = lineFeed ∨ b = carriageReturn) :
    ∀ b ∈ ascii "PRIVMSG ", lineEnd b = false := by
  intro b hb
  by_contra hend
  rcases hends b (by simpa using hend) with rfl | rfl | rfl
  · exact absurd hb (by decide)
  · exact absurd hb (by decide)
  · exact absurd hb (by decide)

theorem trimCopy_ne_nil {b : UInt8} {rest : Bytes} (hb : isWhite b = false) :
    trimCopy (b :: rest) ≠ [] := by
  unfold trimCopy
  rw [List.dropWhile_cons_of_neg (by simp [hb])]
  have hkept := rdropWhile_append_of_not [] rest hb
  rw [List.nil_append, List.nil_append] at hkept
  rw [hkept]
  simp

/-- The server reads a first line with the command word, whatever the channel and the text. -/
theorem exists_first_line (hends : ∀ b, lineEnd b = true → b = 0 ∨ b = lineFeed ∨ b = carriageReturn)
    (channel text : Bytes) : ∃ line ∈ serverLines lineEnd (privmsg channel text),
      ∀ b ∈ line, lineEnd b = false := by
  obtain ⟨first, lines, hsplit⟩ := List.exists_cons_of_ne_nil
    (List.splitOnP_ne_nil lineEnd (channel ++ (ascii " :" ++ text)))
  have hwhole : (privmsg channel text).splitOnP lineEnd = (ascii "PRIVMSG " ++ first) :: lines := by
    have hassoc : privmsg channel text = ascii "PRIVMSG " ++ (channel ++ (ascii " :" ++ text)) := by
      simp [privmsg]
    rw [hassoc, splitOnP_append_left (command_whole hends), hsplit, List.modifyHead_cons]
  have hmem : ascii "PRIVMSG " ++ first ∈ (privmsg channel text).splitOnP lineEnd := by
    rw [hwhole]
    exact List.mem_cons_self
  refine ⟨ascii "PRIVMSG " ++ first, List.mem_filter.mpr ⟨hmem, ?_⟩, mem_splitOnP _ hmem⟩
  have hblank : trimCopy (ascii "PRIVMSG " ++ first) ≠ [] := trimCopy_ne_nil (b := 80) (by decide)
  simpa using hblank

/-- With one parameter for the channel the first line is a PRIVMSG to it, and the further lines are
    those of the text. -/
theorem serverLines_privmsg
    (hends : ∀ b, lineEnd b = true → b = 0 ∨ b = lineFeed ∨ b = carriageReturn)
    {channel : Bytes} (hchannel : Parameter (fun b => lineEnd b = false) channel) (text : Bytes) :
    (∀ line ∈ serverLines lineEnd (privmsg channel text), toChannel channel line = true) ↔
      ∀ line ∈ (text.splitOnP lineEnd).tail, trimCopy line = [] ∨ toChannel channel line = true := by
  obtain ⟨first, lines, hsplit⟩ := List.exists_cons_of_ne_nil (List.splitOnP_ne_nil lineEnd text)
  have hhead : ∀ b ∈ ascii "PRIVMSG " ++ channel ++ ascii " :", lineEnd b = false := by
    intro b hb
    rcases List.mem_append.mp hb with hb | hb
    · rcases List.mem_append.mp hb with hb | hb
      · exact command_whole hends b hb
      · exact (hchannel.2 b hb).2
    · by_contra hend
      rcases hends b (by simpa using hend) with rfl | rfl | rfl
      · exact absurd hb (by decide)
      · exact absurd hb (by decide)
      · exact absurd hb (by decide)
  have hwhole : (privmsg channel text).splitOnP lineEnd = privmsg channel first :: lines := by
    unfold privmsg
    rw [splitOnP_append_left hhead, hsplit, List.modifyHead_cons]
  have hfirst := toChannel_privmsg first hchannel
  unfold serverLines
  rw [hwhole, hsplit]
  constructor
  · intro h line hline
    by_cases hblank : trimCopy line = []
    · exact Or.inl hblank
    · right
      exact h line (List.mem_filter.mpr ⟨List.mem_cons_of_mem _ hline, by simpa using hblank⟩)
  · intro h line hline
    obtain ⟨hmem, hblank⟩ := List.mem_filter.mp hline
    rcases List.mem_cons.mp hmem with rfl | hmem
    · exact hfirst
    · rcases h line hmem with hempty | hto
      · simp [hempty] at hblank
      · exact hto

end

/-! ## The relay -/

theorem sendMessage_eq {m : IrcClientManager} {channel message written : Bytes}
    (h : m.sendMessage channel message = some written) :
    written = sendIrcCommand (privmsg channel message) := by
  unfold IrcClientManager.sendMessage at h
  split at h
  · contradiction
  · split_ifs at h
    exact (Option.some.inj h).symm

theorem onToxGroupMessage_eq {m : IrcClientManager} {groupId sender message channel written : Bytes}
    (h : m.onToxGroupMessage groupId sender message = some (channel, written)) :
    written = sendIrcCommand (privmsg channel message) := by
  unfold IrcClientManager.onToxGroupMessage at h
  split_ifs at h
  split at h
  · contradiction
  · obtain ⟨bytes, hsend, hpair⟩ := Option.map_eq_some_iff.mp h
    obtain ⟨rfl, rfl⟩ := Prod.mk.inj hpair
    exact sendMessage_eq hsend

/-- Complete lines that a server all takes for messages to the channel: exactly when the name of
    the channel is a parameter and the text brings no other line along. -/
theorem relayed_text_stays_in_channel {lineEnd : UInt8 → Bool} (hfeed : lineEnd lineFeed = true)
    (hends : ∀ b, lineEnd b = true → b = 0 ∨ b = lineFeed ∨ b = carriageReturn)
    {m : IrcClientManager} {groupId sender channel message written : Bytes}
    (h : m.sendMessage channel message = some written ∨
      m.onToxGroupMessage groupId sender message = some (channel, written)) :
    (written.getLast? = some lineFeed ∧
      ∀ line ∈ serverLines lineEnd written, toChannel channel line = true) ↔
    (isParameter lineEnd channel = true ∧
      ∀ line ∈ (message.splitOnP lineEnd).tail,
        trimCopy line = [] ∨ toChannel channel line = true) := by
  have hwritten : written = sendIrcCommand (privmsg channel message) := by
    rcases h with hsend | hrelay
    · exact sendMessage_eq hsend
    · exact onToxGroupMessage_eq hrelay
  rw [hwritten, serverLines_sendIrcCommand hfeed, isParameter_iff]
  constructor
  · rintro ⟨-, hlines⟩
    obtain ⟨line, hline, hwhole⟩ := exists_first_line hends channel message
    have hto := hlines line hline
    have hchannel : Parameter (fun b => lineEnd b = false) channel := by
      refine parseIrcMessage_wellFormed hwhole channel ?_
      have hparams : (parseIrcMessage line).params = [channel] := by
        simp only [toChannel, Bool.and_eq_true, decide_eq_true_eq] at hto
        exact hto.1.2
      rw [hparams]
      exact List.mem_singleton_self channel
    exact ⟨hchannel, (serverLines_privmsg hends hchannel message).mp hlines⟩
  · rintro ⟨hchannel, htail⟩
    exact ⟨sendIrcCommand_last _, (serverLines_privmsg hends hchannel message).mpr htail⟩

/-- A server that takes both CR and LF for line ends. -/
def plainLineEnd (b : UInt8) : Bool := b = lineFeed || b = carriageReturn

/-- One connected channel, mapped to a group. -/
def oneChannel : IrcClientManager :=
  { channels := AList.singleton (ascii "#room") ⟨ascii "group", true, true⟩ }

theorem short_text_relayed :
    oneChannel.onToxGroupMessage (ascii "group") (ascii "alice") (ascii "hi") =
      some (ascii "#room", sendIrcCommand (privmsg (ascii "#room") (ascii "hi"))) ∧
    ∀ line ∈ serverLines plainLineEnd (sendIrcCommand (privmsg (ascii "#room") (ascii "hi"))),
      toChannel (ascii "#room") line = true := by
  have hrelay : oneChannel.onToxGroupMessage (ascii "group") (ascii "alice") (ascii "hi") =
      some (ascii "#room", sendIrcCommand (privmsg (ascii "#room") (ascii "hi"))) := by
    decide
  have hends : ∀ b, plainLineEnd b = true → b = 0 ∨ b = lineFeed ∨ b = carriageReturn := by
    intro b hb
    right
    simpa [plainLineEnd] using hb
  refine ⟨hrelay, ?_⟩
  refine ((relayed_text_stays_in_channel (by decide) hends (Or.inr hrelay)).mpr ⟨?_, ?_⟩).2
  · decide
  · decide

/-- A message of a group member that makes the bridge leave the network. -/
theorem second_line_is_a_command :
    ∃ (m : IrcClientManager) (groupId sender message channel written : Bytes),
      m.onToxGroupMessage groupId sender message = some (channel, written) ∧
      ∃ line ∈ serverLines plainLineEnd written,
        toChannel channel line = false ∧ (parseIrcMessage line).command = ascii "QUIT" := by
  refine ⟨oneChannel, ascii "group", ascii "alice", ascii "hi\r\nQUIT :bye", ascii "#room",
    sendIrcCommand (privmsg (ascii "#room") (ascii "hi\r\nQUIT :bye")), ?_,
    ascii "QUIT :bye", ?_, ?_, ?_⟩
  · decide
  · decide
  · decide
  · decide

end Tim2Tox.IrcClient
