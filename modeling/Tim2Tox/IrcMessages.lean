import Mathlib.Algebra.Ring.Nat
import Tim2Tox.IrcRelay

set_option autoImplicit false

/-!
# IRC messages

The lines the protocol makes of messages, and when `parse_irc_message` takes them apart again.
-/
namespace Tim2Tox.IrcMessages
open IrcClient

/-! ## Messages and their lines -/

/-- A command or a middle parameter: it has no blank and does not begin with a colon. -/
structure Word where
  text : Bytes
  nonempty : text ≠ []
  noSpace : space ∉ text
  noColon : text.head? ≠ some colon

/-- Any bytes but CR, LF and NUL. -/
structure Trailing where
  text : Bytes
  plain : ∀ b ∈ text, b ≠ carriageReturn ∧ b ≠ lineFeed ∧ b ≠ 0

/-- No prefix is an empty one. -/
structure Message where
  source : Bytes
  sourceNoSpace : space ∉ source
  command : Word
  params : List Word
  trailing : Option Trailing

/-- The parameters and the trailing text, each with the blank before it. -/
def tailOf (params : List Word) (trailing : Option Trailing) : Bytes :=
  params.flatMap (fun param => space :: param.text) ++
    (trailing.map fun trailing => space :: colon :: trailing.text).getD []

namespace Message

def line (m : Message) : Bytes :=
  (if m.source = [] then [] else colon :: m.source ++ [space]) ++
    (m.command.text ++ tailOf m.params m.trailing)

/-- What the parser is to return. -/
def parsed (m : Message) : ParsedIrcMessage where
  source := m.source
  command := upperCopy m.command.text
  params := m.params.map Word.text
  trailing := m.trailing.map Trailing.text

end Message

/-- The white space at its ends is not the text's own. -/
def Trimmed (text : Bytes) : Prop :=
  (∀ b, text.head? = some b → isWhite b = false) ∧ ∀ b, text.getLast? = some b → isWhite b = false

/-- No command or parameter begins with white space, and the line does not end in it. -/
def Message.Separated (m : Message) : Prop :=
  (∀ word ∈ m.command :: m.params, ∀ b, word.text.head? = some b → isWhite b = false) ∧
    ∀ b, m.line.getLast? = some b → isWhite b = false

/-! ## Trimming -/

theorem trimCopy_of_trimmed {text : Bytes} (h : Trimmed text) : trimCopy text = text := by
  have hdrop : text.dropWhile isWhite = text := by
    rw [List.dropWhile_eq_self_iff]
    intro hpos
    have hhead := h.1 _ (List.head?_eq_getElem? ▸ List.getElem?_eq_getElem hpos)
    rw [hhead]
    exact Bool.false_ne_true
  rw [trimCopy, hdrop, List.rdropWhile_eq_self_iff]
  intro hne
  rw [h.2 _ (List.getLast?_eq_some_getLast hne)]
  exact Bool.false_ne_true

theorem trimCopy_length (text : Bytes) : (trimCopy text).length ≤ text.length :=
  ((trimCopy_start text).length_le).trans (List.dropWhile_suffix isWhite).length_le

/-- Trimming takes nothing off only where there is nothing to take. -/
theorem trimmed_of_length {text : Bytes} (h : text.length ≤ (trimCopy text).length) :
    Trimmed text := by
  have hdrop : text.dropWhile isWhite = text := by
    apply (List.dropWhile_suffix isWhite).eq_of_length
    have hstart := (trimCopy_start text).length_le
    have hsuffix := (List.dropWhile_suffix (l := text) isWhite).length_le
    omega
  constructor
  · intro b hb
    obtain ⟨rest, rfl⟩ := List.head?_eq_some_iff.mp hb
    rw [List.dropWhile_eq_self_iff] at hdrop
    exact Bool.eq_false_iff.mpr (hdrop (Nat.succ_pos _))
  · intro b hb
    have hsame : (text.dropWhile isWhite).rdropWhile isWhite = text.dropWhile isWhite := by
      apply (List.rdropWhile_prefix isWhite _).eq_of_length
      have hstart := (trimCopy_start text).length_le
      rw [trimCopy] at h hstart
      rw [hdrop] at h hstart ⊢
      omega
    rw [hdrop, List.rdropWhile_eq_self_iff] at hsame
    have hne : text ≠ [] := by
      rintro rfl
      cases hb
    rw [List.getLast?_eq_some_getLast hne] at hb
    rw [← Option.some.inj hb]
    exact Bool.eq_false_iff.mpr (hsame hne)

/-! ## A separated line is taken apart -/

section
variable (word : Word) (params : List Word) (trailing : Option Trailing)

theorem tailOf_nil_none : tailOf [] none = [] := rfl

theorem tailOf_cons :
    tailOf (word :: params) trailing = space :: (word.text ++ tailOf params trailing) := by
  rw [tailOf, List.flatMap_cons, List.cons_append, List.cons_append, List.append_assoc]
  rfl

/-- What is behind a word is nothing, or begins with a blank. -/
theorem tailOf_cases : (params = [] ∧ trailing = none ∧ tailOf params trailing = []) ∨
    ∃ after, tailOf params trailing = space :: after := by
  cases params with
  | cons word params => exact .inr ⟨_, tailOf_cons word params trailing⟩
  | nil =>
    cases trailing with
    | none => exact .inl ⟨rfl, rfl, rfl⟩
    | some text => exact .inr ⟨_, rfl⟩

theorem cutAtSpace_whole {text : Bytes} (h : space ∉ text) : cutAtSpace text = (text, none) := by
  have htake : text.takeWhile (· ≠ space) = text := by
    rw [List.takeWhile_eq_self_iff]
    intro b hb
    rw [decide_eq_true_eq]
    rintro rfl
    exact h hb
  rw [cutAtSpace, htake, if_neg (Nat.lt_irrefl _)]

/-- The last byte of a text is that of what it ends in. -/
theorem last_of_append (before : Bytes) {after : Bytes} (hne : after ≠ [])
    (h : ∀ b, (before ++ after).getLast? = some b → isWhite b = false) :
    ∀ b, after.getLast? = some b → isWhite b = false := by
  intro b hb
  apply h b
  rw [List.getLast?_append_of_ne_nil _ hne]
  exact hb

theorem last_after {text after : Bytes}
    (h : ∀ b, (text ++ space :: after).getLast? = some b → isWhite b = false) :
    ∀ b, after.getLast? = some b → isWhite b = false := by
  intro b hb
  have hne : after ≠ [] := by
    rintro rfl
    cases hb
  refine last_of_append (text ++ [space]) hne ?_ b hb
  rw [List.append_assoc]
  exact h

theorem word_ne_space {b : UInt8} (h : b ∈ word.text) : b ≠ space := by
  rintro rfl
  exact word.noSpace h

theorem head_word {rest : Bytes} {b : UInt8} (h : (word.text ++ rest).head? = some b) :
    word.text.head? = some b := by
  rw [List.head?_append_of_ne_nil _ word.nonempty] at h
  exact h

/-- A turn over a text that is no trailing one. -/
theorem parseParams_turn {text : Bytes} (turns : ℕ) (parsed : ParsedIrcMessage) (hne : text ≠ [])
    (hcolon : text.head? ≠ some colon) : parseParams (turns + 1) text parsed =
      match cutAtSpace text with
      | (word, none) => { parsed with params := parsed.params ++ [word] }
      | (word, some after) =>
        parseParams turns (trimCopy after) { parsed with params := parsed.params ++ [word] } := by
  match text, hne, hcolon with
  | b :: rest, _, hcolon =>
    have hnot : b ≠ colon := fun h => hcolon (congrArg some h)
    rcases hcut : cutAtSpace (b :: rest) with ⟨word, _ | after⟩
    · rw [parseParams, if_neg hnot, hcut]
    · rw [parseParams, if_neg hnot, hcut]

theorem parseParams_tailOf : ∀ (params : List Word) (turns : ℕ) (after : Bytes)
    (parsed : ParsedIrcMessage), tailOf params trailing = space :: after →
    (trimCopy after).length ≤ turns →
    (∀ word ∈ params, ∀ b, word.text.head? = some b → isWhite b = false) →
    (∀ b, after.getLast? = some b → isWhite b = false) → parsed.trailing = none →
    parseParams turns (trimCopy after) parsed =
      { parsed with
        params := parsed.params ++ params.map Word.text
        trailing := trailing.map Trailing.text } := by
  intro params
  induction params with
  | nil =>
    intro turns after parsed htail hturns hwords hlast hnone
    cases trailing with
    | none => cases htail
    | some text =>
      obtain rfl := List.tail_eq_of_cons_eq htail
      have htrimmed : Trimmed (colon :: text.text) := by
        refine ⟨?_, hlast⟩
        intro b hb
        obtain rfl := Option.some.inj hb
        decide
      rw [trimCopy_of_trimmed htrimmed] at hturns ⊢
      match turns, hturns with
      | turns + 1, _ =>
        rw [parseParams, if_pos rfl, List.map_nil, List.append_nil]
        rfl
  | cons word params ih =>
    intro turns after parsed htail hturns hwords hlast hnone
    rw [tailOf_cons] at htail
    obtain rfl := List.tail_eq_of_cons_eq htail
    have hwhite := hwords word List.mem_cons_self
    have htrimmed : Trimmed (word.text ++ tailOf params trailing) :=
      ⟨fun b hb => hwhite b (head_word word hb), hlast⟩
    rw [trimCopy_of_trimmed htrimmed] at hturns ⊢
    have hne : word.text ++ tailOf params trailing ≠ [] :=
      List.append_ne_nil_of_left_ne_nil word.nonempty _
    have hcolon : (word.text ++ tailOf params trailing).head? ≠ some colon :=
      fun hhead => word.noColon (head_word word hhead)
    have hlength := List.length_pos_of_ne_nil word.nonempty
    rw [List.length_append] at hturns
    obtain ⟨left, rfl⟩ : ∃ left, turns = left + 1 := ⟨turns - 1, by omega⟩
    rw [parseParams_turn left parsed hne hcolon]
    cases tailOf_cases params trailing with
    | inl hend =>
      obtain ⟨rfl, rfl, hnil⟩ := hend
      rw [hnil, List.append_nil, cutAtSpace_whole word.noSpace]
      cases parsed
      cases hnone
      rfl
    | inr hmore =>
      obtain ⟨after, hafter⟩ := hmore
      rw [hafter] at hlast
      have hrest := ih left after { parsed with params := parsed.params ++ [word.text] } hafter
        (by
          have htrim := trimCopy_length after
          rw [hafter, List.length_cons] at hturns
          omega)
        (fun w hw => hwords w (List.mem_cons_of_mem _ hw)) (last_after hlast) hnone
      rw [hafter, cutAtSpace_append _ _ fun b => word_ne_space word]
      dsimp only
      rw [hrest, List.map_cons, List.append_assoc, List.singleton_append]

theorem parseCommand_tailOf (command : Word) (source : Bytes)
    (hwords : ∀ word ∈ params, ∀ b, word.text.head? = some b → isWhite b = false)
    (hlast : ∀ b, (command.text ++ tailOf params trailing).getLast? = some b → isWhite b = false) :
    parseCommand (command.text ++ tailOf params trailing) { source := source } =
      ⟨source, upperCopy command.text, params.map Word.text, trailing.map Trailing.text⟩ := by
  rw [parseCommand]
  cases tailOf_cases params trailing with
  | inl hend =>
    obtain ⟨rfl, rfl, hnil⟩ := hend
    rw [hnil, List.append_nil, cutAtSpace_whole command.noSpace]
    rfl
  | inr hmore =>
    obtain ⟨after, hafter⟩ := hmore
    rw [hafter] at hlast ⊢
    rw [cutAtSpace_append _ _ fun b => word_ne_space command]
    exact parseParams_tailOf trailing params _ after ⟨source, upperCopy command.text, [], none⟩ hafter
      (Nat.le_refl _) hwords (last_after hlast) rfl

end

/-- Separated messages are taken apart as the protocol defines. -/
theorem parse_line {m : Message} (h : m.Separated) : parseIrcMessage m.line = m.parsed := by
  obtain ⟨hwords, hlast⟩ := h
  have hparams : ∀ word ∈ m.params, ∀ b, word.text.head? = some b → isWhite b = false :=
    fun word hword => hwords word (List.mem_cons_of_mem _ hword)
  have hcommand := hwords m.command List.mem_cons_self
  have hne : m.command.text ++ tailOf m.params m.trailing ≠ [] :=
    List.append_ne_nil_of_left_ne_nil m.command.nonempty _
  rw [Message.line] at hlast ⊢
  by_cases hsource : m.source = []
  · rw [if_pos hsource, List.nil_append] at hlast ⊢
    have htrimmed : Trimmed (m.command.text ++ tailOf m.params m.trailing) :=
      ⟨fun b hb => hcommand b (head_word m.command hb), hlast⟩
    have hparse := parseCommand_tailOf m.params m.trailing m.command [] hparams hlast
    have hcolon : (m.command.text ++ tailOf m.params m.trailing).head? ≠ some colon :=
      fun hhead => m.command.noColon (head_word m.command hhead)
    rw [parseIrcMessage, trimCopy_of_trimmed htrimmed]
    generalize m.command.text ++ tailOf m.params m.trailing = text at hparse hcolon hne
    match text, hparse, hcolon, hne with
    | b :: rest, hparse, hcolon, _ =>
      dsimp only
      rw [if_neg fun hb => hcolon (congrArg some hb)]
      rw [Message.parsed, hsource]
      exact hparse
  · rw [if_neg hsource] at hlast ⊢
    have hlast' := last_of_append _ hne hlast
    have htrimmed : Trimmed (m.command.text ++ tailOf m.params m.trailing) :=
      ⟨fun b hb => hcommand b (head_word m.command hb), hlast'⟩
    have hline : Trimmed (colon :: m.source ++ [space] ++
        (m.command.text ++ tailOf m.params m.trailing)) := by
      refine ⟨?_, hlast⟩
      intro b hb
      obtain rfl := Option.some.inj hb
      decide
    have hword : ∀ b ∈ colon :: m.source, b ≠ space := by
      rintro b hb rfl
      cases List.mem_cons.mp hb with
      | inl hcolon => cases hcolon
      | inr hmem => exact m.sourceNoSpace hmem
    have hcut := cutAtSpace_append (colon :: m.source)
      (m.command.text ++ tailOf m.params m.trailing) hword
    rw [parseIrcMessage, trimCopy_of_trimmed hline, List.append_assoc, List.singleton_append,
      List.cons_append]
    rw [List.cons_append] at hcut
    dsimp only
    rw [if_pos rfl, hcut]
    dsimp only
    rw [trimCopy_of_trimmed htrimmed]
    exact parseCommand_tailOf m.params m.trailing m.command m.source hparams hlast'

/-! ## Words without white space -/

/-- Neither the command nor a parameter has white space in it. -/
def Message.Plain (m : Message) : Prop :=
  ∀ word ∈ m.command :: m.params, ∀ b ∈ word.text, isWhite b = false

/-- The text without the white space at its end. -/
def Trailing.trim (trailing : Trailing) : Trailing where
  text := trailing.text.rdropWhile isWhite
  plain b hb := trailing.plain b ((List.rdropWhile_prefix isWhite trailing.text).subset hb)

def Message.trim (m : Message) : Message := { m with trailing := m.trailing.map Trailing.trim }

theorem Message.Plain.heads {m : Message} (h : m.Plain) :
    ∀ word ∈ m.command :: m.params, ∀ b, word.text.head? = some b → isWhite b = false :=
  fun word hword b hb => h word hword b (List.mem_of_mem_head? hb)

/-- Words end a line in a byte of their own. -/
theorem last_words {before : Bytes} (word : Word) : ∀ params : List Word,
    (∀ w ∈ word :: params, ∀ b ∈ w.text, isWhite b = false) →
    ∀ b, (before ++ (word.text ++ tailOf params none)).getLast? = some b → isWhite b = false := by
  intro params
  induction params generalizing before word with
  | nil =>
    intro h b hb
    rw [tailOf_nil_none, List.append_nil, List.getLast?_append_of_ne_nil _ word.nonempty] at hb
    exact h word List.mem_cons_self b (List.mem_of_getLast? hb)
  | cons next params ih =>
    intro h b hb
    rw [tailOf_cons, ← List.append_assoc, ← List.singleton_append, ← List.append_assoc] at hb
    exact ih next (fun w hw => h w (List.mem_cons_of_mem _ hw)) b hb

theorem parse_of_trimCopy {line line' : Bytes} (h : trimCopy line = trimCopy line') :
    parseIrcMessage line = parseIrcMessage line' := by
  rw [parseIrcMessage, parseIrcMessage, h]

theorem colon_last {before text : Bytes} :
    ∀ b, (before ++ colon :: text.rdropWhile isWhite).getLast? = some b → isWhite b = false := by
  intro b hb
  rw [List.getLast?_append_of_ne_nil _ (List.cons_ne_nil _ _)] at hb
  by_cases hempty : text.rdropWhile isWhite = []
  · rw [hempty] at hb
    cases hb
    decide
  · rw [List.getLast?_cons_of_ne_nil hempty, List.getLast?_eq_some_getLast hempty] at hb
    have hnot := List.rdropWhile_last_not isWhite text hempty
    rw [Option.some.inj hb] at hnot
    exact Bool.eq_false_iff.mpr hnot

theorem line_head {m : Message} (h : m.Plain) :
    ∃ b, m.line.head? = some b ∧ isWhite b = false := by
  rw [Message.line]
  by_cases hsource : m.source = []
  · rw [if_pos hsource, List.nil_append, List.head?_append_of_ne_nil _ m.command.nonempty]
    have hhead := List.head?_eq_some_head m.command.nonempty
    exact ⟨_, hhead, h.heads m.command List.mem_cons_self _ hhead⟩
  · rw [if_neg hsource]
    exact ⟨colon, rfl, by decide⟩

/-- Of a line whose words have no white space only the end of its text is lost. -/
theorem parse_plain {m : Message} (h : m.Plain) : parseIrcMessage m.line = m.trim.parsed := by
  cases htrailing : m.trailing with
  | none =>
    have hsame : m.trim = m := by
      rw [Message.trim, htrailing, Option.map_none, ← htrailing]
    have hseparated : m.Separated := by
      refine ⟨h.heads, ?_⟩
      rw [Message.line, htrailing]
      exact last_words m.command m.params h
    rw [hsame]
    exact parse_line hseparated
  | some trailing =>
    have hsplit : ∀ trailing : Trailing, ({ m with trailing := some trailing } : Message).line =
        ((if m.source = [] then [] else colon :: m.source ++ [space]) ++ (m.command.text ++
          (m.params.flatMap fun param => space :: param.text) ++ [space])) ++ colon :: trailing.text := by
      intro trailing
      rw [Message.line, tailOf, List.append_assoc, List.append_assoc, List.append_assoc]
      rfl
    have hline : m.line = _ := (congrArg Message.line (show m = { m with trailing := some trailing } by
      rw [← htrailing])).trans (hsplit trailing)
    have htrim : m.trim = { m with trailing := some trailing.trim } := by
      rw [Message.trim, htrailing]
      rfl
    have hseparated : m.trim.Separated := by
      rw [htrim]
      refine ⟨h.heads, ?_⟩
      rw [hsplit trailing.trim]
      exact colon_last
    rw [← parse_line hseparated]
    apply parse_of_trimCopy
    obtain ⟨b, hhead, hwhite⟩ := line_head h
    have hplain : m.trim.Plain := h
    obtain ⟨b', hhead', hwhite'⟩ := line_head hplain
    have htrimmed : Trimmed m.trim.line := by
      refine ⟨?_, hseparated.2⟩
      intro c hc
      rw [← Option.some.inj (hhead'.symm.trans hc)]
      exact hwhite'
    rw [trimCopy_of_trimmed htrimmed, trimCopy_colon hline hhead hwhite, htrim, hsplit trailing.trim]
    rfl

/-! ## What a line holds at most -/

/-- The bytes the parameters and the trailing text take up, with their separators. -/
def spread (params : List Bytes) (trailing : Option Bytes) : ℕ :=
  (params.map fun param => param.length + 1).sum + (trailing.map fun text => text.length + 2).getD 0

theorem spread_append (params : List Bytes) (word : Bytes) (trailing : Option Bytes) :
    spread (params ++ [word]) trailing = spread params trailing + (word.length + 1) := by
  simp only [spread, List.map_append, List.sum_append, List.map_cons, List.map_nil, List.sum_singleton]
  omega

theorem cutAtSpace_length {text word : Bytes} {after : Option Bytes}
    (h : cutAtSpace text = (word, after)) :
    word.length + (after.map fun rest => rest.length + 1).getD 0 = text.length := by
  rw [cutAtSpace] at h
  obtain ⟨rfl, rfl⟩ := Prod.mk.inj h
  have hle := (List.takeWhile_prefix (l := text) (· ≠ space)).length_le
  split_ifs with hshort
  · simp only [Option.map_some, Option.getD_some, List.length_drop]
    omega
  · simp only [Option.map_none, Option.getD_none]
    omega

theorem parseParams_spread (turns : ℕ) : ∀ (text : Bytes) (parsed : ParsedIrcMessage),
    parsed.trailing = none →
    spread (parseParams turns text parsed).params (parseParams turns text parsed).trailing ≤
      spread parsed.params none + (text.length + 1) := by
  induction turns with
  | zero =>
    intro text parsed hnone
    rw [parseParams, hnone]
    exact Nat.le_add_right _ _
  | succ turns ih =>
    intro text parsed hnone
    cases text with
    | nil =>
      rw [parseParams, hnone]
      exact Nat.le_add_right _ _
    | cons b rest =>
      rw [parseParams]
      split_ifs with hb
      · simp only [spread, Option.map_some, Option.getD_some, Option.map_none, Option.getD_none,
          List.length_cons]
        omega
      · rcases hcut : cutAtSpace (b :: rest) with ⟨word, _ | after⟩
        · have hlength := cutAtSpace_length hcut
          simp only [Option.map_none, Option.getD_none] at hlength
          dsimp only
          rw [hnone, spread_append]
          omega
        · have hlength := cutAtSpace_length hcut
          simp only [Option.map_some, Option.getD_some] at hlength
          have hrest := ih (trimCopy after) { parsed with params := parsed.params ++ [word] } hnone
          have htrim := trimCopy_length after
          dsimp only at hrest ⊢
          rw [spread_append] at hrest
          omega

theorem parseParams_kept (turns : ℕ) : ∀ (text : Bytes) (parsed : ParsedIrcMessage),
    (parseParams turns text parsed).source = parsed.source ∧
      (parseParams turns text parsed).command = parsed.command := by
  induction turns with
  | zero => exact fun text parsed => ⟨rfl, rfl⟩
  | succ turns ih =>
    intro text parsed
    match text with
    | [] => exact ⟨rfl, rfl⟩
    | b :: rest =>
      rw [parseParams]
      split_ifs with hb
      · exact ⟨rfl, rfl⟩
      · rcases cutAtSpace (b :: rest) with ⟨word, _ | after⟩
        · exact ⟨rfl, rfl⟩
        · exact ih (trimCopy after) _

theorem upperCopy_length (text : Bytes) : (upperCopy text).length = text.length := List.length_map _

theorem parseCommand_spread (text source : Bytes) :
    (parseCommand text { source := source }).source = source ∧
      (parseCommand text { source := source }).command = upperCopy (cutAtSpace text).1 ∧
      (parseCommand text { source := source }).command.length +
          spread (parseCommand text { source := source }).params
            (parseCommand text { source := source }).trailing ≤ text.length := by
  rw [parseCommand]
  rcases hcut : cutAtSpace text with ⟨word, _ | after⟩
  · have hlength := cutAtSpace_length hcut
    refine ⟨rfl, rfl, ?_⟩
    dsimp only
    rw [upperCopy_length]
    exact Nat.le_of_eq hlength
  · have hlength := cutAtSpace_length hcut
    have hspread := parseParams_spread (trimCopy after).length (trimCopy after)
      { source := source, command := upperCopy word } rfl
    obtain ⟨hsource, hcommand⟩ := parseParams_kept (trimCopy after).length (trimCopy after)
      { source := source, command := upperCopy word }
    have htrim := trimCopy_length after
    refine ⟨hsource, hcommand, ?_⟩
    dsimp only at hspread ⊢
    rw [hcommand, upperCopy_length]
    simp only [Option.map_some, Option.getD_some] at hlength
    have hempty : spread [] none = 0 := rfl
    omega

/-- The length of the line of what was found. -/
def extent (parsed : ParsedIrcMessage) : ℕ :=
  (if parsed.source = [] then 0 else parsed.source.length + 2) +
    (parsed.command.length + spread parsed.params parsed.trailing)

/-- What is found in a line, with the separators, is no longer than the trimmed line; the command
    does not begin with white space. -/
theorem parse_spread {line : Bytes} (h : (parseIrcMessage line).command ≠ []) :
    extent (parseIrcMessage line) ≤ (trimCopy line).length ∧
    ∃ text, (parseIrcMessage line).command = upperCopy (cutAtSpace (trimCopy text)).1 := by
  rw [parseIrcMessage] at h ⊢
  cases htrim : trimCopy line with
  | nil =>
    rw [htrim] at h
    exact absurd rfl h
  | cons b rest =>
    rw [htrim] at h
    dsimp only at h ⊢
    by_cases hb : b = colon
    · rw [if_pos hb] at h ⊢
      rcases hcut : cutAtSpace (b :: rest) with ⟨word, _ | after⟩
      · rw [hcut] at h
        exact absurd rfl h
      · obtain ⟨hsource, hcommand, hspread⟩ := parseCommand_spread (trimCopy after) word.tail
        have hlength := cutAtSpace_length hcut
        have hafter := trimCopy_length after
        simp only [Option.map_some, Option.getD_some] at hlength
        refine ⟨?_, after, hcommand⟩
        dsimp only
        rw [extent, hsource]
        have htail : word.tail.length = word.length - 1 := List.length_tail
        split_ifs with hempty
        · omega
        · have hpos := List.length_pos_of_ne_nil hempty
          omega
    · rw [if_neg hb] at h ⊢
      obtain ⟨hsource, hcommand, hspread⟩ := parseCommand_spread (b :: rest) []
      refine ⟨?_, line, ?_⟩
      · rw [extent, if_pos hsource, Nat.zero_add]
        exact hspread
      · rw [htrim]
        exact hcommand

theorem spread_words (params : List Word) (trailing : Option Trailing) :
    spread (params.map Word.text) (trailing.map Trailing.text) = (tailOf params trailing).length := by
  induction params with
  | nil =>
    cases trailing with
    | none => rfl
    | some text => exact Nat.zero_add _
  | cons word params ih =>
    rw [tailOf_cons, List.length_cons, List.length_append, ← ih]
    simp only [spread, List.map_cons, List.sum_cons]
    omega

theorem line_length (m : Message) : m.line.length = extent m.parsed := by
  rw [extent, Message.parsed, upperCopy_length, spread_words, Message.line, List.length_append,
    List.length_append]
  split_ifs
  · rfl
  · rw [List.length_append, List.length_cons]
    rfl

theorem isWhite_toUpper (b : UInt8) : isWhite (toUpper b) = isWhite b := by
  have hall : (List.range 256).all (fun n =>
      isWhite (toUpper (UInt8.ofNat n)) == isWhite (UInt8.ofNat n)) = true := by decide +kernel
  have hb := List.all_eq_true.mp hall b.toNat (List.mem_range.mpr b.toNat_lt)
  rw [UInt8.ofNat_toNat] at hb
  exact beq_iff_eq.mp hb

/-- The first byte of a word cut off a trimmed text. -/
theorem cut_head {text : Bytes} {b : UInt8} (h : (cutAtSpace (trimCopy text)).1.head? = some b) :
    isWhite b = false := by
  have hword : (cutAtSpace (trimCopy text)).1 <+: trimCopy text := List.takeWhile_prefix _
  obtain ⟨rest, hrest⟩ := List.head?_eq_some_iff.mp h
  rw [hrest] at hword
  obtain ⟨after, hafter⟩ := hword
  exact trimCopy_head hafter.symm

/-- IRC messages are decomposed as the protocol defines, trailing text and all: exactly when the line
    does not end in white space and no command or parameter begins with it. -/
theorem messages_decomposed (m : Message) : parseIrcMessage m.line = m.parsed ↔ m.Separated := by
  refine ⟨fun h => ?_, parse_line⟩
  have hcommand : (parseIrcMessage m.line).command ≠ [] := by
    rw [h]
    exact fun hnil => m.command.nonempty (List.map_eq_nil_iff.mp hnil)
  obtain ⟨hspread, text, htext⟩ := parse_spread hcommand
  rw [h] at hspread htext
  constructor
  · intro word hword b hb
    cases List.mem_cons.mp hword with
    | inl heq =>
      rw [heq] at hb
      have hupper : (cutAtSpace (trimCopy text)).1.head?.map toUpper = some (toUpper b) := by
        rw [← List.head?_map, ← upperCopy, ← htext, Message.parsed, upperCopy, List.head?_map, hb]
        rfl
      obtain ⟨first, hfirst, hsame⟩ := Option.map_eq_some_iff.mp hupper
      rw [← isWhite_toUpper, ← hsame, isWhite_toUpper]
      exact cut_head hfirst
    | inr hparam =>
      have hmem : word.text ∈ (parseIrcMessage m.line).params := by
        rw [h]
        exact List.mem_map_of_mem hparam
      have hany : ∀ b ∈ m.line, (fun _ : UInt8 => True) b := fun _ _ => trivial
      obtain ⟨⟨first, rest, heq, hwhite, -⟩, -⟩ :=
        parseIrcMessage_wellFormed hany word.text hmem
      rw [heq] at hb
      cases hb
      exact hwhite
  · have htrimmed : Trimmed m.line := by
      apply trimmed_of_length
      rw [line_length]
      exact hspread
    exact htrimmed.2

def Word.ofText (text : Bytes)
    (h : (!text.isEmpty && !text.contains space && text.head? != some colon) = true) : Word where
  text := text
  nonempty := by
    rintro rfl
    exact Bool.noConfusion h
  noSpace hmem := by
    rw [List.contains_iff_mem.mpr hmem, Bool.not_true, Bool.and_false, Bool.false_and] at h
    exact Bool.noConfusion h
  noColon hhead := by
    rw [hhead, bne_self_eq_false, Bool.and_false] at h
    exact Bool.noConfusion h

def Trailing.ofText (text : Bytes)
    (h : text.all (fun b => b != carriageReturn && b != lineFeed && b != 0) = true) : Trailing where
  text := text
  plain b hb := by
    have hall := List.all_eq_true.mp h b hb
    simp only [Bool.and_eq_true, bne_iff_ne] at hall
    exact ⟨hall.1.1, hall.1.2, hall.2⟩

/-- A text that ends in a blank loses it. -/
theorem last_blank_lost : ¬ ∀ m : Message, parseIrcMessage m.line = m.parsed := by
  intro h
  have hlost := h
    ⟨[], List.not_mem_nil, .ofText (ascii "PRIVMSG") (by decide),
      [.ofText (ascii "#sea") (by decide)], some (.ofText (ascii "ahoy ") (by decide))⟩
  revert hlost
  decide

end Tim2Tox.IrcMessages
