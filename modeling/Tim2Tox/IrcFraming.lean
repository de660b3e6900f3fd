import Tim2Tox.IrcClient
import Tim2Tox.LabelledRuns

set_option autoImplicit false

/-!
# Lines of a connection

The lines handed on are those of the bytes that arrived, however these were cut into chunks. The
line buffer outlives the connection: what a connection leaves in it goes before the first line of
the next one.
-/
namespace Tim2Tox.IrcClient
open LabelledRuns

/-- A stream split at its line ends: the complete lines and what is left. -/
def splitLines : Bytes → List Bytes × Bytes
  | [] => ([], [])
  | b :: stream =>
    let (lines, rest) := splitLines stream
    if b = lineFeed then ([] :: lines, rest)
    else match lines with
      | [] => ([], b :: rest)
      | line :: lines => ((b :: line) :: lines, rest)

def completeLines (stream : Bytes) : List Bytes := (splitLines stream).1.map stripReturn

def unfinishedLine (stream : Bytes) : Bytes := (splitLines stream).2

/-- What is left of a stream goes before what comes next. -/
theorem splitLines_append (stream chunk : Bytes) : splitLines (stream ++ chunk) =
    ((splitLines stream).1 ++ (splitLines ((splitLines stream).2 ++ chunk)).1,
      (splitLines ((splitLines stream).2 ++ chunk)).2) := by
  induction stream with
  | nil => simp [splitLines]
  | cons b stream ih =>
    rw [List.cons_append, splitLines, ih, splitLines]
    by_cases hend : b = lineFeed
    · simp [hend]
    · simp only [hend, if_false]
      rcases hlines : (splitLines stream).1 with _ | ⟨line, lines⟩
      · simp only [List.nil_append, List.cons_append]
        conv_rhs => rw [splitLines]
        simp only [hend, if_false]
      · simp

theorem splitLines_of_line {line rest : Bytes} (h : ∀ b ∈ line, b ≠ lineFeed) :
    splitLines (line ++ lineFeed :: rest) =
      (line :: (splitLines rest).1, (splitLines rest).2) := by
  induction line with
  | nil => simp [splitLines]
  | cons b line ih =>
    have hb := h b List.mem_cons_self
    rw [List.cons_append, splitLines, ih fun c hc => h c (List.mem_cons_of_mem _ hc)]
    simp [hb]

theorem splitLines_of_none {buffer : Bytes} (h : ∀ b ∈ buffer, b ≠ lineFeed) :
    splitLines buffer = ([], buffer) := by
  induction buffer with
  | nil => rfl
  | cons b buffer ih =>
    have hb := h b List.mem_cons_self
    rw [splitLines, ih fun c hc => h c (List.mem_cons_of_mem _ hc)]
    simp [hb]

theorem takeLines_eq (turns : ℕ) : ∀ buffer : Bytes, buffer.length ≤ turns →
    takeLines turns buffer = (completeLines buffer, unfinishedLine buffer) := by
  induction turns with
  | zero =>
    intro buffer hlength
    have hempty : buffer = [] := List.length_eq_zero_iff.mp (Nat.le_zero.mp hlength)
    rw [hempty]
    rfl
  | succ turns ih =>
    intro buffer hlength
    unfold takeLines
    dsimp only
    rcases takeWhile_ne_cases lineFeed buffer with
      ⟨hall, hnone⟩ | ⟨line, rest, hsplit, hword, hdrop, hline⟩
    · rw [hall, if_neg (Nat.lt_irrefl _)]
      simp [completeLines, unfinishedLine, splitLines_of_none hnone]
    · have hmore : line.length < buffer.length := by
        rw [hsplit, List.length_append, List.length_cons]
        omega
      have hshort : rest.length ≤ turns := by
        rw [hsplit, List.length_append, List.length_cons] at hlength
        omega
      rw [hword, if_pos hmore, hdrop, ih rest hshort]
      rw [hsplit]
      simp [completeLines, unfinishedLine, splitLines_of_line hline]

/-! ## Runs -/

namespace Reader

/-- No line that arrives, finished or not, is longer than the buffer may get. -/
def shortLines (r : Reader) : Event → Bool
  | .recv chunk =>
    ((splitLines (r.stream ++ chunk)).1.all fun line => line.length ≤ kMaxLineBufferBytes) &&
      (unfinishedLine (r.stream ++ chunk)).length ≤ kMaxLineBufferBytes
  | _ => true

/-- A connection that ends has left no unfinished line. -/
def endsAtLine (r : Reader) : Event → Bool
  | .closed => r.lineBuffer.isEmpty
  | _ => true

/-- The buffer holds the unfinished line of this connection, and every connection was handed its
    own lines. -/
structure Framed (r : Reader) : Prop where
  lines : r.lines = completeLines r.stream
  buffer : r.lineBuffer = unfinishedLine r.stream
  between : r.sockOpen = false → r.lineBuffer = []
  past : ∀ connection ∈ r.past, connection.2 = completeLines connection.1

theorem Framed.recv {r : Reader} (h : Framed r) (hopen : r.sockOpen = true) (chunk : Bytes)
    (hshort : r.shortLines (.recv chunk) = true) : Framed (r.recv chunk) := by
  have hsplit := splitLines_append r.stream chunk
  have htaken := takeLines_eq _ (r.lineBuffer ++ chunk) (Nat.le_refl _)
  have hrest : unfinishedLine (r.lineBuffer ++ chunk) = unfinishedLine (r.stream ++ chunk) := by
    unfold unfinishedLine
    rw [hsplit, h.buffer]
    rfl
  have hlines : r.lines ++ completeLines (r.lineBuffer ++ chunk) =
      completeLines (r.stream ++ chunk) := by
    rw [h.lines, h.buffer]
    unfold completeLines
    rw [hsplit, List.map_append]
    rfl
  simp only [shortLines, Bool.and_eq_true, decide_eq_true_eq] at hshort
  unfold Reader.recv
  dsimp only
  rw [htaken, hrest]
  dsimp only
  rw [if_neg (Nat.not_lt.mpr hshort.2)]
  exact ⟨hlines, rfl, fun hclosed => by simp [hopen] at hclosed, h.past⟩

theorem Framed.attemptReconnect {r : Reader} (h : Framed r) (hclosed : r.sockOpen = false)
    (delayOver connected : Bool) : Framed (r.attemptReconnect delayOver connected) := by
  unfold Reader.attemptReconnect
  split_ifs
  · exact ⟨h.lines, h.buffer, h.between, h.past⟩
  · exact h
  · exact ⟨h.lines, h.buffer, h.between, h.past⟩
  · refine ⟨rfl, h.between hclosed, fun hopen => by simp at hopen, ?_⟩
    intro connection hmem
    rcases List.mem_append.mp hmem with hold | hnew
    · exact h.past connection hold
    · rw [List.mem_singleton.mp hnew]
      exact h.lines

theorem Framed.step {r r' : Reader} {event : Event} (h : Framed r)
    (hshort : r.shortLines event = true) (hends : r.endsAtLine event = true)
    (hstep : r.step event = some r') : Framed r' := by
  cases event with
  | recv chunk =>
    simp only [Reader.step] at hstep
    split_ifs at hstep with henabled
    rw [← Option.some.inj hstep]
    simp only [Bool.and_eq_true] at henabled
    exact h.recv henabled.1.1 chunk hshort
  | closed =>
    simp only [Reader.step] at hstep
    split_ifs at hstep with henabled
    rw [← Option.some.inj hstep]
    have hempty : r.lineBuffer = [] := by simpa [endsAtLine] using hends
    exact ⟨h.lines, h.buffer, fun _ => hempty, h.past⟩
  | attemptReconnect delayOver connected =>
    simp only [Reader.step] at hstep
    split_ifs at hstep with henabled
    rw [← Option.some.inj hstep]
    simp only [Bool.and_eq_true, Bool.not_eq_true'] at henabled
    exact h.attemptReconnect henabled.1 delayOver connected
  | stop =>
    rw [← Option.some.inj hstep]
    exact ⟨h.lines, h.buffer, h.between, h.past⟩

/-- Whatever the chunks: when every connection ends at a line end, each one is handed exactly the
    lines of its own stream. -/
theorem lines_of_own_stream (events : List Event) (r : Reader)
    (hshort : Meets step (fun r event => r.shortLines event = true) {} events)
    (hends : Meets step (fun r event => r.endsAtLine event = true) {} events)
    (hrun : exec step {} events = some r) :
    r.lines = completeLines r.stream ∧
      ∀ connection ∈ r.past, connection.2 = completeLines connection.1 := by
  have hframed : Framed r := by
    refine invariant_of_meets (fun r event r' h hcond hstep => h.step hcond.1 hcond.2 hstep)
      (s := {}) ⟨rfl, rfl, fun _ => rfl, by simp⟩ (meets_and hshort hends) hrun
  exact ⟨hframed.lines, hframed.past⟩

/-- Two connections; the first is cut inside a line end and ends at one. -/
def twoConnections : List Event :=
  [.recv (ascii "PING :a" ++ [13]), .recv [10], .closed, .attemptReconnect true true,
    .recv (ascii "PING :b" ++ [13, 10])]

theorem two_connections_framed :
    Meets step (fun r event => r.shortLines event = true) {} twoConnections ∧
    Meets step (fun r event => r.endsAtLine event = true) {} twoConnections ∧
      ∃ r, exec step {} twoConnections = some r ∧ r.lines = completeLines r.stream ∧
        r.lines = [ascii "PING :b"] := by
  have hshort : Meets step (fun r event => r.shortLines event = true) {} twoConnections := by
    decide
  have hends : Meets step (fun r event => r.endsAtLine event = true) {} twoConnections := by
    decide
  have hlines : (exec step {} twoConnections).map Reader.lines = some [ascii "PING :b"] := by
    decide
  obtain ⟨r, hrun, hseen⟩ := Option.map_eq_some_iff.mp hlines
  exact ⟨hshort, hends, r, hrun, (lines_of_own_stream twoConnections r hshort hends hrun).1, hseen⟩

/-- A connection breaks off inside a line; its rest goes before the first line of the next one. -/
theorem broken_line_prefixes_next :
    (exec step {} [.recv (ascii "PI"), .closed, .attemptReconnect true true,
        .recv (ascii "PING :b" ++ [10])]).map (fun r => (r.lines, completeLines r.stream)) =
      some ([ascii "PIPING :b"], [ascii "PING :b"]) := by
  decide

end Reader

end Tim2Tox.IrcClient
