import Tim2Tox.MergerMessages

set_option autoImplicit false

/-!
# Marked messages

What is read back from a message that has JSON between two marks in front of its text.
-/
namespace Tim2Tox.MergerMessages
open TextSearch StorageNames

theorem zero_cString (text : Bytes) : 0 ∉ cString text := by
  intro h
  exact absurd (List.mem_takeWhile_imp h) (by decide)

theorem cString_eq_iff (text : Bytes) : cString text = text ↔ 0 ∉ text := by
  constructor
  · intro h hzero
    rw [← h] at hzero
    exact zero_cString text hzero
  · intro h
    rw [cString, List.takeWhile_eq_self_iff]
    intro c hc
    rw [bne_iff_ne]
    intro heq
    rw [heq] at hc
    exact h hc

theorem textAfter_eq (message : Bytes) (start : ℕ) :
    textAfter message start = (message.drop start).dropWhile isLineEnd := by
  unfold textAfter
  split_ifs with h
  · rfl
  · rw [List.drop_of_length_le (Nat.le_of_not_lt h)]
    rfl

theorem text_kept_iff (text : Bytes) :
    text.dropWhile isLineEnd = text ↔ ∀ c ∈ text.head?, isLineEnd c = false := by
  cases text with
  | nil => simp
  | cons c text =>
    rw [List.head?_cons]
    constructor
    · intro h d hd
      obtain rfl := Option.some.inj hd
      by_contra hend
      rw [Bool.not_eq_false] at hend
      rw [List.dropWhile_cons_of_pos hend] at h
      have hlength := (List.dropWhile_sublist (l := text) isLineEnd).length_le
      rw [h, List.length_cons] at hlength
      omega
    · intro h
      rw [List.dropWhile_cons_of_neg]
      rw [h c rfl]
      exact Bool.false_ne_true

theorem length_le_dropWhile {p : UInt8 → Bool} {c : UInt8} (h : p c = false) (before after : Bytes) :
    (c :: after).length ≤ ((before ++ c :: after).dropWhile p).length := by
  induction before with
  | nil =>
    rw [List.nil_append, List.dropWhile_cons_of_neg (by simp [h])]
  | cons b before ih =>
    rw [List.cons_append, List.dropWhile_cons]
    split_ifs with hb
    · exact ih
    · simp only [List.length_cons, List.length_append]
      omega

/-- Where the marks of a message were found. -/
theorem parseBetween_marks {startMarker endMarker message : Bytes}
    (h : (parseBetween startMarker endMarker message).hasMarks = true) :
    ∃ startPos endPos, find startMarker message = some startPos ∧
      find endMarker message = some endPos ∧ startPos < endPos ∧
      parseBetween startMarker endMarker message =
        ⟨true, (message.drop (startPos + startMarker.length)).take
          (endPos - (startPos + startMarker.length)),
          (message.drop (endPos + endMarker.length)).dropWhile isLineEnd⟩ := by
  unfold parseBetween at h ⊢
  cases hstart : find startMarker message with
  | none =>
    rw [hstart] at h
    cases h
  | some startPos =>
    cases hend : find endMarker message with
    | none =>
      rw [hstart, hend] at h
      cases h
    | some endPos =>
      rw [hstart, hend] at h
      dsimp only at h ⊢
      by_cases hle : endPos ≤ startPos
      · rw [if_pos hle] at h
        cases h
      · rw [if_neg hle, textAfter_eq]
        exact ⟨startPos, endPos, rfl, rfl, Nat.lt_of_not_le hle, rfl⟩

/-- A message as the senders put it together. -/
def marked (startMarker endMarker json text : Bytes) : Bytes :=
  (startMarker ++ json) ++ (endMarker ++ newline :: text)

section
variable {startMarker mark json text : Bytes} {c : UInt8}

theorem marked_start : find startMarker (marked startMarker (c :: mark) json text) = some 0 := by
  rw [marked, List.append_assoc]
  exact find_here (List.prefix_append _ _)

theorem marked_end (text : Bytes) (hc : c ∉ mark) (h : ¬ c :: mark <:+: startMarker ++ json) :
    find (c :: mark) (marked startMarker (c :: mark) json text) =
      some (startMarker ++ json).length :=
  find_mark hc h

theorem marked_early (text : Bytes) (h : c :: mark <:+: startMarker ++ json) :
    ∃ n, find (c :: mark) (marked startMarker (c :: mark) json text) = some n ∧
      n + (c :: mark).length ≤ (startMarker ++ json).length :=
  find_earlier h

theorem drop_marked :
    (marked startMarker (c :: mark) json text).drop
      ((startMarker ++ json).length + (c :: mark).length) = newline :: text := by
  rw [marked, ← List.drop_drop, List.drop_left, List.drop_left]

theorem json_marked :
    ((marked startMarker (c :: mark) json text).drop (0 + startMarker.length)).take
      ((startMarker ++ json).length - (0 + startMarker.length)) = json := by
  rw [marked, List.append_assoc, Nat.zero_add, List.drop_left, List.length_append,
    Nat.add_sub_cancel_left, List.take_left]

theorem parseBetween_marked (hc : c ∉ mark) (hstart : startMarker ≠ [])
    (h : ¬ c :: mark <:+: startMarker ++ json) :
    parseBetween startMarker (c :: mark) (marked startMarker (c :: mark) json text) =
      ⟨true, json, text.dropWhile isLineEnd⟩ := by
  have hlater : ¬ (startMarker ++ json).length ≤ 0 := by
    have hlength := List.length_pos_iff.mpr hstart
    rw [List.length_append]
    omega
  unfold parseBetween
  rw [marked_start, marked_end text hc h]
  dsimp only
  rw [if_neg hlater, json_marked, textAfter_eq, drop_marked, List.dropWhile_cons_of_pos (by decide)]

/-- Behind an end mark that is too early comes more than the text. -/
theorem length_after_early {n : ℕ} (text : Bytes) (hc : isLineEnd c = false)
    (hn : n + (c :: mark).length ≤ (startMarker ++ json).length) :
    text.length < (((marked startMarker (c :: mark) json text).drop
      (n + (c :: mark).length)).dropWhile isLineEnd).length := by
  have hdrop : (marked startMarker (c :: mark) json text).drop (n + (c :: mark).length) =
      (startMarker ++ json).drop (n + (c :: mark).length) ++ c :: (mark ++ newline :: text) := by
    rw [marked, List.drop_append_of_le_length hn]
    rfl
  have hlong := length_le_dropWhile hc ((startMarker ++ json).drop (n + (c :: mark).length))
    (mark ++ newline :: text)
  rw [hdrop]
  apply Nat.lt_of_lt_of_le _ hlong
  simp only [List.length_cons, List.length_append]
  omega

theorem parseBetween_early (hc : isLineEnd c = false) (h : c :: mark <:+: startMarker ++ json)
    (hmarks : (parseBetween startMarker (c :: mark)
      (marked startMarker (c :: mark) json text)).hasMarks = true) :
    (parseBetween startMarker (c :: mark) (marked startMarker (c :: mark) json text)).text ≠ text := by
  obtain ⟨startPos, endPos, hstart, hend, hlater, hparse⟩ := parseBetween_marks hmarks
  obtain ⟨n, hfound, hn⟩ := marked_early text h
  obtain rfl := Option.some.inj (hend.symm.trans hfound)
  have hlong := length_after_early text hc hn
  intro htext
  rw [hparse] at htext
  dsimp only at htext
  rw [htext] at hlong
  exact Nat.lt_irrefl _ hlong

end

end Tim2Tox.MergerMessages
