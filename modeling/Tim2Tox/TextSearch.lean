import Mathlib.Data.List.Infix
import Mathlib.Tactic.Common

set_option autoImplicit false

/-!
# Searching in lists

The first place of a pattern in a list, as `std::string::find` gives it.
-/
namespace Tim2Tox.TextSearch

variable {α : Type*} [DecidableEq α]

def find (pattern : List α) : List α → Option ℕ
  | [] => if pattern = [] then some 0 else none
  | c :: text => if pattern <+: c :: text then some 0 else (find pattern text).map (· + 1)

/-- The search that begins at a place. -/
def findFrom (pattern text : List α) (start : ℕ) : Option ℕ :=
  (find pattern (text.drop start)).map (· + start)

variable {pattern text rest : List α} {c : α} {n : ℕ}

theorem find_here (h : pattern <+: text) : find pattern text = some 0 := by
  cases text with
  | nil =>
    rw [find, if_pos (List.prefix_nil.mp h)]
  | cons c text => rw [find, if_pos h]

theorem find_skip (h : ¬ pattern <+: c :: text) :
    find pattern (c :: text) = (find pattern text).map (· + 1) := by
  rw [find, if_neg h]

theorem find_eq_none : find pattern text = none ↔ ¬ pattern <:+: text := by
  induction text with
  | nil =>
    rw [find, List.infix_nil]
    by_cases h : pattern = []
    · simp [h]
    · simp [h]
  | cons c text ih =>
    rw [List.infix_cons_iff, not_or]
    by_cases h : pattern <+: c :: text
    · rw [find_here h]
      simp [h]
    · rw [find_skip h, Option.map_eq_none_iff, ih]
      simp [h]

theorem find_some (h : find pattern text = some n) : n ≤ text.length ∧ pattern <+: text.drop n := by
  induction text generalizing n with
  | nil =>
    rw [find] at h
    split_ifs at h with hempty
    obtain rfl := Option.some.inj h
    rw [hempty]
    exact ⟨Nat.le_refl 0, List.nil_prefix⟩
  | cons c text ih =>
    rw [find] at h
    split_ifs at h with hhere
    · obtain rfl := Option.some.inj h
      exact ⟨Nat.zero_le _, hhere⟩
    · obtain ⟨m, hm, rfl⟩ := Option.map_eq_some_iff.mp h
      obtain ⟨hle, hstart⟩ := ih hm
      exact ⟨Nat.succ_le_succ hle, hstart⟩

theorem find_extend (h : find pattern text = some n) (more : List α) :
    find pattern (text ++ more) = some n := by
  induction text generalizing n with
  | nil =>
    rw [find] at h
    split_ifs at h with hempty
    rw [← h, hempty]
    exact find_here List.nil_prefix
  | cons c text ih =>
    by_cases hhere : pattern <+: c :: text
    · rw [find_here hhere] at h
      rw [← h]
      exact find_here (hhere.trans (List.prefix_append _ _))
    · rw [find_skip hhere] at h
      obtain ⟨m, hm, rfl⟩ := Option.map_eq_some_iff.mp h
      have hlength := (find_some hm).2.length_le
      have hlater : ¬ pattern <+: c :: (text ++ more) := by
        intro hstart
        apply hhere
        apply List.prefix_of_prefix_length_le hstart (List.prefix_append (c :: text) more)
        rw [List.length_drop] at hlength
        rw [List.length_cons]
        omega
      rw [List.cons_append, find_skip hlater, ih hm]
      rfl

/-- The place found is the first one. -/
theorem find_le {before : List α} (h : pattern <+: rest) :
    ∃ n, n ≤ before.length ∧ find pattern (before ++ rest) = some n := by
  induction before with
  | nil => exact ⟨0, Nat.le_refl _, find_here h⟩
  | cons c before ih =>
    rw [List.cons_append]
    by_cases hhere : pattern <+: c :: (before ++ rest)
    · exact ⟨0, Nat.zero_le _, find_here hhere⟩
    · obtain ⟨n, hn, hfind⟩ := ih
      refine ⟨n + 1, Nat.succ_le_succ hn, ?_⟩
      rw [find_skip hhere, hfind]
      rfl

section
variable {mark before after : List α}

omit [DecidableEq α] in
/-- A mark whose first element is not in it again begins where it was put, or it was there before. -/
theorem prefix_mark (hc : c ∉ mark) (hbefore : before ≠ [])
    (h : c :: mark <+: before ++ (c :: mark ++ after)) : c :: mark <+: before := by
  by_cases hlength : (c :: mark).length ≤ before.length
  · exact List.prefix_of_prefix_length_le h (List.prefix_append _ _) hlength
  · obtain ⟨tail, htail⟩ := List.prefix_of_prefix_length_le (List.prefix_append before _) h
      (Nat.le_of_not_le hlength)
    have hrest : tail <+: c :: mark ++ after := by
      rw [← List.prefix_append_right_inj before, htail]
      exact h
    cases tail with
    | nil =>
      rw [List.append_nil] at htail
      rw [htail] at hlength
      cases hlength (Nat.le_refl _)
    | cons d tail =>
      -- the mark would begin again inside of itself
      obtain rfl := (List.cons_prefix_cons.mp hrest).1
      cases before with
      | nil => cases hbefore rfl
      | cons b before =>
        obtain ⟨rfl, hmark⟩ := List.cons_eq_cons.mp htail
        rw [← hmark] at hc
        exact absurd (List.mem_append_right before List.mem_cons_self) hc

theorem find_mark (hc : c ∉ mark) (h : ¬ c :: mark <:+: before) :
    find (c :: mark) (before ++ (c :: mark ++ after)) = some before.length := by
  induction before with
  | nil => exact find_here (List.prefix_append _ _)
  | cons b before ih =>
    rw [List.infix_cons_iff, not_or] at h
    have hhere : ¬ c :: mark <+: b :: (before ++ (c :: mark ++ after)) :=
      fun hstart => h.1 (prefix_mark hc (List.cons_ne_nil _ _) hstart)
    rw [List.cons_append, find_skip hhere, ih h.2]
    rfl

theorem find_earlier (h : c :: mark <:+: before) :
    ∃ n, find (c :: mark) (before ++ (c :: mark ++ after)) = some n ∧
      n + (c :: mark).length ≤ before.length := by
  obtain ⟨front, back, rfl⟩ := h
  obtain ⟨n, hn, hfind⟩ : ∃ n, n ≤ front.length ∧
      find (c :: mark) (front ++ (c :: mark ++ (back ++ (c :: mark ++ after)))) = some n :=
    find_le (List.prefix_append _ _)
  refine ⟨n, ?_, ?_⟩
  · rw [← hfind]
    simp only [List.append_assoc]
  · simp only [List.length_append]
    omega

omit [DecidableEq α] in
/-- A pattern without the separator is on one side of it. -/
theorem infix_split {separator : α} (h : separator ∉ pattern) (hpattern : pattern ≠ []) :
    pattern <:+: before ++ separator :: after ↔ pattern <:+: before ∨ pattern <:+: after := by
  constructor
  · intro hinfix
    induction before with
    | nil =>
      rw [List.nil_append, List.infix_cons_iff] at hinfix
      cases hinfix with
      | inl hhere =>
        cases pattern with
        | nil => cases hpattern rfl
        | cons d pattern =>
          obtain rfl := (List.cons_prefix_cons.mp hhere).1
          exact absurd List.mem_cons_self h
      | inr hafter => exact .inr hafter
    | cons b before ih =>
      rw [List.cons_append, List.infix_cons_iff] at hinfix
      cases hinfix with
      | inl hhere =>
        left
        by_cases hlength : pattern.length ≤ (b :: before).length
        · exact (List.prefix_of_prefix_length_le hhere (List.prefix_append _ _) hlength).isInfix
        · obtain ⟨tail, htail⟩ := List.prefix_of_prefix_length_le
            (List.prefix_append (b :: before) _) hhere (Nat.le_of_not_le hlength)
          rw [← List.cons_append, ← htail, List.prefix_append_right_inj] at hhere
          cases tail with
          | nil =>
            rw [List.append_nil] at htail
            rw [← htail] at hlength
            cases hlength (Nat.le_refl _)
          | cons d tail =>
            obtain rfl := (List.cons_prefix_cons.mp hhere).1
            rw [← htail] at h
            exact absurd (List.mem_append_right _ List.mem_cons_self) h
      | inr hlater =>
        cases ih hlater with
        | inl hbefore => exact .inl (List.infix_cons hbefore)
        | inr hafter => exact .inr hafter
  · intro hside
    cases hside with
    | inl hbefore => exact hbefore.trans (List.prefix_append _ _).isInfix
    | inr hafter =>
      exact hafter.trans ((List.suffix_cons _ _).trans (List.suffix_append _ _)).isInfix

end

end Tim2Tox.TextSearch
