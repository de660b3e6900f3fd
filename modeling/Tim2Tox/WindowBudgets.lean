import Mathlib.Algebra.Ring.Nat
import Mathlib.Tactic.Common

set_option autoImplicit false

/-!
# Budgets over fixed windows

A budget counts the grants of its current window and opens a new window at the first request after
the current one is over. The log keeps each grant with the window it was charged to. What holds of
every window bounds any interval of one window's length by two windows.
-/
namespace Tim2Tox.WindowBudgets

structure Grant where
  window : ℕ
  time : ℕ
  bytes : ℕ
  deriving DecidableEq

def charged (log : List Grant) (window : ℕ) : List Grant := log.filter fun g => g.window = window

def bytesOf (log : List Grant) : ℕ := (log.map Grant.bytes).sum

/-- The grants of a closed interval. -/
def between (log : List Grant) (time span : ℕ) : List Grant :=
  log.filter fun g => time ≤ g.time ∧ g.time ≤ time + span

section
variable (span maxCount maxBytes : ℕ)

/-- Grants lie in their windows, windows do not overlap, and no window exceeds its limits. -/
structure Limited (log : List Grant) : Prop where
  inside : ∀ g ∈ log, g.window ≤ g.time ∧ g.time < g.window + span
  apart : ∀ g ∈ log, ∀ h ∈ log, g.window < h.window → g.window + span ≤ h.window
  counted : ∀ window, (charged log window).length ≤ maxCount
  weighed : ∀ window, bytesOf (charged log window) ≤ maxBytes

/-- A limited log and a budget that counts at least the grants of its own window. -/
structure Accounted (start count bytes : ℕ) (log : List Grant) : Prop
    extends Limited span maxCount maxBytes log where
  before : ∀ g ∈ log, g.window = start ∨ g.window + span ≤ start
  current : (charged log start).length ≤ count
  currentBytes : bytesOf (charged log start) ≤ bytes

end

variable {span maxCount maxBytes start count bytes : ℕ} {log : List Grant}

theorem bytesOf_append (log log' : List Grant) : bytesOf (log ++ log') = bytesOf log + bytesOf log' := by
  rw [bytesOf, bytesOf, bytesOf, List.map_append, List.sum_append]

theorem charged_append (log log' : List Grant) (window : ℕ) :
    charged (log ++ log') window = charged log window ++ charged log' window := List.filter_append ..

theorem charged_single (g : Grant) (window : ℕ) :
    charged [g] window = if g.window = window then [g] else [] := by
  unfold charged
  rw [List.filter_cons]
  simp

theorem charged_eq_nil {window : ℕ} (h : ∀ g ∈ log, g.window ≠ window) : charged log window = [] := by
  unfold charged
  rw [List.filter_eq_nil_iff]
  intro g hg heq
  exact h g hg (of_decide_eq_true heq)

theorem Accounted.empty (start count bytes : ℕ) :
    Accounted span maxCount maxBytes start count bytes [] := by
  refine ⟨⟨?_, ?_, fun _ => Nat.zero_le _, fun _ => Nat.zero_le _⟩, ?_, Nat.zero_le _, Nat.zero_le _⟩
  all_goals exact fun g hg => absurd hg List.not_mem_nil

/-- The first request after a window opens the next one. -/
theorem Accounted.renew (h : Accounted span maxCount maxBytes start count bytes log)
    (hspan : 0 < span) {now : ℕ} (hnow : start + span ≤ now) :
    Accounted span maxCount maxBytes now 0 0 log := by
  have hover : ∀ g ∈ log, g.window + span ≤ now := by
    intro g hg
    have hbefore := h.before g hg
    omega
  have hnone : charged log now = [] := charged_eq_nil fun g hg => by
    have hg' := hover g hg
    omega
  refine ⟨h.toLimited, fun g hg => Or.inr (hover g hg), ?_, ?_⟩
  · rw [hnone]
    exact Nat.le_refl _
  · rw [hnone]
    exact Nat.le_refl _

theorem Accounted.grant (h : Accounted span maxCount maxBytes start count bytes log)
    {now amount : ℕ} (hstart : start ≤ now) (hnow : now < start + span)
    (hcount : count + 1 ≤ maxCount) (hbytes : bytes + amount ≤ maxBytes) :
    Accounted span maxCount maxBytes start (count + 1) (bytes + amount)
      (log ++ [⟨start, now, amount⟩]) := by
  have hmem : ∀ g ∈ log ++ [(⟨start, now, amount⟩ : Grant)], g ∈ log ∨ g = ⟨start, now, amount⟩ := by
    intro g hg
    rwa [List.mem_append, List.mem_singleton] at hg
  have hwindow : ∀ window, charged (log ++ [(⟨start, now, amount⟩ : Grant)]) window =
      charged log window ++ if start = window then [⟨start, now, amount⟩] else [] := by
    intro window
    rw [charged_append, charged_single]
  have hcurrent := h.current
  have hcurrentBytes := h.currentBytes
  refine ⟨⟨?_, ?_, ?_, ?_⟩, ?_, ?_, ?_⟩
  · intro g hg
    rcases hmem g hg with hold | rfl
    · exact h.inside g hold
    · exact ⟨hstart, hnow⟩
  · intro g hg g' hg' hlt
    rcases hmem g hg with hold | rfl
    · rcases hmem g' hg' with hold' | rfl
      · exact h.apart g hold g' hold' hlt
      · rcases h.before g hold with heq | hle
        · exact absurd hlt (by rw [heq]; exact Nat.lt_irrefl _)
        · exact hle
    · rcases hmem g' hg' with hold' | rfl
      · rcases h.before g' hold' with heq | hle
        · exact absurd hlt (by rw [heq]; exact Nat.lt_irrefl _)
        · change start < g'.window at hlt
          omega
      · exact absurd hlt (Nat.lt_irrefl _)
  · intro window
    rw [hwindow, List.length_append]
    split_ifs with heq
    · subst heq
      rw [List.length_singleton]
      omega
    · exact h.counted window
  · intro window
    rw [hwindow, bytesOf_append]
    split_ifs with heq
    · subst heq
      change _ + (amount + 0) ≤ _
      omega
    · exact h.weighed window
  · intro g hg
    rcases hmem g hg with hold | rfl
    · exact h.before g hold
    · exact Or.inl rfl
  · rw [hwindow, if_pos rfl, List.length_append, List.length_singleton]
    omega
  · rw [hwindow, if_pos rfl, bytesOf_append]
    change _ + (amount + 0) ≤ _
    omega

/-- Any closed interval of one window's length meets at most two windows. -/
theorem Limited.two_windows (h : Limited span maxCount maxBytes log) (time : ℕ) :
    ∃ first second, ∀ g ∈ between log time span, g.window = first ∨ g.window = second := by
  have hmem : ∀ g ∈ between log time span, g ∈ log ∧ time ≤ g.time ∧ g.time ≤ time + span := by
    intro g hg
    unfold between at hg
    rw [List.mem_filter, decide_eq_true_eq] at hg
    exact hg
  cases hcons : between log time span with
  | nil => exact ⟨0, 0, fun g hg => absurd hg List.not_mem_nil⟩
  | cons g rest =>
    rw [hcons] at hmem
    by_cases hother : ∃ g' ∈ g :: rest, g'.window ≠ g.window
    · obtain ⟨g', hg', hne⟩ := hother
      refine ⟨g.window, g'.window, fun k hk => ?_⟩
      -- three windows would leave the middle one a whole length inside the interval
      obtain ⟨hgl, hgt, hgt'⟩ := hmem g (List.mem_cons_self ..)
      obtain ⟨hgl', hgt'', hgt'''⟩ := hmem g' hg'
      obtain ⟨hkl, hkt, hkt'⟩ := hmem k hk
      have h1 := h.inside g hgl
      have h2 := h.inside g' hgl'
      have h3 := h.inside k hkl
      have a12 := h.apart g hgl g' hgl'
      have a21 := h.apart g' hgl' g hgl
      have a13 := h.apart g hgl k hkl
      have a31 := h.apart k hkl g hgl
      have a23 := h.apart g' hgl' k hkl
      have a32 := h.apart k hkl g' hgl'
      omega
    · refine ⟨g.window, g.window, fun k hk => Or.inl ?_⟩
      by_contra hne
      exact hother ⟨k, hk, hne⟩

/-- What lies in two windows is at most what both were charged. -/
theorem filter_two_windows {p : Grant → Bool} {first second : ℕ} (log : List Grant)
    (h : ∀ g ∈ log, p g = true → g.window = first ∨ g.window = second) :
    (log.filter p).length ≤ (charged log first).length + (charged log second).length ∧
      bytesOf (log.filter p) ≤ bytesOf (charged log first) + bytesOf (charged log second) := by
  induction log with
  | nil => exact ⟨Nat.zero_le _, Nat.zero_le _⟩
  | cons g log ih =>
    obtain ⟨hcount, hbytes⟩ := ih fun g' hg' => h g' (List.mem_cons_of_mem _ hg')
    have hcons : ∀ (q : Grant → Bool), ((g :: log).filter q).length =
        (if q g then 1 else 0) + (log.filter q).length ∧
        bytesOf ((g :: log).filter q) = (if q g then g.bytes else 0) + bytesOf (log.filter q) := by
      intro q
      rw [List.filter_cons]
      split_ifs
      · exact ⟨by rw [List.length_cons]; omega, rfl⟩
      · exact ⟨by omega, by omega⟩
    unfold charged at *
    rw [(hcons p).1, (hcons p).2, (hcons _).1, (hcons _).2, (hcons fun g => g.window = second).1,
      (hcons fun g => g.window = second).2]
    cases hp : p g with
    | false =>
      rw [if_neg Bool.false_ne_true, if_neg Bool.false_ne_true]
      omega
    | true =>
      rw [if_pos rfl, if_pos rfl]
      rcases h g (List.mem_cons_self ..) hp with heq | heq
      · rw [if_pos (decide_eq_true heq), if_pos (decide_eq_true heq)]
        omega
      · rw [if_pos (c := decide (g.window = second) = true) (decide_eq_true heq),
          if_pos (c := decide (g.window = second) = true) (decide_eq_true heq)]
        omega

/-- Twice the limits of a window bound any closed interval of its length. -/
theorem Limited.interval (h : Limited span maxCount maxBytes log) (time : ℕ) :
    (between log time span).length ≤ 2 * maxCount ∧
      bytesOf (between log time span) ≤ 2 * maxBytes := by
  obtain ⟨first, second, hwindows⟩ := h.two_windows time
  have hsplit := filter_two_windows (p := fun g => time ≤ g.time ∧ g.time ≤ time + span) log
    fun g hg hp => hwindows g (List.mem_filter.mpr ⟨hg, hp⟩)
  change (between log time span).length ≤ _ ∧ bytesOf (between log time span) ≤ _ at hsplit
  have hfirst := h.counted first
  have hsecond := h.counted second
  have hfirst' := h.weighed first
  have hsecond' := h.weighed second
  omega

end Tim2Tox.WindowBudgets
