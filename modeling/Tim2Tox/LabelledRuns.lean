import Mathlib.Data.List.Induction
import Mathlib.Tactic.Common

set_option autoImplicit false

/-!
# Finite runs of labelled partial steps

A step function says what a label does in a state, or that the label is not
enabled there. All nondeterminism of a system sits in its labels, so a run is
a list of labels and can be evaluated. Invariants are proved for one step and
lifted to runs here, also for runs whose steps all meet a side condition.
-/
namespace Tim2Tox.LabelledRuns

variable {σ ε : Type*}

/-- The state a list of labels leads to, or `none` when one is not enabled. -/
def exec (step : σ → ε → Option σ) : σ → List ε → Option σ
  | s, [] => some s
  | s, e :: es => (step s e).bind fun u => exec step u es

/-- Every step of the run meets `cond` in the state it is taken from. -/
def Meets (step : σ → ε → Option σ) (cond : σ → ε → Prop) : σ → List ε → Prop
  | _, [] => True
  | s, e :: es => cond s e ∧ ∀ u, step s e = some u → Meets step cond u es

instance decidableMeets (step : σ → ε → Option σ) (cond : σ → ε → Prop)
    [∀ s e, Decidable (cond s e)] : ∀ s es, Decidable (Meets step cond s es)
  | _, [] => isTrue trivial
  | s, e :: es =>
    match hs : step s e with
    | none => decidable_of_iff (cond s e) ⟨fun h => ⟨h, by simp [hs]⟩, fun h => h.1⟩
    | some u =>
      have : Decidable (Meets step cond u es) := decidableMeets step cond u es
      decidable_of_iff (cond s e ∧ Meets step cond u es)
        ⟨fun h => ⟨h.1, by simpa [hs] using h.2⟩, fun h => ⟨h.1, h.2 u hs⟩⟩

@[simp] theorem exec_nil (step : σ → ε → Option σ) (s : σ) : exec step s [] = some s := rfl

theorem exec_cons {step : σ → ε → Option σ} {s v : σ} {e : ε} {es : List ε} :
    exec step s (e :: es) = some v ↔ ∃ u, step s e = some u ∧ exec step u es = some v := by
  simp [exec, Option.bind_eq_some_iff]

theorem exec_append {step : σ → ε → Option σ} {s v : σ} {es fs : List ε} :
    exec step s (es ++ fs) = some v ↔ ∃ u, exec step s es = some u ∧ exec step u fs = some v := by
  induction es generalizing s with
  | nil => simp
  | cons e es ih =>
    simp only [List.cons_append, exec_cons, ih]
    constructor
    · rintro ⟨u, hu, w, hw, hv⟩
      exact ⟨w, ⟨u, hu, hw⟩, hv⟩
    · rintro ⟨w, ⟨u, hu, hw⟩, hv⟩
      exact ⟨u, hu, w, hw, hv⟩

/-- The conditional invariant rule: what every step that meets the condition
    preserves holds at the end of every run whose steps meet it. -/
theorem invariant_of_meets {step : σ → ε → Option σ} {cond : σ → ε → Prop} {I : σ → Prop}
    (hstep : ∀ s e u, I s → cond s e → step s e = some u → I u)
    {s v : σ} {es : List ε} (hs : I s) (hm : Meets step cond s es)
    (hr : exec step s es = some v) : I v := by
  induction es generalizing s with
  | nil =>
    obtain rfl : s = v := by simpa using hr
    exact hs
  | cons e es ih =>
    obtain ⟨u, hu, hv⟩ := exec_cons.mp hr
    exact ih (hstep s e u hs hm.1 hu) (hm.2 u hu) hv

theorem meets_true (step : σ → ε → Option σ) (s : σ) (es : List ε) :
    Meets step (fun _ _ => True) s es := by
  induction es generalizing s with
  | nil => trivial
  | cons e es ih => exact ⟨trivial, fun u _ => ih u⟩

/-- The invariant rule without a side condition. -/
theorem invariant {step : σ → ε → Option σ} {I : σ → Prop}
    (hstep : ∀ s e u, I s → step s e = some u → I u)
    {s v : σ} {es : List ε} (hs : I s) (hr : exec step s es = some v) : I v :=
  invariant_of_meets (fun s e u h (_ : True) => hstep s e u h) hs
    (meets_true step s es) hr

theorem meets_mono {step : σ → ε → Option σ} {p q : σ → ε → Prop} (h : ∀ s e, p s e → q s e)
    {s : σ} {es : List ε} (hm : Meets step p s es) : Meets step q s es := by
  induction es generalizing s with
  | nil => trivial
  | cons e es ih => exact ⟨h s e hm.1, fun u hu => ih (hm.2 u hu)⟩

theorem meets_and {step : σ → ε → Option σ} {p q : σ → ε → Prop} {s : σ} {es : List ε}
    (hp : Meets step p s es) (hq : Meets step q s es) :
    Meets step (fun s e => p s e ∧ q s e) s es := by
  induction es generalizing s with
  | nil => trivial
  | cons e es ih => exact ⟨⟨hp.1, hq.1⟩, fun u hu => ih (hp.2 u hu) (hq.2 u hu)⟩

theorem meets_append {step : σ → ε → Option σ} {cond : σ → ε → Prop} {s u : σ} {es fs : List ε}
    (hm : Meets step cond s (es ++ fs)) (hr : exec step s es = some u) :
    Meets step cond s es ∧ Meets step cond u fs := by
  induction es generalizing s with
  | nil =>
    obtain rfl : s = u := by simpa using hr
    exact ⟨trivial, hm⟩
  | cons e es ih =>
    obtain ⟨w, hw, hu⟩ := exec_cons.mp hr
    refine ⟨⟨hm.1, fun w' hw' => ?_⟩, (ih (hm.2 w hw) hu).2⟩
    obtain rfl : w = w' := Option.some.inj (hw.symm.trans hw')
    exact (ih (hm.2 w hw) hu).1

/-- The steps of a shorter run are among those of the longer one. -/
theorem meets_of_append {step : σ → ε → Option σ} {cond : σ → ε → Prop} {s : σ} {es fs : List ε}
    (hm : Meets step cond s (es ++ fs)) : Meets step cond s es := by
  induction es generalizing s with
  | nil => trivial
  | cons e es ih => exact ⟨hm.1, fun u hu => ih (hm.2 u hu)⟩

/-- The run passes through `t`, its first and last state included. -/
def Visits (step : σ → ε → Option σ) (s : σ) (es : List ε) (t : σ) : Prop :=
  ∃ fs gs, es = fs ++ gs ∧ exec step s fs = some t

theorem Visits.split {step : σ → ε → Option σ} {s t v : σ} {es : List ε}
    (h : Visits step s es t) (hr : exec step s es = some v) :
    ∃ fs gs, es = fs ++ gs ∧ exec step s fs = some t ∧ exec step t gs = some v := by
  obtain ⟨fs, gs, rfl, ht⟩ := h
  obtain ⟨u, hu, hv⟩ := exec_append.mp hr
  obtain rfl : t = u := Option.some.inj (ht.symm.trans hu)
  exact ⟨fs, gs, rfl, ht, hv⟩

/-! ## What has held since an event -/

/-- An event of the first kind has happened, and none of the second kind after it. -/
def Since (starts ends : ε → Prop) (es : List ε) : Prop :=
  ∃ before e after, es = before ++ e :: after ∧ starts e ∧ ∀ d ∈ after, ¬ ends d

theorem not_since_nil (starts ends : ε → Prop) : ¬ Since starts ends [] := by
  rintro ⟨before, e, after, h, -⟩
  have hlength := congrArg List.length h
  simp at hlength

theorem since_append_singleton {starts ends : ε → Prop} {es : List ε} {e : ε} :
    Since starts ends (es ++ [e]) ↔ starts e ∨ (Since starts ends es ∧ ¬ ends e) := by
  constructor
  · rintro ⟨before, d, after, h, hstart, hafter⟩
    induction after using List.reverseRecOn with
    | nil =>
      have hlast := (List.append_inj' h rfl).2
      rw [← List.singleton_inj.mp hlast] at hstart
      exact .inl hstart
    | append_singleton after last =>
      have hsplit : es ++ [e] = (before ++ d :: after) ++ [last] := by
        rw [h, List.append_assoc, List.cons_append]
      have hparts := List.append_inj' hsplit rfl
      have hlast := hafter last (List.mem_append_right _ (List.mem_singleton_self last))
      rw [← List.singleton_inj.mp hparts.2] at hlast
      exact .inr ⟨⟨before, d, after, hparts.1, hstart,
        fun c hc => hafter c (List.mem_append_left _ hc)⟩, hlast⟩
  · rintro (hstart | ⟨⟨before, d, after, h, hstart, hafter⟩, hend⟩)
    · exact ⟨es, e, [], rfl, hstart, fun d hd => absurd hd List.not_mem_nil⟩
    · refine ⟨before, d, after ++ [e], by rw [h, List.append_assoc, List.cons_append], hstart, ?_⟩
      intro c hc
      cases List.mem_append.mp hc with
      | inl hc => exact hafter c hc
      | inr hc =>
        rw [List.mem_singleton.mp hc]
        exact hend

/-- What one kind of event switches on and another kind off, holds as long as the last of the
    first kind has none of the second after it. -/
theorem since_foldl {step : σ → ε → σ} {p : σ → Prop} {starts ends : ε → Prop}
    (hstep : ∀ s e, p (step s e) ↔ starts e ∨ (p s ∧ ¬ ends e)) {s : σ} (hs : ¬ p s)
    (es : List ε) : p (es.foldl step s) ↔ Since starts ends es := by
  induction es using List.reverseRecOn with
  | nil => exact iff_of_false hs (not_since_nil starts ends)
  | append_singleton es e ih =>
    rw [List.foldl_append, since_append_singleton, ← ih]
    exact hstep _ e

end Tim2Tox.LabelledRuns
