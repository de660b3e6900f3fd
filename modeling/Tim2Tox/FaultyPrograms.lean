import Mathlib.Tactic.Common

set_option autoImplicit false

/-!
# Programs whose steps can fail

A program is a tree of steps on a state. Every step goes through, fails with an exception that a
handler can catch, or is the one the process dies at. What holds in each of the three ends is
computed from the program by `wp`.
-/
namespace Tim2Tox.FaultyPrograms

inductive Fault where
  | passes
  | fails
  | dies
  deriving DecidableEq

inductive Exit (α : Type) where
  | done (a : α)
  | failed
  | died
  deriving DecidableEq

/-- `memory` is a change that cannot fail. A `step` that does not go through leaves `torn`. -/
inductive Prog (σ α : Type) where
  | done (a : α)
  | throw
  | memory (change : σ → σ) (next : σ → Prog σ α)
  | step (change torn : σ → σ) (next : σ → Prog σ α) (caught : Prog σ α)

variable {σ α β : Type}

namespace Prog

def bind : Prog σ α → (α → Prog σ β) → Prog σ β
  | .done a, k => k a
  | .throw, _ => .throw
  | .memory change next, k => .memory change fun s => (next s).bind k
  | .step change torn next caught, k =>
    .step change torn (fun s => (next s).bind k) (caught.bind k)

instance : Monad (Prog σ) where
  pure := .done
  bind := .bind

/-- `try p catch handler`. -/
def tryCatch : Prog σ α → Prog σ α → Prog σ α
  | .done a, _ => .done a
  | .throw, handler => handler
  | .memory change next, handler => .memory change fun s => (next s).tryCatch handler
  | .step change torn next caught, handler =>
    .step change torn (fun s => (next s).tryCatch handler) (caught.tryCatch handler)

/-- `try p finally last`. -/
def tryFinally : Prog σ α → Prog σ Unit → Prog σ α
  | .done a, last => last.bind fun _ => .done a
  | .throw, last => last.bind fun _ => .throw
  | .memory change next, last => .memory change fun s => (next s).tryFinally last
  | .step change torn next caught, last =>
    .step change torn (fun s => (next s).tryFinally last) (caught.tryFinally last)

/-- The steps without a fault left for them go through. -/
def run : Prog σ α → List Fault → σ → Exit α × σ
  | .done a, _, s => (.done a, s)
  | .throw, _, s => (.failed, s)
  | .memory change next, faults, s => (next (change s)).run faults (change s)
  | .step change _ next _, [], s => (next (change s)).run [] (change s)
  | .step change _ next _, .passes :: faults, s => (next (change s)).run faults (change s)
  | .step _ torn _ caught, .fails :: faults, s => caught.run faults (torn s)
  | .step _ torn _ _, .dies :: _, s => (.died, torn s)

/-- Without a fault no run dies. -/
theorem run_nil_ne_died (p : Prog σ α) : ∀ s, (p.run [] s).1 ≠ .died := by
  induction p with
  | done a => exact fun _ => by simp [run]
  | throw => exact fun _ => by simp [run]
  | memory change next ih => exact fun s => ih (change s) (change s)
  | step change torn next caught ihnext ihcaught => exact fun s => ihnext (change s) (change s)

/-- The weakest condition under which every run ends in `done`, `failed` or `died` as asked for;
    a step fails only where `mayFail`. -/
def wp (mayFail : Prop) (done : α → σ → Prop) (failed died : σ → Prop) : Prog σ α → σ → Prop
  | .done a, s => done a s
  | .throw, s => failed s
  | .memory change next, s => (next (change s)).wp mayFail done failed died (change s)
  | .step change torn next caught, s =>
    (next (change s)).wp mayFail done failed died (change s) ∧
      (mayFail → caught.wp mayFail done failed died (torn s)) ∧ died (torn s)

/-- The end a run came to meets the condition for it. -/
def Ends (done : α → σ → Prop) (failed died : σ → Prop) : Exit α × σ → Prop
  | (.done a, s) => done a s
  | (.failed, s) => failed s
  | (.died, s) => died s

section
variable {mayFail : Prop} {done : α → σ → Prop} {failed died : σ → Prop}

theorem wp_run (p : Prog σ α) : ∀ faults s, (.fails ∈ faults → mayFail) →
    p.wp mayFail done failed died s → Ends done failed died (p.run faults s) := by
  induction p with
  | done a => exact fun _ _ _ h => h
  | throw => exact fun _ _ _ h => h
  | memory change next ih => exact fun faults s hmay h => ih (change s) faults (change s) hmay h
  | step change torn next caught ihnext ihcaught =>
    intro faults s hmay h
    cases faults with
    | nil => exact ihnext (change s) [] (change s) hmay h.1
    | cons fault faults =>
      have hrest : .fails ∈ faults → mayFail := fun hmem => hmay (List.mem_cons_of_mem _ hmem)
      cases fault with
      | passes => exact ihnext (change s) faults (change s) hrest h.1
      | fails => exact ihcaught faults (torn s) hrest (h.2.1 (hmay List.mem_cons_self))
      | dies => exact h.2.2

theorem wp_mono {done' : α → σ → Prop} {failed' died' : σ → Prop} (p : Prog σ α)
    (hdone : ∀ a s, done a s → done' a s) (hfailed : ∀ s, failed s → failed' s)
    (hdied : ∀ s, died s → died' s) :
    ∀ s, p.wp mayFail done failed died s → p.wp mayFail done' failed' died' s := by
  induction p with
  | done a => exact hdone a
  | throw => exact hfailed
  | memory change next ih => exact fun s h => ih (change s) (change s) h
  | step change torn next caught ihnext ihcaught =>
    intro s h
    exact ⟨ihnext (change s) (change s) h.1, fun hmay => ihcaught (torn s) (h.2.1 hmay),
      hdied (torn s) h.2.2⟩

theorem wp_bind (p : Prog σ β) (k : β → Prog σ α) : ∀ s,
    (p >>= k).wp mayFail done failed died s =
      p.wp mayFail (fun b => (k b).wp mayFail done failed died) failed died s := by
  change ∀ s, (p.bind k).wp mayFail done failed died s = _
  induction p with
  | done a => exact fun _ => rfl
  | throw => exact fun _ => rfl
  | memory change next ih => exact fun s => ih (change s) (change s)
  | step change torn next caught ihnext ihcaught =>
    intro s
    change (_ ∧ (_ → _) ∧ _) = (_ ∧ (_ → _) ∧ _)
    rw [ihnext, ihcaught]

/-- The rest of a program from every state the first part completes in. -/
theorem wp_andThen {p : Prog σ β} {k : β → Prog σ α} {middle : β → σ → Prop} {s : σ}
    (hp : p.wp mayFail middle failed died s) (hk : ∀ b u, middle b u → (k b).wp mayFail done failed died u) :
    (p >>= k).wp mayFail done failed died s := by
  rw [wp_bind]
  exact wp_mono p hk (fun _ h => h) (fun _ h => h) s hp

theorem wp_tryCatch (p handler : Prog σ α) : ∀ s,
    (p.tryCatch handler).wp mayFail done failed died s =
      p.wp mayFail done (handler.wp mayFail done failed died) died s := by
  induction p with
  | done a => exact fun _ => rfl
  | throw => exact fun _ => rfl
  | memory change next ih => exact fun s => ih (change s) (change s)
  | step change torn next caught ihnext ihcaught =>
    intro s
    change (_ ∧ (_ → _) ∧ _) = (_ ∧ (_ → _) ∧ _)
    rw [ihnext, ihcaught]

theorem wp_tryFinally (p : Prog σ α) (last : Prog σ Unit) : ∀ s,
    (p.tryFinally last).wp mayFail done failed died s =
      p.wp mayFail (fun a => last.wp mayFail (fun _ => done a) failed died)
        (last.wp mayFail (fun _ => failed) failed died) died s := by
  induction p with
  | done a => exact fun s => wp_bind last (fun _ => .done a) s
  | throw => exact fun s => wp_bind last (fun _ => .throw) s
  | memory change next ih => exact fun s => ih (change s) (change s)
  | step change torn next caught ihnext ihcaught =>
    intro s
    change (_ ∧ (_ → _) ∧ _) = (_ ∧ (_ → _) ∧ _)
    rw [ihnext, ihcaught]

theorem wp_ite {c : Prop} [Decidable c] {p q : Prog σ α} {s : σ}
    (hp : c → p.wp mayFail done failed died s) (hq : ¬c → q.wp mayFail done failed died s) :
    (if c then p else q).wp mayFail done failed died s := by
  split
  · exact hp ‹_›
  · exact hq ‹_›

end

end Prog

end Tim2Tox.FaultyPrograms
