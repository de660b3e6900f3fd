import Mathlib.Data.List.Nodup

set_option autoImplicit false

/-!
# The order of arrival

Lists that name things in the order in which they last came.
-/
namespace Tim2Tox.ArrivalOrder

variable {α : Type} {arrived list new : List α} {x y : α}

/-- Since it last came, the other one has come. -/
def CameAfter (arrived : List α) (y x : α) : Prop :=
  ∃ before after, arrived = before ++ x :: after ∧ x ∉ after ∧ y ∈ after

theorem CameAfter.append (h : CameAfter arrived y x) (hx : x ∉ new) : CameAfter (arrived ++ new) y x := by
  obtain ⟨before, after, heq, hnot, hy⟩ := h
  refine ⟨before, after ++ new, ?_, ?_, List.mem_append_left _ hy⟩
  · rw [heq, List.append_assoc, List.cons_append]
  · exact fun hmem => (List.mem_append.mp hmem).elim hnot hx

theorem cameAfter_new (hx : x ∈ arrived) (hnot : x ∉ new) (hy : y ∈ new) :
    CameAfter (arrived ++ new) y x := by
  obtain ⟨after, before, heq, hlast⟩ := List.eq_append_cons_of_mem (List.mem_reverse.mpr hx)
  have hsplit : arrived = before.reverse ++ x :: after.reverse := by
    rw [← List.reverse_reverse arrived, heq, List.reverse_append, List.reverse_cons, List.append_assoc,
      List.singleton_append]
  refine ⟨before.reverse, after.reverse ++ new, ?_, ?_, List.mem_append_right _ hy⟩
  · rw [hsplit, List.append_assoc, List.cons_append]
  · exact fun hmem => (List.mem_append.mp hmem).elim (fun h => hlast (List.mem_reverse.mp h)) hnot

/-- Listed in the order in which they came. -/
def InOrder (arrived list : List α) : Prop :=
  (∀ x ∈ list, x ∈ arrived) ∧ list.Pairwise fun x y => CameAfter arrived y x

theorem InOrder.sublist {list' : List α} (h : InOrder arrived list) (hsub : list'.Sublist list) :
    InOrder arrived list' :=
  ⟨fun x hx => h.1 x (hsub.subset hx), h.2.sublist hsub⟩

theorem InOrder.beside (h : InOrder arrived list) (hnew : ∀ x ∈ list, x ∉ new) :
    InOrder (arrived ++ new) list := by
  refine ⟨fun x hx => List.mem_append_left _ (h.1 x hx), ?_⟩
  exact h.2.imp_of_mem fun hx _ hafter => hafter.append (hnew _ hx)

theorem pairwise_new (arrived : List α) (h : new.Nodup) :
    new.Pairwise fun x y => CameAfter (arrived ++ new) y x := by
  induction new generalizing arrived with
  | nil => exact .nil
  | cons x new ih =>
    obtain ⟨hx, hnew⟩ := List.nodup_cons.mp h
    refine .cons (fun y hy => ⟨arrived, new, rfl, hx, hy⟩) ?_
    have htail := ih (arrived ++ [x]) hnew
    rw [List.append_assoc, List.singleton_append] at htail
    exact htail

theorem InOrder.append (h : InOrder arrived list) (hnodup : (list ++ new).Nodup) :
    InOrder (arrived ++ new) (list ++ new) := by
  obtain ⟨-, hnew, hapart⟩ := List.nodup_append.mp hnodup
  have hnot : ∀ x ∈ list, x ∉ new := fun x hx hmem => hapart x hx x hmem rfl
  refine ⟨fun x hx => ?_, List.pairwise_append.mpr ⟨(h.beside hnot).2, pairwise_new arrived hnew, ?_⟩⟩
  · rcases List.mem_append.mp hx with hx | hx
    · exact List.mem_append_left _ (h.1 x hx)
    · exact List.mem_append_right _ hx
  · exact fun x hx y hy => cameAfter_new (h.1 x hx) (hnot x hx) hy

theorem inOrder_nil (arrived : List α) : InOrder arrived [] :=
  ⟨fun _ hx => absurd hx List.not_mem_nil, .nil⟩

theorem inOrder_self (h : list.Nodup) : InOrder list list :=
  (inOrder_nil []).append h

end Tim2Tox.ArrivalOrder
