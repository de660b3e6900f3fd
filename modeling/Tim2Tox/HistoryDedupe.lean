import Mathlib.Data.List.Dedup
import Mathlib.Data.List.ReduceOption
import Tim2Tox.ChatHistory

set_option autoImplicit false

/-!
# Collapsing the rows of a file

A merge of two copies carries the ids of both. The pass over the rows of a file leaves rows apart
that share no identity, gives every slot the identities of the rows it took in, and so leaves no two
rows of one direction with a common identity, unless one primary id stands in both directions.
-/
namespace Tim2Tox.ChatHistory
open ChatMessage

/-! ## The ids of a merge -/

theorem mem_sortedIds {ids : List String} {id : String} : id ∈ sortedIds ids ↔ id ∈ ids := by
  unfold sortedIds
  rw [List.mem_insertionSort, List.mem_dedup]

theorem mem_ids {m : ChatMessage} {id : String} : id ∈ m.ids ↔ m.msgID = some id ∨ id ∈ m.altMsgIds := by
  unfold ids
  rw [List.mem_append, Option.mem_toList]

theorem idMatches_iff {m : ChatMessage} {id : String} : idMatches m id = true ↔ id ∈ m.ids := by
  unfold idMatches
  rw [mem_ids]
  simp

theorem mem_identitiesOf {m : ChatMessage} {id : String} :
    id ∈ identitiesOf m ↔ id = m.primary ∨ id ∈ m.altMsgIds := by
  unfold identitiesOf
  exact List.mem_cons

theorem ids_subset_identities {m : ChatMessage} {id : String} (h : id ∈ m.ids) :
    id ∈ identitiesOf m := by
  rw [mem_identitiesOf]
  rcases mem_ids.mp h with hid | halt
  · left
    unfold primary
    rw [hid]
    rfl
  · exact .inr halt

theorem mem_ids_mergeMessages {sent : Option (String → Bool)} {a b : ChatMessage} {id : String} :
    id ∈ (mergeMessages sent a b).ids ↔ id ∈ a.ids ∨ id ∈ b.ids := by
  rw [mem_ids, mem_ids, mem_ids]
  change (b.msgID.or a.msgID = some id ∨ id ∈ sortedIds ((a.altMsgIds ++ b.altMsgIds ++ a.msgID.toList ++
    b.msgID.toList).filter fun id => some id ≠ b.msgID.or a.msgID)) ↔ _
  rw [mem_sortedIds, List.mem_filter]
  simp only [List.mem_append, Option.mem_toList, decide_eq_true_eq]
  constructor
  · rintro (hid | ⟨((hold | hnew) | ha) | hb, -⟩)
    · rcases hb : b.msgID with _ | x
      · rw [hb, Option.none_or] at hid
        exact .inl (.inl hid)
      · rw [hb, Option.some_or] at hid
        exact .inr (.inl hid)
    · exact .inl (.inr hold)
    · exact .inr (.inr hnew)
    · exact .inl (.inl ha)
    · exact .inr (.inl hb)
  · intro h
    by_cases hid : b.msgID.or a.msgID = some id
    · exact .inl hid
    · refine .inr ⟨?_, fun heq => hid heq.symm⟩
      rcases h with (ha | hold) | (hb | hnew)
      · exact .inl (.inr ha)
      · exact .inl (.inl (.inl hold))
      · exact .inr hb
      · exact .inl (.inl (.inr hnew))

/-- The copy of two that is kept. -/
def winner (a b : ChatMessage) : ChatMessage := if keepsLater a b then b else a

theorem winner_mem (a b : ChatMessage) : winner a b = a ∨ winner a b = b := by
  unfold winner
  split_ifs
  · exact .inr rfl
  · exact .inl rfl

theorem preferLoadedCopy_isSelf (a b : ChatMessage) :
    (preferLoadedCopy a b).isSelf = (winner a b).isSelf := by
  unfold preferLoadedCopy winner
  dsimp only
  split_ifs <;> rfl

theorem preferLoadedCopy_primary (a b : ChatMessage) :
    (preferLoadedCopy a b).primary = (winner a b).primary := by
  unfold preferLoadedCopy winner
  dsimp only
  split_ifs <;> rfl

theorem preferLoadedCopy_msgID (a b : ChatMessage) :
    (preferLoadedCopy a b).msgID = (winner a b).msgID := by
  unfold preferLoadedCopy winner
  dsimp only
  split_ifs <;> rfl

theorem preferLoadedCopy_aliases (a b : ChatMessage) :
    (preferLoadedCopy a b).altMsgIds =
        sortedIds ((a.ids ++ b.ids).filter fun id => some id ≠ (winner a b).msgID) ∨
      (preferLoadedCopy a b).altMsgIds = (winner a b).altMsgIds ∧
        ∀ id ∈ (a.ids ++ b.ids).filter (fun id => some id ≠ (winner a b).msgID),
          id ∈ (winner a b).altMsgIds := by
  unfold preferLoadedCopy winner
  dsimp only
  split_ifs with hlater hsame hsame
  · refine .inr ⟨rfl, fun id hid => ?_⟩
    simp only [Bool.and_eq_true, List.all_eq_true, decide_eq_true_eq] at hsame
    exact hsame.1.1.1.1.1.1.2 id (mem_sortedIds.mpr hid)
  · exact .inl rfl
  · refine .inr ⟨rfl, fun id hid => ?_⟩
    simp only [Bool.and_eq_true, List.all_eq_true, decide_eq_true_eq] at hsame
    exact hsame.1.1.1.1.1.1.2 id (mem_sortedIds.mpr hid)
  · exact .inl rfl

theorem mem_ids_preferLoadedCopy {a b : ChatMessage} {id : String} :
    id ∈ (preferLoadedCopy a b).ids ↔ id ∈ a.ids ∨ id ∈ b.ids := by
  have hwinner : id ∈ (winner a b).ids → id ∈ a.ids ∨ id ∈ b.ids := by
    intro hid
    rcases winner_mem a b with heq | heq
    · rw [heq] at hid
      exact .inl hid
    · rw [heq] at hid
      exact .inr hid
  rw [mem_ids, preferLoadedCopy_msgID]
  constructor
  · rintro (hid | halias)
    · exact hwinner (mem_ids.mpr (.inl hid))
    · rcases preferLoadedCopy_aliases a b with heq | ⟨heq, -⟩
      · rw [heq, mem_sortedIds, List.mem_filter, List.mem_append] at halias
        exact halias.1
      · rw [heq] at halias
        exact hwinner (mem_ids.mpr (.inr halias))
  · intro h
    by_cases hid : (winner a b).msgID = some id
    · exact .inl hid
    · have hmem : id ∈ (a.ids ++ b.ids).filter fun id => some id ≠ (winner a b).msgID := by
        rw [List.mem_filter, List.mem_append, decide_eq_true_eq]
        exact ⟨h, fun heq => hid heq.symm⟩
      rcases preferLoadedCopy_aliases a b with heq | ⟨heq, hall⟩
      · rw [heq, mem_sortedIds]
        exact .inr hmem
      · rw [heq]
        exact .inr (hall id hmem)

theorem identities_preferLoadedCopy {a b : ChatMessage} {id : String}
    (h : id ∈ identitiesOf (preferLoadedCopy a b)) : id ∈ identitiesOf a ∨ id ∈ identitiesOf b := by
  rcases mem_identitiesOf.mp h with heq | halias
  · rw [preferLoadedCopy_primary] at heq
    rcases winner_mem a b with hw | hw
    · rw [hw] at heq
      exact .inl (mem_identitiesOf.mpr (.inl heq))
    · rw [hw] at heq
      exact .inr (mem_identitiesOf.mpr (.inl heq))
  · rcases mem_ids_preferLoadedCopy.mp (mem_ids.mpr (.inr halias)) with ha | hb
    · exact .inl (ids_subset_identities ha)
    · exact .inr (ids_subset_identities hb)

/-! ## Redirections -/

namespace Slots

/-- A redirection points to an earlier slot. -/
def Lower (redirect : ℕ → Option ℕ) : Prop := ∀ i j, redirect i = some j → j < i

variable {redirect : ℕ → Option ℕ}

theorem resolve_le (h : Lower redirect) : ∀ hops i, resolve redirect hops i ≤ i := by
  intro hops
  induction hops with
  | zero => exact fun i => Nat.le_refl i
  | succ hops ih =>
    intro i
    unfold resolve
    split
    · exact Nat.le_refl i
    · rename_i j hj
      have := ih j
      have := h i j hj
      omega

theorem resolve_of_none {i : ℕ} (h : redirect i = none) (hops : ℕ) : resolve redirect hops i = i := by
  cases hops with
  | zero => rfl
  | succ hops =>
    unfold resolve
    rw [h]

/-- Hops beyond the index change nothing. -/
theorem resolve_hops (h : Lower redirect) : ∀ hops i, i ≤ hops →
    resolve redirect hops i = resolve redirect i i := by
  intro hops
  induction hops using Nat.strong_induction_on with
  | _ hops ih =>
    intro i hi
    rcases hj : redirect i with _ | j
    · rw [resolve_of_none hj, resolve_of_none hj]
    · have hlt := h i j hj
      rcases hops with _ | hops
      · omega
      · rcases i with _ | i
        · omega
        · simp only [resolve, hj]
          rw [ih hops (by omega) j (by omega), ih i (by omega) j (by omega)]

theorem resolve_step (h : Lower redirect) {i j : ℕ} (hj : redirect i = some j) :
    resolve redirect i i = resolve redirect j j := by
  have hlt := h i j hj
  rcases i with _ | i
  · omega
  · simp only [resolve, hj]
    exact resolve_hops h i j (by omega)

theorem redirect_resolve (h : Lower redirect) : ∀ i, redirect (resolve redirect i i) = none := by
  intro i
  induction i using Nat.strong_induction_on with
  | _ i ih =>
    rcases hj : redirect i with _ | j
    · rw [resolve_of_none hj, hj]
    · rw [resolve_step h hj]
      exact ih j (h i j hj)

/-- Some slots without a redirection are sent to an earlier one. -/
theorem resolve_redirected (h : Lower redirect) {rest : List ℕ} {target : ℕ}
    (hrest : ∀ i ∈ rest, redirect i = none ∧ target < i) (htarget : redirect target = none)
    (i : ℕ) :
    resolve (fun i => if i ∈ rest then some target else redirect i) i i =
      if resolve redirect i i ∈ rest then target else resolve redirect i i := by
  have hout : target ∉ rest := fun hmem => Nat.lt_irrefl _ (hrest target hmem).2
  have hlower : Lower fun i => if i ∈ rest then some target else redirect i := by
    intro i j hj
    dsimp only at hj
    split_ifs at hj with hmem
    · rw [← Option.some.inj hj]
      exact (hrest i hmem).2
    · exact h i j hj
  induction i using Nat.strong_induction_on with
  | _ i ih =>
    by_cases hmem : i ∈ rest
    · rw [resolve_of_none (hrest i hmem).1, if_pos hmem,
        resolve_step hlower (show (if i ∈ rest then some target else redirect i) = some target from
          if_pos hmem)]
      exact resolve_of_none (by rw [if_neg hout, htarget]) _
    · rcases hj : redirect i with _ | j
      · rw [resolve_of_none hj, if_neg hmem]
        exact resolve_of_none (by rw [if_neg hmem, hj]) _
      · rw [resolve_step h hj,
          resolve_step hlower (show (if i ∈ rest then some target else redirect i) = some j by
            rw [if_neg hmem, hj])]
        exact ih j (h i j hj)

/-! ## One row -/

def registerAll (s : Slots) (rows : List ChatMessage) (target : ℕ) : Slots :=
  rows.foldl (fun s row => s.register row target) s

theorem register_byIdentity (s : Slots) (m : ChatMessage) (target : ℕ) (key : Bool × String) :
    (s.register m target).byIdentity key =
      if key.1 = m.isSelf ∧ key.2 ∈ identitiesOf m then some target else s.byIdentity key := by
  have hfold : ∀ (l : List String) (f : Bool × String → Option ℕ),
      (l.foldl (fun f id => Function.update f (m.isSelf, id) (some target)) f) key =
        if key.1 = m.isSelf ∧ key.2 ∈ l then some target else f key := by
    intro l
    induction l with
    | nil =>
      intro f
      rw [if_neg (by simp)]
      rfl
    | cons id l ih =>
      intro f
      rw [List.foldl_cons, ih]
      by_cases hl : key.1 = m.isSelf ∧ key.2 ∈ l
      · rw [if_pos hl, if_pos ⟨hl.1, List.mem_cons_of_mem _ hl.2⟩]
      · rw [if_neg hl]
        by_cases hkey : key = (m.isSelf, id)
        · rw [hkey, Function.update_self, if_pos ⟨rfl, List.mem_cons_self ..⟩]
        · rw [Function.update_of_ne hkey, if_neg]
          rintro ⟨hself, hmem⟩
          rcases List.mem_cons.mp hmem with heq | hmem
          · exact hkey (Prod.ext hself heq)
          · exact hl ⟨hself, hmem⟩
  exact hfold (identitiesOf m) s.byIdentity

section
variable (s : Slots) (rows : List ChatMessage) (target : ℕ)

theorem registerAll_slots : (s.registerAll rows target).slots = s.slots := by
  induction rows generalizing s with
  | nil => rfl
  | cons m rows ih => exact ih (s.register m target)

theorem registerAll_redirect : (s.registerAll rows target).redirect = s.redirect := by
  induction rows generalizing s with
  | nil => rfl
  | cons m rows ih => exact ih (s.register m target)

theorem registerAll_byIdentity (key : Bool × String) :
    (s.registerAll rows target).byIdentity key =
      if ∃ m ∈ rows, key.1 = m.isSelf ∧ key.2 ∈ identitiesOf m then some target
      else s.byIdentity key := by
  induction rows generalizing s with
  | nil =>
    rw [if_neg (by simp)]
    rfl
  | cons m rows ih =>
    change ((s.register m target).registerAll rows target).byIdentity key = _
    rw [ih, register_byIdentity]
    by_cases hrows : ∃ m ∈ rows, key.1 = m.isSelf ∧ key.2 ∈ identitiesOf m
    · rw [if_pos hrows, if_pos]
      obtain ⟨m', hm', h⟩ := hrows
      exact ⟨m', List.mem_cons_of_mem _ hm', h⟩
    · rw [if_neg hrows]
      by_cases hm : key.1 = m.isSelf ∧ key.2 ∈ identitiesOf m
      · rw [if_pos hm, if_pos ⟨m, List.mem_cons_self .., hm⟩]
      · rw [if_neg hm, if_neg]
        rintro ⟨m', hm', h⟩
        rcases List.mem_cons.mp hm' with rfl | hm'
        · exact hm h
        · exact hrows ⟨m', hm', h⟩

theorem registerAll_byPrimary (p : String) :
    (s.registerAll rows target).byPrimary p =
      if ∃ m ∈ rows, p = m.primary then some target else s.byPrimary p := by
  induction rows generalizing s with
  | nil =>
    rw [if_neg (by simp)]
    rfl
  | cons m rows ih =>
    change ((s.register m target).registerAll rows target).byPrimary p = _
    rw [ih]
    by_cases hrows : ∃ m ∈ rows, p = m.primary
    · rw [if_pos hrows, if_pos]
      obtain ⟨m', hm', h⟩ := hrows
      exact ⟨m', List.mem_cons_of_mem _ hm', h⟩
    · rw [if_neg hrows]
      by_cases hm : p = m.primary
      · subst hm
        rw [if_pos ⟨m, List.mem_cons_self .., rfl⟩]
        exact Function.update_self ..
      · rw [if_neg]
        · exact Function.update_of_ne hm ..
        · rintro ⟨m', hm', h⟩
          rcases List.mem_cons.mp hm' with rfl | hm'
          · exact hm h
          · exact hrows ⟨m', hm', h⟩

end

/-- The rows a visit takes in, and what they merge to. -/
def consumed (s : Slots) (ordered : List ℕ) (msg : ChatMessage) : List ChatMessage :=
  ordered.filterMap s.at? ++ [msg]

def mergedRow (rows : List ChatMessage) (msg : ChatMessage) : ChatMessage :=
  rows.tail.foldl preferLoadedCopy (rows.headD msg)

theorem foldl_prefer {P : ChatMessage → Prop} (hstep : ∀ a b, P a → P b → P (preferLoadedCopy a b)) :
    ∀ (rows : List ChatMessage) a, P a → (∀ b ∈ rows, P b) → P (rows.foldl preferLoadedCopy a) := by
  intro rows
  induction rows with
  | nil => exact fun a ha _ => ha
  | cons b rows ih =>
    intro a ha hrows
    exact ih _ (hstep a b ha (hrows b (List.mem_cons_self ..)))
      fun c hc => hrows c (List.mem_cons_of_mem _ hc)

/-- What two copies keep, the merge of all rows keeps. -/
theorem mergedRow_all {P : ChatMessage → Prop}
    (hstep : ∀ a b, P a → P b → P (preferLoadedCopy a b)) (rows : List ChatMessage) (msg : ChatMessage)
    (hmsg : P msg) (hrows : ∀ b ∈ rows, P b) : P (mergedRow rows msg) := by
  cases rows with
  | nil => exact hmsg
  | cons a rows =>
    exact foldl_prefer hstep rows a (hrows a (List.mem_cons_self ..))
      fun b hb => hrows b (List.mem_cons_of_mem _ hb)

/-- What either of two copies passes on, any row passes on to the merge. -/
theorem mergedRow_any {P : ChatMessage → Prop}
    (hstep : ∀ a b, P a ∨ P b → P (preferLoadedCopy a b)) {rows : List ChatMessage} {msg : ChatMessage}
    (h : ∃ b ∈ rows, P b) : P (mergedRow rows msg) := by
  have hfold : ∀ (rows : List ChatMessage) a, (P a ∨ ∃ b ∈ rows, P b) →
      P (rows.foldl preferLoadedCopy a) := by
    intro rows
    induction rows with
    | nil =>
      rintro a (ha | ⟨b, hb, -⟩)
      · exact ha
      · exact absurd hb List.not_mem_nil
    | cons c rows ih =>
      rintro a (ha | ⟨b, hb, hP⟩)
      · exact ih _ (.inl (hstep a c (.inl ha)))
      · rcases List.mem_cons.mp hb with rfl | hb
        · exact ih _ (.inl (hstep a b (.inr hP)))
        · exact ih _ (.inr ⟨b, hb, hP⟩)
  obtain ⟨b, hb, hP⟩ := h
  cases rows with
  | nil => exact absurd hb List.not_mem_nil
  | cons a rows =>
    refine hfold rows a ?_
    rcases List.mem_cons.mp hb with rfl | hb
    · exact .inl hP
    · exact .inr ⟨b, hb, hP⟩

/-- The slots a visit leaves. -/
def collapse (s : Slots) (target : ℕ) (rest : List ℕ) (merged : ChatMessage) : Slots :=
  { s with
    slots := (rest.foldl (fun slots i => slots.set i none) s.slots).set target (some merged)
    redirect := fun i => if i ∈ rest then some target else s.redirect i }

/-- A row that hits nothing gets a slot of its own; otherwise the slots it hits collapse into the
    first of them. -/
theorem visit_cases (s : Slots) (msg : ChatMessage) :
    (s.hits msg = [] ∧
      s.visit msg = registerAll { s with slots := s.slots ++ [some msg] } [msg] s.slots.length) ∨
    ∃ target rest, (∀ i, i ∈ target :: rest ↔ i ∈ s.hits msg) ∧ (∀ i ∈ rest, target < i) ∧
      s.visit msg =
        (s.collapse target rest (mergedRow (s.consumed (target :: rest) msg) msg)).registerAll
          (s.consumed (target :: rest) msg ++ [mergedRow (s.consumed (target :: rest) msg) msg])
          target := by
  rcases hordered : (s.hits msg).dedup.insertionSort (· ≤ ·) with _ | ⟨target, rest⟩
  · left
    refine ⟨?_, ?_⟩
    · refine List.eq_nil_iff_forall_not_mem.mpr fun i hi => ?_
      rw [← List.mem_dedup, ← List.mem_insertionSort (· ≤ ·), hordered] at hi
      exact List.not_mem_nil hi
    · unfold visit
      rw [hordered]
      rfl
  · refine .inr ⟨target, rest, fun i => ?_, fun i hi => ?_, ?_⟩
    · rw [← hordered, List.mem_insertionSort, List.mem_dedup]
    · have hsorted := List.pairwise_insertionSort (· ≤ ·) (s.hits msg).dedup
      have hnodup := (List.perm_insertionSort (· ≤ ·) (s.hits msg).dedup).nodup_iff.mpr
        (List.nodup_dedup _)
      rw [hordered] at hsorted hnodup
      have hle := (List.pairwise_cons.mp hsorted).1 i hi
      have hne : target ≠ i := fun heq => (List.nodup_cons.mp hnodup).1 (heq ▸ hi)
      omega
    · unfold visit
      rw [hordered]
      rfl

theorem visit_of_no_hits {s : Slots} {msg : ChatMessage} (h : s.hits msg = []) :
    s.visit msg = registerAll { s with slots := s.slots ++ [some msg] } [msg] s.slots.length := by
  unfold visit
  rw [h]
  rfl

theorem foldl_set_none (slots : List (Option ChatMessage)) (rest : List ℕ) :
    (rest.foldl (fun slots i => slots.set i none) slots).length = slots.length ∧
      ∀ k, (rest.foldl (fun slots i => slots.set i none) slots)[k]?.join =
        if k ∈ rest then none else slots[k]?.join := by
  induction rest generalizing slots with
  | nil => exact ⟨rfl, fun k => by rw [if_neg List.not_mem_nil]; rfl⟩
  | cons i rest ih =>
    obtain ⟨hlength, hget⟩ := ih (slots.set i none)
    refine ⟨by rw [List.foldl_cons, hlength, List.length_set], fun k => ?_⟩
    rw [List.foldl_cons, hget]
    by_cases hk : k ∈ rest
    · rw [if_pos hk, if_pos (List.mem_cons_of_mem _ hk)]
    · rw [if_neg hk]
      by_cases hi : i = k
      · subst hi
        rw [if_pos (List.mem_cons_self ..), List.getElem?_set_self']
        cases slots[i]? <;> rfl
      · rw [List.getElem?_set_ne hi, if_neg]
        intro hmem
        rcases List.mem_cons.mp hmem with heq | hmem
        · exact hi heq.symm
        · exact hk hmem

theorem collapse_length (s : Slots) (target : ℕ) (rest : List ℕ) (merged : ChatMessage) :
    (s.collapse target rest merged).slots.length = s.slots.length := by
  unfold collapse
  rw [List.length_set, (foldl_set_none s.slots rest).1]

theorem collapse_at {s : Slots} {target : ℕ} (rest : List ℕ) (merged : ChatMessage)
    (htarget : target < s.slots.length) (k : ℕ) :
    (s.collapse target rest merged).at? k =
      if k = target then some merged else if k ∈ rest then none else s.at? k := by
  unfold collapse at?
  dsimp only
  by_cases hk : target = k
  · subst hk
    rw [if_pos rfl, List.getElem?_set_self (by rw [(foldl_set_none s.slots rest).1]; exact htarget)]
    rfl
  · rw [List.getElem?_set_ne hk, if_neg (Ne.symm hk)]
    exact (foldl_set_none s.slots rest).2 k

/-! ## What the pass keeps -/

/-- Indices are in range and redirections point to earlier slots. -/
structure Bounded (s : Slots) : Prop where
  lower : Lower s.redirect
  inside : ∀ i j, s.redirect i = some j → i < s.slots.length
  byPrimary : ∀ p i, s.byPrimary p = some i → i < s.slots.length
  byIdentity : ∀ key i, s.byIdentity key = some i → i < s.slots.length

theorem mem_hits {s : Slots} {msg : ChatMessage} {k : ℕ} :
    k ∈ s.hits msg ↔ ∃ i, resolve s.redirect i i = k ∧ (s.byPrimary msg.primary = some i ∨
      ∃ id ∈ identitiesOf msg, s.byIdentity (msg.isSelf, id) = some i) := by
  unfold hits
  simp only [List.mem_map, List.mem_append, Option.mem_toList, List.mem_filterMap]
  constructor
  · rintro ⟨i, hi, rfl⟩
    exact ⟨i, rfl, hi⟩
  · rintro ⟨i, rfl, hi⟩
    exact ⟨i, hi, rfl⟩

theorem Bounded.hits {s : Slots} (h : Bounded s) {msg : ChatMessage} {k : ℕ} (hk : k ∈ s.hits msg) :
    k < s.slots.length ∧ s.redirect k = none := by
  obtain ⟨i, rfl, hi⟩ := mem_hits.mp hk
  have hlt : i < s.slots.length := by
    rcases hi with hp | ⟨id, -, hid⟩
    · exact h.byPrimary _ i hp
    · exact h.byIdentity _ i hid
  exact ⟨Nat.lt_of_le_of_lt (resolve_le h.lower i i) hlt, redirect_resolve h.lower i⟩

theorem Bounded.registerAll {s : Slots} (h : Bounded s) (rows : List ChatMessage) {target : ℕ}
    (htarget : target < s.slots.length) : Bounded (s.registerAll rows target) := by
  refine ⟨by rw [registerAll_redirect]; exact h.lower,
    by rw [registerAll_redirect, registerAll_slots]; exact h.inside, fun p i hi => ?_, fun key i hi => ?_⟩
  · rw [registerAll_slots]
    rw [registerAll_byPrimary] at hi
    split_ifs at hi
    · rw [← Option.some.inj hi]
      exact htarget
    · exact h.byPrimary p i hi
  · rw [registerAll_slots]
    rw [registerAll_byIdentity] at hi
    split_ifs at hi
    · rw [← Option.some.inj hi]
      exact htarget
    · exact h.byIdentity key i hi

theorem Bounded.collapse {s : Slots} (h : Bounded s) {target : ℕ} {rest : List ℕ}
    (hrest : ∀ i ∈ rest, target < i ∧ i < s.slots.length) (merged : ChatMessage) :
    Bounded (s.collapse target rest merged) := by
  refine ⟨fun i j hj => ?_, fun i j hj => ?_, fun p i hi => ?_, fun key i hi => ?_⟩
  · change (if i ∈ rest then some target else s.redirect i) = some j at hj
    split_ifs at hj with hmem
    · rw [← Option.some.inj hj]
      exact (hrest i hmem).1
    · exact h.lower i j hj
  · rw [collapse_length]
    change (if i ∈ rest then some target else s.redirect i) = some j at hj
    split_ifs at hj with hmem
    · exact (hrest i hmem).2
    · exact h.inside i j hj
  · rw [collapse_length]
    exact h.byPrimary p i hi
  · rw [collapse_length]
    exact h.byIdentity key i hi

theorem Bounded.visit {s : Slots} (h : Bounded s) (msg : ChatMessage) : Bounded (s.visit msg) := by
  rcases visit_cases s msg with ⟨-, heq⟩ | ⟨target, rest, hmem, hrest, heq⟩
  · rw [heq]
    have hpush : Bounded { s with slots := s.slots ++ [some msg] } := by
      refine ⟨h.lower, fun i j hj => ?_, fun p i hi => ?_, fun key i hi => ?_⟩
      · have := h.inside i j hj
        simp only [List.length_append, List.length_singleton]
        omega
      · have := h.byPrimary p i hi
        simp only [List.length_append, List.length_singleton]
        omega
      · have := h.byIdentity key i hi
        simp only [List.length_append, List.length_singleton]
        omega
    exact hpush.registerAll _ (by simp)
  · rw [heq]
    have htarget := (h.hits ((hmem target).mp (List.mem_cons_self ..))).1
    have hinside : ∀ i ∈ rest, target < i ∧ i < s.slots.length := fun i hi =>
      ⟨hrest i hi, (h.hits ((hmem i).mp (List.mem_cons_of_mem _ hi))).1⟩
    exact (h.collapse hinside _).registerAll _ (by rw [collapse_length]; exact htarget)

/-- The slots answer to the identities of their rows, and rows of one primary identity have the
    direction `dir` gives it. -/
structure Apart (dir : String → Bool) (s : Slots) : Prop where
  bounded : Bounded s
  byIdentity : ∀ key i, s.byIdentity key = some i →
    ∃ r, s.at? (resolve s.redirect i i) = some r ∧ r.isSelf = key.1
  byPrimary : ∀ p i, s.byPrimary p = some i →
    ∃ r, s.at? (resolve s.redirect i i) = some r ∧ r.isSelf = dir p
  listed : ∀ k r, s.at? k = some r → ∀ id ∈ identitiesOf r,
    ∃ i, s.byIdentity (r.isSelf, id) = some i ∧ resolve s.redirect i i = k
  directed : ∀ k r, s.at? k = some r → r.isSelf = dir r.primary

section
variable {dir : String → Bool} {s : Slots} {msg : ChatMessage}

/-- The slots a row hits are taken, by rows of its direction. -/
theorem Apart.hits (h : Apart dir s) (hmsg : msg.isSelf = dir msg.primary) {k : ℕ}
    (hk : k ∈ s.hits msg) : ∃ r, s.at? k = some r ∧ r.isSelf = msg.isSelf := by
  obtain ⟨i, rfl, hp | ⟨id, -, hid⟩⟩ := mem_hits.mp hk
  · obtain ⟨r, hr, hself⟩ := h.byPrimary _ i hp
    exact ⟨r, hr, hself.trans hmsg.symm⟩
  · exact h.byIdentity _ i hid

/-- A slot that shares an identity with a row of its direction is hit. -/
theorem Apart.hit_of_shared (h : Apart dir s) {k : ℕ} {r : ChatMessage} (hr : s.at? k = some r)
    (hself : r.isSelf = msg.isSelf) {id : String} (hid : id ∈ identitiesOf r)
    (hmsg : id ∈ identitiesOf msg) : k ∈ s.hits msg := by
  obtain ⟨i, hi, rfl⟩ := h.listed k r hr id hid
  rw [hself] at hi
  exact mem_hits.mpr ⟨i, rfl, .inr ⟨id, hmsg, hi⟩⟩

theorem Apart.push (h : Apart dir s) (hmsg : msg.isSelf = dir msg.primary) (hhits : s.hits msg = []) :
    Apart dir (registerAll { s with slots := s.slots ++ [some msg] } [msg] s.slots.length) := by
  have hnew : at? { s with slots := s.slots ++ [some msg] } s.slots.length = some msg := by
    unfold at?
    rw [List.getElem?_concat_length]
    rfl
  have hold : ∀ k, k < s.slots.length → at? { s with slots := s.slots ++ [some msg] } k = s.at? k := by
    intro k hk
    unfold at?
    rw [List.getElem?_append_left hk]
  have hcases : ∀ k r, at? { s with slots := s.slots ++ [some msg] } k = some r →
      k < s.slots.length ∧ s.at? k = some r ∨ k = s.slots.length ∧ r = msg := by
    intro k r hk
    rcases Nat.lt_trichotomy k s.slots.length with hlt | rfl | hgt
    · exact .inl ⟨hlt, by rw [← hold k hlt, hk]⟩
    · rw [hnew] at hk
      exact .inr ⟨rfl, (Option.some.inj hk).symm⟩
    · unfold at? at hk
      rw [List.getElem?_eq_none (by simp; omega)] at hk
      contradiction
  have hfree : s.redirect s.slots.length = none := by
    rcases hj : s.redirect s.slots.length with _ | j
    · rfl
    · exact absurd (h.bounded.inside _ j hj) (Nat.lt_irrefl _)
  have hresolve := resolve_of_none hfree s.slots.length
  have hbounded := h.bounded.visit msg
  rw [visit_of_no_hits hhits] at hbounded
  refine ⟨hbounded, fun key i hi => ?_, fun p i hi => ?_, fun k r hk id hid => ?_, fun k r hk => ?_⟩
  · rw [registerAll_byIdentity] at hi
    rw [registerAll_redirect]
    simp only [at?, registerAll_slots]
    split_ifs at hi with hreg
    · obtain ⟨m, hm, hself, -⟩ := hreg
      rw [List.mem_singleton.mp hm] at hself
      rw [← Option.some.inj hi, hresolve]
      exact ⟨msg, hnew, hself.symm⟩
    · obtain ⟨r, hr, hself⟩ := h.byIdentity key i hi
      have hlt := Nat.lt_of_le_of_lt (resolve_le h.bounded.lower i i) (h.bounded.byIdentity key i hi)
      exact ⟨r, (hold _ hlt).trans hr, hself⟩
  · rw [registerAll_byPrimary] at hi
    rw [registerAll_redirect]
    simp only [at?, registerAll_slots]
    split_ifs at hi with hreg
    · obtain ⟨m, hm, hp⟩ := hreg
      rw [List.mem_singleton.mp hm] at hp
      rw [← Option.some.inj hi, hresolve, hp]
      exact ⟨msg, hnew, hmsg⟩
    · obtain ⟨r, hr, hself⟩ := h.byPrimary p i hi
      have hlt := Nat.lt_of_le_of_lt (resolve_le h.bounded.lower i i) (h.bounded.byPrimary p i hi)
      exact ⟨r, (hold _ hlt).trans hr, hself⟩
  · simp only [at?, registerAll_slots] at hk
    rw [registerAll_byIdentity, registerAll_redirect]
    rcases hcases k r hk with ⟨hlt, hr⟩ | ⟨rfl, rfl⟩
    · obtain ⟨i, hi, hres⟩ := h.listed k r hr id hid
      rw [if_neg]
      · exact ⟨i, hi, hres⟩
      · rintro ⟨m, hm, hself, hmem⟩
        rw [List.mem_singleton.mp hm] at hself hmem
        have := h.hit_of_shared hr hself hid hmem
        rw [hhits] at this
        exact List.not_mem_nil this
    · exact ⟨_, if_pos ⟨r, List.mem_singleton_self r, rfl, hid⟩, hresolve⟩
  · simp only [at?, registerAll_slots] at hk
    rcases hcases k r hk with ⟨-, hr⟩ | ⟨-, rfl⟩
    · exact h.directed k r hr
    · exact hmsg

theorem mem_consumed {ordered : List ℕ} {c : ChatMessage} :
    c ∈ s.consumed ordered msg ↔ (∃ j ∈ ordered, s.at? j = some c) ∨ c = msg := by
  unfold consumed
  rw [List.mem_append, List.mem_filterMap, List.mem_singleton]

/-- What a visit takes in has the direction of the row and only its own or the row's identities. -/
theorem Apart.merged (h : Apart dir s) (hmsg : msg.isSelf = dir msg.primary) {ordered : List ℕ}
    (hordered : ∀ i ∈ ordered, i ∈ s.hits msg) :
    (∀ c ∈ s.consumed ordered msg, c.isSelf = msg.isSelf ∧ c.isSelf = dir c.primary) ∧
    (mergedRow (s.consumed ordered msg) msg).isSelf = msg.isSelf ∧
    (mergedRow (s.consumed ordered msg) msg).isSelf =
      dir (mergedRow (s.consumed ordered msg) msg).primary ∧
    ∀ id ∈ identitiesOf (mergedRow (s.consumed ordered msg) msg),
      ∃ c ∈ s.consumed ordered msg, id ∈ identitiesOf c := by
  have hconsumed : ∀ c ∈ s.consumed ordered msg, c.isSelf = msg.isSelf ∧ c.isSelf = dir c.primary := by
    intro c hc
    rcases mem_consumed.mp hc with ⟨j, hj, hat⟩ | rfl
    · obtain ⟨r, hr, hself⟩ := h.hits hmsg (hordered j hj)
      rw [hat] at hr
      rw [← Option.some.inj hr] at hself
      exact ⟨hself, h.directed j c hat⟩
    · exact ⟨rfl, hmsg⟩
  have hmem : msg ∈ s.consumed ordered msg := mem_consumed.mpr (.inr rfl)
  have hall := mergedRow_all
    (P := fun m => (m.isSelf = msg.isSelf ∧ m.isSelf = dir m.primary) ∧
      ∀ id ∈ identitiesOf m, ∃ c ∈ s.consumed ordered msg, id ∈ identitiesOf c)
    (fun a b ha hb => ?_) (s.consumed ordered msg) msg
    ⟨⟨rfl, hmsg⟩, fun id hid => ⟨msg, hmem, hid⟩⟩
    fun c hc => ⟨hconsumed c hc, fun id hid => ⟨c, hc, hid⟩⟩
  · exact ⟨hconsumed, hall.1.1, hall.1.2, hall.2⟩
  · refine ⟨?_, fun id hid => ?_⟩
    · rw [preferLoadedCopy_isSelf, preferLoadedCopy_primary]
      rcases winner_mem a b with hw | hw
      · rw [hw]
        exact ha.1
      · rw [hw]
        exact hb.1
    · rcases identities_preferLoadedCopy hid with hid | hid
      · exact ha.2 id hid
      · exact hb.2 id hid

/-- A slot outside those a row hits shares no identity with what the visit takes in. -/
theorem Apart.outside (h : Apart dir s) (hmsg : msg.isSelf = dir msg.primary) {ordered : List ℕ}
    (hordered : ∀ i, i ∈ ordered ↔ i ∈ s.hits msg) {k : ℕ} {r c : ChatMessage} {id : String}
    (hr : s.at? k = some r) (hk : k ∉ ordered) (hid : id ∈ identitiesOf r)
    (hself : r.isSelf = msg.isSelf) (hc : c ∈ s.consumed ordered msg) : id ∉ identitiesOf c := by
  intro hshared
  rcases mem_consumed.mp hc with ⟨j, hj, hat⟩ | rfl
  · have hcself := ((h.merged hmsg fun i hi => (hordered i).mp hi).1 c hc).1
    obtain ⟨i, hi, hres⟩ := h.listed k r hr id hid
    obtain ⟨i', hi', hres'⟩ := h.listed j c hat id hshared
    rw [hself] at hi
    rw [hcself, hi] at hi'
    rw [← Option.some.inj hi', hres] at hres'
    exact hk (hres' ▸ hj)
  · exact hk ((hordered k).mpr (h.hit_of_shared hr hself hid hshared))

theorem Apart.visit (h : Apart dir s) (hmsg : msg.isSelf = dir msg.primary) :
    Apart dir (s.visit msg) := by
  have hbounded := h.bounded.visit msg
  rcases visit_cases s msg with ⟨hhits, heq⟩ | ⟨target, rest, hmem, hrest, heq⟩
  · rw [heq]
    exact h.push hmsg hhits
  · rw [heq] at hbounded ⊢
    obtain ⟨hconsumed, hself, hdirected, hids⟩ := h.merged hmsg fun i hi => (hmem i).mp hi
    have hhit : ∀ i ∈ target :: rest, i < s.slots.length ∧ s.redirect i = none :=
      fun i hi => h.bounded.hits ((hmem i).mp hi)
    have htarget := hhit target (List.mem_cons_self ..)
    have hout : target ∉ rest := fun hin => Nat.lt_irrefl _ (hrest target hin)
    generalize hmerged : mergedRow (s.consumed (target :: rest) msg) msg = merged at *
    have hat := collapse_at rest merged htarget.1
    have hresolve : ∀ i, resolve (s.collapse target rest merged).redirect i i =
        if resolve s.redirect i i ∈ rest then target else resolve s.redirect i i :=
      resolve_redirected h.bounded.lower
        (fun i hi => ⟨(hhit i (List.mem_cons_of_mem _ hi)).2, hrest i hi⟩) htarget.2
    have htop : resolve (s.collapse target rest merged).redirect target target = target := by
      rw [hresolve, resolve_of_none htarget.2, if_neg hout]
    -- the direction of a slot does not change, wherever it is redirected to
    have hkeep : ∀ i r, s.at? (resolve s.redirect i i) = some r →
        ∃ r', (s.collapse target rest merged).at?
          (resolve (s.collapse target rest merged).redirect i i) = some r' ∧ r'.isSelf = r.isSelf := by
      intro i r hr
      rw [hresolve, hat]
      by_cases hin : resolve s.redirect i i ∈ target :: rest
      · obtain ⟨r', hr', hself'⟩ := h.hits hmsg ((hmem _).mp hin)
        rw [hr] at hr'
        rw [← Option.some.inj hr'] at hself'
        refine ⟨merged, ?_, hself.trans hself'.symm⟩
        rcases List.mem_cons.mp hin with heq' | hin
        · rw [heq', if_neg hout, if_pos rfl]
        · rw [if_pos hin, if_pos rfl]
      · have hne : resolve s.redirect i i ≠ target := fun heq' => hin (heq' ▸ List.mem_cons_self ..)
        have hnotin : resolve s.redirect i i ∉ rest := fun hin' => hin (List.mem_cons_of_mem _ hin')
        rw [if_neg hnotin, if_neg hne, if_neg hnotin]
        exact ⟨r, hr, rfl⟩
    have hrows : ∀ m ∈ s.consumed (target :: rest) msg ++ [merged],
        m.isSelf = msg.isSelf ∧ m.isSelf = dir m.primary := by
      intro m hm
      rcases List.mem_append.mp hm with hm | hm
      · exact hconsumed m hm
      · rw [List.mem_singleton.mp hm]
        exact ⟨hself, hdirected⟩
    refine ⟨hbounded, fun key i hi => ?_, fun p i hi => ?_, fun k r hk id hid => ?_, fun k r hk => ?_⟩
    · rw [registerAll_byIdentity] at hi
      rw [registerAll_redirect]
      simp only [at?, registerAll_slots]
      split_ifs at hi with hreg
      · obtain ⟨m, hm, hkey, -⟩ := hreg
        rw [← Option.some.inj hi, htop]
        exact ⟨merged, (hat target).trans (if_pos rfl), hself.trans ((hrows m hm).1.symm.trans hkey.symm)⟩
      · obtain ⟨r, hr, hkey⟩ := h.byIdentity key i hi
        obtain ⟨r', hr', hself'⟩ := hkeep i r hr
        exact ⟨r', hr', hself'.trans hkey⟩
    · rw [registerAll_byPrimary] at hi
      rw [registerAll_redirect]
      simp only [at?, registerAll_slots]
      split_ifs at hi with hreg
      · obtain ⟨m, hm, hp⟩ := hreg
        rw [← Option.some.inj hi, htop, hp, ← (hrows m hm).2, (hrows m hm).1]
        exact ⟨merged, (hat target).trans (if_pos rfl), hself⟩
      · obtain ⟨r, hr, hkey⟩ := h.byPrimary p i hi
        obtain ⟨r', hr', hself'⟩ := hkeep i r hr
        exact ⟨r', hr', hself'.trans hkey⟩
    · simp only [at?, registerAll_slots] at hk
      rw [registerAll_byIdentity, registerAll_redirect]
      replace hk := (hat k).symm.trans hk
      split_ifs at hk with htop' hin
      · rw [← Option.some.inj hk] at hid ⊢
        rw [if_pos ⟨merged, List.mem_append.mpr (.inr (List.mem_singleton_self _)), rfl, hid⟩]
        exact ⟨target, rfl, htop.trans htop'.symm⟩
      · have hnot : k ∉ target :: rest := by
          intro hin'
          rcases List.mem_cons.mp hin' with heq' | hin'
          · exact htop' heq'
          · exact hin hin'
        obtain ⟨i, hi, hres⟩ := h.listed k r hk id hid
        rw [if_neg]
        · refine ⟨i, hi, ?_⟩
          rw [hresolve, hres, if_neg hin]
        · rintro ⟨m, hm, hkey, hshared⟩
          have hrself : r.isSelf = msg.isSelf := hkey.trans (hrows m hm).1
          rcases List.mem_append.mp hm with hm | hm
          · exact h.outside hmsg hmem hk hnot hid hrself hm hshared
          · rw [List.mem_singleton.mp hm] at hshared
            obtain ⟨c, hc, hidc⟩ := hids id hshared
            exact h.outside hmsg hmem hk hnot hid hrself hc hidc
    · simp only [at?, registerAll_slots] at hk
      replace hk := (hat k).symm.trans hk
      split_ifs at hk with htop' hin
      · rw [← Option.some.inj hk]
        exact hdirected
      · exact h.directed k r hk

end

theorem Bounded.empty : Bounded {} := by
  refine ⟨fun i j hj => ?_, ?_, ?_, ?_⟩ <;> intros <;> contradiction

theorem Apart.empty (dir : String → Bool) : Apart dir {} := by
  refine ⟨Bounded.empty, ?_, ?_, ?_, ?_⟩ <;> intros <;> contradiction

theorem Apart.pass {dir : String → Bool} (rows : List ChatMessage)
    (hrows : ∀ m ∈ rows, m.isSelf = dir m.primary) :
    ∀ s, Apart dir s → Apart dir (rows.foldl Slots.visit s) := by
  induction rows with
  | nil => exact fun s h => h
  | cons m rows ih =>
    intro s h
    exact ih (fun m' hm' => hrows m' (List.mem_cons_of_mem _ hm')) _
      (h.visit (hrows m (List.mem_cons_self ..)))

theorem mem_slots {s : Slots} {m : ChatMessage} :
    m ∈ s.slots.reduceOption ↔ ∃ k, s.at? k = some m := by
  unfold at?
  rw [List.reduceOption_mem_iff, List.mem_iff_getElem?]
  constructor
  · rintro ⟨k, hk⟩
    exact ⟨k, by rw [hk]; rfl⟩
  · rintro ⟨k, hk⟩
    exact ⟨k, Option.join_eq_some_iff.mp hk⟩

/-- Rows that hit nothing keep their slots: the pass changes nothing. -/
theorem visit_apart {s : Slots} {seen : List ChatMessage} {msg : ChatMessage}
    (hslots : s.slots = seen.map some)
    (hprimary : ∀ p i, s.byPrimary p = some i → ∃ m ∈ seen, p = m.primary)
    (hidentity : ∀ key i, s.byIdentity key = some i →
      ∃ m ∈ seen, key.1 = m.isSelf ∧ key.2 ∈ identitiesOf m)
    (hapart : ∀ m ∈ seen, m.primary ≠ msg.primary ∧
      (m.isSelf = msg.isSelf → ∀ id ∈ identitiesOf m, id ∉ identitiesOf msg)) :
    (s.visit msg).slots = (seen ++ [msg]).map some ∧
    (∀ p i, (s.visit msg).byPrimary p = some i → ∃ m ∈ seen ++ [msg], p = m.primary) ∧
    ∀ key i, (s.visit msg).byIdentity key = some i →
      ∃ m ∈ seen ++ [msg], key.1 = m.isSelf ∧ key.2 ∈ identitiesOf m := by
  have hhits : s.hits msg = [] := by
    refine List.eq_nil_iff_forall_not_mem.mpr fun k hk => ?_
    obtain ⟨i, -, hp | ⟨id, hid, hi⟩⟩ := mem_hits.mp hk
    · obtain ⟨m, hm, heq⟩ := hprimary _ i hp
      exact (hapart m hm).1 heq.symm
    · obtain ⟨m, hm, hself, hshared⟩ := hidentity _ i hi
      exact (hapart m hm).2 hself.symm id hshared hid
  rw [visit_of_no_hits hhits]
  refine ⟨?_, fun p i hi => ?_, fun key i hi => ?_⟩
  · rw [registerAll_slots, List.map_append, ← hslots]
    rfl
  · rw [registerAll_byPrimary] at hi
    split_ifs at hi with hreg
    · obtain ⟨m, hm, hp⟩ := hreg
      exact ⟨m, List.mem_append.mpr (.inr hm), hp⟩
    · obtain ⟨m, hm, hp⟩ := hprimary p i hi
      exact ⟨m, List.mem_append.mpr (.inl hm), hp⟩
  · rw [registerAll_byIdentity] at hi
    split_ifs at hi with hreg
    · obtain ⟨m, hm, hkey⟩ := hreg
      exact ⟨m, List.mem_append.mpr (.inr hm), hkey⟩
    · obtain ⟨m, hm, hkey⟩ := hidentity key i hi
      exact ⟨m, List.mem_append.mpr (.inl hm), hkey⟩

end Slots

/-! ## The rows left -/

/-- Two rows a load would not collapse. -/
def Separate (a b : ChatMessage) : Prop :=
  a.primary ≠ b.primary ∧ (a.isSelf = b.isSelf → ∀ id ∈ identitiesOf a, id ∉ identitiesOf b)

theorem dedupe_of_separate (rows : List ChatMessage) (h : rows.Pairwise Separate) :
    dedupeByIdentity rows = rows := by
  have hpass : ∀ (rows seen : List ChatMessage) (s : Slots), (seen ++ rows).Pairwise Separate →
      s.slots = seen.map some →
      (∀ p i, s.byPrimary p = some i → ∃ m ∈ seen, p = m.primary) →
      (∀ key i, s.byIdentity key = some i → ∃ m ∈ seen, key.1 = m.isSelf ∧ key.2 ∈ identitiesOf m) →
      (rows.foldl Slots.visit s).slots = (seen ++ rows).map some := by
    intro rows
    induction rows with
    | nil =>
      intro seen s _ hslots _ _
      rw [List.append_nil]
      exact hslots
    | cons msg rows ih =>
      intro seen s hsep hslots hprimary hidentity
      have hapart : ∀ m ∈ seen, Separate m msg := fun m hm =>
        (List.pairwise_append.mp hsep).2.2 m hm msg (List.mem_cons_self ..)
      obtain ⟨hslots', hprimary', hidentity'⟩ :=
        Slots.visit_apart hslots hprimary hidentity hapart
      rw [List.append_cons] at hsep ⊢
      exact ih (seen ++ [msg]) (s.visit msg) hsep hslots' hprimary' hidentity'
  have hslots := hpass rows [] {} h rfl (by intros; contradiction) (by intros; contradiction)
  unfold dedupeByIdentity
  rw [hslots, List.nil_append, List.reduceOption, List.filterMap_map]
  exact List.filterMap_some

/-- No two rows of one direction share an identity once the pass is done, if every primary identity
    stands in one direction. -/
theorem dedupe_apart (dir : String → Bool) {rows : List ChatMessage}
    (hrows : ∀ m ∈ rows, m.isSelf = dir m.primary) :
    (dedupeByIdentity rows).Pairwise fun a b =>
      a.isSelf = b.isSelf → ∀ id ∈ identitiesOf a, id ∉ identitiesOf b := by
  have hapart := Slots.Apart.pass rows hrows {} (Slots.Apart.empty dir)
  unfold dedupeByIdentity List.reduceOption
  rw [List.pairwise_filterMap, List.pairwise_iff_getElem]
  intro i j hi hj hlt a ha b hb hself id hida hidb
  have hat : (rows.foldl Slots.visit {}).at? i = some a := by
    unfold Slots.at?
    rw [List.getElem?_eq_getElem hi]
    exact ha
  have hbt : (rows.foldl Slots.visit {}).at? j = some b := by
    unfold Slots.at?
    rw [List.getElem?_eq_getElem hj]
    exact hb
  obtain ⟨k, hk, hres⟩ := hapart.listed i a hat id hida
  obtain ⟨k', hk', hres'⟩ := hapart.listed j b hbt id hidb
  rw [← hself, hk] at hk'
  rw [← Option.some.inj hk', hres] at hres'
  omega

end Tim2Tox.ChatHistory
