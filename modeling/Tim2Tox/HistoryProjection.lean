import Tim2Tox.HistoryDedupe

set_option autoImplicit false

/-!
# The pass over a file as a projection

Every row read finds its home in a slot, and a slot keeps the place of its first row: the pass leaves
the classes of rows in the order of their first rows, and leaves its own output alone.
-/
namespace Tim2Tox.ChatHistory
open ChatMessage

/-! ## Places in a list with gaps -/

section
variable {α : Type}

/-- The place of a slot among the filled ones. -/
def rank (slots : List (Option α)) (t : ℕ) : ℕ := (slots.take t).reduceOption.length

theorem reduceOption_rank {slots : List (Option α)} {t : ℕ} {r : α} (h : slots[t]? = some (some r)) :
    slots.reduceOption[rank slots t]? = some r := by
  have hlt : t < slots.length := (List.getElem?_eq_some_iff.mp h).1
  have hget : slots[t] = some r := (List.getElem?_eq_some_iff.mp h).2
  have hsplit : slots.reduceOption =
      (slots.take t).reduceOption ++ r :: (slots.drop (t + 1)).reduceOption := by
    calc slots.reduceOption = (slots.take t ++ slots.drop t).reduceOption := by
          rw [List.take_append_drop]
      _ = (slots.take t).reduceOption ++ r :: (slots.drop (t + 1)).reduceOption := by
          rw [List.reduceOption_append, List.drop_eq_getElem_cons hlt, hget,
            List.reduceOption_cons_of_some]
  rw [hsplit, rank, List.getElem?_append_right (Nat.le_refl _), Nat.sub_self]
  rfl

theorem rank_mono (slots : List (Option α)) {t t' : ℕ} (h : t ≤ t') :
    rank slots t ≤ rank slots t' := by
  have hsplit : slots.take t' = slots.take t ++ (slots.take t').drop t := by
    have htake : slots.take t = (slots.take t').take t := by
      rw [List.take_take, Nat.min_eq_left h]
    rw [htake, List.take_append_drop]
  rw [rank, rank, hsplit, List.reduceOption_append, List.length_append]
  exact Nat.le_add_right _ _

theorem exists_rank : ∀ {slots : List (Option α)} {j : ℕ}, j < slots.reduceOption.length →
    ∃ t r, slots[t]? = some (some r) ∧ rank slots t = j := by
  intro slots
  induction slots with
  | nil => exact fun h => absurd h (Nat.not_lt_zero _)
  | cons a slots ih =>
    intro j hj
    cases a with
    | none =>
      rw [List.reduceOption_cons_of_none] at hj
      obtain ⟨t, r, ht, hrank⟩ := ih hj
      refine ⟨t + 1, r, ht, ?_⟩
      rw [rank, List.take_succ_cons, List.reduceOption_cons_of_none]
      exact hrank
    | some a =>
      cases j with
      | zero => exact ⟨0, a, rfl, rfl⟩
      | succ j =>
        rw [List.reduceOption_cons_of_some, List.length_cons] at hj
        obtain ⟨t, r, ht, hrank⟩ := ih (j := j) (by omega)
        refine ⟨t + 1, r, ht, ?_⟩
        rw [rank, List.take_succ_cons, List.reduceOption_cons_of_some, List.length_cons]
        exact congrArg Nat.succ hrank

end

/-! ## Homes -/

namespace Slots

/-- Every row seen has a home, the slot of a row that carries its ids in its direction; a slot
    remembers its first row, and slots stand in the order of their first rows. -/
structure Homes (seen : List ChatMessage) (s : Slots) (home first : ℕ → ℕ) : Prop where
  live : ∀ k a, seen[k]? = some a → ∃ r, s.at? (home k) = some r ∧ r.isSelf = a.isSelf ∧
    ∀ id ∈ a.ids, id ∈ r.ids
  first_lt : ∀ t, t < s.slots.length → first t < seen.length
  increasing : ∀ t t', t < t' → t' < s.slots.length → first t < first t'
  home_first : ∀ t r, s.at? t = some r → home (first t) = t
  first_le : ∀ k, k < seen.length → first (home k) ≤ k

theorem at_lt {s : Slots} {t : ℕ} {r : ChatMessage} (h : s.at? t = some r) : t < s.slots.length := by
  by_contra hge
  rw [at?, List.getElem?_eq_none (by omega)] at h
  contradiction

variable {dir : String → Bool} {s : Slots} {seen : List ChatMessage} {msg : ChatMessage}
  {home first : ℕ → ℕ}

theorem Homes.push (h : Homes seen s home first) {s' : Slots}
    (hslots : s'.slots = s.slots ++ [some msg]) :
    Homes (seen ++ [msg]) s' (Function.update home seen.length s.slots.length)
      (Function.update first s.slots.length seen.length) := by
  have hnew : s'.at? s.slots.length = some msg := by
    rw [at?, hslots, List.getElem?_concat_length]
    rfl
  have hold : ∀ t, t < s.slots.length → s'.at? t = s.at? t := fun t ht => by
    rw [at?, at?, hslots, List.getElem?_append_left ht]
  have hlength : s'.slots.length = s.slots.length + 1 := by
    rw [hslots, List.length_append]
    rfl
  have hfirst : ∀ t, t < s.slots.length →
      Function.update first s.slots.length seen.length t = first t :=
    fun t ht => Function.update_of_ne (by omega) ..
  have hhome : ∀ k, k < seen.length →
      Function.update home seen.length s.slots.length k = home k :=
    fun k hk => Function.update_of_ne (by omega) ..
  have hhomeLt : ∀ k, k < seen.length → home k < s.slots.length := fun k hk => by
    obtain ⟨r, hr, -⟩ := h.live k _ (List.getElem?_eq_getElem hk)
    exact at_lt hr
  refine ⟨fun k a hk => ?_, fun t ht => ?_, fun t t' hlt ht' => ?_, fun t r hr => ?_, fun k hk => ?_⟩
  · by_cases hin : k < seen.length
    · rw [List.getElem?_append_left hin] at hk
      obtain ⟨r, hr, hself, hids⟩ := h.live k a hk
      rw [hhome k hin, hold _ (at_lt hr)]
      exact ⟨r, hr, hself, hids⟩
    · have hbound := (List.getElem?_eq_some_iff.mp hk).choose
      rw [List.length_append, List.length_singleton] at hbound
      obtain rfl : k = seen.length := by omega
      rw [List.getElem?_concat_length] at hk
      obtain rfl := Option.some.inj hk
      rw [Function.update_self]
      exact ⟨_, hnew, rfl, fun id hid => hid⟩
  · rw [List.length_append, List.length_singleton]
    by_cases hin : t < s.slots.length
    · rw [hfirst t hin]
      have hlt := h.first_lt t hin
      omega
    · obtain rfl : t = s.slots.length := by omega
      rw [Function.update_self]
      omega
  · by_cases hin : t' < s.slots.length
    · rw [hfirst t (by omega), hfirst t' hin]
      exact h.increasing t t' hlt hin
    · obtain rfl : t' = s.slots.length := by omega
      rw [hfirst t hlt, Function.update_self]
      exact h.first_lt t hlt
  · have hlt := at_lt hr
    by_cases hin : t < s.slots.length
    · rw [hold t hin] at hr
      rw [hfirst t hin, hhome _ (h.first_lt t hin)]
      exact h.home_first t r hr
    · obtain rfl : t = s.slots.length := by omega
      rw [Function.update_self, Function.update_self]
  · rw [List.length_append, List.length_singleton] at hk
    by_cases hin : k < seen.length
    · rw [hhome k hin, hfirst _ (hhomeLt k hin)]
      exact h.first_le k hin
    · obtain rfl : k = seen.length := by omega
      rw [Function.update_self, Function.update_self]

/-- The homes after some slots collapsed into the first of them, where the row is at home. -/
def rehomed (home : ℕ → ℕ) (n target : ℕ) (rest : List ℕ) (k : ℕ) : ℕ :=
  if k = n ∨ home k ∈ rest then target else home k

theorem Homes.collapsed (h : Homes seen s home first) (hapart : Apart dir s)
    (hmsg : msg.isSelf = dir msg.primary) {target : ℕ} {rest : List ℕ} {s' : Slots}
    (hmem : ∀ i, i ∈ target :: rest ↔ i ∈ s.hits msg) (hrest : ∀ i ∈ rest, target < i)
    (hslots : s'.slots = (s.collapse target rest
      (mergedRow (s.consumed (target :: rest) msg) msg)).slots) :
    Homes (seen ++ [msg]) s' (rehomed home seen.length target rest) first := by
  obtain ⟨hconsumed, hself, -, -⟩ := hapart.merged hmsg fun i hi => (hmem i).mp hi
  obtain ⟨top, htop, -⟩ := hapart.hits hmsg ((hmem target).mp (List.mem_cons_self ..))
  have hout : target ∉ rest := fun hin => Nat.lt_irrefl _ (hrest target hin)
  have hkeeps : ∀ id, (∃ c ∈ s.consumed (target :: rest) msg, id ∈ c.ids) →
      id ∈ (mergedRow (s.consumed (target :: rest) msg) msg).ids := fun id hid =>
    mergedRow_any (P := fun m => id ∈ m.ids) (fun a b hab => mem_ids_preferLoadedCopy.mpr hab) hid
  generalize mergedRow (s.consumed (target :: rest) msg) msg = merged at *
  have hat : ∀ k, s'.at? k =
      if k = target then some merged else if k ∈ rest then none else s.at? k := fun k => by
    rw [← collapse_at rest merged (at_lt htop) k, at?, at?, hslots]
  have hlength : s'.slots.length = s.slots.length := by rw [hslots, collapse_length]
  have hseen : (seen ++ [msg]).length = seen.length + 1 := by
    rw [List.length_append, List.length_singleton]
  have hlive : ∀ c ∈ s.consumed (target :: rest) msg, ∀ id ∈ c.ids, id ∈ merged.ids :=
    fun c hc id hid => hkeeps id ⟨c, hc, hid⟩
  refine ⟨fun k a hk => ?_, fun t ht => ?_, fun t t' hlt ht' => ?_, fun t r hr => ?_, fun k hk => ?_⟩
  · by_cases hin : k < seen.length
    · rw [List.getElem?_append_left hin] at hk
      obtain ⟨r, hr, hrself, hids⟩ := h.live k a hk
      by_cases hhit : home k ∈ target :: rest
      · have hr' : r ∈ s.consumed (target :: rest) msg := mem_consumed.mpr (Or.inl ⟨_, hhit, hr⟩)
        have hhome : rehomed home seen.length target rest k = target := by
          rw [rehomed]
          rcases List.mem_cons.mp hhit with heq | hmem'
          · rw [heq]
            exact ite_self _
          · exact if_pos (Or.inr hmem')
        rw [hhome, hat, if_pos rfl]
        refine ⟨merged, rfl, ?_, fun id hid => hlive r hr' id (hids id hid)⟩
        rw [hself, ← (hconsumed r hr').1, hrself]
      · have hnot : home k ≠ target ∧ home k ∉ rest := by
          rw [List.mem_cons, not_or] at hhit
          exact hhit
        have hhome : rehomed home seen.length target rest k = home k := by
          rw [rehomed, if_neg]
          rintro (heq | hmem')
          · omega
          · exact hnot.2 hmem'
        rw [hhome, hat, if_neg hnot.1, if_neg hnot.2]
        exact ⟨r, hr, hrself, hids⟩
    · have hbound := (List.getElem?_eq_some_iff.mp hk).choose
      rw [hseen] at hbound
      obtain rfl : k = seen.length := by omega
      rw [List.getElem?_concat_length] at hk
      obtain rfl := Option.some.inj hk
      rw [rehomed, if_pos (Or.inl rfl), hat, if_pos rfl]
      exact ⟨merged, rfl, hself, fun id hid => hlive _ (mem_consumed.mpr (Or.inr rfl)) id hid⟩
  · rw [hlength] at ht
    have hlt := h.first_lt t ht
    omega
  · rw [hlength] at ht'
    exact h.increasing t t' hlt ht'
  · have hstay : ∀ r, s.at? t = some r → t ∉ rest →
        rehomed home seen.length target rest (first t) = t := by
      intro r hr hnot
      have hlt := h.first_lt t (at_lt hr)
      rw [rehomed, h.home_first t r hr, if_neg]
      rintro (heq | hmem')
      · omega
      · exact hnot hmem'
    rw [hat] at hr
    split_ifs at hr with heq hin
    · subst heq
      exact hstay top htop hout
    · exact hstay r hr hin
  · rw [hseen] at hk
    have htarget := h.first_lt target (at_lt htop)
    rw [rehomed]
    split_ifs with hmoved
    · by_cases hin : k < seen.length
      · rcases hmoved with heq | hmem'
        · omega
        · obtain ⟨r, hr, -⟩ := h.live k _ (List.getElem?_eq_getElem hin)
          have hless := h.increasing target (home k) (hrest _ hmem') (at_lt hr)
          have hle := h.first_le k hin
          omega
      · omega
    · exact h.first_le k (by omega)

theorem Homes.visit (h : Homes seen s home first) (hapart : Apart dir s)
    (hmsg : msg.isSelf = dir msg.primary) :
    ∃ home' first', Homes (seen ++ [msg]) (s.visit msg) home' first' := by
  rcases visit_cases s msg with ⟨-, heq⟩ | ⟨target, rest, hmem, hrest, heq⟩
  · rw [heq]
    exact ⟨_, _, h.push (registerAll_slots _ _ _)⟩
  · rw [heq]
    exact ⟨_, _, h.collapsed hapart hmsg hmem hrest (registerAll_slots _ _ _)⟩

theorem Homes.pass (rows : List ChatMessage) (hrows : ∀ m ∈ rows, m.isSelf = dir m.primary) :
    ∀ seen s home first, Homes seen s home first → Apart dir s →
      ∃ home' first', Homes (seen ++ rows) (rows.foldl Slots.visit s) home' first' := by
  induction rows with
  | nil =>
    intro seen s home first h _
    rw [List.append_nil]
    exact ⟨home, first, h⟩
  | cons m rows ih =>
    intro seen s home first h hapart
    have hm := hrows m (List.mem_cons_self ..)
    obtain ⟨home', first', hnext⟩ := h.visit hapart hm
    rw [List.append_cons]
    exact ih (fun m' hm' => hrows m' (List.mem_cons_of_mem _ hm')) _ _ home' first' hnext
      (hapart.visit hm)

theorem Homes.empty : Homes [] {} (fun _ => 0) fun _ => 0 := by
  refine ⟨?_, ?_, ?_, ?_, ?_⟩
  · intro k a hk
    simp at hk
  · exact fun t ht => absurd ht (Nat.not_lt_zero _)
  · exact fun t t' _ ht' => absurd ht' (Nat.not_lt_zero _)
  · exact fun t r hr => absurd (at_lt hr) (Nat.not_lt_zero _)
  · exact fun k hk => absurd hk (Nat.not_lt_zero _)

end Slots

/-! ## The projection -/

/-- The rows left are apart, every row read is carried by one of them in its direction, they stand in
    the order of their first rows, and a second pass changes nothing. -/
structure Projects (rows out : List ChatMessage) : Prop where
  apart : out.Pairwise fun a b => a.isSelf = b.isSelf → ∀ id ∈ identitiesOf a, id ∉ identitiesOf b
  origins : ∃ origin : ℕ → ℕ,
    (∀ k a, rows[k]? = some a → ∃ r, out[origin k]? = some r ∧ r.isSelf = a.isSelf ∧
      ∀ id ∈ a.ids, id ∈ r.ids) ∧
    (∀ k, k < rows.length → ∀ j, j < origin k → ∃ l, l < k ∧ origin l = j) ∧
    ∀ j, j < out.length → ∃ k, k < rows.length ∧ origin k = j
  again : dedupeByIdentity out = out

theorem exists_direction {rows : List ChatMessage}
    (hone : ∀ a ∈ rows, ∀ b ∈ rows, a.primary = b.primary → a.isSelf = b.isSelf) :
    ∃ dir : String → Bool, ∀ m ∈ rows, m.isSelf = dir m.primary := by
  refine ⟨fun p => decide (∃ a ∈ rows, a.primary = p ∧ a.isSelf = true), fun m hm => ?_⟩
  dsimp only
  by_cases hexists : ∃ a ∈ rows, a.primary = m.primary ∧ a.isSelf = true
  · obtain ⟨a, ha, hp, hself⟩ := hexists
    rw [hone m hm a ha hp.symm, hself]
    exact (decide_eq_true ⟨a, ha, hp, hself⟩).symm
  · rw [decide_eq_false hexists, Bool.eq_false_iff]
    exact fun hself => hexists ⟨m, hm, rfl, hself⟩

theorem at_iff {s : Slots} {t : ℕ} {r : ChatMessage} :
    s.at? t = some r ↔ s.slots[t]? = some (some r) := Option.join_eq_some_iff

/-- Homes give every row read its place in the output. -/
theorem Slots.Homes.origins {rows : List ChatMessage} {s : Slots} {home first : ℕ → ℕ}
    (h : s.Homes rows home first) : ∃ origin : ℕ → ℕ,
    (∀ k a, rows[k]? = some a → ∃ r, s.slots.reduceOption[origin k]? = some r ∧
      r.isSelf = a.isSelf ∧ ∀ id ∈ a.ids, id ∈ r.ids) ∧
    (∀ k, k < rows.length → ∀ j, j < origin k → ∃ l, l < k ∧ origin l = j) ∧
    ∀ j, j < s.slots.reduceOption.length → ∃ k, k < rows.length ∧ origin k = j := by
  have hplace : ∀ k a, rows[k]? = some a → ∃ r, s.slots.reduceOption[rank s.slots (home k)]? = some r ∧
      r.isSelf = a.isSelf ∧ ∀ id ∈ a.ids, id ∈ r.ids := by
    intro k a hk
    obtain ⟨r, hr, hself, hids⟩ := h.live k a hk
    exact ⟨r, reduceOption_rank (at_iff.mp hr), hself, hids⟩
  have hfirst : ∀ t r, s.slots[t]? = some (some r) →
      first t < rows.length ∧ rank s.slots (home (first t)) = rank s.slots t := by
    intro t r ht
    have hat : s.at? t = some r := at_iff.mpr ht
    rw [h.home_first t r hat]
    exact ⟨h.first_lt t (Slots.at_lt hat), rfl⟩
  refine ⟨fun k => rank s.slots (home k), hplace, fun k hk j hj => ?_, fun j hj => ?_⟩
  · dsimp only at hj ⊢
    obtain ⟨r, hr, -, -⟩ := hplace k _ (List.getElem?_eq_getElem hk)
    have hlength := (List.getElem?_eq_some_iff.mp hr).choose
    obtain ⟨t, r', ht, hrank⟩ := exists_rank (show j < s.slots.reduceOption.length by omega)
    have hbefore : t < home k := by
      by_contra hge
      have hmono := rank_mono s.slots (Nat.not_lt.mp hge)
      omega
    obtain ⟨r'', hr'', -, -⟩ := h.live k _ (List.getElem?_eq_getElem hk)
    have hless := h.increasing t (home k) hbefore (Slots.at_lt hr'')
    have hle := h.first_le k hk
    exact ⟨first t, by omega, by rw [(hfirst t r' ht).2, hrank]⟩
  · obtain ⟨t, r, ht, hrank⟩ := exists_rank hj
    have hback := (hfirst t r ht).2
    rw [hrank] at hback
    exact ⟨first t, (hfirst t r ht).1, hback⟩

/-- The pass over a file is a projection, if every primary identity stands in one direction. -/
theorem dedupe_projects {rows : List ChatMessage}
    (hone : ∀ a ∈ rows, ∀ b ∈ rows, a.primary = b.primary → a.isSelf = b.isSelf) :
    Projects rows (dedupeByIdentity rows) := by
  obtain ⟨dir, hdir⟩ := exists_direction hone
  have hapart := dedupe_apart dir hdir
  have hslots := Slots.Apart.pass rows hdir {} (Slots.Apart.empty dir)
  obtain ⟨home, first, hhomes⟩ :=
    Slots.Homes.pass rows hdir [] {} _ _ Slots.Homes.empty (Slots.Apart.empty dir)
  refine ⟨hapart, hhomes.origins, dedupe_of_separate _ ?_⟩
  refine hapart.imp_of_mem fun {a b} ha hb hab => ⟨fun hp => ?_, hab⟩
  -- rows of one primary identity have one direction, and share that identity
  obtain ⟨t, ht⟩ := Slots.mem_slots.mp ha
  obtain ⟨t', ht'⟩ := Slots.mem_slots.mp hb
  have hself : a.isSelf = b.isSelf := by
    rw [hslots.directed t a ht, hslots.directed t' b ht', hp]
  exact hab hself a.primary (mem_identitiesOf.mpr (Or.inl rfl)) (mem_identitiesOf.mpr (Or.inl hp))

def row (isSelf : Bool) (msgID : String) (altMsgIds : List String) : ChatMessage :=
  { text := "hi", fromUserId := "bob", isSelf, timestamp := 0, msgID := some msgID, altMsgIds }

/-- The last row bridges two rows kept before it. -/
theorem bridged_rows_project :
    Projects [row false "a" ["x"], row true "s" [], row false "b" ["y"], row false "c" ["x", "y"]]
      (dedupeByIdentity
        [row false "a" ["x"], row true "s" [], row false "b" ["y"], row false "c" ["x", "y"]]) :=
  dedupe_projects (by decide)

/-- One id in both directions is one row, of one direction. -/
theorem directions_collapse :
    let rows := [row true "m" [], row false "m" []]
    dedupeByIdentity rows = [row true "m" []] ∧
      ¬ ∃ r ∈ dedupeByIdentity rows, r.isSelf = false ∧ "m" ∈ r.ids := by
  decide

end Tim2Tox.ChatHistory
