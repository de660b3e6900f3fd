import Mathlib.Data.List.AList
import Mathlib.Data.List.Dedup

set_option autoImplicit false

/-!
# Replay filters

A table of the keys seen and a queue of the same keys, oldest first. Keys
leave by age or when a new key needs their place. A key passes twice within
its time to live only when a whole table of other keys passed in between.
-/
namespace Tim2Tox.ReplayFilters

structure ReplayFilter (κ : Type*) where
  seen : AList (fun _ : κ => ℕ)
  order : List (ℕ × κ)

variable {κ : Type*}

/-- Table and queue hold the same keys, each once. -/
def ReplayFilter.Agrees (f : ReplayFilter κ) : Prop := f.seen.keys.Perm (f.order.map Prod.snd)

theorem ReplayFilter.Agrees.nodup {f : ReplayFilter κ} (h : f.Agrees) :
    (f.order.map Prod.snd).Nodup := h.nodup_iff.mp f.seen.keys_nodup

theorem ReplayFilter.Agrees.length {f : ReplayFilter κ} (h : f.Agrees) :
    f.seen.keys.length = f.order.length := by
  rw [h.length_eq, List.length_map]

theorem ReplayFilter.Agrees.mem {f : ReplayFilter κ} (h : f.Agrees) {key : κ} :
    key ∈ f.seen ↔ key ∈ f.order.map Prod.snd := by
  rw [AList.mem_keys, h.mem_iff]

variable [DecidableEq κ]

def ReplayFilter.empty : ReplayFilter κ := ⟨∅, []⟩

/-- Pops the front of the queue, and its key from the table, as long as `go`
    holds of the table and the front. -/
def popWhile (go : AList (fun _ : κ => ℕ) → ℕ × κ → Bool) :
    AList (fun _ : κ => ℕ) → List (ℕ × κ) → ReplayFilter κ
  | seen, [] => ⟨seen, []⟩
  | seen, front :: rest =>
    if go seen front then popWhile go (seen.erase front.2) rest else ⟨seen, front :: rest⟩

def ReplayFilter.expire (ttl now : ℕ) (f : ReplayFilter κ) : ReplayFilter κ :=
  popWhile (fun _ front => decide (ttl < now - front.1)) f.seen f.order

def ReplayFilter.makeRoom (cap : ℕ) (f : ReplayFilter κ) : ReplayFilter κ :=
  popWhile (fun seen _ => decide (cap ≤ seen.keys.length)) f.seen f.order

def ReplayFilter.push (now : ℕ) (key : κ) (f : ReplayFilter κ) : ReplayFilter κ :=
  { seen := if key ∈ f.seen then f.seen else f.seen.insert key now
    order := f.order ++ [(now, key)] }

def ReplayFilter.record (cap now : ℕ) (key : κ) (f : ReplayFilter κ) : ReplayFilter κ :=
  (f.makeRoom cap).push now key

theorem agrees_pop {seen : AList (fun _ : κ => ℕ)} {front : ℕ × κ} {rest : List (ℕ × κ)}
    (h : (⟨seen, front :: rest⟩ : ReplayFilter κ).Agrees) :
    (⟨seen.erase front.2, rest⟩ : ReplayFilter κ).Agrees := by
  have herase := List.Perm.erase front.2 h
  change (seen.erase front.2).keys.Perm _
  rw [AList.keys_erase]
  simpa using herase

theorem popWhile_agrees (go : AList (fun _ : κ => ℕ) → ℕ × κ → Bool) (order : List (ℕ × κ)) :
    ∀ seen, (⟨seen, order⟩ : ReplayFilter κ).Agrees → (popWhile go seen order).Agrees := by
  induction order with
  | nil => exact fun seen h => h
  | cons front rest ih =>
    intro seen h
    unfold popWhile
    split_ifs
    · exact ih _ (agrees_pop h)
    · exact h

/-- What is popped is a front part of the queue, each entry popped while `go` held. -/
theorem popWhile_order (go : AList (fun _ : κ => ℕ) → ℕ × κ → Bool) (order : List (ℕ × κ)) :
    ∀ seen, ∃ gone, order = gone ++ (popWhile go seen order).order ∧
      ∀ a entry b, gone = a ++ entry :: b →
        ∃ table : AList (fun _ : κ => ℕ), go table entry ∧ ((⟨seen, order⟩ : ReplayFilter κ).Agrees →
          (⟨table, entry :: b ++ (popWhile go seen order).order⟩ : ReplayFilter κ).Agrees) := by
  induction order with
  | nil => exact fun seen => ⟨[], rfl, fun a entry b h => absurd h (by simp)⟩
  | cons front rest ih =>
    intro seen
    unfold popWhile
    split_ifs with hgo
    · obtain ⟨gone, hrest, hgone⟩ := ih (seen.erase front.2)
      refine ⟨front :: gone, congrArg (front :: ·) hrest, ?_⟩
      intro a entry b hsplit
      cases a with
      | nil =>
        obtain ⟨rfl, rfl⟩ := List.cons.inj hsplit
        refine ⟨seen, hgo, fun h => ?_⟩
        rw [List.cons_append, ← hrest]
        exact h
      | cons x a =>
        obtain ⟨table, htable, hagrees⟩ := hgone a entry b (List.cons.inj hsplit).2
        exact ⟨table, htable, fun h => hagrees (agrees_pop h)⟩
    · exact ⟨[], rfl, fun a entry b h => absurd h (by simp)⟩

/-- How many other keys than `key` the entries name. -/
def others (key : κ) (entries : List (ℕ × κ)) : ℕ :=
  ((entries.map Prod.snd).filter (· ≠ key)).dedup.length

theorem others_mono {key : κ} {entries more : List (ℕ × κ)} (h : entries ⊆ more) :
    others key entries ≤ others key more := by
  refine (List.subperm_of_subset (List.nodup_dedup _) ?_).length_le
  intro k hk
  rw [List.mem_dedup, List.mem_filter, List.mem_map] at hk ⊢
  obtain ⟨⟨entry, hentry, rfl⟩, hne⟩ := hk
  exact ⟨⟨entry, h hentry, rfl⟩, hne⟩

theorem others_of_nodup {key : κ} {entries : List (ℕ × κ)} (hnodup : (entries.map Prod.snd).Nodup)
    (hkey : key ∉ entries.map Prod.snd) : others key entries = entries.length := by
  unfold others
  rw [List.filter_eq_self.mpr, hnodup.dedup, List.length_map]
  intro k hk
  exact decide_eq_true fun h => hkey (h ▸ hk)

/-! ## What a filter remembers -/

section Histories
variable {ttl cap : ℕ}

/-- Every key that left the queue was too old, or a table of other keys came after it. -/
def Left (ttl cap clock : ℕ) (old order : List (ℕ × κ)) : Prop :=
  ∀ a entry b, old = a ++ entry :: b →
    ttl < clock - entry.1 ∨ cap ≤ others entry.2 (b ++ order)

/-- The filter after the entries of `history` were recorded in it, at time `clock`. -/
structure Follows (ttl cap clock : ℕ) (history : List (ℕ × κ)) (f : ReplayFilter κ) : Prop where
  agrees : f.Agrees
  length : f.order.length ≤ cap
  past : ∀ entry ∈ history, entry.1 ≤ clock
  left : ∃ old, history = old ++ f.order ∧ Left ttl cap clock old f.order

theorem follows_empty (clock : ℕ) : Follows ttl cap clock [] (ReplayFilter.empty : ReplayFilter κ) where
  agrees := List.Perm.refl _
  length := Nat.zero_le _
  past := fun entry h => absurd h List.not_mem_nil
  left := ⟨[], rfl, fun a entry b h => absurd h (by simp)⟩

theorem Follows.later {clock later : ℕ} {history : List (ℕ × κ)} {f : ReplayFilter κ}
    (h : Follows ttl cap clock history f) (hlater : clock ≤ later) :
    Follows ttl cap later history f where
  agrees := h.agrees
  length := h.length
  past := fun entry hentry => Nat.le_trans (h.past entry hentry) hlater
  left := by
    obtain ⟨old, hhistory, hleft⟩ := h.left
    refine ⟨old, hhistory, fun a entry b hsplit => ?_⟩
    obtain hold | hothers := hleft a entry b hsplit
    · exact .inl (by omega)
    · exact .inr hothers

/-- Entries may move from the queue to those that left, one reason each. -/
theorem Left.extend {clock : ℕ} {old gone order : List (ℕ × κ)}
    (hleft : Left ttl cap clock old (gone ++ order))
    (hgone : ∀ a entry b, gone = a ++ entry :: b →
      ttl < clock - entry.1 ∨ cap ≤ others entry.2 (b ++ order)) :
    Left ttl cap clock (old ++ gone) order := by
  intro a entry b hsplit
  obtain ⟨c, rfl, hc⟩ | ⟨c, hold, hc⟩ := List.append_eq_append_iff.mp hsplit
  · exact hgone c entry b hc
  · cases c with
    | nil => exact hgone [] entry b (by simpa using hc.symm)
    | cons x c =>
      obtain ⟨rfl, rfl⟩ := List.cons.inj hc
      change _ ∨ cap ≤ others entry.2 (c ++ gone ++ order)
      rw [List.append_assoc]
      exact hleft a entry c hold

theorem Follows.expire {clock : ℕ} {history : List (ℕ × κ)} {f : ReplayFilter κ}
    (h : Follows ttl cap clock history f) : Follows ttl cap clock history (f.expire ttl clock) := by
  obtain ⟨gone, horder, hgone⟩ :=
    popWhile_order (fun _ front => decide (ttl < clock - front.1)) f.order f.seen
  obtain ⟨old, hhistory, hleft⟩ := h.left
  have hlength := congrArg List.length horder
  rw [List.length_append] at hlength
  refine ⟨popWhile_agrees _ _ _ h.agrees, ?_, h.past, old ++ gone, ?_, ?_⟩
  · have := h.length
    unfold ReplayFilter.expire
    omega
  · rw [List.append_assoc]
    exact hhistory.trans (congrArg (old ++ ·) horder)
  · rw [horder] at hleft
    refine hleft.extend fun a entry b hsplit => .inl ?_
    obtain ⟨table, hgo, -⟩ := hgone a entry b hsplit
    exact of_decide_eq_true hgo

/-- Only the front entry can be in the way of a new key. -/
theorem makeRoom_order {f : ReplayFilter κ} (hagrees : f.Agrees) (hlength : f.order.length ≤ cap)
    (hcap : 0 < cap) : (f.makeRoom cap).order.length + 1 ≤ cap ∧
      ((f.makeRoom cap).order = f.order ∨
        ∃ front, f.order = front :: (f.makeRoom cap).order ∧ f.order.length = cap) := by
  obtain ⟨gone, horder, hgone⟩ :=
    popWhile_order (fun seen _ => decide (cap ≤ seen.keys.length)) f.order f.seen
  change f.order = gone ++ (f.makeRoom cap).order at horder
  have htotal := congrArg List.length horder
  rw [List.length_append] at htotal
  have hfull : ∀ a entry b, gone = a ++ entry :: b →
      cap ≤ b.length + (f.makeRoom cap).order.length + 1 := by
    intro a entry b hsplit
    obtain ⟨table, hgo, htable⟩ := hgone a entry b hsplit
    have hsize := (htable hagrees).length
    have hle := of_decide_eq_true hgo
    rw [hsize] at hle
    simp only [List.cons_append, List.length_cons, List.length_append] at hle
    exact hle
  have hroom : (f.makeRoom cap).order.length + 1 ≤ cap := by
    have hstop : ∀ order seen, (⟨seen, order⟩ : ReplayFilter κ).Agrees →
        (popWhile (fun seen _ => decide (cap ≤ seen.keys.length)) seen order).order.length + 1 ≤ cap := by
      intro order
      induction order with
      | nil => exact fun seen _ => hcap
      | cons front rest ih =>
        intro seen hseen
        unfold popWhile
        split_ifs with hgo
        · exact ih _ (agrees_pop hseen)
        · have hsize := hseen.length
          have hle := of_decide_eq_false (Bool.eq_false_iff.mpr hgo)
          change seen.keys.length = (front :: rest).length at hsize
          change (front :: rest).length + 1 ≤ cap
          omega
    exact hstop f.order f.seen hagrees
  refine ⟨hroom, ?_⟩
  cases gone with
  | nil => exact .inl horder.symm
  | cons front gone =>
    have hfirst := hfull [] front gone rfl
    cases gone with
    | nil =>
      refine .inr ⟨front, horder, ?_⟩
      simp only [List.length_cons, List.length_nil] at htotal hfirst
      omega
    | cons second gone =>
      have hsecond := hfull [front] second gone rfl
      simp only [List.length_cons] at htotal
      omega

theorem push_agrees {f : ReplayFilter κ} (h : f.Agrees) (now : ℕ) {key : κ} (hkey : key ∉ f.seen) :
    (f.push now key).Agrees := by
  unfold ReplayFilter.push ReplayFilter.Agrees
  rw [if_neg hkey, AList.keys_insert, List.erase_of_not_mem (fun hmem => hkey (AList.mem_keys.mpr hmem)),
    List.map_append]
  exact (List.Perm.cons key h).trans (List.perm_append_singleton key _).symm

theorem makeRoom_agrees {f : ReplayFilter κ} (h : f.Agrees) : (f.makeRoom cap).Agrees :=
  popWhile_agrees _ _ _ h

theorem Follows.record {clock now : ℕ} {history : List (ℕ × κ)} {f : ReplayFilter κ} {key : κ}
    (h : Follows ttl cap clock history f) (hnow : clock ≤ now) (hcap : 0 < cap)
    (hkey : key ∉ f.seen) :
    Follows ttl cap now (history ++ [(now, key)]) (f.record cap now key) := by
  have hlater := h.later hnow
  obtain ⟨old, hhistory, hleft⟩ := hlater.left
  obtain ⟨hroom, horder⟩ := makeRoom_order h.agrees h.length hcap
  have hagrees : (f.makeRoom cap).Agrees := makeRoom_agrees h.agrees
  have hsubset : (f.makeRoom cap).order ⊆ f.order := by
    obtain hsame | ⟨front, hfront, -⟩ := horder
    · rw [hsame]
      exact fun _ h => h
    · rw [hfront]
      exact fun _ h => List.mem_cons_of_mem _ h
  have hkey' : key ∉ (f.makeRoom cap).seen := by
    rw [hagrees.mem]
    intro hmem
    exact hkey (h.agrees.mem.mpr (List.map_subset _ hsubset hmem))
  have hpushed := push_agrees hagrees now hkey'
  refine ⟨hpushed, ?_, ?_, ?_⟩
  · change ((f.makeRoom cap).order ++ [(now, key)]).length ≤ cap
    rw [List.length_append]
    exact hroom
  · intro entry hentry
    obtain hold | hnew := List.mem_append.mp hentry
    · exact hlater.past entry hold
    · rw [List.mem_singleton.mp hnew]
  · have hgrow : Left ttl cap now old (f.order ++ [(now, key)]) := by
      intro a entry b hsplit
      refine (hleft a entry b hsplit).imp_right fun hothers =>
        Nat.le_trans hothers (others_mono ?_)
      rw [← List.append_assoc]
      exact List.subset_append_left _ _
    obtain hsame | ⟨front, hfront, hfull⟩ := horder
    · refine ⟨old, ?_, ?_⟩
      · change history ++ [(now, key)] = old ++ ((f.makeRoom cap).order ++ [(now, key)])
        rw [hsame, hhistory, List.append_assoc]
      · change Left ttl cap now old ((f.makeRoom cap).order ++ [(now, key)])
        rw [hsame]
        exact hgrow
    · refine ⟨old ++ [front], ?_, ?_⟩
      · change history ++ [(now, key)] = old ++ [front] ++ ((f.makeRoom cap).order ++ [(now, key)])
        rw [hhistory, hfront]
        simp
      · change Left ttl cap now (old ++ [front]) ((f.makeRoom cap).order ++ [(now, key)])
        rw [hfront] at hgrow
        refine Left.extend hgrow ?_
        intro a entry b hsplit
        obtain ⟨rfl, rfl, rfl⟩ : a = [] ∧ front = entry ∧ b = [] := by
          cases a with
          | nil => exact ⟨rfl, (List.cons.inj hsplit).1, (List.cons.inj hsplit).2.symm⟩
          | cons x a => exact absurd (List.cons.inj hsplit).2 (by simp)
        -- the rest of a full queue and the new key are other keys than the one that left
        refine .inr (Nat.le_of_eq ?_)
        have hnodup := h.agrees.nodup
        rw [hfront, List.map_cons, List.nodup_cons] at hnodup
        have hfrontKey : front.2 ∈ f.seen := by
          rw [h.agrees.mem, hfront]
          exact List.mem_map_of_mem List.mem_cons_self
        have hdistinct : (((f.makeRoom cap).order ++ [(now, key)]).map Prod.snd).Nodup := hpushed.nodup
        rw [List.nil_append, others_of_nodup hdistinct]
        · rw [hfront, List.length_cons] at hfull
          rw [List.length_append]
          exact hfull.symm
        · rw [List.map_append, List.mem_append, not_or]
          refine ⟨hnodup.1, fun hmem => hkey ?_⟩
          have hsame : front.2 = key := List.mem_singleton.mp hmem
          exact hsame ▸ hfrontKey

/-- A key is recorded twice within its time to live only with a table of other
    keys recorded in between. -/
def Once (ttl cap : ℕ) (history : List (ℕ × κ)) : Prop :=
  ∀ a first b second c, history = a ++ first :: b ++ second :: c → first.2 = second.2 →
    second.1 - first.1 ≤ ttl → cap ≤ others first.2 b

theorem once_nil : Once ttl cap ([] : List (ℕ × κ)) :=
  fun a first b second c h => absurd h (by simp)

theorem Once.record {clock now : ℕ} {history : List (ℕ × κ)} {f : ReplayFilter κ} {key : κ}
    (honce : Once ttl cap history) (h : Follows ttl cap clock history f) (hnow : clock ≤ now)
    (hkey : key ∉ f.seen) : Once ttl cap (history ++ [(now, key)]) := by
  intro a first b second c hsplit hsame hsoon
  obtain rfl | ⟨c, last, rfl⟩ := c.eq_nil_or_concat
  · obtain ⟨hhistory, hsecond⟩ := List.append_inj' hsplit rfl
    obtain rfl : (now, key) = second := (List.cons.inj hsecond).1
    obtain ⟨old, hold, hleft⟩ := h.left
    -- a key still in the queue would have been found in the table
    have hqueue : ∀ d, f.order ≠ d ++ first :: b := by
      intro d hd
      refine absurd (h.agrees.mem.mpr ?_) hkey
      change first.2 = key at hsame
      rw [hd, ← hsame]
      exact List.mem_map_of_mem (List.mem_append_right _ List.mem_cons_self)
    obtain ⟨d, -, hd⟩ | ⟨d, hold', hd⟩ := List.append_eq_append_iff.mp (hold.symm.trans hhistory)
    · exact absurd hd (hqueue d)
    · cases d with
      | nil => exact absurd hd.symm (hqueue [])
      | cons x d =>
        obtain ⟨rfl, rfl⟩ := List.cons.inj hd
        obtain hgone | hothers := hleft a first d hold'
        · change now - first.1 ≤ ttl at hsoon
          omega
        · exact hothers
  · rw [List.concat_eq_append, ← List.cons_append, ← List.append_assoc] at hsplit
    exact honce a first b second c (List.append_inj' hsplit rfl).1 hsame hsoon

/-- A filter that follows its history has kept it free of early repetitions. -/
structure Guards (ttl cap clock : ℕ) (history : List (ℕ × κ)) (f : ReplayFilter κ) : Prop where
  follows : Follows ttl cap clock history f
  once : Once ttl cap history

theorem guards_empty (clock : ℕ) : Guards ttl cap clock [] (ReplayFilter.empty : ReplayFilter κ) :=
  ⟨follows_empty clock, once_nil⟩

variable {clock now : ℕ} {history : List (ℕ × κ)} {f : ReplayFilter κ}

theorem Guards.later (h : Guards ttl cap clock history f) (hnow : clock ≤ now) :
    Guards ttl cap now history f := ⟨h.follows.later hnow, h.once⟩

theorem Guards.expire (h : Guards ttl cap clock history f) :
    Guards ttl cap clock history (f.expire ttl clock) := ⟨h.follows.expire, h.once⟩

theorem Guards.record (h : Guards ttl cap now history f) (hcap : 0 < cap) {key : κ}
    (hkey : key ∉ f.seen) : Guards ttl cap now (history ++ [(now, key)]) (f.record cap now key) :=
  ⟨h.follows.record (Nat.le_refl now) hcap hkey, h.once.record h.follows (Nat.le_refl now) hkey⟩

/-- Table and queue hold the same keys, each once, the last of the history. -/
theorem Guards.tables (h : Guards ttl cap clock history f) :
    f.seen.keys.Perm (f.order.map Prod.snd) ∧ (f.order.map Prod.snd).Nodup ∧
      f.order <:+ history ∧ f.seen.keys.length ≤ cap := by
  obtain ⟨old, hold, -⟩ := h.follows.left
  refine ⟨h.follows.agrees, h.follows.agrees.nodup, ⟨old, hold.symm⟩, ?_⟩
  rw [h.follows.agrees.length]
  exact h.follows.length

end Histories

end Tim2Tox.ReplayFilters
