import Tim2Tox.KeyedTables
import Mathlib.Data.List.Perm.Basic
import Mathlib.Algebra.BigOperators.Group.List.Basic
import Mathlib.Algebra.Ring.Nat

set_option autoImplicit false

/-!
# Mirrored tables

Tables of containers that keep no empty container, and two indices built from
them: what each owner holds with who holds each item and the number of pairs,
and a table with its inverse. Each operation edits both sides by hand; here it
is shown that they stay mirror images.
-/
namespace Tim2Tox.MirroredTables
open KeyedTables

section Containers
variable {κ γ : Type*} [DecidableEq κ]

/-- The container at a key, `empty` when there is none. -/
def content (empty : γ) (key : κ) (table : AList (fun _ : κ => γ)) : γ :=
  (table.lookup key).getD empty

/-- Changes the container at a key, and drops it when nothing is left in it. -/
def adjust (isEmpty : γ → Bool) (change : γ → γ) (key : κ) (table : AList (fun _ : κ => γ)) :
    AList (fun _ : κ => γ) :=
  match table.lookup key with
  | none => table
  | some inner =>
    if isEmpty (change inner) then table.erase key else table.insert key (change inner)

/-- No empty container is kept. -/
def Full (empty : γ) (table : AList (fun _ : κ => γ)) : Prop :=
  ∀ key inner, table.lookup key = some inner → inner ≠ empty

variable {empty : γ}

theorem content_of_lookup {key : κ} {table : AList (fun _ : κ => γ)} {inner : γ}
    (h : table.lookup key = some inner) : content empty key table = inner := by
  unfold content
  rw [h, Option.getD_some]

theorem content_of_none {key : κ} {table : AList (fun _ : κ => γ)}
    (h : table.lookup key = none) : content empty key table = empty := by
  unfold content
  rw [h, Option.getD_none]

theorem content_insert (key : κ) (inner : γ) (table : AList (fun _ : κ => γ)) (k : κ) :
    content empty k (table.insert key inner) = if k = key then inner else content empty k table := by
  split_ifs with hk
  · rw [hk]
    exact content_of_lookup (AList.lookup_insert table)
  · unfold content
    rw [AList.lookup_insert_ne hk]

theorem content_erase (key : κ) (table : AList (fun _ : κ => γ)) (k : κ) :
    content empty k (table.erase key) = if k = key then empty else content empty k table := by
  split_ifs with hk
  · rw [hk]
    exact content_of_none (AList.lookup_erase key table)
  · unfold content
    rw [AList.lookup_erase_ne hk]

theorem content_adjust {isEmpty : γ → Bool} {change : γ → γ}
    (hempty : ∀ inner, isEmpty inner = true ↔ inner = empty) (hchange : change empty = empty)
    (key : κ) (table : AList (fun _ : κ => γ)) (k : κ) :
    content empty k (adjust isEmpty change key table) =
      if k = key then change (content empty key table) else content empty k table := by
  unfold adjust
  cases hlookup : table.lookup key with
  | none =>
    split_ifs with hk
    · rw [hk, content_of_none hlookup, hchange]
    · rfl
  | some inner =>
    change content empty k (if isEmpty (change inner) then table.erase key
      else table.insert key (change inner)) = _
    rw [content_of_lookup hlookup]
    split_ifs with he hk hk
    · rw [content_erase, if_pos hk, (hempty _).mp he]
    · rw [content_erase, if_neg hk]
    · rw [content_insert, if_pos hk]
    · rw [content_insert, if_neg hk]

theorem full_empty : Full empty (∅ : AList (fun _ : κ => γ)) :=
  fun _ _ h => nomatch h

theorem Full.erase {table : AList (fun _ : κ => γ)} (h : Full empty table) (key : κ) :
    Full empty (table.erase key) := by
  intro k inner hk
  by_cases hkey : k = key
  · rw [hkey, AList.lookup_erase] at hk
    cases hk
  · rw [AList.lookup_erase_ne hkey] at hk
    exact h k inner hk

theorem Full.insert {table : AList (fun _ : κ => γ)} (h : Full empty table) (key : κ) {inner : γ}
    (hinner : inner ≠ empty) : Full empty (table.insert key inner) := by
  intro k other hk
  by_cases hkey : k = key
  · rw [hkey, AList.lookup_insert] at hk
    exact Option.some.inj hk ▸ hinner
  · rw [AList.lookup_insert_ne hkey] at hk
    exact h k other hk

theorem Full.adjust {isEmpty : γ → Bool} {change : γ → γ} {table : AList (fun _ : κ => γ)}
    (hempty : ∀ inner, isEmpty inner = true ↔ inner = empty) (h : Full empty table) (key : κ) :
    Full empty (adjust isEmpty change key table) := by
  unfold MirroredTables.adjust
  cases hlookup : table.lookup key with
  | none => exact h
  | some inner =>
    change Full empty (if isEmpty (change inner) then table.erase key
      else table.insert key (change inner))
    split_ifs with he
    · exact h.erase key
    · exact h.insert key fun hinner => he ((hempty _).mpr hinner)

/-- The sizes of all containers together. -/
def weight (size : γ → ℕ) (table : AList (fun _ : κ => γ)) : ℕ :=
  (table.entries.map fun entry => size entry.2).sum

variable {size : γ → ℕ}

theorem weight_insert (key : κ) (inner : γ) (table : AList (fun _ : κ => γ)) :
    weight size (table.insert key inner) = size inner + weight size (table.erase key) := by
  unfold weight
  rw [AList.entries_insert, List.map_cons, List.sum_cons]
  rfl

theorem weight_split (hsize : size empty = 0) (key : κ) (table : AList (fun _ : κ => γ)) :
    weight size table = size (content empty key table) + weight size (table.erase key) := by
  cases hlookup : table.lookup key with
  | none =>
    rw [content_of_none hlookup, hsize, Nat.zero_add]
    unfold weight
    rw [show (table.erase key).entries = table.entries from
      List.kerase_of_notMem_keys (AList.lookup_eq_none.mp hlookup)]
  | some inner =>
    rw [content_of_lookup hlookup]
    unfold weight
    rw [((entries_perm_of_lookup hlookup).map _).sum_eq, List.map_cons, List.sum_cons]

theorem weight_adjust {isEmpty : γ → Bool} {change : γ → γ} (hsize : size empty = 0)
    (hempty : ∀ inner, isEmpty inner = true ↔ inner = empty) (hchange : change empty = empty)
    (key : κ) (table : AList (fun _ : κ => γ)) :
    weight size (adjust isEmpty change key table) =
      size (change (content empty key table)) + weight size (table.erase key) := by
  unfold adjust
  cases hlookup : table.lookup key with
  | none =>
    rw [content_of_none hlookup, hchange, hsize]
    have := weight_split hsize key table
    rwa [content_of_none hlookup, hsize] at this
  | some inner =>
    rw [content_of_lookup hlookup]
    change weight size (if isEmpty (change inner) then table.erase key
      else table.insert key (change inner)) = _
    split_ifs with he
    · rw [(hempty _).mp he, hsize, Nat.zero_add]
    · exact weight_insert key _ table

end Containers

/-! ## What each owner holds, and who holds each item -/

section Mirrors
variable {α β τ : Type*} [DecidableEq α] [DecidableEq β]

structure Mirror (α β τ : Type*) where
  held : AList (fun _ : α => AList (fun _ : β => τ))
  holders : AList (fun _ : β => List α)
  count : ℕ

namespace Mirror

def empty : Mirror α β τ := ⟨∅, ∅, 0⟩

def noItems (items : AList (fun _ : β => τ)) : Bool := items.entries.isEmpty

def size (items : AList (fun _ : β => τ)) : ℕ := items.keys.length

def items (x : Mirror α β τ) (owner : α) : AList (fun _ : β => τ) := content ∅ owner x.held

def owners (x : Mirror α β τ) (item : β) : List α := content [] item x.holders

def link (owner : α) (item : β) (value : τ) (x : Mirror α β τ) : Mirror α β τ where
  held := x.held.insert owner
    (if item ∈ x.items owner then x.items owner else (x.items owner).insert item value)
  holders := x.holders.insert item (List.insert owner (x.owners item))
  count := if item ∈ x.items owner then x.count else x.count + 1

/-- A new value for an item that is held already. -/
def refresh (owner : α) (item : β) (value : τ) (x : Mirror α β τ) : Mirror α β τ :=
  { x with held := x.held.insert owner ((x.items owner).insert item value) }

def dropHolder (owner : α) (item : β) (holders : AList (fun _ : β => List α)) :
    AList (fun _ : β => List α) :=
  adjust List.isEmpty (fun owners => owners.erase owner) item holders

def unlink (owner : α) (item : β) (x : Mirror α β τ) : Mirror α β τ where
  held := adjust noItems (fun items => items.erase item) owner x.held
  holders := dropHolder owner item x.holders
  count := if item ∈ x.items owner then x.count - 1 else x.count

def unlinkAll (owner : α) (x : Mirror α β τ) : Mirror α β τ where
  held := x.held.erase owner
  holders := (x.items owner).keys.foldl (fun holders item => dropHolder owner item holders) x.holders
  count := x.count - size (x.items owner)

structure Consistent (x : Mirror α β τ) : Prop where
  mirrors : ∀ owner item, item ∈ x.items owner ↔ owner ∈ x.owners item
  counts : x.count = weight size x.held
  heldFull : Full ∅ x.held
  holdersFull : Full [] x.holders
  nodup : ∀ item, (x.owners item).Nodup

omit [DecidableEq β] in
theorem noItems_iff (items : AList (fun _ : β => τ)) : noItems items = true ↔ items = ∅ := by
  unfold noItems
  rw [List.isEmpty_iff]
  exact ⟨fun h => AList.ext h, fun h => congrArg AList.entries h⟩

omit [DecidableEq β] in
theorem size_empty : size (∅ : AList (fun _ : β => τ)) = 0 := rfl

theorem erase_empty (item : β) : (∅ : AList (fun _ : β => τ)).erase item = ∅ := rfl

omit [DecidableEq β] in
theorem ne_empty_of_mem {item : β} {items : AList (fun _ : β => τ)} (h : item ∈ items) :
    items ≠ ∅ := by
  intro hempty
  rw [hempty] at h
  exact AList.notMem_empty item h

theorem size_insert (item : β) (value : τ) (items : AList (fun _ : β => τ)) :
    size (items.insert item value) = if item ∈ items then size items else size items + 1 := by
  unfold size
  rw [AList.keys_insert, List.length_cons, List.length_erase]
  by_cases hmem : item ∈ items
  · have hpositive := List.length_pos_of_mem (AList.mem_keys.mp hmem)
    rw [if_pos hmem, if_pos (AList.mem_keys.mp hmem)]
    omega
  · rw [if_neg hmem, if_neg fun hkey => hmem (AList.mem_keys.mpr hkey)]

theorem size_erase (item : β) (items : AList (fun _ : β => τ)) :
    size (items.erase item) = if item ∈ items then size items - 1 else size items := by
  unfold size
  rw [AList.keys_erase, List.length_erase]
  exact if_congr Iff.rfl rfl rfl

/-! ### What the owners and the items see of each operation -/

theorem items_link (owner : α) (item : β) (value : τ) (x : Mirror α β τ) (other : α) :
    (x.link owner item value).items other = if other = owner then
      (if item ∈ x.items owner then x.items owner else (x.items owner).insert item value)
      else x.items other := content_insert owner _ x.held other

theorem owners_link (owner : α) (item : β) (value : τ) (x : Mirror α β τ) (other : β) :
    (x.link owner item value).owners other =
      if other = item then List.insert owner (x.owners item) else x.owners other :=
  content_insert item _ x.holders other

theorem items_refresh (owner : α) (item : β) (value : τ) (x : Mirror α β τ) (other : α) :
    (x.refresh owner item value).items other =
      if other = owner then (x.items owner).insert item value else x.items other :=
  content_insert owner _ x.held other

theorem items_unlink (owner : α) (item : β) (x : Mirror α β τ) (other : α) :
    (x.unlink owner item).items other =
      if other = owner then (x.items owner).erase item else x.items other :=
  content_adjust noItems_iff (erase_empty item) owner x.held other

theorem content_dropHolder (owner : α) (item : β) (holders : AList (fun _ : β => List α)) (other : β) :
    content [] other (dropHolder owner item holders) =
      if other = item then (content [] item holders).erase owner else content [] other holders :=
  content_adjust (fun _ => List.isEmpty_iff) rfl item holders other

theorem owners_unlink (owner : α) (item : β) (x : Mirror α β τ) (other : β) :
    (x.unlink owner item).owners other =
      if other = item then (x.owners item).erase owner else x.owners other :=
  content_dropHolder owner item x.holders other

theorem items_unlinkAll (owner : α) (x : Mirror α β τ) (other : α) :
    (x.unlinkAll owner).items other = if other = owner then ∅ else x.items other :=
  content_erase owner x.held other

theorem content_dropHolders (owner : α) (items : List β) (hnodup : items.Nodup) :
    ∀ (holders : AList (fun _ : β => List α)) (other : β),
      content [] other (items.foldl (fun holders item => dropHolder owner item holders) holders) =
        if other ∈ items then (content [] other holders).erase owner else content [] other holders := by
  induction items with
  | nil => exact fun holders other => rfl
  | cons item items ih =>
    intro holders other
    rw [List.nodup_cons] at hnodup
    rw [List.foldl_cons, ih hnodup.2, content_dropHolder]
    by_cases hitem : other = item
    · rw [hitem, if_neg hnodup.1, if_pos rfl, if_pos List.mem_cons_self]
    · simp only [List.mem_cons, hitem, false_or, if_false]

theorem owners_unlinkAll (owner : α) (x : Mirror α β τ) (other : β) :
    (x.unlinkAll owner).owners other =
      if other ∈ x.items owner then (x.owners other).erase owner else x.owners other :=
  (content_dropHolders owner _ (x.items owner).keys_nodup x.holders other).trans
    (if_congr Iff.rfl rfl rfl)

theorem full_dropHolders (owner : α) (items : List β) : ∀ holders : AList (fun _ : β => List α),
    Full [] holders →
      Full [] (items.foldl (fun holders item => dropHolder owner item holders) holders) := by
  induction items with
  | nil => exact fun holders h => h
  | cons item items ih =>
    exact fun holders h => ih _ (h.adjust (fun _ => List.isEmpty_iff) item)

/-! ### How much each operation leaves -/

theorem owners_unlink_le (owner : α) (item : β) (x : Mirror α β τ) (other : β) :
    ((x.unlink owner item).owners other).length ≤ (x.owners other).length := by
  rw [owners_unlink]
  split_ifs with hother
  · rw [hother]
    exact List.length_erase_le
  · exact Nat.le_refl _

theorem owners_unlinkAll_le (owner : α) (x : Mirror α β τ) (other : β) :
    ((x.unlinkAll owner).owners other).length ≤ (x.owners other).length := by
  rw [owners_unlinkAll]
  split_ifs
  · exact List.length_erase_le
  · exact Nat.le_refl _

theorem owners_link_le (owner : α) (item : β) (value : τ) (x : Mirror α β τ) (other : β) :
    ((x.link owner item value).owners other).length ≤
      (x.owners other).length + if other = item then 1 else 0 := by
  rw [owners_link]
  split_ifs with hother
  · rw [hother]
    by_cases hmem : owner ∈ x.owners item
    · rw [List.insert_of_mem hmem]
      exact Nat.le_succ _
    · rw [List.insert_of_not_mem hmem]
      exact Nat.le_refl _
  · exact Nat.le_refl _

theorem mem_items_unlink {owner : α} {item : β} {x : Mirror α β τ} {other : α} {k : β}
    (h : k ∈ (x.unlink owner item).items other) : k ∈ x.items other := by
  rw [items_unlink] at h
  split_ifs at h with hother
  · rw [hother]
    exact (AList.mem_erase.mp h).2
  · exact h

theorem size_unlink_le (owner : α) (item : β) (x : Mirror α β τ) (other : α) :
    size ((x.unlink owner item).items other) ≤ size (x.items other) := by
  rw [items_unlink]
  split_ifs with hother
  · rw [hother]
    exact keys_erase_le item _
  · exact Nat.le_refl _

theorem size_unlink {owner : α} {item : β} {x : Mirror α β τ} (hitem : item ∈ x.items owner) :
    size ((x.unlink owner item).items owner) = size (x.items owner) - 1 := by
  rw [items_unlink, if_pos rfl, size_erase, if_pos hitem]

theorem count_unlink {owner : α} {item : β} {x : Mirror α β τ} (hitem : item ∈ x.items owner) :
    (x.unlink owner item).count = x.count - 1 := if_pos hitem

theorem count_unlink_le (owner : α) (item : β) (x : Mirror α β τ) :
    (x.unlink owner item).count ≤ x.count := by
  change (if item ∈ x.items owner then x.count - 1 else x.count) ≤ _
  split_ifs
  · exact Nat.sub_le _ _
  · exact Nat.le_refl _

/-! ### The two sides stay mirror images -/

theorem consistent_empty : (empty : Mirror α β τ).Consistent where
  mirrors := fun _ item => iff_of_false (AList.notMem_empty item) List.not_mem_nil
  counts := rfl
  heldFull := full_empty
  holdersFull := full_empty
  nodup := fun _ => List.nodup_nil

variable {x : Mirror α β τ}

theorem Consistent.weight_items (h : x.Consistent) (owner : α) :
    x.count = size (x.items owner) +
      weight size (x.held.erase owner) :=
  h.counts.trans (weight_split size_empty owner x.held)

theorem Consistent.link (h : x.Consistent) (owner : α) (item : β) (value : τ) :
    (x.link owner item value).Consistent where
  mirrors := by
    intro other k
    rw [items_link, owners_link]
    by_cases hother : other = owner
    · rw [if_pos hother, hother]
      by_cases hk : k = item
      · rw [if_pos hk, hk]
        refine iff_of_true ?_ (List.mem_insert_self)
        split_ifs with hmem
        · exact hmem
        · exact (AList.mem_insert _).mpr (.inl rfl)
      · rw [if_neg hk, ← h.mirrors owner k]
        split_ifs
        · exact Iff.rfl
        · rw [AList.mem_insert]
          exact or_iff_right hk
    · rw [if_neg hother]
      by_cases hk : k = item
      · rw [if_pos hk, hk, List.mem_insert_iff, h.mirrors other item]
        exact (or_iff_right hother).symm
      · rw [if_neg hk]
        exact h.mirrors other k
  counts := by
    have hcount := h.weight_items owner
    change (if item ∈ x.items owner then x.count else x.count + 1) =
      weight _ (x.held.insert owner _)
    rw [weight_insert]
    split_ifs with hmem
    · exact hcount
    · rw [size_insert, if_neg hmem]
      omega
  heldFull := by
    have hitem : item ∈ (if item ∈ x.items owner then x.items owner
        else (x.items owner).insert item value) := by
      split_ifs with hmem
      · exact hmem
      · exact (AList.mem_insert _).mpr (.inl rfl)
    exact h.heldFull.insert owner (ne_empty_of_mem hitem)
  holdersFull := h.holdersFull.insert item (List.ne_nil_of_mem (List.mem_insert_self))
  nodup := by
    intro k
    rw [owners_link]
    split_ifs
    · exact (h.nodup item).insert
    · exact h.nodup k

theorem Consistent.refresh (h : x.Consistent) {owner : α} {item : β} (hitem : item ∈ x.items owner)
    (value : τ) : (x.refresh owner item value).Consistent where
  mirrors := by
    intro other k
    rw [items_refresh]
    split_ifs with hother
    · rw [AList.mem_insert, hother]
      refine Iff.trans ⟨?_, .inr⟩ (h.mirrors owner k)
      rintro (rfl | hk)
      · exact hitem
      · exact hk
    · exact h.mirrors other k
  counts := by
    have hcount := h.weight_items owner
    change x.count = weight _ (x.held.insert owner _)
    rw [weight_insert, size_insert, if_pos hitem]
    exact hcount
  heldFull := h.heldFull.insert owner (ne_empty_of_mem ((AList.mem_insert _).mpr (.inl rfl)))
  holdersFull := h.holdersFull
  nodup := h.nodup

theorem Consistent.unlink (h : x.Consistent) (owner : α) (item : β) :
    (x.unlink owner item).Consistent where
  mirrors := by
    intro other k
    rw [items_unlink, owners_unlink]
    by_cases hother : other = owner
    · rw [if_pos hother, hother, AList.mem_erase]
      by_cases hk : k = item
      · rw [if_pos hk, hk, (h.nodup item).mem_erase_iff]
        exact iff_of_false (fun hmem => hmem.1 rfl) fun hmem => hmem.1 rfl
      · rw [if_neg hk, ← h.mirrors owner k]
        exact and_iff_right hk
    · rw [if_neg hother, h.mirrors other k]
      split_ifs with hk
      · rw [hk, List.mem_erase_of_ne hother]
      · exact Iff.rfl
  counts := by
    have hcount := h.weight_items owner
    change (if item ∈ x.items owner then x.count - 1 else x.count) =
      weight _ (adjust noItems (fun items => items.erase item) owner x.held)
    rw [weight_adjust size_empty noItems_iff (erase_empty item)]
    change _ = size ((x.items owner).erase item) + _
    rw [size_erase]
    split_ifs with hmem
    · have hpositive : 0 < size (x.items owner) := List.length_pos_of_mem (AList.mem_keys.mp hmem)
      omega
    · exact hcount
  heldFull := h.heldFull.adjust noItems_iff owner
  holdersFull := h.holdersFull.adjust (fun _ => List.isEmpty_iff) item
  nodup := by
    intro k
    rw [owners_unlink]
    split_ifs
    · exact (h.nodup item).erase owner
    · exact h.nodup k

theorem Consistent.unlinkAll (h : x.Consistent) (owner : α) : (x.unlinkAll owner).Consistent where
  mirrors := by
    intro other k
    rw [items_unlinkAll, owners_unlinkAll]
    by_cases hother : other = owner
    · rw [if_pos hother, hother]
      refine iff_of_false (AList.notMem_empty k) ?_
      split_ifs with hk
      · rw [(h.nodup k).mem_erase_iff]
        exact fun hmem => hmem.1 rfl
      · rwa [← h.mirrors owner k]
    · rw [if_neg hother, h.mirrors other k]
      split_ifs
      · rw [List.mem_erase_of_ne hother]
      · exact Iff.rfl
  counts := by
    have hcount := h.weight_items owner
    change x.count - size (x.items owner) = weight _ (x.held.erase owner)
    omega
  heldFull := h.heldFull.erase owner
  holdersFull := full_dropHolders owner _ _ h.holdersFull
  nodup := by
    intro k
    rw [owners_unlinkAll]
    split_ifs
    · exact (h.nodup k).erase owner
    · exact h.nodup k

end Mirror

end Mirrors

/-! ## A table and its inverse -/

section Inverses
variable {κ ι : Type*} [DecidableEq κ] [DecidableEq ι]

structure Inverse (κ ι : Type*) where
  index : AList (fun _ : ι => List κ)
  slots : AList (fun _ : κ => ι)

namespace Inverse

def empty : Inverse κ ι := ⟨∅, ∅⟩

def keysOf (x : Inverse κ ι) (image : ι) : List κ := content [] image x.index

def add (key : κ) (image : ι) (x : Inverse κ ι) : Inverse κ ι where
  index := x.index.insert image (x.keysOf image ++ [key])
  slots := x.slots.insert key image

def remove (key : κ) (x : Inverse κ ι) : Inverse κ ι :=
  match x.slots.lookup key with
  | none => x
  | some image =>
    { index := adjust List.isEmpty (fun keys => keys.filter (· ≠ key)) image x.index
      slots := x.slots.erase key }

structure Consistent (x : Inverse κ ι) : Prop where
  inverse : ∀ key image, x.slots.lookup key = some image ↔ key ∈ x.keysOf image
  nodup : ∀ image, (x.keysOf image).Nodup
  full : Full [] x.index

theorem consistent_empty : (empty : Inverse κ ι).Consistent where
  inverse := fun _ image => iff_of_false (fun h : none = some image => nomatch h)
    List.not_mem_nil
  nodup := fun _ => List.nodup_nil
  full := full_empty

variable {x : Inverse κ ι}

theorem Consistent.add (h : x.Consistent) {key : κ} (hkey : key ∉ x.slots) (image : ι) :
    (x.add key image).Consistent := by
  have hat : ∀ i, (x.add key image).keysOf i = if i = image then x.keysOf image ++ [key] else x.keysOf i :=
    content_insert image _ x.index
  have hnone : ∀ i, key ∉ x.keysOf i := by
    intro i hmem
    rw [← h.inverse, AList.lookup_eq_none.mpr hkey] at hmem
    cases hmem
  refine ⟨fun k i => ?_, fun i => ?_, ?_⟩
  · rw [hat]
    change (x.slots.insert key image).lookup k = some i ↔ _
    by_cases hk : k = key
    · rw [hk, AList.lookup_insert, Option.some.injEq]
      by_cases hi : i = image
      · rw [if_pos hi]
        exact iff_of_true hi.symm (List.mem_append_right _ (List.mem_singleton_self key))
      · rw [if_neg hi]
        exact iff_of_false (Ne.symm hi) (hnone i)
    · rw [AList.lookup_insert_ne hk, h.inverse]
      split_ifs with hi
      · rw [hi, List.mem_append, List.mem_singleton]
        exact (or_iff_left hk).symm
      · exact Iff.rfl
  · rw [hat]
    split_ifs
    · exact List.nodup_append'.mpr ⟨h.nodup image, List.nodup_singleton key,
        fun k hk hmem => hnone image (List.mem_singleton.mp hmem ▸ hk)⟩
    · exact h.nodup i
  · exact h.full.insert image (by simp)

theorem remove_eq {key : κ} {image : ι} (hlookup : x.slots.lookup key = some image) :
    x.remove key =
      { index := adjust List.isEmpty (fun keys => keys.filter (· ≠ key)) image x.index
        slots := x.slots.erase key } := by
  unfold remove
  rw [hlookup]

theorem Consistent.remove (h : x.Consistent) (key : κ) : (x.remove key).Consistent := by
  cases hlookup : x.slots.lookup key with
  | none =>
    rw [show x.remove key = x by unfold Inverse.remove; rw [hlookup]]
    exact h
  | some image =>
    rw [remove_eq hlookup]
    have hat : ∀ i, content [] i
        (adjust List.isEmpty (fun keys => keys.filter (· ≠ key)) image x.index) =
          if i = image then (x.keysOf image).filter (· ≠ key) else x.keysOf i :=
      content_adjust (fun _ => List.isEmpty_iff) rfl image x.index
    refine ⟨fun k i => ?_, fun i => ?_, h.full.adjust (fun _ => List.isEmpty_iff) image⟩
    · change (x.slots.erase key).lookup k = some i ↔ k ∈ content [] i _
      rw [hat]
      by_cases hk : k = key
      · rw [hk, AList.lookup_erase]
        refine iff_of_false (fun h => nomatch h) ?_
        split_ifs with hi
        · simp
        · rw [← h.inverse, hlookup, Option.some.injEq]
          exact Ne.symm hi
      · rw [AList.lookup_erase_ne hk, h.inverse]
        split_ifs with hi
        · rw [hi, List.mem_filter]
          exact (and_iff_left (decide_eq_true hk)).symm
        · exact Iff.rfl
    · change (content [] i _).Nodup
      rw [hat]
      split_ifs
      · exact (h.nodup image).filter _
      · exact h.nodup i

theorem slots_remove (key : κ) (x : Inverse κ ι) (other : κ) :
    (x.remove key).slots.lookup other = if other = key then none else x.slots.lookup other := by
  cases hlookup : x.slots.lookup key with
  | none =>
    rw [show x.remove key = x by unfold remove; rw [hlookup]]
    split_ifs with hother
    · rw [hother, hlookup]
    · rfl
  | some image =>
    rw [remove_eq hlookup]
    change (x.slots.erase key).lookup other = _
    split_ifs with hother
    · rw [hother, AList.lookup_erase]
    · rw [AList.lookup_erase_ne hother]

end Inverse

end Inverses

end Tim2Tox.MirroredTables
