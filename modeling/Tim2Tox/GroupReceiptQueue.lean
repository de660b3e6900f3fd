import Mathlib.Data.List.Dedup
import Mathlib.Data.List.DropRight
import Mathlib.Data.List.Perm.Subperm
import Tim2Tox.ArrivalOrder
import Tim2Tox.ReadReceiptQueue

set_option autoImplicit false

/-!
# The map of parked group read receipts

The ids of read receipts that wait for their author, by group and author: the map `FfiChatService`
has in memory, its bounds, and the list of the preferences that it is written to and filled from.
-/
namespace Tim2Tox.GroupReceiptQueue
open ArrivalOrder ReadReceiptQueue

/-! ## The stored list -/

/-- A group and an author in one text. -/
abbrev Key : Type := List Char

local instance : LawfulBEq Key := List.instLawfulBEq

def groupReadReceiptQueueKey (groupID authorKey : String) : Key :=
  groupID.toList ++ '|' :: authorKey.toList

/-- What stands before and behind the last bar; none where the code leaves the key out. -/
def splitKey (key : Key) : Option (String × String) :=
  let gid := (key.rdropWhile (· ≠ '|')).dropLast
  if gid = [] then none else some (String.ofList gid, String.ofList (key.rtakeWhile (· ≠ '|')))

/-- An entry of the stored list, as `jsonDecode` reads it or fails to. -/
inductive Entry where
  | undecodable
  | other
  | triple (gid author msgID : String)
  deriving DecidableEq

namespace Entry

/-- The key and the id of an entry that is taken over. -/
def named : Entry → Option (Key × MsgId)
  | .triple gid author msgID =>
    if gid = "" ∨ author = "" ∨ msgID = "" then none
    else some (groupReadReceiptQueueKey gid author, msgID)
  | _ => none

/-- The key and the id of a well-formed entry: the key of an author has no bar. -/
def listed : Entry → Option (Key × MsgId)
  | .triple gid author msgID =>
    if '|' ∈ author.toList then none else (Entry.triple gid author msgID).named
  | _ => none

/-- The entry is of the group and author. -/
def isOf (key : Key) : Entry → Bool
  | .triple gid author _ => groupReadReceiptQueueKey gid author = key
  | _ => false

end Entry

/-- An id for an author, whose key has no bar. -/
def WellFormed (x : Key × MsgId) : Prop :=
  ∃ gid author : String, gid ≠ "" ∧ author ≠ "" ∧ '|' ∉ author.toList ∧ x.2 ≠ "" ∧
    x.1 = groupReadReceiptQueueKey gid author

def stored (blob : List Entry) : List (Key × MsgId) := blob.filterMap Entry.listed

theorem rtake_author (before : Key) {author : List Char} (h : '|' ∉ author) :
    (before ++ '|' :: author).rdropWhile (· ≠ '|') = before ++ ['|'] ∧
      (before ++ '|' :: author).rtakeWhile (· ≠ '|') = author := by
  have hplain : ∀ c ∈ author.reverse, decide (c ≠ '|') = true := by
    intro c hc
    rw [decide_eq_true_eq]
    rintro rfl
    exact h (List.mem_reverse.mp hc)
  have hreverse : (before ++ '|' :: author).reverse = author.reverse ++ '|' :: before.reverse := by
    rw [List.reverse_append, List.reverse_cons, List.append_assoc, List.singleton_append]
  constructor
  · rw [List.rdropWhile, hreverse, List.dropWhile_append_of_pos hplain, List.dropWhile_cons_of_neg (by simp),
      List.reverse_cons, List.reverse_reverse]
  · rw [List.rtakeWhile, hreverse, List.takeWhile_append_of_pos hplain, List.takeWhile_cons_of_neg (by simp),
      List.append_nil, List.reverse_reverse]

theorem splitKey_key {gid author : String} (hgid : gid ≠ "") (hauthor : '|' ∉ author.toList) :
    splitKey (groupReadReceiptQueueKey gid author) = some (gid, author) := by
  obtain ⟨hdrop, htake⟩ := rtake_author gid.toList hauthor
  have hne : gid.toList ≠ [] := fun hnil => hgid (String.toList_eq_nil_iff.mp hnil)
  rw [splitKey, groupReadReceiptQueueKey, hdrop, htake, List.dropLast_concat, if_neg hne,
    String.ofList_toList, String.ofList_toList]

/-- The parts make the key again. -/
theorem key_of_splitKey {key : Key} {gid author : String} (h : splitKey key = some (gid, author)) :
    groupReadReceiptQueueKey gid author = key := by
  unfold splitKey at h
  dsimp only at h
  split_ifs at h with hnil
  obtain ⟨rfl, rfl⟩ := Prod.mk.inj (Option.some.inj h)
  have hne : key.rdropWhile (· ≠ '|') ≠ [] := by
    intro hempty
    rw [hempty] at hnil
    exact hnil rfl
  have hlast := List.rdropWhile_last_not (· ≠ '|') key hne
  have hbar : (key.rdropWhile (· ≠ '|')).getLast hne = '|' := by simpa using hlast
  have hparts := List.rdropWhile_append_rtakeWhile (p := (· ≠ '|')) (l := key)
  rw [groupReadReceiptQueueKey, String.toList_ofList, String.toList_ofList]
  conv_rhs => rw [← hparts, ← List.dropLast_append_getLast hne, hbar]
  rw [List.append_assoc, List.singleton_append]

theorem named_of_listed {entry : Entry} {x : Key × MsgId} (h : entry.listed = some x) :
    entry.named = some x := by
  cases entry with
  | triple gid author msgID =>
    simp only [Entry.listed] at h
    split_ifs at h
    exact h
  | _ => contradiction

theorem wellFormed_of_listed {entry : Entry} {x : Key × MsgId} (h : entry.listed = some x) : WellFormed x := by
  cases entry with
  | triple gid author msgID =>
    simp only [Entry.listed] at h
    split_ifs at h with hbar
    simp only [Entry.named] at h
    split_ifs at h with hempty
    rw [not_or, not_or] at hempty
    obtain rfl := Option.some.inj h
    exact ⟨gid, author, hempty.1, hempty.2.1, hbar, hempty.2.2, rfl⟩
  | _ => contradiction

theorem wellFormed_of_stored {blob : List Entry} {x : Key × MsgId} (h : x ∈ stored blob) : WellFormed x := by
  obtain ⟨entry, -, hentry⟩ := List.mem_filterMap.mp h
  exact wellFormed_of_listed hentry

theorem listed_of_wellFormed {gid author msgID : String} (hgid : gid ≠ "") (hauthor : author ≠ "")
    (hbar : '|' ∉ author.toList) (hid : msgID ≠ "") :
    (Entry.triple gid author msgID).listed = some (groupReadReceiptQueueKey gid author, msgID) := by
  simp only [Entry.listed, Entry.named, if_neg hbar, hgid, hauthor, hid, or_self, if_false]

/-! ## The map -/

/-- A map of sets that keeps the order of insertion, of the keys and in each set. -/
@[ext] structure Queue where
  keys : List Key
  ids : Key → List MsgId
  keys_nodup : keys.Nodup
  ids_nodup : ∀ key, (ids key).Nodup
  absent : ∀ key, key ∉ keys → ids key = []

namespace Queue

def empty : Queue := ⟨[], fun _ => [], List.nodup_nil, fun _ => List.nodup_nil, fun _ _ => rfl⟩

instance : Membership (Key × MsgId) Queue := ⟨fun queue x => x.2 ∈ queue.ids x.1⟩

instance (x : Key × MsgId) (queue : Queue) : Decidable (x ∈ queue) :=
  inferInstanceAs (Decidable (x.2 ∈ queue.ids x.1))

/-- The set of a key is replaced; a new key comes last. -/
def update (queue : Queue) (key : Key) (set : List MsgId) (hset : set.Nodup) : Queue where
  keys := if key ∈ queue.keys then queue.keys else queue.keys ++ [key]
  ids := Function.update queue.ids key set
  keys_nodup := by
    split_ifs with hkey
    · exact queue.keys_nodup
    · refine List.nodup_append.mpr ⟨queue.keys_nodup, List.nodup_singleton key, ?_⟩
      rintro other hother _ hmem rfl
      rw [List.mem_singleton] at hmem
      exact hkey (hmem ▸ hother)
  ids_nodup := by
    intro other
    by_cases hother : other = key
    · rw [hother, Function.update_self]
      exact hset
    · rw [Function.update_of_ne hother]
      exact queue.ids_nodup other
  absent := by
    intro other hother
    have hne : other ≠ key := by
      rintro rfl
      refine hother ?_
      split_ifs with hkey
      · exact hkey
      · exact List.mem_append_right _ (List.mem_singleton_self _)
    rw [Function.update_of_ne hne]
    refine queue.absent other fun hmem => hother ?_
    split_ifs
    · exact hmem
    · exact List.mem_append_left _ hmem

def remove (queue : Queue) (key : Key) : Queue where
  keys := queue.keys.filter (· ≠ key)
  ids := Function.update queue.ids key []
  keys_nodup := queue.keys_nodup.filter _
  ids_nodup := by
    intro other
    by_cases hother : other = key
    · rw [hother, Function.update_self]
      exact List.nodup_nil
    · rw [Function.update_of_ne hother]
      exact queue.ids_nodup other
  absent := by
    intro other hother
    by_cases hne : other = key
    · rw [hne, Function.update_self]
    · rw [Function.update_of_ne hne]
      refine queue.absent other fun hmem => hother (List.mem_filter.mpr ⟨hmem, ?_⟩)
      exact decide_eq_true hne

def add (queue : Queue) (key : Key) (msgIDs : List MsgId) : Queue :=
  queue.update key (addAll (queue.ids key) msgIDs) (nodup_addAll msgIDs _ (queue.ids_nodup key))

/-- The pair that has waited longest makes room for a new one. -/
def makeRoom (queue : Queue) (key : Key) : Queue :=
  if key ∉ queue.keys ∧ 64 ≤ queue.keys.length then queue.keys.head?.elim queue queue.remove else queue

def applyGroupReadReceiptPark (queue : Queue) (key : Key) (msgIDs : List MsgId) : Queue :=
  let room := queue.makeRoom key
  room.update key (cap (addAll (room.ids key) msgIDs))
    (nodup_cap (nodup_addAll msgIDs _ (room.ids_nodup key)))

/-- The bound of one author again. -/
def capAt (queue : Queue) (key : Key) : Queue :=
  if key ∈ queue.keys then queue.update key (cap (queue.ids key)) (nodup_cap (queue.ids_nodup key))
  else queue

/-- An entry is taken over within the bounds. -/
def recoverEntry (queue : Queue) (entry : Entry) : Queue :=
  match entry.named with
  | none => queue
  | some (key, msgID) =>
    if key ∉ queue.keys ∧ 64 ≤ queue.keys.length then queue
    else if 200 ≤ (queue.ids key).length ∧ msgID ∉ queue.ids key then queue
    else queue.add key [msgID]

/-- The loop over the stored list; an entry that does not decode ends it. -/
def recover (queue : Queue) (blob : List Entry) : Queue :=
  (blob.takeWhile (· ≠ .undecodable)).foldl recoverEntry queue

/-- What is written: a triple for each id. -/
def flat (queue : Queue) : List Entry :=
  queue.keys.flatMap fun key => match splitKey key with
    | none => []
    | some (gid, author) => (queue.ids key).map (.triple gid author)

variable {queue : Queue} {key : Key} {msgIDs set : List MsgId} {x : Key × MsgId}

theorem mem_update {hset : set.Nodup} :
    x ∈ queue.update key set hset ↔ if x.1 = key then x.2 ∈ set else x ∈ queue := by
  change x.2 ∈ Function.update queue.ids key set x.1 ↔ _
  by_cases hx : x.1 = key
  · rw [if_pos hx, hx, Function.update_self]
  · rw [if_neg hx, Function.update_of_ne hx]
    rfl

theorem mem_remove : x ∈ queue.remove key ↔ x.1 ≠ key ∧ x ∈ queue := by
  change x.2 ∈ Function.update queue.ids key [] x.1 ↔ _
  by_cases hx : x.1 = key
  · rw [hx, Function.update_self]
    exact iff_of_false List.not_mem_nil fun h => h.1 rfl
  · rw [Function.update_of_ne hx]
    exact ⟨fun h => ⟨hx, h⟩, fun h => h.2⟩

theorem key_of_mem (h : x ∈ queue) : x.1 ∈ queue.keys := by
  by_contra hnot
  have hids : x.2 ∈ queue.ids x.1 := h
  rw [queue.absent x.1 hnot] at hids
  exact List.not_mem_nil hids

theorem mem_add : x ∈ queue.add key msgIDs ↔ x ∈ queue ∨ x.1 = key ∧ x.2 ∈ msgIDs := by
  rw [add, mem_update]
  split_ifs with hx
  · rw [mem_addAll, ← hx]
    exact or_congr_right ⟨fun h => ⟨rfl, h⟩, fun h => h.2⟩
  · exact ⟨.inl, fun h => h.resolve_right fun h => hx h.1⟩

/-- Every well-formed id is written. -/
theorem stored_flat (h : x ∈ queue) (hx : WellFormed x) : x ∈ stored queue.flat := by
  obtain ⟨gid, author, hgid, hauthor, hbar, hid, hkey⟩ := hx
  refine List.mem_filterMap.mpr ⟨.triple gid author x.2, ?_, ?_⟩
  · refine List.mem_flatMap.mpr ⟨x.1, key_of_mem h, ?_⟩
    rw [hkey, splitKey_key hgid hbar, ← hkey]
    exact List.mem_map_of_mem h
  · rw [listed_of_wellFormed hgid hauthor hbar hid, ← hkey]

/-- Nothing is written of a key that is not in the map. -/
theorem isOf_flat {entry : Entry} (hkey : key ∉ queue.keys) (h : entry ∈ queue.flat) :
    entry.isOf key = false := by
  obtain ⟨other, hother, hentry⟩ := List.mem_flatMap.mp h
  cases hsplit : splitKey other with
  | none =>
    rw [hsplit] at hentry
    exact absurd hentry List.not_mem_nil
  | some parts =>
    obtain ⟨gid, author⟩ := parts
    rw [hsplit] at hentry
    obtain ⟨msgID, -, rfl⟩ := List.mem_map.mp hentry
    rw [Entry.isOf, key_of_splitKey hsplit, decide_eq_false_iff_not]
    rintro rfl
    exact hkey hother

theorem capAt_eq (h : (queue.ids key).length ≤ 200) : queue.capAt key = queue := by
  unfold capAt
  split_ifs with hkey
  · have hdrop : (queue.ids key).length - 200 = 0 := by omega
    have hcap : cap (queue.ids key) = queue.ids key := by
      rw [cap_eq_drop, hdrop, List.drop_zero]
    ext1
    · exact if_pos hkey
    · change Function.update queue.ids key (cap (queue.ids key)) = queue.ids
      rw [hcap, Function.update_eq_self]
  · rfl

/-! ### A recovery within the bounds -/

def idsIn (blob : List Entry) (key : Key) : List MsgId :=
  ((blob.filterMap Entry.named).filter (·.1 = key)).map Prod.snd

def keysIn (blob : List Entry) : List Key := (blob.filterMap Entry.named).map Prod.fst

/-- The map and the stored list are together within the bounds. -/
def Fits (queue : Queue) (blob : List Entry) : Prop :=
  (queue.keys ++ keysIn blob).dedup.length ≤ 64 ∧
    ∀ key ∈ queue.keys ++ keysIn blob, (queue.ids key ++ idsIn blob key).dedup.length ≤ 200

instance (queue : Queue) (blob : List Entry) : Decidable (queue.Fits blob) :=
  inferInstanceAs (Decidable (_ ∧ _))

/-- The map has only these keys and ids. -/
def Within (keys : List Key) (ids : Key → List MsgId) (queue : Queue) : Prop :=
  queue.keys ⊆ keys ∧ ∀ key, queue.ids key ⊆ ids key

theorem length_le_of_subset {α : Type} [DecidableEq α] {list list' : List α} (h : list.Nodup)
    (hsub : list ⊆ list') : list.length ≤ list'.dedup.length :=
  (List.subperm_of_subset h fun _ hx => List.mem_dedup.mpr (hsub hx)).length_le

/-- An entry is taken over when all keys and ids are within the bounds. -/
theorem recoverEntry_spec {keys : List Key} {ids : Key → List MsgId} (hkeys : keys.dedup.length ≤ 64)
    (hids : ∀ key ∈ keys, (ids key).dedup.length ≤ 200) (h : queue.Within keys ids) {entry : Entry}
    (hentry : ∀ x, entry.named = some x → x.1 ∈ keys ∧ x.2 ∈ ids x.1) :
    (queue.recoverEntry entry).Within keys ids ∧ (∀ x ∈ queue, x ∈ queue.recoverEntry entry) ∧
      ∀ x, entry.named = some x → x ∈ queue.recoverEntry entry := by
  unfold recoverEntry
  cases hnamed : entry.named with
  | none => exact ⟨h, fun _ hx => hx, fun _ hx => by contradiction⟩
  | some x =>
    obtain ⟨key, msgID⟩ := x
    obtain ⟨hkey, hid⟩ : key ∈ keys ∧ msgID ∈ ids key := hentry _ hnamed
    have hroom : ¬ (key ∉ queue.keys ∧ 64 ≤ queue.keys.length) := by
      intro hfull
      have hlength := length_le_of_subset (List.nodup_cons.mpr ⟨hfull.1, queue.keys_nodup⟩)
        (List.cons_subset.mpr ⟨hkey, h.1⟩)
      rw [List.length_cons] at hlength
      omega
    have hplace : ¬ (200 ≤ (queue.ids key).length ∧ msgID ∉ queue.ids key) := by
      intro hfull
      have hlength := length_le_of_subset (List.nodup_cons.mpr ⟨hfull.2, queue.ids_nodup key⟩)
        (List.cons_subset.mpr ⟨hid, h.2 key⟩)
      have hbound := hids key hkey
      rw [List.length_cons] at hlength
      omega
    dsimp only
    rw [if_neg hroom, if_neg hplace]
    refine ⟨⟨?_, ?_⟩, fun y hy => mem_add.mpr (.inl hy), fun y hy => ?_⟩
    · intro other hother
      change other ∈ (if key ∈ queue.keys then queue.keys else queue.keys ++ [key]) at hother
      split_ifs at hother
      · exact h.1 hother
      · rcases List.mem_append.mp hother with hother | hother
        · exact h.1 hother
        · rw [List.mem_singleton.mp hother]
          exact hkey
    · intro other id hother
      rcases mem_add.mp (show (other, id) ∈ queue.add key [msgID] from hother) with hold | ⟨hsame, hnew⟩
      · exact h.2 other hold
      · rw [show other = key from hsame, show id = msgID from List.mem_singleton.mp hnew]
        exact hid
    · obtain rfl := Option.some.inj hy
      exact mem_add.mpr (.inr ⟨rfl, List.mem_singleton_self _⟩)

theorem foldl_recoverEntry {keys : List Key} {ids : Key → List MsgId} (hkeys : keys.dedup.length ≤ 64)
    (hids : ∀ key ∈ keys, (ids key).dedup.length ≤ 200) (entries : List Entry) :
    ∀ queue : Queue, queue.Within keys ids →
      (∀ entry ∈ entries, ∀ x, entry.named = some x → x.1 ∈ keys ∧ x.2 ∈ ids x.1) →
      (∀ x ∈ queue, x ∈ entries.foldl recoverEntry queue) ∧
        ∀ entry ∈ entries, ∀ x, entry.named = some x → x ∈ entries.foldl recoverEntry queue := by
  induction entries with
  | nil => exact fun _ _ _ => ⟨fun _ hx => hx, fun _ he => absurd he List.not_mem_nil⟩
  | cons entry entries ih =>
    intro queue hin hnames
    obtain ⟨hfirst, hrest⟩ := List.forall_mem_cons.mp hnames
    obtain ⟨hwithin, hkept, hnew⟩ := recoverEntry_spec hkeys hids hin hfirst
    obtain ⟨hstay, hall⟩ := ih (queue.recoverEntry entry) hwithin hrest
    refine ⟨fun x hx => hstay x (hkept x hx), List.forall_mem_cons.mpr ⟨fun x hx => ?_, hall⟩⟩
    exact hstay x (hnew x hx)

theorem recover_spec {blob : List Entry} (h : queue.Fits blob)
    (hdecodes : stored (blob.dropWhile (· ≠ .undecodable)) = []) :
    (∀ x ∈ queue, x ∈ queue.recover blob) ∧ ∀ x ∈ stored blob, x ∈ queue.recover blob := by
  have hin : queue.Within (queue.keys ++ keysIn blob) fun key => queue.ids key ++ idsIn blob key :=
    ⟨List.subset_append_left _ _, fun _ => List.subset_append_left _ _⟩
  have hnames : ∀ entry ∈ blob.takeWhile (· ≠ .undecodable), ∀ x, entry.named = some x →
      x.1 ∈ queue.keys ++ keysIn blob ∧ x.2 ∈ queue.ids x.1 ++ idsIn blob x.1 := by
    intro entry hentry x hx
    have hmem : x ∈ blob.filterMap Entry.named :=
      List.mem_filterMap.mpr ⟨entry, (List.takeWhile_sublist _).subset hentry, hx⟩
    refine ⟨List.mem_append_right _ (List.mem_map_of_mem hmem), List.mem_append_right _ ?_⟩
    exact List.mem_map_of_mem (List.mem_filter.mpr ⟨hmem, decide_eq_true rfl⟩)
  obtain ⟨hkept, hall⟩ := foldl_recoverEntry h.1 h.2 _ queue hin hnames
  refine ⟨hkept, fun x hx => ?_⟩
  rw [stored, ← List.takeWhile_append_dropWhile (p := (· ≠ Entry.undecodable)) (l := blob),
    List.filterMap_append, List.mem_append] at hx
  rcases hx with hx | hx
  · obtain ⟨entry, hentry, hlisted⟩ := List.mem_filterMap.mp hx
    exact hall entry hentry x (named_of_listed hlisted)
  · rw [stored] at hdecodes
    rw [hdecodes] at hx
    exact absurd hx List.not_mem_nil

/-! ### The bounds and the order -/

structure Bounded (queue : Queue) : Prop where
  keys : queue.keys.length ≤ 64
  ids : ∀ key, (queue.ids key).length ≤ 200

/-- The keys and the ids of each key are listed in the order in which they came. -/
structure Ordered (scopes : List Key) (arrived : List (Key × MsgId)) (queue : Queue) : Prop where
  keys : InOrder scopes queue.keys
  ids : ∀ key, InOrder arrived ((queue.ids key).map (key, ·))

theorem Bounded.update (h : queue.Bounded) {hset : set.Nodup} (hroom : key ∈ queue.keys ∨ queue.keys.length < 64)
    (hlength : set.length ≤ 200) : (queue.update key set hset).Bounded := by
  refine ⟨?_, fun other => ?_⟩
  · change (if key ∈ queue.keys then queue.keys else queue.keys ++ [key]).length ≤ 64
    split_ifs with hkey
    · exact h.keys
    · have hless := hroom.resolve_left hkey
      rw [List.length_append, List.length_singleton]
      omega
  · change (Function.update queue.ids key set other).length ≤ 200
    by_cases hother : other = key
    · rw [hother, Function.update_self]
      exact hlength
    · rw [Function.update_of_ne hother]
      exact h.ids other

theorem Bounded.remove (h : queue.Bounded) (key : Key) : (queue.remove key).Bounded := by
  refine ⟨(List.length_filter_le _ _).trans h.keys, fun other => ?_⟩
  change (Function.update queue.ids key [] other).length ≤ 200
  by_cases hother : other = key
  · rw [hother, Function.update_self]
    exact Nat.zero_le _
  · rw [Function.update_of_ne hother]
    exact h.ids other

theorem Ordered.remove {scopes : List Key} {arrived : List (Key × MsgId)} (h : queue.Ordered scopes arrived)
    (key : Key) : (queue.remove key).Ordered scopes arrived := by
  refine ⟨h.keys.sublist List.filter_sublist, fun other => ?_⟩
  change InOrder arrived ((Function.update queue.ids key [] other).map (other, ·))
  by_cases hother : other = key
  · rw [hother, Function.update_self]
    exact inOrder_nil arrived
  · rw [Function.update_of_ne hother]
    exact h.ids other

theorem Bounded.recoverEntry (h : queue.Bounded) (entry : Entry) : (queue.recoverEntry entry).Bounded := by
  unfold Queue.recoverEntry
  cases entry.named with
  | none => exact h
  | some x =>
    obtain ⟨key, msgID⟩ := x
    dsimp only
    split_ifs with hfull hplace
    · exact h
    · exact h
    · refine h.update ?_ ?_
      · rw [not_and_or, not_not, not_le] at hfull
        exact hfull
      · change (if msgID ∈ queue.ids key then queue.ids key else queue.ids key ++ [msgID]).length ≤ 200
        rw [not_and_or, not_not, not_le] at hplace
        split_ifs with hmem
        · exact h.ids key
        · have hless := hplace.resolve_right hmem
          rw [List.length_append, List.length_singleton]
          omega

theorem Bounded.recover (h : queue.Bounded) (blob : List Entry) : (queue.recover blob).Bounded := by
  unfold Queue.recover
  induction blob.takeWhile (· ≠ .undecodable) generalizing queue with
  | nil => exact h
  | cons entry entries ih => exact ih (h.recoverEntry entry)

/-- All ids, key by key. -/
def pairs (queue : Queue) : List (Key × MsgId) :=
  queue.keys.flatMap fun key => (queue.ids key).map (key, ·)

/-- A map in the order of its own list. -/
theorem ordered_self (queue : Queue) : queue.Ordered queue.keys queue.pairs := by
  have hnodup : queue.pairs.Nodup := by
    refine List.nodup_flatMap.mpr ⟨fun key _ => (queue.ids_nodup key).map fun _ _ heq => (Prod.mk.inj heq).2, ?_⟩
    refine queue.keys_nodup.imp fun hne x hx hy => hne ?_
    obtain ⟨_, -, rfl⟩ := List.mem_map.mp hx
    obtain ⟨_, -, heq⟩ := List.mem_map.mp hy
    exact (congrArg Prod.fst heq).symm
  refine ⟨inOrder_self queue.keys_nodup, fun key => ?_⟩
  by_cases hkey : key ∈ queue.keys
  · obtain ⟨before, after, hsplit⟩ := List.append_of_mem hkey
    refine (inOrder_self hnodup).sublist ?_
    rw [pairs, hsplit, List.flatMap_append, List.flatMap_cons]
    exact (List.sublist_append_left _ _).trans (List.sublist_append_right _ _)
  · rw [queue.absent key hkey]
    exact inOrder_nil _

/-! ### A park -/

/-- The ids that are new to a set. -/
def fresh (set ids : List MsgId) : List MsgId := (addAll set ids).drop set.length

theorem addAll_fresh (set ids : List MsgId) : addAll set ids = set ++ fresh set ids := by
  have hstart : set <+: addAll set ids := by
    induction ids generalizing set with
    | nil => exact List.prefix_rfl
    | cons id ids ih =>
      have hstep : addAll set (id :: ids) = addAll (if id ∈ set then set else set ++ [id]) ids := rfl
      rw [hstep]
      refine List.IsPrefix.trans ?_ (ih _)
      split_ifs
      · exact List.prefix_rfl
      · exact List.prefix_append _ _
  obtain ⟨rest, hrest⟩ := hstart
  rw [fresh, ← hrest, List.drop_left]

theorem makeRoom_first (hnew : key ∉ queue.keys) (hfull : 64 ≤ queue.keys.length) :
    ∃ first rest, queue.keys = first :: rest ∧ queue.makeRoom key = queue.remove first ∧
      (queue.makeRoom key).keys = rest := by
  obtain ⟨first, rest, hkeys⟩ : ∃ first rest, queue.keys = first :: rest := by
    refine List.exists_cons_of_ne_nil fun hnil => ?_
    rw [hnil] at hfull
    contradiction
  have hroom : queue.makeRoom key = queue.remove first := by
    rw [makeRoom, if_pos ⟨hnew, hfull⟩, hkeys]
    rfl
  refine ⟨first, rest, hkeys, hroom, ?_⟩
  have hnodup := queue.keys_nodup
  rw [hkeys] at hnodup
  obtain ⟨hfirst, -⟩ := List.nodup_cons.mp hnodup
  rw [hroom]
  change queue.keys.filter (· ≠ first) = rest
  rw [hkeys, List.filter_cons_of_neg (by simp)]
  exact List.filter_eq_self.mpr fun other hother => decide_eq_true fun heq => hfirst (heq ▸ hother)

theorem makeRoom_same (h : key ∈ queue.keys ∨ queue.keys.length < 64) : queue.makeRoom key = queue := by
  refine if_neg ?_
  rw [not_and_or, not_not, not_le]
  exact h

theorem Bounded.makeRoom (h : queue.Bounded) (key : Key) : (queue.makeRoom key).Bounded := by
  unfold Queue.makeRoom
  split_ifs
  · cases queue.keys.head? with
    | none => exact h
    | some first => exact h.remove first
  · exact h

theorem Ordered.makeRoom {scopes : List Key} {arrived : List (Key × MsgId)} (h : queue.Ordered scopes arrived)
    (key : Key) : (queue.makeRoom key).Ordered scopes arrived := by
  unfold Queue.makeRoom
  split_ifs
  · cases queue.keys.head? with
    | none => exact h
    | some first => exact h.remove first
  · exact h

/-- There is room for the key. -/
theorem room_makeRoom (h : queue.Bounded) (key : Key) :
    key ∈ (queue.makeRoom key).keys ∨ (queue.makeRoom key).keys.length < 64 := by
  by_cases hroom : key ∈ queue.keys ∨ queue.keys.length < 64
  · rw [makeRoom_same hroom]
    exact hroom
  · rw [not_or, not_lt] at hroom
    obtain ⟨first, rest, hkeys, -, hrest⟩ := makeRoom_first hroom.1 hroom.2
    have hbound := h.keys
    rw [hkeys, List.length_cons] at hbound
    rw [hrest]
    exact .inr (by omega)

theorem cap_length (set : List MsgId) : (cap set).length ≤ 200 := by
  rw [cap_eq_drop, List.length_drop]
  omega

theorem Bounded.park (h : queue.Bounded) (key : Key) (msgIDs : List MsgId) :
    (queue.applyGroupReadReceiptPark key msgIDs).Bounded := by
  unfold applyGroupReadReceiptPark
  exact (h.makeRoom key).update (room_makeRoom h key) (cap_length _)

/-- The keys and ids that come with a park. -/
def scopesAfter (queue : Queue) (key : Key) (scopes : List Key) : List Key :=
  if key ∈ (queue.makeRoom key).keys then scopes else scopes ++ [key]

def arrivedAfter (queue : Queue) (key : Key) (msgIDs : List MsgId) (arrived : List (Key × MsgId)) :
    List (Key × MsgId) :=
  arrived ++ (fresh ((queue.makeRoom key).ids key) msgIDs).map (key, ·)

section
variable {scopes : List Key} {arrived : List (Key × MsgId)}

/-- Before the bound is applied again. -/
theorem Ordered.parked (h : queue.Ordered scopes arrived) (key : Key) (msgIDs : List MsgId) :
    InOrder (queue.arrivedAfter key msgIDs arrived)
      ((addAll ((queue.makeRoom key).ids key) msgIDs).map (key, ·)) := by
  have hnodup := nodup_addAll msgIDs _ ((queue.makeRoom key).ids_nodup key)
  rw [addAll_fresh] at hnodup ⊢
  rw [List.map_append]
  refine ((h.makeRoom key).ids key).append ?_
  rw [← List.map_append]
  exact hnodup.map fun _ _ heq => (Prod.mk.inj heq).2

theorem Ordered.scoped (h : queue.Ordered scopes arrived) (key : Key) (msgIDs : List MsgId) :
    InOrder (queue.scopesAfter key scopes) (queue.applyGroupReadReceiptPark key msgIDs).keys := by
  change InOrder (queue.scopesAfter key scopes) (if key ∈ (queue.makeRoom key).keys then
    (queue.makeRoom key).keys else (queue.makeRoom key).keys ++ [key])
  unfold scopesAfter
  have hroom := (h.makeRoom key).keys
  split_ifs with hkey
  · exact hroom
  · refine hroom.append (List.nodup_append.mpr ⟨(queue.makeRoom key).keys_nodup, List.nodup_singleton key, ?_⟩)
    intro other hother new hnew heq
    rw [← heq, List.mem_singleton] at hnew
    exact hkey (hnew ▸ hother)

theorem Ordered.park (h : queue.Ordered scopes arrived) (key : Key) (msgIDs : List MsgId) :
    (queue.applyGroupReadReceiptPark key msgIDs).Ordered (queue.scopesAfter key scopes)
      (queue.arrivedAfter key msgIDs arrived) := by
  refine ⟨h.scoped key msgIDs, fun other => ?_⟩
  change InOrder _ ((Function.update (queue.makeRoom key).ids key _ other).map (other, ·))
  by_cases hother : other = key
  · subst hother
    rw [Function.update_self, cap_eq_drop]
    exact (h.parked other msgIDs).sublist ((List.drop_sublist _ _).map _)
  · rw [Function.update_of_ne hother]
    refine ((h.makeRoom key).ids other).beside fun x hx hnew => ?_
    obtain ⟨_, -, rfl⟩ := List.mem_map.mp hx
    obtain ⟨_, -, heq⟩ := List.mem_map.mp hnew
    exact hother (congrArg Prod.fst heq).symm

/-- What the bound of a scope takes away came before the 200 ids that stay. -/
theorem Ordered.overflows (h : queue.Ordered scopes arrived) {key : Key} {msgIDs : List MsgId} {id : MsgId}
    (hid : id ∈ addAll ((queue.makeRoom key).ids key) msgIDs)
    (hgone : (key, id) ∉ queue.applyGroupReadReceiptPark key msgIDs) :
    ((queue.applyGroupReadReceiptPark key msgIDs).ids key).length = 200 ∧
      ∀ new ∈ (queue.applyGroupReadReceiptPark key msgIDs).ids key,
        CameAfter (queue.arrivedAfter key msgIDs arrived) (key, new) (key, id) := by
  have hids : (queue.applyGroupReadReceiptPark key msgIDs).ids key =
      cap (addAll ((queue.makeRoom key).ids key) msgIDs) := Function.update_self ..
  have hnot : id ∉ cap (addAll ((queue.makeRoom key).ids key) msgIDs) := by
    rw [← hids]
    exact hgone
  have hover : id ∈ overflow (addAll ((queue.makeRoom key).ids key) msgIDs) := by
    by_contra hkept
    exact hnot (mem_cap hid hkept)
  rw [hids]
  constructor
  · have hlength := congrArg List.length (overflow_append_cap (addAll ((queue.makeRoom key).ids key) msgIDs))
    have hpos := List.length_pos_of_mem hover
    rw [cap_eq_drop, List.length_append, List.length_drop] at hlength
    rw [cap_eq_drop, List.length_drop]
    omega
  · intro new hnew
    have hpairs := (h.parked key msgIDs).2
    rw [← overflow_append_cap (addAll ((queue.makeRoom key).ids key) msgIDs), List.map_append] at hpairs
    exact (List.pairwise_append.mp hpairs).2.2 (key, id) (List.mem_map_of_mem hover) (key, new)
      (List.mem_map_of_mem hnew)

/-- Only the newest 200 of its scope and the newest 64 scopes push an id out. -/
theorem Ordered.evicted (h : queue.Ordered scopes arrived) {key : Key} {msgIDs : List MsgId} (hx : x ∈ queue)
    (hgone : x ∉ queue.applyGroupReadReceiptPark key msgIDs) :
    (64 ≤ (queue.applyGroupReadReceiptPark key msgIDs).keys.length ∧
      ∀ other ∈ (queue.applyGroupReadReceiptPark key msgIDs).keys,
        CameAfter (queue.scopesAfter key scopes) other x.1) ∨
    x.1 = key ∧ ((queue.applyGroupReadReceiptPark key msgIDs).ids key).length = 200 ∧
      ∀ id ∈ (queue.applyGroupReadReceiptPark key msgIDs).ids key,
        CameAfter (queue.arrivedAfter key msgIDs arrived) (key, id) x := by
  by_cases hroom : x ∈ queue.makeRoom key
  · -- the set of the key overflows
    right
    have hkey : x.1 = key := by
      by_contra hne
      refine hgone ?_
      unfold applyGroupReadReceiptPark
      dsimp only
      rw [mem_update, if_neg hne]
      exact hroom
    obtain ⟨first, id⟩ := x
    obtain rfl : first = key := hkey
    exact ⟨rfl, h.overflows ((mem_addAll _ _).mpr (.inl hroom)) hgone⟩
  · -- the first key makes room
    left
    have hfull : ¬ (key ∈ queue.keys ∨ queue.keys.length < 64) := fun hsame =>
      hroom (by rw [makeRoom_same hsame]; exact hx)
    rw [not_or, not_lt] at hfull
    obtain ⟨first, rest, hkeys, hremove, hrest⟩ := makeRoom_first hfull.1 hfull.2
    have hfirst : x.1 = first := by
      by_contra hne
      rw [hremove, mem_remove] at hroom
      exact hroom ⟨hne, hx⟩
    have hkey : key ∉ rest := fun hmem => hfull.1 (by rw [hkeys]; exact List.mem_cons_of_mem _ hmem)
    have hnew : key ∉ (queue.makeRoom key).keys := by
      rw [hrest]
      exact hkey
    have hafter : (queue.applyGroupReadReceiptPark key msgIDs).keys = rest ++ [key] := by
      change (if key ∈ (queue.makeRoom key).keys then _ else (queue.makeRoom key).keys ++ [key]) = _
      rw [if_neg hnew, hrest]
    have hlength := hfull.2
    rw [hkeys, List.length_cons] at hlength
    rw [hafter, hfirst]
    refine ⟨by rw [List.length_append, List.length_singleton]; exact hlength, ?_⟩
    have horder := h.keys
    have hnodup := queue.keys_nodup
    rw [hkeys] at horder hnodup
    have happend : InOrder (scopes ++ [key]) ((first :: rest) ++ [key]) := by
      refine horder.append (List.nodup_append.mpr ⟨hnodup, List.nodup_singleton key, ?_⟩)
      intro other hother new hnew heq
      rw [← heq, List.mem_singleton] at hnew
      exact hfull.1 (by rw [hkeys, ← hnew]; exact hother)
    rw [scopesAfter, if_neg hnew]
    exact (List.pairwise_cons.mp happend.2).1

end

/-- A park within the bounds brings its ids. -/
theorem park_brings (hroom : key ∈ queue.keys ∨ queue.keys.length < 64)
    (hplace : (addAll (queue.ids key) msgIDs).length ≤ 200) {id : MsgId} (hid : id ∈ msgIDs) :
    (key, id) ∈ queue.applyGroupReadReceiptPark key msgIDs := by
  have hdrop : (addAll (queue.ids key) msgIDs).length - 200 = 0 := by omega
  unfold applyGroupReadReceiptPark
  dsimp only
  rw [mem_update, if_pos rfl, makeRoom_same hroom, cap_eq_drop, hdrop, List.drop_zero, mem_addAll]
  exact .inr hid

/-- A park within the bounds takes nothing away. -/
theorem park_keeps (hroom : key ∈ queue.keys ∨ queue.keys.length < 64)
    (hplace : (addAll (queue.ids key) msgIDs).length ≤ 200) (hx : x ∈ queue) :
    x ∈ queue.applyGroupReadReceiptPark key msgIDs := by
  unfold applyGroupReadReceiptPark
  dsimp only
  rw [mem_update, makeRoom_same hroom]
  split_ifs with hkey
  · have hdrop : (addAll (queue.ids key) msgIDs).length - 200 = 0 := by omega
    have hold : x.2 ∈ queue.ids x.1 := hx
    rw [hkey] at hold
    rw [cap_eq_drop, hdrop, List.drop_zero, mem_addAll]
    exact .inl hold
  · exact hx

end Queue

end Tim2Tox.GroupReceiptQueue
