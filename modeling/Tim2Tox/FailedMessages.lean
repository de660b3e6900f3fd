import Mathlib.Data.List.AList
import Mathlib.Logic.Function.Basic
import Tim2Tox.DartText

set_option autoImplicit false

/-!
# The failed-message store

One preference per account holds a map from conversations to rows. A row may carry an id, a
message id, both or none. Rows written under the first sixteen characters of an account are
merged into the account's own preference before every other use.
-/
namespace Tim2Tox.FailedMessages
open DartText

inductive Json where
  | null
  | bool (b : Bool)
  | num (n : Rat)
  | str (s : Units)
  | list (items : List Json)
  | map (entries : List (Units × Json))

/-- `==`; lists and maps are equal only to themselves. -/
def Json.same : Json → Json → Bool
  | .null, .null => true
  | .bool a, .bool b => a == b
  | .num a, .num b => a == b
  | .str a, .str b => a == b
  | _, _ => false

def Json.asMap : Json → Option (List (Units × Json))
  | .map entries => some entries
  | _ => none

/-- `as String?`; `none` when it throws. -/
def Json.asString : Json → Option (Option Units)
  | .null => some none
  | .str s => some (some s)
  | _ => none

abbrev Row := List (Units × Json)

def Row.id (row : Row) : Json := (row.lookup (ofString "id")).getD .null
def Row.msgID (row : Row) : Json := (row.lookup (ofString "msgID")).getD .null

abbrev Store := AList fun _ : Units => Json

/-- The text of a preference, as `json.decode` sees it. -/
inductive Stored where
  | empty
  | malformed
  | value (v : Json)
  | store (s : Store)

abbrev Prefs := Units → Option Stored

def setString (prefs : Prefs) (key : Units) (store : Store) : Prefs :=
  Function.update prefs key (some (.store store))

def remove (prefs : Prefs) (key : Units) : Prefs := Function.update prefs key none

def persistenceKey : Units := ofString "tencent_cloud_chat_failed_messages"

def legacyAccountPrefixLen : ℕ := 16

def storageKey (accountToxId : Units) : Units :=
  if accountToxId = [] then persistenceKey else persistenceKey ++ 95 :: accountToxId

def accountKey : Option Units → Option Units
  | none => none
  | some accountToxId => if accountToxId = [] then none else some (storageKey accountToxId)

def legacyStorageKey : Option Units → Option Units
  | none => none
  | some accountToxId =>
    if accountToxId = [] then none
    else if accountToxId.length < legacyAccountPrefixLen then none
    else some (persistenceKey ++ 95 :: accountToxId.take legacyAccountPrefixLen)

/-- `none` when a cast throws. -/
def matchesMessageID (messageData : Row) (messageIDs : List Units) : Option Bool :=
  if messageIDs = [] then some false
  else messageData.id.asString.bind fun id => messageData.msgID.asString.map fun msgID =>
    id.any (messageIDs.contains ·) || msgID.any (messageIDs.contains ·)

/-- `none` when the text does not decode, `some none` when it is no map. -/
def decodeStore : Option Stored → Option (Option Store)
  | none => some none
  | some .empty => some none
  | some .malformed => none
  | some (.value _) => some none
  | some (.store s) => some (some s)

def decodeRows : Json → Option (List Row)
  | .list items => items.mapM Json.asMap
  | _ => none

def Json.text : Json → List Units
  | .str s => if s = [] then [] else [s]
  | _ => []

def Row.identifiers (row : Row) : List Units := row.id.text ++ row.msgID.text

def sameMessage (left right : Row) : Option Bool := matchesMessageID right left.identifiers

/-- `fullRows.any` -/
def anySame (legacyRow : Row) : List Row → Option Bool
  | [] => some false
  | fullRow :: rows => (sameMessage fullRow legacyRow).bind fun found =>
      if found then some true else anySame legacyRow rows

def mergeRows : List Row → List Row → Option (List Row)
  | fullRows, [] => some fullRows
  | fullRows, legacyRow :: rows => (anySame legacyRow fullRows).bind fun found =>
      mergeRows (if found then fullRows else fullRows ++ [legacyRow]) rows

def listOf (rows : List Row) : Json := .list (rows.map .map)

def mergeConversation (merged : Store) (conversation : Units) (legacyValue : Json) :
    Option Store :=
  (((merged.lookup conversation).map decodeRows).getD (some [])).bind fun fullRows =>
    (decodeRows legacyValue).bind fun legacyRows =>
      (mergeRows fullRows legacyRows).map fun rows => merged.insert conversation (listOf rows)

def mergeEntries : Store → List (Sigma fun _ : Units => Json) → Option Store
  | merged, [] => some merged
  | merged, entry :: entries =>
    (mergeConversation merged entry.1 entry.2).bind fun merged => mergeEntries merged entries

def mergeStores (fullStore legacyStore : Store) : Option Store :=
  mergeEntries fullStore legacyStore.entries

/-- The preferences afterwards; `none` when it throws, which it does before it writes. -/
def migrateLegacyPrefixKey (prefs : Prefs) (accountToxId : Option Units) : Option Prefs :=
  match accountKey accountToxId, legacyStorageKey accountToxId with
  | some newKey, some legacyKey =>
    if legacyKey = newKey then some prefs
    else (decodeStore (prefs legacyKey)).bind fun legacyStore =>
      match legacyStore with
      | none => some prefs
      | some legacyStore =>
        (if prefs newKey = none then some (some ∅) else decodeStore (prefs newKey)).bind
          fun fullStore =>
            match fullStore with
            | none => some prefs
            | some fullStore => (mergeStores fullStore legacyStore).map fun mergedStore =>
                remove (setString prefs newKey mergedStore) legacyKey
  | _, _ => some prefs

def conversationKeyOf (userID groupID : Option Units) : Units := (groupID.or userID).getD []

/-- The rows that are maps. -/
def Json.rows : Json → List Row
  | .list items => items.filterMap Json.asMap
  | _ => []

def rowsOf (store : Store) (conversationKey : Units) : List Row :=
  ((store.lookup conversationKey).map Json.rows).getD []

def stored (messageData row : Row) : Bool :=
  row.id.same messageData.id || row.msgID.same messageData.msgID

def saveRow (rows : List Row) (messageData : Row) : List Row :=
  match rows.findIdx? (stored messageData) with
  | some existingIndex => rows.set existingIndex messageData
  | none => rows ++ [messageData]

def saveFailedMessageData (prefs : Prefs) (messageData : Row)
    (userID groupID accountToxId : Option Units) : Prefs :=
  let conversationKey := conversationKeyOf userID groupID
  if conversationKey = [] then prefs
  else match accountKey accountToxId with
  | none => prefs
  | some key =>
    match migrateLegacyPrefixKey prefs accountToxId with
    | none => prefs
    | some prefs =>
      match decodeStore (prefs key) with
      | none => prefs
      | some store =>
        let failedMessagesMap := store.getD ∅
        setString prefs key (failedMessagesMap.insert conversationKey
          (listOf (saveRow (rowsOf failedMessagesMap conversationKey) messageData)))

def carries (messageID : Units) (row : Row) : Bool :=
  row.id.same (.str messageID) || row.msgID.same (.str messageID)

def putRows (store : Store) (conversationKey : Units) (rows : List Row) : Store :=
  if rows.isEmpty then store.erase conversationKey
  else store.insert conversationKey (listOf rows)

def removeFailedMessage (prefs : Prefs) (messageID : Units)
    (userID groupID accountToxId : Option Units) : Prefs :=
  match accountKey accountToxId with
  | none => prefs
  | some key =>
    match migrateLegacyPrefixKey prefs accountToxId with
    | none => prefs
    | some prefs =>
      match decodeStore (prefs key) with
      | some (some failedMessagesMap) =>
        let conversationKey := conversationKeyOf userID groupID
        if conversationKey = [] then prefs
        else match (failedMessagesMap.lookup conversationKey).bind decodeRows with
        | none => prefs
        | some rows => setString prefs key (putRows failedMessagesMap conversationKey
            (rows.filter fun row => !carries messageID row))
      | _ => prefs

/-- `where`; `none` when a cast throws. -/
def unmatched (messageIDs : List Units) : List Row → Option (List Row)
  | [] => some []
  | message :: rows => (matchesMessageID message messageIDs).bind fun found =>
      (unmatched messageIDs rows).map fun rest => if found then rest else message :: rest

/-- The entries that are looked at, the map so far and the rows removed. -/
def removeEntries (messageIDs : List Units) :
    List (Sigma fun _ : Units => Json) → Store × ℕ → Option (Store × ℕ)
  | [], result => some result
  | ⟨conversationKey, .list items⟩ :: entries, result =>
    let rows := items.filterMap Json.asMap
    (unmatched messageIDs rows).bind fun filtered =>
      removeEntries messageIDs entries
        (if filtered.length = rows.length then result
          else (putRows result.1 conversationKey filtered,
            result.2 + (rows.length - filtered.length)))
  | _ :: entries, result => removeEntries messageIDs entries result

def removeFailedMessagesByIDs (prefs : Prefs) (messageIDs : List Units)
    (accountToxId : Option Units) : Prefs × ℕ :=
  if messageIDs = [] then (prefs, 0)
  else match accountKey accountToxId with
  | none => (prefs, 0)
  | some key =>
    match migrateLegacyPrefixKey prefs accountToxId with
    | none => (prefs, 0)
    | some prefs =>
      match decodeStore (prefs key) with
      | some (some failedMessagesMap) =>
        match removeEntries messageIDs failedMessagesMap.entries (failedMessagesMap, 0) with
        | none => (prefs, 0)
        | some (failedMessagesMap, removed) =>
          (if removed > 0 then setString prefs key failedMessagesMap else prefs, removed)
      | _ => (prefs, 0)

/-! ## Rows of a conversation -/

theorem filterMap_asMap (rows : List Row) : (rows.map Json.map).filterMap Json.asMap = rows := by
  induction rows with
  | nil => rfl
  | cons row rows ih =>
    have hrow : (Json.map row).asMap = some row := rfl
    rw [List.map_cons, List.filterMap_cons_some hrow, ih]

theorem rows_listOf (rows : List Row) : (listOf rows).rows = rows := filterMap_asMap rows

theorem decodeRows_eq {v : Json} {rows : List Row} (h : decodeRows v = some rows) :
    v.rows = rows := by
  cases v with
  | list items =>
    change items.mapM Json.asMap = some rows at h
    change items.filterMap Json.asMap = rows
    induction items generalizing rows with
    | nil =>
      rw [List.mapM_nil] at h
      exact Option.some.inj h
    | cons item items ih =>
      rw [List.mapM_cons] at h
      obtain ⟨row, hrow, h⟩ := Option.bind_eq_some_iff.mp h
      obtain ⟨rest, hrest, h⟩ := Option.bind_eq_some_iff.mp h
      rw [List.filterMap_cons_some hrow, ih hrest]
      exact Option.some.inj h
  | _ => cases h

theorem rowsOf_insert (store : Store) (c c' : Units) (v : Json) :
    rowsOf (store.insert c v) c' = if c' = c then v.rows else rowsOf store c' := by
  rw [rowsOf]
  split_ifs with heq
  · rw [heq, AList.lookup_insert]
    rfl
  · rw [AList.lookup_insert_ne heq]
    rfl

theorem rowsOf_erase (store : Store) (c c' : Units) :
    rowsOf (store.erase c) c' = if c' = c then [] else rowsOf store c' := by
  rw [rowsOf]
  split_ifs with heq
  · rw [heq, AList.lookup_erase]
    rfl
  · rw [AList.lookup_erase_ne heq]
    rfl

theorem rowsOf_putRows (store : Store) (c c' : Units) (rows : List Row) :
    rowsOf (putRows store c rows) c' = if c' = c then rows else rowsOf store c' := by
  rw [putRows]
  by_cases hempty : rows.isEmpty
  · rw [if_pos hempty, rowsOf_erase, List.isEmpty_iff.mp hempty]
  · rw [if_neg hempty, rowsOf_insert, rows_listOf]

/-! ## The same message -/

def Same (left right : Row) : Prop := ∃ x ∈ left.identifiers, x ∈ right.identifiers

instance (left right : Row) : Decidable (Same left right) :=
  inferInstanceAs (Decidable (∃ x ∈ left.identifiers, x ∈ right.identifiers))

theorem mem_text {v : Json} {x : Units} : x ∈ v.text ↔ x ≠ [] ∧ v = .str x := by
  cases v with
  | str s =>
    change x ∈ (if s = [] then [] else [s]) ↔ _
    split_ifs with hempty
    · constructor
      · intro h
        cases h
      · intro h
        rw [hempty] at h
        exact absurd (Json.str.inj h.2).symm h.1
    · rw [List.mem_singleton]
      constructor
      · intro h
        rw [h]
        exact ⟨hempty, rfl⟩
      · intro h
        exact (Json.str.inj h.2).symm
  | _ =>
    constructor
    · intro h
      cases h
    · intro h
      cases h.2

theorem mem_identifiers {row : Row} {x : Units} :
    x ∈ row.identifiers ↔ x ≠ [] ∧ (row.id = .str x ∨ row.msgID = .str x) := by
  rw [Row.identifiers, List.mem_append, mem_text, mem_text]
  exact and_or_left.symm

theorem asString_any {v : Json} {o : Option Units} (h : v.asString = some o) (ids : List Units) :
    o.any (ids.contains ·) = true ↔ ∃ x ∈ ids, v = .str x := by
  cases v with
  | null =>
    obtain rfl := Option.some.inj h
    constructor
    · intro hany
      cases hany
    · intro hex
      obtain ⟨x, -, hx⟩ := hex
      cases hx
  | str s =>
    obtain rfl := Option.some.inj h
    rw [Option.any_some, List.contains_iff_mem]
    constructor
    · intro hmem
      exact ⟨s, hmem, rfl⟩
    · intro hex
      obtain ⟨x, hx, heq⟩ := hex
      rw [Json.str.inj heq]
      exact hx
  | _ => cases h

theorem matches_iff {row : Row} {ids : List Units} {found : Bool}
    (h : matchesMessageID row ids = some found) :
    found = true ↔ ∃ x ∈ ids, row.id = .str x ∨ row.msgID = .str x := by
  rw [matchesMessageID] at h
  split_ifs at h with hempty
  · rw [← Option.some.inj h, hempty]
    constructor
    · intro hfalse
      cases hfalse
    · intro hex
      obtain ⟨x, hx, -⟩ := hex
      cases hx
  · obtain ⟨id, hid, h⟩ := Option.bind_eq_some_iff.mp h
    obtain ⟨msgID, hmsgID, h⟩ := Option.map_eq_some_iff.mp h
    rw [← h, Bool.or_eq_true, asString_any hid, asString_any hmsgID, ← exists_or]
    apply exists_congr
    intro x
    exact and_or_left.symm

theorem sameMessage_iff {left right : Row} {found : Bool}
    (h : sameMessage left right = some found) : found = true ↔ Same left right := by
  rw [matches_iff h]
  apply exists_congr
  intro x
  apply and_congr_right
  intro hx
  rw [mem_identifiers]
  exact (and_iff_right (mem_identifiers.mp hx).1).symm

theorem anySame_iff {legacyRow : Row} {rows : List Row} {found : Bool}
    (h : anySame legacyRow rows = some found) :
    found = true ↔ ∃ row ∈ rows, Same row legacyRow := by
  induction rows with
  | nil =>
    rw [← Option.some.inj h]
    constructor
    · intro hfalse
      cases hfalse
    · intro hex
      obtain ⟨row, hrow, -⟩ := hex
      cases hrow
  | cons row rows ih =>
    obtain ⟨first, hfirst, h⟩ := Option.bind_eq_some_iff.mp h
    have hsame := sameMessage_iff hfirst
    cases first with
    | true =>
      rw [← Option.some.inj h]
      exact iff_of_true rfl ⟨row, List.mem_cons_self, hsame.mp rfl⟩
    | false =>
      rw [ih h, List.exists_mem_cons_iff]
      constructor
      · exact Or.inr
      · intro hex
        rcases hex with hhere | hthere
        · cases hsame.mpr hhere
        · exact hthere

/-! ## Merging -/

/-- The rows of both lists: the first list, then rows of the second that are the same message as no
    row before them. -/
structure Union (full legacy merged : List Row) : Prop where
  added : ∃ added, merged = full ++ added ∧ added.Sublist legacy
  covered : ∀ row ∈ legacy, row ∈ merged ∨ ∃ kept ∈ merged, Same kept row
  apart : ∀ earlier row later, merged = earlier ++ row :: later → full.length ≤ earlier.length →
    ∀ kept ∈ earlier, ¬ Same kept row

theorem Union.nil (full : List Row) : Union full [] full := by
  refine ⟨⟨[], (List.append_nil full).symm, List.Sublist.refl []⟩, ?_, ?_⟩
  · intro row hrow
    cases hrow
  · intro earlier row later hsplit hlen
    have hlength := congrArg List.length hsplit
    rw [List.length_append, List.length_cons] at hlength
    omega

theorem Union.skip {full legacy merged : List Row} {row : Row}
    (hsame : ∃ kept ∈ full, Same kept row) (h : Union full legacy merged) :
    Union full (row :: legacy) merged := by
  obtain ⟨added, hmerged, hsub⟩ := h.added
  refine ⟨⟨added, hmerged, hsub.cons row⟩, ?_, h.apart⟩
  intro other hother
  rcases List.mem_cons.mp hother with rfl | hrest
  · obtain ⟨kept, hkept, hsame⟩ := hsame
    right
    refine ⟨kept, ?_, hsame⟩
    rw [hmerged]
    exact List.mem_append_left _ hkept
  · exact h.covered other hrest

theorem Union.take {full legacy merged : List Row} {row : Row}
    (hnew : ¬ ∃ kept ∈ full, Same kept row) (h : Union (full ++ [row]) legacy merged) :
    Union full (row :: legacy) merged := by
  obtain ⟨added, hmerged, hsub⟩ := h.added
  rw [List.append_assoc, List.singleton_append] at hmerged
  refine ⟨⟨row :: added, hmerged, hsub.cons_cons row⟩, ?_, ?_⟩
  · intro other hother
    rcases List.mem_cons.mp hother with rfl | hrest
    · left
      rw [hmerged]
      exact List.mem_append_right _ List.mem_cons_self
    · exact h.covered other hrest
  · intro earlier other later hsplit hlen kept hkept hsame
    by_cases hfirst : earlier.length = full.length
    · rw [hmerged] at hsplit
      obtain ⟨hearlier, hrest⟩ := List.append_inj hsplit hfirst.symm
      rw [← hearlier] at hkept
      rw [← (List.cons.inj hrest).1] at hsame
      exact hnew ⟨kept, hkept, hsame⟩
    · apply h.apart earlier other later hsplit _ kept hkept hsame
      rw [List.length_append, List.length_singleton]
      omega

theorem mergeRows_union {full legacy merged : List Row}
    (h : mergeRows full legacy = some merged) : Union full legacy merged := by
  induction legacy generalizing full with
  | nil =>
    rw [← Option.some.inj h]
    exact Union.nil full
  | cons row legacy ih =>
    obtain ⟨found, hfound, h⟩ := Option.bind_eq_some_iff.mp h
    have hsame := anySame_iff hfound
    cases found with
    | true => exact (ih h).skip (hsame.mp rfl)
    | false =>
      apply (ih h).take
      intro hex
      cases hsame.mpr hex

theorem mergeConversation_union {store merged : Store} {c : Units} {v : Json}
    (h : mergeConversation store c v = some merged) :
    Union (rowsOf store c) v.rows (rowsOf merged c) ∧
      ∀ c', c' ≠ c → rowsOf merged c' = rowsOf store c' := by
  obtain ⟨fullRows, hfull, h⟩ := Option.bind_eq_some_iff.mp h
  obtain ⟨legacyRows, hlegacy, h⟩ := Option.bind_eq_some_iff.mp h
  obtain ⟨rows, hrows, h⟩ := Option.map_eq_some_iff.mp h
  have hhere : rowsOf store c = fullRows := by
    rw [rowsOf]
    cases hlookup : store.lookup c with
    | none =>
      rw [hlookup] at hfull
      exact Option.some.inj hfull
    | some u =>
      rw [hlookup] at hfull
      exact decodeRows_eq hfull
  rw [← h]
  constructor
  · rw [rowsOf_insert, if_pos rfl, rows_listOf, hhere, decodeRows_eq hlegacy]
    exact mergeRows_union hrows
  · intro c' hne
    rw [rowsOf_insert, if_neg hne]

theorem mergeEntries_union {entries : List (Sigma fun _ : Units => Json)} {store merged : Store}
    (hkeys : entries.NodupKeys) (h : mergeEntries store entries = some merged) (c : Units) :
    Union (rowsOf store c) (((entries.dlookup c).map Json.rows).getD []) (rowsOf merged c) := by
  induction entries generalizing store with
  | nil =>
    rw [← Option.some.inj h]
    exact Union.nil _
  | cons entry entries ih =>
    obtain ⟨conversation, v⟩ := entry
    obtain ⟨next, hnext, h⟩ := Option.bind_eq_some_iff.mp h
    rw [List.nodupKeys_cons] at hkeys
    have hstep := mergeConversation_union hnext
    have hrest := ih hkeys.2 h
    by_cases heq : c = conversation
    · have hgone : entries.dlookup c = none := by
        rw [List.dlookup_eq_none, heq]
        exact hkeys.1
      rw [hgone] at hrest
      obtain ⟨added, hmerged, hsub⟩ := hrest.added
      rw [List.eq_nil_of_sublist_nil hsub, List.append_nil] at hmerged
      rw [hmerged, heq, List.dlookup_cons_eq]
      exact hstep.1
    · rw [List.dlookup_cons_ne _ _ heq]
      rw [hstep.2 c heq] at hrest
      exact hrest

end Tim2Tox.FailedMessages
