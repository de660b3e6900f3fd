import Tim2Tox.FailedMessages

set_option autoImplicit false

/-!
# What the failed-message store keeps

The effect of one call on the rows of every preference and conversation, and when it keeps the
rows of the other messages.
-/
namespace Tim2Tox.FailedMessages
open DartText

def storeAt (prefs : Prefs) (key : Units) : Store :=
  match prefs key with
  | some (.store s) => s
  | _ => ∅

def rows (prefs : Prefs) (key c : Units) : List Row := rowsOf (storeAt prefs key) c

theorem rows_setString (prefs : Prefs) (key : Units) (s : Store) (key' c : Units) :
    rows (setString prefs key s) key' c = if key' = key then rowsOf s c else rows prefs key' c := by
  rw [rows, storeAt, setString, Function.update_apply]
  split_ifs with heq <;> rfl

theorem decodeStore_store {o : Option Stored} {s : Store} (h : decodeStore o = some (some s)) :
    o = some (.store s) := by
  cases o with
  | none => cases h
  | some stored =>
    cases stored with
    | store t => rw [Option.some.inj (Option.some.inj h)]
    | _ => cases h

/-! ## Migration -/

/-- The preferences once the legacy ones are merged, or as they are when that throws. -/
def settled (prefs : Prefs) (account : Option Units) : Prefs :=
  (migrateLegacyPrefixKey prefs account).getD prefs

theorem migrate_cases {prefs prefs₁ : Prefs} {account : Option Units}
    (h : migrateLegacyPrefixKey prefs account = some prefs₁) :
    prefs₁ = prefs ∨ ∃ key legacyKey legacy merged, accountKey account = some key ∧
      legacyStorageKey account = some legacyKey ∧ legacyKey ≠ key ∧
      prefs legacyKey = some (.store legacy) ∧
      mergeStores (storeAt prefs key) legacy = some merged ∧
      prefs₁ = remove (setString prefs key merged) legacyKey := by
  rw [migrateLegacyPrefixKey] at h
  cases hkey : accountKey account with
  | none =>
    rw [hkey] at h
    exact .inl (Option.some.inj h).symm
  | some key =>
    cases hlegacyKey : legacyStorageKey account with
    | none =>
      rw [hkey, hlegacyKey] at h
      exact .inl (Option.some.inj h).symm
    | some legacyKey =>
      rw [hkey, hlegacyKey] at h
      dsimp only at h
      split_ifs at h with heq hnone
      · exact .inl (Option.some.inj h).symm
      all_goals
        obtain ⟨legacyStore, hlegacy, h⟩ := Option.bind_eq_some_iff.mp h
        cases legacyStore with
        | none => exact .inl (Option.some.inj h).symm
        | some legacy =>
          obtain ⟨fullStore, hfull, h⟩ := Option.bind_eq_some_iff.mp h
          cases fullStore with
          | none => exact .inl (Option.some.inj h).symm
          | some full =>
            obtain ⟨merged, hmerged, h⟩ := Option.map_eq_some_iff.mp h
            right
            refine ⟨key, legacyKey, legacy, merged, rfl, rfl, heq, decodeStore_store hlegacy, ?_,
              h.symm⟩
            rw [← hmerged, storeAt]
            first
            | rw [hnone, Option.some.inj (Option.some.inj hfull)]
            | rw [decodeStore_store hfull]

/-- Every conversation is a list of maps, whose ids are strings or absent. -/
def Sound (s : Store) : Prop :=
  ∀ c v, s.lookup c = some v → ∃ rows, decodeRows v = some rows ∧
    ∀ row ∈ rows, row.id.asString ≠ none ∧ row.msgID.asString ≠ none

theorem sameMessage_isSome {left right : Row}
    (h : right.id.asString ≠ none ∧ right.msgID.asString ≠ none) :
    ∃ found, sameMessage left right = some found := by
  obtain ⟨id, hid⟩ := Option.ne_none_iff_exists'.mp h.1
  obtain ⟨msgID, hmsgID⟩ := Option.ne_none_iff_exists'.mp h.2
  rw [sameMessage, matchesMessageID, hid, hmsgID]
  split_ifs
  · exact ⟨false, rfl⟩
  · exact ⟨_, rfl⟩

theorem anySame_isSome {row : Row} (h : row.id.asString ≠ none ∧ row.msgID.asString ≠ none)
    (fullRows : List Row) : ∃ found, anySame row fullRows = some found := by
  induction fullRows with
  | nil => exact ⟨false, rfl⟩
  | cons fullRow fullRows ih =>
    obtain ⟨first, hfirst⟩ := @sameMessage_isSome fullRow row h
    rw [anySame, hfirst]
    cases first with
    | true => exact ⟨true, rfl⟩
    | false => exact ih

theorem mergeRows_isSome {legacy : List Row}
    (h : ∀ row ∈ legacy, row.id.asString ≠ none ∧ row.msgID.asString ≠ none) (full : List Row) :
    ∃ merged, mergeRows full legacy = some merged := by
  induction legacy generalizing full with
  | nil => exact ⟨full, rfl⟩
  | cons row legacy ih =>
    obtain ⟨found, hfound⟩ := anySame_isSome (h row List.mem_cons_self) full
    rw [mergeRows, hfound]
    exact ih (fun other hother => h other (List.mem_cons_of_mem _ hother)) _

theorem decodeRows_listOf (rows : List Row) : decodeRows (listOf rows) = some rows := by
  change (rows.map Json.map).mapM Json.asMap = some rows
  induction rows with
  | nil => rfl
  | cons row rows ih =>
    rw [List.map_cons, List.mapM_cons, ih]
    rfl

theorem mergeEntries_isSome {entries : List (Sigma fun _ : Units => Json)} {store : Store}
    (hstore : ∀ c v, store.lookup c = some v → decodeRows v ≠ none)
    (hentries : ∀ entry ∈ entries, ∃ rows, decodeRows entry.2 = some rows ∧
      ∀ row ∈ rows, row.id.asString ≠ none ∧ row.msgID.asString ≠ none) :
    ∃ merged, mergeEntries store entries = some merged := by
  induction entries generalizing store with
  | nil => exact ⟨store, rfl⟩
  | cons entry entries ih =>
    obtain ⟨legacyRows, hlegacy, hsound⟩ := hentries entry List.mem_cons_self
    have hfull : ∃ fullRows,
        ((store.lookup entry.1).map decodeRows).getD (some []) = some fullRows := by
      cases hlookup : store.lookup entry.1 with
      | none => exact ⟨[], rfl⟩
      | some v => exact Option.ne_none_iff_exists'.mp (hstore _ v hlookup)
    obtain ⟨fullRows, hfull⟩ := hfull
    obtain ⟨merged, hmerged⟩ := mergeRows_isSome hsound fullRows
    rw [mergeEntries, mergeConversation, hfull, hlegacy, Option.bind_some, Option.bind_some,
      hmerged]
    apply ih _ fun other hother => hentries other (List.mem_cons_of_mem _ hother)
    intro c v hlookup
    by_cases heq : c = entry.1
    · rw [heq, AList.lookup_insert] at hlookup
      rw [← Option.some.inj hlookup, decodeRows_listOf]
      exact Option.some_ne_none _
    · rw [AList.lookup_insert_ne heq] at hlookup
      exact hstore c v hlookup

theorem mergeStores_isSome {full legacy : Store} (hfull : Sound full) (hlegacy : Sound legacy) :
    ∃ merged, mergeStores full legacy = some merged := by
  apply mergeEntries_isSome
  · intro c v hlookup
    obtain ⟨rows, hrows, -⟩ := hfull c v hlookup
    rw [hrows]
    exact Option.some_ne_none _
  · intro entry hentry
    exact hlegacy entry.1 entry.2 (AList.mem_lookup_iff.mpr hentry)

/-- What migration owes: the union of both preferences, once, and nothing else touched. -/
structure Migrated (prefs prefs₁ : Prefs) (account : Option Units) : Prop where
  elsewhere : ∀ key, accountKey account ≠ some key → legacyStorageKey account ≠ some key →
    prefs₁ key = prefs key
  union : prefs₁ = prefs ∨ ∃ key legacyKey, accountKey account = some key ∧
    legacyStorageKey account = some legacyKey ∧ prefs₁ legacyKey = none ∧
    ∀ c, Union (rows prefs key c) (rows prefs legacyKey c) (rows prefs₁ key c)
  moved : ∀ key legacyKey legacy, accountKey account = some key →
    legacyStorageKey account = some legacyKey → legacyKey ≠ key →
    prefs legacyKey = some (.store legacy) → Sound legacy →
    (prefs key = none ∨ ∃ full, prefs key = some (.store full) ∧ Sound full) →
    prefs₁ legacyKey = none
  again : settled prefs₁ account = prefs₁

theorem migrate_again {prefs₁ : Prefs} {account : Option Units} {key legacyKey : Units}
    (hkey : accountKey account = some key) (hlegacyKey : legacyStorageKey account = some legacyKey)
    (hgone : prefs₁ legacyKey = none) : migrateLegacyPrefixKey prefs₁ account = some prefs₁ := by
  rw [migrateLegacyPrefixKey, hkey, hlegacyKey]
  dsimp only
  rw [hgone]
  split_ifs <;> rfl

theorem settled_cases (prefs : Prefs) (account : Option Units) :
    settled prefs account = prefs ∨ ∃ key legacyKey legacy merged, accountKey account = some key ∧
      legacyStorageKey account = some legacyKey ∧ legacyKey ≠ key ∧
      prefs legacyKey = some (.store legacy) ∧
      mergeStores (storeAt prefs key) legacy = some merged ∧
      settled prefs account = remove (setString prefs key merged) legacyKey := by
  rw [settled]
  cases h : migrateLegacyPrefixKey prefs account with
  | none => exact .inl rfl
  | some prefs₁ => exact migrate_cases h

theorem remove_eq (prefs : Prefs) (key : Units) : remove prefs key key = none :=
  Function.update_self _ _ _

theorem rows_remove_ne (prefs : Prefs) {key key' : Units} (h : key' ≠ key) (c : Units) :
    rows (remove prefs key) key' c = rows prefs key' c := by
  rw [rows, storeAt, remove, Function.update_of_ne h]
  rfl

theorem settled_migrated (prefs : Prefs) (account : Option Units) :
    Migrated prefs (settled prefs account) account := by
  refine ⟨?_, ?_, ?_, ?_⟩
  · intro key hkey hlegacyKey
    rcases settled_cases prefs account with
      hsame | ⟨key', legacyKey, -, merged, hkey', hlegacyKey', -, -, -, hmoved⟩
    · rw [hsame]
    · have hne : key ≠ legacyKey := by
        intro heq
        rw [heq] at hlegacyKey
        exact hlegacyKey hlegacyKey'
      have hne' : key ≠ key' := by
        intro heq
        rw [heq] at hkey
        exact hkey hkey'
      rw [hmoved, remove, Function.update_of_ne hne, setString, Function.update_of_ne hne']
  · rcases settled_cases prefs account with
      hsame | ⟨key, legacyKey, legacy, merged, hkey, hlegacyKey, hne, hlegacy, hmerged, hmoved⟩
    · exact .inl hsame
    · right
      refine ⟨key, legacyKey, hkey, hlegacyKey, ?_, ?_⟩
      · rw [hmoved, remove_eq]
      · intro c
        have hunion := mergeEntries_union legacy.nodupKeys hmerged c
        have hfrom : rows prefs legacyKey c = rowsOf legacy c := by
          rw [rows, storeAt, hlegacy]
        rw [hmoved, rows_remove_ne _ hne.symm, rows_setString, if_pos rfl, hfrom]
        exact hunion
  · intro key legacyKey legacy hkey hlegacyKey hne hlegacy hsound hfull
    have hmerge : ∀ full, Sound full → decodeStore (prefs key) = some (some full) ∨
        prefs key = none ∧ full = ∅ → settled prefs account legacyKey = none := by
      intro full hfullSound hdecode
      obtain ⟨merged, hmerged⟩ := mergeStores_isSome hfullSound hsound
      have hmigrate : migrateLegacyPrefixKey prefs account =
          some (remove (setString prefs key merged) legacyKey) := by
        rw [migrateLegacyPrefixKey, hkey, hlegacyKey]
        dsimp only
        rw [if_neg hne, hlegacy]
        rcases hdecode with hdecode | ⟨hnone, rfl⟩
        · have hsome : prefs key ≠ none := by
            rw [decodeStore_store hdecode]
            exact Option.some_ne_none _
          rw [if_neg hsome, hdecode]
          change (mergeStores full legacy).map _ = _
          rw [hmerged]
          rfl
        · rw [if_pos hnone]
          change (mergeStores ∅ legacy).map _ = _
          rw [hmerged]
          rfl
      rw [settled, hmigrate]
      exact remove_eq _ _
    rcases hfull with hnone | ⟨full, hfull, hfullSound⟩
    · apply hmerge ∅ _ (.inr ⟨hnone, rfl⟩)
      intro c v hlookup
      rw [AList.lookup_empty] at hlookup
      cases hlookup
    · apply hmerge full hfullSound
      left
      rw [hfull]
      rfl
  · rcases settled_cases prefs account with
      hsame | ⟨key, legacyKey, -, merged, hkey, hlegacyKey, -, -, -, hmoved⟩
    · rw [hsame, hsame]
    · have hgone : settled prefs account legacyKey = none := by
        rw [hmoved, remove_eq]
      rw [settled, migrate_again hkey hlegacyKey hgone]
      rfl

/-! ## Calls -/

inductive Call where
  | saveFailedMessageData (messageData : Row) (userID groupID : Option Units)
  | removeFailedMessage (messageID : Units) (userID groupID : Option Units)
  | removeFailedMessagesByIDs (messageIDs : List Units)

def run (prefs : Prefs) (account : Option Units) : Call → Prefs
  | .saveFailedMessageData messageData userID groupID =>
    saveFailedMessageData prefs messageData userID groupID account
  | .removeFailedMessage messageID userID groupID =>
    removeFailedMessage prefs messageID userID groupID account
  | .removeFailedMessagesByIDs messageIDs => (removeFailedMessagesByIDs prefs messageIDs account).1

/-- The call ends before it looks at a preference. -/
def Call.idle : Call → Prop
  | .saveFailedMessageData _ userID groupID => conversationKeyOf userID groupID = []
  | .removeFailedMessage _ _ _ => False
  | .removeFailedMessagesByIDs messageIDs => messageIDs = []

instance (call : Call) : Decidable call.idle := by
  cases call with
  | removeFailedMessage => exact isFalse id
  | _ => exact inferInstanceAs (Decidable (_ = _))

/-- The preferences that the call itself changes. -/
def before (prefs : Prefs) (account : Option Units) (call : Call) : Prefs :=
  if call.idle then prefs else settled prefs account

/-- The ids the call names. -/
def Call.named : Call → List Units
  | .saveFailedMessageData messageData _ _ => messageData.identifiers
  | .removeFailedMessage messageID _ _ => [messageID].filter (· ≠ [])
  | .removeFailedMessagesByIDs messageIDs => messageIDs.filter (· ≠ [])

def unnamed (named : List Units) (row : Row) : Bool := row.identifiers.all fun x => x ∉ named

/-- An account with a full Tox id. -/
structure ToxId where
  text : Units
  full : text.length = 76

/-- When the message is stored, the saved row takes the place of one of its rows. -/
def Replaced (messageData : Row) (rows saved : List Row) : Prop :=
  (∃ row ∈ rows, Same row messageData) → ∃ (i : ℕ) (row : Row), rows[i]? = some row ∧
    Same row messageData ∧ saved = rows.set i messageData

structure Keeps (prefs : Prefs) (account : Option Units) (call : Call) : Prop where
  migrated : Migrated prefs (settled prefs account) account
  others : ∀ other : ToxId, account ≠ some other.text →
    run prefs account call (storageKey other.text) = prefs (storageKey other.text)
  frame : ∀ key c, ((rows (before prefs account call) key c).filter (unnamed call.named)).Sublist
    (rows (run prefs account call) key c)
  replaced : ∀ messageData userID groupID key,
    call = .saveFailedMessageData messageData userID groupID → accountKey account = some key →
    conversationKeyOf userID groupID ≠ [] →
    Replaced messageData (rows (before prefs account call) key (conversationKeyOf userID groupID))
      (rows (run prefs account call) key (conversationKeyOf userID groupID))

/-- The rows that `removeFailedMessage` goes through. -/
def removable (prefs : Prefs) (account userID groupID : Option Units) : Option (List Row) :=
  (accountKey account).bind fun key => (migrateLegacyPrefixKey prefs account).bind fun prefs =>
    if conversationKeyOf userID groupID = [] then none
    else ((storeAt prefs key).lookup (conversationKeyOf userID groupID)).bind decodeRows

/-- The rows that `removeFailedMessagesByIDs` goes through, unless it throws. -/
def Scanned (prefs : Prefs) (account : Option Units) (messageIDs : List Units) (row : Row) : Prop :=
  ∃ key prefs₁ c, accountKey account = some key ∧ migrateLegacyPrefixKey prefs account = some prefs₁ ∧
    removeEntries messageIDs (storeAt prefs₁ key).entries (storeAt prefs₁ key, 0) ≠ none ∧
    row ∈ rows prefs₁ key c

/-- The first row with the saved id or message id, absent or empty ones alike, is of the saved
    message, and with no such row no other row is; an empty id removes nothing. -/
def Told (prefs : Prefs) (account : Option Units) : Call → Prop
  | .saveFailedMessageData messageData userID groupID => ∀ key, accountKey account = some key →
      conversationKeyOf userID groupID ≠ [] →
      match migrateLegacyPrefixKey prefs account with
      | none => (∃ row ∈ rows prefs key (conversationKeyOf userID groupID), Same row messageData) →
          messageData ∈ rows prefs key (conversationKeyOf userID groupID)
      | some prefs =>
        match (rows prefs key (conversationKeyOf userID groupID)).find? (stored messageData) with
        | some row => Same row messageData ∨ row = messageData
        | none => ∀ row ∈ rows prefs key (conversationKeyOf userID groupID), ¬ Same row messageData
  | .removeFailedMessage messageID userID groupID => messageID = [] →
      ∀ found, removable prefs account userID groupID = some found →
        ∀ row ∈ found, carries [] row = false
  | .removeFailedMessagesByIDs messageIDs => [] ∈ messageIDs →
      ∀ row, Scanned prefs account messageIDs row → carries [] row = true →
        ∃ x ∈ row.identifiers, x ∈ messageIDs

/-! ## The rows after a call -/

theorem same_str {v : Json} {x : Units} : v.same (.str x) = true ↔ v = .str x := by
  cases v with
  | str s =>
    change (s == x) = true ↔ _
    rw [beq_iff_eq]
    exact ⟨congrArg Json.str, Json.str.inj⟩
  | _ =>
    constructor
    · intro h
      cases h
    · intro h
      cases h

theorem carries_iff {messageID : Units} {row : Row} :
    carries messageID row = true ↔ row.id = .str messageID ∨ row.msgID = .str messageID := by
  rw [carries, Bool.or_eq_true, same_str, same_str]

theorem unnamed_iff {named : List Units} {row : Row} :
    unnamed named row = true ↔ ¬ ∃ x ∈ row.identifiers, x ∈ named := by
  rw [unnamed, List.all_eq_true]
  constructor
  · intro h hex
    obtain ⟨x, hx, hnamed⟩ := hex
    exact of_decide_eq_true (h x hx) hnamed
  · intro h x hx
    apply decide_eq_true
    intro hnamed
    exact h ⟨x, hx, hnamed⟩

theorem unnamed_same {messageData row : Row} :
    unnamed messageData.identifiers row = true ↔ ¬ Same row messageData := unnamed_iff

theorem same_self {row other : Row} (h : Same other row) : Same row row := by
  obtain ⟨x, -, hx⟩ := h
  exact ⟨x, hx, hx⟩

theorem filter_unnamed_subset {rows : List Row} {messageData : Row}
    (h : ¬ Same messageData messageData) :
    rows.filter (unnamed messageData.identifiers) = rows := by
  rw [List.filter_eq_self]
  intro row _
  rw [unnamed_same]
  intro hsame
  exact h (same_self hsame)

/-- A row that is neither the saved message nor equal to the saved row is lost. -/
theorem same_of_sublist {before after : List Row} {row messageData : Row}
    (h : ((before ++ row :: after).filter (unnamed messageData.identifiers)).Sublist
      (before ++ messageData :: after)) : Same row messageData ∨ row = messageData := by
  by_cases hself : Same messageData messageData
  · left
    by_contra hsame
    have hfilter := h.filter (unnamed messageData.identifiers)
    have hdata : ¬ unnamed messageData.identifiers messageData = true := by
      rw [unnamed_same, not_not]
      exact hself
    have htwice : (fun row => unnamed messageData.identifiers row &&
        unnamed messageData.identifiers row) = unnamed messageData.identifiers := by
      funext row
      exact Bool.and_self _
    rw [List.filter_filter, htwice, List.filter_append, List.filter_append,
      List.filter_cons_of_pos (unnamed_same.mpr hsame), List.filter_cons_of_neg hdata] at hfilter
    have hlength := hfilter.length_le
    simp only [List.length_append, List.length_cons] at hlength
    omega
  · right
    rw [filter_unnamed_subset hself] at h
    have heq := h.eq_of_length (by simp only [List.length_append, List.length_cons])
    exact (List.cons.inj (List.append_cancel_left heq)).1

theorem saveRow_none {rows : List Row} {messageData : Row}
    (h : rows.find? (stored messageData) = none) :
    saveRow rows messageData = rows ++ [messageData] := by
  rw [saveRow, List.findIdx?_eq_none_iff.mpr (fun row hrow => by
    rw [← Bool.not_eq_true]
    exact List.find?_eq_none.mp h row hrow)]

theorem saveRow_some {rows : List Row} {row messageData : Row}
    (h : rows.find? (stored messageData) = some row) : ∃ before after,
      rows = before ++ row :: after ∧
        saveRow rows messageData = before ++ messageData :: after ∧
        saveRow rows messageData = rows.set before.length messageData := by
  obtain ⟨hstored, before, after, hrows, hbefore⟩ := List.find?_eq_some_iff_append.mp h
  have hindex : rows.findIdx? (stored messageData) = some before.length := by
    rw [hrows, List.findIdx?_append, List.findIdx?_eq_none_iff.mpr (fun x hx => by
      have := hbefore x hx
      rwa [Bool.not_eq_true'] at this), List.findIdx?_cons, if_pos hstored]
    rw [Option.none_or, Option.map_some, Nat.zero_add]
  refine ⟨before, after, hrows, ?_, ?_⟩
  · rw [saveRow, hindex]
    dsimp only
    rw [hrows, List.set_append_right _ _ (Nat.le_refl _), Nat.sub_self, List.set_cons_zero]
  · rw [saveRow, hindex]

theorem saveRow_keeps_iff (rows : List Row) (messageData : Row) :
    ((rows.filter (unnamed messageData.identifiers)).Sublist (saveRow rows messageData) ∧
      Replaced messageData rows (saveRow rows messageData)) ↔
    match rows.find? (stored messageData) with
    | some row => Same row messageData ∨ row = messageData
    | none => ∀ row ∈ rows, ¬ Same row messageData := by
  cases hfind : rows.find? (stored messageData) with
  | none =>
    rw [saveRow_none hfind]
    constructor
    · intro h row hrow hsame
      obtain ⟨i, -, -, -, hset⟩ := h.2 ⟨row, hrow, hsame⟩
      have hlength := congrArg List.length hset
      rw [List.length_append, List.length_set, List.length_singleton] at hlength
      omega
    · intro h
      refine ⟨List.filter_sublist.trans (List.sublist_append_left _ _), fun hex => ?_⟩
      obtain ⟨row, hrow, hsame⟩ := hex
      exact absurd hsame (h row hrow)
  | some row =>
    obtain ⟨before, after, hrows, hsaved, hset⟩ := saveRow_some hfind
    have hat : rows[before.length]? = some row := by
      rw [hrows, List.getElem?_append_right (Nat.le_refl _), Nat.sub_self]
      rfl
    constructor
    · intro h
      apply @same_of_sublist before after
      rw [← hrows, ← hsaved]
      exact h.1
    · intro h
      rcases h with hsame | heq
      · refine ⟨?_, fun _ => ⟨before.length, row, hat, hsame, hset⟩⟩
        have hrow : ¬ unnamed messageData.identifiers row = true := by
          rw [unnamed_same, not_not]
          exact hsame
        rw [hsaved, hrows, List.filter_append, List.filter_cons_of_neg hrow]
        apply List.Sublist.append List.filter_sublist
        exact List.filter_sublist.trans (List.sublist_cons_self _ _)
      · constructor
        · rw [hsaved, ← heq, ← hrows]
          exact List.filter_sublist
        · intro hex
          obtain ⟨other, -, hsame⟩ := hex
          refine ⟨before.length, row, hat, ?_, hset⟩
          rw [heq]
          exact same_self hsame

theorem filter_keeps_iff (rows : List Row) (p : Row → Bool) (named : List Units) :
    (rows.filter (unnamed named)).Sublist (rows.filter fun row => !p row) ↔
      ∀ row ∈ rows, p row = true → ∃ x ∈ row.identifiers, x ∈ named := by
  constructor
  · intro h row hrow hp
    by_contra hnone
    have hmem := h.subset (List.mem_filter.mpr ⟨hrow, unnamed_iff.mpr hnone⟩)
    have hkept := (List.mem_filter.mp hmem).2
    rw [hp] at hkept
    cases hkept
  · intro h
    have heq : rows.filter (unnamed named) =
        (rows.filter fun row => !p row).filter (unnamed named) := by
      rw [List.filter_filter]
      apply List.filter_congr
      intro row hrow
      cases hp : p row with
      | false => rw [Bool.not_false, Bool.and_true]
      | true =>
        rw [Bool.not_true, Bool.and_false, ← Bool.not_eq_true, unnamed_iff, not_not]
        exact h row hrow hp
    rw [heq]
    exact List.filter_sublist

def matched (messageIDs : List Units) (row : Row) : Bool := messageIDs.any (carries · row)

theorem matched_of_matches {messageIDs : List Units} {row : Row} {found : Bool}
    (h : matchesMessageID row messageIDs = some found) : found = matched messageIDs row := by
  rw [Bool.eq_iff_iff, matches_iff h, matched, List.any_eq_true]
  apply exists_congr
  intro x
  rw [carries_iff]

theorem unmatched_eq {messageIDs : List Units} {rows filtered : List Row}
    (h : unmatched messageIDs rows = some filtered) :
    filtered = rows.filter fun row => !matched messageIDs row := by
  induction rows generalizing filtered with
  | nil => exact (Option.some.inj h).symm
  | cons row rows ih =>
    obtain ⟨found, hfound, h⟩ := Option.bind_eq_some_iff.mp h
    obtain ⟨rest, hrest, h⟩ := Option.map_eq_some_iff.mp h
    rw [matched_of_matches hfound, ih hrest] at h
    rw [← h, List.filter_cons]
    cases matched messageIDs row <;> rfl

theorem removeEntries_cons {messageIDs : List Units} {c : Units} {v : Json}
    {entries : List (Sigma fun _ : Units => Json)} {result out : Store × ℕ}
    (hat : rowsOf result.1 c = v.rows)
    (h : removeEntries messageIDs (⟨c, v⟩ :: entries) result = some out) :
    ∃ next, removeEntries messageIDs entries next = some out ∧ result.2 ≤ next.2 ∧
      (next.2 = result.2 → v.rows.filter (fun row => !matched messageIDs row) = v.rows) ∧
      ∀ c', rowsOf next.1 c' = if c' = c then v.rows.filter (fun row => !matched messageIDs row)
        else rowsOf result.1 c' := by
  cases v with
  | list items =>
    obtain ⟨filtered, hfiltered, h⟩ := Option.bind_eq_some_iff.mp h
    have heq := unmatched_eq hfiltered
    have hsub : filtered.Sublist (Json.list items).rows := by
      rw [heq]
      exact List.filter_sublist
    refine ⟨_, h, ?_, ?_, ?_⟩
    · split_ifs
      · exact Nat.le_refl _
      · exact Nat.le_add_right _ _
    · intro hcount
      split_ifs at hcount with hlength
      · rw [heq] at hlength
        exact List.filter_sublist.eq_of_length hlength
      · have hle := hsub.length_le
        change filtered.length ≤ (items.filterMap Json.asMap).length at hle
        change result.2 + _ = result.2 at hcount
        omega
    · intro c'
      split_ifs with hlength hhere hhere
      · rw [hhere, hat]
        rw [heq] at hlength
        exact (List.filter_sublist.eq_of_length hlength).symm
      · rfl
      · rw [rowsOf_putRows, if_pos hhere, heq]
        rfl
      · rw [rowsOf_putRows, if_neg hhere]
  | _ =>
    refine ⟨result, h, Nat.le_refl _, fun _ => rfl, ?_⟩
    intro c'
    split_ifs with hhere
    · rw [hhere, hat]
      rfl
    · rfl

theorem removeEntries_rows {messageIDs : List Units}
    {entries : List (Sigma fun _ : Units => Json)} {result out : Store × ℕ}
    (hkeys : entries.NodupKeys)
    (hat : ∀ c v, entries.dlookup c = some v → rowsOf result.1 c = v.rows)
    (h : removeEntries messageIDs entries result = some out) :
    result.2 ≤ out.2 ∧ (∀ c, rowsOf out.1 c = if (entries.dlookup c).isSome then
        (rowsOf result.1 c).filter (fun row => !matched messageIDs row) else rowsOf result.1 c) ∧
      (out.2 = result.2 → ∀ c, rowsOf out.1 c = rowsOf result.1 c) := by
  induction entries generalizing result with
  | nil =>
    rw [← Option.some.inj h]
    exact ⟨Nat.le_refl _, fun _ => rfl, fun _ _ => rfl⟩
  | cons entry entries ih =>
    obtain ⟨c, v⟩ := entry
    rw [List.nodupKeys_cons] at hkeys
    have hgone : entries.dlookup c = none := List.dlookup_eq_none.mpr hkeys.1
    have hhere := hat c v (List.dlookup_cons_eq _ _ _)
    obtain ⟨next, hnext, hle, hsame, hrows⟩ := removeEntries_cons hhere h
    have hnextAt : ∀ c' v', entries.dlookup c' = some v' → rowsOf next.1 c' = v'.rows := by
      intro c' v' hlookup
      have hne : c' ≠ c := by
        intro heq
        rw [heq, hgone] at hlookup
        cases hlookup
      rw [hrows, if_neg hne]
      apply hat
      rw [List.dlookup_cons_ne _ _ hne]
      exact hlookup
    obtain ⟨hle', hout, hsame'⟩ := ih hkeys.2 hnextAt hnext
    refine ⟨hle.trans hle', ?_, ?_⟩
    · intro c'
      rw [hout, hrows]
      by_cases heq : c' = c
      · rw [heq, hgone, if_pos rfl, List.dlookup_cons_eq, hhere]
        rfl
      · rw [if_neg heq, List.dlookup_cons_ne _ _ heq]
    · intro hcount c'
      rw [hsame' (by omega), hrows]
      split_ifs with heq
      · rw [hsame (by omega), heq, hhere]
      · rfl

/-! ## One call -/

theorem storeAt_decode {prefs : Prefs} {key : Units} {s : Store}
    (h : decodeStore (prefs key) = some (some s)) : storeAt prefs key = s := by
  rw [storeAt, decodeStore_store h]

theorem storeAt_empty {prefs : Prefs} {key : Units}
    (h : ∀ s, decodeStore (prefs key) ≠ some (some s)) : storeAt prefs key = ∅ := by
  rw [storeAt]
  split
  · rename_i s hs
    rw [hs] at h
    exact absurd rfl (h s)
  · rfl

theorem rows_empty {prefs : Prefs} {key : Units} (h : storeAt prefs key = ∅) (c : Units) :
    rows prefs key c = [] := by
  rw [rows, h, rowsOf, AList.lookup_empty]
  rfl

/-- What a save leaves: the preferences before it, or those with one conversation saved. -/
theorem save_cases (prefs : Prefs) (account : Option Units) (messageData : Row)
    {userID groupID : Option Units} {c : Units} (hc : conversationKeyOf userID groupID = c)
    (hne : c ≠ []) :
    saveFailedMessageData prefs messageData userID groupID account = settled prefs account ∧
        (accountKey account = none ∨ migrateLegacyPrefixKey prefs account = none ∨
          ∃ key prefs₁, accountKey account = some key ∧
            migrateLegacyPrefixKey prefs account = some prefs₁ ∧ ∀ c', rows prefs₁ key c' = []) ∨
      ∃ key prefs₁ s, accountKey account = some key ∧
        migrateLegacyPrefixKey prefs account = some prefs₁ ∧
        saveFailedMessageData prefs messageData userID groupID account = setString prefs₁ key s ∧
        ∀ c', rowsOf s c' = if c' = c then saveRow (rows prefs₁ key c) messageData
          else rows prefs₁ key c' := by
  rw [saveFailedMessageData, hc, if_neg hne, settled]
  cases hkey : accountKey account with
  | none =>
    left
    rw [migrateLegacyPrefixKey, hkey]
    exact ⟨rfl, .inl rfl⟩
  | some key =>
    cases hmigrate : migrateLegacyPrefixKey prefs account with
    | none => exact .inl ⟨rfl, .inr (.inl rfl)⟩
    | some prefs₁ =>
      dsimp only
      cases hdecode : decodeStore (prefs₁ key) with
      | none =>
        left
        refine ⟨rfl, .inr (.inr ⟨key, prefs₁, rfl, rfl, rows_empty (storeAt_empty ?_)⟩)⟩
        intro s hs
        rw [hdecode] at hs
        cases hs
      | some store =>
        right
        have hstore : storeAt prefs₁ key = store.getD ∅ := by
          cases store with
          | none =>
            apply storeAt_empty
            intro s hs
            rw [hdecode] at hs
            cases hs
          | some store => exact storeAt_decode hdecode
        refine ⟨key, prefs₁, _, rfl, rfl, rfl, ?_⟩
        intro c'
        rw [rowsOf_insert, rows_listOf, rows, rows, hstore]

/-- What a removal leaves. -/
theorem remove_cases (prefs : Prefs) (account : Option Units) (messageID : Units)
    (userID groupID : Option Units) :
    removable prefs account userID groupID = none ∧
        removeFailedMessage prefs messageID userID groupID account = settled prefs account ∨
      ∃ key found s, accountKey account = some key ∧
        removable prefs account userID groupID = some found ∧
        rows (settled prefs account) key (conversationKeyOf userID groupID) = found ∧
        removeFailedMessage prefs messageID userID groupID account =
          setString (settled prefs account) key s ∧
        ∀ c, rowsOf s c = if c = conversationKeyOf userID groupID then
            found.filter (fun row => !carries messageID row)
          else rows (settled prefs account) key c := by
  rw [removeFailedMessage, removable, settled]
  cases hkey : accountKey account with
  | none =>
    left
    rw [migrateLegacyPrefixKey, hkey]
    exact ⟨rfl, rfl⟩
  | some key =>
    cases hmigrate : migrateLegacyPrefixKey prefs account with
    | none => exact .inl ⟨rfl, rfl⟩
    | some prefs₁ =>
      dsimp only [Option.bind_some, Option.getD_some]
      by_cases hstore : ∃ s, decodeStore (prefs₁ key) = some (some s)
      · obtain ⟨s, hstore⟩ := hstore
        have hrows : ∀ c, rows prefs₁ key c = rowsOf s c := by
          intro c
          rw [rows, storeAt_decode hstore]
        rw [hstore, storeAt_decode hstore]
        dsimp only
        by_cases hc : conversationKeyOf userID groupID = []
        · rw [if_pos hc, if_pos hc]
          exact .inl ⟨rfl, rfl⟩
        · rw [if_neg hc, if_neg hc]
          cases hfound : (s.lookup (conversationKeyOf userID groupID)).bind decodeRows with
          | none => exact .inl ⟨rfl, rfl⟩
          | some found =>
            right
            refine ⟨key, found, _, rfl, rfl, ?_, rfl, ?_⟩
            · obtain ⟨v, hv, hdecoded⟩ := Option.bind_eq_some_iff.mp hfound
              rw [hrows, rowsOf, hv]
              exact decodeRows_eq hdecoded
            · intro c
              rw [rowsOf_putRows, hrows]
      · left
        have hnone : ∀ s, decodeStore (prefs₁ key) ≠ some (some s) := fun s hs => hstore ⟨s, hs⟩
        rw [storeAt_empty hnone, AList.lookup_empty]
        refine ⟨ite_self _, ?_⟩
        split
        · exact absurd ‹_› (hnone _)
        · rfl

theorem scanned_iff {prefs prefs₁ : Prefs} {account : Option Units} {messageIDs : List Units}
    {key : Units} {out : Store × ℕ} (hkey : accountKey account = some key)
    (hmigrate : migrateLegacyPrefixKey prefs account = some prefs₁)
    (hout : removeEntries messageIDs (storeAt prefs₁ key).entries (storeAt prefs₁ key, 0) =
      some out) (row : Row) :
    Scanned prefs account messageIDs row ↔ ∃ c, row ∈ rows prefs₁ key c := by
  constructor
  · intro h
    obtain ⟨key', prefs₂, c, hkey', hmigrate', -, hrow⟩ := h
    rw [hkey] at hkey'
    rw [hmigrate] at hmigrate'
    rw [Option.some.inj hkey', Option.some.inj hmigrate']
    exact ⟨c, hrow⟩
  · intro h
    obtain ⟨c, hrow⟩ := h
    refine ⟨key, prefs₁, c, hkey, hmigrate, ?_, hrow⟩
    rw [hout]
    exact Option.some_ne_none _

/-- What a removal by ids leaves. -/
theorem removeByIDs_cases (prefs : Prefs) (account : Option Units) {messageIDs : List Units}
    (hne : messageIDs ≠ []) :
    (removeFailedMessagesByIDs prefs messageIDs account).1 = settled prefs account ∧
        (∀ row, ¬ Scanned prefs account messageIDs row) ∨
      ∃ key, accountKey account = some key ∧
        (∀ key', key' ≠ key → (removeFailedMessagesByIDs prefs messageIDs account).1 key' =
          settled prefs account key') ∧
        (∀ c, rows (removeFailedMessagesByIDs prefs messageIDs account).1 key c =
          (rows (settled prefs account) key c).filter fun row => !matched messageIDs row) ∧
        ∀ row, Scanned prefs account messageIDs row ↔
          ∃ c, row ∈ rows (settled prefs account) key c := by
  rw [removeFailedMessagesByIDs, if_neg hne, settled]
  cases hkey : accountKey account with
  | none =>
    left
    rw [migrateLegacyPrefixKey, hkey]
    refine ⟨rfl, fun row h => ?_⟩
    obtain ⟨key, -, -, hsome, -⟩ := h
    rw [hkey] at hsome
    cases hsome
  | some key =>
    cases hmigrate : migrateLegacyPrefixKey prefs account with
    | none =>
      refine .inl ⟨rfl, fun row h => ?_⟩
      obtain ⟨-, prefs₁, -, -, hsome, -⟩ := h
      rw [hmigrate] at hsome
      cases hsome
    | some prefs₁ =>
      dsimp only [Option.getD_some]
      by_cases hstore : ∃ s, decodeStore (prefs₁ key) = some (some s)
      · obtain ⟨s, hstore⟩ := hstore
        have hat := storeAt_decode hstore
        rw [hstore]
        dsimp only
        cases hout : removeEntries messageIDs s.entries (s, 0) with
        | none =>
          refine .inl ⟨rfl, fun row h => ?_⟩
          obtain ⟨key', prefs₂, c, hkey', hmigrate', hsome, -⟩ := h
          rw [hkey] at hkey'
          rw [hmigrate] at hmigrate'
          rw [← Option.some.inj hkey', ← Option.some.inj hmigrate', hat] at hsome
          exact hsome hout
        | some out =>
          right
          have hscan : ∀ c v, s.entries.dlookup c = some v → rowsOf s c = v.rows := by
            intro c v hlookup
            rw [rowsOf, AList.lookup, hlookup]
            rfl
          obtain ⟨-, hrows, hsame⟩ := removeEntries_rows s.nodupKeys hscan hout
          have hfilter : ∀ c, rowsOf out.1 c =
              (rows prefs₁ key c).filter fun row => !matched messageIDs row := by
            intro c
            rw [hrows, rows, hat]
            split_ifs with hin
            · rfl
            · rw [rowsOf, AList.lookup, Option.not_isSome_iff_eq_none.mp hin]
              rfl
          refine ⟨key, rfl, ?_, ?_, ?_⟩
          · intro key' hkey'
            dsimp only
            split_ifs
            · rw [setString, Function.update_of_ne hkey']
            · rfl
          · intro c
            dsimp only
            split_ifs with hcount
            · rw [rows_setString, if_pos rfl, hfilter]
            · have hzero : out.2 = 0 := by omega
              rw [← hfilter, hsame hzero, rows, hat]
          · rw [← hat] at hout
            exact scanned_iff hkey hmigrate hout
      · have hnone : ∀ s, decodeStore (prefs₁ key) ≠ some (some s) := fun s hs => hstore ⟨s, hs⟩
        left
        refine ⟨?_, fun row h => ?_⟩
        · split
          · exact absurd ‹_› (hnone _)
          · rfl
        · have hout : removeEntries messageIDs (storeAt prefs₁ key).entries
              (storeAt prefs₁ key, 0) = some (∅, 0) := by
            rw [storeAt_empty hnone]
            rfl
          obtain ⟨c, hrow⟩ := (scanned_iff hkey hmigrate hout row).mp h
          rw [rows_empty (storeAt_empty hnone)] at hrow
          cases hrow

/-! ## Every call -/

theorem run_elsewhere (prefs : Prefs) (account : Option Units) (call : Call) {key : Units}
    (h : accountKey account ≠ some key) :
    run prefs account call key = before prefs account call key := by
  have hne : ∀ {key'}, accountKey account = some key' → key ≠ key' := by
    intro key' hkey' heq
    rw [heq] at h
    exact h hkey'
  by_cases hidle : call.idle
  · rw [before, if_pos hidle]
    cases call with
    | saveFailedMessageData messageData userID groupID =>
      rw [run, saveFailedMessageData]
      exact congrFun (if_pos hidle) key
    | removeFailedMessage messageID userID groupID => cases hidle
    | removeFailedMessagesByIDs messageIDs =>
      have hempty : messageIDs = [] := hidle
      rw [run, removeFailedMessagesByIDs, if_pos hempty]
  · rw [before, if_neg hidle]
    cases call with
    | saveFailedMessageData messageData userID groupID =>
      rcases save_cases prefs account messageData rfl hidle with
        ⟨hsame, -⟩ | ⟨key', prefs₁, s, hkey', hmigrate, hrun, -⟩
      · exact congrFun hsame key
      · rw [run, hrun, setString, Function.update_of_ne (hne hkey'), settled, hmigrate]
        rfl
    | removeFailedMessage messageID userID groupID =>
      rcases remove_cases prefs account messageID userID groupID with
        ⟨-, hsame⟩ | ⟨key', found, s, hkey', -, -, hrun, -⟩
      · exact congrFun hsame key
      · rw [run, hrun, setString, Function.update_of_ne (hne hkey')]
    | removeFailedMessagesByIDs messageIDs =>
      rcases removeByIDs_cases prefs account hidle with ⟨hsame, -⟩ | ⟨key', hkey', helse, -⟩
      · exact congrFun hsame key
      · exact helse key (hne hkey')

theorem accountKey_toxId {account : Option Units} {other : ToxId} (h : account ≠ some other.text) :
    accountKey account ≠ some (storageKey other.text) := by
  have hother : other.text ≠ [] := by
    intro hnil
    have hfull := other.full
    rw [hnil] at hfull
    cases hfull
  intro hkey
  cases account with
  | none => cases hkey
  | some id =>
    rw [accountKey] at hkey
    split_ifs at hkey with hempty
    have heq := Option.some.inj hkey
    rw [storageKey, storageKey, if_neg hempty, if_neg hother] at heq
    exact h (congrArg some (List.cons.inj (List.append_cancel_left heq)).2)

theorem legacyKey_toxId (account : Option Units) (other : ToxId) :
    legacyStorageKey account ≠ some (storageKey other.text) := by
  have hfull := other.full
  have hother : other.text ≠ [] := by
    intro hnil
    rw [hnil] at hfull
    cases hfull
  intro hkey
  cases account with
  | none => cases hkey
  | some id =>
    rw [legacyStorageKey] at hkey
    split_ifs at hkey
    have heq := Option.some.inj hkey
    rw [storageKey, if_neg hother] at heq
    have htake := congrArg List.length (List.cons.inj (List.append_cancel_left heq)).2
    rw [List.length_take, hfull, legacyAccountPrefixLen] at htake
    omega

theorem run_others (prefs : Prefs) (account : Option Units) (call : Call) (other : ToxId)
    (h : account ≠ some other.text) :
    run prefs account call (storageKey other.text) = prefs (storageKey other.text) := by
  rw [run_elsewhere prefs account call (accountKey_toxId h), before]
  split_ifs
  · rfl
  · exact (settled_migrated prefs account).elsewhere _ (accountKey_toxId h)
      (legacyKey_toxId account other)

theorem frame_setString_iff {prefs : Prefs} {key c : Units} {s : Store} {after : List Row}
    (hrows : ∀ c', rowsOf s c' = if c' = c then after else rows prefs key c') (p : Row → Bool) :
    (∀ key' c', ((rows prefs key' c').filter p).Sublist (rows (setString prefs key s) key' c')) ↔
      ((rows prefs key c).filter p).Sublist after := by
  constructor
  · intro h
    have hhere := h key c
    rw [rows_setString, if_pos rfl, hrows, if_pos rfl] at hhere
    exact hhere
  · intro h key' c'
    rw [rows_setString]
    split_ifs with hkey
    · rw [hrows, hkey]
      split_ifs with hc
      · rw [hc]
        exact h
      · exact List.filter_sublist
    · exact List.filter_sublist

theorem save_keeps_iff (prefs : Prefs) (account : Option Units) (messageData : Row)
    (userID groupID : Option Units) :
    let call := Call.saveFailedMessageData messageData userID groupID
    ((∀ key c, ((rows (before prefs account call) key c).filter (unnamed call.named)).Sublist
        (rows (run prefs account call) key c)) ∧
      ∀ key, accountKey account = some key → conversationKeyOf userID groupID ≠ [] →
        Replaced messageData
          (rows (before prefs account call) key (conversationKeyOf userID groupID))
          (rows (run prefs account call) key (conversationKeyOf userID groupID))) ↔
      Told prefs account call := by
  dsimp only
  generalize hc : conversationKeyOf userID groupID = c
  by_cases hne : c = []
  · have hrun : run prefs account (.saveFailedMessageData messageData userID groupID) = prefs := by
      rw [run, saveFailedMessageData, hc]
      exact if_pos hne
    have hbefore : before prefs account (.saveFailedMessageData messageData userID groupID) =
        prefs := if_pos (hc.trans hne)
    rw [hrun, hbefore, Told, hc]
    apply iff_of_true
    · exact ⟨fun _ _ => List.filter_sublist, fun _ _ h => absurd hne h⟩
    · intro key _ h
      exact absurd hne h
  · have hbefore : before prefs account (.saveFailedMessageData messageData userID groupID) =
        settled prefs account := if_neg (fun h => hne (hc.symm.trans h))
    rw [hbefore, run, Told, hc]
    rcases save_cases prefs account messageData hc hne with
      ⟨hsame, hwhy⟩ | ⟨key, prefs₁, s, hkey, hmigrate, hrun, hrows⟩
    · rw [hsame, settled]
      have hframe : ∀ key c, ((rows ((migrateLegacyPrefixKey prefs account).getD prefs) key c).filter
          (unnamed (Call.saveFailedMessageData messageData userID groupID).named)).Sublist
            (rows ((migrateLegacyPrefixKey prefs account).getD prefs) key c) :=
        fun _ _ => List.filter_sublist
      rw [and_iff_right hframe]
      apply forall_congr'
      intro key
      apply forall_congr'
      intro hkey
      rw [forall_prop_of_true hne, forall_prop_of_true hne]
      rcases hwhy with hnone | hthrows | ⟨key', prefs₁, hkey', hmigrate, hempty⟩
      · rw [hnone] at hkey
        cases hkey
      · rw [hthrows]
        apply imp_congr_right
        intro hex
        obtain ⟨other, -, hother⟩ := hex
        constructor
        · intro h
          obtain ⟨i, row, hat, -, hset⟩ := h
          rw [Option.getD_none] at hat hset
          have hlt := (List.getElem?_eq_some_iff.mp hat).1
          rw [hset]
          exact List.mem_set hlt messageData
        · intro hmem
          obtain ⟨i, hlt, hat⟩ := List.mem_iff_getElem.mp hmem
          refine ⟨i, messageData, List.getElem?_eq_some_iff.mpr ⟨hlt, hat⟩, same_self hother, ?_⟩
          rw [Option.getD_none, ← hat]
          exact (List.set_getElem_self hlt).symm
      · rw [hkey] at hkey'
        rw [hmigrate, Option.getD_some, Option.some.inj hkey', hempty]
        apply iff_of_true
        · intro hex
          obtain ⟨row, hrow, -⟩ := hex
          cases hrow
        · dsimp only
          rw [hempty]
          intro row hrow
          cases hrow
    · have hsaved : rows (setString prefs₁ key s) key c =
          saveRow (rows prefs₁ key c) messageData := by
        rw [rows_setString, if_pos rfl, hrows, if_pos rfl]
      rw [hrun, settled, hmigrate, Option.getD_some, frame_setString_iff hrows]
      constructor
      · intro h key' hkey' _
        rw [← Option.some.inj (hkey.symm.trans hkey')]
        apply (saveRow_keeps_iff _ _).mp
        refine ⟨h.1, ?_⟩
        rw [← hsaved]
        exact h.2 key hkey hne
      · intro h
        have hkeeps := (saveRow_keeps_iff _ _).mpr (h key hkey hne)
        refine ⟨hkeeps.1, fun key' hkey' _ => ?_⟩
        rw [← Option.some.inj (hkey.symm.trans hkey'), hsaved]
        exact hkeeps.2

theorem remove_keeps_iff (prefs : Prefs) (account : Option Units) (messageID : Units)
    (userID groupID : Option Units) :
    let call := Call.removeFailedMessage messageID userID groupID
    (∀ key c, ((rows (before prefs account call) key c).filter (unnamed call.named)).Sublist
      (rows (run prefs account call) key c)) ↔ Told prefs account call := by
  dsimp only
  rw [run, Told]
  change (∀ key c, ((rows (settled prefs account) key c).filter _).Sublist _) ↔ _
  rcases remove_cases prefs account messageID userID groupID with
    ⟨hnone, hsame⟩ | ⟨key, found, s, hkey, hfound, hat, hrun, hrows⟩
  · rw [hsame, hnone]
    apply iff_of_true
    · intro key c
      exact List.filter_sublist
    · intro _ found hfound
      cases hfound
  · rw [hrun, hfound, frame_setString_iff hrows, hat, filter_keeps_iff]
    constructor
    · intro h hempty found' hfound' row hrow
      rw [← Option.some.inj hfound'] at hrow
      rw [← Bool.not_eq_true]
      intro hcarries
      rw [hempty] at h
      obtain ⟨x, -, hx⟩ := h row hrow hcarries
      cases hx
    · intro h row hrow hcarries
      have hmessage : messageID ≠ [] := by
        intro hempty
        have hnot := h hempty found rfl row hrow
        rw [hempty, hnot] at hcarries
        cases hcarries
      refine ⟨messageID, mem_identifiers.mpr ⟨hmessage, carries_iff.mp hcarries⟩, ?_⟩
      exact List.mem_filter.mpr ⟨List.mem_singleton_self _, decide_eq_true hmessage⟩

theorem removeByIDs_keeps_iff (prefs : Prefs) (account : Option Units) (messageIDs : List Units) :
    let call := Call.removeFailedMessagesByIDs messageIDs
    (∀ key c, ((rows (before prefs account call) key c).filter (unnamed call.named)).Sublist
      (rows (run prefs account call) key c)) ↔ Told prefs account call := by
  dsimp only
  rw [run, Told]
  by_cases hne : messageIDs = []
  · have hbefore : before prefs account (.removeFailedMessagesByIDs messageIDs) = prefs :=
      if_pos hne
    rw [hbefore, removeFailedMessagesByIDs, if_pos hne]
    apply iff_of_true
    · intro key c
      exact List.filter_sublist
    · intro hmem
      rw [hne] at hmem
      cases hmem
  · have hbefore : before prefs account (.removeFailedMessagesByIDs messageIDs) =
        settled prefs account := if_neg hne
    rw [hbefore]
    rcases removeByIDs_cases prefs account hne with
      ⟨hsame, hnone⟩ | ⟨key, hkey, helse, hrows, hscanned⟩
    · rw [hsame]
      apply iff_of_true
      · intro key c
        exact List.filter_sublist
      · intro _ row hrow
        exact absurd hrow (hnone row)
    · have hframe : (∀ key' c, ((rows (settled prefs account) key' c).filter
            (unnamed (Call.removeFailedMessagesByIDs messageIDs).named)).Sublist
            (rows (removeFailedMessagesByIDs prefs messageIDs account).1 key' c)) ↔
          ∀ c, ∀ row ∈ rows (settled prefs account) key c, matched messageIDs row = true →
            ∃ x ∈ row.identifiers, x ∈ (Call.removeFailedMessagesByIDs messageIDs).named := by
        constructor
        · intro h c
          have hhere := h key c
          rw [hrows] at hhere
          exact (filter_keeps_iff _ _ _).mp hhere
        · intro h key' c
          by_cases heq : key' = key
          · rw [heq, hrows]
            exact (filter_keeps_iff _ _ _).mpr (h c)
          · rw [rows, rows, storeAt, storeAt, helse key' heq]
            exact List.filter_sublist
      rw [hframe]
      constructor
      · intro h hempty row hrow hcarries
        obtain ⟨c, hmem⟩ := (hscanned row).mp hrow
        obtain ⟨x, hx, hnamed⟩ := h c row hmem (List.any_eq_true.mpr ⟨[], hempty, hcarries⟩)
        exact ⟨x, hx, (List.mem_filter.mp hnamed).1⟩
      · intro h c row hmem hmatched
        obtain ⟨x, hx, hcarries⟩ := List.any_eq_true.mp hmatched
        have hnamed : ∃ y ∈ row.identifiers, y ∈ messageIDs := by
          by_cases hempty : x = []
          · rw [hempty] at hx hcarries
            exact h hx row ((hscanned row).mpr ⟨c, hmem⟩) hcarries
          · exact ⟨x, mem_identifiers.mpr ⟨hempty, carries_iff.mp hcarries⟩, hx⟩
        obtain ⟨y, hy, hin⟩ := hnamed
        exact ⟨y, hy, List.mem_filter.mpr ⟨hin, decide_eq_true (mem_identifiers.mp hy).1⟩⟩

theorem failed_store_keeps_iff (prefs : Prefs) (account : Option Units) (call : Call) :
    Keeps prefs account call ↔ Told prefs account call := by
  have hrest : ∀ hframe hreplaced, Keeps prefs account call :=
    Keeps.mk (settled_migrated prefs account) (run_others prefs account call)
  cases call with
  | saveFailedMessageData messageData userID groupID =>
    refine Iff.trans ?_ (save_keeps_iff prefs account messageData userID groupID)
    constructor
    · intro h
      exact ⟨h.frame, fun key => h.replaced messageData userID groupID key rfl⟩
    · intro h
      apply hrest h.1
      intro messageData' userID' groupID' key heq
      cases heq
      exact h.2 key
  | removeFailedMessage messageID userID groupID =>
    refine Iff.trans ?_ (remove_keeps_iff prefs account messageID userID groupID)
    constructor
    · exact Keeps.frame
    · intro h
      apply hrest h
      intro _ _ _ _ heq
      cases heq
  | removeFailedMessagesByIDs messageIDs =>
    refine Iff.trans ?_ (removeByIDs_keeps_iff prefs account messageIDs)
    constructor
    · exact Keeps.frame
    · intro h
      apply hrest h
      intro _ _ _ _ heq
      cases heq

def withMessageID (msgID : String) : Row := [(ofString "msgID", .str (ofString msgID))]

/-- A row without an id takes the place of another message's row without an id. -/
theorem absent_ids_alike : ¬ Keeps
    (setString (fun _ => none) (storageKey (List.replicate 76 65))
      ((∅ : Store).insert (ofString "bob") (listOf [withMessageID "m1"])))
    (some (List.replicate 76 65))
    (.saveFailedMessageData (withMessageID "m2") (some (ofString "bob")) none) := by
  intro h
  have hsub := (h.frame (storageKey (List.replicate 76 65)) (ofString "bob")).map Row.identifiers
  revert hsub
  decide

end Tim2Tox.FailedMessages