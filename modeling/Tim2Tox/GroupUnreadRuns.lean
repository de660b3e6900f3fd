import Mathlib.Data.Finset.Card
import Tim2Tox.GroupUnreadTable

set_option autoImplicit false

/-!
# The count of twice-delivered messages

Over every run whose copies tell their message, the count and the rows the listener still has to
count grow by one for each polled copy, and every message keeps one row.
-/
namespace Tim2Tox.GroupUnread
open ChatHistory ChatMessage LabelledRuns

/-- A row on its way to the listener is still in the list or left it, with its ids. -/
def Listed (rows : List ChatMessage) (t : Tally) (e : ChatMessage) : Prop :=
  e.msgID ≠ none ∧ ∃ (k : ℕ) (r : ChatMessage) (o : Option Message), rows[k]? = some r ∧
    t.origins[k]? = some o ∧ e.isSelf = r.isSelf ∧ (∀ id ∈ e.ids, id ∈ r.ids) ∧
    ∀ m, o = some m → m ∈ t.ingested ∧ e.text = m.native.text ∧
      e.fromUserId = m.native.fromUserId ∧ e.contentKind = .action ∧
      m.native.contentKind = .action

/-- The rows the listener has still to count. -/
def owed (c : Setup) (stream : List ChatMessage) : ℕ :=
  if c.groupUnreadHandledExternally then stream.countP fun row => !row.isSelf else 0

/-- What every step keeps. -/
structure Kept (c : Setup) (msgs : List Message) (start base : ℕ) (f : Followed) : Prop where
  table : Table c msgs start f.group.rows f.tally f.group.msgIDSequence
  preview : ∀ l, f.group.lastByPeer = some l → l.msgID ≠ none ∧
    ∀ m ∈ msgs, m ∉ f.tally.ingested → ∀ id ∈ m.native.ids, id ∉ l.ids
  stream : ∀ e ∈ f.group.stream, Listed f.group.rows f.tally e
  count : f.group.unread + owed c f.group.stream = base + f.tally.ingested.length
  nodup : f.tally.ingested.Nodup

section
variable {c : Setup} {msgs : List Message} {start base : ℕ} {t t' : Tally} {m : Message}
  {rows : List ChatMessage} {sequence i : ℕ} {r message : ChatMessage}

/-! ## The row of a message among the others -/

/-- No row carries an id of a message none of whose copies came. -/
theorem Table.strange (h : Table c msgs start rows t sequence) (htold : Told c msgs)
    (hm : m ∈ msgs) (hno : some m ∉ t.origins) (hr : r ∈ rows) {id : String}
    (hid : id ∈ m.native.ids) : id ∉ r.ids := by
  intro hrow
  obtain ⟨k, hk⟩ := List.mem_iff_getElem?.mp hr
  obtain ⟨o, ho⟩ := h.origin hk
  have hne : o ≠ some m := by
    intro heq
    exact hno (heq ▸ List.mem_of_getElem? ho)
  exact (h.stands k r o hk ho).not_mem htold hm hne hrow hid

/-- A row that carries an id of the message is its row. -/
theorem Table.owner (h : Table c msgs start rows t sequence) (htold : Told c msgs)
    (hm : m ∈ msgs) {k k' : ℕ} (hk : t.origins[k]? = some (some m)) (hr : rows[k']? = some r)
    {id : String} (hid : id ∈ m.native.ids) (hrow : id ∈ r.ids) : k' = k := by
  obtain ⟨o, ho⟩ := h.origin hr
  by_cases heq : o = some m
  · rw [heq] at ho
    exact h.once k' k m ho hk
  · exact absurd hid ((h.stands k' r o hr ho).not_mem htold hm heq hrow)

/-- Of a message with no row neither copy came. -/
theorem Table.unknown (h : Table c msgs start rows t sequence) (hsaved : m ∉ t.saved)
    (hingested : m ∉ t.ingested) : some m ∉ t.origins := by
  intro hmem
  obtain ⟨k, hk⟩ := List.mem_iff_getElem?.mp hmem
  have hlt := (List.getElem?_eq_some_iff.mp hk).1
  rw [h.length] at hlt
  have hstands := h.stands k rows[k] (some m) (List.getElem?_eq_getElem hlt) hk
  rcases hstands.2.came with hs | hi
  · exact hsaved hs
  · exact hingested hi

/-- Only the row itself carries the id of a row that is a message's. -/
theorem absorbingRow_unique {list : List ChatMessage} (hi : list[i]? = some r)
    (hone : ∀ j r' id, list[j]? = some r' → r.msgID = some id → id ∈ r'.ids → j = i) :
    absorbingRow list (some i) r = some i := by
  have hlt := (List.getElem?_eq_some_iff.mp hi).1
  rw [absorbingRow]
  cases hfind : (List.range list.length).find? fun j => some j = some i ||
      (list[j]?.any fun m => r.msgID.any (idMatches m)) with
  | none =>
    rw [List.find?_eq_none] at hfind
    have hno := hfind i (List.mem_range.mpr hlt)
    simp at hno
  | some j =>
    have hj := List.find?_some hfind
    rw [Bool.or_eq_true, decide_eq_true_eq, Option.some.injEq] at hj
    rcases hj with hj | hj
    · rw [hj]
    · rw [Option.any_eq_true] at hj
      obtain ⟨r', hr', hmatch⟩ := hj
      rw [Option.any_eq_true] at hmatch
      obtain ⟨id, hid, hmatch⟩ := hmatch
      rw [hone j r' id hr' hid (idMatches_iff.mp hmatch)]

/-! ## Content -/

/-- A row with the content of a copy, when one of them has no group identity. -/
theorem alike_of_content (halias : toxGroupMessageAliasOf message = m.polled.groupAlias c)
    (hshare : chatMessagesShareGroupIdentity r message = none) (htext : r.text = m.native.text)
    (hsender : r.fromUserId = m.native.fromUserId)
    (hkind : r.contentKind = m.native.contentKind) : Alike m r := by
  refine ⟨htext, hsender, hkind, ?_⟩
  rw [chatMessagesShareGroupIdentity, halias] at hshare
  cases hr : toxGroupMessageAliasOf r with
  | none => exact .inr rfl
  | some x =>
    left
    rw [hr] at hshare
    cases hpseudo : m.pseudoMsgId with
    | none => rfl
    | some pseudo =>
      rw [Polled.groupAlias, Message.polled, hpseudo] at hshare
      cases hshare

theorem contentMatch_none {list : List ChatMessage}
    (halias : toxGroupMessageAliasOf message = m.polled.groupAlias c)
    (htext : message.text = m.native.text) (hsender : message.fromUserId = m.native.fromUserId)
    (hkind : message.contentKind = m.native.contentKind)
    (hapart : ∀ r ∈ list, Alike m r → dedupWindow < (r.timestamp - message.timestamp).natAbs) :
    contentMatch list message = none := by
  rw [contentMatch]
  split_ifs
  · rfl
  · rw [List.findIdx?_eq_none_iff]
    intro r hr
    rw [← Bool.not_eq_true]
    intro hp
    simp only [Bool.and_eq_true, decide_eq_true_eq] at hp
    obtain ⟨⟨⟨⟨⟨hshare, hrtext⟩, hrsender⟩, hrkind⟩, -⟩, hnear⟩ := hp
    have halike : Alike m r := alike_of_content halias hshare (hrtext.trans htext)
      (hrsender.trans hsender) (hrkind.trans hkind)
    have hfar := hapart r hr halike
    omega

/-! ## The rows of the stream -/

theorem Listed.mono {rows' : List ChatMessage} {e : ChatMessage} (h : Listed rows t e)
    (hrows : ∀ (k : ℕ) (r : ChatMessage), rows[k]? = some r → ∃ r', rows'[k]? = some r' ∧
      r'.isSelf = r.isSelf ∧ ∀ id ∈ r.ids, id ∈ r'.ids)
    (horigins : ∀ (k : ℕ) (o : Option Message), t.origins[k]? = some o → t'.origins[k]? = some o)
    (hingested : ∀ m ∈ t.ingested, m ∈ t'.ingested) : Listed rows' t' e := by
  obtain ⟨hnamed, k, r, o, hk, ho, hself, hids, hcontent⟩ := h
  obtain ⟨r', hk', hself', hids'⟩ := hrows k r hk
  refine ⟨hnamed, k, r', o, hk', horigins k o ho, hself.trans hself'.symm,
    fun id hid => hids' id (hids id hid), ?_⟩
  intro m heq
  obtain ⟨hmem, hrest⟩ := hcontent m heq
  exact ⟨hingested m hmem, hrest⟩

theorem Listed.add {e : ChatMessage} {o : Option Message} (h : Listed rows t e)
    (horigins : t'.origins = t.origins ++ [o]) (hingested : ∀ m ∈ t.ingested, m ∈ t'.ingested) :
    Listed (rows ++ [r]) t' e := by
  apply h.mono
  · intro k r' hk
    have hlt := (List.getElem?_eq_some_iff.mp hk).1
    exact ⟨r', by rw [List.getElem?_append_left hlt, hk], rfl, fun _ hid => hid⟩
  · intro k o' ho
    have hlt := (List.getElem?_eq_some_iff.mp ho).1
    rw [horigins, List.getElem?_append_left hlt, ho]
  · exact hingested

theorem Listed.change {e : ChatMessage} {k : ℕ} {g : ChatMessage → ChatMessage}
    (h : Listed rows t e) (hk : rows[k]? = some r) (hself : (g r).isSelf = r.isSelf)
    (hids : ∀ id ∈ r.ids, id ∈ (g r).ids) (horigins : t'.origins = t.origins)
    (hingested : ∀ m ∈ t.ingested, m ∈ t'.ingested) : Listed (rows.modify k g) t' e := by
  apply h.mono
  · intro j r' hj
    by_cases hne : j = k
    · subst hne
      rw [hk] at hj
      rw [← Option.some.inj hj]
      exact ⟨g r, by rw [List.getElem?_modify_eq, hk]; rfl, hself, hids⟩
    · exact ⟨r', by rw [List.getElem?_modify_ne _ _ (Ne.symm hne), hj], rfl, fun _ hid => hid⟩
  · intro j o ho
    rw [horigins, ho]
  · exact hingested

/-! ## The native copy -/

theorem absorb_same (sent : Option (String → Bool)) (current duplicate : ChatMessage) :
    (absorb sent current duplicate).fromUserId = current.fromUserId ∧
      (absorb sent current duplicate).text = current.text ∧
      (absorb sent current duplicate).contentKind = current.contentKind ∧
      (absorb sent current duplicate).msgID = current.msgID := by
  rw [absorb]
  split_ifs
  · exact ⟨rfl, rfl, rfl, rfl⟩
  · exact ⟨rfl, rfl, rfl, rfl⟩

variable {f : Followed}

theorem origin_iff {o : Message} :
    f.origin i = some o ↔ f.tally.origins[f.group.archived.length + i]? = some (some o) := by
  rw [Followed.origin, Option.join_eq_some_iff]

/-- What a native copy leaves behind when no copy came before it. -/
theorem savedRow_none (h : Kept c msgs start base f) (htold : Told c msgs) (hm : m ∈ msgs)
    (hno : some m ∉ f.tally.origins) (hapart : f.apart m m.native.timestamp) :
    savedRow f.group.list m.native = none := by
  rw [savedRow, Option.or_eq_none_iff]
  constructor
  · rw [List.findIdx?_eq_none_iff]
    intro r hr
    rw [Bool.and_eq_false_iff, List.any_eq_false]
    right
    intro id hid hmatch
    exact h.table.strange htold hm hno (List.mem_append_right _ hr) hid (idMatches_iff.mp hmatch)
  · split_ifs
    · rfl
    · rw [List.findIdx?_eq_none_iff]
      intro r hr
      rw [← Bool.not_eq_true]
      intro hp
      simp only [Bool.and_eq_true, decide_eq_true_eq] at hp
      obtain ⟨⟨⟨⟨⟨hshare, htext⟩, hsender⟩, -⟩, hkind⟩, hnear⟩ := hp
      obtain ⟨i, hi⟩ := List.mem_iff_getElem?.mp hr
      have hother : f.origin i ≠ some m := by
        intro heq
        exact hno (List.mem_of_getElem? (origin_iff.mp heq))
      have hfar := hapart i r hi hother
        (alike_of_content (htold.1 m hm).aliasOf hshare htext hsender hkind)
      omega

/-- A native copy finds the row its polled copy left, by its alias or by content. -/
theorem savedRow_some (h : Kept c msgs start base f) (htold : Told c msgs) (hm : m ∈ msgs)
    (htells : f.nativeTells m) (hcame : m ∈ f.tally.ingested) :
    ∃ i r, f.group.list[i]? = some r ∧ f.origin i = some m ∧
      savedRow f.group.list m.native = some i := by
  obtain ⟨hunsaved, hapart, hreach⟩ := htells
  obtain ⟨i, r, hi, ho, hnear⟩ := hreach hcame
  have hplace := origin_iff.mp ho
  have hrow : RowOf c f.tally m r := (h.table.stands _ _ _ (Group.place hi) hplace).2
  have hown : ∀ j r', f.group.list[j]? = some r' → f.origin j = some m → j = i := by
    intro j r' _ hj
    have hone := h.table.once _ _ _ (origin_iff.mp hj) hplace
    omega
  have hin := htold.1 m hm
  refine ⟨i, r, hi, ho, ?_⟩
  rw [savedRow]
  cases hpseudo : m.pseudoMsgId with
  | some pseudo =>
    have halias : m.polled.groupAlias c = some (groupMessageAlias c.gid m.native.fromUserId pseudo) := by
      rw [Polled.groupAlias, Message.polled, hpseudo]
      rfl
    have hid := hin.mem_ids.mpr (.inr halias)
    have hfound : (f.group.list.findIdx? fun msg => msg.isSelf = m.native.isSelf &&
        m.native.ids.any (idMatches msg)) = some i := by
      apply findIdx?_unique hi
      · rw [Bool.and_eq_true, decide_eq_true_eq, List.any_eq_true]
        refine ⟨hrow.inbound.trans hin.direction.symm, _, hid, idMatches_iff.mpr ?_⟩
        apply hrow.names
        rw [hin.names, halias]
        exact List.mem_singleton_self _
      · intro j r' hj hp
        rw [Bool.and_eq_true, List.any_eq_true] at hp
        obtain ⟨-, id, hmem, hmatch⟩ := hp
        have howner := h.table.owner htold hm hplace (Group.place hj) hmem (idMatches_iff.mp hmatch)
        omega
    rw [hfound]
    rfl
  | none =>
    have halias : m.polled.groupAlias c = none := by
      rw [Polled.groupAlias, Message.polled, hpseudo]
      rfl
    have hlost : (f.group.list.findIdx? fun msg => msg.isSelf = m.native.isSelf &&
        m.native.ids.any (idMatches msg)) = none := by
      rw [List.findIdx?_eq_none_iff]
      intro r' hr'
      rw [Bool.and_eq_false_iff, List.any_eq_false]
      right
      intro id hid hmatch
      obtain ⟨j, hj⟩ := List.mem_iff_getElem?.mp hr'
      have hmem := idMatches_iff.mp hmatch
      have howner := h.table.owner htold hm hplace (Group.place hj) hid hmem
      obtain rfl : j = i := by omega
      rw [hi] at hj
      rw [← Option.some.inj hj] at hmem
      rcases hin.mem_ids.mp hid with hmsg | hnamed
      · exact hunsaved ((hrow.saved id hmsg).mp hmem)
      · rw [halias] at hnamed
        cases hnamed
    obtain ⟨htext, hclose⟩ := hnear hpseudo
    have hempty : m.native.text.isEmpty = false := by
      rw [← Bool.not_eq_true, String.isEmpty_iff]
      exact htext
    rw [hlost, hempty, Option.none_or, if_neg Bool.false_ne_true]
    apply findIdx?_unique hi
    · have hshare : chatMessagesShareGroupIdentity r m.native = none := by
        rw [chatMessagesShareGroupIdentity, hrow.aliasOf hin, halias]
      simp only [Bool.and_eq_true, decide_eq_true_eq]
      exact ⟨⟨⟨⟨⟨hshare, hrow.text⟩, hrow.sender⟩, hrow.inbound.trans hin.direction.symm⟩,
        hrow.kind⟩, hclose⟩
    · intro j r' hj hp
      simp only [Bool.and_eq_true, decide_eq_true_eq] at hp
      obtain ⟨⟨⟨⟨⟨hshare, hrtext⟩, hrsender⟩, -⟩, hrkind⟩, hrnear⟩ := hp
      by_contra hne
      have hfar := hapart (fun _ => hpseudo) j r' hj (fun heq => hne (hown j r' hj heq))
        (alike_of_content hin.aliasOf hshare hrtext hrsender hrkind)
      omega

/-- The ids of a native row stand in no other row, and the service mints none of them. -/
theorem native_ids_apart (h : Table c msgs start rows t sequence) (htold : Told c msgs)
    (hm : m ∈ msgs) {k : ℕ} (hk : rows[k]? = some r) (ho : t.origins[k]? = some (some m))
    {id : String} (hid : id ∈ m.native.ids) : id ∈ r.ids ∨ ((∀ r' ∈ rows, id ∉ r'.ids) ∧
      ∀ millis seq from', id ≠ mintedId millis seq from' c.gid) := by
  by_cases hrow : id ∈ r.ids
  · exact .inl hrow
  · right
    refine ⟨?_, (htold.1 m hm).not_minted hid⟩
    intro r' hr' hmem
    obtain ⟨j, hj⟩ := List.mem_iff_getElem?.mp hr'
    have hjk := h.owner htold hm ho hj hid hmem
    rw [hjk, hk] at hj
    rw [← Option.some.inj hj] at hmem
    exact hrow hmem

theorem after_native_same {m' : Message} (hne : some m ≠ some m') :
    t.same (t.after (.native m)) m' := by
  have hother : m' ≠ m := fun heq => hne (congrArg some heq.symm)
  refine ⟨?_, Iff.rfl⟩
  rw [Tally.after, List.mem_append, List.mem_singleton]
  exact or_iff_left hother

theorem RowOf.native (hin : Inbound c m) (hsaved : m ∈ t.saved) : RowOf c t m m.native where
  inbound := hin.direction
  sender := rfl
  text := rfl
  kind := rfl
  named := by
    obtain ⟨rest, hrest⟩ := hin.id
    rw [hrest]
    exact Option.some_ne_none _
  ids := fun id hid => .inl hid
  saved := fun id hid => ⟨fun _ => hsaved, fun _ => ChatHistory.mem_ids.mpr (.inl hid)⟩
  names := fun id hid => ChatHistory.mem_ids.mpr (.inr hid)
  came := .inl hsaved
  plain := fun _ => ⟨rfl, rfl⟩

/-- A native copy that is first adds the row. -/
theorem Kept.native_first (h : Kept c msgs start base f) (htold : Told c msgs) (hm : m ∈ msgs)
    (htells : f.nativeTells m) (hfirst : m ∉ f.tally.ingested) :
    Kept c msgs start base ⟨saveMessage c f.group m.native, f.tally.after (.native m)⟩ := by
  obtain ⟨hunsaved, hapart, -⟩ := htells
  have hno := h.table.unknown hunsaved hfirst
  have hfar := hapart fun hcame => absurd hcame hfirst
  have hstrange : ∀ r ∈ f.group.rows, ∀ id ∈ m.native.ids, id ∉ r.ids :=
    fun r hr id hid => h.table.strange htold hm hno hr hid
  have hsave : saveMessage c f.group m.native = f.group.append c m.native := by
    rw [saveMessage, savedRow_none h htold hm hno hfar]
  have hmatch : matchingRow f.group.list m.native = none :=
    matchingRow_none fun r hr _ => hstrange r (List.mem_append_right _ hr)
  have hcontent : contentMatch f.group.list m.native = none := by
    apply contentMatch_none (htold.1 m hm).aliasOf rfl rfl rfl
    intro r hr halike
    obtain ⟨i, hi⟩ := List.mem_iff_getElem?.mp hr
    refine hfar i r hi ?_ halike
    intro heq
    exact hno (List.mem_of_getElem? (origin_iff.mp heq))
  have horigins : (f.tally.after (.native m)).origins = f.tally.origins ++ [some m] := by
    rw [Tally.after, if_neg hfirst]
  have hsaved : m ∈ (f.tally.after (.native m)).saved :=
    List.mem_append_right _ (List.mem_singleton_self m)
  rw [hsave]
  refine ⟨?_, h.preview, ?_, h.count, h.nodup⟩
  · rw [Group.append_new hmatch hcontent]
    apply h.table.add horigins
    · intro m' heq
      rw [← Option.some.inj heq]
      exact hno
    · intro m' hne
      exact after_native_same hne
    · exact ⟨hm, RowOf.native (htold.1 m hm) hsaved⟩
    · exact hstrange
    · exact le_refl _
    · intro id hid millis seq from' heq
      exact absurd heq ((htold.1 m hm).not_minted hid millis seq from')
  · rw [Group.append_new hmatch hcontent]
    intro e he
    exact (h.stream e he).add horigins fun m' hm' => hm'

/-- A native copy that is second leaves its ids to the row. -/
theorem Kept.native_second (h : Kept c msgs start base f) (htold : Told c msgs) (hm : m ∈ msgs)
    (htells : f.nativeTells m) (hcame : m ∈ f.tally.ingested) :
    Kept c msgs start base ⟨saveMessage c f.group m.native, f.tally.after (.native m)⟩ := by
  obtain ⟨i, r, hi, ho, hfound⟩ := savedRow_some h htold hm htells hcame
  have hplace := origin_iff.mp ho
  have hk := Group.place hi
  have hrow : RowOf c f.tally m r := (h.table.stands _ _ _ hk hplace).2
  have habsorbing : absorbingRow f.group.list (some i) r = some i := by
    apply absorbingRow_unique hi
    intro j r' id hj hid hmem
    by_contra hne
    exact h.table.alone _ _ r r' m (by omega) hk (Group.place hj) hplace id
      (ChatHistory.mem_ids.mpr (.inl hid)) hmem
  have hsave : saveMessage c f.group m.native = { f.group with
      list := f.group.list.modify i (absorb c.sentThisSession · m.native) } := by
    rw [saveMessage, hfound]
    dsimp only
    rw [hi]
    dsimp only
    rw [absorbDuplicateIds, habsorbing]
  have hrows : (saveMessage c f.group m.native).rows = f.group.rows.modify
      (f.group.archived.length + i) (absorb c.sentThisSession · m.native) := by
    rw [hsave]
    exact @Group.rows_modify f.group i (absorb c.sentThisSession · m.native)
  have hsequence : (saveMessage c f.group m.native).msgIDSequence = f.group.msgIDSequence := by
    rw [hsave]
  have hpreview : (saveMessage c f.group m.native).lastByPeer = f.group.lastByPeer := by
    rw [hsave]
  have hunread : (saveMessage c f.group m.native).unread = f.group.unread := by
    rw [hsave]
  have hstream : (saveMessage c f.group m.native).stream = f.group.stream := by
    rw [hsave]
  have horigins : (f.tally.after (.native m)).origins = f.tally.origins := by
    rw [Tally.after, if_pos hcame]
  have hsaved : m ∈ (f.tally.after (.native m)).saved :=
    List.mem_append_right _ (List.mem_singleton_self m)
  have hsame := absorb_same c.sentThisSession r m.native
  have hself := absorb_isSelf c.sentThisSession r m.native
  refine ⟨?_, ?_, ?_, ?_, h.nodup⟩
  · rw [hrows, hsequence]
    apply h.table.change hk hplace horigins
    · intro m' hne
      exact after_native_same hne
    · refine ⟨hm, ?_⟩
      constructor
      · exact hself.trans hrow.inbound
      · exact hsame.1.trans hrow.sender
      · exact hsame.2.1.trans hrow.text
      · exact hsame.2.2.1.trans hrow.kind
      · rw [hsame.2.2.2]
        exact hrow.named
      · intro id hid
        rcases mem_ids_absorb.mp hid with hold | hnew
        · exact hrow.ids id hold
        · exact .inl hnew
      · intro id hid
        refine ⟨fun _ => hsaved, fun _ => mem_ids_absorb.mpr (.inr ?_)⟩
        exact ChatHistory.mem_ids.mpr (.inl hid)
      · intro id hid
        exact mem_ids_absorb.mpr (.inl (hrow.names id hid))
      · exact .inl hsaved
      · intro hno
        exact absurd hcame hno
    · intro id hid
      rcases mem_ids_absorb.mp hid with hold | hnew
      · exact .inl hold
      · rcases native_ids_apart h.table htold hm hk hplace hnew with hold | hfree
        · exact .inl hold
        · exact .inr (.inl hfree)
  · rw [hpreview]
    exact h.preview
  · rw [hrows, hstream]
    intro e he
    apply (h.stream e he).change hk hself _ horigins fun m' hm' => hm'
    intro id hid
    exact mem_ids_absorb.mpr (.inl hid)
  · rw [hunread, hstream]
    exact h.count

/-! ## The polled copy -/

theorem sameContent_alike {nowMs : ℕ} (hin : Inbound c m)
    (h : sameContent m.polled (m.polled.groupAlias c) nowMs r = true) :
    Alike m r ∧ (r.millis - nowMs).natAbs < 5000 := by
  rw [sameContent] at h
  simp only [Bool.and_eq_true, Bool.not_eq_true', decide_eq_true_eq] at h
  obtain ⟨⟨⟨⟨hshare, hsender⟩, htext⟩, hkind⟩, hnear⟩ := h
  refine ⟨alike_of_content hin.aliasOf ?_ htext hsender hkind, hnear⟩
  rw [chatMessagesShareGroupIdentity, hin.aliasOf]
  cases hr : toxGroupMessageAliasOf r with
  | none => rfl
  | some x =>
    cases halias : m.polled.groupAlias c with
    | none => rfl
    | some y =>
      rw [hr, halias] at hshare
      cases hshare

/-- A polled copy that is first finds no row. -/
theorem find_none {nowMs : ℕ} (h : Kept c msgs start base f) (htold : Told c msgs) (hm : m ∈ msgs)
    (hno : some m ∉ f.tally.origins)
    (hfar : ∀ i r, f.group.list[i]? = some r → f.origin i ≠ some m →
      f.group.list.length ≤ i + 20 → Alike m r → 5000 ≤ (r.millis - nowMs).natAbs) :
    findRecentGroupHistoryMessage c f.group.list m.polled nowMs = none := by
  rw [findRecentGroupHistoryMessage, Option.or_eq_none_iff]
  constructor
  · rw [Option.bind_eq_none_iff]
    intro id hid
    apply lastPlace_none
    intro j r hj _
    rw [← Bool.not_eq_true, Bool.and_eq_true]
    intro hp
    exact h.table.strange htold hm hno (List.mem_append_right _ (List.mem_of_getElem? hj))
      ((htold.1 m hm).mem_ids.mpr (.inr hid)) (idMatches_iff.mp hp.2)
  · apply lastPlace_none
    intro j r hj hstart
    rw [← Bool.not_eq_true]
    intro hp
    obtain ⟨halike, hnear⟩ := sameContent_alike (htold.1 m hm) hp
    have hother : f.origin j ≠ some m := by
      intro heq
      exact hno (List.mem_of_getElem? (origin_iff.mp heq))
    have hfive := hfar j r hj hother (by omega) halike
    omega

/-- A polled copy that is second finds the native row, by its alias or by content. -/
theorem find_some {nowMs timestamp : ℕ} (h : Kept c msgs start base f) (htold : Told c msgs)
    (hm : m ∈ msgs) (htells : f.polledTells c start m nowMs timestamp)
    (hcame : m ∈ f.tally.saved) :
    ∃ i r, f.group.list[i]? = some r ∧ f.origin i = some m ∧
      findRecentGroupHistoryMessage c f.group.list m.polled nowMs = some i := by
  obtain ⟨-, -, hfar, -, hreach, -⟩ := htells
  obtain ⟨i, r, hi, ho, hnear⟩ := hreach hcame
  have hplace := origin_iff.mp ho
  have hrow : RowOf c f.tally m r := (h.table.stands _ _ _ (Group.place hi) hplace).2
  have hin := htold.1 m hm
  refine ⟨i, r, hi, ho, ?_⟩
  rw [findRecentGroupHistoryMessage]
  cases hpseudo : m.pseudoMsgId with
  | some pseudo =>
    have halias : m.polled.groupAlias c = some (groupMessageAlias c.gid m.native.fromUserId pseudo) := by
      rw [Polled.groupAlias, Message.polled, hpseudo]
      rfl
    have hfound : lastPlace f.group.list 0 (fun m' => !m'.isSelf && idMatches m'
        (groupMessageAlias c.gid m.native.fromUserId pseudo)) = some i := by
      apply lastPlace_unique hi (Nat.zero_le i)
      · rw [hrow.inbound, Bool.not_false, Bool.true_and, idMatches_iff]
        apply hrow.names
        rw [hin.names, halias]
        exact List.mem_singleton_self _
      · intro j r' hj _ hp
        rw [Bool.and_eq_true] at hp
        have howner := h.table.owner htold hm hplace (Group.place hj)
          (hin.mem_ids.mpr (.inr halias)) (idMatches_iff.mp hp.2)
        omega
    rw [halias, Option.bind_some, hfound]
    rfl
  | none =>
    have halias : m.polled.groupAlias c = none := by
      rw [Polled.groupAlias, Message.polled, hpseudo]
      rfl
    obtain ⟨hrecent, hclose⟩ := hnear hpseudo
    rw [halias, Option.bind_none, Option.none_or, ← halias]
    apply lastPlace_unique hi (by omega)
    · rw [sameContent, halias]
      simp only [Bool.and_eq_true, decide_eq_true_eq]
      exact ⟨⟨⟨⟨rfl, hrow.sender⟩, hrow.text⟩, hrow.kind⟩, hclose⟩
    · intro j r' hj hstart hp
      obtain ⟨halike, hrnear⟩ := sameContent_alike hin hp
      by_contra hne
      have hother : f.origin j ≠ some m := by
        intro heq
        have hone := h.table.once _ _ _ (origin_iff.mp heq) hplace
        exact hne (by omega)
      have hfive := hfar (fun _ => hpseudo) j r' hj hother (by omega) halike
      omega

theorem emit_frame (s : Group) (message : ChatMessage) (force : Bool) :
    (s.emit message force).rows = s.rows ∧ (s.emit message force).lastByPeer = s.lastByPeer ∧
      (s.emit message force).msgIDSequence = s.msgIDSequence ∧
      (s.emit message force).unread = s.unread ∧
      (s.emit message force).stream = s.stream ++ if force then [message] else [] := by
  rw [Group.emit]
  split_ifs
  · exact ⟨rfl, rfl, rfl, rfl, rfl⟩
  · exact ⟨rfl, rfl, rfl, rfl, (List.append_nil _).symm⟩

theorem owed_append (c : Setup) (stream : List ChatMessage) (message : ChatMessage) :
    owed c (stream ++ [message]) = owed c stream +
      if c.groupUnreadHandledExternally && !message.isSelf then 1 else 0 := by
  rw [owed, owed, List.countP_append, List.countP_singleton]
  cases c.groupUnreadHandledExternally with
  | false => rfl
  | true => rfl

/-- The group as the fresh row is on its way, before the count. -/
def ingestedGroup (c : Setup) (s : Group) (p : Polled) (timestamp : ℕ) : Group :=
  (({ s with
      msgIDSequence := s.msgIDSequence + 1
      lastByPeer := some (ingestedRow c s p timestamp) } : Group).append c
    (ingestedRow c s p timestamp)).emit (ingestedRow c s p timestamp)
      (p.forceEmit || isControlSignalText p.text)

variable {s : Group} {p : Polled} {nowMs timestamp : ℕ}

theorem ingestedGroup_frame :
    (ingestedGroup c s p timestamp).lastByPeer = some (ingestedRow c s p timestamp) ∧
      (ingestedGroup c s p timestamp).msgIDSequence = s.msgIDSequence + 1 ∧
      (ingestedGroup c s p timestamp).unread = s.unread ∧
      (ingestedGroup c s p timestamp).stream = s.stream ++
        if p.forceEmit || isControlSignalText p.text then [ingestedRow c s p timestamp] else [] := by
  have hframe := emit_frame (({ s with
      msgIDSequence := s.msgIDSequence + 1
      lastByPeer := some (ingestedRow c s p timestamp) } : Group).append c
    (ingestedRow c s p timestamp)) (ingestedRow c s p timestamp)
      (p.forceEmit || isControlSignalText p.text)
  exact ⟨hframe.2.1, hframe.2.2.1, hframe.2.2.2.1, hframe.2.2.2.2⟩

theorem ingestedGroup_rows (hmatch : matchingRow s.list (ingestedRow c s p timestamp) = none)
    (hcontent : contentMatch s.list (ingestedRow c s p timestamp) = none) :
    (ingestedGroup c s p timestamp).rows = s.rows ++ [ingestedRow c s p timestamp] := by
  rw [ingestedGroup, (emit_frame _ _ _).1]
  exact Group.append_new hmatch hcontent

theorem ingestFresh_eq : ingestFresh c s p timestamp =
    if !c.groupUnreadHandledExternally || !(p.forceEmit || isControlSignalText p.text) then
      { ingestedGroup c s p timestamp with
        unread := if c.active then 0
          else if !(ingestedRow c s p timestamp).isSelf then
            (ingestedGroup c s p timestamp).unread + 1
          else (ingestedGroup c s p timestamp).unread }
    else ingestedGroup c s p timestamp :=
  rfl

theorem ingestFresh_frame : (ingestFresh c s p timestamp).rows = (ingestedGroup c s p timestamp).rows ∧
    (ingestFresh c s p timestamp).lastByPeer = (ingestedGroup c s p timestamp).lastByPeer ∧
    (ingestFresh c s p timestamp).msgIDSequence = (ingestedGroup c s p timestamp).msgIDSequence ∧
    (ingestFresh c s p timestamp).stream = (ingestedGroup c s p timestamp).stream := by
  by_cases hown : (!c.groupUnreadHandledExternally ||
      !(p.forceEmit || isControlSignalText p.text)) = true
  · rw [ingestFresh_eq, if_pos hown]
    exact ⟨rfl, rfl, rfl, rfl⟩
  · rw [ingestFresh_eq, if_neg hown]
    exact ⟨rfl, rfl, rfl, rfl⟩

/-- The fresh row is counted now or when the listener hears of it. -/
theorem ingestFresh_count (hactive : c.active = false)
    (hself : (ingestedRow c s p timestamp).isSelf = false) :
    (ingestFresh c s p timestamp).unread + owed c (ingestFresh c s p timestamp).stream =
      s.unread + owed c s.stream + 1 := by
  obtain ⟨-, -, hunread, hstream⟩ := @ingestedGroup_frame c s p timestamp
  rw [ingestFresh_frame.2.2.2, hstream]
  have hcount : (ingestFresh c s p timestamp).unread =
      if !c.groupUnreadHandledExternally || !(p.forceEmit || isControlSignalText p.text) then
        s.unread + 1 else s.unread := by
    by_cases hown : (!c.groupUnreadHandledExternally ||
        !(p.forceEmit || isControlSignalText p.text)) = true
    · rw [ingestFresh_eq, if_pos hown, if_pos hown, hactive, hself, hunread]
      rfl
    · rw [ingestFresh_eq, if_neg hown, if_neg hown, hunread]
  rw [hcount]
  cases hemitted : p.forceEmit || isControlSignalText p.text with
  | false =>
    rw [Bool.not_false, Bool.or_true, if_pos rfl, if_neg Bool.false_ne_true, List.append_nil]
    omega
  | true =>
    rw [if_pos rfl, owed_append, hself]
    cases c.groupUnreadHandledExternally with
    | false =>
      change s.unread + 1 + (owed c s.stream + 0) = s.unread + owed c s.stream + 1
      omega
    | true => exact (Nat.add_assoc _ _ _).symm

theorem after_polled_same {m' : Message} (hne : some m ≠ some m') :
    t.same (t.after (.polled m nowMs timestamp)) m' := by
  have hother : m' ≠ m := fun heq => hne (congrArg some heq.symm)
  refine ⟨Iff.rfl, ?_⟩
  rw [Tally.after, List.mem_append, List.mem_singleton]
  exact or_iff_left hother

theorem mem_ids_ingested {id : String} : id ∈ (ingestedRow c s p timestamp).ids ↔
    id = mintedId timestamp s.msgIDSequence p.fromUserId c.gid ∨ p.groupAlias c = some id := by
  rw [ChatHistory.mem_ids, ingestedRow, Option.mem_toList, Option.some.injEq, eq_comm]

theorem RowOf.ingested (hin : Inbound c m) (hunsaved : m ∉ t.saved) (hcame : m ∈ t.ingested) :
    RowOf c t m (ingestedRow c s m.polled timestamp) where
  inbound := decide_eq_false hin.other
  sender := rfl
  text := rfl
  kind := rfl
  named := Option.some_ne_none _
  ids := by
    intro id hid
    rcases mem_ids_ingested.mp hid with hminted | halias
    · exact .inr ⟨_, _, hminted⟩
    · exact .inl (hin.mem_ids.mpr (.inr halias))
  saved := by
    intro id hid
    refine iff_of_false ?_ hunsaved
    intro hmem
    rcases mem_ids_ingested.mp hmem with hminted | halias
    · exact hin.not_minted (hin.mem_ids.mpr (.inl hid)) _ _ _ hminted
    · have htrue := groupAlias_isAlias halias
      rw [hin.id_not_alias hid] at htrue
      cases htrue
  names := by
    intro id hid
    rw [hin.names, Option.mem_toList] at hid
    exact mem_ids_ingested.mpr (.inr hid)
  came := .inr hcame
  plain := fun hno => absurd hcame hno

/-- The preview shows a row whose polled copy came. -/
theorem Stands.preview (htold : Told c msgs) (h : Stands c msgs t r (some m))
    (hcame : m ∈ t.ingested) : r.msgID ≠ none ∧
      ∀ m' ∈ msgs, m' ∉ t.ingested → ∀ id ∈ m'.native.ids, id ∉ r.ids := by
  refine ⟨h.2.named, ?_⟩
  intro m' hm' hno id hid hmem
  have hne : some m ≠ some m' := by
    intro heq
    exact hno (Option.some.inj heq ▸ hcame)
  exact h.not_mem htold hm' hne hmem hid

/-- A polled copy that is first adds the row. -/
theorem Kept.polled_first (h : Kept c msgs start base f) (hquit : c.quit = false)
    (hactive : c.active = false) (htold : Told c msgs) (hm : m ∈ msgs)
    (htells : f.polledTells c start m nowMs timestamp) (hfirst : m ∉ f.tally.saved) :
    Kept c msgs start base ⟨(ingestInboundGroupText c f.group m.polled nowMs timestamp).1,
      f.tally.after (.polled m nowMs timestamp)⟩ := by
  obtain ⟨hnew, hclock, hfar, hapart, -, -⟩ := htells
  have hin := htold.1 m hm
  have hno := h.table.unknown hfirst hnew
  have hfind := find_none h htold hm hno (hfar fun hsaved => absurd hsaved hfirst)
  have hingest : (ingestInboundGroupText c f.group m.polled nowMs timestamp).1 =
      ingestFresh c f.group m.polled timestamp := by
    rw [ingestInboundGroupText, hquit, if_neg Bool.false_ne_true, hfind]
  have hstrange : ∀ r ∈ f.group.rows, ∀ id ∈ (ingestedRow c f.group m.polled timestamp).ids,
      id ∉ r.ids := by
    intro r hr id hid hmem
    rcases mem_ids_ingested.mp hid with hminted | halias
    · rcases h.table.minted r hr id hmem _ _ _ hminted with hbefore | hbefore
      · omega
      · omega
    · exact h.table.strange htold hm hno hr (hin.mem_ids.mpr (.inr halias)) hmem
  have horigins : (f.tally.after (.polled m nowMs timestamp)).origins =
      f.tally.origins ++ [some m] := by
    rw [Tally.after, if_neg hfirst]
  have hcame : m ∈ (f.tally.after (.polled m nowMs timestamp)).ingested :=
    List.mem_append_right _ (List.mem_singleton_self m)
  have hrow : RowOf c (f.tally.after (.polled m nowMs timestamp)) m
      (ingestedRow c f.group m.polled timestamp) := RowOf.ingested hin hfirst hcame
  have hmatch : matchingRow f.group.list (ingestedRow c f.group m.polled timestamp) = none :=
    matchingRow_none fun r hr _ => hstrange r (List.mem_append_right _ hr)
  have hcontent : contentMatch f.group.list (ingestedRow c f.group m.polled timestamp) = none := by
    apply contentMatch_none (hrow.aliasOf hin) rfl rfl rfl
    intro r hr halike
    obtain ⟨i, hi⟩ := List.mem_iff_getElem?.mp hr
    refine hapart hfirst i r hi ?_ halike
    intro heq
    exact hno (List.mem_of_getElem? (origin_iff.mp heq))
  have hrows := ingestFresh_frame.1.trans (ingestedGroup_rows hmatch hcontent)
  have hpreview := ingestFresh_frame.2.1.trans
    (@ingestedGroup_frame c f.group m.polled timestamp).1
  have hsequence := ingestFresh_frame.2.2.1.trans
    (@ingestedGroup_frame c f.group m.polled timestamp).2.1
  have hstream := ingestFresh_frame.2.2.2.trans
    (@ingestedGroup_frame c f.group m.polled timestamp).2.2.2
  rw [hingest]
  refine ⟨?_, ?_, ?_, ?_, ?_⟩
  · rw [hrows, hsequence]
    apply h.table.add horigins
    · intro m' heq
      rw [← Option.some.inj heq]
      exact hno
    · intro m' hne
      exact after_polled_same hne
    · exact ⟨hm, hrow⟩
    · exact hstrange
    · exact Nat.le_succ _
    · intro id hid millis seq from' heq
      rcases mem_ids_ingested.mp hid with hminted | halias
      · have hseq := (mintedId_inj (hminted.symm.trans heq)).2
        omega
      · exact absurd heq (hin.not_minted (hin.mem_ids.mpr (.inr halias)) millis seq from')
  · intro l hl
    rw [hpreview] at hl
    rw [← Option.some.inj hl]
    exact Stands.preview htold ⟨hm, hrow⟩ hcame
  · rw [hrows, hstream]
    intro e he
    rcases List.mem_append.mp he with he | he
    · exact (h.stream e he).add horigins fun m' hm' => List.mem_append_left _ hm'
    · split_ifs at he with hemitted
      · rw [List.mem_singleton.mp he]
        rw [show isControlSignalText m.polled.text = false from hin.content, Bool.or_false]
          at hemitted
        have haction : m.native.contentKind = .action := of_decide_eq_true hemitted
        refine ⟨hrow.named, f.group.rows.length, _, some m, List.getElem?_concat_length, ?_, rfl,
          fun _ hid => hid, ?_⟩
        · rw [horigins, ← h.table.length, List.getElem?_concat_length]
        · intro m' heq
          rw [← Option.some.inj heq]
          exact ⟨hcame, rfl, rfl, haction, haction⟩
      · cases he
  · have hcount := ingestFresh_count hactive hrow.inbound
    have hbase := h.count
    have hlength : (f.tally.after (.polled m nowMs timestamp)).ingested.length =
        f.tally.ingested.length + 1 := List.length_append
    rw [hlength]
    exact hcount.trans (by omega)
  · rw [Tally.after, ← List.concat_eq_append]
    exact h.nodup.concat hnew

/-- A polled copy that is second counts the native row: its own ids are the row's, so neither
    the preview nor a count of ours stands for it. -/
theorem Kept.polled_second (h : Kept c msgs start base f) (hquit : c.quit = false)
    (hactive : c.active = false) (htold : Told c msgs) (hm : m ∈ msgs)
    (htells : f.polledTells c start m nowMs timestamp) (hcame : m ∈ f.tally.saved) :
    Kept c msgs start base ⟨(ingestInboundGroupText c f.group m.polled nowMs timestamp).1,
      f.tally.after (.polled m nowMs timestamp)⟩ := by
  obtain ⟨i, r, hi, ho, hfind⟩ := find_some h htold hm htells hcame
  obtain ⟨hnew, -, -, -, -, hforced⟩ := htells
  have hin := htold.1 m hm
  have hplace := origin_iff.mp ho
  have hk := Group.place hi
  have hrow : RowOf c f.tally m r := (h.table.stands _ _ _ hk hplace).2
  obtain ⟨hmsgID, haltMsgIds⟩ := hrow.plain hnew
  have hmerge : mergeGroupAliasIntoRow f.group.list i r (m.polled.groupAlias c) = f.group.list := by
    cases halias : m.polled.groupAlias c with
    | none => rfl
    | some id =>
      have hmem : id ∈ r.altMsgIds := by
        rw [haltMsgIds, hin.names, halias]
        exact List.mem_singleton_self id
      exact if_pos hmem
  have hreflected : alreadyReflected c.gid f.group.lastByPeer r = false := by
    cases hlast : f.group.lastByPeer with
    | none => rfl
    | some last =>
      rw [alreadyReflected]
      obtain ⟨hnamed, hapart⟩ := h.preview last hlast
      obtain ⟨rest, hid⟩ := hin.id
      cases hlastId : last.msgID with
      | none => exact absurd hlastId hnamed
      | some lastId =>
        have hids : ∀ id ∈ r.ids, id ∉ last.ids := by
          intro id hmem
          apply hapart m hm hnew
          rw [ChatHistory.mem_ids, ← hmsgID, ← haltMsgIds, ← ChatHistory.mem_ids]
          exact hmem
        have hown : "msg_" ++ rest ∈ r.ids := ChatHistory.mem_ids.mpr (.inl (hmsgID.trans hid))
        have hlastOwn : lastId ∈ last.ids := ChatHistory.mem_ids.mpr (.inl hlastId)
        rw [hmsgID, hid, Bool.and_eq_false_iff]
        right
        simp only [Bool.or_eq_false_iff, decide_eq_false_iff_not]
        refine ⟨⟨?_, ?_⟩, ?_⟩
        · intro heq
          exact hids _ hown (heq ▸ hlastOwn)
        · intro hmem
          exact hids _ hown (ChatHistory.mem_ids.mpr (.inr hmem))
        · intro hmem
          exact hids _ (ChatHistory.mem_ids.mpr (.inr hmem)) hlastOwn
  have hminted : selfMinted c m.polled r = false := by
    rw [selfMinted, hmsgID]
    exact hin.foreign
  have hingest : (ingestInboundGroupText c f.group m.polled nowMs timestamp).1 =
      ({ f.group with lastByPeer := some r, unread := f.group.unread + 1 } : Group).emit r
        m.polled.forceEmit := by
    rw [ingestInboundGroupText, hquit, if_neg Bool.false_ne_true, hfind]
    dsimp only
    rw [hi]
    dsimp only
    rw [ingestDuplicate, hreflected, if_neg Bool.false_ne_true, hmerge, hactive, hminted]
    rfl
  have hframe := emit_frame { f.group with lastByPeer := some r, unread := f.group.unread + 1 } r
    m.polled.forceEmit
  rw [← hingest] at hframe
  obtain ⟨hrows, hpreview, hsequence, hunread, hstream⟩ := hframe
  have horigins : (f.tally.after (.polled m nowMs timestamp)).origins = f.tally.origins := by
    rw [Tally.after, if_pos hcame]
  have hlater : m ∈ (f.tally.after (.polled m nowMs timestamp)).ingested :=
    List.mem_append_right _ (List.mem_singleton_self m)
  have hrow' : RowOf c (f.tally.after (.polled m nowMs timestamp)) m r :=
    { hrow with came := .inl hcame, plain := fun hno => absurd hlater hno }
  refine ⟨?_, ?_, ?_, ?_, ?_⟩
  · rw [hrows, hsequence]
    have hchange := h.table.change (g := id) hk hplace horigins
      (fun m' hne => after_polled_same hne) ⟨hm, hrow'⟩ fun id hid => .inl hid
    rw [List.modify_id] at hchange
    exact hchange
  · intro l hl
    rw [hpreview] at hl
    rw [← Option.some.inj hl]
    exact Stands.preview htold ⟨hm, hrow'⟩ hlater
  · rw [hrows, hstream]
    intro e he
    rcases List.mem_append.mp he with he | he
    · apply (h.stream e he).mono
      · intro k r' hk'
        exact ⟨r', hk', rfl, fun _ hid => hid⟩
      · intro k o' ho'
        rw [horigins, ho']
      · intro m' hm'
        exact List.mem_append_left _ hm'
    · split_ifs at he with hforce
      · have haction : m.native.contentKind = .action := of_decide_eq_true hforce
        rw [List.mem_singleton.mp he]
        refine ⟨hrow.named, _, r, some m, hk, horigins ▸ hplace, rfl, fun _ hid => hid, ?_⟩
        intro m' heq
        rw [← Option.some.inj heq]
        exact ⟨hlater, hrow.text, hrow.sender, hrow.kind.trans haction, haction⟩
      · cases he
  · have hbase := h.count
    have hlength : (f.tally.after (.polled m nowMs timestamp)).ingested.length =
        f.tally.ingested.length + 1 := List.length_append
    have howed : owed c (f.group.stream ++ if m.polled.forceEmit then [r] else []) =
        owed c f.group.stream := by
      cases hforce : m.polled.forceEmit with
      | false => rw [if_neg Bool.false_ne_true, List.append_nil]
      | true =>
        rw [if_pos rfl, owed_append, hforced hcame (of_decide_eq_true hforce)]
        rfl
    rw [hunread, hstream, howed, hlength]
    change f.group.unread + 1 + owed c f.group.stream = base + (f.tally.ingested.length + 1)
    omega
  · rw [Tally.after, ← List.concat_eq_append]
    exact h.nodup.concat hnew

/-! ## What is sent, and what the listener hears -/

/-- Our own row of a queued message. -/
def queuedRow (c : Setup) (text : String) (contentKind : ContentKind) (id : String) (nowMs : ℕ) :
    ChatMessage where
  text := text
  fromUserId := c.selfId
  isSelf := true
  timestamp := nowMs * 1000
  groupId := some c.gid
  isPending := true
  contentKind := contentKind
  msgID := some id

/-- A queued message with a new id adds its row and counts nothing. -/
theorem sendGroupText_frame {text : String} {contentKind : ContentKind}
    {clientMessageID groupAlias : Option String} {id : String}
    (hid : clientMessageID.or (some (mintedId nowMs s.msgIDSequence c.selfId c.gid)) = some id)
    (hnew : ∀ r ∈ s.rows, id ∉ r.ids) :
    (sendGroupText c s text contentKind clientMessageID groupAlias true nowMs).rows =
        s.rows ++ [queuedRow c text contentKind id nowMs] ∧
      (sendGroupText c s text contentKind clientMessageID groupAlias true nowMs).lastByPeer =
        some (queuedRow c text contentKind id nowMs) ∧
      (sendGroupText c s text contentKind clientMessageID groupAlias true nowMs).msgIDSequence =
        (if clientMessageID.isSome then s.msgIDSequence else s.msgIDSequence + 1) ∧
      (sendGroupText c s text contentKind clientMessageID groupAlias true nowMs).unread = s.unread ∧
      (sendGroupText c s text contentKind clientMessageID groupAlias true nowMs).stream =
        s.stream ++ [queuedRow c text contentKind id nowMs] := by
  have hframe := emit_frame
    (({ s with
        msgIDSequence := if clientMessageID.isSome then s.msgIDSequence else s.msgIDSequence + 1
        lastByPeer := some (queuedRow c text contentKind id nowMs) } : Group).append c
      (queuedRow c text contentKind id nowMs)) (queuedRow c text contentKind id nowMs) true
  rw [sendGroupText, hid]
  refine ⟨hframe.1.trans (Group.append_new ?_ ?_), hframe.2.1, hframe.2.2.1, hframe.2.2.2.1,
    hframe.2.2.2.2⟩
  · apply matchingRow_none
    intro r hr _ x hx hmem
    rw [List.mem_singleton.mp hx] at hmem
    exact hnew r (List.mem_append_right _ hr) hmem
  · rw [contentMatch, queuedRow, Bool.or_true, if_pos rfl]

theorem Kept.sent {text : String} {contentKind : ContentKind}
    {clientMessageID groupAlias : Option String} (h : Kept c msgs start base f)
    (htold : Told c msgs) (hclock : start ≤ nowMs)
    (hclient : ∀ id, clientMessageID = some id → f.newId c msgs start id) :
    Kept c msgs start base
      ⟨sendGroupText c f.group text contentKind clientMessageID groupAlias true nowMs,
        f.tally.after (.sent text contentKind clientMessageID groupAlias true nowMs)⟩ := by
  -- the id of the row is in no row, names no message and is none the service is still to mint
  have hfresh : ∃ id, clientMessageID.or
        (some (mintedId nowMs f.group.msgIDSequence c.selfId c.gid)) = some id ∧
      (∀ r ∈ f.group.rows, id ∉ r.ids) ∧ (∀ m ∈ msgs, id ∉ m.native.ids) ∧
      ∀ millis seq from', id = mintedId millis seq from' c.gid → millis < start ∨ seq <
        if clientMessageID.isSome then f.group.msgIDSequence else f.group.msgIDSequence + 1 := by
    cases hid : clientMessageID with
    | some id => exact ⟨id, rfl, hclient id hid⟩
    | none =>
      refine ⟨_, rfl, ?_, ?_, ?_⟩
      · intro r hr hmem
        rcases h.table.minted r hr _ hmem _ _ _ rfl with hbefore | hbefore
        · omega
        · omega
      · intro m hm hmem
        exact (htold.1 m hm).not_minted hmem _ _ _ rfl
      · intro millis seq from' heq
        have hseq := (mintedId_inj heq).2
        right
        rw [Option.isSome_none, if_neg Bool.false_ne_true]
        omega
  obtain ⟨id, hid, hrows', hmsgs, hminted⟩ := hfresh
  obtain ⟨hrows, hpreview, hsequence, hunread, hstream⟩ := @sendGroupText_frame c f.group nowMs text
    contentKind clientMessageID groupAlias id hid hrows'
  have honly : ∀ x ∈ (queuedRow c text contentKind id nowMs).ids, x = id :=
    fun x hx => List.mem_singleton.mp hx
  have hnamed : (queuedRow c text contentKind id nowMs).msgID ≠ none := Option.some_ne_none id
  have hforeign : ∀ x ∈ (queuedRow c text contentKind id nowMs).ids, ∀ m ∈ msgs,
      x ∉ m.native.ids := by
    intro x hx m hm
    rw [honly x hx]
    exact hmsgs m hm
  refine ⟨?_, ?_, ?_, ?_, h.nodup⟩
  · rw [hrows, hsequence]
    apply h.table.add (o := none) rfl
    · intro m hm
      cases hm
    · intro m _
      exact ⟨Iff.rfl, Iff.rfl⟩
    · exact ⟨hnamed, hforeign⟩
    · intro r hr x hx
      rw [honly x hx]
      exact hrows' r hr
    · split_ifs <;> omega
    · intro x hx
      rw [honly x hx]
      exact hminted
  · intro l hl
    rw [hpreview] at hl
    rw [← Option.some.inj hl]
    refine ⟨hnamed, ?_⟩
    intro m hm _ x hx hmem
    exact hforeign x hmem m hm hx
  · rw [hrows, hstream]
    intro e he
    rcases List.mem_append.mp he with he | he
    · exact (h.stream e he).add rfl fun m hm => hm
    · rw [List.mem_singleton.mp he]
      refine ⟨hnamed, f.group.rows.length, _, none, List.getElem?_concat_length, ?_, rfl,
        fun _ hid => hid, ?_⟩
      · rw [← h.table.length]
        exact List.getElem?_concat_length
      · intro m hm
        cases hm
  · rw [hunread, hstream, owed_append, queuedRow, Bool.not_true, Bool.and_false]
    exact h.count

theorem owed_cons (c : Setup) (row : ChatMessage) (rest : List ChatMessage) :
    owed c (row :: rest) =
      owed c rest + if c.groupUnreadHandledExternally && !row.isSelf then 1 else 0 := by
  rw [owed, owed, List.countP_cons]
  cases c.groupUnreadHandledExternally with
  | false => rfl
  | true => rfl

/-- The row the listener heard of merges into itself, or a row of ours into one of ours. -/
theorem heard_target (h : Kept c msgs start base f) {row : ChatMessage}
    (hlisted : Listed f.group.rows f.tally row) (hhears : f.hearsRow c row) :
    ∃ (i : ℕ) (r : ChatMessage) (o : Option Message), matchingRow f.group.list row = some i ∧
      f.group.list[i]? = some r ∧ f.tally.origins[f.group.archived.length + i]? = some o ∧
      r.isSelf = row.isSelf ∧
      ((∃ m, o = some m ∧ (∀ id ∈ row.ids, id ∈ r.ids) ∧ m ∈ f.tally.ingested ∧
          row.text = m.native.text ∧ row.fromUserId = m.native.fromUserId ∧
          row.contentKind = .action ∧ m.native.contentKind = .action) ∨
        (o = none ∧ ∃ (k : ℕ) (r' : ChatMessage), f.group.rows[k]? = some r' ∧
          f.tally.origins[k]? = some none ∧ ∀ id ∈ row.ids, id ∈ r'.ids)) := by
  obtain ⟨hnamed, k, r', o', hk, ho', -, hids, hcontent⟩ := hlisted
  obtain ⟨r₀, hr₀, hself₀, hid₀⟩ := hhears.1
  cases hmatch : matchingRow f.group.list row with
  | none =>
    have hno := List.findIdx?_eq_none_iff.mp hmatch r₀ hr₀
    rw [Bool.and_eq_false_iff, decide_eq_false_iff_not, List.any_eq_false] at hno
    rcases hno with hno | hno
    · exact absurd hself₀ hno
    · cases hmsgID : row.msgID with
      | none => exact absurd hmsgID hnamed
      | some id =>
        have hmem : id ∈ row.ids := ChatHistory.mem_ids.mpr (.inl hmsgID)
        exact absurd (idMatches_iff.mpr (hid₀ id hmsgID)) (hno id hmem)
  | some i =>
    obtain ⟨r, hi, hp⟩ := findIdx?_spec hmatch
    rw [Bool.and_eq_true, decide_eq_true_eq, List.any_eq_true] at hp
    obtain ⟨hself, id, hid, hshared⟩ := hp
    obtain ⟨o, ho⟩ := h.table.origin (Group.place hi)
    have hboth := hids id hid
    have hown := idMatches_iff.mp hshared
    refine ⟨i, r, o, rfl, hi, ho, hself, ?_⟩
    cases o' with
    | some m =>
      left
      have hsame : k = f.group.archived.length + i := by
        by_contra hne
        exact h.table.alone _ _ r' r m hne hk (Group.place hi) ho' id hboth hown
      rw [hsame] at hk ho'
      rw [ho] at ho'
      rw [Group.place hi] at hk
      rw [Option.some.inj hk]
      exact ⟨m, Option.some.inj ho', hids, hcontent m rfl⟩
    | none =>
      right
      refine ⟨?_, k, r', hk, ho', hids⟩
      cases o with
      | none => rfl
      | some m =>
        exfalso
        have hne : f.group.archived.length + i ≠ k := by
          intro heq
          rw [heq, ho'] at ho
          cases ho
        exact h.table.alone _ _ r r' m hne (Group.place hi) hk ho id hown hboth

/-- The row with what the listener heard merged into it is still of its origin. -/
theorem heard_stands (h : Table c msgs start rows t sequence) {k : ℕ} {o : Option Message}
    {row : ChatMessage} (hk : rows[k]? = some r) (ho : t.origins[k]? = some o)
    (hself : r.isSelf = row.isSelf)
    (hcase : (∃ m, o = some m ∧ (∀ id ∈ row.ids, id ∈ r.ids) ∧ m ∈ t.ingested ∧
        row.text = m.native.text ∧ row.fromUserId = m.native.fromUserId ∧
        row.contentKind = .action ∧ m.native.contentKind = .action) ∨
      (o = none ∧ ∃ (k' : ℕ) (r' : ChatMessage), rows[k']? = some r' ∧
        t.origins[k']? = some none ∧ ∀ id ∈ row.ids, id ∈ r'.ids))
    (sent : Option (String → Bool)) : Stands c msgs t (mergeMessages sent r row) o := by
  have hstands := h.stands k r o hk ho
  have hnamed : r.msgID ≠ none → (mergeMessages sent r row).msgID ≠ none := by
    intro hsome hnone
    exact hsome (Option.or_eq_none_iff.mp hnone).2
  rcases hcase with ⟨m, rfl, hids, hcame, htext, hsender, hkind, haction⟩ | ⟨rfl, k', r', hk', ho', hids⟩
  · refine ⟨hstands.1, ?_⟩
    have hrow := hstands.2
    have hmem : ∀ id, id ∈ (mergeMessages sent r row).ids ↔ id ∈ r.ids := by
      intro id
      rw [mem_ids_mergeMessages]
      exact or_iff_left_of_imp (hids id)
    constructor
    · exact hself.symm.trans hrow.inbound
    · exact hsender
    · change (if row.text.isEmpty then r.text else row.text) = m.native.text
      split_ifs
      · exact hrow.text
      · exact htext
    · change mergedKind row r .normal = m.native.contentKind
      rw [mergedKind, hkind, haction]
      rfl
    · exact hnamed hrow.named
    · intro id hid
      exact hrow.ids id ((hmem id).mp hid)
    · intro id hid
      rw [hmem]
      exact hrow.saved id hid
    · intro id hid
      rw [hmem]
      exact hrow.names id hid
    · exact hrow.came
    · intro hno
      exact absurd hcame hno
  · refine ⟨hnamed hstands.1, ?_⟩
    intro id hid
    rcases mem_ids_mergeMessages.mp hid with hold | hnew
    · exact hstands.2 id hold
    · exact (h.stands k' r' none hk' ho').2 id (hids id hnew)

theorem newest_mem {list : List ChatMessage} {l : ChatMessage} (h : newest list = some l) :
    l ∈ list := by
  have hmem := List.mem_of_getLast? h
  rw [sortChatMessagesChronologically, List.mem_insertionSort] at hmem
  exact hmem

theorem Kept.heard {row : ChatMessage} {rest : List ChatMessage} (h : Kept c msgs start base f)
    (hquit : c.quit = false) (hactive : c.active = false) (htold : Told c msgs)
    (hstream : f.group.stream = row :: rest) (hhears : f.hearsRow c row) :
    Kept c msgs start base ⟨heard c { f.group with stream := rest } row, f.tally.after .heard⟩ := by
  have hlisted := h.stream row (hstream ▸ List.mem_cons_self)
  obtain ⟨i, r, o, hmatch, hi, ho, hself, hcase⟩ := heard_target h hlisted hhears
  have hk := Group.place hi
  have happend := @Group.append_merge c { f.group with stream := rest } i row hmatch
  have hrows : (({ f.group with stream := rest } : Group).append c row).rows =
      f.group.rows.modify (f.group.archived.length + i)
        (mergeMessages c.sentThisSession · row) := by
    rw [happend]
    exact @Group.rows_modify f.group i (mergeMessages c.sentThisSession · row)
  have hstands := heard_stands h.table hk ho hself hcase c.sentThisSession
  have htable : Table c msgs start (f.group.rows.modify (f.group.archived.length + i)
      (mergeMessages c.sentThisSession · row)) f.tally f.group.msgIDSequence := by
    apply h.table.change hk ho rfl (fun _ _ => ⟨Iff.rfl, Iff.rfl⟩) hstands
    intro id hid
    rcases mem_ids_mergeMessages.mp hid with hold | hnew
    · exact .inl hold
    · rcases hcase with ⟨m, -, hids, -⟩ | ⟨hnone, k', r', hk', ho', hids⟩
      · exact .inl (hids id hnew)
      · exact .inr (.inr ⟨hnone, k', r', hk', ho', hids id hnew⟩)
  refine ⟨?_, ?_, ?_, ?_, h.nodup⟩
  · change Table c msgs start (({ f.group with stream := rest } : Group).append c row).rows f.tally
      f.group.msgIDSequence
    rw [hrows]
    exact htable
  · intro l hl
    change (newest (f.group.append c row).list).or f.group.lastByPeer = some l at hl
    rcases Option.or_eq_some_iff.mp hl with hnewest | ⟨-, hold⟩
    · have hmem : l ∈ (({ f.group with stream := rest } : Group).append c row).rows :=
        List.mem_append_right _ (newest_mem hnewest)
      rw [hrows] at hmem
      obtain ⟨k, hkl⟩ := List.mem_iff_getElem?.mp hmem
      obtain ⟨o', ho'⟩ := htable.origin hkl
      have hlast := htable.stands k l o' hkl ho'
      constructor
      · cases o' with
        | none => exact hlast.1
        | some m => exact hlast.2.named
      · intro m hm hno id hid hmem'
        by_cases heq : o' = some m
        · subst heq
          rcases hlast.2.came with hsaved | hcame
          · obtain ⟨rest', hmsg⟩ := (htold.1 m hm).id
            exact hhears.2 l hnewest m hsaved hno _ hmsg ((hlast.2.saved _ hmsg).mpr hsaved)
          · exact hno hcame
        · exact hlast.not_mem htold hm heq hmem' hid
    · exact h.preview l hold
  · change ∀ e ∈ rest, Listed (({ f.group with stream := rest } : Group).append c row).rows f.tally e
    rw [hrows]
    intro e he
    have hbefore := h.stream e (hstream ▸ List.mem_cons_of_mem _ he)
    apply hbefore.change hk hself.symm _ rfl fun _ hm => hm
    intro id hid
    exact mem_ids_mergeMessages.mpr (.inl hid)
  · have hbase := h.count
    rw [hstream, owed_cons] at hbase
    change (if c.groupUnreadHandledExternally && !row.isSelf && !c.quit then
      if c.active then 0 else f.group.unread + 1 else f.group.unread) + owed c rest =
        base + f.tally.ingested.length
    rw [hquit, hactive, Bool.not_false, Bool.and_true, if_neg Bool.false_ne_true]
    split_ifs at hbase ⊢ <;> omega

theorem Kept.step {e : Event} {u : Followed} (h : Kept c msgs start base f)
    (hquit : c.quit = false) (hactive : c.active = false) (htold : Told c msgs)
    (htells : f.tells c msgs start e) (hu : follow c f e = some u) : Kept c msgs start base u := by
  obtain ⟨s, hs, rfl⟩ := Option.map_eq_some_iff.mp hu
  cases e with
  | native m =>
    rw [← Option.some.inj hs]
    by_cases hcame : m ∈ f.tally.ingested
    · exact h.native_second htold htells.1 htells.2 hcame
    · exact h.native_first htold htells.1 htells.2 hcame
  | polled m nowMs timestamp =>
    rw [← Option.some.inj hs]
    by_cases hcame : m ∈ f.tally.saved
    · exact h.polled_second hquit hactive htold htells.1 htells.2 hcame
    · exact h.polled_first hquit hactive htold htells.1 htells.2 hcame
  | sent text contentKind clientMessageID groupAlias queued nowMs =>
    obtain ⟨rfl, hclock, hclient⟩ := htells
    rw [← Option.some.inj hs]
    exact h.sent htold hclock hclient
  | heard =>
    cases hstream : f.group.stream with
    | nil =>
      rw [GroupUnread.step, hstream] at hs
      cases hs
    | cons row rest =>
      rw [GroupUnread.step, hstream] at hs
      rw [← Option.some.inj hs]
      exact h.heard hquit hactive htold hstream (htells row rest hstream)

theorem Kept.initial (hs : Settled c msgs start s) : Kept c msgs start s.unread s.start := by
  have horigin : ∀ (k : ℕ) (o : Option Message), s.start.tally.origins[k]? = some o → o = none := by
    intro k o ho
    obtain ⟨r, -, hr⟩ := List.mem_map.mp (List.mem_of_getElem? ho)
    exact hr.symm
  refine ⟨⟨?_, ?_, ?_, ?_, ?_, hs.minted⟩, ?_, ?_, ?_, List.nodup_nil⟩
  · exact List.length_map _
  · intro k r o hk ho
    rw [horigin k o ho]
    have hr := List.mem_of_getElem? hk
    exact ⟨hs.named r hr, hs.foreign r hr⟩
  · intro k k' m ho
    cases horigin k _ ho
  · intro m hm
    rcases hm with hm | hm <;> cases hm
  · intro k k' r r' m _ _ _ ho
    cases horigin k _ ho
  · intro l hl
    obtain ⟨hnamed, hforeign⟩ := hs.preview l hl
    refine ⟨hnamed, ?_⟩
    intro m hm _ id hid hmem
    exact hforeign id hmem m hm hid
  · intro e he
    rw [show s.start.group.stream = [] from hs.heard] at he
    cases he
  · change s.unread + owed c s.stream = s.unread + 0
    rw [hs.heard, owed]
    split_ifs <;> rfl

/-! ## Whole runs -/

def Event.isSent : Event → Bool
  | .sent .. => true
  | _ => false

/-- The messages of which a copy came. -/
def Tally.came (t : Tally) : Finset Message := (t.saved ++ t.ingested).toFinset

/-- A step adds a row for what is sent and for a message's first copy. -/
theorem Tally.grows {e : Event} (htells : f.tells c msgs start e) :
    (f.tally.after e).origins.length + f.tally.came.card =
      f.tally.origins.length + (if e.isSent then 1 else 0) + (f.tally.after e).came.card := by
  cases e with
  | native m =>
    have hcame : (f.tally.after (.native m)).came = insert m f.tally.came := by
      ext m'
      simp only [Tally.came, Tally.after, List.mem_toFinset, List.mem_append, List.mem_singleton,
        Finset.mem_insert]
      grind
    by_cases hsecond : m ∈ f.tally.ingested
    · have hmem : m ∈ f.tally.came := List.mem_toFinset.mpr (List.mem_append_right _ hsecond)
      rw [hcame, Finset.card_insert_of_mem hmem, Tally.after, if_pos hsecond]
      rfl
    · have hnot : m ∉ f.tally.came := by
        intro hmem
        rcases List.mem_append.mp (List.mem_toFinset.mp hmem) with hsaved | hcame
        · exact htells.2.1 hsaved
        · exact hsecond hcame
      rw [hcame, Finset.card_insert_of_notMem hnot, Tally.after, if_neg hsecond,
        List.length_append]
      change f.tally.origins.length + 1 + _ = f.tally.origins.length + 0 + (_ + 1)
      omega
  | polled m nowMs timestamp =>
    have hcame : (f.tally.after (.polled m nowMs timestamp)).came = insert m f.tally.came := by
      ext m'
      simp only [Tally.came, Tally.after, List.mem_toFinset, List.mem_append, List.mem_singleton,
        Finset.mem_insert]
      grind
    by_cases hsecond : m ∈ f.tally.saved
    · have hmem : m ∈ f.tally.came := List.mem_toFinset.mpr (List.mem_append_left _ hsecond)
      rw [hcame, Finset.card_insert_of_mem hmem, Tally.after, if_pos hsecond]
      rfl
    · have hnot : m ∉ f.tally.came := by
        intro hmem
        rcases List.mem_append.mp (List.mem_toFinset.mp hmem) with hsaved | hcame
        · exact hsecond hsaved
        · exact htells.2.1 hcame
      rw [hcame, Finset.card_insert_of_notMem hnot, Tally.after, if_neg hsecond,
        List.length_append]
      change f.tally.origins.length + 1 + _ = f.tally.origins.length + 0 + (_ + 1)
      omega
  | sent text contentKind clientMessageID groupAlias queued nowMs =>
    rw [Tally.after, List.length_append]
    rfl
  | heard => rfl

theorem Tally.grows_run {events : List Event} {u : Followed}
    (hm : Meets (follow c) (Followed.tells c msgs start) f events)
    (hr : exec (follow c) f events = some u) :
    u.tally.origins.length + f.tally.came.card =
      f.tally.origins.length + events.countP Event.isSent + u.tally.came.card := by
  induction events generalizing f with
  | nil =>
    rw [exec_nil] at hr
    rw [← Option.some.inj hr]
    rfl
  | cons e events ih =>
    obtain ⟨v, hv, hu⟩ := exec_cons.mp hr
    have hrest := ih (hm.2 v hv) hu
    have hfirst := Tally.grows hm.1
    obtain ⟨s, -, rfl⟩ := Option.map_eq_some_iff.mp hv
    rw [List.countP_cons]
    dsimp only at hrest
    omega

/-- Every polled copy is counted once, and every message of which a copy came has one row: it has
    the sender, the content and the ids of the copies that came, and no other row one of these. -/
structure Accounted (c : Setup) (s : Group) (events : List Event) (f : Followed) : Prop where
  count : f.group.unread + owed c f.group.stream = s.unread + f.tally.ingested.length
  distinct : f.tally.ingested.Nodup
  rows : f.group.rows.length =
    s.rows.length + events.countP Event.isSent + f.tally.came.card
  row : ∀ m ∈ f.tally.came, ∃ (k : ℕ) (r : ChatMessage), f.group.rows[k]? = some r ∧
    RowOf c f.tally m r ∧ f.tally.origins[k]? = some (some m) ∧
    ∀ k', k' ≠ k → f.tally.origins[k']? ≠ some (some m) ∧
      ∀ r', f.group.rows[k']? = some r' → ∀ id ∈ r.ids, id ∉ r'.ids

end

/-- A group whose listener counts what reaches the stream. -/
def sampleGroup : Setup where
  gid := "tox_3"
  selfId := "ME"
  groupUnreadHandledExternally := true

/-- A message "ok" of one member at a second. -/
def okay (id : String) (second : ℕ) (pseudoMsgId : Option ℕ) : Message where
  native :=
    { text := "ok", fromUserId := "PK", isSelf := false, timestamp := second * 1000000,
      groupId := some "tox_3", msgID := some ("msg_" ++ id),
      altMsgIds := (pseudoMsgId.map (groupMessageAlias "tox_3" "PK")).toList }
  pseudoMsgId := pseudoMsgId

theorem okay_inbound {id : String} {second : ℕ} {pseudoMsgId : Option ℕ}
    (hid : selfMinted sampleGroup (okay id second pseudoMsgId).polled
      (okay id second pseudoMsgId).native = false) :
    Inbound sampleGroup (okay id second pseudoMsgId) where
  direction := rfl
  other := show "PK" ≠ "ME" by decide
  group := rfl
  id := ⟨id, rfl⟩
  foreign := hid
  names := rfl
  content := show isControlSignalText "ok" = false by decide

/-- Where every row has an identity, no other row is like a message that has one. -/
theorem apart_of_named {f : Followed} {m : Message} (hm : m.pseudoMsgId ≠ none)
    (hrows : ∀ r ∈ f.group.list, toxGroupMessageAliasOf r ≠ none) (instant : ℤ) :
    f.apart m instant := by
  intro i r hi _ halike
  rcases halike.2.2.2 with hpseudo | halias
  · exact absurd hpseudo hm
  · exact absurd halias (hrows r (List.mem_of_getElem? hi))

theorem native_tells {c : Setup} {msgs : List Message} {start : ℕ} {f : Followed} {m : Message}
    (hm : m ∈ msgs) (hnamed : m.pseudoMsgId ≠ none) (hnew : m ∉ f.tally.saved)
    (hfirst : m ∉ f.tally.ingested) (hrows : ∀ r ∈ f.group.list, toxGroupMessageAliasOf r ≠ none) :
    f.tells c msgs start (.native m) :=
  ⟨hm, hnew, fun _ => apart_of_named hnamed hrows _, fun hcame => absurd hcame hfirst⟩

theorem polled_tells {c : Setup} {msgs : List Message} {start nowMs timestamp i : ℕ} {f : Followed}
    {m : Message} {r : ChatMessage} (hm : m ∈ msgs) (hnamed : m.pseudoMsgId ≠ none)
    (hkind : m.native.contentKind ≠ .action) (hnew : m ∉ f.tally.ingested)
    (hsaved : m ∈ f.tally.saved) (hclock : start ≤ timestamp) (hi : f.group.list[i]? = some r)
    (ho : f.origin i = some m) : f.tells c msgs start (.polled m nowMs timestamp) :=
  ⟨hm, hnew, hclock, fun hidless => absurd (hidless hsaved) hnamed,
    fun hfirst => absurd hsaved hfirst,
    fun _ => ⟨i, r, hi, ho, fun hidless => absurd hidless hnamed⟩,
    fun _ haction => absurd haction hkind⟩

def twoOkays : List Event :=
  [.native (okay "1" 1 (some 7)), .native (okay "2" 2 (some 8)),
    .polled (okay "1" 1 (some 7)) 2500 2500, .polled (okay "2" 2 (some 8)) 2600 2600]

theorem okays_told : Told sampleGroup [okay "1" 1 (some 7), okay "2" 2 (some 8)] := by
  constructor
  · intro m hm
    rcases List.mem_pair.mp hm with rfl | rfl
    · exact okay_inbound (by decide)
    · exact okay_inbound (by decide)
  · decide +kernel

theorem settled_empty (c : Setup) (msgs : List Message) (start : ℕ) : Settled c msgs start {} where
  named := fun _ hr => nomatch hr
  foreign := fun _ hr => nomatch hr
  minted := fun _ hr => nomatch hr
  preview := fun _ hl => nomatch hl
  heard := rfl

def idlessOkays : List Event :=
  [.native (okay "1" 1 none), .native (okay "2" 2 none), .polled (okay "1" 1 none) 2500 2500,
    .polled (okay "2" 2 none) 2600 2600]

end Tim2Tox.GroupUnread
