import Tim2Tox.GroupUnread

set_option autoImplicit false

/-!
# The rows of twice-delivered messages

Every row of a message carries its ids and no other row does; a row keeps its place behind those
that came before it, also when it leaves the memory window.
-/
namespace Tim2Tox.GroupUnread
open ChatHistory ChatMessage LabelledRuns

/-! ## Ids -/

theorem digits_no_underscore (n : ℕ) : '_' ∉ (toString n).toList := by
  intro h
  change '_' ∈ (Nat.repr n).toList at h
  rw [Nat.toList_repr] at h
  have hdigit := Nat.isDigit_of_mem_toDigits (by decide) (by decide) h
  exact absurd hdigit (by decide)

theorem digits_inj {m n : ℕ} (h : (toString m).toList = (toString n).toList) : m = n := by
  change (Nat.repr m).toList = (Nat.repr n).toList at h
  rw [Nat.toList_repr, Nat.toList_repr] at h
  have hof := congrArg (fun l => Nat.ofDigitChars 10 l 0) h
  simpa only [Nat.ofDigitChars_toDigits (show 1 < 10 by decide) (show 10 ≤ 10 by decide)] using hof

/-- What stands before the first occurrence of a character is fixed. -/
theorem split_unique {a : Char} {x y u v : List Char} (hx : a ∉ x) (hy : a ∉ y)
    (h : x ++ a :: u = y ++ a :: v) : x = y ∧ u = v := by
  induction x generalizing y with
  | nil =>
    cases y with
    | nil => exact ⟨rfl, (List.cons.inj h).2⟩
    | cons b y => exact absurd ((List.cons.inj h).1 ▸ List.mem_cons_self) hy
  | cons b x ih =>
    cases y with
    | nil => exact absurd ((List.cons.inj h).1 ▸ List.mem_cons_self) hx
    | cons b' y =>
      rw [List.cons_append, List.cons_append, List.cons.injEq] at h
      obtain ⟨rfl, rfl⟩ := ih (fun hm => hx (List.mem_cons_of_mem _ hm))
        (fun hm => hy (List.mem_cons_of_mem _ hm)) h.2
      exact ⟨by rw [h.1], rfl⟩

theorem mintedId_toList (millis sequence : ℕ) (from' gid : String) :
    (mintedId millis sequence from' gid).toList = (toString millis).toList ++
      '_' :: ((toString sequence).toList ++ '_' :: (from'.toList ++ '_' :: gid.toList)) := by
  simp [mintedId, String.toList_append]

/-- An id tells the instant and the count it was minted with. -/
theorem mintedId_inj {millis sequence millis' sequence' : ℕ} {a a' gid : String}
    (h : mintedId millis sequence a gid = mintedId millis' sequence' a' gid) :
    millis = millis' ∧ sequence = sequence' := by
  have hlist := congrArg String.toList h
  rw [mintedId_toList, mintedId_toList] at hlist
  obtain ⟨hmillis, hrest⟩ :=
    split_unique (digits_no_underscore _) (digits_no_underscore _) hlist
  obtain ⟨hsequence, -⟩ :=
    split_unique (digits_no_underscore _) (digits_no_underscore _) hrest
  exact ⟨digits_inj hmillis, digits_inj hsequence⟩

theorem mintedId_head (millis sequence : ℕ) (from' gid : String) :
    ∃ d rest, (mintedId millis sequence from' gid).toList = d :: rest ∧ d.isDigit = true := by
  rw [mintedId_toList]
  have hdigits : ∀ d ∈ (toString millis).toList, d.isDigit = true := by
    intro d hd
    change d ∈ (Nat.repr millis).toList at hd
    rw [Nat.toList_repr] at hd
    exact Nat.isDigit_of_mem_toDigits (by decide) (by decide) hd
  cases hlist : (toString millis).toList with
  | nil =>
    change (Nat.repr millis).toList = [] at hlist
    rw [Nat.toList_repr] at hlist
    exact absurd hlist (by simp)
  | cons d rest =>
    rw [hlist] at hdigits
    exact ⟨d, _, rfl, hdigits d List.mem_cons_self⟩

theorem mintedId_not_alias (millis sequence : ℕ) (from' gid : String) :
    isGroupAlias (mintedId millis sequence from' gid) = false := by
  obtain ⟨d, rest, hlist, hdigit⟩ := mintedId_head millis sequence from' gid
  rw [isGroupAlias, hlist]
  have hne : 'g' ≠ d := by
    rintro rfl
    exact absurd hdigit (by decide)
  simp [toxGroupMessageAliasPrefix, List.isPrefixOf, hne]

theorem mintedId_ne_msg (millis sequence : ℕ) (from' gid rest : String) :
    mintedId millis sequence from' gid ≠ "msg_" ++ rest := by
  intro h
  obtain ⟨d, rest', hlist, hdigit⟩ := mintedId_head millis sequence from' gid
  rw [h, String.toList_append, show "msg_".toList = ['m', 's', 'g', '_'] by decide] at hlist
  rw [← (List.cons.inj hlist).1] at hdigit
  exact absurd hdigit (by decide)

theorem msg_not_alias (rest : String) : isGroupAlias ("msg_" ++ rest) = false := by
  rw [isGroupAlias, String.toList_append]
  simp [toxGroupMessageAliasPrefix, List.isPrefixOf]

theorem groupMessageAlias_isAlias (gid sender : String) (pseudo : ℕ) :
    isGroupAlias (groupMessageAlias gid sender pseudo) = true := by
  rw [isGroupAlias, groupMessageAlias, List.isPrefixOf_iff_prefix]
  simp only [String.toList_append, List.append_assoc]
  exact List.prefix_append _ _

theorem aliasOf_mem {r : ChatMessage} {x : String} (h : toxGroupMessageAliasOf r = some x) :
    x ∈ r.ids ∧ isGroupAlias x = true := by
  rw [toxGroupMessageAliasOf, Option.or_eq_some_iff] at h
  rcases h with hfind | ⟨-, hprimary⟩
  · exact ⟨mem_ids.mpr (.inr (List.mem_of_find?_eq_some hfind)), List.find?_some hfind⟩
  · rw [Option.filter_eq_some_iff] at hprimary
    exact ⟨mem_ids.mpr (.inl hprimary.1), hprimary.2⟩

theorem aliasOf_none {r : ChatMessage} (h : toxGroupMessageAliasOf r = none) :
    ∀ id ∈ r.ids, isGroupAlias id = false := by
  rw [toxGroupMessageAliasOf, Option.or_eq_none_iff, List.find?_eq_none] at h
  intro id hid
  rcases mem_ids.mp hid with hprimary | halt
  · have hfilter := h.2
    rw [hprimary] at hfilter
    by_contra htrue
    rw [Bool.not_eq_false] at htrue
    simp [Option.filter, htrue] at hfilter
  · exact Bool.not_eq_true _ ▸ h.1 id halt

/-! ## The row of a message -/

/-- A row of the message, with the ids of the copies that came; before the polled copy it is the
    native one. -/
structure RowOf (c : Setup) (t : Tally) (m : Message) (r : ChatMessage) : Prop where
  inbound : r.isSelf = false
  sender : r.fromUserId = m.native.fromUserId
  text : r.text = m.native.text
  kind : r.contentKind = m.native.contentKind
  named : r.msgID ≠ none
  ids : ∀ id ∈ r.ids, id ∈ m.native.ids ∨ ∃ millis sequence,
    id = mintedId millis sequence m.native.fromUserId c.gid
  saved : ∀ id, m.native.msgID = some id → (id ∈ r.ids ↔ m ∈ t.saved)
  names : ∀ id ∈ m.native.altMsgIds, id ∈ r.ids
  came : m ∈ t.saved ∨ m ∈ t.ingested
  plain : m ∉ t.ingested → r.msgID = m.native.msgID ∧ r.altMsgIds = m.native.altMsgIds

section
variable {c : Setup} {msgs : List Message} {start : ℕ} {t : Tally} {m : Message}

theorem Inbound.mem_ids (h : Inbound c m) {id : String} :
    id ∈ m.native.ids ↔ m.native.msgID = some id ∨ m.polled.groupAlias c = some id := by
  rw [ChatHistory.mem_ids, h.names, Option.mem_toList]

theorem groupAlias_isAlias {p : Polled} {id : String} (h : p.groupAlias c = some id) :
    isGroupAlias id = true := by
  obtain ⟨pseudo, -, rfl⟩ := Option.map_eq_some_iff.mp h
  exact groupMessageAlias_isAlias _ _ _

theorem Inbound.id_not_alias (h : Inbound c m) {id : String} (hid : m.native.msgID = some id) :
    isGroupAlias id = false := by
  obtain ⟨rest, hrest⟩ := h.id
  rw [← Option.some.inj (hrest.symm.trans hid)]
  exact msg_not_alias rest

theorem Inbound.not_minted (h : Inbound c m) {id : String} (hid : id ∈ m.native.ids)
    (millis sequence : ℕ) (from' : String) : id ≠ mintedId millis sequence from' c.gid := by
  rintro rfl
  rcases h.mem_ids.mp hid with hmsg | halias
  · obtain ⟨rest, hrest⟩ := h.id
    exact mintedId_ne_msg _ _ _ _ rest (Option.some.inj (hmsg.symm.trans hrest))
  · have htrue := groupAlias_isAlias halias
    rw [mintedId_not_alias] at htrue
    cases htrue

/-- The group identity of a row whose aliases are the one a message has. -/
theorem aliasOf_eq {r : ChatMessage} {groupAlias : Option String}
    (hnames : ∀ id, groupAlias = some id → id ∈ r.ids ∧ isGroupAlias id = true)
    (honly : ∀ id ∈ r.ids, isGroupAlias id = true → groupAlias = some id) :
    toxGroupMessageAliasOf r = groupAlias := by
  cases halias : toxGroupMessageAliasOf r with
  | none =>
    cases hname : groupAlias with
    | none => rfl
    | some id =>
      obtain ⟨hmem, htrue⟩ := hnames id hname
      rw [aliasOf_none halias id hmem] at htrue
      cases htrue
  | some x =>
    obtain ⟨hmem, htrue⟩ := aliasOf_mem halias
    exact (honly x hmem htrue).symm

theorem RowOf.aliasOf {r : ChatMessage} (h : RowOf c t m r) (hm : Inbound c m) :
    toxGroupMessageAliasOf r = m.polled.groupAlias c := by
  apply aliasOf_eq
  · intro id hid
    exact ⟨h.names id (by rw [hm.names, hid]; exact List.mem_singleton_self id),
      groupAlias_isAlias hid⟩
  · intro id hid htrue
    rcases h.ids id hid with hown | ⟨millis, sequence, rfl⟩
    · rcases hm.mem_ids.mp hown with hmsg | halias
      · rw [hm.id_not_alias hmsg] at htrue
        cases htrue
      · exact halias
    · rw [mintedId_not_alias] at htrue
      cases htrue

theorem Inbound.aliasOf (h : Inbound c m) :
    toxGroupMessageAliasOf m.native = m.polled.groupAlias c := by
  apply aliasOf_eq
  · intro id hid
    exact ⟨h.mem_ids.mpr (.inr hid), groupAlias_isAlias hid⟩
  · intro id hid htrue
    rcases h.mem_ids.mp hid with hmsg | halias
    · rw [h.id_not_alias hmsg] at htrue
      cases htrue
    · exact halias

/-- The tallies say the same of the message. -/
def Tally.same (t t' : Tally) (m : Message) : Prop :=
  (m ∈ t'.saved ↔ m ∈ t.saved) ∧ (m ∈ t'.ingested ↔ m ∈ t.ingested)

theorem RowOf.congr {t' : Tally} {r : ChatMessage} (h : RowOf c t m r) (hsame : t.same t' m) :
    RowOf c t' m r :=
  { h with
    saved := fun id hid => by rw [hsame.1]; exact h.saved id hid
    came := by rw [hsame.1, hsame.2]; exact h.came
    plain := fun hno => h.plain (by rwa [hsame.2] at hno) }

/-! ## The table of rows -/

/-- A row that is no message's. -/
def Foreign (msgs : List Message) (r : ChatMessage) : Prop :=
  r.msgID ≠ none ∧ ∀ id ∈ r.ids, ∀ m ∈ msgs, id ∉ m.native.ids

/-- The row is of its origin. -/
def Stands (c : Setup) (msgs : List Message) (t : Tally) (r : ChatMessage) : Option Message → Prop
  | none => Foreign msgs r
  | some m => m ∈ msgs ∧ RowOf c t m r

/-- Each row is of its origin, a message has one row and shares its ids with no other. -/
structure Table (c : Setup) (msgs : List Message) (start : ℕ) (rows : List ChatMessage) (t : Tally)
    (sequence : ℕ) : Prop where
  length : t.origins.length = rows.length
  stands : ∀ (k : ℕ) (r : ChatMessage) (o : Option Message), rows[k]? = some r →
    t.origins[k]? = some o → Stands c msgs t r o
  once : ∀ (k k' : ℕ) (m : Message), t.origins[k]? = some (some m) →
    t.origins[k']? = some (some m) → k = k'
  present : ∀ m, m ∈ t.saved ∨ m ∈ t.ingested → some m ∈ t.origins
  alone : ∀ (k k' : ℕ) (r r' : ChatMessage) (m : Message), k ≠ k' → rows[k]? = some r →
    rows[k']? = some r' → t.origins[k]? = some (some m) → ∀ id ∈ r.ids, id ∉ r'.ids
  minted : ∀ r ∈ rows, ∀ id ∈ r.ids, ∀ millis seq from',
    id = mintedId millis seq from' c.gid → millis < start ∨ seq < sequence

theorem Table.origin {rows : List ChatMessage} {sequence k : ℕ} {r : ChatMessage}
    (h : Table c msgs start rows t sequence) (hk : rows[k]? = some r) :
    ∃ o, t.origins[k]? = some o := by
  have hlt := (List.getElem?_eq_some_iff.mp hk).1
  rw [← h.length] at hlt
  exact ⟨_, List.getElem?_eq_getElem hlt⟩

theorem Stands.congr {t' : Tally} {r : ChatMessage} {o : Option Message}
    (h : Stands c msgs t r o) (hsame : ∀ m, o = some m → t.same t' m) : Stands c msgs t' r o := by
  cases o with
  | none => exact h
  | some m => exact ⟨h.1, h.2.congr (hsame m rfl)⟩

/-- The ids of a row that stands are those of its message, minted ones or foreign. -/
theorem Stands.not_mem (htold : Told c msgs) {r : ChatMessage} {o : Option Message}
    (h : Stands c msgs t r o) (hm : m ∈ msgs) (hne : o ≠ some m) {id : String} (hid : id ∈ r.ids) :
    id ∉ m.native.ids := by
  cases o with
  | none => exact h.2 id hid m hm
  | some m' =>
    intro hid'
    rcases h.2.ids id hid with hown | ⟨millis, sequence, heq⟩
    · exact htold.2 m' h.1 m hm (fun heq => hne (congrArg some heq)) id hown hid'
    · exact (htold.1 m hm).not_minted hid' _ _ _ heq

/-- A row is added for its origin. -/
theorem Table.add {t' : Tally} {rows : List ChatMessage} {sequence sequence' : ℕ}
    {r : ChatMessage} {o : Option Message} (h : Table c msgs start rows t sequence)
    (horigins : t'.origins = t.origins ++ [o]) (hnew : ∀ m, o = some m → some m ∉ t.origins)
    (hsame : ∀ m, o ≠ some m → t.same t' m) (hstands : Stands c msgs t' r o)
    (halone : ∀ r' ∈ rows, ∀ id ∈ r.ids, id ∉ r'.ids) (hle : sequence ≤ sequence')
    (hminted : ∀ id ∈ r.ids, ∀ millis seq from', id = mintedId millis seq from' c.gid →
      millis < start ∨ seq < sequence') :
    Table c msgs start (rows ++ [r]) t' sequence' := by
  have hlast : ∀ (k : ℕ) (r' : ChatMessage), (rows ++ [r])[k]? = some r' →
      (k < rows.length ∧ rows[k]? = some r') ∨ (k = rows.length ∧ r' = r) := by
    intro k r' hk
    by_cases hlt : k < rows.length
    · rw [List.getElem?_append_left hlt] at hk
      exact .inl ⟨hlt, hk⟩
    · rw [List.getElem?_append_right (by omega), List.getElem?_singleton] at hk
      split_ifs at hk with hzero
      exact .inr ⟨by omega, (Option.some.inj hk).symm⟩
  have hold : ∀ k, k < rows.length → t'.origins[k]? = t.origins[k]? := by
    intro k hlt
    rw [horigins, List.getElem?_append_left (by rw [h.length]; exact hlt)]
  have hend : t'.origins[rows.length]? = some o := by
    rw [horigins, ← h.length, List.getElem?_concat_length]
  have hplace : ∀ (k : ℕ) (o' : Option Message), t'.origins[k]? = some o' →
      (k < rows.length ∧ t.origins[k]? = some o') ∨ (k = rows.length ∧ o' = o) := by
    intro k o' hk
    by_cases hlt : k < rows.length
    · exact .inl ⟨hlt, by rwa [← hold k hlt]⟩
    · have hbound := (List.getElem?_eq_some_iff.mp hk).1
      rw [horigins, List.length_append, h.length, List.length_singleton] at hbound
      obtain rfl : k = rows.length := by omega
      exact .inr ⟨rfl, (Option.some.inj (hend.symm.trans hk)).symm⟩
  refine ⟨?_, ?_, ?_, ?_, ?_, ?_⟩
  · rw [horigins, List.length_append, List.length_append, h.length]
    rfl
  · intro k r' o' hk ho
    rcases hlast k r' hk with ⟨hlt, hk⟩ | ⟨rfl, rfl⟩
    · rw [hold k hlt] at ho
      refine (h.stands k r' o' hk ho).congr fun m heq => hsame m ?_
      rintro rfl
      exact hnew m rfl (heq ▸ List.mem_of_getElem? ho)
    · rw [hend] at ho
      rw [← Option.some.inj ho]
      exact hstands
  · intro k k' m hk hk'
    rcases hplace k _ hk with ⟨-, hk⟩ | ⟨rfl, rfl⟩
    · rcases hplace k' _ hk' with ⟨-, hk'⟩ | ⟨rfl, rfl⟩
      · exact h.once k k' m hk hk'
      · exact absurd (List.mem_of_getElem? hk) (hnew m rfl)
    · rcases hplace k' _ hk' with ⟨-, hk'⟩ | ⟨rfl, -⟩
      · exact absurd (List.mem_of_getElem? hk') (hnew m rfl)
      · rfl
  · intro m hm
    rw [horigins, List.mem_append, List.mem_singleton]
    by_cases heq : o = some m
    · exact .inr heq.symm
    · rw [(hsame m heq).1, (hsame m heq).2] at hm
      exact .inl (h.present m hm)
  · intro k k' a b m hne hk hk' ho id hid hid'
    rcases hlast k a hk with ⟨hlt, hka⟩ | ⟨rfl, rfl⟩
    · rcases hlast k' b hk' with ⟨hlt', hkb⟩ | ⟨rfl, rfl⟩
      · rw [hold k hlt] at ho
        exact h.alone k k' a b m hne hka hkb ho id hid hid'
      · exact halone a (List.mem_of_getElem? hka) id hid' hid
    · rcases hlast k' b hk' with ⟨-, hkb⟩ | ⟨rfl, -⟩
      · exact halone b (List.mem_of_getElem? hkb) id hid hid'
      · exact hne rfl
  · intro r' hr' id hid millis seq from' heq
    rcases List.mem_append.mp hr' with hr' | hr'
    · rcases h.minted r' hr' id hid millis seq from' heq with hlt | hlt
      · exact .inl hlt
      · exact .inr (by omega)
    · rw [List.mem_singleton.mp hr'] at hid
      exact hminted id hid millis seq from' heq

/-- A row changes and stays its origin's; what it takes is in no row, or, for a row that is no
    message's, in one of that kind. -/
theorem Table.change {t' : Tally} {rows : List ChatMessage} {sequence k : ℕ} {r : ChatMessage}
    {o : Option Message} {g : ChatMessage → ChatMessage} (h : Table c msgs start rows t sequence)
    (hk : rows[k]? = some r) (ho : t.origins[k]? = some o) (horigins : t'.origins = t.origins)
    (hsame : ∀ m, o ≠ some m → t.same t' m) (hstands : Stands c msgs t' (g r) o)
    (hids : ∀ id ∈ (g r).ids, id ∈ r.ids ∨
      ((∀ r' ∈ rows, id ∉ r'.ids) ∧ ∀ millis seq from', id ≠ mintedId millis seq from' c.gid) ∨
      (o = none ∧ ∃ (k' : ℕ) (r' : ChatMessage), rows[k']? = some r' ∧
        t.origins[k']? = some none ∧ id ∈ r'.ids)) :
    Table c msgs start (rows.modify k g) t' sequence := by
  have hat : (rows.modify k g)[k]? = some (g r) := by
    rw [List.getElem?_modify_eq, hk]
    rfl
  have hother : ∀ j, j ≠ k → (rows.modify k g)[j]? = rows[j]? :=
    fun j hne => List.getElem?_modify_ne _ _ (Ne.symm hne)
  refine ⟨?_, ?_, ?_, ?_, ?_, ?_⟩
  · rw [horigins, List.length_modify, h.length]
  · intro j a o' hj ho'
    rw [horigins] at ho'
    by_cases hne : j = k
    · subst hne
      rw [hat] at hj
      rw [ho] at ho'
      rw [← Option.some.inj hj, ← Option.some.inj ho']
      exact hstands
    · rw [hother j hne] at hj
      refine (h.stands j a o' hj ho').congr fun m heq => hsame m ?_
      rintro rfl
      exact hne (h.once j k m (heq ▸ ho') ho)
  · rw [horigins]
    exact h.once
  · intro m hm
    rw [horigins]
    by_cases heq : o = some m
    · exact heq ▸ List.mem_of_getElem? ho
    · rw [(hsame m heq).1, (hsame m heq).2] at hm
      exact h.present m hm
  · intro j j' a b m hne hj hj' ho' id hid hid'
    rw [horigins] at ho'
    by_cases hjk : j = k
    · subst hjk
      rw [hat] at hj
      rw [hother j' (Ne.symm hne)] at hj'
      rw [← Option.some.inj hj] at hid
      rcases hids id hid with hold | ⟨hnew, -⟩ | ⟨hnone, -⟩
      · exact h.alone j j' r b m hne hk hj' ho' id hold hid'
      · exact hnew b (List.mem_of_getElem? hj') hid'
      · rw [ho, hnone] at ho'
        cases ho'
    · rw [hother j hjk] at hj
      by_cases hjk' : j' = k
      · subst hjk'
        rw [hat] at hj'
        rw [← Option.some.inj hj'] at hid'
        rcases hids id hid' with hold | ⟨hnew, -⟩ | ⟨-, k', r', hk', hnone, hmem⟩
        · exact h.alone j j' a r m hne hj hk ho' id hid hold
        · exact hnew a (List.mem_of_getElem? hj) hid
        · refine h.alone j k' a r' m ?_ hj hk' ho' id hid hmem
          rintro rfl
          rw [hnone] at ho'
          cases ho'
      · rw [hother j' hjk'] at hj'
        exact h.alone j j' a b m hne hj hj' ho' id hid hid'
  · intro r' hr' id hid millis seq from' heq
    obtain ⟨j, hj⟩ := List.mem_iff_getElem?.mp hr'
    by_cases hjk : j = k
    · subst hjk
      rw [hat] at hj
      rw [← Option.some.inj hj] at hid
      rcases hids id hid with hold | ⟨-, hnew⟩ | ⟨-, k', b, hk', -, hmem⟩
      · exact h.minted r (List.mem_of_getElem? hk) id hold millis seq from' heq
      · exact absurd heq (hnew millis seq from')
      · exact h.minted b (List.mem_of_getElem? hk') id hmem millis seq from' heq
    · rw [hother j hjk] at hj
      exact h.minted r' (List.mem_of_getElem? hj) id hid millis seq from' heq

end

/-! ## Appends and places -/

section
variable {c : Setup} {s : Group} {i : ℕ} {r message : ChatMessage}

theorem Group.place (h : s.list[i]? = some r) : s.rows[s.archived.length + i]? = some r := by
  rw [Group.rows, List.getElem?_append_right (Nat.le_add_right _ _), Nat.add_sub_cancel_left]
  exact h

theorem Group.rows_modify (g : ChatMessage → ChatMessage) :
    s.archived ++ s.list.modify i g = s.rows.modify (s.archived.length + i) g := by
  rw [Group.rows]
  apply List.ext_getElem?
  intro k
  rw [List.getElem?_modify]
  by_cases hlt : k < s.archived.length
  · have hne : ¬ s.archived.length + i = k := by omega
    rw [List.getElem?_append_left hlt, List.getElem?_append_left hlt]
    simp only [hne, if_false, id_map']
  · have hiff : (i = k - s.archived.length) = (s.archived.length + i = k) := by
      rw [eq_iff_iff]
      omega
    rw [List.getElem?_append_right (by omega), List.getElem?_append_right (by omega),
      List.getElem?_modify]
    simp only [hiff]

theorem Group.append_new (hmatch : matchingRow s.list message = none)
    (hcontent : contentMatch s.list message = none) :
    (s.append c message).rows = s.rows ++ [message] := by
  have hnone : (matchingRow s.list message).or (contentMatch s.list message) = none := by
    rw [hmatch, hcontent]
    rfl
  rw [Group.append, appendWindow, hnone, appendRow, hnone, Group.rows, Group.rows, overflow]
  dsimp only
  rw [List.splitAt_eq, List.append_assoc, List.take_append_drop, List.append_assoc]

theorem Group.append_merge (hmatch : matchingRow s.list message = some i) :
    s.append c message =
      { s with list := s.list.modify i (mergeMessages c.sentThisSession · message) } := by
  have hsome : (matchingRow s.list message).or (contentMatch s.list message) = some i := by
    rw [hmatch]
    rfl
  rw [Group.append, appendWindow, hsome, appendRow, hsome]
  dsimp only
  rw [List.append_nil]

theorem matchingRow_none (h : ∀ r ∈ s.list, r.isSelf = message.isSelf → ∀ id ∈ message.ids, id ∉ r.ids) :
    matchingRow s.list message = none := by
  rw [matchingRow, List.findIdx?_eq_none_iff]
  intro r hr
  rw [Bool.and_eq_false_iff, decide_eq_false_iff_not, List.any_eq_false]
  by_cases hself : r.isSelf = message.isSelf
  · right
    intro id hid hmatch
    exact h r hr hself id hid (idMatches_iff.mp hmatch)
  · exact .inl hself

theorem findIdx?_unique {p : ChatMessage → Bool} {list : List ChatMessage} (hi : list[i]? = some r)
    (hp : p r = true) (hone : ∀ j r', list[j]? = some r' → p r' = true → j = i) :
    list.findIdx? p = some i := by
  cases hfind : list.findIdx? p with
  | none =>
    have hno := List.findIdx?_eq_none_iff.mp hfind r (List.mem_of_getElem? hi)
    rw [hp] at hno
    cases hno
  | some j =>
    obtain ⟨e, he, hpe⟩ := findIdx?_spec hfind
    rw [hone j e he hpe]

theorem lastPlace_unique {takes : ChatMessage → Bool} {list : List ChatMessage} {start : ℕ}
    (hi : list[i]? = some r) (hstart : start ≤ i) (ht : takes r = true)
    (hone : ∀ j r', list[j]? = some r' → start ≤ j → takes r' = true → j = i) :
    lastPlace list start takes = some i := by
  rw [lastPlace]
  cases hfind : (List.range list.length).reverse.find? fun i =>
      decide (start ≤ i) && list[i]?.any takes with
  | none =>
    rw [List.find?_eq_none] at hfind
    have hlt := (List.getElem?_eq_some_iff.mp hi).1
    refine absurd ?_ (hfind i (List.mem_reverse.mpr (List.mem_range.mpr hlt)))
    rw [hi, Bool.and_eq_true, decide_eq_true_eq]
    exact ⟨hstart, ht⟩
  | some j =>
    have hj := List.find?_some hfind
    rw [Bool.and_eq_true, decide_eq_true_eq] at hj
    cases hget : list[j]? with
    | none =>
      rw [hget] at hj
      cases hj.2
    | some r' =>
      rw [hget] at hj
      rw [hone j r' hget hj.1 hj.2]

theorem lastPlace_none {takes : ChatMessage → Bool} {list : List ChatMessage} {start : ℕ}
    (h : ∀ j r', list[j]? = some r' → start ≤ j → takes r' = false) :
    lastPlace list start takes = none := by
  rw [lastPlace, List.find?_eq_none]
  intro j _ hj
  rw [Bool.and_eq_true, decide_eq_true_eq] at hj
  cases hget : list[j]? with
  | none =>
    rw [hget] at hj
    cases hj.2
  | some r' =>
    rw [hget] at hj
    have hfalse := h j r' hget hj.1
    rw [Option.any_some, hfalse] at hj
    cases hj.2

end

end Tim2Tox.GroupUnread
