import Mathlib.Data.Set.List
import Tim2Tox.ReceiptObjects

set_option autoImplicit false

/-!
# The receipt gate

A body passes `ParseStrictReceiptJson` exactly when it is the UTF-8 of a receipt object whose
strings are whole characters, and the body `SendGroupReceipt` builds passes with its message.
-/
namespace Tim2Tox.GroupReceipts

open Json

variable {data : Bytes} {cs : List Char} {fs : List (List Char × List Char)}

/-! ## The parser -/

/-- An object of a text is no object, or its members stand behind the brace. -/
theorem objectText_members {t : List Char} (hws : Ws cs t) (hnows : NoWs t)
    (h : ObjectText cs (fs.map memberText)) (hne : fs ≠ []) : ∃ t₁ t₂, t = '{' :: t₁ ∧
      Members t₁ (fs.map memberText) t₂ ∧ Ws t₂ [] := by
  generalize hms : fs.map memberText = ms at h
  cases h with
  | empty => exact absurd (List.map_eq_nil_iff.mp hms) hne
  | members before inside after =>
    exact ⟨_, _, hws.unique before hnows (noWs_cons rfl), inside, after⟩

theorem parse_spec (data : Bytes) :
    (∃ cs fs, data = Utf8.encode cs ∧ ObjectText cs (fs.map memberText) ∧ Distinct fs ∧
        parseStrictReceiptJson data =
          if fs.length ≠ 4 then .reject else checkFields (fs.map memberBytes)) ∨
      (parseStrictReceiptJson data = .reject ∧ ∀ cs fs, data = Utf8.encode cs →
        ObjectText cs (fs.map memberText) → Distinct fs → fs = []) := by
  rw [parseStrictReceiptJson]
  rcases isValidUtf8_spec data with ⟨hvalid, cs, hcs⟩ | ⟨hvalid, hbad⟩
  swap
  · rw [hvalid, bind_reject]
    exact Or.inr ⟨rfl, fun cs fs heq => absurd ⟨cs, heq⟩ hbad⟩
  rw [hvalid, bind_accept]
  have hstart : At data 0 cs := by
    rw [At, ← hcs]
    exact left_start data
  have hcs' : ∀ cs', data = Utf8.encode cs' → cs' = cs :=
    fun cs' heq => Utf8.encode_inj (heq.symm.trans hcs)
  obtain ⟨i, t, hskip, hat, hws, hnows⟩ := skipWs_spec (data.length + 1) hstart (by omega)
  rw [hskip, bind_accept]
  have hobject : ∀ cs' fs, data = Utf8.encode cs' → ObjectText cs' (fs.map memberText) → fs ≠ [] →
      ∃ t₁ t₂, t = '{' :: t₁ ∧ Members t₁ (fs.map memberText) t₂ ∧ Ws t₂ [] := by
    intro cs' fs heq htext hne
    rw [hcs' cs' heq] at htext
    exact objectText_members hws hnows htext hne
  cases t with
  | nil =>
    have hend := hat.end_eq
    refine Or.inr ⟨if_pos (by omega), fun cs' fs heq htext _ => ?_⟩
    by_contra hne
    obtain ⟨t₁, t₂, hbrace, -⟩ := hobject cs' fs heq htext hne
    cases hbrace
  | cons c t =>
    have hlt := hat.lt
    rw [if_neg (by omega), hat.read, bind_accept]
    by_cases hbrace : c = '\x7b'
    swap
    · refine Or.inr ⟨if_pos (fun heq => hbrace ((lead_eq (by decide)).mp heq)),
        fun cs' fs heq htext _ => ?_⟩
      by_contra hne
      obtain ⟨t₁, t₂, heq, -⟩ := hobject cs' fs heq htext hne
      exact hbrace (List.cons.inj heq).1
    subst hbrace
    rw [if_neg (not_not.mpr ((lead_eq (by decide)).mpr rfl))]
    have hat₁ := hat.step (by decide)
    have hroom := hat₁.room
    rcases @memberLoop_spec _ _ _ (data.length + 1) [] hat₁ (by omega) List.nodup_nil with
      ⟨j, fs, rest, hrun, hatj, hmembers, hdistinct⟩ | ⟨hrun, hno⟩
    swap
    · rw [List.map_nil] at hrun
      rw [hrun, bind_reject]
      refine Or.inr ⟨rfl, fun cs' fs heq htext hdistinct => ?_⟩
      by_contra hne
      obtain ⟨t₁, t₂, heq, hmembers, -⟩ := hobject cs' fs heq htext hne
      obtain rfl := (List.cons.inj heq).2
      exact hno fs t₂ hmembers hdistinct
    rw [List.map_nil] at hrun
    rw [hrun, bind_accept]
    have hlej := hatj.le
    obtain ⟨k, t', hskip', hatk, hws', hnows'⟩ := skipWs_spec (data.length + 1) hatj (by omega)
    dsimp only
    rw [hskip', bind_accept, List.length_map]
    cases t' with
    | nil =>
      have hend := hatk.end_eq
      refine Or.inl ⟨cs, fs, hcs, .members hws hmembers hws', hdistinct, ?_⟩
      by_cases h4 : fs.length ≠ 4
      · exact (if_pos (Or.inr h4)).trans (if_pos h4).symm
      · exact (if_neg (fun hor => hor.elim (fun hk => hk hend) h4)).trans (if_neg h4).symm
    | cons e t' =>
      have hltk := hatk.lt
      refine Or.inr ⟨if_pos (Or.inl (by omega)), fun cs' fs' heq htext hdistinct' => ?_⟩
      by_contra hne
      obtain ⟨t₁, t₂, heq, hmembers', hafter⟩ := hobject cs' fs' heq htext hne
      obtain rfl := (List.cons.inj heq).2
      obtain ⟨-, rfl⟩ := hmembers.unique hmembers'
      cases hws'.unique hafter hnows' noWs_nil

theorem parse_ends (data : Bytes) :
    (∃ r, parseStrictReceiptJson data = .accept r) ∨ parseStrictReceiptJson data = .reject := by
  rcases parse_spec data with ⟨cs, fs, -, -, -, hrun⟩ | ⟨hrun, -⟩
  · rw [hrun]
    split_ifs
    · exact Or.inr rfl
    · exact checkFields_ends _
  · exact Or.inr hrun

/-- The parser on the decoded members of an object. -/
theorem parse_iff (r : StrictGroupReceipt) : parseStrictReceiptJson data = .accept r ↔
    ∃ cs fs m t s, data = Utf8.encode cs ∧ ObjectText cs (fs.map memberText) ∧
      Conforms fs m t s ∧ r = receiptOf m t s := by
  constructor
  · intro h
    rcases parse_spec data with ⟨cs, fs, hcs, htext, hdistinct, hrun⟩ | ⟨hrun, -⟩
    · rw [hrun] at h
      split_ifs at h with h4
      obtain ⟨m, t, s, hconf, hr⟩ := (checkFields_iff hdistinct (not_not.mp h4) r).mp h
      exact ⟨cs, fs, m, t, s, hcs, htext, hconf, hr⟩
    · rw [hrun] at h
      cases h
  · rintro ⟨cs, fs, m, t, s, hcs, htext, hconf, hr⟩
    have h4 := hconf.length_eq
    rcases parse_spec data with ⟨cs', fs', hcs', htext', hdistinct, hrun⟩ | ⟨-, hno⟩
    · obtain rfl := Utf8.encode_inj (hcs'.symm.trans hcs)
      have hsame := List.map_injective_iff.mpr memberText_injective (htext'.unique htext)
      rw [hsame] at hrun hdistinct
      rw [hrun, if_neg (not_not.mpr h4)]
      exact (checkFields_iff hdistinct h4 r).mpr ⟨m, t, s, hconf, hr⟩
    · rw [hno cs fs hcs htext hconf.distinct] at h4
      cases h4

/-- The members of whole characters of a receipt object. -/
theorem receiptObject_fields {ms : List (List ℕ × List ℕ)} {m : List Char} {t s : List ℕ}
    (h : ReceiptObject ms (Utf16.encode m) t s) :
    ∃ (fs : List (List Char × List Char)) (t' s' : List Char), ms = fs.map memberText ∧
      t = Utf16.encode t' ∧ s = Utf16.encode s' := by
  obtain ⟨s', rfl, -⟩ := h.key
  obtain ⟨t', rfl⟩ : ∃ t', t = Utf16.encode t' := h.kind.elim (fun h => ⟨_, h⟩) (fun h => ⟨_, h⟩)
  have hmem : ∀ x ∈ ms, x ∈ Set.range memberText := by
    intro x hx
    have hx' := h.members.mem_iff.mp hx
    simp only [List.mem_cons, List.not_mem_nil, or_false] at hx'
    rcases hx' with rfl | rfl | rfl | rfl
    · exact ⟨("type".toList, "receipt".toList), rfl⟩
    · exact ⟨("msgID".toList, m), rfl⟩
    · exact ⟨("receiptType".toList, t'), rfl⟩
    · exact ⟨("sender".toList, s'), rfl⟩
  obtain ⟨fs, rfl⟩ : ms ∈ Set.range (List.map memberText) := by
    rw [Set.range_list_map]
    exact hmem
  exact ⟨fs, t', s', rfl, rfl, rfl⟩

/-! ## The body of a receipt -/

/-- The characters `EscapeJsonForReceipt` writes for one. -/
def escapeChar (c : Char) : List Char :=
  if c = '"' then ['\\', '"'] else if c = '\\' then ['\\', '\\'] else [c]

theorem escape_encode {m : List Char} (hprint : ∀ c ∈ m, ¬ c.toNat < 0x20) :
    escapeJsonForReceipt (Utf8.encode m) = Utf8.encode (m.flatMap escapeChar) := by
  induction m with
  | nil => rfl
  | cons c m ih =>
    rw [List.forall_mem_cons] at hprint
    rw [escapeJsonForReceipt] at ih ⊢
    rw [Utf8.encode_cons, List.flatMap_append, ih hprint.2, List.flatMap_cons,
      Utf8.encode_append]
    congr 1
    by_cases hplain : plain c = true
    · have hcopied := plain_copied hplain
      simp only [plain, Bool.and_eq_true, decide_eq_true_eq] at hplain
      rw [escapeChar, if_neg hplain.1.2, if_neg hplain.2, Utf8.encode_cons, Utf8.encode_nil,
        List.append_nil]
      generalize String.utf8EncodeChar c = bs at hcopied
      induction bs with
      | nil => rfl
      | cons b bs ihb =>
        rw [List.forall_mem_cons] at hcopied
        obtain ⟨⟨hquote, hcontrol, hslash⟩, hrest⟩ := hcopied
        rw [List.flatMap_cons, ihb hrest, if_neg hquote, if_neg hslash,
          if_pos (UInt8.not_lt.mp hcontrol)]
        rfl
    · by_cases hquote : c = '"'
      · subst hquote
        decide
      · by_cases hslash : c = '\\'
        · subst hslash
          decide
        · exact absurd (by simp [plain, hquote, hslash]; omega) hplain

/-- A printed string reads as what was printed. -/
theorem chars_escaped {m : List Char} (hprint : ∀ c ∈ m, ¬ c.toNat < 0x20) (rest : List Char) :
    Chars (m.flatMap escapeChar ++ '"' :: rest) (Utf16.encode m) rest := by
  induction m with
  | nil => exact .close rest
  | cons c m ih =>
    rw [List.forall_mem_cons] at hprint
    have hmore := ih hprint.2
    rw [List.flatMap_cons, List.append_assoc, Utf16.encode_cons, escapeChar]
    split_ifs with hquote hslash
    · subst hquote
      exact .escape rfl hmore
    · subst hslash
      exact .escape rfl hmore
    · exact .plain (by simp [plain, hquote, hslash]; omega) hmore

theorem escape_plain {m : List Char} (h : ∀ c ∈ m, plain c = true) :
    m.flatMap escapeChar = m := by
  induction m with
  | nil => rfl
  | cons c m ih =>
    rw [List.forall_mem_cons] at h
    have hc := h.1
    simp only [plain, Bool.and_eq_true, decide_eq_true_eq] at hc
    rw [List.flatMap_cons, ih h.2, escapeChar, if_neg hc.1.2, if_neg hc.2]
    rfl

theorem plain_of_all {m : List Char} (h : m.all plain = true) : ∀ c ∈ m, plain c = true :=
  List.all_eq_true.mp h

theorem plain_prints {m : List Char} (h : ∀ c ∈ m, plain c = true) : ∀ c ∈ m, ¬ c.toNat < 0x20 := by
  intro c hc hlow
  have hplain := h c hc
  simp only [plain, Bool.and_eq_true, decide_eq_true_eq] at hplain
  omega

/-- The text of a member without white space. -/
def tight (key value rest : List Char) : List Char :=
  '"' :: (key ++ '"' :: ':' :: '"' :: (value ++ '"' :: rest))

theorem member_escaped {key m : List Char} (hkey : ∀ c ∈ key, plain c = true)
    (hprint : ∀ c ∈ m, ¬ c.toNat < 0x20) (rest : List Char) :
    Member (tight key (m.flatMap escapeChar) rest) (memberText (key, m)) rest := by
  have hname := chars_escaped (plain_prints hkey) (':' :: '"' :: (m.flatMap escapeChar ++ '"' :: rest))
  rw [escape_plain hkey] at hname
  exact .intro (.done _) (.intro hname) (.done _) (.done _) (.intro (chars_escaped hprint rest))
    (.done _)

theorem member_plain {key m : List Char} (hkey : ∀ c ∈ key, plain c = true)
    (hm : ∀ c ∈ m, plain c = true) (rest : List Char) :
    Member (tight key m rest) (memberText (key, m)) rest := by
  have hmember := member_escaped hkey (plain_prints hm) rest
  rwa [escape_plain hm] at hmember

/-- The characters of a key in hexadecimal. -/
def hexChars (bytes : Bytes) : List Char :=
  bytes.flatMap fun b => ["0123456789ABCDEF".toList.getD (b.toNat / 16) '0',
    "0123456789ABCDEF".toList.getD (b.toNat % 16) '0']

theorem toxBytesToHex_eq (bytes : Bytes) : toxBytesToHex bytes = Utf8.encode (hexChars bytes) := by
  have hbyte : ∀ b : UInt8, [(literal "0123456789ABCDEF").getD ((b >>> 4) &&& 0xF).toNat 0,
      (literal "0123456789ABCDEF").getD (b &&& 0xF).toNat 0] =
      Utf8.encode ["0123456789ABCDEF".toList.getD (b.toNat / 16) '0',
        "0123456789ABCDEF".toList.getD (b.toNat % 16) '0'] :=
    forall_byte (P := fun b => [(literal "0123456789ABCDEF").getD ((b >>> 4) &&& 0xF).toNat 0,
      (literal "0123456789ABCDEF").getD (b &&& 0xF).toNat 0] =
      Utf8.encode ["0123456789ABCDEF".toList.getD (b.toNat / 16) '0',
        "0123456789ABCDEF".toList.getD (b.toNat % 16) '0']) (by decide +kernel)
  induction bytes with
  | nil => rfl
  | cons b bytes ih =>
    rw [toxBytesToHex] at ih ⊢
    rw [hexChars, List.flatMap_cons, List.flatMap_cons, Utf8.encode_append, hbyte, ih]
    rfl

theorem hexChars_digit (bytes : Bytes) :
    ∀ c ∈ hexChars bytes, plain c = true ∧ (hexValue c).isSome = true := by
  intro c hc
  obtain ⟨b, -, hmem⟩ := List.mem_flatMap.mp hc
  have hall : ∀ n < 16, plain ("0123456789ABCDEF".toList.getD n '0') = true ∧
      (hexValue ("0123456789ABCDEF".toList.getD n '0')).isSome = true := by decide
  have hb := b.toNat_lt
  simp only [List.mem_cons, List.not_mem_nil, or_false] at hmem
  rcases hmem with rfl | rfl
  · exact hall _ (by omega)
  · exact hall _ (by omega)

theorem hexChars_length (bytes : Bytes) : (hexChars bytes).length = 2 * bytes.length := by
  induction bytes with
  | nil => rfl
  | cons b bytes ih =>
    rw [hexChars, List.flatMap_cons, List.length_append, ← hexChars, ih]
    simp only [List.length_cons, List.length_nil]
    omega

/-- The text of a receipt's body. -/
def bodyText (m t s : List Char) : List Char :=
  '{' :: tight "type".toList "receipt".toList (',' :: tight "msgID".toList (m.flatMap escapeChar)
    (',' :: tight "receiptType".toList t (',' :: tight "sender".toList s ['}'])))

theorem bodyText_object {m t s : List Char} (hm : ∀ c ∈ m, ¬ c.toNat < 0x20)
    (ht : ∀ c ∈ t, plain c = true) (hs : ∀ c ∈ s, plain c = true) :
    ObjectText (bodyText m t s) ([("type".toList, "receipt".toList), ("msgID".toList, m),
      ("receiptType".toList, t), ("sender".toList, s)].map memberText) := by
  have hsender : Member _ (memberText ("sender".toList, s)) _ :=
    member_plain (plain_of_all rfl) hs ['}']
  have hkind : Member _ (memberText ("receiptType".toList, t)) _ :=
    member_plain (plain_of_all rfl) ht (',' :: tight "sender".toList s ['}'])
  have hmsg : Member _ (memberText ("msgID".toList, m)) _ :=
    member_escaped (plain_of_all rfl) hm
      (',' :: tight "receiptType".toList t (',' :: tight "sender".toList s ['}']))
  have htype : Member _ (memberText ("type".toList, "receipt".toList)) _ :=
    member_plain (plain_of_all rfl) (plain_of_all rfl)
      (',' :: tight "msgID".toList (m.flatMap escapeChar)
        (',' :: tight "receiptType".toList t (',' :: tight "sender".toList s ['}'])))
  exact .members (.done _) (.more htype (.more hmsg (.more hkind (.last hsender)))) (.done _)

theorem groupReceiptBody_eq {m t : List Char} (hm : ∀ c ∈ m, ¬ c.toNat < 0x20) (key : Bytes) :
    groupReceiptBody (Utf8.encode m) (Utf8.encode t) key =
      Utf8.encode (bodyText m t (hexChars key)) := by
  have hstart : literal "\x7b\"type\":\"receipt\",\"msgID\":\"" = Utf8.encode
      ('{' :: '"' :: ("type".toList ++ '"' :: ':' :: '"' :: ("receipt".toList ++ '"' :: ',' ::
        '"' :: ("msgID".toList ++ ['"', ':', '"'])))) := by decide
  have hmiddle : literal "\",\"receiptType\":\"" =
      Utf8.encode ('"' :: ',' :: '"' :: ("receiptType".toList ++ ['"', ':', '"'])) := by
    decide
  have hsender : literal "\",\"sender\":\"" =
      Utf8.encode ('"' :: ',' :: '"' :: ("sender".toList ++ ['"', ':', '"'])) := by decide
  have hend : literal "\"\x7d" = Utf8.encode ['"', '}'] := by decide
  rw [groupReceiptBody, escape_encode hm, toxBytesToHex_eq, hstart, hmiddle, hsender, hend]
  simp only [← Utf8.encode_append, bodyText, tight, List.append_assoc, List.cons_append,
    List.nil_append]

theorem groupReceiptBody_parses {msgId receiptType key : Bytes} (hnamed : msgId ≠ [])
    (hwell : Utf8.WellFormed msgId) (hprint : ∀ b ∈ msgId, 0x20 ≤ b)
    (hkind : receiptType = literal "received" ∨ receiptType = literal "read")
    (hkey : key.length = 32) :
    parseStrictReceiptJson (groupReceiptBody msgId receiptType key) =
      .accept ⟨msgId, receiptType, toxBytesToHex key⟩ := by
  obtain ⟨m, rfl⟩ := hwell
  obtain ⟨t, rfl, ht⟩ : ∃ t, receiptType = Utf8.encode t ∧
      (t = "received".toList ∨ t = "read".toList) := by
    rcases hkind with rfl | rfl
    · exact ⟨_, rfl, Or.inl rfl⟩
    · exact ⟨_, rfl, Or.inr rfl⟩
  have hm : ∀ c ∈ m, ¬ c.toNat < 0x20 := by
    intro c hc hlow
    obtain ⟨ts, hts⟩ := utf8EncodeChar_lead c
    have hmem : lead c ∈ Utf8.encode m :=
      List.mem_flatMap.mpr ⟨c, hc, by rw [hts]; exact List.mem_cons_self⟩
    exact UInt8.not_lt.mpr (hprint _ hmem) ((lead_control c).mpr hlow)
  have hplain : ∀ c ∈ t, plain c = true := by
    rcases ht with rfl | rfl
    · exact plain_of_all rfl
    · exact plain_of_all rfl
  have hdigits := hexChars_digit key
  have hobject := bodyText_object hm hplain fun c hc => (hdigits c hc).1
  have hconf : Conforms [("type".toList, "receipt".toList), ("msgID".toList, m),
      ("receiptType".toList, t), ("sender".toList, hexChars key)] m t (hexChars key) := by
    refine ⟨List.Perm.refl _, ?_, ht, ?_, fun c hc => (hdigits c hc).2⟩
    · rintro rfl
      exact hnamed rfl
    · rw [hexChars_length, hkey]
  rw [groupReceiptBody_eq hm, toxBytesToHex_eq]
  exact (parse_iff _).mpr ⟨_, _, _, _, _, rfl, hobject, hconf, rfl⟩

/-! ## What passes -/

/-- The bytes are the UTF-8 of a receipt object. -/
def ReceiptBody (data : Bytes) : Prop :=
  ∃ cs ms m t s, data = Utf8.encode cs ∧ ObjectText cs ms ∧ ReceiptObject ms m t s

/-- The parser ends in the data, and accepts the receipt objects whose message is named by whole
    characters; every decoding of an accepted body is the receipt it returns, and the body built
    for a message parses to that message. -/
theorem strict_receipts_exact :
    (∀ data, (∃ r, parseStrictReceiptJson data = .accept r) ∨
      parseStrictReceiptJson data = .reject) ∧
    (∀ data r, parseStrictReceiptJson data = .accept r ↔ ∃ cs ms m t s, data = Utf8.encode cs ∧
      ObjectText cs ms ∧
      ReceiptObject ms (Utf16.encode m) (Utf16.encode t) (Utf16.encode s) ∧
      r = ⟨Utf8.encode m, Utf8.encode t, Utf8.encode s⟩) ∧
    (∀ data r cs ms, parseStrictReceiptJson data = .accept r → data = Utf8.encode cs →
      ObjectText cs ms → ∃ m t s,
        ReceiptObject ms (Utf16.encode m) (Utf16.encode t) (Utf16.encode s) ∧
        r = ⟨Utf8.encode m, Utf8.encode t, Utf8.encode s⟩) ∧
    (∀ msgId receiptType key, msgId ≠ [] → Utf8.WellFormed msgId → (∀ b ∈ msgId, 0x20 ≤ b) →
      receiptType = literal "received" ∨ receiptType = literal "read" → key.length = 32 →
      parseStrictReceiptJson (groupReceiptBody msgId receiptType key) =
          .accept ⟨msgId, receiptType, toxBytesToHex key⟩ ∧
        ((groupReceiptBody msgId receiptType key).length ≤ 1024 →
          receiptPayload (groupReceiptBody msgId receiptType key) =
            .accept ⟨msgId, receiptType, toxBytesToHex key⟩)) := by
  refine ⟨parse_ends, ?_, ?_, ?_⟩
  · intro data r
    rw [parse_iff]
    constructor
    · rintro ⟨cs, fs, m, t, s, hcs, htext, hconf, hr⟩
      exact ⟨cs, _, m, t, s, hcs, htext, receiptObject_iff.mpr hconf, hr⟩
    · rintro ⟨cs, ms, m, t, s, hcs, htext, hobject, hr⟩
      obtain ⟨fs, -, -, rfl, -, -⟩ := receiptObject_fields hobject
      exact ⟨cs, fs, m, t, s, hcs, htext, receiptObject_iff.mp hobject, hr⟩
  · intro data r cs ms hrun hcs htext
    obtain ⟨cs', fs, m, t, s, hcs', htext', hconf, hr⟩ := (parse_iff r).mp hrun
    obtain rfl := Utf8.encode_inj (hcs'.symm.trans hcs)
    rw [htext.unique htext']
    exact ⟨m, t, s, receiptObject_iff.mpr hconf, hr⟩
  · intro msgId receiptType key hnamed hwell hprint hkind hkey
    have hparse := groupReceiptBody_parses hnamed hwell hprint hkind hkey
    refine ⟨hparse, fun hlimit => ?_⟩
    have hpos : (groupReceiptBody msgId receiptType key).length ≠ 0 := by
      rw [groupReceiptBody]
      simp only [List.length_append]
      have hstart : 0 < (literal "\x7b\"type\":\"receipt\",\"msgID\":\"").length := by
        decide
      omega
    rw [receiptPayload, if_neg (by omega)]
    exact hparse

theorem sent_receipt_parses :
    parseStrictReceiptJson (groupReceiptBody (literal "m1") (literal "read")
      (List.replicate 32 0xAB)) =
      .accept ⟨literal "m1", literal "read", toxBytesToHex (List.replicate 32 0xAB)⟩ :=
  (strict_receipts_exact.2.2.2 (literal "m1") (literal "read") (List.replicate 32 0xAB)
    (by decide) ⟨"m1".toList, rfl⟩ (by decide +kernel) (Or.inr rfl) (by decide)).1

/-- A message named by half a surrogate pair. -/
def loneSurrogate : List Char :=
  '{' :: tight "type".toList "receipt".toList (',' :: tight "msgID".toList "\\ud800".toList
    (',' :: tight "receiptType".toList "read".toList
      (',' :: tight "sender".toList (List.replicate 64 'a') ['}'])))

theorem lone_surrogate_rejected : ReceiptBody (Utf8.encode loneSurrogate) ∧
    parseStrictReceiptJson (Utf8.encode loneSurrogate) = .reject := by
  refine ⟨⟨loneSurrogate, [(text "type", text "receipt"), (text "msgID", [0xD800]),
    (text "receiptType", text "read"), (text "sender", Utf16.encode (List.replicate 64 'a'))],
    [0xD800], text "read", _, rfl, ?_, List.Perm.refl _, by decide, Or.inr rfl,
    List.replicate 64 'a', rfl, by decide, List.all_eq_true.mp (by decide)⟩,
    by decide +kernel⟩
  have hname := chars_escaped (plain_prints (m := "msgID".toList) (plain_of_all rfl))
  have hmsg : ∀ rest, Member (tight "msgID".toList "\\ud800".toList rest) (text "msgID", [0xD800])
      rest := fun rest => .intro (.done _) (.intro (hname _)) (.done _) (.done _)
    (.intro (.unicode rfl (.close rest))) (.done _)
  exact .members (.done _) (.more (member_plain (plain_of_all rfl) (plain_of_all rfl) _)
    (.more (hmsg _) (.more (member_plain (plain_of_all rfl) (plain_of_all rfl) _)
      (.last (member_plain (plain_of_all rfl) (plain_of_all rfl) _))))) (.done _)

end Tim2Tox.GroupReceipts
