import Mathlib.Data.List.Nodup
import Mathlib.Data.List.Perm.Subperm
import Tim2Tox.ReceiptStrings

set_option autoImplicit false

/-!
# The receipt object

`ParseStrictReceiptJson` accepts the encodings of JSON objects with the schema of a receipt, and
returns the encodings of the strings they hold.
-/
namespace Tim2Tox.GroupReceipts

open Json

/-- The code units of a string literal. -/
def text (s : String) : List ℕ := Utf16.encode s.toList

/-! ## Members -/

/-- A member of whole characters, as the grammar reads it and as the scanner keeps it. -/
def memberText (f : List Char × List Char) : List ℕ × List ℕ :=
  (Utf16.encode f.1, Utf16.encode f.2)

def memberBytes (f : List Char × List Char) : Bytes × Bytes := (Utf8.encode f.1, Utf8.encode f.2)

theorem memberText_inj {f g : List Char × List Char} (h : memberText f = memberText g) : f = g := by
  obtain ⟨hkey, hvalue⟩ := Prod.mk.inj h
  exact Prod.ext (Utf16.encode_inj hkey) (Utf16.encode_inj hvalue)

variable {data : Bytes} {i : ℕ} {cs : List Char}

/-- The parts of a member with its white space. -/
theorem member_parts {f : List Char × List Char} {rest : List Char}
    (h : Member cs (memberText f) rest) : ∃ t₁ t₂ t₃ t₄ t₅, Ws cs t₁ ∧
      StringText t₁ (Utf16.encode f.1) t₂ ∧ Ws t₂ (':' :: t₃) ∧ Ws t₃ t₄ ∧
      StringText t₄ (Utf16.encode f.2) t₅ ∧ Ws t₅ rest := by
  generalize hm : memberText f = m at h
  cases h with
  | intro before name middle gap value after =>
    obtain ⟨hkey, hvalue⟩ := Prod.mk.inj hm
    rw [hkey, hvalue]
    exact ⟨_, _, _, _, _, before, name, middle, gap, value, after⟩

/-- Reading a member ends before the white space behind its value. -/
theorem parseMember_spec (h : At data i cs) :
    (∃ j f rest, parseMember data i = .accept (j, memberBytes f) ∧ At data j rest ∧
        ∀ rest', Ws rest rest' → Member cs (memberText f) rest') ∨
      (parseMember data i = .reject ∧ ∀ f rest, ¬ Member cs (memberText f) rest) := by
  have hle := h.le
  obtain ⟨i₁, t₁, hrun₁, hat₁, hws₁, hno₁⟩ := skipWs_spec (data.length + 1) h (by omega)
  rw [parseMember, hrun₁, bind_accept]
  rcases parseString_spec hat₁ with ⟨i₂, key, t₂, hrun₂, hat₂, hkey⟩ | ⟨hrun₂, hbad⟩
  swap
  · rw [hrun₂, bind_reject]
    refine Or.inr ⟨rfl, fun f rest hmember => ?_⟩
    obtain ⟨s₁, s₂, s₃, s₄, s₅, before, name, -⟩ := member_parts hmember
    obtain rfl := before.unique hws₁ name.noWs hno₁
    exact hbad _ _ name
  rw [hrun₂, bind_accept]
  have hle₂ := hat₂.le
  obtain ⟨i₃, t₃, hrun₃, hat₃, hws₃, hno₃⟩ := skipWs_spec (data.length + 1) hat₂ (by omega)
  dsimp only
  rw [hrun₃, bind_accept]
  -- the text before the colon is read in one way
  have hcolon : ∀ {f rest}, Member cs (memberText f) rest → ∃ s₃ s₄ s₅, t₃ = ':' :: s₃ ∧
      Utf16.encode f.1 = Utf16.encode key ∧ Ws s₃ s₄ ∧ StringText s₄ (Utf16.encode f.2) s₅ := by
    intro f rest hmember
    obtain ⟨s₁, s₂, s₃, s₄, s₅, before, name, middle, gap, value, -⟩ := member_parts hmember
    obtain rfl := before.unique hws₁ name.noWs hno₁
    obtain ⟨hsame, rfl⟩ := name.unique hkey
    exact ⟨s₃, s₄, s₅, hws₃.unique middle hno₃ (noWs_cons rfl), hsame, gap, value⟩
  cases t₃ with
  | nil =>
    have hend := hat₃.end_eq
    refine Or.inr ⟨if_pos (by omega), fun f rest hmember => ?_⟩
    obtain ⟨s₃, s₄, s₅, heq, -⟩ := hcolon hmember
    cases heq
  | cons c t₃ =>
    have hlt₃ := hat₃.lt
    rw [if_neg (by omega), hat₃.read, bind_accept]
    by_cases hc : c = ':'
    swap
    · refine Or.inr ⟨if_pos (fun heq => hc ((lead_eq (by decide)).mp heq)), fun f rest hmember => ?_⟩
      obtain ⟨s₃, s₄, s₅, heq, -⟩ := hcolon hmember
      exact hc (List.cons.inj heq).1
    subst hc
    rw [if_neg (not_not.mpr ((lead_eq (by decide)).mpr rfl))]
    obtain ⟨i₄, t₄, hrun₄, hat₄, hws₄, hno₄⟩ :=
      skipWs_spec (data.length + 1) (hat₃.step (by decide)) (by omega)
    rw [hrun₄, bind_accept]
    rcases parseString_spec hat₄ with ⟨i₅, value, t₅, hrun₅, hat₅, hvalue⟩ | ⟨hrun₅, hbad⟩
    · rw [hrun₅, bind_accept]
      refine Or.inl ⟨i₅, (key, value), t₅, rfl, hat₅, fun rest' hws => ?_⟩
      exact .intro hws₁ hkey hws₃ hws₄ hvalue hws
    · rw [hrun₅, bind_reject]
      refine Or.inr ⟨rfl, fun f rest hmember => ?_⟩
      obtain ⟨s₃, s₄, s₅, heq, -, gap, hvalue⟩ := hcolon hmember
      obtain rfl := (List.cons.inj heq).2
      obtain rfl := gap.unique hws₄ hvalue.noWs hno₄
      exact hbad _ _ hvalue

/-! ## Fields -/

def Distinct (fs : List (List Char × List Char)) : Prop := (fs.map Prod.fst).Nodup

theorem any_key (fs : List (List Char × List Char)) (key : List Char) :
    ((fs.map memberBytes).any fun f => f.1 = Utf8.encode key) = true ↔ key ∈ fs.map Prod.fst := by
  simp only [List.any_map, List.any_eq_true, Function.comp, decide_eq_true_eq, List.mem_map]
  constructor
  · rintro ⟨f, hf, heq⟩
    exact ⟨f, hf, Utf8.encode_inj heq⟩
  · rintro ⟨f, hf, rfl⟩
    exact ⟨f, hf, rfl⟩

theorem emplace_taken {fs : List (List Char × List Char)} {f : List Char × List Char}
    (h : f.1 ∈ fs.map Prod.fst) :
    emplace (fs.map memberBytes) (memberBytes f).1 (memberBytes f).2 = none :=
  if_pos ((any_key fs f.1).mpr h)

theorem emplace_new {fs : List (List Char × List Char)} {f : List Char × List Char}
    (h : f.1 ∉ fs.map Prod.fst) :
    emplace (fs.map memberBytes) (memberBytes f).1 (memberBytes f).2 =
      some ((fs ++ [f]).map memberBytes) := by
  rw [List.map_append]
  exact if_neg (fun htaken => h ((any_key fs f.1).mp htaken))

theorem Distinct.snoc {fs : List (List Char × List Char)} {f : List Char × List Char}
    (h : Distinct fs) (hf : f.1 ∉ fs.map Prod.fst) : Distinct (fs ++ [f]) := by
  rw [Distinct, List.map_append]
  refine List.nodup_append.mpr ⟨h, by simp, ?_⟩
  intro k hk k' hk' heq
  rw [heq, List.mem_singleton.mp hk'] at hk
  exact hf hk

theorem Distinct.not_mem {done fs : List (List Char × List Char)} {f : List Char × List Char}
    (h : Distinct (done ++ f :: fs)) : f.1 ∉ done.map Prod.fst := by
  intro hmem
  rw [Distinct, List.map_append, List.map_cons] at h
  exact (List.nodup_append.mp h).2.2 _ hmem _ List.mem_cons_self rfl

/-- The members a text begins with are read in one way. -/
theorem members_head {fs : List (List Char × List Char)} {f : List Char × List Char}
    {t rest : List Char} (hmember : Member cs (memberText f) t) (ht : NoWs t)
    (h : Members cs (fs.map memberText) rest) :
    (fs = [f] ∧ t = '}' :: rest) ∨
      ∃ fs' t', fs = f :: fs' ∧ t = ',' :: t' ∧ Members t' (fs'.map memberText) rest := by
  generalize hms : fs.map memberText = ms at h
  cases h with
  | last member =>
    obtain ⟨hsame, heq⟩ := hmember.unique member ht (noWs_cons rfl)
    obtain ⟨g, rfl, hg⟩ := List.map_eq_singleton_iff.mp hms
    rw [memberText_inj (hsame.trans hg.symm)]
    exact Or.inl ⟨rfl, heq⟩
  | more member next =>
    obtain ⟨hsame, heq⟩ := hmember.unique member ht (noWs_cons rfl)
    obtain ⟨g, fs', rfl, hg, rfl⟩ := List.map_eq_cons_iff.mp hms
    rw [memberText_inj (hsame.trans hg.symm)]
    exact Or.inr ⟨fs', _, rfl, heq, next⟩

theorem memberLoop_spec (fuel : ℕ) {done : List (List Char × List Char)} (h : At data i cs)
    (hfuel : cs.length < fuel) (hdone : Distinct done) :
    (∃ j fs rest, memberLoop data fuel i (done.map memberBytes) =
          .accept (j, (done ++ fs).map memberBytes) ∧ At data j rest ∧
        Members cs (fs.map memberText) rest ∧ Distinct (done ++ fs)) ∨
      (memberLoop data fuel i (done.map memberBytes) = .reject ∧
        ∀ fs rest, Members cs (fs.map memberText) rest → ¬ Distinct (done ++ fs)) := by
  induction fuel generalizing i cs done with
  | zero => omega
  | succ fuel ih =>
    rw [memberLoop]
    rcases parseMember_spec h with ⟨j, f, t, hrun, hat, hmember⟩ | ⟨hrun, hno⟩
    swap
    · rw [hrun, bind_reject]
      refine Or.inr ⟨rfl, fun fs rest hmembers _ => ?_⟩
      generalize hms : fs.map memberText = ms at hmembers
      cases hmembers with
      | last member =>
        obtain ⟨g, rfl, hg⟩ := List.map_eq_singleton_iff.mp hms
        exact hno g _ (hg ▸ member)
      | more member =>
        obtain ⟨g, fs', rfl, hg, rfl⟩ := List.map_eq_cons_iff.mp hms
        exact hno g _ (hg ▸ member)
    rw [hrun, bind_accept]
    have hlej := hat.le
    obtain ⟨j', t', hskip, hat', hws, hnows⟩ := skipWs_spec (data.length + 1) hat (by omega)
    have hmember' := hmember t' hws
    by_cases htaken : f.1 ∈ done.map Prod.fst
    · refine Or.inr ⟨?_, fun fs rest hmembers hdistinct => ?_⟩
      · dsimp only
        rw [emplace_taken htaken]
      · rcases members_head hmember' hnows hmembers with ⟨rfl, -⟩ | ⟨fs', t'', rfl, -⟩
        · exact hdistinct.not_mem htaken
        · exact hdistinct.not_mem htaken
    dsimp only
    rw [emplace_new htaken]
    dsimp only
    rw [hskip, bind_accept]
    cases t' with
    | nil =>
      have hend := hat'.end_eq
      refine Or.inr ⟨if_neg (by omega), fun fs rest hmembers _ => ?_⟩
      rcases members_head hmember' hnows hmembers with ⟨-, heq⟩ | ⟨fs', t'', -, heq, -⟩
      · cases heq
      · cases heq
    | cons c t' =>
      rw [if_pos hat'.lt, hat'.read, bind_accept]
      by_cases hcomma : c = ','
      · subst hcomma
        rw [if_pos ((lead_eq (by decide)).mpr rfl)]
        have hshort := hmember'.length_lt
        rw [List.length_cons] at hshort
        rcases ih (hat'.step (by decide)) (by omega) (hdone.snoc htaken) with
          ⟨k, fs, rest, hrun', hatk, hmembers, hdistinct⟩ | ⟨hrun', hno⟩
        · rw [List.append_assoc] at hrun' hdistinct
          exact Or.inl ⟨k, f :: fs, rest, hrun', hatk, .more hmember' hmembers, hdistinct⟩
        · refine Or.inr ⟨hrun', fun fs rest hmembers hdistinct => ?_⟩
          rcases members_head hmember' hnows hmembers with ⟨-, heq⟩ | ⟨fs', t'', rfl, heq, hnext⟩
          · cases heq
          · obtain rfl := (List.cons.inj heq).2
            refine hno fs' rest hnext ?_
            rwa [List.append_assoc]
      · rw [if_neg (fun heq => hcomma ((lead_eq (by decide)).mp heq))]
        by_cases hbrace : c = '\x7d'
        · subst hbrace
          rw [if_pos ((lead_eq (by decide)).mpr rfl)]
          exact Or.inl ⟨j' + 1, [f], t', rfl, hat'.step (by decide), .last hmember',
            hdone.snoc htaken⟩
        · refine Or.inr ⟨if_neg (fun heq => hbrace ((lead_eq (by decide)).mp heq)), ?_⟩
          intro fs rest hmembers _
          rcases members_head hmember' hnows hmembers with ⟨-, heq⟩ | ⟨fs', t'', -, heq, -⟩
          · exact hbrace (List.cons.inj heq).1
          · exact hcomma (List.cons.inj heq).1

/-! ## The schema -/

/-- A decoded object is a receipt: four members, in any order. -/
structure ReceiptObject (ms : List (List ℕ × List ℕ)) (msgId receiptType sender : List ℕ) :
    Prop where
  members : ms.Perm [(text "type", text "receipt"), (text "msgID", msgId),
    (text "receiptType", receiptType), (text "sender", sender)]
  named : msgId ≠ []
  kind : receiptType = text "received" ∨ receiptType = text "read"
  key : ∃ ds, sender = Utf16.encode ds ∧ ds.length = 64 ∧ ∀ c ∈ ds, (hexValue c).isSome = true

/-- The schema on members of whole characters. -/
structure Conforms (fs : List (List Char × List Char)) (m t s : List Char) : Prop where
  members : fs.Perm [("type".toList, "receipt".toList), ("msgID".toList, m),
    ("receiptType".toList, t), ("sender".toList, s)]
  named : m ≠ []
  kind : t = "received".toList ∨ t = "read".toList
  length : s.length = 64
  digits : ∀ c ∈ s, (hexValue c).isSome = true

theorem memberText_injective : Function.Injective memberText := fun _ _ => memberText_inj

theorem encode_nonempty {m : List Char} : Utf16.encode m ≠ [] ↔ m ≠ [] := by
  rw [not_iff_not]
  constructor
  · intro h
    exact Utf16.encode_inj (h.trans Utf16.encode_nil.symm)
  · rintro rfl
    rfl

theorem receiptObject_iff {fs : List (List Char × List Char)} {m t s : List Char} :
    ReceiptObject (fs.map memberText) (Utf16.encode m) (Utf16.encode t) (Utf16.encode s) ↔
      Conforms fs m t s := by
  have hperm : (fs.map memberText).Perm [(text "type", text "receipt"),
      (text "msgID", Utf16.encode m), (text "receiptType", Utf16.encode t),
      (text "sender", Utf16.encode s)] ↔ fs.Perm [("type".toList, "receipt".toList),
      ("msgID".toList, m), ("receiptType".toList, t), ("sender".toList, s)] := by
    rw [← List.map_perm_map_iff memberText_injective]
    rfl
  constructor
  · intro h
    obtain ⟨ds, hds, hlength, hdigits⟩ := h.key
    obtain rfl := Utf16.encode_inj hds
    exact ⟨hperm.mp h.members, encode_nonempty.mp h.named,
      h.kind.imp Utf16.encode_inj Utf16.encode_inj, hlength, hdigits⟩
  · intro h
    exact ⟨hperm.mpr h.members, encode_nonempty.mpr h.named,
      h.kind.imp (congrArg Utf16.encode) (congrArg Utf16.encode), s, rfl, h.length, h.digits⟩

theorem Conforms.length_eq {fs : List (List Char × List Char)} {m t s : List Char}
    (h : Conforms fs m t s) : fs.length = 4 := h.members.length_eq

theorem Conforms.distinct {fs : List (List Char × List Char)} {m t s : List Char}
    (h : Conforms fs m t s) : Distinct fs := by
  rw [Distinct, (h.members.map Prod.fst).nodup_iff]
  have hkeys : ["type".toList, "msgID".toList, "receiptType".toList, "sender".toList].Nodup := by
    decide
  exact hkeys

/-! ## The check of the fields -/

theorem find_some {fs : List (List Char × List Char)} {key : List Char} {value : Bytes}
    (h : find (fs.map memberBytes) (Utf8.encode key) = some value) :
    ∃ v, (key, v) ∈ fs ∧ value = Utf8.encode v := by
  rw [find, Option.map_eq_some_iff] at h
  obtain ⟨f, hfind, rfl⟩ := h
  obtain ⟨g, hg, rfl⟩ := List.mem_map.mp (List.mem_of_find?_eq_some hfind)
  have hkey := List.find?_some hfind
  rw [decide_eq_true_eq] at hkey
  obtain rfl := Utf8.encode_inj hkey
  exact ⟨g.2, hg, rfl⟩

theorem find_mem {fs : List (List Char × List Char)} (hdistinct : Distinct fs) {key v : List Char}
    (h : (key, v) ∈ fs) : find (fs.map memberBytes) (Utf8.encode key) = some (Utf8.encode v) := by
  cases hfind : find (fs.map memberBytes) (Utf8.encode key) with
  | none =>
    rw [find, Option.map_eq_none_iff, List.find?_eq_none] at hfind
    exact absurd (decide_eq_true rfl) (hfind _ (List.mem_map.mpr ⟨_, h, rfl⟩))
  | some value =>
    obtain ⟨w, hw, rfl⟩ := find_some hfind
    have hsame := List.inj_on_of_nodup_map hdistinct hw h rfl
    rw [(Prod.mk.inj hsame).2]

theorem digits_bytes (s : List Char) :
    (Utf8.encode s).all isXDigit = true ↔ ∀ c ∈ s, (hexValue c).isSome = true := by
  induction s with
  | nil => simp [Utf8.encode_nil]
  | cons c s ih =>
    rw [Utf8.encode_cons, List.all_append, Bool.and_eq_true, ih, List.forall_mem_cons]
    refine and_congr_left fun _ => ?_
    obtain ⟨ts, hts⟩ := utf8EncodeChar_lead c
    constructor
    · intro hall
      rw [hts, List.all_cons, Bool.and_eq_true, isXDigit, hexDigit_lead] at hall
      exact hall.1
    · intro hsome
      obtain ⟨v, hv⟩ := Option.isSome_iff_exists.mp hsome
      rw [utf8EncodeChar_ascii (hexValue_ascii hv), ← lead_ascii (hexValue_ascii hv),
        List.all_cons, isXDigit, hexDigit_lead, hsome]
      rfl

theorem digits_length {s : List Char} (h : ∀ c ∈ s, (hexValue c).isSome = true) :
    (Utf8.encode s).length = s.length := by
  induction s with
  | nil => rfl
  | cons c s ih =>
    rw [List.forall_mem_cons] at h
    obtain ⟨v, hv⟩ := Option.isSome_iff_exists.mp h.1
    rw [Utf8.encode_cons, utf8EncodeChar_ascii (hexValue_ascii hv), List.singleton_append,
      List.length_cons, List.length_cons, ih h.2]

theorem sender_bytes (s : List Char) :
    ((Utf8.encode s).length = 64 ∧ (Utf8.encode s).all isXDigit = true) ↔
      s.length = 64 ∧ ∀ c ∈ s, (hexValue c).isSome = true := by
  rw [digits_bytes]
  constructor
  · intro ⟨hlength, hdigits⟩
    rw [digits_length hdigits] at hlength
    exact ⟨hlength, hdigits⟩
  · intro ⟨hlength, hdigits⟩
    rw [digits_length hdigits]
    exact ⟨hlength, hdigits⟩

/-- The receipt with the strings of its fields. -/
def receiptOf (m t s : List Char) : StrictGroupReceipt :=
  ⟨Utf8.encode m, Utf8.encode t, Utf8.encode s⟩

/-- Four fields with the keys of the schema are all of four fields. -/
theorem perm_of_fields {fs : List (List Char × List Char)} (h4 : fs.length = 4)
    {v m t s : List Char} (hv : ("type".toList, v) ∈ fs) (hm : ("msgID".toList, m) ∈ fs)
    (ht : ("receiptType".toList, t) ∈ fs) (hs : ("sender".toList, s) ∈ fs) :
    fs.Perm [("type".toList, v), ("msgID".toList, m), ("receiptType".toList, t),
      ("sender".toList, s)] := by
  have hkeys : ([("type".toList, v), ("msgID".toList, m), ("receiptType".toList, t),
      ("sender".toList, s)].map Prod.fst).Nodup :=
    (by decide : ["type".toList, "msgID".toList, "receiptType".toList, "sender".toList].Nodup)
  have hsub : [("type".toList, v), ("msgID".toList, m), ("receiptType".toList, t),
      ("sender".toList, s)] ⊆ fs := by
    simp only [List.cons_subset, List.nil_subset, and_true]
    exact ⟨hv, hm, ht, hs⟩
  have hperm := (List.Nodup.of_map Prod.fst hkeys).subperm hsub
  exact (hperm.perm_of_length_le (by rw [h4]; rfl)).symm

theorem checkFields_iff {fs : List (List Char × List Char)} (hdistinct : Distinct fs)
    (h4 : fs.length = 4) (r : StrictGroupReceipt) :
    checkFields (fs.map memberBytes) = .accept r ↔
      ∃ m t s, Conforms fs m t s ∧ r = receiptOf m t s := by
  constructor
  · intro h
    rw [checkFields] at h
    split at h
    · rename_i type msgId receiptType sender htype hmsg hkind hsender
      obtain ⟨v, hv, rfl⟩ := find_some htype
      obtain ⟨m, hm, rfl⟩ := find_some hmsg
      obtain ⟨t, ht, rfl⟩ := find_some hkind
      obtain ⟨s, hs, rfl⟩ := find_some hsender
      split_ifs at h with hok
      obtain ⟨hreceipt, hnamed, hkinds, hkey⟩ := hok
      obtain rfl := Utf8.encode_inj hreceipt
      obtain ⟨hlength, hdigits⟩ := (sender_bytes s).mp hkey
      have hm' : m ≠ [] := by
        rintro rfl
        exact hnamed rfl
      exact ⟨m, t, s, ⟨perm_of_fields h4 hv hm ht hs, hm',
        hkinds.imp Utf8.encode_inj Utf8.encode_inj, hlength, hdigits⟩,
        (Outcome.accept.inj h).symm⟩
    · cases h
  · rintro ⟨m, t, s, hconf, rfl⟩
    have hmem : ∀ f ∈ [("type".toList, "receipt".toList), ("msgID".toList, m),
        ("receiptType".toList, t), ("sender".toList, s)],
        find (fs.map memberBytes) (Utf8.encode f.1) = some (Utf8.encode f.2) :=
      fun f hf => find_mem hdistinct (hconf.members.mem_iff.mpr hf)
    simp only [List.forall_mem_cons] at hmem
    obtain ⟨htype, hmsg, hkind, hsender, -⟩ := hmem
    have hnamed : Utf8.encode m ≠ [] := fun hnil => hconf.named (Utf8.encode_inj hnil)
    rw [checkFields, literal, literal, literal, literal, htype, hmsg, hkind, hsender]
    exact if_pos ⟨rfl, hnamed, hconf.kind.imp (congrArg Utf8.encode) (congrArg Utf8.encode),
      (sender_bytes s).mpr ⟨hconf.length, hconf.digits⟩⟩

theorem checkFields_ends (fields : List (Bytes × Bytes)) :
    (∃ r, checkFields fields = .accept r) ∨ checkFields fields = .reject := by
  rw [checkFields]
  split
  · split_ifs
    · exact Or.inl ⟨_, rfl⟩
    · exact Or.inr rfl
  · exact Or.inr rfl

end Tim2Tox.GroupReceipts
