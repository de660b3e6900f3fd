import Tim2Tox.MergerStrings

set_option autoImplicit false

/-!
# The JSON of merged messages

What the extractions find in what `BuildMergerJson` has written.
-/
namespace Tim2Tox.MergerMessages
open TextSearch StorageNames

/-! ## The keys of a merged message -/

def titleKey : Bytes := ascii "title"
def abstractKey : Bytes := ascii "abstractList"
def idsKey : Bytes := ascii "messageIDList"

def idsPart (messageIDs : List Bytes) : Bytes :=
  quote :: (idsKey ++ quote :: colon :: openBracket ::
    (quotedList false messageIDs ++ [closeBracket, closeBrace]))

def abstractPart (messageIDs abstractList : List Bytes) : Bytes :=
  quote :: (abstractKey ++ quote :: colon :: openBracket ::
    (quotedList true abstractList ++ closeBracket :: comma :: idsPart messageIDs))

theorem buildMergerJson_eq (messageIDs : List Bytes) (title : Bytes) (abstractList : List Bytes) :
    buildMergerJson messageIDs title abstractList =
      openBrace :: quote :: (titleKey ++ quote :: colon :: quote ::
        (escape true (cString title) ++ quote :: comma :: abstractPart messageIDs abstractList)) := by
  have htitle : ascii "\"title\":\"" = quote :: titleKey ++ [quote, colon, quote] := by decide
  have hcomma : ascii "\"," = [quote, comma] := by decide
  have habstract : ascii "\"abstractList\":[" = quote :: abstractKey ++ [quote, colon, openBracket] := by
    decide
  have hbracket : ascii "]," = [closeBracket, comma] := by decide
  have hids : ascii "\"messageIDList\":[" = quote :: idsKey ++ [quote, colon, openBracket] := by
    decide
  have hend : ascii "]" = [closeBracket] := by decide
  rw [buildMergerJson, htitle, hcomma, habstract, hbracket, hids, hend, abstractPart,
    idsPart]
  simp only [List.append_assoc, List.cons_append, List.nil_append]

theorem behind_other {c : UInt8} (h : c ≠ colon) (text : Bytes) :
    behind colon (c :: text) = behind colon text := by
  rw [behind, if_neg h]

theorem key_written (key rest : Bytes) : quoted key <+: quote :: (key ++ quote :: rest) := by
  have hwritten : quote :: (key ++ quote :: rest) = quoted key ++ rest := by simp [quoted]
  rw [hwritten]
  exact List.prefix_append _ _

theorem keyLike_self (key : Bytes) : KeyLike key key := List.suffix_refl _

theorem behind_name {name : Bytes} (h : colon ∉ name) (rest : Bytes) :
    behind colon (quote :: (name ++ quote :: colon :: rest)) = some rest := by
  rw [behind_other (by decide), behind_append h, behind_other (by decide), behind, if_pos rfl]

theorem not_key_start {key rest : Bytes} {c : UInt8} (h : key.head? ≠ some c) (hc : c ≠ quote) :
    ¬ key ++ [quote] <+: c :: rest := by
  intro hstart
  cases key with
  | nil => exact hc (List.cons_prefix_cons.mp hstart).1.symm
  | cons k key =>
    rw [(List.cons_prefix_cons.mp hstart).1] at h
    exact h rfl

theorem head_ne {key : Bytes} {c : UInt8} (h : c ∉ key) : key.head? ≠ some c :=
  fun hhead => h (List.mem_of_head? hhead)

/-- The keys are written as they are, and no character that stands around them is in one. -/
theorem keys_plain : ∀ key ∈ [titleKey, abstractKey, idsKey],
    Clean key ∧ colon ∉ key ∧ comma ∉ key ∧ closeBracket ∉ key := by decide +kernel

theorem keys_apart : ¬ KeyLike abstractKey titleKey ∧ ¬ KeyLike idsKey titleKey ∧
    ¬ KeyLike idsKey abstractKey := by decide +kernel

theorem titleKey_plain :
    Clean titleKey ∧ colon ∉ titleKey ∧ comma ∉ titleKey ∧ closeBracket ∉ titleKey :=
  keys_plain titleKey List.mem_cons_self

theorem abstractKey_plain :
    Clean abstractKey ∧ colon ∉ abstractKey ∧ comma ∉ abstractKey ∧ closeBracket ∉ abstractKey :=
  keys_plain abstractKey (List.mem_cons_of_mem _ List.mem_cons_self)

theorem idsKey_plain :
    Clean idsKey ∧ colon ∉ idsKey ∧ comma ∉ idsKey ∧ closeBracket ∉ idsKey :=
  keys_plain idsKey (List.mem_cons_of_mem _ (List.mem_cons_of_mem _ List.mem_cons_self))

section
variable (messageIDs : List Bytes) (title : Bytes) (abstractList : List Bytes)

theorem title_found :
    afterKey (buildMergerJson messageIDs title abstractList) titleKey =
      some (quote :: (escape true (cString title) ++
        quote :: comma :: abstractPart messageIDs abstractList)) := by
  rw [afterKey_eq, buildMergerJson_eq, behindKey_other (by decide),
    behindKey_plain titleKey_plain.1 titleKey_plain.2.1 titleKey_plain.1 _
      (fun h => absurd (List.cons_prefix_cons.mp h).1 (by decide)),
    if_pos (keyLike_self _)]
  rfl

/-- Both keys of lists are looked for in the title first. -/
theorem list_key_passes_title {key : Bytes} (hkey : Clean key) (hcolon : colon ∉ key)
    (hcomma : key.head? ≠ some comma) (htitle : ¬ KeyLike key titleKey) :
    behindKey (quoted key) (buildMergerJson messageIDs title abstractList) =
      if KeyLike key (cString title) then
        some (openBracket ::
          (quotedList true abstractList ++ closeBracket :: comma :: idsPart messageIDs))
      else behindKey (quoted key) (abstractPart messageIDs abstractList) := by
  have hhead := head_ne hcolon
  have hpart : behind colon (abstractPart messageIDs abstractList) = some (openBracket ::
      (quotedList true abstractList ++ closeBracket :: comma :: idsPart messageIDs)) :=
    behind_name abstractKey_plain.2.1 _
  rw [buildMergerJson_eq, behindKey_other (by decide),
    behindKey_plain hkey hcolon titleKey_plain.1 _ (not_key_start hhead (by decide)),
    if_neg htitle, behindKey_other (by decide),
    behindKey_string hkey hcolon _ _ _ (not_key_start hcomma (by decide)),
    behindKey_other (by decide), behind_other (by decide), hpart]

theorem abstracts_found :
    afterKey (buildMergerJson messageIDs title abstractList) abstractKey =
      some (openBracket ::
        (quotedList true abstractList ++ closeBracket :: comma :: idsPart messageIDs)) := by
  rw [afterKey_eq, list_key_passes_title _ _ _ abstractKey_plain.1 abstractKey_plain.2.1
    (head_ne abstractKey_plain.2.2.1) keys_apart.1, abstractPart, behindKey_here (key_written _ _),
    behind_name abstractKey_plain.2.1, ite_self]
  rfl

theorem ids_found_in_title (h : cString title = idsKey) :
    afterKey (buildMergerJson messageIDs title abstractList) idsKey =
      some (openBracket ::
        (quotedList true abstractList ++ closeBracket :: comma :: idsPart messageIDs)) := by
  rw [afterKey_eq, list_key_passes_title _ _ _ idsKey_plain.1 idsKey_plain.2.1
    (head_ne idsKey_plain.2.2.1) keys_apart.2.1, h, if_pos (keyLike_self _)]
  rfl

/-- No string that closes what reads like the key is followed by one with a colon. -/
def KeyFree (key : Bytes) (texts : List Bytes) : Prop :=
  texts.Pairwise fun text later => KeyLike key text → colon ∉ later

instance (key : Bytes) (texts : List Bytes) : Decidable (KeyFree key texts) := by
  unfold KeyFree
  infer_instance

theorem colon_escape {controls : Bool} {text : Bytes} (h : colon ∉ text) :
    colon ∉ escape controls text := by
  induction text with
  | nil => exact List.not_mem_nil
  | cons c text ih =>
    rw [List.mem_cons, not_or] at h
    rw [escape_cons, List.mem_append, not_or]
    refine ⟨?_, ih h.2⟩
    rcases escapeByte_cases controls c with ⟨hplain, _⟩ | ⟨e, hescape, hback, _⟩
    · rw [hplain, List.mem_singleton]
      exact h.1
    · rw [hescape]
      intro hmem
      simp only [List.mem_cons, List.not_mem_nil, or_false] at hmem
      cases hmem with
      | inl hslash => exact absurd hslash (by decide)
      | inr he =>
        have hcolon : unescapeByte colon = none := by decide
        rw [← he, hcolon] at hback
        cases hback

theorem behind_quotedList {controls : Bool} {texts : List Bytes} (h : ∀ text ∈ texts, colon ∉ cString text)
    (rest : Bytes) :
    behind colon (quotedList controls texts ++ rest) = behind colon rest := by
  induction texts with
  | nil => rfl
  | cons text texts ih =>
    have htext : colon ∉ escape controls (cString text) := colon_escape (h text List.mem_cons_self)
    have hrest := ih fun later hlater => h later (List.mem_cons_of_mem _ hlater)
    rw [quotedList_cons, List.cons_append, behind_other (by decide), List.append_assoc,
      behind_append htext, List.cons_append, behind_other (by decide)]
    by_cases hlast : texts = []
    · rw [if_pos hlast]
      rfl
    · rw [if_neg hlast, List.cons_append, behind_other (by decide), hrest]

theorem behindKey_quotedList {texts : List Bytes} (h : KeyFree idsKey (texts.map cString)) :
    behindKey (quoted idsKey) (quotedList true texts ++ closeBracket :: comma :: idsPart messageIDs) =
      some (openBracket :: (quotedList false messageIDs ++ [closeBracket, closeBrace])) := by
  have hids : behind colon (closeBracket :: comma :: idsPart messageIDs) =
      some (openBracket :: (quotedList false messageIDs ++ [closeBracket, closeBrace])) := by
    rw [behind_other (by decide), behind_other (by decide), idsPart, behind_name idsKey_plain.2.1]
  induction texts with
  | nil =>
    change behindKey (quoted idsKey) (closeBracket :: comma :: idsPart messageIDs) = _
    rw [behindKey_other (by decide), behindKey_other (by decide), idsPart,
      behindKey_here (key_written _ _), behind_name idsKey_plain.2.1]
  | cons text texts ih =>
    rw [List.map_cons, KeyFree, List.pairwise_cons] at h
    have hlater : ∀ hlike : KeyLike idsKey (cString text),
        behind colon (quotedList true texts ++ closeBracket :: comma :: idsPart messageIDs) =
          some (openBracket :: (quotedList false messageIDs ++ [closeBracket, closeBrace])) := by
      intro hlike
      rw [behind_quotedList, hids]
      intro later hmem
      exact h.1 _ (List.mem_map_of_mem hmem) hlike
    rw [quotedList_cons, List.cons_append, List.append_assoc, List.cons_append]
    by_cases hlast : texts = []
    · rw [hlast] at ih hlater
      rw [if_pos hlast, List.nil_append, behindKey_string idsKey_plain.1 idsKey_plain.2.1 _ _ _
        (not_key_start (head_ne idsKey_plain.2.2.2) (by decide))]
      split_ifs with hlike
      · exact hlater hlike
      · exact ih List.Pairwise.nil
    · rw [if_neg hlast, List.cons_append, behindKey_string idsKey_plain.1 idsKey_plain.2.1 _ _ _
        (not_key_start (head_ne idsKey_plain.2.2.1) (by decide))]
      split_ifs with hlike
      · rw [behind_other (by decide)]
        exact hlater hlike
      · rw [behindKey_other (by decide)]
        exact ih h.2

theorem ids_found (htitle : ¬ KeyLike idsKey (cString title))
    (h : KeyFree idsKey (abstractList.map cString)) :
    afterKey (buildMergerJson messageIDs title abstractList) idsKey =
      some (openBracket :: (quotedList false messageIDs ++ [closeBracket, closeBrace])) := by
  rw [afterKey_eq, list_key_passes_title _ _ _ idsKey_plain.1 idsKey_plain.2.1
    (head_ne idsKey_plain.2.2.1) keys_apart.2.1, if_neg htitle, abstractPart,
    behindKey_plain idsKey_plain.1 idsKey_plain.2.1 abstractKey_plain.1 _
      (not_key_start (head_ne idsKey_plain.2.1) (by decide)),
    if_neg keys_apart.2.2,
    behindKey_other (by decide), behindKey_other (by decide), behindKey_quotedList _ h]
  rfl

end

/-! ## What the readers find -/

theorem find_quote (text : Bytes) (h : quote ∈ text) :
    ∃ n, find [quote] text = some n ∧ text.take n = text.takeWhile fun c => c != quote := by
  induction text with
  | nil => cases h
  | cons c text ih =>
    by_cases hc : c = quote
    · have hhere : [quote] <+: c :: text := by
        rw [hc]
        exact List.prefix_append [quote] text
      refine ⟨0, find_here hhere, ?_⟩
      rw [List.takeWhile_cons_of_neg (by simp [hc]), List.take_zero]
    · have hskip : ¬ [quote] <+: c :: text :=
        fun hstart => hc (List.cons_prefix_cons.mp hstart).1.symm
      obtain ⟨n, hfind, htake⟩ := ih ((List.mem_cons.mp h).resolve_left (Ne.symm hc))
      refine ⟨n + 1, ?_, ?_⟩
      · rw [find_skip hskip, hfind]
        rfl
      · rw [List.takeWhile_cons_of_pos (by simp [hc]), List.take_succ_cons, htake]

theorem takeWhile_quote (text rest : Bytes) :
    (text ++ quote :: rest).takeWhile (fun c => c != quote) =
      text.takeWhile fun c => c != quote := by
  induction text with
  | nil => rfl
  | cons c text ih =>
    rw [List.cons_append, List.takeWhile_cons, List.takeWhile_cons, ih]

section
variable (messageIDs : List Bytes) (title : Bytes) (abstractList : List Bytes)

theorem title_extracted :
    extractTitle (buildMergerJson messageIDs title abstractList) =
      (escape true (cString title)).takeWhile fun c => c != quote := by
  have hfound := title_found messageIDs title abstractList
  obtain ⟨n, hfind, htake⟩ := find_quote (escape true (cString title) ++
    quote :: comma :: abstractPart messageIDs abstractList)
    (List.mem_append_right _ List.mem_cons_self)
  rw [takeWhile_quote] at htake
  unfold extractTitle extractJsonValue
  change afterKey _ (ascii "title") = _ at hfound
  rw [hfound]
  dsimp only
  rw [if_pos rfl, hfind]
  exact htake

theorem length_le_quotedList (controls : Bool) (texts : List Bytes) :
    texts.length ≤ (quotedList controls texts).length := by
  induction texts with
  | nil => exact Nat.zero_le _
  | cons text texts ih =>
    rw [quotedList_cons]
    by_cases hlast : texts = []
    · rw [hlast]
      simp
    · rw [if_neg hlast]
      simp only [List.length_cons, List.length_append]
      omega

theorem arrayElements_written (controls : Bool) (texts : List Bytes) (rest : Bytes) :
    arrayElements ((quotedList controls texts ++ closeBracket :: rest).length + 1)
        (quotedList controls texts ++ closeBracket :: rest) = texts.map cString := by
  apply arrayElements_quotedList
  have hlength := length_le_quotedList controls texts
  rw [List.length_append]
  omega

theorem abstracts_extracted :
    extractAbstractList (buildMergerJson messageIDs title abstractList) =
      abstractList.map cString := by
  have hfound := abstracts_found messageIDs title abstractList
  change afterKey _ (ascii "abstractList") = _ at hfound
  unfold extractAbstractList extractJsonArray
  rw [hfound]
  dsimp only
  rw [if_pos rfl]
  exact arrayElements_written true abstractList _

theorem ids_key_written :
    extractMessageIDs (buildMergerJson messageIDs title abstractList) =
      extractJsonArray (buildMergerJson messageIDs title abstractList) idsKey := by
  have hpart : idsKey <:+: idsPart messageIDs := ⟨[quote], _, rfl⟩
  have habstracts : idsPart messageIDs <:+ abstractPart messageIDs abstractList :=
    ⟨quote :: (abstractKey ++ quote :: colon :: openBracket ::
      (quotedList true abstractList ++ [closeBracket, comma])), by simp [abstractPart]⟩
  have hjson : abstractPart messageIDs abstractList <:+
      buildMergerJson messageIDs title abstractList :=
    ⟨openBrace :: quote :: (titleKey ++ quote :: colon :: quote ::
      (escape true (cString title) ++ [quote, comma])), by simp [buildMergerJson_eq]⟩
  have hkey : find idsKey (buildMergerJson messageIDs title abstractList) ≠ none := by
    rw [Ne, find_eq_none, not_not]
    exact hpart.trans (habstracts.trans hjson).isInfix
  exact if_pos hkey

theorem ids_extracted (htitle : ¬ KeyLike idsKey (cString title))
    (h : KeyFree idsKey (abstractList.map cString)) :
    extractMessageIDs (buildMergerJson messageIDs title abstractList) = messageIDs.map cString := by
  rw [ids_key_written, extractJsonArray, ids_found messageIDs title abstractList htitle h]
  dsimp only
  rw [if_pos rfl]
  exact arrayElements_written false messageIDs _

theorem title_taken_for_ids (htitle : cString title = idsKey) :
    extractMessageIDs (buildMergerJson messageIDs title abstractList) =
      abstractList.map cString := by
  rw [ids_key_written, extractJsonArray, ids_found_in_title messageIDs title abstractList htitle]
  dsimp only
  rw [if_pos rfl]
  exact arrayElements_written true abstractList _

end

/-! ## Titles -/

theorem length_le_escape (controls : Bool) (text : Bytes) :
    text.length ≤ (escape controls text).length := by
  induction text with
  | nil => exact Nat.zero_le _
  | cons c text ih =>
    rw [escape_cons, List.length_append, List.length_cons]
    rcases escapeByte_cases controls c with ⟨hplain, _⟩ | ⟨e, hescape, _⟩
    · rw [hplain, List.length_singleton]
      omega
    · rw [hescape, List.length_cons]
      omega

theorem escapeByte_plain {c : UInt8} (h : escapeByte true c = [c]) :
    c ∉ [quote, backslash, newline, carriageReturn, tab] := by
  intro hmem
  simp only [List.mem_cons, List.not_mem_nil, or_false] at hmem
  rcases hmem with rfl | rfl | rfl | rfl | rfl <;> revert h <;> decide

theorem clean_of_escape {text : Bytes} (h : escape true text = text) : Clean text := by
  induction text with
  | nil => exact fun c hc => absurd hc List.not_mem_nil
  | cons c text ih =>
    rw [escape_cons] at h
    rcases escapeByte_cases true c with ⟨hplain, _⟩ | ⟨e, hescape, _⟩
    · rw [hplain, List.singleton_append, List.cons_eq_cons] at h
      intro d hd
      cases List.mem_cons.mp hd with
      | inl heq =>
        rw [heq]
        exact escapeByte_plain hplain
      | inr hd => exact ih h.2 d hd
    · have hlength := congrArg List.length h
      rw [hescape, List.length_append, List.length_cons, List.length_cons, List.length_cons] at hlength
      have := length_le_escape true text
      omega

theorem quote_escape {controls : Bool} {text : Bytes} (h : quote ∉ text) :
    quote ∉ escape controls text := by
  induction text with
  | nil => exact List.not_mem_nil
  | cons c text ih =>
    rw [List.mem_cons, not_or] at h
    rw [escape_cons, List.mem_append, not_or]
    refine ⟨?_, ih h.2⟩
    rcases escapeByte_cases controls c with ⟨hplain, _⟩ | ⟨e, hescape, hback, hiff, _⟩
    · rw [hplain, List.mem_singleton]
      exact h.1
    · rw [hescape]
      intro hmem
      simp only [List.mem_cons, List.not_mem_nil, or_false] at hmem
      cases hmem with
      | inl hslash => exact absurd hslash (by decide)
      | inr he => exact h.1 (hiff.mp he.symm).symm

/-- The reader of the title does not undo the escapes: only a title without any is read back. -/
theorem title_read_iff (text : Bytes) :
    (escape true text).takeWhile (fun c => c != quote) = text ↔ Clean text := by
  constructor
  · intro h
    have hquote : quote ∉ text := by
      intro hmem
      rw [← h] at hmem
      have := List.mem_takeWhile_imp hmem
      exact absurd this (by decide)
    have hall : (escape true text).takeWhile (fun c => c != quote) = escape true text := by
      rw [List.takeWhile_eq_self_iff]
      intro c hc
      rw [bne_iff_ne]
      intro heq
      rw [heq] at hc
      exact quote_escape hquote hc
    rw [hall] at h
    exact clean_of_escape h
  · intro h
    rw [escape_clean h, List.takeWhile_eq_self_iff]
    intro c hc
    rw [bne_iff_ne]
    intro heq
    rw [heq] at hc
    exact h quote hc (by decide)

end Tim2Tox.MergerMessages
