import Tim2Tox.MergerJson
import Tim2Tox.MarkedMessages

set_option autoImplicit false

/-!
# Decoding merged messages

When `ParseMessageWithMerger` and the extractions give back what was merged.
-/
namespace Tim2Tox.MergerMessages
open TextSearch StorageNames

/-! ## Marks -/

theorem prefix_escape {mark : Bytes} (hmark : Clean mark) (controls : Bool) (text : Bytes) :
    mark <+: escape controls text ↔ mark <+: text := by
  induction mark generalizing text with
  | nil => simp
  | cons m mark ih =>
    have hm := hmark m List.mem_cons_self
    have hrest : Clean mark := fun c hc => hmark c (List.mem_cons_of_mem _ hc)
    cases text with
    | nil => rw [escape_nil]
    | cons c text =>
      rw [escape_cons]
      rcases escapeByte_cases controls c with ⟨hplain, _⟩ | ⟨e, hescape, _, _, hspecial⟩
      · rw [hplain, List.singleton_append, List.cons_prefix_cons, List.cons_prefix_cons, ih hrest]
      · rw [hescape]
        constructor
        · intro h
          rw [(List.cons_prefix_cons.mp h).1] at hm
          exact absurd (by decide) hm
        · intro h
          rw [(List.cons_prefix_cons.mp h).1] at hm
          exact absurd hspecial hm

theorem end_other {c : UInt8} (h : c ≠ openBracket) (text : Bytes) :
    mergerEndMarker <:+: c :: text ↔ mergerEndMarker <:+: text := by
  have hhere : ¬ mergerEndMarker <+: c :: text := by
    intro hstart
    have hmark : mergerEndMarker = openBracket :: mergerEndMarker.tail := by decide
    rw [hmark] at hstart
    exact h (List.cons_prefix_cons.mp hstart).1.symm
  rw [List.infix_cons_iff]
  exact or_iff_right hhere

theorem end_escape (controls : Bool) (text : Bytes) :
    mergerEndMarker <:+: escape controls text ↔ mergerEndMarker <:+: text := by
  induction text with
  | nil => rw [escape_nil]
  | cons c text ih =>
    have hstart : mergerEndMarker <+: escape controls (c :: text) ↔ mergerEndMarker <+: c :: text :=
      prefix_escape (by decide +kernel) controls (c :: text)
    rw [escape_cons] at hstart ⊢
    rcases escapeByte_cases controls c with ⟨hplain, _⟩ | ⟨e, hescape, hback, _, hspecial⟩
    · rw [hplain, List.singleton_append] at hstart ⊢
      rw [List.infix_cons_iff, List.infix_cons_iff, hstart, ih]
    · have he : e ≠ openBracket := by
        intro heq
        have hnone : unescapeByte openBracket = none := by decide
        rw [heq, hnone] at hback
        cases hback
      have hc : c ≠ openBracket := by
        intro heq
        rw [heq] at hspecial
        exact absurd hspecial (by decide)
      rw [hescape]
      change mergerEndMarker <:+: backslash :: e :: escape controls text ↔ _
      rw [end_other (by decide), end_other he, end_other hc, ih]

theorem end_string (controls : Bool) (text rest : Bytes) :
    mergerEndMarker <:+: quote :: (escape controls text ++ quote :: rest) ↔
      mergerEndMarker <:+: text ∨ mergerEndMarker <:+: rest := by
  rw [end_other (by decide), infix_split (by decide) (by decide), end_escape]

theorem end_name {name : Bytes} (h : ¬ mergerEndMarker <:+: name) (rest : Bytes) :
    mergerEndMarker <:+: quote :: (name ++ quote :: rest) ↔ mergerEndMarker <:+: rest := by
  rw [end_other (by decide), infix_split (by decide) (by decide)]
  exact or_iff_right h

theorem end_quotedList (controls : Bool) (texts : List Bytes) (rest : Bytes) :
    mergerEndMarker <:+: quotedList controls texts ++ rest ↔
      (∃ text ∈ texts, mergerEndMarker <:+: cString text) ∨ mergerEndMarker <:+: rest := by
  induction texts with
  | nil => simp [quotedList]
  | cons text texts ih =>
    rw [quotedList_cons, List.cons_append, List.append_assoc, List.cons_append, end_string]
    simp only [List.mem_cons, exists_eq_or_imp, or_assoc]
    apply or_congr_right
    by_cases hlast : texts = []
    · rw [if_pos hlast, hlast]
      simp
    · rw [if_neg hlast, List.cons_append, end_other (by decide), ih]

theorem end_bracket (controls : Bool) (texts : List Bytes) (rest : Bytes) :
    mergerEndMarker <:+: openBracket :: (quotedList controls texts ++ closeBracket :: rest) ↔
      mergerEndMarker <:+: quotedList controls texts ++ closeBracket :: rest := by
  have hmark : mergerEndMarker = openBracket :: 77 :: mergerEndMarker.tail.tail := by decide
  have hhere : ¬ mergerEndMarker <+: openBracket :: (quotedList controls texts ++ closeBracket :: rest) := by
    intro hstart
    rw [hmark] at hstart
    have htail := (List.cons_prefix_cons.mp hstart).2
    cases texts with
    | nil => exact absurd (List.cons_prefix_cons.mp htail).1 (by decide)
    | cons text texts =>
      rw [quotedList_cons] at htail
      exact absurd (List.cons_prefix_cons.mp htail).1 (by decide)
  rw [List.infix_cons_iff]
  exact or_iff_right hhere

theorem end_in_json (messageIDs : List Bytes) (title : Bytes) (abstractList : List Bytes) :
    mergerEndMarker <:+: mergerStartMarker ++ buildMergerJson messageIDs title abstractList ↔
      mergerEndMarker <:+: cString title ∨
        (∃ text ∈ abstractList, mergerEndMarker <:+: cString text) ∨
        ∃ text ∈ messageIDs, mergerEndMarker <:+: cString text := by
  have hlast : ¬ mergerEndMarker <:+: [closeBracket, closeBrace] := by decide
  rw [buildMergerJson_eq, infix_split (by decide) (by decide),
    or_iff_right (by decide), end_name (by decide), end_other (by decide), end_string,
    end_other (by decide), abstractPart, end_name (by decide), end_other (by decide),
    end_bracket, end_quotedList, end_other (by decide), end_other (by decide), idsPart,
    end_name (by decide), end_other (by decide), end_bracket, end_quotedList]
  simp only [hlast, or_false]

/-! ## Messages -/

section
variable (mergerJson text : Bytes)

theorem mergerEndMarker_eq : mergerEndMarker = openBracket :: mergerEndMarker.tail := by
  decide

theorem message_eq : buildMessageWithMerger mergerJson text =
    marked mergerStartMarker (openBracket :: mergerEndMarker.tail) mergerJson text := by
  rw [← mergerEndMarker_eq]
  simp [buildMessageWithMerger, marked]

theorem parsed_at_mark (h : ¬ mergerEndMarker <:+: mergerStartMarker ++ mergerJson) :
    parseMessageWithMerger (buildMessageWithMerger mergerJson text) =
      ⟨true, mergerJson, text.dropWhile isLineEnd⟩ := by
  rw [parseMessageWithMerger, message_eq, mergerEndMarker_eq]
  rw [mergerEndMarker_eq] at h
  exact parseBetween_marked (by decide) (by decide) h

/-- A mark inside of what is merged ends the message early, and the rest comes out as text. -/
theorem parsed_early (h : mergerEndMarker <:+: mergerStartMarker ++ mergerJson)
    (hmarks : (parseMessageWithMerger (buildMessageWithMerger mergerJson text)).hasMarks = true) :
    (parseMessageWithMerger (buildMessageWithMerger mergerJson text)).text ≠ text := by
  rw [mergerEndMarker_eq] at h
  rw [parseMessageWithMerger, message_eq, mergerEndMarker_eq] at hmarks ⊢
  exact parseBetween_early (by decide) h hmarks

end

/-! ## Zero bytes -/

theorem zero_escape {controls : Bool} {text : Bytes} (h : 0 ∉ text) : 0 ∉ escape controls text := by
  induction text with
  | nil => exact List.not_mem_nil
  | cons c text ih =>
    rw [List.mem_cons, not_or] at h
    rw [escape_cons, List.mem_append, not_or]
    refine ⟨?_, ih h.2⟩
    rcases escapeByte_cases controls c with ⟨hplain, _⟩ | ⟨e, hescape, hback, _⟩
    · rw [hplain, List.mem_singleton]
      exact h.1
    · rw [hescape]
      intro hmem
      simp only [List.mem_cons, List.not_mem_nil, or_false] at hmem
      cases hmem with
      | inl hslash => exact absurd hslash (by decide)
      | inr he =>
        have hnone : unescapeByte 0 = none := by decide
        rw [← he, hnone] at hback
        cases hback

theorem zero_quotedList (controls : Bool) {rest : Bytes} (h : 0 ∉ rest) (texts : List Bytes) :
    0 ∉ quotedList controls texts ++ rest := by
  induction texts with
  | nil => exact h
  | cons text texts ih =>
    have htext : 0 ∉ escape controls (cString text) := zero_escape (zero_cString text)
    have hquote : (0 : UInt8) ≠ quote := by decide
    have hcomma : (0 : UInt8) ≠ comma := by decide
    rw [quotedList_cons]
    by_cases hlast : texts = []
    · rw [if_pos hlast]
      simp only [List.cons_append, List.append_assoc, List.mem_cons, List.mem_append, List.nil_append]
      simp [htext, hquote, h]
    · rw [if_neg hlast]
      simp only [List.cons_append, List.append_assoc, List.mem_cons, List.mem_append] at ih ⊢
      simp [htext, hquote, hcomma] at ih ⊢
      exact ih

theorem zero_json (messageIDs : List Bytes) (title : Bytes) (abstractList : List Bytes) :
    0 ∉ buildMergerJson messageIDs title abstractList := by
  have hids : 0 ∉ idsPart messageIDs := by
    have hname : 0 ∉ quote :: (idsKey ++ [quote, colon, openBracket]) := by decide
    have hend : 0 ∉ [closeBracket, closeBrace] := by decide
    have hlist := zero_quotedList false hend messageIDs
    intro h
    have hmem : 0 ∈ (quote :: (idsKey ++ [quote, colon, openBracket])) ++
        (quotedList false messageIDs ++ [closeBracket, closeBrace]) := by
      simpa [idsPart] using h
    exact (List.mem_append.mp hmem).elim hname hlist
  have habstracts : 0 ∉ abstractPart messageIDs abstractList := by
    have hname : 0 ∉ quote :: (abstractKey ++ [quote, colon, openBracket]) := by decide
    have hrest : 0 ∉ closeBracket :: comma :: idsPart messageIDs := by
      rw [List.mem_cons, List.mem_cons, not_or, not_or]
      exact ⟨by decide, by decide, hids⟩
    have hlist := zero_quotedList true hrest abstractList
    intro h
    have hmem : 0 ∈ (quote :: (abstractKey ++ [quote, colon, openBracket])) ++
        (quotedList true abstractList ++ closeBracket :: comma :: idsPart messageIDs) := by
      simpa [abstractPart] using h
    exact (List.mem_append.mp hmem).elim hname hlist
  have hfront : 0 ∉ openBrace :: quote :: (titleKey ++ [quote, colon, quote]) := by decide
  have htitle : 0 ∉ escape true (cString title) := zero_escape (zero_cString title)
  intro h
  have hmem : 0 ∈ (openBrace :: quote :: (titleKey ++ [quote, colon, quote])) ++
      (escape true (cString title) ++ ([quote, comma] ++ abstractPart messageIDs abstractList)) := by
    rw [buildMergerJson_eq] at h
    simpa using h
  rcases List.mem_append.mp hmem with hmem | hmem
  · exact hfront hmem
  · rcases List.mem_append.mp hmem with hmem | hmem
    · exact htitle hmem
    · exact (List.mem_append.mp hmem).elim (by decide) habstracts

theorem unescapeByte_ne_zero {c plain : UInt8} (h : unescapeByte c = some plain) : 0 ≠ plain := by
  unfold unescapeByte at h
  split_ifs at h <;> rw [← Option.some.inj h] <;> decide

theorem zero_unescape {text : Bytes} (h : 0 ∉ text) : 0 ∉ unescape text := by
  fun_induction unescape text with
  | case1 => exact h
  | case2 c => exact h
  | case3 d text plain hplain ih =>
    rw [List.mem_cons, List.mem_cons, not_or, not_or] at h
    rw [List.mem_cons, not_or]
    exact ⟨unescapeByte_ne_zero hplain, ih h.2.2⟩
  | case4 d text hnone ih =>
    rw [List.mem_cons, not_or] at h ⊢
    exact ⟨h.1, ih h.2⟩
  | case5 c d text hslash ih =>
    rw [List.mem_cons, not_or] at h ⊢
    exact ⟨h.1, ih h.2⟩

theorem zero_scanString {escaped : Bool} {text value rest : Bytes}
    (h : scanString escaped text = some (value, rest)) (hzero : 0 ∉ text) :
    0 ∉ value ∧ 0 ∉ rest := by
  induction text generalizing escaped value with
  | nil => cases escaped <;> cases h
  | cons c text ih =>
    rw [List.mem_cons, not_or] at hzero
    have hlater : ∀ escaped, (scanString escaped text).map (fun found => (c :: found.1, found.2)) =
        some (value, rest) → 0 ∉ value ∧ 0 ∉ rest := by
      intro escaped hmap
      obtain ⟨found, hfound, heq⟩ := Option.map_eq_some_iff.mp hmap
      obtain ⟨rfl, rfl⟩ := Prod.mk.inj heq
      obtain ⟨hvalue, hrest⟩ := ih hfound hzero.2
      rw [List.mem_cons, not_or]
      exact ⟨⟨hzero.1, hvalue⟩, hrest⟩
    cases escaped with
    | true => exact hlater false h
    | false =>
      rw [scanString] at h
      split_ifs at h with hslash hquote
      · exact hlater true h
      · obtain ⟨rfl, rfl⟩ := Prod.mk.inj (Option.some.inj h)
        exact ⟨List.not_mem_nil, hzero.2⟩
      · exact hlater false h

theorem zero_skipComma {text : Bytes} (h : 0 ∉ text) : 0 ∉ skipComma text := by
  cases text with
  | nil => exact h
  | cons c text =>
    rw [skipComma]
    split_ifs
    · exact fun hmem => h (List.mem_cons_of_mem _ hmem)
    · exact h

theorem zero_dropWhile {text : Bytes} (h : 0 ∉ text) (p : UInt8 → Bool) : 0 ∉ text.dropWhile p :=
  fun hmem => h ((List.dropWhile_sublist p).subset hmem)

theorem zero_arrayElements (turns : ℕ) {text : Bytes} (h : 0 ∉ text) :
    ∀ element ∈ arrayElements turns text, 0 ∉ element := by
  induction turns generalizing text with
  | zero => exact fun element hmem => absurd hmem List.not_mem_nil
  | succ turns ih =>
    intro element hmem
    rw [arrayElements] at hmem
    split_ifs at hmem with hclose
    · cases hmem
    · have hrest := zero_dropWhile h fun c => isBlank c || isLineEnd c
      generalize text.dropWhile (fun c => isBlank c || isLineEnd c) = rest at hmem hrest
      cases rest with
      | nil => cases hmem
      | cons c rest =>
        dsimp only at hmem
        split_ifs at hmem with hend hquote
        · cases hmem
        · cases hscan : scanString false rest with
          | none =>
            rw [hscan] at hmem
            cases hmem
          | some found =>
            obtain ⟨hvalue, hbehind⟩ := zero_scanString hscan
              fun hzero => hrest (List.mem_cons_of_mem _ hzero)
            rw [hscan] at hmem
            cases List.mem_cons.mp hmem with
            | inl heq =>
              rw [heq]
              exact zero_unescape hvalue
            | inr hmem => exact ih (zero_skipComma hbehind) element hmem
        · exact ih (zero_skipComma (zero_dropWhile hrest _)) element hmem

theorem zero_afterKey {json key text : Bytes} (h : afterKey json key = some text) (hzero : 0 ∉ json) :
    0 ∉ text := by
  unfold afterKey at h
  split at h
  · cases h
  · split at h
    · cases h
    · rw [← Option.some.inj h]
      exact zero_dropWhile (fun hmem => hzero (List.mem_of_mem_drop hmem)) _

theorem zero_extracted {json : Bytes} (hzero : 0 ∉ json) (key : Bytes) :
    ∀ element ∈ extractJsonArray json key, 0 ∉ element := by
  intro element hmem
  unfold extractJsonArray at hmem
  cases hafter : afterKey json key with
  | none =>
    rw [hafter] at hmem
    cases hmem
  | some text =>
    have htext := zero_afterKey hafter hzero
    rw [hafter] at hmem
    cases text with
    | nil => cases hmem
    | cons c text =>
      dsimp only at hmem
      split_ifs at hmem with hopen
      · exact zero_arrayElements _ (fun hz => htext (List.mem_cons_of_mem _ hz)) element hmem
      · cases hmem

/-! ## What a merged message decodes to -/

def Decodes (messageIDs : List Bytes) (title : Bytes) (abstractList : List Bytes) (text : Bytes) :
    Prop :=
  let parsed := parseMessageWithMerger
    (buildMessageWithMerger (buildMergerJson messageIDs title abstractList) text)
  parsed.hasMarks = true ∧ extractTitle parsed.json = title ∧
    extractAbstractList parsed.json = abstractList ∧ extractMessageIDs parsed.json = messageIDs ∧
    parsed.text = text

instance (messageIDs : List Bytes) (title : Bytes) (abstractList : List Bytes) (text : Bytes) :
    Decidable (Decodes messageIDs title abstractList text) := by
  unfold Decodes
  infer_instance

/-- Text that neither ends at a zero byte nor ends the merged part. -/
structure Kept (text : Bytes) : Prop where
  zero : 0 ∉ text
  mark : ¬ mergerEndMarker <:+: text

structure Survives (messageIDs : List Bytes) (title : Bytes) (abstractList : List Bytes)
    (text : Bytes) : Prop where
  title_kept : Kept title
  title_clean : Clean title
  abstracts_kept : ∀ abstract ∈ abstractList, Kept abstract
  ids_kept : ∀ messageID ∈ messageIDs, Kept messageID
  /-- Line ends in front of the text are taken for the one that was put there. -/
  text_start : ∀ c ∈ text.head?, isLineEnd c = false
  /-- In such a title the reader finds the key of the ids, and behind it the abstracts. -/
  title_key : title = idsKey → abstractList = messageIDs

section
variable {messageIDs : List Bytes} {title : Bytes} {abstractList : List Bytes} {text : Bytes}

theorem map_cString_eq_iff (texts : List Bytes) :
    texts.map cString = texts ↔ ∀ text ∈ texts, 0 ∉ text := by
  induction texts with
  | nil => simp
  | cons text texts ih =>
    rw [List.map_cons, List.cons_eq_cons, cString_eq_iff, ih, List.forall_mem_cons]

theorem title_kept_iff (title : Bytes) :
    (escape true (cString title)).takeWhile (fun c => c != quote) = title ↔
      0 ∉ title ∧ Clean title := by
  constructor
  · intro h
    have hzero : 0 ∉ title := by
      intro hmem
      rw [← h] at hmem
      exact zero_escape (zero_cString title) ((List.takeWhile_sublist _).subset hmem)
    rw [(cString_eq_iff title).mpr hzero, title_read_iff] at h
    exact ⟨hzero, h⟩
  · intro h
    rw [(cString_eq_iff title).mpr h.1, title_read_iff]
    exact h.2

theorem decodes_iff (h : ¬ mergerEndMarker <:+:
      mergerStartMarker ++ buildMergerJson messageIDs title abstractList) :
    Decodes messageIDs title abstractList text ↔
      (0 ∉ title ∧ Clean title) ∧ (∀ abstract ∈ abstractList, 0 ∉ abstract) ∧
        extractMessageIDs (buildMergerJson messageIDs title abstractList) = messageIDs ∧
        ∀ c ∈ text.head?, isLineEnd c = false := by
  unfold Decodes
  rw [parsed_at_mark _ _ h]
  dsimp only
  rw [title_extracted, abstracts_extracted, title_kept_iff, map_cString_eq_iff, text_kept_iff]
  exact and_iff_right rfl

theorem json_marks (hmarks : ∀ text, text = title ∨ text ∈ abstractList ∨ text ∈ messageIDs →
      0 ∉ text ∧ ¬ mergerEndMarker <:+: text) :
    ¬ mergerEndMarker <:+: mergerStartMarker ++ buildMergerJson messageIDs title abstractList := by
  have hfree : ∀ text, text = title ∨ text ∈ abstractList ∨ text ∈ messageIDs →
      ¬ mergerEndMarker <:+: cString text := by
    intro text htext
    rw [(cString_eq_iff text).mpr (hmarks text htext).1]
    exact (hmarks text htext).2
  rw [end_in_json]
  intro h
  rcases h with h | ⟨text, htext, h⟩ | ⟨text, htext, h⟩
  · exact hfree title (.inl rfl) h
  · exact hfree text (.inr (.inl htext)) h
  · exact hfree text (.inr (.inr htext)) h

theorem decodes_of_survives (hkey : title = idsKey ∨ KeyFree idsKey abstractList)
    (h : Survives messageIDs title abstractList text) :
    Decodes messageIDs title abstractList text := by
  have htitle : cString title = title := (cString_eq_iff title).mpr h.title_kept.zero
  have habstracts : abstractList.map cString = abstractList :=
    (map_cString_eq_iff abstractList).mpr fun abstract hmem => (h.abstracts_kept abstract hmem).zero
  have hids : messageIDs.map cString = messageIDs :=
    (map_cString_eq_iff messageIDs).mpr fun messageID hmem => (h.ids_kept messageID hmem).zero
  have hmarks : ¬ mergerEndMarker <:+:
      mergerStartMarker ++ buildMergerJson messageIDs title abstractList := by
    apply json_marks
    intro text htext
    rcases htext with rfl | htext | htext
    · exact ⟨h.title_kept.zero, h.title_kept.mark⟩
    · exact ⟨(h.abstracts_kept text htext).zero, (h.abstracts_kept text htext).mark⟩
    · exact ⟨(h.ids_kept text htext).zero, (h.ids_kept text htext).mark⟩
  rw [decodes_iff hmarks]
  refine ⟨⟨h.title_kept.zero, h.title_clean⟩, fun abstract hmem => (h.abstracts_kept abstract hmem).zero,
    ?_, h.text_start⟩
  by_cases hname : title = idsKey
  · rw [title_taken_for_ids _ _ _ (htitle.trans hname), habstracts]
    exact h.title_key hname
  · have hlike : ¬ KeyLike idsKey (cString title) := by
      rw [htitle, KeyLike, List.suffix_cons_iff]
      intro hcases
      rcases hcases with heq | ⟨before, heq⟩
      · exact hname (List.cons_eq_cons.mp heq).2.symm
      · apply h.title_clean quote _ (by decide)
        rw [← heq]
        exact List.mem_append_right _ List.mem_cons_self
    have hfree : KeyFree idsKey (abstractList.map cString) := by
      rw [habstracts]
      exact hkey.resolve_left hname
    rw [ids_extracted _ _ _ hlike hfree, hids]

theorem survives_of_decodes (h : Decodes messageIDs title abstractList text) :
    Survives messageIDs title abstractList text := by
  have hmarks : ¬ mergerEndMarker <:+:
      mergerStartMarker ++ buildMergerJson messageIDs title abstractList :=
    fun hmark => parsed_early _ _ hmark h.1 h.2.2.2.2
  obtain ⟨⟨hzero, hclean⟩, habstracts, hids, htext⟩ := (decodes_iff hmarks).mp h
  have hidsZero : ∀ messageID ∈ messageIDs, 0 ∉ messageID := by
    rw [ids_key_written] at hids
    have hextracted := zero_extracted (zero_json messageIDs title abstractList) idsKey
    rw [hids] at hextracted
    exact hextracted
  rw [end_in_json, not_or, not_or] at hmarks
  obtain ⟨htitleMark, habstractMarks, hidMarks⟩ := hmarks
  have htitle : cString title = title := (cString_eq_iff title).mpr hzero
  constructor
  case title_kept => exact ⟨hzero, by rw [htitle] at htitleMark; exact htitleMark⟩
  case title_clean => exact hclean
  case abstracts_kept =>
    intro abstract hmem
    refine ⟨habstracts abstract hmem, fun hmark => habstractMarks ⟨abstract, hmem, ?_⟩⟩
    rw [(cString_eq_iff abstract).mpr (habstracts abstract hmem)]
    exact hmark
  case ids_kept =>
    intro messageID hmem
    refine ⟨hidsZero messageID hmem, fun hmark => hidMarks ⟨messageID, hmem, ?_⟩⟩
    rw [(cString_eq_iff messageID).mpr (hidsZero messageID hmem)]
    exact hmark
  case text_start => exact htext
  case title_key =>
    intro hname
    rw [title_taken_for_ids _ _ _ (htitle.trans hname),
      (map_cString_eq_iff abstractList).mpr habstracts] at hids
    exact hids

end

end Tim2Tox.MergerMessages
