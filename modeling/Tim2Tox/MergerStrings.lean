import Tim2Tox.MergerMessages

set_option autoImplicit false

/-!
# Strings and keys of merged messages

What the readers find in strings that `BuildMergerJson` has escaped.
-/
namespace Tim2Tox.MergerMessages
open TextSearch StorageNames

/-! ## Escapes -/

theorem escapeByte_cases (controls : Bool) (c : UInt8) :
    (escapeByte controls c = [c] ∧ c ≠ quote ∧ c ≠ backslash) ∨
      ∃ e, escapeByte controls c = [backslash, e] ∧ unescapeByte e = some c ∧
        (e = quote ↔ c = quote) ∧ c ∈ [quote, backslash, newline, carriageReturn, tab] := by
  unfold escapeByte
  split_ifs with hquote hbackslash hnewline hreturn htab
  · exact .inr ⟨quote, rfl, by subst hquote; decide, by simp [hquote], by simp [hquote]⟩
  · exact .inr ⟨backslash, rfl, by subst hbackslash; decide, by subst hbackslash; decide,
      by simp [hbackslash]⟩
  · rw [Bool.and_eq_true, beq_iff_eq] at hnewline
    obtain ⟨hcontrols, rfl⟩ := hnewline
    exact .inr ⟨110, by decide, by decide, by decide, by decide⟩
  · rw [Bool.and_eq_true, beq_iff_eq] at hreturn
    obtain ⟨hcontrols, rfl⟩ := hreturn
    exact .inr ⟨114, by decide, by decide, by decide, by decide⟩
  · rw [Bool.and_eq_true, beq_iff_eq] at htab
    obtain ⟨hcontrols, rfl⟩ := htab
    exact .inr ⟨116, by decide, by decide, by decide, by decide⟩
  · exact .inl ⟨rfl, hquote, hbackslash⟩

theorem escape_nil (controls : Bool) : escape controls [] = [] := rfl

theorem escape_cons (controls : Bool) (c : UInt8) (text : Bytes) :
    escape controls (c :: text) = escapeByte controls c ++ escape controls text := rfl

theorem unescape_plain {c : UInt8} (h : c ≠ backslash) (text : Bytes) :
    unescape (c :: text) = c :: unescape text := by
  cases text with
  | nil => rfl
  | cons d text => rw [unescape, if_neg h]

theorem unescape_escape (controls : Bool) (text : Bytes) :
    unescape (escape controls text) = text := by
  induction text with
  | nil => rfl
  | cons c text ih =>
    rw [escape_cons]
    rcases escapeByte_cases controls c with ⟨hplain, hquote, hbackslash⟩ | ⟨e, hescape, hback, _⟩
    · rw [hplain, List.singleton_append, unescape_plain hbackslash, ih]
    · rw [hescape]
      change unescape (backslash :: e :: escape controls text) = _
      rw [unescape, if_pos rfl, hback, ih]

theorem scanString_escape (controls : Bool) (text rest : Bytes) :
    scanString false (escape controls text ++ quote :: rest) = some (escape controls text, rest) := by
  induction text with
  | nil =>
    change scanString false (quote :: rest) = some ([], rest)
    rw [scanString, if_neg (by decide), if_pos rfl]
  | cons c text ih =>
    rw [escape_cons]
    rcases escapeByte_cases controls c with ⟨hplain, hquote, hbackslash⟩ | ⟨e, hescape, _⟩
    · rw [hplain, List.singleton_append, List.cons_append, scanString, if_neg hbackslash,
        if_neg hquote, ih]
      rfl
    · rw [hescape]
      change scanString false (backslash :: e :: (escape controls text ++ quote :: rest)) = _
      rw [scanString, if_pos rfl, scanString, ih]
      rfl

/-! ## Lists -/

theorem quotedList_cons (controls : Bool) (text : Bytes) (texts : List Bytes) :
    quotedList controls (text :: texts) =
      quote :: (escape controls (cString text) ++
        quote :: if texts = [] then [] else comma :: quotedList controls texts) := by
  cases texts with
  | nil => simp [quotedList, List.intercalate]
  | cons next texts =>
    rw [if_neg (List.cons_ne_nil _ _)]
    simp [quotedList, List.intercalate]

theorem arrayElements_quotedList (controls : Bool) (rest : Bytes) (texts : List Bytes) :
    ∀ turns, texts.length < turns →
      arrayElements turns (quotedList controls texts ++ closeBracket :: rest) =
        texts.map cString := by
  induction texts with
  | nil =>
    intro turns hturns
    cases turns with
    | zero => cases hturns
    | succ turns =>
      change arrayElements (turns + 1) (closeBracket :: rest) = []
      rw [arrayElements, List.head?_cons, if_pos rfl]
  | cons text texts ih =>
    intro turns hturns
    cases turns with
    | zero => cases hturns
    | succ turns =>
      have hrest := ih turns (Nat.lt_of_succ_lt_succ hturns)
      have hhead : ¬ (quotedList controls (text :: texts) ++ closeBracket :: rest).head? =
          some closeBracket := by
        rw [quotedList_cons, List.cons_append, List.head?_cons]
        exact fun h => absurd (Option.some.inj h) (by decide)
      rw [arrayElements, if_neg hhead, quotedList_cons]
      rw [List.cons_append, List.dropWhile_cons_of_neg (by decide)]
      dsimp only
      rw [if_neg (by decide), if_pos rfl, List.append_assoc, List.cons_append, scanString_escape]
      dsimp only
      rw [unescape_escape, List.map_cons]
      congr 1
      by_cases hlast : texts = []
      · rw [if_pos hlast]
        rw [hlast] at hrest ⊢
        exact hrest
      · rw [if_neg hlast]
        exact hrest

/-! ## Keys -/

/-- What is behind the first separator. -/
def behind (separator : UInt8) : Bytes → Option Bytes
  | [] => none
  | c :: text => if c = separator then some text else behind separator text

theorem find_separator (separator : UInt8) (text : Bytes) :
    behind separator text = (find [separator] text).map fun n => text.drop (n + 1) := by
  induction text with
  | nil => rfl
  | cons c text ih =>
    by_cases hc : c = separator
    · have hhere : [separator] <+: c :: text := by
        rw [hc]
        exact List.prefix_append [separator] text
      rw [behind, if_pos hc, find_here hhere]
      rfl
    · have hhere : ¬ [separator] <+: c :: text :=
        fun h => hc (List.cons_prefix_cons.mp h).1.symm
      rw [behind, if_neg hc, ih, find_skip hhere, Option.map_map]
      rfl

theorem behind_append {separator : UInt8} {before : Bytes} (h : separator ∉ before) (text : Bytes) :
    behind separator (before ++ text) = behind separator text := by
  induction before with
  | nil => rfl
  | cons c before ih =>
    rw [List.mem_cons, not_or] at h
    rw [List.cons_append, behind, if_neg (Ne.symm h.1), ih h.2]

/-- What is behind the colon after the first place of the key. -/
def behindKey (pattern json : Bytes) : Option Bytes :=
  (find pattern json).bind fun keyPos => behind colon (json.drop keyPos)

theorem afterKey_eq (json key : Bytes) :
    afterKey json key = (behindKey (quoted key) json).map fun text => text.dropWhile isBlank := by
  unfold afterKey behindKey
  cases find (quoted key) json with
  | none => rfl
  | some keyPos =>
    rw [Option.bind_some, find_separator]
    dsimp only [findFrom]
    cases find [colon] (json.drop keyPos) with
    | none => rfl
    | some n =>
      have hplace : n + keyPos + 1 = keyPos + (n + 1) := by omega
      simp only [Option.map_some, List.drop_drop, hplace]

theorem behindKey_here {pattern json : Bytes} (h : pattern <+: json) :
    behindKey pattern json = behind colon json := by
  rw [behindKey, find_here h]
  rfl

theorem behindKey_skip {pattern json : Bytes} {c : UInt8} (h : ¬ pattern <+: c :: json) :
    behindKey pattern (c :: json) = behindKey pattern json := by
  rw [behindKey, find_skip h, Option.bind_map]
  rfl

theorem behindKey_other {key json : Bytes} {c : UInt8} (h : c ≠ quote) :
    behindKey (quoted key) (c :: json) = behindKey (quoted key) json :=
  behindKey_skip fun hstart => h (List.cons_prefix_cons.mp hstart).1.symm

/-- Text that is written as it is. -/
def Clean (text : Bytes) : Prop :=
  ∀ c ∈ text, c ∉ [quote, backslash, newline, carriageReturn, tab]

instance (text : Bytes) : Decidable (Clean text) := List.decidableBAll _ text

/-- A text that closes what reads like the key. -/
def KeyLike (key text : Bytes) : Prop := quote :: key <:+ quote :: text

instance (key text : Bytes) : Decidable (KeyLike key text) := by
  unfold KeyLike
  infer_instance

theorem key_at_quote {key : Bytes} (hkey : Clean key) (controls : Bool) (text rest : Bytes) :
    key ++ [quote] <+: escape controls text ++ quote :: rest ↔ text = key := by
  induction key generalizing text with
  | nil =>
    cases text with
    | nil => simp [escape_nil]
    | cons c text =>
      rw [escape_cons]
      rcases escapeByte_cases controls c with ⟨hplain, hquote, hbackslash⟩ | ⟨e, hescape, _⟩
      · rw [hplain]
        simp [Ne.symm hquote]
      · rw [hescape]
        simp [quote, backslash]
  | cons k key ih =>
    have hk := hkey k List.mem_cons_self
    have hrest : Clean key := fun c hc => hkey c (List.mem_cons_of_mem _ hc)
    cases text with
    | nil =>
      simp only [List.mem_cons, not_or] at hk
      simp [escape_nil, hk.1]
    | cons c text =>
      rw [escape_cons]
      rcases escapeByte_cases controls c with ⟨hplain, hquote, hbackslash⟩ |
        ⟨e, hescape, hback, hiff, hspecial⟩
      · rw [hplain, List.cons_append, List.append_assoc, List.singleton_append,
          List.cons_prefix_cons, ih hrest, List.cons_eq_cons]
        constructor
        · exact fun h => ⟨h.1.symm, h.2⟩
        · exact fun h => ⟨h.1.symm, h.2⟩
      · rw [hescape]
        constructor
        · intro h
          have hhead := (List.cons_prefix_cons.mp h).1
          simp only [List.mem_cons, not_or] at hk
          exact absurd hhead hk.2.1
        · intro h
          obtain ⟨rfl, rfl⟩ := List.cons_eq_cons.mp h
          exact absurd hspecial hk

theorem escape_clean {text : Bytes} (h : Clean text) (controls : Bool) :
    escape controls text = text := by
  induction text with
  | nil => rfl
  | cons c text ih =>
    rw [escape_cons, ih fun d hd => h d (List.mem_cons_of_mem _ hd)]
    rcases escapeByte_cases controls c with ⟨hplain, _⟩ | ⟨e, _, _, _, hspecial⟩
    · rw [hplain]
      rfl
    · exact absurd hspecial (h c List.mem_cons_self)

theorem suffix_cons_other {pattern text : Bytes} {b c : UInt8} (h : c ≠ b) :
    b :: pattern <:+ c :: text ↔ b :: pattern <:+ text := by
  rw [List.suffix_cons_iff]
  constructor
  · intro hcases
    cases hcases with
    | inl heq => exact absurd (List.cons_eq_cons.mp heq).1.symm h
    | inr hlater => exact hlater
  · exact .inr

/-- The key is found in a string that closes it, and else behind the string. -/
theorem behindKey_escape {key : Bytes} (hkey : Clean key) (hcolon : colon ∉ key) (controls : Bool)
    (text rest : Bytes) (hrest : ¬ key ++ [quote] <+: rest) :
    behindKey (quoted key) (escape controls text ++ quote :: rest) =
      if quote :: key <:+ text then behind colon rest else behindKey (quoted key) rest := by
  have hquoted : colon ∉ quoted key := by
    simp only [quoted, List.cons_append, List.mem_cons, List.mem_append, List.not_mem_nil, or_false, not_or]
    exact ⟨by decide, hcolon, by decide⟩
  induction text with
  | nil =>
    have hhere : ¬ quoted key <+: quote :: rest :=
      fun h => hrest (List.cons_prefix_cons.mp h).2
    rw [escape_nil, List.nil_append, behindKey_skip hhere, if_neg (by simp)]
  | cons c text ih =>
    rw [escape_cons]
    rcases escapeByte_cases controls c with ⟨hplain, hquote, hbackslash⟩ |
      ⟨e, hescape, hback, hiff, hspecial⟩
    · rw [hplain, List.append_assoc, List.singleton_append, behindKey_other hquote, ih]
      simp only [suffix_cons_other hquote]
    · rw [hescape]
      change behindKey (quoted key) (backslash :: e :: (escape controls text ++ quote :: rest)) = _
      rw [behindKey_other (by decide)]
      by_cases hc : c = quote
      · rw [hiff.mpr hc, hc]
        by_cases htext : text = key
        · have hwhole : quote :: (escape controls text ++ quote :: rest) =
              quoted key ++ rest := by
            rw [htext, escape_clean hkey]
            simp [quoted]
          rw [hwhole, behindKey_here (List.prefix_append (quoted key) rest), behind_append hquoted, htext,
            if_pos (List.suffix_refl _)]
        · have hhere : ¬ quoted key <+: quote :: (escape controls text ++ quote :: rest) := by
            intro h
            exact htext ((key_at_quote hkey controls text rest).mp (List.cons_prefix_cons.mp h).2)
          have hsuffix : quote :: key <:+ quote :: text ↔ quote :: key <:+ text := by
            rw [List.suffix_cons_iff, List.cons_eq_cons]
            constructor
            · intro hcases
              cases hcases with
              | inl heq => exact absurd heq.2.symm htext
              | inr hlater => exact hlater
            · exact .inr
          rw [behindKey_skip hhere, ih]
          simp only [hsuffix]
      · rw [behindKey_other fun he => hc (hiff.mp he), ih]
        simp only [suffix_cons_other hc]

/-- The same for a string with both of its quotes. -/
theorem behindKey_string {key : Bytes} (hkey : Clean key) (hcolon : colon ∉ key) (controls : Bool)
    (text rest : Bytes) (hrest : ¬ key ++ [quote] <+: rest) :
    behindKey (quoted key) (quote :: (escape controls text ++ quote :: rest)) =
      if KeyLike key text then behind colon rest else behindKey (quoted key) rest := by
  have hquote : quote ∉ key := fun h => hkey quote h (by decide)
  have hwritten := behindKey_escape hkey hcolon controls (quote :: text) rest hrest
  have hescape : escape controls (quote :: text) = backslash :: quote :: escape controls text := rfl
  rw [hescape, List.cons_append, behindKey_other (by decide)] at hwritten
  exact hwritten

theorem behindKey_plain {key name : Bytes} (hkey : Clean key) (hcolon : colon ∉ key)
    (hname : Clean name) (rest : Bytes) (hrest : ¬ key ++ [quote] <+: rest) :
    behindKey (quoted key) (quote :: (name ++ quote :: rest)) =
      if KeyLike key name then behind colon rest else behindKey (quoted key) rest := by
  have hwritten := behindKey_string hkey hcolon true name rest hrest
  rw [escape_clean hname] at hwritten
  exact hwritten

end Tim2Tox.MergerMessages
