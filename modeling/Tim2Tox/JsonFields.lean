import Mathlib.Data.List.Forall2
import Tim2Tox.NumberTexts
import Tim2Tox.Utf8

set_option autoImplicit false

/-!
# Flat JSON fields

`BuildJsonObject` guesses what kind of value each text is, and `ParseJsonString` turns every value
back to a text.
-/
namespace Tim2Tox.JsonFields
open NumberTexts

def bytes (s : String) : Bytes := s.toList.map fun c => UInt8.ofNat c.toNat

/-! ## The JSON library -/

/-- A value of the library. Its arrays and objects are left open. -/
inductive Value (Doc : Type) where
  | null
  | boolean (b : Bool)
  | integer (n : ℤ)
  | float (d : Double)
  | string (s : Bytes)
  | nested (doc : Doc)

/-- What is used of nlohmann::json; none where it throws, and no items in an array. -/
structure Nlohmann (Doc : Type) where
  parse : Bytes → Option (Value Doc)
  dump : Value Doc → Option Bytes
  object : List (Bytes × Value Doc) → Doc
  items : Doc → Option (List (Bytes × Value Doc))

/-! ## json_parser.cpp -/

/-- A `std::map` of strings, in the order of its keys. -/
structure Fields where
  entries : List (Bytes × Bytes)
  sorted : (entries.map Prod.fst).Pairwise (· < ·)

def jsonStringFields : List Bytes :=
  ["json_conv_array", "json_msg_array", "json_user_info_array", "json_user_status_array",
    "json_msg_locator_array", "json_user_profile", "json_msg", "json_application_array",
    "json_identifier_array", "json_friend_profile_update_array"].map bytes

instance (key : Bytes) : Decidable (key ∈ jsonStringFields) :=
  decidable_of_iff (jsonStringFields.contains key = true) List.contains_iff_mem

/-- The text begins as an object or an array does. -/
def opens (value : Bytes) : Bool := value.head? = some 123 || value.head? = some 91

section
variable {Doc : Type} (nl : Nlohmann Doc)

def textValue (value : Bytes) : Value Doc :=
  if value = bytes "true" then .boolean true
  else if value = bytes "false" then .boolean false
  else .string value

/-- `j[key]` for one field. -/
def fieldValue (key value : Bytes) : Value Doc :=
  if key ∈ jsonStringFields then .string value
  else if opens value then (nl.parse value).getD (.string value)
  else if 46 ∈ value then
    match stod value with
    | some num => .float num
    | none => textValue value
  else
    match stoll value with
    | some num => .integer num
    | none => textValue value

def built (fields : Fields) : List (Bytes × Value Doc) :=
  fields.entries.map fun entry => (entry.1, fieldValue nl entry.1 entry.2)

def hexDigit (n : ℕ) : UInt8 := if n < 10 then UInt8.ofNat (48 + n) else UInt8.ofNat (87 + n)

def escapeByte (c : UInt8) : Bytes :=
  if c = 34 then bytes "\\\""
  else if c = 92 then bytes "\\\\"
  else if c = 8 then bytes "\\b"
  else if c = 12 then bytes "\\f"
  else if c = 10 then bytes "\\n"
  else if c = 13 then bytes "\\r"
  else if c = 9 then bytes "\\t"
  else if c ≤ 31 then bytes "\\u00" ++ [hexDigit (c.toNat / 16), hexDigit (c.toNat % 16)]
  else [c]

/-- The quotes around a dumped string are removed. -/
def escapeJsonString (str : Bytes) : Bytes :=
  match nl.dump (.string str) with
  | some escaped =>
    if 2 ≤ escaped.length && escaped.head? = some 34 && escaped.getLast? = some 34 then
      (escaped.drop 1).dropLast
    else escaped
  | none => str.flatMap escapeByte

/-- A field as it is written by hand when the library throws. -/
def manualField (key value : Bytes) : Bytes :=
  let isNumber := value.head?.any fun c => isDigit c || c = 45 || c = 43
  let isBool := value = bytes "true" || value = bytes "false"
  let quoted := 34 :: (escapeJsonString nl value ++ [34])
  34 :: (escapeJsonString nl key ++ bytes "\":") ++
    if key ∈ jsonStringFields then quoted
    else if opens value || isNumber || isBool then value
    else quoted

def manualObject (fields : Fields) : Bytes :=
  123 :: ([44].intercalate (fields.entries.map fun entry => manualField nl entry.1 entry.2) ++ [125])

/-- Without a field the value stays null. -/
def buildJsonObject (fields : Fields) : Bytes :=
  match nl.dump (if fields.entries = [] then .null else .nested (nl.object (built nl fields))) with
  | some text => text
  | none => manualObject nl fields

/-- `get<int64_t>`. -/
def toInt64 (n : ℤ) : ℤ := (n + 2 ^ 63) % 2 ^ 64 - 2 ^ 63

def fieldText : Value Doc → Option Bytes
  | .null => some []
  | .boolean b => some (if b then bytes "true" else bytes "false")
  | .integer n => some (decimal (toInt64 n))
  | .float d => some (fixed d)
  | .string s => some s
  | .nested doc => nl.dump (.nested doc)

/-- What is read before the library throws. -/
def flatMap : List (Bytes × Value Doc) → List (Bytes × Bytes)
  | [] => []
  | entry :: rest =>
    match fieldText nl entry.2 with
    | some text => (entry.1, text) :: flatMap rest
    | none => []

def parseJsonString (jsonStr : Bytes) : List (Bytes × Bytes) :=
  if jsonStr = [] then []
  else
    match nl.parse jsonStr with
    | some (.nested doc) => flatMap nl ((nl.items doc).getD [])
    | _ => []

/-! ## What is documented of the library -/

/-- What a dumped value is when it is parsed: there are no infinities in JSON. -/
def Value.dumped : Value Doc → Value Doc
  | .float (.infinite _) => .null
  | .float .nan => .null
  | value => value

/-- What begins as an object or an array is one, and dumped it is parsed as the same. -/
structure Nlohmann.Behaves : Prop where
  nested : ∀ text value, opens text = true → nl.parse text = some value →
    ∃ doc out, value = .nested doc ∧ nl.dump value = some out ∧ nl.parse out = some value
  null : nl.dump .null = some (bytes "null") ∧ nl.parse (bytes "null") = some .null

/-- The object of these entries is dumped and parsed. -/
def Nlohmann.RoundTrips (entries : List (Bytes × Value Doc)) : Prop :=
  ∃ text doc, nl.dump (.nested (nl.object entries)) = some text ∧ text ≠ [] ∧
    nl.parse text = some (.nested doc) ∧
    nl.items doc = some (entries.map fun entry => (entry.1, entry.2.dumped))

def Fields.WellFormed (fields : Fields) : Prop :=
  ∀ entry ∈ fields.entries, Utf8.WellFormed entry.1 ∧ Utf8.WellFormed entry.2

/-! ## What is claimed -/

/-- A text comes back, an object or array perhaps written in another way, a number as an equal one. -/
def Survives (value out : Bytes) : Prop :=
  out = value ∨
    (opens value = true ∧ ∃ doc, nl.parse value = some (.nested doc) ∧ nl.parse out = some (.nested doc)) ∨
    ∃ q, jsonNumber value = some q ∧ jsonNumber out = some q

/-- The result has the same keys, and every text comes back. -/
def AllSurvive (fields : Fields) (result : List (Bytes × Bytes)) : Prop :=
  List.Forall₂ (fun entry out => out.1 = entry.1 ∧ Survives nl entry.2 out.2) fields.entries result

end

/-- When a field comes back: it is always a text, an object or an array, or what the number parser
    reads at its beginning is the number that the whole text is. -/
def Passes (key value : Bytes) : Prop :=
  key ∈ jsonStringFields ∨ opens value = true ∨
    if 46 ∈ value then
      ∀ num, stod value = some num → ∃ negative significand exponent,
        num = .finite negative significand exponent ∧
        jsonNumber value = some (mkRat (signed negative (millionths significand exponent)) (10 ^ 6))
    else ∀ num, stoll value = some num → jsonNumber value = some (mkRat num 1)

/-! ## One field -/

section
variable {Doc : Type} {nl : Nlohmann Doc} {key value : Bytes}

/-- A text that is no object or array survives as itself or as an equal number. -/
theorem survives_number {out : Bytes} {q : ℚ} (hopens : opens value = false)
    (hout : jsonNumber out = some q) : Survives nl value out ↔ jsonNumber value = some q := by
  constructor
  · intro hsurvives
    rcases hsurvives with heq | ⟨hopen, -⟩ | ⟨q', hvalue, hq'⟩
    · rw [← heq]
      exact hout
    · rw [hopens] at hopen
      contradiction
    · rw [hout] at hq'
      rw [hvalue, hq']
  · exact fun hvalue => Or.inr (Or.inr ⟨q, hvalue, hout⟩)

theorem textValue_text : fieldText nl (textValue value : Value Doc).dumped = some value := by
  rw [textValue]
  split_ifs with htrue hfalse
  · rw [htrue]
    rfl
  · rw [hfalse]
    rfl
  · rfl

theorem toInt64_eq {n : ℤ} (hlow : -2 ^ 63 ≤ n) (hhigh : n < 2 ^ 63) : toInt64 n = n := by
  rw [toInt64, Int.emod_eq_of_lt (by omega) (by omega)]
  omega

theorem stoll_range {n : ℤ} (h : stoll value = some n) : -2 ^ 63 ≤ n ∧ n < 2 ^ 63 := by
  rw [stoll] at h
  dsimp only at h
  split_ifs at h with hnone hrange
  cases h
  rw [Bool.and_eq_true, decide_eq_true_eq, decide_eq_true_eq] at hrange
  exact hrange

/-- A text with a point does not come back as nothing. -/
theorem empty_lost (hopens : opens value = false) (hpoint : 46 ∈ value) : ¬ Survives nl value [] := by
  rintro (heq | ⟨hopen, -⟩ | ⟨q, -, hq⟩)
  · rw [← heq] at hpoint
    exact List.not_mem_nil hpoint
  · rw [hopens] at hopen
    contradiction
  · have hnone : jsonNumber [] = none := by decide
    rw [hnone] at hq
    contradiction

/-- What comes back of a field, and when that is as it should be. -/
theorem field_survives (hnl : nl.Behaves) (key value : Bytes) :
    ∃ out, fieldText nl (fieldValue nl key value).dumped = some out ∧
      (Survives nl value out ↔ Passes key value) := by
  have hself : ∀ {passes : Prop}, passes → ∃ out, some value = some out ∧ (Survives nl value out ↔ passes) :=
    fun hpasses => ⟨value, rfl, fun _ => hpasses, fun _ => Or.inl rfl⟩
  rw [fieldValue, Passes]
  by_cases hstring : key ∈ jsonStringFields
  · rw [if_pos hstring]
    exact hself (Or.inl hstring)
  · rw [if_neg hstring]
    cases hopens : opens value with
    | true =>
      rw [if_pos rfl]
      cases hparse : nl.parse value with
      | none => exact hself (Or.inr (Or.inl rfl))
      | some parsed =>
        obtain ⟨doc, out, rfl, hdump, hback⟩ := hnl.nested value parsed hopens hparse
        refine ⟨out, hdump, ?_⟩
        constructor
        · exact fun _ => Or.inr (Or.inl rfl)
        · exact fun _ => Or.inr (Or.inl ⟨hopens, doc, hparse, hback⟩)
    | false =>
      rw [if_neg Bool.false_ne_true]
      have hpasses : ∀ rest : Prop, (key ∈ jsonStringFields ∨ false = true ∨ rest) ↔ rest := by
        intro rest
        simp [hstring]
      rw [hpasses]
      by_cases hpoint : 46 ∈ value
      · rw [if_pos hpoint, if_pos hpoint]
        cases hstod : stod value with
        | none =>
          dsimp only
          rw [textValue_text]
          exact hself fun num hnum => nomatch hnum
        | some num =>
          cases num with
          | finite negative significand exponent =>
            refine ⟨_, rfl, ?_⟩
            rw [survives_number hopens (jsonNumber_fixed negative significand exponent)]
            constructor
            · intro hvalue num hnum
              cases hnum
              exact ⟨negative, significand, exponent, rfl, hvalue⟩
            · intro hall
              obtain ⟨n, s, e, heq, hvalue⟩ := hall _ rfl
              cases heq
              exact hvalue
          | infinite negative =>
            refine ⟨[], rfl, fun hsurvives => absurd hsurvives (empty_lost hopens hpoint), ?_⟩
            intro hall
            obtain ⟨_, _, _, heq, -⟩ := hall _ rfl
            contradiction
          | nan =>
            refine ⟨[], rfl, fun hsurvives => absurd hsurvives (empty_lost hopens hpoint), ?_⟩
            intro hall
            obtain ⟨_, _, _, heq, -⟩ := hall _ rfl
            contradiction
      · rw [if_neg hpoint, if_neg hpoint]
        cases hstoll : stoll value with
        | none =>
          dsimp only
          rw [textValue_text]
          exact hself fun num hnum => nomatch hnum
        | some num =>
          have hrange := stoll_range hstoll
          refine ⟨decimal num, ?_, ?_⟩
          · change some (decimal (toInt64 num)) = _
            rw [toInt64_eq hrange.1 hrange.2]
          · rw [survives_number hopens (jsonNumber_decimal num)]
            constructor
            · intro hvalue num' hnum
              cases hnum
              exact hvalue
            · exact fun hall => hall num rfl

/-- Field by field, what the parser collects. -/
theorem all_survive (hnl : nl.Behaves) (entries : List (Bytes × Bytes)) :
    List.Forall₂ (fun entry out => out.1 = entry.1 ∧ Survives nl entry.2 out.2) entries
        (flatMap nl (entries.map fun entry => (entry.1, (fieldValue nl entry.1 entry.2).dumped))) ↔
      ∀ entry ∈ entries, Passes entry.1 entry.2 := by
  induction entries with
  | nil =>
    constructor
    · exact fun _ entry hentry => absurd hentry List.not_mem_nil
    · exact fun _ => List.Forall₂.nil
  | cons entry entries ih =>
    obtain ⟨out, hout, hiff⟩ := field_survives hnl entry.1 entry.2
    have hcons : flatMap nl ((entry :: entries).map
        fun entry => (entry.1, (fieldValue nl entry.1 entry.2).dumped)) =
          (entry.1, out) :: flatMap nl (entries.map
            fun entry => (entry.1, (fieldValue nl entry.1 entry.2).dumped)) := by
      rw [List.map_cons, flatMap, hout]
    rw [hcons, List.forall₂_cons, ih, List.forall_mem_cons, hiff]
    constructor
    · exact fun hboth => ⟨hboth.1.2, hboth.2⟩
    · exact fun hboth => ⟨⟨rfl, hboth.1⟩, hboth.2⟩

end

/-- Flat JSON fields survive the bridge: exactly when what the number parsers read at the beginning
    of a text, if anything, is the number that the whole text is. -/
theorem fields_survive {Doc : Type} (nl : Nlohmann Doc) (fields : Fields) (hnl : nl.Behaves)
    (hobject : fields.entries ≠ [] → fields.WellFormed → nl.RoundTrips (built nl fields))
    (hfields : fields.WellFormed) :
    AllSurvive nl fields (parseJsonString nl (buildJsonObject nl fields)) ↔
      ∀ entry ∈ fields.entries, Passes entry.1 entry.2 := by
  rw [AllSurvive, ← all_survive hnl, buildJsonObject]
  by_cases hempty : fields.entries = []
  · obtain ⟨hdump, hparse⟩ := hnl.null
    have hresult : parseJsonString nl (bytes "null") = [] := by
      rw [parseJsonString, if_neg (by decide), hparse]
    rw [if_pos hempty, hdump]
    dsimp only
    rw [hresult, hempty]
    rfl
  · obtain ⟨text, doc, hdump, htext, hparse, hitems⟩ := hobject hempty hfields
    have hresult : parseJsonString nl text = flatMap nl (fields.entries.map
        fun entry => (entry.1, (fieldValue nl entry.1 entry.2).dumped)) := by
      rw [parseJsonString, if_neg htext, hparse]
      dsimp only
      rw [hitems, Option.getD_some, built, List.map_map]
      rfl
    rw [if_neg hempty, hdump]
    dsimp only
    rw [hresult]

/-! ## A name that begins with a number -/

/-- The object with the number 42 under `name`. -/
def objectText : Bytes := bytes "\x7b\"name\":42\x7d"

def readOne (text : Bytes) : Option (Value ℤ) :=
  if text = objectText then some (.nested 42) else if text = bytes "null" then some .null else none

/-- The library on objects with one number called `name`. -/
def oneNumber : Nlohmann ℤ where
  parse := readOne
  dump
    | .nested n => some (bytes "\x7b\"name\":" ++ decimal n ++ bytes "\x7d")
    | .null => some (bytes "null")
    | _ => none
  object
    | [(_, .integer n)] => n
    | _ => 0
  items n := some [(bytes "name", .integer n)]

theorem dump_object : oneNumber.dump (.nested 42) = some objectText := by
  decide

theorem readOne_object : readOne objectText = some (.nested 42) := if_pos rfl

theorem readOne_null : readOne (bytes "null") = some .null := by
  rw [readOne, if_neg (by decide), if_pos rfl]

theorem oneNumber_behaves : oneNumber.Behaves where
  nested text value hopens hparse := by
    change readOne text = some value at hparse
    rw [readOne] at hparse
    split_ifs at hparse with htext hnull
    · cases hparse
      exact ⟨42, objectText, rfl, dump_object, readOne_object⟩
    · rw [hnull] at hopens
      exact absurd hopens (by decide)
  null := ⟨rfl, readOne_null⟩

def named (name : String) : Fields where
  entries := [(bytes "name", bytes name)]
  sorted := List.pairwise_singleton _ _

theorem named_roundTrips {name : String} (h : built oneNumber (named name) = [(bytes "name", .integer 42)]) :
    oneNumber.RoundTrips (built oneNumber (named name)) := by
  rw [h]
  exact ⟨objectText, 42, dump_object, by decide, readOne_object, rfl⟩

theorem street_built : built oneNumber (named "42nd street") = [(bytes "name", .integer 42)] := by
  have hstring : bytes "name" ∉ jsonStringFields := by decide
  have hopens : opens (bytes "42nd street") = false := by decide
  have hpoint : 46 ∉ bytes "42nd street" := by decide
  have hstoll : stoll (bytes "42nd street") = some 42 := by decide
  change [(bytes "name", fieldValue oneNumber (bytes "name") (bytes "42nd street"))] = _
  rw [fieldValue, if_neg hstring, hopens, if_neg Bool.false_ne_true, if_neg hpoint, hstoll]

theorem number_built : built oneNumber (named "42") = [(bytes "name", .integer 42)] := by
  have hstring : bytes "name" ∉ jsonStringFields := by decide
  have hopens : opens (bytes "42") = false := by decide
  have hpoint : 46 ∉ bytes "42" := by decide
  have hstoll : stoll (bytes "42") = some 42 := by decide
  change [(bytes "name", fieldValue oneNumber (bytes "name") (bytes "42"))] = _
  rw [fieldValue, if_neg hstring, hopens, if_neg Bool.false_ne_true, if_neg hpoint, hstoll]

theorem named_wellFormed {name : String} (h : bytes name = Utf8.encode name.toList) :
    (named name).WellFormed := by
  have hkey : bytes "name" = Utf8.encode "name".toList := by decide
  intro entry hentry
  rw [List.mem_singleton.mp hentry]
  exact ⟨⟨_, hkey⟩, ⟨name.toList, h⟩⟩

theorem number_survives :
    AllSurvive oneNumber (named "42") (parseJsonString oneNumber (buildJsonObject oneNumber (named "42"))) ↔
      ∀ entry ∈ (named "42").entries, Passes entry.1 entry.2 :=
  fields_survive oneNumber (named "42") oneNumber_behaves (fun _ _ => named_roundTrips number_built)
    (named_wellFormed (by decide))

/-- A street that begins with its number comes back as the number. -/
theorem street_lost : ¬ ∀ (nl : Nlohmann ℤ) (fields : Fields), nl.Behaves →
    (fields.entries ≠ [] → fields.WellFormed → nl.RoundTrips (built nl fields)) → fields.WellFormed →
    AllSurvive nl fields (parseJsonString nl (buildJsonObject nl fields)) := by
  intro hall
  have hsurvive := hall oneNumber (named "42nd street") oneNumber_behaves
    (fun _ _ => named_roundTrips street_built) (named_wellFormed (by decide))
  have htext : buildJsonObject oneNumber (named "42nd street") = objectText := by
    rw [buildJsonObject, street_built]
    exact congrArg (Option.getD · []) dump_object
  have hresult : parseJsonString oneNumber objectText = [(bytes "name", bytes "42")] := by
    have hread : oneNumber.parse objectText = some (.nested 42) := readOne_object
    rw [parseJsonString, if_neg (by decide)]
    simp only [hread]
    decide
  rw [htext, hresult] at hsurvive
  have hfield := (List.forall₂_cons.mp hsurvive).1.2
  rcases hfield with heq | ⟨hopen, -⟩ | ⟨q, hq, -⟩
  · exact absurd heq (by decide)
  · exact absurd hopen (by decide)
  · have hnone : jsonNumber (bytes "42nd street") = none := by decide
    change jsonNumber (bytes "42nd street") = some q at hq
    rw [hnone] at hq
    contradiction

end Tim2Tox.JsonFields
