import Tim2Tox.ReceiptText

set_option autoImplicit false

/-!
# White space, escapes and strings

Each piece of the scanner ends where the grammar does, with the bytes of the characters the text
stands for, or turns the text down because the grammar has no reading of it.
-/
namespace Tim2Tox.GroupReceipts

open Json

/-- The position stands before the text. -/
def At (data : Bytes) (i : ℕ) (cs : List Char) : Prop := Left data i (Utf8.encode cs)

variable {data : Bytes} {i : ℕ} {c : Char} {cs : List Char}

theorem At.read (h : At data i (c :: cs)) : read data i = .accept (lead c) := by
  obtain ⟨ts, hts⟩ := utf8EncodeChar_lead c
  rw [At, Utf8.encode_cons, hts, List.cons_append] at h
  exact h.read

theorem At.next (h : At data i (c :: cs)) :
    At data (i + (String.utf8EncodeChar c).length) cs := by
  rw [At, Utf8.encode_cons] at h
  exact h.append

theorem At.step (h : At data i (c :: cs)) (hc : c.toNat < 0x80) : At data (i + 1) cs := by
  have hnext := h.next
  rwa [utf8EncodeChar_ascii hc] at hnext

theorem At.lt (h : At data i (c :: cs)) : i < data.length := by
  have hlength := Left.length h
  have hpos := (Utf8.unit_utf8EncodeChar c).length_pos
  rw [Utf8.encode_cons, List.length_append] at hlength
  omega

theorem At.end_eq (h : At data i []) : i = data.length := (Left.length h).symm

theorem At.le (h : At data i cs) : i ≤ data.length := h.1

theorem At.room (h : At data i cs) : i + cs.length ≤ data.length := by
  induction cs generalizing i with
  | nil => exact h.le
  | cons c cs ih =>
    have hpos := (Utf8.unit_utf8EncodeChar c).length_pos
    have hnext := ih h.next
    rw [List.length_cons]
    omega

/-! ## White space -/

theorem isWs_ascii (h : isWs c = true) : c.toNat < 0x80 := by
  simp only [isWs, Bool.or_eq_true, decide_eq_true_eq] at h
  rcases h with ((rfl | rfl) | rfl) | rfl <;> decide

theorem skipWs_spec (fuel : ℕ) (h : At data i cs) (hfuel : data.length < i + fuel) :
    ∃ j rest, skipWs data fuel i = .accept j ∧ At data j rest ∧ Ws cs rest ∧ NoWs rest := by
  induction fuel generalizing i cs with
  | zero =>
    have hle := h.le
    omega
  | succ fuel ih =>
    rw [skipWs]
    cases cs with
    | nil =>
      have hend := h.end_eq
      exact ⟨i, [], if_neg (by omega), h, .done _, noWs_nil⟩
    | cons c cs =>
      rw [if_pos h.lt, h.read, bind_accept, isSpace_lead]
      by_cases hspace : isWs c = true
      · obtain ⟨j, rest, hrun, hat, hws, hno⟩ := ih (h.step (isWs_ascii hspace)) (by omega)
        exact ⟨j, rest, by rw [if_pos hspace, hrun], hat, .skip hspace hws, hno⟩
      · exact ⟨i, c :: cs, if_neg hspace, h, .done _, noWs_cons (by simpa using hspace)⟩

/-! ## Hexadecimal numbers -/

theorem hexValue_lt {v : ℕ} (h : hexValue c = some v) : v < 16 := by
  rw [← hexDigit_lead] at h
  exact forall_byte (P := fun b => ∀ v, hexDigit b = some v → v < 16)
    (by
      have hall : ∀ n < 256, (hexDigit (UInt8.ofNat n)).all (· < 16) = true := by decide +kernel
      intro n hn v hv
      have hn' := hall n hn
      rw [hv] at hn'
      exact of_decide_eq_true hn') (lead c) v h

theorem hexValue_ascii {v : ℕ} (h : hexValue c = some v) : c.toNat < 0x80 := by
  by_contra hc
  have hbyte : ∀ b : UInt8, 0x80 ≤ b.toNat → hexDigit b = none :=
    forall_byte (P := fun b => 0x80 ≤ b.toNat → hexDigit b = none) (by decide +kernel)
  rw [← hexDigit_lead, hbyte _ (lead_high hc)] at h
  cases h

/-- The number of a run of digits behind `value`. -/
def hexFold (value : ℕ) : List Char → Option ℕ
  | [] => some value
  | d :: ds => (hexValue d).bind fun v => hexFold (value * 16 + v) ds

theorem hexFold_quad (a b c d : Char) : hexFold 0 [a, b, c, d] = hexQuad a b c d := by
  rw [hexQuad, hexFold]
  congr 1
  funext w
  rw [hexFold, Nat.zero_mul, Nat.zero_add]
  congr 1
  funext x
  rw [hexFold]
  congr 1
  funext y
  rw [hexFold]
  exact (Option.map_eq_bind).symm

theorem hexFold_lt {ds : List Char} {value n : ℕ} (h : hexFold value ds = some n) :
    n < (value + 1) * 16 ^ ds.length := by
  induction ds generalizing value with
  | nil =>
    obtain rfl := Option.some.inj h
    simp
  | cons d ds ih =>
    rw [hexFold, Option.bind_eq_some_iff] at h
    obtain ⟨v, hv, hrest⟩ := h
    have hv16 := hexValue_lt hv
    calc n < (value * 16 + v + 1) * 16 ^ ds.length := ih hrest
      _ ≤ ((value + 1) * 16) * 16 ^ ds.length := Nat.mul_le_mul_right _ (by omega)
      _ = (value + 1) * 16 ^ (ds.length + 1) := by rw [Nat.pow_succ, Nat.mul_assoc, Nat.mul_comm 16]

theorem hexLoop_spec (k : ℕ) {value : ℕ} (h : At data i cs) (hk : i + k ≤ data.length) :
    (∃ ds rest n, cs = ds ++ rest ∧ ds.length = k ∧ hexFold value ds = some n ∧
        hexLoop data k i value = .accept n ∧ At data (i + k) rest) ∨
      (hexLoop data k i value = .reject ∧
        ∀ ds rest, cs = ds ++ rest → ds.length = k → hexFold value ds = none) := by
  induction k generalizing i cs value with
  | zero => exact Or.inl ⟨[], cs, value, rfl, rfl, rfl, rfl, h⟩
  | succ k ih =>
    rw [hexLoop]
    cases cs with
    | nil =>
      have hend := h.end_eq
      omega
    | cons c cs =>
      rw [h.read, bind_accept, hexDigit_lead]
      cases hv : hexValue c with
      | none =>
        refine Or.inr ⟨rfl, ?_⟩
        intro ds rest heq hlength
        cases ds with
        | nil => cases hlength
        | cons d ds =>
          rw [List.cons_append, List.cons.injEq] at heq
          rw [hexFold, ← heq.1, hv]
          rfl
      | some v =>
        have hv16 : v < 2 ^ 4 := hexValue_lt hv
        dsimp only
        rw [shift_or hv16]
        rcases @ih _ _ (value * 16 + v) (h.step (hexValue_ascii hv)) (by omega) with
          ⟨ds, rest, n, rfl, rfl, hfold, hrun, hat⟩ | ⟨hrun, hno⟩
        · refine Or.inl ⟨c :: ds, rest, n, rfl, rfl, ?_, hrun, ?_⟩
          · rw [hexFold, hv]
            exact hfold
          · rwa [Nat.add_assoc, Nat.add_comm 1] at hat
        · refine Or.inr ⟨hrun, ?_⟩
          intro ds rest heq hlength
          cases ds with
          | nil => cases hlength
          | cons d ds =>
            rw [List.cons_append, List.cons.injEq] at heq
            rw [hexFold, ← heq.1, hv]
            exact hno ds rest heq.2 (Nat.succ.inj hlength)

theorem parseHex4_spec (h : At data i cs) :
    (∃ a b c d rest n, cs = a :: b :: c :: d :: rest ∧ hexQuad a b c d = some n ∧ n < 0x10000 ∧
        parseHex4 data i = .accept n ∧ At data (i + 4) rest) ∨
      (parseHex4 data i = .reject ∧
        ∀ a b c d rest, cs = a :: b :: c :: d :: rest → hexQuad a b c d = none) := by
  have hle := h.le
  have hlength := Left.length h
  rw [parseHex4, if_neg (by omega), Left.diff h, bind_accept]
  by_cases hfew : (Utf8.encode cs).length < 4
  · refine Or.inr ⟨if_pos hfew, ?_⟩
    intro a b c d rest heq
    have hroom := h.room
    rw [heq, List.length_cons, List.length_cons, List.length_cons, List.length_cons] at hroom
    omega
  · rw [if_neg hfew]
    rcases @hexLoop_spec _ _ _ 4 0 h (by omega) with
      ⟨ds, rest, n, rfl, hfour, hfold, hrun, hat⟩ | ⟨hrun, hno⟩
    · obtain ⟨a, b, c, d, rfl⟩ : ∃ a b c d, ds = [a, b, c, d] := by
        match ds, hfour with
        | [a, b, c, d], _ => exact ⟨a, b, c, d, rfl⟩
      have hlt := hexFold_lt hfold
      rw [hexFold_quad] at hfold
      exact Or.inl ⟨a, b, c, d, rest, n, rfl, hfold, by simpa using hlt, hrun, hat⟩
    · refine Or.inr ⟨hrun, ?_⟩
      intro a b c d rest heq
      rw [← hexFold_quad]
      exact hno [a, b, c, d] rest heq rfl

/-! ## Escapes of code units -/

/-- The text begins with an escape of a code unit. -/
def Unicode (cs : List Char) (n : ℕ) (rest : List Char) : Prop :=
  ∃ a b c d, cs = '\\' :: 'u' :: a :: b :: c :: d :: rest ∧ hexQuad a b c d = some n

theorem pairUp_high {n : ℕ} (h : At data i cs) (hhigh : Utf16.High n) :
    (∃ l rest, Unicode cs l rest ∧ Utf16.Low l ∧ At data (i + 6) rest ∧
        pairUp data i n = .accept (i + 6, 0x10000 + (n - 0xD800) * 0x400 + (l - 0xDC00))) ∨
      (pairUp data i n = .reject ∧ ∀ l rest, Unicode cs l rest → ¬ Utf16.Low l) := by
  obtain ⟨hn, hn'⟩ := hhigh
  rw [pairUp, if_neg (by omega), if_pos ⟨hn, hn'⟩, Left.diff h, bind_accept]
  by_cases hfew : (Utf8.encode cs).length < 6
  · refine Or.inr ⟨if_pos hfew, ?_⟩
    rintro l rest ⟨a, b, c, d, rfl, -⟩
    have hroom := h.room
    have hlength := Left.length h
    simp only [List.length_cons] at hroom
    omega
  rw [if_neg hfew]
  cases cs with
  | nil => simp [Utf8.encode_nil] at hfew
  | cons c cs =>
    rw [h.read, bind_accept]
    by_cases hslash : c = '\\'
    · subst hslash
      rw [(lead_eq (by decide)).mpr rfl, if_neg (fun hne => hne rfl)]
      have hu := h.step (by decide)
      cases cs with
      | nil =>
        have hone : (Utf8.encode ['\\']).length = 1 := by decide
        omega
      | cons e cs =>
        rw [hu.read, bind_accept]
        by_cases hue : e = 'u'
        · subst hue
          have hdigits := hu.step (by decide)
          rw [(lead_eq (by decide)).mpr rfl, if_neg (fun hne => hne rfl)]
          rcases parseHex4_spec hdigits with
            ⟨a, b, c, d, rest, l, rfl, hquad, -, hrun, hat⟩ | ⟨hrun, hno⟩
          · rw [hrun, bind_accept]
            by_cases hlow : Utf16.Low l
            · refine Or.inl ⟨l, rest, ⟨a, b, c, d, rfl, hquad⟩, hlow, hat, ?_⟩
              have hrange := hlow.1
              have hrange' := hlow.2
              rw [if_neg (by omega), Nat.shiftLeft_eq]
            · refine Or.inr ⟨?_, ?_⟩
              · have hrange : ¬ (0xDC00 ≤ l ∧ l ≤ 0xDFFF) := hlow
                rw [if_pos (by omega)]
              · rintro l' rest' ⟨a', b', c', d', heq, hquad'⟩
                simp only [List.cons.injEq, true_and] at heq
                obtain ⟨rfl, rfl, rfl, rfl, -⟩ := heq
                rw [Option.some.inj (hquad'.symm.trans hquad)]
                exact hlow
          · rw [hrun, bind_reject]
            refine Or.inr ⟨rfl, ?_⟩
            rintro l rest ⟨a, b, c, d, heq, hquad⟩
            simp only [List.cons.injEq, true_and] at heq
            rw [hno a b c d rest heq] at hquad
            cases hquad
        · refine Or.inr ⟨if_pos (fun heq => hue ((lead_eq (by decide)).mp heq)), ?_⟩
          rintro l rest ⟨a, b, c, d, heq, -⟩
          simp only [List.cons.injEq, true_and] at heq
          exact absurd heq.1 hue
    · refine Or.inr ⟨if_pos (fun heq => hslash ((lead_eq (by decide)).mp heq)), ?_⟩
      rintro l rest ⟨a, b, c, d, heq, -⟩
      exact absurd (List.cons.inj heq).1 hslash

/-- The escape of one or two code units behind `\u`. -/
theorem escape_spec (h : At data i cs) :
    (∃ j d rest, (parseHex4 data i >>= fun n => pairUp data (i + 4) n) = .accept (j, d.toNat) ∧
        At data j rest ∧ i + 4 ≤ j ∧ Reads ('\\' :: 'u' :: cs) d rest) ∨
      ((parseHex4 data i >>= fun n => pairUp data (i + 4) n) = .reject ∧
        Unreadable ('\\' :: 'u' :: cs)) := by
  rcases parseHex4_spec h with ⟨a, b, c, d, rest, n, rfl, hquad, hsmall, hrun, hat⟩ | ⟨hrun, hno⟩
  · rw [hrun, bind_accept]
    by_cases hlow : Utf16.Low n
    · exact Or.inr ⟨if_pos hlow, unreadable_low hquad hlow rest⟩
    by_cases hhigh : Utf16.High n
    · rcases pairUp_high hat hhigh with
        ⟨l, rest, ⟨a', b', c', d', rfl, hquad'⟩, hlow', hat', hpair⟩ | ⟨hpair, hno⟩
      · have hn := hhigh.1
        have hn' := hhigh.2
        have hl := hlow'.1
        have hl' := hlow'.2
        obtain ⟨e, he⟩ := @Utf8.char_of_scalar (0x10000 + (n - 0xD800) * 0x400 + (l - 0xDC00))
          (by omega)
        have hunits := Utf16.units_of_pair hhigh hlow' he
        refine Or.inl ⟨_, e, rest, ?_, hat', by omega, reads_pair hquad hquad' hunits rest⟩
        rw [hpair, ← he]
        rfl
      · refine Or.inr ⟨hpair, unreadable_high hquad hhigh ?_⟩
        intro a' b' c' d' cs' l heq hquad'
        exact hno l cs' ⟨a', b', c', d', heq, hquad'⟩
    · have hscalar : n < 0xD800 ∨ (0xDFFF < n ∧ n < 0x110000) := by
        have hl : ¬ (0xDC00 ≤ n ∧ n ≤ 0xDFFF) := hlow
        have hh : ¬ (0xD800 ≤ n ∧ n ≤ 0xDBFF) := hhigh
        omega
      obtain ⟨e, he⟩ := Utf8.char_of_scalar hscalar
      have hnat : e.toNat = n := he
      refine Or.inl ⟨i + 4, e, rest, ?_, hat, Nat.le_refl _,
        reads_unit (by rw [hnat]; exact hquad) (by omega) rest⟩
      rw [hnat]
      exact (if_neg hlow).trans (if_neg hhigh)
  · rw [hrun, bind_reject]
    exact Or.inr ⟨rfl, unreadable_hex hno⟩

/-! ## Strings -/

/-- A byte that `parse_string` copies. -/
def Copied (b : UInt8) : Prop := b ≠ byte '"' ∧ ¬ b < 0x20 ∧ b ≠ byte '\\'

theorem plain_copied (h : plain c = true) : ∀ b ∈ String.utf8EncodeChar c, Copied b := by
  simp only [plain, Bool.and_eq_true, decide_eq_true_eq] at h
  obtain ⟨⟨hprint, hquote⟩, hslash⟩ := h
  by_cases hc : c.toNat < 0x80
  · rw [utf8EncodeChar_ascii hc, ← lead_ascii hc]
    intro b hb
    rw [List.mem_singleton.mp hb]
    refine ⟨fun heq => hquote ((lead_eq (by decide)).mp heq), fun hlt => ?_,
      fun heq => hslash ((lead_eq (by decide)).mp heq)⟩
    have hcontrol := (lead_control c).mp hlt
    omega
  · intro b hb
    exact forall_byte (P := fun b => 0x80 ≤ b.toNat → b ≠ byte '"' ∧ ¬ b < 0x20 ∧ b ≠ byte '\\')
      (by decide +kernel) b (utf8EncodeChar_high hc b hb)

theorem stringLoop_copies (fuel : ℕ) {bs rest out : Bytes} (h : Left data i (bs ++ rest))
    (hcopied : ∀ b ∈ bs, Copied b) :
    stringLoop data (bs.length + fuel) i out =
      stringLoop data fuel (i + bs.length) (out ++ bs) := by
  induction bs generalizing i out with
  | nil => rw [List.length_nil, Nat.zero_add, Nat.add_zero, List.append_nil]
  | cons b bs ih =>
    have hlength := Left.length h
    rw [List.cons_append, List.length_cons] at hlength
    obtain ⟨hquote, hprint, hslash⟩ := hcopied b List.mem_cons_self
    rw [List.length_cons, Nat.add_right_comm, stringLoop, if_pos (by omega), Left.read h,
      bind_accept, if_neg hquote, if_neg hprint, if_pos hslash,
      ih (Left.next h) (fun x hx => hcopied x (List.mem_cons_of_mem _ hx)), List.append_assoc,
      Nat.add_assoc, Nat.add_comm 1]
    rfl

/-- How the loop ends on a text: behind the characters of a string, before its closing quote, or
    where no string ends. -/
def StringEnd (data : Bytes) (cs : List Char) (out : Bytes) (result : Outcome (ℕ × Bytes)) : Prop :=
  (∃ j ds rest, result = .accept (j, out ++ Utf8.encode ds) ∧ At data j ('"' :: rest) ∧
      Chars cs (Utf16.encode ds) rest) ∨
    (Unreadable cs ∧ (result = .reject ∨ ∃ out', result = .accept (data.length, out')))

theorem StringEnd.read {cs' : List Char} {d : Char} {out : Bytes} {result : Outcome (ℕ × Bytes)}
    (hreads : Reads cs d cs') (h : StringEnd data cs' (out ++ String.utf8EncodeChar d) result) :
    StringEnd data cs out result := by
  rcases h with ⟨j, ds, rest, hrun, hat, hchars⟩ | ⟨hno, hrun⟩
  · refine Or.inl ⟨j, d :: ds, rest, ?_, hat, (hreads _ _).mpr ⟨ds, rfl, hchars⟩⟩
    rw [hrun, Utf8.encode_cons, List.append_assoc]
  · exact Or.inr ⟨hreads.unreadable hno, hrun⟩

theorem escaped_ascii {d : Char} (h : escaped c = some d) :
    c.toNat < 0x80 ∧ d.toNat < 0x80 := by
  have hc : c.toNat < 0x80 := by
    by_contra hc
    rw [escaped_high hc] at h
    cases h
  exact ⟨hc, forall_ascii (P := fun c => ∀ d, escaped c = some d → d.toNat < 0x80)
    (by
      have hall : ∀ n < 128, (escaped (Char.ofNat n)).all (·.toNat < 0x80) = true := by
        decide
      intro n hn d hd
      have hn' := hall n hn
      rw [hd] at hn'
      exact of_decide_eq_true hn') hc d h⟩

theorem stringLoop_spec (fuel : ℕ) (h : At data i cs) (hfuel : data.length < i + fuel)
    (out : Bytes) : StringEnd data cs out (stringLoop data fuel i out) := by
  induction fuel using Nat.strong_induction_on generalizing i cs out with
  | _ fuel ih =>
  have hle := h.le
  obtain ⟨fuel, rfl⟩ : ∃ f, fuel = f + 1 := ⟨fuel - 1, by omega⟩
  cases cs with
  | nil =>
    have hend := h.end_eq
    rw [stringLoop, if_neg (by omega)]
    exact Or.inr ⟨unreadable_nil, Or.inr ⟨out, by rw [hend]⟩⟩
  | cons c cs =>
    by_cases hplain : plain c = true
    · -- all the bytes of the character are copied
      have hnext := h.next
      have hpos := (Utf8.unit_utf8EncodeChar c).length_pos
      have hroom := hnext.le
      have hcopy := h
      rw [At, Utf8.encode_cons] at hcopy
      have hruns := @stringLoop_copies _ _ (fuel + 1 - (String.utf8EncodeChar c).length) _ _ out
        hcopy (plain_copied hplain)
      rw [Nat.add_sub_cancel' (by omega)] at hruns
      rw [hruns]
      exact (ih _ (by omega) hnext (by omega) _).read (reads_plain hplain cs)
    rw [stringLoop, if_pos h.lt, h.read, bind_accept]
    by_cases hquote : c = '"'
    · subst hquote
      rw [if_pos ((lead_eq (by decide)).mpr rfl)]
      exact Or.inl ⟨i, [], cs, by rw [Utf8.encode_nil, List.append_nil], h, .close cs⟩
    rw [if_neg (fun heq => hquote ((lead_eq (by decide)).mp heq))]
    by_cases hcontrol : c.toNat < 0x20
    · rw [if_pos ((lead_control c).mpr hcontrol)]
      exact Or.inr ⟨unreadable_control hcontrol cs, Or.inl rfl⟩
    have hslash : c = '\\' := by
      by_contra hne
      exact hplain (by simp [plain, hquote, hne]; omega)
    subst hslash
    rw [if_neg (fun hlt => hcontrol ((lead_control _).mp hlt)),
      if_neg (not_not.mpr ((lead_eq (by decide)).mpr rfl))]
    have hesc := h.step (by decide)
    cases cs with
    | nil =>
      have hend := hesc.end_eq
      rw [if_pos (by omega)]
      exact Or.inr ⟨unreadable_backslash, Or.inl rfl⟩
    | cons e cs =>
      have hlt := hesc.lt
      rw [if_neg (by omega), hesc.read, bind_accept, simpleEscape_lead]
      cases hd : escaped e with
      | some d =>
        obtain ⟨hascii, hascii'⟩ := escaped_ascii hd
        have hcont := ih fuel (Nat.lt_succ_self _) (hesc.step hascii) (by omega) (out ++ [byte d])
        rw [← utf8EncodeChar_ascii hascii'] at hcont
        have hend := hcont.read (reads_escape hd cs)
        rwa [utf8EncodeChar_ascii hascii'] at hend
      | none =>
        dsimp only [Option.map_none]
        by_cases hu : e = 'u'
        · subst hu
          rw [if_pos ((lead_eq (by decide)).mpr rfl)]
          have hdigits := hesc.step (by decide)
          rw [← bind_bind]
          rcases escape_spec hdigits with ⟨j, d, rest, hrun, hat, hj, hreads⟩ | ⟨hrun, hno⟩
          · rw [hrun, bind_accept, appendUtf8_char]
            exact (ih fuel (Nat.lt_succ_self _) hat (by omega) _).read hreads
          · rw [hrun, bind_reject]
            exact Or.inr ⟨hno, Or.inl rfl⟩
        · rw [if_neg (fun heq => hu ((lead_eq (by decide)).mp heq))]
          exact Or.inr ⟨unreadable_escape hd hu cs, Or.inl rfl⟩

theorem parseString_spec (h : At data i cs) :
    (∃ j ds rest, parseString data i = .accept (j, Utf8.encode ds) ∧ At data j rest ∧
        StringText cs (Utf16.encode ds) rest) ∨
      (parseString data i = .reject ∧ ∀ ds rest, ¬ StringText cs (Utf16.encode ds) rest) := by
  rw [parseString]
  cases cs with
  | nil =>
    have hend := h.end_eq
    exact Or.inr ⟨if_pos (by omega), fun _ _ htext => nomatch htext⟩
  | cons c cs =>
    have hlt := h.lt
    rw [if_neg (by omega), h.read, bind_accept]
    by_cases hquote : c = '"'
    · subst hquote
      have hopen := h.step (by decide)
      rw [if_neg (not_not.mpr ((lead_eq (by decide)).mpr rfl))]
      rcases stringLoop_spec (data.length + 1) hopen (by omega) [] with
        ⟨j, ds, rest, hrun, hat, hchars⟩ | ⟨hno, hrun⟩
      · have hj := hat.lt
        refine Or.inl ⟨j + 1, ds, rest, ?_, hat.step (by decide), .intro hchars⟩
        rw [hrun, bind_accept]
        exact if_neg (by omega)
      · refine Or.inr ⟨?_, ?_⟩
        · rcases hrun with hrun | ⟨out', hrun⟩
          · rw [hrun, bind_reject]
          · rw [hrun, bind_accept]
            exact if_pos (Nat.le_refl _)
        · intro ds rest htext
          generalize hus : Utf16.encode ds = us at htext
          cases htext with
          | intro hchars => exact hno ds rest (hus ▸ hchars)
    · refine Or.inr ⟨if_pos (fun heq => hquote ((lead_eq (by decide)).mp heq)), ?_⟩
      intro ds rest htext
      cases htext
      exact hquote rfl

end Tim2Tox.GroupReceipts
