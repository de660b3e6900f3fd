import Tim2Tox.Utf16

set_option autoImplicit false

/-!
# JSON objects of strings

The grammar of RFC 8259 for objects all of whose members are strings. A derivation relates a text
to what is left of it, and a string to the UTF-16 code units it stands for, so escaped surrogates
need not come in pairs here. A text has one reading at most.
-/
namespace Tim2Tox.Json

def isWs (c : Char) : Bool := c = ' ' || c = '\t' || c = '\n' || c = '\r'

inductive Ws : List Char → List Char → Prop where
  | done (rest : List Char) : Ws rest rest
  | skip {c : Char} {cs rest : List Char} (space : isWs c = true) (more : Ws cs rest) :
    Ws (c :: cs) rest

def hexValue (c : Char) : Option ℕ :=
  if '0' ≤ c ∧ c ≤ '9' then some (c.toNat - 48)
  else if 'a' ≤ c ∧ c ≤ 'f' then some (c.toNat - 97 + 10)
  else if 'A' ≤ c ∧ c ≤ 'F' then some (c.toNat - 65 + 10)
  else none

def hexQuad (a b c d : Char) : Option ℕ :=
  (hexValue a).bind fun w => (hexValue b).bind fun x => (hexValue c).bind fun y =>
    (hexValue d).map fun z => ((w * 16 + x) * 16 + y) * 16 + z

/-- The character a two-character escape stands for. -/
def escaped : Char → Option Char
  | '"' => some '"'
  | '\\' => some '\\'
  | '/' => some '/'
  | 'b' => some '\x08'
  | 'f' => some '\x0c'
  | 'n' => some '\n'
  | 'r' => some '\r'
  | 't' => some '\t'
  | _ => none

theorem escaped_high {c : Char} (h : ¬ c.toNat < 0x80) : escaped c = none := by
  unfold escaped
  split
  all_goals first | rfl | exact absurd (by decide) h

/-- A character that stands for itself in a string. -/
def plain (c : Char) : Bool := 0x20 ≤ c.toNat && c ≠ '"' && c ≠ '\\'

/-- What follows the opening quote, up to the closing one. -/
inductive Chars : List Char → List ℕ → List Char → Prop where
  | close (rest : List Char) : Chars ('"' :: rest) [] rest
  | plain {c : Char} {cs rest : List Char} {us : List ℕ} (itself : plain c = true)
    (more : Chars cs us rest) : Chars (c :: cs) (Utf16.units c ++ us) rest
  | escape {c d : Char} {cs rest : List Char} {us : List ℕ} (stands : escaped c = some d)
    (more : Chars cs us rest) : Chars ('\\' :: c :: cs) (Utf16.units d ++ us) rest
  | unicode {a b c d : Char} {n : ℕ} {cs rest : List Char} {us : List ℕ}
    (number : hexQuad a b c d = some n) (more : Chars cs us rest) :
    Chars ('\\' :: 'u' :: a :: b :: c :: d :: cs) (n :: us) rest

inductive StringText : List Char → List ℕ → List Char → Prop where
  | intro {cs rest : List Char} {us : List ℕ} (chars : Chars cs us rest) :
    StringText ('"' :: cs) us rest

/-- A member with the white space around it. -/
inductive Member : List Char → List ℕ × List ℕ → List Char → Prop where
  | intro {t₀ t₁ t₂ t₃ t₄ t₅ rest : List Char} {key value : List ℕ} (before : Ws t₀ t₁)
    (name : StringText t₁ key t₂) (middle : Ws t₂ (':' :: t₃)) (gap : Ws t₃ t₄)
    (text : StringText t₄ value t₅) (after : Ws t₅ rest) : Member t₀ (key, value) rest

/-- The members of an object up to its closing brace. -/
inductive Members : List Char → List (List ℕ × List ℕ) → List Char → Prop where
  | last {t rest : List Char} {m : List ℕ × List ℕ} (member : Member t m ('}' :: rest)) :
    Members t [m] rest
  | more {t t' rest : List Char} {m : List ℕ × List ℕ} {ms : List (List ℕ × List ℕ)}
    (member : Member t m (',' :: t')) (next : Members t' ms rest) : Members t (m :: ms) rest

inductive ObjectText : List Char → List (List ℕ × List ℕ) → Prop where
  | empty {t t₁ t₂ : List Char} (before : Ws t ('{' :: t₁)) (inside : Ws t₁ ('}' :: t₂))
    (after : Ws t₂ []) : ObjectText t []
  | members {t t₁ t₂ : List Char} {ms : List (List ℕ × List ℕ)} (before : Ws t ('{' :: t₁))
    (inside : Members t₁ ms t₂) (after : Ws t₂ []) : ObjectText t ms

/-! ## One reading -/

/-- The text does not begin with white space. -/
def NoWs (cs : List Char) : Prop := ∀ c ∈ cs.head?, isWs c = false

theorem noWs_nil : NoWs [] := by simp [NoWs]

theorem noWs_cons {c : Char} {cs : List Char} (h : isWs c = false) : NoWs (c :: cs) := by
  simpa [NoWs] using h

theorem Ws.unique {cs rest rest' : List Char} (h : Ws cs rest) (h' : Ws cs rest')
    (hn : NoWs rest) (hn' : NoWs rest') : rest = rest' := by
  induction h with
  | done =>
    cases h' with
    | done => rfl
    | skip space => exact absurd (hn _ rfl) (by simp [space])
  | skip space _ ih =>
    cases h' with
    | done => exact absurd (hn' _ rfl) (by simp [space])
    | skip _ more => exact ih more hn

theorem Chars.unique {cs rest rest' : List Char} {us us' : List ℕ} (h : Chars cs us rest)
    (h' : Chars cs us' rest') : us = us' ∧ rest = rest' := by
  induction h generalizing us' rest' with
  | close =>
    cases h' with
    | close => exact ⟨rfl, rfl⟩
    | plain itself => simp [Json.plain] at itself
  | plain itself more ih =>
    cases h' with
    | close => simp [Json.plain] at itself
    | plain _ more' =>
      obtain ⟨rfl, rfl⟩ := ih more'
      exact ⟨rfl, rfl⟩
    | escape => simp [Json.plain] at itself
    | unicode => simp [Json.plain] at itself
  | escape stands more ih =>
    cases h' with
    | plain itself => simp [Json.plain] at itself
    | escape stands' more' =>
      obtain ⟨rfl, rfl⟩ := ih more'
      obtain rfl := Option.some.inj (stands.symm.trans stands')
      exact ⟨rfl, rfl⟩
    | unicode => simp [escaped] at stands
  | unicode number more ih =>
    cases h' with
    | plain itself => simp [Json.plain] at itself
    | escape stands => simp [escaped] at stands
    | unicode number' more' =>
      obtain ⟨rfl, rfl⟩ := ih more'
      obtain rfl := Option.some.inj (number.symm.trans number')
      exact ⟨rfl, rfl⟩

theorem StringText.unique {cs rest rest' : List Char} {us us' : List ℕ}
    (h : StringText cs us rest) (h' : StringText cs us' rest') : us = us' ∧ rest = rest' := by
  cases h with
  | intro chars =>
    cases h' with
    | intro chars' => exact chars.unique chars'

theorem StringText.noWs {cs rest : List Char} {us : List ℕ} (h : StringText cs us rest) :
    NoWs cs := by
  cases h with
  | intro => exact noWs_cons rfl

theorem Member.unique {t rest rest' : List Char} {m m' : List ℕ × List ℕ} (h : Member t m rest)
    (h' : Member t m' rest') (hn : NoWs rest) (hn' : NoWs rest') : m = m' ∧ rest = rest' := by
  cases h with
  | intro before name middle gap text after =>
    cases h' with
    | intro before' name' middle' gap' text' after' =>
      obtain rfl := before.unique before' name.noWs name'.noWs
      obtain ⟨rfl, rfl⟩ := name.unique name'
      obtain heq := middle.unique middle' (noWs_cons rfl) (noWs_cons rfl)
      obtain rfl := (List.cons.inj heq).2
      obtain rfl := gap.unique gap' text.noWs text'.noWs
      obtain ⟨rfl, rfl⟩ := text.unique text'
      exact ⟨rfl, after.unique after' hn hn'⟩

theorem Members.unique {t rest rest' : List Char} {ms ms' : List (List ℕ × List ℕ)}
    (h : Members t ms rest) (h' : Members t ms' rest') : ms = ms' ∧ rest = rest' := by
  induction h generalizing ms' rest' with
  | last member =>
    cases h' with
    | last member' =>
      obtain ⟨rfl, heq⟩ := member.unique member' (noWs_cons rfl) (noWs_cons rfl)
      exact ⟨rfl, (List.cons.inj heq).2⟩
    | more member' =>
      obtain ⟨-, heq⟩ := member.unique member' (noWs_cons rfl) (noWs_cons rfl)
      simp at heq
  | more member _ ih =>
    cases h' with
    | last member' =>
      obtain ⟨-, heq⟩ := member.unique member' (noWs_cons rfl) (noWs_cons rfl)
      simp at heq
    | more member' next' =>
      obtain ⟨rfl, heq⟩ := member.unique member' (noWs_cons rfl) (noWs_cons rfl)
      obtain rfl := (List.cons.inj heq).2
      obtain ⟨rfl, rfl⟩ := ih next'
      exact ⟨rfl, rfl⟩

/-- A text is at most one object. -/
theorem ObjectText.unique {t : List Char} {ms ms' : List (List ℕ × List ℕ)} (h : ObjectText t ms)
    (h' : ObjectText t ms') : ms = ms' := by
  have hmix : ∀ {t₁ t₂ t₃ : List Char} {ms : List (List ℕ × List ℕ)}, Ws t₁ ('}' :: t₂) →
      Members t₁ ms t₃ → False := by
    intro t₁ t₂ t₃ ms hclose hms
    have hmember : ∃ m rest, Member t₁ m rest := by
      cases hms with
      | last member => exact ⟨_, _, member⟩
      | more member => exact ⟨_, _, member⟩
    obtain ⟨m, rest, member⟩ := hmember
    cases member with
    | intro before name =>
      have heq := hclose.unique before (noWs_cons rfl) name.noWs
      cases name with
      | intro => simp at heq
  cases h with
  | empty before inside =>
    cases h' with
    | empty => rfl
    | members before' inside' =>
      obtain rfl := (List.cons.inj (before.unique before' (noWs_cons rfl) (noWs_cons rfl))).2
      exact (hmix inside inside').elim
  | members before inside =>
    cases h' with
    | empty before' inside' =>
      obtain rfl := (List.cons.inj (before.unique before' (noWs_cons rfl) (noWs_cons rfl))).2
      exact (hmix inside' inside).elim
    | members before' inside' =>
      obtain rfl := (List.cons.inj (before.unique before' (noWs_cons rfl) (noWs_cons rfl))).2
      exact (inside.unique inside').1

/-! ## Lengths -/

theorem Ws.length_le {cs rest : List Char} (h : Ws cs rest) : rest.length ≤ cs.length := by
  induction h with
  | done => exact Nat.le_refl _
  | skip _ _ ih => exact Nat.le_succ_of_le ih

theorem Chars.length_lt {cs rest : List Char} {us : List ℕ} (h : Chars cs us rest) :
    rest.length < cs.length := by
  induction h with
  | close => exact Nat.lt_succ_self _
  | plain _ _ ih => exact Nat.lt_succ_of_lt ih
  | escape _ _ ih => exact Nat.lt_succ_of_lt (Nat.lt_succ_of_lt ih)
  | unicode _ _ ih =>
    simp only [List.length_cons]
    omega

theorem StringText.length_lt {cs rest : List Char} {us : List ℕ} (h : StringText cs us rest) :
    rest.length < cs.length := by
  cases h with
  | intro chars => exact Nat.lt_succ_of_lt chars.length_lt

theorem Member.length_lt {t rest : List Char} {m : List ℕ × List ℕ} (h : Member t m rest) :
    rest.length < t.length := by
  cases h with
  | intro before name middle gap text after =>
    have h₁ := before.length_le
    have h₂ := name.length_lt
    have h₃ := middle.length_le
    have h₄ := gap.length_le
    have h₅ := text.length_lt
    have h₆ := after.length_le
    rw [List.length_cons] at h₃
    omega

/-! ## Strings of whole characters -/

/-- The text begins with the character `d`, of a string that goes on with `cs'`. -/
def Reads (cs : List Char) (d : Char) (cs' : List Char) : Prop :=
  ∀ ds rest, Chars cs (Utf16.encode ds) rest ↔
    ∃ ds', ds = d :: ds' ∧ Chars cs' (Utf16.encode ds') rest

/-- No string of characters is read here. -/
def Unreadable (cs : List Char) : Prop := ∀ ds rest, ¬ Chars cs (Utf16.encode ds) rest

theorem Reads.unreadable {cs cs' : List Char} {d : Char} (h : Reads cs d cs')
    (hno : Unreadable cs') : Unreadable cs := by
  intro ds rest hchars
  obtain ⟨ds', -, hmore⟩ := (h ds rest).mp hchars
  exact hno ds' rest hmore

theorem reads_of_unique {cs cs' : List Char} {d : Char}
    (hstep : ∀ us rest, Chars cs' us rest → Chars cs (Utf16.units d ++ us) rest)
    (hback : ∀ us rest, Chars cs us rest → ∃ us', us = Utf16.units d ++ us' ∧ Chars cs' us' rest) :
    Reads cs d cs' := by
  intro ds rest
  constructor
  · intro hchars
    obtain ⟨us', heq, hmore⟩ := hback _ _ hchars
    obtain ⟨ds', rfl, rfl⟩ := Utf16.encode_split heq.symm
    exact ⟨ds', rfl, hmore⟩
  · rintro ⟨ds', rfl, hmore⟩
    rw [Utf16.encode_cons]
    exact hstep _ _ hmore

theorem reads_plain {c : Char} (h : plain c = true) (cs : List Char) : Reads (c :: cs) c cs := by
  apply reads_of_unique
  · intro us rest hmore
    exact .plain h hmore
  · intro us rest hchars
    cases hchars with
    | close => simp [plain] at h
    | plain _ hmore => exact ⟨_, rfl, hmore⟩
    | escape => simp [plain] at h
    | unicode => simp [plain] at h

theorem reads_escape {e d : Char} (h : escaped e = some d) (cs : List Char) :
    Reads ('\\' :: e :: cs) d cs := by
  apply reads_of_unique
  · intro us rest hmore
    exact .escape h hmore
  · intro us rest hchars
    cases hchars with
    | plain itself => simp [plain] at itself
    | escape stands hmore =>
      obtain rfl := Option.some.inj (h.symm.trans stands)
      exact ⟨_, rfl, hmore⟩
    | unicode => simp [escaped] at h

/-- What the escape of one code unit says. -/
theorem chars_unicode {a b c d : Char} {n : ℕ} (h : hexQuad a b c d = some n) {cs rest : List Char}
    {us : List ℕ} : Chars ('\\' :: 'u' :: a :: b :: c :: d :: cs) us rest ↔
      ∃ us', us = n :: us' ∧ Chars cs us' rest := by
  constructor
  · intro hchars
    cases hchars with
    | plain itself => simp [plain] at itself
    | escape stands => simp [escaped] at stands
    | unicode number hmore =>
      obtain rfl := Option.some.inj (h.symm.trans number)
      exact ⟨_, rfl, hmore⟩
  · rintro ⟨us', rfl, hmore⟩
    exact .unicode h hmore

theorem reads_unit {a b c d e : Char} (h : hexQuad a b c d = some e.toNat)
    (hsmall : e.toNat < 0x10000) (cs : List Char) :
    Reads ('\\' :: 'u' :: a :: b :: c :: d :: cs) e cs := by
  apply reads_of_unique
  · intro us rest hmore
    rw [Utf16.units_of_one hsmall]
    exact .unicode h hmore
  · intro us rest hchars
    rw [Utf16.units_of_one hsmall]
    exact (chars_unicode h).mp hchars

theorem reads_pair {a b c d a' b' c' d' e : Char} {n l : ℕ} (h : hexQuad a b c d = some n)
    (h' : hexQuad a' b' c' d' = some l) (hunits : Utf16.units e = [n, l]) (cs : List Char) :
    Reads ('\\' :: 'u' :: a :: b :: c :: d :: '\\' :: 'u' :: a' :: b' :: c' :: d' :: cs) e cs := by
  apply reads_of_unique
  · intro us rest hmore
    rw [hunits]
    exact .unicode h (.unicode h' hmore)
  · intro us rest hchars
    rw [hunits]
    obtain ⟨us', rfl, hnext⟩ := (chars_unicode h).mp hchars
    obtain ⟨us'', rfl, hmore⟩ := (chars_unicode h').mp hnext
    exact ⟨us'', rfl, hmore⟩

theorem unreadable_nil : Unreadable [] := by
  intro ds rest hchars
  generalize Utf16.encode ds = us at hchars
  cases hchars

/-- A character that is neither plain, nor a quote, nor a backslash. -/
theorem unreadable_control {c : Char} (h : c.toNat < 0x20) (cs : List Char) :
    Unreadable (c :: cs) := by
  intro ds rest hchars
  generalize Utf16.encode ds = us at hchars
  cases hchars with
  | close => exact absurd h (by decide)
  | plain itself =>
    simp only [plain, Bool.and_eq_true, decide_eq_true_eq] at itself
    omega
  | escape => exact absurd h (by decide)
  | unicode => exact absurd h (by decide)

theorem unreadable_backslash : Unreadable ['\\'] := by
  intro ds rest hchars
  generalize Utf16.encode ds = us at hchars
  cases hchars with
  | plain itself => simp [plain] at itself

theorem unreadable_escape {e : Char} (h : escaped e = none) (hu : e ≠ 'u') (cs : List Char) :
    Unreadable ('\\' :: e :: cs) := by
  intro ds rest hchars
  generalize Utf16.encode ds = us at hchars
  cases hchars with
  | plain itself => simp [plain] at itself
  | escape stands => rw [h] at stands; cases stands
  | unicode => exact hu rfl

theorem unreadable_hex {cs : List Char}
    (h : ∀ a b c d rest, cs = a :: b :: c :: d :: rest → hexQuad a b c d = none) :
    Unreadable ('\\' :: 'u' :: cs) := by
  intro ds rest hchars
  generalize Utf16.encode ds = us at hchars
  cases hchars with
  | plain itself => simp [plain] at itself
  | escape stands => simp [escaped] at stands
  | unicode number => rw [h _ _ _ _ _ rfl] at number; cases number

theorem unreadable_low {a b c d : Char} {n : ℕ} (h : hexQuad a b c d = some n)
    (hlow : Utf16.Low n) (cs : List Char) :
    Unreadable ('\\' :: 'u' :: a :: b :: c :: d :: cs) := by
  intro ds rest hchars
  obtain ⟨us, heq, -⟩ := (chars_unicode h).mp hchars
  exact (Utf16.encode_head heq.symm).1 hlow

/-- The unit of a low surrogate is only written as an escape. -/
theorem Chars.low_head {cs rest : List Char} {n : ℕ} {us : List ℕ} (h : Chars cs (n :: us) rest)
    (hlow : Utf16.Low n) : ∃ a b c d cs', cs = '\\' :: 'u' :: a :: b :: c :: d :: cs' ∧
      hexQuad a b c d = some n := by
  have hunits : ∀ (c : Char) (vs : List ℕ), Utf16.units c ++ vs ≠ n :: us := by
    intro c vs heq
    have hc := Utf16.units_unitsOf c
    generalize Utf16.units c = ws at hc heq
    cases hc with
    | one _ hnot =>
      rw [List.singleton_append, List.cons.injEq] at heq
      exact hnot (heq.1 ▸ hlow)
    | pair hhigh =>
      rw [List.cons_append, List.cons.injEq] at heq
      have hle := (heq.1 ▸ hhigh : Utf16.High n).2
      have hge := hlow.1
      omega
  generalize hws : n :: us = ws at h
  cases h with
  | close => cases hws
  | plain => exact absurd hws.symm (hunits _ _)
  | escape => exact absurd hws.symm (hunits _ _)
  | unicode number =>
    cases hws
    exact ⟨_, _, _, _, _, rfl, number⟩

/-- A high surrogate is read only with the escape of a low one behind it. -/
theorem unreadable_high {a b c d : Char} {n : ℕ} (h : hexQuad a b c d = some n)
    (hhigh : Utf16.High n) {cs : List Char}
    (hno : ∀ a b c d cs' l, cs = '\\' :: 'u' :: a :: b :: c :: d :: cs' →
      hexQuad a b c d = some l → ¬ Utf16.Low l) :
    Unreadable ('\\' :: 'u' :: a :: b :: c :: d :: cs) := by
  intro ds rest hchars
  obtain ⟨us, heq, hmore⟩ := (chars_unicode h).mp hchars
  obtain ⟨l, us', rfl, hlow⟩ := (Utf16.encode_head heq.symm).2 hhigh
  obtain ⟨a', b', c', d', cs', rfl, hquad⟩ := hmore.low_head hlow
  exact hno _ _ _ _ _ _ rfl hquad hlow

end Tim2Tox.Json
