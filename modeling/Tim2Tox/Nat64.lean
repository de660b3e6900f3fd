import Mathlib.Data.List.Induction
import Mathlib.Data.List.Nodup
import Mathlib.Tactic.Common

set_option autoImplicit false

/-!
# Hosts of a bootstrap node

Which hosts are IPv4 literals, and what toxcore is given to try for one on a network that may have
IPv6 only.
-/
namespace Tim2Tox.Nat64

/-- The bytes of a C string before its zero. -/
abbrev Bytes : Type := List UInt8

local instance : LawfulBEq Bytes := List.instLawfulBEq

def isDigit (c : UInt8) : Bool := 48 ≤ c && c ≤ 57

def addDigit (value : ℕ) (c : UInt8) : ℕ := value * 10 + (c.toNat - 48)

/-- The inner loop of `IsIpv4Literal`: how many digits there were and what is left. -/
def readOctet (value digits : ℕ) : Bytes → Option (ℕ × Bytes)
  | [] => some (digits, [])
  | c :: p =>
    if isDigit c then
      if 3 < digits + 1 ∨ 255 < addDigit value c then none
      else readOctet (addDigit value c) (digits + 1) p
    else some (digits, c :: p)

/-- The outer loop; `left` octets can follow. -/
def readOctets (left : ℕ) (p : Bytes) : Bool :=
  match readOctet 0 0 p with
  | none => false
  | some (digits, rest) =>
    if digits = 0 then false
    else match rest, left with
      | [], left => left = 0
      | _ :: _, 0 => false
      | c :: p, left + 1 => if c ≠ 46 then false else readOctets left p

def isIpv4Literal : Option Bytes → Bool
  | none | some [] => false
  | some (c :: p) => readOctets 3 (c :: p)

/-- An entry of `getaddrinfo`. -/
structure AddrInfo where
  inet6 : Bool
  address : Option Bytes
  length : ℕ
  deriving DecidableEq

def sockaddrIn6Length : ℕ := 28

/-- `IN6_IS_ADDR_V4MAPPED` -/
def isV4Mapped (address : Bytes) : Bool := address.take 12 = List.replicate 10 0 ++ [255, 255]

/-- The text of an entry that is not passed over; `ntop` is `inet_ntop`. -/
def AddrInfo.text (ntop : Bytes → Option Bytes) (ai : AddrInfo) : Option Bytes :=
  if !ai.inet6 || ai.length < sockaddrIn6Length then none
  else (ai.address.filter fun address => !isV4Mapped address).bind ntop

def ipv6StringsFromAddrinfo (ntop : Bytes → Option Bytes) (list : List AddrInfo) : List Bytes :=
  list.foldl (fun out ai => match ai.text ntop with
    | none => out
    | some s => if s ∈ out then out else out ++ [s]) []

/-- `resolve` is `getaddrinfo` with its errors. -/
def synthesizedIpv6ForIpv4Literal (apple : Bool) (resolve : Bytes → Option (List AddrInfo))
    (ntop : Bytes → Option Bytes) (host : Bytes) : List Bytes :=
  if apple && isIpv4Literal (some host) then ((resolve host).map (ipv6StringsFromAddrinfo ntop)).getD [] else []

def bootstrapHostCandidates (apple : Bool) (resolve : Bytes → Option (List AddrInfo))
    (ntop : Bytes → Option Bytes) : Option Bytes → List Bytes
  | none => []
  | some host => synthesizedIpv6ForIpv4Literal apple resolve ntop host ++ [host]

/-! ## Dotted quads -/

def decimal (t : Bytes) : ℕ := t.foldl addDigit 0

/-- One to three decimal digits, up to 255. -/
structure IsOctet (t : Bytes) : Prop where
  digits : ∀ c ∈ t, isDigit c = true
  positive : 0 < t.length
  short : t.length ≤ 3
  value : decimal t ≤ 255

def dotted : List Bytes → Bytes
  | [] => []
  | [t] => t
  | t :: u :: ts => t ++ 46 :: dotted (u :: ts)

theorem le_foldl (t : Bytes) : ∀ value, value ≤ t.foldl addDigit value := by
  induction t with
  | nil => exact fun value => Nat.le_refl value
  | cons c t ih =>
    intro value
    refine Nat.le_trans ?_ (ih (addDigit value c))
    unfold addDigit
    omega

theorem readOctet_append {t rest : Bytes} (hdigits : ∀ c ∈ t, isDigit c = true)
    (hrest : ∀ c ∈ rest.head?, isDigit c = false) : ∀ value digits, digits + t.length ≤ 3 →
      t.foldl addDigit value ≤ 255 → readOctet value digits (t ++ rest) = some (digits + t.length, rest) := by
  induction t with
  | nil =>
    intro value digits _ _
    cases rest with
    | nil => rfl
    | cons c p =>
      change (if isDigit c = true then _ else some (digits, c :: p)) = _
      rw [hrest c rfl, if_neg Bool.false_ne_true]
      rfl
  | cons c t ih =>
    intro value digits hshort hvalue
    rw [List.length_cons] at hshort ⊢
    have hnext : addDigit value c ≤ 255 := Nat.le_trans (le_foldl t _) hvalue
    change (if isDigit c = true then if 3 < digits + 1 ∨ 255 < addDigit value c then none
      else readOctet (addDigit value c) (digits + 1) (t ++ rest) else _) = _
    rw [if_pos (hdigits c List.mem_cons_self), if_neg (by omega),
      ih (fun d hd => hdigits d (List.mem_cons_of_mem c hd)) _ _ (by omega) hvalue, Nat.add_right_comm, Nat.add_assoc]

/-- What the loop reads are the digits up to the first byte that is none. -/
theorem readOctet_some (p : Bytes) : ∀ value digits d rest, readOctet value digits p = some (d, rest) →
    value ≤ 255 → digits ≤ 3 → ∃ t, p = t ++ rest ∧ (∀ c ∈ t, isDigit c = true) ∧ d = digits + t.length ∧
      d ≤ 3 ∧ t.foldl addDigit value ≤ 255 := by
  induction p with
  | nil =>
    intro value digits d rest h hvalue hdigits
    obtain ⟨rfl, rfl⟩ := Prod.mk.inj (Option.some.inj h)
    exact ⟨[], rfl, fun _ hc => absurd hc List.not_mem_nil, rfl, hdigits, hvalue⟩
  | cons c p ih =>
    intro value digits d rest h hvalue hdigits
    change (if isDigit c = true then if 3 < digits + 1 ∨ 255 < addDigit value c then none
      else readOctet (addDigit value c) (digits + 1) p else some (digits, c :: p)) = _ at h
    by_cases hdigit : isDigit c = true
    · rw [if_pos hdigit] at h
      split_ifs at h with hstop
      obtain ⟨t, rfl, hall, hd, hshort, hfold⟩ := ih _ _ d rest h (by omega) (by omega)
      refine ⟨c :: t, rfl, fun x hx => ?_, ?_, hshort, hfold⟩
      · rcases List.mem_cons.mp hx with rfl | hx
        · exact hdigit
        · exact hall x hx
      · rw [hd, List.length_cons]
        omega
    · rw [if_neg hdigit] at h
      obtain ⟨rfl, rfl⟩ := Prod.mk.inj (Option.some.inj h)
      exact ⟨[], rfl, fun _ hc => absurd hc List.not_mem_nil, rfl, hdigits, hvalue⟩

theorem readOctet_octet {t : Bytes} (ht : IsOctet t) (rest : Bytes) (hrest : ∀ c ∈ rest.head?, isDigit c = false) :
    readOctet 0 0 (t ++ rest) = some (t.length, rest) := by
  have h := readOctet_append ht.digits hrest 0 0 (by rw [Nat.zero_add]; exact ht.short) ht.value
  rw [Nat.zero_add] at h
  exact h

theorem octet_of_read {p rest : Bytes} {d : ℕ} (h : readOctet 0 0 p = some (d, rest)) (hd : d ≠ 0) :
    ∃ t, IsOctet t ∧ p = t ++ rest := by
  obtain ⟨t, hp, hall, hlength, hshort, hvalue⟩ := readOctet_some p 0 0 d rest h (by decide) (by decide)
  exact ⟨t, ⟨hall, by omega, by omega, hvalue⟩, hp⟩

theorem readOctets_dotted (left : ℕ) : ∀ texts : List Bytes, texts.length = left + 1 → (∀ t ∈ texts, IsOctet t) →
    readOctets left (dotted texts) = true := by
  induction left with
  | zero =>
    intro texts hlength hall
    obtain ⟨t, rfl⟩ := List.length_eq_one_iff.mp hlength
    have ht := hall t List.mem_cons_self
    have hread := readOctet_octet ht [] fun _ hc => absurd hc (Option.not_mem_none _)
    rw [List.append_nil] at hread
    unfold readOctets
    rw [dotted, hread]
    dsimp only
    rw [if_neg (Nat.ne_of_gt ht.positive)]
    rfl
  | succ left ih =>
    intro texts hlength hall
    obtain ⟨t, ts, rfl⟩ := List.exists_cons_of_length_eq_add_one hlength
    obtain ⟨u, us, rfl⟩ := List.exists_cons_of_length_eq_add_one (Nat.succ.inj hlength)
    have ht := hall t List.mem_cons_self
    have hread := readOctet_octet ht (46 :: dotted (u :: us)) fun c hc => by
      rw [← Option.some.inj hc]
      decide
    unfold readOctets
    rw [dotted, hread]
    dsimp only
    rw [if_neg (Nat.ne_of_gt ht.positive), if_neg (by decide)]
    exact ih (u :: us) (Nat.succ.inj hlength) fun x hx => hall x (List.mem_cons_of_mem t hx)

theorem dotted_of_readOctets (left : ℕ) : ∀ p, readOctets left p = true →
    ∃ texts : List Bytes, texts.length = left + 1 ∧ (∀ t ∈ texts, IsOctet t) ∧ p = dotted texts := by
  induction left with
  | zero =>
    intro p h
    unfold readOctets at h
    split at h
    · contradiction
    · rename_i digits rest hread
      split_ifs at h with hnone
      obtain ⟨t, ht, rfl⟩ := octet_of_read hread hnone
      cases rest with
      | cons c p => contradiction
      | nil => exact ⟨[t], rfl, fun x hx => List.mem_singleton.mp hx ▸ ht, List.append_nil t⟩
  | succ left ih =>
    intro p h
    unfold readOctets at h
    split at h
    · contradiction
    · rename_i digits rest hread
      split_ifs at h with hnone
      obtain ⟨t, ht, rfl⟩ := octet_of_read hread hnone
      cases rest with
      | nil => exact absurd (of_decide_eq_true h) (Nat.succ_ne_zero left)
      | cons c p =>
        dsimp only at h
        split_ifs at h with hdot
        obtain ⟨texts, hlength, hall, rfl⟩ := ih p h
        obtain ⟨u, us, rfl⟩ := List.exists_cons_of_length_eq_add_one hlength
        refine ⟨t :: u :: us, congrArg Nat.succ hlength, fun x hx => ?_, ?_⟩
        · rcases List.mem_cons.mp hx with rfl | hx
          · exact ht
          · exact hall x hx
        · rw [not_not.mp hdot]
          rfl

/-! ## Candidates -/

theorem nodup_ipv6Strings (ntop : Bytes → Option Bytes) (list : List AddrInfo) :
    (ipv6StringsFromAddrinfo ntop list).Nodup ∧
      (ipv6StringsFromAddrinfo ntop list).Sublist (list.filterMap (AddrInfo.text ntop)) ∧
      ∀ s ∈ list.filterMap (AddrInfo.text ntop), s ∈ ipv6StringsFromAddrinfo ntop list := by
  unfold ipv6StringsFromAddrinfo
  induction list using List.reverseRecOn with
  | nil => exact ⟨List.nodup_nil, List.Sublist.refl [], fun _ hs => hs⟩
  | append_singleton list ai ih =>
    obtain ⟨hnodup, hsub, hmem⟩ := ih
    rw [List.foldl_append, List.filterMap_append, List.foldl_cons, List.foldl_nil]
    cases htext : ai.text ntop with
    | none =>
      have hnothing : [ai].filterMap (AddrInfo.text ntop) = [] := List.filterMap_cons_none htext
      rw [hnothing, List.append_nil]
      exact ⟨hnodup, hsub, hmem⟩
    | some s =>
      have hone : [ai].filterMap (AddrInfo.text ntop) = [s] := List.filterMap_cons_some htext
      rw [hone]
      dsimp only
      split_ifs with hseen
      · refine ⟨hnodup, hsub.trans (List.sublist_append_left _ _), fun x hx => ?_⟩
        rcases List.mem_append.mp hx with hold | hlast
        · exact hmem x hold
        · rw [List.mem_singleton.mp hlast]
          exact hseen
      · refine ⟨List.Nodup.append hnodup (List.nodup_singleton s) fun x hx hlast => ?_,
          hsub.append (List.Sublist.refl [s]), fun x hx => ?_⟩
        · exact hseen (List.mem_singleton.mp hlast ▸ hx)
        · rcases List.mem_append.mp hx with hold | hlast
          · exact List.mem_append_left _ (hmem x hold)
          · exact List.mem_append_right _ hlast

/-- A host is taken for an IPv4 literal exactly when it is four octets between dots. The hosts to try
    end with the host itself, and before it come, for a literal on Apple's systems only, the texts of
    the IPv6 addresses it resolves to, each once and in their order. -/
theorem bootstrap_hosts (apple : Bool) (resolve : Bytes → Option (List AddrInfo)) (ntop : Bytes → Option Bytes)
    (host : Bytes) :
    (isIpv4Literal (some host) = true ↔
      ∃ texts : List Bytes, texts.length = 4 ∧ (∀ t ∈ texts, IsOctet t) ∧ host = dotted texts) ∧
    ∃ synthesized, bootstrapHostCandidates apple resolve ntop (some host) = synthesized ++ [host] ∧
      synthesized.Nodup ∧ (synthesized ≠ [] → apple = true ∧ isIpv4Literal (some host) = true) ∧
      (apple = true → isIpv4Literal (some host) = true →
        synthesized.Sublist (((resolve host).getD []).filterMap (AddrInfo.text ntop)) ∧
        ∀ s ∈ ((resolve host).getD []).filterMap (AddrInfo.text ntop), s ∈ synthesized) := by
  refine ⟨⟨fun h => ?_, ?_⟩, synthesizedIpv6ForIpv4Literal apple resolve ntop host, rfl, ?_⟩
  · cases host with
    | nil => contradiction
    | cons c p => exact dotted_of_readOctets 3 (c :: p) h
  · rintro ⟨texts, hlength, hall, rfl⟩
    have hread := readOctets_dotted 3 texts hlength hall
    cases hhost : dotted texts with
    | nil =>
      rw [hhost] at hread
      contradiction
    | cons c p => rwa [hhost] at hread
  · unfold synthesizedIpv6ForIpv4Literal
    by_cases hboth : (apple && isIpv4Literal (some host)) = true
    · rw [if_pos hboth]
      cases resolve host with
      | none => exact ⟨List.nodup_nil, fun hne => absurd rfl hne, fun _ _ => ⟨List.Sublist.refl [], fun _ hs => hs⟩⟩
      | some list =>
        obtain ⟨hnodup, hsub, hmem⟩ := nodup_ipv6Strings ntop list
        exact ⟨hnodup, fun _ => Bool.and_eq_true_iff.mp hboth, fun _ _ => ⟨hsub, hmem⟩⟩
    · rw [if_neg hboth]
      refine ⟨List.nodup_nil, fun hne => absurd rfl hne, fun happle hliteral => absurd ?_ hboth⟩
      rw [happle, hliteral]
      rfl

end Tim2Tox.Nat64
