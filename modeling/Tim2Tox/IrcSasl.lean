import Tim2Tox.Base64
import Tim2Tox.IrcRegistration

set_option autoImplicit false

/-!
# SASL PLAIN of the IRC client

The encoder of `IrcClientManager` with its accumulator, and what is sent for the credentials.
-/
namespace Tim2Tox.IrcSasl
open IrcClient Base64

/-! ## The encoder -/

/-- The accumulator, an `int` that wraps; how many bits wait beyond the next six, and the text. -/
structure Encoder where
  val : ℕ
  valb : ℤ
  encoded : Bytes

namespace Encoder

/-- The loop that takes six bits off as long as there are six. -/
def drain (e : Encoder) : Encoder :=
  if 0 ≤ e.valb then
    drain { e with
      valb := e.valb - 6
      encoded := e.encoded ++ [Session.base64Char (e.val / 2 ^ e.valb.toNat % 64)] }
  else e
  termination_by (e.valb + 6).toNat

def push (e : Encoder) (c : UInt8) : Encoder :=
  drain { e with val := (e.val * 256 + c.toNat) % 2 ^ 32, valb := e.valb + 8 }

/-- The bits that are left, filled up with zeros. -/
def flush (e : Encoder) : Bytes :=
  if -6 < e.valb then
    e.encoded ++ [Session.base64Char (e.val * 256 % 2 ^ 32 / 2 ^ (e.valb + 8).toNat % 64)]
  else e.encoded

end Encoder

def padded (encoded : Bytes) : Bytes :=
  encoded ++ List.replicate ((4 - encoded.length % 4) % 4) 61

def base64Encode (data : Bytes) : Bytes := padded (data.foldl Encoder.push ⟨0, -6, []⟩).flush

section
variable (val : ℕ) (out : Bytes) (a b c : UInt8)

theorem drain_done {valb : ℤ} (h : valb < 0) :
    Encoder.drain ⟨val, valb, out⟩ = ⟨val, valb, out⟩ := by
  rw [Encoder.drain, if_neg (not_le_of_gt h)]

theorem drain_once {valb : ℤ} (h : 0 ≤ valb) : Encoder.drain ⟨val, valb, out⟩ =
    Encoder.drain ⟨val, valb - 6, out ++ [digit (val / 2 ^ valb.toNat % 64)]⟩ := by
  rw [Encoder.drain, if_pos h]
  rfl

theorem flush_whole : Encoder.flush ⟨val, -6, out⟩ = out := if_neg (show ¬ (-6 : ℤ) < -6 by decide)

theorem flush_rest {valb : ℤ} (h : -6 < valb) : Encoder.flush ⟨val, valb, out⟩ =
    out ++ [digit (val * 256 % 2 ^ 32 / 2 ^ (valb + 8).toNat % 64)] := if_pos h

/-- Whatever is left of earlier groups, the first byte of a group gives its upper six bits. -/
theorem push_first : Encoder.push ⟨val, -6, out⟩ a =
    ⟨(val * 256 + a.toNat) % 2 ^ 32, -4, out ++ [digit (a.toNat * 65536 / 262144)]⟩ := by
  have ha := a.toNat_lt
  have hbits : (val * 256 + a.toNat) % 2 ^ 32 / 2 ^ (2 : ℤ).toNat % 64 = a.toNat * 65536 / 262144 := by
    change _ / 4 % 64 = _
    omega
  change Encoder.drain ⟨_, 2, out⟩ = _
  rw [drain_once _ _ (by decide), drain_done _ _ (by decide)]
  dsimp only
  rw [hbits]
  rfl

theorem push_second : Encoder.push ⟨(val * 256 + a.toNat) % 2 ^ 32, -4, out⟩ b =
    ⟨((val * 256 + a.toNat) * 256 + b.toNat) % 2 ^ 32, -2,
      out ++ [digit ((a.toNat * 65536 + b.toNat * 256) / 4096 % 64)]⟩ := by
  have ha := a.toNat_lt
  have hb := b.toNat_lt
  have hval : ((val * 256 + a.toNat) % 2 ^ 32 * 256 + b.toNat) % 2 ^ 32 =
      ((val * 256 + a.toNat) * 256 + b.toNat) % 2 ^ 32 := by omega
  have hbits : ((val * 256 + a.toNat) * 256 + b.toNat) % 2 ^ 32 / 2 ^ (4 : ℤ).toNat % 64 =
      (a.toNat * 65536 + b.toNat * 256) / 4096 % 64 := by
    change _ / 16 % 64 = _
    omega
  change Encoder.drain ⟨((val * 256 + a.toNat) % 2 ^ 32 * 256 + b.toNat) % 2 ^ 32, 4, out⟩ = _
  rw [hval, drain_once _ _ (by decide), drain_done _ _ (by decide), hbits]
  rfl

/-- With the third byte two characters are taken off. -/
theorem push_third :
    Encoder.push ⟨((val * 256 + a.toNat) * 256 + b.toNat) % 2 ^ 32, -2, out⟩ c =
      ⟨(((val * 256 + a.toNat) * 256 + b.toNat) * 256 + c.toNat) % 2 ^ 32, -6,
        out ++ [digit ((a.toNat * 65536 + b.toNat * 256 + c.toNat) / 64 % 64)] ++
          [digit ((a.toNat * 65536 + b.toNat * 256 + c.toNat) % 64)]⟩ := by
  have ha := a.toNat_lt
  have hb := b.toNat_lt
  have hc := c.toNat_lt
  have hval : (((val * 256 + a.toNat) * 256 + b.toNat) % 2 ^ 32 * 256 + c.toNat) % 2 ^ 32 =
      (((val * 256 + a.toNat) * 256 + b.toNat) * 256 + c.toNat) % 2 ^ 32 := by omega
  have hupper : (((val * 256 + a.toNat) * 256 + b.toNat) * 256 + c.toNat) % 2 ^ 32 / 2 ^ (6 : ℤ).toNat
      % 64 = (a.toNat * 65536 + b.toNat * 256 + c.toNat) / 64 % 64 := by
    change _ / 64 % 64 = _
    omega
  have hlower : (((val * 256 + a.toNat) * 256 + b.toNat) * 256 + c.toNat) % 2 ^ 32 / 2 ^ (0 : ℤ).toNat
      % 64 = (a.toNat * 65536 + b.toNat * 256 + c.toNat) % 64 := by
    change _ / 1 % 64 = _
    omega
  change Encoder.drain
    ⟨(((val * 256 + a.toNat) * 256 + b.toNat) % 2 ^ 32 * 256 + c.toNat) % 2 ^ 32, 6, out⟩ = _
  rw [hval, drain_once _ _ (by decide), drain_once _ _ (by decide), drain_done _ _ (by decide), hupper]
  change Encoder.mk _ _ (_ ++ [digit (_ / 2 ^ (0 : ℤ).toNat % 64)]) = _
  rw [hlower]
  rfl

end

/-- The accumulator never matters beyond the bits of its group. -/
theorem encoder_eq : ∀ (data : Bytes) (val : ℕ) (out : Bytes), out.length % 4 = 0 →
    padded (data.foldl Encoder.push ⟨val, -6, out⟩).flush = out ++ encode data
  | [], val, out, h => by
    rw [List.foldl_nil, flush_whole, padded, encode, h]
    rfl
  | [a], val, out, h => by
    have ha := a.toNat_lt
    have hbits : (val * 256 + a.toNat) % 2 ^ 32 * 256 % 2 ^ 32 / 2 ^ ((-4 : ℤ) + 8).toNat % 64 =
        a.toNat * 65536 / 4096 % 64 := by
      change _ / 16 % 64 = _
      omega
    rw [List.foldl_cons, List.foldl_nil, push_first, flush_rest _ _ (by decide), hbits, padded]
    simp only [List.length_append, List.length_singleton]
    have hmissing : (4 - (out.length + 1 + 1) % 4) % 4 = 2 := by omega
    rw [hmissing, encode, List.append_assoc, List.append_assoc]
    rfl
  | [a, b], val, out, h => by
    have ha := a.toNat_lt
    have hb := b.toNat_lt
    have hbits : ((val * 256 + a.toNat) * 256 + b.toNat) % 2 ^ 32 * 256 % 2 ^ 32 /
        2 ^ ((-2 : ℤ) + 8).toNat % 64 = (a.toNat * 65536 + b.toNat * 256) / 64 % 64 := by
      change _ / 64 % 64 = _
      omega
    rw [List.foldl_cons, List.foldl_cons, List.foldl_nil, push_first, push_second,
      flush_rest _ _ (by decide), hbits, padded]
    simp only [List.length_append, List.length_singleton]
    have hmissing : (4 - (out.length + 1 + 1 + 1) % 4) % 4 = 1 := by omega
    have hupper : a.toNat * 65536 / 262144 = (a.toNat * 65536 + b.toNat * 256) / 262144 := by omega
    rw [hmissing, encode, hupper, List.append_assoc, List.append_assoc, List.append_assoc]
    rfl
  | a :: b :: c :: rest, val, out, h => by
    have ha := a.toNat_lt
    have hb := b.toNat_lt
    have hc := c.toNat_lt
    rw [List.foldl_cons, List.foldl_cons, List.foldl_cons, push_first, push_second, push_third,
      encoder_eq rest, encode]
    · have hupper : a.toNat * 65536 / 262144 =
          (a.toNat * 65536 + b.toNat * 256 + c.toNat) / 262144 := by omega
      have hsecond : (a.toNat * 65536 + b.toNat * 256) / 4096 % 64 =
          (a.toNat * 65536 + b.toNat * 256 + c.toNat) / 4096 % 64 := by omega
      rw [hupper, hsecond]
      simp only [List.append_assoc, List.cons_append, List.nil_append]
    · simp only [List.length_append, List.length_singleton]
      omega

theorem base64Encode_eq (data : Bytes) : base64Encode data = encode data :=
  encoder_eq data 0 [] rfl

/-- The groups of the session's encoder are those of the loop. -/
theorem session_base64Encode (data : Bytes) : Session.base64Encode data = base64Encode data := by
  rw [base64Encode_eq]
  induction data using Session.base64Encode.induct with
  | case1 => rfl
  | case2 a =>
    have ha := a.toNat_lt
    have hupper : a.toNat / 4 = a.toNat * 65536 / 262144 := by omega
    have hlower : a.toNat % 4 * 16 = a.toNat * 65536 / 4096 % 64 := by omega
    rw [Session.base64Encode, encode, ← hupper, ← hlower]
    rfl
  | case3 a b =>
    have ha := a.toNat_lt
    have hb := b.toNat_lt
    generalize hval : a.toNat * 256 + b.toNat = val
    have hbits : a.toNat * 65536 + b.toNat * 256 = val * 256 := by
      rw [← hval]
      ring
    have hupper : val / 1024 = val * 256 / 262144 := by omega
    have hmiddle : val / 16 % 64 = val * 256 / 4096 % 64 := by omega
    have hlower : val % 16 * 4 = val * 256 / 64 % 64 := by omega
    rw [Session.base64Encode, encode, hbits, hval, ← hupper, ← hmiddle, ← hlower]
    rfl
  | case4 a b c rest ih =>
    have hbits : a.toNat * 65536 + b.toNat * 256 + c.toNat =
        (a.toNat * 256 + b.toNat) * 256 + c.toNat := by ring
    rw [Session.base64Encode, encode, hbits, ih]
    rfl

/-! ## The credentials -/

/-- What SASL PLAIN has a client send. -/
def plain (username password : Bytes) : Bytes := 0 :: username ++ 0 :: password

/-- The commands authenticate with the response, in chunks that a server takes. -/
def Authenticates (response : Bytes) (sent : List Bytes) : Prop :=
  ∃ chunks : List Bytes, sent = chunks.map (fun chunk => sendIrcCommand (ascii "AUTHENTICATE " ++ chunk)) ∧
    chunks.flatten = encode response ∧ ∀ chunk ∈ chunks, chunk.length ≤ 400

theorem sendIrcCommand_text {chunk : Bytes} (h : lineFeed ∉ chunk) :
    sendIrcCommand (ascii "AUTHENTICATE " ++ chunk) = ascii "AUTHENTICATE " ++ chunk ++ [lineFeed] := by
  rw [sendIrcCommand, if_neg]
  intro hlast
  have hmem := List.mem_of_getLast? hlast
  cases List.mem_append.mp hmem with
  | inl hword =>
    revert hword
    decide
  | inr hchunk => exact h hchunk

theorem lineFeed_not_mem_encode (data : Bytes) : lineFeed ∉ encode data := by
  intro hmem
  cases mem_encode data lineFeed hmem with
  | inl halphabet =>
    revert halphabet
    decide
  | inr hpad => cases hpad

/-- One command with the name and the password run together. -/
theorem handleSaslAuth_sent (s : Session) {line : Bytes}
    (h : contains (ascii "AUTHENTICATE +") line = true) : (s.handleSaslAuth line).sent =
      s.sent ++ [sendIrcCommand (ascii "AUTHENTICATE " ++
        base64Encode (s.saslUsername ++ s.saslPassword))] := by
  rw [Session.handleSaslAuth, if_pos h, session_base64Encode]
  rfl

/-- One command authenticates with nothing but the response it encodes. -/
theorem response_of_one {response data : Bytes}
    (h : Authenticates response [sendIrcCommand (ascii "AUTHENTICATE " ++ encode data)]) :
    response = data := by
  obtain ⟨chunks, hsent, hwhole, -⟩ := h
  have hone : chunks.length = 1 := by
    have hlength := congrArg List.length hsent
    rw [List.length_map] at hlength
    exact hlength.symm
  obtain ⟨chunk, rfl⟩ := List.length_eq_one_iff.mp hone
  rw [List.flatten_singleton] at hwhole
  have hcommand : sendIrcCommand (ascii "AUTHENTICATE " ++ encode data) =
      sendIrcCommand (ascii "AUTHENTICATE " ++ chunk) := List.head_eq_of_cons_eq hsent
  rw [hwhole, sendIrcCommand_text (lineFeed_not_mem_encode _),
    sendIrcCommand_text (lineFeed_not_mem_encode _)] at hcommand
  exact (encode_injective (List.append_cancel_left (List.append_cancel_right hcommand))).symm

/-- Whatever the credentials, SASL PLAIN is not what is sent. -/
theorem plain_never_sent (s : Session) (line : Bytes)
    (h : contains (ascii "AUTHENTICATE +") line = true) (sent : List Bytes)
    (hsent : (s.handleSaslAuth line).sent = s.sent ++ sent) :
    ¬ Authenticates (plain s.saslUsername s.saslPassword) sent := by
  rw [handleSaslAuth_sent s h] at hsent
  have hone := List.append_cancel_left hsent
  rw [← hone, base64Encode_eq]
  intro hauthenticates
  have hlength := congrArg List.length (response_of_one hauthenticates)
  simp only [plain, List.cons_append, List.length_cons, List.length_append] at hlength
  omega

def jane : Session where
  channel := ascii "#sea"
  password := []
  useSasl := true
  saslUsername := ascii "jane"
  saslPassword := ascii "secret"
  customNickname := []
  baseNickname := ascii "jane"

theorem jane_not_plain :
    ¬ Authenticates (plain (ascii "jane") (ascii "secret"))
      [sendIrcCommand (ascii "AUTHENTICATE amFuZXNlY3JldA==")] := by
  refine plain_never_sent jane (ascii "AUTHENTICATE +") (by decide) _ ?_
  decide

/-- The server asks for the credentials, and gets others. -/
theorem sasl_plain_missed :
    ¬ ∀ (s : Session) (line : Bytes) (sent : List Bytes),
      contains (ascii "AUTHENTICATE +") line = true →
      (s.handleSaslAuth line).sent = s.sent ++ sent →
      Authenticates (plain s.saslUsername s.saslPassword) sent := by
  intro h
  have hsent : Authenticates (plain (ascii "jane") (ascii "secret"))
      [sendIrcCommand (ascii "AUTHENTICATE " ++ encode (ascii "janesecret"))] :=
    h jane (ascii "AUTHENTICATE +") _ (by decide) (by decide)
  have hresponse := response_of_one hsent
  revert hresponse
  decide

end Tim2Tox.IrcSasl
