import Mathlib.Data.List.Nodup
import Mathlib.Logic.Function.Basic
import Tim2Tox.DartText
import Tim2Tox.LabelledRuns

set_option autoImplicit false

/-!
# Generated message ids

An id is an instant and a user, with a number between them when the instant is not newer than the
user's last one. The numbers start again at every newer instant.
-/
namespace Tim2Tox.MessageIds
open DartText LabelledRuns

/-- What an id is built from. -/
structure MessageId where
  timestamp : ℤ
  sequence : Option ℤ
  userId : Units
  deriving DecidableEq

/-- The string; 95 is the underscore. -/
def MessageId.text (m : MessageId) : Units :=
  match m.sequence with
  | none => decimal m.timestamp ++ 95 :: m.userId
  | some sequence => decimal m.timestamp ++ 95 :: (decimal sequence ++ 95 :: m.userId)

structure MessageIdGenerator where
  sequenceByUser : Units → Option ℤ := fun _ => none
  lastTimestampByUser : Units → Option ℤ := fun _ => none

namespace MessageIdGenerator

def number (g : MessageIdGenerator) (user : Units) : ℤ := (g.sequenceByUser user).getD 0
def last (g : MessageIdGenerator) (user : Units) : ℤ := (g.lastTimestampByUser user).getD 0

def normalizeUserId (userId : Units) : Units :=
  let trimmed := trim userId
  if trimmed.length > 64 then trimmed.take 64 else trimmed

def generate (g : MessageIdGenerator) (userId : Units) (now : ℤ) : MessageId × MessageIdGenerator :=
  let normalizedUserId := normalizeUserId userId
  let lastTs := g.last normalizedUserId
  if now ≤ lastTs then
    let sequence := g.number normalizedUserId + 1
    (⟨lastTs, some sequence, normalizedUserId⟩,
      { sequenceByUser := Function.update g.sequenceByUser normalizedUserId (some sequence)
        lastTimestampByUser :=
          Function.update g.lastTimestampByUser normalizedUserId (some lastTs) })
  else
    (⟨now, none, normalizedUserId⟩,
      { sequenceByUser := Function.update g.sequenceByUser normalizedUserId (some 0)
        lastTimestampByUser := Function.update g.lastTimestampByUser normalizedUserId (some now) })

def generateWithTimestamp (g : MessageIdGenerator) (userId : Units) (timestamp : ℤ) :
    MessageId × MessageIdGenerator :=
  let normalizedUserId := normalizeUserId userId
  let lastTs := g.last normalizedUserId
  if timestamp ≤ lastTs then
    let sequence := g.number normalizedUserId + 1
    (⟨timestamp, some sequence, normalizedUserId⟩,
      { g with
        sequenceByUser := Function.update g.sequenceByUser normalizedUserId (some sequence) })
  else
    (⟨timestamp, none, normalizedUserId⟩,
      { sequenceByUser := Function.update g.sequenceByUser normalizedUserId (some 0)
        lastTimestampByUser :=
          Function.update g.lastTimestampByUser normalizedUserId (some timestamp) })

end MessageIdGenerator

open MessageIdGenerator

def parse (msgID : Units) : Option MessageId :=
  match msgID.splitOn 95 with
  | [timestamp, userId] => (tryParse timestamp).map fun timestamp => ⟨timestamp, none, userId⟩
  | [timestamp, sequence, userId] => (tryParse timestamp).bind fun timestamp =>
      (tryParse sequence).map fun sequence => ⟨timestamp, some sequence, userId⟩
  | _ => none

/-! ## Calls -/

inductive Call where
  | generate (userId : Units) (now : ℤ)
  | generateWithTimestamp (userId : Units) (timestamp : ℤ)

namespace Call

def user : Call → Units
  | generate userId _ => normalizeUserId userId
  | generateWithTimestamp userId _ => normalizeUserId userId

def instant : Call → ℤ
  | generate _ now => now
  | generateWithTimestamp _ timestamp => timestamp

end Call

def issue (g : MessageIdGenerator) : Call → MessageId × MessageIdGenerator
  | .generate userId now => g.generate userId now
  | .generateWithTimestamp userId timestamp => g.generateWithTimestamp userId timestamp

/-- A generator, the ids it returned and those of them from before the last newer instant of their
    user. -/
structure Session where
  generator : MessageIdGenerator := {}
  ids : List MessageId := []
  spent : List MessageId := []

def step (s : Session) (call : Call) : Option Session :=
  let m := (issue s.generator call).1
  some
    { generator := (issue s.generator call).2
      ids := s.ids ++ [m]
      spent := if m.sequence = none then s.spent ++ s.ids.filter (·.userId = m.userId)
        else s.spent }

/-- Without an underscore in the user; an older instant does not get a number it had before the
    numbers started again. -/
def Separated (s : Session) : Call → Prop
  | .generate userId _ => 95 ∉ normalizeUserId userId
  | .generateWithTimestamp userId timestamp => 95 ∉ normalizeUserId userId ∧
      (timestamp < s.generator.last (normalizeUserId userId) →
        (⟨timestamp, some (s.generator.number (normalizeUserId userId) + 1),
          normalizeUserId userId⟩ : MessageId) ∉ s.spent)

instance (s : Session) (call : Call) : Decidable (Separated s call) := by
  cases call with
  | generate userId now => exact inferInstanceAs (Decidable (95 ∉ normalizeUserId userId))
  | generateWithTimestamp userId timestamp => exact inferInstanceAs (Decidable (_ ∧ _))

/-! ## Parsing -/

theorem splitOn_text (m : MessageId) : m.text.splitOn 95 =
    decimal m.timestamp :: ((m.sequence.map decimal).toList ++ m.userId.splitOn 95) := by
  rw [MessageId.text]
  cases m.sequence with
  | none => exact List.splitOn_append_cons_self_of_not_mem (decimal_no_separator _) _
  | some sequence =>
    dsimp only
    rw [List.splitOn_append_cons_self_of_not_mem (decimal_no_separator _),
      List.splitOn_append_cons_self_of_not_mem (decimal_no_separator _)]
    rfl

theorem parse_text {m : MessageId} (h : 95 ∉ m.userId) : parse m.text = some m := by
  rw [parse, splitOn_text, List.splitOn_eq_singleton h]
  obtain ⟨timestamp, sequence, userId⟩ := m
  cases sequence with
  | none =>
    change (tryParse (decimal timestamp)).map _ = _
    rw [tryParse_decimal]
    rfl
  | some sequence =>
    change (tryParse (decimal timestamp)).bind _ = _
    rw [tryParse_decimal]
    change (tryParse (decimal sequence)).map _ = _
    rw [tryParse_decimal]
    rfl

/-- An underscore in the user makes one part too many. -/
theorem parse_text_iff {m : MessageId} : parse m.text = some m ↔ 95 ∉ m.userId := by
  constructor
  · intro h hmem
    obtain ⟨before, after, hsplit⟩ := List.append_of_mem hmem
    obtain ⟨x, xs, hx⟩ := List.exists_cons_of_ne_nil (List.splitOn_ne_nil 95 before)
    obtain ⟨y, ys, hy⟩ := List.exists_cons_of_ne_nil (List.splitOn_ne_nil 95 after)
    have hparts : ∃ a b rest, m.userId.splitOn 95 = a :: b :: rest := by
      rw [hsplit, List.splitOn_append_cons_self, hx, hy]
      cases xs with
      | nil => exact ⟨x, y, ys, rfl⟩
      | cons z zs => exact ⟨x, z, zs ++ y :: ys, rfl⟩
    obtain ⟨a, b, rest, hparts⟩ := hparts
    rw [parse, splitOn_text, hparts] at h
    obtain ⟨timestamp, sequence, userId⟩ := m
    cases sequence with
    | none =>
      cases rest with
      | nil =>
        obtain ⟨t, -, h⟩ := Option.bind_eq_some_iff.mp h
        obtain ⟨q, -, h⟩ := Option.map_eq_some_iff.mp h
        cases h
      | cons c rest => cases h
    | some sequence => cases h
  · exact parse_text

theorem text_inj {m m' : MessageId} (h : 95 ∉ m.userId) (h' : 95 ∉ m'.userId)
    (heq : m.text = m'.text) : m = m' := by
  have hparse := parse_text h
  rw [heq, parse_text h'] at hparse
  exact (Option.some.inj hparse).symm

/-! ## One call -/

theorem getD_update (f : Units → Option ℤ) (user : Units) (x : ℤ) (v : Units) :
    (Function.update f user (some x) v).getD 0 = if v = user then x else (f v).getD 0 := by
  rw [Function.update_apply]
  split_ifs <;> rfl

theorem issue_cases (g : MessageIdGenerator) (call : Call) :
    (g.last call.user < call.instant ∧ (issue g call).1 = ⟨call.instant, none, call.user⟩ ∧
      (∀ v, (issue g call).2.last v = if v = call.user then call.instant else g.last v) ∧
      ∀ v, (issue g call).2.number v = if v = call.user then 0 else g.number v) ∨
    ∃ t, t ≤ g.last call.user ∧
      (t < g.last call.user → ∃ userId, call = .generateWithTimestamp userId t) ∧
      (issue g call).1 = ⟨t, some (g.number call.user + 1), call.user⟩ ∧
      (∀ v, (issue g call).2.last v = g.last v) ∧
      ∀ v, (issue g call).2.number v = if v = call.user then g.number call.user + 1 else g.number v := by
  cases call with
  | generate userId now =>
    by_cases hle : now ≤ g.last (normalizeUserId userId)
    · right
      refine ⟨g.last (normalizeUserId userId), Int.le_refl _,
        fun hlt => absurd hlt (Int.lt_irrefl _), ?_⟩
      rw [issue, MessageIdGenerator.generate, if_pos hle]
      refine ⟨rfl, ?_, getD_update _ _ _⟩
      intro v
      refine (getD_update _ _ _ v).trans ?_
      split_ifs with heq
      · rw [heq]
      · rfl
    · left
      rw [issue, MessageIdGenerator.generate, if_neg hle]
      exact ⟨Int.not_le.mp hle, rfl, getD_update _ _ _, getD_update _ _ _⟩
  | generateWithTimestamp userId timestamp =>
    by_cases hle : timestamp ≤ g.last (normalizeUserId userId)
    · right
      rw [issue, MessageIdGenerator.generateWithTimestamp, if_pos hle]
      exact ⟨timestamp, hle, fun _ => ⟨userId, rfl⟩, rfl, fun _ => rfl, getD_update _ _ _⟩
    · left
      rw [issue, MessageIdGenerator.generateWithTimestamp, if_neg hle]
      exact ⟨Int.not_le.mp hle, rfl, getD_update _ _ _, getD_update _ _ _⟩

/-- What the calls that are separated keep: a number is above those given since the numbers
    started again, and what was given before is older than the last instant. -/
structure Kept (s : Session) : Prop where
  plain : ∀ m ∈ s.ids, 95 ∉ m.userId
  bound : ∀ m ∈ s.ids, m.timestamp ≤ s.generator.last m.userId
  numbered : ∀ m ∈ s.ids, ∀ q, m.sequence = some q → m ∈ s.spent ∨ q ≤ s.generator.number m.userId
  spent : ∀ m ∈ s.spent, m.timestamp < s.generator.last m.userId
  nodup : s.ids.Nodup

theorem separated_plain {s : Session} {call : Call} (h : Separated s call) : 95 ∉ call.user := by
  cases call with
  | generate userId now => exact h
  | generateWithTimestamp userId timestamp => exact h.1

theorem Kept.step {s u : Session} {call : Call} (h : Kept s) (hsep : Separated s call)
    (hu : step s call = some u) : Kept u := by
  have hplain := separated_plain hsep
  have hids : ∀ {m x : MessageId}, x ∈ s.ids ++ [m] → x ∈ s.ids ∨ x = m := by
    intro m x hx
    rcases List.mem_append.mp hx with hold | hnew
    · exact .inl hold
    · exact .inr (List.mem_singleton.mp hnew)
  have hu := Option.some.inj hu
  subst hu
  rcases issue_cases s.generator call with
    ⟨hnewer, hm, hlast, hnumber⟩ | ⟨t, hle, holder, hm, hlast, hnumber⟩
  · -- a newer instant: the ids of the user are spent
    refine ⟨?_, ?_, ?_, ?_, ?_⟩
    · intro m hmem
      rcases hids hmem with hold | rfl
      · exact h.plain m hold
      · rw [hm]
        exact hplain
    · intro m hmem
      rw [hlast]
      rcases hids hmem with hold | rfl
      · have hbound := h.bound m hold
        split_ifs with heq
        · rw [heq] at hbound
          omega
        · exact hbound
      · apply Int.le_of_eq
        rw [hm, if_pos rfl]
    · intro m hmem q hq
      rcases hids hmem with hold | rfl
      · rw [hnumber, hm, if_pos rfl]
        by_cases heq : m.userId = call.user
        · left
          apply List.mem_append_right
          rw [List.mem_filter, decide_eq_true_eq]
          exact ⟨hold, heq⟩
        · rcases h.numbered m hold q hq with hspent | hsmall
          · exact .inl (List.mem_append_left _ hspent)
          · rw [if_neg heq]
            exact .inr hsmall
      · rw [hm] at hq
        cases hq
    · intro m hmem
      rw [hm, if_pos rfl] at hmem
      rw [hlast]
      rcases List.mem_append.mp hmem with hspent | hnow
      · have hbefore := h.spent m hspent
        split_ifs with heq
        · rw [heq] at hbefore
          omega
        · exact hbefore
      · rw [List.mem_filter, decide_eq_true_eq] at hnow
        have hbound := h.bound m hnow.1
        have heq : m.userId = call.user := hnow.2
        rw [heq] at hbound
        rw [if_pos heq]
        omega
    · rw [← List.concat_eq_append]
      apply h.nodup.concat
      intro hmem
      have hbound := h.bound _ hmem
      rw [hm] at hbound
      exact absurd hnewer (Int.not_lt.mpr hbound)
  · -- the next number of the user
    have hsequence : (issue s.generator call).1.sequence ≠ none := by
      rw [hm]
      exact Option.some_ne_none _
    refine ⟨?_, ?_, ?_, ?_, ?_⟩
    · intro m hmem
      rcases hids hmem with hold | rfl
      · exact h.plain m hold
      · rw [hm]
        exact hplain
    · intro m hmem
      rw [hlast]
      rcases hids hmem with hold | rfl
      · exact h.bound m hold
      · rw [hm]
        exact hle
    · intro m hmem q hq
      rw [hnumber, if_neg hsequence]
      rcases hids hmem with hold | rfl
      · rcases h.numbered m hold q hq with hspent | hsmall
        · exact .inl hspent
        · right
          split_ifs with heq
          · rw [heq] at hsmall
            omega
          · exact hsmall
      · rw [hm] at hq ⊢
        rw [if_pos rfl, ← Option.some.inj hq]
        exact .inr (Int.le_refl _)
    · intro m hmem
      rw [if_neg hsequence] at hmem
      rw [hlast]
      exact h.spent m hmem
    · rw [← List.concat_eq_append]
      apply h.nodup.concat
      intro hmem
      rw [hm] at hmem
      rcases h.numbered _ hmem _ rfl with hspent | hsmall
      · have hbefore : t < s.generator.last call.user := h.spent _ hspent
        obtain ⟨userId, rfl⟩ := holder hbefore
        exact hsep.2 hbefore hspent
      · have hsmall' : s.generator.number call.user + 1 ≤ s.generator.number call.user := hsmall
        omega

/-! ## Runs -/

def Unique (ids : List MessageId) : Prop :=
  (ids.map MessageId.text).Nodup ∧ ∀ m ∈ ids, parse m.text = some m

theorem Kept.unique {s : Session} (h : Kept s) : Unique s.ids := by
  refine ⟨?_, fun m hm => parse_text (h.plain m hm)⟩
  apply List.Nodup.map_on _ h.nodup
  intro m hm m' hm' heq
  exact text_inj (h.plain m hm) (h.plain m' hm') heq

/-- Ids that were returned stay returned. -/
theorem ids_prefix {s u : Session} {calls : List Call} (hr : exec step s calls = some u) :
    s.ids <+: u.ids := by
  induction calls generalizing s with
  | nil =>
    rw [exec_nil] at hr
    obtain rfl := Option.some.inj hr
    exact List.prefix_rfl
  | cons call calls ih =>
    obtain ⟨v, hv, hu⟩ := exec_cons.mp hr
    rw [← Option.some.inj hv] at hu
    exact (List.prefix_append _ _).trans (ih hu)

/-- An id that was returned twice is the one that was not separated. -/
theorem meets_of_unique {s u : Session} {calls : List Call} (hspent : ∀ m ∈ s.spent, m ∈ s.ids)
    (hr : exec step s calls = some u) (hunique : Unique u.ids) : Meets step Separated s calls := by
  induction calls generalizing s with
  | nil => trivial
  | cons call calls ih =>
    obtain ⟨v, hv, hu⟩ := exec_cons.mp hr
    have hnext := ids_prefix hu
    have hids : v.ids = s.ids ++ [(issue s.generator call).1] := by
      rw [← Option.some.inj hv]
    have hmem : (issue s.generator call).1 ∈ u.ids := by
      apply hnext.subset
      rw [hids]
      exact List.mem_append_right _ (List.mem_singleton_self _)
    have hplain := parse_text_iff.mp (hunique.2 _ hmem)
    have hnew : (issue s.generator call).1 ∉ s.ids := by
      intro hold
      have hnodup := (List.Nodup.of_map _ hunique.1).sublist hnext.sublist
      rw [hids] at hnodup
      exact (List.nodup_append.mp hnodup).2.2 _ hold _ (List.mem_singleton_self _) rfl
    have hsep : Separated s call := by
      rcases issue_cases s.generator call with ⟨hnewer, hm, -⟩ | ⟨t, hle, holder, hm, -⟩
      · rw [hm] at hplain
        cases call with
        | generate userId now => exact hplain
        | generateWithTimestamp userId timestamp =>
          exact ⟨hplain, fun hlt => absurd hlt (Int.not_lt.mpr (Int.le_of_lt hnewer))⟩
      · rw [hm] at hplain hnew
        cases call with
        | generate userId now => exact hplain
        | generateWithTimestamp userId timestamp =>
          refine ⟨hplain, fun hlt hmem => ?_⟩
          have heq := hm
          rw [issue, MessageIdGenerator.generateWithTimestamp, if_pos (Int.le_of_lt hlt)] at heq
          rw [← heq] at hnew
          exact hnew (hspent _ hmem)
    refine ⟨hsep, fun w hw => ?_⟩
    rw [hw] at hv
    rw [Option.some.inj hv]
    apply ih _ hu
    intro m hm
    rw [hids]
    rw [← Option.some.inj hv, ← Option.some.inj hw] at hm
    change m ∈ (if _ then _ else _) at hm
    split_ifs at hm
    · rcases List.mem_append.mp hm with hm | hm
      · exact List.mem_append_left _ (hspent m hm)
      · exact List.mem_append_left _ (List.mem_filter.mp hm).1
    · exact List.mem_append_left _ (hspent m hm)

theorem kept_empty : Kept {} := by
  refine ⟨?_, ?_, ?_, ?_, List.nodup_nil⟩ <;> intro m hm <;> cases hm

theorem generated_ids_unique_iff (calls : List Call) (s : Session)
    (hr : exec step {} calls = some s) : Unique s.ids ↔ Meets step Separated {} calls := by
  constructor
  · intro hunique
    apply meets_of_unique _ hr hunique
    intro m hm
    cases hm
  · intro hmeets
    have hkept : Kept s :=
      invariant_of_meets (fun _ _ _ h hsep hu => h.step hsep hu) kept_empty hmeets hr
    exact hkept.unique

/-- A clock that repeats and goes back, and an import of older messages. -/
def importing : List Call :=
  [.generate (ofString " bob ") 100, .generate (ofString "bob") 100, .generate (ofString "bob") 90,
    .generateWithTimestamp (ofString "bob") 50, .generate (ofString "eve") 90,
    .generate (ofString "bob") 120, .generateWithTimestamp (ofString "bob") 60]

theorem importing_unique : ∃ s, exec step {} importing = some s ∧ s.ids.length = 7 ∧
    Unique s.ids :=
  ⟨_, rfl, rfl, (generated_ids_unique_iff importing _ rfl).mpr (by decide)⟩

/-- The numbers start again at 200, and the second import of 50 gets the first number again. A user
    with an underscore is not read back. -/
theorem older_instant_repeats :
    (∃ s, exec step {} [.generateWithTimestamp (ofString "bob") 100,
        .generateWithTimestamp (ofString "bob") 50, .generate (ofString "bob") 200,
        .generateWithTimestamp (ofString "bob") 50] = some s ∧
      s.ids.map MessageId.text = [ofString "100_bob", ofString "50_1_bob", ofString "200_bob",
        ofString "50_1_bob"] ∧ ¬ (s.ids.map MessageId.text).Nodup) ∧
    ∃ s, exec step {} [.generate (ofString "tox_bot") 100] = some s ∧
      s.ids.map (fun m => parse m.text) = [none] :=
  ⟨⟨_, rfl, by decide, by decide⟩, _, rfl, by decide⟩

end Tim2Tox.MessageIds
