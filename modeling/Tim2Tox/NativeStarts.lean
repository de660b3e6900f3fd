import Mathlib.Data.List.AList
import Tim2Tox.LabelledRuns

set_option autoImplicit false

/-!
# Native starts of outgoing calls

`TUICallKitAdapter` lets one setup of a user start its native call at a time: each waits for the lease of
the one before it and holds its own until the setup is done.
-/
namespace Tim2Tox.NativeStarts
open LabelledRuns

/-- Before `startCall`, while it runs, and from its answer on to the end of `_handleCall`. -/
inductive Phase where
  | waiting
  | starting
  | settling
  | released
  deriving DecidableEq

/-- `_NativeStartLease`; `session` counts the disposals before it. -/
structure Lease where
  userID : String
  previous : Option ℕ
  session : ℕ
  phase : Phase
  deriving DecidableEq

/-- Of one user, with no disposal in between. -/
def Lease.Joins (first second : Lease) : Prop := first.userID = second.userID ∧ first.session = second.session

/-- The leases in the order they were asked for, and of each user the last one not released. -/
structure Adapter where
  leases : List Lease := []
  nativeStartTails : AList (fun _ : String => ℕ) := ∅
  disposals : ℕ := 0

inductive Event where
  | start (userID : String)
  | resumes (place : ℕ)
  | answered (place : ℕ)
  | releases (place : ℕ)
  | dispose

namespace Adapter

/-- `_startCallWithLease`, up to the first thing it waits for. -/
def startCallWithLease (s : Adapter) (userID : String) : Adapter :=
  let previous := s.nativeStartTails.lookup userID
  { s with
    leases := s.leases ++ [⟨userID, previous, s.disposals, if previous.isSome then .waiting else .starting⟩]
    nativeStartTails := s.nativeStartTails.insert userID s.leases.length }

def isReleased (s : Adapter) (place : ℕ) : Bool := s.leases[place]?.any fun lease => lease.phase = .released

def enter (s : Adapter) (place : ℕ) (lease : Lease) (phase : Phase) : Adapter :=
  { s with leases := s.leases.set place { lease with phase } }

def release (s : Adapter) (place : ℕ) (lease : Lease) : Adapter :=
  { s.enter place lease .released with
    nativeStartTails := if s.nativeStartTails.lookup lease.userID = some place
      then s.nativeStartTails.erase lease.userID else s.nativeStartTails }

def dispose (s : Adapter) : Adapter := { s with nativeStartTails := ∅, disposals := s.disposals + 1 }

/-- The lease at the place, if it is in the phase. -/
def leaseIn (s : Adapter) (place : ℕ) (phase : Phase) : Option Lease :=
  s.leases[place]?.filter fun lease => lease.phase = phase

def step (s : Adapter) : Event → Option Adapter
  | .start userID => some (s.startCallWithLease userID)
  | .resumes place => ((s.leaseIn place .waiting).filter fun lease => lease.previous.all s.isReleased).map
    (s.enter place · .starting)
  | .answered place => (s.leaseIn place .starting).map (s.enter place · .settling)
  | .releases place => (s.leaseIn place .settling).map (s.release place)
  | .dispose => some s.dispose

/-! ## The chain of a user -/

variable {s u : Adapter}

structure Chained (s : Adapter) : Prop where
  tail : ∀ userID n, s.nativeStartTails.lookup userID = some n → ∃ lease, s.leases[n]? = some lease ∧
    lease.userID = userID ∧ lease.session = s.disposals ∧ lease.phase ≠ .released ∧
    ∀ (m : ℕ) later, n < m → s.leases[m]? = some later → later.userID ≠ userID
  free : ∀ userID, s.nativeStartTails.lookup userID = none → ∀ (n : ℕ) lease, s.leases[n]? = some lease →
    lease.userID = userID → lease.session = s.disposals → lease.phase = .released
  sessions : ∀ (n : ℕ) lease, s.leases[n]? = some lease → lease.session ≤ s.disposals
  waits : ∀ (n : ℕ) lease, s.leases[n]? = some lease → lease.phase = .waiting → ∃ p, lease.previous = some p
  behind : ∀ (n p : ℕ) lease, s.leases[n]? = some lease → lease.previous = some p → p < n ∧
    ∃ first, s.leases[p]? = some first ∧ Lease.Joins first lease ∧
      ∀ (k : ℕ) between, p < k → k < n → s.leases[k]? = some between → ¬ Lease.Joins between lease
  ahead : ∀ (n : ℕ) lease, s.leases[n]? = some lease → lease.phase ≠ .waiting →
    ∀ (m : ℕ) earlier, m < n → s.leases[m]? = some earlier → Lease.Joins earlier lease → earlier.phase = .released

theorem Chained.initial : Chained {} where
  tail := fun userID n h => absurd (h.symm.trans (AList.lookup_empty userID)) (Option.some_ne_none n)
  free := fun _ _ _ _ h => absurd h.symm (Option.some_ne_none _)
  sessions := fun _ lease h => absurd h.symm (Option.some_ne_none lease)
  waits := fun _ lease h => absurd h.symm (Option.some_ne_none lease)
  behind := fun _ _ lease h => absurd h.symm (Option.some_ne_none lease)
  ahead := fun _ lease h => absurd h.symm (Option.some_ne_none lease)

/-- What the list holds after a new lease: the old ones and, at its end, the new one. -/
theorem append_cases {leases : List Lease} {new lease : Lease} {n : ℕ} (h : (leases ++ [new])[n]? = some lease) :
    leases[n]? = some lease ∧ n < leases.length ∨ n = leases.length ∧ lease = new := by
  rcases Nat.lt_trichotomy n leases.length with hless | heq | hmore
  · rw [List.getElem?_append_left hless] at h
    exact .inl ⟨h, hless⟩
  · rw [heq, List.getElem?_concat_length] at h
    exact .inr ⟨heq, (Option.some.inj h).symm⟩
  · rw [List.getElem?_eq_none (by rw [List.length_append]; exact hmore)] at h
    contradiction

theorem Chained.start (h : s.Chained) (userID : String) : (s.startCallWithLease userID).Chained := by
  have hlength : ∀ {n : ℕ} {lease : Lease}, s.leases[n]? = some lease → n < s.leases.length :=
    fun hlease => (List.getElem?_eq_some_iff.mp hlease).1
  refine ⟨fun user n htail => ?_, fun user hfree n lease hlease huser hsession => ?_, fun n lease hlease => ?_,
    fun n lease hlease hwaits => ?_, fun n p lease hlease hprevious => ?_, fun n lease hlease hphase m earlier hless hearlier hjoins => ?_⟩
  · by_cases huser : user = userID
    · rw [huser] at htail ⊢
      obtain rfl := Option.some.inj ((AList.lookup_insert _).symm.trans htail)
      refine ⟨_, List.getElem?_concat_length, rfl, rfl, ?_, fun m later hmore hlater => ?_⟩
      · dsimp only
        split_ifs <;> decide
      · rcases append_cases hlater with ⟨-, hbound⟩ | ⟨heq, -⟩ <;> omega
    · obtain ⟨lease, hlease, hname, hsession, hphase, hlast⟩ := h.tail user n ((AList.lookup_insert_ne huser).symm.trans htail)
      refine ⟨lease, (List.getElem?_append_left (hlength hlease)).trans hlease, hname, hsession, hphase,
        fun m later hmore hlater => ?_⟩
      rcases append_cases hlater with ⟨hold, -⟩ | ⟨-, rfl⟩
      · exact hlast m later hmore hold
      · exact Ne.symm huser
  · by_cases hne : user = userID
    · rw [hne] at hfree
      exact absurd ((AList.lookup_insert _).symm.trans hfree) (Option.some_ne_none _)
    · have hold := (AList.lookup_insert_ne hne).symm.trans hfree
      rcases append_cases hlease with ⟨hthere, -⟩ | ⟨-, rfl⟩
      · exact h.free user hold n lease hthere huser hsession
      · exact absurd huser.symm hne
  · rcases append_cases hlease with ⟨hthere, -⟩ | ⟨-, rfl⟩
    · exact h.sessions n lease hthere
    · exact Nat.le_refl _
  · rcases append_cases hlease with ⟨hthere, -⟩ | ⟨-, rfl⟩
    · exact h.waits n lease hthere hwaits
    · cases hprevious : s.nativeStartTails.lookup userID with
      | some p => exact ⟨p, rfl⟩
      | none =>
        rw [hprevious] at hwaits
        contradiction
  · rcases append_cases hlease with ⟨hthere, hbound⟩ | ⟨heq, rfl⟩
    · obtain ⟨hless, first, hfirst, hjoins, hbetween⟩ := h.behind n p lease hthere hprevious
      refine ⟨hless, first, (List.getElem?_append_left (hlength hfirst)).trans hfirst, hjoins, fun k between hk hkn hat => ?_⟩
      rcases append_cases hat with ⟨hmiddle, -⟩ | ⟨hk', -⟩
      · exact hbetween k between hk hkn hmiddle
      · omega
    · obtain ⟨first, hfirst, hname, hsession, -, hlast⟩ := h.tail userID p hprevious
      refine ⟨heq ▸ hlength hfirst, first, (List.getElem?_append_left (hlength hfirst)).trans hfirst,
        ⟨hname, hsession⟩, fun k between hk hkn hat hjoins => ?_⟩
      rcases append_cases hat with ⟨hmiddle, -⟩ | ⟨hk', -⟩
      · exact hlast k between hk hmiddle hjoins.1
      · omega
  · have hbefore : s.leases[m]? = some earlier := by
      rcases append_cases hearlier with ⟨hold, -⟩ | ⟨heq, -⟩
      · exact hold
      · rcases append_cases hlease with ⟨-, hbound⟩ | ⟨hn, -⟩ <;> omega
    rcases append_cases hlease with ⟨hthere, -⟩ | ⟨-, rfl⟩
    · exact h.ahead n lease hthere hphase m earlier hless hbefore hjoins
    · cases hprevious : s.nativeStartTails.lookup userID with
      | some p =>
        rw [hprevious] at hphase
        exact absurd rfl hphase
      | none => exact h.free userID hprevious m earlier hbefore hjoins.1 hjoins.2

/-! ## Leases move on -/

variable {place : ℕ} {lease : Lease}

/-- One lease of the list enters a phase. -/
theorem set_cases {leases : List Lease} (hplace : leases[place]? = some lease) {phase : Phase} {n : ℕ} {new : Lease}
    (h : (leases.set place { lease with phase })[n]? = some new) :
    n = place ∧ new = { lease with phase } ∨ n ≠ place ∧ leases[n]? = some new := by
  have hbound := (List.getElem?_eq_some_iff.mp hplace).1
  by_cases heq : n = place
  · rw [heq, List.getElem?_set_self hbound] at h
    exact .inl ⟨heq, (Option.some.inj h).symm⟩
  · rw [List.getElem?_set_ne (Ne.symm heq)] at h
    exact .inr ⟨heq, h⟩

/-- Whoever enters a phase was there before, under the same name. -/
theorem set_before {leases : List Lease} (hplace : leases[place]? = some lease) {phase : Phase} {n : ℕ} {new : Lease}
    (h : (leases.set place { lease with phase })[n]? = some new) : ∃ old, leases[n]? = some old ∧
      new.userID = old.userID ∧ new.session = old.session ∧ new.previous = old.previous := by
  rcases set_cases hplace h with ⟨rfl, rfl⟩ | ⟨-, hold⟩
  · exact ⟨lease, hplace, rfl, rfl, rfl⟩
  · exact ⟨new, hold, rfl, rfl, rfl⟩

theorem getElem_set {leases : List Lease} (hplace : leases[place]? = some lease) (phase : Phase) {n : ℕ} {old : Lease}
    (h : leases[n]? = some old) : ∃ new, (leases.set place { lease with phase })[n]? = some new ∧
      new.userID = old.userID ∧ new.session = old.session ∧
      (n = place ∧ new.phase = phase ∨ n ≠ place ∧ new.phase = old.phase) := by
  by_cases heq : n = place
  · rw [heq] at h
    obtain rfl := Option.some.inj (hplace.symm.trans h)
    refine ⟨{ lease with phase }, ?_, rfl, rfl, .inl ⟨heq, rfl⟩⟩
    rw [heq, List.getElem?_set_self (List.getElem?_eq_some_iff.mp hplace).1]
  · exact ⟨old, (List.getElem?_set_ne (Ne.symm heq)).trans h, rfl, rfl, .inr ⟨heq, rfl⟩⟩

/-- A lease that is not released moves on when all before it are; the table stays right by itself. -/
theorem Chained.moves (h : s.Chained) (hplace : s.leases[place]? = some lease) {phase : Phase}
    (hphase : phase ≠ .waiting) (hheld : lease.phase ≠ .released)
    (hahead : ∀ (m : ℕ) earlier, m < place → s.leases[m]? = some earlier → Lease.Joins earlier lease →
      earlier.phase = .released)
    (hleases : u.leases = s.leases.set place { lease with phase }) (hdisposals : u.disposals = s.disposals)
    (htail : ∀ userID n, u.nativeStartTails.lookup userID = some n →
      s.nativeStartTails.lookup userID = some n ∧ (n = place → phase ≠ .released))
    (hfree : ∀ userID, u.nativeStartTails.lookup userID = none → ∀ (n : ℕ) old, s.leases[n]? = some old →
      old.userID = userID → old.session = s.disposals → n = place ∧ phase = .released ∨ old.phase = .released) :
    u.Chained := by
  refine ⟨fun userID n hn => ?_, fun userID hnone n new hnew hname hsession => ?_, fun n new hnew => ?_,
    fun n new hnew hwaits => ?_, fun n p new hnew hprevious => ?_,
    fun n new hnew hmoved m earlier hless hearlier hjoins => ?_⟩
  · obtain ⟨hold, hnot⟩ := htail userID n hn
    obtain ⟨old, hthere, hname, hsession, hunreleased, hlast⟩ := h.tail userID n hold
    obtain ⟨new, hnew, hsame, hsame', hwhich⟩ := getElem_set hplace phase hthere
    refine ⟨new, hleases ▸ hnew, hsame.trans hname, hsame'.trans (hsession.trans hdisposals.symm), ?_,
      fun m later hmore hlater => ?_⟩
    · rcases hwhich with ⟨heq, hnow⟩ | ⟨-, hnow⟩
      · rw [hnow]
        exact hnot heq
      · rw [hnow]
        exact hunreleased
    · rw [hleases] at hlater
      obtain ⟨before, hbefore, hname', -⟩ := set_before hplace hlater
      rw [hname']
      exact hlast m before hmore hbefore
  · rw [hleases] at hnew
    rw [hdisposals] at hsession
    rcases set_cases hplace hnew with ⟨heq, rfl⟩ | ⟨hne, hold⟩
    · rcases hfree userID hnone place lease hplace hname hsession with ⟨-, hreleased⟩ | hreleased
      · exact hreleased
      · exact absurd hreleased hheld
    · exact (hfree userID hnone n new hold hname hsession).resolve_left fun hboth => hne hboth.1
  · rw [hleases] at hnew
    obtain ⟨old, hold, -, hsession, -⟩ := set_before hplace hnew
    rw [hsession, hdisposals]
    exact h.sessions n old hold
  · rw [hleases] at hnew
    rcases set_cases hplace hnew with ⟨-, rfl⟩ | ⟨-, hold⟩
    · exact absurd hwaits hphase
    · exact h.waits n new hold hwaits
  · rw [hleases] at hnew
    obtain ⟨old, hold, hname, hsession, hsame⟩ := set_before hplace hnew
    obtain ⟨hless, first, hfirst, hjoins, hbetween⟩ := h.behind n p old hold (hsame.symm.trans hprevious)
    obtain ⟨first', hfirst', hname', hsession', -⟩ := getElem_set hplace phase hfirst
    refine ⟨hless, first', hleases ▸ hfirst', ⟨?_, ?_⟩, fun k between hk hkn hat hjoins' => ?_⟩
    · rw [hname', hname, hjoins.1]
    · rw [hsession', hsession, hjoins.2]
    · rw [hleases] at hat
      obtain ⟨middle, hmiddle, hname'', hsession'', -⟩ := set_before hplace hat
      exact hbetween k middle hk hkn hmiddle
        ⟨hname''.symm.trans (hjoins'.1.trans hname), hsession''.symm.trans (hjoins'.2.trans hsession)⟩
  · rw [hleases] at hnew hearlier
    rcases set_cases hplace hnew with ⟨rfl, rfl⟩ | ⟨hne, hold⟩
    · rcases set_cases hplace hearlier with ⟨heq, -⟩ | ⟨-, hbefore⟩
      · exact absurd heq (Nat.ne_of_lt hless)
      · exact hahead m earlier hless hbefore hjoins
    · rcases set_cases hplace hearlier with ⟨rfl, rfl⟩ | ⟨-, hbefore⟩
      · exact absurd (h.ahead n new hold hmoved m lease hless hplace hjoins) hheld
      · exact h.ahead n new hold hmoved m earlier hless hbefore hjoins

theorem Chained.enter (h : s.Chained) (hplace : s.leases[place]? = some lease) {phase : Phase}
    (hphase : phase ≠ .waiting) (hnot : phase ≠ .released) (hheld : lease.phase ≠ .released)
    (hahead : ∀ (m : ℕ) earlier, m < place → s.leases[m]? = some earlier → Lease.Joins earlier lease →
      earlier.phase = .released) : (s.enter place lease phase).Chained :=
  h.moves hplace hphase hheld hahead rfl rfl (fun _ _ hn => ⟨hn, fun _ => hnot⟩)
    fun userID hnone n old hold hname hsession => .inr (h.free userID hnone n old hold hname hsession)

/-- The lease before this one is released, and so are all before it. -/
theorem Chained.clear (h : s.Chained) (hplace : s.leases[place]? = some lease) {p : ℕ}
    (hprevious : lease.previous = some p) (hreleased : s.isReleased p = true) :
    ∀ (m : ℕ) earlier, m < place → s.leases[m]? = some earlier → Lease.Joins earlier lease →
      earlier.phase = .released := by
  obtain ⟨-, first, hfirst, hjoins, hbetween⟩ := h.behind place p lease hplace hprevious
  unfold isReleased at hreleased
  rw [hfirst] at hreleased
  have hphase : first.phase = .released := of_decide_eq_true hreleased
  intro m earlier hless hearlier hjoins'
  rcases Nat.lt_trichotomy m p with hbefore | rfl | hafter
  · refine h.ahead p first hfirst (by rw [hphase]; decide) m earlier hbefore hearlier ?_
    exact ⟨hjoins'.1.trans hjoins.1.symm, hjoins'.2.trans hjoins.2.symm⟩
  · obtain rfl := Option.some.inj (hfirst.symm.trans hearlier)
    exact hphase
  · exact absurd hjoins' (hbetween m earlier hafter hless hearlier)

theorem Chained.release (h : s.Chained) (hplace : s.leases[place]? = some lease) (hphase : lease.phase = .settling) :
    (s.release place lease).Chained := by
  have hwaits : lease.phase ≠ .waiting := by
    rw [hphase]
    decide
  have hahead := h.ahead place lease hplace hwaits
  refine h.moves hplace (by decide) (by rw [hphase]; decide) hahead rfl rfl (fun userID n hn => ?_)
    fun userID hnone n old hold hname hsession => ?_
  · change (if _ then _ else _ : AList fun _ : String => ℕ).lookup userID = some n at hn
    split_ifs at hn with howner
    · by_cases huser : userID = lease.userID
      · rw [huser, AList.lookup_erase] at hn
        contradiction
      · rw [AList.lookup_erase_ne huser] at hn
        refine ⟨hn, fun heq => absurd ?_ huser⟩
        obtain ⟨own, hown, hname, -⟩ := h.tail userID n hn
        rw [heq] at hown
        rw [← hname, Option.some.inj (hplace.symm.trans hown)]
    · refine ⟨hn, fun heq => absurd ?_ howner⟩
      obtain ⟨own, hown, hname, -⟩ := h.tail userID n hn
      rw [heq] at hn hown
      rw [Option.some.inj (hplace.symm.trans hown), hname]
      exact hn
  · change (if _ then _ else _ : AList fun _ : String => ℕ).lookup userID = none at hnone
    by_cases heq : n = place
    · exact .inl ⟨heq, rfl⟩
    right
    split_ifs at hnone with howner
    · by_cases huser : userID = lease.userID
      · obtain ⟨own, hown, -, hcurrent, -, hlast⟩ := h.tail lease.userID place howner
        obtain rfl := Option.some.inj (hplace.symm.trans hown)
        rcases Nat.lt_or_gt_of_ne heq with hless | hmore
        · exact hahead n old hless hold ⟨hname.trans huser, hsession.trans hcurrent.symm⟩
        · exact absurd (hname.trans huser) (hlast n old hmore hold)
      · rw [AList.lookup_erase_ne huser] at hnone
        exact h.free userID hnone n old hold hname hsession
    · exact h.free userID hnone n old hold hname hsession

theorem Chained.dispose (h : s.Chained) : s.dispose.Chained where
  tail := fun userID n hn => absurd (hn.symm.trans (AList.lookup_empty userID)) (Option.some_ne_none n)
  free := fun _ _ n lease hlease _ hsession =>
    absurd (h.sessions n lease hlease) (Nat.not_le_of_lt (Nat.lt_of_lt_of_eq (Nat.lt_succ_self _) hsession.symm))
  sessions := fun n lease hlease => Nat.le_succ_of_le (h.sessions n lease hlease)
  waits := h.waits
  behind := h.behind
  ahead := h.ahead

theorem leaseIn_eq_some {phase : Phase} (h : s.leaseIn place phase = some lease) :
    s.leases[place]? = some lease ∧ lease.phase = phase :=
  (Option.filter_eq_some_iff.mp h).imp_right of_decide_eq_true

theorem Chained.step (h : s.Chained) {e : Event} (he : s.step e = some u) : u.Chained := by
  cases e with
  | start userID => exact Option.some.inj he ▸ h.start userID
  | resumes place =>
    obtain ⟨lease, hlease, rfl⟩ := Option.map_eq_some_iff.mp he
    obtain ⟨hin, hready⟩ := Option.filter_eq_some_iff.mp hlease
    obtain ⟨hplace, hphase⟩ := leaseIn_eq_some hin
    obtain ⟨p, hprevious⟩ := h.waits place lease hplace hphase
    rw [hprevious] at hready
    exact h.enter hplace (by decide) (by decide) (by rw [hphase]; decide) (h.clear hplace hprevious hready)
  | answered place =>
    obtain ⟨lease, hlease, rfl⟩ := Option.map_eq_some_iff.mp he
    obtain ⟨hplace, hphase⟩ := leaseIn_eq_some hlease
    exact h.enter hplace (by decide) (by decide) (by rw [hphase]; decide)
      (h.ahead place lease hplace (by rw [hphase]; decide))
  | releases place =>
    obtain ⟨lease, hlease, rfl⟩ := Option.map_eq_some_iff.mp he
    obtain ⟨hplace, hphase⟩ := leaseIn_eq_some hlease
    exact h.release hplace hphase
  | dispose => exact Option.some.inj he ▸ h.dispose

/-- Ahead of a lease that waits, one holds its turn or can take it now. -/
theorem Chained.progress (h : s.Chained) (n : ℕ) : ∀ lease, s.leases[n]? = some lease → lease.phase = .waiting →
    ∃ (m : ℕ) (first : Lease), m ≤ n ∧ s.leases[m]? = some first ∧ Lease.Joins first lease ∧
      (first.phase = .starting ∨ first.phase = .settling ∨ (s.step (.resumes m)).isSome) := by
  induction n using Nat.strongRecOn with
  | ind n ih =>
    intro lease hlease hphase
    obtain ⟨p, hprevious⟩ := h.waits n lease hlease hphase
    obtain ⟨hless, first, hfirst, hjoins, -⟩ := h.behind n p lease hlease hprevious
    cases hfirstPhase : first.phase with
    | waiting =>
      obtain ⟨m, head, hm, hhead, hjoins', hwhich⟩ := ih p hless first hfirst hfirstPhase
      exact ⟨m, head, Nat.le_trans hm (Nat.le_of_lt hless), hhead,
        ⟨hjoins'.1.trans hjoins.1, hjoins'.2.trans hjoins.2⟩, hwhich⟩
    | starting => exact ⟨p, first, Nat.le_of_lt hless, hfirst, hjoins, .inl hfirstPhase⟩
    | settling => exact ⟨p, first, Nat.le_of_lt hless, hfirst, hjoins, .inr (.inl hfirstPhase)⟩
    | released =>
      refine ⟨n, lease, Nat.le_refl n, hlease, ⟨rfl, rfl⟩, .inr (.inr ?_)⟩
      have hready : s.isReleased p = true := by
        unfold isReleased
        rw [hfirst]
        exact decide_eq_true hfirstPhase
      change (((s.leases[n]?.filter _).filter _).map _).isSome = true
      rw [hlease, Option.filter_some, if_pos (decide_eq_true hphase), Option.filter_some, hprevious, Option.all_some, if_pos hready]
      rfl

end Adapter

/-- Between two disposals the native starts of a user take turns in the order they were asked for: a
    lease gets past its wait only when all before it are released, a turn is always taken or free to be
    taken, and the table has the users with a lease that is not released. -/
theorem native_starts_take_turns (es : List Event) (s : Adapter) (hrun : exec Adapter.step {} es = some s) :
    (∀ (m n : ℕ) earlier lease, m < n → s.leases[m]? = some earlier → s.leases[n]? = some lease →
      Lease.Joins earlier lease → lease.phase ≠ .waiting → earlier.phase = .released) ∧
    (∀ (n : ℕ) lease, s.leases[n]? = some lease → lease.phase = .waiting →
      ∃ (m : ℕ) (first : Lease), m ≤ n ∧ s.leases[m]? = some first ∧ Lease.Joins first lease ∧
        (first.phase = .starting ∨ first.phase = .settling ∨ (s.step (.resumes m)).isSome)) ∧
    ∀ userID, userID ∈ s.nativeStartTails ↔ ∃ (n : ℕ) (lease : Lease), s.leases[n]? = some lease ∧
      lease.userID = userID ∧ lease.session = s.disposals ∧ lease.phase ≠ .released := by
  have h : s.Chained := invariant (fun _ _ _ h he => h.step he) Adapter.Chained.initial hrun
  refine ⟨fun m n earlier lease hless hearlier hlease hjoins hphase =>
    h.ahead n lease hlease hphase m earlier hless hearlier hjoins, h.progress, fun userID => ⟨fun hmem => ?_, ?_⟩⟩
  · obtain ⟨n, hn⟩ := Option.isSome_iff_exists.mp (AList.lookup_isSome.mpr hmem)
    obtain ⟨lease, hlease, hname, hsession, hphase, -⟩ := h.tail userID n hn
    exact ⟨n, lease, hlease, hname, hsession, hphase⟩
  · rintro ⟨n, lease, hlease, hname, hsession, hphase⟩
    by_contra hmem
    exact hphase (h.free userID (AList.lookup_eq_none.mpr hmem) n lease hlease hname hsession)

/-- Three setups of one user; the second has its turn, the third waits. -/
def threeSetups : List Event :=
  [.start "bob", .start "bob", .start "bob", .answered 0, .releases 0, .resumes 1]

theorem second_setup_takes_turn : ∃ s, exec Adapter.step {} threeSetups = some s ∧
    s.leases.map Lease.phase = [.released, .starting, .waiting] ∧
    ∀ userID, userID ∈ s.nativeStartTails ↔ ∃ (n : ℕ) (lease : Lease), s.leases[n]? = some lease ∧
      lease.userID = userID ∧ lease.session = s.disposals ∧ lease.phase ≠ .released := by
  have hphases : (exec Adapter.step {} threeSetups).map (fun s => s.leases.map Lease.phase) =
      some [.released, .starting, .waiting] := by decide
  obtain ⟨s, hs, heq⟩ := Option.map_eq_some_iff.mp hphases
  exact ⟨s, hs, heq, (native_starts_take_turns threeSetups s hs).2.2⟩

end Tim2Tox.NativeStarts
