import Tim2Tox.RendezvousAttempts

set_option autoImplicit false

/-!
# The client's last request

An observer remembers for each chat id whether the last client request was an
accepted join. A leave passes through four stages before its cell is erased;
the invariant follows the forget mark of the cell through each of them.
-/
namespace Tim2Tox.RendezvousSession
open RendezvousCodec RendezvousGroups LabelledRuns

section
variable (derive : Seed → Option ChatId)

/-- Whether the last client request for `id` was a join that was not refused. -/
def wish (s : Session) (e : Event) (_ : Session) (id : ChatIdHex) (w : Bool) : Bool :=
  match e with
  | .op (.requestJoin seed name nick now) =>
    w || ((requestJoin derive s.registry seed name nick now).2 ≠ .refused &&
      (joinTarget derive seed name nick).any fun chatId => hex chatId.toList = id)
  | .op (.requestLeave id' _) => id' ≠ id && w
  | .op (.requestLeaveAll _) | .op .clear => false
  | _ => w

/-- A join request meets no cell that is being left for good and not yet
    retiring; a leave planned without a group is not reported onto the cell
    that replaced it. -/
def heard (s : Session) : Event → Bool
  | .op (.requestJoin seed name nick _) =>
    (joinTarget derive seed name nick).all fun chatId =>
      s.registry.cells[hex chatId.toList]?.all fun c => c.state = .retiring || !c.leaveForgets
  | .report a .left _ =>
    a.groupNumber ≠ noGroup || a.reason ≠ .left ||
      s.registry.cells[a.chatIdHex]?.all fun c => c.groupNumber ≠ noGroup || c.leaveForgets
  | _ => true

end

/-- A leave for good is marked on its cell in every stage. -/
structure Marked (x : Option Cell) (f : Option Action) : Prop where
  owed : ∀ c, x = some c → c.pendingLeave = true →
    c.leaveReason ≠ .unset ∧ (c.leaveReason = .left → c.leaveForgets = true)
  inFlight : ∀ a, f = some a → a.kind = .leave → a.groupNumber ≠ noGroup →
    ∃ c, x = some c ∧ c.groupNumber = a.groupNumber ∧ c.state ≠ .retiring ∧
      c.leaveReason ≠ .unset ∧ (c.leaveReason = .left ∨ a.reason = .left → c.leaveForgets = true)
  retiring : ∀ c, x = some c → c.state = .retiring → c.pendingLeave = false ∧
    (c.retireReason = .left → c.leaveForgets = true ∨ c.rejoinAfterRetire = true)

/-- The wished cell is there and is not marked. -/
def Wished (w : Bool) : Local := fun _ _ x f =>
  Marked x f ∧ (w = true → ∃ c, x = some c ∧ c.leaveForgets = false)

/-- An effect that leaves the group and the leave of a cell alone. -/
structure SameLeave (c c' : Cell) : Prop where
  group : c'.groupNumber = c.groupNumber
  pending : c'.pendingLeave = c.pendingLeave
  reason : c'.leaveReason = c.leaveReason
  forgets : c'.leaveForgets = c.leaveForgets
  entered : c'.state = .retiring → c.state = .retiring
  stayed : c.state = .retiring → c'.state = .retiring ∧ c'.retireReason = c.retireReason ∧
    c'.rejoinAfterRetire = c.rejoinAfterRetire

theorem marked_same {c c' : Cell} {f : Option Action} (h : Marked (some c) f)
    (hs : SameLeave c c') : Marked (some c') f := by
  refine ⟨?_, fun a ha hk hg => ?_, ?_⟩
  · rintro x hx hp
    cases hx
    rw [hs.reason, hs.forgets]
    exact h.owed c rfl (hs.pending.symm.trans hp)
  · obtain ⟨x, hx, hgroup, hstate, hset, hleft⟩ := h.inFlight a ha hk hg
    cases hx
    refine ⟨c', rfl, hs.group.trans hgroup, fun hr => hstate (hs.entered hr), ?_, ?_⟩
    · rwa [hs.reason]
    · rwa [hs.reason, hs.forgets]
  · rintro x hx hr
    cases hx
    obtain ⟨hp, hleft⟩ := h.retiring c rfl (hs.entered hr)
    obtain ⟨-, hreason, hrejoin⟩ := hs.stayed (hs.entered hr)
    rw [hs.pending, hreason, hs.forgets, hrejoin]
    exact ⟨hp, hleft⟩

/-- Without a planned leave, a cell that owes none and is not retiring is fine. -/
theorem marked_of_free {c : Cell} {f : Option Action} (hp : c.pendingLeave = false)
    (hr : c.state ≠ .retiring) (hf : ∀ a, f = some a → a.kind = .leave → a.groupNumber = noGroup) :
    Marked (some c) f := by
  refine ⟨?_, fun a ha hk hg => absurd (hf a ha hk) hg, ?_⟩
  · rintro x hx hpx
    cases hx
    simp [hp] at hpx
  · rintro x hx hrx
    cases hx
    exact absurd hrx hr

theorem marked_none {f : Option Action}
    (hf : ∀ a, f = some a → a.kind = .leave → a.groupNumber = noGroup) : Marked none f :=
  ⟨by simp, fun a ha hk hg => absurd (hf a ha hk) hg, by simp⟩

/-- While a leave with a group is in flight its cell neither retires nor vanishes. -/
theorem marked_flight_of_retiring {c : Cell} {f : Option Action} (h : Marked (some c) f)
    (hr : c.state = .retiring ∨ c.groupNumber = noGroup) (a : Action) (ha : f = some a)
    (hk : a.kind = .leave) : a.groupNumber = noGroup := by
  by_contra hg
  obtain ⟨x, hx, hgroup, hstate, -⟩ := h.inFlight a ha hk hg
  cases hx
  rcases hr with hr | hr
  · exact hstate hr
  · exact hg (hgroup.symm.trans hr)

theorem finishRetire_kept {nextAttempt : ℕ} {now : Ms} {c c' : Cell}
    (h : c.finishRetire nextAttempt now = some c') :
    c'.state ≠ .retiring ∧ c'.pendingLeave = c.pendingLeave ∧
      (c.leaveForgets = false → c'.leaveForgets = false) := by
  refine ⟨finishRetire_state h, ?_⟩
  obtain ⟨-, he⟩ | ⟨-, -, he⟩ | ⟨-, hf, -, he⟩ | ⟨-, hf, -, -, -, he⟩ | ⟨-, hf, -, -, he⟩ :=
    finishRetire_cases nextAttempt now c <;> rw [he] at h <;> cases h
  · exact ⟨rfl, fun _ => rfl⟩
  · exact ⟨rfl, id⟩
  · exact ⟨rfl, id⟩
  · obtain ⟨w, n, hb⟩ := enterBackoff_eq now { c with groupNumber := noGroup, retireReason := .unset }
    rw [hb]
    exact ⟨rfl, id⟩

theorem finishRetire_erased {nextAttempt : ℕ} {now : Ms} {c : Cell}
    (h : c.finishRetire nextAttempt now = none) :
    c.rejoinAfterRetire = false ∧ (c.leaveForgets = true ∨ c.retireReason = .left) := by
  obtain ⟨-, he⟩ | ⟨hj, hf, -⟩ | ⟨-, -, -, he⟩ | ⟨-, -, -, -, -, he⟩ | ⟨-, -, -, -, he⟩ :=
    finishRetire_cases nextAttempt now c
  · rw [he] at h
    cases h
  · exact ⟨hj, hf⟩
  · rw [he] at h
    cases h
  · rw [he] at h
    cases h
  · rw [he] at h
    cases h

theorem marked_expelled {reason : Reason} {now : Ms} {c : Cell} {f : Option Action}
    (h : Marked (some c) f) (hreason : reason ≠ .unset ∧ reason ≠ .left) :
    Marked (some (c.expelled reason now)) f := by
  obtain ⟨w, n, he⟩ := expelled_eq reason now c
  have hs := ne_retiring_of_waits (enterBackoff_waits now
    { c with pendingLeave := true, leaveReason := reason, pendingJoin := false
             pendingFound := false })
  change (c.expelled reason now).state ≠ .retiring at hs
  rw [he] at hs ⊢
  refine ⟨?_, fun a ha hk hg => ?_, ?_⟩
  · rintro x hx -
    cases hx
    exact ⟨hreason.1, fun hl => absurd hl hreason.2⟩
  · obtain ⟨x, hx, hgroup, hstate, -, hleft⟩ := h.inFlight a ha hk hg
    cases hx
    refine ⟨_, rfl, hgroup, hs, hreason.1, ?_⟩
    rintro (hl | hl)
    · exact absurd hl hreason.2
    · exact hleft (.inr hl)
  · rintro x hx hr
    cases hx
    exact absurd hr hs

theorem marked_op {derive : Seed → Option ChatId} {r : Registry} {key : ChatIdHex} {o : Op}
    {x x' : Option Cell} {f : Option Action} (hfree : driven o = false) (hclear : o ≠ .clear)
    (hI : Marked x f) (h : OpEffect derive r key o x x') : Marked x' f := by
  cases h with
  | missed => exact hI
  | absent => exact hI
  | cleared => exact absurd rfl hclear
  | created =>
    refine marked_of_free rfl (by simp [newCell]) fun a ha hk => ?_
    by_contra hg
    obtain ⟨x, hx, -⟩ := hI.inFlight a ha hk hg
    cases hx
  | present => exact hI
  | deferred hr =>
    rename_i c
    refine ⟨?_, fun a ha hk hg => ?_, ?_⟩
    · rintro x hx hp
      cases hx
      simp [Cell.deferRejoin, (hI.retiring c rfl hr).1] at hp
    · exact absurd (marked_flight_of_retiring hI (.inl hr) a ha hk) hg
    · rintro x hx -
      cases hx
      exact ⟨(hI.retiring c rfl hr).1, fun _ => .inr rfl⟩
  | leaveAsked =>
    rename_i now c _
    obtain ⟨hr, he⟩ | ⟨-, hg, he⟩ | ⟨hr, hg, he⟩ := requestLeave_cases now c <;> rw [he]
    · refine ⟨?_, fun a ha hk hg => ?_, ?_⟩
      · rintro x hx hp
        cases hx
        simp [(hI.retiring c rfl hr).1] at hp
      · exact absurd (marked_flight_of_retiring hI (.inl hr) a ha hk) hg
      · rintro x hx -
        cases hx
        exact ⟨(hI.retiring c rfl hr).1, fun _ => .inl rfl⟩
    · exact marked_none (marked_flight_of_retiring hI (.inr hg))
    · refine ⟨?_, fun a ha hk hg => ?_, ?_⟩
      · rintro x hx -
        cases hx
        exact ⟨by simp, fun _ => rfl⟩
      · obtain ⟨x, hx, hgroup, -⟩ := hI.inFlight a ha hk hg
        cases hx
        exact ⟨_, rfl, hgroup, hr, by simp, fun _ => rfl⟩
      · rintro x hx hrx
        cases hx
        exact absurd hrx hr
  | planned | joinIssued | foundIssued | left | kept => simp [driven] at hfree
  | retired =>
    rename_i n now c
    unfold Cell.retired
    split_ifs with hr
    · have hflight := marked_flight_of_retiring hI (.inl hr.1)
      have hpend := (hI.retiring c rfl hr.1).1
      cases he : c.finishRetire r.nextAttempt now with
      | none => exact marked_none hflight
      | some c' =>
        obtain ⟨hstate, hp, -⟩ := finishRetire_kept he
        exact marked_of_free (hp.trans hpend) hstate hflight
    · exact hI
  | selfJoin ha =>
    obtain ⟨-, -, -, hs⟩ := activeCell_some ha
    exact marked_same hI ⟨rfl, rfl, rfl, rfl, by simp [Cell.selfJoin], fun hr => absurd hr hs⟩
  | peerJoin ha =>
    rename_i peer pk now c
    obtain ⟨-, -, -, hs⟩ := activeCell_some ha
    obtain ⟨-, he⟩ | ⟨-, b, co, since, retries, he⟩ := peerJoin_cases peer pk now c <;> rw [he]
    · exact hI
    · refine marked_same hI ⟨rfl, rfl, rfl, rfl, fun hr => ?_, fun hr => absurd hr hs⟩
      dsimp only at hr
      split_ifs at hr
      exact hr
  | peerExit ha =>
    rename_i peer self now c
    obtain ⟨-, he⟩ | ⟨-, b, co, he⟩ := peerExit_cases peer self now c <;> rw [he]
    · exact hI
    · exact marked_same hI ⟨rfl, rfl, rfl, rfl, id, fun hr => ⟨hr, rfl, rfl⟩⟩
  | joinFail => exact marked_expelled hI (by split <;> simp)
  | kicked => exact marked_expelled hI (by simp)
  | packet ha =>
    rename_i peer pk isPrivate payload now c
    obtain ⟨peers, budget, -, he⟩ := packet_eq peer pk isPrivate payload now c
    rw [he]
    exact marked_same hI ⟨rfl, rfl, rfl, rfl, id, fun hr => ⟨hr, rfl, rfl⟩⟩

theorem marked_timers (now : Ms) {c : Cell} (h : Marked (some c) none) (hr : c.state ≠ .retiring) :
    (c.timers now).state ≠ .retiring ∧ (c.timers now).leaveForgets = c.leaveForgets ∧
    ((c.timers now).pendingLeave = true → (c.timers now).leaveReason ≠ .unset ∧
      ((c.timers now).leaveReason = .left → c.leaveForgets = true)) := by
  obtain he | ⟨-, -, -, -, -, he⟩ | ⟨-, -, -, -, -, he⟩ | ⟨hidle, -, n, w, he⟩ := timers_cases now c
  · rw [he]
    exact ⟨hr, rfl, h.owed c rfl⟩
  · rw [he]
    exact ⟨hr, rfl, fun _ => ⟨by simp, by simp⟩⟩
  · have hs := ne_retiring_of_waits (enterBackoff_waits now
      { c with pendingLeave := true, leaveReason := .stale })
    obtain ⟨w, n, hb⟩ := enterBackoff_eq now { c with pendingLeave := true, leaveReason := .stale }
    rw [← he] at hb hs
    rw [hb]
    exact ⟨hb ▸ hs, rfl, fun _ => ⟨by simp, by simp⟩⟩
  · rw [he]
    refine ⟨hr, rfl, fun hp => ?_⟩
    simp [((idle_iff c).mp hidle).1] at hp

theorem marked_plan (r : Registry) (now : Ms) {c : Cell} (h : Marked (some c) none) :
    Marked (some (planCell r now c).1) (planCell r now c).2 ∧
      (planCell r now c).1.leaveForgets = c.leaveForgets := by
  unfold planCell Cell.plan
  by_cases hr : c.state = .retiring
  · rw [if_pos hr]
    exact ⟨h, rfl⟩
  rw [if_neg hr]
  obtain ⟨hstate, hforgets, howed⟩ := marked_timers now h hr
  obtain he | ⟨hl, he⟩ | ⟨hl, -, -, -, he⟩ := emit_cases r.accepting r.generation
    (blocked r c.chatIdHex) now (c.timers now) <;> rw [he]
  · refine ⟨⟨?_, by simp, ?_⟩, hforgets⟩
    · rintro x hx hp
      cases hx
      rw [hforgets]
      exact howed hp
    · rintro x hx hrx
      cases hx
      exact absurd hrx hstate
  · obtain ⟨hset, hleft⟩ := howed hl
    refine ⟨⟨by simp, ?_, ?_⟩, hforgets⟩
    · rintro a ha - -
      cases ha
      refine ⟨_, rfl, rfl, hstate, hset, ?_⟩
      simp only [Cell.leaveAction, hset, if_false, or_self, hforgets]
      exact hleft
    · rintro x hx hrx
      cases hx
      exact absurd hrx hstate
  · refine ⟨marked_of_free hl ?_ ?_, hforgets⟩
    · dsimp only
      split_ifs
      · simp
      · exact hstate
    · rintro a ha hk
      cases ha
      simp only [Cell.startAction] at hk
      split at hk <;> cases hk

theorem marked_landed {x : Option Cell} {f : Option Action} (h : Marked x f) : Marked x none :=
  ⟨h.owed, by simp, h.retiring⟩

theorem marked_recorded {c c' : Cell} {f : Option Action} (h : Marked (some c) f)
    (hp : c'.pendingLeave = c.pendingLeave) (hl : c'.leaveReason = c.leaveReason)
    (hf : c'.leaveForgets = c.leaveForgets) (hs : c'.state ≠ .retiring) :
    Marked (some c') none := by
  refine ⟨?_, by simp, ?_⟩
  · rintro x hx hpx
    cases hx
    rw [hl, hf]
    exact h.owed c rfl (hp.symm.trans hpx)
  · rintro x hx hr
    cases hx
    exact absurd hr hs

theorem joinIssued_leave (n : GroupNumber) (ok : Bool) (now : Ms) (c : Cell) :
    (c.joinIssued n ok now).pendingLeave = c.pendingLeave ∧
      (c.joinIssued n ok now).leaveReason = c.leaveReason ∧
      (c.joinIssued n ok now).leaveForgets = c.leaveForgets := by
  obtain ⟨-, he⟩ | he := joinIssued_cases n ok now c
  · rw [he]
    exact ⟨rfl, rfl, rfl⟩
  · obtain ⟨w, m, hb⟩ := enterBackoff_eq now { c with groupNumber := noGroup }
    rw [he, hb]
    exact ⟨rfl, rfl, rfl⟩

theorem foundIssued_leave (n : GroupNumber) (ok : Bool) (now : Ms) (c : Cell) :
    (c.foundIssued n ok now).pendingLeave = c.pendingLeave ∧
      (c.foundIssued n ok now).leaveReason = c.leaveReason ∧
      (c.foundIssued n ok now).leaveForgets = c.leaveForgets := by
  obtain ⟨-, he⟩ | he := foundIssued_cases n ok now c
  · rw [he]
    exact ⟨rfl, rfl, rfl⟩
  · obtain ⟨w, m, hb⟩ := enterBackoff_eq now { c with groupNumber := noGroup }
    rw [he, hb]
    exact ⟨rfl, rfl, rfl⟩

theorem marked_issued {generation : ℕ} {record : Cell → Cell} {refused : Cell → Bool}
    {a : Action} {c : Cell} {f : Option Action} (h : Marked (some c) f)
    (hrec : (record c).pendingLeave = c.pendingLeave ∧ (record c).leaveReason = c.leaveReason ∧
      (record c).leaveForgets = c.leaveForgets) (hs : (record c).state ≠ .retiring) :
    Marked (some (c.issued generation record refused a.generation a.attempt)) none ∧
      (c.issued generation record refused a.generation a.attempt).leaveForgets =
        c.leaveForgets := by
  unfold Cell.issued
  split_ifs
  · exact ⟨marked_recorded h hrec.1 hrec.2.1 hrec.2.2 hs, hrec.2.2⟩
  · exact ⟨marked_landed h, rfl⟩

theorem marked_left {nextAttempt : ℕ} {now : Ms} {a : Action} {c : Cell}
    (h : Marked (some c) (some a)) (hk : a.kind = .leave) :
    Marked (c.left nextAttempt a.reason now a.groupNumber) none := by
  unfold Cell.left
  split_ifs with hg hn
  · exact marked_landed h
  · cases he : (c.leaveIssued a.reason now).finishRetire nextAttempt now with
    | none => exact marked_none (by simp)
    | some c' =>
      obtain ⟨hstate, hp, -⟩ := finishRetire_kept he
      exact marked_of_free (hp.trans rfl) hstate (by simp)
  · obtain ⟨x, hx, -, -, -, hleft⟩ := h.inFlight a rfl hk hn
    cases hx
    refine ⟨by simp [Cell.leaveIssued], by simp, ?_⟩
    rintro x hx -
    cases hx
    exact ⟨rfl, fun hreason => .inl (hleft (.inr hreason))⟩

theorem marked_step (derive : Seed → Option ChatId) {r : Registry} {id : ChatIdHex} {e : Event}
    {x x' : Option Cell} {f f' : Option Action} (hI : Marked x f)
    (h : Effect derive r id e x f x' f') : Marked x' f' := by
  cases h with
  | op hfree hclear h => exact marked_op hfree hclear hI h
  | cleared | unplanned | unheard => exact marked_none (by simp)
  | planned => exact (marked_plan r _ hI).1
  | elsewhere => exact hI
  | joinIssued => exact (marked_issued hI (joinIssued_leave ..) (joinIssued_state _ _ _ _)).1
  | foundIssued => exact (marked_issued hI (foundIssued_leave ..) (foundIssued_state _ _ _ _)).1
  | left _ hk => exact marked_left hI hk
  | kept _ hk hg =>
    obtain ⟨x, hx, -, hstate, hset, hleft⟩ := hI.inFlight _ rfl hk hg
    cases hx
    refine ⟨?_, by simp, ?_⟩
    · rintro x hx -
      cases hx
      exact ⟨hset, fun hl => hleft (.inl hl)⟩
    · rintro x hx hr
      cases hx
      exact absurd hr hstate
  | lost => exact marked_landed hI
  | dropped => exact marked_landed hI

/-! ## The wish -/

/-- What an unmarked cell becomes: still there and unmarked, unless the client leaves. -/
theorem unmarked_op {derive : Seed → Option ChatId} {r : Registry} {key : ChatIdHex} {o : Op}
    {c : Cell} {x' : Option Cell} {f : Option Action} (hfree : driven o = false)
    (hclear : o ≠ .clear) (hleave : ∀ now, o ≠ .requestLeave key now ∧ o ≠ .requestLeaveAll now)
    (hI : Marked (some c) f) (hc : c.leaveForgets = false)
    (h : OpEffect derive r key o (some c) x') : ∃ c', x' = some c' ∧ c'.leaveForgets = false := by
  cases h with
  | missed => exact ⟨c, rfl, hc⟩
  | cleared => exact absurd rfl hclear
  | present => exact ⟨c, rfl, hc⟩
  | deferred => exact ⟨_, rfl, rfl⟩
  | leaveAsked h =>
    rcases h with h | h
    · exact absurd h (hleave _).1
    · exact absurd h (hleave _).2
  | planned | joinIssued | foundIssued | left | kept => simp [driven] at hfree
  | retired =>
    rename_i n now
    unfold Cell.retired
    split_ifs with hr
    · cases he : c.finishRetire r.nextAttempt now with
      | none =>
        obtain ⟨hj, hf⟩ := finishRetire_erased he
        obtain ⟨-, hret⟩ := hI.retiring c rfl hr.1
        rcases hf with hf | hf
        · simp [hc] at hf
        · simpa [hc, hj] using hret hf
      | some c' => exact ⟨c', rfl, (finishRetire_kept he).2.2 hc⟩
    · exact ⟨c, rfl, hc⟩
  | selfJoin => exact ⟨_, rfl, hc⟩
  | peerJoin =>
    rename_i peer pk now _
    obtain ⟨-, he⟩ | ⟨-, b, co, since, retries, he⟩ := peerJoin_cases peer pk now c <;> rw [he]
    · exact ⟨c, rfl, hc⟩
    · exact ⟨_, rfl, hc⟩
  | peerExit =>
    rename_i peer self now _
    obtain ⟨-, he⟩ | ⟨-, b, co, he⟩ := peerExit_cases peer self now c <;> rw [he]
    · exact ⟨c, rfl, hc⟩
    · exact ⟨_, rfl, hc⟩
  | joinFail | kicked =>
    obtain ⟨w, n, he⟩ := expelled_eq _ _ c
    exact ⟨_, rfl, he ▸ hc⟩
  | packet =>
    rename_i peer pk isPrivate payload now _
    obtain ⟨peers, budget, -, he⟩ := packet_eq peer pk isPrivate payload now c
    rw [he]
    exact ⟨_, rfl, hc⟩

theorem accepting_of_answered {derive : Seed → Option ChatId} {r : Registry} {seed : Seed}
    {name nick : String} {now : Ms} (h : (requestJoin derive r seed name nick now).2 ≠ .refused) :
    r.accepting = true := by
  unfold requestJoin at h
  cases ht : joinTarget derive seed name nick with
  | none => simp [ht] at h
  | some chatId =>
    cases hacc : r.accepting with
    | false => simp [ht, hacc] at h
    | true => rfl

/-- A join request that is heard leaves an unmarked cell behind. -/
theorem wished_join {derive : Seed → Option ChatId} {r : Registry} {id : ChatIdHex} {seed : Seed}
    {name nick : String} {now : Ms} {x' : Option Cell} {f : Option Action} {w : Bool}
    (hheard : heard derive ⟨r, []⟩ (.op (.requestJoin seed name nick now)) = true)
    (hI : Marked r.cells[id]? f) (hw : w = true → ∃ c, r.cells[id]? = some c ∧ c.leaveForgets = false)
    (h : OpEffect derive r id (.requestJoin seed name nick now) r.cells[id]? x')
    (hwish : w = true ∨ (requestJoin derive r seed name nick now).2 ≠ .refused ∧
      ((joinTarget derive seed name nick).any fun chatId => hex chatId.toList = id) = true) :
    ∃ c, x' = some c ∧ c.leaveForgets = false := by
  by_cases hold : w = true
  · obtain ⟨c, hc, hf⟩ := hw hold
    rw [hc] at h hI
    exact unmarked_op rfl (by simp) (by simp) hI hf h
  · obtain ⟨hans, htarget⟩ := hwish.resolve_left hold
    obtain ⟨chatId, ht, hid⟩ := (Option.any_eq_true _ _).mp htarget
    have hacc := accepting_of_answered hans
    have hid : hex chatId.toList = id := by simpa using hid
    generalize hx : r.cells[id]? = x at h
    cases h with
    | missed hmiss => simp [Op.hits, Op.requested, ht, hacc, hid] at hmiss
    | absent hne => exact absurd rfl (hne seed name nick now)
    | created => exact ⟨_, rfl, rfl⟩
    | deferred => exact ⟨_, rfl, rfl⟩
    | present hs =>
      rename_i c
      simp only [heard, ht, Option.all_some, hid, hx, Bool.or_eq_true, decide_eq_true_eq,
        Bool.not_eq_true'] at hheard
      exact ⟨c, rfl, hheard.resolve_left hs⟩
    | leaveAsked h => rcases h with h | h <;> cases h

/-- A call that is no join leaves a wish only if it takes nothing back. -/
theorem wish_stays {derive : Seed → Option ChatId} {s s' : Session} {id : ChatIdHex} {o : Op} {w : Bool}
    (hjoin : ∀ seed name nick now, o ≠ .requestJoin seed name nick now)
    (h : wish derive s (.op o) s' id w = true) :
    w = true ∧ ∀ now, o ≠ .requestLeave id now ∧ o ≠ .requestLeaveAll now := by
  cases o with
  | requestJoin seed name nick now => exact absurd rfl (hjoin seed name nick now)
  | requestLeave id' now' =>
    have hboth : (decide (id' ≠ id) && w) = true := h
    rw [Bool.and_eq_true, decide_eq_true_eq] at hboth
    exact ⟨hboth.2, fun now => ⟨fun heq => hboth.1 (Op.requestLeave.inj heq).1, nofun⟩⟩
  | requestLeaveAll now' => exact absurd (show false = true from h) Bool.false_ne_true
  | clear => exact absurd (show false = true from h) Bool.false_ne_true
  | _ => exact ⟨h, fun now => ⟨nofun, nofun⟩⟩

theorem wished_step (derive : Seed → Option ChatId) (s : Observed Bool) (e : Event) (s' : Session)
    (id : ChatIdHex) (hw : WellFormed s.session) (hcond : heard derive s.session e = true)
    (hs : step derive s.session e = some s') (hI : (Wished (s.memory id)).at s.session id) :
    (Wished (wish derive s.session e s' id (s.memory id))).at s' id := by
  have he := step_effect derive hw hs id
  obtain ⟨hmark, hwish⟩ := hI
  refine ⟨marked_step derive hmark he, fun hgoal => ?_⟩
  generalize hx' : s'.registry.cells[id]? = x' at he ⊢
  generalize flightAt s' id = f' at he
  generalize hf : flightAt s.session id = f at he hmark
  cases e with
  | op o =>
    cases he with
    | cleared => exact absurd (show false = true from hgoal) Bool.false_ne_true
    | elsewhere h => exact h.elim
    | op hfree hclear h =>
      by_cases hjoin : ∃ seed name nick now, o = .requestJoin seed name nick now
      · obtain ⟨seed, name, nick, now, rfl⟩ := hjoin
        refine wished_join (w := s.memory id) hcond hmark hwish h ?_
        have hasked : (s.memory id || ((requestJoin derive s.session.registry seed name nick now).2 ≠
            .refused && (joinTarget derive seed name nick).any fun chatId =>
              hex chatId.toList = id)) = true := hgoal
        simpa using hasked
      · obtain ⟨hold, hleave⟩ := wish_stays (fun seed name nick now heq =>
          hjoin ⟨seed, name, nick, now, heq⟩) hgoal
        obtain ⟨c, hc, hforgets⟩ := hwish hold
        rw [hc] at h hmark
        exact unmarked_op hfree hclear hleave hmark hforgets h
  | plan now =>
    obtain ⟨c, hc, hforgets⟩ := hwish hgoal
    rw [hc] at he hmark
    generalize hy : some c = y at he
    cases he with
    | planned =>
      cases hy
      exact ⟨_, rfl, (marked_plan _ _ hmark).2.trans hforgets⟩
    | unplanned => cases hy
    | elsewhere h => exact h.elim
  | report a outcome now =>
    obtain ⟨c, hc, hforgets⟩ := hwish hgoal
    rw [hc] at he hmark
    generalize hy : some c = y at he
    cases he with
    | elsewhere => exact ⟨c, hy.symm, hforgets⟩
    | unheard => cases hy
    | joinIssued =>
      cases hy
      exact ⟨_, rfl, (marked_issued hmark (joinIssued_leave ..)
        (joinIssued_state _ _ _ _)).2.trans hforgets⟩
    | foundIssued =>
      cases hy
      exact ⟨_, rfl, (marked_issued hmark (foundIssued_leave ..)
        (foundIssued_state _ _ _ _)).2.trans hforgets⟩
    | left hkey hk =>
      cases hy
      unfold Cell.left
      split_ifs with hg hn
      · exact ⟨c, rfl, hforgets⟩
      · cases hr : (c.leaveIssued a.reason now).finishRetire s.session.registry.nextAttempt now with
        | none =>
          obtain ⟨-, hf⟩ := finishRetire_erased hr
          have hleft : a.reason = .left := hf.resolve_left (by simp [Cell.leaveIssued, hforgets])
          have hgroup : c.groupNumber = noGroup := (not_not.mp hg).trans hn
          simp [heard, hn, hleft, hkey, hc, hgroup, hforgets] at hcond
        | some c' => exact ⟨c', rfl, (finishRetire_kept hr).2.2 hforgets⟩
      · exact ⟨_, rfl, hforgets⟩
    | kept => exact ⟨_, rfl, by cases hy; exact hforgets⟩
    | lost => exact ⟨c, hy.symm, hforgets⟩
  | drop a =>
    obtain ⟨c, hc, hforgets⟩ := hwish hgoal
    rw [hc] at he
    generalize hy : some c = y at he
    cases he with
    | elsewhere => exact ⟨c, hy.symm, hforgets⟩
    | dropped => exact ⟨c, hy.symm, hforgets⟩

/-- The last join wins: in every run whose join requests and leave reports are
    heard, a cell the client asked for last is still there. -/
theorem wished_cell_present (derive : Seed → Option ChatId) (es : List Event) (s : Observed Bool)
    (hm : Meets (observedStep derive (wish derive)) (fun s e => heard derive s.session e = true)
      ⟨{}, fun _ => false⟩ es)
    (hr : exec (observedStep derive (wish derive)) ⟨{}, fun _ => false⟩ es = some s)
    (id : ChatIdHex) (hw : s.memory id = true) : ∃ c, s.session.registry.cells[id]? = some c := by
  have hinv := observed_invariant derive (wish derive) (I := Wished)
    (fun _ => ⟨marked_none (by simp), by simp⟩) (wished_step derive) hm hr
  obtain ⟨c, hc, -⟩ := (hinv.2 id).2 hw
  exact ⟨c, hc⟩

/-- A join of the sample cell, recorded as group 7 and confirmed. -/
def joinedRun : List Event :=
  joinRun ++ [.plan 1000, .report (sampleAction .join 2 1) (.issued 7 true) 1000,
    .op (.onSelfJoin 7 1100)]

/-- The client leaves and joins again before the leave is planned. -/
def rejoinRun : List Event :=
  joinedRun ++ [.op (.requestLeave sampleId 2000),
    .op (.requestJoin sampleSeed "n" "0123abcd" 2001), .plan 2100,
    .report (sampleLeave .left 2 1) .left 2100, .op (.onRetired sampleId 7 2200)]

/-- The join was answered with "already present", and its cell is erased. -/
theorem rejoin_is_forgotten : ∃ s,
    exec (observedStep sampleDerive (wish sampleDerive)) ⟨{}, fun _ => false⟩ rejoinRun = some s ∧
    s.memory sampleId = true ∧ s.session.registry.cells[sampleId]? = none := by
  have hrun : ((exec (observedStep sampleDerive (wish sampleDerive)) ⟨{}, fun _ => false⟩
      rejoinRun).any fun s => s.memory sampleId ∧
      s.session.registry.cells[sampleId]?.isNone) = true := by decide
  obtain ⟨s, hs, h⟩ := (Option.any_eq_true _ _).mp hrun
  simp only [decide_eq_true_eq] at h
  exact ⟨s, hs, h.1, Option.isNone_iff_eq_none.mp h.2⟩

/-- The client leaves and joins again once the cell retires. -/
def lateRejoinRun : List Event :=
  joinedRun ++ [.op (.requestLeave sampleId 2000), .plan 2100,
    .report (sampleLeave .left 2 1) .left 2100,
    .op (.requestJoin sampleSeed "n" "0123abcd" 2150), .op (.onRetired sampleId 7 2200)]

theorem late_rejoin_survives : ∃ s,
    exec (observedStep sampleDerive (wish sampleDerive)) ⟨{}, fun _ => false⟩ lateRejoinRun = some s ∧
    s.memory sampleId = true ∧ ∃ c, s.session.registry.cells[sampleId]? = some c := by
  have hrun : ((exec (observedStep sampleDerive (wish sampleDerive)) ⟨{}, fun _ => false⟩
      lateRejoinRun).any fun s => s.memory sampleId) = true := by decide
  obtain ⟨s, hs, h⟩ := (Option.any_eq_true _ _).mp hrun
  exact ⟨s, hs, h, wished_cell_present sampleDerive lateRejoinRun s (by decide) hs sampleId h⟩

end Tim2Tox.RendezvousSession
