import Tim2Tox.CallLegs

set_option autoImplicit false

/-!
# Teardowns of calls

A teardown makes at most six attempts, one after the other, and gives up only after the sixth. The
disposal asks once for each teardown that is still due.
-/
namespace Tim2Tox.CallBridge
open KeyedTables LabelledRuns

namespace Bridge

variable {s u : Bridge}

/-- The teardowns, each under its number: those in the table and those that are over. -/
structure Bounded (s : Bridge) : Prop where
  keyed : ∀ key pending, s.pendingTeardowns.lookup key = some pending → pending.object < s.teardowns ∧
    s.made.count pending.object = pending.attempts ∧ (pending.timer = true → pending.attempts < maxTeardownAttempts)
  apart : ∀ key other pending pending', s.pendingTeardowns.lookup key = some pending →
    s.pendingTeardowns.lookup other = some pending' → pending.object = pending'.object → key = other
  flying : ∀ key pending, s.pendingTeardowns.lookup key = some pending →
    (pending.timer = false ↔ pending.object ∈ s.attempts.map Attempt.object)
  homes : ∀ attempt ∈ s.attempts, ∀ key pending, s.pendingTeardowns.lookup key = some pending →
    pending.object = attempt.object → attempt.key = key
  single : (s.attempts.map Attempt.object).Nodup
  flights : ∀ attempt ∈ s.attempts, attempt.object < s.teardowns
  fresh : ∀ object, s.teardowns ≤ object → s.made.count object = 0
  counted : ∀ object < s.teardowns, 1 ≤ s.made.count object ∧ s.made.count object ≤ maxTeardownAttempts
  settled : ∀ object < s.teardowns, (∃ key pending, s.pendingTeardowns.lookup key = some pending ∧
    pending.object = object) ∨ ∃ reason, (object, reason) ∈ s.finished
  finals : ∀ item ∈ s.finished, item.1 < s.teardowns ∧
    (∀ key pending, s.pendingTeardowns.lookup key = some pending → pending.object ≠ item.1) ∧
    (item.2 = .spent → s.made.count item.1 = maxTeardownAttempts)
  once : (s.finished.map Prod.fst).Nodup
  last : s.disposed = true → ∀ key pending, s.pendingTeardowns.lookup key = some pending →
    pending.attempts = 1 ∧ pending.timer = false

/-- What does not touch the teardowns. -/
theorem Bounded.same (h : s.Bounded) (hpending : u.pendingTeardowns = s.pendingTeardowns)
    (hattempts : u.attempts = s.attempts) (hcount : u.teardowns = s.teardowns) (hmade : u.made = s.made)
    (hfinished : u.finished = s.finished) (hdisposed : u.disposed = s.disposed) : u.Bounded := by
  constructor
  · rw [hpending, hcount, hmade]
    exact h.keyed
  · rw [hpending]
    exact h.apart
  · rw [hpending, hattempts]
    exact h.flying
  · rw [hpending, hattempts]
    exact h.homes
  · rw [hattempts]
    exact h.single
  · rw [hattempts, hcount]
    exact h.flights
  · rw [hcount, hmade]
    exact h.fresh
  · rw [hcount, hmade]
    exact h.counted
  · rw [hcount, hpending, hfinished]
    exact h.settled
  · rw [hfinished, hcount, hpending, hmade]
    exact h.finals
  · rw [hfinished]
    exact h.once
  · rw [hdisposed, hpending]
    exact h.last

theorem count_made (made : List ℕ) (object other : ℕ) :
    (made ++ [object]).count other = made.count other + if object = other then 1 else 0 := by
  rw [List.count_append, List.count_singleton]
  by_cases heq : object = other
  · rw [if_pos heq, heq, beq_self_eq_true, if_pos rfl]
  · rw [if_neg heq, beq_eq_false_iff_ne.mpr heq, if_neg (by decide)]

/-- A teardown that is replaced is over; no other is. -/
theorem mem_replacedBy {key : TeardownKey} {item : ℕ × End} (h : item ∈ s.replacedBy key) :
    item.2 = .replaced ∧ ∃ old, s.pendingTeardowns.lookup key = some old ∧ item.1 = old.object := by
  unfold replacedBy at h
  cases hold : s.pendingTeardowns.lookup key with
  | none =>
    rw [hold] at h
    exact absurd h List.not_mem_nil
  | some old =>
    rw [hold] at h
    rw [List.mem_singleton.mp h]
    exact ⟨rfl, old, rfl, rfl⟩

theorem Bounded.start (h : s.Bounded) (action : Action) : (s.startBoundedTeardown action).Bounded := by
  let key := action.key
  let new : PendingTeardown := { object := s.teardowns, action, attempts := 1 }
  have hlookup : ∀ other pending, (s.startBoundedTeardown action).pendingTeardowns.lookup other = some pending →
      other = key ∧ pending = new ∨ other ≠ key ∧ s.pendingTeardowns.lookup other = some pending :=
    fun other pending hother => lookup_insert_some hother
  have hcount : ∀ object, (s.startBoundedTeardown action).made.count object =
      s.made.count object + if s.teardowns = object then 1 else 0 := count_made s.made s.teardowns
  have hnew : s.made.count s.teardowns = 0 := h.fresh _ (Nat.le_refl _)
  constructor
  · intro other pending hother
    rw [hcount]
    rcases hlookup other pending hother with ⟨-, rfl⟩ | ⟨-, hold⟩
    · refine ⟨Nat.lt_succ_self _, ?_, fun htimer => by contradiction⟩
      rw [hnew, if_pos rfl]
    · obtain ⟨hless, hmade, htimer⟩ := h.keyed other pending hold
      refine ⟨Nat.lt_succ_of_lt hless, ?_, htimer⟩
      rw [if_neg (Nat.ne_of_gt hless), Nat.add_zero, hmade]
  · intro first second pending pending' hfirst hsecond hobject
    rcases hlookup first pending hfirst with ⟨rfl, rfl⟩ | ⟨-, hold⟩ <;>
      rcases hlookup second pending' hsecond with ⟨rfl, rfl⟩ | ⟨-, hold'⟩
    · rfl
    · exact absurd hobject.symm (Nat.ne_of_lt (h.keyed _ _ hold').1)
    · exact absurd hobject (Nat.ne_of_lt (h.keyed _ _ hold).1)
    · exact h.apart first second pending pending' hold hold' hobject
  · intro other pending hother
    change _ ↔ pending.object ∈ (s.attempts ++ [_]).map Attempt.object
    rw [List.map_append, List.mem_append]
    rcases hlookup other pending hother with ⟨-, rfl⟩ | ⟨-, hold⟩
    · exact iff_of_true rfl (.inr (List.mem_singleton_self _))
    · refine (h.flying other pending hold).trans ⟨.inl, fun hmem => hmem.resolve_right fun hlast => ?_⟩
      exact absurd (List.mem_singleton.mp hlast) (Nat.ne_of_lt (h.keyed _ _ hold).1)
  · intro attempt hattempt other pending hother hobject
    rcases List.mem_append.mp hattempt with hold | hlast
    · rcases hlookup other pending hother with ⟨-, rfl⟩ | ⟨-, hpend⟩
      · exact absurd hobject.symm (Nat.ne_of_lt (h.flights attempt hold))
      · exact h.homes attempt hold other pending hpend hobject
    · obtain rfl := List.mem_singleton.mp hlast
      rcases hlookup other pending hother with ⟨rfl, -⟩ | ⟨-, hpend⟩
      · rfl
      · exact absurd hobject (Nat.ne_of_lt (h.keyed _ _ hpend).1)
  · change ((s.attempts ++ [_]).map Attempt.object).Nodup
    rw [List.map_append, List.map_singleton]
    refine List.Nodup.append h.single (List.nodup_singleton _) fun object hmem hlast => ?_
    obtain ⟨attempt, hattempt, rfl⟩ := List.mem_map.mp hmem
    exact absurd (List.mem_singleton.mp hlast) (Nat.ne_of_lt (h.flights attempt hattempt))
  · intro attempt hattempt
    rcases List.mem_append.mp hattempt with hold | hlast
    · exact Nat.lt_succ_of_lt (h.flights attempt hold)
    · rw [List.mem_singleton.mp hlast]
      exact Nat.lt_succ_self _
  · intro object hobject
    have hless : s.teardowns < object := hobject
    rw [hcount, h.fresh object (Nat.le_of_lt hless), if_neg (Nat.ne_of_lt hless)]
  · intro object hobject
    rw [hcount]
    by_cases heq : s.teardowns = object
    · rw [← heq, hnew, if_pos rfl]
      exact ⟨Nat.le_refl 1, by decide⟩
    · rw [if_neg heq, Nat.add_zero]
      have hless : object < s.teardowns + 1 := hobject
      exact h.counted object (by omega)
  · intro object hobject
    have hless : object < s.teardowns + 1 := hobject
    by_cases heq : object = s.teardowns
    · exact .inl ⟨key, new, AList.lookup_insert _, heq.symm⟩
    · rcases h.settled object (by omega) with ⟨other, pending, hpend, hobj⟩ | ⟨reason, hreason⟩
      · by_cases hkey : other = key
        · refine .inr ⟨.replaced, List.mem_append_right _ ?_⟩
          unfold replacedBy
          rw [← show other = action.key from hkey, hpend, ← hobj]
          exact List.mem_singleton_self _
        · refine .inl ⟨other, pending, ?_, hobj⟩
          exact (AList.lookup_insert_ne hkey).trans hpend
      · exact .inr ⟨reason, List.mem_append_left _ hreason⟩
  · intro item hitem
    rw [hcount]
    rcases List.mem_append.mp hitem with hold | hlast
    · obtain ⟨hless, hgone, hspent⟩ := h.finals item hold
      refine ⟨Nat.lt_succ_of_lt hless, fun other pending hother => ?_, fun hreason => ?_⟩
      · rcases hlookup other pending hother with ⟨-, rfl⟩ | ⟨-, hpend⟩
        · exact Nat.ne_of_gt hless
        · exact hgone other pending hpend
      · rw [if_neg (Nat.ne_of_gt hless), Nat.add_zero, hspent hreason]
    · obtain ⟨hreplaced, old, hold, hobject⟩ := mem_replacedBy hlast
      have hless := (h.keyed _ _ hold).1
      refine ⟨hobject ▸ Nat.lt_succ_of_lt hless, fun other pending hother => ?_, fun hreason => ?_⟩
      · rw [hobject]
        rcases hlookup other pending hother with ⟨-, rfl⟩ | ⟨hne, hpend⟩
        · exact Nat.ne_of_gt hless
        · exact fun heq => hne (h.apart other action.key pending old hpend hold heq)
      · rw [hreplaced] at hreason
        contradiction
  · change ((s.finished ++ s.replacedBy action.key).map Prod.fst).Nodup
    rw [List.map_append]
    refine List.Nodup.append h.once ?_ fun object hmem hlast => ?_
    · unfold replacedBy
      cases s.pendingTeardowns.lookup action.key with
      | none => exact List.nodup_nil
      | some old => exact List.nodup_singleton _
    · obtain ⟨item, hitem, rfl⟩ := List.mem_map.mp hmem
      obtain ⟨other, hother, heq⟩ := List.mem_map.mp hlast
      obtain ⟨-, old, hold, hobject⟩ := mem_replacedBy hother
      exact (h.finals item hitem).2.1 _ _ hold (hobject.symm.trans heq)
  · intro hoff other pending hother
    rcases hlookup other pending hother with ⟨-, rfl⟩ | ⟨-, hpend⟩
    · exact ⟨rfl, rfl⟩
    · exact h.last hoff other pending hpend

/-- The timer of a teardown fires. -/
theorem Bounded.retry (h : s.Bounded) {key : TeardownKey} {old : PendingTeardown}
    (hold : s.pendingTeardowns.lookup key = some old) (htimer : old.timer = true) :
    (s.runTeardownAttempt key old).Bounded := by
  let new : PendingTeardown := { old with attempts := old.attempts + 1, timer := false }
  obtain ⟨hless, hmade, hmore⟩ := h.keyed key old hold
  have hlookup : ∀ other pending, (s.runTeardownAttempt key old).pendingTeardowns.lookup other = some pending →
      other = key ∧ pending = new ∨ other ≠ key ∧ s.pendingTeardowns.lookup other = some pending :=
    fun other pending hother => lookup_insert_some hother
  have hcount : ∀ object, (s.runTeardownAttempt key old).made.count object =
      s.made.count object + if old.object = object then 1 else 0 := count_made s.made old.object
  have hground : old.object ∉ s.attempts.map Attempt.object := fun hmem =>
    absurd (((h.flying key old hold).mpr hmem).symm.trans htimer) (by decide)
  have hapart : ∀ other pending, other ≠ key → s.pendingTeardowns.lookup other = some pending →
      pending.object ≠ old.object := fun other pending hne hpend heq =>
    hne (h.apart other key pending old hpend hold heq)
  constructor
  · intro other pending hother
    rw [hcount]
    rcases hlookup other pending hother with ⟨-, rfl⟩ | ⟨hne, hpend⟩
    · refine ⟨hless, ?_, fun hoff => by contradiction⟩
      rw [if_pos rfl, hmade]
    · obtain ⟨hless', hmade', htimer'⟩ := h.keyed other pending hpend
      refine ⟨hless', ?_, htimer'⟩
      rw [if_neg (Ne.symm (hapart other pending hne hpend)), Nat.add_zero, hmade']
  · intro first second pending pending' hfirst hsecond hobject
    rcases hlookup first pending hfirst with ⟨rfl, rfl⟩ | ⟨hne, hpend⟩ <;>
      rcases hlookup second pending' hsecond with ⟨rfl, rfl⟩ | ⟨hne', hpend'⟩
    · rfl
    · exact absurd hobject.symm (hapart _ _ hne' hpend')
    · exact absurd hobject (hapart _ _ hne hpend)
    · exact h.apart first second pending pending' hpend hpend' hobject
  · intro other pending hother
    change _ ↔ pending.object ∈ (s.attempts ++ [_]).map Attempt.object
    rw [List.map_append, List.mem_append]
    rcases hlookup other pending hother with ⟨-, rfl⟩ | ⟨hne, hpend⟩
    · exact iff_of_true rfl (.inr (List.mem_singleton_self _))
    · refine (h.flying other pending hpend).trans ⟨.inl, fun hmem => hmem.resolve_right fun hlast => ?_⟩
      exact hapart other pending hne hpend (List.mem_singleton.mp hlast)
  · intro attempt hattempt other pending hother hobject
    rcases List.mem_append.mp hattempt with hfly | hlast
    · rcases hlookup other pending hother with ⟨rfl, rfl⟩ | ⟨-, hpend⟩
      · exact absurd (List.mem_map.mpr ⟨attempt, hfly, hobject.symm⟩) hground
      · exact h.homes attempt hfly other pending hpend hobject
    · obtain rfl := List.mem_singleton.mp hlast
      rcases hlookup other pending hother with ⟨rfl, -⟩ | ⟨hne, hpend⟩
      · rfl
      · exact absurd hobject (hapart other pending hne hpend)
  · change ((s.attempts ++ [_]).map Attempt.object).Nodup
    rw [List.map_append, List.map_singleton]
    refine List.Nodup.append h.single (List.nodup_singleton _) fun object hmem hlast => ?_
    rw [List.mem_singleton.mp hlast] at hmem
    exact hground hmem
  · intro attempt hattempt
    rcases List.mem_append.mp hattempt with hfly | hlast
    · exact h.flights attempt hfly
    · rw [List.mem_singleton.mp hlast]
      exact hless
  · intro object hobject
    have hge : s.teardowns ≤ object := hobject
    rw [hcount, h.fresh object hge, if_neg (Nat.ne_of_lt (Nat.lt_of_lt_of_le hless hge))]
  · intro object hobject
    rw [hcount]
    obtain ⟨hone, hsix⟩ := h.counted object hobject
    by_cases heq : old.object = object
    · rw [if_pos heq, ← heq, hmade]
      have := hmore htimer
      omega
    · rw [if_neg heq]
      exact ⟨hone, hsix⟩
  · intro object hobject
    rcases h.settled object hobject with ⟨other, pending, hpend, hobj⟩ | hfinished
    · by_cases hkey : other = key
      · rw [hkey] at hpend
        obtain rfl := Option.some.inj (hold.symm.trans hpend)
        exact .inl ⟨key, new, AList.lookup_insert _, hobj⟩
      · exact .inl ⟨other, pending, (AList.lookup_insert_ne hkey).trans hpend, hobj⟩
    · exact .inr hfinished
  · intro item hitem
    obtain ⟨hitemless, hgone, hspent⟩ := h.finals item hitem
    rw [hcount]
    refine ⟨hitemless, fun other pending hother => ?_, fun hreason => ?_⟩
    · rcases hlookup other pending hother with ⟨-, rfl⟩ | ⟨-, hpend⟩
      · exact hgone key old hold
      · exact hgone other pending hpend
    · rw [if_neg (hgone key old hold), Nat.add_zero, hspent hreason]
  · exact h.once
  · intro hoff
    exact absurd ((h.last hoff key old hold).2.symm.trans htimer) (by decide)

/-- An attempt has left its place. -/
theorem mem_left {place : ℕ} {attempt : Attempt} (hsingle : (s.attempts.map Attempt.object).Nodup)
    (hplace : s.attempts[place]? = some attempt) {object : ℕ} :
    object ∈ (s.attempts.eraseIdx place).map Attempt.object ↔
      object ∈ s.attempts.map Attempt.object ∧ object ≠ attempt.object := by
  have hmap : (s.attempts.map Attempt.object)[place]? = some attempt.object := by
    rw [List.getElem?_map, hplace]
    rfl
  have hlength := (List.getElem?_eq_some_iff.mp hmap).1
  constructor
  · intro hmem
    obtain ⟨other, hother, rfl⟩ := List.mem_map.mp hmem
    obtain ⟨i, hne, hi⟩ := List.mem_eraseIdx_iff_getElem?.mp hother
    refine ⟨List.mem_map.mpr ⟨other, List.mem_of_getElem? hi, rfl⟩, fun heq => hne ?_⟩
    have hboth : (s.attempts.map Attempt.object)[place]? = (s.attempts.map Attempt.object)[i]? := by
      rw [hmap, List.getElem?_map, hi, Option.map_some, heq]
    exact ((List.getElem?_inj hlength hsingle).mp hboth).symm
  · rintro ⟨hmem, hne⟩
    obtain ⟨other, hother, rfl⟩ := List.mem_map.mp hmem
    obtain ⟨i, hi⟩ := List.getElem?_of_mem hother
    refine List.mem_map.mpr ⟨other, List.mem_eraseIdx_iff_getElem?.mpr ⟨i, fun heq => hne ?_, hi⟩, rfl⟩
    rw [heq, hplace] at hi
    rw [Option.some.inj hi]

/-- An attempt leaves that no teardown in the table waits for. -/
theorem Bounded.left (h : s.Bounded) {place : ℕ} {attempt : Attempt} (hplace : s.attempts[place]? = some attempt)
    (hgone : ∀ key pending, s.pendingTeardowns.lookup key = some pending → pending.object ≠ attempt.object) :
    Bounded { s with attempts := s.attempts.eraseIdx place } := by
  refine { h with
    flying := fun key pending hpend => ?_
    homes := fun other hother => ?_
    single := ?_
    flights := fun other hother => ?_ }
  · refine (h.flying key pending hpend).trans (Iff.trans ?_ (mem_left h.single hplace).symm)
    exact ⟨fun hmem => ⟨hmem, hgone key pending hpend⟩, And.left⟩
  · exact h.homes other (List.mem_of_mem_eraseIdx hother)
  · exact h.single.sublist ((List.eraseIdx_sublist _ _).map _)
  · exact h.flights other (List.mem_of_mem_eraseIdx hother)

/-- A teardown of the table comes to its end. -/
theorem Bounded.removed (h : s.Bounded) {key : TeardownKey} {old : PendingTeardown}
    (hold : s.pendingTeardowns.lookup key = some old) (reason : End)
    (hspent : reason = .spent → maxTeardownAttempts ≤ old.attempts) (legs : List (String × ℤ)) :
    Bounded { s with
      pendingTeardowns := s.pendingTeardowns.erase key
      finished := s.finished ++ [(old.object, reason)]
      legs } := by
  obtain ⟨hless, hmade, -⟩ := h.keyed key old hold
  have hapart : ∀ other pending, (s.pendingTeardowns.erase key).lookup other = some pending →
      pending.object ≠ old.object := fun other pending hother heq =>
    (lookup_erase_some hother).1 (h.apart other key pending old (lookup_erase_some hother).2 hold heq)
  constructor
  · exact fun other pending hother => h.keyed other pending (lookup_erase_some hother).2
  · exact fun first second pending pending' hfirst hsecond =>
      h.apart first second pending pending' (lookup_erase_some hfirst).2 (lookup_erase_some hsecond).2
  · exact fun other pending hother => h.flying other pending (lookup_erase_some hother).2
  · exact fun attempt hattempt other pending hother =>
      h.homes attempt hattempt other pending (lookup_erase_some hother).2
  · exact h.single
  · exact h.flights
  · exact h.fresh
  · exact h.counted
  · intro object hobject
    rcases h.settled object hobject with ⟨other, pending, hpend, rfl⟩ | ⟨reason', hreason⟩
    · by_cases hkey : other = key
      · rw [hkey] at hpend
        obtain rfl := Option.some.inj (hold.symm.trans hpend)
        exact .inr ⟨reason, List.mem_append_right _ (List.mem_singleton_self _)⟩
      · exact .inl ⟨other, pending, (AList.lookup_erase_ne hkey).trans hpend, rfl⟩
    · exact .inr ⟨reason', List.mem_append_left _ hreason⟩
  · intro item hitem
    rcases List.mem_append.mp hitem with hmem | hlast
    · obtain ⟨hitemless, hgone, hall⟩ := h.finals item hmem
      exact ⟨hitemless, fun other pending hother => hgone other pending (lookup_erase_some hother).2, hall⟩
    · rw [List.mem_singleton.mp hlast]
      refine ⟨hless, hapart, fun hreason => ?_⟩
      exact le_antisymm (h.counted _ hless).2 (hmade.symm ▸ hspent hreason)
  · change ((s.finished ++ [_]).map Prod.fst).Nodup
    rw [List.map_append, List.map_singleton]
    refine List.Nodup.append h.once (List.nodup_singleton _) fun object hmem hlast => ?_
    obtain ⟨item, hitem, rfl⟩ := List.mem_map.mp hmem
    exact (h.finals item hitem).2.1 key old hold (List.mem_singleton.mp hlast).symm
  · exact fun hoff other pending hother => h.last hoff other pending (lookup_erase_some hother).2

/-- An attempt has failed, and the timer for the next one runs. -/
theorem Bounded.delayed (h : s.Bounded) {place : ℕ} {attempt : Attempt}
    (hplace : s.attempts[place]? = some attempt) {old : PendingTeardown}
    (hold : s.pendingTeardowns.lookup attempt.key = some old) (hobject : old.object = attempt.object)
    (hmore : old.attempts < maxTeardownAttempts) (hon : s.disposed = false) :
    Bounded { s with
      attempts := s.attempts.eraseIdx place
      pendingTeardowns := s.pendingTeardowns.insert attempt.key { old with timer := true } } := by
  obtain ⟨hless, hmade, -⟩ := h.keyed attempt.key old hold
  have hapart : ∀ other pending, other ≠ attempt.key → s.pendingTeardowns.lookup other = some pending →
      pending.object ≠ old.object := fun other pending hne hpend heq =>
    hne (h.apart other attempt.key pending old hpend hold heq)
  -- nothing but the timer of the one teardown changes
  have hback : ∀ {other pending}, (s.pendingTeardowns.insert attempt.key { old with timer := true }).lookup other =
      some pending → ∃ before, s.pendingTeardowns.lookup other = some before ∧ before.object = pending.object := by
    intro other pending hother
    rcases lookup_insert_some hother with ⟨rfl, rfl⟩ | ⟨-, hpend⟩
    · exact ⟨old, hold, rfl⟩
    · exact ⟨pending, hpend, rfl⟩
  constructor
  · intro other pending hother
    rcases lookup_insert_some hother with ⟨-, rfl⟩ | ⟨-, hpend⟩
    · exact ⟨hless, hmade, fun _ => hmore⟩
    · exact h.keyed other pending hpend
  · intro first second pending pending' hfirst hsecond heq
    obtain ⟨before, hbefore, hsame⟩ := hback hfirst
    obtain ⟨before', hbefore', hsame'⟩ := hback hsecond
    exact h.apart first second before before' hbefore hbefore' (hsame.trans (heq.trans hsame'.symm))
  · intro other pending hother
    refine Iff.trans ?_ (mem_left h.single hplace).symm
    rcases lookup_insert_some hother with ⟨-, rfl⟩ | ⟨hne, hpend⟩
    · exact iff_of_false (fun hoff => absurd hoff.symm Bool.false_ne_true) fun hmem => hmem.2 hobject
    · refine (h.flying other pending hpend).trans ⟨fun hmem => ⟨hmem, ?_⟩, And.left⟩
      rw [← hobject]
      exact hapart other pending hne hpend
  · intro flight hflight other pending hother heq
    obtain ⟨before, hbefore, hsame⟩ := hback hother
    exact h.homes flight (List.mem_of_mem_eraseIdx hflight) other before hbefore (hsame.trans heq)
  · exact h.single.sublist ((List.eraseIdx_sublist _ _).map _)
  · exact fun flight hflight => h.flights flight (List.mem_of_mem_eraseIdx hflight)
  · exact h.fresh
  · exact h.counted
  · intro object hlast
    refine (h.settled object hlast).imp_left fun ⟨other, pending, hpend, heq⟩ => ?_
    by_cases hkey : other = attempt.key
    · rw [hkey] at hpend
      obtain rfl := Option.some.inj (hold.symm.trans hpend)
      exact ⟨attempt.key, _, AList.lookup_insert _, heq⟩
    · exact ⟨other, pending, (AList.lookup_insert_ne hkey).trans hpend, heq⟩
  · intro item hitem
    obtain ⟨hitemless, hgone, hspent⟩ := h.finals item hitem
    refine ⟨hitemless, fun other pending hother => ?_, hspent⟩
    obtain ⟨before, hbefore, hsame⟩ := hback hother
    rw [← hsame]
    exact hgone other before hbefore
  · exact h.once
  · intro hoff
    exact absurd (hon.symm.trans hoff) (by decide)

theorem ends_none {pending : PendingTeardown} {success : Bool} (h : s.ends pending success = none) :
    pending.attempts < maxTeardownAttempts ∧ s.disposed = false := by
  unfold Bridge.ends at h
  split_ifs at h with hsuccess hspent hdisposed
  exact ⟨Nat.lt_of_not_le hspent, Bool.eq_false_iff.mpr hdisposed⟩

theorem ends_spent {pending : PendingTeardown} {success : Bool} (h : s.ends pending success = some .spent) :
    maxTeardownAttempts ≤ pending.attempts := by
  unfold Bridge.ends at h
  split_ifs at h with hsuccess hspent hdisposed <;> first | contradiction | exact hspent

theorem Bounded.attemptAnswered (h : s.Bounded) {place : ℕ} {attempt : Attempt}
    (hplace : s.attempts[place]? = some attempt) (success : Bool) :
    (Bridge.attemptAnswered { s with attempts := s.attempts.eraseIdx place } attempt success).Bounded := by
  have hmem := List.mem_of_getElem? hplace
  unfold Bridge.attemptAnswered
  dsimp only
  cases hold : s.pendingTeardowns.lookup attempt.key with
  | none =>
    refine h.left hplace fun key pending hpend hobject => ?_
    rw [← h.homes attempt hmem key pending hpend hobject, hold] at hpend
    contradiction
  | some old =>
    dsimp only
    by_cases hobject : old.object ≠ attempt.object
    · rw [if_pos hobject]
      refine h.left hplace fun key pending hpend heq => hobject ?_
      rw [← h.homes attempt hmem key pending hpend heq, hold] at hpend
      rw [Option.some.inj hpend, heq]
    rw [if_neg hobject]
    have hsame := not_not.mp hobject
    cases hends : ends { s with attempts := s.attempts.eraseIdx place } old (success || attempt.handedOver) with
    | none =>
      obtain ⟨hmore, hon⟩ := ends_none hends
      exact h.delayed hplace hold hsame hmore hon
    | some reason =>
      refine (h.removed hold reason (fun hreason => ?_) _).left hplace fun key pending hpend heq => ?_
      · exact ends_spent (hreason ▸ hends)
      · obtain ⟨hne, hpend⟩ := lookup_erase_some hpend
        exact hne (h.homes attempt hmem key pending hpend heq).symm

theorem entries_apart (h : s.Bounded) : (s.pendingTeardowns.entries.map fun entry => entry.2.object).Nodup := by
  rw [List.nodup_iff_pairwise_ne, List.pairwise_map]
  refine (List.nodupKeys_iff_pairwise.mp s.pendingTeardowns.nodupKeys).imp_of_mem fun hfirst hsecond hkeys heq => ?_
  exact hkeys (h.apart _ _ _ _ (AList.mem_lookup_iff.mpr hfirst) (AList.mem_lookup_iff.mpr hsecond) heq)

theorem Bounded.dispose (h : s.Bounded) : s.dispose.Bounded := by
  unfold Bridge.dispose
  split_ifs
  · exact h
  have hempty : ∀ {key : TeardownKey} {pending : PendingTeardown},
      (∅ : AList fun _ : TeardownKey => PendingTeardown).lookup key ≠ some pending := by
    intro key pending hpend
    rw [AList.lookup_empty] at hpend
    contradiction
  have hdisposed : ∀ item ∈ s.pendingTeardowns.entries.map fun entry => (entry.2.object, End.disposed),
      item.2 = .disposed ∧ ∃ key pending, s.pendingTeardowns.lookup key = some pending ∧ item.1 = pending.object := by
    intro item hitem
    obtain ⟨entry, hentry, rfl⟩ := List.mem_map.mp hitem
    exact ⟨rfl, entry.1, entry.2, AList.mem_lookup_iff.mpr hentry, rfl⟩
  constructor
  · exact fun key pending hpend => absurd hpend hempty
  · exact fun key other pending pending' hpend => absurd hpend hempty
  · exact fun key pending hpend => absurd hpend hempty
  · exact fun attempt hattempt key pending hpend => absurd hpend hempty
  · exact h.single
  · exact h.flights
  · exact h.fresh
  · exact h.counted
  · intro object hobject
    right
    rcases h.settled object hobject with ⟨key, pending, hpend, rfl⟩ | ⟨reason, hreason⟩
    · exact ⟨.disposed, List.mem_append_right _ (List.mem_map.mpr ⟨_, AList.mem_lookup_iff.mp hpend, rfl⟩)⟩
    · exact ⟨reason, List.mem_append_left _ hreason⟩
  · intro item hitem
    rcases List.mem_append.mp hitem with hmem | hlast
    · obtain ⟨hless, -, hspent⟩ := h.finals item hmem
      exact ⟨hless, fun key pending hpend => absurd hpend hempty, hspent⟩
    · obtain ⟨hreason, key, pending, hpend, hobject⟩ := hdisposed item hlast
      refine ⟨hobject ▸ (h.keyed key pending hpend).1, fun key pending hpend => absurd hpend hempty, fun hspent => ?_⟩
      rw [hreason] at hspent
      contradiction
  · change ((s.finished ++ s.pendingTeardowns.entries.map _).map Prod.fst).Nodup
    rw [List.map_append, List.map_map]
    refine List.Nodup.append h.once (entries_apart h) fun object hmem hlast => ?_
    obtain ⟨item, hitem, rfl⟩ := List.mem_map.mp hmem
    obtain ⟨entry, hentry, heq⟩ := List.mem_map.mp hlast
    exact (h.finals item hitem).2.1 entry.1 entry.2 (AList.mem_lookup_iff.mpr hentry) heq
  · exact fun _ key pending hpend => absurd hpend hempty

/-! ## Every step -/

theorem Bounded.startAll (h : s.Bounded) (actions : List Action) : (s.startAll actions).Bounded := by
  induction actions generalizing s with
  | nil => exact h
  | cons action actions ih => exact ih (h.start action)

theorem Bounded.goOn (h : s.Bounded) (actions : List Action) (later : Option Action) :
    (s.goOn actions later).Bounded :=
  (h.startAll actions).same rfl rfl rfl rfl rfl rfl

theorem Bounded.endAvLegIfStarted (h : s.Bounded) (call : CallInfo) : (s.endAvLegIfStarted call).Bounded := by
  unfold Bridge.endAvLegIfStarted
  cases call.friendNumber with
  | none => exact h
  | some number =>
    dsimp only
    split_ifs
    · exact h.start _
    · exact h

theorem Bounded.finish (h : s.Bounded) (inviteID : String) (reason : CallInfo → EndReason) :
    (s.finish inviteID reason).Bounded := by
  unfold Bridge.finish
  cases s.activeCalls.lookup inviteID with
  | none => exact h
  | some call => exact (h.endAvLegIfStarted call).same rfl rfl rfl rfl rfl rfl

theorem Bounded.rejectInvitationAsBusy (h : s.Bounded) (inviteID : String) (now : ℤ) :
    (s.rejectInvitationAsBusy inviteID now).Bounded := by
  unfold Bridge.rejectInvitationAsBusy
  cases s.activeCalls.lookup inviteID with
  | none => exact h
  | some call =>
    have hgone : Bounded { s with activeCalls := s.activeCalls.erase inviteID } := h.same rfl rfl rfl rfl rfl rfl
    dsimp only
    split_ifs
    · exact h
    · exact (hgone.endAvLegIfStarted call).same rfl rfl rfl rfl rfl rfl
    · exact hgone.same rfl rfl rfl rfl rfl rfl

theorem Bounded.startLeg (h : s.Bounded) (inviteID : String) (number : ℤ) :
    (s.endAvLegAndWaitForTeardown inviteID number).Bounded := by
  have hleg : Bounded { s with legs := s.legs ++ [(inviteID, number)] } := h.same rfl rfl rfl rfl rfl rfl
  exact hleg.start _

theorem Bounded.markAvLegStarted (h : s.Bounded) (inviteID : String) (number : Option ℤ) (teardownIfMissing : Bool) :
    (s.markAvLegStarted inviteID number teardownIfMissing).Bounded := by
  rcases s.markAvLegStarted_cases inviteID number teardownIfMissing with
    ⟨-, heq⟩ | ⟨n, -, heq⟩ | ⟨call, -, -, heq⟩ <;> rw [heq]
  · exact h
  · exact h.startLeg inviteID n
  · exact h.same rfl rfl rfl rfl rfl rfl

theorem Bounded.run (h : s.Bounded) (op : Op) : (s.run op).Bounded := by
  cases op with
  | register inviteID inviter invitee data friendNumber groupID =>
    change (s.registerOutgoingCall _ _ _ _ _ _).Bounded
    unfold registerOutgoingCall
    split_ifs
    · exact h
    · exact h.same rfl rfl rfl rfl rfl rfl
  | markStarted inviteID number teardownIfMissing => exact h.markAvLegStarted inviteID number teardownIfMissing
  | endLeg inviteID number => exact h.startLeg inviteID number
  | accept inviteID numbers =>
    change (s.acceptInvitation _ _).Bounded
    rcases s.acceptInvitation_cases inviteID numbers with heq | ⟨call, number, -, -, ⟨-, heq⟩ | ⟨n, -, -, heq⟩⟩ <;>
      rw [heq]
    · exact h
    all_goals exact h.same rfl rfl rfl rfl rfl rfl
  | reject inviteID =>
    change (s.rejectInvitation _).Bounded
    unfold Bridge.rejectInvitation
    split_ifs
    all_goals exact h.same rfl rfl rfl rfl rfl rfl
  | rejectBusy inviteID now => exact h.rejectInvitationAsBusy inviteID now
  | endCall inviteID wait =>
    change (s.endCall _ _).Bounded
    unfold Bridge.endCall
    cases s.activeCalls.lookup inviteID with
    | none => exact h
    | some call => exact h.same rfl rfl rfl rfl rfl rfl
  | dispose => exact h.dispose

theorem Bounded.heard (h : s.Bounded) (hu : u.Bounded) : (s.heard u).Bounded := by
  unfold Bridge.heard
  split_ifs
  · exact h
  · exact hu

theorem Bounded.taken (h : s.Bounded) {place : ℕ} {phase : AcceptPhase} {taken : Accept × Bridge}
    (htaken : s.takeAccept place phase = some taken) : taken.2.Bounded := by
  obtain ⟨accept, -, rfl⟩ := Option.map_eq_some_iff.mp htaken
  exact h.same rfl rfl rfl rfl rfl rfl

theorem Bounded.onReceiveNewInvitation (h : s.Bounded) (inviteID inviter groupID : String)
    (inviteeList : List String) (data : String) (numbers : String → ℤ) (now : ℤ) :
    (s.onReceiveNewInvitation inviteID inviter groupID inviteeList data numbers now).Bounded := by
  unfold Bridge.onReceiveNewInvitation
  dsimp only
  split_ifs
  all_goals exact h.same rfl rfl rfl rfl rfl rfl

theorem Bounded.onInviteeAccepted (h : s.Bounded) (inviteID : String) : (s.onInviteeAccepted inviteID).Bounded := by
  unfold Bridge.onInviteeAccepted
  cases s.activeCalls.lookup inviteID with
  | none => exact h
  | some call =>
    dsimp only
    split_ifs
    · exact h.same rfl rfl rfl rfl rfl rfl
    · exact h

theorem Bounded.acceptAnswered (h : s.Bounded) (accept : Accept) (code : ℤ) :
    (s.acceptAnswered accept code).Bounded := by
  unfold Bridge.acceptAnswered
  cases s.current accept with
  | none => exact h
  | some call =>
    dsimp only
    split_ifs
    all_goals exact h.same rfl rfl rfl rfl rfl rfl

theorem Bounded.acceptDrained (h : s.Bounded) (accept : Accept) : (s.acceptDrained accept).Bounded := by
  unfold Bridge.acceptDrained
  cases s.current accept with
  | none => exact h
  | some call => exact h.same rfl rfl rfl rfl rfl rfl

theorem Bounded.callAnswered (h : s.Bounded) (accept : Accept) (avResult : Bool) :
    (s.callAnswered accept avResult).Bounded := by
  unfold Bridge.callAnswered
  cases s.current accept with
  | none =>
    dsimp only
    split_ifs
    · exact h.startLeg _ _
    · exact h
  | some call =>
    dsimp only
    split_ifs
    all_goals exact h.same rfl rfl rfl rfl rfl rfl

theorem Bounded.outside (h : s.Bounded) {outer : Outer} (he : s.outside outer = some u) : u.Bounded := by
  cases outer with
  | invitation inviteID inviter groupID inviteeList data numbers now =>
    exact Option.some.inj he ▸ h.heard (h.onReceiveNewInvitation _ _ _ _ _ _ _)
  | cancelled inviteID => exact Option.some.inj he ▸ h.heard (h.finish _ _)
  | accepted inviteID => exact Option.some.inj he ▸ h.heard (h.onInviteeAccepted _)
  | rejected inviteID lineBusy => exact Option.some.inj he ▸ h.heard (h.finish _ _)
  | timedOut inviteID => exact Option.some.inj he ▸ h.heard (h.finish _ _)
  | acceptAnswered place code =>
    obtain ⟨taken, htaken, rfl⟩ := Option.map_eq_some_iff.mp he
    cases code with
    | none => exact h.taken htaken
    | some code => exact (h.taken htaken).acceptAnswered _ _
  | acceptDrains place =>
    obtain ⟨taken, htaken, rfl⟩ := Option.map_eq_some_iff.mp he
    exact (h.taken (Option.filter_eq_some_iff.mp htaken).1).same rfl rfl rfl rfl rfl rfl
  | acceptResumes place =>
    obtain ⟨taken, htaken, rfl⟩ := Option.map_eq_some_iff.mp he
    exact (h.taken htaken).acceptDrained _
  | callAnswered place avResult =>
    obtain ⟨taken, htaken, rfl⟩ := Option.map_eq_some_iff.mp he
    cases avResult with
    | none => exact h.taken htaken
    | some avResult => exact (h.taken htaken).callAnswered _ _
  | rejectAnswered place code =>
    obtain ⟨inviteID, -, rfl⟩ := Option.map_eq_some_iff.mp he
    cases code with
    | none => exact h.same rfl rfl rfl rfl rfl rfl
    | some code =>
      change (Bridge.rejectAnswered _ inviteID code).Bounded
      unfold Bridge.rejectAnswered
      split_ifs
      all_goals exact h.same rfl rfl rfl rfl rfl rfl
  | attemptAnswered place success =>
    obtain ⟨attempt, hattempt, rfl⟩ := Option.map_eq_some_iff.mp he
    exact h.attemptAnswered hattempt success
  | timerFires key =>
    obtain ⟨pending, hpending, rfl⟩ := Option.map_eq_some_iff.mp he
    obtain ⟨hold, htimer⟩ := Option.filter_eq_some_iff.mp hpending
    exact h.retry hold htimer
  | waitEnds place =>
    obtain ⟨waiting, -, rfl⟩ := Option.map_eq_some_iff.mp he
    have hrest : Bounded { s with waits := s.waits.eraseIdx place } := h.same rfl rfl rfl rfl rfl rfl
    exact hrest.start _

theorem Bounded.step (h : s.Bounded) {e : Event} (he : s.step e = some u) : u.Bounded := by
  cases e with
  | op op => exact Option.some.inj he ▸ h.run op
  | answer busy now =>
    obtain ⟨call, rest, -, rfl⟩ := step_answer he
    have hrest : Bounded { s with stack := rest } := h.same rfl rfl rfl rfl rfl rfl
    unfold Bridge.answered
    split_ifs
    · exact hrest.same rfl rfl rfl rfl rfl rfl
    · exact hrest.heard (hrest.same rfl rfl rfl rfl rfl rfl)
  | back =>
    obtain ⟨actions, later, rest, -, rfl⟩ := step_back he
    have hrest : Bounded { s with stack := rest } := h.same rfl rfl rfl rfl rfl rfl
    exact hrest.goOn actions later
  | threw =>
    obtain ⟨frame, rest, -, rfl⟩ := step_threw he
    exact h.same rfl rfl rfl rfl rfl rfl
  | outer outer => exact h.outside (step_outer he).2

theorem Bounded.initial : Bounded {} := by
  have hempty : ∀ {key : TeardownKey} {pending : PendingTeardown},
      (∅ : AList fun _ : TeardownKey => PendingTeardown).lookup key ≠ some pending := by
    intro key pending hpend
    rw [AList.lookup_empty] at hpend
    contradiction
  exact {
    keyed := fun key pending hpend => absurd hpend hempty
    apart := fun key other pending pending' hpend => absurd hpend hempty
    flying := fun key pending hpend => absurd hpend hempty
    homes := fun attempt hattempt => absurd hattempt List.not_mem_nil
    single := List.nodup_nil
    flights := fun attempt hattempt => absurd hattempt List.not_mem_nil
    fresh := fun object _ => rfl
    counted := fun object hless => absurd hless (Nat.not_lt_zero object)
    settled := fun object hless => absurd hless (Nat.not_lt_zero object)
    finals := fun item hitem => absurd hitem List.not_mem_nil
    once := List.nodup_nil
    last := fun hoff => absurd hoff Bool.false_ne_true }

/-- The teardown is in the table: an attempt is under way, or a timer with a delay of its own runs. -/
def Pending (s : Bridge) (object : ℕ) : Prop :=
  ∃ key pending, s.pendingTeardowns.lookup key = some pending ∧ pending.object = object ∧
    pending.attempts = s.made.count object ∧
    if pending.timer then ∃ delay, teardownRetryDelays[pending.attempts - 1]? = some delay
    else object ∈ s.attempts.map Attempt.object

theorem delay_exists {attempts : ℕ} (hmore : attempts < maxTeardownAttempts) :
    ∃ delay, teardownRetryDelays[attempts - 1]? = some delay := by
  have hless : attempts - 1 < teardownRetryDelays.length := by
    change attempts - 1 < 5
    have hsix : attempts < 6 := hmore
    omega
  exact ⟨_, List.getElem?_eq_getElem hless⟩

theorem Bounded.pending (h : s.Bounded) {key : TeardownKey} {pending : PendingTeardown}
    (hpend : s.pendingTeardowns.lookup key = some pending) : s.Pending pending.object := by
  obtain ⟨-, hmade, hmore⟩ := h.keyed key pending hpend
  refine ⟨key, pending, hpend, rfl, hmade.symm, ?_⟩
  split_ifs with htimer
  · exact delay_exists (hmore htimer)
  · exact (h.flying key pending hpend).mp (Bool.eq_false_iff.mpr htimer)

end Bridge

/-- A teardown makes one to six attempts, never two at once. Until its end an attempt is under way or
    the timer for the next one runs, and that has its delay; it ends once, and is given up only after
    the sixth attempt. After the disposal no teardown is tried again. -/
theorem teardowns_bounded (es : List Event) (s : Bridge) (hrun : exec Bridge.step {} es = some s) :
    (∀ object < s.teardowns, 1 ≤ s.made.count object ∧ s.made.count object ≤ maxTeardownAttempts ∧
      (s.attempts.map Attempt.object).count object ≤ 1 ∧
      (s.Pending object ↔ ∀ reason, (object, reason) ∉ s.finished) ∧ (s.finished.map Prod.fst).count object ≤ 1 ∧
      ((object, End.spent) ∈ s.finished → s.made.count object = maxTeardownAttempts)) ∧
    (∀ object, s.teardowns ≤ object → s.made.count object = 0) ∧
    (s.disposed = true → ∀ key pending, s.pendingTeardowns.lookup key = some pending →
      pending.attempts = 1 ∧ pending.timer = false) := by
  have h : s.Bounded := invariant (fun _ _ _ h he => h.step he) Bridge.Bounded.initial hrun
  refine ⟨fun object hless => ?_, h.fresh, h.last⟩
  obtain ⟨hone, hsix⟩ := h.counted object hless
  refine ⟨hone, hsix, List.nodup_iff_count_le_one.mp h.single object, ⟨?_, fun hnone => ?_⟩,
    List.nodup_iff_count_le_one.mp h.once object, fun hspent => (h.finals _ hspent).2.2 rfl⟩
  · rintro ⟨key, pending, hpend, hobject, -⟩ reason hreason
    exact (h.finals _ hreason).2.1 key pending hpend hobject
  · rcases h.settled object hless with ⟨key, pending, hpend, rfl⟩ | ⟨reason, hreason⟩
    · exact h.pending hpend
    · exact absurd hreason (hnone reason)

/-- Ending a leg fails six times. -/
def failsSixTimes : List Event :=
  .op (.endLeg "call" 3) :: .outer (.attemptAnswered 0 false) :: (List.replicate 5
    [.outer (.timerFires (.avEnd "call" 3)), .outer (.attemptAnswered 0 false)]).flatten

theorem teardown_spent_bounded : ∃ s, exec Bridge.step {} failsSixTimes = some s ∧
    s.finished = [(0, .spent)] ∧ s.made.count 0 = maxTeardownAttempts := by
  have hfinished : (exec Bridge.step {} failsSixTimes).map (fun s => (s.teardowns, s.finished)) =
      some (1, [(0, .spent)]) := by decide
  obtain ⟨s, hs, heq⟩ := Option.map_eq_some_iff.mp hfinished
  obtain ⟨hcount, hends⟩ := Prod.mk.inj heq
  refine ⟨s, hs, hends, ((teardowns_bounded failsSixTimes s hs).1 0 ?_).2.2.2.2.2 ?_⟩
  · rw [hcount]
    exact Nat.one_pos
  · rw [hends]
    exact List.mem_singleton_self _

/-! ## The disposal -/

def Action.inviteID : Action → String
  | .reject inviteID _ | .cancel inviteID | .avEnd inviteID _ => inviteID

/-- What a call needs when the session ends: a leg that has started is ended, an invitation without an
    answer cancelled or rejected. -/
def CallInfo.Needs (call : CallInfo) : Action → Prop
  | .avEnd _ friendNumber => call.avLegStarted = true ∧ call.friendNumber = some friendNumber ∧
      isValidFriendNumber call.friendNumber = true
  | .cancel _ => call.state = .calling
  | .reject _ data => data = none ∧ call.state = .ringing

namespace Bridge

variable {s : Bridge}

theorem mem_disposeAttempts {call : CallInfo} {action : Action} :
    action ∈ disposeAttempts call ↔ action.inviteID = call.inviteID ∧ call.Needs action := by
  unfold disposeAttempts
  rw [List.mem_append]
  constructor
  · rintro (hleg | hinvite)
    · split_ifs at hleg with hstarted
      · obtain ⟨friendNumber, hnumber, rfl⟩ := List.mem_map.mp hleg
        exact ⟨rfl, hstarted.1, Option.mem_toList.mp hnumber, hstarted.2⟩
      · exact absurd hleg List.not_mem_nil
    · split_ifs at hinvite with hcalling hringing
      · rw [List.mem_singleton.mp hinvite]
        exact ⟨rfl, hcalling⟩
      · rw [List.mem_singleton.mp hinvite]
        exact ⟨rfl, rfl, hringing⟩
      · exact absurd hinvite List.not_mem_nil
  · rintro ⟨hid, hneeds⟩
    cases action with
    | avEnd inviteID friendNumber =>
      obtain rfl : inviteID = call.inviteID := hid
      obtain ⟨hstarted, hnumber, hvalid⟩ := hneeds
      left
      rw [if_pos ⟨hstarted, hvalid⟩, hnumber]
      exact List.mem_singleton_self _
    | cancel inviteID =>
      obtain rfl : inviteID = call.inviteID := hid
      have hcalling : call.state = .calling := hneeds
      right
      rw [if_pos hcalling]
      exact List.mem_singleton_self _
    | reject inviteID data =>
      obtain rfl : inviteID = call.inviteID := hid
      obtain ⟨rfl, hringing⟩ := hneeds
      right
      rw [if_neg (by rw [hringing]; decide), if_pos hringing]
      exact List.mem_singleton_self _

theorem nodup_disposeAttempts (call : CallInfo) : (disposeAttempts call).Nodup := by
  unfold disposeAttempts
  refine List.nodup_append.mpr ⟨?_, ?_, ?_⟩
  · split_ifs
    · cases call.friendNumber <;> simp
    · exact List.nodup_nil
  · split_ifs <;> simp
  · intro leg hleg invite hinvite heq
    split_ifs at hleg
    · obtain ⟨friendNumber, -, rfl⟩ := List.mem_map.mp hleg
      split_ifs at hinvite <;> simp [← heq] at hinvite
    · exact absurd hleg List.not_mem_nil

/-- What the disposal asks for is what the active calls need. -/
theorem mem_farewell (hon : s.disposed = false) {action : Action} (h : s.Numbered) :
    action ∈ s.dispose.farewell ↔
      ∃ call, s.activeCalls.lookup action.inviteID = some call ∧ call.Needs action := by
  unfold Bridge.dispose
  rw [if_neg (Bool.eq_false_iff.mp hon)]
  change action ∈ s.activeCalls.entries.flatMap _ ↔ _
  rw [List.mem_flatMap]
  constructor
  · rintro ⟨entry, hentry, haction⟩
    obtain ⟨hid, hneeds⟩ := mem_disposeAttempts.mp haction
    have hcall := lookup_of_mem_entries hentry
    refine ⟨entry.2, ?_, hneeds⟩
    rw [hid, h.named entry.1 entry.2 hcall]
    exact hcall
  · rintro ⟨call, hcall, hneeds⟩
    exact ⟨⟨_, call⟩, mem_entries_of_lookup hcall, mem_disposeAttempts.mpr ⟨(h.named _ call hcall).symm, hneeds⟩⟩

theorem nodup_farewell (hon : s.disposed = false) (h : s.Numbered) : s.dispose.farewell.Nodup := by
  unfold Bridge.dispose
  rw [if_neg (Bool.eq_false_iff.mp hon)]
  refine List.nodup_flatMap.mpr ⟨fun entry _ => nodup_disposeAttempts entry.2, ?_⟩
  -- two calls have two ids, and each action is for the id of its call
  refine (List.NodupKeys.pairwise_ne s.activeCalls.nodupKeys).imp_of_mem fun {first second} hfirst hsecond hne => ?_
  refine List.disjoint_left.mpr fun action hin hin' => hne ?_
  rw [← h.named _ _ (lookup_of_mem_entries hfirst), ← h.named _ _ (lookup_of_mem_entries hsecond),
    ← (mem_disposeAttempts.mp hin).1, ← (mem_disposeAttempts.mp hin').1]

end Bridge

/-- No leg is forgotten at the end of a session: the disposal asks once for each thing that an active call
    needs, and for nothing else; a leg that it does not ask for has had an attempt already, or gets one
    from the function that a callback interrupts. -/
theorem disposal_asks_once (es : List Event) (s : Bridge) (hrun : exec Bridge.step {} es = some s)
    (hmeets : Meets Bridge.step Orderly {} es) (hon : s.disposed = false) :
    s.dispose.farewell.Nodup ∧
      (∀ action, action ∈ s.dispose.farewell ↔
        ∃ call, s.activeCalls.lookup action.inviteID = some call ∧ call.Needs action) ∧
      ∀ leg ∈ s.legs, Action.avEnd leg.1 leg.2 ∈ s.dispose.farewell ∨
        (∃ pending, s.pendingTeardowns.lookup (.avEnd leg.1 leg.2) = some pending ∧
          1 ≤ s.made.count pending.object) ∨
        ∃ actions later, Frame.starts actions later ∈ s.stack ∧ Action.avEnd leg.1 leg.2 ∈ actions := by
  have h : s.Sound := invariant_of_meets (fun _ _ _ h hc he => h.step hc he) Bridge.Sound.fresh hmeets hrun
  have hbounded : s.Bounded := invariant (fun _ _ _ h he => h.step he) Bridge.Bounded.initial hrun
  refine ⟨Bridge.nodup_farewell hon h.numbered, fun action => Bridge.mem_farewell hon h.numbered, fun leg hleg => ?_⟩
  rcases h.held leg hleg with ⟨call, hcall, hneeds⟩ | hpend | hframe
  · exact .inl ((Bridge.mem_farewell hon h.numbered).mpr ⟨call, hcall, hneeds⟩)
  · obtain ⟨pending, hpending⟩ := Option.isSome_iff_exists.mp (AList.lookup_isSome.mpr hpend)
    exact .inr (.inl ⟨pending, hpending, (hbounded.counted _ (hbounded.keyed _ pending hpending).1).1⟩)
  · exact .inr (.inr hframe)

/-- An outgoing call has its leg, an invitation rings, and a leg of before has failed to end once. -/
def callsAtDisposal : List Event :=
  [.op (.register "out" "self" "bob" "" (some 3) none), .op (.markStarted "out" (some 3) true),
    .outer (.invitation "in" "eve" "" ["self"] "" (fun _ => 4) 0), .answer false 0, .op (.endLeg "gone" 5),
    .outer (.attemptAnswered 0 false)]

theorem calls_at_disposal_asked_once : ∃ s, exec Bridge.step {} callsAtDisposal = some s ∧
    s.legs = [("out", 3), ("gone", 5)] ∧ s.dispose.farewell.Nodup ∧
    ∀ action ∈ [Action.avEnd "out" 3, .cancel "out", .reject "in" none], action ∈ s.dispose.farewell := by
  have hlegs : (exec Bridge.step {} callsAtDisposal).map (fun s => (s.disposed, s.legs,
      [Action.avEnd "out" 3, .cancel "out", .reject "in" none].all (· ∈ s.dispose.farewell))) =
      some (false, [("out", 3), ("gone", 5)], true) := by decide
  have hmeets : Meets Bridge.step Orderly {} callsAtDisposal := by decide
  obtain ⟨s, hs, heq⟩ := Option.map_eq_some_iff.mp hlegs
  obtain ⟨hon, hrest⟩ := Prod.mk.inj heq
  obtain ⟨hlegs, hasked⟩ := Prod.mk.inj hrest
  refine ⟨s, hs, hlegs, (disposal_asks_once callsAtDisposal s hs hmeets hon).1, fun action haction => ?_⟩
  exact of_decide_eq_true (List.all_eq_true.mp hasked action haction)

end Tim2Tox.CallBridge
