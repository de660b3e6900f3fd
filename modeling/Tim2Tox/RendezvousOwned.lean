import Tim2Tox.RendezvousOps

set_option autoImplicit false

/-!
# The owned snapshot

`Owns` reads a snapshot that each mutating operation republishes by hand, or
leaves alone because no held number changed. Both kinds are exact.
-/
namespace Tim2Tox.RendezvousGroups
open RendezvousCodec

def HeldByCell (r : Registry) (n : GroupNumber) : Prop :=
  n ≠ noGroup ∧ ∃ (id : ChatIdHex) (c : Cell), r.cells[id]? = some c ∧ c.groupNumber = n

/-- The registry holds group `n`: as a cell, a zombie or a retiring orphan. -/
def Holds (r : Registry) (n : GroupNumber) : Prop :=
  HeldByCell r n ∨ n ∈ r.zombies ∨ n ∈ r.retiringOrphans

def Exact (r : Registry) : Prop := ∀ n, owns r n = true ↔ Holds r n

theorem mem_ownedNumbers (r : Registry) (n : GroupNumber) : n ∈ ownedNumbers r ↔ Holds r n := by
  unfold ownedNumbers Holds HeldByCell
  simp only [List.mem_append, List.mem_filter, List.mem_map, Std.TreeMap.mem_keys,
    decide_eq_true_eq, ne_eq, or_assoc]
  constructor
  · rintro (⟨⟨⟨id, c⟩, hmem, rfl⟩, hn⟩ | h)
    · exact .inl ⟨hn, id, c, Std.TreeMap.mem_toList_iff_getElem?_eq_some.mp hmem, rfl⟩
    · exact .inr h
  · rintro (⟨hn, id, c, hc, rfl⟩ | h)
    · exact .inl ⟨⟨(id, c), Std.TreeMap.mem_toList_iff_getElem?_eq_some.mpr hc, rfl⟩, hn⟩
    · exact .inr h

theorem publishOwned_exact (r : Registry) : Exact (publishOwned r) := by
  intro n
  have hholds : Holds (publishOwned r) n ↔ Holds r n := Iff.rfl
  rw [hholds, ← mem_ownedNumbers]
  unfold owns publishOwned
  simp [Std.TreeSet.contains_ofList]

/-- The group the cell under `id` holds in toxcore, if any. -/
def groupAt (r : Registry) (id : ChatIdHex) : Option GroupNumber :=
  (r.cells[id]?.map Cell.groupNumber).filter (· ≠ noGroup)

theorem heldByCell_iff (r : Registry) (n : GroupNumber) :
    HeldByCell r n ↔ ∃ id, groupAt r id = some n := by
  simp only [HeldByCell, groupAt, Option.filter_eq_some_iff, Option.map_eq_some_iff,
    decide_eq_true_eq]
  constructor
  · rintro ⟨hn, id, c, hc, hg⟩
    exact ⟨id, ⟨c, hc, hg⟩, hn⟩
  · rintro ⟨id, ⟨c, hc, hg⟩, hn⟩
    exact ⟨hn, id, c, hc, hg⟩

/-- An operation that moves no number need not republish. -/
theorem exact_of_frame {r r' : Registry} (h : Exact r) (howned : r'.owned = r.owned)
    (hz : r'.zombies = r.zombies) (ho : r'.retiringOrphans = r.retiringOrphans)
    (hg : ∀ id, groupAt r' id = groupAt r id) : Exact r' := by
  intro n
  have hcell : HeldByCell r' n ↔ HeldByCell r n := by simp only [heldByCell_iff, hg]
  have hholds : Holds r' n ↔ Holds r n := by unfold Holds; rw [hcell, hz, ho]
  rw [hholds, ← h n]
  unfold owns
  rw [howned]

theorem groupAt_insert {r : Registry} {id : ChatIdHex} {c : Cell} (c' : Cell)
    (hc : r.cells[id]? = some c) (hg : c'.groupNumber = c.groupNumber) (i : ChatIdHex) :
    groupAt { r with cells := r.cells.insert id c' } i = groupAt r i := by
  unfold groupAt
  by_cases heq : id = i
  · subst heq
    simp [hc, hg]
  · simp [heq, Std.TreeMap.getElem?_insert]

theorem callback_exact {r : Registry} (h : Exact r) (n : GroupNumber)
    (f : Cell → Cell × List Line) (hf : ∀ c, (f c).1.groupNumber = c.groupNumber) :
    Exact (callback r n f).1 := by
  unfold callback
  cases ha : activeCell r n with
  | none => exact h
  | some entry =>
    obtain ⟨id, c⟩ := entry
    obtain ⟨-, hc, -⟩ := activeCell_some ha
    exact exact_of_frame h rfl rfl rfl (groupAt_insert _ hc (hf c))

theorem timers_groupNumber (now : Ms) (c : Cell) : (c.timers now).groupNumber = c.groupNumber := by
  obtain h | ⟨-, -, -, -, -, h⟩ | ⟨-, -, -, -, -, h⟩ | ⟨-, -, w, n, h⟩ := timers_cases now c
  · rw [h]
  · rw [h]
  · obtain ⟨w, n, hb⟩ := enterBackoff_eq now { c with pendingLeave := true, leaveReason := .stale }
    rw [h, hb]
  · rw [h]

theorem plan_groupNumber (r : Registry) (now : Ms) (c : Cell) :
    (planCell r now c).1.groupNumber = c.groupNumber := by
  unfold planCell Cell.plan
  split_ifs with hr
  · rfl
  · rw [← timers_groupNumber now c]
    obtain h | ⟨-, h⟩ | ⟨-, -, -, -, h⟩ := emit_cases r.accepting r.generation
      (blocked r c.chatIdHex) now (c.timers now)
    · rw [h]
    · rw [h]
    · rw [h]

theorem groupAt_plan (r : Registry) (now : Ms) (id : ChatIdHex) :
    groupAt (plan r now).1 id = groupAt r id := by
  unfold groupAt plan
  cases hc : r.cells[id]? with
  | none => simp [hc]
  | some c => simp [hc, plan_groupNumber]

theorem requestJoin_exact (derive : Seed → Option ChatId) {r : Registry} (h : Exact r) (seed : Seed)
    (name nick : String) (now : Ms) : Exact (requestJoin derive r seed name nick now).1 := by
  unfold requestJoin
  cases joinTarget derive seed name nick with
  | none => exact h
  | some chatId =>
    cases ha : r.accepting with
    | false => exact h
    | true =>
      cases hc : r.cells[hex chatId.toList]? with
      | none =>
        refine exact_of_frame h (by simp [hc]) (by simp [hc]) (by simp [hc]) fun i => ?_
        by_cases heq : hex chatId.toList = i
        · subst heq
          simp [groupAt, hc, newCell]
        · simp [groupAt, hc, heq, Std.TreeMap.getElem?_insert]
      | some c =>
        by_cases hr : c.state = .retiring
        · simp only [Bool.not_true, Bool.false_eq_true, if_false, hc, hr, ne_eq, not_true_eq_false]
          exact exact_of_frame h rfl rfl rfl (groupAt_insert c.deferRejoin hc rfl)
        · simpa only [Bool.not_true, Bool.false_eq_true, if_false, hc, hr, ne_eq,
            not_false_eq_true, if_true] using h

theorem requestLeave_exact {r : Registry} (h : Exact r) (id : ChatIdHex) (now : Ms) :
    Exact (requestLeave r id now).1 := by
  unfold requestLeave
  cases hc : r.cells[id]? with
  | none => exact h
  | some c =>
    obtain ⟨-, hl⟩ | ⟨-, -, hl⟩ | ⟨-, -, hl⟩ := requestLeave_cases now c
    · simp only [hl]
      exact exact_of_frame h rfl rfl rfl (groupAt_insert _ hc rfl)
    · simp only [hl]
      exact publishOwned_exact _
    · simp only [hl]
      exact exact_of_frame h rfl rfl rfl (groupAt_insert _ hc rfl)

theorem requestLeaveAll_exact {r : Registry} (h : Exact r) (now : Ms) :
    Exact (requestLeaveAll r now).1 := by
  unfold requestLeaveAll
  refine List.foldlRecOn (motive := fun acc : Registry × ℕ => Exact acc.1) _ _ h ?_
  intro acc hacc id _
  exact requestLeave_exact hacc id now

theorem selfJoin_groupNumber (now : Ms) (c : Cell) :
    (c.selfJoin now).1.groupNumber = c.groupNumber := rfl

theorem peerJoin_groupNumber (peer : PeerId) (pk : PeerPkHex) (now : Ms) (c : Cell) :
    (c.peerJoin peer pk now).1.groupNumber = c.groupNumber := by
  obtain ⟨-, h⟩ | ⟨-, b, co, since, retries, h⟩ := peerJoin_cases peer pk now c <;> rw [h]

theorem peerExit_groupNumber (peer : PeerId) (selfDisconnected : Bool) (now : Ms) (c : Cell) :
    (c.peerExit peer selfDisconnected now).1.groupNumber = c.groupNumber := by
  obtain ⟨-, h⟩ | ⟨-, b, co, h⟩ := peerExit_cases peer selfDisconnected now c <;> rw [h]

theorem expelled_groupNumber (reason : Reason) (now : Ms) (c : Cell) :
    (c.expelled reason now).groupNumber = c.groupNumber := by
  obtain ⟨start, retries, h⟩ := expelled_eq reason now c
  rw [h]

theorem packet_groupNumber (peer : PeerId) (pk : PeerPkHex) (isPrivate : Bool)
    (payload : List UInt8) (now : Ms) (c : Cell) :
    (c.packet peer pk isPrivate payload now).1.groupNumber = c.groupNumber := by
  obtain ⟨peers, budget, -, h⟩ := packet_eq peer pk isPrivate payload now c
  rw [h]

theorem onPacket_exact {r : Registry} (h : Exact r) (n : GroupNumber) (peer : PeerId)
    (pk : PeerPkHex) (isPrivate : Bool) (payload : List UInt8) (now : Ms) :
    Exact (onPacket r n peer pk isPrivate payload now).1 := by
  unfold onPacket
  cases ha : activeCell r n with
  | none => exact exact_of_frame h rfl rfl rfl fun _ => rfl
  | some entry =>
    obtain ⟨id, c⟩ := entry
    obtain ⟨-, hc, -⟩ := activeCell_some ha
    exact exact_of_frame h rfl rfl rfl
      (groupAt_insert _ hc (packet_groupNumber peer pk isPrivate payload now c))

theorem onJoinIssued_exact {r : Registry} (h : Exact r) (id : ChatIdHex) (n : GroupNumber)
    (ok : Bool) (now : Ms) (generation attempt : ℕ) :
    Exact (onJoinIssued r id n ok now generation attempt).1 := by
  unfold onJoinIssued
  cases r.cells[id]? with
  | none => exact h
  | some c =>
    dsimp only
    split_ifs
    · exact publishOwned_exact _
    · exact h

theorem onFoundIssued_exact {r : Registry} (h : Exact r) (id : ChatIdHex) (n : GroupNumber)
    (ok : Bool) (now : Ms) (generation attempt : ℕ) :
    Exact (onFoundIssued r id n ok now generation attempt).1 := by
  unfold onFoundIssued
  cases r.cells[id]? with
  | none => exact h
  | some c =>
    dsimp only
    split_ifs
    · exact publishOwned_exact _
    · exact h

theorem onLeaveIssued_exact {r : Registry} (h : Exact r) (id : ChatIdHex) (reason : Reason)
    (now : Ms) (n : GroupNumber) : Exact (onLeaveIssued r id reason now n) := by
  unfold onLeaveIssued
  cases r.cells[id]? with
  | none => exact h
  | some c =>
    dsimp only
    split_ifs
    · exact h
    · exact publishOwned_exact _
    · exact publishOwned_exact _

theorem onLeaveFailed_exact {r : Registry} (h : Exact r) (id : ChatIdHex) (now : Ms) :
    Exact (onLeaveFailed r id now) := by
  unfold onLeaveFailed
  cases hc : r.cells[id]? with
  | none => exact h
  | some c => exact exact_of_frame h rfl rfl rfl (groupAt_insert (c.leaveFailed now) hc rfl)

theorem bufferLine_exact {r : Registry} (h : Exact r) (line : Line) :
    Exact (bufferLine r line).1 := by
  unfold bufferLine
  split_ifs <;> exact exact_of_frame h rfl rfl rfl fun _ => rfl

theorem apply_exact (derive : Seed → Option ChatId) {r : Registry} (h : Exact r) (o : Op) :
    Exact (apply derive r o) := by
  cases o with
  | clear | noteRetiringOrphan | onRetired | noteZombie | forgetZombie | takeZombies =>
    exact publishOwned_exact _
  | requestJoin seed name nick now => exact requestJoin_exact derive h seed name nick now
  | requestLeave id now => exact requestLeave_exact h id now
  | requestLeaveAll now => exact requestLeaveAll_exact h now
  | plan now => exact exact_of_frame h rfl rfl rfl (groupAt_plan r now)
  | onJoinIssued id n ok now generation attempt =>
    exact onJoinIssued_exact h id n ok now generation attempt
  | onFoundIssued id n ok now generation attempt =>
    exact onFoundIssued_exact h id n ok now generation attempt
  | onLeaveIssued id reason now n => exact onLeaveIssued_exact h id reason now n
  | onLeaveFailed id now => exact onLeaveFailed_exact h id now
  | onSelfJoin n now => exact callback_exact h n _ (selfJoin_groupNumber now)
  | onPeerJoin n peer pk now => exact callback_exact h n _ (peerJoin_groupNumber peer pk now)
  | onPeerExit n peer self now => exact callback_exact h n _ (peerExit_groupNumber peer self now)
  | onJoinFail n peerLimit now => exact callback_exact h n _ fun c => expelled_groupNumber _ now c
  | onKickedSelf n now => exact callback_exact h n _ fun c => expelled_groupNumber _ now c
  | onPacket n peer pk isPrivate payload now =>
    exact onPacket_exact h n peer pk isPrivate payload now
  | bufferLine line => exact bufferLine_exact h line
  | setConvention | setAccepting | bumpGeneration | beginInflight | endInflight
  | takeBufferedLines => exact exact_of_frame h rfl rfl rfl fun _ => rfl

theorem initial_exact : Exact {} := by
  intro n
  simp [owns, Holds, HeldByCell]

/-- The snapshot is exact after any sequence of public operations. -/
theorem owns_iff_holds (derive : Seed → Option ChatId) (ops : List Op) (n : GroupNumber) :
    owns (ops.foldl (apply derive) {}) n = true ↔ Holds (ops.foldl (apply derive) {}) n := by
  have hrun : ∀ (ops : List Op) (r : Registry), Exact r → Exact (ops.foldl (apply derive) r) := by
    intro ops
    induction ops with
    | nil => exact fun _ h => h
    | cons o ops ih => exact fun r h => ih _ (apply_exact derive h o)
  exact hrun ops {} initial_exact n

end Tim2Tox.RendezvousGroups
