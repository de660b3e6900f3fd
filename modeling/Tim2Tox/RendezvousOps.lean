import Tim2Tox.RendezvousCells

set_option autoImplicit false

/-!
# The public operations of the rendezvous registry

One label for each mutating operation, with the effect of each on the cell
under one key. `hits` says which keys an operation reaches and `act` what it
makes of the cell there; every invariant of cells is proved from these two.
-/
namespace Tim2Tox.RendezvousGroups
open RendezvousCodec

inductive Op where
  | setConvention (convention : Convention)
  | setAccepting (accepting : Bool)
  | bumpGeneration
  | beginInflight
  | endInflight
  | clear
  | requestJoin (seed : Seed) (name nick : String) (now : Ms)
  | requestLeave (id : ChatIdHex) (now : Ms)
  | requestLeaveAll (now : Ms)
  | plan (now : Ms)
  | onJoinIssued (id : ChatIdHex) (n : GroupNumber) (ok : Bool) (now : Ms) (generation attempt : ℕ)
  | onFoundIssued (id : ChatIdHex) (n : GroupNumber) (ok : Bool) (now : Ms) (generation attempt : ℕ)
  | onLeaveIssued (id : ChatIdHex) (reason : Reason) (now : Ms) (n : GroupNumber)
  | noteRetiringOrphan (n : GroupNumber) (id : ChatIdHex)
  | onRetired (id : ChatIdHex) (n : GroupNumber) (now : Ms)
  | onLeaveFailed (id : ChatIdHex) (now : Ms)
  | noteZombie (n : GroupNumber) (id : ChatIdHex)
  | forgetZombie (n : GroupNumber)
  | takeZombies
  | onSelfJoin (n : GroupNumber) (now : Ms)
  | onPeerJoin (n : GroupNumber) (peer : PeerId) (pk : PeerPkHex) (now : Ms)
  | onPeerExit (n : GroupNumber) (peer : PeerId) (selfDisconnected : Bool) (now : Ms)
  | onJoinFail (n : GroupNumber) (peerLimit : Bool) (now : Ms)
  | onKickedSelf (n : GroupNumber) (now : Ms)
  | onPacket (n : GroupNumber) (peer : PeerId) (pk : PeerPkHex) (isPrivate : Bool)
      (payload : List UInt8) (now : Ms)
  | bufferLine (line : Line)
  | takeBufferedLines
  deriving DecidableEq

section
variable (derive : Seed → Option ChatId)

def apply (r : Registry) : Op → Registry
  | .setConvention convention => { r with convention }
  | .setAccepting accepting => setAccepting r accepting
  | .bumpGeneration => bumpGeneration r
  | .beginInflight => beginInflight r
  | .endInflight => endInflight r
  | .clear => clear r
  | .requestJoin seed name nick now => (requestJoin derive r seed name nick now).1
  | .requestLeave id now => (requestLeave r id now).1
  | .requestLeaveAll now => (requestLeaveAll r now).1
  | .plan now => (plan r now).1
  | .onJoinIssued id n ok now generation attempt => (onJoinIssued r id n ok now generation attempt).1
  | .onFoundIssued id n ok now generation attempt =>
    (onFoundIssued r id n ok now generation attempt).1
  | .onLeaveIssued id reason now n => onLeaveIssued r id reason now n
  | .noteRetiringOrphan n id => noteRetiringOrphan r n id
  | .onRetired id n now => onRetired r id n now
  | .onLeaveFailed id now => onLeaveFailed r id now
  | .noteZombie n id => noteZombie r n id
  | .forgetZombie n => forgetZombie r n
  | .takeZombies => (takeZombies r).1
  | .onSelfJoin n now => (onSelfJoin r n now).1
  | .onPeerJoin n peer pk now => (onPeerJoin r n peer pk now).1
  | .onPeerExit n peer selfDisconnected now => (onPeerExit r n peer selfDisconnected now).1
  | .onJoinFail n peerLimit now => (onJoinFail r n peerLimit now).1
  | .onKickedSelf n now => (onKickedSelf r n now).1
  | .onPacket n peer pk isPrivate payload now => (onPacket r n peer pk isPrivate payload now).1
  | .bufferLine line => (bufferLine r line).1
  | .takeBufferedLines => (takeBufferedLines r).1

/-- The chat id a join request is admitted for. -/
def Op.requested (r : Registry) (seed : Seed) (name nick : String) : Option ChatId :=
  (joinTarget derive seed name nick).filter fun _ => r.accepting

/-- Whether the operation reaches the cell under `id`. -/
def Op.hits (r : Registry) (id : ChatIdHex) : Op → Bool
  | .clear | .requestLeaveAll _ | .plan _ => true
  | .requestJoin seed name nick _ =>
    (Op.requested derive r seed name nick).any fun chatId => hex chatId.toList = id
  | .requestLeave id' _ | .onJoinIssued id' _ _ _ _ _ | .onFoundIssued id' _ _ _ _ _
  | .onLeaveIssued id' _ _ _ | .onRetired id' _ _ | .onLeaveFailed id' _ => id' = id
  | .onSelfJoin n _ | .onPeerJoin n _ _ _ | .onPeerExit n _ _ _ | .onJoinFail n _ _
  | .onKickedSelf n _ | .onPacket n _ _ _ _ _ => (activeCell r n).any fun entry => entry.1 = id
  | _ => false

/-- The cell a join request is answered with, over the cell that is there. -/
def Op.joinCell (r : Registry) (seed : Seed) (name nick : String) (now : Ms) :
    Option Cell → Option Cell
  | some c => some (if c.state = .retiring then c.deferRejoin else c)
  | none => (joinTarget derive seed name nick).map fun chatId =>
      newCell r.nextAttempt seed chatId name nick now

def Cell.issued (generation : ℕ) (record : Cell → Cell) (refused : Cell → Bool)
    (generation' attempt : ℕ) (c : Cell) : Cell :=
  if c.awaits generation generation' attempt && !refused c then record c else c

def Cell.left (nextAttempt : ℕ) (reason : Reason) (now : Ms) (n : GroupNumber) (c : Cell) :
    Option Cell :=
  if c.groupNumber ≠ n then some c
  else if n = noGroup then (c.leaveIssued reason now).finishRetire nextAttempt now
  else some { c.leaveIssued reason now with state := .retiring }

def Cell.retired (nextAttempt : ℕ) (now : Ms) (n : GroupNumber) (c : Cell) : Option Cell :=
  if c.state = .retiring ∧ c.groupNumber = n then c.finishRetire nextAttempt now else some c

/-- What the operation makes of a cell it reaches. -/
def Op.act (r : Registry) : Op → Option Cell → Option Cell
  | .clear, _ => none
  | .requestJoin seed name nick now, c => Op.joinCell derive r seed name nick now c
  | .requestLeave _ now, c | .requestLeaveAll now, c => c.bind (Cell.requestLeave now)
  | .plan now, c => c.map fun c => (planCell r now c).1
  | .onJoinIssued _ n ok now generation attempt, c =>
    c.map (Cell.issued r.generation (Cell.joinIssued n ok now) (fun _ => false) generation attempt)
  | .onFoundIssued _ n ok now generation attempt, c =>
    c.map (Cell.issued r.generation (Cell.foundIssued n ok now) Cell.pendingLeave generation attempt)
  | .onLeaveIssued _ reason now n, c => c.bind (Cell.left r.nextAttempt reason now n)
  | .onRetired _ n now, c => c.bind (Cell.retired r.nextAttempt now n)
  | .onLeaveFailed _ now, c => c.map (Cell.leaveFailed now)
  | .onSelfJoin _ now, c => c.map fun c => (c.selfJoin now).1
  | .onPeerJoin _ peer pk now, c => c.map fun c => (c.peerJoin peer pk now).1
  | .onPeerExit _ peer selfDisconnected now, c =>
    c.map fun c => (c.peerExit peer selfDisconnected now).1
  | .onJoinFail _ peerLimit now, c => c.map fun c => (c.joinFail peerLimit now).1
  | .onKickedSelf _ now, c => c.map fun c => (c.kickedSelf now).1
  | .onPacket _ peer pk isPrivate payload now, c =>
    c.map fun c => (c.packet peer pk isPrivate payload now).1
  | _, c => c

end

/-! ## Lookups -/

@[simp] theorem publishOwned_cells (r : Registry) : (publishOwned r).cells = r.cells := rfl
@[simp] theorem publishOwned_zombies (r : Registry) : (publishOwned r).zombies = r.zombies := rfl
@[simp] theorem publishOwned_retiringOrphans (r : Registry) :
    (publishOwned r).retiringOrphans = r.retiringOrphans := rfl
@[simp] theorem publishOwned_generation (r : Registry) :
    (publishOwned r).generation = r.generation := rfl
@[simp] theorem publishOwned_nextAttempt (r : Registry) :
    (publishOwned r).nextAttempt = r.nextAttempt := rfl
@[simp] theorem publishOwned_accepting (r : Registry) :
    (publishOwned r).accepting = r.accepting := rfl

theorem findByGroup_some {r : Registry} {n : GroupNumber} {id : ChatIdHex} {c : Cell}
    (h : findByGroup r n = some (id, c)) :
    n ≠ noGroup ∧ r.cells[id]? = some c ∧ c.groupNumber = n := by
  unfold findByGroup at h
  split_ifs at h with hn
  have hmem := List.mem_of_find?_eq_some h
  have hgroup := List.find?_some h
  exact ⟨hn, Std.TreeMap.mem_toList_iff_getElem?_eq_some.mp hmem, by simpa using hgroup⟩

theorem activeCell_some {r : Registry} {n : GroupNumber} {id : ChatIdHex} {c : Cell}
    (h : activeCell r n = some (id, c)) :
    n ≠ noGroup ∧ r.cells[id]? = some c ∧ c.groupNumber = n ∧ c.state ≠ .retiring := by
  unfold activeCell at h
  obtain ⟨hf, hs⟩ := Option.filter_eq_some_iff.mp h
  obtain ⟨hn, hc, hg⟩ := findByGroup_some hf
  exact ⟨hn, hc, hg, by simpa using hs⟩

/-- A callback changes the cell it reaches and nothing else. -/
theorem callback_cells (r : Registry) (n : GroupNumber) (f : Cell → Cell × List Line)
    (id : ChatIdHex) : (callback r n f).1.cells[id]? =
      if (activeCell r n).any (fun entry => entry.1 = id) then
        r.cells[id]?.map fun c => (f c).1 else r.cells[id]? := by
  unfold callback
  cases h : activeCell r n with
  | none => simp
  | some entry =>
    obtain ⟨id', c⟩ := entry
    obtain ⟨-, hc, -⟩ := activeCell_some h
    by_cases heq : id' = id
    · subst heq
      simp [hc]
    · simp [heq, Std.TreeMap.getElem?_insert]

theorem requestLeave_cells (r : Registry) (id' : ChatIdHex) (now : Ms) (id : ChatIdHex) :
    (requestLeave r id' now).1.cells[id]? =
      if id' = id then r.cells[id]?.bind (Cell.requestLeave now) else r.cells[id]? := by
  unfold requestLeave
  by_cases heq : id' = id
  · subst heq
    cases hc : r.cells[id']? with
    | none => simp [hc]
    | some c => cases hl : c.requestLeave now <;> simp [hl]
  · cases hc : r.cells[id']? with
    | none => simp [heq]
    | some c =>
      cases hl : c.requestLeave now <;>
        simp [hl, heq, Std.TreeMap.getElem?_insert, Std.TreeMap.getElem?_erase]

/-- Leaving a list of distinct cells leaves each of them once. -/
theorem leaveEach_cells (now : Ms) (ids : List ChatIdHex) (acc : Registry × ℕ) (id : ChatIdHex)
    (hnd : ids.Nodup) :
    (ids.foldl (fun (acc : Registry × ℕ) id =>
      let (r', ok) := requestLeave acc.1 id now
      (r', if ok then acc.2 + 1 else acc.2)) acc).1.cells[id]? =
      if id ∈ ids then acc.1.cells[id]?.bind (Cell.requestLeave now) else acc.1.cells[id]? := by
  induction ids generalizing acc with
  | nil => simp
  | cons i ids ih =>
    rw [List.nodup_cons] at hnd
    rw [List.foldl_cons, ih _ hnd.2]
    dsimp only
    rw [requestLeave_cells]
    by_cases heq : i = id
    · subst heq
      simp [hnd.1]
    · simp [heq, Ne.symm heq]

theorem requestLeaveAll_cells (r : Registry) (now : Ms) (id : ChatIdHex) :
    (requestLeaveAll r now).1.cells[id]? = r.cells[id]?.bind (Cell.requestLeave now) := by
  unfold requestLeaveAll
  rw [leaveEach_cells now _ _ id (Std.TreeMap.nodup_keys)]
  split_ifs with hmem
  · rfl
  · have hn : r.cells[id]? = none := by
      simpa [Std.TreeMap.mem_keys] using hmem
    simp [hn]

theorem requestJoin_cells (derive : Seed → Option ChatId) (r : Registry) (seed : Seed)
    (name nick : String) (now : Ms) (id : ChatIdHex) :
    (requestJoin derive r seed name nick now).1.cells[id]? =
      if (Op.requested derive r seed name nick).any (fun chatId => hex chatId.toList = id) then
        Op.joinCell derive r seed name nick now r.cells[id]? else r.cells[id]? := by
  unfold requestJoin Op.requested
  cases ht : joinTarget derive seed name nick with
  | none => simp
  | some chatId =>
    cases ha : r.accepting with
    | false => simp
    | true =>
      by_cases heq : hex chatId.toList = id
      · subst heq
        cases hc : r.cells[hex chatId.toList]? with
        | none => simp [Op.joinCell, ht, hc]
        | some c => by_cases hr : c.state = .retiring <;> simp [Op.joinCell, hr, hc]
      · cases hc : r.cells[hex chatId.toList]? with
        | none => simp [hc, heq, Std.TreeMap.getElem?_insert]
        | some c =>
          by_cases hr : c.state = .retiring <;> simp [hc, hr, heq, Std.TreeMap.getElem?_insert]

theorem onJoinIssued_cells (r : Registry) (id' : ChatIdHex) (n : GroupNumber) (ok : Bool) (now : Ms)
    (generation attempt : ℕ) (id : ChatIdHex) :
    (onJoinIssued r id' n ok now generation attempt).1.cells[id]? =
      if id' = id then r.cells[id]?.map (Cell.issued r.generation (Cell.joinIssued n ok now)
        (fun _ => false) generation attempt) else r.cells[id]? := by
  unfold onJoinIssued
  cases hc : r.cells[id']? with
  | none => by_cases heq : id' = id <;> simp_all
  | some c =>
    dsimp only
    split_ifs with ha heq heq
    · subst heq
      simp [hc, Cell.issued, ha]
    · simp [heq, Std.TreeMap.getElem?_insert]
    · subst heq
      simp [hc, Cell.issued, ha]
    · rfl

theorem onFoundIssued_cells (r : Registry) (id' : ChatIdHex) (n : GroupNumber) (ok : Bool)
    (now : Ms) (generation attempt : ℕ) (id : ChatIdHex) :
    (onFoundIssued r id' n ok now generation attempt).1.cells[id]? =
      if id' = id then r.cells[id]?.map (Cell.issued r.generation (Cell.foundIssued n ok now)
        Cell.pendingLeave generation attempt) else r.cells[id]? := by
  unfold onFoundIssued
  cases hc : r.cells[id']? with
  | none => by_cases heq : id' = id <;> simp_all
  | some c =>
    dsimp only
    split_ifs with ha heq heq
    · subst heq
      simp only [publishOwned_cells, Std.TreeMap.getElem?_insert_self, hc, Option.map_some,
        Cell.issued, ha, if_true]
    · simp [heq, Std.TreeMap.getElem?_insert]
    · subst heq
      simp only [hc, Option.map_some, Cell.issued, ha, if_false, Bool.false_eq_true]
    · rfl

theorem finishRetire_cells (r : Registry) (id' : ChatIdHex) (now : Ms) (c : Cell)
    (id : ChatIdHex) : (finishRetire r id' now c).cells[id]? =
      if id' = id then c.finishRetire r.nextAttempt now else r.cells[id]? := by
  unfold finishRetire
  cases hf : c.finishRetire r.nextAttempt now with
  | none => by_cases heq : id' = id <;> simp [heq, Std.TreeMap.getElem?_erase]
  | some c' => by_cases heq : id' = id <;> simp [heq, Std.TreeMap.getElem?_insert]

theorem onLeaveIssued_cells (r : Registry) (id' : ChatIdHex) (reason : Reason) (now : Ms)
    (n : GroupNumber) (id : ChatIdHex) :
    (onLeaveIssued r id' reason now n).cells[id]? =
      if id' = id then r.cells[id]?.bind (Cell.left r.nextAttempt reason now n)
      else r.cells[id]? := by
  unfold onLeaveIssued
  cases hc : r.cells[id']? with
  | none => by_cases heq : id' = id <;> simp_all
  | some c =>
    by_cases hg : c.groupNumber = n
    · subst hg
      by_cases hn : c.groupNumber = noGroup
      · by_cases heq : id' = id
        · subst heq
          simp [hc, hn, Cell.leaveIssued, Cell.left, finishRetire_cells]
        · simp [hn, heq, Cell.leaveIssued, finishRetire_cells]
      · by_cases heq : id' = id
        · subst heq
          simp [hc, hn, Cell.leaveIssued, Cell.left]
        · simp [hn, heq, Cell.leaveIssued, Std.TreeMap.getElem?_insert]
    · by_cases heq : id' = id
      · subst heq
        simp [hc, hg, Cell.left]
      · simp [hg, heq]

theorem dropOrphan_cells (r : Registry) (id : ChatIdHex) (n : GroupNumber) :
    (dropOrphan r id n).cells = r.cells := by
  unfold dropOrphan
  split_ifs <;> rfl

theorem dropOrphan_nextAttempt (r : Registry) (id : ChatIdHex) (n : GroupNumber) :
    (dropOrphan r id n).nextAttempt = r.nextAttempt := by
  unfold dropOrphan
  split_ifs <;> rfl

theorem onRetired_cells (r : Registry) (id' : ChatIdHex) (n : GroupNumber) (now : Ms)
    (id : ChatIdHex) : (onRetired r id' n now).cells[id]? =
      if id' = id then r.cells[id]?.bind (Cell.retired r.nextAttempt now n) else r.cells[id]? := by
  unfold onRetired
  simp only [publishOwned_cells, dropOrphan_cells]
  cases hc : r.cells[id']? with
  | none => by_cases heq : id' = id <;> simp_all [dropOrphan_cells]
  | some c =>
    dsimp only
    split_ifs with hr heq heq
    · subst heq
      simp [finishRetire_cells, dropOrphan_nextAttempt, hc, Cell.retired, hr]
    · simp [finishRetire_cells, dropOrphan_cells, heq]
    · subst heq
      simp [dropOrphan_cells, hc, Cell.retired, hr]
    · rw [dropOrphan_cells]

theorem onLeaveFailed_cells (r : Registry) (id' : ChatIdHex) (now : Ms) (id : ChatIdHex) :
    (onLeaveFailed r id' now).cells[id]? =
      if id' = id then r.cells[id]?.map (Cell.leaveFailed now) else r.cells[id]? := by
  unfold onLeaveFailed
  cases hc : r.cells[id']? with
  | none => by_cases heq : id' = id <;> simp_all
  | some c =>
    by_cases heq : id' = id
    · subst heq
      simp [hc]
    · simp [heq, Std.TreeMap.getElem?_insert]

theorem onPacket_cells (r : Registry) (n : GroupNumber) (peer : PeerId) (pk : PeerPkHex)
    (isPrivate : Bool) (payload : List UInt8) (now : Ms) (id : ChatIdHex) :
    (onPacket r n peer pk isPrivate payload now).1.cells[id]? =
      if (activeCell r n).any (fun entry => entry.1 = id) then
        r.cells[id]?.map fun c => (c.packet peer pk isPrivate payload now).1
      else r.cells[id]? := by
  unfold onPacket
  cases h : activeCell r n with
  | none => simp
  | some entry =>
    obtain ⟨id', c⟩ := entry
    obtain ⟨-, hc, -⟩ := activeCell_some h
    by_cases heq : id' = id
    · subst heq
      simp [hc]
    · simp [heq, Std.TreeMap.getElem?_insert]

/-- The cell under a key after an operation. -/
theorem cells_apply (derive : Seed → Option ChatId) (r : Registry) (o : Op) (id : ChatIdHex) :
    (apply derive r o).cells[id]? =
      if o.hits derive r id then o.act derive r r.cells[id]? else r.cells[id]? := by
  cases o with
  | clear => simp [apply, clear, Op.hits, Op.act]
  | requestJoin seed name nick now => exact requestJoin_cells derive r seed name nick now id
  | requestLeave id' now => simp [apply, Op.hits, Op.act, requestLeave_cells]
  | requestLeaveAll now => simp [apply, Op.hits, Op.act, requestLeaveAll_cells]
  | plan now => simp [apply, Op.hits, Op.act, plan]
  | onJoinIssued => simp [apply, Op.hits, Op.act, onJoinIssued_cells]
  | onFoundIssued => simp [apply, Op.hits, Op.act, onFoundIssued_cells]
  | onLeaveIssued => simp [apply, Op.hits, Op.act, onLeaveIssued_cells]
  | onRetired => simp [apply, Op.hits, Op.act, onRetired_cells]
  | onLeaveFailed => simp [apply, Op.hits, Op.act, onLeaveFailed_cells]
  | onSelfJoin n now => exact callback_cells r n _ id
  | onPeerJoin n peer pk now => exact callback_cells r n _ id
  | onPeerExit n peer selfDisconnected now => exact callback_cells r n _ id
  | onJoinFail n peerLimit now => exact callback_cells r n _ id
  | onKickedSelf n now => exact callback_cells r n _ id
  | onPacket n peer pk isPrivate payload now =>
    exact onPacket_cells r n peer pk isPrivate payload now id
  | bufferLine line =>
    unfold apply bufferLine
    split_ifs <;> rfl
  | _ => rfl

/-! ## Every effect of an operation on one cell -/

/-- What an operation can do to the cell under `id`, with the guard of each effect. -/
inductive OpEffect (derive : Seed → Option ChatId) (r : Registry) (id : ChatIdHex) :
    Op → Option Cell → Option Cell → Prop where
  | missed {o : Op} {c : Option Cell} (h : o.hits derive r id = false) : OpEffect derive r id o c c
  | absent {o : Op} (h : ∀ seed name nick now, o ≠ .requestJoin seed name nick now) :
    OpEffect derive r id o none none
  | cleared {c : Option Cell} : OpEffect derive r id .clear c none
  | created {seed : Seed} {name nick : String} {now : Ms} {chatId : ChatId}
    (target : joinTarget derive seed name nick = some chatId) (key : hex chatId.toList = id)
    (admitted : r.accepting = true) :
    OpEffect derive r id (.requestJoin seed name nick now) none
      (some (newCell r.nextAttempt seed chatId name nick now))
  | present {seed : Seed} {name nick : String} {now : Ms} {c : Cell} (h : c.state ≠ .retiring) :
    OpEffect derive r id (.requestJoin seed name nick now) (some c) (some c)
  | deferred {seed : Seed} {name nick : String} {now : Ms} {c : Cell} (h : c.state = .retiring) :
    OpEffect derive r id (.requestJoin seed name nick now) (some c) (some c.deferRejoin)
  | leaveAsked {o : Op} {now : Ms} {c : Cell}
    (h : o = .requestLeave id now ∨ o = .requestLeaveAll now) :
    OpEffect derive r id o (some c) (c.requestLeave now)
  | planned {now : Ms} {c : Cell} :
    OpEffect derive r id (.plan now) (some c) (some (planCell r now c).1)
  | joinIssued {n : GroupNumber} {ok : Bool} {now : Ms} {generation attempt : ℕ} {c : Cell} :
    OpEffect derive r id (.onJoinIssued id n ok now generation attempt) (some c)
      (some (c.issued r.generation (Cell.joinIssued n ok now) (fun _ => false) generation attempt))
  | foundIssued {n : GroupNumber} {ok : Bool} {now : Ms} {generation attempt : ℕ} {c : Cell} :
    OpEffect derive r id (.onFoundIssued id n ok now generation attempt) (some c)
      (some (c.issued r.generation (Cell.foundIssued n ok now) Cell.pendingLeave generation attempt))
  | left {reason : Reason} {now : Ms} {n : GroupNumber} {c : Cell} :
    OpEffect derive r id (.onLeaveIssued id reason now n) (some c)
      (c.left r.nextAttempt reason now n)
  | retired {n : GroupNumber} {now : Ms} {c : Cell} :
    OpEffect derive r id (.onRetired id n now) (some c) (c.retired r.nextAttempt now n)
  | kept {now : Ms} {c : Cell} :
    OpEffect derive r id (.onLeaveFailed id now) (some c) (some (c.leaveFailed now))
  | selfJoin {n : GroupNumber} {now : Ms} {c : Cell} (h : activeCell r n = some (id, c)) :
    OpEffect derive r id (.onSelfJoin n now) (some c) (some (c.selfJoin now).1)
  | peerJoin {n : GroupNumber} {peer : PeerId} {pk : PeerPkHex} {now : Ms} {c : Cell}
    (h : activeCell r n = some (id, c)) :
    OpEffect derive r id (.onPeerJoin n peer pk now) (some c) (some (c.peerJoin peer pk now).1)
  | peerExit {n : GroupNumber} {peer : PeerId} {self : Bool} {now : Ms} {c : Cell}
    (h : activeCell r n = some (id, c)) :
    OpEffect derive r id (.onPeerExit n peer self now) (some c) (some (c.peerExit peer self now).1)
  | joinFail {n : GroupNumber} {peerLimit : Bool} {now : Ms} {c : Cell}
    (h : activeCell r n = some (id, c)) :
    OpEffect derive r id (.onJoinFail n peerLimit now) (some c)
      (some (c.expelled (if peerLimit then .full else .failed) now))
  | kicked {n : GroupNumber} {now : Ms} {c : Cell} (h : activeCell r n = some (id, c)) :
    OpEffect derive r id (.onKickedSelf n now) (some c) (some (c.expelled .kicked now))
  | packet {n : GroupNumber} {peer : PeerId} {pk : PeerPkHex} {isPrivate : Bool}
    {payload : List UInt8} {now : Ms} {c : Cell} (h : activeCell r n = some (id, c)) :
    OpEffect derive r id (.onPacket n peer pk isPrivate payload now) (some c)
      (some (c.packet peer pk isPrivate payload now).1)

theorem active_of_hits {r : Registry} {n : GroupNumber} {id : ChatIdHex} {c : Cell}
    (hc : r.cells[id]? = some c)
    (h : ((activeCell r n).any fun entry => entry.1 = id) = true) :
    activeCell r n = some (id, c) := by
  cases ha : activeCell r n with
  | none => simp [ha] at h
  | some entry =>
    obtain ⟨id', c'⟩ := entry
    have hid : id' = id := by simpa [ha] using h
    subst hid
    obtain ⟨-, hc', -⟩ := activeCell_some ha
    rw [hc] at hc'
    rw [Option.some.inj hc']

theorem apply_effect_absent (derive : Seed → Option ChatId) (r : Registry) (o : Op)
    (id : ChatIdHex) (hhits : o.hits derive r id = true) :
    OpEffect derive r id o none (o.act derive r none) := by
  cases o with
  | requestJoin seed name nick now =>
    simp only [Op.hits, Op.requested, Option.any_filter, Option.any_eq_true, Bool.and_eq_true,
      decide_eq_true_eq] at hhits
    obtain ⟨chatId, ht, hacc, hid⟩ := hhits
    simp only [Op.act, Op.joinCell, ht, Option.map_some]
    exact .created ht hid hacc
  | clear => exact .cleared
  | _ => exact .absent (by simp)

theorem apply_effect_some (derive : Seed → Option ChatId) (r : Registry) (o : Op)
    (id : ChatIdHex) (c : Cell) (hc : r.cells[id]? = some c) (hhits : o.hits derive r id = true) :
    OpEffect derive r id o (some c) (o.act derive r (some c)) := by
  cases o with
  | requestJoin seed name nick now =>
    simp only [Op.act, Op.joinCell]
    split_ifs with hr
    · exact .deferred hr
    · exact .present hr
  | clear => exact .cleared
  | requestLeave id' now =>
    obtain rfl : id' = id := by simpa [Op.hits] using hhits
    exact .leaveAsked (.inl rfl)
  | requestLeaveAll now => exact .leaveAsked (.inr rfl)
  | plan now => exact .planned
  | onJoinIssued id' n ok now generation attempt =>
    obtain rfl : id' = id := by simpa [Op.hits] using hhits
    exact .joinIssued
  | onFoundIssued id' n ok now generation attempt =>
    obtain rfl : id' = id := by simpa [Op.hits] using hhits
    exact .foundIssued
  | onLeaveIssued id' reason now n =>
    obtain rfl : id' = id := by simpa [Op.hits] using hhits
    exact .left
  | onRetired id' n now =>
    obtain rfl : id' = id := by simpa [Op.hits] using hhits
    exact .retired
  | onLeaveFailed id' now =>
    obtain rfl : id' = id := by simpa [Op.hits] using hhits
    exact .kept
  | onSelfJoin n now => exact .selfJoin (active_of_hits hc hhits)
  | onPeerJoin n peer pk now => exact .peerJoin (active_of_hits hc hhits)
  | onPeerExit n peer self now => exact .peerExit (active_of_hits hc hhits)
  | onJoinFail n peerLimit now => exact .joinFail (active_of_hits hc hhits)
  | onKickedSelf n now => exact .kicked (active_of_hits hc hhits)
  | onPacket n peer pk isPrivate payload now => exact .packet (active_of_hits hc hhits)
  | _ => simp [Op.hits] at hhits

theorem apply_effect (derive : Seed → Option ChatId) (r : Registry) (o : Op) (id : ChatIdHex) :
    OpEffect derive r id o r.cells[id]? (apply derive r o).cells[id]? := by
  rw [cells_apply]
  split_ifs with hhits
  · cases hc : r.cells[id]? with
    | none => exact apply_effect_absent derive r o id hhits
    | some c => exact apply_effect_some derive r o id c hc hhits
  · exact .missed (by simpa using hhits)

/-! ## Identity and attempt of a cell -/

/-- What a result is matched against: the chat id and the attempt. -/
def Cell.tag (c : Cell) : ChatIdHex × ℕ := (c.chatIdHex, c.attempt)

theorem enterBackoff_tag (now : Ms) (c : Cell) : (Cell.enterBackoff now c).tag = c.tag := by
  obtain ⟨w, n, h⟩ := enterBackoff_eq now c
  rw [h]
  rfl

theorem timers_tag (now : Ms) (c : Cell) : (c.timers now).tag = c.tag := by
  obtain h | ⟨-, -, -, -, -, h⟩ | ⟨-, -, -, -, -, h⟩ | ⟨-, -, w, n, h⟩ := timers_cases now c
  · rw [h]
  · rw [h]
    rfl
  · rw [h, enterBackoff_tag]
    rfl
  · rw [h]
    rfl

theorem plan_tag (r : Registry) (now : Ms) (c : Cell) : (planCell r now c).1.tag = c.tag := by
  unfold planCell Cell.plan
  split_ifs with hr
  · rfl
  · rw [← timers_tag now c]
    obtain h | ⟨-, h⟩ | ⟨-, -, -, -, h⟩ := emit_cases r.accepting r.generation
      (blocked r c.chatIdHex) now (c.timers now) <;> rw [h] <;> rfl

/-- A planned action carries the stamps of its cell and registry. -/
theorem plan_action {r : Registry} {now : Ms} {c : Cell} {a : Action}
    (h : (planCell r now c).2 = some a) :
    (a.chatIdHex, a.attempt) = c.tag ∧ a.generation = r.generation ∧ c.state ≠ .retiring := by
  unfold planCell Cell.plan at h
  split_ifs at h with hr
  rw [← timers_tag now c]
  obtain he | ⟨-, he⟩ | ⟨-, -, -, -, he⟩ := emit_cases r.accepting r.generation
    (blocked r c.chatIdHex) now (c.timers now) <;> rw [he] at h <;> cases h
  · exact ⟨rfl, rfl, hr⟩
  · exact ⟨rfl, rfl, hr⟩

theorem requestLeave_tag {now : Ms} {c c' : Cell} (h : c.requestLeave now = some c') :
    c'.tag = c.tag := by
  obtain ⟨-, hl⟩ | ⟨-, -, hl⟩ | ⟨-, -, hl⟩ := requestLeave_cases now c <;>
    rw [hl] at h <;> cases h <;> rfl

theorem joinIssued_tag (n : GroupNumber) (ok : Bool) (now : Ms) (c : Cell) :
    (c.joinIssued n ok now).tag = c.tag := by
  obtain ⟨-, h⟩ | h := joinIssued_cases n ok now c <;> rw [h]
  · rfl
  · exact enterBackoff_tag now _

theorem foundIssued_tag (n : GroupNumber) (ok : Bool) (now : Ms) (c : Cell) :
    (c.foundIssued n ok now).tag = c.tag := by
  obtain ⟨-, h⟩ | h := foundIssued_cases n ok now c <;> rw [h]
  · rfl
  · exact enterBackoff_tag now _

theorem issued_tag {generation generation' attempt : ℕ} {record : Cell → Cell}
    {refused : Cell → Bool} (hr : ∀ c, (record c).tag = c.tag) (c : Cell) :
    (c.issued generation record refused generation' attempt).tag = c.tag := by
  unfold Cell.issued
  split_ifs
  · exact hr c
  · rfl

theorem finishRetire_tag {nextAttempt : ℕ} {now : Ms} {c c' : Cell}
    (h : c.finishRetire nextAttempt now = some c') :
    (c.renews = false ∧ c'.tag = c.tag) ∨ (c.renews = true ∧ c'.tag = (c.chatIdHex, nextAttempt)) := by
  obtain ⟨hj, hf⟩ | ⟨-, -, hf⟩ | ⟨hj, hl, hr, hf⟩ | ⟨hj, -, -, hr, -, hf⟩ | ⟨hj, -, -, hr, hf⟩ :=
    finishRetire_cases nextAttempt now c <;> rw [hf] at h <;> cases h
  · exact .inr ⟨by simp [Cell.renews, hj], rfl⟩
  · exact .inr ⟨by simp [Cell.renews, hl, hr], rfl⟩
  · exact .inl ⟨by simp [Cell.renews, hj, hr], rfl⟩
  · exact .inl ⟨by simp [Cell.renews, hj, hr], enterBackoff_tag now _⟩

theorem left_tag {nextAttempt : ℕ} {reason : Reason} {now : Ms} {n : GroupNumber} {c c' : Cell}
    (h : c.left nextAttempt reason now n = some c') :
    c'.tag = c.tag ∨ (n = noGroup ∧ c.groupNumber = n ∧ (c.leaveIssued reason now).renews = true ∧
      c'.tag = (c.chatIdHex, nextAttempt)) := by
  unfold Cell.left at h
  split_ifs at h with hg hn
  · cases h
    exact .inl rfl
  · obtain ⟨-, ht⟩ | ⟨hr, ht⟩ := finishRetire_tag h
    · exact .inl ht
    · exact .inr ⟨hn, by simpa using hg, hr, ht⟩
  · cases h
    exact .inl rfl

theorem retired_tag {nextAttempt : ℕ} {now : Ms} {n : GroupNumber} {c c' : Cell}
    (h : c.retired nextAttempt now n = some c') :
    c'.tag = c.tag ∨ (c.state = .retiring ∧ c.groupNumber = n ∧ c.renews = true ∧
      c'.tag = (c.chatIdHex, nextAttempt)) := by
  unfold Cell.retired at h
  split_ifs at h with hr
  · obtain ⟨-, ht⟩ | ⟨hn, ht⟩ := finishRetire_tag h
    · exact .inl ht
    · exact .inr ⟨hr.1, hr.2, hn, ht⟩
  · cases h
    exact .inl rfl

theorem peerJoin_tag (peer : PeerId) (pk : PeerPkHex) (now : Ms) (c : Cell) :
    (c.peerJoin peer pk now).1.tag = c.tag := by
  obtain ⟨-, h⟩ | ⟨-, b, co, since, retries, h⟩ := peerJoin_cases peer pk now c <;> rw [h]
  rfl

theorem peerExit_tag (peer : PeerId) (self : Bool) (now : Ms) (c : Cell) :
    (c.peerExit peer self now).1.tag = c.tag := by
  obtain ⟨-, h⟩ | ⟨-, b, co, h⟩ := peerExit_cases peer self now c <;> rw [h]
  rfl

theorem expelled_tag (reason : Reason) (now : Ms) (c : Cell) :
    (c.expelled reason now).tag = c.tag := by
  obtain ⟨start, retries, h⟩ := expelled_eq reason now c
  rw [h]
  rfl

theorem packet_tag (peer : PeerId) (pk : PeerPkHex) (isPrivate : Bool) (payload : List UInt8)
    (now : Ms) (c : Cell) : (c.packet peer pk isPrivate payload now).1.tag = c.tag := by
  obtain ⟨peers, budget, -, h⟩ := packet_eq peer pk isPrivate payload now c
  rw [h]
  rfl

/-! ## Counters -/

/-- The admission flag and the generation, which few operations write. -/
def Registry.gate (r : Registry) : Bool × ℕ := (r.accepting, r.generation)

@[simp] theorem publishOwned_gate (r : Registry) : (publishOwned r).gate = r.gate := rfl

/-- Whether the operation takes a fresh attempt number. -/
def Op.renews (derive : Seed → Option ChatId) (r : Registry) : Op → Bool
  | .requestJoin seed name nick _ =>
    (Op.requested derive r seed name nick).any fun chatId => r.cells[hex chatId.toList]?.isNone
  | .onLeaveIssued id reason now n =>
    r.cells[id]?.any fun c => c.groupNumber = n ∧ n = noGroup ∧ (c.leaveIssued reason now).renews
  | .onRetired id n _ =>
    r.cells[id]?.any fun c => c.state = .retiring ∧ c.groupNumber = n ∧ c.renews
  | _ => false

theorem requestLeave_gate (r : Registry) (id : ChatIdHex) (now : Ms) :
    (requestLeave r id now).1.gate = r.gate ∧
      (requestLeave r id now).1.nextAttempt = r.nextAttempt := by
  unfold requestLeave
  cases r.cells[id]? with
  | none => exact ⟨rfl, rfl⟩
  | some c =>
    dsimp only
    cases c.requestLeave now with
    | none => exact ⟨rfl, rfl⟩
    | some c' => exact ⟨rfl, rfl⟩

/-- What leaving one cell keeps, leaving all keeps. -/
theorem requestLeaveAll_keeps {β : Type} (g : Registry → β) (now : Ms)
    (h : ∀ r id, g (requestLeave r id now).1 = g r) (r : Registry) :
    g (requestLeaveAll r now).1 = g r := by
  unfold requestLeaveAll
  have hfold : ∀ (ids : List ChatIdHex) (acc : Registry × ℕ),
      g (ids.foldl (fun (acc : Registry × ℕ) id =>
        let (r', ok) := requestLeave acc.1 id now
        (r', if ok then acc.2 + 1 else acc.2)) acc).1 = g acc.1 := by
    intro ids
    induction ids with
    | nil => exact fun _ => rfl
    | cons id ids ih => exact fun acc => (ih _).trans (h acc.1 id)
  exact hfold _ _

theorem requestLeaveAll_gate (r : Registry) (now : Ms) :
    (requestLeaveAll r now).1.gate = r.gate ∧
      (requestLeaveAll r now).1.nextAttempt = r.nextAttempt :=
  ⟨requestLeaveAll_keeps Registry.gate now (fun r id => (requestLeave_gate r id now).1) r,
    requestLeaveAll_keeps Registry.nextAttempt now (fun r id => (requestLeave_gate r id now).2) r⟩

theorem requestJoin_gate (derive : Seed → Option ChatId) (r : Registry) (seed : Seed)
    (name nick : String) (now : Ms) :
    (requestJoin derive r seed name nick now).1.gate = r.gate ∧
      (requestJoin derive r seed name nick now).1.nextAttempt = r.nextAttempt +
        if (Op.requestJoin seed name nick now).renews derive r then 1 else 0 := by
  obtain ht | ⟨chatId, ht⟩ := Option.eq_none_or_eq_some (joinTarget derive seed name nick)
  · simp [requestJoin, Op.renews, Op.requested, ht]
  · cases ha : r.accepting with
    | false => simp [requestJoin, Op.renews, Op.requested, ht, ha]
    | true =>
      obtain hc | ⟨c, hc⟩ := Option.eq_none_or_eq_some r.cells[hex chatId.toList]?
      · simp [requestJoin, Op.renews, Op.requested, ht, ha, hc, Registry.gate]
      · by_cases hr : c.state = .retiring <;>
          simp [requestJoin, Op.renews, Op.requested, ht, ha, hc, hr, Registry.gate]

theorem dropOrphan_gate (r : Registry) (id : ChatIdHex) (n : GroupNumber) :
    (dropOrphan r id n).gate = r.gate := by
  unfold dropOrphan
  split_ifs <;> rfl

theorem finishRetire_gate (r : Registry) (id : ChatIdHex) (now : Ms) (c : Cell) :
    (finishRetire r id now c).gate = r.gate ∧ (finishRetire r id now c).nextAttempt =
      r.nextAttempt + if c.renews then 1 else 0 := by
  refine ⟨rfl, ?_⟩
  unfold finishRetire
  dsimp only
  split_ifs <;> rfl

theorem onLeaveIssued_gate (r : Registry) (id : ChatIdHex) (reason : Reason) (now : Ms)
    (n : GroupNumber) (derive : Seed → Option ChatId) :
    (onLeaveIssued r id reason now n).gate = r.gate ∧
      (onLeaveIssued r id reason now n).nextAttempt = r.nextAttempt +
        if (Op.onLeaveIssued id reason now n).renews derive r then 1 else 0 := by
  obtain hc | ⟨c, hc⟩ := Option.eq_none_or_eq_some r.cells[id]?
  · simp [onLeaveIssued, Op.renews, hc]
  · by_cases hg : c.groupNumber = n
    · subst hg
      have hl : (c.leaveIssued reason now).groupNumber = c.groupNumber := rfl
      by_cases hn : c.groupNumber = noGroup
      · simpa [onLeaveIssued, Op.renews, hc, hl, hn] using
          finishRetire_gate r id now (c.leaveIssued reason now)
      · simp [onLeaveIssued, Op.renews, hc, hl, hn, Registry.gate]
    · simp [onLeaveIssued, Op.renews, hc, hg]

theorem onRetired_gate (r : Registry) (id : ChatIdHex) (n : GroupNumber) (now : Ms)
    (derive : Seed → Option ChatId) :
    (onRetired r id n now).gate = r.gate ∧
      (onRetired r id n now).nextAttempt = r.nextAttempt +
        if (Op.onRetired id n now).renews derive r then 1 else 0 := by
  have hg := dropOrphan_gate r id n
  have ha := dropOrphan_nextAttempt r id n
  obtain hc | ⟨c, hc⟩ := Option.eq_none_or_eq_some r.cells[id]?
  · simp only [onRetired, Op.renews, dropOrphan_cells, hc]
    exact ⟨hg, ha⟩
  · simp only [onRetired, Op.renews, dropOrphan_cells, hc, Option.any_some, decide_eq_true_eq]
    by_cases hr : c.state = .retiring ∧ c.groupNumber = n
    · obtain ⟨hg', ha'⟩ := finishRetire_gate (dropOrphan r id n) id now c
      rw [if_pos hr]
      refine ⟨hg'.trans hg, ?_⟩
      rw [publishOwned_nextAttempt, ha', ha]
      simp [hr]
    · have hno : ¬(c.state = .retiring ∧ c.groupNumber = n ∧ c.renews = true) :=
        fun h => hr ⟨h.1, h.2.1⟩
      rw [if_neg hr, if_neg hno]
      exact ⟨hg, ha⟩

theorem issued_gate (r : Registry) (id : ChatIdHex) (n : GroupNumber) (ok : Bool) (now : Ms)
    (generation attempt : ℕ) :
    ((onJoinIssued r id n ok now generation attempt).1.gate = r.gate ∧
      (onJoinIssued r id n ok now generation attempt).1.nextAttempt = r.nextAttempt) ∧
    (onFoundIssued r id n ok now generation attempt).1.gate = r.gate ∧
      (onFoundIssued r id n ok now generation attempt).1.nextAttempt = r.nextAttempt := by
  unfold onJoinIssued onFoundIssued
  cases r.cells[id]? with
  | none => exact ⟨⟨rfl, rfl⟩, rfl, rfl⟩
  | some c =>
    dsimp only
    constructor <;> split_ifs <;> exact ⟨rfl, rfl⟩

theorem callback_gate (r : Registry) (n : GroupNumber) (f : Cell → Cell × List Line) :
    (callback r n f).1.gate = r.gate ∧ (callback r n f).1.nextAttempt = r.nextAttempt := by
  unfold callback
  cases activeCell r n <;> exact ⟨rfl, rfl⟩

theorem nextAttempt_apply (derive : Seed → Option ChatId) (r : Registry) (o : Op) :
    (apply derive r o).nextAttempt = r.nextAttempt + if o.renews derive r then 1 else 0 := by
  cases o with
  | requestJoin seed name nick now => exact (requestJoin_gate derive r seed name nick now).2
  | requestLeave id now => exact (requestLeave_gate r id now).2
  | requestLeaveAll now => exact (requestLeaveAll_gate r now).2
  | onJoinIssued id n ok now generation attempt =>
    exact (issued_gate r id n ok now generation attempt).1.2
  | onFoundIssued id n ok now generation attempt =>
    exact (issued_gate r id n ok now generation attempt).2.2
  | onLeaveIssued id reason now n => exact (onLeaveIssued_gate r id reason now n derive).2
  | onRetired id n now => exact (onRetired_gate r id n now derive).2
  | onLeaveFailed id now =>
    simp only [apply, onLeaveFailed]
    cases r.cells[id]? <;> rfl
  | onSelfJoin n now => exact (callback_gate r n _).2
  | onPeerJoin n peer pk now => exact (callback_gate r n _).2
  | onPeerExit n peer self now => exact (callback_gate r n _).2
  | onJoinFail n peerLimit now => exact (callback_gate r n _).2
  | onKickedSelf n now => exact (callback_gate r n _).2
  | onPacket n peer pk isPrivate payload now =>
    simp only [apply, onPacket]
    cases activeCell r n <;> rfl
  | bufferLine line =>
    simp only [apply, bufferLine, Op.renews]
    split <;> rfl
  | _ => rfl

/-- Whether the operation writes the admission flag or the generation. -/
def Op.opensGate : Op → Bool
  | .setAccepting _ | .bumpGeneration | .clear => true
  | _ => false

theorem gate_apply (derive : Seed → Option ChatId) (r : Registry) {o : Op}
    (h : o.opensGate = false) : (apply derive r o).gate = r.gate := by
  cases o with
  | setAccepting | bumpGeneration | clear => cases h
  | requestJoin seed name nick now => exact (requestJoin_gate derive r seed name nick now).1
  | requestLeave id now => exact (requestLeave_gate r id now).1
  | requestLeaveAll now => exact (requestLeaveAll_gate r now).1
  | onJoinIssued id n ok now generation attempt =>
    exact (issued_gate r id n ok now generation attempt).1.1
  | onFoundIssued id n ok now generation attempt =>
    exact (issued_gate r id n ok now generation attempt).2.1
  | onLeaveIssued id reason now n => exact (onLeaveIssued_gate r id reason now n derive).1
  | onRetired id n now => exact (onRetired_gate r id n now derive).1
  | onLeaveFailed id now =>
    simp only [apply, onLeaveFailed]
    cases r.cells[id]? <;> rfl
  | onSelfJoin n now => exact (callback_gate r n _).1
  | onPeerJoin n peer pk now => exact (callback_gate r n _).1
  | onPeerExit n peer self now => exact (callback_gate r n _).1
  | onJoinFail n peerLimit now => exact (callback_gate r n _).1
  | onKickedSelf n now => exact (callback_gate r n _).1
  | onPacket n peer pk isPrivate payload now =>
    simp only [apply, onPacket]
    cases activeCell r n <;> rfl
  | bufferLine line =>
    simp only [apply, bufferLine]
    split_ifs <;> rfl
  | _ => rfl

theorem generation_apply_le (derive : Seed → Option ChatId) (r : Registry) (o : Op) :
    r.generation ≤ (apply derive r o).generation := by
  by_cases h : o.opensGate = true
  · cases o <;> first | exact Nat.le_refl _ | exact Nat.le_succ _ | cases h
  · exact Nat.le_of_eq (congrArg Prod.snd (gate_apply derive r (by simpa using h))).symm

/-- What the driver's report answers, in terms of the cell. -/
theorem onJoinIssued_answer {r : Registry} {id : ChatIdHex} {c : Cell} (hc : r.cells[id]? = some c)
    (n : GroupNumber) (ok : Bool) (now : Ms) (generation attempt : ℕ) :
    (onJoinIssued r id n ok now generation attempt).2 = c.awaits r.generation generation attempt := by
  unfold onJoinIssued
  rw [hc]
  dsimp only
  cases h : c.awaits r.generation generation attempt <;> simp

theorem onFoundIssued_answer {r : Registry} {id : ChatIdHex} {c : Cell} (hc : r.cells[id]? = some c)
    (n : GroupNumber) (ok : Bool) (now : Ms) (generation attempt : ℕ) :
    (onFoundIssued r id n ok now generation attempt).2 =
      (c.awaits r.generation generation attempt && !c.pendingLeave) := by
  unfold onFoundIssued
  rw [hc]
  dsimp only
  cases h : c.awaits r.generation generation attempt && !c.pendingLeave <;> simp

/-! ## Zombies and orphans under an operation -/

/-- What the registry holds outside its cells. -/
def Registry.stores (r : Registry) :
    Std.TreeMap GroupNumber ChatIdHex × Std.TreeMap GroupNumber ChatIdHex :=
  (r.zombies, r.retiringOrphans)

/-- Whether the operation moves a zombie or an orphan. -/
def Op.moves : Op → Bool
  | .clear | .noteRetiringOrphan .. | .onRetired .. | .noteZombie .. | .forgetZombie _
  | .takeZombies => true
  | _ => false

theorem requestLeave_stores (r : Registry) (id : ChatIdHex) (now : Ms) :
    (requestLeave r id now).1.stores = r.stores := by
  unfold requestLeave
  cases r.cells[id]? with
  | none => rfl
  | some c =>
    dsimp only
    cases c.requestLeave now <;> rfl

theorem callback_stores (r : Registry) (n : GroupNumber) (f : Cell → Cell × List Line) :
    (callback r n f).1.stores = r.stores := by
  unfold callback
  split <;> rfl

theorem stores_apply (derive : Seed → Option ChatId) (r : Registry) {o : Op}
    (h : o.moves = false) : (apply derive r o).stores = r.stores := by
  cases o with
  | clear | noteRetiringOrphan | onRetired | noteZombie | forgetZombie | takeZombies => cases h
  | requestJoin seed name nick now =>
    unfold apply requestJoin
    dsimp only
    split
    · rfl
    · split_ifs
      · rfl
      · split
        · split_ifs <;> rfl
        · rfl
  | requestLeave id now => exact requestLeave_stores r id now
  | requestLeaveAll now => exact requestLeaveAll_keeps Registry.stores now (requestLeave_stores · · now) r
  | onJoinIssued id n ok now generation attempt =>
    unfold apply onJoinIssued
    dsimp only
    split
    · rfl
    · split_ifs <;> rfl
  | onFoundIssued id n ok now generation attempt =>
    unfold apply onFoundIssued
    dsimp only
    split
    · rfl
    · split_ifs <;> rfl
  | onLeaveIssued id reason now n =>
    unfold apply onLeaveIssued
    dsimp only
    split
    · rfl
    · split_ifs <;> rfl
  | onLeaveFailed id now =>
    unfold apply onLeaveFailed
    dsimp only
    split <;> rfl
  | onSelfJoin | onPeerJoin | onPeerExit | onJoinFail | onKickedSelf => exact callback_stores r _ _
  | onPacket n peer pk isPrivate payload now =>
    unfold apply onPacket
    dsimp only
    split <;> rfl
  | bufferLine line =>
    unfold apply bufferLine
    dsimp only
    split_ifs <;> rfl
  | setConvention | setAccepting | bumpGeneration | beginInflight | endInflight | plan
  | takeBufferedLines => rfl

/-! ## Tags under an operation -/

/-- An operation keeps the tag of a cell, unless it renews the attempt from the counter. -/
theorem effect_tag {derive : Seed → Option ChatId} {r : Registry} {id : ChatIdHex} {o : Op}
    {c c' : Cell} (hc : r.cells[id]? = some c) (h : OpEffect derive r id o (some c) (some c')) :
    c'.tag = c.tag ∨ (c'.tag = (c.chatIdHex, r.nextAttempt) ∧ o.renews derive r = true) := by
  generalize hx : some c' = x at h
  cases h with
  | missed => exact .inl (by cases hx; rfl)
  | present => exact .inl (by cases hx; rfl)
  | deferred => exact .inl (by cases hx; rfl)
  | leaveAsked => exact .inl (requestLeave_tag hx.symm)
  | planned => exact .inl (by cases hx; exact plan_tag ..)
  | joinIssued => exact .inl (by cases hx; exact issued_tag (joinIssued_tag _ _ _) c)
  | foundIssued => exact .inl (by cases hx; exact issued_tag (foundIssued_tag _ _ _) c)
  | left =>
    obtain ht | ⟨hn, hg, hr, ht⟩ := left_tag hx.symm
    · exact .inl ht
    · exact .inr ⟨ht, by simp [Op.renews, hc, hn, hg, hr]⟩
  | retired =>
    obtain ht | ⟨hs, hg, hr, ht⟩ := retired_tag hx.symm
    · exact .inl ht
    · exact .inr ⟨ht, by simp [Op.renews, hc, hs, hg, hr]⟩
  | kept => exact .inl (by cases hx; rfl)
  | selfJoin => exact .inl (by cases hx; rfl)
  | peerJoin => exact .inl (by cases hx; exact peerJoin_tag ..)
  | peerExit => exact .inl (by cases hx; exact peerExit_tag ..)
  | joinFail => exact .inl (by cases hx; exact expelled_tag ..)
  | kicked => exact .inl (by cases hx; exact expelled_tag ..)
  | packet => exact .inl (by cases hx; exact packet_tag ..)
  | cleared => cases hx

/-- A cell an operation creates is keyed by its chat id and numbered from the counter. -/
theorem effect_created {derive : Seed → Option ChatId} {r : Registry} {id : ChatIdHex} {o : Op}
    {c' : Cell} (hc : r.cells[id]? = none) (h : OpEffect derive r id o none (some c')) :
    c'.tag = (id, r.nextAttempt) ∧ o.renews derive r = true ∧ ∃ seed name nick now,
      o = .requestJoin seed name nick now ∧
        ∃ chatId, c' = newCell r.nextAttempt seed chatId name nick now := by
  cases h with
  | created ht hkey hacc =>
    exact ⟨by simp [Cell.tag, newCell, hkey],
      by simp [Op.renews, Op.requested, ht, hkey, hacc, hc], _, _, _, _, rfl, _, rfl⟩

end Tim2Tox.RendezvousGroups
