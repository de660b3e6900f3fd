import Tim2Tox.RendezvousLines
import Tim2Tox.RendezvousStaleness
import Tim2Tox.WindowBudgets

set_option autoImplicit false

/-!
# Flood budgets of a cell

The packets and peer lines of one cell are charged to the windows of its budgets. While the cell is
neither backed off nor left, every budget keeps the account of what was emitted under it. The drop
counter counts what was refused, over any run.
-/
namespace Tim2Tox.RendezvousSession
open RendezvousCodec RendezvousGroups LabelledRuns WindowBudgets

/-! ## Runs of operations -/

/-- `Plan` finds the cell without peers for too long. -/
def stale (now : Ms) (c : Cell) : Bool :=
  c.idle && c.state = .joined && c.hadPeers && c.peers.isEmpty && now - c.emptySinceMs ≥ kStaleMs

/-- The operation backs the cell under `id` off, leaves it or erases it. -/
def breaks (r : Registry) (id : ChatIdHex) (c : Cell) : Op → Bool
  | .clear => true
  | .requestLeave id' _ => id' = id && c.state ≠ .retiring && c.groupNumber = noGroup
  | .requestLeaveAll _ => c.state ≠ .retiring && c.groupNumber = noGroup
  | .plan now => c.state ≠ .retiring && stale now c
  | .onJoinIssued id' n ok _ generation attempt =>
    id' = id && c.awaits r.generation generation attempt && !(ok && n ≠ noGroup)
  | .onFoundIssued id' n ok _ generation attempt =>
    id' = id && c.awaits r.generation generation attempt && !c.pendingLeave && !(ok && n ≠ noGroup)
  | .onLeaveIssued id' _ _ n => id' = id && c.groupNumber = n
  | .onRetired id' n _ => id' = id && c.state = .retiring && c.groupNumber = n
  | .onJoinFail n _ _ | .onKickedSelf n _ => (activeCell r n).any fun entry => entry.1 = id
  | _ => false

def windowOf (budget : Cell → Budget) (r : Registry) (id : ChatIdHex) : ℕ :=
  (r.cells[id]?.map fun c => (budget c).windowStartMs.toNat).getD 0

def packetBytes (pk : PeerPkHex) : Line → Option ℕ
  | .packet _ pk' _ payload => if pk' = pk then some payload.length else none
  | _ => none

def peerLine : Line → Option ℕ
  | .peer .. => some 0
  | _ => none

def changedLine : Line → Option ℕ
  | .peersChanged .. => some 0
  | _ => none

/-- The callback does not get what it came with published: a packet or a line is dropped. -/
def refused (r : Registry) : Op → Bool
  | .onPacket n peer pk isPrivate payload now =>
    match (onPacket r n peer pk isPrivate payload now).2 with
    | .emit _ => false
    | _ => true
  | .bufferLine line => !(bufferLine r line).2
  | _ => false

section
variable (derive : Seed → Option ChatId) (id : ChatIdHex) (pk : PeerPkHex)

def run (r : Registry) (ops : List Op) : Registry := ops.foldl (apply derive) r

/-- No operation backs the cell off, leaves it or erases it. -/
def steady : Registry → List Op → Bool
  | _, [] => true
  | r, o :: ops => (r.cells[id]?.all fun c => !breaks r id c o) && steady (apply derive r o) ops

def refusals : Registry → List Op → ℕ
  | _, [] => 0
  | r, o :: ops => (if refused r o then 1 else 0) + refusals (apply derive r o) ops

/-- The lines of an operation for the cell, charged to the window of a budget after it. -/
def charges (budget : Cell → Budget) (bytes : Line → Option ℕ) (r : Registry) (o : Op) : List Grant :=
  (((published r o).filter fun l => l.chatIdHex = id).filterMap bytes).map fun amount =>
    ⟨windowOf budget (apply derive r o) id, ((opTime o).getD 0).toNat, amount⟩

/-- What was emitted for a cell: packets of one key, peer lines, and summary lines. -/
structure Ledger where
  registry : Registry
  packets : List Grant := []
  peerLines : List Grant := []
  changes : List Grant := []

def Ledger.record (l : Ledger) (o : Op) : Ledger where
  registry := apply derive l.registry o
  packets := l.packets ++
    charges derive id (fun c => c.packetBudget.getD pk {}) (packetBytes pk) l.registry o
  peerLines := l.peerLines ++ charges derive id Cell.eventBudget peerLine l.registry o
  changes := l.changes ++ charges derive id Cell.eventBudget changedLine l.registry o

end

/-! ## One budget -/

/-- The log agrees with a budget. -/
def Balanced (maxCount maxBytes : ℕ) (budget : Budget) (log : List Grant) : Prop :=
  Accounted kBudgetWindowMs.toNat maxCount maxBytes budget.windowStartMs.toNat budget.packets
    budget.bytes log

theorem over_iff {now start : Ms} (hle : start ≤ now) :
    now - start ≥ kBudgetWindowMs ↔ start.toNat + kBudgetWindowMs.toNat ≤ now.toNat := by
  rw [ge_iff_le, UInt64.le_iff_toNat_le, UInt64.toNat_sub_of_le _ _ hle]
  rw [UInt64.le_iff_toNat_le] at hle
  omega

/-- A budget after the roll-over of its window, if one is due. -/
theorem rolled {maxCount maxBytes : ℕ} {budget : Budget} {log : List Grant} {now : Ms}
    (h : Balanced maxCount maxBytes budget log) (hle : budget.windowStartMs ≤ now) :
    ∃ b : Budget, b = (if now - budget.windowStartMs ≥ kBudgetWindowMs then
        { windowStartMs := now, packets := 0, bytes := 0 } else budget) ∧
      Balanced maxCount maxBytes b log ∧ b.windowStartMs ≤ now ∧
      now.toNat < b.windowStartMs.toNat + kBudgetWindowMs.toNat ∧
      (b = budget ∨ b.packets = 0 ∧ budget.windowStartMs.toNat < b.windowStartMs.toNat ∧
        budget.windowStartMs.toNat + kBudgetWindowMs.toNat ≤ b.windowStartMs.toNat) := by
  have hwindow : 0 < kBudgetWindowMs.toNat := by decide
  refine ⟨_, rfl, ?_⟩
  by_cases hover : now - budget.windowStartMs ≥ kBudgetWindowMs
  · rw [if_pos hover]
    rw [over_iff hle] at hover
    refine ⟨h.renew hwindow hover, UInt64.le_refl _, ?_, Or.inr ⟨rfl, ?_, hover⟩⟩
    · change now.toNat < now.toNat + kBudgetWindowMs.toNat
      omega
    · change budget.windowStartMs.toNat < now.toNat
      omega
  · rw [if_neg hover]
    rw [over_iff hle] at hover
    exact ⟨h, hle, by omega, Or.inl rfl⟩

theorem consumed {maxCount maxBytes amount : ℕ} {budget : Budget} {log : List Grant} {now : Ms}
    (h : Balanced maxCount maxBytes budget log) (hle : budget.windowStartMs ≤ now) :
    (consumeBudget budget now maxCount maxBytes amount).1.windowStartMs ≤ now ∧
      Balanced maxCount maxBytes (consumeBudget budget now maxCount maxBytes amount).1
        (log ++ if (consumeBudget budget now maxCount maxBytes amount).2 then
          [⟨(consumeBudget budget now maxCount maxBytes amount).1.windowStartMs.toNat, now.toNat,
            amount⟩] else []) := by
  obtain ⟨b, hb, hbalanced, hstart, hnow, -⟩ := rolled h hle
  unfold consumeBudget
  dsimp only
  rw [← hb]
  by_cases hfull : b.packets + 1 > maxCount ∨ b.bytes + amount > maxBytes
  · rw [if_pos hfull, if_neg Bool.false_ne_true, List.append_nil]
    exact ⟨hstart, hbalanced⟩
  · rw [if_neg hfull, if_pos rfl]
    have hfits := not_or.mp hfull
    exact ⟨hstart, hbalanced.grant (UInt64.le_iff_toNat_le.mp hstart) hnow (by omega) (by omega)⟩

/-! ## Peer lines -/

/-- The event budget of a cell agrees with its peer lines and its summary lines; a window with a
    summary line is full and stays silent. -/
structure Events (c : Cell) (peerLines changes : List Grant) : Prop where
  lines : Balanced kPeerEventsPerWindow (2 ^ 64 - 1) c.eventBudget peerLines
  summaries : ∃ count, Accounted kBudgetWindowMs.toNat 1 0 c.eventBudget.windowStartMs.toNat count 0
      changes ∧
    (count = 0 ∨ count = 1 ∧ c.coalescing = true ∧ kPeerEventsPerWindow ≤ c.eventBudget.packets)

/-- The windows of a cell's budgets have begun. -/
structure Timely (now : Ms) (c : Cell) : Prop where
  event : c.eventBudget.windowStartMs ≤ now
  eventBytes : c.eventBudget.bytes = 0
  packet : ∀ pk, (c.packetBudget.getD pk {}).windowStartMs ≤ now

/-- The lines of one callback, charged to a window. -/
def chargedTo (window : ℕ) (now : Ms) (bytes : Line → Option ℕ) (lines : List Line) : List Grant :=
  (lines.filterMap bytes).map fun amount => ⟨window, now.toNat, amount⟩

theorem peerEvent_events {c : Cell} {peerLines changes : List Grant} {pk : PeerPkHex}
    {entered : Bool} {now : Ms} (h : Events c peerLines changes)
    (hle : c.eventBudget.windowStartMs ≤ now) (hbytes : c.eventBudget.bytes = 0) :
    (c.peerEvent pk entered now).1.eventBudget.windowStartMs ≤ now ∧
      (c.peerEvent pk entered now).1.eventBudget.bytes = 0 ∧
      Events (c.peerEvent pk entered now).1
        (peerLines ++ chargedTo (c.peerEvent pk entered now).1.eventBudget.windowStartMs.toNat now
          peerLine (c.peerEvent pk entered now).2)
        (changes ++ chargedTo (c.peerEvent pk entered now).1.eventBudget.windowStartMs.toNat now
          changedLine (c.peerEvent pk entered now).2) := by
  obtain ⟨b, hb, hbalanced, hstart, hnow, hsame⟩ := rolled h.lines hle
  obtain ⟨count, hchanges, hcount⟩ := h.summaries
  have hempty : b.bytes = 0 := by
    rw [hb]
    split_ifs
    · rfl
    · exact hbytes
  have hfresh : ∃ count', Accounted kBudgetWindowMs.toNat 1 0 b.windowStartMs.toNat count' 0 changes ∧
      (count' = 0 ∨ count' = 1 ∧ c.coalescing = true ∧ kPeerEventsPerWindow ≤ b.packets) := by
    rcases hsame with rfl | ⟨-, -, hover⟩
    · exact ⟨count, hchanges, hcount⟩
    · exact ⟨0, hchanges.renew (by decide) hover, Or.inl rfl⟩
  obtain ⟨count', hchanges', hcount'⟩ := hfresh
  have hpositive : 0 < kPeerEventsPerWindow := by decide
  unfold Cell.peerEvent consumeBudget
  dsimp only
  rw [← hb]
  by_cases hfull : b.packets + 1 > kPeerEventsPerWindow ∨ b.bytes + 0 > 2 ^ 64 - 1
  · have hpackets : kPeerEventsPerWindow ≤ b.packets := by omega
    rw [if_pos hfull, if_neg Bool.false_ne_true]
    refine ⟨hstart, hempty, ?_, ?_⟩
    · have hnone : chargedTo b.windowStartMs.toNat now peerLine
          (if c.coalescing then [] else [Line.peersChanged c.chatIdHex c.peers.size]) = [] := by
        split_ifs <;> rfl
      dsimp only
      rw [hnone, List.append_nil]
      exact hbalanced
    · cases hcoalescing : c.coalescing with
      | true =>
        refine ⟨count', ?_, ?_⟩
        · rw [if_pos rfl]
          change Accounted _ _ _ _ _ _ (changes ++ [])
          rw [List.append_nil]
          exact hchanges'
        · rcases hcount' with hzero | ⟨hone, -, -⟩
          · exact Or.inl hzero
          · exact Or.inr ⟨hone, rfl, hpackets⟩
      | false =>
        obtain rfl : count' = 0 := by
          rcases hcount' with hzero | ⟨-, htrue, -⟩
          · exact hzero
          · rw [hcoalescing] at htrue
            contradiction
        refine ⟨1, ?_, Or.inr ⟨rfl, rfl, hpackets⟩⟩
        rw [if_neg Bool.false_ne_true]
        exact hchanges'.grant (UInt64.le_iff_toNat_le.mp hstart) hnow (Nat.le_refl _)
          (show 0 + 0 ≤ 0 from Nat.le_refl _)
  · rw [if_neg hfull, if_pos rfl]
    have hfits := not_or.mp hfull
    refine ⟨hstart, hempty, ?_, 0, ?_, Or.inl rfl⟩
    · exact hbalanced.grant (UInt64.le_iff_toNat_le.mp hstart) hnow (by omega) (by omega)
    · obtain rfl : count' = 0 := by
        rcases hcount' with hzero | ⟨-, -, hpackets⟩
        · exact hzero
        · omega
      change Accounted _ _ _ _ _ _ (changes ++ [])
      rw [List.append_nil]
      exact hchanges'

/-! ## Every operation on the budgets of a cell -/

/-- The operation publishes no packet of the key and no peer line for the cell, and clears its packet
    budgets only when it breaks it. -/
structure Untouched (r : Registry) (id : ChatIdHex) (o : Op) (c c' : Cell) : Prop where
  silent : ∀ l ∈ (published r o).filter fun l => l.chatIdHex = id,
    (∀ pk, packetBytes pk l = none) ∧ peerLine l = none ∧ changedLine l = none
  event : c'.eventBudget = c.eventBudget
  coalescing : c'.coalescing = c.coalescing
  packet : c'.packetBudget = c.packetBudget ∨ breaks r id c o = true ∧ c'.packetBudget = ∅

inductive Charge (r : Registry) (id : ChatIdHex) (c : Cell) : Op → Cell → Prop where
  | untouched {o : Op} {c' : Cell} (h : Untouched r id o c c') : Charge r id c o c'
  | packet {n : GroupNumber} {peer : PeerId} {pk : PeerPkHex} {isPrivate : Bool}
    {payload : List UInt8} {now : Ms} (h : activeCell r n = some (id, c)) :
    Charge r id c (.onPacket n peer pk isPrivate payload now)
      (c.packet peer pk isPrivate payload now).1
  | peerJoin {n : GroupNumber} {peer : PeerId} {pk : PeerPkHex} {now : Ms}
    (h : activeCell r n = some (id, c)) :
    Charge r id c (.onPeerJoin n peer pk now) (c.peerJoin peer pk now).1
  | peerExit {n : GroupNumber} {peer : PeerId} {self : Bool} {now : Ms}
    (h : activeCell r n = some (id, c)) :
    Charge r id c (.onPeerExit n peer self now) (c.peerExit peer self now).1

section
variable {r : Registry} {id : ChatIdHex} {o : Op} {c c' : Cell}

theorem silent_of_nil (h : published r o = []) : ∀ l ∈ (published r o).filter fun l => l.chatIdHex = id,
    (∀ pk, packetBytes pk l = none) ∧ peerLine l = none ∧ changedLine l = none := by
  rw [h]
  exact fun l hl => absurd hl List.not_mem_nil

/-- A cell with its budgets as they were. -/
def SameBudgets (c c' : Cell) : Prop :=
  c'.packetBudget = c.packetBudget ∧ c'.eventBudget = c.eventBudget ∧ c'.coalescing = c.coalescing

theorem Untouched.same (hs : ∀ l ∈ (published r o).filter fun l => l.chatIdHex = id,
      (∀ pk, packetBytes pk l = none) ∧ peerLine l = none ∧ changedLine l = none)
    (h : SameBudgets c c') : Untouched r id o c c' :=
  ⟨hs, h.2.1, h.2.2, Or.inl h.1⟩

theorem enterBackoff_budgets (now : Ms) (c : Cell) : (Cell.enterBackoff now c).packetBudget = ∅ ∧
    (Cell.enterBackoff now c).eventBudget = c.eventBudget ∧
    (Cell.enterBackoff now c).coalescing = c.coalescing := by
  obtain ⟨start, retries, h⟩ := enterBackoff_eq now c
  rw [h]
  exact ⟨rfl, rfl, rfl⟩

theorem timers_budgets (now : Ms) (c : Cell) : SameBudgets c (c.timers now) ∨
    stale now c = true ∧ (c.timers now).packetBudget = ∅ ∧
      (c.timers now).eventBudget = c.eventBudget ∧ (c.timers now).coalescing = c.coalescing := by
  rcases timers_cases now c with h | ⟨-, -, -, -, -, h⟩ | ⟨hidle, hjoined, hhad, hempty, hsince, h⟩ |
    ⟨-, -, retries, start, h⟩
  · rw [h]
    exact Or.inl ⟨rfl, rfl, rfl⟩
  · rw [h]
    exact Or.inl ⟨rfl, rfl, rfl⟩
  · right
    rw [h]
    refine ⟨?_, enterBackoff_budgets now _⟩
    unfold stale
    rw [hidle, hjoined, hhad, hempty, decide_eq_true hsince]
    rfl
  · rw [h]
    exact Or.inl ⟨rfl, rfl, rfl⟩

theorem emit_budgets (accepting : Bool) (generation : ℕ) (blocked : Bool) (now : Ms) (c : Cell) :
    SameBudgets c (c.emit accepting generation blocked now).1 := by
  rcases emit_cases accepting generation blocked now c with h | ⟨-, h⟩ | ⟨-, -, -, -, h⟩ <;>
    rw [h] <;> exact ⟨rfl, rfl, rfl⟩

theorem planned_budgets (now : Ms) : SameBudgets c (planCell r now c).1 ∨
    breaks r id c (.plan now) = true ∧ (planCell r now c).1.packetBudget = ∅ ∧
      (planCell r now c).1.eventBudget = c.eventBudget ∧
      (planCell r now c).1.coalescing = c.coalescing := by
  unfold planCell Cell.plan
  by_cases hretiring : c.state = .retiring
  · rw [if_pos hretiring]
    exact Or.inl ⟨rfl, rfl, rfl⟩
  · rw [if_neg hretiring]
    obtain ⟨hp, he, hc⟩ := emit_budgets r.accepting r.generation (blocked r c.chatIdHex) now (c.timers now)
    rcases timers_budgets now c with ⟨hp', he', hc'⟩ | ⟨hstale, hp', he', hc'⟩
    · exact Or.inl ⟨hp.trans hp', he.trans he', hc.trans hc'⟩
    · refine Or.inr ⟨?_, hp.trans hp', he.trans he', hc.trans hc'⟩
      change (decide (c.state ≠ .retiring) && stale now c) = true
      rw [hstale]
      simpa using hretiring

theorem joinIssued_budgets (n : GroupNumber) (ok : Bool) (now : Ms) (c : Cell) :
    SameBudgets c (c.joinIssued n ok now) ∨ (ok && n ≠ noGroup) = false ∧
      (c.joinIssued n ok now).packetBudget = ∅ ∧
      (c.joinIssued n ok now).eventBudget = c.eventBudget ∧
      (c.joinIssued n ok now).coalescing = c.coalescing := by
  unfold Cell.joinIssued
  cases hok : (ok && n ≠ noGroup) with
  | true => exact Or.inl ⟨rfl, rfl, rfl⟩
  | false => exact Or.inr ⟨rfl, enterBackoff_budgets now _⟩

theorem foundIssued_budgets (n : GroupNumber) (ok : Bool) (now : Ms) (c : Cell) :
    SameBudgets c (c.foundIssued n ok now) ∨ (ok && n ≠ noGroup) = false ∧
      (c.foundIssued n ok now).packetBudget = ∅ ∧
      (c.foundIssued n ok now).eventBudget = c.eventBudget ∧
      (c.foundIssued n ok now).coalescing = c.coalescing := by
  unfold Cell.foundIssued
  cases hok : (ok && n ≠ noGroup) with
  | true => exact Or.inl ⟨rfl, rfl, rfl⟩
  | false => exact Or.inr ⟨rfl, enterBackoff_budgets now _⟩

theorem finishRetire_budgets {nextAttempt : ℕ} {now : Ms}
    (h : c.finishRetire nextAttempt now = some c') :
    (c'.packetBudget = c.packetBudget ∨ c'.packetBudget = ∅) ∧ c'.eventBudget = c.eventBudget ∧
      c'.coalescing = c.coalescing := by
  rcases finishRetire_cases nextAttempt now c with ⟨-, he⟩ | ⟨-, -, he⟩ | ⟨-, -, -, he⟩ |
    ⟨-, -, -, -, -, he⟩ | ⟨-, -, -, -, he⟩ <;> rw [he] at h
  · cases h
    exact ⟨Or.inl rfl, rfl, rfl⟩
  · cases h
  · cases h
    exact ⟨Or.inl rfl, rfl, rfl⟩
  · cases h
    exact ⟨Or.inl rfl, rfl, rfl⟩
  · cases h
    obtain ⟨hp, he, hc⟩ := enterBackoff_budgets now
      { c with groupNumber := noGroup, retireReason := .unset }
    exact ⟨Or.inr hp, he, hc⟩

theorem joinedLine_silent (chatId : ChatIdHex) (founded : Bool) :
    (∀ pk, packetBytes pk (.joined chatId founded) = none) ∧
      peerLine (.joined chatId founded) = none ∧ changedLine (.joined chatId founded) = none :=
  ⟨fun _ => rfl, rfl, rfl⟩

theorem selfJoin_silent {n : GroupNumber} {now : Ms} (h : activeCell r n = some (id, c)) :
    ∀ l ∈ (published r (.onSelfJoin n now)).filter fun l => l.chatIdHex = id,
      (∀ pk, packetBytes pk l = none) ∧ peerLine l = none ∧ changedLine l = none := by
  intro l hl
  have hmem : l ∈ (callback r n (Cell.selfJoin now)).2 := (List.mem_filter.mp hl).1
  rw [callback_lines h] at hmem
  unfold Cell.selfJoin at hmem
  dsimp only at hmem
  split_ifs at hmem
  · exact absurd hmem List.not_mem_nil
  · rw [List.mem_singleton.mp hmem]
    exact joinedLine_silent _ _

theorem joinFail_silent {n : GroupNumber} {peerLimit : Bool} {now : Ms}
    (h : activeCell r n = some (id, c)) :
    ∀ l ∈ (published r (.onJoinFail n peerLimit now)).filter fun l => l.chatIdHex = id,
      (∀ pk, packetBytes pk l = none) ∧ peerLine l = none ∧ changedLine l = none := by
  intro l hl
  have hmem : l ∈ (callback r n (Cell.joinFail peerLimit now)).2 := (List.mem_filter.mp hl).1
  rw [callback_lines h] at hmem
  unfold Cell.joinFail at hmem
  dsimp only at hmem
  split_ifs at hmem
  · rw [List.mem_singleton.mp hmem]
    exact ⟨fun _ => rfl, rfl, rfl⟩
  · exact absurd hmem List.not_mem_nil

theorem expelled_budgets (reason : Reason) (now : Ms) (c : Cell) :
    (c.expelled reason now).packetBudget = ∅ ∧ (c.expelled reason now).eventBudget = c.eventBudget ∧
      (c.expelled reason now).coalescing = c.coalescing := by
  unfold Cell.expelled
  exact enterBackoff_budgets now _

/-- Every effect of an operation on the budgets of a cell that stays. -/
theorem charge_of_effect {derive : Seed → Option ChatId} (hr : Numbered r)
    (h : OpEffect derive r id o (some c) (some c')) : Charge r id c o c' := by
  generalize hx : some c = x at h
  generalize hy : some c' = y at h
  cases h with
  | missed hmiss =>
    obtain rfl : c = c' := Option.some.inj (hx.trans hy.symm)
    refine .untouched (.same ?_ ⟨rfl, rfl, rfl⟩)
    rw [published_elsewhere derive hr hmiss]
    exact fun l hl => absurd hl List.not_mem_nil
  | absent => cases hx
  | cleared => cases hy
  | created => cases hx
  | present =>
    cases hx
    cases hy
    exact .untouched (.same (silent_of_nil rfl) ⟨rfl, rfl, rfl⟩)
  | deferred =>
    cases hx
    cases hy
    exact .untouched (.same (silent_of_nil rfl) ⟨rfl, rfl, rfl⟩)
  | leaveAsked ho =>
    rename_i now a
    cases hx
    have hnil : published r o = [] := by
      rcases ho with rfl | rfl <;> rfl
    rcases requestLeave_cases now c with ⟨-, he⟩ | ⟨-, -, he⟩ | ⟨-, -, he⟩ <;> rw [he] at hy <;> cases hy
    · exact .untouched (.same (silent_of_nil hnil) ⟨rfl, rfl, rfl⟩)
    · exact .untouched (.same (silent_of_nil hnil) ⟨rfl, rfl, rfl⟩)
  | planned =>
    rename_i now a
    cases hx
    cases hy
    refine .untouched ?_
    rcases @planned_budgets r id c now with hsame | ⟨hbreaks, hp, he, hc⟩
    · exact .same (silent_of_nil rfl) hsame
    · exact ⟨silent_of_nil rfl, he, hc, Or.inr ⟨hbreaks, hp⟩⟩
  | joinIssued =>
    rename_i n ok now generation attempt a
    cases hx
    cases hy
    refine .untouched ?_
    unfold Cell.issued
    cases hawaits : c.awaits r.generation generation attempt with
    | false => exact .same (silent_of_nil rfl) ⟨rfl, rfl, rfl⟩
    | true =>
      rcases joinIssued_budgets n ok now c with hsame | ⟨hok, hp, he, hc⟩
      · exact .same (silent_of_nil rfl) hsame
      · refine ⟨silent_of_nil rfl, he, hc, Or.inr ⟨?_, hp⟩⟩
        change (decide (id = id) && c.awaits r.generation generation attempt &&
          !(ok && decide (n ≠ noGroup))) = true
        rw [hawaits, hok, decide_eq_true rfl]
        rfl
  | foundIssued =>
    rename_i n ok now generation attempt a
    cases hx
    cases hy
    refine .untouched ?_
    unfold Cell.issued
    cases hawaits : c.awaits r.generation generation attempt && !c.pendingLeave with
    | false => exact .same (silent_of_nil rfl) ⟨rfl, rfl, rfl⟩
    | true =>
      rcases foundIssued_budgets n ok now c with hsame | ⟨hok, hp, he, hc⟩
      · exact .same (silent_of_nil rfl) hsame
      · refine ⟨silent_of_nil rfl, he, hc, Or.inr ⟨?_, hp⟩⟩
        change (decide (id = id) && c.awaits r.generation generation attempt && !c.pendingLeave &&
          !(ok && decide (n ≠ noGroup))) = true
        rw [decide_eq_true rfl, Bool.true_and, hawaits, hok]
        rfl
  | left =>
    rename_i reason now n a
    cases hx
    unfold Cell.left at hy
    by_cases hn : c.groupNumber ≠ n
    · rw [if_pos hn] at hy
      cases hy
      exact .untouched (.same (silent_of_nil rfl) ⟨rfl, rfl, rfl⟩)
    · have hbreaks : breaks r id c (.onLeaveIssued id reason now n) = true := by
        change (decide (id = id) && decide (c.groupNumber = n)) = true
        rw [decide_eq_true rfl, decide_eq_true (not_not.mp hn)]
        rfl
      rw [if_neg hn] at hy
      split_ifs at hy with hno
      · obtain ⟨hp, he, hc⟩ := finishRetire_budgets hy.symm
        exact .untouched ⟨silent_of_nil rfl, he, hc, Or.inr ⟨hbreaks, or_self_iff.mp hp⟩⟩
      · cases hy
        exact .untouched ⟨silent_of_nil rfl, rfl, rfl, Or.inr ⟨hbreaks, rfl⟩⟩
  | retired =>
    rename_i n now a
    cases hx
    unfold Cell.retired at hy
    split_ifs at hy with hret
    · have hbreaks : breaks r id c (.onRetired id n now) = true := by
        change (decide (id = id) && decide (c.state = .retiring) && decide (c.groupNumber = n)) = true
        rw [decide_eq_true rfl, decide_eq_true hret.1, decide_eq_true hret.2]
        rfl
      obtain ⟨hp, he, hc⟩ := finishRetire_budgets hy.symm
      exact .untouched ⟨silent_of_nil rfl, he, hc, hp.imp_right fun hp => ⟨hbreaks, hp⟩⟩
    · cases hy
      exact .untouched (.same (silent_of_nil rfl) ⟨rfl, rfl, rfl⟩)
  | kept =>
    cases hx
    cases hy
    exact .untouched (.same (silent_of_nil rfl) ⟨rfl, rfl, rfl⟩)
  | selfJoin hact =>
    cases hx
    cases hy
    exact .untouched (.same (selfJoin_silent hact) ⟨rfl, rfl, rfl⟩)
  | peerJoin hact =>
    cases hx
    cases hy
    exact .peerJoin hact
  | peerExit hact =>
    cases hx
    cases hy
    exact .peerExit hact
  | joinFail hact =>
    rename_i n peerLimit now a
    cases hx
    cases hy
    obtain ⟨hp, he, hc⟩ := expelled_budgets (if peerLimit then .full else .failed) now c
    refine .untouched ⟨joinFail_silent hact, he, hc, Or.inr ⟨?_, hp⟩⟩
    change ((activeCell r n).any fun entry => entry.1 = id) = true
    rw [hact]
    exact decide_eq_true rfl
  | kicked hact =>
    rename_i n now a
    cases hx
    cases hy
    obtain ⟨hp, he, hc⟩ := expelled_budgets .kicked now c
    refine .untouched ⟨?_, he, hc, Or.inr ⟨?_, hp⟩⟩
    · apply silent_of_nil
      change (callback r n (Cell.kickedSelf now)).2 = []
      rw [callback_lines hact]
      rfl
    · change ((activeCell r n).any fun entry => entry.1 = id) = true
      rw [hact]
      exact decide_eq_true rfl
  | packet hact =>
    cases hx
    cases hy
    exact .packet hact

end

/-! ## The account of a run -/

theorem timely_untouched {r : Registry} {id : ChatIdHex} {o : Op} {c c' : Cell} {t t' : Ms}
    (h : Timely t c) (ht : t ≤ t') (hu : Untouched r id o c c') : Timely t' c' := by
  refine ⟨?_, ?_, fun pk => ?_⟩
  · rw [hu.event]
    exact UInt64.le_trans h.event ht
  · rw [hu.event]
    exact h.eventBytes
  · rcases hu.packet with hp | ⟨-, hp⟩
    · rw [hp]
      exact UInt64.le_trans (h.packet pk) ht
    · rw [hp, Std.TreeMap.getD_emptyc]
      exact UInt64.zero_le

theorem consumed_start {budget : Budget} {now : Ms} (hle : budget.windowStartMs ≤ now)
    (maxCount maxBytes amount : ℕ) :
    (consumeBudget budget now maxCount maxBytes amount).1.windowStartMs ≤ now := by
  unfold consumeBudget
  dsimp only
  split_ifs <;> first | exact UInt64.le_refl _ | exact hle

theorem consumed_bytes {budget : Budget} {now : Ms} (hzero : budget.bytes = 0)
    (maxCount maxBytes : ℕ) : (consumeBudget budget now maxCount maxBytes 0).1.bytes = 0 := by
  unfold consumeBudget
  dsimp only
  split_ifs <;> first | rfl | exact hzero

/-- A packet leaves the budgets alone, or is charged to its sender's. -/
theorem packet_charge (peer : PeerId) (pk : PeerPkHex) (isPrivate : Bool) (payload : List UInt8)
    (now : Ms) (c : Cell) :
    ((c.packet peer pk isPrivate payload now).1.eventBudget = c.eventBudget ∧
      (c.packet peer pk isPrivate payload now).1.coalescing = c.coalescing) ∧
    ((c.packet peer pk isPrivate payload now).1.packetBudget = c.packetBudget ∧
        (c.packet peer pk isPrivate payload now).2.lines = [] ∨
      ∃ sender, (c.packet peer pk isPrivate payload now).1.packetBudget =
          c.packetBudget.insert sender (consumeBudget (c.packetBudget.getD sender {}) now
            kPeerPacketsPerWindow kPeerBytesPerWindow payload.length).1 ∧
        (c.packet peer pk isPrivate payload now).2.lines =
          if (consumeBudget (c.packetBudget.getD sender {}) now
            kPeerPacketsPerWindow kPeerBytesPerWindow payload.length).2 then
            [.packet c.chatIdHex sender isPrivate payload] else []) := by
  have hlearn : ∃ peers, c.learnPeer peer pk = { c with peers } := by
    unfold Cell.learnPeer
    split_ifs <;> exact ⟨_, rfl⟩
  obtain ⟨peers, hlearn⟩ := hlearn
  unfold Cell.packet
  dsimp only
  rw [hlearn]
  split_ifs with hlarge hunknown
  · exact ⟨⟨rfl, rfl⟩, Or.inl ⟨rfl, rfl⟩⟩
  · exact ⟨⟨rfl, rfl⟩, Or.inl ⟨rfl, rfl⟩⟩
  · rename_i hok
    refine ⟨⟨rfl, rfl⟩, Or.inr ⟨c.senderPk peer pk, rfl, ?_⟩⟩
    rw [if_pos hok]
    rfl
  · rename_i hok
    refine ⟨⟨rfl, rfl⟩, Or.inr ⟨c.senderPk peer pk, rfl, ?_⟩⟩
    rw [if_neg hok]
    rfl

theorem timely_packet {c : Cell} {t now : Ms} (h : Timely t c) (ht : t ≤ now) (peer : PeerId)
    (pk : PeerPkHex) (isPrivate : Bool) (payload : List UInt8) :
    Timely now (c.packet peer pk isPrivate payload now).1 := by
  obtain ⟨⟨hevent, -⟩, hpacket⟩ := packet_charge peer pk isPrivate payload now c
  refine ⟨?_, ?_, fun key => ?_⟩
  · rw [hevent]
    exact UInt64.le_trans h.event ht
  · rw [hevent]
    exact h.eventBytes
  · rcases hpacket with ⟨hsame, -⟩ | ⟨sender, hinsert, -⟩
    · rw [hsame]
      exact UInt64.le_trans (h.packet key) ht
    · rw [hinsert, Std.TreeMap.getD_insert]
      split_ifs
      · exact consumed_start (UInt64.le_trans (h.packet sender) ht) _ _ _
      · exact UInt64.le_trans (h.packet key) ht

theorem timely_peerEvent {c : Cell} {t now : Ms} (h : Timely t c) (ht : t ≤ now) (pk : PeerPkHex)
    (entered : Bool) : Timely now (c.peerEvent pk entered now).1 := by
  have hle := UInt64.le_trans h.event ht
  have hbudget : (c.peerEvent pk entered now).1.eventBudget =
      (consumeBudget c.eventBudget now kPeerEventsPerWindow (2 ^ 64 - 1) 0).1 ∧
      (c.peerEvent pk entered now).1.packetBudget = c.packetBudget := by
    unfold Cell.peerEvent
    dsimp only
    split_ifs <;> exact ⟨rfl, rfl⟩
  refine ⟨?_, ?_, fun key => ?_⟩
  · rw [hbudget.1]
    exact consumed_start hle _ _ _
  · rw [hbudget.1]
    exact consumed_bytes h.eventBytes _ _
  · rw [hbudget.2]
    exact UInt64.le_trans (h.packet key) ht

/-- A cell with the budgets of another. -/
theorem timely_same {c c' : Cell} {t : Ms} (h : Timely t c) (hs : SameBudgets c c') :
    Timely t c' := by
  obtain ⟨hp, he, -⟩ := hs
  refine ⟨?_, ?_, fun key => ?_⟩
  · rw [he]
    exact h.event
  · rw [he]
    exact h.eventBytes
  · rw [hp]
    exact h.packet key

theorem confirmPeer_budgets (peer : PeerId) (pk : PeerPkHex) (now : Ms) (c : Cell) :
    SameBudgets c (c.confirmPeer peer pk now) := by
  unfold Cell.confirmPeer
  dsimp only
  split_ifs <;> exact ⟨rfl, rfl, rfl⟩

/-- The budgets of a cell agree with what was emitted for it. -/
structure Account (pk : PeerPkHex) (t : Ms) (c : Cell) (packets peerLines changes : List Grant) :
    Prop where
  timely : Timely t c
  packets : Balanced kPeerPacketsPerWindow kPeerBytesPerWindow (c.packetBudget.getD pk {}) packets
  events : Events c peerLines changes

section
variable {pk : PeerPkHex} {t now : Ms} {c c' : Cell} {packets peerLines changes : List Grant}

theorem Account.later (h : Account pk t c packets peerLines changes) (ht : t ≤ now)
    (hs : SameBudgets c c') : Account pk now c' packets peerLines changes := by
  have htimely : Timely now c := ⟨UInt64.le_trans h.timely.event ht, h.timely.eventBytes,
    fun key => UInt64.le_trans (h.timely.packet key) ht⟩
  obtain ⟨hp, he, hc⟩ := hs
  refine ⟨timely_same htimely ⟨hp, he, hc⟩, ?_, ?_, ?_⟩
  · rw [hp]
    exact h.packets
  · rw [he]
    exact h.events.lines
  · rw [he, hc]
    exact h.events.summaries

theorem chargedTo_nil {window : ℕ} {bytes : Line → Option ℕ} {lines : List Line}
    (h : ∀ l ∈ lines, bytes l = none) : chargedTo window now bytes lines = [] := by
  unfold chargedTo
  rw [List.filterMap_eq_nil_iff.mpr h]
  rfl

theorem chargedTo_append (window : ℕ) (bytes : Line → Option ℕ) (lines lines' : List Line) :
    chargedTo window now bytes (lines ++ lines') =
      chargedTo window now bytes lines ++ chargedTo window now bytes lines' := by
  unfold chargedTo
  rw [List.filterMap_append, List.map_append]

/-- The logs of a cell after one operation that published some lines for it. -/
def Account.After (pk : PeerPkHex) (now : Ms) (c' : Cell) (packets peerLines changes : List Grant)
    (lines : List Line) : Prop :=
  Account pk now c'
    (packets ++ chargedTo (c'.packetBudget.getD pk {}).windowStartMs.toNat now (packetBytes pk) lines)
    (peerLines ++ chargedTo c'.eventBudget.windowStartMs.toNat now peerLine lines)
    (changes ++ chargedTo c'.eventBudget.windowStartMs.toNat now changedLine lines)

/-- Lines that are charged to nothing. -/
theorem Account.silent (h : Account pk t c packets peerLines changes) (ht : t ≤ now)
    (hs : SameBudgets c c') {lines : List Line}
    (hl : ∀ l ∈ lines, (∀ pk, packetBytes pk l = none) ∧ peerLine l = none ∧ changedLine l = none) :
    Account.After pk now c' packets peerLines changes lines := by
  unfold Account.After
  rw [chargedTo_nil fun l hmem => (hl l hmem).1 pk, chargedTo_nil fun l hmem => (hl l hmem).2.1,
    chargedTo_nil fun l hmem => (hl l hmem).2.2, List.append_nil, List.append_nil, List.append_nil]
  exact h.later ht hs

theorem Account.packet (h : Account pk t c packets peerLines changes) (ht : t ≤ now) (peer : PeerId)
    (pk' : PeerPkHex) (isPrivate : Bool) (payload : List UInt8) :
    Account.After pk now (c.packet peer pk' isPrivate payload now).1 packets peerLines changes
      (c.packet peer pk' isPrivate payload now).2.lines := by
  obtain ⟨⟨hevent, hcoalescing⟩, hpacket⟩ := packet_charge peer pk' isPrivate payload now c
  rcases hpacket with ⟨hsame, hlines⟩ | ⟨sender, hinsert, hlines⟩
  · rw [hlines]
    exact h.silent ht ⟨hsame, hevent, hcoalescing⟩ fun l hl => absurd hl List.not_mem_nil
  · have htimely := timely_packet h.timely ht peer pk' isPrivate payload
    have hpacketLines : ∀ l ∈ (c.packet peer pk' isPrivate payload now).2.lines,
        l = .packet c.chatIdHex sender isPrivate payload := by
      intro l hl
      rw [hlines] at hl
      split_ifs at hl
      · exact List.mem_singleton.mp hl
      · exact absurd hl List.not_mem_nil
    unfold Account.After
    rw [@chargedTo_nil _ _ peerLine _ fun l hl => by rw [hpacketLines l hl]; rfl,
      @chargedTo_nil _ _ changedLine _ fun l hl => by rw [hpacketLines l hl]; rfl,
      List.append_nil, List.append_nil]
    refine ⟨htimely, ?_, ?_, ?_⟩
    · rw [hinsert, Std.TreeMap.getD_insert]
      by_cases hkey : sender = pk
      · subst hkey
        rw [if_pos (Std.ReflCmp.compare_self), hlines]
        have hconsumed := (@consumed _ _ payload.length _ _ _ h.packets
          (UInt64.le_trans (h.timely.packet sender) ht)).2
        generalize consumeBudget (c.packetBudget.getD sender {}) now kPeerPacketsPerWindow
          kPeerBytesPerWindow payload.length = result at hconsumed ⊢
        cases hok : result.2 with
        | true =>
          rw [hok, if_pos rfl] at hconsumed
          rw [if_pos rfl]
          unfold chargedTo packetBytes
          simpa using hconsumed
        | false =>
          rw [hok, if_neg Bool.false_ne_true] at hconsumed
          rw [if_neg Bool.false_ne_true]
          exact hconsumed
      · rw [if_neg fun heq => hkey (Std.LawfulEqCmp.eq_of_compare heq), chargedTo_nil fun l hl => by
          rw [hpacketLines l hl]
          exact if_neg hkey, List.append_nil]
        exact h.packets
    · rw [hevent]
      exact h.events.lines
    · rw [hevent, hcoalescing]
      exact h.events.summaries

theorem Account.peerEvent (h : Account pk t c packets peerLines changes) (ht : t ≤ now)
    (peerPk : PeerPkHex) (entered : Bool) :
    Account.After pk now (c.peerEvent peerPk entered now).1 packets peerLines changes
      (c.peerEvent peerPk entered now).2 := by
  have hle := UInt64.le_trans h.timely.event ht
  obtain ⟨-, -, hevents⟩ := @peerEvent_events _ _ _ peerPk entered _ h.events hle
    h.timely.eventBytes
  obtain ⟨budget, coalescing, heq⟩ := peerEvent_eq peerPk entered now c
  have hpacket : (c.peerEvent peerPk entered now).1.packetBudget = c.packetBudget := by rw [heq]
  unfold Account.After
  rw [@chargedTo_nil _ _ (packetBytes pk) _ fun l hl => by
    rcases peerEvent_lines peerPk entered now c with hlines | hlines | hlines <;> rw [hlines] at hl
    · exact absurd hl List.not_mem_nil
    · rw [List.mem_singleton.mp hl]
      rfl
    · rw [List.mem_singleton.mp hl]
      rfl, List.append_nil]
  refine ⟨timely_peerEvent h.timely ht peerPk entered, ?_, hevents⟩
  rw [hpacket]
  exact h.packets

theorem Account.peerJoin (h : Account pk t c packets peerLines changes) (ht : t ≤ now)
    (peer : PeerId) (peerPk : PeerPkHex) :
    Account.After pk now (c.peerJoin peer peerPk now).1 packets peerLines changes
      (c.peerJoin peer peerPk now).2 := by
  by_cases hpk : peerPk = ""
  · have heq : c.peerJoin peer peerPk now = (c, []) := by
      unfold Cell.peerJoin
      rw [if_pos hpk]
    rw [heq]
    exact h.silent ht ⟨rfl, rfl, rfl⟩ fun l hl => absurd hl List.not_mem_nil
  · have hcell : (c.peerJoin peer peerPk now).1 =
        ((c.confirmPeer peer peerPk now).peerEvent peerPk true now).1 := by
      unfold Cell.peerJoin
      rw [if_neg hpk]
    have hevent := (h.later (UInt64.le_refl t) (confirmPeer_budgets peer peerPk now c)).peerEvent ht
      peerPk true
    have hjoined : ∀ l ∈ (if c.announced then [] else [Line.joined c.chatIdHex c.founded]),
        (∀ pk, packetBytes pk l = none) ∧ peerLine l = none ∧ changedLine l = none := by
      intro l hl
      split_ifs at hl
      · exact absurd hl List.not_mem_nil
      · rw [List.mem_singleton.mp hl]
        exact joinedLine_silent _ _
    unfold Account.After
    rw [hcell, peerJoin_published hpk, chargedTo_append, chargedTo_append, chargedTo_append,
      chargedTo_nil fun l hl => (hjoined l hl).1 pk, chargedTo_nil fun l hl => (hjoined l hl).2.1,
      chargedTo_nil fun l hl => (hjoined l hl).2.2, List.nil_append, List.nil_append, List.nil_append]
    exact hevent

theorem Account.peerExit (h : Account pk t c packets peerLines changes) (ht : t ≤ now)
    (peer : PeerId) (self : Bool) :
    Account.After pk now (c.peerExit peer self now).1 packets peerLines changes
      (c.peerExit peer self now).2 := by
  unfold Cell.peerExit
  cases hpeer : c.peers[peer]? with
  | none => exact h.silent ht ⟨rfl, rfl, rfl⟩ fun l hl => absurd hl List.not_mem_nil
  | some peerPk =>
    dsimp only
    split_ifs
    · change Account.After pk now (c.dropPeer peer now) packets peerLines changes []
      have hsame : SameBudgets c (c.dropPeer peer now) := ⟨rfl, rfl, rfl⟩
      exact h.silent ht hsame fun l hl => absurd hl List.not_mem_nil
    · have hdropped : Account pk t (c.dropPeer peer now) packets peerLines changes :=
        h.later (UInt64.le_refl t) ⟨rfl, rfl, rfl⟩
      exact hdropped.peerEvent ht peerPk false

end

theorem breaks_of_erased {derive : Seed → Option ChatId} {r : Registry} {id : ChatIdHex} {o : Op}
    {c : Cell} (h : OpEffect derive r id o (some c) none) : breaks r id c o = true := by
  generalize hx : some c = x at h
  generalize hy : (none : Option Cell) = y at h
  cases h with
  | missed =>
    rw [← hy] at hx
    cases hx
  | cleared => rfl
  | leaveAsked ho =>
    rename_i now a
    cases hx
    rcases requestLeave_cases now c with ⟨-, he⟩ | ⟨hretiring, hgroup, -⟩ | ⟨-, -, he⟩
    · rw [he] at hy
      cases hy
    · rcases ho with rfl | rfl
      · change (decide (id = id) && decide (c.state ≠ .retiring) && decide (c.groupNumber = noGroup)) = true
        rw [decide_eq_true rfl, decide_eq_true hretiring, decide_eq_true hgroup]
        rfl
      · change (decide (c.state ≠ .retiring) && decide (c.groupNumber = noGroup)) = true
        rw [decide_eq_true hretiring, decide_eq_true hgroup]
        rfl
    · rw [he] at hy
      cases hy
  | left =>
    rename_i reason now n a
    cases hx
    unfold Cell.left at hy
    split_ifs at hy with hn hno
    · change (decide (id = id) && decide (c.groupNumber = n)) = true
      rw [decide_eq_true rfl, decide_eq_true (not_not.mp hn)]
      rfl
  | retired =>
    rename_i n now a
    cases hx
    unfold Cell.retired at hy
    split_ifs at hy with hret
    · change (decide (id = id) && decide (c.state = .retiring) && decide (c.groupNumber = n)) = true
      rw [decide_eq_true rfl, decide_eq_true hret.1, decide_eq_true hret.2]
      rfl
  | absent => cases hx
  | _ => cases hy

theorem created_budgets {derive : Seed → Option ChatId} {r : Registry} {id : ChatIdHex} {o : Op}
    {c' : Cell} (h : OpEffect derive r id o none (some c')) :
    c'.packetBudget = ∅ ∧ c'.eventBudget = {} := by
  generalize hx : (none : Option Cell) = x at h
  generalize hy : some c' = y at h
  cases h with
  | missed =>
    rw [← hx] at hy
    cases hy
  | created =>
    cases hy
    exact ⟨rfl, rfl⟩
  | absent => cases hy
  | cleared => cases hy
  | _ => cases hx

/-- The ledger of a cell is the account of its budgets, or empty. -/
structure Kept (id : ChatIdHex) (pk : PeerPkHex) (t : Ms) (l : Ledger) : Prop where
  numbered : Numbered l.registry
  account : ∀ c, l.registry.cells[id]? = some c → Account pk t c l.packets l.peerLines l.changes
  absent : l.registry.cells[id]? = none → l.packets = [] ∧ l.peerLines = [] ∧ l.changes = []

section
variable (derive : Seed → Option ChatId) {id : ChatIdHex} {pk : PeerPkHex} {t : Ms}

theorem charges_eq {budget : Cell → Budget} {bytes : Line → Option ℕ} {r : Registry} {o : Op}
    {c' : Cell} (hc' : (apply derive r o).cells[id]? = some c') :
    charges derive id budget bytes r o = chargedTo (budget c').windowStartMs.toNat
      ((opTime o).getD 0) bytes ((published r o).filter fun l => l.chatIdHex = id) := by
  unfold charges chargedTo windowOf
  rw [hc']
  rfl

/-- A callback on a cell, charged. -/
theorem kept_after {l : Ledger} {o : Op} {c' : Cell} {now : Ms} {lines : List Line}
    (h : Kept id pk t l) (hc' : (apply derive l.registry o).cells[id]? = some c')
    (htime : opTime o = some now)
    (hlines : ((published l.registry o).filter fun l => l.chatIdHex = id) = lines)
    (hafter : Account.After pk now c' l.packets l.peerLines l.changes lines) :
    Kept id pk now (l.record derive id pk o) := by
  refine ⟨numbered_apply derive h.numbered o, fun a ha => ?_, fun hnone => ?_⟩
  · obtain rfl : c' = a := Option.some.inj (hc'.symm.trans ha)
    unfold Ledger.record
    dsimp only
    rw [charges_eq derive hc', charges_eq derive hc', charges_eq derive hc', hlines, htime]
    exact hafter
  · exact absurd (hc'.symm.trans hnone) (Option.some_ne_none _)

theorem kept_record {l : Ledger} {o : Op} (h : Kept id pk t l)
    (htime : ∀ now, opTime o = some now → t ≤ now)
    (hsteady : (l.registry.cells[id]?.all fun c => !breaks l.registry id c o) = true) :
    Kept id pk ((opTime o).getD t) (l.record derive id pk o) := by
  have hlater : t ≤ (opTime o).getD t := by
    cases ho : opTime o with
    | none => exact UInt64.le_refl t
    | some now => exact htime now ho
  have heffect := apply_effect derive l.registry o id
  cases hc : l.registry.cells[id]? with
  | none =>
    have hsilent := published_absent (o := o) h.numbered hc
    have hnone : ∀ (budget : Cell → Budget) (bytes : Line → Option ℕ),
        charges derive id budget bytes l.registry o = [] := by
      intro budget bytes
      unfold charges
      rw [hsilent]
      rfl
    obtain ⟨hpackets, hpeerLines, hchanges⟩ := h.absent hc
    have hlogs : (l.record derive id pk o).packets = [] ∧ (l.record derive id pk o).peerLines = [] ∧
        (l.record derive id pk o).changes = [] := by
      unfold Ledger.record
      rw [hnone, hnone, hnone, hpackets, hpeerLines, hchanges]
      exact ⟨rfl, rfl, rfl⟩
    refine ⟨numbered_apply derive h.numbered o, fun c' hc' => ?_, fun _ => hlogs⟩
    change (apply derive l.registry o).cells[id]? = some c' at hc'
    rw [hc, hc'] at heffect
    obtain ⟨hp, he⟩ := created_budgets heffect
    rw [hlogs.1, hlogs.2.1, hlogs.2.2]
    refine ⟨⟨?_, ?_, fun key => ?_⟩, Accounted.empty _ _ _, Accounted.empty _ _ _, 0,
      Accounted.empty _ _ _, Or.inl rfl⟩
    · rw [he]
      exact UInt64.zero_le
    · rw [he]
    · rw [hp, Std.TreeMap.getD_emptyc]
      exact UInt64.zero_le
  | some c =>
    rw [hc] at heffect hsteady
    have hkeeps : breaks l.registry id c o = false := by simpa using hsteady
    have haccount := h.account c hc
    cases hc' : (apply derive l.registry o).cells[id]? with
    | none =>
      rw [hc'] at heffect
      rw [breaks_of_erased heffect] at hkeeps
      contradiction
    | some c' =>
      rw [hc'] at heffect
      cases charge_of_effect h.numbered heffect with
      | untouched hu =>
        have hsame : SameBudgets c c' := by
          refine ⟨hu.packet.resolve_right fun hbroken => ?_, hu.event, hu.coalescing⟩
          rw [hkeeps] at hbroken
          exact Bool.false_ne_true hbroken.1
        refine ⟨numbered_apply derive h.numbered o, fun a ha => ?_, fun hnone => ?_⟩
        · obtain rfl : c' = a := Option.some.inj (hc'.symm.trans ha)
          unfold Ledger.record
          dsimp only
          rw [charges_eq derive hc', charges_eq derive hc', charges_eq derive hc',
            chargedTo_nil fun l hl => (hu.silent l hl).1 pk,
            chargedTo_nil fun l hl => (hu.silent l hl).2.1,
            chargedTo_nil fun l hl => (hu.silent l hl).2.2, List.append_nil, List.append_nil,
            List.append_nil]
          exact haccount.later hlater hsame
        · exact absurd (hc'.symm.trans hnone) (Option.some_ne_none _)
      | packet hact =>
        rename_i n peer pk' isPrivate payload now
        refine kept_after derive h hc' rfl ?_ (haccount.packet (htime now rfl) peer pk' isPrivate payload)
        have hpublished : published l.registry (.onPacket n peer pk' isPrivate payload now) =
            (c.packet peer pk' isPrivate payload now).2.lines := by
          simp [published, onPacket, hact]
        rw [hpublished]
        refine filter_own fun line hline => ?_
        rcases packet_lines peer pk' isPrivate payload now c with hnil | ⟨sender, hone⟩
        · rw [hnil] at hline
          exact absurd hline List.not_mem_nil
        · rw [hone] at hline
          rw [List.mem_singleton.mp hline]
          exact h.numbered.keyed id c hc
      | peerJoin hact =>
        rename_i n peer pk' now
        refine kept_after derive h hc' rfl ?_ (haccount.peerJoin (htime now rfl) peer pk')
        exact callback_own h.numbered hact (peerJoin_lines peer pk' now c)
      | peerExit hact =>
        rename_i n peer self now
        refine kept_after derive h hc' rfl ?_ (haccount.peerExit (htime now rfl) peer self)
        exact callback_own h.numbered hact (peerExit_lines peer self now c)

theorem kept_run (ops : List Op) : ∀ (t : Ms) (l : Ledger), Kept id pk t l →
    (∀ now ∈ ops.filterMap opTime, t ≤ now) → (ops.filterMap opTime).Pairwise (· ≤ ·) →
    steady derive id l.registry ops = true →
    ∃ t', Kept id pk t' (ops.foldl (Ledger.record derive id pk) l) := by
  induction ops with
  | nil => exact fun t l h _ _ _ => ⟨t, h⟩
  | cons o ops ih =>
    intro t l h hafter hordered hsteady
    unfold steady at hsteady
    rw [Bool.and_eq_true] at hsteady
    cases htime : opTime o with
    | none =>
      rw [List.filterMap_cons_none htime] at hafter hordered
      have hstep := kept_record derive h (fun now hnow => by rw [htime] at hnow; contradiction) hsteady.1
      rw [htime] at hstep
      exact ih t _ hstep hafter hordered hsteady.2
    | some now =>
      rw [List.filterMap_cons_some htime] at hafter hordered
      have hstep := kept_record derive h (fun now' hnow => by
        rw [htime] at hnow
        obtain rfl := Option.some.inj hnow
        exact hafter _ (List.mem_cons_self ..)) hsteady.1
      rw [htime] at hstep
      exact ih now _ hstep (List.pairwise_cons.mp hordered).1 (List.pairwise_cons.mp hordered).2
        hsteady.2

/-! ## Reachable registries -/

/-- Every cell stands under its own chat id, and the windows of its budgets have begun. -/
structure Begun (t : Ms) (r : Registry) : Prop where
  numbered : Numbered r
  timely : ∀ (id : ChatIdHex) (c : Cell), r.cells[id]? = some c → Timely t c

theorem timely_charge {r : Registry} {id : ChatIdHex} {o : Op} {c c' : Cell} {t : Ms}
    (h : Timely t c) (htime : ∀ now, opTime o = some now → t ≤ now) (hcharge : Charge r id c o c') :
    Timely ((opTime o).getD t) c' := by
  cases hcharge with
  | untouched hu =>
    refine timely_untouched h ?_ hu
    cases ho : opTime o with
    | none => exact UInt64.le_refl t
    | some now => exact htime now ho
  | packet => exact timely_packet h (htime _ rfl) _ _ _ _
  | peerJoin =>
    rename_i n peer pk now _
    change Timely now (c.peerJoin peer pk now).1
    unfold Cell.peerJoin
    by_cases hpk : pk = ""
    · rw [if_pos hpk]
      exact timely_untouched h (htime now rfl)
        (@Untouched.same r id .takeZombies _ _ (silent_of_nil rfl) ⟨rfl, rfl, rfl⟩)
    · rw [if_neg hpk]
      exact timely_peerEvent (timely_same h (confirmPeer_budgets peer pk now c)) (htime now rfl) pk true
  | peerExit =>
    rename_i n peer self now _
    change Timely now (c.peerExit peer self now).1
    have hkeep : ∀ a, SameBudgets c a → Timely now a := fun a ha => timely_untouched h (htime now rfl)
      (@Untouched.same r id .takeZombies _ _ (silent_of_nil rfl) ha)
    unfold Cell.peerExit
    cases c.peers[peer]? with
    | none => exact hkeep c ⟨rfl, rfl, rfl⟩
    | some pk =>
      dsimp only
      split_ifs
      · exact hkeep (c.dropPeer peer now) ⟨rfl, rfl, rfl⟩
      · have hdropped : Timely t (c.dropPeer peer now) := timely_same h ⟨rfl, rfl, rfl⟩
        exact timely_peerEvent hdropped (htime now rfl) pk false

theorem begun_apply {r : Registry} {o : Op} (h : Begun t r)
    (htime : ∀ now, opTime o = some now → t ≤ now) : Begun ((opTime o).getD t) (apply derive r o) := by
  refine ⟨numbered_apply derive h.numbered o, fun id c' hc' => ?_⟩
  have heffect := apply_effect derive r o id
  rw [hc'] at heffect
  cases hc : r.cells[id]? with
  | none =>
    rw [hc] at heffect
    obtain ⟨hp, he⟩ := created_budgets heffect
    refine ⟨?_, ?_, fun key => ?_⟩
    · rw [he]
      exact UInt64.zero_le
    · rw [he]
    · rw [hp, Std.TreeMap.getD_emptyc]
      exact UInt64.zero_le
  | some c =>
    rw [hc] at heffect
    exact timely_charge (h.timely id c hc) htime (charge_of_effect h.numbered heffect)

theorem begun_run (ops : List Op) : ∀ (t : Ms) (r : Registry) (later : List Ms), Begun t r →
    (∀ now ∈ ops.filterMap opTime ++ later, t ≤ now) →
    (ops.filterMap opTime ++ later).Pairwise (· ≤ ·) →
    ∃ t', Begun t' (run derive r ops) ∧ ∀ now ∈ later, t' ≤ now := by
  induction ops with
  | nil => exact fun t r later h hafter _ => ⟨t, h, hafter⟩
  | cons o ops ih =>
    intro t r later h hafter hordered
    cases htime : opTime o with
    | none =>
      rw [List.filterMap_cons_none htime] at hafter hordered
      have hstep := begun_apply derive h fun now hnow => by rw [htime] at hnow; contradiction
      rw [htime] at hstep
      exact ih t _ later hstep hafter hordered
    | some now =>
      rw [List.filterMap_cons_some htime, List.cons_append] at hafter hordered
      have hstep := begun_apply derive h fun now' hnow => by
        rw [htime] at hnow
        obtain rfl := Option.some.inj hnow
        exact hafter _ (List.mem_cons_self ..)
      rw [htime] at hstep
      exact ih now _ later hstep (List.pairwise_cons.mp hordered).1 (List.pairwise_cons.mp hordered).2

/-! ## The drop counter -/

theorem drops_apply (r : Registry) (o : Op) :
    (apply derive r o).drops = r.drops + if refused r o then 1 else 0 := by
  cases o with
  | onPacket n peer pk isPrivate payload now =>
    cases hact : activeCell r n with
    | none => simp only [apply, refused, onPacket, hact, if_true]
    | some entry =>
      cases hverdict : (Cell.packet peer pk isPrivate payload now entry.2).2 <;>
        simp [apply, refused, onPacket, hact, hverdict, PacketVerdict.drops]
  | bufferLine line =>
    change (bufferLine r line).1.drops = _
    unfold refused bufferLine
    split_ifs <;> first | rfl | contradiction
  | requestLeaveAll now =>
    refine requestLeaveAll_keeps Registry.drops now (fun r id => ?_) r
    unfold requestLeave
    cases r.cells[id]? with
    | none => rfl
    | some c =>
      dsimp only
      cases c.requestLeave now <;> rfl
  | requestJoin seed name nick now =>
    change (requestJoin derive r seed name nick now).1.drops = r.drops
    unfold requestJoin
    cases joinTarget derive seed name nick with
    | none => rfl
    | some chatId =>
      dsimp only
      split_ifs
      · rfl
      · cases r.cells[hex chatId.toList]? with
        | none => rfl
        | some c =>
          dsimp only
          split_ifs <;> rfl
  | requestLeave id now =>
    change (requestLeave r id now).1.drops = r.drops
    unfold requestLeave
    cases r.cells[id]? with
    | none => rfl
    | some c =>
      dsimp only
      cases c.requestLeave now <;> rfl
  | onJoinIssued id n ok now generation attempt =>
    change (onJoinIssued r id n ok now generation attempt).1.drops = r.drops
    unfold onJoinIssued
    cases r.cells[id]? with
    | none => rfl
    | some c =>
      dsimp only
      split_ifs <;> rfl
  | onFoundIssued id n ok now generation attempt =>
    change (onFoundIssued r id n ok now generation attempt).1.drops = r.drops
    unfold onFoundIssued
    cases r.cells[id]? with
    | none => rfl
    | some c =>
      dsimp only
      split_ifs <;> rfl
  | onLeaveIssued id reason now n =>
    change (onLeaveIssued r id reason now n).drops = r.drops
    unfold onLeaveIssued
    cases r.cells[id]? with
    | none => rfl
    | some c =>
      dsimp only
      split_ifs <;> rfl
  | onRetired id n now =>
    change (onRetired r id n now).drops = r.drops
    have hdrop : (dropOrphan r id n).drops = r.drops := by
      unfold dropOrphan
      split_ifs <;> rfl
    unfold onRetired
    dsimp only [publishOwned]
    split
    · exact hdrop
    · split_ifs <;> exact hdrop
  | onLeaveFailed id now =>
    change (onLeaveFailed r id now).drops = r.drops
    unfold onLeaveFailed
    cases r.cells[id]? <;> rfl
  | onSelfJoin n | onPeerJoin n | onPeerExit n | onJoinFail n | onKickedSelf n =>
    change (callback r n _).1.drops = r.drops
    unfold callback
    cases activeCell r n <;> rfl
  | _ => rfl

theorem drops_run (ops : List Op) : ∀ r : Registry,
    (run derive r ops).drops = r.drops + refusals derive r ops := by
  induction ops with
  | nil => exact fun r => rfl
  | cons o ops ih =>
    intro r
    change (run derive (apply derive r o) ops).drops = _
    rw [ih, drops_apply, refusals]
    omega

end

/-- Packets and lines within their budgets: in every window, and for packets in every interval of a
    window's length. -/
structure WithinBudgets (l : Ledger) : Prop where
  packets : Limited kBudgetWindowMs.toNat kPeerPacketsPerWindow kPeerBytesPerWindow l.packets
  interval : ∀ time, (between l.packets time kBudgetWindowMs.toNat).length ≤ 2 * kPeerPacketsPerWindow ∧
    bytesOf (between l.packets time kBudgetWindowMs.toNat) ≤ 2 * kPeerBytesPerWindow
  peerLines : Limited kBudgetWindowMs.toNat kPeerEventsPerWindow (2 ^ 64 - 1) l.peerLines
  changes : Limited kBudgetWindowMs.toNat 1 0 l.changes

theorem limited_nil (span maxCount maxBytes : ℕ) : Limited span maxCount maxBytes [] :=
  (Accounted.empty 0 0 0 : Accounted span maxCount maxBytes 0 0 0 []).toLimited

theorem Kept.within {id : ChatIdHex} {pk : PeerPkHex} {t : Ms} {l : Ledger} (h : Kept id pk t l) :
    WithinBudgets l := by
  cases hc : l.registry.cells[id]? with
  | none =>
    obtain ⟨hpackets, hpeerLines, hchanges⟩ := h.absent hc
    have hlimited : Limited kBudgetWindowMs.toNat kPeerPacketsPerWindow kPeerBytesPerWindow
        l.packets := by
      rw [hpackets]
      exact limited_nil _ _ _
    refine ⟨hlimited, hlimited.interval, ?_, ?_⟩
    · rw [hpeerLines]
      exact limited_nil _ _ _
    · rw [hchanges]
      exact limited_nil _ _ _
  | some c =>
    have haccount := h.account c hc
    obtain ⟨count, hchanges, -⟩ := haccount.events.summaries
    exact ⟨haccount.packets.toLimited, haccount.packets.toLimited.interval,
      haccount.events.lines.toLimited, hchanges.toLimited⟩

/-- In every stretch of a run during which the cell is neither backed off nor left, its packets of one
    key and its peer lines stay within their budgets; the drop counter counts what was refused. -/
theorem flood_budgets_hold (derive : Seed → Option ChatId) (before stretch : List Op)
    (id : ChatIdHex) (pk : PeerPkHex)
    (htime : ((before ++ stretch).filterMap opTime).Pairwise (· ≤ ·))
    (hsteady : steady derive id (run derive {} before) stretch = true) :
    WithinBudgets (stretch.foldl (Ledger.record derive id pk)
        { registry := run derive {} before }) ∧
      (run derive {} (before ++ stretch)).drops = refusals derive {} (before ++ stretch) := by
  rw [List.filterMap_append] at htime
  have hempty : Begun 0 {} := ⟨numbered_empty, fun id c hc => by simp at hc⟩
  obtain ⟨t, hbegun, hafter⟩ := begun_run derive before 0 {} (stretch.filterMap opTime) hempty
    (fun _ _ => UInt64.zero_le) htime
  have hkept : Kept id pk t { registry := run derive {} before } := by
    refine ⟨hbegun.numbered, fun c hc => ⟨hbegun.timely id c hc, Accounted.empty _ _ _,
      Accounted.empty _ _ _, 0, Accounted.empty _ _ _, Or.inl rfl⟩, fun _ => ⟨rfl, rfl, rfl⟩⟩
  obtain ⟨t', hend⟩ := kept_run derive stretch t _ hkept hafter (List.pairwise_append.mp htime).2.1
    hsteady
  refine ⟨hend.within, ?_⟩
  rw [drops_run]
  exact Nat.zero_add _

def joinOps : List Op :=
  [.setAccepting true, .requestJoin sampleSeed "n" "0123abcd" 900, .plan 1000,
    .onJoinIssued sampleId 7 true 1000 1 1, .onSelfJoin 7 1100, .onPeerJoin 7 3 "ab" 1200]

/-- One key under two peer ids, a packet too large, and the line buffer. -/
def trafficOps : List Op :=
  [.onPacket 7 3 "ab" false [1, 2] 1300, .onPacket 7 4 "ab" true [3] 12000,
    .onPacket 9 3 "ab" false [4] 12000, .onPeerExit 7 3 false 12100, .bufferLine (.full sampleId)]

theorem traffic_within : (trafficOps.foldl (Ledger.record sampleDerive sampleId "ab")
      { registry := run sampleDerive {} joinOps }).packets =
        [⟨0, 1300, 2⟩, ⟨12000, 12000, 1⟩] ∧
    WithinBudgets (trafficOps.foldl (Ledger.record sampleDerive sampleId "ab")
      { registry := run sampleDerive {} joinOps }) ∧
    (run sampleDerive {} (joinOps ++ trafficOps)).drops = 1 :=
  ⟨by decide,
    (flood_budgets_hold sampleDerive joinOps trafficOps sampleId "ab" (by decide)
      (by decide)).1, by decide⟩

end Tim2Tox.RendezvousSession
