import Tim2Tox.ChatHistory
import Tim2Tox.Utf8

set_option autoImplicit false

/-!
# Receipts that name a content

`_handleReceipt` below its group tallies: which row of a conversation a receipt is about, and the
flags it sets there. A receipt whose id is `bind:` and a hash names the content of a row; it goes to
the oldest row that went out and does not carry its flag.
-/
namespace Tim2Tox.ContentReceipts
open ChatHistory ChatMessage

/-- `sha256.convert(bytes).toString()`. -/
structure Digest where
  hex : String
  length_hex : hex.length = 64

/-- What the handler reads and writes; the queue is known by the ids of its items. -/
structure Service where
  historyById : String → Option (List ChatMessage)
  queuedMsgIDs : List String
  dispatchedSends : List String

namespace Service

def rows (s : Service) (id : String) : List ChatMessage := (s.historyById id).getD []

def unsent (s : Service) : List String := s.queuedMsgIDs.filter fun id => id ∉ s.dispatchedSends

end Service

def timeAt (rows : List ChatMessage) (i : ℕ) : ℤ := (rows[i]?.map (·.timestamp)).getD 0

/-- Oldest by timestamp first, rows of one instant by index. -/
def Older (rows : List ChatMessage) (a b : ℕ) : Prop :=
  timeAt rows a < timeAt rows b ∨ timeAt rows a = timeAt rows b ∧ a ≤ b

instance (rows : List ChatMessage) : DecidableRel (Older rows) :=
  fun _ _ => inferInstanceAs (Decidable (_ ∨ _))

def hashWanted (msgID : String) : Option String :=
  if "bind:".toList.isPrefixOf msgID.toList then some (String.ofList (msgID.toList.drop 5)) else none

def receiptOrder (rows : List ChatMessage) (wanted : Option String) : List ℕ :=
  match wanted with
  | none => List.range rows.length
  | some _ => (List.range rows.length).insertionSort (Older rows)

def flagged (receiptType : String) (m : ChatMessage) : Bool :=
  if receiptType = "received" then m.isReceived else m.isRead

/-- The row with the flags of a receipt; `none` when nothing changes or the type is unknown. -/
def receipted (receiptType : String) (m : ChatMessage) : Option ChatMessage :=
  if receiptType = "received" then
    if m.isReceived && !m.isFailed then none
    else some { m with isReceived := true, isFailed := false }
  else if receiptType = "read" then
    if m.isReceived && m.isRead && !m.isFailed then none
    else some { m with isReceived := true, isRead := true, isFailed := false }
  else none

section
variable (sha256 : List UInt8 → Digest) (logger : Bool)

/-- The hash of the first KiB of a text. -/
def c2cTextHash (text : String) : String := (sha256 ((Utf8.encode text.toList).take 1024)).hex

def contentMatches (unsent : List String) (wanted receiptType : String) (m : ChatMessage) : Bool :=
  m.isSelf && !m.isFailed && !m.msgID.any (· ∈ unsent) && !flagged receiptType m &&
    c2cTextHash sha256 m.text = wanted

def receiptMatches (unsent : List String) (msgID : String) (wanted : Option String)
    (receiptType : String) (m : ChatMessage) : Bool :=
  if m.isCancelled then false
  else match wanted with
    | some wanted => contentMatches sha256 unsent wanted receiptType m
    | none => idMatches m msgID && m.isSelf

/-- The log line of an unmatched row cuts the hash wanted to 12 code units. -/
def logThrows (rows : List ChatMessage) (wanted : Option String) (i : ℕ) (m : ChatMessage) : Bool :=
  logger && m.isSelf && i + 4 ≥ rows.length && wanted.any fun wanted => (codeUnits wanted).length < 12

/-- The rows after the loop; `none` when it throws. -/
def settleRow (rows : List ChatMessage) (unsent : List String) (msgID : String)
    (wanted : Option String) (receiptType : String) : List ℕ → Option (List ChatMessage)
  | [] => some rows
  | i :: order =>
    match rows[i]? with
    | none => some rows
    | some m =>
      if receiptMatches sha256 unsent msgID wanted receiptType m then
        some (((receipted receiptType m).map (rows.set i)).getD rows)
      else if logThrows logger rows wanted i m then none
      else settleRow rows unsent msgID wanted receiptType order

def handleReceipt (s : Service) (msgID receiptType sender : String) (groupID : Option String) :
    Option Service :=
  let id := groupID.getD sender
  match s.historyById id with
  | none => some s
  | some history =>
    let wanted := hashWanted msgID
    (settleRow sha256 logger history s.unsent msgID wanted receiptType (receiptOrder history wanted)).map
      fun rows => { s with historyById := Function.update s.historyById id (some rows) }

/-! ## Runs of receipts -/

/-- A content receipt of the sender, or whatever send control does to the queue in between. -/
inductive Event where
  | receipt (wanted receiptType : String)
  | sendControl (queuedMsgIDs dispatchedSends : List String)
  deriving DecidableEq

namespace Service

/-- A receipt that throws leaves the rows. -/
def step (sender : String) (s : Service) : Event → Service
  | .receipt wanted receiptType =>
    (handleReceipt sha256 logger s ("bind:" ++ wanted) receiptType sender none).getD s
  | .sendControl queuedMsgIDs dispatchedSends => { s with queuedMsgIDs, dispatchedSends }

def run (sender : String) (s : Service) (events : List Event) : Service :=
  events.foldl (step sha256 logger sender) s

end Service

/-- A row a content receipt can mean: own, not cancelled, not failed, not queued unless it was handed
    to transport, without the flag, and with the content. -/
structure Means (s : Service) (wanted receiptType : String) (m : ChatMessage) : Prop where
  own : m.isSelf = true
  live : m.isCancelled = false
  sent : m.isFailed = false
  out : ∀ id, m.msgID = some id → id ∈ s.queuedMsgIDs → id ∈ s.dispatchedSends
  unflagged : flagged receiptType m = false
  content : c2cTextHash sha256 m.text = wanted

/-- The row with the flag of a receipt, and nothing else changed. -/
def flag (receiptType : String) (m : ChatMessage) : ChatMessage :=
  { m with isReceived := true, isRead := m.isRead || receiptType = "read" }

end

/-! ## The order of a content match -/

section
variable (rows : List ChatMessage)

theorem older_total (a b : ℕ) : Older rows a b ∨ Older rows b a := by
  unfold Older
  omega

theorem older_trans {a b c : ℕ} (hab : Older rows a b) (hbc : Older rows b c) : Older rows a c := by
  unfold Older at *
  omega

theorem mem_receiptOrder {wanted : Option String} {i : ℕ} :
    i ∈ receiptOrder rows wanted ↔ i < rows.length := by
  cases wanted with
  | none => exact List.mem_range
  | some wanted =>
    unfold receiptOrder
    rw [List.mem_insertionSort, List.mem_range]

theorem receiptOrder_nodup (wanted : Option String) : (receiptOrder rows wanted).Nodup := by
  cases wanted with
  | none => exact List.nodup_range
  | some wanted => exact (List.perm_insertionSort _ _).nodup_iff.mpr List.nodup_range

theorem receiptOrder_sorted (wanted : String) :
    (receiptOrder rows (some wanted)).Pairwise (Older rows) := by
  have : Std.Total (Older rows) := ⟨older_total rows⟩
  have : IsTrans ℕ (Older rows) := ⟨fun _ _ _ => older_trans rows⟩
  exact List.pairwise_insertionSort (Older rows) _

end

/-- Rows that keep their instants keep their order. -/
theorem receiptOrder_congr {rows rows' : List ChatMessage}
    (htime : rows.map (·.timestamp) = rows'.map (·.timestamp)) (wanted : Option String) :
    receiptOrder rows wanted = receiptOrder rows' wanted := by
  have hlength : rows.length = rows'.length := by
    rw [← List.length_map (f := fun m : ChatMessage => m.timestamp), htime, List.length_map]
  have hat : timeAt rows = timeAt rows' := by
    funext i
    rw [timeAt, timeAt, ← List.getElem?_map, ← List.getElem?_map, htime]
  have holder : ∀ a b, Older rows a b ↔ Older rows' a b := by
    intro a b
    unfold Older
    rw [hat]
  cases wanted with
  | none =>
    unfold receiptOrder
    rw [hlength]
  | some wanted =>
    unfold receiptOrder
    dsimp only
    rw [hlength]
    congr 1
    funext a b
    exact propext (holder a b)

/-! ## The row taken -/

section
variable (sha256 : List UInt8 → Digest) (logger : Bool) (s : Service)

theorem receiptMatches_iff {i wanted receiptType : String} {m : ChatMessage} :
    receiptMatches sha256 s.unsent i (some wanted) receiptType m = true ↔
      Means sha256 s wanted receiptType m := by
  have hunsent : m.msgID.any (· ∈ s.unsent) = false ↔
      ∀ id, m.msgID = some id → id ∈ s.queuedMsgIDs → id ∈ s.dispatchedSends := by
    cases hid : m.msgID with
    | none => simp
    | some id => simp [Service.unsent]
  unfold receiptMatches contentMatches
  constructor
  · intro h
    cases hcancelled : m.isCancelled with
    | true =>
      rw [hcancelled] at h
      contradiction
    | false =>
      rw [hcancelled] at h
      simp only [Bool.false_eq_true, if_false, Bool.and_eq_true, Bool.not_eq_true',
        decide_eq_true_eq] at h
      obtain ⟨⟨⟨⟨hself, hfailed⟩, hout⟩, hflag⟩, hhash⟩ := h
      exact ⟨hself, hcancelled, hfailed, hunsent.mp hout, hflag, hhash⟩
  · intro h
    rw [h.live]
    simp only [Bool.false_eq_true, if_false, Bool.and_eq_true, Bool.not_eq_true',
      decide_eq_true_eq]
    exact ⟨⟨⟨⟨h.own, h.sent⟩, hunsent.mpr h.out⟩, h.unflagged⟩, h.content⟩

def takes (wanted receiptType : String) (rows : List ChatMessage) (i : ℕ) : Bool :=
  rows[i]?.any (receiptMatches sha256 s.unsent "" (some wanted) receiptType)

theorem takes_iff {wanted receiptType : String} {rows : List ChatMessage} {i : ℕ} {m : ChatMessage}
    (hm : rows[i]? = some m) :
    takes sha256 s wanted receiptType rows i = true ↔ Means sha256 s wanted receiptType m := by
  rw [takes, hm, Option.any_some]
  exact receiptMatches_iff sha256 s

/-- The rows a content receipt can mean, in the order in which it takes them. -/
def candidates (wanted receiptType : String) (rows : List ChatMessage) : List ℕ :=
  (receiptOrder rows (some wanted)).filter (takes sha256 s wanted receiptType rows)

/-- The rows after a receipt took the first of some. -/
def markFirst (receiptType : String) (rows : List ChatMessage) : List ℕ → List ChatMessage
  | [] => rows
  | i :: _ => ((rows[i]?.bind (receipted receiptType)).map (rows.set i)).getD rows

theorem mem_candidates {wanted receiptType : String} {rows : List ChatMessage} {i : ℕ} :
    i ∈ candidates sha256 s wanted receiptType rows ↔
      ∃ m, rows[i]? = some m ∧ Means sha256 s wanted receiptType m := by
  unfold candidates
  rw [List.mem_filter, mem_receiptOrder]
  constructor
  · rintro ⟨hi, hmatch⟩
    have hget := List.getElem?_eq_getElem hi
    exact ⟨_, hget, (takes_iff sha256 s hget).mp hmatch⟩
  · rintro ⟨m, hm, hmeans⟩
    exact ⟨(List.getElem?_eq_some_iff.mp hm).1, (takes_iff sha256 s hm).mpr hmeans⟩

/-- The loop takes the first row in its order that matches, unless a log line throws before. -/
theorem settleRow_content (rows : List ChatMessage) (msgID wanted receiptType : String) :
    ∀ order : List ℕ, (∀ i ∈ order, i < rows.length) →
      settleRow sha256 logger rows s.unsent msgID (some wanted) receiptType order = none ∧
          (codeUnits wanted).length < 12 ∨
        settleRow sha256 logger rows s.unsent msgID (some wanted) receiptType order =
          some (markFirst receiptType rows
            (order.filter (takes sha256 s wanted receiptType rows))) := by
  intro order
  induction order with
  | nil => exact fun _ => Or.inr rfl
  | cons i order ih =>
    intro horder
    have hi := horder i (List.mem_cons_self ..)
    have hget := List.getElem?_eq_getElem hi
    by_cases htakes : takes sha256 s wanted receiptType rows i = true
    · right
      have hmatch := (receiptMatches_iff sha256 s (i := msgID)).mpr ((takes_iff sha256 s hget).mp htakes)
      rw [List.filter_cons_of_pos htakes, markFirst, settleRow, hget]
      dsimp only
      rw [if_pos hmatch, Option.bind_some]
    · have hskip : ¬ receiptMatches sha256 s.unsent msgID (some wanted) receiptType rows[i] = true :=
        fun hmatch => htakes ((takes_iff sha256 s hget).mpr ((receiptMatches_iff sha256 s).mp hmatch))
      rw [List.filter_cons_of_neg htakes, settleRow, hget]
      dsimp only
      rw [if_neg hskip]
      by_cases hthrow : logThrows logger rows (some wanted) i rows[i] = true
      · rw [if_pos hthrow]
        unfold logThrows at hthrow
        simp only [Option.any_some, Bool.and_eq_true, decide_eq_true_eq] at hthrow
        exact Or.inl ⟨rfl, hthrow.2⟩
      · rw [if_neg hthrow]
        exact ih fun j hj => horder j (List.mem_cons_of_mem _ hj)

theorem length_le_codeUnits (text : String) : text.length ≤ (codeUnits text).length := by
  have hlist : ∀ cs : List Char, cs.length ≤ (cs.flatMap fun c =>
      if c.toNat < 0x10000 then [c.toNat]
      else [0xD800 + (c.toNat - 0x10000) / 0x400, 0xDC00 + (c.toNat - 0x10000) % 0x400]).length := by
    intro cs
    induction cs with
    | nil => exact Nat.le_refl _
    | cons c cs ih =>
      rw [List.flatMap_cons, List.length_append, List.length_cons]
      split_ifs
      · exact Nat.le_trans (Nat.succ_le_succ ih) (by rw [List.length_singleton]; omega)
      · exact Nat.le_trans (Nat.succ_le_succ ih) (by
          rw [List.length_cons, List.length_singleton]; omega)
  exact hlist text.toList

theorem hashWanted_bind (wanted : String) : hashWanted ("bind:" ++ wanted) = some wanted := by
  have hlist : ("bind:" ++ wanted).toList = "bind:".toList ++ wanted.toList := String.toList_append
  unfold hashWanted
  rw [hlist, if_pos (by simp)]
  congr 1
  change String.ofList wanted.toList = wanted
  exact String.ofList_toList

/-- A short hash is nobody's, so what the log line stops is no match. -/
theorem candidates_short {wanted : String} (hshort : (codeUnits wanted).length < 12)
    (receiptType : String) (rows : List ChatMessage) :
    candidates sha256 s wanted receiptType rows = [] := by
  rw [List.eq_nil_iff_forall_not_mem]
  intro i hi
  obtain ⟨m, -, hmeans⟩ := (mem_candidates sha256 s).mp hi
  have hlength := (sha256 ((Utf8.encode m.text.toList).take 1024)).length_hex
  have hcontent := hmeans.content
  unfold c2cTextHash at hcontent
  rw [hcontent] at hlength
  have hunits := length_le_codeUnits wanted
  omega

/-- One content receipt: the sender's rows with the first candidate marked, and nothing else. -/
theorem step_receipt (sender wanted receiptType : String) :
    (s.step sha256 logger sender (.receipt wanted receiptType)).rows sender =
        markFirst receiptType (s.rows sender)
          (candidates sha256 s wanted receiptType (s.rows sender)) ∧
      ∀ id, id ≠ sender →
        (s.step sha256 logger sender (.receipt wanted receiptType)).historyById id =
          s.historyById id := by
  unfold Service.step handleReceipt
  dsimp only
  rw [Option.getD_none, hashWanted_bind]
  cases hrows : s.historyById sender with
  | none =>
    have hnil : s.rows sender = [] := by
      rw [Service.rows, hrows]
      rfl
    rw [hnil]
    exact ⟨by rw [Option.getD_some, hnil]; rfl, fun id _ => rfl⟩
  | some history =>
    have hhistory : s.rows sender = history := by
      rw [Service.rows, hrows]
      rfl
    rw [hhistory]
    dsimp only
    rcases settleRow_content sha256 logger s history ("bind:" ++ wanted) wanted receiptType
      (receiptOrder history (some wanted)) (fun i hi => (mem_receiptOrder history).mp hi) with
      ⟨hthrow, hshort⟩ | hsome
    · rw [hthrow, candidates_short sha256 s hshort]
      exact ⟨hhistory, fun id _ => rfl⟩
    · rw [hsome, Option.map_some, Option.getD_some]
      refine ⟨?_, fun id hid => Function.update_of_ne hid ..⟩
      rw [Service.rows]
      dsimp only
      rw [Function.update_self]
      rfl

theorem receipted_means {wanted receiptType : String} {m : ChatMessage}
    (h : Means sha256 s wanted receiptType m) :
    receipted receiptType m =
      if receiptType = "received" ∨ receiptType = "read" then some (flag receiptType m) else none := by
  have hunflagged := h.unflagged
  unfold flagged at hunflagged
  unfold receipted
  by_cases hreceived : receiptType = "received"
  · rw [if_pos hreceived] at hunflagged
    rw [if_pos hreceived, if_pos (Or.inl hreceived), hunflagged, Bool.false_and,
      if_neg Bool.false_ne_true, hreceived]
    unfold flag
    rw [← h.sent]
    simp
  · rw [if_neg hreceived] at hunflagged
    rw [if_neg hreceived]
    by_cases hread : receiptType = "read"
    · rw [if_pos hread, if_pos (Or.inr hread), hunflagged, Bool.and_false, Bool.false_and,
        if_neg Bool.false_ne_true]
      unfold flag
      rw [← h.sent, hread]
      simp
    · rw [if_neg hread, if_neg (not_or.mpr ⟨hreceived, hread⟩)]

/-- What one receipt does to the rows: nothing, or the flag on the oldest it can mean. -/
theorem markFirst_cases (wanted receiptType : String) (rows : List ChatMessage) :
    markFirst receiptType rows (candidates sha256 s wanted receiptType rows) = rows ∧
        (candidates sha256 s wanted receiptType rows = [] ∨
          receiptType ≠ "received" ∧ receiptType ≠ "read") ∨
      ∃ i rest m, candidates sha256 s wanted receiptType rows = i :: rest ∧ rows[i]? = some m ∧
        Means sha256 s wanted receiptType m ∧ (receiptType = "received" ∨ receiptType = "read") ∧
        markFirst receiptType rows (candidates sha256 s wanted receiptType rows) =
          rows.set i (flag receiptType m) := by
  cases hcandidates : candidates sha256 s wanted receiptType rows with
  | nil => exact Or.inl ⟨rfl, Or.inl rfl⟩
  | cons i rest =>
    have hmem : i ∈ candidates sha256 s wanted receiptType rows := by
      rw [hcandidates]
      exact List.mem_cons_self ..
    obtain ⟨m, hm, hmeans⟩ := (mem_candidates sha256 s).mp hmem
    rw [markFirst, hm, Option.bind_some, receipted_means sha256 s hmeans]
    by_cases htype : receiptType = "received" ∨ receiptType = "read"
    · rw [if_pos htype]
      exact Or.inr ⟨i, rest, m, rfl, hm, hmeans, htype, rfl⟩
    · rw [if_neg htype]
      exact Or.inl ⟨rfl, Or.inr (not_or.mp htype)⟩

end

/-! ## Flags only added -/

/-- A row with flags added. -/
def Flagged (m m' : ChatMessage) : Prop :=
  ∃ received read : Bool,
    m' = { m with isReceived := m.isReceived || received, isRead := m.isRead || read }

theorem Flagged.refl (m : ChatMessage) : Flagged m m :=
  ⟨false, false, by rw [Bool.or_false, Bool.or_false]⟩

theorem Flagged.trans {a b c : ChatMessage} (hab : Flagged a b) (hbc : Flagged b c) : Flagged a c := by
  obtain ⟨received, read, rfl⟩ := hab
  obtain ⟨received', read', rfl⟩ := hbc
  exact ⟨received || received', read || read', by simp [Bool.or_assoc]⟩

theorem Flagged.flag (receiptType : String) (m : ChatMessage) : Flagged m (flag receiptType m) :=
  ⟨true, receiptType = "read", by unfold ContentReceipts.flag; rw [Bool.or_true]⟩

/-- The rows of a conversation, some with flags added. -/
structure Grown (rows rows' : List ChatMessage) : Prop where
  length : rows'.length = rows.length
  row : ∀ (i : ℕ) (m : ChatMessage), rows[i]? = some m → ∃ m', rows'[i]? = some m' ∧ Flagged m m'

theorem Grown.refl (rows : List ChatMessage) : Grown rows rows :=
  ⟨rfl, fun _ m hm => ⟨m, hm, Flagged.refl m⟩⟩

theorem Grown.trans {a b c : List ChatMessage} (hab : Grown a b) (hbc : Grown b c) : Grown a c := by
  refine ⟨hbc.length.trans hab.length, fun i m hm => ?_⟩
  obtain ⟨m', hm', hflag⟩ := hab.row i m hm
  obtain ⟨m'', hm'', hflag'⟩ := hbc.row i m' hm'
  exact ⟨m'', hm'', hflag.trans hflag'⟩

theorem Grown.set {rows : List ChatMessage} {i : ℕ} {m m' : ChatMessage} (hm : rows[i]? = some m)
    (hflag : Flagged m m') : Grown rows (rows.set i m') := by
  refine ⟨List.length_set .., fun j a ha => ?_⟩
  by_cases hij : i = j
  · subst hij
    obtain rfl : m = a := Option.some.inj (hm.symm.trans ha)
    exact ⟨m', List.getElem?_set_self (List.getElem?_eq_some_iff.mp hm).1, hflag⟩
  · exact ⟨a, by rw [List.getElem?_set_ne hij]; exact ha, Flagged.refl a⟩

theorem Grown.times {rows rows' : List ChatMessage} (h : Grown rows rows') :
    rows.map (·.timestamp) = rows'.map (·.timestamp) := by
  refine List.ext_getElem? fun i => ?_
  rw [List.getElem?_map, List.getElem?_map]
  cases hm : rows[i]? with
  | none =>
    rw [List.getElem?_eq_none_iff] at hm
    rw [List.getElem?_eq_none (by rw [h.length]; exact hm)]
  | some m =>
    obtain ⟨m', hm', received, read, heq⟩ := h.row i m hm
    rw [hm', heq]
    rfl

section
variable (sha256 : List UInt8 → Digest) (logger : Bool) (s : Service)

theorem markFirst_grown (wanted receiptType : String) (rows : List ChatMessage) :
    Grown rows (markFirst receiptType rows (candidates sha256 s wanted receiptType rows)) := by
  rcases markFirst_cases sha256 s wanted receiptType rows with ⟨heq, -⟩ | ⟨i, rest, m, -, hm, -, -, heq⟩
  · rw [heq]
    exact Grown.refl rows
  · rw [heq]
    exact Grown.set hm (Flagged.flag receiptType m)

theorem step_grown (sender : String) (event : Event) :
    Grown (s.rows sender) ((s.step sha256 logger sender event).rows sender) := by
  cases event with
  | receipt wanted receiptType =>
    rw [(step_receipt sha256 logger s sender wanted receiptType).1]
    exact markFirst_grown sha256 s wanted receiptType _
  | sendControl queuedMsgIDs dispatchedSends => exact Grown.refl _

theorem step_elsewhere (sender : String) (event : Event) {id : String} (hid : id ≠ sender) :
    (s.step sha256 logger sender event).historyById id = s.historyById id := by
  cases event with
  | receipt wanted receiptType =>
    exact (step_receipt sha256 logger s sender wanted receiptType).2 id hid
  | sendControl queuedMsgIDs dispatchedSends => rfl

theorem run_grown (sender : String) (events : List Event) :
    Grown (s.rows sender) ((s.run sha256 logger sender events).rows sender) := by
  induction events generalizing s with
  | nil => exact Grown.refl _
  | cons event events ih => exact (step_grown sha256 logger s sender event).trans (ih _)

theorem run_elsewhere (sender : String) (events : List Event) {id : String} (hid : id ≠ sender) :
    (s.run sha256 logger sender events).historyById id = s.historyById id := by
  induction events generalizing s with
  | nil => rfl
  | cons event events ih => exact (ih _).trans (step_elsewhere sha256 logger s sender event hid)

/-! ## At most one row a receipt -/

/-- The rows of a content that are not received. -/
def unreceived (content : String) (rows : List ChatMessage) : ℕ :=
  rows.countP fun m => c2cTextHash sha256 m.text = content && !m.isReceived

/-- A receipt of a content, of a kind that flags rows. -/
def Event.binds (content : String) : Event → Bool
  | .receipt wanted receiptType =>
    wanted = content && (receiptType = "received" || receiptType = "read")
  | .sendControl .. => false

theorem unreceived_set {content : String} {rows : List ChatMessage} {i : ℕ} {m m' : ChatMessage}
    (hm : rows[i]? = some m) : unreceived sha256 content rows ≤
      unreceived sha256 content (rows.set i m') +
        if c2cTextHash sha256 m.text = content then 1 else 0 := by
  obtain ⟨hi, hget⟩ := List.getElem?_eq_some_iff.mp hm
  unfold unreceived
  rw [List.countP_set hi, hget]
  by_cases hcontent : c2cTextHash sha256 m.text = content
  · rw [if_pos hcontent]
    split_ifs <;> omega
  · rw [if_neg hcontent, if_neg (by rw [decide_eq_false hcontent, Bool.false_and]; exact Bool.false_ne_true)]
    omega

theorem step_unreceived (sender content : String) (event : Event) :
    unreceived sha256 content (s.rows sender) ≤
      unreceived sha256 content ((s.step sha256 logger sender event).rows sender) +
        if event.binds content then 1 else 0 := by
  cases event with
  | sendControl queuedMsgIDs dispatchedSends => exact Nat.le_add_right _ _
  | receipt wanted receiptType =>
    rw [(step_receipt sha256 logger s sender wanted receiptType).1]
    rcases markFirst_cases sha256 s wanted receiptType (s.rows sender) with
      ⟨heq, -⟩ | ⟨i, rest, m, -, hm, hmeans, htype, heq⟩
    · rw [heq]
      exact Nat.le_add_right _ _
    · rw [heq]
      refine Nat.le_trans (@unreceived_set sha256 content _ _ _ _ hm) (Nat.add_le_add_left ?_ _)
      rw [hmeans.content]
      unfold Event.binds
      by_cases hcontent : wanted = content
      · rw [if_pos hcontent, if_pos]
        simpa [hcontent] using htype
      · rw [if_neg hcontent]
        exact Nat.zero_le _

theorem run_unreceived (sender content : String) (events : List Event) :
    unreceived sha256 content (s.rows sender) ≤
      unreceived sha256 content ((s.run sha256 logger sender events).rows sender) +
        events.countP (·.binds content) := by
  induction events generalizing s with
  | nil => exact Nat.le_refl _
  | cons event events ih =>
    have hstep := step_unreceived sha256 logger s sender content event
    have hrest := ih (s.step sha256 logger sender event)
    change unreceived sha256 content (s.rows sender) ≤
      unreceived sha256 content (((s.step sha256 logger sender event).run sha256 logger sender
        events).rows sender) + _
    rw [List.countP_cons]
    omega

/-! ## In turn -/

theorem takes_congr {s' : Service} (hqueued : s'.queuedMsgIDs = s.queuedMsgIDs)
    (hdispatched : s'.dispatchedSends = s.dispatchedSends) (wanted receiptType : String)
    (rows : List ChatMessage) : candidates sha256 s' wanted receiptType rows =
      candidates sha256 s wanted receiptType rows := by
  have hunsent : s'.unsent = s.unsent := by
    rw [Service.unsent, Service.unsent, hqueued, hdispatched]
  have htakes : takes sha256 s' wanted receiptType rows = takes sha256 s wanted receiptType rows := by
    funext i
    rw [takes, takes, hunsent]
  rw [candidates, candidates, htakes]

/-- A received row is no candidate any more; the others are what they were. -/
theorem candidates_set {content receiptType : String} {rows : List ChatMessage} {i : ℕ}
    {m : ChatMessage} (hm : rows[i]? = some m) :
    candidates sha256 s content "received" (rows.set i (flag receiptType m)) =
      (candidates sha256 s content "received" rows).filter (· ≠ i) := by
  have hgrown : Grown rows (rows.set i (flag receiptType m)) :=
    Grown.set hm (Flagged.flag receiptType m)
  rw [candidates, candidates, List.filter_filter, ← receiptOrder_congr hgrown.times]
  refine List.filter_congr fun j hj => ?_
  by_cases hij : j = i
  · subst hij
    have hset : (rows.set j (flag receiptType m))[j]? = some (flag receiptType m) :=
      List.getElem?_set_self (List.getElem?_eq_some_iff.mp hm).1
    have htaken : ¬ takes sha256 s content "received" (rows.set j (flag receiptType m)) j = true :=
      fun htakes => by
        have hunflagged := ((takes_iff sha256 s hset).mp htakes).unflagged
        unfold flagged at hunflagged
        rw [if_pos rfl] at hunflagged
        contradiction
    rw [Bool.eq_false_iff.mpr htaken]
    simp
  · rw [takes, takes, List.getElem?_set_ne (Ne.symm hij)]
    simp [hij]

theorem candidates_nodup (wanted receiptType : String) (rows : List ChatMessage) :
    (candidates sha256 s wanted receiptType rows).Nodup :=
  (receiptOrder_nodup rows (some wanted)).filter _

theorem step_receipt_candidates (sender content wanted receiptType : String)
    (rows : List ChatMessage) :
    candidates sha256 (s.step sha256 logger sender (.receipt wanted receiptType)) content
      "received" rows = candidates sha256 s content "received" rows := by
  have hqueue : (s.step sha256 logger sender (.receipt wanted receiptType)).queuedMsgIDs =
      s.queuedMsgIDs ∧ (s.step sha256 logger sender (.receipt wanted receiptType)).dispatchedSends =
      s.dispatchedSends := by
    unfold Service.step handleReceipt
    dsimp only
    split
    · exact ⟨rfl, rfl⟩
    · cases settleRow sha256 logger _ s.unsent ("bind:" ++ wanted) (hashWanted ("bind:" ++ wanted))
        receiptType _ <;> exact ⟨rfl, rfl⟩
  exact takes_congr sha256 s hqueue.1 hqueue.2 _ _ _

/-- Received receipts of one content take its candidates in turn. -/
theorem run_in_turn (sender content : String) (events : List Event)
    (hevents : ∀ event ∈ events, ∃ wanted receiptType, event = .receipt wanted receiptType ∧
      (wanted = content → receiptType ≠ "read")) :
    ∀ (s : Service) (i : ℕ) (m : ChatMessage), (s.rows sender)[i]? = some m →
      c2cTextHash sha256 m.text = content → m.isReceived = false →
      ((∃ m', ((s.run sha256 logger sender events).rows sender)[i]? = some m' ∧
          m'.isReceived = true) ↔
        i ∈ (candidates sha256 s content "received" (s.rows sender)).take
          (events.count (.receipt content "received"))) := by
  induction events with
  | nil =>
    intro s i m hm _ hunreceived
    rw [List.count_nil, List.take_zero]
    refine ⟨?_, fun h => absurd h List.not_mem_nil⟩
    rintro ⟨m', hm', hreceived⟩
    obtain rfl : m = m' := Option.some.inj (hm.symm.trans hm')
    rw [hunreceived] at hreceived
    contradiction
  | cons event events ih =>
    intro s i m hm hcontent hunreceived
    obtain ⟨wanted, receiptType, rfl, hkind⟩ := hevents _ (List.mem_cons_self ..)
    have hrest := ih (fun event hevent => hevents event (List.mem_cons_of_mem _ hevent))
      (s.step sha256 logger sender (.receipt wanted receiptType))
    change (∃ m', ((Service.run sha256 logger sender (s.step sha256 logger sender
      (.receipt wanted receiptType)) events).rows sender)[i]? = some m' ∧ m'.isReceived = true) ↔ _
    have hrows := (step_receipt sha256 logger s sender wanted receiptType).1
    have hsame := fun rows =>
      step_receipt_candidates sha256 logger s sender content wanted receiptType rows
    rw [List.count_cons]
    rcases markFirst_cases sha256 s wanted receiptType (s.rows sender) with
      ⟨heq, hnone⟩ | ⟨k, rest, a, hcandidates, ha, hmeans, htype, heq⟩
    · -- nothing was taken
      rw [heq] at hrows
      rw [hrest i m (by rw [hrows]; exact hm) hcontent hunreceived, hsame, hrows]
      by_cases hthis : Event.receipt wanted receiptType = Event.receipt content "received"
      · obtain ⟨hwanted, hreceived⟩ := Event.receipt.inj hthis
        have hempty : candidates sha256 s content "received" (s.rows sender) = [] := by
          rcases hnone with hnil | ⟨hnot, -⟩
          · rw [← hwanted, ← hreceived]
            exact hnil
          · exact absurd hreceived hnot
        rw [hempty, List.take_nil, List.take_nil]
      · rw [if_neg (by simpa using hthis), Nat.add_zero]
    · rw [heq] at hrows
      have hcandidates' : candidates sha256 (s.step sha256 logger sender (.receipt wanted receiptType))
          content "received" ((s.step sha256 logger sender (.receipt wanted receiptType)).rows sender) =
          (candidates sha256 s content "received" (s.rows sender)).filter (· ≠ k) := by
        rw [hsame, hrows]
        exact candidates_set sha256 s ha
      have hother : i ≠ k → ((s.step sha256 logger sender (.receipt wanted receiptType)).rows
          sender)[i]? = some m := fun hne => by
        rw [hrows, List.getElem?_set_ne (Ne.symm hne)]
        exact hm
      by_cases hwanted : wanted = content
      · -- the oldest candidate was taken
        obtain rfl : receiptType = "received" := htype.resolve_right (hkind hwanted)
        subst hwanted
        have hnodup := candidates_nodup sha256 s wanted "received" (s.rows sender)
        rw [hcandidates, List.nodup_cons] at hnodup
        have htail : (k :: rest).filter (· ≠ k) = rest := by
          rw [List.filter_cons_of_neg (by simp)]
          refine List.filter_eq_self.mpr fun j hj => decide_eq_true fun hjk => hnodup.1 (hjk ▸ hj)
        rw [if_pos (by simp), hcandidates, List.take_succ_cons, List.mem_cons]
        by_cases hik : i = k
        · subst hik
          have hget : ((s.step sha256 logger sender (.receipt wanted "received")).rows sender)[i]? =
              some (flag "received" a) := by
            rw [hrows]
            exact List.getElem?_set_self (List.getElem?_eq_some_iff.mp ha).1
          obtain ⟨m', hm', received, read, hflag⟩ := (run_grown sha256 logger
            (s.step sha256 logger sender (.receipt wanted "received")) sender events).row i _ hget
          refine ⟨fun _ => Or.inl rfl, fun _ => ⟨m', hm', ?_⟩⟩
          rw [hflag]
          change (true || received) = true
          exact Bool.true_or received
        · rw [hrest i m (hother hik) hcontent hunreceived, hcandidates', hcandidates, htail]
          exact ⟨Or.inr, fun h => h.resolve_left hik⟩
      · -- a row of another content was taken
        have hik : ∀ j m, (s.rows sender)[j]? = some m → c2cTextHash sha256 m.text = content → j ≠ k := by
          intro j m hj hj' hjk
          subst hjk
          obtain rfl : a = m := Option.some.inj (ha.symm.trans hj)
          exact hwanted (hmeans.content.symm.trans hj')
        have hkeep : (candidates sha256 s content "received" (s.rows sender)).filter (· ≠ k) =
            candidates sha256 s content "received" (s.rows sender) := by
          refine List.filter_eq_self.mpr fun j hj => ?_
          obtain ⟨m, hm, hmeans'⟩ := (mem_candidates sha256 s).mp hj
          exact decide_eq_true (hik j m hm hmeans'.content)
        rw [hrest i m (hother (hik i m hm hcontent)) hcontent hunreceived, hcandidates', hkeep,
          if_neg (by simp [hwanted]), Nat.add_zero]

/-- A content receipt takes the oldest row it can mean, or none. -/
theorem step_oldest (sender wanted receiptType : String) :
    (s.step sha256 logger sender (.receipt wanted receiptType)).rows sender = s.rows sender ∨
      ∃ i m, (s.rows sender)[i]? = some m ∧ Means sha256 s wanted receiptType m ∧
        (∀ j m', (s.rows sender)[j]? = some m' → Means sha256 s wanted receiptType m' →
          m.timestamp < m'.timestamp ∨ m.timestamp = m'.timestamp ∧ i ≤ j) ∧
        (s.step sha256 logger sender (.receipt wanted receiptType)).rows sender =
          (s.rows sender).set i (flag receiptType m) := by
  rw [(step_receipt sha256 logger s sender wanted receiptType).1]
  rcases markFirst_cases sha256 s wanted receiptType (s.rows sender) with
    ⟨heq, -⟩ | ⟨i, rest, m, hcandidates, hm, hmeans, -, heq⟩
  · exact Or.inl heq
  · refine Or.inr ⟨i, m, hm, hmeans, fun j m' hj hmeans' => ?_, heq⟩
    have hmem := (mem_candidates sha256 s).mpr ⟨m', hj, hmeans'⟩
    have hsorted := (receiptOrder_sorted (s.rows sender) wanted).filter
      (takes sha256 s wanted receiptType (s.rows sender))
    change (candidates sha256 s wanted receiptType (s.rows sender)).Pairwise _ at hsorted
    rw [hcandidates] at hmem hsorted
    rcases List.mem_cons.mp hmem with rfl | hrest
    · obtain rfl : m = m' := Option.some.inj (hm.symm.trans hj)
      exact Or.inr ⟨rfl, Nat.le_refl _⟩
    · have holder := (List.pairwise_cons.mp hsorted).1 j hrest
      unfold Older timeAt at holder
      rw [hm, hj] at holder
      exact holder

/-- What content receipts of a sender do to the rows, whatever came before them. -/
structure Settles (sender : String) : Prop where
  elsewhere : ∀ events id, id ≠ sender →
    (s.run sha256 logger sender events).historyById id = s.historyById id
  grown : ∀ events, Grown (s.rows sender) ((s.run sha256 logger sender events).rows sender)
  oldest : ∀ events wanted receiptType,
    ((s.run sha256 logger sender events).step sha256 logger sender
        (.receipt wanted receiptType)).rows sender = (s.run sha256 logger sender events).rows sender ∨
      ∃ i m, ((s.run sha256 logger sender events).rows sender)[i]? = some m ∧
        Means sha256 (s.run sha256 logger sender events) wanted receiptType m ∧
        (∀ j m', ((s.run sha256 logger sender events).rows sender)[j]? = some m' →
          Means sha256 (s.run sha256 logger sender events) wanted receiptType m' →
          m.timestamp < m'.timestamp ∨ m.timestamp = m'.timestamp ∧ i ≤ j) ∧
        ((s.run sha256 logger sender events).step sha256 logger sender
            (.receipt wanted receiptType)).rows sender =
          ((s.run sha256 logger sender events).rows sender).set i (flag receiptType m)
  atMost : ∀ events content, unreceived sha256 content (s.rows sender) ≤
    unreceived sha256 content ((s.run sha256 logger sender events).rows sender) +
      events.countP (·.binds content)
  inTurn : ∀ events content, (∀ event ∈ events, ∃ wanted receiptType,
      event = .receipt wanted receiptType ∧ (wanted = content → receiptType ≠ "read")) →
    ∀ (i : ℕ) (m : ChatMessage), (s.rows sender)[i]? = some m →
      c2cTextHash sha256 m.text = content → m.isReceived = false →
      ((∃ m', ((s.run sha256 logger sender events).rows sender)[i]? = some m' ∧
          m'.isReceived = true) ↔
        i ∈ (candidates sha256 s content "received" (s.rows sender)).take
          (events.count (.receipt content "received")))

theorem content_receipts_settle (sender : String) : Settles sha256 logger s sender :=
  ⟨fun events _ hid => run_elsewhere sha256 logger s sender events hid,
    run_grown sha256 logger s sender,
    fun events => step_oldest sha256 logger (s.run sha256 logger sender events) sender,
    fun events content => run_unreceived sha256 logger s sender content events,
    fun events content hevents => run_in_turn sha256 logger sender content events hevents s⟩

end

def textDigest (_ : List UInt8) : Digest :=
  ⟨"8f434346648f6b96df89dda901c5176b10a6d83961dd3c1ac88b59b2dc327aa4", by decide⟩

def handedOver : Service where
  historyById id := if id = "peer" then
    some [{ text := "hi", fromUserId := "me", isSelf := true, timestamp := 0, msgID := some "m" }]
    else none
  queuedMsgIDs := ["m"]
  dispatchedSends := ["m"]

/-- A row that is still queued after it was handed to transport takes the receipt. -/
theorem queued_row_received :
    "m" ∈ handedOver.queuedMsgIDs ∧
      ((handedOver.step textDigest true "peer" (.receipt (c2cTextHash textDigest "hi")
        "received")).rows "peer").map (·.isReceived) = [true] := by
  decide

end Tim2Tox.ContentReceipts
