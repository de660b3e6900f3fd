import Tim2Tox.HistoryRows

set_option autoImplicit false

/-!
# Unread rows and the view barrier

A conversation under appends, views, saves, loads and restarts. The unread count is read off the
rows; the barrier is a second record of what was seen, kept in memory and in the file. A load brings
both together: it marks the rows at or before the barrier read, and it takes the barrier of the file.
-/
namespace Tim2Tox.ChatHistory
open ChatMessage LabelledRuns

structure HistoryFile where
  lastViewTimestamp : ℤ
  messages : List ChatMessage
  deriving DecidableEq

/-- The cached rows, the barrier, what the file holds and whether a save is owed. -/
structure View where
  cache : Option (List ChatMessage) := none
  lastView : Option ℤ := none
  file : Option HistoryFile := none
  dirty : Bool := false
  deriving DecidableEq

inductive ViewCall where
  | append (message : ChatMessage)
  | viewed (now : ℤ)
  | save (succeeds : Bool)
  | load
  | restart

namespace View

def rows (s : View) : List ChatMessage := s.cache.getD []

def getLastViewTimestamp (s : View) : ℤ := s.lastView.getD 0

def isUnread (m : ChatMessage) : Bool := !m.isSelf && !m.isRead

def getUnreadCount (s : View) : ℕ := s.rows.countP isUnread

def appendHistory (sent : Option (String → Bool)) (s : View) (message : ChatMessage) : View :=
  { s with cache := some (appendWindow sent s.rows message).2, dirty := true }

def saveHistory (s : View) : View :=
  if s.rows = [] then s
  else
    { s with
      file := some { lastViewTimestamp := s.getLastViewTimestamp, messages := s.rows }
      dirty := false }

/-- The barrier of the file replaces the one in memory. -/
def loadHistory (s : View) : View :=
  match s.file with
  | none => s
  | some file =>
    let installed := installLoadedHistory s.cache file.messages (fun _ => false)
      file.lastViewTimestamp false
    { s with
      cache := installed.cache
      lastView := some file.lastViewTimestamp
      dirty := s.dirty || installed.dirty || installed.schedule }

def markRead (m : ChatMessage) : ChatMessage := if isUnread m then { m with isRead := true } else m

/-- Every row is read and the barrier is the latest instant; an empty conversation takes the
    clock. -/
def markConversationViewed (s : View) (now : ℤ) : View :=
  let s := if s.cache = none then s.loadHistory else s
  if s.rows = [] then
    if now > s.getLastViewTimestamp then { s with lastView := some now } else s
  else
    let latest := s.rows.foldl (fun t m => max t m.millis) s.getLastViewTimestamp
    if latest > s.getLastViewTimestamp || s.rows.any isUnread then
      { s with
        cache := some (s.rows.map markRead)
        lastView := if latest > s.getLastViewTimestamp then some latest else s.lastView
        dirty := true }
    else s

/-- What is owed is written, and the next process loads the conversation. -/
def restart (s : View) : View :=
  let s := if s.dirty then s.saveHistory else s
  loadHistory { file := s.file }

def after (sent : Option (String → Bool)) (s : View) : ViewCall → View
  | .append message => s.appendHistory sent message
  | .viewed now => s.markConversationViewed now
  | .save succeeds => if succeeds then s.saveHistory else s
  | .load => s.loadHistory
  | .restart => s.restart

def step (sent : Option (String → Bool)) (s : View) (call : ViewCall) : Option View :=
  some (s.after sent call)

/-- The file a load reads has the barrier of the memory. -/
def barrierCurrent (s : View) : Prop :=
  ∀ file, s.file = some file → s.getLastViewTimestamp ≤ file.lastViewTimestamp

/-- An unread row that arrives is later than the barrier, a load never collapses what an append
    leaves, and a load never reads an older barrier than the one in memory. -/
def keepsUp (sent : Option (String → Bool)) (s : View) : ViewCall → Prop
  | .append message =>
    match (matchingRow s.rows message).or (contentMatch s.rows message) with
    | none => (isUnread message → s.getLastViewTimestamp ≤ 0 ∨ s.getLastViewTimestamp < message.millis) ∧
        ∀ r ∈ s.rows, Separate r message
    | some i => ∀ e, s.rows[i]? = some e → ∀ j r, j ≠ i → s.rows[j]? = some r →
        Separate r (mergeMessages sent e message)
  | .viewed _ => s.cache = none → s.barrierCurrent
  | .save _ => True
  | .load => s.barrierCurrent
  | .restart => True

/-! ## What a load gives back -/

/-- The rows of a file that a load installs as they are. -/
structure Settled (barrier : ℤ) (messages : List ChatMessage) : Prop where
  separate : messages.Pairwise Separate
  later : ∀ r ∈ messages, isUnread r = true → barrier ≤ 0 ∨ barrier < r.millis

section
variable {barrier : ℤ} {messages : List ChatMessage}

theorem separate_symm {a b : ChatMessage} (h : Separate a b) : Separate b a :=
  ⟨h.1.symm, fun hself id hb ha => h.2 hself.symm id ha hb⟩

theorem Settled.perm {messages' : List ChatMessage} (h : Settled barrier messages)
    (hperm : messages'.Perm messages) : Settled barrier messages' :=
  ⟨(hperm.pairwise_iff separate_symm).mpr h.separate, fun r hr => h.later r (hperm.mem_iff.mp hr)⟩

theorem isUnread_notPending (m : ChatMessage) : isUnread (notPending m) = isUnread m := by
  unfold notPending
  split_ifs <;> rfl

theorem millis_notPending (m : ChatMessage) : (notPending m).millis = m.millis := by
  unfold notPending
  split_ifs <;> rfl

theorem Settled.notPending (h : Settled barrier messages) :
    Settled barrier (messages.map ChatHistory.notPending) := by
  refine ⟨?_, fun r hr hunread => ?_⟩
  · rw [List.pairwise_map]
    refine h.separate.imp fun {a b} hab => ?_
    obtain ⟨hself, hprimary, hid, -⟩ := notPending_same a
    obtain ⟨hself', hprimary', hid', -⟩ := notPending_same b
    unfold Separate
    rw [hself, hprimary, hid, hself', hprimary', hid']
    exact hab
  · obtain ⟨m, hm, rfl⟩ := List.mem_map.mp hr
    rw [isUnread_notPending] at hunread
    rw [millis_notPending]
    exact h.later m hm hunread

theorem reconcile_of_later {m : ChatMessage} (h : isUnread m = true → barrier ≤ 0 ∨ barrier < m.millis) :
    reconcile barrier m = m := by
  unfold reconcile
  rw [if_neg]
  simp only [Bool.and_eq_true, decide_eq_true_eq, Bool.not_eq_true']
  rintro ⟨⟨⟨hpos, hself⟩, hread⟩, hle⟩
  rcases h (by rw [isUnread, hself, hread]; rfl) with hz | hlt
  · omega
  · omega

theorem Settled.loadedRows (h : Settled barrier messages) :
    (loadedRows (fun _ => false) barrier messages).Perm (messages.map ChatHistory.notPending) := by
  have hsurvive : survivors (fun _ => false) messages = messages.map ChatHistory.notPending := by
    unfold survivors
    rw [dedupe_of_separate _ h.notPending.separate, List.filter_eq_self]
    intro m _
    simp
  have hsort := List.perm_insertionSort (fun a b : ChatMessage => a.timestamp ≤ b.timestamp)
    (messages.map ChatHistory.notPending)
  unfold ChatHistory.loadedRows sortChatMessagesChronologically
  rw [hsurvive]
  have hmap : ((messages.map ChatHistory.notPending).insertionSort
      fun a b => a.timestamp ≤ b.timestamp).map (reconcile barrier) =
      (messages.map ChatHistory.notPending).insertionSort fun a b => a.timestamp ≤ b.timestamp := by
    conv_rhs => rw [← List.map_id ((messages.map ChatHistory.notPending).insertionSort _)]
    exact List.map_congr_left fun m hm =>
      reconcile_of_later (h.notPending.later m (hsort.mem_iff.mp hm))
  rw [hmap]
  exact hsort

end

/-- Where the memory and the file of a conversation stand to each other. -/
structure Kept (s : View) : Prop where
  rows : Settled s.getLastViewTimestamp s.rows
  file : ∀ file, s.file = some file → Settled file.lastViewTimestamp file.messages
  older : ∀ file, s.file = some file → file.lastViewTimestamp ≤ s.getLastViewTimestamp
  written : s.dirty = false → ∀ file, s.file = some file →
    file.messages.countP isUnread = s.rows.countP isUnread
  unwritten : s.dirty = false → s.file = none → s.rows = []
  owed : s.dirty = true → s.rows ≠ []

variable {s : View}

/-- A load with no live row installs the rows of the file. -/
theorem load_empty {file : HistoryFile} (hfile : s.file = some file) (hrows : s.rows = [])
    (hsettled : Settled file.lastViewTimestamp file.messages) :
    s.loadHistory.rows.Perm (file.messages.map ChatHistory.notPending) ∧
      (s.loadHistory.dirty = true → s.dirty = true ∨ file.messages ≠ []) := by
  have hperm := hsettled.loadedRows
  have hlength := hperm.length_eq
  rw [List.length_map] at hlength
  have hdedupe : (dedupeByIdentity (file.messages.map ChatHistory.notPending)).length =
      file.messages.length := by
    rw [dedupe_of_separate _ hsettled.notPending.separate, List.length_map]
  have hlive : s.cache.getD [] = [] := hrows
  unfold loadHistory
  rw [hfile]
  simp only [installLoadedHistory, hlive, if_true, View.rows, hlength, hdedupe]
  by_cases hempty : loadedRows (fun _ => false) file.lastViewTimestamp file.messages = []
  · rw [if_pos hempty]
    rw [hempty] at hperm hlength
    refine ⟨by rw [hlive]; exact hperm, fun hdirty => ?_⟩
    have hnil : file.messages = [] := List.length_eq_zero_iff.mp hlength.symm
    simp only [hnil, ne_eq, not_true_eq_false, decide_false, List.any_nil, Bool.or_false,
      Bool.false_and] at hdirty
    exact .inl hdirty
  · rw [if_neg hempty]
    refine ⟨by rw [Option.getD_some]; exact hperm, fun _ => .inr fun hnil => hempty ?_⟩
    exact List.length_eq_zero_iff.mp (hlength.trans (List.length_eq_zero_iff.mpr hnil))

theorem represented_separate {others : List ChatMessage} {m o : ChatMessage}
    (h : represented others m = false) (ho : o ∈ others) : Separate m o := by
  have hno := List.any_eq_false.mp h o ho
  rw [Bool.or_eq_true, not_or, decide_eq_true_eq] at hno
  exact ⟨fun heq => hno.1 heq.symm, fun hself => represented_eq_false h ho hself.symm⟩

theorem getLastView_load {file : HistoryFile} (hfile : s.file = some file) :
    s.loadHistory.getLastViewTimestamp = file.lastViewTimestamp ∧ s.loadHistory.file = some file := by
  unfold loadHistory
  rw [hfile]
  exact ⟨rfl, rfl⟩

/-- A load beside live rows adds the rows of the file they do not stand for. -/
theorem load_live {file : HistoryFile} (hfile : s.file = some file) (hrows : s.rows ≠ [])
    (hsettled : Settled file.lastViewTimestamp file.messages)
    (hlive : Settled file.lastViewTimestamp s.rows) :
    Settled file.lastViewTimestamp s.loadHistory.rows ∧ s.loadHistory.rows ≠ [] ∧
      (s.loadHistory.dirty = false → s.dirty = false ∧ s.loadHistory.rows = s.rows) := by
  have hne : ¬s.cache.getD [] = [] := hrows
  have hloaded : Settled file.lastViewTimestamp
      (loadedRows (fun _ => false) file.lastViewTimestamp file.messages) :=
    hsettled.notPending.perm hsettled.loadedRows
  unfold loadHistory
  rw [hfile]
  simp only [installLoadedHistory, if_neg hne, View.rows, Option.getD_some]
  by_cases hnew : (loadedRows (fun _ => false) file.lastViewTimestamp file.messages).filter
      (fun m => !represented (s.cache.getD []) m) = []
  · rw [if_pos hnew]
    refine ⟨hlive, hne, fun hdirty => ?_⟩
    rw [Bool.or_eq_false_iff, Bool.or_eq_false_iff] at hdirty
    exact ⟨hdirty.1.1, rfl⟩
  · rw [if_neg hnew]
    refine ⟨?_, ?_, fun hdirty => ?_⟩
    · refine Settled.perm ⟨?_, fun r hr => ?_⟩ (List.perm_insertionSort _ _)
      · refine List.pairwise_append.mpr
          ⟨hloaded.separate.sublist List.filter_sublist, hlive.separate, fun a ha b hb => ?_⟩
        rw [List.mem_filter, Bool.not_eq_true'] at ha
        exact represented_separate ha.2 hb
      · rcases List.mem_append.mp hr with hr | hr
        · exact hloaded.later r (List.mem_of_mem_filter hr)
        · exact hlive.later r hr
    · intro hnil
      have hlength := congrArg List.length hnil
      unfold sortChatMessagesChronologically at hlength
      rw [List.length_insertionSort, List.length_append, List.length_nil] at hlength
      exact hne (List.length_eq_zero_iff.mp (by omega))
    · have hnone := (Bool.or_eq_false_iff.mp (Bool.or_eq_false_iff.mp hdirty).2).1
      rw [decide_eq_false_iff_not, not_not] at hnone
      exact absurd hnone hnew

theorem Kept.load (h : Kept s) (hcurrent : s.barrierCurrent) : Kept s.loadHistory := by
  rcases hfile : s.file with _ | file
  · have heq : s.loadHistory = s := by
      unfold loadHistory
      rw [hfile]
    rw [heq]
    exact h
  · obtain ⟨hview, hfile'⟩ := getLastView_load hfile
    have hsettled := h.file file hfile
    have hbarrier : s.getLastViewTimestamp = file.lastViewTimestamp :=
      Int.le_antisymm (hcurrent file hfile) (h.older file hfile)
    have hkept : Settled file.lastViewTimestamp s.loadHistory.rows ∧
        (s.loadHistory.dirty = true → s.loadHistory.rows ≠ []) ∧
        (s.loadHistory.dirty = false →
          file.messages.countP isUnread = s.loadHistory.rows.countP isUnread) := by
      by_cases hrows : s.rows = []
      · obtain ⟨hperm, hdirty⟩ := load_empty hfile hrows hsettled
        refine ⟨hsettled.notPending.perm hperm, fun hd hnil => ?_, fun _ => ?_⟩
        · rw [hnil] at hperm
          rcases hdirty hd with hd | hne
          · exact h.owed hd hrows
          · exact hne (List.map_eq_nil_iff.mp (List.Perm.nil_eq hperm).symm)
        · rw [hperm.countP_eq, List.countP_map]
          congr 1
          funext m
          exact (isUnread_notPending m).symm
      · obtain ⟨hset, hne, hdirty⟩ := load_live hfile hrows hsettled (hbarrier ▸ h.rows)
        refine ⟨hset, fun _ => hne, fun hd => ?_⟩
        obtain ⟨hclean, hsame⟩ := hdirty hd
        rw [hsame]
        exact h.written hclean file hfile
    refine ⟨?_, fun f hf => ?_, fun f hf => ?_, fun hd f hf => ?_, fun _ hf => ?_, hkept.2.1⟩
    · rw [hview]
      exact hkept.1
    · rw [hfile'] at hf
      rw [← Option.some.inj hf]
      exact hsettled
    · rw [hfile'] at hf
      rw [hview, ← Option.some.inj hf]
    · rw [hfile'] at hf
      rw [← Option.some.inj hf]
      exact hkept.2.2 hd
    · rw [hfile'] at hf
      contradiction

theorem Kept.save (h : Kept s) : Kept s.saveHistory := by
  unfold saveHistory
  split_ifs with hrows
  · exact h
  · refine ⟨h.rows, fun f hf => ?_, fun f hf => ?_, fun _ f hf => ?_, fun _ hf => ?_, fun hd => ?_⟩
    · rw [← Option.some.inj hf]
      exact h.rows
    · rw [← Option.some.inj hf]
      exact Int.le_refl _
    · rw [← Option.some.inj hf]
      rfl
    · contradiction
    · contradiction

/-- The state a process finds when it starts. -/
def fresh (file : Option HistoryFile) : View := { file }

theorem Kept.fresh_load (file : Option HistoryFile)
    (hfile : ∀ f, file = some f → Settled f.lastViewTimestamp f.messages) :
    Kept (fresh file).loadHistory := by
  rcases file with _ | f
  · refine ⟨⟨List.Pairwise.nil, fun r hr => ?_⟩, ?_, ?_, ?_, fun _ _ => rfl, ?_⟩
    · exact absurd hr List.not_mem_nil
    all_goals intros; contradiction
  · have hsettled := hfile f rfl
    obtain ⟨hview, hfile'⟩ := getLastView_load (s := fresh (some f)) rfl
    obtain ⟨hperm, hdirty⟩ := load_empty (s := fresh (some f)) rfl rfl hsettled
    refine ⟨?_, fun f' hf => ?_, fun f' hf => ?_, fun _ f' hf => ?_, fun _ hf => ?_, fun hd hnil => ?_⟩
    · rw [hview]
      exact hsettled.notPending.perm hperm
    · rw [hfile'] at hf
      rw [← Option.some.inj hf]
      exact hsettled
    · rw [hfile'] at hf
      rw [hview, ← Option.some.inj hf]
    · rw [hfile'] at hf
      rw [← Option.some.inj hf, hperm.countP_eq, List.countP_map]
      congr 1
      funext m
      exact (isUnread_notPending m).symm
    · rw [hfile'] at hf
      contradiction
    · rw [hnil] at hperm
      rcases hdirty hd with hd | hne
      · contradiction
      · exact hne (List.map_eq_nil_iff.mp (List.Perm.nil_eq hperm).symm)

/-! ## Appends and views -/

theorem millis_mono {a b : ChatMessage} (h : a.timestamp ≤ b.timestamp) : a.millis ≤ b.millis :=
  Int.tdiv_le_tdiv (by decide) h

theorem millis_mergeMessages (sent : Option (String → Bool)) (a b : ChatMessage) :
    a.millis ≤ (mergeMessages sent a b).millis := by
  refine millis_mono ?_
  change a.timestamp ≤ if b.timestamp > a.timestamp then b.timestamp else a.timestamp
  split_ifs
  · omega
  · exact Int.le_refl _

theorem isUnread_mergeMessages {sent : Option (String → Bool)} {a b : ChatMessage}
    (hself : a.isSelf = b.isSelf) (h : isUnread (mergeMessages sent a b) = true) : isUnread a = true := by
  change (!b.isSelf && !(b.isRead || a.isRead)) = true at h
  unfold isUnread
  rw [Bool.and_eq_true, Bool.not_eq_true', Bool.not_eq_true', Bool.or_eq_false_iff] at h
  rw [hself, h.1, h.2.2]
  rfl

theorem Settled.append {sent : Option (String → Bool)} {message : ChatMessage} (h : Kept s)
    (hkeeps : s.keepsUp sent (.append message)) :
    Settled s.getLastViewTimestamp (appendRow sent s.rows message) := by
  unfold appendRow
  unfold keepsUp at hkeeps
  dsimp only at hkeeps
  rcases htarget : (matchingRow s.rows message).or (contentMatch s.rows message) with _ | i
  · rw [htarget] at hkeeps
    refine ⟨?_, fun r hr hunread => ?_⟩
    · refine List.pairwise_append.mpr ⟨h.rows.separate, List.pairwise_singleton _ _, fun r hr m hm => ?_⟩
      rw [List.mem_singleton.mp hm]
      exact hkeeps.2 r hr
    · rcases List.mem_append.mp hr with hr | hr
      · exact h.rows.later r hr hunread
      · rw [List.mem_singleton.mp hr] at hunread ⊢
        exact hkeeps.1 hunread
  · rw [htarget] at hkeeps
    obtain ⟨e, he, hself⟩ := target_spec htarget
    refine ⟨pairwise_modify separate_symm h.rows.separate he fun j r hne hr => hkeeps e he j r hne hr,
      fun r hr hunread => ?_⟩
    obtain ⟨j, hj⟩ := List.mem_iff_getElem?.mp hr
    by_cases hij : i = j
    · subst hij
      rw [List.getElem?_modify_eq, he] at hj
      rw [← Option.some.inj hj] at hunread ⊢
      have hle := millis_mergeMessages sent e message
      rcases h.rows.later e (List.mem_of_getElem? he) (isUnread_mergeMessages hself hunread) with hz | hlt
      · exact .inl hz
      · exact .inr (Int.lt_of_lt_of_le hlt hle)
    · rw [List.getElem?_modify_ne _ _ hij] at hj
      exact h.rows.later r (List.mem_of_getElem? hj) hunread

theorem Kept.append {sent : Option (String → Bool)} {message : ChatMessage} (h : Kept s)
    (hkeeps : s.keepsUp sent (.append message)) : Kept (s.appendHistory sent message) := by
  have hset := Settled.append h hkeeps
  obtain ⟨n, hn, heq⟩ := appendWindow_eq sent s.rows message
  have hrows : (s.appendHistory sent message).rows = (appendRow sent s.rows message).drop n :=
    congrArg Prod.snd heq
  refine ⟨?_, h.file, h.older, fun hd => ?_, fun hd => ?_, fun _ hnil => ?_⟩
  · rw [hrows]
    exact ⟨hset.separate.sublist (List.drop_sublist _ _),
      fun r hr => hset.later r (List.mem_of_mem_drop hr)⟩
  · contradiction
  · contradiction
  · rw [hrows] at hnil
    have hlength := congrArg List.length hnil
    rw [List.length_drop, List.length_nil] at hlength
    omega

theorem markRead_same (m : ChatMessage) : (markRead m).isSelf = m.isSelf ∧
    (markRead m).primary = m.primary ∧ identitiesOf (markRead m) = identitiesOf m ∧
    isUnread (markRead m) = false := by
  unfold markRead
  split_ifs with h
  · refine ⟨rfl, rfl, rfl, ?_⟩
    simp [isUnread]
  · exact ⟨rfl, rfl, rfl, by simpa using h⟩

theorem Kept.allRead (h : Kept s) (hrows : s.rows ≠ []) {lastView : Option ℤ}
    (hlater : s.getLastViewTimestamp ≤ lastView.getD 0) :
    Kept { s with cache := some (s.rows.map markRead), lastView, dirty := true } := by
  refine ⟨⟨?_, fun r hr hunread => ?_⟩, h.file, fun f hf => ?_, fun hd => ?_, fun hd => ?_, fun _ hnil => ?_⟩
  · change (s.rows.map markRead).Pairwise Separate
    rw [List.pairwise_map]
    refine h.rows.separate.imp fun {a b} hab => ?_
    obtain ⟨hself, hprimary, hid, -⟩ := markRead_same a
    obtain ⟨hself', hprimary', hid', -⟩ := markRead_same b
    unfold Separate
    rw [hself, hprimary, hid, hself', hprimary', hid']
    exact hab
  · obtain ⟨m, -, rfl⟩ := List.mem_map.mp hr
    rw [(markRead_same m).2.2.2] at hunread
    contradiction
  · exact Int.le_trans (h.older f hf) hlater
  · contradiction
  · contradiction
  · exact hrows (List.map_eq_nil_iff.mp hnil)

theorem Kept.viewed (h : Kept s) {now : ℤ} (hcurrent : s.cache = none → s.barrierCurrent) :
    Kept (s.markConversationViewed now) := by
  have hstart : Kept (if s.cache = none then s.loadHistory else s) := by
    split_ifs with hnone
    · exact h.load (hcurrent hnone)
    · exact h
  unfold markConversationViewed
  dsimp only
  generalize (if s.cache = none then s.loadHistory else s) = s at hstart
  split_ifs with hrows hnow hupdated hlater
  · refine ⟨⟨hstart.rows.separate, fun r hr => ?_⟩, hstart.file, fun f hf => ?_, hstart.written,
      hstart.unwritten, hstart.owed⟩
    · change r ∈ s.rows at hr
      rw [hrows] at hr
      exact absurd hr List.not_mem_nil
    · have hold := hstart.older f hf
      change f.lastViewTimestamp ≤ now
      omega
  · exact hstart
  · exact hstart.allRead hrows (Int.le_of_lt hlater)
  · exact hstart.allRead hrows (Int.le_refl _)
  · exact hstart

/-! ## Runs -/

theorem Kept.restart (h : Kept s) : Kept s.restart := by
  unfold View.restart
  have hsaved : Kept (if s.dirty then s.saveHistory else s) := by
    split_ifs
    · exact h.save
    · exact h
  exact Kept.fresh_load _ hsaved.file

theorem Kept.after {sent : Option (String → Bool)} (h : Kept s) {call : ViewCall}
    (hkeeps : s.keepsUp sent call) : Kept (s.after sent call) := by
  cases call with
  | append message => exact h.append hkeeps
  | viewed now => exact h.viewed hkeeps
  | save succeeds =>
    cases succeeds with
    | true => exact h.save
    | false => exact h
  | load => exact h.load hkeeps
  | restart => exact h.restart

/-- The next process counts the unread rows this one did. -/
theorem Kept.unread_restart (h : Kept s) : s.restart.getUnreadCount = s.getUnreadCount := by
  have hcount : ∀ {file : HistoryFile}, Settled file.lastViewTimestamp file.messages →
      (fresh (some file)).loadHistory.getUnreadCount = file.messages.countP isUnread := by
    intro file hsettled
    obtain ⟨hperm, -⟩ := load_empty (s := fresh (some file)) rfl rfl hsettled
    unfold getUnreadCount
    rw [hperm.countP_eq, List.countP_map]
    congr 1
    funext m
    exact isUnread_notPending m
  by_cases hdirty : s.dirty = true
  · have hrows := h.owed hdirty
    have heq : s.restart = (fresh (some ⟨s.getLastViewTimestamp, s.rows⟩)).loadHistory := by
      unfold View.restart saveHistory
      rw [if_pos hdirty, if_neg hrows]
      rfl
    rw [heq]
    exact hcount h.rows
  · have hclean : s.dirty = false := by simpa using hdirty
    have heq : s.restart = (fresh s.file).loadHistory := by
      unfold View.restart
      rw [if_neg hdirty]
      rfl
    rw [heq]
    rcases hfile : s.file with _ | file
    · unfold getUnreadCount
      rw [h.unwritten hclean hfile]
      rfl
    · rw [hcount (h.file file hfile)]
      exact h.written hclean file hfile

theorem barrier_after {sent : Option (String → Bool)} {call : ViewCall} (hkeeps : s.keepsUp sent call)
    (hcall : call ≠ .restart) : s.getLastViewTimestamp ≤ (s.after sent call).getLastViewTimestamp := by
  have hload : s.barrierCurrent → s.getLastViewTimestamp ≤ s.loadHistory.getLastViewTimestamp := by
    intro hcurrent
    rcases hfile : s.file with _ | file
    · unfold loadHistory
      rw [hfile]
    · rw [(getLastView_load hfile).1]
      exact hcurrent file hfile
  cases call with
  | append message => exact Int.le_refl _
  | viewed now =>
    have hstart : s.getLastViewTimestamp ≤
        (if s.cache = none then s.loadHistory else s).getLastViewTimestamp := by
      split_ifs with hnone
      · exact hload (hkeeps hnone)
      · exact Int.le_refl _
    refine Int.le_trans hstart ?_
    change _ ≤ (s.markConversationViewed now).getLastViewTimestamp
    unfold markConversationViewed
    dsimp only
    generalize (if s.cache = none then s.loadHistory else s) = s
    split_ifs with hrows hnow hupdated hlater
    · exact Int.le_of_lt hnow
    · exact Int.le_refl _
    · exact Int.le_of_lt hlater
    · exact Int.le_refl _
    · exact Int.le_refl _
  | save succeeds =>
    cases succeeds with
    | true =>
      change _ ≤ s.saveHistory.getLastViewTimestamp
      unfold saveHistory
      split_ifs
      · exact Int.le_refl _
      · exact Int.le_refl _
    | false => exact Int.le_refl _
  | load => exact hload hkeeps
  | restart => exact absurd rfl hcall

theorem Kept.empty : Kept {} :=
  Kept.fresh_load none fun _ h => by contradiction

theorem barrier_run {sent : Option (String → Bool)} {calls : List ViewCall} {s' : View}
    (hm : Meets (step sent) (fun s call => s.keepsUp sent call ∧ call ≠ .restart) s calls)
    (hr : exec (step sent) s calls = some s') : s.getLastViewTimestamp ≤ s'.getLastViewTimestamp := by
  refine invariant_of_meets (I := fun u => s.getLastViewTimestamp ≤ u.getLastViewTimestamp) ?_
    (Int.le_refl _) hm hr
  intro u call u' hle hcond hstep
  rw [← Option.some.inj hstep]
  exact Int.le_trans hle (barrier_after hcond.1 hcond.2)

end View

/-- A row of the other side at an instant in milliseconds. -/
def inbound (msgID : String) (millis : ℤ) : ChatMessage :=
  { text := msgID, fromUserId := "p", isSelf := false, timestamp := millis * 1000, msgID := some msgID }

end Tim2Tox.ChatHistory
