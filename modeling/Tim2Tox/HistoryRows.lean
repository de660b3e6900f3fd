import Tim2Tox.HistoryDedupe
import Tim2Tox.LabelledRuns

set_option autoImplicit false

/-!
# One row for one message

The cached list of a conversation under appends, updates, absorbed duplicates and loads. An append
merges into the first row its ids match, and so does an update; a load collapses the rows of the
file. No two rows of one direction share an id as long as the ids of what comes in point to one row.
-/
namespace Tim2Tox.ChatHistory
open ChatMessage LabelledRuns

/-- The cached list, the rows that left the memory window and every row appended so far. -/
structure Rows where
  cache : Option (List ChatMessage) := none
  archived : List ChatMessage := []
  appended : List ChatMessage := []

inductive RowCall where
  | append (message : ChatMessage)
  | update (msgID : String) (updated : ChatMessage)
  | absorb (position : Option ℕ) (row duplicate : ChatMessage)
  | load (messages : List ChatMessage) (deleted : String → Bool) (barrier : ℤ) (legacyLayout : Bool)

namespace Rows

def list (s : Rows) : List ChatMessage := s.cache.getD []

def after (sent : Option (String → Bool)) (s : Rows) : RowCall → Rows
  | .append message =>
    let (gone, kept) := appendWindow sent s.list message
    { cache := some kept, archived := s.archived ++ gone, appended := s.appended ++ [message] }
  | .update msgID updated => { s with cache := s.cache.map fun l => updateRow sent l msgID updated }
  | .absorb position row duplicate =>
    { s with cache := s.cache.map fun l => absorbDuplicateIds sent l position row duplicate }
  | .load messages deleted barrier legacyLayout =>
    { s with cache := (installLoadedHistory s.cache messages deleted barrier legacyLayout).cache }

def step (sent : Option (String → Bool)) (s : Rows) (call : RowCall) : Option Rows :=
  some (s.after sent call)

/-- The ids of what comes in point to one row: beside the row an appended message merges into, no
    row of its direction shares an id with it; no other row of the direction an update gives shares
    an id with the update or the row it updates, or with an absorbed duplicate; in a file every
    primary id has one direction. -/
def pointsToOne (s : Rows) : RowCall → Prop
  | .append message => ∀ i, matchingRow s.list message = some i →
      ∀ j r, j ≠ i → s.list[j]? = some r → r.isSelf = message.isSelf → ∀ id ∈ r.ids, id ∉ message.ids
  | .update msgID updated => ∀ i e, s.list.findIdx? (idMatches · msgID) = some i →
      s.list[i]? = some e → ∀ j r, j ≠ i → s.list[j]? = some r → r.isSelf = updated.isSelf →
        ∀ id ∈ r.ids, id ∉ e.ids ∧ id ∉ updated.ids
  | .absorb position row duplicate => ∀ i e, absorbingRow s.list position row = some i →
      s.list[i]? = some e → ∀ j r, j ≠ i → s.list[j]? = some r → r.isSelf = e.isSelf →
        ∀ id ∈ r.ids, id ∉ duplicate.ids
  | .load messages _ _ _ => ∀ a ∈ messages, ∀ b ∈ messages, a.primary = b.primary → a.isSelf = b.isSelf

end Rows

/-! ## Rows apart -/

/-- No two rows of one direction share an id. -/
def Distinct (rows : List ChatMessage) : Prop :=
  rows.Pairwise fun a b => a.isSelf = b.isSelf → ∀ id ∈ a.ids, id ∉ b.ids

section
variable {rows : List ChatMessage}

theorem pairwise_iff {R : ChatMessage → ChatMessage → Prop} : rows.Pairwise R ↔
    ∀ (i j : ℕ) (a b : ChatMessage), i < j → rows[i]? = some a → rows[j]? = some b → R a b := by
  rw [List.pairwise_iff_getElem]
  constructor
  · intro h i j a b hlt hi hj
    obtain ⟨hi', rfl⟩ := List.getElem?_eq_some_iff.mp hi
    obtain ⟨hj', rfl⟩ := List.getElem?_eq_some_iff.mp hj
    exact h i j hi' hj' hlt
  · intro h i j hi hj hlt
    exact h i j _ _ hlt (List.getElem?_eq_getElem hi) (List.getElem?_eq_getElem hj)

theorem distinct_iff : Distinct rows ↔ ∀ (i j : ℕ) (a b : ChatMessage), i ≠ j → rows[i]? = some a →
    rows[j]? = some b → a.isSelf = b.isSelf → ∀ id ∈ a.ids, id ∉ b.ids := by
  unfold Distinct
  rw [pairwise_iff]
  constructor
  · intro h i j a b hne hi hj hself id ha hb
    rcases Nat.lt_or_gt_of_ne hne with hlt | hgt
    · exact h i j a b hlt hi hj hself id ha hb
    · exact h j i b a hgt hj hi hself.symm id hb ha
  · intro h i j a b hlt
    exact h i j a b (by omega)

theorem Distinct.perm {rows' : List ChatMessage} (h : Distinct rows) (hperm : rows'.Perm rows) :
    Distinct rows' := by
  refine (hperm.pairwise_iff ?_).mpr h
  intro a b hab hself id hb ha
  exact hab hself.symm id ha hb

/-- An element may change as long as the other ones are related to its new value. -/
theorem pairwise_modify {R : ChatMessage → ChatMessage → Prop} (hsymm : ∀ {a b}, R a b → R b a) {i : ℕ}
    {e : ChatMessage} {f : ChatMessage → ChatMessage} (h : rows.Pairwise R) (hi : rows[i]? = some e)
    (hother : ∀ j r, j ≠ i → rows[j]? = some r → R r (f e)) : (rows.modify i f).Pairwise R := by
  have hat : (rows.modify i f)[i]? = some (f e) := by
    rw [List.getElem?_modify_eq, hi]
    rfl
  rw [pairwise_iff] at h ⊢
  intro j k a b hlt hj hk
  by_cases hji : i = j
  · subst hji
    rw [List.getElem?_modify_ne _ _ (by omega)] at hk
    rw [hat] at hj
    rw [← Option.some.inj hj]
    exact hsymm (hother k b (by omega) hk)
  · rw [List.getElem?_modify_ne _ _ hji] at hj
    by_cases hki : i = k
    · subst hki
      rw [hat] at hk
      rw [← Option.some.inj hk]
      exact hother j a (by omega) hj
    · rw [List.getElem?_modify_ne _ _ hki] at hk
      exact h j k a b hlt hj hk

theorem Distinct.modify {i : ℕ} {e : ChatMessage} {f : ChatMessage → ChatMessage} (h : Distinct rows)
    (hi : rows[i]? = some e)
    (hother : ∀ j r, j ≠ i → rows[j]? = some r → r.isSelf = (f e).isSelf → ∀ id ∈ r.ids, id ∉ (f e).ids) :
    Distinct (rows.modify i f) :=
  pairwise_modify (fun hab hself id hb ha => hab hself.symm id ha hb) h hi hother

theorem Distinct.concat {m : ChatMessage} (h : Distinct rows)
    (hother : ∀ r ∈ rows, r.isSelf = m.isSelf → ∀ id ∈ r.ids, id ∉ m.ids) : Distinct (rows ++ [m]) := by
  refine List.pairwise_append.mpr ⟨h, List.pairwise_singleton _ _, fun r hr m' hm' => ?_⟩
  rw [List.mem_singleton.mp hm']
  exact hother r hr

theorem findIdx?_spec {p : ChatMessage → Bool} {i : ℕ} (h : rows.findIdx? p = some i) :
    ∃ e, rows[i]? = some e ∧ p e = true := by
  obtain ⟨hlt, hp, -⟩ := List.findIdx?_eq_some_iff_getElem.mp h
  exact ⟨rows[i], List.getElem?_eq_getElem hlt, hp⟩

/-- The row an appended message merges into has its direction. -/
theorem target_spec {message : ChatMessage} {i : ℕ}
    (h : (matchingRow rows message).or (contentMatch rows message) = some i) :
    ∃ e, rows[i]? = some e ∧ e.isSelf = message.isSelf := by
  rcases hmatch : matchingRow rows message with _ | k
  · rw [hmatch, Option.none_or] at h
    unfold contentMatch at h
    split_ifs at h with hincoming
    obtain ⟨e, he, hp⟩ := findIdx?_spec h
    simp only [Bool.and_eq_true, Bool.not_eq_true', Bool.or_eq_true, not_or,
      Bool.not_eq_true] at hp hincoming
    exact ⟨e, he, hp.1.2.trans hincoming.2.symm⟩
  · rw [hmatch, Option.some_or] at h
    rw [Option.some.inj h] at hmatch
    obtain ⟨e, he, hp⟩ := findIdx?_spec hmatch
    rw [Bool.and_eq_true, decide_eq_true_eq] at hp
    exact ⟨e, he, hp.1⟩

/-- Where an appended message goes, and that no other row of its direction shares an id with it. -/
theorem append_target {message : ChatMessage}
    (hone : ∀ i, matchingRow rows message = some i → ∀ j r, j ≠ i → rows[j]? = some r →
      r.isSelf = message.isSelf → ∀ id ∈ r.ids, id ∉ message.ids) :
    (∃ i e, (matchingRow rows message).or (contentMatch rows message) = some i ∧ rows[i]? = some e ∧
      e.isSelf = message.isSelf ∧ ∀ j r, j ≠ i → rows[j]? = some r → r.isSelf = message.isSelf →
        ∀ id ∈ r.ids, id ∉ message.ids) ∨
    (matchingRow rows message).or (contentMatch rows message) = none ∧
      ∀ r ∈ rows, r.isSelf = message.isSelf → ∀ id ∈ r.ids, id ∉ message.ids := by
  rcases hmatch : matchingRow rows message with _ | i
  · have hnone : ∀ r ∈ rows, r.isSelf = message.isSelf → ∀ id ∈ r.ids, id ∉ message.ids := by
      intro r hr hself id hid hmsg
      have hno := List.findIdx?_eq_none_iff.mp hmatch r hr
      rw [Bool.and_eq_false_iff, decide_eq_false_iff_not, List.any_eq_false] at hno
      rcases hno with hno | hno
      · exact hno hself
      · exact hno id hmsg (idMatches_iff.mpr hid)
    rw [Option.none_or]
    rcases hcontent : contentMatch rows message with _ | i
    · exact .inr ⟨rfl, hnone⟩
    · obtain ⟨e, he, hself⟩ := target_spec (show (matchingRow rows message).or (contentMatch rows message) =
        some i by rw [hmatch, Option.none_or, hcontent])
      exact .inl ⟨i, e, rfl, he, hself, fun j r _ hr => hnone r (List.mem_of_getElem? hr)⟩
  · obtain ⟨e, he, hself⟩ := target_spec (show (matchingRow rows message).or (contentMatch rows message) =
      some i by rw [hmatch, Option.some_or])
    exact .inl ⟨i, e, Option.some_or, he, hself, hone i hmatch⟩

theorem Distinct.append {sent : Option (String → Bool)} {message : ChatMessage} (h : Distinct rows)
    (hone : ∀ i, matchingRow rows message = some i → ∀ j r, j ≠ i → rows[j]? = some r →
      r.isSelf = message.isSelf → ∀ id ∈ r.ids, id ∉ message.ids) :
    Distinct (appendRow sent rows message) := by
  unfold appendRow
  rcases append_target hone with ⟨i, e, htarget, he, hself, hother⟩ | ⟨htarget, hother⟩
  · rw [htarget]
    refine h.modify he fun j r hne hr hrself id hid hmerged => ?_
    rcases mem_ids_mergeMessages.mp hmerged with hold | hnew
    · exact distinct_iff.mp h i j e r (Ne.symm hne) he hr (hself.trans hrself.symm) id hold hid
    · exact hother j r hne hr hrself id hid hnew
  · rw [htarget]
    exact h.concat hother

theorem mem_ids_absorb {sent : Option (String → Bool)} {current duplicate : ChatMessage} {id : String} :
    id ∈ (absorb sent current duplicate).ids ↔ id ∈ current.ids ∨ id ∈ duplicate.ids := by
  have hnew : ∀ id, id ∈ duplicate.ids.filter (fun id => !idMatches current id) ↔
      id ∈ duplicate.ids ∧ id ∉ current.ids := by
    intro id
    rw [List.mem_filter, Bool.not_eq_true', ← Bool.not_eq_true, idMatches_iff]
  unfold absorb
  dsimp only
  split_ifs with hnone
  · rw [Bool.and_eq_true, List.isEmpty_iff] at hnone
    refine ⟨.inl, fun hid => ?_⟩
    rcases hid with hid | hid
    · exact hid
    · by_contra hout
      have hmem := (hnew id).mpr ⟨hid, hout⟩
      rw [hnone.1] at hmem
      exact List.not_mem_nil hmem
  · rw [mem_ids, mem_sortedIds, List.mem_append, hnew]
    rw [mem_ids (m := current)]
    constructor
    · rintro (hid | hid | ⟨hid, -⟩)
      · exact .inl (.inl hid)
      · exact .inl (.inr hid)
      · exact .inr hid
    · rintro ((hid | hid) | hid)
      · exact .inl hid
      · exact .inr (.inl hid)
      · by_cases hcur : current.msgID = some id ∨ id ∈ current.altMsgIds
        · rcases hcur with hcur | hcur
          · exact .inl hcur
          · exact .inr (.inl hcur)
        · exact .inr (.inr ⟨hid, hcur⟩)

theorem absorb_isSelf (sent : Option (String → Bool)) (current duplicate : ChatMessage) :
    (absorb sent current duplicate).isSelf = current.isSelf := by
  unfold absorb
  dsimp only
  split_ifs <;> rfl

/-! ## A load -/

theorem notPending_same (m : ChatMessage) : (notPending m).isSelf = m.isSelf ∧
    (notPending m).primary = m.primary ∧ identitiesOf (notPending m) = identitiesOf m ∧
    (notPending m).ids = m.ids := by
  unfold notPending
  split_ifs <;> exact ⟨rfl, rfl, rfl, rfl⟩

theorem reconcile_same (barrier : ℤ) (m : ChatMessage) : (reconcile barrier m).isSelf = m.isSelf ∧
    (reconcile barrier m).primary = m.primary ∧ identitiesOf (reconcile barrier m) = identitiesOf m ∧
    (reconcile barrier m).ids = m.ids := by
  unfold reconcile
  split_ifs <;> exact ⟨rfl, rfl, rfl, rfl⟩

theorem loadedRows_apart {messages : List ChatMessage} (deleted : String → Bool) (barrier : ℤ)
    (hone : ∀ a ∈ messages, ∀ b ∈ messages, a.primary = b.primary → a.isSelf = b.isSelf) :
    (loadedRows deleted barrier messages).Pairwise fun a b =>
      a.isSelf = b.isSelf → ∀ id ∈ identitiesOf a, id ∉ identitiesOf b := by
  have hdir : ∀ m ∈ messages.map notPending,
      m.isSelf = decide (∃ a ∈ messages, a.primary = m.primary ∧ a.isSelf = true) := by
    intro m hm
    obtain ⟨a, ha, rfl⟩ := List.mem_map.mp hm
    obtain ⟨hself, hprimary, -, -⟩ := notPending_same a
    rw [hself, hprimary]
    by_cases hexists : ∃ b ∈ messages, b.primary = a.primary ∧ b.isSelf = true
    · obtain ⟨b, hb, hp, hbself⟩ := hexists
      rw [hone a ha b hb hp.symm, hbself]
      exact (decide_eq_true ⟨b, hb, hp, hbself⟩).symm
    · rw [decide_eq_false hexists, Bool.eq_false_iff]
      exact fun hself => hexists ⟨a, ha, rfl, hself⟩
  have hapart := dedupe_apart
    (fun p => decide (∃ a ∈ messages, a.primary = p ∧ a.isSelf = true)) hdir
  have hsurvive := hapart.sublist (List.filter_sublist (p := fun m => !(identitiesOf m).any deleted))
  have hsorted := ((List.perm_insertionSort (fun a b : ChatMessage => a.timestamp ≤ b.timestamp)
    (survivors deleted messages)).pairwise_iff fun {a b} hab hself id hb ha =>
      hab hself.symm id ha hb).mpr hsurvive
  unfold loadedRows
  rw [List.pairwise_map]
  refine hsorted.imp fun {a b} hab => ?_
  obtain ⟨ha, -, hida, -⟩ := reconcile_same barrier a
  obtain ⟨hb, -, hidb, -⟩ := reconcile_same barrier b
  rw [ha, hb, hida, hidb]
  exact hab

theorem represented_eq_false {others : List ChatMessage} {m : ChatMessage}
    (h : represented others m = false) {o : ChatMessage} (ho : o ∈ others) (hself : o.isSelf = m.isSelf) :
    ∀ id ∈ identitiesOf m, id ∉ identitiesOf o := by
  intro id hid hother
  have hno := List.any_eq_false.mp h o ho
  refine hno ?_
  rw [Bool.or_eq_true, Bool.and_eq_true, decide_eq_true_eq, decide_eq_true_eq, List.any_eq_true]
  exact .inr ⟨hself, id, hid, decide_eq_true hother⟩

/-- The rows of the file stay apart from each other and from the live ones. -/
theorem Distinct.install {live : Option (List ChatMessage)} {messages : List ChatMessage}
    {deleted : String → Bool} {barrier : ℤ} {legacyLayout : Bool} (h : Distinct (live.getD []))
    (hone : ∀ a ∈ messages, ∀ b ∈ messages, a.primary = b.primary → a.isSelf = b.isSelf) :
    Distinct ((installLoadedHistory live messages deleted barrier legacyLayout).cache.getD []) := by
  have hloaded := loadedRows_apart deleted barrier hone
  have hrows : Distinct (loadedRows deleted barrier messages) :=
    hloaded.imp fun hab hself id ha hb => hab hself id (ids_subset_identities ha) (ids_subset_identities hb)
  unfold installLoadedHistory
  dsimp only
  split_ifs with hlive hempty hnew
  · exact h
  · exact hrows
  · exact h
  · refine Distinct.perm ?_ (List.perm_insertionSort _ _)
    refine List.pairwise_append.mpr ⟨hrows.sublist List.filter_sublist, h, fun a ha b hb hself id hida hidb => ?_⟩
    rw [List.mem_filter, Bool.not_eq_true'] at ha
    exact represented_eq_false ha.2 hb hself.symm id (ids_subset_identities hida)
      (ids_subset_identities hidb)

/-! ## Runs -/

/-- What leaves the window comes first, what stays last. -/
theorem appendWindow_eq (sent : Option (String → Bool)) (rows : List ChatMessage)
    (message : ChatMessage) : ∃ n, n < (appendRow sent rows message).length ∧
      appendWindow sent rows message =
        ((appendRow sent rows message).take n, (appendRow sent rows message).drop n) := by
  unfold appendWindow
  rcases htarget : (matchingRow rows message).or (contentMatch rows message) with _ | i
  · have hlength : (appendRow sent rows message).length = rows.length + 1 := by
      unfold appendRow
      rw [htarget]
      exact List.length_append
    refine ⟨(appendRow sent rows message).length - maxMessagesInMemory, ?_, List.splitAt_eq⟩
    unfold maxMessagesInMemory
    omega
  · obtain ⟨e, he, -⟩ := target_spec htarget
    have hlength : (appendRow sent rows message).length = rows.length := by
      unfold appendRow
      rw [htarget]
      exact List.length_modify ..
    have hpos := List.length_pos_of_mem (List.mem_of_getElem? he)
    exact ⟨0, by omega, rfl⟩

theorem Distinct.after {sent : Option (String → Bool)} {s : Rows} {call : RowCall}
    (h : Distinct s.list) (hone : s.pointsToOne call) : Distinct (s.after sent call).list := by
  cases call with
  | append message =>
    have happend : Distinct (appendRow sent s.list message) := h.append hone
    obtain ⟨n, -, heq⟩ := appendWindow_eq sent s.list message
    simp only [Rows.after, Rows.list, Option.getD_some] at happend heq ⊢
    rw [heq]
    exact happend.sublist (List.drop_sublist _ _)
  | update msgID updated =>
    rcases hcache : s.cache with _ | rows
    · simpa [Rows.after, Rows.list, hcache] using h
    · have hlist : s.list = rows := by rw [Rows.list, hcache]; rfl
      have heq : (s.after sent (.update msgID updated)).list = updateRow sent rows msgID updated := by
        simp [Rows.after, Rows.list, hcache]
      rw [heq]
      rw [hlist] at h
      unfold updateRow
      split
      · rename_i i hi
        obtain ⟨e, he, -⟩ := findIdx?_spec hi
        refine h.modify he fun j r hne hr hself id hid hmerged => ?_
        have hother := hone i e (hlist ▸ hi) (hlist ▸ he) j r hne (hlist ▸ hr) hself id hid
        rcases mem_ids_mergeMessages.mp hmerged with hold | hnew
        · exact hother.1 hold
        · exact hother.2 hnew
      · exact h
  | absorb position row duplicate =>
    rcases hcache : s.cache with _ | rows
    · simpa [Rows.after, Rows.list, hcache] using h
    · have hlist : s.list = rows := by rw [Rows.list, hcache]; rfl
      have heq : (s.after sent (.absorb position row duplicate)).list =
          absorbDuplicateIds sent rows position row duplicate := by
        simp [Rows.after, Rows.list, hcache]
      rw [heq]
      rw [hlist] at h
      unfold absorbDuplicateIds
      split
      · rename_i i hi
        have hlt : i < rows.length := List.mem_range.mp (List.mem_of_find?_eq_some hi)
        have he := List.getElem?_eq_getElem hlt
        refine h.modify he fun j r hne hr hself id hid hmerged => ?_
        rw [absorb_isSelf] at hself
        rcases mem_ids_absorb.mp hmerged with hold | hnew
        · exact distinct_iff.mp h j i r _ hne hr he hself id hid hold
        · exact hone i _ (hlist ▸ hi) (hlist ▸ he) j r hne (hlist ▸ hr) hself id hid hnew
      · exact h
  | load messages deleted barrier legacyLayout => exact Distinct.install h hone

/-- The id is on a row of the list. -/
def Carried (id : String) (rows : List ChatMessage) : Prop := ∃ r ∈ rows, id ∈ r.ids

theorem Carried.modify {id : String} {f : ChatMessage → ChatMessage} {i : ℕ}
    (hf : ∀ e, id ∈ e.ids → id ∈ (f e).ids) (h : Carried id rows) : Carried id (rows.modify i f) := by
  obtain ⟨r, hr, hid⟩ := h
  obtain ⟨j, hj⟩ := List.mem_iff_getElem?.mp hr
  by_cases hij : i = j
  · subst hij
    refine ⟨f r, List.mem_of_getElem? (i := i) ?_, hf r hid⟩
    rw [List.getElem?_modify_eq, hj]
    rfl
  · exact ⟨r, List.mem_of_getElem? (i := j) (by rw [List.getElem?_modify_ne _ _ hij, hj]), hid⟩

theorem Carried.appendRow {id : String} {sent : Option (String → Bool)} {message : ChatMessage}
    (h : Carried id rows ∨ id ∈ message.ids) : Carried id (appendRow sent rows message) := by
  unfold ChatHistory.appendRow
  rcases htarget : (matchingRow rows message).or (contentMatch rows message) with _ | i
  · rcases h with ⟨r, hr, hid⟩ | hid
    · exact ⟨r, List.mem_append.mpr (.inl hr), hid⟩
    · exact ⟨message, List.mem_append.mpr (.inr (List.mem_singleton_self _)), hid⟩
  · rcases h with h | hid
    · exact h.modify fun e he => mem_ids_mergeMessages.mpr (.inl he)
    · obtain ⟨e, he, -⟩ := target_spec htarget
      refine ⟨mergeMessages sent e message, List.mem_of_getElem? (i := i) ?_,
        mem_ids_mergeMessages.mpr (.inr hid)⟩
      rw [List.getElem?_modify_eq, he]
      rfl

/-- An id that was appended is on a cached row or on one that left the window. -/
def Resolved (s : Rows) : Prop :=
  ∀ m ∈ s.appended, ∀ id ∈ m.ids, Carried id s.list ∨ Carried id s.archived

theorem Resolved.after {sent : Option (String → Bool)} {s : Rows} (h : Resolved s) (call : RowCall) :
    Resolved (s.after sent call) := by
  cases call with
  | append message =>
    intro m hm id hid
    have hcarried : Carried id (appendRow sent s.list message) ∨ Carried id s.archived := by
      rcases List.mem_append.mp hm with hm | hm
      · rcases h m hm id hid with hlist | harchived
        · exact .inl (Carried.appendRow (.inl hlist))
        · exact .inr harchived
      · rw [List.mem_singleton.mp hm] at hid
        exact .inl (Carried.appendRow (.inr hid))
    obtain ⟨n, -, heq⟩ := appendWindow_eq sent s.list message
    have hlist : (s.after sent (.append message)).list = (appendRow sent s.list message).drop n :=
      congrArg Prod.snd heq
    have harchived : (s.after sent (.append message)).archived =
        s.archived ++ (appendRow sent s.list message).take n :=
      congrArg (fun w : List ChatMessage × List ChatMessage => s.archived ++ w.1) heq
    rw [hlist, harchived]
    rcases hcarried with ⟨r, hr, hid⟩ | ⟨r, hr, hid⟩
    · rw [← List.take_append_drop n (appendRow sent s.list message), List.mem_append] at hr
      rcases hr with hr | hr
      · exact .inr ⟨r, List.mem_append.mpr (.inr hr), hid⟩
      · exact .inl ⟨r, hr, hid⟩
    · exact .inr ⟨r, List.mem_append.mpr (.inl hr), hid⟩
  | update msgID updated =>
    intro m hm id hid
    refine (h m hm id hid).imp_left fun hlist => ?_
    rcases hcache : s.cache with _ | rows
    · simpa [Rows.after, Rows.list, hcache] using hlist
    · have hlist' : Carried id rows := by simpa [Rows.list, hcache] using hlist
      have heq : (s.after sent (.update msgID updated)).list = updateRow sent rows msgID updated := by
        simp [Rows.after, Rows.list, hcache]
      rw [heq, updateRow]
      split
      · exact hlist'.modify fun e he => mem_ids_mergeMessages.mpr (.inl he)
      · exact hlist'
  | absorb position row duplicate =>
    intro m hm id hid
    refine (h m hm id hid).imp_left fun hlist => ?_
    rcases hcache : s.cache with _ | rows
    · simpa [Rows.after, Rows.list, hcache] using hlist
    · have hlist' : Carried id rows := by simpa [Rows.list, hcache] using hlist
      have heq : (s.after sent (.absorb position row duplicate)).list =
          absorbDuplicateIds sent rows position row duplicate := by
        simp [Rows.after, Rows.list, hcache]
      rw [heq, absorbDuplicateIds]
      split
      · exact hlist'.modify fun e he => mem_ids_absorb.mpr (.inl he)
      · exact hlist'
  | load messages deleted barrier legacyLayout =>
    intro m hm id hid
    refine (h m hm id hid).imp_left fun hlist => ?_
    obtain ⟨r, hr, hid⟩ := hlist
    refine ⟨r, ?_, hid⟩
    change r ∈ (installLoadedHistory s.cache messages deleted barrier legacyLayout).cache.getD []
    unfold Rows.list at hr
    have hlive : ¬s.cache.getD [] = [] := fun heq => by rw [heq] at hr; exact List.not_mem_nil hr
    unfold installLoadedHistory
    dsimp only
    rw [if_neg hlive]
    split_ifs
    · exact hr
    · unfold sortChatMessagesChronologically
      rw [Option.getD_some, List.mem_insertionSort]
      exact List.mem_append.mpr (.inr hr)

theorem Distinct.count {id : String} {r : ChatMessage} (h : Distinct rows) (hr : r ∈ rows)
    (hid : id ∈ r.ids) : rows.countP (fun r' => r'.isSelf = r.isSelf && id ∈ r'.ids) = 1 := by
  obtain ⟨before, later, rfl⟩ := List.append_of_mem hr
  obtain ⟨-, hlater, hbefore⟩ := List.pairwise_append.mp h
  have hno : ∀ l : List ChatMessage, (∀ r' ∈ l, r'.isSelf = r.isSelf → id ∉ r'.ids) →
      l.countP (fun r' => r'.isSelf = r.isSelf && id ∈ r'.ids) = 0 := by
    intro l hl
    rw [List.countP_eq_zero]
    intro r' hr' hp
    rw [Bool.and_eq_true, decide_eq_true_eq, decide_eq_true_eq] at hp
    exact hl r' hr' hp.1 hp.2
  rw [List.countP_append, List.countP_cons, hno before, hno later]
  · simp [hid]
  · intro r' hr' hself hid'
    exact (List.pairwise_cons.mp hlater).1 r' hr' hself.symm id hid hid'
  · intro r' hr' hself hid'
    exact hbefore r' hr' r (List.mem_cons_self ..) hself id hid' hid

end

/-- No two cached rows of one direction share an id, and an id that was appended and did not leave
    with the window is on exactly one row of a direction. -/
def OneRow (s : Rows) : Prop :=
  Distinct s.list ∧ ∀ m ∈ s.appended, ∀ id ∈ m.ids, (∀ r ∈ s.archived, id ∉ r.ids) →
    ∃ d, s.list.countP (fun r => r.isSelf = d && id ∈ r.ids) = 1

/-- In every run whose calls point to one row each, one logical message is one row. -/
theorem one_message_one_row (sent : Option (String → Bool)) {calls : List RowCall} {s : Rows}
    (hm : Meets (Rows.step sent) Rows.pointsToOne {} calls)
    (hr : exec (Rows.step sent) {} calls = some s) : OneRow s := by
  have hinv : Distinct s.list ∧ Resolved s := by
    refine invariant_of_meets (I := fun s => Distinct s.list ∧ Resolved s) ?_ ?_ hm hr
    · intro s call s' h hone hstep
      rw [← Option.some.inj hstep]
      exact ⟨h.1.after hone, h.2.after call⟩
    · exact ⟨List.Pairwise.nil, fun m hm => absurd hm List.not_mem_nil⟩
  refine ⟨hinv.1, fun m hm id hid hkept => ?_⟩
  rcases hinv.2 m hm id hid with ⟨r, hr, hid'⟩ | ⟨r, hr, hid'⟩
  · exact ⟨r.isSelf, hinv.1.count hr hid'⟩
  · exact absurd hid' (hkept r hr)

/-- A row with an id and aliases, of one sender at one instant. -/
def sample (isSelf : Bool) (msgID : String) (altMsgIds : List String) : ChatMessage :=
  { text := "hi", fromUserId := "p", isSelf, timestamp := 0, msgID := some msgID, altMsgIds }

/-- Both delivery paths of one message: the second copy merges into the first by their alias. -/
theorem both_paths_one_row : OneRow ((Rows.after none {} (.append (sample false "a" ["x"]))).after none
    (.append (sample false "b" ["x"]))) := by
  have hsecond : (Rows.after none {} (.append (sample false "a" ["x"]))).list =
      [sample false "a" ["x"]] := by decide
  have hm : Meets (Rows.step none) Rows.pointsToOne {}
      [.append (sample false "a" ["x"]), .append (sample false "b" ["x"])] := by
    refine ⟨fun i hi => by simp [matchingRow, Rows.list] at hi, fun u hu => ⟨?_, fun _ _ => trivial⟩⟩
    rw [← Option.some.inj hu]
    intro i hi j r hne hr
    rw [hsecond] at hi hr
    have hzero : i = 0 := by
      have : matchingRow [sample false "a" ["x"]] (sample false "b" ["x"]) = some 0 := by decide
      exact Option.some.inj (hi.symm.trans this)
    rcases j with _ | j
    · exact absurd hzero.symm hne
    · simp at hr
  exact one_message_one_row none hm rfl

/-- A message whose aliases name two rows merges into the first and leaves the second. -/
theorem alias_of_two_rows : ¬OneRow (((Rows.after none {} (.append (sample true "a" []))).after none
    (.append (sample true "b" []))).after none (.append (sample true "c" ["a", "b"]))) := by
  have hlist : (((Rows.after none {} (.append (sample true "a" []))).after none
      (.append (sample true "b" []))).after none (.append (sample true "c" ["a", "b"]))).list =
      [sample true "c" ["a", "b"], sample true "b" []] := by decide
  rintro ⟨hdistinct, -⟩
  rw [hlist] at hdistinct
  have hpair := (List.pairwise_cons.mp hdistinct).1 (sample true "b" []) (List.mem_singleton_self _) rfl
  exact hpair "b" (by decide) (by decide)

end Tim2Tox.ChatHistory
