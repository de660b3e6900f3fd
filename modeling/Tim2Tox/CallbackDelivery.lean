import Tim2Tox.CallbackBridge

set_option autoImplicit false

/-!
# Delivery of durable callbacks

Of every key the messages reach Dart in the order they were sent, and the last one is posted, held,
or was dropped. A held message that is too long stops the replay of everything sent after it.
-/
namespace Tim2Tox.CallbackBridge
open KeyedTables LabelledRuns

namespace Bridge

/-- Every last message is posted, held or dropped; the held ones stand in the order they were sent
    and behind the posts of their key. -/
structure Kept (b : Bridge) : Prop where
  seqs : ∀ key held, b.pendingDurable.lookup key = some held → held.seq ≤ b.pendingDurableSeq
  order : ∀ key held key' held', b.pendingDurable.lookup key = some held →
    b.pendingDurable.lookup key' = some held' → held.seq ≤ held'.seq → held.number ≤ held'.number
  last : ∀ key held, b.pendingDurable.lookup key = some held → LastSend b.sent key held.number
  genuine : ∀ key held, b.pendingDurable.lookup key = some held →
    (b.sent[held.number]?).map Sent.json = some held.json
  accounted : ∀ key n, LastSend b.sent key n → (∃ post ∈ b.posts, post.number = n) ∨
    (∃ held, b.pendingDurable.lookup key = some held ∧ held.number = n) ∨ n ∈ b.dropped
  posted : ∀ post ∈ b.posts, ∃ s, b.sent[post.number]? = some s ∧ s.key = post.key ∧
    s.json = post.json
  perKey : b.posts.Pairwise fun a c => a.key = c.key → a.number < c.number
  behind : ∀ key held, b.pendingDurable.lookup key = some held →
    ∀ post ∈ b.posts, post.key = key → post.number < held.number
  bound : b.pendingDurable.keys.length ≤ kMaxPendingDurable

section
variable {b : Bridge} {key : Bytes}

/-- What is held only gets less, and the messages that go are accounted for. -/
theorem Kept.thin {pending : AList fun _ : Bytes => PendingDurableCallback} {dropped : List ℕ}
    (h : Kept b)
    (hsub : ∀ key held, pending.lookup key = some held → b.pendingDurable.lookup key = some held)
    (hgone : ∀ key held, b.pendingDurable.lookup key = some held →
      pending.lookup key = some held ∨ held.number ∈ dropped)
    (hdropped : ∀ n ∈ b.dropped, n ∈ dropped)
    (hbound : pending.keys.length ≤ b.pendingDurable.keys.length) :
    Kept { b with pendingDurable := pending, dropped } := by
  refine ⟨fun key held hheld => h.seqs key held (hsub key held hheld),
    fun key held key' held' hheld hheld' =>
      h.order key held key' held' (hsub _ _ hheld) (hsub _ _ hheld'),
    fun key held hheld => h.last key held (hsub key held hheld),
    fun key held hheld => h.genuine key held (hsub key held hheld), ?_, h.posted, h.perKey,
    fun key held hheld => h.behind key held (hsub key held hheld),
    Nat.le_trans hbound h.bound⟩
  intro key n hlast
  rcases h.accounted key n hlast with hposted | ⟨held, hheld, rfl⟩ | hlost
  · exact Or.inl hposted
  · rcases hgone key held hheld with hstill | hnow
    · exact Or.inr (Or.inl ⟨held, hstill, rfl⟩)
    · exact Or.inr (Or.inr hnow)
  · exact Or.inr (Or.inr (hdropped n hlost))

theorem lookup_erase_some {key other : Bytes} {held : PendingDurableCallback}
    (h : (b.pendingDurable.erase key).lookup other = some held) :
    other ≠ key ∧ b.pendingDurable.lookup other = some held := by
  have hne : other ≠ key := by
    rintro rfl
    rw [AList.lookup_erase] at h
    contradiction
  rw [AList.lookup_erase_ne hne] at h
  exact ⟨hne, h⟩

/-! ## One message -/

theorem oldest_mem : ∀ entries : List (Sigma fun _ : Bytes => PendingDurableCallback), ∀ entry,
    oldest entries = some entry → entry ∈ entries := by
  intro entries entry h
  cases entries with
  | nil => contradiction
  | cons first rest =>
    have hfold : ∀ (rest : List (Sigma fun _ : Bytes => PendingDurableCallback)) old,
        rest.foldl (fun old cur => if cur.2.seq < old.2.seq then cur else old) old ∈ old :: rest := by
      intro rest
      induction rest with
      | nil => simp
      | cons cur rest ih =>
        intro old
        rw [List.foldl_cons]
        have hnext := ih (if cur.2.seq < old.2.seq then cur else old)
        split_ifs at hnext ⊢
        · exact List.mem_cons_of_mem _ hnext
        · rcases List.mem_cons.mp hnext with hsame | hlater
          · rw [hsame]
            exact List.mem_cons_self
          · exact List.mem_cons_of_mem _ (List.mem_cons_of_mem _ hlater)
    have hentry : rest.foldl (fun old cur => if cur.2.seq < old.2.seq then cur else old) first =
        entry := Option.some.inj h
    rw [← hentry]
    exact hfold rest first

theorem Kept.evictOldest (h : Kept b) : Kept b.evictOldest := by
  unfold Bridge.evictOldest
  split
  · exact h
  · rename_i entry holdest
    have hentry := lookup_of_mem_entries (oldest_mem _ _ holdest)
    refine h.thin (fun key held hheld => (lookup_erase_some hheld).2) ?_ (by simp_all) ?_
    · intro key held hheld
      by_cases hkey : key = entry.1
      · subst hkey
        rw [hheld] at hentry
        right
        rw [Option.some.inj hentry]
        simp
      · left
        rw [AList.lookup_erase_ne hkey]
        exact hheld
    · exact keys_erase_le _ _

theorem evictOldest_same (b : Bridge) : b.evictOldest.sent = b.sent ∧ b.evictOldest.posts = b.posts ∧
    b.evictOldest.pendingDurableSeq = b.pendingDurableSeq ∧
    b.evictOldest.dartPort = b.dartPort ∧
    b.evictOldest.dartApiInitialized = b.dartApiInitialized := by
  unfold Bridge.evictOldest
  split <;> exact ⟨rfl, rfl, rfl, rfl, rfl⟩

theorem evictOldest_lookup {key : Bytes} {held : PendingDurableCallback}
    (h : b.evictOldest.pendingDurable.lookup key = some held) :
    b.pendingDurable.lookup key = some held := by
  unfold Bridge.evictOldest at h
  split at h
  · exact h
  · exact (lookup_erase_some h).2

/-- Evicting makes room for one. -/
theorem evictOldest_length (h : b.pendingDurable.keys.length ≤ kMaxPendingDurable) :
    b.evictOldest.pendingDurable.keys.length < kMaxPendingDurable := by
  unfold Bridge.evictOldest
  split
  · rename_i hnone
    have hempty : b.pendingDurable.entries = [] := by
      cases hentries : b.pendingDurable.entries with
      | nil => rfl
      | cons first rest =>
        rw [hentries] at hnone
        contradiction
    rw [AList.keys, hempty]
    decide
  · rename_i entry holdest
    have hmem : entry.1 ∈ b.pendingDurable := by
      rw [← AList.lookup_isSome, lookup_of_mem_entries (oldest_mem _ _ holdest)]
      rfl
    exact Nat.lt_of_lt_of_le (keys_erase_lt hmem) h

theorem Kept.number_lt {held : PendingDurableCallback} (h : Kept b)
    (hheld : b.pendingDurable.lookup key = some held) : held.number < b.sent.length := by
  have hgenuine := h.genuine key held hheld
  rw [Option.map_eq_some_iff] at hgenuine
  obtain ⟨s, hs, -⟩ := hgenuine
  exact (List.getElem?_eq_some_iff.mp hs).1

theorem Kept.post_lt {post : Post} (h : Kept b) (hpost : post ∈ b.posts) :
    post.number < b.sent.length := by
  obtain ⟨s, hs, -⟩ := h.posted post hpost
  exact (List.getElem?_eq_some_iff.mp hs).1

theorem Kept.posted_snoc (h : Kept b) (s : Sent) : ∀ post ∈ b.posts,
    ∃ s', (b.sent ++ [s])[post.number]? = some s' ∧ s'.key = post.key ∧ s'.json = post.json := by
  intro post hpost
  rw [List.getElem?_append_left (h.post_lt hpost)]
  exact h.posted post hpost

/-- A message is held in the place of what its key held. -/
theorem Kept.insert (h : Kept b) (s : Sent) (number : ℕ) (hnumber : number = b.sent.length)
    (hbound : s.key ∈ b.pendingDurable ∨ b.pendingDurable.keys.length < kMaxPendingDurable) :
    Kept { b with
      sent := b.sent ++ [s]
      pendingDurableSeq := b.pendingDurableSeq + 1
      pendingDurable := b.pendingDurable.insert s.key
        ⟨b.pendingDurableSeq + 1, s.json, s.ownerInstanceId, number⟩ } := by
  have hcases : ∀ key held, (b.pendingDurable.insert s.key
      ⟨b.pendingDurableSeq + 1, s.json, s.ownerInstanceId, number⟩).lookup key = some held →
      (key = s.key ∧ held = ⟨b.pendingDurableSeq + 1, s.json, s.ownerInstanceId, number⟩) ∨
      (key ≠ s.key ∧ b.pendingDurable.lookup key = some held) := by
    intro key held hheld
    by_cases hkey : key = s.key
    · subst hkey
      rw [AList.lookup_insert] at hheld
      exact Or.inl ⟨rfl, (Option.some.inj hheld).symm⟩
    · rw [AList.lookup_insert_ne hkey] at hheld
      exact Or.inr ⟨hkey, hheld⟩
  refine ⟨?_, ?_, ?_, ?_, ?_, h.posted_snoc s, h.perKey, ?_, ?_⟩
  · intro key held hheld
    rcases hcases key held hheld with ⟨-, rfl⟩ | ⟨-, hold⟩
    · exact Nat.le_refl _
    · exact Nat.le_succ_of_le (h.seqs key held hold)
  · intro key held key' held' hheld hheld' hle
    rcases hcases key held hheld with ⟨-, rfl⟩ | ⟨-, hold⟩
    · rcases hcases key' held' hheld' with ⟨-, rfl⟩ | ⟨-, hold'⟩
      · exact Nat.le_refl _
      · have hseq := h.seqs key' held' hold'
        dsimp only at hle
        omega
    · rcases hcases key' held' hheld' with ⟨-, rfl⟩ | ⟨-, hold'⟩
      · have hlt := h.number_lt hold
        dsimp only
        omega
      · exact h.order key held key' held' hold hold' hle
  · intro key held hheld
    rcases hcases key held hheld with ⟨rfl, rfl⟩ | ⟨hkey, hold⟩
    · exact (lastSend_snoc_same _ _ _).mpr hnumber
    · exact (lastSend_snoc_other (Ne.symm hkey) _).mpr (h.last key held hold)
  · intro key held hheld
    rcases hcases key held hheld with ⟨-, rfl⟩ | ⟨-, hold⟩
    · dsimp only
      rw [hnumber, List.getElem?_concat_length]
      rfl
    · dsimp only
      rw [List.getElem?_append_left (h.number_lt hold)]
      exact h.genuine key held hold
  · intro key n hlast
    by_cases hkey : s.key = key
    · subst hkey
      have hn : n = b.sent.length := (lastSend_snoc_same _ _ _).mp hlast
      exact Or.inr (Or.inl ⟨_, AList.lookup_insert _, hnumber.trans hn.symm⟩)
    · have hold := (lastSend_snoc_other hkey n).mp hlast
      rcases h.accounted key n hold with hposted | ⟨held, hheld, hsame⟩ | hlost
      · exact Or.inl hposted
      · refine Or.inr (Or.inl ⟨held, ?_, hsame⟩)
        rw [← hheld]
        exact AList.lookup_insert_ne (Ne.symm hkey)
      · exact Or.inr (Or.inr hlost)
  · intro key held hheld post hpost hsame
    rcases hcases key held hheld with ⟨-, rfl⟩ | ⟨-, hold⟩
    · have hlt := h.post_lt hpost
      dsimp only
      omega
    · exact h.behind key held hold post hpost hsame
  · rcases hbound with hmem | hroom
    · exact Nat.le_trans (keys_insert_of_mem _ hmem) h.bound
    · exact Nat.le_trans (keys_insert_le _ _ _) hroom

/-- A message is posted at once and what its key held goes. -/
theorem Kept.postNew (h : Kept b) (s : Sent) :
    Kept (({ b with sent := b.sent ++ [s] } : Bridge).post b.sent.length s.key s.json) := by
  refine ⟨?_, ?_, ?_, ?_, ?_, ?_, ?_, ?_, ?_⟩
  · exact fun key held hheld => h.seqs key held (lookup_erase_some hheld).2
  · exact fun key held key' held' hheld hheld' =>
      h.order key held key' held' (lookup_erase_some hheld).2 (lookup_erase_some hheld').2
  · intro key held hheld
    obtain ⟨hkey, hold⟩ := lookup_erase_some hheld
    exact (lastSend_snoc_other (Ne.symm hkey) _).mpr (h.last key held hold)
  · intro key held hheld
    have hold := (lookup_erase_some hheld).2
    change ((b.sent ++ [s])[held.number]?).map Sent.json = _
    rw [List.getElem?_append_left (h.number_lt hold)]
    exact h.genuine key held hold
  · intro key n hlast
    by_cases hkey : s.key = key
    · subst hkey
      have hn : n = b.sent.length := (lastSend_snoc_same _ _ _).mp hlast
      refine Or.inl ⟨{ number := b.sent.length, key := s.key, json := s.json, port := b.dartPort },
        ?_, hn.symm⟩
      exact List.mem_append_right _ (List.mem_singleton.mpr rfl)
    · have hold := (lastSend_snoc_other hkey n).mp hlast
      rcases h.accounted key n hold with ⟨post, hpost, hsame⟩ | ⟨held, hheld, hsame⟩ | hlost
      · exact Or.inl ⟨post, List.mem_append_left _ hpost, hsame⟩
      · refine Or.inr (Or.inl ⟨held, ?_, hsame⟩)
        rw [← hheld]
        exact AList.lookup_erase_ne (Ne.symm hkey)
      · exact Or.inr (Or.inr hlost)
  · intro post hpost
    rcases List.mem_append.mp hpost with hold | hnew
    · exact h.posted_snoc s post hold
    · rw [List.mem_singleton.mp hnew]
      exact ⟨s, List.getElem?_concat_length, rfl, rfl⟩
  · refine List.pairwise_append.mpr ⟨h.perKey, List.pairwise_singleton _ _, ?_⟩
    intro a ha c hc _
    rw [List.mem_singleton.mp hc]
    exact h.post_lt ha
  · intro key held hheld post hpost hsame
    obtain ⟨hkey, hold⟩ := lookup_erase_some hheld
    rcases List.mem_append.mp hpost with hpost | hnew
    · exact h.behind key held hold post hpost hsame
    · rw [List.mem_singleton.mp hnew] at hsame
      exact absurd hsame.symm hkey
  · exact Nat.le_trans (keys_erase_le _ _) h.bound

/-- What a key held is posted. -/
theorem Kept.postHeld {held : PendingDurableCallback} (h : Kept b)
    (hheld : b.pendingDurable.lookup key = some held) :
    Kept (b.post held.number key held.json) := by
  refine ⟨?_, ?_, ?_, ?_, ?_, ?_, ?_, ?_, ?_⟩
  · exact fun key held hheld => h.seqs key held (lookup_erase_some hheld).2
  · exact fun key held key' held' hheld hheld' =>
      h.order key held key' held' (lookup_erase_some hheld).2 (lookup_erase_some hheld').2
  · exact fun key held hheld => h.last key held (lookup_erase_some hheld).2
  · exact fun key held hheld => h.genuine key held (lookup_erase_some hheld).2
  · intro key' n hlast
    rcases h.accounted key' n hlast with ⟨post, hpost, hsame⟩ | ⟨held', hheld', hsame⟩ | hlost
    · exact Or.inl ⟨post, List.mem_append_left _ hpost, hsame⟩
    · by_cases hkey : key' = key
      · subst hkey
        obtain rfl : held = held' := Option.some.inj (hheld.symm.trans hheld')
        refine Or.inl ⟨{ number := held.number, key := key', json := held.json, port := b.dartPort },
          ?_, hsame⟩
        exact List.mem_append_right _ (List.mem_singleton.mpr rfl)
      · refine Or.inr (Or.inl ⟨held', ?_, hsame⟩)
        rw [← hheld']
        exact AList.lookup_erase_ne hkey
    · exact Or.inr (Or.inr hlost)
  · intro post hpost
    rcases List.mem_append.mp hpost with hold | hnew
    · exact h.posted post hold
    · rw [List.mem_singleton.mp hnew]
      have hgenuine := h.genuine key held hheld
      have hkey := (h.last key held hheld).1
      rw [Option.map_eq_some_iff] at hgenuine hkey
      obtain ⟨s, hs, hjson⟩ := hgenuine
      obtain ⟨s', hs', hkey⟩ := hkey
      obtain rfl : s = s' := Option.some.inj (hs.symm.trans hs')
      exact ⟨s, hs, hkey, hjson⟩
  · refine List.pairwise_append.mpr ⟨h.perKey, List.pairwise_singleton _ _, ?_⟩
    intro a ha c hc hsame
    rw [List.mem_singleton.mp hc] at hsame ⊢
    exact h.behind key held hheld a ha hsame
  · intro key' held' hheld' post hpost hsame
    obtain ⟨hkey, hold⟩ := lookup_erase_some hheld'
    rcases List.mem_append.mp hpost with hpost | hnew
    · exact h.behind key' held' hold post hpost hsame
    · rw [List.mem_singleton.mp hnew] at hsame
      exact absurd hsame.symm hkey
  · exact Nat.le_trans (keys_erase_le _ _) h.bound

/-! ## Replay -/

/-- The keys stand in the order of the messages they hold. -/
def Ascending (b : Bridge) (keys : List Bytes) : Prop :=
  keys.Pairwise fun key key' => key ≠ key' ∧ ∀ held held', b.pendingDurable.lookup key = some held →
    b.pendingDurable.lookup key' = some held' → held.number < held'.number

theorem Kept.number_inj {key' : Bytes} {held held' : PendingDurableCallback} (h : Kept b)
    (hheld : b.pendingDurable.lookup key = some held)
    (hheld' : b.pendingDurable.lookup key' = some held') (hsame : held.number = held'.number) :
    key = key' := by
  have hkey := (h.last key held hheld).1
  have hkey' := (h.last key' held' hheld').1
  rw [hsame, hkey'] at hkey
  exact (Option.some.inj hkey).symm

theorem mem_ordered {entry : ℕ × Bytes} (hmem : entry ∈ (b.pendingDurable.entries.map
      fun entry => (entry.2.seq, entry.1)).insertionSort fun a c => a.1 ≤ c.1) :
    ∃ held, b.pendingDurable.lookup entry.2 = some held ∧ held.seq = entry.1 := by
  rw [List.mem_insertionSort, List.mem_map] at hmem
  obtain ⟨e, he, rfl⟩ := hmem
  exact ⟨e.2, lookup_of_mem_entries he, rfl⟩

theorem ordered_of_lookup {held : PendingDurableCallback}
    (hheld : b.pendingDurable.lookup key = some held) : key ∈ b.ordered := by
  unfold ordered
  rw [List.mem_map]
  refine ⟨(held.seq, key), ?_, rfl⟩
  rw [List.mem_insertionSort, List.mem_map]
  exact ⟨⟨key, held⟩, mem_entries_of_lookup hheld, rfl⟩

/-- The keys held, in the order of their sequence numbers, each once. -/
theorem ordered_pairwise (b : Bridge) : b.ordered.Pairwise fun key key' => key ≠ key' ∧
    ∀ held held', b.pendingDurable.lookup key = some held →
      b.pendingDurable.lookup key' = some held' → held.seq ≤ held'.seq := by
  unfold ordered
  rw [List.pairwise_map]
  have hnodup : ((b.pendingDurable.entries.map fun entry => (entry.2.seq, entry.1)).insertionSort
      fun a c => a.1 ≤ c.1).Pairwise fun a c => a.2 ≠ c.2 := by
    have hkeys : ((b.pendingDurable.entries.map fun entry => (entry.2.seq, entry.1)).map
        Prod.snd).Nodup := by
      rw [List.map_map]
      exact b.pendingDurable.keys_nodup
    have hsorted := ((List.perm_insertionSort (fun a c : ℕ × Bytes => a.1 ≤ c.1)
      (b.pendingDurable.entries.map fun entry => (entry.2.seq, entry.1))).map Prod.snd).nodup_iff.mpr
        hkeys
    exact List.pairwise_map.mp hsorted
  have hseq := List.pairwise_insertionSort (fun a c : ℕ × Bytes => a.1 ≤ c.1)
    (b.pendingDurable.entries.map fun entry => (entry.2.seq, entry.1))
  refine (hnodup.and hseq).imp_of_mem ?_
  intro a c ha hc hac
  obtain ⟨held, hheld, hseq⟩ := mem_ordered ha
  obtain ⟨held', hheld', hseq'⟩ := mem_ordered hc
  refine ⟨hac.1, fun h₁ h₂ hl₁ hl₂ => ?_⟩
  obtain rfl : held = h₁ := Option.some.inj (hheld.symm.trans hl₁)
  obtain rfl : held' = h₂ := Option.some.inj (hheld'.symm.trans hl₂)
  rw [hseq, hseq']
  exact hac.2

theorem Kept.ordered_ascending (h : Kept b) : Ascending b b.ordered := by
  refine (ordered_pairwise b).imp fun hpair => ⟨hpair.1, fun held held' hheld hheld' => ?_⟩
  have hle := h.order _ held _ held' hheld hheld' (hpair.2 held held' hheld hheld')
  rcases Nat.lt_or_eq_of_le hle with hlt | heq
  · exact hlt
  · exact absurd (h.number_inj hheld hheld' heq) hpair.1

theorem Ascending.post {keys : List Bytes} (h : Ascending b keys) (number : ℕ) (key json : Bytes) :
    Ascending (b.post number key json) keys :=
  h.imp fun hpair => ⟨hpair.1, fun held held' hheld hheld' =>
    hpair.2 held held' (lookup_erase_some hheld).2 (lookup_erase_some hheld').2⟩

/-- A replay keeps the books, and what it posts goes out in the order it was sent. -/
theorem replay_spec (keys : List Bytes) : ∀ b, Kept b → Ascending b keys →
    Kept (replay keys b) ∧ ∃ new, (replay keys b).posts = b.posts ++ new ∧
      (new.Pairwise fun a c => a.number < c.number) ∧
      ∀ post ∈ new, ∃ key ∈ keys, ∃ held, b.pendingDurable.lookup key = some held ∧
        held.number = post.number := by
  induction keys with
  | nil => exact fun b h _ => ⟨h, [], by simp [replay], List.Pairwise.nil, by simp⟩
  | cons key keys ih =>
    intro b h hascending
    obtain ⟨hhead, hrest⟩ := List.pairwise_cons.mp hascending
    unfold replay
    split
    · obtain ⟨hkept, new, hposts, hordered, hfrom⟩ := ih b h hrest
      refine ⟨hkept, new, hposts, hordered, fun post hpost => ?_⟩
      obtain ⟨key', hkey', hheld'⟩ := hfrom post hpost
      exact ⟨key', List.mem_cons_of_mem _ hkey', hheld'⟩
    · rename_i held hheld
      split_ifs
      · have hnext : Ascending (b.post held.number key held.json) keys :=
          Ascending.post hrest _ _ _
        obtain ⟨hkept, new, hposts, hordered, hfrom⟩ := ih _ (h.postHeld hheld) hnext
        refine ⟨hkept, { number := held.number, key, json := held.json, port := b.dartPort } :: new,
          ?_, ?_, ?_⟩
        · rw [hposts]
          simp [post]
        · refine List.pairwise_cons.mpr ⟨fun post hpost => ?_, hordered⟩
          obtain ⟨key', hkey', held', hheld', hnumber⟩ := hfrom post hpost
          rw [← hnumber]
          exact (hhead key' hkey').2 held held' hheld (lookup_erase_some hheld').2
        · intro post hpost
          rcases List.mem_cons.mp hpost with rfl | hpost
          · exact ⟨key, List.mem_cons_self, held, hheld, rfl⟩
          · obtain ⟨key', hkey', held', hheld', hnumber⟩ := hfrom post hpost
            exact ⟨key', List.mem_cons_of_mem _ hkey', held', (lookup_erase_some hheld').2, hnumber⟩
      · exact ⟨h, [], by simp, List.Pairwise.nil, by simp⟩

/-- When every message too long comes after the others, only such messages stay held. -/
theorem replay_leaves (keys : List Bytes) : ∀ b : Bridge,
    (keys.Pairwise fun key key' => ∀ held held', b.pendingDurable.lookup key = some held →
      b.pendingDurable.lookup key' = some held' → fits held.json = false →
        fits held'.json = false) →
    (∀ key held, b.pendingDurable.lookup key = some held → key ∈ keys ∨ fits held.json = false) →
      ∀ key held, (replay keys b).pendingDurable.lookup key = some held →
        fits held.json = false := by
  induction keys with
  | nil =>
    intro b _ hall key held hheld
    exact (hall key held hheld).resolve_left (List.not_mem_nil)
  | cons first keys ih =>
    intro b hpairs hall
    obtain ⟨hhead, hrest⟩ := List.pairwise_cons.mp hpairs
    unfold replay
    split
    · rename_i hnone
      refine ih b hrest fun key held hheld => ?_
      rcases hall key held hheld with hmem | hlong
      · rcases List.mem_cons.mp hmem with rfl | hmem
        · rw [hnone] at hheld
          contradiction
        · exact Or.inl hmem
      · exact Or.inr hlong
    · rename_i firstHeld hfirst
      split_ifs with hfits
      · refine ih _ (hrest.imp fun hpair held held' hheld hheld' =>
          hpair held held' (lookup_erase_some hheld).2 (lookup_erase_some hheld').2) ?_
        intro key held hheld
        obtain ⟨hkey, hold⟩ := lookup_erase_some hheld
        rcases hall key held hold with hmem | hlong
        · exact Or.inl ((List.mem_cons.mp hmem).resolve_left hkey)
        · exact Or.inr hlong
      · have hlong : fits firstHeld.json = false := by simpa using hfits
        intro key held hheld
        rcases hall key held hheld with hmem | hdone
        · rcases List.mem_cons.mp hmem with rfl | hmem
          · rw [hfirst] at hheld
            rw [← Option.some.inj hheld]
            exact hlong
          · exact hhead key hmem firstHeld held hfirst hheld hlong
        · exact hdone

/-! ## Calls -/

theorem evictOldest_sent (b : Bridge) (sent : List Sent) :
    ({ b with sent } : Bridge).evictOldest = { b.evictOldest with sent } := by
  unfold Bridge.evictOldest
  dsimp only
  split <;> rfl

/-- Holding a message is an insertion, after an eviction where the buffer is full. -/
theorem hold_eq (b : Bridge) (s : Sent) : ∃ b' : Bridge, (b' = b ∨ b' = b.evictOldest) ∧
    (s.key ∈ b'.pendingDurable ∨ b'.pendingDurable.keys.length < kMaxPendingDurable ∨
      kMaxPendingDurable < b.pendingDurable.keys.length) ∧
    ({ b with sent := b.sent ++ [s] } : Bridge).hold b.sent.length s.key s.json s.ownerInstanceId =
      { b' with
        sent := b'.sent ++ [s]
        pendingDurableSeq := b'.pendingDurableSeq + 1
        pendingDurable := b'.pendingDurable.insert s.key
          ⟨b'.pendingDurableSeq + 1, s.json, s.ownerInstanceId, b'.sent.length⟩ } := by
  by_cases hfull : s.key ∉ b.pendingDurable ∧ b.pendingDurable.keys.length ≥ kMaxPendingDurable
  · refine ⟨b.evictOldest, Or.inr rfl, ?_, ?_⟩
    · by_cases hbound : b.pendingDurable.keys.length ≤ kMaxPendingDurable
      · exact Or.inr (Or.inl (evictOldest_length hbound))
      · exact Or.inr (Or.inr (Nat.not_le.mp hbound))
    · unfold hold
      dsimp only
      rw [if_pos hfull, evictOldest_sent, (evictOldest_same b).1]
  · refine ⟨b, Or.inl rfl, ?_, ?_⟩
    · by_cases hmem : s.key ∈ b.pendingDurable
      · exact Or.inl hmem
      · have hroom : ¬ b.pendingDurable.keys.length ≥ kMaxPendingDurable :=
          fun hge => hfull ⟨hmem, hge⟩
        exact Or.inr (Or.inl (Nat.not_le.mp hroom))
    · unfold hold
      dsimp only
      rw [if_neg hfull]

theorem Kept.hold (h : Kept b) (s : Sent) : Kept (({ b with sent := b.sent ++ [s] } : Bridge).hold
    b.sent.length s.key s.json s.ownerInstanceId) := by
  obtain ⟨b', hb', hroom, heq⟩ := hold_eq b s
  rw [heq]
  have hkept : Kept b' := by
    rcases hb' with rfl | rfl
    · exact h
    · exact h.evictOldest
  refine hkept.insert s _ rfl ?_
  rcases hroom with hmem | hroom | hover
  · exact Or.inl hmem
  · exact Or.inr hroom
  · exact absurd h.bound (Nat.not_le.mpr hover)

theorem Kept.send (h : Kept b) (callbackType : Option Bytes) (json key : Bytes) (owner : ℤ) :
    Kept (b.sendDurableCallbackToDart callbackType json key owner) := by
  unfold sendDurableCallbackToDart
  dsimp only
  split_ifs
  · exact h
  · exact h.postNew ⟨key, json, owner⟩
  · exact h.hold ⟨key, json, owner⟩

theorem Kept.discard (h : Kept b) (owner : ℤ) : Kept (b.discardDurableCallbacksForInstance owner) := by
  unfold discardDurableCallbacksForInstance
  refine h.thin ?_ ?_ (fun n hn => List.mem_append_left _ hn) (keys_eraseAll_le _ _)
  · intro key held hheld
    rw [lookup_eraseAll] at hheld
    split_ifs at hheld
    exact hheld
  · intro key held hheld
    rw [lookup_eraseAll]
    split_ifs with hgone
    · right
      obtain ⟨entry, hentry, rfl⟩ := List.mem_map.mp hgone
      rw [lookup_of_mem_entries (List.mem_filter.mp hentry).1] at hheld
      rw [← Option.some.inj hheld]
      exact List.mem_append_right _ (List.mem_map_of_mem hentry)
    · exact Or.inl hheld

theorem Kept.with_port (h : Kept b) (dartPort : ℤ) (dartApiInitialized : Bool) :
    Kept { b with dartPort, dartApiInitialized } :=
  ⟨h.seqs, h.order, h.last, h.genuine, h.accounted, h.posted, h.perKey, h.behind, h.bound⟩

theorem Kept.replayPendingDurable (h : Kept b) : Kept b.replayPendingDurable := by
  unfold Bridge.replayPendingDurable
  split_ifs
  · exact (replay_spec b.ordered b h h.ordered_ascending).1
  · exact h

theorem Kept.after (h : Kept b) (op : Op) : Kept (b.after op) := by
  cases op with
  | send callbackType json key owner => exact h.send callbackType json key owner
  | discard owner => exact h.discard owner
  | register sendPort =>
    exact (h.with_port sendPort b.dartApiInitialized).replayPendingDurable
  | unregister sendPort =>
    change Kept (b.dartUnregisterSendPort sendPort)
    unfold dartUnregisterSendPort
    split_ifs
    · exact h.with_port illegalPort b.dartApiInitialized
    · exact h
  | init data rc =>
    change Kept (b.dartInitDartApiDL data rc).2
    unfold dartInitDartApiDL
    split_ifs
    · exact h
    · exact h
    · exact (h.with_port b.dartPort true).replayPendingDurable

/-- What a call posts goes out in the order it was sent. -/
theorem Kept.after_posts (h : Kept b) (op : Op) : ∃ new, (b.after op).posts = b.posts ++ new ∧
    new.Pairwise fun a c => a.number < c.number := by
  have hreplay : ∀ b : Bridge, Kept b → ∃ new, b.replayPendingDurable.posts = b.posts ++ new ∧
      new.Pairwise fun a c => a.number < c.number := by
    intro b h
    unfold Bridge.replayPendingDurable
    split_ifs
    · obtain ⟨-, new, hposts, hordered, -⟩ := replay_spec b.ordered b h h.ordered_ascending
      exact ⟨new, hposts, hordered⟩
    · exact ⟨[], by simp, List.Pairwise.nil⟩
  cases op with
  | send callbackType json key owner =>
    change ∃ new, (b.sendDurableCallbackToDart callbackType json key owner).posts = _ ∧ _
    unfold sendDurableCallbackToDart
    dsimp only
    split_ifs
    · exact ⟨[], by simp, List.Pairwise.nil⟩
    · exact ⟨_, rfl, List.pairwise_singleton _ _⟩
    · refine ⟨[], ?_, List.Pairwise.nil⟩
      obtain ⟨b', hb', -, heq⟩ := hold_eq b ⟨key, json, owner⟩
      rw [heq, List.append_nil]
      rcases hb' with rfl | rfl
      · rfl
      · exact (evictOldest_same b).2.1
  | discard owner => exact ⟨[], by simp [Bridge.after, discardDurableCallbacksForInstance],
      List.Pairwise.nil⟩
  | register sendPort => exact hreplay _ (h.with_port sendPort b.dartApiInitialized)
  | unregister sendPort =>
    refine ⟨[], ?_, List.Pairwise.nil⟩
    change (b.dartUnregisterSendPort sendPort).posts = _
    unfold dartUnregisterSendPort
    split_ifs <;> simp
  | init data rc =>
    change ∃ new, (b.dartInitDartApiDL data rc).2.posts = _ ∧ _
    unfold dartInitDartApiDL
    split_ifs
    · exact ⟨[], by simp, List.Pairwise.nil⟩
    · exact ⟨[], by simp, List.Pairwise.nil⟩
    · exact hreplay _ (h.with_port b.dartPort true)

end

/-! ## Messages too long -/

/-- No held message that is too long was sent before a held message that fits. -/
def nothingBlocked (b : Bridge) : Bool :=
  b.pendingDurable.entries.all fun long => fits long.2.json ||
    b.pendingDurable.entries.all fun entry => !fits entry.2.json || entry.2.seq < long.2.seq

/-- A call that makes the bridge ready, or registers a port again, finds nothing blocked. -/
def unblocked (b : Bridge) : Op → Bool
  | .register sendPort => !(b.dartApiInitialized && sendPort ≠ illegalPort) || b.nothingBlocked
  | .init data rc => !(data && rc = 0 && b.dartPort ≠ illegalPort) || b.nothingBlocked
  | _ => true

/-- While the bridge is ready only messages too long are held. -/
def Drained (b : Bridge) : Prop :=
  b.ready = true → ∀ key held, b.pendingDurable.lookup key = some held → fits held.json = false

section
variable {b : Bridge}

theorem nothingBlocked_pairwise (h : b.nothingBlocked = true) :
    b.ordered.Pairwise fun key key' => ∀ held held', b.pendingDurable.lookup key = some held →
      b.pendingDurable.lookup key' = some held' → fits held.json = false →
        fits held'.json = false := by
  refine (ordered_pairwise b).imp fun hpair held held' hheld hheld' hlong => ?_
  have hle := hpair.2 held held' hheld hheld'
  simp only [nothingBlocked, List.all_eq_true, Bool.or_eq_true] at h
  rcases h _ (mem_entries_of_lookup hheld) with hfits | hall
  · rw [hlong] at hfits
    contradiction
  · rcases hall _ (mem_entries_of_lookup hheld') with hlong' | hlt
    · simpa using hlong'
    · have : held'.seq < held.seq := by simpa using hlt
      omega

theorem drained_replay (h : b.ready = true → b.nothingBlocked = true) :
    Drained b.replayPendingDurable := by
  unfold Bridge.replayPendingDurable
  split_ifs with hready
  · intro _
    exact replay_leaves b.ordered b (nothingBlocked_pairwise (h hready))
      fun key held hheld => Or.inl (ordered_of_lookup hheld)
  · intro hready'
    exact absurd hready' hready

theorem Drained.after (h : Drained b) (op : Op) (hop : b.unblocked op = true) :
    Drained (b.after op) := by
  cases op with
  | send callbackType json key owner =>
    change Drained (b.sendDurableCallbackToDart callbackType json key owner)
    unfold sendDurableCallbackToDart
    dsimp only
    split_ifs with htype hposts
    · exact h
    · intro hready key' held hheld
      exact h hready key' held (lookup_erase_some hheld).2
    · obtain ⟨b', hb', -, heq⟩ := hold_eq b ⟨key, json, owner⟩
      rw [heq]
      intro hready key' held hheld
      have hready' : b.ready = true := by
        rcases hb' with rfl | rfl
        · exact hready
        · have hsame := evictOldest_same b
          unfold ready at hready ⊢
          dsimp only at hready
          rw [hsame.2.2.2.1, hsame.2.2.2.2] at hready
          exact hready
      have hsub : ∀ key held, b'.pendingDurable.lookup key = some held →
          b.pendingDurable.lookup key = some held := by
        intro key held hheld
        rcases hb' with rfl | rfl
        · exact hheld
        · exact evictOldest_lookup hheld
      by_cases hkey : key' = key
      · subst hkey
        rw [AList.lookup_insert] at hheld
        rw [← Option.some.inj hheld]
        have hlong : ¬ (b.ready && fits json) = true := hposts
        simpa [hready'] using hlong
      · rw [AList.lookup_insert_ne hkey] at hheld
        exact h hready' key' held (hsub key' held hheld)
  | discard owner =>
    intro hready key held hheld
    refine h hready key held ?_
    change (eraseAll _ b.pendingDurable).lookup key = some held at hheld
    rw [lookup_eraseAll] at hheld
    split_ifs at hheld
    exact hheld
  | register sendPort =>
    refine drained_replay fun hready => ?_
    simp only [unblocked, Bool.or_eq_true, Bool.not_eq_true'] at hop
    rcases hop with hnot | hclear
    · change (b.dartApiInitialized && decide (sendPort ≠ illegalPort)) = true at hready
      rw [hready] at hnot
      contradiction
    · exact hclear
  | unregister sendPort =>
    change Drained (b.dartUnregisterSendPort sendPort)
    unfold dartUnregisterSendPort
    split_ifs
    · intro hready
      simp [ready] at hready
    · exact h
  | init data rc =>
    change Drained (b.dartInitDartApiDL data rc).2
    unfold dartInitDartApiDL
    split_ifs with hdata hrc
    · exact h
    · exact h
    · refine drained_replay fun hready => ?_
      simp only [unblocked, Bool.or_eq_true, Bool.not_eq_true'] at hop
      rcases hop with hnot | hclear
      · have hport : b.dartPort ≠ illegalPort := by simpa [ready] using hready
        simp_all
      · exact hclear

end

/-- What Dart has been given of what was sent. -/
structure Converges (b : Bridge) : Prop where
  posted : ∀ post ∈ b.posts, ∃ s, b.sent[post.number]? = some s ∧ s.key = post.key ∧
    s.json = post.json
  inOrder : b.posts.Pairwise fun a c => a.key = c.key → a.number < c.number
  latest : b.ready = true → ∀ key n s, LastSend b.sent key n → b.sent[n]? = some s →
    fits s.json = true → n ∉ b.dropped → ∃ post ∈ b.posts, post.number = n
  bound : b.pendingDurable.keys.length ≤ kMaxPendingDurable

/-- In every run in which no call of a ready bridge finds a message blocked by one that is too
    long: the posts of a key are messages sent under it, in order; while the bridge is ready the
    last message of every key that fits has reached Dart or was dropped; a replay goes in the order
    of the last sends; and the buffer is bounded. -/
theorem durable_callbacks_converge (ops : List Op) (b : Bridge)
    (hmeets : Meets step (fun b op => b.unblocked op = true) {} ops)
    (hrun : exec step {} ops = some b) :
    Converges b ∧ ∀ pre op post s s', ops = pre ++ op :: post → exec step {} pre = some s →
      s.step op = some s' →
        ∃ new, s'.posts = s.posts ++ new ∧ new.Pairwise fun a c => a.number < c.number := by
  have hstart : Kept {} := by
    refine ⟨?_, ?_, ?_, ?_, ?_, ?_, List.Pairwise.nil, ?_, Nat.zero_le _⟩
    all_goals simp [LastSend]
  have hkept : ∀ (ops : List Op) (b : Bridge), exec step {} ops = some b → Kept b := by
    intro ops b hrun
    refine invariant (fun b op b' h hstep => ?_) hstart hrun
    rw [← Option.some.inj hstep]
    exact h.after op
  have hdrained : Drained b := by
    refine invariant_of_meets (fun b op b' h hop hstep => ?_) (s := {}) (by simp [Drained]) hmeets hrun
    rw [← Option.some.inj hstep]
    exact h.after op hop
  have h := hkept ops b hrun
  refine ⟨⟨h.posted, h.perKey, ?_, h.bound⟩, ?_⟩
  · intro hready key n s hlast hs hfits hkeptBack
    rcases h.accounted key n hlast with hposted | ⟨held, hheld, rfl⟩ | hlost
    · exact hposted
    · have hlong := hdrained hready key held hheld
      have hgenuine := h.genuine key held hheld
      rw [hs] at hgenuine
      rw [← Option.some.inj hgenuine] at hlong
      rw [hlong] at hfits
      contradiction
    · exact absurd hlost hkeptBack
  · intro pre op post s s' _ hpre hstep
    rw [← Option.some.inj hstep]
    exact (hkept pre s hpre).after_posts op

/-- Three messages under two keys, before there is a port. -/
def earlyCalls : List Op :=
  [.send (some []) [1] [97] 0, .send (some []) [2] [98] 0, .send (some []) [3] [97] 0, .init true 0,
    .register 5]

theorem early_calls_converge :
    Meets step (fun b op => b.unblocked op = true) {} earlyCalls ∧
      ∃ b, exec step {} earlyCalls = some b ∧ b.posts.map Post.json = [[2], [3]] ∧ Converges b := by
  have hmeets : Meets step (fun b op => b.unblocked op = true) {} earlyCalls := by decide
  have hposts : (exec step {} earlyCalls).map (fun b => b.posts.map Post.json) = some [[2], [3]] := by
    decide
  obtain ⟨b, hrun, hjson⟩ := Option.map_eq_some_iff.mp hposts
  exact ⟨hmeets, b, hrun, hjson, (durable_callbacks_converge earlyCalls b hmeets hrun).1⟩

/-- One byte more than a post can carry. -/
def tooLong : Bytes := List.replicate (1024 * 1024 + 1) 32

theorem replay_stops_at (long : Bytes) (hlong : fits long = false) :
    ∃ b, exec step {} [.send (some []) long [97] 0, .send (some []) [1] [98] 0, .init true 0,
        .register 5] = some b ∧ b.ready = true ∧ b.posts = [] ∧ b.dropped = [] ∧
      b.sent = [⟨[97], long, 0⟩, ⟨[98], [1], 0⟩] := by
  have hself : ∀ held : PendingDurableCallback,
      (AList.singleton [97] held : AList fun _ : Bytes => PendingDurableCallback).lookup [97] =
        some held := fun held => rfl
  refine ⟨_, rfl, ?_⟩
  simp [Bridge.after, sendDurableCallbackToDart, dartInitDartApiDL, dartRegisterSendPort,
    replayPendingDurable, hold, ready, ordered, replay, hlong, hself, illegalPort,
    kMaxPendingDurable]

/-- A message too long is held first, another one behind it, then the port comes: the second one
    fits, is the last of its key, was not dropped, and does not reach Dart. -/
theorem long_message_blocks_next :
    ∃ b s, exec step {} [.send (some []) tooLong [97] 0, .send (some []) [1] [98] 0, .init true 0,
        .register 5] = some b ∧ b.ready = true ∧ LastSend b.sent [98] 1 ∧ b.sent[1]? = some s ∧
      fits s.json = true ∧ 1 ∉ b.dropped ∧ ¬ ∃ post ∈ b.posts, post.number = 1 := by
  have hlong : fits tooLong = false := by
    unfold fits tooLong
    rw [List.length_replicate]
    decide
  obtain ⟨b, hrun, hready, hposts, hdropped, hsent⟩ := replay_stops_at tooLong hlong
  refine ⟨b, ⟨[98], [1], 0⟩, hrun, hready, ?_, ?_, by decide, ?_, ?_⟩
  · rw [hsent]
    exact (lastSend_snoc_same [⟨[97], tooLong, 0⟩] ⟨[98], [1], 0⟩ 1).mpr rfl
  · rw [hsent]
    rfl
  · rw [hdropped]
    exact List.not_mem_nil
  · rw [hposts]
    simp

end Bridge
end Tim2Tox.CallbackBridge
