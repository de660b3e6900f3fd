import Mathlib.Data.List.AList

set_option autoImplicit false

/-!
# Tables from which keys are erased

Erasing a list of keys, one after the other.
-/
namespace Tim2Tox.KeyedTables

variable {α : Type*} {β : α → Type*} [DecidableEq α]

def eraseAll (keys : List α) (table : AList β) : AList β :=
  keys.foldl (fun table key => table.erase key) table

theorem lookup_eraseAll (key : α) (keys : List α) : ∀ table : AList β,
    (eraseAll keys table).lookup key = if key ∈ keys then none else table.lookup key := by
  induction keys with
  | nil => simp [eraseAll]
  | cons first keys ih =>
    intro table
    change (eraseAll keys (table.erase first)).lookup key = _
    rw [ih]
    by_cases hfirst : key = first
    · subst hfirst
      simp
    · rw [AList.lookup_erase_ne hfirst]
      simp [hfirst]

theorem mem_eraseAll {key : α} {keys : List α} {table : AList β} :
    key ∈ eraseAll keys table ↔ key ∈ table ∧ key ∉ keys := by
  rw [← AList.lookup_isSome, ← AList.lookup_isSome, lookup_eraseAll]
  split_ifs with hmem <;> simp [hmem]

/-! ## What a change of one key leaves -/

theorem lookup_erase_some {table : AList β} {key other : α} {value : β other}
    (h : (table.erase key).lookup other = some value) : other ≠ key ∧ table.lookup other = some value := by
  by_cases hkey : other = key
  · subst hkey
    rw [AList.lookup_erase] at h
    contradiction
  · rw [AList.lookup_erase_ne hkey] at h
    exact ⟨hkey, h⟩

theorem lookup_insert_some {γ : Type*} {table : AList fun _ : α => γ} {key other : α} {new value : γ}
    (h : (table.insert key new).lookup other = some value) :
    other = key ∧ value = new ∨ other ≠ key ∧ table.lookup other = some value := by
  by_cases hkey : other = key
  · rw [hkey, AList.lookup_insert] at h
    exact .inl ⟨hkey, (Option.some.inj h).symm⟩
  · rw [AList.lookup_insert_ne hkey] at h
    exact .inr ⟨hkey, h⟩

/-! ## How many keys there are -/

theorem keys_erase_le (key : α) (table : AList β) :
    (table.erase key).keys.length ≤ table.keys.length := by
  rw [AList.keys_erase]
  exact List.length_erase_le

theorem keys_erase_lt {key : α} {table : AList β} (h : key ∈ table) :
    (table.erase key).keys.length < table.keys.length := by
  have hmem := AList.mem_keys.mp h
  have hpositive := List.length_pos_of_mem hmem
  rw [AList.keys_erase, List.length_erase_of_mem hmem]
  omega

theorem keys_insert_le (key : α) (value : β key) (table : AList β) :
    (table.insert key value).keys.length ≤ table.keys.length + 1 := by
  rw [AList.keys_insert, List.length_cons]
  exact Nat.succ_le_succ List.length_erase_le

theorem keys_insert_of_mem {key : α} (value : β key) {table : AList β} (h : key ∈ table) :
    (table.insert key value).keys.length ≤ table.keys.length := by
  have hless := keys_erase_lt h
  rw [AList.keys_erase] at hless
  rw [AList.keys_insert, List.length_cons]
  omega

theorem keys_eraseAll_le (keys : List α) : ∀ table : AList β,
    (eraseAll keys table).keys.length ≤ table.keys.length := by
  induction keys with
  | nil => exact fun table => Nat.le_refl _
  | cons first keys ih => exact fun table => Nat.le_trans (ih _) (keys_erase_le first table)

/-! ## Entries -/

theorem lookup_of_mem_entries {table : AList β} {entry : Sigma β} (h : entry ∈ table.entries) :
    table.lookup entry.1 = some entry.2 := AList.mem_lookup_iff.mpr h

theorem mem_entries_of_lookup {table : AList β} {key : α} {value : β key}
    (h : table.lookup key = some value) : (⟨key, value⟩ : Sigma β) ∈ table.entries :=
  AList.mem_lookup_iff.mp h

/-! ## Erasing by a test -/

/-- Erases every entry the test picks. -/
def eraseIf (test : Sigma β → Bool) (table : AList β) : AList β :=
  ⟨table.entries.filter fun entry => !test entry,
    table.nodupKeys.sublist List.filter_sublist⟩

omit [DecidableEq α] in
theorem mem_entries_eraseIf {test : Sigma β → Bool} {table : AList β} {entry : Sigma β} :
    entry ∈ (eraseIf test table).entries ↔ entry ∈ table.entries ∧ test entry = false := by
  change entry ∈ table.entries.filter _ ↔ _
  rw [List.mem_filter, Bool.not_eq_true']

theorem lookup_eraseIf_eq_some {test : Sigma β → Bool} {table : AList β} {key : α} {value : β key} :
    (eraseIf test table).lookup key = some value ↔
      table.lookup key = some value ∧ test ⟨key, value⟩ = false := by
  rw [← Option.mem_def, AList.mem_lookup_iff, mem_entries_eraseIf, ← AList.mem_lookup_iff,
    Option.mem_def]

/-! ## Counting entries -/

/-- An insertion counts at most its own entry on top. -/
theorem countP_insert_le (test : Sigma β → Bool) (key : α) (value : β key) (table : AList β) :
    (table.insert key value).entries.countP test ≤
      table.entries.countP test + if test ⟨key, value⟩ then 1 else 0 := by
  rw [AList.entries_insert, List.countP_cons]
  exact Nat.add_le_add_right (List.kerase_sublist key table.entries).countP_le _

/-- A table is the entry at one of its keys and the table without it. -/
theorem entries_perm_of_lookup {table : AList β} {key : α} {value : β key}
    (h : table.lookup key = some value) :
    table.entries.Perm (⟨key, value⟩ :: (table.erase key).entries) := by
  have hentry := mem_entries_of_lookup h
  refine (List.perm_ext_iff_of_nodup table.nodupKeys.nodup ?_).mpr fun entry => ?_
  · refine List.nodup_cons.mpr ⟨fun hmem => ?_, (table.erase key).nodupKeys.nodup⟩
    have := AList.lookup_erase key table
    rw [lookup_of_mem_entries hmem] at this
    cases this
  · rw [List.mem_cons]
    by_cases hkey : entry.1 = key
    · obtain ⟨k, v⟩ := entry
      obtain rfl : k = key := hkey
      constructor
      · intro hmem
        obtain rfl := Option.some.inj ((lookup_of_mem_entries hmem).symm.trans h)
        exact .inl rfl
      · rintro (heq | hmem)
        · rw [heq]
          exact hentry
        · have := AList.lookup_erase k table
          rw [lookup_of_mem_entries hmem] at this
          cases this
    · have hsame := AList.lookup_erase_ne (s := table) hkey
      constructor
      · intro hmem
        refine .inr (mem_entries_of_lookup (hsame.trans (lookup_of_mem_entries hmem)))
      · rintro (heq | hmem)
        · exact absurd (congrArg Sigma.fst heq) hkey
        · exact mem_entries_of_lookup (hsame.symm.trans (lookup_of_mem_entries hmem))

end Tim2Tox.KeyedTables
