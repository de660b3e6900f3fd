import Mathlib.Algebra.Order.Group.Nat
import Mathlib.Logic.Function.Basic
import Mathlib.Tactic.Common

set_option autoImplicit false

/-!
# Disks

Names, the files they lead to and what these hold. A name that is removed leaves its file to the
handles that are open on it.
-/
namespace Tim2Tox.FileDisks

/-- Files are numbered in the order of their creation. -/
structure Disk (π β : Type*) where
  entry : π → Option ℕ
  content : ℕ → List β
  fresh : ℕ
  named : ∀ name file, entry name = some file → file < fresh

/-- `data` at `position`, the gap before it filled with `zero`. -/
def overwrite {β : Type*} (zero : β) (content : List β) (position : ℕ) (data : List β) : List β :=
  if data.length = 0 then content
  else content.take position ++ List.replicate (position - content.length) zero ++ data ++
    content.drop (position + data.length)

section
variable {β : Type*} {zero : β} {content data : List β} {position : ℕ}

theorem overwrite_beyond {n : ℕ} (h : position + data.length ≤ n) :
    (overwrite zero content position data)[n]? = content[n]? := by
  by_cases hempty : data.length = 0
  · rw [overwrite, if_pos hempty]
  · rw [overwrite, if_neg hempty, List.getElem?_append_right, List.getElem?_drop]
    · congr 1
      simp only [List.length_append, List.length_take, List.length_replicate]
      omega
    · simp only [List.length_append, List.length_take, List.length_replicate]
      omega

theorem overwrite_within {n : ℕ} (h : n < data.length) :
    (overwrite zero content position data)[position + n]? = data[n]? := by
  have hempty : data.length ≠ 0 := by omega
  have hfront : (content.take position ++ List.replicate (position - content.length) zero).length =
      position := by
    simp only [List.length_append, List.length_take, List.length_replicate]
    omega
  rw [overwrite, if_neg hempty, List.append_assoc, List.getElem?_append_right, hfront,
    Nat.add_sub_cancel_left, List.getElem?_append_left h]
  omega

end

namespace Disk
variable {π β : Type*} [DecidableEq π]

def fileSize (disk : Disk π β) (path : π) : Option ℕ :=
  (disk.entry path).map fun file => (disk.content file).length

def unlink (disk : Disk π β) (path : π) : Disk π β where
  entry := Function.update disk.entry path none
  content := disk.content
  fresh := disk.fresh
  named name file h := by
    by_cases hname : name = path
    · rw [hname, Function.update_self] at h
      cases h
    · rw [Function.update_of_ne hname] at h
      exact disk.named name file h

/-- Changes what one file holds. -/
def fill (disk : Disk π β) (file : ℕ) (content : List β) : Disk π β :=
  { disk with content := Function.update disk.content file content }

/-- A new and empty file under the name. -/
def create (disk : Disk π β) (path : π) : Disk π β where
  entry := Function.update disk.entry path (some disk.fresh)
  content := Function.update disk.content disk.fresh []
  fresh := disk.fresh + 1
  named name file h := by
    by_cases hname : name = path
    · rw [hname, Function.update_self] at h
      cases h
      exact Nat.lt_succ_self _
    · rw [Function.update_of_ne hname] at h
      exact Nat.lt_succ_of_lt (disk.named name file h)

/-- The file under `source` is from now on under `target`, in place of what was there. -/
def rename (disk : Disk π β) (source target : π) : Disk π β :=
  match h : disk.entry source with
  | none => disk
  | some file =>
    { disk with
      entry := Function.update (Function.update disk.entry source none) target (some file)
      named := fun name moved hmoved => by
        by_cases htarget : name = target
        · rw [htarget, Function.update_self] at hmoved
          cases hmoved
          exact disk.named source _ h
        · rw [Function.update_of_ne htarget] at hmoved
          exact (disk.unlink source).named name moved hmoved }

/-- `fopen` with mode `wb`: the file there is truncated, else a new one is made. -/
def openTruncate (disk : Disk π β) (path : π) : Disk π β × ℕ :=
  match disk.entry path with
  | some file => (disk.fill file [], file)
  | none => (disk.create path, disk.fresh)

section
variable {disk : Disk π β} {path name : π} {file n : ℕ}

theorem entry_unlink_self : (disk.unlink path).entry path = none := Function.update_self _ _ _

theorem entry_unlink_ne (h : name ≠ path) : (disk.unlink path).entry name = disk.entry name :=
  Function.update_of_ne h _ _

theorem entry_create_self : (disk.create path).entry path = some disk.fresh :=
  Function.update_self _ _ _

theorem entry_create_ne (h : name ≠ path) : (disk.create path).entry name = disk.entry name :=
  Function.update_of_ne h _ _

theorem content_create (h : file < disk.fresh) :
    (disk.create path).content file = disk.content file :=
  Function.update_of_ne (Nat.ne_of_lt h) _ _

omit [DecidableEq π] in
theorem content_fill_self {content : List β} : (disk.fill file content).content file = content :=
  Function.update_self _ _ _

omit [DecidableEq π] in
theorem content_fill_ne {content : List β} (h : n ≠ file) :
    (disk.fill file content).content n = disk.content n := Function.update_of_ne h _ _

/-- Where there is no file, a new one is opened. -/
theorem openTruncate_new (h : disk.entry path = none) :
    disk.openTruncate path = (disk.create path, disk.fresh) := by
  rw [openTruncate, h]

theorem rename_none {source target : π} (h : disk.entry source = none) :
    disk.rename source target = disk := by
  unfold rename
  split
  · rfl
  · rename_i moved hsource
    cases h.symm.trans hsource

theorem rename_spec {source target : π} (h : disk.entry source = some file) :
    (disk.rename source target).entry =
        Function.update (Function.update disk.entry source none) target (some file) ∧
      (disk.rename source target).content = disk.content ∧
      (disk.rename source target).fresh = disk.fresh := by
  unfold rename
  split
  · rename_i hsource
    cases h.symm.trans hsource
  · rename_i moved hsource
    obtain rfl := Option.some.inj (h.symm.trans hsource)
    exact ⟨rfl, rfl, rfl⟩

end

end Disk

end Tim2Tox.FileDisks
