import Tim2Tox.CodeUnits

set_option autoImplicit false

/-!
# Paths in stored histories

A path below a storage root is stored as a placeholder and the rest, and rebuilt from the roots that
are known when it is loaded.
-/
namespace Tim2Tox.StoredPaths
open CodeUnits

def units (s : String) : Units := s.toList.map fun c => UInt16.ofNat c.toNat

/-! ## message_history_persistence.dart -/

/-- What is used of package:path. -/
structure PathPackage where
  isWithin : Units → Units → Bool
  relative : Units → Units → Units
  joinAll : List Units → Units

structure StorageRoots where
  appSupport : Option Units
  documents : Option Units
  userDownloads : Option Units

/-- `replaceAll('\\', '/')`. -/
def slashes (s : Units) : Units := s.map fun u => if u = 92 then 47 else u

def tailWithin (p : PathPackage) (absolutePath root : Units) : Option Units :=
  if p.isWithin root absolutePath then some (slashes (p.relative absolutePath root)) else none

/-- What follows the given start. -/
def tailAfter (start s : Units) : Option Units :=
  if start.isPrefixOf s then some (s.drop start.length) else none

def fileRecvToken : Units := units "\x7b\x7bfileRecv\x7d\x7d/"
def avatarsToken : Units := units "\x7b\x7bavatars\x7d\x7d/"
def downloadsToken : Units := units "\x7b\x7bdownloads\x7d\x7d/"
def userDownloadsToken : Units := units "\x7b\x7buserDownloads\x7d\x7d/"

def relativizePath (p : PathPackage) (absolutePath : Units) (roots : StorageRoots) : Units :=
  match roots.appSupport.bind fun appSupport =>
      tailWithin p absolutePath (p.joinAll [appSupport, units "file_recv"]) with
  | some tail => fileRecvToken ++ tail
  | none =>
    match roots.appSupport.bind fun appSupport =>
        tailWithin p absolutePath (p.joinAll [appSupport, units "avatars"]) with
    | some tail => avatarsToken ++ tail
    | none =>
      match roots.documents.bind fun documents =>
          tailAfter (documents ++ units "/Downloads/") absolutePath with
      | some tail => downloadsToken ++ tail
      | none =>
        match roots.userDownloads.bind fun userDownloads =>
            tailAfter (userDownloads ++ units "/") absolutePath with
        | some tail => userDownloadsToken ++ tail
        | none => absolutePath

def resolvePath (p : PathPackage) (storedPath : Units) (roots : StorageRoots) : Units :=
  match tailAfter fileRecvToken storedPath, roots.appSupport with
  | some tail, some appSupport => p.joinAll (appSupport :: units "file_recv" :: tail.splitOn 47)
  | _, _ =>
    match tailAfter avatarsToken storedPath, roots.appSupport with
    | some tail, some appSupport => p.joinAll (appSupport :: units "avatars" :: tail.splitOn 47)
    | _, _ =>
      match tailAfter downloadsToken storedPath, roots.documents with
      | some tail, some documents => documents ++ units "/Downloads/" ++ tail
      | _, _ =>
        match tailAfter userDownloadsToken storedPath, roots.userDownloads with
        | some tail, some userDownloads => userDownloads ++ units "/" ++ tail
        | _, _ => storedPath

/-! ## Paths of a platform -/

inductive Style where
  | posix
  | windows
  deriving DecidableEq

namespace Style

def separator : Style → UInt16
  | posix => 47
  | windows => 92

/-- What a name cannot have in it. -/
def reserved : Style → UInt16 → Bool
  | posix, u => u = 47
  | windows, u => u = 47 || u = 92 || u = 58

/-- A name in a normalised path. -/
def partOk (style : Style) (part : Units) : Bool :=
  part ≠ [] && part.all (fun u => !style.reserved u) && part ≠ [46] && part ≠ [46, 46]

def isLetter (u : UInt16) : Bool := (65 ≤ u && u ≤ 90) || (97 ≤ u && u ≤ 122)

/-- The root of the file system, a drive or a share. -/
def volumeOk : Style → Units → Bool
  | posix, volume => volume = [47]
  | windows, [letter, 58, 92] => isLetter letter
  | windows, 92 :: 92 :: share => (share.splitOn 92).length = 2 && (share.splitOn 92).all (partOk windows)
  | windows, _ => false

/-- The volume as it stands before a name. -/
def lead (style : Style) (volume : Units) : Units :=
  if volume.getLast? = some style.separator then volume else volume ++ [style.separator]

def join (style : Style) (volume : Units) (parts : List Units) : Units :=
  if parts = [] then volume else style.lead volume ++ [style.separator].intercalate parts

/-- Names are compared without case on Windows. -/
def fold : Style → Units → Units
  | posix, s => s
  | windows, s => s.map fun u => if 65 ≤ u && u ≤ 90 then u + 32 else u

end Style

/-- An absolute normalised path. -/
structure Absolute (style : Style) where
  volume : Units
  parts : List Units
  volume_ok : style.volumeOk volume = true
  parts_ok : ∀ part ∈ parts, style.partOk part = true

namespace Absolute
variable {style : Style}

def text (path : Absolute style) : Units := style.join path.volume path.parts

/-- The location of these names in the directory. -/
def under (dir : Absolute style) (rest : List Units) : Units :=
  style.join dir.volume (dir.parts ++ rest)

def contains (dir path : Absolute style) : Bool :=
  style.fold dir.volume = style.fold path.volume && dir.parts.length < path.parts.length &&
    (path.parts.take dir.parts.length).map style.fold = dir.parts.map style.fold

/-- The names of the path in the directory. -/
def below (dir path : Absolute style) : List Units := path.parts.drop dir.parts.length

def child (dir : Absolute style) (name : Units) (h : style.partOk name = true) : Absolute style where
  volume := dir.volume
  parts := dir.parts ++ [name]
  volume_ok := dir.volume_ok
  parts_ok := by
    intro part hpart
    rw [List.mem_append, List.mem_singleton] at hpart
    cases hpart with
    | inl hdir => exact dir.parts_ok part hdir
    | inr heq => rw [heq, h]

end Absolute

/-- What is documented of package:path: a path is within a directory, and what it is relative to it,
    by its names, and names are joined to a directory one by one. -/
structure PathPackage.Behaves (p : PathPackage) (style : Style) : Prop where
  isWithin : ∀ dir path : Absolute style, p.isWithin dir.text path.text = dir.contains path
  relative : ∀ dir path : Absolute style, dir.contains path = true →
    p.relative path.text dir.text = [style.separator].intercalate (dir.below path)
  joinAll : ∀ (dir : Absolute style) (parts : List Units),
    (∀ part ∈ parts, ∀ u ∈ part, style.reserved u = false) →
    p.joinAll (dir.text :: parts) = dir.under (parts.filter (· ≠ []))

/-! ## What is claimed -/

inductive Place where
  | fileRecv
  | avatars
  | downloads
  | userDownloads
  deriving DecidableEq

structure Roots (style : Style) where
  appSupport : Option (Absolute style)
  documents : Option (Absolute style)
  userDownloads : Option (Absolute style)

namespace Roots
variable {style : Style}

def texts (roots : Roots style) : StorageRoots where
  appSupport := roots.appSupport.map Absolute.text
  documents := roots.documents.map Absolute.text
  userDownloads := roots.userDownloads.map Absolute.text

theorem fileRecv_ok (style : Style) : style.partOk (units "file_recv") = true := by
  cases style <;> decide

theorem avatars_ok (style : Style) : style.partOk (units "avatars") = true := by
  cases style <;> decide

theorem downloads_ok (style : Style) : style.partOk (units "Downloads") = true := by
  cases style <;> decide

/-- The directory of a place, where its root is known. -/
def dir (roots : Roots style) : Place → Option (Absolute style)
  | .fileRecv => roots.appSupport.map fun root => root.child (units "file_recv") (fileRecv_ok style)
  | .avatars => roots.appSupport.map fun root => root.child (units "avatars") (avatars_ok style)
  | .downloads => roots.documents.map fun root => root.child (units "Downloads") (downloads_ok style)
  | .userDownloads => roots.userDownloads

/-- The first known place that the path is in, and its directory. -/
def place (roots : Roots style) (path : Absolute style) : Option (Place × Absolute style) :=
  [Place.fileRecv, .avatars, .downloads, .userDownloads].findSome? fun place =>
    ((roots.dir place).filter fun dir => dir.contains path).map fun dir => (place, dir)

end Roots

/-- The stored path comes back, and on another device it is the same location in the same place,
    where that is known there. -/
structure Resolves {style : Style} (p : PathPackage) (here there : Roots style)
    (path : Absolute style) : Prop where
  back : resolvePath p (relativizePath p path.text here.texts) here.texts = path.text
  moved : ∀ place dir dir', here.place path = some (place, dir) → there.dir place = some dir' →
    resolvePath p (relativizePath p path.text here.texts) there.texts = dir'.under (dir.below path)

namespace Roots
variable {style : Style}

/-- The root whose text the path has to begin with. -/
def base (roots : Roots style) : Place → Option (Absolute style)
  | .downloads => roots.documents
  | .userDownloads => roots.userDownloads
  | _ => none

/-- The path begins with the directory as it is put together with slashes. -/
def named (roots : Roots style) (path : Absolute style) (place : Place) : Bool :=
  style = .posix && ((roots.base place).any fun base => base.parts ≠ []) &&
    ((roots.dir place).any fun dir => dir.contains path)

end Roots

/-- When a path comes back: a received file or an avatar has no backslash in its names, and the path
    is spelled as its root is. -/
def StaysHere {style : Style} (here : Roots style) (path : Absolute style) : Prop :=
  ∀ place dir, here.place path = some (place, dir) → place = .fileRecv ∨ place = .avatars →
    (∀ part ∈ dir.below path, 92 ∉ part) ∧ path.text = dir.under (dir.below path)

/-- When a path moves to the other device: a received file or an avatar has no backslash in its
    names; a download is found by its text on both, or is the same path. -/
def Moves {style : Style} (here there : Roots style) (path : Absolute style) (place : Place)
    (dir dir' : Absolute style) : Prop :=
  match place with
  | .fileRecv | .avatars => ∀ part ∈ dir.below path, 92 ∉ part
  | .downloads | .userDownloads =>
    match [Place.downloads, .userDownloads].find? (here.named path) with
    | none => path.text = dir'.under (dir.below path)
    | some token => ∃ base first last, there.base token = some base ∧ base.parts ≠ [] ∧
      here.dir token = some first ∧ there.dir token = some last ∧
      last.under (first.below path) = dir'.under (dir.below path)

/-! ## Names and separators -/

section
variable {s : Units} {u : UInt16} {parts : List Units}

theorem intercalate_append {before after : List Units} (hbefore : before ≠ []) (hafter : after ≠ []) :
    [u].intercalate (before ++ after) = [u].intercalate before ++ u :: [u].intercalate after := by
  induction before with
  | nil => contradiction
  | cons part before ih =>
    cases before with
    | nil =>
      rw [List.singleton_append, List.intercalate_cons_of_ne_nil hafter, List.intercalate_singleton,
        List.append_assoc]
      rfl
    | cons next before =>
      have hne : next :: before ≠ [] := List.cons_ne_nil _ _
      rw [List.cons_append, List.intercalate_cons_of_ne_nil (List.append_ne_nil_of_left_ne_nil hne _),
        ih hne, List.intercalate_cons_of_ne_nil hne]
      simp only [List.append_assoc]

theorem mem_intercalate {a : UInt16} (h : a ∈ [u].intercalate parts) :
    a = u ∨ ∃ part ∈ parts, a ∈ part := by
  induction parts with
  | nil => exact absurd h List.not_mem_nil
  | cons part parts ih =>
    cases parts with
    | nil =>
      rw [List.intercalate_singleton] at h
      exact Or.inr ⟨part, List.mem_cons_self, h⟩
    | cons next parts =>
      rw [List.intercalate_cons_of_ne_nil (List.cons_ne_nil _ _), List.mem_append, List.mem_append,
        List.mem_singleton] at h
      rcases h with (hpart | hsep) | hrest
      · exact Or.inr ⟨part, List.mem_cons_self, hpart⟩
      · exact Or.inl hsep
      · cases ih hrest with
        | inl hsep => exact Or.inl hsep
        | inr hmem =>
          obtain ⟨other, hother, hin⟩ := hmem
          exact Or.inr ⟨other, List.mem_cons_of_mem _ hother, hin⟩

theorem mem_intercalate_of_mem {a : UInt16} {part : Units} (hpart : part ∈ parts) (ha : a ∈ part) :
    a ∈ [u].intercalate parts := by
  induction parts with
  | nil => exact absurd hpart List.not_mem_nil
  | cons first parts ih =>
    cases parts with
    | nil =>
      rw [List.mem_singleton] at hpart
      rw [List.intercalate_singleton, ← hpart]
      exact ha
    | cons next parts =>
      rw [List.intercalate_cons_of_ne_nil (List.cons_ne_nil _ _), List.mem_append, List.mem_append]
      cases List.mem_cons.mp hpart with
      | inl heq => exact Or.inl (Or.inl (heq ▸ ha))
      | inr hrest => exact Or.inr (ih hrest)

/-- A piece between separators has none, and is made of what was split. -/
theorem mem_splitOn {part : Units} (h : part ∈ s.splitOn u) : u ∉ part ∧ part ⊆ s := by
  induction s generalizing part with
  | nil =>
    rw [List.splitOn_nil, List.mem_singleton] at h
    rw [h]
    exact ⟨List.not_mem_nil, List.Subset.refl _⟩
  | cons a s ih =>
    rw [List.splitOn_cons_eq_if_modifyHead] at h
    cases hsplit : s.splitOn u with
    | nil => exact absurd hsplit (List.splitOn_ne_nil u s)
    | cons first rest =>
      have hfirst := ih (hsplit ▸ List.mem_cons_self)
      rw [hsplit] at h
      split_ifs at h with hsep
      · cases List.mem_cons.mp h with
        | inl heq =>
          rw [heq]
          exact ⟨List.not_mem_nil, List.nil_subset _⟩
        | inr hmem =>
          obtain ⟨hnot, hsub⟩ := ih (hsplit ▸ hmem)
          exact ⟨hnot, fun b hb => List.mem_cons_of_mem _ (hsub hb)⟩
      · rw [List.modifyHead_cons] at h
        cases List.mem_cons.mp h with
        | inl heq =>
          rw [heq]
          refine ⟨?_, List.cons_subset_cons _ hfirst.2⟩
          intro hmem
          cases List.mem_cons.mp hmem with
          | inl heq' => exact hsep (beq_iff_eq.mpr heq'.symm)
          | inr hin => exact hfirst.1 hin
        | inr hmem =>
          obtain ⟨hnot, hsub⟩ := ih (hsplit ▸ List.mem_cons_of_mem _ hmem)
          exact ⟨hnot, fun b hb => List.mem_cons_of_mem _ (hsub hb)⟩

theorem slashes_noBackslash (s : Units) : 92 ∉ slashes s := by
  intro hmem
  obtain ⟨a, -, ha⟩ := List.mem_map.mp hmem
  split_ifs at ha with hback
  · exact absurd ha (by decide)
  · exact hback ha

theorem slashes_eq_self (h : 92 ∉ s) : slashes s = s := by
  rw [slashes]
  conv_rhs => rw [← List.map_id s]
  apply List.map_congr_left
  intro a ha
  rw [if_neg]
  · rfl
  · rintro rfl
    exact h ha

theorem slashes_intercalate (parts : List Units) :
    slashes ([u].intercalate parts) = (slashes [u]).intercalate (parts.map slashes) := by
  induction parts with
  | nil => rfl
  | cons part parts ih =>
    cases parts with
    | nil => rw [List.intercalate_singleton, List.map_singleton, List.intercalate_singleton]
    | cons next parts =>
      have hne : next :: parts ≠ [] := List.cons_ne_nil _ _
      generalize next :: parts = rest at ih hne ⊢
      rw [List.intercalate_cons_of_ne_nil hne, List.map_cons,
        List.intercalate_cons_of_ne_nil (List.map_eq_nil_iff.not.mpr hne), ← ih]
      simp only [slashes, List.map_append]

end

/-! ## Texts of paths -/

namespace Style

theorem partOk_ne_nil {style : Style} {part : Units} (h : style.partOk part = true) : part ≠ [] := by
  simp only [partOk, Bool.and_eq_true, decide_eq_true_eq] at h
  exact h.1.1.1

theorem not_reserved {style : Style} {part : Units} (h : style.partOk part = true) :
    ∀ u ∈ part, style.reserved u = false := by
  simp only [partOk, Bool.and_eq_true, List.all_eq_true, Bool.not_eq_true'] at h
  exact h.1.1.2

theorem reserved_slash (style : Style) : style.reserved 47 = true := by
  cases style <;> rfl

theorem no_slash {style : Style} {part : Units} (h : style.partOk part = true) : 47 ∉ part := by
  intro hmem
  have hfree := not_reserved h 47 hmem
  rw [reserved_slash] at hfree
  contradiction

/-- What a path of Windows begins with has no slash, and no path begins with a brace. -/
theorem volume_start {style : Style} {volume : Units} (h : style.volumeOk volume = true) :
    (∃ first rest, volume = first :: rest ∧ first ≠ 123) ∧ (style = windows → 47 ∉ volume) := by
  cases style with
  | posix =>
    have heq : volume = [47] := of_decide_eq_true h
    rw [heq]
    exact ⟨⟨47, [], rfl, by decide⟩, fun hstyle => nomatch hstyle⟩
  | windows =>
    rw [volumeOk.eq_def] at h
    split at h
    · contradiction
    · rename_i letter _
      refine ⟨⟨letter, _, rfl, ?_⟩, fun _ => ?_⟩
      · rintro rfl
        exact absurd h (by decide)
      · simp only [List.mem_cons, List.not_mem_nil, not_or]
        refine ⟨?_, by decide, by decide, not_false⟩
        rintro rfl
        exact absurd h (by decide)
    · rename_i share hnot
      rw [Bool.and_eq_true, List.all_eq_true] at h
      refine ⟨⟨92, _, rfl, by decide⟩, fun _ hmem => ?_⟩
      have hshare : 47 ∈ share := by
        simpa using hmem
      have hwhole : [92].intercalate (share.splitOn 92) = share := List.intercalate_splitOn 92
      rw [← hwhole] at hshare
      cases mem_intercalate hshare with
      | inl hsep => exact absurd hsep (by decide)
      | inr hmem =>
        obtain ⟨part, hpart, hin⟩ := hmem
        exact no_slash (h.2 part hpart) hin
    · contradiction

end Style

namespace Absolute
variable {style : Style} {dir path : Absolute style}

theorem below_ne_nil (h : dir.contains path = true) : dir.below path ≠ [] := by
  simp only [contains, Bool.and_eq_true, decide_eq_true_eq] at h
  rw [below, Ne, List.drop_eq_nil_iff]
  omega

theorem below_ok (dir path : Absolute style) : ∀ part ∈ dir.below path, style.partOk part = true :=
  fun part hpart => path.parts_ok part (List.mem_of_mem_drop hpart)

/-- A location below a directory that is not a volume is its text and the names after separators. -/
theorem under_eq {rest : List Units} (hparts : dir.parts ≠ []) (hrest : rest ≠ []) :
    dir.under rest = dir.text ++ style.separator :: [style.separator].intercalate rest := by
  rw [under, text, Style.join, Style.join, if_neg hparts,
    if_neg (List.append_ne_nil_of_left_ne_nil hparts _), intercalate_append hparts hrest,
    List.append_assoc]

theorem text_child (name : Units) (h : style.partOk name = true) :
    (dir.child name h).text = dir.under [name] := rfl

theorem under_child (name : Units) (h : style.partOk name = true) (rest : List Units) :
    (dir.child name h).under rest = dir.under (name :: rest) := by
  rw [under, under, child, List.append_assoc]
  rfl

theorem child_parts_ne_nil (name : Units) (h : style.partOk name = true) :
    (dir.child name h).parts ≠ [] := List.append_ne_nil_of_right_ne_nil _ (List.cons_ne_nil _ _)

theorem posix_volume (path : Absolute .posix) : path.volume = [47] := of_decide_eq_true path.volume_ok

theorem posix_text (path : Absolute .posix) : path.text = 47 :: [47].intercalate path.parts := by
  rw [text, Style.join, posix_volume]
  split_ifs with hnone
  · rw [hnone]
    rfl
  · rfl

/-- On POSIX a directory contains a path that has its names first. -/
theorem posix_contains (dir path : Absolute .posix) : dir.contains path = true ↔
    dir.below path ≠ [] ∧ path.parts = dir.parts ++ dir.below path := by
  have hid : (Style.fold .posix) = id := rfl
  simp only [contains, Bool.and_eq_true, decide_eq_true_eq, posix_volume, true_and, hid, List.map_id]
  rw [below, Ne, List.drop_eq_nil_iff, Nat.not_le]
  constructor
  · rintro ⟨hlt, htake⟩
    refine ⟨hlt, ?_⟩
    conv_lhs => rw [← List.take_append_drop dir.parts.length path.parts, htake]
  · rintro ⟨hlt, hparts⟩
    refine ⟨hlt, ?_⟩
    rw [hparts, List.take_left]

theorem posix_text_of_contains {dir path : Absolute .posix} (h : dir.contains path = true) :
    path.text = dir.under (dir.below path) := by
  rw [text, under, ← ((posix_contains dir path).mp h).2, posix_volume, posix_volume]

/-- A path of Windows has no slash. -/
theorem windows_no_slash (path : Absolute .windows) : 47 ∉ path.text := by
  intro hmem
  have hvolume := (Style.volume_start path.volume_ok).2 rfl
  rw [text, Style.join] at hmem
  split_ifs at hmem
  · exact hvolume hmem
  · rw [List.mem_append] at hmem
    cases hmem with
    | inl hlead =>
      rw [Style.lead] at hlead
      split_ifs at hlead
      · exact hvolume hlead
      · rw [List.mem_append, List.mem_singleton] at hlead
        cases hlead with
        | inl hin => exact hvolume hin
        | inr heq => exact absurd heq (by decide)
    | inr hparts =>
      cases mem_intercalate hparts with
      | inl hsep => exact absurd hsep (by decide)
      | inr hmem =>
        obtain ⟨part, hpart, hin⟩ := hmem
        exact Style.no_slash (path.parts_ok part hpart) hin

theorem text_start (path : Absolute style) : ∃ first rest, path.text = first :: rest ∧ first ≠ 123 := by
  obtain ⟨first, rest, hvolume, hne⟩ := (Style.volume_start path.volume_ok).1
  rw [text, Style.join, Style.lead, hvolume]
  split_ifs
  · exact ⟨first, rest, rfl, hne⟩
  · exact ⟨first, _, rfl, hne⟩
  · exact ⟨first, _, rfl, hne⟩

end Absolute

end Tim2Tox.StoredPaths
