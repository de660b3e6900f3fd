import Tim2Tox.StoredPaths

set_option autoImplicit false

/-!
# Stored paths are rebuilt

What `relativizePath` stores of a path, what `resolvePath` makes of it, and when that is the same
file.
-/
namespace Tim2Tox.StoredPaths
open CodeUnits

/-! ## What is stored -/

theorem tailAfter_append (start tail : Units) : tailAfter start (start ++ tail) = some tail := by
  rw [tailAfter, if_pos (List.isPrefixOf_iff_prefix.mpr (List.prefix_append _ _)), List.drop_left]

theorem tailAfter_none {start s : Units} (h : ¬ start <+: s) : tailAfter start s = none := by
  rw [tailAfter, if_neg fun hstart => h (List.isPrefixOf_iff_prefix.mp hstart)]

/-- A token is not found in what begins with another one. -/
theorem tailAfter_other {start token : Units} (tail : Units) (k : ℕ) (hk : k ≤ token.length)
    (hother : ¬ start.take k <+: token) : tailAfter start (token ++ tail) = none := by
  apply tailAfter_none
  intro hstart
  apply hother
  have hfront := (List.take_prefix k start).trans hstart
  exact List.prefix_of_prefix_length_le hfront (List.prefix_append _ _)
    (Nat.le_trans (List.length_take_le _ _) hk)

theorem prefix_eq_append {start s : Units} (h : start <+: s) : ∃ tail, s = start ++ tail := by
  obtain ⟨tail, htail⟩ := h
  exact ⟨tail, htail.symm⟩

section
variable {style : Style}

theorem posix_found {dir path : Absolute .posix} (hparts : dir.parts ≠ []) :
    tailAfter (dir.text ++ [47]) path.text =
      if dir.contains path then some ([47].intercalate (dir.below path)) else none := by
  by_cases hin : dir.contains path = true
  · have hsplit : path.text = dir.text ++ [47] ++ [47].intercalate (dir.below path) := by
      rw [Absolute.posix_text_of_contains hin, Absolute.under_eq hparts (Absolute.below_ne_nil hin),
        List.append_assoc]
      rfl
    rw [if_pos hin, hsplit, tailAfter_append]
  · rw [if_neg hin]
    apply tailAfter_none
    intro hstart
    obtain ⟨tail, htail⟩ := prefix_eq_append hstart
    rw [Absolute.posix_text, Absolute.posix_text, List.append_assoc, List.cons_append,
      List.cons.injEq] at htail
    have hnone : path.parts ≠ [] := by
      intro hnil
      have hempty := htail.2
      rw [hnil] at hempty
      exact absurd hempty.symm (List.append_ne_nil_of_right_ne_nil _ (List.cons_ne_nil _ _))
    have hnames := congrArg (List.splitOn 47) htail.2
    have hclean : ∀ d : Absolute .posix, ∀ part ∈ d.parts, 47 ∉ part :=
      fun d part hpart => Style.no_slash (d.parts_ok part hpart)
    rw [List.singleton_append, List.splitOn_append_cons_self,
      List.splitOn_intercalate 47 (hclean path) hnone,
      List.splitOn_intercalate 47 (hclean dir) hparts] at hnames
    apply hin
    rw [Absolute.posix_contains, Absolute.below, hnames, List.drop_left]
    exact ⟨List.splitOn_ne_nil _ _, rfl⟩

/-- A directory put together with slashes is found on POSIX only, and not below the root. -/
theorem found {base dir path : Absolute style} {start : Units} (hmem : 47 ∈ start)
    (hvolume : style = .posix → base.parts = [] → ∃ rest, start = 47 :: 47 :: rest)
    (hstart : style = .posix → base.parts ≠ [] → dir.parts ≠ [] ∧ start = dir.text ++ [47]) :
    tailAfter start path.text =
      if style = .posix ∧ base.parts ≠ [] ∧ dir.contains path = true then
        some ([47].intercalate (dir.below path)) else none := by
  cases style with
  | windows =>
    rw [if_neg fun h => nomatch h.1]
    exact tailAfter_none fun hfront => path.windows_no_slash (hfront.subset hmem)
  | posix =>
    by_cases hparts : base.parts = []
    · rw [if_neg fun h => h.2.1 hparts]
      apply tailAfter_none
      intro hfront
      obtain ⟨rest, hrest⟩ := hvolume rfl hparts
      obtain ⟨tail, htail⟩ := prefix_eq_append hfront
      rw [hrest, Absolute.posix_text, List.cons_append, List.cons_append, List.cons.injEq] at htail
      cases hpath : path.parts with
      | nil =>
        rw [hpath] at htail
        exact nomatch htail.2
      | cons part parts =>
        have hok := path.parts_ok part (hpath ▸ List.mem_cons_self)
        obtain ⟨u, name, hpart⟩ := List.exists_cons_of_ne_nil (Style.partOk_ne_nil hok)
        have hfirst : ∃ more, [47].intercalate path.parts = u :: more := by
          rw [hpath, hpart]
          cases parts with
          | nil => exact ⟨name, List.intercalate_singleton⟩
          | cons next parts =>
            rw [List.intercalate_cons_of_ne_nil (List.cons_ne_nil _ _)]
            exact ⟨_, rfl⟩
        obtain ⟨more, hmore⟩ := hfirst
        rw [hmore, List.cons.injEq] at htail
        apply Style.no_slash hok
        rw [hpart, htail.2.1]
        exact List.mem_cons_self
    · obtain ⟨hdir, heq⟩ := hstart rfl hparts
      rw [heq, posix_found hdir]
      simp [hparts]

end

section
variable {style : Style} {p : PathPackage} (hp : p.Behaves style) (roots : Roots style)
  (path : Absolute style)

/-- What is stored of the path after the token of a place. -/
def storedTail (roots : Roots style) (path : Absolute style) : Place → Option Units
  | .fileRecv => (roots.dir .fileRecv).bind fun dir =>
    if dir.contains path then some (slashes ([style.separator].intercalate (dir.below path))) else none
  | .avatars => (roots.dir .avatars).bind fun dir =>
    if dir.contains path then some (slashes ([style.separator].intercalate (dir.below path))) else none
  | .downloads =>
    if roots.named path .downloads then
      (roots.dir .downloads).map fun dir => [47].intercalate (dir.below path) else none
  | .userDownloads =>
    if roots.named path .userDownloads then
      (roots.dir .userDownloads).map fun dir => [47].intercalate (dir.below path) else none

include hp in
theorem joinAll_child (root : Absolute style) (name : Units) (h : style.partOk name = true) :
    p.joinAll [root.text, name] = (root.child name h).text := by
  have hjoin := hp.joinAll root [name] fun part hpart u hu => by
    rw [List.mem_singleton] at hpart
    exact Style.not_reserved (hpart ▸ h) u hu
  rw [hjoin, Absolute.text_child]
  congr 1
  exact List.filter_cons_of_pos (decide_eq_true (Style.partOk_ne_nil h))

include hp in
theorem tailWithin_child (appSupport : Option (Absolute style)) (name : Units)
    (h : style.partOk name = true) :
    ((appSupport.map Absolute.text).bind fun root =>
        tailWithin p path.text (p.joinAll [root, name])) =
      (appSupport.map fun root => root.child name h).bind fun dir =>
        if dir.contains path then some (slashes ([style.separator].intercalate (dir.below path)))
        else none := by
  cases appSupport with
  | none => rfl
  | some root =>
    change tailWithin p path.text (p.joinAll [root.text, name]) = _
    rw [joinAll_child hp root name h, tailWithin, hp.isWithin, Option.map_some, Option.bind_some]
    split_ifs with hin
    · rw [hp.relative _ _ hin]
    · rfl

theorem tailAfter_downloads :
    ((roots.documents.map Absolute.text).bind fun documents =>
        tailAfter (documents ++ units "/Downloads/") path.text) = storedTail roots path .downloads := by
  rw [storedTail, Roots.named, Roots.base, Roots.dir]
  cases roots.documents with
  | none => simp
  | some base =>
    have hmem : (47 : UInt16) ∈ base.text ++ units "/Downloads/" :=
      List.mem_append_right _ (by decide)
    have hfound := @found style base (base.child (units "Downloads") (Roots.downloads_ok style)) path _ hmem
      (by
        rintro rfl hnone
        refine ⟨units "Downloads/", ?_⟩
        rw [Absolute.posix_text, hnone]
        decide)
      (by
        rintro rfl hparts
        refine ⟨Absolute.child_parts_ne_nil _ _, ?_⟩
        rw [Absolute.text_child, Absolute.under_eq hparts (List.cons_ne_nil _ _), List.append_assoc]
        congr 1)
    change tailAfter _ path.text = _
    rw [hfound]
    simp [and_assoc]

theorem tailAfter_userDownloads :
    ((roots.userDownloads.map Absolute.text).bind fun userDownloads =>
        tailAfter (userDownloads ++ units "/") path.text) = storedTail roots path .userDownloads := by
  rw [storedTail, Roots.named, Roots.base, Roots.dir]
  cases roots.userDownloads with
  | none => simp
  | some base =>
    have hmem : (47 : UInt16) ∈ base.text ++ units "/" :=
      List.mem_append_right _ (by decide)
    have hfound := @found style base base path _ hmem
      (by
        rintro rfl hnone
        refine ⟨[], ?_⟩
        rw [Absolute.posix_text, hnone]
        decide)
      (fun _ hparts => ⟨hparts, rfl⟩)
    change tailAfter _ path.text = _
    rw [hfound]
    simp [and_assoc]

include hp in
/-- The path is stored at the first place that finds it. -/
theorem relativizePath_eq : relativizePath p path.text roots.texts =
    match storedTail roots path .fileRecv with
    | some tail => fileRecvToken ++ tail
    | none =>
      match storedTail roots path .avatars with
      | some tail => avatarsToken ++ tail
      | none =>
        match storedTail roots path .downloads with
        | some tail => downloadsToken ++ tail
        | none =>
          match storedTail roots path .userDownloads with
          | some tail => userDownloadsToken ++ tail
          | none => path.text := by
  rw [relativizePath, Roots.texts]
  dsimp only
  rw [tailWithin_child hp path roots.appSupport _ (Roots.fileRecv_ok style),
    tailWithin_child hp path roots.appSupport _ (Roots.avatars_ok style),
    tailAfter_downloads, tailAfter_userDownloads]
  rfl

end

/-! ## What is rebuilt -/

section
variable (p : PathPackage) (roots : StorageRoots) (tail : Units)

theorem resolve_fileRecv : resolvePath p (fileRecvToken ++ tail) roots =
    match roots.appSupport with
    | some root => p.joinAll (root :: units "file_recv" :: tail.splitOn 47)
    | none => fileRecvToken ++ tail := by
  rw [resolvePath, tailAfter_append,
    tailAfter_other tail 3 (by decide) (by decide),
    tailAfter_other tail 3 (by decide) (by decide),
    tailAfter_other tail 3 (by decide) (by decide)]
  cases roots.appSupport <;> rfl

theorem resolve_avatars : resolvePath p (avatarsToken ++ tail) roots =
    match roots.appSupport with
    | some root => p.joinAll (root :: units "avatars" :: tail.splitOn 47)
    | none => avatarsToken ++ tail := by
  rw [resolvePath, tailAfter_append,
    tailAfter_other tail 3 (by decide) (by decide),
    tailAfter_other tail 3 (by decide) (by decide),
    tailAfter_other tail 3 (by decide) (by decide)]
  cases roots.appSupport <;> rfl

theorem resolve_downloads : resolvePath p (downloadsToken ++ tail) roots =
    match roots.documents with
    | some root => root ++ units "/Downloads/" ++ tail
    | none => downloadsToken ++ tail := by
  rw [resolvePath, tailAfter_append,
    tailAfter_other tail 3 (by decide) (by decide),
    tailAfter_other tail 3 (by decide) (by decide),
    tailAfter_other tail 3 (by decide) (by decide)]
  cases roots.documents <;> rfl

theorem resolve_userDownloads : resolvePath p (userDownloadsToken ++ tail) roots =
    match roots.userDownloads with
    | some root => root ++ units "/" ++ tail
    | none => userDownloadsToken ++ tail := by
  rw [resolvePath, tailAfter_append,
    tailAfter_other tail 3 (by decide) (by decide),
    tailAfter_other tail 3 (by decide) (by decide),
    tailAfter_other tail 3 (by decide) (by decide)]
  cases roots.userDownloads <;> rfl

/-- What does not begin as a token does is left as it is. -/
theorem resolve_text {style : Style} (path : Absolute style) : resolvePath p path.text roots = path.text := by
  obtain ⟨first, rest, htext, hne⟩ := path.text_start
  have hnone : ∀ token : Units, token.head? = some 123 → tailAfter token path.text = none := by
    intro token htoken
    apply tailAfter_none
    rintro ⟨more, hmore⟩
    cases token with
    | nil => contradiction
    | cons u token =>
      rw [htext, List.cons_append, List.cons.injEq] at hmore
      rw [List.head?_cons, Option.some.injEq] at htoken
      exact hne (hmore.1.symm.trans htoken)
  rw [resolvePath, hnone fileRecvToken (by decide), hnone avatarsToken (by decide),
    hnone downloadsToken (by decide), hnone userDownloadsToken (by decide)]

end

/-! ## Received files and avatars -/

section
variable {style : Style} {p : PathPackage} (hp : p.Behaves style)

/-- The names that a stored tail is split into. -/
def pieces (style : Style) (rest : List Units) : List Units :=
  ((slashes ([style.separator].intercalate rest)).splitOn 47).filter (· ≠ [])

theorem slashes_separator (style : Style) : slashes [style.separator] = [47] := by
  cases style <;> rfl

theorem reserved_piece {rest : List Units} (hrest : ∀ part ∈ rest, style.partOk part = true) :
    ∀ part ∈ (slashes ([style.separator].intercalate rest)).splitOn 47, ∀ u ∈ part,
      style.reserved u = false := by
  intro part hpart u hu
  obtain ⟨hslash, hsub⟩ := mem_splitOn hpart
  have hmem := hsub hu
  have hback : u ≠ 92 := by
    rintro rfl
    exact slashes_noBackslash _ hmem
  have hne : u ≠ 47 := by
    rintro rfl
    exact hslash hu
  rw [slashes_intercalate, slashes_separator] at hmem
  cases mem_intercalate hmem with
  | inl hsep => exact absurd hsep hne
  | inr hin =>
    obtain ⟨name, hname, hin⟩ := hin
    obtain ⟨old, hold, rfl⟩ := List.mem_map.mp hname
    obtain ⟨a, ha, rfl⟩ := List.mem_map.mp hin
    have hfree := Style.not_reserved (hrest old hold) a ha
    split_ifs at hne ⊢ with hslashed
    · exact absurd rfl hne
    · exact hfree

include hp in
theorem joinAll_pieces (root : Absolute style) (name : Units) (h : style.partOk name = true)
    {rest : List Units} (hrest : ∀ part ∈ rest, style.partOk part = true) :
    p.joinAll (root.text :: name :: (slashes ([style.separator].intercalate rest)).splitOn 47) =
      (root.child name h).under (pieces style rest) := by
  have hjoin := hp.joinAll root (name :: (slashes ([style.separator].intercalate rest)).splitOn 47) fun part hpart => by
    cases List.mem_cons.mp hpart with
    | inl heq =>
      rw [heq]
      exact Style.not_reserved h
    | inr hmem => exact reserved_piece hrest part hmem
  rw [hjoin, Absolute.under_child, pieces]
  congr 1
  exact List.filter_cons_of_pos (decide_eq_true (Style.partOk_ne_nil h))

/-- Names without a backslash are split as they were. -/
theorem pieces_clean {rest : List Units} (hrest : ∀ part ∈ rest, style.partOk part = true)
    (hne : rest ≠ []) (hclean : ∀ part ∈ rest, 92 ∉ part) : pieces style rest = rest := by
  have hsame : rest.map slashes = rest := by
    conv_rhs => rw [← List.map_id rest]
    exact List.map_congr_left fun part hpart => slashes_eq_self (hclean part hpart)
  rw [pieces, slashes_intercalate, slashes_separator, hsame,
    List.splitOn_intercalate 47 (fun part hpart => Style.no_slash (hrest part hpart)) hne,
    List.filter_eq_self]
  exact fun part hpart => decide_eq_true (Style.partOk_ne_nil (hrest part hpart))

/-- A backslash in a name is lost. -/
theorem pieces_under {dir : Absolute style} (hdir : dir.parts ≠ []) {rest : List Units}
    (hrest : ∀ part ∈ rest, style.partOk part = true) (hne : rest ≠ []) :
    dir.under (pieces style rest) = dir.under rest ↔ ∀ part ∈ rest, 92 ∉ part := by
  constructor
  · intro hsame part hpart hback
    cases style with
    | windows =>
      have hfree := Style.not_reserved (hrest part hpart) 92 hback
      exact absurd hfree (by decide)
    | posix =>
      have hlost : ∀ name ∈ pieces .posix rest, 92 ∉ name := by
        intro name hname hmem
        exact slashes_noBackslash _ ((mem_splitOn (List.mem_filter.mp hname).1).2 hmem)
      rw [Absolute.under_eq hdir hne] at hsame
      by_cases hnone : pieces .posix rest = []
      · rw [hnone, Absolute.under, List.append_nil] at hsame
        have hlength := congrArg List.length hsame
        rw [List.length_append, List.length_cons] at hlength
        change dir.text.length = _ at hlength
        omega
      · rw [Absolute.under_eq hdir hnone, List.append_cancel_left_eq, List.cons.injEq] at hsame
        have hmem := @mem_intercalate_of_mem Style.posix.separator rest 92 part hpart hback
        rw [← hsame.2] at hmem
        cases mem_intercalate hmem with
        | inl hsep => exact absurd hsep (by decide)
        | inr hin =>
          obtain ⟨name, hname, hin⟩ := hin
          exact hlost name hname hin
  · intro hclean
    rw [pieces_clean hrest hne hclean]

end

/-! ## The place of a path -/

section
variable {style : Style} {p : PathPackage} (hp : p.Behaves style) {here there : Roots style}
  {path : Absolute style} {place : Place} {dir : Absolute style}

def held (roots : Roots style) (path : Absolute style) (place : Place) : Option (Absolute style) :=
  (roots.dir place).filter fun dir => dir.contains path

theorem held_eq_some : held here path place = some dir ↔
    here.dir place = some dir ∧ dir.contains path = true := Option.filter_eq_some_iff

theorem place_eq (roots : Roots style) (path : Absolute style) : roots.place path =
    match held roots path .fileRecv with
    | some dir => some (.fileRecv, dir)
    | none =>
      match held roots path .avatars with
      | some dir => some (.avatars, dir)
      | none =>
        match held roots path .downloads with
        | some dir => some (.downloads, dir)
        | none => (held roots path .userDownloads).map fun dir => (.userDownloads, dir) := by
  change List.findSome? (fun place => (held roots path place).map fun dir => (place, dir)) _ = _
  simp only [List.findSome?]
  cases held roots path .fileRecv with
  | some dir => rfl
  | none =>
    cases held roots path .avatars with
    | some dir => rfl
    | none =>
      cases held roots path .downloads with
      | some dir => rfl
      | none => cases held roots path .userDownloads <;> rfl

theorem storedTail_held (hplace : place = .fileRecv ∨ place = .avatars) :
    storedTail here path place = (held here path place).map fun dir =>
      slashes ([style.separator].intercalate (dir.below path)) := by
  have hbind : ∀ found : Option (Absolute style), (found.bind fun dir =>
      if dir.contains path then some (slashes ([style.separator].intercalate (dir.below path)))
      else none) = (found.filter fun dir => dir.contains path).map fun dir =>
        slashes ([style.separator].intercalate (dir.below path)) := by
    intro found
    cases found with
    | none => rfl
    | some dir =>
      rw [Option.bind_some, Option.filter_some]
      split_ifs <;> rfl
  cases hplace with
  | inl heq =>
    rw [heq]
    exact hbind _
  | inr heq =>
    rw [heq]
    exact hbind _

/-- What a received file or an avatar is rebuilt to in its directory. -/
theorem rebuilt_iff (hparts : dir.parts ≠ []) (hin : dir.contains path = true) :
    dir.under (pieces style (dir.below path)) = path.text ↔
      (∀ part ∈ dir.below path, 92 ∉ part) ∧ path.text = dir.under (dir.below path) := by
  have hclean := pieces_under hparts (dir.below_ok path) (Absolute.below_ne_nil hin)
  constructor
  · intro hsame
    have hnames : ∀ part ∈ dir.below path, 92 ∉ part := by
      cases style with
      | windows =>
        intro part hpart hback
        exact absurd (Style.not_reserved (dir.below_ok path part hpart) 92 hback) (by decide)
      | posix =>
        rw [Absolute.posix_text_of_contains hin] at hsame
        exact hclean.mp hsame
    exact ⟨hnames, hsame.symm.trans (hclean.mpr hnames)⟩
  · rintro ⟨hnames, htext⟩
    rw [hclean.mpr hnames, htext]

include hp in
theorem resolve_fileRecv_dir (hdir : there.dir .fileRecv = some dir) {rest : List Units}
    (hrest : ∀ part ∈ rest, style.partOk part = true) :
    resolvePath p (fileRecvToken ++ slashes ([style.separator].intercalate rest)) there.texts =
      dir.under (pieces style rest) := by
  obtain ⟨root, hroot, rfl⟩ := Option.map_eq_some_iff.mp hdir
  rw [resolve_fileRecv, Roots.texts]
  dsimp only
  rw [hroot]
  exact joinAll_pieces hp root _ _ hrest

include hp in
theorem resolve_avatars_dir (hdir : there.dir .avatars = some dir) {rest : List Units}
    (hrest : ∀ part ∈ rest, style.partOk part = true) :
    resolvePath p (avatarsToken ++ slashes ([style.separator].intercalate rest)) there.texts =
      dir.under (pieces style rest) := by
  obtain ⟨root, hroot, rfl⟩ := Option.map_eq_some_iff.mp hdir
  rw [resolve_avatars, Roots.texts]
  dsimp only
  rw [hroot]
  exact joinAll_pieces hp root _ _ hrest

theorem child_dir_parts {roots : Roots style} (hplace : place = .fileRecv ∨ place = .avatars)
    (hdir : roots.dir place = some dir) : dir.parts ≠ [] := by
  cases hplace with
  | inl heq =>
    rw [heq] at hdir
    obtain ⟨root, -, rfl⟩ := Option.map_eq_some_iff.mp hdir
    exact Absolute.child_parts_ne_nil _ _
  | inr heq =>
    rw [heq] at hdir
    obtain ⟨root, -, rfl⟩ := Option.map_eq_some_iff.mp hdir
    exact Absolute.child_parts_ne_nil _ _

/-- What the claim comes to for a path and two sets of roots. -/
def Good {style : Style} (here there : Roots style) (path : Absolute style) : Prop :=
  StaysHere here path ∧ ∀ place dir dir', here.place path = some (place, dir) →
    there.dir place = some dir' → Moves here there path place dir dir'

/-- A received file or an avatar: it is rebuilt from its names wherever its place is known. -/
theorem resolves_child (hplace : place = .fileRecv ∨ place = .avatars)
    (hfirst : here.place path = some (place, dir)) (hheld : held here path place = some dir)
    (hrebuilt : ∀ (roots : Roots style) (dir' : Absolute style), roots.dir place = some dir' →
      resolvePath p (relativizePath p path.text here.texts) roots.texts =
        dir'.under (pieces style (dir.below path))) :
    Resolves p here there path ↔ Good here there path := by
  obtain ⟨hdir, hin⟩ := held_eq_some.mp hheld
  have hne := Absolute.below_ne_nil hin
  have hback := rebuilt_iff (child_dir_parts hplace hdir) hin
  rw [← hrebuilt here dir hdir] at hback
  have hmoves : ∀ dir', Moves here there path place dir dir' ↔ ∀ part ∈ dir.below path, 92 ∉ part := by
    intro dir'
    cases hplace with
    | inl heq =>
      rw [heq]
      rfl
    | inr heq =>
      rw [heq]
      rfl
  have hsame : ∀ place' dir₁, here.place path = some (place', dir₁) → place' = place ∧ dir₁ = dir := by
    intro place' dir₁ hother
    rw [hfirst, Option.some.injEq, Prod.mk.injEq] at hother
    exact ⟨hother.1.symm, hother.2.symm⟩
  constructor
  · intro hresolves
    refine ⟨?_, ?_⟩
    · intro place' dir₁ hother _
      rw [(hsame place' dir₁ hother).2]
      exact hback.mp hresolves.back
    · intro place' dir₁ dir' hother hthere
      obtain ⟨rfl, rfl⟩ := hsame place' dir₁ hother
      rw [hmoves]
      exact (hback.mp hresolves.back).1
  · rintro ⟨hstays, -⟩
    obtain ⟨hnames, htext⟩ := hstays place dir hfirst hplace
    refine ⟨hback.mpr ⟨hnames, htext⟩, ?_⟩
    intro place' dir₁ dir' hother hthere
    obtain ⟨rfl, rfl⟩ := hsame place' dir₁ hother
    rw [hrebuilt there dir' hthere, pieces_clean (dir₁.below_ok path) hne hnames]

/-! ## Downloads -/

theorem named_iff : here.named path place = true ↔ style = .posix ∧
    (∃ base, here.base place = some base ∧ base.parts ≠ []) ∧
      ∃ dir, here.dir place = some dir ∧ dir.contains path = true := by
  rw [Roots.named, Bool.and_eq_true, Bool.and_eq_true, decide_eq_true_eq, Option.any_eq_true,
    Option.any_eq_true, and_assoc]
  simp only [decide_eq_true_eq]

/-- No location is spelled with two slashes. -/
theorem under_ne {dir : Absolute .posix} {rest : List Units} (hne : rest ≠ [])
    (hrest : ∀ part ∈ rest, Style.posix.partOk part = true) (more : Units) :
    dir.under rest ≠ 47 :: 47 :: more := by
  intro hsame
  have hok : ∀ part ∈ dir.parts ++ rest, Style.posix.partOk part = true := by
    intro part hpart
    cases List.mem_append.mp hpart with
    | inl hdir => exact dir.parts_ok part hdir
    | inr hmem => exact hrest part hmem
  have hparts : dir.parts ++ rest ≠ [] := List.append_ne_nil_of_right_ne_nil _ hne
  rw [Absolute.under, Style.join, if_neg hparts, Absolute.posix_volume] at hsame
  have hrest' : [47].intercalate (dir.parts ++ rest) = [].append (47 :: more) :=
    (List.cons.inj hsame).2
  have hsplit := congrArg (List.splitOn 47) hrest'
  rw [List.splitOn_intercalate 47 (fun part hpart => Style.no_slash (hok part hpart)) hparts] at hsplit
  change _ = List.splitOn 47 ([] ++ 47 :: more) at hsplit
  rw [List.splitOn_append_cons_self] at hsplit
  have hempty : ([] : Units) ∈ dir.parts ++ rest := by
    rw [hsplit]
    exact List.mem_cons_self
  exact Style.partOk_ne_nil (hok [] hempty) rfl

/-- A location on POSIX. -/
def Location (target : Units) : Prop :=
  ∃ (dir : Absolute .posix) (rest : List Units), rest ≠ [] ∧
    (∀ part ∈ rest, Style.posix.partOk part = true) ∧ target = dir.under rest

theorem Location.ne {target : Units} (h : Location target) (more : Units) : target ≠ 47 :: 47 :: more := by
  obtain ⟨dir, rest, hne, hrest, rfl⟩ := h
  exact under_ne hne hrest more

theorem Location.ne_token {target : Units} (h : Location target) {token : Units}
    (htoken : token.head? = some 123) (tail : Units) : token ++ tail ≠ target := by
  obtain ⟨dir, rest, hne, hrest, rfl⟩ := h
  intro hsame
  rw [Absolute.under, Style.join, if_neg (List.append_ne_nil_of_right_ne_nil _ hne),
    Absolute.posix_volume] at hsame
  cases token with
  | nil => contradiction
  | cons u token =>
    rw [List.head?_cons, Option.some.injEq] at htoken
    have hfirst := congrArg List.head? hsame
    change some u = some 47 at hfirst
    rw [htoken] at hfirst
    exact absurd hfirst (by decide)

section
variable (p : PathPackage) (there : Roots .posix) {rest : List Units} {target : Units}

theorem rebuilt_downloads (hne : rest ≠ []) (htarget : Location target) :
    resolvePath p (downloadsToken ++ [47].intercalate rest) there.texts = target ↔
      ∃ base last, there.base .downloads = some base ∧ base.parts ≠ [] ∧
        there.dir .downloads = some last ∧ last.under rest = target := by
  rw [resolve_downloads, Roots.texts, Roots.base, Roots.dir]
  cases there.documents with
  | none =>
    constructor
    · exact fun hsame => absurd hsame (htarget.ne_token (by decide) _)
    · rintro ⟨_, _, hnone, -⟩
      contradiction
  | some base =>
    change base.text ++ units "/Downloads/" ++ [47].intercalate rest = target ↔ _
    by_cases hparts : base.parts = []
    · constructor
      · intro hsame
        rw [Absolute.posix_text, hparts] at hsame
        exact absurd hsame.symm (htarget.ne _)
      · rintro ⟨_, _, hbase, hother, -⟩
        rw [← Option.some.inj hbase] at hother
        contradiction
    · have htext : (base.child (units "Downloads") (Roots.downloads_ok .posix)).under rest =
          base.text ++ units "/Downloads/" ++ [47].intercalate rest := by
        rw [Absolute.under_child, Absolute.under_eq hparts (List.cons_ne_nil _ _),
          List.intercalate_cons_of_ne_nil hne]
        simp only [List.append_assoc]
        rfl
      rw [← htext]
      constructor
      · exact fun hsame => ⟨base, _, rfl, hparts, rfl, hsame⟩
      · rintro ⟨_, last, -, -, hlast, hsame⟩
        rw [Option.map_some, Option.some.injEq] at hlast
        rw [hlast]
        exact hsame

theorem rebuilt_userDownloads (hne : rest ≠ []) (htarget : Location target) :
    resolvePath p (userDownloadsToken ++ [47].intercalate rest) there.texts = target ↔
      ∃ base last, there.base .userDownloads = some base ∧ base.parts ≠ [] ∧
        there.dir .userDownloads = some last ∧ last.under rest = target := by
  rw [resolve_userDownloads, Roots.texts, Roots.base, Roots.dir]
  cases there.userDownloads with
  | none =>
    constructor
    · exact fun hsame => absurd hsame (htarget.ne_token (by decide) _)
    · rintro ⟨_, _, hnone, -⟩
      contradiction
  | some base =>
    change base.text ++ units "/" ++ [47].intercalate rest = target ↔ _
    by_cases hparts : base.parts = []
    · constructor
      · intro hsame
        rw [Absolute.posix_text, hparts] at hsame
        exact absurd hsame.symm (htarget.ne _)
      · rintro ⟨_, _, hbase, hother, -⟩
        rw [← Option.some.inj hbase] at hother
        contradiction
    · have htext : base.under rest = base.text ++ units "/" ++ [47].intercalate rest := by
        rw [Absolute.under_eq hparts hne, List.append_assoc]
        rfl
      rw [← htext]
      constructor
      · exact fun hsame => ⟨base, _, rfl, hparts, rfl, hsame⟩
      · rintro ⟨_, last, -, -, hlast, hsame⟩
        rw [Option.some.inj hlast]
        exact hsame

end

/-! ## Main result -/

/-- A path that is stored with its own text comes back. -/
theorem start_append {start s tail : Units} (h : tailAfter start s = some tail) : start ++ tail = s := by
  rw [tailAfter] at h
  split_ifs at h with hfront
  obtain ⟨rest, rfl⟩ := List.isPrefixOf_iff_prefix.mp hfront
  rw [List.drop_left] at h
  rw [Option.some.inj h]

theorem storedTail_downloads_back {tail : Units} (h : storedTail here path .downloads = some tail) :
    resolvePath p (downloadsToken ++ tail) here.texts = path.text := by
  rw [← tailAfter_downloads] at h
  rw [resolve_downloads, Roots.texts]
  cases hroot : here.documents with
  | none =>
    rw [hroot] at h
    contradiction
  | some root =>
    rw [hroot] at h
    exact start_append h

theorem storedTail_userDownloads_back {tail : Units}
    (h : storedTail here path .userDownloads = some tail) :
    resolvePath p (userDownloadsToken ++ tail) here.texts = path.text := by
  rw [← tailAfter_userDownloads] at h
  rw [resolve_userDownloads, Roots.texts]
  cases hroot : here.userDownloads with
  | none =>
    rw [hroot] at h
    contradiction
  | some root =>
    rw [hroot] at h
    exact start_append h

theorem storedTail_named (hplace : place = .downloads ∨ place = .userDownloads)
    (hnamed : here.named path place = true) : ∃ first, here.dir place = some first ∧
      first.contains path = true ∧
      storedTail here path place = some ([47].intercalate (first.below path)) := by
  obtain ⟨hstyle, -, first, hdir, hin⟩ := named_iff.mp hnamed
  refine ⟨first, hdir, hin, ?_⟩
  cases hplace with
  | inl heq =>
    rw [heq] at hnamed hdir ⊢
    rw [storedTail, if_pos hnamed, hdir]
    rfl
  | inr heq =>
    rw [heq] at hnamed hdir ⊢
    rw [storedTail, if_pos hnamed, hdir]
    rfl

/-- A download moves as its token does. -/
theorem moves_named {token : Place} {first dir' : Absolute style}
    (hplace : place = .downloads ∨ place = .userDownloads)
    (htoken : [Place.downloads, .userDownloads].find? (here.named path) = some token)
    (hfirst : here.dir token = some first) :
    Moves here there path place dir dir' ↔ ∃ base last, there.base token = some base ∧
      base.parts ≠ [] ∧ there.dir token = some last ∧
      last.under (first.below path) = dir'.under (dir.below path) := by
  have hcases : Moves here there path place dir dir' ↔ ∃ base first last, there.base token = some base ∧
      base.parts ≠ [] ∧ here.dir token = some first ∧ there.dir token = some last ∧
      last.under (first.below path) = dir'.under (dir.below path) := by
    cases hplace with
    | inl heq =>
      rw [heq, Moves, htoken]
    | inr heq =>
      rw [heq, Moves, htoken]
  rw [hcases]
  constructor
  · rintro ⟨base, first', last, hbase, hparts, hfirst', hlast, hsame⟩
    rw [hfirst, Option.some.injEq] at hfirst'
    exact ⟨base, last, hbase, hparts, hlast, hfirst' ▸ hsame⟩
  · rintro ⟨base, last, hbase, hparts, hlast, hsame⟩
    exact ⟨base, first, last, hbase, hparts, hfirst, hlast, hsame⟩

/-- A path in no place of received files or avatars. -/
theorem resolves_loose (hfileRecv : held here path .fileRecv = none)
    (havatars : held here path .avatars = none)
    (hback : resolvePath p (relativizePath p path.text here.texts) here.texts = path.text)
    (hmoved : ∀ place dir dir', place = .downloads ∨ place = .userDownloads →
      here.place path = some (place, dir) →
      (resolvePath p (relativizePath p path.text here.texts) there.texts = dir'.under (dir.below path) ↔
        Moves here there path place dir dir')) :
    Resolves p here there path ↔ Good here there path := by
  have hplaces : ∀ place dir, here.place path = some (place, dir) →
      place = .downloads ∨ place = .userDownloads := by
    intro place dir hplace
    rw [place_eq, hfileRecv, havatars] at hplace
    dsimp only at hplace
    cases hdownloads : held here path .downloads with
    | some found =>
      rw [hdownloads, Option.some.injEq, Prod.mk.injEq] at hplace
      exact Or.inl hplace.1.symm
    | none =>
      rw [hdownloads] at hplace
      obtain ⟨found, -, heq⟩ := Option.map_eq_some_iff.mp hplace
      rw [Prod.mk.injEq] at heq
      exact Or.inr heq.1.symm
  constructor
  · intro hresolves
    refine ⟨?_, ?_⟩
    · intro place dir hplace hchild
      cases hplaces place dir hplace with
      | inl heq =>
        rw [heq] at hchild
        exact absurd hchild (by decide)
      | inr heq =>
        rw [heq] at hchild
        exact absurd hchild (by decide)
    · intro place dir dir' hplace hthere
      exact (hmoved place dir dir' (hplaces place dir hplace) hplace).mp
        (hresolves.moved place dir dir' hplace hthere)
  · rintro ⟨-, hmoves⟩
    refine ⟨hback, ?_⟩
    intro place dir dir' hplace hthere
    exact (hmoved place dir dir' (hplaces place dir hplace) hplace).mpr
      (hmoves place dir dir' hplace hthere)

theorem location_under {style : Style} {dir dir' path : Absolute style} (hstyle : style = .posix)
    (hin : dir.contains path = true) : Location (dir'.under (dir.below path)) := by
  subst hstyle
  exact ⟨dir', dir.below path, Absolute.below_ne_nil hin, dir.below_ok path, rfl⟩

end

/-- Stored paths resolve to the same file, on the same device and on another one: exactly when no
    name of a received file or avatar has a backslash and the other directories are found by text. -/
theorem paths_resolve {style : Style} (p : PathPackage) (here there : Roots style)
    (path : Absolute style) (hp : p.Behaves style) :
    Resolves p here there path ↔ Good here there path := by
  have hstored := relativizePath_eq hp here path
  have hplace := place_eq here path
  rw [storedTail_held (Or.inl rfl), storedTail_held (Or.inr rfl)] at hstored
  cases hfileRecv : held here path .fileRecv with
  | some dir =>
    rw [hfileRecv] at hstored hplace
    refine resolves_child (Or.inl rfl) hplace hfileRecv ?_
    intro roots dir' hdir
    rw [hstored]
    exact resolve_fileRecv_dir hp hdir (dir.below_ok path)
  | none =>
    rw [hfileRecv] at hstored hplace
    cases havatars : held here path .avatars with
    | some dir =>
      rw [havatars] at hstored hplace
      refine resolves_child (Or.inr rfl) hplace havatars ?_
      intro roots dir' hdir
      rw [hstored]
      exact resolve_avatars_dir hp hdir (dir.below_ok path)
    | none =>
      rw [havatars] at hstored hplace
      dsimp only [Option.map_none] at hstored
      have hheld : ∀ place dir, here.place path = some (place, dir) → dir.contains path = true := by
        intro place dir hfound
        obtain ⟨candidate, hmem⟩ := List.exists_of_findSome?_eq_some hfound
        obtain ⟨found, hfilter, heq⟩ := Option.map_eq_some_iff.mp hmem.2
        rw [Prod.mk.injEq] at heq
        rw [← heq.2]
        exact (Option.filter_eq_some_iff.mp hfilter).2
      cases hdownloads : here.named path .downloads with
      | true =>
        obtain ⟨hstyle, -⟩ := named_iff.mp hdownloads
        subst hstyle
        obtain ⟨first, hfirst, hin, htail⟩ := storedTail_named (Or.inl rfl) hdownloads
        have htoken : [Place.downloads, .userDownloads].find? (here.named path) = some .downloads := by
          rw [List.find?_cons_of_pos hdownloads]
        rw [htail] at hstored
        apply resolves_loose hfileRecv havatars
        · rw [hstored]
          exact storedTail_downloads_back htail
        · intro place dir dir' hkind hfound
          rw [hstored, rebuilt_downloads p there (Absolute.below_ne_nil hin)
            (location_under rfl (hheld place dir hfound)), moves_named hkind htoken hfirst]
      | false =>
        have hnot : storedTail here path .downloads = none := by
          rw [storedTail, hdownloads]
          rfl
        rw [hnot] at hstored
        dsimp only at hstored
        have hskip : ¬ here.named path .downloads = true := by
          rw [hdownloads]
          exact Bool.false_ne_true
        cases huser : here.named path .userDownloads with
        | true =>
          obtain ⟨hstyle, -⟩ := named_iff.mp huser
          subst hstyle
          obtain ⟨first, hfirst, hin, htail⟩ := storedTail_named (Or.inr rfl) huser
          have htoken : [Place.downloads, .userDownloads].find? (here.named path) = some .userDownloads := by
            rw [List.find?_cons_of_neg hskip, List.find?_cons_of_pos huser]
          rw [htail] at hstored
          apply resolves_loose hfileRecv havatars
          · rw [hstored]
            exact storedTail_userDownloads_back htail
          · intro place dir dir' hkind hfound
            rw [hstored, rebuilt_userDownloads p there (Absolute.below_ne_nil hin)
              (location_under rfl (hheld place dir hfound)), moves_named hkind htoken hfirst]
        | false =>
          have hnone : storedTail here path .userDownloads = none := by
            rw [storedTail, huser]
            rfl
          have htoken : [Place.downloads, .userDownloads].find? (here.named path) = none := by
            rw [List.find?_cons_of_neg hskip, List.find?_cons_of_neg (by rw [huser]; exact Bool.false_ne_true)]
            rfl
          rw [hnone] at hstored
          dsimp only at hstored
          apply resolves_loose hfileRecv havatars
          · rw [hstored, resolve_text]
          · intro place dir dir' hkind hfound
            rw [hstored, resolve_text]
            cases hkind with
            | inl heq => rw [heq, Moves, htoken]
            | inr heq => rw [heq, Moves, htoken]

/-! ## Paths on POSIX -/

def partsOf (s : Units) : List Units := (s.splitOn 47).filter (· ≠ [])

def posixPackage : PathPackage where
  isWithin root path :=
    (partsOf root).isPrefixOf (partsOf path) && (partsOf root).length < (partsOf path).length
  relative path start := [47].intercalate ((partsOf path).drop (partsOf start).length)
  joinAll
    | [] => []
    | first :: rest => Style.posix.join [47] (partsOf first ++ rest.filter (· ≠ []))

theorem partsOf_text (path : Absolute .posix) : partsOf path.text = path.parts := by
  have hkeep : path.parts.filter (· ≠ []) = path.parts := by
    rw [List.filter_eq_self]
    exact fun part hpart => decide_eq_true (Style.partOk_ne_nil (path.parts_ok part hpart))
  rw [partsOf, Absolute.posix_text]
  by_cases hnone : path.parts = []
  · rw [hnone]
    rfl
  · have hsplit := @List.splitOn_append_cons_self UInt16 _ _ 47 [] ([47].intercalate path.parts)
    rw [List.splitOn_intercalate 47 (fun part hpart => Style.no_slash (path.parts_ok part hpart)) hnone]
      at hsplit
    rw [List.nil_append] at hsplit
    rw [hsplit, List.filter_append, hkeep]
    rfl

theorem posixPackage_behaves : posixPackage.Behaves .posix where
  isWithin dir path := by
    change ((partsOf dir.text).isPrefixOf (partsOf path.text) && _) = _
    rw [partsOf_text, partsOf_text, Bool.eq_iff_iff, Bool.and_eq_true, List.isPrefixOf_iff_prefix,
      decide_eq_true_eq, Absolute.posix_contains, Absolute.below, Ne, List.drop_eq_nil_iff, Nat.not_le]
    constructor
    · rintro ⟨hfront, hlt⟩
      obtain ⟨rest, hrest⟩ := hfront
      refine ⟨hlt, ?_⟩
      rw [← hrest, List.drop_left]
    · rintro ⟨hlt, heq⟩
      exact ⟨⟨_, heq.symm⟩, hlt⟩
  relative dir path _ := by
    change [47].intercalate ((partsOf path.text).drop (partsOf dir.text).length) = _
    rw [partsOf_text, partsOf_text]
    rfl
  joinAll dir parts _ := by
    change Style.posix.join [47] (partsOf dir.text ++ parts.filter (· ≠ [])) = _
    rw [partsOf_text, Absolute.under, Absolute.posix_volume]

/-- The path with these names. -/
def posixPath (parts : List Units) (h : parts.all Style.posix.partOk = true) : Absolute .posix where
  volume := [47]
  parts := parts
  volume_ok := rfl
  parts_ok := List.all_eq_true.mp h

def supportRoots (name : String) (h : [units name].all Style.posix.partOk = true) : Roots .posix where
  appSupport := some (posixPath [units name] h)
  documents := none
  userDownloads := none

/-- A received photo on two devices. -/
theorem photo_resolves :
    Resolves posixPackage (supportRoots "app" (by decide)) (supportRoots "home" (by decide))
        (posixPath [units "app", units "file_recv", units "p.jpg"] (by decide)) ↔
      Good (supportRoots "app" (by decide)) (supportRoots "home" (by decide))
        (posixPath [units "app", units "file_recv", units "p.jpg"] (by decide)) :=
  paths_resolve posixPackage _ _ _ posixPackage_behaves

/-- A received file with a backslash in its name comes back in a directory that does not exist. -/
theorem backslash_lost : ¬ ∀ (style : Style) (p : PathPackage) (here there : Roots style)
    (path : Absolute style), p.Behaves style → Resolves p here there path := by
  intro hall
  have hback := (hall .posix posixPackage (supportRoots "app" (by decide))
    (supportRoots "app" (by decide))
    (posixPath [units "app", units "file_recv", units "a\\b"] (by decide))
    posixPackage_behaves).back
  exact absurd hback (by decide)

end Tim2Tox.StoredPaths
