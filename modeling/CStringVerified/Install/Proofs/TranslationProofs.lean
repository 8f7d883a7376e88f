import CStringVerified.Install.Proofs.FrameProofs

/-!
# What the translations make of an item

A translation that accepts an item replaces names in it as said here. A composed name is cut where
its buffer ends.
-/

namespace CStringVerified.Install

open Foundation Foundation.Run

/-- What a buffer of `INSTALL_MAX_PATHLEN` characters holds of a composed name. -/
def cutPath (path : Text) : Text := path.take (installMaxPathlen - 1)

theorem cutPath_of_lt {path : Text} (h : path.length < installMaxPathlen) : cutPath path = path :=
  List.take_of_length_le (Nat.le_sub_one_of_lt h)

theorem snprintf_path {text out : Text} (h : snprintf installMaxPathlen text = some out) :
    out = cutPath text := (snprintf_some h).2

/-- A path, below the fake root if there is one. -/
def rootedPath (root : Option Text) (path : Text) : Text :=
  match root with
  | some root => joinPath root path
  | none => path

/-- The directory of a translated item: it is composed only if there is a fake root. -/
def translatedDir (root : Option Text) (dir : Text) : Text :=
  match root with
  | some root => cutPath (joinPath root dir)
  | none => dir

variable {item t : Item} {w w' : World}

/-- A text that `snprintf` can format is cut, and the translation goes on. -/
theorem formatted_apply {α : Type} (text : Text) (failed : Sys α) (next : Text → Sys α) (w : World) :
    (match snprintf installMaxPathlen text with
      | none => failed
      | some name => next name) w =
      if text.length ≤ intMax then next (cutPath text) w else failed w := by
  by_cases hfmt : text.length ≤ intMax
  · have hsome : snprintf installMaxPathlen text = some (cutPath text) := if_pos hfmt
    rw [hsome, if_pos hfmt]
  · have hnone : snprintf installMaxPathlen text = none := if_neg hfmt
    rw [hnone, if_neg hfmt]

/-- A translation that ends by composing a name has cut the name. -/
theorem formatted_ok {text : Text} {message : String} {next : Text → Item}
    (h : (match snprintf installMaxPathlen text with
      | none => tranError message
      | some name => pure (.ok (next name))) w = (.ok (.ok t), w')) :
    text.length ≤ intMax ∧ t = next (cutPath text) ∧ w' = w := by
  have hcut := (formatted_apply text (tranError message) (fun name => pure (.ok (next name))) w).symm.trans h
  split at hcut
  · rename_i hlen
    cases hcut
    exact ⟨hlen, rfl, rfl⟩
  · cases hcut

theorem ntranCopy_ok (h : ntranCopy item w = (.ok (.ok t), w')) :
    ∃ src dir srcName dstName base w₁, item.src = some src ∧ item.dir = some dir ∧
      realName src w = (.ok (some srcName), w₁) ∧
      realName (item.dst.getD src) w₁ = (.ok (some dstName), w') ∧
      baseName dstName = some base ∧
      t = { item with
        src := some srcName
        dst := some (cutPath (rootedPath w.globals.fakeRoot (joinPath dir base))) } := by
  unfold ntranCopy at h
  cases hsrc : item.src with
  | none => rw [hsrc] at h; cases h
  | some src =>
    cases hdir : item.dir with
    | none => rw [hsrc, hdir] at h; cases h
    | some dir =>
      rw [hsrc, hdir] at h
      obtain ⟨srcName, w₁, hs, h⟩ := bind_eq_ok h
      cases srcName with
      | none => cases h
      | some srcName =>
        obtain ⟨dstName, w₂, hd, h⟩ := bind_eq_ok h
        cases dstName with
        | none => cases h
        | some dstName =>
          cases hbase : baseName dstName with
          | none => simp only [hbase] at h; cases h
          | some base =>
            have hglobals : w₂.globals = w.globals :=
              (Frame.of_run (keeps_realName keeps_libname _) hd).globals.trans
                (Frame.of_run (keeps_realName keeps_libname _) hs).globals
            simp only [hbase, get_bind_apply, hglobals] at h
            refine ⟨src, dir, srcName, dstName, base, w₁, rfl, rfl, hs, ?_⟩
            cases hroot : w.globals.fakeRoot with
            | none =>
              simp only [hroot] at h
              obtain ⟨-, rfl, rfl⟩ := formatted_ok h
              exact ⟨hd, hbase, rfl⟩
            | some root =>
              simp only [hroot] at h
              obtain ⟨-, rfl, rfl⟩ := formatted_ok h
              exact ⟨hd, hbase, rfl⟩

theorem ntranCopyExec_ok (h : ntranCopyExec item w = (.ok (.ok t), w')) :
    ∃ t₀ src dst, ntranCopy item w = (.ok (.ok t₀), w') ∧ t₀.src = some src ∧ t₀.dst = some dst ∧
      t = { t₀ with
        src := some (cutPath (src ++ w.globals.execSuffix))
        dst := some (cutPath (dst ++ w.globals.execSuffix)) } := by
  obtain ⟨r, w₁, ht₀, h⟩ := bind_eq_ok h
  cases r with
  | error message => cases h
  | ok t₀ =>
    obtain ⟨src, dir, srcName, dstName, base, -, -, -, -, -, -, rfl⟩ := ntranCopy_ok ht₀
    have hglobals : w₁.globals = w.globals := (Frame.of_run (keeps_ntranCopy keeps_libname item) ht₀).globals
    simp only [deref, pure_bind_apply, get_bind_apply, hglobals] at h
    cases hsrc : snprintf installMaxPathlen (srcName ++ w.globals.execSuffix) with
    | none => rw [hsrc] at h; cases h
    | some srcName' =>
      rw [hsrc] at h
      obtain ⟨-, rfl, rfl⟩ := formatted_ok h
      exact ⟨_, _, _, ht₀, rfl, rfl, by rw [snprintf_path hsrc]⟩

theorem rootedDir_run (dir : Text) (w : World) :
    rootedDir dir w = (.ok (if ∀ r, w.globals.fakeRoot = some r → (joinPath r dir).length ≤ intMax then
      some (translatedDir w.globals.fakeRoot dir) else none), w) := by
  unfold rootedDir
  rw [get_bind_apply]
  cases w.globals.fakeRoot with
  | none => simp [translatedDir]
  | some root => simp [snprintf, translatedDir, cutPath]

theorem rootedDir_ok {dir dirName : Text} (h : rootedDir dir w = (.ok (some dirName), w')) :
    w' = w ∧ dirName = translatedDir w.globals.fakeRoot dir := by
  rw [rootedDir_run] at h
  split at h
  · cases h
    exact ⟨rfl, rfl⟩
  · cases h

theorem linkPrefix_ok {next : Text → Text → Text → Sys (Except String Item)}
    (h : linkPrefix item next w = (.ok (.ok t), w')) :
    ∃ src dir dst, item.src = some src ∧ item.dir = some dir ∧ item.dst = some dst ∧
      next src dst (translatedDir w.globals.fakeRoot dir) w = (.ok (.ok t), w') := by
  unfold linkPrefix at h
  cases hsrc : item.src with
  | none => rw [hsrc] at h; cases h
  | some src =>
    cases hdir : item.dir with
    | none => rw [hsrc, hdir] at h; cases h
    | some dir =>
      cases hdst : item.dst with
      | none => rw [hsrc, hdir, hdst] at h; cases h
      | some dst =>
        rw [hsrc, hdir, hdst] at h
        obtain ⟨dirName, w₁, hd, h⟩ := bind_eq_ok h
        cases dirName with
        | none => cases h
        | some dirName =>
          obtain ⟨rfl, rfl⟩ := rootedDir_ok hd
          exact ⟨src, dir, dst, rfl, rfl, rfl, h⟩

theorem ntranLink_ok (h : ntranLink item w = (.ok (.ok t), w')) :
    ∃ src dir dst, item.src = some src ∧ item.dir = some dir ∧ item.dst = some dst ∧
      t = { item with dir := some (translatedDir w.globals.fakeRoot dir) } := by
  obtain ⟨src, dir, dst, hsrc, hdir, hdst, h⟩ := linkPrefix_ok h
  cases h
  exact ⟨src, dir, dst, hsrc, hdir, hdst, rfl⟩

/-- The source of a library link: the base name of a library that is read, or the name itself. -/
def LiblinkSource (w : World) (src srcName : Text) (w' : World) : Prop :=
  if strEnds src ['.', 'v', 'l', 'b'] then
    ∃ srcTmp, libname src w = (.ok (some srcTmp), w') ∧ baseName srcTmp = some srcName
  else srcName = src ∧ w' = w

theorem LiblinkSource.globals {src srcName : Text} (h : LiblinkSource w src srcName w') :
    w'.globals = w.globals := by
  unfold LiblinkSource at h
  split at h
  · obtain ⟨srcTmp, hl, -⟩ := h
    exact (Frame.of_run (keeps_libname src) hl).globals
  · rw [h.2]

theorem liblinkSource_ok {src : Text} {next : Text → Sys (Except String Item)}
    (h : liblinkSource src next w = (.ok (.ok t), w')) :
    ∃ srcName w₁, LiblinkSource w src srcName w₁ ∧ next srcName w₁ = (.ok (.ok t), w') := by
  unfold liblinkSource at h
  unfold LiblinkSource
  split at h
  · rename_i hlib
    simp only [hlib, if_true]
    obtain ⟨srcTmp, w₁, hl, h⟩ := bind_eq_ok h
    cases srcTmp with
    | none => cases h
    | some srcTmp =>
      cases hbase : baseName srcTmp with
      | none => simp only [hbase] at h; cases h
      | some srcName =>
        simp only [hbase] at h
        exact ⟨srcName, w₁, ⟨srcTmp, hl, hbase⟩, h⟩
  · rename_i hlib
    simp only [hlib, Bool.false_eq_true, if_false]
    exact ⟨src, w, ⟨rfl, rfl⟩, h⟩

theorem ntranLiblink_named (h : ntranLiblink item w = (.ok (.ok t), w')) :
    ∃ src dir dst srcName base, item.src = some src ∧ item.dir = some dir ∧ item.dst = some dst ∧
      LiblinkSource w src srcName w' ∧ baseName dst = some base ∧
      t = { item with
        src := some srcName
        dst := some (cutPath (base ++ w.globals.dlibSuffix))
        dir := some (translatedDir w.globals.fakeRoot dir) } := by
  obtain ⟨src, dir, dst, hsrc, hdir, hdst, h⟩ := linkPrefix_ok h
  obtain ⟨srcName, w₁, hname, h⟩ := liblinkSource_ok h
  cases hbase : baseName dst with
  | none => rw [hbase] at h; cases h
  | some base =>
    simp only [hbase, get_bind_apply, hname.globals] at h
    obtain ⟨-, rfl, rfl⟩ := formatted_ok h
    exact ⟨src, dir, dst, srcName, base, hsrc, hdir, hdst, hname, hbase, rfl⟩

theorem ntranLiblink_ok (h : ntranLiblink item w = (.ok (.ok t), w')) :
    ∃ src dir dst srcName base, item.src = some src ∧ item.dir = some dir ∧ item.dst = some dst ∧
      baseName dst = some base ∧
      t = { item with
        src := some srcName
        dst := some (cutPath (base ++ w.globals.dlibSuffix))
        dir := some (translatedDir w.globals.fakeRoot dir) } := by
  obtain ⟨src, dir, dst, srcName, base, hsrc, hdir, hdst, -, hrest⟩ := ntranLiblink_named h
  exact ⟨src, dir, dst, srcName, base, hsrc, hdir, hdst, hrest⟩

theorem ntranMkdir_ok (h : ntranMkdir item w = (.ok (.ok t), w')) :
    (∀ root, w.globals.fakeRoot = some root → item.dir ≠ none) ∧
      t = { item with
        dst := item.dst <|> item.src
        dir := item.dir.map (translatedDir w.globals.fakeRoot) } := by
  unfold ntranMkdir at h
  rw [get_bind_apply] at h
  cases hroot : w.globals.fakeRoot with
  | none =>
    rw [hroot] at h
    cases h
    refine ⟨(fun _ h => by cases h), ?_⟩
    have hid : item.dir.map (translatedDir none) = item.dir := Option.map_id_fun' ▸ rfl
    rw [hid]
  | some root =>
    rw [hroot] at h
    obtain ⟨dir, w₁, hdir, hnext⟩ := bind_eq_ok h
    obtain ⟨hitem, rfl⟩ := deref_ok hdir
    obtain ⟨dirName, w₂, hd, hlast⟩ := bind_eq_ok hnext
    cases dirName with
    | none => cases hlast
    | some dirName =>
      obtain ⟨rfl, rfl⟩ := rootedDir_ok hd
      cases hlast
      dsimp only at hitem
      rw [hitem, hroot]
      exact ⟨(fun _ _ h => by cases h), rfl⟩

theorem ntranChk_ok {ntran : Item → Sys (Except String Item)}
    (h : ntranChk ntran item w = (.ok (.ok t), w')) :
    ∃ t₀ dir dst, ntran item w = (.ok (.ok t₀), w') ∧ t₀.dir = some dir ∧ t₀.dst = some dst ∧
      t = { t₀ with dst := some (cutPath (joinPath dir dst)) } := by
  obtain ⟨r, w₁, ht₀, h⟩ := bind_eq_ok h
  cases r with
  | error message => cases h
  | ok t₀ =>
    obtain ⟨dir, w₂, hdir, hnext⟩ := bind_eq_ok h
    obtain ⟨htdir, rfl⟩ := deref_ok hdir
    obtain ⟨dst, w₃, hdst, hlast⟩ := bind_eq_ok hnext
    obtain ⟨htdst, rfl⟩ := deref_ok hdst
    obtain ⟨-, rfl, rfl⟩ := formatted_ok hlast
    exact ⟨t₀, dir, dst, ht₀, htdir, htdst, rfl⟩

end CStringVerified.Install
