import CStringVerified.Foundation.Trees
import CStringVerified.Install.Proofs.InstallProofs
import CStringVerified.Install.Proofs.OnePathProofs

/-!
# Items for which there is room

An item is fresh where nothing is in its way. Installing it then adds one file, at the place where
`deinstall` looks for it, and leaves the process where it is.
-/

namespace CStringVerified.Install

open Foundation Foundation.Run

/-! ## Fresh items -/

/-- The pathname leads to a place, and nothing is there. -/
def Vacant (w : World) (path : Text) : Prop :=
  ∃ l, w.os.fs.find (Foundation.route w.os.cwd path) = .ok (l, none)

/-- There is neither a file nor a temporary file. -/
structure FreshFile (w : World) (dst : Text) : Prop where
  place : Vacant w dst
  tmp : Vacant w (tmpName dst)

/-- There is no link. Its name is relative to its directory, and both fit together. -/
structure FreshLink (w : World) (dir dst : Text) : Prop where
  place : Vacant w (joinPath dir dst)
  relative : isAbsolute dst = false
  fits : (joinPath dir dst).length < installMaxPathlen

/-- There is no directory, but the one it lies in. -/
structure FreshDirectory (w : World) (dir : Text) : Prop where
  place : Vacant w dir
  fits : dir.length < installMaxPathlen
  slash : FitsWithSlash dir

/-- Nothing is in the way of the translated item. -/
def Room (w : World) (op : InstallOp) (t : Item) : Prop :=
  match wantedType op with
  | .directory => ∀ dir, t.dir = some dir → FreshDirectory w dir
  | .symlink => ∀ dir dst, t.dir = some dir → t.dst = some dst → FreshLink w dir dst
  | _ => ∀ dst, t.dst = some dst → FreshFile w dst

/-- Nothing is in the way of an item. -/
def Fresh (w : World) (item : Item) : Prop :=
  ∀ t, translated installOpers w item = some t → Room w item.op t

/-- The file that was made for a translated item, in a directory. -/
def Created (w : World) (op : InstallOp) (t : Item) (l : Loc) (n : Node) : Prop :=
  match wantedType op with
  | .directory => ∃ uid gid d, wantedIds w.env t = some (uid, gid) ∧ ¬(uid = nullId ∨ gid = nullId) ∧
      w.os.fs.node l.dropLast = some d ∧ n = handedOver w.env uid gid (w.env.newDir t.perm d)
  | .symlink => fileTypeOf n.stMode = some .symlink
  | _ => ∃ uid gid d src s, wantedIds w.env t = some (uid, gid) ∧ ¬(uid = nullId ∨ gid = nullId) ∧
      w.os.fs.node l.dropLast = some d ∧ t.src = some src ∧ statAt w src = some s ∧
      n = handedOver w.env uid gid (w.env.withPerm t.perm ((w.env.newFile d).withData s.data))

/-- A translated item was put in the place that a pathname leads to. -/
structure Placed (w : World) (op : InstallOp) (t : Item) (path : Text) (l : Loc) (n : Node)
    (w' : World) : Prop where
  removed : removedPath op t = some path
  ne : path ≠ []
  place : w.os.fs.find (Foundation.route w.os.cwd path) = .ok (l, none)
  added : FileSystem.Added w.os.fs l n w'.os.fs
  kind : sIsdir n.stMode = true ↔ op = .instMkdir
  slash : op ≠ .instMkdir → endsSlash path = false
  cwd : w'.os.cwd = w.os.cwd
  made : Created w op t l n

section Placing

variable {w w' w₁ w₂ : World} {op : InstallOp} {item t : Item} {path dir dst : Text} {l mid : Loc}
  {n : Node} {status : Status}

theorem Created.quiet (h : Created w₁ op t l n) (hq : Frame Quiet w w₁) : Created w op t l n := by
  unfold Created at h ⊢
  simp only [hq.env, hq.quiet_fs, hq.sameFiles.statAt] at h
  exact h

theorem Placed.quiet (h : Placed w₁ op t path l n w₂) (hq : Frame Quiet w w₁)
    (hq' : Frame Quiet w₂ w') : Placed w op t path l n w' := by
  obtain ⟨hremoved, hne, hplace, hadded, hkind, hslash, hcwd, hmade⟩ := h
  rw [hq.quiet_fs, hq.quiet_cwd] at hplace
  rw [hq.quiet_fs, ← hq'.quiet_fs] at hadded
  exact ⟨hremoved, hne, hplace, hadded, hkind, hslash,
    hq'.quiet_cwd.trans (hcwd.trans hq.quiet_cwd), hmade.quiet hq⟩

/-- A place that is free lies in a directory. -/
theorem directory_above (htree : w.os.fs.Tree)
    (hfind : w.os.fs.find (Foundation.route w.os.cwd path) = .ok (l, none)) :
    ∃ d, w.os.fs.node l.dropLast = some d ∧ sIsdir d.stMode = true := by
  obtain ⟨front, x, hnames⟩ := List.eq_nil_or_concat _ |>.resolve_left (route_ne_nil w.os.cwd path)
  rw [List.concat_eq_append] at hnames
  obtain ⟨above, d, rfl, -, hd, hdir⟩ := htree.vacant hnames hfind
  exact ⟨d, by rwa [List.dropLast_concat], hdir⟩

theorem Vacant.sameFiles (h : Vacant w path) (hsame : SameFiles w w') : Vacant w' path := by
  unfold Vacant
  rw [hsame.1, hsame.2]
  exact h

theorem Room.file (h : Room w op t) (hop : wantedType op = .file) (hdst : t.dst = some dst) :
    FreshFile w dst := by
  unfold Room at h
  rw [hop] at h
  exact h dst hdst

theorem Room.link (h : Room w op t) (hop : wantedType op = .symlink) (hdir : t.dir = some dir)
    (hdst : t.dst = some dst) : FreshLink w dir dst := by
  unfold Room at h
  rw [hop] at h
  exact h dir dst hdir hdst

theorem Room.sameFiles (h : Room w op t) (hsame : SameFiles w w') : Room w' op t := by
  unfold Room at h ⊢
  split at h
  · exact fun dir hdir => ⟨(h dir hdir).place.sameFiles hsame, (h dir hdir).fits, (h dir hdir).slash⟩
  · intro dir dst hdir hdst
    have hlink := h dir dst hdir hdst
    exact ⟨hlink.place.sameFiles hsame, hlink.relative, hlink.fits⟩
  · exact fun dst hdst => ⟨(h dst hdst).place.sameFiles hsame, (h dst hdst).tmp.sameFiles hsame⟩

/-! ## A file -/

section Copy

variable {src : Text} {uid gid : Id} {mode : Mode} {ls lt lt' : Loc} {s m : Node} {si ti : Nat}
  {fs : FileSystem}

/-- The temporary file is a new one. -/
theorem Copied.newFile (h : Copied w src dst uid gid mode ls lt s m si ti fs w')
    (htmp : w.os.fs.find (Foundation.route w.os.cwd (tmpName dst)) = .ok (lt', none)) :
    ∃ d, w.os.fs.node lt'.dropLast = some d ∧ m = w.env.newFile d ∧ ti = w.os.fs.inodes.length ∧
      fs = w.os.fs.put lt' (w.env.newFile d) := by
  obtain ⟨_, _, _, _, -, -, -, -, -, hslash, -⟩ := FileSystem.rename_eq h.rename
  have hres := FileSystem.resolve_of_find hslash htmp nofun
  rcases emptied_ok h.tmp with ⟨l', d, hres', hd, hti, hfs⟩ | ⟨l', x, hres', -⟩
  · cases hres.symm.trans hres'
    have hopened := h.opened.resolve
    rw [hfs, FileSystem.resolve_put_self hres (newFile_islnk w.env d)] at hopened
    cases hopened
    exact ⟨d, hd, rfl, hti, hfs⟩
  · cases hres.symm.trans hres'

/-- It is complete before it is renamed. -/
theorem Copied.completed (h : Copied w src dst uid gid mode ls lt s m si ti fs w')
    (htmp : w.os.fs.find (Foundation.route w.os.cwd (tmpName dst)) = .ok (lt', none)) :
    FileSystem.Added w.os.fs lt' h.final (fs.set ti h.final) := by
  obtain ⟨d, -, -, rfl, rfl⟩ := h.newFile htmp
  have hput := FileSystem.added_put (FileSystem.find_node htmp) (w.env.newFile d)
  exact hput.set (FileSystem.ino_put_self _ _ _) h.final

/-- It is renamed to a place of its own. -/
theorem Copied.added (h : Copied w src dst uid gid mode ls lt s m si ti fs w')
    (hplace : w.os.fs.find (Foundation.route w.os.cwd dst) = .ok (l, none))
    (htmp : w.os.fs.find (Foundation.route w.os.cwd (tmpName dst)) = .ok (lt', none)) :
    FileSystem.Added w.os.fs l h.final w'.os.fs := by
  obtain ⟨old, new, t, r, hold, hnew, -, -, -, -, -, hrename⟩ := FileSystem.rename_eq h.rename
  have hmade := h.completed htmp
  cases hold.symm.trans (hmade.find htmp)
  cases hnew.symm.trans (hmade.grows.find_at hplace)
  obtain ⟨i, hi, -⟩ := FileSystem.ino_of_node hmade.node
  by_cases hsame : l = lt'
  · subst hsame
    rcases hrename with ⟨-, hfs⟩ | ⟨hne, -⟩
    · rw [hfs]
      exact hmade
    · exact absurd rfl hne
  · have hnone := FileSystem.find_node hplace
    have hfree : (fs.set ti h.final).ino l = none := by
      rw [← FileSystem.node_eq_none, hmade.rest l hsame, hnone]
    rcases hrename with ⟨hino, -⟩ | ⟨-, hfs⟩
    · rw [hi, hfree] at hino
      cases hino
    · rw [hfs]
      exact hmade.move (fun heq => hsame heq.symm) hnone

/-- Both places are in one directory. -/
theorem Copied.beside (h : Copied w src dst uid gid mode ls lt s m si ti fs w') {r : Option Node}
    (hlen : dst.length < installMaxPathlen)
    (hplace : w.os.fs.find (Foundation.route w.os.cwd dst) = .ok (l, r))
    (htmp : w.os.fs.find (Foundation.route w.os.cwd (tmpName dst)) = .ok (lt', none)) :
    lt'.dropLast = l.dropLast := by
  obtain ⟨dir, front, x, y, hneighbours⟩ := h.neighbours hlen
  obtain ⟨_, _, _, _, -, -, hdots, hdots', -⟩ := FileSystem.rename_eq h.rename
  rw [hneighbours.old] at htmp hdots
  rw [hneighbours.new] at hplace hdots'
  obtain ⟨mid, hmid, rfl⟩ := FileSystem.find_last rfl hdots htmp
  obtain ⟨mid', hmid', rfl⟩ := FileSystem.find_last rfl hdots' hplace
  rw [List.dropLast_concat, List.dropLast_concat]
  exact hmid.unique hmid'

/-- What the file is then. -/
theorem Copied.final_new (h : Copied w src dst uid gid mode ls lt s m si ti fs w')
    (htmp : w.os.fs.find (Foundation.route w.os.cwd (tmpName dst)) = .ok (lt', none)) :
    ∃ d, w.os.fs.node lt'.dropLast = some d ∧
      h.final = handedOver w.env uid gid (w.env.withPerm mode ((w.env.newFile d).withData s.data)) := by
  obtain ⟨d, hd, hm, hti, -⟩ := h.newFile htmp
  have hother : si ≠ ti := by
    rw [hti]
    exact (FileSystem.ino_lt h.source_ino).ne
  refine ⟨d, hd, ?_⟩
  rw [Copied.final, sourceData, if_neg fun hsame => hother hsame.1, hm]

end Copy

/-- Where an operator succeeds, the IDs are known. -/
theorem withIds_known {next : Id → Id → Sys Status} (h : withIds t next w = (.ok status, w'))
    (hok : status.status = .ok) : ∃ uid gid, wantedIds w.env t = some (uid, gid) := by
  cases hids : wantedIds w.env t with
  | none =>
    obtain ⟨status', hrun, herror⟩ := withIds_unknown next hids
    rw [h] at hrun
    cases hrun
    rw [hok] at herror
    cases herror
  | some ids => exact ⟨ids.1, ids.2, rfl⟩

theorem removedPath_file (hop : wantedType op = .file) : removedPath op t = t.dst := by
  cases op with
  | instCopy => rfl
  | instCopyExec => rfl
  | _ => cases hop

theorem removedPath_link (hop : wantedType op = .symlink) (hdir : t.dir = some dir)
    (hdst : t.dst = some dst) : removedPath op t = some (cutPath (joinPath dir dst)) := by
  cases op with
  | instSymlink => simp [removedPath, hdir, hdst]
  | instLiblink => simp [removedPath, hdir, hdst]
  | _ => cases hop

theorem instCopy_placed (hop : wantedType op = .file) (hroom : Room w op t)
    (hlen : ∀ dst, t.dst = some dst → dst.length < installMaxPathlen)
    (h : instCopy t 0 w = (.ok status, w')) (hok : status.status = .ok) :
    ∃ path l n, Placed w op t path l n w' := by
  obtain ⟨uid, gid, hids⟩ := withIds_known h hok
  obtain ⟨hvalid, src, dst, ls, lt, s, m, si, ti, fs, hsrc, hdst, hcopied⟩ := instCopy_ok hids h hok
  have hfresh := hroom.file hop hdst
  have hmkdir : op ≠ .instMkdir := by
    rintro rfl
    cases hop
  have hremoved : removedPath op t = some dst := (removedPath_file hop).trans hdst
  obtain ⟨l, hplace⟩ := hfresh.place
  obtain ⟨lt', htmp⟩ := hfresh.tmp
  obtain ⟨-, -, -, -, -, -, -, -, -, -, hslash, -⟩ := FileSystem.rename_eq hcopied.rename
  have hmade : Created w op t l hcopied.final := by
    obtain ⟨d, hd, hfinal⟩ := hcopied.final_new htmp
    rw [hcopied.beside (hlen dst hdst) hplace htmp] at hd
    unfold Created
    rw [hop]
    exact ⟨uid, gid, d, src, s, hids, hvalid, hd, hsrc,
      statAt_eq_some.mpr ⟨hcopied.src_ne, ls, hcopied.source⟩, hfinal⟩
  refine ⟨dst, l, hcopied.final, hremoved, hcopied.dst_ne, hplace, hcopied.added hplace htmp, ?_,
    fun _ => hslash, hcopied.cwd, hmade⟩
  rw [hcopied.final_file]
  exact iff_of_false Bool.false_ne_true hmkdir

/-! ## A link -/

theorem chdir_ok {r : Int} (hr : r ≠ -1) (h : chdir path w = (.ok r, w')) :
    ∃ l, LeadsTo w path l ∧ w'.os = { w.os with cwd := l } ∧ w'.env = w.env := by
  have henv : w'.env = w.env :=
    (Frame.of_run (P := fun _ => True) (keeps_chdir fun _ _ => trivial) h).env
  rcases chdir_cases path w with ⟨w₁, l, hrun, hleads, hos⟩ | ⟨w₁, hrun, -⟩
  · rw [h] at hrun
    cases hrun
    exact ⟨l, hleads, hos, henv⟩
  · rw [h] at hrun
    cases hrun
    exact absurd rfl hr

theorem makeLink_ok {linked : Int} (hlinked : linked ≠ 0) (h : makeLink t 0 w = (.ok linked, w')) :
    ∃ src dst l d, t.src = some src ∧ t.dst = some dst ∧ src ≠ [] ∧ dst ≠ [] ∧ endsSlash dst = false ∧
      w.os.fs.find (Foundation.route w.os.cwd dst) = .ok (l, none) ∧ w.os.fs.node l.dropLast = some d ∧
      w'.os = { w.os with fs := w.os.fs.put l (w.env.newLink src d) } := by
  obtain ⟨src, w₁, hderef, hnext⟩ := bind_eq_ok h
  obtain ⟨hsrc, rfl⟩ := deref_ok hderef
  obtain ⟨dst, w₂, hderef', hlink⟩ := bind_eq_ok hnext
  obtain ⟨hdst, rfl⟩ := deref_ok hderef'
  obtain ⟨r, w₃, hsym, hend⟩ := bind_eq_ok hlink
  by_cases hr : r = -1
  · rw [if_pos hr] at hend
    cases hend
    exact absurd rfl hlinked
  · cases hend
    obtain ⟨fs, hf, rfl⟩ := fsCall_ok hr hsym
    obtain ⟨hne, hf⟩ := route_bind hf
    split at hf
    · cases hf
    · rename_i hsrc_ne
      obtain ⟨l, d, hfind, hd, hslash, rfl⟩ := FileSystem.create_eq hf
      have hends : endsSlash dst = false := Bool.eq_false_iff.mpr fun h => nomatch hslash h
      exact ⟨src, dst, l, d, hsrc, hdst, hsrc_ne, hne, hends, hfind, hd, rfl⟩

/-- What `inst_link` did, if it says that it succeeded. -/
structure Linked (w : World) (src dir dst : Text) (mid l : Loc) (d : Node) (w' : World) : Prop where
  src_ne : src ≠ []
  dst_ne : dst ≠ []
  slash : endsSlash dst = false
  leads : LeadsTo w dir mid
  place : w.os.fs.find (Foundation.route mid dst) = .ok (l, none)
  above : w.os.fs.node l.dropLast = some d
  fs : w'.os.fs = w.os.fs.put l (w.env.newLink src d)
  cwd : w'.os.cwd = w.os.cwd

theorem instLink_ok (h : instLink t 0 w = (.ok status, w')) (hok : status.status = .ok) :
    ∃ src dir dst mid l d, t.src = some src ∧ t.dir = some dir ∧ t.dst = some dst ∧
      Linked w src dir dst mid l d w' := by
  obtain ⟨pathBuf, w₁, hget, hgot⟩ := bind_eq_ok h
  have henv : w₁.env = w.env :=
    (Frame.of_run (P := fun _ => True) (keeps_getcwd fun _ _ => trivial) hget).env
  rcases getcwd_cases installMaxPathlen w with ⟨w₁', hget', hreach, hos₁⟩ | ⟨w₁', hget', -⟩
  · rw [hget] at hget'
    cases hget'
    obtain ⟨dir, w₂, hderef, hgo⟩ := bind_eq_ok hgot
    obtain ⟨hdir, rfl⟩ := deref_ok hderef
    obtain ⟨went, w₃, hchdir, hlink⟩ := bind_eq_ok hgo
    by_cases hwent : went = -1
    · rw [if_pos hwent] at hlink
      cases hlink
      cases hok
    · rw [if_neg hwent] at hlink
      obtain ⟨mid, hleads, hos₃, henv₃⟩ := chdir_ok hwent hchdir
      obtain ⟨linked, w₄, hmake, hrestore⟩ := bind_eq_ok hlink
      obtain ⟨restored, w₅, hback, hend⟩ := bind_eq_ok hrestore
      split at hend
      · cases hend
        cases hok
      · rename_i hrestored
        split at hend
        · cases hend
          cases hok
        · rename_i hlinked
          cases hend
          obtain ⟨src, dst, l, d, hsrc, hdst, hsrc_ne, hdst_ne, hslash, hfind, hd, hos₄⟩ :=
            makeLink_ok hlinked hmake
          have hfs₃ : w₃.os.fs = w.os.fs := by rw [hos₃, ← hos₁]
          have hcwd₃ : w₃.os.cwd = mid := by rw [hos₃]
          have hfs₄ : w₄.os.fs = w.os.fs.put l (w.env.newLink src d) := by
            rw [hos₄, ← henv, ← henv₃, ← hfs₃]
          rw [hfs₃, hcwd₃] at hfind
          rw [hfs₃] at hd
          -- The directory the process came from is found where it was.
          have hreach₄ : Reachable w.os.cwd w₄ := by
            obtain ⟨m, hm, hmdir⟩ := hreach
            refine ⟨m, ?_, hmdir⟩
            rw [hfs₄]
            exact (FileSystem.grows_put (FileSystem.find_node hfind) _).find hm
          obtain ⟨l', -, hos', -⟩ := chdir_ok hrestored hback
          refine ⟨src, dir, dst, mid, l, d, hsrc, hdir, hdst, hsrc_ne, hdst_ne, hslash, ?_, hfind, hd, ?_,
            ?_⟩
          · unfold LeadsTo at hleads ⊢
            rw [← hos₁]
            exact hleads
          · rw [hos', hfs₄]
          · rcases chdir_render hreach₄ with ⟨w₆, hrun, hcwd⟩ | ⟨w₆, hrun, -⟩
            · rw [hback] at hrun
              cases hrun
              exact hcwd
            · rw [hback] at hrun
              cases hrun
              exact absurd rfl hrestored
  · rw [hget] at hget'
    cases hget'
    cases hgot
    cases hok

/-- What a name leads to from its directory. -/
theorem LeadsTo.find {r : Option Node} (h : LeadsTo w dir mid) (hne : dst ≠ [])
    (hrel : isAbsolute dst = false)
    (hfind : w.os.fs.find (Foundation.route w.os.cwd (joinPath dir dst)) = .ok (l, r)) :
    w.os.fs.find (Foundation.route mid dst) = .ok (l, r) := by
  obtain ⟨hdir, m, hres, -⟩ := h
  obtain ⟨hleads, -⟩ := FileSystem.resolve_eq_ok.mp hres
  obtain ⟨dots, hsteps, hdots⟩ := FileSystem.steps_components w.os.cwd dir
  rw [hsteps] at hleads
  exact FileSystem.find_in_directory hdir hne hrel (hleads.without_dots hdots) hfind

theorem instLink_placed (hop : wantedType op = .symlink) (hroom : Room w op t)
    (h : instLink t 0 w = (.ok status, w')) (hok : status.status = .ok) :
    ∃ path l n, Placed w op t path l n w' := by
  obtain ⟨src, dir, dst, mid, l, d, -, hdir, hdst, hlinked⟩ := instLink_ok h hok
  have hfresh := hroom.link hop hdir hdst
  have hmkdir : op ≠ .instMkdir := by
    rintro rfl
    cases hop
  have hremoved : removedPath op t = some (joinPath dir dst) := by
    rw [removedPath_link hop hdir hdst, cutPath_of_lt hfresh.fits]
  -- Both pathnames lead to one place.
  obtain ⟨l', hplace⟩ := hfresh.place
  cases hlinked.place.symm.trans (hlinked.leads.find hlinked.dst_ne hfresh.relative hplace)
  have hmade : Created w op t l (w.env.newLink src d) := by
    have htype : fileTypeOf (sIflnk ||| 0o777) = some .symlink := by decide
    unfold Created
    rw [hop]
    exact htype
  refine ⟨joinPath dir dst, l, w.env.newLink src d, hremoved, by simp [joinPath], hplace, ?_, ?_,
    fun _ => ?_, hlinked.cwd, hmade⟩
  · rw [hlinked.fs]
    exact FileSystem.added_put (FileSystem.find_node hplace) _
  · have hlink : sIsdir (w.env.newLink src d).stMode = false := by
      show sIsdir (sIflnk ||| 0o777) = false
      decide
    rw [hlink]
    exact iff_of_false Bool.false_ne_true hmkdir
  · obtain ⟨c, cs, hcs⟩ := List.exists_cons_of_ne_nil hlinked.dst_ne
    have hslash := hlinked.slash
    rw [hcs] at hslash ⊢
    simpa [endsSlash, joinPath] using hslash

/-! ## A directory -/

theorem FreshDirectory.ne (h : FreshDirectory w dir) : dir ≠ [] := by
  rintro rfl
  obtain ⟨l, hplace⟩ := h.place
  obtain ⟨hleads, hnone⟩ := FileSystem.find_eq_ok.mp hplace
  exact FileSystem.Leads.dot_some hleads hnone.symm

/-- A slash behind a pathname is no component. -/
theorem route_slash (dir : Text) (cwd : Loc) :
    (Foundation.route cwd (dir ++ ['/'])).names = (Foundation.route cwd dir).names := by
  have hcomp : Foundation.components (dir ++ ['/']) = Foundation.components dir := by
    have hjoin := components_joinPath dir []
    rwa [show Foundation.components [] = [] from rfl, List.append_nil] at hjoin
  rw [Foundation.route, Foundation.route, hcomp]

/-- Nothing but the directory itself is made. -/
theorem MadeAll.added {perm : Mode} (h : MadeAll w perm (visitedPaths dir) w')
    (hcalm : Undisturbed w.env) (htree : w.os.fs.Tree) (hfresh : FreshDirectory w dir)
    (hplace : w.os.fs.find (Foundation.route w.os.cwd dir) = .ok (l, none)) :
    ∃ d, w.os.fs.node l.dropLast = some d ∧
      FileSystem.Added w.os.fs l (w.env.newDir perm d) w'.os.fs := by
  have hne := hfresh.ne
  obtain ⟨d, hd, -⟩ := directory_above htree hplace
  have htried : FileSystem.TriedIn (attempts w.env w.os.cwd (rmkdirPaths [] dir) w.tick)
      (Foundation.route w.os.cwd dir).names := by
    have hlast := List.mem_of_getLast? (@rmkdirPaths_last [] dir hne)
    obtain ⟨k, hk⟩ := List.getElem?_of_mem hlast
    refine triedIn_attempts.mpr ⟨k, _, hk, ?_, (hcalm (w.tick + k)).1⟩
    rw [List.nil_append]
    split
    · rfl
    · exact route_slash dir w.os.cwd
  refine ⟨d, hd, ?_⟩
  rw [h.fs, (visitedPaths_eq_iff hfresh.fits).mpr hfresh.slash,
    FileSystem.makeAll_vacant (ascending_attempts hne (List.Sublist.refl _) w.tick) hplace hd htried]
  exact FileSystem.added_put (FileSystem.find_node hplace) _

/-- The directory that was made may be handed over. -/
theorem mkdirOwnership_added {fs : FileSystem} {uid gid : Id} (hadded : FileSystem.Added fs l n w.os.fs)
    (hfind : w.os.fs.find (Foundation.route w.os.cwd dir) = .ok (l, some n))
    (hdir : sIsdir n.stMode = true) (h : mkdirOwnership dir w.env.uid uid gid w = (.ok status, w'))
    (hok : status.status = .ok) :
    FileSystem.Added fs l (handedOver w.env uid gid n) w'.os.fs ∧ w'.os.cwd = w.os.cwd := by
  rcases mkdirOwnership_cases h hok with ⟨huid, rfl⟩ | ⟨huid, r, hr, hset⟩
  · rw [handedOver, if_pos huid]
    exact ⟨hadded, rfl⟩
  · obtain ⟨-, -, l', i, m, hres, hi, rfl⟩ := iposixFileOwnershipSet_ok hr hset
    -- The pathname leads to the new directory.
    cases hres.symm.trans (FileSystem.resolve_of_find_dir hfind hdir)
    rw [handedOver, if_neg huid]
    exact ⟨hadded.set hi _, rfl⟩

theorem instMkdir_placed (hcalm : Undisturbed w.env) (htree : w.os.fs.Tree)
    (hroom : Room w .instMkdir t) (h : instMkdir t 0 w = (.ok status, w'))
    (hok : status.status = .ok) : ∃ path l n, Placed w .instMkdir t path l n w' := by
  obtain ⟨uid, gid, hids⟩ := withIds_known h hok
  cases hdir : t.dir with
  | none =>
    unfold instMkdir at h
    rw [withIds_found hids, hdir] at h
    split at h
    · cases h
    · cases h
  | some dir =>
    have hfresh : FreshDirectory w dir := hroom dir hdir
    obtain ⟨l, hplace⟩ := hfresh.place
    obtain ⟨hvalid, w₁, -, hmade, hown⟩ := instMkdir_steps hdir hids hfresh.fits rfl h
    obtain ⟨d, hd, hadded⟩ := hmade.added hcalm htree hfresh hplace
    have hnew := newDir_isdir w.env t.perm d
    have hfind := hadded.find hplace
    rw [← hmade.cwd] at hfind
    obtain ⟨hadded', hcwd⟩ := mkdirOwnership_added hadded hfind hnew hown hok
    rw [hmade.env] at hadded'
    have htype := sameType_handedOver w.env uid gid (w.env.newDir t.perm d)
    exact ⟨dir, l, _, hdir, hfresh.ne, hplace, hadded', iff_of_true (htype.isdir.trans hnew) rfl,
      fun hop => absurd rfl hop, hcwd.trans hmade.cwd, uid, gid, d, hids, hvalid, hd, rfl⟩

/-! ## An item -/

theorem install_translated (h : install item 0 w = (.ok status, w')) (hok : status.status = .ok) :
    ∃ t, translated installOpers w item = some t := by
  rcases htrans : (installOpers item.op).trans item (w.withErrno 0) with ⟨r, w₁⟩
  cases r with
  | error c =>
    have hrun : install item 0 w = (.error c, w₁) := runOper_crash htrans
    rw [h] at hrun
    cases hrun
  | ok r =>
    cases r with
    | error message =>
      obtain ⟨w₂, hrun, -⟩ := runOper_refused 0 htrans
      have hrun : install item 0 w = (_, w₂) := hrun
      rw [h] at hrun
      cases hrun
      cases hok
    | ok t => exact ⟨t, translated_of_ok rfl htrans⟩

/-- What a file is copied to fits. -/
theorem translated_fits (hfile : wantedType item.op = .file)
    (ht : translated installOpers w item = some t) (hdst : t.dst = some dst) :
    dst.length < installMaxPathlen := by
  obtain ⟨w₁, htrans⟩ := translated_eq_some ht
  have hcut : ∀ name, (cutPath name).length < installMaxPathlen := fun name =>
    lt_of_le_of_lt (List.length_take_le _ _) (by decide)
  cases hop : item.op with
  | instCopy =>
    rw [hop] at htrans
    obtain ⟨_, _, _, _, _, _, -, -, -, -, -, rfl⟩ := ntranCopy_ok htrans
    cases hdst
    exact hcut _
  | instCopyExec =>
    rw [hop] at htrans
    obtain ⟨_, _, _, -, -, -, rfl⟩ := ntranCopyExec_ok htrans
    cases hdst
    exact hcut _
  | _ => rw [hop] at hfile; cases hfile

/-- Installing a fresh item adds one file, at the place where it will be removed. -/
theorem install_placed (hcalm : Undisturbed w.env) (htree : w.os.fs.Tree) (hfresh : Fresh w item)
    (h : install item 0 w = (.ok status, w')) (hok : status.status = .ok) :
    ∃ t path l n, translated installOpers w item = some t ∧ Placed w item.op t path l n w' := by
  obtain ⟨t, ht⟩ := install_translated h hok
  obtain ⟨w₁, w₂, -, hoper, hq, hq'⟩ := install_ok ht h
  have hroom : Room w₁ item.op t := (hfresh t ht).sameFiles hq.sameFiles
  have hcalm₁ : Undisturbed w₁.env := by
    rw [hq.env]
    exact hcalm
  have htree₁ : w₁.os.fs.Tree := by
    rw [hq.quiet_fs]
    exact htree
  have hplaced : ∃ path l n, Placed w₁ item.op t path l n w₂ := by
    cases hop : item.op with
    | instCopy =>
      have hlen : ∀ dst, t.dst = some dst → dst.length < installMaxPathlen := fun _ =>
        translated_fits (by rw [hop]; rfl) ht
      rw [hop] at hoper hroom
      exact instCopy_placed rfl hroom hlen hoper hok
    | instCopyExec =>
      have hlen : ∀ dst, t.dst = some dst → dst.length < installMaxPathlen := fun _ =>
        translated_fits (by rw [hop]; rfl) ht
      rw [hop] at hoper hroom
      exact instCopy_placed rfl hroom hlen hoper hok
    | instSymlink =>
      rw [hop] at hoper hroom
      exact instLink_placed rfl hroom hoper hok
    | instLiblink =>
      rw [hop] at hoper hroom
      exact instLink_placed rfl hroom hoper hok
    | instMkdir =>
      rw [hop] at hoper hroom
      exact instMkdir_placed hcalm₁ htree₁ hroom hoper hok
  obtain ⟨path, l, n, hplaced⟩ := hplaced
  exact ⟨t, path, l, n, ht, hplaced.quiet hq hq'⟩

end Placing

end CStringVerified.Install
