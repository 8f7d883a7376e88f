import CStringVerified.Install.Proofs.CalmProofs

/-!
# The same table once more

A table of fresh items was installed. A second process of the same user installs it again, the names of the
temporary files being free: each file is copied over itself, each directory is found, each link is in its own
way, and every file is as it was.
-/

namespace CStringVerified.Install

open Foundation Foundation.Run

/-! ## The same process -/

/-- Two processes for which new files, `chmod` and `chown` come to the same. -/
structure SameProcess (env env' : Env) : Prop where
  users : SameUsers env env'
  groups : env'.groups = env.groups
  bsdGroups : env'.bsdGroups = env.bsdGroups
  chownClears : env'.chownClears = env.chownClears

/-- What `chown` leaves of the mode of a directory, it leaves again. -/
def ClearsOnce (env : Env) : Prop := ∀ uid gid n, sIsdir n.stMode = true →
  env.chowned uid gid (env.chowned uid gid n) = env.chowned uid gid n

section Nodes

variable {env env' : Env} {uid gid : Id} {perm : Mode} {data : Text} {n d : Node}

theorem SameProcess.handedOver (h : SameProcess env env') (uid gid : Id) (n : Node) :
    handedOver env' uid gid n = Install.handedOver env uid gid n := by
  unfold Install.handedOver Env.chowned
  rw [h.users.uid, h.chownClears]

/-- The umask is gone once a new file has its mode. -/
theorem newFile_withPerm (env : Env) (perm : Mode) (data : Text) (d : Node) :
    env.withPerm perm ((env.newFile d).withData data) =
      ⟨sIfreg ||| (perm &&& if env.inGroup (env.newFile d).stGid then 0o7777 else 0o5777), env.uid,
        (env.newFile d).stGid, data⟩ := by
  have hreg : sIsreg (env.newFile d).stMode = true := decide_eq_true (newFile_type env d)
  have htype : (env.newFile d).stMode &&& sIfmt = sIfreg := newFile_type env d
  rw [Node.withData, if_pos hreg, Env.withPerm]
  dsimp only
  rw [htype]
  rfl

theorem SameProcess.newFile_withPerm (h : SameProcess env env') (perm : Mode) (data : Text) (d : Node) :
    env'.withPerm perm ((env'.newFile d).withData data) =
      env.withPerm perm ((env.newFile d).withData data) := by
  have hgroup : (env'.newFile d).stGid = (env.newFile d).stGid := by
    simp only [Env.newFile, Env.newNode, h.bsdGroups, h.users.gid]
  rw [Install.newFile_withPerm, Install.newFile_withPerm, hgroup]
  simp only [Env.inGroup, h.users.uid, h.users.gid, h.groups]
  rfl

theorem handedOver_twice (h : ClearsOnce env) (hdir : sIsdir n.stMode = true) :
    handedOver env uid gid (handedOver env uid gid n) = handedOver env uid gid n := by
  unfold handedOver
  split
  · rfl
  · exact h uid gid n hdir

end Nodes

/-! ## A file -/

section Copy

variable {w w' : World} {src dst : Text} {uid gid : Id} {mode : Mode} {l ls lt lt' : Loc} {s m n : Node}
  {si ti : Nat} {fs : FileSystem}

/-- The new file takes the place of the old one. -/
theorem Copied.replaces (h : Copied w src dst uid gid mode ls lt s m si ti fs w')
    (hfound : w.os.fs.find (Foundation.route w.os.cwd dst) = .ok (l, some n))
    (htmp : w.os.fs.find (Foundation.route w.os.cwd (tmpName dst)) = .ok (lt', none)) (l' : Loc) :
    w'.os.fs.node l' = if l' = l then some h.final else w.os.fs.node l' := by
  have hmade := h.completed htmp
  obtain ⟨old, new, t, r, hold, hnew, -, -, -, -, -, hrename⟩ := FileSystem.rename_eq h.rename
  cases hold.symm.trans (hmade.find htmp)
  cases hnew.symm.trans (hmade.grows.find hfound)
  have hne : lt' ≠ l := by
    rintro rfl
    cases (FileSystem.find_node hfound).symm.trans (FileSystem.find_node htmp)
  rcases hrename with ⟨hino, -⟩ | ⟨-, hfs⟩
  · exact absurd hino.symm (hmade.alone l hne.symm)
  · rw [hfs]
    split
    · rename_i heq
      rw [heq, FileSystem.node_move_new hne, hmade.node]
    · rename_i hother
      by_cases hold' : l' = lt'
      · rw [hold', FileSystem.node_move_old hne, FileSystem.find_node htmp]
      · rw [FileSystem.node_move_ne hne hold' hother, hmade.rest l' hold']

/-- A file that was copied can be copied once more. -/
theorem CopyGranted.again {u v : World} (h : CopyGranted u src dst uid) (hgrown : Grown u v)
    (huid : v.env.uid = u.env.uid) (htree : v.os.fs.Tree)
    (hfound : v.os.fs.find (Foundation.route v.os.cwd dst) = .ok (l, some n))
    (hfile : sIsdir n.stMode = false) (htmp : Vacant v (tmpName dst)) : CopyGranted v src dst uid := by
  obtain ⟨hsrc, hdst, ⟨ls, s, i, hsource, hopened, hnodir⟩, howner, _, _, _, ⟨_, _, -, -, hrename⟩, -⟩ := h
  obtain ⟨_, _, _, _, -, -, hdots, hdots', -, hslash, hslash', -⟩ := FileSystem.rename_eq hrename
  rw [← hgrown.cwd] at hsource hdots hdots' hslash hslash'
  rw [← huid] at howner
  have hsource := hgrown.files.resolve hsource
  obtain ⟨j, hj, -⟩ := FileSystem.ino_of_node (FileSystem.resolve_node hsource)
  -- The temporary file is made in a directory that is there.
  obtain ⟨lt, htmp⟩ := htmp
  obtain ⟨d, hd, -⟩ := directory_above htree htmp
  have hres := FileSystem.resolve_of_find hslash htmp nofun
  have hput := FileSystem.grows_put (FileSystem.find_node htmp) (v.env.newFile d)
  obtain ⟨fs', hrename'⟩ := FileSystem.rename_some (FileSystem.find_put_self htmp (v.env.newFile d))
    (hput.find hfound) ⟨hdots, hdots'⟩ ⟨hslash, hslash'⟩ (newFile_isdir v.env d)
    fun m hm => Option.some.inj hm ▸ hfile
  exact ⟨hsrc, hdst, ⟨ls, s, j, hsource, opened_eq_ok.mpr ⟨(opened_eq_ok.mp hopened).1, hj⟩, hnodir⟩, howner,
    _, _, fs', ⟨_, _, emptied_absent hres hd, FileSystem.resolve_put_self hres (newFile_islnk v.env d),
      hrename'⟩, Or.inr rfl⟩

end Copy

/-! ## An operator -/

/-- The call comes to a status, and every file is as it was. -/
def Repeats (m : Sys Status) (code : StatusCode) (w : World) : Prop :=
  ∃ status w', m w = (.ok status, w') ∧ status.status = code ∧
    (∀ l, w'.os.fs.node l = w.os.fs.node l) ∧ w'.os.cwd = w.os.cwd

/-- What installing an item once more comes to: a link is in its own way. -/
def repeatedStatus (op : InstallOp) : StatusCode := if wantedType op = .symlink then .error else .ok

theorem repeatedStatus_ne_fatal (op : InstallOp) : repeatedStatus op ≠ .fatal := by
  cases op <;> decide

/-- A second process finds what the first one has put in its place. -/
structure Second (u : World) (path : Text) (l : Loc) (n : Node) (v : World) : Prop where
  grown : Grown u v
  same : SameProcess u.env v.env
  tree : v.os.fs.Tree
  found : v.os.fs.find (Foundation.route v.os.cwd path) = .ok (l, some n)

section Operators

variable {u u' v v' : World} {op : InstallOp} {t : Item} {path src dir dst : Text} {uid gid : Id}
  {perm mode : Mode} {l ls lt lt' : Loc} {s m n : Node} {si ti : Nat} {fs : FileSystem}

/-- The new file is like the old one. -/
theorem Second.final_eq (h : Second u dst l n v) (hplaced : Placed u op t dst l n u')
    (hop : wantedType op = .file) (hids : wantedIds u.env t = some (uid, gid)) (hsrc : t.src = some src)
    (hlen : dst.length < installMaxPathlen)
    (hcopied : Copied v src dst uid gid t.perm ls lt s m si ti fs v')
    (htmp : v.os.fs.find (Foundation.route v.os.cwd (tmpName dst)) = .ok (lt', none)) :
    hcopied.final = n := by
  have hmade := hplaced.made
  unfold Created at hmade
  rw [hop] at hmade
  obtain ⟨uid', gid', d, src', s', hids', -, hd, hsrc', hs', hn⟩ := hmade
  cases hids.symm.trans hids'
  cases hsrc.symm.trans hsrc'
  obtain ⟨d', hd', hfinal⟩ := hcopied.final_new htmp
  rw [hcopied.beside hlen h.found htmp] at hd'
  cases (h.grown.files _ _ hd).symm.trans hd'
  have hs : statAt v src = some s := statAt_eq_some.mpr ⟨hcopied.src_ne, ls, hcopied.source⟩
  cases (h.grown.statAt hs').symm.trans hs
  rw [hfinal, hn, h.same.handedOver, h.same.newFile_withPerm]

/-- A file is copied over itself. -/
theorem Second.copy (h : Second u path l n v) (hplaced : Placed u op t path l n u')
    (hop : wantedType op = .file) (hgranted : ItemGranted u op t) (hlen : path.length < installMaxPathlen)
    (htmp : Vacant v (tmpName path)) : Repeats (instCopy t 0) .ok v := by
  unfold ItemGranted at hgranted
  rw [hop] at hgranted
  obtain ⟨uid, gid, src, dst, hids, hvalid, huid, hsrc, hdst, hcopy⟩ := hgranted
  obtain rfl : dst = path :=
    Option.some.inj (hdst.symm.trans ((removedPath_file hop).symm.trans hplaced.removed))
  have hmkdir : op ≠ .instMkdir := by
    rintro rfl
    cases hop
  have hfile : sIsdir n.stMode = false := Bool.eq_false_iff.mpr fun hdir => hmkdir (hplaced.kind.mp hdir)
  have hids' : wantedIds v.env t = some (uid, gid) := (h.same.users.wantedIds t).trans hids
  rw [← h.same.users.uid] at huid
  have hlen' : ∀ dst', t.dst = some dst' → dst'.length < installMaxPathlen := by
    intro dst' hdst'
    cases hdst.symm.trans hdst'
    exact hlen
  obtain ⟨status, v', hrun, hok⟩ := (instCopy_calm_iff h.grown.calm' hlen').mpr
    ⟨uid, gid, src, dst, hids', hvalid, huid, hsrc, hdst,
      hcopy.again h.grown h.same.users.uid h.tree h.found hfile htmp⟩
  obtain ⟨-, src', dst', ls, lt, s, m, si, ti, fs, hsrc', hdst', hcopied⟩ := instCopy_ok hids' hrun hok
  cases hsrc.symm.trans hsrc'
  cases hdst.symm.trans hdst'
  obtain ⟨lt', htmp⟩ := htmp
  refine ⟨status, v', hrun, hok, fun l' => ?_, hcopied.cwd⟩
  rw [hcopied.replaces h.found htmp, h.final_eq hplaced hop hids hsrc hlen hcopied htmp]
  split
  · rename_i heq
    rw [heq, FileSystem.find_node h.found]
  · rfl

/-- Where the directory is there, none is made. -/
theorem MadeAll.there (h : MadeAll v perm (visitedPaths path) v') (hne : path ≠ [])
    (hfound : v.os.fs.find (Foundation.route v.os.cwd path) = .ok (l, some n)) : v'.os.fs = v.os.fs := by
  have hascending : FileSystem.Ascending (Foundation.route v.os.cwd path)
      (attempts v.env v.os.cwd (visitedPaths path) v.tick) :=
    ascending_attempts hne (List.takeWhile_sublist _) v.tick
  rw [h.fs, FileSystem.makeAll_there hascending hfound]

/-- Handing over a directory once more changes nothing. -/
theorem mkdirOwnership_again {status : Status} (hdir : sIsdir n.stMode = true)
    (hfound : v.os.fs.find (Foundation.route v.os.cwd path) = .ok (l, some n))
    (hsame : handedOver v.env uid gid n = n) (h : mkdirOwnership path v.env.uid uid gid v = (.ok status, v'))
    (hok : status.status = .ok) : v'.os = v.os := by
  rcases mkdirOwnership_cases h hok with ⟨-, rfl⟩ | ⟨huid, r, hr, hset⟩
  · rfl
  · obtain ⟨-, -, l', i, m, hres, hi, rfl⟩ := iposixFileOwnershipSet_ok hr hset
    cases hres.symm.trans (FileSystem.resolve_of_find_dir hfound hdir)
    have hinode : v.os.fs.inode i = some n := by
      rw [← FileSystem.node_of_ino hi]
      exact FileSystem.find_node hfound
    rw [handedOver, if_neg huid] at hsame
    rw [hsame]
    show { v.os with fs := v.os.fs.set i n } = v.os
    rw [FileSystem.set_self hinode]

/-- A directory is found. -/
theorem Second.mkdir (h : Second u path l n v) (hplaced : Placed u .instMkdir t path l n u')
    (hgranted : ItemGranted u .instMkdir t) (honce : ClearsOnce u.env) : Repeats (instMkdir t 0) .ok v := by
  obtain ⟨uid, gid, dir, hids, hvalid, hdir, hfits, howner⟩ := hgranted
  obtain rfl : dir = path := Option.some.inj (hdir.symm.trans hplaced.removed)
  have hisdir := hplaced.kind.mpr rfl
  have hids' : wantedIds v.env t = some (uid, gid) := (h.same.users.wantedIds t).trans hids
  have hsame : handedOver v.env uid gid n = n := by
    obtain ⟨uid', gid', d, hids', -, -, hn⟩ := hplaced.made
    cases hids.symm.trans hids'
    rw [h.same.handedOver, hn]
    exact handedOver_twice honce (newDir_isdir u.env t.perm d)
  have hgranted' : MkdirGranted v dir t.perm uid := by
    refine ⟨hfits, ?_⟩
    rw [h.same.users.uid]
    refine howner.imp_right fun hroot => ⟨hroot.1, n, ?_⟩
    obtain ⟨v₁, -, hmade⟩ := installRmkdir_run hfits t.perm v
    refine hmade.statAt_iff.mp (statAt_eq_some.mpr ⟨hplaced.ne, l, ?_⟩)
    rw [hmade.there hplaced.ne h.found, hmade.cwd]
    exact FileSystem.resolve_of_find_dir h.found hisdir
  obtain ⟨status, v', hrun, hok⟩ :=
    (instMkdir_calm_iff h.grown.calm').mpr ⟨uid, gid, dir, hids', hvalid, hdir, hgranted'⟩
  obtain ⟨-, v₁, -, hmade, hown⟩ := instMkdir_steps hdir hids' hfits rfl hrun
  have hfs := hmade.there hplaced.ne h.found
  have hfound := h.found
  rw [← hfs, ← hmade.cwd] at hfound
  rw [← hmade.env] at hsame
  have hos := mkdirOwnership_again hisdir hfound hsame hown hok
  refine ⟨status, v', hrun, hok, fun l' => ?_, ?_⟩
  · rw [hos, hfs]
  · rw [hos, hmade.cwd]

/-- Where something is, no link is made. -/
theorem symlink_there (hfound : v.os.fs.find (Foundation.route v.os.cwd dst) = .ok (l, some n)) :
    ∃ v', symlink src dst v = (.ok (-1), v') ∧ v'.env = v.env ∧ v'.os = v.os := by
  rcases fsCall_cases (.symlink src dst) (fun w => do
      let p ← w.route dst
      if src = [] then
        throw enoent
      w.os.fs.create p false (w.env.newLink src)) v with ⟨fs, -, hf, -⟩ | ⟨e, -, hrun⟩
  · obtain ⟨-, hf⟩ := route_bind hf
    split at hf
    · cases hf
    · obtain ⟨_, _, hfind, -⟩ := FileSystem.create_eq hf
      cases hfound.symm.trans hfind
  · exact ⟨_, hrun, rfl, rfl⟩

/-- A link is in its own way. -/
theorem Second.link (h : Second u path l n v) (hplaced : Placed u op t path l n u')
    (hop : wantedType op = .symlink) (hroom : Room u op t) (hgranted : ItemGranted u op t) :
    Repeats (instLink t 0) .error v := by
  unfold ItemGranted at hgranted
  rw [hop] at hgranted
  obtain ⟨src, dir, dst, hsrc, hdir, hdst, hhome, -, hdst_ne, -, mid, _, _, hleads, -⟩ := hgranted
  have hfresh := hroom.link hop hdir hdst
  have hremoved := hplaced.removed
  rw [removedPath_link hop hdir hdst, cutPath_of_lt hfresh.fits] at hremoved
  cases hremoved
  -- What was true of the directories is true still.
  have hinside := hleads.find hdst_ne hfresh.relative hplaced.place
  obtain ⟨hdir_ne, d, hres, hisdir⟩ := hleads
  have hleads : LeadsTo v dir mid := by
    refine ⟨hdir_ne, d, ?_, hisdir⟩
    rw [h.grown.cwd]
    exact h.grown.files.resolve hres
  obtain ⟨⟨home, hfindhome, hhomedir⟩, hfits⟩ := hhome
  rw [← h.grown.cwd] at hfindhome hfits
  have hfindhome := h.grown.files.find hfindhome
  have hthere : v.os.fs.find (Foundation.route mid dst) = .ok (l, some n) := by
    rw [h.grown.files.find_at hinside, FileSystem.find_node h.found]
  obtain ⟨v₁, henv, hos, hround⟩ := instLink_round h.grown.calm' ⟨⟨home, hfindhome, hhomedir⟩, hfits⟩ hdir hleads
  have hos₁ : v₁.os.fs = v.os.fs ∧ v₁.os.cwd = mid := by
    rw [hos]
    exact ⟨rfl, rfl⟩
  obtain ⟨v₂, hsym, henv₂, hos₂⟩ :
      ∃ v₂, symlink src dst v₁ = (.ok (-1), v₂) ∧ v₂.env = v₁.env ∧ v₂.os = v₁.os := by
    rw [← hos₁.1, ← hos₁.2] at hthere
    exact symlink_there hthere
  rw [← hos₁.1, ← hos₂] at hfindhome
  obtain ⟨status, v', hrun, hstatus, hos'⟩ := hround 0 v₂ (makeLink_run hsrc hdst hsym)
    (henv₂.trans henv) ⟨home, hfindhome, hhomedir⟩
  have hback : v'.os = v.os := by rw [hos', hos₂, hos]
  exact ⟨status, v', hrun, hstatus, fun l' => by rw [hback], by rw [hback]⟩

/-- Each operator leaves everything as it was. -/
theorem Second.repeats (h : Second u path l n v) (hplaced : Placed u op t path l n u')
    (hroom : Room u op t) (hgranted : ItemGranted u op t) (honce : ClearsOnce u.env)
    (htmp : wantedType op = .file → path.length < installMaxPathlen ∧ Vacant v (tmpName path)) :
    Repeats ((installOpers op).oper t 0) (repeatedStatus op) v := by
  cases op with
  | instCopy => exact h.copy hplaced rfl hgranted (htmp rfl).1 (htmp rfl).2
  | instCopyExec => exact h.copy hplaced rfl hgranted (htmp rfl).1 (htmp rfl).2
  | instSymlink => exact h.link hplaced rfl hroom hgranted
  | instLiblink => exact h.link hplaced rfl hroom hgranted
  | instMkdir => exact h.mkdir hplaced hgranted honce

end Operators

/-! ## A table -/

/-- Nothing is at the temporary name of what a file is copied to. -/
def TmpFree (w : World) (item : Item) : Prop := wantedType item.op = .file →
  ∀ t dst, translated installOpers w item = some t → t.dst = some dst → Vacant w (tmpName dst)

section Table

variable {u u' w w' v : World} {item : Item} {items : List Item}

theorem Like.grown (h : Like w v) (horderly : Orderly w) : Grown w v :=
  ⟨fun l _ hn => (h.files l).trans hn, h.cwd, h.globals, horderly.calm, h.calm⟩

theorem Like.tree (h : Like w v) (horderly : Orderly w) : v.os.fs.Tree := by
  intro l _ hne hn
  rw [h.files] at hn ⊢
  exact horderly.tree l _ hne hn

theorem Like.vacant {path : Text} (h : Like w v) (hvacant : Vacant w path) : Vacant v path := by
  obtain ⟨l, hfind⟩ := hvacant
  refine ⟨l, ?_⟩
  rw [h.cwd, (FileSystem.alike_of_nodes h.files).find hfind, h.files, FileSystem.find_node hfind]

theorem Like.quiet {v₁ : World} (h : Like w v) (hq : Frame Quiet v v₁) : Like w v₁ := by
  refine ⟨?_, hq.quiet_cwd.trans h.cwd, hq.globals.trans h.globals, ?_⟩
  · rw [hq.quiet_fs]
    exact h.files
  · rw [hq.env]
    exact h.calm

/-- An item that was installed and is there still is installed once more. -/
theorem item_repeats (horderly : Orderly u) (hfresh : Fresh u item)
    (h : succeeded (fun item => install item 0) u item = some u') (hgrown : Grown u' w)
    (hw : Orderly w) (hlike : Like w v) (hsame : SameProcess u.env v.env) (honce : ClearsOnce u.env)
    (htmp : TmpFree w item) : Repeats (install item 0) (repeatedStatus item.op) v := by
  have hgrown₁ := (install_grown horderly hfresh h).trans hgrown
  obtain ⟨status, hrun, hok⟩ := succeeded_eq_some.mp h
  obtain ⟨t, path, l, n, ht, hplaced⟩ := install_placed horderly.calm horderly.tree hfresh hrun hok
  have hgranted := itemGranted_of_installed horderly.calm ht hrun hok
  obtain ⟨v₁, htrans⟩ := translated_eq_some ((hgrown₁.trans (hlike.grown hw)).translated ht)
  have hq := quiet_of_trans (keeps_installTrans item) htrans
  have hlike₁ := hlike.quiet hq
  rw [← hq.env] at hsame
  have hfound : v₁.os.fs.find (Foundation.route v₁.os.cwd path) = .ok (l, some n) := by
    rw [hlike₁.cwd, hgrown.cwd, hplaced.cwd]
    exact (hlike₁.grown hw).files.find (hgrown.files.find (hplaced.added.find hplaced.place))
  have hsecond : Second u path l n v₁ :=
    ⟨hgrown₁.trans (hlike₁.grown hw), hsame, hlike₁.tree hw, hfound⟩
  have htmp₁ : wantedType item.op = .file →
      path.length < installMaxPathlen ∧ Vacant v₁ (tmpName path) := by
    intro hfile
    have hdst : t.dst = some path := (removedPath_file hfile).symm.trans hplaced.removed
    exact ⟨translated_fits hfile ht hdst, hlike₁.vacant (htmp hfile t path (hgrown₁.translated ht) hdst)⟩
  obtain ⟨status', v₂, hoper, hcode, hfiles, hcwd⟩ :=
    hsecond.repeats hplaced (hfresh t ht) hgranted honce htmp₁
  obtain ⟨v', hagain, hos, -⟩ := runOper_run htrans hoper
  refine ⟨status', v', hagain, hcode, fun l' => ?_, ?_⟩
  · rw [hos, hfiles, hq.quiet_fs]
  · rw [hos, hcwd, hq.quiet_cwd]

/-- Installing a table once more comes to the same files. -/
theorem table_repeats (horderly : Orderly w)
    (hfresh : Along (succeeded fun item => install item 0) Fresh w items)
    (hrun : Foundation.run (succeeded fun item => install item 0) w items = some w') (hlike : Like w' v)
    (hsame : SameProcess w.env v.env) (honce : ClearsOnce w.env) (htmp : ∀ item ∈ items, TmpFree w' item) :
    ∃ statuses v', runItems (fun item => install item 0) items v = (.ok statuses, v') ∧
      List.Forall₂ (fun item s => s.status = repeatedStatus item.op) items statuses ∧ Like w' v' := by
  induction items generalizing w v with
  | nil => exact ⟨[], v, rfl, .nil, hlike⟩
  | cons item items ih =>
    obtain ⟨w₁, hstep, hrest⟩ := run_cons_eq_some.mp hrun
    have horderly₁ := install_orderly horderly hfresh.1 hstep
    obtain ⟨hgrown, horderly'⟩ := table_grown horderly₁ (hfresh.2 w₁ hstep) hrest
    have henv₁ : w₁.env = w.env := by
      obtain ⟨status, hrun₁, -⟩ := succeeded_eq_some.mp hstep
      exact (Frame.of_run (keeps_install item 0) hrun₁).env
    obtain ⟨status, v₁, hagain, hcode, hfiles, hcwd⟩ := item_repeats horderly hfresh.1 hstep hgrown
      horderly' hlike hsame honce (htmp item List.mem_cons_self)
    have hframe := Frame.of_run (keeps_install item 0) hagain
    have hlike₁ : Like w' v₁ := by
      refine ⟨fun l => (hfiles l).trans (hlike.files l), hcwd.trans hlike.cwd,
        hframe.globals.trans hlike.globals, ?_⟩
      rw [hframe.env]
      exact hlike.calm
    have hsame₁ : SameProcess w₁.env v₁.env := by
      rw [henv₁, hframe.env]
      exact hsame
    have honce₁ : ClearsOnce w₁.env := by
      rw [henv₁]
      exact honce
    obtain ⟨statuses, v', hitems, hcodes, hlike'⟩ := ih horderly₁ (hfresh.2 w₁ hstep) hrest hlike₁ hsame₁
      honce₁ fun item' hitem' => htmp item' (List.mem_cons_of_mem item hitem')
    have hnot : status.status ≠ .fatal := by
      rw [hcode]
      exact repeatedStatus_ne_fatal item.op
    refine ⟨status :: statuses, v', ?_, .cons hcode hcodes, hlike'⟩
    unfold runItems
    rw [bind_ok hagain, if_neg hnot, bind_ok hitems]
    rfl

end Table

end CStringVerified.Install
