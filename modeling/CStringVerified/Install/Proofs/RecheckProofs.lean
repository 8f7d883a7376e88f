import CStringVerified.Install.Proofs.ExitProofs
import CStringVerified.Install.Proofs.UndoProofs

/-!
# Installing and checking

After a table of fresh items was installed, every item is found as it was left, so `install_check`
accepts it exactly if it asks for what `install` can give: a mode and IDs that stick.
-/

namespace CStringVerified.Install

open Foundation Foundation.Run

/-! ## Modes and IDs that stick -/

section Nodes

variable {env : Env} {uid gid : Id} {perm : Mode} {n d : Node}

theorem file_mode_iff : (handedOver env uid gid (env.withPerm perm n)).stMode &&& 0o755 = perm ↔
    perm &&& 0o755 = perm := by
  rw [handedOver_within, withPerm_within]

/-- Of the bits of 0755 a directory gets those that the umask leaves. -/
theorem newDir_within (env : Env) (perm : Mode) (d : Node) :
    (env.newDir perm d).stMode &&& 0o755 = (perm &&& 0o755) &&& ~~~env.umask := by
  have hgroup : (if env.bsdGroups then 0 else d.stMode &&& 0o2000) &&& 0o755 = 0#32 := by
    split
    · rfl
    · rw [BitVec.and_assoc]
      exact BitVec.and_zero
  have htype : sIfdir &&& 0o755 = 0#32 := rfl
  have hmask : ~~~(env.umask &&& 0o777) &&& 0o755 = 0o755 &&& ~~~env.umask := by
    have hrest : ~~~(0o777 : Mode) &&& 0o755 = 0#32 := rfl
    rw [BitVec.not_and, BitVec.and_or_distrib_right, hrest, BitVec.or_zero, BitVec.and_comm]
  show (sIfdir ||| (perm &&& 0o1777 &&& ~~~(env.umask &&& 0o777)) |||
    if env.bsdGroups then 0 else d.stMode &&& 0o2000) &&& 0o755 = _
  rw [BitVec.and_or_distrib_right, BitVec.and_or_distrib_right, hgroup, htype, BitVec.zero_or,
    BitVec.or_zero]
  calc perm &&& 0o1777 &&& ~~~(env.umask &&& 0o777) &&& 0o755
      = (perm &&& 0o1777 &&& 0o755) &&& ~~~env.umask := by
        rw [BitVec.and_assoc, hmask, BitVec.and_assoc, BitVec.and_assoc, BitVec.and_assoc]
    _ = (perm &&& 0o755) &&& ~~~env.umask := by rw [within_and rfl]

theorem directory_mode_iff : (handedOver env uid gid (env.newDir perm d)).stMode &&& 0o755 = perm ↔
    perm &&& 0o755 = perm ∧ perm &&& env.umask = 0 := by
  rw [handedOver_within, newDir_within]
  constructor
  · intro h
    have hwithin : perm &&& 0o755 = perm := by
      calc perm &&& 0o755 = ((perm &&& 0o755) &&& ~~~env.umask) &&& 0o755 := by rw [h]
        _ = ((perm &&& 0o755) &&& 0o755) &&& ~~~env.umask := by
          rw [BitVec.and_assoc, BitVec.and_comm (~~~env.umask), ← BitVec.and_assoc]
        _ = perm := by rw [BitVec.and_assoc perm, BitVec.and_self, h]
    rw [hwithin] at h
    exact ⟨hwithin, (and_not_eq_iff perm env.umask).mp h⟩
  · rintro ⟨hwithin, h⟩
    rw [hwithin]
    exact (and_not_eq_iff perm env.umask).mpr h

/-- The IDs of a node that the process made, once it is handed over. -/
theorem new_ids_iff (hvalid : ¬(uid = nullId ∨ gid = nullId)) (huid : n.stUid = env.uid) :
    ((handedOver env uid gid n).stUid = uid ∧ (handedOver env uid gid n).stGid = gid) ↔
      (env.uid = uid → n.stGid = gid) := by
  rw [handedOver_ids hvalid, huid]
  exact ⟨fun h heq => (h heq).2, fun h heq => ⟨heq, h heq⟩⟩

end Nodes

/-! ## What can be had -/

/-- The group that a new file has where a pathname leads to: that of the process, or of the directory. -/
def newGroup (w : World) (path : Text) : Option Id :=
  match w.os.fs.find (Foundation.route w.os.cwd path) with
  | .ok (l, _) => (w.os.fs.node l.dropLast).map fun d => (w.env.newFile d).stGid
  | .error _ => none

/-- What a translated item asks for sticks: a mode within 0755, for a directory one that the umask leaves,
and the group of a new file if the owner is the user of the process. A file is copied whole, and a link is
judged by what it leads to. -/
def Sticks (w v : World) (op : InstallOp) (t : Item) (path : Text) (uid gid : Id) : Prop :=
  match wantedType op with
  | .directory => (t.perm &&& 0o755 = t.perm ∧ t.perm &&& w.env.umask = 0) ∧
      (w.env.uid = uid → newGroup w path = some gid)
  | .symlink => ∃ m, statAt v path = some m ∧ m.stMode &&& 0o755 = t.perm ∧ m.stUid = uid ∧ m.stGid = gid
  | _ => t.perm &&& 0o755 = t.perm ∧ (w.env.uid = uid → newGroup w path = some gid) ∧
      ∃ src s, t.src = some src ∧ statAt w src = some s ∧ s.stSize = s.data.length

/-- An item asks for what `install` can give it. -/
def Suits (w v : World) (item : Item) : Prop :=
  ∃ t path uid gid, translated installOpers w item = some t ∧ removedPath item.op t = some path ∧
    wantedIds w.env t = some (uid, gid) ∧ ¬(uid = nullId ∨ gid = nullId) ∧
    Sticks w v item.op t path uid gid

section Placed

variable {w w' v : World} {op : InstallOp} {t : Item} {path src : Text} {l : Loc} {n d : Node}
  {mode : Mode} {type : FileType} {uid gid : Id}

theorem newGroup_eq (hplace : w.os.fs.find (Foundation.route w.os.cwd path) = .ok (l, none))
    (hd : w.os.fs.node l.dropLast = some d) : newGroup w path = some (w.env.newFile d).stGid := by
  simp only [newGroup, hplace, hd, Option.map_some]

/-- A node that is no link is what its pathname leads to. -/
theorem Placed.statAt (h : Placed w op t path l n w') (hgrown : Grown w' v)
    (hlink : sIslnk n.stMode = false) : Install.statAt v path = some n := by
  refine hgrown.statAt (statAt_eq_some.mpr ⟨h.ne, l, ?_⟩)
  rw [h.cwd]
  have hfind := h.added.find h.place
  by_cases hop : op = .instMkdir
  · exact FileSystem.resolve_of_find_dir hfind (h.kind.mpr hop)
  · refine FileSystem.resolve_of_find (h.slash hop) hfind fun m hm => ?_
    cases hm
    exact hlink

theorem Placed.lstatAt (h : Placed w op t path l n w') (hgrown : Grown w' v) (hop : op ≠ .instMkdir) :
    Install.lstatAt v path = some n := by
  obtain ⟨hleads, hn⟩ := FileSystem.find_eq_ok.mp (hgrown.files.find (h.added.find h.place))
  rw [lstatAt_eq_some, FileSystem.lstat_eq_ok, hgrown.cwd, h.cwd, steps_of_slash (h.slash hop)]
  exact ⟨h.ne, l, hleads, hn.symm⟩

/-- The comparisons, where a file is found that is no link. -/
theorem accepts_found_iff (htype : type ≠ .symlink) (hn : Install.statAt v path = some n)
    (hknown : fileTypeOf n.stMode ≠ none) : Accepts v src mode type uid gid path ↔
      (type = .file → ∃ s, Install.statAt v src = some s ∧ s.stSize = n.stSize) ∧
        n.stMode &&& 0o755 = mode ∧ n.stUid = uid ∧ n.stGid = gid := by
  constructor
  · intro h
    obtain ⟨m, hm, hrest⟩ := h.rest
    obtain rfl := Option.some.inj (hn.symm.trans hm)
    refine ⟨fun hfile => ?_, hrest⟩
    obtain ⟨s, m, hs, hm, hsize⟩ := h.size hfile
    obtain rfl := Option.some.inj (hn.symm.trans hm)
    exact ⟨s, hs, hsize⟩
  · rintro ⟨hsize, hrest⟩
    refine ⟨⟨n, (if_neg htype).trans hn, hknown⟩, fun hfile => ?_, n, hn, hrest⟩
    obtain ⟨s, hs, hs'⟩ := hsize hfile
    exact ⟨s, n, hs, hn, hs'⟩

/-- The new file is accepted if its mode, its group and its size are the wanted ones. -/
theorem Placed.file_accepts_iff (h : Placed w op t path l n w') (hop : wantedType op = .file)
    (hgrown : Grown w v) (hgrown' : Grown w' v) (hsrc : t.src = some src)
    (hids : wantedIds w.env t = some (uid, gid)) :
    Accepts v src t.perm .file uid gid path ↔ Sticks w v op t path uid gid := by
  have hmade := h.made
  unfold Created at hmade
  rw [hop] at hmade
  obtain ⟨uid', gid', d, src', s, hids', hvalid, hd, hsrc', hs, rfl⟩ := hmade
  cases hids.symm.trans hids'
  cases hsrc.symm.trans hsrc'
  -- The file is a regular one, with the data of the source.
  have hdata := sameType_withData (w.env.newFile d) s.data
  have htype := (hdata.trans (sameType_withPerm w.env t.perm _)).trans (sameType_handedOver w.env uid gid _)
  have hnew : (⟨sIfreg, 0, 0, []⟩ : Node).SameType (w.env.newFile d) := newFile_type w.env d
  have hknown := fileTypeOf_sameType (hnew.trans htype)
  have hfound := h.statAt hgrown' ((hnew.trans htype).islnk)
  have hsize : (handedOver w.env uid gid (w.env.withPerm t.perm
      ((w.env.newFile d).withData s.data))).stSize = s.data.length := by
    have hreg : sIsreg (w.env.newFile d).stMode = true := hnew.isreg
    rw [stSize_handedOver, stSize_withPerm, stSize_withData hnew.islnk hnew.isdir, if_pos hreg]
  rw [accepts_found_iff (by decide) hfound (by rw [hknown]; exact Option.some_ne_none _), file_mode_iff,
    new_ids_iff hvalid (stUid_withData _ _), hsize]
  unfold Sticks
  rw [hop]
  have hgroup : newGroup w path = some gid ↔ (w.env.newFile d).stGid = gid := by
    rw [newGroup_eq h.place hd, Option.some.injEq]
  have hcopied : ((w.env.withPerm t.perm ((w.env.newFile d).withData s.data)).stGid = gid) ↔
      (w.env.newFile d).stGid = gid := by
    show ((w.env.newFile d).withData s.data).stGid = gid ↔ _
    rw [stGid_withData]
  rw [hgroup, hcopied]
  constructor
  · rintro ⟨hsizes, hmode, hgid⟩
    obtain ⟨s', hs', heq⟩ := hsizes rfl
    obtain rfl := Option.some.inj ((hgrown.statAt hs).symm.trans hs')
    exact ⟨hmode, hgid, src, s, hsrc, hs, heq⟩
  · rintro ⟨hmode, hgid, src', s', hsrc', hs', heq⟩
    obtain rfl := Option.some.inj (hsrc.symm.trans hsrc')
    obtain rfl := Option.some.inj (hs.symm.trans hs')
    exact ⟨fun _ => ⟨s, hgrown.statAt hs, heq⟩, hmode, hgid⟩

/-- The new directory is accepted if its mode and its group are the wanted ones. -/
theorem Placed.directory_accepts_iff (h : Placed w op t path l n w') (hop : wantedType op = .directory)
    (hgrown : Grown w' v) (hids : wantedIds w.env t = some (uid, gid)) :
    Accepts v src t.perm .directory uid gid path ↔ Sticks w v op t path uid gid := by
  have hmade := h.made
  unfold Created at hmade
  rw [hop] at hmade
  obtain ⟨uid', gid', d, hids', hvalid, hd, rfl⟩ := hmade
  cases hids.symm.trans hids'
  have htype := sameType_handedOver w.env uid gid (w.env.newDir t.perm d)
  have hnew : (⟨sIfdir, 0, 0, []⟩ : Node).SameType (w.env.newDir t.perm d) := newDir_type w.env t.perm d
  have hknown := fileTypeOf_sameType (hnew.trans htype)
  have hfound := h.statAt hgrown ((hnew.trans htype).islnk)
  rw [accepts_found_iff (by decide) hfound (by rw [hknown]; exact Option.some_ne_none _),
    directory_mode_iff, new_ids_iff hvalid rfl]
  unfold Sticks
  rw [hop]
  have hgroup : newGroup w path = some gid ↔ (w.env.newDir t.perm d).stGid = gid := by
    rw [newGroup_eq h.place hd, Option.some.injEq]
    rfl
  rw [hgroup]
  exact and_iff_right nofun

/-- The new link is accepted if what it leads to has the wanted mode and IDs. -/
theorem Placed.link_accepts_iff (h : Placed w op t path l n w') (hop : wantedType op = .symlink)
    (hgrown : Grown w' v) :
    Accepts v src t.perm .symlink uid gid path ↔ Sticks w v op t path uid gid := by
  have hmade := h.made
  unfold Created at hmade
  rw [hop] at hmade
  have hmkdir : op ≠ .instMkdir := by
    rintro rfl
    cases hop
  unfold Sticks
  rw [hop]
  constructor
  · exact fun haccepts => haccepts.rest
  · intro hrest
    refine ⟨⟨n, (if_pos rfl).trans (h.lstatAt hgrown hmkdir), ?_⟩, nofun, hrest⟩
    rw [show fileTypeOf n.stMode = some .symlink from hmade]
    exact Option.some_ne_none _

theorem wantedType_cases (op : InstallOp) :
    wantedType op = .file ∨ wantedType op = .directory ∨ wantedType op = .symlink := by
  cases op <;> simp [wantedType]

theorem Placed.accepts_iff (h : Placed w op t path l n w') (hgrown : Grown w v) (hgrown' : Grown w' v)
    (hsrc : wantedType op = .file → t.src = some src) (hids : wantedIds w.env t = some (uid, gid)) :
    Accepts v src t.perm (wantedType op) uid gid path ↔ Sticks w v op t path uid gid := by
  rcases wantedType_cases op with hop | hop | hop
  · rw [hop]
    exact h.file_accepts_iff hop hgrown hgrown' (hsrc hop) hids
  · rw [hop]
    exact h.directory_accepts_iff hop hgrown' hids
  · rw [hop]
    exact h.link_accepts_iff hop hgrown'

end Placed

/-! ## One item -/

/-- The processes have the same user, and the same users are known. -/
structure SameUsers (env env' : Env) : Prop where
  uid : env'.uid = env.uid
  gid : env'.gid = env.gid
  passwd : env'.passwd = env.passwd
  group : env'.group = env.group

theorem SameUsers.wantedIds {env env' : Env} (h : SameUsers env env') (item : Item) :
    wantedIds env' item = Install.wantedIds env item := by
  rw [Install.wantedIds, Install.wantedIds, h.uid, h.gid, h.passwd, h.group]

section Check

variable {w w' u v : World} {item t : Item} {path src dst : Text}

/-- What is checked is what was put in its place. -/
theorem translated_check (ht : translated installOpers v item = some t) (hroom : Room u item.op t)
    (hpath : removedPath item.op t = some path) : ∃ t' src, translated instchkOpers v item = some t' ∧
      checkedSrc item.op t' = some src ∧ checkedDst item.op t' = some path ∧
      (wantedType item.op = .file → t.src = some src) := by
  obtain ⟨v', htrans⟩ := translated_eq_some ht
  have hlink : ∀ op ntran, item.op = op → wantedType op = .symlink →
      (installOpers op).trans = ntran → (instchkOpers op).trans = ntranChk ntran →
      removedPath op t = removedPath .instSymlink t →
      ∃ t', translated instchkOpers v item = some t' ∧ t'.dst = some path ∧ t'.src = t.src := by
    intro op ntran hop htype hinstall hcheck hremoved
    rw [hop] at hroom htrans hpath
    obtain ⟨dir, hdir, hpath⟩ := Option.bind_eq_some_iff.mp (hremoved.symm.trans hpath)
    obtain ⟨dst, hdst, hpath⟩ := Option.bind_eq_some_iff.mp hpath
    have hfresh := hroom.link htype hdir hdst
    have hmax : installMaxPathlen ≤ intMax := by decide
    rw [hinstall] at htrans
    have hchk := ntranChk_of_ok htrans hdir hdst (hfresh.fits.le.trans hmax)
    rw [← hcheck] at hchk
    exact ⟨_, translated_of_ok hop hchk, hpath, rfl⟩
  cases hop : item.op with
  | instCopy =>
    rw [hop] at htrans hpath
    obtain ⟨_, _, srcName, _, _, _, -, -, -, -, -, rfl⟩ := ntranCopy_ok htrans
    exact ⟨_, srcName, translated_of_ok hop htrans, rfl, hpath, fun _ => rfl⟩
  | instCopyExec =>
    rw [hop] at htrans hpath
    obtain ⟨_, _, _, -, -, -, rfl⟩ := ntranCopyExec_ok htrans
    exact ⟨_, _, translated_of_ok hop htrans, rfl, hpath, fun _ => rfl⟩
  | instMkdir =>
    rw [hop] at htrans hpath
    exact ⟨t, path, translated_of_ok hop htrans, hpath, hpath, nofun⟩
  | instSymlink =>
    obtain ⟨t', ht', hdst, hsrc⟩ := hlink .instSymlink ntranLink hop rfl rfl rfl rfl
    rw [hop] at htrans
    obtain ⟨src, _, _, hitem, -, -, rfl⟩ := ntranLink_ok htrans
    exact ⟨t', src, ht', hsrc.trans hitem, hdst, nofun⟩
  | instLiblink =>
    obtain ⟨t', ht', hdst, hsrc⟩ := hlink .instLiblink ntranLiblink hop rfl rfl rfl rfl
    rw [hop] at htrans
    obtain ⟨_, _, _, srcName, _, -, -, -, -, rfl⟩ := ntranLiblink_ok htrans
    exact ⟨t', srcName, ht', hsrc, hdst, nofun⟩

/-- A check whose names are known depends on the IDs and on what is found. -/
theorem checkOk_iff_ids (ht : translated instchkOpers v item = some t)
    (hsrc : checkedSrc item.op t = some src) (hdst : checkedDst item.op t = some dst) :
    CheckOk v item ↔ ∃ uid gid, wantedIds v.env t = some (uid, gid) ∧ ¬(uid = nullId ∨ gid = nullId) ∧
      Accepts v src t.perm (wantedType item.op) uid gid dst := by
  rw [checkOk_iff]
  constructor
  · rintro ⟨t', ht', src', dst', uid, gid, hc, haccepts⟩
    obtain rfl := Option.some.inj (ht.symm.trans ht')
    obtain rfl := Option.some.inj (hsrc.symm.trans hc.src)
    obtain rfl := Option.some.inj (hdst.symm.trans hc.dst)
    exact ⟨uid, gid, hc.ids, hc.valid, haccepts⟩
  · rintro ⟨uid, gid, hids, hvalid, haccepts⟩
    exact ⟨t, ht, src, dst, uid, gid, ⟨hsrc, hdst, hids, hvalid⟩, haccepts⟩

/-- The verdict on an item that was fresh, whenever it is asked for after the item was installed. -/
theorem checkOk_iff_suits (horderly : Orderly w) (hfresh : Fresh w item)
    (h : succeeded (fun item => install item 0) w item = some w') (hgrown : Grown w' v)
    (husers : SameUsers w.env v.env) : CheckOk v item ↔ Suits w v item := by
  have hall := (install_grown horderly hfresh h).trans hgrown
  obtain ⟨status, hrun, hok⟩ := succeeded_eq_some.mp h
  obtain ⟨t, path, l, n, ht, hplaced⟩ := install_placed horderly.calm horderly.tree hfresh hrun hok
  obtain ⟨t', src, ht', hsrc, hdst, hfile⟩ :=
    translated_check (hall.translated ht) (hfresh t ht) hplaced.removed
  obtain ⟨_, htrans⟩ := translated_eq_some ht
  have hwants := installTrans_sameWants htrans
  have hwants' := instchk_sameWants ht'
  have hids : wantedIds v.env t' = wantedIds w.env t := by
    rw [hwants'.wantedIds, husers.wantedIds, hwants.wantedIds]
  have hverdict : ∀ uid gid, wantedIds w.env t = some (uid, gid) →
      (Accepts v src t'.perm (wantedType item.op) uid gid path ↔
        Sticks w v item.op t path uid gid) := by
    intro uid gid hids
    rw [hwants'.perm, ← hwants.perm]
    exact hplaced.accepts_iff hall hgrown hfile hids
  rw [checkOk_iff_ids ht' hsrc hdst, hids]
  constructor
  · rintro ⟨uid, gid, hids, hvalid, haccepts⟩
    exact ⟨t, path, uid, gid, ht, hplaced.removed, hids, hvalid, (hverdict uid gid hids).mp haccepts⟩
  · rintro ⟨t₁, path₁, uid, gid, ht₁, hpath₁, hids, hvalid, hsticks⟩
    obtain rfl := Option.some.inj (ht.symm.trans ht₁)
    obtain rfl := Option.some.inj (hplaced.removed.symm.trans hpath₁)
    exact ⟨uid, gid, hids, hvalid, (hverdict uid gid hids).mpr hsticks⟩

theorem SameFiles.suits (h : SameFiles v u) (w : World) (item : Item) :
    Suits w u item ↔ Suits w v item := by
  unfold Suits Sticks
  simp only [h.statAt]

end Check

/-! ## Tables -/

/-- An undisturbed process of the same user finds what there is. -/
structure Seen (w v : World) : Prop where
  files : SameFiles w v
  globals : v.globals = w.globals
  users : SameUsers w.env v.env
  calm : Undisturbed v.env

section Table

variable {w w' v v' : World} {item : Item} {items : List Item}

theorem Seen.grown (h : Seen w v) (horderly : Orderly w) : Grown w v := by
  refine ⟨?_, h.files.2, h.globals, horderly.calm, h.calm⟩
  rw [h.files.1]
  exact fun _ _ hn => hn

theorem Seen.checked {failures : Nat} (h : Seen w v) (hc : Checked v v' failures) : Seen w v' := by
  refine ⟨h.files.trans hc.files, hc.globals.trans h.globals, ?_, ?_⟩
  · rw [hc.env]
    exact h.users
  · rw [hc.env]
    exact h.calm

theorem installCheck_succeeds_iff :
    (∃ v', succeeded installCheck v item = some v') ↔ CheckOk v item := by
  simp only [succeeded_eq_some]
  exact ⟨fun ⟨v', status, h⟩ => ⟨status, v', h⟩, fun ⟨status, v', h⟩ => ⟨v', status, h⟩⟩

/-- A check that succeeds leaves everything as it is. -/
theorem installCheck_checked (h : succeeded installCheck v item = some v') : Checked v v' 0 := by
  obtain ⟨status, hrun, hok⟩ := succeeded_eq_some.mp h
  rcases installCheck_returns hrun with hnot | ⟨t, src, dst, uid, gid, hc⟩
  · obtain ⟨status', v'', hrun', herror, -⟩ := installCheck_unchecked hnot
    cases hrun.symm.trans hrun'
    rw [hok] at herror
    cases herror
  · obtain ⟨status', v'', hrun', -, -, hchecked⟩ := installCheck_compared hc
    cases hrun.symm.trans hrun'
    rwa [if_pos hok] at hchecked

/-- Nothing of what stays as it is has changed when a table was installed. -/
theorem table_env (h : Foundation.run (succeeded fun item => install item 0) w items = some w') :
    w'.env = w.env := by
  refine run_inv (I := fun u => u.env = w.env) (fun u item u' hu hstep => ?_) h rfl
  obtain ⟨status, hrun, -⟩ := succeeded_eq_some.mp hstep
  exact (Frame.of_run (keeps_install item 0) hrun).env.trans hu

/-- Checking a table of fresh items that was installed succeeds exactly if its items ask for what they
could get. -/
theorem recheck_iff (horderly : Orderly w)
    (hfresh : Along (succeeded fun item => install item 0) Fresh w items)
    (hrun : Foundation.run (succeeded fun item => install item 0) w items = some w')
    (hseen : Seen w' v) :
    (∃ v', Foundation.run (succeeded installCheck) v items = some v') ↔
      Along (succeeded fun item => install item 0) (fun u item => Suits u w' item) w items := by
  induction items generalizing w v with
  | nil => exact iff_of_true ⟨v, rfl⟩ trivial
  | cons item items ih =>
    obtain ⟨w₁, hstep, hrest⟩ := run_cons_eq_some.mp hrun
    have horderly₁ := install_orderly horderly hfresh.1 hstep
    obtain ⟨hgrown, horderly'⟩ := table_grown horderly₁ (hfresh.2 w₁ hstep) hrest
    have husers : SameUsers w.env v.env := by
      rw [← table_env hrun]
      exact hseen.users
    have hhead : CheckOk v item ↔ Suits w w' item :=
      (checkOk_iff_suits horderly hfresh.1 hstep (hgrown.trans (hseen.grown horderly')) husers).trans
        (hseen.files.suits w item)
    have htail : ∀ v₁, succeeded installCheck v item = some v₁ →
        ((∃ v', Foundation.run (succeeded installCheck) v₁ items = some v') ↔
          Along (succeeded fun item => install item 0) (fun u item => Suits u w' item) w₁ items) :=
      fun v₁ hcheck => ih horderly₁ (hfresh.2 w₁ hstep) hrest (hseen.checked (installCheck_checked hcheck))
    constructor
    · rintro ⟨v', hall⟩
      obtain ⟨v₁, hcheck, hchecks⟩ := run_cons_eq_some.mp hall
      refine ⟨hhead.mp (installCheck_succeeds_iff.mp ⟨v₁, hcheck⟩), fun w₂ hstep₂ => ?_⟩
      obtain rfl := Option.some.inj (hstep.symm.trans hstep₂)
      exact (htail v₁ hcheck).mp ⟨v', hchecks⟩
    · rintro ⟨hsuits, halong⟩
      obtain ⟨v₁, hcheck⟩ := installCheck_succeeds_iff.mpr (hhead.mpr hsuits)
      obtain ⟨v', hchecks⟩ := (htail v₁ hcheck).mpr (halong w₁ hstep)
      exact ⟨v', run_cons_eq_some.mpr ⟨v₁, hcheck, hchecks⟩⟩

end Table

end CStringVerified.Install
