import CStringVerified.Foundation.Provides
import CStringVerified.Install.Proofs.CheckProofs
import CStringVerified.Install.Proofs.CopyProofs
import CStringVerified.Install.Proofs.DryRunProofs

/-!
# One path for the three tools

An item names one path: the fake root, its directory, and the final name. `install` creates that path,
`install_check` inspects it, and `deinstall` removes it, unless the final name of a link starts at the
root. A call is handed a pathname that is read in the directory the process is in at that moment: `inst_link`
hands over the final name alone, after it has changed to the directory of the item.
-/

namespace CStringVerified.Install

open Foundation Foundation.Run

/-! ## The path an item names -/

/-- The final name of a file to copy: the base name of the real name of its destination. -/
def copyName (w : World) (item : Item) : Option Text :=
  match item.src with
  | none => none
  | some src =>
    match realName src (w.withErrno 0) with
    | (.ok (some _), w₁) =>
      match realName (item.dst.getD src) w₁ with
      | (.ok (some dst), _) => baseName dst
      | _ => none
    | _ => none

/-- The final name of an item that is no directory. -/
def finalName (w : World) (item : Item) : Option Text :=
  match item.op with
  | .instCopy => copyName w item
  | .instCopyExec => (copyName w item).map (· ++ w.globals.execSuffix)
  | .instSymlink => item.dst
  | .instLiblink => (item.dst.bind baseName).map (· ++ w.globals.dlibSuffix)
  | .instMkdir => none

/-- The path an item names: the fake root, if there is one, the directory, and the final name. -/
def wantedPath (w : World) (item : Item) : Option Text :=
  match item.op with
  | .instMkdir => item.dir.map (rootedPath w.globals.fakeRoot)
  | _ => do
    let dir ← item.dir
    let name ← finalName w item
    some (rootedPath w.globals.fakeRoot (joinPath dir name))

theorem rootedPath_joinPath (root : Option Text) (dir name : Text) :
    rootedPath root (joinPath dir name) = joinPath (rootedPath root dir) name := by
  cases root with
  | none => rfl
  | some root => simp [rootedPath, joinPath]

theorem rootedPath_append (root : Option Text) (dir name suffix : Text) :
    rootedPath root (joinPath dir (name ++ suffix)) =
      rootedPath root (joinPath dir name) ++ suffix := by
  rw [rootedPath_joinPath, rootedPath_joinPath]
  simp [joinPath]

theorem length_joinPath (dir name : Text) :
    (joinPath dir name).length = dir.length + name.length + 1 := by
  simp [joinPath, Nat.add_assoc]

theorem translatedDir_of_lt {root : Option Text} {dir : Text}
    (h : (rootedPath root dir).length < installMaxPathlen) :
    translatedDir root dir = rootedPath root dir := by
  cases root with
  | none => rfl
  | some root => exact cutPath_of_lt h

/-! ## The paths of a translated item -/

/-- Where `install` creates something: a link is made after a change to the directory. -/
def createdPath (op : InstallOp) (t : Item) : Option Text :=
  match op with
  | .instCopy | .instCopyExec => t.dst
  | .instSymlink | .instLiblink => do
    let dir ← t.dir
    let dst ← t.dst
    some (resolveAgainst dir dst)
  | .instMkdir => t.dir

/-- Where `deinstall` removes something. -/
def removedPath (op : InstallOp) (t : Item) : Option Text :=
  match op with
  | .instCopy | .instCopyExec => t.dst
  | .instSymlink | .instLiblink => do
    let dir ← t.dir
    let dst ← t.dst
    some (cutPath (joinPath dir dst))
  | .instMkdir => t.dir

section Translated

variable {w w' : World} {item t : Item} {path : Text}

theorem ntranCopy_copyName (h : ntranCopy item (w.withErrno 0) = (.ok (.ok t), w')) :
    ∃ dir name, item.dir = some dir ∧ copyName w item = some name ∧
      t.dst = some (cutPath (rootedPath w.globals.fakeRoot (joinPath dir name))) := by
  obtain ⟨src, dir, srcName, dstName, base, w₁, hsrc, hdir, hs, hd, hbase, rfl⟩ := ntranCopy_ok h
  refine ⟨dir, base, hdir, ?_, rfl⟩
  simp only [copyName, hsrc, hs, hd, hbase]

/-- The paths of an item that is accepted, when the path it names fits. -/
theorem translated_paths (ht : translated installOpers w item = some t)
    (hpath : wantedPath w item = some path) (hfit : path.length < installMaxPathlen) :
    match item.op with
    | .instCopy | .instCopyExec => t.dst = some path
    | .instSymlink | .instLiblink => ∃ dir name, item.dir = some dir ∧
        t.dir = some (rootedPath w.globals.fakeRoot dir) ∧ t.dst = some name ∧
        finalName w item = some name ∧ path = joinPath (rootedPath w.globals.fakeRoot dir) name
    | .instMkdir => t.dir = some path := by
  obtain ⟨w', htrans⟩ := translated_eq_some ht
  unfold wantedPath at hpath
  cases hop : item.op with
  | instCopy =>
    rw [hop] at htrans hpath
    obtain ⟨dir, name, hdir, hname, hdst⟩ := ntranCopy_copyName htrans
    simp only [hdir, finalName, hop, hname] at hpath
    cases hpath
    simpa [cutPath_of_lt hfit] using hdst
  | instCopyExec =>
    rw [hop] at htrans hpath
    obtain ⟨t₀, src, dst, ht₀, -, hdst₀, rfl⟩ := ntranCopyExec_ok htrans
    obtain ⟨dir, name, hdir, hname, hdst⟩ := ntranCopy_copyName ht₀
    simp only [hdir, finalName, hop, hname] at hpath
    cases hpath
    rw [hdst₀] at hdst
    obtain rfl := Option.some.inj hdst
    rw [rootedPath_append] at hfit
    rw [rootedPath_append]
    have hshort : (rootedPath w.globals.fakeRoot (joinPath dir name)).length < installMaxPathlen := by
      rw [List.length_append] at hfit
      omega
    rw [cutPath_of_lt hshort]
    exact congrArg some (cutPath_of_lt hfit)
  | instSymlink =>
    rw [hop] at htrans hpath
    obtain ⟨src, dir, dst, hsrc, hdir, hdst, rfl⟩ := ntranLink_ok htrans
    simp only [hdir, finalName, hop, hdst] at hpath
    cases hpath
    rw [rootedPath_joinPath] at hfit ⊢
    have hshort : (rootedPath w.globals.fakeRoot dir).length < installMaxPathlen := by
      rw [length_joinPath] at hfit
      omega
    exact ⟨dir, dst, hdir, congrArg some (translatedDir_of_lt hshort), hdst,
      by rw [finalName, hop]; exact hdst, rfl⟩
  | instMkdir =>
    rw [hop] at htrans hpath
    obtain ⟨-, rfl⟩ := ntranMkdir_ok htrans
    obtain ⟨dir, hdir, rfl⟩ := Option.map_eq_some_iff.mp hpath
    simp only [hdir, Option.map_some]
    exact congrArg some (translatedDir_of_lt hfit)
  | instLiblink =>
    rw [hop] at htrans hpath
    obtain ⟨src, dir, dst, srcName, base, hsrc, hdir, hdst, hbase, rfl⟩ := ntranLiblink_ok htrans
    simp only [hdir, finalName, hop, hdst, Option.bind_some, hbase, Option.map_some] at hpath
    cases hpath
    rw [rootedPath_joinPath] at hfit ⊢
    have hlen := hfit
    rw [length_joinPath] at hlen
    have hshort : (rootedPath w.globals.fakeRoot dir).length < installMaxPathlen := by omega
    have hname : (base ++ w.globals.dlibSuffix).length < installMaxPathlen := by omega
    refine ⟨dir, _, hdir, congrArg some (translatedDir_of_lt hshort),
      congrArg some (cutPath_of_lt hname), ?_, rfl⟩
    simp only [finalName, hop, hdst, Option.bind_some, hbase, Option.map_some]
    rfl

end Translated

/-! ## The paths that are acted on -/

/-- The pathnames a call acts on. -/
def pathsWritten : Call → List Text
  | .fopenWrite p | .unlink p | .chmod p _ | .chown p _ _ | .mkdir p _ | .rmdir p | .symlink _ p => [p]
  | .rename p q => [p, q]
  | _ => []

theorem pathsWritten_eq_nil {call : Call} (h : call.writes = false) : pathsWritten call = [] := by
  cases call <;> first | rfl | cases h

/-- What a call made in the directory `cwd` is handed as `q` is called `p` where `w` is: it was made there,
or in the directory that `dir` leads to from there. -/
inductive NamedFrom (w : World) (dir : Text) : Loc → Text → Text → Prop
  | here {q} : NamedFrom w dir w.os.cwd q q
  | inside {cwd q} (h : LeadsTo w dir cwd) : NamedFrom w dir cwd q (resolveAgainst dir q)

/-- `install` acts on the path it creates, on its temporary file, or on the directories above it. -/
def InstallActs (op : InstallOp) (w : World) (dir path : Text) (e : Entry) : Prop :=
  ∀ q ∈ pathsWritten e.call, ∃ p, NamedFrom w dir e.cwd q p ∧
    (p = path ∨ (wantedType op = .file ∧ p = tmpName path) ∨
      (wantedType op = .directory ∧ PathPrefix path p))

/-- `install_check` writes nothing, and looks at the path it inspects and at the source. -/
def CheckActs (op : InstallOp) (t : Item) (w : World) (path : Text) (e : Entry) : Prop :=
  e.call.writes = false ∧ ∀ q, e.call = .stat q ∨ e.call = .lstat q →
    e.cwd = w.os.cwd ∧ (q = path ∨ checkedSrc op t = some q)

/-- `deinstall` acts on the path it removes. -/
def RemoveActs (w : World) (path : Text) (e : Entry) : Prop :=
  ∀ q ∈ pathsWritten e.call, e.cwd = w.os.cwd ∧ q = path

theorem InstallActs.of_quiet {op : InstallOp} {w : World} {dir path : Text} {e : Entry} (h : Quiet e) :
    InstallActs op w dir path e := by
  intro q hq
  rw [pathsWritten_eq_nil h.1] at hq
  cases hq

theorem InstallActs.of_here {op : InstallOp} {w : World} {dir path : Text} {e : Entry}
    (hcwd : e.cwd = w.os.cwd)
    (h : ∀ q ∈ pathsWritten e.call, q = path ∨ (wantedType op = .file ∧ q = tmpName path) ∨
      (wantedType op = .directory ∧ PathPrefix path q)) : InstallActs op w dir path e := by
  intro q hq
  refine ⟨q, ?_, h q hq⟩
  rw [hcwd]
  exact .here

theorem RemoveActs.of_quiet {w : World} {path : Text} {e : Entry} (h : Quiet e) :
    RemoveActs w path e := by
  intro q hq
  rw [pathsWritten_eq_nil h.1] at hq
  cases hq

section Acts

variable {w : World} {t : Item} {flags : BitVec 32} {dir path : Text} {e : Entry} {op : InstallOp}

theorem CopyItemCall.acts (hop : wantedType op = .file) (hdst : t.dst = some path)
    (h : CopyItemCall t flags e.call) (hcwd : e.cwd = w.os.cwd) : InstallActs op w dir path e := by
  refine InstallActs.of_here hcwd ?_
  obtain ⟨call, cwd, ok⟩ := e
  rcases h with ⟨src, -, hcall⟩ | ⟨-, src, dst, -, hdst', hcall⟩
  · obtain rfl : call = .stat src := hcall
    nofun
  · obtain rfl := Option.some.inj (hdst.symm.trans hdst')
    intro q hq
    cases call with
    | fopenWrite p =>
      obtain rfl := List.mem_singleton.mp hq
      exact Or.inr (Or.inl ⟨hop, hcall⟩)
    | unlink p =>
      obtain rfl := List.mem_singleton.mp hq
      exact Or.inr (Or.inl ⟨hop, hcall⟩)
    | chmod p mode =>
      obtain rfl := List.mem_singleton.mp hq
      exact Or.inr (Or.inl ⟨hop, hcall⟩)
    | chown p uid gid =>
      obtain rfl := List.mem_singleton.mp hq
      exact Or.inr (Or.inl ⟨hop, hcall⟩)
    | rename p p' =>
      rcases List.mem_cons.mp hq with rfl | hq
      · exact Or.inr (Or.inl ⟨hop, hcall.1⟩)
      · obtain rfl := List.mem_singleton.mp hq
        exact Or.inl hcall.2
    | _ => first | exact False.elim hcall | cases hq

theorem MkdirItemCall.acts (hop : wantedType op = .directory) (hdir : t.dir = some path)
    (h : MkdirItemCall t flags e.call) (hcwd : e.cwd = w.os.cwd) : InstallActs op w dir path e := by
  refine InstallActs.of_here hcwd ?_
  obtain ⟨call, cwd, ok⟩ := e
  obtain ⟨-, d, hd, hcall⟩ := h
  obtain rfl := Option.some.inj (hdir.symm.trans hd)
  intro q hq
  rcases hcall with ⟨p, hcall, hpath⟩ | ⟨uid, gid, hcall⟩
  · obtain rfl : call = .mkdir p t.perm := hcall
    obtain rfl := List.mem_singleton.mp hq
    exact Or.inr (Or.inr ⟨hop, hpath⟩)
  · obtain rfl : call = .chown path uid gid := hcall
    exact Or.inl (List.mem_singleton.mp hq)

theorem RemoveCall.acts (hpath : removedPath op t = some path)
    (h : RemoveCall op t flags e.call) (hcwd : e.cwd = w.os.cwd) : RemoveActs w path e := by
  intro q hq
  refine ⟨hcwd, ?_⟩
  obtain ⟨call, cwd, ok⟩ := e
  obtain ⟨-, h⟩ := h
  have hfile : ∀ dst, t.dst = some dst → t.dst = some path → dst = path := fun dst h h' =>
    Option.some.inj (h.symm.trans h')
  have hlink : ∀ d dst, t.dir = some d → t.dst = some dst →
      (do let d ← t.dir; let dst ← t.dst; some (cutPath (joinPath d dst))) = some path →
      cutPath (joinPath d dst) = path := by
    intro d dst hd hdst h
    rw [hd, hdst] at h
    exact Option.some.inj h
  cases op with
  | instCopy =>
    obtain ⟨dst, hdst, rfl⟩ := h
    exact (List.mem_singleton.mp hq).trans (hfile dst hdst hpath)
  | instCopyExec =>
    obtain ⟨dst, hdst, rfl⟩ := h
    exact (List.mem_singleton.mp hq).trans (hfile dst hdst hpath)
  | instSymlink =>
    obtain ⟨d, dst, hd, hdst, rfl⟩ := h
    exact (List.mem_singleton.mp hq).trans (hlink d dst hd hdst hpath)
  | instLiblink =>
    obtain ⟨d, dst, hd, hdst, rfl⟩ := h
    exact (List.mem_singleton.mp hq).trans (hlink d dst hd hdst hpath)
  | instMkdir =>
    obtain ⟨d, hd, rfl⟩ := h
    exact (List.mem_singleton.mp hq).trans (Option.some.inj (hd.symm.trans hpath))

/-- A link is made in the directory that `inst_link` has changed to. -/
theorem instLink_acts {name : Text} (hdir : t.dir = some dir) (hdst : t.dst = some name)
    (flags : BitVec 32) (w : World) :
    Logs (InstallActs op w dir (resolveAgainst dir name)) w (instLink t flags w).2 := by
  have hquiet : ∀ {w₁ w₂ : World}, Frame (fun e => pathsWritten e.call = []) w₁ w₂ →
      Logs (InstallActs op w dir (resolveAgainst dir name)) w₁ w₂ := by
    intro w₁ w₂ hframe
    refine hframe.logs fun e he q hq => ?_
    rw [he] at hq
    cases hq
  unfold instLink
  refine keeps_bind_at (hquiet (keeps_getcwd (fun _ _ => rfl) w)) fun pathBuf w₁ hget => ?_
  cases pathBuf with
  | none => exact refl_of (Logs _) w₁
  | some pathBuf =>
    have hos₁ : w₁.os = w.os := by
      rcases getcwd_cases installMaxPathlen w with ⟨w', hget', -, hos⟩ | ⟨w', hget', -⟩
      · rw [hget] at hget'
        cases hget'
        exact hos
      · rw [hget] at hget'
        cases hget'
    simp only [hdir, deref, pure_bind_apply]
    refine keeps_bind_at (hquiet (keeps_chdir (fun _ _ => rfl) w₁)) fun went w₂ hwent => ?_
    split
    · exact refl_of (Logs _) w₂
    · rename_i hne
      have hleads : LeadsTo w dir w₂.os.cwd := by
        rcases chdir_cases dir w₁ with ⟨w', l, hcd, hleads, hos⟩ | ⟨w', hcd, -⟩
        · rw [hwent] at hcd
          cases hcd
          rw [hos]
          rwa [LeadsTo, hos₁] at hleads
        · rw [hwent] at hcd
          cases hcd
          exact absurd rfl hne
      refine keeps_bind_at ?_ fun linked w₃ _ => ?_
      · have hmake : Frame (fun e => ∃ src, e.call = .symlink src name) w₂ (makeLink t flags w₂).2 := by
          refine keeps_makeLink (fun src dst cwd ok _ _ hdst' => ?_) w₂
          exact ⟨src, by rw [Option.some.inj (hdst.symm.trans hdst')]⟩
        refine hmake.logs_here (fun e he => ?_) fun e he hcwd q hq => ?_
        · obtain ⟨src, he⟩ := he
          rw [he]
          rfl
        · obtain ⟨src, he⟩ := he
          rw [he] at hq
          obtain rfl := List.mem_singleton.mp hq
          rw [hcwd]
          exact ⟨_, .inside hleads, Or.inl rfl⟩
      · refine keeps_bind_at (hquiet (keeps_chdir (fun _ _ => rfl) w₃)) fun restored w₄ _ => ?_
        split
        · exact refl_of (Logs _) w₄
        · split <;> exact refl_of (Logs _) w₄

end Acts

/-! ## The calls of the three tools -/

section Runs

variable {w : World} {item t : Item} {path : Text}

theorem sameFiles_of_trans {m : Sys (Except String Item)} {r : Except Crash (Except String Item)}
    {w' : World} (hkeeps : Keeps (Frame Reading) m) (h : m (w.withErrno 0) = (r, w')) : SameFiles w w' :=
  (quiet_of_trans hkeeps h).sameFiles

theorem NamedFrom.congr {w' : World} {dir q p : Text} {cwd : Loc} (hsame : SameFiles w w')
    (h : NamedFrom w' dir cwd q p) : NamedFrom w dir cwd q p := by
  cases h with
  | here =>
    rw [hsame.2]
    exact .here
  | inside hleads =>
    rw [LeadsTo, hsame.1, hsame.2] at hleads
    exact .inside hleads

theorem InstallActs.congr {op : InstallOp} {w' : World} {dir : Text} {e : Entry} (hsame : SameFiles w w')
    (h : InstallActs op w' dir path e) : InstallActs op w dir path e := fun q hq =>
  (h q hq).imp fun _ hp => ⟨hp.1.congr hsame, hp.2⟩

theorem install_acts (ht : translated installOpers w item = some t)
    (hpath : createdPath item.op t = some path) (flags : BitVec 32) :
    Logs (InstallActs item.op w (t.dir.getD []) path) w (install item flags w).2 := by
  obtain ⟨w₁, htrans⟩ := translated_eq_some ht
  have hsame := sameFiles_of_trans (keeps_installTrans item) htrans
  refine runOper_logs (keeps_installTrans item) htrans
    (fun e he => InstallActs.of_quiet he.quiet) (fun e he => InstallActs.of_quiet he.quiet) ?_
  have hcopy : ∀ op, wantedType op = .file → t.dst = some path →
      Logs (InstallActs op w (t.dir.getD []) path) w₁ (instCopy t flags w₁).2 := fun op hop hdst =>
    (keeps_instCopy t flags w₁).logs_here (fun e he => he.moves) fun e he hcwd =>
      he.acts hop hdst (hcwd.trans hsame.2)
  have hlink : ∀ op, (do let dir ← t.dir; let dst ← t.dst; some (resolveAgainst dir dst)) = some path →
      Logs (InstallActs op w (t.dir.getD []) path) w₁ (instLink t flags w₁).2 := by
    intro op h
    obtain ⟨dir, hdir, h⟩ := Option.bind_eq_some_iff.mp h
    obtain ⟨dst, hdst, h⟩ := Option.bind_eq_some_iff.mp h
    obtain rfl := Option.some.inj h
    rw [hdir]
    exact (instLink_acts hdir hdst flags w₁).mono fun e he => he.congr hsame
  cases hop : item.op with
  | instCopy => rw [hop] at hpath; exact hcopy _ rfl hpath
  | instCopyExec => rw [hop] at hpath; exact hcopy _ rfl hpath
  | instSymlink => rw [hop] at hpath; exact hlink _ hpath
  | instMkdir =>
    rw [hop] at hpath
    exact (keeps_instMkdir t flags w₁).logs_here (fun e he => he.moves) fun e he hcwd =>
      he.acts rfl hpath (hcwd.trans hsame.2)
  | instLiblink => rw [hop] at hpath; exact hlink _ hpath

theorem CheckCall.acts {src dst : Text} {e : Entry} (hsrc : checkedSrc item.op t = some src)
    (h : CheckCall src dst e.call) (hcwd : e.cwd = w.os.cwd) : CheckActs item.op t w dst e := by
  obtain ⟨call, cwd, ok⟩ := e
  refine ⟨?_, fun q hq => ⟨hcwd, ?_⟩⟩
  · rcases h with rfl | rfl | rfl <;> rfl
  · rcases h with rfl | rfl | rfl
    · rcases hq with hq | hq
      · cases hq
        exact Or.inr hsrc
      · cases hq
    · rcases hq with hq | hq
      · cases hq
        exact Or.inl rfl
      · cases hq
    · rcases hq with hq | hq
      · cases hq
      · cases hq
        exact Or.inl rfl

/-- The calls satisfy `P`, if they start in the directory `cwd`. -/
def LogsFrom (cwd : Loc) (P : Entry → Prop) (w w' : World) : Prop := w.os.cwd = cwd → Logs P w w'

instance (cwd : Loc) (P : Entry → Prop) : Std.Refl (LogsFrom cwd P) :=
  ⟨fun w _ => refl_of (Logs P) w⟩

theorem check_acts (ht : translated instchkOpers w item = some t)
    (hpath : checkedDst item.op t = some path) :
    Logs (CheckActs item.op t w path) w (installCheck item w).2 := by
  obtain ⟨w₁, htrans⟩ := translated_eq_some ht
  have hsame := sameFiles_of_trans (keeps_instchkTrans item) htrans
  refine runOper_logs (keeps_instchkTrans item) htrans (fun e he => ⟨he.quiet.1, ?_⟩)
    (fun e he => ⟨he.quiet.1, ?_⟩) ?_
  · rintro q (hq | hq) <;> simp [Reading, hq, Call.reads] at he
  · rintro q (hq | hq) <;> simp [Flushing, hq] at he
  · rw [instchkOper_eq]
    refine keeps_withIds (R := LogsFrom w.os.cwd (CheckActs item.op t w path)) (fun uid gid => ?_) w₁
      hsame.2
    refine keeps_deref_bind fun src hsrc => keeps_deref_bind fun dst hdst => fun v hv => ?_
    obtain rfl := Option.some.inj (hpath.symm.trans hdst)
    refine keeps_bind_at ?_ fun status v' _ => ?_
    · have hcheck : Frame (fun e => CheckCall src path e.call) v
          (installFileCheck src t.perm (wantedType item.op) uid gid path v).2 :=
        keeps_installFileCheck (fun call cwd ok hcall => hcall) v
      refine hcheck.logs_here (fun e he => ?_) fun e he hcwd => he.acts hsrc (hcwd.trans hv)
      rcases he with he | he | he <;> rw [he] <;> rfl
    · unfold countFailure
      split
      · exact ⟨[], (List.append_nil _).symm, by simp⟩
      · exact refl_of (Logs _) v'

theorem deinstall_acts (ht : translated deinstOpers w item = some t)
    (hpath : removedPath item.op t = some path) (flags : BitVec 32) :
    Logs (RemoveActs w path) w (deinstall item flags w).2 := by
  obtain ⟨w₁, htrans⟩ := translated_eq_some ht
  have hkeeps : Keeps (Frame Reading) ((deinstOpers item.op).trans item) := by
    rw [deinstOpers_trans]
    exact keeps_installTrans item
  have hsame := sameFiles_of_trans hkeeps htrans
  refine runOper_logs hkeeps htrans (fun e he => RemoveActs.of_quiet he.quiet)
    (fun e he => RemoveActs.of_quiet he.quiet) ?_
  exact (keeps_deinstOper item.op t flags w₁).logs_here (fun e he => he.moves) fun e he hcwd =>
    he.acts hpath (hcwd.trans hsame.2)

end Runs

/-! ## Nothing outside of the fake root -/

/-- A call that succeeds acts on what is called something under the root where `w` is. -/
def Inside (root : Text) (w : World) (dir : Text) (e : Entry) : Prop :=
  e.ok = true → ∀ q ∈ pathsWritten e.call, ∃ p, NamedFrom w dir e.cwd q p ∧ UnderRoot root p

/-- What was written from `w` to `w'` is under the root. -/
def Confined (root dir : Text) (w w' : World) : Prop := Logs (Inside root w dir) w w'

/-- A call that succeeds is made in `cwd`, and acts on pathnames under the root. -/
def InsideFrom (root : Text) (cwd : Loc) (e : Entry) : Prop :=
  e.ok = true → e.cwd = cwd ∧ ∀ q ∈ pathsWritten e.call, UnderRoot root q

theorem InsideFrom.inside {root : Text} {w : World} {e : Entry} (h : InsideFrom root w.os.cwd e)
    (dir : Text) : Inside root w dir e := by
  intro hok q hq
  obtain ⟨hcwd, hunder⟩ := h hok
  rw [hcwd]
  exact ⟨q, .here, hunder q hq⟩

/-- The fake root is there. -/
def Standing (root : Text) (w : World) : Prop := ∃ n, statAt w root = some n

/-- As long as the fake root is there, it stays so, and what is written is under the root. -/
def Fenced (root : Text) (cwd : Loc) (w w' : World) : Prop :=
  w.os.cwd = cwd → Standing root w →
    w'.os.cwd = cwd ∧ Standing root w' ∧ Logs (InsideFrom root cwd) w w'

section Fence

variable {root path : Text} {cwd : Loc}

instance : Std.Refl (Fenced root cwd) :=
  ⟨fun w hcwd hst => ⟨hcwd, hst, refl_of (Logs _) w⟩⟩

instance : IsTrans World (Fenced root cwd) := by
  refine ⟨fun w w' w'' h h' hcwd hst => ?_⟩
  obtain ⟨hcwd', hst', hc⟩ := h hcwd hst
  obtain ⟨hcwd'', hst'', hc'⟩ := h' hcwd' hst'
  exact ⟨hcwd'', hst'', trans_of (Logs _) hc hc'⟩

theorem fenced_refused {w : World} {call : Call} {e : Errno} :
    Fenced root cwd w ((w.record call false).withErrno e) :=
  fun hcwd hst => ⟨hcwd, hst, [⟨call, w.os.cwd, false⟩], rfl, by
    intro e he
    obtain rfl := List.mem_singleton.mp he
    exact fun hok => nomatch hok⟩

/-- A call on a path under the root that leaves the root where it is. -/
theorem fenced_done {w : World} {call : Call} {fs : FileSystem}
    (hst : ∀ n, w.os.fs.stat (Foundation.route w.os.cwd root) = .ok n →
      ∃ m, fs.stat (Foundation.route w.os.cwd root) = .ok m)
    (h : Standing root w → ∀ q ∈ pathsWritten call, UnderRoot root q) :
    Fenced root cwd w ((w.record call true).withOs { w.os with fs := fs }) := by
  intro hcwd hroot
  refine ⟨hcwd, ?_, [⟨call, w.os.cwd, true⟩], rfl, fun e he => ?_⟩
  · obtain ⟨n, hn⟩ := hroot
    obtain ⟨hne, hn⟩ := route_toOption_eq_some.mp hn
    obtain ⟨m, hm⟩ := hst n hn
    exact ⟨m, route_toOption_eq_some.mpr ⟨hne, hm⟩⟩
  · obtain rfl := List.mem_singleton.mp he
    exact fun _ => ⟨hcwd, h hroot⟩

theorem keeps_mkdir_fenced {perm : Mode} {rest : Text} (hroot : root ≠ [])
    (hpath : PathPrefix (joinPath root rest) path) : Keeps (Fenced root cwd) (mkdir path perm) := by
  intro w
  rcases fsCall_cases (.mkdir path perm) _ w with ⟨fs, -, hf, hrun⟩ | ⟨e, -, hrun⟩
  · have hmkdir : mkdir path perm w = (.ok 0, _) := hrun
    rw [hmkdir]
    obtain ⟨-, hf⟩ := route_bind hf
    obtain ⟨l, d, hfind, -, -, rfl⟩ := FileSystem.create_eq hf
    refine fenced_done (fun n hn => ?_) fun hst q hq => ?_
    · obtain ⟨loc, hres⟩ := FileSystem.stat_eq_ok.mp hn
      exact ⟨n, FileSystem.stat_eq_ok.mpr
        ⟨loc, (FileSystem.grows_put (FileSystem.find_node hfind) _).resolve hres⟩⟩
    · obtain rfl := List.mem_singleton.mp hq
      obtain ⟨habs, hcomp⟩ := hpath.spec
      obtain ⟨habs', hcomp'⟩ := underRoot_joinPath hroot rest
      rw [habs'] at habs
      refine ⟨habs, ?_⟩
      -- The path made and the root are on one line: if the path were above the root, it would be there.
      rcases List.prefix_or_prefix_of_prefix hcomp hcomp' with habove | hbelow
      · obtain ⟨n, hn⟩ := hst
        obtain ⟨-, hn⟩ := route_toOption_eq_some.mp hn
        have hdir : (Foundation.route w.os.cwd q).dir = (Foundation.route w.os.cwd root).dir := by
          rw [Foundation.route, Foundation.route, habs]
        exact absurd rfl (FileSystem.find_above hn hdir (route_names_above habove) hfind)
      · exact hbelow
  · have hmkdir : mkdir path perm w = (.ok (-1), _) := hrun
    rw [hmkdir]
    exact fenced_refused

theorem keeps_chown_fenced {uid gid : Id} (h : UnderRoot root path) :
    Keeps (Fenced root cwd) (iposixFileOwnershipSet path uid gid) := by
  refine Keeps.bind (fun w => ?_) fun _ => keeps_pure _
  rcases fsCall_cases (.chown path uid gid) _ w with ⟨fs, -, hf, hrun⟩ | ⟨e, -, hrun⟩
  · have hchown : chown path uid gid w = (.ok 0, _) := hrun
    rw [hchown]
    obtain ⟨-, hf⟩ := route_bind hf
    refine fenced_done (fun n hn => ?_) fun _ q hq => ?_
    · refine (FileSystem.alike_update (route_ne_nil _ _) (fun m m' hm => ?_) hf).stat hn
      split at hm
      · cases hm
      · cases hm
        exact sameType_chowned w.env uid gid m
    · obtain rfl := List.mem_singleton.mp hq
      exact h
  · have hchown : chown path uid gid w = (.ok (-1), _) := hrun
    rw [hchown]
    exact fenced_refused

theorem keeps_instMkdir_fenced {t : Item} {rest : Text} {flags : BitVec 32} (hroot : root ≠ [])
    (hdir : t.dir = some (joinPath root rest)) :
    Keeps (Fenced root cwd) (instMkdir t flags) := by
  refine keeps_instMkdir_of (fun w => refl_of (Fenced root cwd) w) ?_ ?_
  · intro _ d p hd hp
    obtain rfl := Option.some.inj (hdir.symm.trans hd)
    exact keeps_mkdir_fenced hroot hp
  · intro _ d uid gid hd
    obtain rfl := Option.some.inj (hdir.symm.trans hd)
    exact keeps_chown_fenced (underRoot_joinPath hroot rest)

end Fence

/-! ## One path -/

section OnePath

variable {w : World} {item t : Item} {path : Text}

theorem translated_deinst (w : World) (item : Item) :
    translated deinstOpers w item = translated installOpers w item := by
  rw [translated, translated, deinstOpers_trans]

theorem ntranChk_of_ok {ntran : Item → Sys (Except String Item)} {dir dst : Text} {w' : World}
    (h : ntran item w = (.ok (.ok t), w')) (hdir : t.dir = some dir) (hdst : t.dst = some dst)
    (hlen : (joinPath dir dst).length ≤ intMax) :
    ntranChk ntran item w =
      (.ok (.ok { t with dst := some (cutPath (joinPath dir dst)) }), w') := by
  have hfmt : snprintf installMaxPathlen (joinPath dir dst) = some (cutPath (joinPath dir dst)) :=
    if_pos hlen
  refine (bind_ok h).trans ?_
  simp only [hdir, hdst, deref, pure_bind_apply, hfmt]
  rfl

/-- The check accepts what the installer accepts, and inspects the path the item names. -/
theorem inspected_path (ht : translated installOpers w item = some t)
    (hpath : wantedPath w item = some path) (hfit : path.length < installMaxPathlen) :
    ∃ t', translated instchkOpers w item = some t' ∧ checkedDst item.op t' = some path := by
  have hpaths := translated_paths ht hpath hfit
  obtain ⟨w', htrans⟩ := translated_eq_some ht
  have hlink : ∀ ntran, ntran item (w.withErrno 0) = (.ok (.ok t), w') →
      (∃ dir name, item.dir = some dir ∧ t.dir = some (rootedPath w.globals.fakeRoot dir) ∧
        t.dst = some name ∧ finalName w item = some name ∧
        path = joinPath (rootedPath w.globals.fakeRoot dir) name) →
      ntranChk ntran item (w.withErrno 0) = (.ok (.ok { t with dst := some path }), w') := by
    rintro ntran hntran ⟨dir, name, -, hdir, hdst, -, rfl⟩
    have hmax : installMaxPathlen ≤ intMax := by decide
    rw [ntranChk_of_ok hntran hdir hdst (by omega), cutPath_of_lt hfit]
  cases hop : item.op with
  | instCopy =>
    rw [hop] at hpaths htrans
    exact ⟨t, translated_of_ok hop htrans, hpaths⟩
  | instCopyExec =>
    rw [hop] at hpaths htrans
    exact ⟨t, translated_of_ok hop htrans, hpaths⟩
  | instMkdir =>
    rw [hop] at hpaths htrans
    exact ⟨t, translated_of_ok hop htrans, hpaths⟩
  | instSymlink =>
    rw [hop] at hpaths htrans
    exact ⟨_, translated_of_ok hop (hlink ntranLink htrans hpaths), rfl⟩
  | instLiblink =>
    rw [hop] at hpaths htrans
    exact ⟨_, translated_of_ok hop (hlink ntranLiblink htrans hpaths), rfl⟩

/-- `deinstall` removes the path the item names. -/
theorem removed_path (ht : translated installOpers w item = some t)
    (hpath : wantedPath w item = some path) (hfit : path.length < installMaxPathlen) :
    removedPath item.op t = some path := by
  have hpaths := translated_paths ht hpath hfit
  have hlink : (∃ dir name, item.dir = some dir ∧ t.dir = some (rootedPath w.globals.fakeRoot dir) ∧
        t.dst = some name ∧ finalName w item = some name ∧
        path = joinPath (rootedPath w.globals.fakeRoot dir) name) →
      (do let dir ← t.dir; let dst ← t.dst; some (cutPath (joinPath dir dst))) = some path := by
    rintro ⟨dir, name, -, hdir, hdst, -, rfl⟩
    rw [hdir, hdst]
    exact congrArg some (cutPath_of_lt hfit)
  cases hop : item.op with
  | instCopy => rw [hop] at hpaths; exact hpaths
  | instCopyExec => rw [hop] at hpaths; exact hpaths
  | instSymlink => rw [hop] at hpaths; exact hlink hpaths
  | instMkdir => rw [hop] at hpaths; exact hpaths
  | instLiblink => rw [hop] at hpaths; exact hlink hpaths

/-- A link's final name does not start at the root, or its directory is the root. -/
def LinkInside (w : World) (item : Item) : Prop :=
  wantedType item.op = .symlink → ∀ dir name, item.dir = some dir → finalName w item = some name →
    isAbsolute name = false ∨ ∀ c ∈ rootedPath w.globals.fakeRoot dir, c = '/'

/-- `install` creates the path the item names, exactly if the item is no link that starts at the
root. -/
theorem created_path (ht : translated installOpers w item = some t)
    (hpath : wantedPath w item = some path) (hfit : path.length < installMaxPathlen) :
    ∃ p, createdPath item.op t = some p ∧ (SamePath p path ↔ LinkInside w item) := by
  have hpaths := translated_paths ht hpath hfit
  have hother : wantedType item.op ≠ .symlink → (SamePath path path ↔ LinkInside w item) := fun h =>
    iff_of_true (SamePath.refl path) fun hlink => absurd hlink h
  have hlink : wantedType item.op = .symlink →
      (∃ dir name, item.dir = some dir ∧ t.dir = some (rootedPath w.globals.fakeRoot dir) ∧
        t.dst = some name ∧ finalName w item = some name ∧
        path = joinPath (rootedPath w.globals.fakeRoot dir) name) →
      ∃ p, (do let dir ← t.dir; let dst ← t.dst; some (resolveAgainst dir dst)) = some p ∧
        (SamePath p path ↔ LinkInside w item) := by
    rintro hop ⟨dir, name, hitem, hdir, hdst, hname, rfl⟩
    refine ⟨_, by rw [hdir, hdst]; rfl, ?_⟩
    rw [samePath_resolveAgainst]
    constructor
    · intro h _ dir' name' hdir' hname'
      obtain rfl := Option.some.inj (hitem.symm.trans hdir')
      obtain rfl := Option.some.inj (hname.symm.trans hname')
      exact h
    · intro h
      exact h hop dir name hitem hname
  cases hop : item.op with
  | instCopy => rw [hop] at hpaths hother; exact ⟨path, hpaths, hother (by decide)⟩
  | instCopyExec => rw [hop] at hpaths hother; exact ⟨path, hpaths, hother (by decide)⟩
  | instSymlink => rw [hop] at hpaths hlink; exact hlink rfl hpaths
  | instMkdir => rw [hop] at hpaths hother; exact ⟨path, hpaths, hother (by decide)⟩
  | instLiblink => rw [hop] at hpaths hlink; exact hlink rfl hpaths

theorem wantedPath_root {root : Text} (hpath : wantedPath w item = some path)
    (hroot : w.globals.fakeRoot = some root) : ∃ rest, path = joinPath root rest := by
  have hfile : (do
      let dir ← item.dir
      let name ← finalName w item
      some (rootedPath w.globals.fakeRoot (joinPath dir name))) = some path →
      ∃ rest, path = joinPath root rest := by
    intro h
    obtain ⟨dir, -, h⟩ := Option.bind_eq_some_iff.mp h
    obtain ⟨name, -, h⟩ := Option.bind_eq_some_iff.mp h
    rw [hroot] at h
    exact ⟨_, (Option.some.inj h).symm⟩
  unfold wantedPath at hpath
  cases hop : item.op with
  | instCopy => rw [hop] at hpath; exact hfile hpath
  | instCopyExec => rw [hop] at hpath; exact hfile hpath
  | instSymlink => rw [hop] at hpath; exact hfile hpath
  | instMkdir =>
    rw [hop, hroot] at hpath
    obtain ⟨dir, -, hdir⟩ := Option.map_eq_some_iff.mp hpath
    exact ⟨dir, hdir.symm⟩
  | instLiblink => rw [hop] at hpath; exact hfile hpath

theorem tmpName_joinPath {root rest : Text} (h : (joinPath root rest).length < installMaxPathlen) :
    ∃ rest', tmpName (joinPath root rest) = joinPath root rest' := by
  unfold tmpName
  rw [List.take_append, List.take_of_length_le (Nat.le_sub_one_of_lt h)]
  exact ⟨rest ++ _, by rw [joinPath, joinPath, List.append_assoc]; rfl⟩

/-- What `install` writes is under the fake root, unless a link starts at the root. -/
theorem install_confined {root : Text} (flags : BitVec 32)
    (ht : translated installOpers w item = some t) (hpath : wantedPath w item = some path)
    (hfit : path.length < installMaxPathlen) (hroot : w.globals.fakeRoot = some root)
    (hst : Standing root w) (hinside : LinkInside w item) :
    Confined root (t.dir.getD []) w (install item flags w).2 := by
  obtain ⟨n, hstat⟩ := hst
  obtain ⟨hne, -⟩ := statAt_eq_some.mp hstat
  obtain ⟨rest, rfl⟩ := wantedPath_root hpath hroot
  have hunder := underRoot_joinPath hne rest
  have hpaths := translated_paths ht hpath hfit
  obtain ⟨p, hcreated, hsame⟩ := created_path ht hpath hfit
  by_cases hdir : wantedType item.op = .directory
  · have hop : item.op = .instMkdir := by
      cases hop : item.op <;> rw [hop] at hdir <;> first | rfl | cases hdir
    rw [hop] at hpaths
    obtain ⟨w₁, htrans⟩ := translated_eq_some ht
    have hfiles := sameFiles_of_trans (keeps_installTrans item) htrans
    have hquiet : ∀ e, Quiet e → Inside root w (t.dir.getD []) e := by
      intro e he _ q hq
      rw [pathsWritten_eq_nil he.1] at hq
      cases hq
    refine runOper_logs (keeps_installTrans item) htrans (fun e he => hquiet e he.quiet)
      (fun e he => hquiet e he.quiet) ?_
    rw [hop]
    have hst₁ : Standing root w₁ := ⟨n, by rw [hfiles.statAt, hstat]⟩
    exact (keeps_instMkdir_fenced hne hpaths w₁ hfiles.2 hst₁).2.2.mono fun e he => he.inside _
  · refine (install_acts ht hcreated flags).mono fun e he _ q hq => ?_
    obtain ⟨q', hnamed, hq'⟩ := he q hq
    refine ⟨q', hnamed, ?_⟩
    rcases hq' with rfl | ⟨hfile, rfl⟩ | ⟨hd, -⟩
    · exact hunder.congr (hsame.mpr hinside)
    · have hp : p = joinPath root rest := by
        cases hop : item.op with
        | instCopy => rw [hop] at hpaths hcreated; exact Option.some.inj (hcreated.symm.trans hpaths)
        | instCopyExec =>
          rw [hop] at hpaths hcreated
          exact Option.some.inj (hcreated.symm.trans hpaths)
        | _ => rw [hop] at hfile; cases hfile
      obtain ⟨rest', hrest'⟩ := tmpName_joinPath hfit
      rw [hp, hrest']
      exact underRoot_joinPath hne rest'
    · exact absurd hd hdir

/-- `install` in `w₁`, `install_check` in `w₂` and `deinstall` in `w₃` act on one path, and under the
fake root. -/
structure OnePath (w₁ w₂ w₃ : World) (item : Item) (path : Text) : Prop where
  created : ∃ t p, translated installOpers w₁ item = some t ∧ createdPath item.op t = some p ∧
    (∀ flags, Logs (InstallActs item.op w₁ (t.dir.getD []) p) w₁ (install item flags w₁).2) ∧
    SamePath p path
  inspected : ∃ t p, translated instchkOpers w₂ item = some t ∧ checkedDst item.op t = some p ∧
    Logs (CheckActs item.op t w₂ p) w₂ (installCheck item w₂).2 ∧ SamePath p path
  removed : ∃ t p, translated deinstOpers w₃ item = some t ∧ removedPath item.op t = some p ∧
    (∀ flags, Logs (RemoveActs w₃ p) w₃ (deinstall item flags w₃).2) ∧ SamePath p path
  confined : ∀ root, w₁.globals.fakeRoot = some root →
    (∀ t flags, translated installOpers w₁ item = some t →
      Confined root (t.dir.getD []) w₁ (install item flags w₁).2) ∧
    Confined root [] w₂ (installCheck item w₂).2 ∧
    ∀ flags, Confined root [] w₃ (deinstall item flags w₃).2

end OnePath

/-- A link `/x` in the directory `d`. -/
def absoluteLink : Item := ⟨.instSymlink, some ['a'], some ['/', 'x'], some ['d'], none, none, 0⟩

/-- A link `x` in the directory `d`. -/
def relativeLink : Item := { absoluteLink with dst := some ['x'] }

/-- The fake root `r`, with a directory `d`. -/
def rootedWorld : World :=
  { World.ofFiles [([], ⟨sIfdir ||| 0o755, 0, 0, []⟩), (component ['r'], ⟨sIfdir ||| 0o755, 0, 0, []⟩),
      (components ['r', '/', 'd'], ⟨sIfdir ||| 0o755, 0, 0, []⟩)] with
    globals := ⟨some ['/', 'r'], [], ['.', 's', 'o']⟩ }

end CStringVerified.Install
