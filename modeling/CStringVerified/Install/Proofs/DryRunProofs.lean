import CStringVerified.Foundation.Links
import CStringVerified.Install.Proofs.TranslationProofs

/-!
# Dry runs, and the working directory

A dry run makes no call that writes. A link is made between two changes of directory, of which the
second leads back to where the process was: the directory it was in can be found then, and still can
after the link was made.
-/

namespace CStringVerified.Install

open Foundation Foundation.Run

/-! ## The working directory -/

/-- The process can be told to go to the directory `cwd`. -/
def Reachable (cwd : Loc) (w : World) : Prop :=
  ∃ n, w.os.fs.find ⟨[], cwd, false⟩ = .ok (cwd, some n) ∧ sIsdir n.stMode = true

theorem getcwd_cases (size : Nat) (w : World) :
    (∃ w', getcwd size w = (.ok (some (render w.os.cwd)), w') ∧ Reachable w.os.cwd w ∧
      w'.os = w.os) ∨
    ∃ w', getcwd size w = (.ok none, w') ∧ w'.os = w.os := by
  rcases sysCall_cases .getcwd _ w with ⟨a, os, -, hf, hrun⟩ | ⟨e, -, hrun⟩
  · have hget : getcwd size w = (.ok (some a), _) := hrun
    split at hf
    · rename_i loc n hfind
      split at hf
      · cases hf
      · rename_i hcond
        rw [not_or, not_ne_iff] at hcond
        obtain ⟨rfl, hdir⟩ := hcond
        split at hf
        · cases hf
        · cases hf
          exact Or.inl ⟨_, hget, ⟨n, hfind, by simpa using hdir⟩, rfl⟩
    · cases hf
  · exact Or.inr ⟨_, hrun, rfl⟩

theorem route_render_world (w : World) (cwd : Loc) :
    w.route (render cwd) = .ok (Foundation.route w.os.cwd (render cwd)) := by
  have hne : render cwd ≠ [] := by cases cwd <;> simp [render]
  rw [World.route, if_neg hne]

/-- Going to a directory by its pathname succeeds, unless the call is refused. -/
theorem chdir_render {cwd : Loc} {w : World} (h : Reachable cwd w) :
    (∃ w', chdir (render cwd) w = (.ok 0, w') ∧ w'.os.cwd = cwd) ∨
      ∃ w', chdir (render cwd) w = (.ok (-1), w') ∧ w'.os = w.os ∧
        w'.log = w.log ++ [⟨.chdir (render cwd), w.os.cwd, false⟩] := by
  obtain ⟨n, hfind, hdir⟩ := h
  rcases sysCall_cases (.chdir (render cwd)) _ w with ⟨a, os, -, hf, hrun⟩ | ⟨e, -, hrun⟩
  · refine Or.inl ⟨_, bind_ok hrun, ?_⟩
    simp only [route_render_world, bind, Except.bind,
      FileSystem.resolve_render hfind hdir w.os.cwd, hdir, if_true] at hf
    cases hf
    rfl
  · exact Or.inr ⟨_, bind_ok hrun, rfl, rfl⟩

/-- The pathname `dir` leads to the directory `l`. -/
def LeadsTo (w : World) (dir : Text) (l : Loc) : Prop :=
  dir ≠ [] ∧ ∃ n, w.os.fs.resolve (Foundation.route w.os.cwd dir) = .ok (l, some n) ∧
    sIsdir n.stMode = true

theorem chdir_cases (path : Text) (w : World) :
    (∃ w' l, chdir path w = (.ok 0, w') ∧ LeadsTo w path l ∧ w'.os = { w.os with cwd := l }) ∨
      ∃ w', chdir path w = (.ok (-1), w') ∧ w'.os = w.os := by
  rcases sysCall_cases (.chdir path) _ w with ⟨a, os, -, hf, hrun⟩ | ⟨e, -, hrun⟩
  · have hmoved : chdir path w = (.ok 0, _) := bind_ok hrun
    obtain ⟨hne, hf⟩ := route_bind hf
    obtain ⟨⟨l, r⟩, hres, hf⟩ := ok_of_bind hf
    cases r with
    | none => cases hf
    | some n =>
      dsimp only at hf
      split at hf
      · rename_i hdir
        cases hf
        exact Or.inl ⟨_, l, hmoved, ⟨hne, n, hres, hdir⟩, rfl⟩
      · cases hf
  · exact Or.inr ⟨_, bind_ok hrun, rfl⟩

theorem symlink_cases (target path : Text) (w : World) :
    (∃ w' loc d, symlink target path w = (.ok 0, w') ∧ w.os.fs.node loc = none ∧
      w'.os = { w.os with fs := w.os.fs.put loc (w.env.newLink target d) }) ∨
      ∃ w', symlink target path w = (.ok (-1), w') ∧ w'.os = w.os := by
  rcases fsCall_cases (.symlink target path) _ w with ⟨fs, -, hf, hrun⟩ | ⟨e, -, hrun⟩
  · have hsym : symlink target path w = (.ok 0, _) := hrun
    obtain ⟨-, hf⟩ := route_bind hf
    split at hf
    · cases hf
    · obtain ⟨loc, d, hfind, -, -, rfl⟩ := FileSystem.create_eq hf
      exact Or.inl ⟨_, loc, d, hsym, FileSystem.find_node hfind, rfl⟩
  · exact Or.inr ⟨_, hrun, rfl⟩

/-- Making the link leaves the process where it is, and every directory within reach. -/
theorem makeLink_keeps {item : Item} (flags : BitVec 32) {src dst : Text} {cwd : Loc} {w : World}
    (hsrc : item.src = some src) (hdst : item.dst = some dst) (h : Reachable cwd w) :
    ∃ linked w', makeLink item flags w = (.ok linked, w') ∧ w'.os.cwd = w.os.cwd ∧
      Reachable cwd w' := by
  unfold makeLink
  split
  · rw [hsrc, hdst]
    simp only [deref, pure_bind_apply]
    rcases symlink_cases src dst w with ⟨w', loc, d, hrun, habsent, hos⟩ | ⟨w', hrun, hos⟩
    · refine ⟨_, w', bind_ok hrun, by rw [hos], ?_⟩
      obtain ⟨n, hn, hdir⟩ := h
      exact ⟨n, by rw [hos]; exact (FileSystem.grows_put habsent _).find hn, hdir⟩
    · refine ⟨_, w', bind_ok hrun, by rw [hos], ?_⟩
      rwa [Reachable, hos]
  · exact ⟨1, w, rfl, rfl, h⟩

/-- The call that was to lead back to the directory `cwd`, and failed. -/
def FailedReturn (cwd : Loc) (e : Entry) : Prop :=
  e.call = .chdir (render cwd) ∧ e.cwd ≠ cwd ∧ e.ok = false

/-- The working directory is what it was, unless the call that leads back to it failed. -/
def CwdKept (w w' : World) : Prop :=
  ∃ es, w'.log = w.log ++ es ∧ (w'.os.cwd = w.os.cwd ∨ ∃ e ∈ es, FailedReturn w.os.cwd e)

instance : Std.Refl CwdKept := ⟨fun _ => ⟨[], (List.append_nil _).symm, Or.inl rfl⟩⟩

instance : IsTrans World CwdKept := by
  refine ⟨fun w w' w'' h h' => ?_⟩
  obtain ⟨es, hlog, hcwd⟩ := h
  obtain ⟨es', hlog', hcwd'⟩ := h'
  refine ⟨es ++ es', by rw [hlog', hlog, List.append_assoc], ?_⟩
  rcases hcwd with hcwd | ⟨e, he, hret⟩
  · rcases hcwd' with hcwd' | ⟨e, he, hret⟩
    · exact Or.inl (hcwd'.trans hcwd)
    · exact Or.inr ⟨e, List.mem_append_right es he, hcwd ▸ hret⟩
  · exact Or.inr ⟨e, List.mem_append_left es' he, hret⟩

theorem Frame.cwdKept {P : Entry → Prop} {w w' : World} (h : Frame P w w')
    (hcwd : w'.os.cwd = w.os.cwd) : CwdKept w w' := by
  obtain ⟨es, hlog, -⟩ := h.calls
  exact ⟨es, hlog, Or.inl hcwd⟩

/-- `inst_link` leads back to where it started, unless it is refused to. -/
theorem instLink_cwd {item : Item} {src dst dir : Text} (flags : BitVec 32) (w : World)
    (hsrc : item.src = some src) (hdst : item.dst = some dst) (hdir : item.dir = some dir) :
    CwdKept w (instLink item flags w).2 := by
  have hframe := keeps_instLink item flags w
  unfold instLink at hframe ⊢
  rcases getcwd_cases installMaxPathlen w with ⟨w₁, hget, hreach, hos₁⟩ | ⟨w₁, hget, hos₁⟩
  · rw [bind_ok hget] at hframe ⊢
    simp only [hdir, deref, pure_bind_apply] at hframe ⊢
    rcases chdir_cases dir w₁ with ⟨w₂, l, hcd, -, hos₂⟩ | ⟨w₂, hcd, hos₂⟩
    · rw [bind_ok hcd, if_neg (by decide)] at hframe ⊢
      have hreach₂ : Reachable w.os.cwd w₂ := by
        rw [Reachable, hos₂, hos₁]
        exact hreach
      obtain ⟨linked, w₃, hlink, -, hreach₃⟩ := makeLink_keeps flags hsrc hdst hreach₂
      rw [bind_ok hlink] at hframe ⊢
      rcases chdir_render hreach₃ with ⟨w₄, hback, hcwd⟩ | ⟨w₄, hback, hos₄, hlog⟩
      · rw [bind_ok hback, if_neg (by decide)] at hframe ⊢
        refine hframe.cwdKept ?_
        split <;> exact hcwd
      · rw [bind_ok hback, if_pos rfl] at hframe ⊢
        by_cases hcwd : w₃.os.cwd = w.os.cwd
        · exact hframe.cwdKept (by rw [← hcwd, ← hos₄]; rfl)
        · -- The frame of the calls before the last one gives the log up to it.
          have h₁ : Frame (fun _ => True) w w₁ :=
            Frame.of_run (keeps_getcwd fun _ _ => trivial) hget
          have h₂ : Frame (fun _ => True) w₁ w₂ :=
            Frame.of_run (keeps_chdir fun _ _ => trivial) hcd
          have h₃ : Frame (fun _ => True) w₂ w₃ :=
            Frame.of_run (keeps_makeLink fun _ _ _ _ _ _ _ => trivial) hlink
          obtain ⟨es, hes, -⟩ := ((h₁.trans h₂).trans h₃).calls
          refine ⟨es ++ [⟨.chdir (render w.os.cwd), w₃.os.cwd, false⟩], ?_, Or.inr ⟨_,
            List.mem_append_right es (List.mem_singleton_self _), rfl, hcwd, rfl⟩⟩
          rw [← List.append_assoc, ← hes]
          exact hlog
    · rw [bind_ok hcd, if_pos rfl] at hframe ⊢
      exact hframe.cwdKept (by rw [← hos₁, ← hos₂]; rfl)
  · rw [bind_ok hget] at hframe ⊢
    exact hframe.cwdKept (by rw [← hos₁]; rfl)

/-! ## Items -/

theorem keeps_cwdKept {α : Type} {m : Sys α} {P : Entry → Prop} (h : Keeps (Frame P) m)
    (hP : ∀ e, P e → e.call.moves = false) : Keeps CwdKept m :=
  h.mono fun _ _ hf => hf.cwdKept (hf.cwd_eq hP)

theorem CopyItemCall.moves {item : Item} {flags : BitVec 32} {call : Call}
    (h : CopyItemCall item flags call) : call.moves = false := by
  rcases h with ⟨src, -, rfl⟩ | ⟨-, src, dst, -, -, hcall⟩
  · rfl
  · cases call <;> first | rfl | cases hcall

theorem MkdirItemCall.moves {item : Item} {flags : BitVec 32} {call : Call}
    (h : MkdirItemCall item flags call) : call.moves = false := by
  obtain ⟨-, dir, -, ⟨path, rfl, -⟩ | ⟨uid, gid, rfl⟩⟩ := h
  · rfl
  · rfl

theorem RemoveCall.moves {op : InstallOp} {item : Item} {flags : BitVec 32} {call : Call}
    (h : RemoveCall op item flags call) : call.moves = false := by
  obtain ⟨-, h⟩ := h
  cases op with
  | instCopy => obtain ⟨dst, -, rfl⟩ := h; rfl
  | instCopyExec => obtain ⟨dst, -, rfl⟩ := h; rfl
  | instSymlink => obtain ⟨dir, dst, -, -, rfl⟩ := h; rfl
  | instMkdir => obtain ⟨dir, -, rfl⟩ := h; rfl
  | instLiblink => obtain ⟨dir, dst, -, -, rfl⟩ := h; rfl

/-- The calls around an item keep the working directory, whatever the item is. -/
theorem keeps_runOper_cwd {opers : InstallOp → Instop} {item : Item} {flags : BitVec 32}
    (htrans : Keeps (Frame Reading) ((opers item.op).trans item))
    (hoper : ∀ t w w', (opers item.op).trans item w = (.ok (.ok t), w') →
      Keeps CwdKept ((opers item.op).oper t flags)) :
    Keeps CwdKept (runOper opers item flags) :=
  keeps_runOper (keeps_cwdKept (keeps_iposixErrorReset (P := Reading)) fun _ h => h.quiet.2)
    (keeps_cwdKept htrans fun _ h => h.quiet.2) hoper
    (keeps_cwdKept (keeps_fflushAll (P := Quiet) fun _ _ => ⟨rfl, rfl⟩) fun _ h => h.2)

theorem keeps_install_cwd (item : Item) (flags : BitVec 32) :
    Keeps CwdKept (install item flags) := by
  refine keeps_runOper_cwd (keeps_installTrans item) fun t w w' ht => ?_
  have hcopy : Keeps CwdKept (instCopy t flags) :=
    keeps_cwdKept (keeps_instCopy t flags) fun _ h => CopyItemCall.moves h
  cases hop : item.op with
  | instCopy => exact hcopy
  | instCopyExec => exact hcopy
  | instSymlink =>
    rw [hop] at ht
    obtain ⟨src, dir, dst, hsrc, hdir, hdst, rfl⟩ := ntranLink_ok ht
    exact fun w => instLink_cwd flags w hsrc hdst rfl
  | instMkdir => exact keeps_cwdKept (keeps_instMkdir t flags) fun _ h => MkdirItemCall.moves h
  | instLiblink =>
    rw [hop] at ht
    obtain ⟨src, dir, dst, srcName, base, -, -, -, -, rfl⟩ := ntranLiblink_ok ht
    exact fun w => instLink_cwd flags w rfl rfl rfl

theorem keeps_deinstall_cwd (item : Item) (flags : BitVec 32) :
    Keeps CwdKept (deinstall item flags) := by
  refine keeps_runOper_cwd ?_ fun t w w' ht => ?_
  · rw [deinstOpers_trans]
    exact keeps_installTrans item
  · exact keeps_cwdKept (keeps_deinstOper item.op t flags) fun _ h => RemoveCall.moves h

/-! ## Dry runs -/

/-- A call that does not write. -/
def Writeless (e : Entry) : Prop := e.call.writes = false

theorem CopyItemCall.writeless {item : Item} {flags : BitVec 32} {call : Call}
    (hdry : notDryrun flags = false) (h : CopyItemCall item flags call) : call.writes = false := by
  rcases h with ⟨src, -, rfl⟩ | ⟨hnot, -⟩
  · rfl
  · rw [hdry] at hnot
    cases hnot

theorem LinkItemCall.writeless {item : Item} {flags : BitVec 32} {call : Call}
    (hdry : notDryrun flags = false) (h : LinkItemCall item flags call) : call.writes = false := by
  cases call with
  | symlink src dst => exact absurd h.1 (by simp [hdry])
  | _ => first | rfl | cases h

/-- The calls around an item write nothing, if the item's operator writes nothing. -/
theorem keeps_runOper_writeless {opers : InstallOp → Instop} {item : Item} {flags : BitVec 32}
    (htrans : Keeps (Frame Reading) ((opers item.op).trans item))
    (hoper : ∀ t, Keeps (Frame Writeless) ((opers item.op).oper t flags)) :
    Keeps (Frame Writeless) (runOper opers item flags) :=
  keeps_runOper keeps_iposixErrorReset (htrans.mono fun _ _ h => h.mono fun _ h => h.quiet.1)
    (fun t _ _ _ => hoper t) (keeps_fflushAll fun _ _ => rfl)

theorem keeps_install_dry (item : Item) {flags : BitVec 32} (hdry : notDryrun flags = false) :
    Keeps (Frame Writeless) (install item flags) := by
  refine keeps_runOper_writeless (keeps_installTrans item) fun t => ?_
  have hcopy : Keeps (Frame Writeless) (instCopy t flags) :=
    (keeps_instCopy t flags).mono fun _ _ h => h.mono fun _ h => CopyItemCall.writeless hdry h
  have hlink : Keeps (Frame Writeless) (instLink t flags) :=
    (keeps_instLink t flags).mono fun _ _ h => h.mono fun _ h => LinkItemCall.writeless hdry h
  have hmkdir : Keeps (Frame Writeless) (instMkdir t flags) :=
    (keeps_instMkdir t flags).mono fun _ _ h => h.mono fun _ h => absurd h.1 (by simp [hdry])
  cases item.op with
  | instCopy => exact hcopy
  | instCopyExec => exact hcopy
  | instSymlink => exact hlink
  | instMkdir => exact hmkdir
  | instLiblink => exact hlink

theorem keeps_deinstall_dry (item : Item) {flags : BitVec 32} (hdry : notDryrun flags = false) :
    Keeps (Frame Writeless) (deinstall item flags) := by
  refine keeps_runOper_writeless ?_ fun t => ?_
  · rw [deinstOpers_trans]
    exact keeps_installTrans item
  · exact (keeps_deinstOper item.op t flags).mono fun _ _ h => h.mono fun _ h => absurd h.1 (by simp [hdry])

/-- Nothing was written from `w` to `w'`: the file system is the same, and no call was made that
could have changed it. -/
def NothingWritten (w w' : World) : Prop :=
  w'.os.fs = w.os.fs ∧ ∃ es, w'.log = w.log ++ es ∧ ∀ e ∈ es, e.call.writes = false

theorem Frame.nothingWritten {w w' : World} (h : Frame Writeless w w') : NothingWritten w w' := by
  obtain ⟨es, hlog, hes, -⟩ := h.calls
  exact ⟨h.fs_eq fun _ he => he, es, hlog, hes⟩

/-- A dry run of either tool over a table writes nothing; and any run leaves the process in the
directory it started in, unless the call that leads back there failed. -/
theorem run_leaves_files_and_directory (items : List Item) (flags : BitVec 32) (w : World) :
    let installed := (runItems (fun item => install item flags) items w).2
    let removed := (runItems (fun item => deinstall item flags) items.reverse w).2
    (flags &&& installDryrun ≠ installNoFlags → NothingWritten w installed ∧ NothingWritten w removed) ∧
      CwdKept w installed ∧ CwdKept w removed := by
  refine ⟨fun hflags => ?_, keeps_runItems (fun item => keeps_install_cwd item flags) items w,
    keeps_runItems (fun item => keeps_deinstall_cwd item flags) items.reverse w⟩
  have hdry : notDryrun flags = false := decide_eq_false hflags
  exact ⟨(keeps_runItems (fun item => keeps_install_dry item hdry) items w).nothingWritten,
    (keeps_runItems (fun item => keeps_deinstall_dry item hdry) items.reverse w).nothingWritten⟩

end CStringVerified.Install
