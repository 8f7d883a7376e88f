import CStringVerified.Install.Proofs.CallProofs

/-!
# What the functions leave alone

The frames of the functions of the installer, from the frames of the calls they make: a translation
only reads library files, a copy writes to the temporary file and to the destination, and so on.
-/

namespace CStringVerified.Install

open Foundation Foundation.Run

/-! ## Owner and group -/

theorem assert_true {p : Bool} (h : p = true) (w : World) : assert p w = (.ok (), w) := by
  rw [assert, if_pos h]
  rfl

theorem assert_false {p : Bool} (h : p = false) (w : World) :
    assert p w = (.error .assertion, w) := by
  rw [assert, h]
  rfl

/-- The ID of a name, or the current one. -/
def wantedId (lookup : Text → Option Id) (current : Id) : Option Text → Option Id
  | some name => lookup name
  | none => some current

theorem iposixUidValid_eq (uid : Id) : iposixUidValid uid = decide (uid ≠ nullId) := rfl

theorem iposixGidValid_eq (gid : Id) : iposixGidValid gid = decide (gid ≠ nullId) := rfl

theorem checkedIds (uid gid : Id) (w : World) :
    (do
      assert (iposixUidValid uid)
      assert (iposixGidValid gid)
      let status ← statusOk
      pure (status, uid, gid) : Sys (Status × Id × Id)) w =
      if uid = nullId ∨ gid = nullId then (.error .assertion, w)
      else (.ok (⟨.ok, none, some w.errno⟩, uid, gid), w) := by
  by_cases hu : uid = nullId
  · rw [if_pos (Or.inl hu), bind_error (assert_false (by simp [iposixUidValid_eq, hu]) w)]
  · rw [bind_ok (assert_true (by simp [iposixUidValid_eq, hu]) w)]
    by_cases hg : gid = nullId
    · rw [if_pos (Or.inr hg), bind_error (assert_false (by simp [iposixGidValid_eq, hg]) w)]
    · rw [if_neg (by simp [hu, hg]),
        bind_ok (assert_true (by simp [iposixGidValid_eq, hg]) w)]
      rfl

theorem installUidgidLookup_apply (user group : Option Text) (w : World) :
    installUidgidLookup user group w =
      match wantedId w.env.passwd w.env.uid user, wantedId w.env.group w.env.gid group with
      | some uid, some gid =>
        if uid = nullId ∨ gid = nullId then (.error .assertion, w)
        else (.ok (⟨.ok, none, some w.errno⟩, uid, gid), w)
      | some uid, none => (.ok (⟨.error, some (if group.isSome then "could not lookup group ID"
          else "could not fetch current group ID"), some w.errno⟩, uid, nullId), w)
      | none, _ => (.ok (⟨.error, some (if user.isSome then "could not lookup user ID"
          else "could not fetch current user ID"), some w.errno⟩, nullId, nullId), w) := by
  cases user with
  | none =>
    cases group with
    | none =>
      exact checkedIds _ _ w
    | some g =>
      simp only [installUidgidLookup, iposixUidCurrent, iposixGidLookup, wantedId, bind_apply, get_apply, pure_apply]
      cases w.env.group g with
      | none => rfl
      | some gid => exact checkedIds _ _ w
  | some u =>
    simp only [installUidgidLookup, iposixUidLookup, iposixGidCurrent, iposixGidLookup, wantedId, bind_apply, get_apply, pure_apply]
    cases w.env.passwd u with
    | none => rfl
    | some uid =>
      cases group with
      | none => exact checkedIds _ _ w
      | some g =>
        simp only [bind_apply, get_apply, pure_apply]
        cases w.env.group g with
        | none => rfl
        | some gid => exact checkedIds _ _ w

/-- The owner and group an item asks for, if the user database knows them. -/
def wantedIds (env : Env) (item : Item) : Option (Id × Id) :=
  match wantedId env.passwd env.uid item.owner, wantedId env.group env.gid item.group with
  | some uid, some gid => some (uid, gid)
  | _, _ => none

section Ids

variable {item : Item} {next : Id → Id → Sys Status} {w : World} {uid gid : Id}

theorem withIds_unknown (next : Id → Id → Sys Status) (h : wantedIds w.env item = none) :
    ∃ status, withIds item next w = (.ok status, w) ∧ status.status = .error := by
  have hlookup := installUidgidLookup_apply item.owner item.group w
  unfold wantedIds at h
  unfold withIds
  cases hu : wantedId w.env.passwd w.env.uid item.owner with
  | none =>
    rw [hu] at hlookup
    exact ⟨_, bind_ok hlookup, rfl⟩
  | some uid =>
    cases hg : wantedId w.env.group w.env.gid item.group with
    | none =>
      rw [hu, hg] at hlookup
      exact ⟨_, bind_ok hlookup, rfl⟩
    | some gid =>
      rw [hu, hg] at h
      cases h

theorem withIds_found (h : wantedIds w.env item = some (uid, gid)) :
    withIds item next w =
      if uid = nullId ∨ gid = nullId then (.error .assertion, w) else next uid gid w := by
  have hlookup := installUidgidLookup_apply item.owner item.group w
  unfold wantedIds at h
  unfold withIds
  split at h
  · rename_i u g hu hg
    cases h
    rw [hu, hg] at hlookup
    dsimp only at hlookup
    split at hlookup
    · rename_i hnull
      rw [if_pos hnull]
      exact bind_error hlookup
    · rename_i hnull
      rw [if_neg hnull]
      exact bind_ok hlookup
  · cases h

/-- The IDs of an item are unknown, or one of them is no ID, or both are good. -/
theorem wantedIds_cases (env : Env) (item : Item) :
    wantedIds env item = none ∨
      (∃ uid gid, wantedIds env item = some (uid, gid) ∧ (uid = nullId ∨ gid = nullId)) ∨
      ∃ uid gid, wantedIds env item = some (uid, gid) ∧ ¬(uid = nullId ∨ gid = nullId) := by
  cases h : wantedIds env item with
  | none => exact Or.inl rfl
  | some ids =>
    by_cases hnull : ids.1 = nullId ∨ ids.2 = nullId
    · exact Or.inr (Or.inl ⟨_, _, rfl, hnull⟩)
    · exact Or.inr (Or.inr ⟨_, _, rfl, hnull⟩)

end Ids

/-! ## Translations -/

/-- The calls that read a virtual library file. -/
def Call.reads : Call → Bool
  | .fopenRead _ | .fread _ | .fclose _ => true
  | _ => false

def Reading (e : Entry) : Prop := e.call.reads = true

theorem Reading.quiet {e : Entry} (h : Reading e) : Quiet e := by
  obtain ⟨call, cwd, ok⟩ := e
  cases call <;> first | exact ⟨rfl, rfl⟩ | cases h

theorem keeps_libname (name : Text) : Keeps (Frame Reading) (libname name) := by
  refine Keeps.bind (keeps_fopenRead fun _ _ => rfl) fun fp => ?_
  cases fp with
  | none => exact keeps_pure none
  | some fp =>
    refine Keeps.bind (keeps_fread fun _ _ => rfl) fun buf => ?_
    refine Keeps.bind (keeps_ferror fp) fun failed => ?_
    split
    · exact Keeps.bind (keeps_fclose fun _ _ => rfl) fun _ => keeps_pure none
    · dsimp only
      split
      · exact keeps_crash .overrun
      · exact Keeps.bind (keeps_fclose fun _ _ => rfl) fun _ => keeps_pure _

section Translations

variable {R : World → World → Prop} [Std.Refl R]

theorem keeps_realName (hlib : ∀ name, Keeps R (libname name)) (name : Text) : Keeps R (realName name) := by
  unfold realName
  split
  · exact hlib name
  · exact keeps_pure (some name)

variable [IsTrans World R]

theorem keeps_ntranCopy (hlib : ∀ name, Keeps R (libname name)) (item : Item) : Keeps R (ntranCopy item) := by
  unfold ntranCopy
  split
  · exact keeps_pure _
  · exact keeps_pure _
  · refine Keeps.bind (keeps_realName hlib _) fun srcName => ?_
    cases srcName with
    | none => exact keeps_pure _
    | some srcName =>
      refine Keeps.bind (keeps_realName hlib _) fun dstName => ?_
      cases dstName with
      | none => exact keeps_pure _
      | some dstName =>
        dsimp only
        split
        · exact keeps_pure _
        · refine Keeps.bind keeps_get fun w => ?_
          split <;> exact keeps_pure _

theorem keeps_ntranCopyExec (hlib : ∀ name, Keeps R (libname name)) (item : Item) : Keeps R (ntranCopyExec item) := by
  refine Keeps.bind (keeps_ntranCopy hlib item) fun r => ?_
  cases r with
  | error message => exact keeps_pure _
  | ok t =>
    refine Keeps.bind (keeps_deref _) fun src => Keeps.bind (keeps_deref _) fun dst =>
      Keeps.bind keeps_get fun w => ?_
    split
    · exact keeps_pure _
    · split <;> exact keeps_pure _

theorem keeps_rootedDir (dir : Text) : Keeps R (rootedDir dir) := by
  refine Keeps.bind keeps_get fun w => ?_
  cases w.globals.fakeRoot <;> exact keeps_pure _

theorem keeps_linkPrefix (item : Item) {next : Text → Text → Text → Sys (Except String Item)}
    (h : ∀ src dst dir, Keeps R (next src dst dir)) :
    Keeps R (linkPrefix item next) := by
  unfold linkPrefix
  split
  · exact keeps_pure _
  · exact keeps_pure _
  · exact keeps_pure _
  · refine Keeps.bind (keeps_rootedDir _) fun dirName => ?_
    cases dirName with
    | none => exact keeps_pure _
    | some dirName => exact h _ _ dirName

theorem keeps_ntranLink (item : Item) : Keeps R (ntranLink item) :=
  keeps_linkPrefix item fun _ _ _ => keeps_pure _

theorem keeps_liblinkSource (hlib : ∀ name, Keeps R (libname name)) (src : Text) {next : Text → Sys (Except String Item)}
    (h : ∀ srcName, Keeps R (next srcName)) :
    Keeps R (liblinkSource src next) := by
  unfold liblinkSource
  split
  · refine Keeps.bind (hlib src) fun srcTmp => ?_
    cases srcTmp with
    | none => exact keeps_pure _
    | some srcTmp =>
      dsimp only
      split
      · exact keeps_pure _
      · exact h _
  · exact h src

theorem keeps_ntranLiblink (hlib : ∀ name, Keeps R (libname name)) (item : Item) : Keeps R (ntranLiblink item) := by
  refine keeps_linkPrefix item fun src dst dir => keeps_liblinkSource hlib src fun srcName => ?_
  split
  · exact keeps_pure _
  · refine Keeps.bind keeps_get fun w => ?_
    split <;> exact keeps_pure _

theorem keeps_ntranMkdir (item : Item) : Keeps R (ntranMkdir item) := by
  refine Keeps.bind keeps_get fun w => ?_
  cases w.globals.fakeRoot with
  | none => exact keeps_pure _
  | some root =>
    refine Keeps.bind (keeps_deref _) fun dir => Keeps.bind (keeps_rootedDir dir) fun dirName => ?_
    cases dirName <;> exact keeps_pure _

theorem keeps_ntranChk {ntran : Item → Sys (Except String Item)} {item : Item}
    (h : Keeps R (ntran item)) : Keeps R (ntranChk ntran item) := by
  refine Keeps.bind h fun r => ?_
  cases r with
  | error message => exact keeps_pure _
  | ok t =>
    refine Keeps.bind (keeps_deref _) fun dir => Keeps.bind (keeps_deref _) fun dst => ?_
    split <;> exact keeps_pure _

/-- A translation keeps what reading the name in a library file keeps. -/
theorem keeps_installTrans_of (hlib : ∀ name, Keeps R (libname name)) (item : Item) :
    Keeps R ((installOpers item.op).trans item) := by
  cases item.op with
  | instCopy => exact keeps_ntranCopy hlib item
  | instCopyExec => exact keeps_ntranCopyExec hlib item
  | instSymlink => exact keeps_ntranLink item
  | instMkdir => exact keeps_ntranMkdir item
  | instLiblink => exact keeps_ntranLiblink hlib item

theorem keeps_instchkTrans_of (hlib : ∀ name, Keeps R (libname name)) (item : Item) :
    Keeps R ((instchkOpers item.op).trans item) := by
  cases item.op with
  | instCopy => exact keeps_ntranCopy hlib item
  | instCopyExec => exact keeps_ntranCopyExec hlib item
  | instSymlink => exact keeps_ntranChk (keeps_ntranLink item)
  | instMkdir => exact keeps_ntranMkdir item
  | instLiblink => exact keeps_ntranChk (keeps_ntranLiblink hlib item)

end Translations

/-- The translations only read library files. -/
theorem keeps_installTrans (item : Item) :
    Keeps (Frame Reading) ((installOpers item.op).trans item) := keeps_installTrans_of keeps_libname item

theorem keeps_instchkTrans (item : Item) :
    Keeps (Frame Reading) ((instchkOpers item.op).trans item) := keeps_instchkTrans_of keeps_libname item

/-- A translation changes nothing. -/
theorem quiet_of_trans {m : Sys (Except String Item)} {r : Except Crash (Except String Item)}
    {w w' : World} (hkeeps : Keeps (Frame Reading) m) (h : m (w.withErrno 0) = (r, w')) :
    Frame Quiet w w' :=
  (frame_withErrno w 0).trans ((Frame.of_run hkeeps h).mono fun _ he => he.quiet)

@[simp] theorem deinstOpers_trans (op : InstallOp) :
    (deinstOpers op).trans = (installOpers op).trans := by
  cases op <;> rfl

/-! ## Copying -/

/-- The name of the temporary file. -/
def tmpName (dst : Text) : Text := (dst ++ ['.', 't', 'm', 'p']).take (installMaxPathlen - 1)

theorem snprintf_some {size : Nat} {text out : Text} (h : snprintf size text = some out) :
    text.length ≤ intMax ∧ out = text.take (size - 1) := by
  unfold snprintf at h
  split at h
  · rename_i hlen
    exact ⟨hlen, (Option.some.inj h).symm⟩
  · cases h

/-- The calls of `install_file_copy`. -/
def CopyCall (src dst : Text) : Call → Prop
  | .fopenRead p => p = src
  | .fopenWrite p | .unlink p | .chmod p _ | .chown p _ _ => p = tmpName dst
  | .rename p q => p = tmpName dst ∧ q = dst
  | .fread _ | .fwrite _ | .fflush _ | .fclose _ => True
  | _ => False

section Copy

variable {P : Entry → Prop} {R : World → World → Prop} [Std.Refl R] [IsTrans World R]

theorem keeps_step {condition : Sys Bool} {message : String} {next : Sys (Option String)}
    (hc : Keeps R condition) (hn : Keeps R next) : Keeps R (step condition message next) := by
  refine Keeps.bind hc fun b => ?_
  cases b with
  | false => exact keeps_pure _
  | true => exact hn

theorem keeps_writeRound {fdDst : Handle} (hw : ∀ text, Keeps R (fwrite text fdDst)) (text : Text) :
    Keeps R (writeRound fdDst text) := by
  unfold writeRound
  split
  · exact keeps_pure _
  · refine Keeps.bind (hw text) fun n => ?_
    split
    · refine Keeps.bind (keeps_feof fdDst) fun eof => ?_
      split
      · exact keeps_pure _
      · refine Keeps.bind (keeps_ferror fdDst) fun err => ?_
        split <;> exact keeps_pure _
    · exact keeps_pure _

theorem keeps_copyRound {fdSrc fdDst : Handle} (hr : ∀ size, Keeps R (fread fdSrc size))
    (hw : ∀ text, Keeps R (fwrite text fdDst)) (u : Unit) : Keeps R (copyRound fdSrc fdDst u) := by
  refine Keeps.bind (hr 65536) fun text => ?_
  split
  · refine Keeps.bind (keeps_feof fdSrc) fun eof => ?_
    split
    · exact keeps_pure _
    · refine Keeps.bind (keeps_ferror fdSrc) fun err => ?_
      split <;> exact keeps_pure _
  · refine Keeps.bind (keeps_loop (keeps_writeRound hw) (fun _ => keeps_crash _) _ text)
      fun message => ?_
    cases message <;> exact keeps_pure _

theorem keeps_copyLoop {fdSrc fdDst : Handle} (hr : ∀ size, Keeps R (fread fdSrc size))
    (hw : ∀ text, Keeps R (fwrite text fdDst)) : Keeps R (copyLoop fdSrc fdDst) := by
  refine Keeps.bind ?_ fun n => keeps_loop (keeps_copyRound hr hw) (fun _ => keeps_crash _) _ ()
  exact Keeps.bind (keeps_stream fdSrc) fun _ => Keeps.bind keeps_get fun _ => keeps_pure _

theorem keeps_closeIfOpen {fd : Option Handle} (hc : ∀ h, Keeps R (fclose h)) :
    Keeps R (closeIfOpen fd) := by
  cases fd with
  | none => exact keeps_pure ()
  | some h => exact Keeps.bind (hc h) fun _ => keeps_pure ()

theorem keeps_chmod {file : Text} {mode : Mode} (hP : ∀ cwd ok, P ⟨.chmod file mode, cwd, ok⟩) :
    Keeps (Frame P) (iposixFileModeSet file mode) :=
  Keeps.bind (keeps_fsCall hP rfl) fun _ => keeps_pure _

theorem keeps_chown {file : Text} {uid gid : Id} (hP : ∀ cwd ok, P ⟨.chown file uid gid, cwd, ok⟩) :
    Keeps (Frame P) (iposixFileOwnershipSet file uid gid) :=
  Keeps.bind (keeps_fsCall hP rfl) fun _ => keeps_pure _

theorem keeps_copyOwnership {dstTmp : Text} {processUid uid gid : Id} {next : Sys (Option String)}
    (hc : Keeps R (iposixFileOwnershipSet dstTmp uid gid)) (hn : Keeps R next) :
    Keeps R (copyOwnership dstTmp processUid uid gid next) := by
  refine Keeps.bind (keeps_iposixCanSetOwnership processUid) fun can => ?_
  dsimp only
  split
  · exact keeps_pure _
  · split
    · exact keeps_step (Keeps.bind hc fun _ => keeps_pure _) hn
    · exact hn

theorem keeps_copySteps {src dst : Text} {processUid uid gid : Id} {mode : Mode}
    {fdSrc fdDst : Handle} (hP : ∀ call cwd ok, CopyCall src dst call → P ⟨call, cwd, ok⟩) :
    Keeps (Frame P) (copySteps dst (tmpName dst) processUid uid gid mode fdSrc fdDst) := by
  refine Keeps.bind (keeps_copyLoop (fun _ => keeps_fread fun cwd ok => hP _ cwd ok trivial)
    fun _ => keeps_fwrite fun cwd ok => hP _ cwd ok trivial) fun message => ?_
  cases message with
  | some message => exact keeps_pure _
  | none =>
    refine keeps_step
      (Keeps.bind (keeps_fflush fun cwd ok => hP _ cwd ok trivial) fun _ => keeps_pure _) ?_
    refine keeps_step
      (Keeps.bind (keeps_chmod fun cwd ok => hP _ cwd ok rfl) fun _ => keeps_pure _) ?_
    refine keeps_copyOwnership (keeps_chown fun cwd ok => hP _ cwd ok rfl) ?_
    refine keeps_step
      (Keeps.bind (keeps_fclose fun cwd ok => hP _ cwd ok trivial) fun _ => keeps_pure _) ?_
    refine keeps_step
      (Keeps.bind (keeps_fclose fun cwd ok => hP _ cwd ok trivial) fun _ => keeps_pure _) ?_
    exact keeps_step (Keeps.bind (keeps_fsCall (fun cwd ok => hP _ cwd ok ⟨rfl, rfl⟩) rfl)
      fun _ => keeps_pure _) (keeps_pure none)

theorem keeps_copyErr {src dst : Text} {fdSrc fdDst : Option Handle}
    (hP : ∀ call cwd ok, CopyCall src dst call → P ⟨call, cwd, ok⟩) :
    Keeps (Frame P) (copyErr (tmpName dst) fdSrc fdDst) :=
  Keeps.bind (keeps_closeIfOpen fun _ => keeps_fclose fun cwd ok => hP _ cwd ok trivial) fun _ =>
    Keeps.bind (keeps_closeIfOpen fun _ => keeps_fclose fun cwd ok => hP _ cwd ok trivial) fun _ =>
      Keeps.bind (keeps_fsCall (fun cwd ok => hP _ cwd ok rfl) rfl) fun _ => keeps_pure ()

theorem keeps_installFileCopy {src dst : Text} {uid gid : Id} {mode : Mode}
    (hP : ∀ call cwd ok, CopyCall src dst call → P ⟨call, cwd, ok⟩) :
    Keeps (Frame P) (installFileCopy src dst uid gid mode) := by
  refine Keeps.bind (Keeps.bind keeps_get fun _ => keeps_pure _) fun processUid => ?_
  cases processUid with
  | none => exact keeps_statusError _
  | some processUid =>
    refine Keeps.bind (keeps_assert _) fun _ => ?_
    split
    · exact keeps_statusError _
    · rename_i dstTmp htmp
      obtain rfl : dstTmp = tmpName dst := (snprintf_some htmp).2
      refine Keeps.bind (keeps_fopenRead fun cwd ok => hP _ cwd ok rfl) fun fdSrc => ?_
      cases fdSrc with
      | none => exact keeps_statusError _
      | some fdSrc =>
        refine Keeps.bind (keeps_fopenWrite fun cwd ok => hP _ cwd ok rfl) fun fdDst => ?_
        cases fdDst with
        | none =>
          exact Keeps.bind (keeps_statusError _) fun status =>
            Keeps.bind (keeps_copyErr hP) fun _ => keeps_pure status
        | some fdDst =>
          refine Keeps.bind (keeps_copySteps hP) fun message => ?_
          cases message with
          | none => exact keeps_statusOk
          | some message =>
            exact Keeps.bind (keeps_statusError message) fun status =>
              Keeps.bind (keeps_copyErr hP) fun _ => keeps_pure status

end Copy

/-! ## Operators -/

section Operators

variable {P : Entry → Prop}

theorem keeps_withIds {R : World → World → Prop} [Std.Refl R] {item : Item}
    {next : Id → Id → Sys Status} (h : ∀ uid gid, Keeps R (next uid gid)) :
    Keeps R (withIds item next) := by
  intro w
  rcases wantedIds_cases w.env item with hids | ⟨uid, gid, hids, hnull⟩ | ⟨uid, gid, hids, hnull⟩
  · obtain ⟨status, hrun, -⟩ := withIds_unknown next hids
    rw [hrun]
    exact refl_of R w
  · rw [withIds_found hids, if_pos hnull]
    exact refl_of R w
  · rw [withIds_found hids, if_neg hnull]
    exact h uid gid w

theorem keeps_iposixFileSize {file : Text} (hP : ∀ cwd ok, P ⟨.stat file, cwd, ok⟩) :
    Keeps (Frame P) (iposixFileSize file) :=
  Keeps.bind (keeps_stat hP) fun _ => keeps_pure _

/-- The calls of `inst_copy`. -/
def CopyItemCall (item : Item) (flags : BitVec 32) (call : Call) : Prop :=
  (∃ src, item.src = some src ∧ call = .stat src) ∨
    (notDryrun flags = true ∧
      ∃ src dst, item.src = some src ∧ item.dst = some dst ∧ CopyCall src dst call)

/-- `inst_copy` keeps what looking up the size and copying keep. -/
theorem keeps_instCopy_of {R : World → World → Prop} [Std.Refl R] [IsTrans World R] {item : Item}
    {flags : BitVec 32} (hsize : ∀ src, item.src = some src → Keeps R (iposixFileSize src))
    (hcopy : notDryrun flags = true → ∀ src dst uid gid, item.src = some src → item.dst = some dst →
      Keeps R (installFileCopy src dst uid gid item.perm)) : Keeps R (instCopy item flags) := by
  refine keeps_withIds fun uid gid => keeps_deref_bind fun src hsrc => ?_
  refine Keeps.bind (hsize src hsrc) fun _ => ?_
  split
  · rename_i hdry
    refine keeps_deref_bind fun dst hdst =>
      Keeps.bind (hcopy hdry src dst uid gid hsrc hdst) fun status => ?_
    split
    · exact keeps_pure status
    · exact keeps_statusOk
  · exact keeps_statusOk

theorem keeps_instCopy (item : Item) (flags : BitVec 32) :
    Keeps (Frame fun e => CopyItemCall item flags e.call) (instCopy item flags) :=
  keeps_instCopy_of (fun src hsrc => keeps_iposixFileSize fun _ _ => Or.inl ⟨src, hsrc, rfl⟩)
    fun hdry src dst _ _ hsrc hdst => keeps_installFileCopy fun _ _ _ hcall =>
      Or.inr ⟨hdry, src, dst, hsrc, hdst, hcall⟩

/-- The calls of `inst_link`. -/
def LinkItemCall (item : Item) (flags : BitVec 32) : Call → Prop
  | .getcwd | .chdir _ => True
  | .symlink src dst => notDryrun flags = true ∧ item.src = some src ∧ item.dst = some dst
  | _ => False

theorem keeps_chdir {path : Text} (hP : ∀ cwd ok, P ⟨.chdir path, cwd, ok⟩) :
    Keeps (Frame P) (chdir path) := by
  refine Keeps.bind (keeps_sysCall hP fun w a os h => ?_) fun _ => keeps_pure _
  obtain ⟨-, h⟩ := route_bind h
  obtain ⟨⟨l, r⟩, -, h⟩ := ok_of_bind h
  cases r with
  | none => cases h
  | some n =>
    dsimp only at h
    split at h
    · cases h
      exact ⟨Or.inl rfl, Or.inr rfl, Or.inl rfl⟩
    · cases h

theorem keeps_makeLink {item : Item} {flags : BitVec 32}
    (hP : ∀ src dst cwd ok, notDryrun flags = true → item.src = some src → item.dst = some dst →
      P ⟨.symlink src dst, cwd, ok⟩) : Keeps (Frame P) (makeLink item flags) := by
  unfold makeLink
  split
  · rename_i hdry
    exact keeps_deref_bind fun src hsrc => keeps_deref_bind fun dst hdst =>
      Keeps.bind (keeps_fsCall (fun cwd ok => hP src dst cwd ok hdry hsrc hdst) rfl) fun _ => keeps_pure _
  · exact keeps_pure 1

theorem keeps_instLink (item : Item) (flags : BitVec 32) :
    Keeps (Frame fun e => LinkItemCall item flags e.call) (instLink item flags) := by
  refine Keeps.bind (keeps_getcwd fun _ _ => trivial) fun pathBuf => ?_
  cases pathBuf with
  | none => exact keeps_statusError _
  | some pathBuf =>
    refine keeps_deref_bind fun dir _ => Keeps.bind (keeps_chdir fun _ _ => trivial) fun r => ?_
    split
    · exact keeps_statusError _
    · refine Keeps.bind (keeps_makeLink fun _ _ _ _ hdry hsrc hdst => ⟨hdry, hsrc, hdst⟩) fun linked =>
        Keeps.bind (keeps_chdir fun _ _ => trivial) fun restored => ?_
      split
      · exact keeps_statusError _
      · split
        · exact keeps_statusError _
        · exact keeps_statusOk

/-! ## Directories -/

/-- The calls of `inst_mkdir`. -/
def MkdirItemCall (item : Item) (flags : BitVec 32) (call : Call) : Prop :=
  notDryrun flags = true ∧ ∃ dir, item.dir = some dir ∧
    ((∃ path, call = .mkdir path item.perm ∧ PathPrefix dir path) ∨
      ∃ uid gid, call = .chown dir uid gid)

theorem take_component (ptr : Text) :
    ptr.take (ptr.takeWhile fun c => c ≠ '/').length = ptr.takeWhile fun c => c ≠ '/' := by
  have h := List.takeWhile_append_dropWhile (p := fun c => c ≠ '/') (l := ptr)
  exact (congrArg (List.take _) h).symm.trans List.take_left

theorem drop_component (ptr : Text) :
    ptr.drop (ptr.takeWhile fun c => c ≠ '/').length = ptr.dropWhile fun c => c ≠ '/' := by
  have h := List.takeWhile_append_dropWhile (p := fun c => c ≠ '/') (l := ptr)
  exact (congrArg (List.drop _) h).symm.trans List.drop_left

theorem head_dropWhile_slash (ptr : Text) :
    (ptr.dropWhile fun c => c ≠ '/') = [] ∨ (ptr.dropWhile fun c => c ≠ '/').head? = some '/' := by
  induction ptr with
  | nil => exact Or.inl rfl
  | cons c cs ih =>
    by_cases hc : c = '/'
    · subst hc
      exact Or.inr rfl
    · simpa [List.dropWhile_cons, hc] using ih

/-- The path that a round makes. -/
def rmkdirPath (pathBuf ptr : Text) : Text := pathBuf ++ (ptr.takeWhile fun c => c ≠ '/') ++ ['/']

/-- Where the loop stands after a round on `ptr` that made `path`. -/
def rmkdirNext (path ptr : Text) : (Text × Text) ⊕ Int :=
  match ptr.dropWhile fun c => c ≠ '/' with
  | [] => .inl (path, [])
  | [_] => .inr 1
  | _ :: ptr => .inl (path, ptr)

/-- `iposix_mkdir` calls `mkdir`, and says 1 or 0. -/
theorem iposixMkdir_apply (dir : Text) (perm : Mode) (w : World) :
    ∃ r, (r = 0 ∨ r = 1) ∧ iposixMkdir dir perm w = (.ok r, (mkdir dir perm w).2) := by
  rcases fsCall_cases (.mkdir dir perm) _ w with ⟨fs, -, -, h⟩ | ⟨e, -, h⟩
  · exact ⟨1, Or.inr rfl, by rw [iposixMkdir, mkdir, bind_ok h, h]; rfl⟩
  · exact ⟨0, Or.inl rfl, by rw [iposixMkdir, mkdir, bind_ok h, h]; rfl⟩

/-- A round of the loop: nothing is left, there is no room left, or a directory is made. What making
it returned does not matter: it is never -1. -/
theorem rmkdirRound_apply (perm : Mode) (pathBuf ptr : Text) (w : World) :
    rmkdirRound perm (pathBuf, ptr) w =
      if ptr = [] ∨ installMaxPathlen ≤ (rmkdirPath pathBuf ptr).length then (.ok (.inr 1), w)
      else (.ok (rmkdirNext (rmkdirPath pathBuf ptr) ptr),
        (mkdir (rmkdirPath pathBuf ptr) perm w).2) := by
  have hlen : (rmkdirPath pathBuf ptr).length =
      pathBuf.length + (ptr.takeWhile fun c => c ≠ '/').length + 1 := by
    simp [rmkdirPath, Nat.add_assoc]
  unfold rmkdirRound
  dsimp only
  by_cases hptr : ptr = []
  · rw [if_pos hptr, if_pos (Or.inl hptr)]
    rfl
  · rw [if_neg hptr]
    by_cases hroom : installMaxPathlen ≤ (rmkdirPath pathBuf ptr).length
    · rw [if_pos (by omega), if_pos (Or.inr hroom)]
      rfl
    · rw [if_neg (by omega), if_neg (by simp [hptr, hroom]), take_component, drop_component]
      obtain ⟨r, hr, hrun⟩ := iposixMkdir_apply (rmkdirPath pathBuf ptr) perm w
      have hnot : r ≠ -1 := by omega
      refine (bind_ok hrun).trans ?_
      rw [get_bind_apply, if_neg fun h => hnot h.1]
      unfold rmkdirNext
      cases ptr.dropWhile fun c => c ≠ '/' with
      | nil => rfl
      | cons c rest => cases rest <;> rfl

/-- What is in the buffer and what is left make up the path. -/
def RmkdirState (dir : Text) (state : Text × Text) : Prop := state.2 = [] ∨ state.1 ++ state.2 = dir

theorem RmkdirState.pathPrefix {dir pathBuf ptr : Text} (h : RmkdirState dir (pathBuf, ptr))
    (hptr : ptr ≠ []) : PathPrefix dir (rmkdirPath pathBuf ptr) := by
  rcases h with h | h
  · exact absurd h hptr
  · have hparts := List.takeWhile_append_dropWhile (p := fun c => c ≠ '/') (l := ptr)
    refine ⟨_, ptr.dropWhile fun c => c ≠ '/', rfl, ?_, ?_⟩
    · rw [List.append_assoc, hparts]
      exact h.symm
    · rcases head_dropWhile_slash ptr with hnil | hhead
      · rw [hnil, List.append_nil] at hparts
        refine Or.inl ⟨?_, hnil⟩
        rw [hparts]
        simp [hptr]
      · exact Or.inr hhead

theorem RmkdirState.next {dir pathBuf ptr : Text} {state : Text × Text}
    (h : RmkdirState dir (pathBuf, ptr)) (hnext : rmkdirNext (rmkdirPath pathBuf ptr) ptr = .inl state) :
    RmkdirState dir state := by
  unfold rmkdirNext at hnext
  split at hnext
  · cases hnext
    exact Or.inl rfl
  · cases hnext
  · rename_i c rest _ hdrop
    obtain rfl := Sum.inl.inj hnext
    rcases h with h | h
    · rw [show ptr = [] from h] at hdrop
      cases hdrop
    · obtain rfl : c = '/' := by
        rcases head_dropWhile_slash ptr with hnil | hhead
        · rw [hnil] at hdrop
          cases hdrop
        · rw [hdrop] at hhead
          exact Option.some.inj hhead
      refine Or.inr ?_
      have hptr := List.takeWhile_append_dropWhile (p := fun c => c ≠ '/') (l := ptr)
      rw [hdrop] at hptr
      change pathBuf ++ ptr = dir at h
      rw [← h, rmkdirPath]
      conv_rhs => rw [← hptr]
      simp

theorem RmkdirState.round {dir : Text} {perm : Mode} {state state' : Text × Text} {w w' : World}
    (h : RmkdirState dir state) (hrun : rmkdirRound perm state w = (.ok (.inl state'), w')) :
    RmkdirState dir state' := by
  rw [rmkdirRound_apply] at hrun
  split at hrun
  · cases hrun
  · exact h.next (Except.ok.inj (congrArg Prod.fst hrun))

section Rmkdir

variable {R : World → World → Prop} [Std.Refl R]

theorem keeps_rmkdirRound {dir : Text} {perm : Mode} {state : Text × Text}
    (h : RmkdirState dir state) (hmkdir : ∀ path, PathPrefix dir path → Keeps R (mkdir path perm)) :
    Keeps R (rmkdirRound perm state) := by
  intro w
  rw [rmkdirRound_apply]
  split
  · exact refl_of R w
  · rename_i hptr
    rw [not_or] at hptr
    exact hmkdir _ (h.pathPrefix hptr.1) w

variable [IsTrans World R]

theorem keeps_installRmkdir {dir : Text} {perm : Mode}
    (herrno : Keeps R (Run.modify fun w : World => w.withErrno enametoolong : Sys Unit))
    (hmkdir : ∀ path, PathPrefix dir path → Keeps R (mkdir path perm)) :
    Keeps R (installRmkdir dir perm) := by
  unfold installRmkdir
  split
  · exact Keeps.bind herrno fun _ => keeps_pure 0
  · exact keeps_loop_inv (RmkdirState dir) (fun _ h => keeps_rmkdirRound h hmkdir)
      (fun _ _ _ _ h hrun => h.round hrun) (fun _ => keeps_crash _) _ (Or.inr rfl)

/-- `inst_mkdir` keeps what the calls that make directories and hand one over keep. -/
theorem keeps_instMkdir_of {item : Item} {flags : BitVec 32}
    (herrno : Keeps R (Run.modify fun w : World => w.withErrno enametoolong : Sys Unit))
    (hmkdir : notDryrun flags = true → ∀ dir path, item.dir = some dir → PathPrefix dir path →
      Keeps R (mkdir path item.perm))
    (hchown : notDryrun flags = true → ∀ dir uid gid, item.dir = some dir →
      Keeps R (iposixFileOwnershipSet dir uid gid)) :
    Keeps R (instMkdir item flags) := by
  refine keeps_withIds fun uid gid => ?_
  refine Keeps.bind (fun w => refl_of R w) fun processUid => ?_
  cases processUid with
  | none => exact keeps_statusError _
  | some processUid =>
    dsimp only
    split
    · rename_i hdry
      refine keeps_deref_bind fun dir hdir =>
        Keeps.bind (keeps_installRmkdir herrno fun path => hmkdir hdry dir path hdir) fun r => ?_
      split
      · exact keeps_statusError _
      · unfold mkdirOwnership
        split
        · refine Keeps.bind (keeps_iposixCanSetOwnership _) fun can => ?_
          split
          · refine Keeps.bind (hchown hdry dir uid gid hdir) fun r => ?_
            split
            · exact keeps_statusError _
            · exact keeps_statusOk
          · exact keeps_statusError _
        · exact keeps_statusOk
    · exact keeps_statusOk

end Rmkdir

theorem keeps_instMkdir (item : Item) (flags : BitVec 32) :
    Keeps (Frame fun e => MkdirItemCall item flags e.call) (instMkdir item flags) :=
  keeps_instMkdir_of (fun w => frame_withErrno w enametoolong)
    (fun hdry dir path hdir hpath =>
      keeps_fsCall (fun _ _ => ⟨hdry, dir, hdir, Or.inl ⟨path, rfl, hpath⟩⟩) rfl)
    fun hdry dir uid gid hdir =>
      keeps_chown fun _ _ => ⟨hdry, dir, hdir, Or.inr ⟨uid, gid, rfl⟩⟩

/-! ## Removing -/

/-- The calls of the deinstall operators. -/
def RemoveCall (op : InstallOp) (item : Item) (flags : BitVec 32) (call : Call) : Prop :=
  notDryrun flags = true ∧
    match op with
    | .instCopy | .instCopyExec => ∃ dst, item.dst = some dst ∧ call = .unlink dst
    | .instSymlink | .instLiblink => ∃ dir dst, item.dir = some dir ∧ item.dst = some dst ∧
        call = .unlink ((joinPath dir dst).take (installMaxPathlen - 1))
    | .instMkdir => ∃ dir, item.dir = some dir ∧ call = .rmdir dir

theorem keeps_deinstRemove {remove : Sys Int} {message : String} {flags : BitVec 32}
    (h : notDryrun flags = true → Keeps (Frame P) remove) :
    Keeps (Frame P) (deinstRemove remove message flags) := by
  unfold deinstRemove
  split
  · rename_i hdry
    refine Keeps.bind (h hdry) fun r => ?_
    split
    · exact keeps_statusError _
    · exact keeps_statusOk
  · exact keeps_statusOk

theorem keeps_deinstLink (item : Item) (flags : BitVec 32) :
    Keeps (Frame fun e => RemoveCall .instSymlink item flags e.call) (deinstLink item flags) := by
  unfold deinstLink
  split
  · rename_i hdry
    refine keeps_deref_bind fun dir hdir => keeps_deref_bind fun dst hdst => ?_
    split
    · exact keeps_statusError _
    · rename_i pathBuf hpath
      obtain rfl := (snprintf_some hpath).2
      exact keeps_deinstRemove fun _ =>
        keeps_fsCall (fun _ _ => ⟨hdry, dir, dst, hdir, hdst, rfl⟩) rfl
  · exact keeps_statusOk

theorem keeps_deinstOper (op : InstallOp) (item : Item) (flags : BitVec 32) :
    Keeps (Frame fun e => RemoveCall op item flags e.call) ((deinstOpers op).oper item flags) := by
  have hcopy : Keeps (Frame fun e => RemoveCall .instCopy item flags e.call)
      (deinstCopy item flags) := keeps_deinstRemove fun hdry =>
    keeps_deref_bind fun dst hdst => keeps_fsCall (fun _ _ => ⟨hdry, dst, hdst, rfl⟩) rfl
  have hmkdir : Keeps (Frame fun e => RemoveCall .instMkdir item flags e.call)
      (deinstMkdir item flags) := keeps_deinstRemove fun hdry =>
    keeps_deref_bind fun dir hdir => keeps_fsCall (fun _ _ => ⟨hdry, dir, hdir, rfl⟩) rfl
  cases op with
  | instCopy => exact hcopy
  | instCopyExec => exact hcopy
  | instSymlink => exact keeps_deinstLink item flags
  | instMkdir => exact hmkdir
  | instLiblink => exact keeps_deinstLink item flags

/-! ## Checking -/

/-- The calls of `install_file_check`. -/
def CheckCall (src dst : Text) (call : Call) : Prop :=
  call = .stat src ∨ call = .stat dst ∨ call = .lstat dst

theorem keeps_wantedSize {type : FileType} {file : Text}
    (hP : ∀ cwd ok, P ⟨.stat file, cwd, ok⟩) : Keeps (Frame P) (wantedSize type file) := by
  unfold wantedSize
  split
  · exact keeps_iposixFileSize hP
  · exact keeps_pure _

theorem keeps_checkOwnership {uid gid : Id} {dst : Text} (hP : ∀ cwd ok, P ⟨.stat dst, cwd, ok⟩) :
    Keeps (Frame P) (checkOwnership uid gid dst) := by
  refine Keeps.bind (Keeps.bind (keeps_stat hP) fun _ => keeps_pure _) fun r => ?_
  cases r with
  | none => exact keeps_statusError _
  | some r =>
    dsimp only
    split
    · exact keeps_statusError _
    · split
      · exact keeps_statusError _
      · exact keeps_statusOk

theorem keeps_checkMode {mode : Mode} {uid gid : Id} {dst : Text}
    (hP : ∀ cwd ok, P ⟨.stat dst, cwd, ok⟩) : Keeps (Frame P) (checkMode mode uid gid dst) := by
  unfold checkMode
  split
  · refine Keeps.bind (Keeps.bind (keeps_stat hP) fun _ => keeps_pure _) fun r => ?_
    cases r with
    | none => exact keeps_statusError _
    | some r =>
      dsimp only
      split
      · exact keeps_statusError _
      · exact keeps_checkOwnership hP
  · exact keeps_checkOwnership hP

theorem keeps_installFileType {file : Text} {nofollow : Bool}
    (hstat : ∀ cwd ok, P ⟨.stat file, cwd, ok⟩) (hlstat : ∀ cwd ok, P ⟨.lstat file, cwd, ok⟩) :
    Keeps (Frame P) (installFileType file nofollow) := by
  unfold installFileType
  cases nofollow with
  | false => exact Keeps.bind (keeps_stat hstat) fun _ => keeps_pure _
  | true => exact Keeps.bind (keeps_lstat hlstat) fun _ => keeps_pure _

theorem keeps_installFileCheck {src dst : Text} {mode : Mode} {type : FileType} {uid gid : Id}
    (hP : ∀ call cwd ok, CheckCall src dst call → P ⟨call, cwd, ok⟩) :
    Keeps (Frame P) (installFileCheck src mode type uid gid dst) := by
  have hstat : ∀ cwd ok, P ⟨.stat dst, cwd, ok⟩ := fun cwd ok => hP _ cwd ok (Or.inr (Or.inl rfl))
  refine Keeps.bind keeps_iposixErrorReset fun _ => ?_
  dsimp only
  split
  · exact keeps_statusError _
  · refine Keeps.bind (keeps_wantedSize fun cwd ok => hP _ cwd ok (Or.inl rfl)) fun sizeWant => ?_
    cases sizeWant with
    | none => exact keeps_statusError _
    | some sizeWant =>
      refine Keeps.bind (keeps_installFileType hstat fun cwd ok =>
        hP _ cwd ok (Or.inr (Or.inr rfl))) fun typeGot => ?_
      cases typeGot with
      | none => exact keeps_statusError _
      | some typeGot =>
        dsimp only
        split
        · exact keeps_statusError _
        · split
          · exact keeps_statusError _
          · refine Keeps.bind (keeps_wantedSize hstat) fun sizeGot => ?_
            cases sizeGot with
            | none => exact keeps_statusError _
            | some sizeGot =>
              dsimp only
              split
              · exact keeps_statusError _
              · exact keeps_checkMode hstat

end Operators

/-! ## Items -/

/-- An item keeps what its translation, its operator and the calls around them keep. -/
theorem keeps_runOper {R : World → World → Prop} [Std.Refl R] [IsTrans World R]
    {opers : InstallOp → Instop} {item : Item} {flags : BitVec 32}
    (hreset : Keeps R iposixErrorReset) (htrans : Keeps R ((opers item.op).trans item))
    (hoper : ∀ t w w', (opers item.op).trans item w = (.ok (.ok t), w') →
      Keeps R ((opers item.op).oper t flags)) (hflush : Keeps R fflushAll) :
    Keeps R (runOper opers item flags) := by
  have hend : ∀ status : Status, Keeps R (do let _ ← fflushAll; pure status) := fun status =>
    Keeps.bind hflush fun _ => keeps_pure status
  refine Keeps.bind hreset fun _ w => ?_
  rcases hrun : (opers item.op).trans item w with ⟨r, w₁⟩
  have htr := htrans w
  rw [hrun] at htr
  cases r with
  | error e => rw [bind_error hrun]; exact htr
  | ok r =>
    rw [bind_ok hrun]
    cases r with
    | error message => exact trans_of R htr (hend _ w₁)
    | ok t => exact trans_of R htr (Keeps.bind (hoper t w w₁ hrun) hend w₁)

/-- A run over items keeps what every item keeps. -/
theorem keeps_runItems {R : World → World → Prop} [Std.Refl R] [IsTrans World R]
    {run : Item → Sys Status} (h : ∀ item, Keeps R (run item)) (items : List Item) :
    Keeps R (runItems run items) := by
  induction items with
  | nil => exact keeps_pure []
  | cons item items ih =>
    refine Keeps.bind (h item) fun status => ?_
    split
    · exact keeps_pure _
    · exact Keeps.bind ih fun rest => keeps_pure _

theorem keeps_install (item : Item) (flags : BitVec 32) :
    Keeps (Frame fun _ => True) (install item flags) := by
  have hcopy := fun t => (keeps_instCopy t flags).mono fun _ _ h => h.mono fun _ _ => trivial
  have hlink := fun t => (keeps_instLink t flags).mono fun _ _ h => h.mono fun _ _ => trivial
  have hmkdir := fun t => (keeps_instMkdir t flags).mono fun _ _ h => h.mono fun _ _ => trivial
  have htrans := (keeps_installTrans item).mono fun _ _ h => h.mono fun _ _ => trivial
  refine keeps_runOper keeps_iposixErrorReset htrans (fun t w w' _ => ?_)
    (keeps_fflushAll fun _ _ => trivial)
  cases item.op with
  | instCopy => exact hcopy t
  | instCopyExec => exact hcopy t
  | instSymlink => exact hlink t
  | instMkdir => exact hmkdir t
  | instLiblink => exact hlink t

theorem keeps_deinstall (item : Item) (flags : BitVec 32) :
    Keeps (Frame fun _ => True) (deinstall item flags) := by
  have htrans := (keeps_installTrans item).mono fun _ _ h => h.mono fun _ _ => trivial
  rw [← deinstOpers_trans] at htrans
  refine keeps_runOper keeps_iposixErrorReset htrans (fun t w w' _ => ?_)
    (keeps_fflushAll fun _ _ => trivial)
  exact (keeps_deinstOper item.op t flags).mono fun _ _ h => h.mono fun _ _ => trivial

section Item

variable {opers : InstallOp → Instop} {item t : Item} {flags : BitVec 32} {w w₁ w₂ : World}

/-- The call at the end of an item. -/
def Flushing (e : Entry) : Prop := e.call = .fflushAll

theorem Flushing.quiet {e : Entry} (h : Flushing e) : Quiet e := by
  obtain ⟨call, cwd, ok⟩ := e
  obtain rfl : call = .fflushAll := h
  exact ⟨rfl, rfl⟩

theorem fflushAll_apply (w : World) :
    ∃ r w', fflushAll w = (.ok r, w') ∧ w'.os = w.os ∧ Frame Flushing w w' := by
  have hframe : Frame Flushing w (fflushAll w).2 := keeps_fflushAll (fun _ _ => rfl) w
  rcases sysCall_cases .fflushAll (fun w => .ok ((), w.os)) w with ⟨a, os, -, hf, hrun⟩ |
    ⟨e, -, hrun⟩
  · have hall : fflushAll w = (.ok _, _) := bind_ok hrun
    rw [hall] at hframe ⊢
    cases hf
    exact ⟨_, _, rfl, rfl, hframe⟩
  · have hall : fflushAll w = (.ok _, _) := bind_ok hrun
    rw [hall] at hframe ⊢
    exact ⟨_, _, rfl, rfl, hframe⟩

/-- The translation ended the process. -/
theorem runOper_crash {c : Crash}
    (ht : (opers item.op).trans item (w.withErrno 0) = (.error c, w₁)) :
    runOper opers item flags w = (.error c, w₁) :=
  (bind_ok (show iposixErrorReset w = (.ok (), w.withErrno 0) from rfl)).trans (bind_error ht)

/-- The translation turned the item down. -/
theorem runOper_refused (flags : BitVec 32) {message : String}
    (ht : (opers item.op).trans item (w.withErrno 0) = (.ok (.error message), w₁)) :
    ∃ w', runOper opers item flags w = (.ok ⟨.error, some message, some w₁.errno⟩, w') ∧
      Frame Flushing w₁ w' := by
  obtain ⟨r, w', hflush, -, hframe⟩ := fflushAll_apply w₁
  refine ⟨w', (bind_ok ht).trans ?_, hframe⟩
  exact bind_ok (m := fflushAll) hflush

/-- The translation accepted the item: the outcome is the operator's. -/
theorem runOper_run {r : Except Crash Status}
    (ht : (opers item.op).trans item (w.withErrno 0) = (.ok (.ok t), w₁))
    (hr : (opers item.op).oper t flags w₁ = (r, w₂)) :
    ∃ w', runOper opers item flags w = (r, w') ∧ w'.os = w₂.os ∧
      Frame Flushing w₂ w' := by
  cases r with
  | error c => exact ⟨w₂, (bind_ok ht).trans (bind_error hr), rfl, Frame.refl w₂⟩
  | ok status =>
    obtain ⟨r, w', hflush, hos, hframe⟩ := fflushAll_apply w₂
    refine ⟨w', (bind_ok ht).trans ?_, hos, hframe⟩
    exact (bind_ok hr).trans (bind_ok (m := fflushAll) hflush)

/-- The calls of an item whose translation is accepted. -/
theorem runOper_logs {P : Entry → Prop}
    (htrans : Keeps (Frame Reading) ((opers item.op).trans item))
    (ht : (opers item.op).trans item (w.withErrno 0) = (.ok (.ok t), w₁))
    (hread : ∀ e, Reading e → P e) (hflush : ∀ e, Flushing e → P e)
    (hoper : Logs P w₁ ((opers item.op).oper t flags w₁).2) :
    Logs P w (runOper opers item flags w).2 := by
  have hreset : Logs P w (w.withErrno 0) := (frame_withErrno (P := P) w 0).logs fun _ h => h
  have htr : Logs P (w.withErrno 0) w₁ := (Frame.of_run htrans ht).logs hread
  rcases hr : (opers item.op).oper t flags w₁ with ⟨r, w₂⟩
  rw [hr] at hoper
  obtain ⟨w', hrun, -, hframe⟩ := runOper_run ht hr
  rw [hrun]
  exact trans_of (Logs P) (trans_of (Logs P) hreset (trans_of (Logs P) htr hoper))
    (hframe.logs hflush)

end Item

end CStringVerified.Install
