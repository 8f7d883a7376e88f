import CStringVerified.Foundation.Links
import CStringVerified.Install.Proofs.TranslationProofs

/-!
# `install_check`

What the check compares, as a predicate on the file system, and what it should compare.
-/

namespace CStringVerified.Install

open Foundation Foundation.Run

/-! ## What there is at a pathname -/

/-- The node `stat` finds. -/
def statAt (w : World) (path : Text) : Option Node :=
  (do
    let p ← w.route path
    w.os.fs.stat p).toOption

/-- The node `lstat` finds. -/
def lstatAt (w : World) (path : Text) : Option Node :=
  (do
    let p ← w.route path
    w.os.fs.lstat p).toOption

theorem route_toOption_eq_some {w : World} {path : Text} {f : Route → Except Errno Node} {n : Node} :
    (w.route path >>= f).toOption = some n ↔
      path ≠ [] ∧ f (Foundation.route w.os.cwd path) = .ok n := by
  unfold World.route
  by_cases hne : path = []
  · rw [if_pos hne]
    exact iff_of_false nofun fun h => h.1 hne
  · rw [if_neg hne, and_iff_right hne]
    show (f (Foundation.route w.os.cwd path)).toOption = some n ↔ _
    cases f (Foundation.route w.os.cwd path) with
    | error e => exact iff_of_false nofun nofun
    | ok m =>
      constructor
      · intro h
        rw [Option.some.inj h]
      · rintro ⟨⟩
        rfl

theorem statAt_eq_some {w : World} {path : Text} {n : Node} :
    statAt w path = some n ↔
      path ≠ [] ∧ ∃ l, w.os.fs.resolve (Foundation.route w.os.cwd path) = .ok (l, some n) := by
  rw [statAt, route_toOption_eq_some, FileSystem.stat_eq_ok]

theorem lstatAt_eq_some {w : World} {path : Text} {n : Node} :
    lstatAt w path = some n ↔
      path ≠ [] ∧ w.os.fs.lstat (Foundation.route w.os.cwd path) = .ok n :=
  route_toOption_eq_some

/-- Two worlds with the same files, seen from the same directory. -/
def SameFiles (w w' : World) : Prop := w'.os.fs = w.os.fs ∧ w'.os.cwd = w.os.cwd

section SameFiles

variable {w w' w'' : World}

theorem SameFiles.refl (w : World) : SameFiles w w := ⟨rfl, rfl⟩

theorem SameFiles.trans (h : SameFiles w w') (h' : SameFiles w' w'') : SameFiles w w'' :=
  ⟨h'.1.trans h.1, h'.2.trans h.2⟩

theorem Frame.sameFiles (h : Frame Quiet w w') : SameFiles w w' := ⟨h.quiet_fs, h.quiet_cwd⟩

theorem SameFiles.route (h : SameFiles w w') (path : Text) : w'.route path = w.route path := by
  rw [World.route, World.route, h.2]

theorem SameFiles.statAt (h : SameFiles w w') (path : Text) : statAt w' path = statAt w path := by
  rw [Install.statAt, Install.statAt, h.route, h.1]

theorem SameFiles.lstatAt (h : SameFiles w w') (path : Text) :
    lstatAt w' path = lstatAt w path := by
  rw [Install.lstatAt, Install.lstatAt, h.route, h.1]

end SameFiles

theorem query_apply {α : Type} (call : Call) (f : World → Except Errno α) (w : World) :
    ∃ w', query call f w = (.ok (f w).toOption, w') ∧ SameFiles w w' := by
  unfold query
  cases f w with
  | error e => exact ⟨(w.record call false).withErrno e, rfl, rfl, rfl⟩
  | ok a => exact ⟨w.record call true, rfl, rfl, rfl⟩

theorem stat_apply (path : Text) (w : World) :
    ∃ w', stat path w = (.ok (statAt w path), w') ∧ SameFiles w w' := query_apply _ _ w

theorem lstat_apply (path : Text) (w : World) :
    ∃ w', lstat path w = (.ok (lstatAt w path), w') ∧ SameFiles w w' := query_apply _ _ w

/-! ## What is compared -/

/-- The node whose type is looked up: a link itself where a link is wanted. -/
def typedNode (w : World) (typeWant : FileType) (path : Text) : Option Node :=
  if typeWant = .symlink then lstatAt w path else statAt w path

theorem SameFiles.typedNode {w w' : World} (h : SameFiles w w') (typeWant : FileType)
    (path : Text) : typedNode w' typeWant path = typedNode w typeWant path := by
  rw [Install.typedNode, Install.typedNode, h.statAt, h.lstatAt]

/-- The comparisons of `install_file_check`: the type only has to be a known one. -/
structure Accepts (w : World) (fileSrc : Text) (modeWant : Mode) (typeWant : FileType)
    (uidWant gidWant : Id) (fileDst : Text) : Prop where
  known : ∃ n, typedNode w typeWant fileDst = some n ∧ fileTypeOf n.stMode ≠ none
  size : typeWant = .file → ∃ s n, statAt w fileSrc = some s ∧ statAt w fileDst = some n ∧
    s.stSize = n.stSize
  rest : ∃ n, statAt w fileDst = some n ∧ n.stMode &&& 0o755 = modeWant ∧ n.stUid = uidWant ∧
    n.stGid = gidWant

/-- The outcome of a check: a status that is good exactly if `good`, and never fatal. -/
def Verdict (m : Sys Status) (w : World) (good : Prop) : Prop :=
  ∃ status w', m w = (.ok status, w') ∧ (status.status = .ok ↔ good) ∧ status.status ≠ .fatal

theorem verdict_statusOk (w : World) {good : Prop} (h : good) : Verdict statusOk w good :=
  ⟨_, w, rfl, iff_of_true rfl h, by simp⟩

theorem verdict_statusError (message : String) (w : World) {good : Prop} (h : ¬good) :
    Verdict (statusError message) w good :=
  ⟨_, w, rfl, iff_of_false (by simp) h, by simp⟩

theorem Verdict.bind {α : Type} {m : Sys α} {next : α → Sys Status} {w w' : World} {a : α}
    {good : Prop} (hm : m w = (.ok a, w')) (h : Verdict (next a) w' good) :
    Verdict (m >>= next) w good := by
  obtain ⟨status, w'', hrun, hgood⟩ := h
  exact ⟨status, w'', (bind_ok hm).trans hrun, hgood⟩

theorem Verdict.congr {m : Sys Status} {w : World} {good good' : Prop} (h : Verdict m w good)
    (hiff : good ↔ good') : Verdict m w good' := by
  obtain ⟨status, w', hrun, hgood, hfatal⟩ := h
  exact ⟨status, w', hrun, hgood.trans hiff, hfatal⟩

section Check

variable {fileSrc fileDst : Text} {modeWant : Mode} {typeWant : FileType} {uidWant gidWant : Id}

theorem checkOwnership_verdict (w : World) :
    Verdict (checkOwnership uidWant gidWant fileDst) w
      (∃ n, statAt w fileDst = some n ∧ n.stUid = uidWant ∧ n.stGid = gidWant) := by
  obtain ⟨w', hstat, -⟩ := stat_apply fileDst w
  refine Verdict.bind (bind_ok hstat) ?_
  cases hn : statAt w fileDst with
  | none => exact verdict_statusError _ _ (by rintro ⟨n, h, -⟩; cases h)
  | some n =>
    dsimp only [Option.map_some]
    by_cases huid : n.stUid = uidWant
    · rw [if_neg (by simp [iposixUidCompare, huid])]
      by_cases hgid : n.stGid = gidWant
      · rw [if_neg (by simp [iposixGidCompare, hgid])]
        exact verdict_statusOk _ ⟨n, rfl, huid, hgid⟩
      · rw [if_pos (by simp [iposixGidCompare, Ne.symm hgid])]
        exact verdict_statusError _ _ (by rintro ⟨m, h, -, hg⟩; cases h; exact hgid hg)
    · rw [if_pos (by simp [iposixUidCompare, Ne.symm huid])]
      exact verdict_statusError _ _ (by rintro ⟨m, h, hu, -⟩; cases h; exact huid hu)

theorem checkMode_verdict (w : World) :
    Verdict (checkMode modeWant uidWant gidWant fileDst) w
      (∃ n, statAt w fileDst = some n ∧ n.stMode &&& 0o755 = modeWant ∧ n.stUid = uidWant ∧
        n.stGid = gidWant) := by
  unfold checkMode
  rw [if_pos (show iposixSupportsPosixModes = 1 from rfl)]
  obtain ⟨w', hstat, hsame⟩ := stat_apply fileDst w
  refine Verdict.bind (bind_ok hstat) ?_
  cases hn : statAt w fileDst with
  | none => exact verdict_statusError _ _ (by rintro ⟨n, h, -⟩; cases h)
  | some n =>
    dsimp only [Option.map_some]
    by_cases hmode : n.stMode &&& 0o755 = modeWant
    · rw [if_neg (not_not.mpr hmode)]
      refine (checkOwnership_verdict w').congr ?_
      rw [hsame.statAt, hn]
      constructor
      · rintro ⟨m, h, hids⟩
        cases h
        exact ⟨n, rfl, hmode, hids⟩
      · rintro ⟨m, h, -, hids⟩
        exact ⟨m, h, hids⟩
    · rw [if_pos hmode]
      exact verdict_statusError _ _ (by rintro ⟨m, h, hm, -⟩; cases h; exact hmode hm)

/-- The size `wanted_size` says. -/
def sizeAt (w : World) (typeWant : FileType) (file : Text) : Option Nat :=
  if typeWant = .file then (statAt w file).map Node.stSize else some 0

theorem SameFiles.sizeAt {w w' : World} (h : SameFiles w w') (typeWant : FileType) (file : Text) :
    sizeAt w' typeWant file = sizeAt w typeWant file := by
  rw [Install.sizeAt, Install.sizeAt, h.statAt]

theorem wantedSize_apply (typeWant : FileType) (file : Text) (w : World) :
    ∃ w', wantedSize typeWant file w = (.ok (sizeAt w typeWant file), w') ∧ SameFiles w w' := by
  unfold wantedSize sizeAt
  split
  · obtain ⟨w', hstat, hsame⟩ := stat_apply file w
    exact ⟨w', bind_ok hstat, hsame⟩
  · exact ⟨w, rfl, SameFiles.refl w⟩

theorem checkSize_verdict (sizeWant : Nat) (w : World) :
    Verdict (checkSize typeWant sizeWant modeWant uidWant gidWant fileDst) w
      (sizeAt w typeWant fileDst = some sizeWant ∧
        ∃ n, statAt w fileDst = some n ∧ n.stMode &&& 0o755 = modeWant ∧ n.stUid = uidWant ∧
          n.stGid = gidWant) := by
  obtain ⟨w', hsize, hsame⟩ := wantedSize_apply typeWant fileDst w
  refine Verdict.bind hsize ?_
  cases hs : sizeAt w typeWant fileDst with
  | none => exact verdict_statusError _ _ (by rintro ⟨h, -⟩; cases h)
  | some sizeGot =>
    dsimp only
    by_cases hne : sizeWant = sizeGot
    · rw [if_neg (by simp [hne])]
      refine (checkMode_verdict w').congr ?_
      rw [hsame.statAt, hne]
      simp
    · rw [if_pos hne]
      exact verdict_statusError _ _ (by rintro ⟨h, -⟩; cases h; exact hne rfl)

theorem installFileType_apply (typeWant : FileType) (file : Text) (w : World) :
    ∃ w', installFileType file (typeWant = .symlink) w =
      (.ok ((typedNode w typeWant file).bind fun n => fileTypeOf n.stMode), w') ∧
        SameFiles w w' := by
  unfold installFileType typedNode
  by_cases hlink : typeWant = .symlink
  · simp only [hlink, decide_true, if_true]
    obtain ⟨w', hstat, hsame⟩ := lstat_apply file w
    exact ⟨w', bind_ok hstat, hsame⟩
  · simp only [hlink, decide_false, if_false, Bool.false_eq_true]
    obtain ⟨w', hstat, hsame⟩ := stat_apply file w
    exact ⟨w', bind_ok hstat, hsame⟩

theorem installFileTypeNameLookup_some (type : FileType) :
    ∃ name, installFileTypeNameLookup type = some name := by
  cases type <;> exact ⟨_, rfl⟩

theorem accepts_iff {w : World} {sizeWant : Nat}
    (hsrc : sizeAt w typeWant fileSrc = some sizeWant)
    (hknown : ∃ n, typedNode w typeWant fileDst = some n ∧ fileTypeOf n.stMode ≠ none) :
    (sizeAt w typeWant fileDst = some sizeWant ∧
        ∃ n, statAt w fileDst = some n ∧ n.stMode &&& 0o755 = modeWant ∧ n.stUid = uidWant ∧
          n.stGid = gidWant) ↔
      Accepts w fileSrc modeWant typeWant uidWant gidWant fileDst := by
  unfold sizeAt at hsrc ⊢
  constructor
  · rintro ⟨hdst, hrest⟩
    refine ⟨hknown, fun hfile => ?_, hrest⟩
    rw [if_pos hfile] at hsrc hdst
    obtain ⟨s, hs, hsize⟩ := Option.map_eq_some_iff.mp hsrc
    obtain ⟨n, hn, hsize'⟩ := Option.map_eq_some_iff.mp hdst
    exact ⟨s, n, hs, hn, hsize.trans hsize'.symm⟩
  · intro h
    refine ⟨?_, h.rest⟩
    by_cases hfile : typeWant = .file
    · obtain ⟨s, n, hs, hn, hsize⟩ := h.size hfile
      rw [if_pos hfile, hs] at hsrc
      rw [if_pos hfile, hn, ← hsrc]
      exact congrArg some hsize.symm
    · rw [if_neg hfile] at hsrc ⊢
      exact hsrc

theorem installFileCheck_verdict (w : World) :
    Verdict (installFileCheck fileSrc modeWant typeWant uidWant gidWant fileDst) w
      (Accepts w fileSrc modeWant typeWant uidWant gidWant fileDst) := by
  have hreset : iposixErrorReset w = (.ok (), w.withErrno 0) := rfl
  refine Verdict.bind hreset ?_
  have hsame₀ : SameFiles w (w.withErrno 0) := ⟨rfl, rfl⟩
  obtain ⟨wantName, hwant⟩ := installFileTypeNameLookup_some typeWant
  simp only [hwant]
  obtain ⟨w₁, hsize, hsame₁⟩ := wantedSize_apply typeWant fileSrc (w.withErrno 0)
  refine Verdict.bind hsize ?_
  rw [hsame₀.sizeAt]
  cases hsrc : sizeAt w typeWant fileSrc with
  | none =>
    refine verdict_statusError _ _ fun h => ?_
    by_cases hfile : typeWant = .file
    · obtain ⟨s, n, hs, -⟩ := h.size hfile
      rw [sizeAt, if_pos hfile, hs] at hsrc
      cases hsrc
    · rw [sizeAt, if_neg hfile] at hsrc
      cases hsrc
  | some sizeWant =>
    obtain ⟨w₂, htype, hsame₂⟩ := installFileType_apply typeWant fileDst w₁
    have hsame := (hsame₀.trans hsame₁).trans hsame₂
    refine Verdict.bind htype ?_
    rw [(hsame₀.trans hsame₁).typedNode]
    cases hgot : (typedNode w typeWant fileDst).bind fun n => fileTypeOf n.stMode with
    | none =>
      refine verdict_statusError _ _ fun h => ?_
      obtain ⟨n, hn, hne⟩ := h.known
      rw [hn] at hgot
      exact hne hgot
    | some typeGot =>
      obtain ⟨gotName, hname⟩ := installFileTypeNameLookup_some typeGot
      simp only [hname]
      rw [if_neg fun h => absurd h.1.1 (by decide)]
      refine (checkSize_verdict sizeWant w₂).congr ?_
      rw [hsame.sizeAt, hsame.statAt]
      refine accepts_iff hsrc ?_
      obtain ⟨n, hn, htn⟩ := Option.bind_eq_some_iff.mp hgot
      exact ⟨n, hn, by rw [htn]; exact Option.some_ne_none _⟩

end Check

/-! ## Items -/

/-- What the translation makes of an item, if it accepts it. -/
def translated (opers : InstallOp → Instop) (w : World) (item : Item) : Option Item :=
  match (opers item.op).trans item (w.withErrno 0) with
  | (.ok (.ok t), _) => some t
  | _ => none

/-- The translation turns an item down. -/
def Refused (opers : InstallOp → Instop) (w : World) (item : Item) : Prop :=
  ∃ message w', (opers item.op).trans item (w.withErrno 0) = (.ok (.error message), w')

/-- The type of what an operation installs. -/
def wantedType : InstallOp → FileType
  | .instCopy | .instCopyExec => .file
  | .instSymlink | .instLiblink => .symlink
  | .instMkdir => .directory

/-- The source a check operator looks at. -/
def checkedSrc (op : InstallOp) (t : Item) : Option Text :=
  match op with
  | .instMkdir => t.dir
  | _ => t.src

/-- The destination a check operator looks at. -/
def checkedDst (op : InstallOp) (t : Item) : Option Text :=
  match op with
  | .instMkdir => t.dir
  | _ => t.dst

/-- A translated item whose names and IDs are all there. -/
structure Checkable (w : World) (op : InstallOp) (t : Item) (src dst : Text) (uid gid : Id) :
    Prop where
  src : checkedSrc op t = some src
  dst : checkedDst op t = some dst
  ids : wantedIds w.env t = some (uid, gid)
  valid : ¬(uid = nullId ∨ gid = nullId)

theorem instchkOper_eq (op : InstallOp) (t : Item) (flags : BitVec 32) :
    (instchkOpers op).oper t flags =
      instchkFile (wantedType op) (checkedSrc op) (checkedDst op) t flags := by
  cases op <;> rfl

section Item

variable {op : InstallOp} {t item : Item} {flags : BitVec 32} {w w' : World} {src dst : Text}
  {uid gid : Id}

theorem Checkable.sameFiles (h : Checkable w op t src dst uid gid) (henv : w'.env = w.env) :
    Checkable w' op t src dst uid gid :=
  ⟨h.src, h.dst, by rw [henv]; exact h.ids, h.valid⟩

theorem SameFiles.accepts {mode : Mode} {type : FileType} (h : SameFiles w w') :
    Accepts w' src mode type uid gid dst ↔ Accepts w src mode type uid gid dst := by
  constructor
  · intro ha
    have h₁ := ha.known
    have h₂ := ha.size
    have h₃ := ha.rest
    rw [h.typedNode] at h₁
    rw [h.statAt, h.statAt] at h₂
    rw [h.statAt] at h₃
    exact ⟨h₁, h₂, h₃⟩
  · intro ha
    refine ⟨?_, ?_, ?_⟩
    · rw [h.typedNode]
      exact ha.known
    · rw [h.statAt, h.statAt]
      exact ha.size
    · rw [h.statAt]
      exact ha.rest

/-- What a check leaves behind, with so many failures counted. -/
structure Checked (w w' : World) (failures : Nat) : Prop where
  files : SameFiles w w'
  env : w'.env = w.env
  globals : w'.globals = w.globals
  failed : w'.failed = w.failed + failures

theorem Frame.checked (h : Frame Quiet w w') : Checked w w' 0 :=
  ⟨h.sameFiles, h.env, h.globals, h.failed⟩

theorem Checked.trans {w'' : World} {m n : Nat} (h : Checked w w' m) (h' : Checked w' w'' n) :
    Checked w w'' (m + n) :=
  ⟨h.files.trans h'.files, h'.env.trans h.env, h'.globals.trans h.globals,
    by rw [h'.failed, h.failed, Nat.add_assoc]⟩

theorem Frame.flushed (h : Frame Flushing w w') : Checked w w' 0 :=
  (h.mono fun _ he => he.quiet).checked

theorem instchkOper_unknown (op : InstallOp) (flags : BitVec 32) (h : wantedIds w.env t = none) :
    ∃ status, (instchkOpers op).oper t flags w = (.ok status, w) ∧ status.status = .error := by
  rw [instchkOper_eq]
  exact withIds_unknown _ h

theorem instchkOper_checkable (flags : BitVec 32) (h : Checkable w op t src dst uid gid) :
    (instchkOpers op).oper t flags w =
      (installFileCheck src t.perm (wantedType op) uid gid dst >>= countFailure) w := by
  rw [instchkOper_eq, instchkFile, withIds_found h.ids, if_neg h.valid, compareFiles, h.src, h.dst]
  rfl

/-- A check operator that returns had an item with an unknown owner or group, or one that can be
checked. -/
theorem instchkOper_returns {status : Status}
    (h : (instchkOpers op).oper t flags w = (.ok status, w')) :
    wantedIds w.env t = none ∨ ∃ src dst uid gid, Checkable w op t src dst uid gid := by
  rw [instchkOper_eq, instchkFile] at h
  rcases wantedIds_cases w.env t with hids | ⟨uid, gid, hids, hnull⟩ | ⟨uid, gid, hids, hnull⟩
  · exact Or.inl hids
  · rw [withIds_found hids, if_pos hnull] at h
    cases h
  · rw [withIds_found hids, if_neg hnull, compareFiles] at h
    cases hsrc : checkedSrc op t with
    | none => rw [hsrc] at h; cases h
    | some src =>
      cases hdst : checkedDst op t with
      | none => rw [hsrc, hdst] at h; cases h
      | some dst => exact Or.inr ⟨src, dst, uid, gid, hsrc, hdst, hids, hnull⟩

/-- The comparisons, and the count: a bad outcome is counted. -/
theorem compare_verdict (src : Text) (mode : Mode) (type : FileType) (uid gid : Id) (dst : Text)
    (w : World) :
    ∃ status w', (installFileCheck src mode type uid gid dst >>= countFailure) w = (.ok status, w') ∧
      (status.status = .ok ↔ Accepts w src mode type uid gid dst) ∧ status.status ≠ .fatal ∧
      Checked w w' (if status.status = .ok then 0 else 1) := by
  have hverdict : Verdict (installFileCheck src mode type uid gid dst) w
      (Accepts w src mode type uid gid dst) := installFileCheck_verdict w
  obtain ⟨status, w₁, hcheck, hgood, hfatal⟩ := hverdict
  have hframe : Frame Quiet w w₁ := Frame.of_run (keeps_installFileCheck fun call cwd ok hcall => by
    rcases hcall with rfl | rfl | rfl <;> exact ⟨rfl, rfl⟩) hcheck
  rw [bind_ok hcheck]
  unfold countFailure
  by_cases hok : status.status = .ok
  · rw [if_neg (not_not.mpr hok)]
    refine ⟨status, w₁, rfl, hgood, hfatal, ?_⟩
    rw [if_pos hok]
    exact hframe.checked
  · rw [if_pos hok]
    refine ⟨status, { w₁ with failed := w₁.failed + 1 }, rfl, hgood, hfatal, hframe.sameFiles,
      hframe.env, hframe.globals, ?_⟩
    rw [if_neg hok, ← hframe.failed]

/-- An item that is found to be bad before anything is compared: the translation turns it down, or its
owner or group is unknown. -/
def Unchecked (w : World) (item : Item) : Prop :=
  Refused instchkOpers w item ∨
    ∃ t, translated instchkOpers w item = some t ∧ wantedIds w.env t = none

/-- An item whose files are compared. -/
structure Compared (w : World) (item t : Item) (src dst : Text) (uid gid : Id) : Prop where
  translated : translated instchkOpers w item = some t
  checkable : Checkable w item.op t src dst uid gid

/-- The translation of a check, as `install_check` runs it. -/
theorem checkTrans_checked {r : Except Crash (Except String Item)}
    (h : (instchkOpers item.op).trans item (w.withErrno 0) = (r, w')) : Checked w w' 0 := by
  have hreset : Checked w (w.withErrno 0) 0 := ⟨⟨rfl, rfl⟩, rfl, rfl, rfl⟩
  have hread : Frame Quiet (w.withErrno 0) w' :=
    (Frame.of_run (keeps_instchkTrans item) h).mono fun _ h => h.quiet
  exact hreset.trans hread.checked

theorem translated_of_ok {opers : InstallOp → Instop} {op : InstallOp} {w' : World} (hop : item.op = op)
    (h : (opers op).trans item (w.withErrno 0) = (.ok (.ok t), w')) :
    translated opers w item = some t := by
  rw [translated, hop, h]

theorem translated_eq_some {opers : InstallOp → Instop} (h : translated opers w item = some t) :
    ∃ w', (opers item.op).trans item (w.withErrno 0) = (.ok (.ok t), w') := by
  unfold translated at h
  split at h
  · rename_i t' w' htrans
    cases h
    exact ⟨w', htrans⟩
  · cases h

/-- An item that is bad before anything is compared is not counted. -/
theorem installCheck_unchecked (h : Unchecked w item) :
    ∃ status w', installCheck item w = (.ok status, w') ∧ status.status = .error ∧
      Checked w w' 0 := by
  rcases h with ⟨message, w₁, htrans⟩ | ⟨t, ht, hids⟩
  · obtain ⟨w', hrun, hframe⟩ := runOper_refused 0 htrans
    exact ⟨_, w', hrun, rfl, (checkTrans_checked htrans).trans hframe.flushed⟩
  · obtain ⟨w₁, htrans⟩ := translated_eq_some ht
    have hchecked := checkTrans_checked htrans
    rw [← hchecked.env] at hids
    obtain ⟨status, hoper, hstatus⟩ := instchkOper_unknown item.op 0 hids
    obtain ⟨w', hrun, -, hframe⟩ := runOper_run htrans hoper
    exact ⟨status, w', hrun, hstatus, hchecked.trans hframe.flushed⟩

/-- An item whose files are compared: the outcome is that of the comparisons, and a bad one is
counted. -/
theorem installCheck_compared (h : Compared w item t src dst uid gid) :
    ∃ status w', installCheck item w = (.ok status, w') ∧
      (status.status = .ok ↔ Accepts w src t.perm (wantedType item.op) uid gid dst) ∧
      status.status ≠ .fatal ∧ Checked w w' (if status.status = .ok then 0 else 1) := by
  obtain ⟨w₁, htrans⟩ := translated_eq_some h.translated
  have hchecked := checkTrans_checked htrans
  obtain ⟨status, w₂, hcompare, hgood, hfatal, hcount⟩ :=
    compare_verdict src t.perm (wantedType item.op) uid gid dst w₁
  have hoper := instchkOper_checkable 0 (h.checkable.sameFiles hchecked.env)
  obtain ⟨w', hrun, -, hframe⟩ := runOper_run htrans (hoper.trans hcompare)
  rw [hchecked.files.accepts] at hgood
  refine ⟨status, w', hrun, hgood, hfatal, ?_⟩
  simpa using (hchecked.trans hcount).trans hframe.flushed

/-- A check that returns was of one of these two kinds. -/
theorem installCheck_returns {status : Status} (h : installCheck item w = (.ok status, w')) :
    Unchecked w item ∨ ∃ t src dst uid gid, Compared w item t src dst uid gid := by
  rcases htrans : (instchkOpers item.op).trans item (w.withErrno 0) with ⟨r, w₁⟩
  have hchecked := checkTrans_checked htrans
  cases r with
  | error c =>
    rw [installCheck, runOper_crash htrans] at h
    cases h
  | ok r =>
    cases r with
    | error message => exact Or.inl (Or.inl ⟨message, w₁, htrans⟩)
    | ok t =>
      have ht : translated instchkOpers w item = some t := translated_of_ok rfl htrans
      rcases hoper : (instchkOpers item.op).oper t 0 w₁ with ⟨r, w₂⟩
      obtain ⟨w'', hrun, -⟩ := runOper_run htrans hoper
      rw [installCheck, hrun] at h
      cases h
      rcases instchkOper_returns hoper with hids | ⟨src, dst, uid, gid, hcheckable⟩
      · exact Or.inl (Or.inr ⟨t, ht, hchecked.env ▸ hids⟩)
      · exact Or.inr ⟨t, src, dst, uid, gid, ht, hcheckable.sameFiles hchecked.env.symm⟩

end Item

/-! ## What is installed -/

/-- The outcome of `install_check` is `INSTALL_STATUS_OK`. -/
def CheckOk (w : World) (item : Item) : Prop :=
  ∃ status w', installCheck item w = (.ok status, w') ∧ status.status = .ok

/-- The item is checked, and passes the comparisons made. -/
def Accepted (w : World) (item t : Item) : Prop :=
  ∃ src dst uid gid, Checkable w item.op t src dst uid gid ∧
    Accepts w src t.perm (wantedType item.op) uid gid dst

theorem checkOk_iff (w : World) (item : Item) :
    CheckOk w item ↔ ∃ t, translated instchkOpers w item = some t ∧ Accepted w item t := by
  constructor
  · rintro ⟨status, w', hrun, hok⟩
    rcases installCheck_returns hrun with hbad | ⟨t, src, dst, uid, gid, h⟩
    · obtain ⟨status', w'', hrun', herror, -⟩ := installCheck_unchecked hbad
      rw [hrun] at hrun'
      cases hrun'
      rw [hok] at herror
      cases herror
    · obtain ⟨status', w'', hrun', hgood, -⟩ := installCheck_compared h
      rw [hrun] at hrun'
      cases hrun'
      exact ⟨t, h.translated, src, dst, uid, gid, h.checkable, hgood.mp hok⟩
  · rintro ⟨t, ht, src, dst, uid, gid, hcheckable, haccepts⟩
    obtain ⟨status, w', hrun, hgood, -⟩ := installCheck_compared ⟨ht, hcheckable⟩
    exact ⟨status, w', hrun, hgood.mpr haccepts⟩

/-- A translation leaves what is wanted of an item. -/
structure SameWants (item t : Item) : Prop where
  owner : t.owner = item.owner
  group : t.group = item.group
  perm : t.perm = item.perm

theorem SameWants.wantedIds {item t : Item} {env : Env} (h : SameWants item t) :
    wantedIds env t = wantedIds env item := by
  rw [Install.wantedIds, Install.wantedIds, h.owner, h.group]

theorem installTrans_sameWants {item t : Item} {w w' : World}
    (h : (installOpers item.op).trans item w = (.ok (.ok t), w')) : SameWants item t := by
  cases hop : item.op with
  | instCopy =>
    rw [hop] at h
    obtain ⟨_, _, _, _, _, _, -, -, -, -, -, rfl⟩ := ntranCopy_ok h
    exact ⟨rfl, rfl, rfl⟩
  | instCopyExec =>
    rw [hop] at h
    obtain ⟨t₀, _, _, ht₀, -, -, rfl⟩ := ntranCopyExec_ok h
    obtain ⟨_, _, _, _, _, _, -, -, -, -, -, rfl⟩ := ntranCopy_ok ht₀
    exact ⟨rfl, rfl, rfl⟩
  | instSymlink =>
    rw [hop] at h
    obtain ⟨_, _, _, -, -, -, rfl⟩ := ntranLink_ok h
    exact ⟨rfl, rfl, rfl⟩
  | instMkdir =>
    rw [hop] at h
    obtain ⟨-, rfl⟩ := ntranMkdir_ok h
    exact ⟨rfl, rfl, rfl⟩
  | instLiblink =>
    rw [hop] at h
    obtain ⟨_, _, _, _, _, -, -, -, -, rfl⟩ := ntranLiblink_ok h
    exact ⟨rfl, rfl, rfl⟩

/-- The translation of a check is that of the installer, and for links one more step. -/
theorem instchkTrans_ok {item t : Item} {w w' : World}
    (h : (instchkOpers item.op).trans item w = (.ok (.ok t), w')) :
    ∃ t₀, (installOpers item.op).trans item w = (.ok (.ok t₀), w') ∧
      (t = t₀ ∨ ∃ dst, t = { t₀ with dst := dst }) := by
  cases hop : item.op with
  | instCopy => rw [hop] at h; exact ⟨t, h, Or.inl rfl⟩
  | instCopyExec => rw [hop] at h; exact ⟨t, h, Or.inl rfl⟩
  | instMkdir => rw [hop] at h; exact ⟨t, h, Or.inl rfl⟩
  | instSymlink =>
    rw [hop] at h
    obtain ⟨t₀, _, _, ht₀, -, -, rfl⟩ := ntranChk_ok h
    exact ⟨t₀, ht₀, Or.inr ⟨_, rfl⟩⟩
  | instLiblink =>
    rw [hop] at h
    obtain ⟨t₀, _, _, ht₀, -, -, rfl⟩ := ntranChk_ok h
    exact ⟨t₀, ht₀, Or.inr ⟨_, rfl⟩⟩

theorem instchk_sameWants {item t : Item} {w : World}
    (h : translated instchkOpers w item = some t) : SameWants item t := by
  obtain ⟨w', htrans⟩ := translated_eq_some h
  obtain ⟨t₀, ht₀, rfl | ⟨dst, rfl⟩⟩ := instchkTrans_ok htrans
  · exact installTrans_sameWants ht₀
  · have h₀ := installTrans_sameWants ht₀
    exact ⟨h₀.owner, h₀.group, h₀.perm⟩

/-- The node that is to be at the destination: for a link, the link itself. -/
def objectAt (w : World) (op : InstallOp) (path : Text) : Option Node :=
  typedNode w (wantedType op) path

/-- What an item wants is installed at the destination its translation `t` names. -/
structure Installed (w : World) (item t : Item) (path : Text) (n : Node) : Prop where
  dst : checkedDst item.op t = some path
  object : objectAt w item.op path = some n
  type : fileTypeOf n.stMode = some (wantedType item.op)
  perm : wantedType item.op ≠ .symlink → n.perm = item.perm
  ids : wantedIds w.env item = some (n.stUid, n.stGid)
  size : wantedType item.op = .file → ∃ src s, t.src = some src ∧ statAt w src = some s ∧
    n.stSize = s.stSize

/-- What the comparisons of `install_file_check` do not see: the object has the wanted type, its mode
has no bits outside of 0755, and a link has the owner and group of the file it leads to. -/
def Exact (w : World) (op : InstallOp) (t : Item) : Prop :=
  ∀ path n, checkedDst op t = some path → objectAt w op path = some n →
    fileTypeOf n.stMode = some (wantedType op) ∧
      (wantedType op ≠ .symlink → n.stMode &&& 0o7022 = 0) ∧
      (wantedType op = .symlink → ∀ m, statAt w path = some m →
        n.stUid = m.stUid ∧ n.stGid = m.stGid)

theorem perm_eq_iff (m : Mode) : m &&& 0o7777 = m &&& 0o755 ↔ m &&& 0o7022 = 0 := by
  constructor
  · intro h
    calc m &&& 0o7022 = (m &&& 0o7777) &&& 0o7022 := by rw [BitVec.and_assoc]; rfl
      _ = m &&& (0o755 &&& 0o7022) := by rw [h, BitVec.and_assoc]
      _ = 0 := BitVec.and_zero
  · intro h
    calc m &&& 0o7777 = m &&& (0o755 ||| 0o7022) := rfl
      _ = (m &&& 0o755) ||| (m &&& 0o7022) := BitVec.and_or_distrib_left
      _ = m &&& 0o755 := by rw [h]; exact BitVec.or_zero

theorem checkedSrc_file {op : InstallOp} {t : Item} (h : wantedType op = .file) :
    checkedSrc op t = t.src := by
  cases op <;> first | rfl | cases h

theorem objectAt_stat {w : World} {op : InstallOp} {path : Text} (h : wantedType op ≠ .symlink) :
    objectAt w op path = statAt w path := if_neg h

/-- What is accepted is installed, if what the comparisons do not see is right. -/
theorem Accepted.installed {w : World} {item t : Item} (h : Accepted w item t)
    (hsame : SameWants item t) (hexact : Exact w item.op t) :
    ∃ path n, Installed w item t path n := by
  obtain ⟨src, dst, uid, gid, hc, ha⟩ := h
  obtain ⟨n, hn, -⟩ := ha.known
  obtain ⟨htype, hbits, hlink⟩ := hexact dst n hc.dst hn
  obtain ⟨m, hm, hmode, huid, hgid⟩ := ha.rest
  have hnm : wantedType item.op ≠ .symlink → n = m := fun hnot =>
    Option.some.inj (hn.symm.trans ((objectAt_stat hnot).trans hm))
  refine ⟨dst, n, hc.dst, hn, htype, fun hnot => ?_, ?_, fun hfile => ?_⟩
  · rw [Node.perm, (perm_eq_iff n.stMode).mpr (hbits hnot), hnm hnot, ← hsame.perm]
    exact hmode
  · rw [← hsame.wantedIds, hc.ids]
    by_cases hsym : wantedType item.op = .symlink
    · obtain ⟨hu, hg⟩ := hlink hsym m hm
      rw [hu, hg, huid, hgid]
    · rw [hnm hsym, huid, hgid]
  · obtain ⟨s, n', hs, hn', hsize⟩ := ha.size hfile
    have hnot : wantedType item.op ≠ .symlink := by rw [hfile]; decide
    have hnn : n = n' := Option.some.inj (hn.symm.trans ((objectAt_stat hnot).trans hn'))
    exact ⟨src, s, (checkedSrc_file hfile).symm.trans hc.src, hs, by rw [hnn, hsize]⟩

/-- What is accepted and installed is right in what the comparisons do not see. -/
theorem Accepted.exact {w : World} {item t : Item} {path : Text} {n : Node} (h : Accepted w item t)
    (hsame : SameWants item t) (hinst : Installed w item t path n) : Exact w item.op t := by
  obtain ⟨src, dst, uid, gid, hc, ha⟩ := h
  obtain ⟨m, hm, hmode, huid, hgid⟩ := ha.rest
  intro path' n' hpath' hn'
  obtain rfl : path' = path := Option.some.inj (hpath'.symm.trans hinst.dst)
  obtain rfl : n' = n := Option.some.inj (hn'.symm.trans hinst.object)
  obtain rfl : path' = dst := Option.some.inj (hpath'.symm.trans hc.dst)
  refine ⟨hinst.type, fun hnot => ?_, fun _ m' hm' => ?_⟩
  · have hnm : n' = m := Option.some.inj (hn'.symm.trans ((objectAt_stat hnot).trans hm))
    rw [← perm_eq_iff, hnm, hmode, ← hnm, hsame.perm]
    exact hinst.perm hnot
  · obtain rfl : m' = m := Option.some.inj (hm'.symm.trans hm)
    have hids := hinst.ids
    rw [← hsame.wantedIds, hc.ids] at hids
    cases hids
    exact ⟨huid.symm, hgid.symm⟩

/-- What `stat` finds at the destination has the wanted owner and group, the wanted mode as far as 0755
goes, and, for a copy, the size of the source. -/
structure LooksRight (w : World) (op : InstallOp) (t : Item) (path : Text) (m : Node) : Prop where
  dst : checkedDst op t = some path
  found : statAt w path = some m
  ids : wantedIds w.env t = some (m.stUid, m.stGid)
  valid : m.stUid ≠ nullId ∧ m.stGid ≠ nullId
  mode : m.stMode &&& 0o755 = t.perm
  size : wantedType op = .file → ∃ src s, t.src = some src ∧ statAt w src = some s ∧
    s.stSize = m.stSize

/-- An object of another type is at the destination, and looks right otherwise. -/
def WrongType (w : World) (op : InstallOp) (t : Item) : Prop :=
  ∃ path m n type, LooksRight w op t path m ∧ objectAt w op path = some n ∧
    fileTypeOf n.stMode = some type ∧ type ≠ wantedType op

/-- A file or directory at the destination looks right, but has mode bits outside of 0755. -/
def HiddenBits (w : World) (op : InstallOp) (t : Item) : Prop :=
  wantedType op ≠ .symlink ∧ ∃ path m, LooksRight w op t path m ∧
    fileTypeOf m.stMode = some (wantedType op) ∧ m.stMode &&& 0o7022 ≠ 0

/-- A link is at the destination, and what it leads to looks right, but it has another owner or group
itself. -/
def OtherOwner (w : World) (op : InstallOp) (t : Item) : Prop :=
  wantedType op = .symlink ∧ ∃ path m n, LooksRight w op t path m ∧ lstatAt w path = some n ∧
    fileTypeOf n.stMode = some .symlink ∧ ¬(n.stUid = m.stUid ∧ n.stGid = m.stGid)

/-- An accepted translation has the names that are looked at. -/
theorem translated_src {w : World} {item t : Item} {path : Text}
    (h : translated instchkOpers w item = some t) (hdst : checkedDst item.op t = some path) :
    ∃ src, checkedSrc item.op t = some src := by
  obtain ⟨w', htrans⟩ := translated_eq_some h
  obtain ⟨t₀, ht₀, ht⟩ := instchkTrans_ok htrans
  have hsrc : t.src = t₀.src := by
    rcases ht with rfl | ⟨dst, rfl⟩
    · rfl
    · rfl
  cases hop : item.op with
  | instCopy =>
    rw [hop] at ht₀
    obtain ⟨_, _, _, _, _, _, -, -, -, -, -, rfl⟩ := ntranCopy_ok ht₀
    exact ⟨_, hsrc⟩
  | instCopyExec =>
    rw [hop] at ht₀
    obtain ⟨_, _, _, -, -, -, rfl⟩ := ntranCopyExec_ok ht₀
    exact ⟨_, hsrc⟩
  | instSymlink =>
    rw [hop] at ht₀
    obtain ⟨_, _, _, hitem, -, -, rfl⟩ := ntranLink_ok ht₀
    exact ⟨_, hsrc.trans hitem⟩
  | instMkdir =>
    rw [hop] at hdst
    exact ⟨path, hdst⟩
  | instLiblink =>
    rw [hop] at ht₀
    obtain ⟨_, _, _, _, _, -, -, -, -, rfl⟩ := ntranLiblink_ok ht₀
    exact ⟨_, hsrc⟩

/-- Something of a known type that looks right is accepted. -/
theorem LooksRight.accepted {w : World} {item t : Item} {path : Text} {m n : Node}
    (h : LooksRight w item.op t path m) (ht : translated instchkOpers w item = some t)
    (hn : objectAt w item.op path = some n) (htype : fileTypeOf n.stMode ≠ none) :
    Accepted w item t := by
  obtain ⟨src, hsrc⟩ := translated_src ht h.dst
  refine ⟨src, path, m.stUid, m.stGid, ⟨hsrc, h.dst, h.ids, not_or.mpr h.valid⟩, ⟨n, hn, htype⟩,
    fun hfile => ?_, m, h.found, h.mode, rfl, rfl⟩
  obtain ⟨src', s, hsrc', hs, hsize⟩ := h.size hfile
  rw [checkedSrc_file hfile, hsrc'] at hsrc
  obtain rfl := Option.some.inj hsrc
  exact ⟨s, m, hs, h.found, hsize⟩

theorem Accepted.looksRight {w : World} {item t : Item} {path : Text} {m : Node}
    (h : Accepted w item t) (hpath : checkedDst item.op t = some path)
    (hm : statAt w path = some m) : LooksRight w item.op t path m := by
  obtain ⟨src, dst, uid, gid, hc, ha⟩ := h
  obtain rfl : dst = path := Option.some.inj (hc.dst.symm.trans hpath)
  obtain ⟨m', hm', hmode, rfl, rfl⟩ := ha.rest
  obtain rfl : m = m' := Option.some.inj (hm.symm.trans hm')
  refine ⟨hpath, hm, hc.ids, not_or.mp hc.valid, hmode, fun hfile => ?_⟩
  obtain ⟨s, n, hs, hn, hsize⟩ := ha.size hfile
  obtain rfl : m = n := Option.some.inj (hm.symm.trans hn)
  exact ⟨src, s, (checkedSrc_file hfile).symm.trans hc.src, hs, hsize⟩

/-- What the comparisons do not see is right where they pass, unless something of one of three kinds is at
the destination. -/
theorem exact_iff {w : World} {item t : Item} (ht : translated instchkOpers w item = some t) :
    (Accepted w item t → Exact w item.op t) ↔
      ¬WrongType w item.op t ∧ ¬HiddenBits w item.op t ∧ ¬OtherOwner w item.op t := by
  constructor
  · intro h
    refine ⟨?_, ?_, ?_⟩
    · rintro ⟨path, m, n, type, hlooks, hn, htype, hne⟩
      have hexact := h (hlooks.accepted ht hn (by rw [htype]; exact Option.some_ne_none _))
      exact hne (Option.some.inj (htype.symm.trans (hexact path n hlooks.dst hn).1))
    · rintro ⟨hnot, path, m, hlooks, htype, hbits⟩
      have hm := (objectAt_stat hnot).trans hlooks.found
      have hexact := h (hlooks.accepted ht hm (by rw [htype]; exact Option.some_ne_none _))
      exact hbits ((hexact path m hlooks.dst hm).2.1 hnot)
    · rintro ⟨hsym, path, m, n, hlooks, hn, htype, hother⟩
      have hobject : objectAt w item.op path = some n := by
        rw [objectAt, typedNode, if_pos hsym, hn]
      have hexact := h (hlooks.accepted ht hobject (by rw [htype]; exact Option.some_ne_none _))
      exact hother ((hexact path n hlooks.dst hobject).2.2 hsym m hlooks.found)
  · rintro ⟨hwrong, hhidden, hother⟩ haccepted path n hpath hn
    obtain ⟨src, dst, uid, gid, hc, ha⟩ := id haccepted
    obtain rfl : dst = path := Option.some.inj (hc.dst.symm.trans hpath)
    obtain ⟨m, hm, -⟩ := ha.rest
    have hlooks := haccepted.looksRight hpath hm
    have htype : fileTypeOf n.stMode = some (wantedType item.op) := by
      obtain ⟨n', hn', hknown⟩ := ha.known
      obtain rfl : n = n' := Option.some.inj (hn.symm.trans hn')
      obtain ⟨type, htype⟩ := Option.ne_none_iff_exists'.mp hknown
      by_contra hne
      exact hwrong ⟨dst, m, n, type, hlooks, hn, htype, fun heq => hne (heq ▸ htype)⟩
    refine ⟨htype, fun hnot => ?_, fun hsym m' hm' => ?_⟩
    · obtain rfl : n = m := Option.some.inj (hn.symm.trans ((objectAt_stat hnot).trans hm))
      by_contra hbits
      exact hhidden ⟨hnot, dst, n, hlooks, htype, hbits⟩
    · obtain rfl : m' = m := Option.some.inj (hm'.symm.trans hm)
      rw [objectAt, typedNode, if_pos hsym] at hn
      rw [hsym] at htype
      by_contra hids
      exact hother ⟨hsym, dst, m', n, hlooks, hn, htype, hids⟩

/-- The check is sound for an item exactly if nothing of three kinds is at the destination: an object of
another type, mode bits outside of 0755, or a link with an owner of its own, all else being right. -/
theorem installCheck_sound_iff (w : World) (item : Item) :
    (CheckOk w item → ∃ t path n, translated instchkOpers w item = some t ∧
      Installed w item t path n) ↔
      ∀ t, translated instchkOpers w item = some t →
        ¬WrongType w item.op t ∧ ¬HiddenBits w item.op t ∧ ¬OtherOwner w item.op t := by
  constructor
  · intro hsound t ht
    refine (exact_iff ht).mp fun haccepted => ?_
    obtain ⟨t', path, n, ht', hinst⟩ := hsound ((checkOk_iff w item).mpr ⟨t, ht, haccepted⟩)
    obtain rfl : t' = t := Option.some.inj (ht'.symm.trans ht)
    exact haccepted.exact (instchk_sameWants ht) hinst
  · intro hnone hok
    obtain ⟨t, ht, haccepted⟩ := (checkOk_iff w item).mp hok
    have hexact := (exact_iff ht).mpr (hnone t ht) haccepted
    obtain ⟨path, n, hinst⟩ := haccepted.installed (instchk_sameWants ht) hexact
    exact ⟨t, path, n, ht, hinst⟩

/-- A directory `d` is wanted. -/
def dirItem : Item := ⟨.instMkdir, none, none, some ['d'], none, none, 0o755⟩

/-- There is a regular file `d`. -/
def fileWorld : World :=
  .ofFiles [([], ⟨sIfdir ||| 0o755, 0, 0, []⟩), (component ['d'], ⟨sIfreg ||| 0o755, 0, 0, []⟩)]

theorem regular_file_passes_as_directory :
    CheckOk fileWorld dirItem ∧ ¬∃ t path n, translated instchkOpers fileWorld dirItem = some t ∧
      Installed fileWorld dirItem t path n := by
  refine ⟨⟨_, _, rfl, rfl⟩, ?_⟩
  rintro ⟨t, path, n, ht, hinst⟩
  obtain rfl : t = dirItem := (Option.some.inj ht).symm
  obtain rfl : path = ['d'] := (Option.some.inj hinst.dst).symm
  have hn : objectAt fileWorld .instMkdir ['d'] = some ⟨sIfreg ||| 0o755, 0, 0, []⟩ := rfl
  obtain rfl := Option.some.inj (hn.symm.trans hinst.object)
  exact absurd hinst.type (by decide)

end CStringVerified.Install
