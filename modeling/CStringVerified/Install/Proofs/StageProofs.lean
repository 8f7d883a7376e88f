import CStringVerified.Install.Proofs.CopyProofs

/-!
# The stages of `install_file_copy`

`install_file_copy` always returns, and the label at which it leaves says which of its calls were made.
The steps before the streams are closed are taken apart from those that close them and rename the
temporary file. A copy that succeeds has put all of the source into that file, with its mode and its
owner, and has renamed it (`Copied`).
-/

namespace CStringVerified.Install

open Foundation Foundation.Run

/-! ## Steps in two parts -/

/-- Go on after a part that leaves no message. -/
def andThen (first next : Sys (Option String)) : Sys (Option String) := do
  match ← first with
  | some message => pure (some message)
  | none => next

/-- The steps of `copySteps` up to the first `fclose`. -/
def copyWritten (dstTmp : Text) (processUid uid gid : Id) (mode : Mode) (fdSrc fdDst : Handle) :
    Sys (Option String) :=
  andThen (copyLoop fdSrc fdDst) <|
    step (return (← fflush fdDst) = 0) "write error" <|
    step (if iposixSupportsPosixModes = 1 then return (← iposixFileModeSet dstTmp mode) ≠ 0
        else pure true)
      "could not set file permissions" <|
    copyOwnership dstTmp processUid uid gid <|
    pure none

/-- The steps of `copySteps` from the first `fclose` on. -/
def copyClosing (dst dstTmp : Text) (fdSrc fdDst : Handle) : Sys (Option String) :=
  step (return (← fclose fdDst) ≠ -1) "could not close destination file" <|
  step (return (← fclose fdSrc) ≠ -1) "could not close source file" <|
  step (return (← rename dstTmp dst) ≠ -1) "could not rename temporary file" <|
  pure none

section Parts

variable {first next last : Sys (Option String)} {condition : Sys Bool} {message : String}
  {w w' : World}

theorem andThen_some {message : String} (h : first w = (.ok (some message), w')) :
    andThen first next w = (.ok (some message), w') := bind_ok h

theorem andThen_none (h : first w = (.ok none, w')) : andThen first next w = next w' := bind_ok h

theorem andThen_assoc : andThen (andThen first next) last = andThen first (andThen next last) := by
  funext w
  unfold andThen
  simp only [bind_apply]
  rcases first w with ⟨_ | _ | _, _⟩ <;> rfl

theorem step_andThen :
    andThen (step condition message next) last = step condition message (andThen next last) := by
  funext w
  unfold andThen step
  simp only [bind_apply]
  rcases condition w with ⟨_ | _ | _, _⟩ <;> rfl

theorem copyOwnership_andThen (dstTmp : Text) (processUid uid gid : Id) :
    andThen (copyOwnership dstTmp processUid uid gid next) last =
      copyOwnership dstTmp processUid uid gid (andThen next last) := by
  have hbind : ∀ can : Int,
      andThen (if can = 0 ∧ iposixUidCompare processUid uid = 0 then
          pure (some "current user ID is restricted from setting file ownership")
        else if can = 1 ∧ iposixUidCompare processUid uid = 0 then
          step (return (← iposixFileOwnershipSet dstTmp uid gid) ≠ 0) "could not set file ownership" next
        else next) last =
      if can = 0 ∧ iposixUidCompare processUid uid = 0 then
        pure (some "current user ID is restricted from setting file ownership")
      else if can = 1 ∧ iposixUidCompare processUid uid = 0 then
        step (return (← iposixFileOwnershipSet dstTmp uid gid) ≠ 0) "could not set file ownership"
          (andThen next last)
      else andThen next last := by
    intro can
    split
    · rfl
    · split
      · exact step_andThen
      · rfl
  funext w
  unfold copyOwnership
  rw [bind_apply, andThen, bind_apply, bind_apply]
  rcases iposixCanSetOwnership processUid w with ⟨_ | can, w₁⟩
  · rfl
  · exact congrFun (hbind can) w₁

theorem copySteps_eq (dst dstTmp : Text) (processUid uid gid : Id) (mode : Mode)
    (fdSrc fdDst : Handle) :
    copySteps dst dstTmp processUid uid gid mode fdSrc fdDst =
      andThen (copyWritten dstTmp processUid uid gid mode fdSrc fdDst)
        (copyClosing dst dstTmp fdSrc fdDst) := by
  rw [copyWritten, andThen_assoc, step_andThen, step_andThen, copyOwnership_andThen]
  funext w
  unfold copySteps andThen
  simp only [bind_apply]
  rcases copyLoop fdSrc fdDst w with ⟨_ | _ | _, _⟩ <;> rfl

end Parts

/-! ## Calls in a given world -/

section Calls

variable {w : World} {path : Text} {l : Loc} {i : Nat} {n : Node} {uid gid : Id} {mode : Mode}

theorem returns_sysCall {α : Type} (call : Call) (f : World → Except Errno (α × Os)) (w : World) :
    Returns (sysCall call f) w := by
  rcases sysCall_cases call f w with ⟨a, os, -, -, hrun⟩ | ⟨e, -, hrun⟩
  · exact ⟨_, _, hrun⟩
  · exact ⟨_, _, hrun⟩

theorem returns_fflush (fd : Handle) (w : World) : Returns (fflush fd) w :=
  (returns_sysCall _ _ w).bind fun _ _ _ => returns_pure _

theorem returns_fclose (fd : Handle) (w : World) : Returns (fclose fd) w :=
  (returns_sysCall _ _ w).bind fun _ w' _ =>
    Returns.bind ⟨(), _, modify_apply _ w'⟩ fun _ _ _ => returns_pure _

theorem returns_fsCall (call : Call) (f : World → Except Errno FileSystem) (w : World) :
    Returns (fsCall call f) w := (returns_sysCall _ _ w).bind fun _ _ _ => returns_pure _

/-- The process may change the mode of a file. -/
def MayChange (env : Env) (n : Node) : Prop := env.uid = 0 ∨ env.uid = n.stUid

theorem route_apply (hne : path ≠ []) : w.route path = .ok (Foundation.route w.os.cwd path) := if_neg hne

theorem iposixFileModeSet_run (mode : Mode) (hne : path ≠ [])
    (hres : w.os.fs.resolve (Foundation.route w.os.cwd path) = .ok (l, some n))
    (hi : w.os.fs.ino l = some i) :
    (w.env.faults w.tick = none ∧ MayChange w.env n ∧
      iposixFileModeSet path mode w = (.ok 1, (w.record (.chmod path mode) true).withOs
        { w.os with fs := w.os.fs.set i (w.env.withPerm mode n) })) ∨
    ∃ e, (w.env.faults w.tick ≠ none ∨ ¬MayChange w.env n) ∧
      iposixFileModeSet path mode w = (.ok 0, (w.record (.chmod path mode) false).withErrno e) := by
  rcases fsCall_cases (.chmod path mode) (fun w => do
    let p ← w.route path
    w.os.fs.update p fun n =>
      if w.env.uid ≠ 0 ∧ w.env.uid ≠ n.stUid then .error eperm else .ok (w.env.withPerm mode n)) w with
    ⟨fs, hfault, hf, hrun⟩ | ⟨e, he, hrun⟩
  · rw [route_apply hne] at hf
    simp only [bind, Except.bind, FileSystem.update_apply hres hi] at hf
    split at hf
    · cases hf
    · rename_i hmay
      cases hf
      exact Or.inl ⟨hfault, by unfold MayChange; tauto, bind_ok hrun⟩
  · refine Or.inr ⟨e, ?_, bind_ok hrun⟩
    rcases he with he | ⟨-, hf⟩
    · exact Or.inl (by rw [he]; exact Option.some_ne_none e)
    · rw [route_apply hne] at hf
      simp only [bind, Except.bind, FileSystem.update_apply hres hi] at hf
      split at hf
      · rename_i hnot
        exact Or.inr fun hmay => hmay.elim hnot.1 hnot.2
      · cases hf

theorem iposixFileOwnershipSet_run (uid gid : Id) (hne : path ≠ [])
    (hres : w.os.fs.resolve (Foundation.route w.os.cwd path) = .ok (l, some n))
    (hi : w.os.fs.ino l = some i) (hroot : w.env.uid = 0) :
    (w.env.faults w.tick = none ∧
      iposixFileOwnershipSet path uid gid w = (.ok 1, (w.record (.chown path uid gid) true).withOs
        { w.os with fs := w.os.fs.set i (w.env.chowned uid gid n) })) ∨
    ∃ e, w.env.faults w.tick ≠ none ∧
      iposixFileOwnershipSet path uid gid w =
        (.ok 0, (w.record (.chown path uid gid) false).withErrno e) := by
  rcases fsCall_cases (.chown path uid gid) (fun w => do
    let p ← w.route path
    w.os.fs.update p fun n =>
      if w.env.uid ≠ 0 then .error eperm else .ok (w.env.chowned uid gid n)) w with
    ⟨fs, hfault, hf, hrun⟩ | ⟨e, he, hrun⟩
  · rw [route_apply hne] at hf
    simp only [bind, Except.bind, FileSystem.update_apply hres hi, hroot, ne_eq, not_true_eq_false,
      if_false] at hf
    cases hf
    exact Or.inl ⟨hfault, bind_ok hrun⟩
  · refine Or.inr ⟨e, ?_, bind_ok hrun⟩
    rcases he with he | ⟨-, hf⟩
    · rw [he]
      exact Option.some_ne_none e
    · rw [route_apply hne] at hf
      simp only [bind, Except.bind, FileSystem.update_apply hres hi, hroot, ne_eq, not_true_eq_false,
        if_false] at hf
      cases hf

end Calls

/-! ## Writing the temporary file -/

theorem stUid_withData (n : Node) (data : Text) : (n.withData data).stUid = n.stUid := by
  unfold Node.withData
  split
  · rfl
  · rfl

theorem stGid_withData (n : Node) (data : Text) : (n.withData data).stGid = n.stGid := by
  unfold Node.withData
  split
  · rfl
  · rfl

/-- What a copy of the node `s` with these data may leave in the file that was opened as `n`, if it is
given up. -/
inductive Left (env : Env) (uid gid : Id) (mode : Mode) (s n : Node) (data : Text) : Node → Prop
  | emptied : Left env uid gid mode s n data n
  | filled (k : Nat) (hfile : sIsdir s.stMode = false) :
      Left env uid gid mode s n data (n.withData (data.take k))
  | changed (hfile : sIsdir s.stMode = false) (hmay : MayChange env n) :
      Left env uid gid mode s n data (env.withPerm mode (n.withData data))
  | handed (hfile : sIsdir s.stMode = false) (hroot : env.uid = 0) (hother : env.uid ≠ uid) :
      Left env uid gid mode s n data (env.chowned uid gid (env.withPerm mode (n.withData data)))

section Written

variable {w w' : World} {tmp : Text} {uid gid : Id} {mode : Mode} {fdSrc fdDst : Handle} {l : Loc}
  {si ti : Nat} {s n : Node} {data : Text}

theorem step_true {condition : Sys Bool} {message : String} {next : Sys (Option String)}
    (h : condition w = (.ok true, w')) : step condition message next w = next w' := bind_ok h

theorem step_false {condition : Sys Bool} {message : String} {next : Sys (Option String)}
    (h : condition w = (.ok false, w')) : step condition message next w = (.ok (some message), w') :=
  bind_ok h

/-- A condition on the result of a call holds or not. -/
theorem condition_apply {α : Type} {call : Sys α} {p : α → Prop} [DecidablePred p] {r : α} {b : Bool}
    (h : call w = (.ok r, w')) (hb : decide (p r) = b) :
    (do return decide (p (← call)) : Sys Bool) w = (.ok b, w') := by
  rw [← hb]
  exact bind_ok h

theorem copyOwnership_apply {processUid : Id} (hvalid : iposixUidValid processUid = true)
    (next : Sys (Option String)) (w : World) :
    copyOwnership tmp processUid uid gid next w =
      if processUid = uid then next w
      else if processUid = 0 then
        step (return (← iposixFileOwnershipSet tmp uid gid) ≠ 0) "could not set file ownership" next w
      else (.ok (some "current user ID is restricted from setting file ownership"), w) := by
  have hcan : iposixCanSetOwnership processUid w = (.ok (if processUid = 0 then 1 else 0), w) :=
    bind_ok (assert_true hvalid w)
  unfold copyOwnership
  rw [bind_ok hcan]
  by_cases hsame : processUid = uid
  · have hcompare : iposixUidCompare processUid uid = 1 := if_pos hsame
    rw [if_pos hsame]
    simp only [hcompare, show ¬(1 : Int) = 0 by omega, and_false, if_false]
  · have hcompare : iposixUidCompare processUid uid = 0 := if_neg hsame
    rw [if_neg hsame]
    by_cases hroot : processUid = 0
    · rw [if_pos hroot, if_pos hroot, if_neg (fun h => absurd h.1 (by omega)), if_pos ⟨rfl, hcompare⟩]
    · rw [if_neg hroot, if_neg hroot, if_pos ⟨rfl, hcompare⟩]
      rfl

/-- A round in which nothing can be read. -/
theorem copyRound_unread {s : Stream} (hread : fread fdSrc 65536 w = (.ok [], w'))
    (hs : w'.os.streams[fdSrc]? = some s) (heof : s.eof = false) (herr : s.err = true) :
    copyRound fdSrc fdDst () w = (.ok (.inr (some "read error")), w') := by
  unfold copyRound
  rw [bind_ok hread, if_pos rfl, bind_ok (feof_apply hs), heof, if_neg Bool.false_ne_true,
    bind_ok (ferror_apply hs), herr, if_pos rfl]
  rfl

theorem copyLoop_return {len : Nat} {message : Option String}
    (hlen : fileLength fdSrc w = (.ok len, w))
    (hround : copyRound fdSrc fdDst () w = (.ok (.inr message), w')) :
    copyLoop fdSrc fdDst w = (.ok message, w') := by
  unfold copyLoop
  rw [bind_ok hlen]
  exact loop_return hround

/-- A directory cannot be read. -/
theorem copyLoop_dir (hs : w.os.fs.inode si = some s) (hdir : sIsdir s.stMode = true)
    (hsrc : w.os.streams[fdSrc]? = some ⟨si, 0, false, false, false⟩) :
    ∃ w', copyLoop fdSrc fdDst w = (.ok (some "read error"), w') ∧ w'.os.fs = w.os.fs := by
  have hlen : fileLength fdSrc w = (.ok s.data.length, w) := by
    rw [fileLength, bind_ok (stream_apply hsrc), get_bind_apply, hs]
    rfl
  have hlt : fdSrc < w.os.streams.length := (List.getElem?_eq_some_iff.mp hsrc).1
  rcases fread_run 65536 hsrc with ⟨s', -, hs', hfile, -⟩ | ⟨e, -, hread⟩
  · obtain rfl := Option.some.inj (hs.symm.trans hs')
    rw [hdir] at hfile
    cases hfile
  · have hround := @copyRound_unread w _ fdSrc fdDst _ hread (List.getElem?_set_self hlt) rfl rfl
    exact ⟨_, copyLoop_return hlen hround, rfl⟩

/-- The copy loop leaves some of the source in the file, or all of it. -/
theorem copyLoop_run (hne : fdSrc ≠ fdDst) (hs : w.os.fs.inode si = some s) (hdata : s.data = data)
    (hn : w.os.fs.inode ti = some n) (hempty : sIsreg n.stMode = true → n.data = [])
    (hsrc : w.os.streams[fdSrc]? = some ⟨si, 0, false, false, false⟩)
    (hdst : w.os.streams[fdDst]? = some ⟨ti, 0, false, false, false⟩) :
    ∃ message w' m, copyLoop fdSrc fdDst w = (.ok message, w') ∧ Wrote w ti m w' ∧
      Left w.env uid gid mode s n data m ∧
      (message = none → m = n.withData data ∧ sIsdir s.stMode = false) := by
  have hframe : Keeps (Frame fun e => e.call.moves = false) (copyLoop fdSrc fdDst) :=
    keeps_copyLoop (fun _ => keeps_fread fun _ _ => rfl) fun _ => keeps_fwrite fun _ _ => rfl
  cases hdir : sIsdir s.stMode with
  | true =>
    obtain ⟨w', hrun, hfs⟩ := @copyLoop_dir w fdSrc fdDst si s hs hdir hsrc
    have hstill := Frame.of_run hframe hrun
    refine ⟨_, w', n, hrun, ⟨hstill.env, hstill.cwd_eq fun _ he => he, ?_⟩, .emptied, nofun⟩
    rw [hfs, FileSystem.set_self hn]
  | false =>
    have hstart : Copying w si ti n fdSrc fdDst data 0 [] w := by
      refine ⟨?_, ⟨_, hsrc, rfl, rfl, nofun⟩, ⟨_, hdst, rfl, rfl⟩⟩
      rw [withData_nil hempty, FileSystem.set_self hn]
    obtain ⟨message, w', hrun, pos, k, hcopied, hall⟩ :=
      hstart.copyLoop ⟨s, hs, hdata⟩ hn hempty hne
    have hstill := Frame.of_run hframe hrun
    refine ⟨message, w', _, hrun, ⟨hstill.env, hstill.cwd_eq fun _ he => he, hcopied.written⟩,
      .filled k hdir, fun hnone => ⟨?_, rfl⟩⟩
    rw [hall hnone]

/-- A file that is complete and has its mode is handed over, or left as it is with a message. -/
theorem copyOwnership_run (hvalid : iposixUidValid w.env.uid = true) (htmp : tmp ≠ [])
    (hopened : Opened w.os.fs (Foundation.route w.os.cwd tmp) ti l n)
    (hfile : sIsdir s.stMode = false) (hmay : MayChange w.env n)
    (h : Wrote w ti (w.env.withPerm mode (n.withData data)) w') :
    ∃ message w'' m, copyOwnership tmp w.env.uid uid gid (pure none) w' = (.ok message, w'') ∧
      Wrote w ti m w'' ∧ Left w.env uid gid mode s n data m ∧
      (message = none → m = handedOver w.env uid gid (w.env.withPerm mode (n.withData data))) := by
  have htype : n.SameType (w.env.withPerm mode (n.withData data)) :=
    (sameType_withData n data).trans (sameType_withPerm w.env mode _)
  obtain ⟨hres, hino⟩ := h.opened hopened htype
  rw [← h.cwd] at hres
  rw [copyOwnership_apply hvalid]
  by_cases hsame : w.env.uid = uid
  · rw [if_pos hsame]
    refine ⟨none, _, _, rfl, h, .changed hfile hmay, fun _ => ?_⟩
    rw [handedOver, if_pos hsame]
  · rw [if_neg hsame]
    by_cases hroot : w.env.uid = 0
    · rw [if_pos hroot]
      rcases iposixFileOwnershipSet_run uid gid htmp hres hino (by rw [h.env]; exact hroot) with
        ⟨-, hchown⟩ | ⟨e, -, hchown⟩
      · rw [step_true (condition_apply (p := fun r : Int => r ≠ 0) hchown (by decide)), h.env]
        refine ⟨none, _, _, rfl, h.set _ _, .handed hfile hroot hsame, fun _ => ?_⟩
        rw [handedOver, if_neg hsame]
      · rw [step_false (condition_apply (p := fun r : Int => r ≠ 0) hchown (by decide))]
        exact ⟨_, _, _, rfl, ⟨h.env, h.cwd, h.fs⟩, .changed hfile hmay, nofun⟩
    · rw [if_neg hroot]
      exact ⟨_, _, _, rfl, h, .changed hfile hmay, nofun⟩

/-- The steps up to the first `fclose` leave a copy in the file, or some of one with a message. -/
theorem copyWritten_run (hvalid : iposixUidValid w.env.uid = true) (hne : fdSrc ≠ fdDst)
    (htmp : tmp ≠ []) (hs : w.os.fs.inode si = some s) (hdata : s.data = data)
    (hopened : Opened w.os.fs (Foundation.route w.os.cwd tmp) ti l n)
    (hsrc : w.os.streams[fdSrc]? = some ⟨si, 0, false, false, false⟩)
    (hdst : w.os.streams[fdDst]? = some ⟨ti, 0, false, false, false⟩) :
    ∃ message w' m, copyWritten tmp w.env.uid uid gid mode fdSrc fdDst w = (.ok message, w') ∧
      Wrote w ti m w' ∧ Left w.env uid gid mode s n data m ∧
      (message = none → m = handedOver w.env uid gid (w.env.withPerm mode (n.withData data))) := by
  have hmodes : iposixSupportsPosixModes = 1 := rfl
  obtain ⟨message, w₁, m, hloop, h₁, hleft, hall⟩ :=
    @copyLoop_run w uid gid mode fdSrc fdDst si ti s n data hne hs hdata hopened.inode hopened.empty hsrc
      hdst
  unfold copyWritten
  cases message with
  | some message => exact ⟨_, w₁, m, andThen_some hloop, h₁, hleft, nofun⟩
  | none =>
    obtain ⟨rfl, hfile⟩ := hall rfl
    rw [andThen_none hloop]
    obtain ⟨r, w₂, hflush⟩ := returns_fflush fdDst w₁
    have h₂ := h₁.quiet (Frame.of_run (keeps_fflush fun _ _ => ⟨rfl, rfl⟩) hflush)
    by_cases hr : r = 0
    · rw [step_true (condition_apply (p := fun r : Int => r = 0) hflush (decide_eq_true hr)),
        if_pos hmodes]
      obtain ⟨hres₂, hino₂⟩ := h₂.opened hopened (sameType_withData n data)
      rw [← h₂.cwd] at hres₂
      rcases iposixFileModeSet_run mode htmp hres₂ hino₂ with ⟨-, hmay, hchmod⟩ | ⟨e, -, hchmod⟩
      · rw [step_true (condition_apply (p := fun r : Int => r ≠ 0) hchmod (by decide))]
        rw [h₂.env] at hmay hchmod ⊢
        have hmay' : MayChange w.env n := by
          rwa [MayChange, stUid_withData n data] at hmay
        have h₃ := h₂.set (.chmod tmp mode) (w.env.withPerm mode (n.withData data))
        exact copyOwnership_run hvalid htmp hopened hfile hmay' h₃
      · rw [step_false (condition_apply (p := fun r : Int => r ≠ 0) hchmod (by decide))]
        exact ⟨_, _, _, rfl, ⟨h₂.env, h₂.cwd, h₂.fs⟩, hleft, nofun⟩
    · rw [step_false (condition_apply (p := fun r : Int => r = 0) hflush (decide_eq_false hr))]
      exact ⟨_, w₂, _, rfl, h₂, hleft, nofun⟩

end Written

/-! ## The way through the function -/

theorem tmpName_ne_nil (dst : Text) : tmpName dst ≠ [] := by
  intro h
  have hlen := congrArg List.length h
  rw [tmpName, List.length_take, List.length_append] at hlen
  simp [installMaxPathlen] at hlen

/-- A run of `install_file_copy` that returns, by the place where it leaves. -/
inductive CopyRun (src dst : Text) (uid gid : Id) (mode : Mode) (w : World) : StatusCode → World → Prop
  | tooLong (hlen : intMax < dst.length + 4) : CopyRun src dst uid gid mode w .error w
  | noSource {w₁} (hlen : dst.length + 4 ≤ intMax) (hread : fopenRead src w = (.ok none, w₁)) :
      CopyRun src dst uid gid mode w .error w₁
  | noTemporary {fdSrc w₁ w₂ w₃} (hlen : dst.length + 4 ≤ intMax)
      (hread : fopenRead src w = (.ok (some fdSrc), w₁))
      (hwrite : fopenWrite (tmpName dst) w₁ = (.ok none, w₂))
      (herr : copyErr (tmpName dst) (some fdSrc) none w₂ = (.ok (), w₃)) :
      CopyRun src dst uid gid mode w .error w₃
  | notWritten {fdSrc fdDst w₁ w₂ w₃ w₄ message} (hlen : dst.length + 4 ≤ intMax)
      (hread : fopenRead src w = (.ok (some fdSrc), w₁))
      (hwrite : fopenWrite (tmpName dst) w₁ = (.ok (some fdDst), w₂))
      (hwritten : copyWritten (tmpName dst) w.env.uid uid gid mode fdSrc fdDst w₂ =
        (.ok (some message), w₃))
      (herr : copyErr (tmpName dst) (some fdSrc) (some fdDst) w₃ = (.ok (), w₄)) :
      CopyRun src dst uid gid mode w .error w₄
  | notRenamed {fdSrc fdDst w₁ w₂ w₃ w₄ w₅ message} (hlen : dst.length + 4 ≤ intMax)
      (hread : fopenRead src w = (.ok (some fdSrc), w₁))
      (hwrite : fopenWrite (tmpName dst) w₁ = (.ok (some fdDst), w₂))
      (hwritten : copyWritten (tmpName dst) w.env.uid uid gid mode fdSrc fdDst w₂ = (.ok none, w₃))
      (hclosing : copyClosing dst (tmpName dst) fdSrc fdDst w₃ = (.ok (some message), w₄))
      (herr : copyErr (tmpName dst) (some fdSrc) (some fdDst) w₄ = (.ok (), w₅)) :
      CopyRun src dst uid gid mode w .error w₅
  | copied {fdSrc fdDst w₁ w₂ w₃ w₄} (hlen : dst.length + 4 ≤ intMax)
      (hread : fopenRead src w = (.ok (some fdSrc), w₁))
      (hwrite : fopenWrite (tmpName dst) w₁ = (.ok (some fdDst), w₂))
      (hwritten : copyWritten (tmpName dst) w.env.uid uid gid mode fdSrc fdDst w₂ = (.ok none, w₃))
      (hclosing : copyClosing dst (tmpName dst) fdSrc fdDst w₃ = (.ok none, w₄)) :
      CopyRun src dst uid gid mode w .ok w₄

section Copy

variable {src dst : Text} {uid gid : Id} {mode : Mode} {w w' w₁ w₂ w₃ w₄ : World} {fdSrc fdDst : Handle}

/-- Both streams are open: what they are, and where. -/
structure BothOpen (src dst : Text) (w : World) (ls : Loc) (s : Node) (si ti : Nat) (fs : FileSystem)
    (w₂ : World) : Prop where
  src_ne : src ≠ []
  source : w.os.fs.resolve (Foundation.route w.os.cwd src) = .ok (ls, some s)
  opened : w.opened ls s = .ok si
  tmp : w.emptied (Foundation.route w.os.cwd (tmpName dst)) = .ok (ti, fs)
  files : w₂.os.fs = fs
  cwd : w₂.os.cwd = w.os.cwd
  env : w₂.env = w.env
  tick : w₂.tick = w.tick + 2
  streams : w₂.os.streams =
    w.os.streams ++ [⟨si, 0, false, false, false⟩] ++ [⟨ti, 0, false, false, false⟩]
  log : w₂.log = w.log ++
    [⟨.fopenRead src, w.os.cwd, true⟩, ⟨.fopenWrite (tmpName dst), w.os.cwd, true⟩]

theorem bothOpen (hread : fopenRead src w = (.ok (some fdSrc), w₁))
    (hwrite : fopenWrite (tmpName dst) w₁ = (.ok (some fdDst), w₂)) :
    fdSrc = w.os.streams.length ∧ fdDst = w.os.streams.length + 1 ∧
      ∃ ls s si ti fs, BothOpen src dst w ls s si ti fs w₂ := by
  obtain ⟨ls, s, si, hsrc, hres, hopened, rfl, rfl⟩ := fopenRead_ok hread
  obtain ⟨ti, fs, -, hempty, rfl, rfl⟩ := fopenWrite_ok hwrite
  have hlog : w.log ++ [⟨.fopenRead src, w.os.cwd, true⟩] ++
      [⟨.fopenWrite (tmpName dst), w.os.cwd, true⟩] = w.log ++
      [⟨.fopenRead src, w.os.cwd, true⟩, ⟨.fopenWrite (tmpName dst), w.os.cwd, true⟩] :=
    List.append_assoc _ _ _
  exact ⟨rfl, List.length_append, ls, s, si, ti, fs, hsrc, hres, hopened, hempty, rfl, rfl, rfl, rfl,
    rfl, hlog⟩

/-- The source, as the copy reads it: a file that is the very one that is written is empty. -/
def sourceData (si ti : Nat) (s : Node) : Text := if si = ti ∧ sIsreg s.stMode then [] else s.data

theorem Left.of_source {env : Env} {s s' n m : Node} {data : Text}
    (htype : sIsdir s'.stMode = sIsdir s.stMode) (h : Left env uid gid mode s' n data m) :
    Left env uid gid mode s n data m := by
  cases h with
  | emptied => exact .emptied
  | filled k hfile => exact .filled k (by rwa [← htype])
  | changed hfile hmay => exact .changed (by rwa [← htype]) hmay
  | handed hfile hroot hother => exact .handed (by rwa [← htype]) hroot hother

section BothOpen

variable {ls : Loc} {s : Node} {si ti : Nat} {fs : FileSystem}

theorem BothOpen.stream_src (h : BothOpen src dst w ls s si ti fs w₂) :
    w₂.os.streams[w.os.streams.length]? = some ⟨si, 0, false, false, false⟩ := by
  rw [h.streams]
  simp

theorem BothOpen.stream_dst (h : BothOpen src dst w ls s si ti fs w₂) :
    w₂.os.streams[w.os.streams.length + 1]? = some ⟨ti, 0, false, false, false⟩ := by
  rw [h.streams]
  simp

theorem BothOpen.tmp_opened (h : BothOpen src dst w ls s si ti fs w₂) :
    ∃ lt n, Opened fs (Foundation.route w.os.cwd (tmpName dst)) ti lt n :=
  emptied_opened (route_ne_nil _ _) h.tmp

theorem BothOpen.source_inode (h : BothOpen src dst w ls s si ti fs w₂) :
    w.os.fs.inode si = some s := by
  rw [← FileSystem.node_of_ino (opened_eq_ok.mp h.opened).2]
  exact FileSystem.resolve_node h.source

/-- The source in the file system in which the temporary file is empty. -/
theorem BothOpen.source_emptied (h : BothOpen src dst w ls s si ti fs w₂) :
    ∃ s', fs.inode si = some s' ∧ s'.data = sourceData si ti s ∧
      sIsdir s'.stMode = sIsdir s.stMode := by
  have hs := h.source_inode
  rcases emptied_ok h.tmp with ⟨l, d, -, -, rfl, rfl⟩ | ⟨l, n, hres, -, -, hino, rfl⟩
  · have hne : si ≠ w.os.fs.inodes.length := Nat.ne_of_lt (FileSystem.ino_lt (opened_eq_ok.mp h.opened).2)
    refine ⟨s, FileSystem.inode_put hs _ _, ?_, rfl⟩
    rw [sourceData, if_neg fun h => hne h.1]
  · by_cases hsame : si = ti
    · subst hsame
      have hn := FileSystem.resolve_node hres
      rw [FileSystem.node_of_ino hino, hs] at hn
      obtain rfl := Option.some.inj hn
      refine ⟨_, FileSystem.inode_set_self hs _, ?_, (sameType_emptied w.env s).isdir⟩
      rw [sourceData, Env.emptied]
      cases hreg : sIsreg s.stMode with
      | true => rw [if_pos rfl, if_pos ⟨rfl, rfl⟩]
      | false => rw [if_neg Bool.false_ne_true, if_neg fun h => Bool.false_ne_true h.2]
    · refine ⟨s, (FileSystem.inode_set_ne (Ne.symm hsame) _).trans hs, ?_, rfl⟩
      rw [sourceData, if_neg fun h => hsame h.1]

/-- The steps up to the first `fclose` return. -/
theorem BothOpen.written {lt : Loc} {n : Node} (h : BothOpen src dst w ls s si ti fs w₂)
    (hopened : Opened fs (Foundation.route w.os.cwd (tmpName dst)) ti lt n)
    (hvalid : iposixUidValid w.env.uid = true) (uid gid : Id) (mode : Mode) :
    ∃ message w₃ m, copyWritten (tmpName dst) w.env.uid uid gid mode w.os.streams.length
        (w.os.streams.length + 1) w₂ = (.ok message, w₃) ∧
      Wrote w₂ ti m w₃ ∧ Left w.env uid gid mode s n (sourceData si ti s) m ∧
      (message = none →
        m = handedOver w.env uid gid (w.env.withPerm mode (n.withData (sourceData si ti s)))) := by
  obtain ⟨s', hs', hdata, htype⟩ := h.source_emptied
  rw [← h.files] at hs' hopened
  rw [← h.cwd] at hopened
  rw [← h.env] at hvalid ⊢
  obtain ⟨message, w₃, m, hrun, hwrote, hleft, hall⟩ :=
    @copyWritten_run w₂ (tmpName dst) uid gid mode _ _ lt si ti s' n _ hvalid
      (Nat.ne_of_lt (Nat.lt_succ_self _)) (tmpName_ne_nil dst) hs' hdata hopened h.stream_src h.stream_dst
  exact ⟨message, w₃, m, hrun, hwrote, hleft.of_source htype, hall⟩

end BothOpen

theorem returns_closeIfOpen (fd : Option Handle) (w : World) : Returns (closeIfOpen fd) w := by
  cases fd with
  | none => exact returns_pure ()
  | some fd => exact (returns_fclose fd w).bind fun _ _ _ => returns_pure ()

theorem returns_copyErr (tmp : Text) (fdSrc fdDst : Option Handle) (w : World) :
    Returns (copyErr tmp fdSrc fdDst) w :=
  (returns_closeIfOpen fdDst w).bind fun _ _ _ => (returns_closeIfOpen fdSrc _).bind fun _ _ _ =>
    (returns_fsCall _ _ _).bind fun _ _ _ => returns_pure ()

theorem returns_condition {α : Type} {call : Sys α} {p : α → Prop} [DecidablePred p]
    (h : Returns call w) : Returns (do return decide (p (← call)) : Sys Bool) w :=
  h.bind fun _ _ _ => returns_pure _

theorem returns_step {condition : Sys Bool} {message : String} {next : Sys (Option String)}
    (hc : Returns condition w) (hn : ∀ w', Returns next w') :
    Returns (step condition message next) w := by
  refine hc.bind fun b w' _ => ?_
  cases b with
  | false => exact returns_pure _
  | true => exact hn w'

theorem returns_copyClosing (dst tmp : Text) (fdSrc fdDst : Handle) (w : World) :
    Returns (copyClosing dst tmp fdSrc fdDst) w :=
  returns_step (returns_condition (returns_fclose fdDst w)) fun w' =>
    returns_step (returns_condition (returns_fclose fdSrc w')) fun w' =>
      returns_step (returns_condition (returns_fsCall _ _ w')) fun _ => returns_pure none

/-- The process user ID that is no ID is the one thing that `install_file_copy` does not survive. -/
theorem installFileCopy_invalid (h : iposixUidValid w.env.uid = false) (src dst : Text) (uid gid : Id)
    (mode : Mode) : installFileCopy src dst uid gid mode w = (.error .assertion, w) := by
  have huid : iposixUidCurrent w = (.ok (some w.env.uid), w) := rfl
  unfold installFileCopy
  rw [bind_ok huid]
  exact bind_error (assert_false h w)

/-- `install_file_copy` from the call that opens the source on, with the result of that call. -/
def copyOpened (dst : Text) (processUid uid gid : Id) (mode : Mode) : Option Handle → Sys Status
  | none => statusError "could not open source file"
  | some fdSrc => do
    match ← fopenWrite (tmpName dst) with
    | none => do
      let status ← statusError "could not open destination file"
      copyErr (tmpName dst) (some fdSrc) none
      pure status
    | some fdDst => do
      match ← copySteps dst (tmpName dst) processUid uid gid mode fdSrc fdDst with
      | none => statusOk
      | some message => do
        let status ← statusError message
        copyErr (tmpName dst) (some fdSrc) (some fdDst)
        pure status

theorem installFileCopy_opened (hvalid : iposixUidValid w.env.uid = true) (hlen : dst.length + 4 ≤ intMax)
    {r : Option Handle} (hread : fopenRead src w = (.ok r, w₁)) :
    installFileCopy src dst uid gid mode w = copyOpened dst w.env.uid uid gid mode r w₁ := by
  have huid : iposixUidCurrent w = (.ok (some w.env.uid), w) := rfl
  have htmp : snprintf installMaxPathlen (dst ++ ['.', 't', 'm', 'p']) = some (tmpName dst) := by
    rw [snprintf, if_pos (by rw [List.length_append]; exact hlen)]
    rfl
  unfold installFileCopy
  rw [bind_ok huid]
  dsimp only
  rw [bind_ok (assert_true hvalid w), htmp]
  dsimp only
  rw [bind_ok hread]
  cases r with
  | none => rfl
  | some fdSrc => rfl

theorem statusError_apply (message : String) (w : World) :
    statusError message w = (.ok ⟨.error, some message, some w.errno⟩, w) := rfl

theorem installFileCopy_noTemporary (hvalid : iposixUidValid w.env.uid = true)
    (hlen : dst.length + 4 ≤ intMax) (hread : fopenRead src w = (.ok (some fdSrc), w₁))
    (hwrite : fopenWrite (tmpName dst) w₁ = (.ok none, w₂))
    (herr : copyErr (tmpName dst) (some fdSrc) none w₂ = (.ok (), w₃)) :
    installFileCopy src dst uid gid mode w =
      (.ok ⟨.error, some "could not open destination file", some w₂.errno⟩, w₃) := by
  rw [installFileCopy_opened hvalid hlen hread, copyOpened, bind_ok hwrite]
  dsimp only
  rw [bind_ok (statusError_apply _ w₂), bind_ok herr]
  rfl

theorem installFileCopy_failed (hvalid : iposixUidValid w.env.uid = true)
    (hlen : dst.length + 4 ≤ intMax) (hread : fopenRead src w = (.ok (some fdSrc), w₁))
    (hwrite : fopenWrite (tmpName dst) w₁ = (.ok (some fdDst), w₂)) {message : String}
    (hsteps : copySteps dst (tmpName dst) w.env.uid uid gid mode fdSrc fdDst w₂ =
      (.ok (some message), w₃))
    (herr : copyErr (tmpName dst) (some fdSrc) (some fdDst) w₃ = (.ok (), w₄)) :
    installFileCopy src dst uid gid mode w = (.ok ⟨.error, some message, some w₃.errno⟩, w₄) := by
  rw [installFileCopy_opened hvalid hlen hread, copyOpened, bind_ok hwrite]
  dsimp only
  rw [bind_ok hsteps]
  dsimp only
  rw [bind_ok (statusError_apply _ w₃), bind_ok herr]
  rfl

theorem installFileCopy_copied (hvalid : iposixUidValid w.env.uid = true)
    (hlen : dst.length + 4 ≤ intMax) (hread : fopenRead src w = (.ok (some fdSrc), w₁))
    (hwrite : fopenWrite (tmpName dst) w₁ = (.ok (some fdDst), w₂))
    (hsteps : copySteps dst (tmpName dst) w.env.uid uid gid mode fdSrc fdDst w₂ = (.ok none, w₃)) :
    installFileCopy src dst uid gid mode w = statusOk w₃ := by
  rw [installFileCopy_opened hvalid hlen hread, copyOpened, bind_ok hwrite]
  dsimp only
  rw [bind_ok hsteps]

/-- `install_file_copy` returns, and goes one of the ways. -/
theorem installFileCopy_run (hvalid : iposixUidValid w.env.uid = true) (src dst : Text) (uid gid : Id)
    (mode : Mode) : ∃ status w', installFileCopy src dst uid gid mode w = (.ok status, w') ∧
      CopyRun src dst uid gid mode w status.status w' := by
  by_cases hlen : dst.length + 4 ≤ intMax
  · obtain ⟨fdSrc, w₁, hread⟩ : Returns (fopenRead src) w := returns_sysCall _ _ w
    cases fdSrc with
    | none => exact ⟨_, w₁, installFileCopy_opened hvalid hlen hread, .noSource hlen hread⟩
    | some fdSrc =>
      obtain ⟨fdDst, w₂, hwrite⟩ : Returns (fopenWrite (tmpName dst)) w₁ := returns_sysCall _ _ w₁
      cases fdDst with
      | none =>
        obtain ⟨_, w₃, herr⟩ := returns_copyErr (tmpName dst) (some fdSrc) none w₂
        exact ⟨_, w₃, installFileCopy_noTemporary hvalid hlen hread hwrite herr,
          .noTemporary hlen hread hwrite herr⟩
      | some fdDst =>
        obtain ⟨rfl, rfl, ls, s, si, ti, fs, hopen⟩ := bothOpen hread hwrite
        obtain ⟨lt, n, hopened⟩ := hopen.tmp_opened
        obtain ⟨message, w₃, m, hwritten, -⟩ := hopen.written hopened hvalid uid gid mode
        have hsteps := copySteps_eq dst (tmpName dst) w.env.uid uid gid mode w.os.streams.length
          (w.os.streams.length + 1)
        cases message with
        | some message =>
          obtain ⟨_, w₄, herr⟩ := returns_copyErr (tmpName dst) (some _) (some _) w₃
          have hfailed := (congrFun hsteps w₂).trans (andThen_some hwritten)
          exact ⟨_, w₄, installFileCopy_failed hvalid hlen hread hwrite hfailed herr,
            .notWritten hlen hread hwrite hwritten herr⟩
        | none =>
          obtain ⟨message, w₄, hclosing⟩ := returns_copyClosing dst (tmpName dst) w.os.streams.length
            (w.os.streams.length + 1) w₃
          have hrun := (congrFun hsteps w₂).trans ((andThen_none hwritten).trans hclosing)
          cases message with
          | none =>
            exact ⟨_, w₄, installFileCopy_copied hvalid hlen hread hwrite hrun,
              .copied hlen hread hwrite hwritten hclosing⟩
          | some message =>
            obtain ⟨_, w₅, herr⟩ := returns_copyErr (tmpName dst) (some _) (some _) w₄
            exact ⟨_, w₅, installFileCopy_failed hvalid hlen hread hwrite hrun herr,
              .notRenamed hlen hread hwrite hwritten hclosing herr⟩
  · have huid : iposixUidCurrent w = (.ok (some w.env.uid), w) := rfl
    have htmp : snprintf installMaxPathlen (dst ++ ['.', 't', 'm', 'p']) = none :=
      if_neg (by rw [List.length_append]; exact hlen)
    have hrun : installFileCopy src dst uid gid mode w = statusError "could not format string" w := by
      unfold installFileCopy
      rw [bind_ok huid]
      dsimp only
      rw [bind_ok (assert_true hvalid w), htmp]
    exact ⟨_, w, hrun, .tooLong (Nat.lt_of_not_le hlen)⟩

/-- Closing and renaming, if they succeed. -/
theorem copyClosing_ok {tmp : Text} (h : copyClosing dst tmp fdSrc fdDst w = (.ok none, w')) :
    dst ≠ [] ∧ w.os.fs.rename (Foundation.route w.os.cwd tmp) (Foundation.route w.os.cwd dst) =
        .ok w'.os.fs ∧ w'.env = w.env ∧ w'.os.cwd = w.os.cwd := by
  obtain ⟨w₁, hclose, h⟩ := step_none h
  have h₁ := condition_quiet (p := fun r : Int => r ≠ -1) (keeps_fclose fun _ _ => ⟨rfl, rfl⟩) hclose
  obtain ⟨w₂, hclose', h⟩ := step_none h
  have h₂ := condition_quiet (p := fun r : Int => r ≠ -1) (keeps_fclose fun _ _ => ⟨rfl, rfl⟩) hclose'
  obtain ⟨w₃, hrename, h⟩ := step_none h
  obtain ⟨r, hrename, hr⟩ := condition_true (p := fun r : Int => r ≠ -1) hrename
  obtain ⟨hdst, hfs, hw₃⟩ := rename_ok hr hrename
  have hquiet : Frame Quiet w w₂ := h₁.trans h₂
  cases h
  rw [hquiet.quiet_fs, hquiet.quiet_cwd] at hfs
  refine ⟨hdst, hfs, ?_, ?_⟩
  · rw [hw₃]
    exact hquiet.env
  · rw [hw₃]
    exact hquiet.quiet_cwd

/-- What `install_file_copy` did, if it says that it succeeded: the source was found, the temporary file
was emptied, which gave `fs`, and then filled, given its mode and handed over, and it was renamed. -/
structure Copied (w : World) (src dst : Text) (uid gid : Id) (mode : Mode) (ls lt : Loc) (s n : Node)
    (si ti : Nat) (fs : FileSystem) (w' : World) : Prop where
  src_ne : src ≠ []
  dst_ne : dst ≠ []
  source : w.os.fs.resolve (Foundation.route w.os.cwd src) = .ok (ls, some s)
  source_opened : w.opened ls s = .ok si
  tmp : w.emptied (Foundation.route w.os.cwd (tmpName dst)) = .ok (ti, fs)
  opened : Opened fs (Foundation.route w.os.cwd (tmpName dst)) ti lt n
  renamed : ∃ fs', fs.rename (Foundation.route w.os.cwd (tmpName dst))
      (Foundation.route w.os.cwd dst) = .ok fs' ∧
    w'.os.fs = fs'.set ti
      (handedOver w.env uid gid (w.env.withPerm mode (n.withData (sourceData si ti s))))
  env : w'.env = w.env
  cwd : w'.os.cwd = w.os.cwd

theorem CopyRun.copied_ok (hvalid : iposixUidValid w.env.uid = true)
    (h : CopyRun src dst uid gid mode w .ok w') :
    ∃ ls lt s n si ti fs, Copied w src dst uid gid mode ls lt s n si ti fs w' := by
  cases h with
  | @copied fdSrc fdDst w₁ w₂ w₃ _ hlen hread hwrite hwritten hclosing =>
    obtain ⟨rfl, rfl, ls, s, si, ti, fs, hopen⟩ := bothOpen hread hwrite
    obtain ⟨lt, n, hopened⟩ := hopen.tmp_opened
    obtain ⟨_, _, m, hrun, hwrote, -, hall⟩ := hopen.written hopened hvalid uid gid mode
    rw [hwritten] at hrun
    cases hrun
    obtain rfl := hall rfl
    obtain ⟨hdst, hrename, henv, hcwd⟩ := copyClosing_ok hclosing
    have htype := ((sameType_withData n (sourceData si ti s)).trans
      (sameType_withPerm w.env mode _)).trans (sameType_handedOver w.env uid gid _)
    rw [hwrote.cwd, hopen.cwd, hwrote.fs, hopen.files,
      FileSystem.rename_set hopened.inode htype hopened.link] at hrename
    refine ⟨ls, lt, s, n, si, ti, fs, hopen.src_ne, hdst, hopen.source, hopen.opened,
      hopen.tmp, hopened, ?_, (henv.trans hwrote.env).trans hopen.env, (hcwd.trans hwrote.cwd).trans hopen.cwd⟩
    cases hfs : fs.rename (Foundation.route w.os.cwd (tmpName dst)) (Foundation.route w.os.cwd dst) with
    | error e => rw [hfs] at hrename; cases hrename
    | ok fs' =>
      rw [hfs] at hrename
      exact ⟨fs', rfl, (Except.ok.inj hrename).symm⟩

theorem installFileCopy_ok {status : Status}
    (h : installFileCopy src dst uid gid mode w = (.ok status, w')) (hok : status.status = .ok) :
    ∃ ls lt s n si ti fs, Copied w src dst uid gid mode ls lt s n si ti fs w' := by
  cases hvalid : iposixUidValid w.env.uid with
  | false =>
    rw [installFileCopy_invalid hvalid] at h
    cases h
  | true =>
    obtain ⟨status', w₁, hrun, hway⟩ := installFileCopy_run hvalid src dst uid gid mode
    rw [h] at hrun
    cases hrun
    rw [hok] at hway
    exact hway.copied_ok hvalid

end Copy

end CStringVerified.Install
