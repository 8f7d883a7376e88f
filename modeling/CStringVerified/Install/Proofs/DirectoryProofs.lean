import CStringVerified.Install.Proofs.MkdirProofs

/-!
# When the success of `install_rmkdir` means that the directory is there

`install_rmkdir` never fails on the POSIX platform, so its result is right exactly if no `mkdir` is
refused in a way that matters (`Granted`), and the directory is there or can be made.
-/

namespace CStringVerified.Install

open Foundation Foundation.Run

/-- A pathname names a directory, possibly through links. -/
def IsDirectory (w : World) (path : Text) : Prop :=
  ∃ n, statAt w path = some n ∧ sIsdir n.stMode = true

/-- An error of `mkdir` that does not matter. -/
def Tolerated (e : Errno) : Prop := e = eexist ∨ e = eisdir

/-- A `mkdir` of `install_rmkdir (dir, perm)` fails with an error that matters. -/
def MkdirFails (w : World) (dir : Text) (perm : Mode) : Prop :=
  ∃ before path after w₁ w₂, visitedPaths dir = before ++ path :: after ∧
    makeEach posixCallbacks dir perm before w = (.ok 1, w₁) ∧
    mkdir path perm w₁ = (.ok (-1), w₂) ∧ ¬Tolerated w₂.errno

/-- What `install_rmkdir` and `inst_mkdir` report is right. -/
structure RmkdirReports (w : World) (dir : Text) (perm : Mode) : Prop where
  success : ∀ w', installRmkdir dir perm w = (.ok 1, w') → IsDirectory w' dir
  failure : MkdirFails w dir perm → ∃ w', installRmkdir dir perm w = (.ok 0, w')
  operator : ∀ item flags status w', item.dir = some dir → item.perm = perm →
    notDryrun flags = true → instMkdir item flags w = (.ok status, w') → status.status = .ok →
      IsDirectory w' dir

/-- No `mkdir` of `install_rmkdir (dir, perm)` is refused, but as if there were something already. -/
def Granted (w : World) (dir : Text) : Prop :=
  ∀ k < (visitedPaths dir).length, ∀ e, w.env.faults (w.tick + k) = some e → Tolerated e

/-! ## Failures -/

section Failures

variable {w w' : World} {dir : Text} {perm : Mode}

/-- A refused `mkdir`. -/
theorem mkdir_refused (path : Text) (perm : Mode) {e : Errno} (hfault : w.env.faults w.tick = some e) :
    ∃ w', mkdir path perm w = (.ok (-1), w') ∧ w'.errno = e := by
  rcases fsCall_cases (.mkdir path perm) _ w with ⟨_, hnone, -⟩ | ⟨e', he, hrun⟩
  · rw [hfault] at hnone
    cases hnone
  · have hmkdir : mkdir path perm w = (.ok (-1), (w.record (.mkdir path perm) false).withErrno e') := hrun
    refine ⟨_, hmkdir, ?_⟩
    rcases he with he | ⟨hnone, -⟩
    · exact Option.some.inj (he.symm.trans hfault)
    · rw [hfault] at hnone
      cases hnone

/-- A failed `mkdir` is refused, or the file system is such. -/
theorem mkdir_failed {path : Text} (hne : path ≠ []) (h : mkdir path perm w = (.ok (-1), w')) :
    w.env.faults w.tick = some w'.errno ∨
      w.env.faults w.tick = none ∧
        w.os.fs.create (route w.os.cwd path) true (w.env.newDir perm) = .error w'.errno := by
  have hroute : w.route path = .ok (route w.os.cwd path) := if_neg hne
  rcases fsCall_cases (.mkdir path perm) _ w with ⟨_, -, -, hrun⟩ | ⟨e, he, hrun⟩
  · cases hrun.symm.trans h
  · cases hrun.symm.trans h
    refine he.imp_right fun ⟨hnone, hf⟩ => ⟨hnone, ?_⟩
    rw [hroute] at hf
    exact hf

/-- The paths before the `k`-th are dealt with. -/
theorem makeEach_take (perm : Mode) (w : World) (dir : Text) (k : Nat) :
    ∃ w₁, makeEach posixCallbacks dir perm ((visitedPaths dir).take k) w = (.ok 1, w₁) ∧
      MadeAll w perm ((visitedPaths dir).take k) w₁ :=
  makeEach_posix dir perm (fun _ hpath => visitedPaths_ne_nil (List.mem_of_mem_take hpath)) w

/-- A refusal that matters is a failure that matters. -/
theorem granted_of_not_fails (perm : Mode) (h : ¬MkdirFails w dir perm) : Granted w dir := by
  intro k hk e hfault
  by_contra herrno
  obtain ⟨w₁, hrun, hmade⟩ := makeEach_take perm w dir k
  have htick : w₁.tick = w.tick + k := by
    rw [hmade.tick, List.length_take_of_le (Nat.le_of_lt hk)]
  rw [← htick, ← hmade.env] at hfault
  obtain ⟨w₂, hmkdir, he⟩ := mkdir_refused (visitedPaths dir)[k] perm hfault
  refine h ⟨_, _, (visitedPaths dir).drop (k + 1), w₁, w₂, ?_, hrun, hmkdir, by rwa [he]⟩
  rw [← List.drop_eq_getElem_cons hk, List.take_append_drop]

/-- Where the directory is there in the end, only a refusal matters. -/
theorem not_mkdirFails {m : Node} (hgranted : Granted w dir) (hm : Becomes w dir perm m) :
    ¬MkdirFails w dir perm := by
  rintro ⟨before, path, after, w₁, w₂, hpaths, hrun, hmkdir, herrno⟩
  have hpath : path ∈ visitedPaths dir := by
    rw [hpaths]
    exact List.mem_append_right before List.mem_cons_self
  have hne : path ≠ [] := visitedPaths_ne_nil hpath
  have hlen : before.length < (visitedPaths dir).length := by
    rw [hpaths, List.length_append, List.length_cons]
    omega
  obtain ⟨w₁', hrun', hmade⟩ := makeEach_take perm w dir before.length
  rw [hpaths, List.take_left, hrun] at hrun'
  cases hrun'
  rw [hpaths, List.take_left] at hmade
  have hfailed := mkdir_failed hne hmkdir
  rw [hmade.env, hmade.tick, hmade.cwd, hmade.fs] at hfailed
  rcases hfailed with hfault | ⟨hnone, hcreate⟩
  · exact herrno (hgranted _ hlen _ hfault)
  · have hall : attempts w.env w.os.cwd (visitedPaths dir) w.tick =
        attempts w.env w.os.cwd before w.tick ++ (route w.os.cwd path, true) ::
          attempts w.env w.os.cwd after (w.tick + before.length + 1) := by
      rw [hpaths, attempts_append, attempts, hnone]
      rfl
    have hascending : FileSystem.Ascending (route w.os.cwd dir)
        (attempts w.env w.os.cwd (visitedPaths dir) w.tick) :=
      ascending_attempts hm.1 (List.takeWhile_sublist _) _
    have hprovides := (becomes_iff hm.1).mp hm
    rw [hall] at hascending hprovides
    exact herrno (Or.inl (FileSystem.makeAll_fails (newDir_isdir w.env perm) (route_ne_nil _ _)
      hascending hprovides hcreate))

end Failures

/-! ## The directory -/

section Directory

variable {w w' : World} {dir : Text} {perm : Mode}

theorem isDirectory_made_iff (h : MadeAll w perm (visitedPaths dir) w') :
    IsDirectory w' dir ↔ ∃ m, Becomes w dir perm m ∧ sIsdir m.stMode = true := by
  unfold IsDirectory
  simp only [h.statAt_iff]

/-- `install_rmkdir` and `inst_mkdir` report what happened exactly if no `mkdir` is refused in a way that
matters, and the path leads to a directory once the missing ones are made. -/
theorem rmkdir_reports_iff (w : World) (dir : Text) (perm : Mode) (hlen : dir.length < installMaxPathlen) :
    RmkdirReports w dir perm ↔
      Granted w dir ∧ ∃ m, Becomes w dir perm m ∧ sIsdir m.stMode = true := by
  obtain ⟨w', hrun, hmade⟩ := installRmkdir_run hlen perm w
  rw [← isDirectory_made_iff hmade]
  constructor
  · intro hreports
    refine ⟨granted_of_not_fails perm fun hfails => ?_, hreports.success w' hrun⟩
    obtain ⟨w'', hzero⟩ := hreports.failure hfails
    rw [hrun] at hzero
    cases hzero
  · rintro ⟨hgranted, hdirectory⟩
    obtain ⟨m, hm, -⟩ := (isDirectory_made_iff hmade).mp hdirectory
    refine ⟨fun w'' hone => ?_, fun hfails => absurd hfails (not_mkdirFails hgranted hm), ?_⟩
    · rw [hrun] at hone
      cases hone
      exact hdirectory
    · rintro item flags status w'' hdir rfl hdry hoper hok
      obtain ⟨n, hn, htype⟩ := hdirectory
      rcases wantedIds_cases w.env item with hids | ⟨uid, gid, hids, -⟩ | ⟨uid, gid, hids, -⟩
      · obtain ⟨failed, hfailed, herror⟩ := withIds_unknown _ hids
        rw [instMkdir, hfailed] at hoper
        cases hoper
        rw [herror] at hok
        cases hok
      all_goals
        obtain ⟨-, w₁, hrun₁, -, hstat⟩ := instMkdir_made hdir hids hlen hdry hoper hok
        rw [hrun] at hrun₁
        cases hrun₁
        refine ⟨handedOver w.env uid gid n, by rw [hstat, hn, Option.map_some], ?_⟩
        exact (sameType_handedOver w.env uid gid n).isdir.trans htype

end Directory

/-- There is only the root directory. -/
def rootWorld : World := World.ofFiles [([], ⟨sIfdir ||| 0o755, 0, 0, []⟩)]

theorem rmkdir_reports_iff_a :
    RmkdirReports rootWorld ['a'] 0o755 ↔
      Granted rootWorld ['a'] ∧ ∃ m, Becomes rootWorld ['a'] 0o755 m ∧ sIsdir m.stMode = true :=
  rmkdir_reports_iff rootWorld ['a'] 0o755 (by decide)

/-- The same, where the first call is refused. -/
def refusingWorld : World :=
  { rootWorld with
    env := { rootWorld.env with faults := fun tick => if tick = 0 then some eperm else none } }

/-- The directory is wanted. -/
def wantedDir : Item := ⟨.instMkdir, none, none, some ['a'], none, none, 0o755⟩

/-- `mkdir` is refused, nothing is made, and yet `install_rmkdir` and `inst_mkdir` report success. -/
theorem refused_mkdir_succeeds :
    (∃ w', installRmkdir ['a'] 0o755 refusingWorld = (.ok 1, w') ∧ statAt w' ['a'] = none) ∧
      (∃ status w', instMkdir wantedDir 0 refusingWorld = (.ok status, w') ∧ status.status = .ok ∧
        statAt w' ['a'] = none) ∧
      ¬RmkdirReports refusingWorld ['a'] 0o755 := by
  have hmissing : ∃ w', installRmkdir ['a'] 0o755 refusingWorld = (.ok 1, w') ∧
      statAt w' ['a'] = none := ⟨_, rfl, rfl⟩
  refine ⟨hmissing, ⟨_, _, rfl, rfl, rfl⟩, fun hreports => ?_⟩
  obtain ⟨w', hrun, hnone⟩ := hmissing
  obtain ⟨n, hn, -⟩ := hreports.success w' hrun
  rw [hnone] at hn
  cases hn

end CStringVerified.Install
