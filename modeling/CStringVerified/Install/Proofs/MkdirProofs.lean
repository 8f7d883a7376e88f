import CStringVerified.Foundation.Provides
import CStringVerified.Install.Proofs.CheckProofs
import CStringVerified.Install.Proofs.CopyProofs
import CStringVerified.Install.Proofs.RmkdirProofs

/-!
# What `inst_mkdir` leaves behind

`install_rmkdir` makes one directory after the other, whether or not that succeeds. What its path leads to
in the end is what it leads to once the missing directories are made for which a `mkdir` is not refused
(`Becomes`).
-/

namespace CStringVerified.Install

open Foundation Foundation.Run

/-! ## Making them -/

/-- The directories that are tried from the moment `tick` on, and whether `mkdir` is allowed to. -/
def attempts (env : Env) (cwd : Loc) : List Text → Nat → List (Route × Bool)
  | [], _ => []
  | path :: paths, tick =>
    (route cwd path, (env.faults tick).isNone) :: attempts env cwd paths (tick + 1)

theorem mkdir_apply {path : Text} (hne : path ≠ []) (perm : Mode) (w : World) :
    ((mkdir path perm w).2.env = w.env ∧ (mkdir path perm w).2.os.cwd = w.os.cwd ∧
      (mkdir path perm w).2.tick = w.tick + 1) ∧
      (mkdir path perm w).2.os.fs = w.os.fs.makeOne (w.env.newDir perm) (route w.os.cwd path)
        (w.env.faults w.tick).isNone := by
  have hroute : w.route path = .ok (route w.os.cwd path) := if_neg hne
  rcases fsCall_cases (.mkdir path perm) _ w with ⟨fs, hfault, hf, hrun⟩ | ⟨e, he, hrun⟩
  · have hmkdir : mkdir path perm w = (.ok 0, _) := hrun
    rw [hroute] at hf
    have hcreate : w.os.fs.create (route w.os.cwd path) true (w.env.newDir perm) = .ok fs := hf
    rw [hmkdir, FileSystem.makeOne, hfault, Option.isNone_none, if_pos rfl, hcreate]
    exact ⟨⟨rfl, rfl, rfl⟩, rfl⟩
  · have hmkdir : mkdir path perm w = (.ok (-1), _) := hrun
    rw [hmkdir, FileSystem.makeOne]
    refine ⟨⟨rfl, rfl, rfl⟩, ?_⟩
    rcases he with hfault | ⟨hfault, hf⟩
    · rw [hfault, Option.isNone_some, if_neg Bool.false_ne_true]
      rfl
    · rw [hroute] at hf
      have hcreate : w.os.fs.create (route w.os.cwd path) true (w.env.newDir perm) = .error e := hf
      rw [hfault, Option.isNone_none, if_pos rfl, hcreate]
      rfl

/-- What the loop leaves. -/
structure MadeAll (w : World) (perm : Mode) (paths : List Text) (w' : World) : Prop where
  env : w'.env = w.env
  cwd : w'.os.cwd = w.os.cwd
  fs : w'.os.fs = w.os.fs.makeAll (w.env.newDir perm) (attempts w.env w.os.cwd paths w.tick)
  tick : w'.tick = w.tick + paths.length

/-- On the POSIX platform all directories are tried. -/
theorem makeEach_posix (dir : Text) (perm : Mode) {paths : List Text}
    (hne : ∀ path ∈ paths, path ≠ []) (w : World) :
    ∃ w', makeEach posixCallbacks dir perm paths w = (.ok 1, w') ∧ MadeAll w perm paths w' := by
  induction paths generalizing w with
  | nil => exact ⟨w, rfl, rfl, rfl, rfl, rfl⟩
  | cons path paths ih =>
    obtain ⟨⟨henv, hcwd, htick⟩, hfs⟩ := mkdir_apply (hne path List.mem_cons_self) perm w
    obtain ⟨w', hrun, hmade⟩ :=
      ih (fun p hp => hne p (List.mem_cons_of_mem path hp)) (mkdir path perm w).2
    refine ⟨w', (makeEach_posix_cons dir path paths perm w).trans hrun, hmade.env.trans henv,
      hmade.cwd.trans hcwd, ?_, ?_⟩
    · rw [hmade.fs, henv, hcwd, htick, hfs]
      rfl
    · rw [hmade.tick, htick, List.length_cons]
      omega

/-! ## What is there then -/

section Attempts

variable {env : Env} {cwd : Loc} {paths : List Text} {tick : Nat} {dir : Text}

theorem mem_attempts {e : Route × Bool} (h : e ∈ attempts env cwd paths tick) :
    ∃ path ∈ paths, e.1 = route cwd path := by
  induction paths generalizing tick with
  | nil => cases h
  | cons path paths ih =>
    rcases List.mem_cons.mp h with rfl | h
    · exact ⟨path, List.mem_cons_self, rfl⟩
    · obtain ⟨p, hp, he⟩ := ih h
      exact ⟨p, List.mem_cons_of_mem path hp, he⟩

theorem attempts_pairwise {R : Text → Text → Prop} {S : Route → Route → Prop} (h : paths.Pairwise R)
    (hRS : ∀ p q, R p q → S (route cwd p) (route cwd q)) (tick : Nat) :
    (attempts env cwd paths tick).Pairwise fun e e' => S e.1 e'.1 := by
  induction paths generalizing tick with
  | nil => exact List.Pairwise.nil
  | cons path paths ih =>
    obtain ⟨hfirst, hrest⟩ := List.pairwise_cons.mp h
    refine List.pairwise_cons.mpr ⟨fun e he => ?_, ih hrest _⟩
    obtain ⟨p, hp, heq⟩ := mem_attempts he
    rw [heq]
    exact hRS path p (hfirst p hp)

theorem attempts_append (before after : List Text) (tick : Nat) :
    attempts env cwd (before ++ after) tick =
      attempts env cwd before tick ++ attempts env cwd after (tick + before.length) := by
  induction before generalizing tick with
  | nil => rfl
  | cons path before ih =>
    rw [List.cons_append, attempts, ih, attempts, List.length_cons, List.cons_append,
      show tick + 1 + before.length = tick + (before.length + 1) by omega]

/-- The directories above are tried first. -/
theorem ascending_attempts (hne : dir ≠ []) (hpaths : paths.Sublist (rmkdirPaths [] dir)) (tick : Nat) :
    FileSystem.Ascending (route cwd dir) (attempts env cwd paths tick) := by
  refine ⟨fun e he => ?_, fun e he => ?_, fun e he => ?_, ?_⟩
  · obtain ⟨path, hpath, heq⟩ := mem_attempts he
    rw [heq, route, route, (components_rmkdirPaths hne (hpaths.subset hpath)).1]
  · obtain ⟨path, -, heq⟩ := mem_attempts he
    rw [heq]
    exact route_ne_nil cwd path
  · obtain ⟨path, hpath, heq⟩ := mem_attempts he
    rw [heq]
    exact route_names_above (components_rmkdirPaths hne (hpaths.subset hpath)).2
  · have horder : paths.Pairwise fun p q => components p <+: components q :=
      ((rmkdirPaths_pairwise [] dir).imp_of_mem fun hp _ hpq =>
        (components_mono (rmkdirPaths_between hp).2.2 hpq).2).sublist hpaths
    exact attempts_pairwise
      (S := fun p q => p.names = [dot] ∨ q.names = [dot] ∨ p.names <+: q.names) horder
      (fun p q hpq => (route_names_above hpq).imp_right Or.inr) tick

end Attempts

/-! ## The directory -/

/-- A `mkdir` of `install_rmkdir` is for the directory with these components, and is not refused. -/
def Tried (w : World) (dir : Text) (q : List Name) : Prop :=
  ∃ k path, (visitedPaths dir)[k]? = some path ∧ (route w.os.cwd path).names = q ∧
    w.env.faults (w.tick + k) = none

/-- What `dir` leads to, once the directories it lacks are made by a `mkdir` that is not refused. -/
def Becomes (w : World) (dir : Text) (perm : Mode) (m : Node) : Prop :=
  dir ≠ [] ∧ FileSystem.Provides (w.env.newDir perm) (route w.os.cwd dir) (Tried w dir) w.os.fs []
    (route w.os.cwd dir).names m

section Directory

variable {w w' : World} {dir : Text} {perm : Mode} {m n : Node}

theorem newDir_type (env : Env) (perm : Mode) (d : Node) :
    (env.newDir perm d).stMode &&& sIfmt = sIfdir := by
  have hperm : env.masked (perm &&& 0o1777) &&& sIfmt = 0#32 := by
    refine masked_type env _ ?_
    rw [BitVec.and_assoc]
    exact BitVec.and_zero
  have hgroup : (if env.bsdGroups then 0 else d.stMode &&& 0o2000) &&& sIfmt = 0#32 := by
    split
    · rfl
    · rw [BitVec.and_assoc]
      exact BitVec.and_zero
  show (sIfdir ||| env.masked (perm &&& 0o1777) |||
    if env.bsdGroups then 0 else d.stMode &&& 0o2000) &&& sIfmt = sIfdir
  rw [BitVec.and_or_distrib_right, BitVec.and_or_distrib_right, hperm, hgroup]
  rfl

theorem newDir_isdir (env : Env) (perm : Mode) (d : Node) : sIsdir (env.newDir perm d).stMode = true :=
  decide_eq_true (newDir_type env perm d)

theorem triedIn_attempts {env : Env} {cwd : Loc} {paths : List Text} {tick : Nat} {q : List Name} :
    FileSystem.TriedIn (attempts env cwd paths tick) q ↔
      ∃ k path, paths[k]? = some path ∧ (route cwd path).names = q ∧ env.faults (tick + k) = none := by
  induction paths generalizing tick with
  | nil => exact iff_of_false nofun nofun
  | cons path paths ih =>
    rw [attempts, FileSystem.triedIn_cons, FileSystem.TriedNext, ih, Option.isNone_iff_eq_none]
    constructor
    · rintro (⟨hfault, rfl⟩ | ⟨k, p, hp, hq, hfault⟩)
      · exact ⟨0, path, rfl, rfl, hfault⟩
      · exact ⟨k + 1, p, hp, hq, by rwa [show tick + (k + 1) = tick + 1 + k by omega]⟩
    · rintro ⟨k, p, hp, hq, hfault⟩
      cases k with
      | zero =>
        obtain rfl := Option.some.inj hp
        exact Or.inl ⟨hfault, hq.symm⟩
      | succ k => exact Or.inr ⟨k, p, hp, hq, by rwa [show tick + 1 + k = tick + (k + 1) by omega]⟩

theorem becomes_iff (hne : dir ≠ []) : Becomes w dir perm m ↔
    FileSystem.Provides (w.env.newDir perm) (route w.os.cwd dir)
      (FileSystem.TriedIn (attempts w.env w.os.cwd (visitedPaths dir) w.tick)) w.os.fs []
      (route w.os.cwd dir).names m := by
  rw [Becomes, and_iff_right hne]
  exact ⟨fun h => h.mono fun _ _ _ => triedIn_attempts.mpr, fun h => h.mono fun _ _ _ => triedIn_attempts.mp⟩

theorem statAt_eq_stat : statAt w dir = some n ↔ dir ≠ [] ∧ w.os.fs.stat (route w.os.cwd dir) = .ok n := by
  rw [statAt_eq_some, FileSystem.stat_eq_ok]

/-- What is there in the end. -/
theorem MadeAll.statAt_iff (h : MadeAll w perm (visitedPaths dir) w') :
    statAt w' dir = some n ↔ Becomes w dir perm n := by
  rw [statAt_eq_stat, h.cwd, h.fs]
  by_cases hne : dir = []
  · exact iff_of_false (fun h => h.1 hne) fun h => h.1 hne
  · have hascending : FileSystem.Ascending (route w.os.cwd dir)
        (attempts w.env w.os.cwd (visitedPaths dir) w.tick) :=
      ascending_attempts hne (List.takeWhile_sublist _) _
    rw [and_iff_right hne, becomes_iff hne]
    exact FileSystem.makeAll_stat_iff (newDir_isdir w.env perm) (route_ne_nil _ _) hascending

end Directory

/-! ## The operator -/

section Operator

variable {w w' : World} {item : Item} {dir : Text} {uid gid : Id} {status : Status}

theorem mem_visitedPaths {path : Text} (h : path ∈ visitedPaths dir) : path ∈ rmkdirPaths [] dir :=
  (List.takeWhile_sublist _).subset h

theorem visitedPaths_ne_nil {path : Text} (h : path ∈ visitedPaths dir) : path ≠ [] := by
  rintro rfl
  have hlast := (rmkdirPaths_between (mem_visitedPaths h)).2.2
  cases hlast

/-- It always succeeds. -/
theorem installRmkdir_run (hlen : dir.length < installMaxPathlen) (perm : Mode) (w : World) :
    ∃ w', installRmkdir dir perm w = (.ok 1, w') ∧ MadeAll w perm (visitedPaths dir) w' := by
  rw [installRmkdir_eq hlen]
  exact makeEach_posix dir perm (fun _ hpath => visitedPaths_ne_nil hpath) w

theorem installRmkdir_ok {perm : Mode} {r : Int} (hlen : dir.length < installMaxPathlen)
    (h : installRmkdir dir perm w = (.ok r, w')) : r = 1 ∧ MadeAll w perm (visitedPaths dir) w' := by
  obtain ⟨w'', hrun, hmade⟩ := installRmkdir_run hlen perm w
  rw [hrun] at h
  cases h
  exact ⟨rfl, hmade⟩

/-- Asking whether the ownership can be set changes nothing. -/
theorem iposixCanSetOwnership_ok {id : Id} {r : Int}
    (h : iposixCanSetOwnership id w = (.ok r, w')) : w' = w := by
  obtain ⟨_, w₁, hassert, hreturn⟩ := bind_eq_ok h
  unfold assert at hassert
  split at hassert
  · cases hassert
    cases hreturn
    rfl
  · cases hassert

/-- Where there is something, a new owner is all that changes. -/
theorem iposixFileOwnershipSet_statAt {r : Int} (huid : w.env.uid ≠ uid) (hr : r ≠ 0)
    (h : iposixFileOwnershipSet dir uid gid w = (.ok r, w')) :
    w'.env = w.env ∧ statAt w' dir = (statAt w dir).map (handedOver w.env uid gid) := by
  obtain ⟨-, hne, l, i, n, hres, hino, rfl⟩ := iposixFileOwnershipSet_ok hr h
  have hstat : statAt w dir = some n := statAt_eq_some.mpr ⟨hne, l, hres⟩
  have hchowned : handedOver w.env uid gid n = w.env.chowned uid gid n := if_neg huid
  have hn : w.os.fs.inode i = some n := by
    rw [← FileSystem.node_of_ino hino]
    exact FileSystem.resolve_node hres
  have halike := FileSystem.alike_set hn (sameType_chowned w.env uid gid n)
    (FileSystem.resolve_plain (route_ne_nil _ _) hres)
  rw [hstat, Option.map_some, hchowned]
  refine ⟨rfl, statAt_eq_some.mpr ⟨hne, l, ?_⟩⟩
  exact (halike.resolve hres).trans (by rw [FileSystem.node_set_self hino])

/-- A directory that is not for the current user is handed over. -/
theorem mkdirOwnership_cases (h : mkdirOwnership dir w.env.uid uid gid w = (.ok status, w'))
    (hok : status.status = .ok) : (w.env.uid = uid ∧ w' = w) ∨
      (w.env.uid ≠ uid ∧ ∃ r, r ≠ 0 ∧ iposixFileOwnershipSet dir uid gid w = (.ok r, w')) := by
  unfold mkdirOwnership at h
  by_cases huid : w.env.uid = uid
  · have hsame : iposixUidCompare w.env.uid uid = 1 := if_pos huid
    rw [if_neg (by rw [hsame]; decide)] at h
    cases h
    exact Or.inl ⟨huid, rfl⟩
  · have hother : iposixUidCompare w.env.uid uid = 0 := if_neg huid
    rw [if_pos hother] at h
    obtain ⟨can, w₁, hcan, hnext⟩ := bind_eq_ok h
    obtain rfl := iposixCanSetOwnership_ok hcan
    split at hnext
    · obtain ⟨r, w₂, hset, hend⟩ := bind_eq_ok hnext
      by_cases hr : r = 0
      · rw [if_pos hr] at hend
        cases hend
        cases hok
      · rw [if_neg hr] at hend
        cases hend
        exact Or.inr ⟨huid, r, hr, hset⟩
    · cases hnext
      cases hok

/-- What is there is handed over. -/
theorem mkdirOwnership_ok (h : mkdirOwnership dir w.env.uid uid gid w = (.ok status, w'))
    (hok : status.status = .ok) :
    w'.env = w.env ∧ statAt w' dir = (statAt w dir).map (handedOver w.env uid gid) := by
  rcases mkdirOwnership_cases h hok with ⟨huid, rfl⟩ | ⟨huid, r, hr, hset⟩
  · have hid : handedOver w'.env uid gid = id := by
      funext n
      exact if_pos huid
    rw [hid, Option.map_id]
    exact ⟨rfl, rfl⟩
  · exact iposixFileOwnershipSet_statAt huid hr hset

/-- A success of the operator: the directories were made, and the last one may be handed over. -/
theorem instMkdir_steps {flags : BitVec 32} (hdir : item.dir = some dir)
    (hids : wantedIds w.env item = some (uid, gid)) (hlen : dir.length < installMaxPathlen)
    (hdry : notDryrun flags = true) (h : instMkdir item flags w = (.ok status, w')) :
    ¬(uid = nullId ∨ gid = nullId) ∧ ∃ w₁, installRmkdir dir item.perm w = (.ok 1, w₁) ∧
      MadeAll w item.perm (visitedPaths dir) w₁ ∧
      mkdirOwnership dir w₁.env.uid uid gid w₁ = (.ok status, w') := by
  unfold instMkdir at h
  rw [withIds_found hids] at h
  split at h
  · cases h
  · rename_i hvalid
    obtain ⟨_, w₁, hcurrent, h⟩ := bind_eq_ok h
    cases hcurrent
    simp only [hdir, deref] at h
    rw [pure_bind_apply] at h
    obtain ⟨r, w₂, hmkdir, h⟩ := bind_eq_ok h
    obtain ⟨rfl, hmade⟩ := installRmkdir_ok hlen hmkdir
    rw [if_neg (by decide), ← hmade.env] at h
    exact ⟨hvalid, w₂, hmkdir, hmade, h⟩

/-- After a success the last directory was handed over. -/
theorem instMkdir_made {flags : BitVec 32} (hdir : item.dir = some dir)
    (hids : wantedIds w.env item = some (uid, gid)) (hlen : dir.length < installMaxPathlen)
    (hdry : notDryrun flags = true) (h : instMkdir item flags w = (.ok status, w'))
    (hok : status.status = .ok) :
    ¬(uid = nullId ∨ gid = nullId) ∧ ∃ w₁, installRmkdir dir item.perm w = (.ok 1, w₁) ∧
      MadeAll w item.perm (visitedPaths dir) w₁ ∧
      statAt w' dir = (statAt w₁ dir).map (handedOver w.env uid gid) := by
  obtain ⟨hvalid, w₁, hmkdir, hmade, hown⟩ := instMkdir_steps hdir hids hlen hdry h
  obtain ⟨-, hstat⟩ := mkdirOwnership_ok hown hok
  rw [hmade.env] at hstat
  exact ⟨hvalid, w₁, hmkdir, hmade, hstat⟩

/-- After a success, what is at the directory was there before, or is new, and it is handed over. -/
theorem instMkdir_ok (hdir : item.dir = some dir) (hids : wantedIds w.env item = some (uid, gid))
    (hlen : dir.length < installMaxPathlen) (h : instMkdir item 0 w = (.ok status, w'))
    (hok : status.status = .ok) :
    ¬(uid = nullId ∨ gid = nullId) ∧ ∀ n, statAt w' dir = some n ↔ ∃ m,
      Becomes w dir item.perm m ∧ handedOver w.env uid gid m = n := by
  obtain ⟨hvalid, w₁, -, hmade, hstat⟩ := instMkdir_made hdir hids hlen rfl h hok
  refine ⟨hvalid, fun n => ?_⟩
  rw [hstat, Option.map_eq_some_iff]
  simp only [hmade.statAt_iff]

end Operator

end CStringVerified.Install
