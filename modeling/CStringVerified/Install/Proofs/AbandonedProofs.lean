import CStringVerified.Install.Proofs.CheckProofs
import CStringVerified.Install.Proofs.StageProofs

/-!
# What `install_file_copy` leaves behind if it fails

A copy that is given up removes the temporary name. If nothing is refused then, the file systems that it
can leave are the ones that are `Abandoned`, and each of them is left by some run.
-/

namespace CStringVerified.Install

open Foundation Foundation.Run

/-- The file system after a removal that is not refused. -/
def swept (fs : FileSystem) (p : Route) : FileSystem := (fs.unlink p).toOption.getD fs

/-- If the last call was `unlink`, it was not refused. -/
def UnlinkGranted (w : World) : Prop :=
  ∀ path cwd ok, w.log.getLast? = some ⟨.unlink path, cwd, ok⟩ → w.env.faults (w.tick - 1) = none

/-- The file systems that a failed copy leaves. In `fs` the temporary file is empty. -/
inductive Abandoned (w : World) (src dst : Text) (uid gid : Id) (mode : Mode) : FileSystem → Prop
  | untouched : Abandoned w src dst uid gid mode w.os.fs
  | removed {ls s si} (hne : src ≠ [])
      (hsrc : w.os.fs.resolve (Foundation.route w.os.cwd src) = .ok (ls, some s))
      (hopened : w.opened ls s = .ok si) :
      Abandoned w src dst uid gid mode (swept w.os.fs (Foundation.route w.os.cwd (tmpName dst)))
  | left {ls s si ti fs n m} (hne : src ≠ [])
      (hsrc : w.os.fs.resolve (Foundation.route w.os.cwd src) = .ok (ls, some s))
      (hopened : w.opened ls s = .ok si)
      (htmp : w.emptied (Foundation.route w.os.cwd (tmpName dst)) = .ok (ti, fs))
      (hn : fs.inode ti = some n)
      (hleft : Left w.env uid gid mode s n (sourceData si ti s) m) :
      Abandoned w src dst uid gid mode
        ((swept fs (Foundation.route w.os.cwd (tmpName dst))).set ti m)

/-! ## Removing the temporary name -/

section Removal

variable {w w' : World} {path : Text} {fs : FileSystem} {p : Route} {l : Loc} {i : Nat} {n m : Node}

theorem swept_found (hfind : fs.find p = .ok (l, some n)) (hfile : sIsdir n.stMode = false)
    (hslash : p.slash = false) : swept fs p = fs.del l := by
  rw [swept, FileSystem.unlink_found hfind hfile hslash]
  rfl

theorem swept_cases (fs : FileSystem) (p : Route) :
    (∃ l n, fs.find p = .ok (l, some n) ∧ sIsdir n.stMode = false ∧ p.slash = false ∧
        swept fs p = fs.del l) ∨ swept fs p = fs := by
  cases hunlink : fs.unlink p with
  | error e =>
    right
    rw [swept, hunlink]
    rfl
  | ok fs' =>
    obtain ⟨l, n, hfind, hfile, hslash, -⟩ := FileSystem.unlink_eq hunlink
    exact Or.inl ⟨l, n, hfind, hfile, hslash, swept_found hfind hfile hslash⟩

/-- The name of a file that is changed is removed like it was before. -/
theorem swept_set (hn : fs.inode i = some n) (htype : n.SameType m) (hlink : sIslnk n.stMode = false) :
    swept (fs.set i m) p = (swept fs p).set i m := by
  rw [swept, swept, FileSystem.unlink_set hn htype hlink]
  cases fs.unlink p with
  | error e => rfl
  | ok fs' => rfl

theorem unlink_run (hne : path ≠ []) (w : World) :
    ∃ r w', unlink path w = (.ok r, w') ∧ w'.os.cwd = w.os.cwd ∧ w'.env = w.env ∧
      w'.tick = w.tick + 1 ∧ (∃ ok, w'.log.getLast? = some ⟨.unlink path, w.os.cwd, ok⟩) ∧
      (w.env.faults w.tick = none → w'.os.fs = swept w.os.fs (Foundation.route w.os.cwd path)) := by
  rcases fsCall_cases (.unlink path) (fun w => do
    let p ← w.route path
    w.os.fs.unlink p) w with ⟨fs, -, hf, hrun⟩ | ⟨e, he, hrun⟩
  · rw [route_apply hne] at hf
    have hf : w.os.fs.unlink (Foundation.route w.os.cwd path) = .ok fs := hf
    refine ⟨_, _, hrun, rfl, rfl, rfl, ⟨true, List.getLast?_concat⟩, fun _ => ?_⟩
    rw [swept, hf]
    rfl
  · refine ⟨_, _, hrun, rfl, rfl, rfl, ⟨false, List.getLast?_concat⟩, fun hfault => ?_⟩
    rcases he with he | ⟨-, hf⟩
    · rw [hfault] at he
      cases he
    · rw [route_apply hne] at hf
      have hf : w.os.fs.unlink (Foundation.route w.os.cwd path) = .error e := hf
      rw [swept, hf]
      rfl

theorem closeIfOpen_run (fd : Option Handle) (w : World) :
    ∃ w', closeIfOpen fd w = (.ok (), w') ∧ SameFiles w w' ∧ w'.env = w.env ∧
      w'.tick = w.tick + if fd.isSome then 1 else 0 := by
  cases fd with
  | none => exact ⟨w, rfl, SameFiles.refl w, rfl, rfl⟩
  | some fd =>
    obtain ⟨w', hrun, h⟩ := fclose_passed fd w
    exact ⟨w', bind_ok hrun, ⟨h.fs, h.cwd⟩, h.env, h.tick⟩

/-- The temporary name has been removed, unless that was refused. -/
structure Swept (tmp : Text) (w w' : World) : Prop where
  cwd : w'.os.cwd = w.os.cwd
  env : w'.env = w.env
  later : w.tick + 1 < w'.tick
  last : ∃ ok, w'.log.getLast? = some ⟨.unlink tmp, w.os.cwd, ok⟩
  files : w.env.faults (w'.tick - 1) = none →
    w'.os.fs = swept w.os.fs (Foundation.route w.os.cwd tmp)

theorem Swept.granted (h : Swept path w w') (hgranted : UnlinkGranted w') :
    w'.os.fs = swept w.os.fs (Foundation.route w.os.cwd path) := by
  obtain ⟨ok, hlast⟩ := h.last
  refine h.files ?_
  rw [← h.env]
  exact hgranted path w.os.cwd ok hlast

theorem copyErr_run (hne : path ≠ []) (fdSrc : Handle) (fdDst : Option Handle) (w : World) :
    ∃ w', copyErr path (some fdSrc) fdDst w = (.ok (), w') ∧ Swept path w w' := by
  obtain ⟨w₁, hdst, hfiles₁, henv₁, htick₁⟩ := closeIfOpen_run fdDst w
  obtain ⟨w₂, hsrc, hfiles₂, henv₂, htick₂⟩ := closeIfOpen_run (some fdSrc) w₁
  obtain ⟨r, w₃, hunlink, hcwd₃, henv₃, htick₃, hlast, hswept⟩ := unlink_run hne w₂
  obtain ⟨hfs, hcwd⟩ := hfiles₁.trans hfiles₂
  have henv : w₂.env = w.env := henv₂.trans henv₁
  have htick₂ : w₂.tick = w₁.tick + 1 := htick₂
  refine ⟨w₃, (bind_ok hdst).trans ((bind_ok hsrc).trans (bind_ok hunlink)), hcwd₃.trans hcwd,
    henv₃.trans henv, by omega, ?_, fun hfault => ?_⟩
  · rw [← hcwd]
    exact hlast
  · rw [← hfs, ← hcwd]
    refine hswept ?_
    rw [henv, ← hfault, htick₃]
    rfl

end Removal

/-! ## A failed copy leaves one of them -/

section Sound

variable {w w' w₁ w₂ w₃ : World} {src dst : Text} {uid gid : Id} {mode : Mode} {status : Status}

theorem sysCall_none {α : Type} {call : Call} {f : World → Except Errno (α × Os)}
    (h : sysCall call f w = (.ok none, w')) : ∃ e, w' = (w.record call false).withErrno e := by
  rcases sysCall_cases call f w with ⟨a, os, -, -, hrun⟩ | ⟨e, -, hrun⟩
  · rw [hrun] at h
    cases h
  · rw [hrun] at h
    cases h
    exact ⟨e, rfl⟩

theorem step_some {condition : Sys Bool} {message message' : String} {next : Sys (Option String)}
    (h : step condition message next w = (.ok (some message'), w')) :
    condition w = (.ok false, w') ∨
      ∃ w₁, condition w = (.ok true, w₁) ∧ next w₁ = (.ok (some message'), w') := by
  obtain ⟨b, w₁, hcond, hnext⟩ := bind_eq_ok h
  cases b with
  | false =>
    cases hnext
    exact Or.inl hcond
  | true => exact Or.inr ⟨w₁, hcond, hnext⟩

/-- Closing and renaming change nothing if they fail. -/
theorem copyClosing_failed {tmp : Text} {fdSrc fdDst : Handle} {message : String}
    (h : copyClosing dst tmp fdSrc fdDst w = (.ok (some message), w')) :
    SameFiles w w' ∧ w'.env = w.env := by
  have hclosed : ∀ {fd w w' b}, (do return decide ((← fclose fd) ≠ -1) : Sys Bool) w = (.ok b, w') →
      SameFiles w w' ∧ w'.env = w.env := by
    intro fd w w' b hclose
    obtain ⟨r, w₁, hrun, hr⟩ := bind_eq_ok hclose
    obtain rfl : w' = w₁ := (congrArg Prod.snd hr).symm
    have hframe : Frame Quiet w w' := Frame.of_run (keeps_fclose fun _ _ => ⟨rfl, rfl⟩) hrun
    exact ⟨hframe.sameFiles, hframe.env⟩
  rcases step_some h with hfailed | ⟨w₁, hclose, h⟩
  · exact hclosed hfailed
  · obtain ⟨hsame₁, henv₁⟩ := hclosed hclose
    rcases step_some h with hfailed | ⟨w₂, hclose', h⟩
    · obtain ⟨hsame, henv⟩ := hclosed hfailed
      exact ⟨hsame₁.trans hsame, henv.trans henv₁⟩
    · obtain ⟨hsame₂, henv₂⟩ := hclosed hclose'
      rcases step_some h with hfailed | ⟨w₃, -, h⟩
      · obtain ⟨r, w₃, hrun, hr⟩ := bind_eq_ok hfailed
        have hnot : ¬r ≠ -1 := of_decide_eq_false (Except.ok.inj (congrArg Prod.fst hr))
        obtain rfl : w₃ = w' := congrArg Prod.snd hr
        rcases fsCall_cases _ _ w₂ with ⟨fs, -, -, hok⟩ | ⟨e, -, hok⟩
        · have hzero := hrun.symm.trans hok
          cases hzero
          exact absurd (by decide) hnot
        · have hlast := hrun.symm.trans hok
          cases hlast
          exact ⟨(hsame₁.trans hsame₂).trans ⟨rfl, rfl⟩, henv₂.trans henv₁⟩
      · cases h

theorem sameType_left {s n m : Node} {data : Text} (h : Left w.env uid gid mode s n data m) :
    n.SameType m := by
  cases h with
  | emptied => exact rfl
  | filled k hfile => exact sameType_withData n _
  | changed hfile hmay => exact (sameType_withData n data).trans (sameType_withPerm w.env mode _)
  | handed hfile hroot hother =>
    exact ((sameType_withData n data).trans (sameType_withPerm w.env mode _)).trans
      (sameType_chowned w.env uid gid _)

/-- Once a file has been written, removing the temporary name is all that happens. -/
theorem BothOpen.abandoned {ls lt : Loc} {s n m : Node} {si ti : Nat} {fs : FileSystem}
    (h : BothOpen src dst w ls s si ti fs w₂)
    (hopened : Opened fs (Foundation.route w.os.cwd (tmpName dst)) ti lt n)
    (hwrote : Wrote w₂ ti m w₃) (hleft : Left w.env uid gid mode s n (sourceData si ti s) m)
    (hswept : Swept (tmpName dst) w₃ w')
    (hfiles : w'.os.fs = swept w₃.os.fs (Foundation.route w₃.os.cwd (tmpName dst))) :
    w'.os.cwd = w.os.cwd ∧
      w'.os.fs = (swept fs (Foundation.route w.os.cwd (tmpName dst))).set ti m := by
  have hcwd : w₃.os.cwd = w.os.cwd := hwrote.cwd.trans h.cwd
  refine ⟨hswept.cwd.trans hcwd, ?_⟩
  rw [hfiles, hcwd, hwrote.fs, h.files, swept_set hopened.inode (sameType_left hleft) hopened.link]

/-- A run that fails leaves one of the file systems, if removing the temporary file was not refused. -/
theorem CopyRun.abandoned (hvalid : iposixUidValid w.env.uid = true)
    (h : CopyRun src dst uid gid mode w .error w') (hgranted : UnlinkGranted w') :
    w'.os.cwd = w.os.cwd ∧ Abandoned w src dst uid gid mode w'.os.fs := by
  cases h with
  | tooLong hlen => exact ⟨rfl, .untouched⟩
  | noSource hlen hread =>
    obtain ⟨e, rfl⟩ := sysCall_none hread
    exact ⟨rfl, .untouched⟩
  | @noTemporary fdSrc w₁ w₂ _ hlen hread hwrite herr =>
    obtain ⟨ls, s, si, hne, hres, hopened, rfl, rfl⟩ := fopenRead_ok hread
    obtain ⟨e, rfl⟩ := sysCall_none hwrite
    obtain ⟨w₃, herr', hswept⟩ := copyErr_run (tmpName_ne_nil dst) w.os.streams.length none _
    rw [herr] at herr'
    cases herr'
    refine ⟨hswept.cwd, ?_⟩
    rw [hswept.granted hgranted]
    exact .removed hne hres hopened
  | @notWritten fdSrc fdDst w₁ w₂ w₃ _ message hlen hread hwrite hwritten herr =>
    obtain ⟨rfl, rfl, ls, s, si, ti, fs, hopen⟩ := bothOpen hread hwrite
    obtain ⟨lt, n, hopened⟩ := hopen.tmp_opened
    obtain ⟨_, _, m, hrun, hwrote, hleft, -⟩ := hopen.written hopened hvalid uid gid mode
    rw [hwritten] at hrun
    cases hrun
    obtain ⟨w₄, herr', hswept⟩ := copyErr_run (tmpName_ne_nil dst) w.os.streams.length
      (some (w.os.streams.length + 1)) w₃
    rw [herr] at herr'
    cases herr'
    obtain ⟨hcwd, hfs⟩ := hopen.abandoned hopened hwrote hleft hswept (hswept.granted hgranted)
    refine ⟨hcwd, ?_⟩
    rw [hfs]
    exact .left hopen.src_ne hopen.source hopen.opened hopen.tmp hopened.inode hleft
  | @notRenamed fdSrc fdDst w₁ w₂ w₃ w₄ _ message hlen hread hwrite hwritten hclosing herr =>
    obtain ⟨rfl, rfl, ls, s, si, ti, fs, hopen⟩ := bothOpen hread hwrite
    obtain ⟨lt, n, hopened⟩ := hopen.tmp_opened
    obtain ⟨_, _, m, hrun, hwrote, hleft, -⟩ := hopen.written hopened hvalid uid gid mode
    rw [hwritten] at hrun
    cases hrun
    obtain ⟨⟨hfs, hcwd⟩, henv⟩ := copyClosing_failed hclosing
    have hwrote' : Wrote w₂ ti m w₄ :=
      ⟨henv.trans hwrote.env, hcwd.trans hwrote.cwd, hfs.trans hwrote.fs⟩
    obtain ⟨w₅, herr', hswept⟩ := copyErr_run (tmpName_ne_nil dst) w.os.streams.length
      (some (w.os.streams.length + 1)) w₄
    rw [herr] at herr'
    cases herr'
    obtain ⟨hcwd, hfs⟩ := hopen.abandoned hopened hwrote' hleft hswept (hswept.granted hgranted)
    refine ⟨hcwd, ?_⟩
    rw [hfs]
    exact .left hopen.src_ne hopen.source hopen.opened hopen.tmp hopened.inode hleft

end Sound

/-! ## Each of them is left by some run -/

/-- Single characters are transferred, and only the call at the moment `t` is refused. -/
structure RefusedAt (t : Nat) (env : Env) : Prop where
  chunks : ∀ tick, env.chunks tick = 1
  refused : env.faults t ≠ none
  granted : ∀ tick, tick ≠ t → env.faults tick = none

/-- A copy under way since `w₀`, of which `k` characters have been copied one by one. -/
structure Paced (w₀ : World) (si ti : Nat) (n : Node) (fdSrc fdDst : Handle) (data : Text) (k : Nat)
    (w : World) : Prop where
  copying : Copying w₀ si ti n fdSrc fdDst data k (data.take k) w
  env : w.env = w₀.env
  cwd : w.os.cwd = w₀.os.cwd
  tick : w.tick = w₀.tick + 2 * k

section Rounds

variable {w₀ w : World} {si ti : Nat} {n : Node} {fdSrc fdDst : Handle} {data text : Text} {k t : Nat}

/-- A single character is written at once. -/
theorem Copying.writeOne (hn : w₀.os.fs.inode ti = some n) (c : Char) (hne : fdSrc ≠ fdDst) (hgranted : w.env.faults w.tick = none)
    (h : Copying w₀ si ti n fdSrc fdDst data k text w) :
    ∃ w', Run.loop (Install.writeRound fdDst) (fun _ => crash .diverges) ([c].length + 1) [c] w =
        (.ok none, w') ∧
      Copying w₀ si ti n fdSrc fdDst data k (text ++ [c]) w' ∧ w'.env = w.env ∧
      w'.os.cwd = w.os.cwd ∧ w'.tick = w.tick + 1 := by
  obtain ⟨count, w₁, hwrite, h₁, -⟩ := h.fwrite hn [c] hne
  obtain ⟨s, hs, rfl, -⟩ := h.dst
  rcases fwrite_run [c] hs with ⟨m, -, -, hrun⟩ | ⟨e, he, -⟩
  · rw [hrun] at hwrite
    have hone : w.transfer [c].length = 1 := by
      have hpos : 0 < w.transfer [c].length := transfer_pos (Nat.succ_pos _) w
      have hle : w.transfer [c].length ≤ 1 := Nat.min_le_left _ _
      omega
    rw [hone] at hrun hwrite
    cases hwrite
    have hround : ∀ w₁, Install.fwrite [c] fdDst w = (.ok 1, w₁) →
        Install.writeRound fdDst [c] w = (.ok (.inl []), w₁) := fun w₁ hwrite => by
      unfold Install.writeRound
      rw [if_neg (List.cons_ne_nil c []), bind_ok hwrite, if_neg Nat.one_ne_zero]
      rfl
    exact ⟨_, (loop_continue (hround _ hrun)).trans (loop_return rfl), h₁, rfl, rfl, rfl⟩
  · have hnone := he hgranted
    rw [h.written, FileSystem.inode_set_self hn] at hnone
    cases hnone

variable (hdata : ∃ m, w₀.os.fs.inode si = some m ∧ m.data = data ∧ sIsdir m.stMode = false)
  (hn : w₀.os.fs.inode ti = some n) (hempty : sIsreg n.stMode = true → n.data = [])

include hdata hn hempty

/-- Between the rounds the source is a file with its data. -/
theorem Copying.sourceFile (h : Copying w₀ si ti n fdSrc fdDst data k (data.take k) w) :
    ∃ m, w.os.fs.inode si = some m ∧ m.data = data ∧ sIsdir m.stMode = false := by
  obtain ⟨m, hm, hmdata, hfile⟩ := hdata
  obtain ⟨m', hm', hmdata'⟩ := h.source ⟨m, hm, hmdata⟩ hn hempty
  refine ⟨m', hm', hmdata', ?_⟩
  rw [h.written] at hm'
  by_cases hsame : ti = si
  · subst hsame
    obtain rfl := Option.some.inj (hm.symm.trans hn)
    rw [FileSystem.inode_set_self hn] at hm'
    rw [← Option.some.inj hm', (sameType_withData m _).isdir, hfile]
  · rw [FileSystem.inode_set_ne hsame, hm] at hm'
    rw [← Option.some.inj hm']
    exact hfile

/-- A read that is not refused gives the next character, or says that there is none. -/
theorem Paced.fread (hone : w.env.chunks w.tick = 1) (hne : fdSrc ≠ fdDst)
    (hgranted : w.env.faults w.tick = none)
    (h : Paced w₀ si ti n fdSrc fdDst data k w) :
    ∃ w', Install.fread fdSrc 65536 w = (.ok ((data.drop k).take 1), w') ∧
      Copying w₀ si ti n fdSrc fdDst data (k + ((data.drop k).take 1).length) (data.take k) w' ∧
      (∃ s, w'.os.streams[fdSrc]? = some s ∧ ((data.drop k).take 1 = [] → s.eof = true)) ∧
      w'.env = w.env ∧ w'.os.cwd = w.os.cwd ∧ w'.tick = w.tick + 1 := by
  obtain ⟨m, hm, rfl, hfile⟩ := h.copying.sourceFile hdata hn hempty
  obtain ⟨m₀, hm₀, hdata₀, -⟩ := hdata
  obtain ⟨block, w₁, hread, h₁, -⟩ :=
    h.copying.fread ⟨m₀, hm₀, hdata₀⟩ hn hempty (by decide : 0 < 65536) hne
  obtain ⟨s, hs, rfl, rfl, -⟩ := h.copying.src
  rcases fread_run 65536 hs with ⟨m', -, hm', -, hrun⟩ | ⟨e, he, -⟩
  · obtain rfl := Option.some.inj (hm.symm.trans hm')
    have htransfer : w.transfer 65536 = 1 := by
      unfold World.transfer
      rw [hone]
      decide
    have hblock : w.block s m 65536 = (m.data.drop s.pos).take 1 := by
      rw [World.block, htransfer]
    have hlt : fdSrc < w.os.streams.length := (List.getElem?_eq_some_iff.mp hs).1
    rw [hrun] at hread
    cases hread
    rw [hblock] at h₁
    refine ⟨_, by rw [hrun, hblock], h₁, ⟨_, List.getElem?_set_self hlt, fun hnil => ?_⟩, rfl, rfl, rfl⟩
    exact readOn_eof (by decide) (hblock.trans hnil)
  · rw [he hgranted m hm] at hfile
    cases hfile

/-- A round copies the next character. -/
theorem Paced.copyRound (hone : w.env.chunks w.tick = 1) (hne : fdSrc ≠ fdDst)
    (hgranted : w.env.faults w.tick = none ∧ w.env.faults (w.tick + 1) = none) (hk : k < data.length)
    (h : Paced w₀ si ti n fdSrc fdDst data k w) :
    ∃ w', Install.copyRound fdSrc fdDst () w = (.ok (.inl ()), w') ∧
      Paced w₀ si ti n fdSrc fdDst data (k + 1) w' := by
  obtain ⟨w₁, hread, h₁, -, henv₁, hcwd₁, htick₁⟩ := h.fread hdata hn hempty hone hne hgranted.1
  have hblock : (data.drop k).take 1 = [data[k]] := by
    rw [List.drop_eq_getElem_cons hk]
    rfl
  rw [hblock] at hread h₁
  have hgranted₁ : w₁.env.faults w₁.tick = none := by
    rw [henv₁, htick₁]
    exact hgranted.2
  obtain ⟨w₂, hwrite, h₂, henv₂, hcwd₂, htick₂⟩ := h₁.writeOne hn data[k] hne hgranted₁
  refine ⟨w₂, ?_, ⟨?_, by rw [henv₂, henv₁, h.env], by rw [hcwd₂, hcwd₁, h.cwd], ?_⟩⟩
  · unfold Install.copyRound
    rw [bind_ok hread, if_neg (List.cons_ne_nil _ _), bind_ok hwrite]
    rfl
  · rw [List.take_concat_get' _ _ hk] at h₂
    exact h₂
  · have htick := h.tick
    omega

/-- The copy loop ends as its round after `k` characters does. -/
theorem Paced.copyLoop {post : Option String → World → Prop} (henv : RefusedAt t w₀.env)
    (hne : fdSrc ≠ fdDst) (hstart : Paced w₀ si ti n fdSrc fdDst data 0 w₀) (hk : k ≤ data.length)
    (hbefore : w₀.tick + 2 * k ≤ t)
    (hlast : ∀ w, Paced w₀ si ti n fdSrc fdDst data k w →
      ∃ message w', Install.copyRound fdSrc fdDst () w = (.ok (.inr message), w') ∧ post message w') :
    ∃ message w', Install.copyLoop fdSrc fdDst w₀ = (.ok message, w') ∧ post message w' := by
  have hrounds : ∃ r w', Run.loop (Install.copyRound fdSrc fdDst) (fun _ => crash .diverges)
      (data.length + 2) () w₀ = (r, w') ∧ ∃ message, r = .ok message ∧ post message w' := by
    refine loop_spec (fun j _ w => Paced w₀ si ti n fdSrc fdDst data j w)
      (fun r w => ∃ message, r = .ok message ∧ post message w) k ?_ ?_ (by omega) hstart
    · intro j b w hj hpaced
      have htick := hpaced.tick
      obtain ⟨w', hround, hpaced'⟩ := hpaced.copyRound hdata hn hempty
        (by rw [hpaced.env]; exact henv.chunks _) hne
        (by rw [hpaced.env]; exact ⟨henv.granted _ (by omega), henv.granted _ (by omega)⟩) (by omega)
      exact ⟨(), w', hround, hpaced'⟩
    · intro b w hpaced
      obtain ⟨message, w', hround, hpost⟩ := hlast w hpaced
      exact Or.inl ⟨message, w', hround, message, rfl, hpost⟩
  obtain ⟨_, w', hrun, message, rfl, hpost⟩ := hrounds
  obtain ⟨m, hm, hmdata, -⟩ := hdata
  refine ⟨message, w', ?_, hpost⟩
  unfold Install.copyLoop
  rw [bind_ok (hstart.copying.fileLength ⟨m, hm, hmdata⟩ hn hempty)]
  exact hrun

/-- A read that is refused leaves what has been copied so far. -/
theorem Paced.copyLoop_stopped (henv : RefusedAt (w₀.tick + 2 * k) w₀.env) (hne : fdSrc ≠ fdDst)
    (hstart : Paced w₀ si ti n fdSrc fdDst data 0 w₀) (hk : k < data.length) :
    ∃ w', Install.copyLoop fdSrc fdDst w₀ = (.ok (some "read error"), w') ∧
      Wrote w₀ ti (n.withData (data.take k)) w' ∧ w₀.tick + 2 * k ≤ w'.tick := by
  have hlast : ∀ w, Paced w₀ si ti n fdSrc fdDst data k w →
      ∃ message w', Install.copyRound fdSrc fdDst () w = (.ok (.inr message), w') ∧
        message = some "read error" ∧ Wrote w₀ ti (n.withData (data.take k)) w' ∧
        w₀.tick + 2 * k ≤ w'.tick := by
    intro w h
    obtain ⟨s, hs, -, -, heof⟩ := h.copying.src
    have hopen : s.eof = false := by
      by_contra hend
      exact absurd (heof (by simpa using hend)) (Nat.not_le_of_lt hk)
    have hlt : fdSrc < w.os.streams.length := (List.getElem?_eq_some_iff.mp hs).1
    rcases fread_run 65536 hs with ⟨m, hgranted, -⟩ | ⟨e, -, hread⟩
    · rw [h.env, h.tick] at hgranted
      exact absurd hgranted henv.refused
    · refine ⟨_, _, copyRound_unread hread (List.getElem?_set_self hlt) hopen rfl, rfl, ?_, ?_⟩
      · exact ⟨h.env, h.cwd, h.copying.written⟩
      · show w₀.tick + 2 * k ≤ w.tick + 1
        have htick := h.tick
        omega
  obtain ⟨message, w', hrun, rfl, hwrote, hlater⟩ := hstart.copyLoop hdata hn hempty henv hne
    (Nat.le_of_lt hk) (Nat.le_refl _) hlast
  exact ⟨w', hrun, hwrote, hlater⟩

/-- If nothing is refused before, all is copied. -/
theorem Paced.copyLoop_done (henv : RefusedAt t w₀.env) (hne : fdSrc ≠ fdDst)
    (hstart : Paced w₀ si ti n fdSrc fdDst data 0 w₀) (hbefore : w₀.tick + 2 * data.length < t) :
    ∃ w', Install.copyLoop fdSrc fdDst w₀ = (.ok none, w') ∧
      Wrote w₀ ti (n.withData data) w' ∧ w'.tick = w₀.tick + 2 * data.length + 1 := by
  have hlast : ∀ w, Paced w₀ si ti n fdSrc fdDst data data.length w →
      ∃ message w', Install.copyRound fdSrc fdDst () w = (.ok (.inr message), w') ∧
        message = none ∧ Wrote w₀ ti (n.withData data) w' ∧
        w'.tick = w₀.tick + 2 * data.length + 1 := by
    intro w h
    have htick := h.tick
    obtain ⟨w', hread, hcopied, ⟨s, hs, heof⟩, henv', hcwd', htick'⟩ := h.fread hdata hn hempty
      (by rw [h.env]; exact henv.chunks _) hne (by rw [h.env]; exact henv.granted _ (by omega))
    have hnil : (data.drop data.length).take 1 = [] := by rw [List.drop_length, List.take_nil]
    rw [hnil] at hread
    refine ⟨none, w', ?_, rfl, ⟨henv'.trans h.env, hcwd'.trans h.cwd, ?_⟩, by omega⟩
    · unfold Install.copyRound
      rw [bind_ok hread, if_pos rfl, bind_ok (feof_apply hs), if_pos (heof hnil)]
      rfl
    · rw [hcopied.written, List.take_length]
  obtain ⟨message, w', hrun, rfl, hwrote, htick⟩ := hstart.copyLoop hdata hn hempty henv hne
    (Nat.le_refl _) (Nat.le_of_lt hbefore) hlast
  exact ⟨w', hrun, hwrote, htick⟩

end Rounds

/-- The steps end with a message at the moment `t` or later, and leave the file `ti` as `m`. -/
def StopsWith (dst : Text) (uid gid : Id) (mode : Mode) (fdSrc fdDst : Handle) (ti : Nat) (m : Node)
    (t : Nat) (w : World) : Prop :=
  ∃ message w', copySteps dst (tmpName dst) w.env.uid uid gid mode fdSrc fdDst w =
    (.ok (some message), w') ∧ Wrote w ti m w' ∧ t ≤ w'.tick

section Stops

variable {w w₁ w₂ w' : World} {src dst : Text} {uid gid : Id} {mode : Mode} {ls lt : Loc} {s n m : Node}
  {si ti : Nat} {fs : FileSystem} {fdSrc fdDst : Handle} {t : Nat}

theorem Wrote.passed {w₀ : World} {i : Nat} (h : Wrote w₀ i n w) (hp : Passed w w') : Wrote w₀ i n w' :=
  ⟨hp.env.trans h.env, hp.cwd.trans h.cwd, hp.fs.trans h.fs⟩

theorem copyClosing_refused (tmp : Text) (fdSrc : Handle) (h : w.env.faults w.tick ≠ none) :
    ∃ w', copyClosing dst tmp fdSrc fdDst w = (.ok (some "could not close destination file"), w') ∧
      Passed w w' := by
  obtain ⟨w', hclose, hpassed⟩ := fclose_passed fdDst w
  rw [if_neg h] at hclose
  exact ⟨w', step_false (condition_apply (p := fun r : Int => r ≠ -1) hclose (by decide)), hpassed⟩

theorem BothOpen.sourceFile (h : BothOpen src dst w ls s si ti fs w₂) (hfile : sIsdir s.stMode = false) :
    ∃ m, w₂.os.fs.inode si = some m ∧ m.data = sourceData si ti s ∧ sIsdir m.stMode = false := by
  obtain ⟨m, hm, hdata, htype⟩ := h.source_emptied
  rw [h.files]
  exact ⟨m, hm, hdata, htype.trans hfile⟩

section Opened

variable (h : BothOpen src dst w ls s si ti fs w₂)
  (hopened : Opened fs (Foundation.route w.os.cwd (tmpName dst)) ti lt n)

include h hopened

theorem BothOpen.tmp_inode : w₂.os.fs.inode ti = some n := by
  rw [h.files]
  exact hopened.inode

theorem BothOpen.unwritten : Wrote w₂ ti n w₂ :=
  ⟨rfl, rfl, (FileSystem.set_self (h.tmp_inode hopened)).symm⟩

theorem BothOpen.paced :
    Paced w₂ si ti n w.os.streams.length (w.os.streams.length + 1) (sourceData si ti s) 0 w₂ := by
  refine ⟨⟨?_, ⟨_, h.stream_src, rfl, rfl, nofun⟩, ⟨_, h.stream_dst, rfl, rfl⟩⟩, rfl, rfl, rfl⟩
  rw [List.take_zero, withData_nil hopened.empty]
  exact (h.unwritten hopened).fs

/-- The first read is refused. -/
theorem BothOpen.stops_emptied
    (henv : RefusedAt (w.tick + 2) w.env) (uid gid : Id) (mode : Mode) :
    StopsWith dst uid gid mode w.os.streams.length (w.os.streams.length + 1) ti n
      (w.tick + 2) w₂ := by
  have hlen : ∃ len, fileLength w.os.streams.length w₂ = (.ok len, w₂) := by
    rw [fileLength, bind_ok (stream_apply h.stream_src), get_bind_apply]
    exact ⟨_, rfl⟩
  obtain ⟨len, hlen⟩ := hlen
  have hlt := (List.getElem?_eq_some_iff.mp h.stream_src).1
  rcases fread_run 65536 h.stream_src with ⟨m, hgranted, -⟩ | ⟨e, -, hread⟩
  · rw [h.env, h.tick] at hgranted
    exact absurd hgranted henv.refused
  · have hround := @copyRound_unread w₂ _ _ (w.os.streams.length + 1) _ hread
      (List.getElem?_set_self hlt) rfl rfl
    refine ⟨_, _, bind_ok (copyLoop_return hlen hround), ⟨rfl, rfl, (h.unwritten hopened).fs⟩, ?_⟩
    show w.tick + 2 ≤ w₂.tick + 1
    rw [h.tick]
    exact Nat.le_succ _

/-- A later read is refused. -/
theorem BothOpen.stops_filled (hfile : sIsdir s.stMode = false)
    {k : Nat} (hk : k < (sourceData si ti s).length) (henv : RefusedAt (w.tick + 2 + 2 * k) w.env)
    (uid gid : Id) (mode : Mode) :
    StopsWith dst uid gid mode w.os.streams.length (w.os.streams.length + 1) ti
      (n.withData ((sourceData si ti s).take k)) (w.tick + 2 + 2 * k) w₂ := by
  rw [← h.env, ← h.tick] at henv
  obtain ⟨w', hloop, hwrote, hlater⟩ := (h.paced hopened).copyLoop_stopped (h.sourceFile hfile)
    (h.tmp_inode hopened) hopened.empty henv
    (Nat.ne_of_lt (Nat.lt_succ_self _)) hk
  exact ⟨_, w', bind_ok hloop, hwrote, by rw [← h.tick]; exact hlater⟩

/-- All has been copied, if nothing is refused before. -/
theorem BothOpen.loop_done (hfile : sIsdir s.stMode = false)
    (henv : RefusedAt t w.env) (ht : w.tick + 2 + 2 * (sourceData si ti s).length < t) :
    ∃ w', copyLoop w.os.streams.length (w.os.streams.length + 1) w₂ = (.ok none, w') ∧
      Wrote w₂ ti (n.withData (sourceData si ti s)) w' ∧
      w'.tick = w.tick + 3 + 2 * (sourceData si ti s).length := by
  rw [← h.env] at henv
  obtain ⟨w', hloop, hwrote, htick⟩ := (h.paced hopened).copyLoop_done (h.sourceFile hfile)
    (h.tmp_inode hopened) hopened.empty henv
    (Nat.ne_of_lt (Nat.lt_succ_self _)) (by rw [h.tick]; exact ht)
  refine ⟨w', hloop, hwrote, ?_⟩
  rw [htick, h.tick]
  omega

/-- The `fflush` is refused. -/
theorem BothOpen.stops_flushing (hfile : sIsdir s.stMode = false)
    (henv : RefusedAt (w.tick + 3 + 2 * (sourceData si ti s).length) w.env) (uid gid : Id) (mode : Mode) :
    StopsWith dst uid gid mode w.os.streams.length (w.os.streams.length + 1) ti
      (n.withData (sourceData si ti s)) (w.tick + 3 + 2 * (sourceData si ti s).length) w₂ := by
  obtain ⟨w₁, hloop, hwrote, htick⟩ := h.loop_done hopened hfile henv (by omega)
  obtain ⟨w', hflush, hpassed⟩ := fflush_passed (w.os.streams.length + 1) w₁
  rw [hwrote.env, h.env, htick, if_neg henv.refused] at hflush
  refine ⟨"write error", w', (bind_ok hloop).trans ?_, hwrote.passed hpassed, ?_⟩
  · exact step_false (condition_apply (p := fun r : Int => r = 0) hflush (by decide))
  · rw [hpassed.tick, htick]
    exact Nat.le_succ _

/-- The mode has been set, if nothing is refused before. -/
theorem BothOpen.mode_set (hfile : sIsdir s.stMode = false)
    (hmay : MayChange w.env n) (henv : RefusedAt t w.env)
    (ht : w.tick + 5 + 2 * (sourceData si ti s).length ≤ t) (uid gid : Id) (mode : Mode) :
    ∃ w', copySteps dst (tmpName dst) w₂.env.uid uid gid mode w.os.streams.length
        (w.os.streams.length + 1) w₂ =
          copyOwnership (tmpName dst) w₂.env.uid uid gid (copyClosing dst (tmpName dst)
            w.os.streams.length (w.os.streams.length + 1)) w' ∧
      Wrote w₂ ti (w.env.withPerm mode (n.withData (sourceData si ti s))) w' ∧
      w'.os.fs.resolve (Foundation.route w'.os.cwd (tmpName dst)) =
        .ok (lt, some (w.env.withPerm mode (n.withData (sourceData si ti s)))) ∧
      w'.os.fs.ino lt = some ti ∧ w'.tick = w.tick + 5 + 2 * (sourceData si ti s).length := by
  have hopened₂ := hopened
  rw [← h.files, ← h.cwd] at hopened₂
  obtain ⟨w₁, hloop, hwrote₁, htick₁⟩ := h.loop_done hopened hfile henv (by omega)
  obtain ⟨w₃, hflush, hpassed⟩ := fflush_passed (w.os.streams.length + 1) w₁
  rw [hwrote₁.env, h.env, if_pos (henv.granted _ (by omega))] at hflush
  have hwrote := hwrote₁.passed hpassed
  obtain ⟨hres₃, hino₃⟩ := hwrote.opened hopened₂ (sameType_withData n (sourceData si ti s))
  rw [← hwrote.cwd] at hres₃
  have hmodes : iposixSupportsPosixModes = 1 := rfl
  rcases iposixFileModeSet_run mode (tmpName_ne_nil dst) hres₃ hino₃ with ⟨-, -, hchmod⟩ | ⟨e, he, -⟩
  · rw [hwrote.env, h.env] at hchmod
    have hwrote' := hwrote.set (.chmod (tmpName dst) mode)
      (w.env.withPerm mode (n.withData (sourceData si ti s)))
    have htype' := (sameType_withData n (sourceData si ti s)).trans (sameType_withPerm w.env mode _)
    obtain ⟨hres', hino'⟩ := hwrote'.opened hopened₂ htype'
    refine ⟨_, ?_, hwrote', ?_, hino', ?_⟩
    · refine (bind_ok hloop).trans ?_
      dsimp only
      rw [step_true (condition_apply (p := fun r : Int => r = 0) hflush (by decide)), if_pos hmodes,
        step_true (condition_apply (p := fun r : Int => r ≠ 0) hchmod (by decide))]
      rfl
    · rw [hwrote'.cwd]
      exact hres'
    · show w₃.tick + 1 = _
      rw [hpassed.tick, htick₁]
      omega
  · rw [hwrote.env, h.env, hpassed.tick, htick₁, henv.granted _ (by omega), MayChange,
      stUid_withData n (sourceData si ti s)] at he
    exact absurd hmay (he.resolve_left (fun hnone => hnone rfl))

/-- What comes after `chmod` is refused. -/
theorem BothOpen.stops_changed (hfile : sIsdir s.stMode = false)
    (hvalid : iposixUidValid w.env.uid = true) (hmay : MayChange w.env n)
    (henv : RefusedAt (w.tick + 5 + 2 * (sourceData si ti s).length) w.env) (uid gid : Id) (mode : Mode) :
    StopsWith dst uid gid mode w.os.streams.length (w.os.streams.length + 1) ti
      (w.env.withPerm mode (n.withData (sourceData si ti s)))
      (w.tick + 5 + 2 * (sourceData si ti s).length) w₂ := by
  obtain ⟨w₁, hsteps, hwrote, hres, hino, htick⟩ := h.mode_set hopened hfile hmay henv (Nat.le_refl _) uid gid mode
  have hrefused : w₁.env.faults w₁.tick ≠ none := by
    rw [hwrote.env, h.env, htick]
    exact henv.refused
  rw [copyOwnership_apply (by rw [h.env]; exact hvalid)] at hsteps
  by_cases hsame : w₂.env.uid = uid
  · obtain ⟨w', hclose, hpassed⟩ := @copyClosing_refused w₁ dst (w.os.streams.length + 1) (tmpName dst)
      w.os.streams.length hrefused
    rw [if_pos hsame, hclose] at hsteps
    refine ⟨_, w', hsteps, hwrote.passed hpassed, ?_⟩
    rw [hpassed.tick, htick]
    exact Nat.le_succ _
  · rw [if_neg hsame] at hsteps
    by_cases hroot : w₂.env.uid = 0
    · rw [if_pos hroot] at hsteps
      rcases iposixFileOwnershipSet_run uid gid (tmpName_ne_nil dst) hres hino
        (by rw [hwrote.env]; exact hroot) with ⟨hgranted, -⟩ | ⟨e, -, hchown⟩
      · exact absurd hgranted hrefused
      · rw [step_false (condition_apply (p := fun r : Int => r ≠ 0) hchown (by decide))] at hsteps
        refine ⟨_, _, hsteps, ⟨hwrote.env, hwrote.cwd, hwrote.fs⟩, ?_⟩
        show _ ≤ w₁.tick + 1
        rw [htick]
        exact Nat.le_succ _
    · rw [if_neg hroot] at hsteps
      exact ⟨_, w₁, hsteps, hwrote, Nat.le_of_eq htick.symm⟩

/-- The first `fclose` is refused, after `chown`. -/
theorem BothOpen.stops_handed (hfile : sIsdir s.stMode = false)
    (hvalid : iposixUidValid w.env.uid = true) (hroot : w.env.uid = 0) (hother : w.env.uid ≠ uid)
    (henv : RefusedAt (w.tick + 6 + 2 * (sourceData si ti s).length) w.env) (gid : Id) (mode : Mode) :
    StopsWith dst uid gid mode w.os.streams.length (w.os.streams.length + 1) ti
      (w.env.chowned uid gid (w.env.withPerm mode (n.withData (sourceData si ti s))))
      (w.tick + 6 + 2 * (sourceData si ti s).length) w₂ := by
  obtain ⟨w₁, hsteps, hwrote, hres, hino, htick⟩ := h.mode_set hopened hfile (Or.inl hroot) henv (by omega) uid gid mode
  rw [copyOwnership_apply (by rw [h.env]; exact hvalid), if_neg (by rw [h.env]; exact hother),
    if_pos (by rw [h.env]; exact hroot)] at hsteps
  obtain ⟨w₃, hchown, hwrote₃, htick₃⟩ : ∃ w₃,
      iposixFileOwnershipSet (tmpName dst) uid gid w₁ = (.ok 1, w₃) ∧
        Wrote w₂ ti (w.env.chowned uid gid (w.env.withPerm mode (n.withData (sourceData si ti s)))) w₃ ∧
        w₃.tick = w₁.tick + 1 := by
    rcases iposixFileOwnershipSet_run uid gid (tmpName_ne_nil dst) hres hino
      (by rw [hwrote.env, h.env]; exact hroot) with ⟨-, hchown⟩ | ⟨e, hrefused, -⟩
    · rw [hwrote.env, h.env] at hchown
      exact ⟨_, hchown, hwrote.set _ _, rfl⟩
    · rw [hwrote.env, h.env, htick] at hrefused
      exact absurd (henv.granted _ (by omega)) hrefused
  have hmoment : w₃.tick = w.tick + 6 + 2 * (sourceData si ti s).length := by omega
  obtain ⟨w', hclose, hpassed⟩ := @copyClosing_refused w₃ dst (w.os.streams.length + 1) (tmpName dst)
    w.os.streams.length (by rw [hwrote₃.env, h.env, hmoment]; exact henv.refused)
  rw [step_true (condition_apply (p := fun r : Int => r ≠ 0) hchown (by decide)), hclose] at hsteps
  refine ⟨_, w', hsteps, hwrote₃.passed hpassed, ?_⟩
  rw [hpassed.tick, hmoment]
  exact Nat.le_succ _

end Opened

end Stops

/-- The same world where the calls fare otherwise. -/
def World.faring (w : World) (faults : Nat → Option Errno) (chunks : Nat → Nat) : World :=
  { w with env := { w.env with faults := faults, chunks := chunks } }

/-- However its calls fare, a run from `w` may fail and end in `w'`. If it removes the temporary name, that
is not refused. -/
def FailsWith (w : World) (src dst : Text) (uid gid : Id) (mode : Mode) (w' : World) : Prop :=
  ∃ faults chunks status, installFileCopy src dst uid gid mode (w.faring faults chunks) =
    (.ok status, w') ∧ status.status = .error ∧ UnlinkGranted w'

section Complete

variable {w w' : World} {src dst : Text} {uid gid : Id} {mode : Mode} {ls lt : Loc} {s n m : Node}
  {si ti : Nat} {faults : Nat → Option Errno} {chunks : Nat → Nat} {fs : FileSystem} {t : Nat}

/-- What may be left does not depend on how calls fare. -/
theorem left_faring {data : Text} :
    Left (w.faring faults chunks).env uid gid mode s n data m ↔ Left w.env uid gid mode s n data m := by
  constructor
  · intro h
    cases h with
    | emptied => exact .emptied
    | filled k hfile => exact .filled k hfile
    | changed hfile hmay => exact .changed hfile hmay
    | handed hfile hroot hother => exact .handed hfile hroot hother
  · intro h
    cases h with
    | emptied => exact .emptied
    | filled k hfile => exact .filled k hfile
    | changed hfile hmay => exact .changed hfile hmay
    | handed hfile hroot hother => exact .handed hfile hroot hother

theorem abandoned_faring (h : Abandoned (w.faring faults chunks) src dst uid gid mode fs) :
    Abandoned w src dst uid gid mode fs := by
  cases h with
  | untouched => exact .untouched
  | removed hne hsrc hopened => exact .removed hne hsrc hopened
  | left hne hsrc hopened htmp hn hleft => exact .left hne hsrc hopened htmp hn (left_faring.mp hleft)

theorem FailsWith.abandoned (hvalid : iposixUidValid w.env.uid = true)
    (h : FailsWith w src dst uid gid mode w') :
    w'.os.cwd = w.os.cwd ∧ Abandoned w src dst uid gid mode w'.os.fs := by
  obtain ⟨faults, chunks, status, hrun, herror, hgranted⟩ := h
  obtain ⟨status', w₁, hrun', hway⟩ :=
    installFileCopy_run (w := w.faring faults chunks) hvalid src dst uid gid mode
  rw [hrun] at hrun'
  cases hrun'
  rw [herror] at hway
  obtain ⟨hcwd, hfs⟩ := CopyRun.abandoned (w := w.faring faults chunks) hvalid hway hgranted
  exact ⟨hcwd, abandoned_faring hfs⟩

/-- A run that cannot open the source changes nothing. -/
theorem fails_unopened (henv : RefusedAt w.tick w.env) (hvalid : iposixUidValid w.env.uid = true)
    (hlen : dst.length + 4 ≤ intMax) (src : Text) (uid gid : Id) (mode : Mode) :
    ∃ status w', installFileCopy src dst uid gid mode w = (.ok status, w') ∧ status.status = .error ∧
      UnlinkGranted w' ∧ w'.os = w.os := by
  obtain ⟨e, he⟩ := Option.ne_none_iff_exists'.mp henv.refused
  have hread := fopenRead_fault src he
  refine ⟨_, _, (installFileCopy_opened hvalid hlen hread).trans (statusError_apply _ _), rfl, ?_, rfl⟩
  intro path cwd ok hlast
  rw [World.log_withErrno, World.log_record, List.getLast?_concat] at hlast
  cases hlast

/-- A run that cannot open the temporary file removes its name. -/
theorem fails_unwritten (henv : RefusedAt (w.tick + 1) w.env) (hvalid : iposixUidValid w.env.uid = true)
    (hlen : dst.length + 4 ≤ intMax) (hne : src ≠ [])
    (hsrc : w.os.fs.resolve (Foundation.route w.os.cwd src) = .ok (ls, some s))
    (hopened : w.opened ls s = .ok si) (uid gid : Id) (mode : Mode) :
    ∃ status w', installFileCopy src dst uid gid mode w = (.ok status, w') ∧ status.status = .error ∧
      UnlinkGranted w' ∧ w'.os.cwd = w.os.cwd ∧
        w'.os.fs = swept w.os.fs (Foundation.route w.os.cwd (tmpName dst)) := by
  obtain ⟨e, he⟩ := Option.ne_none_iff_exists'.mp henv.refused
  have hread := fopenRead_found (henv.granted w.tick (Nat.ne_of_lt (Nat.lt_succ_self _))) hne hsrc hopened
  have hwrite := fopenWrite_fault (w := (w.record (.fopenRead src) true).withOs (openStream w.os si).2)
    (tmpName dst) he
  obtain ⟨w', herr, hswept⟩ := copyErr_run (tmpName_ne_nil dst) w.os.streams.length none
    ((((w.record (.fopenRead src) true).withOs (openStream w.os si).2).record
      (.fopenWrite (tmpName dst)) false).withErrno e)
  have hgranted : UnlinkGranted w' := by
    intro path cwd ok _
    have hafter : w.tick + 3 < w'.tick := hswept.later
    rw [hswept.env]
    exact henv.granted _ (by omega)
  exact ⟨_, w', installFileCopy_noTemporary hvalid hlen hread hwrite herr, rfl, hgranted, hswept.cwd,
    hswept.granted hgranted⟩

/-- A run whose steps stop leaves what they have written, without the temporary name. -/
theorem fails_of_stops (henv : RefusedAt t w.env) (ht : w.tick + 2 ≤ t)
    (hvalid : iposixUidValid w.env.uid = true) (hlen : dst.length + 4 ≤ intMax) (hne : src ≠ [])
    (hsrc : w.os.fs.resolve (Foundation.route w.os.cwd src) = .ok (ls, some s))
    (hopened : w.opened ls s = .ok si)
    (htmp : w.emptied (Foundation.route w.os.cwd (tmpName dst)) = .ok (ti, fs))
    (htopened : Opened fs (Foundation.route w.os.cwd (tmpName dst)) ti lt n)
    (hleft : Left w.env uid gid mode s n (sourceData si ti s) m)
    (hstops : ∀ w₂, BothOpen src dst w ls s si ti fs w₂ →
      StopsWith dst uid gid mode w.os.streams.length (w.os.streams.length + 1) ti m t w₂) :
    ∃ status w', installFileCopy src dst uid gid mode w = (.ok status, w') ∧ status.status = .error ∧
      UnlinkGranted w' ∧ w'.os.cwd = w.os.cwd ∧
        w'.os.fs = (swept fs (Foundation.route w.os.cwd (tmpName dst))).set ti m := by
  have hread := fopenRead_found (henv.granted w.tick (by omega)) hne hsrc hopened
  have hwrite := fopenWrite_found
    (w := (w.record (.fopenRead src) true).withOs (openStream w.os si).2)
    (henv.granted (w.tick + 1) (by omega)) (tmpName_ne_nil dst) htmp
  obtain ⟨-, hhandle, ls', s', si', ti', fs', hopen⟩ := bothOpen hread hwrite
  have hsrc' := hopen.source
  rw [hsrc] at hsrc'
  cases hsrc'
  have hopened' := hopen.opened
  rw [hopened] at hopened'
  cases hopened'
  have htmp' := hopen.tmp
  rw [htmp] at htmp'
  cases htmp'
  obtain ⟨message, w₃, hsteps, hwrote, hlater⟩ := hstops _ hopen
  obtain ⟨w', herr, hswept⟩ := copyErr_run (tmpName_ne_nil dst) w.os.streams.length
    (some (w.os.streams.length + 1)) w₃
  have hgranted : UnlinkGranted w' := by
    intro path cwd ok hlast
    rw [hswept.env, hwrote.env, hopen.env]
    have hafter := hswept.later
    exact henv.granted _ (by omega)
  obtain ⟨hcwd, hfs⟩ := hopen.abandoned htopened hwrote hleft hswept (hswept.granted hgranted)
  rw [hhandle] at hwrite
  exact ⟨_, w', installFileCopy_failed hvalid hlen hread hwrite hsteps herr, rfl, hgranted, hcwd, hfs⟩

/-- The call at the moment `t` is refused. -/
def refusedAt (t : Nat) : Nat → Option Errno := fun tick => if tick = t then some eperm else none

theorem refusedAt_faring (w : World) (t : Nat) :
    RefusedAt t (w.faring (refusedAt t) fun _ => 1).env := by
  refine ⟨fun _ => rfl, ?_, fun tick hne => if_neg hne⟩
  show refusedAt t t ≠ none
  rw [refusedAt, if_pos rfl]
  exact Option.some_ne_none eperm

/-- Each of the file systems is left by some run. -/
theorem Abandoned.fails (hvalid : iposixUidValid w.env.uid = true) (hlen : dst.length + 4 ≤ intMax)
    (h : Abandoned w src dst uid gid mode fs) :
    ∃ w', FailsWith w src dst uid gid mode w' ∧ w'.os.cwd = w.os.cwd ∧ w'.os.fs = fs := by
  cases h with
  | untouched =>
    obtain ⟨status, w', hrun, herror, hgranted, hos⟩ :=
      fails_unopened (w := w.faring (refusedAt w.tick) fun _ => 1) (refusedAt_faring w w.tick) hvalid
        hlen src uid gid mode
    exact ⟨w', ⟨_, _, status, hrun, herror, hgranted⟩, congrArg Os.cwd hos, congrArg Os.fs hos⟩
  | removed hne hsrc hopened =>
    obtain ⟨status, w', hrun, herror, hgranted, hcwd, hfs⟩ :=
      fails_unwritten (w := w.faring (refusedAt (w.tick + 1)) fun _ => 1)
        (refusedAt_faring w (w.tick + 1)) hvalid hlen hne hsrc hopened uid gid mode
    exact ⟨w', ⟨_, _, status, hrun, herror, hgranted⟩, hcwd, hfs⟩
  | @left ls s si ti fs n m hne hsrc hopened htmp hn hleft =>
    obtain ⟨lt, n', htopened⟩ := emptied_opened (route_ne_nil _ _) htmp
    obtain rfl := Option.some.inj (hn.symm.trans htopened.inode)
    have hreach : ∃ t, w.tick + 2 ≤ t ∧ ∀ w₂,
        BothOpen src dst (w.faring (refusedAt t) fun _ => 1) ls s si ti fs w₂ →
          StopsWith dst uid gid mode w.os.streams.length (w.os.streams.length + 1) ti m t w₂ := by
      cases hleft with
      | emptied =>
        exact ⟨w.tick + 2, Nat.le_refl _, fun w₂ hopen =>
          hopen.stops_emptied htopened (refusedAt_faring w _) uid gid mode⟩
      | filled k hfile =>
        by_cases hk : k < (sourceData si ti s).length
        · exact ⟨w.tick + 2 + 2 * k, by omega, fun w₂ hopen =>
            hopen.stops_filled htopened hfile hk (refusedAt_faring w _) uid gid mode⟩
        · rw [List.take_of_length_le (Nat.le_of_not_lt hk)]
          exact ⟨w.tick + 3 + 2 * (sourceData si ti s).length, by omega, fun w₂ hopen =>
            hopen.stops_flushing htopened hfile (refusedAt_faring w _) uid gid mode⟩
      | changed hfile hmay =>
        exact ⟨w.tick + 5 + 2 * (sourceData si ti s).length, by omega, fun w₂ hopen =>
          hopen.stops_changed htopened hfile hvalid hmay (refusedAt_faring w _) uid gid mode⟩
      | handed hfile hroot hother =>
        exact ⟨w.tick + 6 + 2 * (sourceData si ti s).length, by omega, fun w₂ hopen =>
          hopen.stops_handed htopened hfile hvalid hroot hother (refusedAt_faring w _) gid mode⟩
    obtain ⟨t, ht, hstops⟩ := hreach
    obtain ⟨status, w', hrun, herror, hgranted, hcwd, hfs⟩ :=
      fails_of_stops (w := w.faring (refusedAt t) fun _ => 1) (refusedAt_faring w t) ht hvalid hlen hne
        hsrc hopened htmp htopened (left_faring.mpr hleft) hstops
    exact ⟨w', ⟨_, _, status, hrun, herror, hgranted⟩, hcwd, hfs⟩

end Complete

end CStringVerified.Install
