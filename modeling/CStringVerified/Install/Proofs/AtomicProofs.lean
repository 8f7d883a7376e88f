import CStringVerified.Install.Proofs.AbandonedProofs
import CStringVerified.Install.Proofs.InstallProofs

/-!
# Whether `install_file_copy` is exact and atomic

A copy that succeeds is exact unless `chmod` or `chown` withholds bits of the mode, or the temporary name
leads to the wrong file. A copy that fails takes back what it did by removing the temporary name: this is
not enough if that name is `dst` itself, for want of room in the buffer, or if it leads to another file.
-/

namespace CStringVerified.Install

open Foundation Foundation.Run

/-! ## A copy that succeeds -/

/-- There is a regular file at `dst`, with the data of the source and with the mode. -/
def CopiedExactly (w w' : World) (src dst : Text) (mode : Mode) : Prop :=
  ∃ s m, statAt w src = some s ∧ statAt w' dst = some m ∧ sIsreg m.stMode = true ∧ m.data = s.data ∧
    m.perm = mode &&& 0o7777

/-- A regular file gets all bits of the mode: `chmod` does not drop the set-group-ID bit, and `chown`, if
it is called after that, clears none of them. -/
structure ModeKept (env : Env) (uid : Id) (mode : Mode) (n : Node) : Prop where
  chmod : env.inGroup n.stGid = true ∨ mode &&& 0o2000 = 0
  chown : env.uid ≠ uid → mode &&& (env.chownClears (sIfreg ||| mode &&& 0o7777) &&& 0o6000) = 0

/-- The temporary file is a regular one that gets all bits of the mode, and not the source, unless that is
empty; and the name `dst` leads somewhere once it has been renamed. -/
def ExactWhen (w : World) (src dst : Text) (uid : Id) (mode : Mode) : Prop :=
  ∀ ls s si ti n fs,
    w.os.fs.resolve (Foundation.route w.os.cwd src) = .ok (ls, some s) → w.opened ls s = .ok si →
    Renamed w dst ti n fs →
    sIsreg n.stMode = true ∧ ModeKept w.env uid mode n ∧ (si = ti → s.data = []) ∧
      ∃ d, fs.stat (Foundation.route w.os.cwd dst) = .ok d

section Modes

variable {env : Env} {uid gid : Id} {mode : Mode} {n : Node}

/-- `chmod` sets all bits, unless the set-group-ID bit is asked for by somebody outside of the group. -/
theorem withPerm_bits_iff : (mode &&& if env.inGroup n.stGid then 0o7777 else 0o5777) = mode &&& 0o7777 ↔
    env.inGroup n.stGid = true ∨ mode &&& 0o2000 = 0 := by
  cases hgroup : env.inGroup n.stGid with
  | true => exact iff_of_true rfl (Or.inl rfl)
  | false =>
    rw [if_neg Bool.false_ne_true, or_iff_right Bool.false_ne_true]
    have hsplit : mode &&& 0o7777 = (mode &&& 0o5777) ||| (mode &&& 0o2000) :=
      (BitVec.and_or_distrib_left (x := mode) (y := 0o5777) (z := 0o2000)).symm ▸ rfl
    rw [hsplit]
    constructor
    · intro h
      calc mode &&& 0o2000 = ((mode &&& 0o5777) ||| (mode &&& 0o2000)) &&& 0o2000 := by
            rw [BitVec.and_or_distrib_right, BitVec.and_assoc, BitVec.and_assoc, BitVec.and_self]
            exact (BitVec.and_zero ▸ BitVec.zero_or).symm
        _ = (mode &&& 0o5777) &&& 0o2000 := by rw [← h]
        _ = mode &&& 0 := by rw [BitVec.and_assoc]; rfl
        _ = 0 := BitVec.and_zero
    · intro h
      rw [h]
      exact BitVec.or_zero.symm

theorem withPerm_reg (hreg : sIsreg n.stMode = true)
    (hbits : (mode &&& if env.inGroup n.stGid then 0o7777 else 0o5777) = mode &&& 0o7777) :
    (env.withPerm mode n).stMode = sIfreg ||| mode &&& 0o7777 := by
  have htype : n.stMode &&& sIfmt = sIfreg := of_decide_eq_true hreg
  show (n.stMode &&& sIfmt) ||| (mode &&& if env.inGroup n.stGid then 0o7777 else 0o5777) = _
  rw [htype, hbits]

/-- The mode survives exactly if nothing withholds bits of it. -/
theorem handedOver_perm_iff (hreg : sIsreg n.stMode = true) :
    (handedOver env uid gid (env.withPerm mode n)).perm = mode &&& 0o7777 ↔ ModeKept env uid mode n := by
  have hperm := perm_withPerm env mode n
  by_cases hbits : (mode &&& if env.inGroup n.stGid then 0o7777 else 0o5777) = mode &&& 0o7777
  · have hchmod := withPerm_bits_iff.mp hbits
    rw [hbits] at hperm
    unfold handedOver
    by_cases hsame : env.uid = uid
    · rw [if_pos hsame]
      exact iff_of_true hperm ⟨hchmod, fun hother => absurd hsame hother⟩
    · have hall : ∀ bits : Mode, (mode &&& 0o7777) &&& (bits &&& 0o6000) = mode &&& (bits &&& 0o6000) := by
        intro bits
        rw [BitVec.and_assoc, BitVec.and_comm bits, ← BitVec.and_assoc (0o7777 : Mode)]
        rfl
      rw [if_neg hsame, perm_chowned, hperm, withPerm_reg hreg hbits, and_not_eq_iff, hall]
      exact ⟨fun h => ⟨hchmod, fun _ => h⟩, fun h => h.chown hsame⟩
  · refine iff_of_false (fun h => hbits ?_) fun h => hbits (withPerm_bits_iff.mpr h.chmod)
    -- What `chmod` drops does not come back.
    unfold handedOver at h
    split at h
    · exact hperm.symm.trans h
    · rw [perm_chowned, hperm] at h
      generalize env.chownClears (env.withPerm mode n).stMode &&& 0o6000 = cleared at h
      have hwithin : ∀ bits : Mode, (0o7777 : Mode) &&& bits = bits →
          (mode &&& bits) &&& ~~~cleared = mode &&& 0o7777 → mode &&& bits = mode &&& 0o7777 := by
        intro bits hall h
        calc mode &&& bits = (mode &&& 0o7777) &&& bits := by rw [BitVec.and_assoc, hall]
          _ = (mode &&& bits) &&& ~~~cleared &&& bits := by rw [h]
          _ = (mode &&& bits) &&& ~~~cleared := by
            rw [BitVec.and_assoc, BitVec.and_comm (~~~cleared), ← BitVec.and_assoc,
              BitVec.and_assoc mode, BitVec.and_self]
          _ = mode &&& 0o7777 := h
      refine hwithin _ ?_ h
      split <;> rfl

end Modes

section Success

variable {w w' : World} {src dst : Text} {uid gid : Id} {mode : Mode} {ls lt : Loc} {s n : Node}
  {si ti : Nat} {fs : FileSystem}

/-- A source that is the file written has the type of that file. -/
theorem Copied.source_type (h : Copied w src dst uid gid mode ls lt s n si ti fs w') (hsame : si = ti) :
    sIsreg s.stMode = sIsreg n.stMode := by
  have hlt := FileSystem.ino_lt h.source_ino
  have hinode := h.opened.inode
  rcases emptied_ok h.tmp with ⟨l, d, -, -, rfl, -⟩ | ⟨l, f, hres, -, -, hino, rfl⟩
  · exact absurd hsame (Nat.ne_of_lt hlt)
  · subst hsame
    have hs : w.os.fs.inode si = some s := by
      rw [← FileSystem.node_of_ino h.source_ino]
      exact FileSystem.resolve_node h.source
    have hf : w.os.fs.inode si = some f := by
      rw [← FileSystem.node_of_ino hino]
      exact FileSystem.resolve_node hres
    obtain rfl := Option.some.inj (hs.symm.trans hf)
    rw [FileSystem.inode_set_self hs] at hinode
    rw [← Option.some.inj hinode]
    exact (sameType_emptied w.env s).isreg.symm

/-- The file is complete, unless the source has been emptied with it. -/
theorem Copied.data_iff (h : Copied w src dst uid gid mode ls lt s n si ti fs w')
    (hreg : sIsreg n.stMode = true) : h.final.data = s.data ↔ (si = ti → s.data = []) := by
  have hdata : h.final.data = sourceData si ti s := by
    have hfilled : (n.withData (sourceData si ti s)).data = sourceData si ti s := by
      rw [Node.withData, if_pos hreg]
    unfold Copied.final handedOver
    split
    · exact hfilled
    · exact hfilled
  rw [hdata, sourceData]
  by_cases hsame : si = ti
  · rw [if_pos ⟨hsame, (h.source_type hsame).trans hreg⟩]
    exact ⟨fun heq _ => heq.symm, fun hnil => (hnil hsame).symm⟩
  · rw [if_neg fun h => hsame h.1]
    exact iff_of_true rfl fun heq => absurd heq hsame

theorem Copied.exact_iff (h : Copied w src dst uid gid mode ls lt s n si ti fs w')
    (hlen : dst.length < installMaxPathlen) :
    CopiedExactly w w' src dst mode ↔ ExactWhen w src dst uid mode := by
  obtain ⟨fs', hrename, hfs⟩ := h.renamed
  have hinode : fs'.inode ti = some n := by
    obtain ⟨_, _, _, _, -, -, -, -, -, -, -, ⟨-, rfl⟩ | ⟨-, rfl⟩⟩ := FileSystem.rename_eq hrename
    · exact h.opened.inode
    · exact h.opened.inode
  have halike := FileSystem.alike_set hinode h.sameType h.opened.link
  have hsrc : statAt w src = some s := statAt_eq_some.mpr ⟨h.src_ne, ls, h.source⟩
  have hdst : ∀ m, statAt w' dst = some m ↔
      (fs'.set ti h.final).stat (Foundation.route w.os.cwd dst) = .ok m := by
    intro m
    rw [statAt_eq_stat, hfs, h.cwd, and_iff_right h.dst_ne]
    rfl
  have hgid : (n.withData (sourceData si ti s)).stGid = n.stGid := by
    unfold Node.withData
    split <;> rfl
  have hperm : sIsreg n.stMode = true →
      (h.final.perm = mode &&& 0o7777 ↔ ModeKept w.env uid mode n) := by
    intro hreg
    refine (handedOver_perm_iff ((sameType_withData n _).isreg.trans hreg)).trans ?_
    exact ⟨fun h => ⟨hgid ▸ h.chmod, h.chown⟩, fun h => ⟨hgid.symm ▸ h.chmod, h.chown⟩⟩
  constructor
  · rintro ⟨s', m, hs', hm, hmreg, hmdata, hmperm⟩ ls' s'' si' ti' n' fs'' hres hopened
      ⟨fs₁, l, htmp, hres', hrename'⟩
    rw [h.source] at hres
    cases hres
    rw [h.source_opened] at hopened
    cases hopened
    rw [h.tmp] at htmp
    cases htmp
    rw [h.opened.resolve] at hres'
    cases hres'
    rw [hrename] at hrename'
    cases hrename'
    rw [hsrc] at hs'
    cases hs'
    obtain rfl := h.statAt_dst hlen hm
    have hreg : sIsreg n.stMode = true := h.sameType.isreg.symm.trans hmreg
    exact ⟨hreg, (hperm hreg).mp hmperm, (h.data_iff hreg).mp hmdata,
      halike.symm.stat ((hdst _).mp hm)⟩
  · intro hall
    obtain ⟨hreg, hkept, hdistinct, d, hd⟩ := hall ls s si ti n fs' h.source h.source_opened
      ⟨fs, lt, h.tmp, h.opened.resolve, hrename⟩
    obtain ⟨m, hm⟩ := halike.stat hd
    have hm := (hdst m).mpr hm
    obtain rfl := h.statAt_dst hlen hm
    exact ⟨s, h.final, hsrc, hm, h.sameType.isreg.trans hreg, (h.data_iff hreg).mpr hdistinct,
      (hperm hreg).mpr hkept⟩

end Success

/-! ## A copy that fails -/

/-- What was at `dst`, and what that led to, is there still, and nothing has appeared anywhere. -/
structure Unchanged (w w' : World) (dst : Text) : Prop where
  entry : lstatAt w' dst = lstatAt w dst
  file : statAt w' dst = statAt w dst
  clean : ∀ l, w.os.fs.node l = none → w'.os.fs.node l = none

/-- Removing the temporary name takes nothing from `dst`: where there is something at `dst`, or where it
leads, the lookup does not look at that name. -/
def RemovalHarmless (w : World) (dst : Text) : Prop :=
  ∀ lo t, w.os.fs.find (Foundation.route w.os.cwd (tmpName dst)) = .ok (lo, some t) →
    sIsdir t.stMode = false → (Foundation.route w.os.cwd (tmpName dst)).slash = false →
    (lstatAt w dst ≠ none → ¬w.os.fs.Passes false lo (Foundation.route w.os.cwd dst).dir
      (Foundation.route w.os.cwd dst).steps) ∧
    (statAt w dst ≠ none → ¬w.os.fs.Passes true lo (Foundation.route w.os.cwd dst).dir
      (Foundation.route w.os.cwd dst).steps)

/-- The temporary name is no link that leads to where a file can be made. -/
def NotDangling (w : World) (dst : Text) : Prop :=
  ∀ lt d, w.os.fs.resolve (Foundation.route w.os.cwd (tmpName dst)) = .ok (lt, none) →
    w.os.fs.node lt.dropLast = some d →
    w.os.fs.find (Foundation.route w.os.cwd (tmpName dst)) = .ok (lt, none)

/-- The file `f` is like a copy of `s` already: it is empty, and so is `s`, if that matters, and opening it
for writing, `chmod` and `chown` change nothing. -/
structure Redundant (env : Env) (uid gid : Id) (mode : Mode) (s f : Node) : Prop where
  emptied : env.emptied f = f
  written : sIsdir s.stMode = false → sIsreg f.stMode = true → s.data = []
  chmod : sIsdir s.stMode = false → MayChange env f → env.withPerm mode f = f
  chown : sIsdir s.stMode = false → env.uid = 0 → env.uid ≠ uid → env.chowned uid gid f = f

/-- If the temporary name leads to the very file that `dst` leads to, that file is like a copy of the source
`s` already. -/
def WritingHarmless (w : World) (dst : Text) (uid gid : Id) (mode : Mode) (s : Node) : Prop :=
  ∀ lt ld f i, dst ≠ [] →
    w.os.fs.resolve (Foundation.route w.os.cwd (tmpName dst)) = .ok (lt, some f) →
    sIsdir f.stMode = false → w.opened lt f = .ok i →
    w.os.fs.resolve (Foundation.route w.os.cwd dst) = .ok (ld, some f) → w.os.fs.ino ld = some i →
    Redundant w.env uid gid mode s f

/-- Nothing can be lost by a copy of the source, if there is one that can be opened. -/
def AtomicWhen (w : World) (src dst : Text) (uid gid : Id) (mode : Mode) : Prop :=
  ∀ ls s si, src ≠ [] → w.os.fs.resolve (Foundation.route w.os.cwd src) = .ok (ls, some s) →
    w.opened ls s = .ok si →
    RemovalHarmless w dst ∧ NotDangling w dst ∧ WritingHarmless w dst uid gid mode s

/-- A file system in which `dst` is as before, and where nothing has appeared. -/
structure Harmless (w : World) (dst : Text) (fs : FileSystem) : Prop where
  name : dst ≠ [] → FileSystem.SameName w.os.fs fs (Foundation.route w.os.cwd dst)
  clean : ∀ l, w.os.fs.node l = none → fs.node l = none

section Failure

variable {w w' : World} {src dst : Text} {uid gid : Id} {mode : Mode} {ls lt lo : Loc}
  {s n f m t : Node} {si ti : Nat} {fs fs' : FileSystem}

/-- What has been left behind is the same, seen from the world or from the file system. -/
theorem unchanged_iff (hcwd : w'.os.cwd = w.os.cwd) :
    Unchanged w w' dst ↔ Harmless w dst w'.os.fs := by
  constructor
  · intro h
    refine ⟨fun hne => ⟨fun x => ?_, fun x => ?_⟩, h.clean⟩
    · have hentry : lstatAt w' dst = some x ↔ lstatAt w dst = some x := by rw [h.entry]
      rwa [lstatAt_eq_some, lstatAt_eq_some, hcwd, and_iff_right hne, and_iff_right hne] at hentry
    · have hfile : statAt w' dst = some x ↔ statAt w dst = some x := by rw [h.file]
      rwa [statAt_eq_stat, statAt_eq_stat, hcwd, and_iff_right hne, and_iff_right hne] at hfile
  · intro h
    refine ⟨Option.ext fun x => ?_, Option.ext fun x => ?_, h.clean⟩
    · rw [lstatAt_eq_some, lstatAt_eq_some, hcwd]
      exact and_congr_right fun hne => (h.name hne).entry x
    · rw [statAt_eq_stat, statAt_eq_stat, hcwd]
      exact and_congr_right fun hne => (h.name hne).file x

/-- What a copy may leave in a file is that file, exactly if it is like a copy already. -/
theorem left_iff_redundant {env : Env} (hsame : si = ti → s = f) :
    (∀ m, Left env uid gid mode s (env.emptied f) (sourceData si ti s) m → m = f) ↔
      Redundant env uid gid mode s f := by
  have hnil : env.emptied f = f → sIsreg f.stMode = true → f.data = [] := by
    intro hempty hreg
    rw [← hempty, Env.emptied, if_pos hreg]
  have hdata : env.emptied f = f → sIsreg f.stMode = true → (sourceData si ti s = [] ↔ s.data = []) := by
    intro hempty hreg
    unfold sourceData
    by_cases hloc : si = ti ∧ sIsreg s.stMode = true
    · rw [if_pos hloc, hsame hloc.1]
      exact iff_of_true rfl (hnil hempty hreg)
    · rw [if_neg hloc]
  constructor
  · intro hall
    have hempty := hall _ .emptied
    rw [hempty] at hall
    have hwritten : sIsdir s.stMode = false → f.withData (sourceData si ti s) = f := by
      intro hfile
      have hfilled := hall _ (.filled (sourceData si ti s).length hfile)
      rwa [List.take_length] at hfilled
    refine ⟨hempty, fun hfile hreg => ?_, fun hfile hmay => ?_, fun hfile hroot hother => ?_⟩
    · have heq := congrArg Node.data (hwritten hfile)
      rw [Node.withData, if_pos hreg, hnil hempty hreg] at heq
      exact (hdata hempty hreg).mp heq
    · have hchanged := hall _ (.changed hfile hmay)
      rwa [hwritten hfile] at hchanged
    · have hchanged := hall _ (.changed hfile (Or.inl hroot))
      have hhanded := hall _ (.handed hfile hroot hother)
      rwa [hchanged] at hhanded
  · rintro ⟨hempty, hwritten, hchmod, hchown⟩ m hleft
    rw [hempty] at hleft
    have hsame : ∀ k, sIsdir s.stMode = false → f.withData ((sourceData si ti s).take k) = f := by
      intro k hfile
      unfold Node.withData
      split
      · rename_i hreg
        rw [(hdata hempty hreg).mpr (hwritten hfile hreg), List.take_nil, ← hnil hempty hreg]
      · rfl
    have hwhole : sIsdir s.stMode = false → f.withData (sourceData si ti s) = f := by
      intro hfile
      have hwhole := hsame (sourceData si ti s).length hfile
      rwa [List.take_length] at hwhole
    cases hleft with
    | emptied => rfl
    | filled k hfile => exact hsame k hfile
    | changed hfile hmay =>
      rw [hwhole hfile]
      exact hchmod hfile hmay
    | handed hfile hroot hother =>
      rw [hwhole hfile, hchmod hfile (Or.inl hroot)]
      exact hchown hfile hroot hother

theorem Harmless.trans (h : Harmless w dst fs) (h' : dst ≠ [] →
    FileSystem.SameName fs fs' (Foundation.route w.os.cwd dst))
    (hclean : ∀ l, fs.node l = none → fs'.node l = none) : Harmless w dst fs' :=
  ⟨fun hne => (h.name hne).trans (h' hne), fun l hl => hclean l (h.clean l hl)⟩

theorem harmless_self (w : World) (dst : Text) : Harmless w dst w.os.fs :=
  ⟨fun _ => .of_nodes (fun _ => rfl) _, fun _ hl => hl⟩

/-- The temporary name is removed, and nothing else happens. -/
theorem RemovalHarmless.removed (h : RemovalHarmless w dst) :
    Harmless w dst (swept w.os.fs (Foundation.route w.os.cwd (tmpName dst))) := by
  rcases swept_cases w.os.fs (Foundation.route w.os.cwd (tmpName dst)) with
    ⟨lo, t, hfind, hfile, hslash, heq⟩ | heq
  · rw [heq]
    obtain ⟨hentry, hfound⟩ := h lo t hfind hfile hslash
    refine ⟨fun hne => FileSystem.sameName_del_iff.mpr ⟨fun ⟨x, hx⟩ => hentry ?_,
      fun ⟨x, hx⟩ => hfound ?_⟩, fun l hl => FileSystem.node_del_none hl _⟩
    · rw [lstatAt_eq_some.mpr ⟨hne, hx⟩]
      exact Option.some_ne_none x
    · rw [statAt_eq_stat.mpr ⟨hne, hx⟩]
      exact Option.some_ne_none x
  · rw [heq]
    exact harmless_self w dst

/-- What is found once a name is removed was found before. -/
theorem swept_before {p q : Route} {l : Loc} (h : (swept fs p).resolve q = .ok (l, some n)) :
    fs.resolve q = .ok (l, some n) ∧ (swept fs p).ino l = fs.ino l := by
  rcases swept_cases fs p with ⟨lo, t, -, -, -, heq⟩ | heq
  · rw [heq] at h ⊢
    obtain ⟨hne, -⟩ := FileSystem.node_del_some (FileSystem.resolve_node h)
    exact ⟨(FileSystem.grows_del fs lo).resolve h, by rw [FileSystem.ino_del, if_neg hne]⟩
  · rw [heq] at h ⊢
    exact ⟨h, rfl⟩

theorem swept_inode (fs : FileSystem) (p : Route) (i : Nat) : (swept fs p).inode i = fs.inode i := by
  rcases swept_cases fs p with ⟨lo, t, -, -, -, heq⟩ | heq
  · rw [heq]
    rfl
  · rw [heq]

/-- A file that was made for the temporary name is gone again. -/
theorem NotDangling.made (h : NotDangling w dst) {d : Node}
    (hres : w.os.fs.resolve (Foundation.route w.os.cwd (tmpName dst)) = .ok (lt, none))
    (hd : w.os.fs.node lt.dropLast = some d) (n m : Node) (hn : sIsdir n.stMode = false) :
    Harmless w dst ((swept (w.os.fs.put lt n) (Foundation.route w.os.cwd (tmpName dst))).set
      w.os.fs.inodes.length m) := by
  have hnone := FileSystem.resolve_node hres
  have hslash : (Foundation.route w.os.cwd (tmpName dst)).slash = false := by
    by_contra hslash
    obtain ⟨x, hx, -⟩ := FileSystem.resolve_slash (by simpa using hslash) hres
    rw [hnone] at hx
    cases hx
  have hfind := FileSystem.find_put_self (h lt d hres hd) n
  rw [swept_found hfind hn hslash]
  have hnodes : ∀ l, (((w.os.fs.put lt n).del lt).set w.os.fs.inodes.length m).node l =
      w.os.fs.node l := by
    intro l
    by_cases hl : l = lt
    · rw [hl, hnone, FileSystem.node_set_none, FileSystem.node_del_self]
    · have hino : ((w.os.fs.put lt n).del lt).ino l ≠ some w.os.fs.inodes.length := by
        rw [FileSystem.ino_del, if_neg hl, FileSystem.ino_put_ne n hl]
        exact fun hino => absurd (FileSystem.ino_lt hino) (Nat.lt_irrefl _)
      rw [FileSystem.node_set_ne hino, FileSystem.node_del_ne hl, FileSystem.node_put_ne n hl]
  exact ⟨fun _ => .of_nodes hnodes _, fun l hl => (hnodes l).trans hl⟩

/-- A file at the temporary name is written and its name removed. -/
theorem RemovalHarmless.written (h : RemovalHarmless w dst) (hwriting : WritingHarmless w dst uid gid mode s)
    (hres : w.os.fs.resolve (Foundation.route w.os.cwd (tmpName dst)) = .ok (lt, some f))
    (hfile : sIsdir f.stMode = false) (hopened : w.opened lt f = .ok ti) (hsame : si = ti → s = f)
    (hleft : Left w.env uid gid mode s (w.env.emptied f) (sourceData si ti s) m) :
    Harmless w dst ((swept w.os.fs (Foundation.route w.os.cwd (tmpName dst))).set ti m) := by
  have hino := (opened_eq_ok.mp hopened).2
  have hf : w.os.fs.inode ti = some f := by
    rw [← FileSystem.node_of_ino hino]
    exact FileSystem.resolve_node hres
  have hf' := (swept_inode w.os.fs (Foundation.route w.os.cwd (tmpName dst)) ti).trans hf
  have hlink := FileSystem.resolve_plain (route_ne_nil _ _) hres
  have htype := (sameType_emptied w.env f).trans (sameType_left hleft)
  by_cases hdst : dst ≠ [] ∧ ∃ l x, (swept w.os.fs (Foundation.route w.os.cwd (tmpName dst))).resolve
      (Foundation.route w.os.cwd dst) = .ok (l, some x) ∧
        (swept w.os.fs (Foundation.route w.os.cwd (tmpName dst))).ino l = some ti
  · -- The file is the one at `dst` too: nothing has changed in it.
    obtain ⟨hne, l, x, hresdst, hinodst⟩ := hdst
    obtain ⟨hbefore, hsameino⟩ := swept_before hresdst
    have hx := FileSystem.resolve_node hresdst
    rw [FileSystem.node_of_ino hinodst, hf'] at hx
    obtain rfl := Option.some.inj hx
    have hredundant := hwriting lt l f ti hne hres hfile hopened hbefore (hsameino.symm.trans hinodst)
    rw [(left_iff_redundant hsame).mpr hredundant m hleft, FileSystem.set_self hf']
    exact h.removed
  · refine h.removed.trans (fun hne => .set hf' hlink htype fun l x hresdst hinodst =>
      hdst ⟨hne, l, x, hresdst, hinodst⟩) fun l hl => (FileSystem.node_set_none _ _ _ _).mpr hl

/-- A source that is the temporary file is the very file. -/
theorem source_eq (hsrc : w.os.fs.resolve (Foundation.route w.os.cwd src) = .ok (ls, some s))
    (hopened : w.opened ls s = .ok si) (hf : w.os.fs.inode ti = some f) (hsame : si = ti) : s = f := by
  have hs := FileSystem.resolve_node hsrc
  rw [FileSystem.node_of_ino (opened_eq_ok.mp hopened).2, hsame, hf] at hs
  exact (Option.some.inj hs).symm

theorem Abandoned.harmless (hall : AtomicWhen w src dst uid gid mode)
    (h : Abandoned w src dst uid gid mode fs) : Harmless w dst fs := by
  cases h with
  | untouched => exact harmless_self w dst
  | removed hne hsrc hopened => exact (hall _ _ _ hne hsrc hopened).1.removed
  | @left ls s si ti fs n m hne hsrc hopened htmp hn hleft =>
    obtain ⟨hremoval, hdangling, hwriting⟩ := hall ls s si hne hsrc hopened
    rcases emptied_ok htmp with ⟨lt, d, hres, hd, rfl, rfl⟩ | ⟨lt, f, hres, hfile, hsock, hino, rfl⟩
    · refine hdangling.made hres hd _ m ?_
      rw [sIsdir, newFile_type]
      rfl
    · have hf : w.os.fs.inode ti = some f := by
        rw [← FileSystem.node_of_ino hino]
        exact FileSystem.resolve_node hres
      rw [FileSystem.inode_set_self hf] at hn
      cases hn
      have hlink := FileSystem.resolve_plain (route_ne_nil _ _) hres
      rw [swept_set hf (sameType_emptied w.env f) hlink, FileSystem.set_set]
      exact hremoval.written hwriting hres hfile (opened_eq_ok.mpr ⟨hsock, hino⟩)
        (source_eq hsrc hopened hf) hleft

section Converse

variable (h : ∀ fs, Abandoned w src dst uid gid mode fs → Harmless w dst fs) (hne : src ≠ [])
  (hsrc : w.os.fs.resolve (Foundation.route w.os.cwd src) = .ok (ls, some s))
  (hopened : w.opened ls s = .ok si)

include h hne hsrc hopened

theorem RemovalHarmless.of_harmless : RemovalHarmless w dst := by
  intro lo t hfind hfile hslash
  have hgone := h _ (.removed hne hsrc hopened)
  rw [swept_found hfind hfile hslash] at hgone
  refine ⟨fun hsome => ?_, fun hsome => ?_⟩
  · obtain ⟨x, hx⟩ := Option.ne_none_iff_exists'.mp hsome
    obtain ⟨hdst, hx⟩ := lstatAt_eq_some.mp hx
    exact (FileSystem.sameName_del_iff.mp (hgone.name hdst)).1 ⟨x, hx⟩
  · obtain ⟨x, hx⟩ := Option.ne_none_iff_exists'.mp hsome
    obtain ⟨hdst, hx⟩ := statAt_eq_stat.mp hx
    exact (FileSystem.sameName_del_iff.mp (hgone.name hdst)).2 ⟨x, hx⟩

theorem NotDangling.of_harmless : NotDangling w dst := by
  intro lt d hres hd
  have hnone := FileSystem.resolve_node hres
  have hslash : (Foundation.route w.os.cwd (tmpName dst)).slash = false := by
    by_contra hslash
    obtain ⟨x, hx, -⟩ := FileSystem.resolve_slash (by simpa using hslash) hres
    rw [hnone] at hx
    cases hx
  obtain ⟨lo, r, hfind, hend⟩ := FileSystem.resolve_find hslash hres
  rcases hend with rfl | ⟨t, rfl, hlink⟩
  · rw [hfind, ← FileSystem.find_node hfind, hnone]
  · -- The file that was made stays where the link leads.
    have hgrows := FileSystem.grows_put hnone (w.env.newFile d)
    have hleft := h _ (.left hne hsrc hopened (emptied_absent hres hd)
      (FileSystem.inode_put_self _ _ _) .emptied)
    rw [swept_found (hgrows.find hfind) (sIsdir_of_sIslnk hlink) hslash] at hleft
    have hclean := hleft.clean lt hnone
    have hother : lt ≠ lo := by
      rintro rfl
      rw [FileSystem.find_node hfind] at hnone
      cases hnone
    rw [FileSystem.node_set_none, FileSystem.node_del_ne hother, FileSystem.node_put_self] at hclean
    cases hclean

theorem WritingHarmless.of_harmless : WritingHarmless w dst uid gid mode s := by
  intro lt ld f ti hdst hres hfile hopened' hresdst hinodst
  obtain ⟨-, hino⟩ := opened_eq_ok.mp hopened'
  have hf : w.os.fs.inode ti = some f := by
    rw [← FileSystem.node_of_ino hino]
    exact FileSystem.resolve_node hres
  have hlink := FileSystem.resolve_plain (route_ne_nil _ _) hres
  refine (left_iff_redundant (source_eq hsrc hopened hf)).mp fun m hleft => ?_
  have hharmless := h _ (.left hne hsrc hopened (emptied_found hres hfile hopened')
    (FileSystem.inode_set_self hf _) hleft)
  rw [swept_set hf (sameType_emptied w.env f) hlink, FileSystem.set_set] at hharmless
  -- `dst` leads to the file still, and finds it as it was.
  have hstat := ((hharmless.name hdst).file f).mpr (FileSystem.stat_eq_ok.mpr ⟨ld, hresdst⟩)
  obtain ⟨l, hres'⟩ := FileSystem.stat_eq_ok.mp hstat
  have hf' := (swept_inode w.os.fs (Foundation.route w.os.cwd (tmpName dst)) ti).trans hf
  have halike := FileSystem.alike_set hf' ((sameType_emptied w.env f).trans (sameType_left hleft)) hlink
  have hthere := halike.symm.resolve hres'
  obtain ⟨x, hx, -⟩ := halike.symm.node (FileSystem.resolve_node hres')
  rw [hx] at hthere
  obtain ⟨hbefore, hsameino⟩ := swept_before hthere
  rw [hresdst] at hbefore
  cases hbefore
  have hnode := FileSystem.resolve_node hres'
  rw [FileSystem.node_set_self (hsameino.trans hinodst)] at hnode
  exact Option.some.inj hnode

end Converse

/-- A failed copy leaves `dst` alone, whatever it leaves, exactly under these conditions. -/
theorem abandoned_harmless_iff :
    (∀ fs, Abandoned w src dst uid gid mode fs → Harmless w dst fs) ↔
      AtomicWhen w src dst uid gid mode := by
  constructor
  · exact fun h ls s si hne hsrc hopened => ⟨.of_harmless h hne hsrc hopened,
      .of_harmless h hne hsrc hopened, .of_harmless h hne hsrc hopened⟩
  · exact fun h fs habandoned => habandoned.harmless h

/-- The same for the runs that fail. -/
theorem fails_unchanged_iff (hlen : dst.length < installMaxPathlen)
    (hvalid : iposixUidValid w.env.uid = true) :
    (∀ w', FailsWith w src dst uid gid mode w' → Unchanged w w' dst) ↔
      AtomicWhen w src dst uid gid mode := by
  rw [← abandoned_harmless_iff]
  constructor
  · intro h fs habandoned
    have hroom : dst.length + 4 ≤ intMax := by
      have hmax : installMaxPathlen + 4 ≤ intMax := by decide
      omega
    obtain ⟨w', hfails, hcwd, rfl⟩ := habandoned.fails hvalid hroom
    exact (unchanged_iff hcwd).mp (h w' hfails)
  · intro h w' hfails
    obtain ⟨hcwd, habandoned⟩ := hfails.abandoned hvalid
    exact (unchanged_iff hcwd).mpr (h _ habandoned)

end Failure

/-- Unless the current user is none, `install_file_copy` returns. If it says that it succeeded, the copy is
exact exactly under the conditions `ExactWhen`; and no run that fails changes `dst` or leaves a file
behind, however its calls fare, exactly under the conditions `AtomicWhen`. -/
theorem installFileCopy_atomic_iff (src dst : Text) (uid gid : Id) (mode : Mode) (w : World)
    (hlen : dst.length < installMaxPathlen) (hvalid : iposixUidValid w.env.uid = true) :
    (∃ status w', installFileCopy src dst uid gid mode w = (.ok status, w')) ∧
      (∀ status w', installFileCopy src dst uid gid mode w = (.ok status, w') → status.status = .ok →
        (CopiedExactly w w' src dst mode ↔ ExactWhen w src dst uid mode)) ∧
      ((∀ w', FailsWith w src dst uid gid mode w' → Unchanged w w' dst) ↔
        AtomicWhen w src dst uid gid mode) := by
  refine ⟨?_, fun status w' hrun hok => ?_, fails_unchanged_iff hlen hvalid⟩
  · obtain ⟨status, w', hrun, -⟩ := installFileCopy_run hvalid src dst uid gid mode
    exact ⟨status, w', hrun⟩
  · obtain ⟨ls, lt, s, n, si, ti, fs, hcopied⟩ := installFileCopy_ok hrun hok
    exact hcopied.exact_iff hlen

/-- There is a file `a`, and nothing else. -/
def sourceWorld : World := World.ofFiles [([], ⟨sIfdir ||| 0o755, 0, 0, []⟩),
  (component ['a'], ⟨sIfreg ||| 0o644, 0, 0, ['x']⟩)]

theorem installFileCopy_atomic_b :
    AtomicWhen sourceWorld ['a'] ['b'] 0 0 0o644 ∧
      ∀ w', FailsWith sourceWorld ['a'] ['b'] 0 0 0o644 w' → Unchanged sourceWorld w' ['b'] := by
  have hfind : sourceWorld.os.fs.find (Foundation.route sourceWorld.os.cwd (tmpName ['b'])) =
      .ok (component ['b', '.', 't', 'm', 'p'], none) := rfl
  have hres : sourceWorld.os.fs.resolve (Foundation.route sourceWorld.os.cwd (tmpName ['b'])) =
      .ok (component ['b', '.', 't', 'm', 'p'], none) := rfl
  have hwhen : AtomicWhen sourceWorld ['a'] ['b'] 0 0 0o644 := by
    refine fun ls s si _ _ _ => ⟨fun lo t htmp => ?_, fun lt d htmp _ => ?_, fun lt ld f i _ htmp => ?_⟩
    · rw [hfind] at htmp
      cases htmp
    · rw [hres] at htmp
      rw [hfind, ← htmp]
    · rw [hres] at htmp
      cases htmp
  obtain ⟨-, -, hatomic⟩ :=
    installFileCopy_atomic_iff ['a'] ['b'] 0 0 0o644 sourceWorld (by decide) (by decide)
  exact ⟨hwhen, hatomic.mpr hwhen⟩

/-- A name of 1023 characters. -/
def fullName : Name :=
  ⟨List.replicate 1023 'b', List.cons_ne_nil 'b' _, fun h =>
    absurd (List.eq_of_mem_replicate h) (by decide)⟩

/-- What there is at the long name. -/
def fullFile : Node := ⟨sIfreg ||| 0o644, 0, 0, ['y']⟩

/-- There are a file `a` and one with the long name. The call that is refused is the one that opens the
temporary file. -/
def fullWorld : World :=
  (World.ofFiles [([], ⟨sIfdir ||| 0o755, 0, 0, []⟩), (component ['a'], ⟨sIfreg ||| 0o644, 0, 0, ['x']⟩),
    ([fullName], fullFile)]).faring (refusedAt 1) fun _ => 1

theorem fullName_route : Foundation.route [] fullName.val = ⟨[], [fullName], false⟩ := by
  have habs : isAbsolute fullName.val = false := rfl
  have hcomp : components fullName.val = [fullName] := components_name fullName
  have hslash : endsSlash fullName.val = false := by
    have hlast : fullName.val.getLast? = some 'b' := List.getLast?_replicate
    rw [endsSlash, hlast]
    rfl
  rw [Foundation.route, habs, hcomp, hslash]
  rfl

theorem fullWorld_find :
    fullWorld.os.fs.find ⟨[], [fullName], false⟩ = .ok ([fullName], some fullFile) := by
  have hother : [fullName] ≠ component ['a'] := by
    intro h
    have hval := congrArg Subtype.val (List.cons.inj h).1
    exact absurd (List.cons.inj hval).1 (by decide)
  have hnode : fullWorld.os.fs.node [fullName] = some fullFile := by
    show (FileSystem.ofList _).node [fullName] = _
    rw [FileSystem.ofList, List.foldr_cons, FileSystem.node_put_ne _ (List.cons_ne_nil _ _),
      List.foldr_cons, FileSystem.node_put_ne _ hother, List.foldr_cons, FileSystem.node_put_self]
  have hdots : fullName ≠ dot ∧ fullName ≠ dotdot := by
    refine ⟨fun h => ?_, fun h => ?_⟩
    · exact absurd (List.cons.inj (congrArg Subtype.val h)).1 (by decide)
    · exact absurd (List.cons.inj (congrArg Subtype.val h)).1 (by decide)
  have henter : fullWorld.os.fs.enter [] fullName = .ok [fullName] := by
    have hroot : fullWorld.os.fs.node [] = some ⟨sIfdir ||| 0o755, 0, 0, []⟩ :=
      FileSystem.node_put_self _ _ _
    rw [FileSystem.enter, hroot, if_neg hdots.1, if_neg hdots.2]
    rfl
  exact FileSystem.find_eq_ok.mpr ⟨.on henter FileSystem.linkAt_nofollow .here, hnode.symm⟩

/-- There is no room for `.tmp` behind a name of 1023 characters: it is its own temporary name, and is
removed. -/
theorem full_name_removed :
    fullName.val.length < installMaxPathlen ∧ lstatAt fullWorld fullName.val = some fullFile ∧
      ∃ status w', installFileCopy ['a'] fullName.val 0 0 0o644 fullWorld = (.ok status, w') ∧
        status.status = .error ∧ UnlinkGranted w' ∧ lstatAt w' fullName.val = none := by
  have hlen : fullName.val.length = 1023 := List.length_replicate
  have hfit : fullName.val.length < installMaxPathlen := by
    rw [hlen]
    decide
  have htmp : tmpName fullName.val = fullName.val := by
    have hroom : installMaxPathlen - 1 = 1023 := rfl
    rw [tmpName, hroom, List.take_append_of_le_length (Nat.le_of_eq hlen.symm)]
    exact List.take_of_length_le (Nat.le_of_eq hlen)
  have hroute : Foundation.route fullWorld.os.cwd fullName.val = ⟨[], [fullName], false⟩ := fullName_route
  have hfind := fullWorld_find
  have hsrc : fullWorld.os.fs.resolve (Foundation.route fullWorld.os.cwd ['a']) =
      .ok (component ['a'], some ⟨sIfreg ||| 0o644, 0, 0, ['x']⟩) := rfl
  have hroom : fullName.val.length + 4 ≤ intMax := by
    rw [hlen]
    decide
  obtain ⟨status, w', hrun, herror, hgranted, hcwd, hfs⟩ :=
    fails_unwritten (w := fullWorld) (refusedAt_faring _ 1) (by decide) hroom
      (List.cons_ne_nil 'a' []) hsrc rfl 0 0 0o644
  rw [htmp, hroute, swept_found hfind rfl rfl] at hfs
  have hlstat : ∀ {fs : FileSystem} {x : Node}, fs.lstat ⟨[], [fullName], false⟩ = .ok x ↔
      ∃ l, fs.find ⟨[], [fullName], false⟩ = .ok (l, some x) := by
    intro fs x
    rw [FileSystem.lstat_eq_ok]
    exact exists_congr fun l => ⟨fun h => FileSystem.find_eq_ok.mpr ⟨h.1, h.2.symm⟩,
      fun h => ⟨(FileSystem.find_eq_ok.mp h).1, FileSystem.find_node h⟩⟩
  refine ⟨hfit, ?_, status, w', hrun, herror, hgranted, ?_⟩
  · rw [lstatAt_eq_some, hroute, hlstat]
    exact ⟨List.cons_ne_nil 'b' _, _, hfind⟩
  · rw [Option.eq_none_iff_forall_ne_some]
    intro x hx
    obtain ⟨-, hx⟩ := lstatAt_eq_some.mp hx
    rw [hcwd, hroute, hfs, FileSystem.lstat_del] at hx
    exact hx.2 (FileSystem.find_eq_ok.mp hfind).1.passes_end

end CStringVerified.Install
