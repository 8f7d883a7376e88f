import CStringVerified.Install.Proofs.AgainProofs
import CStringVerified.Install.Proofs.MkdirProofs
import CStringVerified.Install.Proofs.StageProofs

/-!
# Whether `install_check` agrees with `install`

After `install` has succeeded for a file or a directory, `install_check` accepts it only if the state
before was of the right kind: the group of a file that stays with the current user is never set, the
mode of a new directory is reduced by the umask, what was there before keeps its mode, and bits outside
of 0755 are lost in the comparison.
-/

namespace CStringVerified.Install

open Foundation Foundation.Run

/-! ## Modes -/

section Modes

variable {env : Env} {uid gid : Id} {mode m : Mode} {n : Node}

theorem within_perm (h : n.perm = mode) : n.stMode &&& 0o755 = mode &&& 0o755 := by
  rw [← h]
  show n.stMode &&& 0o755 = (n.stMode &&& 0o7777) &&& 0o755
  rw [BitVec.and_assoc]
  rfl

/-- Bits that include those of 0755 are all that such a mode needs. -/
theorem within_and {bits : Mode} (hbits : (0o755 : Mode) &&& bits = 0o755) :
    (mode &&& bits) &&& 0o755 = mode &&& 0o755 := by
  rw [BitVec.and_assoc, BitVec.and_comm bits, hbits]

theorem perm_within {bits : Mode} (hbits : (0o755 : Mode) &&& bits = 0o755)
    (h : mode &&& 0o755 = mode) : mode &&& bits = mode := by
  calc mode &&& bits = (mode &&& 0o755) &&& bits := by rw [h]
    _ = mode &&& 0o755 := by rw [BitVec.and_assoc, hbits]
    _ = mode := h

/-- Nothing is taken from a mode. -/
theorem and_not_eq_iff (m bits : Mode) : m &&& ~~~bits = m ↔ m &&& bits = 0 := by
  constructor
  · intro h
    calc m &&& bits = (m &&& ~~~bits) &&& bits := by rw [h]
      _ = m &&& (bits &&& ~~~bits) := by rw [BitVec.and_assoc, BitVec.and_comm bits]
      _ = 0 := by rw [BitVec.and_not_self]; exact BitVec.and_zero
  · intro h
    calc m &&& ~~~bits = (m &&& bits) ||| (m &&& ~~~bits) := by rw [h]; exact BitVec.zero_or.symm
      _ = m &&& (bits ||| ~~~bits) := BitVec.and_or_distrib_left.symm
      _ = m := by rw [BitVec.or_not_self, BitVec.and_allOnes]

/-- Set-ID bits that go are none of the others. -/
theorem clear_within (m bits : Mode) {others : Mode} (h : (0o6000 : Mode) &&& others = 0) :
    (m &&& ~~~(bits &&& 0o6000)) &&& others = m &&& others := by
  have hothers : ~~~(bits &&& 0o6000) &&& others = others := by
    have hall : others &&& ~~~(0o6000 : Mode) = others := by
      calc others &&& ~~~(0o6000 : Mode)
          = (others &&& 0o6000) ||| (others &&& ~~~(0o6000 : Mode)) := by
            rw [BitVec.and_comm others 0o6000, h]
            exact BitVec.zero_or.symm
        _ = others := by
            rw [← BitVec.and_or_distrib_left, BitVec.or_not_self, BitVec.and_allOnes]
    rw [BitVec.not_and, BitVec.and_or_distrib_right, BitVec.and_comm (~~~(0o6000 : Mode)), hall]
    ext i hi
    rw [BitVec.getElem_or, BitVec.getElem_and, Bool.or_eq_right_iff_imp]
    exact fun h => (Bool.and_eq_true_iff.mp h).2
  rw [BitVec.and_assoc, hothers]

/-- Handing a node over does not touch the mode bits of 0755. -/
theorem handedOver_within (env : Env) (uid gid : Id) (n : Node) :
    (handedOver env uid gid n).stMode &&& 0o755 = n.stMode &&& 0o755 := by
  unfold handedOver
  split
  · rfl
  · exact clear_within n.stMode _ rfl

/-- Of the bits of 0755 a file gets all that are asked for. -/
theorem withPerm_within (env : Env) (mode : Mode) (n : Node) :
    (env.withPerm mode n).stMode &&& 0o755 = mode &&& 0o755 := by
  rw [within_perm (perm_withPerm env mode n), within_and]
  split
  · rfl
  · rfl

theorem handedOver_perm (h : n.perm = mode) (hmode : mode &&& 0o755 = mode) :
    (handedOver env uid gid n).perm = mode := by
  unfold handedOver
  split
  · exact h
  · calc (env.chowned uid gid n).perm
        = (mode &&& 0o755) &&& ~~~(env.chownClears n.stMode &&& 0o6000) := by
          rw [perm_chowned, h, hmode]
      _ = (mode &&& ~~~(env.chownClears n.stMode &&& 0o6000)) &&& 0o755 := by
          rw [BitVec.and_assoc, BitVec.and_assoc, BitVec.and_comm (0o755 : Mode)]
      _ = mode &&& 0o755 := clear_within mode _ rfl
      _ = mode := hmode

/-- Owner and group are the wanted ones, unless the node stays with the current user and is not
right. -/
theorem handedOver_ids (hvalid : ¬(uid = nullId ∨ gid = nullId)) :
    ((handedOver env uid gid n).stUid = uid ∧ (handedOver env uid gid n).stGid = gid) ↔
      (env.uid = uid → n.stUid = uid ∧ n.stGid = gid) := by
  unfold handedOver
  by_cases huid : env.uid = uid
  · rw [if_pos huid]
    exact ⟨fun h _ => h, fun h => h huid⟩
  · rw [if_neg huid]
    obtain ⟨hu, hg⟩ := not_or.mp hvalid
    exact ⟨fun _ h => absurd h huid, fun _ => ⟨if_neg hu, if_neg hg⟩⟩

theorem stSize_handedOver (env : Env) (uid gid : Id) (n : Node) :
    (handedOver env uid gid n).stSize = n.stSize := by
  have htype := sameType_handedOver env uid gid n
  have hdata : (handedOver env uid gid n).data = n.data := by
    unfold handedOver
    split <;> rfl
  rw [Node.stSize, Node.stSize, htype.isreg, htype.islnk, htype.isdir, hdata]

theorem stSize_withPerm (env : Env) (mode : Mode) (n : Node) :
    (env.withPerm mode n).stSize = n.stSize := by
  have htype := sameType_withPerm env mode n
  rw [Node.stSize, Node.stSize, htype.isreg, htype.islnk, htype.isdir]
  rfl

/-- Files of one type that are no links and no directories have the size of what is written to them. -/
theorem stSize_withData (h : sIslnk n.stMode = false) (h' : sIsdir n.stMode = false) (data : Text) :
    (n.withData data).stSize = if sIsreg n.stMode then data.length else 0 := by
  have htype := sameType_withData n data
  rw [Node.stSize, htype.isreg, htype.islnk, htype.isdir, h, h', Bool.or_false, Bool.or_false]
  cases hreg : sIsreg n.stMode with
  | true => rw [Node.withData, if_pos hreg]
  | false => rfl

end Modes

/-! ## A file -/

/-- The temporary name is `dst`, and as much of `.tmp` as there is room for. -/
theorem tmpName_eq {dst : Text} (h : dst.length < installMaxPathlen) :
    ∃ ext, tmpName dst = dst ++ ext ∧ '/' ∉ ext := by
  refine ⟨['.', 't', 'm', 'p'].take (installMaxPathlen - 1 - dst.length), ?_, fun hslash => ?_⟩
  · rw [tmpName, List.take_append, List.take_of_length_le (by omega)]
  · exact absurd (List.mem_of_mem_take hslash) (by decide)

/-- The temporary file of `dst` is the file `i`, which is `n` once it is emptied, and renaming it then
gives `fs'`. -/
def Renamed (w : World) (dst : Text) (i : Nat) (n : Node) (fs' : FileSystem) : Prop :=
  ∃ fs l, w.emptied (Foundation.route w.os.cwd (tmpName dst)) = .ok (i, fs) ∧
    fs.resolve (Foundation.route w.os.cwd (tmpName dst)) = .ok (l, some n) ∧
    fs.rename (Foundation.route w.os.cwd (tmpName dst)) (Foundation.route w.os.cwd dst) = .ok fs'

section Copied

variable {w w' : World} {src dst : Text} {uid gid : Id} {mode : Mode} {ls lt : Loc} {s n m : Node}
  {si ti i : Nat} {fs fs' : FileSystem}

theorem Copied.source_ino (h : Copied w src dst uid gid mode ls lt s n si ti fs w') :
    w.os.fs.ino ls = some si := (opened_eq_ok.mp h.source_opened).2

/-- What ends up in the file. -/
def Copied.final (_ : Copied w src dst uid gid mode ls lt s n si ti fs w') : Node :=
  handedOver w.env uid gid (w.env.withPerm mode (n.withData (sourceData si ti s)))

theorem Copied.sameType (h : Copied w src dst uid gid mode ls lt s n si ti fs w') :
    n.SameType h.final :=
  ((sameType_withData n (sourceData si ti s)).trans (sameType_withPerm w.env mode _)).trans
    (sameType_handedOver w.env uid gid _)

/-- The file system at the end is the one in which the file is complete, once it is renamed. -/
theorem Copied.rename (h : Copied w src dst uid gid mode ls lt s n si ti fs w') :
    (fs.set ti h.final).rename (Foundation.route w.os.cwd (tmpName dst))
      (Foundation.route w.os.cwd dst) = .ok w'.os.fs := by
  obtain ⟨fs', hrename, hfs⟩ := h.renamed
  rw [FileSystem.rename_set h.opened.inode h.sameType h.opened.link, hrename, hfs]
  rfl

/-- The temporary name leads to the complete file. -/
theorem Copied.tmp_resolve (h : Copied w src dst uid gid mode ls lt s n si ti fs w') :
    (fs.set ti h.final).resolve (Foundation.route w.os.cwd (tmpName dst)) =
      .ok (lt, some h.final) := by
  rw [(FileSystem.alike_set h.opened.inode h.sameType h.opened.link).resolve h.opened.resolve,
    FileSystem.node_set_self h.opened.ino]

theorem Copied.final_file (h : Copied w src dst uid gid mode ls lt s n si ti fs w') :
    sIsdir h.final.stMode = false := h.sameType.isdir.trans h.opened.file

/-- The temporary file is a neighbour of the destination. -/
theorem Copied.neighbours (h : Copied w src dst uid gid mode ls lt s n si ti fs w')
    (hlen : dst.length < installMaxPathlen) : ∃ dir front x y, FileSystem.Neighbours
      (Foundation.route w.os.cwd (tmpName dst)) (Foundation.route w.os.cwd dst) dir front x y := by
  obtain ⟨fs', hrename, -⟩ := h.renamed
  obtain ⟨_, _, _, _, -, -, -, -, -, -, hslash, -⟩ := FileSystem.rename_eq hrename
  obtain ⟨ext, htmp, hext⟩ := tmpName_eq hlen
  obtain ⟨dir, front, name, name', hold, hnew, -⟩ := route_append h.dst_ne hslash hext w.os.cwd
  rw [htmp]
  exact ⟨dir, front, name', name, hnew, hold⟩

/-- The destination leads to the file, if it leads anywhere. -/
theorem Copied.statAt_dst (h : Copied w src dst uid gid mode ls lt s n si ti fs w')
    (hlen : dst.length < installMaxPathlen) (hm : statAt w' dst = some m) : m = h.final := by
  obtain ⟨-, l, hres⟩ := statAt_eq_some.mp hm
  rw [h.cwd] at hres
  obtain ⟨dir, front, x, y, hneighbours⟩ := h.neighbours hlen
  exact hneighbours.resolve_new h.rename h.tmp_resolve h.final_file hres

/-- Before the renaming, the source is where it was, unless it is the file that is written. -/
theorem Copied.source_there (h : Copied w src dst uid gid mode ls lt s n si ti fs w') :
    ∃ s', (fs.set ti h.final).resolve (Foundation.route w.os.cwd src) = .ok (ls, some s') ∧
      (s' = h.final ∨ s' = s ∧ si ≠ ti) := by
  have hthere : fs.ino ls = some si ∧ ∃ r, fs.resolve (Foundation.route w.os.cwd src) = .ok (ls, r) ∧
      (si ≠ ti → r = some s) := by
    rcases emptied_ok h.tmp with ⟨l, d, hres, -, rfl, rfl⟩ | ⟨l, x, hres, -, -, hino, rfl⟩
    · have hnone := FileSystem.resolve_node hres
      have hne : ls ≠ l := by
        rintro rfl
        rw [FileSystem.resolve_node h.source] at hnone
        cases hnone
      have hgrows := FileSystem.grows_put hnone (w.env.newFile d)
      exact ⟨(FileSystem.ino_put_ne _ hne).trans h.source_ino, some s, hgrows.resolve h.source,
        fun _ => rfl⟩
    · have hx : w.os.fs.inode ti = some x := by
        rw [← FileSystem.node_of_ino hino]
        exact FileSystem.resolve_node hres
      have halike := FileSystem.alike_set hx (sameType_emptied w.env x)
        (FileSystem.resolve_plain (route_ne_nil _ _) hres)
      refine ⟨h.source_ino, _, halike.resolve h.source, fun hne => ?_⟩
      rw [FileSystem.node_set_ne, FileSystem.resolve_node h.source]
      rw [h.source_ino]
      exact fun heq => hne (Option.some.inj heq)
  obtain ⟨hino, r, hres, hr⟩ := hthere
  have halike := FileSystem.alike_set h.opened.inode h.sameType h.opened.link
  by_cases hsame : si = ti
  · subst hsame
    refine ⟨h.final, ?_, Or.inl rfl⟩
    rw [halike.resolve hres, FileSystem.node_set_self hino]
  · refine ⟨s, ?_, Or.inr ⟨rfl, hsame⟩⟩
    rw [halike.resolve hres, FileSystem.node_set_ne, FileSystem.resolve_node hres, hr hsame]
    rw [hino]
    exact fun heq => hsame (Option.some.inj heq)

/-- The source leads to the file, or to what it led to before, if it leads anywhere. -/
theorem Copied.statAt_src (h : Copied w src dst uid gid mode ls lt s n si ti fs w')
    (hlen : dst.length < installMaxPathlen) (hm : statAt w' src = some m) :
    m = h.final ∨ m = s ∧ si ≠ ti := by
  obtain ⟨-, l, hres⟩ := statAt_eq_some.mp hm
  rw [h.cwd] at hres
  obtain ⟨hleads, hl⟩ := FileSystem.resolve_eq_ok.mp hres
  have hplain := FileSystem.resolve_plain (route_ne_nil _ _) hres
  obtain ⟨dir, front, x, y, hneighbours⟩ := h.neighbours hlen
  rcases hneighbours.leads h.rename h.tmp_resolve h.final_file hleads hl.symm hplain with
    heq | ⟨k, hleads', hm'⟩
  · exact Or.inl heq
  · obtain ⟨s', hsrc, hs'⟩ := h.source_there
    obtain ⟨hsrc, hnode⟩ := FileSystem.resolve_eq_ok.mp hsrc
    obtain rfl := hleads'.unique hsrc
    obtain rfl := Option.some.inj (hnode.trans hm')
    exact hs'

/-- The size of the file is that of the contents of the source. -/
theorem Copied.final_size (h : Copied w src dst uid gid mode ls lt s n si ti fs w') (hm : m = h.final ∨
    m = s ∧ si ≠ ti) : h.final.stSize = (n.withData m.data).stSize := by
  have hsize : h.final.stSize = (n.withData (sourceData si ti s)).stSize :=
    (stSize_handedOver _ _ _ _).trans (stSize_withPerm _ _ _)
  rcases hm with rfl | ⟨rfl, hne⟩
  · have htype := h.sameType
    rw [stSize_withData h.opened.link h.opened.file, Node.stSize, htype.isreg, htype.islnk,
      htype.isdir, h.opened.link, h.opened.file, Bool.or_false, Bool.or_false]
  · rw [hsize, sourceData, if_neg fun hsame => hne hsame.1]

end Copied

/-- A copy makes a file that is found right exactly under these conditions: the mode has no bits outside
of 0755; whatever `dst.tmp` is to lead to (a new file, or a file that is there already) has a known type
and, if the owner is to be the current user, the right owner and group; and once that file has been
renamed, `dst` leads somewhere, and `src` leads to that file or to one whose size tells how much there is
to read. -/
structure FileAgrees (w : World) (perm : Mode) (src dst : Text) (uid gid : Id) : Prop where
  bits : perm &&& 0o755 = perm
  tmp : ∃ i n fs, Renamed w dst i n fs ∧ fileTypeOf n.stMode ≠ none ∧
    (w.env.uid = uid → n.stUid = uid ∧ n.stGid = gid) ∧
    (∃ d, fs.stat (Foundation.route w.os.cwd dst) = .ok d) ∧
    ∃ l s, fs.resolve (Foundation.route w.os.cwd src) = .ok (l, some s) ∧
      (fs.ino l = some i ∨ s.stSize = (n.withData s.data).stSize)

/-- What is wanted of a path is there. -/
def Established (w : World) (path : Text) (perm : Mode) (uid gid : Id) : Prop :=
  ∃ n, statAt w path = some n ∧ n.perm = perm ∧ n.stUid = uid ∧ n.stGid = gid

section Agrees

variable {w w' : World} {src dst : Text} {uid gid : Id} {mode : Mode} {ls lt : Loc} {s n : Node}
  {si ti : Nat} {fs : FileSystem}

/-- Both names lead to files of one size exactly if they do so, as far as can be told before. -/
theorem Copied.sizes_iff (h : Copied w src dst uid gid mode ls lt s n si ti fs w')
    (hlen : dst.length < installMaxPathlen) {fs' : FileSystem} (hfs : w'.os.fs = fs'.set ti h.final)
    (hinode : fs'.inode ti = some n) :
    (∃ s' d, statAt w' src = some s' ∧ statAt w' dst = some d ∧ s'.stSize = d.stSize) ↔
      (∃ d, fs'.stat (Foundation.route w.os.cwd dst) = .ok d) ∧
        ∃ l s', fs'.resolve (Foundation.route w.os.cwd src) = .ok (l, some s') ∧
          (fs'.ino l = some ti ∨ s'.stSize = (n.withData s'.data).stSize) := by
  have halike := FileSystem.alike_set hinode h.sameType h.opened.link
  have hstat : ∀ {path x}, statAt w' path = some x ↔
      path ≠ [] ∧ (fs'.set ti h.final).stat (Foundation.route w.os.cwd path) = .ok x := by
    intro path x
    rw [statAt_eq_stat, hfs, h.cwd]
  constructor
  · rintro ⟨s', d, hs', hd, hsize⟩
    refine ⟨halike.symm.stat (hstat.mp hd).2, ?_⟩
    obtain ⟨l, hres⟩ := FileSystem.stat_eq_ok.mp (hstat.mp hs').2
    have hres' := halike.symm.resolve hres
    by_cases hino : fs'.ino l = some ti
    · rw [FileSystem.node_of_ino hino, hinode] at hres'
      exact ⟨l, n, hres', Or.inl hino⟩
    · have hnode := FileSystem.resolve_node hres
      rw [FileSystem.node_set_ne hino] at hnode
      rw [hnode] at hres'
      refine ⟨l, s', hres', Or.inr ?_⟩
      rw [hsize, h.statAt_dst hlen hd]
      exact h.final_size (h.statAt_src hlen hs')
  · rintro ⟨⟨d, hd⟩, l, s', hs', hsize⟩
    obtain ⟨d', hd'⟩ := halike.stat hd
    have hdst := hstat.mpr ⟨h.dst_ne, hd'⟩
    obtain rfl := h.statAt_dst hlen hdst
    have hres := halike.resolve hs'
    by_cases hino : fs'.ino l = some ti
    · rw [FileSystem.node_set_self hino] at hres
      exact ⟨_, _, hstat.mpr ⟨h.src_ne, FileSystem.stat_eq_ok.mpr ⟨l, hres⟩⟩, hdst, rfl⟩
    · rw [FileSystem.node_set_ne hino, FileSystem.resolve_node hs'] at hres
      have hsrc := hstat.mpr ⟨h.src_ne, FileSystem.stat_eq_ok.mpr ⟨l, hres⟩⟩
      refine ⟨s', _, hsrc, hdst, ?_⟩
      rw [h.final_size (h.statAt_src hlen hsrc)]
      exact hsize.resolve_left hino

theorem Copied.agrees_iff (h : Copied w src dst uid gid mode ls lt s n si ti fs w')
    (hlen : dst.length < installMaxPathlen) (hvalid : ¬(uid = nullId ∨ gid = nullId)) :
    Accepts w' src mode .file uid gid dst ∧ Established w' dst mode uid gid ↔
      FileAgrees w mode src dst uid gid := by
  obtain ⟨fs', hrename, hfs⟩ := h.renamed
  have hinode : fs'.inode ti = some n := by
    obtain ⟨_, _, _, _, -, -, -, -, -, -, -, ⟨-, rfl⟩ | ⟨-, rfl⟩⟩ := FileSystem.rename_eq hrename
    · exact h.opened.inode
    · exact h.opened.inode
  have hsizes := h.sizes_iff hlen hfs hinode
  have hbits : (0o755 : Mode) &&& (if w.env.inGroup n.stGid then 0o7777 else 0o5777) = 0o755 := by
    split <;> rfl
  have hperm := perm_withPerm w.env mode (n.withData (sourceData si ti s))
  rw [stGid_withData] at hperm
  have hwithin : h.final.stMode &&& 0o755 = mode &&& 0o755 :=
    (handedOver_within _ _ _ _).trans (withPerm_within _ _ _)
  have hids : (h.final.stUid = uid ∧ h.final.stGid = gid) ↔
      (w.env.uid = uid → n.stUid = uid ∧ n.stGid = gid) := by
    refine (handedOver_ids hvalid).trans (imp_congr Iff.rfl ?_)
    show (n.withData _).stUid = uid ∧ (n.withData _).stGid = gid ↔ _
    rw [stGid_withData, stUid_withData]
  have htype : fileTypeOf h.final.stMode = fileTypeOf n.stMode := fileTypeOf_sameType h.sameType
  constructor
  · rintro ⟨haccepts, -⟩
    obtain ⟨m, hm, hmode, huid, hgid⟩ := haccepts.rest
    obtain ⟨m', hm', hknown⟩ := haccepts.known
    obtain rfl := h.statAt_dst hlen hm
    obtain rfl := h.statAt_dst hlen hm'
    exact ⟨hwithin.symm.trans hmode, ti, n, fs', ⟨fs, lt, h.tmp, h.opened.resolve, hrename⟩,
      htype ▸ hknown, hids.mp ⟨huid, hgid⟩, hsizes.mp (haccepts.size rfl)⟩
  · rintro ⟨hmode, i, n', fs'', ⟨fs₁, l, htmp, hres, hrename'⟩, hknown, howner, hsame⟩
    rw [h.tmp] at htmp
    cases htmp
    rw [h.opened.resolve] at hres
    cases hres
    rw [hrename] at hrename'
    cases hrename'
    obtain ⟨s', d, hs', hd, hsize⟩ := hsizes.mpr hsame
    obtain rfl := h.statAt_dst hlen hd
    obtain ⟨huid, hgid⟩ := hids.mpr howner
    have hfull : h.final.perm = mode := handedOver_perm (hperm.trans (perm_within hbits hmode)) hmode
    exact ⟨⟨⟨_, hd, by rwa [htype]⟩, fun _ => ⟨s', _, hs', hd, hsize⟩,
      ⟨_, hd, hwithin.trans hmode, huid, hgid⟩⟩, _, hd, hfull, huid, hgid⟩

end Agrees

/-! ## A directory -/

/-- A directory that is made is found right exactly under these conditions: the mode has no bits outside
of 0755; what the path leads to once the missing directories are made has a known type, the right mode
(once it is handed over) and, if the owner is to be the current user, the right owner and group. -/
structure DirectoryAgrees (w : World) (perm : Mode) (dir : Text) (uid gid : Id) : Prop where
  bits : perm &&& 0o755 = perm
  there : ∃ m, Becomes w dir perm m ∧ fileTypeOf m.stMode ≠ none ∧
    (handedOver w.env uid gid m).perm = perm ∧ (w.env.uid = uid → m.stUid = uid ∧ m.stGid = gid)

theorem directory_agrees_iff {w w' : World} {dir : Text} {perm : Mode} {uid gid : Id}
    (hvalid : ¬(uid = nullId ∨ gid = nullId))
    (h : ∀ n, statAt w' dir = some n ↔ ∃ m, Becomes w dir perm m ∧ handedOver w.env uid gid m = n) :
    Accepts w' dir perm .directory uid gid dir ∧ Established w' dir perm uid gid ↔
      DirectoryAgrees w perm dir uid gid := by
  constructor
  · rintro ⟨haccepts, n, hn, hperm, huid, hgid⟩
    obtain ⟨n', hn', hmode, -⟩ := haccepts.rest
    obtain ⟨n'', hn'', hknown⟩ := haccepts.known
    obtain rfl := Option.some.inj (hn'.symm.trans hn)
    obtain rfl := Option.some.inj (hn''.symm.trans hn)
    obtain ⟨m, hm, rfl⟩ := (h n'').mp hn
    rw [fileTypeOf_sameType (sameType_handedOver w.env uid gid m)] at hknown
    exact ⟨(within_perm hperm).symm.trans hmode, m, hm, hknown, hperm,
      (handedOver_ids hvalid).mp ⟨huid, hgid⟩⟩
  · rintro ⟨hwithin, m, hm, hknown, hperm, hids⟩
    obtain ⟨huid, hgid⟩ := (handedOver_ids hvalid).mpr hids
    have hn := (h _).mpr ⟨m, hm, rfl⟩
    rw [← fileTypeOf_sameType (sameType_handedOver w.env uid gid m)] at hknown
    exact ⟨⟨⟨_, hn, hknown⟩, nofun, _, hn, (within_perm hperm).trans hwithin, huid, hgid⟩, _, hn,
      hperm, huid, hgid⟩

/-! ## Agreement -/

/-- The name leads to the same file once the temporary file of `dst` has been renamed, whatever is in it. -/
def Kept (w : World) (dst name : Text) : Prop :=
  ∀ i fs l n m fs', w.emptied (Foundation.route w.os.cwd (tmpName dst)) = .ok (i, fs) →
    fs.resolve (Foundation.route w.os.cwd (tmpName dst)) = .ok (l, some n) → n.SameType m →
    (fs.set i m).rename (Foundation.route w.os.cwd (tmpName dst)) (Foundation.route w.os.cwd dst) =
      .ok fs' →
    fs'.stat (Foundation.route w.os.cwd name) = w.os.fs.stat (Foundation.route w.os.cwd name)

/-- Reading the library names of an item, if it has any, is not disturbed, neither by what is copied nor by
calls that are refused. -/
def NamesKept (w : World) (item : Item) (dst : Text) : Prop :=
  ∀ name, item.src = some name ∨ item.dst = some name →
    strEnds name ['.', 'v', 'l', 'b'] = true → Undisturbed w.env ∧ Kept w dst name

theorem opened_quiet {w w₁ : World} (h : Frame Quiet w w₁) (l : Loc) (n : Node) :
    w₁.opened l n = w.opened l n := by
  unfold World.opened
  rw [h.quiet_fs]

theorem emptied_quiet {w w₁ : World} (h : Frame Quiet w w₁) (p : Route) :
    w₁.emptied p = w.emptied p := by
  unfold World.emptied World.opened
  rw [h.quiet_fs, h.env]

section Agreement

variable {w w' w₁ w₂ : World} {item t : Item} {src dst path : Text} {uid gid : Id} {mode : Mode}
  {ls lt : Loc} {s n : Node} {si ti : Nat} {fs : FileSystem} {status : Status}

theorem Copied.quiet (h : Copied w₁ src dst uid gid mode ls lt s n si ti fs w₂)
    (hq : Frame Quiet w w₁) (hq' : Frame Quiet w₂ w') :
    Copied w src dst uid gid mode ls lt s n si ti fs w' := by
  refine ⟨h.src_ne, h.dst_ne, ?_, ?_, ?_, ?_, ?_, ?_, ?_⟩
  · rw [← hq.quiet_fs, ← hq.quiet_cwd]
    exact h.source
  · rw [← opened_quiet hq]
    exact h.source_opened
  · rw [← emptied_quiet hq, ← hq.quiet_cwd]
    exact h.tmp
  · rw [← hq.quiet_cwd]
    exact h.opened
  · rw [← hq.quiet_cwd, ← hq.env, hq'.quiet_fs]
    exact h.renamed
  · rw [hq'.env, h.env, hq.env]
  · rw [hq'.quiet_cwd, h.cwd, hq.quiet_cwd]

theorem Copied.kept (h : Copied w src dst uid gid mode ls lt s n si ti fs w') {name : Text}
    (hkept : Kept w dst name) : statAt w' name = statAt w name := by
  have hstat := hkept ti fs lt n h.final _ h.tmp h.opened.resolve h.sameType h.rename
  refine Option.ext fun x => ?_
  rw [statAt_eq_stat, statAt_eq_stat, h.cwd, hstat]

/-- A success of `inst_copy` is one of `install_file_copy`. -/
theorem instCopy_ok (hids : wantedIds w.env item = some (uid, gid))
    (h : instCopy item 0 w = (.ok status, w')) (hok : status.status = .ok) :
    ¬(uid = nullId ∨ gid = nullId) ∧ ∃ src dst ls lt s n si ti fs, item.src = some src ∧
      item.dst = some dst ∧ Copied w src dst uid gid item.perm ls lt s n si ti fs w' := by
  unfold instCopy at h
  rw [withIds_found hids] at h
  split at h
  · cases h
  · rename_i hvalid
    refine ⟨hvalid, ?_⟩
    obtain ⟨src, w₁, hderef, hnext⟩ := bind_eq_ok h
    obtain ⟨hsrc, rfl⟩ := deref_ok hderef
    obtain ⟨size, w₁, hsize, hrest⟩ := bind_eq_ok hnext
    have hq : Frame Quiet _ w₁ :=
      Frame.of_run (keeps_iposixFileSize fun _ _ => ⟨rfl, rfl⟩) hsize
    have hdry : notDryrun 0 = true := rfl
    rw [if_pos hdry] at hrest
    obtain ⟨dst, w₂, hderef', hlast⟩ := bind_eq_ok hrest
    obtain ⟨hdst, rfl⟩ := deref_ok hderef'
    obtain ⟨status', w₂, hcopy, hend⟩ := bind_eq_ok hlast
    by_cases hok' : status'.status = .ok
    · rw [if_neg (not_not.mpr hok')] at hend
      obtain ⟨ls, lt, s, n, si, ti, fs, hcopied⟩ := installFileCopy_ok hcopy hok'
      cases hend
      exact ⟨src, dst, ls, lt, s, n, si, ti, fs, hsrc, hdst, hcopied.quiet hq (Frame.refl _)⟩
    · rw [if_pos hok'] at hend
      cases hend
      exact absurd hok hok'

/-- A success of `install` is one of its operator, with nothing written before or after. -/
theorem install_ok (ht : translated installOpers w item = some t)
    (h : install item 0 w = (.ok status, w')) :
    ∃ w₁ w₂, (installOpers item.op).trans item (w.withErrno 0) = (.ok (.ok t), w₁) ∧
      (installOpers item.op).oper t 0 w₁ = (.ok status, w₂) ∧ Frame Quiet w w₁ ∧
      Frame Quiet w₂ w' := by
  obtain ⟨w₁, htrans⟩ := translated_eq_some ht
  have hq := quiet_of_trans (keeps_installTrans item) htrans
  rcases hoper : (installOpers item.op).oper t 0 w₁ with ⟨r, w₂⟩
  obtain ⟨w'', hrun, -, hflush⟩ := runOper_run htrans hoper
  have heq : (r, w'') = (.ok status, w') := hrun.symm.trans h
  cases heq
  exact ⟨w₁, w₂, htrans, hoper, hq, hflush.mono fun _ he => he.quiet⟩

/-- What an item asks for, when there is no doubt about its translation. -/
theorem checkOk_iff_accepts (ht : translated instchkOpers w item = some t)
    (hc : Checkable w item.op t src dst uid gid) :
    CheckOk w item ↔ Accepts w src t.perm (wantedType item.op) uid gid dst := by
  rw [checkOk_iff]
  constructor
  · rintro ⟨t', ht', src', dst', uid', gid', hc', haccepts⟩
    obtain rfl := Option.some.inj (ht.symm.trans ht')
    obtain rfl := Option.some.inj (hc.src.symm.trans hc'.src)
    obtain rfl := Option.some.inj (hc.dst.symm.trans hc'.dst)
    have hids := Option.some.inj (hc.ids.symm.trans hc'.ids)
    cases hids
    exact haccepts
  · exact fun haccepts => ⟨t, ht, src, dst, uid, gid, hc, haccepts⟩

/-- What is no link is checked where it is installed. -/
theorem translated_instchk (hop : wantedType item.op ≠ .symlink) :
    translated instchkOpers w item = translated installOpers w item := by
  unfold translated
  cases hitem : item.op with
  | instSymlink => rw [hitem] at hop; exact absurd rfl hop
  | instLiblink => rw [hitem] at hop; exact absurd rfl hop
  | _ => rfl

/-- An item is installed as it is checked. -/
structure Agrees (w : World) (item : Item) (path : Text) (uid gid : Id) : Prop where
  check : CheckOk w item
  established : Established w path item.perm uid gid

theorem agrees_iff (ht : translated instchkOpers w item = some t)
    (hc : Checkable w item.op t src path uid gid) :
    Agrees w item path uid gid ↔ Accepts w src item.perm (wantedType item.op) uid gid path ∧
      Established w path item.perm uid gid := by
  have hcheck := checkOk_iff_accepts ht hc
  rw [(instchk_sameWants ht).perm] at hcheck
  rw [← hcheck]
  exact ⟨fun h => ⟨h.check, h.established⟩, fun h => ⟨h.1, h.2⟩⟩

/-- The state before an item is installed is one after which the check agrees. -/
def Agreeable (w : World) (item t : Item) (path : Text) (uid gid : Id) : Prop :=
  match wantedType item.op with
  | .directory => DirectoryAgrees w item.perm path uid gid
  | _ => ∃ src, t.src = some src ∧ FileAgrees w item.perm src path uid gid

theorem copy_agrees_iff (hfile : wantedType item.op = .file)
    (ht : translated installOpers w item = some t) (hpath : checkedDst item.op t = some path)
    (hlen : path.length < installMaxPathlen) (hids : wantedIds w.env item = some (uid, gid))
    (hnames : NamesKept w item path) (hrun : install item 0 w = (.ok status, w'))
    (hok : status.status = .ok) :
    Agrees w' item path uid gid ↔ ∃ src, t.src = some src ∧ FileAgrees w item.perm src path uid gid := by
  obtain ⟨w₁, w₂, htrans, hoper, hq, hq'⟩ := install_ok ht hrun
  have hwants := installTrans_sameWants htrans
  have hop : (installOpers item.op).oper = instCopy := by
    cases hop : item.op <;> rw [hop] at hfile <;> first | rfl | cases hfile
  have hdst : checkedDst item.op t = t.dst := by
    cases hop : item.op <;> rw [hop] at hfile <;> first | rfl | cases hfile
  rw [hop] at hoper
  have hids₁ : wantedIds w₁.env t = some (uid, gid) := by
    rw [hq.env, hwants.wantedIds]
    exact hids
  obtain ⟨hvalid, src, dst, ls, lt, s, n, si, ti, fs, hsrc, hdst', hcopied⟩ :=
    instCopy_ok hids₁ hoper hok
  obtain rfl : dst = path := Option.some.inj (hdst'.symm.trans (hdst.symm.trans hpath))
  have hcopied := hcopied.quiet hq hq'
  have hglobals : w'.globals = w.globals := by
    rw [hq'.globals, (Frame.of_run (keeps_instCopy t 0) hoper).globals, hq.globals]
  have hrereads : Rereads item w w' := by
    refine ⟨hglobals, fun name n hname hlib hn => ?_⟩
    obtain ⟨hcalm, hkept⟩ := hnames name hname hlib
    exact ⟨hcalm, by rw [hcopied.env]; exact hcalm, (hcopied.kept hkept).trans hn⟩
  have ht' : translated instchkOpers w' item = some t := by
    rw [translated_instchk (by rw [hfile]; decide)]
    exact hrereads.translated ht
  have hc : Checkable w' item.op t src dst uid gid := by
    refine ⟨(checkedSrc_file hfile).trans hsrc, hpath, ?_, hvalid⟩
    rw [hcopied.env, hwants.wantedIds]
    exact hids
  rw [agrees_iff ht' hc, hfile, ← hwants.perm, hcopied.agrees_iff hlen hvalid]
  constructor
  · exact fun h => ⟨src, hsrc, h⟩
  · rintro ⟨src', hsrc', h⟩
    rwa [Option.some.inj (hsrc.symm.trans hsrc')]

theorem mkdir_agrees_iff (hop : item.op = .instMkdir)
    (ht : translated installOpers w item = some t) (hpath : t.dir = some path)
    (hlen : path.length < installMaxPathlen) (hids : wantedIds w.env item = some (uid, gid))
    (hrun : install item 0 w = (.ok status, w')) (hok : status.status = .ok) :
    Agrees w' item path uid gid ↔ DirectoryAgrees w item.perm path uid gid := by
  obtain ⟨w₁, w₂, htrans, hoper, hq, hq'⟩ := install_ok ht hrun
  have hwants := installTrans_sameWants htrans
  rw [hop] at htrans hoper
  obtain rfl := ntranMkdir_state htrans
  have hids₁ : wantedIds (w.withErrno 0).env t = some (uid, gid) := by
    rw [hwants.wantedIds]
    exact hids
  obtain ⟨hvalid, hstat⟩ := instMkdir_ok hpath hids₁ hlen hoper hok
  have hframe := Frame.of_run (keeps_instMkdir t 0) hoper
  have henv : w'.env = w.env := hq'.env.trans hframe.env
  have hglobals : w'.globals = w.globals := hq'.globals.trans hframe.globals
  have ht' : translated instchkOpers w' item = some t := by
    have hglobals : (w'.withErrno 0).globals = (w.withErrno 0).globals := hglobals
    exact translated_of_ok hop (ntranMkdir_again hglobals htrans)
  have hc : Checkable w' item.op t path path uid gid := by
    rw [hop]
    refine ⟨hpath, hpath, ?_, hvalid⟩
    rw [henv, hwants.wantedIds]
    exact hids
  rw [agrees_iff ht' hc, hop, ← hwants.perm]
  refine directory_agrees_iff hvalid fun n => ?_
  rw [hq'.sameFiles.statAt]
  exact hstat n

end Agreement

/-- A file `a` is wanted in the directory `d`. -/
def copyItem : Item := ⟨.instCopy, some ['a'], none, some ['d'], none, none, 0o644⟩

/-- The same, for the group `s`. -/
def groupItem : Item := { copyItem with group := some ['s'] }

/-- There are a file `a` and a directory `d`. The group `s` is not the one of the current user. -/
def copyWorld : World :=
  let w := World.ofFiles [([], ⟨sIfdir ||| 0o755, 0, 0, []⟩),
    (component ['d'], ⟨sIfdir ||| 0o755, 0, 0, []⟩),
    (component ['a'], ⟨sIfreg ||| 0o600, 0, 0, ['x']⟩)]
  { w with env := { w.env with group := fun name => if name = ['s'] then some 10 else none } }

end CStringVerified.Install
