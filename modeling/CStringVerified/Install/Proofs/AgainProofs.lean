import CStringVerified.Install.Proofs.LibnameProofs
import CStringVerified.Install.Proofs.PathLengthProofs

/-!
# The translation, once more

What an item is translated to depends on the global variables, and on the libraries it names. Where these
are found again, and read without a call being refused, the item is translated to the same again.
-/

namespace CStringVerified.Install

open Foundation Foundation.Run

/-- No call is refused, and a read of a library name is complete. -/
def Undisturbed (env : Env) : Prop :=
  ∀ tick, env.faults tick = none ∧ installMaxPathlen ≤ env.chunks tick

/-- What `libname` makes of a file. -/
def libraryName (n : Node) : Except Crash (Option Text) :=
  if sIsdir n.stMode || sIssock n.stMode then .ok none
  else
    let token := untilBlank (n.data.take installMaxPathlen)
    if installMaxPathlen ≤ token.length then .error .overrun
    else .ok (some (token.takeWhile fun c => c ≠ '\x00'))

section Again

variable {w w' w₁ : World} {name : Text}

/-- `libname` gives what the file says, if nothing disturbs it. -/
theorem libname_found {n : Node} (h : Undisturbed w.env) (hstat : statAt w name = some n) :
    (libname name w).1 = libraryName n := by
  unfold libraryName
  cases hfile : sIsdir n.stMode || sIssock n.stMode with
  | true =>
    have hunread : Unread w name := Or.inr (Or.inr fun n' hn' => by
      obtain rfl := Option.some.inj (hstat.symm.trans hn')
      exact Bool.or_eq_true_iff.mp hfile)
    obtain ⟨w', hrun⟩ := libname_unread hunread
    rw [if_pos rfl, hrun]
  | false =>
    obtain ⟨hdir, hsock⟩ := Bool.or_eq_false_iff.mp hfile
    have hread := libname_read (h w.tick).1 (h (w.tick + 1)).1 (h (w.tick + 1)).2 hstat hdir hsock
    rw [if_neg Bool.false_ne_true, hread]
    dsimp only
    rw [if_pos (h (w.tick + 2)).1]

/-- The library names of an item lead to the same files in both worlds, and are read undisturbed. -/
structure Rereads (item : Item) (w w' : World) : Prop where
  globals : w'.globals = w.globals
  names : ∀ name n, item.src = some name ∨ item.dst = some name →
    strEnds name ['.', 'v', 'l', 'b'] = true → statAt w name = some n →
      Undisturbed w.env ∧ Undisturbed w'.env ∧ statAt w' name = some n

variable {item t : Item} {w₁' : World}

/-- Reading names changes nothing that matters for reading more of them. -/
theorem Rereads.quiet (h : Rereads item w w') (hq : Frame Quiet w w₁) (hq' : Frame Quiet w' w₁') :
    Rereads item w₁ w₁' := by
  refine ⟨hq'.globals.trans (h.globals.trans hq.globals.symm), fun name n hname hlib hn => ?_⟩
  rw [hq.sameFiles.statAt] at hn
  rw [hq'.sameFiles.statAt, hq.env, hq'.env]
  exact h.names name n hname hlib hn

/-- A library that was read is read again. -/
theorem Rereads.libname {real : Text} (h : Rereads item w w')
    (hname : item.src = some name ∨ item.dst = some name)
    (hlib : strEnds name ['.', 'v', 'l', 'b'] = true)
    (hrun : Install.libname name w = (.ok (some real), w₁)) :
    ∃ w₁', Install.libname name w' = (.ok (some real), w₁') ∧ Rereads item w₁ w₁' := by
  have hquiet : ∀ {v v' : World} {r : Except Crash (Option Text)},
      Install.libname name v = (r, v') → Frame Quiet v v' := fun hrun =>
    (Frame.of_run (keeps_libname name) hrun).mono fun _ he => he.quiet
  -- A name that is read leads somewhere.
  obtain ⟨fd, w₂, hopen, hrest⟩ := bind_eq_ok hrun
  cases fd with
  | none => cases hrest
  | some fd =>
    obtain ⟨l, n, _, hne, hres, -⟩ := fopenRead_ok hopen
    have hn : statAt w name = some n := statAt_eq_some.mpr ⟨hne, l, hres⟩
    obtain ⟨hcalm, hcalm', hn'⟩ := h.names name n hname hlib hn
    have hfirst := libname_found hcalm hn
    have hsecond := libname_found hcalm' hn'
    rw [hrun] at hfirst
    rw [← hfirst] at hsecond
    have hagain : Install.libname name w' = (.ok (some real), (Install.libname name w').2) :=
      Prod.ext hsecond rfl
    exact ⟨_, hagain, h.quiet (hquiet hrun) (hquiet hagain)⟩

theorem Rereads.realName {real : Text} (h : Rereads item w w')
    (hname : item.src = some name ∨ item.dst = some name)
    (hrun : Install.realName name w = (.ok (some real), w₁)) :
    ∃ w₁', Install.realName name w' = (.ok (some real), w₁') ∧ Rereads item w₁ w₁' := by
  unfold Install.realName at hrun ⊢
  by_cases hlib : strEnds name ['.', 'v', 'l', 'b'] = true
  · rw [if_pos hlib] at hrun ⊢
    exact h.libname hname hlib hrun
  · rw [if_neg hlib] at hrun ⊢
    cases hrun
    exact ⟨w', rfl, h⟩

theorem Rereads.copyNames {srcName dir base : Text} (h : Rereads item w w')
    (hnames : CopyNames w item srcName dir base w₁) :
    ∃ w₁', CopyNames w' item srcName dir base w₁' := by
  obtain ⟨hdir, src, dstName, w₂, hsrc, hs, hd, hbase⟩ := hnames
  have hdst : item.src = some (item.dst.getD src) ∨ item.dst = some (item.dst.getD src) := by
    cases item.dst with
    | none => exact Or.inl hsrc
    | some dst => exact Or.inr rfl
  obtain ⟨w₂', hs', h₂⟩ := h.realName (Or.inl hsrc) hs
  obtain ⟨w₁', hd', -⟩ := h₂.realName hdst hd
  exact ⟨w₁', hdir, src, dstName, w₂', hsrc, hs', hd', hbase⟩

theorem Rereads.liblinkSource {src srcName : Text} (h : Rereads item w w') (hsrc : item.src = some src)
    (hname : LiblinkSource w src srcName w₁) : ∃ w₁', LiblinkSource w' src srcName w₁' := by
  unfold LiblinkSource at hname ⊢
  by_cases hlib : strEnds src ['.', 'v', 'l', 'b'] = true
  · rw [if_pos hlib] at hname
    obtain ⟨srcTmp, hrun, hbase⟩ := hname
    obtain ⟨w₁', hagain, -⟩ := h.libname (Or.inl hsrc) hlib hrun
    refine ⟨w₁', ?_⟩
    rw [if_pos hlib]
    exact ⟨srcTmp, hagain, hbase⟩
  · rw [if_neg hlib] at hname
    refine ⟨w', ?_⟩
    rw [if_neg hlib]
    exact ⟨hname.1, rfl⟩

/-- The same names are composed. -/
theorem Rereads.composes {tr : Ntran} {p : Plan} (h : Rereads item w w')
    (hplan : Composes w item tr p w₁) : ∃ w₁', Composes w' item tr p w₁' := by
  induction hplan with
  | copy hnames =>
    obtain ⟨w₁', hnames'⟩ := h.copyNames hnames
    rw [← h.globals]
    exact ⟨w₁', .copy hnames'⟩
  | copyExec hnames =>
    obtain ⟨w₁', hnames'⟩ := h.copyNames hnames
    rw [← h.globals]
    exact ⟨w₁', .copyExec hnames'⟩
  | link hsrc hdir hdst =>
    rw [← h.globals]
    exact ⟨w', .link hsrc hdir hdst⟩
  | liblink hsrc hdir hdst hname hbase =>
    obtain ⟨w₁', hname'⟩ := h.liblinkSource hsrc hname
    rw [← h.globals]
    exact ⟨w₁', .liblink hsrc hdir hdst hname' hbase⟩
  | mkdir hdir =>
    rw [← h.globals] at hdir ⊢
    exact ⟨w', .mkdir hdir⟩
  | chkLink _ hdir hdst hdirName hdstName ih =>
    obtain ⟨w₁', hplan'⟩ := ih
    exact ⟨w₁', .chkLink hplan' hdir hdst hdirName hdstName⟩
  | chkLiblink _ hdir hdst hdirName hdstName ih =>
    obtain ⟨w₁', hplan'⟩ := ih
    exact ⟨w₁', .chkLiblink hplan' hdir hdst hdirName hdstName⟩

/-- The same plan gives the same item. -/
theorem Composes.again {tr : Ntran} {p : Plan} {w₂ : World} (hplan : Composes w item tr p w₂)
    (hplan' : Composes w' item tr p w₁') (hrun : tr.run item w = (.ok (.ok t), w₁)) :
    tr.run item w' = (.ok (.ok t), w₁') := by
  obtain ⟨hformats, -, rfl⟩ := hplan.actual hrun
  rcases hplan'.ends with ⟨-, hrun'⟩ | ⟨hnot, -⟩
  · exact hrun'
  · exact absurd hformats hnot

/-- The item is translated to the same. -/
theorem Rereads.again (h : Rereads item w w') (tr : Ntran)
    (hrun : tr.run item w = (.ok (.ok t), w₁)) : ∃ w₁', tr.run item w' = (.ok (.ok t), w₁') := by
  obtain ⟨p, w₂, hplan⟩ := tr.composes hrun
  obtain ⟨w₂', hplan'⟩ := h.composes hplan
  exact ⟨w₂', hplan.again hplan' hrun⟩

/-- The translation of a directory makes no call. -/
theorem ntranMkdir_state (hrun : ntranMkdir item w = (.ok (.ok t), w₁)) : w₁ = w := by
  obtain ⟨p, w₂, hplan⟩ := Ntran.mkdir.composes hrun
  obtain ⟨-, rfl, -⟩ := hplan.actual hrun
  cases hplan
  rfl

theorem ntranMkdir_again (hglobals : w'.globals = w.globals)
    (hrun : ntranMkdir item w = (.ok (.ok t), w₁)) : ntranMkdir item w' = (.ok (.ok t), w') := by
  obtain ⟨p, w₂, hplan⟩ := Ntran.mkdir.composes hrun
  have hplan' : Composes w' item .mkdir p w' := by
    cases hplan with
    | mkdir hdir =>
      rw [← hglobals] at hdir ⊢
      exact .mkdir hdir
  exact hplan.again hplan' hrun

/-- The translation of an operation, as the installer makes it. -/
def installNtran : InstallOp → Ntran
  | .instCopy => .copy
  | .instCopyExec => .copyExec
  | .instSymlink => .link
  | .instMkdir => .mkdir
  | .instLiblink => .liblink

theorem installNtran_run (op : InstallOp) : (installNtran op).run = (installOpers op).trans := by
  cases op <;> rfl

theorem Rereads.translated (h : Rereads item w w') (ht : translated installOpers w item = some t) :
    Install.translated installOpers w' item = some t := by
  obtain ⟨w₁, hrun⟩ := translated_eq_some ht
  rw [← installNtran_run] at hrun
  obtain ⟨w₁', hrun'⟩ :=
    (h.quiet (frame_withErrno w 0) (frame_withErrno w' 0)).again (installNtran item.op) hrun
  rw [installNtran_run] at hrun'
  exact translated_of_ok rfl hrun'

end Again

end CStringVerified.Install
