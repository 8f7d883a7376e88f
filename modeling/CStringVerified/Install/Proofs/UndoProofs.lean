import CStringVerified.Foundation.Transitions
import CStringVerified.Install.Proofs.FreshProofs

/-!
# Installing and deinstalling

`deinstall` takes away what `install` has added for a fresh item. The items of a table are taken away in
the reverse order, so each is found as it was left: the whole table is undone (`run_undo`).
-/

namespace CStringVerified.Install

open Foundation Foundation.Run

/-! ## Running a table -/

/-- An item is run, with success. -/
def succeeded (run : Item → Sys Status) (w : World) (item : Item) : Option World :=
  match run item w with
  | (.ok ⟨.ok, _, _⟩, w') => some w'
  | _ => none

section Table

variable {run : Item → Sys Status} {w w' : World} {item : Item} {items : List Item}
  {statuses : List Status}

theorem succeeded_eq_some : succeeded run w item = some w' ↔
    ∃ status, run item w = (.ok status, w') ∧ status.status = .ok := by
  unfold succeeded
  constructor
  · intro h
    split at h
    · rename_i hrun
      cases h
      exact ⟨_, hrun, rfl⟩
    · cases h
  · rintro ⟨⟨code, message, error⟩, hrun, rfl⟩
    rw [hrun]

/-- A table of which every item is run with success, step by step. -/
theorem run_of_runItems (hrun : runItems run items w = (.ok statuses, w'))
    (hok : ∀ s ∈ statuses, s.status = .ok) :
    Foundation.run (succeeded run) w items = some w' := by
  induction items generalizing w statuses with
  | nil =>
    cases hrun
    rfl
  | cons item items ih =>
    obtain ⟨status, w₁, hitem, hrest⟩ := bind_eq_ok hrun
    by_cases hfatal : status.status = .fatal
    · rw [if_pos hfatal] at hrest
      cases hrest
      have hstatus := hok status (List.mem_singleton_self _)
      rw [hfatal] at hstatus
      cases hstatus
    · rw [if_neg hfatal] at hrest
      obtain ⟨rest, w₂, hitems, hend⟩ := bind_eq_ok hrest
      cases hend
      have hfirst := hok status List.mem_cons_self
      exact run_cons_eq_some.mpr ⟨w₁, succeeded_eq_some.mpr ⟨status, hitem, hfirst⟩,
        ih hitems fun s hs => hok s (List.mem_cons_of_mem status hs)⟩

theorem runItems_of_run (h : Foundation.run (succeeded run) w items = some w') :
    ∃ statuses, runItems run items w = (.ok statuses, w') ∧ statuses.length = items.length ∧
      ∀ s ∈ statuses, s.status = .ok := by
  induction items generalizing w with
  | nil =>
    cases h
    exact ⟨[], rfl, rfl, fun s hs => by cases hs⟩
  | cons item items ih =>
    obtain ⟨w₁, hitem, hrest⟩ := run_cons_eq_some.mp h
    obtain ⟨status, hrun, hok⟩ := succeeded_eq_some.mp hitem
    obtain ⟨rest, hitems, hlen, hall⟩ := ih hrest
    refine ⟨status :: rest, ?_, congrArg (· + 1) hlen, ?_⟩
    · show (run item >>= _) w = _
      rw [bind_ok hrun, if_neg (by rw [hok]; decide), bind_ok hitems]
      rfl
    · intro s hs
      rcases List.mem_cons.mp hs with rfl | hs
      · exact hok
      · exact hall s hs

end Table

/-! ## Removing -/

/-- The run succeeds, and all it changes is that one name is gone. -/
def Removes (l : Loc) (m : Sys Status) (w : World) : Prop :=
  ∃ status w', m w = (.ok status, w') ∧ status.status = .ok ∧ w'.os.fs = w.os.fs.del l ∧
    w'.os.cwd = w.os.cwd

section Removing

variable {w w' w₁ : World} {op : InstallOp} {item t : Item} {path dir dst : Text} {l : Loc} {n : Node}

theorem fsCall_done {call : Call} {f : World → Except Errno FileSystem} {fs : FileSystem}
    (hfault : w.env.faults w.tick = none) (hf : f w = .ok fs) :
    fsCall call f w = (.ok 0, (w.record call true).withOs { w.os with fs := fs }) := by
  rcases fsCall_cases call f w with ⟨fs', -, hf', hrun⟩ | ⟨e, he, -⟩
  · rw [hf] at hf'
    cases hf'
    exact hrun
  · rcases he with he | ⟨-, he⟩
    · rw [hfault] at he
      cases he
    · rw [hf] at he
      cases he

/-- A removal that is a call which is not refused. -/
theorem deinstRemove_removes {call : Call} {f : World → Except Errno FileSystem} (message : String)
    (hfault : w.env.faults w.tick = none) (hf : f w = .ok (w.os.fs.del l)) :
    Removes l (deinstRemove (fsCall call f) message 0) w := by
  have hrun : deinstRemove (fsCall call f) message 0 w = (.ok ⟨.ok, none, some w.errno⟩, _) :=
    (bind_ok (fsCall_done hfault hf)).trans rfl
  exact ⟨_, _, hrun, rfl, rfl, rfl⟩

theorem unlink_removes (hcalm : Undisturbed w.env) (message : String) (hne : path ≠ [])
    (hfind : w.os.fs.find (Foundation.route w.os.cwd path) = .ok (l, some n))
    (hdir : sIsdir n.stMode = false) (hslash : endsSlash path = false) :
    Removes l (deinstRemove (unlink path) message 0) w := by
  refine deinstRemove_removes message (hcalm w.tick).1 ?_
  rw [show w.route path = .ok (Foundation.route w.os.cwd path) from if_neg hne]
  exact FileSystem.unlink_found hfind hdir hslash

theorem rmdir_removes (hcalm : Undisturbed w.env) (message : String) (hne : path ≠ [])
    (hfind : w.os.fs.find (Foundation.route w.os.cwd path) = .ok (l, some n))
    (hdir : sIsdir n.stMode = true)
    (hdot : (Foundation.route w.os.cwd path).names.getLast? ≠ some dot) (hroot : l ≠ [])
    (hempty : ∀ l', l <+: l' → l' ≠ l → w.os.fs.node l' = none) :
    Removes l (deinstRemove (rmdir path) message 0) w := by
  refine deinstRemove_removes message (hcalm w.tick).1 ?_
  rw [show w.route path = .ok (Foundation.route w.os.cwd path) from if_neg hne]
  exact FileSystem.rmdir_found hfind hdir hdot hroot hempty

theorem deinstLink_eq (hdir : t.dir = some dir) (hdst : t.dst = some dst)
    (hfits : (joinPath dir dst).length < installMaxPathlen) :
    deinstLink t 0 = deinstRemove (unlink (joinPath dir dst)) "could not unlink" 0 := by
  have hmax : installMaxPathlen ≤ intMax := by decide
  have hwhole : snprintf installMaxPathlen (joinPath dir dst) = some (joinPath dir dst) := by
    rw [snprintf, if_pos (hfits.le.trans hmax)]
    exact congrArg some (cutPath_of_lt hfits)
  unfold deinstLink
  rw [if_pos (show notDryrun 0 = true from rfl), hdir, hdst]
  funext w
  simp only [deref, pure_bind_apply, hwhole]

/-- What was put in its place is removed. -/
theorem Placed.removes (h : Placed w op t path l n w') (hroom : Room w op t) (htree : w.os.fs.Tree)
    (hcalm : Undisturbed w₁.env) (hfs : ∀ l', w₁.os.fs.node l' = w'.os.fs.node l')
    (hcwd : w₁.os.cwd = w.os.cwd) : Removes l ((deinstOpers op).oper t 0) w₁ := by
  have hfind : w₁.os.fs.find (Foundation.route w₁.os.cwd path) = .ok (l, some n) := by
    rw [hcwd, (FileSystem.alike_of_nodes hfs).find (h.added.find h.place), hfs, h.added.node]
  have hfile : op ≠ .instMkdir → sIsdir n.stMode = false := fun hop =>
    Bool.eq_false_iff.mpr fun hdir => hop (h.kind.mp hdir)
  have hcopy : t.dst = some path → op ≠ .instMkdir → Removes l (deinstCopy t 0) w₁ := by
    intro hdst hop
    unfold deinstCopy
    rw [hdst]
    exact unlink_removes hcalm _ h.ne hfind (hfile hop) (h.slash hop)
  have hlink : wantedType op = .symlink → removedPath .instSymlink t = some path →
      Removes l (deinstLink t 0) w₁ := by
    intro htype hremoved
    obtain ⟨dir, hdir, hremoved⟩ := Option.bind_eq_some_iff.mp hremoved
    obtain ⟨dst, hdst, hpath⟩ := Option.bind_eq_some_iff.mp hremoved
    have hfresh := hroom.link htype hdir hdst
    have hwhole : joinPath dir dst = path := by
      rw [← cutPath_of_lt hfresh.fits]
      exact Option.some.inj hpath
    have hop : op ≠ .instMkdir := by
      rintro rfl
      cases htype
    rw [deinstLink_eq hdir hdst hfresh.fits, hwhole]
    exact unlink_removes hcalm _ h.ne hfind (hfile hop) (h.slash hop)
  cases op with
  | instCopy => exact hcopy h.removed nofun
  | instCopyExec => exact hcopy h.removed nofun
  | instSymlink => exact hlink rfl h.removed
  | instLiblink => exact hlink rfl h.removed
  | instMkdir =>
    have hdir : t.dir = some path := h.removed
    show Removes l (deinstMkdir t 0) w₁
    unfold deinstMkdir
    rw [hdir]
    -- The directory has a name of its own, and nothing is in it.
    obtain ⟨front, x, hnames⟩ := List.eq_nil_or_concat _ |>.resolve_left (route_ne_nil w.os.cwd path)
    rw [List.concat_eq_append] at hnames
    obtain ⟨above, d, rfl, hdot, -⟩ := htree.vacant hnames h.place
    refine rmdir_removes hcalm _ h.ne hfind (h.kind.mpr rfl) ?_ (by simp) fun l' hl' hne => ?_
    · rw [hcwd, hnames, List.getLast?_concat]
      exact fun heq => hdot (Option.some.inj heq)
    · rw [hfs, h.added.rest l' hne]
      exact htree.below h.added.absent hl'

end Removing

/-! ## Undoing -/

/-- No call of the process is refused, and the files lie in directories. -/
structure Orderly (w : World) : Prop where
  calm : Undisturbed w.env
  tree : w.os.fs.Tree

/-- An undisturbed process finds the files as they are in the other world. -/
structure Like (w w' : World) : Prop where
  files : ∀ l, w'.os.fs.node l = w.os.fs.node l
  cwd : w'.os.cwd = w.os.cwd
  globals : w'.globals = w.globals
  calm : Undisturbed w'.env

/-- A process that nothing disturbs either finds all the files there were. -/
structure Grown (w w' : World) : Prop where
  files : FileSystem.Grows w.os.fs w'.os.fs
  cwd : w'.os.cwd = w.os.cwd
  globals : w'.globals = w.globals
  calm : Undisturbed w.env
  calm' : Undisturbed w'.env

section Undo

variable {w w' w₁ : World} {item t : Item} {items : List Item} {statuses : List Status} {path : Text}

theorem Grown.trans (h : Grown w w') (h' : Grown w' w₁) : Grown w w₁ :=
  ⟨fun l n hn => h'.files l n (h.files l n hn), h'.cwd.trans h.cwd, h'.globals.trans h.globals, h.calm,
    h'.calm'⟩

theorem install_orderly (h : Orderly w) (hfresh : Fresh w item)
    (hrun : succeeded (fun item => install item 0) w item = some w') : Orderly w' := by
  obtain ⟨status, hrun, hok⟩ := succeeded_eq_some.mp hrun
  obtain ⟨t, path, l, n, -, hplaced⟩ := install_placed h.calm h.tree hfresh hrun hok
  refine ⟨?_, hplaced.added.tree h.tree (directory_above h.tree hplaced.place)⟩
  rw [(Frame.of_run (keeps_install item 0) hrun).env]
  exact h.calm

theorem Grown.statAt (h : Grown w w₁) {n : Node} (hn : Install.statAt w path = some n) :
    Install.statAt w₁ path = some n := by
  obtain ⟨hne, l, hres⟩ := statAt_eq_some.mp hn
  rw [statAt_eq_some, h.cwd]
  exact ⟨hne, l, h.files.resolve hres⟩

/-- An item is translated to the same again. -/
theorem Grown.translated (h : Grown w w₁) (ht : translated installOpers w item = some t) :
    Install.translated installOpers w₁ item = some t :=
  Rereads.translated ⟨h.globals, fun _ _ _ _ hn => ⟨h.calm, h.calm', h.statAt hn⟩⟩ ht

/-- All that was there is there after a fresh item was installed. -/
theorem install_grown (h : Orderly w) (hfresh : Fresh w item)
    (hrun : succeeded (fun item => install item 0) w item = some w') : Grown w w' := by
  have horderly := install_orderly h hfresh hrun
  obtain ⟨status, hrun, hok⟩ := succeeded_eq_some.mp hrun
  obtain ⟨t, path, l, n, -, hplaced⟩ := install_placed h.calm h.tree hfresh hrun hok
  exact ⟨hplaced.added.grows, hplaced.cwd, (Frame.of_run (keeps_install item 0) hrun).globals, h.calm,
    horderly.calm⟩

/-- A fresh item that was installed is taken away by `deinstall`. -/
theorem deinstall_undoes (horderly : Orderly w) (hfresh : Fresh w item)
    (h : succeeded (fun item => install item 0) w item = some w') (hlike : Like w' w₁) :
    ∃ w₂, succeeded (fun item => deinstall item 0) w₁ item = some w₂ ∧ Like w w₂ := by
  obtain ⟨status, hrun, hok⟩ := succeeded_eq_some.mp h
  have hframe := Frame.of_run (keeps_install item 0) hrun
  obtain ⟨t, path, l, n, ht, hplaced⟩ :=
    install_placed horderly.calm horderly.tree hfresh hrun hok
  have hcwd : w₁.os.cwd = w.os.cwd := hlike.cwd.trans hplaced.cwd
  have hglobals : w₁.globals = w.globals := hlike.globals.trans hframe.globals
  have hgrown : Grown w w₁ := by
    refine ⟨fun l' m hm => ?_, hcwd, hglobals, horderly.calm, hlike.calm⟩
    rw [hlike.files l']
    exact hplaced.added.grows l' m hm
  obtain ⟨w₂, htrans⟩ := translated_eq_some
    ((translated_deinst w₁ item).trans (hgrown.translated ht))
  have hquiet : Frame Quiet w₁ w₂ := by
    rw [deinstOpers_trans] at htrans
    exact quiet_of_trans (keeps_installTrans item) htrans
  have hcalm₂ : Undisturbed w₂.env := by
    rw [hquiet.env]
    exact hlike.calm
  have hfiles₂ : ∀ l', w₂.os.fs.node l' = w'.os.fs.node l' := by
    rw [hquiet.quiet_fs]
    exact hlike.files
  obtain ⟨status', w₃, hoper, hok', hfs, hcwd'⟩ := hplaced.removes (hfresh t ht) horderly.tree hcalm₂
    hfiles₂ (hquiet.quiet_cwd.trans hcwd)
  obtain ⟨w₄, hdeinst, hos, -⟩ := runOper_run htrans hoper
  have hframe' : Frame (fun _ => True) w₁ w₄ := Frame.of_run (keeps_deinstall item 0) hdeinst
  refine ⟨w₄, succeeded_eq_some.mpr ⟨status', hdeinst, hok'⟩, fun l' => ?_, ?_, ?_, ?_⟩
  · rw [hos, hfs]
    exact hplaced.added.del hfiles₂ l'
  · rw [hos, hcwd', hquiet.quiet_cwd, hcwd]
  · rw [hframe'.globals, hglobals]
  · rw [hframe'.env]
    exact hlike.calm

/-- Installing a table of fresh items adds files, and nothing else changes that a process finds. -/
theorem table_grown (horderly : Orderly w)
    (hfresh : Along (succeeded fun item => install item 0) Fresh w items)
    (hrun : Foundation.run (succeeded fun item => install item 0) w items = some w') :
    Grown w w' ∧ Orderly w' := by
  refine run_inv_of (I := fun u => Grown w u ∧ Orderly u) ?_ hrun hfresh
    ⟨⟨fun _ _ h => h, rfl, rfl, horderly.calm, horderly.calm⟩, horderly⟩
  rintro u item v ⟨hgrown, hu⟩ hitem hstep
  exact ⟨hgrown.trans (install_grown hu hitem hstep), install_orderly hu hitem hstep⟩

/-- A table of fresh items that was installed is taken away in the reverse order. -/
theorem runItems_undone (horderly : Orderly w)
    (hfresh : Along (succeeded fun item => install item 0) Fresh w items)
    (hrun : runItems (fun item => install item 0) items w = (.ok statuses, w'))
    (hok : ∀ s ∈ statuses, s.status = .ok) (hlike : Like w' w₁) :
    ∃ statuses' w₂, runItems (fun item => deinstall item 0) items.reverse w₁ = (.ok statuses', w₂) ∧
      statuses'.length = items.length ∧ (∀ s ∈ statuses', s.status = .ok) ∧ Like w w₂ := by
  obtain ⟨w₂, hback, hlike'⟩ := run_undo (succeeded fun item => deinstall item 0) Like
    (fun _ _ _ horderly hfresh h => install_orderly horderly hfresh h)
    (fun _ _ _ _ horderly hfresh h hlike => deinstall_undoes horderly hfresh h hlike) horderly hfresh
    (run_of_runItems hrun hok) hlike
  obtain ⟨statuses', hitems, hlen, hall⟩ := runItems_of_run hback
  exact ⟨statuses', w₂, hitems, hlen.trans List.length_reverse, hall, hlike'⟩

end Undo

end CStringVerified.Install
