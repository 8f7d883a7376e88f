import CStringVerified.Install.Proofs.RecheckProofs
import CStringVerified.Install.Proofs.RepeatProofs
import CStringVerified.Install.Proofs.ReturnProofs

/-!
# One tool after the other

The tools are processes of their own: each sets the fake root and reads the library suffix anew. Where
files were only added the initialisation comes to the same, so the table can be followed from one process
to the next: `deinstaller` takes away what `installer` has put there, `instchk` finds it right where all that
was asked for could be had, and a second `installer` leaves it as it is.
-/

namespace CStringVerified.Install

open Foundation Foundation.Run

section Init

variable {w w' w₀ w₁ : World} {root : Text} {init : Status}

theorem World.rooted_globals (h : w'.globals = w.globals) (root : Text) :
    (w'.rooted root).globals = (w.rooted root).globals := by
  unfold World.rooted
  split
  · exact h
  · simp only [h]

/-- What the initialisation found, it finds again. -/
theorem initTool_again (hinit : initTool root w = (.ok init, w₀)) (hok : init.status = .ok)
    (hgrown : Grown w w₁) :
    ∃ init' w₂, initTool root w₁ = (.ok init', w₂) ∧ init'.status = .ok ∧ Untouched w₁ w₂ ∧
      w₂.globals = w₀.globals := by
  have hroot := w.rooted_untouched root
  have hroot₁ := w₁.rooted_untouched root
  have hglobals := World.rooted_globals hgrown.globals root
  obtain ⟨init', w₂, hrun, hends⟩ := installInit_run confSosuffix (w₁.rooted root)
  obtain ⟨init₀, w₀', hrun₀, hends₀⟩ := installInit_run confSosuffix (w.rooted root)
  rw [initTool_rooted] at hinit ⊢
  cases hrun₀.symm.trans hinit
  obtain ⟨hready, n, text, hn, htext, hafter⟩ := hends₀.success hok
  rw [hroot.files.statAt] at hn
  have hn₁ : statAt (w₁.rooted root) confSosuffix = some n := by
    rw [hroot₁.files.statAt]
    exact hgrown.statAt hn
  have hcalm : Undisturbed (w.rooted root).env := by
    rw [hroot.env]
    exact hgrown.calm
  have hcalm₁ : Undisturbed (w₁.rooted root).env := by
    rw [hroot₁.env]
    exact hgrown.calm'
  have hready₁ : RootReady (w₁.rooted root) := by
    intro r hr
    rw [hglobals] at hr
    obtain ⟨m, hm, hdir⟩ := hready r hr
    rw [hroot.files.statAt] at hm
    refine ⟨m, ?_, hdir⟩
    rw [hroot₁.files.statAt]
    exact hgrown.statAt hm
  have hdata : n.data ≠ [] := by
    intro hempty
    refine htext.ne ?_
    rw [htext.calm hcalm, hempty, List.take_nil]
  have hok' := hends.calm hcalm₁ hready₁ n hn₁ htext.file htext.noSocket hdata
  obtain ⟨-, n', text', hn', htext', hafter'⟩ := hends.success hok'
  obtain rfl := Option.some.inj (hn₁.symm.trans hn')
  refine ⟨init', w₂, hrun, hok', hroot₁.trans hends.untouched, ?_⟩
  rw [hafter', hafter, hglobals, htext.calm hcalm, htext'.calm hcalm₁]

end Init

/-! ## The tools -/

section Tools

variable {w w' w₀ w₁ : World} {root : Text} {init : Status} {items : List Item}
  {statuses : List Status} {argc code : Nat}

theorem endedFatally_of_ok (hok : ∀ s ∈ statuses, s.status = .ok) : endedFatally statuses = false := by
  refine List.any_eq_false.mpr fun s hs => ?_
  rw [hok s hs]
  decide

/-- A tool that is initialised, and that no item ends. -/
theorem runTool_through {run : Item → Sys Status} {exit : Sys Nat}
    (hinit : initTool root w = (.ok init, w₀)) (hok : init.status = .ok)
    (hitems : runItems run items w₀ = (.ok statuses, w₁)) (hnone : endedFatally statuses = false)
    (hexit : exit w₁ = (.ok code, w')) :
    runTool root run items exit w = (.ok (statuses, code), w') := by
  unfold runTool
  rw [bind_ok hinit, if_neg (not_not.mpr hok), bind_ok hitems, hnone,
    if_neg Bool.false_ne_true, bind_ok hexit]
  rfl

/-- A tool of which every status is good has been initialised, and handled its items then. -/
theorem runTool_items {run : Item → Sys Status} {exit : Sys Nat}
    (hrun : runTool root run items exit w = (.ok (statuses, code), w'))
    (hall : ∀ s ∈ statuses, s.status = .ok) :
    ∃ init w₀ w₁, initTool root w = (.ok init, w₀) ∧ init.status = .ok ∧ Untouched w w₀ ∧
      runItems run items w₀ = (.ok statuses, w₁) ∧ exit w₁ = (.ok code, w') := by
  obtain ⟨init, w₀, hinit, hends⟩ := installInit_run confSosuffix (w.rooted root)
  rw [← initTool_rooted] at hinit
  unfold runTool at hrun
  rw [bind_ok hinit] at hrun
  by_cases hok : init.status = .ok
  · rw [if_neg (not_not.mpr hok)] at hrun
    obtain ⟨statuses', w₁, hitems, hrest⟩ := bind_eq_ok hrun
    split at hrest
    · rename_i hfatal
      cases hrest
      rw [endedFatally_of_ok hall] at hfatal
      cases hfatal
    · obtain ⟨code', w₂, hexit, hend⟩ := bind_eq_ok hrest
      cases hend
      exact ⟨init, w₀, w₁, hinit, hok, (w.rooted_untouched root).trans hends.untouched, hitems, hexit⟩
  · rw [if_pos hok] at hrun
    cases hrun
    exact absurd (hall init (List.mem_singleton_self _)) hok

/-- Without an argument no dry run is asked for. -/
theorem toolFlags_none (hargc : argc ≤ 1) : toolFlags argc = 0 := if_neg (by omega)

theorem Untouched.orderly (h : Untouched w w₀) (horderly : Orderly w) : Orderly w₀ := by
  refine ⟨?_, ?_⟩
  · rw [h.env]
    exact horderly.calm
  · rw [h.files.1]
    exact horderly.tree

/-- A second tool finds what the first one found, and what `installer` has added. -/
theorem installer_then (hargc : argc ≤ 1) (horderly : Orderly w)
    (hfresh : Along (succeeded fun item => install item 0) Fresh (initTool root w).2 items)
    (hrun : installerMain argc root items w = (.ok (statuses, code), w'))
    (hall : ∀ s ∈ statuses, s.status = .ok) (hfiles : SameFiles w' w₁)
    (hglobals : w₁.globals = w.globals) (hcalm₁ : Undisturbed w₁.env) :
    ∃ w₀ init w₂, (initTool root w).2 = w₀ ∧ Untouched w w₀ ∧
      runItems (fun item => install item 0) items w₀ = (.ok statuses, w') ∧
      initTool root w₁ = (.ok init, w₂) ∧ init.status = .ok ∧ Untouched w₁ w₂ ∧
      w₂.globals = w'.globals := by
  unfold installerMain at hrun
  rw [toolFlags_none hargc] at hrun
  obtain ⟨init, w₀, wₙ, hinit, hok, huntouched, hinstalled, hexit⟩ := runTool_items hrun hall
  cases hexit
  rw [hinit] at hfresh
  obtain ⟨hgrown₀, -⟩ :=
    table_grown (huntouched.orderly horderly) hfresh (run_of_runItems hinstalled hall)
  have hgrown : Grown w w₁ := by
    refine ⟨?_, ?_, hglobals, horderly.calm, hcalm₁⟩
    · rw [hfiles.1, ← huntouched.files.1]
      exact hgrown₀.files
    · rw [hfiles.2, hgrown₀.cwd, huntouched.files.2]
  obtain ⟨init', w₂, hinit', hok', huntouched', hsame⟩ := initTool_again hinit hok hgrown
  exact ⟨w₀, init', w₂, congrArg Prod.snd hinit, huntouched, hinstalled, hinit', hok', huntouched',
    hsame.trans hgrown₀.globals.symm⟩

/-- The second tool finds the files like the first one left them. -/
theorem Untouched.like (h : Untouched w₁ w₀) (hfiles : SameFiles w' w₁) (hglobals : w₀.globals = w'.globals)
    (hcalm : Undisturbed w₁.env) : Like w' w₀ := by
  refine ⟨fun l => ?_, ?_, hglobals, ?_⟩
  · rw [h.files.1, hfiles.1]
  · rw [h.files.2, hfiles.2]
  · rw [h.env]
    exact hcalm

/-- `deinstaller` after `installer`, both without an argument and undisturbed, and with at least one item:
where nothing was in the way of any item when its turn came, and all were installed, `deinstaller` finds
the files as `installer` left them, takes all of it away again, and says so; then there is at every
location what there was before. -/
theorem deinstaller_undoes_installer (hargc : argc ≤ 1) (hitems : items ≠ []) (horderly : Orderly w)
    (hfresh : Along (succeeded fun item => install item 0) Fresh (initTool root w).2 items)
    (hrun : installerMain argc root items w = (.ok (statuses, code), w'))
    (hall : ∀ s ∈ statuses, s.status = .ok) (hfiles : SameFiles w' w₁)
    (hglobals : w₁.globals = w.globals) (hcalm₁ : Undisturbed w₁.env) :
    ∃ statuses' w₂, deinstallerMain argc root items w₁ = (.ok (statuses', exitSuccess), w₂) ∧
      statuses'.length = items.length ∧ (∀ s ∈ statuses', s.status = .ok) ∧
      (∀ l, w₂.os.fs.node l = w.os.fs.node l) ∧ w₂.os.cwd = w.os.cwd := by
  obtain ⟨w₀, init, w₂, rfl, huntouched, hinstalled, hinit, hok, huntouched', hsame⟩ :=
    installer_then hargc horderly hfresh hrun hall hfiles hglobals hcalm₁
  have hlike := huntouched'.like hfiles hsame hcalm₁
  obtain ⟨statuses', w₃, hback, hlen, hall', hend⟩ :=
    runItems_undone (huntouched.orderly horderly) hfresh hinstalled hall hlike
  refine ⟨statuses', w₃, ?_, hlen, hall', fun l => ?_, ?_⟩
  · unfold deinstallerMain
    rw [toolFlags_none hargc, if_neg hitems]
    exact runTool_through hinit hok hback (endedFatally_of_ok hall') rfl
  · rw [hend.files l, huntouched.files.1]
  · rw [hend.cwd, huntouched.files.2]

/-- Checks that succeed count nothing. -/
theorem checks_unfailed (h : Foundation.run (succeeded installCheck) w items = some w') :
    w'.failed = w.failed := by
  refine run_inv (I := fun u => u.failed = w.failed) (fun u item u' hu hstep => ?_) h rfl
  have hfailed : u'.failed = u.failed := (installCheck_checked hstep).failed
  rw [hfailed, hu]

/-- `instchk` after `installer`, under the same conditions, by the same user: where all items were
installed, `instchk` passes all of them and exits with success exactly if every item asks for what it
could get. -/
theorem instchk_after_installer (hargc : argc ≤ 1) (horderly : Orderly w)
    (hfresh : Along (succeeded fun item => install item 0) Fresh (initTool root w).2 items)
    (hrun : installerMain argc root items w = (.ok (statuses, code), w'))
    (hall : ∀ s ∈ statuses, s.status = .ok) (hfiles : SameFiles w' w₁)
    (hglobals : w₁.globals = w.globals) (hcalm₁ : Undisturbed w₁.env)
    (husers : SameUsers w.env w₁.env) (hfailed : w₁.failed = 0) :
    (∃ statuses' w₂, instchkMain root items w₁ = (.ok (statuses', exitSuccess), w₂) ∧
        statuses'.length = items.length ∧ ∀ s ∈ statuses', s.status = .ok) ↔
      Along (succeeded fun item => install item 0) (fun u item => Suits u w' item)
        (initTool root w).2 items := by
  obtain ⟨w₀, init, w₂, rfl, huntouched, hinstalled, hinit, hok, huntouched', hsame⟩ :=
    installer_then hargc horderly hfresh hrun hall hfiles hglobals hcalm₁
  have htable := run_of_runItems hinstalled hall
  have hseen : Seen w' w₂ := by
    refine ⟨hfiles.trans huntouched'.files, hsame, ?_, ?_⟩
    · rw [table_env htable, huntouched.env, huntouched'.env]
      exact husers
    · rw [huntouched'.env]
      exact hcalm₁
  rw [← recheck_iff (huntouched.orderly horderly) hfresh htable hseen]
  constructor
  · rintro ⟨statuses', w₃, hcheck, -, hall'⟩
    obtain ⟨init', w₂', w₄, hinit', -, -, hitems, -⟩ := runTool_items hcheck hall'
    cases hinit.symm.trans hinit'
    exact ⟨w₄, run_of_runItems hitems hall'⟩
  · rintro ⟨w₃, hchecks⟩
    obtain ⟨statuses', hitems, hlen, hall'⟩ := runItems_of_run hchecks
    have hcount : w₃.failed = 0 := by
      rw [checks_unfailed hchecks, huntouched'.failed, hfailed]
    refine ⟨statuses', w₃, runTool_through hinit hok hitems (endedFatally_of_ok hall') ?_, hlen, hall'⟩
    rw [get_bind_apply, hcount]
    rfl

/-- No status of a second installation is fatal. -/
theorem repeated_unfatal
    (h : List.Forall₂ (fun item s => s.status = repeatedStatus item.op) items statuses) :
    endedFatally statuses = false := by
  induction h with
  | nil => rfl
  | @cons item s items statuses hcode _ ih =>
    have hnot : s.status ≠ .fatal := by
      rw [hcode]
      exact repeatedStatus_ne_fatal item.op
    rw [endedFatally, List.any_cons, decide_eq_false hnot, Bool.false_or]
    exact ih

/-- `installer` after `installer`, under the same conditions, by the same user, with nothing at the
temporary names: where all items were installed, the second run succeeds for each file and each directory,
fails for each link, and leaves every file as it is. -/
theorem installer_again (hargc : argc ≤ 1) (horderly : Orderly w)
    (hfresh : Along (succeeded fun item => install item 0) Fresh (initTool root w).2 items)
    (hrun : installerMain argc root items w = (.ok (statuses, code), w'))
    (hall : ∀ s ∈ statuses, s.status = .ok) (hfiles : SameFiles w' w₁)
    (hglobals : w₁.globals = w.globals) (hcalm₁ : Undisturbed w₁.env)
    (hsame : SameProcess w.env w₁.env) (honce : ClearsOnce w.env)
    (htmp : ∀ item ∈ items, TmpFree w' item) :
    ∃ statuses' w₂, installerMain argc root items w₁ = (.ok (statuses', exitSuccess), w₂) ∧
      List.Forall₂ (fun item s => s.status = repeatedStatus item.op) items statuses' ∧
      (∀ l, w₂.os.fs.node l = w'.os.fs.node l) ∧ w₂.os.cwd = w'.os.cwd := by
  obtain ⟨w₀, init, w₂, rfl, huntouched, hinstalled, hinit, hok, huntouched', hglobals'⟩ :=
    installer_then hargc horderly hfresh hrun hall hfiles hglobals hcalm₁
  have hlike := huntouched'.like hfiles hglobals' hcalm₁
  rw [← huntouched.env] at honce
  rw [← huntouched.env, ← huntouched'.env] at hsame
  obtain ⟨statuses', w₃, hitems, hcodes, hend⟩ := table_repeats (huntouched.orderly horderly) hfresh
    (run_of_runItems hinstalled hall) hlike hsame honce htmp
  refine ⟨statuses', w₃, ?_, hcodes, hend.files, hend.cwd⟩
  unfold installerMain
  rw [toolFlags_none hargc]
  exact runTool_through hinit hok hitems (repeated_unfatal hcodes) rfl

open Tool (tableWorld itemTable)

theorem tableWorld_orderly : Orderly tableWorld :=
  ⟨fun _ => ⟨rfl, show installMaxPathlen ≤ 65536 by decide⟩, FileSystem.tree_of_names (by decide)⟩

theorem table_fresh :
    Along (succeeded fun item => install item 0) Fresh (initTool [] tableWorld).2 itemTable := by
  refine ⟨fun t ht => ?_, fun w₁ hw₁ => ⟨fun t ht => ?_, fun _ _ => trivial⟩⟩
  · cases ht
    rintro dir ⟨⟩
    exact ⟨⟨component ['d'], rfl⟩, by decide, Or.inl (by decide)⟩
  · cases hw₁
    cases ht
    rintro dst ⟨⟩
    exact ⟨⟨components ['d', '/', 'a'], rfl⟩, ⟨components ['d', '/', 'a', '.', 't', 'm', 'p'], rfl⟩⟩

theorem table_installed : ∃ w₁, installerMain 1 [] itemTable tableWorld =
    (.ok ([⟨.ok, none, some 0⟩, ⟨.ok, none, some 0⟩], exitSuccess), w₁) :=
  ⟨_, run_of_fst (by decide +kernel)⟩

theorem deinstaller_undoes_installer_table :
    ∃ w₁ statuses w', installerMain 1 [] itemTable tableWorld =
        (.ok ([⟨.ok, none, some 0⟩, ⟨.ok, none, some 0⟩], exitSuccess), w₁) ∧
      deinstallerMain 1 [] itemTable { tableWorld with os := w₁.os } =
        (.ok (statuses, exitSuccess), w') ∧
      statuses.length = itemTable.length ∧ (∀ s ∈ statuses, s.status = .ok) ∧
      (∀ l, w'.os.fs.node l = tableWorld.os.fs.node l) ∧ w'.os.cwd = tableWorld.os.cwd := by
  obtain ⟨w₁, hrun⟩ := table_installed
  have hfiles : SameFiles w₁ { tableWorld with os := w₁.os } := ⟨rfl, rfl⟩
  obtain ⟨statuses, w', hundone⟩ := deinstaller_undoes_installer (by decide) (by decide)
    tableWorld_orderly table_fresh hrun (by decide) hfiles rfl tableWorld_orderly.calm
  exact ⟨w₁, statuses, w', hrun, hundone⟩

/-- Both items of the table ask for what they can get. -/
theorem table_suits (w' : World) : Along (succeeded fun item => install item 0)
    (fun u item => Suits u w' item) (initTool [] tableWorld).2 itemTable := by
  refine ⟨⟨_, ['d'], 0, 0, rfl, rfl, rfl, by decide, ⟨by decide, by decide⟩, fun _ => rfl⟩,
    fun w₁ hw₁ => ⟨?_, fun _ _ => trivial⟩⟩
  cases hw₁
  exact ⟨_, ['d', '/', 'a'], 0, 0, rfl, rfl, rfl, by decide, by decide, fun _ => rfl, ['a'], _, rfl, rfl,
    rfl⟩

theorem instchk_after_installer_table :
    ∃ w₁ statuses w', installerMain 1 [] itemTable tableWorld =
        (.ok ([⟨.ok, none, some 0⟩, ⟨.ok, none, some 0⟩], exitSuccess), w₁) ∧
      instchkMain [] itemTable { tableWorld with os := w₁.os } = (.ok (statuses, exitSuccess), w') ∧
      statuses.length = itemTable.length ∧ ∀ s ∈ statuses, s.status = .ok := by
  obtain ⟨w₁, hrun⟩ := table_installed
  have hfiles : SameFiles w₁ { tableWorld with os := w₁.os } := ⟨rfl, rfl⟩
  obtain ⟨statuses, w', hchecked⟩ := (instchk_after_installer (by decide) tableWorld_orderly table_fresh
    hrun (by decide) hfiles rfl tableWorld_orderly.calm ⟨rfl, rfl, rfl, rfl⟩ rfl).mpr (table_suits w₁)
  exact ⟨w₁, statuses, w', hrun, hchecked⟩

theorem tableWorld_clearsOnce : ClearsOnce tableWorld.env := by
  have hclears : ∀ m, sIsdir m = true → tableWorld.env.chownClears m = 0 := fun m hm => if_pos hm
  have hkept : ∀ m : Mode, m &&& ~~~(0 &&& 0o6000) = m := fun m => BitVec.and_allOnes
  intro uid gid n hdir
  simp only [Env.chowned, hclears n.stMode hdir, hkept]
  by_cases huid : uid = -1
  · by_cases hgid : gid = -1
    · simp only [huid, hgid, if_true]
    · simp only [huid, hgid, if_true, if_false]
  · by_cases hgid : gid = -1
    · simp only [huid, hgid, if_true, if_false]
    · simp only [huid, hgid, if_false]

/-- After the installation nothing is at the temporary name of the file. -/
theorem table_tmp_free : ∀ item ∈ itemTable, TmpFree (installerMain 1 [] itemTable tableWorld).2 item := by
  intro item hitem hfile t dst ht hdst
  rcases List.mem_cons.mp hitem with rfl | hitem
  · cases hfile
  · obtain rfl := List.mem_singleton.mp hitem
    have hname : (translated installOpers (installerMain 1 [] itemTable tableWorld).2 copyItem).bind
        (fun t => t.dst) = some ['d', '/', 'a'] := by decide +kernel
    have hfree : (installerMain 1 [] itemTable tableWorld).2.os.fs.find (Foundation.route
        (installerMain 1 [] itemTable tableWorld).2.os.cwd (tmpName ['d', '/', 'a'])) =
          .ok (components ['d', '/', 'a', '.', 't', 'm', 'p'], none) := by decide +kernel
    rw [ht] at hname
    obtain rfl := Option.some.inj (hdst.symm.trans hname)
    exact ⟨_, hfree⟩

theorem installer_again_table :
    ∃ w₁ statuses w', installerMain 1 [] itemTable tableWorld =
        (.ok ([⟨.ok, none, some 0⟩, ⟨.ok, none, some 0⟩], exitSuccess), w₁) ∧
      installerMain 1 [] itemTable { tableWorld with os := w₁.os } = (.ok (statuses, exitSuccess), w') ∧
      List.Forall₂ (fun item s => s.status = repeatedStatus item.op) itemTable statuses ∧
      (∀ l, w'.os.fs.node l = w₁.os.fs.node l) ∧ w'.os.cwd = w₁.os.cwd := by
  obtain ⟨w₁, hrun⟩ := table_installed
  have hfiles : SameFiles w₁ { tableWorld with os := w₁.os } := ⟨rfl, rfl⟩
  have htmp : ∀ item ∈ itemTable, TmpFree w₁ item := by
    have hend : (installerMain 1 [] itemTable tableWorld).2 = w₁ := congrArg Prod.snd hrun
    rw [← hend]
    exact table_tmp_free
  obtain ⟨statuses, w', hagain⟩ := installer_again (by decide) tableWorld_orderly table_fresh hrun
    (by decide) hfiles rfl tableWorld_orderly.calm ⟨⟨rfl, rfl, rfl, rfl⟩, rfl, rfl, rfl⟩
    tableWorld_clearsOnce htmp
  exact ⟨w₁, statuses, w', hrun, hagain⟩

end Tools

end CStringVerified.Install
