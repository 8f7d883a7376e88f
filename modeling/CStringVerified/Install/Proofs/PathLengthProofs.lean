import CStringVerified.Install.Proofs.TranslationProofs

/-!
# Which names are cut

`snprintf` cuts a name that does not fit into its buffer, and returns the length it should have. The
translations only test for a negative result, which there is for a text of more than `INT_MAX`
characters, so a name that is too long for the buffer is cut, and accepted.
-/

namespace CStringVerified.Install

open Foundation Foundation.Run

/-! ## Plans -/

/-- A name that is composed: the whole of it, and the text that is formatted for it, in which names
composed before may have been cut. -/
structure Composed where
  whole : Text
  text : Text

/-- What a translation makes of an item whose names it has read: what it is to make, and what it
makes. -/
structure Plan where
  intended : Item
  actual : Item
  composed : List Composed

/-- All names fit. -/
def Plan.Fits (p : Plan) : Prop := ∀ c ∈ p.composed, c.whole.length < installMaxPathlen

/-- No text is too long for `snprintf`. -/
def Plan.Formats (p : Plan) : Prop := ∀ c ∈ p.composed, c.text.length ≤ intMax

/-- A name that no other was composed for. -/
def Composed.plain (text : Text) : Composed := ⟨text, text⟩

def copyPlan (g : Globals) (item : Item) (srcName dir base : Text) : Plan :=
  let path := rootedPath g.fakeRoot (joinPath dir base)
  { intended := { item with src := some srcName, dst := some path }
    actual := { item with src := some srcName, dst := some (cutPath path) }
    composed := [.plain path] }

def copyExecPlan (g : Globals) (item : Item) (srcName dir base : Text) : Plan :=
  let path := rootedPath g.fakeRoot (joinPath dir base)
  { intended :=
      { item with src := some (srcName ++ g.execSuffix), dst := some (path ++ g.execSuffix) }
    actual :=
      { item with
        src := some (cutPath (srcName ++ g.execSuffix))
        dst := some (cutPath (cutPath path ++ g.execSuffix)) }
    composed :=
      [.plain path, .plain (srcName ++ g.execSuffix),
        ⟨path ++ g.execSuffix, cutPath path ++ g.execSuffix⟩] }

/-- A directory is composed only below a fake root. -/
def composedDir (root : Option Text) (dir : Text) : List Composed :=
  root.toList.map fun root => .plain (joinPath root dir)

def linkPlan (g : Globals) (item : Item) (dir : Text) : Plan where
  intended := { item with dir := some (rootedPath g.fakeRoot dir) }
  actual := { item with dir := some (translatedDir g.fakeRoot dir) }
  composed := composedDir g.fakeRoot dir

def liblinkPlan (g : Globals) (item : Item) (srcName dir base : Text) : Plan where
  intended :=
    { item with
      src := some srcName
      dst := some (base ++ g.dlibSuffix)
      dir := some (rootedPath g.fakeRoot dir) }
  actual :=
    { item with
      src := some srcName
      dst := some (cutPath (base ++ g.dlibSuffix))
      dir := some (translatedDir g.fakeRoot dir) }
  composed := composedDir g.fakeRoot dir ++ [.plain (base ++ g.dlibSuffix)]

def mkdirPlan (g : Globals) (item : Item) : Plan where
  intended :=
    { item with
      dst := item.dst <|> item.src
      dir := item.dir.map (rootedPath g.fakeRoot) }
  actual :=
    { item with
      dst := item.dst <|> item.src
      dir := item.dir.map (translatedDir g.fakeRoot) }
  composed := item.dir.toList.flatMap (composedDir g.fakeRoot)

/-- The check translations go on from the plan of a link. -/
def chkPlan (p : Plan) (dir dst dirName dstName : Text) : Plan where
  intended := { p.intended with dst := some (joinPath dir dst) }
  actual := { p.actual with dst := some (cutPath (joinPath dirName dstName)) }
  composed := p.composed ++ [⟨joinPath dir dst, joinPath dirName dstName⟩]

/-- The name translation callbacks. -/
inductive Ntran
  | copy
  | copyExec
  | link
  | liblink
  | mkdir
  | chkLink
  | chkLiblink
deriving DecidableEq, Repr

def Ntran.run : Ntran → Item → Sys (Except String Item)
  | .copy => ntranCopy
  | .copyExec => ntranCopyExec
  | .link => ntranLink
  | .liblink => ntranLiblink
  | .mkdir => ntranMkdir
  | .chkLink => ntranChkLink
  | .chkLiblink => ntranChkLiblink

/-- The source and the base name of the destination of a copy, with the names of libraries read. -/
structure CopyNames (w : World) (item : Item) (srcName dir base : Text) (w' : World) : Prop where
  dir : item.dir = some dir
  names : ∃ src dstName w₁, item.src = some src ∧ realName src w = (.ok (some srcName), w₁) ∧
    realName (item.dst.getD src) w₁ = (.ok (some dstName), w') ∧ baseName dstName = some base

/-- In a world `w`, the item has the names that a translation needs, and this is its plan. -/
inductive Composes (w : World) (item : Item) : Ntran → Plan → World → Prop
  | copy {srcName dir base : Text} {w' : World} (h : CopyNames w item srcName dir base w') :
    Composes w item .copy (copyPlan w.globals item srcName dir base) w'
  | copyExec {srcName dir base : Text} {w' : World} (h : CopyNames w item srcName dir base w') :
    Composes w item .copyExec (copyExecPlan w.globals item srcName dir base) w'
  | link {src dir dst : Text} (hsrc : item.src = some src) (hdir : item.dir = some dir)
    (hdst : item.dst = some dst) : Composes w item .link (linkPlan w.globals item dir) w
  | liblink {src dir dst srcName base : Text} {w' : World} (hsrc : item.src = some src)
    (hdir : item.dir = some dir) (hdst : item.dst = some dst)
    (hname : LiblinkSource w src srcName w') (hbase : baseName dst = some base) :
    Composes w item .liblink (liblinkPlan w.globals item srcName dir base) w'
  | mkdir (hdir : w.globals.fakeRoot ≠ none → item.dir ≠ none) :
    Composes w item .mkdir (mkdirPlan w.globals item) w
  | chkLink {p : Plan} {dir dst dirName dstName : Text} {w' : World}
    (h : Composes w item .link p w') (hdir : p.intended.dir = some dir)
    (hdst : p.intended.dst = some dst) (hdirName : p.actual.dir = some dirName)
    (hdstName : p.actual.dst = some dstName) :
    Composes w item .chkLink (chkPlan p dir dst dirName dstName) w'
  | chkLiblink {p : Plan} {dir dst dirName dstName : Text} {w' : World}
    (h : Composes w item .liblink p w') (hdir : p.intended.dir = some dir)
    (hdst : p.intended.dst = some dst) (hdirName : p.actual.dir = some dirName)
    (hdstName : p.actual.dst = some dstName) :
    Composes w item .chkLiblink (chkPlan p dir dst dirName dstName) w'

/-! ## Runs -/

/-- How a translation ends that formats the texts of a plan. -/
def Ends (p : Plan) (w' : World) (outcome : Except Crash (Except String Item) × World) : Prop :=
  (p.Formats ∧ outcome = (.ok (.ok p.actual), w')) ∨
    ¬p.Formats ∧ ∃ message w'', outcome = (.ok (.error message), w'')

section Runs

variable {w w' : World} {item : Item} {srcName dir base : Text}

theorem ntranCopy_run (h : CopyNames w item srcName dir base w') :
    ntranCopy item w =
      if (rootedPath w.globals.fakeRoot (joinPath dir base)).length ≤ intMax then
        (.ok (.ok { item with
          src := some srcName
          dst := some (cutPath (rootedPath w.globals.fakeRoot (joinPath dir base))) }), w')
      else (.ok (.error "could not format destination path"), w') := by
  obtain ⟨src, dstName, w₁, hsrc, hs, hd, hbase⟩ := h.names
  have hglobals : w'.globals = w.globals :=
    (Frame.of_run (keeps_realName keeps_libname _) hd).globals.trans (Frame.of_run (keeps_realName keeps_libname _) hs).globals
  unfold ntranCopy
  rw [hsrc, h.dir]
  dsimp only
  rw [bind_ok hs]
  dsimp only
  rw [bind_ok hd]
  simp only [hbase, get_bind_apply, hglobals]
  cases w.globals.fakeRoot with
  | none => exact formatted_apply (joinPath dir base) _ _ w'
  | some root => exact formatted_apply (joinPath root (joinPath dir base)) _ _ w'

theorem ntranCopy_ends (h : CopyNames w item srcName dir base w') :
    Ends (copyPlan w.globals item srcName dir base) w' (ntranCopy item w) := by
  have hformats : (copyPlan w.globals item srcName dir base).Formats ↔
      (rootedPath w.globals.fakeRoot (joinPath dir base)).length ≤ intMax := by
    simp [Plan.Formats, copyPlan, Composed.plain]
  rw [ntranCopy_run h, Ends, hformats]
  split
  · rename_i hfmt
    exact Or.inl ⟨hfmt, rfl⟩
  · rename_i hfmt
    exact Or.inr ⟨hfmt, _, _, rfl⟩

theorem ntranCopyExec_ends (h : CopyNames w item srcName dir base w') :
    Ends (copyExecPlan w.globals item srcName dir base) w' (ntranCopyExec item w) := by
  have hformats : (copyExecPlan w.globals item srcName dir base).Formats ↔
      (rootedPath w.globals.fakeRoot (joinPath dir base)).length ≤ intMax ∧
        (srcName ++ w.globals.execSuffix).length ≤ intMax ∧
        (cutPath (rootedPath w.globals.fakeRoot (joinPath dir base)) ++
          w.globals.execSuffix).length ≤ intMax := by
    simp [Plan.Formats, copyExecPlan, Composed.plain]
  have hrun := ntranCopy_run h
  rw [Ends, hformats]
  unfold ntranCopyExec
  by_cases hpath : (rootedPath w.globals.fakeRoot (joinPath dir base)).length ≤ intMax
  · rw [if_pos hpath] at hrun
    have hglobals : w'.globals = w.globals := (Frame.of_run (keeps_ntranCopy keeps_libname item) hrun).globals
    rw [bind_ok hrun]
    dsimp only
    simp only [deref, pure_bind_apply, get_bind_apply, hglobals]
    by_cases hsrc : (srcName ++ w.globals.execSuffix).length ≤ intMax
    · have hnext := fun next => (formatted_apply (srcName ++ w.globals.execSuffix)
        (tranError "could not format source path") next w').trans (if_pos hsrc)
      by_cases hdst : (cutPath (rootedPath w.globals.fakeRoot (joinPath dir base)) ++
          w.globals.execSuffix).length ≤ intMax
      · refine Or.inl ⟨⟨hpath, hsrc, hdst⟩, (hnext _).trans ?_⟩
        exact (formatted_apply _ _ _ w').trans (if_pos hdst)
      · refine Or.inr ⟨fun hall => hdst hall.2.2, "could not format destination path", w',
          (hnext _).trans ?_⟩
        exact (formatted_apply _ _ _ w').trans (if_neg hdst)
    · refine Or.inr ⟨fun hall => hsrc hall.2.1, "could not format source path", w', ?_⟩
      exact (formatted_apply _ _ _ w').trans (if_neg hsrc)
  · rw [if_neg hpath] at hrun
    rw [bind_ok hrun]
    exact Or.inr ⟨fun hall => hpath hall.1, _, _, rfl⟩

theorem composedDir_formats (root : Option Text) (dir : Text) :
    (∀ c ∈ composedDir root dir, c.text.length ≤ intMax) ↔
      ∀ r, root = some r → (joinPath r dir).length ≤ intMax := by
  cases root <;> simp [composedDir, Composed.plain]

/-- The directory of a link is composed first. -/
theorem linkPrefix_run {src dst : Text} {next : Text → Text → Text → Sys (Except String Item)}
    (hsrc : item.src = some src) (hdir : item.dir = some dir) (hdst : item.dst = some dst) :
    linkPrefix item next w =
      if ∀ c ∈ composedDir w.globals.fakeRoot dir, c.text.length ≤ intMax then
        next src dst (translatedDir w.globals.fakeRoot dir) w
      else (.ok (.error "could not format destination path"), w) := by
  unfold linkPrefix
  rw [hsrc, hdir, hdst]
  dsimp only
  rw [bind_ok (rootedDir_run dir w)]
  simp only [composedDir_formats]
  split
  · rfl
  · rfl

theorem ntranLink_ends {src dst : Text} (hsrc : item.src = some src) (hdir : item.dir = some dir)
    (hdst : item.dst = some dst) :
    Ends (linkPlan w.globals item dir) w (ntranLink item w) := by
  unfold ntranLink
  rw [linkPrefix_run hsrc hdir hdst]
  split
  · rename_i hfmt
    exact Or.inl ⟨hfmt, rfl⟩
  · rename_i hfmt
    exact Or.inr ⟨hfmt, _, _, rfl⟩

theorem liblinkSource_run {src : Text} {next : Text → Sys (Except String Item)}
    (h : LiblinkSource w src srcName w') : liblinkSource src next w = next srcName w' := by
  unfold LiblinkSource at h
  unfold liblinkSource
  split at h
  · rename_i hlib
    obtain ⟨srcTmp, hl, hbase⟩ := h
    rw [if_pos hlib, bind_ok hl]
    simp only [hbase]
  · rename_i hlib
    obtain ⟨rfl, rfl⟩ := h
    rw [if_neg hlib]

theorem ntranLiblink_ends {src dst : Text} (hsrc : item.src = some src) (hdir : item.dir = some dir)
    (hdst : item.dst = some dst) (hname : LiblinkSource w src srcName w')
    (hbase : baseName dst = some base) :
    Ends (liblinkPlan w.globals item srcName dir base) w' (ntranLiblink item w) := by
  have hformats : (liblinkPlan w.globals item srcName dir base).Formats ↔
      (∀ c ∈ composedDir w.globals.fakeRoot dir, c.text.length ≤ intMax) ∧
        (base ++ w.globals.dlibSuffix).length ≤ intMax := by
    simp [Plan.Formats, liblinkPlan, Composed.plain, or_imp, forall_and]
  rw [Ends, hformats]
  unfold ntranLiblink
  rw [linkPrefix_run hsrc hdir hdst]
  by_cases hfmt : ∀ c ∈ composedDir w.globals.fakeRoot dir, c.text.length ≤ intMax
  · rw [if_pos hfmt, liblinkSource_run hname]
    simp only [hbase, get_bind_apply, hname.globals]
    by_cases hlib : (base ++ w.globals.dlibSuffix).length ≤ intMax
    · exact Or.inl ⟨⟨hfmt, hlib⟩, (formatted_apply _ _ _ w').trans (if_pos hlib)⟩
    · exact Or.inr ⟨fun hall => hlib hall.2, "could not format destination path", w',
        (formatted_apply _ _ _ w').trans (if_neg hlib)⟩
  · rw [if_neg hfmt]
    exact Or.inr ⟨fun hall => hfmt hall.1, _, _, rfl⟩

theorem ntranMkdir_ends (hdir : w.globals.fakeRoot ≠ none → item.dir ≠ none) :
    Ends (mkdirPlan w.globals item) w (ntranMkdir item w) := by
  unfold ntranMkdir
  rw [get_bind_apply]
  cases hroot : w.globals.fakeRoot with
  | none =>
    have hid : item.dir.map (translatedDir none) = item.dir := Option.map_id_fun' ▸ rfl
    refine Or.inl ⟨?_, ?_⟩
    · intro c hc
      simp [mkdirPlan, composedDir, hroot] at hc
    · simp only [mkdirPlan, hroot, hid]
      rfl
  | some root =>
    obtain ⟨dir, hdir⟩ := Option.ne_none_iff_exists'.mp (hdir (by rw [hroot]; exact nofun))
    have hformats : (mkdirPlan w.globals item).Formats ↔
        ∀ r, w.globals.fakeRoot = some r → (joinPath r dir).length ≤ intMax := by
      rw [← composedDir_formats]
      simp [Plan.Formats, mkdirPlan, hdir]
    rw [Ends, hformats]
    dsimp only
    simp only [hdir, deref, pure_bind_apply]
    rw [bind_ok (rootedDir_run dir w)]
    by_cases hfmt : ∀ r, w.globals.fakeRoot = some r → (joinPath r dir).length ≤ intMax
    · rw [if_pos hfmt]
      refine Or.inl ⟨hfmt, ?_⟩
      simp only [mkdirPlan, hdir]
      rfl
    · rw [if_neg hfmt]
      exact Or.inr ⟨hfmt, _, _, rfl⟩

theorem ntranChk_ends {ntran : Item → Sys (Except String Item)} {p : Plan}
    {dir dst dirName dstName : Text} (h : Ends p w' (ntran item w)) (hdirName : p.actual.dir = some dirName)
    (hdstName : p.actual.dst = some dstName) :
    Ends (chkPlan p dir dst dirName dstName) w' (ntranChk ntran item w) := by
  have hformats : (chkPlan p dir dst dirName dstName).Formats ↔
      p.Formats ∧ (joinPath dirName dstName).length ≤ intMax := by
    simp [Plan.Formats, chkPlan, or_imp, forall_and]
  rw [Ends, hformats]
  unfold ntranChk
  rcases h with ⟨hfmt, hrun⟩ | ⟨hfmt, message, w'', hrun⟩
  · rw [bind_ok hrun]
    simp only [hdirName, hdstName, deref, pure_bind_apply]
    by_cases hjoin : (joinPath dirName dstName).length ≤ intMax
    · refine Or.inl ⟨⟨hfmt, hjoin⟩, (formatted_apply _ _ _ w').trans ((if_pos hjoin).trans ?_)⟩
      rw [← hdirName]
      rfl
    · exact Or.inr ⟨fun hall => hjoin hall.2, "could not format destination path", w',
        (formatted_apply _ _ _ w').trans (if_neg hjoin)⟩
  · rw [bind_ok hrun]
    exact Or.inr ⟨fun hall => hfmt hall.1, message, w'', rfl⟩

/-- A translation whose names are read formats the texts of its plan. -/
theorem Composes.ends {tr : Ntran} {p : Plan} (h : Composes w item tr p w') :
    Ends p w' (tr.run item w) := by
  induction h with
  | copy h => exact ntranCopy_ends h
  | copyExec h => exact ntranCopyExec_ends h
  | link hsrc hdir hdst => exact ntranLink_ends hsrc hdir hdst
  | liblink hsrc hdir hdst hname hbase => exact ntranLiblink_ends hsrc hdir hdst hname hbase
  | mkdir hdir => exact ntranMkdir_ends hdir
  | chkLink _ _ _ hdirName hdstName ih => exact ntranChk_ends ih hdirName hdstName
  | chkLiblink _ _ _ hdirName hdstName ih => exact ntranChk_ends ih hdirName hdstName

theorem Composes.actual {tr : Ntran} {p : Plan} {w₁ : World} {t : Item}
    (h : Composes w item tr p w₁) (hrun : tr.run item w = (.ok (.ok t), w')) :
    p.Formats ∧ w' = w₁ ∧ t = p.actual := by
  rcases h.ends with ⟨hfmt, hends⟩ | ⟨-, message, w'', hends⟩
  · rw [hends] at hrun
    cases hrun
    exact ⟨hfmt, rfl, rfl⟩
  · rw [hends] at hrun
    cases hrun

/-- An item that is accepted has a plan. -/
theorem Ntran.composes {t : Item} (tr : Ntran) (hrun : tr.run item w = (.ok (.ok t), w')) :
    ∃ p w₁, Composes w item tr p w₁ := by
  have hlink : ∀ {t w'}, ntranLink item w = (.ok (.ok t), w') → ∃ dir dst, item.dst = some dst ∧
      Composes w item .link (linkPlan w.globals item dir) w := by
    intro t w' h
    obtain ⟨src, dir, dst, hsrc, hdir, hdst, -⟩ := ntranLink_ok h
    exact ⟨dir, dst, hdst, .link hsrc hdir hdst⟩
  have hliblink : ∀ {t w'}, ntranLiblink item w = (.ok (.ok t), w') → ∃ srcName dir base,
      Composes w item .liblink (liblinkPlan w.globals item srcName dir base) w' := by
    intro t w' h
    obtain ⟨src, dir, dst, srcName, base, hsrc, hdir, hdst, hname, hbase, -⟩ := ntranLiblink_named h
    exact ⟨srcName, dir, base, .liblink hsrc hdir hdst hname hbase⟩
  cases tr with
  | copy =>
    obtain ⟨src, dir, srcName, dstName, base, w₁, hsrc, hdir, hs, hd, hbase, -⟩ := ntranCopy_ok hrun
    exact ⟨_, _, .copy ⟨hdir, src, dstName, w₁, hsrc, hs, hd, hbase⟩⟩
  | copyExec =>
    obtain ⟨t₀, -, -, ht₀, -⟩ := ntranCopyExec_ok hrun
    obtain ⟨src, dir, srcName, dstName, base, w₁, hsrc, hdir, hs, hd, hbase, -⟩ := ntranCopy_ok ht₀
    exact ⟨_, _, .copyExec ⟨hdir, src, dstName, w₁, hsrc, hs, hd, hbase⟩⟩
  | link =>
    obtain ⟨dir, dst, -, hcomposes⟩ := hlink hrun
    exact ⟨_, _, hcomposes⟩
  | liblink =>
    obtain ⟨srcName, dir, base, hcomposes⟩ := hliblink hrun
    exact ⟨_, _, hcomposes⟩
  | mkdir =>
    obtain ⟨hroot, -⟩ := ntranMkdir_ok hrun
    refine ⟨_, _, .mkdir fun hne => ?_⟩
    obtain ⟨root, hroot'⟩ := Option.ne_none_iff_exists'.mp hne
    exact hroot root hroot'
  | chkLink =>
    obtain ⟨t₀, -, -, ht₀, -⟩ := ntranChk_ok hrun
    obtain ⟨dir, dst, hdst, hcomposes⟩ := hlink ht₀
    exact ⟨_, _, .chkLink hcomposes rfl hdst rfl hdst⟩
  | chkLiblink =>
    obtain ⟨t₀, -, -, ht₀, -⟩ := ntranChk_ok hrun
    obtain ⟨srcName, dir, base, hcomposes⟩ := hliblink ht₀
    exact ⟨_, _, .chkLiblink hcomposes rfl rfl rfl rfl⟩

theorem composedDir_whole {root : Option Text} {dir : Text}
    (h : ∀ c ∈ composedDir root dir, c.whole.length < installMaxPathlen) :
    translatedDir root dir = rootedPath root dir := by
  cases root with
  | none => rfl
  | some root => exact cutPath_of_lt (h _ (List.mem_singleton_self _))

theorem chkPlan_whole {p : Plan} {dir dst dirName dstName : Text} (hdir : p.intended.dir = some dir)
    (hdst : p.intended.dst = some dst) (hdirName : p.actual.dir = some dirName)
    (hdstName : p.actual.dst = some dstName) (h : p.Fits → p.actual = p.intended)
    (hfits : (chkPlan p dir dst dirName dstName).Fits) :
    (chkPlan p dir dst dirName dstName).actual = (chkPlan p dir dst dirName dstName).intended := by
  obtain ⟨hbefore, hlast⟩ := List.forall_mem_append.mp hfits
  have hwhole := h hbefore
  rw [hwhole] at hdirName hdstName
  obtain rfl := Option.some.inj (hdir.symm.trans hdirName)
  obtain rfl := Option.some.inj (hdst.symm.trans hdstName)
  have hjoin := cutPath_of_lt (hlast _ (List.mem_singleton_self _))
  dsimp only at hjoin
  simp only [chkPlan, hwhole, hjoin]

/-- Names that all fit are whole. -/
theorem Composes.whole {tr : Ntran} {p : Plan} (h : Composes w item tr p w') (hfits : p.Fits) :
    p.actual = p.intended := by
  induction h with
  | copy h =>
    have hpath := cutPath_of_lt (hfits _ (List.mem_singleton_self _))
    simp only [Composed.plain] at hpath
    simp only [copyPlan, hpath]
  | copyExec h =>
    have hpath := cutPath_of_lt (hfits _ List.mem_cons_self)
    have hsrc := cutPath_of_lt (hfits _ (List.mem_cons_of_mem _ List.mem_cons_self))
    have hdst := cutPath_of_lt
      (hfits _ (List.mem_cons_of_mem _ (List.mem_cons_of_mem _ List.mem_cons_self)))
    simp only [Composed.plain] at hpath hsrc hdst
    simp only [copyExecPlan, hpath, hsrc, hdst]
  | link hsrc hdir hdst => simp only [linkPlan, composedDir_whole hfits]
  | liblink hsrc hdir hdst hname hbase =>
    obtain ⟨hdirs, hlib⟩ := List.forall_mem_append.mp hfits
    have hlib' := cutPath_of_lt (hlib _ (List.mem_singleton_self _))
    simp only [Composed.plain] at hlib'
    simp only [liblinkPlan, composedDir_whole hdirs, hlib']
  | mkdir hdir =>
    cases hitem : item.dir with
    | none => simp only [mkdirPlan, hitem, Option.map_none]
    | some dir =>
      have hwhole : translatedDir w.globals.fakeRoot dir = rootedPath w.globals.fakeRoot dir := by
        refine composedDir_whole fun c hc => hfits c ?_
        simpa [mkdirPlan, hitem] using hc
      simp only [mkdirPlan, hitem, Option.map_some, hwhole]
  | chkLink _ hdir hdst hdirName hdstName ih =>
    exact chkPlan_whole hdir hdst hdirName hdstName ih hfits
  | chkLiblink _ hdir hdst hdirName hdstName ih =>
    exact chkPlan_whole hdir hdst hdirName hdstName ih hfits

end Runs

/-! ## The translations -/

/-- A translation accepts an item only with whole names, and refuses it if a name does not fit. -/
structure NoTruncation (tr : Ntran) (w : World) (item : Item) : Prop where
  accepted : ∀ t w', tr.run item w = (.ok (.ok t), w') →
    ∃ p, Composes w item tr p w' ∧ t = p.intended
  refused : ∀ p w', Composes w item tr p w' → ¬p.Fits →
    ∃ message w'', tr.run item w = (.ok (.error message), w'')

theorem noTruncation_iff (tr : Ntran) (w : World) (item : Item) :
    NoTruncation tr w item ↔ ∀ p w', Composes w item tr p w' → p.Fits ∨ ¬p.Formats := by
  constructor
  · intro hno p w' hcomposes
    by_contra hbad
    obtain ⟨hlong, hformats⟩ := not_or.mp hbad
    obtain ⟨message, w'', hrefused⟩ := hno.refused p w' hcomposes hlong
    rcases hcomposes.ends with ⟨-, hrun⟩ | ⟨hnot, -⟩
    · rw [hrun] at hrefused
      cases hrefused
    · exact hformats hnot
  · intro hfits
    refine ⟨fun t w' hrun => ?_, fun p w' hcomposes hlong => ?_⟩
    · obtain ⟨p, w₁, hcomposes⟩ := tr.composes hrun
      obtain ⟨hformats, rfl, rfl⟩ := hcomposes.actual hrun
      have hwhole := (hfits p w' hcomposes).resolve_right (not_not_intro hformats)
      exact ⟨p, hcomposes, hcomposes.whole hwhole⟩
    · rcases hcomposes.ends with ⟨hformats, -⟩ | ⟨-, hrefused⟩
      · exact absurd hformats ((hfits p w' hcomposes).resolve_left hlong)
      · exact hrefused

/-! ## `deinst_link` -/

/-- All that `deinst_link` unlinks is the whole path. -/
def UnlinksWhole (w : World) (item : Item) (flags : BitVec 32) : Prop :=
  Logs (fun e => ∀ path, e.call = .unlink path →
    ∃ dir dst, item.dir = some dir ∧ item.dst = some dst ∧ path = joinPath dir dst)
    w (deinstLink item flags w).2

/-- The path of a link fits, or `snprintf` cannot format it, or it is not unlinked. -/
def UnlinkFits (item : Item) (flags : BitVec 32) : Prop :=
  notDryrun flags = true → ∀ dir dst, item.dir = some dir → item.dst = some dst →
    (joinPath dir dst).length < installMaxPathlen ∨ intMax < (joinPath dir dst).length

/-- What `deinst_link` does with a path it can format. -/
theorem deinstLink_log {w : World} {item : Item} {flags : BitVec 32} {dir dst : Text}
    (hdry : notDryrun flags = true) (hdir : item.dir = some dir) (hdst : item.dst = some dst)
    (hfmt : (joinPath dir dst).length ≤ intMax) :
    ∃ ok, (deinstLink item flags w).2.log =
      w.log ++ [⟨.unlink (cutPath (joinPath dir dst)), w.os.cwd, ok⟩] := by
  have hrun : deinstLink item flags w =
      deinstRemove (unlink (cutPath (joinPath dir dst))) "could not unlink" flags w := by
    unfold deinstLink
    rw [if_pos hdry, hdir, hdst]
    exact (formatted_apply _ _ _ w).trans (if_pos hfmt)
  have hlog : ∃ r w' ok, unlink (cutPath (joinPath dir dst)) w = (.ok r, w') ∧
      w'.log = w.log ++ [⟨.unlink (cutPath (joinPath dir dst)), w.os.cwd, ok⟩] := by
    rcases fsCall_cases (.unlink (cutPath (joinPath dir dst))) _ w with ⟨fs, -, -, hrun⟩ | ⟨e, -, hrun⟩
    · exact ⟨_, _, true, hrun, rfl⟩
    · exact ⟨_, _, false, hrun, rfl⟩
  obtain ⟨r, w', ok, hunlink, hlog⟩ := hlog
  refine ⟨ok, ?_⟩
  rw [hrun, deinstRemove, if_pos hdry, bind_ok hunlink, ← hlog]
  split
  · rfl
  · rfl

/-- Where nothing is unlinked, nothing is logged. -/
theorem deinstLink_idle {w : World} {item : Item} {flags : BitVec 32}
    (h : notDryrun flags = true → ∀ dir dst, item.dir = some dir → item.dst = some dst →
      intMax < (joinPath dir dst).length) : (deinstLink item flags w).2 = w := by
  unfold deinstLink
  split
  · rename_i hdry
    cases hdir : item.dir with
    | none => rfl
    | some dir =>
      cases hdst : item.dst with
      | none => rfl
      | some dst =>
        have hlong := Nat.not_le_of_lt (h hdry dir dst hdir hdst)
        exact congrArg Prod.snd ((formatted_apply _ (statusError "could not format string") _ w).trans
          (if_neg hlong))
  · rfl

theorem unlinksWhole_iff (w : World) (item : Item) (flags : BitVec 32) :
    UnlinksWhole w item flags ↔ UnlinkFits item flags := by
  by_cases hidle : notDryrun flags = true → ∀ dir dst, item.dir = some dir → item.dst = some dst →
      intMax < (joinPath dir dst).length
  · refine iff_of_true ?_ fun hdry dir dst hdir hdst => Or.inr (hidle hdry dir dst hdir hdst)
    rw [UnlinksWhole, deinstLink_idle hidle]
    exact refl_of (Logs _) w
  · push Not at hidle
    obtain ⟨hdry, dir, dst, hdir, hdst, hfmt⟩ := hidle
    obtain ⟨ok, hlog⟩ := @deinstLink_log w item flags dir dst hdry hdir hdst hfmt
    constructor
    · rintro ⟨es, hes, hall⟩ - dir' dst' hdir' hdst'
      obtain rfl := Option.some.inj (hdir.symm.trans hdir')
      obtain rfl := Option.some.inj (hdst.symm.trans hdst')
      rw [hlog] at hes
      obtain rfl := List.append_cancel_left hes
      obtain ⟨_, _, hdir'', hdst'', hpath⟩ := hall _ (List.mem_singleton_self _) _ rfl
      obtain rfl := Option.some.inj (hdir.symm.trans hdir'')
      obtain rfl := Option.some.inj (hdst.symm.trans hdst'')
      have hlen := congrArg List.length hpath
      rw [cutPath, List.length_take] at hlen
      have hmax : installMaxPathlen = 1024 := rfl
      omega
    · intro hfits
      have hshort := (hfits hdry dir dst hdir hdst).resolve_right (Nat.not_lt.mpr hfmt)
      refine ⟨_, hlog, fun e he path hpath => ?_⟩
      rw [List.mem_singleton.mp he, cutPath_of_lt hshort] at hpath
      exact ⟨dir, dst, hdir, hdst, (Call.unlink.inj hpath).symm⟩

/-- No name is cut silently exactly if all names that are composed fit, or `snprintf` notices. -/
theorem no_truncation_iff (w : World) (item : Item) (flags : BitVec 32) :
    (∀ tr, NoTruncation tr w item ↔ ∀ p w', Composes w item tr p w' → p.Fits ∨ ¬p.Formats) ∧
      (UnlinksWhole w item flags ↔ UnlinkFits item flags) :=
  ⟨fun tr => noTruncation_iff tr w item, unlinksWhole_iff w item flags⟩

/-- The name of a directory, of 1021 characters. -/
def longName : Text := List.replicate 1021 'a'

/-- A file `bc` is wanted there. -/
def longCopy : Item := ⟨.instCopy, some ['b', 'c'], none, some longName, none, none, 0o644⟩

/-- The last character of the destination is lost, and the item is accepted. -/
theorem long_path_is_cut :
    (∃ t w', ntranCopy longCopy (World.ofFiles []) = (.ok (.ok t), w') ∧
      t.dst = some (longName ++ ['/', 'b'])) ∧
      ¬NoTruncation .copy (World.ofFiles []) longCopy := by
  have hlen : (joinPath longName ['b', 'c']).length = 1024 := by
    rw [joinPath, List.length_append, longName, List.length_replicate]
    rfl
  have hnames : CopyNames (World.ofFiles []) longCopy ['b', 'c'] longName ['b', 'c']
      (World.ofFiles []) := ⟨rfl, ['b', 'c'], ['b', 'c'], World.ofFiles [], rfl, rfl, rfl, rfl⟩
  have hcomposes := Composes.copy hnames
  have hformats : (copyPlan (World.ofFiles []).globals longCopy ['b', 'c'] longName
      ['b', 'c']).Formats := by
    intro c hc
    rw [List.mem_singleton.mp hc]
    exact hlen.trans_le (by decide)
  constructor
  · rcases hcomposes.ends with ⟨-, hrun⟩ | ⟨hnot, -⟩
    · refine ⟨_, _, hrun, congrArg some ?_⟩
      show (longName ++ ['/', 'b', 'c']).take 1023 = longName ++ ['/', 'b']
      rw [List.take_append, longName, List.length_replicate, List.take_replicate]
      rfl
    · exact absurd hformats hnot
  · intro hno
    rcases (noTruncation_iff .copy _ longCopy).mp hno _ _ hcomposes with hfits | hnot
    · have hshort := hfits _ (List.mem_singleton_self _)
      exact absurd (hlen.symm.trans_lt hshort) (by decide)
    · exact hnot hformats

end CStringVerified.Install
