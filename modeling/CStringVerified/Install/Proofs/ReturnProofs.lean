import CStringVerified.Foundation.Transitions
import CStringVerified.Install.Proofs.ReportProofs

/-!
# The tools come to their end

Whatever the calls do, no assertion of the installer fails, no null pointer is used, no buffer is
overrun and no loop goes on for ever, as long as directories have names, no ID is the one that stands
for none, and the names in virtual library files fit. No closed stream is used, unless an `fclose` or a
`rename` fails.
-/

namespace CStringVerified.Install

open Foundation Foundation.Run

/-! ## Translations return -/

/-- There are no users and groups with the ID that stands for none. -/
structure ValidIds (env : Env) : Prop where
  uid : env.uid ≠ nullId
  gid : env.gid ≠ nullId
  passwd : ∀ user, env.passwd user ≠ some nullId
  group : ∀ group, env.group group ≠ some nullId

/-- The name in a virtual library file fits its buffer, for all files that the item names. -/
def ShortNames (w : World) (item : Item) : Prop :=
  ∀ name, (item.src = some name ∨ item.dst = some name) → strEnds name ['.', 'v', 'l', 'b'] = true →
    ∀ n, statAt w name = some n → (untilBlank n.data).length < installMaxPathlen

/-- What the operators use of a translated item is there. -/
def Complete (op : InstallOp) (t : Item) : Prop :=
  match wantedType op with
  | .directory => t.dir ≠ none
  | .symlink => t.src ≠ none ∧ t.dir ≠ none ∧ t.dst ≠ none
  | _ => t.src ≠ none ∧ t.dst ≠ none

section Translations

variable {w w' : World} {item t : Item} {name : Text} {op : InstallOp}

theorem returns_deref_bind {α β : Type} {p : Option α} {next : α → Sys β} (hp : p ≠ none)
    (h : ∀ a, p = some a → Returns (next a) w) : Returns (deref p >>= next) w := by
  cases p with
  | none => exact absurd rfl hp
  | some a => exact h a rfl

theorem returns_libname
    (hshort : ∀ n, statAt w name = some n → (untilBlank n.data).length < installMaxPathlen) :
    Returns (libname name) w := by
  unfold libname
  refine (returns_sysCall _ _ w).bind fun fd w₁ hopen => ?_
  cases fd with
  | none => exact returns_pure none
  | some fd =>
    obtain ⟨l, n, i, hne, hres, hi, rfl, rfl⟩ := fopenRead_ok hopen
    have hn := hshort n (statAt_eq_some.mpr ⟨hne, l, hres⟩)
    have hs : (openStream w.os i).2.streams[w.os.streams.length]? =
        some ⟨i, 0, false, false, false⟩ := by simp [openStream]
    have hnode : (openStream w.os i).2.fs.inode i = some n :=
      (FileSystem.node_of_ino (opened_eq_ok.mp hi).2).symm.trans (FileSystem.resolve_node hres)
    obtain ⟨text, w₂, s, hread, hs', htext⟩ : ∃ text w₂ s, fread w.os.streams.length installMaxPathlen
        ((w.record (.fopenRead name) true).withOs (openStream w.os i).2) = (.ok text, w₂) ∧
        w₂.os.streams[w.os.streams.length]? = some s ∧
        (untilBlank text).length < installMaxPathlen := by
      have hlt : w.os.streams.length < (openStream w.os i).2.streams.length :=
        (List.getElem?_eq_some_iff.mp hs).1
      rcases fread_run
          (w := (w.record (.fopenRead name) true).withOs (openStream w.os i).2) installMaxPathlen hs with
        ⟨m, -, hm, -, hrun⟩ | ⟨e, -, hrun⟩
      · obtain rfl := Option.some.inj (hnode.symm.trans hm)
        refine ⟨_, _, _, hrun, List.getElem?_set_self hlt, ?_⟩
        -- What was read is the beginning of the file, however much that is.
        rw [World.block, List.drop_zero, untilBlank_take, List.length_take]
        exact (Nat.min_le_right _ _).trans_lt hn
      · exact ⟨_, _, _, hrun, List.getElem?_set_self hlt, by decide⟩
    dsimp only
    unfold Returns
    rw [bind_ok hread, bind_ok (ferror_apply hs')]
    have hclose : ∀ r : Int → Option Text, Returns (do
        let closed ← fclose w.os.streams.length
        pure (r closed)) w₂ :=
      fun r => (returns_fclose _ w₂).bind fun _ _ _ => returns_pure _
    split
    · exact hclose fun _ => none
    · have htoken : ¬installMaxPathlen ≤ (text.takeWhile fun c => !isBlank c).length :=
        Nat.not_le.mpr htext
      rw [if_neg htoken]
      exact hclose _

theorem returns_realName (hshort : strEnds name ['.', 'v', 'l', 'b'] = true → ∀ n,
    statAt w name = some n → (untilBlank n.data).length < installMaxPathlen) :
    Returns (realName name) w := by
  unfold realName
  by_cases hlib : strEnds name ['.', 'v', 'l', 'b'] = true
  · rw [if_pos hlib]
    exact returns_libname (hshort hlib)
  · rw [if_neg hlib]
    exact returns_pure _

theorem ShortNames.quiet (h : ShortNames w item) (hq : Frame Quiet w w') : ShortNames w' item := by
  intro name hname hlib n hn
  rw [hq.sameFiles.statAt] at hn
  exact h name hname hlib n hn

/-- A text that is formatted, or is too long for that. -/
theorem returns_formatted {α : Type} {text : Text} {failed : Sys α} {next : Text → Sys α}
    (hfailed : Returns failed w) (hnext : ∀ name, Returns (next name) w) :
    Returns (match snprintf installMaxPathlen text with
      | none => failed
      | some name => next name) w := by
  split
  · exact hfailed
  · exact hnext _

theorem returns_ntranCopy (hshort : ShortNames w item) : Returns (ntranCopy item) w := by
  unfold ntranCopy
  cases hsrc : item.src with
  | none => exact returns_pure _
  | some src =>
    cases item.dir with
    | none => exact returns_pure _
    | some dir =>
      refine (returns_realName (hshort src (Or.inl hsrc))).bind fun srcName w₁ hread => ?_
      cases srcName with
      | none => exact returns_pure _
      | some srcName =>
        have hquiet : Frame Quiet w w₁ := (Frame.of_run (keeps_realName keeps_libname src) hread).mono fun _ he => he.quiet
        have hdst : item.src = some (item.dst.getD src) ∨ item.dst = some (item.dst.getD src) := by
          cases item.dst with
          | none => exact Or.inl hsrc
          | some dst => exact Or.inr rfl
        refine (returns_realName (hshort.quiet hquiet _ hdst)).bind fun dstName w₂ _ => ?_
        cases dstName with
        | none => exact returns_pure _
        | some dstName =>
          dsimp only
          cases baseName dstName with
          | none => exact returns_pure _
          | some base =>
            refine Returns.bind ⟨w₂, w₂, rfl⟩ fun _ _ _ => ?_
            exact returns_formatted (returns_pure _) fun _ => returns_pure _

theorem returns_ntranCopyExec (hshort : ShortNames w item) : Returns (ntranCopyExec item) w := by
  refine (returns_ntranCopy hshort).bind fun r w₁ htrans => ?_
  cases r with
  | error message => exact returns_pure _
  | ok t =>
    obtain ⟨_, _, _, _, _, _, -, -, -, -, -, rfl⟩ := ntranCopy_ok htrans
    refine returns_deref_bind (Option.some_ne_none _) fun src _ => ?_
    refine returns_deref_bind (Option.some_ne_none _) fun dst _ => ?_
    refine Returns.bind ⟨w₁, w₁, rfl⟩ fun _ _ _ => ?_
    refine returns_formatted (returns_pure _) fun srcName => ?_
    exact returns_formatted (returns_pure _) fun dstName => returns_pure _

theorem returns_linkPrefix {next : Text → Text → Text → Sys (Except String Item)}
    (h : ∀ src dst dirName, item.src = some src → Returns (next src dst dirName) w) :
    Returns (linkPrefix item next) w := by
  unfold linkPrefix
  cases hsrc : item.src with
  | none => exact returns_pure _
  | some src =>
    cases item.dir with
    | none => exact returns_pure _
    | some dir =>
      cases item.dst with
      | none => exact returns_pure _
      | some dst =>
        refine Returns.bind ⟨_, _, rootedDir_run dir w⟩ fun dirName w₁ hroot => ?_
        obtain rfl : w₁ = w := (ok_unique hroot (rootedDir_run dir w)).2
        cases dirName with
        | none => exact returns_pure _
        | some dirName => exact h src dst dirName hsrc

theorem returns_ntranLink : Returns (ntranLink item) w :=
  returns_linkPrefix fun _ _ _ _ => returns_pure _

theorem returns_ntranLiblink (hshort : ShortNames w item) : Returns (ntranLiblink item) w := by
  refine returns_linkPrefix fun src dst dirName hsrc => ?_
  have hnext : ∀ srcName w₁, Returns (match baseName dst with
      | none => tranError "invalid destination path"
      | some base => do
        let w ← Run.get
        match snprintf installMaxPathlen (base ++ w.globals.dlibSuffix) with
        | none => tranError "could not format destination path"
        | some dstTmp =>
          pure (.ok { item with src := some srcName, dst := some dstTmp, dir := some dirName })) w₁ := by
    intro srcName w₁
    split
    · exact returns_pure _
    · refine Returns.bind ⟨w₁, w₁, rfl⟩ fun _ _ _ => ?_
      exact returns_formatted (returns_pure _) fun _ => returns_pure _
  unfold liblinkSource
  by_cases hlib : strEnds src ['.', 'v', 'l', 'b'] = true
  · rw [if_pos hlib]
    refine (returns_libname (hshort src (Or.inl hsrc) hlib)).bind fun srcTmp w₁ _ => ?_
    cases srcTmp with
    | none => exact returns_pure _
    | some srcTmp =>
      dsimp only
      cases baseName srcTmp with
      | none => exact returns_pure _
      | some srcName => exact hnext srcName w₁
  · rw [if_neg hlib]
    exact hnext src w

theorem returns_ntranMkdir (hdir : item.dir ≠ none) : Returns (ntranMkdir item) w := by
  unfold ntranMkdir
  refine Returns.bind ⟨w, w, rfl⟩ fun w₁ _ _ => ?_
  cases w₁.globals.fakeRoot with
  | none => exact returns_pure _
  | some root =>
    refine returns_deref_bind hdir fun dir _ => ?_
    refine Returns.bind ⟨_, _, rootedDir_run dir _⟩ fun dirName _ _ => ?_
    cases dirName with
    | none => exact returns_pure _
    | some dirName => exact returns_pure _

theorem returns_installTrans (hshort : ShortNames w item)
    (hdir : item.op = .instMkdir → item.dir ≠ none) :
    Returns ((installOpers item.op).trans item) w := by
  cases hop : item.op with
  | instCopy => exact returns_ntranCopy hshort
  | instCopyExec => exact returns_ntranCopyExec hshort
  | instSymlink => exact returns_ntranLink
  | instMkdir => exact returns_ntranMkdir (hdir hop)
  | instLiblink => exact returns_ntranLiblink hshort

theorem ntranLink_complete {ntran : Item → Sys (Except String Item)}
    (hntran : ntran = ntranLink ∨ ntran = ntranLiblink) (h : ntran item w = (.ok (.ok t), w')) :
    t.src ≠ none ∧ t.dir ≠ none ∧ t.dst ≠ none := by
  rcases hntran with rfl | rfl
  · obtain ⟨src, dir, dst, hsrc, -, hdst, rfl⟩ := ntranLink_ok h
    exact ⟨hsrc ▸ Option.some_ne_none _, Option.some_ne_none _, hdst ▸ Option.some_ne_none _⟩
  · obtain ⟨_, _, _, _, _, -, -, -, -, rfl⟩ := ntranLiblink_ok h
    exact ⟨Option.some_ne_none _, Option.some_ne_none _, Option.some_ne_none _⟩

theorem ntranCopy_complete (h : ntranCopy item w = (.ok (.ok t), w')) : t.src ≠ none ∧ t.dst ≠ none := by
  obtain ⟨_, _, _, _, _, _, -, -, -, -, -, rfl⟩ := ntranCopy_ok h
  exact ⟨Option.some_ne_none _, Option.some_ne_none _⟩

theorem ntranCopyExec_complete (h : ntranCopyExec item w = (.ok (.ok t), w')) :
    t.src ≠ none ∧ t.dst ≠ none := by
  obtain ⟨_, _, _, -, -, -, rfl⟩ := ntranCopyExec_ok h
  exact ⟨Option.some_ne_none _, Option.some_ne_none _⟩

theorem ntranMkdir_complete (hdir : item.dir ≠ none) (h : ntranMkdir item w = (.ok (.ok t), w')) :
    t.dir ≠ none := by
  obtain ⟨-, rfl⟩ := ntranMkdir_ok h
  obtain ⟨dir, hsome⟩ := Option.ne_none_iff_exists'.mp hdir
  rw [hsome]
  exact Option.some_ne_none _

theorem installTrans_complete (hdir : item.op = .instMkdir → item.dir ≠ none)
    (h : (installOpers item.op).trans item w = (.ok (.ok t), w')) : Complete item.op t := by
  unfold Complete
  cases hop : item.op with
  | instCopy =>
    rw [hop] at h
    exact ntranCopy_complete h
  | instCopyExec =>
    rw [hop] at h
    exact ntranCopyExec_complete h
  | instSymlink =>
    rw [hop] at h
    exact ntranLink_complete (Or.inl rfl) h
  | instMkdir =>
    rw [hop] at h
    exact ntranMkdir_complete (hdir hop) h
  | instLiblink =>
    rw [hop] at h
    exact ntranLink_complete (Or.inr rfl) h

theorem returns_ntranChk {ntran : Item → Sys (Except String Item)}
    (hntran : ntran = ntranLink ∨ ntran = ntranLiblink) (h : Returns (ntran item) w) :
    Returns (ntranChk ntran item) w := by
  refine h.bind fun r w₁ htrans => ?_
  cases r with
  | error message => exact returns_pure _
  | ok t =>
    obtain ⟨-, hdir, hdst⟩ := ntranLink_complete hntran htrans
    refine returns_deref_bind hdir fun dir _ => returns_deref_bind hdst fun dst _ => ?_
    exact returns_formatted (returns_pure _) fun _ => returns_pure _

theorem returns_instchkTrans (hshort : ShortNames w item)
    (hdir : item.op = .instMkdir → item.dir ≠ none) :
    Returns ((instchkOpers item.op).trans item) w := by
  cases hop : item.op with
  | instCopy => exact returns_ntranCopy hshort
  | instCopyExec => exact returns_ntranCopyExec hshort
  | instSymlink => exact returns_ntranChk (Or.inl rfl) returns_ntranLink
  | instMkdir => exact returns_ntranMkdir (hdir hop)
  | instLiblink => exact returns_ntranChk (Or.inr rfl) (returns_ntranLiblink hshort)

theorem ntranChk_complete {ntran : Item → Sys (Except String Item)}
    (hntran : ntran = ntranLink ∨ ntran = ntranLiblink) (h : ntranChk ntran item w = (.ok (.ok t), w')) :
    t.src ≠ none ∧ t.dst ≠ none := by
  obtain ⟨t₀, _, _, htrans, -, -, rfl⟩ := ntranChk_ok h
  obtain ⟨hsrc, -, -⟩ := ntranLink_complete hntran htrans
  exact ⟨hsrc, Option.some_ne_none _⟩

theorem instchkTrans_complete (hdir : item.op = .instMkdir → item.dir ≠ none)
    (h : (instchkOpers item.op).trans item w = (.ok (.ok t), w')) :
    checkedSrc item.op t ≠ none ∧ checkedDst item.op t ≠ none := by
  cases hop : item.op with
  | instCopy =>
    rw [hop] at h
    exact ntranCopy_complete h
  | instCopyExec =>
    rw [hop] at h
    exact ntranCopyExec_complete h
  | instSymlink =>
    rw [hop] at h
    exact ntranChk_complete (Or.inl rfl) h
  | instMkdir =>
    rw [hop] at h
    exact ⟨ntranMkdir_complete (hdir hop) h, ntranMkdir_complete (hdir hop) h⟩
  | instLiblink =>
    rw [hop] at h
    exact ntranChk_complete (Or.inr rfl) h

end Translations

/-! ## Operators return -/

section Operators

variable {w : World} {item t : Item} {op : InstallOp} {flags : BitVec 32}

theorem returns_status (code : StatusCode) (message : Option String) :
    Returns (installStatusAssign code message) w := ⟨_, w, rfl⟩

theorem returns_query {α : Type} (call : Call) (f : World → Except Errno α) : Returns (query call f) w := by
  unfold query Returns
  dsimp only
  split
  · exact ⟨_, _, rfl⟩
  · exact ⟨_, _, rfl⟩

theorem returns_chdir (path : Text) : Returns (chdir path) w :=
  (returns_sysCall _ _ w).bind fun _ _ _ => returns_pure _

theorem ValidIds.wanted (h : ValidIds w.env) {uid gid : Id} (hids : wantedIds w.env item = some (uid, gid)) :
    ¬(uid = nullId ∨ gid = nullId) := by
  unfold wantedIds at hids
  have huser : ∀ uid, wantedId w.env.passwd w.env.uid item.owner = some uid → uid ≠ nullId := by
    intro uid hwanted hnull
    subst hnull
    cases howner : item.owner with
    | none =>
      rw [howner] at hwanted
      exact h.uid (Option.some.inj hwanted)
    | some user =>
      rw [howner] at hwanted
      exact h.passwd user hwanted
  have hgroup : ∀ gid, wantedId w.env.group w.env.gid item.group = some gid → gid ≠ nullId := by
    intro gid hwanted hnull
    subst hnull
    cases howner : item.group with
    | none =>
      rw [howner] at hwanted
      exact h.gid (Option.some.inj hwanted)
    | some group =>
      rw [howner] at hwanted
      exact h.group group hwanted
  split at hids
  · rename_i hu hg
    cases hids
    exact not_or.mpr ⟨huser _ hu, hgroup _ hg⟩
  · cases hids

theorem returns_withIds (hids : ValidIds w.env) {next : Id → Id → Sys Status}
    (h : ∀ uid gid, wantedIds w.env item = some (uid, gid) → Returns (next uid gid) w) :
    Returns (withIds item next) w := by
  rcases wantedIds_cases w.env item with hunknown | ⟨uid, gid, hwanted, hnull⟩ | ⟨uid, gid, hwanted, hnull⟩
  · obtain ⟨status, hrun, -⟩ := withIds_unknown next hunknown
    exact ⟨status, w, hrun⟩
  · exact absurd hnull (hids.wanted hwanted)
  · unfold Returns
    rw [withIds_found hwanted, if_neg hnull]
    exact h uid gid hwanted

theorem returns_instCopy (hids : ValidIds w.env) (ht : t.src ≠ none ∧ t.dst ≠ none) :
    Returns (instCopy t flags) w := by
  refine returns_withIds hids fun uid gid _ => returns_deref_bind ht.1 fun src _ => ?_
  have hsize : Returns (iposixFileSize src) w := (returns_query _ _).bind fun _ _ _ => returns_pure _
  refine hsize.bind fun _ w₁ hstat => ?_
  have hframe : Frame (fun _ => True) w w₁ := Frame.of_run (keeps_iposixFileSize fun _ _ => trivial) hstat
  have hvalid : iposixUidValid w₁.env.uid = true := by
    rw [hframe.env]
    exact decide_eq_true hids.uid
  split
  · refine returns_deref_bind ht.2 fun dst _ => ?_
    obtain ⟨status, w₂, hcopy, -⟩ := installFileCopy_run hvalid src dst uid gid t.perm
    refine Returns.bind ⟨status, w₂, hcopy⟩ fun status w₃ _ => ?_
    split
    · exact returns_pure _
    · exact returns_status _ _
  · exact returns_status _ _

theorem returns_makeLink (ht : t.src ≠ none ∧ t.dst ≠ none) : Returns (makeLink t flags) w := by
  unfold makeLink
  split
  · refine returns_deref_bind ht.1 fun src _ => returns_deref_bind ht.2 fun dst _ => ?_
    exact (returns_fsCall _ _ w).bind fun _ _ _ => returns_pure _
  · exact returns_pure _

theorem returns_instLink (ht : t.src ≠ none ∧ t.dir ≠ none ∧ t.dst ≠ none) :
    Returns (instLink t flags) w := by
  obtain ⟨hsrc, hdir, hdst⟩ := ht
  refine Returns.bind (returns_sysCall _ _ w) fun pathBuf w₁ _ => ?_
  cases pathBuf with
  | none => exact returns_status _ _
  | some pathBuf =>
    refine returns_deref_bind hdir fun dir _ => (returns_chdir dir).bind fun r w₂ _ => ?_
    split
    · exact returns_status _ _
    · refine (returns_makeLink ⟨hsrc, hdst⟩).bind fun linked w₃ _ => ?_
      refine (returns_chdir pathBuf).bind fun restored w₄ _ => ?_
      split
      · exact returns_status _ _
      · split
        · exact returns_status _ _
        · exact returns_status _ _

theorem returns_installRmkdir (dir : Text) (perm : Mode) : Returns (installRmkdir dir perm) w := by
  by_cases hlen : dir.length < installMaxPathlen
  · obtain ⟨w', hrun, -⟩ := installRmkdir_run hlen perm w
    exact ⟨1, w', hrun⟩
  · unfold installRmkdir
    rw [if_pos (Nat.le_of_not_lt hlen)]
    exact ⟨0, _, rfl⟩

theorem returns_mkdirOwnership (dir : Text) {processUid : Id} (hvalid : processUid ≠ nullId)
    (uid gid : Id) : Returns (mkdirOwnership dir processUid uid gid) w := by
  unfold mkdirOwnership
  split
  · have hcan : Returns (iposixCanSetOwnership processUid) w :=
      Returns.bind ⟨(), w, assert_true (decide_eq_true hvalid) w⟩ fun _ _ _ => returns_pure _
    refine hcan.bind fun canSet w₁ _ => ?_
    split
    · have hown : Returns (iposixFileOwnershipSet dir uid gid) w₁ :=
        (returns_fsCall _ _ w₁).bind fun _ _ _ => returns_pure _
      refine hown.bind fun r w₂ _ => ?_
      split
      · exact returns_status _ _
      · exact returns_status _ _
    · exact returns_status _ _
  · exact returns_status _ _

theorem returns_instMkdir (hids : ValidIds w.env) (ht : t.dir ≠ none) : Returns (instMkdir t flags) w := by
  refine returns_withIds hids fun uid gid _ => ?_
  refine Returns.bind ⟨some w.env.uid, w, rfl⟩ fun processUid w₁ huid => ?_
  cases huid
  dsimp only
  split
  · refine returns_deref_bind ht fun dir _ => (returns_installRmkdir dir t.perm).bind fun r w₂ _ => ?_
    split
    · exact returns_status _ _
    · exact returns_mkdirOwnership dir hids.uid uid gid
  · exact returns_status _ _

theorem returns_installOper (hids : ValidIds w.env) (ht : Complete op t) :
    Returns ((installOpers op).oper t flags) w := by
  cases op with
  | instCopy => exact returns_instCopy hids ht
  | instCopyExec => exact returns_instCopy hids ht
  | instSymlink => exact returns_instLink ht
  | instMkdir => exact returns_instMkdir hids ht
  | instLiblink => exact returns_instLink ht

theorem returns_deinstRemove {remove : Sys Int} (h : Returns remove w) (message : String) :
    Returns (deinstRemove remove message flags) w := by
  unfold deinstRemove
  split
  · refine h.bind fun r w₁ _ => ?_
    split
    · exact returns_status _ _
    · exact returns_status _ _
  · exact returns_status _ _

theorem returns_deinstLink (ht : t.src ≠ none ∧ t.dir ≠ none ∧ t.dst ≠ none) :
    Returns (deinstLink t flags) w := by
  unfold deinstLink
  split
  · refine returns_deref_bind ht.2.1 fun dir _ => returns_deref_bind ht.2.2 fun dst _ => ?_
    exact returns_formatted (returns_status _ _) fun _ => returns_deinstRemove (returns_fsCall _ _ w) _
  · exact returns_status _ _

theorem returns_deinstOper (ht : Complete op t) : Returns ((deinstOpers op).oper t flags) w := by
  have hcopy : t.dst ≠ none → Returns (deinstCopy t flags) w := fun hdst =>
    returns_deinstRemove (returns_deref_bind hdst fun _ _ => returns_fsCall _ _ w) _
  cases op with
  | instCopy => exact hcopy ht.2
  | instCopyExec => exact hcopy ht.2
  | instSymlink => exact returns_deinstLink ht
  | instMkdir => exact returns_deinstRemove (returns_deref_bind ht fun _ _ => returns_fsCall _ _ w) _
  | instLiblink => exact returns_deinstLink ht

theorem returns_instchkOper (hids : ValidIds w.env)
    (ht : checkedSrc op t ≠ none ∧ checkedDst op t ≠ none) :
    Returns ((instchkOpers op).oper t flags) w := by
  obtain ⟨src, hsrc⟩ := Option.ne_none_iff_exists'.mp ht.1
  obtain ⟨dst, hdst⟩ := Option.ne_none_iff_exists'.mp ht.2
  cases hwanted : wantedIds w.env t with
  | none =>
    obtain ⟨status, hrun, -⟩ := instchkOper_unknown op flags hwanted
    exact ⟨status, w, hrun⟩
  | some ids =>
    unfold Returns
    rw [instchkOper_checkable flags ⟨hsrc, hdst, hwanted, hids.wanted hwanted⟩]
    obtain ⟨status, w', hrun, -⟩ := compare_verdict src t.perm (wantedType op) ids.1 ids.2 dst w
    exact ⟨status, w', hrun⟩

end Operators

/-! ## Items and tables return -/

/-- An item is handled, whatever its status is. -/
def handled (run : Item → Sys Status) (w : World) (item : Item) : Option World :=
  match run item w with
  | (.ok _, w') => some w'
  | _ => none

section Tables

variable {w w' : World} {item : Item} {items : List Item} {flags : BitVec 32}

theorem returns_runOper {opers : InstallOp → Instop}
    (htrans : Returns ((opers item.op).trans item) (w.withErrno 0))
    (hoper : ∀ t w₁, (opers item.op).trans item (w.withErrno 0) = (.ok (.ok t), w₁) →
      Returns ((opers item.op).oper t flags) w₁) : Returns (runOper opers item flags) w := by
  obtain ⟨r, w₁, hr⟩ := htrans
  cases r with
  | error message =>
    obtain ⟨w', hrun, -⟩ := runOper_refused flags hr
    exact ⟨_, w', hrun⟩
  | ok t =>
    obtain ⟨status, w₂, hstatus⟩ := hoper t w₁ hr
    obtain ⟨w', hrun, -⟩ := runOper_run hr hstatus
    exact ⟨status, w', hrun⟩

theorem returns_install (hids : ValidIds w.env) (hdir : item.op = .instMkdir → item.dir ≠ none)
    (hshort : ShortNames w item) : Returns (install item flags) w := by
  refine returns_runOper (returns_installTrans hshort hdir) fun t w₁ htrans => ?_
  have hframe := Frame.of_run (keeps_installTrans item) htrans
  refine returns_installOper ?_ (installTrans_complete hdir htrans)
  rw [hframe.env]
  exact hids

theorem returns_deinstall (hdir : item.op = .instMkdir → item.dir ≠ none) (hshort : ShortNames w item) :
    Returns (deinstall item flags) w := by
  refine returns_runOper ?_ fun t w₁ htrans => ?_
  · rw [deinstOpers_trans]
    exact returns_installTrans hshort hdir
  · rw [deinstOpers_trans] at htrans
    exact returns_deinstOper (installTrans_complete hdir htrans)

theorem returns_installCheck (hids : ValidIds w.env) (hdir : item.op = .instMkdir → item.dir ≠ none)
    (hshort : ShortNames w item) : Returns (installCheck item) w := by
  refine returns_runOper (returns_instchkTrans hshort hdir) fun t w₁ htrans => ?_
  have hframe := Frame.of_run (keeps_instchkTrans item) htrans
  refine returns_instchkOper ?_ (instchkTrans_complete hdir htrans)
  rw [hframe.env]
  exact hids

theorem installCheck_env {status : Status} (h : installCheck item w = (.ok status, w')) :
    w'.env = w.env := by
  rcases installCheck_returns h with hnot | ⟨t, src, dst, uid, gid, hc⟩
  · obtain ⟨_, _, hrun, -, hchecked⟩ := installCheck_unchecked hnot
    obtain ⟨-, rfl⟩ := ok_unique hrun h
    exact hchecked.env
  · obtain ⟨_, _, hrun, -, -, hchecked⟩ := installCheck_compared hc
    obtain ⟨-, rfl⟩ := ok_unique hrun h
    exact hchecked.env

/-- A table is handled to its end, if each item returns where the items before it have led. -/
theorem runItems_return {run : Item → Sys Status} {P : World → Item → Prop}
    (hreported : ∀ item, Gives Reported (run item))
    (henv : ∀ item u status u', run item u = (.ok status, u') → u'.env = u.env)
    (hitem : ∀ item ∈ items, ∀ u, u.env = w.env → P u item → Returns (run item) u)
    (hP : Along (handled run) P w items) :
    ∃ statuses w', runItems run items w = (.ok statuses, w') ∧ statuses.length = items.length := by
  induction items generalizing w with
  | nil => exact ⟨[], w, rfl, rfl⟩
  | cons item items ih =>
    obtain ⟨status, w₁, hrun⟩ := hitem item List.mem_cons_self w rfl hP.1
    have hstatus := hreported item w status w₁ hrun
    have hnext : handled run w item = some w₁ := by
      unfold handled
      rw [hrun]
    obtain ⟨rest, w₂, hrest, hlen⟩ := ih (fun i hi u hu => hitem i (List.mem_cons_of_mem item hi) u
      (hu.trans (henv item w status w₁ hrun))) (hP.2 w₁ hnext)
    refine ⟨status :: rest, w₂, ?_, congrArg (· + 1) hlen⟩
    show (run item >>= _) w = _
    rw [bind_ok hrun, if_neg hstatus.notFatal, bind_ok hrest]
    rfl

end Tables

/-! ## The tools -/

inductive Tool
  | installer
  | instchk
  | deinstaller
deriving DecidableEq

namespace Tool

/-- `main` of a tool. -/
def main (argc : Nat) (ctxtFakeroot : Text) (insthier : List Item) : Tool → Sys (List Status × Nat)
  | installer => installerMain argc ctxtFakeroot insthier
  | instchk => instchkMain ctxtFakeroot insthier
  | deinstaller => deinstallerMain argc ctxtFakeroot insthier

/-- What a tool does with an item. -/
def run (argc : Nat) : Tool → Item → Sys Status
  | installer => fun item => install item (toolFlags argc)
  | instchk => installCheck
  | deinstaller => fun item => deinstall item (toolFlags argc)

/-- The order in which a tool comes to the items. -/
def order (insthier : List Item) : Tool → List Item
  | deinstaller => insthier.reverse
  | _ => insthier

/-- The last statement of `main`. -/
def exit (insthier : List Item) : Tool → Sys Nat
  | installer => pure exitSuccess
  | instchk => do
    let w ← Run.get
    pure (if w.failed ≠ 0 then 1 else exitSuccess)
  | deinstaller => if insthier = [] then crash .overrun else pure exitSuccess

variable {tool : Tool} {argc : Nat} {root : Text} {items : List Item} {w : World}

theorem main_eq (tool : Tool) (argc : Nat) (root : Text) (items : List Item) :
    tool.main argc root items = runTool root (tool.run argc) (tool.order items) (tool.exit items) := by
  cases tool <;> rfl

theorem length_order : (tool.order items).length = items.length := by
  cases tool with
  | installer => rfl
  | instchk => rfl
  | deinstaller => exact List.length_reverse

theorem mem_order {item : Item} (h : item ∈ tool.order items) : item ∈ items := by
  cases tool with
  | installer => exact h
  | instchk => exact h
  | deinstaller => exact List.mem_reverse.mp h

theorem reported_run (item : Item) : Gives Reported (tool.run argc item) := by
  cases tool with
  | installer => exact reported_runOper fun op _ => reported_installOper op
  | instchk => exact reported_runOper fun op _ => reported_instchkOper op
  | deinstaller => exact reported_runOper fun op _ => reported_deinstOper op

theorem run_env {item : Item} {status : Status} {w' : World}
    (h : tool.run argc item w = (.ok status, w')) : w'.env = w.env := by
  cases tool with
  | installer => exact (Frame.of_run (keeps_install item (toolFlags argc)) h).env
  | instchk => exact installCheck_env h
  | deinstaller => exact (Frame.of_run (keeps_deinstall item (toolFlags argc)) h).env

theorem returns_run {item : Item} (hids : ValidIds w.env)
    (hdir : item.op = .instMkdir → item.dir ≠ none) (hshort : ShortNames w item) :
    Returns (tool.run argc item) w := by
  cases tool with
  | installer => exact returns_install hids hdir hshort
  | instchk => exact returns_installCheck hids hdir hshort
  | deinstaller => exact returns_deinstall hdir hshort

theorem exit_run (hitems : tool = deinstaller → items ≠ []) (w : World) :
    ∃ code w', tool.exit items w = (.ok code, w') ∧ (tool ≠ instchk → code = exitSuccess) := by
  cases tool with
  | installer => exact ⟨exitSuccess, w, rfl, fun _ => rfl⟩
  | instchk => exact ⟨_, w, rfl, fun h => absurd rfl h⟩
  | deinstaller =>
    refine ⟨exitSuccess, w, ?_, fun _ => rfl⟩
    rw [exit, if_neg (hitems rfl)]
    rfl

theorem soundUse_main (tool : Tool) (argc : Nat) (root : Text) (items : List Item) :
    Keeps SoundUse (tool.main argc root items) := by
  rw [main_eq]
  refine soundUse_runTool (fun item => ?_) ?_ root (tool.order items)
  · cases tool with
    | installer => exact soundUse_install item (toolFlags argc)
    | instchk => exact soundUse_installCheck item
    | deinstaller => exact soundUse_deinstall item (toolFlags argc)
  · cases tool with
    | installer => exact keeps_pure _
    | instchk => exact Keeps.bind keeps_get fun _ => keeps_pure _
    | deinstaller =>
      show Keeps SoundUse (if items = [] then crash .overrun else pure exitSuccess)
      split
      · exact keeps_crash .overrun
      · exact keeps_pure _

/-- Every tool comes to its end, whatever the calls do: it reports the failed initialisation and exits
with a failure, or reports a status for every item. What `installer` and `deinstaller` report about the
items does not show in their exit status. The conditions: `deinstaller` has items, no ID is -1, a
directory that is to be made has a name, and where the tool comes to an item the names in the library
files that the item names fit. -/
theorem main_returns (tool : Tool) (argc : Nat) (root : Text) (items : List Item) (w : World)
    (hitems : tool = deinstaller → items ≠ []) (hids : ValidIds w.env)
    (hdirs : ∀ item ∈ items, item.op = .instMkdir → item.dir ≠ none)
    (hshort : Along (handled (tool.run argc)) ShortNames (initTool root w).2 (tool.order items)) :
    ∃ init w₀ statuses code w', initTool root w = (.ok init, w₀) ∧
      tool.main argc root items w = (.ok (statuses, code), w') ∧ (∀ s ∈ statuses, Reported s) ∧
      (init.status = .ok → statuses.length = items.length ∧ (tool ≠ instchk → code = exitSuccess)) ∧
      (init.status ≠ .ok → statuses = [init] ∧ code = exitFailure) ∧ SoundUse w w' := by
  have hsound := soundUse_main tool argc root items w
  obtain ⟨init, w₀, hinit, hends⟩ := installInit_run confSosuffix (w.rooted root)
  rw [← initTool_rooted] at hinit
  rw [hinit] at hshort
  rw [main_eq] at hsound ⊢
  unfold runTool at hsound ⊢
  rw [bind_ok hinit] at hsound ⊢
  by_cases hok : init.status = .ok
  · rw [if_neg (not_not.mpr hok)] at hsound ⊢
    have henv : w₀.env = w.env := ((w.rooted_untouched root).trans hends.untouched).env
    obtain ⟨statuses, w₁, hrun, hlen⟩ := runItems_return reported_run (fun _ _ _ _ => run_env)
      (fun item hitem u hu hP => returns_run (by rw [hu, henv]; exact hids)
        (hdirs item (mem_order hitem)) hP) hshort
    have hreported := reported_runItems reported_run (tool.order items) w₀ statuses w₁ hrun
    have hnotFatal : endedFatally statuses = false :=
      List.any_eq_false.mpr fun s hs => by simpa using (hreported s hs).notFatal
    obtain ⟨code, w', hexit, hcode⟩ := exit_run hitems w₁
    rw [bind_ok hrun, hnotFatal, if_neg Bool.false_ne_true, bind_ok hexit] at hsound ⊢
    exact ⟨init, w₀, statuses, code, w', hinit, rfl, hreported,
      fun _ => ⟨hlen.trans length_order, hcode⟩, fun hnot => absurd hok hnot, hsound⟩
  · rw [if_pos hok] at hsound ⊢
    have hreported : Reported init := ⟨hends.notFatal, hends.message⟩
    exact ⟨init, w₀, [init], exitFailure, w₀, hinit, rfl, List.forall_mem_singleton.mpr hreported,
      fun h => absurd h hok, fun _ => ⟨rfl, rfl⟩, hsound⟩

/-- There are a file `a` and the file with the suffix of libraries. -/
def tableWorld : World :=
  .ofFiles [([], ⟨sIfdir ||| 0o755, 0, 0, []⟩),
    (component ['a'], ⟨sIfreg ||| 0o600, 0, 0, ['x']⟩),
    (component confSosuffix, ⟨sIfreg ||| 0o644, 0, 0, ['s', 'o', '\n']⟩)]

/-- A directory, and a file in it. -/
def itemTable : List Item := [dirItem, copyItem]

/-- The table names no virtual library file. -/
theorem itemTable_short {item : Item} (h : item ∈ itemTable) (w : World) : ShortNames w item := by
  intro name hname hlib
  have hplain : ∀ item ∈ itemTable, item.src.all (fun name => !strEnds name ['.', 'v', 'l', 'b']) = true ∧
      item.dst.all (fun name => !strEnds name ['.', 'v', 'l', 'b']) = true := by decide
  obtain ⟨hsrc, hdst⟩ := hplain item h
  rcases hname with hname | hname
  · simp [hname, hlib] at hsrc
  · simp [hname, hlib] at hdst

theorem main_returns_table :
    ∃ init w₀ statuses code w', initTool [] tableWorld = (.ok init, w₀) ∧
      deinstaller.main 1 [] itemTable tableWorld = (.ok (statuses, code), w') ∧
      (∀ s ∈ statuses, Reported s) ∧
      (init.status = .ok →
        statuses.length = itemTable.length ∧ (deinstaller ≠ instchk → code = exitSuccess)) ∧
      (init.status ≠ .ok → statuses = [init] ∧ code = exitFailure) ∧ SoundUse tableWorld w' :=
  main_returns deinstaller 1 [] itemTable tableWorld (fun _ => by decide)
    ⟨by decide, by decide, fun _ => nofun, fun _ => nofun⟩ (by decide)
    ((along_mem (P := fun item => ∀ u, ShortNames u item) _ fun _ hitem u =>
      itemTable_short (mem_order hitem) u).mono fun u _ h => h u)

end Tool

end CStringVerified.Install
