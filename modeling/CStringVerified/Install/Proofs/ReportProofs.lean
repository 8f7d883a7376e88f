import CStringVerified.Install.Proofs.UseProofs

/-!
# What is reported

The `main` of each tool asserts that a status that is not good has a message. None is fatal, and every
error has one.
-/

namespace CStringVerified.Install

open Foundation Foundation.Run

/-- A tool can report the status: it is not fatal, and an error has a message. -/
structure Reported (status : Status) : Prop where
  notFatal : status.status ≠ .fatal
  message : status.status = .error → status.message ≠ none

theorem reported_statusOk : Gives Reported statusOk := by
  intro w status w' hrun
  cases hrun
  exact ⟨nofun, nofun⟩

theorem reported_statusError (message : String) : Gives Reported (statusError message) := by
  intro w status w' hrun
  cases hrun
  exact ⟨nofun, fun _ => Option.some_ne_none message⟩

section Reports

variable {item : Item} {flags : BitVec 32}

theorem reported_installFileCopy (src dst : Text) (uid gid : Id) (mode : Mode) :
    Gives Reported (installFileCopy src dst uid gid mode) := by
  have hfailed : ∀ message tmp fdSrc fdDst, Gives Reported (do
      let status ← statusError message
      copyErr tmp fdSrc fdDst
      pure status) := by
    intro message tmp fdSrc fdDst
    refine (reported_statusError message).bind fun status hstatus => ?_
    exact gives_bind fun _ => gives_pure hstatus
  refine gives_bind fun processUid => ?_
  cases processUid with
  | none => exact reported_statusError _
  | some processUid =>
    refine gives_bind fun _ => ?_
    cases snprintf installMaxPathlen (dst ++ ['.', 't', 'm', 'p']) with
    | none => exact reported_statusError _
    | some tmp =>
      refine gives_bind fun fdSrc => ?_
      cases fdSrc with
      | none => exact reported_statusError _
      | some fdSrc =>
        refine gives_bind fun fdDst => ?_
        cases fdDst with
        | none => exact hfailed _ _ _ _
        | some fdDst =>
          refine gives_bind fun message => ?_
          cases message with
          | none => exact reported_statusOk
          | some message => exact hfailed _ _ _ _

theorem reported_withIds {next : Id → Id → Sys Status} (h : ∀ uid gid, Gives Reported (next uid gid)) :
    Gives Reported (withIds item next) := by
  have hlookup : Gives (fun r => Reported r.1) (installUidgidLookup item.owner item.group) := by
    intro w r w' hrun
    rw [installUidgidLookup_apply] at hrun
    split at hrun
    · split at hrun
      · cases hrun
      · cases hrun
        exact ⟨nofun, nofun⟩
    · cases hrun
      exact ⟨nofun, fun _ => Option.some_ne_none _⟩
    · cases hrun
      exact ⟨nofun, fun _ => Option.some_ne_none _⟩
  refine hlookup.bind fun ⟨status, uid, gid⟩ hstatus => ?_
  dsimp only
  split
  · exact gives_pure hstatus
  · exact h uid gid

theorem reported_instCopy : Gives Reported (instCopy item flags) := by
  refine reported_withIds fun uid gid => gives_bind fun src => gives_bind fun _ => ?_
  split
  · refine gives_bind fun dst => ?_
    refine (reported_installFileCopy src dst uid gid item.perm).bind fun status hstatus => ?_
    split
    · exact gives_pure hstatus
    · exact reported_statusOk
  · exact reported_statusOk

theorem reported_instLink : Gives Reported (instLink item flags) := by
  refine gives_bind fun pathBuf => ?_
  cases pathBuf with
  | none => exact reported_statusError _
  | some pathBuf =>
    refine gives_bind fun dir => gives_bind fun r => ?_
    split
    · exact reported_statusError _
    · refine gives_bind fun linked => gives_bind fun restored => ?_
      split
      · exact reported_statusError _
      · split
        · exact reported_statusError _
        · exact reported_statusOk

theorem reported_instMkdir : Gives Reported (instMkdir item flags) := by
  have hownership : ∀ dir processUid uid gid,
      Gives Reported (mkdirOwnership dir processUid uid gid) := by
    intro dir processUid uid gid
    unfold mkdirOwnership
    split
    · refine gives_bind fun canSet => ?_
      split
      · refine gives_bind fun r => ?_
        split
        · exact reported_statusError _
        · exact reported_statusOk
      · exact reported_statusError _
    · exact reported_statusOk
  refine reported_withIds fun uid gid => gives_bind fun processUid => ?_
  cases processUid with
  | none => exact reported_statusError _
  | some processUid =>
    dsimp only
    split
    · refine gives_bind fun dir => gives_bind fun r => ?_
      split
      · exact reported_statusError _
      · exact hownership dir processUid uid gid
    · exact reported_statusOk

theorem reported_installOper (op : InstallOp) : Gives Reported ((installOpers op).oper item flags) := by
  cases op with
  | instCopy => exact reported_instCopy
  | instCopyExec => exact reported_instCopy
  | instSymlink => exact reported_instLink
  | instMkdir => exact reported_instMkdir
  | instLiblink => exact reported_instLink

theorem reported_deinstRemove (remove : Sys Int) (message : String) :
    Gives Reported (deinstRemove remove message flags) := by
  unfold deinstRemove
  split
  · refine gives_bind fun r => ?_
    split
    · exact reported_statusError _
    · exact reported_statusOk
  · exact reported_statusOk

theorem reported_deinstLink : Gives Reported (deinstLink item flags) := by
  unfold deinstLink
  split
  · refine gives_bind fun dir => gives_bind fun dst => ?_
    split
    · exact reported_statusError _
    · exact reported_deinstRemove _ _
  · exact reported_statusOk

theorem reported_deinstOper (op : InstallOp) : Gives Reported ((deinstOpers op).oper item flags) := by
  cases op with
  | instCopy => exact reported_deinstRemove _ _
  | instCopyExec => exact reported_deinstRemove _ _
  | instSymlink => exact reported_deinstLink
  | instMkdir => exact reported_deinstRemove _ _
  | instLiblink => exact reported_deinstLink

theorem reported_installFileCheck (src dst : Text) (mode : Mode) (type : FileType) (uid gid : Id) :
    Gives Reported (installFileCheck src mode type uid gid dst) := by
  have hownership : Gives Reported (checkOwnership uid gid dst) := by
    refine gives_bind fun got => ?_
    cases got with
    | none => exact reported_statusError _
    | some got =>
      dsimp only
      split
      · exact reported_statusError _
      · split
        · exact reported_statusError _
        · exact reported_statusOk
  have hmode : Gives Reported (checkMode mode uid gid dst) := by
    unfold checkMode
    split
    · refine gives_bind fun got => ?_
      cases got with
      | none => exact reported_statusError _
      | some got =>
        dsimp only
        split
        · exact reported_statusError _
        · exact hownership
    · exact hownership
  have hsize : ∀ size, Gives Reported (checkSize type size mode uid gid dst) := by
    intro size
    refine gives_bind fun got => ?_
    cases got with
    | none => exact reported_statusError _
    | some got =>
      dsimp only
      split
      · exact reported_statusError _
      · exact hmode
  refine gives_bind fun _ => ?_
  dsimp only
  split
  · exact reported_statusError _
  · refine gives_bind fun size => ?_
    cases size with
    | none => exact reported_statusError _
    | some size =>
      refine gives_bind fun got => ?_
      cases got with
      | none => exact reported_statusError _
      | some got =>
        dsimp only
        split
        · exact reported_statusError _
        · split
          · exact reported_statusError _
          · exact hsize size

theorem reported_instchkOper (op : InstallOp) : Gives Reported ((instchkOpers op).oper item flags) := by
  rw [instchkOper_eq]
  refine reported_withIds fun uid gid => gives_bind fun src => gives_bind fun dst => ?_
  refine (reported_installFileCheck src dst item.perm _ uid gid).bind fun status hstatus => ?_
  unfold countFailure
  split
  · exact gives_bind fun _ => gives_pure hstatus
  · exact gives_pure hstatus

theorem reported_runOper {opers : InstallOp → Instop}
    (h : ∀ op item, Gives Reported ((opers op).oper item flags)) :
    Gives Reported (runOper opers item flags) := by
  have hflush : ∀ {m : Sys Status}, Gives Reported m → Gives Reported (do
      let status ← m
      let _ ← fflushAll
      pure status) :=
    fun hm => hm.bind fun _ hstatus => gives_bind fun _ => gives_pure hstatus
  refine gives_bind fun _ => gives_bind fun translated => ?_
  cases translated with
  | error message => exact hflush (reported_statusError message)
  | ok translated => exact hflush (h item.op translated)

theorem reported_runItems {run : Item → Sys Status} (h : ∀ item, Gives Reported (run item))
    (items : List Item) : Gives (fun statuses => ∀ s ∈ statuses, Reported s) (runItems run items) := by
  induction items with
  | nil => exact gives_pure fun s hs => by cases hs
  | cons item items ih =>
    refine (h item).bind fun status hstatus => ?_
    rw [if_neg hstatus.notFatal]
    exact ih.bind fun rest hrest => gives_pure (List.forall_mem_cons.mpr ⟨hstatus, hrest⟩)

end Reports

end CStringVerified.Install
