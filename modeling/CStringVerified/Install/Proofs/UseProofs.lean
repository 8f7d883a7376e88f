import CStringVerified.Install.Proofs.InitProofs
import CStringVerified.Install.Proofs.StreamProofs

/-!
# No closed stream is used

What becomes of a call on a closed stream is not defined. The tools make none, unless an `fclose` or a
`rename` fails: `install_file_copy` then closes its streams again. This is said of every run, also of one
that does not end, and of all that a run has done up to any moment.
-/

namespace CStringVerified.Install

open Foundation Foundation.Run

/-- No stream is used after it was closed. -/
def NoUseAfterClose (calls : List Call) : Prop :=
  calls.Pairwise fun c c' => ∀ h, c = .fclose h → c'.usedStream ≠ some h

/-- From `w` to `w'`, only streams are used that are opened in between, and none after it was closed,
unless a call fails that ends a copy. -/
def SoundUse (w w' : World) : Prop :=
  w.os.streams.length ≤ w'.os.streams.length ∧ ∃ es, w'.log = w.log ++ es ∧
    ((∀ e ∈ es, e.call.ends = true → e.ok = true) →
      (∀ e ∈ es, ∀ h, e.call.usedStream = some h → w.os.streams.length ≤ h ∧ h < w'.os.streams.length) ∧
      NoUseAfterClose (es.map Entry.call))

/-- From `w` to `w'`, no stream is opened or closed, and only streams of `S` are used. -/
def Using (S : Handle → Prop) (w w' : World) : Prop :=
  w'.os.streams.length = w.os.streams.length ∧
    Logs (fun e => (∀ h, e.call ≠ .fclose h) ∧ ∀ h, e.call.usedStream = some h → S h) w w'

/-- The code closes the stream once, after which it makes no call. -/
def Closing {α : Type} (fd : Handle) (m : Sys α) : Prop :=
  ∀ w, ∃ w₁, Using (· = fd) w w₁ ∧ ((m w).2 = w₁ ∨ Made [.fclose fd] w₁ (m w).2)

section Rules

variable {w w' w₁ w₂ : World} {P : Entry → Prop} {S : Handle → Prop} {calls : List Call}

instance : Std.Refl SoundUse :=
  ⟨fun _ => ⟨Nat.le_refl _, [], (List.append_nil _).symm, fun _ => ⟨by simp, List.Pairwise.nil⟩⟩⟩

instance : IsTrans World SoundUse := by
  refine ⟨fun w w' w'' h h' => ?_⟩
  obtain ⟨hle, es, hlog, hes⟩ := h
  obtain ⟨hle', es', hlog', hes'⟩ := h'
  refine ⟨hle.trans hle', es ++ es', by rw [hlog', hlog, List.append_assoc], fun hok => ?_⟩
  obtain ⟨huse, hsafe⟩ := hes fun e he => hok e (List.mem_append_left es' he)
  obtain ⟨huse', hsafe'⟩ := hes' fun e he => hok e (List.mem_append_right es he)
  refine ⟨fun e he h hh => ?_, ?_⟩
  · rcases List.mem_append.mp he with he | he
    · exact ⟨(huse e he h hh).1, (huse e he h hh).2.trans_le hle'⟩
    · exact ⟨hle.trans (huse' e he h hh).1, (huse' e he h hh).2⟩
  · rw [List.map_append]
    refine List.pairwise_append.mpr ⟨hsafe, hsafe', ?_⟩
    -- A stream that was closed by then is none of those that are opened later.
    intro c hc c' hc' h hclose huse''
    obtain ⟨e, he, rfl⟩ := List.mem_map.mp hc
    obtain ⟨e', he', rfl⟩ := List.mem_map.mp hc'
    have hlt := (huse e he h (by rw [hclose]; rfl)).2
    exact absurd (huse' e' he' h huse'').1 (Nat.not_le.mpr hlt)

instance : Std.Refl (Using S) := ⟨fun w => ⟨rfl, refl_of (Logs _) w⟩⟩

instance : IsTrans World (Using S) :=
  ⟨fun _ _ _ h h' => ⟨h'.1.trans h.1, trans_of (Logs _) h.2 h'.2⟩⟩

theorem Frame.using (h : Frame P w w') (hopens : ∀ e, P e → e.call.opens = false)
    (hcloses : ∀ e, P e → ∀ h, e.call ≠ .fclose h)
    (huse : ∀ e, P e → ∀ h, e.call.usedStream = some h → S h) : Using S w w' :=
  ⟨h.streams hopens, h.logs fun e he => ⟨hcloses e he, huse e he⟩⟩

/-- Calls that open streams, calls that use them, and a good end. -/
theorem soundUse_through {opening : List Entry} (hle : w.os.streams.length ≤ w₁.os.streams.length)
    (hopen : w₁.log = w.log ++ opening) (hnone : ∀ e ∈ opening, e.call.usedStream = none)
    (hmid : Using S w₁ w₂) (hS : ∀ h, S h → w.os.streams.length ≤ h ∧ h < w₁.os.streams.length)
    (htail : Made calls w₂ w') (huse : ∀ c ∈ calls, ∀ h, c.usedStream = some h → S h)
    (hsafe : NoUseAfterClose calls) : SoundUse w w' := by
  obtain ⟨hlen, es, hlog, hes⟩ := hmid
  obtain ⟨⟨es', hlog', rfl⟩, hlen'⟩ := htail
  have hend : w'.os.streams.length = w₁.os.streams.length := hlen'.trans hlen
  refine ⟨hle.trans_eq hend.symm, opening ++ es ++ es', ?_, fun _ => ⟨fun e he h hh => ?_, ?_⟩⟩
  · rw [hlog', hlog, hopen]
    simp only [List.append_assoc]
  · rw [hend]
    rcases List.mem_append.mp he with he | he
    · rcases List.mem_append.mp he with he | he
      · rw [hnone e he] at hh
        cases hh
      · exact hS h ((hes e he).2 h hh)
    · exact hS h (huse _ (List.mem_map_of_mem he) h hh)
  · have hopened : ∀ c ∈ (opening ++ es).map Entry.call, ∀ h, c ≠ .fclose h := by
      intro c hc h hclose
      obtain ⟨e, he, rfl⟩ := List.mem_map.mp hc
      rcases List.mem_append.mp he with he | he
      · have hused := hnone e he
        rw [hclose] at hused
        cases hused
      · exact (hes e he).1 h hclose
    rw [List.map_append]
    refine List.pairwise_append.mpr ⟨?_, hsafe, fun c hc _ _ h hclose => absurd hclose (hopened c hc h)⟩
    exact List.pairwise_of_forall_mem_list fun c hc _ _ h hclose => absurd hclose (hopened c hc h)

/-- Nothing is said where closing or renaming failed. -/
theorem soundUse_of_endedBadly (hle : w.os.streams.length ≤ w'.os.streams.length)
    (h : EndedBadly w w') : SoundUse w w' := by
  obtain ⟨es, hlog, e, he, hends, hnot⟩ := h
  refine ⟨hle, es, hlog, fun hok => ?_⟩
  rw [hok e he hends] at hnot
  cases hnot

/-- Calls that use no stream. -/
theorem Frame.soundUse (h : Frame P w w')
    (hP : ∀ e, P e → e.call.opens = false ∧ e.call.usedStream = none) : SoundUse w w' := by
  have husing : Using (fun _ => False) w w' := by
    refine h.using (fun e he => (hP e he).1) (fun e he fd hclose => ?_) fun e he fd hused => ?_
    · have hused := (hP e he).2
      rw [hclose] at hused
      cases hused
    · rw [(hP e he).2] at hused
      cases hused
  exact soundUse_through (Nat.le_refl _) (List.append_nil _).symm (by simp) husing nofun
    ⟨⟨[], (List.append_nil _).symm, rfl⟩, rfl⟩ (by simp) List.Pairwise.nil

theorem keeps_soundUse {α : Type} {m : Sys α} (h : Keeps (Frame P) m)
    (hP : ∀ e, P e → e.call.opens = false ∧ e.call.usedStream = none) : Keeps SoundUse m :=
  h.mono fun _ _ hframe => hframe.soundUse hP

end Rules

/-! ## A stream that is opened and closed -/

section Opened

variable {α β : Type} {fd : Handle} {S : Handle → Prop} {m : Sys α} {f : α → Sys β} {path : Text}

theorem keeps_using {P : Entry → Prop} (h : Keeps (Frame P) m)
    (hopens : ∀ e, P e → e.call.opens = false) (hcloses : ∀ e, P e → ∀ h, e.call ≠ .fclose h)
    (huse : ∀ e, P e → ∀ h, e.call.usedStream = some h → S h) : Keeps (Using S) m :=
  h.mono fun _ _ hframe => hframe.using hopens hcloses huse

theorem using_fread (fd : Handle) (size : Nat) : Keeps (Using (· = fd)) (fread fd size) :=
  keeps_using (P := fun e => e.call = .fread fd) (keeps_fread fun _ _ => rfl)
    (fun e he => by rw [he]; rfl) (fun e he h => by rw [he]; nofun)
    fun e he h hh => by rw [he] at hh; exact (Option.some.inj hh).symm

/-- What makes no call and opens no stream. -/
theorem using_modify (f : World → World) (hlog : ∀ w, (f w).log = w.log)
    (hstreams : ∀ w, (f w).os.streams.length = w.os.streams.length) :
    Keeps (Using S) (Run.modify f : Sys Unit) :=
  fun w => ⟨hstreams w, [], (hlog w).trans (List.append_nil _).symm, by simp⟩

theorem closing_keeps (h : Keeps (Using (· = fd)) m) : Closing fd m := fun w => ⟨_, h w, Or.inl rfl⟩

theorem Closing.bind (hm : Keeps (Using (· = fd)) m) (hf : ∀ a, Closing fd (f a)) :
    Closing fd (m >>= f) := by
  intro w
  rcases hrun : m w with ⟨r, w₁⟩
  have hfirst := hm.of_run hrun
  cases r with
  | error c =>
    rw [bind_error hrun]
    exact ⟨w₁, hfirst, Or.inl rfl⟩
  | ok a =>
    rw [bind_ok hrun]
    obtain ⟨w₂, hsecond, hend⟩ := hf a w₁
    exact ⟨w₂, trans_of (Using _) hfirst hsecond, hend⟩

/-- The stream is closed, and then no call is made. -/
theorem closing_fclose {f : Int → Sys β} (hf : ∀ r w, Made [] w (f r w).2) :
    Closing fd (fclose fd >>= f) := by
  intro w
  obtain ⟨r, w₁, hclose⟩ := returns_fclose fd w
  rw [bind_ok hclose]
  exact ⟨w, refl_of (Using _) w, Or.inr ((made_fclose hclose).trans (hf r w₁))⟩

/-- A file is opened, and what follows closes the stream. -/
theorem keeps_opened {next : Option Handle → Sys α} (hnone : Keeps SoundUse (next none))
    (hsome : ∀ fd, Closing fd (next (some fd))) : Keeps SoundUse (fopenRead path >>= next) := by
  intro w
  obtain ⟨fd, w₁, hopen⟩ : Returns (fopenRead path) w := returns_sysCall _ _ w
  rw [bind_ok hopen]
  cases fd with
  | none =>
    have hrefused : SoundUse w w₁ := by
      refine soundUse_through (S := fun _ => False) (Nat.le_refl _) (List.append_nil _).symm (by simp)
        (refl_of (Using _) w) nofun (made_failed hopen) ?_ (List.pairwise_singleton _ _)
      simp [Call.usedStream]
    exact trans_of SoundUse hrefused (hnone w₁)
  | some fd =>
    obtain ⟨l, n, i, -, -, -, rfl, rfl⟩ := fopenRead_ok hopen
    obtain ⟨w₂, husing, hend⟩ := hsome w.os.streams.length
      ((w.record (.fopenRead path) true).withOs (openStream w.os i).2)
    have hlen : ((w.record (.fopenRead path) true).withOs (openStream w.os i).2).os.streams.length =
        w.os.streams.length + 1 := List.length_append
    have hS : ∀ h, h = w.os.streams.length → w.os.streams.length ≤ h ∧
        h < ((w.record (.fopenRead path) true).withOs (openStream w.os i).2).os.streams.length :=
      fun h hh => by omega
    rcases hend with hend | hend
    · rw [hend]
      exact soundUse_through (by omega) rfl (by simp [Call.usedStream]) husing hS
        ⟨⟨[], (List.append_nil _).symm, rfl⟩, rfl⟩ (by simp) List.Pairwise.nil
    · exact soundUse_through (by omega) rfl (by simp [Call.usedStream]) husing hS hend
        (by simp [Call.usedStream]) (List.pairwise_singleton _ _)

end Opened

theorem made_pure {α : Type} (a : α) (w : World) : Made [] w ((pure a : Sys α) w).2 :=
  ⟨⟨[], (List.append_nil _).symm, rfl⟩, rfl⟩

theorem soundUse_libname (name : Text) : Keeps SoundUse (libname name) := by
  refine keeps_opened (keeps_pure none) fun fd => ?_
  refine Closing.bind (using_fread fd _) fun buf => ?_
  refine Closing.bind (keeps_ferror fd) fun failed => ?_
  split
  · exact closing_fclose fun _ => made_pure none
  · dsimp only
    split
    · exact closing_keeps (keeps_crash .overrun)
    · exact closing_fclose fun _ => made_pure _

theorem closing_readSuffix (suffixFile : Text) (fd : Handle) : Closing fd (readSuffix suffixFile fd) := by
  refine Closing.bind (using_modify _ (fun _ => rfl) fun _ => rfl) fun _ => ?_
  refine Closing.bind (using_fread fd _) fun suffix => ?_
  split
  · refine Closing.bind (keeps_ferror fd) fun error => Closing.bind (keeps_feof fd) fun eof => ?_
    have hend : ∀ status : Status, Closing fd (do let _ ← fclose fd; pure status) :=
      fun status => closing_fclose fun _ => made_pure status
    split
    · exact Closing.bind (keeps_statusError _) hend
    · split
      · exact Closing.bind (keeps_statusError _) hend
      · exact Closing.bind (keeps_pure _) hend
  · refine Closing.bind (using_modify _ (fun _ => rfl) fun _ => rfl) fun _ => closing_fclose fun r => ?_
    intro w
    split
    · exact made_pure _ w
    · exact ⟨⟨[], (List.append_nil _).symm, rfl⟩, rfl⟩

/-! ## A copy -/

section Copy

variable {src dst : Text} {uid gid : Id} {mode : Mode} {w w' : World} {code : StatusCode}

/-- Both streams are opened, the copy is written, and the calls that follow are good. -/
theorem BothOpen.soundUse {tail : List Call} {ls : Loc} {s : Node} {si ti : Nat} {fs : FileSystem}
    {w₂ w₃ : World} {r : Except Crash (Option String)} (h : BothOpen src dst w ls s si ti fs w₂)
    (hwritten : copyWritten (tmpName dst) w.env.uid uid gid mode w.os.streams.length
      (w.os.streams.length + 1) w₂ = (r, w₃)) (htail : Made tail w₃ w')
    (huse : ∀ c ∈ tail, ∀ h, c.usedStream = some h →
      h = w.os.streams.length ∨ h = w.os.streams.length + 1) (hsafe : NoUseAfterClose tail) :
    SoundUse w w' := by
  have hlen : w₂.os.streams.length = w.os.streams.length + 2 := by
    rw [h.streams]
    simp
  have husing : Using (fun h => h = w.os.streams.length ∨ h = w.os.streams.length + 1) w₂ w₃ := by
    refine (Frame.of_run (keeps_copyWritten _ _ _ _ _ _ _) hwritten).using (fun _ he => he.opens)
      (fun _ he => he.not_fclose) ?_
    rintro ⟨call, _, _⟩ he fd hfd
    cases call <;> cases hfd
    · exact Or.inl he
    · exact Or.inr he
    · exact Or.inr he
    · cases he
  have hS : ∀ fd, fd = w.os.streams.length ∨ fd = w.os.streams.length + 1 →
      w.os.streams.length ≤ fd ∧ fd < w₂.os.streams.length := fun fd hfd => by omega
  exact soundUse_through (by omega) h.log (by simp [Call.usedStream]) husing hS htail huse hsafe

/-- A run of `install_file_copy` uses no closed stream, unless closing or renaming fails. -/
theorem CopyRun.soundUse (h : CopyRun src dst uid gid mode w code w') : SoundUse w w' := by
  cases h with
  | tooLong => exact refl_of SoundUse w
  | noSource hlen hread =>
    exact soundUse_through (S := fun _ => False) (Nat.le_refl _) (List.append_nil _).symm (by simp)
      (refl_of (Using _) w) nofun (made_failed hread) (by simp [Call.usedStream])
      (List.pairwise_singleton _ _)
  | @noTemporary fdSrc w₁ w₂ _ hlen hread hwrite herr =>
    obtain ⟨ls, s, si, -, -, -, rfl, rfl⟩ := fopenRead_ok hread
    have hopened : ((w.record (.fopenRead src) true).withOs (openStream w.os si).2).os.streams.length =
        w.os.streams.length + 1 := List.length_append
    have hS : ∀ fd, fd = w.os.streams.length → w.os.streams.length ≤ fd ∧
        fd < ((w.record (.fopenRead src) true).withOs (openStream w.os si).2).os.streams.length :=
      fun fd hfd => by omega
    exact soundUse_through (by omega) rfl (by simp [Call.usedStream]) (refl_of (Using _) _) hS
      ((made_failed hwrite).trans (made_copyErr_src herr)) (by simp [Call.usedStream])
      (by simp [NoUseAfterClose, Call.usedStream])
  | @notWritten fdSrc fdDst w₁ w₂ w₃ _ message hlen hread hwrite hwritten herr =>
    obtain ⟨rfl, rfl, ls, s, si, ti, fs, hopen⟩ := bothOpen hread hwrite
    exact hopen.soundUse hwritten (made_copyErr herr) (by simp [Call.usedStream])
      (by simp [NoUseAfterClose, Call.usedStream])
  | @notRenamed fdSrc fdDst w₁ w₂ w₃ w₄ _ message hlen hread hwrite hwritten hclosing herr =>
    obtain ⟨rfl, rfl, ls, s, si, ti, fs, hopen⟩ := bothOpen hread hwrite
    obtain ⟨calls, hmade, -⟩ := unclosing_copyWritten hwritten
    rcases copyClosing_run hclosing with ⟨hnone, -⟩ | ⟨-, -, hbad, calls', hmade'⟩
    · cases hnone
    · have hopened : Logs (fun _ => True) w w₂ := ⟨_, hopen.log, fun _ _ => trivial⟩
      have hend := made_copyErr herr
      refine soundUse_of_endedBadly ?_ (((hbad.after hmade.logs).after hopened).before hend.logs)
      rw [hend.streams, hmade'.streams, hmade.streams, hopen.streams]
      simp
  | @copied fdSrc fdDst w₁ w₂ w₃ _ hlen hread hwrite hwritten hclosing =>
    obtain ⟨rfl, rfl, ls, s, si, ti, fs, hopen⟩ := bothOpen hread hwrite
    rcases copyClosing_run hclosing with ⟨-, -, hmade⟩ | ⟨hnone, -⟩
    · exact hopen.soundUse hwritten hmade (by simp [Call.usedStream])
        (by simp [NoUseAfterClose, Call.usedStream])
    · exact absurd rfl hnone

theorem soundUse_installFileCopy (src dst : Text) (uid gid : Id) (mode : Mode) :
    Keeps SoundUse (installFileCopy src dst uid gid mode) := by
  intro w
  cases hvalid : iposixUidValid w.env.uid with
  | false =>
    rw [installFileCopy_invalid hvalid]
    exact refl_of SoundUse w
  | true =>
    obtain ⟨status, w', hrun, hway⟩ := installFileCopy_run hvalid src dst uid gid mode
    rw [hrun]
    exact hway.soundUse

end Copy

/-! ## Items and tools -/

theorem soundUse_modify (f : World → World) (hlog : ∀ w, (f w).log = w.log)
    (hstreams : ∀ w, (f w).os.streams = w.os.streams) : Keeps SoundUse (Run.modify f : Sys Unit) :=
  fun w => ⟨(congrArg List.length (hstreams w)).ge, [],
    (hlog w).trans (List.append_nil _).symm, fun _ => ⟨by simp, List.Pairwise.nil⟩⟩

section Items

variable {item : Item} {flags : BitVec 32}

theorem LinkItemCall.streamless {call : Call} (h : LinkItemCall item flags call) :
    call.opens = false ∧ call.usedStream = none := by
  cases call <;> first | exact ⟨rfl, rfl⟩ | cases h

theorem MkdirItemCall.streamless {call : Call} (h : MkdirItemCall item flags call) :
    call.opens = false ∧ call.usedStream = none := by
  obtain ⟨-, dir, -, ⟨path, rfl, -⟩ | ⟨uid, gid, rfl⟩⟩ := h
  · exact ⟨rfl, rfl⟩
  · exact ⟨rfl, rfl⟩

theorem RemoveCall.streamless {op : InstallOp} {call : Call} (h : RemoveCall op item flags call) :
    call.opens = false ∧ call.usedStream = none := by
  cases op with
  | instCopy => obtain ⟨-, dst, -, rfl⟩ := h; exact ⟨rfl, rfl⟩
  | instCopyExec => obtain ⟨-, dst, -, rfl⟩ := h; exact ⟨rfl, rfl⟩
  | instSymlink => obtain ⟨-, dir, dst, -, -, rfl⟩ := h; exact ⟨rfl, rfl⟩
  | instMkdir => obtain ⟨-, dir, -, rfl⟩ := h; exact ⟨rfl, rfl⟩
  | instLiblink => obtain ⟨-, dir, dst, -, -, rfl⟩ := h; exact ⟨rfl, rfl⟩

theorem CheckCall.streamless {src dst : Text} {call : Call} (h : CheckCall src dst call) :
    call.opens = false ∧ call.usedStream = none := by
  rcases h with rfl | rfl | rfl <;> exact ⟨rfl, rfl⟩

theorem soundUse_installOper (op : InstallOp) (item : Item) (flags : BitVec 32) :
    Keeps SoundUse ((installOpers op).oper item flags) := by
  have hcopy : Keeps SoundUse (instCopy item flags) := by
    refine keeps_instCopy_of (fun src _ => ?_) fun _ src dst uid gid _ _ =>
      soundUse_installFileCopy src dst uid gid item.perm
    refine keeps_soundUse (P := fun e => e.call = .stat src) (keeps_iposixFileSize fun _ _ => rfl) ?_
    intro e he
    rw [he]
    exact ⟨rfl, rfl⟩
  have hlink : Keeps SoundUse (instLink item flags) :=
    keeps_soundUse (keeps_instLink item flags) fun _ he => he.streamless
  cases op with
  | instCopy => exact hcopy
  | instCopyExec => exact hcopy
  | instSymlink => exact hlink
  | instMkdir => exact keeps_soundUse (keeps_instMkdir item flags) fun _ he => he.streamless
  | instLiblink => exact hlink

theorem soundUse_instchkOper (op : InstallOp) (item : Item) (flags : BitVec 32) :
    Keeps SoundUse ((instchkOpers op).oper item flags) := by
  rw [instchkOper_eq]
  refine keeps_withIds fun uid gid => Keeps.bind (keeps_deref _) fun src =>
    Keeps.bind (keeps_deref _) fun dst => Keeps.bind ?_ fun status => ?_
  · exact keeps_soundUse (P := fun e => CheckCall src dst e.call)
      (keeps_installFileCheck fun _ _ _ hcall => hcall) fun _ he => he.streamless
  · unfold countFailure
    split
    · exact Keeps.bind (soundUse_modify _ (fun _ => rfl) fun _ => rfl) fun _ => keeps_pure status
    · exact keeps_pure status

theorem soundUse_runOper {opers : InstallOp → Instop}
    (htrans : Keeps SoundUse ((opers item.op).trans item))
    (hoper : ∀ t, Keeps SoundUse ((opers item.op).oper t flags)) :
    Keeps SoundUse (runOper opers item flags) := by
  refine keeps_runOper (fun w => ?_) htrans (fun t _ _ _ => hoper t) ?_
  · exact (frame_withErrno (P := fun _ => False) w 0).soundUse nofun
  · refine keeps_soundUse (P := Flushing) (keeps_fflushAll fun _ _ => rfl) fun e he => ?_
    rw [show e.call = .fflushAll from he]
    exact ⟨rfl, rfl⟩

theorem soundUse_install (item : Item) (flags : BitVec 32) : Keeps SoundUse (install item flags) :=
  soundUse_runOper (keeps_installTrans_of soundUse_libname item) fun t =>
    soundUse_installOper item.op t flags

theorem soundUse_installCheck (item : Item) : Keeps SoundUse (installCheck item) :=
  soundUse_runOper (keeps_instchkTrans_of soundUse_libname item) fun t =>
    soundUse_instchkOper item.op t 0

theorem soundUse_deinstall (item : Item) (flags : BitVec 32) : Keeps SoundUse (deinstall item flags) := by
  refine soundUse_runOper ?_ fun t =>
    keeps_soundUse (keeps_deinstOper item.op t flags) fun _ he => he.streamless
  rw [deinstOpers_trans]
  exact keeps_installTrans_of soundUse_libname item

end Items

theorem soundUse_installInit (suffixFile : Text) : Keeps SoundUse (installInit suffixFile) := by
  refine Keeps.bind keeps_get fun w => Keeps.bind ?_ fun message => ?_
  · unfold checkFakeRoot
    cases w.globals.fakeRoot with
    | none => exact keeps_pure none
    | some root =>
      have hstat : Keeps SoundUse (stat root) :=
        keeps_soundUse (P := fun e => e.call = .stat root) (keeps_stat fun _ _ => rfl)
          fun e he => by rw [he]; exact ⟨rfl, rfl⟩
      refine Keeps.bind hstat fun sb => ?_
      cases sb <;> exact keeps_pure _
  · cases message with
    | some message => exact keeps_statusError message
    | none => exact keeps_opened (keeps_statusError _) fun fd => closing_readSuffix suffixFile fd

theorem soundUse_initTool (ctxtFakeroot : Text) : Keeps SoundUse (initTool ctxtFakeroot) := by
  unfold initTool
  split
  · exact Keeps.bind (soundUse_modify _ (fun _ => rfl) fun _ => rfl) fun _ => soundUse_installInit _
  · exact soundUse_installInit _

/-- A tool uses no closed stream, if no item does. -/
theorem soundUse_runTool {run : Item → Sys Status} {exit : Sys Nat} (hrun : ∀ item, Keeps SoundUse (run item))
    (hexit : Keeps SoundUse exit) (ctxtFakeroot : Text) (items : List Item) :
    Keeps SoundUse (runTool ctxtFakeroot run items exit) := by
  refine Keeps.bind (soundUse_initTool ctxtFakeroot) fun status => ?_
  split
  · exact keeps_pure _
  · refine Keeps.bind (keeps_runItems hrun items) fun statuses => ?_
    split
    · exact keeps_pure _
    · exact Keeps.bind hexit fun code => keeps_pure _

end CStringVerified.Install
