import CStringVerified.Install.Proofs.StageProofs

/-!
# The streams of `install_file_copy`

Each stream that is opened is closed once and not used any more, unless one of the two `fclose` or the
`rename` fails: the part after `ERR` then closes both streams again.
-/

namespace CStringVerified.Install

open Foundation Foundation.Run

/-! ## Streams and calls -/

/-- The stream that a call uses. -/
def Call.usedStream : Call → Option Handle
  | .fread h | .fwrite h | .fflush h | .fclose h => some h
  | _ => none

/-- One of the calls closes the stream, and no later one uses it. -/
def ClosedOnce (h : Handle) : List Call → Prop
  | [] => False
  | call :: calls =>
    if call = .fclose h then ∀ c ∈ calls, c.usedStream ≠ some h else ClosedOnce h calls

/-- The calls made so far. -/
def World.calls (w : World) : List Call := w.log.map Entry.call

/-- From `w` to `w'`, each stream that is opened is closed once, and not used after that. -/
def Disciplined (w w' : World) : Prop :=
  ∃ calls, w'.calls = w.calls ++ calls ∧
    ∀ h, w.os.streams.length ≤ h → h < w'.os.streams.length → ClosedOnce h calls

/-- The calls made from `w` to `w'`, where no stream is opened. -/
structure Made (calls : List Call) (w w' : World) : Prop where
  log : ∃ es, w'.log = w.log ++ es ∧ es.map Entry.call = calls
  streams : w'.os.streams.length = w.os.streams.length

/-- The calls whose failure ends a copy that is being closed. -/
def Call.ends : Call → Bool
  | .fclose _ | .rename _ _ => true
  | _ => false

/-- One of the calls from `w` to `w'` fails that ends a copy. -/
def EndedBadly (w w' : World) : Prop :=
  ∃ es, w'.log = w.log ++ es ∧ ∃ e ∈ es, e.call.ends = true ∧ e.ok = false

/-- From `w` to `w'`, no stream is opened or closed. -/
def Unclosing (w w' : World) : Prop :=
  ∃ calls, Made calls w w' ∧ ∀ h, .fclose h ∉ calls

section Rules

variable {w w' w'' : World} {calls calls' : List Call} {call : Call} {h : Handle}

theorem closedOnce_append (hopen : .fclose h ∉ calls) :
    ClosedOnce h (calls ++ calls') ↔ ClosedOnce h calls' := by
  induction calls with
  | nil => exact Iff.rfl
  | cons call calls ih =>
    rw [List.mem_cons, not_or] at hopen
    rw [List.cons_append, ClosedOnce, if_neg (Ne.symm hopen.1)]
    exact ih hopen.2

theorem Made.trans (hm : Made calls w w') (hm' : Made calls' w' w'') : Made (calls ++ calls') w w'' := by
  obtain ⟨es, hlog, hes⟩ := hm.log
  obtain ⟨es', hlog', hes'⟩ := hm'.log
  refine ⟨⟨es ++ es', ?_, ?_⟩, hm'.streams.trans hm.streams⟩
  · rw [hlog', hlog, List.append_assoc]
  · rw [List.map_append, hes, hes']

theorem Made.calls_eq (hm : Made calls w w') : w'.calls = w.calls ++ calls := by
  obtain ⟨es, hlog, hes⟩ := hm.log
  rw [World.calls, World.calls, hlog, List.map_append, hes]

/-- Calls that neither open nor close a stream. -/
theorem Frame.unclosing {P : Entry → Prop} (h : Frame P w w') (hopens : ∀ e, P e → e.call.opens = false)
    (hcloses : ∀ e, P e → ∀ h, e.call ≠ .fclose h) : Unclosing w w' := by
  obtain ⟨es, hlog, hes, -⟩ := h.calls
  refine ⟨es.map Entry.call, ⟨⟨es, hlog, rfl⟩, h.streams hopens⟩, fun h hmem => ?_⟩
  obtain ⟨e, he, hcall⟩ := List.mem_map.mp hmem
  exact hcloses e (hes e he) h hcall

theorem made_sysCall {α : Type} {f : World → Except Errno (α × Os)} {r : Except Crash (Option α)}
    (hf : ∀ w a os, f w = .ok (a, os) → os.streams.length = w.os.streams.length)
    (hrun : sysCall call f w = (r, w')) : Made [call] w w' := by
  rcases sysCall_cases call f w with ⟨a, os, -, hok, hrun'⟩ | ⟨e, -, hrun'⟩
  · rw [hrun] at hrun'
    cases hrun'
    exact ⟨⟨_, rfl, rfl⟩, hf w a os hok⟩
  · rw [hrun] at hrun'
    cases hrun'
    exact ⟨⟨_, rfl, rfl⟩, rfl⟩

/-- A call that failed opens no stream. -/
theorem made_failed {α : Type} {f : World → Except Errno (α × Os)}
    (hrun : sysCall call f w = (.ok none, w')) : Made [call] w w' := by
  rcases sysCall_cases call f w with ⟨a, os, -, -, hrun'⟩ | ⟨e, -, hrun'⟩
  · rw [hrun] at hrun'
    cases hrun'
  · rw [hrun] at hrun'
    cases hrun'
    exact ⟨⟨_, rfl, rfl⟩, rfl⟩

theorem fsCall_streams {f : World → Except Errno FileSystem} {w : World} {u : Unit} {os : Os}
    (h : (f w).map (fun fs => ((), { w.os with fs := fs })) = .ok (u, os)) :
    os.streams.length = w.os.streams.length := by
  cases hf : f w with
  | error e => rw [hf] at h; cases h
  | ok fs => rw [hf] at h; cases h; rfl

theorem made_fsCall {f : World → Except Errno FileSystem} {r : Except Crash Int}
    (hrun : fsCall call f w = (r, w')) : Made [call] w w' := by
  unfold fsCall at hrun
  obtain ⟨r', w₁, hcall⟩ := returns_sysCall call
    (fun w => (f w).map fun fs => ((), { w.os with fs := fs })) w
  rw [bind_ok hcall] at hrun
  cases hrun
  exact made_sysCall (fun _ _ _ => fsCall_streams) hcall

/-- The calls up to the first `fclose`. -/
def WritingCall (fdSrc fdDst : Handle) : Call → Prop
  | .fread h => h = fdSrc
  | .fwrite h | .fflush h => h = fdDst
  | .chmod _ _ | .chown _ _ _ => True
  | _ => False

theorem keeps_copyWritten (tmp : Text) (processUid uid gid : Id) (mode : Mode)
    (fdSrc fdDst : Handle) :
    Keeps (Frame fun e => WritingCall fdSrc fdDst e.call)
      (copyWritten tmp processUid uid gid mode fdSrc fdDst) := by
  refine Keeps.bind (keeps_copyLoop (fun _ => keeps_fread fun _ _ => rfl)
    fun _ => keeps_fwrite fun _ _ => rfl) fun message => ?_
  cases message with
  | some message => exact keeps_pure _
  | none =>
    refine keeps_step (Keeps.bind (keeps_fflush fun _ _ => rfl) fun _ => keeps_pure _) ?_
    refine keeps_step (Keeps.bind (keeps_chmod fun _ _ => trivial) fun _ => keeps_pure _) ?_
    exact keeps_copyOwnership (keeps_chown fun _ _ => trivial) (keeps_pure none)

theorem WritingCall.opens {fdSrc fdDst : Handle} (h : WritingCall fdSrc fdDst call) :
    call.opens = false := by
  cases call <;> first | rfl | cases h

theorem WritingCall.not_fclose {fdSrc fdDst : Handle} (h : WritingCall fdSrc fdDst call) (fd : Handle) :
    call ≠ .fclose fd := by
  rintro rfl
  cases h

/-- Up to the first `fclose`, no stream is closed. -/
theorem unclosing_copyWritten {tmp : Text} {processUid uid gid : Id} {mode : Mode}
    {fdSrc fdDst : Handle} {r : Except Crash (Option String)}
    (hrun : copyWritten tmp processUid uid gid mode fdSrc fdDst w = (r, w')) : Unclosing w w' :=
  (Frame.of_run (keeps_copyWritten tmp processUid uid gid mode fdSrc fdDst) hrun).unclosing
    (fun _ he => he.opens) fun _ he => he.not_fclose

theorem made_fclose {r : Except Crash Int} (hrun : fclose h w = (r, w')) : Made [.fclose h] w w' := by
  unfold fclose at hrun
  obtain ⟨r', w₁, hcall⟩ := returns_sysCall (.fclose h) (fun w => .ok ((), w.os)) w
  have hm := made_sysCall (fun _ _ _ hf => by cases hf; rfl) hcall
  rw [bind_ok hcall] at hrun
  cases hrun
  exact ⟨hm.log, (List.length_modify _ _ h).trans hm.streams⟩

theorem made_closeIfOpen {r : Except Crash Unit} (hrun : closeIfOpen (some h) w = (r, w')) :
    Made [.fclose h] w w' := by
  obtain ⟨r', w₁, hclose⟩ := returns_fclose h w
  have hrun' : closeIfOpen (some h) w = (.ok (), w₁) := bind_ok hclose
  rw [hrun] at hrun'
  cases hrun'
  exact made_fclose hclose

end Rules

/-! ## Closing -/

/-- Both streams can be closed, and the temporary file can be renamed. -/
def Closes (dst tmp : Text) (fdSrc fdDst : Handle) (w : World) : Prop :=
  ∃ w₁ w₂ w₃, fclose fdDst w = (.ok 0, w₁) ∧ fclose fdSrc w₁ = (.ok 0, w₂) ∧
    rename tmp dst w₂ = (.ok 0, w₃)

section Closing

variable {src dst tmp : Text} {uid gid : Id} {mode : Mode} {fdSrc fdDst : Handle} {w w₁ w' : World}
  {message : Option String}

/-- A stream is closed, or that fails. -/
theorem fclose_run (fd : Handle) (w : World) :
    ∃ r w', fclose fd w = (.ok r, w') ∧ (r = 0 ∨ r = -1 ∧ EndedBadly w w') := by
  rcases sysCall_cases (.fclose fd) (fun w => .ok ((), w.os)) w with ⟨a, os, -, -, hrun⟩ | ⟨e, -, hrun⟩
  · exact ⟨0, _, bind_ok hrun, Or.inl rfl⟩
  · exact ⟨-1, _, bind_ok hrun, Or.inr ⟨rfl, [_], rfl, _, List.mem_singleton_self _, rfl, rfl⟩⟩

theorem rename_run (old new : Text) (w : World) :
    ∃ r w', rename old new w = (.ok r, w') ∧ (r = 0 ∨ r = -1 ∧ EndedBadly w w') := by
  rcases fsCall_cases (.rename old new) _ w with ⟨fs, -, -, hrun⟩ | ⟨e, -, hrun⟩
  · exact ⟨0, _, hrun, Or.inl rfl⟩
  · exact ⟨-1, _, hrun, Or.inr ⟨rfl, [_], rfl, _, List.mem_singleton_self _, rfl, rfl⟩⟩

theorem Made.logs {calls : List Call} (hm : Made calls w w') : Logs (fun e => e.call ∈ calls) w w' := by
  obtain ⟨⟨es, hlog, rfl⟩, -⟩ := hm
  exact ⟨es, hlog, fun e he => List.mem_map_of_mem he⟩

/-- What fails after some calls. -/
theorem EndedBadly.after {P : Entry → Prop} (h : EndedBadly w₁ w') (hlogs : Logs P w w₁) :
    EndedBadly w w' := by
  obtain ⟨es, hlog, -⟩ := hlogs
  obtain ⟨es', hlog', e, he, hbad⟩ := h
  exact ⟨es ++ es', by rw [hlog', hlog, List.append_assoc], e, List.mem_append_right es he, hbad⟩

/-- What fails before some calls. -/
theorem EndedBadly.before {P : Entry → Prop} (h : EndedBadly w w₁) (hlogs : Logs P w₁ w') :
    EndedBadly w w' := by
  obtain ⟨es, hlog, e, he, hbad⟩ := h
  obtain ⟨es', hlog', -⟩ := hlogs
  exact ⟨es ++ es', by rw [hlog', hlog, List.append_assoc], e, List.mem_append_left es' he, hbad⟩

/-- Closing and renaming, with the calls that are made on each way out. -/
theorem copyClosing_run (h : copyClosing dst tmp fdSrc fdDst w = (.ok message, w')) :
    (message = none ∧ Closes dst tmp fdSrc fdDst w ∧
        Made [.fclose fdDst, .fclose fdSrc, .rename tmp dst] w w') ∨
      (message ≠ none ∧ ¬Closes dst tmp fdSrc fdDst w ∧ EndedBadly w w' ∧
        ∃ calls, Made (.fclose fdDst :: calls) w w') := by
  obtain ⟨r, w₁, hclose, hr⟩ := fclose_run fdDst w
  unfold copyClosing at h
  rcases hr with rfl | ⟨rfl, hbad⟩
  · rw [step_true (condition_apply (p := fun r : Int => r ≠ -1) hclose (by decide))] at h
    obtain ⟨r, w₂, hclose', hr⟩ := fclose_run fdSrc w₁
    have hmade₂ := (made_fclose hclose).trans (made_fclose hclose')
    rcases hr with rfl | ⟨rfl, hbad⟩
    · rw [step_true (condition_apply (p := fun r : Int => r ≠ -1) hclose' (by decide))] at h
      obtain ⟨r, w₃, hrename, hr⟩ := rename_run tmp dst w₂
      have hmade₃ := hmade₂.trans (made_fsCall hrename)
      rcases hr with rfl | ⟨rfl, hbad⟩
      · rw [step_true (condition_apply (p := fun r : Int => r ≠ -1) hrename (by decide))] at h
        cases h
        exact Or.inl ⟨rfl, ⟨w₁, w₂, _, hclose, hclose', hrename⟩, hmade₃⟩
      · rw [step_false (condition_apply (p := fun r : Int => r ≠ -1) hrename (by decide))] at h
        cases h
        refine Or.inr ⟨nofun, ?_, hbad.after hmade₂.logs, _, hmade₃⟩
        rintro ⟨_, _, _, h₁, h₂, h₃⟩
        rw [hclose] at h₁
        cases h₁
        rw [hclose'] at h₂
        cases h₂
        rw [hrename] at h₃
        cases h₃
    · rw [step_false (condition_apply (p := fun r : Int => r ≠ -1) hclose' (by decide))] at h
      cases h
      refine Or.inr ⟨nofun, ?_, hbad.after (made_fclose hclose).logs, _, hmade₂⟩
      rintro ⟨_, _, _, h₁, h₂, -⟩
      rw [hclose] at h₁
      cases h₁
      rw [hclose'] at h₂
      cases h₂
  · rw [step_false (condition_apply (p := fun r : Int => r ≠ -1) hclose (by decide))] at h
    cases h
    refine Or.inr ⟨nofun, ?_, hbad, [], made_fclose hclose⟩
    rintro ⟨_, _, _, h₁, -⟩
    rw [hclose] at h₁
    cases h₁

theorem made_copyErr (h : copyErr tmp (some fdSrc) (some fdDst) w = (.ok (), w')) :
    Made [.fclose fdDst, .fclose fdSrc, .unlink tmp] w w' := by
  obtain ⟨_, w₁, hdst, h⟩ := bind_eq_ok h
  obtain ⟨_, w₂, hsrc, h⟩ := bind_eq_ok h
  obtain ⟨r, w₃, hunlink, h⟩ := bind_eq_ok h
  cases h
  exact ((made_closeIfOpen hdst).trans (made_closeIfOpen hsrc)).trans (made_fsCall hunlink)

theorem made_copyErr_src (h : copyErr tmp (some fdSrc) none w = (.ok (), w')) :
    Made [.fclose fdSrc, .unlink tmp] w w' := by
  obtain ⟨_, w₁, hdst, h⟩ := bind_eq_ok h
  cases hdst
  obtain ⟨_, w₂, hsrc, h⟩ := bind_eq_ok h
  obtain ⟨r, w₃, hunlink, h⟩ := bind_eq_ok h
  cases h
  exact (made_closeIfOpen hsrc).trans (made_fsCall hunlink)

end Closing

/-! ## The whole function -/

/-- The copy is written, and the streams are to be closed, in the world `w₃`. -/
def ToClose (src dst : Text) (uid gid : Id) (mode : Mode) (w : World) (fdSrc fdDst : Handle)
    (w₃ : World) : Prop :=
  dst.length + 4 ≤ intMax ∧ ∃ w₁ w₂, fopenRead src w = (.ok (some fdSrc), w₁) ∧
    fopenWrite (tmpName dst) w₁ = (.ok (some fdDst), w₂) ∧
    copyWritten (tmpName dst) w.env.uid uid gid mode fdSrc fdDst w₂ = (.ok none, w₃)

section Function

variable {src dst : Text} {uid gid : Id} {mode : Mode} {w w₁ w₂ w₃ w' : World} {fdSrc fdDst : Handle}
  {code : StatusCode}

/-- What is written is written to the streams that were opened. -/
theorem ToClose.written {fdSrc' fdDst' : Handle} {w₃' : World}
    (h : ToClose src dst uid gid mode w fdSrc' fdDst' w₃')
    (hread : fopenRead src w = (.ok (some fdSrc), w₁))
    (hwrite : fopenWrite (tmpName dst) w₁ = (.ok (some fdDst), w₂)) :
    fdSrc' = fdSrc ∧ fdDst' = fdDst ∧
      copyWritten (tmpName dst) w.env.uid uid gid mode fdSrc fdDst w₂ = (.ok none, w₃') := by
  obtain ⟨-, _, _, hread', hwrite', hwritten⟩ := h
  rw [hread] at hread'
  cases hread'
  rw [hwrite] at hwrite'
  cases hwrite'
  exact ⟨rfl, rfl, hwritten⟩

/-- Whether the streams are closed once shows in the calls after the copy is written. -/
theorem disciplined_iff {tail : List Call} (hread : fopenRead src w = (.ok (some fdSrc), w₁))
    (hwrite : fopenWrite (tmpName dst) w₁ = (.ok (some fdDst), w₂)) (hwritten : Unclosing w₂ w₃)
    (htail : Made tail w₃ w') :
    Disciplined w w' ↔ ClosedOnce fdSrc tail ∧ ClosedOnce fdDst tail := by
  obtain ⟨rfl, rfl, ls, s, si, ti, fs, hopen⟩ := bothOpen hread hwrite
  obtain ⟨calls, hmade, hunclosed⟩ := hwritten
  have hcalls : w'.calls = w.calls ++ ([.fopenRead src, .fopenWrite (tmpName dst)] ++ calls ++ tail) := by
    rw [htail.calls_eq, hmade.calls_eq, World.calls, hopen.log, List.map_append]
    simp [World.calls]
  have hstreams : w'.os.streams.length = w.os.streams.length + 2 := by
    rw [htail.streams, hmade.streams, hopen.streams]
    simp
  have hclosed : ∀ h, ClosedOnce h ([.fopenRead src, .fopenWrite (tmpName dst)] ++ calls ++ tail) ↔
      ClosedOnce h tail := fun h => by
    refine closedOnce_append fun hmem => ?_
    rcases List.mem_append.mp hmem with hmem | hmem
    · simp at hmem
    · exact hunclosed h hmem
  constructor
  · rintro ⟨calls', hcalls', hall⟩
    obtain rfl := List.append_cancel_left (hcalls.symm.trans hcalls')
    exact ⟨(hclosed _).mp (hall _ (Nat.le_refl _) (by omega)),
      (hclosed _).mp (hall _ (Nat.le_succ _) (by omega))⟩
  · rintro ⟨hsrc, hdst⟩
    refine ⟨_, hcalls, fun h hle hlt => (hclosed h).mpr ?_⟩
    rcases Nat.eq_or_lt_of_le hle with rfl | hlt'
    · exact hsrc
    · obtain rfl : h = w.os.streams.length + 1 := by omega
      exact hdst

/-- A run is disciplined exactly if it does not go to `ERR` once it has begun to close. -/
theorem CopyRun.disciplined_iff (h : CopyRun src dst uid gid mode w code w') :
    Disciplined w w' ↔ ∀ fdSrc fdDst w₁, ToClose src dst uid gid mode w fdSrc fdDst w₁ →
      Closes dst (tmpName dst) fdSrc fdDst w₁ := by
  cases h with
  | tooLong hlen =>
    refine iff_of_true ⟨[], (List.append_nil _).symm, fun h hle hlt => absurd hlt (by omega)⟩ ?_
    rintro fdSrc fdDst w₁ ⟨hshort, -⟩
    exact absurd hshort (by omega)
  | noSource hlen hread =>
    have hmade := made_failed hread
    refine iff_of_true ⟨_, hmade.calls_eq, fun h hle hlt => absurd hlt ?_⟩ ?_
    · rw [hmade.streams]
      omega
    · rintro fdSrc fdDst w₁ ⟨-, _, _, hread', -⟩
      rw [hread] at hread'
      cases hread'
  | @noTemporary fdSrc w₁ w₂ _ hlen hread hwrite herr =>
    obtain ⟨ls, s, si, -, -, -, rfl, rfl⟩ := fopenRead_ok hread
    have hmade := (made_failed hwrite).trans (made_copyErr_src herr)
    have hcalls : w'.calls = w.calls ++ [.fopenRead src, .fopenWrite (tmpName dst),
        .fclose w.os.streams.length, .unlink (tmpName dst)] := by
      rw [hmade.calls_eq]
      simp [World.calls]
    have hstreams : w'.os.streams.length = w.os.streams.length + 1 := by
      rw [hmade.streams]
      exact List.length_append
    refine iff_of_true ⟨_, hcalls, fun h hle hlt => ?_⟩ ?_
    · obtain rfl : h = w.os.streams.length := by omega
      simp [ClosedOnce, Call.usedStream]
    · rintro _ fdDst w₁ ⟨-, _, _, hread', hwrite', -⟩
      rw [hread] at hread'
      cases hread'
      rw [hwrite] at hwrite'
      cases hwrite'
  | @notWritten fdSrc fdDst w₁ w₂ w₃ _ message hlen hread hwrite hwritten herr =>
    obtain ⟨rfl, rfl, -⟩ := bothOpen hread hwrite
    have hunclosing := unclosing_copyWritten hwritten
    rw [Install.disciplined_iff hread hwrite hunclosing (made_copyErr herr)]
    refine iff_of_true (by simp [ClosedOnce, Call.usedStream]) ?_
    intro fdSrc fdDst w₁ htoClose
    obtain ⟨-, -, hnone⟩ := htoClose.written hread hwrite
    rw [hwritten] at hnone
    cases hnone
  | @notRenamed fdSrc fdDst w₁ w₂ w₃ w₄ _ message hlen hread hwrite hwritten hclosing herr =>
    have hunclosing := unclosing_copyWritten hwritten
    rcases copyClosing_run hclosing with ⟨hnone, -⟩ | ⟨-, hnot, -, calls, hmade⟩
    · cases hnone
    · rw [Install.disciplined_iff hread hwrite hunclosing (hmade.trans (made_copyErr herr))]
      refine iff_of_false (fun hclosed => ?_) fun hall => ?_
      · have hlater := hclosed.2
        rw [List.cons_append, ClosedOnce, if_pos rfl] at hlater
        exact hlater (.fclose fdDst) (by simp) rfl
      · exact hnot (hall fdSrc fdDst w₃ ⟨hlen, w₁, w₂, hread, hwrite, hwritten⟩)
  | @copied fdSrc fdDst w₁ w₂ w₃ _ hlen hread hwrite hwritten hclosing =>
    obtain ⟨rfl, rfl, -⟩ := bothOpen hread hwrite
    have hunclosing := unclosing_copyWritten hwritten
    rcases copyClosing_run hclosing with ⟨-, hcloses, hmade⟩ | ⟨hnone, -⟩
    · rw [Install.disciplined_iff hread hwrite hunclosing hmade]
      refine iff_of_true (by simp [ClosedOnce, Call.usedStream]) ?_
      intro fdSrc fdDst w₁ htoClose
      obtain ⟨rfl, rfl, hnone⟩ := htoClose.written hread hwrite
      rw [hwritten] at hnone
      cases hnone
      exact hcloses
    · exact absurd rfl hnone

end Function

/-- Unless the current user is none, `install_file_copy` returns. Then each stream that it opened has been
closed once, and not been used after that, exactly if both streams could be closed and the temporary file
could be renamed when all before that had succeeded. -/
theorem installFileCopy_streams_iff (src dst : Text) (uid gid : Id) (mode : Mode) (w : World) :
    (iposixUidValid w.env.uid = false ∧
        installFileCopy src dst uid gid mode w = (.error .assertion, w)) ∨
      ∃ status w', installFileCopy src dst uid gid mode w = (.ok status, w') ∧
        (Disciplined w w' ↔ ∀ fdSrc fdDst w₁, ToClose src dst uid gid mode w fdSrc fdDst w₁ →
          Closes dst (tmpName dst) fdSrc fdDst w₁) := by
  cases hvalid : iposixUidValid w.env.uid with
  | false => exact Or.inl ⟨rfl, installFileCopy_invalid hvalid src dst uid gid mode⟩
  | true =>
    obtain ⟨status, w', hrun, hway⟩ := installFileCopy_run hvalid src dst uid gid mode
    exact Or.inr ⟨status, w', hrun, hway.disciplined_iff⟩

/-- There is an empty file `a`. The call that is refused is the `rename` of its copy. -/
def renameRefused : World :=
  let w := World.ofFiles [([], ⟨sIfdir ||| 0o755, 0, 0, []⟩),
    (component ['a'], ⟨sIfreg ||| 0o644, 0, 0, []⟩)]
  { w with env := { w.env with faults := fun tick => if tick = 7 then some eperm else none } }

/-- `rename` is refused, and both streams are closed a second time. -/
theorem closed_twice :
    ∃ status w', installFileCopy ['a'] ['b'] 0 0 0o644 renameRefused = (.ok status, w') ∧
      w'.calls.drop 5 = [.fclose 1, .fclose 0, .rename (tmpName ['b']) ['b'], .fclose 1, .fclose 0,
        .unlink (tmpName ['b'])] ∧
      ¬Disciplined renameRefused w' := by
  have hcalls : (installFileCopy ['a'] ['b'] 0 0 0o644 renameRefused).2.calls =
      [.fopenRead ['a'], .fopenWrite (tmpName ['b']), .fread 0, .fflush 1,
        .chmod (tmpName ['b']) 0o644, .fclose 1, .fclose 0, .rename (tmpName ['b']) ['b'], .fclose 1,
        .fclose 0, .unlink (tmpName ['b'])] := by decide +kernel
  have hrun : installFileCopy ['a'] ['b'] 0 0 0o644 renameRefused =
      (.ok ⟨.error, some "could not rename temporary file", some 1⟩, _) :=
    run_of_fst (by decide +kernel)
  refine ⟨_, _, hrun, by rw [hcalls]; rfl, ?_⟩
  rintro ⟨calls, hmade, hall⟩
  obtain rfl : _ = calls := hcalls.symm.trans hmade
  have hclosed := hall 1 (by decide) (by decide +kernel)
  simp [ClosedOnce, Call.usedStream] at hclosed

end CStringVerified.Install
