import CStringVerified.Install.Tools

/-!
# What the code leaves alone

`Frame P` relates the world before a piece of code to the world after it: every call made in between
satisfies `P`, the file system and the working directory change only where a call succeeded that
changes them, there are more streams only where a call opens one, the calls are made in one directory
unless one of them moves, and the process, the globals and `install_failed` do not change at all. It
holds of every call, and from there, by the frame rules, of every function, however it ends.
-/

namespace CStringVerified.Install

open Foundation Foundation.Run

/-- The calls that may change the file system. -/
def Call.writes : Call → Bool
  | .fopenWrite _ | .fwrite _ | .unlink _ | .rename _ _ | .chmod _ _ | .chown _ _ _ | .mkdir _ _
  | .rmdir _ | .symlink _ _ => true
  | _ => false

/-- The call that changes the working directory. -/
def Call.moves : Call → Bool
  | .chdir _ => true
  | _ => false

/-- The calls that open a stream. -/
def Call.opens : Call → Bool
  | .fopenRead _ | .fopenWrite _ => true
  | _ => false

/-- A call that neither writes nor moves. -/
def Quiet (e : Entry) : Prop := e.call.writes = false ∧ e.call.moves = false

/-- The calls from `w` to `w'` satisfy `P`, and account for what changed. -/
structure Frame (P : Entry → Prop) (w w' : World) : Prop where
  env : w'.env = w.env
  globals : w'.globals = w.globals
  failed : w'.failed = w.failed
  streams : (∀ e, P e → e.call.opens = false) → w'.os.streams.length = w.os.streams.length
  calls : ∃ es, w'.log = w.log ++ es ∧ (∀ e ∈ es, P e) ∧
    (w'.os.fs = w.os.fs ∨ ∃ e ∈ es, e.ok = true ∧ e.call.writes = true) ∧
    (w'.os.cwd = w.os.cwd ∨ ∃ e ∈ es, e.ok = true ∧ e.call.moves = true) ∧
    ∀ e ∈ es, e.cwd = w.os.cwd ∨ ∃ e' ∈ es, e'.call.moves = true

section Rules

variable {P Q : Entry → Prop} {w w' w'' : World}

theorem Frame.refl (w : World) : Frame P w w :=
  ⟨rfl, rfl, rfl, fun _ => rfl, [], by simp, by simp, Or.inl rfl, Or.inl rfl, by simp⟩

theorem Frame.trans (h : Frame P w w') (h' : Frame P w' w'') : Frame P w w'' := by
  obtain ⟨es, hlog, hP, hfs, hcwd, hhere⟩ := h.calls
  obtain ⟨es', hlog', hP', hfs', hcwd', hhere'⟩ := h'.calls
  refine ⟨h'.env.trans h.env, h'.globals.trans h.globals, h'.failed.trans h.failed,
    fun hP => (h'.streams hP).trans (h.streams hP), es ++ es', by rw [hlog', hlog, List.append_assoc], ?_, ?_, ?_, ?_⟩
  · intro e he
    rcases List.mem_append.mp he with he | he
    · exact hP e he
    · exact hP' e he
  · rcases hfs' with hfs' | ⟨e, he, h⟩
    · rcases hfs with hfs | ⟨e, he, h⟩
      · exact Or.inl (hfs'.trans hfs)
      · exact Or.inr ⟨e, List.mem_append_left es' he, h⟩
    · exact Or.inr ⟨e, List.mem_append_right es he, h⟩
  · rcases hcwd' with hcwd' | ⟨e, he, h⟩
    · rcases hcwd with hcwd | ⟨e, he, h⟩
      · exact Or.inl (hcwd'.trans hcwd)
      · exact Or.inr ⟨e, List.mem_append_left es' he, h⟩
    · exact Or.inr ⟨e, List.mem_append_right es he, h⟩
  · intro e he
    rcases List.mem_append.mp he with he | he
    · rcases hhere e he with hcwd | ⟨e', he', h⟩
      · exact Or.inl hcwd
      · exact Or.inr ⟨e', List.mem_append_left es' he', h⟩
    · rcases hhere' e he with hcwd' | ⟨e', he', h⟩
      · rcases hcwd with hcwd | ⟨e', he', -, h⟩
        · exact Or.inl (hcwd'.trans hcwd)
        · exact Or.inr ⟨e', List.mem_append_left es' he', h⟩
      · exact Or.inr ⟨e', List.mem_append_right es he', h⟩

theorem Frame.mono (h : Frame P w w') (hPQ : ∀ e, P e → Q e) : Frame Q w w' := by
  obtain ⟨es, hlog, hP, hkept⟩ := h.calls
  exact ⟨h.env, h.globals, h.failed, fun hQ => h.streams fun e he => hQ e (hPQ e he), es, hlog,
    fun e he => hPQ e (hP e he), hkept⟩

instance : Std.Refl (Frame P) := ⟨Frame.refl⟩

instance : IsTrans World (Frame P) := ⟨fun _ _ _ => Frame.trans⟩

/-- Where no call writes, the file system stays. -/
theorem Frame.fs_eq (h : Frame P w w') (hP : ∀ e, P e → e.call.writes = false) :
    w'.os.fs = w.os.fs := by
  obtain ⟨es, -, hes, hfs | ⟨e, he, -, hw⟩, -⟩ := h.calls
  · exact hfs
  · simp [hP e (hes e he)] at hw

/-- Where no call moves, the working directory stays. -/
theorem Frame.cwd_eq (h : Frame P w w') (hP : ∀ e, P e → e.call.moves = false) :
    w'.os.cwd = w.os.cwd := by
  obtain ⟨es, -, hes, -, hcwd | ⟨e, he, -, hm⟩, -⟩ := h.calls
  · exact hcwd
  · simp [hP e (hes e he)] at hm

theorem Frame.quiet_fs (h : Frame Quiet w w') : w'.os.fs = w.os.fs := h.fs_eq fun _ he => he.1

theorem Frame.quiet_cwd (h : Frame Quiet w w') : w'.os.cwd = w.os.cwd := h.cwd_eq fun _ he => he.2

/-- A run that returned, seen from its frame. -/
theorem Frame.of_run {α : Type} {m : Sys α} {r : Except Crash α} (hm : Keeps (Frame P) m)
    (h : m w = (r, w')) : Frame P w w' := Keeps.of_run hm h

end Rules

/-- All calls made from `w` to `w'` satisfy `P`. -/
def Logs (P : Entry → Prop) (w w' : World) : Prop :=
  ∃ es, w'.log = w.log ++ es ∧ ∀ e ∈ es, P e

instance (P : Entry → Prop) : Std.Refl (Logs P) :=
  ⟨fun _ => ⟨[], (List.append_nil _).symm, by simp⟩⟩

instance (P : Entry → Prop) : IsTrans World (Logs P) := by
  refine ⟨fun w w' w'' h h' => ?_⟩
  obtain ⟨es, hlog, hes⟩ := h
  obtain ⟨es', hlog', hes'⟩ := h'
  refine ⟨es ++ es', by rw [hlog', hlog, List.append_assoc], fun e he => ?_⟩
  rcases List.mem_append.mp he with he | he
  · exact hes e he
  · exact hes' e he

theorem Logs.mono {P Q : Entry → Prop} {w w' : World} (h : Logs P w w') (hPQ : ∀ e, P e → Q e) :
    Logs Q w w' := by
  obtain ⟨es, hlog, hes⟩ := h
  exact ⟨es, hlog, fun e he => hPQ e (hes e he)⟩

theorem Frame.logs {P Q : Entry → Prop} {w w' : World} (h : Frame P w w') (hPQ : ∀ e, P e → Q e) :
    Logs Q w w' := by
  obtain ⟨es, hlog, hes, -⟩ := h.calls
  exact ⟨es, hlog, fun e he => hPQ e (hes e he)⟩

/-- Where no call moves, all calls are made in the directory the first one is made in. -/
theorem Frame.logs_here {P Q : Entry → Prop} {w w' : World} (h : Frame P w w')
    (hP : ∀ e, P e → e.call.moves = false) (hPQ : ∀ e, P e → e.cwd = w.os.cwd → Q e) :
    Logs Q w w' := by
  obtain ⟨es, hlog, hes, -, -, hhere⟩ := h.calls
  refine ⟨es, hlog, fun e he => hPQ e (hes e he) ?_⟩
  rcases hhere e he with hcwd | ⟨e', he', hmoves⟩
  · exact hcwd
  · rw [hP e' (hes e' he')] at hmoves
    cases hmoves

/-! ## Calls -/

section Calls

variable {α : Type} {P : Entry → Prop} {R : World → World → Prop} {call : Call}

/-- What is done with the route of a pathname. -/
theorem route_bind {w : World} {path : Text} {f : Route → Except Errno α} {a : α}
    (h : (w.route path >>= f) = .ok a) : path ≠ [] ∧ f (Foundation.route w.os.cwd path) = .ok a := by
  unfold World.route at h
  split at h
  · cases h
  · rename_i hne
    exact ⟨hne, h⟩

theorem keeps_crash [Std.Refl R] (c : Crash) : Keeps R (crash c : Sys α) := keeps_fail c

theorem keeps_assert [Std.Refl R] (p : Bool) : Keeps R (assert p) := by
  unfold assert
  split
  · exact keeps_pure ()
  · exact keeps_crash .assertion

/-- A pointer that is followed is not null. -/
theorem deref_ok {p : Option α} {a : α} {w w' : World} (h : deref p w = (.ok a, w')) :
    p = some a ∧ w' = w := by
  cases p with
  | none => cases h
  | some a =>
    cases h
    exact ⟨rfl, rfl⟩

theorem keeps_deref [Std.Refl R] (p : Option α) : Keeps R (deref p) := by
  cases p with
  | none => exact keeps_crash .nullPointer
  | some a => exact keeps_pure a

/-- Going on with a pointer that must not be null. -/
theorem keeps_deref_bind [Std.Refl R] {β : Type} {p : Option α} {next : α → Sys β}
    (h : ∀ a, p = some a → Keeps R (next a)) : Keeps R (deref p >>= next) := by
  cases p with
  | none => exact keeps_crash .nullPointer
  | some a => exact h a rfl

theorem keeps_installStatusAssign [Std.Refl R] (code : StatusCode) (message : Option String) :
    Keeps R (installStatusAssign code message) := fun w => refl_of R w

theorem keeps_statusOk [Std.Refl R] : Keeps R statusOk := keeps_installStatusAssign _ _

theorem keeps_statusError [Std.Refl R] (message : String) : Keeps R (statusError message) :=
  keeps_installStatusAssign _ _

theorem keeps_iposixCanSetOwnership [Std.Refl R] [IsTrans World R] (uid : Id) :
    Keeps R (iposixCanSetOwnership uid) :=
  Keeps.bind (keeps_assert _) fun _ => keeps_pure _

theorem frame_withErrno (w : World) (e : Errno) : Frame P w (w.withErrno e) :=
  ⟨rfl, rfl, rfl, fun _ => rfl, [], by simp, by simp, Or.inl rfl, Or.inl rfl, by simp⟩

theorem keeps_iposixErrorReset : Keeps (Frame P) iposixErrorReset := fun w => frame_withErrno w 0

/-- A call that was refused. -/
theorem frame_refused (w : World) (e : Errno) (hP : ∀ cwd ok, P ⟨call, cwd, ok⟩) :
    Frame P w ((w.record call false).withErrno e) :=
  ⟨rfl, rfl, rfl, fun _ => rfl, [⟨call, w.os.cwd, false⟩], rfl, by simpa using hP _ _, Or.inl rfl,
    Or.inl rfl, by simp⟩

theorem keeps_sysCall {f : World → Except Errno (α × Os)} (hP : ∀ cwd ok, P ⟨call, cwd, ok⟩)
    (hf : ∀ w a os, f w = .ok (a, os) → (os.fs = w.os.fs ∨ call.writes = true) ∧
      (os.cwd = w.os.cwd ∨ call.moves = true) ∧
      (os.streams.length = w.os.streams.length ∨ call.opens = true)) :
    Keeps (Frame P) (sysCall call f) := by
  intro w
  unfold sysCall
  cases w.env.faults w.tick with
  | some e => exact frame_refused w e hP
  | none =>
    cases hrun : f w with
    | error e => exact frame_refused w e hP
    | ok r =>
      obtain ⟨a, os⟩ := r
      obtain ⟨hfs, hcwd, hstreams⟩ := hf w a os hrun
      refine ⟨rfl, rfl, rfl, fun hopens => ?_, [⟨call, w.os.cwd, true⟩], rfl, by simpa using hP _ _, ?_,
        ?_, by simp⟩
      · rcases hstreams with h | h
        · exact h
        · exact absurd h (by rw [hopens _ (hP w.os.cwd true)]; exact Bool.false_ne_true)
      · rcases hfs with h | h
        · exact Or.inl h
        · exact Or.inr ⟨_, List.mem_singleton_self _, rfl, h⟩
      · rcases hcwd with h | h
        · exact Or.inl h
        · exact Or.inr ⟨_, List.mem_singleton_self _, rfl, h⟩

/-- A call that changes neither the file system nor the working directory. -/
theorem keeps_sysCall_quiet {f : World → Except Errno (α × Os)} (hP : ∀ cwd ok, P ⟨call, cwd, ok⟩)
    (hf : ∀ w a os, f w = .ok (a, os) → os.fs = w.os.fs ∧ os.cwd = w.os.cwd ∧
      (os.streams.length = w.os.streams.length ∨ call.opens = true)) :
    Keeps (Frame P) (sysCall call f) :=
  keeps_sysCall hP fun w a os h => ⟨Or.inl (hf w a os h).1, Or.inl (hf w a os h).2.1, (hf w a os h).2.2⟩

/-- A call goes as `f` says, unless it is refused. -/
theorem sysCall_cases (call : Call) (f : World → Except Errno (α × Os)) (w : World) :
    (∃ a os, w.env.faults w.tick = none ∧ f w = .ok (a, os) ∧
      sysCall call f w = (.ok (some a), (w.record call true).withOs os)) ∨
    ∃ e, (w.env.faults w.tick = some e ∨ (w.env.faults w.tick = none ∧ f w = .error e)) ∧
      sysCall call f w = (.ok none, (w.record call false).withErrno e) := by
  unfold sysCall
  cases w.env.faults w.tick with
  | some e => exact Or.inr ⟨e, Or.inl rfl, rfl⟩
  | none =>
    cases f w with
    | error e => exact Or.inr ⟨e, Or.inr ⟨rfl, rfl⟩, rfl⟩
    | ok r => exact Or.inl ⟨r.1, r.2, rfl, rfl, rfl⟩

theorem sysCall_refused (call : Call) (f : World → Except Errno (α × Os)) {w : World} {e : Errno}
    (h : w.env.faults w.tick = some e) :
    sysCall call f w = (.ok none, (w.record call false).withErrno e) := by
  rw [sysCall, h]

/-- The same for a call that changes the file system. -/
theorem fsCall_cases (call : Call) (f : World → Except Errno FileSystem) (w : World) :
    (∃ fs, w.env.faults w.tick = none ∧ f w = .ok fs ∧
      fsCall call f w = (.ok 0, (w.record call true).withOs { w.os with fs := fs })) ∨
    ∃ e, (w.env.faults w.tick = some e ∨ (w.env.faults w.tick = none ∧ f w = .error e)) ∧
      fsCall call f w = (.ok (-1), (w.record call false).withErrno e) := by
  unfold fsCall
  rcases sysCall_cases call (fun w => (f w).map fun fs => ((), { w.os with fs := fs })) w with
    ⟨a, os, hfault, hf, hrun⟩ | ⟨e, he, hrun⟩
  · rw [bind_ok hrun]
    cases hfw : f w with
    | error e => rw [hfw] at hf; cases hf
    | ok fs =>
      rw [hfw] at hf
      cases hf
      exact Or.inl ⟨fs, hfault, rfl, rfl⟩
  · rw [bind_ok hrun]
    refine Or.inr ⟨e, ?_, rfl⟩
    rcases he with he | ⟨hfault, hf⟩
    · exact Or.inl he
    · cases hfw : f w with
      | error e' => rw [hfw] at hf; cases hf; exact Or.inr ⟨hfault, rfl⟩
      | ok fs => rw [hfw] at hf; cases hf

theorem keeps_fsCall {f : World → Except Errno FileSystem} (hP : ∀ cwd ok, P ⟨call, cwd, ok⟩)
    (hw : call.writes = true) : Keeps (Frame P) (fsCall call f) := by
  refine Keeps.bind (keeps_sysCall hP fun w a os h => ?_) fun _ => keeps_pure _
  cases hf : f w with
  | error e => rw [hf] at h; cases h
  | ok fs => rw [hf] at h; cases h; exact ⟨Or.inr hw, Or.inl rfl, Or.inl rfl⟩

theorem keeps_query {f : World → Except Errno α} (hP : ∀ cwd ok, P ⟨call, cwd, ok⟩) :
    Keeps (Frame P) (query call f) := by
  intro w
  unfold query
  cases f w with
  | error e => exact frame_refused w e hP
  | ok a =>
    exact ⟨rfl, rfl, rfl, fun _ => rfl, [⟨call, w.os.cwd, true⟩], rfl, by simpa using hP _ _,
      Or.inl rfl, Or.inl rfl, by simp⟩

theorem keeps_stat {path : Text} (hP : ∀ cwd ok, P ⟨.stat path, cwd, ok⟩) :
    Keeps (Frame P) (stat path) := keeps_query hP

theorem keeps_lstat {path : Text} (hP : ∀ cwd ok, P ⟨.lstat path, cwd, ok⟩) :
    Keeps (Frame P) (lstat path) := keeps_query hP

theorem keeps_getcwd {size : Nat} (hP : ∀ cwd ok, P ⟨.getcwd, cwd, ok⟩) :
    Keeps (Frame P) (getcwd size) := by
  refine keeps_sysCall_quiet hP fun w a os h => ?_
  split at h
  · split at h
    · cases h
    · split at h
      · cases h
      · cases h
        exact ⟨rfl, rfl, Or.inl rfl⟩
  · cases h

theorem keeps_modifyStream (h : Handle) (f : Stream → Stream) :
    Keeps (Frame P) (modifyStream h f) :=
  fun _ => ⟨rfl, rfl, rfl, fun _ => List.length_modify f _ h, [], (List.append_nil _).symm, by simp,
    Or.inl rfl, Or.inl rfl, by simp⟩

theorem keeps_stream [Std.Refl R] [IsTrans World R] (h : Handle) : Keeps R (stream h) :=
  Keeps.bind keeps_get fun _ => keeps_deref _

theorem keeps_feof [Std.Refl R] [IsTrans World R] (h : Handle) : Keeps R (feof h) :=
  Keeps.bind (keeps_stream h) fun s => keeps_pure s.eof

theorem keeps_ferror [Std.Refl R] [IsTrans World R] (h : Handle) : Keeps R (ferror h) :=
  Keeps.bind (keeps_stream h) fun s => keeps_pure s.err

theorem keeps_fopenRead {path : Text} (hP : ∀ cwd ok, P ⟨.fopenRead path, cwd, ok⟩) :
    Keeps (Frame P) (fopenRead path) := by
  refine keeps_sysCall_quiet hP fun w a os h => ?_
  obtain ⟨-, h⟩ := route_bind h
  obtain ⟨⟨l, r⟩, -, h⟩ := ok_of_bind h
  cases r with
  | none => cases h
  | some n =>
    obtain ⟨i, -, h⟩ := ok_of_bind h
    cases h
    exact ⟨rfl, rfl, Or.inr rfl⟩

theorem keeps_fopenWrite {path : Text} (hP : ∀ cwd ok, P ⟨.fopenWrite path, cwd, ok⟩) :
    Keeps (Frame P) (fopenWrite path) := by
  refine keeps_sysCall hP fun w a os h => ?_
  obtain ⟨-, h⟩ := route_bind h
  obtain ⟨r, -, h⟩ := ok_of_bind h
  cases h
  exact ⟨Or.inr rfl, Or.inl rfl, Or.inr rfl⟩

theorem keeps_fread {h : Handle} {size : Nat} (hP : ∀ cwd ok, P ⟨.fread h, cwd, ok⟩) :
    Keeps (Frame P) (fread h size) := by
  refine Keeps.bind (keeps_stream h) fun s => Keeps.bind ?_ fun r => ?_
  · refine keeps_sysCall_quiet hP fun w a os hf => ?_
    split at hf
    · cases hf
    · split at hf
      · cases hf
      · cases hf
        exact ⟨rfl, rfl, Or.inl List.length_set⟩
  · cases r with
    | none => exact Keeps.bind (keeps_modifyStream h _) fun _ => keeps_pure _
    | some text => exact keeps_pure text

theorem keeps_fwrite {text : Text} {h : Handle} (hP : ∀ cwd ok, P ⟨.fwrite h, cwd, ok⟩) :
    Keeps (Frame P) (fwrite text h) := by
  refine Keeps.bind (keeps_stream h) fun s => Keeps.bind ?_ fun r => ?_
  · refine keeps_sysCall hP fun w a os hf => ?_
    split at hf
    · cases hf
    · cases hf
      exact ⟨Or.inr rfl, Or.inl rfl, Or.inl rfl⟩
  · cases r with
    | none => exact Keeps.bind (keeps_modifyStream h _) fun _ => keeps_pure _
    | some count => exact keeps_pure count

theorem keeps_fflush {h : Handle} (hP : ∀ cwd ok, P ⟨.fflush h, cwd, ok⟩) :
    Keeps (Frame P) (fflush h) :=
  Keeps.bind (keeps_sysCall_quiet hP fun w a os hf => by cases hf; exact ⟨rfl, rfl, Or.inl rfl⟩)
    fun _ => keeps_pure _

theorem keeps_fflushAll (hP : ∀ cwd ok, P ⟨.fflushAll, cwd, ok⟩) : Keeps (Frame P) fflushAll :=
  Keeps.bind (keeps_sysCall_quiet hP fun w a os hf => by cases hf; exact ⟨rfl, rfl, Or.inl rfl⟩)
    fun _ => keeps_pure _

theorem keeps_fclose {h : Handle} (hP : ∀ cwd ok, P ⟨.fclose h, cwd, ok⟩) :
    Keeps (Frame P) (fclose h) :=
  Keeps.bind (keeps_sysCall_quiet hP fun w a os hf => by cases hf; exact ⟨rfl, rfl, Or.inl rfl⟩) fun _ =>
    Keeps.bind (keeps_modifyStream h _) fun _ => keeps_pure _

end Calls

end CStringVerified.Install
