import CStringVerified.Sysdeps.Proofs.LockerInvariantProofs

/-!
# How lockers end

A locker ends with the exit code of its command. `Fate` says of every process, by what has happened
so far, how it came to its end; the other cases are a locker that was killed and one that a call of
failed. The module ends with what lockers never do, whatever happens to them.
-/

namespace Sysdeps

open Foundation Foundation.Kernel

variable {s t : State Stage} {p q : Pid} {x y : Proc Stage} {a : Action} {as : List Action}

/-! ## Statuses -/

/-- The exit code of a status is that of the process, as a byte. -/
theorem WEXITSTATUS_exited (code : Int) : WEXITSTATUS (exited code) = code % 256 := by
  have h0 := Int.emod_nonneg code (b := 256) (by decide)
  have h1 := Int.emod_lt_of_pos code (b := 256) (by decide)
  rw [WEXITSTATUS, exited, Nat.mul_div_cancel _ (by decide)]
  omega

/-- A process that was killed has no exit code: what stands in its place is zero. -/
theorem WEXITSTATUS_signalled (signal : Nat) : WEXITSTATUS (signalled signal) = 0 := by
  rw [WEXITSTATUS, signalled]
  omega

/-- Exit codes are bytes. -/
theorem exited_emod (code : Int) : exited (code % 256) = exited code := by
  rw [exited, exited, Int.emod_emod_of_dvd code (by decide)]

/-! ## Fates -/

/-- A program that reports an error: it has no job, or one of its calls failed. -/
def Troubled (as : List Action) (p : Pid) (x : Proc Stage) : Prop :=
  (x.parent = none ∧ x.args.length < 4) ∨ ∃ errno, Action.fails p errno ∈ as

/-- How a process that is over came to its end. -/
def Fell (as : List Action) (s : State Stage) (p : Pid) (x : Proc Stage) (status : Nat) : Prop :=
  (∃ signal, Action.killed p signal ∈ as ∧ status = signalled signal) ∨
    (Troubled as p x ∧ status = exited EXIT_FAILURE) ∨
    (x.parent ≠ none ∧ ∃ code, Action.ends p code ∈ as ∧ status = exited code) ∨
    (x.parent = none ∧ ∃ code, Result s p code ∧ status = exited code)

/-- What is known of a process from what has happened so far. -/
def Fate (as : List Action) (s : State Stage) (p : Pid) (x : Proc Stage) : Prop :=
  match x.image with
  | .code (.reporting _) | .code .failed => Troubled as p x
  | .ended status _ => Fell as s p x status
  | _ => True

/-- A locker without a job was given too few arguments. -/
theorem start_usage {args : List String} (h : Stage.start args = .reporting usageText) :
    args.length < 4 := by
  match args with
  | _ :: id :: lockFile :: command :: arguments => cases h
  | [] | [_] | [_, _] | [_, _, _] => simp

/-- What has happened, has happened. -/
theorem Troubled.later (h : Troubled as p x) (hparent : y.parent = x.parent) (hargs : y.args = x.args)
    (a : Action) : Troubled (as ++ [a]) p y := by
  rcases h with ⟨hnone, hlength⟩ | ⟨errno, he⟩
  · exact Or.inl ⟨hparent.trans hnone, hargs ▸ hlength⟩
  · exact Or.inr ⟨errno, List.mem_append_left _ he⟩

theorem Fell.later {status : Nat} (h : Fell as s p x status) (hs : Sound s)
    (hmove : Move stages s a t) (hparent : y.parent = x.parent) (hargs : y.args = x.args) :
    Fell (as ++ [a]) t p y status := by
  rcases h with ⟨signal, hk, hst⟩ | ⟨htrouble, hst⟩ | ⟨hp, code, hends, hst⟩ | ⟨hp, code, hr, hst⟩
  · exact Or.inl ⟨signal, List.mem_append_left _ hk, hst⟩
  · exact Or.inr (Or.inl ⟨htrouble.later hparent hargs a, hst⟩)
  · exact Or.inr (Or.inr (Or.inl ⟨hparent ▸ hp, code, List.mem_append_left _ hends, hst⟩))
  · exact Or.inr (Or.inr (Or.inr ⟨hparent.trans hp, code, hr.later hs hmove, hst⟩))

theorem Fate.later (h : Fate as s p x) (hs : Sound s) (hmove : Move stages s a t)
    (himage : y.image = x.image) (hparent : y.parent = x.parent) (hargs : y.args = x.args) :
    Fate (as ++ [a]) t p y := by
  rw [Fate] at h ⊢
  rw [himage]
  split at h
  · exact h.later hparent hargs a
  · exact h.later hparent hargs a
  · exact h.later hs hmove hparent hargs
  · trivial

/-- A program that may be reporting an error had the trouble. -/
theorem fate_of_troubled (h : Troubled as p x) {st : Stage} (himage : x.image = .code st) :
    Fate as s p x := by
  rw [Fate, himage]
  cases st with
  | reporting | failed => exact h
  | opening | acquiring | forking | childClosing | executing | waiting | releasing | closing
  | returning => trivial

/-- The stages after a call that succeeded report no errors. -/
theorem fate_success {st : Stage} {c : Sys} {k : Reply → Stage} (h : Fate as s p x)
    (himage : x.image = .code st) (hview : stages.view st = .inr (c, k)) {r : Reply}
    (hr : r.value ≠ -1) (himage' : y.image = .code (k r)) (hparent : y.parent = x.parent)
    (hargs : y.args = x.args) (a : Action) : Fate (as ++ [a]) t p y := by
  cases st with
  | returning | failed => cases hview
  | reporting text =>
    rw [Fate, himage] at h
    exact fate_of_troubled (h.later hparent hargs a) himage'
  | forking j fd =>
    cases hview
    simp only [Fate, himage', orFatal_of_ne hr]
    by_cases h0 : r.value = 0
    · simp only [if_pos h0]
    · simp only [if_neg h0]
  | opening j =>
    cases hview
    simp only [Fate, himage', dif_neg hr]
  | acquiring | childClosing | executing | waiting | releasing | closing =>
    cases hview
    simp only [Fate, himage', orFatal_of_ne hr]

/-- What is known of a process that was there before a step. -/
theorem fate_step (hinv : Invariant s) (hfate : Fate as s q x) (hmove : Move stages s a t)
    (hx : s.procs[q]? = some x) (hy : t.procs[q]? = some y) : Fate (as ++ [a]) t q y := by
  obtain ⟨y', hy', hlater⟩ := hmove.later hinv.sound hx
  obtain rfl := Option.some.inj (hy.symm.trans hy')
  have hmem : a ∈ as ++ [a] := List.mem_append_right as List.mem_cons_self
  by_cases ha : a.actor = some q
  · have hcases := hmove
    cases hmove with
    | exits p fd z st code hp himage hview =>
      cases ha
      obtain rfl := Option.some.inj (hx.symm.trans hp)
      rw [State.terminate, procs_put_self (s := s.unlockAll q) hp] at hy
      cases hy
      cases st with
      | returning exitCode =>
        cases hview
        obtain ⟨hnone, hresult⟩ := hinv.placed hp himage
        exact Or.inr (Or.inr (Or.inr ⟨hnone, code, hresult.later hinv.sound hcases, rfl⟩))
      | failed =>
        cases hview
        rw [Fate, himage] at hfate
        exact Or.inr (Or.inl ⟨hfate.later rfl rfl _, rfl⟩)
      | opening | acquiring | forking | childClosing | executing | waiting | releasing | closing
      | reporting => cases hview
    | aborts p fd z st hp himage hview => cases st <;> cases hview
    | succeeds p fd z st c k t hp himage hview hcall =>
      cases ha
      obtain rfl := Option.some.inj (hx.symm.trans hp)
      rcases hcall.image hinv.sound hp hy with ⟨argv, -, himage'⟩ | ⟨r, hr, himage'⟩
      · rw [Fate, himage']
        trivial
      · exact fate_success hfate himage hview hr himage' hlater.parent hlater.args _
    | fails p errno z st c k hp himage hview =>
      cases ha
      rw [procs_put_self hp] at hy
      cases hy
      exact fate_of_troubled (Or.inr ⟨errno, hmem⟩) rfl
    | ends p code z argv hp himage =>
      cases ha
      obtain rfl := Option.some.inj (hx.symm.trans hp)
      rw [State.terminate, procs_put_self (s := s.unlockAll q) hp] at hy
      cases hy
      have hsane := hinv.sane q x hx
      rw [Sane, himage] at hsane
      obtain ⟨j, hhelps, -⟩ := hsane
      exact Or.inr (Or.inr (Or.inl ⟨hhelps.parent, code, hmem, rfl⟩))
    | killed p signal z hp halive =>
      cases ha
      rw [State.terminate, procs_put_self (s := s.unlockAll q) hp] at hy
      cases hy
      exact Or.inl ⟨signal, hmem, rfl⟩
    | started args => cases ha
    | removed path => cases ha
  · rcases hlater.other ha with rfl | ⟨status, himage, rfl, -⟩
    · exact hfate.later hinv.sound hmove rfl rfl rfl
    · rw [Fate, himage] at hfate
      exact hfate.later hinv.sound hmove rfl rfl

/-- What is known of all processes after a run. -/
theorem fate_run (hs : Fresh s) (hrun : run (step stages) s as = some t) :
    ∀ (p : Pid) (x : Proc Stage), t.procs[p]? = some x → Fate as t p x := by
  have key : Invariant t ∧ ∀ (p : Pid) (x : Proc Stage), t.procs[p]? = some x → Fate as t p x := by
    refine run_history (I := fun as s => Invariant s ∧
      ∀ (p : Pid) (x : Proc Stage), s.procs[p]? = some x → Fate as s p x) ?_ hrun ⟨.of_fresh hs, ?_⟩
    · rintro bs u a v ⟨hinv, hfates⟩ hstep
      refine ⟨hinv.step hstep, fun p y hy => ?_⟩
      have hmove := step_move hstep
      cases hp : u.procs[p]? with
      | some x => exact fate_step hinv (hfates p x hp) hmove hp hy
      | none =>
        obtain ⟨-, ⟨args, -, rfl⟩ | ⟨p', fd, z, st, k, -, -, -, hview, rfl⟩⟩ := hmove.newcomer hy hp
        · rcases start_cases args with ⟨j, hstart⟩ | hstart
          · simp only [Fate, stages, hstart]
          · exact fate_of_troubled (Or.inl ⟨rfl, start_usage hstart⟩) rfl
        · cases st with
          | forking j fd' =>
            cases hview
            trivial
          | opening | acquiring | childClosing | executing | waiting | releasing | closing
          | returning | reporting | failed => cases hview
    · intro p x hp
      rw [hs.procs] at hp
      cases hp
  exact key.2

/-- The status of a child, by how it came to its end, and the exit code that comes of it. -/
theorem fell_child {status : Nat} (h : Fell as s p x status) (hparent : x.parent ≠ none) :
    (∃ signal, Action.killed p signal ∈ as ∧ exited (WEXITSTATUS status) = exited EXIT_SUCCESS) ∨
      (∃ errno, Action.fails p errno ∈ as ∧ exited (WEXITSTATUS status) = exited EXIT_FAILURE) ∨
      ∃ code, Action.ends p code ∈ as ∧ exited (WEXITSTATUS status) = exited code := by
  rcases h with ⟨signal, hk, rfl⟩ | ⟨⟨hnone, -⟩ | ⟨errno, he⟩, rfl⟩ | ⟨-, code, hends, rfl⟩ | ⟨hnone, -⟩
  · exact Or.inl ⟨signal, hk, by rw [WEXITSTATUS_signalled]; rfl⟩
  · exact absurd hnone hparent
  · exact Or.inr (Or.inl ⟨errno, he, by rw [WEXITSTATUS_exited, exited_emod]⟩)
  · exact Or.inr (Or.inr ⟨code, hends, by rw [WEXITSTATUS_exited, exited_emod]⟩)
  · exact absurd hnone hparent

/-- How a locker ends, in every run: a signal killed it, or it was given too few arguments or one of
its calls failed and it ends with `EXIT_FAILURE`, or it ends with the exit code of its child. That is
the code that its command ended with, `EXIT_FAILURE` if the child did not get to the command, and
`EXIT_SUCCESS` if a signal killed the child. -/
theorem locker_exit {s t : State Program} {as : List Action} {p : Pid}
    {x : Proc Program} {status : Nat} {reaped : Bool} (hfresh : Fresh s)
    (hrun : run (step locker) s as = some t) (hp : t.procs[p]? = some x) (hstarted : x.parent = none)
    (hended : x.image = .ended status reaped) :
    (∃ signal, Action.killed p signal ∈ as ∧ status = signalled signal) ∨
      ((x.args.length < 4 ∨ ∃ errno, Action.fails p errno ∈ as) ∧ status = exited EXIT_FAILURE) ∨
      ∃ c child, t.procs[c]? = some child ∧ child.parent = some p ∧
        ((∃ signal, Action.killed c signal ∈ as ∧ status = exited EXIT_SUCCESS) ∨
          (∃ errno, Action.fails c errno ∈ as ∧ status = exited EXIT_FAILURE) ∨
          ∃ code, Action.ends c code ∈ as ∧ status = exited code) := by
  obtain ⟨u, v, hu, rfl, hrun', rfl⟩ := exists_stages hfresh hrun
  rw [map_procs] at hp
  obtain ⟨⟨parent, args, fds, image⟩, hx, rfl⟩ := Option.map_eq_some_iff.mp hp
  have hfates := fate_run hu hrun'
  have hfate := hfates p _ hx
  cases image with
  | code | command => cases hended
  | ended status' reaped' =>
    cases hended
    rcases hfate with ⟨signal, hk, rfl⟩ | ⟨htrouble, rfl⟩ | ⟨hsome, -⟩ | ⟨-, code, hresult, rfl⟩
    · exact Or.inl ⟨signal, hk, rfl⟩
    · exact Or.inr (Or.inl ⟨htrouble.imp And.right id, rfl⟩)
    · exact absurd hstarted hsome
    · obtain ⟨c, child, st, hc, hparent, himage, rfl⟩ := hresult
      have hfell := hfates c child hc
      rw [Fate, himage] at hfell
      refine Or.inr (Or.inr ⟨c, child.map Stage.code, ?_, hparent, fell_child hfell ?_⟩)
      · rw [map_procs, hc]
        rfl
      · rw [hparent]
        rintro ⟨⟩

/-- A locker whose command ends with a code that is more than a byte. -/
theorem locker_exit_byte : ∃ t x, run (step locker) idle (meeting ++ begins 0 2 ++ completes 0 2 263) =
      some t ∧ t.procs[0]? = some x ∧ x.image = .ended (exited 7) false ∧
    ((∃ signal, Action.killed 0 signal ∈ meeting ++ begins 0 2 ++ completes 0 2 263 ∧
        exited 7 = signalled signal) ∨
      ((x.args.length < 4 ∨ ∃ errno, Action.fails 0 errno ∈
          meeting ++ begins 0 2 ++ completes 0 2 263) ∧ exited 7 = exited EXIT_FAILURE) ∨
      ∃ c child, t.procs[c]? = some child ∧ child.parent = some 0 ∧
        ((∃ signal, Action.killed c signal ∈ meeting ++ begins 0 2 ++ completes 0 2 263 ∧
            exited 7 = exited EXIT_SUCCESS) ∨
          (∃ errno, Action.fails c errno ∈ meeting ++ begins 0 2 ++ completes 0 2 263 ∧
            exited 7 = exited EXIT_FAILURE) ∨
          ∃ code, Action.ends c code ∈ meeting ++ begins 0 2 ++ completes 0 2 263 ∧
            exited 7 = exited code)) :=
  ⟨_, _, rfl, rfl, rfl, locker_exit idle_fresh rfl rfl rfl rfl⟩

/-! ## What lockers never do -/

/-- The arguments after the lock file are the command of a job. -/
theorem start_command {args : List String} {j : Job} (h : Stage.start args = .opening j) :
    j.command = args.drop 3 := by
  match args with
  | _ :: id :: lockFile :: command :: arguments =>
    cases h
    rfl
  | [] | [_] | [_, _] | [_, _, _] => cases h

/-- No stage aborts. -/
theorem view_ne_abort (st : Stage) : st.view ≠ .inl .abort := by
  cases st <;> rintro ⟨⟩

section Opened

variable {P : Type}

/-- In the course of a run, `p` has opened a path that named `f` at that moment. -/
def Opened (m : Machine P) (s : State P) (as : List Action) (p : Pid) (path : String) (f : File) :
    Prop :=
  ∃ bs fd cs u v, as = bs ++ .succeeds p fd :: cs ∧ run (step m) s bs = some u ∧
    pending m u p = some (.openFile path) ∧ step m u (.succeeds p fd) = some v ∧
    v.files path = some f

theorem Opened.later {m : Machine P} {s : State P} {path : String} {f : File}
    (h : Opened m s as p path f) (a : Action) : Opened m s (as ++ [a]) p path f := by
  obtain ⟨bs, fd, cs, u, v, rfl, hrest⟩ := h
  exact ⟨bs, fd, cs ++ [a], u, v, by simp, hrest⟩

end Opened

theorem Opened.map {path : String} {f : File} (h : Opened stages s as p path f) :
    Opened locker (s.map Stage.code) as p path f := by
  obtain ⟨bs, fd, cs, u, v, has, hrun, hpending, hstep, hf⟩ := h
  refine ⟨bs, fd, cs, u.map Stage.code, v.map Stage.code, has, ?_, ?_, ?_, hf⟩
  · rw [stages_locker.run, hrun]
    rfl
  · rw [stages_locker.pending, hpending]
  · rw [stages_locker.step, hstep]
    rfl

/-- What a locker has open, it has opened under the name of its lock file. -/
theorem opened_run {f : File} {d : Int} (hs : Fresh s) (hrun : run (step stages) s as = some t)
    (hp : t.procs[p]? = some x) (hparent : x.parent = none) (hd : x.fds d = some f) :
    ∃ path, x.args[2]? = some path ∧ Opened stages s as p path f := by
  have key : Invariant t ∧ run (step stages) s as = some t ∧
      ∀ (p : Pid) (x : Proc Stage) (d : Int) (f : File), t.procs[p]? = some x → x.parent = none →
        x.fds d = some f → ∃ path, x.args[2]? = some path ∧ Opened stages s as p path f := by
    refine run_history (I := fun bs u => Invariant u ∧ run (step stages) s bs = some u ∧
      ∀ (p : Pid) (x : Proc Stage) (d : Int) (f : File), u.procs[p]? = some x → x.parent = none →
        x.fds d = some f → ∃ path, x.args[2]? = some path ∧ Opened stages s bs p path f) ?_ hrun
      ⟨.of_fresh hs, rfl, fun p x d f hp => by rw [hs.procs] at hp; cases hp⟩
    rintro bs u a v ⟨hinv, hbs, hopened⟩ hstep
    have hmove := step_move hstep
    have hall : run (step stages) s (bs ++ [a]) = some v :=
      run_append_eq_some.mpr ⟨u, hbs, run_cons_eq_some.mpr ⟨v, hstep, rfl⟩⟩
    refine ⟨hinv.step hstep, hall, fun p y d f hy hparent hd => ?_⟩
    cases hp : u.procs[p]? with
    | some x =>
      obtain ⟨y', hy', hlater⟩ := hmove.later hinv.sound hp
      obtain rfl := Option.some.inj (hy.symm.trans hy')
      rcases hmove.descriptors hp hy hd with hd | ⟨fd, st, path, k, rfl, himage, hview, hf⟩
      · obtain ⟨path, hpath, hop⟩ := hopened p x d f hp (hlater.parent.symm.trans hparent) hd
        exact ⟨path, hlater.args ▸ hpath, hop.later a⟩
      · refine ⟨path, ?_, bs, fd, [], u, v, rfl, hbs, pending_eq hp himage hview, hstep, hf⟩
        cases st with
        | opening j =>
          cases hview
          rw [hlater.args]
          exact start_opening (hinv.placed hp himage).1.args
        | acquiring | forking | childClosing | executing | waiting | releasing | closing | returning
        | reporting | failed => cases hview
    | none =>
      obtain ⟨-, ⟨args, -, rfl⟩ | ⟨p', fd, z, st, k, -, -, -, -, rfl⟩⟩ := hmove.newcomer hy hp
      · cases hd
      · cases hparent
  exact key.2.2 p x d f hp hparent hd

/-- No assertion fails; who is about to fork has the lock on the file that it has opened under the
name of its lock file; nobody has two children; and what a process runs is the command that it was
forked with. -/
structure Safe (s : State Program) (as : List Action) (t : State Program) : Prop where
  asserts : ∀ (p : Pid) (x : Proc Program) (prog : Program), t.procs[p]? = some x →
    x.image = .code prog → prog.view ≠ .inl .abort
  fork : ∀ p : Pid, pending locker t p = some .fork →
    ∃ (x : Proc Program) (path : String) (d : Int) (f : File), t.procs[p]? = some x ∧
      x.args[2]? = some path ∧ x.fds d = some f ∧ Opened locker s as p path f ∧ t.owner f = some p
  single : ∀ (c c' : Pid) (x y : Proc Program) (p : Pid), t.procs[c]? = some x →
    t.procs[c']? = some y → x.parent = some p → y.parent = some p → c = c'
  command : ∀ (c : Pid) (x : Proc Program) (argv : List String), t.procs[c]? = some x →
    x.image = .command argv → x.parent ≠ none ∧ argv = x.args.drop 3 ∧ argv ≠ []

/-- Lockers are safe in every run, whatever happens to them. -/
theorem locker_safe {s t : State Program} {as : List Action} (hfresh : Fresh s)
    (hrun : run (step locker) s as = some t) : Safe s as t := by
  obtain ⟨u, v, hu, rfl, hrun', rfl⟩ := exists_stages hfresh hrun
  have hinv : Invariant v := (Invariant.of_fresh hu).run hrun'
  have hentry : ∀ {p : Pid} {x : Proc Program},
      (v.map Stage.code).procs[p]? = some x → ∃ y : Proc Stage, v.procs[p]? = some y ∧
        y.map Stage.code = x := by
    intro p x hp
    rw [map_procs] at hp
    exact Option.map_eq_some_iff.mp hp
  refine ⟨?_, ?_, ?_, ?_⟩
  · intro p x prog hp himage
    obtain ⟨⟨parent, args, fds, image⟩, -, rfl⟩ := hentry hp
    cases image with
    | command | ended => cases himage
    | code st =>
      cases himage
      rw [code_view]
      have := view_ne_abort st
      rcases hview : st.view with (code | _) | ⟨c, k⟩
      · rintro ⟨⟩
      · exact absurd hview this
      · rintro ⟨⟩
  · intro p hp
    rw [stages_locker.pending] at hp
    obtain ⟨x, hx, hcall⟩ := Option.bind_eq_some_iff.mp hp
    split at hcall
    · next st himage =>
      have hplaced := hinv.placed hx himage
      cases st with
      | forking j fd =>
        obtain ⟨hworks, -, f, hf, howner⟩ := hplaced
        obtain ⟨path, hpath, hopened⟩ := opened_run hu hrun' hx hworks.parent hf
        refine ⟨x.map Stage.code, path, fd.1, f, ?_, hpath, hf, hopened.map, howner⟩
        rw [map_procs, hx]
        rfl
      | opening | acquiring | childClosing | executing | waiting | releasing | closing | returning
      | reporting | failed => cases hcall
    · cases hcall
  · intro c c' x y p hx hy hparent hparent'
    obtain ⟨x', hx', rfl⟩ := hentry hx
    obtain ⟨y', hy', rfl⟩ := hentry hy
    exact hinv.single c c' x' y' p hx' hy' hparent hparent'
  · intro c x argv hc himage
    obtain ⟨⟨parent, args, fds, image⟩, hx, rfl⟩ := hentry hc
    have hsane := hinv.sane c _ hx
    cases image with
    | code | ended => cases himage
    | command argv' =>
      cases himage
      obtain ⟨j, hhelps, rfl⟩ := hsane
      refine ⟨hhelps.parent, start_command hhelps.args, ?_⟩
      have := j.nonempty
      rintro hnil
      rw [hnil] at this
      exact absurd this (Nat.lt_irrefl 0)

/-- Two lockers, one of which runs its command. -/
theorem locker_safe_two : ∃ t, run (step locker) idle (meeting ++ begins 0 2) = some t ∧
    Safe idle (meeting ++ begins 0 2) t :=
  ⟨_, rfl, locker_safe idle_fresh
    (rfl : run (step locker) idle (meeting ++ begins 0 2) = some _)⟩

end Sysdeps
