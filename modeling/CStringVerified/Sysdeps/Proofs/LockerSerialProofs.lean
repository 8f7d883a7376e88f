import CStringVerified.Foundation.Mutex
import CStringVerified.Sysdeps.Proofs.LockerExclusionProofs

/-!
# Lockers refine a mutex

What is seen of a lock file are the beginnings and the ends of its commands. In order, whatever is
seen is accepted by the machine of `Foundation.Mutex`: the commands come one after the other.
-/

namespace Sysdeps

open Foundation Foundation.Kernel

section See

variable {P : Type} {m : Machine P} {s t : State P} {p q : Pid} {x y : Proc P} {a : Action}
  {path : String}

/-- The process is to work on a lock file. -/
def isFor (x : Proc P) (path : String) : Bool := x.args[2]? = some path

/-- The process runs a command. -/
def isCommand (x : Proc P) : Bool :=
  match x.image with
  | .command _ => true
  | .code _ | .ended _ _ => false

/-- What is seen of a lock file when a process makes a call: a command of it begins. -/
def begun (path : String) (p : Pid) (x : Proc P) : Sys → Option (Mutex.Event Pid)
  | .execvp _ => if isFor x path then some (.enters p) else none
  | .openFile _ | .setlkw _ _ | .fork | .close _ | .waitpid _ | .fprintf _ => none

/-- What is seen of a lock file in a step: a command of it begins, or ends. -/
def see (m : Machine P) (path : String) (s : State P) : Action → Option (Mutex.Event Pid)
  | .succeeds p _ => do
    let x ← s.procs[p]?
    let c ← pending m s p
    begun path p x c
  | .ends p _ | .killed p _ => do
    let x ← s.procs[p]?
    if isCommand x && isFor x path then some (.leaves p) else none
  | .fails _ _ | .started _ | .removed _ => none

/-- Whether a process runs a command of a lock file is seen from its entry. -/
theorem runs_iff (h : s.procs[p]? = some x) :
    Runs s p path ↔ isCommand x = true ∧ isFor x path = true := by
  constructor
  · rintro ⟨x', argv, hx', himage, hpath⟩
    rw [h] at hx'
    cases hx'
    rw [isCommand, himage]
    exact ⟨rfl, decide_eq_true hpath⟩
  · rintro ⟨hcommand, hpath⟩
    rw [isCommand] at hcommand
    split at hcommand
    · next argv himage => exact ⟨x, argv, h, himage, of_decide_eq_true hpath⟩
    · cases hcommand
    · cases hcommand

/-- A call with which a command is seen to begin. -/
theorem begun_eq_some {c : Sys} {e : Mutex.Event Pid} (h : begun path p x c = some e) :
    e = .enters p ∧ ∃ argv, c = .execvp argv := by
  cases c with
  | execvp argv =>
    rw [begun] at h
    split at h
    · cases h; exact ⟨rfl, argv, rfl⟩
    · cases h
  | openFile | setlkw | fork | close | waitpid | fprintf => cases h

/-- What is seen in a step is about the process of the action. -/
theorem see_actor {e : Mutex.Event Pid} (h : see m path s a = some e) :
    ∃ p, a.actor = some p ∧ (e = .enters p ∨ e = .leaves p) := by
  cases a with
  | succeeds p fd =>
    obtain ⟨x, -, h⟩ := Option.bind_eq_some_iff.mp h
    obtain ⟨c, -, h⟩ := Option.bind_eq_some_iff.mp h
    exact ⟨p, rfl, Or.inl (begun_eq_some h).1⟩
  | ends p code | killed p signal =>
    obtain ⟨x, -, h⟩ := Option.bind_eq_some_iff.mp h
    split at h
    · cases h; exact ⟨p, rfl, Or.inr rfl⟩
    · cases h
  | fails | started | removed => cases h

/-- A command that is seen to begin is not run before. -/
theorem see_enters (h : see m path s a = some (.enters p)) : ¬ Runs s p path := by
  rintro ⟨x, argv, hp, himage, -⟩
  cases a with
  | succeeds p' fd =>
    obtain ⟨y, -, h⟩ := Option.bind_eq_some_iff.mp h
    obtain ⟨c, hpending, h⟩ := Option.bind_eq_some_iff.mp h
    cases (begun_eq_some h).1
    rw [pending, hp, Option.bind_eq_bind, Option.bind_some] at hpending
    simp only [himage] at hpending
    cases hpending
  | ends p' code | killed p' signal =>
    obtain ⟨y, -, h⟩ := Option.bind_eq_some_iff.mp h
    split at h <;> cases h
  | fails | started | removed => cases h

/-- A command that is seen to end is run before. -/
theorem see_leaves (h : see m path s a = some (.leaves p)) : Runs s p path := by
  have hover : ∀ {p' : Pid}, ((s.procs[p']?).bind fun x =>
      if isCommand x && isFor x path then some (Mutex.Event.leaves p') else none) = some (.leaves p) →
      Runs s p path := by
    intro p' h
    obtain ⟨x, hx, h⟩ := Option.bind_eq_some_iff.mp h
    split at h
    · next hboth =>
      cases h
      exact (runs_iff hx).mpr (Bool.and_eq_true_iff.mp hboth)
    · cases h
  cases a with
  | succeeds p' fd =>
    obtain ⟨y, -, h⟩ := Option.bind_eq_some_iff.mp h
    obtain ⟨c, -, h⟩ := Option.bind_eq_some_iff.mp h
    cases (begun_eq_some h).1
  | ends p' code => exact hover h
  | killed p' signal => exact hover h
  | fails | started | removed => cases h

/-- The commands that others run go on, and no others begin. -/
theorem runs_other (hs : Sound s) (h : Move m s a t) (ha : a.actor ≠ some q) :
    Runs t q path ↔ Runs s q path := by
  cases hq : s.procs[q]? with
  | some x =>
    obtain ⟨y, hy, hlater⟩ := h.later hs hq
    rw [runs_iff hy, runs_iff hq]
    rcases hlater.other ha with rfl | ⟨status, himage, rfl, -⟩
    · exact Iff.rfl
    · rw [isCommand, isCommand, himage]
      exact iff_of_false (fun h => nomatch h.1) (fun h => nomatch h.1)
  | none =>
    refine iff_of_false ?_ ?_
    · rintro ⟨y, argv, hy, himage, -⟩
      obtain ⟨-, ⟨args, -, rfl⟩ | ⟨p, fd, z, prog, k, -, -, -, -, rfl⟩⟩ := h.newcomer hy hq
      · cases himage
      · cases himage
    · rintro ⟨x, argv, hx, -⟩
      rw [hq] at hx
      cases hx

/-- A process that runs no command. -/
theorem not_runs (h : s.procs[p]? = some x) (hcommand : isCommand x = false) : ¬ Runs s p path := by
  rw [runs_iff h, hcommand]
  exact fun h => nomatch h.1

/-- A process that has ended runs no command. -/
theorem not_runs_terminate (hp : s.procs[p]? = some x) (status : Nat) :
    ¬ Runs (s.terminate p x status) p path :=
  not_runs (procs_put_self (s := s.unlockAll p) hp) rfl

/-- What is seen of a process that ends: its command, if it ran one. -/
theorem see_over (hp : s.procs[p]? = some x)
    (hsee : see m path s a =
      (s.procs[p]?).bind fun x => if isCommand x && isFor x path then some (.leaves p) else none)
    (hover : ¬ Runs t p path) :
    Runs t p path ↔ see m path s a = some (.enters p) ∨
      (Runs s p path ∧ see m path s a ≠ some (.leaves p)) := by
  rw [hp, Option.bind_some] at hsee
  refine iff_of_false hover ?_
  rw [runs_iff hp, hsee, ← Bool.and_eq_true_iff]
  split
  · rintro (h | ⟨-, h⟩)
    · cases h
    · exact h rfl
  · next hno =>
    rintro (h | ⟨h, -⟩)
    · cases h
    · exact hno h

/-- A program that makes a call runs a command afterwards just where the call is `execvp`. -/
theorem runs_called {prog : P} {c : Sys} {k : Reply → P} {fd : Nat} (hs : Sound s)
    (hp : s.procs[p]? = some x) (himage : x.image = .code prog) (hview : m.view prog = .inr (c, k))
    (hcall : Called s p x fd c k t) :
    Runs t p path ↔ see m path s (.succeeds p fd) = some (.enters p) := by
  have hsee : see m path s (.succeeds p fd) = begun path p x c := by
    rw [see, hp, pending_eq hp himage hview]
    rfl
  have hcode : ∀ {u : State P} {x' : Proc P}, u.procs[p]? = some x → isCommand x' = false →
      ¬ Runs (u.put p x') p path := fun hu hx' => not_runs (procs_put_self hu) hx'
  rw [hsee]
  cases hcall with
  | opened other k hfree =>
    rw [← create_procs s other] at hp
    exact iff_of_false (hcode hp rfl) (by rintro ⟨⟩)
  | locked d k f hd hfree => exact iff_of_false (hcode (u := s.lock p f) hp rfl) (by rintro ⟨⟩)
  | unlocked d k f hd => exact iff_of_false (hcode (u := s.unlock p f) hp rfl) (by rintro ⟨⟩)
  | forked k =>
    exact iff_of_false (hcode (u := { s with procs := s.procs ++ [_] }) (concat_of_some hp) rfl)
      (by rintro ⟨⟩)
  | closed d k f hd => exact iff_of_false (hcode (u := s.unlock p f) hp rfl) (by rintro ⟨⟩)
  | replaced argv k =>
    rw [runs_iff (procs_put_self hp)]
    show true = true ∧ isFor x path = true ↔ (if isFor x path then _ else _) = some _
    split
    · next h => exact iff_of_true ⟨rfl, h⟩ rfl
    · next h => exact iff_of_false (fun h' => h h'.2) (by rintro ⟨⟩)
  | waited c k child status hc hended hparent =>
    have hpc : p ≠ c := Nat.ne_of_lt (hs.parent c child p hc hparent)
    exact iff_of_false (hcode ((procs_put_ne hpc).trans hp) rfl) (by rintro ⟨⟩)
  | printed text k =>
    exact iff_of_false (hcode (u := { s with stderr := s.stderr ++ [(p, text)] }) hp rfl)
      (by rintro ⟨⟩)

/-- Which commands are run after a step: those that were, less the one that is seen to end, and the
one that is seen to begin. -/
theorem runs_step (hs : Sound s) (h : Move m s a t) :
    Runs t q path ↔ see m path s a = some (.enters q) ∨
      (Runs s q path ∧ see m path s a ≠ some (.leaves q)) := by
  have hnot : ∀ {e}, see m path s a = some e → a.actor ≠ some q → e ≠ .enters q ∧ e ≠ .leaves q := by
    intro e he ha
    obtain ⟨p, hp, hcase⟩ := see_actor he
    rw [hp] at ha
    constructor <;> rintro rfl <;> rcases hcase with hcase | hcase <;> cases hcase <;> exact ha rfl
  by_cases ha : a.actor = some q
  · cases h with
    | exits p fd x prog code hp himage hview =>
      cases ha
      have hsee : see m path s (.succeeds q fd) = none := by
        rw [see, hp, pending_eq_none hp himage hview]
        rfl
      rw [hsee]
      refine iff_of_false (not_runs_terminate hp _) ?_
      rintro (h | ⟨h, -⟩)
      · cases h
      · exact not_runs hp (by rw [isCommand, himage]) h
    | aborts p fd x prog hp himage hview =>
      cases ha
      have hsee : see m path s (.succeeds q fd) = none := by
        rw [see, hp, pending_eq_none hp himage hview]
        rfl
      rw [hsee]
      refine iff_of_false (not_runs_terminate hp _) ?_
      rintro (h | ⟨h, -⟩)
      · cases h
      · exact not_runs hp (by rw [isCommand, himage]) h
    | succeeds p fd x prog c k t hp himage hview hcall =>
      cases ha
      rw [runs_called hs hp himage hview hcall]
      refine ⟨Or.inl, ?_⟩
      rintro (h | ⟨h, -⟩)
      · exact h
      · exact absurd h (not_runs hp (by rw [isCommand, himage]))
    | fails p errno x prog c k hp himage hview =>
      cases ha
      refine iff_of_false (not_runs (procs_put_self hp) rfl) ?_
      rintro (h | ⟨h, -⟩)
      · cases h
      · exact not_runs hp (by rw [isCommand, himage]) h
    | ends p code x argv hp himage =>
      cases ha
      exact see_over hp rfl (not_runs_terminate hp _)
    | killed p signal x hp halive =>
      cases ha
      exact see_over hp rfl (not_runs_terminate hp _)
    | started args => cases ha
    | removed path => cases ha
  · rw [runs_other hs h ha]
    refine ⟨fun hr => Or.inr ⟨hr, fun he => (hnot he ha).2 rfl⟩, ?_⟩
    rintro (he | ⟨hr, -⟩)
    · exact absurd rfl (hnot he ha).1
    · exact hr

end See

/-! ## The simulation -/

variable {s t : State Stage} {p q : Pid} {a : Action} {path : String}

/-- Who is in the section is the process that runs a command of the lock file. -/
def Inside (path : String) (s : State Stage) (holder : Option Pid) : Prop :=
  ∀ p, holder = some p ↔ Runs s p path

/-- A step in order is matched by the mutex. -/
theorem inside_step {holder : Option Pid} (h : InOrder path s) (hin : Inside path s holder)
    (hord : Orderly stages path s a) (hstep : Kernel.step stages s a = some t) :
    ∃ holder', run Mutex.step holder (see stages path s a).toList = some holder' ∧
      Inside path t holder' := by
  have h' := h.step hord hstep
  have hruns : ∀ q, Runs t q path ↔ _ := fun q => runs_step h.invariant.sound (step_move hstep)
  cases hsee : see stages path s a with
  | none =>
    refine ⟨holder, rfl, fun q => ?_⟩
    rw [hin q, hruns q, hsee]
    exact ⟨fun hr => Or.inr ⟨hr, by rintro ⟨⟩⟩, by rintro (⟨⟨⟩⟩ | ⟨hr, -⟩); exact hr⟩
  | some e =>
    obtain ⟨p, ha, rfl | rfl⟩ := see_actor hsee
    · -- A command begins, and it is alone: nobody was inside.
      have hp : Runs t p path := (hruns p).mpr (Or.inl hsee)
      have hempty : holder = none := by
        cases hholder : holder with
        | none => rfl
        | some q =>
          exfalso
          have hq := (hin q).mp hholder
          have hqt : Runs t q path := (hruns q).mpr (Or.inr ⟨hq, by rw [hsee]; rintro ⟨⟩⟩)
          obtain rfl := h'.exclusive hqt hp
          exact see_enters hsee hq
      refine ⟨some p, by rw [hempty]; rfl, fun q => ?_⟩
      constructor
      · rintro ⟨⟩
        exact hp
      · intro hq
        rw [h'.exclusive hq hp]
    · -- A command ends: it was the one inside.
      have hp : Runs s p path := see_leaves hsee
      have hholder := (hin p).mpr hp
      refine ⟨none, ?_, fun q => ?_⟩
      · rw [hholder]
        exact run_cons_eq_some.mpr ⟨none, if_pos rfl, rfl⟩
      · refine iff_of_false (by rintro ⟨⟩) ?_
        intro hq
        rcases (hruns q).mp hq with he | ⟨hq, hne⟩
        · rw [hsee] at he
          cases he
        · obtain rfl := h.exclusive hq hp
          exact hne hsee

/-- What is seen is the same for the programs and for their stages. -/
theorem see_map (path : String) (s : State Stage) (a : Action) :
    see locker path (s.map Stage.code) a = see stages path s a := by
  have hcommand : ∀ x : Proc Stage, isCommand (x.map Stage.code) = isCommand x := by
    rintro ⟨parent, args, fds, prog | argv | ⟨status, reaped⟩⟩ <;> rfl
  cases a with
  | succeeds p fd =>
    rw [see, see, map_procs, stages_locker.pending]
    cases s.procs[p]? <;> rfl
  | ends p code =>
    rw [see, see, map_procs]
    cases s.procs[p]? with
    | none => rfl
    | some x => exact congrArg (fun b => if b && isFor x path then _ else _) (hcommand x)
  | killed p signal =>
    rw [see, see, map_procs]
    cases s.procs[p]? with
    | none => rfl
    | some x => exact congrArg (fun b => if b && isFor x path then _ else _) (hcommand x)
  | fails | started | removed => rfl

/-- In every run that leaves the lockers in order, the commands of a lock file are run one after the
other: what is seen of them are whole runs, each begun and ended by one process, and at most one that
still goes on. -/
theorem commands_serial {s t : State Program} {as : List Action} (hfresh : Fresh s)
    (hord : Along (step locker) (Orderly locker path) s as)
    (hrun : run (step locker) s as = some t) :
    Mutex.Serial (observed (step locker) (see locker path) s as) := by
  obtain ⟨u, v, hu, rfl, hrun', rfl⟩ := exists_stages hfresh hrun
  have hord' := (along_map stages_locker.step (orderly_map path)).mp hord
  have hstart : InOrder path u ∧ Inside path u none := by
    refine ⟨.of_fresh hu, fun p => iff_of_false (by rintro ⟨⟩) ?_⟩
    rintro ⟨x, argv, hp, -⟩
    rw [hu.procs] at hp
    cases hp
  obtain ⟨holder, hmutex, -⟩ := run_follows Mutex.step
    (fun s holder => InOrder path s ∧ Inside path s holder)
    (fun s holder a t h hord hstep => by
      obtain ⟨holder', hnext, hin⟩ := inside_step h.1 h.2 hord hstep
      exact ⟨holder', hnext, h.1.step hord hstep, hin⟩) hrun' hord' hstart
  rw [observed_map stages_locker.step (see_map path)]
  refine (Mutex.run_isSome_iff _).mp ?_
  rw [hmutex]
  rfl

/-- The commands of two lockers, as they are seen. -/
theorem commands_serial_two :
    observed (step locker) (see locker "lock") idle
        (meeting ++ begins 0 2 ++ completes 0 2 0 ++ begins 1 3) =
      [.enters 2, .leaves 2, .enters 3] ∧
    Mutex.Serial (observed (step locker) (see locker "lock") idle
      (meeting ++ begins 0 2 ++ completes 0 2 0 ++ begins 1 3)) :=
  ⟨rfl, commands_serial idle_fresh (along_orderly rfl) rfl⟩

end Sysdeps
