import CStringVerified.Sysdeps.Proofs.LockerInvariantProofs

/-!
# One command at a time

A locker is to keep the commands of one lock file apart. It does, in every interleaving of any
number of lockers, as long as the lockers themselves are left alone: a locker that is killed, or
whose `waitpid` fails, drops its lock while its command goes on, and a lock file that was removed is
made anew by the next locker, which then locks another file.
-/

namespace Sysdeps

open Foundation Foundation.Kernel

section Conditions

variable {P : Type}

/-- The action leaves the lockers of a lock file in order: nobody kills a locker (its command may be
killed), no `waitpid` fails, nobody removes the file. -/
def Orderly (m : Machine P) (path : String) (s : State P) : Action → Prop
  | .killed p _ => ∀ proc, s.procs[p]? = some proc → proc.parent ≠ none
  | .fails p _ => ∀ pid, pending m s p ≠ some (.waitpid pid)
  | .removed other => other ≠ path
  | .succeeds _ _ | .ends _ _ | .started _ => True

/-- The process runs a command that was to be run under the lock of a file. -/
def Runs (s : State P) (p : Pid) (path : String) : Prop :=
  ∃ proc argv, s.procs[p]? = some proc ∧ proc.image = .command argv ∧ proc.args[2]? = some path

end Conditions

variable {s t : State Stage} {p q : Pid} {x y : Proc Stage} {a : Action} {path : String}

theorem runs_map (s : State Stage) (p : Pid) (path : String) :
    Runs (s.map Stage.code) p path ↔ Runs s p path := by
  constructor
  · rintro ⟨proc, argv, hp, himage, hpath⟩
    rw [map_procs] at hp
    obtain ⟨⟨parent, args, fds, image⟩, hx, rfl⟩ := Option.map_eq_some_iff.mp hp
    cases image with
    | command argv' => exact ⟨_, argv', hx, rfl, hpath⟩
    | code | ended => cases himage
  · rintro ⟨proc, argv, hp, himage, hpath⟩
    refine ⟨proc.map Stage.code, argv, ?_, ?_, hpath⟩
    · rw [map_procs, hp]
      rfl
    · rw [Proc.map, himage]
      rfl

theorem orderly_map (path : String) (s : State Stage) (a : Action) :
    Orderly locker path (s.map Stage.code) a ↔ Orderly stages path s a := by
  cases a with
  | killed p signal =>
    rw [Orderly, Orderly, map_procs]
    constructor
    · intro h proc hp
      rw [hp] at h
      exact h (proc.map Stage.code) rfl
    · intro h proc hp
      obtain ⟨x, hx, rfl⟩ := Option.map_eq_some_iff.mp hp
      exact h x hx
  | fails p errno => rw [Orderly, Orderly, stages_locker.pending]
  | succeeds | ends | started | removed => exact Iff.rfl

/-! ## A command has a locker that waits for it -/

/-- Every child that is not over has a parent that waits for it, with the same arguments. -/
def Linked (s : State Stage) : Prop :=
  ∀ (c : Pid) (x : Proc Stage) (q : Pid), s.procs[c]? = some x → x.parent = some q →
    (∀ status reaped, x.image ≠ .ended status reaped) →
    ∃ (y : Proc Stage) (j : Job) (fd : Descriptor), s.procs[q]? = some y ∧
      y.image = .code (.waiting j fd (pidOf c)) ∧ y.args = x.args

/-- A locker that waits goes on waiting, in order, while its child is not over. -/
theorem Linked.stays (hinv : Invariant s) (hmove : Move stages s a t) (hord : Orderly stages path s a)
    {c : Pid} {j : Job} {fd : Descriptor} (hc : s.procs[c]? = some x)
    (halive : ∀ status reaped, x.image ≠ .ended status reaped)
    (hq : s.procs[q]? = some y) (hwaits : y.image = .code (.waiting j fd (pidOf c))) :
    t.procs[q]? = some y := by
  have hworks := (hinv.placed hq hwaits).1
  obtain ⟨y', hy', hlater⟩ := hmove.later hinv.sound hq
  by_cases ha : a.actor = some q
  · exfalso
    cases hmove with
    | exits p fd z st code hp himage hview =>
      cases ha
      rw [hq] at hp
      cases hp
      rw [hwaits] at himage
      cases himage
      cases hview
    | aborts p fd z st hp himage hview =>
      cases ha
      rw [hq] at hp
      cases hp
      rw [hwaits] at himage
      cases himage
      cases hview
    | succeeds p fd z st c' k t hp himage hview hcall =>
      cases ha
      rw [hq] at hp
      cases hp
      rw [hwaits] at himage
      cases himage
      simp only [stages, Stage.view] at hview
      cases hview
      generalize hpid : pidOf c = pid at hcall
      cases hcall with
      | waited c' k child status hc' hended hparent =>
        obtain rfl : c = c' := pidOf_inj hpid
        rw [hc] at hc'
        cases hc'
        exact halive status false hended
    | fails p errno z st c' k hp himage hview =>
      cases ha
      rw [hq] at hp
      cases hp
      refine hord (pidOf c) (pending_eq hq hwaits rfl)
    | ends p code z argv hp himage =>
      cases ha
      rw [hq] at hp
      cases hp
      rw [hwaits] at himage
      cases himage
    | killed p signal z hp hz =>
      cases ha
      exact hord y hq hworks.parent
    | started args => cases ha
    | removed path => cases ha
  · rcases hlater.other ha with rfl | ⟨status, himage, -, -⟩
    · exact hy'
    · rw [hwaits] at himage
      cases himage

/-- Steps in order keep every child linked to its parent. -/
theorem Linked.step (h : Linked s) (hinv : Invariant s) (hmove : Move stages s a t)
    (hord : Orderly stages path s a) : Linked t := by
  intro c x' q hc' hparent halive'
  cases hc : s.procs[c]? with
  | some x =>
    obtain ⟨y, hy, hlater⟩ := hmove.later hinv.sound hc
    rw [hc'] at hy
    cases hy
    have halive : ∀ status reaped, x.image ≠ .ended status reaped := by
      intro status reaped himage
      obtain ⟨reaped', himage'⟩ := hlater.finished status reaped himage
      exact halive' status reaped' himage'
    obtain ⟨z, j, fd, hq, hwaits, hargs⟩ := h c x q hc (hlater.parent.symm.trans hparent) halive
    exact ⟨z, j, fd, Linked.stays hinv hmove hord hc halive hq hwaits, hwaits,
      hargs.trans hlater.args.symm⟩
  | none =>
    obtain ⟨rfl, ⟨args, -, rfl⟩ | ⟨p, fd, z, st, k, rfl, hp, himage, hview, rfl⟩⟩ :=
      hmove.newcomer hc' hc
    · cases hparent
    · cases hparent
      cases st with
      | forking j fd' =>
        cases hview
        cases hmove with
        | exits _ _ z' st' code hp' himage' hview' | aborts _ _ z' st' hp' himage' hview' =>
          rw [hp] at hp'
          cases hp'
          rw [himage] at himage'
          cases himage'
          cases hview'
        | succeeds _ _ z' st' c' k' _ hp' himage' hview' hcall =>
          rw [hp] at hp'
          cases hp'
          rw [himage] at himage'
          cases himage'
          cases hview'
          cases hcall with
          | forked k =>
            have hpos := pidOf_pos s.procs.length
            have hne : ({ value := pidOf s.procs.length } : Reply).value ≠ -1 := by
              show pidOf s.procs.length ≠ -1
              omega
            have hne0 : ({ value := pidOf s.procs.length } : Reply).value ≠ 0 := by
              show pidOf s.procs.length ≠ 0
              omega
            refine ⟨_, j, fd', procs_put_self (s := { s with procs := s.procs ++ [_] })
              (concat_of_some hp), ?_, rfl⟩
            simp only [Proc.goOn, orFatal_of_ne hne, if_neg hne0]
      | opening | acquiring | childClosing | executing | waiting | releasing | closing | returning
      | reporting | failed => cases hview

/-! ## The file that a locker locks -/

/-- Lockers that were started for a lock file have no other file open. -/
def Named (path : String) (s : State Stage) : Prop :=
  ∀ (p : Pid) (x : Proc Stage) (d : Int) (f : File), s.procs[p]? = some x → x.parent = none →
    x.args[2]? = some path → x.fds d = some f → s.files path = some f

/-- The lock file keeps its name unless somebody removes it. -/
theorem Named.step (h : Named path s) (hinv : Invariant s) (hmove : Move stages s a t)
    (hord : Orderly stages path s a) : Named path t := by
  intro p y d f hy hparent hpath hd
  have hkept : a ≠ .removed path := by
    rintro rfl
    exact hord rfl
  cases hp : s.procs[p]? with
  | some x =>
    obtain ⟨y', hy', hlater⟩ := hmove.later hinv.sound hp
    rw [hy] at hy'
    cases hy'
    have hpath' : x.args[2]? = some path := hlater.args ▸ hpath
    rcases hmove.descriptors hp hy hd with hd | ⟨fd, st, other, k, rfl, himage, hview, hf⟩
    · exact hmove.files hkept (h p x d f hp (hlater.parent.symm.trans hparent) hpath' hd)
    · cases st with
      | opening j =>
        cases hview
        have hworks := (hinv.placed hp himage).1
        have hsame := (start_opening hworks.args).symm.trans hpath'
        cases hsame
        exact hf
      | acquiring | forking | childClosing | executing | waiting | releasing | closing | returning
      | reporting | failed => cases hview
  | none =>
    obtain ⟨-, ⟨args, -, rfl⟩ | ⟨p', fd, z, st, k, -, -, -, -, rfl⟩⟩ := hmove.newcomer hy hp
    · cases hd
    · cases hparent

/-! ## The lock keeps commands apart -/

/-- What holds of the lockers of a lock file while they are left in order. -/
structure InOrder (path : String) (s : State Stage) : Prop where
  invariant : Invariant s
  linked : Linked s
  named : Named path s

theorem InOrder.of_fresh (h : Fresh s) : InOrder path s where
  invariant := .of_fresh h
  linked c x q hc := by rw [h.procs] at hc; cases hc
  named p x d f hp := by rw [h.procs] at hp; cases hp

/-- Steps in order keep the lockers in order. -/
theorem InOrder.step (h : InOrder path s) (hord : Orderly stages path s a)
    (hstep : Kernel.step stages s a = some t) : InOrder path t where
  invariant := h.invariant.step hstep
  linked := h.linked.step h.invariant (step_move hstep) hord
  named := h.named.step h.invariant (step_move hstep) hord

/-- While a command is run, the locker that it was forked from has the lock on the lock file. -/
theorem InOrder.holder (h : InOrder path s) (hp : Runs s p path) :
    ∃ (q : Pid) (y : Proc Stage) (j : Job) (fd : Descriptor) (f : File), s.procs[q]? = some y ∧
      y.image = .code (.waiting j fd (pidOf p)) ∧ s.files path = some f ∧ s.owner f = some q := by
  obtain ⟨x, argv, hx, himage, hpath⟩ := hp
  have hsane := h.invariant.sane p x hx
  rw [Sane, himage] at hsane
  obtain ⟨j', hhelps, -⟩ := hsane
  obtain ⟨q, hparent⟩ := Option.ne_none_iff_exists'.mp hhelps.parent
  obtain ⟨y, j, fd, hy, hwaits, hargs⟩ := h.linked p x q hx hparent (by rw [himage]; rintro _ _ ⟨⟩)
  obtain ⟨hworks, ⟨f, hf, howner⟩, -⟩ := h.invariant.placed hy hwaits
  exact ⟨q, y, j, fd, f, hy, hwaits, h.named q y fd.1 f hy hworks.parent (hargs ▸ hpath) hf, howner⟩

/-- Two commands of one lock file are one. -/
theorem InOrder.exclusive (h : InOrder path s) (hp : Runs s p path) (hq : Runs s q path) : p = q := by
  obtain ⟨p', x, j, fd, f, hx, hxwaits, hf, howner⟩ := h.holder hp
  obtain ⟨q', y, j', fd', f', hy, hywaits, hf', howner'⟩ := h.holder hq
  obtain rfl := Option.some.inj (hf.symm.trans hf')
  obtain rfl := Option.some.inj (howner.symm.trans howner')
  obtain rfl := Option.some.inj (hx.symm.trans hy)
  rw [hxwaits] at hywaits
  injection hywaits with hst
  injection hst with hj hfd hpid
  exact pidOf_inj hpid

/-- Runs in order keep the lockers in order. -/
theorem InOrder.run (h : InOrder path s) {as : List Action}
    (hord : Along (Kernel.step stages) (Orderly stages path) s as)
    (hrun : Foundation.run (Kernel.step stages) s as = some t) : InOrder path t :=
  run_inv_of (fun _ _ _ hs hord hstep => InOrder.step hs hord hstep) hrun hord h

/-- The same, said of the programs. -/
theorem exists_inOrder {s t : State Program} {as : List Action} (h : Fresh s)
    (hord : Along (step locker) (Orderly locker path) s as)
    (hrun : run (step locker) s as = some t) :
    ∃ v : State Stage, InOrder path v ∧ v.map Stage.code = t := by
  obtain ⟨u, v, hu, rfl, hrun', rfl⟩ := exists_stages h hrun
  have hord' := (along_map stages_locker.step (orderly_map path)).mp hord
  exact ⟨v, (InOrder.of_fresh hu).run hord' hrun', rfl⟩

/-- Steps of processes that are left to themselves, and new processes, leave everything in order. -/
theorem along_orderly {P : Type} {m : Machine P} {s : State P} {as : List Action}
    (h : as.all Action.calm = true) : Along (step m) (Orderly m path) s as := by
  refine (along_mem s (List.all_eq_true.mp h)).mono ?_
  intro s a ha
  cases a with
  | succeeds | ends | started => trivial
  | fails | killed | removed => cases ha

/-- In every run that leaves the lockers in order, at most one command of a lock file is run at a
time, and while it is, the locker that it was forked from has the lock on that file. -/
theorem command_exclusive {s t : State Program} {as : List Action}
    (hfresh : Fresh s) (hord : Along (step locker) (Orderly locker path) s as)
    (hrun : run (step locker) s as = some t) (hp : Runs t p path) :
    (∀ q, Runs t q path → q = p) ∧
      ∃ x l f, t.procs[p]? = some x ∧ x.parent = some l ∧ t.files path = some f ∧
        t.owner f = some l := by
  obtain ⟨v, hv, rfl⟩ := exists_inOrder hfresh hord hrun
  rw [runs_map] at hp
  refine ⟨fun q hq => hv.exclusive ((runs_map v q path).mp hq) hp, ?_⟩
  obtain ⟨l, y, j, fd, f, hy, hwaits, hf, howner⟩ := hv.holder hp
  obtain ⟨-, -, c, child, hpid, hc, hparent, -⟩ := hv.invariant.placed hy hwaits
  obtain rfl := pidOf_inj hpid
  refine ⟨child.map Stage.code, l, f, ?_, hparent, hf, howner⟩
  rw [map_procs, hc]
  rfl

/-- The command of the first of two lockers, while the second one waits. -/
theorem command_exclusive_two : ∃ t, run (step locker) idle (meeting ++ begins 0 2) = some t ∧
    (∀ q, Runs t q "lock" → q = 2) ∧
      ∃ x l f, t.procs[2]? = some x ∧ x.parent = some l ∧ t.files "lock" = some f ∧
        t.owner f = some l :=
  ⟨_, rfl, command_exclusive idle_fresh (along_orderly rfl)
    (rfl : run (step locker) idle (meeting ++ begins 0 2) = some _) ⟨_, _, rfl, rfl, rfl⟩⟩

-- A locker that is killed lets the next one in while its command goes on.
example : ∃ t, run (step locker) idle (meeting ++ begins 0 2 ++ [.killed 0 9] ++ begins 1 3) = some t ∧
    Runs t 2 "lock" ∧ Runs t 3 "lock" :=
  ⟨_, rfl, ⟨_, _, rfl, rfl, rfl⟩, ⟨_, _, rfl, rfl, rfl⟩⟩

end Sysdeps
