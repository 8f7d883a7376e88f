import CStringVerified.Sysdeps.Stages

/-!
# What holds of lockers in every run

`Placed` says, stage by stage, what a locker at that stage has: its descriptor, its lock, its child.
`Invariant` says it of all processes at once, and that nobody has two children; every step of every
interleaving keeps it (`Invariant.step`), whatever fails and whoever is killed.
-/

namespace Sysdeps

open Foundation Foundation.Kernel

variable {s t : State Stage} {p q : Pid} {x y : Proc Stage} {a : Action}

/-- A started locker with its job. -/
structure Works (x : Proc Stage) (j : Job) : Prop where
  parent : x.parent = none
  args : Stage.start x.args = .opening j

/-- A forked copy of a locker with its job. -/
structure Helps (x : Proc Stage) (j : Job) : Prop where
  parent : x.parent ≠ none
  args : Stage.start x.args = .opening j

/-- Nobody has this parent. -/
def Childless (s : State Stage) (p : Pid) : Prop :=
  ∀ (c : Pid) (child : Proc Stage), s.procs[c]? = some child → child.parent ≠ some p

/-- The process has the lock on the file that it has open. -/
def Holds (s : State Stage) (p : Pid) (x : Proc Stage) (fd : Descriptor) : Prop :=
  ∃ f, x.fds fd.1 = some f ∧ s.owner f = some p

/-- The exit code is that of a child that has ended. -/
def Result (s : State Stage) (p : Pid) (exitCode : Int) : Prop :=
  ∃ (c : Pid) (child : Proc Stage) (status : Nat), s.procs[c]? = some child ∧
    child.parent = some p ∧ child.image = .ended status true ∧ exitCode = WEXITSTATUS status

/-- What a process has at a stage. -/
def Placed (s : State Stage) (p : Pid) (x : Proc Stage) : Stage → Prop
  | .opening j => Works x j ∧ Childless s p ∧ (∀ d, x.fds d = none) ∧ ∀ f, s.owner f ≠ some p
  | .acquiring j fd =>
    Works x j ∧ Childless s p ∧ (∃ f, x.fds fd.1 = some f) ∧ ∀ f, s.owner f ≠ some p
  | .forking j fd => Works x j ∧ Childless s p ∧ Holds s p x fd
  | .waiting j fd pid => Works x j ∧ Holds s p x fd ∧
    ∃ (c : Pid) (child : Proc Stage), pid = pidOf c ∧ s.procs[c]? = some child ∧
      child.parent = some p ∧ ∀ status, child.image ≠ .ended status true
  | .releasing j fd exitCode => Works x j ∧ Holds s p x fd ∧ Result s p exitCode
  | .closing j fd exitCode => Works x j ∧ (∃ f, x.fds fd.1 = some f) ∧ Result s p exitCode
  | .returning exitCode => x.parent = none ∧ Result s p exitCode
  | .childClosing j fd => Helps x j ∧ ∃ f, x.fds fd.1 = some f
  | .executing j _ => Helps x j
  | .reporting _ | .failed => True

/-- What a process has. -/
def Sane (s : State Stage) (p : Pid) (x : Proc Stage) : Prop :=
  match x.image with
  | .code st => Placed s p x st
  | .command argv => ∃ j, Helps x j ∧ argv = j.command
  | .ended _ _ => True

/-- What holds in every run of lockers. -/
structure Invariant (s : State Stage) : Prop where
  sound : Sound s
  sane : ∀ (p : Pid) (x : Proc Stage), s.procs[p]? = some x → Sane s p x
  single : ∀ (c c' : Pid) (x y : Proc Stage) (p : Pid), s.procs[c]? = some x →
    s.procs[c']? = some y → x.parent = some p → y.parent = some p → c = c'

theorem Invariant.of_fresh (h : Fresh s) : Invariant s where
  sound := h.sound
  sane p x hp := by rw [h.procs] at hp; cases hp
  single c c' x y p hc := by rw [h.procs] at hc; cases hc

/-- A process at a stage. -/
theorem Invariant.placed (h : Invariant s) (hp : s.procs[p]? = some x) {st : Stage}
    (himage : x.image = .code st) : Placed s p x st := by
  have := h.sane p x hp
  rwa [Sane, himage] at this

/-- The arguments that a job comes from name its lock file. -/
theorem start_opening {args : List String} {j : Job} (h : Stage.start args = .opening j) :
    args[2]? = some j.lockFile := by
  match args with
  | _ :: id :: lockFile :: command :: arguments =>
    cases h
    rfl
  | [] | [_] | [_, _] | [_, _, _] => cases h

/-! ## Steps of others -/

/-- Nobody gets a child from what others do. -/
theorem Childless.other (h : Childless s p) (hs : Sound s) (hmove : Move stages s a t)
    (ha : a.actor ≠ some p) : Childless t p := by
  intro c child hc hparent
  cases hold : s.procs[c]? with
  | some x =>
    obtain ⟨y, hy, hlater⟩ := hmove.later hs hold
    rw [hc] at hy
    cases hy
    exact h c x hold (hlater.parent.symm.trans hparent)
  | none =>
    obtain ⟨-, ⟨args, -, rfl⟩ | ⟨p', fd, proc, prog, k, rfl, -, -, -, rfl⟩⟩ :=
      hmove.newcomer hc hold
    · cases hparent
    · cases hparent
      exact ha rfl

/-- A child whose end was noticed stays as it is. -/
theorem Result.later {exitCode : Int} (h : Result s p exitCode) (hs : Sound s)
    (hmove : Move stages s a t) : Result t p exitCode := by
  obtain ⟨c, child, status, hc, hparent, himage, hcode⟩ := h
  obtain ⟨y, hy, hlater⟩ := hmove.later hs hc
  obtain rfl := hlater.reaped status himage
  exact ⟨c, _, status, hy, hparent, himage, hcode⟩

/-- What a process has at its stage, it still has after what others do. -/
theorem Placed.other {st : Stage} (h : Placed s p x st) (hs : Sound s) (hmove : Move stages s a t)
    (ha : a.actor ≠ some p) : Placed t p x st := by
  have hlocks : ∀ f, t.owner f = some p ↔ s.owner f = some p := hmove.owner ha
  have hholds : ∀ {fd}, Holds s p x fd → Holds t p x fd := by
    rintro fd ⟨f, hf, howner⟩
    exact ⟨f, hf, (hlocks f).mpr howner⟩
  have hnone : (∀ f, s.owner f ≠ some p) → ∀ f, t.owner f ≠ some p :=
    fun hno f hf => hno f ((hlocks f).mp hf)
  cases st with
  | opening j => exact ⟨h.1, h.2.1.other hs hmove ha, h.2.2.1, hnone h.2.2.2⟩
  | acquiring j fd => exact ⟨h.1, h.2.1.other hs hmove ha, h.2.2.1, hnone h.2.2.2⟩
  | forking j fd => exact ⟨h.1, h.2.1.other hs hmove ha, hholds h.2.2⟩
  | childClosing j fd => exact h
  | executing j fd => exact h
  | waiting j fd pid =>
    obtain ⟨hworks, hfd, c, child, hpid, hc, hparent, himage⟩ := h
    obtain ⟨child', hc', hparent', himage'⟩ := hmove.child hs ha hc hparent himage
    exact ⟨hworks, hholds hfd, c, child', hpid, hc', hparent', himage'⟩
  | releasing j fd exitCode => exact ⟨h.1, hholds h.2.1, h.2.2.later hs hmove⟩
  | closing j fd exitCode => exact ⟨h.1, h.2.1, h.2.2.later hs hmove⟩
  | returning exitCode => exact ⟨h.1, h.2.later hs hmove⟩
  | reporting text => trivial
  | failed => trivial

/-! ## Steps of a process itself -/

/-- A stage after a call that failed. -/
theorem placed_failure {st : Stage} {c : Sys} {k : Reply → Stage} (hview : stages.view st = .inr (c, k))
    (errno : String) : Placed t p x (k { value := -1, errno := errno }) := by
  cases st with
  | returning | failed => cases hview
  | opening | acquiring | forking | childClosing | executing | waiting | releasing | closing
  | reporting =>
    cases hview
    trivial

/-- A stage after a call that succeeded. -/
theorem orFatal_of_ne {j : Job} {message : String} {r : Reply} {next : Stage} (h : r.value ≠ -1) :
    Stage.orFatal j message r next = next := if_neg h

/-- Nobody gets a child from a change to an entry whose parent stays. -/
theorem Childless.put (h : Childless s p) (hq : s.procs[q]? = some x) (hparent : y.parent = x.parent) :
    Childless (s.put q y) p := by
  intro c child hc
  rcases procs_put_cases hc with ⟨rfl, rfl⟩ | ⟨-, hc⟩
  · rw [hparent]
    exact h c x hq
  · exact h c child hc

/-- A process after a call that succeeded. -/
theorem sane_success (h : Invariant s) (hp : s.procs[p]? = some x) {st : Stage}
    (himage : x.image = .code st) {c : Sys} {k : Reply → Stage} (hview : stages.view st = .inr (c, k))
    {fd : Nat} (hcall : Called s p x fd c k t) (hy : t.procs[p]? = some y) : Sane t p y := by
  have hplaced := h.placed hp himage
  have hmove : Move stages s (.succeeds p fd) t := .succeeds p fd x st c k t hp himage hview hcall
  cases st with
  | returning | failed => cases hview
  | opening j =>
    cases hview
    cases hcall with
    | opened path k hfree =>
      obtain ⟨hworks, hchild, -, hlocks⟩ := hplaced
      rw [← create_procs s j.lockFile] at hp
      rw [procs_put_self hp] at hy
      cases hy
      have hfd : ({ value := fd } : Reply).value ≠ -1 := by
        show (fd : Int) ≠ -1
        omega
      have hchild' : Childless (s.create j.lockFile) p := by
        intro c child hc
        rw [create_procs] at hc
        exact hchild c child hc
      simp only [Sane, dif_neg hfd]
      refine ⟨⟨hworks.parent, hworks.args⟩, hchild'.put hp rfl, ⟨_, Function.update_self _ _ _⟩, ?_⟩
      intro f
      rw [put_owner, create_owner]
      exact hlocks f
  | acquiring j fd' =>
    cases hview
    cases hcall with
    | locked d k f hd hfree =>
      obtain ⟨hworks, hchild, -, -⟩ := hplaced
      rw [procs_put_self (s := s.lock p f) hp] at hy
      cases hy
      show Placed _ p _ (.forking j fd')
      refine ⟨⟨hworks.parent, hworks.args⟩, Childless.put (s := s.lock p f) hchild hp rfl, f, hd, ?_⟩
      rw [put_owner, owner_lock, if_pos rfl]
  | forking j fd' =>
    cases hview
    cases hcall with
    | forked k =>
      obtain ⟨hworks, hchild, f, hf, howner⟩ := hplaced
      rw [procs_put_self (s := { s with procs := s.procs ++ [_] }) (concat_of_some hp)] at hy
      cases hy
      have hpos := pidOf_pos s.procs.length
      have hne : ({ value := pidOf s.procs.length } : Reply).value ≠ -1 := by
        show pidOf s.procs.length ≠ -1
        omega
      have hne0 : ({ value := pidOf s.procs.length } : Reply).value ≠ 0 := by
        show pidOf s.procs.length ≠ 0
        omega
      have hlt := (List.getElem?_eq_some_iff.mp hp).1
      simp only [Sane, Proc.goOn, orFatal_of_ne hne, if_neg hne0]
      refine ⟨⟨hworks.parent, hworks.args⟩, ⟨f, hf, howner⟩, s.procs.length, _, rfl, 
        (procs_put_ne (Nat.ne_of_gt hlt)).trans List.getElem?_concat_length, rfl, ?_⟩
      rintro status ⟨⟩
  | childClosing j fd' =>
    cases hview
    cases hcall with
    | closed d k f hd =>
      obtain ⟨hhelps, -⟩ := hplaced
      rw [procs_put_self (s := s.unlock p f) hp] at hy
      cases hy
      show Helps _ j
      exact ⟨hhelps.parent, hhelps.args⟩
  | executing j fd' =>
    cases hview
    cases hcall with
    | replaced argv k =>
      rw [procs_put_self hp] at hy
      cases hy
      exact ⟨j, ⟨hplaced.parent, hplaced.args⟩, rfl⟩
  | waiting j fd' pid =>
    obtain ⟨hworks, ⟨f, hf, howner⟩, -⟩ := hplaced
    simp only [stages, Stage.view] at hview
    cases hview
    cases hcall with
    | waited c k child status hc hended hparent =>
      have hpc : p ≠ c := Nat.ne_of_lt (h.sound.parent c child p hc hparent)
      rw [procs_put_self ((procs_put_ne hpc).trans hp)] at hy
      cases hy
      have hne : ({ value := pidOf c, status := status } : Reply).value ≠ -1 := by
        have := pidOf_pos c
        show pidOf c ≠ -1
        omega
      simp only [Sane, Proc.goOn, orFatal_of_ne hne]
      exact ⟨⟨hworks.parent, hworks.args⟩, ⟨f, hf, howner⟩, c, _, status,
        (procs_put_ne (Ne.symm hpc)).trans (procs_put_self hc), hparent, rfl, rfl⟩
  | releasing j fd' exitCode =>
    obtain ⟨hworks, ⟨f, hf, -⟩, hresult⟩ := hplaced
    have hresult' := hresult.later h.sound hmove
    cases hview
    cases hcall with
    | unlocked d k g hd =>
      rw [procs_put_self (s := s.unlock p g) hp] at hy
      cases hy
      show Placed _ p _ (.closing j fd' exitCode)
      exact ⟨⟨hworks.parent, hworks.args⟩, ⟨f, hf⟩, hresult'⟩
  | closing j fd' exitCode =>
    obtain ⟨hworks, -, hresult⟩ := hplaced
    have hresult' := hresult.later h.sound hmove
    cases hview
    cases hcall with
    | closed d k g hd =>
      rw [procs_put_self (s := s.unlock p g) hp] at hy
      cases hy
      show Placed _ p _ (.returning exitCode)
      exact ⟨hworks.parent, hresult'⟩
  | reporting text =>
    cases hview
    cases hcall with
    | printed text k =>
      rw [procs_put_self (s := { s with stderr := s.stderr ++ [(p, text)] }) hp] at hy
      cases hy
      trivial

/-- A locker starts with its job, or with the usage message. -/
theorem start_cases (args : List String) :
    (∃ j, Stage.start args = .opening j) ∨ Stage.start args = .reporting usageText := by
  match args with
  | _ :: id :: lockFile :: command :: arguments => exact Or.inl ⟨_, rfl⟩
  | [] | [_] | [_, _] | [_, _, _] => exact Or.inr rfl

/-- A process that has just been added. -/
theorem sane_newcomer (h : Invariant s) (ht : Sound t) (hmove : Move stages s a t)
    (hy : t.procs[q]? = some y) (hnew : s.procs[q]? = none) : Sane t q y := by
  obtain ⟨rfl, ⟨args, rfl, rfl⟩ | ⟨p, fd, x, st, k, rfl, hp, himage, hview, rfl⟩⟩ :=
    hmove.newcomer hy hnew
  · rcases start_cases args with ⟨j, hstart⟩ | hstart
    · simp only [Sane, stages, hstart]
      refine ⟨⟨rfl, hstart⟩, ?_, fun d => rfl, ?_⟩
      · intro c child hc hparent
        have hlt := ht.parent c child _ hc hparent
        have hc' := (List.getElem?_eq_some_iff.mp hc).1
        cases hmove
        rw [List.length_append, List.length_singleton] at hc'
        exact absurd (Nat.lt_succ_iff.mp hc') (Nat.not_le_of_lt hlt)
      · intro f hf
        have hs : s.owner f = some s.procs.length := (hmove.owner (by rintro ⟨⟩) f).mp hf
        obtain ⟨z, d, hz, -⟩ := h.sound.owner f _ hs
        rw [hnew] at hz
        cases hz
    · simp only [Sane, stages, hstart]
      trivial
  · have hplaced := h.placed hp himage
    cases st with
    | forking j fd' =>
      cases hview
      obtain ⟨hworks, -, f, hf, -⟩ := hplaced
      exact ⟨⟨by rintro ⟨⟩, hworks.args⟩, f, hf⟩
    | opening | acquiring | childClosing | executing | waiting | releasing | closing | returning
    | reporting | failed => cases hview

/-- What a process has after a step. -/
theorem Invariant.sane_step (h : Invariant s) (ht : Sound t) (hmove : Move stages s a t)
    (hy : t.procs[q]? = some y) : Sane t q y := by
  cases hold : s.procs[q]? with
  | none => exact sane_newcomer h ht hmove hy hold
  | some x =>
    obtain ⟨y', hy', hlater⟩ := hmove.later h.sound hold
    rw [hy] at hy'
    cases hy'
    by_cases ha : a.actor = some q
    · have hover : ∀ {u : State Stage} {p : Pid} {z : Proc Stage} {status : Nat},
          some p = some q → u.procs[p]? = some z → ((u.unlockAll p).put p (z.finished status)).procs[q]? =
          some y → Sane t q y := by
        rintro u p z status ⟨⟩ hz hy
        rw [procs_put_self (s := u.unlockAll q) hz] at hy
        cases hy
        trivial
      cases hmove with
      | exits p fd z st code hp himage hview => exact hover ha hp hy
      | aborts p fd z st hp himage hview => exact hover ha hp hy
      | succeeds p fd z st c k t hp himage hview hcall =>
        cases ha
        exact sane_success h hp himage hview hcall hy
      | fails p errno z st c k hp himage hview =>
        cases ha
        rw [procs_put_self hp] at hy
        cases hy
        exact placed_failure hview errno
      | ends p code z argv hp himage => exact hover ha hp hy
      | killed p signal z hp halive => exact hover ha hp hy
      | started args => cases ha
      | removed path => cases ha
    · rcases hlater.other ha with rfl | ⟨status, -, rfl, -⟩
      · have hsane := h.sane q y hold
        rw [Sane] at hsane ⊢
        split
        · next st himage =>
          rw [himage] at hsane
          exact Placed.other hsane h.sound hmove ha
        · next argv himage =>
          rw [himage] at hsane
          exact hsane
        · trivial
      · trivial

/-- Nobody gets a second child. -/
theorem Invariant.single_step (h : Invariant s) (hmove : Move stages s a t) {c c' : Pid}
    (hx : t.procs[c]? = some x) (hy : t.procs[c']? = some y) (hparent : x.parent = some p)
    (hparent' : y.parent = some p) : c = c' := by
  have hold : ∀ {c : Pid} {x y : Proc Stage}, s.procs[c]? = some x → t.procs[c]? = some y →
      y.parent = x.parent := by
    intro c x y hc hc'
    obtain ⟨y', hy', hlater⟩ := hmove.later h.sound hc
    rw [hc'] at hy'
    cases hy'
    exact hlater.parent
  -- A child that is new is that of a process at `fork`, which has none.
  have hnew : ∀ {c : Pid} {x : Proc Stage}, t.procs[c]? = some x → s.procs[c]? = none →
      x.parent = some p → c = s.procs.length ∧ Childless s p := by
    intro c x hc hnone hparent
    obtain ⟨rfl, ⟨args, -, rfl⟩ | ⟨p', fd, z, st, k, -, hp, himage, hview, rfl⟩⟩ :=
      hmove.newcomer hc hnone
    · cases hparent
    · cases hparent
      have hplaced := h.placed hp himage
      cases st with
      | forking j fd' => exact ⟨rfl, hplaced.2.1⟩
      | opening | acquiring | childClosing | executing | waiting | releasing | closing | returning
      | reporting | failed => cases hview
  cases hc : s.procs[c]? with
  | none =>
    obtain ⟨hlen, hchild⟩ := hnew hx hc hparent
    cases hc' : s.procs[c']? with
    | none => exact hlen.trans (hnew hy hc' hparent').1.symm
    | some z => exact absurd ((hold hc' hy).symm.trans hparent') (hchild c' z hc')
  | some w =>
    cases hc' : s.procs[c']? with
    | none => exact absurd ((hold hc hx).symm.trans hparent) ((hnew hy hc' hparent').2 c w hc)
    | some z =>
      exact h.single c c' w z p hc hc' ((hold hc hx).symm.trans hparent)
        ((hold hc' hy).symm.trans hparent')

/-- Every step of every process keeps the invariant. -/
theorem Invariant.step (h : Invariant s) (hstep : step stages s a = some t) : Invariant t where
  sound := h.sound.step hstep
  sane _ _ hp := h.sane_step (h.sound.step hstep) (step_move hstep) hp
  single _ _ _ _ _ hx hy hp hp' := h.single_step (step_move hstep) hx hy hp hp'

/-- The invariant holds wherever a run leads. -/
theorem Invariant.run (h : Invariant s) {as : List Action}
    (hrun : Foundation.run (Kernel.step stages) s as = some t) : Invariant t :=
  run_inv (fun _ _ _ hs hstep => Invariant.step hs hstep) hrun h

/-! ## Two lockers of one file -/

/-- Nothing was started, and there are no files. -/
def idle : State Program :=
  { files := fun _ => none, made := 0, owner := fun _ => none, procs := [], stderr := [] }

theorem idle_fresh : Fresh idle where
  files _ _ h := nomatch h
  owner _ := rfl
  procs := rfl
  stderr := rfl

/-- Two lockers are started, and both open the lock file. -/
def meeting : List Action :=
  [.started ["sd-locker", "1", "lock", "cc"], .started ["sd-locker", "2", "lock", "ld"],
    .succeeds 0 3, .succeeds 1 3]

/-- The locker `l` takes the lock, and its child `c` comes to its command. -/
def begins (l c : Pid) : List Action := [.succeeds l 0, .succeeds l 0, .succeeds c 0, .succeeds c 0]

/-- The command of the child `c` ends with a code, and the locker `l` comes to its end. -/
def completes (l c : Pid) (code : Int) : List Action :=
  [.ends c code, .succeeds l 0, .succeeds l 0, .succeeds l 0, .succeeds l 0]

end Sysdeps
