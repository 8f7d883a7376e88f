import CStringVerified.Sysdeps.Proofs.LockerInvariantProofs
import Mathlib.Algebra.Order.BigOperators.Group.List
import Mathlib.Algebra.Order.Ring.Nat
import Mathlib.Data.Nat.Cast.Basic

/-!
# Lockers come to an end

Lockers do not wait for each other in a circle: whoever has a lock is not waiting for one, and a
locker that waits for its child waits for a process that is younger. So where no locker can go on, all
that is not over waits for a command (`Invariant.leftToCommands`). Every step uses up some of what is
left to do (`left_step`), so lockers get there whatever they do.

When a command ends is its own affair. One that is itself a locker of the same file never does: it
waits for the lock of the locker that waits for it.
-/

namespace Sysdeps

open Foundation Foundation.Kernel

variable {s t : State Stage} {p q : Pid} {x y : Proc Stage} {a : Action}

/-! ## What is left to do -/

/-- How many steps may be left from a stage, those of the child included. -/
def Stage.weight : Stage → Nat
  | opening _ => 12
  | acquiring _ _ => 11
  | forking _ _ => 10
  | waiting _ _ _ => 5
  | releasing _ _ _ | childClosing _ _ => 4
  | closing _ _ _ | executing _ _ => 3
  | reporting _ => 2
  | returning _ | failed => 1

/-- How many steps may be left to a process. -/
def weight (x : Proc Stage) : Nat :=
  match x.image with
  | .code st => st.weight
  | .command _ => 1
  | .ended _ _ => 0

/-- How many steps may be left to all. -/
def left (s : State Stage) : Nat := (s.procs.map weight).sum

theorem Stage.weight_pos (st : Stage) : 0 < st.weight := by
  cases st <;> exact Nat.succ_pos _

/-- A process that is not over. -/
def Alive (x : Proc Stage) : Prop := ∀ status reaped, x.image ≠ .ended status reaped

theorem weight_pos (h : Alive x) : 0 < weight x := by
  rw [weight]
  split
  · next st _ => exact st.weight_pos
  · exact Nat.zero_lt_one
  · next status reaped himage => exact absurd himage (h status reaped)

theorem weight_le (x : Proc Stage) : weight x ≤ 12 := by
  rw [weight]
  split
  · next st _ => cases st <;> simp [Stage.weight]
  · exact Nat.le_add_left 1 11
  · exact Nat.zero_le 12

theorem left_le (s : State Stage) : left s ≤ 12 * s.procs.length := by
  have h := List.sum_le_card_nsmul (s.procs.map weight) 12 (by
    intro n hn
    obtain ⟨x, -, rfl⟩ := List.mem_map.mp hn
    exact weight_le x)
  rw [List.length_map, nsmul_eq_mul, Nat.mul_comm] at h
  exact h

/-- A process that changes, changes what is left by as much. -/
theorem sum_weight_set {l : List (Proc Stage)} (hp : l[p]? = some x) (y : Proc Stage) :
    ((l.set p y).map weight).sum + weight x = (l.map weight).sum + weight y := by
  induction l generalizing p with
  | nil => cases hp
  | cons z l ih =>
    cases p with
    | zero =>
      cases hp
      simp only [List.set_cons_zero, List.map_cons, List.sum_cons]
      omega
    | succ p =>
      have := ih (p := p) hp
      simp only [List.set_cons_succ, List.map_cons, List.sum_cons]
      omega

/-- A process that has less left to do. -/
theorem left_put (hp : s.procs[p]? = some x) (ht : t.procs = s.procs.set p y)
    (hless : weight y < weight x) : left t < left s := by
  have := sum_weight_set hp y
  rw [left, left, ht]
  omega

/-- A process that changes and adds another one, the two of which have less left to do. -/
theorem left_fork {z : Proc Stage} (hp : s.procs[p]? = some x)
    (ht : t.procs = (s.procs ++ [z]).set p y) (hless : weight z + weight y < weight x) :
    left t < left s := by
  have := sum_weight_set (l := s.procs ++ [z]) (concat_of_some hp) y
  rw [List.map_append, List.sum_append] at this
  have hz : ([z].map weight).sum = weight z := rfl
  rw [left, left, ht]
  omega

/-- What is left after a call that failed. -/
theorem weight_failure {st : Stage} {c : Sys} {k : Reply → Stage} (hview : stages.view st = .inr (c, k))
    (errno : String) : (k { value := -1, errno := errno }).weight < st.weight := by
  cases st with
  | returning | failed => cases hview
  | opening | acquiring | forking | childClosing | executing | waiting | releasing | closing
  | reporting =>
    cases hview
    simp [Stage.orFatal, Stage.weight]

/-- What is left after a call that succeeded, but for `fork` and `execvp`. -/
theorem weight_success {st : Stage} {c : Sys} {k : Reply → Stage} (hview : stages.view st = .inr (c, k))
    {r : Reply} (hr : r.value ≠ -1) (hfork : c ≠ .fork) (hexec : ∀ argv, c ≠ .execvp argv) :
    (k r).weight < st.weight := by
  cases st with
  | returning | failed => cases hview
  | forking => cases hview; exact absurd rfl hfork
  | executing => cases hview; exact absurd rfl (hexec _)
  | opening | acquiring | childClosing | waiting | releasing | closing | reporting =>
    cases hview
    simp [Stage.orFatal, Stage.weight, hr]

theorem weight_code {st : Stage} (h : x.image = .code st) : weight x = st.weight := by
  rw [weight, h]

/-- A call that succeeds leaves less to do. -/
theorem left_called {st : Stage} {c : Sys} {k : Reply → Stage} {fd : Nat} (hs : Sound s)
    (hp : s.procs[p]? = some x) (himage : x.image = .code st) (hview : stages.view st = .inr (c, k))
    (hcall : Called s p x fd c k t) : left t < left s := by
  have hx := weight_code himage
  have hpos := pidOf_pos
  cases hcall with
  | opened path k hfree =>
    rw [← create_procs s path] at hp
    have hsame : left (s.create path) = left s := by rw [left, create_procs, left]
    rw [← hsame]
    refine left_put hp rfl ?_
    rw [hx]
    exact weight_success hview (by show (fd : Int) ≠ -1; omega) (by rintro ⟨⟩) (by rintro _ ⟨⟩)
  | locked d k f hd hfree =>
    refine left_put (s := s) hp rfl ?_
    rw [hx]
    exact weight_success hview (by decide) (by rintro ⟨⟩) (by rintro _ ⟨⟩)
  | unlocked d k f hd =>
    refine left_put (s := s) hp rfl ?_
    rw [hx]
    exact weight_success hview (by decide) (by rintro ⟨⟩) (by rintro _ ⟨⟩)
  | forked k =>
    cases st with
    | forking j fd' =>
      cases hview
      have hpid := hpos s.procs.length
      have hne : ({ value := pidOf s.procs.length } : Reply).value ≠ -1 := by
        show pidOf s.procs.length ≠ -1
        omega
      have hne0 : ({ value := pidOf s.procs.length } : Reply).value ≠ 0 := by
        show pidOf s.procs.length ≠ 0
        omega
      refine left_fork hp rfl ?_
      rw [hx]
      show 4 + (Stage.orFatal j "fork" { value := pidOf s.procs.length }
        (if ({ value := pidOf s.procs.length } : Reply).value = 0 then .childClosing j fd'
          else .waiting j fd' (pidOf s.procs.length))).weight < 10
      rw [orFatal_of_ne hne, if_neg hne0]
      exact Nat.lt_of_sub_eq_succ rfl
    | opening | acquiring | childClosing | executing | waiting | releasing | closing | returning
    | reporting | failed => cases hview
  | closed d k f hd =>
    refine left_put (s := s) hp rfl ?_
    rw [hx]
    exact weight_success hview (by decide) (by rintro ⟨⟩) (by rintro _ ⟨⟩)
  | replaced argv k =>
    refine left_put (s := s) hp rfl ?_
    rw [hx]
    cases st with
    | executing => exact Nat.lt_of_sub_eq_succ rfl
    | opening | acquiring | childClosing | forking | waiting | releasing | closing | returning
    | reporting | failed => cases hview
  | waited c k child status hc hended hparent =>
    have hpc : p ≠ c := Nat.ne_of_lt (hs.parent c child p hc hparent)
    have hchild : left (s.put c { child with image := .ended status true }) = left s := by
      have := sum_weight_set hc { child with image := .ended status true }
      have hzero : weight child = 0 := by rw [weight, hended]
      have hzero' : weight { child with image := .ended status true } = 0 := rfl
      rw [left, left, State.put]
      dsimp only
      omega
    rw [← hchild]
    refine left_put ((procs_put_ne hpc).trans hp) rfl ?_
    rw [hx]
    refine weight_success hview ?_ (by rintro ⟨⟩) (by rintro _ ⟨⟩)
    have := hpos c
    show pidOf c ≠ -1
    omega
  | printed text k =>
    refine left_put (s := s) hp rfl ?_
    rw [hx]
    exact weight_success hview (by decide) (by rintro ⟨⟩) (by rintro _ ⟨⟩)

/-- Every step of a process leaves less to do. -/
theorem left_step (hs : Sound s) (ha : a.actor ≠ none) (hstep : step stages s a = some t) :
    left t < left s := by
  cases step_move hstep with
  | exits p fd x st code hp himage hview =>
    refine left_put (s := s) hp rfl ?_
    rw [weight_code himage]
    exact st.weight_pos
  | aborts p fd x st hp himage hview =>
    refine left_put (s := s) hp rfl ?_
    rw [weight_code himage]
    exact st.weight_pos
  | succeeds p fd x st c k t hp himage hview hcall => exact left_called hs hp himage hview hcall
  | fails p errno x st c k hp himage hview =>
    refine left_put hp rfl ?_
    rw [weight_code himage]
    exact weight_failure hview errno
  | ends p code x argv hp himage =>
    refine left_put (s := s) hp rfl ?_
    rw [weight, weight, himage]
    exact Nat.zero_lt_one
  | killed p signal x hp halive =>
    refine left_put (s := s) hp rfl ?_
    exact weight_pos halive
  | started args => exact absurd rfl ha
  | removed path => exact absurd rfl ha

/-! ## What is waited for -/

section Conditions

variable {P : Type}

/-- The process waits for a command to end: it is one, or waits for a child that does, or for a lock
which a process has that does. -/
inductive Awaits (m : Machine P) (s : State P) : Pid → Prop
  | command {p : Pid} {x : Proc P} {argv : List String} (hp : s.procs[p]? = some x)
      (himage : x.image = .command argv) : Awaits m s p
  | child {p c : Pid} (hp : pending m s p = some (.waitpid (pidOf c))) (hc : Awaits m s c) :
      Awaits m s p
  | lock {p q : Pid} {x : Proc P} {d : Int} {f : File} (hp : s.procs[p]? = some x)
      (hcall : pending m s p = some (.setlkw d .F_WRLCK)) (hd : x.fds d = some f)
      (howner : s.owner f = some q) (hq : Awaits m s q) : Awaits m s p

/-- Every process is over or waits for a command, and who has a lock waits for a command. -/
structure LeftToCommands (m : Machine P) (s : State P) : Prop where
  procs : ∀ (p : Pid) (x : Proc P), s.procs[p]? = some x →
    (∃ status reaped, x.image = .ended status reaped) ∨ Awaits m s p
  owner : ∀ (f : File) (p : Pid), s.owner f = some p → Awaits m s p

/-- No process runs a command. -/
def NoCommand (s : State P) : Prop :=
  ∀ (p : Pid) (x : Proc P) (argv : List String), s.procs[p]? = some x → x.image ≠ .command argv

/-- All processes are over, and nobody has a lock. -/
def AllOver (s : State P) : Prop :=
  (∀ (p : Pid) (x : Proc P), s.procs[p]? = some x → ∃ status reaped, x.image = .ended status reaped) ∧
    ∀ f, s.owner f = none

/-- No program can go on. -/
def Stuck (m : Machine P) (s : State P) : Prop := ∀ p fd, step m s (.succeeds p fd) = none

/-- Who waits for a command, waits for one that is there. -/
theorem Awaits.not_noCommand {m : Machine P} {s : State P} {p : Pid} (h : Awaits m s p) :
    ¬NoCommand s := by
  induction h with
  | command hp himage => exact fun hno => hno _ _ _ hp himage
  | child hp hc ih => exact ih
  | lock hp hcall hd howner hq ih => exact ih

theorem LeftToCommands.allOver {m : Machine P} {s : State P} (h : LeftToCommands m s)
    (hno : NoCommand s) : AllOver s := by
  refine ⟨fun p x hp => (h.procs p x hp).resolve_right fun ha => ha.not_noCommand hno, fun f => ?_⟩
  cases howner : s.owner f with
  | none => rfl
  | some p => exact absurd hno (h.owner f p howner).not_noCommand

end Conditions

/-- A program whose call can succeed can go on. -/
theorem not_stuck (hp : s.procs[p]? = some x) {st : Stage} (himage : x.image = .code st) {c : Sys}
    {k : Reply → Stage} (hview : stages.view st = .inr (c, k)) {fd : Nat}
    (h : call s p x fd c k = some t) : ¬Stuck stages s := by
  intro hstuck
  have := (step_call hp himage hview fd).symm.trans (hstuck p fd)
  rw [h] at this
  cases this

/-- A process that does not wait for a lock can go on, or is a command, or waits for a younger one that
is not over and does not wait for a lock. -/
theorem Invariant.command_or_child (h : Invariant s) (hstuck : Stuck stages s)
    (hp : s.procs[p]? = some x) (halive : Alive x)
    (hacquiring : ∀ j fd, x.image ≠ .code (.acquiring j fd)) :
    Awaits stages s p ∨ ∃ (c : Pid) (child : Proc Stage), p < c ∧
      pending stages s p = some (.waitpid (pidOf c)) ∧ s.procs[c]? = some child ∧ Alive child ∧
      ∀ j fd, child.image ≠ .code (.acquiring j fd) := by
  cases himage : x.image with
  | ended status reaped => exact absurd himage (halive status reaped)
  | command argv => exact Or.inl (.command hp himage)
  | code st =>
    have hplaced := h.placed hp himage
    cases st with
    | opening j => exact absurd hstuck (not_stuck hp himage rfl (if_pos (hplaced.2.2.1 (3 : Nat))))
    | acquiring j fd => exact absurd himage (hacquiring j fd)
    | forking j fd =>
      exact absurd hstuck (not_stuck hp himage rfl (t := _) (show call s p x 0 _ _ = _ from rfl))
    | childClosing j fd =>
      obtain ⟨-, f, hf⟩ := hplaced
      exact absurd hstuck (not_stuck hp himage rfl (call_close hf))
    | executing j fd =>
      exact absurd hstuck (not_stuck hp himage rfl (t := _) (show call s p x 0 _ _ = _ from rfl))
    | waiting j fd pid =>
      obtain ⟨-, -, c, child, rfl, hc, hparent, hreaped⟩ := hplaced
      cases hended : child.image with
      | ended status reaped =>
        cases reaped with
        | true => exact absurd hended (hreaped status)
        | false => exact absurd hstuck (not_stuck hp himage rfl (call_waitpid hc hended hparent))
      | code st | command argv =>
        refine Or.inr ⟨c, child, h.sound.parent c child p hc hparent, pending_eq hp himage rfl, hc,
          ?_, ?_⟩
        · intro status reaped himage'
          rw [hended] at himage'
          cases himage'
        · intro j' fd' himage'
          have hworks := (h.placed hc himage').1
          rw [hworks.parent] at hparent
          cases hparent
    | releasing j fd exitCode =>
      obtain ⟨-, ⟨f, hf, -⟩, -⟩ := hplaced
      exact absurd hstuck (not_stuck hp himage rfl (call_unlock hf))
    | closing j fd exitCode =>
      obtain ⟨-, ⟨f, hf⟩, -⟩ := hplaced
      exact absurd hstuck (not_stuck hp himage rfl (call_close hf))
    | returning exitCode =>
      have := (step_exit hp himage rfl 0).symm.trans (hstuck p 0)
      cases this
    | reporting text =>
      exact absurd hstuck (not_stuck hp himage rfl (t := _) (show call s p x 0 _ _ = _ from rfl))
    | failed =>
      have := (step_exit hp himage rfl 0).symm.trans (hstuck p 0)
      cases this

/-- Where no locker can go on, a process that does not wait for a lock waits for a command: children are
younger. -/
theorem Invariant.awaits_child (h : Invariant s) (hstuck : Stuck stages s)
    (hp : s.procs[p]? = some x) (halive : Alive x)
    (hacquiring : ∀ j fd, x.image ≠ .code (.acquiring j fd)) : Awaits stages s p := by
  induction hn : s.procs.length - p using Nat.strongRecOn generalizing p x with
  | ind n ih =>
    rcases h.command_or_child hstuck hp halive hacquiring with
      hawaits | ⟨c, child, hlt, hcall, hc, halive', hacquiring'⟩
    · exact hawaits
    · have hlen : c < s.procs.length := (List.getElem?_eq_some_iff.mp hc).1
      have hless : s.procs.length - c < n := by
        rw [← hn]
        exact Nat.sub_lt_sub_left (Nat.lt_trans hlt hlen) hlt
      exact .child hcall (ih _ hless hc halive' hacquiring' rfl)

/-- Who has a lock does not wait for one. -/
theorem Invariant.awaits_owner (h : Invariant s) (hstuck : Stuck stages s) {f : File}
    (howner : s.owner f = some p) : Awaits stages s p := by
  obtain ⟨y, d, hp, -⟩ := h.sound.owner f p howner
  refine h.awaits_child hstuck hp (h.sound.alive hp howner) ?_
  intro j fd himage
  exact (h.placed hp himage).2.2.2 f howner

/-- Where no locker can go on, all that is not over waits for a command. -/
theorem Invariant.leftToCommands (h : Invariant s) (hstuck : Stuck stages s) :
    LeftToCommands stages s := by
  refine ⟨fun p x hp => ?_, fun f p howner => h.awaits_owner hstuck howner⟩
  by_cases hover : ∃ status reaped, x.image = .ended status reaped
  · exact Or.inl hover
  have halive : Alive x := fun status reaped himage => hover ⟨status, reaped, himage⟩
  right
  by_cases hacquiring : ∃ j fd, x.image = .code (.acquiring j fd)
  · obtain ⟨j, fd, himage⟩ := hacquiring
    obtain ⟨-, -, ⟨f, hf⟩, -⟩ := h.placed hp himage
    cases howner : s.owner f with
    | none => exact absurd hstuck (not_stuck hp himage rfl (call_lock hf (Or.inl howner)))
    | some q => exact .lock hp (pending_eq hp himage rfl) hf howner (h.awaits_owner hstuck howner)
  · exact h.awaits_child hstuck hp halive fun j fd himage => hacquiring ⟨j, fd, himage⟩

/-! ## The same, said of the programs -/

theorem Awaits.map (h : Awaits stages s p) : Awaits locker (s.map Stage.code) p := by
  induction h with
  | @command p x argv hp himage =>
    refine @Awaits.command _ _ _ _ (x.map Stage.code) argv ?_ ?_
    · rw [map_procs, hp]
      rfl
    · rw [Proc.map, himage]
      rfl
  | child hp hc ih =>
    rw [← stages_locker.pending] at hp
    exact .child hp ih
  | @lock p q x d f hp hcall hd howner hq ih =>
    rw [← stages_locker.pending] at hcall
    refine .lock (x := x.map Stage.code) ?_ hcall hd howner ih
    rw [map_procs, hp]
    rfl

theorem LeftToCommands.map (h : LeftToCommands stages s) :
    LeftToCommands locker (s.map Stage.code) := by
  refine ⟨fun p x hp => ?_, fun f p howner => (h.owner f p howner).map⟩
  rw [map_procs] at hp
  obtain ⟨y, hy, rfl⟩ := Option.map_eq_some_iff.mp hp
  rcases h.procs p y hy with ⟨status, reaped, himage⟩ | hawaits
  · exact Or.inl ⟨status, reaped, by rw [Proc.map, himage]; rfl⟩
  · exact Or.inr hawaits.map

theorem stuck_map (h : Stuck locker (s.map Stage.code)) : Stuck stages s := by
  intro p fd
  have := h p fd
  rw [stages_locker.step] at this
  exact Option.map_eq_none_iff.mp this

/-! ## Runs come to an end -/

/-- A program that goes on is one of a process. -/
theorem proceeds_actor (h : a.proceeds = true) : a.actor ≠ none := by
  cases a with
  | succeeds => rintro ⟨⟩
  | fails | ends | killed | started | removed => cases h

/-- Wherever a run has led, whatever failed and whoever was killed: at most twelve more steps are made
for each process there is, until somebody starts another one. Where no program can go on, all that is
not over waits for a command that still runs, and if none does, all are over and no lock is left.
Programs that are left to themselves get there, be it that no command ends meanwhile. -/
theorem lockers_finish {s t : State Program} {as : List Action} (hfresh : Fresh s)
    (hrun : run (step locker) s as = some t) :
    (∀ bs u, (∀ b ∈ bs, b.actor ≠ none) → run (step locker) t bs = some u →
      bs.length ≤ 12 * t.procs.length) ∧
    (Stuck locker t → LeftToCommands locker t ∧ (NoCommand t → AllOver t)) ∧
    ∃ bs u, (∀ b ∈ bs, b.proceeds = true) ∧ run (step locker) t bs = some u ∧ Stuck locker u := by
  obtain ⟨u, v, hu, rfl, hrun', rfl⟩ := exists_stages hfresh hrun
  have hinv : Invariant v := (Invariant.of_fresh hu).run hrun'
  have hstep : ∀ {P : Action → Prop}, (∀ s a t, Invariant s → P a → step stages s a = some t →
      Invariant t) := fun s a t hs _ h => hs.step h
  refine ⟨?_, ?_, ?_⟩
  · intro bs w hbs hw
    rw [stages_locker.run] at hw
    obtain ⟨w', hw', rfl⟩ := Option.map_eq_some_iff.mp hw
    have hlength := length_add_le_of_run (μ := left) (I := Invariant) (P := fun a => a.actor ≠ none)
      hstep (fun s a t hs ha h => left_step hs.sound ha h) hw' hbs hinv
    have hleft := left_le v
    have hprocs : (v.map Stage.code).procs.length = v.procs.length := List.length_map _
    rw [hprocs]
    omega
  · intro hstuck
    have hleft := (hinv.leftToCommands (stuck_map hstuck)).map
    exact ⟨hleft, hleft.allOver⟩
  · obtain ⟨bs, w, hbs, hw, hstuck⟩ := exists_run_to (μ := left) (I := Invariant)
      (P := fun a => a.proceeds = true) (Stuck stages) hstep
      (fun s a t hs ha h => left_step hs.sound (proceeds_actor ha) h)
      (fun s hs hno => by
        simp only [Stuck, not_forall] at hno
        obtain ⟨p, fd, hne⟩ := hno
        obtain ⟨t, ht⟩ := Option.ne_none_iff_exists'.mp hne
        exact ⟨.succeeds p fd, t, rfl, ht⟩) hinv
    refine ⟨bs, w.map Stage.code, hbs, ?_, fun p fd => ?_⟩
    · rw [stages_locker.run, hw]
      rfl
    · rw [stages_locker.step, hstuck p fd]
      rfl

/-- Two lockers, one of which has the lock. -/
theorem lockers_finish_two : ∃ t, run (step locker) idle (meeting ++ begins 0 2) = some t ∧
    ∃ bs u, (∀ b ∈ bs, b.proceeds = true) ∧ run (step locker) t bs = some u ∧ Stuck locker u :=
  ⟨_, rfl, (lockers_finish idle_fresh
    (rfl : run (step locker) idle (meeting ++ begins 0 2) = some _)).2.2⟩

end Sysdeps
