import CStringVerified.Foundation.Kernel

/-!
# Rules of the kernel

`Move` lists what a step can do, once and with its guards; `step_move` says that it lists
everything. The rules after it hold for all programs: whoever has a lock is alive and has the file
open, a parent was there before its child. The last part carries runs along a map of machines.
-/

namespace Foundation

namespace Kernel

variable {P Q : Type} {m : Machine P} {s t : State P} {p q : Pid} {proc proc' : Proc P}

/-! ## The parts of a state -/

section Parts

@[simp] theorem put_files (s : State P) (p : Pid) (proc : Proc P) : (s.put p proc).files = s.files :=
  rfl

@[simp] theorem put_made (s : State P) (p : Pid) (proc : Proc P) : (s.put p proc).made = s.made := rfl

@[simp] theorem put_owner (s : State P) (p : Pid) (proc : Proc P) : (s.put p proc).owner = s.owner :=
  rfl

@[simp] theorem put_stderr (s : State P) (p : Pid) (proc : Proc P) :
    (s.put p proc).stderr = s.stderr := rfl

@[simp] theorem length_put (s : State P) (p : Pid) (proc : Proc P) :
    (s.put p proc).procs.length = s.procs.length := List.length_set

/-- An entry that was replaced. -/
theorem procs_put_self (h : s.procs[p]? = some proc) :
    (s.put p proc').procs[p]? = some proc' := by
  obtain ⟨hlt, -⟩ := List.getElem?_eq_some_iff.mp h
  exact List.getElem?_set_self hlt

/-- An entry that was not replaced. -/
theorem procs_put_ne (h : q ≠ p) : (s.put p proc).procs[q]? = s.procs[q]? :=
  List.getElem?_set_ne (Ne.symm h)

@[simp] theorem create_owner (s : State P) (path : String) : (s.create path).owner = s.owner := by
  rw [State.create]
  split <;> rfl

@[simp] theorem create_procs (s : State P) (path : String) : (s.create path).procs = s.procs := by
  rw [State.create]
  split <;> rfl

@[simp] theorem create_stderr (s : State P) (path : String) :
    (s.create path).stderr = s.stderr := by
  rw [State.create]
  split <;> rfl

/-- The file that was made sure of has its name. -/
theorem create_files_self (s : State P) (path : String) :
    (s.create path).files path = some (s.created path) := by
  rw [State.create, State.created]
  split
  · next f hf => rw [hf]; rfl
  · next hf => rw [hf]; exact Function.update_self path _ s.files

/-- An entry of a table that one entry was replaced in. -/
theorem procs_put_cases (h : (s.put p proc').procs[q]? = some proc) :
    (q = p ∧ proc = proc') ∨ (q ≠ p ∧ s.procs[q]? = some proc) := by
  by_cases hq : q = p
  · subst hq
    obtain ⟨hlt, -⟩ := List.getElem?_eq_some_iff.mp h
    rw [length_put] at hlt
    rw [State.put, List.getElem?_set_self hlt] at h
    cases h
    exact Or.inl ⟨rfl, rfl⟩
  · rw [procs_put_ne hq] at h
    exact Or.inr ⟨hq, h⟩

/-- An entry of a table that one entry was added to. -/
theorem concat_cases {l : List (Proc P)} (h : (l ++ [proc'])[q]? = some proc) :
    (q = l.length ∧ proc = proc') ∨ l[q]? = some proc := by
  by_cases hq : q < l.length
  · rw [List.getElem?_append_left hq] at h
    exact Or.inr h
  · obtain ⟨hlt, -⟩ := List.getElem?_eq_some_iff.mp h
    rw [List.length_append, List.length_singleton] at hlt
    obtain rfl : q = l.length :=
      Nat.le_antisymm (Nat.lt_succ_iff.mp hlt) (Nat.le_of_not_lt hq)
    rw [List.getElem?_concat_length] at h
    cases h
    exact Or.inl ⟨rfl, rfl⟩

theorem concat_of_some {l : List (Proc P)} (h : l[q]? = some proc) :
    (l ++ [proc'])[q]? = some proc := by
  obtain ⟨hlt, -⟩ := List.getElem?_eq_some_iff.mp h
  rw [List.getElem?_append_left hlt]
  exact h

/-- Files keep their names. -/
theorem create_files_of_some {path other : String} {f : File} (h : s.files other = some f) :
    (s.create path).files other = some f := by
  rw [State.create]
  split
  · exact h
  · next hf =>
    refine (Function.update_of_ne ?_ _ s.files).trans h
    rintro rfl
    rw [hf] at h
    cases h

theorem owner_lock (s : State P) (p : Pid) (f g : File) :
    (s.lock p f).owner g = if g = f then some p else s.owner g :=
  Function.update_apply s.owner f (some p) g

theorem owner_unlock (s : State P) (p : Pid) (f g : File) :
    (s.unlock p f).owner g = if g = f ∧ s.owner g = some p then none else s.owner g := rfl

theorem owner_unlockAll (s : State P) (p : Pid) (g : File) :
    (s.unlockAll p).owner g = if s.owner g = some p then none else s.owner g := rfl

end Parts

/-- Programs know processes by different numbers. -/
theorem placeOf_eq_some {pid : Int} (h : placeOf pid = some p) : pid = pidOf p := by
  rw [placeOf] at h
  split at h
  · cases h
    rw [pidOf]
    omega
  · cases h

@[simp] theorem placeOf_pidOf (p : Pid) : placeOf (pidOf p) = some p := by
  have hpos : (0 : Int) < p + 1 := by omega
  rw [placeOf, pidOf, if_pos hpos, Int.add_sub_cancel, Int.toNat_natCast]

/-- Different processes have different numbers. -/
theorem pidOf_inj (h : pidOf p = pidOf q) : p = q := Int.ofNat_inj.mp (Int.add_left_inj 1 |>.mp h)

/-- The numbers of processes are positive. -/
theorem pidOf_pos (p : Pid) : 0 < pidOf p := Int.lt_add_one_of_le (Int.natCast_nonneg p)

/-- The call that a program goes on with is pending. -/
theorem pending_eq (hp : s.procs[p]? = some proc) {prog : P} (himage : proc.image = .code prog)
    {c : Sys} {k : Reply → P} (hview : m.view prog = .inr (c, k)) : pending m s p = some c := by
  rw [pending, hp, Option.bind_eq_bind, Option.bind_some]
  simp only [himage, hview, callOf]

/-- A program that ends makes no call. -/
theorem pending_eq_none (hp : s.procs[p]? = some proc) {prog : P} (himage : proc.image = .code prog)
    {e : Ending} (hview : m.view prog = .inl e) : pending m s p = none := by
  rw [pending, hp, Option.bind_eq_bind, Option.bind_some]
  simp only [himage, hview, callOf]

/-! ## What a step can do -/

/-- The step of a process `p` whose program calls `c` and would go on with `k`, when the call
succeeds. -/
inductive Called (s : State P) (p : Pid) (proc : Proc P) (fd : Nat) :
    Sys → (Reply → P) → State P → Prop
  | opened (path : String) (k : Reply → P) (hfree : proc.fds fd = none) :
    Called s p proc fd (.openFile path) k ((s.create path).put p
      { proc with fds := Function.update proc.fds fd (some (s.created path))
                  image := .code (k { value := fd }) })
  | locked (d : Int) (k : Reply → P) (f : File) (hd : proc.fds d = some f)
      (hfree : s.owner f = none ∨ s.owner f = some p) :
    Called s p proc fd (.setlkw d .F_WRLCK) k
      ((s.lock p f).put p (proc.goOn (k { value := 0 })))
  | unlocked (d : Int) (k : Reply → P) (f : File) (hd : proc.fds d = some f) :
    Called s p proc fd (.setlkw d .F_UNLCK) k ((s.unlock p f).put p (proc.goOn (k { value := 0 })))
  | forked (k : Reply → P) :
    Called s p proc fd .fork k
      ({ s with procs := s.procs ++ [{ proc.goOn (k { value := 0 }) with parent := some p }] }.put p
        (proc.goOn (k { value := pidOf s.procs.length })))
  | closed (d : Int) (k : Reply → P) (f : File) (hd : proc.fds d = some f) :
    Called s p proc fd (.close d) k ((s.unlock p f).put p
      { proc with fds := Function.update proc.fds d none, image := .code (k { value := 0 }) })
  | replaced (argv : List String) (k : Reply → P) :
    Called s p proc fd (.execvp argv) k (s.put p { proc with image := .command argv })
  | waited (c : Pid) (k : Reply → P) (child : Proc P) (status : Nat)
      (hc : s.procs[c]? = some child) (hended : child.image = .ended status false)
      (hparent : child.parent = some p) :
    Called s p proc fd (.waitpid (pidOf c)) k ((s.put c { child with image := .ended status true }).put p
      (proc.goOn (k { value := pidOf c, status := status })))
  | printed (text : String) (k : Reply → P) :
    Called s p proc fd (.fprintf text) k
      ({ s with stderr := s.stderr ++ [(p, text)] }.put p (proc.goOn (k { value := 0 })))

/-- Everything that a step can do. -/
inductive Move (m : Machine P) (s : State P) : Action → State P → Prop
  | exits (p : Pid) (fd : Nat) (proc : Proc P) (prog : P) (code : Int) (hp : s.procs[p]? = some proc)
      (himage : proc.image = .code prog) (hview : m.view prog = .inl (.exit code)) :
    Move m s (.succeeds p fd) (s.terminate p proc (exited code))
  | aborts (p : Pid) (fd : Nat) (proc : Proc P) (prog : P) (hp : s.procs[p]? = some proc)
      (himage : proc.image = .code prog) (hview : m.view prog = .inl .abort) :
    Move m s (.succeeds p fd) (s.terminate p proc (signalled SIGABRT))
  | succeeds (p : Pid) (fd : Nat) (proc : Proc P) (prog : P) (c : Sys) (k : Reply → P) (t : State P)
      (hp : s.procs[p]? = some proc) (himage : proc.image = .code prog)
      (hview : m.view prog = .inr (c, k)) (hcall : Called s p proc fd c k t) :
    Move m s (.succeeds p fd) t
  | fails (p : Pid) (errno : String) (proc : Proc P) (prog : P) (c : Sys) (k : Reply → P)
      (hp : s.procs[p]? = some proc) (himage : proc.image = .code prog)
      (hview : m.view prog = .inr (c, k)) :
    Move m s (.fails p errno) (s.put p (proc.goOn (k { value := -1, errno := errno })))
  | ends (p : Pid) (code : Int) (proc : Proc P) (argv : List String) (hp : s.procs[p]? = some proc)
      (himage : proc.image = .command argv) :
    Move m s (.ends p code) (s.terminate p proc (exited code))
  | killed (p : Pid) (signal : Nat) (proc : Proc P) (hp : s.procs[p]? = some proc)
      (halive : ∀ status reaped, proc.image ≠ .ended status reaped) :
    Move m s (.killed p signal) (s.terminate p proc (signalled signal))
  | started (args : List String) :
    Move m s (.started args) { s with
      procs := s.procs ++ [{ parent := none, args, fds := fun _ => none
                             image := .code (m.start args) }] }
  | removed (path : String) :
    Move m s (.removed path) { s with files := Function.update s.files path none }

section Possible

variable {k : Reply → P} {d : Int} {f : File}

/-- A lock can be taken that nobody else has. -/
theorem call_lock (hd : proc.fds d = some f) (hfree : s.owner f = none ∨ s.owner f = some p) :
    call s p proc 0 (.setlkw d .F_WRLCK) k =
      some ((s.lock p f).put p (proc.goOn (k { value := 0 }))) := by
  rw [call, hd, Option.bind_eq_bind, Option.bind_some]
  exact if_pos hfree

/-- A lock on an open file can be dropped. -/
theorem call_unlock (hd : proc.fds d = some f) :
    call s p proc 0 (.setlkw d .F_UNLCK) k =
      some ((s.unlock p f).put p (proc.goOn (k { value := 0 }))) := by
  rw [call, hd, Option.bind_eq_bind, Option.bind_some]

/-- An open file can be closed. -/
theorem call_close (hd : proc.fds d = some f) :
    call s p proc 0 (.close d) k = some ((s.unlock p f).put p
      { proc with fds := Function.update proc.fds d none, image := .code (k { value := 0 }) }) := by
  rw [call, hd, Option.bind_eq_bind, Option.bind_some]

/-- A child that has ended can be waited for. -/
theorem call_waitpid {c : Pid} {child : Proc P} {status : Nat} (hc : s.procs[c]? = some child)
    (hended : child.image = .ended status false) (hparent : child.parent = some p) :
    call s p proc 0 (.waitpid (pidOf c)) k =
      some ((s.put c { child with image := .ended status true }).put p
        (proc.goOn (k { value := pidOf c, status := status }))) := by
  rw [call, placeOf_pidOf, Option.bind_eq_bind, Option.bind_some, hc, Option.bind_eq_bind,
    Option.bind_some]
  simp only [hended]
  exact if_pos hparent

end Possible

/-- A call that succeeds does one of the things that `Called` lists. -/
theorem call_called {fd : Nat} {c : Sys} {k : Reply → P} (h : call s p proc fd c k = some t) :
    Called s p proc fd c k t := by
  cases c with
  | openFile path =>
    rw [call] at h
    split at h
    · next hfree => cases h; exact .opened path k hfree
    · cases h
  | setlkw d type =>
    cases type with
    | F_WRLCK =>
      obtain ⟨f, hd, h⟩ := Option.bind_eq_some_iff.mp h
      split at h
      · next hfree => cases h; exact .locked d k f hd hfree
      · cases h
    | F_UNLCK =>
      obtain ⟨f, hd, h⟩ := Option.bind_eq_some_iff.mp h
      cases h
      exact .unlocked d k f hd
  | fork => cases h; exact .forked k
  | close d =>
    obtain ⟨f, hd, h⟩ := Option.bind_eq_some_iff.mp h
    cases h
    exact .closed d k f hd
  | execvp argv => cases h; exact .replaced argv k
  | waitpid pid =>
    obtain ⟨c, hpid, h⟩ := Option.bind_eq_some_iff.mp h
    obtain ⟨child, hc, h⟩ := Option.bind_eq_some_iff.mp h
    obtain rfl : pid = pidOf c := placeOf_eq_some hpid
    split at h
    · next status hended =>
      split at h
      · next hparent => cases h; exact .waited c k child status hc hended hparent
      · cases h
    · cases h
  | fprintf text => cases h; exact .printed text k

/-- A step does one of the things that `Move` lists. -/
theorem step_move {a : Action} (h : step m s a = some t) : Move m s a t := by
  cases a with
  | succeeds p fd =>
    obtain ⟨proc, hp, h⟩ := Option.bind_eq_some_iff.mp h
    split at h
    · next prog himage =>
      rcases hview : m.view prog with (code | _) | ⟨c, k⟩
      · rw [hview] at h; cases h; exact .exits p fd proc prog code hp himage hview
      · rw [hview] at h; cases h; exact .aborts p fd proc prog hp himage hview
      · rw [hview] at h; exact .succeeds p fd proc prog c k t hp himage hview (call_called h)
    · cases h
  | fails p errno =>
    obtain ⟨proc, hp, h⟩ := Option.bind_eq_some_iff.mp h
    split at h
    · next prog himage =>
      rcases hview : m.view prog with e | ⟨c, k⟩
      · rw [hview] at h; cases h
      · rw [hview] at h; cases h; exact .fails p errno proc prog c k hp himage hview
    · cases h
  | ends p code =>
    obtain ⟨proc, hp, h⟩ := Option.bind_eq_some_iff.mp h
    split at h
    · next argv himage => cases h; exact .ends p code proc argv hp himage
    · cases h
  | killed p signal =>
    obtain ⟨proc, hp, h⟩ := Option.bind_eq_some_iff.mp h
    split at h
    · cases h
    · next halive => cases h; exact .killed p signal proc hp halive
  | started args => cases h; exact .started args
  | removed path => cases h; exact .removed path

/-- The step of a program whose call succeeds. -/
theorem step_call (hp : s.procs[p]? = some proc) {prog : P} (himage : proc.image = .code prog)
    {c : Sys} {k : Reply → P} (hview : m.view prog = .inr (c, k)) (fd : Nat) :
    step m s (.succeeds p fd) = call s p proc fd c k := by
  rw [step, hp, Option.bind_eq_bind, Option.bind_some]
  simp only [himage, hview, advance]

/-- The step of a program that ends. -/
theorem step_exit (hp : s.procs[p]? = some proc) {prog : P} (himage : proc.image = .code prog)
    {code : Int} (hview : m.view prog = .inl (.exit code)) (fd : Nat) :
    step m s (.succeeds p fd) = some (s.terminate p proc (exited code)) := by
  rw [step, hp, Option.bind_eq_bind, Option.bind_some]
  simp only [himage, hview, advance]

/-! ## What holds of all programs -/

/-- What the kernel keeps, whatever the programs are. -/
structure Sound (s : State P) : Prop where
  /-- Who has a lock has the file open. -/
  owner : ∀ (f : File) (p : Pid), s.owner f = some p →
    ∃ (proc : Proc P) (d : Int), s.procs[p]? = some proc ∧ proc.fds d = some f
  /-- Who is over has no file open. -/
  finished : ∀ (p : Pid) (proc : Proc P) (status : Nat) (reaped : Bool), s.procs[p]? = some proc →
    proc.image = .ended status reaped → ∀ d, proc.fds d = none
  /-- A parent is older than its child. -/
  parent : ∀ (c : Pid) (proc : Proc P) (q : Pid), s.procs[c]? = some proc →
    proc.parent = some q → q < c

theorem Fresh.sound (h : Fresh s) : Sound s where
  owner f p hf := by rw [h.owner] at hf; cases hf
  finished p proc status reaped hp := by rw [h.procs] at hp; cases hp
  parent c proc q hc := by rw [h.procs] at hc; cases hc

/-- A process that goes on or ends: what it keeps or loses is its own, and so are the locks. -/
theorem Sound.put {owner : File → Option Pid} (h : Sound s) (hp : s.procs[p]? = some proc)
    (hprocs : t.procs = s.procs.set p proc') (howner : t.owner = owner)
    (hlocks : ∀ f q, owner f = some q →
      (q ≠ p ∧ s.owner f = some q) ∨ (q = p ∧ ∃ d, proc'.fds d = some f))
    (hover : ∀ status reaped, proc'.image = .ended status reaped → ∀ d, proc'.fds d = none)
    (hparent : proc'.parent = proc.parent) : Sound t := by
  have hself : t.procs[p]? = some proc' := by
    obtain ⟨hlt, -⟩ := List.getElem?_eq_some_iff.mp hp
    rw [hprocs]
    exact List.getElem?_set_self hlt
  have hcases : ∀ {q x}, t.procs[q]? = some x →
      (q = p ∧ x = proc') ∨ (q ≠ p ∧ s.procs[q]? = some x) := by
    intro q x hq
    rw [hprocs] at hq
    exact procs_put_cases (s := s) hq
  constructor
  · intro f q hf
    rw [howner] at hf
    rcases hlocks f q hf with ⟨hq, hs⟩ | ⟨rfl, d, hd⟩
    · obtain ⟨x, d, hx, hd⟩ := h.owner f q hs
      refine ⟨x, d, ?_, hd⟩
      rw [hprocs]
      exact (List.getElem?_set_ne (Ne.symm hq)).trans hx
    · exact ⟨proc', d, hself, hd⟩
  · intro q x status reaped hq
    rcases hcases hq with ⟨rfl, rfl⟩ | ⟨-, hs⟩
    · exact hover status reaped
    · exact h.finished q x status reaped hs
  · intro c x q hc
    rcases hcases hc with ⟨rfl, rfl⟩ | ⟨-, hs⟩
    · rw [hparent]
      exact h.parent c proc q hp
    · exact h.parent c x q hs

/-- A process that is added to the table, with no locks. -/
theorem Sound.concat (h : Sound s) (hprocs : t.procs = s.procs ++ [proc])
    (howner : t.owner = s.owner)
    (hover : ∀ status reaped, proc.image ≠ .ended status reaped)
    (hparent : ∀ q, proc.parent = some q → q < s.procs.length) : Sound t := by
  constructor
  · intro f p hf
    rw [howner] at hf
    obtain ⟨x, d, hx, hd⟩ := h.owner f p hf
    rw [hprocs]
    exact ⟨x, d, concat_of_some hx, hd⟩
  · intro p x status reaped hp himage
    rw [hprocs] at hp
    rcases concat_cases hp with ⟨rfl, rfl⟩ | hp
    · exact absurd himage (hover status reaped)
    · exact h.finished p x status reaped hp himage
  · intro c x q hc hq
    rw [hprocs] at hc
    rcases concat_cases hc with ⟨rfl, rfl⟩ | hc
    · exact hparent q hq
    · exact h.parent c x q hc hq

theorem Sound.terminate (h : Sound s) (hp : s.procs[p]? = some proc) (status : Nat) :
    Sound (s.terminate p proc status) := by
  refine h.put hp rfl rfl ?_ (fun _ _ _ d => rfl) rfl
  intro f q hf
  rw [State.terminate, put_owner, owner_unlockAll] at hf
  split at hf
  · cases hf
  · next hne => exact Or.inl ⟨fun hq => hne (hq ▸ hf), hf⟩

/-- A lock that a process has is on a file of one of its descriptors. -/
theorem Sound.descriptor (h : Sound s) (hp : s.procs[p]? = some proc) {f : File}
    (hf : s.owner f = some p) : ∃ d, proc.fds d = some f := by
  obtain ⟨x, d, hx, hd⟩ := h.owner f p hf
  rw [hp] at hx
  cases hx
  exact ⟨d, hd⟩

/-- A process that keeps its descriptors, while no locks change hands. -/
theorem Sound.goOn (h : Sound s) (hp : s.procs[p]? = some proc)
    (hprocs : t.procs = s.procs.set p proc') (howner : t.owner = s.owner)
    (hfds : ∀ d f, proc.fds d = some f → proc'.fds d = some f)
    (hover : ∀ status reaped, proc'.image = .ended status reaped → ∀ d, proc'.fds d = none)
    (hparent : proc'.parent = proc.parent) : Sound t := by
  refine h.put hp hprocs howner ?_ hover hparent
  intro f q hf
  by_cases hq : q = p
  · subst hq
    obtain ⟨d, hd⟩ := h.descriptor hp hf
    exact Or.inr ⟨rfl, d, hfds d f hd⟩
  · exact Or.inl ⟨hq, hf⟩

/-- A call that succeeds leaves a sound kernel. -/
theorem Sound.called (h : Sound s) (hp : s.procs[p]? = some proc) {fd : Nat} {c : Sys}
    {k : Reply → P} (hcall : Called s p proc fd c k t) : Sound t := by
  cases hcall with
  | opened path k hfree =>
    refine h.goOn hp (congrArg (List.set · p _) (create_procs s path)) (create_owner s path) ?_
      (by rintro status reaped ⟨⟩) rfl
    intro d f hd
    refine (Function.update_of_ne ?_ _ _).trans hd
    rintro rfl
    rw [hfree] at hd
    cases hd
  | locked d k f hd hfree =>
    refine h.put hp rfl rfl ?_ (by rintro status reaped ⟨⟩) rfl
    intro g q hg
    rw [put_owner, owner_lock] at hg
    split at hg
    · next hgf =>
      cases hg
      exact Or.inr ⟨rfl, d, hgf ▸ hd⟩
    · by_cases hq : q = p
      · subst hq
        exact Or.inr ⟨rfl, h.descriptor hp hg⟩
      · exact Or.inl ⟨hq, hg⟩
  | unlocked d k f hd =>
    refine h.put hp rfl rfl ?_ (by rintro status reaped ⟨⟩) rfl
    intro g q hg
    rw [put_owner, owner_unlock] at hg
    split at hg
    · cases hg
    · by_cases hq : q = p
      · subst hq
        exact Or.inr ⟨rfl, h.descriptor hp hg⟩
      · exact Or.inl ⟨hq, hg⟩
  | forked k =>
    obtain ⟨hlt, -⟩ := List.getElem?_eq_some_iff.mp hp
    have hchild : Sound { s with
        procs := s.procs ++ [{ proc.goOn (k { value := 0 }) with parent := some p }] } := by
      refine h.concat rfl rfl (by rintro status reaped ⟨⟩) ?_
      rintro q ⟨⟩
      exact hlt
    exact hchild.goOn (concat_of_some hp) rfl rfl (fun d f hd => hd) (by rintro status reaped ⟨⟩)
      rfl
  | closed d k f hd =>
    refine h.put hp rfl rfl ?_ (by rintro status reaped ⟨⟩) rfl
    intro g q hg
    rw [put_owner, owner_unlock] at hg
    split at hg
    · cases hg
    · next hne =>
      by_cases hq : q = p
      · subst hq
        obtain ⟨d', hd'⟩ := h.descriptor hp hg
        refine Or.inr ⟨rfl, d', (Function.update_of_ne ?_ _ _).trans hd'⟩
        rintro rfl
        rw [hd] at hd'
        cases hd'
        exact hne ⟨rfl, hg⟩
      · exact Or.inl ⟨hq, hg⟩
  | replaced argv k =>
    exact h.goOn hp rfl rfl (fun d f hd => hd) (by rintro status reaped ⟨⟩) rfl
  | waited c k child status hc hended hparent =>
    have hpc : p ≠ c := Nat.ne_of_lt (h.parent c child p hc hparent)
    have hreaped : Sound (s.put c { child with image := .ended status true }) :=
      h.goOn hc rfl rfl (fun d f hd => hd) (fun _ _ _ d => h.finished c child status false hc hended d)
        rfl
    exact hreaped.goOn ((procs_put_ne hpc).trans hp) rfl rfl (fun d f hd => hd)
      (by rintro status reaped ⟨⟩) rfl
  | printed text k =>
    exact h.goOn hp rfl rfl (fun d f hd => hd) (by rintro status reaped ⟨⟩) rfl

/-- Every step leaves a sound kernel. -/
theorem Sound.step (h : Sound s) {a : Action} (hstep : step m s a = some t) : Sound t := by
  cases step_move hstep with
  | exits p fd proc prog code hp himage hview => exact h.terminate hp (exited code)
  | aborts p fd proc prog hp himage hview => exact h.terminate hp (signalled SIGABRT)
  | succeeds p fd proc prog c k t hp himage hview hcall => exact h.called hp hcall
  | fails p errno proc prog c k hp himage hview =>
    exact h.goOn hp rfl rfl (fun d f hd => hd) (by rintro status reaped ⟨⟩) rfl
  | ends p code proc argv hp himage => exact h.terminate hp (exited code)
  | killed p signal proc hp halive => exact h.terminate hp (signalled signal)
  | started args => exact h.concat rfl rfl (by rintro status reaped ⟨⟩) (by rintro q ⟨⟩)
  | removed path => exact ⟨h.owner, h.finished, h.parent⟩

/-- Who has a lock is not over. -/
theorem Sound.alive (h : Sound s) (hp : s.procs[p]? = some proc) {f : File}
    (hf : s.owner f = some p) (status : Nat) (reaped : Bool) : proc.image ≠ .ended status reaped := by
  intro himage
  obtain ⟨d, hd⟩ := h.descriptor hp hf
  rw [h.finished p proc status reaped hp himage d] at hd
  cases hd

/-! ## What a step leaves alone -/

/-- What may become of an entry of the process table: only its own process changes it, apart from
the parent that takes notice of its end. -/
structure Later (a : Action) (q : Pid) (x y : Proc P) : Prop where
  parent : y.parent = x.parent
  args : y.args = x.args
  other : a.actor ≠ some q → y = x ∨ ∃ status, x.image = .ended status false ∧
    y = { x with image := .ended status true } ∧ x.parent = a.actor
  finished : ∀ status reaped, x.image = .ended status reaped → ∃ reaped', y.image = .ended status reaped'
  reaped : ∀ status, x.image = .ended status true → y = x
  mine : a.actor = some q → ∀ status, y.image ≠ .ended status true

theorem Later.refl {a : Action} (ha : a.actor ≠ some q) (x : Proc P) : Later a q x x :=
  ⟨rfl, rfl, fun _ => Or.inl rfl, fun _ reaped h => ⟨reaped, h⟩, fun _ _ => rfl, fun h => absurd h ha⟩

/-- The process of the action changes. -/
theorem Later.put {a : Action} (hp : s.procs[p]? = some proc) (ha : a.actor = some p)
    (himage : ∀ status reaped, proc.image ≠ .ended status reaped) {x : Proc P}
    (hq : s.procs[q]? = some x) (ht : t.procs = s.procs.set p proc' := by rfl)
    (hparent : proc'.parent = proc.parent := by rfl) (hargs : proc'.args = proc.args := by rfl)
    (himage' : ∀ status, proc'.image ≠ .ended status true := by rintro _ ⟨⟩) : ∃ y, t.procs[q]? = some y ∧ Later a q x y := by
  have hput : t.procs = (s.put p proc').procs := ht
  rw [hput]
  by_cases hqp : q = p
  · subst hqp
    rw [hp] at hq
    cases hq
    exact ⟨proc', procs_put_self hp, hparent, hargs, fun hne => absurd ha hne,
      fun status reaped h => absurd h (himage status reaped),
      fun status h => absurd h (himage status true), fun _ => himage'⟩
  · refine ⟨x, (procs_put_ne hqp).trans hq, Later.refl ?_ x⟩
    rw [ha]
    exact fun h => hqp (Option.some.inj h).symm

/-- What becomes of an entry when a call succeeds. -/
theorem Called.later (hs : Sound s) (hp : s.procs[p]? = some proc) {prog : P}
    (himage : proc.image = .code prog) {fd : Nat} {c : Sys} {k : Reply → P}
    (hcall : Called s p proc fd c k t) {x : Proc P} (hq : s.procs[q]? = some x) :
    ∃ y, t.procs[q]? = some y ∧ Later (.succeeds p fd) q x y := by
  have halive : ∀ status reaped, proc.image ≠ .ended status reaped := by
    intro status reaped h
    rw [himage] at h
    cases h
  have ha : (Action.succeeds p fd).actor = some p := rfl
  cases hcall with
  | opened path k hfree =>
    rw [← create_procs s path] at hp hq
    exact Later.put (s := s.create path) hp ha halive hq
  | locked d k f hd hfree => exact Later.put (s := s.lock p f) hp ha halive hq
  | unlocked d k f hd => exact Later.put (s := s.unlock p f) hp ha halive hq
  | forked k =>
    exact Later.put (s := { s with procs := s.procs ++ [_] }) (concat_of_some hp) ha halive
      (concat_of_some hq)
  | closed d k f hd => exact Later.put (s := s.unlock p f) hp ha halive hq
  | replaced argv k => exact Later.put hp ha halive hq
  | waited c k child status hc hended hparent =>
    have hpc : p ≠ c := Nat.ne_of_lt (hs.parent c child p hc hparent)
    have hp' : (s.put c { child with image := .ended status true }).procs[p]? = some proc :=
      (procs_put_ne hpc).trans hp
    by_cases hqc : q = c
    · subst hqc
      obtain rfl := Option.some.inj (hc.symm.trans hq)
      refine ⟨{ child with image := .ended status true },
        (procs_put_ne (Ne.symm hpc)).trans (procs_put_self hc), rfl, rfl,
        fun _ => Or.inr ⟨status, hended, rfl, hparent⟩, ?_, ?_,
        fun h => absurd (Option.some.inj h) hpc⟩
      · intro st reaped h
        rw [hended] at h
        cases h
        exact ⟨true, rfl⟩
      · intro st h
        rw [hended] at h
        cases h
    · exact Later.put hp' ha halive ((procs_put_ne hqc).trans hq)
  | printed text k =>
    exact Later.put (s := { s with stderr := s.stderr ++ [(p, text)] }) hp ha halive hq

/-- What a process is after a call of it succeeded. -/
theorem Called.image (hs : Sound s) (hp : s.procs[p]? = some proc) {fd : Nat} {c : Sys}
    {k : Reply → P} (hcall : Called s p proc fd c k t) {y : Proc P} (hy : t.procs[p]? = some y) :
    (∃ argv, c = .execvp argv ∧ y.image = .command argv) ∨
      ∃ r : Reply, r.value ≠ -1 ∧ y.image = .code (k r) := by
  have hgo : ∀ {u : State P} {proc' : Proc P} {r : Reply}, u.procs[p]? = some proc → r.value ≠ -1 →
      proc'.image = .code (k r) → (u.put p proc').procs[p]? = some y →
      ∃ r : Reply, r.value ≠ -1 ∧ y.image = .code (k r) := by
    intro u proc' r hu hr himage hy
    rw [procs_put_self hu] at hy
    cases hy
    exact ⟨r, hr, himage⟩
  have hzero : ({ value := 0 } : Reply).value ≠ -1 := by decide
  cases hcall with
  | opened path k hfree =>
    rw [← create_procs s path] at hp
    exact Or.inr (hgo hp (Int.ne_of_gt (Int.lt_of_lt_of_le (by decide) (Int.natCast_nonneg fd))) rfl hy)
  | locked d k f hd hfree => exact Or.inr (hgo (u := s.lock p f) hp hzero rfl hy)
  | unlocked d k f hd => exact Or.inr (hgo (u := s.unlock p f) hp hzero rfl hy)
  | forked k =>
    refine Or.inr (hgo (u := { s with procs := s.procs ++ [_] }) (concat_of_some hp)
      (Int.ne_of_gt (Int.lt_trans ?_ (pidOf_pos s.procs.length))) rfl hy)
    decide
  | closed d k f hd => exact Or.inr (hgo (u := s.unlock p f) hp hzero rfl hy)
  | replaced argv k =>
    rw [procs_put_self hp] at hy
    cases hy
    exact Or.inl ⟨argv, rfl, rfl⟩
  | waited c k child status hc hended hparent =>
    have hpc : p ≠ c := Nat.ne_of_lt (hs.parent c child p hc hparent)
    refine Or.inr (hgo ((procs_put_ne hpc).trans hp)
      (Int.ne_of_gt (Int.lt_trans ?_ (pidOf_pos c))) rfl hy)
    decide
  | printed text k =>
    exact Or.inr (hgo (u := { s with stderr := s.stderr ++ [(p, text)] }) hp hzero rfl hy)

/-- What becomes of an entry in a step. -/
theorem Move.later (hs : Sound s) {a : Action} (h : Move m s a t) {x : Proc P}
    (hq : s.procs[q]? = some x) : ∃ y, t.procs[q]? = some y ∧ Later a q x y := by
  cases h with
  | exits p fd proc prog code hp himage hview =>
    refine Later.put (a := .succeeds p fd) (s := s.unlockAll p) hp rfl ?_ hq
    intro status reaped h
    rw [himage] at h
    cases h
  | aborts p fd proc prog hp himage hview =>
    refine Later.put (a := .succeeds p fd) (s := s.unlockAll p) hp rfl ?_ hq
    intro status reaped h
    rw [himage] at h
    cases h
  | succeeds p fd proc prog c k t hp himage hview hcall => exact hcall.later hs hp himage hq
  | fails p errno proc prog c k hp himage hview =>
    refine Later.put (a := .fails p errno) hp rfl ?_ hq
    intro status reaped h
    rw [himage] at h
    cases h
  | ends p code proc argv hp himage =>
    refine Later.put (a := .ends p code) (s := s.unlockAll p) hp rfl ?_ hq
    intro status reaped h
    rw [himage] at h
    cases h
  | killed p signal proc hp halive =>
    exact Later.put (a := .killed p signal) (s := s.unlockAll p) hp rfl halive hq
  | started args => exact ⟨x, concat_of_some hq, Later.refl (by rintro ⟨⟩) x⟩
  | removed path => exact ⟨x, hq, Later.refl (by rintro ⟨⟩) x⟩

/-- A child is there, and its end was not noticed, until the parent acts. -/
theorem Move.child {a : Action} {c : Pid} {child : Proc P} (h : Move m s a t) (hs : Sound s)
    (ha : a.actor ≠ some p) (hc : s.procs[c]? = some child) (hparent : child.parent = some p)
    (himage : ∀ status, child.image ≠ .ended status true) :
    ∃ child', t.procs[c]? = some child' ∧ child'.parent = some p ∧
      ∀ status, child'.image ≠ .ended status true := by
  obtain ⟨y, hy, hlater⟩ := h.later hs hc
  refine ⟨y, hy, hlater.parent.trans hparent, ?_⟩
  by_cases hac : a.actor = some c
  · exact hlater.mine hac
  · rcases hlater.other hac with rfl | ⟨status, -, -, hactor⟩
    · exact himage
    · exact absurd (hactor.symm.trans hparent) ha

/-- An entry that a step adds: a process that was started, or a child of the one that acts. -/
theorem Move.newcomer {a : Action} (h : Move m s a t) {y : Proc P} (hq : t.procs[q]? = some y)
    (hnew : s.procs[q]? = none) : q = s.procs.length ∧
      ((∃ args, a = .started args ∧
        y = { parent := none, args, fds := fun _ => none, image := .code (m.start args) }) ∨
      ∃ p fd proc prog k, a = .succeeds p fd ∧ s.procs[p]? = some proc ∧ proc.image = .code prog ∧
        m.view prog = .inr (.fork, k) ∧
        y = { proc.goOn (k { value := 0 }) with parent := some p }) := by
  have hput : ∀ {u : State P} {p : Pid} {proc' : Proc P}, u.procs = s.procs →
      (u.put p proc').procs[q]? ≠ some y := by
    intro u p proc' hu hy
    have hlt := (List.getElem?_eq_some_iff.mp hy).1
    rw [length_put, hu] at hlt
    exact absurd (List.getElem?_eq_none_iff.mp hnew) (Nat.not_le_of_lt hlt)
  cases h with
  | exits p fd proc prog code hp himage hview => exact absurd hq (hput rfl)
  | aborts p fd proc prog hp himage hview => exact absurd hq (hput rfl)
  | succeeds p fd proc prog c k t hp himage hview hcall =>
    cases hcall with
    | opened path k hfree => exact absurd hq (hput (create_procs s path))
    | locked d k f hd hfree => exact absurd hq (hput rfl)
    | unlocked d k f hd => exact absurd hq (hput rfl)
    | forked k =>
      rcases procs_put_cases hq with ⟨rfl, -⟩ | ⟨-, hq⟩
      · rw [hp] at hnew
        cases hnew
      · rcases concat_cases hq with ⟨rfl, rfl⟩ | hq
        · exact ⟨rfl, Or.inr ⟨p, fd, proc, prog, k, rfl, hp, himage, hview, rfl⟩⟩
        · rw [hnew] at hq
          cases hq
    | closed d k f hd => exact absurd hq (hput rfl)
    | replaced argv k => exact absurd hq (hput rfl)
    | waited c k child status hc hended hparent =>
      rcases procs_put_cases hq with ⟨rfl, -⟩ | ⟨-, hq⟩
      · rw [hp] at hnew
        cases hnew
      · exact absurd hq (hput rfl)
    | printed text k => exact absurd hq (hput rfl)
  | fails p errno proc prog c k hp himage hview => exact absurd hq (hput rfl)
  | ends p code proc argv hp himage => exact absurd hq (hput rfl)
  | killed p signal proc hp halive => exact absurd hq (hput rfl)
  | started args =>
    rcases concat_cases hq with ⟨rfl, rfl⟩ | hq
    · exact ⟨rfl, Or.inl ⟨args, rfl, rfl⟩⟩
    · rw [hnew] at hq
      cases hq
  | removed path =>
    rw [hnew] at hq
    cases hq

/-- Only a process itself gets and drops its locks. -/
theorem Move.owner {a : Action} (h : Move m s a t) (ha : a.actor ≠ some q) (f : File) :
    t.owner f = some q ↔ s.owner f = some q := by
  have hall : ∀ {p : Pid}, some p ≠ some q →
      ((s.unlockAll p).owner f = some q ↔ s.owner f = some q) := by
    intro p hpq
    rw [owner_unlockAll]
    split
    · next hp => exact iff_of_false (by rintro ⟨⟩) fun h => hpq (hp.symm.trans h)
    · exact Iff.rfl
  have hone : ∀ {p : Pid} (g : File), some p ≠ some q →
      ((s.unlock p g).owner f = some q ↔ s.owner f = some q) := by
    intro p g hpq
    rw [owner_unlock]
    split
    · next hp => exact iff_of_false (by rintro ⟨⟩) fun h => hpq (hp.2.symm.trans h)
    · exact Iff.rfl
  cases h with
  | exits p fd proc prog code hp himage hview => exact hall ha
  | aborts p fd proc prog hp himage hview => exact hall ha
  | succeeds p fd proc prog c k t hp himage hview hcall =>
    cases hcall with
    | opened path k hfree => rw [put_owner, create_owner]
    | locked d k g hd hfree =>
      rw [put_owner, owner_lock]
      split
      · next hfg =>
        subst hfg
        refine ⟨fun h => absurd h ha, fun h => ?_⟩
        rcases hfree with hfree | hfree
        · rw [h] at hfree
          cases hfree
        · exact absurd (hfree.symm.trans h) ha
      · exact Iff.rfl
    | unlocked d k g hd => exact hone g ha
    | forked k => exact Iff.rfl
    | closed d k g hd => exact hone g ha
    | replaced argv k => exact Iff.rfl
    | waited c k child status hc hended hparent => exact Iff.rfl
    | printed text k => exact Iff.rfl
  | fails p errno proc prog c k hp himage hview => exact Iff.rfl
  | ends p code proc argv hp himage => exact hall ha
  | killed p signal proc hp halive => exact hall ha
  | started args => exact Iff.rfl
  | removed path => exact Iff.rfl

/-- Files keep their names unless somebody removes them. -/
theorem Move.files {a : Action} (h : Move m s a t) {path : String} (ha : a ≠ .removed path)
    {f : File} (hf : s.files path = some f) : t.files path = some f := by
  cases h with
  | succeeds p fd proc prog c k t hp himage hview hcall =>
    cases hcall with
    | opened other k hfree => exact create_files_of_some hf
    | locked | unlocked | forked | closed | replaced | waited | printed => exact hf
  | removed other =>
    refine (Function.update_of_ne ?_ _ _).trans hf
    rintro rfl
    exact ha rfl
  | exits | aborts | fails | ends | killed | started => exact hf

/-- A descriptor that is new in a process was opened by it. -/
theorem Move.descriptors {a : Action} (h : Move m s a t) {x y : Proc P}
    (hx : s.procs[q]? = some x) (hy : t.procs[q]? = some y) {d : Int} {f : File}
    (hd : y.fds d = some f) : x.fds d = some f ∨ ∃ fd prog path k, a = .succeeds q fd ∧
      x.image = .code prog ∧ m.view prog = .inr (.openFile path, k) ∧ t.files path = some f := by
  have hput : ∀ {u : State P} {p : Pid} {proc' : Proc P}, u.procs[q]? = some x →
      (u.put p proc').procs[q]? = some y → (q = p → proc'.fds d = some f → x.fds d = some f) →
      x.fds d = some f := by
    intro u p proc' hu hy hfds
    rcases procs_put_cases hy with ⟨hqp, rfl⟩ | ⟨-, hy⟩
    · exact hfds hqp hd
    · rw [hu] at hy
      cases hy
      exact hd
  have hsame : ∀ {p : Pid} {proc : Proc P}, s.procs[p]? = some proc → q = p → proc = x := by
    intro p proc hp hqp
    subst hqp
    exact Option.some.inj (hp.symm.trans hx)
  cases h with
  | exits | aborts | ends | killed => exact Or.inl (hput (u := s.unlockAll _) hx hy (by rintro - ⟨⟩))
  | succeeds p fd proc prog c k t hp himage hview hcall =>
    cases hcall with
    | opened path k hfree =>
      rcases procs_put_cases hy with ⟨rfl, rfl⟩ | ⟨-, hy⟩
      · obtain rfl := hsame hp rfl
        by_cases hfd : d = fd
        · subst hfd
          have hcreated : some (s.created path) = some f :=
            (Function.update_self (fd : Int) _ proc.fds).symm.trans hd
          cases hcreated
          exact Or.inr ⟨fd, prog, path, k, rfl, himage, hview, create_files_self s path⟩
        · exact Or.inl ((Function.update_of_ne hfd _ _).symm.trans hd)
      · rw [create_procs, hx] at hy
        cases hy
        exact Or.inl hd
    | locked e k g he hfree =>
      exact Or.inl (hput (u := s.lock p g) hx hy (fun hqp h => hsame hp hqp ▸ h))
    | unlocked e k g he =>
      exact Or.inl (hput (u := s.unlock p g) hx hy (fun hqp h => hsame hp hqp ▸ h))
    | forked k =>
      exact Or.inl (hput (u := { s with procs := s.procs ++ [_] }) (concat_of_some hx) hy (fun hqp h => hsame hp hqp ▸ h))
    | closed e k g he =>
      refine Or.inl (hput (u := s.unlock p g) hx hy (fun hqp h => ?_))
      obtain rfl := hsame hp hqp
      by_cases hde : d = e
      · subst hde
        have hnone : none = some f := (Function.update_self d none proc.fds).symm.trans h
        cases hnone
      · exact (Function.update_of_ne hde _ _).symm.trans h
    | replaced argv k => exact Or.inl (hput hx hy (fun hqp h => hsame hp hqp ▸ h))
    | waited c k child status hc hended hparent =>
      rcases procs_put_cases hy with ⟨hqp, rfl⟩ | ⟨-, hy⟩
      · exact Or.inl (hsame hp hqp ▸ hd)
      · exact Or.inl (hput hx hy (fun hqc h => hsame hc hqc ▸ h))
    | printed text k =>
      exact Or.inl (hput (u := { s with stderr := s.stderr ++ [(p, text)] }) hx hy (fun hqp h => hsame hp hqp ▸ h))
  | fails p errno proc prog c k hp himage hview =>
    exact Or.inl (hput hx hy (fun hqp h => hsame hp hqp ▸ h))
  | started args =>
    rw [concat_of_some hx] at hy
    cases hy
    exact Or.inl hd
  | removed path =>
    rw [show ({ s with files := Function.update s.files path none } : State P).procs[q]? = some x
      from hx] at hy
    cases hy
    exact Or.inl hd

/-! ## Maps of machines -/

/-- The same image of the program that `f` makes of it. -/
def Image.map (f : P → Q) : Image P → Image Q
  | .code prog => .code (f prog)
  | .command argv => .command argv
  | .ended status reaped => .ended status reaped

/-- The same process with the programs that `f` makes of those it runs. -/
def Proc.map (f : P → Q) (proc : Proc P) : Proc Q :=
  { parent := proc.parent, args := proc.args, fds := proc.fds, image := proc.image.map f }

/-- The same kernel with the programs that `f` makes of those it runs. -/
def State.map (f : P → Q) (s : State P) : State Q :=
  { files := s.files, made := s.made, owner := s.owner, procs := s.procs.map (Proc.map f)
    stderr := s.stderr }

/-- The programs of `m` go on, and are started, as what `f` makes of them does on `m'`. -/
structure Machine.Maps (f : P → Q) (m : Machine P) (m' : Machine Q) : Prop where
  view : ∀ prog, m'.view (f prog) = (m.view prog).map id (Prod.map id (f ∘ ·))
  start : ∀ args, m'.start args = f (m.start args)

section Map

variable {m' : Machine Q} {f : P → Q}

theorem map_procs (s : State P) (p : Pid) :
    (s.map f).procs[p]? = (s.procs[p]?).map (Proc.map f) := List.getElem?_map

theorem map_put (s : State P) (p : Pid) (proc : Proc P) :
    (s.put p proc).map f = (s.map f).put p (proc.map f) := by
  simp [State.put, State.map, List.map_set]

theorem map_terminate (s : State P) (p : Pid) (proc : Proc P) (status : Nat) :
    (s.terminate p proc status).map f = (s.map f).terminate p (proc.map f) status :=
  map_put (s.unlockAll p) p (proc.finished status)

theorem map_create (s : State P) (path : String) :
    (s.create path).map f = (s.map f).create path := by
  simp only [State.create, State.map]
  split <;> rfl

/-- Calls do the same. -/
theorem call_map (s : State P) (p : Pid) (proc : Proc P) (fd : Nat) (c : Sys) (k : Reply → P) :
    call (s.map f) p (proc.map f) fd c (f ∘ k) = (call s p proc fd c k).map (State.map f) := by
  cases c with
  | openFile path =>
    show (if proc.fds fd = none then _ else _) = Option.map _ (if proc.fds fd = none then _ else _)
    split
    · rw [Option.map_some, map_put, map_create]
      rfl
    · rfl
  | setlkw d type =>
    cases type with
    | F_WRLCK =>
      show (proc.fds d).bind _ = Option.map _ ((proc.fds d).bind _)
      cases proc.fds d with
      | none => rfl
      | some g =>
        show (if s.owner g = none ∨ s.owner g = some p then _ else _) =
          Option.map _ (if s.owner g = none ∨ s.owner g = some p then _ else _)
        split
        · rw [Option.map_some, map_put]
          rfl
        · rfl
    | F_UNLCK =>
      show (proc.fds d).bind _ = Option.map _ ((proc.fds d).bind _)
      cases proc.fds d with
      | none => rfl
      | some g =>
        rw [Option.bind_some, Option.bind_some, Option.map_some, map_put]
        rfl
  | fork =>
    rw [call, call, Option.map_some, map_put]
    simp [State.map, Proc.map, Proc.goOn, Image.map]
  | close d =>
    show (proc.fds d).bind _ = Option.map _ ((proc.fds d).bind _)
    cases proc.fds d with
    | none => rfl
    | some g =>
      rw [Option.bind_some, Option.bind_some, Option.map_some, map_put]
      rfl
  | execvp argv =>
    rw [call, call, Option.map_some, map_put]
    rfl
  | waitpid pid =>
    show (placeOf pid).bind _ = Option.map _ ((placeOf pid).bind _)
    cases placeOf pid with
    | none => rfl
    | some c =>
      show ((s.map f).procs[c]?).bind _ = Option.map _ ((s.procs[c]?).bind _)
      rw [map_procs]
      rcases s.procs[c]? with _ | ⟨parent, args, fds, image⟩
      · rfl
      · rcases image with prog | argv | ⟨status, _ | _⟩
        · rfl
        · rfl
        · show (if parent = some p then _ else _) = Option.map _ (if parent = some p then _ else _)
          split
          · rw [Option.map_some, map_put, map_put]
            rfl
          · rfl
        · rfl
  | fprintf text =>
    rw [call, call, Option.map_some, map_put]
    rfl

/-- Steps do the same. -/
theorem Machine.Maps.step (h : m.Maps f m') (s : State P) (a : Action) :
    step m' (s.map f) a = (step m s a).map (State.map f) := by
  cases a with
  | succeeds p fd =>
    show ((s.map f).procs[p]?).bind _ = Option.map _ ((s.procs[p]?).bind _)
    rw [map_procs]
    rcases s.procs[p]? with _ | ⟨parent, args, fds, image⟩
    · rfl
    · rcases image with prog | argv | ⟨status, reaped⟩
      · show advance _ p _ fd (m'.view (f prog)) = Option.map _ (advance s p _ fd (m.view prog))
        rw [h.view]
        rcases m.view prog with (code | _) | ⟨c, k⟩
        · exact congrArg some (map_terminate s p _ _).symm
        · exact congrArg some (map_terminate s p _ _).symm
        · exact call_map s p _ fd c k
      · rfl
      · rfl
  | fails p errno =>
    show ((s.map f).procs[p]?).bind _ = Option.map _ ((s.procs[p]?).bind _)
    rw [map_procs]
    rcases s.procs[p]? with _ | ⟨parent, args, fds, image⟩
    · rfl
    · rcases image with prog | argv | ⟨status, reaped⟩
      · show refuse _ p _ errno (m'.view (f prog)) = Option.map _ (refuse s p _ errno (m.view prog))
        rw [h.view]
        rcases m.view prog with e | ⟨c, k⟩
        · rfl
        · exact congrArg some (map_put s p (Proc.goOn ⟨parent, args, fds, _⟩ _)).symm
      · rfl
      · rfl
  | ends p code =>
    show ((s.map f).procs[p]?).bind _ = Option.map _ ((s.procs[p]?).bind _)
    rw [map_procs]
    rcases s.procs[p]? with _ | ⟨parent, args, fds, image⟩
    · rfl
    · rcases image with prog | argv | ⟨status, reaped⟩
      · rfl
      · exact congrArg some (map_terminate s p _ _).symm
      · rfl
  | killed p signal =>
    show ((s.map f).procs[p]?).bind _ = Option.map _ ((s.procs[p]?).bind _)
    rw [map_procs]
    rcases s.procs[p]? with _ | ⟨parent, args, fds, image⟩
    · rfl
    · rcases image with prog | argv | ⟨status, reaped⟩
      · exact congrArg some (map_terminate s p _ _).symm
      · exact congrArg some (map_terminate s p _ _).symm
      · rfl
  | started args =>
    simp [Kernel.step, State.map, Proc.map, Image.map, h.start]
  | removed path => rfl

/-- Processes are about to make the same calls. -/
theorem Machine.Maps.pending (h : m.Maps f m') (s : State P) (p : Pid) :
    Kernel.pending m' (s.map f) p = Kernel.pending m s p := by
  show ((s.map f).procs[p]?).bind _ = (s.procs[p]?).bind _
  rw [map_procs]
  rcases s.procs[p]? with _ | ⟨parent, args, fds, image⟩
  · rfl
  · rcases image with prog | argv | ⟨status, reaped⟩
    · show callOf (m'.view (f prog)) = callOf (m.view prog)
      rw [h.view]
      rcases m.view prog with e | ⟨c, k⟩ <;> rfl
    · rfl
    · rfl

/-- A state without processes is the image of one. -/
theorem Fresh.preimage {s : State Q} (h : Fresh s) (f : P → Q) :
    ∃ s' : State P, Fresh s' ∧ s'.map f = s := by
  obtain ⟨files, made, owner, procs, stderr⟩ := s
  obtain rfl : procs = [] := h.procs
  exact ⟨⟨files, made, owner, [], stderr⟩, ⟨h.files, h.owner, rfl, h.stderr⟩, rfl⟩

/-- Runs do the same. -/
theorem Machine.Maps.run (h : m.Maps f m') (s : State P) (as : List Action) :
    Foundation.run (Kernel.step m') (s.map f) as = (Foundation.run (Kernel.step m) s as).map (State.map f) :=
  run_map (State.map f) h.step s as

end Map

end Kernel

end Foundation
