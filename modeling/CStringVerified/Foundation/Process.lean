import Mathlib.Tactic.Basic

/-!
# Programs as trees of system calls

A program is what it asks of its environment: `Process C R α` is a tree whose nodes are calls of `C`
and whose branches are the replies of `R`; a leaf is the way it ends. Two copies of a program that
has reached a node are two copies of that node, which is what makes `fork` expressible.

`Script` is the monad such programs are written in: a private state `σ`, an early end `ε` that no
later part of the program undoes, and calls in between.
-/

namespace Foundation

/-- A program that makes calls of `C`, branches on replies of `R`, and ends in an `α`. -/
inductive Process (C R α : Type) where
  /-- The program has ended. -/
  | ret (a : α)
  /-- The program makes the call `c`, and goes on with `k` applied to the reply. -/
  | call (c : C) (k : R → Process C R α)

namespace Process

variable {C R α β : Type}

/-- Run the second program where the first one ends. -/
def bind : Process C R α → (α → Process C R β) → Process C R β
  | ret a, f => f a
  | call c k, f => call c fun r => (k r).bind f

@[simp] theorem ret_bind (a : α) (f : α → Process C R β) : (ret a).bind f = f a := rfl

@[simp] theorem call_bind (c : C) (k : R → Process C R α) (f : α → Process C R β) :
    (call c k).bind f = call c fun r => (k r).bind f := rfl

/-- How a program goes on: it ends, or it makes a call and has a way to continue. -/
def view : Process C R α → α ⊕ (C × (R → Process C R α))
  | ret a => .inl a
  | call c k => .inr (c, k)

end Process

/-- A part of a program with a private state `σ` that returns an `α` or ends it with an `ε`. -/
def Script (C R ε σ α : Type) : Type := σ → Process C R (Except ε α × σ)

namespace Script

variable {C R ε σ α β : Type}

instance : Monad (Script C R ε σ) where
  pure a := fun s => .ret (.ok a, s)
  bind m f := fun s => (m s).bind fun
    | (.ok a, s') => f a s'
    | (.error e, s') => .ret (.error e, s')

/-- End the program. -/
def finish (e : ε) : Script C R ε σ α := fun s => .ret (.error e, s)

/-- The private state. -/
def get : Script C R ε σ σ := fun s => .ret (.ok s, s)

/-- Update the private state. -/
def modify (f : σ → σ) : Script C R ε σ Unit := fun s => .ret (.ok (), f s)

/-- Make a call. -/
def perform (c : C) : Script C R ε σ R := fun s => .call c fun r => .ret (.ok r, s)

/-- The program a whole script is: it ends as `last` says of its result, unless it ended before. -/
def program (m : Script C R ε σ α) (last : α → ε) (s : σ) : Process C R ε :=
  (m s).bind fun
    | (.ok a, _) => .ret (last a)
    | (.error e, _) => .ret e

@[simp] theorem pure_apply (a : α) (s : σ) : (pure a : Script C R ε σ α) s = .ret (.ok a, s) := rfl

@[simp] theorem finish_apply (e : ε) (s : σ) :
    (finish e : Script C R ε σ α) s = .ret (.error e, s) := rfl

@[simp] theorem get_apply (s : σ) : (get : Script C R ε σ σ) s = .ret (.ok s, s) := rfl

@[simp] theorem modify_apply (f : σ → σ) (s : σ) :
    (modify f : Script C R ε σ Unit) s = .ret (.ok (), f s) := rfl

@[simp] theorem perform_apply (c : C) (s : σ) :
    (perform c : Script C R ε σ R) s = .call c fun r => .ret (.ok r, s) := rfl

/-- The second part goes on where the first one returns, and not where it ended the program. -/
@[simp] theorem bind_apply (m : Script C R ε σ α) (f : α → Script C R ε σ β) (s : σ) :
    (m >>= f) s = (m s).bind fun
      | (.ok a, s') => f a s'
      | (.error e, s') => .ret (.error e, s') := rfl

end Script

end Foundation
