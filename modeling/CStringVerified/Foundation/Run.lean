import Mathlib.Order.Defs.Unbundled
import Mathlib.Tactic.Basic

/-!
# Computations with a state that survives an abrupt end

`Run ε σ α` is a computation over a state `σ` that either returns a value of `α` or ends abruptly
with some `e : ε`. The state reached is part of the outcome in both cases: an exception does not
undo what happened before it.

The module also holds the two loop shapes of imperative code, `Run.loop` (repeat a body until it
hands back a result) and `Run.forUp` (count upwards through an interval), with the rules the proofs
about loops use, and the frame rules of `Run.Keeps`.
-/

namespace Foundation

/-- A computation over `σ` that returns an `α` or ends abruptly with an `ε`. -/
def Run (ε σ α : Type) : Type := σ → Except ε α × σ

namespace Run

variable {ε σ α β γ : Type}

instance : Monad (Run ε σ) where
  pure a := fun s => (.ok a, s)
  bind m f := fun s =>
    match m s with
    | (.ok a, s') => f a s'
    | (.error e, s') => (.error e, s')

/-- End abruptly. -/
def fail (e : ε) : Run ε σ α := fun s => (.error e, s)

/-- Go on with a result that there must be. -/
def orFail (e : ε) : Option α → Run ε σ α
  | some a => fun s => (.ok a, s)
  | none => fail e

/-- The current state. -/
def get : Run ε σ σ := fun s => (.ok s, s)

/-- Replace the state. -/
def set (s : σ) : Run ε σ Unit := fun _ => (.ok (), s)

/-- Update the state. -/
def modify (f : σ → σ) : Run ε σ Unit := fun s => (.ok (), f s)

@[simp] theorem pure_apply (a : α) (s : σ) : (pure a : Run ε σ α) s = (.ok a, s) := rfl

@[simp] theorem fail_apply (e : ε) (s : σ) : (fail e : Run ε σ α) s = (.error e, s) := rfl

@[simp] theorem get_apply (s : σ) : (get : Run ε σ σ) s = (.ok s, s) := rfl

@[simp] theorem set_apply (t s : σ) : (set t : Run ε σ Unit) s = (.ok (), t) := rfl

@[simp] theorem modify_apply (f : σ → σ) (s : σ) :
    (modify f : Run ε σ Unit) s = (.ok (), f s) := rfl

theorem bind_apply (m : Run ε σ α) (f : α → Run ε σ β) (s : σ) :
    (m >>= f) s = match m s with
      | (.ok a, s') => f a s'
      | (.error e, s') => (.error e, s') := rfl

/-- The first part returns: the second part runs from the state it left. -/
theorem bind_ok {m : Run ε σ α} {f : α → Run ε σ β} {s s' : σ} {a : α} (h : m s = (.ok a, s')) :
    (m >>= f) s = f a s' := by
  rw [bind_apply, h]

/-- The first part ends abruptly: so does the whole. -/
theorem bind_error {m : Run ε σ α} {f : α → Run ε σ β} {s s' : σ} {e : ε}
    (h : m s = (.error e, s')) : (m >>= f) s = (.error e, s') := by
  rw [bind_apply, h]

@[simp] theorem pure_bind_apply (a : α) (f : α → Run ε σ β) (s : σ) :
    (pure a >>= f) s = f a s := rfl

@[simp] theorem fail_bind_apply (e : ε) (f : α → Run ε σ β) (s : σ) :
    ((fail e : Run ε σ α) >>= f) s = (.error e, s) := rfl

@[simp] theorem get_bind_apply (f : σ → Run ε σ β) (s : σ) : (get >>= f) s = f s s := rfl

@[simp] theorem set_bind_apply (t : σ) (f : Unit → Run ε σ β) (s : σ) :
    ((set t : Run ε σ Unit) >>= f) s = f () t := rfl

@[simp] theorem modify_bind_apply (g : σ → σ) (f : Unit → Run ε σ β) (s : σ) :
    ((modify g : Run ε σ Unit) >>= f) s = f () (g s) := rfl

/-- A run returns one result, and leaves one state. -/
theorem ok_unique {m : Run ε σ α} {s t u : σ} {a b : α} (h : m s = (.ok a, t))
    (h' : m s = (.ok b, u)) : a = b ∧ t = u := by
  rw [h] at h'
  cases h'
  exact ⟨rfl, rfl⟩

/-- What a run returns says how it ends. -/
theorem run_of_fst {m : Run ε σ α} {s : σ} {a : α} (h : (m s).1 = .ok a) : m s = (.ok a, (m s).2) := by
  rw [← h]

/-- A sequence that returns: its first part returned, and the rest returned from there. -/
theorem bind_eq_ok {m : Run ε σ α} {f : α → Run ε σ β} {s t : σ} {b : β}
    (h : (m >>= f) s = (.ok b, t)) : ∃ a s', m s = (.ok a, s') ∧ f a s' = (.ok b, t) := by
  rw [bind_apply] at h
  match hm : m s with
  | (.ok a, s') => rw [hm] at h; exact ⟨a, s', rfl, h⟩
  | (.error e, s') => rw [hm] at h; simp at h

/-! ## Loops -/

/-- Repeat `body` on a loop state: `.inl` goes round again, `.inr` leaves the loop. At most `fuel`
rounds are made; a loop that is still going then ends with `exhausted`. -/
def loop (body : β → Run ε σ (β ⊕ γ)) (exhausted : β → Run ε σ γ) : Nat → β → Run ε σ γ
  | 0, b => exhausted b
  | fuel + 1, b => do
    match ← body b with
    | .inl b' => loop body exhausted fuel b'
    | .inr c => pure c

/-- The loop state reached after exactly `n` rounds that went round again. -/
def rounds (body : β → Run ε σ (β ⊕ γ)) : Nat → β → σ → Option (β × σ)
  | 0, b, s => some (b, s)
  | n + 1, b, s =>
    match body b s with
    | (.ok (.inl b'), s') => rounds body n b' s'
    | _ => none

/-- `n` copies of the body of a loop, one after the other. -/
def unrolled (body : β → Run ε σ (β ⊕ γ)) : Nat → β → Run ε σ (β ⊕ γ)
  | 0, b => pure (.inl b)
  | n + 1, b => do
    match ← body b with
    | .inl b' => unrolled body n b'
    | .inr c => pure (.inr c)

/-- Count through the `count` integers from `first` upwards. -/
def forFrom (body : Int → β → Run ε σ β) : Nat → Int → β → Run ε σ β
  | 0, _, b => pure b
  | count + 1, first, b => do
    let b' ← body first b
    forFrom body count (first + 1) b'

/-- `for i in first .. last`: nothing happens when the range is empty. -/
def forUp (first last : Int) (b : β) (body : Int → β → Run ε σ β) : Run ε σ β :=
  forFrom body (last - first + 1).toNat first b

/-- The results of `f 0`, ..., `f (n - 1)`, computed in this order. -/
def collect (f : Nat → Run ε σ α) : (n : Nat) → Run ε σ (Vector α n)
  | 0 => pure #v[]
  | n + 1 => do
    let v ← collect f n
    let a ← f n
    pure (v.push a)

section Loop

variable {body : β → Run ε σ (β ⊕ γ)} {exhausted : β → Run ε σ γ}

theorem loop_continue {fuel : Nat} {b b' : β} {s s' : σ} (h : body b s = (.ok (.inl b'), s')) :
    loop body exhausted (fuel + 1) b s = loop body exhausted fuel b' s' := by
  simp only [loop]
  exact bind_ok h

theorem loop_return {fuel : Nat} {b : β} {s s' : σ} {c : γ} (h : body b s = (.ok (.inr c), s')) :
    loop body exhausted (fuel + 1) b s = (.ok c, s') := by
  simp only [loop]
  exact bind_ok h

theorem loop_error {fuel : Nat} {b : β} {s s' : σ} {e : ε} (h : body b s = (.error e, s')) :
    loop body exhausted (fuel + 1) b s = (.error e, s') := by
  simp only [loop]
  exact bind_error h

/-- The first rounds of a loop, and those that are left. -/
theorem loop_add (n fuel : Nat) (b : β) (s : σ) :
    loop body exhausted (n + fuel) b s =
      (unrolled body n b >>= fun
        | .inl b' => loop body exhausted fuel b'
        | .inr c => pure c) s := by
  induction n generalizing b s with
  | zero =>
    rw [Nat.zero_add]
    rfl
  | succ n ih =>
    rw [Nat.succ_add, loop, unrolled, bind_apply, bind_apply, bind_apply]
    rcases body b s with ⟨e | b' | c, s'⟩
    · rfl
    · exact ih b' s'
    · rfl

/-- A loop whose body was written out several times runs as the plain one does. -/
theorem loop_unrolled (n fuel : Nat) (b : β) (s : σ) :
    loop (unrolled body n) exhausted fuel b s = loop body exhausted (n * fuel) b s := by
  induction fuel generalizing b s with
  | zero => rfl
  | succ fuel ih =>
    have hmul : n * (fuel + 1) = n + n * fuel := by rw [Nat.mul_succ, Nat.add_comm]
    rw [hmul, loop_add n (n * fuel), loop, bind_apply, bind_apply]
    rcases unrolled body n b s with ⟨e | b' | c, s'⟩
    · rfl
    · exact ih b' s'
    · rfl

/-- A loop whose invariant counts its rounds: if round `k < n` goes round again and round `n` ends
the loop (with a result or abruptly), the loop ends as round `n` does, provided the fuel covers
`n + 1` rounds. -/
theorem loop_spec (inv : Nat → β → σ → Prop) (post : Except ε γ → σ → Prop) (n : Nat)
    (hstep : ∀ k b s, k < n → inv k b s → ∃ b' s', body b s = (.ok (.inl b'), s') ∧ inv (k + 1) b' s')
    (hlast : ∀ b s, inv n b s → (∃ c s', body b s = (.ok (.inr c), s') ∧ post (.ok c) s') ∨
      ∃ e s', body b s = (.error e, s') ∧ post (.error e) s')
    {fuel : Nat} {b : β} {s : σ} (hfuel : n < fuel) (h0 : inv 0 b s) :
    ∃ r s', loop body exhausted fuel b s = (r, s') ∧ post r s' := by
  have key : ∀ (fuel k : Nat) (b : β) (s : σ), k ≤ n → n < k + fuel → inv k b s →
      ∃ r s', loop body exhausted fuel b s = (r, s') ∧ post r s' := by
    intro fuel
    induction fuel with
    | zero => intro k b s h1 h2; omega
    | succ fuel ih =>
      intro k b s hk hfuel hinv
      by_cases hkn : k < n
      · obtain ⟨b', s', hb, hinv'⟩ := hstep k b s hkn hinv
        rw [loop_continue hb]
        exact ih (k + 1) b' s' (by omega) (by omega) hinv'
      · obtain rfl : k = n := by omega
        rcases hlast b s hinv with ⟨c, s', hb, hp⟩ | ⟨e, s', hb, hp⟩
        · exact ⟨.ok c, s', loop_return hb, hp⟩
        · exact ⟨.error e, s', loop_error hb, hp⟩
  exact key fuel 0 b s (Nat.zero_le n) (by omega) h0

/-- A loop that only reads. -/
theorem loop_eq (inv : Nat → β → Prop) (n : Nat) {s : σ} {r : Except ε γ}
    (hstep : ∀ k b, k < n → inv k b → ∃ b', body b s = (.ok (.inl b'), s) ∧ inv (k + 1) b')
    (hlast : ∀ b, inv n b → (∃ c, body b s = (.ok (.inr c), s) ∧ r = .ok c) ∨
      ∃ e, body b s = (.error e, s) ∧ r = .error e)
    {fuel : Nat} {b : β} (hfuel : n < fuel) (h0 : inv 0 b) :
    loop body exhausted fuel b s = (r, s) := by
  obtain ⟨r', s', hrun, rfl, rfl⟩ : ∃ r' s', loop body exhausted fuel b s = (r', s') ∧
      r' = r ∧ s' = s := by
    refine loop_spec (fun k b t => inv k b ∧ t = s) (fun r' t => r' = r ∧ t = s) n ?_ ?_ hfuel ⟨h0, rfl⟩
    · rintro k b t hk ⟨hinv, rfl⟩
      obtain ⟨b', hb, hinv'⟩ := hstep k b hk hinv
      exact ⟨b', t, hb, hinv', rfl⟩
    · rintro b t ⟨hinv, rfl⟩
      rcases hlast b hinv with ⟨c, hb, rfl⟩ | ⟨e, hb, rfl⟩
      · exact Or.inl ⟨c, t, hb, rfl, rfl⟩
      · exact Or.inr ⟨e, t, hb, rfl, rfl⟩
  exact hrun

/-- Partial correctness of a loop: what every round preserves, and every way out establishes,
holds of the outcome. -/
theorem loop_post (inv : β → σ → Prop) (post : Except ε γ → σ → Prop)
    (hcont : ∀ b s b' s', inv b s → body b s = (.ok (.inl b'), s') → inv b' s')
    (hret : ∀ b s c s', inv b s → body b s = (.ok (.inr c), s') → post (.ok c) s')
    (herr : ∀ b s e s', inv b s → body b s = (.error e, s') → post (.error e) s')
    (hexh : ∀ b s, inv b s → post (exhausted b s).1 (exhausted b s).2) :
    ∀ (fuel : Nat) {b : β} {s : σ}, inv b s →
      post (loop body exhausted fuel b s).1 (loop body exhausted fuel b s).2 := by
  intro fuel
  induction fuel with
  | zero => intro b s h; exact hexh b s h
  | succ fuel ih =>
    intro b s h
    match hb : body b s with
    | (.ok (.inl b'), s') => rw [loop_continue hb]; exact ih (hcont b s b' s' h hb)
    | (.ok (.inr c), s') => rw [loop_return hb]; exact hret b s c s' h hb
    | (.error e, s') => rw [loop_error hb]; exact herr b s e s' h hb

/-- What a loop that returns has established. -/
theorem loop_ok (inv : β → σ → Prop) (post : γ → σ → Prop)
    (hcont : ∀ b s b' s', inv b s → body b s = (.ok (.inl b'), s') → inv b' s')
    (hret : ∀ b s c s', inv b s → body b s = (.ok (.inr c), s') → post c s')
    (hexh : ∀ b s c s', exhausted b s ≠ (.ok c, s')) {fuel : Nat} {b : β} {s s' : σ} {c : γ}
    (h : inv b s) (hrun : loop body exhausted fuel b s = (.ok c, s')) : post c s' := by
  have hpost : ∀ c', (loop body exhausted fuel b s).1 = .ok c' →
      post c' (loop body exhausted fuel b s).2 := by
    refine loop_post inv (fun r t => ∀ c', r = .ok c' → post c' t) hcont ?_ ?_ ?_ fuel h
    · rintro b s c s' hinv hb c' ⟨⟩
      exact hret b s c s' hinv hb
    · rintro b s e s' - - c' ⟨⟩
    · rintro b s - c' hc'
      exact (hexh b s c' _ (run_of_fst hc')).elim
  rw [hrun] at hpost
  exact hpost c rfl

/-- Total correctness of a loop: the rounds return, and one that goes round again keeps the invariant
and leaves less to do. -/
theorem loop_total (inv : β → σ → Prop) (left : β → σ → Nat) (post : γ → σ → Prop)
    (hround : ∀ b s, inv b s → ∃ r s', body b s = (.ok r, s') ∧
      (∀ b', r = .inl b' → inv b' s' ∧ left b' s' < left b s) ∧ ∀ c, r = .inr c → post c s') :
    ∀ {fuel : Nat} {b : β} {s : σ}, left b s < fuel → inv b s →
      ∃ c s', loop body exhausted fuel b s = (.ok c, s') ∧ post c s' := by
  intro fuel
  induction fuel with
  | zero => intro b s hfuel; exact absurd hfuel (Nat.not_lt_zero _)
  | succ fuel ih =>
    intro b s hfuel hinv
    obtain ⟨r, s', hbody, hnext, hpost⟩ := hround b s hinv
    cases r with
    | inr c => exact ⟨c, s', loop_return hbody, hpost c rfl⟩
    | inl b' =>
      obtain ⟨hinv', hless⟩ := hnext b' rfl
      obtain ⟨c, t, hrest, hc⟩ := ih (by omega) hinv'
      exact ⟨c, t, (loop_continue hbody).trans hrest, hc⟩

/-- Rounds that all go round again are all made. -/
theorem rounds_spec (inv : Nat → β → σ → Prop) {n : Nat}
    (hstep : ∀ k b s, k < n → inv k b s → ∃ b' s', body b s = (.ok (.inl b'), s') ∧ inv (k + 1) b' s') :
    ∀ (m k : Nat) {b : β} {s : σ}, k + m = n → inv k b s →
      ∃ b' s', rounds body m b s = some (b', s') ∧ inv n b' s' := by
  intro m
  induction m with
  | zero =>
    intro k b s hk h
    obtain rfl : k = n := by omega
    exact ⟨b, s, rfl, h⟩
  | succ m ih =>
    intro k b s hk h
    obtain ⟨b', s', hb, h'⟩ := hstep k b s (by omega) h
    obtain ⟨b2, s2, hr, h2⟩ := ih (k + 1) (by omega) h'
    exact ⟨b2, s2, by simp only [rounds, hb, hr], h2⟩

/-- A loop that has made all its rounds ends as the exhausted loop does. -/
theorem loop_rounds (exhausted : β → Run ε σ γ) {n : Nat} {b b' : β} {s s' : σ}
    (h : rounds body n b s = some (b', s')) : loop body exhausted n b s = exhausted b' s' := by
  induction n generalizing b s with
  | zero =>
    cases h
    rfl
  | succ n ih =>
    rw [rounds] at h
    split at h
    · rename_i hb
      exact (loop_continue hb).trans (ih h)
    · cases h

/-- A loop whose rounds all go round again ends as the exhausted loop does. -/
theorem loop_exhausted (exhausted : β → Run ε σ γ) (inv : Nat → β → σ → Prop) {fuel : Nat}
    (hstep : ∀ k b s, k < fuel → inv k b s →
      ∃ b' s', body b s = (.ok (.inl b'), s') ∧ inv (k + 1) b' s') {b : β} {s : σ} (h0 : inv 0 b s) :
    ∃ b' s', loop body exhausted fuel b s = exhausted b' s' ∧ inv fuel b' s' := by
  obtain ⟨b', s', hrounds, hinv⟩ := rounds_spec inv hstep fuel 0 (Nat.zero_add fuel) h0
  exact ⟨b', s', loop_rounds exhausted hrounds, hinv⟩

/-- The state of the `n`-th round satisfies what the rounds before it established. -/
theorem rounds_inv (inv : Nat → β → σ → Prop)
    (hcont : ∀ k b s b' s', inv k b s → body b s = (.ok (.inl b'), s') → inv (k + 1) b' s') :
    ∀ {n k : Nat} {b b' : β} {s s' : σ}, inv k b s → rounds body n b s = some (b', s') →
      inv (k + n) b' s' := by
  intro n
  induction n with
  | zero =>
    intro k b b' s s' h hr
    simp only [rounds, Option.some.injEq, Prod.mk.injEq] at hr
    obtain ⟨rfl, rfl⟩ := hr
    exact h
  | succ n ih =>
    intro k b b' s s' h hr
    simp only [rounds] at hr
    split at hr
    · rename_i b1 s1 hb
      have := ih (hcont k b s b1 s1 h hb) hr
      rwa [show k + (n + 1) = k + 1 + n by omega]
    · cases hr

end Loop

section For

variable {body : Int → β → Run ε σ β}

/-- A counting loop: an invariant indexed by the number of rounds made carries to the end, or to the
round that ends abruptly. -/
theorem forFrom_spec (inv : Nat → β → σ → Prop) (post : ε → σ → Prop) {count : Nat} {first : Int}
    (hstep : ∀ k b s, k < count → inv k b s →
      (∃ b' s', body (first + k) b s = (.ok b', s') ∧ inv (k + 1) b' s') ∨
        ∃ e s', body (first + k) b s = (.error e, s') ∧ post e s') :
    ∀ (n k : Nat) {b : β} {s : σ}, k + n = count → inv k b s →
      (∃ b' s', forFrom body n (first + k) b s = (.ok b', s') ∧ inv count b' s') ∨
        ∃ e s', forFrom body n (first + k) b s = (.error e, s') ∧ post e s' := by
  intro n
  induction n with
  | zero =>
    intro k b s hk h
    obtain rfl : k = count := by omega
    exact Or.inl ⟨b, s, rfl, h⟩
  | succ n ih =>
    intro k b s hk h
    have hnext : first + (k : Int) + 1 = first + (k + 1 : Nat) := by push_cast; omega
    simp only [forFrom, hnext]
    rcases hstep k b s (by omega) h with ⟨b', s', hb, h'⟩ | ⟨e, s', hb, hp⟩
    · rw [bind_ok hb]
      exact ih (k + 1) (by omega) h'
    · exact Or.inr ⟨e, s', bind_error hb, hp⟩

/-- The same for `for i in first .. last`, from an empty range on. -/
theorem forUp_spec (inv : Nat → β → σ → Prop) (post : ε → σ → Prop) {first last : Int} {b : β}
    {s : σ}
    (hstep : ∀ k b s, k < (last - first + 1).toNat → inv k b s →
      (∃ b' s', body (first + k) b s = (.ok b', s') ∧ inv (k + 1) b' s') ∨
        ∃ e s', body (first + k) b s = (.error e, s') ∧ post e s')
    (h0 : inv 0 b s) :
    (∃ b' s', forUp first last b body s = (.ok b', s') ∧ inv (last - first + 1).toNat b' s') ∨
      ∃ e s', forUp first last b body s = (.error e, s') ∧ post e s' := by
  have := forFrom_spec inv post hstep (last - first + 1).toNat 0 (by omega) h0
  simpa [forUp] using this

/-- A counting loop whose body always returns. -/
theorem forUp_ok (inv : Nat → β → σ → Prop) {first last : Int} {b : β} {s : σ}
    (hstep : ∀ k b s, k < (last - first + 1).toNat → inv k b s →
      ∃ b' s', body (first + k) b s = (.ok b', s') ∧ inv (k + 1) b' s')
    (h0 : inv 0 b s) :
    ∃ b' s', forUp first last b body s = (.ok b', s') ∧ inv (last - first + 1).toNat b' s' := by
  rcases forUp_spec inv (fun _ _ => False) (fun k b s hk h => Or.inl (hstep k b s hk h)) h0 with
    hok | ⟨e, s', -, hfalse⟩
  · exact hok
  · exact hfalse.elim

end For

section Collect

variable {f : Nat → Run ε σ α} {s : σ}

/-- Elements that are computed without touching the state are collected without touching it. -/
theorem collect_spec {n : Nat} (P : ∀ k, k < n → α → Prop)
    (h : ∀ k (hk : k < n), ∃ a, f k s = (.ok a, s) ∧ P k hk a) :
    ∃ v : Vector α n, collect f n s = (.ok v, s) ∧ ∀ k (hk : k < n), P k hk v[k] := by
  induction n with
  | zero => exact ⟨#v[], rfl, fun k hk => absurd hk (Nat.not_lt_zero k)⟩
  | succ n ih =>
    obtain ⟨v, hv, hP⟩ := ih (fun k hk => P k (by omega)) fun k hk => h k (by omega)
    obtain ⟨a, ha, hPa⟩ := h n (by omega)
    refine ⟨v.push a, ?_, fun k hk => ?_⟩
    · simp only [collect]
      rw [bind_ok hv, bind_ok ha, pure_apply]
    · by_cases hkn : k < n
      · rw [Vector.getElem_push_lt hkn]
        exact hP k hkn
      · obtain rfl : k = n := by omega
        rw [Vector.getElem_push_eq]
        exact hPa

/-- A collection whose elements come out the same from two states comes out the same. -/
theorem collect_congr {n : Nat} {s' : σ} (post : ε → Prop)
    (h : ∀ k, k < n → ∃ r, f k s = (r, s) ∧ f k s' = (r, s') ∧ ∀ e, r = .error e → post e) :
    ∃ r, collect f n s = (r, s) ∧ collect f n s' = (r, s') ∧ ∀ e, r = .error e → post e := by
  induction n with
  | zero => exact ⟨_, rfl, rfl, by rintro e ⟨⟩⟩
  | succ n ih =>
    simp only [collect]
    obtain ⟨r, hr, hr', hp⟩ := ih fun k hk => h k (by omega)
    cases r with
    | error e => exact ⟨.error e, bind_error hr, bind_error hr', fun _ he => hp _ (by cases he; rfl)⟩
    | ok v =>
      rw [bind_ok hr, bind_ok hr']
      obtain ⟨r, hr, hr', hp⟩ := h n (by omega)
      cases r with
      | error e =>
        exact ⟨.error e, bind_error hr, bind_error hr', fun _ he => hp _ (by cases he; rfl)⟩
      | ok a => exact ⟨.ok (v.push a), bind_ok hr, bind_ok hr', by rintro e ⟨⟩⟩

end Collect

/-! ## Runs that return -/

/-- A run that does not end abruptly. -/
def Returns (m : Run ε σ α) (s : σ) : Prop := ∃ a s', m s = (.ok a, s')

section Returns

variable {s : σ}

theorem returns_pure (a : α) : Returns (pure a : Run ε σ α) s := ⟨a, s, rfl⟩

theorem Returns.bind {m : Run ε σ α} {f : α → Run ε σ β} (hm : Returns m s)
    (hf : ∀ a s', m s = (.ok a, s') → Returns (f a) s') : Returns (m >>= f) s := by
  obtain ⟨a, s', ha⟩ := hm
  obtain ⟨b, t, hb⟩ := hf a s' ha
  exact ⟨b, t, (bind_ok ha).trans hb⟩

end Returns

/-- Whatever a run returns is good. -/
def Gives (P : α → Prop) (m : Run ε σ α) : Prop := ∀ s a s', m s = (.ok a, s') → P a

section Gives

variable {P : α → Prop} {Q : β → Prop} {m : Run ε σ α} {f : α → Run ε σ β}

theorem gives_pure {a : α} (h : P a) : Gives P (pure a : Run ε σ α) := by
  intro s b s' hrun
  cases hrun
  exact h

/-- What the first part returns is good, and then what the second part returns is good. -/
theorem Gives.bind (hm : Gives P m) (hf : ∀ a, P a → Gives Q (f a)) : Gives Q (m >>= f) := by
  intro s b s' hrun
  obtain ⟨a, t, ha, hb⟩ := bind_eq_ok hrun
  exact hf a (hm s a t ha) t b s' hb

/-- Only the last part matters. -/
theorem gives_bind (hf : ∀ a, Gives Q (f a)) : Gives Q (m >>= f) := by
  intro s b s' hrun
  obtain ⟨a, t, -, hb⟩ := bind_eq_ok hrun
  exact hf a t b s' hb

end Gives

/-- However a run ends abruptly, it is in a good state for that. -/
def Fails (Q : ε → σ → Prop) (m : Run ε σ α) : Prop := ∀ s e s', m s = (.error e, s') → Q e s'

section Fails

variable {Q : ε → σ → Prop}

theorem fails_pure (a : α) : Fails Q (pure a : Run ε σ α) := nofun

theorem fails_fail {e : ε} (h : ∀ s, Q e s) : Fails Q (fail e : Run ε σ α) := by
  intro s e' s' hrun
  cases hrun
  exact h s

theorem Fails.bind {m : Run ε σ α} {f : α → Run ε σ β} (hm : Fails Q m) (hf : ∀ a, Fails Q (f a)) :
    Fails Q (m >>= f) := by
  intro s e s' hrun
  rw [bind_apply] at hrun
  match hms : m s with
  | (.ok a, t) =>
    rw [hms] at hrun
    exact hf a t e s' hrun
  | (.error e', t) =>
    rw [hms] at hrun
    cases hrun
    exact hm s e s' hms

theorem fails_loop {body : β → Run ε σ (β ⊕ γ)} {exhausted : β → Run ε σ γ}
    (hb : ∀ b, Fails Q (body b)) (he : ∀ b, Fails Q (exhausted b)) (fuel : Nat) (b : β) :
    Fails Q (loop body exhausted fuel b) := by
  induction fuel generalizing b with
  | zero => exact he b
  | succ fuel ih =>
    refine (hb b).bind fun r => ?_
    cases r with
    | inl b' => exact ih b'
    | inr c => exact fails_pure c

theorem fails_collect {f : Nat → Run ε σ α} (hf : ∀ k, Fails Q (f k)) (n : Nat) :
    Fails Q (collect f n) := by
  induction n with
  | zero => exact fails_pure _
  | succ n ih => exact ih.bind fun v => (hf n).bind fun a => fails_pure _

end Fails

/-! ## Frame rules -/

/-- Every run of `m` relates the state it starts from to the state it ends in, however it ends. -/
def Keeps (R : σ → σ → Prop) (m : Run ε σ α) : Prop := ∀ s, R s (m s).2

section Keeps

variable {R : σ → σ → Prop}

theorem keeps_pure [Std.Refl R] (a : α) : Keeps R (pure a : Run ε σ α) := fun s => refl_of R s

theorem keeps_fail [Std.Refl R] (e : ε) : Keeps R (fail e : Run ε σ α) := fun s => refl_of R s

theorem keeps_get [Std.Refl R] : Keeps R (get : Run ε σ σ) := fun s => refl_of R s

/-- Going on from the state a run left. -/
theorem keeps_bind_at [IsTrans σ R] {m : Run ε σ α} {f : α → Run ε σ β} {s : σ} (hm : R s (m s).2)
    (hf : ∀ a s', m s = (.ok a, s') → R s' (f a s').2) : R s ((m >>= f) s).2 := by
  rw [bind_apply]
  match hms : m s with
  | (.ok a, s') => rw [hms] at hm; exact trans_of R hm (hf a s' hms)
  | (.error e, s') => rw [hms] at hm; exact hm

theorem Keeps.bind [IsTrans σ R] {m : Run ε σ α} {f : α → Run ε σ β} (hm : Keeps R m)
    (hf : ∀ a, Keeps R (f a)) : Keeps R (m >>= f) :=
  fun s => keeps_bind_at (hm s) fun a s' _ => hf a s'

/-- A run relates the state it starts from to the one it ends in. -/
theorem Keeps.of_run {m : Run ε σ α} {s s' : σ} {r : Except ε α} (hm : Keeps R m)
    (h : m s = (r, s')) : R s s' := by
  have hs := hm s
  rwa [h] at hs

/-- A weaker relation is kept as well. -/
theorem Keeps.mono {R' : σ → σ → Prop} {m : Run ε σ α} (hm : Keeps R m)
    (h : ∀ s t, R s t → R' s t) : Keeps R' m := fun s => h _ _ (hm s)

/-- A loop keeps what its rounds keep, as long as the loop state is one that rounds lead to. -/
theorem keeps_loop_inv [Std.Refl R] [IsTrans σ R] {body : β → Run ε σ (β ⊕ γ)}
    {exhausted : β → Run ε σ γ} (I : β → Prop) (hb : ∀ b, I b → Keeps R (body b))
    (hI : ∀ b s b' s', I b → body b s = (.ok (.inl b'), s') → I b')
    (he : ∀ b, Keeps R (exhausted b)) (fuel : Nat) {b : β} (h : I b) :
    Keeps R (loop body exhausted fuel b) := by
  intro s₀
  have hround : ∀ {b s r s'}, I b → R s₀ s → body b s = (r, s') → R s₀ s' := by
    intro b s r s' hi hs hrun
    have := hb b hi s
    rw [hrun] at this
    exact trans_of R hs this
  refine loop_post (fun b s => I b ∧ R s₀ s) (fun _ s => R s₀ s) ?_ ?_ ?_ ?_ fuel ⟨h, refl_of R s₀⟩
  · rintro b s b' s' ⟨hi, hs⟩ hrun
    exact ⟨hI b s b' s' hi hrun, hround hi hs hrun⟩
  · rintro b s c s' ⟨hi, hs⟩ hrun
    exact hround hi hs hrun
  · rintro b s e s' ⟨hi, hs⟩ hrun
    exact hround hi hs hrun
  · rintro b s ⟨hi, hs⟩
    exact trans_of R hs (he b s)

theorem keeps_loop [Std.Refl R] [IsTrans σ R] {body : β → Run ε σ (β ⊕ γ)}
    {exhausted : β → Run ε σ γ} (hb : ∀ b, Keeps R (body b)) (he : ∀ b, Keeps R (exhausted b))
    (fuel : Nat) (b : β) : Keeps R (loop body exhausted fuel b) :=
  keeps_loop_inv (fun _ => True) (fun b _ => hb b) (fun _ _ _ _ _ _ => trivial) he fuel trivial

theorem keeps_collect [Std.Refl R] [IsTrans σ R] {f : Nat → Run ε σ α} (hf : ∀ k, Keeps R (f k))
    (n : Nat) : Keeps R (collect f n) := by
  induction n with
  | zero => exact keeps_pure _
  | succ n ih => exact ih.bind fun v => (hf n).bind fun a => keeps_pure _

/-- What was collected without touching the state are the results of the single computations. -/
theorem collect_eq_ok {f : Nat → Run ε σ α} (hf : ∀ k, Keeps (· = ·) (f k)) {n : Nat} {s s' : σ}
    {v : Vector α n} (h : collect f n s = (.ok v, s')) {k : Nat} (hk : k < n) :
    f k s = (.ok v[k], s) := by
  induction n generalizing s' with
  | zero => exact absurd hk (Nat.not_lt_zero k)
  | succ n ih =>
    simp only [collect] at h
    obtain ⟨w, t, hw, hrest⟩ := bind_eq_ok h
    obtain ⟨a, t', ha, hret⟩ := bind_eq_ok hrest
    obtain rfl : s = t := (keeps_collect hf n).of_run hw
    obtain rfl : s = t' := (hf n).of_run ha
    cases hret
    by_cases hkn : k < n
    · rw [Vector.getElem_push_lt hkn]
      exact ih hw hkn
    · obtain rfl : k = n := by omega
      rw [Vector.getElem_push_eq]
      exact ha

end Keeps

end Run

end Foundation
