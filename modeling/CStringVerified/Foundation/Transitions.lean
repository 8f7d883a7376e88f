import Mathlib.Tactic.Basic

/-!
# Transition functions

A system is a partial function `step : σ → α → Option σ`: from a state an action leads to one state,
or is not possible there. Runs are lists of actions, so that every interleaving of every number of
parties is one run.

The rules: what every step preserves holds wherever a run leads (`run_inv`); a machine that follows
another one step by step accepts what can be observed of its runs (`run_follows`); a map between two
systems that commutes with their steps commutes with their runs (`run_map`); steps that use up a
measure bound the length of a run and let it be completed (`length_add_le_of_run`,
`exists_run_to`).
-/

namespace Foundation

section Run

variable {σ α : Type}

/-- The state that a list of actions leads to, when each is possible where it is taken. -/
def run (step : σ → α → Option σ) : σ → List α → Option σ
  | s, [] => some s
  | s, a :: as => (step s a).bind fun t => run step t as

variable {step : σ → α → Option σ}

@[simp] theorem run_nil (s : σ) : run step s [] = some s := rfl

theorem run_cons (s : σ) (a : α) (as : List α) :
    run step s (a :: as) = (step s a).bind fun t => run step t as := rfl

/-- A run of at least one action: its first step, and the rest. -/
theorem run_cons_eq_some {s u : σ} {a : α} {as : List α} :
    run step s (a :: as) = some u ↔ ∃ t, step s a = some t ∧ run step t as = some u := by
  rw [run_cons]
  exact Option.bind_eq_some_iff

/-- Runs compose. -/
theorem run_append (s : σ) (as bs : List α) :
    run step s (as ++ bs) = (run step s as).bind fun t => run step t bs := by
  induction as generalizing s with
  | nil => rfl
  | cons a as ih =>
    rw [List.cons_append, run_cons, run_cons, Option.bind_assoc]
    exact congrArg (Option.bind (step s a)) (funext ih)

theorem run_append_eq_some {s u : σ} {as bs : List α} :
    run step s (as ++ bs) = some u ↔ ∃ t, run step s as = some t ∧ run step t bs = some u := by
  rw [run_append]
  exact Option.bind_eq_some_iff

/-- Every action of a run meets `P` in the state in which it is taken. -/
def Along (step : σ → α → Option σ) (P : σ → α → Prop) : σ → List α → Prop
  | _, [] => True
  | s, a :: as => P s a ∧ ∀ t, step s a = some t → Along step P t as

/-- What every step that meets `P` preserves holds at the end of every run whose steps meet it. -/
theorem run_inv_of {P : σ → α → Prop} {I : σ → Prop}
    (hstep : ∀ s a t, I s → P s a → step s a = some t → I t) {s t : σ} {as : List α}
    (hrun : run step s as = some t) (hP : Along step P s as) (h : I s) : I t := by
  induction as generalizing s with
  | nil =>
    cases hrun
    exact h
  | cons a as ih =>
    obtain ⟨u, hu, hrest⟩ := run_cons_eq_some.mp hrun
    exact ih hrest (hP.2 u hu) (hstep s a u h hP.1 hu)

/-- A condition on the actions alone. -/
theorem along_mem {P : α → Prop} (s : σ) {as : List α} (hP : ∀ a ∈ as, P a) :
    Along step (fun _ a => P a) s as := by
  induction as generalizing s with
  | nil => trivial
  | cons a as ih =>
    exact ⟨hP a List.mem_cons_self, fun t _ => ih t fun b hb => hP b (List.mem_cons_of_mem a hb)⟩

/-- A weaker condition. -/
theorem Along.mono {P P' : σ → α → Prop} (h : ∀ s a, P s a → P' s a) {s : σ} {as : List α}
    (hP : Along step P s as) : Along step P' s as := by
  induction as generalizing s with
  | nil => trivial
  | cons a as ih => exact ⟨h s a hP.1, fun t ht => ih (hP.2 t ht)⟩

/-- What every step preserves whose action meets a condition. -/
theorem run_inv_mem {P : α → Prop} {I : σ → Prop}
    (hstep : ∀ s a t, I s → P a → step s a = some t → I t) {s t : σ} {as : List α}
    (hrun : run step s as = some t) (hP : ∀ a ∈ as, P a) (h : I s) : I t :=
  run_inv_of (P := fun _ a => P a) hstep hrun (along_mem s hP) h

/-- What every step establishes of the actions taken so far and the state they lead to. -/
theorem run_history {I : List α → σ → Prop} {s t : σ} {as : List α}
    (hstep : ∀ bs u a v, I bs u → step u a = some v → I (bs ++ [a]) v)
    (hrun : run step s as = some t) (h : I [] s) : I as t := by
  suffices key : ∀ (cs bs : List α) (u : σ), I bs u → run step u cs = some t → I (bs ++ cs) t by
    exact key as [] s h hrun
  intro cs
  induction cs with
  | nil =>
    intro bs u hu hcs
    cases hcs
    rwa [List.append_nil]
  | cons a cs ih =>
    intro bs u hu hcs
    obtain ⟨v, hv, hrest⟩ := run_cons_eq_some.mp hcs
    have := ih (bs ++ [a]) v (hstep bs u a v hu hv) hrest
    rwa [List.append_assoc] at this

/-- What every step preserves holds wherever a run leads. -/
theorem run_inv {I : σ → Prop} (hstep : ∀ s a t, I s → step s a = some t → I t) {s t : σ}
    {as : List α} (hrun : run step s as = some t) (h : I s) : I t :=
  run_inv_mem (P := fun _ => True) (fun s a t hs _ => hstep s a t hs) hrun (fun _ _ => trivial) h

end Run

/-- What was done is undone in the reverse order, if each action can be undone where it has led, up to
a relation. -/
theorem run_undo (undo : σ → α → Option σ) {P : σ → α → Prop} {I : σ → Prop} (R : σ → σ → Prop)
    (hI : ∀ s a t, I s → P s a → step s a = some t → I t)
    (hundo : ∀ s a t t', I s → P s a → step s a = some t → R t t' →
      ∃ s', undo t' a = some s' ∧ R s s') {s t t' : σ} {as : List α} (h : I s)
    (hP : Along step P s as) (hrun : run step s as = some t) (hR : R t t') :
    ∃ s', run undo t' as.reverse = some s' ∧ R s s' := by
  induction as generalizing s with
  | nil =>
    cases hrun
    exact ⟨t', rfl, hR⟩
  | cons a as ih =>
    obtain ⟨u, hstep, hrest⟩ := run_cons_eq_some.mp hrun
    obtain ⟨u', hback, hRu⟩ := ih (hI s a u h hP.1 hstep) (hP.2 u hstep) hrest
    obtain ⟨s', hlast, hRs⟩ := hundo s a u u' h hP.1 hstep hRu
    refine ⟨s', ?_, hRs⟩
    rw [List.reverse_cons, run_append_eq_some]
    exact ⟨u', hback, run_cons_eq_some.mpr ⟨s', hlast, rfl⟩⟩

/-! ## Two machines -/

section Two

variable {σ τ α β : Type} {step : σ → α → Option σ}

/-- What an observer sees of a run: the observations its steps make, in their order. -/
def observed (step : σ → α → Option σ) (see : σ → α → Option β) : σ → List α → List β
  | _, [] => []
  | s, a :: as =>
    (see s a).toList ++
      match step s a with
      | none => []
      | some t => observed step see t as

/-- Forward simulation: if each step is matched by the second machine (by its observation, or by no
step where there is nothing to see), the second machine runs through what is observed of a run of
the first. -/
theorem run_follows (step' : τ → β → Option τ) {see : σ → α → Option β} {P : σ → α → Prop}
    (R : σ → τ → Prop)
    (hstep : ∀ s t a s', R s t → P s a → step s a = some s' →
      ∃ t', run step' t (see s a).toList = some t' ∧ R s' t') {s s' : σ} {t : τ} {as : List α}
    (hrun : run step s as = some s') (hP : Along step P s as) (h : R s t) :
    ∃ t', run step' t (observed step see s as) = some t' ∧ R s' t' := by
  induction as generalizing s t with
  | nil =>
    cases hrun
    exact ⟨t, rfl, h⟩
  | cons a as ih =>
    obtain ⟨u, hu, hrest⟩ := run_cons_eq_some.mp hrun
    obtain ⟨v, hv, hR⟩ := hstep s t a u h hP.1 hu
    obtain ⟨t', ht', hR'⟩ := ih hrest (hP.2 u hu) hR
    refine ⟨t', ?_, hR'⟩
    simp only [observed, hu]
    exact run_append_eq_some.mpr ⟨v, hv, ht'⟩

/-- A map that commutes with the steps of two machines commutes with their runs. -/
theorem run_map {next : σ → α → Option σ} {next' : τ → α → Option τ} (f : σ → τ)
    (hstep : ∀ s a, next' (f s) a = (next s a).map f) (s : σ) (as : List α) :
    run next' (f s) as = (run next s as).map f := by
  induction as generalizing s with
  | nil => rfl
  | cons a as ih =>
    rw [run_cons, run_cons, hstep, Option.bind_map, Option.map_bind]
    exact congrArg (Option.bind (next s a)) (funext ih)

/-- The conditions that the actions of a run meet are carried along as well. -/
theorem along_map {next : σ → α → Option σ} {next' : τ → α → Option τ} {f : σ → τ}
    {P : σ → α → Prop} {P' : τ → α → Prop} (hstep : ∀ s a, next' (f s) a = (next s a).map f)
    (hP : ∀ s a, P' (f s) a ↔ P s a) {s : σ} {as : List α} :
    Along next' P' (f s) as ↔ Along next P s as := by
  induction as generalizing s with
  | nil => exact Iff.rfl
  | cons a as ih =>
    rw [Along, Along, hP, hstep]
    refine and_congr_right fun _ => ⟨fun h t ht => ih.mp (h (f t) (by rw [ht]; rfl)), ?_⟩
    intro h u hu
    obtain ⟨t, ht, rfl⟩ := Option.map_eq_some_iff.mp hu
    exact ih.mpr (h t ht)

/-- What is observed of a run is carried along as well. -/
theorem observed_map {next : σ → α → Option σ} {next' : τ → α → Option τ} {f : σ → τ}
    {see : σ → α → Option β} {see' : τ → α → Option β}
    (hstep : ∀ s a, next' (f s) a = (next s a).map f) (hsee : ∀ s a, see' (f s) a = see s a) (s : σ)
    (as : List α) : observed next' see' (f s) as = observed next see s as := by
  induction as generalizing s with
  | nil => rfl
  | cons a as ih =>
    rw [observed, observed, hsee, hstep]
    cases next s a with
    | none => rfl
    | some t => exact congrArg ((see s a).toList ++ ·) (ih t)

end Two

/-! ## Runs that end -/

section Measure

variable {σ α : Type} {step : σ → α → Option σ} {μ : σ → Nat} {I : σ → Prop} {P : α → Prop}

/-- Where each step of a kind uses up some of a measure, no run of such steps is longer than it. -/
theorem length_add_le_of_run (hI : ∀ s a t, I s → P a → step s a = some t → I t)
    (hless : ∀ s a t, I s → P a → step s a = some t → μ t < μ s) {s t : σ} {as : List α}
    (hrun : run step s as = some t) (hP : ∀ a ∈ as, P a) (h : I s) : as.length + μ t ≤ μ s := by
  induction as generalizing s with
  | nil =>
    cases hrun
    exact Nat.le_of_eq (Nat.zero_add _)
  | cons a as ih =>
    obtain ⟨u, hu, hrest⟩ := run_cons_eq_some.mp hrun
    have ha := hP a List.mem_cons_self
    have hu' := hless s a u h ha hu
    have := ih hrest (fun b hb => hP b (List.mem_cons_of_mem a hb)) (hI s a u h ha hu)
    rw [List.length_cons]
    omega

/-- Where a state that is not final can take a step, and each step uses up some of a measure, every
state has a run that ends in a final one. -/
theorem exists_run_to (final : σ → Prop) (hI : ∀ s a t, I s → P a → step s a = some t → I t)
    (hless : ∀ s a t, I s → P a → step s a = some t → μ t < μ s)
    (hlive : ∀ s, I s → ¬ final s → ∃ a t, P a ∧ step s a = some t) {s : σ} (h : I s) :
    ∃ as t, (∀ a ∈ as, P a) ∧ run step s as = some t ∧ final t := by
  induction hn : μ s using Nat.strongRecOn generalizing s with
  | ind n ih =>
    by_cases hf : final s
    · exact ⟨[], s, fun a ha => absurd ha List.not_mem_nil, rfl, hf⟩
    · obtain ⟨a, u, ha, hu⟩ := hlive s h hf
      obtain ⟨as, t, hP, hrun, ht⟩ := ih (μ u) (hn ▸ hless s a u h ha hu) (hI s a u h ha hu) rfl
      refine ⟨a :: as, t, ?_, run_cons_eq_some.mpr ⟨u, hu, hrun⟩, ht⟩
      intro b hb
      rcases List.mem_cons.mp hb with rfl | hb
      · exact ha
      · exact hP b hb

end Measure

end Foundation
