import CStringVerified.Foundation.FileSystem

/-!
# Where lookups lead

`Leads` says of a lookup where it ends, one component and one link after the other. The calls of a file
system are described by it.
-/

namespace Foundation

namespace FileSystem

/-! ## Where a lookup leads -/

/-- A lookup that follows at most `k` links leads from the directory `dir` to a location. -/
inductive Leads (fs : FileSystem) (follow : Bool) : Nat → Loc → List Name → Loc → Prop
  | here {k dir} : Leads fs follow k dir [] dir
  | on {k dir n rest loc l} (henter : fs.enter dir n = .ok loc)
      (hlink : fs.linkAt follow loc rest = none) (h : Leads fs follow k loc rest l) :
      Leads fs follow k dir (n :: rest) l
  | link {k dir n rest loc l target} (henter : fs.enter dir n = .ok loc)
      (hlink : fs.linkAt follow loc rest = some target) (hne : target ≠ [])
      (h : Leads fs follow k (route loc.dropLast target).dir
        ((route loc.dropLast target).steps ++ rest) l) :
      Leads fs follow (k + 1) dir (n :: rest) l

section Leads

variable {fs : FileSystem} {follow : Bool} {k j : Nat} {dir loc l l' : Loc} {n : Name}
  {ns rest : List Name} {target : Text} {m : Node}

theorem enter_ok (h : fs.enter dir n = .ok loc) :
    ∃ d, fs.node dir = some d ∧ sIsdir d.stMode = true ∧
      loc = if n = dot then dir else if n = dotdot then dir.dropLast else dir ++ [n] := by
  unfold enter at h
  cases hd : fs.node dir with
  | none => rw [hd] at h; cases h
  | some d =>
    rw [hd] at h
    dsimp only at h
    split at h
    · cases h
    · rename_i hdir
      exact ⟨d, rfl, by simpa using hdir, (Except.ok.inj h).symm⟩

theorem linkAt_eq_some (h : fs.linkAt follow loc rest = some target) :
    ∃ m, fs.node loc = some m ∧ sIslnk m.stMode = true ∧ m.data = target ∧
      (follow = true ∨ rest ≠ []) := by
  obtain ⟨m, hm, htarget⟩ := Option.bind_eq_some_iff.mp h
  split at htarget
  · rename_i hcond
    simp only [Bool.and_eq_true, Bool.or_eq_true, Bool.not_eq_true', List.isEmpty_eq_false_iff] at hcond
    exact ⟨m, hm, hcond.1, Option.some.inj htarget, hcond.2⟩
  · cases htarget

theorem linkAt_of_node (hm : fs.node loc = some m) (hlink : sIslnk m.stMode = true)
    (h : follow = true ∨ rest ≠ []) : fs.linkAt follow loc rest = some m.data := by
  have hcond : (follow || !rest.isEmpty) = true := by
    simpa only [Bool.or_eq_true, Bool.not_eq_true', List.isEmpty_eq_false_iff] using h
  rw [linkAt, hm, Option.bind_some, hlink, hcond]
  rfl

theorem linkAt_of_none (h : fs.node loc = none) : fs.linkAt follow loc rest = none := by
  rw [linkAt, h]
  rfl

theorem linkAt_of_plain (hm : fs.node loc = some m) (hlink : sIslnk m.stMode = false) :
    fs.linkAt follow loc rest = none := by
  rw [linkAt, hm, Option.bind_some, hlink]
  rfl

/-- Where a lookup goes on, a link is followed in any case. -/
theorem linkAt_congr (h : follow = true ∨ rest ≠ []) (follow' : Bool) (rest' : List Name)
    (h' : follow' = true ∨ rest' ≠ []) : fs.linkAt follow' loc rest' = fs.linkAt follow loc rest := by
  have hcond : (follow || !rest.isEmpty) = true := by
    simpa only [Bool.or_eq_true, Bool.not_eq_true', List.isEmpty_eq_false_iff] using h
  have hcond' : (follow' || !rest'.isEmpty) = true := by
    simpa only [Bool.or_eq_true, Bool.not_eq_true', List.isEmpty_eq_false_iff] using h'
  rw [linkAt, linkAt, hcond, hcond']

theorem linkAt_nofollow : fs.linkAt false loc [] = none := by
  unfold linkAt
  cases fs.node loc with
  | none => rfl
  | some m => simp

theorem walk_nil : fs.walk follow k dir [] = .ok dir := by
  cases k <;> rfl

theorem walk_on (henter : fs.enter dir n = .ok loc) (hlink : fs.linkAt follow loc rest = none) :
    fs.walk follow k dir (n :: rest) = fs.walk follow k loc rest := by
  cases k <;> simp only [walk, walkWith, henter, hlink]

theorem walk_link (henter : fs.enter dir n = .ok loc)
    (hlink : fs.linkAt follow loc rest = some target) (hne : target ≠ []) :
    fs.walk follow (k + 1) dir (n :: rest) = fs.walk follow k (route loc.dropLast target).dir
      ((route loc.dropLast target).steps ++ rest) := by
  simp only [walk, walkWith, henter, hlink, if_neg hne]

theorem walk_of_leads (h : Leads fs follow k dir ns l) : fs.walk follow k dir ns = .ok l := by
  induction h with
  | here => exact walk_nil
  | on henter hlink _ ih => rw [walk_on henter hlink, ih]
  | link henter hlink hne _ ih => rw [walk_link henter hlink hne, ih]

theorem leads_of_walk (h : fs.walk follow k dir ns = .ok l) : Leads fs follow k dir ns l := by
  induction k generalizing dir ns with
  | zero =>
    induction ns generalizing dir with
    | nil =>
      rw [walk_nil] at h
      obtain rfl := Except.ok.inj h
      exact .here
    | cons n rest ih =>
      cases henter : fs.enter dir n with
      | error e => simp only [walk, walkWith, henter] at h; cases h
      | ok loc =>
        cases hlink : fs.linkAt follow loc rest with
        | none =>
          rw [walk_on henter hlink] at h
          exact .on henter hlink (ih h)
        | some target => simp only [walk, walkWith, henter, hlink] at h; cases h
  | succ k ihk =>
    induction ns generalizing dir with
    | nil =>
      rw [walk_nil] at h
      obtain rfl := Except.ok.inj h
      exact .here
    | cons n rest ih =>
      cases henter : fs.enter dir n with
      | error e => simp only [walk, walkWith, henter] at h; cases h
      | ok loc =>
        cases hlink : fs.linkAt follow loc rest with
        | none =>
          rw [walk_on henter hlink] at h
          exact .on henter hlink (ih h)
        | some target =>
          by_cases hne : target = []
          · simp only [walk, walkWith, henter, hlink, if_pos hne] at h
            cases h
          · rw [walk_link henter hlink hne] at h
            exact .link henter hlink hne (ihk h)

/-- A lookup that ends goes through its components one by one. -/
theorem walk_eq_ok : fs.walk follow k dir ns = .ok l ↔ Leads fs follow k dir ns l :=
  ⟨leads_of_walk, walk_of_leads⟩

theorem Leads.mono (h : Leads fs follow k dir ns l) (hk : k ≤ j) : Leads fs follow j dir ns l := by
  induction h generalizing j with
  | here => exact .here
  | on henter hlink _ ih => exact .on henter hlink (ih hk)
  | link henter hlink hne _ ih =>
    obtain ⟨j, rfl⟩ : ∃ i, j = i + 1 := ⟨j - 1, by omega⟩
    exact .link henter hlink hne (ih (by omega))

/-- A lookup leads to one place. -/
theorem Leads.unique (h : Leads fs follow k dir ns l) (h' : Leads fs follow j dir ns l') : l = l' := by
  have hwalk := walk_of_leads (h.mono (Nat.le_max_left k j))
  rw [walk_of_leads (h'.mono (Nat.le_max_right k j))] at hwalk
  exact (Except.ok.inj hwalk).symm

/-- Where a lookup goes on there is a directory. -/
theorem Leads.isdir (h : Leads fs follow k dir ns l) (hne : ns ≠ []) :
    ∃ d, fs.node dir = some d ∧ sIsdir d.stMode = true := by
  cases h with
  | here => exact absurd rfl hne
  | on henter => exact (enter_ok henter).imp fun _ h => ⟨h.1, h.2.1⟩
  | link henter => exact (enter_ok henter).imp fun _ h => ⟨h.1, h.2.1⟩

/-- What comes first in a lookup leads to where the rest goes on. -/
theorem Leads.split (h : Leads fs follow k dir (ns ++ rest) l) (hne : rest ≠ []) :
    ∃ mid, Leads fs true k dir ns mid ∧ Leads fs follow k mid rest l := by
  generalize hnames : ns ++ rest = names at h
  induction h generalizing ns with
  | here => exact absurd (List.append_eq_nil_iff.mp hnames).2 hne
  | @on k dir n names loc l henter hlink h ih =>
    cases ns with
    | nil =>
      obtain rfl : rest = n :: names := hnames
      exact ⟨dir, .here, .on henter hlink h⟩
    | cons n' ns =>
      obtain ⟨rfl, rfl⟩ := List.cons.inj hnames
      obtain ⟨mid, hmid, hrest⟩ := ih rfl
      have hgo : ns ++ rest ≠ [] := List.append_ne_nil_of_right_ne_nil ns hne
      exact ⟨mid, .on henter ((linkAt_congr (Or.inr hgo) true ns (Or.inl rfl)).trans hlink) hmid, hrest⟩
  | @link k dir n names loc l target henter hlink htarget h ih =>
    cases ns with
    | nil =>
      obtain rfl : rest = n :: names := hnames
      exact ⟨dir, .here, .link henter hlink htarget h⟩
    | cons n' ns =>
      obtain ⟨rfl, rfl⟩ := List.cons.inj hnames
      obtain ⟨mid, hmid, hrest⟩ := ih (List.append_assoc _ _ _)
      have hgo : ns ++ rest ≠ [] := List.append_ne_nil_of_right_ne_nil ns hne
      exact ⟨mid, .link henter ((linkAt_congr (Or.inr hgo) true ns (Or.inl rfl)).trans hlink) htarget
        hmid, hrest.mono (Nat.le_succ k)⟩

/-- The entry a lookup ends at is the file it leads to, or a link that is followed to the file. -/
theorem Leads.entry (h : Leads fs true k dir ns l) : ∃ loc, Leads fs false k dir ns loc ∧
    (loc = l ∨ ∃ j target, j < k ∧ fs.linkAt true loc [] = some target ∧ target ≠ [] ∧
      Leads fs true j (route loc.dropLast target).dir (route loc.dropLast target).steps l) := by
  induction h with
  | @here k dir => exact ⟨dir, .here, Or.inl rfl⟩
  | @on k dir n rest loc l henter hlink _ ih =>
    obtain ⟨loc', hloc', hend⟩ := ih
    refine ⟨loc', .on henter ?_ hloc', hend⟩
    cases rest with
    | nil => exact linkAt_nofollow
    | cons n' rest => exact (linkAt_congr (Or.inl rfl) false _ (Or.inr (List.cons_ne_nil _ _))).trans hlink
  | @link k dir n rest loc l target henter hlink htarget h ih =>
    cases rest with
    | nil =>
      rw [List.append_nil] at h
      exact ⟨loc, .on henter linkAt_nofollow .here,
        Or.inr ⟨k, target, Nat.lt_succ_self k, hlink, htarget, h⟩⟩
    | cons n' rest =>
      obtain ⟨loc', hloc', hend⟩ := ih
      have hlink' : fs.linkAt false loc (n' :: rest) = some target :=
        (linkAt_congr (Or.inl rfl) false _ (Or.inr (List.cons_ne_nil _ _))).trans hlink
      refine ⟨loc', .link henter hlink' htarget hloc', ?_⟩
      rcases hend with heq | ⟨j, target', hj, hrest⟩
      · exact Or.inl heq
      · exact Or.inr ⟨j, target', Nat.lt_succ_of_lt hj, hrest⟩

/-- A lookup that ends at an entry that is no link leads to it. -/
theorem Leads.followed (h : Leads fs false k dir ns l) (hlink : fs.linkAt true l [] = none) :
    Leads fs true k dir ns l := by
  induction h with
  | here => exact .here
  | @on k dir n rest loc l henter hnone h ih =>
    cases rest with
    | nil =>
      cases h
      exact .on henter hlink .here
    | cons n' rest =>
      exact .on henter ((linkAt_congr (Or.inr (List.cons_ne_nil _ _)) true _ (Or.inl rfl)).trans hnone)
        (ih hlink)
  | @link k dir n rest loc l target henter hsome htarget h ih =>
    have hgo : rest ≠ [] := by
      rintro rfl
      rw [linkAt_nofollow] at hsome
      cases hsome
    exact .link henter ((linkAt_congr (Or.inr hgo) true _ (Or.inl rfl)).trans hsome) htarget (ih hlink)

/-- A lookup that follows links does not end at one. -/
theorem Leads.plain (h : Leads fs true k dir ns l) (hne : ns ≠ []) : fs.linkAt true l [] = none := by
  induction h with
  | here => exact absurd rfl hne
  | @on k dir n rest loc l henter hlink h ih =>
    cases rest with
    | nil =>
      cases h
      exact hlink
    | cons n' rest => exact ih (List.cons_ne_nil _ _)
  | link henter hlink htarget h ih =>
    exact ih (List.append_ne_nil_of_left_ne_nil (steps_ne_nil _ _) _)

end Leads

/-! ## Calls and lookups -/

section Lookups

variable {fs fs' : FileSystem} {cwd : Loc} {path : Text} {p q : Route} {l loc : Loc} {n : Node}
  {r : Option Node}

theorem find_eq_ok : fs.find p = .ok (l, r) ↔
    Leads fs false maxLinks p.dir p.names l ∧ r = fs.node l := by
  rw [← walk_eq_ok, find]
  cases fs.walk false maxLinks p.dir p.names with
  | error e => exact iff_of_false nofun nofun
  | ok loc =>
    show Except.ok (loc, fs.node loc) = Except.ok (l, r) ↔ _
    rw [Except.ok.injEq, Prod.mk.injEq, Except.ok.injEq]
    exact and_congr_right fun h => by rw [h, eq_comm]

theorem resolve_eq_ok : fs.resolve p = .ok (l, r) ↔
    Leads fs true maxLinks p.dir p.steps l ∧ r = fs.node l := by
  rw [← walk_eq_ok, resolve]
  cases fs.walk true maxLinks p.dir p.steps with
  | error e => exact iff_of_false nofun nofun
  | ok loc =>
    show Except.ok (loc, fs.node loc) = Except.ok (l, r) ↔ _
    rw [Except.ok.injEq, Prod.mk.injEq, Except.ok.injEq]
    exact and_congr_right fun h => by rw [h, eq_comm]

theorem elim_eq_ok {r : Option Node} {e : Errno} :
    r.elim (Except.error e) Except.ok = Except.ok n ↔ r = some n := by
  cases r with
  | none => exact iff_of_false nofun nofun
  | some m =>
    rw [Option.elim_some, Except.ok.injEq, Option.some.injEq]

theorem stat_eq_ok : fs.stat p = .ok n ↔ ∃ l, fs.resolve p = .ok (l, some n) := by
  unfold FileSystem.stat FileSystem.resolve
  cases fs.walk true maxLinks p.dir p.steps with
  | error e => exact iff_of_false nofun fun ⟨l, h⟩ => nomatch h
  | ok loc =>
    dsimp only
    rw [elim_eq_ok]
    constructor
    · intro h
      exact ⟨loc, congrArg (fun r => Except.ok (loc, r)) h⟩
    · rintro ⟨l, h⟩
      exact congrArg Prod.snd (Except.ok.inj h)

theorem lstat_eq_ok : fs.lstat p = .ok n ↔
    ∃ l, Leads fs false maxLinks p.dir p.steps l ∧ fs.node l = some n := by
  unfold FileSystem.lstat
  cases hwalk : fs.walk false maxLinks p.dir p.steps with
  | error e =>
    refine iff_of_false nofun ?_
    rintro ⟨l, h, -⟩
    rw [← walk_eq_ok, hwalk] at h
    cases h
  | ok loc =>
    dsimp only
    rw [elim_eq_ok]
    constructor
    · exact fun h => ⟨loc, walk_eq_ok.mp hwalk, h⟩
    · rintro ⟨l, h, hn⟩
      rw [← walk_eq_ok, hwalk] at h
      rwa [Except.ok.inj h]

theorem find_node (h : fs.find p = .ok (l, r)) : fs.node l = r := (find_eq_ok.mp h).2.symm

theorem resolve_node (h : fs.resolve p = .ok (l, r)) : fs.node l = r := (resolve_eq_ok.mp h).2.symm

theorem steps_ne {p : Route} (h : p.names ≠ []) : p.steps ≠ [] :=
  List.append_ne_nil_of_left_ne_nil h _

/-- What a pathname leads to is no link. -/
theorem resolve_plain (hp : p.names ≠ []) (h : fs.resolve p = .ok (l, some n)) :
    sIslnk n.stMode = false := by
  obtain ⟨hleads, hnode⟩ := resolve_eq_ok.mp h
  by_contra hlink
  have hplain := hleads.plain (steps_ne hp)
  rw [linkAt_of_node hnode.symm (by simpa using hlink) (Or.inl rfl)] at hplain
  cases hplain

/-- With a slash at its end, a pathname leads to a directory if it leads anywhere. -/
theorem resolve_slash (hslash : p.slash = true) (h : fs.resolve p = .ok (l, r)) :
    ∃ d, fs.node l = some d ∧ sIsdir d.stMode = true := by
  obtain ⟨hleads, -⟩ := resolve_eq_ok.mp h
  rw [Route.steps, hslash, if_pos rfl] at hleads
  obtain ⟨mid, -, hlast⟩ := hleads.split (List.cons_ne_nil _ _)
  cases hlast with
  | on henter _ hrest =>
    cases hrest
    obtain ⟨d, hd, hdir, heq⟩ := enter_ok henter
    rw [if_pos rfl] at heq
    exact ⟨d, by rw [heq, hd], hdir⟩
  | link henter hlink =>
    obtain ⟨d, hd, hdir, heq⟩ := enter_ok henter
    rw [if_pos rfl] at heq
    obtain ⟨x, hx, hislnk, -⟩ := linkAt_eq_some hlink
    rw [heq, hd] at hx
    rw [Option.some.inj hx, sIsdir_of_sIslnk hislnk] at hdir
    cases hdir

/-- What a pathname leads to is its entry, or what a link leads to. -/
theorem resolve_find (hslash : p.slash = false) (h : fs.resolve p = .ok (l, r)) :
    ∃ loc m, fs.find p = .ok (loc, m) ∧ (loc = l ∨ ∃ t, m = some t ∧ sIslnk t.stMode = true) := by
  obtain ⟨hleads, -⟩ := resolve_eq_ok.mp h
  rw [steps_of_slash hslash] at hleads
  obtain ⟨loc, hloc, hend⟩ := hleads.entry
  refine ⟨loc, fs.node loc, find_eq_ok.mpr ⟨hloc, rfl⟩, ?_⟩
  rcases hend with heq | ⟨j, target, -, hlink, -⟩
  · exact Or.inl heq
  · obtain ⟨t, ht, htlink, -⟩ := linkAt_eq_some hlink
    exact Or.inr ⟨t, ht, htlink⟩

/-- An entry that is no link is what the pathname leads to. -/
theorem resolve_of_find (hslash : p.slash = false) (h : fs.find p = .ok (l, r))
    (hlink : ∀ n, r = some n → sIslnk n.stMode = false) : fs.resolve p = .ok (l, r) := by
  obtain ⟨hleads, rfl⟩ := find_eq_ok.mp h
  refine resolve_eq_ok.mpr ⟨?_, rfl⟩
  rw [steps_of_slash hslash]
  refine hleads.followed ?_
  cases hnode : fs.node l with
  | none => exact linkAt_of_none hnode
  | some n => exact linkAt_of_plain hnode (hlink n hnode)

/-- A directory that is found under its own location is where its pathname leads. -/
theorem resolve_render (h : fs.find ⟨[], loc, false⟩ = .ok (loc, some n)) (hdir : sIsdir n.stMode = true)
    (cwd : Loc) : fs.resolve (route cwd (render loc)) = .ok (loc, some n) := by
  have hnode := find_node h
  have hlink := sIslnk_of_sIsdir hdir
  by_cases hroot : loc = []
  · subst hroot
    have henter : fs.enter [] dot = .ok [] := by
      rw [enter, hnode]
      simp [hdir]
    have hplain : ∀ rest, fs.linkAt true [] rest = none := fun _ => linkAt_of_plain hnode hlink
    refine resolve_eq_ok.mpr ⟨?_, hnode.symm⟩
    exact .on henter (hplain _) (.on henter (hplain _) .here)
  · rw [route_render cwd hroot]
    refine resolve_of_find rfl h fun m hm => ?_
    rwa [← Option.some.inj hm]

theorem create_eq {isDir : Bool} {make : Node → Node} (h : fs.create p isDir make = .ok fs') :
    ∃ l d, fs.find p = .ok (l, none) ∧ fs.node l.dropLast = some d ∧ (p.slash = true → isDir = true) ∧
      fs' = fs.put l (make d) := by
  unfold create at h
  split at h
  · cases h
  · cases h
  · rename_i loc hfind
    cases hd : fs.node loc.dropLast with
    | none => rw [hd] at h; cases h
    | some d =>
      rw [hd] at h
      dsimp only at h
      split at h
      · cases h
      · rename_i hslash
        refine ⟨loc, d, hfind, hd, fun hp => ?_, (Except.ok.inj h).symm⟩
        rw [hp] at hslash
        simpa using hslash

theorem update_eq {f : Node → Except Errno Node} (h : fs.update p f = .ok fs') :
    ∃ l i n n', fs.resolve p = .ok (l, some n) ∧ fs.ino l = some i ∧ f n = .ok n' ∧
      fs' = fs.set i n' := by
  unfold update at h
  split at h
  · cases h
  · cases h
  · rename_i l n hres
    cases hi : fs.ino l with
    | none => rw [hi] at h; cases h
    | some i =>
      rw [hi] at h
      cases hf : f n with
      | error e => rw [hf] at h; cases h
      | ok n' =>
        rw [hf] at h
        exact ⟨l, i, n, n', hres, hi, hf, (Except.ok.inj h).symm⟩

theorem update_apply {f : Node → Except Errno Node} {i : Nat} (hres : fs.resolve p = .ok (l, some n))
    (hi : fs.ino l = some i) : fs.update p f = (f n).map fun n' => fs.set i n' := by
  rw [update, hres]
  dsimp only
  rw [hi]

theorem unlink_eq (h : fs.unlink p = .ok fs') :
    ∃ l n, fs.find p = .ok (l, some n) ∧ sIsdir n.stMode = false ∧ p.slash = false ∧
      fs' = fs.del l := by
  unfold unlink at h
  split at h
  · cases h
  · cases h
  · rename_i l n hfind
    split at h
    · cases h
    · rename_i hdir
      split at h
      · cases h
      · rename_i hslash
        exact ⟨l, n, hfind, by simpa using hdir, by simpa using hslash, (Except.ok.inj h).symm⟩

theorem unlink_found (hfind : fs.find p = .ok (l, some n)) (hdir : sIsdir n.stMode = false)
    (hslash : p.slash = false) : fs.unlink p = .ok (fs.del l) := by
  rw [unlink, hfind]
  simp only [hdir, hslash, Bool.false_eq_true, if_false]

end Lookups

end FileSystem

end Foundation
