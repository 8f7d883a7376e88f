import CStringVerified.Foundation.Links

/-!
# Directories that are made on the way

A pathname leads to something once the directories it lacks are made. `Provides` goes through its
components one by one: what a prefix leads to is there already, or nothing is there and it is made. It says
what there is in the end if directories are made one after the other, whether or not that works each time
(`makeAll`).
-/

namespace Foundation

namespace FileSystem

/-- Make a directory, if that is granted and works. -/
def makeOne (make : Node → Node) (fs : FileSystem) (p : Route) (granted : Bool) : FileSystem :=
  if granted then (fs.create p true make).toOption.getD fs else fs

/-- Make one directory after the other. -/
def makeAll (make : Node → Node) : List (Route × Bool) → FileSystem → FileSystem
  | [], fs => fs
  | (p, granted) :: ps, fs => makeAll make ps (fs.makeOne make p granted)

/-- A pathname leads to the node `m` in the end, if the components `q` are dealt with and the others are
left. Those that may be made are `tried`. -/
inductive Provides (make : Node → Node) (r : Route) (tried : List Name → Prop) :
    FileSystem → List Name → List Name → Node → Prop
  | done {fs q m} (h : fs.stat r = .ok m) : Provides make r tried fs q [] m
  | there {fs q n rest l d m} (hleads : Leads fs true maxLinks r.dir (q ++ [n]) l)
      (hd : fs.node l = some d) (h : Provides make r tried fs (q ++ [n]) rest m) :
      Provides make r tried fs q (n :: rest) m
  | made {fs q n rest l d m} (hleads : Leads fs false maxLinks r.dir (q ++ [n]) l)
      (hnone : fs.node l = none) (hd : fs.node l.dropLast = some d) (htried : tried (q ++ [n]))
      (h : Provides make r tried (fs.put l (make d)) (q ++ [n]) rest m) :
      Provides make r tried fs q (n :: rest) m

section Create

variable {fs fs' : FileSystem} {make : Node → Node} {p r : Route} {granted : Bool} {l loc : Loc}
  {d m x : Node} {q rest : List Name} {k : Nat} {dir : Loc} {n : Name}

theorem create_apply (hfind : fs.find p = .ok (l, none)) (hd : fs.node l.dropLast = some d) :
    fs.create p true make = .ok (fs.put l (make d)) := by
  rw [create, hfind]
  dsimp only
  rw [hd, Bool.not_true, Bool.and_false]
  rfl

theorem create_exists (hfind : fs.find p = .ok (l, some x)) :
    fs.create p true make = .error eexist := by
  rw [create, hfind]

/-- Nothing happens, or a directory is made where there was nothing. -/
theorem makeOne_cases (make : Node → Node) (fs : FileSystem) (p : Route) (granted : Bool) :
    fs.makeOne make p granted = fs ∨ ∃ l d, granted = true ∧ fs.find p = .ok (l, none) ∧
      fs.node l.dropLast = some d ∧ fs.makeOne make p granted = fs.put l (make d) := by
  unfold makeOne
  cases granted with
  | false => exact Or.inl rfl
  | true =>
    cases hcreate : fs.create p true make with
    | error e => exact Or.inl rfl
    | ok fs' =>
      obtain ⟨l, d, hfind, hd, -, rfl⟩ := create_eq hcreate
      exact Or.inr ⟨l, d, rfl, hfind, hd, rfl⟩

theorem grows_makeOne (make : Node → Node) (fs : FileSystem) (p : Route) (granted : Bool) :
    Grows fs (fs.makeOne make p granted) := by
  rcases makeOne_cases make fs p granted with heq | ⟨l, d, -, hfind, -, heq⟩
  · rw [heq]
    exact fun _ _ h => h
  · rw [heq]
    exact grows_put (find_node hfind) _

/-- The directory itself is there, if anything can be looked up in it. -/
theorem Leads.dot_some (h : Leads fs false k dir [dot] l) : fs.node l ≠ none := by
  cases h with
  | on henter _ hrest =>
    cases hrest
    obtain ⟨x, hx, -, hl⟩ := enter_ok henter
    rw [hl, if_pos rfl, hx]
    exact Option.some_ne_none x
  | link _ hlink =>
    rw [linkAt_nofollow] at hlink
    cases hlink

theorem makeOne_dot (hp : p.names = [dot]) : fs.makeOne make p granted = fs := by
  rcases makeOne_cases make fs p granted with heq | ⟨l, d, -, hfind, -⟩
  · exact heq
  · obtain ⟨hleads, hnone⟩ := find_eq_ok.mp hfind
    rw [hp] at hleads
    exact absurd hnone.symm hleads.dot_some

/-- A directory that is made is where the lookup of its entry leads. -/
theorem leads_put_dir (h : Leads fs false k dir q l) (hnone : fs.node l = none)
    (hm : sIsdir m.stMode = true) : Leads (fs.put l m) true k dir q l :=
  ((grows_put hnone m).leads h fun _ => linkAt_nofollow).followed
    (linkAt_of_plain (node_put_self _ _ _) (sIslnk_of_sIsdir hm))

/-- Where a lookup that follows links ends at something, there is an entry. -/
theorem Leads.entry_some (h : Leads fs true k dir q l) (hd : fs.node l = some d) :
    ∃ loc x, Leads fs false k dir q loc ∧ fs.node loc = some x := by
  obtain ⟨loc, hloc, rfl | ⟨_, _, -, hlink, -⟩⟩ := h.entry
  · exact ⟨loc, d, hloc, hd⟩
  · obtain ⟨x, hx, -⟩ := linkAt_eq_some hlink
    exact ⟨loc, x, hloc, hx⟩

/-- There is something at what is on the way to something that is there. -/
theorem find_above {q : Route} {r : Option Node} (hstat : fs.stat q = .ok m) (hdir : p.dir = q.dir)
    (hnames : p.names = [dot] ∨ p.names <+: q.names) (hfind : fs.find p = .ok (l, r)) : r ≠ none := by
  rintro rfl
  obtain ⟨hleads, hnone⟩ := find_eq_ok.mp hfind
  rcases hnames with hdot | ⟨more, hmore⟩
  · rw [hdot] at hleads
    exact hleads.dot_some hnone.symm
  · obtain ⟨end', hres⟩ := stat_eq_ok.mp hstat
    obtain ⟨hend, hnode⟩ := resolve_eq_ok.mp hres
    have hsteps : q.steps = p.names ++ (more ++ if q.slash then [dot] else []) := by
      rw [Route.steps, ← hmore, List.append_assoc]
    rw [hsteps] at hend
    obtain ⟨mid, d, hmid, hd⟩ : ∃ mid d, Leads fs true maxLinks q.dir p.names mid ∧
        fs.node mid = some d := by
      by_cases hlast : (more ++ if q.slash then [dot] else []) = []
      · rw [hlast, List.append_nil] at hend
        exact ⟨end', m, hend, hnode.symm⟩
      · obtain ⟨mid, hmid, hrest⟩ := hend.split hlast
        obtain ⟨d, hd, -⟩ := hrest.isdir hlast
        exact ⟨mid, d, hmid, hd⟩
    obtain ⟨loc, x, hloc, hx⟩ := hmid.entry_some hd
    rw [hdir] at hleads
    rw [hleads.unique hloc, hx] at hnone
    cases hnone

end Create

/-! ## One directory -/

section Provides

variable {fs fs' : FileSystem} {make : Node → Node} {tried tried' : List Name → Prop} {p r : Route}
  {granted : Bool} {q rest : List Name} {m : Node}

/-- More that may be made, or that is made no more since it is there. -/
theorem Provides.mono (h : Provides make r tried fs q rest m)
    (htried : ∀ q', q.length < q'.length → q' ≠ [dot] → tried q' → tried' q') :
    Provides make r tried' fs q rest m := by
  induction h with
  | done h => exact .done h
  | @there fs q n rest l d m hleads hd _ ih =>
    refine .there hleads hd (ih fun q' hq' => htried q' ?_)
    rw [List.length_append] at hq'
    omega
  | @made fs q n rest l d m hleads hnone hd hq _ ih =>
    refine .made hleads hnone hd (htried _ ?_ ?_ hq) (ih fun q' hq' => htried q' ?_)
    · rw [List.length_append]
      exact Nat.lt_succ_self _
    · intro hdot
      rw [hdot] at hleads
      exact hleads.dot_some hnone
    · rw [List.length_append] at hq'
      omega

theorem find_of_leads {l : Loc} {x : Option Node} (hdir : p.dir = r.dir)
    (h : Leads fs false maxLinks r.dir p.names l) (hx : x = fs.node l) : fs.find p = .ok (l, x) := by
  rw [← hdir] at h
  exact find_eq_ok.mpr ⟨h, hx⟩

/-- The next component ends the pathname of a directory that is tried, or is on the way to it. -/
theorem next_component {n : Name} (hq : q ++ n :: rest = r.names) (hp : p.names <+: r.names)
    (hlonger : q.length < p.names.length) :
    p.names = q ++ [n] ∨ ∃ more, more ≠ [] ∧ p.names = q ++ [n] ++ more := by
  have hwhole : q ++ [n] ++ rest = r.names := by
    rw [← hq]
    simp
  have hprefix : q ++ [n] <+: p.names := by
    refine List.prefix_of_prefix_length_le ⟨rest, hwhole⟩ hp ?_
    rw [List.length_append]
    exact hlonger
  obtain ⟨more, hmore⟩ := hprefix
  by_cases hnil : more = []
  · rw [hnil, List.append_nil] at hmore
    exact Or.inl hmore.symm
  · exact Or.inr ⟨more, hnil, hmore.symm⟩

theorem longer_of_on {n : Name} {more : List Name} (hmore : more ≠ [])
    (hon : p.names = q ++ [n] ++ more) : (q ++ [n]).length < p.names.length := by
  have hpos := List.length_pos_iff.mpr hmore
  have hlen : (q ++ [n] ++ more).length = (q ++ [n]).length + more.length := List.length_append
  rw [hon]
  omega

/-- What is tried, if one directory is and then others are. -/
def TriedNext (p : Route) (granted : Bool) (tried : List Name → Prop) (q : List Name) : Prop :=
  granted = true ∧ q = p.names ∨ tried q

theorem Provides.later (h : Provides make r (TriedNext p granted tried) fs q rest m)
    (hlen : p.names.length ≤ q.length) : Provides make r tried fs q rest m := by
  refine h.mono fun q' hq' _ htried' => ?_
  rcases htried' with ⟨-, rfl⟩ | hlater
  · omega
  · exact hlater

variable (hmake : ∀ d, sIsdir (make d).stMode = true) (hdir : p.dir = r.dir)
  (hp : p.names <+: r.names) (hlonger : q.length < p.names.length) (hq : q ++ rest = r.names)

include hmake hdir hp hlonger hq

/-- Trying a directory does what is needed, if no shorter one is tried; and it fails only where there is
something. -/
theorem Provides.step (htried : ∀ q', q' ≠ [dot] → tried q' → p.names.length ≤ q'.length)
    (h : Provides make r (TriedNext p granted tried) fs q rest m) :
    Provides make r tried (fs.makeOne make p granted) q rest m ∧
      (granted = true → ∀ e, fs.create p true make = .error e → e = eexist) := by
  induction h with
  | @done fs q m h =>
    rw [List.append_nil] at hq
    rw [hq] at hlonger
    exact absurd hp.length_le (Nat.not_le_of_lt hlonger)
  | @there fs q n rest l d m hleads hd h ih =>
    rcases next_component hq hp hlonger with hend | ⟨more, hmore, hon⟩
    · obtain ⟨loc, x, hloc, hx⟩ := hleads.entry_some hd
      rw [← hend] at hloc
      have hcreate : fs.create p true make = .error eexist :=
        create_exists (find_of_leads hdir hloc hx.symm)
      have hsame : fs.makeOne make p granted = fs := by
        rw [makeOne, hcreate]
        exact ite_self fs
      rw [hsame]
      refine ⟨.there hleads hd (h.later (by rw [hend])), fun _ e he => ?_⟩
      rw [hcreate] at he
      exact (Except.error.inj he).symm
    · obtain ⟨hrest, hcreate⟩ := ih (longer_of_on hmore hon) (by rw [← hq]; simp)
      have hgrows := grows_makeOne make fs p granted
      refine ⟨.there (hgrows.leads hleads fun hnone => ?_) (hgrows l d hd) hrest, hcreate⟩
      rw [hd] at hnone
      cases hnone
  | @made fs q n rest l d m hleads hnone hd hq' h ih =>
    have hdot : q ++ [n] ≠ [dot] := by
      intro hdot
      rw [hdot] at hleads
      exact hleads.dot_some hnone
    have hlen : p.names.length ≤ (q ++ [n]).length := by
      rcases hq' with ⟨-, heq⟩ | hlater
      · rw [heq]
      · exact htried _ hdot hlater
    have hend : p.names = q ++ [n] := by
      rcases next_component hq hp hlonger with hend | ⟨more, hmore, hon⟩
      · exact hend
      · exact absurd hlen (Nat.not_le_of_lt (longer_of_on hmore hon))
    have hleads' := hleads
    rw [← hend] at hleads'
    have hcreate : fs.create p true make = .ok (fs.put l (make d)) :=
      create_apply (find_of_leads hdir hleads' hnone.symm) hd
    have hrest := h.later (by rw [hend])
    refine ⟨?_, fun _ e he => ?_⟩
    · cases granted with
      | false =>
        exact .made hleads hnone hd (hq'.resolve_left fun h => Bool.false_ne_true h.1) hrest
      | true =>
        rw [makeOne, if_pos rfl, hcreate]
        exact .there (leads_put_dir hleads hnone (hmake d)) (node_put_self _ _ _) hrest
    · rw [hcreate] at he
      cases he

/-- What is there after a directory was tried is there, or is made where it is tried. -/
theorem Provides.unstep (h : Provides make r tried (fs.makeOne make p granted) q rest m) :
    Provides make r (TriedNext p granted tried) fs q rest m := by
  rcases makeOne_cases make fs p granted with heq | ⟨loc, d₀, hgranted, hfind, hd₀, heq⟩
  · rw [heq] at h
    exact h.mono fun _ _ _ hq' => Or.inr hq'
  · rw [heq] at h
    obtain ⟨hloc, hnone₀⟩ := find_eq_ok.mp hfind
    have hgrows := grows_put hnone₀.symm (make d₀)
    rw [hdir] at hloc
    generalize hfs' : fs.put loc (make d₀) = fs' at h
    induction h with
    | @done fs₁ q m h =>
      rw [List.append_nil] at hq
      rw [hq] at hlonger
      exact absurd hp.length_le (Nat.not_le_of_lt hlonger)
    | @there fs₁ q n rest l d m hleads hd h ih =>
      subst hfs'
      rcases next_component hq hp hlonger with hend | ⟨more, hmore, hon⟩
      · rw [hend] at hloc
        exact .made hloc hnone₀.symm hd₀ (Or.inl ⟨hgranted, hend.symm⟩)
          (h.mono fun _ _ _ hq' => Or.inr hq')
      · rw [hon] at hloc
        obtain ⟨mid, hmid, hbelow⟩ := hloc.split hmore
        obtain ⟨x, hx, -⟩ := hbelow.isdir hmore
        refine .there hmid hx (ih (longer_of_on hmore hon) (by rw [← hq]; simp) rfl)
    | @made fs₁ q n rest l d m hleads hnone hd hq' h ih =>
      -- There is something already: the new directory, or one on the way to it.
      subst hfs'
      exfalso
      obtain ⟨l', y, hl', hy⟩ : ∃ l' y, Leads (fs.put loc (make d₀)) true maxLinks r.dir (q ++ [n]) l' ∧
          (fs.put loc (make d₀)).node l' = some y := by
        rcases next_component hq hp hlonger with hend | ⟨more, hmore, hon⟩
        · rw [hend] at hloc
          exact ⟨loc, _, leads_put_dir hloc hnone₀.symm (hmake d₀), node_put_self _ _ _⟩
        · rw [hon] at hloc
          obtain ⟨mid, hmid, hbelow⟩ := hloc.split hmore
          obtain ⟨x, hx, -⟩ := hbelow.isdir hmore
          refine ⟨mid, x, hgrows.leads hmid fun hmissing => ?_, hgrows mid x hx⟩
          rw [hx] at hmissing
          cases hmissing
      obtain ⟨l'', z, hl'', hz⟩ := hl'.entry_some hy
      rw [hleads.unique hl'', hz] at hnone
      cases hnone

end Provides

/-! ## All of them -/

/-- Directories that are tried on the way of a pathname, the ones above first. -/
structure Ascending (r : Route) (ps : List (Route × Bool)) : Prop where
  dir : ∀ e ∈ ps, e.1.dir = r.dir
  ne : ∀ e ∈ ps, e.1.names ≠ []
  above : ∀ e ∈ ps, e.1.names = [dot] ∨ e.1.names <+: r.names
  order : ps.Pairwise fun e e' => e.1.names = [dot] ∨ e'.1.names = [dot] ∨ e.1.names <+: e'.1.names

/-- Some directory of the list is tried at these components. -/
def TriedIn (ps : List (Route × Bool)) (q : List Name) : Prop := ∃ e ∈ ps, e.2 = true ∧ e.1.names = q

section All

variable {fs : FileSystem} {make : Node → Node} {p r : Route} {granted : Bool}
  {ps : List (Route × Bool)} {q rest : List Name} {m : Node}

theorem Ascending.tail {e : Route × Bool} (h : Ascending r (e :: ps)) : Ascending r ps :=
  ⟨fun e' he' => h.dir e' (List.mem_cons_of_mem e he'),
    fun e' he' => h.ne e' (List.mem_cons_of_mem e he'),
    fun e' he' => h.above e' (List.mem_cons_of_mem e he'), (List.pairwise_cons.mp h.order).2⟩

theorem triedIn_cons : TriedIn ((p, granted) :: ps) q ↔ TriedNext p granted (TriedIn ps) q := by
  unfold TriedIn TriedNext
  rw [List.exists_mem_cons_iff]
  exact or_congr (and_congr Iff.rfl eq_comm) Iff.rfl

/-- What a pathname leads to is there on all of the way. -/
theorem provides_of_stat {tried : List Name → Prop} (hq : q ++ rest = r.names) (h : fs.stat r = .ok m) :
    Provides make r tried fs q rest m := by
  induction rest generalizing q with
  | nil => exact .done h
  | cons n rest ih =>
    obtain ⟨l, hres⟩ := stat_eq_ok.mp h
    obtain ⟨hleads, hl⟩ := resolve_eq_ok.mp hres
    have hsteps : r.steps = q ++ [n] ++ (rest ++ if r.slash then [dot] else []) := by
      rw [Route.steps, ← hq]
      simp
    have hnext : Provides make r tried fs (q ++ [n]) rest m := ih (by rw [← hq]; simp)
    rw [hsteps] at hleads
    by_cases hmore : (rest ++ if r.slash then [dot] else []) = []
    · rw [hmore, List.append_nil] at hleads
      exact .there hleads hl.symm hnext
    · obtain ⟨mid, hmid, hbelow⟩ := hleads.split hmore
      obtain ⟨x, hx, -⟩ := hbelow.isdir hmore
      exact .there hmid hx hnext

theorem Provides.stat {tried : List Name → Prop} (htried : ∀ q, ¬tried q)
    (h : Provides make r tried fs q rest m) : fs.stat r = .ok m := by
  induction h with
  | done h => exact h
  | there _ _ _ ih => exact ih
  | made _ _ _ hq => exact absurd hq (htried _)

theorem Provides.isdir {tried : List Name → Prop} (h : Provides make r tried fs [] rest m)
    (hrest : rest ≠ []) : ∃ d, fs.node r.dir = some d ∧ sIsdir d.stMode = true := by
  cases h with
  | done => exact absurd rfl hrest
  | there hleads => exact hleads.isdir (List.cons_ne_nil _ _)
  | made hleads => exact hleads.isdir (List.cons_ne_nil _ _)

/-- Trying a directory, and what is there afterwards. -/
theorem provides_cons (hmake : ∀ d, sIsdir (make d).stMode = true) (hr : r.names ≠ [])
    (h : Ascending r ((p, granted) :: ps)) :
    (Provides make r (TriedIn ((p, granted) :: ps)) fs [] r.names m ↔
        Provides make r (TriedIn ps) (fs.makeOne make p granted) [] r.names m) ∧
      (Provides make r (TriedIn ((p, granted) :: ps)) fs [] r.names m → granted = true →
        ∀ e, fs.create p true make = .error e → e = eexist) := by
  have hnext : Provides make r (TriedIn ((p, granted) :: ps)) fs [] r.names m ↔
      Provides make r (TriedNext p granted (TriedIn ps)) fs [] r.names m :=
    ⟨fun h => h.mono fun _ _ _ => triedIn_cons.mp, fun h => h.mono fun _ _ _ => triedIn_cons.mpr⟩
  have hdir := h.dir _ List.mem_cons_self
  rw [hnext]
  by_cases hdot : p.names = [dot]
  · have hsame : Provides make r (TriedNext p granted (TriedIn ps)) fs [] r.names m ↔
        Provides make r (TriedIn ps) fs [] r.names m := by
      refine ⟨fun h => h.mono fun q _ hq htried => ?_, fun h => h.mono fun _ _ _ => Or.inr⟩
      exact htried.resolve_left fun hself => hq (hself.2.trans hdot)
    rw [makeOne_dot hdot]
    refine ⟨hsame, fun hprovides _ e he => ?_⟩
    obtain ⟨d, hd, hisdir⟩ := hprovides.isdir hr
    have hfind : fs.find p = .ok (p.dir, some d) := by
      refine find_eq_ok.mpr ⟨?_, by rw [hdir, hd]⟩
      rw [hdot, hdir]
      refine .on ?_ linkAt_nofollow .here
      rw [enter, hd]
      simp [hisdir]
    rw [create_exists hfind] at he
    exact (Except.error.inj he).symm
  · have hp := (h.above _ List.mem_cons_self).resolve_left hdot
    have hlonger : ([] : List Name).length < p.names.length :=
      List.length_pos_iff.mpr (h.ne _ List.mem_cons_self)
    have htried : ∀ q', q' ≠ [dot] → TriedIn ps q' → p.names.length ≤ q'.length := by
      rintro _ hq ⟨e, he, -, rfl⟩
      rcases (List.pairwise_cons.mp h.order).1 e he with hself | hother | hprefix
      · exact absurd hself hdot
      · exact absurd hother hq
      · exact hprefix.length_le
    have hstep := fun hprovides =>
      @Provides.step fs make _ p r granted [] r.names m hmake hdir hp hlonger rfl htried hprovides
    exact ⟨⟨fun hprovides => (hstep hprovides).1, Provides.unstep hmake hdir hp hlonger rfl⟩,
      fun hprovides => (hstep hprovides).2⟩

/-- After all have been tried, a pathname leads to what is provided. -/
theorem makeAll_stat_iff (hmake : ∀ d, sIsdir (make d).stMode = true) (hr : r.names ≠ [])
    (h : Ascending r ps) :
    (fs.makeAll make ps).stat r = .ok m ↔ Provides make r (TriedIn ps) fs [] r.names m := by
  induction ps generalizing fs with
  | nil => exact ⟨provides_of_stat rfl, Provides.stat nofun⟩
  | cons e ps ih =>
    obtain ⟨p, granted⟩ := e
    rw [(provides_cons hmake hr h).1, ← ih h.tail]
    rfl

/-- If the pathname leads to something then, none of them fails except where there is something. -/
theorem makeAll_fails {before after : List (Route × Bool)} (hmake : ∀ d, sIsdir (make d).stMode = true)
    (hr : r.names ≠ []) (h : Ascending r (before ++ (p, true) :: after))
    (hprovides : Provides make r (TriedIn (before ++ (p, true) :: after)) fs [] r.names m)
    {e : Errno} (he : (fs.makeAll make before).create p true make = .error e) : e = eexist := by
  induction before generalizing fs with
  | nil => exact (provides_cons hmake hr h).2 hprovides rfl e he
  | cons e' before ih =>
    obtain ⟨p', granted⟩ := e'
    exact ih h.tail ((provides_cons hmake hr h).1.mp hprovides) he

end All

end FileSystem

end Foundation
