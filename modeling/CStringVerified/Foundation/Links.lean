import CStringVerified.Foundation.Lookups

/-!
# Lookups in a file system that changes

Where a lookup leads depends on the types of files and on the links only: the end is the same in file
systems that are `Alike` in that respect. It stays where it is as files are added (`Grows`), and as a name
goes that the lookup does not look at (`Passes`). Renaming takes along what the old name leads to.
-/

namespace Foundation

/-- Nodes of one type. -/
def Node.SameType (n m : Node) : Prop := m.stMode &&& sIfmt = n.stMode &&& sIfmt

namespace Node.SameType

variable {n m m' : Node}

theorem symm (h : n.SameType m) : m.SameType n := Eq.symm h

theorem trans (h : n.SameType m) (h' : m.SameType m') : n.SameType m' := Eq.trans h' h

theorem isreg (h : n.SameType m) : sIsreg m.stMode = sIsreg n.stMode := by
  unfold SameType at h
  rw [sIsreg, sIsreg, h]

theorem isdir (h : n.SameType m) : sIsdir m.stMode = sIsdir n.stMode := by
  unfold SameType at h
  rw [sIsdir, sIsdir, h]

theorem islnk (h : n.SameType m) : sIslnk m.stMode = sIslnk n.stMode := by
  unfold SameType at h
  rw [sIslnk, sIslnk, h]

end Node.SameType

namespace FileSystem

/-! ## Lookups that go the same way -/

section Congr

variable {fs fs' : FileSystem} (henter : ∀ dir n, fs'.enter dir n = fs.enter dir n)
  (hlinkAt : ∀ follow loc rest, fs'.linkAt follow loc rest = fs.linkAt follow loc rest)

include henter hlinkAt

theorem walkWith_congr {onLink onLink' : Loc → Text → List Name → Except Errno Loc}
    (honLink : ∀ loc target rest, onLink' loc target rest = onLink loc target rest) (follow : Bool)
    (dir : Loc) (ns : List Name) :
    fs'.walkWith follow onLink' dir ns = fs.walkWith follow onLink dir ns := by
  induction ns generalizing dir with
  | nil => rfl
  | cons n rest ih => simp only [walkWith, henter, hlinkAt, honLink, ih]

theorem walk_congr (follow : Bool) (k : Nat) (dir : Loc) (ns : List Name) :
    fs'.walk follow k dir ns = fs.walk follow k dir ns := by
  induction k generalizing dir ns with
  | zero => exact walkWith_congr henter hlinkAt (fun _ _ _ => rfl) follow dir ns
  | succ k ih => exact walkWith_congr henter hlinkAt (fun _ _ _ => by simp only [ih]) follow dir ns

end Congr

/-! ## Files that change -/

/-- The file systems differ in files that keep their type alone, and the links are the same. -/
def Alike (fs fs' : FileSystem) : Prop :=
  ∀ l, fs'.node l = fs.node l ∨ ∃ n m, fs.node l = some n ∧ fs'.node l = some m ∧
    n.SameType m ∧ sIslnk n.stMode = false

section Alike

variable {fs fs' : FileSystem} {follow : Bool} {k i : Nat} {dir l old new : Loc} {ns : List Name}
  {p q : Route} {n m : Node} {r : Option Node}

theorem Alike.refl (fs : FileSystem) : Alike fs fs := fun _ => Or.inl rfl

theorem Alike.symm (h : Alike fs fs') : Alike fs' fs := by
  intro l
  rcases h l with heq | ⟨n, m, hn, hm, htype, hlink⟩
  · exact Or.inl heq.symm
  · exact Or.inr ⟨m, n, hm, hn, htype.symm, htype.islnk.trans hlink⟩

theorem Alike.isdir (h : Alike fs fs') (l : Loc) :
    ((fs'.node l).any fun n => sIsdir n.stMode) = (fs.node l).any fun n => sIsdir n.stMode := by
  rcases h l with heq | ⟨n, m, hn, hm, htype, -⟩
  · rw [heq]
  · rw [hn, hm, Option.any_some, Option.any_some, htype.isdir]

/-- Where there is something, there is the same, or something of its type. -/
theorem Alike.node (h : Alike fs fs') (hn : fs.node l = some n) :
    ∃ m, fs'.node l = some m ∧ (m = n ∨ n.SameType m ∧ sIslnk n.stMode = false) := by
  rcases h l with heq | ⟨n', m, hn', hm, htype, hlink⟩
  · exact ⟨n, heq.trans hn, Or.inl rfl⟩
  · obtain rfl := Option.some.inj (hn.symm.trans hn')
    exact ⟨m, hm, Or.inr ⟨htype, hlink⟩⟩

theorem Alike.enter (h : Alike fs fs') (dir : Loc) (n : Name) : fs'.enter dir n = fs.enter dir n := by
  rcases h dir with heq | ⟨d, e, hd, he, htype, -⟩
  · rw [FileSystem.enter, FileSystem.enter, heq]
  · rw [FileSystem.enter, FileSystem.enter, hd, he]
    simp only [htype.isdir]

theorem Alike.linkAt (h : Alike fs fs') (follow : Bool) (loc : Loc) (rest : List Name) :
    fs'.linkAt follow loc rest = fs.linkAt follow loc rest := by
  rcases h loc with heq | ⟨d, e, hd, he, htype, hlink⟩
  · rw [FileSystem.linkAt, FileSystem.linkAt, heq]
  · rw [linkAt_of_plain hd hlink, linkAt_of_plain he (htype.islnk.trans hlink)]

theorem Alike.walk (h : Alike fs fs') (follow : Bool) (k : Nat) (dir : Loc) (ns : List Name) :
    fs'.walk follow k dir ns = fs.walk follow k dir ns := walk_congr h.enter h.linkAt follow k dir ns

/-- A lookup leads to the same place. -/
theorem Alike.leads (h : Alike fs fs') (hleads : Leads fs follow k dir ns l) :
    Leads fs' follow k dir ns l := by
  rw [← walk_eq_ok, h.walk]
  exact walk_eq_ok.mpr hleads

theorem Alike.find (h : Alike fs fs') (hfind : fs.find p = .ok (l, r)) :
    fs'.find p = .ok (l, fs'.node l) :=
  find_eq_ok.mpr ⟨h.leads (find_eq_ok.mp hfind).1, rfl⟩

theorem Alike.resolve (h : Alike fs fs') (hres : fs.resolve p = .ok (l, r)) :
    fs'.resolve p = .ok (l, fs'.node l) :=
  resolve_eq_ok.mpr ⟨h.leads (resolve_eq_ok.mp hres).1, rfl⟩

theorem Alike.stat (h : Alike fs fs') (hstat : fs.stat p = .ok n) : ∃ m, fs'.stat p = .ok m := by
  obtain ⟨l, hres⟩ := stat_eq_ok.mp hstat
  obtain ⟨m, hm, -⟩ := h.node (resolve_node hres)
  exact ⟨m, stat_eq_ok.mpr ⟨l, by rw [h.resolve hres, hm]⟩⟩

/-- The same is found where all nodes are the same. -/
theorem alike_of_nodes (h : ∀ l, fs'.node l = fs.node l) : Alike fs fs' := fun l => Or.inl (h l)

theorem stat_congr (h : ∀ l, fs'.node l = fs.node l) (p : Route) : fs'.stat p = fs.stat p := by
  simp only [FileSystem.stat, (alike_of_nodes h).walk, h]

theorem lstat_congr (h : ∀ l, fs'.node l = fs.node l) (p : Route) : fs'.lstat p = fs.lstat p := by
  simp only [FileSystem.lstat, (alike_of_nodes h).walk, h]

/-- A file that is changed. -/
theorem alike_set (hn : fs.inode i = some n) (htype : n.SameType m)
    (hlink : sIslnk n.stMode = false) : Alike fs (fs.set i m) := by
  intro l
  by_cases hl : fs.ino l = some i
  · exact Or.inr ⟨n, m, (node_of_ino hl).trans hn, node_set_self hl m, htype, hlink⟩
  · exact Or.inl (node_set_ne hl m)

/-- A file that is changed where a pathname leads. -/
theorem alike_update {f : Node → Except Errno Node} (hp : p.names ≠ [])
    (hf : ∀ n m, f n = .ok m → n.SameType m) (h : fs.update p f = .ok fs') : Alike fs fs' := by
  obtain ⟨l, i, n, m, hres, hi, hm, rfl⟩ := update_eq h
  have hn : fs.inode i = some n := (node_of_ino hi).symm.trans (resolve_node hres)
  exact alike_set hn (hf n m hm) (resolve_plain hp hres)

end Alike

/-! ## Files that are created -/

/-- All that there is in one file system is in the other one. -/
def Grows (fs fs' : FileSystem) : Prop := ∀ l n, fs.node l = some n → fs'.node l = some n

section Grows

variable {fs fs' : FileSystem} {follow : Bool} {k : Nat} {dir l new : Loc} {ns : List Name}
  {p : Route} {n m : Node} {name : Name}

theorem grows_put (h : fs.node new = none) (m : Node) : Grows fs (fs.put new m) := by
  intro l n hn
  have hne : l ≠ new := by
    rintro rfl
    rw [h] at hn
    cases hn
  rw [node_put_ne m hne, hn]

theorem grows_del (fs : FileSystem) (gone : Loc) : Grows (fs.del gone) fs :=
  fun _ _ h => (node_del_some h).2

theorem Grows.enter {loc : Loc} (h : Grows fs fs') (henter : fs.enter dir name = .ok loc) :
    fs'.enter dir name = .ok loc := by
  obtain ⟨d, hd, hdir, rfl⟩ := enter_ok henter
  rw [FileSystem.enter, h dir d hd]
  simp only [hdir, Bool.not_true, Bool.false_eq_true, if_false]

/-- A lookup ends in the same place, unless a link has appeared there. -/
theorem Grows.leads (h : Grows fs fs') (hleads : Leads fs follow k dir ns l)
    (hlast : fs.node l = none → fs'.linkAt follow l [] = none) : Leads fs' follow k dir ns l := by
  induction hleads with
  | here => exact .here
  | @on k dir n rest loc l henter hlink hrest ih =>
    refine .on (h.enter henter) ?_ (ih hlast)
    cases hloc : fs.node loc with
    | some m =>
      have hloc' := h loc m hloc
      rw [FileSystem.linkAt, hloc'] 
      rwa [FileSystem.linkAt, hloc] at hlink
    | none =>
      -- Nothing can be looked up below nothing.
      have hend : rest = [] := by
        by_contra hne
        obtain ⟨d, hd, -⟩ := hrest.isdir hne
        rw [hloc] at hd
        cases hd
      subst hend
      cases hrest
      exact hlast hloc
  | @link k dir n rest loc l target henter hlink hne _ ih =>
    obtain ⟨m, hm, hislnk, rfl, hgo⟩ := linkAt_eq_some hlink
    exact .link (h.enter henter) (linkAt_of_node (h loc m hm) hislnk hgo) hne (ih hlast)

/-- A pathname leads where it led before. -/
theorem Grows.find_at (h : Grows fs fs') {r : Option Node} (hfind : fs.find p = .ok (l, r)) :
    fs'.find p = .ok (l, fs'.node l) := by
  obtain ⟨hleads, -⟩ := find_eq_ok.mp hfind
  exact find_eq_ok.mpr ⟨h.leads hleads fun _ => linkAt_nofollow, rfl⟩

/-- What was found is found still. -/
theorem Grows.find (h : Grows fs fs') (hfind : fs.find p = .ok (l, some n)) :
    fs'.find p = .ok (l, some n) := by
  obtain ⟨-, hnode⟩ := find_eq_ok.mp hfind
  rw [h.find_at hfind, h l n hnode.symm]

theorem Grows.resolve (h : Grows fs fs') (hres : fs.resolve p = .ok (l, some n)) :
    fs'.resolve p = .ok (l, some n) := by
  obtain ⟨hleads, hnode⟩ := resolve_eq_ok.mp hres
  refine resolve_eq_ok.mpr ⟨h.leads hleads fun hnone => ?_, (h l n hnode.symm).symm⟩
  rw [hnone] at hnode
  cases hnode

/-- A pathname that led to the place leads to the file. -/
theorem resolve_put_self (h : fs.resolve p = .ok (new, none)) (hm : sIslnk m.stMode = false) :
    (fs.put new m).resolve p = .ok (new, some m) := by
  obtain ⟨hleads, hnode⟩ := resolve_eq_ok.mp h
  refine resolve_eq_ok.mpr ⟨(grows_put hnode.symm m).leads hleads fun _ => ?_, (node_put_self _ _ _).symm⟩
  exact linkAt_of_plain (node_put_self _ _ _) hm

theorem find_put_self (h : fs.find p = .ok (new, none)) (m : Node) :
    (fs.put new m).find p = .ok (new, some m) := by
  obtain ⟨hleads, hnode⟩ := find_eq_ok.mp h
  exact find_eq_ok.mpr ⟨(grows_put hnode.symm m).leads hleads fun _ => linkAt_nofollow,
    (node_put_self _ _ _).symm⟩

end Grows

/-! ## Names that go -/

/-- A lookup looks at what there is at a location. -/
inductive Passes (fs : FileSystem) (follow : Bool) (place : Loc) : Loc → List Name → Prop
  | here {ns} : Passes fs follow place place ns
  | on {dir n rest loc} (henter : fs.enter dir n = .ok loc) (hlink : fs.linkAt follow loc rest = none)
      (h : Passes fs follow place loc rest) : Passes fs follow place dir (n :: rest)
  | atLink {dir n rest target} (henter : fs.enter dir n = .ok place)
      (hlink : fs.linkAt follow place rest = some target) : Passes fs follow place dir (n :: rest)
  | link {dir n rest loc target} (henter : fs.enter dir n = .ok loc)
      (hlink : fs.linkAt follow loc rest = some target)
      (h : Passes fs follow place (route loc.dropLast target).dir
        ((route loc.dropLast target).steps ++ rest)) : Passes fs follow place dir (n :: rest)

section Passes

variable {fs fs' : FileSystem} {follow : Bool} {k : Nat} {dir l gone loc : Loc} {ns rest : List Name}
  {name : Name} {p : Route} {n m : Node}

theorem enter_del (h : dir ≠ gone) (name : Name) : (fs.del gone).enter dir name = fs.enter dir name := by
  rw [enter, enter, node_del_ne h]

theorem linkAt_del (h : loc ≠ gone) (follow : Bool) (rest : List Name) :
    (fs.del gone).linkAt follow loc rest = fs.linkAt follow loc rest := by
  rw [linkAt, linkAt, node_del_ne h]

/-- A lookup looks at where it ends. -/
theorem Leads.passes_end (h : Leads fs follow k dir ns l) : Passes fs follow l dir ns := by
  induction h with
  | here => exact .here
  | on henter hlink _ ih => exact .on henter hlink ih
  | link henter hlink _ _ ih => exact .link henter hlink ih

/-- The ways are the same where the links are. -/
theorem Alike.passes (h : Alike fs fs') (hpasses : Passes fs follow gone dir ns) :
    Passes fs' follow gone dir ns := by
  induction hpasses with
  | here => exact .here
  | on henter hlink _ ih => exact .on ((h.enter _ _).trans henter) ((h.linkAt _ _ _).trans hlink) ih
  | atLink henter hlink => exact .atLink ((h.enter _ _).trans henter) ((h.linkAt _ _ _).trans hlink)
  | link henter hlink _ ih =>
    exact .link ((h.enter _ _).trans henter) ((h.linkAt _ _ _).trans hlink) ih

/-- A lookup that does not look at the name that goes leads to the same place. -/
theorem Leads.del (h : Leads fs follow k dir ns l) (hpasses : ¬Passes fs follow gone dir ns) :
    Leads (fs.del gone) follow k dir ns l := by
  induction h with
  | here => exact .here
  | @on k dir n rest loc l henter hlink _ ih =>
    have hdir : dir ≠ gone := fun heq => hpasses (heq ▸ .here)
    have hloc : loc ≠ gone := by
      rintro rfl
      exact hpasses (.on henter hlink .here)
    exact .on ((enter_del hdir _).trans henter) ((linkAt_del hloc _ _).trans hlink)
      (ih fun hrest => hpasses (.on henter hlink hrest))
  | @link k dir n rest loc l target henter hlink hne _ ih =>
    have hdir : dir ≠ gone := fun heq => hpasses (heq ▸ .here)
    have hloc : loc ≠ gone := by
      rintro rfl
      exact hpasses (.atLink henter hlink)
    exact .link ((enter_del hdir _).trans henter) ((linkAt_del hloc _ _).trans hlink) hne
      (ih fun hrest => hpasses (.link henter hlink hrest))

/-- Where something is found without the name, the lookup has not looked at it. -/
theorem Leads.not_passes (h : Leads (fs.del gone) follow k dir ns l)
    (hl : (fs.del gone).node l ≠ none) : ¬Passes fs follow gone dir ns := by
  have hgone : ∀ {k ns l}, Leads (fs.del gone) follow k gone ns l → (fs.del gone).node l = none := by
    intro k ns l h
    by_cases hne : ns = []
    · subst hne
      cases h
      exact node_del_self fs gone
    · obtain ⟨d, hd, -⟩ := h.isdir hne
      rw [node_del_self] at hd
      cases hd
  induction h with
  | @here k dir =>
    intro hpasses
    cases hpasses
    exact hl (node_del_self fs gone)
  | @on k dir n rest loc l henter hlink hrest ih =>
    have hdir : dir ≠ gone := by
      rintro rfl
      exact hl (hgone (.on henter hlink hrest))
    have hloc : loc ≠ gone := by
      rintro rfl
      exact hl (hgone hrest)
    rw [enter_del hdir] at henter
    rw [linkAt_del hloc] at hlink
    intro hpasses
    cases hpasses with
    | here => exact hdir rfl
    | on henter' hlink' h' =>
      obtain rfl := Except.ok.inj (henter.symm.trans henter')
      exact ih hl h'
    | atLink henter' hlink' =>
      obtain rfl := Except.ok.inj (henter.symm.trans henter')
      exact hloc rfl
    | link henter' hlink' h' =>
      obtain rfl := Except.ok.inj (henter.symm.trans henter')
      rw [hlink] at hlink'
      cases hlink'
  | @link k dir n rest loc l target henter hlink hne hrest ih =>
    have hdir : dir ≠ gone := by
      rintro rfl
      exact hl (hgone (.link henter hlink hne hrest))
    have hloc : loc ≠ gone := by
      rintro rfl
      rw [linkAt_of_none (node_del_self fs _)] at hlink
      cases hlink
    rw [enter_del hdir] at henter
    rw [linkAt_del hloc] at hlink
    intro hpasses
    cases hpasses with
    | here => exact hdir rfl
    | on henter' hlink' h' =>
      obtain rfl := Except.ok.inj (henter.symm.trans henter')
      rw [hlink] at hlink'
      cases hlink'
    | atLink henter' hlink' =>
      obtain rfl := Except.ok.inj (henter.symm.trans henter')
      exact hloc rfl
    | link henter' hlink' h' =>
      obtain rfl := Except.ok.inj (henter.symm.trans henter')
      obtain rfl := Option.some.inj (hlink.symm.trans hlink')
      exact ih hl h'

/-- What is found then was found before, on a way that does not go through what is gone. -/
theorem leads_del_some : Leads (fs.del gone) follow k dir ns l ∧ (fs.del gone).node l = some n ↔
    (Leads fs follow k dir ns l ∧ fs.node l = some n) ∧ ¬Passes fs follow gone dir ns := by
  constructor
  · rintro ⟨hleads, hn⟩
    have hsome : (fs.del gone).node l ≠ none := by
      rw [hn]
      exact Option.some_ne_none n
    exact ⟨⟨(grows_del fs gone).leads hleads fun h => absurd h hsome, (node_del_some hn).2⟩,
      hleads.not_passes hsome⟩
  · rintro ⟨⟨hleads, hn⟩, hpasses⟩
    have hleads' := hleads.del hpasses
    refine ⟨hleads', ?_⟩
    have hl : l ≠ gone := by
      rintro rfl
      exact hpasses hleads.passes_end
    rw [node_del_ne hl, hn]

end Passes

/-! ## Renaming -/

/-- The entry at a location is a file, or a link that leads to it. -/
def Ends (fs : FileSystem) (loc : Loc) (n : Node) : Prop :=
  ∃ t, fs.node loc = some t ∧ (sIslnk t.stMode = false ∧ t = n ∨
    sIslnk t.stMode = true ∧ ∃ k l, Leads fs true k (route loc.dropLast t.data).dir
      (route loc.dropLast t.data).steps l ∧ fs.node l = some n)

section Rename

variable {fs fs' : FileSystem} {k : Nat} {dir l loc old new : Loc} {ns : List Name}
  {p q : Route} {n m t : Node} {r : Option Node}

/-- The entry of a pathname leads to the file the pathname leads to. -/
theorem ends_of_resolve (hslash : p.slash = false) (hp : p.names ≠ [])
    (h : fs.resolve p = .ok (l, some n)) :
    ∃ loc t, fs.find p = .ok (loc, some t) ∧ fs.node loc = some t ∧ Ends fs loc n := by
  obtain ⟨hleads, hn⟩ := resolve_eq_ok.mp h
  have hplain := resolve_plain hp h
  rw [steps_of_slash hslash] at hleads
  obtain ⟨loc, hloc, heq | ⟨j, target, -, hlink, -, hrest⟩⟩ := hleads.entry
  · subst heq
    exact ⟨loc, n, find_eq_ok.mpr ⟨hloc, hn⟩, hn.symm, n, hn.symm, Or.inl ⟨hplain, rfl⟩⟩
  · obtain ⟨t, ht, htlink, rfl, -⟩ := linkAt_eq_some hlink
    exact ⟨loc, t, find_eq_ok.mpr ⟨hloc, ht.symm⟩, ht, t, ht,
      Or.inr ⟨htlink, j, l, hrest, hn.symm⟩⟩

/-- A pathname leads to what its entry leads to. -/
theorem Ends.eq_of_resolve (h : Ends fs loc n) (hslash : p.slash = false) (hp : p.names ≠ [])
    (hfind : fs.find p = .ok (loc, r)) (hres : fs.resolve p = .ok (l, some m)) : m = n := by
  obtain ⟨loc', t', hfind', -, t, ht, hm⟩ := ends_of_resolve hslash hp hres
  rw [hfind] at hfind'
  obtain ⟨rfl, -⟩ := Prod.mk.inj (Except.ok.inj hfind')
  obtain ⟨t₀, ht₀, hn⟩ := h
  obtain rfl := Option.some.inj (ht.symm.trans ht₀)
  rcases hm with ⟨hplain, rfl⟩ | ⟨hlink, k, l', hleads, hl'⟩
  · rcases hn with ⟨-, rfl⟩ | ⟨hlink, -⟩
    · rfl
    · rw [hplain] at hlink
      cases hlink
  · rcases hn with ⟨hplain, -⟩ | ⟨-, j, l₀, hleads₀, hl₀⟩
    · rw [hplain] at hlink
      cases hlink
    · obtain rfl := hleads.unique hleads₀
      exact Option.some.inj (hl'.symm.trans hl₀)

theorem Ends.congr (h : Ends fs old n) (hnode : fs.node new = fs.node old)
    (hdir : old.dropLast = new.dropLast) : Ends fs new n := by
  obtain ⟨t, ht, hend⟩ := h
  rw [hdir] at hend
  exact ⟨t, hnode.trans ht, hend⟩

variable (hne : old ≠ new) (hdir : old.dropLast = new.dropLast) (hold : Ends fs old n)
  (hold' : fs.node old = some t) (ht : sIsdir t.stMode = false) (hn : sIsdir n.stMode = false)

include hne hold' ht

/-- Both names are those of files that are no directories, so that no lookup goes on below them. -/
theorem enter_move {name : Name} (h : (fs.move old new).enter dir name = .ok loc) :
    fs.enter dir name = .ok loc ∧ dir ≠ old ∧ dir ≠ new := by
  obtain ⟨d, hd, hdirs, -⟩ := enter_ok h
  have hnold : dir ≠ old := by
    rintro rfl
    rw [node_move_old hne] at hd
    cases hd
  have hnnew : dir ≠ new := by
    rintro rfl
    rw [node_move_new hne, hold'] at hd
    rw [← Option.some.inj hd, ht] at hdirs
    cases hdirs
  refine ⟨?_, hnold, hnnew⟩
  rw [← h, enter, enter, node_move_ne hne hnold hnnew]

theorem not_isdir_move (hloc : loc = old ∨ loc = new) (hl : (fs.move old new).node l = some m)
    (h : Leads (fs.move old new) true k loc ns l) : ns = [] ∧ loc = new ∧ l = new ∧ m = t := by
  have hnil : ns = [] := by
    by_contra hgo
    obtain ⟨d, hd, hdirs⟩ := h.isdir hgo
    rcases hloc with rfl | rfl
    · rw [node_move_old hne] at hd
      cases hd
    · rw [node_move_new hne, hold'] at hd
      rw [← Option.some.inj hd, ht] at hdirs
      cases hdirs
  subst hnil
  cases h
  rcases hloc with rfl | rfl
  · rw [node_move_old hne] at hl
    cases hl
  · rw [node_move_new hne, hold'] at hl
    exact ⟨rfl, rfl, rfl, (Option.some.inj hl).symm⟩

include hdir hold hn

/-- What is found after renaming was found before, or it is what the old name led to. -/
theorem leads_move (h : Leads (fs.move old new) true k dir ns l)
    (hl : (fs.move old new).node l = some m) (hplain : sIslnk m.stMode = false) :
    m = n ∨ ∃ j, Leads fs true j dir ns l ∧ fs.node l = some m := by
  have hfile : sIslnk t.stMode = false → t = n := by
    intro htplain
    obtain ⟨t', ht', ⟨-, rfl⟩ | ⟨hlink, -⟩⟩ := hold
    · exact Option.some.inj (hold'.symm.trans ht')
    · rw [← Option.some.inj (hold'.symm.trans ht'), htplain] at hlink
      cases hlink
  induction h with
  | @here k dir =>
    by_cases hloc : dir = old ∨ dir = new
    · obtain ⟨-, -, -, rfl⟩ := not_isdir_move hne hold' ht hloc hl (k := k) .here
      exact Or.inl (hfile hplain)
    · rw [not_or] at hloc
      rw [node_move_ne hne hloc.1 hloc.2] at hl
      exact Or.inr ⟨0, .here, hl⟩
  | @on k dir x rest loc l henter hlink h ih =>
    obtain ⟨henter', -, -⟩ := enter_move hne hold' ht henter
    by_cases hloc : loc = old ∨ loc = new
    · obtain ⟨-, -, -, rfl⟩ := not_isdir_move hne hold' ht hloc hl h
      exact Or.inl (hfile hplain)
    · rw [not_or] at hloc
      rcases ih hl with heq | ⟨j, hleads, hm⟩
      · exact Or.inl heq
      · refine Or.inr ⟨j, .on henter' ?_ hleads, hm⟩
        rw [linkAt, ← node_move_ne hne hloc.1 hloc.2]
        exact hlink
  | @link k dir x rest loc l target henter hlink htarget h ih =>
    obtain ⟨henter', -, -⟩ := enter_move hne hold' ht henter
    obtain ⟨s, hs, hslink, rfl, hgo⟩ := linkAt_eq_some hlink
    rcases ih hl with heq | ⟨j, hleads, hm⟩
    · exact Or.inl heq
    · by_cases hnew : loc = new
      · -- The link has been renamed: it leads to the file, and nothing is below that.
        subst hnew
        rw [node_move_new hne, hold'] at hs
        obtain rfl := Option.some.inj hs
        obtain ⟨t', ht', ⟨htplain, -⟩ | ⟨-, i, l₀, hleads₀, hl₀⟩⟩ := hold
        · rw [← Option.some.inj (hold'.symm.trans ht'), hslink] at htplain
          cases htplain
        · obtain rfl := Option.some.inj (hold'.symm.trans ht')
          rw [hdir] at hleads₀
          by_cases hrest : rest = []
          · subst hrest
            rw [List.append_nil] at hleads
            obtain rfl := hleads.unique hleads₀
            exact Or.inl (Option.some.inj (hm.symm.trans hl₀))
          · obtain ⟨mid, hmid, hbelow⟩ := hleads.split hrest
            obtain rfl := hmid.unique hleads₀
            obtain ⟨d, hd, hdirs⟩ := hbelow.isdir hrest
            rw [← Option.some.inj (hl₀.symm.trans hd), hn] at hdirs
            cases hdirs
      · have hnold : loc ≠ old := by
          rintro rfl
          rw [node_move_old hne] at hs
          cases hs
        rw [node_move_ne hne hnold hnew] at hs
        exact Or.inr ⟨j + 1, .link henter' (linkAt_of_node hs hslink hgo) htarget hleads, hm⟩

/-- The new name leads to what the old one led to. -/
theorem resolve_move {front : Loc} {name : Name} (hq : q.names = front ++ [name])
    (hslash : q.slash = false) (hfind : fs.find q = .ok (new, r))
    (h : (fs.move old new).resolve q = .ok (l, some m)) : m = n := by
  obtain ⟨hleads, hl⟩ := resolve_eq_ok.mp h
  have hplain := resolve_plain (by rw [hq]; exact List.append_ne_nil_of_right_ne_nil _ (List.cons_ne_nil _ _)) h
  obtain ⟨hfound, -⟩ := find_eq_ok.mp hfind
  have hone : [name] ≠ [] := List.cons_ne_nil _ _
  rw [steps_of_slash hslash, hq] at hleads
  rw [hq] at hfound
  obtain ⟨mid, hmid, hlast⟩ := hleads.split hone
  obtain ⟨mid₀, hmid₀, hlast₀⟩ := hfound.split hone
  -- The directory is the same as before.
  obtain ⟨d, hd, hdirs⟩ := hlast.isdir hone
  have hdplain := sIslnk_of_sIsdir hdirs
  obtain rfl : mid = mid₀ := by
    rcases leads_move hne hdir hold hold' ht hn hmid hd hdplain with rfl | ⟨j, hleads, -⟩
    · rw [hn] at hdirs
      cases hdirs
    · exact hleads.unique hmid₀
  have henter₀ : fs.enter mid name = .ok new := by
    cases hlast₀ with
    | on henter _ hrest =>
      cases hrest
      exact henter
    | link _ hlink =>
      rw [linkAt_nofollow] at hlink
      cases hlink
  cases hlast with
  | on henter hlink hrest =>
    cases hrest
    obtain ⟨henter', -, -⟩ := enter_move hne hold' ht henter
    obtain rfl := Except.ok.inj (henter₀.symm.trans henter')
    rw [node_move_new hne, hold'] at hl
    obtain rfl := Option.some.inj hl
    obtain ⟨t', ht', ⟨-, rfl⟩ | ⟨htlink, -⟩⟩ := hold
    · exact Option.some.inj (hold'.symm.trans ht')
    · rw [← Option.some.inj (hold'.symm.trans ht'), hplain] at htlink
      cases htlink
  | link henter hlink htarget hrest =>
    obtain ⟨henter', -, -⟩ := enter_move hne hold' ht henter
    obtain rfl := Except.ok.inj (henter₀.symm.trans henter')
    obtain ⟨s, hs, hslink, rfl, -⟩ := linkAt_eq_some hlink
    rw [node_move_new hne, hold'] at hs
    obtain rfl := Option.some.inj hs
    rw [List.append_nil] at hrest
    rcases leads_move hne hdir hold hold' ht hn hrest hl.symm hplain with heq | ⟨j, hleads, hm⟩
    · exact heq
    · obtain ⟨t', ht', ⟨htplain, -⟩ | ⟨-, i, l₀, hleads₀, hl₀⟩⟩ := hold
      · rw [← Option.some.inj (hold'.symm.trans ht'), hslink] at htplain
        cases htplain
      · obtain rfl := Option.some.inj (hold'.symm.trans ht')
        rw [hdir] at hleads₀
        obtain rfl := hleads.unique hleads₀
        exact Option.some.inj (hm.symm.trans hl₀)

end Rename

section RenameCalls

variable {fs fs' : FileSystem} {p q : Route} {i : Nat} {n m : Node}

/-- Renaming moves a name, unless both are names of one file. -/
theorem rename_eq (h : fs.rename p q = .ok fs') :
    ∃ old new n r, fs.find p = .ok (old, some n) ∧ fs.find q = .ok (new, r) ∧ p.isDots = false ∧
      q.isDots = false ∧ sIsdir n.stMode = false ∧ p.slash = false ∧ q.slash = false ∧
      (fs.ino old = fs.ino new ∧ fs' = fs ∨ fs.ino old ≠ fs.ino new ∧ fs' = fs.move old new) := by
  unfold rename at h
  split at h
  · cases h
  · cases h
  · cases h
  · rename_i old n new target hp hq
    split at h
    · cases h
    · rename_i hdots
      split at h
      · cases h
      · rename_i hdirs
        split at h
        · cases h
        · rename_i hslash
          simp only [Bool.or_eq_true, not_or, Bool.not_eq_true] at hdots hdirs hslash
          refine ⟨old, new, n, target, hp, hq, hdots.1, hdots.2, hdirs.1, hslash.1, hslash.2, ?_⟩
          split at h
          · rename_i hsame
            exact Or.inl ⟨hsame, (Except.ok.inj h).symm⟩
          · rename_i hother
            exact Or.inr ⟨hother, (Except.ok.inj h).symm⟩

/-- What is no directory takes another name, unless a directory has it. -/
theorem rename_some {old new : Loc} {r : Option Node} (hp : fs.find p = .ok (old, some n))
    (hq : fs.find q = .ok (new, r)) (hdots : p.isDots = false ∧ q.isDots = false)
    (hslash : p.slash = false ∧ q.slash = false) (hn : sIsdir n.stMode = false)
    (hr : ∀ m, r = some m → sIsdir m.stMode = false) : ∃ fs', fs.rename p q = .ok fs' := by
  have hdir : (r.any fun m => sIsdir m.stMode) = false := by
    cases r with
    | none => rfl
    | some m => exact hr m rfl
  unfold rename
  simp only [hp, hq, hdots, hslash, hn, hdir, Bool.or_self, Bool.false_eq_true, if_false]
  split
  · exact ⟨_, rfl⟩
  · exact ⟨_, rfl⟩

theorem find_set (hn : fs.inode i = some n) (htype : n.SameType m) (hlink : sIslnk n.stMode = false) :
    (fs.set i m).find p = (fs.find p).map fun e => (e.1, (fs.set i m).node e.1) := by
  rw [find, find, (alike_set hn htype hlink).walk]
  cases fs.walk false maxLinks p.dir p.names with
  | error e => rfl
  | ok loc => rfl

/-- The name of a file that is changed is removed like it was before. -/
theorem unlink_set (hn : fs.inode i = some n) (htype : n.SameType m)
    (hlink : sIslnk n.stMode = false) :
    (fs.set i m).unlink p = (fs.unlink p).map fun fs' => fs'.set i m := by
  have halike := alike_set hn htype hlink
  unfold unlink
  rw [find_set hn htype hlink]
  cases hp : fs.find p with
  | error e => rfl
  | ok found =>
    obtain ⟨l, r⟩ := found
    have hl := find_node hp
    cases r with
    | none =>
      have hnone : (fs.set i m).node l = none := (node_set_none fs i m l).mpr hl
      simp only [Except.map, hnone]
    | some a =>
      obtain ⟨b, hb, -⟩ := halike.node hl
      have hdir := halike.isdir l
      rw [hb, hl, Option.any_some, Option.any_some] at hdir
      simp only [Except.map, hb, hdir]
      split
      · rfl
      · split
        · rfl
        · rfl

/-- A file that is changed is renamed like it was before. -/
theorem rename_set (hn : fs.inode i = some n) (htype : n.SameType m)
    (hlink : sIslnk n.stMode = false) :
    (fs.set i m).rename p q = (fs.rename p q).map fun fs' => fs'.set i m := by
  have halike := alike_set hn htype hlink
  have hisdir := halike.isdir
  unfold rename
  rw [find_set hn htype hlink, find_set hn htype hlink]
  cases hp : fs.find p with
  | error e => rfl
  | ok found =>
    obtain ⟨old, r⟩ := found
    cases hq : fs.find q with
    | error e => rfl
    | ok found' =>
      obtain ⟨new, target⟩ := found'
      have hold := find_node hp
      have hnew := find_node hq
      have holddir := hisdir old
      have hnewdir := hisdir new
      rw [hold] at holddir
      rw [hnew] at hnewdir
      cases r with
      | none =>
        have hnone : (fs.set i m).node old = none := (node_set_none fs i m old).mpr hold
        simp only [Except.map, hnone]
      | some a =>
        obtain ⟨b, hb, -⟩ := halike.node hold
        rw [hb] at holddir
        simp only [Option.any_some] at holddir
        simp only [Except.map, hb, holddir, hnewdir]
        split
        · rfl
        · split
          · rfl
          · split
            · rfl
            · by_cases hsame : fs.ino old = fs.ino new
              · have hsame' : (fs.set i m).ino old = (fs.set i m).ino new := hsame
                rw [if_pos hsame, if_pos hsame']
              · have hother : (fs.set i m).ino old ≠ (fs.set i m).ino new := hsame
                rw [if_neg hsame, if_neg hother]
                rfl

end RenameCalls

/-! ## Neighbours -/

section Neighbours

variable {fs fs' : FileSystem} {j : Nat} {dir l l' loc : Loc} {front ns : List Name} {x y : Name}
  {p q : Route} {n m : Node} {r : Option Node}

/-- The entry of a pathname is in the directory the components before the last one lead to. -/
theorem find_last (hp : p.names = front ++ [x]) (hdots : p.isDots = false)
    (h : fs.find p = .ok (l, r)) :
    ∃ mid, Leads fs true maxLinks p.dir front mid ∧ l = mid ++ [x] := by
  obtain ⟨hleads, -⟩ := find_eq_ok.mp h
  rw [hp] at hleads
  obtain ⟨mid, hmid, hlast⟩ := hleads.split (List.cons_ne_nil _ _)
  have hdot : x ≠ dot ∧ x ≠ dotdot := by
    rw [Route.isDots, hp, List.getLast?_concat] at hdots
    simpa using hdots
  refine ⟨mid, hmid, ?_⟩
  cases hlast with
  | on henter _ hrest =>
    cases hrest
    obtain ⟨-, -, -, heq⟩ := enter_ok henter
    rwa [if_neg hdot.1, if_neg hdot.2] at heq
  | link _ hlink =>
    rw [linkAt_nofollow] at hlink
    cases hlink

/-- Names in one directory, of which one is renamed to the other. -/
structure Neighbours (p q : Route) (dir : Loc) (front : List Name) (x y : Name) : Prop where
  old : p = ⟨dir, front ++ [x], false⟩
  new : q = ⟨dir, front ++ [y], false⟩

/-- What renaming a neighbour moves. -/
theorem Neighbours.rename (h : Neighbours p q dir front x y) (hrename : fs.rename p q = .ok fs')
    (hres : fs.resolve p = .ok (l, some n)) :
    ∃ old new t r, fs.find p = .ok (old, some t) ∧ fs.find q = .ok (new, r) ∧ fs.node old = some t ∧
      sIsdir t.stMode = false ∧ old.dropLast = new.dropLast ∧ Ends fs old n ∧
      (fs.ino old = fs.ino new ∧ fs' = fs ∨ old ≠ new ∧ fs' = fs.move old new) := by
  obtain ⟨old, new, t, r, hfind, hfind', hdots, hdots', hdir, -, -, hend⟩ := rename_eq hrename
  obtain ⟨rfl, rfl⟩ := h
  have hone : front ++ [x] ≠ [] := List.append_ne_nil_of_right_ne_nil _ (List.cons_ne_nil _ _)
  obtain ⟨old', t', hfind'', -, hends⟩ := ends_of_resolve rfl hone hres
  rw [hfind] at hfind''
  cases hfind''
  obtain ⟨mid, hmid, hold⟩ := find_last rfl hdots hfind
  obtain ⟨mid', hmid', hnew⟩ := find_last rfl hdots' hfind'
  obtain rfl := hmid.unique hmid'
  refine ⟨old, new, t, r, hfind, hfind', find_node hfind, hdir, ?_, hends, ?_⟩
  · rw [hold, hnew, List.dropLast_concat, List.dropLast_concat]
  · refine hend.imp_right fun ⟨hino, hmove⟩ => ⟨?_, hmove⟩
    rintro rfl
    exact hino rfl

/-- The new name leads to what the old one led to. -/
theorem Neighbours.resolve_new (h : Neighbours p q dir front x y) (hrename : fs.rename p q = .ok fs')
    (hres : fs.resolve p = .ok (l, some n)) (hn : sIsdir n.stMode = false)
    (hnew : fs'.resolve q = .ok (l', some m)) : m = n := by
  have hone : front ++ [y] ≠ [] := List.append_ne_nil_of_right_ne_nil _ (List.cons_ne_nil _ _)
  obtain ⟨old, new, t, r, -, hfind, hold, ht, hdirs, hends, ⟨hino, rfl⟩ | ⟨hne, rfl⟩⟩ :=
    h.rename hrename hres
  · have hnode : fs'.node new = fs'.node old := by rw [node, node, hino]
    rw [h.new] at hfind hnew
    exact (hends.congr hnode hdirs).eq_of_resolve rfl hone hfind hnew
  · have hq : q.names = front ++ [y] := by rw [h.new]
    have hslash : q.slash = false := by rw [h.new]
    exact resolve_move hne hdirs hends hold ht hn hq hslash hfind hnew

/-- What is found after renaming was found before, or it is what the old name led to. -/
theorem Neighbours.leads (h : Neighbours p q dir front x y) (hrename : fs.rename p q = .ok fs')
    (hres : fs.resolve p = .ok (l, some n)) (hn : sIsdir n.stMode = false)
    (hleads : Leads fs' true j loc ns l') (hl : fs'.node l' = some m)
    (hplain : sIslnk m.stMode = false) :
    m = n ∨ ∃ i, Leads fs true i loc ns l' ∧ fs.node l' = some m := by
  obtain ⟨old, new, t, r, -, -, hold, ht, hdirs, hends, ⟨-, rfl⟩ | ⟨hne, rfl⟩⟩ := h.rename hrename hres
  · exact Or.inr ⟨j, hleads, hl⟩
  · exact leads_move hne hdirs hends hold ht hn hleads hl hplain

end Neighbours

/-! ## Pathnames in two file systems -/

/-- What a pathname names, and what it leads to, are the same in two file systems. -/
structure SameName (fs fs' : FileSystem) (p : Route) : Prop where
  entry : ∀ x, fs'.lstat p = .ok x ↔ fs.lstat p = .ok x
  file : ∀ x, fs'.stat p = .ok x ↔ fs.stat p = .ok x

section SameName

variable {fs fs' fs'' : FileSystem} {p : Route} {gone : Loc} {i : Nat} {n m x : Node}

theorem SameName.of_nodes (h : ∀ l, fs'.node l = fs.node l) (p : Route) : SameName fs fs' p :=
  ⟨fun x => by rw [lstat_congr h], fun x => by rw [stat_congr h]⟩

theorem SameName.trans (h : SameName fs fs' p) (h' : SameName fs' fs'' p) : SameName fs fs'' p :=
  ⟨fun x => (h'.entry x).trans (h.entry x), fun x => (h'.file x).trans (h.file x)⟩

/-- Without a name, what is named is the same if the lookup does not look at it. -/
theorem lstat_del : (fs.del gone).lstat p = .ok x ↔
    fs.lstat p = .ok x ∧ ¬Passes fs false gone p.dir p.steps := by
  rw [lstat_eq_ok, lstat_eq_ok]
  constructor
  · rintro ⟨l, h⟩
    obtain ⟨hbefore, hpasses⟩ := leads_del_some.mp h
    exact ⟨⟨l, hbefore⟩, hpasses⟩
  · rintro ⟨⟨l, h⟩, hpasses⟩
    exact ⟨l, leads_del_some.mpr ⟨h, hpasses⟩⟩

theorem stat_del : (fs.del gone).stat p = .ok x ↔
    fs.stat p = .ok x ∧ ¬Passes fs true gone p.dir p.steps := by
  rw [stat_eq_ok, stat_eq_ok]
  constructor
  · rintro ⟨l, h⟩
    obtain ⟨hleads, hl⟩ := resolve_eq_ok.mp h
    obtain ⟨⟨hbefore, hx⟩, hpasses⟩ := leads_del_some.mp ⟨hleads, hl.symm⟩
    exact ⟨⟨l, resolve_eq_ok.mpr ⟨hbefore, hx.symm⟩⟩, hpasses⟩
  · rintro ⟨⟨l, h⟩, hpasses⟩
    obtain ⟨hleads, hl⟩ := resolve_eq_ok.mp h
    obtain ⟨hafter, hx⟩ := leads_del_some.mpr ⟨⟨hleads, hl.symm⟩, hpasses⟩
    exact ⟨l, resolve_eq_ok.mpr ⟨hafter, hx.symm⟩⟩

theorem sameName_del_iff : SameName fs (fs.del gone) p ↔
    ((∃ x, fs.lstat p = .ok x) → ¬Passes fs false gone p.dir p.steps) ∧
      ((∃ x, fs.stat p = .ok x) → ¬Passes fs true gone p.dir p.steps) := by
  constructor
  · exact fun h => ⟨fun ⟨x, hx⟩ => (lstat_del.mp ((h.entry x).mpr hx)).2,
      fun ⟨x, hx⟩ => (stat_del.mp ((h.file x).mpr hx)).2⟩
  · rintro ⟨hentry, hfile⟩
    refine ⟨fun x => ?_, fun x => ?_⟩
    · rw [lstat_del]
      exact and_iff_left_of_imp fun hx => hentry ⟨x, hx⟩
    · rw [stat_del]
      exact and_iff_left_of_imp fun hx => hfile ⟨x, hx⟩

/-- A file that changes is not seen through a pathname that leads elsewhere. -/
theorem SameName.set (hn : fs.inode i = some n) (hlink : sIslnk n.stMode = false) (htype : n.SameType m)
    (helse : ∀ l x, fs.resolve p = .ok (l, some x) → fs.ino l ≠ some i) :
    SameName fs (fs.set i m) p := by
  have halike := alike_set hn htype hlink
  have hfile : ∀ l, Leads fs true maxLinks p.dir p.steps l → fs.ino l ≠ some i := by
    intro l hleads hino
    refine helse l n (resolve_eq_ok.mpr ⟨hleads, ?_⟩) hino
    rw [node_of_ino hino, hn]
  have hentry : ∀ l, Leads fs false maxLinks p.dir p.steps l → fs.ino l ≠ some i := by
    intro l hleads hino
    refine hfile l (hleads.followed (linkAt_of_plain ?_ hlink)) hino
    rw [node_of_ino hino, hn]
  have hsame : ∀ {follow l x}, (∀ l, Leads fs follow maxLinks p.dir p.steps l → fs.ino l ≠ some i) →
      (Leads (fs.set i m) follow maxLinks p.dir p.steps l ∧ (fs.set i m).node l = some x ↔
        Leads fs follow maxLinks p.dir p.steps l ∧ fs.node l = some x) := by
    intro follow l x hne
    constructor
    · rintro ⟨hleads, hl⟩
      have hbefore := halike.symm.leads hleads
      rw [node_set_ne (hne l hbefore)] at hl
      exact ⟨hbefore, hl⟩
    · rintro ⟨hleads, hl⟩
      exact ⟨halike.leads hleads, by rw [node_set_ne (hne l hleads), hl]⟩
  refine ⟨fun x => ?_, fun x => ?_⟩
  · rw [lstat_eq_ok, lstat_eq_ok]
    exact exists_congr fun l => hsame hentry
  · rw [stat_eq_ok, stat_eq_ok]
    refine exists_congr fun l => ?_
    rw [resolve_eq_ok, resolve_eq_ok, eq_comm, eq_comm (a := some x)]
    exact hsame hfile

end SameName

end FileSystem

end Foundation
