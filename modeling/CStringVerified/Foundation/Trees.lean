import CStringVerified.Foundation.Provides

/-!
# Trees

Where every file lies in a directory there is nothing below a place that is free, and what is made there
lies in a directory again. A file that was added is all that there is to be taken away.
-/

namespace Foundation

namespace FileSystem

/-- Every file but the root directory lies in a directory. -/
def Tree (fs : FileSystem) : Prop :=
  ∀ l n, l ≠ [] → fs.node l = some n → ∃ d, fs.node l.dropLast = some d ∧ sIsdir d.stMode = true

/-- A file was added, which has one name. -/
structure Added (fs : FileSystem) (l : Loc) (n : Node) (fs' : FileSystem) : Prop where
  absent : fs.node l = none
  node : fs'.node l = some n
  rest : ∀ l', l' ≠ l → fs'.node l' = fs.node l'
  alone : ∀ l', l' ≠ l → fs'.ino l' ≠ fs'.ino l

section Tree

variable {fs fs' : FileSystem} {p : Route} {l l' : Loc} {n m : Node} {front : List Name} {x : Name}

/-- It is enough to look at the names there are. -/
theorem tree_of_names (h : ∀ e ∈ fs.names, e.1 = [] ∨
    ((fs.node e.1.dropLast).any fun d => sIsdir d.stMode) = true) : Tree fs := by
  intro l n hne hn
  obtain ⟨i, hi, -⟩ := ino_of_node hn
  rcases h (l, i) (inoIn_mem hi) with hroot | hdir
  · exact absurd hroot hne
  · cases hd : fs.node l.dropLast with
    | none =>
      rw [hd] at hdir
      cases hdir
    | some d =>
      rw [hd, Option.any_some] at hdir
      exact ⟨d, rfl, hdir⟩

theorem Tree.below (h : Tree fs) (hnone : fs.node l = none) (hl : l <+: l') : fs.node l' = none := by
  obtain ⟨ext, rfl⟩ := hl
  induction ext using List.reverseRecOn with
  | nil => rw [List.append_nil, hnone]
  | append_singleton ext y ih =>
    by_contra hsome
    obtain ⟨m, hm⟩ := Option.ne_none_iff_exists'.mp hsome
    obtain ⟨d, hd, -⟩ := h _ m (by simp) hm
    rw [← List.append_assoc, List.dropLast_concat, ih] at hd
    cases hd

/-- A free place that a pathname leads to lies in a directory, and has the last name in it. -/
theorem Tree.vacant (h : Tree fs) (hp : p.names = front ++ [x]) (hfind : fs.find p = .ok (l, none)) :
    ∃ dir d, l = dir ++ [x] ∧ x ≠ dot ∧ fs.node dir = some d ∧ sIsdir d.stMode = true := by
  obtain ⟨hleads, hnone⟩ := find_eq_ok.mp hfind
  rw [hp] at hleads
  obtain ⟨dir, -, hlast⟩ := hleads.split (List.cons_ne_nil x [])
  cases hlast with
  | on henter hlink hrest =>
    cases hrest
    obtain ⟨d, hd, hisdir, hl⟩ := enter_ok henter
    split at hl
    · rw [hl, hd] at hnone
      cases hnone
    · rename_i hdot
      split at hl
      · -- The directory above one that there is: it is there.
        by_cases hroot : dir = []
        · rw [hl, hroot, List.dropLast_nil, ← hroot, hd] at hnone
          cases hnone
        · obtain ⟨above, habove, -⟩ := h dir d hroot hd
          rw [hl, habove] at hnone
          cases hnone
      · exact ⟨dir, d, hl, hdot, hd, hisdir⟩
  | link henter hlink hne hrest =>
    rw [linkAt_nofollow] at hlink
    cases hlink

theorem Added.grows (h : Added fs l n fs') : Grows fs fs' := by
  intro l' m hm
  have hne : l' ≠ l := by
    rintro rfl
    rw [h.absent] at hm
    cases hm
  rw [h.rest l' hne, hm]

theorem Added.tree (h : Added fs l n fs') (htree : Tree fs)
    (hdir : ∃ d, fs.node l.dropLast = some d ∧ sIsdir d.stMode = true) : Tree fs' := by
  intro l' m hne hm
  by_cases hl : l' = l
  · obtain ⟨d, hd, hisdir⟩ := hdir
    rw [hl]
    exact ⟨d, h.grows _ d hd, hisdir⟩
  · rw [h.rest l' hl] at hm
    obtain ⟨d, hd, hisdir⟩ := htree l' m hne hm
    exact ⟨d, h.grows _ d hd, hisdir⟩

/-- The pathname leads to the file that was added. -/
theorem Added.find (h : Added fs l n fs') (hfind : fs.find p = .ok (l, none)) :
    fs'.find p = .ok (l, some n) := by
  rw [h.grows.find_at hfind, h.node]

/-- Without its name everything is as before. -/
theorem Added.del {fs₁ : FileSystem} (h : Added fs l n fs') (hfs : ∀ l', fs₁.node l' = fs'.node l')
    (l' : Loc) : (fs₁.del l).node l' = fs.node l' := by
  by_cases hl : l' = l
  · rw [hl, node_del_self, h.absent]
  · rw [node_del_ne hl, hfs, h.rest l' hl]

theorem added_put (hnone : fs.node l = none) (n : Node) : Added fs l n (fs.put l n) := by
  refine ⟨hnone, node_put_self fs l n, fun _ hl => node_put_ne n hl, fun l' hl hino => ?_⟩
  rw [ino_put_ne n hl, ino_put_self] at hino
  exact Nat.lt_irrefl _ (ino_lt hino)

/-- The file that was added changes. -/
theorem Added.set {i : Nat} (h : Added fs l n fs') (hi : fs'.ino l = some i) (m : Node) :
    Added fs l m (fs'.set i m) := by
  refine ⟨h.absent, node_set_self hi m, fun l' hl => ?_, h.alone⟩
  rw [node_set_ne fun hino => h.alone l' hl (hino.trans hi.symm), h.rest l' hl]

/-- It gets another name in place of the one it has. -/
theorem Added.move (h : Added fs l n fs') (hne : l ≠ l') (hnone : fs.node l' = none) :
    Added fs l' n (fs'.move l l') := by
  refine ⟨hnone, ?_, fun place hplace => ?_, fun place hplace hino => ?_⟩
  · rw [node_move_new hne, h.node]
  · by_cases hl : place = l
    · rw [hl, node_move_old hne, h.absent]
    · rw [node_move_ne hne hl hplace, h.rest place hl]
  · rw [ino_move _ hne, ino_move _ hne, if_neg hplace, if_pos rfl] at hino
    split at hino
    · obtain ⟨i, hi, -⟩ := ino_of_node h.node
      rw [hi] at hino
      cases hino
    · rename_i hl
      exact h.alone place hl hino

theorem ino_ne_none {e : Loc × Nat} (he : e ∈ fs.names) : fs.ino e.1 ≠ none := by
  suffices key : ∀ es : List (Loc × Nat), e ∈ es → inoIn es e.1 ≠ none from key fs.names he
  intro es
  induction es with
  | nil => nofun
  | cons e' es ih =>
    intro he
    rw [inoIn]
    split
    · exact Option.some_ne_none e'.2
    · rename_i hne
      rcases List.mem_cons.mp he with rfl | he
      · exact absurd rfl hne
      · exact ih he

/-- An empty directory is removed. -/
theorem rmdir_found (hfind : fs.find p = .ok (l, some n)) (hdir : sIsdir n.stMode = true)
    (hdot : p.names.getLast? ≠ some dot) (hroot : l ≠ [])
    (hempty : ∀ l', l <+: l' → l' ≠ l → fs.node l' = none) : fs.rmdir p = .ok (fs.del l) := by
  have hnone : (fs.names.any fun e => l.isPrefixOf e.1 && e.1 ≠ l) = false := by
    refine List.any_eq_false.mpr fun e he => ?_
    rw [Bool.and_eq_true, List.isPrefixOf_iff_prefix, decide_eq_true_eq]
    rintro ⟨hbelow, hne⟩
    exact ino_ne_none he (node_eq_none.mp (hempty e.1 hbelow hne))
  simp only [rmdir, hfind, hdir, hdot, hroot, hnone, Bool.not_true, Bool.false_eq_true, if_false]

end Tree

/-! ## A name in a directory -/

section Composed

variable {fs : FileSystem} {k : Nat} {dir l mid : Loc} {ns dots : List Name} {path name : Text}
  {p : Route} {d : Node} {r : Option Node}

theorem Leads.dots_self (h : Leads fs true k dir dots l) (hdots : ∀ x ∈ dots, x = dot) : l = dir := by
  induction h with
  | here => rfl
  | on henter _ _ ih =>
    obtain rfl := hdots _ List.mem_cons_self
    obtain ⟨d, -, -, hloc⟩ := enter_ok henter
    rw [if_pos rfl] at hloc
    rw [ih fun x hx => hdots x (List.mem_cons_of_mem _ hx), hloc]
  | link henter hlink _ _ _ =>
    obtain rfl := hdots _ List.mem_cons_self
    obtain ⟨d, hd, hisdir, hloc⟩ := enter_ok henter
    obtain ⟨m, hm, hislnk, -⟩ := linkAt_eq_some hlink
    rw [hloc, if_pos rfl, hd] at hm
    cases hm
    rw [sIsdir_of_sIslnk hislnk] at hisdir
    cases hisdir

/-- Dots at the end lead nowhere else. -/
theorem Leads.without_dots (h : Leads fs true k dir (ns ++ dots) l) (hdots : ∀ x ∈ dots, x = dot) :
    Leads fs true k dir ns l := by
  by_cases hnil : dots = []
  · rwa [hnil, List.append_nil] at h
  · obtain ⟨mid, hmid, hrest⟩ := h.split hnil
    rwa [hrest.dots_self hdots]

/-- From a directory a dot leads nowhere else. -/
theorem Leads.with_dot (h : Leads fs true k dir ns l) (hd : fs.node l = some d)
    (hdir : sIsdir d.stMode = true) : Leads fs true k dir (ns ++ [dot]) l := by
  induction h with
  | here =>
    refine .on ?_ (linkAt_of_plain hd (sIslnk_of_sIsdir hdir)) .here
    simp [enter, hd, hdir]
  | on henter hlink _ ih =>
    exact .on henter ((linkAt_congr (Or.inl rfl) true _ (Or.inl rfl)).trans hlink) (ih hd)
  | link henter hlink hne _ ih =>
    refine .link henter ((linkAt_congr (Or.inl rfl) true _ (Or.inl rfl)).trans hlink) hne ?_
    have hrest := ih hd
    rw [List.append_assoc] at hrest
    exact hrest

/-- An entry that is a directory is what the pathname leads to, also with a slash at its end. -/
theorem resolve_of_find_dir (h : fs.find p = .ok (l, some d)) (hdir : sIsdir d.stMode = true) :
    fs.resolve p = .ok (l, some d) := by
  obtain ⟨hleads, hd⟩ := find_eq_ok.mp h
  have hfollowed := hleads.followed (linkAt_of_plain hd.symm (sIslnk_of_sIsdir hdir))
  refine resolve_eq_ok.mpr ⟨?_, hd⟩
  unfold Route.steps
  split
  · exact hfollowed.with_dot hd.symm hdir
  · rwa [List.append_nil]

/-- Behind its components a lookup goes through dots only. -/
theorem steps_components (cwd : Loc) (path : Text) :
    ∃ dots, (route cwd path).steps = components path ++ dots ∧ ∀ x ∈ dots, x = dot := by
  have hslash : ∀ x ∈ (if endsSlash path then [dot] else [] : List Name), x = dot := by
    intro x hx
    split at hx
    · exact List.mem_singleton.mp hx
    · cases hx
  by_cases hnil : components path = []
  · refine ⟨dot :: if endsSlash path then [dot] else [], ?_, fun x hx => ?_⟩
    · rw [Route.steps, route, hnil, if_pos rfl]
      rfl
    · rcases List.mem_cons.mp hx with rfl | hx
      · rfl
      · exact hslash x hx
  · refine ⟨if endsSlash path then [dot] else [], ?_, hslash⟩
    rw [Route.steps, route, if_neg hnil]

/-- A relative name in a directory leads where both lead together. -/
theorem find_in_directory {cwd : Loc} (hpath : path ≠ []) (hname : name ≠ [])
    (hrel : isAbsolute name = false)
    (hmid : Leads fs true k (route cwd path).dir (components path) mid)
    (hfind : fs.find (route cwd (joinPath path name)) = .ok (l, r)) :
    fs.find (route mid name) = .ok (l, r) := by
  have hcomp : components name ≠ [] := by
    intro hnil
    obtain ⟨c, cs, rfl⟩ := List.exists_cons_of_ne_nil hname
    obtain rfl := (components_eq_nil _).mp hnil c List.mem_cons_self
    cases hrel
  have hdir : (route cwd (joinPath path name)).dir = (route cwd path).dir := by
    simp only [route, isAbsolute_joinPath, hpath]
    simp
  have hnames : (route cwd (joinPath path name)).names = components path ++ components name := by
    rw [route, components_joinPath, if_neg (List.append_ne_nil_of_right_ne_nil _ hcomp)]
  obtain ⟨hleads, hr⟩ := find_eq_ok.mp hfind
  rw [hdir, hnames] at hleads
  obtain ⟨mid', hmid', hlast⟩ := hleads.split hcomp
  obtain rfl := hmid'.unique hmid
  refine find_eq_ok.mpr ⟨?_, hr⟩
  simp only [route, hrel, if_neg hcomp, Bool.false_eq_true, if_false]
  exact hlast

end Composed

/-! ## Directories that are tried -/

section Tried

variable {fs : FileSystem} {make : Node → Node} {p r : Route} {granted : Bool} {l l' : Loc}
  {x : Option Node} {ps : List (Route × Bool)} {d m : Node}

/-- There is something at what comes before the end of a pathname. -/
theorem find_before (hdir : p.dir = r.dir) (hp : p.names = [dot] ∨ p.names <+: r.names)
    (hne : p.names ≠ r.names) (hr : fs.find r = .ok (l, x)) : fs.find p ≠ .ok (l', none) := by
  intro hfind
  obtain ⟨hleads, hnone⟩ := find_eq_ok.mp hfind
  rcases hp with hdot | ⟨rest, hrest⟩
  · rw [hdot] at hleads
    exact hleads.dot_some hnone.symm
  · obtain ⟨hend, -⟩ := find_eq_ok.mp hr
    have hrest_ne : rest ≠ [] := by
      rintro rfl
      exact hne (by rw [← hrest, List.append_nil])
    rw [← hrest] at hend
    obtain ⟨mid, hmid, hlast⟩ := hend.split hrest_ne
    obtain ⟨d, hd, -⟩ := hlast.isdir hrest_ne
    obtain ⟨loc, y, hloc, hy⟩ := hmid.entry_some hd
    rw [hdir] at hleads
    rw [hleads.unique hloc, hy] at hnone
    cases hnone

/-- The lookup of an entry does not depend on slashes. -/
theorem find_same (hdir : p.dir = r.dir) (hnames : p.names = r.names) : fs.find p = fs.find r := by
  rw [FileSystem.find, FileSystem.find, hdir, hnames]

theorem makeOne_before (hdir : p.dir = r.dir) (hp : p.names = [dot] ∨ p.names <+: r.names)
    (hne : p.names ≠ r.names) (hr : fs.find r = .ok (l, x)) : fs.makeOne make p granted = fs := by
  rcases makeOne_cases make fs p granted with heq | ⟨l', d, -, hfind, -⟩
  · exact heq
  · exact absurd hfind (find_before hdir hp hne hr)

/-- Where there is something at the end, nothing is made. -/
theorem makeAll_there (h : Ascending r ps) (hr : fs.find r = .ok (l, some m)) :
    fs.makeAll make ps = fs := by
  induction ps with
  | nil => rfl
  | cons e ps ih =>
    obtain ⟨p, granted⟩ := e
    have hdir := h.dir _ List.mem_cons_self
    have hsame : fs.makeOne make p granted = fs := by
      by_cases hne : p.names = r.names
      · rcases makeOne_cases make fs p granted with heq | ⟨l', d, -, hfind, -⟩
        · exact heq
        · rw [find_same hdir hne, hr] at hfind
          cases hfind
      · exact makeOne_before hdir (h.above _ List.mem_cons_self) hne hr
    rw [makeAll, hsame]
    exact ih h.tail

/-- Where only the end is missing, only that is made. -/
theorem makeAll_vacant (h : Ascending r ps) (hr : fs.find r = .ok (l, none))
    (hd : fs.node l.dropLast = some d) (htried : TriedIn ps r.names) :
    fs.makeAll make ps = fs.put l (make d) := by
  induction ps with
  | nil =>
    obtain ⟨e, he, -⟩ := htried
    cases he
  | cons e ps ih =>
    obtain ⟨p, granted⟩ := e
    have hdir := h.dir _ List.mem_cons_self
    by_cases hlast : granted = true ∧ r.names = p.names
    · obtain ⟨rfl, hnames⟩ := hlast
      have hmade : fs.makeOne make p true = fs.put l (make d) := by
        have hfind : fs.find p = .ok (l, none) := (find_same hdir hnames.symm).trans hr
        rw [makeOne, create_apply hfind hd]
        rfl
      rw [makeAll, hmade]
      exact makeAll_there h.tail (find_put_self hr _)
    · have hlater := (triedIn_cons.mp htried).resolve_left hlast
      have hsame : fs.makeOne make p granted = fs := by
        by_cases hne : p.names = r.names
        · have hrefused : granted = false := by
            cases granted with
            | false => rfl
            | true => exact absurd ⟨rfl, hne.symm⟩ hlast
          rw [hrefused]
          rfl
        · exact makeOne_before hdir (h.above _ List.mem_cons_self) hne hr
      rw [makeAll, hsame]
      exact ih h.tail hlater

end Tried

end FileSystem

end Foundation
