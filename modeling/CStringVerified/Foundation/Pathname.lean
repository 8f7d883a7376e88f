import Mathlib.Data.List.Infix

/-!
# Pathnames

A pathname is a text; its components are the names between the slashes. Two pathnames are the same if
they differ in repeated slashes only. A lookup starts at the root or in the working directory, and goes
through the components; a slash at the end stands for `/.`, except where an entry is made or removed.
-/

namespace Foundation

/-- The characters of a C string, or of a file. -/
abbrev Text := List Char

/-- A component of a pathname. -/
abbrev Name := { s : Text // s ≠ [] ∧ '/' ∉ s }

/-- An absolute location: the components from the root on. -/
abbrev Loc := List Name

/-! ## Components -/

/-- A component, unless it is empty. -/
def component (s : Text) : List Name := if h : s ≠ [] ∧ '/' ∉ s then [⟨s, h⟩] else []

/-- The components of `cur` followed by a pathname, `cur` being read already. -/
def splitSlash (cur : Text) : Text → List Name
  | [] => component cur
  | c :: cs => if c = '/' then component cur ++ splitSlash [] cs else splitSlash (cur ++ [c]) cs

/-- The components of a pathname. -/
def components (path : Text) : List Name := splitSlash [] path

/-- The pathname starts at the root. -/
def isAbsolute (path : Text) : Bool := path.head? = some '/'

/-- The pathname of a location. -/
def render : Loc → Text
  | [] => ['/']
  | loc => loc.flatMap fun n => '/' :: n.val

/-- `dir/name`. -/
def joinPath (dir name : Text) : Text := dir ++ '/' :: name

theorem splitSlash_slash (cur a b : Text) :
    splitSlash cur (a ++ '/' :: b) = splitSlash cur a ++ components b := by
  induction a generalizing cur with
  | nil => simp [splitSlash, components]
  | cons c a ih =>
    simp only [List.cons_append, splitSlash]
    split
    · rw [ih, List.append_assoc]
    · exact ih (cur ++ [c])

@[simp] theorem components_joinPath (dir name : Text) :
    components (joinPath dir name) = components dir ++ components name :=
  splitSlash_slash [] dir name

theorem splitSlash_noSlash (cur a b : Text) (ha : '/' ∉ a) :
    splitSlash cur (a ++ b) = splitSlash (cur ++ a) b := by
  induction a generalizing cur with
  | nil => simp
  | cons c a ih =>
    have hc : c ≠ '/' := fun h => ha (h ▸ List.mem_cons_self)
    have ha' : '/' ∉ a := fun h => ha (List.mem_cons_of_mem c h)
    simp only [List.cons_append, splitSlash, if_neg hc]
    rw [ih (cur ++ [c]) ha']
    simp

theorem components_name (n : Name) : components n.val = [n] := by
  have := splitSlash_noSlash [] n.val [] n.property.2
  rw [List.append_nil, List.nil_append] at this
  rw [components, this]
  simp only [splitSlash, component]
  rw [dif_pos n.property]

theorem components_flatMap (loc : Loc) :
    components (loc.flatMap fun n => '/' :: n.val) = loc := by
  induction loc with
  | nil => rfl
  | cons n loc ih =>
    have hhead : components ('/' :: n.val ++ loc.flatMap fun n => '/' :: n.val) =
        components (n.val ++ loc.flatMap fun n => '/' :: n.val) := by
      simp [components, splitSlash, component]
    rw [List.flatMap_cons, hhead]
    cases loc with
    | nil => simpa using components_name n
    | cons n' loc =>
      have : (n.val ++ (n' :: loc).flatMap fun n => '/' :: n.val) =
          joinPath n.val (n'.val ++ loc.flatMap fun n => '/' :: n.val) := by
        simp [joinPath]
      rw [this, components_joinPath, components_name]
      have htail : components (n'.val ++ loc.flatMap fun n => '/' :: n.val) = n' :: loc := by
        rw [← ih]
        simp [components, splitSlash, component]
      rw [htail]
      rfl

theorem isAbsolute_joinPath (dir name : Text) :
    isAbsolute (joinPath dir name) = (dir = [] || isAbsolute dir) := by
  cases dir with
  | nil => rfl
  | cons c cs => simp [joinPath, isAbsolute]

theorem component_eq_nil {s : Text} (hs : '/' ∉ s) : component s = [] ↔ s = [] := by
  by_cases h : s = []
  · simp [component, h]
  · simp [component, h, hs]

theorem splitSlash_eq_nil {cur : Text} (hcur : '/' ∉ cur) (path : Text) :
    splitSlash cur path = [] ↔ cur = [] ∧ ∀ c ∈ path, c = '/' := by
  induction path generalizing cur with
  | nil => simp [splitSlash, component_eq_nil hcur]
  | cons c cs ih =>
    rw [splitSlash]
    by_cases hc : c = '/'
    · rw [if_pos hc, List.append_eq_nil_iff, component_eq_nil hcur, ih List.not_mem_nil]
      simp [hc]
    · have hcur' : '/' ∉ cur ++ [c] := by
        rw [List.mem_append, List.mem_singleton]
        exact not_or.mpr ⟨hcur, fun h => hc h.symm⟩
      rw [if_neg hc, ih hcur']
      simp [hc]

/-- A pathname without components consists of slashes. -/
theorem components_eq_nil (path : Text) : components path = [] ↔ ∀ c ∈ path, c = '/' := by
  simpa [components] using splitSlash_eq_nil List.not_mem_nil path

/-- Two pathnames are the same, up to repeated slashes. -/
def SamePath (p q : Text) : Prop := isAbsolute p = isAbsolute q ∧ components p = components q

theorem SamePath.refl (p : Text) : SamePath p p := ⟨rfl, rfl⟩

/-- A pathname is, lexically, under the directory `root`. -/
def UnderRoot (root p : Text) : Prop :=
  isAbsolute p = isAbsolute root ∧ components root <+: components p

theorem underRoot_joinPath {root : Text} (h : root ≠ []) (p : Text) :
    UnderRoot root (joinPath root p) := by
  refine ⟨?_, ?_⟩
  · rw [isAbsolute_joinPath]
    simp [h]
  · rw [components_joinPath]
    exact List.prefix_append _ _

theorem UnderRoot.congr {root p q : Text} (h : UnderRoot root q) (hsame : SamePath p q) :
    UnderRoot root p :=
  ⟨hsame.1.trans h.1, by rw [hsame.2]; exact h.2⟩

/-- Where a pathname leads to that is read in a directory. -/
def resolveAgainst (dir path : Text) : Text := if isAbsolute path then path else joinPath dir path

/-- Composing with the directory is what reading in it means, unless the pathname starts at the root
and the directory does not. -/
theorem samePath_resolveAgainst (dir path : Text) :
    SamePath (resolveAgainst dir path) (joinPath dir path) ↔
      isAbsolute path = false ∨ ∀ c ∈ dir, c = '/' := by
  unfold resolveAgainst
  cases habs : isAbsolute path with
  | false => simpa using SamePath.refl _
  | true =>
    rw [if_pos rfl, ← components_eq_nil]
    constructor
    · rintro ⟨-, hcomp⟩
      rw [components_joinPath] at hcomp
      exact Or.inr (List.append_left_eq_self.mp hcomp.symm)
    · rintro (h | h)
      · cases h
      · refine ⟨?_, by rw [components_joinPath, h, List.nil_append]⟩
        rw [habs, isAbsolute_joinPath]
        cases dir with
        | nil => rfl
        | cons c cs =>
          obtain rfl := (components_eq_nil _).mp h c List.mem_cons_self
          rfl

/-- More characters behind a pathname make its last component longer. -/
theorem splitSlash_append {ext : Text} (hext : '/' ∉ ext) {cur path : Text} (hcur : '/' ∉ cur)
    (hne : cur ++ path ≠ []) (hlast : path.getLast? ≠ some '/') :
    ∃ (front : Loc) (name name' : Name), splitSlash cur path = front ++ [name] ∧
      splitSlash cur (path ++ ext) = front ++ [name'] ∧ name'.val = name.val ++ ext := by
  induction path generalizing cur with
  | nil =>
    rw [List.append_nil] at hne
    have hname : cur ≠ [] ∧ '/' ∉ cur := ⟨hne, hcur⟩
    have hname' : cur ++ ext ≠ [] ∧ '/' ∉ cur ++ ext :=
      ⟨List.append_ne_nil_of_left_ne_nil hne ext, by simp [hcur, hext]⟩
    refine ⟨[], ⟨cur, hname⟩, ⟨cur ++ ext, hname'⟩, ?_, ?_, rfl⟩
    · rw [splitSlash, component, dif_pos hname]
      rfl
    · have hsplit := splitSlash_noSlash cur ext [] hext
      rw [List.append_nil] at hsplit
      rw [List.nil_append, hsplit, splitSlash, component, dif_pos hname']
      rfl
  | cons c cs ih =>
    by_cases hc : c = '/'
    · subst hc
      have hcs : cs ≠ [] := by
        rintro rfl
        exact hlast rfl
      have hlast' : cs.getLast? ≠ some '/' := by
        rwa [List.getLast?_cons_of_ne_nil hcs] at hlast
      obtain ⟨front, name, name', hpath, hpath', hval⟩ := ih List.not_mem_nil hcs hlast'
      refine ⟨component cur ++ front, name, name', ?_, ?_, hval⟩
      · rw [splitSlash, if_pos rfl, hpath, List.append_assoc]
      · rw [List.cons_append, splitSlash, if_pos rfl, hpath', List.append_assoc]
    · have hcur' : '/' ∉ cur ++ [c] := by
        rw [List.mem_append, List.mem_singleton]
        exact not_or.mpr ⟨hcur, fun h => hc h.symm⟩
      have hlast' : cs.getLast? ≠ some '/' := by
        cases cs with
        | nil => exact nofun
        | cons d ds => rwa [List.getLast?_cons_of_ne_nil (List.cons_ne_nil d ds)] at hlast
      obtain ⟨front, name, name', hpath, hpath', hval⟩ := ih hcur' (by simp) hlast'
      refine ⟨front, name, name', ?_, ?_, hval⟩
      · rw [splitSlash, if_neg hc, hpath]
      · rw [List.cons_append, splitSlash, if_neg hc, hpath']

/-- A prefix of a pathname that ends where a component ends, with a slash after it. -/
def PathPrefix (path p : Text) : Prop :=
  ∃ q rest, p = q ++ ['/'] ∧ path = q ++ rest ∧ ((q ≠ [] ∧ rest = []) ∨ rest.head? = some '/')

theorem PathPrefix.spec {path p : Text} (h : PathPrefix path p) :
    isAbsolute p = isAbsolute path ∧ components p <+: components path := by
  obtain ⟨q, rest, rfl, rfl, hrest⟩ := h
  have hp : components (q ++ ['/']) = components q := by
    have := components_joinPath q []
    simpa [joinPath, components, splitSlash, component] using this
  rw [hp]
  rcases hrest with ⟨hq, rfl⟩ | hrest
  · rw [List.append_nil]
    refine ⟨?_, List.prefix_rfl⟩
    cases q with
    | nil => exact absurd rfl hq
    | cons c cs => rfl
  · cases rest with
    | nil => cases hrest
    | cons c cs =>
      obtain rfl := Option.some.inj hrest
      refine ⟨by cases q <;> rfl, ?_⟩
      rw [show q ++ '/' :: cs = joinPath q cs from rfl, components_joinPath]
      exact List.prefix_append _ _

/-! ## Routes -/

def dot : Name := ⟨['.'], by decide⟩

def dotdot : Name := ⟨['.', '.'], by decide⟩

/-- The pathname ends with a slash. -/
def endsSlash (path : Text) : Bool := path.getLast? = some '/'

/-- A pathname that is looked up: the directory it is read in, its components, and whether slashes
follow them. -/
structure Route where
  dir : Loc
  names : List Name
  slash : Bool
deriving DecidableEq

/-- How a pathname is looked up in the directory `cwd`. Without components it is the directory it is read
in. -/
def route (cwd : Loc) (path : Text) : Route where
  dir := if isAbsolute path then [] else cwd
  names := if components path = [] then [dot] else components path
  slash := endsSlash path

/-- The components a lookup of a file goes through. -/
def Route.steps (p : Route) : List Name := p.names ++ if p.slash then [dot] else []

/-- The last component is `.` or `..`. -/
def Route.isDots (p : Route) : Bool := p.names.getLast? = some dot || p.names.getLast? = some dotdot

theorem route_ne_nil (cwd : Loc) (path : Text) : (route cwd path).names ≠ [] := by
  show (if components path = [] then [dot] else components path) ≠ []
  split
  · exact List.cons_ne_nil _ _
  · assumption

theorem steps_ne_nil (cwd : Loc) (path : Text) : (route cwd path).steps ≠ [] :=
  List.append_ne_nil_of_left_ne_nil (route_ne_nil cwd path) _

theorem steps_of_slash {p : Route} (h : p.slash = false) : p.steps = p.names := by
  rw [Route.steps, h]
  exact List.append_nil _

/-- Components are looked up as they are, unless there are none. -/
theorem route_names_above {cwd : Loc} {p q : Text} (h : components p <+: components q) :
    (route cwd p).names = [dot] ∨ (route cwd p).names <+: (route cwd q).names := by
  by_cases hp : components p = []
  · exact Or.inl (if_pos hp)
  · have hq : components q ≠ [] := by
      intro hq
      rw [hq] at h
      exact hp (List.prefix_nil.mp h)
    right
    show (if components p = [] then [dot] else components p) <+:
      (if components q = [] then [dot] else components q)
    rw [if_neg hp, if_neg hq]
    exact h

/-- More characters behind a pathname make its last component longer. -/
theorem route_append {path ext : Text} (hne : path ≠ []) (hlast : endsSlash path = false)
    (hext : '/' ∉ ext) (cwd : Loc) : ∃ (dir front : Loc) (name name' : Name),
      route cwd path = ⟨dir, front ++ [name], false⟩ ∧
      route cwd (path ++ ext) = ⟨dir, front ++ [name'], false⟩ ∧ name'.val = name.val ++ ext := by
  have hlast' : path.getLast? ≠ some '/' := by simpa [endsSlash] using hlast
  obtain ⟨front, name, name', hpath, hpath', hval⟩ :=
    splitSlash_append hext List.not_mem_nil hne hlast'
  have habs : isAbsolute (path ++ ext) = isAbsolute path := by
    rw [isAbsolute, isAbsolute, List.head?_append_of_ne_nil path hne]
  have hend : endsSlash (path ++ ext) = false := by
    cases hnil : ext with
    | nil => rw [List.append_nil, hlast]
    | cons c cs =>
      rw [← hnil, endsSlash, decide_eq_false_iff_not,
        List.getLast?_append_of_ne_nil _ (by rw [hnil]; exact List.cons_ne_nil c cs)]
      exact fun h => hext (List.mem_of_getLast? h)
  have hcomp : components path = front ++ [name] := hpath
  have hcomp' : components (path ++ ext) = front ++ [name'] := hpath'
  refine ⟨if isAbsolute path then [] else cwd, front, name, name', ?_, ?_, hval⟩
  · rw [route, hcomp, hlast, if_neg (List.append_ne_nil_of_right_ne_nil _ (List.cons_ne_nil _ _))]
  · rw [route, hcomp', hend, habs,
      if_neg (List.append_ne_nil_of_right_ne_nil _ (List.cons_ne_nil _ _))]

theorem endsSlash_render {loc : Loc} (h : loc ≠ []) : endsSlash (render loc) = false := by
  obtain ⟨front, n, rfl⟩ := List.eq_nil_or_concat loc |>.resolve_left h
  have hrender : render (front.concat n) = (front.flatMap fun n => '/' :: n.val) ++ '/' :: n.val := by
    rw [List.concat_eq_append]
    cases front with
    | nil => simp [render]
    | cons m front => simp [render]
  rw [hrender, endsSlash, decide_eq_false_iff_not, List.getLast?_append_of_ne_nil _ (List.cons_ne_nil _ _),
    List.getLast?_cons_of_ne_nil n.property.1]
  exact fun hlast => n.property.2 (List.mem_of_getLast? hlast)

/-- The pathname of a location names its components, from the root on. -/
theorem route_render (cwd : Loc) {loc : Loc} (h : loc ≠ []) :
    route cwd (render loc) = ⟨[], loc, false⟩ := by
  have habs : isAbsolute (render loc) = true := by
    cases loc with
    | nil => exact absurd rfl h
    | cons n loc => simp [isAbsolute, render]
  have hcomp : components (render loc) = loc := by
    cases loc with
    | nil => exact absurd rfl h
    | cons n loc => exact components_flatMap (n :: loc)
  rw [route, habs, hcomp, endsSlash_render h, if_neg h]
  rfl

end Foundation
