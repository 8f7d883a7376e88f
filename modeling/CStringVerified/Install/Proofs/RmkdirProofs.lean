import CStringVerified.Install.Buffers
import CStringVerified.Install.Proofs.FrameProofs
import Mathlib.Data.List.Infix
import Mathlib.Data.List.TakeWhile

/-!
# Which directories `install_rmkdir` makes

The loop on arrays and indices never leaves `path_buf`, and hands over one path after the other: each
that ends with a slash, and the whole in the end, up to the first that does not fit into `path_buf`
together with its nul (`visitedPaths`). On the POSIX platform nothing else is made, and no failure is
noticed: `iposix_mkdir` says 0, not -1, when `mkdir` fails.
-/

namespace CStringVerified.Install

open Foundation Foundation.Run

/-! ## The paths that are made -/

/-- The paths that `install_rmkdir` makes, `cur` being read already: whatever ends where a component
ends. -/
def rmkdirPaths (cur : Text) : Text → List Text
  | [] => if cur = [] ∨ cur.getLast? = some '/' then [] else [cur ++ ['/']]
  | c :: cs =>
    if c = '/' then (cur ++ ['/']) :: rmkdirPaths (cur ++ ['/']) cs else rmkdirPaths (cur ++ [c]) cs

theorem rmkdirPaths_append {comp : Text} (h : '/' ∉ comp) (cur rest : Text) :
    rmkdirPaths cur (comp ++ rest) = rmkdirPaths (cur ++ comp) rest := by
  induction comp generalizing cur with
  | nil => rw [List.nil_append, List.append_nil]
  | cons c comp ih =>
    have hc : c ≠ '/' := fun hc => h (hc ▸ List.mem_cons_self)
    rw [List.cons_append, rmkdirPaths, if_neg hc, ih fun hmem => h (List.mem_cons_of_mem c hmem),
      List.append_assoc, List.singleton_append]

/-- The first path is the one a round makes, and the others are those of the rounds that follow. -/
theorem rmkdirPaths_round {cur ptr : Text} (hptr : ptr ≠ []) :
    rmkdirPaths cur ptr = rmkdirPath cur ptr ::
      match rmkdirNext (rmkdirPath cur ptr) ptr with
      | .inl (path, rest) => rmkdirPaths path rest
      | .inr _ => [] := by
  have hparts := List.takeWhile_append_dropWhile (p := fun c => c ≠ '/') (l := ptr)
  have hcomp : '/' ∉ ptr.takeWhile fun c => c ≠ '/' := by
    intro hmem
    simpa using List.mem_takeWhile_imp hmem
  have hpaths := rmkdirPaths_append hcomp cur (ptr.dropWhile fun c => c ≠ '/')
  rw [hparts] at hpaths
  rw [hpaths, rmkdirNext]
  rcases head_dropWhile_slash ptr with hnil | hhead
  · have hne : (ptr.takeWhile fun c => c ≠ '/') ≠ [] := by
      rw [hnil, List.append_nil] at hparts
      rwa [hparts]
    have hlast : (cur ++ ptr.takeWhile fun c => c ≠ '/').getLast? ≠ some '/' := by
      intro hlast
      rw [List.getLast?_append_of_ne_nil _ hne] at hlast
      exact hcomp (List.mem_of_getLast? hlast)
    rw [hnil, rmkdirPaths, if_neg (not_or.mpr ⟨List.append_ne_nil_of_right_ne_nil cur hne, hlast⟩)]
    have hend : rmkdirPaths (rmkdirPath cur ptr) [] = [] := if_pos (Or.inr List.getLast?_concat)
    exact congrArg (List.cons _) hend.symm
  · cases hdrop : ptr.dropWhile fun c => c ≠ '/' with
    | nil => rw [hdrop] at hhead; cases hhead
    | cons c rest =>
      rw [hdrop] at hhead
      obtain rfl := Option.some.inj hhead
      cases rest with
      | nil => simp [rmkdirPaths, rmkdirPath]
      | cons c rest => simp [rmkdirPaths, rmkdirPath]

/-- What is read is part of all paths that follow, and they are part of the whole. -/
theorem rmkdirPaths_between {cur ptr path : Text} (h : path ∈ rmkdirPaths cur ptr) :
    cur <+: path ∧ path <+: cur ++ ptr ++ ['/'] ∧ path.getLast? = some '/' := by
  induction ptr generalizing cur with
  | nil =>
    rw [rmkdirPaths] at h
    split at h
    · cases h
    · obtain rfl := List.mem_singleton.mp h
      rw [List.append_nil]
      exact ⟨List.prefix_append _ _, List.prefix_rfl, List.getLast?_concat⟩
  | cons c cs ih =>
    have hwhole : cur ++ c :: cs ++ ['/'] = cur ++ [c] ++ cs ++ ['/'] := by simp
    rw [rmkdirPaths] at h
    rw [hwhole]
    split at h
    · rename_i hc
      subst hc
      rcases List.mem_cons.mp h with rfl | h
      · exact ⟨List.prefix_append _ _, by rw [List.append_assoc]; exact List.prefix_append _ _,
          List.getLast?_concat⟩
      · exact ⟨(List.prefix_append _ _).trans (ih h).1, (ih h).2⟩
    · exact ⟨(List.prefix_append _ _).trans (ih h).1, (ih h).2⟩

theorem rmkdirPaths_pairwise (cur ptr : Text) :
    (rmkdirPaths cur ptr).Pairwise fun p q => p <+: q := by
  induction ptr generalizing cur with
  | nil =>
    rw [rmkdirPaths]
    split
    · exact List.Pairwise.nil
    · exact List.pairwise_singleton _ _
  | cons c cs ih =>
    rw [rmkdirPaths]
    split
    · exact List.pairwise_cons.mpr ⟨fun q hq => (rmkdirPaths_between hq).1, ih _⟩
    · exact ih _

/-- A pathname that goes on after a slash has more components. -/
theorem components_mono {p q : Text} (hlast : p.getLast? = some '/') (h : p <+: q) :
    isAbsolute p = isAbsolute q ∧ components p <+: components q := by
  obtain ⟨x, rfl⟩ := List.getLast?_eq_some_iff.mp hlast
  obtain ⟨y, rfl⟩ := h
  have hjoin : x ++ ['/'] ++ y = joinPath x y := by simp [joinPath]
  have hx : components (x ++ ['/']) = components x := by
    have hnil := components_joinPath x []
    rwa [show components [] = [] from rfl, List.append_nil] at hnil
  rw [hjoin, hx, components_joinPath]
  exact ⟨(isAbsolute_joinPath x []).trans (isAbsolute_joinPath x y).symm, List.prefix_append _ _⟩

/-- The directories that are made are on the way to the one that is wanted. -/
theorem components_rmkdirPaths {dir path : Text} (hne : dir ≠ []) (h : path ∈ rmkdirPaths [] dir) :
    isAbsolute path = isAbsolute dir ∧ components path <+: components dir := by
  obtain ⟨-, hbetween, hlast⟩ := rmkdirPaths_between h
  obtain ⟨habs, hcomp⟩ := components_mono hlast hbetween
  have habs' := isAbsolute_joinPath dir []
  have hcomp' := components_joinPath dir []
  rw [show components [] = [] from rfl, List.append_nil] at hcomp'
  simp only [hne, decide_false, Bool.false_or] at habs'
  exact ⟨habs.trans habs', hcomp'.symm ▸ hcomp⟩

/-! ## The paths that fit -/

/-- The paths that `install_rmkdir` hands to the platform: those that fit into `path_buf`. -/
def visited (cur ptr : Text) : List Text :=
  (rmkdirPaths cur ptr).takeWhile fun path => path.length < installMaxPathlen

def visitedPaths (dir : Text) : List Text := visited [] dir

/-- Making `path`, which returned `r`, has failed in a way that matters. -/
def Callbacks.Fatal {σ : Type} (cb : Callbacks σ) (dir path : Text) (r : Int) (s : σ) : Prop :=
  r = -1 ∧ (path = dir ++ ['/'] ∨ (cb.errno s ≠ eexist ∧ cb.errno s ≠ eisdir))

instance {σ : Type} (cb : Callbacks σ) (dir path : Text) (r : Int) (s : σ) :
    Decidable (cb.Fatal dir path r s) := inferInstanceAs (Decidable (_ ∧ _))

/-- Make a directory, and go on with `next` unless that is fatal. -/
def makeOne {σ α : Type} (cb : Callbacks σ) (dir : Text) (perm : Mode) (path : Text)
    (fatal next : Run Crash σ α) : Run Crash σ α := do
  let r ← cb.makeDir path perm
  let s ← Run.get
  if cb.Fatal dir path r s then fatal else next

/-- Make one directory after the other. -/
def makeEach {σ : Type} (cb : Callbacks σ) (dir : Text) (perm : Mode) : List Text → Run Crash σ Int
  | [] => pure 1
  | path :: paths => makeOne cb dir perm path (pure 0) (makeEach cb dir perm paths)

theorem visited_full {cur ptr : Text} (hfull : installMaxPathlen ≤ (rmkdirPath cur ptr).length)
    (hptr : ptr ≠ []) : visited cur ptr = [] := by
  rw [visited, rmkdirPaths_round hptr]
  exact List.takeWhile_cons_of_neg (by simpa using hfull)

theorem visited_round {cur ptr : Text} (hroom : (rmkdirPath cur ptr).length < installMaxPathlen)
    (hptr : ptr ≠ []) :
    visited cur ptr = rmkdirPath cur ptr ::
      match rmkdirNext (rmkdirPath cur ptr) ptr with
      | .inl (path, rest) => visited path rest
      | .inr _ => [] := by
  rw [visited, rmkdirPaths_round hptr, List.takeWhile_cons_of_pos (by simpa using hroom)]
  cases rmkdirNext (rmkdirPath cur ptr) ptr with
  | inl state => rfl
  | inr c => rfl

/-! ## `strchr` -/

theorem strchr_getD (s : Text) (c : Char) :
    (strchr s c).getD s.length = (s.takeWhile fun c' => c' ≠ c).length := by
  induction s with
  | nil => rfl
  | cons c' s ih =>
    rw [strchr, List.findIdx?_cons]
    by_cases hc : c' = c
    · simp [hc]
    · have hfalse : (decide (c' = c)) = false := decide_eq_false hc
      rw [hfalse, List.takeWhile_cons_of_pos (by simpa using hc), List.length_cons,
        List.length_cons, ← ih, strchr]
      cases List.findIdx? (fun c' => decide (c' = c)) s <;> rfl

theorem strchr_isNone (s : Text) (c : Char) : (strchr s c).isNone = true ↔ c ∉ s := by
  rw [strchr, Option.isNone_iff_eq_none, List.findIdx?_eq_none_iff]
  constructor
  · intro h hmem
    exact absurd (h c hmem) (by simp)
  · intro h c' hc'
    exact decide_eq_false fun heq => h (heq ▸ hc')

/-! ## The loop on arrays -/

/-- The variables of the loop when `cur` is in `path_buf` and `rest` is left of the path. -/
structure RmkdirInv (dir : Text) (v : RmkdirVars) (cur rest : Text) : Prop where
  starts : cur <+: v.pathBuf.cells
  nul : '\x00' ∉ cur
  slash : cur = [] ∨ cur.getLast? = some '/'
  len : v.len = rest.length
  bufpos : v.bufpos = cur.length
  buflen : v.buflen = installMaxPathlen - cur.length
  left : dir.drop v.ptr = rest
  whole : rest ≠ [] → cur ++ rest = dir
  last : rest ≠ [] → v.last = false

section Loop

variable {σ : Type} {cb : Callbacks σ} {dir cur rest : Text} {perm : Mode} {v : RmkdirVars}

theorem rmkdirPath_length (cur rest : Text) : (rmkdirPath cur rest).length =
    cur.length + (rest.takeWhile fun c => c ≠ '/').length + 1 := by
  rw [rmkdirPath, List.length_append, List.length_append, List.length_singleton]

/-- The path of a round is the whole one exactly if no slash is left. -/
theorem rmkdirPath_whole (hwhole : cur ++ rest = dir) :
    rmkdirPath cur rest = dir ++ ['/'] ↔ '/' ∉ rest := by
  have hparts := List.takeWhile_append_dropWhile (p := fun c => c ≠ '/') (l := rest)
  constructor
  · intro heq hmem
    have hlen := congrArg List.length heq
    rw [rmkdirPath_length, ← hwhole] at hlen
    have hsplit := congrArg List.length hparts
    simp only [List.length_append, List.length_singleton] at hlen hsplit
    have hnil : (rest.dropWhile fun c => c ≠ '/') = [] := List.eq_nil_of_length_eq_zero (by omega)
    have hall := List.dropWhile_eq_nil_iff.mp hnil '/' hmem
    exact absurd rfl (of_decide_eq_true hall)
  · intro hmem
    have hall : (rest.takeWhile fun c => c ≠ '/') = rest :=
      List.takeWhile_eq_self_iff.mpr fun c hc => decide_eq_true fun heq => hmem (heq ▸ hc)
    rw [rmkdirPath, hall, hwhole]

theorem RmkdirInv.pos (h : RmkdirInv dir v cur rest) :
    (strchr rest '/').getD v.len = (rest.takeWhile fun c => c ≠ '/').length := by
  rw [h.len]
  exact strchr_getD rest '/'

theorem RmkdirInv.len_ne_zero (h : RmkdirInv dir v cur rest) (hrest : rest ≠ []) : v.len ≠ 0 := by
  rw [h.len]
  exact fun hzero => hrest (List.eq_nil_of_length_eq_zero hzero)

/-- The loop leaves after a slash at the end with success. -/
theorem rmkdirNext_inr {path : Text} {c : Int} (h : rmkdirNext path rest = .inr c) : c = 1 := by
  unfold rmkdirNext at h
  split at h
  · cases h
  · exact (Sum.inr.inj h).symm
  · cases h

/-- Every round uses up some of what is left, if there is any. -/
theorem rmkdirNext_length {path path' rest' : Text} (hrest : rest ≠ [])
    (h : rmkdirNext path rest = .inl (path', rest')) : rest'.length < rest.length := by
  have hpos := List.length_pos_iff.mpr hrest
  have hsplit := congrArg List.length
    (List.takeWhile_append_dropWhile (p := fun c => c ≠ '/') (l := rest))
  rw [List.length_append] at hsplit
  unfold rmkdirNext at h
  split at h
  · cases h
    exact hpos
  · cases h
  · rename_i hdrop
    cases h
    rw [hdrop, List.length_cons] at hsplit
    omega

/-- Where the loop goes on after a round that made a directory. -/
def rmkdirGoes (cur rest : Text) (v : RmkdirVars) : RmkdirVars ⊕ Int :=
  match rmkdirNext (rmkdirPath cur rest) rest with
  | .inl _ => .inl v
  | .inr c => .inr c

/-- `end` is set in the round that makes the whole path. -/
theorem RmkdirInv.last_iff (h : RmkdirInv dir v cur rest) (hrest : rest ≠ []) :
    (v.last || (strchr rest '/').isNone) = true ↔ rmkdirPath cur rest = dir ++ ['/'] := by
  rw [h.last hrest, Bool.false_or, strchr_isNone, rmkdirPath_whole (h.whole hrest)]

/-- No path holds a nul. -/
theorem RmkdirInv.nul_path (h : RmkdirInv dir v cur rest) (hnul : '\x00' ∉ dir) (hrest : rest ≠ []) :
    '\x00' ∉ rmkdirPath cur rest := by
  rw [rmkdirPath, List.append_assoc]
  intro hmem
  rcases List.mem_append.mp hmem with hcur | hmem
  · exact h.nul hcur
  · rcases List.mem_append.mp hmem with hcomp | hslash
    · refine hnul ?_
      rw [← h.whole hrest]
      exact List.mem_append_right _ ((List.takeWhile_sublist _).subset hcomp)
    · exact absurd (List.mem_singleton.mp hslash) (by decide)

/-- The three writes of a round stay inside `path_buf`, which holds the path after them. -/
theorem RmkdirInv.writes (h : RmkdirInv dir v cur rest)
    (hroom : (rmkdirPath cur rest).length < installMaxPathlen) :
    ∃ b₁ b₂ b₃, v.pathBuf.memcpy v.bufpos (rest.takeWhile fun c => c ≠ '/') = some b₁ ∧
      b₁.store (cur.length + (rest.takeWhile fun c => c ≠ '/').length) '/' = some b₂ ∧
      b₂.store (cur.length + (rest.takeWhile fun c => c ≠ '/').length + 1) '\x00' = some b₃ ∧
      rmkdirPath cur rest ++ ['\x00'] <+: b₃.cells := by
  have hpath := rmkdirPath_length cur rest
  obtain ⟨b₁, hb₁, hs₁⟩ := @CArray.memcpy_starts _ _ _ _ (rest.takeWhile fun c => c ≠ '/') h.starts
    (by omega)
  obtain ⟨b₂, hb₂, hs₂⟩ := CArray.store_starts (c := '/') hs₁ (by rw [List.length_append]; omega)
  obtain ⟨b₃, hb₃, hs₃⟩ := CArray.store_starts (c := '\x00') hs₂
    (by rw [List.length_append, List.length_append, List.length_singleton]; omega)
  rw [List.length_append] at hb₂
  rw [List.length_append, List.length_append, List.length_singleton] at hb₃
  rw [h.bufpos]
  exact ⟨b₁, b₂, b₃, hb₁, hb₂, hb₃, hs₃⟩

/-- The variables after a round that left the path in `b`. -/
def RmkdirVars.next (v : RmkdirVars) (b : Buffer installMaxPathlen) (cur rest : Text) : RmkdirVars where
  pathBuf := b
  len := (rest.dropWhile fun c => c ≠ '/').length - 1
  buflen := installMaxPathlen - (rmkdirPath cur rest).length
  bufpos := (rmkdirPath cur rest).length
  last := v.last || (strchr rest '/').isNone
  ptr := v.ptr + (rest.takeWhile fun c => c ≠ '/').length +
    if (rest.dropWhile fun c => c ≠ '/') = [] then 0 else 1

/-- They are right for what is left after the slash. -/
theorem RmkdirInv.next {b : Buffer installMaxPathlen} {path rest' : Text}
    (h : RmkdirInv dir v cur rest) (hnul : '\x00' ∉ dir) (hrest : rest ≠ [])
    (hstarts : rmkdirPath cur rest <+: b.cells)
    (hnext : rmkdirNext (rmkdirPath cur rest) rest = .inl (path, rest')) :
    RmkdirInv dir (v.next b cur rest) path rest' := by
  have hnul' := h.nul_path hnul hrest
  have hdrop : dir.drop (v.ptr + (rest.takeWhile fun c => c ≠ '/').length) =
      rest.dropWhile fun c => c ≠ '/' := by
    rw [← List.drop_drop, h.left, drop_component]
  unfold rmkdirNext at hnext
  unfold RmkdirVars.next
  rcases hrem : rest.dropWhile fun c => c ≠ '/' with _ | ⟨c, _ | ⟨c', rest''⟩⟩
  · rw [hrem] at hnext hdrop
    cases hnext
    refine ⟨hstarts, hnul', Or.inr List.getLast?_concat, rfl, rfl, rfl, ?_, fun hne => absurd rfl hne,
      fun hne => absurd rfl hne⟩
    rw [if_pos rfl]
    exact hdrop
  · rw [hrem] at hnext
    cases hnext
  · rw [hrem] at hnext hdrop
    cases hnext
    have hc : c = '/' := by
      rcases head_dropWhile_slash rest with hnil | hhead
      · rw [hrem] at hnil
        cases hnil
      · rw [hrem] at hhead
        exact Option.some.inj hhead
    have hslash : '/' ∈ rest := by
      have hmem : c ∈ rest.dropWhile fun c => c ≠ '/' := hrem ▸ List.mem_cons_self
      exact hc ▸ (List.dropWhile_sublist _).subset hmem
    refine ⟨hstarts, hnul', Or.inr List.getLast?_concat, rfl, rfl, rfl, ?_, fun _ => ?_, fun _ => ?_⟩
    · rw [if_neg (List.cons_ne_nil _ _), ← List.drop_drop, hdrop]
      rfl
    · have hparts := List.takeWhile_append_dropWhile (p := fun c => c ≠ '/') (l := rest)
      rw [hrem, hc] at hparts
      rw [rmkdirPath, List.append_assoc, List.singleton_append, List.append_assoc, hparts]
      exact h.whole hrest
    · have hfound : ¬(strchr rest '/').isNone = true := fun hnone =>
        (strchr_isNone rest '/').mp hnone hslash
      rw [h.last hrest, Bool.false_or]
      exact Bool.eq_false_of_not_eq_true hfound

/-- A round stays inside `path_buf`, and makes the directory that the paths say. -/
theorem RmkdirInv.round (h : RmkdirInv dir v cur rest) (hnul : '\x00' ∉ dir) (hrest : rest ≠ [])
    (hroom : (rmkdirPath cur rest).length < installMaxPathlen) :
    ∃ v', (∀ path rest', rmkdirNext (rmkdirPath cur rest) rest = .inl (path, rest') →
        RmkdirInv dir v' path rest') ∧
      ∀ s, rmkdirRoundC cb dir perm v s = makeOne cb dir perm (rmkdirPath cur rest)
        (pure (.inr 0)) (pure (rmkdirGoes cur rest v')) s := by
  obtain ⟨b₁, b₂, b₃, hb₁, hb₂, hb₃, hstarts⟩ := h.writes hroom
  have hpath := rmkdirPath_length cur rest
  have hlast := h.last_iff hrest
  have hsplit : rest.length = (rest.takeWhile fun c => c ≠ '/').length +
      (rest.dropWhile fun c => c ≠ '/').length := by
    rw [← List.length_append, List.takeWhile_append_dropWhile]
  have hlen : v.len - (rest.takeWhile fun c => c ≠ '/').length =
      (rest.dropWhile fun c => c ≠ '/').length := by
    rw [h.len]
    omega
  have hstring : b₃.cString = some (rmkdirPath cur rest) := by
    rw [CArray.cString_starts hstarts]
    refine congrArg some (List.takeWhile_eq_self_iff.mpr fun c hc => decide_eq_true ?_)
    rintro rfl
    exact h.nul_path hnul hrest hc
  have hfits : ¬v.buflen ≤ (rest.takeWhile fun c => c ≠ '/').length + 1 := by
    rw [h.buflen]
    omega
  refine ⟨v.next b₃ cur rest, fun path rest' hnext =>
    h.next hnul hrest ((List.prefix_append _ _).trans hstarts) hnext, fun s => ?_⟩
  unfold rmkdirRoundC
  dsimp only
  rw [if_neg (h.len_ne_zero hrest), h.left, h.pos, if_neg hfits, take_component, hb₁,
    inBounds_bind_apply, h.bufpos, hb₂, inBounds_bind_apply, hb₃, inBounds_bind_apply, hstring,
    inBounds_bind_apply, makeOne, bind_apply, bind_apply]
  rcases cb.makeDir (rmkdirPath cur rest) perm s with ⟨r | r, s'⟩
  · rfl
  · dsimp only
    rw [get_bind_apply, get_bind_apply]
    by_cases hfatal : cb.Fatal dir (rmkdirPath cur rest) r s'
    · rw [if_pos hfatal, if_pos ⟨hfatal.1, hfatal.2.imp_left hlast.mpr⟩]
    · rw [if_neg hfatal, if_neg fun hand => hfatal ⟨hand.1, hand.2.imp_left hlast.mp⟩, hlen,
        rmkdirGoes, rmkdirNext, RmkdirVars.next, hpath, h.buflen, Nat.sub_sub, Nat.sub_sub]
      rcases rest.dropWhile fun c => c ≠ '/' with _ | ⟨c, _ | ⟨c', rest''⟩⟩
      · rfl
      · rfl
      · rfl

/-- The loop ends where nothing is left, or `path_buf` is too short for the next path. -/
theorem RmkdirInv.stop (h : RmkdirInv dir v cur rest)
    (hstop : rest = [] ∨ installMaxPathlen ≤ (rmkdirPath cur rest).length) (s : σ) :
    rmkdirRoundC cb dir perm v s = (.ok (.inr 1), s) ∧ visited cur rest = [] := by
  by_cases hrest : rest = []
  · have hlen : v.len = 0 := by rw [h.len, hrest]; rfl
    refine ⟨?_, ?_⟩
    · unfold rmkdirRoundC
      rw [if_pos hlen]
      rfl
    · rw [hrest, visited, rmkdirPaths, if_pos h.slash]
      rfl
  · have hfull := hstop.resolve_left hrest
    refine ⟨?_, visited_full hfull hrest⟩
    have hbreak : v.buflen ≤ (rest.takeWhile fun c => c ≠ '/').length + 1 := by
      rw [h.buflen]
      rw [rmkdirPath_length] at hfull
      omega
    unfold rmkdirRoundC
    dsimp only
    rw [if_neg (h.len_ne_zero hrest), h.left, h.pos, if_pos hbreak]
    rfl

/-- The loop makes the paths that are left, one after the other. -/
theorem RmkdirInv.loop (hnul : '\x00' ∉ dir) {fuel : Nat} (h : RmkdirInv dir v cur rest)
    (hfuel : rest.length < fuel) (s : σ) :
    Run.loop (rmkdirRoundC cb dir perm) (fun _ => Run.fail .diverges) fuel v s =
      makeEach cb dir perm (visited cur rest) s := by
  induction fuel generalizing v cur rest s with
  | zero => omega
  | succ fuel ih =>
    by_cases hstop : rest = [] ∨ installMaxPathlen ≤ (rmkdirPath cur rest).length
    · obtain ⟨hround, hvisited⟩ := @RmkdirInv.stop _ cb _ _ _ perm _ h hstop s
      rw [loop_return hround, hvisited]
      rfl
    · obtain ⟨hrest, hroom⟩ := not_or.mp hstop
      have hroom := Nat.lt_of_not_le hroom
      obtain ⟨v', hnext, hround⟩ := @RmkdirInv.round _ cb _ _ _ perm _ h hnul hrest hroom
      have hround := hround s
      rw [visited_round hroom hrest, makeEach]
      rw [makeOne, bind_apply] at hround ⊢
      rcases hmake : cb.makeDir (rmkdirPath cur rest) perm s with ⟨r | r, s'⟩
      · rw [hmake] at hround
        exact loop_error hround
      · rw [hmake] at hround
        dsimp only at hround ⊢
        rw [get_bind_apply] at hround ⊢
        by_cases hfatal : cb.Fatal dir (rmkdirPath cur rest) r s'
        · rw [if_pos hfatal] at hround ⊢
          exact loop_return hround
        · rw [if_neg hfatal] at hround ⊢
          unfold rmkdirGoes at hround
          cases hgoes : rmkdirNext (rmkdirPath cur rest) rest with
          | inr c =>
            rw [hgoes] at hround
            rw [loop_return hround, rmkdirNext_inr hgoes]
            rfl
          | inl state =>
            rw [hgoes] at hround
            rw [loop_continue hround]
            refine ih (hnext _ _ hgoes) ?_ s'
            have hless := rmkdirNext_length hrest hgoes
            omega

/-- `install_rmkdir` stays inside `path_buf`, whatever is there before, and makes the visited paths. -/
theorem installRmkdirC_eq (hlen : dir.length < installMaxPathlen) (hnul : '\x00' ∉ dir)
    (pathBuf : Buffer installMaxPathlen) (s : σ) :
    installRmkdirC cb pathBuf dir perm s = makeEach cb dir perm (visitedPaths dir) s := by
  have hinv : RmkdirInv dir ⟨pathBuf, dir.length, installMaxPathlen, 0, false, 0⟩ [] dir :=
    ⟨List.nil_prefix, List.not_mem_nil, Or.inl rfl, rfl, rfl, rfl, rfl, fun _ => rfl, fun _ => rfl⟩
  unfold installRmkdirC
  dsimp only
  rw [if_neg (by omega)]
  exact hinv.loop hnul (Nat.lt_succ_self _) s

end Loop

/-! ## The POSIX platform -/

theorem posix_not_fatal {r : Int} (hr : r = 0 ∨ r = 1) (dir path : Text) (w : World) :
    ¬posixCallbacks.Fatal dir path r w := by
  rintro ⟨hminus, -⟩
  omega

/-- No failure of `mkdir` is fatal. -/
theorem makeEach_posix_cons (dir path : Text) (paths : List Text) (perm : Mode) (w : World) :
    makeEach posixCallbacks dir perm (path :: paths) w =
      makeEach posixCallbacks dir perm paths (mkdir path perm w).2 := by
  obtain ⟨r, hr, hrun⟩ := iposixMkdir_apply path perm w
  have hmake : posixCallbacks.makeDir path perm w = (.ok r, (mkdir path perm w).2) := hrun
  rw [makeEach, makeOne, bind_ok hmake, get_bind_apply, if_neg (posix_not_fatal hr dir path _)]

theorem rmkdirLoop_eq {dir cur ptr : Text} {perm : Mode} {fuel : Nat}
    (hcur : cur = [] ∨ cur.getLast? = some '/') (hfuel : ptr.length < fuel) (w : World) :
    Run.loop (rmkdirRound perm) (fun _ => crash .diverges) fuel (cur, ptr) w =
      makeEach posixCallbacks dir perm (visited cur ptr) w := by
  induction fuel generalizing cur ptr w with
  | zero => omega
  | succ fuel ih =>
    have hround := rmkdirRound_apply perm cur ptr w
    by_cases hstop : ptr = [] ∨ installMaxPathlen ≤ (rmkdirPath cur ptr).length
    · rw [if_pos hstop] at hround
      rw [loop_return hround]
      by_cases hptr : ptr = []
      · rw [hptr, visited, rmkdirPaths, if_pos hcur]
        rfl
      · rw [visited_full (hstop.resolve_left hptr) hptr]
        rfl
    · rw [if_neg hstop] at hround
      obtain ⟨hptr, hroom⟩ := not_or.mp hstop
      rw [visited_round (Nat.lt_of_not_le hroom) hptr, makeEach_posix_cons]
      cases hnext : rmkdirNext (rmkdirPath cur ptr) ptr with
      | inr c =>
        rw [hnext] at hround
        rw [loop_return hround, rmkdirNext_inr hnext]
        rfl
      | inl state =>
        have hless := rmkdirNext_length hptr hnext
        have hslash : state.1.getLast? = some '/' := by
          unfold rmkdirNext at hnext
          split at hnext
          · cases hnext
            exact List.getLast?_concat
          · cases hnext
          · cases hnext
            exact List.getLast?_concat
        rw [hnext] at hround
        rw [loop_continue hround]
        exact ih (Or.inr hslash) (by omega) _

theorem installRmkdir_eq {dir : Text} (hlen : dir.length < installMaxPathlen) (perm : Mode) (w : World) :
    installRmkdir dir perm w = makeEach posixCallbacks dir perm (visitedPaths dir) w := by
  unfold installRmkdir
  rw [if_neg (by omega)]
  exact rmkdirLoop_eq (Or.inl rfl) (Nat.lt_succ_self _) w

/-- On the POSIX platform the loop on arrays does what the one on texts does. -/
theorem installRmkdirC_posix {dir : Text} (hnul : '\x00' ∉ dir)
    (pathBuf : Buffer installMaxPathlen) (perm : Mode) (w : World) :
    installRmkdirC posixCallbacks pathBuf dir perm w = installRmkdir dir perm w := by
  by_cases hlen : dir.length < installMaxPathlen
  · rw [installRmkdirC_eq hlen hnul, installRmkdir_eq hlen]
  · unfold installRmkdirC installRmkdir
    dsimp only
    rw [if_pos (Nat.le_of_not_lt hlen), if_pos (Nat.le_of_not_lt hlen)]
    rfl

/-! ## What is visited -/

/-- The prefixes of `dir` that end with a slash, and all of `dir` with one. -/
def slashPrefixes (dir : Text) : List Text :=
  (dir.inits.filter fun p => p.getLast? = some '/') ++
    if dir = [] ∨ dir.getLast? = some '/' then [] else [dir ++ ['/']]

theorem rmkdirPaths_eq_filter (cur ptr : Text) :
    rmkdirPaths cur ptr =
      ((ptr.inits.tail.map (cur ++ ·)).filter fun p => p.getLast? = some '/') ++
        if cur ++ ptr = [] ∨ (cur ++ ptr).getLast? = some '/' then [] else [cur ++ ptr ++ ['/']] := by
  induction ptr generalizing cur with
  | nil =>
    rw [rmkdirPaths, List.append_nil]
    rfl
  | cons c cs ih =>
    have hinits : (c :: cs).inits.tail.map (cur ++ ·) =
        (cur ++ [c]) :: cs.inits.tail.map ((cur ++ [c]) ++ ·) := by
      cases cs <;> simp
    have hwhole : cur ++ c :: cs = cur ++ [c] ++ cs := by simp
    rw [hinits, hwhole, rmkdirPaths]
    by_cases hc : c = '/'
    · rw [if_pos hc, hc, List.filter_cons_of_pos (by simp), ih]
      rfl
    · rw [if_neg hc, List.filter_cons_of_neg (by simpa using hc), ih]

theorem rmkdirPaths_eq_slashPrefixes (dir : Text) : rmkdirPaths [] dir = slashPrefixes dir := by
  have hinits : dir.inits = [] :: dir.inits.tail := by cases dir <;> simp
  rw [rmkdirPaths_eq_filter, slashPrefixes, hinits, List.filter_cons_of_neg (by decide)]
  simp

theorem rmkdirPaths_longer {cur ptr path : Text} (h : path ∈ rmkdirPaths cur ptr) :
    cur.length < path.length := by
  induction ptr generalizing cur with
  | nil =>
    rw [rmkdirPaths] at h
    split at h
    · cases h
    · rw [List.mem_singleton.mp h, List.length_append, List.length_singleton]
      omega
  | cons c cs ih =>
    rw [rmkdirPaths] at h
    split at h
    · rcases List.mem_cons.mp h with rfl | h
      · rw [List.length_append, List.length_singleton]
        omega
      · have hless := ih h
        rw [List.length_append, List.length_singleton] at hless
        omega
    · have hless := ih h
      rw [List.length_append, List.length_singleton] at hless
      omega

theorem rmkdirPaths_increasing (cur ptr : Text) :
    (rmkdirPaths cur ptr).Pairwise fun p q => p.length < q.length := by
  induction ptr generalizing cur with
  | nil =>
    rw [rmkdirPaths]
    split
    · exact List.Pairwise.nil
    · exact List.pairwise_singleton _ _
  | cons c cs ih =>
    rw [rmkdirPaths]
    split
    · exact List.pairwise_cons.mpr ⟨fun q hq => rmkdirPaths_longer hq, ih _⟩
    · exact ih _

/-- The last path is the whole. -/
theorem rmkdirPaths_last {cur ptr : Text} (hptr : ptr ≠ []) :
    (rmkdirPaths cur ptr).getLast? =
      some (if (cur ++ ptr).getLast? = some '/' then cur ++ ptr else cur ++ ptr ++ ['/']) := by
  induction ptr generalizing cur with
  | nil => exact absurd rfl hptr
  | cons c cs ih =>
    have hwhole : cur ++ c :: cs = cur ++ [c] ++ cs := by simp
    rw [rmkdirPaths, hwhole]
    by_cases hcs : cs = []
    · subst hcs
      by_cases hc : c = '/'
      · rw [if_pos hc, hc, List.append_nil, rmkdirPaths, if_pos (Or.inr List.getLast?_concat),
          if_pos List.getLast?_concat]
        rfl
      · have hlast : (cur ++ [c]).getLast? ≠ some '/' := by
          rw [List.getLast?_concat]
          exact fun heq => hc (Option.some.inj heq)
        rw [if_neg hc, List.append_nil, rmkdirPaths, if_neg (not_or.mpr ⟨by simp, hlast⟩),
          if_neg hlast]
        rfl
    · have hrest := @ih (cur ++ [c]) hcs
      by_cases hc : c = '/'
      · rw [if_pos hc, ← hrest, hc]
        cases hpaths : rmkdirPaths (cur ++ ['/']) cs with
        | nil =>
          rw [hc, hpaths] at hrest
          cases hrest
        | cons path paths => exact List.getLast?_cons_cons
      · rw [if_neg hc]
        exact hrest

/-- What was made are the prefixes of `dir`, the longer the later, and the last one is the whole. -/
structure VisitsPrefixes (dir : Text) (made : List Text) : Prop where
  paths : made = slashPrefixes dir
  increasing : made.Pairwise fun p q => p.length < q.length
  whole : dir ≠ [] → made.getLast? = some (if dir.getLast? = some '/' then dir else dir ++ ['/'])

theorem slashPrefixes_visits (dir : Text) : VisitsPrefixes dir (slashPrefixes dir) := by
  refine ⟨rfl, ?_, fun hne => ?_⟩
  · rw [← rmkdirPaths_eq_slashPrefixes]
    exact rmkdirPaths_increasing [] dir
  · rw [← rmkdirPaths_eq_slashPrefixes]
    exact rmkdirPaths_last hne

/-- The whole path fits into `path_buf` with a slash at its end, and the nul. -/
def FitsWithSlash (dir : Text) : Prop :=
  dir.length + 1 < installMaxPathlen ∨ dir.getLast? = some '/'

theorem visitedPaths_eq_iff {dir : Text} (hlen : dir.length < installMaxPathlen) :
    visitedPaths dir = rmkdirPaths [] dir ↔ FitsWithSlash dir := by
  rw [visitedPaths, visited, List.takeWhile_eq_self_iff, rmkdirPaths_eq_slashPrefixes]
  constructor
  · intro hall
    by_contra hnot
    obtain ⟨hlong, hlast⟩ := not_or.mp hnot
    have hne : dir ≠ [] := by
      rintro rfl
      exact hlong (by decide)
    have hmem : dir ++ ['/'] ∈ slashPrefixes dir := by
      rw [slashPrefixes, if_neg (not_or.mpr ⟨hne, hlast⟩)]
      exact List.mem_append_right _ (List.mem_singleton_self _)
    have hfit := of_decide_eq_true (hall _ hmem)
    rw [List.length_append, List.length_singleton] at hfit
    exact hlong hfit
  · intro hfits path hpath
    refine decide_eq_true ?_
    rcases List.mem_append.mp hpath with hpath | hpath
    · have hshort := (List.mem_inits _ _).mp (List.mem_of_mem_filter hpath)
      exact lt_of_le_of_lt hshort.length_le hlen
    · split at hpath
      · cases hpath
      · rename_i hnot
        rw [List.mem_singleton.mp hpath, List.length_append, List.length_singleton]
        exact hfits.resolve_right (not_or.mp hnot).2

/-- A platform that notes down what it is asked to make; `result` says what it answers. -/
def recorder (result : List Text → Text → Int) : Callbacks (List Text) where
  makeDir path _ := do
    let made ← Run.get
    Run.set (made ++ [path])
    pure (result made path)
  errno _ := 0
  setErrno _ made := made

theorem makeEach_recorder {result : List Text → Text → Int}
    (hsucc : ∀ made path, result made path ≠ -1) (dir : Text) (perm : Mode) (paths made : List Text) :
    makeEach (recorder result) dir perm paths made = (.ok 1, made ++ paths) := by
  induction paths generalizing made with
  | nil =>
    rw [List.append_nil]
    rfl
  | cons path paths ih =>
    have hmake : (recorder result).makeDir path perm made = (.ok (result made path), made ++ [path]) :=
      rfl
    have hnot : ¬(recorder result).Fatal dir path (result made path) (made ++ [path]) :=
      fun hfatal => hsucc made path hfatal.1
    rw [makeEach, makeOne, bind_ok hmake, get_bind_apply, if_neg hnot, ih, List.append_assoc]
    rfl

/-- On a platform where every call succeeds, `install_rmkdir` ends, stays inside `path_buf`, and visits
the prefixes of `dir` exactly if all of `dir` fits with a slash. -/
theorem rmkdir_visits_iff (dir : Text) (hlen : dir.length < installMaxPathlen) (hnul : '\x00' ∉ dir)
    (perm : Mode) (pathBuf : Buffer installMaxPathlen) (result : List Text → Text → Int)
    (hsucc : ∀ made path, result made path ≠ -1) :
    ∃ made, installRmkdirC (recorder result) pathBuf dir perm [] = (.ok 1, made) ∧
      (VisitsPrefixes dir made ↔ FitsWithSlash dir) := by
  refine ⟨visitedPaths dir, ?_, ?_⟩
  · rw [installRmkdirC_eq hlen hnul, makeEach_recorder hsucc]
    rfl
  · rw [← visitedPaths_eq_iff hlen, rmkdirPaths_eq_slashPrefixes]
    constructor
    · exact fun hvisits => hvisits.paths
    · intro heq
      rw [heq]
      exact slashPrefixes_visits dir

theorem rmkdir_visits_iff_a :
    ∃ made, installRmkdirC (recorder fun _ _ => 0) (Buffer.zero _) ['a'] 0o755 [] = (.ok 1, made) ∧
      (VisitsPrefixes ['a'] made ↔ FitsWithSlash ['a']) :=
  rmkdir_visits_iff ['a'] (by decide) (by decide) 0o755 (Buffer.zero _) (fun _ _ => 0)
    (fun _ _ => by decide)

/-- A path of 1023 characters and no slash. -/
def longDir : Text := List.replicate 1023 'a'

/-- Nothing at all is made of it, and the result is 1. -/
theorem long_directory_not_visited :
    installRmkdirC (recorder fun _ _ => 0) (Buffer.zero _) longDir 0o755 [] = (.ok 1, []) ∧
      ¬VisitsPrefixes longDir [] := by
  have hlen : longDir.length = 1023 := List.length_replicate
  have hmem : ∀ c ∈ longDir, c = 'a' := fun c hc => List.eq_of_mem_replicate hc
  have hslash : '/' ∉ longDir := fun hc => absurd (hmem _ hc) (by decide)
  have hnul : '\x00' ∉ longDir := fun hc => absurd (hmem _ hc) (by decide)
  have hne : longDir ≠ [] := fun hnil => by
    rw [hnil] at hlen
    cases hlen
  have hlast : longDir.getLast? ≠ some '/' := fun hlast => hslash (List.mem_of_getLast? hlast)
  have hpaths : rmkdirPaths [] longDir = [longDir ++ ['/']] := by
    have happend := rmkdirPaths_append hslash [] []
    rw [List.append_nil, List.nil_append, rmkdirPaths, if_neg (not_or.mpr ⟨hne, hlast⟩)] at happend
    exact happend
  have hvisited : visitedPaths longDir = [] := by
    rw [visitedPaths, visited, hpaths]
    refine List.takeWhile_cons_of_neg ?_
    rw [List.length_append, hlen]
    decide
  refine ⟨?_, fun hvisits => ?_⟩
  · rw [installRmkdirC_eq (by rw [hlen]; decide) hnul, hvisited]
    rfl
  · have hpaths' := hvisits.paths
    rw [← rmkdirPaths_eq_slashPrefixes, hpaths] at hpaths'
    cases hpaths'

end CStringVerified.Install
