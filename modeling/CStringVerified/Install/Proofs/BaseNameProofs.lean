import CStringVerified.Foundation.LastSegment
import CStringVerified.Install.Buffers

/-!
# What `base_name` finds

The two scans find the last component of a path, and the function that works on arrays leaves it in
`path_buf` without an access outside of `dir` or `path_buf`.
-/

namespace CStringVerified.Install

open Foundation Foundation.Run

/-! ## The scans -/

section Scans

variable {dir : Text} {t : Nat}

/-- Behind the place where the first scan stops there are slashes. -/
theorem skipSlashes_spec (dir : Text) (t : Nat) :
    skipSlashes dir t ≤ t ∧ (∀ i, skipSlashes dir t < i → i ≤ t → dir[i]? = some '/') ∧
      (skipSlashes dir t = 0 ∨ dir[skipSlashes dir t]? ≠ some '/') := by
  induction t with
  | zero =>
    refine ⟨Nat.le_refl 0, fun i hlow hhigh => ?_, Or.inl rfl⟩
    exact absurd hhigh (Nat.not_le_of_lt hlow)
  | succ t ih =>
    rw [skipSlashes]
    by_cases hslash : dir[t + 1]? = some '/'
    · rw [if_pos hslash]
      obtain ⟨hle, hall, hstop⟩ := ih
      refine ⟨Nat.le_succ_of_le hle, fun i hlow hhigh => ?_, hstop⟩
      rcases Nat.le_succ_iff.mp hhigh with hhigh | rfl
      · exact hall i hlow hhigh
      · exact hslash
    · rw [if_neg hslash]
      refine ⟨Nat.le_refl _, fun i hlow hhigh => ?_, Or.inr hslash⟩
      exact absurd hhigh (Nat.not_le_of_lt hlow)

/-- The second scan stops behind a slash, and passes none. -/
theorem skipName_spec (dir : Text) (t : Nat) :
    skipName dir t ≤ t ∧ (∀ i, skipName dir t ≤ i → i < t → dir[i]? ≠ some '/') ∧
      (skipName dir t = 0 ∨ dir[skipName dir t - 1]? = some '/') := by
  induction t with
  | zero => exact ⟨Nat.le_refl 0, fun i _ hhigh => absurd hhigh (Nat.not_lt_zero i), Or.inl rfl⟩
  | succ t ih =>
    rw [skipName]
    by_cases hslash : dir[t]? = some '/'
    · rw [if_neg (not_not_intro hslash)]
      refine ⟨Nat.le_refl _, fun i hlow hhigh => ?_, Or.inr hslash⟩
      exact absurd hhigh (Nat.not_lt_of_le hlow)
    · rw [if_pos hslash]
      obtain ⟨hle, hall, hstop⟩ := ih
      refine ⟨Nat.le_succ_of_le hle, fun i hlow hhigh => ?_, hstop⟩
      rcases Nat.lt_succ_iff_lt_or_eq.mp hhigh with hhigh | rfl
      · exact hall i hlow hhigh
      · exact hslash

/-- There is nothing but slashes. -/
def AllSlashes (dir : Text) : Prop := ∀ c ∈ dir, c = '/'

instance (dir : Text) : Decidable (AllSlashes dir) := List.decidableBAll (fun c => c = '/') dir

/-- The first scan ends at a slash at the start if there is nothing else. -/
theorem skipSlashes_only (hne : dir ≠ []) :
    (skipSlashes dir (dir.length - 1) = 0 ∧ dir[skipSlashes dir (dir.length - 1)]? = some '/') ↔
      AllSlashes dir := by
  obtain ⟨hle, hall, hstop⟩ := skipSlashes_spec dir (dir.length - 1)
  have hlen := List.length_pos_iff.mpr hne
  constructor
  · rintro ⟨hzero, hfirst⟩ c hc
    obtain ⟨i, hi, rfl⟩ := List.mem_iff_getElem.mp hc
    have hslash : dir[i]? = some '/' := by
      rcases Nat.eq_zero_or_pos i with rfl | hpos
      · rwa [hzero] at hfirst
      · exact hall i (by omega) (by omega)
    rw [List.getElem?_eq_getElem hi] at hslash
    exact Option.some.inj hslash
  · intro hslashes
    have hlt : skipSlashes dir (dir.length - 1) < dir.length := by omega
    have hslash : dir[skipSlashes dir (dir.length - 1)]? = some '/' := by
      rw [List.getElem?_eq_getElem hlt, hslashes _ (List.getElem_mem hlt)]
    exact ⟨hstop.resolve_right (not_not_intro hslash), hslash⟩

/-- There are only slashes behind the place where the first scan stops. -/
theorem skipSlashes_rest (ht : skipSlashes dir (dir.length - 1) = t) :
    dir.drop (t + 1) = List.replicate (dir.length - (t + 1)) '/' := by
  obtain ⟨-, htail, -⟩ := skipSlashes_spec dir (dir.length - 1)
  rw [ht] at htail
  refine List.eq_replicate_iff.mpr ⟨List.length_drop, fun c hc => ?_⟩
  obtain ⟨i, hi, rfl⟩ := List.mem_iff_getElem.mp hc
  rw [List.length_drop] at hi
  have hslash := htail (t + 1 + i) (by omega) (by omega)
  rw [List.getElem?_eq_getElem (by omega)] at hslash
  rw [List.getElem_drop]
  exact Option.some.inj hslash

/-- What is between the places where the scans stop is the last component. -/
theorem isLastSegment_scanned (hslashes : ¬AllSlashes dir)
    (ht : skipSlashes dir (dir.length - 1) = t) :
    IsLastSegment '/' dir ((dir.drop (skipName dir t)).take (t - skipName dir t + 1)) := by
  have hne : dir ≠ [] := by
    rintro rfl
    exact hslashes fun c hc => nomatch hc
  have hlen := List.length_pos_iff.mpr hne
  obtain ⟨hle, -, hlast⟩ := skipSlashes_spec dir (dir.length - 1)
  have honly := (skipSlashes_only hne).not.mpr hslashes
  rw [ht] at hle hlast honly
  obtain ⟨hut, hname, hfirst⟩ := skipName_spec dir t
  generalize skipName dir t = u at hut hname hfirst ⊢
  have hend : dir[t]? ≠ some '/' := fun hslash =>
    honly ⟨hlast.resolve_right (not_not_intro hslash), hslash⟩
  have hsum : u + (t - u + 1) = t + 1 := by omega
  refine ⟨?_, ?_, dir.take u, dir.length - (t + 1), ?_, ?_⟩
  · intro hnil
    have hzero := congrArg List.length hnil
    rw [List.length_take, List.length_drop, List.length_nil] at hzero
    omega
  · intro hmem
    obtain ⟨i, hi, hslash⟩ := List.mem_iff_getElem.mp hmem
    rw [List.length_take, List.length_drop] at hi
    rw [List.getElem_take, List.getElem_drop] at hslash
    have hslash' : dir[u + i]? = some '/' := by rw [List.getElem?_eq_getElem (by omega), hslash]
    rcases Nat.lt_or_ge (u + i) t with hlt | hge
    · exact hname (u + i) (Nat.le_add_right u i) hlt hslash'
    · obtain rfl : u + i = t := by omega
      exact hend hslash'
  · rw [← skipSlashes_rest ht, ← hsum, List.append_assoc, ← List.drop_drop, List.take_append_drop,
      List.take_append_drop]
  · rcases Nat.eq_zero_or_pos u with rfl | hpos
    · exact Or.inl rfl
    · right
      have hslash := hfirst.resolve_left (by omega)
      rw [List.getLast?_take, if_neg (by omega), hslash]
      rfl

end Scans

/-! ## The name -/

section Names

variable {dir b b' : Text}

/-- `b` is the base name of `dir`. -/
def IsBaseName (dir b : Text) : Prop :=
  if dir = [] then b = ['.'] else if AllSlashes dir then b = ['/'] else IsLastSegment '/' dir b

theorem IsBaseName.unique (h : IsBaseName dir b) (h' : IsBaseName dir b') : b' = b := by
  unfold IsBaseName at h h'
  split at h
  · rename_i hnil
    rw [if_pos hnil] at h'
    exact h'.trans h.symm
  · rename_i hne
    rw [if_neg hne] at h'
    split at h
    · rename_i hslashes
      rw [if_pos hslashes] at h'
      exact h'.trans h.symm
    · rename_i hother
      rw [if_neg hother] at h'
      exact h.unique h'

/-- The last component of a path is its base name. -/
theorem isBaseName_of_last (h : IsLastSegment '/' dir b) : IsBaseName dir b := by
  obtain ⟨c, hc, hslash⟩ := h.exists_ne
  unfold IsBaseName
  rw [if_neg (List.ne_nil_of_mem hc), if_neg fun hall => hslash (hall c hc)]
  exact h

/-- A base name is its own base name. -/
theorem IsBaseName.self (h : IsBaseName dir b) : IsBaseName b b := by
  unfold IsBaseName at h
  split at h
  · rw [h]
    exact isBaseName_of_last (isLastSegment_self (List.cons_ne_nil _ _) (by decide))
  · split at h
    · rw [h]
      exact (if_neg (List.cons_ne_nil _ _)).mpr ((if_pos (by decide)).mpr rfl)
    · exact isBaseName_of_last (isLastSegment_self h.1 h.2.1)

/-- The characters of a base name are those of the path, or it is one of the two that are not. -/
theorem IsBaseName.cases (h : IsBaseName dir b) : b = ['.'] ∨ b = ['/'] ∨ b <:+: dir := by
  unfold IsBaseName at h
  split at h
  · exact Or.inl h
  · split at h
    · exact Or.inr (Or.inl h)
    · obtain ⟨-, -, before, k, rfl, -⟩ := h
      exact Or.inr (Or.inr ⟨before, _, rfl⟩)

theorem IsBaseName.nul (h : IsBaseName dir b) (hnul : '\x00' ∉ dir) : '\x00' ∉ b := by
  rcases h.cases with rfl | rfl | hsegment
  · decide
  · decide
  · exact fun hmem => hnul (hsegment.subset hmem)

theorem IsBaseName.fits (h : IsBaseName dir b) (hlen : dir.length < installMaxPathlen) :
    b.length < installMaxPathlen := by
  rcases h.cases with rfl | rfl | hsegment
  · decide
  · decide
  · exact hsegment.length_le.trans_lt hlen

theorem baseName_isBaseName (h : baseName dir = some b) : IsBaseName dir b := by
  unfold baseName at h
  unfold IsBaseName
  split at h
  · rename_i hnil
    rw [if_pos hnil]
    exact (Option.some.inj h).symm
  · rename_i hne
    rw [if_neg hne]
    split at h
    · cases h
    · dsimp only at h
      split at h
      · rename_i honly
        rw [if_pos ((skipSlashes_only hne).mp honly)]
        exact (Option.some.inj h).symm
      · rename_i hother
        have hslashes := (skipSlashes_only hne).not.mp hother
        rw [if_neg hslashes, ← Option.some.inj h]
        exact isLastSegment_scanned hslashes rfl

theorem baseName_eq_none : baseName dir = none ↔ installMaxPathlen ≤ dir.length := by
  unfold baseName
  split
  · rename_i hnil
    rw [hnil]
    exact iff_of_false nofun (by decide)
  · split
    · rename_i hlen
      exact iff_of_true rfl hlen
    · rename_i hlen
      refine iff_of_false ?_ hlen
      dsimp only
      split <;> exact Option.some_ne_none _

end Names

/-! ## The arrays -/

section Arrays

variable {σ : Type} {dir b : Text} {i t : Nat}

theorem charAt_of_lt (h : i < dir.length) : charAt dir i = some dir[i] := by
  rw [charAt, List.getElem?_append_left h, List.getElem?_eq_getElem h]

theorem charsAt_of_le {count : Nat} (h : i + count ≤ dir.length) :
    charsAt dir i count = some ((dir.drop i).take count) := by
  have hcount : count ≤ (dir.drop i).length := by
    rw [List.length_drop]
    omega
  rw [charsAt, if_pos (Nat.le_succ_of_le h), List.drop_append_of_le_length (by omega),
    List.take_append_of_le_length hcount]

theorem skipSlashesC_eq (ht : t < dir.length) (s : σ) :
    skipSlashesC dir t s = (.ok (skipSlashes dir t), s) := by
  induction t with
  | zero => rfl
  | succ t ih =>
    rw [skipSlashesC, charAt_of_lt ht, inBounds_bind_apply, skipSlashes, List.getElem?_eq_getElem ht]
    by_cases hslash : dir[t + 1] = '/'
    · rw [if_pos hslash, if_pos (congrArg some hslash)]
      exact ih (Nat.lt_of_succ_lt ht)
    · rw [if_neg hslash, if_neg fun h => hslash (Option.some.inj h)]
      rfl

theorem skipNameC_eq (ht : t < dir.length) (s : σ) :
    skipNameC dir t s = (.ok (skipName dir t), s) := by
  induction t with
  | zero => rfl
  | succ t ih =>
    have hlt : t < dir.length := Nat.lt_of_succ_lt ht
    rw [skipNameC, charAt_of_lt hlt, inBounds_bind_apply, skipName, List.getElem?_eq_getElem hlt]
    by_cases hslash : dir[t] = '/'
    · rw [if_neg (not_not_intro hslash), if_neg (not_not_intro (congrArg some hslash))]
      rfl
    · rw [if_pos hslash, if_pos fun h => hslash (Option.some.inj h)]
      exact ih hlt

theorem onlySlashes_eq (ht : t < dir.length) (s : σ) :
    onlySlashes dir t s = (.ok (t = 0 ∧ dir[t]? = some '/'), s) := by
  unfold onlySlashes
  by_cases hzero : t = 0
  · rw [if_pos hzero, charAt_of_lt ht, inBounds_bind_apply, List.getElem?_eq_getElem ht]
    simp [hzero]
  · rw [if_neg hzero]
    simp [hzero]

/-- A path that is too long is refused. -/
theorem baseNameC_none (h : baseName dir = none) (pathBuf : Buffer installMaxPathlen) (s : σ) :
    baseNameC pathBuf dir s = (.ok (0, pathBuf), s) := by
  have hlen := baseName_eq_none.mp h
  have hpos : dir.length ≠ 0 := by
    have hmax : 0 < installMaxPathlen := by decide
    omega
  unfold baseNameC
  dsimp only
  rw [if_neg hpos, if_pos hlen]
  rfl

/-- Any other path leaves its base name in `path_buf`. -/
theorem baseNameC_some (hnul : '\x00' ∉ dir) (h : baseName dir = some b)
    (pathBuf : Buffer installMaxPathlen) (s : σ) :
    ∃ buf, baseNameC pathBuf dir s = (.ok (1, buf), s) ∧ buf.cString = some b := by
  have hbase := baseName_isBaseName h
  have hlen : dir.length < installMaxPathlen := by
    refine Nat.lt_of_not_le fun hle => ?_
    rw [baseName_eq_none.mpr hle] at h
    cases h
  obtain ⟨b₁, b₂, hcopy, hstore, hstring⟩ :=
    CArray.string_copied (b := pathBuf) (hbase.nul hnul) (hbase.fits hlen)
  refine ⟨b₂, ?_, hstring⟩
  unfold baseName at h
  unfold baseNameC
  dsimp only
  split at h
  · rename_i hnil
    obtain rfl := Option.some.inj h
    have hfirst : pathBuf.store 0 '.' = some b₁ := hcopy
    rw [if_pos (List.length_eq_zero_iff.mpr hnil), hfirst, inBounds_bind_apply]
    exact congrFun (congrArg (fun b => inBounds b >>= _) hstore) s
  · rename_i hne
    have hpos : dir.length ≠ 0 := fun hzero => hne (List.eq_nil_of_length_eq_zero hzero)
    have ht : skipSlashes dir (dir.length - 1) < dir.length := by
      have hle := (skipSlashes_spec dir (dir.length - 1)).1
      omega
    rw [if_neg (Nat.not_le_of_lt hlen)] at h
    rw [if_neg hpos, if_neg (Nat.not_le_of_lt hlen), bind_ok (skipSlashesC_eq (by omega) s),
      bind_ok (onlySlashes_eq ht s)]
    dsimp only at h
    split at h
    · rename_i honly
      obtain rfl := Option.some.inj h
      have hfirst : pathBuf.store 0 '/' = some b₁ := hcopy
      rw [if_pos (decide_eq_true honly), hfirst, inBounds_bind_apply]
      exact congrFun (congrArg (fun b => inBounds b >>= _) hstore) s
    · rename_i hother
      have hu := (skipName_spec dir (skipSlashes dir (dir.length - 1))).1
      have hname := Option.some.inj h
      have hnlen : b.length = skipSlashes dir (dir.length - 1) -
          skipName dir (skipSlashes dir (dir.length - 1)) + 1 := by
        rw [← hname, List.length_take, List.length_drop]
        omega
      rw [if_neg fun hdec => hother (of_decide_eq_true hdec), bind_ok (skipNameC_eq ht s),
        charsAt_of_le (by omega), inBounds_bind_apply, hname, hcopy, inBounds_bind_apply, ← hnlen, hstore]
      rfl

/-- On arrays, what is found is the base name. -/
theorem baseNameC_isBaseName (hnul : '\x00' ∉ dir) (hlen : dir.length < installMaxPathlen)
    (hb : IsBaseName dir b) (pathBuf : Buffer installMaxPathlen) (s : σ) :
    ∃ buf, baseNameC pathBuf dir s = (.ok (1, buf), s) ∧ buf.cString = some b := by
  cases h : baseName dir with
  | none => exact absurd (baseName_eq_none.mp h) (Nat.not_le_of_lt hlen)
  | some b' =>
    obtain rfl := hb.unique (baseName_isBaseName h)
    exact baseNameC_some hnul h pathBuf s

end Arrays

/-- `base_name` refuses exactly the paths that do not fit. Of any other path it finds the base name, of
which there is one only, and that is its own base name; the base name of a path that was put together is
the name that was added. -/
theorem base_name_finds_last {σ : Type} (pathBuf : Buffer installMaxPathlen) (dir : Text)
    (hnul : '\x00' ∉ dir) (s : σ) :
    (∃ r buf, baseNameC pathBuf dir s = (.ok (r, buf), s) ∧
      (r = 0 ↔ installMaxPathlen ≤ dir.length) ∧
      (r ≠ 0 → r = 1 ∧ ∃ b, buf.cString = some b ∧ IsBaseName dir b ∧
        (∀ b', IsBaseName dir b' → b' = b) ∧
        ∀ pathBuf' : Buffer installMaxPathlen, ∃ buf',
          baseNameC pathBuf' b s = (.ok (1, buf'), s) ∧ buf'.cString = some b)) ∧
    ∀ b : Text, b ≠ [] → '/' ∉ b → '\x00' ∉ b → (joinPath dir b).length < installMaxPathlen →
      ∃ buf, baseNameC pathBuf (joinPath dir b) s = (.ok (1, buf), s) ∧ buf.cString = some b := by
  constructor
  · by_cases hlen : installMaxPathlen ≤ dir.length
    · refine ⟨0, pathBuf, baseNameC_none (baseName_eq_none.mpr hlen) pathBuf s, ?_, fun hne => absurd rfl hne⟩
      exact iff_of_true rfl hlen
    · have hfits := Nat.lt_of_not_le hlen
      obtain ⟨b, hb⟩ := Option.ne_none_iff_exists'.mp (baseName_eq_none.not.mpr hlen)
      have hbase := baseName_isBaseName hb
      obtain ⟨buf, hrun, hstring⟩ := baseNameC_isBaseName hnul hfits hbase pathBuf s
      refine ⟨1, buf, hrun, iff_of_false Int.one_ne_zero hlen, fun _ => ⟨rfl, b, hstring, hbase, ?_, ?_⟩⟩
      · exact fun b' hb' => hbase.unique hb'
      · exact fun pathBuf' =>
          baseNameC_isBaseName (hbase.nul hnul) (hbase.fits hfits) hbase.self pathBuf' s
  · intro b hne hslash hb hlen
    have hjoin : '\x00' ∉ joinPath dir b := by
      rw [joinPath, List.mem_append, List.mem_cons, not_or, not_or]
      exact ⟨hnul, by decide, hb⟩
    have hlast : IsBaseName (joinPath dir b) b :=
      isBaseName_of_last (isLastSegment_append dir hne hslash)
    exact baseNameC_isBaseName hjoin hlen hlast pathBuf s

theorem base_name_finds_bc :
    '\x00' ∉ ['a', '/', 'b', 'c', '/'] ∧
      ∃ buf, baseNameC (.zero _) ['a', '/', 'b', 'c', '/'] () = (.ok (1, buf), ()) ∧
        buf.cString = some ['b', 'c'] := by
  refine ⟨by decide, ?_⟩
  obtain ⟨⟨r, buf, hrun, hzero, hfound⟩, -⟩ :=
    base_name_finds_last (.zero _) ['a', '/', 'b', 'c', '/'] (by decide) ()
  obtain ⟨rfl, b, hstring, -, honly, -⟩ := hfound (hzero.not.mpr (by decide))
  have hbc : IsBaseName ['a', '/', 'b', 'c', '/'] ['b', 'c'] :=
    isBaseName_of_last ⟨List.cons_ne_nil _ _, by decide, ['a', '/'], 1, rfl, Or.inr rfl⟩
  rw [← honly _ hbc] at hstring
  exact ⟨buf, hrun, hstring⟩

end CStringVerified.Install
