import CStringVerified.Install.Proofs.CheckProofs

/-!
# The exit status of `instchk`

The exit status says whether a failure was counted, and a failure is counted only where files were
compared.
-/

namespace CStringVerified.Install

open Foundation Foundation.Run

/-- The files of an item are compared, and do not pass. -/
def Mismatched (w : World) (item : Item) : Prop :=
  ∃ t src dst uid gid, Compared w item t src dst uid gid ∧
    ¬Accepts w src t.perm (wantedType item.op) uid gid dst

/-- The items a run of checks comes to, each with the world it is checked in. -/
def checkSteps : List Item → World → List (World × Item)
  | [], _ => []
  | item :: items, w =>
    (w, item) ::
      match installCheck item w with
      | (.ok _, w') => checkSteps items w'
      | (.error _, _) => []

theorem Compared.unique {w : World} {item t t' : Item} {src src' dst dst' : Text}
    {uid uid' gid gid' : Id} (h : Compared w item t src dst uid gid)
    (h' : Compared w item t' src' dst' uid' gid') :
    t' = t ∧ src' = src ∧ dst' = dst ∧ uid' = uid ∧ gid' = gid := by
  obtain rfl : t' = t := Option.some.inj (h'.translated.symm.trans h.translated)
  have hids := h'.checkable.ids.symm.trans h.checkable.ids
  cases hids
  exact ⟨rfl, Option.some.inj (h'.checkable.src.symm.trans h.checkable.src),
    Option.some.inj (h'.checkable.dst.symm.trans h.checkable.dst), rfl, rfl⟩

/-- An item that is bad before anything is compared is not compared. -/
theorem Unchecked.not_compared {w : World} {item t : Item} {src dst : Text} {uid gid : Id}
    (h : Unchecked w item) : ¬Compared w item t src dst uid gid := by
  intro hc
  rcases h with ⟨message, w', htrans⟩ | ⟨t', ht', hids⟩
  · have ht := hc.translated
    rw [translated, htrans] at ht
    cases ht
  · obtain rfl : t' = t := Option.some.inj (ht'.symm.trans hc.translated)
    have := hc.checkable.ids
    rw [hids] at this
    cases this

/-- One check that returns: its status is good exactly if the item was neither bad nor mismatched, and
it is counted exactly if the item was mismatched. -/
theorem installCheck_step {w w' : World} {item : Item} {status : Status}
    (h : installCheck item w = (.ok status, w')) :
    status.status ≠ .fatal ∧ w.failed ≤ w'.failed ∧
      (status.status = .ok ↔ ¬Unchecked w item ∧ ¬Mismatched w item) ∧
      (w'.failed = w.failed ↔ ¬Mismatched w item) := by
  rcases installCheck_returns h with hbad | ⟨t, src, dst, uid, gid, hcompared⟩
  · obtain ⟨status', w'', hrun, herror, hchecked⟩ := installCheck_unchecked hbad
    obtain ⟨rfl, rfl⟩ := ok_unique hrun h
    have hnot : ¬Mismatched w item := fun ⟨_, _, _, _, _, hc, _⟩ => hbad.not_compared hc
    have hfailed : w''.failed = w.failed := hchecked.failed
    exact ⟨by simp [herror], hfailed.ge, iff_of_false (by simp [herror]) fun hgood => hgood.1 hbad,
      iff_of_true hfailed hnot⟩
  · obtain ⟨status', w'', hrun, hgood, hfatal, hchecked⟩ := installCheck_compared hcompared
    obtain ⟨rfl, rfl⟩ := ok_unique hrun h
    have hnot : ¬Unchecked w item := fun hbad => hbad.not_compared hcompared
    have hmis : ¬Mismatched w item ↔ Accepts w src t.perm (wantedType item.op) uid gid dst := by
      constructor
      · intro hnm
        by_contra hna
        exact hnm ⟨t, src, dst, uid, gid, hcompared, hna⟩
      · rintro ha ⟨t', src', dst', uid', gid', hc', hna⟩
        obtain ⟨rfl, rfl, rfl, rfl, rfl⟩ := hcompared.unique hc'
        exact hna ha
    have hfailed := hchecked.failed
    refine ⟨hfatal, by omega, ?_, ?_⟩
    · rw [hgood, hmis]
      exact (and_iff_right hnot).symm
    · rw [hmis, ← hgood]
      by_cases hok : status'.status = .ok
      · rw [if_pos hok] at hfailed
        exact iff_of_true hfailed hok
      · rw [if_neg hok] at hfailed
        exact iff_of_false (by omega) hok

/-- A run of checks that comes to its end, by induction on the items. -/
theorem runItems_check {items : List Item} {w w' : World} {statuses : List Status}
    (h : runItems installCheck items w = (.ok statuses, w')) :
    statuses.length = items.length ∧ endedFatally statuses = false ∧ w.failed ≤ w'.failed ∧
      ((∀ s ∈ statuses, s.status = .ok) ↔
        ∀ p ∈ checkSteps items w, ¬Unchecked p.1 p.2 ∧ ¬Mismatched p.1 p.2) ∧
      (w'.failed = w.failed ↔ ∀ p ∈ checkSteps items w, ¬Mismatched p.1 p.2) := by
  induction items generalizing w w' statuses with
  | nil =>
    cases h
    simp [checkSteps, endedFatally]
  | cons item items ih =>
    obtain ⟨status, w₁, hcheck, h⟩ := bind_eq_ok h
    obtain ⟨hfatal, hle, hok, hcount⟩ := installCheck_step hcheck
    rw [if_neg hfatal] at h
    obtain ⟨rest, w₂, hrest, h⟩ := bind_eq_ok h
    obtain ⟨rfl, rfl⟩ : status :: rest = statuses ∧ w₂ = w' := by
      cases h
      exact ⟨rfl, rfl⟩
    obtain ⟨hlen, hend, hle', hok', hcount'⟩ := ih hrest
    have hsteps : checkSteps (item :: items) w = (w, item) :: checkSteps items w₁ := by
      rw [checkSteps, hcheck]
    refine ⟨by rw [List.length_cons, hlen, List.length_cons], ?_, hle.trans hle', ?_, ?_⟩
    · simpa [endedFatally, hfatal] using hend
    · rw [hsteps, List.forall_mem_cons, List.forall_mem_cons, hok, hok']
    · rw [hsteps, List.forall_mem_cons, ← hcount, ← hcount']
      omega

/-! ## The initialisation counts nothing -/

/-- The count of failures is the same. -/
def SameFailed (w w' : World) : Prop := w'.failed = w.failed

instance : Std.Refl SameFailed := ⟨fun _ => rfl⟩

instance : IsTrans World SameFailed := ⟨fun _ _ _ h h' => Eq.trans h' h⟩

theorem keeps_sameFailed {α : Type} {m : Sys α} (h : Keeps (Frame fun _ => True) m) :
    Keeps SameFailed m := h.mono fun _ _ h => h.failed

theorem keeps_readSuffix (suffixFile : Text) (fp : Handle) :
    Keeps SameFailed (readSuffix suffixFile fp) := by
  have hclose : Keeps SameFailed (fclose fp) :=
    keeps_sameFailed (keeps_fclose fun _ _ => trivial)
  refine Keeps.bind (fun _ => rfl) fun _ => ?_
  refine Keeps.bind (keeps_sameFailed (keeps_fread fun _ _ => trivial)) fun suffix => ?_
  split
  · refine Keeps.bind (keeps_sameFailed (keeps_ferror fp)) fun error => ?_
    refine Keeps.bind (keeps_sameFailed (keeps_feof fp)) fun eof => ?_
    have hstatus : ∀ m, Keeps SameFailed (statusError m) := fun m =>
      keeps_sameFailed (keeps_statusError m)
    have hend : ∀ status, Keeps SameFailed (do let _ ← fclose fp; pure status : Sys Status) :=
      fun status => Keeps.bind hclose fun _ => keeps_pure status
    split
    · exact Keeps.bind (hstatus _) hend
    · split
      · exact Keeps.bind (hstatus _) hend
      · exact Keeps.bind (keeps_pure _) hend
  · refine Keeps.bind (fun _ => rfl) fun _ => Keeps.bind hclose fun closed => ?_
    split
    · exact keeps_sameFailed (keeps_statusError _)
    · exact fun _ => rfl

theorem keeps_initTool (ctxtFakeroot : Text) : Keeps SameFailed (initTool ctxtFakeroot) := by
  have hinit : ∀ file, Keeps SameFailed (installInit file) := by
    intro file
    refine Keeps.bind keeps_get fun w => Keeps.bind ?_ fun message => ?_
    · unfold checkFakeRoot
      cases w.globals.fakeRoot with
      | none => exact keeps_pure none
      | some root =>
        refine Keeps.bind (keeps_sameFailed (keeps_stat fun _ _ => trivial)) fun sb => ?_
        cases sb <;> exact keeps_pure _
    · cases message with
      | some message => exact keeps_sameFailed (keeps_statusError message)
      | none =>
        refine Keeps.bind (keeps_sameFailed (keeps_fopenRead fun _ _ => trivial)) fun fp => ?_
        cases fp with
        | none => exact keeps_sameFailed (keeps_statusError _)
        | some fp => exact keeps_readSuffix file fp
  unfold initTool
  split
  · exact Keeps.bind (fun _ => rfl) fun _ => hinit _
  · exact hinit _

/-! ## The exit status -/

/-- `instchk` exits with status 0 exactly if all checks were good, if and only if some item was compared
and did not pass, or no item was bad before it could be compared. -/
theorem instchkMain_exit_iff {ctxtFakeroot : Text} {insthier : List Item} {w w₀ w' : World}
    {init : Status} {statuses : List Status} {code : Nat} (hfailed : w.failed = 0)
    (hinit : initTool ctxtFakeroot w = (.ok init, w₀)) (hok : init.status = .ok)
    (hrun : instchkMain ctxtFakeroot insthier w = (.ok (statuses, code), w')) :
    statuses.length = insthier.length ∧
      ((code = 0 ↔ ∀ s ∈ statuses, s.status = .ok) ↔
        (∃ p ∈ checkSteps insthier w₀, Mismatched p.1 p.2) ∨
          ∀ p ∈ checkSteps insthier w₀, ¬Unchecked p.1 p.2) := by
  have hfailed₀ : w₀.failed = 0 := by
    have := keeps_initTool ctxtFakeroot w
    rw [hinit] at this
    exact Eq.trans this hfailed
  obtain ⟨init', w₁, hinit', hrest⟩ := bind_eq_ok hrun
  rw [hinit] at hinit'
  cases hinit'
  rw [if_neg (not_not.mpr hok)] at hrest
  obtain ⟨statuses', w₂, hitems, hrest⟩ := bind_eq_ok hrest
  obtain ⟨hlen, hend, -, hgood, hcount⟩ := runItems_check hitems
  rw [hend] at hrest
  obtain ⟨rfl, hcode⟩ : statuses' = statuses ∧ code = if w₂.failed ≠ 0 then 1 else 0 := by
    cases hrest
    exact ⟨rfl, rfl⟩
  have hzero : code = 0 ↔ ∀ p ∈ checkSteps insthier w₀, ¬Mismatched p.1 p.2 := by
    rw [← hcount, hfailed₀, hcode]
    by_cases h : w₂.failed = 0
    · simp [h]
    · simp [h]
  refine ⟨hlen, ?_⟩
  rw [hzero, hgood]
  constructor
  · intro hiff
    by_cases hmis : ∃ p ∈ checkSteps insthier w₀, Mismatched p.1 p.2
    · exact Or.inl hmis
    · refine Or.inr fun p hp => ?_
      have hnone : ∀ p ∈ checkSteps insthier w₀, ¬Mismatched p.1 p.2 := fun p hp h => hmis ⟨p, hp, h⟩
      exact (hiff.mp hnone p hp).1
  · rintro (⟨p, hp, hmis⟩ | hnone)
    · exact iff_of_false (fun h => h p hp hmis) fun h => (h p hp).2 hmis
    · exact ⟨fun h p hp => ⟨hnone p hp, h p hp⟩, fun h p hp => (h p hp).2⟩

/-- A directory whose owner nobody knows. -/
def strangerItem : Item := { dirItem with owner := some ['x'] }

/-- There is a directory `d`, and the file with the suffix of libraries. -/
def checkWorld : World :=
  .ofFiles [([], ⟨sIfdir ||| 0o755, 0, 0, []⟩), (component ['d'], ⟨sIfdir ||| 0o755, 0, 0, []⟩),
    (component ['c', 'o', 'n', 'f', '-', 's', 'o', 's', 'u', 'f', 'f', 'i', 'x'],
      ⟨sIfreg ||| 0o644, 0, 0, ['s', 'o', '\n']⟩)]

theorem instchkMain_exit_iff_directory :
    ∃ w₀ statuses code w', instchkMain [] [dirItem] checkWorld = (.ok (statuses, code), w') ∧
      statuses.length = [dirItem].length ∧
      ((code = 0 ↔ ∀ s ∈ statuses, s.status = .ok) ↔
        (∃ p ∈ checkSteps [dirItem] w₀, Mismatched p.1 p.2) ∨
          ∀ p ∈ checkSteps [dirItem] w₀, ¬Unchecked p.1 p.2) :=
  ⟨_, _, _, _, rfl, @instchkMain_exit_iff [] [dirItem] checkWorld _ _ _ _ _ rfl rfl rfl rfl⟩

/-- The owner of the only item is unknown: an error is reported, and the exit status is 0. -/
theorem unknown_owner_exits_zero :
    ∃ init w₀ statuses w', initTool [] checkWorld = (.ok init, w₀) ∧ init.status = .ok ∧
      instchkMain [] [strangerItem] checkWorld = (.ok (statuses, 0), w') ∧
      ∃ s ∈ statuses, s.status = .error :=
  ⟨_, _, _, _, rfl, rfl, rfl, _, List.mem_singleton_self _, rfl⟩

end CStringVerified.Install
