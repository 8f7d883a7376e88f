import CStringVerified.Install.Proofs.ExitProofs
import CStringVerified.Install.Proofs.InstallProofs

/-!
# `install_init`

It returns whatever the calls do, without having changed a file; it is never fatal. If it succeeds, the
library suffix begins with a dot, and consists of what the suffix file begins with, up to the first
character that has no place in a suffix. Undisturbed, it succeeds exactly if the fake root is a
directory and there is something in the suffix file, which is no directory and no socket.
-/

namespace CStringVerified.Install

open Foundation Foundation.Run

/-- The fake root is a directory, if there is one. -/
def RootReady (w : World) : Prop :=
  ∀ root, w.globals.fakeRoot = some root → ∃ n, statAt w root = some n ∧ sIsdir n.stMode = true

/-- What a suffix file may give: the characters read are the first ones of it, all that fit if nothing
disturbs the reading. -/
structure SuffixText (env : Env) (n : Node) (text : Text) : Prop where
  file : sIsdir n.stMode = false
  noSocket : sIssock n.stMode = false
  ne : text ≠ []
  first : text <+: n.data
  fits : text.length ≤ suffixSize - 2
  calm : Undisturbed env → text = n.data.take (suffixSize - 2)

/-- The calls made so far have changed no file. -/
structure Untouched (w w' : World) : Prop where
  files : SameFiles w w'
  env : w'.env = w.env
  failed : w'.failed = w.failed

/-- How the initialisation ends, if the fake root is `ready` and the suffix file is `found`. -/
structure InitEnds (w : World) (ready : Prop) (found : Option Node) (status : Status) (w' : World) :
    Prop where
  untouched : Untouched w w'
  notFatal : status.status ≠ .fatal
  message : status.status = .error → status.message ≠ none
  success : status.status = .ok → ready ∧ ∃ n text, found = some n ∧ SuffixText w.env n text ∧
    w'.globals = { w.globals with
      execSuffix := []
      dlibSuffix := installSuffixSanitize ('.' :: text) }
  calm : Undisturbed w.env → ready → ∀ n, found = some n → sIsdir n.stMode = false →
    sIssock n.stMode = false → n.data ≠ [] → status.status = .ok

section Init

variable {w w' w'' : World} {suffixFile : Text} {status : Status}

theorem Untouched.trans (h : Untouched w w') (h' : Untouched w' w'') : Untouched w w'' :=
  ⟨h.files.trans h'.files, h'.env.trans h.env, h'.failed.trans h.failed⟩

theorem Frame.untouched (h : Frame Quiet w w') : Untouched w w' := ⟨h.sameFiles, h.env, h.failed⟩

/-- The check of the fake root. -/
theorem checkFakeRoot_run (w : World) : ∃ message w', checkFakeRoot w.globals.fakeRoot w =
    (.ok message, w') ∧ Frame Quiet w w' ∧ (message = none ↔ RootReady w) := by
  cases hroot : w.globals.fakeRoot with
  | none =>
    refine ⟨none, w, rfl, Frame.refl w, iff_of_true rfl fun root h => ?_⟩
    rw [hroot] at h
    cases h
  | some root =>
    obtain ⟨w', hstat, -⟩ := stat_apply root w
    have hquiet : Frame Quiet w w' := Frame.of_run (keeps_stat fun _ _ => ⟨rfl, rfl⟩) hstat
    have hready : RootReady w ↔ ∃ n, statAt w root = some n ∧ sIsdir n.stMode = true := by
      unfold RootReady
      rw [hroot]
      simp only [Option.some.injEq, forall_eq']
    rw [hready]
    unfold checkFakeRoot
    cases hn : statAt w root with
    | none =>
      rw [hn] at hstat
      exact ⟨_, w', bind_ok hstat, hquiet, iff_of_false nofun nofun⟩
    | some n =>
      rw [hn] at hstat
      refine ⟨_, w', bind_ok hstat, hquiet, ?_⟩
      by_cases hdir : sIsdir n.stMode = true
      · rw [if_pos hdir]
        exact iff_of_true rfl ⟨n, rfl, hdir⟩
      · rw [if_neg hdir]
        refine iff_of_false nofun ?_
        rintro ⟨m, hm, hmdir⟩
        cases hm
        exact hdir hmdir

theorem fclose_untouched (fd : Handle) (w : World) :
    ∃ w', fclose fd w = (.ok (if w.env.faults w.tick = none then 0 else -1), w') ∧
      Untouched w w' ∧ w'.globals = w.globals := by
  obtain ⟨w', hrun, -⟩ := fclose_passed fd w
  have hquiet : Frame Quiet w w' := Frame.of_run (keeps_fclose fun _ _ => ⟨rfl, rfl⟩) hrun
  exact ⟨w', hrun, hquiet.untouched, hquiet.globals⟩

/-- There is nothing to be read in a file. -/
def Unreadable (n : Node) : Prop := sIsdir n.stMode = true ∨ sIssock n.stMode = true ∨ n.data = []

/-- An error that ends the reading. -/
theorem initEnds_error {ready : Prop} {found : Option Node} {message : String} {e : Errno}
    (huntouched : Untouched w w')
    (hcalm : Undisturbed w.env → ready → ∀ n, found = some n → Unreadable n) :
    InitEnds w ready found ⟨.error, some message, some e⟩ w' := by
  refine ⟨huntouched, nofun, fun _ => Option.some_ne_none message, nofun, ?_⟩
  intro hundisturbed hready n hn hfile hnoSocket hdata
  rcases hcalm hundisturbed hready n hn with hdir | hsock | hempty
  · rw [hfile] at hdir
    cases hdir
  · rw [hnoSocket] at hsock
    cases hsock
  · exact absurd hempty hdata

/-- The state in which the suffix is read: the suffixes are cleared. -/
abbrev World.cleared (w : World) : World :=
  { w with globals := { w.globals with execSuffix := [], dlibSuffix := ['.'] } }

abbrev World.withSuffix (w : World) (suffix : Text) : World :=
  { w with globals := { w.globals with dlibSuffix := suffix } }

/-- Nothing was read: that is an error of the reading, or the end of an empty file. -/
theorem readSuffix_nothing {fd : Handle} {s : Stream} {w₁ : World} {ready : Prop}
    {found : Option Node} (hread : fread fd (suffixSize - 2) w.cleared = (.ok [], w₁))
    (huntouched : Untouched w w₁) (hs : w₁.os.streams[fd]? = some s)
    (hwhy : s.eof = true ∨ s.err = true)
    (hcalm : Undisturbed w.env → ready → ∀ n, found = some n → Unreadable n) :
    ∃ status w', readSuffix suffixFile fd w = (.ok status, w') ∧
      InitEnds w ready found status w' := by
  obtain ⟨w₂, hclose, hclosed, -⟩ := fclose_untouched fd w₁
  unfold readSuffix
  rw [modify_bind_apply, bind_ok hread, if_pos rfl,
    bind_ok (ferror_apply hs), bind_ok (feof_apply hs)]
  by_cases heof : s.eof = true
  · rw [if_pos heof, bind_ok (statusError_apply _ w₁)]
    exact ⟨_, w₂, bind_ok hclose, initEnds_error (huntouched.trans hclosed) hcalm⟩
  · rw [if_neg heof, if_pos (hwhy.resolve_left heof), bind_ok (statusError_apply _ w₁)]
    exact ⟨_, w₂, bind_ok hclose, initEnds_error (huntouched.trans hclosed) hcalm⟩

/-- Something was read: it is the suffix, unless the file cannot be closed. -/
theorem readSuffix_something {fd : Handle} {w₁ : World} {ready : Prop} {n : Node} {text : Text}
    (hready : ready) (hread : fread fd (suffixSize - 2) w.cleared = (.ok text, w₁))
    (huntouched : Untouched w w₁) (hglobals : w₁.globals = w.cleared.globals)
    (htext : SuffixText w.env n text) :
    ∃ status w', readSuffix suffixFile fd w = (.ok status, w') ∧
      InitEnds w ready (some n) status w' := by
  obtain ⟨w₂, hclose, hclosed, hglobals₂⟩ :=
    fclose_untouched fd (w₁.withSuffix (installSuffixSanitize ('.' :: text)))
  have hsuffix : Untouched w₁ (w₁.withSuffix (installSuffixSanitize ('.' :: text))) :=
    ⟨⟨rfl, rfl⟩, rfl, rfl⟩
  have hall := (huntouched.trans hsuffix).trans hclosed
  unfold readSuffix
  rw [modify_bind_apply, bind_ok hread, if_neg htext.ne,
    modify_bind_apply, bind_ok hclose]
  by_cases hfault : (w₁.withSuffix (installSuffixSanitize ('.' :: text))).env.faults
      (w₁.withSuffix (installSuffixSanitize ('.' :: text))).tick = none
  · rw [if_pos hfault, if_neg (by decide)]
    refine ⟨_, _, rfl, ⟨hall.files, hall.env, hall.failed⟩, nofun, nofun, fun _ => ⟨hready, n, text,
      rfl, htext, ?_⟩, fun _ _ _ _ _ _ _ => rfl⟩
    show { w₂.globals with execSuffix := [] } = _
    rw [hglobals₂]
    simp only [hglobals]
  · rw [if_neg hfault, if_pos (by decide)]
    refine ⟨_, w₂, rfl, initEnds_error hall fun hcalm => ?_⟩
    have henv : w₁.env = w.env := huntouched.env
    exact absurd (by rw [← henv] at hcalm; exact (hcalm _).1) hfault

/-- The suffix is read from a stream at the start of a file. -/
theorem readSuffix_run (suffixFile : Text) {fd : Handle} {s : Stream} (hs : w.os.streams[fd]? = some s)
    (hstart : s.pos = 0) (hnoSocket : ∀ n, w.os.fs.inode s.ino = some n → sIssock n.stMode = false)
    {ready : Prop} (hready : ready) :
    ∃ status w', readSuffix suffixFile fd w = (.ok status, w') ∧
      InitEnds w ready (w.os.fs.inode s.ino) status w' := by
  have hlen : fd < w.os.streams.length := (List.getElem?_eq_some_iff.mp hs).1
  have hset : ∀ s' : Stream, (w.os.streams.set fd s')[fd]? = some s' :=
    fun s' => List.getElem?_set_self hlen
  have hquiet : Keeps (Frame Quiet) (fread fd (suffixSize - 2)) := keeps_fread fun _ _ => ⟨rfl, rfl⟩
  have hcleared : Untouched w w.cleared := ⟨⟨rfl, rfl⟩, rfl, rfl⟩
  rcases fread_run (w := w.cleared) (suffixSize - 2) hs with
    ⟨n, -, hn, hfile, hrun⟩ | ⟨e, hwhy, hrun⟩
  · have hframe := Frame.of_run hquiet hrun
    have hn : w.os.fs.inode s.ino = some n := hn
    have hblock : w.cleared.block s n (suffixSize - 2) =
        n.data.take (w.cleared.transfer (suffixSize - 2)) := by
      rw [World.block, hstart, List.drop_zero]
    by_cases hnil : w.cleared.block s n (suffixSize - 2) = []
    · have heof := readOn_eof (w := w.cleared) (s := s) (n := n) (by decide) hnil
      have hempty : n.data = [] := by
        have hpos : 0 < w.cleared.transfer (suffixSize - 2) := transfer_pos (by decide) w.cleared
        rw [hblock, List.take_eq_nil_iff] at hnil
        exact hnil.resolve_left (Nat.pos_iff_ne_zero.mp hpos)
      rw [hnil] at hrun
      refine readSuffix_nothing hrun (hcleared.trans hframe.untouched) (hset _) (Or.inl heof) ?_
      intro _ _ m hm
      rw [hn] at hm
      cases hm
      exact Or.inr (Or.inr hempty)
    · rw [hn]
      refine readSuffix_something hready hrun (hcleared.trans hframe.untouched) hframe.globals
        ⟨hfile, hnoSocket n hn, hnil, ?_, ?_, fun hcalm => ?_⟩
      · rw [hblock]
        exact List.take_prefix _ _
      · rw [hblock, List.length_take]
        exact (Nat.min_le_left _ _).trans (Nat.min_le_left _ _)
      · have hchunk : suffixSize - 2 ≤ w.cleared.env.chunks w.cleared.tick :=
          le_trans (by decide) (hcalm w.cleared.tick).2
        rw [hblock, World.transfer, Nat.min_eq_left (hchunk.trans (Nat.le_max_right _ _))]
  · have hframe := Frame.of_run hquiet hrun
    refine readSuffix_nothing hrun (hcleared.trans hframe.untouched) (hset _) (Or.inr rfl) ?_
    intro hcalm _ m hm
    exact Or.inl (hwhy (hcalm _).1 m hm)

theorem InitEnds.after {w₁ : World} {ready : Prop} {found : Option Node}
    (h : InitEnds w₁ ready found status w') (hq : Frame Quiet w w₁) :
    InitEnds w ready found status w' := by
  obtain ⟨huntouched, hnotFatal, hmessage, hsuccess, hcalm⟩ := h
  rw [hq.env] at hcalm hsuccess
  rw [hq.globals] at hsuccess
  exact ⟨hq.untouched.trans huntouched, hnotFatal, hmessage, hsuccess, hcalm⟩

/-- `install_init`, whatever the calls do. -/
theorem installInit_run (suffixFile : Text) (w : World) :
    ∃ status w', installInit suffixFile w = (.ok status, w') ∧
      InitEnds w (RootReady w) (statAt w suffixFile) status w' := by
  obtain ⟨message, w₁, hroot, hquiet, hready⟩ := checkFakeRoot_run w
  unfold installInit
  rw [get_bind_apply, bind_ok hroot]
  cases message with
  | some message =>
    have hnot : ¬RootReady w := fun h => nomatch hready.mpr h
    exact ⟨_, w₁, rfl, initEnds_error hquiet.untouched fun _ h => absurd h hnot⟩
  | none =>
    have hready := hready.mp rfl
    obtain ⟨fd, w₂, hopen⟩ : Returns (fopenRead suffixFile) w₁ := returns_sysCall _ _ w₁
    have hopened : Frame Quiet w w₂ :=
      hquiet.trans (Frame.of_run (keeps_fopenRead fun _ _ => ⟨rfl, rfl⟩) hopen)
    dsimp only
    rw [bind_ok hopen]
    cases fd with
    | none =>
      refine ⟨_, w₂, rfl, initEnds_error hopened.untouched fun hcalm _ n hn => ?_⟩
      -- A file that is there is opened, if nothing disturbs the call and it is no socket.
      rw [← hquiet.sameFiles.statAt, statAt_eq_some] at hn
      obtain ⟨hne, l, hres⟩ := hn
      rw [← hquiet.env] at hcalm
      refine Or.inr (Or.inl ?_)
      by_contra hsock
      obtain ⟨i, hi, -⟩ := FileSystem.ino_of_node (FileSystem.resolve_node hres)
      have hopened : w₁.opened l n = .ok i := opened_eq_ok.mpr ⟨by simpa using hsock, hi⟩
      rw [fopenRead_found (hcalm w₁.tick).1 hne hres hopened] at hopen
      cases hopen
    | some fd =>
      obtain ⟨l, n, i, hne, hres, hi, rfl, rfl⟩ := fopenRead_ok hopen
      obtain ⟨hnoSocket, hino⟩ := opened_eq_ok.mp hi
      have hs : (openStream w₁.os i).2.streams[w₁.os.streams.length]? =
          some ⟨i, 0, false, false, false⟩ := by simp [openStream]
      have hn : statAt w suffixFile = some n := by
        rw [← hquiet.sameFiles.statAt]
        exact statAt_eq_some.mpr ⟨hne, l, hres⟩
      have hnode : w₁.os.fs.inode i = some n :=
        (FileSystem.node_of_ino hino).symm.trans (FileSystem.resolve_node hres)
      obtain ⟨status, w', hrun, hends⟩ := readSuffix_run suffixFile
        (w := (w₁.record (.fopenRead suffixFile) true).withOs (openStream w₁.os i).2) hs rfl
        (fun m hm => by rwa [← Option.some.inj (hnode.symm.trans hm)]) hready
      rw [hn, ← hnode]
      exact ⟨status, w', hrun, hends.after hopened⟩

/-- After a success the suffix fits its buffer and has no slash in it: a name with it is still a
name. -/
theorem installSuffixSanitize_spec (text : Text) :
    (installSuffixSanitize ('.' :: text)).head? = some '.' ∧
      (installSuffixSanitize ('.' :: text)).length ≤ text.length + 1 ∧
      (∀ c ∈ installSuffixSanitize ('.' :: text), isSuffixChar c = true) ∧
      '/' ∉ installSuffixSanitize ('.' :: text) := by
  have hchars : ∀ c ∈ installSuffixSanitize ('.' :: text), isSuffixChar c = true :=
    fun c hc => List.mem_takeWhile_imp hc
  refine ⟨rfl, ?_, hchars, fun hslash => ?_⟩
  · exact (List.takeWhile_sublist _).length_le
  · exact absurd (hchars '/' hslash) (by decide)

/-- `install_init` returns whatever the calls do, and changes no file. Its success gives a suffix that
begins with a dot, fits its buffer and has no slash in it. Undisturbed, it succeeds exactly if the fake
root is a directory, if one is set, and the suffix file is no directory, no socket and not empty. -/
theorem installInit_spec (suffixFile : Text) (w : World) :
    ∃ status w', installInit suffixFile w = (.ok status, w') ∧
      InitEnds w (RootReady w) (statAt w suffixFile) status w' ∧
      (status.status = .ok → w'.globals.fakeRoot = w.globals.fakeRoot ∧
        w'.globals.dlibSuffix.head? = some '.' ∧ w'.globals.dlibSuffix.length < suffixSize ∧
        (∀ c ∈ w'.globals.dlibSuffix, isSuffixChar c = true) ∧ '/' ∉ w'.globals.dlibSuffix) ∧
      (Undisturbed w.env → (status.status = .ok ↔ RootReady w ∧
        ∃ n, statAt w suffixFile = some n ∧ sIsdir n.stMode = false ∧ sIssock n.stMode = false ∧
          n.data ≠ [])) := by
  obtain ⟨status, w', hrun, hends⟩ := installInit_run suffixFile w
  refine ⟨status, w', hrun, hends, fun hok => ?_, fun hcalm => ⟨fun hok => ?_, ?_⟩⟩
  · obtain ⟨-, n, text, -, htext, hglobals⟩ := hends.success hok
    obtain ⟨hdot, hlen, hchars, hslash⟩ := installSuffixSanitize_spec text
    rw [hglobals]
    refine ⟨rfl, hdot, lt_of_le_of_lt hlen ?_, hchars, hslash⟩
    have hfits := htext.fits
    have hsize : suffixSize = 16 := rfl
    omega
  · obtain ⟨hready, n, text, hn, htext, -⟩ := hends.success hok
    refine ⟨hready, n, hn, htext.file, htext.noSocket, fun hempty => htext.ne ?_⟩
    rw [htext.calm hcalm, hempty, List.take_nil]
  · rintro ⟨hready, n, hn, hfile, hnoSocket, hdata⟩
    exact hends.calm hcalm hready n hn hfile hnoSocket hdata

end Init

/-! ## The start of a tool -/

/-- The world with the fake root that a tool sets. -/
def World.rooted (w : World) (root : Text) : World :=
  if root = [] then w else { w with globals := { w.globals with fakeRoot := some root } }

/-- The file with the suffix of libraries. -/
def confSosuffix : Text := ['c', 'o', 'n', 'f', '-', 's', 'o', 's', 'u', 'f', 'f', 'i', 'x']

theorem initTool_rooted (root : Text) (w : World) :
    initTool root w = installInit confSosuffix (w.rooted root) := by
  unfold initTool World.rooted
  by_cases hroot : root = []
  · rw [if_neg (not_not.mpr hroot), if_pos hroot]
    rfl
  · rw [if_pos hroot, if_neg hroot, modify_bind_apply]
    rfl

theorem World.rooted_untouched (w : World) (root : Text) : Untouched w (w.rooted root) := by
  unfold World.rooted
  split <;> exact ⟨⟨rfl, rfl⟩, rfl, rfl⟩

end CStringVerified.Install
