import CStringVerified.Install.Proofs.RecheckProofs
import CStringVerified.Install.Proofs.ReturnProofs

/-!
# Calls that are not refused

Where no call is refused, `install` fails only for reasons that can be seen before it is called: a file is
copied, a link or a directory is made, exactly if that is granted (`install_succeeds_iff`).
-/

namespace CStringVerified.Install

open Foundation Foundation.Run

/-! ## The copy loop -/

/-- Two open streams of files that can be read and written. -/
structure Flowing (si ti : Nat) (fdSrc fdDst : Handle) (w : World) : Prop where
  calm : Undisturbed w.env
  src : ∃ s, w.os.streams[fdSrc]? = some s ∧ s.ino = si ∧ s.err = false
  dst : ∃ s, w.os.streams[fdDst]? = some s ∧ s.ino = ti
  source : ∃ n, w.os.fs.inode si = some n ∧ sIsdir n.stMode = false
  target : ∃ n, w.os.fs.inode ti = some n

section Loop

variable {w w' : World} {si ti : Nat} {fdSrc fdDst : Handle} {text : Text} {message : Option String}

theorem crash_ne_ok {α β : Type} {c : Crash} (_ : β) (w : World) (a : α) (w' : World) :
    (crash c : Sys α) w ≠ (.ok a, w') := by
  intro h
  cases h

theorem Flowing.fread (h : Flowing si ti fdSrc fdDst w) (hne : fdSrc ≠ fdDst) {size : Nat}
    (hrun : fread fdSrc size w = (.ok text, w')) : Flowing si ti fdSrc fdDst w' := by
  obtain ⟨s, hs, rfl, herr⟩ := h.src
  obtain ⟨n, hn, hfile⟩ := h.source
  have hlt : fdSrc < w.os.streams.length := (List.getElem?_eq_some_iff.mp hs).1
  rcases fread_run size hs with ⟨m, -, -, -, hread⟩ | ⟨e, hwhy, -⟩
  · rw [hread] at hrun
    cases hrun
    obtain ⟨d, hd, hino⟩ := h.dst
    exact ⟨h.calm, ⟨_, List.getElem?_set_self hlt, rfl, herr⟩,
      ⟨d, (List.getElem?_set_ne hne).trans hd, hino⟩, ⟨n, hn, hfile⟩, h.target⟩
  · rw [hwhy (h.calm w.tick).1 n hn] at hfile
    cases hfile

theorem Flowing.fwrite (h : Flowing si ti fdSrc fdDst w) :
    ∃ w', fwrite text fdDst w = (.ok (w.transfer text.length), w') ∧ Flowing si ti fdSrc fdDst w' := by
  obtain ⟨s, hs, rfl⟩ := h.dst
  obtain ⟨n, hn⟩ := h.target
  rcases fwrite_run text hs with ⟨m, -, hm, hwrite⟩ | ⟨e, hwhy, -⟩
  · refine ⟨_, hwrite, h.calm, h.src, ⟨s, hs, rfl⟩, ?_, _, FileSystem.inode_set_self hm _⟩
    obtain ⟨k, hk, hfile⟩ := h.source
    by_cases hsame : s.ino = si
    · rw [hsame] at hm
      obtain rfl := Option.some.inj (hk.symm.trans hm)
      refine ⟨k.withData (k.data ++ text.take (w.transfer text.length)), ?_,
        (sameType_withData k _).isdir.trans hfile⟩
      rw [hsame]
      exact FileSystem.inode_set_self hk _
    · exact ⟨k, (FileSystem.inode_set_ne hsame _).trans hk, hfile⟩
  · rw [hwhy (h.calm w.tick).1] at hn
    cases hn

theorem Flowing.writeRound (h : Flowing si ti fdSrc fdDst w) {r : Text ⊕ Option String}
    (hrun : writeRound fdDst text w = (.ok r, w')) :
    Flowing si ti fdSrc fdDst w' ∧ ∀ message, r = .inr message → message = none := by
  unfold Install.writeRound at hrun
  by_cases hnil : text = []
  · rw [if_pos hnil] at hrun
    cases hrun
    exact ⟨h, fun message hmessage => (Sum.inr.inj hmessage).symm⟩
  · obtain ⟨w₁, hwrite, hflowing⟩ := h.fwrite
    have hpos : w.transfer text.length ≠ 0 := (transfer_pos (List.length_pos_iff.mpr hnil) w).ne'
    rw [if_neg hnil, bind_ok hwrite, if_neg hpos] at hrun
    cases hrun
    exact ⟨hflowing, nofun⟩

theorem Flowing.writeLoop (h : Flowing si ti fdSrc fdDst w) {fuel : Nat}
    (hrun : Run.loop (Install.writeRound fdDst) (fun _ => crash .diverges) fuel text w =
      (.ok message, w')) : Flowing si ti fdSrc fdDst w' ∧ message = none := by
  refine loop_ok (fun _ u => Flowing si ti fdSrc fdDst u)
    (fun message u => Flowing si ti fdSrc fdDst u ∧ message = none)
    (fun b u b' u' hu hb => (hu.writeRound hb).1) (fun b u message u' hu hb => ?_) crash_ne_ok h hrun
  obtain ⟨hflowing, hnone⟩ := hu.writeRound hb
  exact ⟨hflowing, hnone message rfl⟩

theorem Flowing.copyRound (h : Flowing si ti fdSrc fdDst w) (hne : fdSrc ≠ fdDst)
    {r : Unit ⊕ Option String} (hrun : copyRound fdSrc fdDst () w = (.ok r, w')) :
    Flowing si ti fdSrc fdDst w' ∧ ∀ message, r = .inr message → message = none := by
  obtain ⟨block, w₁, hread, hnext⟩ := bind_eq_ok hrun
  have h₁ := h.fread hne hread
  by_cases hnil : block = []
  · obtain ⟨s, hs, -, herr⟩ := h₁.src
    rw [if_pos hnil, bind_ok (feof_apply hs)] at hnext
    cases heof : s.eof with
    | true =>
      rw [heof, if_pos rfl] at hnext
      cases hnext
      exact ⟨h₁, fun message hmessage => (Sum.inr.inj hmessage).symm⟩
    | false =>
      rw [heof, if_neg Bool.false_ne_true, bind_ok (ferror_apply hs), herr,
        if_neg Bool.false_ne_true] at hnext
      cases hnext
      exact ⟨h₁, nofun⟩
  · rw [if_neg hnil] at hnext
    obtain ⟨written, w₂, hwrite, hend⟩ := bind_eq_ok hnext
    obtain ⟨h₂, rfl⟩ := h₁.writeLoop hwrite
    cases hend
    exact ⟨h₂, nofun⟩

/-- Undisturbed, the copy loop meets no error. -/
theorem Flowing.copyLoop (h : Flowing si ti fdSrc fdDst w) (hne : fdSrc ≠ fdDst)
    (hrun : copyLoop fdSrc fdDst w = (.ok message, w')) : message = none := by
  obtain ⟨n, w₁, hlength, hloop⟩ := bind_eq_ok hrun
  obtain ⟨s, hs, -, -⟩ := h.src
  obtain rfl : w₁ = w := by
    unfold fileLength at hlength
    rw [bind_ok (stream_apply hs)] at hlength
    cases hlength
    rfl
  exact loop_ok (fun _ u => Flowing si ti fdSrc fdDst u) (fun message _ => message = none)
    (fun b u b' u' hu hb => (hu.copyRound hne hb).1)
    (fun b u message u' hu hb => (hu.copyRound hne hb).2 message rfl) crash_ne_ok h hloop

end Loop

/-! ## The steps after the loop -/

section Steps

variable {w w' w₂ : World} {src dst tmp : Text} {uid gid : Id} {mode : Mode} {fdSrc fdDst : Handle}
  {ls lt : Loc} {s n : Node} {si ti : Nat} {fs : FileSystem}

theorem BothOpen.flowing (h : BothOpen src dst w ls s si ti fs w₂)
    (hopened : Opened fs (Foundation.route w.os.cwd (tmpName dst)) ti lt n) (hcalm : Undisturbed w.env)
    (hfile : sIsdir s.stMode = false) :
    Flowing si ti w.os.streams.length (w.os.streams.length + 1) w₂ := by
  obtain ⟨s', hs', -, htype⟩ := h.source_emptied
  refine ⟨?_, ⟨_, h.stream_src, rfl, rfl⟩, ⟨_, h.stream_dst, rfl⟩, ⟨s', ?_, htype.trans hfile⟩, n, ?_⟩
  · rw [h.env]
    exact hcalm
  · rw [h.files]
    exact hs'
  · rw [h.files]
    exact hopened.inode

theorem some_ne_none {message : String} :
    ¬∃ w', ((.ok (some message), w) : Except Crash (Option String) × World) = (.ok none, w') := by
  rintro ⟨w', h⟩
  cases h

/-- Undisturbed, a file that is complete and has its mode can be handed over by the superuser alone. -/
theorem copyOwnership_calm_iff {w₀ : World} (hcalm : Undisturbed w₀.env)
    (hvalid : iposixUidValid w₀.env.uid = true) (htmp : tmp ≠ [])
    (hopened : Opened w₀.os.fs (Foundation.route w₀.os.cwd tmp) ti lt n) (htype : n.SameType s)
    (h : Wrote w₀ ti s w) :
    (∃ w', copyOwnership tmp w₀.env.uid uid gid (pure none) w = (.ok none, w')) ↔
      w₀.env.uid = uid ∨ w₀.env.uid = 0 := by
  obtain ⟨hres, hino⟩ := h.opened hopened htype
  rw [← h.cwd] at hres
  rw [copyOwnership_apply hvalid]
  by_cases hsame : w₀.env.uid = uid
  · rw [if_pos hsame]
    exact iff_of_true ⟨_, rfl⟩ (Or.inl hsame)
  · rw [if_neg hsame, or_iff_right hsame]
    by_cases hroot : w₀.env.uid = 0
    · rw [if_pos hroot]
      refine iff_of_true ?_ hroot
      rcases iposixFileOwnershipSet_run uid gid htmp hres hino (by rw [h.env]; exact hroot) with
        ⟨-, hchown⟩ | ⟨e, hfault, -⟩
      · rw [step_true (condition_apply (p := fun r : Int => r ≠ 0) hchown (by decide))]
        exact ⟨_, rfl⟩
      · rw [h.env, (hcalm w.tick).1] at hfault
        exact absurd rfl hfault
    · rw [if_neg hroot]
      exact iff_of_false some_ne_none hroot

/-- Undisturbed, the file is written if the source is no directory, and the mode and the owner can be
set. -/
theorem BothOpen.written_iff (h : BothOpen src dst w ls s si ti fs w₂)
    (hopened : Opened fs (Foundation.route w.os.cwd (tmpName dst)) ti lt n) (hcalm : Undisturbed w.env)
    (hvalid : iposixUidValid w.env.uid = true) (uid gid : Id) (mode : Mode) :
    (∃ w₃, copyWritten (tmpName dst) w.env.uid uid gid mode w.os.streams.length
        (w.os.streams.length + 1) w₂ = (.ok none, w₃)) ↔
      sIsdir s.stMode = false ∧ MayChange w.env n ∧ (w.env.uid = uid ∨ w.env.uid = 0) := by
  obtain ⟨s', hs', hdata, htype⟩ := h.source_emptied
  have hstreams : w.os.streams.length ≠ w.os.streams.length + 1 := Nat.ne_of_lt (Nat.lt_succ_self _)
  rw [← h.files] at hs' hopened
  rw [← h.cwd] at hopened
  obtain ⟨message, w₃, m, hloop, hwrote, -, hall⟩ := @copyLoop_run w₂ uid gid mode _ _ si ti s' n _
    hstreams hs' hdata hopened.inode hopened.empty h.stream_src h.stream_dst
  unfold copyWritten
  cases message with
  | some message =>
    rw [andThen_some hloop]
    refine iff_of_false some_ne_none fun hgranted => ?_
    rw [h.files, h.cwd] at hopened
    cases (h.flowing hopened hcalm hgranted.1).copyLoop hstreams hloop
  | none =>
    obtain ⟨rfl, hfile⟩ := hall rfl
    rw [htype] at hfile
    have hcalm₂ : Undisturbed w₂.env := by
      rw [h.env]
      exact hcalm
    obtain ⟨w₄, hflush, hpassed⟩ := fflush_passed (w.os.streams.length + 1) w₃
    rw [hwrote.env, if_pos (hcalm₂ w₃.tick).1] at hflush
    have hwrote₄ := hwrote.quiet (Frame.of_run (keeps_fflush fun _ _ => ⟨rfl, rfl⟩) hflush)
    have hmodes : iposixSupportsPosixModes = 1 := rfl
    rw [andThen_none hloop, step_true (condition_apply (p := fun r : Int => r = 0) hflush (by decide)),
      if_pos hmodes, and_iff_right hfile]
    obtain ⟨hres, hino⟩ := hwrote₄.opened hopened (sameType_withData n _)
    rw [← hwrote₄.cwd] at hres
    have hmay : MayChange w₄.env (n.withData (sourceData si ti s)) ↔ MayChange w.env n := by
      rw [MayChange, hwrote₄.env, h.env, stUid_withData]
      rfl
    rcases iposixFileModeSet_run mode (tmpName_ne_nil dst) hres hino with
      ⟨-, hcan, hchmod⟩ | ⟨e, hwhy, hchmod⟩
    · rw [step_true (condition_apply (p := fun r : Int => r ≠ 0) hchmod (by decide)),
        and_iff_right (hmay.mp hcan)]
      have htype := (sameType_withData n (sourceData si ti s)).trans (sameType_withPerm w₄.env mode _)
      have hvalid₂ : iposixUidValid w₂.env.uid = true := by rwa [h.env]
      have hwrote₅ := hwrote₄.set (.chmod (tmpName dst) mode)
        (w₄.env.withPerm mode (n.withData (sourceData si ti s)))
      rw [← h.env]
      exact copyOwnership_calm_iff hcalm₂ hvalid₂ (tmpName_ne_nil dst) hopened htype hwrote₅
    · rw [step_false (condition_apply (p := fun r : Int => r ≠ 0) hchmod (by decide))]
      refine iff_of_false some_ne_none fun hgranted => ?_
      rcases hwhy with hfault | hnot
      · rw [hwrote₄.env] at hfault
        exact hfault (hcalm₂ w₄.tick).1
      · exact hnot (hmay.mpr hgranted.1)

/-- Undisturbed, the streams are closed, and the file is renamed if it can be. -/
theorem copyClosing_calm (hcalm : Undisturbed w.env) (htmp : tmp ≠ []) (hdst : dst ≠ [])
    (hrename : w.os.fs.rename (Foundation.route w.os.cwd tmp) (Foundation.route w.os.cwd dst) = .ok fs)
    (fdSrc fdDst : Handle) : ∃ w', copyClosing dst tmp fdSrc fdDst w = (.ok none, w') := by
  obtain ⟨w₁, hclose, hpassed⟩ := fclose_passed fdDst w
  rw [if_pos (hcalm w.tick).1] at hclose
  have hcalm₁ : Undisturbed w₁.env := by
    rw [hpassed.env]
    exact hcalm
  obtain ⟨w₂, hclose', hpassed'⟩ := fclose_passed fdSrc w₁
  rw [if_pos (hcalm₁ w₁.tick).1] at hclose'
  have hcalm₂ : Undisturbed w₂.env := by
    rw [hpassed'.env]
    exact hcalm₁
  have hrun : rename tmp dst w₂ = (.ok 0, (w₂.record (.rename tmp dst) true).withOs
      { w₂.os with fs := fs }) := by
    refine fsCall_done (hcalm₂ w₂.tick).1 ?_
    rw [route_apply htmp, route_apply hdst, hpassed'.cwd, hpassed.cwd, hpassed'.fs, hpassed.fs]
    exact hrename
  unfold copyClosing
  rw [step_true (condition_apply (p := fun r : Int => r ≠ -1) hclose (by decide)),
    step_true (condition_apply (p := fun r : Int => r ≠ -1) hclose' (by decide)),
    step_true (condition_apply (p := fun r : Int => r ≠ -1) hrun (by decide))]
  exact ⟨_, rfl⟩

end Steps

/-! ## A file -/

/-- What a copy needs if nothing disturbs it: a source that can be read and is no directory, a temporary
file that can be emptied, be given its mode and replace the destination, and the right to hand it over. -/
structure CopyGranted (w : World) (src dst : Text) (uid : Id) : Prop where
  src_ne : src ≠ []
  dst_ne : dst ≠ []
  source : ∃ l s i, w.os.fs.resolve (Foundation.route w.os.cwd src) = .ok (l, some s) ∧
    w.opened l s = .ok i ∧ sIsdir s.stMode = false
  owner : w.env.uid = uid ∨ w.env.uid = 0
  tmp : ∃ i n fs, Renamed w dst i n fs ∧ MayChange w.env n

section Copy

variable {w w' w₁ : World} {t : Item} {src dst : Text} {uid gid : Id} {mode : Mode} {status : Status}

theorem CopyGranted.quiet (hq : Frame Quiet w w₁) : CopyGranted w₁ src dst uid ↔ CopyGranted w src dst uid := by
  have hsource : (∃ l s i, w₁.os.fs.resolve (Foundation.route w₁.os.cwd src) = .ok (l, some s) ∧
      w₁.opened l s = .ok i ∧ sIsdir s.stMode = false) ↔
      ∃ l s i, w.os.fs.resolve (Foundation.route w.os.cwd src) = .ok (l, some s) ∧
        w.opened l s = .ok i ∧ sIsdir s.stMode = false := by
    simp only [opened_quiet hq, hq.quiet_fs, hq.quiet_cwd]
  have htmp : (∃ i n fs, Renamed w₁ dst i n fs ∧ MayChange w₁.env n) ↔
      ∃ i n fs, Renamed w dst i n fs ∧ MayChange w.env n := by
    simp only [Renamed, emptied_quiet hq, hq.quiet_cwd, hq.env]
  constructor
  · rintro ⟨hsrc, hdst, h, howner, h'⟩
    rw [hq.env] at howner
    exact ⟨hsrc, hdst, hsource.mp h, howner, htmp.mp h'⟩
  · rintro ⟨hsrc, hdst, h, howner, h'⟩
    rw [← hq.env] at howner
    exact ⟨hsrc, hdst, hsource.mpr h, howner, htmp.mpr h'⟩

/-- A file that was copied was granted. -/
theorem copyGranted_of_ok (hcalm : Undisturbed w.env) (hvalid : iposixUidValid w.env.uid = true)
    (hrun : installFileCopy src dst uid gid mode w = (.ok status, w')) (hok : status.status = .ok) :
    CopyGranted w src dst uid := by
  obtain ⟨status', w'', hrun', hway⟩ := installFileCopy_run hvalid src dst uid gid mode
  obtain ⟨rfl, rfl⟩ := ok_unique hrun hrun'
  rw [hok] at hway
  obtain ⟨ls, lt, s, n, si, ti, fs, hcopied⟩ := hway.copied_ok hvalid
  obtain ⟨fs', hrename, -⟩ := hcopied.renamed
  cases hway with
  | copied hlen hread hwrite hwritten hclosing =>
    obtain ⟨rfl, rfl, ls', s', si', ti', fs'', hopen⟩ := bothOpen hread hwrite
    cases hcopied.source.symm.trans hopen.source
    cases hcopied.tmp.symm.trans hopen.tmp
    obtain ⟨hfile, hmay, howner⟩ :=
      (hopen.written_iff hcopied.opened hcalm hvalid uid gid mode).mp ⟨_, hwritten⟩
    exact ⟨hopen.src_ne, hcopied.dst_ne, ⟨ls, s, si, hopen.source, hcopied.source_opened, hfile⟩, howner,
      ti, n, fs', ⟨fs, lt, hcopied.tmp, hcopied.opened.resolve, hrename⟩, hmay⟩

/-- A file that is granted is copied. -/
theorem CopyGranted.copied (h : CopyGranted w src dst uid) (hcalm : Undisturbed w.env)
    (hlen : dst.length < installMaxPathlen) (hvalid : iposixUidValid w.env.uid = true) (gid : Id)
    (mode : Mode) : ∃ status w', installFileCopy src dst uid gid mode w = (.ok status, w') ∧
      status.status = .ok := by
  obtain ⟨hsrc, hdst, ⟨ls, s, si, hsource, hsi, hfile⟩, howner, ti, n, fs', ⟨fs, lt, htmp, hres, hrename⟩,
    hmay⟩ := h
  have hmax : installMaxPathlen + 4 ≤ intMax := by decide
  have hlen' : dst.length + 4 ≤ intMax := by omega
  have hread := fopenRead_found (hcalm w.tick).1 hsrc hsource hsi
  have hwrite := fopenWrite_found (w := (w.record (.fopenRead src) true).withOs (openStream w.os si).2)
    (hcalm (w.tick + 1)).1 (tmpName_ne_nil dst) htmp
  obtain ⟨-, hhandle, ls', s', si', ti', fs'', hopen⟩ := bothOpen hread hwrite
  rw [hhandle] at hwrite
  cases hsource.symm.trans hopen.source
  cases htmp.symm.trans hopen.tmp
  obtain ⟨lt', n', hopened⟩ := hopen.tmp_opened
  cases hres.symm.trans hopened.resolve
  obtain ⟨w₃, hwritten⟩ :=
    (hopen.written_iff hopened hcalm hvalid uid gid mode).mpr ⟨hfile, hmay, howner⟩
  obtain ⟨message, w₃', m, hrun, hwrote, -, hall⟩ := hopen.written hopened hvalid uid gid mode
  obtain ⟨rfl, rfl⟩ := ok_unique hwritten hrun
  obtain rfl := hall rfl
  -- The file that was written can replace the destination as the empty one could.
  have htype := ((sameType_withData n (sourceData si' ti s)).trans
    (sameType_withPerm w.env mode _)).trans (sameType_handedOver w.env uid gid _)
  have hcalm₃ : Undisturbed w₃.env := by
    rw [hwrote.env, hopen.env]
    exact hcalm
  have hrename₃ := FileSystem.rename_set (p := Foundation.route w.os.cwd (tmpName dst))
    (q := Foundation.route w.os.cwd dst) hopened.inode htype hopened.link
  rw [hrename, ← hopen.files, ← hwrote.fs, ← hopen.cwd, ← hwrote.cwd] at hrename₃
  obtain ⟨w₄, hclosing⟩ := copyClosing_calm hcalm₃ (tmpName_ne_nil dst) hdst hrename₃
    w.os.streams.length (w.os.streams.length + 1)
  have hsteps := copySteps_eq dst (tmpName dst) w.env.uid uid gid mode w.os.streams.length
    (w.os.streams.length + 1)
  have hcopied := installFileCopy_copied hvalid hlen' hread hwrite
    ((congrFun hsteps _).trans ((andThen_none hwritten).trans hclosing))
  exact ⟨_, w₄, hcopied, rfl⟩

end Copy

/-! ## A link -/

/-- The process can tell where it is: in a directory, with a pathname that fits. -/
structure Home (w : World) : Prop where
  reached : Reachable w.os.cwd w
  fits : (render w.os.cwd).length < installMaxPathlen

/-- What a link needs if nothing disturbs it: a way there and back, and a free place in a directory. -/
structure LinkGranted (w : World) (src dir dst : Text) : Prop where
  home : Home w
  src_ne : src ≠ []
  dst_ne : dst ≠ []
  slash : endsSlash dst = false
  place : ∃ mid l d, LeadsTo w dir mid ∧ w.os.fs.find (Foundation.route mid dst) = .ok (l, none) ∧
    w.os.fs.node l.dropLast = some d

section Link

variable {w w' w₁ : World} {t : Item} {path src dir dst : Text} {mid l : Loc} {d : Node} {status : Status}

theorem sysCall_done {α : Type} {call : Call} {f : World → Except Errno (α × Os)} {a : α} {os : Os}
    (hfault : w.env.faults w.tick = none) (hf : f w = .ok (a, os)) :
    sysCall call f w = (.ok (some a), (w.record call true).withOs os) := by
  unfold sysCall
  rw [hfault]
  dsimp only
  rw [hf]

/-- Undisturbed, the process gets into a directory. -/
theorem chdir_done (hcalm : Undisturbed w.env) (h : LeadsTo w path l) :
    ∃ w', chdir path w = (.ok 0, w') ∧ w'.env = w.env ∧ w'.os = { w.os with cwd := l } := by
  obtain ⟨hne, n, hres, hdir⟩ := h
  have hrun : chdir path w = (.ok 0, (w.record (.chdir path) true).withOs { w.os with cwd := l }) := by
    refine bind_ok (sysCall_done (a := ()) (hcalm w.tick).1 ?_)
    simp only [route_apply hne, bind, Except.bind, hres, hdir, if_true]
    rfl
  exact ⟨_, hrun, rfl, rfl⟩

theorem Reachable.leadsTo {cwd : Loc} (h : Reachable cwd w) : LeadsTo w (render cwd) cwd := by
  obtain ⟨n, hfind, hdir⟩ := h
  exact ⟨by cases cwd <;> simp [render], n, FileSystem.resolve_render hfind hdir w.os.cwd, hdir⟩

theorem getcwd_ok (h : getcwd installMaxPathlen w = (.ok (some path), w')) :
    path = render w.os.cwd ∧ Home w := by
  obtain ⟨os, hf, -⟩ := sysCall_some h
  split at hf
  · rename_i loc n hfind
    split at hf
    · cases hf
    · rename_i hcond
      rw [not_or, not_ne_iff] at hcond
      obtain ⟨rfl, hdir⟩ := hcond
      split at hf
      · cases hf
      · rename_i hfits
        cases hf
        exact ⟨rfl, ⟨n, hfind, by simpa using hdir⟩, by omega⟩
  · cases hf

theorem getcwd_done (hcalm : Undisturbed w.env) (h : Home w) :
    ∃ w', getcwd installMaxPathlen w = (.ok (some (render w.os.cwd)), w') ∧ w'.env = w.env ∧
      w'.os = w.os := by
  obtain ⟨⟨n, hfind, hdir⟩, hfits⟩ := h
  have hrun : getcwd installMaxPathlen w =
      (.ok (some (render w.os.cwd)), (w.record .getcwd true).withOs w.os) := by
    refine sysCall_done (hcalm w.tick).1 ?_
    rw [hfind]
    dsimp only
    rw [if_neg (by simp [hdir]), if_neg (by omega)]
  exact ⟨_, hrun, rfl, rfl⟩

theorem makeLink_run {r : Int} (hsrc : t.src = some src) (hdst : t.dst = some dst)
    (h : symlink src dst w = (.ok r, w')) :
    makeLink t 0 w = (.ok (if r = -1 then 0 else 1), w') := by
  unfold makeLink
  rw [if_pos (show notDryrun 0 = true from rfl), hsrc, hdst]
  simp only [deref, pure_bind_apply]
  exact bind_ok h

/-- `inst_link` goes to the directory, where the link is made, and comes back. -/
theorem instLink_round (hcalm : Undisturbed w.env) (hhome : Home w) (hdir : t.dir = some dir)
    (hleads : LeadsTo w dir mid) :
    ∃ v, v.env = w.env ∧ v.os = { w.os with cwd := mid } ∧
      ∀ linked v', makeLink t 0 v = (.ok linked, v') → v'.env = w.env → Reachable w.os.cwd v' →
        ∃ status w', instLink t 0 w = (.ok status, w') ∧
          status.status = (if linked = 0 then .error else .ok) ∧
          w'.os = { v'.os with cwd := w.os.cwd } := by
  obtain ⟨v₁, hget, henv₁, hos₁⟩ := getcwd_done hcalm hhome
  have hcalm₁ : Undisturbed v₁.env := by
    rw [henv₁]
    exact hcalm
  have hleads₁ : LeadsTo v₁ dir mid := by
    unfold LeadsTo
    rw [hos₁]
    exact hleads
  obtain ⟨v, hwent, henv, hos⟩ := chdir_done hcalm₁ hleads₁
  refine ⟨v, henv.trans henv₁, by rw [hos, hos₁], fun linked v' hmake henv' hback => ?_⟩
  have hcalm' : Undisturbed v'.env := by
    rw [henv']
    exact hcalm
  obtain ⟨w', hreturn, -, hos'⟩ := chdir_done hcalm' hback.leadsTo
  have hrun : instLink t 0 w =
      (if linked = 0 then statusError "could not make symbolic link" else statusOk) w' := by
    unfold instLink
    rw [bind_ok hget, hdir]
    simp only [deref, pure_bind_apply]
    rw [bind_ok hwent, if_neg (by decide), bind_ok hmake, bind_ok hreturn, if_neg (by decide)]
  rw [hrun]
  split
  · exact ⟨_, w', rfl, rfl, hos'⟩
  · exact ⟨_, w', rfl, rfl, hos'⟩

theorem symlink_done (hcalm : Undisturbed w.env) (hsrc : src ≠ []) (hdst : dst ≠ [])
    (hslash : endsSlash dst = false) (hfind : w.os.fs.find (Foundation.route w.os.cwd dst) = .ok (l, none))
    (hd : w.os.fs.node l.dropLast = some d) :
    ∃ w', symlink src dst w = (.ok 0, w') ∧ w'.env = w.env ∧
      w'.os = { w.os with fs := w.os.fs.put l (w.env.newLink src d) } := by
  have hrun : symlink src dst w = (.ok 0, (w.record (.symlink src dst) true).withOs { w.os with
      fs := w.os.fs.put l (w.env.newLink src d) }) := by
    refine fsCall_done (hcalm w.tick).1 ?_
    have hroute : (Foundation.route w.os.cwd dst).slash = false := hslash
    simp only [route_apply hdst, bind, Except.bind, if_neg hsrc, FileSystem.create, hfind, hd, hroute,
      Bool.false_and, Bool.false_eq_true, if_false]
  exact ⟨_, hrun, rfl, rfl⟩

theorem instLink_granted (h : instLink t 0 w = (.ok status, w')) (hok : status.status = .ok) :
    ∃ src dir dst, t.src = some src ∧ t.dir = some dir ∧ t.dst = some dst ∧
      LinkGranted w src dir dst := by
  obtain ⟨src, dir, dst, mid, l, d, hsrc, hdir, hdst, hlinked⟩ := instLink_ok h hok
  obtain ⟨pathBuf, w₁, hget, hgot⟩ := bind_eq_ok h
  cases pathBuf with
  | none =>
    cases hgot
    cases hok
  | some path =>
    obtain ⟨-, hhome⟩ := getcwd_ok hget
    exact ⟨src, dir, dst, hsrc, hdir, hdst, hhome, hlinked.src_ne, hlinked.dst_ne, hlinked.slash, mid, l, d,
      hlinked.leads, hlinked.place, hlinked.above⟩

theorem instLink_grants (hcalm : Undisturbed w.env) (hsrc : t.src = some src) (hdir : t.dir = some dir)
    (hdst : t.dst = some dst) (h : LinkGranted w src dir dst) :
    ∃ status w', instLink t 0 w = (.ok status, w') ∧ status.status = .ok := by
  obtain ⟨hhome, hsrc_ne, hdst_ne, hslash, mid, l, d, hleads, hfind, hd⟩ := h
  obtain ⟨v, henv, hos, hround⟩ := instLink_round hcalm hhome hdir hleads
  obtain ⟨v', hsym, henv', hos'⟩ : ∃ v', symlink src dst v = (.ok 0, v') ∧ v'.env = v.env ∧
      v'.os = { v.os with fs := v.os.fs.put l (v.env.newLink src d) } := by
    refine symlink_done ?_ hsrc_ne hdst_ne hslash ?_ ?_
    · rw [henv]
      exact hcalm
    · rw [hos]
      exact hfind
    · rw [hos]
      exact hd
  have hmake : makeLink t 0 v = (.ok 1, v') := makeLink_run hsrc hdst hsym
  obtain ⟨home, hhere, hhomedir⟩ := hhome.reached
  have hback : Reachable w.os.cwd v' := by
    refine ⟨home, ?_, hhomedir⟩
    rw [hos', hos]
    exact (FileSystem.grows_put (FileSystem.find_node hfind) _).find hhere
  obtain ⟨status, w', hrun, hstatus, -⟩ := hround 1 v' hmake (henv'.trans henv) hback
  exact ⟨status, w', hrun, hstatus⟩

theorem LinkGranted.sameFiles (h : LinkGranted w₁ src dir dst) (hfiles : SameFiles w w₁) :
    LinkGranted w src dir dst := by
  obtain ⟨⟨hreached, hfits⟩, hsrc, hdst, hslash, hplace⟩ := h
  unfold Reachable at hreached
  unfold LeadsTo at hplace
  simp only [hfiles.1, hfiles.2] at hreached hfits hplace
  exact ⟨⟨hreached, hfits⟩, hsrc, hdst, hslash, hplace⟩

end Link

/-! ## A directory -/

/-- What a directory needs if nothing disturbs it: a pathname that fits, and the right to hand over what
it leads to once the missing directories are made. -/
structure MkdirGranted (w : World) (dir : Text) (perm : Mode) (uid : Id) : Prop where
  fits : dir.length < installMaxPathlen
  owner : w.env.uid = uid ∨ w.env.uid = 0 ∧ ∃ m, Becomes w dir perm m

section Mkdir

variable {w : World} {t : Item} {dir : Text} {uid gid : Id}

/-- Only the files and the process count. -/
theorem MkdirGranted.withErrno {perm : Mode} {e : Errno} :
    MkdirGranted (w.withErrno e) dir perm uid ↔ MkdirGranted w dir perm uid :=
  ⟨fun ⟨fits, owner⟩ => ⟨fits, owner⟩, fun ⟨fits, owner⟩ => ⟨fits, owner⟩⟩

theorem iposixCanSetOwnership_root {id : Id} (hroot : id = 0) (w : World) :
    iposixCanSetOwnership id w = (.ok 1, w) := by
  rw [hroot]
  rfl

/-- Undisturbed, what is there is handed over. -/
theorem mkdirOwnership_done (hcalm : Undisturbed w.env)
    (howner : w.env.uid = uid ∨ w.env.uid = 0 ∧ ∃ m, statAt w dir = some m) :
    ∃ status w', mkdirOwnership dir w.env.uid uid gid w = (.ok status, w') ∧ status.status = .ok := by
  unfold mkdirOwnership
  by_cases huid : w.env.uid = uid
  · have hsame : iposixUidCompare w.env.uid uid = 1 := if_pos huid
    rw [if_neg (by rw [hsame]; decide)]
    exact ⟨_, w, rfl, rfl⟩
  · have hother : iposixUidCompare w.env.uid uid = 0 := if_neg huid
    obtain ⟨hroot, m, hm⟩ := howner.resolve_left huid
    obtain ⟨hne, l, hres⟩ := statAt_eq_some.mp hm
    obtain ⟨i, hi, -⟩ := FileSystem.ino_of_node (FileSystem.resolve_node hres)
    rw [if_pos hother, bind_ok (iposixCanSetOwnership_root hroot w), if_pos rfl]
    rcases iposixFileOwnershipSet_run uid gid hne hres hi hroot with ⟨-, hchown⟩ | ⟨e, hfault, -⟩
    · rw [bind_ok hchown]
      exact ⟨_, _, rfl, rfl⟩
    · exact absurd (hcalm w.tick).1 hfault

/-- A pathname that does not fit makes no directory. -/
theorem instMkdir_long (hdir : t.dir = some dir) (hids : wantedIds w.env t = some (uid, gid))
    (hlen : ¬dir.length < installMaxPathlen) {status : Status} {w' : World}
    (h : instMkdir t 0 w = (.ok status, w')) : status.status = .error := by
  unfold instMkdir at h
  rw [withIds_found hids] at h
  split at h
  · cases h
  · obtain ⟨_, w₁, hcurrent, h⟩ := bind_eq_ok h
    cases hcurrent
    have hlong : installRmkdir dir t.perm w = (.ok 0, w.withErrno enametoolong) := by
      unfold installRmkdir
      rw [if_pos (Nat.le_of_not_lt hlen)]
      rfl
    dsimp only at h
    rw [if_pos (show notDryrun 0 = true from rfl), hdir] at h
    simp only [deref, pure_bind_apply] at h
    rw [bind_ok hlong, if_pos rfl] at h
    cases h
    rfl

/-- Undisturbed, `inst_mkdir` succeeds exactly if it is granted. -/
theorem instMkdir_calm_iff (hcalm : Undisturbed w.env) :
    (∃ status w', instMkdir t 0 w = (.ok status, w') ∧ status.status = .ok) ↔
      ∃ uid gid dir, wantedIds w.env t = some (uid, gid) ∧ ¬(uid = nullId ∨ gid = nullId) ∧
        t.dir = some dir ∧ MkdirGranted w dir t.perm uid := by
  constructor
  · rintro ⟨status, w', hrun, hok⟩
    obtain ⟨uid, gid, hids⟩ := withIds_known hrun hok
    cases hdir : t.dir with
    | none =>
      unfold instMkdir at hrun
      rw [withIds_found hids, hdir] at hrun
      split at hrun
      · cases hrun
      · cases hrun
    | some dir =>
      have hlen : dir.length < installMaxPathlen := by
        by_contra hlong
        have herror := instMkdir_long hdir hids hlong hrun
        rw [hok] at herror
        cases herror
      obtain ⟨hvalid, w₁, -, hmade, hown⟩ := instMkdir_steps hdir hids hlen rfl hrun
      refine ⟨uid, gid, dir, hids, hvalid, rfl, hlen, ?_⟩
      rw [← hmade.env]
      rcases mkdirOwnership_cases hown hok with ⟨huid, -⟩ | ⟨huid, r, hr, hset⟩
      · exact Or.inl huid
      · obtain ⟨hroot, hne, l, i, n, hres, -⟩ := iposixFileOwnershipSet_ok hr hset
        exact Or.inr ⟨hroot, n, hmade.statAt_iff.mp (statAt_eq_some.mpr ⟨hne, l, hres⟩)⟩
  · rintro ⟨uid, gid, dir, hids, hvalid, hdir, hlen, howner⟩
    obtain ⟨w₁, hmkdir, hmade⟩ := installRmkdir_run hlen t.perm w
    have hcurrent : iposixUidCurrent w = (.ok (some w.env.uid), w) := rfl
    have hrun : instMkdir t 0 w = mkdirOwnership dir w₁.env.uid uid gid w₁ := by
      unfold instMkdir
      rw [withIds_found hids, if_neg hvalid, bind_ok hcurrent]
      dsimp only
      rw [if_pos (show notDryrun 0 = true from rfl), hdir]
      simp only [deref, pure_bind_apply]
      rw [bind_ok hmkdir, if_neg (by decide), hmade.env]
    rw [hrun]
    refine mkdirOwnership_done ?_ ?_
    · rw [hmade.env]
      exact hcalm
    · rw [hmade.env]
      rcases howner with huid | ⟨hroot, m, hm⟩
      · exact Or.inl huid
      · exact Or.inr ⟨hroot, m, hmade.statAt_iff.mpr hm⟩

end Mkdir

/-! ## Items -/

/-- What a translated item needs if nothing disturbs it. -/
def ItemGranted (w : World) (op : InstallOp) (t : Item) : Prop :=
  match wantedType op with
  | .symlink => ∃ src dir dst, t.src = some src ∧ t.dir = some dir ∧ t.dst = some dst ∧
      LinkGranted w src dir dst
  | .directory => ∃ uid gid dir, wantedIds w.env t = some (uid, gid) ∧ ¬(uid = nullId ∨ gid = nullId) ∧
      t.dir = some dir ∧ MkdirGranted w dir t.perm uid
  | _ => ∃ uid gid src dst, wantedIds w.env t = some (uid, gid) ∧ ¬(uid = nullId ∨ gid = nullId) ∧
      iposixUidValid w.env.uid = true ∧ t.src = some src ∧ t.dst = some dst ∧ CopyGranted w src dst uid

section Items

variable {w w' w₁ : World} {op : InstallOp} {item t : Item} {src dst : Text} {uid gid : Id}
  {status : Status}

/-- `inst_copy` asks for the size of the source, and copies. -/
theorem instCopy_calls (hids : wantedIds w.env t = some (uid, gid)) (hvalid : ¬(uid = nullId ∨ gid = nullId))
    (hsrc : t.src = some src) (hdst : t.dst = some dst) : ∃ w₁, Frame Quiet w w₁ ∧
      instCopy t 0 w = (installFileCopy src dst uid gid t.perm >>= fun status =>
        if status.status ≠ .ok then pure status else statusOk) w₁ := by
  obtain ⟨size, w₁, hsize⟩ : Returns (iposixFileSize src) w :=
    (returns_query _ _).bind fun _ _ _ => returns_pure _
  refine ⟨w₁, Frame.of_run (keeps_iposixFileSize fun _ _ => ⟨rfl, rfl⟩) hsize, ?_⟩
  unfold instCopy
  rw [withIds_found hids, if_neg hvalid, hsrc, hdst]
  simp only [deref, pure_bind_apply]
  rw [bind_ok hsize, if_pos (show notDryrun 0 = true from rfl)]
  rfl

theorem instCopy_calm_iff (hcalm : Undisturbed w.env)
    (hlen : ∀ dst, t.dst = some dst → dst.length < installMaxPathlen) :
    (∃ status w', instCopy t 0 w = (.ok status, w') ∧ status.status = .ok) ↔
      ∃ uid gid src dst, wantedIds w.env t = some (uid, gid) ∧ ¬(uid = nullId ∨ gid = nullId) ∧
        iposixUidValid w.env.uid = true ∧ t.src = some src ∧ t.dst = some dst ∧
        CopyGranted w src dst uid := by
  constructor
  · rintro ⟨status, w', hrun, hok⟩
    obtain ⟨uid, gid, hids⟩ := withIds_known hrun hok
    obtain ⟨hvalid, src, dst, -, -, -, -, -, -, -, hsrc, hdst, -⟩ := instCopy_ok hids hrun hok
    obtain ⟨w₁, hq, hcalls⟩ := @instCopy_calls w t src dst uid gid hids hvalid hsrc hdst
    rw [hcalls] at hrun
    obtain ⟨status', w₂, hcopy, hend⟩ := bind_eq_ok hrun
    have hok' : status'.status = .ok := by
      by_contra hbad
      rw [if_pos hbad] at hend
      cases hend
      exact hbad hok
    have huid : iposixUidValid w₁.env.uid = true := by
      by_contra hbad
      rw [installFileCopy_invalid (Bool.eq_false_iff.mpr hbad)] at hcopy
      cases hcopy
    have hcalm₁ : Undisturbed w₁.env := by
      rw [hq.env]
      exact hcalm
    have hgranted := copyGranted_of_ok hcalm₁ huid hcopy hok'
    rw [hq.env] at huid
    exact ⟨uid, gid, src, dst, hids, hvalid, huid, hsrc, hdst, (CopyGranted.quiet hq).mp hgranted⟩
  · rintro ⟨uid, gid, src, dst, hids, hvalid, huid, hsrc, hdst, hgranted⟩
    obtain ⟨w₁, hq, hcalls⟩ := @instCopy_calls w t src dst uid gid hids hvalid hsrc hdst
    rw [← hq.env] at hcalm huid
    obtain ⟨status, w', hcopy, hok⟩ :=
      ((CopyGranted.quiet hq).mpr hgranted).copied hcalm (hlen dst hdst) huid gid t.perm
    refine ⟨⟨.ok, none, some w'.errno⟩, w', ?_, rfl⟩
    rw [hcalls, bind_ok hcopy, if_neg (not_not.mpr hok)]
    rfl

theorem instLink_calm_iff (hcalm : Undisturbed w.env) :
    (∃ status w', instLink t 0 w = (.ok status, w') ∧ status.status = .ok) ↔
      ∃ src dir dst, t.src = some src ∧ t.dir = some dir ∧ t.dst = some dst ∧
        LinkGranted w src dir dst := by
  constructor
  · rintro ⟨status, w', hrun, hok⟩
    exact instLink_granted hrun hok
  · rintro ⟨src, dir, dst, hsrc, hdir, hdst, hgranted⟩
    exact instLink_grants hcalm hsrc hdir hdst hgranted

/-- The translation of an item leaves all that it needs. -/
theorem itemGranted_translation
    (ht : (installOpers item.op).trans item (w.withErrno 0) = (.ok (.ok t), w₁)) :
    ItemGranted w₁ item.op t ↔ ItemGranted w item.op t := by
  have hq := quiet_of_trans (keeps_installTrans item) ht
  have hback : SameFiles w₁ w := ⟨hq.quiet_fs.symm, hq.quiet_cwd.symm⟩
  have hcopy : ∀ src dst uid, CopyGranted w₁ src dst uid ↔ CopyGranted w src dst uid :=
    fun src dst uid => CopyGranted.quiet hq
  have hlink : ∀ src dir dst, LinkGranted w₁ src dir dst ↔ LinkGranted w src dir dst := fun src dir dst =>
    ⟨fun h => h.sameFiles hq.sameFiles, fun h => h.sameFiles hback⟩
  unfold ItemGranted
  rcases wantedType_cases item.op with hop | hop | hop
  · simp only [hop, hq.env, hcopy]
  · rw [hop]
    cases hitem : item.op with
    | instMkdir =>
      rw [hitem] at ht
      obtain rfl := ntranMkdir_state ht
      simp only [MkdirGranted.withErrno, hq.env]
    | _ => rw [hitem] at hop; cases hop
  · simp only [hop, hlink]

/-- Undisturbed, an operator succeeds exactly if that is granted. -/
theorem oper_succeeds_iff (hcalm : Undisturbed w.env)
    (hlen : wantedType op = .file → ∀ dst, t.dst = some dst → dst.length < installMaxPathlen) :
    (∃ status w', (installOpers op).oper t 0 w = (.ok status, w') ∧ status.status = .ok) ↔
      ItemGranted w op t := by
  unfold ItemGranted
  cases op with
  | instCopy => exact instCopy_calm_iff hcalm (hlen rfl)
  | instCopyExec => exact instCopy_calm_iff hcalm (hlen rfl)
  | instSymlink => exact instLink_calm_iff hcalm
  | instLiblink => exact instLink_calm_iff hcalm
  | instMkdir => exact instMkdir_calm_iff hcalm

/-- What was installed was granted. -/
theorem itemGranted_of_installed (hcalm : Undisturbed w.env) (ht : translated installOpers w item = some t)
    (hrun : install item 0 w = (.ok status, w')) (hok : status.status = .ok) : ItemGranted w item.op t := by
  obtain ⟨w₁, w₂, htrans, hoper, hq, -⟩ := install_ok ht hrun
  rw [← hq.env] at hcalm
  have hlen := fun hfile dst => @translated_fits w item t dst hfile ht
  exact (itemGranted_translation htrans).mp ((oper_succeeds_iff hcalm hlen).mp ⟨status, w₂, hoper, hok⟩)

/-- Undisturbed, a translated item is installed exactly if that is granted. -/
theorem install_succeeds_iff (hcalm : Undisturbed w.env) (ht : translated installOpers w item = some t) :
    (∃ status w', install item 0 w = (.ok status, w') ∧ status.status = .ok) ↔
      ItemGranted w item.op t := by
  constructor
  · rintro ⟨status, w', hrun, hok⟩
    exact itemGranted_of_installed hcalm ht hrun hok
  · intro hgranted
    obtain ⟨w₁, htrans⟩ := translated_eq_some ht
    rw [← (quiet_of_trans (keeps_installTrans item) htrans).env] at hcalm
    have hlen := fun hfile dst => @translated_fits w item t dst hfile ht
    obtain ⟨status, w₂, hoper, hok⟩ :=
      (oper_succeeds_iff hcalm hlen).mpr ((itemGranted_translation htrans).mpr hgranted)
    obtain ⟨w', hrun, -⟩ := runOper_run htrans hoper
    exact ⟨status, w', hrun, hok⟩

theorem copyWorld_calm : Undisturbed copyWorld.env :=
  fun _ => ⟨rfl, show installMaxPathlen ≤ 65536 by decide⟩

theorem install_succeeds_iff_file :
    ItemGranted copyWorld .instCopy { copyItem with dst := some ['d', '/', 'a'] } := by
  have hrun : install copyItem 0 copyWorld =
      (.ok ⟨.ok, none, some 0⟩, (install copyItem 0 copyWorld).2) :=
    run_of_fst (by decide +kernel)
  exact (install_succeeds_iff copyWorld_calm (show translated installOpers copyWorld copyItem = _ from rfl)).mp
    ⟨_, _, hrun, rfl⟩

end Items

end CStringVerified.Install
