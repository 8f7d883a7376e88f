import CStringVerified.Foundation.Links
import CStringVerified.Install.Proofs.FrameProofs

/-!
# The calls of `install_file_copy`, and its copy loop

What the calls on files and streams do when they succeed, and when they fail. The copy loop is followed
round by round, whatever the reads and writes transfer: what is in the temporary file is always the start
of the source (`Copying`).
-/

namespace CStringVerified.Install

open Foundation Foundation.Run

/-! ## Calls that succeed -/

section Calls

variable {w w' : World} {path : Text} {fd : Handle} {s : Stream}

theorem fsCall_ok {call : Call} {f : World → Except Errno FileSystem} {r : Int} (hr : r ≠ -1)
    (h : fsCall call f w = (.ok r, w')) :
    ∃ fs, f w = .ok fs ∧ w' = (w.record call true).withOs { w.os with fs := fs } := by
  rcases fsCall_cases call f w with ⟨fs, -, hf, hrun⟩ | ⟨e, -, hrun⟩
  · rw [hrun] at h
    exact ⟨fs, hf, (congrArg Prod.snd h).symm⟩
  · rw [hrun] at h
    exact absurd (Except.ok.inj (congrArg Prod.fst h)).symm hr

theorem sysCall_some {α : Type} {call : Call} {f : World → Except Errno (α × Os)} {a : α}
    (h : sysCall call f w = (.ok (some a), w')) :
    ∃ os, f w = .ok (a, os) ∧ w' = (w.record call true).withOs os := by
  rcases sysCall_cases call f w with ⟨a', os, -, hf, hrun⟩ | ⟨e, -, hrun⟩
  · rw [hrun] at h
    cases h
    exact ⟨os, hf, rfl⟩
  · rw [hrun] at h
    cases h

theorem opened_eq_ok {l : Loc} {n : Node} {i : Nat} :
    w.opened l n = .ok i ↔ sIssock n.stMode = false ∧ w.os.fs.ino l = some i := by
  unfold World.opened
  cases sIssock n.stMode with
  | true => exact iff_of_false nofun nofun
  | false =>
    rw [if_neg Bool.false_ne_true, and_iff_right rfl]
    cases w.os.fs.ino l with
    | none => exact iff_of_false nofun nofun
    | some j =>
      rw [Option.elim_some, Except.ok.injEq, Option.some.injEq]

theorem fopenRead_ok (h : fopenRead path w = (.ok (some fd), w')) :
    ∃ l n i, path ≠ [] ∧ w.os.fs.resolve (Foundation.route w.os.cwd path) = .ok (l, some n) ∧
      w.opened l n = .ok i ∧ fd = w.os.streams.length ∧
      w' = (w.record (.fopenRead path) true).withOs (openStream w.os i).2 := by
  obtain ⟨os, hf, rfl⟩ := sysCall_some h
  obtain ⟨hne, hf⟩ := route_bind hf
  obtain ⟨⟨l, r⟩, hres, hf⟩ := ok_of_bind hf
  cases r with
  | none => cases hf
  | some n =>
    obtain ⟨i, hi, hf⟩ := ok_of_bind hf
    cases hf
    exact ⟨l, n, i, hne, hres, hi, rfl, rfl⟩

theorem fopenWrite_ok (h : fopenWrite path w = (.ok (some fd), w')) :
    ∃ i fs, path ≠ [] ∧ w.emptied (Foundation.route w.os.cwd path) = .ok (i, fs) ∧
      fd = w.os.streams.length ∧
      w' = (w.record (.fopenWrite path) true).withOs (openStream { w.os with fs := fs } i).2 := by
  obtain ⟨os, hf, rfl⟩ := sysCall_some h
  obtain ⟨hne, hf⟩ := route_bind hf
  obtain ⟨⟨i, fs⟩, hempty, hf⟩ := ok_of_bind hf
  cases hf
  exact ⟨i, fs, hne, hempty, rfl, rfl⟩

theorem fopenRead_found {l : Loc} {n : Node} {i : Nat} (hfault : w.env.faults w.tick = none)
    (hne : path ≠ []) (hres : w.os.fs.resolve (Foundation.route w.os.cwd path) = .ok (l, some n))
    (hi : w.opened l n = .ok i) :
    fopenRead path w = (.ok (some w.os.streams.length),
      (w.record (.fopenRead path) true).withOs (openStream w.os i).2) := by
  unfold fopenRead
  rw [sysCall, hfault, World.route, if_neg hne]
  simp only [bind, Except.bind, hres, hi]
  rfl

theorem fopenRead_fault {e : Errno} (path : Text) (h : w.env.faults w.tick = some e) :
    fopenRead path w = (.ok none, (w.record (.fopenRead path) false).withErrno e) :=
  sysCall_refused _ _ h

theorem fopenWrite_fault {e : Errno} (path : Text) (h : w.env.faults w.tick = some e) :
    fopenWrite path w = (.ok none, (w.record (.fopenWrite path) false).withErrno e) :=
  sysCall_refused _ _ h

theorem fopenWrite_found {i : Nat} {fs : FileSystem} (hfault : w.env.faults w.tick = none)
    (hne : path ≠ []) (hempty : w.emptied (Foundation.route w.os.cwd path) = .ok (i, fs)) :
    fopenWrite path w = (.ok (some w.os.streams.length), (w.record (.fopenWrite path) true).withOs
      (openStream { w.os with fs := fs } i).2) := by
  unfold fopenWrite
  rw [sysCall, hfault, World.route, if_neg hne]
  simp only [bind, Except.bind, hempty]
  rfl

theorem stream_apply (hs : w.os.streams[fd]? = some s) : stream fd w = (.ok s, w) := by
  rw [stream, get_bind_apply, hs]
  rfl

theorem modifyStream_apply (hs : w.os.streams[fd]? = some s) (f : Stream → Stream) :
    modifyStream fd f w =
      (.ok (), w.withOs { w.os with streams := w.os.streams.set fd (f s) }) := by
  rw [modifyStream, modify_apply, List.modify_eq_set_getElem?, hs]
  rfl

theorem feof_apply (hs : w.os.streams[fd]? = some s) : feof fd w = (.ok s.eof, w) :=
  bind_ok (stream_apply hs)

theorem ferror_apply (hs : w.os.streams[fd]? = some s) : ferror fd w = (.ok s.err, w) :=
  bind_ok (stream_apply hs)

/-- A call that leaves the files alone. -/
structure Passed (w w' : World) : Prop where
  fs : w'.os.fs = w.os.fs
  cwd : w'.os.cwd = w.os.cwd
  env : w'.env = w.env
  tick : w'.tick = w.tick + 1

theorem fclose_passed (fd : Handle) (w : World) :
    ∃ w', fclose fd w = (.ok (if w.env.faults w.tick = none then 0 else -1), w') ∧ Passed w w' := by
  rcases sysCall_cases (.fclose fd) (fun w => .ok ((), w.os)) w with
    ⟨a, os, hfault, hf, hrun⟩ | ⟨e, he, hrun⟩
  · cases hf
    rw [if_pos hfault]
    exact ⟨_, (bind_ok hrun).trans (bind_ok (modify_apply _ _)), rfl, rfl, rfl, rfl⟩
  · rcases he with hfault | ⟨-, hf⟩
    · rw [if_neg (by rw [hfault]; exact Option.some_ne_none e)]
      exact ⟨_, (bind_ok hrun).trans (bind_ok (modify_apply _ _)), rfl, rfl, rfl, rfl⟩
    · cases hf

theorem fflush_passed (fd : Handle) (w : World) :
    ∃ w', fflush fd w = (.ok (if w.env.faults w.tick = none then 0 else -1), w') ∧ Passed w w' := by
  rcases sysCall_cases (.fflush fd) (fun w => .ok ((), w.os)) w with
    ⟨a, os, hfault, hf, hrun⟩ | ⟨e, he, hrun⟩
  · cases hf
    rw [if_pos hfault]
    exact ⟨_, bind_ok hrun, rfl, rfl, rfl, rfl⟩
  · rcases he with hfault | ⟨-, hf⟩
    · rw [if_neg (by rw [hfault]; exact Option.some_ne_none e)]
      exact ⟨_, bind_ok hrun, rfl, rfl, rfl, rfl⟩
    · cases hf

/-- The world with another state of a stream. -/
def World.withStream (w : World) (fd : Handle) (s : Stream) : World :=
  w.withOs { w.os with streams := w.os.streams.set fd s }

/-- What a read of a stream in a file gives. -/
def World.block (w : World) (s : Stream) (n : Node) (size : Nat) : Text :=
  (n.data.drop s.pos).take (w.transfer size)

/-- The stream after such a read. -/
def World.readOn (w : World) (s : Stream) (n : Node) (size : Nat) : Stream :=
  { s with
    pos := s.pos + (w.block s n size).length
    eof := s.eof || ((n.data.drop s.pos).length < size &&
      (w.block s n size).length = (n.data.drop s.pos).length) }

/-- A read moves the position by what it returns, or it fails. -/
theorem fread_run (size : Nat) (hs : w.os.streams[fd]? = some s) :
    (∃ n, w.env.faults w.tick = none ∧ w.os.fs.inode s.ino = some n ∧ sIsdir n.stMode = false ∧
      fread fd size w =
        (.ok (w.block s n size), (w.record (.fread fd) true).withStream fd (w.readOn s n size))) ∨
      ∃ e, (w.env.faults w.tick = none → ∀ n, w.os.fs.inode s.ino = some n → sIsdir n.stMode = true) ∧
        fread fd size w =
          (.ok [], ((w.record (.fread fd) false).withErrno e).withStream fd { s with err := true }) := by
  rcases sysCall_cases (.fread fd) _ w with ⟨block, os, hfault, hf, hrun⟩ | ⟨e, he, hrun⟩
  · have hread : fread fd size w = (.ok block, (w.record (.fread fd) true).withOs os) :=
      (bind_ok (stream_apply hs)).trans (bind_ok hrun)
    cases hn : w.os.fs.inode s.ino with
    | none => rw [hn] at hf; cases hf
    | some n =>
      rw [hn] at hf
      dsimp only at hf
      split at hf
      · cases hf
      · rename_i hdir
        cases hf
        refine Or.inl ⟨n, hfault, rfl, by simpa using hdir, ?_⟩
        have hblock : (n.data.drop s.pos).take (min (n.data.drop s.pos).length (w.transfer size)) =
            w.block s n size := by
          rw [World.block, Nat.min_comm, ← List.take_eq_take_min]
        have hcount : min (n.data.drop s.pos).length (w.transfer size) =
            (w.block s n size).length := by
          rw [World.block, List.length_take, Nat.min_comm]
        rw [hread, hblock, hcount]
        rfl
  · have hs' : ((w.record (.fread fd) false).withErrno e).os.streams[fd]? = some s := hs
    refine Or.inr ⟨e, fun hfault n hn => ?_, (bind_ok (stream_apply hs)).trans ((bind_ok hrun).trans
      (bind_ok (modifyStream_apply hs' _)))⟩
    rcases he with he | ⟨-, hf⟩
    · rw [hfault] at he
      cases he
    · rw [hn] at hf
      by_contra hfile
      simp only [hfile, if_false] at hf
      cases hf

/-- A write appends what it says it wrote, or it fails. -/
theorem fwrite_run (text : Text) (hs : w.os.streams[fd]? = some s) :
    (∃ n, w.env.faults w.tick = none ∧ w.os.fs.inode s.ino = some n ∧
      fwrite text fd w = (.ok (w.transfer text.length), (w.record (.fwrite fd) true).withOs
        { w.os with
          fs := w.os.fs.set s.ino (n.withData (n.data ++ text.take (w.transfer text.length))) })) ∨
      ∃ e, (w.env.faults w.tick = none → w.os.fs.inode s.ino = none) ∧
        fwrite text fd w =
          (.ok 0, ((w.record (.fwrite fd) false).withErrno e).withStream fd { s with err := true }) := by
  rcases sysCall_cases (.fwrite fd) _ w with ⟨count, os, hfault, hf, hrun⟩ | ⟨e, he, hrun⟩
  · have hwrite : fwrite text fd w = (.ok count, (w.record (.fwrite fd) true).withOs os) :=
      (bind_ok (stream_apply hs)).trans (bind_ok hrun)
    cases hn : w.os.fs.inode s.ino with
    | none => rw [hn] at hf; cases hf
    | some n =>
      rw [hn] at hf
      cases hf
      exact Or.inl ⟨n, hfault, rfl, hwrite⟩
  · have hs' : ((w.record (.fwrite fd) false).withErrno e).os.streams[fd]? = some s := hs
    refine Or.inr ⟨e, fun hfault => ?_, (bind_ok (stream_apply hs)).trans ((bind_ok hrun).trans
      (bind_ok (modifyStream_apply hs' _)))⟩
    rcases he with he | ⟨-, hf⟩
    · rw [hfault] at he
      cases he
    · cases hn : w.os.fs.inode s.ino with
      | none => rfl
      | some n => rw [hn] at hf; cases hf

/-- Something is transferred, unless nothing is wanted. -/
theorem transfer_pos {size : Nat} (h : 0 < size) (w : World) : 0 < w.transfer size := by
  unfold World.transfer
  omega

/-- A read that gives nothing is at the end of the file. -/
theorem readOn_eof {n : Node} {size : Nat} (hsize : 0 < size) (h : w.block s n size = []) :
    (w.readOn s n size).eof = true := by
  have hrest : n.data.drop s.pos = [] := by
    rcases List.take_eq_nil_iff.mp h with hzero | hrest
    · exact absurd hzero (Nat.ne_of_gt (transfer_pos hsize w))
    · exact hrest
  unfold World.readOn
  simp [h, hrest, hsize]

/-- A read at whose end the stream says so has read the file to its end. -/
theorem readOn_all {n : Node} {size : Nat} (h : (w.readOn s n size).eof = true) :
    s.eof = true ∨ n.data.length ≤ (w.readOn s n size).pos := by
  simp only [World.readOn, Bool.or_eq_true, Bool.and_eq_true, decide_eq_true_eq] at h
  rcases h with heof | ⟨-, hall⟩
  · exact Or.inl heof
  · refine Or.inr ?_
    rw [List.length_drop] at hall
    show n.data.length ≤ s.pos + (w.block s n size).length
    omega

end Calls

/-! ## The copy loop -/

/-- What is written to a file is added to what has been. -/
theorem withData_append (n : Node) (text block : Text) :
    (n.withData text).withData ((n.withData text).data ++ block) = n.withData (text ++ block) := by
  unfold Node.withData
  cases hreg : sIsreg n.stMode with
  | true => simp only [if_true, hreg]
  | false => simp only [Bool.false_eq_true, if_false, hreg]

/-- An empty file, or one that keeps nothing. -/
theorem withData_nil {n : Node} (h : sIsreg n.stMode = true → n.data = []) : n.withData [] = n := by
  unfold Node.withData
  split
  · rename_i hreg
    rw [← h hreg]
  · rfl

/-- A copy of `data` under way since `w₀`: the source is read up to `pos`, and `text` is in the file `ti`,
which was opened as `n`. -/
structure Copying (w₀ : World) (si ti : Nat) (n : Node) (fdSrc fdDst : Handle) (data : Text)
    (pos : Nat) (text : Text) (w : World) : Prop where
  written : w.os.fs = w₀.os.fs.set ti (n.withData text)
  src : ∃ s, w.os.streams[fdSrc]? = some s ∧ s.ino = si ∧ s.pos = pos ∧
    (s.eof = true → data.length ≤ pos)
  dst : ∃ s, w.os.streams[fdDst]? = some s ∧ s.ino = ti ∧ s.eof = false

section Loop

variable {w₀ w w' : World} {si ti : Nat} {n : Node} {fdSrc fdDst : Handle} {data text : Text}
  {pos : Nat}

/-- Only the source is read at the end of its data: the other stream is never at the end. -/
theorem Copying.feof_dst (h : Copying w₀ si ti n fdSrc fdDst data pos text w) :
    feof fdDst w = (.ok false, w) := by
  obtain ⟨s, hs, -, heof⟩ := h.dst
  rw [feof_apply hs, heof]

theorem Copying.fwrite (hn : w₀.os.fs.inode ti = some n) (block : Text) (hne : fdSrc ≠ fdDst)
    (h : Copying w₀ si ti n fdSrc fdDst data pos text w) :
    ∃ count w', Install.fwrite block fdDst w = (.ok count, w') ∧
      Copying w₀ si ti n fdSrc fdDst data pos (text ++ block.take count) w' ∧
      (count = 0 → block = [] ∨ ∃ s, w'.os.streams[fdDst]? = some s ∧ s.err = true) := by
  obtain ⟨s, hs, rfl, heof⟩ := h.dst
  obtain ⟨t, ht, hrest⟩ := h.src
  rcases fwrite_run block hs with ⟨m, -, hm, hrun⟩ | ⟨e, -, hrun⟩
  · rw [h.written, FileSystem.inode_set_self hn] at hm
    obtain rfl := Option.some.inj hm
    refine ⟨_, _, hrun, ⟨?_, ⟨t, ht, hrest⟩, ⟨s, hs, rfl, heof⟩⟩, fun hzero => Or.inl ?_⟩
    · show w.os.fs.set s.ino _ = _
      rw [h.written, FileSystem.set_set, withData_append]
    · by_contra hblock
      exact absurd hzero (Nat.ne_of_gt (transfer_pos (List.length_pos_iff.mpr hblock) w))
  · have hlt : fdDst < w.os.streams.length := (List.getElem?_eq_some_iff.mp hs).1
    refine ⟨_, _, hrun, ⟨?_, ⟨t, ?_, hrest⟩, ⟨{ s with err := true }, ?_, rfl, heof⟩⟩,
      fun _ => Or.inr ⟨{ s with err := true }, ?_, rfl⟩⟩
    · rw [List.take_zero, List.append_nil]
      exact h.written
    · exact (List.getElem?_set_ne hne.symm).trans ht
    · exact List.getElem?_set_self hlt
    · exact List.getElem?_set_self hlt

/-- A round of the inner loop writes some of the block, or ends: with a message, or because nothing is
left of it. -/
theorem Copying.writeRound (hn : w₀.os.fs.inode ti = some n) (block : Text) (hne : fdSrc ≠ fdDst)
    (h : Copying w₀ si ti n fdSrc fdDst data pos text w) :
    ∃ r w', Install.writeRound fdDst block w = (.ok r, w') ∧
      ((∃ count, r = .inl (block.drop count) ∧ (block.drop count).length < block.length ∧
          Copying w₀ si ti n fdSrc fdDst data pos (text ++ block.take count) w') ∨
        (∃ message, r = .inr (some message) ∧
          Copying w₀ si ti n fdSrc fdDst data pos text w') ∨
        r = .inr none ∧ block = [] ∧ w' = w) := by
  unfold Install.writeRound
  by_cases hblock : block = []
  · rw [if_pos hblock]
    exact ⟨_, w, rfl, Or.inr (Or.inr ⟨rfl, hblock, rfl⟩)⟩
  · rw [if_neg hblock]
    obtain ⟨count, w₁, hwrite, h₁, herr⟩ := h.fwrite hn block hne
    rw [bind_ok hwrite]
    by_cases hzero : count = 0
    · obtain ⟨s, hs, hserr⟩ := (herr hzero).resolve_left hblock
      subst hzero
      rw [if_pos rfl, bind_ok h₁.feof_dst, if_neg Bool.false_ne_true, bind_ok (ferror_apply hs), hserr,
        if_pos rfl]
      rw [List.take_zero, List.append_nil] at h₁
      exact ⟨_, w₁, rfl, Or.inr (Or.inl ⟨_, rfl, h₁⟩)⟩
    · have hless : (block.drop count).length < block.length := by
        have hpos := List.length_pos_iff.mpr hblock
        rw [List.length_drop]
        omega
      rw [if_neg hzero]
      exact ⟨_, w₁, rfl, Or.inl ⟨count, rfl, hless, h₁⟩⟩

/-- The inner loop writes all of the block, or ends with a message. -/
theorem Copying.writeLoop (hn : w₀.os.fs.inode ti = some n) (block : Text) (hne : fdSrc ≠ fdDst)
    (h : Copying w₀ si ti n fdSrc fdDst data pos text w) :
    ∃ r w', Run.loop (Install.writeRound fdDst) (fun _ => crash .diverges) (block.length + 1) block w =
        (.ok r, w') ∧
      ∃ written rest, written ++ rest = block ∧ (r = none → rest = []) ∧
        Copying w₀ si ti n fdSrc fdDst data pos (text ++ written) w' := by
  -- What is written and what is left of the block make up the block in every round.
  refine loop_total
    (fun b w => ∃ written, written ++ b = block ∧
      Copying w₀ si ti n fdSrc fdDst data pos (text ++ written) w)
    (fun b _ => b.length)
    (fun r w => ∃ written rest, written ++ rest = block ∧ (r = none → rest = []) ∧
      Copying w₀ si ti n fdSrc fdDst data pos (text ++ written) w)
    ?_ (Nat.lt_succ_self _) ⟨[], rfl, by rwa [List.append_nil]⟩
  rintro b w₁ ⟨written, hwritten, hcopy⟩
  obtain ⟨r, w₂, hrun, hr⟩ := hcopy.writeRound hn b hne
  refine ⟨r, w₂, hrun, fun b' hb' => ?_, fun c hc => ?_⟩
  · rcases hr with ⟨count, hr, hless, hcopy'⟩ | ⟨message, hr, -⟩ | ⟨hr, -⟩
    · obtain rfl := Sum.inl.inj (hr.symm.trans hb')
      refine ⟨⟨written ++ b.take count, ?_, ?_⟩, hless⟩
      · rw [List.append_assoc, List.take_append_drop, hwritten]
      · rwa [← List.append_assoc]
    · cases hr.symm.trans hb'
    · cases hr.symm.trans hb'
  · rcases hr with ⟨count, hr, -⟩ | ⟨message, hr, hcopy'⟩ | ⟨hr, rfl, rfl⟩
    · cases hr.symm.trans hc
    · obtain rfl := Sum.inr.inj (hr.symm.trans hc)
      exact ⟨written, b, hwritten, nofun, hcopy'⟩
    · exact ⟨written, [], hwritten, fun _ => rfl, hcopy⟩

variable (hdata : ∃ m, w₀.os.fs.inode si = some m ∧ m.data = data)
  (hn : w₀.os.fs.inode ti = some n) (hempty : sIsreg n.stMode = true → n.data = [])

include hdata hn hempty

/-- Between the rounds the source has its data, also when it is the very file that is written: that one
has been emptied, or keeps nothing. -/
theorem Copying.source (h : Copying w₀ si ti n fdSrc fdDst data pos (data.take pos) w) :
    ∃ m, w.os.fs.inode si = some m ∧ m.data = data := by
  obtain ⟨m, hm, hmdata⟩ := hdata
  rw [h.written]
  by_cases hsame : ti = si
  · subst hsame
    obtain rfl := Option.some.inj (hm.symm.trans hn)
    refine ⟨_, FileSystem.inode_set_self hn _, ?_⟩
    unfold Node.withData
    split
    · rename_i hreg
      rw [← hmdata, hempty hreg, List.take_nil]
    · exact hmdata
  · exact ⟨m, (FileSystem.inode_set_ne hsame _).trans hm, hmdata⟩

theorem Copying.fread {size : Nat} (hsize : 0 < size) (hne : fdSrc ≠ fdDst)
    (h : Copying w₀ si ti n fdSrc fdDst data pos (data.take pos) w) :
    ∃ block w', Install.fread fdSrc size w = (.ok block, w') ∧
      Copying w₀ si ti n fdSrc fdDst data (pos + block.length) (data.take pos) w' ∧
      data.take pos ++ block = data.take (pos + block.length) ∧
      ∃ s, w'.os.streams[fdSrc]? = some s ∧ (block = [] → s.eof = true ∨ s.err = true) := by
  obtain ⟨m, hm, rfl⟩ := h.source hdata hn hempty
  obtain ⟨s, hs, rfl, rfl, heof⟩ := h.src
  obtain ⟨t, ht, hdst⟩ := h.dst
  have hlt : fdSrc < w.os.streams.length := (List.getElem?_eq_some_iff.mp hs).1
  rcases fread_run size hs with ⟨m', -, hm', -, hrun⟩ | ⟨e, -, hrun⟩
  · obtain rfl := Option.some.inj (hm'.symm.trans hm)
    refine ⟨_, _, hrun, ⟨h.written,
      ⟨w.readOn s m' size, List.getElem?_set_self hlt, rfl, rfl, fun h' => ?_⟩,
      ⟨t, (List.getElem?_set_ne hne).trans ht, hdst⟩⟩, ?_,
      ⟨w.readOn s m' size, List.getElem?_set_self hlt, fun hblock => Or.inl (readOn_eof hsize hblock)⟩⟩
    · rcases readOn_all h' with h' | hend
      · exact Nat.le_add_right_of_le (heof h')
      · exact hend
    · rw [List.take_add]
      exact congrArg (m'.data.take s.pos ++ ·) (List.prefix_iff_eq_take.mp (List.take_prefix _ _))
  · refine ⟨_, _, hrun, ⟨h.written,
      ⟨{ s with err := true }, List.getElem?_set_self hlt, rfl, rfl, heof⟩,
      ⟨t, (List.getElem?_set_ne hne).trans ht, hdst⟩⟩, ?_,
      ⟨{ s with err := true }, List.getElem?_set_self hlt, fun _ => Or.inr rfl⟩⟩
    rw [List.append_nil, List.length_nil, Nat.add_zero]

/-- A round of the copy loop goes on, with all that was read being written, or ends: with a message, or
because all is copied. -/
theorem Copying.copyRound (hne : fdSrc ≠ fdDst)
    (h : Copying w₀ si ti n fdSrc fdDst data pos (data.take pos) w) :
    ∃ r w', Install.copyRound fdSrc fdDst () w = (.ok r, w') ∧
      ((∃ pos', r = .inl () ∧ pos < pos' ∧ pos < data.length ∧
          Copying w₀ si ti n fdSrc fdDst data pos' (data.take pos') w') ∨
        ∃ message pos' k, r = .inr message ∧
          Copying w₀ si ti n fdSrc fdDst data pos' (data.take k) w' ∧
          (message = none → data.take k = data)) := by
  unfold Install.copyRound
  obtain ⟨block, w₁, hread, h₁, htext, s, hs, hend⟩ := h.fread hdata hn hempty (by decide : 0 < 65536) hne
  rw [bind_ok hread]
  by_cases hnil : block = []
  · subst hnil
    rw [List.length_nil, Nat.add_zero] at h₁
    rw [if_pos rfl, bind_ok (feof_apply hs)]
    by_cases heof : s.eof = true
    · obtain ⟨s', hs', -, -, hall⟩ := h₁.src
      obtain rfl := Option.some.inj (hs.symm.trans hs')
      rw [if_pos heof]
      exact ⟨_, w₁, rfl, Or.inr ⟨none, pos, pos, rfl, h₁, fun _ =>
        List.take_of_length_le (hall heof)⟩⟩
    · rw [if_neg heof, bind_ok (ferror_apply hs), if_pos ((hend rfl).resolve_left heof)]
      exact ⟨_, w₁, rfl, Or.inr ⟨some "read error", pos, pos, rfl, h₁, nofun⟩⟩
  · have hpos : 0 < block.length := List.length_pos_iff.mpr hnil
    have hbelow : pos < data.length := by
      have hlen := congrArg List.length htext
      simp only [List.length_append, List.length_take] at hlen
      omega
    obtain ⟨message, w₂, hwrite, written, rest, hblock, hall, h₂⟩ := h₁.writeLoop hn block hne
    rw [if_neg hnil, bind_ok hwrite]
    cases message with
    | none =>
      obtain rfl := hall rfl
      rw [List.append_nil] at hblock
      rw [hblock, htext] at h₂
      exact ⟨_, w₂, rfl, Or.inl ⟨_, rfl, by omega, hbelow, h₂⟩⟩
    | some message =>
      have hwritten : data.take pos ++ written <+: data := by
        refine ((List.prefix_append _ rest).trans ?_).trans (List.take_prefix (pos + block.length) data)
        rw [List.append_assoc, hblock, htext]
      rw [List.prefix_iff_eq_take.mp hwritten] at h₂
      exact ⟨_, w₂, rfl, Or.inr ⟨some message, _, _, rfl, h₂, nofun⟩⟩

theorem Copying.fileLength (h : Copying w₀ si ti n fdSrc fdDst data pos (data.take pos) w) :
    Install.fileLength fdSrc w = (.ok data.length, w) := by
  obtain ⟨m, hm, hmdata⟩ := h.source hdata hn hempty
  obtain ⟨s, hs, hino, -⟩ := h.src
  rw [Install.fileLength, bind_ok (stream_apply hs), get_bind_apply, hino, hm, ← hmdata]
  rfl

/-- The copy loop copies all of the source, or ends with a message after some of it. -/
theorem Copying.copyLoop (hne : fdSrc ≠ fdDst)
    (h : Copying w₀ si ti n fdSrc fdDst data 0 [] w) :
    ∃ message w', Install.copyLoop fdSrc fdDst w = (.ok message, w') ∧
      ∃ pos k, Copying w₀ si ti n fdSrc fdDst data pos (data.take k) w' ∧
        (message = none → data.take k = data) := by
  unfold Install.copyLoop
  rw [bind_ok (h.fileLength hdata hn hempty)]
  refine loop_total
    (fun _ w => ∃ pos, Copying w₀ si ti n fdSrc fdDst data pos (data.take pos) w)
    (fun _ w => data.length - (w.os.streams[fdSrc]?).elim 0 Stream.pos)
    (fun message w => ∃ pos k, Copying w₀ si ti n fdSrc fdDst data pos (data.take k) w ∧
      (message = none → data.take k = data)) ?_ ?_ ⟨0, h⟩
  · rintro _ w₁ ⟨pos, hcopy⟩
    obtain ⟨r, w₂, hrun, hr⟩ := hcopy.copyRound hdata hn hempty hne
    refine ⟨r, w₂, hrun, fun b' hb' => ?_, fun c hc => ?_⟩
    · rcases hr with ⟨pos', -, hless, hbelow, hcopy'⟩ | ⟨message, pos', k, hr, -⟩
      · refine ⟨⟨pos', hcopy'⟩, ?_⟩
        obtain ⟨s₁, hs₁, -, hpos₁, -⟩ := hcopy.src
        obtain ⟨s₂, hs₂, -, hpos₂, -⟩ := hcopy'.src
        rw [hs₁, hs₂, Option.elim_some, Option.elim_some, hpos₁, hpos₂]
        omega
      · cases hr.symm.trans hb'
    · rcases hr with ⟨pos', hr, -⟩ | ⟨message, pos', k, hr, hcopy', hall⟩
      · cases hr.symm.trans hc
      · obtain rfl := Sum.inr.inj (hr.symm.trans hc)
        exact ⟨pos', k, hcopy', hall⟩
  · exact Nat.lt_succ_of_le ((Nat.sub_le _ _).trans (Nat.le_succ _))

end Loop

/-! ## Nodes that change -/

/-- A node is handed over unless it is wanted for the current user: then its owner and group stay. -/
def handedOver (env : Env) (uid gid : Id) (n : Node) : Node :=
  if env.uid = uid then n else env.chowned uid gid n

section Nodes

variable {n m : Node} {uid gid : Id} {mode : Mode}

theorem fileTypeOf_sameType (h : n.SameType m) : fileTypeOf m.stMode = fileTypeOf n.stMode := by
  unfold Node.SameType at h
  simp only [fileTypeOf, fileTypeLookups, List.find?, sIsreg, sIschr, sIsdir, sIslnk,
    sIssock, sIsfifo, h]

theorem sameType_withData (n : Node) (data : Text) : n.SameType (n.withData data) := by
  unfold Node.withData
  split
  · rfl
  · rfl

/-- Clearing set-ID bits leaves the type. -/
theorem clear_type (m bits : Mode) : (m &&& ~~~(bits &&& 0o6000)) &&& sIfmt = m &&& sIfmt := by
  have hmask : ~~~(0o6000 : Mode) &&& sIfmt = sIfmt := rfl
  have hbits : ~~~(bits &&& 0o6000) &&& sIfmt = sIfmt := by
    rw [BitVec.not_and, BitVec.and_or_distrib_right, hmask]
    ext i hi
    rw [BitVec.getElem_or, BitVec.getElem_and, Bool.or_eq_right_iff_imp]
    exact fun h => (Bool.and_eq_true_iff.mp h).2
  rw [BitVec.and_assoc, hbits]

theorem sameType_withPerm (env : Env) (mode : Mode) (n : Node) : n.SameType (env.withPerm mode n) := by
  have hperm : ∀ bits : Mode, bits &&& sIfmt = 0 → (mode &&& bits) &&& sIfmt = 0#32 := by
    intro bits hbits
    rw [BitVec.and_assoc, hbits]
    exact BitVec.and_zero
  have hbits : (mode &&& if env.inGroup n.stGid then 0o7777 else 0o5777) &&& sIfmt = 0#32 := by
    split
    · exact hperm _ rfl
    · exact hperm _ rfl
  show ((n.stMode &&& sIfmt) ||| (mode &&& if env.inGroup n.stGid then 0o7777 else 0o5777)) &&& sIfmt =
    n.stMode &&& sIfmt
  rw [BitVec.and_or_distrib_right, hbits, BitVec.or_zero, BitVec.and_assoc, BitVec.and_self]

theorem sameType_chowned (env : Env) (uid gid : Id) (n : Node) : n.SameType (env.chowned uid gid n) :=
  clear_type n.stMode _

theorem sameType_handedOver (env : Env) (uid gid : Id) (n : Node) :
    n.SameType (handedOver env uid gid n) := by
  unfold handedOver
  split
  · rfl
  · exact sameType_chowned env uid gid n

theorem sameType_emptied (env : Env) (n : Node) : n.SameType (env.emptied n) := by
  unfold Env.emptied
  split
  · exact clear_type n.stMode _
  · rfl

/-- The bits that `chmod` sets. -/
theorem perm_withPerm (env : Env) (mode : Mode) (n : Node) :
    (env.withPerm mode n).perm = mode &&& if env.inGroup n.stGid then 0o7777 else 0o5777 := by
  have hperm : ∀ bits : Mode, bits &&& 0o7777 = bits →
      ((n.stMode &&& sIfmt) ||| (mode &&& bits)) &&& 0o7777 = mode &&& bits := by
    intro bits hbits
    have htype : (n.stMode &&& sIfmt) &&& 0o7777 = 0#32 := by
      rw [BitVec.and_assoc]
      exact BitVec.and_zero
    rw [BitVec.and_or_distrib_right, htype, BitVec.zero_or, BitVec.and_assoc, hbits]
  unfold Node.perm Env.withPerm
  split
  · exact hperm _ rfl
  · exact hperm _ rfl

/-- The bits that `chown` leaves. -/
theorem perm_chowned (env : Env) (uid gid : Id) (n : Node) :
    (env.chowned uid gid n).perm = n.perm &&& ~~~(env.chownClears n.stMode &&& 0o6000) := by
  show (n.stMode &&& ~~~(env.chownClears n.stMode &&& 0o6000)) &&& 0o7777 =
    (n.stMode &&& 0o7777) &&& ~~~(env.chownClears n.stMode &&& 0o6000)
  rw [BitVec.and_assoc, BitVec.and_assoc, BitVec.and_comm (0o7777 : Mode)]

end Nodes

/-! ## Opening the temporary file -/

section Emptied

variable {w : World} {p : Route} {l : Loc} {i : Nat} {n : Node} {fs : FileSystem}

theorem masked_type (env : Env) (mode : Mode) (hmode : mode &&& sIfmt = 0) :
    env.masked mode &&& sIfmt = 0 := by
  rw [Env.masked, BitVec.and_comm mode, BitVec.and_assoc, hmode]
  exact BitVec.and_zero

theorem newFile_type (env : Env) (d : Node) : (env.newFile d).stMode &&& sIfmt = sIfreg := by
  show (sIfreg ||| env.masked 0o666) &&& sIfmt = sIfreg
  rw [BitVec.and_or_distrib_right, masked_type env _ rfl]
  rfl

theorem newFile_islnk (env : Env) (d : Node) : sIslnk (env.newFile d).stMode = false := by
  rw [sIslnk, newFile_type]
  rfl

theorem newFile_isdir (env : Env) (d : Node) : sIsdir (env.newFile d).stMode = false := by
  rw [sIsdir, newFile_type]
  rfl

/-- A file that is opened for writing is made, or emptied. -/
theorem emptied_ok (h : w.emptied p = .ok (i, fs)) :
    (∃ l d, w.os.fs.resolve p = .ok (l, none) ∧ w.os.fs.node l.dropLast = some d ∧
        i = w.os.fs.inodes.length ∧ fs = w.os.fs.put l (w.env.newFile d)) ∨
      ∃ l n, w.os.fs.resolve p = .ok (l, some n) ∧ sIsdir n.stMode = false ∧
        sIssock n.stMode = false ∧ w.os.fs.ino l = some i ∧ fs = w.os.fs.set i (w.env.emptied n) := by
  unfold World.emptied at h
  obtain ⟨⟨l, r⟩, hres, h⟩ := ok_of_bind h
  cases r with
  | none =>
    dsimp only at h
    cases hd : w.os.fs.node l.dropLast with
    | none => rw [hd] at h; cases h
    | some d =>
      rw [hd] at h
      cases h
      exact Or.inl ⟨l, d, hres, hd, rfl, rfl⟩
  | some n =>
    dsimp only at h
    split at h
    · cases h
    · rename_i hdir
      obtain ⟨j, hj, h⟩ := ok_of_bind h
      cases h
      obtain ⟨hsock, hino⟩ := opened_eq_ok.mp hj
      exact Or.inr ⟨l, n, hres, by simpa using hdir, hsock, hino, rfl⟩

theorem emptied_absent {d : Node} (hres : w.os.fs.resolve p = .ok (l, none))
    (hd : w.os.fs.node l.dropLast = some d) :
    w.emptied p = .ok (w.os.fs.inodes.length, w.os.fs.put l (w.env.newFile d)) := by
  unfold World.emptied
  rw [hres]
  simp only [bind, Except.bind, hd]
  rfl

theorem emptied_found (hres : w.os.fs.resolve p = .ok (l, some n)) (hdir : sIsdir n.stMode = false)
    (hi : w.opened l n = .ok i) : w.emptied p = .ok (i, w.os.fs.set i (w.env.emptied n)) := by
  unfold World.emptied
  rw [hres]
  simp only [bind, Except.bind, hdir, Bool.false_eq_true, if_false, hi]
  rfl

/-- The pathname leads to the file then: it is empty, or keeps nothing of what is written to it. -/
structure Opened (fs : FileSystem) (p : Route) (i : Nat) (l : Loc) (n : Node) : Prop where
  resolve : fs.resolve p = .ok (l, some n)
  ino : fs.ino l = some i
  inode : fs.inode i = some n
  empty : sIsreg n.stMode = true → n.data = []
  link : sIslnk n.stMode = false
  file : sIsdir n.stMode = false

theorem emptied_opened (hp : p.names ≠ []) (h : w.emptied p = .ok (i, fs)) :
    ∃ l n, Opened fs p i l n := by
  rcases emptied_ok h with ⟨l, d, hres, hd, rfl, rfl⟩ | ⟨l, n, hres, hdir, hsock, hino, rfl⟩
  · have hlink := newFile_islnk w.env d
    exact ⟨l, w.env.newFile d, FileSystem.resolve_put_self hres hlink, FileSystem.ino_put_self _ _ _,
      FileSystem.inode_put_self _ _ _, fun _ => rfl, hlink, newFile_isdir w.env d⟩
  · have hlink := FileSystem.resolve_plain hp hres
    have htype := sameType_emptied w.env n
    have hnode : w.os.fs.inode i = some n := by
      rw [← FileSystem.node_of_ino hino]
      exact FileSystem.resolve_node hres
    have halike := FileSystem.alike_set hnode htype hlink
    refine ⟨l, w.env.emptied n, ?_, hino, FileSystem.inode_set_self hnode _, fun hreg => ?_,
      htype.islnk.trans hlink, htype.isdir.trans hdir⟩
    · rw [halike.resolve hres, FileSystem.node_set_self hino]
    · rw [htype.isreg] at hreg
      rw [Env.emptied, if_pos hreg]

end Emptied

/-! ## The steps after the loop -/

/-- A world that differs from `w₀` in the file `i` alone, as far as files are concerned. -/
structure Wrote (w₀ : World) (i : Nat) (n : Node) (w : World) : Prop where
  env : w.env = w₀.env
  cwd : w.os.cwd = w₀.os.cwd
  fs : w.os.fs = w₀.os.fs.set i n

section Steps

variable {w₀ w w' : World} {l : Loc} {i : Nat} {n m : Node} {p : Route} {path : Text} {uid gid : Id}
  {mode : Mode}

theorem Wrote.quiet (h : Wrote w₀ i n w) (hq : Frame Quiet w w') : Wrote w₀ i n w' :=
  ⟨hq.env.trans h.env, hq.quiet_cwd.trans h.cwd, hq.quiet_fs.trans h.fs⟩

theorem Wrote.set (h : Wrote w₀ i n w) (call : Call) (m : Node) :
    Wrote w₀ i m ((w.record call true).withOs { w.os with fs := w.os.fs.set i m }) := by
  refine ⟨h.env, h.cwd, ?_⟩
  show w.os.fs.set i m = _
  rw [h.fs, FileSystem.set_set]

/-- A pathname that led to the file leads there still. -/
theorem Wrote.opened (h : Wrote w₀ i m w) (hopened : Opened w₀.os.fs p i l n) (htype : n.SameType m) :
    w.os.fs.resolve p = .ok (l, some m) ∧ w.os.fs.ino l = some i := by
  have halike := FileSystem.alike_set hopened.inode htype hopened.link
  rw [h.fs, halike.resolve hopened.resolve, FileSystem.node_set_self hopened.ino]
  exact ⟨rfl, hopened.ino⟩

theorem step_none {condition : Sys Bool} {message : String} {next : Sys (Option String)}
    (h : step condition message next w = (.ok none, w')) :
    ∃ w₁, condition w = (.ok true, w₁) ∧ next w₁ = (.ok none, w') := by
  obtain ⟨b, w₁, hcond, hnext⟩ := bind_eq_ok h
  cases b with
  | false => cases hnext
  | true => exact ⟨w₁, hcond, hnext⟩

/-- A condition on the result of a call. -/
theorem condition_true {α : Type} {call : Sys α} {p : α → Prop} [DecidablePred p]
    (h : (do return decide (p (← call)) : Sys Bool) w = (.ok true, w')) :
    ∃ r, call w = (.ok r, w') ∧ p r := by
  obtain ⟨r, w₁, hcall, hr⟩ := bind_eq_ok h
  cases hp : decide (p r) with
  | false => rw [hp] at hr; cases hr
  | true =>
    rw [hp] at hr
    cases hr
    exact ⟨r, hcall, of_decide_eq_true hp⟩

theorem iposixFileOwnershipSet_ok {r : Int} (hr : r ≠ 0)
    (h : iposixFileOwnershipSet path uid gid w = (.ok r, w')) :
    w.env.uid = 0 ∧ path ≠ [] ∧ ∃ l i n,
      w.os.fs.resolve (Foundation.route w.os.cwd path) = .ok (l, some n) ∧ w.os.fs.ino l = some i ∧
        w' = (w.record (.chown path uid gid) true).withOs
          { w.os with fs := w.os.fs.set i (w.env.chowned uid gid n) } := by
  obtain ⟨r', w₁, hchown, hresult⟩ := bind_eq_ok h
  have hnot : r' ≠ -1 := by
    rintro rfl
    cases hresult
    exact hr rfl
  cases hresult
  obtain ⟨fs, hf, rfl⟩ := fsCall_ok hnot hchown
  obtain ⟨hne, hf⟩ := route_bind hf
  obtain ⟨l, i, n, n', hres, hi, hn', rfl⟩ := FileSystem.update_eq hf
  split at hn'
  · cases hn'
  · rename_i hroot
    cases hn'
    exact ⟨not_not.mp hroot, hne, l, i, n, hres, hi, rfl⟩

theorem rename_ok {old new : Text} {r : Int} (hr : r ≠ -1) (h : rename old new w = (.ok r, w')) :
    new ≠ [] ∧ w.os.fs.rename (Foundation.route w.os.cwd old) (Foundation.route w.os.cwd new) =
        .ok w'.os.fs ∧
      w' = (w.record (.rename old new) true).withOs { w.os with fs := w'.os.fs } := by
  obtain ⟨fs, hf, rfl⟩ := fsCall_ok hr h
  obtain ⟨-, hf⟩ := route_bind hf
  obtain ⟨hne, hf⟩ := route_bind hf
  exact ⟨hne, hf, rfl⟩

/-- The frame of a call that is only waited for. -/
theorem condition_quiet {α : Type} {call : Sys α} {p : α → Prop} [DecidablePred p]
    (hq : Keeps (Frame Quiet) call)
    (h : (do return decide (p (← call)) : Sys Bool) w = (.ok true, w')) : Frame Quiet w w' := by
  obtain ⟨r, hcall, -⟩ := condition_true h
  exact Frame.of_run hq hcall

end Steps

end CStringVerified.Install
