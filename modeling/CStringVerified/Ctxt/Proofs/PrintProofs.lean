import CStringVerified.Ctxt.Proofs.ScanProofs

/-!
# What `mk-ctxt` prints

The program always ends. The elements that it prints are what the rounds find in `buf`, as `int`, and a
zero.
-/

namespace CStringVerified.Ctxt

open Foundation Foundation.Run

/-- What the rounds print of the chunks, from what is in `buf` on. -/
def printed (cells : List Byte) : List Chunk → List Byte
  | [] => []
  | chunk :: chunks =>
    (roundCells cells chunk.bytes).take chunk.bytes.length ++
      printed (roundCells cells chunk.bytes) chunks

section Rounds

variable {charSigned : Bool} {s : State} {chunk : Chunk} {stdin : List (Option Chunk)}

theorem stripNewline_run {i : Nat} (h : i < bufSize) (s : State) :
    ∃ buf, stripNewline i s = (.ok (), { s with buf := buf }) ∧
      buf.cells = stripFrom s.buf.cells i := by
  induction i with
  | zero => exact ⟨s.buf, rfl, rfl⟩
  | succ i ih =>
    obtain ⟨c, hload, hc⟩ := @CArray.load_cells _ _ s.buf _ h
    rw [stripNewline, get_bind_apply, hload, stripFrom, hc]
    by_cases hnewline : c = newline
    · obtain ⟨buf, hstore, hcells⟩ := @CArray.store_cells _ _ s.buf _ 0 h
      refine ⟨buf, ?_, ?_⟩
      · have hrun : (orFail .overrun (some c) : Run Crash State Byte) s = (.ok c, s) := rfl
        rw [bind_ok hrun, if_pos hnewline, hstore]
        rfl
      · rw [if_pos (congrArg some hnewline), hcells]
    · obtain ⟨buf, hrest, hcells⟩ := ih (Nat.lt_of_succ_lt h)
      have hrun : (orFail .overrun (some c) : Run Crash State Byte) s = (.ok c, s) := rfl
      refine ⟨buf, ?_, ?_⟩
      · rw [bind_ok hrun, if_neg hnewline, hrest]
      · rw [if_neg fun heq => hnewline (Option.some.inj heq), hcells]

/-- What printing leaves as it is. -/
structure Prints (s : State) (ints : List (BitVec 32)) (s' : State) : Prop where
  stdin : s'.stdin = s.stdin
  flushes : s'.flushes = s.flushes
  buf : s'.buf = s.buf
  elements : elements s'.stdout = elements s.stdout ++ ints

theorem Prints.trans {s₁ s₂ : State} {ints ints' : List (BitVec 32)} (h : Prints s ints s₁)
    (h' : Prints s₁ ints' s₂) : Prints s (ints ++ ints') s₂ :=
  ⟨h'.stdin.trans h.stdin, h'.flushes.trans h.flushes, h'.buf.trans h.buf, by
    rw [h'.elements, h.elements, List.append_assoc]⟩

theorem elements_append (out out' : List Printed) : elements (out ++ out') = elements out ++ elements out' :=
  List.filterMap_append

/-- One round of the loop that prints. -/
theorem printBytes_succ {num : Nat} {c : Byte} (hload : s.buf.load num = some c) (left : Nat) :
    ∃ s₁, printBytes charSigned num (left + 1) s = printBytes charSigned (num + 1) left s₁ ∧
      Prints s [toInt charSigned c] s₁ := by
  by_cases hline : 72 ≤ s.line + 6
  · refine ⟨{ s with
      stdout := s.stdout ++ [.element (toInt charSigned c)] ++ [.lineBreak]
      bytes := s.bytes + 1
      line := 0 }, ?_, rfl, rfl, rfl, ?_⟩
    · rw [printBytes, get_bind_apply, hload]
      simp only [if_pos hline]
      rfl
    · show elements (_ ++ _ ++ _) = _
      rw [elements_append, elements_append, List.append_assoc]
      rfl
  · refine ⟨{ s with
      stdout := s.stdout ++ [.element (toInt charSigned c)]
      bytes := s.bytes + 1
      line := s.line + 6 }, ?_, rfl, rfl, rfl, elements_append _ _⟩
    rw [printBytes, get_bind_apply, hload]
    simp only [if_neg hline]
    rfl

theorem printBytes_run {num left : Nat} (h : num + left ≤ bufSize) (s : State) :
    ∃ s', printBytes charSigned num left s = (.ok (), s') ∧
      Prints s (((s.buf.cells.drop num).take left).map (toInt charSigned)) s' := by
  induction left generalizing num s with
  | zero => exact ⟨s, rfl, rfl, rfl, rfl, (List.append_nil _).symm⟩
  | succ left ih =>
    obtain ⟨c, hload, hc⟩ := @CArray.load_cells _ _ s.buf num (by omega)
    obtain ⟨s₁, hstep, hprints⟩ := @printBytes_succ charSigned s num c hload left
    obtain ⟨s', hrun, hprints'⟩ := @ih (num + 1) (by omega) s₁
    obtain ⟨hnum, hget⟩ := List.getElem?_eq_some_iff.mp hc
    refine ⟨s', hstep.trans hrun, ?_⟩
    rw [List.drop_eq_getElem_cons hnum, hget, List.take_succ_cons, List.map_cons]
    rw [hprints.buf] at hprints'
    exact hprints.trans hprints'

/-- A round that reads a chunk. -/
theorem round_chunk (hstdin : s.stdin = some chunk :: stdin) :
    ∃ s', round charSigned false s = (.ok (.inl false), s') ∧ s'.stdin = stdin ∧
      s'.flushes = s.flushes ∧ s'.buf.cells = roundCells s.buf.cells chunk.bytes ∧
      elements s'.stdout = elements s.stdout ++
        ((roundCells s.buf.cells chunk.bytes).take chunk.bytes.length).map (toInt charSigned) := by
  obtain ⟨buf, hbuf, hcells⟩ := @CArray.memcpy_cells _ _ s.buf _ chunk.fits
  have hread : read s = (.ok (some chunk.bytes.length), { s with stdin := stdin, buf := buf }) := by
    rw [read, get_bind_apply, hstdin]
    dsimp only
    rw [hbuf]
    rfl
  have hscan : ∃ buf', (if chunk.bytes.length ≠ bufSize then stripNewline chunk.bytes.length
        else pure ()) { s with stdin := stdin, buf := buf } =
          (.ok (), { s with stdin := stdin, buf := buf' }) ∧
      buf'.cells = roundCells s.buf.cells chunk.bytes := by
    unfold roundCells
    dsimp only
    rw [← hcells]
    by_cases hfull : chunk.bytes.length ≠ bufSize
    · rw [if_pos hfull, if_pos hfull]
      exact stripNewline_run (lt_of_le_of_ne chunk.fits hfull) _
    · rw [if_neg hfull, if_neg hfull]
      exact ⟨buf, rfl, rfl⟩
  obtain ⟨buf', hscan, hcells'⟩ := hscan
  obtain ⟨s', hprint, hprints⟩ := @printBytes_run charSigned 0 chunk.bytes.length
    (by rw [Nat.zero_add]; exact chunk.fits) { s with stdin := stdin, buf := buf' }
  have hmore : decide (chunk.bytes.length = 0) = false :=
    decide_eq_false fun hzero => chunk.ne_nil (List.eq_nil_of_length_eq_zero hzero)
  refine ⟨s', ?_, hprints.stdin, hprints.flushes, (congrArg CArray.cells hprints.buf).trans hcells', ?_⟩
  · rw [round, if_neg Bool.false_ne_true, bind_ok hread]
    dsimp only
    by_cases hfull : chunk.bytes.length ≠ bufSize
    · rw [if_pos hfull] at hscan ⊢
      rw [bind_ok hscan, bind_ok hprint, hmore]
      rfl
    · rw [if_neg hfull] at hscan ⊢
      have hsame := congrArg Prod.snd hscan
      rw [pure_apply] at hsame
      dsimp only at hsame
      rw [hsame, bind_ok hprint, hmore]
      rfl
  · rw [hprints.elements, List.drop_zero, hcells']

/-- The round that meets the end of the file, and the test of the loop after it. -/
theorem round_end (hstdin : s.stdin = []) :
    round charSigned false s = (.ok (.inl true), s) ∧ round charSigned true s = (.ok (.inr none), s) := by
  have hread : read s = (.ok (some 0), s) := by
    rw [read, get_bind_apply, hstdin]
    rfl
  refine ⟨?_, rfl⟩
  rw [round, if_neg Bool.false_ne_true, bind_ok hread]
  rfl

/-- The main loop reads all chunks and ends. -/
theorem loop_run {chunks : List Chunk} {fuel : Nat} (hstdin : s.stdin = chunks.map some)
    (hfuel : chunks.length + 2 ≤ fuel) :
    ∃ s', Run.loop (round charSigned) (fun _ => Run.fail .diverges) fuel false s = (.ok none, s') ∧
      s'.flushes = s.flushes ∧ elements s'.stdout =
        elements s.stdout ++ (printed s.buf.cells chunks).map (toInt charSigned) := by
  induction chunks generalizing fuel s with
  | nil =>
    obtain ⟨fuel, rfl⟩ := Nat.exists_eq_add_of_le' hfuel
    obtain ⟨hend, hdone⟩ := @round_end charSigned s hstdin
    refine ⟨s, (loop_continue hend).trans (loop_return hdone), rfl, ?_⟩
    rw [printed, List.map_nil, List.append_nil]
  | cons chunk chunks ih =>
    cases fuel with
    | zero => exact absurd hfuel (Nat.not_succ_le_zero _)
    | succ fuel =>
      obtain ⟨s₁, hround, hstdin₁, hflushes₁, hcells₁, helements₁⟩ :=
        @round_chunk charSigned s chunk _ hstdin
      have hfuel' : chunks.length + 2 ≤ fuel := by
        rw [List.length_cons] at hfuel
        omega
      obtain ⟨s', hrun, hflushes', helements'⟩ := ih hstdin₁ hfuel'
      refine ⟨s', (loop_continue hround).trans hrun, hflushes'.trans hflushes₁, ?_⟩
      rw [helements', helements₁, hcells₁, printed, List.map_append, List.append_assoc]

/-- `main` ends, and this is what it prints. -/
theorem main_run (charSigned : Bool) (prog name : Text) (chunks : List Chunk) (flushes : Bool) :
    ∃ s', main charSigned [prog, name] (start chunks flushes) =
        (.ok (if flushes then 0 else 111), s') ∧
      elements s'.stdout =
        (printed (List.replicate bufSize 0) chunks).map (toInt charSigned) ++ [0] := by
  obtain ⟨s₀, hopen, hstdin, hflushes₀, hbuf, helements₀⟩ : ∃ s₀,
      printf (.opening name) (start chunks flushes) = (.ok (), s₀) ∧ s₀.stdin = chunks.map some ∧
        s₀.flushes = flushes ∧ s₀.buf.cells = List.replicate bufSize 0 ∧ elements s₀.stdout = [] :=
    ⟨_, rfl, rfl, rfl, rfl, rfl⟩
  have hlen : s₀.stdin.length = chunks.length := by rw [hstdin, List.length_map]
  obtain ⟨s', hloop, hflushes, helements⟩ := @loop_run charSigned _ _ _ hstdin (Nat.le_refl _)
  refine ⟨{ s' with stdout := s'.stdout ++ [.closing] ++ [.length name s'.bytes] }, ?_, ?_⟩
  · unfold main
    dsimp only
    rw [bind_ok hopen, get_bind_apply, hlen, bind_ok hloop, ← hflushes₀, ← hflushes]
    rfl
  · show elements (_ ++ _ ++ _) = _
    rw [elements_append, elements_append, helements, helements₀, hbuf, List.nil_append,
      List.append_assoc]
    rfl

end Rounds

end CStringVerified.Ctxt
