import CStringVerified.Install.Buffers
import CStringVerified.Install.Proofs.CheckProofs
import CStringVerified.Install.Proofs.CopyProofs

/-!
# What `libname` makes of a virtual library file

The scan over `read_buf` stops at the first blank, or at the end of what was read; the copy and its nul
fit into `buf` exactly if that is before the end of the array. What `buf` holds then is the first word
of the file.
-/

namespace CStringVerified.Install

open Foundation Foundation.Run

/-! ## The scan -/

/-- The characters up to the first blank. -/
def untilBlank (text : Text) : Text := text.takeWhile fun c => !isBlank c

theorem cleanScan_succ {b : Buffer installMaxPathlen} {s : Nat} {c : Char} (hload : b.load s = some c)
    (r : Nat) : cleanScan b s (r + 1) =
      if isBlank c then do
        let b ← inBounds (b.store s '\x00')
        pure (b, s)
      else
        cleanScan b (s + 1) r := by
  rw [cleanScan, hload]
  rfl

/-- The scan stops at the first blank, and what is before it stays as it is. -/
theorem cleanScan_starts {b : Buffer installMaxPathlen} {before rest : Text}
    (h : before ++ rest <+: b.cells) (w : World) :
    ∃ b', cleanScan b before.length rest.length w =
        (.ok (b', before.length + (untilBlank rest).length), w) ∧
      before ++ untilBlank rest <+: b'.cells := by
  induction rest generalizing before with
  | nil => exact ⟨b, rfl, h⟩
  | cons c rest ih =>
    have hload : b.load before.length = some c := by
      rw [CArray.load_starts h (by simp), List.getElem_append_right (Nat.le_refl _)]
      simp
    have hbefore : before <+: b.cells := (List.prefix_append _ _).trans h
    have hroom : before.length < installMaxPathlen := by
      have hlen := h.length_le
      rw [b.length_eq, List.length_append, List.length_cons] at hlen
      omega
    rw [List.length_cons, cleanScan_succ hload]
    by_cases hblank : isBlank c = true
    · obtain ⟨b', hstore, hstarts⟩ := CArray.store_starts (c := '\x00') hbefore hroom
      have hnil : untilBlank (c :: rest) = [] :=
        List.takeWhile_cons_of_neg (by simpa using hblank)
      refine ⟨b', ?_, ?_⟩
      · rw [if_pos hblank, hstore, hnil]
        rfl
      · rw [hnil, List.append_nil]
        exact (List.prefix_append _ _).trans hstarts
    · have hcons : untilBlank (c :: rest) = c :: untilBlank rest :=
        List.takeWhile_cons_of_pos (by simpa using hblank)
      have hmove : before ++ c :: rest = before ++ [c] ++ rest := by simp
      obtain ⟨b', hscan, hstarts⟩ := @ih (before ++ [c]) (by rwa [← hmove])
      rw [List.length_append, List.length_singleton] at hscan
      refine ⟨b', ?_, ?_⟩
      · rw [if_neg hblank, hscan, hcons, List.length_cons, Nat.add_assoc, Nat.add_comm 1]
      · rw [hcons]
        simpa using hstarts

/-! ## The copy -/

/-- What the scan and the copy leave in `buf`, if all that is copied fits. -/
theorem copied_word {readBuf buf : Buffer installMaxPathlen} {text : Text}
    (hlen : text.length ≤ installMaxPathlen) (w : World) :
    ∃ b b' c, readBuf.memcpy 0 text = some b ∧
      cleanScan b 0 text.length w = (.ok (b', (untilBlank text).length), w) ∧
      b'.cells.take (untilBlank text).length = untilBlank text ∧
      buf.memcpy 0 (untilBlank text) = some c ∧ untilBlank text <+: c.cells := by
  have hword : (untilBlank text).length ≤ installMaxPathlen :=
    (List.takeWhile_sublist _).length_le.trans hlen
  obtain ⟨b, hb, hstarts⟩ := @CArray.memcpy_starts _ _ readBuf [] text List.nil_prefix (by simpa using hlen)
  obtain ⟨b', hscan, hstarts'⟩ := cleanScan_starts hstarts w
  obtain ⟨c, hc, hcopied⟩ := @CArray.memcpy_starts _ _ buf [] (untilBlank text) List.nil_prefix
    (by simpa using hword)
  rw [List.length_nil, Nat.zero_add] at hscan
  exact ⟨b, b', c, hb, hscan, (List.prefix_iff_eq_take.mp hstarts').symm, hc, hcopied⟩

/-! ## `libname` on arrays -/

/-- How `libname` on arrays ends where it ends so on texts. -/
inductive ReadsAs : Except Crash (Option Text) → Except Crash (Int × Buffer installMaxPathlen) → Prop
  | refused (buf : Buffer installMaxPathlen) : ReadsAs (.ok none) (.ok (0, buf))
  | accepted {token : Text} {buf : Buffer installMaxPathlen} (h : buf.cString = some token) :
    ReadsAs (.ok (some token)) (.ok (1, buf))
  | crashed (c : Crash) : ReadsAs (.error c) (.error c)

theorem ReadsAs.of_none {r : Except Crash (Int × Buffer installMaxPathlen)} (h : ReadsAs (.ok none) r) :
    ∃ buf, r = .ok (0, buf) := by
  cases h with
  | refused buf => exact ⟨buf, rfl⟩

theorem ReadsAs.of_some {r : Except Crash (Int × Buffer installMaxPathlen)} {token : Text}
    (h : ReadsAs (.ok (some token)) r) : ∃ buf, r = .ok (1, buf) ∧ buf.cString = some token := by
  cases h with
  | accepted htoken => exact ⟨_, rfl, htoken⟩

theorem ReadsAs.of_error {r : Except Crash (Int × Buffer installMaxPathlen)} {c : Crash}
    (h : ReadsAs (.error c) r) : r = .error c := by
  cases h with
  | crashed => rfl

section Arrays

variable {w w' : World} {name text : Text} {fd : Handle} {size : Nat}

theorem ferror_ok {b : Bool} (h : ferror fd w = (.ok b, w')) : w' = w := by
  cases hs : w.os.streams[fd]? with
  | none =>
    rw [ferror, stream, bind_apply, get_bind_apply, hs] at h
    cases h
  | some s =>
    rw [ferror_apply hs] at h
    cases h
    rfl

theorem fread_length (h : fread fd size w = (.ok text, w')) : text.length ≤ size := by
  unfold fread at h
  obtain ⟨s, w₁, -, h⟩ := bind_eq_ok h
  obtain ⟨r, w₂, hcall, h⟩ := bind_eq_ok h
  cases r with
  | none =>
    obtain ⟨_, w₃, -, h⟩ := bind_eq_ok h
    cases h
    exact Nat.zero_le size
  | some text' =>
    cases h
    obtain ⟨os, hf, -⟩ := sysCall_some hcall
    cases hn : w₁.os.fs.inode s.ino with
    | none => rw [hn] at hf; cases hf
    | some n =>
      simp only [hn] at hf
      split at hf
      · cases hf
      · cases hf
        rw [List.length_take, World.transfer]
        omega

/-- Both end by closing the file. -/
theorem readsAs_closed {buf : Buffer installMaxPathlen} {token : Text} (hbuf : buf.cString = some token)
    (fp : Handle) (w : World) :
    ReadsAs ((fclose fp >>= fun closed => pure (if closed ≠ 0 then none else some token)) w).1
        ((fclose fp >>= fun closed => pure (if closed ≠ 0 then 0 else 1, buf)) w).1 ∧
      ((fclose fp >>= fun closed => (pure (if closed ≠ 0 then 0 else 1, buf) : Sys (Int × _))) w).2 =
        ((fclose fp >>= fun closed => pure (if closed ≠ 0 then none else some token)) w).2 := by
  rcases hclose : fclose fp w with ⟨e | r, w'⟩
  · rw [bind_error hclose, bind_error hclose]
    exact ⟨.crashed e, rfl⟩
  · rw [bind_ok hclose, bind_ok hclose]
    refine ⟨?_, rfl⟩
    by_cases hr : r = 0
    · rw [if_neg (not_not_intro hr), if_neg (not_not_intro hr)]
      exact .accepted hbuf
    · rw [if_pos hr, if_pos hr]
      exact .refused buf

/-- The loop on arrays does what the one on texts does, whatever is in the arrays. -/
theorem libnameC_readsAs (readBuf buf : Buffer installMaxPathlen) (name : Text) (w : World) :
    ReadsAs (libname name w).1 (libnameC readBuf buf name w).1 ∧
      (libnameC readBuf buf name w).2 = (libname name w).2 := by
  unfold libname libnameC
  rcases hopen : fopenRead name w with ⟨e | fp, w₁⟩
  · rw [bind_error hopen, bind_error hopen]
    exact ⟨.crashed e, rfl⟩
  rw [bind_ok hopen, bind_ok hopen]
  cases fp with
  | none => exact ⟨.refused buf, rfl⟩
  | some fp =>
    dsimp only
    rcases hread : fread fp installMaxPathlen w₁ with ⟨e | text, w₂⟩
    · rw [bind_error hread, bind_error hread]
      exact ⟨.crashed e, rfl⟩
    obtain ⟨b, b', c, hb, hscan, htake, hc, hcopied⟩ :=
      @copied_word readBuf buf text (fread_length hread) w₂
    have hb' : (inBounds (readBuf.memcpy 0 text) : Sys _) w₂ = (.ok b, w₂) := by rw [hb]; rfl
    rw [bind_ok hread, bind_ok hread, bind_ok hb']
    rcases herror : ferror fp w₂ with ⟨e | err, w₃⟩
    · rw [bind_error herror, bind_error herror]
      exact ⟨.crashed e, rfl⟩
    obtain rfl := ferror_ok herror
    rw [bind_ok herror, bind_ok herror]
    by_cases hshort : text.length < installMaxPathlen ∧ err = true
    · rw [if_pos hshort, if_pos hshort]
      rcases hclose : fclose fp w₃ with ⟨e | r, w₄⟩
      · rw [bind_error hclose, bind_error hclose]
        exact ⟨.crashed e, rfl⟩
      · rw [bind_ok hclose, bind_ok hclose]
        exact ⟨.refused buf, rfl⟩
    · rw [if_neg hshort, if_neg hshort, bind_ok hscan]
      have hc' : (inBounds (buf.memcpy 0 (b'.cells.take (untilBlank text).length)) : Sys _) w₃ =
          (.ok c, w₃) := by rw [htake, hc]; rfl
      have huntil : (text.takeWhile fun c => !isBlank c) = untilBlank text := rfl
      dsimp only
      rw [bind_ok hc', huntil]
      by_cases hfull : installMaxPathlen ≤ (untilBlank text).length
      · have hstore : (inBounds (c.store (untilBlank text).length '\x00') : Sys _) w₃ =
            (.error .overrun, w₃) := by rw [CArray.store_none hfull]; rfl
        rw [bind_error hstore, if_pos hfull]
        exact ⟨.crashed .overrun, rfl⟩
      · obtain ⟨d, hd, hstarts⟩ := CArray.store_starts (c := '\x00') hcopied (Nat.lt_of_not_le hfull)
        have hstore : (inBounds (c.store (untilBlank text).length '\x00') : Sys _) w₃ =
            (.ok d, w₃) := by rw [hd]; rfl
        rw [bind_ok hstore, if_neg hfull]
        exact readsAs_closed (CArray.cString_starts hstarts) fp w₃

end Arrays

/-! ## What is read -/

section Reading

variable {w : World} {name : Text} {fd : Handle} {s : Stream} {l : Loc} {n : Node}

theorem fopenRead_refused (h : w.env.faults w.tick ≠ none ∨
      ∀ n, statAt w name = some n → sIssock n.stMode = true) :
    ∃ w₁, fopenRead name w = (.ok none, w₁) := by
  rcases sysCall_cases (.fopenRead name) _ w with ⟨fd, os, hfault, -, hrun⟩ | ⟨e, -, hrun⟩
  · have hopen : fopenRead name w = (.ok (some fd), _) := hrun
    obtain ⟨l, n, i, hne, hres, hi, -⟩ := fopenRead_ok hopen
    rcases h with h | h
    · exact absurd hfault h
    · have hsock := (opened_eq_ok.mp hi).1
      rw [h n (statAt_eq_some.mpr ⟨hne, l, hres⟩)] at hsock
      cases hsock
  · exact ⟨_, hrun⟩

/-- A file that can be opened. -/
theorem statAt_opened {n : Node} (hstat : statAt w name = some n) (hsock : sIssock n.stMode = false) :
    ∃ l i, name ≠ [] ∧ w.os.fs.resolve (Foundation.route w.os.cwd name) = .ok (l, some n) ∧
      w.opened l n = .ok i ∧ w.os.fs.inode i = some n := by
  obtain ⟨hne, l, hres⟩ := statAt_eq_some.mp hstat
  obtain ⟨i, hi, hn⟩ := FileSystem.ino_of_node (FileSystem.resolve_node hres)
  exact ⟨l, i, hne, hres, opened_eq_ok.mpr ⟨hsock, hi⟩, hn⟩

theorem fread_found (hfault : w.env.faults w.tick = none)
    (hfull : installMaxPathlen ≤ w.env.chunks w.tick) (hs : w.os.streams[fd]? = some s)
    (hpos : s.pos = 0) (hn : w.os.fs.inode s.ino = some n) (hfile : sIsdir n.stMode = false) :
    ∃ w₁ s', fread fd installMaxPathlen w = (.ok (n.data.take installMaxPathlen), w₁) ∧
      (w₁.env = w.env ∧ w₁.tick = w.tick + 1) ∧ w₁.os.streams[fd]? = some s' ∧ s'.err = s.err := by
  have hlt : fd < w.os.streams.length := (List.getElem?_eq_some_iff.mp hs).1
  have htransfer : w.transfer installMaxPathlen = installMaxPathlen := by
    unfold World.transfer
    omega
  rcases fread_run installMaxPathlen hs with ⟨n', -, hn', -, hrun⟩ | ⟨e, he, -⟩
  · obtain rfl := Option.some.inj (hn.symm.trans hn')
    have hblock : w.block s n installMaxPathlen = n.data.take installMaxPathlen := by
      rw [World.block, hpos, htransfer, List.drop_zero]
    rw [hrun, hblock]
    exact ⟨_, _, rfl, ⟨rfl, rfl⟩, List.getElem?_set_self hlt, rfl⟩
  · rw [he hfault n hn] at hfile
    cases hfile

theorem fread_failed (h : w.env.faults w.tick ≠ none ∨ sIsdir n.stMode = true)
    (hs : w.os.streams[fd]? = some s) (hn : w.os.fs.inode s.ino = some n) :
    ∃ w₁ s', fread fd installMaxPathlen w = (.ok [], w₁) ∧ w₁.os.streams[fd]? = some s' ∧
      s'.err = true := by
  rcases fread_run installMaxPathlen hs with ⟨n', hfault, hn', hfile, -⟩ | ⟨e, -, hrun⟩
  · obtain rfl := Option.some.inj (hn.symm.trans hn')
    rw [h.resolve_left (not_not_intro hfault)] at hfile
    cases hfile
  · have hlt : fd < w.os.streams.length := (List.getElem?_eq_some_iff.mp hs).1
    exact ⟨_, { s with err := true }, hrun, List.getElem?_set_self hlt, rfl⟩

/-- The file cannot be opened, or not be read. -/
def Unread (w : World) (name : Text) : Prop :=
  w.env.faults w.tick ≠ none ∨ w.env.faults (w.tick + 1) ≠ none ∨
    ∀ n, statAt w name = some n → sIsdir n.stMode = true ∨ sIssock n.stMode = true

/-- A file that is not read has no name in it. -/
theorem libname_unread (h : Unread w name) : ∃ w', libname name w = (.ok none, w') := by
  unfold libname
  by_cases hopen : w.env.faults w.tick ≠ none ∨ ∀ n, statAt w name = some n → sIssock n.stMode = true
  · obtain ⟨w₁, hrun⟩ := fopenRead_refused hopen
    exact ⟨w₁, bind_ok hrun⟩
  · obtain ⟨hfault, hthere⟩ := not_or.mp hopen
    push Not at hthere
    obtain ⟨n, hn, hsock⟩ := hthere
    obtain ⟨l, i, hne, hres, hi, hnode⟩ := statAt_opened hn (Bool.eq_false_iff.mpr hsock)
    have hs : (openStream w.os i).2.streams[w.os.streams.length]? =
        some ⟨i, 0, false, false, false⟩ := by simp [openStream]
    have hfail : w.env.faults (w.tick + 1) ≠ none ∨ sIsdir n.stMode = true :=
      (h.resolve_left hfault).imp_right fun hdir => (hdir n hn).resolve_right hsock
    obtain ⟨w₁, s', hread, hs', herr⟩ := fread_failed
      (w := (w.record (.fopenRead name) true).withOs (openStream w.os i).2) hfail hs hnode
    obtain ⟨w₂, hclose, -⟩ := fclose_passed w.os.streams.length w₁
    rw [bind_ok (fopenRead_found (not_not.mp hfault) hne hres hi)]
    dsimp only
    rw [bind_ok hread, bind_ok (ferror_apply hs'), herr, if_pos ⟨by decide, rfl⟩, bind_ok hclose]
    exact ⟨w₂, rfl⟩

/-- A file that is read gives its first characters up to a blank, as a C string, if they fit. -/
theorem libname_read (hopen : w.env.faults w.tick = none)
    (hread : w.env.faults (w.tick + 1) = none)
    (hfull : installMaxPathlen ≤ w.env.chunks (w.tick + 1)) (hstat : statAt w name = some n)
    (hfile : sIsdir n.stMode = false) (hsock : sIssock n.stMode = false) :
    (libname name w).1 =
      let token := untilBlank (n.data.take installMaxPathlen)
      if installMaxPathlen ≤ token.length then .error .overrun
      else if w.env.faults (w.tick + 2) = none then
        .ok (some (token.takeWhile fun c => c ≠ '\x00'))
      else .ok none := by
  obtain ⟨l, i, hne, hres, hi, hnode⟩ := statAt_opened hstat hsock
  have hs : (openStream w.os i).2.streams[w.os.streams.length]? =
      some ⟨i, 0, false, false, false⟩ := by simp [openStream]
  obtain ⟨w₁, s', hreads, ⟨henv, htick⟩, hs', herr⟩ := fread_found
    (w := (w.record (.fopenRead name) true).withOs (openStream w.os i).2) hread hfull hs rfl hnode
    hfile
  obtain ⟨w₂, hclose, -⟩ := fclose_passed w.os.streams.length w₁
  have henv' : w₁.env = w.env := henv
  have htick' : w₁.tick = w.tick + 2 := htick
  rw [henv', htick'] at hclose
  unfold libname
  rw [bind_ok (fopenRead_found hopen hne hres hi)]
  dsimp only
  rw [bind_ok hreads, bind_ok (ferror_apply hs'), herr,
    if_neg (fun hand => Bool.false_ne_true hand.2)]
  have huntil : ((n.data.take installMaxPathlen).takeWhile fun c => !isBlank c) =
      untilBlank (n.data.take installMaxPathlen) := rfl
  rw [huntil]
  by_cases hlong : installMaxPathlen ≤ (untilBlank (n.data.take installMaxPathlen)).length
  · rw [if_pos hlong, if_pos hlong]
    rfl
  · rw [if_neg hlong, if_neg hlong, bind_ok hclose]
    by_cases hfault : w.env.faults (w.tick + 2) = none
    · rw [if_pos hfault, if_pos hfault]
      rfl
    · rw [if_neg hfault, if_neg hfault]
      rfl

theorem untilBlank_take (text : Text) (k : Nat) : untilBlank (text.take k) = (untilBlank text).take k :=
  List.take_takeWhile.symm

/-- A file that fills `read_buf` without a blank is too much for `buf`. -/
theorem libname_overruns (hopen : w.env.faults w.tick = none)
    (hread : w.env.faults (w.tick + 1) = none)
    (hfull : installMaxPathlen ≤ w.env.chunks (w.tick + 1)) (hstat : statAt w name = some n)
    (hfile : sIsdir n.stMode = false) (hsock : sIssock n.stMode = false)
    (hlong : installMaxPathlen ≤ (untilBlank n.data).length) :
    (libname name w).1 = .error .overrun := by
  have htake : ((untilBlank n.data).take installMaxPathlen).length = installMaxPathlen :=
    List.length_take_of_le hlong
  rw [libname_read hopen hread hfull hstat hfile hsock, untilBlank_take]
  dsimp only
  rw [if_pos (Nat.le_of_eq htake.symm)]

end Reading

/-! ## The first word -/

/-- The characters up to the first blank or nul. -/
def firstWord (text : Text) : Text := text.takeWhile fun c => !isBlank c && c ≠ '\x00'

theorem firstWord_eq (text : Text) : firstWord text = (untilBlank text).takeWhile fun c => c ≠ '\x00' := by
  rw [untilBlank, List.takeWhile_takeWhile, firstWord]
  refine congrArg (fun p => List.takeWhile p text) (funext fun c => ?_)
  cases isBlank c <;> simp

theorem firstWord_le (text : Text) : (firstWord text).length ≤ (untilBlank text).length := by
  rw [firstWord_eq]
  exact (List.takeWhile_sublist _).length_le

/-- What `libname (name, buf)` does with the file `name` is right: it returns 0 or 1 without leaving an
array, accepts only a file whose first word is in `buf` then, and no file whose first word does not fit. -/
structure LibnameRight (w : World) (readBuf buf : Buffer installMaxPathlen) (name : Text) : Prop where
  ends : ∃ r buf', (libnameC readBuf buf name w).1 = .ok (r, buf') ∧ (r = 0 ∨ r = 1)
  accepted : ∀ buf', (libnameC readBuf buf name w).1 = .ok (1, buf') →
    ∃ n, statAt w name = some n ∧ buf'.cString = some (firstWord n.data)
  refused : ∀ n r buf', statAt w name = some n → installMaxPathlen ≤ (firstWord n.data).length →
    (libnameC readBuf buf name w).1 = .ok (r, buf') → r = 0

section Right

variable {w : World} {readBuf buf : Buffer installMaxPathlen} {name : Text}

theorem LibnameRight.of_refused {buf' : Buffer installMaxPathlen}
    (h : (libnameC readBuf buf name w).1 = .ok (0, buf')) : LibnameRight w readBuf buf name := by
  refine ⟨⟨0, buf', h, Or.inl rfl⟩, fun buf'' hone => ?_, fun n r buf'' _ _ hr => ?_⟩
  · rw [h] at hone
    cases hone
  · rw [h] at hr
    cases hr
    rfl

theorem LibnameRight.of_accepted {n : Node} {buf' : Buffer installMaxPathlen}
    (h : (libnameC readBuf buf name w).1 = .ok (1, buf')) (hstat : statAt w name = some n)
    (hfits : (firstWord n.data).length < installMaxPathlen)
    (hword : buf'.cString = some (firstWord n.data)) : LibnameRight w readBuf buf name := by
  refine ⟨⟨1, buf', h, Or.inr rfl⟩, fun buf'' hone => ?_, fun n' r buf'' hn' hlong _ => ?_⟩
  · rw [h] at hone
    cases hone
    exact ⟨n, hstat, hword⟩
  · obtain rfl := Option.some.inj (hstat.symm.trans hn')
    omega

/-- `libname` is right exactly if the file is not read, or has a blank or its end early enough. -/
theorem libname_right_iff (w : World) (readBuf buf : Buffer installMaxPathlen) (name : Text)
    (hfull : installMaxPathlen ≤ w.env.chunks (w.tick + 1)) :
    LibnameRight w readBuf buf name ↔ Unread w name ∨
      ∀ n, statAt w name = some n → (untilBlank n.data).length < installMaxPathlen := by
  obtain ⟨hreads, -⟩ := libnameC_readsAs readBuf buf name w
  by_cases hunread : Unread w name
  · obtain ⟨w', hrun⟩ := libname_unread hunread
    rw [hrun] at hreads
    obtain ⟨buf', hzero⟩ := hreads.of_none
    exact iff_of_true (LibnameRight.of_refused hzero) (Or.inl hunread)
  · obtain ⟨hopen, hrest⟩ := not_or.mp hunread
    obtain ⟨hread, hthere⟩ := not_or.mp hrest
    push Not at hopen hread hthere
    obtain ⟨n, hstat, hdir, hsock⟩ := hthere
    have hdir' := Bool.eq_false_iff.mpr hdir
    have hsock' := Bool.eq_false_iff.mpr hsock
    by_cases hlong : installMaxPathlen ≤ (untilBlank n.data).length
    · rw [libname_overruns hopen hread hfull hstat hdir' hsock' hlong] at hreads
      refine iff_of_false (fun hright => ?_) fun hfits => ?_
      · obtain ⟨r, buf', hends, -⟩ := hright.ends
        rw [hreads.of_error] at hends
        cases hends
      · exact absurd (hfits.resolve_left hunread n hstat) (Nat.not_lt.mpr hlong)
    · have hshort := Nat.lt_of_not_le hlong
      have hfits : ∀ n, statAt w name = some n → (untilBlank n.data).length < installMaxPathlen := by
        intro n' hn'
        obtain rfl := Option.some.inj (hstat.symm.trans hn')
        exact hshort
      refine iff_of_true ?_ (Or.inr hfits)
      rw [libname_read hopen hread hfull hstat hdir' hsock', untilBlank_take,
        List.take_of_length_le (Nat.le_of_lt hshort)] at hreads
      dsimp only at hreads
      rw [if_neg hlong, ← firstWord_eq] at hreads
      by_cases hclose : w.env.faults (w.tick + 2) = none
      · rw [if_pos hclose] at hreads
        obtain ⟨buf', hone, hword⟩ := hreads.of_some
        exact .of_accepted hone hstat ((firstWord_le n.data).trans_lt hshort) hword
      · rw [if_neg hclose] at hreads
        obtain ⟨buf', hzero⟩ := hreads.of_none
        exact .of_refused hzero

end Right

/-- There is a file `l.vlb` with this content. -/
def libraryWorld (data : Text) : World :=
  World.ofFiles [([], ⟨sIfdir ||| 0o755, 0, 0, []⟩),
    (component ['l', '.', 'v', 'l', 'b'], ⟨sIfreg ||| 0o644, 0, 0, data⟩)]

theorem libname_right_iff_a :
    LibnameRight (libraryWorld ['a', '\n']) (Buffer.zero _) (Buffer.zero _) ['l', '.', 'v', 'l', 'b'] ↔
      Unread (libraryWorld ['a', '\n']) ['l', '.', 'v', 'l', 'b'] ∨
        ∀ n, statAt (libraryWorld ['a', '\n']) ['l', '.', 'v', 'l', 'b'] = some n →
          (untilBlank n.data).length < installMaxPathlen :=
  libname_right_iff _ (Buffer.zero _) (Buffer.zero _) ['l', '.', 'v', 'l', 'b'] (by decide)

/-- A word that fills `read_buf`. -/
def longWord : Text := List.replicate installMaxPathlen 'a'

/-- The nul is written behind the end of `buf`. -/
theorem long_word_overruns :
    (libnameC (Buffer.zero _) (Buffer.zero _) ['l', '.', 'v', 'l', 'b'] (libraryWorld longWord)).1 =
        .error .overrun ∧
      ¬LibnameRight (libraryWorld longWord) (Buffer.zero _) (Buffer.zero _)
        ['l', '.', 'v', 'l', 'b'] := by
  have hlen : longWord.length = installMaxPathlen := List.length_replicate
  have hword : untilBlank longWord = longWord := by
    refine List.takeWhile_eq_self_iff.mpr fun c hc => ?_
    rw [List.eq_of_mem_replicate hc]
    rfl
  have hrun : (libname ['l', '.', 'v', 'l', 'b'] (libraryWorld longWord)).1 = .error .overrun :=
    libname_overruns (n := ⟨sIfreg ||| 0o644, 0, 0, longWord⟩) rfl rfl (by decide) rfl rfl rfl
      (by rw [hword, hlen])
  have hreads := (libnameC_readsAs (Buffer.zero _) (Buffer.zero _) ['l', '.', 'v', 'l', 'b']
    (libraryWorld longWord)).1
  rw [hrun] at hreads
  refine ⟨hreads.of_error, fun hright => ?_⟩
  obtain ⟨r, buf', hends, -⟩ := hright.ends
  rw [hreads.of_error] at hends
  cases hends

end CStringVerified.Install
