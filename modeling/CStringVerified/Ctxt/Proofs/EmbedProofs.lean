import CStringVerified.Ctxt.Proofs.PrintProofs

/-!
# Whether `mk-ctxt` embeds a file

The array is the file without its final newline only for some ways to read the file (`Suits`). A file
that is embedded rightly however it is read has no newline behind its first character.
-/

namespace CStringVerified.Ctxt

open Foundation Foundation.Run

/-! ## The array that is wanted -/

/-- The file that is read. -/
def input (chunks : List Chunk) : List Byte := chunks.flatMap Chunk.bytes

/-- A text without its final newline. -/
def chomp (text : List Byte) : List Byte :=
  if text.getLast? = some newline then text.dropLast else text

/-- The `char` that an element becomes. -/
def toChar (element : BitVec 32) : Byte := element.setWidth 8

/-- The C string at the start of an array. -/
def cString (cells : List Byte) : List Byte := cells.takeWhile fun c => c ≠ 0

/-- An initialiser is right: an element is the value of the character, or a zero for the final newline,
and the array is a C string. -/
structure Embeds (text : List Byte) (elems : List (BitVec 32)) : Prop where
  length : elems.length = text.length + 1
  element : ∀ (k : Nat) (c : Byte), text[k]? = some c → elems[k]? = some (c.setWidth 32) ∨
    (k + 1 = text.length ∧ c = newline ∧ elems[k]? = some 0)
  terminated : elems[text.length]? = some 0
  string : cString (elems.map toChar) = chomp text

/-- A text with a nul for its final newline. -/
def target (text : List Byte) : List Byte :=
  if text.getLast? = some newline then text.dropLast ++ [0] else text

/-- The initialiser with these values. -/
def initialiser (text : List Byte) : List (BitVec 32) := text.map (BitVec.setWidth 32) ++ [0]

section Target

variable {text more : List Byte} {elems : List (BitVec 32)}

theorem target_append (hmore : more ≠ []) : target (text ++ more) = text ++ target more := by
  unfold target
  rw [List.getLast?_append_of_ne_nil _ hmore, List.dropLast_append_of_ne_nil hmore]
  split
  · exact List.append_assoc _ _ _
  · rfl

theorem target_concat (text : List Byte) : target (text ++ [newline]) = text ++ [0] := by
  rw [target_append (List.cons_ne_nil _ _)]
  rfl

theorem map_toChar (text : List Byte) : (initialiser text).map toChar = text ++ [0] := by
  have hid : toChar ∘ BitVec.setWidth 32 = (id : Byte → Byte) := by
    funext c
    show (c.setWidth 32).setWidth 8 = c
    rw [BitVec.setWidth_setWidth_of_le c (by decide), BitVec.setWidth_eq]
  rw [initialiser, List.map_append, List.map_map, hid, List.map_id]
  rfl

theorem cString_append (h : 0 ∉ text) : cString (text ++ 0 :: more) = text := by
  have hall : ∀ c ∈ text, decide (c ≠ 0) = true := fun c hc =>
    decide_eq_true fun hzero => h (hzero ▸ hc)
  rw [cString, List.takeWhile_append_of_pos hall, List.takeWhile_cons_of_neg (by decide),
    List.append_nil]

theorem eq_initialiser (hlen : elems.length = text.length + 1)
    (h : ∀ (k : Nat) (c : Byte), text[k]? = some c → elems[k]? = some (c.setWidth 32))
    (hlast : elems[text.length]? = some 0) : elems = initialiser text := by
  refine List.ext_getElem? fun k => ?_
  rw [initialiser]
  rcases Nat.lt_trichotomy k text.length with hk | rfl | hk
  · have hc := List.getElem?_eq_getElem hk
    rw [h k _ hc, List.getElem?_append_left (by rwa [List.length_map]), List.getElem?_map, hc]
    rfl
  · rw [hlast, List.getElem?_append_right (by rw [List.length_map]), List.length_map, Nat.sub_self]
    rfl
  · rw [List.getElem?_eq_none (by omega), List.getElem?_eq_none]
    rw [List.length_append, List.length_map]
    exact hk

theorem initialiser_getElem? {k : Nat} {c : Byte} (h : text[k]? = some c) :
    (initialiser text)[k]? = some (c.setWidth 32) := by
  obtain ⟨hk, -⟩ := List.getElem?_eq_some_iff.mp h
  rw [initialiser, List.getElem?_append_left (by rwa [List.length_map]), List.getElem?_map, h]
  rfl

theorem initialiser_last (text : List Byte) : (initialiser text)[text.length]? = some 0 := by
  rw [initialiser, List.getElem?_append_right (by rw [List.length_map]), List.length_map,
    Nat.sub_self]
  rfl

theorem length_initialiser (text : List Byte) : (initialiser text).length = text.length + 1 := by
  rw [initialiser, List.length_append, List.length_map]
  rfl

/-- A character of a text with one more at its end is one of the text, or that last one. -/
theorem getElem?_concat_cases {init : List Byte} {x c : Byte} {k : Nat}
    (hc : (init ++ [x])[k]? = some c) :
    k < init.length ∧ init[k]? = some c ∨ k = init.length ∧ c = x := by
  rcases Nat.lt_or_ge k init.length with hk | hk
  · rw [List.getElem?_append_left hk] at hc
    exact Or.inl ⟨hk, hc⟩
  · obtain ⟨hk', -⟩ := List.getElem?_eq_some_iff.mp hc
    rw [List.length_append, List.length_singleton] at hk'
    obtain rfl : k = init.length := by omega
    rw [List.getElem?_concat_length] at hc
    exact Or.inr ⟨rfl, (Option.some.inj hc).symm⟩

/-- The right initialiser of a text that ends with a newline. -/
theorem embeds_concat_iff {init : List Byte} (hnul : 0 ∉ init) :
    Embeds (init ++ [newline]) elems ↔ elems = initialiser (init ++ [0]) := by
  have hlen : ∀ c : Byte, (init ++ [c]).length = init.length + 1 := fun c => List.length_append
  have hend : ∀ c : Byte, (init ++ [c])[init.length]? = some c := fun c =>
    List.getElem?_concat_length
  have hchomp : chomp (init ++ [newline]) = init := by
    rw [chomp, if_pos List.getLast?_concat, List.dropLast_concat]
  constructor
  · intro h
    -- The elements are those of the text, the last of them being right or a zero.
    have hshape : ∀ x : Byte, elems[init.length]? = some (x.setWidth 32) →
        elems = initialiser (init ++ [x]) := by
      intro x hx
      refine eq_initialiser ?_ (fun k c hc => ?_) ?_
      · rw [h.length, hlen, hlen]
      · rcases getElem?_concat_cases hc with ⟨hk, hc⟩ | ⟨rfl, rfl⟩
        · have hc' : (init ++ [newline])[k]? = some c := by rwa [List.getElem?_append_left hk]
          rcases h.element k c hc' with heq | ⟨hlast, -⟩
          · exact heq
          · rw [hlen] at hlast
            omega
        · exact hx
      · rw [hlen, ← hlen newline]
        exact h.terminated
    rcases h.element init.length newline (hend newline) with hnew | ⟨-, -, hzero⟩
    · have helems := hshape newline hnew
      have hstring := h.string
      have hnul' : 0 ∉ init ++ [newline] := by
        rw [List.mem_append, not_or]
        exact ⟨hnul, by decide⟩
      rw [helems, map_toChar, cString_append hnul', hchomp] at hstring
      exact absurd (List.append_right_eq_self.mp hstring) (List.cons_ne_nil _ _)
    · exact hshape 0 hzero
  · rintro rfl
    refine ⟨?_, fun k c hc => ?_, ?_, ?_⟩
    · rw [length_initialiser, hlen, hlen]
    · rcases getElem?_concat_cases hc with ⟨hk, hc⟩ | ⟨rfl, rfl⟩
      · exact Or.inl (initialiser_getElem? (by rwa [List.getElem?_append_left hk]))
      · exact Or.inr ⟨(hlen newline).symm, rfl, initialiser_getElem? (hend 0)⟩
    · rw [hlen, ← hlen 0]
      exact initialiser_last _
    · rw [map_toChar, List.append_assoc, hchomp]
      exact cString_append hnul

/-- The right initialiser of a text without nuls is unique. -/
theorem embeds_iff_eq (hnul : 0 ∉ text) : Embeds text elems ↔ elems = initialiser (target text) := by
  by_cases hlast : text.getLast? = some newline
  · obtain ⟨init, rfl⟩ := List.getLast?_eq_some_iff.mp hlast
    rw [target_concat]
    exact embeds_concat_iff fun hmem => hnul (List.mem_append_left _ hmem)
  · rw [target, if_neg hlast]
    constructor
    · intro h
      refine eq_initialiser h.length (fun k c hc => ?_) h.terminated
      refine (h.element k c hc).resolve_right ?_
      rintro ⟨hend, rfl, -⟩
      refine hlast ?_
      rw [List.getLast?_eq_getElem?, ← hc]
      congr 1
      omega
    · rintro rfl
      refine ⟨length_initialiser text, fun k c hc => Or.inl (initialiser_getElem? hc),
        initialiser_last text, ?_⟩
      rw [map_toChar, chomp, if_neg hlast]
      exact cString_append hnul

end Target

/-! ## The way the file is read -/

/-- The chunks suit what is in `buf`: a final newline is found in the last of them, and nothing else is
replaced in any. -/
def Suits : List Byte → List Chunk → Prop
  | _, [] => True
  | cells, [chunk] =>
    if chunk.bytes.getLast? = some newline then StripsChunk cells chunk.bytes
    else KeepsChunk cells chunk.bytes
  | cells, chunk :: chunk' :: chunks =>
    KeepsChunk cells chunk.bytes ∧ Suits (keptCells cells chunk.bytes) (chunk' :: chunks)

section Reads

variable {cells : List Byte} {chunk : Chunk} {chunks : List Chunk} {charSigned : Bool}

theorem input_ne_nil (chunk : Chunk) (chunks : List Chunk) : input (chunk :: chunks) ≠ [] := by
  rw [input, List.flatMap_cons]
  exact List.append_ne_nil_of_left_ne_nil chunk.ne_nil _

theorem length_take_roundCells (hcells : cells.length = bufSize) (chunk : Chunk) :
    ((roundCells cells chunk.bytes).take chunk.bytes.length).length = chunk.bytes.length := by
  have hfits : chunk.bytes.length ≤ cells.length := chunk.fits.trans_eq hcells.symm
  rw [List.length_take, length_roundCells hfits, Nat.min_eq_left hfits]

/-- The rounds print the text that is wanted exactly if the chunks suit. -/
theorem printed_iff (hcells : cells.length = bufSize) :
    printed cells chunks = target (input chunks) ↔ Suits cells chunks := by
  induction chunks generalizing cells with
  | nil => exact iff_of_true rfl trivial
  | cons chunk chunks ih =>
    obtain ⟨hkept, hcells'⟩ := @roundCells_kept cells _ chunk.ne_nil
    cases chunks with
    | nil =>
      have hinput : input [chunk] = chunk.bytes := List.append_nil _
      rw [printed, printed, List.append_nil, hinput, Suits, target]
      split
      · rename_i hlast
        exact roundCells_stripped hlast
      · exact hkept
    | cons chunk' chunks =>
      have hinput : input (chunk :: chunk' :: chunks) = chunk.bytes ++ input (chunk' :: chunks) := rfl
      have hnext : (roundCells cells chunk.bytes).length = bufSize :=
        (length_roundCells (chunk.fits.trans_eq hcells.symm)).trans hcells
      rw [printed, hinput, target_append (input_ne_nil chunk' chunks), Suits]
      constructor
      · intro heq
        obtain ⟨hfirst, hrest⟩ := List.append_inj heq (length_take_roundCells hcells chunk)
        have hkeeps := hkept.mp hfirst
        rw [hcells' hkeeps] at hnext hrest
        exact ⟨hkeeps, (ih hnext).mp hrest⟩
      · rintro ⟨hkeeps, hsuits⟩
        rw [hcells' hkeeps] at hnext
        rw [hkept.mpr hkeeps, hcells' hkeeps, (ih hnext).mpr hsuits]

/-- All characters are printed as their values. -/
def Printable (charSigned : Bool) (text : List Byte) : Prop :=
  charSigned = true → ∀ c ∈ text, c.msb = false

theorem setWidth_inj {c c' : Byte} : c.setWidth 32 = c'.setWidth 32 ↔ c = c' := by
  refine ⟨fun heq => ?_, fun heq => congrArg _ heq⟩
  have hback := congrArg (BitVec.setWidth 8) heq
  rwa [BitVec.setWidth_setWidth_of_le c (by decide), BitVec.setWidth_setWidth_of_le c' (by decide),
    BitVec.setWidth_eq, BitVec.setWidth_eq] at hback

theorem toInt_eq_iff {c c' : Byte} :
    toInt charSigned c = c'.setWidth 32 ↔ c = c' ∧ (charSigned = true → c.msb = false) := by
  cases charSigned with
  | false => simpa [toInt] using setWidth_inj
  | true =>
    show c.signExtend 32 = c'.setWidth 32 ↔ _
    cases hmsb : c.msb with
    | false =>
      rw [BitVec.signExtend_eq_setWidth_of_msb_false hmsb, setWidth_inj]
      exact ⟨fun heq => ⟨heq, fun _ => rfl⟩, fun hand => hand.1⟩
    | true =>
      refine iff_of_false (fun heq => ?_) fun hand => Bool.false_ne_true (hand.2 rfl).symm
      have hhigh := congrArg BitVec.msb heq
      rw [BitVec.msb_signExtend, BitVec.msb_setWidth] at hhigh
      simp [hmsb] at hhigh

theorem map_toInt_iff {text text' : List Byte} :
    text.map (toInt charSigned) = text'.map (BitVec.setWidth 32) ↔
      text = text' ∧ Printable charSigned text := by
  induction text generalizing text' with
  | nil =>
    cases text' with
    | nil => exact iff_of_true rfl ⟨rfl, fun _ c hc => absurd hc List.not_mem_nil⟩
    | cons c' text' => exact iff_of_false nofun fun hand => List.cons_ne_nil _ _ hand.1.symm
  | cons c text ih =>
    cases text' with
    | nil => exact iff_of_false nofun fun hand => List.cons_ne_nil _ _ hand.1
    | cons c' text' =>
      rw [List.map_cons, List.map_cons, List.cons.injEq, List.cons.injEq, toInt_eq_iff, ih]
      constructor
      · rintro ⟨⟨rfl, hc⟩, rfl, hrest⟩
        refine ⟨⟨rfl, rfl⟩, fun hsigned d hd => ?_⟩
        rcases List.mem_cons.mp hd with rfl | hd
        · exact hc hsigned
        · exact hrest hsigned d hd
      · rintro ⟨⟨rfl, rfl⟩, hall⟩
        exact ⟨⟨rfl, fun hsigned => hall hsigned c List.mem_cons_self⟩, rfl,
          fun hsigned d hd => hall hsigned d (List.mem_cons_of_mem c hd)⟩

/-- The nul for a final newline makes no difference. -/
theorem printable_target (text : List Byte) :
    Printable charSigned (target text) ↔ Printable charSigned text := by
  unfold target
  split
  · rename_i hlast
    obtain ⟨init, rfl⟩ := List.getLast?_eq_some_iff.mp hlast
    have hend : ∀ c : Byte, c.msb = false →
        (Printable charSigned (init ++ [c]) ↔ Printable charSigned init) := by
      intro c hc
      constructor
      · exact fun hall hsigned d hd => hall hsigned d (List.mem_append_left _ hd)
      · intro hall hsigned d hd
        rcases List.mem_append.mp hd with hd | hd
        · exact hall hsigned d hd
        · rwa [List.mem_singleton.mp hd]
    rw [List.dropLast_concat, hend 0 (by decide), hend newline (by decide)]
  · rfl

/-- What is printed embeds the file exactly if the chunks suit, and no character prints as negative. -/
theorem embeds_printed_iff (hnul : 0 ∉ input chunks) :
    Embeds (input chunks)
        ((printed (List.replicate bufSize 0) chunks).map (toInt charSigned) ++ [0]) ↔
      Printable charSigned (input chunks) ∧ Suits (List.replicate bufSize 0) chunks := by
  rw [embeds_iff_eq hnul, initialiser, List.append_left_inj, map_toInt_iff,
    printed_iff List.length_replicate, and_comm]
  constructor
  · rintro ⟨hprintable, hsuits⟩
    rw [(printed_iff List.length_replicate).mpr hsuits, printable_target] at hprintable
    exact ⟨hprintable, hsuits⟩
  · rintro ⟨hprintable, hsuits⟩
    rw [(printed_iff List.length_replicate).mpr hsuits, printable_target]
    exact ⟨hprintable, hsuits⟩

end Reads

/-! ## All ways to read a file -/

section AllReads

variable {cells : List Byte} {chunks : List Chunk} {text : List Byte}

/-- There is no newline behind the first cell. -/
def Clean (cells : List Byte) : Prop := ∀ j, 0 < j → cells[j]? ≠ some newline

theorem Clean.keptCells {chunk : List Byte} (h : Clean cells) (hne : chunk ≠ [])
    (htail : newline ∉ chunk.tail) : Clean (keptCells cells chunk) := by
  have hstale : ¬(chunk.length ≠ bufSize ∧ cells[chunk.length]? = some newline) := fun hand =>
    h chunk.length (List.length_pos_iff.mpr hne) hand.2
  unfold Ctxt.keptCells
  dsimp only
  rw [if_neg hstale]
  intro j hj hnewline
  rcases Nat.lt_or_ge j chunk.length with hlt | hge
  · rw [List.getElem?_append_left hlt] at hnewline
    refine htail (List.mem_iff_getElem?.mpr ⟨j - 1, ?_⟩)
    rwa [List.getElem?_tail, Nat.sub_add_cancel hj]
  · rw [List.getElem?_append_right hge, List.getElem?_drop, Nat.add_sub_cancel' hge] at hnewline
    exact h j hj hnewline

/-- Without newlines to find, all chunks suit. -/
theorem suits_of_clean (h : Clean cells) (htail : newline ∉ (input chunks).tail)
    (hne : input chunks ≠ [newline]) : Suits cells chunks := by
  induction chunks generalizing cells with
  | nil => trivial
  | cons chunk chunks ih =>
    have hinput : input (chunk :: chunks) = chunk.bytes ++ input chunks := List.flatMap_cons
    rw [hinput, List.tail_append_of_ne_nil chunk.ne_nil, List.mem_append, not_or] at htail
    rw [hinput] at hne
    have hkeeps : KeepsChunk cells chunk.bytes := Or.inr (Or.inr htail.1)
    cases chunks with
    | nil =>
      rw [Suits, if_neg fun hlast => ?_]
      · exact hkeeps
      · obtain ⟨init, hinit⟩ := List.getLast?_eq_some_iff.mp hlast
        have hnil : init ≠ [] := by
          rintro rfl
          rw [hinit] at hne
          exact hne rfl
        rw [hinit, List.tail_append_of_ne_nil hnil] at htail
        exact htail.1 (List.mem_append_right _ (List.mem_singleton_self _))
    | cons chunk' chunks =>
      refine ⟨hkeeps, ih (h.keptCells chunk.ne_nil htail.1) ?_ ?_⟩
      · exact fun hmem => htail.2 (List.mem_of_mem_tail hmem)
      · intro heq
        rw [heq] at htail
        exact htail.2 (List.mem_singleton_self _)

/-- A read of one character. -/
def single (c : Byte) : Chunk := ⟨[c], List.cons_ne_nil _ _, (by decide : 1 ≤ bufSize)⟩

/-- A read of two. -/
def pair (c c' : Byte) : Chunk := ⟨[c, c'], List.cons_ne_nil _ _, (by decide : 2 ≤ bufSize)⟩

theorem input_singles (text : List Byte) : input (text.map single) = text := by
  induction text with
  | nil => rfl
  | cons c text ih => exact congrArg (List.cons c) ih

theorem input_append (chunks chunks' : List Chunk) :
    input (chunks ++ chunks') = input chunks ++ input chunks' := List.flatMap_append

/-- Reads of one character leave the rest of `buf` clean. -/
theorem suits_singles {chunk : Chunk} (h : Clean cells)
    (hsuits : Suits cells (text.map single ++ chunk :: chunks)) :
    ∃ cells', Clean cells' ∧ Suits cells' (chunk :: chunks) := by
  induction text generalizing cells with
  | nil => exact ⟨cells, h, hsuits⟩
  | cons c text ih =>
    have hclean : Clean (Ctxt.keptCells cells (single c).bytes) :=
      h.keptCells (single c).ne_nil List.not_mem_nil
    refine ih hclean ?_
    cases text with
    | nil => exact hsuits.2
    | cons c' text => exact hsuits.2

/-- A newline behind the first character, with the character before it. -/
theorem exists_pair (h : newline ∈ text.tail) :
    ∃ before c after, text = before ++ c :: newline :: after := by
  cases text with
  | nil => cases h
  | cons c text =>
    obtain ⟨middle, after, rfl⟩ := List.append_of_mem h
    rcases List.eq_nil_or_concat (c :: middle) with hnil | ⟨before, d, hconcat⟩
    · cases hnil
    · refine ⟨before, d, after, ?_⟩
      rw [← List.cons_append, hconcat, List.concat_eq_append, List.append_assoc]
      rfl

/-- A file suits `mk-ctxt` however it is read, if it has no newline that could be found. -/
theorem suits_all_iff (h : Clean cells) (text : List Byte) :
    (∀ chunks, input chunks = text → Suits cells chunks) ↔
      newline ∉ text.tail ∧ text ≠ [newline] := by
  constructor
  · intro hall
    have hlast : text.getLast? ≠ some newline := by
      intro hlast
      obtain ⟨init, rfl⟩ := List.getLast?_eq_some_iff.mp hlast
      have hinput : input (init.map single ++ [single newline]) = init ++ [newline] := by
        rw [input_append, input_singles]
        rfl
      obtain ⟨cells', -, hsuits⟩ := suits_singles h (hall _ hinput)
      exact absurd hsuits.2.2 (by decide)
    refine ⟨fun hmem => ?_, fun heq => hlast (by rw [heq]; rfl)⟩
    obtain ⟨before, c, after, rfl⟩ := exists_pair hmem
    cases after with
    | nil => exact hlast (List.getLast?_append_of_ne_nil _ (List.cons_ne_nil _ _))
    | cons d after =>
      have hinput : input (before.map single ++ pair c newline :: (d :: after).map single) =
          before ++ c :: newline :: d :: after := by
        rw [input_append, input_singles]
        exact congrArg (fun rest => before ++ c :: newline :: rest) (input_singles (d :: after))
      obtain ⟨cells', hclean, hsuits⟩ := suits_singles h (hall _ hinput)
      rcases hsuits.1 with hfull | hstale | htail
      · exact absurd hfull (by decide : ¬ 2 = bufSize)
      · exact hclean 2 (by decide) hstale
      · exact htail (List.mem_singleton_self _)
  · rintro ⟨htail, hne⟩ chunks rfl
    exact suits_of_clean h htail hne

theorem clean_zero : Clean (List.replicate bufSize 0) := by
  intro j _ hnewline
  have hmem := List.mem_iff_getElem?.mpr ⟨j, hnewline⟩
  exact absurd (List.eq_of_mem_replicate hmem) (by decide)

end AllReads

/-! ## The program -/

/-- The array that the program prints for a file that is read so. -/
def array (charSigned : Bool) (argv : List Text) (flushes : Bool) (chunks : List Chunk) :
    List (BitVec 32) :=
  elements (main charSigned argv (start chunks flushes)).2.stdout

theorem array_eq (charSigned : Bool) (prog name : Text) (flushes : Bool) (chunks : List Chunk) :
    array charSigned [prog, name] flushes chunks =
      (printed (List.replicate bufSize 0) chunks).map (toInt charSigned) ++ [0] := by
  obtain ⟨s', hrun, helements⟩ := main_run charSigned prog name chunks flushes
  rw [array, hrun, helements]

/-- `mk-ctxt` ends, and embeds a file exactly if the chunks suit and no character prints as negative. It
does so however the file is read exactly if there is no newline to find. -/
theorem mkCtxt_embeds_iff (charSigned : Bool) (prog name : Text) (flushes : Bool)
    (chunks : List Chunk) (hnul : 0 ∉ input chunks) :
    (main charSigned [prog, name] (start chunks flushes)).1 = .ok (if flushes then 0 else 111) ∧
      (Embeds (input chunks) (array charSigned [prog, name] flushes chunks) ↔
        Printable charSigned (input chunks) ∧ Suits (List.replicate bufSize 0) chunks) ∧
      ((∀ chunks', input chunks' = input chunks →
          Embeds (input chunks) (array charSigned [prog, name] flushes chunks')) ↔
        Printable charSigned (input chunks) ∧
          newline ∉ (input chunks).tail ∧ input chunks ≠ [newline]) := by
  have harray : ∀ chunks', input chunks' = input chunks →
      (Embeds (input chunks) (array charSigned [prog, name] flushes chunks') ↔
        Printable charSigned (input chunks) ∧ Suits (List.replicate bufSize 0) chunks') := by
    intro chunks' hsame
    rw [array_eq, ← hsame]
    exact embeds_printed_iff (by rwa [hsame])
  obtain ⟨s', hrun, -⟩ := main_run charSigned prog name chunks flushes
  refine ⟨by rw [hrun], harray chunks rfl, ?_⟩
  rw [← suits_all_iff clean_zero (input chunks)]
  constructor
  · intro hall
    exact ⟨((harray chunks rfl).mp (hall chunks rfl)).1,
      fun chunks' hsame => ((harray chunks' hsame).mp (hall chunks' hsame)).2⟩
  · rintro ⟨hprintable, hsuits⟩ chunks' hsame
    exact (harray chunks' hsame).mpr ⟨hprintable, hsuits chunks' hsame⟩

theorem mkCtxt_embeds_iff_a :
    (main true [[], ['x']] (start [pair 97 newline] true)).1 = .ok (if true then 0 else 111) ∧
      (Embeds (input [pair 97 newline]) (array true [[], ['x']] true [pair 97 newline]) ↔
        Printable true (input [pair 97 newline]) ∧
          Suits (List.replicate bufSize 0) [pair 97 newline]) ∧
      ((∀ chunks', input chunks' = input [pair 97 newline] →
          Embeds (input [pair 97 newline]) (array true [[], ['x']] true chunks')) ↔
        Printable true (input [pair 97 newline]) ∧
          newline ∉ (input [pair 97 newline]).tail ∧ input [pair 97 newline] ≠ [newline]) :=
  mkCtxt_embeds_iff true [] ['x'] true [pair 97 newline] (by decide)

/-- A read of one character leaves the final newline where it is. -/
theorem final_newline_stays :
    array true [[], ['x']] true [pair 97 newline] = [97, 0, 0] ∧
      array true [[], ['x']] true [single 97, single newline] = [97, 10, 0] ∧
      input [single 97, single newline] = input [pair 97 newline] ∧
      ¬Embeds (input [single 97, single newline])
        (array true [[], ['x']] true [single 97, single newline]) := by
  have harray : array true [[], ['x']] true [single 97, single newline] = [97, 10, 0] := by
    rw [array_eq]
    rfl
  refine ⟨?_, harray, rfl, ?_⟩
  · rw [array_eq]
    rfl
  · rw [harray]
    intro h
    exact absurd h.string (by decide)

end CStringVerified.Ctxt
