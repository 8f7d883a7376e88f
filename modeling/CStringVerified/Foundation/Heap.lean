import CStringVerified.Foundation.Memory
import Mathlib.Order.Defs.Unbundled

/-!
# The heap

Memory together with the blocks handed out so far, and an allocator that is only trusted to return
blocks away from the live ones. `Heap.Extends` is the frame of everything that allocates: live
blocks stay live and keep their bytes.
-/

namespace Foundation

/-- Memory and the live blocks in it. -/
structure Heap where
  /-- What memory holds. -/
  mem : Memory
  /-- The blocks handed out and not given back. -/
  live : List Block
  /-- Live blocks are mapped. -/
  live_mapped : ∀ b ∈ live, ∀ x, b.Contains x → (mem.byte x).isSome

/-- An allocator: where a request is placed, if anywhere, and what a fresh block holds. -/
structure Allocator where
  /-- The block for a request of that many bytes; `none` when there is no room. -/
  place : Heap → Nat → Option Block
  /-- What the addresses of a new block hold where nothing was mapped before. -/
  fill : Heap → Address → Byte
  /-- The block has the size asked for. -/
  size_eq : ∀ {h n b}, place h n = some b → b.size = n
  /-- The block overlaps no live block. -/
  fresh : ∀ {h n b}, place h n = some b → ∀ c ∈ h.live, b.Disjoint c

namespace Heap

variable {h h' h'' : Heap} {b c : Block}

/-- Make a block live. -/
def addBlock (h : Heap) (b : Block) (fill : Address → Byte) : Heap where
  mem := h.mem.map b fill
  live := b :: h.live
  live_mapped := by
    intro c hc x hx
    rcases List.mem_cons.mp hc with rfl | hc
    · exact Memory.mapped_map hx
    · by_cases hb : b.Contains x
      · exact Memory.mapped_map hb
      · rw [Memory.byte_map_of_not_contains hb]
        exact h.live_mapped c hc x hx

/-- Put bytes into memory. -/
def overwrite (h : Heap) (a : Address) (bs : List Byte) : Heap where
  mem := h.mem.overwrite a bs
  live := h.live
  live_mapped := by
    intro c hc x hx
    rw [Memory.mapped_overwrite]
    exact h.live_mapped c hc x hx

/-- A heap with no live blocks over a memory. -/
def ofMemory (m : Memory) : Heap where
  mem := m
  live := []
  live_mapped := by simp

/-- The heap reduced to a part of its memory. -/
noncomputable def only (h : Heap) (S : Address → Prop) : Heap := ofMemory (h.mem.only S)

@[simp] theorem mem_addBlock (fill : Address → Byte) :
    (h.addBlock b fill).mem = h.mem.map b fill := rfl

@[simp] theorem live_addBlock (fill : Address → Byte) :
    (h.addBlock b fill).live = b :: h.live := rfl

@[simp] theorem mem_overwrite (a : Address) (bs : List Byte) :
    (h.overwrite a bs).mem = h.mem.overwrite a bs := rfl

@[simp] theorem live_overwrite (a : Address) (bs : List Byte) :
    (h.overwrite a bs).live = h.live := rfl

@[simp] theorem mem_ofMemory (m : Memory) : (ofMemory m).mem = m := rfl

@[simp] theorem mem_only (S : Address → Prop) : (h.only S).mem = h.mem.only S := rfl

/-- Live blocks stay live and keep their bytes. -/
structure Extends (h h' : Heap) : Prop where
  live : ∀ b ∈ h.live, b ∈ h'.live
  byte : ∀ b ∈ h.live, ∀ x, b.Contains x → h'.mem.byte x = h.mem.byte x

theorem Extends.refl (h : Heap) : h.Extends h := ⟨fun _ hb => hb, fun _ _ _ _ => rfl⟩

theorem Extends.trans (h1 : h.Extends h') (h2 : h'.Extends h'') : h.Extends h'' where
  live b hb := h2.live b (h1.live b hb)
  byte b hb x hx := (h2.byte b (h1.live b hb) x hx).trans (h1.byte b hb x hx)

instance : Std.Refl Extends := ⟨Extends.refl⟩

instance : IsTrans Heap Extends := ⟨fun _ _ _ => Extends.trans⟩

/-- Making a block live that overlaps no live block changes no live block. -/
theorem extends_addBlock {fill : Address → Byte} (hfresh : ∀ c ∈ h.live, b.Disjoint c) :
    h.Extends (h.addBlock b fill) where
  live _ hc := List.mem_cons_of_mem _ hc
  byte c hc x hx := Memory.byte_map_of_not_contains ((hfresh c hc).symm x hx)

/-- Writing inside a block that is not live changes no live block. -/
theorem extends_overwrite {a : Address} {bs : List Byte}
    (hin : ∀ x, a.InRegion bs.length x → b.Contains x) (hb : ∀ c ∈ h.live, b.Disjoint c)
    (h1 : h.Extends h') : h.Extends (h'.overwrite a bs) where
  live c hc := h1.live c hc
  byte c hc x hx := by
    have hx' : ¬ a.InRegion bs.length x := fun hr => hb c hc x (hin x hr) hx
    rw [mem_overwrite, Memory.byte_overwrite_of_not_inRegion hx']
    exact h1.byte c hc x hx

/-- Bytes inside a live block are still there in every extension. -/
theorem Extends.holds {a : Address} {bs : List Byte} (he : h.Extends h') (hb : b ∈ h.live)
    (hin : ∀ k, k < bs.length → b.Contains (a.offset k)) (hh : h.mem.Holds a bs) :
    h'.mem.Holds a bs :=
  hh.congr fun k hk => he.byte b hb _ (hin k hk)

/-- So is a word inside a live block. -/
theorem Extends.word {a : Address} (he : h.Extends h') (hb : b ∈ h.live)
    (hin : ∀ k, k < 8 → b.Contains (a.offset k)) : h'.mem.word a = h.mem.word a :=
  Memory.word_congr fun k hk => he.byte b hb _ (hin k hk)

end Heap

/-! ## Requests -/

/-- Since `h`, blocks of these sizes were handed out, in this order. -/
def Heap.Served (h h' : Heap) (sizes : List Nat) : Prop :=
  ∃ blocks, h'.live = blocks ++ h.live ∧ blocks.map Block.size = sizes.reverse

/-- The allocator refuses, in `h'`, one of the requests that are made one after the other from `h` on,
and has served those before it. -/
def Allocator.Refuses (A : Allocator) (h h' : Heap) (requests : List Nat) : Prop :=
  ∃ k size, requests[k]? = some size ∧ h.Served h' (requests.take k) ∧ A.place h' size = none

namespace Heap

variable {h h' : Heap} {b : Block} {sizes : List Nat}

theorem served_nil (h : Heap) : h.Served h [] := ⟨[], rfl, rfl⟩

theorem Served.addBlock (hs : h.Served h' sizes) (b : Block) (fill : Address → Byte) :
    h.Served (h'.addBlock b fill) (sizes ++ [b.size]) := by
  obtain ⟨blocks, hlive, hsizes⟩ := hs
  refine ⟨b :: blocks, ?_, ?_⟩
  · rw [live_addBlock, hlive, List.cons_append]
  · rw [List.map_cons, hsizes, List.reverse_append, List.reverse_singleton, List.singleton_append]

/-- What is live decides what was served. -/
theorem Served.congr {h'' : Heap} (hs : h.Served h' sizes) (hlive : h''.live = h'.live) :
    h.Served h'' sizes := by
  obtain ⟨blocks, hlive', hsizes⟩ := hs
  exact ⟨blocks, hlive.trans hlive', hsizes⟩

theorem Served.overwrite (hs : h.Served h' sizes) (a : Address) (bs : List Byte) :
    h.Served (h'.overwrite a bs) sizes := hs.congr (live_overwrite a bs)

end Heap

/-! ## A concrete allocator -/

namespace Allocator

/-- The first address after all live blocks, at least 8. -/
def top (h : Heap) : Nat := h.live.foldr (fun b t => max (b.base.toNat + b.size) t) 8

theorem le_top {bs : List Block} {b : Block} (hb : b ∈ bs) :
    b.base.toNat + b.size ≤ bs.foldr (fun b t => max (b.base.toNat + b.size) t) 8 := by
  induction bs with
  | nil => cases hb
  | cons c bs ih =>
    rcases List.mem_cons.mp hb with rfl | hb
    · exact le_max_left _ _
    · exact (ih hb).trans (le_max_right _ _)

theorem eight_le_top (bs : List Block) :
    8 ≤ bs.foldr (fun b t => max (b.base.toNat + b.size) t) 8 := by
  induction bs with
  | nil => exact le_refl _
  | cons c bs ih => exact ih.trans (le_max_right _ _)

/-- Place every request right after the last live block, as long as the address space lasts. -/
def bump : Allocator where
  place h n :=
    if hfit : top h + n ≤ 2 ^ 64 ∧ top h < 2 ^ 64 then
      some
        { base := BitVec.ofNat 64 (top h)
          size := n
          inside := by
            rw [BitVec.toNat_ofNat, Nat.mod_eq_of_lt hfit.2]
            exact hfit.1
          nonnull := by
            intro h0
            have h8 : 8 ≤ top h := eight_le_top h.live
            have := congrArg BitVec.toNat h0
            rw [BitVec.toNat_ofNat, Nat.mod_eq_of_lt hfit.2] at this
            simp at this
            omega }
    else none
  fill _ _ := 0
  size_eq := by
    intro h n b hp
    split at hp
    · cases hp; rfl
    · cases hp
  fresh := by
    intro h n b hp c hc
    split at hp
    · rename_i hfit
      cases hp
      refine Block.disjoint_of_le ?_
      rw [BitVec.toNat_ofNat, Nat.mod_eq_of_lt hfit.2]
      exact le_top hc
    · cases hp

end Allocator

end Foundation
