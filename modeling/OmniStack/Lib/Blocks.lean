import Mathlib.Data.List.Basic

/-! Word memory and the blocks an allocator hands out.

A memory is a word at every address; words are read and written whole, at addresses that
are multiples of their size, so that two of them are the same or apart. Blocks handed out
by an allocator are apart from each other, and what is written in one is not seen in
another (`Block.store_outside`). -/
namespace Lib

/-- A word at every address. -/
abbrev Words := Nat → Nat

def Words.store (mem : Words) (addr word : Nat) : Words := fun a => if a = addr then word else mem a

@[simp] theorem Words.store_same (mem : Words) (addr word : Nat) :
    mem.store addr word addr = word :=
  if_pos rfl

theorem Words.store_ne (mem : Words) {addr a : Nat} (word : Nat) (h : a ≠ addr) :
    mem.store addr word a = mem a :=
  if_neg h

/-- The `len` bytes from `start` on. -/
structure Block where
  start : Nat
  len : Nat

namespace Block

/-- A word that lies in the block. -/
def Holds (b : Block) (addr : Nat) : Prop := b.start ≤ addr ∧ addr + 8 ≤ b.start + b.len

def Apart (b c : Block) : Prop := b.start + b.len ≤ c.start ∨ c.start + c.len ≤ b.start

theorem Apart.symm {b c : Block} (h : b.Apart c) : c.Apart b := Or.symm h

/-- Blocks that are apart have no word in common. -/
theorem Apart.ne {b c : Block} (h : b.Apart c) {x y : Nat} (hx : b.Holds x) (hy : c.Holds y) :
    x ≠ y := by
  intro heq
  obtain rfl := heq
  obtain ⟨hbx, hxb⟩ := hx
  obtain ⟨hcx, hxc⟩ := hy
  rcases h with h | h <;> omega

/-- A write in one block is not seen in another. -/
theorem Apart.store_outside {b c : Block} (h : b.Apart c) (mem : Words) {x y : Nat} (word : Nat)
    (hx : b.Holds x) (hy : c.Holds y) : mem.store y word x = mem x :=
  mem.store_ne word (h.ne hx hy)

end Block
end Lib
