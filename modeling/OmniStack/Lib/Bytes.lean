/-! Byte memory, and words laid out in it.

A memory is a byte at every address. Structures are written as runs of bytes
(`write`) and read back field by field; what a write does not cover is what was
there before (`write_outside`), what it covers is the run (`write_inside`). Words
are stored least significant byte first, and `swap16` turns a word into the one
whose bytes are in the opposite order. -/
namespace Lib

abbrev Bytes := Nat → UInt8

namespace Bytes

/-- The `n` bytes from `off` on. -/
def read (m : Bytes) (off n : Nat) : List UInt8 := (List.range n).map (fun i => m (off + i))

/-- Put the bytes `l` from `off` on. -/
def write (m : Bytes) (off : Nat) (l : List UInt8) : Bytes :=
  fun i => if off ≤ i ∧ i < off + l.length then l.getD (i - off) 0 else m i

@[simp] theorem read_length (m : Bytes) (off n : Nat) : (m.read off n).length = n := by simp [read]

theorem write_outside {m : Bytes} {off i : Nat} {l : List UInt8}
    (h : i < off ∨ off + l.length ≤ i) :
    m.write off l i = m i := by
  unfold write
  rw [if_neg (by omega)]

theorem write_inside {m : Bytes} {off k : Nat} {l : List UInt8} (h : k < l.length) :
    m.write off l (off + k) = l[k] := by
  unfold write
  rw [if_pos ⟨Nat.le_add_right .., by omega⟩, Nat.add_sub_cancel_left, List.getD_eq_getElem?_getD,
    List.getElem?_eq_getElem h, Option.getD_some]

theorem write_get (m : Bytes) (off : Nat) {l : List UInt8} {b : UInt8} (k : Nat)
    (h : l[k]? = some b) : m.write off l (off + k) = b := by
  obtain ⟨hk, hb⟩ := List.getElem?_eq_some_iff.mp h
  rw [write_inside hk, hb]

/-- The memories agree but for the addresses from `lo` to `hi`. -/
def SameOutside (lo hi : Nat) (m m' : Bytes) : Prop := ∀ i, i < lo ∨ hi ≤ i → m' i = m i

theorem SameOutside.write {lo hi off : Nat} {m m' : Bytes} {l : List UInt8}
    (h : SameOutside lo hi m m') (hlo : lo ≤ off) (hhi : off + l.length ≤ hi) :
    SameOutside lo hi m (m'.write off l) := by
  intro i hi
  rw [write_outside (by omega)]
  exact h i hi

theorem read_append (m : Bytes) (off a b : Nat) :
    m.read off (a + b) = m.read off a ++ m.read (off + a) b := by
  simp only [read, List.range_add, List.map_append, List.map_map]
  exact congrArg (_ ++ ·) (List.map_congr_left fun i _ => by
    rw [Function.comp_apply, Nat.add_assoc])

theorem read_congr {m m' : Bytes} {off n : Nat} (h : ∀ i, off ≤ i → i < off + n → m i = m' i) :
    m.read off n = m'.read off n :=
  List.map_congr_left fun i hi => h _ (Nat.le_add_right _ _) (by simpa using hi)

/-- What is read beside a write is what was there before. -/
theorem read_write_outside {m : Bytes} {off n start : Nat} {l : List UInt8}
    (h : off + n ≤ start ∨ start + l.length ≤ off) : (m.write start l).read off n = m.read off n :=
  read_congr fun i _ _ => write_outside (by omega)

/-- What is read of a write is the part of it that was asked for. -/
theorem read_write_part (m : Bytes) (off : Nat) {l : List UInt8} {a n : Nat}
    (h : a + n ≤ l.length) : (m.write off l).read (off + a) n = (l.drop a).take n := by
  apply List.ext_getElem?
  intro i
  by_cases hi : i < n
  · rw [List.getElem?_take_of_lt hi, List.getElem?_drop, read, List.getElem?_map,
      List.getElem?_range hi, Option.map_some, Nat.add_assoc, write_inside (by omega),
      ← List.getElem?_eq_getElem]
  · rw [List.getElem?_eq_none (by simp; omega), List.getElem?_eq_none (by simp; omega)]

theorem read_write (m : Bytes) (off : Nat) (l : List UInt8) :
    (m.write off l).read off l.length = l := by
  have hpart := read_write_part m off (l := l) (a := 0) (n := l.length) (by omega)
  rwa [Nat.add_zero, List.drop_zero, List.take_length] at hpart

/-! ### Words -/

/-- A 16-bit word, least significant byte first. -/
def le16 (x : UInt16) : List UInt8 := [UInt8.ofNat x.toNat, UInt8.ofNat (x.toNat / 256)]

def le32 (x : UInt32) : List UInt8 :=
  [UInt8.ofNat x.toNat, UInt8.ofNat (x.toNat / 256), UInt8.ofNat (x.toNat / 65536),
    UInt8.ofNat (x.toNat / 16777216)]

def word16 (lo hi : UInt8) : UInt16 := UInt16.ofNat (lo.toNat + 256 * hi.toNat)

def word32 (a b c d : UInt8) : UInt32 :=
  UInt32.ofNat (a.toNat + 256 * b.toNat + 65536 * c.toNat + 16777216 * d.toNat)

/-- The word with its two bytes exchanged. -/
def swap16 (x : UInt16) : UInt16 := UInt16.ofNat (x.toNat % 256 * 256 + x.toNat / 256)

theorem toNat_word16 (lo hi : UInt8) : (word16 lo hi).toNat = lo.toNat + 256 * hi.toNat := by
  have := lo.toNat_lt
  have := hi.toNat_lt
  rw [word16, UInt16.toNat_ofNat']
  exact Nat.mod_eq_of_lt (by omega)

theorem toNat_swap16 (x : UInt16) : (swap16 x).toNat = x.toNat % 256 * 256 + x.toNat / 256 := by
  have := x.toNat_lt
  rw [swap16, UInt16.toNat_ofNat']
  exact Nat.mod_eq_of_lt (by omega)

theorem word16_le16 (x : UInt16) :
    word16 (UInt8.ofNat x.toNat) (UInt8.ofNat (x.toNat / 256)) = x := by
  have := x.toNat_lt
  apply UInt16.toNat.inj
  rw [toNat_word16, UInt8.toNat_ofNat', UInt8.toNat_ofNat']
  omega

theorem word32_le32 (x : UInt32) :
    word32 (UInt8.ofNat x.toNat) (UInt8.ofNat (x.toNat / 256)) (UInt8.ofNat (x.toNat / 65536))
      (UInt8.ofNat (x.toNat / 16777216)) = x := by
  have := x.toNat_lt
  apply UInt32.toNat.inj
  simp only [word32, UInt32.toNat_ofNat', UInt8.toNat_ofNat']
  omega

theorem toNat_word32 (a b c d : UInt8) :
    (word32 a b c d).toNat =
      a.toNat + 256 * b.toNat + 65536 * c.toNat + 16777216 * d.toNat := by
  have := a.toNat_lt
  have := b.toNat_lt
  have := c.toNat_lt
  have := d.toNat_lt
  rw [word32, UInt32.toNat_ofNat']
  exact Nat.mod_eq_of_lt (by omega)

theorem le32_word32 (a b c d : UInt8) : le32 (word32 a b c d) = [a, b, c, d] := by
  have := a.toNat_lt
  have := b.toNat_lt
  have := c.toNat_lt
  have byte (n : Nat) (x : UInt8) (h : n % 256 = x.toNat) : UInt8.ofNat n = x := by
    apply UInt8.toNat.inj
    rw [UInt8.toNat_ofNat', h]
  rw [le32, toNat_word32, byte _ a (by omega), byte _ b (by omega), byte _ c (by omega),
    byte _ d (by have := d.toNat_lt; omega)]

/-- A word stored among other fields is the word read back. -/
theorem word16_write (m : Bytes) (off : Nat) {l : List UInt8} (k : Nat) {x : UInt16}
    (hlo : l[k]? = some (UInt8.ofNat x.toNat))
    (hhi : l[k + 1]? = some (UInt8.ofNat (x.toNat / 256))) :
    word16 (m.write off l (off + k)) (m.write off l (off + (k + 1))) = x := by
  rw [write_get m off _ hlo, write_get m off _ hhi, word16_le16]

theorem word32_write (m : Bytes) (off : Nat) {l : List UInt8} (k : Nat) {x : UInt32}
    (h0 : l[k]? = some (UInt8.ofNat x.toNat))
    (h1 : l[k + 1]? = some (UInt8.ofNat (x.toNat / 256)))
    (h2 : l[k + 2]? = some (UInt8.ofNat (x.toNat / 65536)))
    (h3 : l[k + 3]? = some (UInt8.ofNat (x.toNat / 16777216))) :
    word32 (m.write off l (off + k)) (m.write off l (off + (k + 1)))
      (m.write off l (off + (k + 2))) (m.write off l (off + (k + 3))) = x := by
  rw [write_get m off _ h0, write_get m off _ h1, write_get m off _ h2, write_get m off _ h3,
    word32_le32]

@[simp] theorem swap16_swap16 (x : UInt16) : swap16 (swap16 x) = x := by
  have := x.toNat_lt
  apply UInt16.toNat.inj
  rw [toNat_swap16, toNat_swap16]
  omega

end Bytes
end Lib
