import OmniStack.Lib.Bits
import OmniStack.Protocol

/-! Which addresses a route matches.

A prefix of a network address is its first bits in network order: of each octet the most
significant bit first. A route compares the first bits of the little-endian word, of each
octet the least significant first. The two agree on whole octets and, in the octet the
prefix ends in, only where both ends of it coincide (`matches_prefix_iff`); so a route is
right about every destination exactly when its prefix ends between two octets
(`matches_all_iff`). -/
namespace OmniStack
open Lib

namespace Ipv4Addr

/-- Octet `i` as a number. -/
def octet (a : Ipv4Addr) (i : Nat) : Nat := (a.octets[i]?.getD 0).toNat

theorem octet_lt (a : Ipv4Addr) (i : Nat) : a.octet i < 2 ^ 8 := UInt8.toNat_lt _

/-- Bit `j` in network order. -/
def netBit (a : Ipv4Addr) (j : Nat) : Bool := (a.octet (j / 8)).testBit (7 - j % 8)

/-- The first `n` bits in network order are equal. -/
def SamePrefix (n : Nat) (a b : Ipv4Addr) : Prop := ∀ j < n, a.netBit j = b.netBit j

theorem octet_eq (a : Ipv4Addr) {i : Nat} (hi : i < 4) : a.octet i = (a.octets[i]).toNat := by
  rw [octet, Vector.getElem?_eq_getElem hi, Option.getD_some]

theorem ext_octets {a b : Ipv4Addr} (h : ∀ i < 4, a.octet i = b.octet i) : a = b := by
  obtain ⟨a⟩ := a
  obtain ⟨b⟩ := b
  congr 1
  apply Vector.ext
  intro i hi
  have hoctet := h i hi
  rw [octet_eq _ hi, octet_eq _ hi] at hoctet
  exact UInt8.toNat.inj hoctet

theorem toNat_toU32Be (a : Ipv4Addr) : a.toU32Be.toNat =
    2 ^ 8 * (2 ^ 8 * (2 ^ 8 * a.octet 3 + a.octet 2) + a.octet 1) + a.octet 0 := by
  rw [octet_eq a (by omega), octet_eq a (by omega), octet_eq a (by omega), octet_eq a (by omega),
    toU32Be, Bytes.toNat_word32]
  omega

/-- The word's bits are the octets', each octet's least significant bit first. -/
theorem testBit_toU32Be (a : Ipv4Addr) {j : Nat} (hj : j < 32) :
    a.toU32Be.toNat.testBit j = (a.octet (j / 8)).testBit (j % 8) := by
  rw [toNat_toU32Be, Nat.testBit_two_pow_mul_add _ (a.octet_lt 0),
    Nat.testBit_two_pow_mul_add _ (a.octet_lt 1), Nat.testBit_two_pow_mul_add _ (a.octet_lt 2)]
  split
  · rw [show j / 8 = 0 by omega, show j % 8 = j by omega]
  · split
    · rw [show j / 8 = 1 by omega, show j % 8 = j - 8 by omega]
    · split
      · rw [show j / 8 = 2 by omega, show j % 8 = j - 8 - 8 by omega]
      · rw [show j / 8 = 3 by omega, show j % 8 = j - 8 - 8 - 8 by omega]

/-- The octets before the one the prefix ends in. -/
def WholeOctets (n : Nat) (a b : Ipv4Addr) : Prop := ∀ i < n / 8, a.octet i = b.octet i

/-- The most significant bits the prefix has in the octet it ends in. -/
def HighBits (n : Nat) (a b : Ipv4Addr) : Prop :=
  a.octet (n / 8) / 2 ^ (8 - n % 8) = b.octet (n / 8) / 2 ^ (8 - n % 8)

/-- As many of the least significant. -/
def LowBits (n : Nat) (a b : Ipv4Addr) : Prop :=
  a.octet (n / 8) % 2 ^ (n % 8) = b.octet (n / 8) % 2 ^ (n % 8)

theorem samePrefix_iff (n : Nat) (a b : Ipv4Addr) :
    SamePrefix n a b ↔ WholeOctets n a b ∧ HighBits n a b := by
  have hsplit := Bits.forall_octets (n := n)
    (P := fun i k => (a.octet i).testBit (7 - k) = (b.octet i).testBit (7 - k))
  refine hsplit.trans (and_congr ?_ ?_)
  · apply forall₂_congr
    intro i _
    have heq := Bits.high_eq_iff (a.octet_lt i) (b.octet_lt i) (Nat.le_refl 8)
    rw [Nat.sub_self, Nat.pow_zero, Nat.div_one, Nat.div_one] at heq
    exact heq.symm
  · have hr : n % 8 ≤ 8 := by omega
    exact (Bits.high_eq_iff (a.octet_lt (n / 8)) (b.octet_lt (n / 8)) hr).symm

/-- The longest prefix is the address. -/
theorem samePrefix_full (a b : Ipv4Addr) : SamePrefix 32 a b ↔ a = b := by
  rw [samePrefix_iff]
  constructor
  · intro h
    exact ext_octets h.1
  · intro h
    subst h
    exact ⟨fun _ _ => rfl, rfl⟩

/-- The first bits of the little-endian words. -/
theorem same_low_bits_iff {n : Nat} (hn : n ≤ 32) (a b : Ipv4Addr) :
    a.toU32Be.toNat % 2 ^ n = b.toU32Be.toNat % 2 ^ n ↔ WholeOctets n a b ∧ LowBits n a b := by
  have hsplit := Bits.forall_octets (n := n)
    (P := fun i k => (a.octet i).testBit k = (b.octet i).testBit k)
  calc a.toU32Be.toNat % 2 ^ n = b.toU32Be.toNat % 2 ^ n
      ↔ ∀ j < n, a.toU32Be.toNat.testBit j = b.toU32Be.toNat.testBit j := Bits.low_eq_iff
    _ ↔ ∀ j < n, (a.octet (j / 8)).testBit (j % 8) = (b.octet (j / 8)).testBit (j % 8) := by
      apply forall₂_congr
      intro j hj
      rw [testBit_toU32Be a (by omega), testBit_toU32Be b (by omega)]
    _ ↔ WholeOctets n a b ∧ LowBits n a b := by
      refine hsplit.trans (and_congr ?_ Bits.low_eq_iff.symm)
      exact forall₂_congr fun i _ => (Bits.eq_iff (a.octet_lt i) (b.octet_lt i)).symm

end Ipv4Addr

namespace Route
open Ipv4Addr

/-- The mask of a prefix shorter than the word. -/
theorem toNat_mask {cidr : UInt8} (h : cidr.toNat < 32) :
    ((1 : UInt32) <<< (cidr.toUInt32 % 32) - 1).toNat = 2 ^ cidr.toNat - 1 := by
  have hpow : 2 ^ cidr.toNat < 2 ^ 32 := Nat.pow_lt_pow_right (by omega) h
  have hpos : 0 < 2 ^ cidr.toNat := Nat.two_pow_pos _
  have hshift : ((1 : UInt32) <<< (cidr.toUInt32 % 32)).toNat = 2 ^ cidr.toNat := by
    rw [UInt32.toNat_shiftLeft, UInt32.toNat_mod, UInt8.toNat_toUInt32]
    show 1 <<< (cidr.toNat % 32 % 32) % 2 ^ 32 = _
    rw [Nat.mod_mod, Nat.mod_eq_of_lt h, Nat.one_shiftLeft, Nat.mod_eq_of_lt hpow]
  rw [UInt32.toNat_sub_of_le _ _ (UInt32.le_iff_toNat_le.mpr (by rw [hshift]; exact hpos)), hshift]
  rfl

theorem new_ok (checks : Bool) (ip : Ipv4Addr) {cidr : UInt8} (nic : UInt16)
    (h : cidr.toNat < 32) : ∃ r, new checks ip cidr nic = .ok r ∧ r.ip = ip.toU32Be ∧
      r.cidrMask.toNat = 2 ^ cidr.toNat - 1 := by
  have hin : ¬ 32 < cidr := fun hlt => absurd (UInt8.lt_iff_toNat_lt.mp hlt) (by
    show ¬ 32 < cidr.toNat
    omega)
  have hshort : decide (32 ≤ cidr) = false := decide_eq_false fun hle =>
    absurd (UInt8.le_iff_toNat_le.mp hle) (by
      show ¬ 32 ≤ cidr.toNat
      omega)
  refine ⟨⟨ip.toU32Be, 1 <<< (cidr.toUInt32 % 32) - 1, nic, cidr⟩, ?_, rfl, toNat_mask h⟩
  rw [new, if_neg hin, shl32, hshort, Bool.and_false]
  rfl

/-- At the word's width the checked build stops and the other builds a route with no mask. -/
theorem new_full (checks : Bool) (ip : Ipv4Addr) (nic : UInt16) :
    new checks ip 32 nic = if checks then .error .overflow else .ok ⟨ip.toU32Be, 0, nic, 32⟩ := by
  cases checks <;> rfl

theorem new_long (checks : Bool) (ip : Ipv4Addr) {cidr : UInt8} (nic : UInt16)
    (h : 32 < cidr.toNat) : new checks ip cidr nic = .error .panic := by
  have hout : 32 < cidr := UInt8.lt_iff_toNat_lt.mpr h
  rw [new, if_pos hout]
  rfl

theorem matchesIp_iff {r : Route} {n : Nat} (hmask : r.cidrMask.toNat = 2 ^ n - 1) (ip : UInt32) :
    r.matchesIp ip = true ↔ r.ip.toNat % 2 ^ n = ip.toNat % 2 ^ n := by
  have hmod : ((r.ip ^^^ ip) &&& r.cidrMask).toNat = (r.ip.toNat ^^^ ip.toNat) % 2 ^ n := by
    rw [UInt32.toNat_and, UInt32.toNat_xor, hmask, Nat.and_two_pow_sub_one_eq_mod]
  rw [matchesIp, beq_iff_eq, ← UInt32.toNat_inj, hmod, Nat.xor_mod_two_pow]
  show _ = 0 ↔ _
  exact Nat.xor_eq_zero_iff

/-- The route's mask matches the destination exactly if the network's prefix does. -/
def MatchesPrefix (checks : Bool) (network : Ipv4Addr) (cidr : UInt8) (nic : UInt16)
    (dst : Ipv4Addr) : Prop :=
  ∃ r, new checks network cidr nic = .ok r ∧
    (r.matchesIp dst.toU32Be = true ↔ SamePrefix cidr.toNat network dst)

/-- Both ends of the octet the prefix ends in agree about the two addresses, or an octet
before it tells them apart. -/
def EndsCoincide (n : Nat) (a b : Ipv4Addr) : Prop :=
  WholeOctets n a b → (LowBits n a b ↔ HighBits n a b)

instance (n : Nat) (a b : Ipv4Addr) : Decidable (EndsCoincide n a b) :=
  inferInstanceAs (Decidable ((∀ i < n / 8, a.octet i = b.octet i) →
    (a.octet (n / 8) % 2 ^ (n % 8) = b.octet (n / 8) % 2 ^ (n % 8) ↔
      a.octet (n / 8) / 2 ^ (8 - n % 8) = b.octet (n / 8) / 2 ^ (8 - n % 8))))

/-- A cidr the mask is made for. -/
theorem matchesPrefix_short {checks : Bool} {network dst : Ipv4Addr} {cidr : UInt8} {nic : UInt16}
    (hshort : cidr.toNat < 32) :
    MatchesPrefix checks network cidr nic dst ↔ EndsCoincide cidr.toNat network dst := by
  obtain ⟨r, hr, hip, hmask⟩ := new_ok checks network nic hshort
  have hmatch : r.matchesIp dst.toU32Be = true ↔
      WholeOctets cidr.toNat network dst ∧ LowBits cidr.toNat network dst := by
    rw [matchesIp_iff hmask, hip, same_low_bits_iff (Nat.le_of_lt hshort)]
  have hprefix := samePrefix_iff cidr.toNat network dst
  constructor
  · intro h
    obtain ⟨r', hr', hiff⟩ := h
    rw [hr] at hr'
    cases hr'
    rw [hmatch, hprefix] at hiff
    intro hwhole
    simpa only [hwhole, true_and] using hiff
  · intro hends
    refine ⟨r, hr, ?_⟩
    rw [hmatch, hprefix]
    exact and_congr_right hends

/-- A cidr of 32 either overflows or leaves a mask that every address matches. -/
theorem matchesPrefix_full {checks : Bool} {network dst : Ipv4Addr} {nic : UInt16} :
    MatchesPrefix checks network 32 nic dst ↔ checks = false ∧ dst = network := by
  have hall (network dst : Ipv4Addr) :
      (⟨network.toU32Be, 0, nic, 32⟩ : Route).matchesIp dst.toU32Be = true := by
    rw [matchesIp, UInt32.and_zero]
    rfl
  constructor
  · intro h
    obtain ⟨r, hr, hiff⟩ := h
    rw [new_full] at hr
    cases checks with
    | true => cases hr
    | false =>
      cases hr
      exact ⟨rfl, ((samePrefix_full network dst).mp (hiff.mp (hall network dst))).symm⟩
  · intro h
    obtain ⟨rfl, rfl⟩ := h
    exact ⟨⟨dst.toU32Be, 0, nic, 32⟩, new_full false dst nic,
      iff_of_true (hall dst dst) ((samePrefix_full dst dst).mpr rfl)⟩

theorem matchesPrefix_long {checks : Bool} {network dst : Ipv4Addr} {cidr : UInt8} {nic : UInt16}
    (hlong : 32 < cidr.toNat) : ¬ MatchesPrefix checks network cidr nic dst := by
  intro h
  obtain ⟨r, hr, _⟩ := h
  rw [new_long checks network nic hlong] at hr
  cases hr

/-- A route matches a prefix if that is shorter than the word and the two ends of the octet
it ends in coincide; or, without overflow checks, if it is the whole word and the
destination the network's address. -/
theorem matches_prefix_iff (checks : Bool) (network : Ipv4Addr) (cidr : UInt8) (nic : UInt16)
    (dst : Ipv4Addr) : MatchesPrefix checks network cidr nic dst ↔
      (cidr.toNat < 32 ∧ EndsCoincide cidr.toNat network dst) ∨
        (cidr = 32 ∧ checks = false ∧ dst = network) := by
  rcases Nat.lt_trichotomy cidr.toNat 32 with hshort | hfull | hlong
  · have hne : cidr ≠ 32 := fun h => absurd (congrArg UInt8.toNat h) (Nat.ne_of_lt hshort)
    simp only [matchesPrefix_short hshort, hshort, hne, true_and, false_and, or_false]
  · obtain rfl : cidr = 32 := UInt8.toNat.inj hfull
    have hshort : ¬ (32 : UInt8).toNat < 32 := Nat.lt_irrefl 32
    simp only [matchesPrefix_full, hshort, false_and, false_or, true_and]
  · have hshort : ¬ cidr.toNat < 32 := Nat.not_lt_of_gt hlong
    have hne : cidr ≠ 32 := fun h => absurd (congrArg UInt8.toNat h) (Nat.ne_of_gt hlong)
    simp only [matchesPrefix_long hlong, hshort, hne, false_and, or_false]

/-! ### Every destination -/

/-- The network's address with the first bit of one octet flipped. -/
def flipped (a : Ipv4Addr) (i : Nat) (hi : i < 4) : Ipv4Addr :=
  ⟨a.octets.set i (a.octets[i] ^^^ 0x80)⟩

theorem flipped_octet (a : Ipv4Addr) {i j : Nat} (hi : i < 4) (hj : j < 4) :
    (flipped a i hi).octet j = if j = i then a.octet i ^^^ 2 ^ 7 else a.octet j := by
  rw [octet_eq _ hj]
  by_cases h : j = i
  · subst h
    rw [if_pos rfl, octet_eq a hi, flipped]
    show ((a.octets.set j (a.octets[j] ^^^ 0x80))[j]).toNat = _
    rw [Vector.getElem_set_self, UInt8.toNat_xor]
    rfl
  · rw [if_neg h, octet_eq a hj, flipped]
    show ((a.octets.set i (a.octets[i] ^^^ 0x80))[j]).toNat = _
    rw [Vector.getElem_set_ne]
    exact Ne.symm h

/-- Inside an octet, the two ends do not coincide for every destination. -/
theorem ends_differ {n : Nat} (hn : n < 32) (hinside : n % 8 ≠ 0) (a : Ipv4Addr) :
    ¬ EndsCoincide n a (flipped a (n / 8) (by omega)) := by
  have hq : n / 8 < 4 := by omega
  have hoctet : (flipped a (n / 8) hq).octet (n / 8) = a.octet (n / 8) ^^^ 2 ^ 7 := by
    rw [flipped_octet a hq hq, if_pos rfl]
  have hwhole : WholeOctets n a (flipped a (n / 8) hq) := by
    intro i hi
    rw [flipped_octet a hq (by omega), if_neg (by omega)]
  have hlow : LowBits n a (flipped a (n / 8) hq) := by
    unfold LowBits
    rw [hoctet, Bits.low_eq_iff]
    intro k hk
    rw [Nat.testBit_xor, Nat.testBit_two_pow, decide_eq_false (by omega), Bool.xor_false]
  have hhigh : ¬ HighBits n a (flipped a (n / 8) hq) := by
    unfold HighBits
    rw [Bits.high_eq_iff (a.octet_lt _) (octet_lt _ _) (by omega), hoctet]
    intro h
    have hfirst := h 0 (by omega)
    rw [Nat.testBit_xor, Nat.testBit_two_pow] at hfirst
    cases hbit : (a.octet (n / 8)).testBit 7 <;> rw [hbit] at hfirst <;> cases hfirst
  exact fun h => hhigh ((h hwhole).mp hlow)

/-- Between two octets they coincide for any. -/
theorem ends_coincide {n : Nat} (hbetween : n % 8 = 0) (a b : Ipv4Addr) : EndsCoincide n a b := by
  intro _
  have hlow : LowBits n a b := by
    unfold LowBits
    rw [hbetween, Nat.pow_zero, Nat.mod_one, Nat.mod_one]
  have hhigh : HighBits n a b := by
    unfold HighBits
    rw [hbetween, Nat.sub_zero, Nat.div_eq_of_lt (a.octet_lt _), Nat.div_eq_of_lt (b.octet_lt _)]
  exact iff_of_true hlow hhigh

/-- A route is right about every destination if its prefix ends between two octets, the whole
address excepted. -/
theorem matches_all_iff (checks : Bool) (network : Ipv4Addr) (cidr : UInt8) (nic : UInt16) :
    (∀ dst, MatchesPrefix checks network cidr nic dst) ↔ cidr.toNat < 32 ∧ cidr.toNat % 8 = 0 := by
  constructor
  · intro h
    have hlt : cidr.toNat < 32 := by
      rcases (matches_prefix_iff checks network cidr nic _).mp (h (flipped network 0 (by omega)))
        with ⟨hlt, _⟩ | ⟨_, _, hsame⟩
      · exact hlt
      · have hoctet := flipped_octet network (i := 0) (j := 0) (by omega) (by omega)
        rw [hsame, if_pos rfl] at hoctet
        have hbit := congrArg (fun x => x.testBit 7) hoctet
        rw [Nat.testBit_xor, Nat.testBit_two_pow] at hbit
        cases hset : (network.octet 0).testBit 7 <;> rw [hset] at hbit <;> cases hbit
    refine ⟨hlt, ?_⟩
    by_contra hinside
    rcases (matches_prefix_iff checks network cidr nic _).mp
      (h (flipped network (cidr.toNat / 8) (by omega))) with ⟨_, hends⟩ | ⟨heq, _⟩
    · exact ends_differ hlt hinside network hends
    · subst heq
      exact absurd hlt (Nat.lt_irrefl 32)
  · intro h dst
    exact (matches_prefix_iff checks network cidr nic dst).mpr
      (.inl ⟨h.1, ends_coincide h.2 network dst⟩)

/-- **CIDR matching**: for one destination the two ends of the octet the prefix ends in
decide, for all of them the prefix has to end between two octets. -/
theorem cidr_matching (checks : Bool) (network : Ipv4Addr) (cidr : UInt8) (nic : UInt16) :
    (∀ dst, MatchesPrefix checks network cidr nic dst ↔
      (cidr.toNat < 32 ∧ EndsCoincide cidr.toNat network dst) ∨
        (cidr = 32 ∧ checks = false ∧ dst = network)) ∧
      ((∀ dst, MatchesPrefix checks network cidr nic dst) ↔
        cidr.toNat < 32 ∧ cidr.toNat % 8 = 0) :=
  ⟨matches_prefix_iff checks network cidr nic, matches_all_iff checks network cidr nic⟩

/-- **172.16.0.0/12 does not match 172.31.0.1**, and a prefix of 32 bits stops the checked
build and matches everything in the other. -/
theorem inner_prefix_mismatch :
    (∀ checks, ¬ MatchesPrefix checks ⟨#v[172, 16, 0, 0]⟩ 12 0 ⟨#v[172, 31, 0, 1]⟩) ∧
      ¬ MatchesPrefix true ⟨#v[192, 168, 10, 2]⟩ 32 0 ⟨#v[192, 168, 10, 2]⟩ ∧
      ¬ MatchesPrefix false ⟨#v[192, 168, 10, 2]⟩ 32 0 ⟨#v[10, 0, 0, 1]⟩ := by
  refine ⟨?_, ?_, ?_⟩
  · intro checks
    rw [matches_prefix_iff]
    cases checks <;> decide
  · rw [matches_prefix_iff]
    decide
  · rw [matches_prefix_iff]
    decide

end Route
end OmniStack
