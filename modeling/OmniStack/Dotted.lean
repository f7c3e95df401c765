import OmniStack.Protocol

/-! Dotted addresses: what `Ipv4Addr::from_str` accepts, and what is printed.

The grammar is four pieces between dots, each of them a `u8`. `from_str` takes its
pieces in turn and stops at the first that is no `u8` as it stops at the end, so it
looks at a fifth piece only once the four octets are full: `fromStr_short`, `fromStr_full` and
`fromStr_long` say what it returns, `follows_iff` for which texts this is the grammar. What
`Debug` prints is read back (`fromStr_fmt`). -/
namespace OmniStack
open Lib

namespace Ipv4Addr

/-- The octets are `x.to_le_bytes()`. -/
def fromBe (x : UInt32) : Ipv4Addr := ⟨⟨⟨Bytes.le32 x⟩, rfl⟩⟩

/-- What `Debug` writes: the four octets in decimal, with dots between them. -/
def fmt (a : Ipv4Addr) : String :=
  toString (a.octets.get 0) ++ "." ++ toString (a.octets.get 1) ++ "." ++
    toString (a.octets.get 2) ++ "." ++ toString (a.octets.get 3)

example : fmt ⟨#v[10, 0, 255, 2]⟩ = "10.0.255.2" := by decide

/-! ### The grammar -/

/-- The text is four pieces between dots, each of them a `u8`, and these are the octets. -/
def Spells (s : String) (a : Ipv4Addr) : Prop :=
  (splitDot s.toList).map parseU8 = a.octets.toList.map some

/-- `from_str` is the grammar on this text. -/
structure FollowsGrammar (s : String) : Prop where
  returns : ∃ result, fromStr s = .ok result
  accepts : ∀ a, fromStr s = .ok (.ok a) ↔ Spells s a
  refuses : (∀ a, ¬ Spells s a) → fromStr s = .ok (.error .invalidAddress)

/-- More than four pieces, and the first four are `u8`s. -/
def Overruns (s : String) : Prop :=
  4 < (splitDot s.toList).length ∧
    ∀ piece ∈ (splitDot s.toList).take 4, ∃ octet, parseU8 piece = some octet

instance (s : String) : Decidable (Overruns s) :=
  decidable_of_iff (4 < (splitDot s.toList).length ∧
      ∀ piece ∈ (splitDot s.toList).take 4, (parseU8 piece).isSome = true)
    (and_congr_right' (forall₂_congr fun _ _ => Option.isSome_iff_exists))

/-! ### The pieces before the first that is no octet -/

def leading : List (List Char) → List UInt8
  | [] => []
  | piece :: pieces =>
    match parseU8 piece with
    | none => []
    | some octet => octet :: leading pieces

theorem leading_stop {piece : List Char} (pieces : List (List Char)) (h : parseU8 piece = none) :
    leading (piece :: pieces) = [] := by
  rw [leading, h]

theorem leading_cons {piece : List Char} (pieces : List (List Char)) {octet : UInt8}
    (h : parseU8 piece = some octet) :
    leading (piece :: pieces) = octet :: leading pieces := by
  rw [leading, h]

theorem leading_length_le (pieces : List (List Char)) :
    (leading pieces).length ≤ pieces.length := by
  induction pieces with
  | nil => exact Nat.le_refl 0
  | cons piece pieces ih =>
    cases h : parseU8 piece with
    | none =>
      rw [leading_stop pieces h]
      exact Nat.zero_le _
    | some octet =>
      rw [leading_cons pieces h]
      exact Nat.succ_le_succ ih

/-- Every piece is an octet when none stops the row. -/
theorem map_parseU8_eq_iff (pieces : List (List Char)) (octets : List UInt8) :
    pieces.map parseU8 = octets.map some ↔
      leading pieces = octets ∧ pieces.length = octets.length := by
  induction pieces generalizing octets with
  | nil => cases octets <;> simp [leading]
  | cons piece pieces ih =>
    cases octets with
    | nil => simp
    | cons octet octets =>
      cases h : parseU8 piece with
      | none => simp [leading_stop pieces h, h]
      | some o =>
        simp only [List.map_cons, h, leading_cons pieces h, List.cons.injEq, ih octets,
          Option.some.injEq, List.length_cons, Nat.add_right_cancel_iff]
        exact (and_assoc).symm

theorem take_octets_iff (pieces : List (List Char)) (n : Nat) (hn : n ≤ pieces.length) :
    (∀ piece ∈ pieces.take n, ∃ octet, parseU8 piece = some octet) ↔
      n ≤ (leading pieces).length := by
  induction pieces generalizing n with
  | nil => simp [leading, Nat.le_zero.mp hn]
  | cons piece pieces ih =>
    cases n with
    | zero => simp
    | succ n =>
      rw [List.take_succ_cons, List.forall_mem_cons, ih n (Nat.le_of_succ_le_succ hn)]
      cases h : parseU8 piece with
      | none => simp [leading_stop pieces h]
      | some octet => simp [leading_cons pieces h]

/-! ### The loop -/

/-- The octets written from `idx` on. -/
def fill : Vector UInt8 4 → Nat → List UInt8 → Vector UInt8 4
  | octets, _, [] => octets
  | octets, idx, o :: rest => fill (octets.setIfInBounds idx o) (idx + 1) rest

/-- Four octets fill the array, whatever it held. -/
theorem fill_four (octets v : Vector UInt8 4) : fill v 0 octets.toList = octets := by
  obtain ⟨⟨octets⟩, hlen⟩ := octets
  match octets, hlen with
  | [a, b, c, d], _ =>
    apply Vector.ext
    intro i hi
    match i, hi with
    | 0, _ | 1, _ | 2, _ | 3, _ => simp [fill]

/-- The loop takes the pieces before the first that is no octet. Its test after the
increment never holds: a fifth octet has already missed the array. -/
theorem fromStrLoop_eq (pieces : List (List Char)) (octets : Vector UInt8 4) (idx : Nat)
    (hidx : idx ≤ 4) :
    fromStrLoop pieces octets idx =
      if idx + (leading pieces).length ≤ 4 then
        .ok (.ok (fill octets idx (leading pieces), idx + (leading pieces).length))
      else .error .panic := by
  induction pieces generalizing octets idx with
  | nil => simp [fromStrLoop, leading, fill, hidx]
  | cons piece pieces ih =>
    cases h : parseU8 piece with
    | none => simp [fromStrLoop, leading_stop pieces h, h, fill, hidx]
    | some octet =>
      rw [leading_cons pieces h, fromStrLoop]
      simp only [h]
      by_cases hroom : idx < 4
      · rw [dif_pos hroom, if_neg (by omega), ih _ _ hroom]
        simp only [List.length_cons, fill, Vector.setIfInBounds, Vector.set,
          Array.setIfInBounds, Vector.size_toArray, hroom, dif_pos]
        rw [show idx + 1 + (leading pieces).length = idx + ((leading pieces).length + 1) by omega]
      · rw [dif_neg hroom, if_neg]
        rw [List.length_cons]
        omega

section FromStr
variable {s : String}

theorem fromStr_short (h : (leading (splitDot s.toList)).length < 4) :
    fromStr s = .ok (.error .invalidAddress) := by
  rw [fromStr, fromStrLoop_eq _ _ 0 (by omega), if_pos (by omega)]
  show (if 0 + (leading (splitDot s.toList)).length < 4 then _ else _) = _
  rw [if_pos (by omega)]
  rfl

theorem fromStr_full {a : Ipv4Addr} (h : leading (splitDot s.toList) = a.octets.toList) :
    fromStr s = .ok (.ok a) := by
  have hlen : a.octets.toList.length = 4 := a.octets.length_toList
  rw [fromStr, fromStrLoop_eq _ _ 0 (by omega), h, if_pos (by omega), fill_four]
  show (if 0 + a.octets.toList.length < 4 then _ else _) = _
  rw [if_neg (by omega)]
  rfl

theorem fromStr_long (h : 4 < (leading (splitDot s.toList)).length) :
    fromStr s = .error .panic := by
  rw [fromStr, fromStrLoop_eq _ _ 0 (by omega), if_neg (by omega)]
  rfl

theorem Spells.leading_eq {a : Ipv4Addr} (h : Spells s a) :
    leading (splitDot s.toList) = a.octets.toList ∧ (splitDot s.toList).length = 4 := by
  obtain ⟨hlead, hlen⟩ := (map_parseU8_eq_iff _ _).mp h
  exact ⟨hlead, hlen.trans a.octets.length_toList⟩

/-- `from_str` is the grammar on the texts that have four pieces at most, or something else
than an octet among the first four. -/
theorem follows_iff (s : String) : FollowsGrammar s ↔ ¬ Overruns s := by
  have hle := leading_length_le (splitDot s.toList)
  constructor
  · intro h hover
    obtain ⟨hparts, hfour⟩ := hover
    rw [take_octets_iff _ _ (by omega)] at hfour
    by_cases hlong : 4 < (leading (splitDot s.toList)).length
    · obtain ⟨result, hresult⟩ := h.returns
      rw [fromStr_long hlong] at hresult
      cases hresult
    · have hlen : (leading (splitDot s.toList)).length = 4 := by omega
      have hfull : fromStr s = .ok (.ok ⟨⟨⟨leading (splitDot s.toList)⟩, hlen⟩⟩) :=
        fromStr_full rfl
      have := ((h.accepts _).mp hfull).leading_eq.2
      omega
  · intro hfits
    by_cases hshort : (leading (splitDot s.toList)).length < 4
    · have hresult := fromStr_short hshort
      have hnone (a : Ipv4Addr) : ¬ Spells s a := by
        intro hspells
        have hlen : a.octets.toList.length = 4 := a.octets.length_toList
        rw [hspells.leading_eq.1, hlen] at hshort
        omega
      refine ⟨⟨_, hresult⟩, fun a => ?_, fun _ => hresult⟩
      rw [hresult]
      exact ⟨fun h => (nomatch h), fun h => absurd h (hnone a)⟩
    · have hparts : ¬ 4 < (splitDot s.toList).length := by
        intro hparts
        exact hfits ⟨hparts, (take_octets_iff _ _ (by omega)).mpr (by omega)⟩
      have hlen : (leading (splitDot s.toList)).length = 4 := by omega
      have hfull : fromStr s = .ok (.ok ⟨⟨⟨leading (splitDot s.toList)⟩, hlen⟩⟩) :=
        fromStr_full rfl
      have hspells : Spells s ⟨⟨⟨leading (splitDot s.toList)⟩, hlen⟩⟩ :=
        (map_parseU8_eq_iff _ _).mpr ⟨rfl, by simp only [Vector.toList]; omega⟩
      refine ⟨⟨_, hfull⟩, fun a => ?_, fun h => absurd hspells (h _)⟩
      constructor
      · intro ha
        rw [hfull] at ha
        cases ha
        exact hspells
      · intro ha
        exact fromStr_full ha.leading_eq.1

end FromStr

/-- A fifth octet is written past the array; anything else after four octets is passed over. -/
theorem fromStr_overruns :
    fromStr "1.2.3.4.5" = .error .panic ∧ fromStr "1.2.3.4.x" = .ok (.ok ⟨#v[1, 2, 3, 4]⟩) ∧
      ¬ FollowsGrammar "1.2.3.4.5" ∧ ¬ FollowsGrammar "1.2.3.4.x" := by
  have hpanic : fromStr "1.2.3.4.5" = .error .panic := by decide
  have hok : fromStr "1.2.3.4.x" = .ok (.ok ⟨#v[1, 2, 3, 4]⟩) := by decide
  refine ⟨hpanic, hok, fun h => ?_, fun h => ?_⟩
  · obtain ⟨result, hresult⟩ := h.returns
    rw [hpanic] at hresult
    cases hresult
  · have := ((h.accepts _).mp hok).leading_eq.2
    exact absurd this (by decide)

/-! ### Printing and reading -/

theorem splitDot_eq_splitOn (l : List Char) : splitDot l = l.splitOn '.' := by
  induction l with
  | nil => rfl
  | cons c rest ih =>
    rw [List.splitOn_cons_eq_if_modifyHead, ← ih, splitDot]
    by_cases hc : c = '.'
    · simp [hc]
    · obtain ⟨piece, pieces, hsplit⟩ :=
        List.exists_cons_of_ne_nil (ih ▸ List.splitOn_ne_nil '.' rest)
      simp [hc, hsplit]

/-- Reading digits is the core's reading of them. -/
theorem digits_eq_some {l : List Char} (h : ∀ c ∈ l, c.isDigit) :
    digits l = some (Nat.ofDigitChars 10 l 0) := by
  have hfold (n : Nat) : List.foldlM (fun n c =>
      if c.isDigit then some (10 * n + (c.toNat - '0'.toNat)) else none) n l =
        some (Nat.ofDigitChars 10 l n) := by
    induction l generalizing n with
    | nil => simp
    | cons c rest ih =>
      rw [List.foldlM_cons, if_pos (h c List.mem_cons_self), Nat.ofDigitChars_cons]
      exact ih (fun d hd => h d (List.mem_cons_of_mem c hd)) _
  exact hfold 0

theorem dot_not_mem_toDigits (n : Nat) : '.' ∉ Nat.toDigits 10 n := by
  intro h
  have := Nat.isDigit_of_mem_toDigits (by omega) (by omega) h
  exact absurd this (by decide)

/-- Without a sign, the text is its digits. -/
theorem parseU8_digits {l : List Char} (hne : l ≠ []) (h : ∀ c ∈ l, c.isDigit) :
    parseU8 l = if Nat.ofDigitChars 10 l 0 < 256 then some (UInt8.ofNat (Nat.ofDigitChars 10 l 0))
      else none := by
  unfold parseU8
  split
  · next rest =>
    have := h '+' List.mem_cons_self
    exact absurd this (by decide)
  · simp only [if_neg hne, digits_eq_some h]

/-- An octet in decimal is read back. -/
theorem parseU8_toDigits (o : UInt8) : parseU8 (Nat.toDigits 10 o.toNat) = some o := by
  have hdigit : ∀ c ∈ Nat.toDigits 10 o.toNat, c.isDigit :=
    fun c hc => Nat.isDigit_of_mem_toDigits (by omega) (by omega) hc
  rw [parseU8_digits Nat.toDigits_ne_nil hdigit, Nat.ofDigitChars_ten_toDigits,
    if_pos o.toNat_lt, UInt8.ofNat_toNat]

theorem toList_toString (o : UInt8) : (toString o).toList = Nat.toDigits 10 o.toNat :=
  Nat.toList_repr

theorem fmt_toList (a : Ipv4Addr) :
    (fmt a).toList = ['.'].intercalate (a.octets.toList.map fun o => Nat.toDigits 10 o.toNat) := by
  obtain ⟨⟨⟨octets⟩, hlen⟩⟩ := a
  match octets, hlen with
  | [a, b, c, d], hlen =>
    have hfmt : fmt ⟨⟨⟨[a, b, c, d]⟩, hlen⟩⟩ =
        toString a ++ "." ++ toString b ++ "." ++ toString c ++ "." ++ toString d := rfl
    simp [hfmt, toList_toString]

/-- What `Debug` writes spells the address. -/
theorem fmt_spells (a : Ipv4Addr) : Spells (fmt a) a := by
  have hpieces : splitDot (fmt a).toList =
      a.octets.toList.map fun o => Nat.toDigits 10 o.toNat := by
    rw [fmt_toList, splitDot_eq_splitOn]
    apply List.splitOn_intercalate
    · intro piece hmem
      obtain ⟨o, _, rfl⟩ := List.mem_map.mp hmem
      exact dot_not_mem_toDigits o.toNat
    · intro hnil
      have hlen : a.octets.toList.length = 4 := a.octets.length_toList
      rw [List.map_eq_nil_iff.mp hnil] at hlen
      cases hlen
  rw [Spells, hpieces, List.map_map]
  exact List.map_congr_left fun o _ => parseU8_toDigits o

/-- An address on the wire is the address. -/
theorem fromBe_toU32Be (a : Ipv4Addr) : fromBe a.toU32Be = a := by
  obtain ⟨⟨⟨octets⟩, hlen⟩⟩ := a
  match octets, hlen with
  | [a, b, c, d], _ =>
    have hoctets : Bytes.le32 (Bytes.word32 a b c d) = [a, b, c, d] := Bytes.le32_word32 a b c d
    simp [fromBe, toU32Be, hoctets]

/-- An address printed is the address read, also when it has been on the wire. -/
theorem fromStr_fmt (a : Ipv4Addr) :
    fromStr (fmt a) = .ok (.ok a) ∧ fromStr (fmt (fromBe a.toU32Be)) = .ok (.ok a) := by
  have hread : fromStr (fmt a) = .ok (.ok a) := fromStr_full (fmt_spells a).leading_eq.1
  refine ⟨hread, ?_⟩
  rw [fromBe_toU32Be]
  exact hread

end Ipv4Addr
end OmniStack
