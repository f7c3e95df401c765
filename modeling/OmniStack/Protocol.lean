import OmniStack.Lib.Checked
import OmniStack.Lib.Bytes

/-! Wire formats: addresses, the three headers and the routes.

A header is a packed structure laid over the packet's bytes. Here it is a record
of raw field values with the bytes it occupies (`toBytes`) and what the memory at
an address reads as (`load`); a header stored is the header loaded (`load_store`).
Multi-byte fields hold the stored word: values on the wire are big-endian, so the
code passes them through `toBe` and `fromBe`. -/
namespace OmniStack
open Lib

/-- `u16::to_be` on a little-endian machine; `u16::from_be` is the same exchange. -/
def toBe (x : UInt16) : UInt16 := Bytes.swap16 x

def fromBe (x : UInt16) : UInt16 := Bytes.swap16 x

@[simp] theorem fromBe_toBe (x : UInt16) : fromBe (toBe x) = x := Bytes.swap16_swap16 x

/-! ### Addresses -/

structure MacAddr where
  raw : Vector UInt8 6
  deriving DecidableEq

namespace MacAddr

def new : MacAddr := ⟨Vector.replicate 6 0⟩

def fromBytes (bytes : Vector UInt8 6) : MacAddr := ⟨bytes⟩

def toBytes (a : MacAddr) : List UInt8 := a.raw.toList

def load (m : Bytes) (off : Nat) : MacAddr :=
  ⟨#v[m off, m (off + 1), m (off + 2), m (off + 3), m (off + 4), m (off + 5)]⟩

@[simp] theorem toBytes_length (a : MacAddr) : a.toBytes.length = 6 := by simp [toBytes]

end MacAddr

structure Ipv4Addr where
  octets : Vector UInt8 4
  deriving DecidableEq

inductive ParseIpv4Error where
  | invalidAddress
  deriving DecidableEq, Repr

namespace Ipv4Addr

/-- `u32::from_le_bytes(self.octets)` -/
def toU32Be (a : Ipv4Addr) : UInt32 :=
  Bytes.word32 a.octets[0] a.octets[1] a.octets[2] a.octets[3]

/-- The value of a string of decimal digits. -/
def digits : List Char → Option Nat :=
  List.foldlM (fun n c => if c.isDigit then some (10 * n + (c.toNat - '0'.toNat)) else none) 0

/-- `str::parse::<u8>`: an optional plus sign, then at least one digit, a value that fits. -/
def parseU8 (s : List Char) : Option UInt8 :=
  let body := match s with
    | '+' :: rest => rest
    | _ => s
  if body = [] then none
  else match digits body with
    | some n => if n < 256 then some (UInt8.ofNat n) else none
    | none => none

/-- The pieces of `s.split('.')`. -/
def splitDot : List Char → List (List Char)
  | [] => [[]]
  | c :: rest =>
    if c = '.' then [] :: splitDot rest
    else match splitDot rest with
      | piece :: pieces => (c :: piece) :: pieces
      | [] => [[c]]

/-- The loop of `from_str`: the address and `idx` when it stops. It writes at `idx`
before it looks at it, so a fifth octet is written past the array. -/
def fromStrLoop : List (List Char) → Vector UInt8 4 → Nat →
    Exec (Except ParseIpv4Error (Vector UInt8 4 × Nat))
  | [], octets, idx => .ok (.ok (octets, idx))
  | piece :: pieces, octets, idx =>
    match parseU8 piece with
    | none => .ok (.ok (octets, idx))
    | some octet =>
      if h : idx < 4 then
        let octets := octets.set idx octet
        if 4 < idx + 1 then .ok (.error .invalidAddress)
        else fromStrLoop pieces octets (idx + 1)
      else .error .panic

def fromStr (s : String) : Exec (Except ParseIpv4Error Ipv4Addr) := do
  match ← fromStrLoop (splitDot s.toList) (Vector.replicate 4 0) 0 with
  | .error e => return .error e
  | .ok (octets, idx) =>
    if idx < 4 then return .error .invalidAddress
    else return .ok ⟨octets⟩

example : fromStr "192.168.10.2" = .ok (.ok ⟨#v[192, 168, 10, 2]⟩) := rfl

end Ipv4Addr

/-! ### The Ethernet header -/

namespace EtherType

/-- The discriminants of `EtherType`, as stored. -/
def ipv4 : UInt16 := toBe 0x0800

end EtherType

structure EthHeader where
  dst : MacAddr
  src : MacAddr
  etherTy : UInt16
  deriving DecidableEq

namespace EthHeader

def size : UInt16 := 14

def toBytes (h : EthHeader) : List UInt8 := h.dst.toBytes ++ h.src.toBytes ++ Bytes.le16 h.etherTy

def load (m : Bytes) (off : Nat) : EthHeader where
  dst := MacAddr.load m off
  src := MacAddr.load m (off + 6)
  etherTy := Bytes.word16 (m (off + 12)) (m (off + 13))

@[simp] theorem toBytes_length (h : EthHeader) : h.toBytes.length = 14 := by
  simp [toBytes, Bytes.le16]

theorem toBytes_take (h : EthHeader) : h.toBytes.take 6 = h.dst.toBytes := by
  rw [toBytes, List.append_assoc]
  exact List.take_left' h.dst.toBytes_length

theorem toBytes_drop (h : EthHeader) : (h.toBytes.drop 12).take 2 = Bytes.le16 h.etherTy := by
  rw [toBytes, List.drop_left' (by simp)]
  exact List.take_of_length_le (by simp [Bytes.le16])

end EthHeader

/-! ### The IPv4 header -/

namespace Ipv4ProtoType

def udp : UInt8 := 0x11

end Ipv4ProtoType

structure Ipv4Header where
  versionIhl : UInt8
  tos : UInt8
  totLen : UInt16
  id : UInt16
  fragOff : UInt16
  ttl : UInt8
  protocol : UInt8
  cksum : UInt16
  src : UInt32
  dst : UInt32
  deriving DecidableEq

namespace Ipv4Header

def size : UInt16 := 20

def toBytes (h : Ipv4Header) : List UInt8 :=
  [h.versionIhl, h.tos] ++ Bytes.le16 h.totLen ++ Bytes.le16 h.id ++ Bytes.le16 h.fragOff ++
    [h.ttl, h.protocol] ++ Bytes.le16 h.cksum ++ Bytes.le32 h.src ++ Bytes.le32 h.dst

def load (m : Bytes) (off : Nat) : Ipv4Header where
  versionIhl := m off
  tos := m (off + 1)
  totLen := Bytes.word16 (m (off + 2)) (m (off + 3))
  id := Bytes.word16 (m (off + 4)) (m (off + 5))
  fragOff := Bytes.word16 (m (off + 6)) (m (off + 7))
  ttl := m (off + 8)
  protocol := m (off + 9)
  cksum := Bytes.word16 (m (off + 10)) (m (off + 11))
  src := Bytes.word32 (m (off + 12)) (m (off + 13)) (m (off + 14)) (m (off + 15))
  dst := Bytes.word32 (m (off + 16)) (m (off + 17)) (m (off + 18)) (m (off + 19))

@[simp] theorem toBytes_length (h : Ipv4Header) : h.toBytes.length = 20 := by
  simp [toBytes, Bytes.le16, Bytes.le32]

/-- A header is its bytes. -/
theorem load_congr {m m' : Bytes} {off : Nat} (h : ∀ i, off ≤ i → i < off + 20 → m i = m' i) :
    load m off = load m' off := by
  have byte (k : Nat) (hk : k < 20) : m (off + k) = m' (off + k) := h _ (by omega) (by omega)
  have hfirst : m off = m' off := byte 0 (by omega)
  simp only [load, hfirst, byte 1, byte 2, byte 3, byte 4, byte 5, byte 6, byte 7, byte 8, byte 9,
    byte 10, byte 11, byte 12, byte 13, byte 14, byte 15, byte 16, byte 17, byte 18, byte 19,
    Nat.reduceLT]

/-- A write beside a header leaves it. -/
theorem load_write_outside {m : Bytes} {off start : Nat} {l : List UInt8}
    (h : start + l.length ≤ off ∨ off + 20 ≤ start) : load (m.write start l) off = load m off :=
  load_congr fun i hlo hhi => Bytes.write_outside (by omega)

/-- A header stored is the header loaded. -/
theorem load_store (m : Bytes) (off : Nat) (h : Ipv4Header) :
    load (m.write off h.toBytes) off = h := by
  have byte : ∀ k b, h.toBytes[k]? = some b → m.write off h.toBytes (off + k) = b :=
    fun k b hk => Bytes.write_get m off k hk
  have hfirst : m.write off h.toBytes off = h.versionIhl := byte 0 _ rfl
  have hlen : _ = h.totLen := Bytes.word16_write (l := h.toBytes) m off 2 rfl rfl
  have hid : _ = h.id := Bytes.word16_write (l := h.toBytes) m off 4 rfl rfl
  have hfrag : _ = h.fragOff := Bytes.word16_write (l := h.toBytes) m off 6 rfl rfl
  have hck : _ = h.cksum := Bytes.word16_write (l := h.toBytes) m off 10 rfl rfl
  have hsrc : _ = h.src := Bytes.word32_write (l := h.toBytes) m off 12 rfl rfl rfl rfl
  have hdst : _ = h.dst := Bytes.word32_write (l := h.toBytes) m off 16 rfl rfl rfl rfl
  unfold load
  rw [hfirst, byte 1 h.tos rfl, byte 8 h.ttl rfl, byte 9 h.protocol rfl]
  rw [hlen, hid, hfrag, hck, hsrc, hdst]

def version (h : Ipv4Header) : UInt8 := (h.versionIhl &&& 0xf0) >>> 4

def ihl (h : Ipv4Header) : UInt8 := h.versionIhl &&& 0xf

def len (h : Ipv4Header) : UInt16 := fromBe h.totLen

theorem ihl_lt (h : Ipv4Header) : h.ihl.toNat < 16 := by
  rw [ihl, UInt8.toNat_and]
  exact Nat.and_lt_two_pow (n := 4) _ (by decide)

/-- `(ihl() << 2) as u16`, the header's length in bytes. -/
theorem toNat_ihl_length (h : Ipv4Header) : (h.ihl <<< 2).toUInt16.toNat = 4 * h.ihl.toNat := by
  have := h.ihl_lt
  rw [UInt8.toNat_toUInt16, UInt8.toNat_shiftLeft, show (2 : UInt8).toNat % 8 = 2 by decide,
    Nat.shiftLeft_eq]
  omega

def setVersion (checks : Bool) (h : Ipv4Header) (version : UInt8) : Exec Ipv4Header :=
  if checks && decide (15 < version) then .error .panic
  else .ok {h with versionIhl := h.versionIhl ||| version}

def setIhl (checks : Bool) (h : Ipv4Header) (ihl : UInt8) : Exec Ipv4Header :=
  if checks && decide (15 < ihl) then .error .panic
  else .ok {h with versionIhl := h.versionIhl ||| (ihl <<< 4)}

end Ipv4Header

/-! ### The UDP header -/

structure UdpHeader where
  src : UInt16
  dst : UInt16
  len : UInt16
  chksum : UInt16
  deriving DecidableEq

namespace UdpHeader

def size : UInt16 := 8

def toBytes (h : UdpHeader) : List UInt8 :=
  Bytes.le16 h.src ++ Bytes.le16 h.dst ++ Bytes.le16 h.len ++ Bytes.le16 h.chksum

def load (m : Bytes) (off : Nat) : UdpHeader where
  src := Bytes.word16 (m off) (m (off + 1))
  dst := Bytes.word16 (m (off + 2)) (m (off + 3))
  len := Bytes.word16 (m (off + 4)) (m (off + 5))
  chksum := Bytes.word16 (m (off + 6)) (m (off + 7))

@[simp] theorem toBytes_length (h : UdpHeader) : h.toBytes.length = 8 := by
  simp [toBytes, Bytes.le16]

/-- A header is its bytes. -/
theorem load_congr {m m' : Bytes} {off : Nat} (h : ∀ i, off ≤ i → i < off + 8 → m i = m' i) :
    load m off = load m' off := by
  have byte (k : Nat) (hk : k < 8) : m (off + k) = m' (off + k) := h _ (by omega) (by omega)
  have hfirst : m off = m' off := byte 0 (by omega)
  simp only [load, hfirst, byte 1, byte 2, byte 3, byte 4, byte 5, byte 6, byte 7, Nat.reduceLT]

theorem load_write_outside {m : Bytes} {off start : Nat} {l : List UInt8}
    (h : start + l.length ≤ off ∨ off + 8 ≤ start) : load (m.write start l) off = load m off :=
  load_congr fun i hlo hhi => Bytes.write_outside (by omega)

/-- A header stored is the header loaded. -/
theorem load_store (m : Bytes) (off : Nat) (h : UdpHeader) :
    load (m.write off h.toBytes) off = h := by
  have hsrc : _ = h.src := Bytes.word16_write (l := h.toBytes) m off 0 rfl rfl
  have hdst : _ = h.dst := Bytes.word16_write (l := h.toBytes) m off 2 rfl rfl
  have hlen : _ = h.len := Bytes.word16_write (l := h.toBytes) m off 4 rfl rfl
  have hchksum : _ = h.chksum := Bytes.word16_write (l := h.toBytes) m off 6 rfl rfl
  unfold load
  rw [Nat.add_zero] at hsrc
  rw [hsrc, hdst, hlen, hchksum]

end UdpHeader

/-! ### Routes -/

structure Route where
  ip : UInt32
  cidrMask : UInt32
  nic : UInt16
  cidr : UInt8
  deriving DecidableEq

namespace Route

def new (checks : Bool) (ip : Ipv4Addr) (cidr : UInt8) (nic : UInt16) : Exec Route := do
  if 32 < cidr then throw .panic
  let bit ← shl32 checks 1 cidr
  return { ip := ip.toU32Be, cidrMask := bit - 1, cidr, nic }

/-- `Route::matches` -/
def matchesIp (r : Route) (ip : UInt32) : Bool := ((r.ip ^^^ ip) &&& r.cidrMask) == 0

end Route
end OmniStack
