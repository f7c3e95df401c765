import OmniStack.Lib.ArrayVec
import OmniStack.Config
import OmniStack.Module

/-! The IPv4 modules: the sender with its route table, and the receiver. -/
namespace OmniStack
open Lib

structure Ipv4Sender where
  routeTable : ArrayVec Route 10

namespace Ipv4Sender
variable {σ : Type}

def new : Ipv4Sender := ⟨.empty⟩

/-- `try_extend_from_slice(&stack_config.routes).unwrap()` -/
def init (self : Ipv4Sender) (stackConfig : StackConfig) : Exec Ipv4Sender := do
  return {self with routeTable := ← ArrayVec.ofList (self.routeTable.items ++ stackConfig.routes)}

def src : UInt32 := Bytes.word32 192 168 10 1

def dst : UInt32 := Bytes.word32 192 168 10 2

/-- The loop over the route table, from `max_cidr` and `dst_nic`. -/
def select (ip : UInt32) : List Route → UInt8 → Option UInt16 → Option UInt16
  | [], _, dstNic => dstNic
  | route :: rest, maxCidr, dstNic =>
    if route.matchesIp ip && decide (maxCidr < route.cidr) then
      select ip rest route.cidr (some route.nic)
    else select ip rest maxCidr dstNic

def nic (self : Ipv4Sender) : UInt16 := (select dst self.routeTable.items 0 none).getD 0

def process (self : Ipv4Sender) (checks : Bool) (p : PacketId) (w : World σ) :
    Exec (Result Unit × World σ) := do
  let pkt := w.pkts p
  let offset ← sub16 checks pkt.offset Ipv4Header.size
  let pkt := {pkt with nic := self.nic, offset, l3Header := ⟨Ipv4Header.size, offset⟩}
  let w := w.setPkt p pkt
  let ipv4Hdr := Ipv4Header.load (w.bytes p) offset.toNat
  let ipv4Hdr ← ipv4Hdr.setVersion checks 4
  let ipv4Hdr ← ipv4Hdr.setIhl checks 5
  let len ← pkt.lenOf checks
  return (.ok (), w.storeAt p offset.toNat
    {ipv4Hdr with
      totLen := toBe len, protocol := Ipv4ProtoType.udp, ttl := 255, src, dst
      tos := 0, id := 0, fragOff := 0, cksum := 0}.toBytes)

/-- The packet with the header's room in its window and the card chosen. -/
def pushed (self : Ipv4Sender) (pkt : Packet) : Packet :=
  {pkt with
    nic := self.nic
    offset := pkt.offset - Ipv4Header.size
    l3Header := ⟨Ipv4Header.size, pkt.offset - Ipv4Header.size⟩}

/-- The header written over what the buffer holds. Its first byte keeps the bits that were
there. -/
def header (m : Bytes) (pkt : Packet) : Ipv4Header where
  versionIhl := m pkt.offset.toNat ||| 4 ||| 0x50
  tos := 0
  totLen := toBe (pkt.len - pkt.offset)
  id := 0
  fragOff := 0
  ttl := 255
  protocol := Ipv4ProtoType.udp
  cksum := 0
  src := src
  dst := dst

theorem process_eq (self : Ipv4Sender) (checks : Bool) {p : PacketId} {w : World σ}
    (hroom : 20 ≤ (w.pkts p).offset.toNat)
    (hlen : (w.pkts p).offset.toNat - 20 ≤ (w.pkts p).len.toNat) :
    self.process checks p w = .ok (.ok (), (w.setPkt p (self.pushed (w.pkts p))).storeAt p
      (self.pushed (w.pkts p)).offset.toNat
      (header (w.bytes p) (self.pushed (w.pkts p))).toBytes) := by
  have hsub : sub16 checks (w.pkts p).offset Ipv4Header.size = .ok _ := sub16_ok checks hroom
  have hwindow : sub16 checks (w.pkts p).len ((w.pkts p).offset - Ipv4Header.size) = .ok _ :=
    sub16_ok checks (by rw [toNat_sub16 (by exact hroom)]; exact hlen)
  have hversion (h : Ipv4Header) :
      h.setVersion checks 4 = .ok {h with versionIhl := h.versionIhl ||| 4} := by
    cases checks <;> rfl
  have hihl (h : Ipv4Header) :
      h.setIhl checks 5 = .ok {h with versionIhl := h.versionIhl ||| 0x50} := by
    cases checks <;> rfl
  have hbytes : (w.setPkt p (self.pushed (w.pkts p))).bytes p = w.bytes p :=
    World.setPkt_bytes w rfl
  rw [← hbytes]
  simp only [process, hsub, Exec.ok_bind, Packet.lenOf, hwindow, hversion, hihl]
  rfl

theorem process_edits {self : Ipv4Sender} {checks : Bool} {p : PacketId} {w w' : World σ}
    {res : Result Unit} (h : self.process checks p w = .ok (res, w')) :
    res = .ok () ∧ World.Edited p w w' := by
  simp only [process, Exec.bind_eq_ok, Exec.pure_eq_ok, Prod.mk.injEq] at h
  obtain ⟨offset, _, h₁, _, h₂, _, len, _, rfl, rfl⟩ := h
  apply And.intro rfl
  apply World.Edited.storeAt
  exact .setPkt rfl rfl rfl

/-- Whatever comes of the call, a packet sent is for the selected card. -/
theorem process_nic {self : Ipv4Sender} {checks : Bool} {p : PacketId} {w w' : World σ}
    {res : Result Unit} (h : self.process checks p w = .ok (res, w')) :
    (w'.pkts p).nic = self.nic := by
  simp only [process, Exec.bind_eq_ok, Exec.pure_eq_ok, Prod.mk.injEq] at h
  obtain ⟨offset, _, h₁, _, h₂, _, len, _, _, rfl⟩ := h
  simp

end Ipv4Sender

namespace Ipv4Receiver
variable {σ : Type}

def process (checks : Bool) (ctx : Context) (p : PacketId) (w : World σ) :
    Exec (Result Unit × World σ) := do
  let pkt := w.pkts p
  let ipv4 := Ipv4Header.load (w.bytes p) pkt.offset.toNat
  let length := (ipv4.ihl <<< 2).toUInt16
  let pkt := {pkt with l3Header := ⟨length, pkt.offset⟩}
  let pkt ← pkt.setLen checks ipv4.len
  let offset ← add16 checks pkt.offset length
  let w := w.setPkt p {pkt with offset}
  if ipv4.ihl < 5 || ipv4.ttl == 0 then
    return (.error .dropped, ← PacketPool.deallocate checks p ctx.threadId w)
  else return (.ok (), w)

def module (checks : Bool) : Module σ where
  process := process checks

/-- A packet is passed on, or given back. -/
theorem process_edits {checks : Bool} {ctx : Context} {p : PacketId} {w w' : World σ}
    {res : Result Unit} (h : process checks ctx p w = .ok (res, w')) :
    (res = .ok () ∧ World.Edited p w w') ∨ res = .error .dropped ∧ ∃ w₁, World.Edited p w w₁ ∧
      PacketPool.deallocate checks p ctx.threadId w₁ = .ok w' := by
  simp only [process, Packet.setLen, Exec.bind_eq_ok, Exec.pure_eq_ok] at h
  obtain ⟨pkt, ⟨len, _, rfl⟩, offset, _, h⟩ := h
  split at h
  · simp only [Exec.bind_eq_ok, Exec.pure_eq_ok, Prod.mk.injEq] at h
    obtain ⟨w₁, hfreed, rfl, rfl⟩ := h
    refine .inr ⟨rfl, _, ?_, hfreed⟩
    exact .setPkt rfl rfl rfl
  · simp only [Exec.pure_eq_ok, Prod.mk.injEq] at h
    obtain ⟨rfl, rfl⟩ := h
    exact .inl ⟨rfl, .setPkt rfl rfl rfl⟩

/-- The header a packet's window starts with. -/
def headerOf (w : World σ) (p : PacketId) : Ipv4Header :=
  Ipv4Header.load (w.bytes p) (w.pkts p).offset.toNat

/-- The packet after its header has been read. -/
def stripped (pkt : Packet) (ipv4 : Ipv4Header) : Packet :=
  {pkt with
    l3Header := ⟨(ipv4.ihl <<< 2).toUInt16, pkt.offset⟩
    len := ipv4.len + pkt.offset
    offset := pkt.offset + (ipv4.ihl <<< 2).toUInt16}

theorem process_eq (checks : Bool) (ctx : Context) {p : PacketId} {w : World σ}
    (hlen : (headerOf w p).len.toNat + (w.pkts p).offset.toNat < 2 ^ 16)
    (hoffset : (w.pkts p).offset.toNat + 4 * (headerOf w p).ihl.toNat < 2 ^ 16) :
    process checks ctx p w =
      if (headerOf w p).ihl < 5 || (headerOf w p).ttl == 0 then do
        return (.error .dropped, ← PacketPool.deallocate checks p ctx.threadId
          (w.setPkt p (stripped (w.pkts p) (headerOf w p))))
      else .ok (.ok (), w.setPkt p (stripped (w.pkts p) (headerOf w p))) := by
  rw [← Ipv4Header.toNat_ihl_length] at hoffset
  have hset : add16 checks (headerOf w p).len (w.pkts p).offset = .ok _ := add16_ok checks hlen
  have hadd : add16 checks (w.pkts p).offset ((headerOf w p).ihl <<< 2).toUInt16 = .ok _ :=
    add16_ok checks hoffset
  simp only [headerOf] at hset hadd
  simp only [process, Packet.setLen, hset, Exec.ok_bind, pure_bind, hadd]
  rfl

theorem process_overflow {ctx : Context} {p : PacketId} {w : World σ}
    (h : 2 ^ 16 ≤ (headerOf w p).len.toNat + (w.pkts p).offset.toNat ∨
      2 ^ 16 ≤ (w.pkts p).offset.toNat + 4 * (headerOf w p).ihl.toNat) :
    process true ctx p w = .error .overflow := by
  rw [← Ipv4Header.toNat_ihl_length] at h
  by_cases hlen : 2 ^ 16 ≤ (headerOf w p).len.toNat + (w.pkts p).offset.toNat
  · have hset : add16 true (headerOf w p).len (w.pkts p).offset = .error .overflow :=
      add16_overflow hlen
    simp only [headerOf] at hset
    simp only [process, Packet.setLen, hset]
    rfl
  · have hset : add16 true (headerOf w p).len (w.pkts p).offset = .ok _ :=
      add16_ok true (Nat.lt_of_not_le hlen)
    have hadd : add16 true (w.pkts p).offset ((headerOf w p).ihl <<< 2).toUInt16 =
        .error .overflow := add16_overflow (h.resolve_left hlen)
    simp only [headerOf] at hset hadd
    simp only [process, Packet.setLen, hset, Exec.ok_bind, pure_bind, hadd]
    rfl

end Ipv4Receiver
end OmniStack
