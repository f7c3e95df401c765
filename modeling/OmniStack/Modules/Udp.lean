import OmniStack.Module

/-! The UDP modules. -/
namespace OmniStack
open Lib

namespace UdpSender
variable {σ : Type}

def process (checks : Bool) (p : PacketId) (w : World σ) : Exec (Result Unit × World σ) := do
  let pkt := w.pkts p
  let offset ← sub16 checks pkt.offset UdpHeader.size
  let pkt := {pkt with offset, l4Header := ⟨UdpHeader.size, offset⟩}
  let w := w.setPkt p pkt
  let udpHdr := UdpHeader.load (w.bytes p) offset.toNat
  let len ← pkt.lenOf checks
  return (.ok (), w.storeAt p offset.toNat
    {udpHdr with src := toBe 80, dst := toBe 81, len := toBe len}.toBytes)

theorem process_edits {checks : Bool} {p : PacketId} {w w' : World σ} {res : Result Unit}
    (h : process checks p w = .ok (res, w')) : res = .ok () ∧ World.Edited p w w' := by
  simp only [process, Exec.bind_eq_ok, Exec.pure_eq_ok, Prod.mk.injEq] at h
  obtain ⟨offset, _, len, _, rfl, rfl⟩ := h
  apply And.intro rfl
  apply World.Edited.storeAt
  exact .setPkt rfl rfl rfl

/-- The packet with the header's room in its window. -/
def pushed (pkt : Packet) : Packet :=
  {pkt with
    offset := pkt.offset - UdpHeader.size
    l4Header := ⟨UdpHeader.size, pkt.offset - UdpHeader.size⟩}

/-- The header written over what the buffer holds. -/
def header (m : Bytes) (pkt : Packet) : UdpHeader :=
  {UdpHeader.load m pkt.offset.toNat with
    src := toBe 80, dst := toBe 81, len := toBe (pkt.len - pkt.offset)}

theorem process_eq (checks : Bool) {p : PacketId} {w : World σ}
    (hroom : 8 ≤ (w.pkts p).offset.toNat)
    (hlen : (w.pkts p).offset.toNat - 8 ≤ (w.pkts p).len.toNat) :
    process checks p w = .ok (.ok (), (w.setPkt p (pushed (w.pkts p))).storeAt p
      (pushed (w.pkts p)).offset.toNat (header (w.bytes p) (pushed (w.pkts p))).toBytes) := by
  have hsub : sub16 checks (w.pkts p).offset UdpHeader.size = .ok _ := sub16_ok checks hroom
  have hwindow : sub16 checks (w.pkts p).len ((w.pkts p).offset - UdpHeader.size) = .ok _ :=
    sub16_ok checks (by rw [toNat_sub16 (by exact hroom)]; exact hlen)
  have hbytes : (w.setPkt p (pushed (w.pkts p))).bytes p = w.bytes p := World.setPkt_bytes w rfl
  rw [← hbytes]
  simp only [process, hsub, Exec.ok_bind, Packet.lenOf, hwindow]
  rfl

def module (checks : Bool) : Module σ where
  process := fun _ p w => process checks p w

end UdpSender

namespace UdpReceiver
variable {σ : Type}

def process (checks : Bool) (p : PacketId) (w : World σ) : Exec (Result Unit × World σ) := do
  let pkt := w.pkts p
  let offset ← add16 checks pkt.offset UdpHeader.size
  return (.ok (), w.setPkt p {pkt with l4Header := ⟨UdpHeader.size, pkt.offset⟩, offset})

theorem process_edits {checks : Bool} {p : PacketId} {w w' : World σ} {res : Result Unit}
    (h : process checks p w = .ok (res, w')) : res = .ok () ∧ World.Edited p w w' := by
  simp only [process, Exec.bind_eq_ok, Exec.pure_eq_ok, Prod.mk.injEq] at h
  obtain ⟨offset, _, rfl, rfl⟩ := h
  exact ⟨rfl, .setPkt rfl rfl rfl⟩

theorem process_eq (checks : Bool) {p : PacketId} {w : World σ}
    (h : (w.pkts p).offset.toNat + 8 < 2 ^ 16) :
    process checks p w = .ok (.ok (), w.setPkt p {w.pkts p with
      l4Header := ⟨UdpHeader.size, (w.pkts p).offset⟩
      offset := (w.pkts p).offset + UdpHeader.size}) := by
  have hadd : add16 checks (w.pkts p).offset UdpHeader.size = .ok _ := add16_ok checks h
  simp only [process, hadd]
  rfl

theorem process_overflow {p : PacketId} {w : World σ}
    (h : 2 ^ 16 ≤ (w.pkts p).offset.toNat + 8) : process true p w = .error .overflow := by
  have hadd : add16 true (w.pkts p).offset UdpHeader.size = .error .overflow := add16_overflow h
  simp only [process, hadd]
  rfl

def module (checks : Bool) : Module σ where
  process := fun _ p w => process checks p w

end UdpReceiver
end OmniStack
