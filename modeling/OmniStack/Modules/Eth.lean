import OmniStack.Module

/-! The Ethernet modules. -/
namespace OmniStack
open Lib

namespace EthSender
variable {σ : Type}

/-- The address every frame is sent to. -/
def dst : MacAddr := .fromBytes #v[0x02, 0x00, 0x00, 0x00, 0x00, 0x00]

def process (checks : Bool) (p : PacketId) (w : World σ) : Exec (Result Unit × World σ) := do
  let pkt := w.pkts p
  let offset ← sub16 checks pkt.offset EthHeader.size
  let w := w.setPkt p {pkt with l2Header := ⟨EthHeader.size, offset⟩, offset}
  let ethHeader := EthHeader.load (w.bytes p) offset.toNat
  return (.ok (), w.storeAt p offset.toNat
    {ethHeader with dst := dst, etherTy := EtherType.ipv4}.toBytes)

theorem process_edits {checks : Bool} {p : PacketId} {w w' : World σ} {res : Result Unit}
    (h : process checks p w = .ok (res, w')) : res = .ok () ∧ World.Edited p w w' := by
  simp only [process, Exec.bind_eq_ok, Exec.pure_eq_ok, Prod.mk.injEq] at h
  obtain ⟨offset, _, rfl, rfl⟩ := h
  apply And.intro rfl
  apply World.Edited.storeAt
  exact .setPkt rfl rfl rfl

/-- The packet with the header's room in its window. -/
def pushed (pkt : Packet) : Packet :=
  {pkt with
    offset := pkt.offset - EthHeader.size
    l2Header := ⟨EthHeader.size, pkt.offset - EthHeader.size⟩}

/-- The header written over what the buffer holds. -/
def header (m : Bytes) (pkt : Packet) : EthHeader :=
  {EthHeader.load m pkt.offset.toNat with dst := dst, etherTy := EtherType.ipv4}

theorem process_eq (checks : Bool) {p : PacketId} {w : World σ}
    (hroom : 14 ≤ (w.pkts p).offset.toNat) :
    process checks p w = .ok (.ok (), (w.setPkt p (pushed (w.pkts p))).storeAt p
      (pushed (w.pkts p)).offset.toNat (header (w.bytes p) (pushed (w.pkts p))).toBytes) := by
  have hsub : sub16 checks (w.pkts p).offset EthHeader.size = .ok _ := sub16_ok checks hroom
  have hbytes : (w.setPkt p (pushed (w.pkts p))).bytes p = w.bytes p := World.setPkt_bytes w rfl
  rw [← hbytes]
  simp only [process, hsub]
  rfl

def module (checks : Bool) : Module σ where
  process := fun _ p w => process checks p w

end EthSender

namespace EthReceiver
variable {σ : Type}

def process (checks : Bool) (p : PacketId) (w : World σ) : Exec (Result Unit × World σ) := do
  let pkt := w.pkts p
  let offset ← add16 checks pkt.offset EthHeader.size
  return (.ok (), w.setPkt p {pkt with l2Header := ⟨EthHeader.size, pkt.offset⟩, offset})

theorem process_edits {checks : Bool} {p : PacketId} {w w' : World σ} {res : Result Unit}
    (h : process checks p w = .ok (res, w')) : res = .ok () ∧ World.Edited p w w' := by
  simp only [process, Exec.bind_eq_ok, Exec.pure_eq_ok, Prod.mk.injEq] at h
  obtain ⟨offset, _, rfl, rfl⟩ := h
  exact ⟨rfl, .setPkt rfl rfl rfl⟩

theorem process_eq (checks : Bool) {p : PacketId} {w : World σ}
    (h : (w.pkts p).offset.toNat + 14 < 2 ^ 16) :
    process checks p w = .ok (.ok (), w.setPkt p {w.pkts p with
      l2Header := ⟨EthHeader.size, (w.pkts p).offset⟩
      offset := (w.pkts p).offset + EthHeader.size}) := by
  have hadd : add16 checks (w.pkts p).offset EthHeader.size = .ok _ := add16_ok checks h
  simp only [process, hadd]
  rfl

theorem process_overflow {p : PacketId} {w : World σ}
    (h : 2 ^ 16 ≤ (w.pkts p).offset.toNat + 14) : process true p w = .error .overflow := by
  have hadd : add16 true (w.pkts p).offset EthHeader.size = .error .overflow := add16_overflow h
  simp only [process, hadd]
  rfl

def module (checks : Bool) : Module σ where
  process := fun _ p w => process checks p w

end EthReceiver
end OmniStack
