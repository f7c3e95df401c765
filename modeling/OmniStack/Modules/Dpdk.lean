import OmniStack.Nio
import OmniStack.Sys

/-! The network adapter.

`txBufs` below `txIdx` are the mbufs waiting to be transmitted, the rest of the array
are mbufs allocated for the packets to come. A transmitted packet is referred to by its
mbuf until the free callback runs. -/
namespace OmniStack
open Lib

structure Dpdk where
  txBufs : Vector MbufPtr 64
  rxBufs : Vector MbufPtr 64
  txIdx : Nat
  port : UInt16
  queue : UInt16
  nic : UInt16
  pktmbufPool : Nat

namespace Dpdk
variable {σ : Type}

def burstSize : Nat := 64

def mbufFExternal : UInt64 := 0x2000000000000000
def mbufFTxIpCksum : UInt64 := 0x0040000000000000
def mbufFTxIpv4 : UInt64 := 0x0080000000000000
def mbufFTxUdpCksum : UInt64 := 0x0030000000000000

def new : Dpdk where
  txBufs := Vector.replicate 64 0
  rxBufs := Vector.replicate 64 0
  txIdx := 0
  port := 0
  queue := 0
  nic := 0
  pktmbufPool := 0

/-- `ptrs` written over the array from its start. -/
def overwrite (bufs : Vector MbufPtr 64) (ptrs : List MbufPtr) : Vector MbufPtr 64 :=
  Vector.ofFn fun i => ptrs.getD i.val bufs[i]

/-- The mbufs `ms`, with their fields. -/
def putMbufs (w : World σ) : List (MbufPtr × Mbuf) → World σ
  | [] => w
  | (m, mbuf) :: rest => putMbufs (w.setMbuf m mbuf) rest

/-- `rte_pktmbuf_alloc_bulk` into the first `n` entries of `tx_bufs`; false if it fails,
with the array as it was. -/
def allocBulk (sys : Sys σ) (self : Dpdk) (n : Nat) (w : World σ) : Bool × Dpdk × World σ :=
  match sys.pktmbufAllocBulk self.pktmbufPool n w with
  | (some ms, env) =>
    (true, {self with txBufs := overwrite self.txBufs (ms.map Prod.fst)},
      putMbufs {w with env} ms)
  | (none, env) => (false, self, {w with env})

def init (sys : Sys σ) (self : Dpdk) (nic port numQueues queue : UInt16) (w : World σ) :
    Exec (Result MacAddr × Dpdk × World σ) := do
  let env ← sys.portInit port numQueues w
  let w := {w with env}
  let self := {self with nic, port, queue, pktmbufPool := ← unwrap (sys.mempoolLookup port w)}
  match allocBulk sys self burstSize w with
  | (false, self, w) => return (.error .unknown, self, w)
  | (true, self, w) =>
    match sys.ethMacaddrGet port w with
    | none => return (.error .unknown, self, w)
    | some mac => return (.ok mac, self, w)

/-- `Packet::iova` -/
def iova (sys : Sys σ) (checks : Bool) (p : PacketId) (pkt : Packet) : Exec UInt64 := do
  if checks && decide (pkt.bufTy ≠ .localBuf) then throw .panic
  let data := sys.bufferAddr pkt.data + pkt.offset.toUInt64
  add64 checks (sys.objIova p) (← sub64 checks data (sys.objAddr p))

/-- The card is done with mbuf `m`: the callback of an external buffer is run. -/
def finish (checks : Bool) (m : MbufPtr) (w : World σ) : Exec (World σ) :=
  match (w.mbufs m).shinfo with
  | some info => packetFreeCallback checks info.fcbOpaque w
  | none => .ok w

def finishAll (checks : Bool) : List MbufPtr → World σ → Exec (World σ)
  | [], w => .ok w
  | m :: rest, w => do finishAll checks rest (← finish checks m w)

/-- The loop of `flush` that offers the card `txIdx` mbufs, `start` entries on. -/
def flushLoop (sys : Sys σ) (checks : Bool) : Nat → Nat → Dpdk → World σ →
    Exec (Dpdk × World σ)
  | 0, _, self, w => if self.txIdx = 0 then .ok (self, w) else .error .spin
  | fuel + 1, start, self, w =>
    if self.txIdx = 0 then .ok (self, w)
    else do
      let offered := (self.txBufs.toList.drop start).take self.txIdx
      let (nbTx, done, env) := sys.ethTxBurst self.port self.queue offered w
      let w ← finishAll checks done {w with
        env
        wire := w.wire ++ (offered.take nbTx).map fun m => (self.port, self.queue, m)}
      let txIdx ← subWord checks self.txIdx nbTx
      flushLoop sys checks fuel (start + nbTx) {self with txIdx} w

def flush (sys : Sys σ) (checks : Bool) (self : Dpdk) (w : World σ) :
    Exec (Result Unit × Dpdk × World σ) :=
  if self.txIdx = 0 then .ok (.ok (), self, w)
  else do
    let sent := self.txIdx
    let (self, w) ← flushLoop sys checks sys.patience 0 self w
    match allocBulk sys self sent w with
    | (true, self, w) => return (.ok (), self, w)
    | (false, self, w) => return (.error .memoryError, self, w)

/-- The checksum flags for the headers of `p`, with the pseudo header's sum written to
the UDP header. Other protocols are not implemented. -/
def offload (sys : Sys σ) (p : PacketId) (olFlags : UInt64) (w : World σ) :
    Exec (UInt64 × World σ) :=
  let pkt := w.pkts p
  let ethh := EthHeader.load (w.bytes p) pkt.l2Header.offset.toNat
  let ipv4h := Ipv4Header.load (w.bytes p) pkt.l3Header.offset.toNat
  if ethh.etherTy = EtherType.ipv4 ∧ ipv4h.protocol = Ipv4ProtoType.udp then
    let olFlags := olFlags ||| mbufFTxIpCksum ||| mbufFTxIpv4 ||| mbufFTxUdpCksum
    let udph := UdpHeader.load (w.bytes p) pkt.l4Header.offset.toNat
    let chksum := sys.ipv4PhdrCksum ipv4h olFlags
    .ok (olFlags, w.storeAt p pkt.l4Header.offset.toNat {udph with chksum}.toBytes)
  else .error .panic

def send (sys : Sys σ) (checks : Bool) (self : Dpdk) (ctx : Context) (p : PacketId)
    (w : World σ) : Exec (Result Unit × Dpdk × World σ) := do
  let m ← getUnchecked self.txBufs[self.txIdx]?
  let mbuf := w.mbufs m
  let w := w.setPkt p {w.pkts p with threadId := ctx.threadId}
  let w := w.setMem mbuf.bufAddr.1 ((w.mem mbuf.bufAddr.1).write
    (mbuf.bufAddr.2 + mbuf.dataOff.toNat) (sys.sharedInfo p))
  let pkt := w.pkts p
  let pktLen ← pkt.lenOf checks
  let mbuf := {mbuf with
    bufAddr := (pkt.data, pkt.offset.toNat)
    bufIova := ← iova sys checks p pkt
    bufLen := pktLen
    dataOff := 0
    olFlags := mbuf.olFlags ||| mbufFExternal
    shinfo := some ⟨p, 1⟩
    pktLen := pktLen.toUInt32
    dataLen := pktLen
    l2Len := pkt.l2Header.length &&& 0x7f
    l3Len := pkt.l3Header.length &&& 0x1ff}
  let (olFlags, w) ← offload sys p mbuf.olFlags w
  let w := {w.setMbuf m {mbuf with olFlags} with
    held := fun q => if q = p then w.held q + 1 else w.held q}
  let self := {self with txIdx := self.txIdx + 1}
  if self.txIdx = burstSize then
    match ← flush sys checks self w with
    | (.error e, self, w) => return (.error e, self, w)
    | (.ok (), self, w) => return (.ok (), self, w)
  else return (.ok (), self, w)

/-- `recv`'s loop, from the last mbuf of the burst to the first. -/
def recvLoop (sys : Sys σ) (checks : Bool) (self : Dpdk) : List MbufPtr → Option PacketId →
    World σ → Exec (Result (Option PacketId) × World σ)
  | [], ret, w => .ok (.ok ret, w)
  | m :: rest, ret, w => do
    match ← PacketPool.allocate sys w with
    | (.error e, w) => return (.error e, w)
    | (.ok p, w) =>
      let mbuf := w.mbufs m
      let pkt := {w.pkts p with nic := self.nic, offset := mbuf.dataOff}
      let pkt ← pkt.setLen checks mbuf.pktLen.toUInt16
      recvLoop sys checks self rest (some p)
        (w.setPkt p {pkt with data := mbuf.bufAddr.1, next := ret, bufTy := .mbuf m})

/-- The received mbufs and what is in them; a received mbuf's buffer is its data room. -/
def putRx (w : World σ) : List RxMbuf → World σ
  | [] => w
  | rx :: rest =>
    let mbuf := {rx.mbuf with bufAddr := (.room rx.ptr, 0)}
    putRx ((w.setMbuf rx.ptr mbuf).setMem (.room rx.ptr) rx.room) rest

def recv (sys : Sys σ) (checks : Bool) (self : Dpdk) (w : World σ) :
    Exec (Result PacketId × Dpdk × World σ) := do
  let (rx, env) := sys.ethRxBurst self.port self.queue burstSize w
  if rx = [] then return (.error .nop, self, {w with env})
  if burstSize < rx.length then throw .outOfBounds
  let self := {self with rxBufs := overwrite self.rxBufs (rx.map RxMbuf.ptr)}
  match ← recvLoop sys checks self (rx.map RxMbuf.ptr).reverse none (putRx {w with env} rx) with
  | (.error e, w) => return (.error e, self, w)
  | (.ok (some head), w) => return (.ok head, self, w)
  | (.ok none, _) => throw .outOfBounds

/-- `Dpdk` as an adapter. -/
def adapter (sys : Sys σ) (checks : Bool) : Adapter σ Dpdk where
  init := fun self _ => init sys self
  send := send sys checks
  recv := fun self _ => recv sys checks self
  flush := fun self _ => flush sys checks self

end Dpdk
end OmniStack
