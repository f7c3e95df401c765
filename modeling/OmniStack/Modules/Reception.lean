import OmniStack.Engine.Turns
import OmniStack.Lib.Run
import OmniStack.Modules.Dpdk

/-! What becomes of a received burst.

`recv` gives each mbuf of the burst to a packet of its own, and keeps the mbufs' pointers
only until the next burst is written over them. A packet it returns holds an mbuf of that
call's burst (`recv_delivers`), so what a call that fails leaves behind no later call
delivers, and it gives nothing back either (`recv_error_loses`). -/
namespace OmniStack
open Lib
namespace Dpdk
variable {σ : Type} {sys : Sys σ} {checks : Bool}

/-- The mbufs the card gives to a call of `recv`. -/
def burst (sys : Sys σ) (self : Dpdk) (w : World σ) : List MbufPtr :=
  (sys.ethRxBurst self.port self.queue burstSize w).1.map RxMbuf.ptr

/-- The received mbufs the packets hold. -/
def mbufsOf (w : World σ) (ps : List PacketId) : List MbufPtr :=
  ps.flatMap fun p => (w.pkts p).bufTy.mbufs

/-- A call on the adapter; a `recv` with the burst it was given and the mbufs it delivered. -/
inductive RxCall where
  | send
  | flush
  | recv (burst delivered : List MbufPtr)

/-- A call that returns, in whatever world the rest of the stack has left. -/
inductive RxStep (sys : Sys σ) (checks : Bool) : Dpdk → RxCall → Dpdk → Prop where
  | send {self self' : Dpdk} {ctx : Context} {p : PacketId} {w w' : World σ} {res : Result Unit} :
      send sys checks self ctx p w = .ok (res, self', w') → RxStep sys checks self .send self'
  | flush {self self' : Dpdk} {w w' : World σ} {res : Result Unit} :
      flush sys checks self w = .ok (res, self', w') → RxStep sys checks self .flush self'
  | received {self self' : Dpdk} {w w' : World σ} {head : PacketId} {ps : List PacketId} :
      recv sys checks self w = .ok (.ok head, self', w') →
      Worker.ChainOf w'.pkts (some head) ps →
      RxStep sys checks self (.recv (burst sys self w) (mbufsOf w' ps)) self'
  | failed {self self' : Dpdk} {w w' : World σ} {e : Error} :
      recv sys checks self w = .ok (.error e, self', w') →
      RxStep sys checks self (.recv (burst sys self w) []) self'

/-- Some later calls deliver the mbuf, without the card giving it again. -/
def DeliveredLater (sys : Sys σ) (checks : Bool) (self : Dpdk) (m : MbufPtr) : Prop :=
  ∃ calls self', Run (RxStep sys checks) self calls self' ∧
    (∃ burst delivered, .recv burst delivered ∈ calls ∧ m ∈ delivered) ∧
    ∀ burst delivered, .recv burst delivered ∈ calls → m ∉ burst

/-- Nothing of a call of `recv` is lost: the packets it allocated are back in the pool, and
an mbuf of its burst has been freed, or the adapter has it and delivers it later. -/
structure NothingLost (sys : Sys σ) (checks : Bool) (burst : List MbufPtr) (adapter : Dpdk)
    (w w' : World σ) : Prop where
  packets : ∀ p, (w'.log.drop w.log.length).count (.allocated p) =
    (w'.log.drop w.log.length).count (.returned p)
  mbufs : ∀ m ∈ burst, m ∈ w'.rawFreed.drop w.rawFreed.length ∨
    m ∈ adapter.rxBufs.toList ∧ DeliveredLater sys checks adapter m

/-! ### Deliveries -/

/-- The packets of the call hold mbufs of its burst and are chained among themselves. -/
structure Own (burst : List MbufPtr) (pkts : PacketId → Packet) (own : List PacketId)
    (ret : Option PacketId) : Prop where
  head : ∀ p ∈ ret, p ∈ own
  next : ∀ p ∈ own, ∀ q ∈ (pkts p).next, q ∈ own
  mbuf : ∀ p ∈ own, ∀ m ∈ (pkts p).bufTy.mbufs, m ∈ burst

/-- One packet more, in front of the chain. -/
theorem Own.push {burst : List MbufPtr} {w : World σ} {own : List PacketId}
    {ret : Option PacketId} (h : Own burst w.pkts own ret) {m : MbufPtr} (hm : m ∈ burst)
    (p : PacketId) {pkt : Packet} (hnext : pkt.next = ret) (hty : pkt.bufTy = .mbuf m) :
    Own burst (w.setPkt p pkt).pkts (p :: own) (some p) where
  head q hq := by
    rw [← Option.mem_some_iff.mp hq]
    exact List.mem_cons_self
  next q hq r hr := by
    by_cases heq : q = p
    · subst heq
      rw [World.setPkt_pkts_same, hnext] at hr
      exact List.mem_cons_of_mem _ (h.head r hr)
    · rw [World.setPkt_pkts_ne _ _ heq] at hr
      exact List.mem_cons_of_mem _ (h.next q (List.mem_of_ne_of_mem heq hq) r hr)
  mbuf q hq m' hm' := by
    by_cases heq : q = p
    · subst heq
      rw [World.setPkt_pkts_same, hty] at hm'
      rwa [List.mem_singleton.mp hm']
    · rw [World.setPkt_pkts_ne _ _ heq] at hm'
      exact h.mbuf q (List.mem_of_ne_of_mem heq hq) m' hm'

/-- A chain of the call's packets holds mbufs of its burst. -/
theorem Own.chain {burst : List MbufPtr} {w : World σ} {own ps : List PacketId}
    {ret : Option PacketId} (h : Own burst w.pkts own ret) (hchain : Worker.ChainOf w.pkts ret ps) :
    ∀ m ∈ mbufsOf w ps, m ∈ burst := by
  induction hchain with
  | nil => simp [mbufsOf]
  | @cons p ps _ ih =>
    have hp := h.head p rfl
    intro m hm
    rw [mbufsOf, List.flatMap_cons, List.mem_append] at hm
    rcases hm with hm | hm
    · exact h.mbuf p hp m hm
    · exact ih ⟨h.next p hp, h.next, h.mbuf⟩ m hm

theorem recvLoop_own {self : Dpdk} {burst ms : List MbufPtr} {own : List PacketId}
    {ret head : Option PacketId} {w w' : World σ} (hms : ∀ m ∈ ms, m ∈ burst)
    (hown : Own burst w.pkts own ret)
    (h : recvLoop sys checks self ms ret w = .ok (.ok head, w')) :
    ∃ own', Own burst w'.pkts own' head := by
  induction ms generalizing ret own w with
  | nil =>
    simp only [recvLoop, Except.ok.injEq, Prod.mk.injEq] at h
    obtain ⟨rfl, rfl⟩ := h
    exact ⟨own, hown⟩
  | cons m rest ih =>
    simp only [recvLoop] at h
    obtain ⟨⟨res, w₁⟩, halloc, h⟩ := Exec.bind_eq_ok.mp h
    cases res with
    | error e => cases h
    | ok p =>
      obtain ⟨pkt, hlen, h⟩ := Exec.bind_eq_ok.mp h
      rw [← (PacketPool.allocate_cases halloc).1] at hown
      exact ih (fun m' hm' => hms m' (List.mem_cons_of_mem _ hm'))
        (hown.push (hms m List.mem_cons_self) p rfl rfl) h

/-- What `recv` delivers was in the burst of the call. -/
theorem recv_delivers {self self' : Dpdk} {head : PacketId} {ps : List PacketId} {w w' : World σ}
    (h : recv sys checks self w = .ok (.ok head, self', w'))
    (hchain : Worker.ChainOf w'.pkts (some head) ps) :
    ∀ m ∈ mbufsOf w' ps, m ∈ burst sys self w := by
  simp only [recv] at h
  split at h
  · cases h
  · split at h
    · cases h
    · obtain ⟨⟨res, w₁⟩, hloop, h⟩ := Exec.bind_eq_ok.mp h
      cases res with
      | error e => cases h
      | ok ret =>
        cases ret with
        | none => cases h
        | some p =>
          simp only [Exec.pure_eq_ok, Prod.mk.injEq, Except.ok.injEq] at h
          obtain ⟨rfl, _, rfl⟩ := h
          have hnone (pkts : PacketId → Packet) : Own (burst sys self w) pkts [] none :=
            ⟨by simp, by simp, by simp⟩
          have hreceived : ∀ m ∈ (burst sys self w).reverse, m ∈ burst sys self w :=
            fun m hm => List.mem_reverse.mp hm
          obtain ⟨own, hown⟩ := recvLoop_own hreceived (hnone _) hloop
          exact hown.chain hchain

/-- A delivery is of an mbuf the card has given to a call since. -/
theorem not_deliveredLater (self : Dpdk) (m : MbufPtr) : ¬ DeliveredLater sys checks self m := by
  intro hlater
  obtain ⟨calls, self', hrun, ⟨burst, delivered, hcall, hm⟩, hgone⟩ := hlater
  have hlabels := hrun.labels (C := fun call => ∀ burst delivered, call = .recv burst delivered →
    ∀ m ∈ delivered, m ∈ burst) fun s call t hstep burst delivered heq => by
      cases hstep with
      | send => cases heq
      | flush => cases heq
      | received hrecv hchain =>
        cases heq
        exact recv_delivers hrecv hchain
      | failed =>
        cases heq
        simp
  exact hgone burst delivered hcall (hlabels _ hcall burst delivered rfl m hm)

/-! ### Failures -/

/-- The packets allocated before a failure stay allocated, and no mbuf is freed. -/
theorem recvLoop_error {self : Dpdk} {ms : List MbufPtr} {ret : Option PacketId} {e : Error}
    {w w' : World σ} (h : recvLoop sys checks self ms ret w = .ok (.error e, w')) :
    w'.rawFreed = w.rawFreed ∧ ∃ ps : List PacketId, w'.log = w.log ++ ps.map .allocated := by
  induction ms generalizing ret w with
  | nil => cases h
  | cons m rest ih =>
    simp only [recvLoop] at h
    obtain ⟨⟨res, w₁⟩, halloc, h⟩ := Exec.bind_eq_ok.mp h
    obtain ⟨_, hfreed, _, hlog⟩ := PacketPool.allocate_cases halloc
    rcases hlog with ⟨rfl, hlog⟩ | ⟨p, ps, rfl, hlog⟩
    · simp only [Exec.pure_eq_ok, Prod.mk.injEq] at h
      obtain ⟨_, rfl⟩ := h
      exact ⟨hfreed, [], by rw [hlog, List.map_nil, List.append_nil]⟩
    · obtain ⟨pkt, _, h⟩ := Exec.bind_eq_ok.mp h
      obtain ⟨hfreed', qs, hlog'⟩ := ih h
      refine ⟨hfreed'.trans hfreed, (p :: ps) ++ qs, ?_⟩
      rw [hlog', List.map_append, ← List.append_assoc, ← hlog]
      rfl

theorem putRx_spec (w : World σ) (rx : List RxMbuf) :
    (putRx w rx).rawFreed = w.rawFreed ∧ (putRx w rx).log = w.log := by
  induction rx generalizing w with
  | nil => exact ⟨rfl, rfl⟩
  | cons m rest ih => exact ih _

/-- A `recv` that fails for want of a packet has been given mbufs; it gives back neither them
nor the packets it has allocated. -/
theorem recv_error {self self' : Dpdk} {w w' : World σ}
    (h : recv sys checks self w = .ok (.error .memoryError, self', w')) :
    burst sys self w ≠ [] ∧ w'.rawFreed = w.rawFreed ∧
      ∃ ps : List PacketId, w'.log = w.log ++ ps.map .allocated := by
  simp only [recv] at h
  split at h
  · cases h
  · rename_i hrx
    split at h
    · cases h
    · obtain ⟨⟨res, w₁⟩, hloop, h⟩ := Exec.bind_eq_ok.mp h
      cases res with
      | error e =>
        simp only [Exec.pure_eq_ok, Prod.mk.injEq] at h
        obtain ⟨_, _, rfl⟩ := h
        obtain ⟨hfreed, ps, hlog⟩ := recvLoop_error hloop
        obtain ⟨hfreed', hlog'⟩ := putRx_spec _ _
        exact ⟨fun hnil => hrx (List.map_eq_nil_iff.mp hnil), hfreed.trans hfreed',
          ps, hlog.trans (by rw [hlog'])⟩
      | ok ret =>
        cases ret with
        | none => cases h
        | some p => cases h

/-- Where `recv` fails for want of a packet, the packets it has allocated and the mbufs of the
burst are lost, wherever in the burst it fails. -/
theorem recv_error_loses {self self' : Dpdk} {w w' : World σ}
    (h : recv sys checks self w = .ok (.error .memoryError, self', w')) :
    burst sys self w ≠ [] ∧ w'.rawFreed = w.rawFreed ∧
      (∀ m ∈ burst sys self w, ¬ DeliveredLater sys checks self' m) ∧
      (∃ ps : List PacketId, w'.log = w.log ++ ps.map .allocated) ∧
      ¬ NothingLost sys checks (burst sys self w) self' w w' := by
  obtain ⟨hburst, hfreed, hlog⟩ := recv_error h
  refine ⟨hburst, hfreed, fun m _ => not_deliveredLater self' m, hlog, fun hkept => ?_⟩
  obtain ⟨m, hm⟩ := List.exists_mem_of_ne_nil _ hburst
  rcases hkept.mbufs m hm with hm | ⟨_, hlater⟩
  · rw [hfreed, List.drop_length] at hm
    cases hm
  · exact not_deliveredLater self' m hlater

namespace Sample

def received (m : MbufPtr) : RxMbuf where
  ptr := m
  mbuf := ⟨(.room m, 0), 0, 0, 128, 0, none, 60, 60, 0, 0⟩
  room := fun _ => 0

/-- A card that gives mbufs 7 and 8, and a packet pool of so many objects. -/
def scarce (objects : Nat) : Sys Unit where
  __ := Sys.quiet
  mempoolGet := fun n w =>
    (if w.log.length + n ≤ objects then some (List.range' w.log.length n) else none, ())
  ethRxBurst := fun _ _ _ _ => ([received 7, received 8], ())

def idle : World Unit where
  pkts := fun p => ⟨0, ⟨0, 0⟩, ⟨0, 0⟩, ⟨0, 0⟩, 0, .own p, none, 0, 0, 1, .localBuf⟩
  mem := fun _ _ => 0
  mbufs := fun m => ⟨(.room m, 0), 0, 0, 0, 0, none, 0, 0, 0, 0⟩
  free := fun _ => 1
  held := fun _ => 0
  log := []
  rawFreed := []
  wire := []
  env := ()

/-- What a `recv` returns, and what has happened to the pools. -/
def receive (objects : Nat) : Exec (Result PacketId × List PoolEvent × List MbufPtr) := do
  let (res, _, w) ← recv (scarce objects) true new idle
  return (res, w.log, w.rawFreed)

end Sample

/-- No packet for the first mbuf: both are lost. -/
theorem recv_error_loses_sample :
    ∃ self' w', recv (Sample.scarce 0) true new Sample.idle =
        .ok (.error .memoryError, self', w') ∧ w'.log = [] ∧
      ¬ NothingLost (Sample.scarce 0) true [7, 8] self' Sample.idle w' := by
  have hrun : Sample.receive 0 = .ok (.error .memoryError, [], []) := by decide +kernel
  obtain ⟨⟨res, self', w'⟩, hrecv, hrun⟩ := Exec.bind_eq_ok.mp hrun
  simp only [Exec.pure_eq_ok, Prod.mk.injEq] at hrun
  obtain ⟨rfl, hlog, _⟩ := hrun
  exact ⟨self', w', hrecv, hlog, (recv_error_loses hrecv).2.2.2.2⟩

/-- One packet for two mbufs: it is allocated, and neither it nor an mbuf is given back. -/
theorem recv_loses_packet :
    ∃ self' w', recv (Sample.scarce 1) true new Sample.idle =
        .ok (.error .memoryError, self', w') ∧
      burst (Sample.scarce 1) new Sample.idle = [7, 8] ∧
      w'.log = [.allocated 0] ∧ w'.rawFreed = [] ∧
      ¬ NothingLost (Sample.scarce 1) true [7, 8] self' Sample.idle w' := by
  have hrun : Sample.receive 1 = .ok (.error .memoryError, [.allocated 0], []) := by
    decide +kernel
  obtain ⟨⟨res, self', w'⟩, hrecv, hrun⟩ := Exec.bind_eq_ok.mp hrun
  simp only [Exec.pure_eq_ok, Prod.mk.injEq] at hrun
  obtain ⟨rfl, hlog, hfreed⟩ := hrun
  refine ⟨self', w', hrecv, rfl, hlog, hfreed, fun hkept => ?_⟩
  have hback := hkept.packets 0
  rw [hlog] at hback
  cases hback

end Dpdk
end OmniStack
