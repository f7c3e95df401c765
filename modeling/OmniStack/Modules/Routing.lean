import Mathlib.Data.List.MinMax
import OmniStack.Modules.Ipv4

/-! Which route the sender takes.

The loop over the table keeps the first of the longest matching prefixes seen. A prefix
of length zero is never longer than the zero it starts from. -/
namespace OmniStack
open Lib

namespace Ipv4Sender

/-- The routes the loop can take. -/
def eligible (ip : UInt32) (routes : List Route) : List Route :=
  routes.filter fun route => route.matchesIp ip && decide (0 < route.cidr)

/-- The first of the eligible routes of greatest prefix length. -/
def bestRoute (ip : UInt32) (routes : List Route) : Option Route :=
  (eligible ip routes).argmax fun route => route.cidr.toNat

/-- The loop from the best route so far. -/
theorem select_eq_foldl (ip : UInt32) (routes : List Route) (max : UInt8) (best : Option Route)
    (hbest : max = (best.map Route.cidr).getD 0) :
    select ip routes max (best.map Route.nic) =
      ((eligible ip routes).foldl
        (List.argAux fun b c : Route => c.cidr.toNat < b.cidr.toNat) best).map Route.nic := by
  induction routes generalizing max best with
  | nil => rfl
  | cons route rest ih =>
    by_cases htaken : route.matchesIp ip = true ∧ max < route.cidr
    · have hpos : (0 : UInt8) < route.cidr := by
        have := UInt8.lt_iff_toNat_lt.mp htaken.2
        rw [UInt8.lt_iff_toNat_lt]
        exact Nat.lt_of_le_of_lt (Nat.zero_le _) this
      have hstep : List.argAux (fun b c : Route => c.cidr.toNat < b.cidr.toNat) best route =
          some route := by
        cases best with
        | none => rfl
        | some b =>
          subst hbest
          exact if_pos (UInt8.lt_iff_toNat_lt.mp htaken.2)
      rw [select, if_pos (by simp [htaken]), eligible, List.filter_cons,
        if_pos (by simp [htaken, hpos]), List.foldl_cons, hstep]
      exact ih route.cidr (some route) rfl
    · rw [select, if_neg (by simpa using htaken), ih max best hbest, eligible, eligible,
        List.filter_cons]
      split
      · rename_i heligible
        simp only [Bool.and_eq_true, decide_eq_true_eq] at heligible
        have hle : ¬ max < route.cidr := fun h => htaken ⟨heligible.1, h⟩
        cases best with
        | none =>
          subst hbest
          exact absurd heligible.2 hle
        | some b =>
          subst hbest
          have hkept : List.argAux (fun b c : Route => c.cidr.toNat < b.cidr.toNat) (some b) route =
              some b := if_neg (mt UInt8.lt_iff_toNat_lt.mpr hle)
          rw [List.foldl_cons, hkept]
      · rfl

/-- **The longest prefix wins**, the first of several, and prefixes of length zero never do. -/
theorem select_eq (ip : UInt32) (routes : List Route) :
    select ip routes 0 none = (bestRoute ip routes).map Route.nic :=
  select_eq_foldl ip routes 0 none rfl

theorem nic_eq (self : Ipv4Sender) :
    self.nic = ((bestRoute dst self.routeTable.items).map Route.nic).getD 0 := by
  rw [nic, select_eq]

/-! ### The route that should be taken -/

/-- The first of the longest matching prefixes. -/
def FirstLongest (ip : UInt32) (routes : List Route) (r : Route) : Prop :=
  ∃ before after, routes = before ++ r :: after ∧ r.matchesIp ip = true ∧
    (∀ b ∈ before, b.matchesIp ip = true → b.cidr < r.cidr) ∧
    ∀ a ∈ after, a.matchesIp ip = true → a.cidr ≤ r.cidr

/-- The loop from a running maximum: nothing longer matches and what was best stays, or the
first of the longest is taken. -/
theorem select_first_longest (ip : UInt32) (routes : List Route) (max : UInt8)
    (best : Option UInt16) :
    (select ip routes max best = best ∧ ∀ r ∈ routes, r.matchesIp ip = true → r.cidr ≤ max) ∨
      ∃ r, FirstLongest ip routes r ∧ max < r.cidr ∧ select ip routes max best = some r.nic := by
  induction routes generalizing max best with
  | nil => exact .inl ⟨rfl, fun r hr => absurd hr List.not_mem_nil⟩
  | cons x rest ih =>
    by_cases htaken : x.matchesIp ip = true ∧ max < x.cidr
    · have hstep : select ip (x :: rest) max best = select ip rest x.cidr (some x.nic) := by
        rw [select, if_pos (by simp [htaken])]
      rw [hstep]
      refine .inr ?_
      rcases ih x.cidr (some x.nic) with ⟨hkept, hrest⟩ | ⟨r, hr, hlonger, hsel⟩
      · exact ⟨x, ⟨[], rest, rfl, htaken.1, fun b hb => absurd hb List.not_mem_nil, hrest⟩,
          htaken.2, hkept⟩
      · obtain ⟨before, after, rfl, hmatch, hbefore, hafter⟩ := hr
        refine ⟨r, ⟨x :: before, after, rfl, hmatch, ?_, hafter⟩, ?_, hsel⟩
        · intro b hb
          rcases List.mem_cons.mp hb with rfl | hb
          · exact fun _ => hlonger
          · exact hbefore b hb
        · exact UInt8.lt_trans htaken.2 hlonger
    · have hstep : select ip (x :: rest) max best = select ip rest max best := by
        rw [select, if_neg (by simpa using htaken)]
      have hx : x.matchesIp ip = true → x.cidr ≤ max := fun hm =>
        UInt8.not_lt.mp fun hlt => htaken ⟨hm, hlt⟩
      rw [hstep]
      rcases ih max best with ⟨hkept, hrest⟩ | ⟨r, hr, hlonger, hsel⟩
      · refine .inl ⟨hkept, fun r hr => ?_⟩
        rcases List.mem_cons.mp hr with rfl | hr
        · exact hx
        · exact hrest r hr
      · obtain ⟨before, after, rfl, hmatch, hbefore, hafter⟩ := hr
        refine .inr ⟨r, ⟨x :: before, after, rfl, hmatch, ?_, hafter⟩, hlonger, hsel⟩
        intro b hb
        rcases List.mem_cons.mp hb with rfl | hb
        · exact fun hm => UInt8.lt_of_le_of_lt (hx hm) hlonger
        · exact hbefore b hb

/-- The card a table should choose: the first longest match's, or card 0 if nothing matches. -/
def RoutedBy (ip : UInt32) (routes : List Route) (nic : UInt16) : Prop :=
  (∃ r, FirstLongest ip routes r ∧ nic = r.nic) ∨
    ((∀ r ∈ routes, r.matchesIp ip = false) ∧ nic = 0)

/-- A prefix longer than zero matches, or nothing does, or the first route that does names
card 0. -/
def NoDefaultNeeded (ip : UInt32) (routes : List Route) : Prop :=
  (∃ r ∈ routes, r.matchesIp ip = true ∧ 0 < r.cidr) ∨
    (∀ r ∈ routes, r.matchesIp ip = false) ∨
    ∃ r, routes.find? (fun r => r.matchesIp ip) = some r ∧ r.nic = 0

/-- Among prefixes of length zero the longest is the first. -/
theorem firstLongest_default {ip : UInt32} {routes : List Route}
    (hdefault : ∀ r ∈ routes, r.matchesIp ip = true → r.cidr ≤ 0) (r : Route) :
    FirstLongest ip routes r ↔ routes.find? (fun r => r.matchesIp ip) = some r := by
  rw [List.find?_eq_some_iff_append]
  constructor
  · intro h
    obtain ⟨before, after, rfl, hmatch, hbefore, _⟩ := h
    refine ⟨hmatch, before, after, rfl, fun b hb => ?_⟩
    have hr : r.cidr ≤ 0 := hdefault r (by simp) hmatch
    have hnot : ¬ b.matchesIp ip = true := fun hm =>
      UInt8.not_lt.mpr (UInt8.le_trans hr UInt8.zero_le) (hbefore b hb hm)
    simpa using hnot
  · intro h
    obtain ⟨hmatch, before, after, rfl, hbefore⟩ := h
    refine ⟨before, after, rfl, hmatch, fun b hb hm => ?_, fun a ha hm => ?_⟩
    · have hnot := hbefore b hb
      rw [hm] at hnot
      cases hnot
    · exact UInt8.le_trans (hdefault a (by simp [ha]) hm) UInt8.zero_le

/-- **When the sender takes the right route**: unless what matches is only default routes and
the first of these names another card than 0. -/
theorem longest_prefix_iff {σ : Type} {self : Ipv4Sender} {checks : Bool} {p : PacketId}
    {w w' : World σ} {res : Result Unit} (h : self.process checks p w = .ok (res, w')) :
    RoutedBy dst self.routeTable.items (w'.pkts p).nic ↔
      NoDefaultNeeded dst self.routeTable.items := by
  rw [process_nic h, nic]
  rcases select_first_longest dst self.routeTable.items 0 none with
    ⟨hnone, hdefault⟩ | ⟨r, hr, hlonger, hsel⟩
  · rw [hnone, Option.getD_none]
    constructor
    · intro hrouted
      rcases hrouted with ⟨r, hr, hnic⟩ | ⟨hnothing, _⟩
      · exact .inr (.inr ⟨r, (firstLongest_default hdefault r).mp hr, hnic.symm⟩)
      · exact .inr (.inl hnothing)
    · intro hcond
      rcases hcond with ⟨r, hr, hmatch, hpos⟩ | hnothing | ⟨r, hfirst, hnic⟩
      · exact absurd hpos (UInt8.not_lt.mpr (hdefault r hr hmatch))
      · exact .inr ⟨hnothing, rfl⟩
      · exact .inl ⟨r, (firstLongest_default hdefault r).mpr hfirst, hnic.symm⟩
  · rw [hsel, Option.getD_some]
    have hmem : r ∈ self.routeTable.items ∧ r.matchesIp dst = true := by
      obtain ⟨before, after, heq, hmatch, _⟩ := hr
      rw [heq]
      exact ⟨by simp, hmatch⟩
    exact iff_of_true (.inl ⟨r, hr, rfl⟩) (.inl ⟨r, hmem.1, hmem.2, hlonger⟩)

/-! ### A default route -/

namespace Sample

/-- A packet with room for the header, in a buffer of zeros. -/
def world : World Unit where
  pkts := fun p => {
    len := 72
    l2Header := ⟨0, 0⟩
    l3Header := ⟨0, 0⟩
    l4Header := ⟨0, 0⟩
    offset := defaultOffset
    data := .own p
    next := none
    nic := 7
    threadId := 0
    refcnt := 1
    bufTy := .localBuf }
  mem := fun _ _ => 0
  mbufs := fun _ => ⟨(.room 0, 0), 0, 0, 0, 0, none, 0, 0, 0, 0⟩
  free := fun _ => 0
  held := fun _ => 0
  log := []
  rawFreed := []
  wire := []
  env := ()

/-- `0.0.0.0/0` on card 1. -/
def defaultRoute : Route := ⟨0, 0, 1, 0⟩

def sender : Ipv4Sender := ⟨⟨[defaultRoute], by decide⟩⟩

end Sample

theorem longest_prefix_iff_sample :
    ∃ w', Sample.sender.process true 0 Sample.world = .ok (.ok (), w') ∧
      (RoutedBy dst Sample.sender.routeTable.items (w'.pkts 0).nic ↔
        NoDefaultNeeded dst Sample.sender.routeTable.items) :=
  have hroom := process_eq Sample.sender true (p := 0) (w := Sample.world) (by decide) (by decide)
  ⟨_, hroom, longest_prefix_iff hroom⟩

/-- **A default route for card 1** is the only one and matches, and the packet goes to card
0. -/
theorem default_route_unused :
    Route.new true ⟨#v[0, 0, 0, 0]⟩ 0 1 = .ok Sample.defaultRoute ∧
      ∃ w', Sample.sender.process true 0 Sample.world = .ok (.ok (), w') ∧
        Sample.defaultRoute.matchesIp dst = true ∧
        ¬ RoutedBy dst Sample.sender.routeTable.items (w'.pkts 0).nic := by
  have hroom := process_eq Sample.sender true (p := 0) (w := Sample.world) (by decide) (by decide)
  refine ⟨rfl, _, hroom, by decide, fun h => ?_⟩
  rw [process_nic hroom] at h
  rcases h with ⟨r, ⟨before, after, heq, -⟩, hnic⟩ | ⟨hnothing, -⟩
  · have hr : r ∈ [Sample.defaultRoute] := by
      have hmem : r ∈ Sample.sender.routeTable.items := by
        rw [heq]
        simp
      exact hmem
    rw [List.mem_singleton.mp hr] at hnic
    revert hnic
    decide
  · have hmatch := hnothing Sample.defaultRoute (List.mem_singleton.mpr rfl)
    revert hmatch
    decide

/-! ### The order of the table -/

/-- The card of a longest match, wherever in the table it is; card 0 if nothing longer than
zero matches. -/
def LongestNic (ip : UInt32) (routes : List Route) (nic : UInt16) : Prop :=
  (∃ r ∈ routes, r.matchesIp ip = true ∧ 0 < r.cidr ∧
    (∀ s ∈ routes, s.matchesIp ip = true → s.cidr ≤ r.cidr) ∧ nic = r.nic) ∨
  ((∀ r ∈ routes, r.matchesIp ip = true → r.cidr ≤ 0) ∧ nic = 0)

/-- Matching routes of one length name one card. -/
def NicsAgree (ip : UInt32) (routes : List Route) : Prop :=
  ∀ r ∈ routes, ∀ s ∈ routes, r.matchesIp ip = true → s.matchesIp ip = true →
    r.cidr = s.cidr → r.nic = s.nic

theorem FirstLongest.longest {ip : UInt32} {routes : List Route} {r : Route}
    (h : FirstLongest ip routes r) :
    r ∈ routes ∧ r.matchesIp ip = true ∧
      ∀ s ∈ routes, s.matchesIp ip = true → s.cidr ≤ r.cidr := by
  obtain ⟨before, after, rfl, hmatch, hbefore, hafter⟩ := h
  refine ⟨by simp, hmatch, fun s hs hm => ?_⟩
  rcases List.mem_append.mp hs with hs | hs
  · exact UInt8.le_of_lt (hbefore s hs hm)
  · rcases List.mem_cons.mp hs with rfl | hs
    · exact UInt8.le_refl _
    · exact hafter s hs hm

theorem nic_longest (self : Ipv4Sender) : LongestNic dst self.routeTable.items self.nic := by
  rw [nic]
  rcases select_first_longest dst self.routeTable.items 0 none with
    ⟨hnone, hdefault⟩ | ⟨r, hr, hlonger, hsel⟩
  · rw [hnone]
    exact .inr ⟨hdefault, rfl⟩
  · obtain ⟨hmem, hmatch, hlongest⟩ := hr.longest
    rw [hsel]
    exact .inl ⟨r, hmem, hmatch, hlonger, hlongest, rfl⟩

theorem LongestNic.perm {ip : UInt32} {routes routes' : List Route} {nic : UInt16}
    (h : LongestNic ip routes nic) (hperm : routes.Perm routes') : LongestNic ip routes' nic := by
  rcases h with ⟨r, hmem, hmatch, hpos, hlongest, hnic⟩ | ⟨hdefault, hnic⟩
  · exact .inl ⟨r, hperm.mem_iff.mp hmem, hmatch, hpos,
      fun s hs => hlongest s (hperm.mem_iff.mpr hs), hnic⟩
  · exact .inr ⟨fun r hr => hdefault r (hperm.mem_iff.mpr hr), hnic⟩

/-- Where matching routes of one length agree there is one such card. -/
theorem LongestNic.unique {ip : UInt32} {routes : List Route} {nic nic' : UInt16}
    (hagree : NicsAgree ip routes) (h : LongestNic ip routes nic)
    (h' : LongestNic ip routes nic') : nic = nic' := by
  rcases h with ⟨r, hr, hmatch, hpos, hlongest, rfl⟩ | ⟨hdefault, rfl⟩
  · rcases h' with ⟨r', hr', hmatch', _, hlongest', rfl⟩ | ⟨hdefault', _⟩
    · have hcidr : r.cidr = r'.cidr :=
        UInt8.le_antisymm (hlongest' r hr hmatch) (hlongest r' hr' hmatch')
      exact hagree r hr r' hr' hmatch hmatch' hcidr
    · exact absurd hpos (UInt8.not_lt.mpr (hdefault' r hr hmatch))
  · rcases h' with ⟨r', hr', hmatch', hpos', _⟩ | ⟨_, rfl⟩
    · exact absurd hpos' (UInt8.not_lt.mpr (hdefault r' hr' hmatch'))
    · rfl

/-- The table is used for the card only. -/
theorem process_congr {σ : Type} {self self' : Ipv4Sender} (h : self'.nic = self.nic)
    (checks : Bool) (p : PacketId) (w : World σ) :
    self'.process checks p w = self.process checks p w := by
  unfold process
  rw [h]

/-- **The order of the routes does not matter** where matching routes of one length name one
card. -/
theorem process_reordered {σ : Type} {self self' : Ipv4Sender} {checks : Bool} {p : PacketId}
    {w w₁ : World σ} {res : Result Unit} (hagree : NicsAgree dst self.routeTable.items)
    (hperm : self.routeTable.items.Perm self'.routeTable.items)
    (h : self.process checks p w = .ok (res, w₁)) :
    ∃ w₂, self'.process checks p w = .ok (res, w₂) ∧ (w₂.pkts p).nic = (w₁.pkts p).nic := by
  have hnic : self'.nic = self.nic :=
    (self'.nic_longest.perm hperm.symm).unique hagree self.nic_longest
  exact ⟨w₁, (process_congr hnic checks p w).trans h, rfl⟩

namespace Sample

/-- `192.168.10.0/24` on card 1. -/
def lanRoute : Route := ⟨0x000aa8c0, 0x00ffffff, 1, 24⟩

/-- `192.168.0.0/16` on card 2. -/
def siteRoute : Route := ⟨0x0000a8c0, 0x0000ffff, 2, 16⟩

def lanFirst : Ipv4Sender := ⟨⟨[lanRoute, siteRoute], by decide⟩⟩

def siteFirst : Ipv4Sender := ⟨⟨[siteRoute, lanRoute], by decide⟩⟩

end Sample

theorem process_reordered_sample :
    ∃ w₁ w₂, Sample.lanFirst.process true 0 Sample.world = .ok (.ok (), w₁) ∧
      Sample.siteFirst.process true 0 Sample.world = .ok (.ok (), w₂) ∧
      (w₂.pkts 0).nic = (w₁.pkts 0).nic ∧ (w₁.pkts 0).nic = 1 := by
  have hroom := process_eq Sample.lanFirst true (p := 0) (w := Sample.world) (by decide) (by decide)
  have hagree : NicsAgree dst Sample.lanFirst.routeTable.items := by
    show ∀ r ∈ [Sample.lanRoute, Sample.siteRoute], ∀ s ∈ [Sample.lanRoute, Sample.siteRoute],
      r.matchesIp dst = true → s.matchesIp dst = true → r.cidr = s.cidr → r.nic = s.nic
    decide
  have hperm : Sample.lanFirst.routeTable.items.Perm Sample.siteFirst.routeTable.items :=
    .swap Sample.siteRoute Sample.lanRoute []
  obtain ⟨w₂, hw₂, hsame⟩ := process_reordered hagree hperm hroom
  refine ⟨_, w₂, hroom, hw₂, hsame, ?_⟩
  rw [process_nic hroom]
  decide

end Ipv4Sender
end OmniStack
