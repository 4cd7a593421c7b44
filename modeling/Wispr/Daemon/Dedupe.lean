import Wispr.Foundation.WindowFilter
import Wispr.Daemon.RoundTrip

/-!
# The dedupe window law

The dedupe table holds one timestamp per flow, group and packet number. Seen through that table the
daemon is a keyed window filter: a slot's arrivals are forwarded greedily, the first one and then
each one more than `TIMEOUT` after the last forwarded one. Parity frames, ingress traffic and every
other frame have no slot. The law needs more than one path: with a single path the code forwards
everything.
-/

open Wispr.Foundation.ByteBuffer Wispr.Foundation.Run Wispr.Foundation.WindowFilter

namespace Wispr.Daemon.Dedupe

open Proto Net Codec Striping

/-- One cell of the timestamp matrices. -/
structure Slot (build : Build) where
  key : SessionKey
  group : Fin build.numberOfGroups
  packet : Fin (build.numberOfPaths + 1)
  deriving DecidableEq

variable {build : Build}

/-- The cell a striped or mirrored frame is checked against. -/
def arrivalSlot (build : Build) (buf : Buf) : Option (Slot build) :=
  if wisprMode (receivedTag buf) = 3 then none
  else if hgroup : groupId (receivedTag buf) < build.numberOfGroups then
    if hpacket : packetNumber (receivedTag buf) < build.numberOfPaths + 1 then
      some ⟨egressKey buf, ⟨_, hgroup⟩, ⟨_, hpacket⟩⟩
    else none
  else none

/-- The stored time of a cell, in microseconds. -/
def lastSeen (tables : Tables build) (slot : Slot build) : ℤ :=
  (storedTime tables slot.key slot.group slot.packet).micros

theorem arrivalSlot_eq_some {buf : Buf} {slot : Slot build}
    (h : arrivalSlot build buf = some slot) :
    wisprMode (receivedTag buf) ≠ 3 ∧ slot.key = egressKey buf ∧
      slot.group.val = groupId (receivedTag buf) ∧
      slot.packet.val = packetNumber (receivedTag buf) := by
  unfold arrivalSlot at h
  split at h
  · cases h
  · rename_i hmode
    split at h
    · split at h
      · cases h
        exact ⟨hmode, rfl, rfl, rfl⟩
      · cases h
    · cases h

/-- What a processed frame with a slot does: it is sent on and its own cell moves to the clock, or
it is dropped and no cell moves. -/
theorem processWispr0Vlan_slot {tables next : Tables build} {buf : Buf} {numbytes : ℤ}
    {now : Timeval} {sent : List Frame} {slot : Slot build} (hpaths : build.numberOfPaths ≠ 1)
    (h : processWispr0Vlan tables buf numbytes now = .ok (next, sent))
    (hslot : arrivalSlot build buf = some slot) :
    (lastSeen tables slot + timeout < now.micros ∧ sent ≠ [] ∧
        lastSeen next = Function.update (lastSeen tables) slot now.micros) ∨
      (¬ lastSeen tables slot + timeout < now.micros ∧ sent = [] ∧
        lastSeen next = lastSeen tables) := by
  obtain ⟨hmode, hkey, hgroup, hpacket⟩ := arrivalSlot_eq_some hslot
  obtain ⟨hgroup', hpacket', -, hcases⟩ := processWispr0Vlan_ok hmode h
  have hslotEq : slot = ⟨egressKey buf, ⟨_, hgroup'⟩, ⟨_, hpacket'⟩⟩ := by
    cases slot
    simp only [Slot.mk.injEq, Fin.ext_iff]
    exact ⟨hkey, hgroup, hpacket⟩
  have hfresh : (timeout <
        timeDiff (storedTime tables (egressKey buf) ⟨_, hgroup'⟩ ⟨_, hpacket'⟩) now ∨
      build.numberOfPaths = 1) ↔ lastSeen tables slot + timeout < now.micros := by
    rw [hslotEq, timeDiff_eq]
    simp only [lastSeen, hpaths, or_false]
    exact lt_sub_iff_add_lt'
  rcases hcases with ⟨hlate, hmoved, frame, -, rfl⟩ | ⟨hstale, hkept, rfl⟩
  · refine .inl ⟨hfresh.mp hlate, by simp, ?_⟩
    funext other
    by_cases hother : other = slot
    · subst hother
      rw [Function.update_self, lastSeen, hmoved, hslotEq]
      simp
    · rw [Function.update_of_ne hother, lastSeen, hmoved, if_neg, lastSeen]
      rintro ⟨hotherKey, hotherGroup, hotherPacket⟩
      apply hother
      cases other
      rw [hslotEq]
      simp only [Slot.mk.injEq]
      exact ⟨hotherKey, hotherGroup, hotherPacket⟩
  · refine .inr ⟨fun hlate ↦ hstale (hfresh.mpr hlate), rfl, ?_⟩
    funext other
    rw [lastSeen, hkept, lastSeen]

/-- A processed frame without a slot is a parity frame. -/
theorem processWispr0Vlan_noSlot {tables next : Tables build} {buf : Buf} {numbytes : ℤ}
    {now : Timeval} {sent : List Frame}
    (h : processWispr0Vlan tables buf numbytes now = .ok (next, sent))
    (hslot : arrivalSlot build buf = none) : next = tables ∧ sent = [] := by
  by_cases hmode : wisprMode (receivedTag buf) = 3
  · rw [processWispr0Vlan_parity tables numbytes now hmode] at h
    cases h
    exact ⟨rfl, rfl⟩
  · obtain ⟨hgroup, hpacket, -⟩ := processWispr0Vlan_ok hmode h
    simp [arrivalSlot, hmode, hgroup, hpacket] at hslot

/-- One call of `process_wispr0_vlan`: the buffer, its length and the clock. -/
structure Arrival where
  buf : Buf
  numbytes : ℤ
  now : Timeval

/-- `process_wispr0_vlan` as a window filter. -/
def vlanFilter (build : Build) (hpaths : build.numberOfPaths ≠ 1) :
    Filter (Tables build) Arrival (List Frame) Fault (Slot build) ℤ where
  step tables arrival := processWispr0Vlan tables arrival.buf arrival.numbytes arrival.now
  slot arrival := arrivalSlot build arrival.buf
  time arrival := arrival.now.micros
  forwarded sent := sent ≠ []
  window := timeout
  lastSeen := lastSeen
  forwarded_iff := by
    intro tables arrival next sent slot hstep hslot
    rcases processWispr0Vlan_slot hpaths hstep hslot with ⟨hlate, hsent, -⟩ | ⟨hstale, hsent, -⟩
    · exact ⟨fun _ ↦ hlate, fun _ ↦ hsent⟩
    · exact ⟨fun hout ↦ absurd hsent hout, fun hlate ↦ absurd hlate hstale⟩
  lastSeen_forwarded := by
    intro tables arrival next sent slot hstep hslot hout
    rcases processWispr0Vlan_slot hpaths hstep hslot with ⟨-, -, hmoved⟩ | ⟨-, hsent, -⟩
    · exact hmoved
    · exact absurd hsent hout
  lastSeen_kept := by
    intro tables arrival next sent hstep hdropped
    cases hslot : arrivalSlot build arrival.buf with
    | none => rw [(processWispr0Vlan_noSlot hstep hslot).1]
    | some slot =>
      rcases processWispr0Vlan_slot hpaths hstep hslot with ⟨-, hsent, -⟩ | ⟨-, -, hkept⟩
      · exact absurd hsent (hdropped slot hslot)
      · exact hkept

/-- The call of `process_wispr0_vlan` a received frame leads to, if any. -/
def vlanArrival (iface : Iface) (input : Input) : Option Arrival :=
  if isVlanArrival iface input.recv.buf then some ⟨input.recv.buf, input.recv.numbytes, input.now⟩
  else none

theorem vlanArrival_eq_some {iface : Iface} {input : Input} {arrival : Arrival}
    (h : vlanArrival iface input = some arrival) :
    isVlanArrival iface input.recv.buf = true ∧
      arrival = ⟨input.recv.buf, input.recv.numbytes, input.now⟩ := by
  unfold vlanArrival at h
  split at h
  · rename_i hvlan
    exact ⟨hvlan, (Option.some.inj h).symm⟩
  · cases h

theorem lastSeen_of_not_vlan {iface : Iface} {tables next : Tables build} {input : Input}
    {sent : List Frame} (hnone : vlanArrival iface input = none)
    (h : processNewpkt iface tables input = .ok (next, sent)) :
    lastSeen next = lastSeen tables := by
  rcases processNewpkt_cases h with ⟨-, hstep⟩ | ⟨hvlan, -⟩ | ⟨-, -, rfl⟩
  · obtain ⟨-, -, hmirror, -⟩ := processIngress0_ok hstep
    funext slot
    simp only [lastSeen, storedTime, hmirror]
  · simp [vlanArrival, hvlan] at hnone
  · rfl

/-- The whole daemon, filtered through the dedupe table. -/
def daemonFilter (build : Build) (iface : Iface) (hpaths : build.numberOfPaths ≠ 1) :
    Filter (Tables build) Input (List Frame) Fault (Slot build) ℤ :=
  (vlanFilter build hpaths).lift (processNewpkt iface) (vlanArrival iface)
    (fun input ↦ input.now.micros)
    (by
      intro tables input arrival harrival
      obtain ⟨hvlan, rfl⟩ := vlanArrival_eq_some harrival
      exact ⟨processNewpkt_of_isVlanArrival tables hvlan, rfl⟩)
    lastSeen_of_not_vlan

instance (build : Build) (iface : Iface) (hpaths : build.numberOfPaths ≠ 1) :
    DecidablePred (daemonFilter build iface hpaths).forwarded :=
  inferInstanceAs (DecidablePred fun sent : List Frame ↦ sent ≠ [])

theorem processNewpkt_completes_of_vlan {iface : Iface} (tables : Tables build) {input : Input}
    (hvlan : isVlanArrival iface input.recv.buf = true) (hwell : WellFormed build iface input) :
    ∃ next sent, processNewpkt iface tables input = .ok (next, sent) := by
  obtain ⟨hlow, hgroup, hpacket⟩ := hwell.vlan hvlan
  rw [processNewpkt_of_isVlanArrival tables hvlan]
  refine processWispr0Vlan_completes tables _ input.now hgroup (by omega) ?_
  cases hrecv : input.recv with
  | failed => simp [hrecv, Recv.numbytes] at hlow
  | frame bytes fits =>
    simp only [hrecv, Recv.numbytes] at hlow
    exact ⟨_, removeVlan_eq bytes (by omega) fits⟩

/-- A well-formed input is processed in every state, whichever handler it reaches. -/
theorem processNewpkt_completes {iface : Iface} (tables : Tables build) {input : Input}
    (hwell : WellFormed build iface input) :
    ∃ next sent, processNewpkt iface tables input = .ok (next, sent) := by
  have hsize : packetSize = 66000 := rfl
  by_cases hvlan : isVlanArrival iface input.recv.buf = true
  · exact processNewpkt_completes_of_vlan tables hvlan hwell
  by_cases hingress : isIngress iface input.recv.buf = true
  · obtain ⟨bytes, fits, hrecv⟩ := recv_of_isIngress hingress
    obtain ⟨hlow, hhigh⟩ := hwell.ingress hingress
    simp only [hrecv, Recv.numbytes] at hlow hhigh
    exact processNewpkt_completes_of_ingress tables hrecv hingress (by omega) (by omega)
  refine processNewpkt_completes_of_other tables hvlan hingress ?_
  intro hgre _
  obtain ⟨-, htype, -, -, hproto, -⟩ := isGreArrival_iff.mp hgre
  exact hwell.gre htype hproto

/-- **Dedupe window law.** In a build with more than one path, well-formed traffic is processed to
the end. In every completed run the decisions of a slot are the greedy ones on the slot's own
arrival times, as soon as these exceed `TIMEOUT`. Two runs in which a slot sees the same arrival
times, whatever else they process and whatever the arrivals carry, decide the same in that slot. -/
theorem dedupe_window_law (build : Build) (iface : Iface) (hpaths : 1 < build.numberOfPaths) :
    (∀ inputs : List Input, (∀ input ∈ inputs, WellFormed build iface input) →
      ∃ final outputs, run (processNewpkt iface) (initWisprtables build) inputs =
        .ok (final, outputs)) ∧
    (∀ (inputs : List Input) (final : Tables build) (outputs : List (List Frame))
      (slot : Slot build),
      run (processNewpkt iface) (initWisprtables build) inputs = .ok (final, outputs) →
      (∀ time ∈ (daemonFilter build iface hpaths.ne').arrivals slot inputs, timeout < time) →
        (daemonFilter build iface hpaths.ne').decisions slot inputs outputs =
          greedy timeout ((daemonFilter build iface hpaths.ne').arrivals slot inputs)) ∧
    (∀ (inputs inputs' : List Input) (final final' : Tables build)
      (outputs outputs' : List (List Frame)) (slot : Slot build),
      run (processNewpkt iface) (initWisprtables build) inputs = .ok (final, outputs) →
      run (processNewpkt iface) (initWisprtables build) inputs' = .ok (final', outputs') →
      (daemonFilter build iface hpaths.ne').arrivals slot inputs =
        (daemonFilter build iface hpaths.ne').arrivals slot inputs' →
        (daemonFilter build iface hpaths.ne').decisions slot inputs outputs =
          (daemonFilter build iface hpaths.ne').decisions slot inputs' outputs') := by
  refine ⟨?_, ?_, ?_⟩
  · intro inputs hwell
    exact run_completes (fun tables input ↦ processNewpkt_completes tables) _ inputs hwell
  · intro inputs final outputs slot hrun hlate
    have hdecisions := (daemonFilter build iface hpaths.ne').decisions_eq_greedyFrom hrun slot
    have hzero : lastSeen (initWisprtables build) slot = 0 := rfl
    rw [hdecisions]
    apply greedyFrom_eq_greedy
    intro time htime
    calc
      lastSeen (initWisprtables build) slot + timeout = timeout := by rw [hzero, zero_add]
      _ < time := hlate time htime
  · intro inputs inputs' final final' outputs outputs' slot hrun hrun' harrivals
    rw [(daemonFilter build iface hpaths.ne').decisions_eq_greedyFrom hrun slot,
      (daemonFilter build iface hpaths.ne').decisions_eq_greedyFrom hrun' slot, harrivals]

/-- The original copy of the sample packet as received by the egress, at a given microsecond. -/
def tcpArrival (usec : ℤ) : Input :=
  ⟨⟨0, usec⟩, .frame (singleTagged tcpPacket 1) (by decide)⟩

/-- The slot of the sample packet. -/
def tcpSlot : Slot wisprBuild := ⟨⟨0x0100000A, 0x0200000A⟩, ⟨0, by decide⟩, ⟨1, by decide⟩⟩

theorem tcpArrival_wellFormed (usec : ℤ) : WellFormed wisprBuild plainIface (tcpArrival usec) where
  vlan := fun _ ↦ (by decide : (18 : ℤ) ≤ (tcpArrival 0).recv.numbytes ∧
    groupId (receivedTag (tcpArrival 0).recv.buf) < wisprBuild.numberOfGroups ∧
    packetNumber (receivedTag (tcpArrival 0).recv.buf) ≤ wisprBuild.numberOfPaths)
  ingress := fun _ ↦ (by decide : (14 : ℤ) ≤ (tcpArrival 0).recv.numbytes ∧
    (tcpArrival 0).recv.numbytes ≤ 65992)
  gre := fun htype ↦ absurd htype
    (by decide : etherType (tcpArrival 0).recv.buf ≠ 0x0800)

/-- Three copies in one slot: the second falls into the window of the first, and does not extend
it for the third. -/
theorem dedupe_window_law_three_arrivals : ∃ final outputs,
    run (processNewpkt plainIface) (initWisprtables wisprBuild)
      [tcpArrival 1000, tcpArrival 1500, tcpArrival 1601] = .ok (final, outputs) ∧
    (daemonFilter wisprBuild plainIface (by decide)).decisions tcpSlot
      [tcpArrival 1000, tcpArrival 1500, tcpArrival 1601] outputs = [true, false, true] := by
  obtain ⟨hcompletes, hgreedy, -⟩ := dedupe_window_law wisprBuild plainIface (by decide)
  obtain ⟨final, outputs, hrun⟩ := hcompletes
    [tcpArrival 1000, tcpArrival 1500, tcpArrival 1601] (by
      intro input hinput
      simp only [List.mem_cons, List.not_mem_nil, or_false] at hinput
      rcases hinput with rfl | rfl | rfl <;> exact tcpArrival_wellFormed _)
  have harrivals : (daemonFilter wisprBuild plainIface (by decide)).arrivals tcpSlot
      [tcpArrival 1000, tcpArrival 1500, tcpArrival 1601] = [1000, 1500, 1601] := by decide
  have hdecisions := hgreedy _ final outputs tcpSlot hrun (by rw [harrivals]; decide)
  rw [harrivals] at hdecisions
  exact ⟨final, outputs, hrun, hdecisions.trans (by decide)⟩

end Wispr.Daemon.Dedupe
