import Wispr.Gre.FullFrames

/-!
# Sequence keys

The session of a pair of addresses holds two coupled counters in adjacent bit-fields. Along every
run of `process_ingress0` they are quotient and remainder of the number of packets of the pair that
were encapsulated, whatever other flows do in between and however many packets were sent raw.
-/

open Wispr.Foundation.ByteBuffer Wispr.Foundation.Run

namespace Wispr.Gre.SequenceKeys

open Wispr.Daemon.Proto (Frame SessionKey ingressKey)
open Wispr.Daemon.Net (WisprIngressKey wisprIngressKeyAt)
open Wispr.Gre.Daemon Wispr.Gre.Encapsulation Wispr.Gre.TwoNodes Wispr.Gre.Headers
open Wispr.Gre.FullFrames

/-- The key of the `count`-th packet of a flow, `count ≥ 1`; a new session holds that of 0. -/
def sequenceKey (count : ℕ) : WisprIngressKey where
  index := count / numberOfPaths % 4096
  mode := 0
  bitmask := count % numberOfPaths

/-- The update of the bit-fields is the successor of the counter. -/
theorem nextKey_sequenceKey (count : ℕ) :
    nextKey (sequenceKey count) = sequenceKey (count + 1) := by
  have hpaths : numberOfPaths = 500 := rfl
  simp only [nextKey, sequenceKey, hpaths]
  by_cases hwrap : (count % 500 + 1) % 65536 = 500
  · rw [if_pos hwrap]
    congr 1 <;> omega
  · rw [if_neg hwrap]
    congr 1 <;> omega

/-- Two counts closer than the number of keys have different keys. -/
theorem sequenceKey_ne {first second : ℕ} (hlt : first < second)
    (hclose : second < first + numberOfPaths * 4096) :
    ((sequenceKey first).index, (sequenceKey first).bitmask) ≠
      ((sequenceKey second).index, (sequenceKey second).bitmask) := by
  have hpaths : numberOfPaths = 500 := rfl
  simp only [sequenceKey, hpaths, ne_eq, Prod.mk.injEq] at *
  omega

theorem sequenceKey_index_lt (count : ℕ) : (sequenceKey count).index < 4096 :=
  Nat.mod_lt _ (by decide)

theorem sequenceKey_mode_lt (count : ℕ) : (sequenceKey count).mode < 16 :=
  Nat.succ_pos 15

theorem sequenceKey_bitmask_lt (count : ℕ) : (sequenceKey count).bitmask < 65536 :=
  (Nat.mod_lt _ (by decide)).trans (by decide : numberOfPaths < 65536)

/-- The key within its bit-fields. -/
def sequenceFields (count : ℕ) : KeyFields where
  index := ⟨(sequenceKey count).index, sequenceKey_index_lt count⟩
  mode := ⟨(sequenceKey count).mode, sequenceKey_mode_lt count⟩
  bitmask := ⟨(sequenceKey count).bitmask, sequenceKey_bitmask_lt count⟩

/-- `process_ingress0` on a received frame. -/
def ingressStep (linked : Linked) (tables : Tables) (wire : Frame) :
    Except Fault (Tables × List Frame) :=
  processIngress0 linked tables (recvBuf wire) (recvBytes wire).length

/-- The flow of a packet. -/
def flowOf (wire : Frame) : SessionKey := ingressKey (recvBuf wire)

/-- The packet is one of the flow, and the node does not know its destination. -/
def encapsulates (tables : Tables) (key : SessionKey) (wire : Frame) : Bool :=
  decide (flowOf wire = key) && !tables.hostIp key.dstIp

variable {linked : Linked} {tables next final : Tables} {key : SessionKey} {wire : Frame}
variable {wires : List Frame} {sent : List Frame} {outputs : List (List Frame)}

theorem encapsulates_iff : encapsulates tables key wire = true ↔
    flowOf wire = key ∧ tables.hostIp key.dstIp = false := by
  rw [encapsulates, Bool.and_eq_true, decide_eq_true_iff, Bool.not_eq_true']

/-- How many packets of the flow are encapsulated in a run from the tables. -/
def encapsulatedOf (linked : Linked) (key : SessionKey) : Tables → List Frame → ℕ
  | _, [] => 0
  | tables, wire :: rest =>
      (if encapsulates tables key wire then 1 else 0) +
        match ingressStep linked tables wire with
        | .ok (next, _) => encapsulatedOf linked key next rest
        | .error _ => 0

/-- What an encapsulated packet does. -/
theorem ingressStep_of_encapsulates (h : ingressStep linked tables wire = .ok (next, sent))
    (hencapsulates : encapsulates tables key wire = true) :
    sent = [encapsulated linked wire (nextKey (sessionOf tables key))] ∧
      sessionOf next key = nextKey (sessionOf tables key) := by
  obtain ⟨rfl, hunknown⟩ := encapsulates_iff.mp hencapsulates
  rw [ingressStep, processIngress0_of_unknown hunknown] at h
  obtain ⟨frames, hsend, hresult⟩ := bind_eq_ok.mp h
  obtain ⟨hlow, hhigh⟩ := sendPacketWithkey_recvBuf_bounds hsend
  rw [sendPacketWithkey_recvBuf hlow hhigh] at hsend
  cases hsend
  cases hresult
  refine ⟨rfl, ?_⟩
  simp only [sessionOf, learn, flowOf, Function.update_self, Option.getD_some]

/-- Packets of other flows, and those sent raw, leave the session of a flow alone. -/
theorem ingressStep_of_not_encapsulates (h : ingressStep linked tables wire = .ok (next, sent))
    (hother : encapsulates tables key wire = false) :
    next.wispringress key = tables.wispringress key := by
  cases hknown : tables.hostIp (flowOf wire).dstIp with
  | true =>
    rw [ingressStep, processIngress0_of_known hknown] at h
    rw [sendPacketRaw_tables h]
  | false =>
    have hflow : key ≠ flowOf wire := by
      rintro rfl
      rw [encapsulates_iff.mpr ⟨rfl, hknown⟩] at hother
      cases hother
    rw [ingressStep, processIngress0_of_unknown hknown] at h
    obtain ⟨frames, -, hresult⟩ := bind_eq_ok.mp h
    cases hresult
    exact Function.update_of_ne hflow _ _

/-- One step keeps the session at the value of the counter. -/
theorem sessionOf_step {count : ℕ} (hsession : sessionOf tables key = sequenceKey count)
    (h : ingressStep linked tables wire = .ok (next, sent)) :
    sessionOf next key =
      sequenceKey (count + if encapsulates tables key wire then 1 else 0) := by
  cases hencapsulates : encapsulates tables key wire with
  | true =>
    rw [(ingressStep_of_encapsulates h hencapsulates).2, hsession, nextKey_sequenceKey]
    rfl
  | false =>
    rw [sessionOf, ingressStep_of_not_encapsulates h hencapsulates, ← sessionOf, hsession]
    rfl

theorem encapsulatedOf_cons {rest : List Frame}
    (h : ingressStep linked tables wire = .ok (next, sent)) :
    encapsulatedOf linked key tables (wire :: rest) =
      (if encapsulates tables key wire then 1 else 0) + encapsulatedOf linked key next rest := by
  rw [encapsulatedOf, h]

theorem encapsulatedOf_append {front back : List Frame}
    (h : run (ingressStep linked) tables front = .ok (next, outputs)) :
    encapsulatedOf linked key tables (front ++ back) =
      encapsulatedOf linked key tables front + encapsulatedOf linked key next back := by
  induction front generalizing tables outputs with
  | nil =>
    cases h
    simp [encapsulatedOf]
  | cons wire rest ih =>
    obtain ⟨middle, output, tail, hstep, hrest, -⟩ := run_cons_ok.mp h
    rw [List.cons_append, encapsulatedOf_cons hstep, encapsulatedOf_cons hstep, ih hrest,
      Nat.add_assoc]

/-- Along every run the session counts the encapsulated packets of its flow. -/
theorem sessionOf_run {count : ℕ} (hsession : sessionOf tables key = sequenceKey count)
    (h : run (ingressStep linked) tables wires = .ok (final, outputs)) :
    sessionOf final key = sequenceKey (count + encapsulatedOf linked key tables wires) := by
  induction wires generalizing tables outputs count with
  | nil =>
    cases h
    exact hsession
  | cons wire rest ih =>
    obtain ⟨next, output, tail, hstep, hrest, -⟩ := run_cons_ok.mp h
    rw [ih (sessionOf_step hsession hstep) hrest, encapsulatedOf_cons hstep, Nat.add_assoc]

theorem sessionOf_init (key : SessionKey) : sessionOf initWisprtables key = sequenceKey 0 := rfl

/-- In the run over the frames from empty tables, the one at the position is the `count`-th packet
of the flow that is encapsulated. -/
def IsNth (linked : Linked) (key : SessionKey) (wires : List Frame) (position count : ℕ) : Prop :=
  ∃ wire before outputs, wires[position]? = some wire ∧
    run (ingressStep linked) initWisprtables (wires.take position) = .ok (before, outputs) ∧
    encapsulates before key wire = true ∧
    count = encapsulatedOf linked key initWisprtables (wires.take position) + 1

theorem IsNth.carries {position count : ℕ} (hnth : IsNth linked key wires position count)
    (hrun : run (ingressStep linked) initWisprtables wires = .ok (final, outputs)) :
    ∃ wire, wires[position]? = some wire ∧ flowOf wire = key ∧
      outputs[position]? = some [encapsulated linked wire (sequenceKey count)] := by
  obtain ⟨wire, before, front, hwire, hfront, hencapsulates, rfl⟩ := hnth
  obtain ⟨state, next, sent, hbefore, hstep, hsent, -⟩ := run_getElem? hrun hwire
  cases hfront.symm.trans hbefore
  have hsession := sessionOf_run (sessionOf_init key) hbefore
  obtain ⟨rfl, -⟩ := ingressStep_of_encapsulates hstep hencapsulates
  rw [hsession, nextKey_sequenceKey, Nat.zero_add] at hsent
  exact ⟨wire, hwire, (encapsulates_iff.mp hencapsulates).1, hsent⟩

/-- Later packets of a flow have larger numbers. -/
theorem IsNth.count_lt {position position' count count' : ℕ}
    (hnth : IsNth linked key wires position count)
    (hnth' : IsNth linked key wires position' count') (hlt : position < position') :
    count < count' := by
  obtain ⟨wire, before, outputs, hwire, hbefore, hencapsulates, rfl⟩ := hnth
  obtain ⟨wire', before', outputs', hwire', hbefore', -, rfl⟩ := hnth'
  have hsplit : wires.take position' =
      wires.take position ++ wire :: (wires.take position').drop (position + 1) := by
    have hfirst : (wires.take position').take (position + 1) = wires.take position ++ [wire] := by
      rw [List.take_take, min_eq_left hlt, List.take_add_one, hwire]
      rfl
    calc wires.take position' =
        (wires.take position').take (position + 1) ++ (wires.take position').drop (position + 1) :=
          (List.take_append_drop ..).symm
      _ = wires.take position ++ wire :: (wires.take position').drop (position + 1) := by
          rw [hfirst, List.append_assoc]
          rfl
  rw [hsplit] at hbefore' ⊢
  obtain ⟨middle, front, back, hfront, hback, -⟩ := run_append_ok.mp hbefore'
  cases hfront.symm.trans hbefore
  obtain ⟨next, sent, tail, hstep, -, -⟩ := run_cons_ok.mp hback
  rw [encapsulatedOf_append hbefore, encapsulatedOf_cons hstep, if_pos hencapsulates]
  omega

theorem IsNth.keys_ne {position position' count count' : ℕ}
    (hnth : IsNth linked key wires position count)
    (hnth' : IsNth linked key wires position' count') (hne : position ≠ position')
    (hclose : count < count' + numberOfPaths * 4096)
    (hclose' : count' < count + numberOfPaths * 4096) :
    ((sequenceKey count).index, (sequenceKey count).bitmask) ≠
      ((sequenceKey count').index, (sequenceKey count').bitmask) := by
  rcases Nat.lt_or_gt_of_ne hne with hlt | hgt
  · exact sequenceKey_ne (hnth.count_lt hnth' hlt) hclose'
  · exact (sequenceKey_ne (hnth'.count_lt hnth hgt) hclose).symm

theorem ingressStep_of_unknown (hlow : 34 ≤ wire.length) (hhigh : wire.length + 8 ≤ packetSize)
    (hunknown : tables.hostIp (flowOf wire).dstIp = false) :
    ingressStep linked tables wire = .ok (learn tables (flowOf wire),
      [encapsulated linked wire (nextKey (sessionOf tables (flowOf wire)))]) := by
  rw [ingressStep, processIngress0_of_unknown hunknown, sendPacketWithkey_recvBuf hlow hhigh]
  rfl

theorem ingressStep_completes (linked : Linked) (tables : Tables) (hlow : 34 ≤ wire.length)
    (hhigh : wire.length + 8 ≤ packetSize) :
    ∃ next sent, ingressStep linked tables wire = .ok (next, sent) := by
  cases hknown : tables.hostIp (flowOf wire).dstIp with
  | true => exact ⟨_, _, processIngress0_recvBuf hknown⟩
  | false => exact ⟨_, _, ingressStep_of_unknown hlow hhigh hknown⟩

/-- **The keys of a flow are a counter.** In every run of `process_ingress0`, the `n`-th packet of a
flow that is encapsulated carries bitmask `n mod P`, index `n div P mod 4096` and mode 0, also when
it is read back from the frame; two packets of the flow within `P * 4096` have different keys; the
session stays a value of the counter; packets of other flows and packets sent raw leave it alone;
and a frame with room for the header is always processed. -/
theorem sequence_keys_of_run (linked : Linked) (wires : List Frame) (final : Tables)
    (outputs : List (List Frame))
    (hrun : run (ingressStep linked) initWisprtables wires = .ok (final, outputs))
    (key : SessionKey) :
    (∀ position count, IsNth linked key wires position count →
      ∃ wire, wires[position]? = some wire ∧ flowOf wire = key ∧
        outputs[position]? = some [encapsulated linked wire
          ⟨count / numberOfPaths % 4096, 0, count % numberOfPaths⟩]) ∧
    (∀ (frame : Frame) (count : ℕ),
      wisprIngressKeyAt (.received packetSize (encapsulated bitfieldLinked frame
          ⟨count / numberOfPaths % 4096, 0, count % numberOfPaths⟩)) keyOffset =
        ⟨count / numberOfPaths % 4096, 0, count % numberOfPaths⟩) ∧
    (∀ position position' count count', IsNth linked key wires position count →
      IsNth linked key wires position' count' → position ≠ position' →
        count < count' + numberOfPaths * 4096 → count' < count + numberOfPaths * 4096 →
          (count / numberOfPaths % 4096, count % numberOfPaths) ≠
            (count' / numberOfPaths % 4096, count' % numberOfPaths)) ∧
    sessionOf final key = sequenceKey (encapsulatedOf linked key initWisprtables wires) ∧
    (∀ tables wire next sent, ingressStep linked tables wire = .ok (next, sent) →
      flowOf wire ≠ key ∨ tables.hostIp (flowOf wire).dstIp = true →
        next.wispringress key = tables.wispringress key) ∧
    ∀ (tables : Tables) (wire : Frame), 34 ≤ wire.length → wire.length ≤ 1492 →
      ∃ next sent, ingressStep linked tables wire = .ok (next, sent) := by
  refine ⟨fun position count hnth ↦ hnth.carries hrun,
    fun frame count ↦ wisprIngressKeyAt_encapsulated (sequenceFields count),
    fun position position' count count' ↦ IsNth.keys_ne, ?_, ?_, ?_⟩
  · have hsession := sessionOf_run (sessionOf_init key) hrun
    rwa [Nat.zero_add] at hsession
  · intro tables wire next sent hstep hother
    apply ingressStep_of_not_encapsulates hstep
    rw [Bool.eq_false_iff]
    intro hencapsulates
    obtain ⟨rfl, hunknown⟩ := encapsulates_iff.mp hencapsulates
    rcases hother with hne | hknown
    · exact hne rfl
    · rw [hunknown] at hknown
      cases hknown
  · intro tables wire hlow hhigh
    have hsize : packetSize = 1500 := rfl
    exact ingressStep_completes linked tables hlow (by omega)

/-- Only the source of a packet becomes known. -/
theorem hostIp_step {ip : UInt32} (h : ingressStep linked tables wire = .ok (next, sent))
    (hother : (flowOf wire).srcIp ≠ ip) : next.hostIp ip = tables.hostIp ip := by
  cases hknown : tables.hostIp (flowOf wire).dstIp with
  | true =>
    rw [ingressStep, processIngress0_of_known hknown] at h
    rw [sendPacketRaw_tables h]
  | false =>
    rw [ingressStep, processIngress0_of_unknown hknown] at h
    obtain ⟨frames, -, hresult⟩ := bind_eq_ok.mp h
    cases hresult
    exact Function.update_of_ne hother.symm _ _

/-- Where the destination of a flow is no source, it stays unknown and every packet of the flow
counts. -/
theorem encapsulatedOf_eq_countP (hunknown : tables.hostIp key.dstIp = false)
    (hsources : ∀ wire ∈ wires, (flowOf wire).srcIp ≠ key.dstIp)
    (h : run (ingressStep linked) tables wires = .ok (final, outputs)) :
    final.hostIp key.dstIp = false ∧
      encapsulatedOf linked key tables wires = wires.countP fun wire ↦ flowOf wire = key := by
  induction wires generalizing tables outputs with
  | nil =>
    cases h
    exact ⟨hunknown, rfl⟩
  | cons wire rest ih =>
    obtain ⟨next, output, tail, hstep, hrest, -⟩ := run_cons_ok.mp h
    have hkept := hostIp_step hstep (hsources wire (List.mem_cons_self ..))
    obtain ⟨hfinal, hcount⟩ := ih (hkept.trans hunknown)
      (fun other hother ↦ hsources other (List.mem_cons_of_mem _ hother)) hrest
    refine ⟨hfinal, ?_⟩
    rw [encapsulatedOf_cons hstep, hcount, List.countP_cons, Nat.add_comm]
    simp only [encapsulates, hunknown, Bool.not_false, Bool.and_true, decide_eq_true_eq]

/-- Some packets of two flows in turn. -/
def twoFlows (count : ℕ) : List Frame :=
  (List.replicate count [tcpPacket 1 2, tcpPacket 3 4]).flatten

theorem mem_twoFlows {count : ℕ} (h : wire ∈ twoFlows count) :
    wire = tcpPacket 1 2 ∨ wire = tcpPacket 3 4 := by
  obtain ⟨pair, hpair, hmem⟩ := List.mem_flatten.mp h
  rw [List.eq_of_mem_replicate hpair] at hmem
  simpa using hmem

theorem twoFlows_completes (linked : Linked) (tables : Tables) (count : ℕ) :
    ∃ final outputs, run (ingressStep linked) tables (twoFlows count) = .ok (final, outputs) := by
  refine @run_completes _ _ _ _ _ (fun wire ↦ wire = tcpPacket 1 2 ∨ wire = tcpPacket 3 4)
    (fun tables wire hwire ↦ ?_) _ _ (fun wire hmem ↦ mem_twoFlows hmem)
  rcases hwire with rfl | rfl
  · exact ingressStep_completes linked tables (by decide) (by decide)
  · exact ingressStep_completes linked tables (by decide) (by decide)

/-- The next packet of the first flow has the number after those in turn. -/
theorem isNth_twoFlows (linked : Linked) (count : ℕ) :
    IsNth linked (flowOf (tcpPacket 1 2)) (twoFlows count ++ [tcpPacket 1 2])
      (twoFlows count).length (count + 1) := by
  obtain ⟨before, outputs, hbefore⟩ := twoFlows_completes linked initWisprtables count
  have hsources : ∀ wire ∈ twoFlows count,
      (flowOf wire).srcIp ≠ (flowOf (tcpPacket 1 2)).dstIp := by
    intro wire hwire
    rcases mem_twoFlows hwire with rfl | rfl
    · decide
    · decide
  have hpair : [tcpPacket 1 2, tcpPacket 3 4].countP
      (fun wire ↦ flowOf wire = flowOf (tcpPacket 1 2)) = 1 := by
    decide
  obtain ⟨hunknown, hcount⟩ := encapsulatedOf_eq_countP rfl hsources hbefore
  rw [twoFlows, List.countP_flatten, List.map_replicate, hpair, List.sum_replicate, smul_eq_mul,
    Nat.mul_one] at hcount
  refine ⟨tcpPacket 1 2, before, outputs, ?_, ?_, encapsulates_iff.mpr ⟨rfl, hunknown⟩, ?_⟩
  · rw [List.getElem?_append_right (Nat.le_refl _), Nat.sub_self]
    rfl
  · rw [List.take_left]
    exact hbefore
  · rw [List.take_left, twoFlows, hcount]

/-- Between packets of another flow, the 499th packet of a flow has the last bitmask, and the next
one bitmask 0 and the next index. -/
theorem sequence_keys_of_two_flows :
    (∃ final outputs,
      run (ingressStep bitfieldLinked) initWisprtables (twoFlows 498 ++ [tcpPacket 1 2]) =
          .ok (final, outputs) ∧
        outputs[(twoFlows 498).length]? =
          some [encapsulated bitfieldLinked (tcpPacket 1 2) ⟨0, 0, 499⟩]) ∧
      ∃ final outputs,
        run (ingressStep bitfieldLinked) initWisprtables (twoFlows 499 ++ [tcpPacket 1 2]) =
            .ok (final, outputs) ∧
          outputs[(twoFlows 499).length]? =
            some [encapsulated bitfieldLinked (tcpPacket 1 2) ⟨1, 0, 0⟩] := by
  have hcarried : ∀ count, ∃ final outputs,
      run (ingressStep bitfieldLinked) initWisprtables (twoFlows count ++ [tcpPacket 1 2]) =
          .ok (final, outputs) ∧
        outputs[(twoFlows count).length]? = some [encapsulated bitfieldLinked (tcpPacket 1 2)
          ⟨(count + 1) / numberOfPaths % 4096, 0, (count + 1) % numberOfPaths⟩] := by
    intro count
    obtain ⟨before, front, hbefore⟩ := twoFlows_completes bitfieldLinked initWisprtables count
    obtain ⟨final, sent, hlast⟩ := @ingressStep_completes (tcpPacket 1 2) bitfieldLinked before
      (by decide) (by decide)
    have hrun := run_append_ok.mpr ⟨before, front, [sent], hbefore,
      run_cons_ok.mpr ⟨final, sent, [], hlast, run_nil _, rfl⟩, rfl⟩
    obtain ⟨wire, hwire, -, hsent⟩ :=
      (sequence_keys_of_run bitfieldLinked _ _ _ hrun (flowOf (tcpPacket 1 2))).1 _ _
        (isNth_twoFlows bitfieldLinked count)
    rw [List.getElem?_append_right (Nat.le_refl _), Nat.sub_self] at hwire
    cases hwire
    exact ⟨final, _, hrun, hsent⟩
  exact ⟨hcarried 498, hcarried 499⟩

end Wispr.Gre.SequenceKeys
