import Wispr.Gre.Headers

/-!
# Frames of full size

The buffer of the GRE daemon has the size of an IP packet on Ethernet. A received frame also has its
Ethernet header, and one that enters here grows by eight bytes in the same buffer. This module says
which frames leave the daemon with all their bytes, and with every block operation inside the
buffer.
-/

open Wispr.Foundation.ByteBuffer

namespace Wispr.Gre.FullFrames

open Wispr.Daemon.Proto (Frame ingressKey)
open Wispr.Daemon.Net (Iface WisprIngressKey isGreArrival)
open Wispr.Gre.Daemon Wispr.Gre.Encapsulation Wispr.Gre.TwoNodes Wispr.Gre.Headers

variable {linked : Linked} {iface : Iface} {tables : Tables} {wire sent : Frame}

/-- Behind the first 34 bytes, `added` bytes are new and `removed` bytes are gone. All others are
there in order, apart from the length and the protocol of the IP header. -/
structure Carries (wire sent : Frame) (added removed : ℕ) : Prop where
  length : sent.length + removed = wire.length + added
  header : ∀ index < 34, index ≠ 16 → index ≠ 17 → index ≠ 23 →
    sent.getD index 0 = wire.getD index 0
  payload : sent.drop (34 + added) = wire.drop (34 + removed)

theorem carries_self (wire : Frame) : Carries wire wire 0 0 where
  length := rfl
  header _ _ _ _ _ := rfl
  payload := rfl

theorem carries_encapsulated {key : WisprIngressKey} (hlow : 34 ≤ wire.length) :
    Carries wire (encapsulated linked wire key) 8 0 where
  length := encapsulated_length hlow
  header index hheader h16 h17 h23 := by
    rw [encapsulated_getD, if_neg h17, if_neg h16, if_neg h23, if_pos hheader]
  payload := by
    rw [encapsulated, ← List.drop_drop, List.drop_left' greHeader_length,
      List.drop_left' greBytes_length]

theorem carries_decapsulated (hlow : 42 ≤ wire.length) : Carries wire (decapsulated wire) 0 8 where
  length := by
    rw [decapsulated_length hlow]
    omega
  header index hheader h16 h17 h23 := by
    rw [decapsulated_getD, if_neg h17, if_neg h16, if_neg h23, if_pos hheader]
  payload := by
    rw [decapsulated, List.drop_left' tcpHeader_length]

/-- The frame arrives with a GRE header at its egress node. -/
def leaves (iface : Iface) (tables : Tables) (wire : Frame) : Bool :=
  isGreArrival iface (recvBuf wire) && isEgressNode iface tables (recvBuf wire)

/-- The frame is handed to `process_ingress0` or `process_wispr0`. -/
def Handled (iface : Iface) (wire : Frame) : Prop :=
  isIngress iface (recvBuf wire) = true ∨ isGreArrival iface (recvBuf wire) = true

/-- All bytes of the frame are in what is sent, and no block operation leaves the buffer. -/
def Survives (linked : Linked) (iface : Iface) (tables : Tables) (wire : Frame) : Prop :=
  ∃ next sent, processNewpkt linked iface tables wire = .ok (next, [sent]) ∧
    Carries wire sent (if teaches iface tables wire then 8 else 0)
      (if leaves iface tables wire then 8 else 0)

theorem recvBytes_length_le (wire : Frame) : (recvBytes wire).length ≤ packetSize :=
  List.length_take_le ..

/-- A frame is received whole exactly when it fits. -/
theorem recvBytes_length_eq_iff : (recvBytes wire).length = wire.length ↔
    wire.length ≤ packetSize := by
  rw [recvBytes, List.length_take]
  omega

theorem not_leaves_of_isIngress (hingress : isIngress iface (recvBuf wire) = true) :
    leaves iface tables wire = false := by
  obtain ⟨-, -, -, -, htcp, -⟩ := isIngress_iff.mp hingress
  have hother : isGreArrival iface (recvBuf wire) = false := by
    rw [Bool.eq_false_iff]
    intro harrival
    obtain ⟨-, -, -, -, hgre, -⟩ := Wispr.Daemon.Net.isGreArrival_iff.mp harrival
    rw [htcp] at hgre
    exact absurd hgre (by decide)
  rw [leaves, hother, Bool.false_and]

theorem not_teaches_of_isGreArrival (harrival : isGreArrival iface (recvBuf wire) = true) :
    teaches iface tables wire = false := by
  rw [Bool.eq_false_iff]
  intro hteaches
  have hleaves := @not_leaves_of_isIngress iface allHosts wire (teaches_iff.mp hteaches).1
  rw [leaves, harrival] at hleaves
  exact absurd hleaves (by simp [isEgressNode, allHosts])

/-- A frame that is passed on. -/
theorem survives_iff_of_raw (hquiet : teaches iface tables wire = false)
    (hstays : leaves iface tables wire = false)
    (hraw : processNewpkt linked iface tables wire = .ok (tables, [recvBytes wire])) :
    Survives linked iface tables wire ↔ wire.length ≤ packetSize := by
  rw [Survives, hquiet, hstays, hraw]
  simp only [Bool.false_eq_true, if_false]
  constructor
  · intro ⟨next, sent, hsent, hcarries⟩
    cases hsent
    exact recvBytes_length_eq_iff.mp hcarries.length
  · intro hfits
    refine ⟨_, _, rfl, ?_⟩
    rw [recvBytes_of_fits hfits]
    exact carries_self wire

/-- A frame that enters here. -/
theorem survives_iff_of_teaches (hteaches : teaches iface tables wire = true) :
    Survives linked iface tables wire ↔ 34 ≤ wire.length ∧ wire.length + 8 ≤ packetSize := by
  have hstays : leaves iface tables wire = false :=
    not_leaves_of_isIngress (teaches_iff.mp hteaches).1
  constructor
  · intro ⟨next, sent, hsent, _⟩
    exact processNewpkt_teaches_bounds hteaches hsent
  · intro ⟨hlow, hhigh⟩
    refine ⟨_, _, processNewpkt_of_teaches hteaches hlow hhigh, ?_⟩
    rw [hteaches, hstays]
    exact carries_encapsulated hlow

/-- A frame that leaves the GRE path here. -/
theorem survives_iff_of_leaves (hleaves : leaves iface tables wire = true) :
    Survives linked iface tables wire ↔ 42 ≤ wire.length ∧ wire.length ≤ packetSize := by
  obtain ⟨harrival, hegress⟩ := Bool.and_eq_true_iff.mp hleaves
  have hquiet : teaches iface tables wire = false := not_teaches_of_isGreArrival harrival
  have hfits := recvBytes_length_le wire
  rw [Survives, hquiet, hleaves, processNewpkt_of_isGreArrival harrival, processWispr0,
    if_pos hegress, recvBuf]
  constructor
  · rintro ⟨next, sent, hsent, hcarries⟩
    obtain ⟨frames, hremove, hframes⟩ := bind_eq_ok.mp hsent
    have hlow := removeGre_bounds (by decide) hremove
    rw [removeGre_eq (by decide) hlow hfits] at hremove
    cases hremove
    cases hframes
    have hlength := hcarries.length
    rw [decapsulated_length hlow, if_pos rfl, if_neg Bool.false_ne_true] at hlength
    have hwhole : (recvBytes wire).length = wire.length := by omega
    exact ⟨by omega, recvBytes_length_eq_iff.mp hwhole⟩
  · rintro ⟨hlow, hhigh⟩
    refine ⟨tables, decapsulated wire, ?_, carries_decapsulated hlow⟩
    rw [recvBytes_of_fits hhigh, removeGre_eq (by decide) hlow hhigh]
    rfl

theorem processIngress0_recvBuf (hknown : tables.hostIp (ingressKey (recvBuf wire)).dstIp = true) :
    processIngress0 linked tables (recvBuf wire) (recvBytes wire).length =
      .ok (tables, [recvBytes wire]) := by
  rw [processIngress0_of_known hknown, sendPacketRaw, recvBuf,
    load_received (by decide) (recvBytes_length_le wire)]
  rfl

theorem processWispr0_recvBuf (hpasses : isEgressNode iface tables (recvBuf wire) = false) :
    processWispr0 iface tables (recvBuf wire) (recvBytes wire).length = .ok [recvBytes wire] := by
  rw [processWispr0, hpasses, if_neg Bool.false_ne_true, recvBuf,
    load_received (by decide) (recvBytes_length_le wire)]
  rfl

theorem survives_iff (hhandled : Handled iface wire) :
    Survives linked iface tables wire ↔
      wire.length ≤ packetSize ∧
        (teaches iface tables wire = true → 34 ≤ wire.length ∧ wire.length + 8 ≤ packetSize) ∧
        (leaves iface tables wire = true → 42 ≤ wire.length) := by
  by_cases hteaches : teaches iface tables wire = true
  · have hstays : leaves iface tables wire = false :=
      not_leaves_of_isIngress (teaches_iff.mp hteaches).1
    rw [survives_iff_of_teaches hteaches]
    simp only [hteaches, hstays, true_imp_iff, Bool.false_eq_true, false_imp_iff, and_true]
    omega
  by_cases hleaves : leaves iface tables wire = true
  · rw [survives_iff_of_leaves hleaves]
    simp only [hteaches, hleaves, true_imp_iff, Bool.false_eq_true, false_imp_iff, true_and]
    exact and_comm
  have hquiet := Bool.eq_false_iff.mpr hteaches
  have hstays := Bool.eq_false_iff.mpr hleaves
  have hraw : processNewpkt linked iface tables wire = .ok (tables, [recvBytes wire]) := by
    rcases hhandled with hingress | harrival
    · have hknown : tables.hostIp (ingressKey (recvBuf wire)).dstIp = true := by
        simpa [teaches, hingress] using hquiet
      rw [processNewpkt_of_isIngress hingress, processIngress0_recvBuf hknown]
    · have hpasses : isEgressNode iface tables (recvBuf wire) = false := by
        simpa [leaves, harrival] using hstays
      rw [processNewpkt_of_isGreArrival harrival, processWispr0_recvBuf hpasses]
      rfl
  rw [survives_iff_of_raw hquiet hstays hraw]
  simp only [hteaches, hleaves, Bool.false_eq_true, false_imp_iff, and_true]

/-- A frame that reaches one of the two handlers leaves the daemon with all its bytes, inside the
buffer, exactly when it fits the buffer, with eight bytes more where it enters, and has the headers
that the handler assumes. -/
theorem full_frames_survive_iff (linked : Linked) (iface : Iface) (tables : Tables) (wire : Frame)
    (hhandled : Handled iface wire) :
    Survives linked iface tables wire ↔
      wire.length ≤ 1500 ∧
        (teaches iface tables wire = true → 34 ≤ wire.length ∧ wire.length ≤ 1492) ∧
        (leaves iface tables wire = true → 42 ≤ wire.length) := by
  have hsize : packetSize = 1500 := rfl
  have hroom : wire.length + 8 ≤ packetSize ↔ wire.length ≤ 1492 := by omega
  rw [survives_iff hhandled, hroom, hsize]

theorem full_frames_survive_iff_small :
    Handled (nodeIface nodeMac .first) (tcpPacket 1 2) ∧
      Survives bitfieldLinked (nodeIface nodeMac .first) initWisprtables (tcpPacket 1 2) := by
  have hhandled : Handled (nodeIface nodeMac .first) (tcpPacket 1 2) := .inl (by decide)
  refine ⟨hhandled, (full_frames_survive_iff _ _ _ _ hhandled).mpr ?_⟩
  decide

/-- An IP packet of 1500 bytes in its Ethernet frame. -/
def fullPacket : Frame :=
  ((tcpPacket 1 2).set 16 0x05).set 17 0xdc ++ List.replicate 1455 0

/-- Behind the buffer the last 14 bytes are lost, or the GRE header finds no room. -/
theorem full_packet_not_survived :
    fullPacket.length = 1514 ∧ totalLength fullPacket = 1500 ∧
      Handled (nodeIface nodeMac .first) fullPacket ∧
      processNewpkt bitfieldLinked (nodeIface nodeMac .first) allHosts fullPacket =
        .ok (allHosts, [fullPacket.take 1500]) ∧
      ¬ Survives bitfieldLinked (nodeIface nodeMac .first) allHosts fullPacket ∧
      ¬ Survives bitfieldLinked (nodeIface nodeMac .first) initWisprtables fullPacket := by
  have hlength : fullPacket.length = 1514 := by
    rw [fullPacket, List.length_append, List.length_replicate]
    rfl
  have hingress : isIngress (nodeIface nodeMac .first) (recvBuf fullPacket) = true := by decide
  have hhandled : Handled (nodeIface nodeMac .first) fullPacket := .inl hingress
  have hlost : ∀ tables,
      ¬ Survives bitfieldLinked (nodeIface nodeMac .first) tables fullPacket := by
    intro tables hsurvives
    have hfits := ((survives_iff hhandled).mp hsurvives).1
    rw [hlength] at hfits
    exact absurd hfits (by decide)
  refine ⟨hlength, by decide, hhandled, ?_, hlost allHosts, hlost initWisprtables⟩
  rw [processNewpkt_of_isIngress hingress, processIngress0_recvBuf rfl]
  rfl

end Wispr.Gre.FullFrames
