import Wispr.Daemon.Striping

/-!
# The VLAN round trip

Whatever frame enters at the ingress, each of its two copies, after the receive path has taken the
outer tag off, is restored to exactly the bytes of the frame by an egress that does not suppress
it. The egress reads the mode of the copy, the group and packet number of the session tag and the
session key of the original frame.
-/

open Wispr.Foundation.ByteBuffer Wispr.Foundation.Run

namespace Wispr.Daemon.RoundTrip

open Proto Net Codec Striping

/-- A tag stored in some session of some run of the daemon. -/
def ReachableTag (build : Build) (tag : UInt16) : Prop :=
  ∃ (iface : Iface) (inputs : List Input) (final : Tables build) (outputs : List (List Frame))
    (key : SessionKey) (session : IngressSession),
    run (processNewpkt iface) (initWisprtables build) inputs = .ok (final, outputs) ∧
      final.wispringress key = some session ∧ session.vlanId = tag

theorem reachableTag_eq_tagOf {build : Build} {tag : UInt16} (h : ReachableTag build tag) :
    ∃ group packet, group < build.numberOfGroups ∧ packet ≤ build.numberOfPaths ∧
      tag = tagOf group packet := by
  obtain ⟨iface, inputs, final, outputs, key, session, hrun, hsession, rfl⟩ := h
  have hstart : storedTag (initWisprtables build) key = stripeTag build 0 := rfl
  have htag := storedTag_run hstart hrun
  rw [storedTag, hsession] at htag
  simp only [Option.map_some, Option.getD_some, Nat.zero_add] at htag
  cases hcount : packetsOf iface key inputs with
  | zero =>
    rw [hcount] at htag
    exact ⟨0, 0, build.groups_pos, Nat.zero_le _, htag⟩
  | succ count =>
    rw [hcount] at htag
    exact ⟨_, _, stripeGroup_lt build _, stripePacket_le build _, htag⟩

/-- The slot named by a received tag would let a copy through at this time. -/
def NotSuppressed {build : Build} (tables : Tables build) (key : SessionKey) (vlanId : UInt16)
    (now : Timeval) : Prop :=
  ∀ (hgroup : groupId vlanId < build.numberOfGroups)
    (hpacket : packetNumber vlanId < build.numberOfPaths + 1),
    timeout < timeDiff (storedTime tables key ⟨_, hgroup⟩ ⟨_, hpacket⟩) now ∨
      build.numberOfPaths = 1

theorem processWispr0Vlan_forwards {build : Build} {tables : Tables build} {frame : Frame}
    {tag : UInt16} {now : Timeval} (hlow : 14 ≤ frame.length)
    (hhigh : frame.length + 4 ≤ packetSize) (hmode : wisprMode tag ≠ 3)
    (hgroup : groupId tag < build.numberOfGroups)
    (hpacket : packetNumber tag < build.numberOfPaths + 1)
    (hfresh : NotSuppressed tables
      (egressKey (.received packetSize (singleTagged frame tag))) tag now) :
    ∃ next, processWispr0Vlan tables (.received packetSize (singleTagged frame tag))
      (singleTagged frame tag).length now = .ok (next, [frame]) := by
  have hlength := singleTagged_length hlow tag
  have htag := receivedTag_singleTagged hlow tag
  have hremove := removeVlan_eq (singleTagged frame tag) (by omega) (by omega)
  rw [untagOuter_singleTagged hlow] at hremove
  obtain ⟨next, sent, hstep⟩ := processWispr0Vlan_completes tables
    (.received packetSize (singleTagged frame tag)) now (by rwa [htag]) (by rwa [htag])
    ⟨_, hremove⟩
  obtain ⟨hgroup', hpacket', -, ⟨-, -, result, hresult, rfl⟩ | ⟨hstale, -⟩⟩ :=
    processWispr0Vlan_ok (by rwa [htag]) hstep
  · rw [hremove] at hresult
    cases hresult
    exact ⟨next, hstep⟩
  · refine absurd ?_ hstale
    have hsame := hfresh hgroup hpacket
    simpa only [htag] using hsame

/-- What the egress makes of one copy of a frame, once the receive path took its outer tag off. -/
structure RestoredAtEgress (build : Build) (frame : Frame) (tag : UInt16) (mode : ℕ)
    (copy : Frame) : Prop where
  tags_agree : outerTag copy = innerTag copy
  mode_eq : wisprMode (receivedTag (.received packetSize (untagOuter copy))) = mode
  group_eq : groupId (receivedTag (.received packetSize (untagOuter copy))) =
    ((tag &&& 0xF0) >>> 4).toNat
  packet_eq : packetNumber (receivedTag (.received packetSize (untagOuter copy))) =
    (tag &&& 0xF).toNat
  key_eq : egressKey (.received packetSize (untagOuter copy)) =
    ingressKey (.received packetSize frame)
  sends_frame : ∀ (tables : Tables build) (now : Timeval),
    NotSuppressed tables (egressKey (.received packetSize (untagOuter copy)))
        (receivedTag (.received packetSize (untagOuter copy))) now →
      ∃ next, processWispr0Vlan tables (.received packetSize (untagOuter copy))
        (untagOuter copy).length now = .ok (next, [frame])

theorem doubleTagged_restored {build : Build} {frame : Frame} {tag sentTag : UInt16}
    (hlow : 14 ≤ frame.length) (hhigh : frame.length + 4 ≤ packetSize)
    (hmode : wisprMode sentTag ≠ 3) (hgroup : groupId sentTag = groupId tag)
    (hpacket : packetNumber sentTag = packetNumber tag)
    (hgroupBound : groupId tag < build.numberOfGroups)
    (hpacketBound : packetNumber tag < build.numberOfPaths + 1) :
    RestoredAtEgress build frame tag (wisprMode sentTag) (doubleTagged frame sentTag) := by
  have huntag := untagOuter_doubleTagged hlow sentTag
  have htag := receivedTag_singleTagged hlow sentTag
  constructor
  · rw [outerTag_doubleTagged hlow, innerTag_doubleTagged hlow]
  · rw [huntag, htag]
  · rw [huntag, htag, hgroup]
    rfl
  · rw [huntag, htag, hpacket]
    rfl
  · rw [huntag, egressKey_singleTagged hlow]
  · intro tables now hfresh
    rw [huntag, htag] at hfresh
    rw [huntag]
    exact processWispr0Vlan_forwards hlow hhigh hmode (hgroup ▸ hgroupBound)
      (hpacket ▸ hpacketBound) hfresh

/-- **Round trip.** For every frame that the encoder can extend and every reachable session tag,
both copies carry one id in their two tags, and an egress that does not suppress them decodes
mode, group, packet number and session key and sends exactly the frame. -/
theorem vlan_round_trip (build : Build) (frame : Frame) (hlow : 14 ≤ frame.length)
    (hhigh : frame.length ≤ 65992) (tag : UInt16) (hreach : ReachableTag build tag) :
    ∃ original mirror,
      sendPacketWithkey (.received packetSize frame) frame.length tag = .ok [original, mirror] ∧
      RestoredAtEgress build frame tag 0 original ∧ RestoredAtEgress build frame tag 1 mirror := by
  have hsize : packetSize = 66000 := rfl
  obtain ⟨group, packet, hgroup, hpacket, rfl⟩ := reachableTag_eq_tagOf hreach
  have hgroup' : group < 16 := hgroup.trans_le (build.groups_le.trans (by decide))
  have hpacket' : packet < 16 := lt_of_le_of_lt (hpacket.trans build.paths_le) (by decide)
  obtain ⟨horiginal, hgroupId, hpacketNumber⟩ := nibbles_tagOf hgroup' hpacket'
  obtain ⟨hmirror, hmirrorGroup, hmirrorPacket⟩ := nibbles_mirror_tagOf hgroup' hpacket'
  refine ⟨_, _, sendPacketWithkey_eq hlow (by omega) (tagOf group packet), ?_, ?_⟩
  · rw [← horiginal]
    exact doubleTagged_restored hlow (by omega) (by omega) rfl rfl (by omega) (by omega)
  · rw [← hmirror]
    exact doubleTagged_restored hlow (by omega) (by omega)
      (hmirrorGroup.trans hgroupId.symm) (hmirrorPacket.trans hpacketNumber.symm)
      (by omega) (by omega)

theorem vlan_round_trip_first_packet : ∃ original mirror,
    sendPacketWithkey (.received packetSize tcpPacket) tcpPacket.length 1 = .ok [original, mirror] ∧
      RestoredAtEgress wisprBuild tcpPacket 1 0 original ∧
      RestoredAtEgress wisprBuild tcpPacket 1 1 mirror := by
  have hreach : ReachableTag wisprBuild 1 := by
    have hingress : isIngress plainIface tcpInput.recv.buf = true := by decide
    obtain ⟨next, sent, hstep⟩ := processNewpkt_completes_of_ingress (initWisprtables wisprBuild)
      (rfl : tcpInput.recv = .frame tcpPacket (by decide)) hingress (by decide) (by decide)
    have hrun : run (processNewpkt plainIface) (initWisprtables wisprBuild) [tcpInput] =
        .ok (next, [sent]) := run_cons_ok.mpr ⟨next, sent, [], hstep, rfl, rfl⟩
    have htag : storedTag next (ingressKey tcpInput.recv.buf) = 1 := by
      have hstart : storedTag (initWisprtables wisprBuild) (ingressKey tcpInput.recv.buf) =
          stripeTag wisprBuild 0 := rfl
      rw [storedTag_run hstart hrun]
      decide
    cases hsession : next.wispringress (ingressKey tcpInput.recv.buf) with
    | none => simp [storedTag, hsession] at htag
    | some session =>
      refine ⟨plainIface, [tcpInput], next, [sent], _, session, hrun, hsession, ?_⟩
      simpa [storedTag, hsession] using htag
  exact vlan_round_trip wisprBuild tcpPacket (by decide) (by decide) 1 hreach

end Wispr.Daemon.RoundTrip
