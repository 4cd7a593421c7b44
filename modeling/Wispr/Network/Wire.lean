import Wispr.Controller.Access
import Wispr.Controller.Tags

/-!
# Frames of the daemon in the switches of the controller

The daemon works on bytes, the switches on header fields. `packetOf` is what a switch reads from a
frame: behind one VLAN header the next ethertype is the one it matches, so a double-tagged frame has
the id of its outer tag and the ethertype of its inner one.

Links may be dead. A packet that a switch sends over a dead link is lost, and the rules stay as they
are, so a packet reaches the end of its journey exactly when no link of the journey is dead.
-/

open Wispr.Foundation.ByteBuffer Wispr.Foundation.FlowTable

namespace Wispr.Network.Wire

open Controller.Paths Controller.Install Controller.Forwarding
open Daemon.Proto Daemon.Net Daemon.Codec

def byteAt (frame : Frame) (offset : ℕ) : ℕ := (frame.getD offset 0).toNat

/-- The big-endian number in the given count of bytes. -/
def numberAt (frame : Frame) (offset : ℕ) : ℕ → ℕ
  | 0 => 0
  | count + 1 => numberAt frame offset count * 0x100 + byteAt frame (offset + count)

def macAt (frame : Frame) (offset : ℕ) : Mac := BitVec.ofNat 48 (numberAt frame offset 6)

def ipAt (frame : Frame) (offset : ℕ) : Ip := BitVec.ofNat 32 (numberAt frame offset 4)

/-- The fields an OpenFlow switch extracts from a frame. -/
def packetOf (frame : Frame) : Packet :=
  let ethertype := numberAt frame 12 2
  let network := if ethertype = 0x8100 then 18 else 14
  let ethType := numberAt frame (network - 2) 2
  { ethSrc := macAt frame 6
    ethDst := macAt frame 0
    ethertype := ethertype
    ethType := ethType
    vlanVid := if ethertype = 0x8100 then some (0x1000 + numberAt frame 14 2 % 0x1000) else none
    arp := if ethType = 0x0806 then
        some ⟨numberAt frame (network + 6) 2, ipAt frame (network + 14), ipAt frame (network + 24)⟩
      else none
    ipv4 := if ethType = 0x0800 then
        some ⟨ipAt frame (network + 12), ipAt frame (network + 16), byteAt frame (network + 9)⟩
      else none
    ipv6 := decide (ethType = 0x86dd) }

theorem byteAt_lt (frame : Frame) (offset : ℕ) : byteAt frame offset < 0x100 :=
  (frame.getD offset 0).toNat_lt

theorem numberAt_congr {frame frame' : Frame} {offset count : ℕ}
    (h : ∀ index < count, frame.getD (offset + index) 0 = frame'.getD (offset + index) 0) :
    numberAt frame offset count = numberAt frame' offset count := by
  induction count with
  | zero => rfl
  | succ count ih =>
    rw [numberAt, numberAt, ih fun index hindex ↦ h index (Nat.lt_succ_of_lt hindex), byteAt,
      byteAt, h count (Nat.lt_succ_self count)]

/-- What a switch reads from an encoded frame: the addresses of the packet, the VLAN id of the outer
tag and the ethertype of the inner one. -/
theorem packetOf_doubleTagged {frame : Frame} (hlength : 14 ≤ frame.length) (tag : UInt16) :
    (packetOf (doubleTagged frame tag)).ethSrc = macAt frame 6 ∧
      (packetOf (doubleTagged frame tag)).ethDst = macAt frame 0 ∧
      (packetOf (doubleTagged frame tag)).ethType = 0x8100 ∧
      (packetOf (doubleTagged frame tag)).vlanVid =
        some (0x1000 + Daemon.Striping.vlanVid tag) := by
  have hbyte := doubleTagged_getD hlength tag
  have hfront : ∀ index < 12, (doubleTagged frame tag).getD index 0 = frame.getD index 0 := by
    intro index hindex
    rw [hbyte, if_pos hindex]
  have houter : numberAt (doubleTagged frame tag) 12 2 = 0x8100 := by
    simp only [numberAt, byteAt, hbyte]
    simp
  have hinner : numberAt (doubleTagged frame tag) 16 2 = 0x8100 := by
    simp only [numberAt, byteAt, hbyte]
    simp
  have htag : numberAt (doubleTagged frame tag) 14 2 = tag.toNat := by
    have hsmall := tag.toNat_lt
    simp only [numberAt, byteAt, hbyte]
    simp
    omega
  refine ⟨?_, ?_, ?_, ?_⟩
  · exact congrArg (BitVec.ofNat 48) (numberAt_congr fun index hindex ↦ hfront _ (by omega))
  · exact congrArg (BitVec.ofNat 48) (numberAt_congr fun index hindex ↦ hfront _ (by omega))
  · simp only [packetOf, houter, if_true]
    exact hinner
  · simp only [packetOf, houter, if_true, htag, Daemon.Striping.vlanVid]

/-- Fields in host order and in network order consist of the same bytes. -/
theorem toNat_ntohs_load16 (frame : Frame) (offset : ℕ) :
    (ntohs ((Buf.received packetSize frame).load16 offset)).toNat = numberAt frame offset 2 := by
  have hfirst := byteAt_lt frame offset
  have hsecond := byteAt_lt frame (offset + 1)
  have hloaded : ((Buf.received packetSize frame).load16 offset).toNat =
      byteAt frame offset + 256 * byteAt frame (offset + 1) := by
    rw [Buf.load16, UInt16.toNat_ofNat', Buf.received_byte, Buf.received_byte, ← byteAt, ← byteAt]
    exact Nat.mod_eq_of_lt (by omega)
  rw [ntohs, toNat_htons, hloaded]
  simp only [numberAt, Nat.add_zero]
  omega

theorem toNat_load32 (frame : Frame) (offset : ℕ) :
    ((Buf.received packetSize frame).load32 offset).toNat =
      byteAt frame offset + 256 * byteAt frame (offset + 1) +
        65536 * byteAt frame (offset + 2) + 16777216 * byteAt frame (offset + 3) := by
  have h0 := byteAt_lt frame offset
  have h1 := byteAt_lt frame (offset + 1)
  have h2 := byteAt_lt frame (offset + 2)
  have h3 := byteAt_lt frame (offset + 3)
  rw [Buf.load32, UInt32.toNat_ofNat', Buf.received_byte, Buf.received_byte, Buf.received_byte,
    Buf.received_byte, ← byteAt, ← byteAt, ← byteAt, ← byteAt]
  exact Nat.mod_eq_of_lt (by omega)

/-- An address as a little-endian host loads it determines the address. -/
theorem ipAt_of_load32 {frame : Frame} {offset : ℕ} {ip : Ip}
    (h : (Buf.received packetSize frame).load32 offset = Controller.Tags.loadedAddress ip) :
    ipAt frame offset = ip := by
  have hip := ip.isLt
  have h0 := byteAt_lt frame offset
  have h1 := byteAt_lt frame (offset + 1)
  have h2 := byteAt_lt frame (offset + 2)
  have h3 := byteAt_lt frame (offset + 3)
  have hnat := congrArg UInt32.toNat h
  rw [toNat_load32, Controller.Tags.loadedAddress, UInt32.toNat_ofNat',
    Nat.mod_eq_of_lt (by omega)] at hnat
  have hb0 : byteAt frame offset = ip.toNat / 0x1000000 := by omega
  have hb1 : byteAt frame (offset + 1) = ip.toNat / 0x10000 % 0x100 := by omega
  have hb2 : byteAt frame (offset + 2) = ip.toNat / 0x100 % 0x100 := by omega
  have hb3 : byteAt frame (offset + 3) = ip.toNat % 0x100 := by omega
  apply BitVec.eq_of_toNat_eq
  simp only [ipAt, BitVec.toNat_ofNat, numberAt, Nat.add_zero, hb0, hb1, hb2, hb3]
  omega

/-- What a switch reads from an untagged packet that the daemon takes for one of a flow. -/
theorem packetOf_ingress {iface : Iface} {frame : Frame} {ipSrc ipDst : Ip}
    (hingress : isIngress iface (.received packetSize frame) = true)
    (hkey : ingressKey (.received packetSize frame) =
      ⟨Controller.Tags.loadedAddress ipSrc, Controller.Tags.loadedAddress ipDst⟩) :
    (packetOf frame).ethType = 0x0800 ∧
      (packetOf frame).ipv4 = some ⟨ipSrc, ipDst, byteAt frame 23⟩ := by
  have htype : numberAt frame 12 2 = 0x0800 := by
    have hloaded : etherType (.received packetSize frame) = 0x0800 := by
      simp only [isIngress, Bool.and_eq_true, decide_eq_true_eq] at hingress
      exact hingress.1.1.1.2
    rw [← toNat_ntohs_load16]
    exact congrArg UInt16.toNat hloaded
  simp only [ingressKey, SessionKey.mk.injEq, sizeofEthhdr] at hkey
  have hsrc := ipAt_of_load32 hkey.1
  have hdst := ipAt_of_load32 hkey.2
  simp [packetOf, htype, hsrc, hdst]

theorem forwardsTo_unique {table : List FlowMod} {inPort outPort outPort' : Port} {packet : Packet}
    (h : ForwardsTo table inPort packet outPort) (h' : ForwardsTo table inPort packet outPort') :
    outPort = outPort' := by
  obtain ⟨-, ⟨rule, hrule⟩, hactions⟩ := h
  have hsame := (hactions rule hrule).symm.trans (h'.2.2 rule hrule)
  simpa using hsame

/-- A packet leaves the network, over links that are not dead. -/
inductive Reaches (tables : Dpid → List FlowMod) (peer : Peer) (dead : Set (Sym2 Dpid))
    (packet : Packet) : Dpid → Port → Dpid → Port → Prop
  | leave {node : Dpid} {inPort outPort : Port} :
      ForwardsTo (tables node) inPort packet outPort → peer node outPort = none →
      Reaches tables peer dead packet node inPort node outPort
  | hop {node next last : Dpid} {inPort outPort nextIn lastPort : Port} :
      ForwardsTo (tables node) inPort packet outPort → peer node outPort = some (next, nextIn) →
      s(node, next) ∉ dead → Reaches tables peer dead packet next nextIn last lastPort →
      Reaches tables peer dead packet node inPort last lastPort

/-- No link of the path is dead. -/
def Alive (dead : Set (Sym2 Dpid)) (path : List Dpid) : Prop :=
  path.IsChain fun u v ↦ s(u, v) ∉ dead

/-- A packet reaches the end of its journey exactly when all links of the journey are alive. -/
theorem reaches_iff_alive {tables : Dpid → List FlowMod} {peer : Peer} {dead : Set (Sym2 Dpid)}
    {packet : Packet} {node last : Dpid} {inPort lastPort : Port} {path : List Dpid}
    (h : Travels tables peer packet node inPort path last lastPort) :
    Reaches tables peer dead packet node inPort last lastPort ↔ Alive dead path := by
  induction h with
  | leave hforward hpeer => exact ⟨fun _ ↦ .singleton _, fun _ ↦ .leave hforward hpeer⟩
  | @hop node next last inPort outPort nextIn lastPort rest hforward hpeer hrest ih =>
    obtain ⟨tail, rfl⟩ : ∃ tail, rest = next :: tail := by
      cases hrest with
      | leave _ _ => exact ⟨_, rfl⟩
      | hop _ _ _ => exact ⟨_, rfl⟩
    constructor
    · intro hreaches
      cases hreaches with
      | leave hforward' hpeer' =>
        obtain rfl := forwardsTo_unique hforward hforward'
        rw [hpeer] at hpeer'
        cases hpeer'
      | hop hforward' hpeer' halive hnext =>
        obtain rfl := forwardsTo_unique hforward hforward'
        rw [hpeer, Option.some.injEq, Prod.mk.injEq] at hpeer'
        obtain ⟨rfl, rfl⟩ := hpeer'
        exact .cons_cons halive (ih.mp hnext)
    · intro halive
      obtain ⟨hfirst, hlater⟩ := List.isChain_cons_cons.mp halive
      exact .hop hforward hpeer hfirst (ih.mpr hlater)

end Wispr.Network.Wire
