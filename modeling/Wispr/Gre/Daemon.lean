import Wispr.Daemon.Net

/-!
# The GRE daemon

The `WISPR2` build: an ingress node inserts a GRE header with a key behind the IP header of a TCP
packet, a node that knows the destination takes it out again. Which hosts a node knows is learned
from its own ingress traffic.

Two lines of the build have no meaning in C and are parameters: the assignment of `htons` of a
struct to the key field, which has to keep a key of mode 0 one of mode 0, and the handler of VLAN
frames, which is not part of this build. The output to the log is left out.
-/

open Wispr.Foundation.ByteBuffer

namespace Wispr.Gre.Daemon

open Wispr.Daemon.Proto hiding packetSize Tables initWisprtables getOrAddIngresssession
  sendPacketWithkey processIngress0
open Wispr.Daemon.Net hiding processWispr0 handleIpv4pkt processNewpkt isIngress isEgressNode

/-- `PACKET_SIZE`. -/
def packetSize : ℕ := 1500

/-- `NUMBEROFPATHS`. -/
def numberOfPaths : ℕ := 500

/-- What the two lines without meaning stand for. -/
structure Linked where
  keyBytes : WisprIngressKey → Frame
  keyBytes_length : ∀ key, (keyBytes key).length = 4
  keyBytes_mode : ∀ key, key.mode = 0 →
    (wisprIngressKeyAt (.received 4 (keyBytes key)) 0).mode = 0
  processWispr0Vlan : Buf → ℤ → Except Fault (List Frame)

/-- The global hash tables. -/
structure Tables where
  wispringress : SessionKey → Option WisprIngressKey
  hostIp : UInt32 → Bool

def initWisprtables : Tables where
  wispringress _ := none
  hostIp _ := false

def Tables.setIngress (tables : Tables) (key : SessionKey) (session : WisprIngressKey) : Tables :=
  { tables with wispringress := Function.update tables.wispringress key (some session) }

/-- A session is created zeroed. -/
def getOrAddIngresssession (tables : Tables) (key : SessionKey) : Tables × WisprIngressKey :=
  match tables.wispringress key with
  | some session => (tables, session)
  | none => (tables.setIngress key ⟨0, 0, 0⟩, ⟨0, 0, 0⟩)

def checkDstIpHost (tables : Tables) (key : UInt32) : ℤ := if tables.hostIp key then 1 else -1

def addSrcIpHost (tables : Tables) (key : UInt32) : Tables :=
  { tables with hostIp := Function.update tables.hostIp key true }

/-- The update of the key, in bit-fields of 12 and 16 bits. -/
def nextKey (key : WisprIngressKey) : WisprIngressKey :=
  let bitmask := (key.bitmask + 1) % 65536
  if bitmask = numberOfPaths then { key with index := (key.index + 1) % 4096, bitmask := 0 }
  else { key with bitmask := bitmask }

/-- The stores of `send_packet_withkey` before the payload is put back. -/
def writeGre (linked : Linked) (buf : Buf) (key : WisprIngressKey) : Buf :=
  let buf := buf.store16 (sizeofIphdr + sizeofEthhdr) (htons 0x2000)
  let buf := buf.overwrite (sizeofIphdr + sizeofEthhdr + 4) (linked.keyBytes key)
  buf.store16 (sizeofIphdr + sizeofEthhdr + 2) (htons 0x0000)

/-- `send_packet_withkey`. -/
def sendPacketWithkey (linked : Linked) (buf : Buf) (numbytes : ℤ) (key : WisprIngressKey) :
    Except Fault (List Frame) := do
  let buf := buf.setByte (sizeofEthhdr + 9) 47
  let remLen := toInt (numbytes - sizeofIphdr - sizeofEthhdr)
  let remBuf ← buf.load (sizeofIphdr + sizeofEthhdr) (toSize remLen)
  let buf := writeGre linked buf key
  let buf ← buf.store (sizeofEthhdr + sizeofIphdr + sizeofWisprPacket) remBuf
  let totLen := ntohs (buf.load16 (sizeofEthhdr + 2)) + 8
  let buf := buf.store16 (sizeofEthhdr + 2) (htons totLen)
  let sent ← buf.load 0 (toSize (numbytes + sizeofWisprPacket))
  return [sent]

/-- `process_ingress0`, the handler of mode 0. The session is never null. -/
def processIngress0 (linked : Linked) (tables : Tables) (buf : Buf) (numbytes : ℤ) :
    Except Fault (Tables × List Frame) := do
  let key := ingressKey buf
  if checkDstIpHost tables key.dstIp = -1 then
    let tables := addSrcIpHost tables key.srcIp
    let (tables, tmp) := getOrAddIngresssession tables key
    let tmp := nextKey tmp
    let tables := tables.setIngress key tmp
    let sent ← sendPacketWithkey linked buf numbytes tmp
    return (tables, sent)
  else
    let sent ← buf.load 0 (toSize numbytes)
    return (tables, [sent])

/-- `process_wispr0` takes the node for the egress of the frame. -/
def isEgressNode (iface : Iface) (tables : Tables) (buf : Buf) : Bool :=
  tables.hostIp (buf.load32 (sizeofEthhdr + 16)) || destIs buf iface.gateWayIporMAC

/-- The removal of the GRE header and key. -/
def removeGre (buf : Buf) (numbytes : ℤ) : Except Fault (List Frame) := do
  let remLen := toInt (numbytes - sizeofIphdr - sizeofEthhdr - sizeofWisprPacket)
  let remBuf ← buf.load (sizeofIphdr + sizeofEthhdr + sizeofWisprPacket) (toSize remLen)
  let buf ← buf.fill (sizeofEthhdr + sizeofIphdr) (toSize (remLen + sizeofWisprPacket)) 0
  let buf ← buf.store (sizeofEthhdr + sizeofIphdr) remBuf
  let totLen := ntohs (buf.load16 (sizeofEthhdr + 2)) - 8
  let buf := buf.store16 (sizeofEthhdr + 2) (htons totLen)
  let buf := buf.setByte (sizeofEthhdr + 9) 6
  let sent ← buf.load 0 (toSize (numbytes - sizeofWisprPacket))
  return [sent]

/-- `process_wispr0`. -/
def processWispr0 (iface : Iface) (tables : Tables) (buf : Buf) (numbytes : ℤ) :
    Except Fault (List Frame) :=
  if isEgressNode iface tables buf then removeGre buf numbytes
  else do
    let sent ← buf.load 0 (toSize numbytes)
    return [sent]

/-- "10.0.0.1", "10.0.0.2" and "192.168.61.130", as loaded by a little-endian host. -/
def ingressSources : List UInt32 := [0x0100000A, 0x0200000A, 0x823DA8C0]

/-- `send_packet_raw`, for a frame that is passed on. -/
def sendPacketRaw (tables : Tables) (buf : Buf) (numbytes : ℤ) :
    Except Fault (Tables × List Frame) := do
  let sent ← buf.load 0 (toSize numbytes)
  return (tables, [sent])

/-- `handle_ipv4pkt`. -/
def handleIpv4pkt (linked : Linked) (iface : Iface) (tables : Tables) (buf : Buf) (numbytes : ℤ) :
    Except Fault (Tables × List Frame) :=
  if buf.load32 (sizeofEthhdr + 12) = loopback ∨ buf.load32 (sizeofEthhdr + 16) = loopback then
    .ok (tables, [])
  else if destIs buf iface.mac then .ok (tables, [])
  else if destIs buf broadcastMac then .ok (tables, [])
  else if ipProtocol buf = 1 then
    if buf.byte 0 = 0x11 then .ok (tables, []) else sendPacketRaw tables buf numbytes
  else if ipProtocol buf = 17 then sendPacketRaw tables buf numbytes
  else if ipProtocol buf = 6 then
    if buf.load32 (sizeofEthhdr + 12) ∈ ingressSources then
      processIngress0 linked tables buf numbytes
    else .ok (tables, [])
  else if ipProtocol buf = 47 then
    match parseWisprPkt buf with
    | none => .ok (tables, [])
    | some key =>
        if (wisprIngressKeyAt buf key).mode = 0 then do
          let sent ← processWispr0 iface tables buf numbytes
          return (tables, sent)
        else .ok (tables, [])
  else sendPacketRaw tables buf numbytes

/-- What `recvfrom` leaves of a frame on the wire. -/
def recvBytes (wire : Frame) : Frame := wire.take packetSize

/-- `process_newpkt` for a received frame. A failed call of `recvfrom` leaves the buffer zeroed,
which no handler acts on. -/
def processNewpkt (linked : Linked) (iface : Iface) (tables : Tables) (wire : Frame) :
    Except Fault (Tables × List Frame) :=
  let buf := Buf.received packetSize (recvBytes wire)
  let numbytes : ℤ := (recvBytes wire).length
  if destIs buf iface.mac then .ok (tables, [])
  else if destIs buf broadcastMac then .ok (tables, [])
  else if destIs buf ignoredMac then .ok (tables, [])
  else if destIs buf lldpMac then .ok (tables, [])
  else if etherType buf = 0x8100 then do
    let sent ← linked.processWispr0Vlan buf numbytes
    return (tables, sent)
  else if etherType buf = 0x86dd then .ok (tables, [])
  else if etherType buf = 0x0800 then handleIpv4pkt linked iface tables buf numbytes
  else if etherType buf = 0x0806 then sendPacketRaw tables buf numbytes
  else .ok (tables, [])

/-! ## Which handler a frame reaches -/

/-- The frame is handed to `process_ingress0`. -/
def isIngress (iface : Iface) (buf : Buf) : Bool :=
  passesFilters iface buf && decide (etherType buf = 0x0800) &&
    decide (buf.load32 (sizeofEthhdr + 12) ≠ loopback) &&
    decide (buf.load32 (sizeofEthhdr + 16) ≠ loopback) && decide (ipProtocol buf = 6) &&
    decide (buf.load32 (sizeofEthhdr + 12) ∈ ingressSources)

/-- The buffer of `process_newpkt` after it received a frame. -/
def recvBuf (wire : Frame) : Buf := .received packetSize (recvBytes wire)

theorem recvBytes_of_fits {wire : Frame} (hfits : wire.length ≤ packetSize) :
    recvBytes wire = wire :=
  List.take_of_length_le hfits

variable {linked : Linked} {iface : Iface} {tables next : Tables} {wire : Frame} {sent : List Frame}

theorem isIngress_iff {buf : Buf} : isIngress iface buf = true ↔
    passesFilters iface buf = true ∧ etherType buf = 0x0800 ∧ buf.load32 26 ≠ loopback ∧
      buf.load32 30 ≠ loopback ∧ ipProtocol buf = 6 ∧ buf.load32 26 ∈ ingressSources := by
  unfold isIngress
  rw [Bool.and_eq_true, Bool.and_eq_true, Bool.and_eq_true, Bool.and_eq_true, Bool.and_eq_true,
    decide_eq_true_iff, decide_eq_true_iff, decide_eq_true_iff, decide_eq_true_iff,
    decide_eq_true_iff, and_assoc, and_assoc, and_assoc, and_assoc]

theorem processNewpkt_of_isIngress (h : isIngress iface (recvBuf wire) = true) :
    processNewpkt linked iface tables wire =
      processIngress0 linked tables (recvBuf wire) (recvBytes wire).length := by
  obtain ⟨hpass, htype, hsrc, hdst, hproto, hsource⟩ := isIngress_iff.mp h
  obtain ⟨hmac, hbroadcast, hignored, hlldp⟩ := passesFilters_iff.mp hpass
  rw [recvBuf] at *
  simp [processNewpkt, handleIpv4pkt, sizeofEthhdr, hmac, hbroadcast, hignored, hlldp, htype, hsrc,
    hdst, hproto, hsource]

theorem processNewpkt_of_isGreArrival (h : isGreArrival iface (recvBuf wire) = true) :
    processNewpkt linked iface tables wire = do
      let sent ← processWispr0 iface tables (recvBuf wire) (recvBytes wire).length
      return (tables, sent) := by
  obtain ⟨hpass, htype, hsrc, hdst, hproto, key, hparse, hmode⟩ := isGreArrival_iff.mp h
  obtain ⟨hmac, hbroadcast, hignored, hlldp⟩ := passesFilters_iff.mp hpass
  rw [recvBuf] at *
  simp [processNewpkt, handleIpv4pkt, sizeofEthhdr, hmac, hbroadcast, hignored, hlldp, htype, hsrc,
    hdst, hproto, hparse, hmode]

/-- A node ignores frames to its own address. -/
theorem processNewpkt_of_own (h : destIs (recvBuf wire) iface.mac = true) :
    processNewpkt linked iface tables wire = .ok (tables, []) := by
  rw [recvBuf] at h
  simp [processNewpkt, h]

theorem checkDstIpHost_eq (tables : Tables) (key : UInt32) :
    checkDstIpHost tables key = -1 ↔ tables.hostIp key = false := by
  unfold checkDstIpHost
  cases tables.hostIp key with
  | false => simp
  | true => simp

/-- The session of a pair of addresses; one that does not exist is created zeroed. -/
def sessionOf (tables : Tables) (key : SessionKey) : WisprIngressKey :=
  (tables.wispringress key).getD ⟨0, 0, 0⟩

/-- The tables after a packet to an unknown destination: its source is known, its session
counted. -/
def learn (tables : Tables) (key : SessionKey) : Tables where
  wispringress := Function.update tables.wispringress key (some (nextKey (sessionOf tables key)))
  hostIp := Function.update tables.hostIp key.srcIp true

/-- The frame teaches the node its source: it enters here for a destination not known here. -/
def teaches (iface : Iface) (tables : Tables) (wire : Frame) : Bool :=
  isIngress iface (recvBuf wire) && !tables.hostIp (ingressKey (recvBuf wire)).dstIp

theorem teaches_iff : teaches iface tables wire = true ↔
    isIngress iface (recvBuf wire) = true ∧
      tables.hostIp (ingressKey (recvBuf wire)).dstIp = false := by
  rw [teaches, Bool.and_eq_true, Bool.not_eq_true']

theorem processIngress0_of_unknown {buf : Buf} {numbytes : ℤ}
    (hunknown : tables.hostIp (ingressKey buf).dstIp = false) :
    processIngress0 linked tables buf numbytes = do
      let sent ← sendPacketWithkey linked buf numbytes (nextKey (sessionOf tables (ingressKey buf)))
      return (learn tables (ingressKey buf), sent) := by
  unfold processIngress0
  rw [if_pos ((checkDstIpHost_eq _ _).mpr hunknown)]
  cases hsession : tables.wispringress (ingressKey buf) with
  | some session => simp [getOrAddIngresssession, addSrcIpHost, hsession, sessionOf, learn,
      Tables.setIngress]
  | none => simp [getOrAddIngresssession, addSrcIpHost, hsession, sessionOf, learn,
      Tables.setIngress]

theorem processIngress0_of_known {buf : Buf} {numbytes : ℤ}
    (hknown : tables.hostIp (ingressKey buf).dstIp = true) :
    processIngress0 linked tables buf numbytes = sendPacketRaw tables buf numbytes := by
  have hcheck : ¬ checkDstIpHost tables (ingressKey buf).dstIp = -1 := by
    rw [checkDstIpHost_eq, hknown]
    simp
  unfold processIngress0
  rw [if_neg hcheck]
  rfl

theorem sendPacketRaw_tables {buf : Buf} {numbytes : ℤ}
    (h : sendPacketRaw tables buf numbytes = .ok (next, sent)) : next = tables := by
  obtain ⟨frame, -, h⟩ := bind_eq_ok.mp h
  cases h
  rfl

/-- Outside `process_ingress0`, `handle_ipv4pkt` changes no table. -/
theorem handleIpv4pkt_tables {buf : Buf} {numbytes : ℤ}
    (hother : ¬ (buf.load32 26 ≠ loopback ∧ buf.load32 30 ≠ loopback ∧ ipProtocol buf = 6 ∧
      buf.load32 26 ∈ ingressSources))
    (h : handleIpv4pkt linked iface tables buf numbytes = .ok (next, sent)) : next = tables := by
  unfold handleIpv4pkt at h
  split at h
  · cases h; rfl
  rename_i hloopback
  split at h
  · cases h; rfl
  split at h
  · cases h; rfl
  split at h
  · split at h
    · cases h; rfl
    · exact sendPacketRaw_tables h
  split at h
  · exact sendPacketRaw_tables h
  split at h
  · rename_i hproto
    split at h
    · rename_i hsource
      exact absurd ⟨fun hsrc ↦ hloopback (.inl hsrc), fun hdst ↦ hloopback (.inr hdst), hproto,
        hsource⟩ hother
    · cases h; rfl
  split at h
  · split at h
    · cases h; rfl
    · split at h
      · obtain ⟨frames, -, h⟩ := bind_eq_ok.mp h
        cases h
        rfl
      · cases h; rfl
  · exact sendPacketRaw_tables h

/-- A node learns from the frames that teach it and from no others. -/
theorem processNewpkt_tables (h : processNewpkt linked iface tables wire = .ok (next, sent)) :
    next = if teaches iface tables wire then learn tables (ingressKey (recvBuf wire))
      else tables := by
  by_cases hingress : isIngress iface (recvBuf wire) = true
  · rw [processNewpkt_of_isIngress hingress] at h
    cases hknown : tables.hostIp (ingressKey (recvBuf wire)).dstIp with
    | false =>
      rw [if_pos (teaches_iff.mpr ⟨hingress, hknown⟩)]
      rw [processIngress0_of_unknown hknown] at h
      obtain ⟨frames, -, h⟩ := bind_eq_ok.mp h
      cases h
      rfl
    | true =>
      rw [processIngress0_of_known hknown] at h
      rw [teaches, hknown, Bool.not_true, Bool.and_false, if_neg Bool.false_ne_true]
      exact sendPacketRaw_tables h
  · have hquiet : teaches iface tables wire = false := by
      rw [teaches, Bool.eq_false_iff.mpr hingress, Bool.false_and]
    rw [hquiet, if_neg Bool.false_ne_true]
    simp only [processNewpkt] at h
    split at h
    · cases h; rfl
    rename_i hmac
    split at h
    · cases h; rfl
    rename_i hbroadcast
    split at h
    · cases h; rfl
    rename_i hignored
    split at h
    · cases h; rfl
    rename_i hlldp
    split at h
    · obtain ⟨frames, -, h⟩ := bind_eq_ok.mp h
      cases h
      rfl
    split at h
    · cases h; rfl
    split at h
    · rename_i htype
      have hpass : passesFilters iface (recvBuf wire) = true :=
        passesFilters_iff.mpr (by simp [recvBuf, hmac, hbroadcast, hignored, hlldp])
      exact handleIpv4pkt_tables (fun hrest ↦ hingress (isIngress_iff.mpr ⟨hpass, htype, hrest⟩)) h
    split at h
    · exact sendPacketRaw_tables h
    · cases h; rfl

/-- All sessions are of mode 0, as those of a table that starts empty. -/
def Striping (tables : Tables) : Prop :=
  ∀ key session, tables.wispringress key = some session → session.mode = 0

theorem nextKey_mode (key : WisprIngressKey) : (nextKey key).mode = key.mode := by
  simp only [nextKey]
  split <;> rfl

theorem Striping.mode_sessionOf (h : Striping tables) (key : SessionKey) :
    (sessionOf tables key).mode = 0 := by
  unfold sessionOf
  cases hsession : tables.wispringress key with
  | none => rfl
  | some session => exact h key session hsession

theorem Striping.after_learn (h : Striping tables) (key : SessionKey) :
    Striping (learn tables key) := by
  intro other session hother
  simp only [learn, Function.update_apply] at hother
  split at hother
  · cases hother
    rw [nextKey_mode]
    exact h.mode_sessionOf key
  · exact h other session hother

theorem Striping.after_newpkt (h : Striping tables)
    (hstep : processNewpkt linked iface tables wire = .ok (next, sent)) : Striping next := by
  rw [processNewpkt_tables hstep]
  split
  · exact h.after_learn _
  · exact h

end Wispr.Gre.Daemon
