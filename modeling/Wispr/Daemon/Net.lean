import Wispr.Foundation.Run
import Wispr.Daemon.Proto

/-!
# Packet dispatch of the VLAN daemon

`process_newpkt` zeroes its buffer, receives one frame into it, drops frames by destination MAC and
hands the rest on by ethertype; `handle_ipv4pkt` filters again and hands on by IP protocol. One
call is one step of the daemon over its hash tables. A step either advances an ingress session,
passes through the dedupe table, or leaves both alone; `processNewpkt_cases` states this once and
every invariant of a run is derived from it.
-/

open Wispr.Foundation.ByteBuffer Wispr.Foundation.Run

namespace Wispr.Daemon.Net

open Proto

/-- Addresses fixed when the sockets are opened. -/
structure Iface where
  mac : Fin 6 → UInt8
  gateWayIporMAC : Fin 6 → UInt8

/-- What `recvfrom` delivers into the zeroed buffer. -/
inductive Recv where
  | failed
  | frame (bytes : Frame) (fits : bytes.length ≤ packetSize)

def Recv.numbytes : Recv → ℤ
  | failed => -1
  | frame bytes _ => bytes.length

def Recv.buf : Recv → Buf
  | failed => .received packetSize []
  | frame bytes _ => .received packetSize bytes

/-- One call of `process_newpkt`: the clock it would read and what it receives. -/
structure Input where
  now : Timeval
  recv : Recv

variable {build : Build}

/-- Comparison of `h_dest` with a fixed address. -/
def destIs (buf : Buf) (mac : Fin 6 → UInt8) : Bool :=
  decide (∀ index : Fin 6, buf.byte index = mac index)

def broadcastMac : Fin 6 → UInt8 := ![0xff, 0xff, 0xff, 0xff, 0xff, 0xff]
def ignoredMac : Fin 6 → UInt8 := ![0x00, 0x0C, 0x29, 0xAE, 0x32, 0x68]
def lldpMac : Fin 6 → UInt8 := ![0x01, 0x80, 0xC2, 0x00, 0x00, 0x0E]

/-- The address whose `inet_ntop` rendering is "127.0.0.1", as loaded by a little-endian host. -/
def loopback : UInt32 := 0x0100007F

/-- `h_proto` in host order. -/
def etherType (buf : Buf) : UInt16 := ntohs (buf.load16 12)

/-- The IP protocol byte. -/
def ipProtocol (buf : Buf) : UInt8 := buf.byte (sizeofEthhdr + 9)

/-- The bit-fields of `wispr_ingress_key` at one offset: the index fills twelve bits, the mode the
upper nibble of the second byte, the bitmask the next two bytes. -/
structure WisprIngressKey where
  index : ℕ
  mode : ℕ
  bitmask : ℕ
  deriving DecidableEq, Repr

def wisprIngressKeyAt (buf : Buf) (offset : ℕ) : WisprIngressKey where
  index := (buf.load16 offset).toNat % 4096
  mode := (buf.load16 offset).toNat / 4096
  bitmask := (buf.load16 (offset + 2)).toNat

/-- `parse_wispr_pkt`: the offset of the key, or null. -/
def parseWisprPkt (buf : Buf) : Option ℕ :=
  let iplength := (buf.byte sizeofEthhdr).toNat % 16
  let greh := sizeofEthhdr + iplength * 4
  if ntohs (buf.load16 greh) = 0x2000 ∧ ntohs (buf.load16 (greh + 2)) = 0x0000 then some (greh + 4)
  else none

/-- `process_wispr0`: remove the GRE header and key when the destination is behind this node. -/
def processWispr0 (iface : Iface) (tables : Tables build) (buf : Buf) (numbytes : ℤ) :
    Except Fault (List Frame) :=
  if tables.hostIp (buf.load32 (sizeofEthhdr + 16)) || destIs buf iface.gateWayIporMAC then do
    let remLen := toInt (numbytes - sizeofIphdr - sizeofEthhdr - sizeofWisprPacket)
    let remBuf ← buf.load (sizeofIphdr + sizeofEthhdr + sizeofWisprPacket) (toSize remLen)
    let buf ← buf.fill (sizeofEthhdr + sizeofIphdr) (toSize (remLen + sizeofWisprPacket)) 0
    let buf ← buf.store (sizeofEthhdr + sizeofIphdr) remBuf
    let totLen := ntohs (buf.load16 (sizeofEthhdr + 2)) - 8
    let buf := buf.store16 (sizeofEthhdr + 2) (htons totLen)
    let buf := buf.setByte (sizeofEthhdr + 9) 6
    let sent ← buf.load 0 (toSize (numbytes - sizeofWisprPacket))
    return [sent]
  else do
    let sent ← buf.load 0 (toSize numbytes)
    return [sent]

/-- `handle_ipv4pkt`. ICMP and UDP fall through to the TCP case. -/
def handleIpv4pkt (iface : Iface) (tables : Tables build) (buf : Buf) (numbytes : ℤ) :
    Except Fault (Tables build × List Frame) :=
  if buf.load32 (sizeofEthhdr + 12) = loopback ∨ buf.load32 (sizeofEthhdr + 16) = loopback then
    .ok (tables, [])
  else if destIs buf iface.mac then .ok (tables, [])
  else if destIs buf broadcastMac then .ok (tables, [])
  else if ipProtocol buf = 1 ∨ ipProtocol buf = 17 ∨ ipProtocol buf = 6 then
    processIngress0 tables buf numbytes
  else if ipProtocol buf = 47 then
    match parseWisprPkt buf with
    | none => .ok (tables, [])
    | some key =>
        if (wisprIngressKeyAt buf key).mode = 0 then do
          let sent ← processWispr0 iface tables buf numbytes
          return (tables, sent)
        else .ok (tables, [])
  else do
    let sent ← buf.load 0 (toSize numbytes)
    return (tables, [sent])

/-- `process_newpkt`. IPv6, ARP and unknown ethertypes have no handler. -/
def processNewpkt (iface : Iface) (tables : Tables build) (input : Input) :
    Except Fault (Tables build × List Frame) :=
  let buf := input.recv.buf
  let numbytes := input.recv.numbytes
  if destIs buf iface.mac then .ok (tables, [])
  else if destIs buf broadcastMac then .ok (tables, [])
  else if destIs buf ignoredMac then .ok (tables, [])
  else if destIs buf lldpMac then .ok (tables, [])
  else if etherType buf = 0x8100 then processWispr0Vlan tables buf numbytes input.now
  else if etherType buf = 0x86dd then .ok (tables, [])
  else if etherType buf = 0x0800 then handleIpv4pkt iface tables buf numbytes
  else .ok (tables, [])

/-! ## Which handler a frame reaches -/

/-- The destination filters of `process_newpkt`. -/
def passesFilters (iface : Iface) (buf : Buf) : Bool :=
  !destIs buf iface.mac && !destIs buf broadcastMac && !destIs buf ignoredMac && !destIs buf lldpMac

/-- The frame is handed to `process_wispr0_vlan`. -/
def isVlanArrival (iface : Iface) (buf : Buf) : Bool :=
  passesFilters iface buf && decide (etherType buf = 0x8100)

/-- The frame is handed to `process_ingress0`. -/
def isIngress (iface : Iface) (buf : Buf) : Bool :=
  passesFilters iface buf && decide (etherType buf = 0x0800) &&
    decide (buf.load32 (sizeofEthhdr + 12) ≠ loopback) &&
    decide (buf.load32 (sizeofEthhdr + 16) ≠ loopback) &&
    decide (ipProtocol buf = 1 ∨ ipProtocol buf = 17 ∨ ipProtocol buf = 6)

/-- The frame is handed to `process_wispr0`. -/
def isGreArrival (iface : Iface) (buf : Buf) : Bool :=
  passesFilters iface buf && decide (etherType buf = 0x0800) &&
    decide (buf.load32 (sizeofEthhdr + 12) ≠ loopback) &&
    decide (buf.load32 (sizeofEthhdr + 16) ≠ loopback) && decide (ipProtocol buf = 47) &&
    (parseWisprPkt buf).any fun key ↦ decide ((wisprIngressKeyAt buf key).mode = 0)

/-- `process_wispr0` takes the node for the egress of the frame. -/
def isEgressNode (iface : Iface) (tables : Tables build) (buf : Buf) : Bool :=
  tables.hostIp (buf.load32 (sizeofEthhdr + 16)) || destIs buf iface.gateWayIporMAC

theorem passesFilters_iff {iface : Iface} {buf : Buf} : passesFilters iface buf = true ↔
    destIs buf iface.mac = false ∧ destIs buf broadcastMac = false ∧
      destIs buf ignoredMac = false ∧ destIs buf lldpMac = false := by
  simp only [passesFilters, Bool.and_eq_true, Bool.not_eq_true', and_assoc]

theorem isGreArrival_iff {iface : Iface} {buf : Buf} : isGreArrival iface buf = true ↔
    passesFilters iface buf = true ∧ etherType buf = 0x0800 ∧ buf.load32 26 ≠ loopback ∧
      buf.load32 30 ≠ loopback ∧ ipProtocol buf = 47 ∧
      ∃ key, parseWisprPkt buf = some key ∧ (wisprIngressKeyAt buf key).mode = 0 := by
  unfold isGreArrival
  rw [Bool.and_eq_true, Bool.and_eq_true, Bool.and_eq_true, Bool.and_eq_true, Bool.and_eq_true,
    decide_eq_true_iff, decide_eq_true_iff, decide_eq_true_iff, decide_eq_true_iff, and_assoc,
    and_assoc, and_assoc, and_assoc, Option.any_eq_true]
  simp only [decide_eq_true_iff]

/-- The flow whose counter the input advances, if any. -/
def ingressFlow (iface : Iface) (input : Input) : Option SessionKey :=
  if isIngress iface input.recv.buf then some (ingressKey input.recv.buf) else none

theorem ingressFlow_eq_some {iface : Iface} {input : Input} {key : SessionKey} :
    ingressFlow iface input = some key ↔
      isIngress iface input.recv.buf = true ∧ ingressKey input.recv.buf = key := by
  simp [ingressFlow]

theorem processNewpkt_of_isIngress {iface : Iface} (tables : Tables build) {input : Input}
    (h : isIngress iface input.recv.buf = true) :
    processNewpkt iface tables input =
      processIngress0 tables input.recv.buf input.recv.numbytes := by
  simp only [isIngress, passesFilters, Bool.and_eq_true, Bool.not_eq_true', decide_eq_true_eq] at h
  obtain ⟨⟨⟨⟨⟨⟨⟨hmac, hbroadcast⟩, hignored⟩, hlldp⟩, htype⟩, hsrc⟩, hdst⟩, hproto⟩ := h
  simp [processNewpkt, handleIpv4pkt, hmac, hbroadcast, hignored, hlldp, htype, hsrc, hdst, hproto]

theorem processNewpkt_of_isVlanArrival {iface : Iface} (tables : Tables build) {input : Input}
    (h : isVlanArrival iface input.recv.buf = true) :
    processNewpkt iface tables input =
      processWispr0Vlan tables input.recv.buf input.recv.numbytes input.now := by
  simp only [isVlanArrival, passesFilters, Bool.and_eq_true, Bool.not_eq_true',
    decide_eq_true_eq] at h
  obtain ⟨⟨⟨⟨hmac, hbroadcast⟩, hignored⟩, hlldp⟩, htype⟩ := h
  simp [processNewpkt, hmac, hbroadcast, hignored, hlldp, htype]

theorem handleIpv4pkt_tables {iface : Iface} {tables next : Tables build} {buf : Buf} {numbytes : ℤ}
    {sent : List Frame} (h : handleIpv4pkt iface tables buf numbytes = .ok (next, sent)) :
    next = tables ∨ (buf.load32 (sizeofEthhdr + 12) ≠ loopback ∧
      buf.load32 (sizeofEthhdr + 16) ≠ loopback ∧
      (ipProtocol buf = 1 ∨ ipProtocol buf = 17 ∨ ipProtocol buf = 6)) := by
  by_cases hloop : buf.load32 (sizeofEthhdr + 12) = loopback ∨
      buf.load32 (sizeofEthhdr + 16) = loopback
  · rw [handleIpv4pkt, if_pos hloop] at h
    cases h
    exact .inl rfl
  by_cases hproto : ipProtocol buf = 1 ∨ ipProtocol buf = 17 ∨ ipProtocol buf = 6
  · push Not at hloop
    exact .inr ⟨hloop.1, hloop.2, hproto⟩
  · left
    rw [handleIpv4pkt, if_neg hloop] at h
    simp only [hproto, if_false] at h
    split at h
    · cases h; rfl
    split at h
    · cases h; rfl
    split at h
    · split at h
      · cases h; rfl
      · split at h
        · cases hsent : processWispr0 iface tables buf numbytes with
          | error fault => simp [hsent, bind, Except.bind] at h
          | ok frames =>
            simp only [hsent, bind, Except.bind, pure, Except.pure, Except.ok.injEq,
              Prod.mk.injEq] at h
            exact h.1.symm
        · cases h; rfl
    · cases hsent : buf.load 0 (toSize numbytes) with
      | error fault => simp [hsent, bind, Except.bind] at h
      | ok frame =>
        simp only [hsent, bind, Except.bind, pure, Except.pure, Except.ok.injEq,
          Prod.mk.injEq] at h
        exact h.1.symm

/-- Everything one call of `process_newpkt` can do to the tables. -/
theorem processNewpkt_cases {iface : Iface} {tables next : Tables build} {input : Input}
    {sent : List Frame} (h : processNewpkt iface tables input = .ok (next, sent)) :
    (isIngress iface input.recv.buf = true ∧
        processIngress0 tables input.recv.buf input.recv.numbytes = .ok (next, sent)) ∨
      (isVlanArrival iface input.recv.buf = true ∧
        processWispr0Vlan tables input.recv.buf input.recv.numbytes input.now = .ok (next, sent)) ∨
      (isIngress iface input.recv.buf = false ∧ isVlanArrival iface input.recv.buf = false ∧
        next = tables) := by
  by_cases hingress : isIngress iface input.recv.buf = true
  · rw [processNewpkt_of_isIngress tables hingress] at h
    exact .inl ⟨hingress, h⟩
  by_cases hvlan : isVlanArrival iface input.recv.buf = true
  · rw [processNewpkt_of_isVlanArrival tables hvlan] at h
    exact .inr (.inl ⟨hvlan, h⟩)
  refine .inr (.inr ⟨by simpa using hingress, by simpa using hvlan, ?_⟩)
  simp only [processNewpkt] at h
  split at h
  · cases h; rfl
  split at h
  · cases h; rfl
  split at h
  · cases h; rfl
  split at h
  · cases h; rfl
  rename_i hmac hbroadcast hignored hlldp
  have hpass : passesFilters iface input.recv.buf = true :=
    passesFilters_iff.mpr (by simp [hmac, hbroadcast, hignored, hlldp])
  split at h
  · rename_i htype
    exact absurd (by simp [isVlanArrival, hpass, htype]) hvlan
  split at h
  · cases h; rfl
  split at h
  · rename_i htype
    rcases handleIpv4pkt_tables h with hsame | ⟨hsrc, hdst, hproto⟩
    · exact hsame
    · exact absurd (by simp [isIngress, hpass, htype, hsrc, hdst, hproto]) hingress
  · cases h; rfl

/-- `process_wispr0` stays inside the buffer for every frame that holds the headers it removes. -/
theorem processWispr0_completes (iface : Iface) (tables : Tables build) (buf : Buf) {length : ℕ}
    (hlow : isEgressNode iface tables buf = true → 42 ≤ length) (hhigh : length ≤ packetSize)
    (hsize : buf.size = packetSize) :
    ∃ sent, processWispr0 iface tables buf length = .ok sent := by
  have hpacketSize : packetSize = 66000 := rfl
  by_cases hegress : isEgressNode iface tables buf = true
  swap
  · rw [isEgressNode] at hegress
    rw [processWispr0, if_neg hegress, toSize_of_bounds (by omega) (by omega),
      Buf.load_eq_ok (by omega)]
    exact ⟨_, rfl⟩
  have hlow := hlow hegress
  have hremLen : toInt (length - (20 : ℕ) - (14 : ℕ) - (8 : ℕ)) = length - 42 := by
    rw [toInt_of_bounds (by omega) (by omega)]
    omega
  have hcopied : toSize (length - 42 : ℤ) = length - 42 := by
    rw [toSize_of_bounds (by omega) (by omega)]
    omega
  have hcleared : toSize ((length - 42 : ℤ) + (8 : ℕ)) = length - 34 := by
    rw [toSize_of_bounds (by omega) (by omega)]
    omega
  have hsent : toSize (length - (8 : ℕ)) = length - 8 := by
    rw [toSize_of_bounds (by omega) (by omega)]
    omega
  rw [isEgressNode] at hegress
  rw [processWispr0, if_pos hegress]
  simp only [sizeofEthhdr, sizeofIphdr, sizeofWisprPacket, hremLen, hcopied, hcleared, hsent]
  rw [Buf.load_eq_ok (by omega)]
  obtain ⟨cleared, hfill⟩ := Buf.fill_ok buf (14 + 20) (length - 34) 0 (by omega)
  have hclearedSize : cleared.size = packetSize := (Buf.fill_size hfill).trans hsize
  simp only [bind, Except.bind, hfill]
  rw [Buf.store_eq_ok (by simp only [Buf.slice_length, hclearedSize]; omega)]
  simp only
  rw [Buf.load_eq_ok (by
    simp only [Buf.setByte_size, Buf.store16_size, Buf.overwrite_size, hclearedSize]
    omega)]
  exact ⟨_, rfl⟩

/-- Lengths and tags for which the handler a frame reaches stays inside its arrays. -/
structure WellFormed (build : Build) (iface : Iface) (input : Input) : Prop where
  vlan : isVlanArrival iface input.recv.buf = true → 18 ≤ input.recv.numbytes ∧
    groupId (receivedTag input.recv.buf) < build.numberOfGroups ∧
    packetNumber (receivedTag input.recv.buf) ≤ build.numberOfPaths
  ingress : isIngress iface input.recv.buf = true →
    14 ≤ input.recv.numbytes ∧ input.recv.numbytes ≤ 65992
  gre : etherType input.recv.buf = 0x0800 → ipProtocol input.recv.buf = 47 →
    42 ≤ input.recv.numbytes

/-- A receive error leaves the zeroed buffer, which has no handler. -/
theorem etherType_failed : etherType Recv.failed.buf = 0 := by decide

/-- IPv4 frames other than accepted ones never fault when they hold the headers GRE removes. -/
theorem handleIpv4pkt_completes {iface : Iface} (tables : Tables build) {bytes : Frame}
    (fits : bytes.length ≤ packetSize)
    (hproto : ¬ (ipProtocol (.received packetSize bytes) = 1 ∨
      ipProtocol (.received packetSize bytes) = 17 ∨ ipProtocol (.received packetSize bytes) = 6))
    (hgre : ipProtocol (.received packetSize bytes) = 47 →
      (parseWisprPkt (.received packetSize bytes)).any
        (fun key ↦ decide ((wisprIngressKeyAt (.received packetSize bytes) key).mode = 0)) = true →
      isEgressNode iface tables (.received packetSize bytes) = true → 42 ≤ bytes.length) :
    ∃ next sent, handleIpv4pkt iface tables (.received packetSize bytes) bytes.length =
      .ok (next, sent) := by
  have hpacketSize : packetSize = 66000 := rfl
  unfold handleIpv4pkt
  split
  · exact ⟨_, _, rfl⟩
  split
  · exact ⟨_, _, rfl⟩
  split
  · exact ⟨_, _, rfl⟩
  split
  · rename_i hprotocol
    split
    · exact ⟨_, _, rfl⟩
    rename_i key hkey
    split
    · rename_i hmode
      obtain ⟨sent, hsent⟩ := processWispr0_completes iface tables
        (.received packetSize bytes) (hgre hprotocol (by simp [hkey, hmode])) fits rfl
      rw [hsent]
      exact ⟨_, _, rfl⟩
    · exact ⟨_, _, rfl⟩
  · rw [toSize_of_bounds (by omega) (by omega), Buf.load_eq_ok (by
      simp only [Buf.received_size]
      omega)]
    exact ⟨_, _, rfl⟩

/-- Frames for neither table handler never fault when GRE frames hold the headers to remove. -/
theorem processNewpkt_completes_of_other {iface : Iface} (tables : Tables build) {input : Input}
    (hvlan : ¬ isVlanArrival iface input.recv.buf = true)
    (hingress : ¬ isIngress iface input.recv.buf = true)
    (hgre : isGreArrival iface input.recv.buf = true →
      isEgressNode iface tables input.recv.buf = true → 42 ≤ input.recv.numbytes) :
    ∃ next sent, processNewpkt iface tables input = .ok (next, sent) := by
  simp only [processNewpkt]
  split
  · exact ⟨_, _, rfl⟩
  split
  · exact ⟨_, _, rfl⟩
  split
  · exact ⟨_, _, rfl⟩
  split
  · exact ⟨_, _, rfl⟩
  rename_i hmac hbroadcast hignored hlldp
  have hpass : passesFilters iface input.recv.buf = true :=
    passesFilters_iff.mpr (by simp [hmac, hbroadcast, hignored, hlldp])
  split
  · rename_i htype
    exact absurd (by simp [isVlanArrival, hpass, htype]) hvlan
  split
  · exact ⟨_, _, rfl⟩
  split
  · rename_i htype
    cases hrecv : input.recv with
    | failed => simp [hrecv, etherType_failed] at htype
    | frame bytes fits =>
      simp only [hrecv, Recv.buf, Recv.numbytes, Nat.ofNat_le_cast] at htype hpass hingress hgre
      by_cases hloop : (Buf.received packetSize bytes).load32 (sizeofEthhdr + 12) = loopback ∨
          (Buf.received packetSize bytes).load32 (sizeofEthhdr + 16) = loopback
      · exact ⟨tables, [], by simp [handleIpv4pkt, Recv.buf, hloop]⟩
      · push Not at hloop
        refine handleIpv4pkt_completes tables fits ?_ ?_
        · intro hproto
          exact hingress (by simp [isIngress, hpass, htype, hloop, hproto])
        · intro hproto hkey
          apply hgre
          simp only [isGreArrival, hpass, htype, hproto, hkey, hloop.1, hloop.2, ne_eq,
            not_false_eq_true, decide_true, Bool.and_self]
  · exact ⟨_, _, rfl⟩

end Wispr.Daemon.Net
