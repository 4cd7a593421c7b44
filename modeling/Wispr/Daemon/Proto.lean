import Wispr.Foundation.ByteBuffer

/-!
# Packet processing of the VLAN daemon

The striping and mirroring core of `WISPR2Vlan/src/wispr_proto.c`. An ingress packet advances the
tag of its (source, destination) session and leaves twice, once with the session tag and once with
the mirror bit, both copies carrying the tag in an outer and an inner 802.1Q header. The egress
reads the inner header, drops a copy that arrives too soon after the last forwarded one of its
slot, and otherwise removes the header in place.

The buffer is the `PACKET_SIZE` array of `process_newpkt`. Header fields sit at fixed small offsets
of that array; every `memcpy`, `memset` and `sendto` range is checked. uthash is a map on the
eight-byte key. Log calls, the log counters, `mtu` and the parity packet store influence no
decision and are left out.
-/

open Wispr.Foundation.ByteBuffer

namespace Wispr.Daemon.Proto

/-- The constants of `wispr_proto.h`. Group and packet number occupy one nibble each of the tag. -/
structure Build where
  numberOfPaths : ℕ
  numberOfGroups : ℕ
  paths_pos : 1 ≤ numberOfPaths
  paths_le : numberOfPaths ≤ 15
  groups_pos : 1 ≤ numberOfGroups
  groups_le : numberOfGroups ≤ 15

/-- `NUMBEROFPATHS 5`, `NUMBEROFGROUPS 2`. -/
def wisprBuild : Build where
  numberOfPaths := 5
  numberOfGroups := 2
  paths_pos := by decide
  paths_le := by decide
  groups_pos := by decide
  groups_le := by decide

/-- `PACKET_SIZE` as `process_newpkt` sees it: the later of the two header definitions. -/
def packetSize : ℕ := 66000

/-- `TIMEOUT`, in microseconds. -/
def timeout : ℤ := 600

def ethP8021Q : UInt16 := 0x8100

abbrev sizeofEthhdr : ℕ := 14
abbrev sizeofVlan : ℕ := 4
abbrev sizeofIphdr : ℕ := 20
abbrev sizeofWisprPacket : ℕ := 8

/-- Frames as byte strings, the argument of `sendto`. -/
abbrev Frame := List UInt8

structure Timeval where
  sec : ℤ
  usec : ℤ
  deriving DecidableEq, Repr

/-- Microseconds since the epoch. -/
def Timeval.micros (tv : Timeval) : ℤ := tv.sec * 1000000 + tv.usec

/-- `time_diff`, in exact integers. -/
def timeDiff (x y : Timeval) : ℤ :=
  let xMs := x.sec * 1000000 + x.usec
  let yMs := y.sec * 1000000 + y.usec
  yMs - xMs

theorem timeDiff_eq (x y : Timeval) : timeDiff x y = y.micros - x.micros := rfl

/-- `wispr_key_t`. -/
structure SessionKey where
  srcIp : UInt32
  dstIp : UInt32
  deriving DecidableEq, Repr

/-- `wisprmirror_ht`: one timestamp per group and packet number; packet numbers start at one. -/
structure MirrorSession (build : Build) where
  tv : Fin build.numberOfGroups → Fin (build.numberOfPaths + 1) → Timeval

/-- `wispringress_ht_vlan`. -/
structure IngressSession where
  vlanId : UInt16
  parityPacketLength : UInt16
  deriving DecidableEq, Repr

/-- The global hash tables. -/
structure Tables (build : Build) where
  wispringress : SessionKey → Option IngressSession
  hostIp : UInt32 → Bool
  wisprmirt : SessionKey → Option (MirrorSession build)

variable {build : Build}

def initWisprtables (build : Build) : Tables build where
  wispringress _ := none
  hostIp _ := false
  wisprmirt _ := none

/-- The `memset` of a new ingress session. -/
def IngressSession.zero : IngressSession := ⟨0, 0⟩

/-- The `memset` of a new mirror session. -/
def MirrorSession.zero (build : Build) : MirrorSession build := ⟨fun _ _ ↦ ⟨0, 0⟩⟩

def Tables.setIngress (tables : Tables build) (key : SessionKey) (session : IngressSession) :
    Tables build :=
  { tables with wispringress := Function.update tables.wispringress key (some session) }

def Tables.setMirror (tables : Tables build) (key : SessionKey) (session : MirrorSession build) :
    Tables build :=
  { tables with wisprmirt := Function.update tables.wisprmirt key (some session) }

def getOrAddIngresssession (tables : Tables build) (key : SessionKey) :
    Tables build × IngressSession :=
  match tables.wispringress key with
  | some session => (tables, session)
  | none => (tables.setIngress key .zero, .zero)

def getOrAddMirrorSession (tables : Tables build) (key : SessionKey) :
    Tables build × MirrorSession build :=
  match tables.wisprmirt key with
  | some session => (tables, session)
  | none => (tables.setMirror key (.zero build), .zero build)

def packetNumber (vlanId : UInt16) : ℕ := (vlanId &&& 0x000F).toNat

def groupId (vlanId : UInt16) : ℕ := ((vlanId &&& 0x00F0) >>> 4).toNat

def wisprMode (vlanId : UInt16) : ℕ := ((vlanId &&& 0x0F00) >>> 8).toNat

/-- The tag update of `process_ingress0`. -/
def nextVlanId (build : Build) (vlanId : UInt16) : UInt16 :=
  if packetNumber vlanId = build.numberOfPaths then
    let vlanId := vlanId &&& 0xFFF0
    let vlanId := vlanId + 1
    let vlanId := vlanId + 0x10
    if groupId vlanId = build.numberOfGroups then vlanId &&& 0xFF0F else vlanId
  else vlanId + 1

/-- The stores through `vlan` and `vlan2`: outer and inner tag, then the original ethertype. -/
def writeTags (buf : Buf) (vlanId previousProtocol : UInt16) : Buf :=
  let buf := buf.store16 sizeofEthhdr (htons vlanId)
  let buf := buf.store16 (sizeofEthhdr + 2) (htons ethP8021Q)
  let buf := buf.store16 (sizeofEthhdr + sizeofVlan) (htons vlanId)
  buf.store16 (sizeofEthhdr + sizeofVlan + 2) (htons previousProtocol)

/-- Both tags of the second copy, in the buffer that already holds the first one. -/
def writeMirrorTags (buf : Buf) (vlanId : UInt16) : Buf :=
  let buf := buf.store16 sizeofEthhdr (htons (vlanId ||| 0x0100))
  buf.store16 (sizeofEthhdr + sizeofVlan) (htons (vlanId ||| 0x0100))

/-- `send_packet_withkey`: the two frames handed to `sendto`, original first. -/
def sendPacketWithkey (buf : Buf) (numbytes : ℤ) (vlanId : UInt16) : Except Fault (List Frame) := do
  let previousProtocol := ntohs (buf.load16 12)
  let buf := buf.store16 12 (htons ethP8021Q)
  let iplHength := (buf.byte sizeofEthhdr).toNat % 16 * 4
  let _ipHeader ← buf.load sizeofEthhdr iplHength
  let remLen := toInt (numbytes - sizeofEthhdr)
  let remBuf ← buf.load sizeofEthhdr (toSize remLen)
  let buf := writeTags buf vlanId previousProtocol
  let buf ← buf.store (sizeofEthhdr + sizeofVlan + sizeofVlan) remBuf
  let original ← buf.load 0 (toSize (numbytes + sizeofVlan + sizeofVlan))
  let buf := writeMirrorTags buf vlanId
  let mirror ← buf.load 0 (toSize (numbytes + sizeofVlan + sizeofVlan))
  return [original, mirror]

/-- The session key of an untagged IPv4 frame. -/
def ingressKey (buf : Buf) : SessionKey :=
  ⟨buf.load32 (sizeofEthhdr + 12), buf.load32 (sizeofEthhdr + 16)⟩

/-- `process_ingress0`. The session returned by the table is never null, so the branch that would
reset it is dead. -/
def processIngress0 (tables : Tables build) (buf : Buf) (numbytes : ℤ) :
    Except Fault (Tables build × List Frame) := do
  let key := ingressKey buf
  let (tables, tmp) := getOrAddIngresssession tables key
  let tmp := { tmp with vlanId := nextVlanId build tmp.vlanId }
  let tables := tables.setIngress key tmp
  let sent ← sendPacketWithkey buf numbytes tmp.vlanId
  return (tables, sent)

/-- The session key behind one VLAN header. -/
def egressKey (buf : Buf) : SessionKey :=
  ⟨buf.load32 (sizeofEthhdr + sizeofVlan + 12), buf.load32 (sizeofEthhdr + sizeofVlan + 16)⟩

/-- The tag `process_wispr0_vlan` reads. -/
def receivedTag (buf : Buf) : UInt16 := ntohs (buf.load16 sizeofEthhdr)

/-- The in-place removal of the VLAN header, and the frame handed to `send_packet_raw`. -/
def removeVlan (buf : Buf) (numbytes : ℤ) (previousProtocol : UInt16) : Except Fault Frame := do
  let remLen := toInt (numbytes - sizeofEthhdr - sizeofVlan)
  let remBuf ← buf.load (sizeofEthhdr + sizeofVlan) (toSize remLen)
  let buf ← buf.fill sizeofEthhdr (toSize (remLen + sizeofVlan)) 0
  let buf ← buf.store sizeofEthhdr remBuf
  let buf := buf.store16 12 (htons previousProtocol)
  buf.load 0 (toSize (numbytes - sizeofVlan))

/-- `process_wispr0_vlan` at clock value `now`. An index outside `tv` has no defined behaviour in C
and is a fault here. -/
def processWispr0Vlan (tables : Tables build) (buf : Buf) (numbytes : ℤ) (now : Timeval) :
    Except Fault (Tables build × List Frame) :=
  let key := egressKey buf
  let vlanId := receivedTag buf
  let previousProtocol := ntohs (buf.load16 (sizeofEthhdr + 2))
  if wisprMode vlanId = 3 then .ok (tables, [])
  else
    let (tables, tmp) := getOrAddMirrorSession tables key
    if hslot : groupId vlanId < build.numberOfGroups ∧
        packetNumber vlanId < build.numberOfPaths + 1 then
      let group : Fin build.numberOfGroups := ⟨groupId vlanId, hslot.1⟩
      let packet : Fin (build.numberOfPaths + 1) := ⟨packetNumber vlanId, hslot.2⟩
      if timeDiff (tmp.tv group packet) now > timeout ∨ build.numberOfPaths = 1 then do
        let row := Function.update (tmp.tv group) packet now
        let tables := tables.setMirror key ⟨Function.update tmp.tv group row⟩
        let sent ← removeVlan buf numbytes previousProtocol
        return (tables, [sent])
      else .ok (tables, [])
    else .error .index

/-! ## What the two handlers do to the tables -/

/-- The tag stored for a flow; a flow without a session has the zeroed one. -/
def storedTag (tables : Tables build) (key : SessionKey) : UInt16 :=
  ((tables.wispringress key).map IngressSession.vlanId).getD 0

/-- The timestamp stored for a slot; a flow without a session has the zeroed ones. -/
def storedTime (tables : Tables build) (key : SessionKey) (group : Fin build.numberOfGroups)
    (packet : Fin (build.numberOfPaths + 1)) : Timeval :=
  ((tables.wisprmirt key).map fun session ↦ session.tv group packet).getD ⟨0, 0⟩

/-- Looking a session up, or adding the zeroed one, changes no stored timestamp. -/
theorem storedTime_getOrAddMirrorSession (tables : Tables build) (key other : SessionKey)
    (group : Fin build.numberOfGroups) (packet : Fin (build.numberOfPaths + 1)) :
    storedTime (getOrAddMirrorSession tables key).1 other group packet =
      storedTime tables other group packet := by
  unfold getOrAddMirrorSession
  cases hkey : tables.wisprmirt key with
  | some session => rfl
  | none =>
    by_cases hother : other = key
    · subst hother
      simp [storedTime, Tables.setMirror, MirrorSession.zero, hkey]
    · simp [storedTime, Tables.setMirror, hother]

theorem getOrAddMirrorSession_tv (tables : Tables build) (key : SessionKey)
    (group : Fin build.numberOfGroups) (packet : Fin (build.numberOfPaths + 1)) :
    (getOrAddMirrorSession tables key).2.tv group packet = storedTime tables key group packet := by
  unfold getOrAddMirrorSession storedTime
  cases tables.wisprmirt key with
  | some session => rfl
  | none => rfl

@[simp] theorem getOrAddMirrorSession_wispringress (tables : Tables build) (key : SessionKey) :
    (getOrAddMirrorSession tables key).1.wispringress = tables.wispringress := by
  unfold getOrAddMirrorSession
  cases tables.wisprmirt key with
  | some session => rfl
  | none => rfl

/-- One accepted packet advances the tag of its own flow, touches nothing else, and sends with the
new tag. -/
theorem processIngress0_ok {tables next : Tables build} {buf : Buf} {numbytes : ℤ}
    {sent : List Frame} (h : processIngress0 tables buf numbytes = .ok (next, sent)) :
    storedTag next (ingressKey buf) = nextVlanId build (storedTag tables (ingressKey buf)) ∧
      (∀ other, other ≠ ingressKey buf → next.wispringress other = tables.wispringress other) ∧
      next.wisprmirt = tables.wisprmirt ∧
      sendPacketWithkey buf numbytes (storedTag next (ingressKey buf)) = .ok sent := by
  simp only [processIngress0, bind_eq_ok, pure, Except.pure, Except.ok.injEq, Prod.mk.injEq] at h
  obtain ⟨frames, hsend, rfl, rfl⟩ := h
  cases hsession : tables.wispringress (ingressKey buf) with
  | some session =>
    simp only [getOrAddIngresssession, hsession] at hsend ⊢
    refine ⟨by simp [storedTag, Tables.setIngress, hsession], ?_, rfl, ?_⟩
    · intro other hother
      simp [Tables.setIngress, hother]
    · simpa [storedTag, Tables.setIngress] using hsend
  | none =>
    simp only [getOrAddIngresssession, hsession] at hsend ⊢
    refine ⟨by simp [storedTag, Tables.setIngress, hsession, IngressSession.zero], ?_, rfl, ?_⟩
    · intro other hother
      simp [Tables.setIngress, hother]
    · simpa [storedTag, Tables.setIngress] using hsend

/-- The tag an accepted packet is sent with decides alone whether the call completes. -/
theorem processIngress0_completes (tables : Tables build) {buf : Buf} {numbytes : ℤ}
    (hsend : ∀ tag, ∃ sent, sendPacketWithkey buf numbytes tag = .ok sent) :
    ∃ next sent, processIngress0 tables buf numbytes = .ok (next, sent) := by
  obtain ⟨sent, hsent⟩ := hsend
    (nextVlanId build (getOrAddIngresssession tables (ingressKey buf)).2.vlanId)
  simp [processIngress0, hsent, bind, Except.bind, pure, Except.pure]

/-- A parity frame is ignored. -/
theorem processWispr0Vlan_parity (tables : Tables build) {buf : Buf} (numbytes : ℤ) (now : Timeval)
    (hmode : wisprMode (receivedTag buf) = 3) :
    processWispr0Vlan tables buf numbytes now = .ok (tables, []) := by
  simp [processWispr0Vlan, hmode]

/-- Storing a timestamp moves exactly one slot. -/
theorem storedTime_setMirror (tables : Tables build) (key other : SessionKey)
    (group group' : Fin build.numberOfGroups) (packet packet' : Fin (build.numberOfPaths + 1))
    (now : Timeval) :
    storedTime ((getOrAddMirrorSession tables key).1.setMirror key
        ⟨Function.update (getOrAddMirrorSession tables key).2.tv group
          (Function.update ((getOrAddMirrorSession tables key).2.tv group) packet now)⟩)
        other group' packet' =
      if other = key ∧ group' = group ∧ packet' = packet then now
      else storedTime tables other group' packet' := by
  by_cases hother : other = key
  · subst hother
    by_cases hgroup : group' = group
    · subst hgroup
      by_cases hpacket : packet' = packet
      · subst hpacket
        simp [storedTime, Tables.setMirror]
      · simpa [storedTime, Tables.setMirror, hpacket] using
          getOrAddMirrorSession_tv tables other group' packet'
    · simpa [storedTime, Tables.setMirror, hgroup] using
        getOrAddMirrorSession_tv tables other group' packet'
  · have hlookup := storedTime_getOrAddMirrorSession tables key other group' packet'
    simpa [storedTime, Tables.setMirror, hother] using hlookup

/-- A striped or mirrored frame names a slot of its flow. It is forwarded and moves that slot's
timestamp, or it is dropped and moves none. -/
theorem processWispr0Vlan_ok {tables next : Tables build} {buf : Buf} {numbytes : ℤ} {now : Timeval}
    {sent : List Frame} (hmode : wisprMode (receivedTag buf) ≠ 3)
    (h : processWispr0Vlan tables buf numbytes now = .ok (next, sent)) :
    ∃ (hgroup : groupId (receivedTag buf) < build.numberOfGroups)
      (hpacket : packetNumber (receivedTag buf) < build.numberOfPaths + 1),
      next.wispringress = tables.wispringress ∧
      (((timeout < timeDiff (storedTime tables (egressKey buf) ⟨_, hgroup⟩ ⟨_, hpacket⟩) now ∨
            build.numberOfPaths = 1) ∧
          (∀ other group packet, storedTime next other group packet =
            if other = egressKey buf ∧ group = ⟨_, hgroup⟩ ∧ packet = ⟨_, hpacket⟩ then now
            else storedTime tables other group packet) ∧
          ∃ frame, removeVlan buf numbytes (ntohs (buf.load16 (sizeofEthhdr + 2))) = .ok frame ∧
            sent = [frame]) ∨
        (¬ (timeout < timeDiff (storedTime tables (egressKey buf) ⟨_, hgroup⟩ ⟨_, hpacket⟩) now ∨
            build.numberOfPaths = 1) ∧
          (∀ other group packet, storedTime next other group packet =
            storedTime tables other group packet) ∧ sent = [])) := by
  simp only [processWispr0Vlan, hmode, if_false] at h
  split at h
  · rename_i hslot
    refine ⟨hslot.1, hslot.2, ?_⟩
    rw [getOrAddMirrorSession_tv] at h
    split at h
    · rename_i hfresh
      simp only [bind_eq_ok, pure, Except.pure, Except.ok.injEq, Prod.mk.injEq] at h
      obtain ⟨frame, hframe, rfl, rfl⟩ := h
      refine ⟨by simp [Tables.setMirror], .inl ⟨hfresh, ?_, frame, hframe, rfl⟩⟩
      intro other group packet
      exact storedTime_setMirror tables _ other _ group _ packet now
    · rename_i hstale
      simp only [Except.ok.injEq, Prod.mk.injEq] at h
      obtain ⟨rfl, rfl⟩ := h
      exact ⟨getOrAddMirrorSession_wispringress tables _, .inr ⟨hstale,
        fun other group packet ↦ storedTime_getOrAddMirrorSession tables _ other group packet,
        rfl⟩⟩
  · cases h

/-- A well-formed tagged frame whose tag indexes the timestamp matrix is always processed. -/
theorem processWispr0Vlan_completes (tables : Tables build) (buf : Buf) {numbytes : ℤ}
    (now : Timeval) (hgroup : groupId (receivedTag buf) < build.numberOfGroups)
    (hpacket : packetNumber (receivedTag buf) < build.numberOfPaths + 1)
    (hremove : ∃ frame,
      removeVlan buf numbytes (ntohs (buf.load16 (sizeofEthhdr + 2))) = .ok frame) :
    ∃ next sent, processWispr0Vlan tables buf numbytes now = .ok (next, sent) := by
  obtain ⟨frame, hframe⟩ := hremove
  by_cases hmode : wisprMode (receivedTag buf) = 3
  · exact ⟨tables, [], processWispr0Vlan_parity tables numbytes now hmode⟩
  · simp only [processWispr0Vlan, hmode, if_false, hgroup, hpacket, and_self, dite_true, hframe]
    split
    · exact ⟨_, _, rfl⟩
    · exact ⟨_, _, rfl⟩

end Wispr.Daemon.Proto
