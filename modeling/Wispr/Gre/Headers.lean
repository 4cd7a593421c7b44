import Wispr.Gre.TwoNodes

/-!
# Where the GRE header is

`send_packet_withkey` inserts the GRE header and key at a fixed offset, `process_wispr0` removes
eight bytes there, and `parse_wispr_pkt` looks for them behind the IP header, whose length it reads
from the packet. Insertion and removal are inverse on every TCP frame that fits, also where the
16-bit length field wraps. Insertion and parser agree only on IP headers without options.
-/

open Wispr.Foundation.ByteBuffer

namespace Wispr.Gre.Headers

open Wispr.Daemon.Proto (Frame sizeofEthhdr sizeofIphdr)
open Wispr.Daemon.Net (Iface WisprIngressKey parseWisprPkt wisprIngressKeyAt)
open Wispr.Gre.Daemon Wispr.Gre.Encapsulation Wispr.Gre.TwoNodes

variable {linked : Linked} {frame sent : Frame} {iface : Iface} {tables : Tables}

/-- In a buffer of any size that an `int` can index, what is removed is what was inserted. -/
theorem gre_round_trip {size : ℕ} (hsize : size < 2 ^ 31) (linked : Linked) (key : WisprIngressKey)
    (hlow : 34 ≤ frame.length) (hhigh : frame.length + 8 ≤ size) (htcp : frame.getD 23 0 = 6) :
    ∃ sent, sendPacketWithkey linked (.received size frame) frame.length key = .ok [sent] ∧
      sent.length = frame.length + 8 ∧
      removeGre (.received size sent) sent.length = .ok [frame] :=
  ⟨encapsulated linked frame key, sendPacketWithkey_eq hsize hlow hhigh, encapsulated_length hlow,
    removeGre_encapsulated hsize hlow hhigh htcp⟩

/-- A total length of 65532, which wraps. -/
def wrappingPacket : Frame := ((tcpPacket 1 2).set 16 0xff).set 17 0xfc

theorem gre_round_trip_wrapping :
    totalLength wrappingPacket = 65532 ∧
      ∃ sent, sendPacketWithkey bitfieldLinked (.received packetSize wrappingPacket)
          wrappingPacket.length ⟨4095, 0, 499⟩ = .ok [sent] ∧
        sent.length = wrappingPacket.length + 8 ∧
        removeGre (.received packetSize sent) sent.length = .ok [wrappingPacket] :=
  ⟨by decide, gre_round_trip (by decide) bitfieldLinked _ (by decide) (by decide) (by decide)⟩

/-- A key within its bit-fields. -/
structure KeyFields where
  index : Fin 4096
  mode : Fin 16
  bitmask : Fin 65536

def KeyFields.toKey (fields : KeyFields) : WisprIngressKey :=
  ⟨fields.index, fields.mode, fields.bitmask⟩

/-- Where `send_packet_withkey` stores the key. -/
def keyOffset : ℕ := sizeofEthhdr + sizeofIphdr + 4

/-- The bit-fields read back the key whose bytes stand there. -/
theorem wisprIngressKeyAt_of_bytes {buf : Buf} {offset : ℕ} {fields : KeyFields}
    (hbytes : ∀ position < 4,
      buf.byte (offset + position) = (bitfieldBytes fields.toKey).getD position 0) :
    wisprIngressKeyAt buf offset = fields.toKey := by
  have hindex := fields.index.isLt
  have hmode := fields.mode.isLt
  have hbitmask := fields.bitmask.isLt
  have hlow : buf.byte offset = (bitfieldBytes fields.toKey).getD 0 0 := hbytes 0 (by omega)
  have hfirst : (buf.load16 offset).toNat = fields.index + 4096 * fields.mode := by
    simp only [Buf.load16, hlow, hbytes 1 (by omega)]
    simp [bitfieldBytes, KeyFields.toKey]
    omega
  have hsecond : (buf.load16 (offset + 2)).toNat = fields.bitmask := by
    simp only [Buf.load16, hbytes 2 (by omega), Nat.add_assoc, Nat.reduceAdd, hbytes 3 (by omega)]
    simp [bitfieldBytes, KeyFields.toKey]
    omega
  have hindexField : (fields.index + 4096 * fields.mode : ℕ) % 4096 = fields.index := by omega
  have hmodeField : (fields.index + 4096 * fields.mode : ℕ) / 4096 = fields.mode := by omega
  simp only [wisprIngressKeyAt, KeyFields.toKey, hfirst, hsecond, hindexField, hmodeField]

theorem wisprIngressKeyAt_encapsulated (fields : KeyFields) :
    wisprIngressKeyAt (.received packetSize (encapsulated bitfieldLinked frame fields.toKey))
      keyOffset = fields.toKey := by
  apply wisprIngressKeyAt_of_bytes
  intro position hposition
  simp only [keyOffset, sizeofEthhdr, sizeofIphdr, Nat.reduceAdd]
  rw [encapsulated_gre (by omega) (by omega), greBytes,
    List.getD_append_right _ _ _ _ (by simp; omega)]
  congr 1
  simp
  omega

/-- The parser accepts what is sent, and returns the key where it was inserted. -/
def FindsInserted (frame : Frame) (fields : KeyFields) : Prop :=
  ∃ sent, sendPacketWithkey bitfieldLinked (.received packetSize frame) frame.length
      fields.toKey = .ok [sent] ∧
    parseWisprPkt (.received packetSize sent) = some keyOffset ∧
    wisprIngressKeyAt (.received packetSize sent) keyOffset = fields.toKey

/-- The number of 32-bit words of the IP header, as the packet says. -/
def ipHl (frame : Frame) : ℕ := (frame.getD 14 0).toNat % 16

theorem parseWisprPkt_offset {buf : Buf} {offset : ℕ} (h : parseWisprPkt buf = some offset) :
    offset = 14 + (buf.byte 14).toNat % 16 * 4 + 4 := by
  simp only [parseWisprPkt, sizeofEthhdr] at h
  split at h
  · exact (Option.some.inj h).symm
  · cases h

theorem findsInserted_iff {fields : KeyFields} (hfits : frame.length ≤ packetSize) :
    FindsInserted frame fields ↔
      ipHl frame = 5 ∧ 34 ≤ frame.length ∧ frame.length + 8 ≤ packetSize := by
  constructor
  · intro hfinds
    obtain ⟨sent, hsend, hparse, -⟩ := hfinds
    obtain ⟨hlow, hhigh⟩ := sendPacketWithkey_bounds (by decide) hfits hsend
    rw [sendPacketWithkey_eq (by decide) hlow hhigh] at hsend
    cases hsend
    have hoffset := parseWisprPkt_offset hparse
    rw [encapsulated_header (by omega) (by omega) (by omega) (by omega)] at hoffset
    refine ⟨?_, hlow, hhigh⟩
    simp only [keyOffset, sizeofEthhdr, sizeofIphdr, Buf.received_byte] at hoffset
    rw [ipHl]
    omega
  · intro ⟨hplain, hlow, hhigh⟩
    exact ⟨_, sendPacketWithkey_eq (by decide) hlow hhigh, parseWisprPkt_encapsulated hplain,
      wisprIngressKeyAt_encapsulated fields⟩

/-- The bytes sent are those of the frame in order without the eight from `start` on, apart from
the length and the protocol of the IP header. -/
def Lacks (frame sent : Frame) (start : ℕ) : Prop :=
  sent.length + 8 = frame.length ∧
    ∀ index, index ≠ 16 → index ≠ 17 → index ≠ 23 →
      sent.getD index 0 = frame.getD (if index < start then index else index + 8) 0

/-- `process_wispr0` removes the header and key that the parser found. -/
def RemovesLocated (iface : Iface) (tables : Tables) (frame : Frame) (offset : ℕ) : Prop :=
  ∃ sent, processWispr0 iface tables (.received packetSize frame) frame.length = .ok [sent] ∧
    Lacks frame sent (offset - 4)

/-- Removing eight bytes from either position gives the same bytes. -/
def SameRemoval (frame : Frame) (start start' : ℕ) : Prop :=
  ∀ index, index ≠ 16 → index ≠ 17 → index ≠ 23 → min start start' ≤ index →
    index < max start start' → frame.getD index 0 = frame.getD (index + 8) 0

theorem decapsulated_lacks_iff {start : ℕ} (hlow : 42 ≤ frame.length) :
    Lacks frame (decapsulated frame) start ↔ SameRemoval frame 34 start := by
  have hlength : (decapsulated frame).length + 8 = frame.length := by
    rw [decapsulated_length hlow]
    omega
  have hbyte : ∀ index, index ≠ 16 → index ≠ 17 → index ≠ 23 →
      (decapsulated frame).getD index 0 =
        frame.getD (if index < 34 then index else index + 8) 0 := by
    intro index h16 h17 h23
    rw [decapsulated_getD, if_neg h17, if_neg h16, if_neg h23]
    split <;> rfl
  constructor
  · intro hlacks index h16 h17 h23 hmin hmax
    have hsame := hlacks.2 index h16 h17 h23
    rw [hbyte index h16 h17 h23] at hsame
    by_cases hheader : index < 34
    · rw [if_pos hheader, if_neg (by omega)] at hsame
      exact hsame
    · rw [if_neg hheader, if_pos (by omega)] at hsame
      exact hsame.symm
  · intro hsame
    refine ⟨hlength, fun index h16 h17 h23 ↦ ?_⟩
    rw [hbyte index h16 h17 h23]
    by_cases hheader : index < 34
    · by_cases hstart : index < start
      · rw [if_pos hheader, if_pos hstart]
      · rw [if_pos hheader, if_neg hstart]
        exact hsame index h16 h17 h23 (by omega) (by omega)
    · by_cases hstart : index < start
      · rw [if_neg hheader, if_pos hstart]
        exact (hsame index h16 h17 h23 (by omega) (by omega)).symm
      · rw [if_neg hheader, if_neg hstart]

theorem removesLocated_iff {offset : ℕ} (hfits : frame.length ≤ packetSize)
    (hparse : parseWisprPkt (.received packetSize frame) = some offset)
    (hegress : isEgressNode iface tables (.received packetSize frame) = true) :
    RemovesLocated iface tables frame offset ↔
      42 ≤ frame.length ∧ (ipHl frame = 5 ∨ SameRemoval frame 34 (14 + ipHl frame * 4)) := by
  have hstart : offset - 4 = 14 + ipHl frame * 4 := by
    rw [parseWisprPkt_offset hparse, ipHl, Buf.received_byte]
    omega
  have hplain : ipHl frame = 5 → SameRemoval frame 34 (14 + ipHl frame * 4) := by
    intro hplain index h16 h17 h23 hmin hmax
    omega
  rw [or_iff_right_of_imp hplain, RemovesLocated, processWispr0, if_pos hegress, hstart]
  constructor
  · rintro ⟨sent, hremove, hlacks⟩
    have hlow := removeGre_bounds (by decide) hremove
    rw [removeGre_eq (by decide) hlow hfits] at hremove
    cases hremove
    exact ⟨hlow, (decapsulated_lacks_iff hlow).mp hlacks⟩
  · rintro ⟨hlow, hsame⟩
    exact ⟨_, removeGre_eq (by decide) hlow hfits, (decapsulated_lacks_iff hlow).mpr hsame⟩

/-- Insertion, parser and removal mean the same eight bytes exactly on IP headers without options,
in frames that leave room for the header or have one. With another header length the removal can
only be right by a repetition of the bytes between the two positions. -/
theorem gre_location_iff (frame : Frame) (hfits : frame.length ≤ packetSize) :
    (∀ fields, FindsInserted frame fields ↔
      ipHl frame = 5 ∧ 34 ≤ frame.length ∧ frame.length + 8 ≤ packetSize) ∧
      ∀ iface tables offset, frame.getD 23 0 = 47 →
        parseWisprPkt (.received packetSize frame) = some offset →
        isEgressNode iface tables (.received packetSize frame) = true →
        (RemovesLocated iface tables frame offset ↔
          42 ≤ frame.length ∧
            (ipHl frame = 5 ∨ SameRemoval frame 34 (14 + ipHl frame * 4))) :=
  ⟨fun _ ↦ findsInserted_iff hfits,
    fun _ _ _ _ hparse hegress ↦ removesLocated_iff hfits hparse hegress⟩

/-- The first key of a flow. -/
def firstFields : KeyFields := ⟨0, 0, 1⟩

/-- A frame with a GRE header behind an IP header without options. -/
def grePacket : Frame := encapsulated bitfieldLinked (tcpPacket 1 2) firstFields.toKey

/-- Every host is behind the node. -/
def allHosts : Tables := { initWisprtables with hostIp := fun _ ↦ true }

theorem gre_location_iff_plain :
    FindsInserted (tcpPacket 1 2) firstFields ∧
      RemovesLocated (nodeIface nodeMac .second) allHosts grePacket 38 := by
  have hlength : grePacket.length = 67 := encapsulated_length (by decide)
  have hplain : ipHl grePacket = 5 := by
    rw [ipHl, grePacket, encapsulated_getD]
    decide
  have hfits : grePacket.length ≤ packetSize := by
    rw [hlength]
    decide
  refine ⟨((gre_location_iff (tcpPacket 1 2) (by decide)).1 _).mpr
    ⟨by decide, by decide, by decide⟩, ?_⟩
  apply ((gre_location_iff grePacket hfits).2 _ _ _ _ _ _).mpr
  · exact ⟨by omega, .inl hplain⟩
  · rw [grePacket, encapsulated_getD]
    rfl
  · exact parseWisprPkt_encapsulated (by decide)
  · rfl

/-- A TCP packet with four bytes of IP options. -/
def optionsPacket : Frame :=
  [0x0a, 0, 0, 0, 0, 2, 0x0a, 0, 0, 0, 0, 1, 0x08, 0x00,
    0x46, 0, 0, 44, 0, 1, 0, 0, 64, 6, 0, 0, 10, 0, 0, 1, 10, 0, 0, 2, 1, 1, 1, 0,
    0x1f, 0x90, 0x1f, 0x91, 0, 0, 0, 1, 0, 0, 0, 0, 0x50, 0x18, 2, 0, 0, 0, 0, 0]

/-- A GRE packet with four bytes of IP options in front of its GRE header and key. -/
def optionsGrePacket : Frame :=
  [0x0a, 0, 0, 0, 0, 2, 0x0a, 0, 0, 0, 0, 1, 0x08, 0x00,
    0x46, 0, 0, 52, 0, 1, 0, 0, 64, 47, 0, 0, 10, 0, 0, 1, 10, 0, 0, 2, 1, 1, 1, 0,
    0x20, 0, 0, 0, 0, 0, 1, 0,
    0x1f, 0x90, 0x1f, 0x91, 0, 0, 0, 1, 0, 0, 0, 0, 0x50, 0x18, 2, 0, 0, 0, 0, 0]

/-- With options, the inserted key is not found, and the removal takes the options in place of the
key. -/
theorem options_not_located :
    ipHl optionsPacket = 6 ∧ ¬ FindsInserted optionsPacket firstFields ∧
      parseWisprPkt (.received packetSize optionsGrePacket) = some 42 ∧
      ¬ RemovesLocated (nodeIface nodeMac .second) allHosts optionsGrePacket 42 := by
  have hparse : parseWisprPkt (.received packetSize optionsGrePacket) = some 42 := by decide
  refine ⟨by decide, ?_, hparse, ?_⟩
  · rw [findsInserted_iff (by decide)]
    decide
  · rw [removesLocated_iff (by decide) hparse rfl]
    rintro ⟨-, hplain | hsame⟩
    · exact absurd hplain (by decide)
    · exact absurd (hsame 34 (by decide) (by decide) (by decide) (by decide) (by decide))
        (by decide)

end Wispr.Gre.Headers
