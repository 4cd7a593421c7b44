import Wispr.Daemon.Codec
import Wispr.Gre.Daemon

/-!
# The encapsulated frame

What `send_packet_withkey` makes of a frame, byte by byte, and what another node makes of that: the
GRE header is found behind an IP header without options, and its removal gives the frame back.
-/

open Wispr.Foundation.ByteBuffer

namespace Wispr.Gre.Encapsulation

open Wispr.Daemon.Proto hiding packetSize Tables initWisprtables getOrAddIngresssession
  sendPacketWithkey processIngress0
open Wispr.Daemon.Net hiding processWispr0 handleIpv4pkt processNewpkt isIngress isEgressNode
open Wispr.Gre.Daemon

/-- The total length field of the IP header. -/
def totalLength (frame : Frame) : UInt16 :=
  ntohs ((Buf.received packetSize frame).load16 (sizeofEthhdr + 2))

/-- GRE header and key. -/
def greBytes (linked : Linked) (key : WisprIngressKey) : Frame :=
  [0x20, 0x00, 0x00, 0x00] ++ linked.keyBytes key

/-- Ethernet and IP header of the encapsulated frame: the protocol is GRE and the length grows. -/
def greHeader (frame : Frame) : Frame :=
  (List.range 34).map fun index ↦
    if index = 17 then UInt8.ofNat ((totalLength frame + 8).toNat % 256)
    else if index = 16 then UInt8.ofNat ((totalLength frame + 8).toNat / 256)
    else if index = 23 then 47 else frame.getD index 0

/-- The frame with GRE header and key behind the first 20 bytes of its IP header. -/
def encapsulated (linked : Linked) (frame : Frame) (key : WisprIngressKey) : Frame :=
  greHeader frame ++ (greBytes linked key ++ frame.drop 34)

variable {linked : Linked} {frame wire : Frame} {key : WisprIngressKey} {iface : Iface}
variable {tables next : Tables} {sent : List Frame}

@[simp] theorem greBytes_length : (greBytes linked key).length = 8 := by
  simp [greBytes, linked.keyBytes_length]

@[simp] theorem greHeader_length : (greHeader frame).length = 34 := by
  simp [greHeader]

theorem encapsulated_length (hlength : 34 ≤ frame.length) :
    (encapsulated linked frame key).length = frame.length + 8 := by
  simp only [encapsulated, List.length_append, greHeader_length, greBytes_length, List.length_drop]
  omega

theorem encapsulated_ne (hlength : 34 ≤ frame.length) : encapsulated linked frame key ≠ frame := by
  intro heq
  have hlonger := @encapsulated_length linked frame key hlength
  rw [heq] at hlonger
  omega

theorem encapsulated_getD (index : ℕ) : (encapsulated linked frame key).getD index 0 =
    if index = 17 then UInt8.ofNat ((totalLength frame + 8).toNat % 256)
    else if index = 16 then UInt8.ofNat ((totalLength frame + 8).toNat / 256)
    else if index = 23 then 47
    else if index < 34 then frame.getD index 0
    else if index < 42 then (greBytes linked key).getD (index - 34) 0
    else frame.getD (index - 8) 0 := by
  by_cases hheader : index < 34
  · rw [encapsulated, List.getD_append _ _ _ _ (by simpa using hheader)]
    simp [greHeader, hheader]
  · have hfields : index ≠ 17 ∧ index ≠ 16 ∧ index ≠ 23 := by omega
    rw [encapsulated, List.getD_append_right _ _ _ _ (by simpa using hheader)]
    simp only [hfields, hheader, if_false, greHeader_length]
    by_cases hgre : index < 42
    · rw [if_pos hgre, List.getD_append _ _ _ _ (by simp; omega)]
    · rw [if_neg hgre, List.getD_append_right _ _ _ _ (by simp; omega)]
      simp only [greBytes_length, List.getD_eq_getElem?_getD, List.getElem?_drop]
      congr 2
      omega

/-- The buffer that `send_packet_withkey` sends from. -/
def greBuf (linked : Linked) (frame : Frame) (key : WisprIngressKey) : Buf :=
  let buf := (Buf.received packetSize frame).setByte 23 47
  let buf' := (writeGre linked buf key).overwrite 42 (buf.slice 34 (frame.length - 34))
  buf'.store16 16 (htons (ntohs (buf'.load16 16) + 8))

theorem greBuf_byte (hlow : 34 ≤ frame.length) {index : ℕ} (hindex : index < frame.length + 8) :
    (greBuf linked frame key).byte index = (encapsulated linked frame key).getD index 0 := by
  have hwritten : ∀ {index : ℕ}, index < frame.length + 8 →
      ((writeGre linked ((Buf.received packetSize frame).setByte 23 47) key).overwrite 42
        (((Buf.received packetSize frame).setByte 23 47).slice 34 (frame.length - 34))).byte index =
      if index = 23 then 47 else if index < 34 then frame.getD index 0
      else if index < 42 then (greBytes linked key).getD (index - 34) 0
      else frame.getD (index - 8) 0 := by
    intro index hindex
    simp only [writeGre, Buf.overwrite_byte, Buf.slice_length, Buf.slice_getD, Buf.setByte_byte,
      Buf.store16_htons_byte, linked.keyBytes_length, Buf.received_byte, sizeofIphdr, sizeofEthhdr]
    by_cases hpayload : 42 ≤ index
    · rw [if_pos (by omega), if_pos (by omega), if_neg (by omega), if_neg (by omega),
        if_neg (by omega), if_neg (by omega)]
      congr 1
      omega
    · rw [if_neg (by omega)]
      by_cases hkey : 38 ≤ index
      · have hoffset : index - (20 + 14 + 4) = index - 34 - 4 := by omega
        rw [if_neg (by omega), if_neg (by omega), if_pos (by omega), if_neg (by omega),
          if_neg (by omega), if_pos (by omega), greBytes, List.getD_append_right _ _ _ _
            (by simp; omega), hoffset]
        rfl
      · by_cases hgre : 34 ≤ index
        · have hcases : index = 34 ∨ index = 35 ∨ index = 36 ∨ index = 37 := by omega
          rcases hcases with rfl | rfl | rfl | rfl <;> simp [greBytes]
        · rw [if_neg (by omega), if_neg (by omega), if_neg (by omega), if_neg (by omega),
            if_neg (by omega)]
          simp only [show index < 34 by omega, if_true]
  have hlength : ntohs (((writeGre linked ((Buf.received packetSize frame).setByte 23 47)
      key).overwrite 42 (((Buf.received packetSize frame).setByte 23 47).slice 34
        (frame.length - 34))).load16 16) = totalLength frame := by
    apply congrArg ntohs
    apply Buf.load16_congr
    · rw [hwritten (by omega)]
      simp
    · rw [hwritten (by omega)]
      simp
  rw [greBuf, encapsulated_getD]
  simp only [Buf.store16_htons_byte, hlength, hwritten hindex]

/-- In any buffer whose lengths an `int` can hold. -/
theorem sendPacketWithkey_eq {size : ℕ} (hsize : size < 2 ^ 31) (hlow : 34 ≤ frame.length)
    (hhigh : frame.length + 8 ≤ size) :
    sendPacketWithkey linked (.received size frame) frame.length key =
      .ok [encapsulated linked frame key] := by
  have hremLen : toSize (toInt (frame.length - (sizeofIphdr : ℕ) - (sizeofEthhdr : ℕ))) =
      frame.length - 34 := by
    simp only [sizeofIphdr, sizeofEthhdr]
    rw [toInt_of_bounds (by omega) (by omega), toSize_of_bounds (by omega) (by omega)]
    omega
  have hsent : toSize (frame.length + (sizeofWisprPacket : ℕ)) = frame.length + 8 := by
    simp only [sizeofWisprPacket]
    rw [toSize_of_bounds (by omega) (by omega)]
    omega
  have hframe : (greBuf linked frame key).slice 0 (frame.length + 8) =
      encapsulated linked frame key :=
    Wispr.Daemon.Codec.slice_eq (encapsulated_length hlow) fun _ hindex ↦ greBuf_byte hlow hindex
  simp only [sendPacketWithkey, hremLen, hsent]
  simp only [sizeofEthhdr, sizeofIphdr, sizeofWisprPacket]
  rw [Buf.load_eq_ok (by simp only [Buf.setByte_size, Buf.received_size]; omega)]
  simp only [bind, Except.bind]
  rw [Buf.store_eq_ok (by simp [writeGre]; omega)]
  simp only
  rw [Buf.load_eq_ok (by simp [writeGre]; omega)]
  simp only [pure, Except.pure]
  rw [← hframe]
  rfl

/-- A frame that is sent with a key has its two headers, and room for eight more bytes. -/
theorem sendPacketWithkey_bounds {size : ℕ} (hsize : size < 2 ^ 31) (hfits : frame.length ≤ size)
    (h : sendPacketWithkey linked (.received size frame) frame.length key = .ok sent) :
    34 ≤ frame.length ∧ frame.length + 8 ≤ size := by
  simp only [sendPacketWithkey, bind_eq_ok, Buf.load_ok_iff, Buf.store_ok_iff] at h
  obtain ⟨remBuf, ⟨hread, hremBuf⟩, buf, ⟨hwrite, -⟩, -⟩ := h
  simp only [sizeofEthhdr, sizeofIphdr, sizeofWisprPacket, Buf.store16_size, Buf.overwrite_size,
    Buf.setByte_size, Buf.received_size, writeGre] at hread hwrite
  have hlow : 34 ≤ frame.length := by
    by_contra hshort
    rw [toInt_of_bounds (by omega) (by omega)] at hread
    have hnegative : (frame.length - (20 : ℕ) - (14 : ℕ) : ℤ) < 0 := by omega
    have hhuge := toSize_of_neg (by omega) hnegative
    omega
  refine ⟨hlow, ?_⟩
  simp only [hremBuf, Buf.slice_length, sizeofEthhdr, sizeofIphdr] at hwrite
  rw [toInt_of_bounds (by omega) (by omega), toSize_of_bounds (by omega) (by omega)] at hwrite
  omega

/-- Ethernet and IP header once GRE header and key are removed: the protocol is TCP and the length
shrinks. -/
def tcpHeader (frame : Frame) : Frame :=
  (List.range 34).map fun index ↦
    if index = 17 then UInt8.ofNat ((totalLength frame - 8).toNat % 256)
    else if index = 16 then UInt8.ofNat ((totalLength frame - 8).toNat / 256)
    else if index = 23 then 6 else frame.getD index 0

/-- The frame without the eight bytes behind the first 20 of its IP header. -/
def decapsulated (frame : Frame) : Frame := tcpHeader frame ++ frame.drop 42

@[simp] theorem tcpHeader_length : (tcpHeader frame).length = 34 := by
  simp [tcpHeader]

theorem decapsulated_length (hlength : 42 ≤ frame.length) :
    (decapsulated frame).length = frame.length - 8 := by
  simp only [decapsulated, List.length_append, tcpHeader_length, List.length_drop]
  omega

theorem decapsulated_getD (index : ℕ) : (decapsulated frame).getD index 0 =
    if index = 17 then UInt8.ofNat ((totalLength frame - 8).toNat % 256)
    else if index = 16 then UInt8.ofNat ((totalLength frame - 8).toNat / 256)
    else if index = 23 then 6
    else if index < 34 then frame.getD index 0
    else frame.getD (index + 8) 0 := by
  by_cases hheader : index < 34
  · rw [decapsulated, List.getD_append _ _ _ _ (by simpa using hheader)]
    simp [tcpHeader, hheader]
  · have hfields : index ≠ 17 ∧ index ≠ 16 ∧ index ≠ 23 := by omega
    rw [decapsulated, List.getD_append_right _ _ _ _ (by simpa using hheader)]
    simp only [hfields, hheader, if_false, tcpHeader_length, List.getD_eq_getElem?_getD,
      List.getElem?_drop]
    congr 2
    omega

/-- The buffer with the payload moved back. -/
theorem moved_byte {size : ℕ} {cleared : Buf}
    (hfill : (Buf.received size frame).fill 34 (frame.length - 34) 0 = .ok cleared) {index : ℕ}
    (hindex : index < frame.length - 8) :
    (cleared.overwrite 34 ((Buf.received size frame).slice 42 (frame.length - 42))).byte index =
      if index < 34 then frame.getD index 0 else frame.getD (index + 8) 0 := by
  simp only [Buf.overwrite_byte, Buf.slice_length, Buf.slice_getD, Buf.fill_byte hfill,
    Buf.received_byte]
  by_cases hpayload : 34 ≤ index
  · rw [if_pos (by omega), if_pos (by omega), if_neg (by omega)]
    congr 1
    omega
  · rw [if_neg (by omega), if_neg (by omega), if_pos (by omega)]

theorem removeGre_eq {size : ℕ} (hsize : size < 2 ^ 31) (hlow : 42 ≤ frame.length)
    (hhigh : frame.length ≤ size) :
    removeGre (.received size frame) frame.length = .ok [decapsulated frame] := by
  have hremLen : toInt (frame.length - (20 : ℕ) - (14 : ℕ) - (8 : ℕ)) = frame.length - 42 := by
    rw [toInt_of_bounds (by omega) (by omega)]
    omega
  have hcopied : toSize (frame.length - 42 : ℤ) = frame.length - 42 := by
    rw [toSize_of_bounds (by omega) (by omega)]
    omega
  have hcleared : toSize ((frame.length - 42 : ℤ) + (8 : ℕ)) = frame.length - 34 := by
    rw [toSize_of_bounds (by omega) (by omega)]
    omega
  have hsent : toSize (frame.length - (8 : ℕ)) = frame.length - 8 := by
    rw [toSize_of_bounds (by omega) (by omega)]
    omega
  simp only [removeGre, sizeofEthhdr, sizeofIphdr, sizeofWisprPacket, hremLen, hcopied, hcleared,
    hsent]
  rw [Buf.load_eq_ok (by simp only [Buf.received_size]; omega)]
  obtain ⟨cleared, hfill⟩ := Buf.fill_ok (.received size frame) 34 (frame.length - 34) 0
    (by simp only [Buf.received_size]; omega)
  have hclearedSize : cleared.size = size := Buf.fill_size hfill
  simp only [bind, Except.bind, hfill]
  rw [Buf.store_eq_ok (by simp only [Buf.slice_length, hclearedSize]; omega)]
  simp only
  rw [Buf.load_eq_ok (by
    simp only [Buf.store16_size, Buf.setByte_size, Buf.overwrite_size, hclearedSize]; omega)]
  simp only [pure, Except.pure]
  have htotal : ntohs ((cleared.overwrite 34 ((Buf.received size frame).slice 42
      (frame.length - 42))).load16 16) = totalLength frame := by
    apply congrArg ntohs
    apply Buf.load16_congr
    · rw [moved_byte hfill (by omega)]
      rfl
    · rw [moved_byte hfill (by omega)]
      rfl
  congr 2
  apply Wispr.Daemon.Codec.slice_eq (decapsulated_length hlow)
  intro index hindex
  rw [Buf.setByte_byte, Buf.store16_htons_byte, htotal, moved_byte hfill hindex, decapsulated_getD]
  by_cases h23 : index = 23
  · rw [if_pos h23, h23]
    rfl
  · rw [if_neg h23, if_neg h23]

/-- A frame whose GRE header is removed has one. -/
theorem removeGre_bounds {size : ℕ} (hsize : size < 2 ^ 31)
    (h : removeGre (.received size frame) frame.length = .ok sent) : 42 ≤ frame.length := by
  by_contra hshort
  simp only [removeGre, bind_eq_ok, Buf.load_ok_iff] at h
  obtain ⟨remBuf, ⟨hread, -⟩, -⟩ := h
  simp only [sizeofEthhdr, sizeofIphdr, sizeofWisprPacket, Buf.received_size] at hread
  rw [toInt_of_bounds (by omega) (by omega)] at hread
  have hnegative : (frame.length - (20 : ℕ) - (14 : ℕ) - (8 : ℕ) : ℤ) < 0 := by omega
  have hhuge := toSize_of_neg (by omega) hnegative
  omega

theorem totalLength_encapsulated :
    totalLength (encapsulated linked frame key) = totalLength frame + 8 := by
  apply Buf.ntohs_load16
  · rw [Buf.received_byte, encapsulated_getD]
    rfl
  · rw [Buf.received_byte, encapsulated_getD]
    rfl

/-- The removal restores a TCP frame, its length field also across a wrap. -/
theorem decapsulated_encapsulated (hlow : 34 ≤ frame.length) (hprotocol : frame.getD 23 0 = 6) :
    decapsulated (encapsulated linked frame key) = frame := by
  have hlength := @encapsulated_length linked frame key hlow
  apply List.ext_getElem
  · rw [decapsulated_length (by omega), hlength]
    omega
  · intro index hleft hright
    rw [← List.getD_eq_getElem _ 0 hleft, ← List.getD_eq_getElem _ 0 hright, decapsulated_getD,
      totalLength_encapsulated, UInt16.add_sub_cancel, totalLength, ntohs_low, ntohs_high,
      Buf.ofNat_load16_high, Buf.ofNat_load16_low]
    by_cases h17 : index = 17
    · rw [if_pos h17, h17]
      rfl
    · by_cases h16 : index = 16
      · rw [if_neg h17, if_pos h16, h16]
        rfl
      · by_cases h23 : index = 23
        · rw [if_neg h17, if_neg h16, if_pos h23, h23, hprotocol]
        · rw [if_neg h17, if_neg h16, if_neg h23, encapsulated_getD, encapsulated_getD]
          by_cases hheader : index < 34
          · rw [if_pos hheader, if_neg h17, if_neg h16, if_neg h23, if_pos hheader]
          · rw [if_neg hheader, if_neg (by omega), if_neg (by omega), if_neg (by omega),
              if_neg (by omega), if_neg (by omega)]
            rfl

/-- The removal of GRE header and key restores a TCP frame. -/
theorem removeGre_encapsulated {size : ℕ} (hsize : size < 2 ^ 31) (hlow : 34 ≤ frame.length)
    (hhigh : frame.length + 8 ≤ size) (hprotocol : frame.getD 23 0 = 6) :
    removeGre (.received size (encapsulated linked frame key))
      (encapsulated linked frame key).length = .ok [frame] := by
  have hlength := @encapsulated_length linked frame key hlow
  rw [removeGre_eq hsize (by omega) (by omega), decapsulated_encapsulated hlow hprotocol]

/-- A frame that is sent as it was received. -/
theorem load_received {size : ℕ} (hsize : size < 2 ^ 31) (hfits : frame.length ≤ size) :
    (Buf.received size frame).load 0 (toSize frame.length) = .ok frame := by
  have hsent : (Buf.received size frame).slice 0 frame.length = frame :=
    Wispr.Daemon.Codec.slice_eq rfl fun _ _ ↦ Buf.received_byte ..
  rw [toSize_of_bounds (by omega) (by omega), Int.toNat_natCast,
    Buf.load_eq_ok (by rw [Buf.received_size]; omega), hsent]

/-! ## Two nodes -/

theorem sendPacketWithkey_recvBuf (hlow : 34 ≤ wire.length)
    (hhigh : wire.length + 8 ≤ packetSize) :
    sendPacketWithkey linked (recvBuf wire) (recvBytes wire).length key =
      .ok [encapsulated linked wire key] := by
  have hbytes : recvBytes wire = wire := recvBytes_of_fits (by omega)
  rw [recvBuf, hbytes, sendPacketWithkey_eq (by decide) hlow hhigh]

theorem sendPacketWithkey_recvBuf_bounds
    (h : sendPacketWithkey linked (recvBuf wire) (recvBytes wire).length key = .ok sent) :
    34 ≤ wire.length ∧ wire.length + 8 ≤ packetSize := by
  obtain ⟨hlow, hhigh⟩ := sendPacketWithkey_bounds (by decide) (List.length_take_le ..) h
  -- A longer frame would have been cut to a length without room for the header.
  have hfits : wire.length ≤ packetSize := by
    by_contra hlong
    rw [List.length_take] at hhigh
    omega
  rw [List.take_of_length_le hfits] at hlow hhigh
  exact ⟨hlow, hhigh⟩

/-- A node that the frame enters at, for a destination it does not know, sends it encapsulated. -/
theorem processNewpkt_of_teaches (hteaches : teaches iface tables wire = true)
    (hlow : 34 ≤ wire.length) (hhigh : wire.length + 8 ≤ packetSize) :
    processNewpkt linked iface tables wire = .ok (learn tables (ingressKey (recvBuf wire)),
      [encapsulated linked wire (nextKey (sessionOf tables (ingressKey (recvBuf wire))))]) := by
  obtain ⟨hingress, hunknown⟩ := teaches_iff.mp hteaches
  rw [processNewpkt_of_isIngress hingress, processIngress0_of_unknown hunknown,
    sendPacketWithkey_recvBuf hlow hhigh]
  rfl

theorem processNewpkt_teaches_bounds (hteaches : teaches iface tables wire = true)
    (h : processNewpkt linked iface tables wire = .ok (next, sent)) :
    34 ≤ wire.length ∧ wire.length + 8 ≤ packetSize := by
  obtain ⟨hingress, hunknown⟩ := teaches_iff.mp hteaches
  rw [processNewpkt_of_isIngress hingress, processIngress0_of_unknown hunknown] at h
  obtain ⟨frames, hsend, -⟩ := bind_eq_ok.mp h
  exact sendPacketWithkey_recvBuf_bounds hsend

/-- The IP header has no options. -/
def PlainHeader (frame : Frame) : Prop := (frame.getD 14 0).toNat % 16 = 5

instance (frame : Frame) : Decidable (PlainHeader frame) :=
  inferInstanceAs (Decidable (_ = _))

theorem encapsulated_header {index : ℕ} (hheader : index < 34) (h16 : index ≠ 16) (h17 : index ≠ 17)
    (h23 : index ≠ 23) : (Buf.received packetSize (encapsulated linked frame key)).byte index =
      (Buf.received packetSize frame).byte index := by
  rw [Buf.received_byte, encapsulated_getD, if_neg h17, if_neg h16, if_neg h23, if_pos hheader,
    Buf.received_byte]

theorem destIs_encapsulated (mac : Fin 6 → UInt8) :
    destIs (.received packetSize (encapsulated linked frame key)) mac =
      destIs (.received packetSize frame) mac := by
  unfold destIs
  congr 1
  apply propext
  apply forall_congr'
  intro index
  have hindex := index.isLt
  rw [encapsulated_header (by omega) (by omega) (by omega) (by omega)]

theorem load32_encapsulated {offset : ℕ} (hlow : 24 ≤ offset) (hhigh : offset + 4 ≤ 34) :
    (Buf.received packetSize (encapsulated linked frame key)).load32 offset =
      (Buf.received packetSize frame).load32 offset := by
  apply Buf.load32_congr
  intro index hindex
  exact encapsulated_header (by omega) (by omega) (by omega) (by omega)

theorem etherType_encapsulated :
    etherType (.received packetSize (encapsulated linked frame key)) =
      etherType (.received packetSize frame) := by
  unfold etherType
  apply congrArg ntohs
  exact Buf.load16_congr (encapsulated_header (by omega) (by omega) (by omega) (by omega))
    (encapsulated_header (by omega) (by omega) (by omega) (by omega))

theorem encapsulated_gre {index : ℕ} (hlow : 34 ≤ index) (hhigh : index < 42) :
    (Buf.received packetSize (encapsulated linked frame key)).byte index =
      (greBytes linked key).getD (index - 34) 0 := by
  rw [Buf.received_byte, encapsulated_getD, if_neg (by omega), if_neg (by omega), if_neg (by omega),
    if_neg (by omega), if_pos hhigh]

/-- The header is found behind an IP header without options. -/
theorem parseWisprPkt_encapsulated (hplain : PlainHeader frame) :
    parseWisprPkt (.received packetSize (encapsulated linked frame key)) = some 38 := by
  have hlength : ((Buf.received packetSize (encapsulated linked frame key)).byte 14).toNat % 16 =
      5 := by
    rw [encapsulated_header (by omega) (by omega) (by omega) (by omega)]
    exact hplain
  have hflags : ntohs ((Buf.received packetSize (encapsulated linked frame key)).load16 34) =
      0x2000 := by
    apply Buf.ntohs_load16
    · rw [encapsulated_gre (by omega) (by omega)]
      rfl
    · rw [encapsulated_gre (by omega) (by omega)]
      rfl
  have hproto : ntohs ((Buf.received packetSize (encapsulated linked frame key)).load16 36) =
      0x0000 := by
    apply Buf.ntohs_load16
    · rw [encapsulated_gre (by omega) (by omega)]
      rfl
    · rw [encapsulated_gre (by omega) (by omega)]
      rfl
  simp only [parseWisprPkt, sizeofEthhdr, hlength, Nat.reduceMul, Nat.reduceAdd, hflags, hproto,
    and_self, if_true]

theorem mode_encapsulated (hmode : key.mode = 0) :
    (wisprIngressKeyAt (.received packetSize (encapsulated linked frame key)) 38).mode = 0 := by
  rw [← linked.keyBytes_mode key hmode]
  simp only [wisprIngressKeyAt]
  congr 2
  apply Buf.load16_congr
  · rw [encapsulated_gre (by omega) (by omega)]
    simp [greBytes]
  · rw [encapsulated_gre (by omega) (by omega)]
    simp [greBytes]

theorem isGreArrival_encapsulated {other : Iface} (hplain : PlainHeader frame)
    (hmode : key.mode = 0)
    (hingress : isIngress iface (.received packetSize frame) = true)
    (hother : destIs (.received packetSize frame) other.mac = false) :
    isGreArrival other (.received packetSize (encapsulated linked frame key)) = true := by
  obtain ⟨hpass, htype, hsrc, hdst, -, -⟩ := isIngress_iff.mp hingress
  obtain ⟨-, hbroadcast, hignored, hlldp⟩ := passesFilters_iff.mp hpass
  refine isGreArrival_iff.mpr ⟨passesFilters_iff.mpr ?_, ?_, ?_, ?_, ?_, 38,
    parseWisprPkt_encapsulated hplain, mode_encapsulated hmode⟩
  · simp only [destIs_encapsulated]
    exact ⟨hother, hbroadcast, hignored, hlldp⟩
  · rw [etherType_encapsulated]
    exact htype
  · rw [load32_encapsulated (by omega) (by omega)]
    exact hsrc
  · rw [load32_encapsulated (by omega) (by omega)]
    exact hdst
  · rw [ipProtocol, Buf.received_byte, encapsulated_getD]
    rfl

/-- The frame is for a host that the node knows, or for its gateway. -/
def isEgressOf (iface : Iface) (tables : Tables) (frame : Frame) : Bool :=
  tables.hostIp (ingressKey (recvBuf frame)).dstIp || destIs (recvBuf frame) iface.gateWayIporMAC

/-- What another node does with a frame that was encapsulated where it entered. -/
theorem processNewpkt_encapsulated {other : Iface} (hlow : 34 ≤ frame.length)
    (hhigh : frame.length + 8 ≤ packetSize) (hplain : PlainHeader frame) (hmode : key.mode = 0)
    (hingress : isIngress iface (recvBuf frame) = true) :
    processNewpkt linked other tables (encapsulated linked frame key) = .ok (tables,
      if destIs (recvBuf frame) other.mac then []
      else if isEgressOf other tables frame then [frame]
      else [encapsulated linked frame key]) := by
  have hsize : packetSize = 1500 := rfl
  have hlength := @encapsulated_length linked frame key hlow
  have hbytes : recvBytes (encapsulated linked frame key) = encapsulated linked frame key :=
    recvBytes_of_fits (by omega)
  have hframe : recvBytes frame = frame := recvBytes_of_fits (by omega)
  have hegress : isEgressNode other tables (.received packetSize (encapsulated linked frame key)) =
      isEgressOf other tables frame := by
    rw [isEgressNode, isEgressOf, destIs_encapsulated, load32_encapsulated (by simp [sizeofEthhdr])
      (by simp [sizeofEthhdr]), recvBuf, hframe]
    rfl
  rw [recvBuf, hframe] at hingress ⊢
  cases hown : destIs (.received packetSize frame) other.mac with
  | true =>
    rw [if_pos rfl]
    apply processNewpkt_of_own
    rw [recvBuf, hbytes, destIs_encapsulated, hown]
  | false =>
    rw [if_neg Bool.false_ne_true]
    have harrival :=
      @isGreArrival_encapsulated linked frame key iface other hplain hmode hingress hown
    rw [← hbytes, ← recvBuf] at harrival
    rw [processNewpkt_of_isGreArrival (hbytes ▸ harrival), recvBuf, hbytes, processWispr0, hegress]
    cases isEgressOf other tables frame with
    | true =>
      rw [if_pos rfl, if_pos rfl, removeGre_encapsulated (by decide) hlow hhigh
        (isIngress_iff.mp hingress).2.2.2.2.1]
      rfl
    | false =>
      rw [if_neg Bool.false_ne_true, if_neg Bool.false_ne_true, load_received (by decide)
        (by omega)]
      rfl

end Wispr.Gre.Encapsulation
