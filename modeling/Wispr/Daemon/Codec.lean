import Wispr.Daemon.Proto

/-!
# What the encoder and the decoder put on the wire

The in-place copies of `send_packet_withkey` amount to inserting two 802.1Q headers between the
source MAC and the ethertype; those of `process_wispr0_vlan` amount to removing one. Both facts
hold for every frame that fits the buffer, and outside those lengths the encoder faults.
-/

open Wispr.Foundation.ByteBuffer

namespace Wispr.Daemon.Codec

open Proto

/-- A 16-bit value in network order. -/
def networkBytes (value : UInt16) : Frame :=
  [UInt8.ofNat (value.toNat / 256), UInt8.ofNat (value.toNat % 256)]

/-- An 802.1Q header: TPID and TCI. -/
def vlanHeader (tag : UInt16) : Frame := [0x81, 0x00] ++ networkBytes tag

/-- The frame with an outer and an inner tag after the source MAC. -/
def doubleTagged (frame : Frame) (tag : UInt16) : Frame :=
  frame.take 12 ++ (vlanHeader tag ++ vlanHeader tag ++ frame.drop 12)

/-- The frame with one tag after the source MAC. -/
def singleTagged (frame : Frame) (tag : UInt16) : Frame :=
  frame.take 12 ++ (vlanHeader tag ++ frame.drop 12)

/-- The receive path of a packet socket: the outermost tag is taken out of the frame. -/
def untagOuter (frame : Frame) : Frame := frame.take 12 ++ frame.drop 16

/-- The TCI of the outer header, the one a switch matches. -/
def outerTag (frame : Frame) : UInt16 := ntohs ((Buf.received packetSize frame).load16 14)

/-- The TCI of the inner header, the one that survives the outer tag's removal. -/
def innerTag (frame : Frame) : UInt16 := ntohs ((Buf.received packetSize frame).load16 18)

@[simp] theorem doubleTagged_length {frame : Frame} (hlength : 14 ≤ frame.length) (tag : UInt16) :
    (doubleTagged frame tag).length = frame.length + 8 := by
  simp only [doubleTagged, vlanHeader, networkBytes, List.length_append, List.length_take,
    List.length_drop, List.length_cons, List.length_nil]
  omega

@[simp] theorem singleTagged_length {frame : Frame} (hlength : 14 ≤ frame.length) (tag : UInt16) :
    (singleTagged frame tag).length = frame.length + 4 := by
  simp only [singleTagged, vlanHeader, networkBytes, List.length_append, List.length_take,
    List.length_drop, List.length_cons, List.length_nil]
  omega

/-- A prefix of twelve bytes, a block in the middle, the rest shifted behind it. -/
theorem getD_spliced {frame middle : Frame} (hlength : 12 ≤ frame.length) (index : ℕ) :
    (frame.take 12 ++ (middle ++ frame.drop 12)).getD index 0 =
      if index < 12 then frame.getD index 0
      else if index < 12 + middle.length then middle.getD (index - 12) 0
      else frame.getD (index - middle.length) 0 := by
  have htake : (frame.take 12).length = 12 := by simp [hlength]
  by_cases hfront : index < 12
  · rw [List.getD_append _ _ _ _ (by omega), if_pos hfront]
    simp [List.getD_eq_getElem?_getD, hfront]
  · rw [List.getD_append_right _ _ _ _ (by omega), if_neg hfront, htake]
    by_cases hmiddle : index < 12 + middle.length
    · rw [List.getD_append _ _ _ _ (by omega), if_pos hmiddle]
    · rw [List.getD_append_right _ _ _ _ (by omega), if_neg hmiddle]
      simp only [List.getD_eq_getElem?_getD, List.getElem?_drop]
      congr 2
      omega

theorem untagOuter_doubleTagged {frame : Frame} (hlength : 14 ≤ frame.length) (tag : UInt16) :
    untagOuter (doubleTagged frame tag) = singleTagged frame tag := by
  have htake : (frame.take 12).length = 12 := by
    simp only [List.length_take]
    omega
  unfold untagOuter doubleTagged singleTagged
  rw [List.take_append_of_le_length (by omega), List.take_of_length_le (by omega)]
  congr 1
  rw [show (16 : ℕ) = (frame.take 12).length + 4 by omega, List.drop_length_add_append]
  rfl

theorem slice_eq {buf : Buf} {length : ℕ} {frame : Frame} (hlength : frame.length = length)
    (hbytes : ∀ index < length, buf.byte index = frame.getD index 0) :
    buf.slice 0 length = frame := by
  apply List.ext_getElem
  · simp [hlength]
  · intro index hleft hright
    have hbyte := hbytes index (by omega)
    rw [List.getD_eq_getElem _ _ hright] at hbyte
    simpa [Buf.slice] using hbyte

/-- The bytes of the two headers, by position in the frame. -/
theorem doubleTagged_getD {frame : Frame} (hlength : 14 ≤ frame.length) (tag : UInt16) (index : ℕ) :
    (doubleTagged frame tag).getD index 0 =
      if index < 12 then frame.getD index 0
      else if index = 12 ∨ index = 16 then 0x81
      else if index = 13 ∨ index = 17 then 0x00
      else if index = 14 ∨ index = 18 then UInt8.ofNat (tag.toNat / 256)
      else if index = 15 ∨ index = 19 then UInt8.ofNat (tag.toNat % 256)
      else frame.getD (index - 8) 0 := by
  rw [doubleTagged, getD_spliced (by omega)]
  by_cases hfront : index < 12
  · simp [hfront]
  by_cases hheader : index < 20
  · have hcases : index = 12 ∨ index = 13 ∨ index = 14 ∨ index = 15 ∨ index = 16 ∨ index = 17 ∨
        index = 18 ∨ index = 19 := by omega
    rcases hcases with rfl | rfl | rfl | rfl | rfl | rfl | rfl | rfl <;>
      simp [vlanHeader, networkBytes]
  · have hmiddle : (vlanHeader tag ++ vlanHeader tag).length = 8 := rfl
    rw [hmiddle, if_neg hfront, if_neg (by omega), if_neg hfront, if_neg (by omega),
      if_neg (by omega), if_neg (by omega), if_neg (by omega)]

/-- The buffer that holds the first copy. -/
def encoded (frame : Frame) (tag : UInt16) : Buf :=
  let buf := Buf.received packetSize frame
  let buf' := buf.store16 12 (htons ethP8021Q)
  (writeTags buf' tag (ntohs (buf.load16 12))).overwrite 22 (buf'.slice 14 (frame.length - 14))

theorem encoded_byte {frame : Frame} (hlength : 14 ≤ frame.length) (tag : UInt16) {index : ℕ}
    (hindex : index < frame.length + 8) :
    (encoded frame tag).byte index = (doubleTagged frame tag).getD index 0 := by
  rw [doubleTagged_getD hlength]
  simp only [encoded, Buf.overwrite_byte, Buf.slice_length, Buf.slice_getD, writeTags,
    Buf.store16_htons_byte, sizeofEthhdr, sizeofVlan, ntohs_high, ntohs_low,
    Buf.ofNat_load16_high, Buf.ofNat_load16_low, Buf.received_byte, ethP8021Q]
  by_cases hpayload : 22 ≤ index
  · rw [if_pos ⟨hpayload, by omega⟩, if_pos (by omega), if_neg (by omega), if_neg (by omega),
      if_neg (by omega), if_neg (by omega), if_neg (by omega), if_neg (by omega), if_neg (by omega)]
    congr 1
    omega
  · rw [if_neg (by omega)]
    by_cases hfront : index < 12
    · simp only [hfront, if_true]
      repeat rw [if_neg (by omega)]
    · have hcases : index = 12 ∨ index = 13 ∨ index = 14 ∨ index = 15 ∨ index = 16 ∨ index = 17 ∨
          index = 18 ∨ index = 19 ∨ index = 20 ∨ index = 21 := by omega
      rcases hcases with rfl | rfl | rfl | rfl | rfl | rfl | rfl | rfl | rfl | rfl <;> simp

theorem mirrored_byte {frame : Frame} (hlength : 14 ≤ frame.length) (tag : UInt16) {index : ℕ}
    (hindex : index < frame.length + 8) :
    (writeMirrorTags (encoded frame tag) tag).byte index =
      (doubleTagged frame (tag ||| 0x0100)).getD index 0 := by
  rw [doubleTagged_getD hlength]
  simp only [writeMirrorTags, Buf.store16_htons_byte, encoded_byte hlength tag hindex,
    doubleTagged_getD hlength, sizeofEthhdr, sizeofVlan]
  by_cases hfront : index < 12
  · simp only [hfront, if_true]
    repeat rw [if_neg (by omega)]
  by_cases hheader : index < 20
  · have hcases : index = 12 ∨ index = 13 ∨ index = 14 ∨ index = 15 ∨ index = 16 ∨ index = 17 ∨
        index = 18 ∨ index = 19 := by omega
    rcases hcases with rfl | rfl | rfl | rfl | rfl | rfl | rfl | rfl <;> simp
  · repeat rw [if_neg (by omega)]

/-- `send_packet_withkey` emits the frame with two equal tags, then with the mirror bit in both. -/
theorem sendPacketWithkey_eq {frame : Frame} (hlow : 14 ≤ frame.length)
    (hhigh : frame.length + 8 ≤ packetSize) (tag : UInt16) :
    sendPacketWithkey (.received packetSize frame) frame.length tag =
      .ok [doubleTagged frame tag, doubleTagged frame (tag ||| 0x0100)] := by
  have hsize : packetSize = 66000 := rfl
  have hremLen : toSize (toInt (frame.length - (sizeofEthhdr : ℕ))) = frame.length - 14 := by
    rw [toInt_of_bounds (by simp only [sizeofEthhdr]; omega) (by simp only [sizeofEthhdr]; omega),
      toSize_of_bounds (by simp only [sizeofEthhdr]; omega) (by simp only [sizeofEthhdr]; omega)]
    simp only [sizeofEthhdr]
    omega
  have hsent : toSize (frame.length + (sizeofVlan : ℕ) + (sizeofVlan : ℕ)) = frame.length + 8 := by
    rw [toSize_of_bounds (by positivity) (by simp only [sizeofVlan]; omega)]
    simp only [sizeofVlan]
    omega
  have hipHeader (byte : UInt8) : 14 + byte.toNat % 16 * 4 ≤ packetSize := by omega
  have horiginal : (encoded frame tag).slice 0 (frame.length + 8) = doubleTagged frame tag :=
    slice_eq (doubleTagged_length hlow tag) fun _ hindex ↦ encoded_byte hlow tag hindex
  have hmirror : (writeMirrorTags (encoded frame tag) tag).slice 0 (frame.length + 8) =
      doubleTagged frame (tag ||| 0x0100) :=
    slice_eq (doubleTagged_length hlow _) fun _ hindex ↦ mirrored_byte hlow tag hindex
  simp only [sendPacketWithkey, hremLen, hsent]
  simp only [sizeofEthhdr, sizeofVlan]
  rw [Buf.load_eq_ok (by simpa using hipHeader _)]
  simp only [bind, Except.bind]
  rw [Buf.load_eq_ok (by simp only [Buf.store16_size, Buf.received_size]; omega)]
  simp only
  rw [Buf.store_eq_ok (by simp [writeTags]; omega)]
  simp only
  rw [Buf.load_eq_ok (by simp [writeTags]; omega)]
  simp only
  rw [Buf.load_eq_ok (by simp [writeTags, writeMirrorTags]; omega)]
  simp only [pure, Except.pure]
  rw [← horiginal, ← hmirror]
  rfl

/-- Shorter and longer frames make one of the copies leave the buffer. -/
theorem sendPacketWithkey_bounds {frame : Frame} (hfits : frame.length ≤ packetSize) {tag : UInt16}
    {sent : List Frame}
    (h : sendPacketWithkey (.received packetSize frame) frame.length tag = .ok sent) :
    14 ≤ frame.length ∧ frame.length + 8 ≤ packetSize := by
  have hsize : packetSize = 66000 := rfl
  simp only [sendPacketWithkey, bind_eq_ok, Buf.load_ok_iff, Buf.store_ok_iff] at h
  obtain ⟨-, -, remBuf, ⟨hread, hremBuf⟩, buf, ⟨hwrite, -⟩, -⟩ := h
  simp only [sizeofEthhdr, sizeofVlan, Buf.store16_size, Buf.received_size, writeTags]
    at hread hwrite
  have hlow : 14 ≤ frame.length := by
    by_contra hshort
    rw [toInt_of_bounds (by omega) (by omega)] at hread
    have hnegative : (frame.length - (14 : ℕ) : ℤ) < 0 := by omega
    have hhuge := toSize_of_neg (by omega) hnegative
    omega
  refine ⟨hlow, ?_⟩
  simp only [hremBuf, Buf.slice_length, sizeofEthhdr] at hwrite
  rw [toInt_of_bounds (by omega) (by omega), toSize_of_bounds (by omega) (by omega)] at hwrite
  omega

/-- Both headers of an encoded frame carry the tag it was encoded with. -/
theorem outerTag_doubleTagged {frame : Frame} (hlength : 14 ≤ frame.length) (tag : UInt16) :
    outerTag (doubleTagged frame tag) = tag := by
  apply Buf.ntohs_load16
  · rw [Buf.received_byte, doubleTagged_getD hlength]
    simp
  · rw [Buf.received_byte, doubleTagged_getD hlength]
    simp

theorem innerTag_doubleTagged {frame : Frame} (hlength : 14 ≤ frame.length) (tag : UInt16) :
    innerTag (doubleTagged frame tag) = tag := by
  apply Buf.ntohs_load16
  · rw [Buf.received_byte, doubleTagged_getD hlength]
    simp
  · rw [Buf.received_byte, doubleTagged_getD hlength]
    simp

theorem untagOuter_length {frame : Frame} (hlength : 16 ≤ frame.length) :
    (untagOuter frame).length = frame.length - 4 := by
  simp only [untagOuter, List.length_append, List.length_take, List.length_drop]
  omega

theorem untagOuter_getD {frame : Frame} (hlength : 16 ≤ frame.length) (index : ℕ) :
    (untagOuter frame).getD index 0 =
      if index < 12 then frame.getD index 0 else frame.getD (index + 4) 0 := by
  have htake : (frame.take 12).length = 12 := by
    simp only [List.length_take]
    omega
  by_cases hfront : index < 12
  · rw [untagOuter, List.getD_append _ _ _ _ (by omega), if_pos hfront]
    simp [List.getD_eq_getElem?_getD, hfront]
  · rw [untagOuter, List.getD_append_right _ _ _ _ (by omega), if_neg hfront, htake]
    simp only [List.getD_eq_getElem?_getD, List.getElem?_drop]
    congr 2
    omega

theorem untagOuter_singleTagged {frame : Frame} (hlength : 14 ≤ frame.length) (tag : UInt16) :
    untagOuter (singleTagged frame tag) = frame := by
  have htake : (frame.take 12).length = 12 := by
    simp only [List.length_take]
    omega
  unfold untagOuter singleTagged
  rw [List.take_append_of_le_length (by omega), List.take_of_length_le (by omega)]
  have hdrop : (frame.take 12 ++ (vlanHeader tag ++ frame.drop 12)).drop 16 = frame.drop 12 := by
    rw [show (16 : ℕ) = (frame.take 12).length + 4 by omega, List.drop_length_add_append]
    rfl
  rw [hdrop, List.take_append_drop]

theorem singleTagged_getD {frame : Frame} (hlength : 14 ≤ frame.length) (tag : UInt16) (index : ℕ) :
    (singleTagged frame tag).getD index 0 =
      if index < 12 then frame.getD index 0
      else if index < 16 then (vlanHeader tag).getD (index - 12) 0
      else frame.getD (index - 4) 0 := by
  have hheader : (vlanHeader tag).length = 4 := rfl
  rw [singleTagged, getD_spliced (by omega), hheader]

/-- The tag the egress reads is the one that is left. -/
theorem receivedTag_singleTagged {frame : Frame} (hlength : 14 ≤ frame.length) (tag : UInt16) :
    receivedTag (.received packetSize (singleTagged frame tag)) = tag := by
  apply Buf.ntohs_load16
  · rw [Buf.received_byte, singleTagged_getD hlength]
    simp [vlanHeader, networkBytes, sizeofEthhdr]
  · rw [Buf.received_byte, singleTagged_getD hlength]
    simp [vlanHeader, networkBytes, sizeofEthhdr]

/-- Behind the header the egress finds the addresses the ingress found in front of it. -/
theorem egressKey_singleTagged {frame : Frame} (hlength : 14 ≤ frame.length) (tag : UInt16) :
    egressKey (.received packetSize (singleTagged frame tag)) =
      ingressKey (.received packetSize frame) := by
  have hshift (offset index : ℕ) (hoffset : 16 ≤ offset) :
      (Buf.received packetSize (singleTagged frame tag)).byte (offset + index) =
        (Buf.received packetSize frame).byte (offset - 4 + index) := by
    rw [Buf.received_byte, Buf.received_byte, singleTagged_getD hlength, if_neg (by omega),
      if_neg (by omega)]
    congr 1
    omega
  simp only [egressKey, ingressKey, sizeofEthhdr, sizeofVlan, SessionKey.mk.injEq]
  exact ⟨Buf.load32_congr fun index _ ↦ hshift 30 index (by decide),
    Buf.load32_congr fun index _ ↦ hshift 34 index (by decide)⟩

/-- The header removal of `process_wispr0_vlan` takes the four bytes after the source MAC out of
any tagged frame. -/
theorem removeVlan_eq (frame : Frame) (hlow : 18 ≤ frame.length)
    (hhigh : frame.length ≤ packetSize) :
    removeVlan (.received packetSize frame) frame.length
      (ntohs ((Buf.received packetSize frame).load16 (sizeofEthhdr + 2))) =
      .ok (untagOuter frame) := by
  have hsize : packetSize = 66000 := rfl
  have hremLen : toInt (frame.length - (14 : ℕ) - (4 : ℕ)) = frame.length - 18 := by
    rw [toInt_of_bounds (by omega) (by omega)]
    omega
  have hcopied : toSize (frame.length - 18 : ℤ) = frame.length - 18 := by
    rw [toSize_of_bounds (by omega) (by omega)]
    omega
  have hcleared : toSize ((frame.length - 18 : ℤ) + (4 : ℕ)) = frame.length - 14 := by
    rw [toSize_of_bounds (by omega) (by omega)]
    omega
  have hsent : toSize (frame.length - (4 : ℕ)) = frame.length - 4 := by
    rw [toSize_of_bounds (by omega) (by omega)]
    omega
  simp only [removeVlan, sizeofEthhdr, sizeofVlan, hremLen, hcopied, hcleared, hsent]
  rw [Buf.load_eq_ok (by simp only [Buf.received_size]; omega)]
  obtain ⟨cleared, hfill⟩ := Buf.fill_ok (.received packetSize frame) 14 (frame.length - 14) 0
    (by simp only [Buf.received_size]; omega)
  have hclearedSize : cleared.size = packetSize := Buf.fill_size hfill
  simp only [bind, Except.bind, hfill]
  rw [Buf.store_eq_ok (by simp only [Buf.slice_length, hclearedSize]; omega)]
  simp only
  rw [Buf.load_eq_ok (by simp only [Buf.store16_size, Buf.overwrite_size, hclearedSize]; omega)]
  congr 1
  apply slice_eq (untagOuter_length (by omega))
  intro index hindex
  rw [untagOuter_getD (by omega)]
  simp only [Buf.store16_htons_byte, ntohs_high, ntohs_low, Buf.ofNat_load16_high,
    Buf.ofNat_load16_low, Buf.overwrite_byte, Buf.slice_length, Buf.slice_getD,
    Buf.fill_byte hfill, Buf.received_byte]
  by_cases hpayload : 14 ≤ index
  · rw [if_neg (by omega), if_neg (by omega), if_pos (by omega), if_pos (by omega),
      if_neg (by omega)]
    congr 1
    omega
  · by_cases hfront : index < 12
    · rw [if_neg (by omega), if_neg (by omega), if_neg (by omega), if_neg (by omega), if_pos hfront]
    · have hcases : index = 12 ∨ index = 13 := by omega
      rcases hcases with rfl | rfl <;> simp

end Wispr.Daemon.Codec
