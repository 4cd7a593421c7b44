import Wispr.Daemon.Striping

/-!
# Memory accesses of the VLAN daemon

Two kinds of access depend on what arrives: the timestamp matrix is indexed by two nibbles of the
received tag, and block operations get lengths computed from the received byte count. Neither is
checked by the code. For a received frame the accesses stay inside in every reachable state exactly
when the frame avoids the cases named here.
-/

open Wispr.Foundation.ByteBuffer Wispr.Foundation.Run

namespace Wispr.Daemon.Bounds

open Proto Net Codec Striping

variable {build : Build}

/-- The tables after any completed run of the daemon. -/
def ReachableTables (build : Build) (iface : Iface) (tables : Tables build) : Prop :=
  ∃ inputs outputs, run (processNewpkt iface) (initWisprtables build) inputs = .ok (tables, outputs)

theorem reachableTables_init (build : Build) (iface : Iface) :
    ReachableTables build iface (initWisprtables build) := ⟨[], [], rfl⟩

/-- The two tag bytes, in network order. -/
theorem receivedTag_toNat (buf : Buf) :
    (receivedTag buf).toNat = (buf.byte 14).toNat * 256 + (buf.byte 15).toNat := by
  have hhigh := (buf.byte 14).toNat_lt
  have hlow := (buf.byte 15).toNat_lt
  simp only [receivedTag, ntohs, toNat_htons, Buf.load16, sizeofEthhdr, UInt16.toNat_ofNat',
    Nat.reduceAdd]
  omega

theorem wisprMode_receivedTag (buf : Buf) :
    wisprMode (receivedTag buf) = (buf.byte 14).toNat % 16 := by
  have hlow := (buf.byte 15).toNat_lt
  rw [wisprMode_eq_div_mod, receivedTag_toNat]
  omega

theorem groupId_receivedTag (buf : Buf) :
    groupId (receivedTag buf) = (buf.byte 15).toNat / 16 := by
  have hlow := (buf.byte 15).toNat_lt
  rw [groupId_eq_div_mod, receivedTag_toNat]
  omega

theorem packetNumber_receivedTag (buf : Buf) :
    packetNumber (receivedTag buf) = (buf.byte 15).toNat % 16 := by
  rw [packetNumber_eq_mod, receivedTag_toNat]
  omega

/-- In the striping and mirroring branch the decoded pair lies inside the matrix. -/
def SlotInside (build : Build) (buf : Buf) : Prop :=
  wisprMode (receivedTag buf) ≠ 3 →
    groupId (receivedTag buf) < build.numberOfGroups ∧
      packetNumber (receivedTag buf) ≤ build.numberOfPaths

theorem removeVlan_ne_index (buf : Buf) (numbytes : ℤ) (previousProtocol : UInt16) :
    removeVlan buf numbytes previousProtocol ≠ .error .index := by
  apply bind_ne_error (Buf.load_ne_index _ _ _)
  intro remBuf
  apply bind_ne_error (Buf.fill_ne_index _ _ _ _)
  intro cleared
  apply bind_ne_error (Buf.store_ne_index _ _ _)
  intro stored
  exact Buf.load_ne_index _ _ _

theorem processWispr0Vlan_ne_index (tables : Tables build) {buf : Buf} (numbytes : ℤ)
    (now : Timeval) (hslot : SlotInside build buf) :
    processWispr0Vlan tables buf numbytes now ≠ .error .index := by
  by_cases hmode : wisprMode (receivedTag buf) = 3
  · rw [processWispr0Vlan_parity tables numbytes now hmode]
    simp
  · obtain ⟨hgroup, hpacket⟩ := hslot hmode
    simp only [processWispr0Vlan, hmode, if_false, hgroup, Nat.lt_succ_of_le hpacket, and_self,
      dite_true]
    split
    · apply bind_ne_error (removeVlan_ne_index _ _ _)
      intro sent
      simp [pure, Except.pure]
    · simp

/-- A tagged frame that is handed on indexes inside the matrix, in every reachable state and at
every time, exactly when its tag bytes announce parity mode or a group and packet number of the
build. -/
theorem tag_indexes_matrix_iff (build : Build) (iface : Iface) (recv : Recv)
    (harrival : isVlanArrival iface recv.buf = true) :
    (SlotInside build recv.buf ∧
        ∀ tables, ReachableTables build iface tables → ∀ now,
          processNewpkt iface tables ⟨now, recv⟩ ≠ .error .index) ↔
      ((recv.buf.byte 14).toNat % 16 = 3 ∨
        ((recv.buf.byte 15).toNat / 16 < build.numberOfGroups ∧
          (recv.buf.byte 15).toNat % 16 ≤ build.numberOfPaths)) := by
  have hdecoded : SlotInside build recv.buf ↔ ((recv.buf.byte 14).toNat % 16 = 3 ∨
      ((recv.buf.byte 15).toNat / 16 < build.numberOfGroups ∧
        (recv.buf.byte 15).toNat % 16 ≤ build.numberOfPaths)) := by
    rw [SlotInside, wisprMode_receivedTag, groupId_receivedTag, packetNumber_receivedTag]
    exact Decidable.or_iff_not_imp_left.symm
  rw [← hdecoded]
  constructor
  · exact And.left
  · intro hslot
    refine ⟨hslot, ?_⟩
    intro tables _ now
    have hhandler : processNewpkt iface tables ⟨now, recv⟩ =
        processWispr0Vlan tables recv.buf recv.numbytes now :=
      @processNewpkt_of_isVlanArrival build iface tables ⟨now, recv⟩ harrival
    rw [hhandler]
    exact processWispr0Vlan_ne_index tables _ now hslot

/-- A frame for 10.0.0.2 whose tag names group 15. -/
def strayTagged : Recv :=
  .frame [2, 0, 0, 0, 0, 2, 2, 0, 0, 0, 0, 1, 0x81, 0x00, 0x00, 0xF1, 0x08, 0x00,
    0x45, 0, 0, 20, 0, 0, 0, 0, 64, 6, 0, 0, 10, 0, 0, 1, 10, 0, 0, 2] (by decide)

theorem stray_tag_leaves_matrix :
    isVlanArrival plainIface strayTagged.buf = true ∧ ¬ SlotInside wisprBuild strayTagged.buf ∧
      processNewpkt plainIface (initWisprtables wisprBuild) ⟨⟨1, 0⟩, strayTagged⟩ =
        .error .index := by
  have harrival : isVlanArrival plainIface strayTagged.buf = true := by decide
  refine ⟨harrival, ?_, rfl⟩
  intro hslot
  exact absurd (hslot (by decide)).1 (by decide)

/-- The same frame with the tag of group 1, packet 5. -/
def properTagged : Recv :=
  .frame [2, 0, 0, 0, 0, 2, 2, 0, 0, 0, 0, 1, 0x81, 0x00, 0x01, 0x15, 0x08, 0x00,
    0x45, 0, 0, 20, 0, 0, 0, 0, 64, 6, 0, 0, 10, 0, 0, 1, 10, 0, 0, 2] (by decide)

theorem tag_indexes_matrix_proper :
    SlotInside wisprBuild properTagged.buf ∧
      ∀ tables, ReachableTables wisprBuild plainIface tables → ∀ now,
        processNewpkt plainIface tables ⟨now, properTagged⟩ ≠ .error .index :=
  (tag_indexes_matrix_iff wisprBuild plainIface properTagged (by decide)).mpr
    (.inr ⟨by decide, by decide⟩)

/-! ## Block operations -/

/-- Every block operation of one call stays inside the buffer it addresses. Where the tag points
outside the timestamp matrix any value can be found there, so the removal of the header may follow
and has to stay inside as well. -/
def RangesInside (iface : Iface) (tables : Tables build) (input : Input) : Prop :=
  match processNewpkt iface tables input with
  | .ok _ => True
  | .error .index => ∃ frame, removeVlan input.recv.buf input.recv.numbytes
      (ntohs (input.recv.buf.load16 (sizeofEthhdr + 2))) = .ok frame
  | .error _ => False

theorem rangesInside_of_ok {iface : Iface} {tables : Tables build} {input : Input}
    (h : ∃ next sent, processNewpkt iface tables input = .ok (next, sent)) :
    RangesInside iface tables input := by
  obtain ⟨next, sent, hok⟩ := h
  simp [RangesInside, hok]

/-- Apart from the timestamp matrix, a call keeps its ranges only if it returns. -/
theorem ok_of_rangesInside {iface : Iface} {tables : Tables build} {input : Input}
    (h : RangesInside iface tables input)
    (hindex : processNewpkt iface tables input ≠ .error .index) :
    ∃ next sent, processNewpkt iface tables input = .ok (next, sent) := by
  cases hresult : processNewpkt iface tables input with
  | ok result => exact ⟨result.1, result.2, rfl⟩
  | error fault =>
    cases fault with
    | index => exact absurd hresult hindex
    | read => simp [RangesInside, hresult] at h
    | write => simp [RangesInside, hresult] at h

/-- Frames that end before the header they carry is complete make the copied length negative. -/
theorem removeVlan_bounds {frame : Frame} (hfits : frame.length ≤ packetSize)
    {previousProtocol : UInt16} {sent : Frame}
    (h : removeVlan (.received packetSize frame) frame.length previousProtocol = .ok sent) :
    18 ≤ frame.length := by
  have hsize : packetSize = 66000 := rfl
  simp only [removeVlan, bind_eq_ok, Buf.load_ok_iff] at h
  obtain ⟨remBuf, ⟨hread, -⟩, -⟩ := h
  simp only [sizeofEthhdr, sizeofVlan, Buf.received_size] at hread
  by_contra hshort
  rw [toInt_of_bounds (by omega) (by omega)] at hread
  have hnegative : (frame.length - (14 : ℕ) - (4 : ℕ) : ℤ) < 0 := by omega
  have hhuge := toSize_of_neg (by omega) hnegative
  omega

/-- A tagged frame of a build that arrives one second after the epoch at a fresh daemon has its
header removed, if its ranges stay inside. -/
theorem removeVlan_of_rangesInside {iface : Iface} {recv : Recv}
    (harrival : isVlanArrival iface recv.buf = true)
    (hmode : wisprMode (receivedTag recv.buf) ≠ 3)
    (h : RangesInside iface (initWisprtables build) ⟨⟨1, 0⟩, recv⟩) :
    ∃ frame, removeVlan recv.buf recv.numbytes (ntohs (recv.buf.load16 (sizeofEthhdr + 2))) =
      .ok frame := by
  have hhandler : processNewpkt iface (initWisprtables build) ⟨⟨1, 0⟩, recv⟩ =
      processWispr0Vlan (initWisprtables build) recv.buf recv.numbytes ⟨1, 0⟩ :=
    @processNewpkt_of_isVlanArrival build iface _ ⟨⟨1, 0⟩, recv⟩ harrival
  cases hresult : processWispr0Vlan (initWisprtables build) recv.buf recv.numbytes ⟨1, 0⟩ with
  | ok result =>
    obtain ⟨hgroup, hpacket, -, hforwarded | hdropped⟩ := processWispr0Vlan_ok hmode hresult
    · obtain ⟨-, -, frame, hframe, -⟩ := hforwarded
      exact ⟨frame, hframe⟩
    · exact absurd (.inl (by decide : timeout < timeDiff ⟨0, 0⟩ ⟨1, 0⟩)) hdropped.1
  | error fault =>
    rw [← hhandler] at hresult
    cases fault with
    | index => simpa [RangesInside, hresult] using h
    | read => simp [RangesInside, hresult] at h
    | write => simp [RangesInside, hresult] at h

theorem rangesInside_of_vlan {iface : Iface} (tables : Tables build) {input : Input}
    (harrival : isVlanArrival iface input.recv.buf = true)
    (hlength : wisprMode (receivedTag input.recv.buf) ≠ 3 → 18 ≤ input.recv.numbytes) :
    RangesInside iface tables input := by
  have hhandler := processNewpkt_of_isVlanArrival tables harrival
  by_cases hmode : wisprMode (receivedTag input.recv.buf) = 3
  · apply rangesInside_of_ok
    exact ⟨tables, [], hhandler.trans (processWispr0Vlan_parity tables _ _ hmode)⟩
  have hremove : ∃ frame, removeVlan input.recv.buf input.recv.numbytes
      (ntohs (input.recv.buf.load16 (sizeofEthhdr + 2))) = .ok frame := by
    have hlow := hlength hmode
    cases hrecv : input.recv with
    | failed => simp [hrecv, Recv.numbytes] at hlow
    | frame bytes fits =>
      simp only [hrecv, Recv.numbytes] at hlow
      exact ⟨_, removeVlan_eq bytes (by omega) fits⟩
  by_cases hslot : groupId (receivedTag input.recv.buf) < build.numberOfGroups ∧
      packetNumber (receivedTag input.recv.buf) < build.numberOfPaths + 1
  · apply rangesInside_of_ok
    rw [hhandler]
    exact processWispr0Vlan_completes tables _ input.now hslot.1 hslot.2 hremove
  · have hindex : processNewpkt iface tables input = .error .index := by
      rw [hhandler]
      simp only [processWispr0Vlan, hmode, if_false, hslot, dite_false]
    simpa [RangesInside, hindex] using hremove

theorem sendPacketWithkey_ne_index (buf : Buf) (numbytes : ℤ) (vlanId : UInt16) :
    sendPacketWithkey buf numbytes vlanId ≠ .error .index := by
  apply bind_ne_error (Buf.load_ne_index _ _ _)
  intro ipHeader
  apply bind_ne_error (Buf.load_ne_index _ _ _)
  intro remBuf
  apply bind_ne_error (Buf.store_ne_index _ _ _)
  intro stored
  apply bind_ne_error (Buf.load_ne_index _ _ _)
  intro original
  apply bind_ne_error (Buf.load_ne_index _ _ _)
  intro mirror
  simp [pure, Except.pure]

theorem processIngress0_ne_index (tables : Tables build) (buf : Buf) (numbytes : ℤ) :
    processIngress0 tables buf numbytes ≠ .error .index := by
  apply bind_ne_error (sendPacketWithkey_ne_index _ _ _)
  intro sent
  simp [pure, Except.pure]

/-- An accepted packet holds at least its IP protocol byte: the buffer was zeroed. -/
theorem length_of_isIngress {iface : Iface} {bytes : Frame}
    (h : isIngress iface (.received packetSize bytes) = true) : 24 ≤ bytes.length := by
  by_contra hshort
  have hzero : ipProtocol (.received packetSize bytes) = 0 := by
    simp only [ipProtocol, sizeofEthhdr, Buf.received_byte]
    exact List.getD_eq_default _ _ (by omega)
  simp [isIngress, hzero] at h

theorem processNewpkt_of_isGreArrival {iface : Iface} (tables : Tables build) {input : Input}
    (h : isGreArrival iface input.recv.buf = true) :
    processNewpkt iface tables input = (do
      let sent ← processWispr0 iface tables input.recv.buf input.recv.numbytes
      return (tables, sent)) := by
  obtain ⟨hpass, htype, hsrc, hdst, hproto, key, hparsed, hmode⟩ := isGreArrival_iff.mp h
  obtain ⟨hmac, hbroadcast, hignored, hlldp⟩ := passesFilters_iff.mp hpass
  simp [processNewpkt, handleIpv4pkt, sizeofEthhdr, hmac, hbroadcast, hignored, hlldp, htype, hsrc,
    hdst, hproto, hparsed, hmode]

theorem processWispr0_ne_index (iface : Iface) (tables : Tables build) (buf : Buf) (numbytes : ℤ) :
    processWispr0 iface tables buf numbytes ≠ .error .index := by
  unfold processWispr0
  split
  · apply bind_ne_error (Buf.load_ne_index _ _ _)
    intro remBuf
    apply bind_ne_error (Buf.fill_ne_index _ _ _ _)
    intro cleared
    apply bind_ne_error (Buf.store_ne_index _ _ _)
    intro stored
    apply bind_ne_error (Buf.load_ne_index _ _ _)
    intro sent
    simp [pure, Except.pure]
  · apply bind_ne_error (Buf.load_ne_index _ _ _)
    intro sent
    simp [pure, Except.pure]

/-- Frames that end before the headers to remove make the copied length negative. -/
theorem processWispr0_bounds {iface : Iface} {tables : Tables build} {frame : Frame}
    (hfits : frame.length ≤ packetSize)
    (hegress : isEgressNode iface tables (.received packetSize frame) = true) {sent : List Frame}
    (h : processWispr0 iface tables (.received packetSize frame) frame.length = .ok sent) :
    42 ≤ frame.length := by
  have hsize : packetSize = 66000 := rfl
  rw [isEgressNode] at hegress
  rw [processWispr0, if_pos hegress] at h
  simp only [bind_eq_ok, Buf.load_ok_iff] at h
  obtain ⟨remBuf, ⟨hread, -⟩, -⟩ := h
  simp only [sizeofEthhdr, sizeofIphdr, sizeofWisprPacket, Buf.received_size] at hread
  by_contra hshort
  rw [toInt_of_bounds (by omega) (by omega)] at hread
  have hnegative : (frame.length - (20 : ℕ) - (14 : ℕ) - (8 : ℕ) : ℤ) < 0 := by omega
  have hhuge := toSize_of_neg (by omega) hnegative
  omega

theorem processIngress0_hostIp {tables next : Tables build} {buf : Buf} {numbytes : ℤ}
    {sent : List Frame} (h : processIngress0 tables buf numbytes = .ok (next, sent)) :
    next.hostIp = tables.hostIp := by
  simp only [processIngress0, bind_eq_ok, pure, Except.pure, Except.ok.injEq, Prod.mk.injEq] at h
  obtain ⟨frames, -, rfl, -⟩ := h
  unfold getOrAddIngresssession
  cases tables.wispringress (ingressKey buf) with
  | some session => rfl
  | none => rfl

theorem processWispr0Vlan_hostIp {tables next : Tables build} {buf : Buf} {numbytes : ℤ}
    {now : Timeval} {sent : List Frame}
    (h : processWispr0Vlan tables buf numbytes now = .ok (next, sent)) :
    next.hostIp = tables.hostIp := by
  have hlookup : (getOrAddMirrorSession tables (egressKey buf)).1.hostIp = tables.hostIp := by
    unfold getOrAddMirrorSession
    cases tables.wisprmirt (egressKey buf) with
    | some session => rfl
    | none => rfl
  simp only [processWispr0Vlan] at h
  split at h
  · cases h
    rfl
  split at h
  · split at h
    · simp only [bind_eq_ok, pure, Except.pure, Except.ok.injEq, Prod.mk.injEq] at h
      obtain ⟨frame, -, rfl, -⟩ := h
      exact hlookup
    · cases h
      exact hlookup
  · cases h

/-- The VLAN daemon never learns a host behind it. -/
theorem hostIp_of_reachable {iface : Iface} {tables : Tables build}
    (h : ReachableTables build iface tables) (address : UInt32) :
    tables.hostIp address = false := by
  obtain ⟨inputs, outputs, hrun⟩ := h
  refine run_invariant (fun tables : Tables build ↦ ∀ address, tables.hostIp address = false) ?_
    (fun _ ↦ rfl) hrun address
  intro state next input output hstate hstep address
  rcases processNewpkt_cases hstep with ⟨-, hingress⟩ | ⟨-, hvlan⟩ | ⟨-, -, hsame⟩
  · rw [processIngress0_hostIp hingress]
    exact hstate address
  · rw [processWispr0Vlan_hostIp hvlan]
    exact hstate address
  · rw [hsame]
    exact hstate address

/-- A striped or mirrored frame that ends before its tag header is complete. -/
def ShortTagged (iface : Iface) (recv : Recv) : Prop :=
  isVlanArrival iface recv.buf = true ∧ (recv.buf.byte 14).toNat % 16 ≠ 3 ∧ recv.numbytes < 18

/-- An accepted packet that leaves no room for the two tags in the buffer. -/
def LongIngress (iface : Iface) (recv : Recv) : Prop :=
  isIngress iface recv.buf = true ∧ 65992 < recv.numbytes

/-- A GRE frame for the gateway that ends before the headers to remove are complete. -/
def ShortGre (iface : Iface) (recv : Recv) : Prop :=
  isGreArrival iface recv.buf = true ∧ destIs recv.buf iface.gateWayIporMAC = true ∧
    recv.numbytes < 42

theorem not_shortTagged {iface : Iface} {recv : Recv}
    (h : RangesInside iface (initWisprtables build) ⟨⟨1, 0⟩, recv⟩) : ¬ ShortTagged iface recv := by
  rintro ⟨harrival, hmode, hshort⟩
  rw [← wisprMode_receivedTag] at hmode
  obtain ⟨sent, hsent⟩ := removeVlan_of_rangesInside harrival hmode h
  cases recv with
  | failed => simp [isVlanArrival, etherType_failed] at harrival
  | frame bytes fits =>
    have hlow := removeVlan_bounds fits hsent
    simp only [Recv.numbytes] at hshort
    omega

theorem not_longIngress {iface : Iface} {recv : Recv}
    (h : RangesInside iface (initWisprtables build) ⟨⟨1, 0⟩, recv⟩) : ¬ LongIngress iface recv := by
  rintro ⟨hingress, hlong⟩
  have hhandler : processNewpkt iface (initWisprtables build) ⟨⟨1, 0⟩, recv⟩ =
      processIngress0 (initWisprtables build) recv.buf recv.numbytes :=
    @processNewpkt_of_isIngress build iface _ ⟨⟨1, 0⟩, recv⟩ hingress
  obtain ⟨next, sent, hok⟩ := ok_of_rangesInside h (hhandler ▸ processIngress0_ne_index _ _ _)
  rw [hhandler] at hok
  obtain ⟨-, -, -, hsend⟩ := processIngress0_ok hok
  obtain ⟨bytes, fits, rfl⟩ := recv_of_isIngress hingress
  have hhigh := (sendPacketWithkey_bounds fits hsend).2
  have hsize : packetSize = 66000 := rfl
  simp only [Recv.numbytes] at hlong
  omega

theorem not_shortGre {iface : Iface} {recv : Recv}
    (h : RangesInside iface (initWisprtables build) ⟨⟨1, 0⟩, recv⟩) : ¬ ShortGre iface recv := by
  rintro ⟨hgre, hgateway, hshort⟩
  have hhandler : processNewpkt iface (initWisprtables build) ⟨⟨1, 0⟩, recv⟩ = (do
      let sent ← processWispr0 iface (initWisprtables build) recv.buf recv.numbytes
      return (initWisprtables build, sent)) :=
    @processNewpkt_of_isGreArrival build iface _ ⟨⟨1, 0⟩, recv⟩ hgre
  have hindex : processNewpkt iface (initWisprtables build) ⟨⟨1, 0⟩, recv⟩ ≠ .error .index := by
    rw [hhandler]
    apply bind_ne_error (processWispr0_ne_index _ _ _ _)
    intro sent
    simp [pure, Except.pure]
  obtain ⟨next, sent, hok⟩ := ok_of_rangesInside h hindex
  rw [hhandler, bind_eq_ok] at hok
  obtain ⟨frames, hframes, -⟩ := hok
  cases recv with
  | failed => simp [isGreArrival, etherType_failed] at hgre
  | frame bytes fits =>
    have hegress :
        isEgressNode iface (initWisprtables build) (.received packetSize bytes) = true := by
      rw [isEgressNode, Bool.or_eq_true]
      exact .inr hgateway
    have hlow := processWispr0_bounds fits hegress hframes
    simp only [Recv.numbytes] at hshort
    omega

theorem rangesInside_of_avoids {iface : Iface} {tables : Tables build}
    (hreachable : ReachableTables build iface tables) {input : Input}
    (htagged : ¬ ShortTagged iface input.recv) (hlong : ¬ LongIngress iface input.recv)
    (hgre : ¬ ShortGre iface input.recv) : RangesInside iface tables input := by
  have hsize : packetSize = 66000 := rfl
  by_cases hvlan : isVlanArrival iface input.recv.buf = true
  · apply rangesInside_of_vlan tables hvlan
    intro hmode
    rw [wisprMode_receivedTag] at hmode
    by_contra hshort
    exact htagged ⟨hvlan, hmode, not_le.mp hshort⟩
  apply rangesInside_of_ok
  by_cases hingress : isIngress iface input.recv.buf = true
  · obtain ⟨bytes, fits, hrecv⟩ := recv_of_isIngress hingress
    have hlow : 24 ≤ bytes.length := by
      apply length_of_isIngress
      simpa only [hrecv, Recv.buf] using hingress
    have hhigh : bytes.length ≤ 65992 := by
      by_contra hbeyond
      refine hlong ⟨hingress, ?_⟩
      simp only [hrecv, Recv.numbytes]
      omega
    exact processNewpkt_completes_of_ingress tables hrecv hingress (by omega) (by omega)
  · apply processNewpkt_completes_of_other tables hvlan hingress
    intro harrival hegress
    rw [isEgressNode, hostIp_of_reachable hreachable, Bool.false_or] at hegress
    by_contra hshort
    exact hgre ⟨harrival, hegress, not_le.mp hshort⟩

/-- A received frame keeps every block operation inside its buffer, in every reachable state and at
every time, exactly when it is no tagged frame of fewer than 18 bytes in striping or mirroring
mode, no accepted packet of more than 65992 bytes and no GRE frame for the gateway of fewer than 42
bytes. -/
theorem ranges_inside_iff (build : Build) (iface : Iface) (recv : Recv) :
    (∀ tables, ReachableTables build iface tables → ∀ now,
        RangesInside iface tables ⟨now, recv⟩) ↔
      ¬ ShortTagged iface recv ∧ ¬ LongIngress iface recv ∧ ¬ ShortGre iface recv := by
  constructor
  · intro h
    have hfresh := h _ (reachableTables_init build iface) ⟨1, 0⟩
    exact ⟨not_shortTagged hfresh, not_longIngress hfresh, not_shortGre hfresh⟩
  · rintro ⟨htagged, hlong, hgre⟩ tables hreachable now
    exact rangesInside_of_avoids hreachable htagged hlong hgre

/-- A tagged frame that ends with its tag. -/
def runtTagged : Recv :=
  .frame [2, 0, 0, 0, 0, 2, 2, 0, 0, 0, 0, 1, 0x81, 0x00, 0x00, 0x01] (by decide)

theorem runt_frame_leaves_buffer :
    ReachableTables wisprBuild plainIface (initWisprtables wisprBuild) ∧
      ¬ RangesInside plainIface (initWisprtables wisprBuild) ⟨⟨1, 0⟩, runtTagged⟩ := by
  refine ⟨reachableTables_init wisprBuild plainIface, ?_⟩
  intro hinside
  exact not_shortTagged hinside ⟨by decide, by decide, by decide⟩

end Wispr.Daemon.Bounds
