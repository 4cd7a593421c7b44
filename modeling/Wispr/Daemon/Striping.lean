import Wispr.Daemon.Net
import Wispr.Daemon.Codec

/-!
# Striping refines a per-flow round-robin counter

The session tag packs a packet number and a group into the two low nibbles of one 16-bit field and
is advanced by masks and additions. Abstractly it is a counter: the `n`-th packet of a flow has
packet number `(n - 1) mod P + 1` and group `(n - 1) div P mod G`. The masks agree with that
counter at every wrap, so along every run the stored tag is a function of the number of packets the
flow has had accepted, whatever else the daemon processes in between.
-/

open Wispr.Foundation.ByteBuffer Wispr.Foundation.Run

namespace Wispr.Daemon.Striping

open Proto Net Codec

/-- The tag with a given group and packet number. -/
def tagOf (group packet : ℕ) : UInt16 := UInt16.ofNat (group * 16 + packet)

/-- Reading the nibble at a bit offset. -/
theorem nibble_eq_div_mod (value offset : ℕ) :
    (value &&& 15 * 2 ^ offset) >>> offset = value / 2 ^ offset % 16 := by
  have hmask : (15 * 2 ^ offset) >>> offset = 2 ^ 4 - 1 := by
    rw [Nat.shiftRight_eq_div_pow]
    exact Nat.mul_div_cancel 15 (Nat.two_pow_pos offset)
  rw [Nat.shiftRight_and_distrib, hmask, Nat.and_two_pow_sub_one_eq_mod,
    Nat.shiftRight_eq_div_pow]

theorem packetNumber_eq_mod (tag : UInt16) : packetNumber tag = tag.toNat % 16 := by
  rw [packetNumber, UInt16.toNat_and]
  exact Nat.and_two_pow_sub_one_eq_mod tag.toNat 4

theorem groupId_eq_div_mod (tag : UInt16) : groupId tag = tag.toNat / 16 % 16 := by
  rw [groupId, UInt16.toNat_shiftRight, UInt16.toNat_and]
  exact nibble_eq_div_mod tag.toNat 4

theorem wisprMode_eq_div_mod (tag : UInt16) : wisprMode tag = tag.toNat / 256 % 16 := by
  rw [wisprMode, UInt16.toNat_shiftRight, UInt16.toNat_and]
  exact nibble_eq_div_mod tag.toNat 8

theorem toNat_tagOf {group packet : ℕ} (hgroup : group < 16) (hpacket : packet < 16) :
    (tagOf group packet).toNat = group * 16 + packet :=
  UInt16.toNat_ofNat_of_lt' (by omega : group * 16 + packet < 65536)

/-- The mirror bit leaves the two low nibbles alone and sets the mode to one. -/
theorem toNat_mirror_tagOf {group packet : ℕ} (hgroup : group < 16) (hpacket : packet < 16) :
    (tagOf group packet ||| 0x0100).toNat = 0x100 + (group * 16 + packet) := by
  have hlow : group * 16 + packet < 2 ^ 8 := by omega
  rw [UInt16.toNat_or, toNat_tagOf hgroup hpacket, Nat.or_comm]
  exact (Nat.two_pow_add_eq_or_of_lt hlow 1).symm

theorem nibbles_tagOf {group packet : ℕ} (hgroup : group < 16) (hpacket : packet < 16) :
    wisprMode (tagOf group packet) = 0 ∧ groupId (tagOf group packet) = group ∧
      packetNumber (tagOf group packet) = packet := by
  rw [wisprMode_eq_div_mod, groupId_eq_div_mod, packetNumber_eq_mod, toNat_tagOf hgroup hpacket]
  omega

theorem nibbles_mirror_tagOf {group packet : ℕ} (hgroup : group < 16) (hpacket : packet < 16) :
    wisprMode (tagOf group packet ||| 0x0100) = 1 ∧
      groupId (tagOf group packet ||| 0x0100) = group ∧
      packetNumber (tagOf group packet ||| 0x0100) = packet := by
  rw [wisprMode_eq_div_mod, groupId_eq_div_mod, packetNumber_eq_mod,
    toNat_mirror_tagOf hgroup hpacket]
  omega

theorem tagOf_add_one (group packet : ℕ) : tagOf group packet + 1 = tagOf group (packet + 1) :=
  (UInt16.ofNat_add (group * 16 + packet) 1).symm

/-- The masks of the two wraps: one clears the packet number, the other one the group. -/
theorem tagOf_masked : ∀ group < 16, ∀ packet < 16,
    tagOf group packet &&& 0xFFF0 = tagOf group 0 ∧
      tagOf group packet &&& 0xFF0F = tagOf 0 packet := by decide +kernel

/-- The wrap of the packet number moves to packet one of the next group. -/
theorem tagOf_next_group {group packet : ℕ} (hgroup : group < 16) (hpacket : packet < 16) :
    (tagOf group packet &&& 0xFFF0) + 1 + 0x10 = tagOf (group + 1) 1 := by
  have hsum : (group + 1) * 16 + 1 = group * 16 + (0 + 1) + 16 := by omega
  rw [(tagOf_masked group hgroup packet hpacket).1, tagOf_add_one, tagOf, tagOf, hsum]
  exact (UInt16.ofNat_add (group * 16 + (0 + 1)) 16).symm

/-! ## The abstract counter -/

/-- Packet number of the `count`-th packet of a flow, `count ≥ 1`. -/
def stripePacket (build : Build) (count : ℕ) : ℕ := (count - 1) % build.numberOfPaths + 1

/-- Group of the `count`-th packet of a flow, `count ≥ 1`. -/
def stripeGroup (build : Build) (count : ℕ) : ℕ :=
  (count - 1) / build.numberOfPaths % build.numberOfGroups

/-- The tag a flow holds after `count` packets; a new session holds zero. -/
def stripeTag (build : Build) : ℕ → UInt16
  | 0 => 0
  | count + 1 => tagOf (stripeGroup build (count + 1)) (stripePacket build (count + 1))

theorem stripePacket_le (build : Build) (count : ℕ) :
    stripePacket build count ≤ build.numberOfPaths := by
  have hpos := build.paths_pos
  have hmod := Nat.mod_lt (count - 1) (show 0 < build.numberOfPaths by omega)
  unfold stripePacket
  omega

theorem stripeGroup_lt (build : Build) (count : ℕ) :
    stripeGroup build count < build.numberOfGroups :=
  Nat.mod_lt _ build.groups_pos

theorem stripePacket_lt_nibble (build : Build) (count : ℕ) : stripePacket build count < 16 :=
  lt_of_le_of_lt ((stripePacket_le build count).trans build.paths_le) (by decide)

theorem stripeGroup_lt_nibble (build : Build) (count : ℕ) : stripeGroup build count < 15 :=
  lt_of_lt_of_le (stripeGroup_lt build count) build.groups_le

/-- Successor of a quotient and remainder at the wrap point. -/
theorem div_mod_succ_of_wrap {modulus value : ℕ} (hwrap : value % modulus + 1 = modulus) :
    (value + 1) % modulus = 0 ∧ (value + 1) / modulus = value / modulus + 1 := by
  have hdiv := Nat.div_add_mod value modulus
  have hnext : value + 1 = modulus * (value / modulus + 1) := by
    rw [Nat.mul_add, Nat.mul_one]
    omega
  have hpos : 0 < modulus := by omega
  constructor
  · rw [hnext, Nat.mul_mod_right]
  · rw [hnext, Nat.mul_div_cancel_left _ hpos]

/-- Successor of a quotient and remainder below the wrap point. -/
theorem div_mod_succ_of_lt {modulus value : ℕ} (hlt : value % modulus + 1 < modulus) :
    (value + 1) % modulus = value % modulus + 1 ∧ (value + 1) / modulus = value / modulus := by
  have hdiv := Nat.div_add_mod value modulus
  have hnext : value + 1 = value % modulus + 1 + modulus * (value / modulus) := by omega
  have hpos : 0 < modulus := by omega
  constructor
  · conv_lhs => rw [hnext, Nat.add_mul_mod_self_left, Nat.mod_eq_of_lt hlt]
  · conv_lhs => rw [hnext, Nat.add_mul_div_left _ _ hpos, Nat.div_eq_of_lt hlt, Nat.zero_add]

/-- The masked update on a pair of nibbles. -/
theorem nextVlanId_tagOf (build : Build) {group packet : ℕ} (hgroup : group < 15)
    (hpacket : packet < 16) :
    nextVlanId build (tagOf group packet) =
      if packet = build.numberOfPaths then
        if group + 1 = build.numberOfGroups then tagOf 0 1 else tagOf (group + 1) 1
      else tagOf group (packet + 1) := by
  have hgroup' : group < 16 := hgroup.trans (by decide)
  have hnumber := (nibbles_tagOf hgroup' hpacket).2.2
  have hwrapped := tagOf_next_group hgroup' hpacket
  have hgroupId := (nibbles_tagOf (Nat.succ_lt_succ hgroup) (by decide : 1 < 16)).2.1
  have hcleared := (tagOf_masked (group + 1) (Nat.succ_lt_succ hgroup) 1 (by decide)).2
  simp only [nextVlanId, hnumber, hwrapped, hgroupId, hcleared, tagOf_add_one]

/-- The masked update of `process_ingress0` is the successor of the abstract counter. -/
theorem nextVlanId_stripeTag (build : Build) (count : ℕ) :
    nextVlanId build (stripeTag build count) = stripeTag build (count + 1) := by
  have hpaths := build.paths_pos
  cases count with
  | zero =>
    have hstart : stripeTag build 0 = tagOf 0 0 := rfl
    rw [hstart, nextVlanId_tagOf build (by decide) (by decide), if_neg (by omega)]
    simp [stripeTag, stripeGroup, stripePacket]
  | succ count =>
    have hgroup := stripeGroup_lt build (count + 1)
    have hpacket := stripePacket_le build (count + 1)
    simp only [stripeTag]
    rw [nextVlanId_tagOf build (stripeGroup_lt_nibble build _) (stripePacket_lt_nibble build _)]
    simp only [stripePacket, stripeGroup, Nat.add_sub_cancel] at hgroup hpacket ⊢
    by_cases hwrap : count % build.numberOfPaths + 1 = build.numberOfPaths
    · obtain ⟨hzero, hdiv⟩ := div_mod_succ_of_wrap hwrap
      rw [if_pos hwrap, hzero, hdiv]
      by_cases hlast : count / build.numberOfPaths % build.numberOfGroups + 1 =
          build.numberOfGroups
      · rw [if_pos hlast, (div_mod_succ_of_wrap hlast).1]
      · rw [if_neg hlast, (div_mod_succ_of_lt (by omega)).1]
    · have hlt : count % build.numberOfPaths + 1 < build.numberOfPaths := by omega
      obtain ⟨hnext, hdiv⟩ := div_mod_succ_of_lt hlt
      rw [if_neg hwrap, hnext, hdiv]

variable {build : Build}

/-- Number of packets of a flow accepted by `process_ingress0`. -/
def packetsOf (iface : Iface) (key : SessionKey) (inputs : List Input) : ℕ :=
  inputs.countP fun input ↦ decide (ingressFlow iface input = some key)

/-- Only its own accepted packets touch a flow's session. -/
theorem wispringress_frame {iface : Iface} {tables next : Tables build} {input : Input}
    {sent : List Frame} {key : SessionKey}
    (h : processNewpkt iface tables input = .ok (next, sent))
    (hother : ingressFlow iface input ≠ some key) :
    next.wispringress key = tables.wispringress key := by
  rcases processNewpkt_cases h with ⟨hingress, hstep⟩ | ⟨-, hstep⟩ | ⟨-, -, rfl⟩
  · have hkey : key ≠ ingressKey input.recv.buf := by
      intro hsame
      exact hother (ingressFlow_eq_some.mpr ⟨hingress, hsame.symm⟩)
    exact (processIngress0_ok hstep).2.1 key hkey
  · by_cases hmode : wisprMode (receivedTag input.recv.buf) = 3
    · rw [processWispr0Vlan_parity tables _ _ hmode] at hstep
      cases hstep
      rfl
    · obtain ⟨-, -, hsame, -⟩ := processWispr0Vlan_ok hmode hstep
      rw [hsame]
  · rfl

/-- One step keeps the stored tag at the value of the abstract counter. -/
theorem storedTag_step {iface : Iface} {tables next : Tables build} {input : Input}
    {sent : List Frame} {key : SessionKey} {count : ℕ}
    (htag : storedTag tables key = stripeTag build count)
    (h : processNewpkt iface tables input = .ok (next, sent)) :
    storedTag next key = stripeTag build (count + packetsOf iface key [input]) := by
  by_cases hflow : ingressFlow iface input = some key
  · obtain ⟨hingress, rfl⟩ := ingressFlow_eq_some.mp hflow
    rw [processNewpkt_of_isIngress tables hingress] at h
    rw [(processIngress0_ok h).1, htag, nextVlanId_stripeTag]
    simp [packetsOf, hflow]
  · have hsame : storedTag next key = storedTag tables key := by
      rw [storedTag, wispringress_frame h hflow, storedTag]
    rw [hsame, htag]
    simp [packetsOf, hflow]

/-- Along every run the stored tag counts the flow's accepted packets. -/
theorem storedTag_run {iface : Iface} {tables final : Tables build} {inputs : List Input}
    {outputs : List (List Frame)} {key : SessionKey} {count : ℕ}
    (htag : storedTag tables key = stripeTag build count)
    (h : run (processNewpkt iface) tables inputs = .ok (final, outputs)) :
    storedTag final key = stripeTag build (count + packetsOf iface key inputs) := by
  induction inputs generalizing tables outputs count with
  | nil =>
    simp only [run_nil, Except.ok.injEq, Prod.mk.injEq] at h
    simpa [packetsOf, h.1] using htag
  | cons input rest ih =>
    obtain ⟨next, output, tail, hstep, hrest, rfl⟩ := run_cons_ok.mp h
    rw [ih (storedTag_step htag hstep) hrest]
    congr 1
    simp only [packetsOf, List.countP_cons, List.countP_nil]
    omega

/-- A tag of the abstract counter has a zero mode nibble and a zero top nibble. -/
theorem stripeTag_lt (build : Build) (count : ℕ) : (stripeTag build count).toNat < 256 := by
  cases count with
  | zero => exact Nat.zero_lt_succ 255
  | succ count =>
    have hgroup := stripeGroup_lt_nibble build (count + 1)
    have hpacket := stripePacket_lt_nibble build (count + 1)
    rw [stripeTag, toNat_tagOf (by omega) hpacket]
    omega

/-- An accepted packet arrived as a frame, not as a receive error. -/
theorem recv_of_isIngress {iface : Iface} {recv : Recv} (h : isIngress iface recv.buf = true) :
    ∃ bytes fits, recv = .frame bytes fits := by
  cases recv with
  | failed =>
    simp [isIngress, etherType_failed] at h
  | frame bytes fits => exact ⟨bytes, fits, rfl⟩

/-- Once accepted, a packet whose step completes leaves as two copies with the advanced tag. -/
theorem emitted_of_isIngress {iface : Iface} {tables next : Tables build} {input : Input}
    {sent : List Frame} {key : SessionKey} {count : ℕ}
    (htag : storedTag tables key = stripeTag build count)
    (hflow : ingressFlow iface input = some key)
    (h : processNewpkt iface tables input = .ok (next, sent)) :
    ∃ bytes fits, input.recv = .frame bytes fits ∧
      sent = [doubleTagged bytes (stripeTag build (count + 1)),
        doubleTagged bytes (stripeTag build (count + 1) ||| 0x0100)] ∧
      14 ≤ bytes.length ∧ bytes.length + 8 ≤ packetSize := by
  obtain ⟨hingress, rfl⟩ := ingressFlow_eq_some.mp hflow
  rw [processNewpkt_of_isIngress tables hingress] at h
  obtain ⟨bytes, fits, hrecv⟩ := recv_of_isIngress hingress
  obtain ⟨hnext, -, -, hsend⟩ := processIngress0_ok h
  rw [hnext, htag, nextVlanId_stripeTag, hrecv] at hsend
  obtain ⟨hlow, hhigh⟩ := sendPacketWithkey_bounds fits hsend
  refine ⟨bytes, fits, hrecv, ?_, hlow, hhigh⟩
  have heq := sendPacketWithkey_eq hlow hhigh (stripeTag build (count + 1))
  exact Except.ok.inj (hsend.symm.trans heq)

/-- The 12-bit VLAN id of a TCI. -/
def vlanVid (tag : UInt16) : ℕ := tag.toNat % 4096

/-- The frames sent for a packet are two double-tagged copies of it, with the id of the given group
and packet number, without and with the mirror bit, in both tags. -/
def StripedAs (group packet : ℕ) (bytes : Frame) (sent : List Frame) : Prop :=
  ∃ original mirror, sent = [original, mirror] ∧
    original = doubleTagged bytes (outerTag original) ∧
    mirror = doubleTagged bytes (outerTag mirror) ∧
    vlanVid (outerTag original) = group * 16 + packet ∧
    vlanVid (innerTag original) = group * 16 + packet ∧
    vlanVid (outerTag mirror) = 0x100 + (group * 16 + packet) ∧
    vlanVid (innerTag mirror) = 0x100 + (group * 16 + packet)

theorem stripedAs_of_tagOf {group packet : ℕ} (hgroup : group < 16) (hpacket : packet < 16)
    {bytes : Frame} (hlength : 14 ≤ bytes.length) :
    StripedAs group packet bytes
      [doubleTagged bytes (tagOf group packet),
        doubleTagged bytes (tagOf group packet ||| 0x0100)] := by
  have horiginal : vlanVid (tagOf group packet) = group * 16 + packet := by
    rw [vlanVid, toNat_tagOf hgroup hpacket]
    omega
  have hmirror : vlanVid (tagOf group packet ||| 0x0100) = 0x100 + (group * 16 + packet) := by
    rw [vlanVid, toNat_mirror_tagOf hgroup hpacket]
    omega
  refine ⟨_, _, rfl, ?_⟩
  simp only [outerTag_doubleTagged hlength, innerTag_doubleTagged hlength, horiginal, hmirror,
    and_self]

/-- Accepted packets of a size the encoder can extend are processed in every state. -/
theorem processNewpkt_completes_of_ingress {iface : Iface} (tables : Tables build) {input : Input}
    {bytes : Frame} {fits : bytes.length ≤ packetSize} (hrecv : input.recv = .frame bytes fits)
    (hingress : isIngress iface input.recv.buf = true) (hlow : 14 ≤ bytes.length)
    (hhigh : bytes.length + 8 ≤ packetSize) :
    ∃ next sent, processNewpkt iface tables input = .ok (next, sent) := by
  rw [processNewpkt_of_isIngress tables hingress, hrecv]
  apply processIngress0_completes
  intro tag
  exact ⟨_, sendPacketWithkey_eq hlow hhigh tag⟩

/-- **Striping is a per-flow round-robin counter.** In every run of the daemon the stored tag of a
flow is the abstract counter at the number of its accepted packets, with zero mode and top nibble;
its `n`-th accepted packet is emitted as two copies with packet number `(n - 1) mod P + 1` and
group `(n - 1) div P mod G`; every other frame leaves the flow's session alone; and an accepted
packet that the buffer can extend is always emitted. -/
theorem striping_refines_round_robin (build : Build) (iface : Iface) (inputs : List Input)
    (final : Tables build) (outputs : List (List Frame))
    (hrun : run (processNewpkt iface) (initWisprtables build) inputs = .ok (final, outputs))
    (key : SessionKey) :
    (storedTag final key = stripeTag build (packetsOf iface key inputs) ∧
      wisprMode (storedTag final key) = 0 ∧ (storedTag final key).toNat / 4096 = 0) ∧
    (∀ front input back, inputs = front ++ input :: back → ingressFlow iface input = some key →
      ∃ bytes fits sent, input.recv = .frame bytes fits ∧ outputs[front.length]? = some sent ∧
        StripedAs
          ((packetsOf iface key front + 1 - 1) / build.numberOfPaths % build.numberOfGroups)
          ((packetsOf iface key front + 1 - 1) % build.numberOfPaths + 1) bytes sent) ∧
    (∀ (tables : Tables build) (input : Input) (next : Tables build) (sent : List Frame),
      processNewpkt iface tables input = .ok (next, sent) → ingressFlow iface input ≠ some key →
        next.wispringress key = tables.wispringress key) ∧
    (∀ (tables : Tables build) (input : Input) (bytes : Frame) (fits : bytes.length ≤ packetSize),
      input.recv = .frame bytes fits → ingressFlow iface input = some key → 14 ≤ bytes.length →
        bytes.length ≤ 65992 →
          ∃ next sent, processNewpkt iface tables input = .ok (next, sent)) := by
  have hstart : storedTag (initWisprtables build) key = stripeTag build 0 := rfl
  have htag := storedTag_run hstart hrun
  rw [Nat.zero_add] at htag
  refine ⟨⟨htag, ?_, ?_⟩, ?_, ?_, ?_⟩
  · rw [htag]
    cases packetsOf iface key inputs with
    | zero => exact (by decide : wisprMode 0 = 0)
    | succ count =>
      exact (nibbles_tagOf ((stripeGroup_lt_nibble build _).trans (by decide))
        (stripePacket_lt_nibble build _)).1
  · have hbyte := stripeTag_lt build (packetsOf iface key inputs)
    rw [htag]
    omega
  · rintro front input back rfl hflow
    obtain ⟨middle, outputs₁, outputs₂, hfront, hback, rfl⟩ := run_append_ok.mp hrun
    obtain ⟨next, sent, tail, hstep, -, rfl⟩ := run_cons_ok.mp hback
    have hbefore := storedTag_run hstart hfront
    rw [Nat.zero_add] at hbefore
    obtain ⟨bytes, fits, hrecv, rfl, hlow, -⟩ := emitted_of_isIngress hbefore hflow hstep
    refine ⟨bytes, fits, _, hrecv, ?_, stripedAs_of_tagOf
      ((stripeGroup_lt_nibble build _).trans (by decide)) (stripePacket_lt_nibble build _) hlow⟩
    rw [← run_length hfront, List.getElem?_append_right le_rfl, Nat.sub_self]
    rfl
  · intro tables input next sent hstep hother
    exact wispringress_frame hstep hother
  · intro tables input bytes fits hrecv hflow hlow hhigh
    exact processNewpkt_completes_of_ingress tables hrecv (ingressFlow_eq_some.mp hflow).1 hlow
      (by simp only [packetSize]; omega)

/-- A minimal TCP packet from 10.0.0.1 to 10.0.0.2. -/
def tcpPacket : Frame :=
  [2, 0, 0, 0, 0, 2, 2, 0, 0, 0, 0, 1, 0x08, 0x00,
    0x45, 0, 0, 20, 0, 0, 0, 0, 64, 6, 0, 0, 10, 0, 0, 1, 10, 0, 0, 2]

/-- A daemon without a configured gateway. -/
def plainIface : Iface where
  mac := ![2, 0, 0, 0, 0, 9]
  gateWayIporMAC := ![0x30, 0x30, 0x30, 0x30, 0x30, 0x30]

def tcpInput : Input := ⟨⟨1, 0⟩, .frame tcpPacket (by decide)⟩

/-- A packet of another flow. -/
def otherInput : Input := ⟨⟨1, 0⟩, .frame ((tcpPacket.set 29 3).set 33 4) (by decide)⟩

/-- Some packets of two flows in turn. -/
def twoFlows (count : ℕ) : List Input := (List.replicate count [tcpInput, otherInput]).flatten

theorem packetsOf_twoFlows (count : ℕ) :
    packetsOf plainIface (ingressKey tcpInput.recv.buf) (twoFlows count) = count := by
  have hpair : [tcpInput, otherInput].countP
      (fun input ↦ decide (ingressFlow plainIface input = some (ingressKey tcpInput.recv.buf))) =
        1 := by
    decide
  rw [packetsOf, twoFlows, List.countP_flatten, List.map_replicate, hpair, List.sum_replicate,
    smul_eq_mul, Nat.mul_one]

theorem twoFlows_completes (count : ℕ) : ∃ final outputs,
    run (processNewpkt plainIface) (initWisprtables wisprBuild) (twoFlows count ++ [tcpInput]) =
      .ok (final, outputs) := by
  refine @run_completes _ _ _ _ _ (fun input ↦ input = tcpInput ∨ input = otherInput)
    (fun tables input hinput ↦ ?_) _ _ (fun input hmem ↦ ?_)
  · rcases hinput with rfl | rfl
    · exact processNewpkt_completes_of_ingress tables (rfl : tcpInput.recv = .frame _ _) (by decide)
        (by decide) (by decide)
    · exact processNewpkt_completes_of_ingress tables (rfl : otherInput.recv = .frame _ _)
        (by decide) (by decide) (by decide)
  · rcases List.mem_append.mp hmem with hmem | hmem
    · obtain ⟨pair, hpair, hmem⟩ := List.mem_flatten.mp hmem
      rw [List.eq_of_mem_replicate hpair] at hmem
      simpa using hmem
    · exact .inl (List.mem_singleton.mp hmem)

/-- Between packets of another flow, the sixth packet of a flow is the first of the second group,
and the eleventh the first of the first group again. -/
theorem striping_two_flows :
    (∃ final outputs sent,
      run (processNewpkt plainIface) (initWisprtables wisprBuild) (twoFlows 5 ++ [tcpInput]) =
          .ok (final, outputs) ∧
        outputs[(twoFlows 5).length]? = some sent ∧ StripedAs 1 1 tcpPacket sent) ∧
      ∃ final outputs sent,
        run (processNewpkt plainIface) (initWisprtables wisprBuild) (twoFlows 10 ++ [tcpInput]) =
            .ok (final, outputs) ∧
          outputs[(twoFlows 10).length]? = some sent ∧ StripedAs 0 1 tcpPacket sent := by
  have hflow : ingressFlow plainIface tcpInput = some (ingressKey tcpInput.recv.buf) := by decide
  have hstriped : ∀ count, ∃ final outputs sent,
      run (processNewpkt plainIface) (initWisprtables wisprBuild) (twoFlows count ++ [tcpInput]) =
          .ok (final, outputs) ∧
        outputs[(twoFlows count).length]? = some sent ∧
        StripedAs (count / 5 % 2) (count % 5 + 1) tcpPacket sent := by
    intro count
    obtain ⟨final, outputs, hrun⟩ := twoFlows_completes count
    obtain ⟨bytes, fits, sent, hrecv, hsent, hstriped⟩ :=
      (striping_refines_round_robin wisprBuild plainIface _ final outputs hrun
        (ingressKey tcpInput.recv.buf)).2.1 (twoFlows count) tcpInput [] rfl hflow
    cases hrecv
    rw [packetsOf_twoFlows, Nat.add_sub_cancel] at hstriped
    exact ⟨final, outputs, sent, hrun, hsent, hstriped⟩
  exact ⟨hstriped 5, hstriped 10⟩

end Wispr.Daemon.Striping
