import Wispr.Daemon.Dedupe

/-!
# One flow from ingress to egress

An ingress daemon stripes and mirrors the packets of one flow, the network delivers each of the two
copies of each packet at most once, in any order and at any time, and an egress daemon dedupes what
arrives. Its memory is one timestamp per tag, kept for `TIMEOUT`, and the tags of a flow repeat
every `NUMBEROFPATHS * NUMBEROFGROUPS` packets. So it tells neither a late copy from a new packet
nor a new packet from a copy of an earlier one with the same tag. A packet is lost exactly when
each of its copies is taken for a copy of another packet.
-/

open Wispr.Foundation.ByteBuffer Wispr.Foundation.Run Wispr.Foundation.WindowFilter

namespace Wispr.Daemon.EndToEnd

open Proto Codec Striping RoundTrip Dedupe

/-- The packets of one flow, of lengths the encoder can extend. -/
structure Traffic where
  key : SessionKey
  packets : List Frame
  long_enough : ∀ packet ∈ packets, 14 ≤ packet.length
  short_enough : ∀ packet ∈ packets, packet.length ≤ 65992
  one_flow : ∀ packet ∈ packets, ingressKey (.received packetSize packet) = key

/-- One copy reaching the egress: the number of its packet counted from zero, which of the two
copies it is, and the egress clock when it is processed. -/
structure Delivery where
  packet : ℕ
  mirror : Bool
  now : Timeval
  deriving DecidableEq

/-- What the network delivers, in the order of processing; a copy not listed is lost. -/
structure Schedule (traffic : Traffic) where
  deliveries : List Delivery
  emitted : ∀ delivery ∈ deliveries, delivery.packet < traffic.packets.length
  at_most_once : (deliveries.map fun delivery ↦ (delivery.packet, delivery.mirror)).Nodup

def stripe (build : Build) (packets : List Frame) :
    Except Fault (Tables build × List (List Frame)) :=
  run (fun tables packet ↦ processIngress0 tables (.received packetSize packet) packet.length)
    (initWisprtables build) packets

/-- The delivered copy as the egress daemon receives it, without its outer tag. -/
def arrivalOf (emitted : List (List Frame)) (delivery : Delivery) : Arrival :=
  let copy := (emitted.getD delivery.packet []).getD (if delivery.mirror then 1 else 0) []
  ⟨.received packetSize (untagOuter copy), (untagOuter copy).length, delivery.now⟩

def egressStep {build : Build} (tables : Tables build) (arrival : Arrival) :
    Except Fault (Tables build × List Frame) :=
  processWispr0Vlan tables arrival.buf arrival.numbytes arrival.now

/-- What the egress daemon sends for each delivery. -/
def endToEnd (build : Build) (packets : List Frame) (deliveries : List Delivery) :
    Except Fault (List (List Frame)) := do
  let (_, emitted) ← stripe build packets
  let (_, sent) ← run egressStep (initWisprtables build) (deliveries.map (arrivalOf emitted))
  return sent

variable {build : Build}

def copyTag (build : Build) (number : ℕ) (mirror : Bool) : UInt16 :=
  if mirror then stripeTag build (number + 1) ||| 0x0100 else stripeTag build (number + 1)

def copiesOf (build : Build) (number : ℕ) (packet : Frame) : List Frame :=
  [doubleTagged packet (copyTag build number false),
    doubleTagged packet (copyTag build number true)]

/-- From a session that has sent `count` packets, the flow continues with the next tags. -/
theorem run_processIngress0 {key : SessionKey} {packets : List Frame}
    (hlow : ∀ packet ∈ packets, 14 ≤ packet.length)
    (hhigh : ∀ packet ∈ packets, packet.length ≤ 65992)
    (hkey : ∀ packet ∈ packets, ingressKey (.received packetSize packet) = key)
    {tables : Tables build} {count : ℕ} (htag : storedTag tables key = stripeTag build count) :
    ∃ final, run (fun tables packet ↦
        processIngress0 tables (.received packetSize packet) packet.length) tables packets =
      .ok (final, packets.mapIdx fun index ↦ copiesOf build (count + index)) := by
  have hsize : packetSize = 66000 := rfl
  induction packets generalizing tables count with
  | nil => exact ⟨tables, rfl⟩
  | cons packet rest ih =>
    have hlow' := hlow packet (List.mem_cons_self ..)
    have hhigh' := hhigh packet (List.mem_cons_self ..)
    have hkey' := hkey packet (List.mem_cons_self ..)
    obtain ⟨next, sent, hstep⟩ := processIngress0_completes tables
      (fun tag ↦ ⟨_, sendPacketWithkey_eq hlow' (by omega) tag⟩)
    obtain ⟨hnext, -, -, hsend⟩ := processIngress0_ok hstep
    rw [hkey'] at hnext hsend
    have hadvanced : storedTag next key = stripeTag build (count + 1) := by
      rw [hnext, htag, nextVlanId_stripeTag]
    rw [hadvanced, sendPacketWithkey_eq hlow' (by omega)] at hsend
    obtain ⟨final, hrest⟩ := ih (fun item hitem ↦ hlow item (List.mem_cons_of_mem _ hitem))
      (fun item hitem ↦ hhigh item (List.mem_cons_of_mem _ hitem))
      (fun item hitem ↦ hkey item (List.mem_cons_of_mem _ hitem)) hadvanced
    refine ⟨final, run_cons_ok.mpr ⟨next, sent, _, hstep, hrest, ?_⟩⟩
    rw [List.mapIdx_cons, ← Except.ok.inj hsend]
    congr 1
    apply congrArg (List.mapIdx · rest)
    funext index
    congr 1
    omega

theorem stripe_eq (build : Build) (traffic : Traffic) :
    ∃ final, stripe build traffic.packets =
      .ok (final, traffic.packets.mapIdx (copiesOf build)) := by
  have hstart : storedTag (initWisprtables build) traffic.key = stripeTag build 0 := rfl
  obtain ⟨final, hrun⟩ := run_processIngress0 traffic.long_enough traffic.short_enough
    traffic.one_flow hstart
  refine ⟨final, hrun.trans ?_⟩
  simp only [Nat.zero_add]

def slotOf (build : Build) (key : SessionKey) (number : ℕ) : Slot build :=
  ⟨key, ⟨stripeGroup build (number + 1), stripeGroup_lt build _⟩,
    ⟨stripePacket build (number + 1), Nat.lt_succ_of_le (stripePacket_le build _)⟩⟩

/-- Tags repeat with the period of the round-robin counter, and only then. -/
theorem slotOf_eq_iff (build : Build) (key : SessionKey) (number number' : ℕ) :
    slotOf build key number = slotOf build key number' ↔
      number % (build.numberOfPaths * build.numberOfGroups) =
        number' % (build.numberOfPaths * build.numberOfGroups) := by
  have hpos : 0 < build.numberOfPaths := build.paths_pos
  simp only [slotOf, Slot.mk.injEq, Fin.mk.injEq, true_and, stripeGroup, stripePacket,
    Nat.add_sub_cancel, Nat.add_right_cancel_iff]
  constructor
  · rintro ⟨hgroup, hpacket⟩
    rw [Nat.mod_mul, Nat.mod_mul, hgroup, hpacket]
  · intro hmod
    have hpacket := congrArg (· % build.numberOfPaths) hmod
    have hgroup := congrArg (· / build.numberOfPaths) hmod
    simp only [Nat.mod_mul_right_mod] at hpacket
    simp only [Nat.mod_mul_right_div_self] at hgroup
    exact ⟨hgroup, hpacket⟩

theorem copyTag_fields (build : Build) (number : ℕ) (mirror : Bool) :
    wisprMode (copyTag build number mirror) ≠ 3 ∧
      groupId (copyTag build number mirror) = stripeGroup build (number + 1) ∧
      packetNumber (copyTag build number mirror) = stripePacket build (number + 1) := by
  have hgroup := (stripeGroup_lt_nibble build (number + 1)).trans (by decide : 15 < 16)
  have hpacket := stripePacket_lt_nibble build (number + 1)
  cases mirror with
  | false =>
    obtain ⟨hmode, hfields⟩ := nibbles_tagOf hgroup hpacket
    exact ⟨ne_of_eq_of_ne hmode (by decide), hfields⟩
  | true =>
    obtain ⟨hmode, hfields⟩ := nibbles_mirror_tagOf hgroup hpacket
    exact ⟨ne_of_eq_of_ne hmode (by decide), hfields⟩

/-- A delivered copy is the packet behind a single tag. -/
theorem arrivalOf_eq {packets : List Frame} {delivery : Delivery} {packet : Frame}
    (hpacket : packets[delivery.packet]? = some packet) (hlow : 14 ≤ packet.length) :
    arrivalOf (packets.mapIdx (copiesOf build)) delivery =
      ⟨.received packetSize (singleTagged packet (copyTag build delivery.packet delivery.mirror)),
        (singleTagged packet (copyTag build delivery.packet delivery.mirror)).length,
        delivery.now⟩ := by
  have hcopies : (packets.mapIdx (copiesOf build)).getD delivery.packet [] =
      copiesOf build delivery.packet packet := by
    rw [List.getD_eq_getElem?_getD, List.getElem?_mapIdx, hpacket]
    rfl
  have hcopy : (copiesOf build delivery.packet packet).getD (if delivery.mirror then 1 else 0) [] =
      doubleTagged packet (copyTag build delivery.packet delivery.mirror) := by
    cases delivery.mirror <;> rfl
  simp only [arrivalOf, hcopies, hcopy, untagOuter_doubleTagged hlow]

theorem arrivalSlot_copy {packet : Frame} (hlow : 14 ≤ packet.length) (number : ℕ) (mirror : Bool) :
    arrivalSlot build (.received packetSize (singleTagged packet (copyTag build number mirror))) =
      some (slotOf build (ingressKey (.received packetSize packet)) number) := by
  obtain ⟨hmode, hgroup, hpacket⟩ := copyTag_fields build number mirror
  have hslot : stripeGroup build (number + 1) < build.numberOfGroups ∧
      stripePacket build (number + 1) < build.numberOfPaths + 1 :=
    ⟨stripeGroup_lt build _, Nat.lt_succ_of_le (stripePacket_le build _)⟩
  simp only [arrivalSlot, receivedTag_singleTagged hlow, egressKey_singleTagged hlow, hmode,
    hgroup, hpacket, hslot, if_false, dite_true, slotOf]

/-- A copy is processed in every state of the egress, and what is sent can only be the packet. -/
theorem processWispr0Vlan_copy (tables : Tables build) {packet : Frame} (hlow : 14 ≤ packet.length)
    (hhigh : packet.length ≤ 65992) (number : ℕ) (mirror : Bool) (now : Timeval) :
    ∃ next sent, processWispr0Vlan tables
        (.received packetSize (singleTagged packet (copyTag build number mirror)))
        (singleTagged packet (copyTag build number mirror)).length now = .ok (next, sent) ∧
      (sent = [packet] ∨ sent = [] ∧ build.numberOfPaths ≠ 1) := by
  have hsize : packetSize = 66000 := rfl
  have hlength := singleTagged_length hlow (copyTag build number mirror)
  have htag := receivedTag_singleTagged hlow (copyTag build number mirror)
  obtain ⟨hmode, hgroup, hpacket⟩ := copyTag_fields build number mirror
  have hremove := removeVlan_eq (singleTagged packet (copyTag build number mirror)) (by omega)
    (by omega)
  obtain ⟨next, sent, hstep⟩ := processWispr0Vlan_completes tables
    (.received packetSize (singleTagged packet (copyTag build number mirror))) now
    (by rw [htag, hgroup]; exact stripeGroup_lt build _)
    (by rw [htag, hpacket]; exact Nat.lt_succ_of_le (stripePacket_le build _)) ⟨_, hremove⟩
  refine ⟨next, sent, hstep, ?_⟩
  obtain ⟨_, _, -, ⟨-, -, frame, hframe, rfl⟩ | ⟨hstale, -, hsent⟩⟩ :=
    processWispr0Vlan_ok (by rwa [htag]) hstep
  · rw [hremove, untagOuter_singleTagged hlow] at hframe
    cases hframe
    exact .inl rfl
  · exact .inr ⟨hsent, fun hpaths ↦ hstale (.inr hpaths)⟩

def arrivals (build : Build) (traffic : Traffic) (deliveries : List Delivery) : List Arrival :=
  deliveries.map (arrivalOf (traffic.packets.mapIdx (copiesOf build)))

theorem arrivals_getElem? {traffic : Traffic} {schedule : Schedule traffic} {index : ℕ}
    {delivery : Delivery} (hdelivery : schedule.deliveries[index]? = some delivery) :
    ∃ packet arrival, traffic.packets[delivery.packet]? = some packet ∧
      (arrivals build traffic schedule.deliveries)[index]? = some arrival ∧
      arrivalSlot build arrival.buf = some (slotOf build traffic.key delivery.packet) ∧
      arrival.now = delivery.now ∧
      ∀ tables : Tables build, ∃ next sent, egressStep tables arrival = .ok (next, sent) ∧
        (sent = [packet] ∨ sent = [] ∧ build.numberOfPaths ≠ 1) := by
  have hmem := List.mem_of_getElem? hdelivery
  have hemitted := schedule.emitted delivery hmem
  have hpacket := List.getElem?_eq_getElem hemitted
  have hpacketMem := List.getElem_mem hemitted
  have hlow := traffic.long_enough _ hpacketMem
  refine ⟨_, _, hpacket, by rw [arrivals, List.getElem?_map, hdelivery, Option.map_some], ?_⟩
  rw [arrivalOf_eq hpacket hlow]
  refine ⟨?_, rfl, ?_⟩
  · exact (arrivalSlot_copy hlow _ _).trans (by rw [traffic.one_flow _ hpacketMem])
  · intro tables
    exact processWispr0Vlan_copy tables hlow (traffic.short_enough _ hpacketMem) _ _ _

theorem endToEnd_completes (build : Build) {traffic : Traffic} (schedule : Schedule traffic) :
    ∃ final sent, endToEnd build traffic.packets schedule.deliveries = .ok sent ∧
      run egressStep (initWisprtables build) (arrivals build traffic schedule.deliveries) =
        .ok (final, sent) := by
  obtain ⟨sender, hstripe⟩ := stripe_eq build traffic
  have henabled : ∀ (tables : Tables build) arrival,
      arrival ∈ arrivals build traffic schedule.deliveries →
        ∃ next sent, egressStep tables arrival = .ok (next, sent) := by
    intro tables arrival harrival
    obtain ⟨index, hindex⟩ := List.mem_iff_getElem?.mp harrival
    obtain ⟨delivery, hdelivery, -⟩ := Option.map_eq_some_iff.mp (List.getElem?_map ▸ hindex)
    obtain ⟨packet, found, -, hfound, -, -, hstep⟩ := arrivals_getElem? hdelivery
    cases hindex.symm.trans hfound
    obtain ⟨next, sent, hnext, -⟩ := hstep tables
    exact ⟨next, sent, hnext⟩
  obtain ⟨final, sent, hrun⟩ := run_completes henabled (initWisprtables build) _ fun _ hmem ↦ hmem
  refine ⟨final, sent, ?_, hrun⟩
  have hrun' := hrun
  rw [arrivals] at hrun'
  simp only [endToEnd, hstripe, bind, Except.bind, hrun', pure, Except.pure]

section Processed

variable {traffic : Traffic} {schedule : Schedule traffic} {final : Tables build}
  {sent : List (List Frame)}
  (hrun : run egressStep (initWisprtables build) (arrivals build traffic schedule.deliveries) =
    .ok (final, sent))

include hrun

/-- What is sent for a delivery is its packet or nothing, and with one path it is the packet. -/
theorem sent_getElem? {index : ℕ} {delivery : Delivery}
    (hdelivery : schedule.deliveries[index]? = some delivery) {packet : Frame}
    (hpacket : traffic.packets[delivery.packet]? = some packet) :
    sent[index]? = some [packet] ∨ sent[index]? = some [] ∧ build.numberOfPaths ≠ 1 := by
  obtain ⟨found, arrival, hfound, harrival, -, -, hstep⟩ :=
    @arrivals_getElem? build _ _ _ _ hdelivery
  cases hpacket.symm.trans hfound
  obtain ⟨before, after, output, -, hoccurs, houtput, -⟩ := run_getElem? hrun harrival
  obtain ⟨next, out, hnext, hout⟩ := hstep before
  cases hoccurs.symm.trans hnext
  rw [houtput]
  rcases hout with rfl | ⟨rfl, hpaths⟩
  · exact .inl rfl
  · exact .inr ⟨rfl, hpaths⟩

theorem forwarded_after_timeout (hpaths : build.numberOfPaths ≠ 1) {index : ℕ}
    {delivery : Delivery} (hdelivery : schedule.deliveries[index]? = some delivery)
    (hforwarded : sent[index]? ≠ some []) : timeout < delivery.now.micros := by
  obtain ⟨packet, arrival, hpacket, harrival, hslot, hnow, -⟩ := arrivals_getElem? hdelivery
  have hout := (sent_getElem? hrun hdelivery hpacket).resolve_right fun hnone ↦ hforwarded hnone.1
  have hlate := (vlanFilter build hpaths).forwarded_late (by decide : (0 : ℤ) ≤ timeout) hrun
    harrival hout hslot (List.cons_ne_nil _ _)
  rw [← hnow]
  exact (zero_add timeout).symm.trans_lt hlate

theorem forwarded_deliveries_apart (hpaths : build.numberOfPaths ≠ 1) {index₁ index₂ : ℕ}
    (horder : index₁ < index₂) {first second : Delivery}
    (hfirst : schedule.deliveries[index₁]? = some first)
    (hsecond : schedule.deliveries[index₂]? = some second)
    (htag : first.packet % (build.numberOfPaths * build.numberOfGroups) =
      second.packet % (build.numberOfPaths * build.numberOfGroups))
    (hforwarded₁ : sent[index₁]? ≠ some []) (hforwarded₂ : sent[index₂]? ≠ some []) :
    first.now.micros + timeout < second.now.micros := by
  obtain ⟨packet₁, arrival₁, hpacket₁, harrival₁, hslot₁, hnow₁, -⟩ := arrivals_getElem? hfirst
  obtain ⟨packet₂, arrival₂, hpacket₂, harrival₂, hslot₂, hnow₂, -⟩ := arrivals_getElem? hsecond
  have hout₁ := (sent_getElem? hrun hfirst hpacket₁).resolve_right fun hnone ↦
    hforwarded₁ hnone.1
  have hout₂ := (sent_getElem? hrun hsecond hpacket₂).resolve_right fun hnone ↦
    hforwarded₂ hnone.1
  rw [← (slotOf_eq_iff build traffic.key _ _).mpr htag] at hslot₂
  rw [← hnow₁, ← hnow₂]
  exact (vlanFilter build hpaths).forwarded_apart (by decide : (0 : ℤ) ≤ timeout) hrun horder
    harrival₁ harrival₂ hout₁ hout₂ hslot₁ hslot₂ (List.cons_ne_nil _ _) (List.cons_ne_nil _ _)

/-- A delivery is dropped only for a forwarded one with its tag at most `TIMEOUT` before it. -/
theorem dropped_for_earlier {index : ℕ} {delivery : Delivery}
    (hdelivery : schedule.deliveries[index]? = some delivery)
    (hclock : timeout < delivery.now.micros) (hdropped : sent[index]? = some []) :
    ∃ index' < index, ∃ earlier, schedule.deliveries[index']? = some earlier ∧
      earlier.packet % (build.numberOfPaths * build.numberOfGroups) =
        delivery.packet % (build.numberOfPaths * build.numberOfGroups) ∧
      sent[index']? ≠ some [] ∧ delivery.now.micros ≤ earlier.now.micros + timeout := by
  obtain ⟨packet, arrival, hpacket, harrival, hslot, hnow, -⟩ := arrivals_getElem? hdelivery
  have hpaths : build.numberOfPaths ≠ 1 := by
    rcases sent_getElem? hrun hdelivery hpacket with hsent | ⟨-, hpaths⟩
    · rw [hdropped] at hsent
      simp at hsent
    · exact hpaths
  have hinitial : lastSeen (initWisprtables build) (slotOf build traffic.key delivery.packet) +
      timeout < (vlanFilter build hpaths).time arrival := by
    change 0 + timeout < arrival.now.micros
    rwa [zero_add, hnow]
  obtain ⟨index', horder, blocker, out, hblocker, hout, hslot', hforwarded, hclose⟩ :=
    (vlanFilter build hpaths).dropped_of_earlier hrun harrival hdropped hslot
      (fun hforwarded ↦ hforwarded rfl) hinitial
  obtain ⟨earlier, hearlier, -⟩ := Option.map_eq_some_iff.mp (List.getElem?_map ▸ hblocker)
  obtain ⟨-, arrival', -, harrival', hslotEarlier, hnow', -⟩ := arrivals_getElem? hearlier
  cases hblocker.symm.trans harrival'
  refine ⟨index', horder, earlier, hearlier, ?_, ?_, ?_⟩
  · exact (slotOf_eq_iff build traffic.key _ _).mp
      (Option.some.inj (hslotEarlier.symm.trans hslot'))
  · rw [hout]
    exact fun hnone ↦ hforwarded (Option.some.inj hnone)
  · rw [← hnow, ← hnow']
    exact hclose

theorem delivery_forwarded {index : ℕ} {delivery : Delivery}
    (hdelivery : schedule.deliveries[index]? = some delivery) {packet : Frame}
    (hpacket : traffic.packets[delivery.packet]? = some packet)
    (hclock : timeout < delivery.now.micros)
    (hquiet : ∀ index' < index, ∀ earlier, schedule.deliveries[index']? = some earlier →
      earlier.packet % (build.numberOfPaths * build.numberOfGroups) =
        delivery.packet % (build.numberOfPaths * build.numberOfGroups) →
      sent[index']? ≠ some [] → earlier.now.micros + timeout < delivery.now.micros) :
    sent[index]? = some [packet] := by
  refine (sent_getElem? hrun hdelivery hpacket).resolve_right fun hdropped ↦ ?_
  obtain ⟨index', horder, earlier, hearlier, htag, hforwarded, hclose⟩ :=
    dropped_for_earlier hrun hdelivery hclock hdropped.1
  exact absurd (hquiet index' horder earlier hearlier htag hforwarded) (not_lt.mpr hclose)

end Processed

/-- Of the two copies of a packet never both are sent on. -/
def AtMostOnce {traffic : Traffic} (schedule : Schedule traffic) (sent : List (List Frame)) :
    Prop :=
  ∀ (index₁ index₂ : ℕ) (first second : Delivery), index₁ < index₂ →
    schedule.deliveries[index₁]? = some first → schedule.deliveries[index₂]? = some second →
    first.packet = second.packet → sent[index₁]? = some [] ∨ sent[index₂]? = some []

def CopySent {traffic : Traffic} (schedule : Schedule traffic) (sent : List (List Frame))
    (number : ℕ) : Prop :=
  ∃ (index : ℕ) (copy : Delivery) (packet : Frame), schedule.deliveries[index]? = some copy ∧
    copy.packet = number ∧ traffic.packets[number]? = some packet ∧ sent[index]? = some [packet]

/-- Of every packet that reaches the egress some copy is sent on. -/
def NoLostPacket {traffic : Traffic} (schedule : Schedule traffic) (sent : List (List Frame)) :
    Prop :=
  ∀ delivery ∈ schedule.deliveries, CopySent schedule sent delivery.packet

/-- The copy delivered at `index` is processed at most `TIMEOUT` after a forwarded copy of another
packet with its tag. -/
def InWindowOfOther (build : Build) {traffic : Traffic} (schedule : Schedule traffic)
    (sent : List (List Frame)) (index : ℕ) (copy : Delivery) : Prop :=
  ∃ index' < index, ∃ other, schedule.deliveries[index']? = some other ∧
    other.packet ≠ copy.packet ∧
    other.packet % (build.numberOfPaths * build.numberOfGroups) =
      copy.packet % (build.numberOfPaths * build.numberOfGroups) ∧
    sent[index']? ≠ some [] ∧ copy.now.micros ≤ other.now.micros + timeout

/-- **At most once within the window.** In every schedule, of two copies of one packet at most one
is sent on, unless the second is processed more than `TIMEOUT` after the first. -/
theorem at_most_once_within_window (build : Build) (hpaths : 1 < build.numberOfPaths)
    (traffic : Traffic) (schedule : Schedule traffic) :
    ∃ sent, endToEnd build traffic.packets schedule.deliveries = .ok sent ∧
      ∀ (index₁ index₂ : ℕ) (first second : Delivery), index₁ < index₂ →
        schedule.deliveries[index₁]? = some first → schedule.deliveries[index₂]? = some second →
        first.packet = second.packet → second.now.micros ≤ first.now.micros + timeout →
          sent[index₁]? = some [] ∨ sent[index₂]? = some [] := by
  obtain ⟨final, sent, hsent, hrun⟩ := endToEnd_completes build schedule
  refine ⟨sent, hsent, ?_⟩
  intro index₁ index₂ first second horder hfirst hsecond hsame hclose
  by_contra hboth
  push Not at hboth
  have hapart := forwarded_deliveries_apart hrun hpaths.ne' horder hfirst hsecond (by rw [hsame])
    hboth.1 hboth.2
  exact absurd hapart (not_lt.mpr hclose)

/-- The original of the sample packet at one millisecond and its mirror one millisecond later. -/
def lateMirror : List Delivery := [⟨0, false, ⟨0, 1000⟩⟩, ⟨0, true, ⟨0, 2000⟩⟩]

def promptMirror : List Delivery := [⟨0, false, ⟨0, 1000⟩⟩, ⟨0, true, ⟨0, 1500⟩⟩]

def tcpTraffic (count : ℕ) : Traffic where
  key := ⟨0x0100000A, 0x0200000A⟩
  packets := List.replicate count tcpPacket
  long_enough := by
    intro packet hpacket
    rw [List.eq_of_mem_replicate hpacket]
    decide
  short_enough := by
    intro packet hpacket
    rw [List.eq_of_mem_replicate hpacket]
    decide
  one_flow := by
    intro packet hpacket
    rw [List.eq_of_mem_replicate hpacket]
    decide

theorem at_most_once_prompt_mirror : ∃ sent,
    endToEnd wisprBuild (tcpTraffic 1).packets promptMirror = .ok sent ∧
      (sent[0]? = some [] ∨ sent[1]? = some []) := by
  obtain ⟨sent, hsent, honce⟩ := at_most_once_within_window wisprBuild (by decide) (tcpTraffic 1)
    ⟨promptMirror, by decide, by decide⟩
  exact ⟨sent, hsent, honce 0 1 _ _ (by decide) rfl rfl rfl (by decide)⟩

/-- A mirror that is later than the window is sent on as well. -/
theorem both_copies_forwarded : ¬ ∀ (traffic : Traffic) (schedule : Schedule traffic),
    ∃ sent, endToEnd wisprBuild traffic.packets schedule.deliveries = .ok sent ∧
      AtMostOnce schedule sent := by
  intro halways
  let schedule : Schedule (tcpTraffic 1) := ⟨lateMirror, by decide, by decide⟩
  obtain ⟨result, hresult, honce⟩ := halways (tcpTraffic 1) schedule
  obtain ⟨final, sent, hsent, hrun⟩ := endToEnd_completes wisprBuild schedule
  obtain rfl : sent = result := Except.ok.inj (hsent.symm.trans hresult)
  have hfirst : sent[0]? = some [tcpPacket] :=
    delivery_forwarded hrun (rfl : schedule.deliveries[0]? = some ⟨0, false, ⟨0, 1000⟩⟩) rfl
      (by decide) fun index' horder ↦ absurd horder (Nat.not_lt_zero _)
  have hsecond : sent[1]? = some [tcpPacket] := by
    refine delivery_forwarded hrun (rfl : schedule.deliveries[1]? = some ⟨0, true, ⟨0, 2000⟩⟩) rfl
      (by decide) ?_
    intro index' horder earlier hearlier _ _
    obtain rfl : index' = 0 := by omega
    cases hearlier
    decide
  have hdropped := honce 0 1 _ _ (by decide) rfl rfl rfl
  simp [hfirst, hsecond] at hdropped

/-- **When a packet is lost.** Of a packet that reaches the egress no copy is sent on exactly when
there are several paths and each of its copies is processed at most `TIMEOUT` after a forwarded copy
of another packet with its tag, or with a clock that has not passed `TIMEOUT`. -/
theorem packet_lost_iff (build : Build) (traffic : Traffic) (schedule : Schedule traffic) :
    ∃ sent, endToEnd build traffic.packets schedule.deliveries = .ok sent ∧
      ∀ delivery ∈ schedule.deliveries,
        (¬ CopySent schedule sent delivery.packet ↔
          build.numberOfPaths ≠ 1 ∧
          ∀ (index : ℕ) (copy : Delivery), schedule.deliveries[index]? = some copy →
            copy.packet = delivery.packet →
              copy.now.micros ≤ timeout ∨ InWindowOfOther build schedule sent index copy) := by
  obtain ⟨final, sent, hsent, hrun⟩ := endToEnd_completes build schedule
  refine ⟨sent, hsent, ?_⟩
  intro delivery hdelivery
  obtain ⟨packet, hpacket⟩ : ∃ packet, traffic.packets[delivery.packet]? = some packet :=
    ⟨_, List.getElem?_eq_getElem (schedule.emitted delivery hdelivery)⟩
  constructor
  · intro hlost
    -- every copy is dropped, for a copy forwarded before it, which is none of this packet
    have hdropped : ∀ (index : ℕ) (copy : Delivery), schedule.deliveries[index]? = some copy →
        copy.packet = delivery.packet → sent[index]? = some [] ∧ build.numberOfPaths ≠ 1 := by
      intro index copy hcopy hsame
      refine (sent_getElem? hrun hcopy (hsame ▸ hpacket)).resolve_left fun hout ↦ ?_
      exact hlost ⟨index, copy, packet, hcopy, hsame, hpacket, hout⟩
    obtain ⟨position, hposition⟩ := List.mem_iff_getElem?.mp hdelivery
    refine ⟨(hdropped position delivery hposition rfl).2, ?_⟩
    intro index copy hcopy hsame
    by_cases hclock : timeout < copy.now.micros
    · obtain ⟨index', horder, other, hother, htag, hforwarded, hclose⟩ :=
        dropped_for_earlier hrun hcopy hclock (hdropped index copy hcopy hsame).1
      refine .inr ⟨index', horder, other, hother, ?_, htag, hforwarded, hclose⟩
      intro hpackets
      exact hforwarded (hdropped index' other hother (hpackets.trans hsame)).1
    · exact .inl (not_lt.mp hclock)
  · rintro ⟨hpaths, hcovered⟩ ⟨index, copy, packet', hcopy, hsame, -, hout⟩
    have hforwarded : sent[index]? ≠ some [] := by simp [hout]
    rcases hcovered index copy hcopy hsame with
      hearly | ⟨index', horder, other, hother, -, htag, hforwarded', hclose⟩
    · have hlate := forwarded_after_timeout hrun hpaths hcopy hforwarded
      exact absurd hlate (not_lt.mpr hearly)
    · have hapart := forwarded_deliveries_apart hrun hpaths horder hother hcopy htag hforwarded'
        hforwarded
      exact absurd hapart (not_lt.mpr hclose)

/-- Packets 0, 10 and 20 of a flow share their tag. The first copy of packet 10 comes within the
window of packet 0 and its second copy after it; packet 20 comes within the window of packet 10. -/
def sharedTags : Schedule (tcpTraffic 21) where
  deliveries := [⟨0, false, ⟨0, 1000⟩⟩, ⟨10, false, ⟨0, 1100⟩⟩, ⟨10, true, ⟨0, 1601⟩⟩,
    ⟨20, false, ⟨0, 1650⟩⟩]
  emitted := by decide
  at_most_once := by decide

theorem sharedTags_cases {index : ℕ} {copy : Delivery}
    (hcopy : sharedTags.deliveries[index]? = some copy) :
    copy.packet = 0 ∧ index = 0 ∨ copy.packet = 10 ∧ (index = 1 ∨ index = 2) ∨
      copy.packet = 20 ∧ index = 3 := by
  match index with
  | 0 | 1 | 2 | 3 =>
    cases hcopy
    decide
  | index + 4 => cases hcopy

theorem packet_lost_shared_tags : ∃ sent,
    endToEnd wisprBuild (tcpTraffic 21).packets sharedTags.deliveries = .ok sent ∧
      CopySent sharedTags sent 10 ∧ ¬ CopySent sharedTags sent 20 := by
  obtain ⟨sent, hsent, hlost⟩ := packet_lost_iff wisprBuild (tcpTraffic 21) sharedTags
  have hten : CopySent sharedTags sent 10 := by
    by_contra hnone
    obtain ⟨-, hcovered⟩ := (hlost ⟨10, true, ⟨0, 1601⟩⟩ (by decide)).mp hnone
    rcases hcovered 2 ⟨10, true, ⟨0, 1601⟩⟩ rfl rfl with
      hearly | ⟨index', horder, other, hother, hne, -, -, hclose⟩
    · exact absurd hearly (by decide)
    · interval_cases index' <;> cases hother
      · exact absurd hclose (by decide)
      · exact hne rfl
  refine ⟨sent, hsent, hten, (hlost ⟨20, false, ⟨0, 1650⟩⟩ (by decide)).mpr ⟨by decide, ?_⟩⟩
  intro index copy hcopy (hsame : copy.packet = 20)
  obtain ⟨index', copy', packet, hcopy', hsame', -, hout⟩ := hten
  obtain rfl : index = 3 := by
    have := sharedTags_cases hcopy
    omega
  have hindex' : index' = 1 ∨ index' = 2 := by
    have := sharedTags_cases hcopy'
    omega
  cases hcopy
  refine .inr ⟨index', by omega, copy', hcopy', ?_, ?_, by simp [hout], ?_⟩
  · rw [hsame']
    decide
  · rw [hsame']
    decide
  · rcases hindex' with rfl | rfl <;> cases hcopy' <;> decide

/-- The first packet of a flow, and a tenth of a millisecond later the eleventh. -/
def reusedTag : List Delivery := [⟨0, false, ⟨0, 1000⟩⟩, ⟨10, false, ⟨0, 1100⟩⟩]

/-- The eleventh packet carries the tag of the first one and is dropped as its duplicate. -/
theorem packet_lost_to_reused_tag : ¬ ∀ (traffic : Traffic) (schedule : Schedule traffic),
    (∀ delivery ∈ schedule.deliveries, timeout < delivery.now.micros) →
      ∃ sent, endToEnd wisprBuild traffic.packets schedule.deliveries = .ok sent ∧
        NoLostPacket schedule sent := by
  intro halways
  let schedule : Schedule (tcpTraffic 11) := ⟨reusedTag, by decide, by decide⟩
  obtain ⟨result, hresult, hkept⟩ := halways (tcpTraffic 11) schedule (by decide)
  obtain ⟨final, sent, hsent, hrun⟩ := endToEnd_completes wisprBuild schedule
  obtain rfl : sent = result := Except.ok.inj (hsent.symm.trans hresult)
  have hfirst : sent[0]? = some [tcpPacket] :=
    delivery_forwarded hrun (rfl : schedule.deliveries[0]? = some ⟨0, false, ⟨0, 1000⟩⟩) rfl
      (by decide) fun index' horder ↦ absurd horder (Nat.not_lt_zero _)
  obtain ⟨index, copy, packet, hcopy, hsame, -, hout⟩ :=
    hkept ⟨10, false, ⟨0, 1100⟩⟩ (by decide)
  match index with
  | 0 =>
    cases hcopy
    simp at hsame
  | 1 =>
    have hapart := forwarded_deliveries_apart hrun (by decide) (by decide : 0 < 1)
      (rfl : schedule.deliveries[0]? = some ⟨0, false, ⟨0, 1000⟩⟩)
      (rfl : schedule.deliveries[1]? = some ⟨10, false, ⟨0, 1100⟩⟩) rfl (by simp [hfirst])
      (by simp [hout])
    exact absurd hapart (by decide)
  | index + 2 => cases hcopy

end Wispr.Daemon.EndToEnd
