import Wispr.Daemon.EndToEnd
import Wispr.Network.Wire

/-!
# From host to host over dead links

The whole system for one pair of hosts: the controller has installed its rules, the daemon at the
sender's switch stripes and mirrors, the switches carry each copy along the route of its tag, links
may be dead, and the daemon at the receiver's switch dedupes what arrives. Both daemons may serve
any other traffic at the same time and in any order.

A packet of the flow then reaches its receiver exactly once as long as one of its two routes is
alive, within the limits of the dedupe window, and not at all otherwise. As the two routes of a
packet are different paths, one dead link that they do not share is never noticed by the hosts.
-/

open Wispr.Foundation.ByteBuffer Wispr.Foundation.FlowTable Wispr.Foundation.Run
open Wispr.Foundation.WindowFilter

namespace Wispr.Network.HostToHost

open Controller.Paths Controller.Install Controller.Forwarding Controller.Backward
open Controller.Access Controller.Tags
open Daemon.Proto Daemon.Net Daemon.Codec Daemon.Striping Daemon.Dedupe Daemon.EndToEnd
open Wire

/-- Two hosts on different access switches, the installs that have completed, and the last one for
the pair. -/
structure Deployment (env : Env) (topo : TopologyState) where
  peer : Peer
  home : Ip → Dpid × Port
  before : List (CompletedCall env topo)
  done : CompletedCall env topo
  after : List (CompletedCall env topo)
  paths : List (List Dpid)
  wired : WiredAs topo peer
  srcAccess : AccessSwitch topo peer done.call.src
  dstAccess : AccessSwitch topo peer done.call.dst
  srcPort : done.call.firstPort ≠ 1
  dstPort : done.call.lastPort ≠ 2
  ends : done.call.src ≠ done.call.dst
  macs : done.call.srcMac ≠ done.call.dstMac
  last : ∀ later ∈ after, s(later.call.srcMac, later.call.dstMac) ≠
    s(done.call.srcMac, done.call.dstMac)
  settled : Settled home (before ++ done :: after)
  found : getPaths env topo done.call.src done.call.dst = .ok paths
  enough : wisprBuild.numberOfPaths ≤ paths.length

variable {env : Env} {topo : TopologyState}

def Deployment.tables (deployment : Deployment env topo) : Dpid → List FlowMod :=
  tableOf (messagesOf (deployment.before ++ deployment.done :: deployment.after))

/-- The flow from the first host to the second one, as both daemons key it. -/
def Deployment.key (deployment : Deployment env topo) : SessionKey := flowOf deployment.done.call

structure DaemonRun where
  iface : Iface
  inputs : List Input
  final : Tables wisprBuild
  outputs : List (List Frame)
  completed : run (processNewpkt iface) (initWisprtables wisprBuild) inputs = .ok (final, outputs)

/-- The packet of the flow that a daemon accepts as its input at an index. -/
def DaemonRun.Accepts (daemon : DaemonRun) (key : SessionKey) (index : ℕ) (bytes : Frame) : Prop :=
  ∃ now fits, daemon.inputs[index]? = some ⟨now, .frame bytes fits⟩ ∧
    ingressFlow daemon.iface ⟨now, .frame bytes fits⟩ = some key

/-- How many packets of the flow came before an index. -/
def DaemonRun.number (daemon : DaemonRun) (key : SessionKey) (index : ℕ) : ℕ :=
  packetsOf daemon.iface key (daemon.inputs.take index)

/-- One of the two copies a daemon sends for its input at an index. -/
def DaemonRun.copy (daemon : DaemonRun) (index : ℕ) (mirror : Bool) : Frame :=
  (daemon.outputs.getD index []).getD (if mirror then 1 else 0) []

def DaemonRun.clock (daemon : DaemonRun) (index : ℕ) : ℤ :=
  ((daemon.inputs[index]?).map fun input ↦ input.now.micros).getD 0

/-- The dedupe slot of the input at an index, if it is a tagged frame. -/
def DaemonRun.slot (daemon : DaemonRun) (index : ℕ) : Option (Slot wisprBuild) :=
  (daemon.inputs[index]?).bind fun input ↦
    (vlanArrival daemon.iface input).bind fun arrival ↦ arrivalSlot wisprBuild arrival.buf

/-- What the switches make of the copies: a copy that reaches the daemon port of the receiver's
switch is received once, without its outer tag; nothing else of the flow is received there. -/
structure Crossing (deployment : Deployment env topo) (dead : Set (Sym2 Dpid))
    (sender receiver : DaemonRun) where
  position : ℕ → Bool → Option ℕ
  of_flow : ∀ {index mirror place}, position index mirror = some place →
    ∃ bytes, sender.Accepts deployment.key index bytes
  received : ∀ {index mirror place}, position index mirror = some place →
    ∃ now fits, receiver.inputs[place]? =
      some ⟨now, .frame (untagOuter (sender.copy index mirror)) fits⟩
  crosses : ∀ {index bytes}, sender.Accepts deployment.key index bytes → ∀ mirror,
    (∃ place, position index mirror = some place) ↔
      Reaches deployment.tables deployment.peer dead (packetOf (sender.copy index mirror))
        deployment.done.call.src 2 deployment.done.call.dst 1
  nothing_else : ∀ {place slot}, receiver.slot place = some slot → slot.key = deployment.key →
    ∃ index mirror, position index mirror = some place

/-- The limits of the dedupe window: the clock has started, the copies of one packet arrive
together, and packets that share a tag arrive apart. -/
structure Timely {deployment : Deployment env topo} {dead : Set (Sym2 Dpid)}
    {sender receiver : DaemonRun} (crossing : Crossing deployment dead sender receiver) : Prop where
  started : ∀ {index mirror place}, crossing.position index mirror = some place →
    timeout < receiver.clock place
  together : ∀ {index mirror mirror' first second}, crossing.position index mirror = some first →
    crossing.position index mirror' = some second → first < second →
    receiver.clock second ≤ receiver.clock first + timeout
  apart : ∀ {index index' mirror mirror' first second},
    crossing.position index mirror = some first → crossing.position index' mirror' = some second →
    first < second → index ≠ index' →
    sender.number deployment.key index % 10 = sender.number deployment.key index' % 10 →
    receiver.clock first + timeout < receiver.clock second

theorem copy_eq {daemon : DaemonRun} {key : SessionKey} {index : ℕ} {bytes : Frame}
    (h : daemon.Accepts key index bytes) :
    14 ≤ bytes.length ∧ bytes.length ≤ 65992 ∧ ∀ mirror, daemon.copy index mirror =
      doubleTagged bytes (copyTag wisprBuild (daemon.number key index) mirror) := by
  obtain ⟨now, fits, hinput, hflow⟩ := h
  obtain ⟨before, after, sent, hbefore, hstep, hsent, -⟩ := run_getElem? daemon.completed hinput
  have hstart : storedTag (initWisprtables wisprBuild) key = stripeTag wisprBuild 0 := rfl
  have htag := storedTag_run hstart hbefore
  obtain ⟨found, _, hrecv, rfl, hlow, hhigh⟩ := emitted_of_isIngress htag hflow hstep
  cases hrecv
  have hsize : packetSize = 66000 := rfl
  refine ⟨hlow, by omega, ?_⟩
  intro mirror
  have houtput : daemon.outputs.getD index [] =
      copiesOf wisprBuild (daemon.number key index) bytes := by
    rw [List.getD_eq_getElem?_getD, hsent, Nat.zero_add]
    rfl
  rw [DaemonRun.copy, houtput]
  cases mirror with
  | false => rfl
  | true => rfl

/-- The route of each packet number and copy: a path of the install, another one for the mirror, and
what decides whether the copy arrives. -/
theorem exists_routes (deployment : Deployment env topo) (dead : Set (Sym2 Dpid)) :
    ∃ route : ℕ → Bool → List Dpid,
      (∀ k < 5, deployment.paths[k]? = some (route k false)) ∧
      (∀ k < 5, route k true ∈ deployment.paths ∧ route k true ≠ route k false) ∧
      ∀ (bytes : Frame) (number : ℕ) (mirror : Bool), 14 ≤ bytes.length →
        macAt bytes 6 = deployment.done.call.srcMac → macAt bytes 0 = deployment.done.call.dstMac →
        (Reaches deployment.tables deployment.peer dead
            (packetOf (doubleTagged bytes (copyTag wisprBuild number mirror)))
            deployment.done.call.src 2 deployment.done.call.dst 1 ↔
          Alive dead (route (number % 5) mirror)) := by
  obtain ⟨paths, pathsWithPorts, mirrors, hpaths, hpathsWithPorts, hmirrors, install⟩ :=
    exists_lastInstall deployment.macs deployment.last
  cases hpaths.symm.trans deployment.found
  have hsimple := getPaths_simple hpaths
  have halong := addPortsToPaths_ok hpaths hpathsWithPorts
  have henough : 5 ≤ deployment.paths.length := deployment.enough
  have hroute : ∀ k mirror, ∃ path, k < 5 → path ∈ deployment.paths ∧
      (mirror = false → deployment.paths[k]? = some path) ∧
      (mirror = true → deployment.paths[k]? ≠ some path) ∧
      ∀ x ≤ maxGroup, ∀ packet : Packet, packet.ethType = 0x8100 →
        packet.ethSrc = deployment.done.call.srcMac → packet.ethDst = deployment.done.call.dstMac →
        packet.vlanVid = some (taggedVid mirror.toNat x k) →
        Travels deployment.tables deployment.peer packet deployment.done.call.src 2 path
          deployment.done.call.dst 1 := by
    intro k mirror
    by_cases hk : k < 5
    · have hmode : mirror.toNat ≤ 1 := Bool.toNat_le mirror
      obtain ⟨path, hpath, ports, hports, hportsAlong, horiginal, hmirror⟩ :=
        exists_route halong hmirrors hmode (hk.trans_le henough)
      refine ⟨path, fun _ ↦ ⟨hpath, ?_, ?_, ?_⟩⟩
      · rintro rfl
        exact horiginal rfl
      · rintro rfl
        exact hmirror rfl (by omega)
      · intro x hx packet htype hsrc hdst hvid
        exact install.travels deployment.before deployment.wired deployment.srcAccess
          deployment.dstAccess deployment.ends hmode hx hports (hsimple path hpath) hportsAlong
          htype hsrc hdst hvid
    · exact ⟨[], fun hlt ↦ absurd hlt hk⟩
  choose route hroute using hroute
  refine ⟨route, fun k hk ↦ (hroute k false hk).2.1 rfl, ?_, ?_⟩
  · intro k hk
    refine ⟨(hroute k true hk).1, ?_⟩
    intro hsame
    have horiginal := (hroute k false hk).2.1 rfl
    rw [← hsame] at horiginal
    exact (hroute k true hk).2.2.1 rfl horiginal
  · intro bytes number mirror hlow hsrc hdst
    obtain ⟨hethSrc, hethDst, htype, hvid⟩ :=
      packetOf_doubleTagged hlow (copyTag wisprBuild number mirror)
    have hk : number % 5 < 5 := Nat.mod_lt _ (by decide)
    have hx : number / 5 % 2 ≤ maxGroup := by
      simp only [maxGroup]
      omega
    refine reaches_iff_alive ((hroute (number % 5) mirror hk).2.2.2 (number / 5 % 2) hx _ htype
      (hethSrc.trans hsrc) (hethDst.trans hdst) (hvid.trans ?_))
    obtain ⟨horiginal, hmirror⟩ := vlanVid_stripeTag wisprBuild number
    cases mirror with
    | false =>
      rw [copyTag, if_neg (by decide), horiginal]
      simp only [taggedVid, emittedVid, stripeGroup, stripePacket, wisprBuild, Bool.toNat_false,
        Nat.add_sub_cancel, Option.some.injEq]
      omega
    | true =>
      rw [copyTag, if_pos rfl, hmirror]
      simp only [taggedVid, emittedVid, stripeGroup, stripePacket, wisprBuild, Bool.toNat_true,
        Nat.add_sub_cancel, Option.some.injEq]
      omega

/-- The two ends of the way: the sender's switch hands a packet of the flow to its daemon, and the
receiver's switch takes it from the daemon to the receiver. -/
theorem host_ports (deployment : Deployment env topo) {daemon : DaemonRun} {index : ℕ}
    {bytes : Frame} (h : daemon.Accepts deployment.key index bytes) :
    ForwardsTo (deployment.tables deployment.done.call.src) deployment.done.call.firstPort
        (packetOf bytes) 1 ∧
      ForwardsTo (deployment.tables deployment.done.call.dst) 2 (packetOf bytes)
        deployment.done.call.lastPort := by
  obtain ⟨now, fits, -, hflow⟩ := h
  obtain ⟨hingress, hkey⟩ := ingressFlow_eq_some.mp hflow
  obtain ⟨htype, hheader⟩ := packetOf_ingress hingress hkey
  have hdone : deployment.done ∈ deployment.before ++ deployment.done :: deployment.after := by simp
  obtain ⟨hsrc, hdst⟩ := deployment.settled _ hdone
  have hapart : (deployment.home deployment.done.call.ipSrc).1 ≠
      (deployment.home deployment.done.call.ipDst).1 := by
    rw [hsrc, hdst]
    exact deployment.ends
  obtain ⟨hgive, htake⟩ := accessFlows_serves hsrc hdst rfl
  rw [hsrc] at hgive
  rw [hdst] at htake
  constructor
  · exact forwardsTo_of_settled deployment.settled htype hheader hapart hdone
      ((mem_messages_ipv4 deployment.ends rfl).mpr hgive) (.inl ⟨by rw [hsrc], rfl⟩)
      deployment.srcPort.symm
  · exact forwardsTo_of_settled deployment.settled htype hheader hapart hdone
      ((mem_messages_ipv4 deployment.ends rfl).mpr htake) (.inr ⟨by rw [hdst], by rw [hdst]⟩)
      deployment.dstPort

def receiverFilter (iface : Iface) :
    Filter (Tables wisprBuild) Input (List Frame) Fault (Slot wisprBuild) ℤ :=
  daemonFilter wisprBuild iface (by decide)

theorem receiverFilter_slot (iface : Iface) (input : Input) :
    (receiverFilter iface).slot input =
      (vlanArrival iface input).bind fun arrival ↦ arrivalSlot wisprBuild arrival.buf := by
  unfold receiverFilter daemonFilter
  rfl

theorem receiverFilter_time (iface : Iface) (input : Input) :
    (receiverFilter iface).time input = input.now.micros := by
  unfold receiverFilter daemonFilter
  rfl

/-- A tagged copy passes the filters that its packet passed, if it is not addressed to the daemon
that receives it. -/
theorem isVlanArrival_singleTagged {sender receiver : Iface} {bytes : Frame} {tag : UInt16}
    (hlow : 14 ≤ bytes.length) (hingress : isIngress sender (.received packetSize bytes) = true)
    (hforeign : destIs (.received packetSize bytes) receiver.mac = false) :
    isVlanArrival receiver (.received packetSize (singleTagged bytes tag)) = true := by
  have hdest : ∀ mac, destIs (.received packetSize (singleTagged bytes tag)) mac =
      destIs (.received packetSize bytes) mac := by
    intro mac
    have hbytes : ∀ index : Fin 6, (Buf.received packetSize (singleTagged bytes tag)).byte index =
        (Buf.received packetSize bytes).byte index := by
      intro index
      rw [Buf.received_byte, Buf.received_byte, singleTagged_getD hlow, if_pos (by omega)]
    simp only [destIs, hbytes]
  have htype : etherType (.received packetSize (singleTagged bytes tag)) = 0x8100 := by
    apply Buf.ntohs_load16
    · rw [Buf.received_byte, singleTagged_getD hlow]
      simp [vlanHeader, networkBytes]
    · rw [Buf.received_byte, singleTagged_getD hlow]
      simp [vlanHeader, networkBytes]
  simp only [isIngress, passesFilters, Bool.and_eq_true, Bool.not_eq_true'] at hingress
  simp only [isVlanArrival, passesFilters, hdest, htype, hforeign, Bool.and_eq_true,
    Bool.not_eq_true', decide_true, and_true, true_and]
  exact ⟨⟨hingress.1.1.1.1.1.1.2, hingress.1.1.1.1.1.2⟩, hingress.1.1.1.1.2⟩

section Receiver

variable {deployment : Deployment env topo} {dead : Set (Sym2 Dpid)} {sender receiver : DaemonRun}
  (crossing : Crossing deployment dead sender receiver)

/-- No packet of the flow is addressed to the receiving daemon itself. -/
def Foreign (key : SessionKey) (sender receiver : DaemonRun) : Prop :=
  ∀ {index bytes}, sender.Accepts key index bytes →
    destIs (.received packetSize bytes) receiver.iface.mac = false

/-- What the receiver's daemon makes of a copy: it checks it in the slot of its packet, and sends on
the packet or nothing. -/
theorem received_copy (hforeign : Foreign deployment.key sender receiver) {index : ℕ}
    {mirror : Bool} {place : ℕ} (hposition : crossing.position index mirror = some place)
    {bytes : Frame} (haccepts : sender.Accepts deployment.key index bytes) :
    ∃ input sent, receiver.inputs[place]? = some input ∧ receiver.outputs[place]? = some sent ∧
      (receiverFilter receiver.iface).slot input =
        some (slotOf wisprBuild deployment.key (sender.number deployment.key index)) ∧
      (receiverFilter receiver.iface).time input = receiver.clock place ∧
      (sent = [bytes] ∨ sent = []) := by
  obtain ⟨hlow, hhigh, hcopy⟩ := copy_eq haccepts
  obtain ⟨_, _, -, hflow⟩ := id haccepts
  obtain ⟨hingress, hkey⟩ := ingressFlow_eq_some.mp hflow
  have hreceived := crossing.received hposition
  rw [hcopy mirror, untagOuter_doubleTagged hlow] at hreceived
  obtain ⟨now, fits, hinput⟩ := hreceived
  obtain ⟨before, after, sent, -, hstep, hsent, -⟩ := run_getElem? receiver.completed hinput
  have hvlan : isVlanArrival receiver.iface (.received packetSize (singleTagged bytes
      (copyTag wisprBuild (sender.number deployment.key index) mirror))) = true :=
    isVlanArrival_singleTagged hlow hingress (hforeign haccepts)
  refine ⟨_, sent, hinput, hsent, ?_, ?_, ?_⟩
  · rw [receiverFilter_slot, vlanArrival, Recv.buf, if_pos hvlan, Option.bind_some,
      arrivalSlot_copy hlow]
    exact congrArg (fun key ↦ some (slotOf wisprBuild key _)) hkey
  · rw [receiverFilter_time, DaemonRun.clock, hinput]
    rfl
  · obtain ⟨next, out, hout, hcases⟩ := processWispr0Vlan_copy before hlow hhigh
      (sender.number deployment.key index) mirror now
    have hhandled := @processNewpkt_of_isVlanArrival _ receiver.iface before
      (Input.mk now (.frame _ fits)) hvlan
    cases (hhandled.symm.trans hstep).symm.trans hout
    exact hcases.imp_right And.left

/-- Of a packet with an arrived copy exactly one copy is sent on. The first one to arrive is: what
could have closed its slot is a copy of the packet itself, which would be earlier still, or of
another packet with its tag, which is too long ago. -/
theorem exactly_once_of_arrival (hforeign : Foreign deployment.key sender receiver)
    (htimely : Timely crossing) {index : ℕ} {bytes : Frame}
    (haccepts : sender.Accepts deployment.key index bytes)
    (harrived : ∃ mirror place, crossing.position index mirror = some place) :
    ∃! place, (∃ mirror, crossing.position index mirror = some place) ∧
      receiver.outputs[place]? = some [bytes] := by
  classical
  have hwindow : (receiverFilter receiver.iface).window = timeout := rfl
  have hforwarded : ∀ sent, (receiverFilter receiver.iface).forwarded sent ↔ sent ≠ [] :=
    fun _ ↦ Iff.rfl
  have hexists : ∃ place mirror, crossing.position index mirror = some place := by
    obtain ⟨mirror, place, hposition⟩ := harrived
    exact ⟨place, mirror, hposition⟩
  obtain ⟨mirror, hposition⟩ := Nat.find_spec hexists
  have hearliest : ∀ {place mirror}, crossing.position index mirror = some place →
      Nat.find hexists ≤ place := fun hother ↦ Nat.find_min' hexists ⟨_, hother⟩
  generalize Nat.find hexists = first at hposition hearliest
  obtain ⟨input, sent, hinput, hsent, hslot, htime, hcases⟩ :=
    received_copy crossing hforeign hposition haccepts
  have hfirst : sent = [bytes] := by
    refine hcases.resolve_right fun hdropped ↦ ?_
    have hinitial : (receiverFilter receiver.iface).lastSeen (initWisprtables wisprBuild)
        (slotOf wisprBuild deployment.key (sender.number deployment.key index)) +
        (receiverFilter receiver.iface).window < (receiverFilter receiver.iface).time input := by
      rw [htime, hwindow]
      exact (zero_add timeout).trans_lt (htimely.started hposition)
    obtain ⟨earlier, horder, input', out, hinput', hout, hslot', -, hclose⟩ :=
      (receiverFilter receiver.iface).dropped_of_earlier receiver.completed hinput hsent hslot
        (fun hnonempty ↦ hnonempty hdropped) hinitial
    have hblocker : receiver.slot earlier =
        some (slotOf wisprBuild deployment.key (sender.number deployment.key index)) := by
      rw [DaemonRun.slot, hinput']
      exact hslot'
    obtain ⟨index', mirror', hposition'⟩ := crossing.nothing_else hblocker rfl
    obtain ⟨bytes', haccepts'⟩ := crossing.of_flow hposition'
    obtain ⟨found, -, hfound, -, hfoundSlot, hfoundTime, -⟩ :=
      received_copy crossing hforeign hposition' haccepts'
    cases hinput'.symm.trans hfound
    by_cases hsame : index' = index
    · subst hsame
      exact absurd (hearliest hposition') (not_le.mpr horder)
    · have htag := (slotOf_eq_iff wisprBuild deployment.key _ _).mp
        (Option.some.inj (hfoundSlot.symm.trans hslot'))
      have hapart := htimely.apart hposition' hposition horder hsame htag
      rw [htime, hfoundTime, hwindow] at hclose
      exact absurd hapart (not_lt.mpr hclose)
  refine ⟨first, ⟨⟨mirror, hposition⟩, hfirst ▸ hsent⟩, ?_⟩
  rintro second ⟨⟨mirror', hposition'⟩, hsecond⟩
  by_contra hother
  have horder : first < second := lt_of_le_of_ne (hearliest hposition') (Ne.symm hother)
  obtain ⟨input', sent', hinput', hsent', hslot', htime', -⟩ :=
    received_copy crossing hforeign hposition' haccepts
  have hapart := (receiverFilter receiver.iface).forwarded_apart (by decide : (0 : ℤ) ≤ timeout)
    receiver.completed horder hinput hinput' hsent hsecond hslot hslot'
    ((hforwarded sent).mpr (by rw [hfirst]; exact List.cons_ne_nil _ _))
    ((hforwarded [bytes]).mpr (List.cons_ne_nil _ _))
  rw [htime, htime', hwindow] at hapart
  exact absurd hapart (not_lt.mpr (htimely.together hposition hposition' horder))

end Receiver

/-! ## The system -/

/-- **Host to host.** In every run of the two daemons, with any other traffic in between, and for
every set of dead links: each packet number has two routes, the path of the install with its number
and another path of the install. Within the limits of the dedupe window, a packet of the flow is
sent on to its receiver exactly once if one of its two routes is alive, and never otherwise. The
sender's switch hands the packet to its daemon, and the receiver's switch takes it from the daemon
to the receiver. -/
theorem host_to_host (env : Env) (topo : TopologyState) (deployment : Deployment env topo)
    (dead : Set (Sym2 Dpid)) (sender receiver : DaemonRun)
    (crossing : Crossing deployment dead sender receiver)
    (hforeign : Foreign deployment.key sender receiver) (htimely : Timely crossing)
    (haddressed : ∀ index bytes, sender.Accepts deployment.key index bytes →
      macAt bytes 6 = deployment.done.call.srcMac ∧ macAt bytes 0 = deployment.done.call.dstMac) :
    ∃ route : ℕ → Bool → List Dpid,
      (∀ k < 5, deployment.paths[k]? = some (route k false)) ∧
      (∀ k < 5, route k true ∈ deployment.paths ∧ route k true ≠ route k false) ∧
      ∀ index bytes, sender.Accepts deployment.key index bytes →
        ForwardsTo (deployment.tables deployment.done.call.src) deployment.done.call.firstPort
            (packetOf bytes) 1 ∧
          ForwardsTo (deployment.tables deployment.done.call.dst) 2 (packetOf bytes)
            deployment.done.call.lastPort ∧
          let k := sender.number deployment.key index % 5
          ((Alive dead (route k false) ∨ Alive dead (route k true)) →
            ∃! place, (∃ mirror, crossing.position index mirror = some place) ∧
              receiver.outputs[place]? = some [bytes]) ∧
          (¬ (Alive dead (route k false) ∨ Alive dead (route k true)) →
            ∀ mirror, crossing.position index mirror = none) := by
  obtain ⟨route, horiginal, hmirror, hroute⟩ := exists_routes deployment dead
  refine ⟨route, horiginal, hmirror, ?_⟩
  intro index bytes haccepts
  obtain ⟨hlow, -, hcopy⟩ := copy_eq haccepts
  obtain ⟨hsrcMac, hdstMac⟩ := haddressed index bytes haccepts
  have hcrosses : ∀ mirror, (∃ place, crossing.position index mirror = some place) ↔
      Alive dead (route (sender.number deployment.key index % 5) mirror) := by
    intro mirror
    rw [crossing.crosses haccepts, hcopy]
    exact hroute bytes _ mirror hlow hsrcMac hdstMac
  obtain ⟨hgiven, htaken⟩ := host_ports deployment haccepts
  refine ⟨hgiven, htaken, ?_, ?_⟩
  · intro halive
    apply exactly_once_of_arrival crossing hforeign htimely haccepts
    rcases halive with halive | halive
    · exact ⟨false, (hcrosses false).mpr halive⟩
    · exact ⟨true, (hcrosses true).mpr halive⟩
  · intro hdead mirror
    cases hposition : crossing.position index mirror with
    | none => rfl
    | some place =>
      have halive := (hcrosses mirror).mp ⟨place, hposition⟩
      cases mirror with
      | false => exact absurd (.inl halive) hdead
      | true => exact absurd (.inr halive) hdead

/-- The hosts of the sample packet behind switches 1 and 2. -/
def fanDeployment : Deployment fanPaths fanTopology where
  peer := fanPeer
  home := fanHome
  before := []
  done := ⟨pairCall, [1, 0, 0, 0, 0], 13, fanCall_completed⟩
  after := []
  paths := [[1, 3, 2], [1, 4, 2], [1, 5, 2], [1, 6, 2], [1, 7, 2]]
  wired := fanTopology_wired
  srcAccess := fanTopology_access (.inl rfl)
  dstAccess := fanTopology_access (.inr rfl)
  srcPort := by decide
  dstPort := by decide
  ends := by decide
  macs := by decide
  last := by simp
  settled := by
    intro done hdone
    obtain rfl := List.mem_singleton.mp hdone
    exact ⟨rfl, rfl⟩
  found := by decide +kernel
  enough := by decide

def cutLink : Set (Sym2 Dpid) := {s(1, 3)}

theorem fan_routes_cut {path : List Dpid} (hpath : path ∈ fanDeployment.paths) :
    Alive cutLink path ↔ path ≠ [1, 3, 2] := by
  simp only [fanDeployment, List.mem_cons, List.not_mem_nil, or_false] at hpath
  rcases hpath with rfl | rfl | rfl | rfl | rfl <;> simp [Alive, cutLink]

theorem exists_sender : ∃ sender : DaemonRun, sender.iface = plainIface ∧
    sender.inputs = [tcpInput] ∧ sender.Accepts fanDeployment.key 0 tcpPacket := by
  have hingress : isIngress plainIface tcpInput.recv.buf = true := by decide
  obtain ⟨next, sent, hstep⟩ := processNewpkt_completes_of_ingress (initWisprtables wisprBuild)
    (rfl : tcpInput.recv = .frame tcpPacket (by decide)) hingress (by decide) (by decide)
  refine ⟨⟨plainIface, [tcpInput], next, [sent], run_cons_ok.mpr ⟨next, sent, [], hstep, rfl, rfl⟩⟩,
    rfl, rfl, ⟨1, 0⟩, by decide, rfl, ?_⟩
  exact ingressFlow_eq_some.mpr ⟨hingress, by decide⟩

/-- The daemon of the second host receives the mirror of the sample packet. -/
theorem exists_receiver : ∃ receiver : DaemonRun, receiver.iface = plainIface ∧
    receiver.inputs = [⟨⟨1, 0⟩,
      .frame (singleTagged tcpPacket (copyTag wisprBuild 0 true)) (by decide)⟩] := by
  have hvlan : isVlanArrival plainIface (.received packetSize
      (singleTagged tcpPacket (copyTag wisprBuild 0 true))) = true := by decide
  obtain ⟨next, sent, hstep, -⟩ := processWispr0Vlan_copy (initWisprtables wisprBuild)
    (by decide : 14 ≤ tcpPacket.length) (by decide) 0 true ⟨1, 0⟩
  have hhandled := @processNewpkt_of_isVlanArrival wisprBuild plainIface
    (initWisprtables wisprBuild) ⟨⟨1, 0⟩,
      .frame (singleTagged tcpPacket (copyTag wisprBuild 0 true)) (by decide)⟩ hvlan
  exact ⟨⟨plainIface, _, next, [sent],
    run_cons_ok.mpr ⟨next, sent, [], hhandled.trans hstep, rfl, rfl⟩⟩, rfl, rfl⟩

theorem eq_of_accepts {sender : DaemonRun} (hinputs : sender.inputs = [tcpInput]) {index : ℕ}
    {bytes : Frame} (h : sender.Accepts fanDeployment.key index bytes) :
    index = 0 ∧ bytes = tcpPacket := by
  obtain ⟨now, fits, hinput, -⟩ := h
  rw [hinputs] at hinput
  match index with
  | 0 =>
    cases hinput
    exact ⟨rfl, rfl⟩
  | index + 1 => cases hinput

/-- The original is lost on the dead link and the mirror gets through: the receiver has the packet
exactly once. -/
theorem host_to_host_cut_link : ∃ (sender receiver : DaemonRun)
    (crossing : Crossing fanDeployment cutLink sender receiver),
    sender.Accepts fanDeployment.key 0 tcpPacket ∧ crossing.position 0 false = none ∧
      ∃! place, (∃ mirror, crossing.position 0 mirror = some place) ∧
        receiver.outputs[place]? = some [tcpPacket] := by
  obtain ⟨sender, -, hsent, haccepts⟩ := exists_sender
  obtain ⟨receiver, hiface, harrived⟩ := exists_receiver
  obtain ⟨hlow, -, hcopy⟩ := copy_eq haccepts
  have hnumber : sender.number fanDeployment.key 0 = 0 := rfl
  rw [hnumber] at hcopy
  obtain ⟨route, horiginal, hmirror, hroute⟩ := exists_routes fanDeployment cutLink
  have hfirst : [1, 3, 2] = route 0 false := Option.some.inj (horiginal 0 (by decide))
  have hcut : ¬ Alive cutLink (route 0 false) := by
    rw [← hfirst, fan_routes_cut (by decide)]
    exact fun hother ↦ hother rfl
  have hkept : Alive cutLink (route 0 true) := by
    obtain ⟨hmem, hother⟩ := hmirror 0 (by decide)
    rw [fan_routes_cut hmem, hfirst]
    exact hother
  let crossing : Crossing fanDeployment cutLink sender receiver := {
    position := fun index mirror ↦ if index = 0 ∧ mirror = true then some 0 else none
    of_flow := by
      intro index mirror place hposition
      split at hposition
      · rename_i hcopy
        exact ⟨tcpPacket, hcopy.1 ▸ haccepts⟩
      · cases hposition
    received := by
      intro index mirror place hposition
      split at hposition
      · rename_i hcopyIndex
        obtain ⟨rfl, rfl⟩ := hcopyIndex
        cases hposition
        rw [hcopy true, untagOuter_doubleTagged hlow, harrived]
        exact ⟨_, _, rfl⟩
      · cases hposition
    crosses := by
      intro index bytes haccepts' mirror
      obtain ⟨rfl, rfl⟩ := eq_of_accepts hsent haccepts'
      rw [hcopy mirror]
      refine Iff.trans ?_ (hroute tcpPacket 0 mirror hlow (by decide) (by decide)).symm
      cases mirror with
      | false => simpa using hcut
      | true => simpa using hkept
    nothing_else := by
      intro place slot hslot _
      rw [DaemonRun.slot, harrived] at hslot
      match place with
      | 0 => exact ⟨0, true, rfl⟩
      | place + 1 => cases hslot }
  refine ⟨sender, receiver, crossing, haccepts, rfl, ?_⟩
  have hforeign : Foreign fanDeployment.key sender receiver := by
    intro index bytes haccepts'
    obtain ⟨-, rfl⟩ := eq_of_accepts hsent haccepts'
    rw [hiface]
    decide
  have hplace : ∀ {index mirror place}, crossing.position index mirror = some place →
      index = 0 ∧ place = 0 := by
    intro index mirror place hposition
    simp only [crossing] at hposition
    split at hposition
    · rename_i hcopyIndex
      cases hposition
      exact ⟨hcopyIndex.1, rfl⟩
    · cases hposition
  have htimely : Timely crossing := by
    refine ⟨?_, ?_, ?_⟩
    · intro index mirror place hposition
      rw [(hplace hposition).2, DaemonRun.clock, harrived]
      decide
    · intro index mirror mirror' first second hfirst hsecond horder
      have h₁ := (hplace hfirst).2
      have h₂ := (hplace hsecond).2
      omega
    · intro index index' mirror mirror' first second hfirst hsecond horder
      have h₁ := (hplace hfirst).2
      have h₂ := (hplace hsecond).2
      omega
  obtain ⟨route', horiginal', hmirror', hpackets⟩ := host_to_host fanPaths fanTopology
    fanDeployment cutLink sender receiver crossing hforeign htimely (by
      intro index bytes haccepts'
      obtain ⟨-, rfl⟩ := eq_of_accepts hsent haccepts'
      decide)
  have hkept' : Alive cutLink (route' 0 true) := by
    obtain ⟨hmem, hother⟩ := hmirror' 0 (by decide)
    rw [fan_routes_cut hmem, Option.some.inj (horiginal' 0 (by decide) : some [1, 3, 2] = _)]
    exact hother
  exact (hpackets 0 tcpPacket haccepts).2.2.1 (.inr hkept')

end Wispr.Network.HostToHost
