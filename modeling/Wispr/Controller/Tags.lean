import Wispr.Controller.Forwarding
import Wispr.Daemon.Striping

/-!
# Tags of the daemon and rules of the controller

The daemon cycles through `NUMBEROFPATHS * NUMBEROFGROUPS` tags, whatever the topology; the
controller installs rules for as many packet numbers as it found paths, and for one group more than
the daemon uses. So the two agree on the groups, on the mirror bit and on the encoding, and on the
packet numbers exactly when the install found at least `NUMBEROFPATHS` paths.
-/

open Wispr.Foundation.ByteBuffer Wispr.Foundation.Run

namespace Wispr.Controller.Tags

open Paths Install Forwarding
open Daemon.Proto Daemon.Net Daemon.Codec Daemon.Striping

/-- The daemon emits a frame of the flow with this outer VLAN id in some run. -/
def Emits (build : Build) (key : SessionKey) (vlanId : ℕ) : Prop :=
  ∃ (iface : Iface) (inputs : List Input) (final : Tables build) (outputs : List (List Frame))
    (index : ℕ) (input : Input) (sent : List Frame) (frame : Frame),
    run (processNewpkt iface) (initWisprtables build) inputs = .ok (final, outputs) ∧
      inputs[index]? = some input ∧ ingressFlow iface input = some key ∧
      outputs[index]? = some sent ∧ frame ∈ sent ∧ vlanVid (outerTag frame) = vlanId

/-- Some daemon receives packets of the flow, of a length it can extend. -/
def HasTraffic (key : SessionKey) : Prop :=
  ∃ (iface : Iface) (now : Timeval) (bytes : Frame) (fits : bytes.length ≤ packetSize),
    ingressFlow iface ⟨now, .frame bytes fits⟩ = some key ∧ 14 ≤ bytes.length ∧
      bytes.length ≤ 65992

/-- The id of the packet with a given number, in either mode. -/
def emittedVid (build : Build) (mode number : ℕ) : ℕ :=
  mode * 0x100 + (stripeGroup build (number + 1) * 16 + stripePacket build (number + 1))

theorem vlanVid_stripeTag (build : Build) (number : ℕ) :
    vlanVid (stripeTag build (number + 1)) = emittedVid build 0 number ∧
      vlanVid (stripeTag build (number + 1) ||| 0x0100) = emittedVid build 1 number := by
  have hgroup := (stripeGroup_lt_nibble build (number + 1)).trans (by decide : 15 < 16)
  have hpacket := stripePacket_lt_nibble build (number + 1)
  constructor
  · rw [vlanVid, stripeTag, toNat_tagOf hgroup hpacket, emittedVid]
    omega
  · rw [vlanVid, stripeTag, toNat_mirror_tagOf hgroup hpacket, emittedVid]
    omega

theorem emittedVid_of_emits {build : Build} {key : SessionKey} {vlanId : ℕ}
    (h : Emits build key vlanId) : ∃ mode ≤ 1, ∃ number, vlanId = emittedVid build mode number := by
  obtain ⟨iface, inputs, final, outputs, index, input, sent, frame, hrun, hinput, hflow, hsent,
    hframe, rfl⟩ := h
  obtain ⟨before, after, output, hbefore, hstep, houtput, -⟩ := run_getElem? hrun hinput
  cases hsent.symm.trans houtput
  have hstart : storedTag (initWisprtables build) key = stripeTag build 0 := rfl
  have htag := storedTag_run hstart hbefore
  obtain ⟨bytes, -, -, rfl, hlow, -⟩ := emitted_of_isIngress htag hflow hstep
  obtain ⟨horiginal, hmirror⟩ :=
    vlanVid_stripeTag build (0 + packetsOf iface key (inputs.take index))
  simp only [List.mem_cons, List.not_mem_nil, or_false] at hframe
  rcases hframe with rfl | rfl
  · exact ⟨0, by decide, _, (congrArg vlanVid (outerTag_doubleTagged hlow _)).trans horiginal⟩
  · exact ⟨1, le_rfl, _, (congrArg vlanVid (outerTag_doubleTagged hlow _)).trans hmirror⟩

/-- A flow with traffic reaches every id of the counter: repeat one of its packets. -/
theorem emits_emittedVid (build : Build) {key : SessionKey} (htraffic : HasTraffic key) {mode : ℕ}
    (hmode : mode ≤ 1) (number : ℕ) : Emits build key (emittedVid build mode number) := by
  have hsize : packetSize = 66000 := rfl
  obtain ⟨iface, now, bytes, fits, hflow, hlow, hhigh⟩ := htraffic
  let input : Input := ⟨now, .frame bytes fits⟩
  have hingress : isIngress iface input.recv.buf = true := (ingressFlow_eq_some.mp hflow).1
  have hcompletes : ∀ (tables : Tables build) (item : Input), item = input →
      ∃ next sent, processNewpkt iface tables item = .ok (next, sent) := by
    intro tables item hitem
    rw [hitem]
    exact processNewpkt_completes_of_ingress tables rfl hingress hlow (by omega)
  obtain ⟨final, outputs, hrun⟩ := run_completes hcompletes (initWisprtables build)
    (List.replicate (number + 1) input) (fun item hitem ↦ List.eq_of_mem_replicate hitem)
  have hinput : (List.replicate (number + 1) input)[number]? = some input := by simp
  obtain ⟨before, after, sent, hbefore, hstep, hsent, -⟩ := run_getElem? hrun hinput
  have hstart : storedTag (initWisprtables build) key = stripeTag build 0 := rfl
  have htag := storedTag_run hstart hbefore
  have hcount : packetsOf iface key ((List.replicate (number + 1) input).take number) = number := by
    simp [packetsOf, List.countP_replicate, input, hflow]
  rw [hcount, Nat.zero_add] at htag
  obtain ⟨found, -, -, rfl, hfound, -⟩ := emitted_of_isIngress htag hflow hstep
  obtain ⟨horiginal, hmirror⟩ := vlanVid_stripeTag build number
  rcases Nat.le_one_iff_eq_zero_or_eq_one.mp hmode with rfl | rfl
  · exact ⟨iface, _, final, outputs, number, input, _, _, hrun, hinput, hflow, hsent,
      List.mem_cons_self ..,
      (congrArg vlanVid (outerTag_doubleTagged hfound _)).trans horiginal⟩
  · exact ⟨iface, _, final, outputs, number, input, _, _, hrun, hinput, hflow, hsent,
      List.mem_cons_of_mem _ (List.mem_cons_self ..),
      (congrArg vlanVid (outerTag_doubleTagged hfound _)).trans hmirror⟩

/-- The four bytes of an address, as a little-endian host loads them from a packet. -/
def loadedAddress (ip : Ip) : UInt32 :=
  UInt32.ofNat (ip.toNat % 0x100 * 0x1000000 + ip.toNat / 0x100 % 0x100 * 0x10000 +
    ip.toNat / 0x10000 % 0x100 * 0x100 + ip.toNat / 0x1000000)

/-- The flow of an install, as the daemon of the source switch keys it. -/
def flowOf (call : InstallCall) : SessionKey := ⟨loadedAddress call.ipSrc, loadedAddress call.ipDst⟩

variable {env : Env} {topo : TopologyState}

/-- A double-tagged frame of the pair with this id, from the daemon of the source switch, matches a
rule of priority 3 that the install has sent there. -/
def Matched (done : CompletedCall env topo) (vlanId : ℕ) : Prop :=
  ∃ flow, (done.call.src, flow) ∈ done.messages ∧ flow.priority = 3 ∧
    ∀ packet : Packet, packet.ethType = 0x8100 → packet.ethSrc = done.call.srcMac →
      packet.ethDst = done.call.dstMac → packet.vlanVid = some (0x1000 + vlanId) →
      flow.condition.accepts (2, packet) = true

/-- The route of every mode and index lies along one of the paths. -/
theorem mem_routes_along {paths : List (List Dpid)} {pathsWithPorts mirrors : List PathPorts}
    {draws : List ℕ} {firstPort lastPort : Port}
    (halong : List.Forall₂ (PortsAlong topo lastPort firstPort) paths pathsWithPorts)
    (hmirrors : drawMirrors pathsWithPorts pathsWithPorts draws = .ok mirrors) {mode k : ℕ}
    (hk : k < paths.length) : ∃ ports, (routes pathsWithPorts mirrors mode)[k]? = some ports ∧
      ∃ path ∈ paths, PortsAlong topo lastPort firstPort path ports := by
  have hdrawn := drawMirrors_ok hmirrors
  have hk' : k < pathsWithPorts.length := halong.length_eq ▸ hk
  unfold routes
  split
  · exact ⟨_, List.getElem?_eq_getElem hk', _, List.getElem_mem hk, halong.get hk hk'⟩
  · have hk'' : k < mirrors.length := hdrawn.length_eq ▸ hk'
    obtain ⟨j, hj, hmirror⟩ := List.getElem_of_mem (hdrawn.get hk' hk'').1
    have hj' : j < paths.length := halong.length_eq ▸ hj
    refine ⟨_, List.getElem?_eq_getElem hk'', _, List.getElem_mem hj', ?_⟩
    have hfound := halong.get hj' hj
    simp only [List.get_eq_getElem] at hfound hmirror
    rwa [hmirror] at hfound

theorem matched_iff {done : CompletedCall env topo} {paths : List (List Dpid)}
    (hpaths : getPaths env topo done.call.src done.call.dst = .ok paths) {vlanId : ℕ} :
    Matched done vlanId ↔ ∃ mode ≤ 1, ∃ x ≤ maxGroup, ∃ k < paths.length,
      0x1000 + vlanId = taggedVid mode x k := by
  obtain ⟨found, pathsWithPorts, mirrors, hfound, hpathsWithPorts, hmirrors, hlog⟩ :=
    installPaths_ok done.completed
  cases hpaths.symm.trans hfound
  have halong := addPortsToPaths_ok hpaths hpathsWithPorts
  have hsameMirrors : mirrors.length = pathsWithPorts.length :=
    (drawMirrors_ok hmirrors).length_eq.symm
  constructor
  · rintro ⟨flow, hflow, -, haccepts⟩
    -- A sample frame with the id: the rule that accepts it names the id.
    let packet : Packet := ⟨done.call.srcMac, done.call.dstMac, 0x8100, 0x8100,
      some (0x1000 + vlanId), none, none, false⟩
    have hsample := haccepts packet rfl rfl rfl rfl
    obtain ⟨firstPath, vlan, inPort, outPort, hnode⟩ := mem_messages hflow
    have hcondition := (accepts_doubleTagged hnode rfl rfl hsample).2
    obtain ⟨mode, hmode, k, ports, hports, inPort', outPort', -, x, hx, hpair⟩ :=
      (mem_log_vlan hsameMirrors hlog (by rw [hcondition]; rfl)).mp hflow
    refine ⟨mode, hmode, x, hx, k, ?_, ?_⟩
    · have hk := (List.getElem?_eq_some_iff.mp hports).1
      rw [halong.length_eq]
      unfold routes at hk
      split at hk
      · exact hk
      · exact hsameMirrors ▸ hk
    · obtain ⟨-, port, hpairCondition⟩ := vlanPair_condition hpair
      rw [hcondition] at hpairCondition
      rcases hpairCondition with hsame | hsame
      · exact Option.some.inj (congrArg OFPMatch.vlanVid hsame)
      · exact Option.some.inj (congrArg OFPMatch.vlanVid hsame)
  · rintro ⟨mode, hmode, x, hx, k, hk, hvid⟩
    obtain ⟨ports, hports, path, hpath, hpathAlong⟩ := mem_routes_along halong hmirrors hk
    have hsrc : done.call.src ∈ ports.map Prod.fst := by
      rw [hpathAlong.keys]
      exact List.mem_of_mem_head? (getPaths_simple hpaths path hpath).starts
    obtain ⟨⟨node, inPort, outPort⟩, hitem, rfl⟩ := List.mem_map.mp hsrc
    have hrule : forwardRule done.call done.call.src inPort outPort (taggedVid mode x k) =
        ⟨3, vlanMatch 2 done.call.dstMac done.call.srcMac (taggedVid mode x k), [.port outPort]⟩ :=
      if_pos rfl
    refine ⟨forwardRule done.call done.call.src inPort outPort (taggedVid mode x k), ?_, ?_, ?_⟩
    · refine (mem_log_vlan hsameMirrors hlog (by rw [hrule]; rfl)).mpr ?_
      exact ⟨mode, hmode, k, ports, hports, inPort, outPort, hitem, x, hx, forwardRule_mem ..⟩
    · rw [hrule]
    · intro packet htype hsrcMac hdstMac hpacketVid
      rw [hrule]
      simp [OFPMatch.accepts, fieldAccepts, vlanMatch, htype, hsrcMac, hdstMac, hpacketVid, hvid]

/-- **Agreement on tags.** For a flow with traffic, every VLAN id that the daemon can emit for it
matches a rule of priority 3 at the source switch exactly when the install found at least
`NUMBEROFPATHS` paths. -/
theorem daemon_tags_matched_iff (env : Env) (topo : TopologyState) (done : CompletedCall env topo)
    (htraffic : HasTraffic (flowOf done.call)) :
    (∀ vlanId, Emits wisprBuild (flowOf done.call) vlanId → Matched done vlanId) ↔
      ∃ paths, getPaths env topo done.call.src done.call.dst = .ok paths ∧
        wisprBuild.numberOfPaths ≤ paths.length := by
  obtain ⟨paths, -, -, hpaths, -⟩ := installPaths_ok done.completed
  constructor
  · intro hmatched
    refine ⟨paths, hpaths, ?_⟩
    have hfifth : emittedVid wisprBuild 0 4 = 5 := by decide
    have hemits := emits_emittedVid wisprBuild htraffic (Nat.zero_le 1) 4
    rw [hfifth] at hemits
    obtain ⟨mode, hmode, x, hx, k, hk, hvid⟩ := (matched_iff hpaths).mp (hmatched 5 hemits)
    have hlength := getPaths_length hpaths
    simp only [taggedVid, maxGroup, maxPaths, wisprBuild] at *
    omega
  · rintro ⟨found, hfound, hlength⟩ vlanId hemits
    cases hpaths.symm.trans hfound
    obtain ⟨mode, hmode, number, rfl⟩ := emittedVid_of_emits hemits
    refine (matched_iff hpaths).mpr ⟨mode, hmode, number / 5 % 2, ?_, number % 5, ?_, ?_⟩
    · simp only [maxGroup]
      omega
    · simp only [wisprBuild] at hlength
      omega
    · simp only [taggedVid, emittedVid, stripeGroup, stripePacket, wisprBuild]
      omega

theorem pairCall_hasTraffic : HasTraffic (flowOf pairCall) :=
  ⟨plainIface, ⟨1, 0⟩, tcpPacket, by decide, by decide, by decide, by decide⟩

/-- With five paths every id of the daemon is matched. -/
theorem daemon_tags_matched_fan : HasTraffic (flowOf pairCall) ∧
    ∀ vlanId, Emits wisprBuild (flowOf pairCall) vlanId →
      Matched ⟨pairCall, [1, 0, 0, 0, 0], 13, fanCall_completed⟩ vlanId := by
  refine ⟨pairCall_hasTraffic, (daemon_tags_matched_iff fanPaths fanTopology
    ⟨pairCall, [1, 0, 0, 0, 0], 13, fanCall_completed⟩ pairCall_hasTraffic).mpr ?_⟩
  exact ⟨[[1, 3, 2], [1, 4, 2], [1, 5, 2], [1, 6, 2], [1, 7, 2]], by decide +kernel, by decide⟩

/-- Every two switches that have entered are joined by a path. -/
def Connected (topo : TopologyState) : Prop :=
  ∀ src ∈ topo.switches, ∀ dst ∈ topo.switches, ∃ path, topo.G.SimplePath src dst path

theorem pairTopology_connected : Connected pairTopology := by
  have hswitches : pairTopology.switches = [1, 2] := by decide
  have hlink : s(1, 2) ∈ pairTopology.G.edges := by decide
  intro src hsrc dst hdst
  rw [hswitches] at hsrc hdst
  simp only [List.mem_cons, List.not_mem_nil, or_false] at hsrc hdst
  rcases hsrc with rfl | rfl
  · rcases hdst with rfl | rfl
    · exact ⟨[1], rfl, rfl, by decide, .singleton 1⟩
    · exact ⟨[1, 2], rfl, rfl, by decide, .cons_cons hlink (.singleton 2)⟩
  · rcases hdst with rfl | rfl
    · exact ⟨[2, 1], rfl, rfl, by decide, .cons_cons (Sym2.eq_swap ▸ hlink) (.singleton 1)⟩
    · exact ⟨[2], rfl, rfl, by decide, .singleton 2⟩

/-- With a single link between the two switches, the second id of the daemon has no rule. -/
theorem second_tag_unmatched : ¬ ∀ (env : Env) (topo : TopologyState)
    (done : CompletedCall env topo), Connected topo → done.call.src ≠ done.call.dst →
      ∀ vlanId, Emits wisprBuild (flowOf done.call) vlanId → Matched done vlanId := by
  intro halways
  have hsecond : emittedVid wisprBuild 0 1 = 2 := by decide
  have hemits := emits_emittedVid wisprBuild pairCall_hasTraffic (Nat.zero_le 1) 1
  rw [hsecond] at hemits
  have hmatched := halways directPaths pairTopology ⟨pairCall, [0], 3, pairCall_completed⟩
    pairTopology_connected (by decide) 2 hemits
  have hpaths : getPaths directPaths pairTopology 1 2 = .ok [[1, 2]] := by decide
  obtain ⟨mode, hmode, x, hx, k, hk, hvid⟩ := (matched_iff hpaths).mp hmatched
  simp only [taggedVid, maxGroup, List.length_singleton] at *
  omega

end Wispr.Controller.Tags
