import Wispr.Controller.Backward

/-!
# Hosts at their access switches

What `install_paths` does with untagged traffic. IPv4 packets between two hosts are handed to the
daemon at the switch of the sender and taken from the daemon at the switch of the receiver; ARP
packets bypass the daemons and follow the first path.

Installs of a pair in both orientations write these rules with different priorities and in any
order. As long as every install was made with the ports the hosts really hang on, all of them agree.
-/

open Wispr.Foundation.Effects Wispr.Foundation.FlowTable

namespace Wispr.Controller.Access

open Paths Install Forwarding Backward

variable {env : Env} {topo : TopologyState}

/-- The IPv4 rules of an install. -/
def accessFlows (call : InstallCall) : List (Dpid × FlowMod) :=
  [(call.src, ⟨2, ipv4Match call.firstPort call.ipSrc call.ipDst, [.port 1]⟩),
    (call.src, ⟨2, ipv4Match 2 call.ipDst call.ipSrc, [.port call.firstPort]⟩),
    (call.src, ⟨10, icmpMatch 2 call.ipDst call.ipSrc, [.port call.firstPort]⟩),
    (call.dst, ⟨2, ipv4Match 2 call.ipSrc call.ipDst, [.port call.lastPort]⟩),
    (call.dst, ⟨2, ipv4Match call.lastPort call.ipDst call.ipSrc, [.port 1]⟩)]

theorem vlanFlows_ethType {call : InstallCall} {vlan : ℕ} {node : Dpid} {inPort outPort : Port}
    {flow : FlowMod} (h : flow ∈ vlanFlows call vlan node inPort outPort) :
    flow.condition.ethType = some 0x8100 := by
  obtain ⟨x, -, hpair⟩ := mem_vlanFlows.mp h
  obtain ⟨-, port, hcondition | hcondition⟩ := vlanPair_condition hpair
  · rw [hcondition]
    rfl
  · rw [hcondition]
    rfl

theorem arpFlows_ethType {call : InstallCall} {inPort outPort : Port} {flow : FlowMod}
    (h : flow ∈ arpFlows call inPort outPort) : flow.condition.ethType = some 0x0806 := by
  simp only [arpFlows, List.mem_cons, List.not_mem_nil, or_false] at h
  rcases h with rfl | rfl
  · rfl
  · rfl

theorem ipv4Flows_ethType {call : InstallCall} {node : Dpid} {inPort outPort : Port}
    {flow : FlowMod} (h : flow ∈ ipv4Flows call node inPort outPort) :
    flow.condition.ethType = some 0x0800 := by
  unfold ipv4Flows at h
  split at h
  · simp only [List.mem_cons, List.not_mem_nil, or_false] at h
    rcases h with rfl | rfl | rfl
    · rfl
    · rfl
    · rfl
  · split at h
    · simp only [List.mem_cons, List.not_mem_nil, or_false] at h
      rcases h with rfl | rfl
      · rfl
      · rfl
    · cases h

/-- A completed install has found a path, and its rules for untagged packets are those of its
paths. -/
theorem exists_paths (done : CompletedCall env topo) :
    ∃ paths pathsWithPorts, getPaths env topo done.call.src done.call.dst = .ok paths ∧
      List.Forall₂ (PortsAlong topo done.call.lastPort done.call.firstPort) paths pathsWithPorts ∧
      pathsWithPorts ≠ [] ∧
      ∀ {node : Dpid} {flow : FlowMod}, flow.condition.ethType ≠ some 0x8100 →
        ((node, flow) ∈ done.messages ↔ ∃ k ports inPort outPort,
          pathsWithPorts[k]? = some ports ∧ (node, inPort, outPort) ∈ ports ∧
            flow ∈ nodeFlows done.call (decide (k = 0)) (0x1001 + k) node inPort outPort) := by
  obtain ⟨paths, pathsWithPorts, mirrors, hpaths, hpathsWithPorts, hmirrors, hlog⟩ :=
    installPaths_ok done.completed
  have hdrawn := drawMirrors_ok hmirrors
  refine ⟨paths, pathsWithPorts, hpaths, addPortsToPaths_ok hpaths hpathsWithPorts, ?_, ?_⟩
  · have hreturned := done.completed
    obtain ⟨_, hpaths', hreturned, -⟩ := Logged.bind_ok hreturned
    obtain ⟨_, -, hreturned, -⟩ := Logged.bind_ok hreturned
    obtain ⟨_, hpathsWithPorts', hreturned, -⟩ := Logged.bind_ok hreturned
    obtain ⟨_, -, hreturned, -⟩ := Logged.bind_ok hreturned
    cases hpaths'.symm.trans hpaths
    cases hpathsWithPorts'.symm.trans hpathsWithPorts
    rintro rfl
    cases hreturned
  · intro node flow htype
    refine (hlog _).trans ?_
    constructor
    · rintro ⟨k, ports, mirror, hports, -, hmessage | hmessage⟩
      · obtain ⟨inPort, outPort, hitem, hflow⟩ := mem_pathMessages.mp hmessage
        exact ⟨k, ports, inPort, outPort, hports, hitem, hflow⟩
      · obtain ⟨inPort, outPort, -, hflow⟩ := mem_pathMessages.mp hmessage
        exact absurd (vlanFlows_ethType hflow) htype
    · rintro ⟨k, ports, inPort, outPort, hports, hitem, hflow⟩
      have hk : k < mirrors.length :=
        (List.getElem?_eq_some_iff.mp hports).1.trans_eq hdrawn.length_eq
      exact ⟨k, ports, mirrors[k], hports, List.getElem?_eq_getElem hk,
        .inl (mem_pathMessages.mpr ⟨inPort, outPort, hitem, hflow⟩)⟩

/-- Which of the rules for one switch are for IPv4 and which are for ARP. -/
theorem nodeFlows_ipv4 {call : InstallCall} {firstPath : Bool} {vlan : ℕ} {node : Dpid}
    {inPort outPort : Port} {flow : FlowMod} (htype : flow.condition.ethType = some 0x0800) :
    flow ∈ nodeFlows call firstPath vlan node inPort outPort ↔
      flow ∈ ipv4Flows call node inPort outPort := by
  simp only [nodeFlows, List.mem_append]
  constructor
  · rintro ((harp | hipv4) | hvlan)
    · split at harp
      · exact absurd ((arpFlows_ethType harp).symm.trans htype) (by decide)
      · cases harp
    · exact hipv4
    · exact absurd ((vlanFlows_ethType hvlan).symm.trans htype) (by decide)
  · exact fun hipv4 ↦ .inl (.inr hipv4)

theorem nodeFlows_arp {call : InstallCall} {firstPath : Bool} {vlan : ℕ} {node : Dpid}
    {inPort outPort : Port} {flow : FlowMod} (htype : flow.condition.ethType = some 0x0806) :
    flow ∈ nodeFlows call firstPath vlan node inPort outPort ↔
      firstPath = true ∧ flow ∈ arpFlows call inPort outPort := by
  simp only [nodeFlows, List.mem_append]
  constructor
  · rintro ((harp | hipv4) | hvlan)
    · split at harp
      · exact ⟨by assumption, harp⟩
      · cases harp
    · exact absurd ((ipv4Flows_ethType hipv4).symm.trans htype) (by decide)
    · exact absurd ((vlanFlows_ethType hvlan).symm.trans htype) (by decide)
  · rintro ⟨rfl, harp⟩
    exact .inl (.inl harp)

/-- The IPv4 rules of a switch at one end of a path are those of the install's arguments. -/
theorem ipv4Flows_of_item {call : InstallCall} {path : List Dpid} {ports : PathPorts}
    (hsimple : topo.G.SimplePath call.src call.dst path)
    (halong : PortsAlong topo call.lastPort call.firstPort path ports) {node : Dpid}
    {inPort outPort : Port} (hitem : (node, inPort, outPort) ∈ ports) {flow : FlowMod}
    (hends : call.src ≠ call.dst) :
    flow ∈ ipv4Flows call node inPort outPort ↔ (node, flow) ∈ accessFlows call := by
  by_cases hsrc : node = call.src
  · have hentry := entry_of_head halong hsimple.nodup (hsrc ▸ hsimple.starts) hitem
    simp [ipv4Flows, accessFlows, hsrc, hentry, hends]
  · by_cases hdst : node = call.dst
    · have hexit := exit_of_last halong hsimple.nodup (hdst ▸ hsimple.ends) hitem
      simp [ipv4Flows, accessFlows, hdst, hexit, hends.symm]
    · simp [ipv4Flows, accessFlows, hsrc, hdst]

theorem mem_messages_ipv4 {done : CompletedCall env topo}
    (hends : done.call.src ≠ done.call.dst) {node : Dpid} {flow : FlowMod}
    (htype : flow.condition.ethType = some 0x0800) :
    (node, flow) ∈ done.messages ↔ (node, flow) ∈ accessFlows done.call := by
  obtain ⟨paths, pathsWithPorts, hpaths, halong, hfound, hmessages⟩ := exists_paths done
  have hsimple := getPaths_simple hpaths
  rw [hmessages (by rw [htype]; decide)]
  constructor
  · rintro ⟨k, ports, inPort, outPort, hports, hitem, hflow⟩
    obtain ⟨hk, rfl⟩ := List.getElem?_eq_some_iff.mp hports
    have hk' : k < paths.length := halong.length_eq ▸ hk
    exact (ipv4Flows_of_item (hsimple _ (List.getElem_mem hk')) (halong.get hk' hk) hitem hends).mp
      ((nodeFlows_ipv4 htype).mp hflow)
  · intro hflow
    have hk : 0 < pathsWithPorts.length := List.length_pos_of_ne_nil hfound
    have hk' : 0 < paths.length := halong.length_eq ▸ hk
    have hfirst := hsimple _ (List.getElem_mem hk')
    have hfirstAlong := halong.get hk' hk
    simp only [List.get_eq_getElem] at hfirstAlong
    -- Both ends lie on the first path.
    have hnode : node ∈ pathsWithPorts[0].map Prod.fst := by
      rw [hfirstAlong.keys]
      have hend : node = done.call.src ∨ node = done.call.dst := by
        simp only [accessFlows, List.mem_cons, Prod.mk.injEq, List.not_mem_nil, or_false] at hflow
        tauto
      rcases hend with rfl | rfl
      · exact List.mem_of_mem_head? hfirst.starts
      · exact List.mem_of_getLast? hfirst.ends
    obtain ⟨⟨_, inPort, outPort⟩, hitem, rfl⟩ := List.mem_map.mp hnode
    exact ⟨0, _, inPort, outPort, List.getElem?_eq_getElem hk, hitem, (nodeFlows_ipv4 htype).mpr
      ((ipv4Flows_of_item hfirst hfirstAlong hitem hends).mpr hflow)⟩

/-! ## IPv4 packets go through the daemons -/

/-- Every install was made with the places the hosts with these addresses hang on. -/
def Settled (home : Ip → Dpid × Port) (calls : List (CompletedCall env topo)) : Prop :=
  ∀ done ∈ calls, home done.call.ipSrc = (done.call.src, done.call.firstPort) ∧
    home done.call.ipDst = (done.call.dst, done.call.lastPort)

theorem accepts_ipv4Match {inPort port : Port} {src dst : Ip} {packet : Packet}
    {header : Ipv4Header} (htype : packet.ethType = 0x0800) (hheader : packet.ipv4 = some header) :
    (ipv4Match inPort src dst).accepts (port, packet) = true ↔
      inPort = port ∧ src = header.src ∧ dst = header.dst := by
  simp [OFPMatch.accepts, fieldAccepts, ipv4Match, htype, hheader, and_assoc]

theorem accepts_icmpMatch {inPort port : Port} {src dst : Ip} {packet : Packet}
    {header : Ipv4Header} (hheader : packet.ipv4 = some header)
    (h : (icmpMatch inPort src dst).accepts (port, packet) = true) :
    inPort = port ∧ src = header.src ∧ dst = header.dst := by
  simp only [OFPMatch.accepts, fieldAccepts, icmpMatch, ipv4Match, hheader, Option.map_some,
    Bool.and_eq_true, decide_eq_true_eq, Option.some.injEq, reduceCtorEq, false_or] at h
  tauto

/-- A rule of an install that accepts an IPv4 packet is an IPv4 rule for its two addresses. -/
theorem pair_of_accepts {done : CompletedCall env topo} {node : Dpid} {flow : FlowMod}
    (hflow : (node, flow) ∈ done.messages) {port : Port} {packet : Packet} {header : Ipv4Header}
    (htype : packet.ethType = 0x0800) (hheader : packet.ipv4 = some header)
    (haccepts : flow.condition.accepts (port, packet) = true) :
    flow.condition.ethType = some 0x0800 ∧
      s(header.src, header.dst) = s(done.call.ipSrc, done.call.ipDst) := by
  obtain ⟨firstPath, vlan, inPort, outPort, hnode⟩ := mem_messages hflow
  have hethType : flow.condition.ethType = none ∨ flow.condition.ethType = some 0x0800 := by
    simp only [OFPMatch.accepts, fieldAccepts, Bool.and_eq_true, decide_eq_true_eq] at haccepts
    rw [← htype]
    exact haccepts.1.1.1.1.1.1.2
  have hipv4Type : flow.condition.ethType = some 0x0800 := by
    rcases nodeFlows_cases hnode with harp | hipv4 | hvlan
    · simp [harp] at hethType
    · exact hipv4
    · simp [vlanFlows_ethType hvlan] at hethType
  refine ⟨hipv4Type, ?_⟩
  have hipv4 := (nodeFlows_ipv4 hipv4Type).mp hnode
  rw [Sym2.eq_iff]
  unfold ipv4Flows at hipv4
  split at hipv4
  · simp only [List.mem_cons, List.not_mem_nil, or_false] at hipv4
    rcases hipv4 with rfl | rfl | rfl
    · have hfields := (accepts_ipv4Match htype hheader).mp haccepts
      exact .inl ⟨hfields.2.1.symm, hfields.2.2.symm⟩
    · have hfields := (accepts_ipv4Match htype hheader).mp haccepts
      exact .inr ⟨hfields.2.1.symm, hfields.2.2.symm⟩
    · have hfields := accepts_icmpMatch hheader haccepts
      exact .inr ⟨hfields.2.1.symm, hfields.2.2.symm⟩
  · split at hipv4
    · simp only [List.mem_cons, List.not_mem_nil, or_false] at hipv4
      rcases hipv4 with rfl | rfl
      · have hfields := (accepts_ipv4Match htype hheader).mp haccepts
        exact .inl ⟨hfields.2.1.symm, hfields.2.2.symm⟩
      · have hfields := (accepts_ipv4Match htype hheader).mp haccepts
        exact .inr ⟨hfields.2.1.symm, hfields.2.2.symm⟩
    · cases hipv4

/-- The two ways in which rules of settled installs treat IPv4 packets of a pair of hosts: from the
host of the sender to the daemon, and from the daemon to the host of the receiver. -/
theorem accessFlows_treatment {home : Ip → Dpid × Port} {call : InstallCall}
    (hsrc : home call.ipSrc = (call.src, call.firstPort))
    (hdst : home call.ipDst = (call.dst, call.lastPort)) {port : Port} {packet : Packet}
    {header : Ipv4Header} (htype : packet.ethType = 0x0800) (hheader : packet.ipv4 = some header)
    {node : Dpid} {flow : FlowMod} (hflow : (node, flow) ∈ accessFlows call)
    (haccepts : flow.condition.accepts (port, packet) = true) :
    (node = (home header.src).1 ∧ port = (home header.src).2 ∧ flow.actions = [.port 1]) ∨
      (node = (home header.dst).1 ∧ port = 2 ∧ flow.actions = [.port (home header.dst).2]) := by
  simp only [accessFlows, List.mem_cons, Prod.mk.injEq, List.not_mem_nil, or_false] at hflow
  rcases hflow with ⟨rfl, rfl⟩ | ⟨rfl, rfl⟩ | ⟨rfl, rfl⟩ | ⟨rfl, rfl⟩ | ⟨rfl, rfl⟩
  · obtain ⟨rfl, hfrom, -⟩ := (accepts_ipv4Match htype hheader).mp haccepts
    rw [← hfrom, hsrc]
    exact .inl ⟨rfl, rfl, rfl⟩
  · obtain ⟨rfl, -, hto⟩ := (accepts_ipv4Match htype hheader).mp haccepts
    rw [← hto, hsrc]
    exact .inr ⟨rfl, rfl, rfl⟩
  · obtain ⟨rfl, -, hto⟩ := accepts_icmpMatch hheader haccepts
    rw [← hto, hsrc]
    exact .inr ⟨rfl, rfl, rfl⟩
  · obtain ⟨rfl, -, hto⟩ := (accepts_ipv4Match htype hheader).mp haccepts
    rw [← hto, hdst]
    exact .inr ⟨rfl, rfl, rfl⟩
  · obtain ⟨rfl, hfrom, -⟩ := (accepts_ipv4Match htype hheader).mp haccepts
    rw [← hfrom, hdst]
    exact .inl ⟨rfl, rfl, rfl⟩

theorem accessFlows_serves {home : Ip → Dpid × Port} {call : InstallCall}
    (hsrc : home call.ipSrc = (call.src, call.firstPort))
    (hdst : home call.ipDst = (call.dst, call.lastPort)) {src dst : Ip}
    (hpair : s(src, dst) = s(call.ipSrc, call.ipDst)) :
    ((home src).1, ⟨2, ipv4Match (home src).2 src dst, [.port 1]⟩) ∈ accessFlows call ∧
      ((home dst).1, ⟨2, ipv4Match 2 src dst, [.port (home dst).2]⟩) ∈ accessFlows call := by
  rcases Sym2.eq_iff.mp hpair with ⟨rfl, rfl⟩ | ⟨rfl, rfl⟩
  · rw [hsrc, hdst]
    simp [accessFlows]
  · rw [hsrc, hdst]
    simp [accessFlows]

/-- All rules of settled installs that accept an IPv4 packet on a port of one of the two ways say
the same. -/
theorem forwardsTo_of_settled {home : Ip → Dpid × Port} {calls : List (CompletedCall env topo)}
    (hsettled : Settled home calls) {packet : Packet} {header : Ipv4Header}
    (htype : packet.ethType = 0x0800) (hheader : packet.ipv4 = some header)
    (hapart : (home header.src).1 ≠ (home header.dst).1) {done : CompletedCall env topo}
    (hdone : done ∈ calls) {node : Dpid} {entry exit : Port}
    (hrule : (node, ⟨2, ipv4Match entry header.src header.dst, [.port exit]⟩) ∈ done.messages)
    (hplace : node = (home header.src).1 ∧ exit = 1 ∨
      node = (home header.dst).1 ∧ exit = (home header.dst).2)
    (hdiffer : exit ≠ entry) :
    ForwardsTo (tableOf (messagesOf calls) node) entry packet exit := by
  have huniform : ∀ flow, (node, flow) ∈ messagesOf calls →
      flow.condition.accepts (entry, packet) = true → flow.actions = [.port exit] := by
    intro flow hflow haccepts
    obtain ⟨other, hother, hmessage⟩ := List.mem_flatMap.mp hflow
    obtain ⟨hsrc, hdst⟩ := hsettled other hother
    obtain ⟨hflowType, hpair⟩ := pair_of_accepts hmessage htype hheader haccepts
    have hends : other.call.src ≠ other.call.dst := by
      intro hsame
      apply hapart
      rcases Sym2.eq_iff.mp hpair with ⟨hfrom, hto⟩ | ⟨hfrom, hto⟩
      · rw [hfrom, hto, hsrc, hdst, hsame]
      · rw [hfrom, hto, hsrc, hdst, hsame]
    have htreated := accessFlows_treatment hsrc hdst htype hheader
      ((mem_messages_ipv4 hends hflowType).mp hmessage) haccepts
    rcases htreated with ⟨hnode, -, hactions⟩ | ⟨hnode, -, hactions⟩
    · rcases hplace with ⟨-, rfl⟩ | ⟨hnode', -⟩
      · exact hactions
      · exact absurd (hnode.symm.trans hnode') hapart
    · rcases hplace with ⟨hnode', -⟩ | ⟨-, rfl⟩
      · exact absurd (hnode'.symm.trans hnode) hapart
      · exact hactions
  have hmiss : ∀ old ∈ [tableMiss], old.priority < 2 := by simp [tableMiss]
  obtain ⟨hexists, hall⟩ := selected_of_uniform_writes
    (mem_sentTo.mpr (List.mem_flatMap.mpr ⟨done, hdone, hrule⟩))
    ((accepts_ipv4Match htype hheader).mpr ⟨rfl, rfl, rfl⟩) hmiss
    (fun other hother ↦ huniform other (mem_sentTo.mp hother))
  exact ⟨hdiffer, hexists, hall⟩

/-- **IPv4 packets go through the daemons.** After any sequence of completed installs that were made
with the true places of the hosts, take two hosts on different switches for which there was an
install in some orientation. Every IPv4 packet from one to the other, ICMP or not, goes from its
sender to the daemon port at the sender's switch, and what the daemon at the receiver's switch
returns for these addresses goes to the receiver. -/
theorem hosts_behind_daemons (env : Env) (topo : TopologyState) (home : Ip → Dpid × Port)
    (calls : List (CompletedCall env topo)) (hsettled : Settled home calls)
    (done : CompletedCall env topo) (hdone : done ∈ calls)
    (hends : done.call.src ≠ done.call.dst) (packet : Packet) (header : Ipv4Header)
    (htype : packet.ethType = 0x0800) (hheader : packet.ipv4 = some header)
    (hpair : s(header.src, header.dst) = s(done.call.ipSrc, done.call.ipDst))
    (hsender : (home header.src).2 ≠ 1) (hreceiver : (home header.dst).2 ≠ 2) :
    ForwardsTo (tableOf (messagesOf calls) (home header.src).1) (home header.src).2 packet 1 ∧
      ForwardsTo (tableOf (messagesOf calls) (home header.dst).1) 2 packet (home header.dst).2 := by
  obtain ⟨hsrc, hdst⟩ := hsettled done hdone
  obtain ⟨hgive, htake⟩ := accessFlows_serves hsrc hdst hpair
  have hapart : (home header.src).1 ≠ (home header.dst).1 := by
    rcases Sym2.eq_iff.mp hpair with ⟨hfrom, hto⟩ | ⟨hfrom, hto⟩
    · rw [hfrom, hto, hsrc, hdst]
      exact hends
    · rw [hfrom, hto, hsrc, hdst]
      exact hends.symm
  constructor
  · exact forwardsTo_of_settled hsettled htype hheader hapart hdone
      ((mem_messages_ipv4 hends rfl).mpr hgive) (.inl ⟨rfl, rfl⟩) hsender.symm
  · exact forwardsTo_of_settled hsettled htype hheader hapart hdone
      ((mem_messages_ipv4 hends rfl).mpr htake) (.inr ⟨rfl, rfl⟩) hreceiver

/-- The four hosts behind switches 1 and 2. -/
def fanHome (ip : Ip) : Dpid × Port :=
  if ip = 0x0A000001 then (1, 4) else if ip = 0x0A000002 then (2, 4)
  else if ip = 0x0A000003 then (1, 5) else (2, 5)

theorem fan_settled : Settled fanHome (fanBefore ++ fanDone :: fanAfter) := by
  intro done hdone
  simp only [fanBefore, fanAfter, List.cons_append, List.nil_append, List.mem_cons,
    List.not_mem_nil, or_false] at hdone
  rcases hdone with rfl | rfl | rfl | rfl
  · exact ⟨rfl, rfl⟩
  · exact ⟨rfl, rfl⟩
  · exact ⟨rfl, rfl⟩
  · exact ⟨rfl, rfl⟩

/-- An echo reply from the second host to the first one. -/
def pairReply : Packet where
  ethSrc := 0x020000000002
  ethDst := 0x020000000001
  ethertype := 0x0800
  ethType := 0x0800
  vlanVid := none
  arp := none
  ipv4 := some ⟨0x0A000002, 0x0A000001, 1⟩
  ipv6 := false

/-- Although the last install was the first host's, the second host's packets take the same way. -/
theorem hosts_behind_daemons_fan :
    ForwardsTo (tableOf (messagesOf (fanBefore ++ fanDone :: fanAfter)) 2) 4 pairReply 1 ∧
      ForwardsTo (tableOf (messagesOf (fanBefore ++ fanDone :: fanAfter)) 1) 2 pairReply 4 :=
  hosts_behind_daemons fanPaths fanTopology fanHome _ fan_settled fanDone (by simp) (by decide)
    pairReply ⟨0x0A000002, 0x0A000001, 1⟩ rfl rfl Sym2.eq_swap (by decide) (by decide)

/-! ## ARP packets follow the first path -/

/-- The ARP rules of an install, along a dictionary in the orientation of a call. -/
structure ArpAlong (done : CompletedCall env topo) (call : InstallCall) (ports : PathPorts) :
    Prop where
  nodup : (ports.map Prod.fst).Nodup
  pair : s(call.ipSrc, call.ipDst) = s(done.call.ipSrc, done.call.ipDst)
  differ : call.ipSrc ≠ call.ipDst
  mem_arp : ∀ {node : Dpid} {flow : FlowMod}, flow.condition.ethType = some 0x0806 →
    ((node, flow) ∈ done.messages ↔ ∃ entry exit, (node, entry, exit) ∈ ports ∧
      flow ∈ arpFlows call entry exit)

theorem mem_arpFlows_reverse {call : InstallCall} {entry exit : Port} {flow : FlowMod} :
    flow ∈ arpFlows (reverseCall call) exit entry ↔ flow ∈ arpFlows call entry exit := by
  simp only [arpFlows, reverseCall, List.mem_cons, List.not_mem_nil, or_false]
  exact or_comm

theorem ArpAlong.reverse {done : CompletedCall env topo} {call : InstallCall} {ports : PathPorts}
    (h : ArpAlong done call ports) : ArpAlong done (reverseCall call) (reversePorts ports) where
  nodup := by
    have hkeys : (reversePorts ports).map Prod.fst = (ports.map Prod.fst).reverse := by
      simp [reversePorts, Function.comp_def]
    rw [hkeys]
    exact List.nodup_reverse.mpr h.nodup
  pair := Sym2.eq_swap.trans h.pair
  differ := h.differ.symm
  mem_arp := by
    intro node flow htype
    rw [h.mem_arp htype]
    constructor
    · rintro ⟨entry, exit, hitem, hflow⟩
      exact ⟨exit, entry, mem_reversePorts.mpr hitem, mem_arpFlows_reverse.mpr hflow⟩
    · rintro ⟨exit, entry, hitem, hflow⟩
      exact ⟨entry, exit, mem_reversePorts.mp hitem, mem_arpFlows_reverse.mp hflow⟩

/-- A rule of an install that accepts an ARP packet is the one for its addresses on its port. -/
theorem accepts_arp {done : CompletedCall env topo} {node : Dpid} {flow : FlowMod}
    (hflow : (node, flow) ∈ done.messages) {port : Port} {packet : Packet} {header : ArpHeader}
    (htype : packet.ethType = 0x0806) (hheader : packet.arp = some header)
    (haccepts : flow.condition.accepts (port, packet) = true) :
    flow.priority = 1 ∧ flow.condition = arpMatch port header.srcIp header.dstIp := by
  obtain ⟨firstPath, vlan, inPort, outPort, hnode⟩ := mem_messages hflow
  simp only [OFPMatch.accepts, fieldAccepts, Bool.and_eq_true, decide_eq_true_eq, htype, hheader,
    Option.map_some] at haccepts
  obtain ⟨⟨⟨⟨⟨⟨⟨⟨⟨hport, -⟩, -⟩, hethType⟩, -⟩, hspa⟩, htpa⟩, -⟩, -⟩, -⟩ := haccepts
  have harpType : flow.condition.ethType = some 0x0806 := by
    rcases nodeFlows_cases hnode with harp | hipv4 | hvlan
    · exact harp
    · simp [hipv4] at hethType
    · simp [vlanFlows_ethType hvlan] at hethType
  obtain ⟨-, harp⟩ := (nodeFlows_arp harpType).mp hnode
  simp only [arpFlows, List.mem_cons, List.not_mem_nil, or_false] at harp
  rcases harp with rfl | rfl
  · simp only [arpMatch, Option.some.injEq, reduceCtorEq, false_or] at hport hspa htpa
    exact ⟨rfl, by rw [hport, hspa, htpa]⟩
  · simp only [arpMatch, Option.some.injEq, reduceCtorEq, false_or] at hport hspa htpa
    exact ⟨rfl, by rw [hport, hspa, htpa]⟩

/-- The treatment of ARP packets of the pair by a switch on the first path of its last install. -/
theorem ArpAlong.forwardsTo {before after : List (CompletedCall env topo)}
    {done : CompletedCall env topo} {call : InstallCall} {ports : PathPorts}
    (harp : ArpAlong done call ports)
    (hlast : ∀ later ∈ after, s(later.call.ipSrc, later.call.ipDst) ≠
      s(done.call.ipSrc, done.call.ipDst))
    {node : Dpid} {entry exit : Port} (hitem : (node, entry, exit) ∈ ports)
    (hdiffer : exit ≠ entry) {packet : Packet} {header : ArpHeader}
    (htype : packet.ethType = 0x0806) (hheader : packet.arp = some header)
    (hsrc : header.srcIp = call.ipSrc) (hdst : header.dstIp = call.ipDst) :
    ForwardsTo (tableOf (messagesOf (before ++ done :: after)) node) entry packet exit := by
  refine @forwardsTo_of_last _ _ before after done node
    ⟨1, arpMatch entry call.ipSrc call.ipDst, [.port exit]⟩ entry exit packet
    ((harp.mem_arp rfl).mpr ⟨entry, exit, hitem, List.mem_cons_self ..⟩) rfl (by decide : 0 < 1)
    ?_ ?_ ?_ ?_ hdiffer
  · simp [OFPMatch.accepts, fieldAccepts, arpMatch, htype, hheader, hsrc, hdst]
  · rintro flow hflow ⟨hpriority, hcondition⟩
    obtain ⟨entry', exit', hitem', hflow⟩ := (harp.mem_arp (by rw [hcondition]; rfl)).mp hflow
    have hunique := List.inj_on_of_nodup_map harp.nodup hitem' hitem rfl
    simp only [Prod.mk.injEq, true_and] at hunique
    obtain ⟨rfl, rfl⟩ := hunique
    simp only [arpFlows, List.mem_cons, List.not_mem_nil, or_false] at hflow
    rcases hflow with rfl | rfl
    · rfl
    · exact absurd (Option.some.inj (congrArg OFPMatch.arpSpa hcondition)).symm harp.differ
  · rintro flow hflow ⟨-, hcondition⟩
    obtain ⟨later, hlater, hmessage⟩ := List.mem_flatMap.mp hflow
    apply hlast later hlater
    obtain ⟨firstPath, vlan, inPort, outPort, hnode⟩ := mem_messages hmessage
    obtain ⟨-, harpFlow⟩ := (nodeFlows_arp (by rw [hcondition]; rfl)).mp hnode
    simp only [arpFlows, List.mem_cons, List.not_mem_nil, or_false] at harpFlow
    rw [← harp.pair]
    rcases harpFlow with rfl | rfl
    · simp only [arpMatch, OFPMatch.mk.injEq, Option.some.injEq] at hcondition
      rw [hcondition.2.2.2.2.2.1, hcondition.2.2.2.2.2.2.1]
    · simp only [arpMatch, OFPMatch.mk.injEq, Option.some.injEq] at hcondition
      rw [hcondition.2.2.2.2.2.1, hcondition.2.2.2.2.2.2.1, Sym2.eq_swap]
  · intro flow hflow haccepts
    obtain ⟨other, -, hmessage⟩ := List.mem_flatMap.mp hflow
    have hentry := accepts_arp hmessage htype hheader haccepts
    rwa [hsrc, hdst] at hentry

theorem exists_arpAlong (done : CompletedCall env topo)
    (hips : done.call.ipSrc ≠ done.call.ipDst) :
    ∃ paths path ports, getPaths env topo done.call.src done.call.dst = .ok paths ∧
      paths[0]? = some path ∧ topo.G.SimplePath done.call.src done.call.dst path ∧
      PortsAlong topo done.call.lastPort done.call.firstPort path ports ∧
      ArpAlong done done.call ports := by
  obtain ⟨paths, pathsWithPorts, hpaths, halong, hfound, hmessages⟩ := exists_paths done
  have hk : 0 < pathsWithPorts.length := List.length_pos_of_ne_nil hfound
  have hk' : 0 < paths.length := halong.length_eq ▸ hk
  have hfirst := getPaths_simple hpaths _ (List.getElem_mem hk')
  have hfirstAlong := halong.get hk' hk
  refine ⟨paths, paths[0], pathsWithPorts[0], hpaths, List.getElem?_eq_getElem hk', hfirst,
    hfirstAlong, ?_, rfl, hips, ?_⟩
  · exact hfirstAlong.keys ▸ hfirst.nodup
  · intro node flow htype
    rw [hmessages (by rw [htype]; decide)]
    constructor
    · rintro ⟨k, ports, inPort, outPort, hports, hitem, hflow⟩
      obtain ⟨hzero, harp⟩ := (nodeFlows_arp htype).mp hflow
      rw [of_decide_eq_true hzero, List.getElem?_eq_getElem hk, Option.some.injEq] at hports
      exact ⟨inPort, outPort, hports ▸ hitem, harp⟩
    · rintro ⟨inPort, outPort, hitem, harp⟩
      exact ⟨0, _, inPort, outPort, List.getElem?_eq_getElem hk, hitem,
        (nodeFlows_arp htype).mpr ⟨rfl, harp⟩⟩

/-- A port with nothing at its other end does not lead to the second switch of a path. -/
theorem ne_next_of_peer {peer : Peer} (hwired : WiredAs topo peer) {lastPort inPort : Port}
    {path : List Dpid} {ports : PathPorts} (halong : PortsAlong topo lastPort inPort path ports)
    {src : Dpid} (hsrc : path.head? = some src) {port : Port} (hpeer : peer src port = none)
    (next : Dpid) (hnext : path.tail.head? = some next) : topo.adjacency src next ≠ some port := by
  intro hport
  cases halong with
  | last _ _ => cases hnext
  | hop hout hin hrest =>
    simp only [List.head?_cons, Option.some.injEq] at hsrc
    simp only [List.tail_cons, List.head?_cons, Option.some.injEq] at hnext
    subst hsrc hnext
    have hlink := hwired.link hport hin
    rw [hpeer] at hlink
    cases hlink

/-- **ARP follows the first path.** After any sequence of completed installs, take the last one for
a pair of IP addresses, in either orientation, whose two hosts hang on ports of their own. Every ARP
packet from the first host for the second one follows the first path of the install from host to
host, and every ARP packet in the other direction follows it backwards. -/
theorem arp_follows_first_path (env : Env) (topo : TopologyState) (peer : Peer)
    (hwired : WiredAs topo peer) (before after : List (CompletedCall env topo))
    (done : CompletedCall env topo) (hsrcHost : peer done.call.src done.call.firstPort = none)
    (hdstHost : peer done.call.dst done.call.lastPort = none)
    (hplaces : (done.call.src, done.call.firstPort) ≠ (done.call.dst, done.call.lastPort))
    (hips : done.call.ipSrc ≠ done.call.ipDst)
    (hlast : ∀ later ∈ after, s(later.call.ipSrc, later.call.ipDst) ≠
      s(done.call.ipSrc, done.call.ipDst)) :
    ∃ paths path, getPaths env topo done.call.src done.call.dst = .ok paths ∧
      paths[0]? = some path ∧ ∀ (packet : Packet) (header : ArpHeader),
        packet.ethType = 0x0806 → packet.arp = some header →
        (header.srcIp = done.call.ipSrc → header.dstIp = done.call.ipDst →
          Travels (tableOf (messagesOf (before ++ done :: after))) peer packet
            done.call.src done.call.firstPort path done.call.dst done.call.lastPort) ∧
        (header.srcIp = done.call.ipDst → header.dstIp = done.call.ipSrc →
          Travels (tableOf (messagesOf (before ++ done :: after))) peer packet
            done.call.dst done.call.lastPort path.reverse done.call.src done.call.firstPort) := by
  obtain ⟨paths, path, ports, hpaths, hpath, hsimple, halong, harp⟩ := exists_arpAlong done hips
  have hback := simplePath_reverse hsimple
  have halongBack := portsAlong_reverse halong
  refine ⟨paths, path, hpaths, hpath, ?_⟩
  intro packet header htype hheader
  constructor
  · intro hsrc hdst
    refine travels_along hwired halong (fun hitem hdiffer ↦ harp.forwardsTo hlast hitem hdiffer
      htype hheader hsrc hdst) hsimple.starts hsimple.ends hsimple.nodup hdstHost
      (ne_next_of_peer hwired halong hsimple.starts hsrcHost) ?_
    intro hsame hport
    exact hplaces (by rw [hsame, hport])
  · intro hsrc hdst
    refine travels_along hwired halongBack (fun hitem hdiffer ↦ harp.reverse.forwardsTo hlast hitem
      hdiffer htype hheader hsrc hdst) hback.starts hback.ends hback.nodup hsrcHost
      (ne_next_of_peer hwired halongBack hback.starts hdstHost) ?_
    intro hsame hport
    exact hplaces (by rw [hsame, hport])

/-- A request of the second host for the address of the first one. -/
def pairRequest : Packet where
  ethSrc := 0x020000000002
  ethDst := 0xFFFFFFFFFFFF
  ethertype := 0x0806
  ethType := 0x0806
  vlanVid := none
  arp := some ⟨1, 0x0A000002, 0x0A000001⟩
  ipv4 := none
  ipv6 := false

theorem arp_follows_first_path_fan :
    Travels (tableOf (messagesOf (fanBefore ++ fanDone :: fanAfter))) fanPeer pairRequest
      2 4 [2, 3, 1] 1 4 := by
  obtain ⟨paths, path, hpaths, hpath, hpackets⟩ :=
    arp_follows_first_path fanPaths fanTopology fanPeer fanTopology_wired fanBefore fanAfter fanDone
      rfl rfl (by decide) (by decide) (by decide)
  cases hpaths.symm.trans fanPaths_found
  obtain rfl : [1, 3, 2] = path := by simpa using hpath
  exact (hpackets pairRequest ⟨1, 0x0A000002, 0x0A000001⟩ rfl rfl).2 rfl rfl

end Wispr.Controller.Access
