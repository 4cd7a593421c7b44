import Wispr.Controller.Forwarding

/-!
# The way back

An install writes rules for both directions, and the rules of the way back are those that an
install from the destination to the source would have written for the reversed path. So a frame that
the daemon at the destination switch sends with one of the ids of the install follows the same route
backwards to the daemon port of the source switch, also when the pair has never been installed in
that orientation.
-/

open Wispr.Foundation.FlowTable

namespace Wispr.Controller.Backward

open Paths Install Forwarding

/-- The port dictionary of the way back. -/
def reversePorts (ports : PathPorts) : PathPorts :=
  (ports.map fun item ↦ (item.1, item.2.2, item.2.1)).reverse

theorem mem_reversePorts {ports : PathPorts} {node : Dpid} {entry exit : Port} :
    (node, entry, exit) ∈ reversePorts ports ↔ (node, exit, entry) ∈ ports := by
  simp only [reversePorts, List.mem_reverse, List.mem_map, Prod.mk.injEq]
  constructor
  · rintro ⟨⟨node', exit', entry'⟩, hitem, rfl, rfl, rfl⟩
    exact hitem
  · intro hitem
    exact ⟨_, hitem, rfl, rfl, rfl⟩

variable {topo : TopologyState} {lastPort inPort : Port} {path : List Dpid} {ports : PathPorts}

theorem portsAlong_append {outPort nextIn finalPort : Port} {front : List Dpid} {node next : Dpid}
    (h : PortsAlong topo outPort inPort (front ++ [node]) ports)
    (hout : topo.adjacency node next = some outPort)
    (hin : topo.adjacency next node = some nextIn) :
    PortsAlong topo finalPort inPort (front ++ [node, next])
      (ports ++ [(next, nextIn, finalPort)]) := by
  induction front generalizing inPort ports with
  | nil =>
    cases h with
    | last _ _ => exact .hop hout hin (.last nextIn next)
  | cons first rest ih =>
    cases rest with
    | nil =>
      cases h with
      | hop hout' hin' hrest => exact .hop hout' hin' (ih hrest)
    | cons second rest =>
      cases h with
      | hop hout' hin' hrest => exact .hop hout' hin' (ih hrest)

theorem portsAlong_reverse (h : PortsAlong topo lastPort inPort path ports) :
    PortsAlong topo inPort lastPort path.reverse (reversePorts ports) := by
  induction h with
  | last inPort node => exact .last lastPort node
  | @hop inPort outPort nextIn node next rest ports hout hin hrest ih =>
    rw [List.reverse_cons] at ih
    have hback : PortsAlong topo inPort lastPort (rest.reverse ++ [next, node])
        (reversePorts ports ++ [(node, outPort, inPort)]) := portsAlong_append ih hin hout
    simpa [reversePorts] using hback

theorem simplePath_reverse {graph : Graph} {src dst : Dpid} (h : graph.SimplePath src dst path) :
    graph.SimplePath dst src path.reverse where
  starts := by rw [List.head?_reverse, h.ends]
  ends := by rw [List.getLast?_reverse, h.starts]
  nodup := List.nodup_reverse.mpr h.nodup
  linked := by
    refine List.isChain_reverse.mpr (h.linked.imp ?_)
    intro u v hlink
    rwa [Sym2.eq_swap]

theorem entry_of_head (h : PortsAlong topo lastPort inPort path ports) (hnodup : path.Nodup)
    {node : Dpid} (hhead : path.head? = some node) {entry exit : Port}
    (hitem : (node, entry, exit) ∈ ports) : entry = inPort := by
  cases h with
  | last _ only =>
    simp only [List.mem_singleton, Prod.mk.injEq] at hitem
    exact hitem.2.1
  | @hop _ outPort nextIn first next rest tail hout hin hrest =>
    simp only [List.head?_cons, Option.some.injEq] at hhead
    subst hhead
    rcases List.mem_cons.mp hitem with hfirst | hlater
    · simp only [Prod.mk.injEq] at hfirst
      exact hfirst.2.1
    · have hkey : first ∈ tail.map Prod.fst := List.mem_map_of_mem hlater
      rw [hrest.keys] at hkey
      exact absurd hkey (List.nodup_cons.mp hnodup).1

theorem exit_of_last (h : PortsAlong topo lastPort inPort path ports) (hnodup : path.Nodup)
    {node : Dpid} (hlast : path.getLast? = some node) {entry exit : Port}
    (hitem : (node, entry, exit) ∈ ports) : exit = lastPort :=
  entry_of_head (portsAlong_reverse h) (List.nodup_reverse.mpr hnodup)
    (List.head?_reverse.trans hlast) (mem_reversePorts.mpr hitem)

/-- The same route between other ports at its two ends. -/
theorem exists_between {first final : Port} (h : PortsAlong topo lastPort inPort path ports)
    (hnodup : path.Nodup) : ∃ between, PortsAlong topo final first path between ∧
      ∀ {node entry exit}, (node, entry, exit) ∈ between → ∃ inPort outPort,
        (node, inPort, outPort) ∈ ports ∧
          entry = (if path.head? = some node then first else inPort) ∧
          exit = (if path.getLast? = some node then final else outPort) := by
  induction h generalizing first with
  | last inPort node =>
    refine ⟨_, .last first node, ?_⟩
    intro only entry exit hitem
    simp only [List.mem_singleton, Prod.mk.injEq] at hitem
    obtain ⟨rfl, rfl, rfl⟩ := hitem
    exact ⟨inPort, lastPort, List.mem_singleton_self _, by simp, by simp⟩
  | @hop inPort outPort nextIn node next rest ports hout hin hrest ih =>
    obtain ⟨hnode, hrestNodup⟩ := List.nodup_cons.mp hnodup
    obtain ⟨between, hbetween, hitems⟩ := @ih nextIn hrestNodup
    refine ⟨(node, first, outPort) :: between, .hop hout hin hbetween, ?_⟩
    intro current entry exit hitem
    rcases List.mem_cons.mp hitem with hfirst | hlater
    · simp only [Prod.mk.injEq] at hfirst
      obtain ⟨rfl, rfl, rfl⟩ := hfirst
      refine ⟨inPort, exit, List.mem_cons_self .., by simp, ?_⟩
      rw [if_neg]
      intro hlast
      exact hnode (List.mem_of_getLast? (by simpa using hlast))
    · obtain ⟨inPort', outPort', hitem', hentry, hexit⟩ := hitems hlater
      have hcurrent : current ∈ next :: rest := by
        rw [← hrest.keys]
        exact List.mem_map_of_mem hitem'
      have hother : node ≠ current := fun hsame ↦ hnode (hsame ▸ hcurrent)
      refine ⟨inPort', outPort', List.mem_cons_of_mem _ hitem', ?_, by simpa using hexit⟩
      rw [if_neg (by simpa using hother), hentry]
      split
      · rename_i hhead
        exact (entry_of_head hrest hrestNodup hhead hitem').symm
      · rfl

/-- A packet that every switch of a route sends from its entry to its exit travels the whole route.
The induction is on the route; the invariant is that the port of entry does not lead to the next
switch. -/
theorem travels_along {tables : Dpid → List FlowMod} {peer : Peer} {packet : Packet}
    (hwired : WiredAs topo peer) (halong : PortsAlong topo lastPort inPort path ports)
    (hforward : ∀ {node entry exit}, (node, entry, exit) ∈ ports → exit ≠ entry →
      ForwardsTo (tables node) entry packet exit)
    {src dst : Dpid} (hsrc : path.head? = some src) (hdst : path.getLast? = some dst)
    (hnodup : path.Nodup) (hleaves : peer dst lastPort = none)
    (hbehind : ∀ next, path.tail.head? = some next → topo.adjacency src next ≠ some inPort)
    (hends : src = dst → lastPort ≠ inPort) :
    Travels tables peer packet src inPort path dst lastPort := by
  induction halong generalizing src with
  | last inPort only =>
    simp only [List.head?_cons, Option.some.injEq] at hsrc
    simp only [List.getLast?_singleton, Option.some.injEq] at hdst
    subst hsrc hdst
    exact .leave (hforward (List.mem_singleton_self _) (hends rfl)) hleaves
  | @hop inPort outPort nextIn node next rest ports hout hin hrest ih =>
    simp only [List.head?_cons, Option.some.injEq] at hsrc
    subst hsrc
    obtain ⟨hnode, hrestNodup⟩ := List.nodup_cons.mp hnodup
    have hdiffer : outPort ≠ inPort := by
      rintro rfl
      exact hbehind next rfl hout
    refine .hop (hforward (List.mem_cons_self ..) hdiffer) (hwired.link hout hin) ?_
    refine ih (fun hitem ↦ hforward (List.mem_cons_of_mem _ hitem)) rfl (by simpa using hdst)
      hrestNodup ?_ ?_
    · intro other hother hport
      rw [hwired.distinct hport hin] at hother
      exact hnode (List.mem_of_mem_tail (List.mem_of_mem_head? hother))
    · rintro rfl rfl
      have hlink := hwired.link hin hout
      rw [hleaves] at hlink
      cases hlink

/-- What the last messages to an entry decide. The entry holds what they have written, if nothing
else of the table above the table-miss rule accepts the packet. -/
theorem forwardsTo_of_writes {before middle after : List (Dpid × FlowMod)} {node : Dpid}
    {rule : FlowMod} {entry exit : Port} {packet : Packet} (hwritten : (node, rule) ∈ middle)
    (hactions : rule.actions = [.port exit]) (hpriority : 0 < rule.priority)
    (haccepts : rule.condition.accepts (entry, packet) = true)
    (hagree : ∀ flow, (node, flow) ∈ middle → flow.SameEntry rule → flow = rule)
    (hlater : ∀ flow, (node, flow) ∈ after → ¬ flow.SameEntry rule)
    (honly : ∀ flow, (node, flow) ∈ before ++ middle ++ after →
      flow.condition.accepts (entry, packet) = true → flow.SameEntry rule)
    (hdiffer : exit ≠ entry) :
    ForwardsTo (tableOf (before ++ middle ++ after) node) entry packet exit := by
  have hholds : ∀ other : FlowMod, other.SameEntry rule →
      (other ∈ tableOf (before ++ middle ++ after) node ↔ other = rule) :=
    fun other hentry ↦ mem_tableOf_of_last hwritten hagree hlater hentry
  have hselected := selected_iff_of_dominant ((hholds rule ⟨rfl, rfl⟩).mpr rfl) haccepts (by
    intro other hother hacceptsOther
    rcases mem_addAll hother with hmiss | hsent
    · left
      rw [List.mem_singleton.mp hmiss]
      exact hpriority
    · right
      exact (hholds other (honly other (mem_sentTo.mp hsent) hacceptsOther)).mp hother)
  refine ⟨hdiffer, ⟨rule, (hselected rule).mpr rfl⟩, ?_⟩
  intro chosen hchosen
  rw [(hselected chosen).mp hchosen, hactions]

variable {env : Env}

/-- What the last install that writes an entry decides. -/
theorem forwardsTo_of_last {before after : List (CompletedCall env topo)}
    {done : CompletedCall env topo} {node : Dpid} {rule : FlowMod} {entry exit : Port}
    {packet : Packet} (hwritten : (node, rule) ∈ done.messages)
    (hactions : rule.actions = [.port exit]) (hpriority : 0 < rule.priority)
    (haccepts : rule.condition.accepts (entry, packet) = true)
    (hagree : ∀ flow, (node, flow) ∈ done.messages → flow.SameEntry rule → flow = rule)
    (hlater : ∀ flow, (node, flow) ∈ messagesOf after → ¬ flow.SameEntry rule)
    (honly : ∀ flow, (node, flow) ∈ messagesOf (before ++ done :: after) →
      flow.condition.accepts (entry, packet) = true → flow.SameEntry rule)
    (hdiffer : exit ≠ entry) :
    ForwardsTo (tableOf (messagesOf (before ++ done :: after)) node) entry packet exit := by
  have hsplit : messagesOf (before ++ done :: after) =
      messagesOf before ++ done.messages ++ messagesOf after := by
    simp [messagesOf]
  rw [hsplit] at honly ⊢
  exact forwardsTo_of_writes hwritten hactions hpriority haccepts hagree hlater honly hdiffer

/-! ## Tagged frames on the way back -/

/-- The arguments of an install in the other orientation. -/
def reverseCall (call : InstallCall) : InstallCall where
  src := call.dst
  firstPort := call.lastPort
  dst := call.src
  lastPort := call.firstPort
  ipSrc := call.ipDst
  ipDst := call.ipSrc
  srcMac := call.dstMac
  dstMac := call.srcMac

/-- A switch of the path gets the same VLAN rules from both orientations. -/
theorem mem_vlanPair_reverse {call : InstallCall} (hends : call.src ≠ call.dst) {node : Dpid}
    {inPort outPort : Port} {vlanVid : ℕ} {flow : FlowMod} :
    flow ∈ vlanPair (reverseCall call) node outPort inPort vlanVid ↔
      flow ∈ vlanPair call node inPort outPort vlanVid := by
  by_cases hsrc : node = call.src
  · have hdst : node ≠ call.dst := fun hdst ↦ hends (hsrc.symm.trans hdst)
    simp only [vlanPair, reverseCall, hsrc, if_pos, if_neg hends, List.mem_cons]
    tauto
  · by_cases hdst : node = call.dst
    · simp only [vlanPair, reverseCall, hdst, if_pos, if_neg hends.symm, List.mem_cons]
      tauto
    · simp only [vlanPair, reverseCall, hsrc, hdst, if_false, List.mem_cons]
      tauto

theorem pair_of_message {done : CompletedCall env topo} {node : Dpid} {flow : FlowMod}
    (hflow : (node, flow) ∈ done.messages) {entry : Port} {ethDst ethSrc : Mac} {vlanVid : ℕ}
    (hcondition : flow.condition = vlanMatch entry ethDst ethSrc vlanVid) :
    s(ethDst, ethSrc) = s(done.call.srcMac, done.call.dstMac) := by
  have htype : flow.condition.ethType = some 0x8100 := by rw [hcondition]; rfl
  obtain ⟨firstPath, vlan, inPort, outPort, hnode⟩ := mem_messages hflow
  rcases nodeFlows_cases hnode with harp | hipv4 | hvlan
  · exact absurd (harp.symm.trans htype) (by decide)
  · exact absurd (hipv4.symm.trans htype) (by decide)
  · obtain ⟨x, -, hpair⟩ := mem_vlanFlows.mp hvlan
    obtain ⟨-, port, hpairCondition⟩ := vlanPair_condition hpair
    rw [hcondition] at hpairCondition
    simp only [vlanMatch, OFPMatch.mk.injEq, Option.some.injEq] at hpairCondition
    rw [Sym2.eq_iff]
    rcases hpairCondition with ⟨-, hdstMac, hsrcMac, -⟩ | ⟨-, hdstMac, hsrcMac, -⟩
    · exact .inr ⟨hdstMac, hsrcMac⟩
    · exact .inl ⟨hdstMac, hsrcMac⟩

section LastInstall

variable {before after : List (CompletedCall env topo)} {done : CompletedCall env topo}
  {pathsWithPorts mirrors : List PathPorts}

/-- All writes of the last install to the entry for the way back come from one route and agree. -/
theorem writes_agree_back (install : LastInstall after done pathsWithPorts mirrors)
    (hends : done.call.src ≠ done.call.dst) {mode k x : ℕ} (hx : x ≤ maxGroup) {ports : PathPorts}
    {node : Dpid} {inPort outPort : Port}
    (hroute : OnRoute pathsWithPorts mirrors mode k ports node inPort outPort) {entry : Port}
    {flow : FlowMod} (hflow : (node, flow) ∈ done.messages)
    (hcondition : flow.condition =
      vlanMatch entry done.call.srcMac done.call.dstMac (taggedVid mode x k)) :
    flow = forwardRule (reverseCall done.call) node outPort inPort (taggedVid mode x k) := by
  have hindex : k < maxPaths :=
    (List.getElem?_eq_some_iff.mp hroute.route).1.trans_le (install.length_le mode)
  obtain ⟨mode', -, k', ports', hports', inPort', outPort', hitem', x', hx', hpair⟩ :=
    (install.mem_vlan (by rw [hcondition]; rfl)).mp hflow
  obtain ⟨hsameVid, hforward⟩ := @eq_forwardRule (reverseCall done.call) install.macs.symm _ _ _ _
    _ _ _ ((mem_vlanPair_reverse hends).mpr hpair) hcondition
  have hindex' : k' < maxPaths :=
    (List.getElem?_eq_some_iff.mp hports').1.trans_le (install.length_le mode')
  obtain ⟨rfl, rfl, rfl⟩ := taggedVid_injective hx' hx hindex' hindex hsameVid
  cases hports'.symm.trans hroute.route
  have hunique := List.inj_on_of_nodup_map hroute.nodup hitem' hroute.item rfl
  simp only [Prod.mk.injEq, true_and] at hunique
  rw [hforward, hunique.1, hunique.2]

/-- What a switch on a route of the last install does with a frame on the way back. -/
theorem forwardsTo_back (install : LastInstall after done pathsWithPorts mirrors)
    (hends : done.call.src ≠ done.call.dst) {mode k x : ℕ} (hx : x ≤ maxGroup) {ports : PathPorts}
    {node : Dpid} {inPort outPort : Port}
    (hroute : OnRoute pathsWithPorts mirrors mode k ports node inPort outPort) {entry exit : Port}
    (hrule : forwardRule (reverseCall done.call) node outPort inPort (taggedVid mode x k) =
      ⟨3, vlanMatch entry done.call.srcMac done.call.dstMac (taggedVid mode x k), [.port exit]⟩)
    (hdiffer : exit ≠ entry) {packet : Packet} (htype : packet.ethType = 0x8100)
    (hsrc : packet.ethSrc = done.call.dstMac) (hdst : packet.ethDst = done.call.srcMac)
    (hvid : packet.vlanVid = some (taggedVid mode x k)) :
    ForwardsTo (tableOf (messagesOf (before ++ done :: after)) node) entry packet exit := by
  have hmem : forwardRule (reverseCall done.call) node outPort inPort (taggedVid mode x k) ∈
      vlanPair done.call node inPort outPort (taggedVid mode x k) :=
    (mem_vlanPair_reverse hends).mp (forwardRule_mem ..)
  rw [hrule] at hmem
  refine @forwardsTo_of_last _ _ before after done node _ entry exit packet
    ((install.mem_vlan rfl).mpr ⟨mode, hroute.mode_le, k, ports, hroute.route, inPort, outPort,
      hroute.item, x, hx, hmem⟩) rfl (by decide : 0 < 3) ?_ ?_ ?_ ?_ hdiffer
  · simp [OFPMatch.accepts, fieldAccepts, vlanMatch, htype, hsrc, hdst, hvid]
  · intro flow hflow hsame
    rw [writes_agree_back install hends hx hroute hflow hsame.2, hrule]
  · intro flow hflow hsame
    obtain ⟨later, hlater, hmessage⟩ := List.mem_flatMap.mp hflow
    exact install.last later hlater (pair_of_message hmessage hsame.2).symm
  · intro flow hflow haccepts
    obtain ⟨other, -, hmessage⟩ := List.mem_flatMap.mp hflow
    obtain ⟨firstPath, vlan, inPort', outPort', hnode⟩ := mem_messages hmessage
    have hentry := accepts_doubleTagged hnode htype hvid haccepts
    rwa [hsrc, hdst] at hentry

/-- A frame that enters the destination switch from the daemon follows the route of its tag
backwards. -/
theorem travels_back (install : LastInstall after done pathsWithPorts mirrors) {peer : Peer}
    (hwired : WiredAs topo peer) (hsrcAccess : AccessSwitch topo peer done.call.src)
    (hdstAccess : AccessSwitch topo peer done.call.dst) (hends : done.call.src ≠ done.call.dst)
    {mode k x : ℕ} (hmode : mode ≤ 1) (hx : x ≤ maxGroup) {path : List Dpid} {ports : PathPorts}
    (hports : (routes pathsWithPorts mirrors mode)[k]? = some ports)
    (hsimple : topo.G.SimplePath done.call.src done.call.dst path)
    (halong : PortsAlong topo done.call.lastPort done.call.firstPort path ports)
    {packet : Packet} (htype : packet.ethType = 0x8100) (hsrc : packet.ethSrc = done.call.dstMac)
    (hdst : packet.ethDst = done.call.srcMac) (hvid : packet.vlanVid = some (taggedVid mode x k)) :
    Travels (tableOf (messagesOf (before ++ done :: after))) peer packet done.call.dst 2
      path.reverse done.call.src 1 := by
  have hback := simplePath_reverse hsimple
  have hnodup : (ports.map Prod.fst).Nodup := halong.keys ▸ hsimple.nodup
  obtain ⟨between, hbetween, hitems⟩ : ∃ between, PortsAlong topo 1 2 path.reverse between ∧ _ :=
    exists_between (portsAlong_reverse halong) hback.nodup
  refine travels_along hwired hbetween ?_ hback.starts hback.ends hback.nodup hsrcAccess.leaves
    (fun next _ hport ↦ (hdstAccess.daemon_port hport).2 rfl) (fun hsame ↦ absurd hsame.symm hends)
  intro node entry exit hitem hdiffer
  obtain ⟨outPort, inPort, hitem, hentry, hexit⟩ := hitems hitem
  simp only [hback.starts, hback.ends, Option.some.injEq] at hentry hexit
  refine forwardsTo_back install hends hx ⟨hmode, hports, hnodup, mem_reversePorts.mp hitem⟩ ?_
    hdiffer htype hsrc hdst hvid
  by_cases hdstNode : node = done.call.dst
  · have hsrcNode : done.call.src ≠ node := fun hsame ↦ hends (hsame.trans hdstNode)
    rw [if_pos hdstNode.symm] at hentry
    rw [if_neg hsrcNode] at hexit
    simp only [forwardRule, reverseCall, hdstNode, if_true, hentry, hexit]
  · rw [if_neg (Ne.symm hdstNode)] at hentry
    by_cases hsrcNode : node = done.call.src
    · rw [if_pos hsrcNode.symm] at hexit
      simp only [forwardRule, reverseCall, hsrcNode, hends, if_true, if_false, hentry, hexit]
    · rw [if_neg (Ne.symm hsrcNode)] at hexit
      simp only [forwardRule, reverseCall, hsrcNode, hdstNode, if_false, hentry, hexit]

end LastInstall

/-- The path of a mode and index: the path itself, or a mirror of it. -/
theorem exists_route {paths : List (List Dpid)} {pathsWithPorts mirrors : List PathPorts}
    {draws : List ℕ} {firstPort lastPort : Port}
    (halong : List.Forall₂ (PortsAlong topo lastPort firstPort) paths pathsWithPorts)
    (hmirrors : drawMirrors pathsWithPorts pathsWithPorts draws = .ok mirrors) {mode k : ℕ}
    (hmode : mode ≤ 1) (hk : k < paths.length) : ∃ path ∈ paths, ∃ ports,
      (routes pathsWithPorts mirrors mode)[k]? = some ports ∧
      PortsAlong topo lastPort firstPort path ports ∧ (mode = 0 → paths[k]? = some path) ∧
      (mode = 1 → 1 < paths.length → paths[k]? ≠ some path) := by
  have hdrawn := drawMirrors_ok hmirrors
  have hk' : k < pathsWithPorts.length := halong.length_eq ▸ hk
  rcases Nat.le_one_iff_eq_zero_or_eq_one.mp hmode with rfl | rfl
  · exact ⟨paths[k], List.getElem_mem hk, pathsWithPorts[k], List.getElem?_eq_getElem hk',
      halong.get hk hk', fun _ ↦ List.getElem?_eq_getElem hk, by simp⟩
  · have hk'' : k < mirrors.length := hdrawn.length_eq ▸ hk'
    obtain ⟨hmem, hother⟩ := hdrawn.get hk' hk''
    obtain ⟨j, hj, hmirror⟩ := List.getElem_of_mem hmem
    have hj' : j < paths.length := halong.length_eq ▸ hj
    have hmirrorAlong := halong.get hj' hj
    have hpathAlong := halong.get hk hk'
    simp only [List.get_eq_getElem] at hmirrorAlong hpathAlong hmirror hother
    rw [hmirror] at hmirrorAlong
    refine ⟨paths[j], List.getElem_mem hj', mirrors[k], List.getElem?_eq_getElem hk'',
      hmirrorAlong, by simp, ?_⟩
    intro _ hmany hsame
    rw [List.getElem?_eq_getElem hk, Option.some.injEq] at hsame
    rw [hsame] at hpathAlong
    exact hother (halong.length_eq ▸ hmany) (by rw [hmirrorAlong.unique hpathAlong])

/-- A completed install is the last one for its pair if no later one has the same addresses. -/
theorem exists_lastInstall {after : List (CompletedCall env topo)} {done : CompletedCall env topo}
    (hmacs : done.call.srcMac ≠ done.call.dstMac)
    (hlast : ∀ later ∈ after, s(later.call.srcMac, later.call.dstMac) ≠
      s(done.call.srcMac, done.call.dstMac)) :
    ∃ paths pathsWithPorts mirrors, getPaths env topo done.call.src done.call.dst = .ok paths ∧
      addPortsToPaths topo paths done.call.firstPort done.call.lastPort = .ok pathsWithPorts ∧
      drawMirrors pathsWithPorts pathsWithPorts done.draws = .ok mirrors ∧
      LastInstall after done pathsWithPorts mirrors := by
  obtain ⟨paths, pathsWithPorts, mirrors, hpaths, hpathsWithPorts, hmirrors, hlog⟩ :=
    installPaths_ok done.completed
  have hlength := getPaths_length hpaths
  have hsame := (addPortsToPaths_ok hpaths hpathsWithPorts).length_eq
  have hsameMirrors := (drawMirrors_ok hmirrors).length_eq
  refine ⟨paths, pathsWithPorts, mirrors, hpaths, hpathsWithPorts, hmirrors, hmacs, hlast,
    fun htype ↦ mem_log_vlan hsameMirrors.symm hlog htype, ?_⟩
  intro mode
  unfold routes
  split
  · omega
  · omega

/-- Where the ids of an install lead, and back: for each mode and index one path, which frames with
the ids of the mode, index and any group follow from daemon to daemon in both directions. -/
def RoutesBothWays {env : Env} {topo : TopologyState} (peer : Peer)
    (calls : List (CompletedCall env topo)) (call : InstallCall)
    (paths : List (List Dpid)) : Prop :=
  ∀ mode ≤ 1, ∀ k < paths.length, ∃ path ∈ paths, (mode = 0 → paths[k]? = some path) ∧
    (mode = 1 → 1 < paths.length → paths[k]? ≠ some path) ∧
    ∀ x ≤ maxGroup, ∀ packet : Packet, packet.ethType = 0x8100 →
      packet.vlanVid = some (taggedVid mode x k) →
      (packet.ethSrc = call.srcMac → packet.ethDst = call.dstMac →
        Travels (tableOf (messagesOf calls)) peer packet call.src 2 path call.dst 1) ∧
      (packet.ethSrc = call.dstMac → packet.ethDst = call.srcMac →
        Travels (tableOf (messagesOf calls)) peer packet call.dst 2 path.reverse call.src 1)

theorem routesBothWays_of_last {peer : Peer} (hwired : WiredAs topo peer)
    (before : List (CompletedCall env topo)) {after : List (CompletedCall env topo)}
    {done : CompletedCall env topo} (hsrcAccess : AccessSwitch topo peer done.call.src)
    (hdstAccess : AccessSwitch topo peer done.call.dst) (hends : done.call.src ≠ done.call.dst)
    (hmacs : done.call.srcMac ≠ done.call.dstMac)
    (hlast : ∀ later ∈ after, s(later.call.srcMac, later.call.dstMac) ≠
      s(done.call.srcMac, done.call.dstMac)) :
    ∃ paths, getPaths env topo done.call.src done.call.dst = .ok paths ∧
      RoutesBothWays peer (before ++ done :: after) done.call paths := by
  obtain ⟨paths, pathsWithPorts, mirrors, hpaths, hpathsWithPorts, hmirrors, install⟩ :=
    exists_lastInstall hmacs hlast
  have hsimple := getPaths_simple hpaths
  have halong := addPortsToPaths_ok hpaths hpathsWithPorts
  refine ⟨paths, hpaths, ?_⟩
  intro mode hmode k hk
  obtain ⟨path, hpath, ports, hports, hportsAlong, horiginal, hmirror⟩ :=
    exists_route halong hmirrors hmode hk
  refine ⟨path, hpath, horiginal, hmirror, ?_⟩
  intro x hx packet htype hvid
  constructor
  · intro hsrc hdst
    exact install.travels before hwired hsrcAccess hdstAccess hends hmode hx hports
      (hsimple path hpath) hportsAlong htype hsrc hdst hvid
  · intro hsrc hdst
    exact travels_back install hwired hsrcAccess hdstAccess hends hmode hx hports
      (hsimple path hpath) hportsAlong htype hsrc hdst hvid

/-- **Symmetric routing.** After any sequence of completed installs, take the last one for a pair of
addresses, in either orientation, between two access switches. Each of its ids names one path of the
install, for a mirror id another one than for the original id if there is another one. Double-tagged
frames with that id follow exactly this path from the source daemon to the destination daemon, and
exactly the reversed path from the destination daemon to the source daemon. -/
theorem symmetric_tagged_routing (env : Env) (topo : TopologyState) (peer : Peer)
    (hwired : WiredAs topo peer) (before after : List (CompletedCall env topo))
    (done : CompletedCall env topo) (hsrcAccess : AccessSwitch topo peer done.call.src)
    (hdstAccess : AccessSwitch topo peer done.call.dst) (hends : done.call.src ≠ done.call.dst)
    (hmacs : done.call.srcMac ≠ done.call.dstMac)
    (hlast : ∀ later ∈ after, s(later.call.srcMac, later.call.dstMac) ≠
      s(done.call.srcMac, done.call.dstMac)) :
    ∃ paths, getPaths env topo done.call.src done.call.dst = .ok paths ∧
      ∀ mode ≤ 1, ∀ k < paths.length, ∃ path ∈ paths, (mode = 0 → paths[k]? = some path) ∧
        (mode = 1 → 1 < paths.length → paths[k]? ≠ some path) ∧
        ∀ x ≤ maxGroup, ∀ packet : Packet, packet.ethType = 0x8100 →
          packet.vlanVid = some (taggedVid mode x k) →
          (packet.ethSrc = done.call.srcMac → packet.ethDst = done.call.dstMac →
            Travels (tableOf (messagesOf (before ++ done :: after))) peer packet
              done.call.src 2 path done.call.dst 1) ∧
          (packet.ethSrc = done.call.dstMac → packet.ethDst = done.call.srcMac →
            Travels (tableOf (messagesOf (before ++ done :: after))) peer packet
              done.call.dst 2 path.reverse done.call.src 1) := by
  exact routesBothWays_of_last hwired before hsrcAccess hdstAccess hends hmacs hlast

/-- The answer with the third id comes back through switch 5 to the daemon behind switch 1. -/
theorem symmetric_tagged_routing_fan :
    Travels (tableOf (messagesOf (fanBefore ++ fanDone :: fanAfter))) fanPeer
      ⟨0x020000000002, 0x020000000001, 0x8100, 0x8100, some 0x1013, none, none, false⟩
      2 2 [2, 5, 1] 1 1 := by
  obtain ⟨paths, hpaths, hroutes⟩ :=
    symmetric_tagged_routing fanPaths fanTopology fanPeer fanTopology_wired fanBefore fanAfter
      fanDone (fanTopology_access (.inl rfl)) (fanTopology_access (.inr rfl)) (by decide)
      (by decide) (by decide)
  cases hpaths.symm.trans fanPaths_found
  obtain ⟨path, -, hpath, -, hframes⟩ := hroutes 0 (by decide) 2 (by decide)
  obtain rfl : [1, 5, 2] = path := by simpa using hpath rfl
  exact (hframes 1 (by decide) _ rfl rfl).2 rfl rfl

end Wispr.Controller.Backward
