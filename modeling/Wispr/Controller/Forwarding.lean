import Wispr.Controller.Install

/-!
# Forwarding of tagged frames

After any sequence of completed installs, the rules of the last install for a pair of hosts decide
where a double-tagged frame of that pair goes: from the daemon port of the source switch along the
path its tag names, or along the mirror drawn for that path, to the daemon port of the destination
switch.

The argument has two halves. In the table of one switch the entry for the frame is written by the
last install alone, always with the same action, and outranks everything else that matches. Along
the path the egress port of a switch is wired to the ingress port the next rule waits for.
-/

open Wispr.Foundation.FlowTable

namespace Wispr.Controller.Forwarding

open Paths Install

/-- The VLAN id of a path, group and mode, with the presence bit. -/
def taggedVid (mode group index : ℕ) : ℕ := 0x1000 + mode * 0x100 + group * 0x10 + (index + 1)

/-- The ids of different paths, groups and modes differ, since path numbers fit into a nibble. -/
theorem taggedVid_injective {mode mode' group group' index index' : ℕ} (hgroup : group ≤ maxGroup)
    (hgroup' : group' ≤ maxGroup) (hindex : index < maxPaths) (hindex' : index' < maxPaths)
    (h : taggedVid mode group index = taggedVid mode' group' index') :
    mode = mode' ∧ group = group' ∧ index = index' := by
  simp only [taggedVid, maxGroup, maxPaths] at *
  omega

/-- The rule that takes a frame from source to destination through one switch of a path. -/
def forwardRule (call : InstallCall) (node : Dpid) (inPort outPort : Port) (vlanVid : ℕ) :
    FlowMod :=
  if node = call.src then ⟨3, vlanMatch 2 call.dstMac call.srcMac vlanVid, [.port outPort]⟩
  else if node = call.dst then ⟨3, vlanMatch inPort call.dstMac call.srcMac vlanVid, [.port 1]⟩
  else ⟨3, vlanMatch inPort call.dstMac call.srcMac vlanVid, [.port outPort]⟩

theorem mem_vlanFlows {call : InstallCall} {vlan : ℕ} {node : Dpid} {inPort outPort : Port}
    {flow : FlowMod} : flow ∈ vlanFlows call vlan node inPort outPort ↔
      ∃ x ≤ maxGroup, flow ∈ vlanPair call node inPort outPort (vlan + 0x10 * x) := by
  simp only [vlanFlows, List.mem_flatMap, List.mem_range, Nat.lt_succ_iff]

theorem forwardRule_mem (call : InstallCall) (node : Dpid) (inPort outPort : Port) (vlanVid : ℕ) :
    forwardRule call node inPort outPort vlanVid ∈ vlanPair call node inPort outPort vlanVid := by
  unfold forwardRule vlanPair
  split
  · exact List.mem_cons_self ..
  · split
    · exact List.mem_cons_self ..
    · exact List.mem_cons_self ..

theorem vlanPair_condition {call : InstallCall} {node : Dpid} {inPort outPort : Port} {vlanVid : ℕ}
    {flow : FlowMod} (h : flow ∈ vlanPair call node inPort outPort vlanVid) :
    flow.priority = 3 ∧ ∃ port, flow.condition = vlanMatch port call.dstMac call.srcMac vlanVid ∨
      flow.condition = vlanMatch port call.srcMac call.dstMac vlanVid := by
  unfold vlanPair at h
  split at h
  · simp only [List.mem_cons, List.not_mem_nil, or_false] at h
    rcases h with rfl | rfl
    · exact ⟨rfl, 2, .inl rfl⟩
    · exact ⟨rfl, outPort, .inr rfl⟩
  · split at h
    · simp only [List.mem_cons, List.not_mem_nil, or_false] at h
      rcases h with rfl | rfl
      · exact ⟨rfl, inPort, .inl rfl⟩
      · exact ⟨rfl, 2, .inr rfl⟩
    · simp only [List.mem_cons, List.not_mem_nil, or_false] at h
      rcases h with rfl | rfl
      · exact ⟨rfl, inPort, .inl rfl⟩
      · exact ⟨rfl, outPort, .inr rfl⟩

theorem eq_forwardRule {call : InstallCall} (hmacs : call.srcMac ≠ call.dstMac) {node : Dpid}
    {inPort outPort port : Port} {vlanVid vlanVid' : ℕ} {flow : FlowMod}
    (h : flow ∈ vlanPair call node inPort outPort vlanVid)
    (hcondition : flow.condition = vlanMatch port call.dstMac call.srcMac vlanVid') :
    vlanVid = vlanVid' ∧ flow = forwardRule call node inPort outPort vlanVid := by
  have hsource : flow.condition.ethSrc = some call.srcMac := by rw [hcondition]; rfl
  have hvid : flow.condition.vlanVid = some vlanVid' := by rw [hcondition]; rfl
  unfold forwardRule
  unfold vlanPair at h
  split at h
  · rename_i hsrc
    rw [if_pos hsrc]
    simp only [List.mem_cons, List.not_mem_nil, or_false] at h
    rcases h with rfl | rfl
    · exact ⟨Option.some.inj hvid, rfl⟩
    · exact absurd (Option.some.inj hsource).symm hmacs
  · rename_i hsrc
    rw [if_neg hsrc]
    split at h
    · rename_i hdst
      rw [if_pos hdst]
      simp only [List.mem_cons, List.not_mem_nil, or_false] at h
      rcases h with rfl | rfl
      · exact ⟨Option.some.inj hvid, rfl⟩
      · exact absurd (Option.some.inj hsource).symm hmacs
    · rename_i hdst
      rw [if_neg hdst]
      simp only [List.mem_cons, List.not_mem_nil, or_false] at h
      rcases h with rfl | rfl
      · exact ⟨Option.some.inj hvid, rfl⟩
      · exact absurd (Option.some.inj hsource).symm hmacs

/-- Apart from VLAN rules, an install sends rules for ARP and IPv4 only. -/
theorem nodeFlows_cases {call : InstallCall} {firstPath : Bool} {vlan : ℕ} {node : Dpid}
    {inPort outPort : Port} {flow : FlowMod}
    (h : flow ∈ nodeFlows call firstPath vlan node inPort outPort) :
    flow.condition.ethType = some 0x0806 ∨ flow.condition.ethType = some 0x0800 ∨
      flow ∈ vlanFlows call vlan node inPort outPort := by
  rcases List.mem_append.mp h with hplain | hvlan
  · rcases List.mem_append.mp hplain with harp | hipv4
    · left
      split at harp
      · simp only [arpFlows, List.mem_cons, List.not_mem_nil, or_false] at harp
        rcases harp with rfl | rfl <;> rfl
      · cases harp
    · right
      left
      unfold ipv4Flows at hipv4
      split at hipv4
      · simp only [List.mem_cons, List.not_mem_nil, or_false] at hipv4
        rcases hipv4 with rfl | rfl | rfl <;> rfl
      · split at hipv4
        · simp only [List.mem_cons, List.not_mem_nil, or_false] at hipv4
          rcases hipv4 with rfl | rfl <;> rfl
        · cases hipv4
  · exact .inr (.inr hvlan)

/-- A rule of an install that accepts a double-tagged frame is a VLAN rule of exactly the frame's
addresses, id and port. -/
theorem accepts_doubleTagged {call : InstallCall} {firstPath : Bool} {vlan : ℕ} {node : Dpid}
    {inPort outPort port : Port} {flow : FlowMod} {packet : Packet} {vlanVid : ℕ}
    (hflow : flow ∈ nodeFlows call firstPath vlan node inPort outPort)
    (htype : packet.ethType = 0x8100) (hvid : packet.vlanVid = some vlanVid)
    (haccepts : flow.condition.accepts (port, packet) = true) :
    flow.priority = 3 ∧ flow.condition = vlanMatch port packet.ethDst packet.ethSrc vlanVid := by
  simp only [OFPMatch.accepts, fieldAccepts, Bool.and_eq_true, decide_eq_true_eq, htype,
    hvid] at haccepts
  obtain ⟨⟨⟨⟨⟨⟨⟨⟨⟨hport, hdst⟩, hsrc⟩, hethType⟩, hvlanVid⟩, -⟩, -⟩, -⟩, -⟩, -⟩ := haccepts
  rcases nodeFlows_cases hflow with harp | hipv4 | hvlan
  · rw [harp] at hethType
    simp at hethType
  · rw [hipv4] at hethType
    simp at hethType
  · obtain ⟨x, -, hpair⟩ := mem_vlanFlows.mp hvlan
    obtain ⟨hpriority, found, hcondition⟩ := vlanPair_condition hpair
    refine ⟨hpriority, ?_⟩
    rcases hcondition with hcondition | hcondition
    · rw [hcondition] at hport hdst hsrc hvlanVid ⊢
      simp only [vlanMatch, Option.some.injEq, reduceCtorEq, false_or] at hport hdst hsrc hvlanVid
      rw [hport, hdst, hsrc, hvlanVid]
    · rw [hcondition] at hport hdst hsrc hvlanVid ⊢
      simp only [vlanMatch, Option.some.injEq, reduceCtorEq, false_or] at hport hdst hsrc hvlanVid
      rw [hport, hdst, hsrc, hvlanVid]

/-- The port dictionaries that carry the frames of a mode. -/
def routes (pathsWithPorts mirrors : List PathPorts) (mode : ℕ) : List PathPorts :=
  if mode = 0 then pathsWithPorts else mirrors

/-- The VLAN rules of a completed call, by mode, path, group and switch. -/
theorem mem_log_vlan {env : Env} {topo : TopologyState} {call : InstallCall} {draws : List ℕ}
    {pathsWithPorts mirrors : List PathPorts}
    (hmirrors : mirrors.length = pathsWithPorts.length)
    (hlog : ∀ message : Dpid × FlowMod, message ∈ (installPaths env topo call draws).log ↔
      ∃ (k : ℕ) (path mirror : PathPorts), pathsWithPorts[k]? = some path ∧
        mirrors[k]? = some mirror ∧
        (message ∈ pathMessages (nodeFlows call (decide (k = 0)) (0x1001 + k)) path ∨
          message ∈ pathMessages (vlanFlows call (0x1101 + k)) mirror))
    {node : Dpid} {flow : FlowMod} (htype : flow.condition.ethType = some 0x8100) :
    (node, flow) ∈ (installPaths env topo call draws).log ↔
      ∃ mode ≤ 1, ∃ (k : ℕ) (ports : PathPorts),
        (routes pathsWithPorts mirrors mode)[k]? = some ports ∧
        ∃ inPort outPort, (node, inPort, outPort) ∈ ports ∧
          ∃ x ≤ maxGroup, flow ∈ vlanPair call node inPort outPort (taggedVid mode x k) := by
  have hvid₀ : ∀ k x, 0x1001 + k + 0x10 * x = taggedVid 0 x k := by
    intro k x
    simp only [taggedVid]
    omega
  have hvid₁ : ∀ k x, 0x1101 + k + 0x10 * x = taggedVid 1 x k := by
    intro k x
    simp only [taggedVid]
    omega
  rw [hlog]
  constructor
  · rintro ⟨k, path, mirror, hpath, hmirror, hmessage | hmessage⟩
    · obtain ⟨inPort, outPort, hitem, hflow⟩ := mem_pathMessages.mp hmessage
      rcases nodeFlows_cases hflow with harp | hipv4 | hvlan
      · exact absurd (harp.symm.trans htype) (by decide)
      · exact absurd (hipv4.symm.trans htype) (by decide)
      · obtain ⟨x, hx, hpair⟩ := mem_vlanFlows.mp hvlan
        exact ⟨0, by decide, k, path, hpath, inPort, outPort, hitem, x, hx, hvid₀ k x ▸ hpair⟩
    · obtain ⟨inPort, outPort, hitem, hflow⟩ := mem_pathMessages.mp hmessage
      obtain ⟨x, hx, hpair⟩ := mem_vlanFlows.mp hflow
      exact ⟨1, le_rfl, k, mirror, hmirror, inPort, outPort, hitem, x, hx, hvid₁ k x ▸ hpair⟩
  · rintro ⟨mode, hmode, k, ports, hports, inPort, outPort, hitem, x, hx, hpair⟩
    have hbound : k < (routes pathsWithPorts mirrors mode).length :=
      (List.getElem?_eq_some_iff.mp hports).1
    have hk : k < pathsWithPorts.length := by
      unfold routes at hbound
      split at hbound
      · exact hbound
      · exact hmirrors ▸ hbound
    have hk' : k < mirrors.length := hmirrors ▸ hk
    refine ⟨k, pathsWithPorts[k], mirrors[k], List.getElem?_eq_getElem hk,
      List.getElem?_eq_getElem hk', ?_⟩
    rcases Nat.le_one_iff_eq_zero_or_eq_one.mp hmode with rfl | rfl
    · left
      obtain rfl : pathsWithPorts[k] = ports :=
        Option.some.inj ((List.getElem?_eq_getElem hk).symm.trans hports)
      refine mem_pathMessages.mpr ⟨inPort, outPort, hitem, List.mem_append_right _ ?_⟩
      exact mem_vlanFlows.mpr ⟨x, hx, hvid₀ k x ▸ hpair⟩
    · right
      obtain rfl : mirrors[k] = ports :=
        Option.some.inj ((List.getElem?_eq_getElem hk').symm.trans hports)
      exact mem_pathMessages.mpr ⟨inPort, outPort, hitem,
        mem_vlanFlows.mpr ⟨x, hx, hvid₁ k x ▸ hpair⟩⟩

/-! ## The table of one switch -/

/-- The table of a switch that started with the table-miss rule and received all messages. -/
def tableOf (messages : List (Dpid × FlowMod)) (node : Dpid) : List FlowMod :=
  addAll [tableMiss] (messages.filterMap fun message ↦
    if message.1 = node then some message.2 else none)

theorem mem_sentTo {messages : List (Dpid × FlowMod)} {node : Dpid} {flow : FlowMod} :
    flow ∈ messages.filterMap (fun message ↦ if message.1 = node then some message.2 else none) ↔
      (node, flow) ∈ messages := by
  simp only [List.mem_filterMap, Option.ite_none_right_eq_some, Option.some.injEq]
  constructor
  · rintro ⟨⟨target, sent⟩, hmem, rfl, rfl⟩
    exact hmem
  · intro hmem
    exact ⟨(node, flow), hmem, rfl, rfl⟩

/-- If the writes to an entry in the middle of a history agree and nothing later writes it, the
entry holds what they wrote. -/
theorem mem_tableOf_of_last {before middle after : List (Dpid × FlowMod)} {node : Dpid}
    {rule other : FlowMod} (hwritten : (node, rule) ∈ middle)
    (hagree : ∀ flow, (node, flow) ∈ middle → flow.SameEntry rule → flow = rule)
    (hlater : ∀ flow, (node, flow) ∈ after → ¬ flow.SameEntry rule)
    (hentry : other.SameEntry rule) :
    other ∈ tableOf (before ++ middle ++ after) node ↔ other = rule := by
  rw [tableOf, List.filterMap_append, List.filterMap_append, addAll_append, addAll_append,
    mem_addAll_of_untouched]
  · exact mem_addAll_of_agreeing (mem_sentTo.mpr hwritten)
      (fun flow hflow ↦ hagree flow (mem_sentTo.mp hflow)) hentry
  · intro flow hflow hsame
    exact hlater flow (mem_sentTo.mp hflow)
      ⟨hsame.1.symm.trans hentry.1, hsame.2.symm.trans hentry.2⟩

/-- A completed call of `install_paths`. -/
structure CompletedCall (env : Env) (topo : TopologyState) where
  call : InstallCall
  draws : List ℕ
  outPort : Port
  completed : (installPaths env topo call draws).result = .ok outPort

def CompletedCall.messages {env : Env} {topo : TopologyState} (done : CompletedCall env topo) :
    List (Dpid × FlowMod) :=
  (installPaths env topo done.call done.draws).log

/-- All messages of a sequence of calls. -/
def messagesOf {env : Env} {topo : TopologyState} (calls : List (CompletedCall env topo)) :
    List (Dpid × FlowMod) :=
  calls.flatMap CompletedCall.messages

/-- A switch has exactly one way to treat the packet, and it leads out of another port. -/
def ForwardsTo (table : List FlowMod) (inPort : Port) (packet : Packet) (outPort : Port) : Prop :=
  outPort ≠ inPort ∧ (∃ rule, Selected OFPMatch.accepts table (inPort, packet) rule) ∧
    ∀ rule, Selected OFPMatch.accepts table (inPort, packet) rule → rule.actions = [.port outPort]

variable {env : Env} {topo : TopologyState}

theorem mem_messages {done : CompletedCall env topo} {node : Dpid} {flow : FlowMod}
    (h : (node, flow) ∈ done.messages) :
    ∃ firstPath vlan inPort outPort,
      flow ∈ nodeFlows done.call firstPath vlan node inPort outPort := by
  obtain ⟨paths, pathsWithPorts, mirrors, -, -, -, hlog⟩ := installPaths_ok done.completed
  obtain ⟨k, path, mirror, -, -, hmessage | hmessage⟩ := (hlog _).mp h
  · obtain ⟨inPort, outPort, -, hflow⟩ := mem_pathMessages.mp hmessage
    exact ⟨_, _, inPort, outPort, hflow⟩
  · obtain ⟨inPort, outPort, -, hflow⟩ := mem_pathMessages.mp hmessage
    exact ⟨false, _, inPort, outPort, List.mem_append_right _ hflow⟩

/-- The rules of any switch that accept a double-tagged frame: the table-miss rule, and the one
entry for exactly this frame on this port. -/
theorem accepting_rules {calls : List (CompletedCall env topo)} {node : Dpid} {rule : FlowMod}
    {port : Port} {packet : Packet} {vlanVid : ℕ} (htype : packet.ethType = 0x8100)
    (hvid : packet.vlanVid = some vlanVid) (hmem : rule ∈ tableOf (messagesOf calls) node)
    (haccepts : rule.condition.accepts (port, packet) = true) :
    rule.priority = 0 ∨
      (rule.priority = 3 ∧
        rule.condition = vlanMatch port packet.ethDst packet.ethSrc vlanVid) := by
  rcases mem_addAll hmem with hmiss | hsent
  · left
    rw [List.mem_singleton.mp hmiss]
    rfl
  · right
    obtain ⟨done, -, hmessage⟩ := List.mem_flatMap.mp (mem_sentTo.mp hsent)
    obtain ⟨firstPath, vlan, inPort, outPort, hflow⟩ := mem_messages hmessage
    exact accepts_doubleTagged hflow htype hvid haccepts

/-- The last install for a pair of addresses in a sequence of installs, with its routes. -/
structure LastInstall (after : List (CompletedCall env topo)) (done : CompletedCall env topo)
    (pathsWithPorts mirrors : List PathPorts) : Prop where
  macs : done.call.srcMac ≠ done.call.dstMac
  last : ∀ later ∈ after, s(later.call.srcMac, later.call.dstMac) ≠
    s(done.call.srcMac, done.call.dstMac)
  mem_vlan : ∀ {node : Dpid} {flow : FlowMod}, flow.condition.ethType = some 0x8100 →
    ((node, flow) ∈ done.messages ↔ ∃ mode ≤ 1, ∃ (k : ℕ) (ports : PathPorts),
      (routes pathsWithPorts mirrors mode)[k]? = some ports ∧
      ∃ inPort outPort, (node, inPort, outPort) ∈ ports ∧
        ∃ x ≤ maxGroup, flow ∈ vlanPair done.call node inPort outPort (taggedVid mode x k))
  length_le : ∀ mode, (routes pathsWithPorts mirrors mode).length ≤ maxPaths

/-- A switch on a route: its entry in the port dictionary of that route. -/
structure OnRoute (pathsWithPorts mirrors : List PathPorts) (mode k : ℕ) (ports : PathPorts)
    (node : Dpid) (inPort outPort : Port) : Prop where
  mode_le : mode ≤ 1
  route : (routes pathsWithPorts mirrors mode)[k]? = some ports
  nodup : (ports.map Prod.fst).Nodup
  item : (node, inPort, outPort) ∈ ports

section LastInstall

variable {after : List (CompletedCall env topo)} {done : CompletedCall env topo}
  {pathsWithPorts mirrors : List PathPorts}

/-- All writes of the last install to the entry of a route come from that route and agree. -/
theorem LastInstall.writes_agree (install : LastInstall after done pathsWithPorts mirrors)
    {mode k x : ℕ} (hx : x ≤ maxGroup) {ports : PathPorts} {node : Dpid} {inPort outPort : Port}
    (hroute : OnRoute pathsWithPorts mirrors mode k ports node inPort outPort) {entry : Port}
    {flow : FlowMod} (hflow : (node, flow) ∈ done.messages)
    (hcondition : flow.condition =
      vlanMatch entry done.call.dstMac done.call.srcMac (taggedVid mode x k)) :
    flow = forwardRule done.call node inPort outPort (taggedVid mode x k) := by
  have hindex : k < maxPaths :=
    (List.getElem?_eq_some_iff.mp hroute.route).1.trans_le (install.length_le mode)
  obtain ⟨mode', -, k', ports', hports', inPort', outPort', hitem', x', hx', hpair⟩ :=
    (install.mem_vlan (by rw [hcondition]; rfl)).mp hflow
  obtain ⟨hsameVid, hforward⟩ := eq_forwardRule install.macs hpair hcondition
  have hindex' : k' < maxPaths :=
    (List.getElem?_eq_some_iff.mp hports').1.trans_le (install.length_le mode')
  obtain ⟨rfl, rfl, rfl⟩ := taggedVid_injective hx' hx hindex' hindex hsameVid
  cases hports'.symm.trans hroute.route
  have hunique := List.inj_on_of_nodup_map hroute.nodup hitem' hroute.item rfl
  simp only [Prod.mk.injEq, true_and] at hunique
  rw [hforward, hunique.1, hunique.2]

theorem LastInstall.not_written_later (install : LastInstall after done pathsWithPorts mirrors)
    {node : Dpid} {entry : Port} {vlanVid : ℕ} {flow : FlowMod}
    (hflow : (node, flow) ∈ messagesOf after) :
    flow.condition ≠ vlanMatch entry done.call.dstMac done.call.srcMac vlanVid := by
  intro hcondition
  have htype : flow.condition.ethType = some 0x8100 := by rw [hcondition]; rfl
  obtain ⟨later, hmem, hmessage⟩ := List.mem_flatMap.mp hflow
  obtain ⟨firstPath, vlan, inPort, outPort, hnode⟩ := mem_messages hmessage
  rcases nodeFlows_cases hnode with harp | hipv4 | hvlan
  · exact absurd (harp.symm.trans htype) (by decide)
  · exact absurd (hipv4.symm.trans htype) (by decide)
  · obtain ⟨x, -, hpair⟩ := mem_vlanFlows.mp hvlan
    obtain ⟨-, port, hpairCondition⟩ := vlanPair_condition hpair
    rw [hcondition] at hpairCondition
    simp only [vlanMatch, OFPMatch.mk.injEq, Option.some.injEq] at hpairCondition
    apply install.last later hmem
    rw [Sym2.eq_iff]
    rcases hpairCondition with ⟨-, hdstMac, hsrcMac, -⟩ | ⟨-, hdstMac, hsrcMac, -⟩
    · exact .inl ⟨hsrcMac.symm, hdstMac.symm⟩
    · exact .inr ⟨hdstMac.symm, hsrcMac.symm⟩

/-- After the whole sequence the entry of a route holds the route's rule and nothing else. -/
theorem LastInstall.mem_table (install : LastInstall after done pathsWithPorts mirrors)
    (before : List (CompletedCall env topo)) {mode k x : ℕ} (hx : x ≤ maxGroup) {ports : PathPorts}
    {node : Dpid} {inPort outPort : Port}
    (hroute : OnRoute pathsWithPorts mirrors mode k ports node inPort outPort) {entry exit : Port}
    (hrule : forwardRule done.call node inPort outPort (taggedVid mode x k) =
      ⟨3, vlanMatch entry done.call.dstMac done.call.srcMac (taggedVid mode x k), [.port exit]⟩)
    {other : FlowMod}
    (hentry : other.SameEntry (forwardRule done.call node inPort outPort (taggedVid mode x k))) :
    other ∈ tableOf (messagesOf (before ++ done :: after)) node ↔
      other = forwardRule done.call node inPort outPort (taggedVid mode x k) := by
  have hsplit : messagesOf (before ++ done :: after) =
      messagesOf before ++ done.messages ++ messagesOf after := by
    simp [messagesOf]
  rw [hsplit]
  refine mem_tableOf_of_last ?_ ?_ ?_ hentry
  · refine (install.mem_vlan (by rw [hrule]; rfl)).mpr ?_
    exact ⟨mode, hroute.mode_le, k, ports, hroute.route, inPort, outPort, hroute.item, x, hx,
      forwardRule_mem done.call node inPort outPort _⟩
  · intro flow hflow hsame
    exact install.writes_agree hx hroute hflow (hsame.2.trans (by rw [hrule]))
  · intro flow hflow hsame
    exact install.not_written_later hflow (hsame.2.trans (by rw [hrule]))

/-- What a switch on a route of the last install does with a frame that carries the route's tag. -/
theorem LastInstall.forwardsTo (install : LastInstall after done pathsWithPorts mirrors)
    (before : List (CompletedCall env topo)) {mode k x : ℕ} (hx : x ≤ maxGroup) {ports : PathPorts}
    {node : Dpid} {inPort outPort : Port}
    (hroute : OnRoute pathsWithPorts mirrors mode k ports node inPort outPort) {entry exit : Port}
    (hrule : forwardRule done.call node inPort outPort (taggedVid mode x k) =
      ⟨3, vlanMatch entry done.call.dstMac done.call.srcMac (taggedVid mode x k), [.port exit]⟩)
    (hdiffer : exit ≠ entry) {packet : Packet} (htype : packet.ethType = 0x8100)
    (hsrc : packet.ethSrc = done.call.srcMac) (hdst : packet.ethDst = done.call.dstMac)
    (hvid : packet.vlanVid = some (taggedVid mode x k)) :
    ForwardsTo (tableOf (messagesOf (before ++ done :: after)) node) entry packet exit := by
  have hmem := (install.mem_table before hx hroute hrule ⟨rfl, rfl⟩).mpr rfl
  have haccepts : (forwardRule done.call node inPort outPort (taggedVid mode x k)).condition.accepts
      (entry, packet) = true := by
    rw [hrule]
    simp [OFPMatch.accepts, fieldAccepts, vlanMatch, htype, hsrc, hdst, hvid]
  have hselected := selected_iff_of_dominant hmem haccepts (by
    intro other hother hacceptsOther
    rcases accepting_rules htype hvid hother hacceptsOther with hmiss | ⟨hpriority, hcondition⟩
    · left
      rw [hmiss, hrule]
      exact (by decide : 0 < 3)
    · right
      rw [hsrc, hdst] at hcondition
      refine (install.mem_table before hx hroute hrule ?_).mp hother
      rw [hrule]
      exact ⟨hpriority, hcondition⟩)
  refine ⟨hdiffer, ⟨_, (hselected _).mpr rfl⟩, ?_⟩
  intro rule hchosen
  rw [(hselected rule).mp hchosen, hrule]

end LastInstall

/-- Where a port leads: the switch and port at the other end of its link. -/
abbrev Peer := Dpid → Port → Option (Dpid × Port)

/-- The adjacency entries are the two ends of the links, and neighbours have ports of their own. -/
structure WiredAs (topo : TopologyState) (peer : Peer) : Prop where
  link : ∀ {u v p q}, topo.adjacency u v = some p → topo.adjacency v u = some q →
    peer u p = some (v, q)
  distinct : ∀ {u v w p}, topo.adjacency u v = some p → topo.adjacency u w = some p → v = w

/-- Ports 1 and 2 of an access switch go to and come from the daemon. -/
structure AccessSwitch (topo : TopologyState) (peer : Peer) (node : Dpid) : Prop where
  daemon_port : ∀ {v p}, topo.adjacency node v = some p → p ≠ 1 ∧ p ≠ 2
  leaves : peer node 1 = none

/-- The journey of a packet: the switches it visits and the port it leaves the last one on. -/
inductive Travels (tables : Dpid → List FlowMod) (peer : Peer) (packet : Packet) :
    Dpid → Port → List Dpid → Dpid → Port → Prop
  | leave {node : Dpid} {inPort outPort : Port} :
      ForwardsTo (tables node) inPort packet outPort → peer node outPort = none →
      Travels tables peer packet node inPort [node] node outPort
  | hop {node next last : Dpid} {inPort outPort nextIn lastPort : Port} {rest : List Dpid} :
      ForwardsTo (tables node) inPort packet outPort → peer node outPort = some (next, nextIn) →
      Travels tables peer packet next nextIn rest last lastPort →
      Travels tables peer packet node inPort (node :: rest) last lastPort

/-- From the second switch of a route on, a frame follows the route to the daemon port of its
destination. The induction is on the rest of the route; the invariant is that the frame enters on
the port towards a switch the rest no longer visits. -/
theorem travels_rest {tables : Dpid → List FlowMod} {peer : Peer} {packet : Packet} {dst : Dpid}
    (hwired : WiredAs topo peer) (haccess : AccessSwitch topo peer dst) {lastPort inPort : Port}
    {rest : List Dpid} {ports : PathPorts} (halong : PortsAlong topo lastPort inPort rest ports)
    (htransit : ∀ {node entry exit}, (node, entry, exit) ∈ ports → node ≠ dst → exit ≠ entry →
      ForwardsTo (tables node) entry packet exit)
    (harrive : ∀ {entry exit}, (dst, entry, exit) ∈ ports → 1 ≠ entry →
      ForwardsTo (tables dst) entry packet 1)
    {node previous : Dpid} (hnode : rest.head? = some node) (hlast : rest.getLast? = some dst)
    (hnodup : rest.Nodup) (hbehind : topo.adjacency node previous = some inPort)
    (hvisited : previous ∉ rest) :
    Travels tables peer packet node inPort rest dst 1 := by
  induction halong generalizing node previous with
  | last inPort only =>
    simp only [List.head?_cons, Option.some.injEq] at hnode
    simp only [List.getLast?_singleton, Option.some.injEq] at hlast
    subst hnode
    subst hlast
    have hport := haccess.daemon_port hbehind
    exact .leave (harrive (List.mem_singleton_self _) hport.1.symm) haccess.leaves
  | @hop inPort outPort nextIn current next tail ports hout hin hrest ih =>
    simp only [List.head?_cons, Option.some.injEq] at hnode
    subst hnode
    obtain ⟨hcurrent, htail⟩ := List.nodup_cons.mp hnodup
    have hlast' : (next :: tail).getLast? = some dst := by simpa using hlast
    have hnotLast : current ≠ dst := by
      intro hsame
      exact hcurrent (hsame ▸ List.mem_of_getLast? hlast')
    have hdiffer : outPort ≠ inPort := by
      intro hsame
      have hback := hwired.distinct (hsame ▸ hout) hbehind
      exact hvisited (hback ▸ List.mem_cons_of_mem _ (List.mem_cons_self ..))
    refine .hop (htransit (List.mem_cons_self ..) hnotLast hdiffer) (hwired.link hout hin) ?_
    exact ih (fun hmem ↦ htransit (List.mem_cons_of_mem _ hmem))
      (fun hmem ↦ harrive (List.mem_cons_of_mem _ hmem)) rfl hlast' htail hin hcurrent

/-- A frame that enters the source switch from the daemon follows the route its tag names. -/
theorem LastInstall.travels {after : List (CompletedCall env topo)} {done : CompletedCall env topo}
    {pathsWithPorts mirrors : List PathPorts}
    (install : LastInstall after done pathsWithPorts mirrors)
    (before : List (CompletedCall env topo)) {peer : Peer} (hwired : WiredAs topo peer)
    (hsrcAccess : AccessSwitch topo peer done.call.src)
    (hdstAccess : AccessSwitch topo peer done.call.dst) (hends : done.call.src ≠ done.call.dst)
    {mode k x : ℕ} (hmode : mode ≤ 1) (hx : x ≤ maxGroup) {path : List Dpid} {ports : PathPorts}
    (hports : (routes pathsWithPorts mirrors mode)[k]? = some ports)
    (hsimple : topo.G.SimplePath done.call.src done.call.dst path)
    (halong : PortsAlong topo done.call.lastPort done.call.firstPort path ports)
    {packet : Packet} (htype : packet.ethType = 0x8100) (hsrc : packet.ethSrc = done.call.srcMac)
    (hdst : packet.ethDst = done.call.dstMac) (hvid : packet.vlanVid = some (taggedVid mode x k)) :
    Travels (tableOf (messagesOf (before ++ done :: after))) peer packet done.call.src 2 path
      done.call.dst 1 := by
  have hnodup : (ports.map Prod.fst).Nodup := halong.keys ▸ hsimple.nodup
  have hstarts := hsimple.starts
  have hfinishes := hsimple.ends
  have hpathNodup := hsimple.nodup
  have hrule : ∀ {node inPort outPort entry exit}, (node, inPort, outPort) ∈ ports →
      forwardRule done.call node inPort outPort (taggedVid mode x k) =
        ⟨3, vlanMatch entry done.call.dstMac done.call.srcMac (taggedVid mode x k), [.port exit]⟩ →
      exit ≠ entry →
      ForwardsTo (tableOf (messagesOf (before ++ done :: after)) node) entry packet exit :=
    fun hitem hforward hdiffer ↦ install.forwardsTo before hx ⟨hmode, hports, hnodup, hitem⟩
      hforward hdiffer htype hsrc hdst hvid
  cases halong with
  | last inPort node =>
    simp only [List.head?_cons, Option.some.injEq] at hstarts
    simp only [List.getLast?_singleton, Option.some.injEq] at hfinishes
    exact absurd (hstarts.symm.trans hfinishes) hends
  | @hop _ outPort nextIn node next rest tail hout hin hrest =>
    simp only [List.head?_cons, Option.some.injEq] at hstarts
    subst hstarts
    obtain ⟨hnotVisited, hrestNodup⟩ := List.nodup_cons.mp hpathNodup
    refine .hop (hrule (List.mem_cons_self ..) (if_pos rfl) (hsrcAccess.daemon_port hout).2)
      (hwired.link hout hin) ?_
    refine travels_rest hwired hdstAccess hrest ?_ ?_ rfl (by simpa using hfinishes) hrestNodup hin
      hnotVisited
    · intro node entry exit hitem hnotDst hdiffer
      have hnotSrc : node ≠ done.call.src := by
        intro hsame
        apply hnotVisited
        rw [← hrest.keys, ← hsame]
        exact List.mem_map_of_mem hitem
      refine hrule (List.mem_cons_of_mem _ hitem) ?_ hdiffer
      rw [forwardRule, if_neg hnotSrc, if_neg hnotDst]
    · intro entry exit hitem hdiffer
      refine hrule (List.mem_cons_of_mem _ hitem) ?_ hdiffer
      rw [forwardRule, if_neg hends.symm, if_pos rfl]

/-- **Tagged forwarding.** Take any sequence of completed installs and the last one for a pair of
addresses, in either orientation, between two access switches. For each of its paths and groups, a
double-tagged frame from the source daemon follows exactly that path when it carries the original
id, and exactly the mirror drawn for that path when it carries the mirror id, and leaves the
destination switch on the port of the daemon. -/
theorem tagged_forwarding (env : Env) (topo : TopologyState) (peer : Peer)
    (hwired : WiredAs topo peer) (before after : List (CompletedCall env topo))
    (done : CompletedCall env topo) (hsrcAccess : AccessSwitch topo peer done.call.src)
    (hdstAccess : AccessSwitch topo peer done.call.dst) (hends : done.call.src ≠ done.call.dst)
    (hmacs : done.call.srcMac ≠ done.call.dstMac)
    (hlast : ∀ later ∈ after, s(later.call.srcMac, later.call.dstMac) ≠
      s(done.call.srcMac, done.call.dstMac)) :
    ∃ paths pathsWithPorts mirrors, getPaths env topo done.call.src done.call.dst = .ok paths ∧
      addPortsToPaths topo paths done.call.firstPort done.call.lastPort = .ok pathsWithPorts ∧
      drawMirrors pathsWithPorts pathsWithPorts done.draws = .ok mirrors ∧
      paths.length ≤ maxPaths ∧
      ∀ (k : ℕ) (path : List Dpid), paths[k]? = some path →
        ∃ mirror ∈ paths, ∃ mirrorPorts, mirrors[k]? = some mirrorPorts ∧
          PortsAlong topo done.call.lastPort done.call.firstPort mirror mirrorPorts ∧
          (1 < paths.length → mirror ≠ path) ∧
          ∀ x ≤ maxGroup, ∀ packet : Packet, packet.ethType = 0x8100 →
            packet.ethSrc = done.call.srcMac → packet.ethDst = done.call.dstMac →
            (packet.vlanVid = some (0x1000 + (0 * 0x100 + x * 0x10 + (k + 1))) →
              Travels (tableOf (messagesOf (before ++ done :: after))) peer packet
                done.call.src 2 path done.call.dst 1) ∧
            (packet.vlanVid = some (0x1000 + (1 * 0x100 + x * 0x10 + (k + 1))) →
              Travels (tableOf (messagesOf (before ++ done :: after))) peer packet
                done.call.src 2 mirror done.call.dst 1) := by
  obtain ⟨paths, pathsWithPorts, mirrors, hpaths, hpathsWithPorts, hmirrors, hlog⟩ :=
    installPaths_ok done.completed
  have hsimple := getPaths_simple hpaths
  have hlength := getPaths_length hpaths
  have halong := addPortsToPaths_ok hpaths hpathsWithPorts
  have hdrawn := drawMirrors_ok hmirrors
  have hsame : pathsWithPorts.length = paths.length := halong.length_eq.symm
  have hsameMirrors : mirrors.length = pathsWithPorts.length := hdrawn.length_eq.symm
  have install : LastInstall after done pathsWithPorts mirrors := by
    refine ⟨hmacs, hlast, fun htype ↦ mem_log_vlan hsameMirrors hlog htype, ?_⟩
    intro mode
    unfold routes
    split
    · omega
    · omega
  refine ⟨paths, pathsWithPorts, mirrors, hpaths, hpathsWithPorts, hmirrors, hlength, ?_⟩
  intro k path hpath
  obtain ⟨hk, hpathEq⟩ := List.getElem?_eq_some_iff.mp hpath
  have hports : pathsWithPorts[k]? = some pathsWithPorts[k] := List.getElem?_eq_getElem (by omega)
  have hmirrorPorts : mirrors[k]? = some mirrors[k] := List.getElem?_eq_getElem (by omega)
  have hpathAlong := halong.get hk (by omega)
  obtain ⟨hmirrorMem, hmirrorOther⟩ := hdrawn.get (by omega : k < pathsWithPorts.length) (by omega)
  obtain ⟨j, hj, hmirrorEq⟩ := List.getElem_of_mem hmirrorMem
  have hmirrorAlong := halong.get (by omega : j < paths.length) hj
  simp only [List.get_eq_getElem] at hpathAlong hmirrorAlong hmirrorOther hmirrorEq
  rw [hpathEq] at hpathAlong
  rw [hmirrorEq] at hmirrorAlong
  have hpathSimple := hsimple path (List.mem_of_getElem? hpath)
  have hmirrorSimple := hsimple paths[j] (List.getElem_mem _)
  refine ⟨paths[j], List.getElem_mem _, mirrors[k], hmirrorPorts, hmirrorAlong, ?_, ?_⟩
  · intro hmany hsamePath
    apply hmirrorOther (by omega)
    rw [hsamePath] at hmirrorAlong
    rw [hpathAlong.unique hmirrorAlong]
  · intro x hx packet htype hsrc hdst
    have hvid₀ : 0x1000 + (0 * 0x100 + x * 0x10 + (k + 1)) = taggedVid 0 x k := by
      simp only [taggedVid]
      omega
    have hvid₁ : 0x1000 + (1 * 0x100 + x * 0x10 + (k + 1)) = taggedVid 1 x k := by
      simp only [taggedVid]
      omega
    constructor
    · intro hvid
      exact install.travels before hwired hsrcAccess hdstAccess hends (Nat.zero_le 1) hx hports
        hpathSimple hpathAlong htype hsrc hdst (hvid.trans (congrArg some hvid₀))
    · intro hvid
      exact install.travels before hwired hsrcAccess hdstAccess hends le_rfl hx hmirrorPorts
        hmirrorSimple hmirrorAlong htype hsrc hdst (hvid.trans (congrArg some hvid₁))

/-- Two access switches joined by one link, and an install between hosts on their ports 4. -/
def pairCall : InstallCall :=
  ⟨1, 4, 2, 4, 0x0A000001, 0x0A000002, 0x020000000001, 0x020000000002⟩

def pairPeer : Peer := fun node port ↦
  if node = 1 ∧ port = 3 then some (2, 3) else if node = 2 ∧ port = 3 then some (1, 3) else none

theorem pairCall_completed :
    (installPaths directPaths pairTopology pairCall [0]).result = .ok 3 := by decide

theorem pairTopology_adjacency (u v : Dpid) : pairTopology.adjacency u v =
    if u = 2 ∧ v = 1 then some 3 else if u = 1 ∧ v = 2 then some 3 else none := by
  simp only [pairTopology, List.foldl, handleEvent, linkAddHandler, setAdjacency_adjacency]
  rfl

theorem pairTopology_port {u v : Dpid} {p : Port} (h : pairTopology.adjacency u v = some p) :
    p = 3 ∧ ((u = 2 ∧ v = 1) ∨ (u = 1 ∧ v = 2)) := by
  rw [pairTopology_adjacency] at h
  split at h
  · rename_i hends
    exact ⟨(Option.some.inj h).symm, .inl hends⟩
  · split at h
    · rename_i hends
      exact ⟨(Option.some.inj h).symm, .inr hends⟩
    · cases h

/-- Two access switches joined through five others. -/
def fanTopology : TopologyState :=
  ([1, 2, 3, 4, 5, 6, 7].map TopologyEvent.switchEnter ++
    [3, 4, 5, 6, 7].flatMap fun middle ↦
      [TopologyEvent.linkAdd ⟨1, 10 + middle⟩ ⟨middle, 1⟩,
        .linkAdd ⟨middle, 2⟩ ⟨2, 10 + middle⟩]).foldl handleEvent .init

/-- An environment for graphs in which switches are joined by a link or through one other switch. -/
def fanPaths : Env where
  shortestSimplePaths graph src dst :=
    .ok ((if s(src, dst) ∈ graph.edges ∧ src ≠ dst then [[src, dst]] else []) ++
      ((List.range 8).filter fun middle ↦ src ≠ dst ∧ middle ≠ src ∧ middle ≠ dst ∧
        s(src, middle) ∈ graph.edges ∧ s(middle, dst) ∈ graph.edges).map fun middle ↦
          [src, middle, dst])
  shortestSimplePaths_simple := by
    intro graph src dst paths h path hpath
    cases h
    rcases List.mem_append.mp hpath with hdirect | hpath
    · split at hdirect
      · rename_i hlink
        obtain rfl := List.mem_singleton.mp hdirect
        exact ⟨rfl, rfl, by simpa using hlink.2, .cons_cons hlink.1 (.singleton dst)⟩
      · cases hdirect
    · obtain ⟨middle, hmiddle, rfl⟩ := List.mem_map.mp hpath
      simp only [List.mem_filter, decide_eq_true_eq] at hmiddle
      obtain ⟨-, hends, hsrc, hdst, hfirst, hsecond⟩ := hmiddle
      exact ⟨rfl, rfl, by simp [hends, hsrc.symm, hdst], .cons_cons hfirst (.cons_cons hsecond
        (.singleton dst))⟩
  shortestSimplePaths_no_keyError := by
    intro graph src dst
    simp
  items := id
  items_perm := insertionOrder_perm

/-- The links of the fan: switches 1 and 2 through one of the switches 3 to 7. -/
def fanPeer : Peer := fun node port ↦
  if node = 1 ∧ 13 ≤ port ∧ port ≤ 17 then some (port - 10, 1)
  else if node = 2 ∧ 13 ≤ port ∧ port ≤ 17 then some (port - 10, 2)
  else if 3 ≤ node ∧ node ≤ 7 ∧ port = 1 then some (1, 10 + node)
  else if 3 ≤ node ∧ node ≤ 7 ∧ port = 2 then some (2, 10 + node)
  else none

theorem switchEnterHandler_adjacency (topo : TopologyState) (switch : Dpid) :
    (switchEnterHandler topo switch).adjacency = topo.adjacency := by
  unfold switchEnterHandler
  split
  · rfl
  · rfl

theorem fanTopology_bound {u v : ℕ} {port : Port} (h : fanTopology.adjacency u v = some port) :
    u < 8 ∧ v < 8 := by
  by_contra hother
  have hends : ∀ a b, a < 8 → b < 8 → ¬ (u = a ∧ v = b) := by omega
  simp only [fanTopology, List.map_cons, List.map_nil, List.flatMap_cons, List.flatMap_nil,
    List.cons_append, List.nil_append, List.append_nil, List.foldl_cons, List.foldl_nil,
    handleEvent, linkAddHandler, setAdjacency_adjacency, switchEnterHandler_adjacency] at h
  simp (disch := decide) only [hends, if_false] at h
  cases h

theorem fanTopology_access {node : Dpid} (hnode : node = 1 ∨ node = 2) :
    AccessSwitch fanTopology fanPeer node where
  daemon_port := by
    have hports : ∀ u < 3, ∀ v < 8, ∀ port ∈ fanTopology.adjacency u v, port ≠ 1 ∧ port ≠ 2 := by
      decide +kernel
    intro v port hport
    exact hports node (by rcases hnode with rfl | rfl <;> decide) v (fanTopology_bound hport).2
      port hport
  leaves := by
    rcases hnode with rfl | rfl
    · rfl
    · rfl

theorem fanTopology_wired : WiredAs fanTopology fanPeer where
  link := by
    have hlinks : ∀ u < 8, ∀ v < 8, ∀ p ∈ fanTopology.adjacency u v,
        ∀ q ∈ fanTopology.adjacency v u, fanPeer u p = some (v, q) := by
      decide +kernel
    intro u v p q hp hq
    exact hlinks u (fanTopology_bound hp).1 v (fanTopology_bound hp).2 p hp q hq
  distinct := by
    have hports : ∀ u < 8, ∀ v < 8, ∀ w < 8, ∀ p ∈ fanTopology.adjacency u v,
        fanTopology.adjacency u w = some p → v = w := by
      decide +kernel
    intro u v w p hv hw
    exact hports u (fanTopology_bound hv).1 v (fanTopology_bound hv).2 w (fanTopology_bound hw).2
      p hv hw

theorem fanCall_completed :
    (installPaths fanPaths fanTopology pairCall [1, 0, 0, 0, 0]).result = .ok 13 := by
  decide +kernel

/-- The install between the hosts on ports 4. -/
def fanDone : CompletedCall fanPaths fanTopology :=
  ⟨pairCall, [1, 0, 0, 0, 0], 13, fanCall_completed⟩

/-- Before it, an install for the same hosts the other way, and one for two hosts on ports 5. -/
def fanBefore : List (CompletedCall fanPaths fanTopology) :=
  [⟨⟨2, 4, 1, 4, 0x0A000002, 0x0A000001, 0x020000000002, 0x020000000001⟩, [2, 0, 1, 0, 0], 13,
      by decide +kernel⟩,
    ⟨⟨1, 5, 2, 5, 0x0A000003, 0x0A000004, 0x020000000003, 0x020000000004⟩, [3, 0, 0, 1, 0], 13,
      by decide +kernel⟩]

/-- After it, one between hosts of both pairs. -/
def fanAfter : List (CompletedCall fanPaths fanTopology) :=
  [⟨⟨2, 5, 1, 4, 0x0A000004, 0x0A000001, 0x020000000004, 0x020000000001⟩, [4, 0, 1, 0, 0], 13,
    by decide +kernel⟩]

theorem fanPaths_found : getPaths fanPaths fanTopology 1 2 =
    .ok [[1, 3, 2], [1, 4, 2], [1, 5, 2], [1, 6, 2], [1, 7, 2]] := by
  decide +kernel

/-- Of the packets of the second group, the one with the third id goes through switch 5, and its
mirror through another switch. -/
theorem tagged_forwarding_fan :
    Travels (tableOf (messagesOf (fanBefore ++ fanDone :: fanAfter))) fanPeer
        ⟨0x020000000001, 0x020000000002, 0x8100, 0x8100, some 0x1013, none, none, false⟩
        1 2 [1, 5, 2] 2 1 ∧
      ∃ mirror ≠ [1, 5, 2],
        Travels (tableOf (messagesOf (fanBefore ++ fanDone :: fanAfter))) fanPeer
          ⟨0x020000000001, 0x020000000002, 0x8100, 0x8100, some 0x1113, none, none, false⟩
          1 2 mirror 2 1 := by
  obtain ⟨paths, pathsWithPorts, mirrors, hpaths, -, -, -, htravels⟩ :=
    tagged_forwarding fanPaths fanTopology fanPeer fanTopology_wired fanBefore fanAfter fanDone
      (fanTopology_access (.inl rfl)) (fanTopology_access (.inr rfl)) (by decide) (by decide)
      (by decide)
  cases hpaths.symm.trans fanPaths_found
  obtain ⟨mirror, -, -, -, -, hother, hframes⟩ := htravels 2 [1, 5, 2] rfl
  refine ⟨(hframes 1 (by decide) _ rfl rfl rfl).1 rfl, mirror, hother (by decide), ?_⟩
  exact (hframes 1 (by decide) _ rfl rfl rfl).2 rfl

end Wispr.Controller.Forwarding
