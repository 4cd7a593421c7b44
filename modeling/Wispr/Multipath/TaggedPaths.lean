import Wispr.Controller.Backward
import Wispr.Controller.Tags
import Wispr.Multipath.Cycles

/-!
# Tagged paths of the third controller

`install_paths` of `ryu_multipath_3.py`. It takes the three cheapest paths and installs VLAN rules
in one direction only; its caller installs the other direction by a second call. The rules of a path
are installed for all groups, those of its mirror for the first group.

So the daemon and this controller disagree. A copy that the daemon sends in its second group has no
rule anywhere, and the fourth and fifth of its packet numbers have none in any group.
-/

open Wispr.Foundation.Effects Wispr.Foundation.FlowTable

namespace Wispr.Multipath.TaggedPaths

open Controller.Paths Controller.PortMaps Controller.Forwarding Controller.Backward Controller.Tags
open Controller.Install hiding nodeFlows installLoop installPaths
open Daemon.Proto Search

/-- `MAX_GROUP`; the loop over the groups stops before it. -/
def maxGroup3 : ℕ := 0x3

/-- What Python leaves open: the orders of iteration over sets and dictionaries. -/
structure Iteration (topo : TopologyState) where
  sets : SetOrder
  iterates : sets.Iterates topo
  items : PathPorts → PathPorts
  items_perm : ∀ dictionary, (items dictionary).Perm dictionary

/-- The loop over the groups, with the rule of the switch for each id. -/
def groupFlows (call : InstallCall) (vlan : ℕ) (node : Dpid) (inPort outPort : Port) :
    List FlowMod :=
  (List.range maxGroup3).map fun x ↦ forwardRule call node inPort outPort (vlan + 0x10 * x)

/-- Everything sent to one switch of an original path. -/
def nodeFlows (call : InstallCall) (firstPath : Bool) (vlan : ℕ) (node : Dpid)
    (inPort outPort : Port) : List FlowMod :=
  (if firstPath then [⟨1, arpMatch inPort call.ipSrc call.ipDst, [.port outPort]⟩] else []) ++
    if node = call.src then
      ⟨2, ipv4Match inPort call.ipSrc call.ipDst, [.port 1]⟩ ::
        groupFlows call vlan node inPort outPort
    else if node = call.dst then
      groupFlows call vlan node inPort outPort ++
        [⟨2, ipv4Match 2 call.ipSrc call.ipDst, [.port outPort]⟩]
    else groupFlows call vlan node inPort outPort

/-- The rule sent to one switch of a mirror path. -/
def mirrorFlows (call : InstallCall) (mirrIorvlan : ℕ) (node : Dpid) (inPort outPort : Port) :
    List FlowMod :=
  [forwardRule call node inPort outPort mirrIorvlan]

variable {topo : TopologyState}

/-- The loop over the paths. -/
def installLoop (iteration : Iteration topo) (call : InstallCall)
    (pathsWithPorts : List PathPorts) :
    Bool → ℕ → ℕ → List PathPorts → List ℕ → Logged (Dpid × FlowMod) PyExc (List ℕ)
  | _, _, _, [], draws => pure draws
  | firstPath, vlan, mirrIorvlan, path :: rest, draws => do
      installNodes topo (nodeFlows call firstPath vlan) (iteration.items path)
      let (mirror, draws) ← .ofExcept (chooseMirror pathsWithPorts path draws)
      installNodes topo (mirrorFlows call mirrIorvlan) (iteration.items mirror)
      installLoop iteration call pathsWithPorts false (vlan + 1) (mirrIorvlan + 1) rest draws

/-- `install_paths`, with the random numbers it draws, for at most `fuel` iterations of the path
search. -/
def installPaths (iteration : Iteration topo) (fuel : ℕ) (call : InstallCall) (draws : List ℕ) :
    Logged (Dpid × FlowMod) PyExc Port := do
  let paths ← .ofExcept (getOptimalPaths3 topo iteration.sets fuel call.src call.dst)
  let _pw ← .ofExcept (paths.mapM (getPathCost topo))
  let pathsWithPorts ← .ofExcept (addPortsToPaths topo paths call.firstPort call.lastPort)
  let _draws ← installLoop iteration call pathsWithPorts true 0x1001 0x1101 pathsWithPorts draws
  .ofExcept (firstOutPort pathsWithPorts call.src)

/-- The messages of a completed loop: for each path its own rules, and those of its mirror. -/
theorem installLoop_ok {iteration : Iteration topo} {call : InstallCall}
    {pathsWithPorts : List PathPorts} {firstPath : Bool} {vlan mirrIorvlan : ℕ}
    {paths : List PathPorts} {draws rest : List ℕ}
    (h : (installLoop iteration call pathsWithPorts firstPath vlan mirrIorvlan paths draws).result =
      .ok rest) :
    ∃ mirrors, drawMirrors pathsWithPorts paths draws = .ok mirrors ∧
      ∀ message : Dpid × FlowMod,
        message ∈ (installLoop iteration call pathsWithPorts firstPath vlan mirrIorvlan paths
            draws).log ↔
          ∃ (k : ℕ) (path mirror : PathPorts), paths[k]? = some path ∧ mirrors[k]? = some mirror ∧
            (message ∈ pathMessages (nodeFlows call (firstPath && decide (k = 0)) (vlan + k)) path ∨
              message ∈ pathMessages (mirrorFlows call (mirrIorvlan + k)) mirror) := by
  induction paths generalizing firstPath vlan mirrIorvlan draws with
  | nil => exact ⟨[], rfl, by simp [installLoop]⟩
  | cons path others ih =>
    obtain ⟨_, horiginal, hchoose, hlog₁⟩ := Logged.bind_ok h
    obtain ⟨⟨mirror, draws'⟩, hmirror, hinstall, hlog₂⟩ := Logged.bind_ok hchoose
    obtain ⟨_, hmirrored, hothers, hlog₃⟩ := Logged.bind_ok hinstall
    obtain ⟨mirrors, hdrawn, hmessages⟩ := ih hothers
    refine ⟨mirror :: mirrors, ?_, ?_⟩
    · rw [Logged.ofExcept_result] at hmirror
      simp only [drawMirrors, hmirror, hdrawn, bind, Except.bind, pure, Except.pure]
    · intro message
      rw [installLoop, hlog₁, hlog₂, hlog₃, installNodes_log horiginal, installNodes_log hmirrored]
      simp only [Logged.ofExcept_log, List.nil_append, List.mem_append, hmessages,
        pathMessages_perm (iteration.items_perm _)]
      constructor
      · rintro (hown | hmirrorMessage | ⟨k, path', mirror', hpath, hmirror', hmessage⟩)
        · exact ⟨0, path, mirror, rfl, rfl, .inl (by simpa using hown)⟩
        · exact ⟨0, path, mirror, rfl, rfl, .inr hmirrorMessage⟩
        · refine ⟨k + 1, path', mirror', hpath, hmirror', ?_⟩
          simpa [Nat.add_assoc, Nat.add_comm 1 k] using hmessage
      · rintro ⟨k, path', mirror', hpath, hmirror', hmessage⟩
        cases k with
        | zero =>
          simp only [List.getElem?_cons_zero, Option.some.injEq] at hpath hmirror'
          subst hpath hmirror'
          rcases hmessage with hown | hmirrorMessage
          · exact .inl (by simpa using hown)
          · exact .inr (.inl hmirrorMessage)
        | succ k =>
          refine .inr (.inr ⟨k, path', mirror', hpath, hmirror', ?_⟩)
          simpa [Nat.add_assoc, Nat.add_comm 1 k] using hmessage

/-- A completed call of `install_paths`, on the topology known at its time. -/
structure CompletedInstall where
  topo : TopologyState
  switches : Finset Dpid
  within : Within topo switches
  iteration : Iteration topo
  fuel : ℕ
  call : InstallCall
  draws : List ℕ
  outPort : Port
  completed : (installPaths iteration fuel call draws).result = .ok outPort

def CompletedInstall.messages (done : CompletedInstall) : List (Dpid × FlowMod) :=
  (installPaths done.iteration done.fuel done.call done.draws).log

/-- All messages of a sequence of calls. -/
def messagesOf (calls : List CompletedInstall) : List (Dpid × FlowMod) :=
  calls.flatMap CompletedInstall.messages

/-- The number of groups that have rules, for the paths and for their mirrors. -/
def groupsOf (mode : ℕ) : ℕ := if mode = 0 then maxGroup3 else 1

theorem mem_groupFlows {call : InstallCall} {vlan : ℕ} {node : Dpid} {inPort outPort : Port}
    {flow : FlowMod} : flow ∈ groupFlows call vlan node inPort outPort ↔
      ∃ x < maxGroup3, flow = forwardRule call node inPort outPort (vlan + 0x10 * x) := by
  simp only [groupFlows, List.mem_map, List.mem_range, eq_comm]

theorem mem_nodeFlows {call : InstallCall} {firstPath : Bool} {vlan : ℕ} {node : Dpid}
    {inPort outPort : Port} {flow : FlowMod}
    (h : flow ∈ groupFlows call vlan node inPort outPort) :
    flow ∈ nodeFlows call firstPath vlan node inPort outPort := by
  refine List.mem_append_right _ ?_
  split
  · exact List.mem_cons_of_mem _ h
  · split
    · exact List.mem_append_left _ h
    · exact h

theorem forwardRule_mem_nodeFlows (call : InstallCall) (firstPath : Bool) (vlan : ℕ) (node : Dpid)
    (inPort outPort : Port) {x : ℕ} (hx : x ≤ maxGroup) :
    forwardRule call node inPort outPort (vlan + 0x10 * x) ∈
      Controller.Install.nodeFlows call firstPath vlan node inPort outPort :=
  List.mem_append_right _ (mem_vlanFlows.mpr ⟨x, hx, forwardRule_mem ..⟩)

/-- The rules of this controller are some of those of `ryu_multipath.py`. -/
theorem nodeFlows_subset {call : InstallCall} {firstPath : Bool} {vlan : ℕ} {node : Dpid}
    {inPort outPort : Port} {flow : FlowMod}
    (h : flow ∈ nodeFlows call firstPath vlan node inPort outPort) :
    flow ∈ Controller.Install.nodeFlows call firstPath vlan node inPort outPort ∧
      (flow.condition.ethType = some 0x8100 → flow ∈ groupFlows call vlan node inPort outPort) := by
  have hgroups : flow ∈ groupFlows call vlan node inPort outPort →
      flow ∈ Controller.Install.nodeFlows call firstPath vlan node inPort outPort := by
    intro hflow
    obtain ⟨x, hx, rfl⟩ := mem_groupFlows.mp hflow
    exact forwardRule_mem_nodeFlows _ _ _ _ _ _ (Nat.lt_succ_iff.mp hx)
  rcases List.mem_append.mp h with harp | hrest
  · split at harp
    · obtain rfl := List.mem_singleton.mp harp
      refine ⟨List.mem_append_left _ (List.mem_append_left _ ?_), by simp [arpMatch]⟩
      rw [if_pos (by assumption)]
      exact List.mem_cons_self ..
    · cases harp
  · split at hrest
    · rename_i hsrc
      rcases List.mem_cons.mp hrest with rfl | hflow
      · refine ⟨List.mem_append_left _ (List.mem_append_right _ ?_), by simp [ipv4Match]⟩
        rw [ipv4Flows, if_pos hsrc]
        exact List.mem_cons_self ..
      · exact ⟨hgroups hflow, fun _ ↦ hflow⟩
    · rename_i hsrc
      split at hrest
      · rename_i hdst
        rcases List.mem_append.mp hrest with hflow | hflow
        · exact ⟨hgroups hflow, fun _ ↦ hflow⟩
        · obtain rfl := List.mem_singleton.mp hflow
          refine ⟨List.mem_append_left _ (List.mem_append_right _ ?_), by simp [ipv4Match]⟩
          rw [ipv4Flows, if_neg hsrc, if_pos hdst]
          exact List.mem_cons_self ..
      · exact ⟨hgroups hrest, fun _ ↦ hrest⟩

theorem forwardRule_condition (call : InstallCall) (node : Dpid) (inPort outPort : Port)
    (vlanVid : ℕ) : ∃ port, (forwardRule call node inPort outPort vlanVid).condition =
      vlanMatch port call.dstMac call.srcMac vlanVid := by
  unfold forwardRule
  split
  · exact ⟨2, rfl⟩
  · split
    · exact ⟨inPort, rfl⟩
    · exact ⟨inPort, rfl⟩

theorem forwardRule_priority (call : InstallCall) (node : Dpid) (inPort outPort : Port)
    (vlanVid : ℕ) : (forwardRule call node inPort outPort vlanVid).priority = 3 :=
  (vlanPair_condition (forwardRule_mem call node inPort outPort vlanVid)).1

theorem nodeFlows_priority {call : InstallCall} {firstPath : Bool} {vlan : ℕ} {node : Dpid}
    {inPort outPort : Port} {flow : FlowMod}
    (h : flow ∈ nodeFlows call firstPath vlan node inPort outPort) : 0 < flow.priority := by
  have hgroups : flow ∈ groupFlows call vlan node inPort outPort → 0 < flow.priority := by
    intro hflow
    obtain ⟨x, -, rfl⟩ := mem_groupFlows.mp hflow
    exact forwardRule_priority .. ▸ Nat.succ_pos 2
  rcases List.mem_append.mp h with harp | hrest
  · split at harp
    · rw [List.mem_singleton.mp harp]
      exact Nat.one_pos
    · cases harp
  · split at hrest
    · rcases List.mem_cons.mp hrest with rfl | hflow
      · exact Nat.two_pos
      · exact hgroups hflow
    · split at hrest
      · rcases List.mem_append.mp hrest with hflow | hflow
        · exact hgroups hflow
        · rw [List.mem_singleton.mp hflow]
          exact Nat.two_pos
      · exact hgroups hrest

/-- What a completed call has computed and sent. -/
structure Installed (done : CompletedInstall) (paths : List (List Dpid))
    (pathsWithPorts mirrors : List PathPorts) : Prop where
  search : getOptimalPaths3 done.topo done.iteration.sets done.fuel done.call.src done.call.dst =
    .ok paths
  simple : ∀ path ∈ paths, AdjacencyPath done.topo done.call.src done.call.dst path
  length_le : paths.length ≤ maxPaths3
  along : List.Forall₂ (PortsAlong done.topo done.call.lastPort done.call.firstPort) paths
    pathsWithPorts
  drawn : drawMirrors pathsWithPorts pathsWithPorts done.draws = .ok mirrors
  mem_log : ∀ message : Dpid × FlowMod, message ∈ done.messages ↔
    ∃ (k : ℕ) (path mirror : PathPorts), pathsWithPorts[k]? = some path ∧
      mirrors[k]? = some mirror ∧
      (message ∈ pathMessages (nodeFlows done.call (decide (k = 0)) (0x1001 + k)) path ∨
        message ∈ pathMessages (mirrorFlows done.call (0x1101 + k)) mirror)

theorem getOptimalPaths_length {order : SetOrder} {maxPaths fuel : ℕ} {src dst : Dpid}
    {optimal : List (List Dpid)}
    (h : getOptimalPaths topo order maxPaths fuel src dst = .ok optimal) :
    optimal.length ≤ maxPaths := by
  obtain ⟨paths, sorted, -, -, rfl⟩ := getOptimalPaths_parts h
  rw [List.length_take]
  split
  · omega
  · omega

theorem exists_installed (done : CompletedInstall) :
    ∃ paths pathsWithPorts mirrors, Installed done paths pathsWithPorts mirrors := by
  obtain ⟨paths, hpaths, hcosts, hlog₁⟩ := Logged.bind_ok done.completed
  obtain ⟨costs, -, hports, hlog₂⟩ := Logged.bind_ok hcosts
  obtain ⟨pathsWithPorts, hpathsWithPorts, hloop, hlog₃⟩ := Logged.bind_ok hports
  obtain ⟨rest, hrest, -, hlog₄⟩ := Logged.bind_ok hloop
  obtain ⟨mirrors, hdrawn, hmessages⟩ := installLoop_ok hrest
  obtain ⟨-, hsimple, -⟩ := getOptimalPaths_ok done.iteration.iterates done.within hpaths
  obtain ⟨dictionaries, hdictionaries, halong⟩ :=
    addPortsToPaths_portsAlong hsimple done.call.firstPort done.call.lastPort
  cases hdictionaries.symm.trans hpathsWithPorts
  refine ⟨paths, pathsWithPorts, mirrors, hpaths, hsimple, getOptimalPaths_length hpaths, halong,
    hdrawn, ?_⟩
  intro message
  rw [CompletedInstall.messages, installPaths, hlog₁, hlog₂, hlog₃, hlog₄]
  simpa using hmessages message

section Installed

variable {done : CompletedInstall} {paths : List (List Dpid)}
  {pathsWithPorts mirrors : List PathPorts}

theorem Installed.mirrors_length (h : Installed done paths pathsWithPorts mirrors) :
    mirrors.length = pathsWithPorts.length := (drawMirrors_ok h.drawn).length_eq.symm

theorem Installed.routes_length (h : Installed done paths pathsWithPorts mirrors) (mode : ℕ) :
    (routes pathsWithPorts mirrors mode).length = paths.length := by
  unfold routes
  split
  · exact h.along.length_eq.symm
  · exact h.mirrors_length.trans h.along.length_eq.symm

/-- The VLAN rules of a completed call, by mode, path, group and switch. -/
theorem Installed.mem_vlan (h : Installed done paths pathsWithPorts mirrors) {node : Dpid}
    {flow : FlowMod} (htype : flow.condition.ethType = some 0x8100) :
    (node, flow) ∈ done.messages ↔ ∃ mode ≤ 1, ∃ (k : ℕ) (ports : PathPorts),
      (routes pathsWithPorts mirrors mode)[k]? = some ports ∧
      ∃ inPort outPort, (node, inPort, outPort) ∈ ports ∧ ∃ x < groupsOf mode,
        flow = forwardRule done.call node inPort outPort (taggedVid mode x k) := by
  have hvid₀ : ∀ k x, 0x1001 + k + 0x10 * x = taggedVid 0 x k := by
    intro k x
    simp only [taggedVid]
    omega
  have hvid₁ : ∀ k, 0x1101 + k = taggedVid 1 0 k := by
    intro k
    simp only [taggedVid]
    omega
  rw [h.mem_log]
  constructor
  · rintro ⟨k, path, mirror, hpath, hmirror, hmessage | hmessage⟩
    · obtain ⟨inPort, outPort, hitem, hflow⟩ := mem_pathMessages.mp hmessage
      obtain ⟨x, hx, hrule⟩ := mem_groupFlows.mp ((nodeFlows_subset hflow).2 htype)
      exact ⟨0, Nat.zero_le 1, k, path, hpath, inPort, outPort, hitem, x, hx, hvid₀ k x ▸ hrule⟩
    · obtain ⟨inPort, outPort, hitem, hflow⟩ := mem_pathMessages.mp hmessage
      exact ⟨1, le_rfl, k, mirror, hmirror, inPort, outPort, hitem, 0, Nat.zero_lt_one,
        hvid₁ k ▸ List.mem_singleton.mp hflow⟩
  · rintro ⟨mode, hmode, k, ports, hports, inPort, outPort, hitem, x, hx, hrule⟩
    have hk : k < pathsWithPorts.length := by
      rw [← h.along.length_eq, ← h.routes_length mode]
      exact (List.getElem?_eq_some_iff.mp hports).1
    have hk' : k < mirrors.length := h.mirrors_length ▸ hk
    refine ⟨k, pathsWithPorts[k], mirrors[k], List.getElem?_eq_getElem hk,
      List.getElem?_eq_getElem hk', ?_⟩
    rcases Nat.le_one_iff_eq_zero_or_eq_one.mp hmode with rfl | rfl
    · left
      obtain rfl : pathsWithPorts[k] = ports :=
        Option.some.inj ((List.getElem?_eq_getElem hk).symm.trans hports)
      refine mem_pathMessages.mpr ⟨inPort, outPort, hitem, mem_nodeFlows ?_⟩
      exact mem_groupFlows.mpr ⟨x, hx, (hvid₀ k x).symm ▸ hrule⟩
    · right
      obtain rfl : mirrors[k] = ports :=
        Option.some.inj ((List.getElem?_eq_getElem hk').symm.trans hports)
      obtain rfl : x = 0 := Nat.lt_one_iff.mp hx
      exact mem_pathMessages.mpr ⟨inPort, outPort, hitem,
        List.mem_singleton.mpr ((hvid₁ k).symm ▸ hrule)⟩

/-- A rule that accepts a double-tagged frame is the one for its addresses, id and port. -/
theorem Installed.accepts_tagged (h : Installed done paths pathsWithPorts mirrors) {node : Dpid}
    {flow : FlowMod} (hflow : (node, flow) ∈ done.messages) {port : Port} {packet : Packet}
    {vlanVid : ℕ} (htype : packet.ethType = 0x8100) (hvid : packet.vlanVid = some vlanVid)
    (haccepts : flow.condition.accepts (port, packet) = true) :
    flow.priority = 3 ∧ flow.condition = vlanMatch port packet.ethDst packet.ethSrc vlanVid := by
  obtain ⟨k, path, mirror, -, -, hmessage | hmessage⟩ := (h.mem_log _).mp hflow
  · obtain ⟨inPort, outPort, -, hnode⟩ := mem_pathMessages.mp hmessage
    exact accepts_doubleTagged (nodeFlows_subset hnode).1 htype hvid haccepts
  · obtain ⟨inPort, outPort, -, hnode⟩ := mem_pathMessages.mp hmessage
    have hrule : flow = forwardRule done.call node inPort outPort (0x1101 + k) :=
      List.mem_singleton.mp hnode
    rw [hrule] at haccepts ⊢
    exact accepts_doubleTagged (forwardRule_mem_nodeFlows _ false _ _ _ _ (Nat.zero_le maxGroup))
      htype hvid haccepts

theorem Installed.priority_pos (h : Installed done paths pathsWithPorts mirrors) {node : Dpid}
    {flow : FlowMod} (hflow : (node, flow) ∈ done.messages) : 0 < flow.priority := by
  obtain ⟨k, path, mirror, -, -, hmessage | hmessage⟩ := (h.mem_log _).mp hflow
  · obtain ⟨inPort, outPort, -, hnode⟩ := mem_pathMessages.mp hmessage
    exact nodeFlows_priority hnode
  · obtain ⟨inPort, outPort, -, hnode⟩ := mem_pathMessages.mp hmessage
    have hrule : flow = forwardRule done.call node inPort outPort (0x1101 + k) :=
      List.mem_singleton.mp hnode
    rw [hrule, forwardRule_priority]
    exact Nat.succ_pos 2

/-- Every VLAN rule of an install has an id of one of its routes. -/
theorem Installed.vid_of_condition (h : Installed done paths pathsWithPorts mirrors) {node : Dpid}
    {flow : FlowMod} (hflow : (node, flow) ∈ done.messages) {port : Port} {ethDst ethSrc : Mac}
    {vlanVid : ℕ} (hcondition : flow.condition = vlanMatch port ethDst ethSrc vlanVid) :
    ethDst = done.call.dstMac ∧ ethSrc = done.call.srcMac ∧ ∃ mode ≤ 1, ∃ (k : ℕ)
      (ports : PathPorts), (routes pathsWithPorts mirrors mode)[k]? = some ports ∧
      ∃ inPort outPort, (node, inPort, outPort) ∈ ports ∧ ∃ x < groupsOf mode,
        vlanVid = taggedVid mode x k ∧
        flow = forwardRule done.call node inPort outPort vlanVid := by
  obtain ⟨mode, hmode, k, ports, hports, inPort, outPort, hitem, x, hx, hrule⟩ :=
    (h.mem_vlan (by rw [hcondition]; rfl)).mp hflow
  obtain ⟨entry, hentry⟩ :=
    forwardRule_condition done.call node inPort outPort (taggedVid mode x k)
  rw [← hrule, hcondition] at hentry
  simp only [vlanMatch, OFPMatch.mk.injEq, Option.some.injEq] at hentry
  obtain ⟨-, hdst, hsrc, -, hvid, -⟩ := hentry
  exact ⟨hdst, hsrc, mode, hmode, k, ports, hports, inPort, outPort, hitem, x, hx, hvid,
    hvid ▸ hrule⟩

theorem groupsOf_le (mode : ℕ) : groupsOf mode ≤ maxGroup + 1 := by
  unfold groupsOf
  split
  · exact le_rfl
  · decide

/-! ## Routes -/

/-- All writes of an install to the entry of a route come from that route and agree. -/
theorem Installed.writes_agree (h : Installed done paths pathsWithPorts mirrors) {mode k x : ℕ}
    (hx : x < groupsOf mode) {ports : PathPorts} {node : Dpid} {inPort outPort : Port}
    (hroute : OnRoute pathsWithPorts mirrors mode k ports node inPort outPort) {entry : Port}
    {flow : FlowMod} (hflow : (node, flow) ∈ done.messages)
    (hcondition : flow.condition =
      vlanMatch entry done.call.dstMac done.call.srcMac (taggedVid mode x k)) :
    flow = forwardRule done.call node inPort outPort (taggedVid mode x k) := by
  obtain ⟨-, -, mode', -, k', ports', hports', inPort', outPort', hitem', x', hx', hvid, hrule⟩ :=
    h.vid_of_condition hflow hcondition
  have hindex : ∀ {mode k ports}, (routes pathsWithPorts mirrors mode)[k]? = some ports →
      k < maxPaths := by
    intro mode k ports hports
    have hbound := (List.getElem?_eq_some_iff.mp hports).1.trans_le
      ((h.routes_length mode).trans_le h.length_le)
    exact hbound.trans_le (by decide)
  have hgroup : ∀ {mode x}, x < groupsOf mode → x ≤ maxGroup :=
    fun hx ↦ Nat.lt_succ_iff.mp (hx.trans_le (groupsOf_le _))
  obtain ⟨rfl, rfl, rfl⟩ := taggedVid_injective (hgroup hx) (hgroup hx') (hindex hroute.route)
    (hindex hports') hvid
  cases hports'.symm.trans hroute.route
  have hunique := List.inj_on_of_nodup_map hroute.nodup hitem' hroute.item rfl
  simp only [Prod.mk.injEq, true_and] at hunique
  rw [hrule, hunique.1, hunique.2]

variable {before after : List CompletedInstall}

/-- What a switch on a route of the last install for a source and a destination does with a frame
that carries the route's tag. -/
theorem Installed.forwardsTo (h : Installed done paths pathsWithPorts mirrors)
    (hlast : ∀ later ∈ after, (later.call.srcMac, later.call.dstMac) ≠
      (done.call.srcMac, done.call.dstMac))
    {mode k x : ℕ} (hx : x < groupsOf mode) {ports : PathPorts} {node : Dpid}
    {inPort outPort : Port}
    (hroute : OnRoute pathsWithPorts mirrors mode k ports node inPort outPort) {entry exit : Port}
    (hrule : forwardRule done.call node inPort outPort (taggedVid mode x k) =
      ⟨3, vlanMatch entry done.call.dstMac done.call.srcMac (taggedVid mode x k), [.port exit]⟩)
    (hdiffer : exit ≠ entry) {packet : Packet} (htype : packet.ethType = 0x8100)
    (hsrc : packet.ethSrc = done.call.srcMac) (hdst : packet.ethDst = done.call.dstMac)
    (hvid : packet.vlanVid = some (taggedVid mode x k)) :
    ForwardsTo (tableOf (messagesOf (before ++ done :: after)) node) entry packet exit := by
  have hsplit : messagesOf (before ++ done :: after) =
      messagesOf before ++ done.messages ++ messagesOf after := by
    simp [messagesOf]
  have honly : ∀ flow, (node, flow) ∈ messagesOf (before ++ done :: after) →
      flow.condition.accepts (entry, packet) = true → flow.priority = 3 ∧
        flow.condition =
          vlanMatch entry done.call.dstMac done.call.srcMac (taggedVid mode x k) := by
    intro flow hflow haccepts
    obtain ⟨other, -, hmessage⟩ := List.mem_flatMap.mp hflow
    obtain ⟨_, _, _, hother⟩ := exists_installed other
    have hentry := hother.accepts_tagged hmessage htype hvid haccepts
    rwa [hsrc, hdst] at hentry
  rw [hsplit] at honly ⊢
  refine forwardsTo_of_writes
    ((h.mem_vlan rfl).mpr ⟨mode, hroute.mode_le, k, ports, hroute.route, inPort, outPort,
      hroute.item, x, hx, hrule.symm⟩) rfl (by decide : 0 < 3) ?_ ?_ ?_ honly hdiffer
  · simp [OFPMatch.accepts, fieldAccepts, vlanMatch, htype, hsrc, hdst, hvid]
  · intro flow hflow hsame
    rw [h.writes_agree hx hroute hflow hsame.2, hrule]
  · intro flow hflow hsame
    obtain ⟨later, hlater, hmessage⟩ := List.mem_flatMap.mp hflow
    obtain ⟨_, _, _, hinstalled⟩ := exists_installed later
    obtain ⟨hsameDst, hsameSrc, -⟩ := hinstalled.vid_of_condition hmessage hsame.2
    exact hlast later hlater (by rw [hsameDst, hsameSrc])

/-- A frame that enters the source switch from the daemon follows the route its tag names. -/
theorem Installed.travels (h : Installed done paths pathsWithPorts mirrors)
    (hlast : ∀ later ∈ after, (later.call.srcMac, later.call.dstMac) ≠
      (done.call.srcMac, done.call.dstMac))
    {peer : Peer} (hwired : WiredAs done.topo peer)
    (hsrcAccess : AccessSwitch done.topo peer done.call.src)
    (hdstAccess : AccessSwitch done.topo peer done.call.dst)
    (hends : done.call.src ≠ done.call.dst) {mode k x : ℕ} (hmode : mode ≤ 1)
    (hx : x < groupsOf mode) {path : List Dpid} {ports : PathPorts}
    (hports : (routes pathsWithPorts mirrors mode)[k]? = some ports) (hpath : path ∈ paths)
    (halong : PortsAlong done.topo done.call.lastPort done.call.firstPort path ports)
    {packet : Packet} (htype : packet.ethType = 0x8100) (hsrc : packet.ethSrc = done.call.srcMac)
    (hdst : packet.ethDst = done.call.dstMac) (hvid : packet.vlanVid = some (taggedVid mode x k)) :
    Travels (tableOf (messagesOf (before ++ done :: after))) peer packet done.call.src 2 path
      done.call.dst 1 := by
  have hsimple := h.simple path hpath
  have hnodup : (ports.map Prod.fst).Nodup := halong.keys ▸ hsimple.nodup
  obtain ⟨between, hbetween, hitems⟩ : ∃ between, PortsAlong done.topo 1 2 path between ∧ _ :=
    exists_between halong hsimple.nodup
  refine travels_along hwired hbetween ?_ hsimple.starts hsimple.ends hsimple.nodup
    hdstAccess.leaves (fun next _ hport ↦ (hsrcAccess.daemon_port hport).2 rfl)
    (fun hsame ↦ absurd hsame hends)
  intro node entry exit hitem hdiffer
  obtain ⟨inPort, outPort, hitem, hentry, hexit⟩ := hitems hitem
  simp only [hsimple.starts, hsimple.ends, Option.some.injEq] at hentry hexit
  refine h.forwardsTo hlast hx ⟨hmode, hports, hnodup, hitem⟩ ?_ hdiffer htype hsrc hdst
    hvid
  by_cases hsrcNode : node = done.call.src
  · have hdstNode : done.call.dst ≠ node := fun hsame ↦ hends (hsame.trans hsrcNode).symm
    rw [if_pos hsrcNode.symm] at hentry
    rw [if_neg hdstNode] at hexit
    simp only [forwardRule, hsrcNode, if_true, hentry, hexit]
  · rw [if_neg (Ne.symm hsrcNode)] at hentry
    by_cases hdstNode : node = done.call.dst
    · rw [if_pos hdstNode.symm] at hexit
      simp only [forwardRule, hdstNode, hends.symm, if_true, if_false, hentry, hexit]
    · rw [if_neg (Ne.symm hdstNode)] at hexit
      simp only [forwardRule, hsrcNode, hdstNode, if_false, hentry, hexit]

end Installed

/-- Where no install has a rule for an id, a frame with it meets the table-miss rule only. -/
theorem selected_iff_tableMiss (calls : List CompletedInstall) {packet : Packet} {vlanVid : ℕ}
    (htype : packet.ethType = 0x8100) (hvid : packet.vlanVid = some vlanVid)
    (hnever : ∀ mode ≤ 1, ∀ k < maxPaths3, ∀ x < groupsOf mode, vlanVid ≠ taggedVid mode x k)
    (node : Dpid) (port : Port) (rule : FlowMod) :
    Selected OFPMatch.accepts (tableOf (messagesOf calls) node) (port, packet) rule ↔
      rule = tableMiss := by
  refine selected_iff_of_dominant ?_ rfl ?_ rule
  · refine (mem_addAll_of_untouched ?_).mpr (List.mem_singleton_self _)
    intro flow hflow hsame
    obtain ⟨done, -, hmessage⟩ := List.mem_flatMap.mp (mem_sentTo.mp hflow)
    obtain ⟨paths, pathsWithPorts, mirrors, hinstalled⟩ := exists_installed done
    exact (hinstalled.priority_pos hmessage).ne hsame.1
  · intro flow hflow haccepts
    rcases mem_addAll hflow with hmiss | hsent
    · exact .inr (List.mem_singleton.mp hmiss)
    · obtain ⟨done, -, hmessage⟩ := List.mem_flatMap.mp (mem_sentTo.mp hsent)
      obtain ⟨paths, pathsWithPorts, mirrors, hinstalled⟩ := exists_installed done
      obtain ⟨-, hcondition⟩ := hinstalled.accepts_tagged hmessage htype hvid haccepts
      obtain ⟨-, -, mode, hmode, k, ports, hports, -, -, -, x, hx, hsame, -⟩ :=
        hinstalled.vid_of_condition hmessage hcondition
      have hk := (List.getElem?_eq_some_iff.mp hports).1.trans_le
        ((hinstalled.routes_length mode).trans_le hinstalled.length_le)
      exact absurd hsame (hnever mode hmode k hk x hx)

/-- **The daemon over the third controller.** After any sequence of completed installs, each on a
topology of its own, take the last one from a source to a destination between two access switches,
on a topology wired as the links are. The daemon numbers the packets
of a flow; the original of a packet whose number modulo 5 is below the number of paths follows the
path of that index, and its copy follows another path if there is another, provided that the packet
is of the first group. The copies of the second group, and both frames of every fourth and fifth
packet, meet no rule but the table-miss rule at any switch. -/
theorem third_controller_routing (before after : List CompletedInstall) (done : CompletedInstall)
    (peer : Peer) (hwired : WiredAs done.topo peer)
    (hsrcAccess : AccessSwitch done.topo peer done.call.src)
    (hdstAccess : AccessSwitch done.topo peer done.call.dst) (hends : done.call.src ≠ done.call.dst)
    (hlast : ∀ later ∈ after, (later.call.srcMac, later.call.dstMac) ≠
      (done.call.srcMac, done.call.dstMac)) :
    ∃ paths, getOptimalPaths3 done.topo done.iteration.sets done.fuel done.call.src done.call.dst =
        .ok paths ∧
      ∀ mode ≤ 1, ∀ (number : ℕ) (packet : Packet), packet.ethType = 0x8100 →
        packet.ethSrc = done.call.srcMac → packet.ethDst = done.call.dstMac →
        packet.vlanVid = some (0x1000 + emittedVid wisprBuild mode number) →
        (number % 5 < paths.length → (mode = 1 → number / 5 % 2 = 0) →
          ∃ route ∈ paths, (mode = 0 → paths[number % 5]? = some route) ∧
            (mode = 1 → 1 < paths.length → paths[number % 5]? ≠ some route) ∧
            Travels (tableOf (messagesOf (before ++ done :: after))) peer packet done.call.src 2
              route done.call.dst 1) ∧
        (maxPaths3 ≤ number % 5 ∨ (mode = 1 ∧ number / 5 % 2 = 1) →
          ∀ node port rule, Selected OFPMatch.accepts
              (tableOf (messagesOf (before ++ done :: after)) node) (port, packet) rule ↔
            rule = tableMiss) := by
  obtain ⟨paths, pathsWithPorts, mirrors, h⟩ := exists_installed done
  refine ⟨paths, h.search, ?_⟩
  intro mode hmode number packet htype hsrc hdst hvid
  have hid : 0x1000 + emittedVid wisprBuild mode number =
      taggedVid mode (number / 5 % 2) (number % 5) := by
    simp only [taggedVid, emittedVid, Daemon.Striping.stripeGroup, Daemon.Striping.stripePacket,
      wisprBuild]
    omega
  rw [hid] at hvid
  constructor
  · intro hnumber hgroup
    obtain ⟨route, hroute, ports, hports, halong, hown, hother⟩ :=
      exists_route h.along h.drawn hmode hnumber
    refine ⟨route, hroute, hown, hother, ?_⟩
    have hx : number / 5 % 2 < groupsOf mode := by
      unfold groupsOf
      split
      · exact (Nat.mod_lt _ (by decide)).trans (by decide)
      · rw [hgroup (by omega)]
        exact Nat.one_pos
    exact h.travels hlast hwired hsrcAccess hdstAccess hends hmode hx hports hroute halong
      htype hsrc hdst hvid
  · intro hnone node port rule
    refine selected_iff_tableMiss _ htype hvid ?_ node port rule
    intro mode' hmode' k hk x hx hsame
    have hfew : groupsOf mode' ≤ 3 ∧ (mode' = 1 → groupsOf mode' = 1) := by
      unfold groupsOf
      split
      · exact ⟨le_rfl, by omega⟩
      · exact ⟨by decide, fun _ ↦ rfl⟩
    simp only [taggedVid, maxPaths3] at *
    omega

/-- The links of the triangle, each between the ports that name the other switch. -/
def trianglePeer : Peer := fun node port ↦
  if 3 ≤ port ∧ (Cycles.knownTriangle.adjacency node (port - 2)).isSome then
    some (port - 2, node + 2)
  else none

theorem triangle_port {u v : Dpid} {p : Port}
    (h : Cycles.knownTriangle.adjacency u v = some p) : p = v + 2 ∧ 3 ≤ p := by
  simp only [Cycles.knownTriangle, triangle, Option.ite_none_right_eq_some, Option.some.injEq,
    List.mem_cons, List.not_mem_nil, or_false] at h
  obtain ⟨⟨-, -, hv⟩, rfl⟩ := h
  refine ⟨rfl, ?_⟩
  rcases hv with rfl | rfl | rfl
  · decide
  · decide
  · decide

theorem triangle_wired : WiredAs Cycles.knownTriangle trianglePeer where
  link := by
    intro u v p q h h'
    obtain ⟨rfl, hv⟩ := triangle_port h
    obtain ⟨rfl, -⟩ := triangle_port h'
    rw [trianglePeer, Nat.add_sub_cancel, if_pos ⟨hv, by rw [h]; rfl⟩]
  distinct := by
    intro u v w p h h'
    exact Nat.add_right_cancel ((triangle_port h).1.symm.trans (triangle_port h').1)

theorem triangle_access (node : Dpid) : AccessSwitch Cycles.knownTriangle trianglePeer node where
  daemon_port := by
    intro v p h
    have hport := (triangle_port h).2
    exact ⟨((by decide : 1 < 3).trans_le hport).ne', ((by decide : 2 < 3).trans_le hport).ne'⟩
  leaves := by simp [trianglePeer]

/-- Dictionaries in the order of insertion, sets in increasing order. -/
def triangleIteration : Iteration Cycles.knownTriangle :=
  ⟨triangleOrder, Cycles.triangleOrder_iterates_known, id, fun _ ↦ .refl _⟩

/-- An install from switch 1 to switch 3, between hosts on ports 7 and 8. -/
def taggedCall : InstallCall :=
  ⟨1, 7, 3, 8, 0x0A000001, 0x0A000002, 0x020000000001, 0x020000000002⟩

theorem getOptimalPaths3_triangle :
    getOptimalPaths3 Cycles.knownTriangle triangleOrder 10 1 3 = .ok [[1, 3], [1, 2, 3]] :=
  getOptimalPaths_of_sorted [1, 2] (by decide) rfl (by decide) (by decide)

theorem getOptimalPaths3_back :
    getOptimalPaths3 Cycles.knownTriangle triangleOrder 10 3 1 = .ok [[3, 1], [3, 2, 1]] :=
  getOptimalPaths_of_sorted [1, 2] (by decide) rfl (by decide) (by decide)

/-- The triangle before its direct link from switch 1 to switch 3 is found. -/
def chain : TopologyState where
  __ := Cycles.knownTriangle
  adjacency u v := if u + v = 4 then none else Cycles.knownTriangle.adjacency u v

def chainOrder : SetOrder := fun node path ↦
  (triangleOrder node path).filter fun next ↦ node + next ≠ 4

theorem chainOrder_iterates : chainOrder.Iterates chain where
  nodup _ _ := (Cycles.triangleOrder_iterates_known.nodup _ _).filter _
  mem_iff node path next := by
    rw [chainOrder, List.mem_filter, Cycles.triangleOrder_iterates_known.mem_iff, chain]
    by_cases hmissing : node + next = 4
    · simp [hmissing]
    · simp [hmissing]

theorem within_chain : Within chain (({1, 2, 3} ×ˢ {1, 2, 3} : Finset (Dpid × Dpid)).image
    Prod.snd) := by
  intro u v hlinked
  refine within_links Cycles.finite_knownTriangle u v ?_
  by_cases hmissing : u + v = 4
  · simp [chain, hmissing] at hlinked
  · simpa only [chain, if_neg hmissing] using hlinked

theorem getOptimalPaths3_chain : getOptimalPaths3 chain chainOrder 10 1 3 = .ok [[1, 2, 3]] :=
  getOptimalPaths_of_sorted [2] (by decide) rfl (by decide) (by decide)

/-- The same hosts in the other direction. -/
def returnCall : InstallCall :=
  ⟨3, 8, 1, 7, 0x0A000002, 0x0A000001, 0x020000000002, 0x020000000001⟩

/-- The first install of the pair, over switch 2. -/
def chainInstall : CompletedInstall where
  topo := chain
  switches := _
  within := within_chain
  iteration := ⟨chainOrder, chainOrder_iterates, id, fun _ ↦ .refl _⟩
  fuel := 10
  call := taggedCall
  draws := [0]
  outPort := 4
  completed := by
    rw [installPaths]
    simp only [taggedCall, getOptimalPaths3_chain]
    rfl

/-- The second install of the pair, with the direct link. -/
def taggedInstall : CompletedInstall where
  topo := Cycles.knownTriangle
  switches := _
  within := within_links Cycles.finite_knownTriangle
  iteration := triangleIteration
  fuel := 10
  call := taggedCall
  draws := [1, 0]
  outPort := 5
  completed := by
    rw [installPaths]
    simp only [triangleIteration, taggedCall, getOptimalPaths3_triangle]
    rfl

def returnInstall : CompletedInstall where
  topo := Cycles.knownTriangle
  switches := _
  within := within_links Cycles.finite_knownTriangle
  iteration := triangleIteration
  fuel := 10
  call := returnCall
  draws := [1, 0]
  outPort := 3
  completed := by
    rw [installPaths]
    simp only [triangleIteration, returnCall, getOptimalPaths3_back]
    rfl

def taggedFrame (vlanVid : ℕ) : Packet :=
  ⟨0x020000000001, 0x020000000002, 0x8100, 0x8100, some vlanVid, none, none, false⟩

/-- All messages of the three installs. -/
def triangleMessages : List (Dpid × FlowMod) :=
  messagesOf [chainInstall, taggedInstall, returnInstall]

/-- A pair is installed before the direct link is found, then with it, then in the other direction.
The original of the first packet takes the direct link although the first install had its id on the
way over switch 2; its copy takes that way; the copy of the sixth packet has no rule. -/
theorem third_controller_routing_triangle :
    Travels (tableOf triangleMessages) trianglePeer (taggedFrame 0x1001) 1 2 [1, 3] 3 1 ∧
      Travels (tableOf triangleMessages) trianglePeer (taggedFrame 0x1101) 1 2 [1, 2, 3] 3 1 ∧
      ∀ node port rule, Selected OFPMatch.accepts (tableOf triangleMessages node)
        (port, taggedFrame 0x1111) rule ↔ rule = tableMiss := by
  obtain ⟨paths, hpaths, hrouting⟩ := third_controller_routing [chainInstall] [returnInstall]
    taggedInstall trianglePeer triangle_wired (triangle_access 1) (triangle_access 3) (by decide)
    (by decide)
  cases hpaths.symm.trans getOptimalPaths3_triangle
  refine ⟨?_, ?_, ?_⟩
  · obtain ⟨route, -, hown, -, htravels⟩ :=
      (hrouting 0 Nat.one_pos.le 0 (taggedFrame 0x1001) rfl rfl rfl rfl).1 (by decide) (by decide)
    cases hown rfl
    exact htravels
  · obtain ⟨route, hroute, -, hother, htravels⟩ :=
      (hrouting 1 le_rfl 0 (taggedFrame 0x1101) rfl rfl rfl rfl).1 (by decide) (by decide)
    have hsecond : route = [1, 2, 3] := by
      simp only [List.mem_cons, List.not_mem_nil, or_false] at hroute
      rcases hroute with rfl | rfl
      · exact absurd rfl (hother rfl (by decide))
      · rfl
    rw [← hsecond]
    exact htravels
  · exact (hrouting 1 le_rfl 5 (taggedFrame 0x1111) rfl rfl rfl rfl).2 (by decide)

end Wispr.Multipath.TaggedPaths
