import Wispr.Foundation.Effects
import Wispr.Foundation.FlowTable
import Wispr.Controller.Paths

/-!
# Path installation

`install_paths` of `ryu_multipath.py`: it computes the paths between two switches, draws a mirror
path for each of them, and sends every switch on a path its flow rules. A call logs the flow-mods
it sends; an exception ends the call and leaves the rules sent so far in place.

The rules of one switch depend on its role on the path (source, destination or transit) and are the
same for a path and for its mirror except for the VLAN base. What a completed call has sent is
described by membership: what is stated of its rules does not depend on the order of sending, nor on
the iteration order of the port dictionaries.
-/

open Wispr.Foundation.Effects Wispr.Foundation.FlowTable

namespace Wispr.Controller.Install

open Paths

abbrev Mac := BitVec 48
abbrev Ip := BitVec 32

def maxGroup : ℕ := 0x2

/-- The ARP fields the controller reads. -/
structure ArpHeader where
  opcode : ℕ
  srcIp : Ip
  dstIp : Ip
  deriving DecidableEq, Repr

structure Ipv4Header where
  src : Ip
  dst : Ip
  proto : ℕ
  deriving DecidableEq, Repr

/-- A frame as switches and controller see it. `ethertype` follows the source address and is what
the controller reads; `ethType` is what switches match; `vlanVid` includes the presence bit. -/
structure Packet where
  ethSrc : Mac
  ethDst : Mac
  ethertype : ℕ
  ethType : ℕ
  vlanVid : Option ℕ
  arp : Option ArpHeader
  ipv4 : Option Ipv4Header
  ipv6 : Bool
  deriving DecidableEq, Repr

/-- `OFPMatch`; a field left out matches everything. -/
structure OFPMatch where
  inPort : Option Port := none
  ethDst : Option Mac := none
  ethSrc : Option Mac := none
  ethType : Option ℕ := none
  vlanVid : Option ℕ := none
  arpSpa : Option Ip := none
  arpTpa : Option Ip := none
  ipv4Src : Option Ip := none
  ipv4Dst : Option Ip := none
  ipProto : Option ℕ := none
  deriving DecidableEq, Repr

/-- One field of a match against the packet's value, absent when the packet has no such header. -/
def fieldAccepts {α : Type} [DecidableEq α] (wanted actual : Option α) : Bool :=
  decide (wanted = none ∨ wanted = actual)

def OFPMatch.accepts (condition : OFPMatch) (header : Port × Packet) : Bool :=
  fieldAccepts condition.inPort (some header.1) &&
  fieldAccepts condition.ethDst (some header.2.ethDst) &&
  fieldAccepts condition.ethSrc (some header.2.ethSrc) &&
  fieldAccepts condition.ethType (some header.2.ethType) &&
  fieldAccepts condition.vlanVid header.2.vlanVid &&
  fieldAccepts condition.arpSpa (header.2.arp.map ArpHeader.srcIp) &&
  fieldAccepts condition.arpTpa (header.2.arp.map ArpHeader.dstIp) &&
  fieldAccepts condition.ipv4Src (header.2.ipv4.map Ipv4Header.src) &&
  fieldAccepts condition.ipv4Dst (header.2.ipv4.map Ipv4Header.dst) &&
  fieldAccepts condition.ipProto (header.2.ipv4.map Ipv4Header.proto)

theorem OFPMatch.inPort_of_accepts {condition : OFPMatch} {port arrival : Port} {packet : Packet}
    (hport : condition.inPort = some port)
    (haccepts : condition.accepts (arrival, packet) = true) : port = arrival := by
  simp only [accepts, fieldAccepts, Bool.and_eq_true, decide_eq_true_eq, hport] at haccepts
  obtain ⟨⟨⟨⟨⟨⟨⟨⟨⟨harrival, -⟩, -⟩, -⟩, -⟩, -⟩, -⟩, -⟩, -⟩, -⟩ := haccepts
  simpa using harrival

/-- `OFPActionOutput`. -/
inductive OutPort where
  | port (number : Port)
  | flood
  | controller
  deriving DecidableEq, Repr

abbrev FlowMod := Rule OFPMatch (List OutPort)

/-- The rule of `_switch_features_handler`. -/
def tableMiss : FlowMod := ⟨0, {}, [.controller]⟩

/-- The arguments of `install_paths`. -/
structure InstallCall where
  src : Dpid
  firstPort : Port
  dst : Dpid
  lastPort : Port
  ipSrc : Ip
  ipDst : Ip
  srcMac : Mac
  dstMac : Mac
  deriving DecidableEq, Repr

def arpMatch (inPort : Port) (spa tpa : Ip) : OFPMatch :=
  { inPort := some inPort, ethType := some 0x0806, arpSpa := some spa, arpTpa := some tpa }

def ipv4Match (inPort : Port) (src dst : Ip) : OFPMatch :=
  { inPort := some inPort, ethType := some 0x0800, ipv4Src := some src, ipv4Dst := some dst }

def icmpMatch (inPort : Port) (src dst : Ip) : OFPMatch :=
  { ipv4Match inPort src dst with ipProto := some 1 }

def vlanMatch (inPort : Port) (ethDst ethSrc : Mac) (vlanVid : ℕ) : OFPMatch :=
  { inPort := some inPort, ethDst := some ethDst, ethSrc := some ethSrc, ethType := some 0x8100,
    vlanVid := some vlanVid }

/-- The rules on the first path for ARP. -/
def arpFlows (call : InstallCall) (inPort outPort : Port) : List FlowMod :=
  [⟨1, arpMatch inPort call.ipSrc call.ipDst, [.port outPort]⟩,
    ⟨1, arpMatch outPort call.ipDst call.ipSrc, [.port inPort]⟩]

/-- The rules between host and daemon at the two end switches. -/
def ipv4Flows (call : InstallCall) (node : Dpid) (inPort outPort : Port) : List FlowMod :=
  if node = call.src then
    [⟨2, ipv4Match inPort call.ipSrc call.ipDst, [.port 1]⟩,
      ⟨2, ipv4Match 2 call.ipDst call.ipSrc, [.port inPort]⟩,
      ⟨10, icmpMatch 2 call.ipDst call.ipSrc, [.port inPort]⟩]
  else if node = call.dst then
    [⟨2, ipv4Match 2 call.ipSrc call.ipDst, [.port outPort]⟩,
      ⟨2, ipv4Match outPort call.ipDst call.ipSrc, [.port 1]⟩]
  else []

/-- The rules for one VLAN id, in both directions. -/
def vlanPair (call : InstallCall) (node : Dpid) (inPort outPort : Port) (vlanGroup : ℕ) :
    List FlowMod :=
  if node = call.src then
    [⟨3, vlanMatch 2 call.dstMac call.srcMac vlanGroup, [.port outPort]⟩,
      ⟨3, vlanMatch outPort call.srcMac call.dstMac vlanGroup, [.port 1]⟩]
  else if node = call.dst then
    [⟨3, vlanMatch inPort call.dstMac call.srcMac vlanGroup, [.port 1]⟩,
      ⟨3, vlanMatch 2 call.srcMac call.dstMac vlanGroup, [.port inPort]⟩]
  else
    [⟨3, vlanMatch inPort call.dstMac call.srcMac vlanGroup, [.port outPort]⟩,
      ⟨3, vlanMatch outPort call.srcMac call.dstMac vlanGroup, [.port inPort]⟩]

/-- The loop over the groups. -/
def vlanFlows (call : InstallCall) (vlan : ℕ) (node : Dpid) (inPort outPort : Port) :
    List FlowMod :=
  (List.range (maxGroup + 1)).flatMap fun x ↦ vlanPair call node inPort outPort (vlan + 0x10 * x)

/-- Everything sent to one switch of an original path. -/
def nodeFlows (call : InstallCall) (firstPath : Bool) (vlan : ℕ) (node : Dpid)
    (inPort outPort : Port) : List FlowMod :=
  (if firstPath then arpFlows call inPort outPort else []) ++
    ipv4Flows call node inPort outPort ++ vlanFlows call vlan node inPort outPort

/-- `datapath_list[node]`. -/
def datapath (topo : TopologyState) (node : Dpid) : Except PyExc Unit :=
  if node ∈ topo.datapathList then .ok () else .error .keyError

/-- The loop over the switches of one path. -/
def installNodes (topo : TopologyState) (flows : Dpid → Port → Port → List FlowMod) :
    PathPorts → Logged (Dpid × FlowMod) PyExc Unit
  | [] => pure ()
  | (node, inPort, outPort) :: rest => do
      .ofExcept (datapath topo node)
      .tell ((flows node inPort outPort).map fun flow ↦ (node, flow))
      installNodes topo flows rest

/-- The drawing of the mirror path: `random.choice`, repeated while it gives the path itself and
there is another one. Two dictionaries are equal when they have the same items. -/
def chooseMirror (pathsWithPorts : List PathPorts) (path : PathPorts) :
    List ℕ → Except PyExc (PathPorts × List ℕ)
  | [] => .error .unfinished
  | draw :: draws =>
      match pathsWithPorts[draw % pathsWithPorts.length]? with
      | none => .error .indexError
      | some mirror =>
          if 1 < pathsWithPorts.length ∧ mirror.Perm path then
            chooseMirror pathsWithPorts path draws
          else .ok (mirror, draws)

/-- The loop over the paths. -/
def installLoop (env : Env) (topo : TopologyState) (call : InstallCall)
    (pathsWithPorts : List PathPorts) :
    Bool → ℕ → ℕ → List PathPorts → List ℕ → Logged (Dpid × FlowMod) PyExc (List ℕ)
  | _, _, _, [], draws => pure draws
  | firstPath, vlan, mirrIorvlan, path :: rest, draws => do
      installNodes topo (nodeFlows call firstPath vlan) (env.items path)
      let (mirror, draws) ← .ofExcept (chooseMirror pathsWithPorts path draws)
      installNodes topo (vlanFlows call mirrIorvlan) (env.items mirror)
      installLoop env topo call pathsWithPorts false (vlan + 1) (mirrIorvlan + 1) rest draws

/-- `paths_with_ports[0][src][1]`. -/
def firstOutPort (pathsWithPorts : List PathPorts) (src : Dpid) : Except PyExc Port :=
  match pathsWithPorts with
  | [] => .error .indexError
  | path :: _ =>
      match path.lookup src with
      | none => .error .keyError
      | some ports => .ok ports.2

/-- `install_paths`, with the random numbers it draws. -/
def installPaths (env : Env) (topo : TopologyState) (call : InstallCall) (draws : List ℕ) :
    Logged (Dpid × FlowMod) PyExc Port := do
  let paths ← .ofExcept (getPaths env topo call.src call.dst)
  let _pw ← .ofExcept (paths.mapM (getPathCost topo))
  let pathsWithPorts ← .ofExcept (addPortsToPaths topo paths call.firstPort call.lastPort)
  let _draws ← installLoop env topo call pathsWithPorts true 0x1001 0x1101 pathsWithPorts draws
  .ofExcept (firstOutPort pathsWithPorts call.src)

/-! ## What a call sends -/

/-- The messages a loop over a path sends when no switch is missing. -/
def pathMessages (flows : Dpid → Port → Port → List FlowMod) (path : PathPorts) :
    List (Dpid × FlowMod) :=
  path.flatMap fun item ↦ (flows item.1 item.2.1 item.2.2).map fun flow ↦ (item.1, flow)

theorem mem_pathMessages {flows : Dpid → Port → Port → List FlowMod} {path : PathPorts}
    {message : Dpid × FlowMod} : message ∈ pathMessages flows path ↔
      ∃ inPort outPort, (message.1, inPort, outPort) ∈ path ∧
        message.2 ∈ flows message.1 inPort outPort := by
  simp only [pathMessages, List.mem_flatMap, List.mem_map]
  constructor
  · rintro ⟨⟨node, inPort, outPort⟩, hitem, flow, hflow, rfl⟩
    exact ⟨inPort, outPort, hitem, hflow⟩
  · rintro ⟨inPort, outPort, hitem, hflow⟩
    exact ⟨_, hitem, message.2, hflow, rfl⟩

theorem pathMessages_perm {flows : Dpid → Port → Port → List FlowMod} {path path' : PathPorts}
    (hperm : path.Perm path') {message : Dpid × FlowMod} :
    message ∈ pathMessages flows path ↔ message ∈ pathMessages flows path' := by
  simp only [mem_pathMessages, hperm.mem_iff]

theorem installNodes_log {topo : TopologyState} {flows : Dpid → Port → Port → List FlowMod}
    {path : PathPorts} (h : (installNodes topo flows path).result = .ok ()) :
    (installNodes topo flows path).log = pathMessages flows path := by
  induction path with
  | nil => rfl
  | cons item rest ih =>
    obtain ⟨node, inPort, outPort⟩ := item
    obtain ⟨-, -, hsend, hlog⟩ := Logged.bind_ok h
    obtain ⟨-, -, hrest, hlog'⟩ := Logged.bind_ok hsend
    rw [installNodes, hlog, hlog', ih hrest]
    rfl

/-- A loop that raises has still sent nothing but messages of its path, to switches it knows. -/
theorem mem_installNodes_log {topo : TopologyState} {flows : Dpid → Port → Port → List FlowMod}
    {path : PathPorts} {message : Dpid × FlowMod}
    (h : message ∈ (installNodes topo flows path).log) :
    message ∈ pathMessages flows path ∧ message.1 ∈ topo.datapathList := by
  induction path with
  | nil => cases h
  | cons item rest ih =>
    obtain ⟨node, inPort, outPort⟩ := item
    simp only [pathMessages, List.flatMap_cons, List.mem_append]
    rcases Logged.mem_bind_log h with hnone | ⟨_, hknown, hsend⟩
    · simp at hnone
    · rcases Logged.mem_bind_log hsend with hflow | ⟨-, -, hrest⟩
      · refine ⟨.inl hflow, ?_⟩
        obtain ⟨flow, -, rfl⟩ := List.mem_map.mp hflow
        simp only [Logged.ofExcept_result, datapath] at hknown
        split at hknown
        · assumption
        · cases hknown
      · exact ⟨.inr (ih hrest).1, (ih hrest).2⟩

theorem installNodes_result {topo : TopologyState} {flows : Dpid → Port → Port → List FlowMod}
    {path : PathPorts} (hknown : ∀ item ∈ path, item.1 ∈ topo.datapathList) :
    (installNodes topo flows path).result = .ok () := by
  induction path with
  | nil => rfl
  | cons item rest ih =>
    obtain ⟨node, inPort, outPort⟩ := item
    have hnode := hknown _ (List.mem_cons_self ..)
    have hrest := ih fun other hother ↦ hknown other (List.mem_cons_of_mem _ hother)
    simp only [installNodes, datapath, hnode, if_true, Bind.bind, Logged.bind,
      Logged.ofExcept_result, Logged.tell_result, hrest]

/-- A drawn mirror is one of the paths, and another one than the path if there is another one. -/
theorem chooseMirror_ok {pathsWithPorts : List PathPorts} {path mirror : PathPorts}
    {draws rest : List ℕ} (h : chooseMirror pathsWithPorts path draws = .ok (mirror, rest)) :
    mirror ∈ pathsWithPorts ∧ (1 < pathsWithPorts.length → ¬ mirror.Perm path) := by
  induction draws with
  | nil => cases h
  | cons draw draws ih =>
    simp only [chooseMirror] at h
    split at h
    · cases h
    · rename_i found hfound
      split at h
      · exact ih h
      · rename_i hdifferent
        cases h
        refine ⟨List.mem_of_getElem? hfound, ?_⟩
        intro hmany hperm
        exact hdifferent ⟨hmany, hperm⟩

/-- The mirrors drawn for a list of paths, one after the other. -/
def drawMirrors (pathsWithPorts : List PathPorts) :
    List PathPorts → List ℕ → Except PyExc (List PathPorts)
  | [], _ => .ok []
  | path :: rest, draws => do
      let (mirror, draws) ← chooseMirror pathsWithPorts path draws
      let mirrors ← drawMirrors pathsWithPorts rest draws
      return mirror :: mirrors

/-- Each drawn mirror is one of the paths, and another one than its path if there is another. -/
theorem drawMirrors_ok {pathsWithPorts paths mirrors : List PathPorts} {draws : List ℕ}
    (h : drawMirrors pathsWithPorts paths draws = .ok mirrors) :
    List.Forall₂ (fun path mirror ↦ mirror ∈ pathsWithPorts ∧
      (1 < pathsWithPorts.length → ¬ mirror.Perm path)) paths mirrors := by
  induction paths generalizing draws mirrors with
  | nil =>
    cases h
    exact .nil
  | cons path rest ih =>
    rw [drawMirrors] at h
    cases hmirror : chooseMirror pathsWithPorts path draws with
    | error exception => simp [hmirror, bind, Except.bind] at h
    | ok chosen =>
      cases hrest : drawMirrors pathsWithPorts rest chosen.2 with
      | error exception => simp [hmirror, hrest, bind, Except.bind] at h
      | ok others =>
        simp only [hmirror, hrest, bind, Except.bind, pure, Except.pure, Except.ok.injEq] at h
        subst h
        exact .cons (chooseMirror_ok hmirror) (ih hrest)

/-- The messages of a completed loop: for each path its own rules, and those of its mirror. -/
theorem installLoop_ok {env : Env} {topo : TopologyState} {call : InstallCall}
    {pathsWithPorts : List PathPorts} {firstPath : Bool} {vlan mirrIorvlan : ℕ}
    {paths : List PathPorts} {draws rest : List ℕ}
    (h : (installLoop env topo call pathsWithPorts firstPath vlan mirrIorvlan paths draws).result =
      .ok rest) :
    ∃ mirrors, drawMirrors pathsWithPorts paths draws = .ok mirrors ∧
      ∀ message : Dpid × FlowMod,
        message ∈ (installLoop env topo call pathsWithPorts firstPath vlan mirrIorvlan paths
            draws).log ↔
          ∃ (k : ℕ) (path mirror : PathPorts), paths[k]? = some path ∧ mirrors[k]? = some mirror ∧
            (message ∈ pathMessages (nodeFlows call (firstPath && decide (k = 0)) (vlan + k)) path ∨
              message ∈ pathMessages (vlanFlows call (mirrIorvlan + k)) mirror) := by
  induction paths generalizing firstPath vlan mirrIorvlan draws with
  | nil => exact ⟨[], rfl, by simp [installLoop]⟩
  | cons path others ih =>
    obtain ⟨_, horiginal, hchoose, hlog₁⟩ := Logged.bind_ok h
    obtain ⟨⟨mirror, draws'⟩, hmirror, hinstall, hlog₂⟩ := Logged.bind_ok hchoose
    obtain ⟨_, hmirrored, hothers, hlog₃⟩ := Logged.bind_ok hinstall
    obtain ⟨mirrors, hdrawn, hmessages⟩ := ih hothers
    refine ⟨mirror :: mirrors, ?_, ?_⟩
    · rw [Logged.ofExcept_result] at hmirror
      simp only [drawMirrors, hmirror, hdrawn, bind, Except.bind, pure, Except.pure]
    · intro message
      rw [installLoop, hlog₁, hlog₂, hlog₃, installNodes_log horiginal, installNodes_log hmirrored]
      simp only [Logged.ofExcept_log, List.nil_append, List.mem_append, hmessages,
        pathMessages_perm (env.items_perm _)]
      constructor
      · rintro (hown | hmirrorMessage | ⟨k, path', mirror', hpath, hmirror', hmessage⟩)
        · exact ⟨0, path, mirror, rfl, rfl, .inl (by simpa using hown)⟩
        · exact ⟨0, path, mirror, rfl, rfl, .inr hmirrorMessage⟩
        · refine ⟨k + 1, path', mirror', hpath, hmirror', ?_⟩
          simpa [Nat.add_assoc, Nat.add_comm 1 k] using hmessage
      · rintro ⟨k, path', mirror', hpath, hmirror', hmessage⟩
        cases k with
        | zero =>
          simp only [List.getElem?_cons_zero, Option.some.injEq] at hpath hmirror'
          subst hpath hmirror'
          rcases hmessage with hown | hmirrorMessage
          · exact .inl (by simpa using hown)
          · exact .inr (.inl hmirrorMessage)
        | succ k =>
          refine .inr (.inr ⟨k, path', mirror', hpath, hmirror', ?_⟩)
          simpa [Nat.add_assoc, Nat.add_comm 1 k] using hmessage

/-- What a completed call has computed and sent. -/
theorem installPaths_ok {env : Env} {topo : TopologyState} {call : InstallCall} {draws : List ℕ}
    {port : Port} (h : (installPaths env topo call draws).result = .ok port) :
    ∃ paths pathsWithPorts mirrors, getPaths env topo call.src call.dst = .ok paths ∧
      addPortsToPaths topo paths call.firstPort call.lastPort = .ok pathsWithPorts ∧
      drawMirrors pathsWithPorts pathsWithPorts draws = .ok mirrors ∧
      ∀ message : Dpid × FlowMod, message ∈ (installPaths env topo call draws).log ↔
        ∃ (k : ℕ) (path mirror : PathPorts), pathsWithPorts[k]? = some path ∧
          mirrors[k]? = some mirror ∧
          (message ∈ pathMessages (nodeFlows call (decide (k = 0)) (0x1001 + k)) path ∨
            message ∈ pathMessages (vlanFlows call (0x1101 + k)) mirror) := by
  obtain ⟨paths, hpaths, hcosts, hlog₁⟩ := Logged.bind_ok h
  obtain ⟨costs, -, hports, hlog₂⟩ := Logged.bind_ok hcosts
  obtain ⟨pathsWithPorts, hpathsWithPorts, hloop, hlog₃⟩ := Logged.bind_ok hports
  obtain ⟨rest, hrest, -, hlog₄⟩ := Logged.bind_ok hloop
  obtain ⟨mirrors, hdrawn, hmessages⟩ := installLoop_ok hrest
  refine ⟨paths, pathsWithPorts, mirrors, hpaths, hpathsWithPorts, hdrawn, ?_⟩
  intro message
  rw [installPaths, hlog₁, hlog₂, hlog₃, hlog₄]
  simpa using hmessages message

/-- A loop that raises has still sent nothing but rules for items of its paths, to switches it
knows. -/
theorem mem_installLoop_log {env : Env} {topo : TopologyState} {call : InstallCall}
    {pathsWithPorts : List PathPorts} {firstPath : Bool} {vlan mirrIorvlan : ℕ}
    {paths : List PathPorts} {draws : List ℕ} {message : Dpid × FlowMod}
    (hsub : ∀ path ∈ paths, path ∈ pathsWithPorts)
    (h : message ∈ (installLoop env topo call pathsWithPorts firstPath vlan mirrIorvlan paths
      draws).log) :
    message.1 ∈ topo.datapathList ∧ ∃ path ∈ pathsWithPorts, ∃ first vlan inPort outPort,
      (message.1, inPort, outPort) ∈ path ∧
        message.2 ∈ nodeFlows call first vlan message.1 inPort outPort := by
  induction paths generalizing firstPath vlan mirrIorvlan draws with
  | nil => cases h
  | cons path others ih =>
    have hpath := hsub path (List.mem_cons_self ..)
    rcases Logged.mem_bind_log h with hown | ⟨_, -, hchoose⟩
    · obtain ⟨hsent, hknown⟩ := mem_installNodes_log hown
      have hmessage := (pathMessages_perm (env.items_perm path)).mp hsent
      obtain ⟨inPort, outPort, hitem, hflow⟩ := mem_pathMessages.mp hmessage
      exact ⟨hknown, path, hpath, firstPath, vlan, inPort, outPort, hitem, hflow⟩
    · rcases Logged.mem_bind_log hchoose with hnone | ⟨⟨mirror, draws'⟩, hmirror, hinstall⟩
      · cases hnone
      · rcases Logged.mem_bind_log hinstall with hmirrored | ⟨_, -, hothers⟩
        · obtain ⟨hsent, hknown⟩ := mem_installNodes_log hmirrored
          have hmessage := (pathMessages_perm (env.items_perm mirror)).mp hsent
          obtain ⟨inPort, outPort, hitem, hflow⟩ := mem_pathMessages.mp hmessage
          exact ⟨hknown, mirror, (chooseMirror_ok hmirror).1, false, mirrIorvlan, inPort, outPort,
            hitem, List.mem_append_right _ hflow⟩
        · exact ih (fun other hother ↦ hsub other (List.mem_cons_of_mem _ hother)) hothers

/-- Every rule names the port it applies to: the daemon port or one of the switch's two ports. -/
theorem nodeFlows_inPort {call : InstallCall} {firstPath : Bool} {vlan : ℕ} {node : Dpid}
    {inPort outPort : Port} {flow : FlowMod}
    (h : flow ∈ nodeFlows call firstPath vlan node inPort outPort) :
    ∃ port, flow.condition.inPort = some port ∧ (port = 2 ∨ port = inPort ∨ port = outPort) := by
  simp only [nodeFlows, ipv4Flows, vlanFlows, vlanPair, arpFlows, List.mem_append,
    List.mem_flatMap] at h
  rcases h with (harp | hipv4) | ⟨x, -, hvlan⟩
  · split at harp
    · simp only [List.mem_cons, List.not_mem_nil, or_false] at harp
      rcases harp with rfl | rfl
      · exact ⟨inPort, rfl, .inr (.inl rfl)⟩
      · exact ⟨outPort, rfl, .inr (.inr rfl)⟩
    · cases harp
  · split at hipv4
    · simp only [List.mem_cons, List.not_mem_nil, or_false] at hipv4
      rcases hipv4 with rfl | rfl | rfl
      · exact ⟨inPort, rfl, .inr (.inl rfl)⟩
      · exact ⟨2, rfl, .inl rfl⟩
      · exact ⟨2, rfl, .inl rfl⟩
    · split at hipv4
      · simp only [List.mem_cons, List.not_mem_nil, or_false] at hipv4
        rcases hipv4 with rfl | rfl
        · exact ⟨2, rfl, .inl rfl⟩
        · exact ⟨outPort, rfl, .inr (.inr rfl)⟩
      · cases hipv4
  · split at hvlan
    · simp only [List.mem_cons, List.not_mem_nil, or_false] at hvlan
      rcases hvlan with rfl | rfl
      · exact ⟨2, rfl, .inl rfl⟩
      · exact ⟨outPort, rfl, .inr (.inr rfl)⟩
    · split at hvlan
      · simp only [List.mem_cons, List.not_mem_nil, or_false] at hvlan
        rcases hvlan with rfl | rfl
        · exact ⟨inPort, rfl, .inr (.inl rfl)⟩
        · exact ⟨2, rfl, .inl rfl⟩
      · simp only [List.mem_cons, List.not_mem_nil, or_false] at hvlan
        rcases hvlan with rfl | rfl
        · exact ⟨inPort, rfl, .inr (.inl rfl)⟩
        · exact ⟨outPort, rfl, .inr (.inr rfl)⟩

/-- Completed or not, a call sends rules for known switches on its paths only. -/
theorem mem_installPaths_log {env : Env} {topo : TopologyState} {call : InstallCall}
    {draws : List ℕ} {message : Dpid × FlowMod}
    (h : message ∈ (installPaths env topo call draws).log) :
    message.1 ∈ topo.datapathList ∧ ∃ paths path ports,
      getPaths env topo call.src call.dst = .ok paths ∧ path ∈ paths ∧
      PortsAlong topo call.lastPort call.firstPort path ports ∧
      ∃ first vlan inPort outPort, (message.1, inPort, outPort) ∈ ports ∧
        message.2 ∈ nodeFlows call first vlan message.1 inPort outPort := by
  rcases Logged.mem_bind_log h with hnone | ⟨paths, hpaths, h⟩
  · cases hnone
  rcases Logged.mem_bind_log h with hnone | ⟨_, -, h⟩
  · cases hnone
  rcases Logged.mem_bind_log h with hnone | ⟨pathsWithPorts, hpathsWithPorts, h⟩
  · cases hnone
  rcases Logged.mem_bind_log h with hloop | ⟨_, -, hnone⟩
  · obtain ⟨hknown, ports, hports, hflow⟩ := mem_installLoop_log (fun _ hpath ↦ hpath) hloop
    have halong := addPortsToPaths_ok hpaths hpathsWithPorts
    obtain ⟨index, hindex, rfl⟩ := List.getElem_of_mem hports
    have hindex' : index < paths.length := halong.length_eq ▸ hindex
    exact ⟨hknown, paths, paths[index], _, hpaths, List.getElem_mem _, halong.get hindex' hindex,
      hflow⟩
  · cases hnone

/-- Completed or not, a call sends rules for the daemon port, for the two host ports it was given,
and for link ports. -/
theorem installPaths_inPort {env : Env} {topo : TopologyState} {call : InstallCall}
    {draws : List ℕ} {message : Dpid × FlowMod}
    (h : message ∈ (installPaths env topo call draws).log) :
    ∃ port, message.2.condition.inPort = some port ∧
      (port = 2 ∨ (message.1, port) = (call.src, call.firstPort) ∨
        (message.1, port) = (call.dst, call.lastPort) ∨
        ∃ v, topo.adjacency message.1 v = some port) := by
  obtain ⟨-, paths, path, ports, hpaths, hpath, halong, first, vlan, inPort, outPort, hitem,
    hflow⟩ := mem_installPaths_log h
  have hsimple := getPaths_simple hpaths path hpath
  obtain ⟨hentry, hexit⟩ := halong.ports_of_item hitem
  rw [hsimple.starts, Option.some.injEq] at hentry
  rw [hsimple.ends, Option.some.injEq] at hexit
  obtain ⟨port, hport, hcases⟩ := nodeFlows_inPort hflow
  refine ⟨port, hport, ?_⟩
  rcases hcases with hdaemon | rfl | rfl
  · exact .inl hdaemon
  · rcases hentry with ⟨hsrc, hfirst⟩ | hlink
    · exact .inr (.inl (by rw [hsrc, hfirst]))
    · exact .inr (.inr (.inr hlink))
  · rcases hexit with ⟨hdst, hlast⟩ | hlink
    · exact .inr (.inr (.inl (by rw [hdst, hlast])))
    · exact .inr (.inr (.inr hlink))

end Wispr.Controller.Install
