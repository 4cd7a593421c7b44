import Mathlib.Algebra.Order.Round
import Mathlib.Data.Rat.Floor
import Wispr.Controller.Install
import Wispr.Multipath.Search

/-!
# Path installation with select groups

`install_paths` of `ryu_multipath2.py`. Each switch on a path collects, for every port a path enters
it on, the ports paths leave it on; each of these rows becomes a flow rule, through a select group
if it has several entries. The match of the rule has no ingress port, so the rules of the rows of a
switch overwrite each other and the row that the loop comes to last decides.

The orders of iteration over sets and dictionaries are parameters, and so are the random numbers. A
message is packed before it is sent and changes the tables of its switch at once. The weights of
buckets are floating point numbers in the source and rational numbers here.
-/

open Wispr.Foundation.Effects Wispr.Foundation.FlowTable

namespace Wispr.Multipath.Groups

open Controller.Paths Controller.Install Search

structure Bucket where
  weight : ℤ
  watchPort : Port
  outPort : Port
  deriving DecidableEq, Repr

/-- `OFPActionOutput` to a port or to the controller, and `OFPActionGroup`. -/
inductive Action where
  | output (port : Port)
  | controller
  | group (groupId : ℕ)
  deriving DecidableEq, Repr

abbrev GroupRule := Rule OFPMatch (List Action)

inductive GroupCommand where
  | add
  | modify
  deriving DecidableEq, Repr

/-- `OFPFlowMod` and `OFPGroupMod`, the latter for select groups. -/
inductive Message where
  | flowMod (rule : GroupRule)
  | groupMod (command : GroupCommand) (groupId : ℕ) (buckets : List Bucket)

def Action.fits : Action → Bool
  | .group groupId => decide (groupId < 2 ^ 32)
  | _ => true

/-- `msg.serialize()` packs the numbers of groups into 32 bits. All other numbers have been read
from fields of the width they are packed into. -/
def Message.fits : Message → Bool
  | .flowMod rule => rule.actions.all Action.fits
  | .groupMod _ groupId _ => decide (groupId < 2 ^ 32)

/-- `OFPG_MAX`, the largest number of a group. -/
def ofpgMax : ℕ := 0xffffff00

structure SwitchTables where
  flows : List GroupRule
  groups : ℕ → Option (List Bucket)

/-- A group is added under a free number and modified under a number in use; other group-mods are
rejected. -/
def SwitchTables.receive (tables : SwitchTables) : Message → SwitchTables
  | .flowMod rule => { tables with flows := add tables.flows rule }
  | .groupMod .add groupId buckets =>
      if groupId ≤ ofpgMax ∧ tables.groups groupId = none then
        { tables with groups := Function.update tables.groups groupId (some buckets) }
      else tables
  | .groupMod .modify groupId buckets =>
      if (tables.groups groupId).isSome then
        { tables with groups := Function.update tables.groups groupId (some buckets) }
      else tables

/-- The ports the actions of a rule can send a packet to; a select group uses any of its buckets. -/
def SwitchTables.outputs (tables : SwitchTables) (actions : List Action) : List Port :=
  actions.flatMap fun
    | .output port => [port]
    | .controller => []
    | .group groupId => ((tables.groups groupId).getD []).map Bucket.outPort

/-- `multipath_group_ids`, and the tables of all switches. -/
structure Network where
  multipathGroupIds : Dpid × Dpid × Dpid → Option ℕ
  switches : Dpid → SwitchTables

/-- Before the first call, with switches that have nothing but their table-miss rule. -/
def Network.init : Network where
  multipathGroupIds _ := none
  switches _ := ⟨[⟨0, {}, [.controller]⟩], fun _ ↦ none⟩

/-- A method of the controller: an exception keeps what was changed and sent before. -/
abbrev Method := EStateM PyExc Network

def fromExcept {α : Type} (result : Except PyExc α) : Method α := fun network ↦
  match result with
  | .ok value => .ok value network
  | .error exception => .error exception network

def Network.setTables (network : Network) (node : Dpid) (tables : SwitchTables) : Network :=
  { network with switches := Function.update network.switches node tables }

@[simp] theorem setTables_self (network : Network) (node : Dpid) (tables : SwitchTables) :
    (network.setTables node tables).switches node = tables := Function.update_self ..

theorem setTables_of_ne (network : Network) {node other : Dpid} (tables : SwitchTables)
    (h : other ≠ node) :
    (network.setTables node tables).switches other = network.switches other :=
  Function.update_of_ne h ..

@[simp] theorem setTables_setTables (network : Network) (node : Dpid)
    (tables tables' : SwitchTables) :
    (network.setTables node tables).setTables node tables' = network.setTables node tables' := by
  simp [Network.setTables]

def sendMsg (node : Dpid) (message : Message) : Method Unit := fun network ↦
  if message.fits then .ok () (network.setTables node ((network.switches node).receive message))
  else .error .structError network

/-- `add_flow`, whose `buffer_id` is always left out. -/
def addFlow (node : Dpid) (priority : ℕ) (condition : OFPMatch) (actions : List Action) :
    Method Unit :=
  sendMsg node (.flowMod ⟨priority, condition, actions⟩)

/-- The arguments of `install_paths`. -/
structure GroupCall where
  src : Dpid
  firstPort : Port
  dst : Dpid
  lastPort : Port
  ipSrc : Ip
  ipDst : Ip
  deriving DecidableEq, Repr

/-- Items of `ports`: a port of entry and the ports of exit, each with the cost of its path. -/
abbrev PortRows := List (Port × List (Port × ℕ))

/-- `if entry not in ports[in_port]: ports[in_port].append(entry)`, for a `defaultdict`. -/
def appendEntry : PortRows → Port → Port × ℕ → PortRows
  | [], inPort, entry => [(inPort, [entry])]
  | (port, row) :: rest, inPort, entry =>
      if port = inPort then (port, if entry ∈ row then row else row ++ [entry]) :: rest
      else (port, row) :: appendEntry rest inPort entry

/-- The loop over `paths_with_ports`, each with its `pw`. -/
def nodePorts (node : Dpid) (weighted : List (PathPorts × ℕ)) : PortRows :=
  weighted.foldl (fun ports path ↦
    match path.1.lookup node with
    | none => ports
    | some (inPort, outPort) => appendEntry ports inPort (outPort, path.2)) []

/-- `match_ip`. -/
def matchIp (src dst : Ip) : OFPMatch :=
  { ethType := some 0x0800, ipv4Src := some src, ipv4Dst := some dst }

/-- `match_arp`. -/
def matchArp (src dst : Ip) : OFPMatch :=
  { ethType := some 0x0806, arpSpa := some src, arpTpa := some dst }

/-- `generate_openflow_gid`, on the numbers that `random.randint` gives. -/
def generateOpenflowGid (groupIds : List ℕ) : List ℕ → Except PyExc ℕ
  | [] => .error .unfinished
  | n :: draws => if n ∈ groupIds then generateOpenflowGid groupIds draws else .ok n

/-- `self.multipath_group_ids[node, src, dst] = group_id`. -/
def Network.recordGroup (network : Network) (key : Dpid × Dpid × Dpid) (groupId : ℕ) : Network :=
  { network with
    multipathGroupIds := Function.update network.multipathGroupIds key (some groupId) }

/-- The number of the group and whether it is new. Nothing is ever added to `group_ids`. -/
def groupIdFor (call : GroupCall) (node : Dpid) (draws : List ℕ) : Method (ℕ × Bool) := do
  match (← get).multipathGroupIds (node, call.src, call.dst) with
  | some groupId => return (groupId, false)
  | none =>
      let groupId ← fromExcept (generateOpenflowGid [] draws)
      modify fun network ↦ network.recordGroup (node, call.src, call.dst) groupId
      return (groupId, true)

/-- A bucket with its weight `int(round((1 - weight/sum_of_pw) * 10))`. -/
def bucketFor (sumOfPw : ℕ) (entry : Port × ℕ) : Except PyExc Bucket :=
  if sumOfPw = 0 then .error .zeroDivisionError
  else .ok ⟨round ((1 - entry.2 / sumOfPw) * 10 : ℚ), entry.1, entry.1⟩

/-- The two rules of a row. -/
def addFlows (call : GroupCall) (node : Dpid) (actions : List Action) : Method Unit := do
  addFlow node 32768 (matchIp call.ipSrc call.ipDst) actions
  addFlow node 1 (matchArp call.ipSrc call.ipDst) actions

/-- The body of the loop over `ports`. -/
def installRow (call : GroupCall) (sumOfPw : ℕ) (node : Dpid) (draws : List ℕ) :
    List (Port × ℕ) → Method Unit
  | [] => pure ()
  | [(outPort, _)] => addFlows call node [.output outPort]
  | outPorts => do
      let (groupId, groupNew) ← groupIdFor call node draws
      let buckets ← fromExcept (outPorts.mapM (bucketFor sumOfPw))
      sendMsg node (.groupMod (if groupNew then .add else .modify) groupId buckets)
      addFlows call node [.group groupId]

def installRows (call : GroupCall) (sumOfPw : ℕ) (node : Dpid) (draws : List ℕ) :
    PortRows → Method Unit
  | [] => pure ()
  | row :: rest => do
      installRow call sumOfPw node draws row.2
      installRows call sumOfPw node draws rest

/-- Orders of iteration: over the switches of all paths, the rows of a switch, and the items of a
path. -/
structure Orders where
  switches : List Dpid → List Dpid
  switches_perm : ∀ nodes, (switches nodes).Perm nodes
  rows : Dpid → PortRows → PortRows
  rows_perm : ∀ node ports, (rows node ports).Perm ports
  items : PathPorts → PathPorts
  items_perm : ∀ path, (items path).Perm path

/-- `datapath_list[node]`. -/
def datapathOf (topo : TopologyState) (node : Dpid) : Method Unit := fromExcept (datapath topo node)

/-- The loop over `switches_in_paths`. -/
def installSwitches (topo : TopologyState) (orders : Orders) (draws : Dpid → List ℕ)
    (call : GroupCall) (sumOfPw : ℕ) (weighted : List (PathPorts × ℕ)) :
    List Dpid → Method Unit
  | [] => pure ()
  | node :: rest => do
      datapathOf topo node
      installRows call sumOfPw node (draws node) (orders.rows node (nodePorts node weighted))
      installSwitches topo orders draws call sumOfPw weighted rest

def matchVlan (inPort : Port) (src dst : Ip) (vlan : ℕ) : OFPMatch :=
  { inPort := some inPort, ipv4Src := some src, ipv4Dst := some dst, ethType := some 0x8100,
    vlanVid := some vlan }

/-- The rules for one switch of the path with this VLAN id. -/
def vlanRules (call : GroupCall) (vlan : ℕ) (node : Dpid) (inPort outPort : Port) :
    List GroupRule :=
  if node = call.src then
    [⟨2, ipv4Match inPort call.ipSrc call.ipDst, [.output 1]⟩,
      ⟨2, matchVlan 2 call.ipSrc call.ipDst vlan, [.output outPort]⟩]
  else if node = call.dst then
    [⟨2, matchVlan inPort call.ipSrc call.ipDst vlan, [.output 1]⟩,
      ⟨2, ipv4Match 2 call.ipSrc call.ipDst, [.output outPort]⟩]
  else [⟨3, matchVlan inPort call.ipSrc call.ipDst vlan, [.output outPort]⟩]

def addRules (node : Dpid) : List GroupRule → Method Unit
  | [] => pure ()
  | rule :: rest => do
      addFlow node rule.priority rule.condition rule.actions
      addRules node rest

/-- The second loop, over the switches of one path. -/
def installVlanPath (topo : TopologyState) (call : GroupCall) (vlan : ℕ) : PathPorts → Method Unit
  | [] => pure ()
  | (node, inPort, outPort) :: rest => do
      datapathOf topo node
      addRules node (vlanRules call vlan node inPort outPort)
      installVlanPath topo call vlan rest

/-- The second loop, over the paths. -/
def installVlans (topo : TopologyState) (orders : Orders) (call : GroupCall) :
    ℕ → List PathPorts → Method Unit
  | _, [] => pure ()
  | vlan, path :: rest => do
      installVlanPath topo call vlan (orders.items path)
      installVlans topo orders call (vlan + 1) rest

/-- `install_paths`, with the order of the search, the other orders and the numbers drawn at each
switch. -/
def installPaths (topo : TopologyState) (order : SetOrder) (fuel : ℕ) (orders : Orders)
    (draws : Dpid → List ℕ) (call : GroupCall) : Method Port := do
  let paths ← fromExcept (getOptimalPaths2 topo order fuel call.src call.dst)
  let pw ← fromExcept (paths.mapM (getPathCost topo))
  let pathsWithPorts ← fromExcept (addPortsToPaths topo paths call.firstPort call.lastPort)
  installSwitches topo orders draws call pw.sum (pathsWithPorts.zip pw)
    (orders.switches paths.flatten.dedup)
  installVlans topo orders call 0x1001 pathsWithPorts
  fromExcept (firstOutPort pathsWithPorts call.src)

/-- A call of `install_paths`, with all that it depends on besides the state. -/
structure Invocation where
  topo : TopologyState
  order : SetOrder
  fuel : ℕ
  orders : Orders
  draws : Dpid → List ℕ
  call : GroupCall

/-- Paths, costs and ports of a call. -/
def Invocation.prepare (invocation : Invocation) :
    Except PyExc (List (List Dpid) × List ℕ × List PathPorts) := do
  let paths ← getOptimalPaths2 invocation.topo invocation.order invocation.fuel invocation.call.src
    invocation.call.dst
  let pw ← paths.mapM (getPathCost invocation.topo)
  let pathsWithPorts ← addPortsToPaths invocation.topo paths invocation.call.firstPort
    invocation.call.lastPort
  return (paths, pw, pathsWithPorts)

/-- The state after a method, whether it returns or raises. -/
def stateOf {α : Type} : EStateM.Result PyExc Network α → Network
  | .ok _ network => network
  | .error _ network => network

def afterCall (network : Network) (invocation : Invocation) : Network :=
  stateOf (installPaths invocation.topo invocation.order invocation.fuel invocation.orders
    invocation.draws invocation.call network)

/-- The state after a run of calls. -/
def afterCalls (network : Network) (invocations : List Invocation) : Network :=
  invocations.foldl afterCall network

/-! ## Running methods -/

section Running

variable {α β : Type} {first : Method α} {next : α → Method β} {network : Network}

theorem bind_apply : (first >>= next) network =
    match first network with
    | .ok value middle => next value middle
    | .error exception middle => .error exception middle := by
  simp only [bind, EStateM.bind]
  cases first network with
  | ok value middle => rfl
  | error exception middle => rfl

theorem pure_apply (value : α) : (pure value : Method α) network = .ok value network := rfl

theorem get_apply : (get : Method Network) network = .ok network network := rfl

theorem modify_apply (update : Network → Network) :
    (modify update : Method Unit) network = .ok () (update network) := rfl

/-- A sequence that returns has run both parts. -/
theorem bind_ok {value : β} {after : Network} (h : (first >>= next) network = .ok value after) :
    ∃ middleValue middle, first network = .ok middleValue middle ∧
      next middleValue middle = .ok value after := by
  rw [bind_apply] at h
  split at h
  · rename_i middleValue middle hfirst
    exact ⟨middleValue, middle, hfirst, h⟩
  · cases h

theorem fromExcept_ok {result : Except PyExc α} {value : α} {after : Network}
    (h : fromExcept result network = .ok value after) : result = .ok value ∧ after = network := by
  cases result with
  | error exception => cases h
  | ok found =>
    cases h
    exact ⟨rfl, rfl⟩

theorem sendMsg_apply {node : Dpid} {message : Message} (hfits : message.fits = true) :
    sendMsg node message network =
      .ok () (network.setTables node ((network.switches node).receive message)) := if_pos hfits

theorem sendMsg_ok {node : Dpid} {message : Message} {value : Unit} {after : Network}
    (h : sendMsg node message network = .ok value after) :
    message.fits = true ∧
      after = network.setTables node ((network.switches node).receive message) := by
  unfold sendMsg at h
  split at h
  · rename_i hfits
    cases h
    exact ⟨hfits, rfl⟩
  · cases h

end Running

/-- A computation of several steps without effect raises at its first step that raises. -/
theorem fromExcept_bind {α β γ : Type} (first : Except PyExc α) (next : α → Except PyExc β)
    (rest : β → Method γ) :
    (fromExcept (first >>= next) >>= rest) =
      (fromExcept first >>= fun value ↦ fromExcept (next value) >>= rest) := by
  cases first with
  | error exception => rfl
  | ok value => rfl

/-- A call first computes its paths and then installs them. -/
theorem installPaths_eq (invocation : Invocation) :
    installPaths invocation.topo invocation.order invocation.fuel invocation.orders
        invocation.draws invocation.call = (do
      let (paths, pw, pathsWithPorts) ← fromExcept invocation.prepare
      installSwitches invocation.topo invocation.orders invocation.draws invocation.call pw.sum
        (pathsWithPorts.zip pw) (invocation.orders.switches paths.flatten.dedup)
      installVlans invocation.topo invocation.orders invocation.call 0x1001 pathsWithPorts
      fromExcept (firstOutPort pathsWithPorts invocation.call.src)) := by
  rw [Invocation.prepare, fromExcept_bind]
  simp only [fromExcept_bind]
  rfl

/-- The state before a method and the state it leaves are related. -/
def Relates {α : Type} (relation : Network → Network → Prop) (method : Method α) : Prop :=
  ∀ network, relation network (stateOf (method network))

section Relates

variable {α β : Type} {relation : Network → Network → Prop}
  (hrefl : ∀ network, relation network network)
  (htrans : ∀ network network' network'', relation network network' →
    relation network' network'' → relation network network'')

include hrefl in
theorem relates_pure (value : α) : Relates relation (pure value) := hrefl

include hrefl in
theorem relates_fromExcept (result : Except PyExc α) : Relates relation (fromExcept result) := by
  intro network
  cases result with
  | ok value => exact hrefl network
  | error exception => exact hrefl network

include hrefl in
/-- A message that is not sent leaves the state alone. -/
theorem relates_sendMsg {node : Dpid} {message : Message}
    (hreceive : ∀ network, relation network
      (network.setTables node ((network.switches node).receive message))) :
    Relates relation (sendMsg node message) := by
  intro network
  unfold sendMsg
  split
  · exact hreceive network
  · exact hrefl network

include htrans in
theorem Relates.bind {first : Method α} {next : α → Method β} (hfirst : Relates relation first)
    (hnext : ∀ value, Relates relation (next value)) : Relates relation (first >>= next) := by
  intro network
  have hbefore := hfirst network
  rw [bind_apply]
  cases hresult : first network with
  | ok value middle =>
    rw [hresult] at hbefore
    exact htrans _ _ _ hbefore (hnext value middle)
  | error exception middle =>
    rw [hresult] at hbefore
    exact hbefore

include hrefl htrans

theorem relates_addRules {node : Dpid} {rules : List GroupRule}
    (hrules : ∀ rule ∈ rules,
      Relates relation (addFlow node rule.priority rule.condition rule.actions)) :
    Relates relation (addRules node rules) := by
  induction rules with
  | nil => exact relates_pure hrefl ()
  | cons rule rest ih =>
    exact (hrules rule (List.mem_cons_self ..)).bind htrans fun _ ↦
      ih fun other hother ↦ hrules other (List.mem_cons_of_mem _ hother)

theorem relates_installVlanPath {topo : TopologyState} {call : GroupCall} {vlan : ℕ}
    (hrules : ∀ node inPort outPort, ∀ rule ∈ vlanRules call vlan node inPort outPort,
      Relates relation (addFlow node rule.priority rule.condition rule.actions))
    (path : PathPorts) : Relates relation (installVlanPath topo call vlan path) := by
  induction path with
  | nil => exact relates_pure hrefl ()
  | cons item rest ih =>
    refine (relates_fromExcept hrefl _).bind htrans fun _ ↦ ?_
    exact (relates_addRules hrefl htrans (hrules _ _ _)).bind htrans fun _ ↦ ih

theorem relates_installVlans {topo : TopologyState} {orders : Orders} {call : GroupCall}
    (hrules : ∀ vlan node inPort outPort, ∀ rule ∈ vlanRules call vlan node inPort outPort,
      Relates relation (addFlow node rule.priority rule.condition rule.actions))
    (vlan : ℕ) (paths : List PathPorts) :
    Relates relation (installVlans topo orders call vlan paths) := by
  induction paths generalizing vlan with
  | nil => exact relates_pure hrefl ()
  | cons path rest ih =>
    exact (relates_installVlanPath hrefl htrans (hrules vlan) _).bind htrans fun _ ↦ ih (vlan + 1)

end Relates

/-- The rows collected from a list of entries: one row for each port of entry, with all of its
entries, each once. -/
structure Collects (ports : PortRows) (seen : List (Port × Port × ℕ)) : Prop where
  keys : (ports.map Prod.fst).Nodup
  nonempty : ∀ inPort row, (inPort, row) ∈ ports → row ≠ []
  nodup : ∀ inPort row, (inPort, row) ∈ ports → row.Nodup
  mem_row : ∀ inPort row entry, (inPort, row) ∈ ports → (entry ∈ row ↔ (inPort, entry) ∈ seen)
  row_of_seen : ∀ inPort entry, (inPort, entry) ∈ seen → ∃ row, (inPort, row) ∈ ports

theorem appendEntry_keys (ports : PortRows) (inPort : Port) (entry : Port × ℕ) :
    (appendEntry ports inPort entry).map Prod.fst =
      if inPort ∈ ports.map Prod.fst then ports.map Prod.fst
      else ports.map Prod.fst ++ [inPort] := by
  induction ports with
  | nil => rfl
  | cons item rest ih =>
    obtain ⟨port, row⟩ := item
    rw [appendEntry]
    by_cases hport : port = inPort
    · simp [hport]
    · rw [if_neg hport, List.map_cons, ih]
      by_cases hmem : inPort ∈ rest.map Prod.fst
      · simp [hmem]
      · rw [if_neg hmem, if_neg]
        · rfl
        · simp only [List.map_cons, List.mem_cons, not_or]
          exact ⟨Ne.symm hport, hmem⟩

/-- The rows after one entry: other rows are as before, its own row has the entry. -/
theorem mem_appendEntry {ports : PortRows} {inPort port : Port} {entry : Port × ℕ}
    {row : List (Port × ℕ)} (hkeys : (ports.map Prod.fst).Nodup)
    (h : (port, row) ∈ appendEntry ports inPort entry) :
    (port ≠ inPort ∧ (port, row) ∈ ports) ∨
      (port = inPort ∧ ((row = [entry] ∧ inPort ∉ ports.map Prod.fst) ∨
        ∃ old, (inPort, old) ∈ ports ∧ row = if entry ∈ old then old else old ++ [entry])) := by
  induction ports with
  | nil =>
    simp only [appendEntry, List.mem_singleton, Prod.mk.injEq] at h
    exact .inr ⟨h.1, .inl ⟨h.2, by simp⟩⟩
  | cons item rest ih =>
    obtain ⟨key, old⟩ := item
    rw [List.map_cons, List.nodup_cons] at hkeys
    rw [appendEntry] at h
    by_cases hkey : key = inPort
    · rw [if_pos hkey] at h
      rcases List.mem_cons.mp h with hsame | hrest
      · simp only [Prod.mk.injEq] at hsame
        exact .inr ⟨hsame.1.trans hkey, .inr ⟨old, by simp [hkey], hsame.2⟩⟩
      · refine .inl ⟨?_, List.mem_cons_of_mem _ hrest⟩
        intro hport
        have hlater := List.mem_map_of_mem (f := Prod.fst) hrest
        rw [hport, ← hkey] at hlater
        exact hkeys.1 hlater
    · rw [if_neg hkey] at h
      rcases List.mem_cons.mp h with hsame | hrest
      · simp only [Prod.mk.injEq] at hsame
        exact .inl ⟨hsame.1 ▸ hkey, by simp [hsame]⟩
      · rcases ih hkeys.2 hrest with ⟨hport, hmem⟩ | ⟨hport, ⟨hrow, hnew⟩ | ⟨before, hmem, hrow⟩⟩
        · exact .inl ⟨hport, List.mem_cons_of_mem _ hmem⟩
        · refine .inr ⟨hport, .inl ⟨hrow, ?_⟩⟩
          simp only [List.map_cons, List.mem_cons, not_or]
          exact ⟨Ne.symm hkey, hnew⟩
        · exact .inr ⟨hport, .inr ⟨before, List.mem_cons_of_mem _ hmem, hrow⟩⟩

theorem mem_keys_appendEntry {ports : PortRows} {inPort port : Port} {entry : Port × ℕ} :
    port ∈ (appendEntry ports inPort entry).map Prod.fst ↔
      port ∈ ports.map Prod.fst ∨ port = inPort := by
  rw [appendEntry_keys]
  split
  · rename_i hknown
    constructor
    · exact .inl
    · intro h
      rcases h with hold | rfl
      · exact hold
      · exact hknown
  · rw [List.mem_append, List.mem_singleton]

/-- Nothing has been seen for a port without a row. -/
theorem Collects.unseen {ports : PortRows} {seen : List (Port × Port × ℕ)} (h : Collects ports seen)
    {inPort : Port} (hnew : inPort ∉ ports.map Prod.fst) (entry : Port × ℕ) :
    (inPort, entry) ∉ seen := by
  intro hseen
  obtain ⟨row, hrow⟩ := h.row_of_seen inPort entry hseen
  exact hnew (List.mem_map_of_mem (f := Prod.fst) hrow)

theorem Collects.append {ports : PortRows} {seen : List (Port × Port × ℕ)}
    (h : Collects ports seen) (inPort : Port) (entry : Port × ℕ) :
    Collects (appendEntry ports inPort entry) (seen ++ [(inPort, entry)]) := by
  constructor
  · rw [appendEntry_keys]
    split
    · exact h.keys
    · rename_i hnew
      rw [← List.concat_eq_append]
      exact List.Nodup.concat hnew h.keys
  · intro port row hrow
    rcases mem_appendEntry h.keys hrow with ⟨-, hold⟩ | ⟨-, ⟨rfl, -⟩ | ⟨old, hold, rfl⟩⟩
    · exact h.nonempty port row hold
    · simp
    · split
      · exact h.nonempty inPort old hold
      · simp
  · intro port row hrow
    rcases mem_appendEntry h.keys hrow with ⟨-, hold⟩ | ⟨-, ⟨rfl, -⟩ | ⟨old, hold, rfl⟩⟩
    · exact h.nodup port row hold
    · simp
    · split
      · exact h.nodup inPort old hold
      · rename_i hnew
        rw [← List.concat_eq_append]
        exact List.Nodup.concat hnew (h.nodup inPort old hold)
  · intro port row other hrow
    rw [List.mem_append, List.mem_singleton]
    rcases mem_appendEntry h.keys hrow with ⟨hport, hold⟩ | ⟨rfl, ⟨rfl, hnew⟩ | ⟨old, hold, rfl⟩⟩
    · rw [h.mem_row port row other hold]
      simp [hport]
    · simp [h.unseen hnew other]
    · rw [← h.mem_row port old other hold]
      split
      · rename_i hknown
        simp only [Prod.mk.injEq, true_and, iff_self_or]
        rintro rfl
        exact hknown
      · simp
  · intro port other hother
    have hkey : port ∈ (appendEntry ports inPort entry).map Prod.fst := by
      rw [mem_keys_appendEntry]
      rcases List.mem_append.mp hother with hseen | hlast
      · obtain ⟨row, hrow⟩ := h.row_of_seen port other hseen
        exact .inl (List.mem_map_of_mem (f := Prod.fst) hrow)
      · exact .inr (congrArg Prod.fst (List.mem_singleton.mp hlast))
    obtain ⟨⟨_, row⟩, hrow, rfl⟩ := List.mem_map.mp hkey
    exact ⟨row, hrow⟩

/-- What the loop over the paths sees at a switch. -/
def seenAt (node : Dpid) (weighted : List (PathPorts × ℕ)) : List (Port × Port × ℕ) :=
  weighted.filterMap fun path ↦ (path.1.lookup node).map fun ports ↦ (ports.1, ports.2, path.2)

theorem nodePorts_collects (node : Dpid) (weighted : List (PathPorts × ℕ)) :
    Collects (nodePorts node weighted) (seenAt node weighted) := by
  induction weighted using List.reverseRecOn with
  | nil => exact ⟨by simp [nodePorts], by simp [nodePorts], by simp [nodePorts],
      by simp [nodePorts], by simp [seenAt]⟩
  | append_singleton earlier path ih =>
    rw [seenAt, List.filterMap_append, nodePorts, List.foldl_append]
    change Collects (List.foldl _ (nodePorts node earlier) [path]) (seenAt node earlier ++ _)
    cases hlookup : path.1.lookup node with
    | none => simpa [hlookup] using ih
    | some ports => simpa [hlookup] using ih.append ports.1 (ports.2, path.2)

end Wispr.Multipath.Groups
