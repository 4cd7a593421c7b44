import Mathlib.Data.Sym.Sym2
import Wispr.Foundation.Effects

/-!
# Topology state of the multipath controller

The part of `ryu_multipath.py` that tracks switches and links and computes paths: `switches`,
`datapath_list`, `adjacency`, `bandwidths` and the graph `G`, the four topology handlers, and
`get_paths`, `get_link_cost`, `get_path_cost` and `add_ports_to_paths` with the exceptions they can
raise.

`nx.shortest_simple_paths` is a parameter with its documented law, that it yields simple paths of
the graph. So is the iteration order of a Python dictionary, which can be any order of its items.
Rows that a `defaultdict` creates on a read stay empty and are not told apart from absent ones.
-/

open Wispr.Foundation.Effects

namespace Wispr.Controller.Paths

abbrev Dpid := ℕ
abbrev Port := ℕ

/-- What a call can raise. `unfinished` stands for a call that has used up the random draws it was
given and is still waiting for the next one. -/
inductive PyExc where
  | keyError
  | indexError
  | zeroDivisionError
  | structError
  | networkXNoPath
  | nodeNotFound
  | unfinished
  deriving DecidableEq, Repr

def referenceBw : ℕ := 10000000
def defaultBw : ℕ := 10000000
def maxPaths : ℕ := 10

/-- `nx.Graph`. -/
structure Graph where
  nodes : Finset Dpid
  edges : Finset (Sym2 Dpid)

namespace Graph

def empty : Graph := ⟨∅, ∅⟩

def addNode (graph : Graph) (node : Dpid) : Graph := { graph with nodes := insert node graph.nodes }

/-- `add_edge` adds missing end points as well. -/
def addEdge (graph : Graph) (u v : Dpid) : Graph :=
  ⟨insert u (insert v graph.nodes), insert s(u, v) graph.edges⟩

/-- `remove_node` removes the edges at the node. -/
def removeNode (graph : Graph) (node : Dpid) : Graph :=
  ⟨graph.nodes.erase node, graph.edges.filter fun edge ↦ node ∉ edge⟩

theorem mem_addEdge {graph : Graph} {u v x y : Dpid} :
    s(x, y) ∈ (graph.addEdge u v).edges ↔ s(x, y) = s(u, v) ∨ s(x, y) ∈ graph.edges := by
  simp [addEdge]

theorem mem_removeNode {graph : Graph} {node x y : Dpid} :
    s(x, y) ∈ (graph.removeNode node).edges ↔ s(x, y) ∈ graph.edges ∧ x ≠ node ∧ y ≠ node := by
  simp [removeNode, eq_comm]

/-- A path of the graph from one switch to another that repeats no switch. -/
structure SimplePath (graph : Graph) (src dst : Dpid) (path : List Dpid) : Prop where
  starts : path.head? = some src
  ends : path.getLast? = some dst
  nodup : path.Nodup
  linked : path.IsChain fun u v ↦ s(u, v) ∈ graph.edges

end Graph

/-- Items of the port dictionary of a path: switch, ingress port, egress port. -/
abbrev PathPorts := List (Dpid × Port × Port)

/-- Code outside the repository. -/
structure Env where
  shortestSimplePaths : Graph → Dpid → Dpid → Except PyExc (List (List Dpid))
  shortestSimplePaths_simple : ∀ {graph src dst paths},
    shortestSimplePaths graph src dst = .ok paths →
      ∀ path ∈ paths, graph.SimplePath src dst path
  shortestSimplePaths_no_keyError : ∀ graph src dst,
    shortestSimplePaths graph src dst ≠ .error .keyError
  items : PathPorts → PathPorts
  items_perm : ∀ dictionary, (items dictionary).Perm dictionary

structure TopologyState where
  switches : List Dpid
  datapathList : Finset Dpid
  adjacency : Dpid → Dpid → Option Port
  bandwidths : Dpid → Port → ℕ
  G : Graph

/-- The topology part of `__init__`. -/
def TopologyState.init : TopologyState where
  switches := []
  datapathList := ∅
  adjacency _ _ := none
  bandwidths _ _ := defaultBw
  G := .empty

def TopologyState.setAdjacency (topo : TopologyState) (u v : Dpid) (port : Option Port) :
    TopologyState :=
  { topo with
    adjacency := Function.update topo.adjacency u (Function.update (topo.adjacency u) v port) }

@[simp] theorem setAdjacency_adjacency (topo : TopologyState) (u v x y : Dpid)
    (port : Option Port) : (topo.setAdjacency u v port).adjacency x y =
      if x = u ∧ y = v then port else topo.adjacency x y := by
  by_cases hx : x = u
  · subst hx
    by_cases hy : y = v
    · simp [TopologyState.setAdjacency, hy]
    · simp [TopologyState.setAdjacency, hy]
  · simp [TopologyState.setAdjacency, hx]

/-- `switch_enter_handler`. The port description request has no effect here. -/
def switchEnterHandler (topo : TopologyState) (switch : Dpid) : TopologyState :=
  if switch ∉ topo.switches then
    { topo with
      switches := topo.switches ++ [switch]
      datapathList := insert switch topo.datapathList
      G := topo.G.addNode switch }
  else topo

/-- `switch_leave_handler`. Rows of other switches keep their entry for the switch. -/
def switchLeaveHandler (topo : TopologyState) (switch : Dpid) : TopologyState :=
  if switch ∈ topo.switches then
    { topo with
      switches := topo.switches.erase switch
      datapathList := topo.datapathList.erase switch
      adjacency := Function.update topo.adjacency switch fun _ ↦ none
      G := topo.G.removeNode switch }
  else topo

/-- One end of a reported link. -/
structure LinkEnd where
  dpid : Dpid
  portNo : Port
  deriving DecidableEq, Repr

/-- `link_add_handler`. -/
def linkAddHandler (topo : TopologyState) (s1 s2 : LinkEnd) : TopologyState :=
  let topo := topo.setAdjacency s1.dpid s2.dpid (some s1.portNo)
  let topo := topo.setAdjacency s2.dpid s1.dpid (some s2.portNo)
  { topo with G := topo.G.addEdge s1.dpid s2.dpid }

/-- `link_delete_handler`. The first missing entry ends the deletion, and the graph is not
touched. -/
def linkDeleteHandler (topo : TopologyState) (s1 s2 : LinkEnd) : TopologyState :=
  if topo.adjacency s1.dpid s2.dpid = none then topo
  else
    let topo := topo.setAdjacency s1.dpid s2.dpid none
    topo.setAdjacency s2.dpid s1.dpid none

/-- `port_desc_stats_reply_handler`, for one port of the reply. -/
def portDescStatsReplyHandler (topo : TopologyState) (switch : Dpid) (portNo : Port)
    (currSpeed : ℕ) : TopologyState :=
  { topo with
    bandwidths := Function.update topo.bandwidths switch
      (Function.update (topo.bandwidths switch) portNo currSpeed) }

inductive TopologyEvent where
  | switchEnter (switch : Dpid)
  | switchLeave (switch : Dpid)
  | linkAdd (s1 s2 : LinkEnd)
  | linkDelete (s1 s2 : LinkEnd)
  deriving DecidableEq, Repr

def handleEvent (topo : TopologyState) : TopologyEvent → TopologyState
  | .switchEnter switch => switchEnterHandler topo switch
  | .switchLeave switch => switchLeaveHandler topo switch
  | .linkAdd s1 s2 => linkAddHandler topo s1 s2
  | .linkDelete s1 s2 => linkDeleteHandler topo s1 s2

/-- `adjacency[u][v]`. -/
def adjacencyPort (topo : TopologyState) (u v : Dpid) : Except PyExc Port :=
  match topo.adjacency u v with
  | some port => .ok port
  | none => .error .keyError

/-- `get_paths`. -/
def getPaths (env : Env) (topo : TopologyState) (src dst : Dpid) :
    Except PyExc (List (List Dpid)) :=
  if src = dst then .ok [[src]]
  else
    match env.shortestSimplePaths topo.G src dst with
    | .error exception => .error exception
    | .ok paths => .ok (paths.take maxPaths)

/-- `get_link_cost`. -/
def getLinkCost (topo : TopologyState) (s1 s2 : Dpid) : Except PyExc ℕ := do
  let e1 ← adjacencyPort topo s1 s2
  let e2 ← adjacencyPort topo s2 s1
  let bl := min (topo.bandwidths s1 e1) (topo.bandwidths s2 e2)
  if bl = 0 then .error .zeroDivisionError else return referenceBw / bl

/-- The loop of `get_path_cost` over the links of the path. -/
def getPathCostFrom (topo : TopologyState) (cost : ℕ) : List Dpid → Except PyExc ℕ
  | u :: v :: rest => do
      let linkCost ← getLinkCost topo u v
      getPathCostFrom topo (cost + linkCost) (v :: rest)
  | _ => .ok cost

/-- `get_path_cost`. -/
def getPathCost (topo : TopologyState) (path : List Dpid) : Except PyExc ℕ :=
  getPathCostFrom topo 0 path

/-- `p[node] = ports`: a known key keeps its place. -/
def setItem (dictionary : PathPorts) (node : Dpid) (ports : Port × Port) : PathPorts :=
  if node ∈ dictionary.map Prod.fst then
    dictionary.map fun item ↦ if item.1 = node then (node, ports) else item
  else dictionary ++ [(node, ports)]

/-- The inner loop of `add_ports_to_paths`, with the assignment that follows it. -/
def addPortsToPath (topo : TopologyState) (lastPort : Port) :
    Port → PathPorts → List Dpid → Except PyExc PathPorts
  | _, _, [] => .error .indexError
  | inPort, p, [last] => .ok (setItem p last (inPort, lastPort))
  | inPort, p, s1 :: s2 :: rest => do
      let outPort ← adjacencyPort topo s1 s2
      let p := setItem p s1 (inPort, outPort)
      let inPort ← adjacencyPort topo s2 s1
      addPortsToPath topo lastPort inPort p (s2 :: rest)

/-- `add_ports_to_paths`. -/
def addPortsToPaths (topo : TopologyState) (paths : List (List Dpid)) (firstPort lastPort : Port) :
    Except PyExc (List PathPorts) :=
  paths.mapM fun path ↦ addPortsToPath topo lastPort firstPort [] path

/-- Dictionaries may be iterated in the order of insertion. -/
theorem insertionOrder_perm (dictionary : PathPorts) : (id dictionary).Perm dictionary := .refl _

/-- An environment for graphs in which neighbours are joined by their link only. -/
def directPaths : Env where
  shortestSimplePaths graph src dst :=
    if s(src, dst) ∈ graph.edges ∧ src ≠ dst then .ok [[src, dst]] else .error .networkXNoPath
  shortestSimplePaths_simple := by
    intro graph src dst paths h path hpath
    split at h
    · rename_i hlink
      cases h
      obtain rfl := List.mem_singleton.mp hpath
      exact ⟨rfl, rfl, by simpa using hlink.2, .cons_cons hlink.1 (.singleton dst)⟩
    · cases h
  shortestSimplePaths_no_keyError := by
    intro graph src dst
    split <;> simp
  items := id
  items_perm := insertionOrder_perm

/-- Two switches that have entered, with a link between their ports 3. -/
def pairTopology : TopologyState :=
  [TopologyEvent.switchEnter 1, .switchEnter 2, .linkAdd ⟨1, 3⟩ ⟨2, 3⟩].foldl handleEvent .init

/-! ## What the computed paths look like -/

/-- Every path `get_paths` returns is a simple path of the graph. -/
theorem getPaths_simple {env : Env} {topo : TopologyState} {src dst : Dpid}
    {paths : List (List Dpid)} (h : getPaths env topo src dst = .ok paths) :
    ∀ path ∈ paths, topo.G.SimplePath src dst path := by
  unfold getPaths at h
  split at h
  · rename_i hsame
    cases h
    intro path hpath
    obtain rfl := List.mem_singleton.mp hpath
    exact ⟨rfl, by simp [hsame], List.nodup_singleton src, .singleton src⟩
  · split at h
    · cases h
    · rename_i found hfound
      cases h
      intro path hpath
      exact env.shortestSimplePaths_simple hfound path (List.mem_of_mem_take hpath)

theorem getPaths_length {env : Env} {topo : TopologyState} {src dst : Dpid}
    {paths : List (List Dpid)} (h : getPaths env topo src dst = .ok paths) :
    paths.length ≤ maxPaths := by
  unfold getPaths at h
  split at h
  · cases h
    exact (by decide : 1 ≤ maxPaths)
  · split at h
    · cases h
    · cases h
      exact List.length_take_le _ _

theorem adjacencyPort_ok {topo : TopologyState} {u v : Dpid} {port : Port}
    (h : adjacencyPort topo u v = .ok port) : topo.adjacency u v = some port := by
  unfold adjacencyPort at h
  split at h
  · rename_i found hfound
    cases h
    exact hfound
  · cases h

/-- The port dictionary of a simple path, from the port the path is entered on. -/
inductive PortsAlong (topo : TopologyState) (lastPort : Port) :
    Port → List Dpid → PathPorts → Prop
  | last (inPort : Port) (node : Dpid) :
      PortsAlong topo lastPort inPort [node] [(node, inPort, lastPort)]
  | hop {inPort outPort nextIn : Port} {node next : Dpid} {rest : List Dpid} {ports : PathPorts} :
      topo.adjacency node next = some outPort → topo.adjacency next node = some nextIn →
      PortsAlong topo lastPort nextIn (next :: rest) ports →
      PortsAlong topo lastPort inPort (node :: next :: rest) ((node, inPort, outPort) :: ports)

theorem PortsAlong.keys {topo : TopologyState} {lastPort inPort : Port} {path : List Dpid}
    {ports : PathPorts} (h : PortsAlong topo lastPort inPort path ports) :
    ports.map Prod.fst = path := by
  induction h with
  | last inPort node => rfl
  | hop hout hin hrest ih => rw [List.map_cons, ih]

/-- The ports of a switch on a path: link ports, except where the path begins and ends. -/
theorem PortsAlong.ports_of_item {topo : TopologyState} {lastPort inPort : Port} {path : List Dpid}
    {ports : PathPorts} (h : PortsAlong topo lastPort inPort path ports) {node : Dpid}
    {entry exit : Port} (hitem : (node, entry, exit) ∈ ports) :
    ((path.head? = some node ∧ entry = inPort) ∨ ∃ v, topo.adjacency node v = some entry) ∧
      ((path.getLast? = some node ∧ exit = lastPort) ∨ ∃ v, topo.adjacency node v = some exit) := by
  induction h with
  | last inPort only =>
    simp only [List.mem_singleton, Prod.mk.injEq] at hitem
    obtain ⟨rfl, rfl, rfl⟩ := hitem
    exact ⟨.inl ⟨rfl, rfl⟩, .inl ⟨rfl, rfl⟩⟩
  | @hop inPort outPort nextIn first next rest ports hout hin hrest ih =>
    rcases List.mem_cons.mp hitem with hfirst | hlater
    · simp only [Prod.mk.injEq] at hfirst
      obtain ⟨rfl, rfl, rfl⟩ := hfirst
      exact ⟨.inl ⟨rfl, rfl⟩, .inr ⟨next, hout⟩⟩
    · obtain ⟨hentry, hexit⟩ := ih hlater
      constructor
      · right
        rcases hentry with ⟨hhead, rfl⟩ | hlink
        · simp only [List.head?_cons, Option.some.injEq] at hhead
          exact ⟨first, hhead ▸ hin⟩
        · exact hlink
      · rcases hexit with ⟨hlast, rfl⟩ | hlink
        · exact .inl ⟨by simpa using hlast, rfl⟩
        · exact .inr hlink

theorem PortsAlong.unique {topo : TopologyState} {lastPort inPort : Port} {path : List Dpid}
    {ports ports' : PathPorts} (h : PortsAlong topo lastPort inPort path ports)
    (h' : PortsAlong topo lastPort inPort path ports') : ports = ports' := by
  induction h generalizing ports' with
  | last inPort node => cases h'; rfl
  | hop hout hin hrest ih =>
    cases h' with
    | hop hout' hin' hrest' =>
      cases hout.symm.trans hout'
      cases hin.symm.trans hin'
      rw [ih hrest']

theorem addPortsToPath_ok {topo : TopologyState} {lastPort inPort : Port} {p result : PathPorts}
    {path : List Dpid} (h : addPortsToPath topo lastPort inPort p path = .ok result)
    (hnodup : path.Nodup) (hfresh : ∀ node ∈ path, node ∉ p.map Prod.fst) :
    ∃ ports, result = p ++ ports ∧ PortsAlong topo lastPort inPort path ports := by
  induction path generalizing inPort p with
  | nil => cases h
  | cons node rest ih =>
    have hnew := hfresh node (List.mem_cons_self ..)
    cases rest with
    | nil =>
      simp only [addPortsToPath, setItem, hnew, if_false, Except.ok.injEq] at h
      exact ⟨_, h.symm, .last inPort node⟩
    | cons next rest =>
      simp only [addPortsToPath, setItem, hnew, if_false] at h
      cases hout : adjacencyPort topo node next with
      | error exception => simp [hout, bind, Except.bind] at h
      | ok outPort =>
        cases hin : adjacencyPort topo next node with
        | error exception => simp [hout, hin, bind, Except.bind] at h
        | ok nextIn =>
          simp only [hout, hin, bind, Except.bind] at h
          obtain ⟨hnode, hrest⟩ := List.nodup_cons.mp hnodup
          obtain ⟨ports, rfl, hports⟩ := ih h hrest (by
            intro other hother
            simp only [List.map_append, List.map_cons, List.map_nil, List.mem_append,
              List.mem_singleton, not_or]
            refine ⟨hfresh other (List.mem_cons_of_mem _ hother), ?_⟩
            intro hsame
            exact hnode (hsame ▸ hother))
          refine ⟨(node, inPort, outPort) :: ports, by simp, ?_⟩
          exact .hop (adjacencyPort_ok hout) (adjacencyPort_ok hin) hports

/-- The port dictionaries of the paths `get_paths` returns. -/
theorem addPortsToPaths_ok {env : Env} {topo : TopologyState} {src dst : Dpid}
    {paths : List (List Dpid)} {firstPort lastPort : Port} {pathsWithPorts : List PathPorts}
    (hpaths : getPaths env topo src dst = .ok paths)
    (h : addPortsToPaths topo paths firstPort lastPort = .ok pathsWithPorts) :
    List.Forall₂ (PortsAlong topo lastPort firstPort) paths pathsWithPorts := by
  have hsimple := getPaths_simple hpaths
  have hresults := mapM_ok h
  rw [List.forall₂_iff_get] at hresults ⊢
  refine ⟨hresults.1, ?_⟩
  intro index hindex hindex'
  have hmem := hsimple _ (List.get_mem paths ⟨index, hindex⟩)
  obtain ⟨ports, hports, halong⟩ := addPortsToPath_ok (hresults.2 index hindex hindex') hmem.nodup
    (by simp)
  rw [List.nil_append] at hports
  rwa [hports]

end Wispr.Controller.Paths
