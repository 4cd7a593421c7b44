import Wispr.Controller.Install

/-!
# Coherence of the topology state

Four handlers update four structures, each a different subset of them. Path computation relies on
their agreement: it looks up the graph's paths in `datapath_list` and in `adjacency`. The deletion
of a link removes its adjacency entries and keeps its edge, and the addition of a link puts its ends
into the graph whether or not they have entered. Runs without a deletion of a known link, in which a
switch that has not entered is never more than a leaf of the graph, keep the state coherent.
-/

open Wispr.Foundation.Effects

namespace Wispr.Controller.Coherence

open Paths Install

/-- Path computation and installation between switches that have entered find all they look up. -/
structure PathsUsable (env : Env) (topo : TopologyState) : Prop where
  known : ∀ src ∈ topo.switches, ∀ dst ∈ topo.switches, ∀ paths,
    getPaths env topo src dst = .ok paths → ∀ path ∈ paths, ∀ node ∈ path,
      node ∈ topo.datapathList
  linked : ∀ src ∈ topo.switches, ∀ dst ∈ topo.switches, ∀ paths,
    getPaths env topo src dst = .ok paths → ∀ path ∈ paths,
      path.IsChain fun u v ↦ topo.adjacency u v ≠ none ∧ topo.adjacency v u ≠ none
  cost : ∀ src ∈ topo.switches, ∀ dst ∈ topo.switches, ∀ paths,
    getPaths env topo src dst = .ok paths → ∀ path ∈ paths,
      getPathCost topo path ≠ .error .keyError
  ports : ∀ src ∈ topo.switches, ∀ dst ∈ topo.switches, ∀ paths,
    getPaths env topo src dst = .ok paths → ∀ firstPort lastPort,
      addPortsToPaths topo paths firstPort lastPort ≠ .error .keyError
  install : ∀ (call : InstallCall) (draws : List ℕ), call.src ∈ topo.switches →
    call.dst ∈ topo.switches → (installPaths env topo call draws).result ≠ .error .keyError

/-- Both directions of a link have a port. -/
def Joined (topo : TopologyState) (u v : Dpid) : Prop :=
  topo.adjacency u v ≠ none ∧ topo.adjacency v u ≠ none

theorem adjacencyPort_of_some {topo : TopologyState} {u v : Dpid} {port : Port}
    (h : topo.adjacency u v = some port) : adjacencyPort topo u v = .ok port := by
  simp [adjacencyPort, h]

/-- The cost of a link with ports can only fail on a bandwidth of zero. -/
theorem getLinkCost_of_joined {topo : TopologyState} {u v : Dpid} (hjoined : Joined topo u v) :
    getLinkCost topo u v = .error .zeroDivisionError ∨ ∃ cost, getLinkCost topo u v = .ok cost := by
  obtain ⟨e1, he1⟩ := Option.ne_none_iff_exists'.mp hjoined.1
  obtain ⟨e2, he2⟩ := Option.ne_none_iff_exists'.mp hjoined.2
  simp only [getLinkCost, adjacencyPort_of_some he1, adjacencyPort_of_some he2, bind, Except.bind]
  split
  · exact .inl rfl
  · exact .inr ⟨_, rfl⟩

theorem getPathCostFrom_no_keyError {topo : TopologyState} {path : List Dpid}
    (hjoined : path.IsChain (Joined topo)) (cost : ℕ) :
    getPathCostFrom topo cost path ≠ .error .keyError := by
  induction path generalizing cost with
  | nil => simp [getPathCostFrom]
  | cons u rest ih =>
    cases rest with
    | nil => simp [getPathCostFrom]
    | cons v rest =>
      obtain ⟨hlink, hrest⟩ := List.isChain_cons_cons.mp hjoined
      rcases getLinkCost_of_joined hlink with hzero | ⟨linkCost, hcost⟩
      · simp [getPathCostFrom, hzero, bind, Except.bind]
      · simp only [getPathCostFrom, hcost, bind, Except.bind]
        exact ih hrest _

theorem addPortsToPath_no_keyError {topo : TopologyState} {path : List Dpid}
    (hjoined : path.IsChain (Joined topo)) (lastPort inPort : Port) (p : PathPorts) :
    addPortsToPath topo lastPort inPort p path ≠ .error .keyError := by
  induction path generalizing inPort p with
  | nil => simp [addPortsToPath]
  | cons u rest ih =>
    cases rest with
    | nil => simp [addPortsToPath]
    | cons v rest =>
      obtain ⟨⟨huv, hvu⟩, hrest⟩ := List.isChain_cons_cons.mp hjoined
      obtain ⟨e1, he1⟩ := Option.ne_none_iff_exists'.mp huv
      obtain ⟨e2, he2⟩ := Option.ne_none_iff_exists'.mp hvu
      simp only [addPortsToPath, adjacencyPort_of_some he1, adjacencyPort_of_some he2, bind,
        Except.bind]
      exact ih hrest _ _

theorem getPaths_no_keyError (env : Env) (topo : TopologyState) (src dst : Dpid) :
    getPaths env topo src dst ≠ .error .keyError := by
  unfold getPaths
  split
  · simp
  · split
    · rename_i exception hraised
      intro hkey
      cases hkey
      exact env.shortestSimplePaths_no_keyError topo.G src dst hraised
    · simp

theorem chooseMirror_no_keyError (pathsWithPorts : List PathPorts) (path : PathPorts)
    (draws : List ℕ) : chooseMirror pathsWithPorts path draws ≠ .error .keyError := by
  induction draws with
  | nil => simp [chooseMirror]
  | cons draw draws ih =>
    simp only [chooseMirror]
    split
    · simp
    · split
      · exact ih
      · simp

/-- The installation loop raises no `KeyError` when every switch of every path has a datapath. -/
theorem installLoop_no_keyError {env : Env} {topo : TopologyState} {call : InstallCall}
    {pathsWithPorts : List PathPorts}
    (hknown : ∀ path ∈ pathsWithPorts, ∀ item ∈ path, item.1 ∈ topo.datapathList)
    {firstPath : Bool} {vlan mirrIorvlan : ℕ} {paths : List PathPorts}
    (hsub : ∀ path ∈ paths, path ∈ pathsWithPorts) {draws : List ℕ} :
    (installLoop env topo call pathsWithPorts firstPath vlan mirrIorvlan paths draws).result ≠
      .error .keyError := by
  have hitems : ∀ path ∈ pathsWithPorts, ∀ item ∈ env.items path, item.1 ∈ topo.datapathList :=
    fun path hpath item hitem ↦ hknown path hpath item ((env.items_perm path).mem_iff.mp hitem)
  induction paths generalizing firstPath vlan mirrIorvlan draws with
  | nil => simp [installLoop]
  | cons path rest ih =>
    intro hraised
    rcases Logged.bind_error hraised with hown | ⟨_, -, hchoose⟩
    · rw [installNodes_result (hitems path (hsub path (List.mem_cons_self ..)))] at hown
      cases hown
    rcases Logged.bind_error hchoose with hdraw | ⟨⟨mirror, draws'⟩, hmirror, hinstall⟩
    · exact chooseMirror_no_keyError _ _ _ hdraw
    rcases Logged.bind_error hinstall with hmirrored | ⟨_, -, hrest⟩
    · rw [installNodes_result (hitems mirror (chooseMirror_ok hmirror).1)] at hmirrored
      cases hmirrored
    · exact ih (fun other hother ↦ hsub other (List.mem_cons_of_mem _ hother)) hrest

/-- The returned port is looked up at the source switch, which every path starts with. -/
theorem firstOutPort_no_keyError {topo : TopologyState} {src : Dpid} {firstPort lastPort : Port}
    {paths : List (List Dpid)} {pathsWithPorts : List PathPorts}
    (halong : List.Forall₂ (PortsAlong topo lastPort firstPort) paths pathsWithPorts)
    (hstarts : ∀ path ∈ paths, path.head? = some src) :
    firstOutPort pathsWithPorts src ≠ .error .keyError := by
  cases halong with
  | nil => simp [firstOutPort]
  | @cons path ports rest others hfirst hrest =>
    have hhead := hstarts path (List.mem_cons_self ..)
    cases hfirst with
    | last inPort node =>
      simp only [List.head?_cons, Option.some.injEq] at hhead
      simp [firstOutPort, hhead]
    | hop hout hin htail =>
      simp only [List.head?_cons, Option.some.injEq] at hhead
      simp [firstOutPort, hhead]

/-! ## The invariant -/

/-- What the structures have to agree on. -/
structure Coherent (topo : TopologyState) : Prop where
  datapath_iff : ∀ switch, switch ∈ topo.datapathList ↔ switch ∈ topo.switches
  nodup : topo.switches.Nodup
  joined : ∀ {u v}, u ≠ v → s(u, v) ∈ topo.G.edges → Joined topo u v
  leaf : ∀ {node v w}, node ∉ topo.switches → s(node, v) ∈ topo.G.edges →
    s(node, w) ∈ topo.G.edges → v ≠ node → w ≠ node → v = w

/-- A switch between two different ones on a path of the graph has entered. -/
theorem Coherent.entered_between {topo : TopologyState} (hcoherent : Coherent topo)
    {previous node next : Dpid} (hbefore : s(previous, node) ∈ topo.G.edges)
    (hafter : s(node, next) ∈ topo.G.edges) (hprevious : previous ≠ node) (hnext : next ≠ node)
    (hdiffer : previous ≠ next) : node ∈ topo.switches := by
  by_contra hnew
  exact hdiffer (hcoherent.leaf hnew (Sym2.eq_swap ▸ hbefore) hafter hprevious hnext)

/-- All switches of a simple path between switches that have entered have entered. The induction
is on the rest of the path; its first switch has entered, and the next one lies between two. -/
theorem Coherent.entered_of_simple {topo : TopologyState} (hcoherent : Coherent topo)
    {path : List Dpid} {src dst : Dpid} (hstart : path.head? = some src)
    (hend : path.getLast? = some dst) (hnodup : path.Nodup)
    (hlinked : path.IsChain fun u v ↦ s(u, v) ∈ topo.G.edges) (hsrc : src ∈ topo.switches)
    (hdst : dst ∈ topo.switches) : ∀ node ∈ path, node ∈ topo.switches := by
  induction path generalizing src with
  | nil => simp
  | cons first rest ih =>
    simp only [List.head?_cons, Option.some.injEq] at hstart
    subst hstart
    intro node hnode
    rcases List.mem_cons.mp hnode with rfl | hrest
    · exact hsrc
    cases rest with
    | nil => cases hrest
    | cons second rest =>
      obtain ⟨hfirst, hrestNodup⟩ := List.nodup_cons.mp hnodup
      obtain ⟨hlink, hrestLinked⟩ := List.isChain_cons_cons.mp hlinked
      have hsecond : second ∈ topo.switches := by
        cases rest with
        | nil =>
          simp only [List.getLast?_cons_cons, List.getLast?_singleton, Option.some.injEq] at hend
          exact hend ▸ hdst
        | cons third rest =>
          have hlink' := (List.isChain_cons_cons.mp hrestLinked).1
          have hsecondThird := (List.nodup_cons.mp hrestNodup).1
          simp only [List.mem_cons, not_or] at hfirst hsecondThird
          exact hcoherent.entered_between hlink hlink' hfirst.1 (Ne.symm hsecondThird.1) hfirst.2.1
      exact ih rfl (by simpa using hend) hrestNodup hrestLinked hsecond node hrest

/-- Along a simple path of the graph all links have ports. -/
theorem Coherent.joined_of_simple {topo : TopologyState} (hcoherent : Coherent topo)
    {path : List Dpid} (hnodup : path.Nodup)
    (hlinked : path.IsChain fun u v ↦ s(u, v) ∈ topo.G.edges) : path.IsChain (Joined topo) := by
  induction path with
  | nil => exact .nil
  | cons first rest ih =>
    obtain ⟨hfirst, hrestNodup⟩ := List.nodup_cons.mp hnodup
    cases rest with
    | nil => exact .singleton first
    | cons second rest =>
      obtain ⟨hlink, hrestLinked⟩ := List.isChain_cons_cons.mp hlinked
      refine .cons_cons (hcoherent.joined ?_ hlink) (ih hrestNodup hrestLinked)
      intro hsame
      exact hfirst (hsame ▸ List.mem_cons_self ..)

theorem Coherent.pathsUsable {topo : TopologyState} (hcoherent : Coherent topo) (env : Env) :
    PathsUsable env topo := by
  have hknown : ∀ src ∈ topo.switches, ∀ dst ∈ topo.switches, ∀ paths,
      getPaths env topo src dst = .ok paths → ∀ path ∈ paths, ∀ node ∈ path,
        node ∈ topo.datapathList := by
    intro src hsrc dst hdst paths hpaths path hpath node hnode
    have hsimple := getPaths_simple hpaths path hpath
    rw [hcoherent.datapath_iff]
    exact hcoherent.entered_of_simple hsimple.starts hsimple.ends hsimple.nodup hsimple.linked hsrc
      hdst node hnode
  have hjoined : ∀ {src dst paths}, getPaths env topo src dst = .ok paths → ∀ path ∈ paths,
      path.IsChain (Joined topo) := by
    intro src dst paths hpaths path hpath
    have hsimple := getPaths_simple hpaths path hpath
    exact hcoherent.joined_of_simple hsimple.nodup hsimple.linked
  have hcost : ∀ {src dst paths}, getPaths env topo src dst = .ok paths → ∀ path ∈ paths,
      getPathCost topo path ≠ .error .keyError :=
    fun hpaths path hpath ↦ getPathCostFrom_no_keyError (hjoined hpaths path hpath) 0
  have hports : ∀ {src dst paths}, getPaths env topo src dst = .ok paths → ∀ firstPort lastPort,
      addPortsToPaths topo paths firstPort lastPort ≠ .error .keyError := by
    intro src dst paths hpaths firstPort lastPort hraised
    obtain ⟨path, hpath, hpathRaised⟩ := mapM_error hraised
    exact addPortsToPath_no_keyError (hjoined hpaths path hpath) _ _ _ hpathRaised
  refine ⟨hknown, fun _ _ _ _ _ hpaths ↦ hjoined hpaths, fun _ _ _ _ _ hpaths ↦ hcost hpaths,
    fun _ _ _ _ _ hpaths ↦ hports hpaths, ?_⟩
  intro call draws hsrc hdst hraised
  rcases Logged.bind_error hraised with hgraph | ⟨paths, hpaths, hrest⟩
  · exact getPaths_no_keyError env topo call.src call.dst hgraph
  rcases Logged.bind_error hrest with hsum | ⟨costs, -, hrest⟩
  · obtain ⟨path, hpath, hpathRaised⟩ := mapM_error hsum
    exact hcost hpaths path hpath hpathRaised
  rcases Logged.bind_error hrest with hadd | ⟨pathsWithPorts, hpathsWithPorts, hrest⟩
  · exact hports hpaths _ _ hadd
  have halong := addPortsToPaths_ok hpaths hpathsWithPorts
  rcases Logged.bind_error hrest with hloop | ⟨_, -, hfirst⟩
  · refine installLoop_no_keyError ?_ (fun _ hpath ↦ hpath) hloop
    intro ports hmem item hitem
    obtain ⟨index, hindex, rfl⟩ := List.getElem_of_mem hmem
    have hindex' : index < paths.length := halong.length_eq ▸ hindex
    have hkeys := (halong.get hindex' hindex).keys
    simp only [List.get_eq_getElem] at hkeys
    refine hknown call.src hsrc call.dst hdst paths hpaths paths[index] (List.getElem_mem _)
      item.1 ?_
    rw [← hkeys]
    exact List.mem_map_of_mem hitem
  · refine firstOutPort_no_keyError halong ?_ hfirst
    intro path hpath
    exact (getPaths_simple hpaths path hpath).starts

/-- A switch that has entered, or a new one without any other neighbour. -/
def LeafTowards (topo : TopologyState) (node neighbour : Dpid) : Prop :=
  node ∈ topo.switches ∨ ∀ w, s(node, w) ∈ topo.G.edges → w = node ∨ w = neighbour

/-- The events that keep the state coherent: no known link is deleted, and no added link makes a
switch that has not entered more than a leaf. -/
def Allowed (topo : TopologyState) : TopologyEvent → Prop
  | .switchEnter _ => True
  | .switchLeave _ => True
  | .linkAdd s1 s2 => s1.dpid = s2.dpid ∨
      LeafTowards topo s1.dpid s2.dpid ∧ LeafTowards topo s2.dpid s1.dpid
  | .linkDelete s1 s2 => s1.dpid = s2.dpid ∨ s(s1.dpid, s2.dpid) ∉ topo.G.edges

/-- Every event of the run is allowed in the state before it. -/
def AllowedRun : TopologyState → List TopologyEvent → Prop
  | _, [] => True
  | topo, event :: rest => Allowed topo event ∧ AllowedRun (handleEvent topo event) rest

theorem coherent_init : Coherent .init where
  datapath_iff switch := by simp [TopologyState.init]
  nodup := List.nodup_nil
  joined := by
    intro u v _ hedge
    simp [TopologyState.init, Graph.empty] at hedge
  leaf := by
    intro node v w _ hedge
    simp [TopologyState.init, Graph.empty] at hedge

theorem switchEnterHandler_coherent {topo : TopologyState} (hcoherent : Coherent topo)
    (switch : Dpid) : Coherent (switchEnterHandler topo switch) := by
  unfold switchEnterHandler
  split
  · rename_i hnew
    refine ⟨?_, ?_, hcoherent.joined, ?_⟩
    · intro other
      simp [hcoherent.datapath_iff, or_comm]
    · exact List.nodup_append.mpr ⟨hcoherent.nodup, List.nodup_singleton switch, by
        intro other hother new hsame hequal
        exact hnew (List.mem_singleton.mp hsame ▸ hequal ▸ hother)⟩
    · intro node v w hnode
      exact hcoherent.leaf fun hmem ↦ hnode (List.mem_append_left _ hmem)
  · exact hcoherent

theorem switchLeaveHandler_coherent {topo : TopologyState} (hcoherent : Coherent topo)
    (switch : Dpid) : Coherent (switchLeaveHandler topo switch) := by
  unfold switchLeaveHandler
  split
  · refine ⟨?_, hcoherent.nodup.erase switch, ?_, ?_⟩
    · intro other
      simp [hcoherent.datapath_iff, hcoherent.nodup.mem_erase_iff]
    · intro u v hdiffer hedge
      obtain ⟨hold, hu, hv⟩ := Graph.mem_removeNode.mp hedge
      simpa [Joined, hu, hv] using hcoherent.joined hdiffer hold
    · intro node v w hnode hv hw hvnode hwnode
      obtain ⟨holdv, hkept, -⟩ := Graph.mem_removeNode.mp hv
      obtain ⟨holdw, -, -⟩ := Graph.mem_removeNode.mp hw
      refine hcoherent.leaf ?_ holdv holdw hvnode hwnode
      intro hmem
      exact hnode ((List.mem_erase_of_ne hkept).mpr hmem)
  · exact hcoherent

/-- After the addition of a link both its directions have ports, and other entries are kept. -/
theorem linkAddHandler_joined {topo : TopologyState} {s1 s2 : LinkEnd} {u v : Dpid}
    (h : s(u, v) = s(s1.dpid, s2.dpid) ∨ Joined topo u v) :
    Joined (linkAddHandler topo s1 s2) u v := by
  simp only [Joined, linkAddHandler, setAdjacency_adjacency]
  rcases h with hsame | ⟨huv, hvu⟩
  · rcases Sym2.eq_iff.mp hsame with ⟨rfl, rfl⟩ | ⟨rfl, rfl⟩
    · constructor
      · split <;> simp
      · simp
    · constructor
      · simp
      · split <;> simp
  · constructor
    · split
      · simp
      · split
        · simp
        · exact huv
    · split
      · simp
      · split
        · simp
        · exact hvu

/-- An allowed link is the only one of an end that has not entered. -/
theorem only_neighbour_of_allowed {topo : TopologyState} {s1 s2 : LinkEnd}
    (hallowed : Allowed topo (.linkAdd s1 s2)) {node v : Dpid} (hnode : node ∉ topo.switches)
    (hsame : s(node, v) = s(s1.dpid, s2.dpid)) (hdiffer : v ≠ node) {w : Dpid}
    (hedge : s(node, w) ∈ topo.G.edges) (hother : w ≠ node) : w = v := by
  rcases Sym2.eq_iff.mp hsame with ⟨rfl, rfl⟩ | ⟨rfl, rfl⟩
  · rcases hallowed with hloop | ⟨hleaf, -⟩
    · exact absurd hloop.symm hdiffer
    · exact ((hleaf.resolve_left hnode) w hedge).resolve_left hother
  · rcases hallowed with hloop | ⟨-, hleaf⟩
    · exact absurd hloop hdiffer
    · exact ((hleaf.resolve_left hnode) w hedge).resolve_left hother

theorem linkAddHandler_coherent {topo : TopologyState} (hcoherent : Coherent topo)
    {s1 s2 : LinkEnd} (hallowed : Allowed topo (.linkAdd s1 s2)) :
    Coherent (linkAddHandler topo s1 s2) := by
  have hedges : ∀ {x y}, s(x, y) ∈ (linkAddHandler topo s1 s2).G.edges ↔
      s(x, y) = s(s1.dpid, s2.dpid) ∨ s(x, y) ∈ topo.G.edges := Graph.mem_addEdge
  refine ⟨hcoherent.datapath_iff, hcoherent.nodup, ?_, ?_⟩
  · intro u v hdiffer hedge
    apply linkAddHandler_joined
    rcases hedges.mp hedge with hsame | hold
    · exact .inl hsame
    · exact .inr (hcoherent.joined hdiffer hold)
  · intro node v w hnode hv hw hvnode hwnode
    rcases hedges.mp hv with hnewv | holdv
    · rcases hedges.mp hw with hneww | holdw
      · exact (Sym2.congr_right.mp (hnewv.trans hneww.symm))
      · exact (only_neighbour_of_allowed hallowed hnode hnewv hvnode holdw hwnode).symm
    · rcases hedges.mp hw with hneww | holdw
      · exact only_neighbour_of_allowed hallowed hnode hneww hwnode holdv hvnode
      · exact hcoherent.leaf hnode holdv holdw hvnode hwnode

/-- Deleting a link the graph does not know removes no entry a path needs. -/
theorem linkDeleteHandler_coherent {topo : TopologyState} (hcoherent : Coherent topo)
    {s1 s2 : LinkEnd} (hallowed : Allowed topo (.linkDelete s1 s2)) :
    Coherent (linkDeleteHandler topo s1 s2) := by
  unfold linkDeleteHandler
  split
  · exact hcoherent
  · refine ⟨hcoherent.datapath_iff, hcoherent.nodup, ?_, hcoherent.leaf⟩
    intro u v hdiffer hedge
    have hother : s(u, v) ≠ s(s1.dpid, s2.dpid) := by
      intro hsame
      rcases hallowed with hloop | hunknown
      · rcases Sym2.eq_iff.mp hsame with ⟨hu, hv⟩ | ⟨hu, hv⟩
        · exact hdiffer (hu.trans (hloop.trans hv.symm))
        · exact hdiffer (hu.trans (hloop.symm.trans hv.symm))
      · exact hunknown (hsame ▸ hedge)
    simp only [Joined, setAdjacency_adjacency]
    have hold := hcoherent.joined hdiffer hedge
    rw [Ne, Sym2.eq_iff] at hother
    push Not at hother
    have hforward : ¬ (u = s2.dpid ∧ v = s1.dpid) := fun hends ↦ hother.2 hends.1 hends.2
    have hforward' : ¬ (u = s1.dpid ∧ v = s2.dpid) := fun hends ↦ hother.1 hends.1 hends.2
    have hbackward : ¬ (v = s2.dpid ∧ u = s1.dpid) := fun hends ↦ hforward' hends.symm
    have hbackward' : ¬ (v = s1.dpid ∧ u = s2.dpid) := fun hends ↦ hforward hends.symm
    rw [if_neg hforward, if_neg hforward', if_neg hbackward, if_neg hbackward']
    exact hold

theorem handleEvent_coherent {topo : TopologyState} (hcoherent : Coherent topo)
    {event : TopologyEvent} (hallowed : Allowed topo event) :
    Coherent (handleEvent topo event) := by
  cases event with
  | switchEnter switch => exact switchEnterHandler_coherent hcoherent switch
  | switchLeave switch => exact switchLeaveHandler_coherent hcoherent switch
  | linkAdd s1 s2 => exact linkAddHandler_coherent hcoherent hallowed
  | linkDelete s1 s2 => exact linkDeleteHandler_coherent hcoherent hallowed

theorem run_coherent {topo : TopologyState} (hcoherent : Coherent topo)
    {events : List TopologyEvent} (hallowed : AllowedRun topo events) :
    Coherent (events.foldl handleEvent topo) := by
  induction events generalizing topo with
  | nil => exact hcoherent
  | cons event rest ih => exact ih (handleEvent_coherent hcoherent hallowed.1) hallowed.2

theorem AllowedRun.front {topo : TopologyState} {front back : List TopologyEvent}
    (h : AllowedRun topo (front ++ back)) : AllowedRun topo front := by
  induction front generalizing topo with
  | nil => trivial
  | cons event rest ih => exact ⟨h.1, ih h.2⟩

/-- **Coherence under churn.** In every run of topology events from the initial state that deletes
no link known to the graph and never makes a switch that has not entered more than a leaf, in every
state reached and between any two switches that have entered, every path consists of switches with
a datapath, all its links have both adjacency entries, and neither the path computation nor the
installation raises a `KeyError`. -/
theorem topology_coherent_under_churn (env : Env) (events : List TopologyEvent)
    (hallowed : AllowedRun .init events) (front back : List TopologyEvent)
    (hreached : events = front ++ back) : PathsUsable env (front.foldl handleEvent .init) := by
  subst hreached
  exact (run_coherent coherent_init hallowed.front).pathsUsable env

/-- The run of the sample pair, followed by a leave and a late deletion, is allowed. -/
theorem topology_coherent_pair : PathsUsable directPaths pairTopology := by
  refine topology_coherent_under_churn directPaths
    [.switchEnter 1, .switchEnter 2, .linkAdd ⟨1, 3⟩ ⟨2, 3⟩, .switchLeave 2,
      .linkDelete ⟨1, 3⟩ ⟨2, 3⟩] ?_ [.switchEnter 1, .switchEnter 2, .linkAdd ⟨1, 3⟩ ⟨2, 3⟩] _ rfl
  refine ⟨trivial, trivial, .inr ⟨.inl (by decide), .inl (by decide)⟩, trivial, .inr ?_, trivial⟩
  decide

/-- After the deletion of the only link the graph still offers the path over it, and the ports of
that path are gone. -/
theorem deleted_link_breaks_paths : ¬ ∀ (env : Env) (events : List TopologyEvent),
    PathsUsable env (events.foldl handleEvent .init) := by
  intro halways
  have husable := halways directPaths [.switchEnter 1, .switchEnter 2, .linkAdd ⟨1, 3⟩ ⟨2, 3⟩,
    .linkDelete ⟨1, 3⟩ ⟨2, 3⟩]
  have hlinked := husable.linked 1 (by decide) 2 (by decide) [[1, 2]] (by decide) [1, 2]
    (List.mem_singleton_self _)
  have hports := (List.isChain_cons_cons.mp hlinked).1.1
  exact hports (by decide)

end Wispr.Controller.Coherence
