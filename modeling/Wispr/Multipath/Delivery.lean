import Wispr.Foundation.Journeys
import Wispr.Multipath.Tables

/-!
# Delivery through select groups

After `install_paths` of `ryu_multipath2.py` every switch on a path sends packets of the pair along
the paths that enter it on one port, whatever port a packet came in on. That is harmless as long as
the hops of all paths together have no cycle. Where two paths use switches in different orders, some
order of iteration over `ports` lets a packet travel in a circle.
-/

open Wispr.Foundation.FlowTable Wispr.Foundation.Journeys

namespace Wispr.Multipath.Delivery

open Controller.Paths Controller.PortMaps Search Groups Tables
open Controller.Install hiding installPaths

structure Ipv4Between (packet : Packet) (src dst : Ip) : Prop where
  ethType : packet.ethType = 0x0800
  header : ∃ header, packet.ipv4 = some header ∧ header.src = src ∧ header.dst = dst

/-- The rules of priority 32768 can send the packet to the port. -/
def Sends (network : Network) (packet : Packet) (node : Dpid) (inPort outPort : Port) : Prop :=
  ∃ rule, Selected OFPMatch.accepts
      ((network.switches node).flows.filter fun rule ↦ rule.priority = 32768)
      (inPort, packet) rule ∧
    outPort ∈ (network.switches node).outputs rule.actions

/-- Two ports are the ends of one link. -/
def Linked (topo : TopologyState) (u : Dpid) (p : Port) (v : Dpid) (q : Port) : Prop :=
  topo.adjacency u v = some p ∧ topo.adjacency v u = some q

/-- What can happen to a packet at a switch it has entered on a port. It leaves from the destination
switch through the last port, moves over a link, or is lost: without a rule, at a port without a
link, or back at the port it came from, which a switch never sends to. -/
def offers (topo : TopologyState) (call : GroupCall) (network : Network) (packet : Packet) :
    Dpid × Port → Outcome (Dpid × Port) → Prop
  | (node, inPort), .leave =>
      node = call.dst ∧ Sends network packet node inPort call.lastPort ∧ call.lastPort ≠ inPort
  | (node, inPort), .move (next, nextIn) =>
      ∃ outPort, Sends network packet node inPort outPort ∧ outPort ≠ inPort ∧
        ¬ (node = call.dst ∧ outPort = call.lastPort) ∧ Linked topo node outPort next nextIn
  | (node, inPort), .lost =>
      (∀ outPort, ¬ Sends network packet node inPort outPort) ∨
        ∃ outPort, Sends network packet node inPort outPort ∧
          (outPort = inPort ∨ ¬ (node = call.dst ∧ outPort = call.lastPort) ∧
            ∀ next nextIn, ¬ Linked topo node outPort next nextIn)

/-- Whatever buckets are picked, packets of the pair that enter the source switch on the first port
visit no switch twice and leave the destination switch on the last port. -/
def Delivered (topo : TopologyState) (call : GroupCall) (network : Network) : Prop :=
  ∀ packet, Ipv4Between packet call.ipSrc call.ipDst →
    Arrives Prod.fst (offers topo call network packet) [] (call.src, call.firstPort)

/-- In this state and with these numbers to draw the call completes and delivers, for all orders of
iteration over dictionaries. -/
def InstallDelivers (topo : TopologyState) (order : SetOrder) (fuel : ℕ) (call : GroupCall)
    (network : Network) (draws : Dpid → List ℕ) : Prop :=
  ∀ orders : Orders, ∃ outPort network',
    installPaths topo order fuel orders draws call network = .ok outPort network' ∧
      Delivered topo call network'

/-- A hop of one of the paths. -/
def Hop (paths : List (List Dpid)) (u v : Dpid) : Prop :=
  ∃ path ∈ paths, ∃ i : ℕ, path[i]? = some u ∧ path[i + 1]? = some v

/-- Paths enter the switch on one port and leave it through different ports or have different
costs: the row of that port has several entries. -/
def NeedsGroup (topo : TopologyState) (call : GroupCall) (paths : List (List Dpid)) (node : Dpid) :
    Prop :=
  ∃ pw dictionaries, paths.mapM (getPathCost topo) = .ok pw ∧
    addPortsToPaths topo paths call.firstPort call.lastPort = .ok dictionaries ∧
    ∃ row ∈ nodePorts node (dictionaries.zip pw), 1 < row.2.length

/-- When the paths can be installed and deliver. -/
structure Deliverable (topo : TopologyState) (call : GroupCall) (paths : List (List Dpid)) :
    Prop where
  acyclic : ∀ node, ¬ Relation.TransGen (Hop paths) node node
  firstPort : ∀ next, Hop paths call.src next →
    topo.adjacency call.src next ≠ some call.firstPort
  lastPort : ∀ previous, Hop paths previous call.dst →
    topo.adjacency call.dst previous ≠ some call.lastPort
  sameSwitch : call.src = call.dst → call.firstPort ≠ call.lastPort
  known : ∀ path ∈ paths, ∀ node ∈ path, node ∈ topo.datapathList
  weighted : paths.length ≤ 1 ∨ ∃ path ∈ paths, getPathCost topo path ≠ .ok 0

variable {topo : TopologyState} {call : GroupCall} {network : Network} {packet : Packet}
  {node : Dpid} {inPort outPort : Port}

/-- The match of a pair accepts exactly the packets of the pair, on every port. -/
theorem accepts_matchIp (hpacket : Ipv4Between packet call.ipSrc call.ipDst) (inPort : Port)
    (src dst : Ip) :
    (matchIp src dst).accepts (inPort, packet) = true ↔ src = call.ipSrc ∧ dst = call.ipDst := by
  obtain ⟨header, hheader, hsrc, hdst⟩ := hpacket.header
  simp [OFPMatch.accepts, fieldAccepts, matchIp, hpacket.ethType, hheader, hsrc, hdst]

/-- Where the entry of the pair sends to certain ports, packets of the pair go to these ports. -/
theorem sends_iff {ports : List Port} (hconsistent : ConsistentAt network node)
    (hforwards : Forwards call network node ports)
    (hpacket : Ipv4Between packet call.ipSrc call.ipDst) :
    Sends network packet node inPort outPort ↔ outPort ∈ ports := by
  obtain ⟨actions, hmem, honly, rfl⟩ := hforwards
  have hselected (rule : GroupRule) : Selected OFPMatch.accepts
      ((network.switches node).flows.filter fun rule ↦ rule.priority = 32768)
      (inPort, packet) rule ↔
        rule = ⟨32768, matchIp call.ipSrc call.ipDst, actions⟩ := by
    apply selected_iff_of_dominant
    · simpa using hmem
    · exact (accepts_matchIp hpacket inPort _ _).mpr ⟨rfl, rfl⟩
    · intro other hother haccepts
      right
      simp only [List.mem_filter, decide_eq_true_eq] at hother
      obtain ⟨src, dst, hcondition⟩ := hconsistent.ipRules other hother.1 hother.2
      rw [hcondition, accepts_matchIp hpacket] at haccepts
      obtain ⟨rfl, rfl⟩ := haccepts
      ext1
      · exact hother.2
      · exact hcondition
      · exact honly other hother.1 hother.2 hcondition
  constructor
  · rintro ⟨rule, hrule, hport⟩
    rwa [(hselected rule).mp hrule] at hport
  · intro hport
    exact ⟨_, (hselected _).mpr rfl, hport⟩

/-- Some path enters and leaves the switch through these ports. -/
def Entry (dictionaries : List PathPorts) (node : Dpid) (inPort outPort : Port) : Prop :=
  ∃ ports ∈ dictionaries, ports.lookup node = some (inPort, outPort)

theorem mem_seenAt {dictionaries : List PathPorts} {pw : List ℕ}
    (hlength : dictionaries.length = pw.length) :
    (∃ cost, (inPort, outPort, cost) ∈ seenAt node (dictionaries.zip pw)) ↔
      Entry dictionaries node inPort outPort := by
  simp only [seenAt, List.mem_filterMap, Option.map_eq_some_iff, Prod.mk.injEq]
  constructor
  · rintro ⟨cost, ⟨ports, _⟩, hmem, ⟨_, _⟩, hlookup, rfl, rfl, rfl⟩
    exact ⟨ports, (List.of_mem_zip hmem).1, hlookup⟩
  · rintro ⟨ports, hmem, hlookup⟩
    obtain ⟨index, hindex, rfl⟩ := List.getElem_of_mem hmem
    refine ⟨pw[index], (dictionaries[index], pw[index]), ?_, _, hlookup, rfl, rfl, rfl⟩
    exact List.mem_iff_getElem.mpr ⟨index, by simp [hlength ▸ hindex, hindex], by simp⟩

/-- The ports of a row are those of the entries with its port of entry. -/
theorem mem_row_iff {dictionaries : List PathPorts} {pw : List ℕ}
    (hlength : dictionaries.length = pw.length) {row : List (Port × ℕ)}
    (hrow : (inPort, row) ∈ nodePorts node (dictionaries.zip pw)) :
    outPort ∈ row.map Prod.fst ↔ Entry dictionaries node inPort outPort := by
  rw [← mem_seenAt hlength, List.mem_map]
  have hcollects := nodePorts_collects node (dictionaries.zip pw)
  constructor
  · rintro ⟨⟨_, cost⟩, hentry, rfl⟩
    exact ⟨cost, (hcollects.mem_row inPort row _ hrow).mp hentry⟩
  · rintro ⟨cost, hseen⟩
    exact ⟨(outPort, cost), (hcollects.mem_row inPort row _ hrow).mpr hseen, rfl⟩

theorem exists_row {dictionaries : List PathPorts} {pw : List ℕ}
    (hlength : dictionaries.length = pw.length) (hentry : Entry dictionaries node inPort outPort) :
    ∃ row, (inPort, row) ∈ nodePorts node (dictionaries.zip pw) := by
  obtain ⟨cost, hseen⟩ := (mem_seenAt hlength).mpr hentry
  exact (nodePorts_collects node _).row_of_seen inPort _ hseen

/-- Simple paths of a call with their port dictionaries. -/
structure Routes (topo : TopologyState) (call : GroupCall) (paths : List (List Dpid))
    (dictionaries : List PathPorts) : Prop where
  simple : ∀ path ∈ paths, AdjacencyPath topo call.src call.dst path
  along : List.Forall₂ (PortsAlong topo call.lastPort call.firstPort) paths dictionaries

variable {paths : List (List Dpid)} {dictionaries : List PathPorts}

theorem mem_of_lookup {ports : PathPorts} {entry : Port × Port}
    (h : ports.lookup node = some entry) : (node, entry) ∈ ports := by
  obtain ⟨before, after, rfl, -⟩ := List.lookup_eq_some_iff.mp h
  simp

theorem lookup_of_mem {ports : PathPorts} {entry : Port × Port}
    (hkeys : (ports.map Prod.fst).Nodup) (h : (node, entry) ∈ ports) :
    ports.lookup node = some entry := by
  induction ports with
  | nil => cases h
  | cons item rest ih =>
    rw [List.map_cons, List.nodup_cons] at hkeys
    rcases List.mem_cons.mp h with rfl | hlater
    · exact lookup_cons_self ..
    · have hother : node ≠ item.1 := by
        intro hsame
        exact hkeys.1 (hsame ▸ List.mem_map_of_mem (f := Prod.fst) hlater)
      exact (lookup_cons_of_ne hother).trans (ih hkeys.2 hlater)

theorem getElem?_last {path : List Dpid} {dst : Dpid} {i : ℕ} (hnodup : path.Nodup)
    (hends : path.getLast? = some dst) (hi : path[i]? = some dst) : path[i + 1]? = none := by
  rw [List.getLast?_eq_getElem?] at hends
  have hbound := (List.getElem?_eq_some_iff.mp hi).1
  have hsame : i = path.length - 1 :=
    (List.getElem?_inj hbound hnodup).mp (hi.trans hends.symm)
  rw [List.getElem?_eq_none_iff]
  omega

theorem isChain_at {r : Dpid → Dpid → Prop} {path : List Dpid} {i : ℕ} {u v : Dpid}
    (hchain : path.IsChain r) (hu : path[i]? = some u) (hv : path[i + 1]? = some v) : r u v := by
  obtain ⟨hbound, rfl⟩ := List.getElem?_eq_some_iff.mp hv
  obtain ⟨_, rfl⟩ := List.getElem?_eq_some_iff.mp hu
  exact List.isChain_iff_getElem.mp hchain i hbound

namespace Routes

variable (routes : Routes topo call paths dictionaries)

include routes

theorem exists_dictionary {path : List Dpid} (hpath : path ∈ paths) :
    ∃ ports ∈ dictionaries, PortsAlong topo call.lastPort call.firstPort path ports := by
  obtain ⟨index, hindex, rfl⟩ := List.getElem_of_mem hpath
  have hindex' : index < dictionaries.length := routes.along.length_eq ▸ hindex
  exact ⟨dictionaries[index], List.getElem_mem hindex', routes.along.get hindex hindex'⟩

theorem exists_path {ports : PathPorts} (hports : ports ∈ dictionaries) :
    ∃ path ∈ paths, PortsAlong topo call.lastPort call.firstPort path ports ∧
      Annotates topo call.firstPort call.lastPort path ports := by
  obtain ⟨index, hindex, rfl⟩ := List.getElem_of_mem hports
  have hindex' : index < paths.length := routes.along.length_eq ▸ hindex
  have halong := routes.along.get hindex' hindex
  have hpath := List.getElem_mem hindex'
  exact ⟨paths[index], hpath, halong, annotates_of_portsAlong halong (routes.simple _ hpath).nodup⟩

theorem not_hop_src {u : Dpid} : ¬ Hop paths u call.src := by
  rintro ⟨path, hpath, i, -, hsrc⟩
  have hsimple := routes.simple path hpath
  have hfirst : path[0]? = some call.src := by
    rw [← List.head?_eq_getElem?]
    exact hsimple.starts
  have hbound := (List.getElem?_eq_some_iff.mp hfirst).1
  have hsame : 0 = i + 1 := (List.getElem?_inj hbound hsimple.nodup).mp (hfirst.trans hsrc.symm)
  omega

theorem not_hop_dst {v : Dpid} : ¬ Hop paths call.dst v := by
  rintro ⟨path, hpath, i, hdst, hnext⟩
  have hsimple := routes.simple path hpath
  rw [getElem?_last hsimple.nodup hsimple.ends hdst] at hnext
  cases hnext

/-- A path enters its first switch on the first port and the others from the switch before. -/
theorem entry_in (hentry : Entry dictionaries node inPort outPort) :
    (node = call.src ∧ inPort = call.firstPort) ∨
      ∃ previous, Hop paths previous node ∧ topo.adjacency node previous = some inPort := by
  obtain ⟨ports, hports, hlookup⟩ := hentry
  obtain ⟨path, hpath, -, hannotates⟩ := routes.exists_path hports
  have hkey : node ∈ ports.map Prod.fst := List.mem_map_of_mem (f := Prod.fst)
    (mem_of_lookup hlookup)
  obtain ⟨i, hi⟩ := List.mem_iff_getElem?.mp ((hannotates.keys node).mp hkey)
  cases i with
  | zero =>
    left
    obtain ⟨exit, hfirst⟩ := hannotates.first node hi
    rw [hlookup, Option.some.injEq, Prod.mk.injEq] at hfirst
    have hstarts := (routes.simple path hpath).starts
    rw [List.head?_eq_getElem?, hi, Option.some.injEq] at hstarts
    exact ⟨hstarts, hfirst.1⟩
  | succ i =>
    right
    have hbound : i < path.length := by
      have := (List.getElem?_eq_some_iff.mp hi).1
      omega
    obtain ⟨entry, exit, hfound, hadjacent⟩ :=
      hannotates.entry i path[i] node (List.getElem?_eq_getElem hbound) hi
    rw [hlookup, Option.some.injEq, Prod.mk.injEq] at hfound
    exact ⟨path[i], ⟨path, hpath, i, List.getElem?_eq_getElem hbound, hi⟩, hfound.1 ▸ hadjacent⟩

/-- A path leaves its last switch on the last port and the others over a link to the next. -/
theorem entry_out (hentry : Entry dictionaries node inPort outPort) :
    (node = call.dst ∧ outPort = call.lastPort) ∨
      node ≠ call.dst ∧ ∃ next nextIn, Hop paths node next ∧
        Linked topo node outPort next nextIn := by
  obtain ⟨ports, hports, hlookup⟩ := hentry
  obtain ⟨path, hpath, -, hannotates⟩ := routes.exists_path hports
  have hsimple := routes.simple path hpath
  have hkey : node ∈ ports.map Prod.fst := List.mem_map_of_mem (f := Prod.fst)
    (mem_of_lookup hlookup)
  obtain ⟨i, hi⟩ := List.mem_iff_getElem?.mp ((hannotates.keys node).mp hkey)
  cases hnext : path[i + 1]? with
  | none =>
    left
    have hlast : path.getLast? = some node := by
      rw [List.getLast?_eq_getElem?, ← hi]
      have hbound := (List.getElem?_eq_some_iff.mp hi).1
      rw [List.getElem?_eq_none_iff] at hnext
      congr 1
      omega
    obtain ⟨entry, hfound⟩ := hannotates.last node hlast
    rw [hlookup, Option.some.injEq, Prod.mk.injEq] at hfound
    exact ⟨Option.some.inj (hlast.symm.trans hsimple.ends), hfound.2⟩
  | some next =>
    right
    obtain ⟨entry, exit, hfound, hadjacent⟩ := hannotates.exit i node next hi hnext
    rw [hlookup, Option.some.injEq, Prod.mk.injEq] at hfound
    have hback := (isChain_at hsimple.linked hi hnext).2
    obtain ⟨nextIn, hback⟩ := Option.isSome_iff_exists.mp hback
    have hhop : Hop paths node next := ⟨path, hpath, i, hi, hnext⟩
    refine ⟨?_, next, nextIn, hhop, hfound.2 ▸ hadjacent, hback⟩
    rintro rfl
    exact routes.not_hop_dst hhop

/-- The two ends of a hop are entries of its path's dictionary. -/
theorem entries_of_hop {u v : Dpid} (hhop : Hop paths u v) :
    ∃ inPort outPort nextIn nextOut, Entry dictionaries u inPort outPort ∧
      Entry dictionaries v nextIn nextOut ∧ Linked topo u outPort v nextIn := by
  obtain ⟨path, hpath, i, hu, hv⟩ := hhop
  obtain ⟨ports, hports, halong⟩ := routes.exists_dictionary hpath
  have hannotates := annotates_of_portsAlong halong (routes.simple path hpath).nodup
  obtain ⟨inPort, outPort, hlookup, hadjacent⟩ := hannotates.exit i u v hu hv
  obtain ⟨nextIn, nextOut, hlookup', hback⟩ := hannotates.entry i u v hu hv
  exact ⟨inPort, outPort, nextIn, nextOut, ⟨ports, hports, hlookup⟩, ⟨ports, hports, hlookup'⟩,
    hadjacent, hback⟩

theorem exists_entry_iff : (∃ inPort outPort, Entry dictionaries node inPort outPort) ↔
    node ∈ paths.flatten := by
  rw [List.mem_flatten]
  constructor
  · rintro ⟨inPort, outPort, ports, hports, hlookup⟩
    obtain ⟨path, hpath, -, hannotates⟩ := routes.exists_path hports
    refine ⟨path, hpath, (hannotates.keys node).mp ?_⟩
    exact List.mem_map_of_mem (f := Prod.fst) (mem_of_lookup hlookup)
  · rintro ⟨path, hpath, hnode⟩
    obtain ⟨ports, hports, halong⟩ := routes.exists_dictionary hpath
    have hkey : node ∈ ports.map Prod.fst := halong.keys ▸ hnode
    obtain ⟨⟨_, inPort, outPort⟩, hitem, rfl⟩ := List.mem_map.mp hkey
    refine ⟨inPort, outPort, ports, hports, ?_⟩
    exact lookup_of_mem (halong.keys ▸ (routes.simple path hpath).nodup) hitem

end Routes

/-! ## Acyclic hops deliver -/

/-- Every switch on a path forwards the packets of the pair, from all ports, as the paths do that
enter it on one port. -/
structure Installed (call : GroupCall) (dictionaries : List PathPorts) (network : Network)
    (last : Dpid → Port) : Prop where
  used : ∀ node, (∃ inPort outPort, Entry dictionaries node inPort outPort) →
    ∃ outPort, Entry dictionaries node (last node) outPort
  sends : ∀ node, (∃ inPort outPort, Entry dictionaries node inPort outPort) →
    ∀ packet, Ipv4Between packet call.ipSrc call.ipDst → ∀ inPort outPort,
      (Sends network packet node inPort outPort ↔ Entry dictionaries node (last node) outPort)

/-- The packet is on a path, having come from the first port or over a hop. -/
def OnRoute (topo : TopologyState) (call : GroupCall) (paths : List (List Dpid))
    (position : Dpid × Port) : Prop :=
  position.1 ∈ paths.flatten ∧ (position = (call.src, call.firstPort) ∨
    ∃ previous, Hop paths previous position.1 ∧
      topo.adjacency position.1 previous = some position.2)

theorem Hop.mem_right {u v : Dpid} (h : Hop paths u v) : v ∈ paths.flatten := by
  obtain ⟨path, hpath, i, -, hv⟩ := h
  exact List.mem_flatten.mpr ⟨path, hpath, List.mem_of_getElem? hv⟩

/-- On a route the ports that lead on are never the port of arrival. -/
theorem Deliverable.ne_inPort (hports : DistinctPorts topo)
    (routes : Routes topo call paths dictionaries)
    (hdeliverable : Deliverable topo call paths) {position : Dpid × Port} {entry : Port}
    (hroute : OnRoute topo call paths position)
    (hentry : Entry dictionaries position.1 entry outPort) : outPort ≠ position.2 := by
  rintro rfl
  rcases routes.entry_out hentry with ⟨hdst, hlast⟩ | ⟨hnotDst, next, nextIn, hhop, hlink⟩
  · rcases hroute.2 with hstart | ⟨previous, hprevious, hadjacent⟩
    · have hsrc : position.1 = call.src := by rw [hstart]
      have hfirst : position.2 = call.firstPort := by rw [hstart]
      exact hdeliverable.sameSwitch (hsrc.symm.trans hdst) (hfirst.symm.trans hlast)
    · rw [hdst] at hprevious hadjacent
      exact hdeliverable.lastPort previous hprevious (hlast ▸ hadjacent)
  · rcases hroute.2 with hstart | ⟨previous, hprevious, hadjacent⟩
    · have hsrc : position.1 = call.src := by rw [hstart]
      have hfirst : position.2 = call.firstPort := by rw [hstart]
      rw [hsrc] at hhop
      have hused := hlink.1
      rw [hsrc, hfirst] at hused
      exact hdeliverable.firstPort next hhop hused
    · -- The packet would go back over the link it came from, against the hop that brought it.
      obtain rfl : next = previous := hports _ _ _ _ hlink.1 hadjacent
      exact hdeliverable.acyclic next (.tail (.single hprevious) hhop)

theorem delivered_of_deliverable (hports : DistinctPorts topo)
    (routes : Routes topo call paths dictionaries) (hnonempty : paths ≠ [])
    (hdeliverable : Deliverable topo call paths) {last : Dpid → Port}
    (hinstalled : Installed call dictionaries network last) : Delivered topo call network := by
  intro packet hpacket
  have hsrc : call.src ∈ paths.flatten := by
    obtain ⟨path, hpath⟩ := List.exists_mem_of_ne_nil _ hnonempty
    exact List.mem_flatten.mpr ⟨path, hpath, List.mem_of_head? (routes.simple path hpath).starts⟩
  have hsends : ∀ node inPort, OnRoute topo call paths (node, inPort) → ∀ outPort,
      Sends network packet node inPort outPort ↔
        Entry dictionaries node (last node) outPort := by
    intro node inPort hroute outPort
    exact hinstalled.sends node (routes.exists_entry_iff.mpr hroute.1) packet hpacket _ _
  have hused : ∀ node inPort, OnRoute topo call paths (node, inPort) →
      ∃ outPort, Entry dictionaries node (last node) outPort := by
    intro node inPort hroute
    exact hinstalled.used node (routes.exists_entry_iff.mpr hroute.1)
  apply arrives_of_acyclic hdeliverable.acyclic paths.flatten.toFinset (OnRoute topo call paths)
  · intro position hroute
    exact List.mem_toFinset.mpr hroute.1
  · rintro ⟨node, inPort⟩ hroute
    obtain ⟨outPort, hentry⟩ := hused node inPort hroute
    have hsent := (hsends node inPort hroute outPort).mpr hentry
    have hdiffer : outPort ≠ inPort := hdeliverable.ne_inPort hports routes hroute hentry
    rcases routes.entry_out hentry with ⟨hdst, rfl⟩ | ⟨hnotDst, next, nextIn, -, hlink⟩
    · exact ⟨.leave, hdst, hsent, hdiffer⟩
    · exact ⟨.move (next, nextIn), outPort, hsent, hdiffer, fun hleave ↦ hnotDst hleave.1, hlink⟩
  · rintro ⟨node, inPort⟩ hroute (hsilent | ⟨outPort, hsent, hreason⟩)
    · obtain ⟨outPort, hentry⟩ := hused node inPort hroute
      exact hsilent outPort ((hsends node inPort hroute outPort).mpr hentry)
    · have hentry := (hsends node inPort hroute outPort).mp hsent
      rcases hreason with hback | ⟨hstays, hunlinked⟩
      · exact hdeliverable.ne_inPort hports routes hroute hentry hback
      · rcases routes.entry_out hentry with hleave | ⟨-, next, nextIn, -, hlink⟩
        · exact hstays hleave
        · exact hunlinked next nextIn hlink
  · rintro ⟨node, inPort⟩ ⟨next, nextIn⟩ hroute ⟨outPort, hsent, -, hstays, hlink⟩
    have hentry := (hsends node inPort hroute outPort).mp hsent
    have hhop : Hop paths node next := by
      rcases routes.entry_out hentry with hleave | ⟨-, other, otherIn, hhop, hother⟩
      · exact absurd hleave hstays
      · exact hports _ _ _ _ hlink.1 hother.1 ▸ hhop
    exact ⟨⟨hhop.mem_right, .inr ⟨node, hhop, hlink.2⟩⟩, hhop⟩
  · exact ⟨hsrc, .inl rfl⟩
  · simp

/-- A packet that follows a path while it meets no trap: it is never sent back, and it would not
arrive from a trap. -/
theorem follow_path {packet : Packet} {trap : Dpid → Prop}
    (htrap : ∀ node inPort, trap node →
      offers topo call network packet (node, inPort) .lost ∨ ∃ next nextIn,
        offers topo call network packet (node, inPort) (.move (next, nextIn)) ∧ trap next)
    {path : List Dpid} {ports : PathPorts}
    (halong : PortsAlong topo call.lastPort inPort path ports) (hnodup : path.Nodup)
    (hends : path.getLast? = some call.dst)
    (hsends : ∀ item ∈ ports, ¬ trap item.1 →
      Sends network packet item.1 item.2.1 item.2.2)
    {first : Dpid} (hfirst : path.head? = some first) {visited : List Dpid}
    (harrives : Arrives Prod.fst (offers topo call network packet) visited (first, inPort)) :
    ∀ item ∈ ports, ¬ trap item.1 ∧ item.2.2 ≠ item.2.1 := by
  have huntrapped : ∀ {visited node inPort},
      Arrives Prod.fst (offers topo call network packet) visited (node, inPort) →
        ¬ trap node := by
    intro visited node inPort harrives
    refine harrives.not_trapped (fun position ↦ trap position.1) ?_
    rintro ⟨node, inPort⟩ htrapped
    rcases htrap node inPort htrapped with hlost | ⟨next, nextIn, hmove, hnext⟩
    · exact .inl hlost
    · exact .inr ⟨(next, nextIn), hmove, hnext⟩
  have hback : ∀ {visited node inPort outPort},
      Arrives Prod.fst (offers topo call network packet) visited (node, inPort) →
        Sends network packet node inPort outPort → outPort ≠ inPort := by
    intro visited node inPort outPort harrives hsent hsame
    exact harrives.not_lost (.inr ⟨outPort, hsent, .inl hsame⟩)
  induction halong generalizing first visited with
  | last inPort node =>
    obtain rfl : node = first := by simpa using hfirst
    intro item hitem
    obtain rfl := List.mem_singleton.mp hitem
    have hnode := huntrapped harrives
    exact ⟨hnode, hback harrives (hsends _ hitem hnode)⟩
  | @hop inPort outPort nextIn node next rest ports hout hin hrest ih =>
    obtain rfl : node = first := by simpa using hfirst
    obtain ⟨hnode, hrestNodup⟩ := List.nodup_cons.mp hnodup
    have hrestEnds : (next :: rest).getLast? = some call.dst := by simpa using hends
    have hfree := huntrapped harrives
    have hsent := hsends _ (List.mem_cons_self ..) hfree
    have hdiffer := hback harrives hsent
    have hmove : offers topo call network packet (node, inPort) (.move (next, nextIn)) := by
      refine ⟨outPort, hsent, hdiffer, ?_, hout, hin⟩
      rintro ⟨rfl, -⟩
      exact hnode (List.mem_of_getLast? hrestEnds)
    intro item hitem
    rcases List.mem_cons.mp hitem with rfl | hlater
    · exact ⟨hfree, hdiffer⟩
    · exact ih hrestNodup hrestEnds
        (fun other hother ↦ hsends other (List.mem_cons_of_mem _ hother)) rfl
        (harrives.move hmove) item hlater

end Wispr.Multipath.Delivery
