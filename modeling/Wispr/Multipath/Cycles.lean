import Wispr.Multipath.Delivery

/-!
# Cycles of hops

The condition for delivery is also necessary. If the hops of the paths have a cycle, the loop over
`ports` can come last, at every switch of a cycle, to the row of a path that goes on along the
cycle, and at every other switch of one path to the row of that path. A packet then follows the path
until it meets the cycle and never leaves it. In the same way it meets a switch that has rejected
the group of its last row, and is lost there.
-/

open Wispr.Foundation.Effects Wispr.Foundation.Journeys

namespace Wispr.Multipath.Cycles

open Controller.Paths Controller.PortMaps Search Groups Tables Delivery
open Controller.Install hiding installPaths

variable {topo : TopologyState} {call : GroupCall} {paths : List (List Dpid)}
  {dictionaries : List PathPorts} {network : Network}

/-- Whatever rows come last, the packets are delivered. -/
def AlwaysDelivered (topo : TopologyState) (call : GroupCall) (dictionaries : List PathPorts) :
    Prop :=
  ∀ last : Dpid → Port,
    (∀ node, (∃ inPort outPort, Entry dictionaries node inPort outPort) →
      ∃ outPort, Entry dictionaries node (last node) outPort) →
    ∃ network, Installed call dictionaries network last ∧ Delivered topo call network

/-- A packet of the pair. -/
def pairPacket (call : GroupCall) : Packet :=
  ⟨0, 0, 0x0800, 0x0800, none, none, some ⟨call.ipSrc, call.ipDst, 6⟩, false⟩

theorem pairPacket_between (call : GroupCall) :
    Ipv4Between (pairPacket call) call.ipSrc call.ipDst :=
  ⟨rfl, _, rfl, rfl, rfl⟩

/-- A row to come last at a switch: in a trap the row of a path that stays in it, elsewhere the row
of one given path. -/
theorem exists_last_row (routes : Routes topo call paths dictionaries) {trap : Dpid → Prop}
    (htrap : ∀ node, trap node → ∃ next, Hop paths node next ∧ trap next) {ports : PathPorts}
    (hports : ports ∈ dictionaries) {node : Dpid}
    (hnode : ∃ inPort outPort, Entry dictionaries node inPort outPort) :
    ∃ last, (∃ outPort, Entry dictionaries node last outPort) ∧
      (trap node → ∃ outPort next nextIn, Entry dictionaries node last outPort ∧
        Linked topo node outPort next nextIn ∧ trap next) ∧
      (¬ trap node → ∀ inPort outPort, ports.lookup node = some (inPort, outPort) →
        last = inPort) := by
  obtain ⟨someIn, someOut, hsome⟩ := hnode
  by_cases htrapped : trap node
  · obtain ⟨next, hhop, hnext⟩ := htrap node htrapped
    obtain ⟨inPort, outPort, nextIn, _, hentry, _, hlink⟩ := routes.entries_of_hop hhop
    exact ⟨inPort, ⟨outPort, hentry⟩, fun _ ↦ ⟨outPort, next, nextIn, hentry, hlink, hnext⟩,
      fun hfree ↦ absurd htrapped hfree⟩
  · cases hfound : ports.lookup node with
    | none => exact ⟨someIn, ⟨someOut, hsome⟩, fun h ↦ absurd h htrapped, by simp⟩
    | some entry =>
      refine ⟨entry.1, ⟨entry.2, ports, hports, hfound⟩, fun h ↦ absurd h htrapped, ?_⟩
      intro _ inPort outPort hsame
      rw [Option.some.injEq] at hsame
      rw [hsame]

/-- With such rows a packet in the trap may stay there or get lost. -/
theorem trapped_of_last_rows (routes : Routes topo call paths dictionaries) {trap : Dpid → Prop}
    (htrap : ∀ node, trap node → ∃ next, Hop paths node next ∧ trap next) {last : Dpid → Port}
    (hlast : ∀ node, (∃ inPort outPort, Entry dictionaries node inPort outPort) → trap node →
      ∃ outPort next nextIn, Entry dictionaries node (last node) outPort ∧
        Linked topo node outPort next nextIn ∧ trap next)
    (hinstalled : Installed call dictionaries network last) (node : Dpid) (inPort : Port)
    (htrapped : trap node) :
    offers topo call network (pairPacket call) (node, inPort) .lost ∨ ∃ next nextIn,
      offers topo call network (pairPacket call) (node, inPort) (.move (next, nextIn)) ∧
        trap next := by
  obtain ⟨hopTarget, hhop, -⟩ := htrap node htrapped
  obtain ⟨someIn, someOut, _, _, hsome, _⟩ := routes.entries_of_hop hhop
  have hnode : ∃ inPort outPort, Entry dictionaries node inPort outPort :=
    ⟨someIn, someOut, hsome⟩
  obtain ⟨outPort, next, nextIn, hentry, hlink, hnext⟩ := hlast node hnode htrapped
  have hsent :=
    (hinstalled.sends node hnode _ (pairPacket_between call) inPort outPort).mpr hentry
  by_cases hback : outPort = inPort
  · exact .inl (.inr ⟨outPort, hsent, .inl hback⟩)
  · refine .inr ⟨next, nextIn, ⟨outPort, hsent, hback, ?_, hlink⟩, hnext⟩
    rintro ⟨rfl, -⟩
    exact routes.not_hop_dst hhop

/-- Switches that paths can go on between for ever are on no path, and no path goes back to the port
it came from. The rows that come last are those of the path, and at the switches in question of a
path that stays among them. -/
theorem untrapped_of_alwaysDelivered (routes : Routes topo call paths dictionaries)
    (halways : AlwaysDelivered topo call dictionaries) (trap : Dpid → Prop)
    (htrap : ∀ node, trap node → ∃ next, Hop paths node next ∧ trap next)
    {node : Dpid} {inPort outPort : Port} (hentry : Entry dictionaries node inPort outPort) :
    ¬ trap node ∧ outPort ≠ inPort := by
  classical
  obtain ⟨ports, hports, hlookup⟩ := hentry
  obtain ⟨path, hpath, halong, -⟩ := routes.exists_path hports
  have hsimple := routes.simple path hpath
  have hchoice := fun node ↦ @exists_last_row topo call paths dictionaries routes trap htrap ports
    hports node
  choose! last hlast using hchoice
  obtain ⟨network, hinstalled, hdelivered⟩ := halways last fun node hnode ↦ (hlast node hnode).1
  have hpacket := pairPacket_between call
  have hstuck := trapped_of_last_rows routes htrap (fun node hnode ↦ (hlast node hnode).2.1)
    hinstalled
  have hfollows : ∀ item ∈ ports, ¬ trap item.1 →
      Sends network (pairPacket call) item.1 item.2.1 item.2.2 := by
    intro item hitem hfree
    have hkeys : (ports.map Prod.fst).Nodup := halong.keys ▸ hsimple.nodup
    have hfound : ports.lookup item.1 = some item.2 := lookup_of_mem hkeys hitem
    have hentry : Entry dictionaries item.1 item.2.1 item.2.2 := ⟨ports, hports, hfound⟩
    have hnode : ∃ inPort outPort, Entry dictionaries item.1 inPort outPort := ⟨_, _, hentry⟩
    have hin := (hlast item.1 hnode).2.2 hfree _ _ hfound
    exact (hinstalled.sends item.1 hnode _ hpacket _ _).mpr (hin ▸ hentry)
  exact follow_path hstuck halong hsimple.nodup hsimple.ends hfollows hsimple.starts
    (hdelivered _ hpacket) _ (mem_of_lookup hlookup)

theorem acyclic_of_alwaysDelivered (routes : Routes topo call paths dictionaries)
    (halways : AlwaysDelivered topo call dictionaries) (node : Dpid) :
    ¬ Relation.TransGen (Hop paths) node node := by
  intro hcycle
  obtain ⟨next, hhop, -⟩ := Relation.TransGen.head'_iff.mp hcycle
  obtain ⟨inPort, outPort, _, _, hentry, _⟩ := routes.entries_of_hop hhop
  refine (untrapped_of_alwaysDelivered routes halways
    (fun node ↦ Relation.TransGen (Hop paths) node node) ?_ hentry).1 hcycle
  intro node hcycle
  obtain ⟨next, hhop, hback⟩ := Relation.TransGen.head'_iff.mp hcycle
  exact ⟨next, hhop, Relation.TransGen.tail'_iff.mpr ⟨node, hback, hhop⟩⟩

theorem ne_of_alwaysDelivered (routes : Routes topo call paths dictionaries)
    (halways : AlwaysDelivered topo call dictionaries) {node : Dpid} {inPort outPort : Port}
    (hentry : Entry dictionaries node inPort outPort) : outPort ≠ inPort :=
  (untrapped_of_alwaysDelivered routes halways (fun _ ↦ False) (fun _ h ↦ h.elim) hentry).2

/-- Different simple paths of a call part at some switch they enter on one port. The induction
follows them to the first switch they leave through different ports. -/
theorem exists_parting (hports : DistinctPorts topo) {lastPort inPort : Port} {dst : Dpid}
    {path path' : List Dpid} {ports ports' : PathPorts}
    (h : PortsAlong topo lastPort inPort path ports)
    (h' : PortsAlong topo lastPort inPort path' ports') (hstarts : path.head? = path'.head?)
    (hends : path.getLast? = some dst) (hends' : path'.getLast? = some dst) (hnodup : path.Nodup)
    (hnodup' : path'.Nodup) (hdiffer : path ≠ path') :
    ∃ node entry exit exit', (node, entry, exit) ∈ ports ∧ (node, entry, exit') ∈ ports' ∧
      exit ≠ exit' := by
  induction h generalizing path' ports' with
  | last inPort node =>
    cases h' with
    | last _ node' => exact absurd (by simpa using hstarts) hdiffer
    | @hop _ _ _ _ next rest _ _ _ _ =>
      obtain rfl : node = _ := by simpa using hstarts
      obtain rfl : node = dst := by simpa using hends
      rw [List.getLast?_cons_cons] at hends'
      exact absurd (List.mem_of_getLast? hends') (List.nodup_cons.mp hnodup').1
  | @hop inPort outPort nextIn node next rest ports hout hin hrest ih =>
    cases h' with
    | last _ node' =>
      obtain rfl : node = node' := by simpa using hstarts
      obtain rfl : node = dst := by simpa using hends'
      rw [List.getLast?_cons_cons] at hends
      exact absurd (List.mem_of_getLast? hends) (List.nodup_cons.mp hnodup).1
    | @hop _ outPort' nextIn' node' next' rest' ports' hout' hin' hrest' =>
      obtain rfl : node = node' := by simpa using hstarts
      by_cases hsame : outPort = outPort'
      · subst hsame
        obtain rfl : next = next' := hports node next next' outPort hout hout'
        obtain rfl : nextIn = nextIn' := Option.some.inj (hin.symm.trans hin')
        rw [List.getLast?_cons_cons] at hends hends'
        obtain ⟨other, entry, exit, exit', hitem, hitem', hparting⟩ :=
          ih hrest' rfl hends hends' (List.nodup_cons.mp hnodup).2 (List.nodup_cons.mp hnodup').2
            fun hsame ↦ hdiffer (congrArg (node :: ·) hsame)
        exact ⟨other, entry, exit, exit', List.mem_cons_of_mem _ hitem,
          List.mem_cons_of_mem _ hitem', hparting⟩
      · exact ⟨node, inPort, outPort, outPort', List.mem_cons_self .., List.mem_cons_self .., hsame⟩

/-- With several paths some row has several entries. -/
theorem exists_row_several (hports : DistinctPorts topo)
    (routes : Routes topo call paths dictionaries)
    (hnodup : paths.Nodup) (hseveral : 1 < paths.length) {pw : List ℕ}
    (hlength : dictionaries.length = pw.length) :
    ∃ node ∈ paths.flatten, ∃ row ∈ nodePorts node (dictionaries.zip pw), 1 < row.2.length := by
  have hfirst : 0 < paths.length := by omega
  have hdiffer : paths[0] ≠ paths[1] := by
    intro hsame
    exact absurd ((List.Nodup.getElem_inj_iff hnodup).mp hsame) (by decide)
  have hsimple := routes.simple _ (List.getElem_mem hfirst)
  have hsimple' := routes.simple _ (List.getElem_mem hseveral)
  obtain ⟨ports, hmem, halong⟩ := routes.exists_dictionary (List.getElem_mem hfirst)
  obtain ⟨ports', hmem', halong'⟩ := routes.exists_dictionary (List.getElem_mem hseveral)
  obtain ⟨node, entry, exit, exit', hitem, hitem', hparting⟩ := exists_parting hports halong halong'
    (hsimple.starts.trans hsimple'.starts.symm) hsimple.ends hsimple'.ends hsimple.nodup
    hsimple'.nodup hdiffer
  have hentry : Entry dictionaries node entry exit :=
    ⟨ports, hmem, lookup_of_mem (halong.keys ▸ hsimple.nodup) hitem⟩
  have hentry' : Entry dictionaries node entry exit' :=
    ⟨ports', hmem', lookup_of_mem (halong'.keys ▸ hsimple'.nodup) hitem'⟩
  obtain ⟨row, hrow⟩ := exists_row hlength hentry
  refine ⟨node, routes.exists_entry_iff.mp ⟨_, _, hentry⟩, _, hrow, ?_⟩
  by_contra hfew
  have hexit := (mem_row_iff hlength hrow).mpr hentry
  have hexit' := (mem_row_iff hlength hrow).mpr hentry'
  match row, hfew with
  | [], _ => cases hexit
  | [single], _ =>
    rw [List.map_singleton, List.mem_singleton] at hexit hexit'
    exact hparting (hexit.trans hexit'.symm)
  | first :: second :: rest, hfew => exact hfew (by simp)

/-- With one path no row has several entries. -/
theorem row_single {pw : List ℕ} {node : Dpid} {row : Port × List (Port × ℕ)}
    (hfew : dictionaries.length ≤ 1)
    (hrow : row ∈ nodePorts node (dictionaries.zip pw)) : row.2.length ≤ 1 := by
  have hcollects := nodePorts_collects node (dictionaries.zip pw)
  have hseen : (seenAt node (dictionaries.zip pw)).length ≤ 1 := by
    calc (seenAt node (dictionaries.zip pw)).length
        ≤ (dictionaries.zip pw).length := List.length_filterMap_le ..
      _ ≤ dictionaries.length := by simp
      _ ≤ 1 := hfew
  have hsubset : (row.2.map fun entry ↦ (row.1, entry)).Subperm
      (seenAt node (dictionaries.zip pw)) := by
    apply List.Nodup.subperm
    · apply (hcollects.nodup row.1 row.2 hrow).map
      intro entry entry' hsame
      exact (Prod.mk.inj hsame).2
    · intro seen hmem
      obtain ⟨entry, hentry, rfl⟩ := List.mem_map.mp hmem
      exact (hcollects.mem_row row.1 row.2 entry hrow).mp hentry
  simpa using hsubset.length_le.trans hseen

/-! ## Calls -/

section Calls

variable {order : SetOrder} {fuel : ℕ} {pw : List ℕ} {orders : Orders} {draws : Dpid → List ℕ}
  {switches : Finset Dpid}

/-- Orders in which the row with a given port of entry comes last. -/
def lastOrders (last : Dpid → Port) : Orders where
  switches nodes := nodes
  switches_perm _ := .refl _
  rows node ports :=
    ports.filter (fun row ↦ row.1 ≠ last node) ++ ports.filter (fun row ↦ row.1 = last node)
  rows_perm node ports := by
    simpa using List.filter_append_perm (fun row ↦ row.1 ≠ last node) ports
  items path := path
  items_perm _ := .refl _

theorem lastOrders_getLast? {last : Dpid → Port} {weighted : List (PathPorts × ℕ)} {node : Dpid}
    {row : List (Port × ℕ)} (hrow : (last node, row) ∈ nodePorts node weighted) :
    ∃ row', (rowsOf (lastOrders last) weighted node).getLast? = some (last node, row') := by
  have hmem : (last node, row) ∈ (nodePorts node weighted).filter fun row ↦ row.1 = last node := by
    simpa using hrow
  obtain ⟨final, hfinal⟩ := Option.isSome_iff_exists.mp
    (List.getLast?_isSome.mpr (List.ne_nil_of_mem hmem))
  have hkey := List.mem_of_getLast? hfinal
  simp only [List.mem_filter, decide_eq_true_eq] at hkey
  refine ⟨final.2, ?_⟩
  rw [rowsOf, lastOrders, List.getLast?_append, hfinal, ← hkey.2]
  rfl

/-- The paths of a prepared call and their dictionaries. -/
theorem routes_of_prepared (horder : order.Iterates topo) (hwithin : Within topo switches)
    (hprepared : Prepared topo order fuel call paths pw dictionaries) :
    Routes topo call paths dictionaries := by
  obtain ⟨-, hsimple, -⟩ := getOptimalPaths_ok horder hwithin hprepared.paths_eq
  obtain ⟨found, hfound, halong⟩ :=
    addPortsToPaths_portsAlong hsimple call.firstPort call.lastPort
  obtain rfl : found = dictionaries := Except.ok.inj (hfound.symm.trans hprepared.ports_eq)
  exact ⟨hsimple, halong⟩

theorem length_pw (hprepared : Prepared topo order fuel call paths pw dictionaries)
    (routes : Routes topo call paths dictionaries) : dictionaries.length = pw.length :=
  routes.along.length_eq.symm.trans (mapM_ok hprepared.pw_eq).length_eq

/-- Paths whose costs are known and whose dictionaries are built make a prepared call. -/
theorem exists_prepared (horder : order.Iterates topo) (hwithin : Within topo switches)
    (hpaths : getOptimalPaths2 topo order fuel call.src call.dst = .ok paths) :
    ∃ pw dictionaries, Prepared topo order fuel call paths pw dictionaries := by
  obtain ⟨-, hsimple, -⟩ := getOptimalPaths_ok horder hwithin hpaths
  obtain ⟨dictionaries, hports, -⟩ :=
    addPortsToPaths_portsAlong hsimple call.firstPort call.lastPort
  obtain ⟨pw, hpw⟩ := mapM_completes (getOptimalPaths_costs hpaths)
  exact ⟨pw, dictionaries, hpaths, hpw, hports⟩

/-- The dictionaries of the paths name switches of the paths only. -/
theorem keys_of_routes (routes : Routes topo call paths dictionaries) :
    ∀ ports ∈ dictionaries, ∀ item ∈ ports, item.1 ∈ paths.flatten := by
  intro ports hports item hitem
  obtain ⟨path, hpath, halong, -⟩ := routes.exists_path hports
  have hkey := List.mem_map_of_mem (f := Prod.fst) hitem
  rw [halong.keys] at hkey
  exact List.mem_flatten.mpr ⟨path, hpath, hkey⟩

/-- The first dictionary has an entry for the source. -/
theorem firstOutPort_of_routes (routes : Routes topo call paths dictionaries)
    (hnonempty : paths ≠ []) : ∃ outPort, firstOutPort dictionaries call.src = .ok outPort := by
  cases dictionaries with
  | nil =>
    have hempty := routes.along.length_eq
    rw [List.length_nil, List.length_eq_zero_iff] at hempty
    exact absurd hempty hnonempty
  | cons ports rest =>
    obtain ⟨path, hpath, -, hannotates⟩ := routes.exists_path (List.mem_cons_self ..)
    have hstarts := (routes.simple path hpath).starts
    rw [List.head?_eq_getElem?] at hstarts
    obtain ⟨outPort, hlookup⟩ := hannotates.first call.src hstarts
    exact ⟨outPort, by simp [firstOutPort, hlookup]⟩

/-- A call computes one list of paths. -/
theorem prepared_unique {paths' : List (List Dpid)} {pw' : List ℕ}
    {dictionaries' : List PathPorts}
    (h : Prepared topo order fuel call paths pw dictionaries)
    (h' : Prepared topo order fuel call paths' pw' dictionaries') :
    paths = paths' ∧ pw = pw' ∧ dictionaries = dictionaries' := by
  obtain rfl : paths = paths' := Except.ok.inj (h.paths_eq.symm.trans h'.paths_eq)
  obtain rfl : pw = pw' := Except.ok.inj (h.pw_eq.symm.trans h'.pw_eq)
  exact ⟨rfl, rfl, Except.ok.inj (h.ports_eq.symm.trans h'.ports_eq)⟩

theorem needsGroup_iff (hprepared : Prepared topo order fuel call paths pw dictionaries)
    {node : Dpid} : NeedsGroup topo call paths node ↔
      ∃ row ∈ nodePorts node (dictionaries.zip pw), 1 < row.2.length := by
  constructor
  · rintro ⟨pw', dictionaries', hpw, hports, hrow⟩
    obtain rfl : pw' = pw := Except.ok.inj (hpw.symm.trans hprepared.pw_eq)
    obtain rfl : dictionaries' = dictionaries :=
      Except.ok.inj (hports.symm.trans hprepared.ports_eq)
    exact hrow
  · exact fun hrow ↦ ⟨pw, dictionaries, hprepared.pw_eq, hprepared.ports_eq, hrow⟩

/-- Where a row decides, packets of the pair go on as the paths do that enter on its port. -/
theorem sends_of_row (hconsistent : Consistent network)
    (hlength : dictionaries.length = pw.length) {node : Dpid} {inPort : Port}
    {row : List (Port × ℕ)} (hrow : (inPort, row) ∈ nodePorts node (dictionaries.zip pw))
    (hforwards : Forwards call network node (row.map Prod.fst)) {packet : Packet}
    (hpacket : Ipv4Between packet call.ipSrc call.ipDst) {entry outPort : Port} :
    Sends network packet node entry outPort ↔ Entry dictionaries node inPort outPort := by
  rw [sends_iff (hconsistent node) hforwards hpacket, mem_row_iff hlength hrow]

/-- The rows that come last in a completed call whose groups are ready. -/
theorem installed_of_effect {network' : Network}
    (routes : Routes topo call paths dictionaries) (hlength : dictionaries.length = pw.length)
    (hconsistent : Consistent network')
    (heffect : CallEffect topo orders draws call paths pw dictionaries network network')
    (hready : ∀ node, (∃ row ∈ nodePorts node (dictionaries.zip pw), 1 < row.2.length) →
      GroupReady call (draws node) network node)
    {last : Dpid → Port} (hlast : ∀ node ∈ paths.flatten, ∃ row,
      (rowsOf orders (dictionaries.zip pw) node).getLast? = some (last node, row)) :
    Installed call dictionaries network' last := by
  have hrow : ∀ node, (∃ inPort outPort, Entry dictionaries node inPort outPort) →
      ∃ row, (last node, row) ∈ nodePorts node (dictionaries.zip pw) ∧
        Forwards call network' node (row.map Prod.fst) := by
    intro node hnode
    have hmem := routes.exists_entry_iff.mp hnode
    obtain ⟨row, hfinal⟩ := hlast node hmem
    have hrow := mem_rowsOf.mp (List.mem_of_getLast? hfinal)
    refine ⟨row, hrow, (heffect.last node hmem _ hfinal).forwards ?_ ?_⟩
    · exact (nodePorts_collects node _).nonempty _ _ hrow
    · exact fun hseveral ↦ hready node ⟨_, hrow, hseveral⟩
  constructor
  · intro node hnode
    obtain ⟨row, hmem, -⟩ := hrow node hnode
    obtain ⟨entry, hentry⟩ := List.exists_mem_of_ne_nil _
      ((nodePorts_collects node _).nonempty _ _ hmem)
    exact ⟨entry.1, (mem_row_iff hlength hmem).mp (List.mem_map_of_mem (f := Prod.fst) hentry)⟩
  · intro node hnode packet hpacket inPort outPort
    obtain ⟨row, hmem, hforwards⟩ := hrow node hnode
    exact sends_of_row hconsistent hlength hmem hforwards hpacket

/-- A packet that meets a switch without ports to send it to is lost there. -/
theorem lost_of_forwards_nil {packet : Packet} (hconsistent : Consistent network)
    (hpacket : Ipv4Between packet call.ipSrc call.ipDst) {node : Dpid} (inPort : Port)
    (h : Forwards call network node []) :
    offers topo call network packet (node, inPort) .lost := by
  left
  intro outPort hsent
  have hmem := (sends_iff (hconsistent node) h hpacket).mp hsent
  cases hmem

/-- A row that comes last forwards or loses. -/
theorem forwards_or_loses {network' : Network} {node : Dpid} {row : List (Port × ℕ)}
    (hfree : ∀ n, (draws node).head? = some n → (network.switches node).groups n = none)
    (hnonempty : row ≠ []) (h : RowForwards call (draws node) network network' node row) :
    Forwards call network' node (row.map Prod.fst) ∨ Forwards call network' node [] := by
  rcases ready_or_broken hfree with hready | hbroken
  · exact .inl (h.forwards hnonempty fun _ ↦ hready)
  · by_cases hseveral : 1 < row.length
    · exact .inr (h.loses hseveral hbroken)
    · exact .inl (h.forwards hnonempty fun hlong ↦ absurd hlong hseveral)

/-- The port a dictionary enters a switch on. -/
def entryPort (ports : PathPorts) (node : Dpid) : Port :=
  ((ports.lookup node).map Prod.fst).getD 0

theorem entryPort_of_lookup {ports : PathPorts} {node : Dpid} {entry : Port × Port}
    (h : ports.lookup node = some entry) : entryPort ports node = entry.1 := by
  rw [entryPort, h]
  rfl

/-- When the rows of one path come last at its switches, these rows decide there. -/
theorem exists_row_of_lastOrders (routes : Routes topo call paths dictionaries)
    (hlength : dictionaries.length = pw.length) {ports : PathPorts} (hports : ports ∈ dictionaries)
    (hkeys : (ports.map Prod.fst).Nodup)
    (heffect : CallEffect topo (lastOrders (entryPort ports)) draws call paths pw dictionaries
      network network') :
    ∀ item ∈ ports, ∃ row, (item.2.1, row) ∈ nodePorts item.1 (dictionaries.zip pw) ∧
      RowForwards call (draws item.1) network network' item.1 row := by
  intro item hitem
  have hfound := lookup_of_mem hkeys hitem
  have hentry : Entry dictionaries item.1 item.2.1 item.2.2 := ⟨ports, hports, hfound⟩
  obtain ⟨first, hfirst⟩ := exists_row hlength hentry
  have hkey := entryPort_of_lookup hfound
  rw [← hkey] at hfirst
  obtain ⟨final, hfinal⟩ := lastOrders_getLast? hfirst
  refine ⟨final, ?_, heffect.last item.1 ?_ _ hfinal⟩
  · have hmem := mem_rowsOf.mp (List.mem_of_getLast? hfinal)
    rwa [hkey] at hmem
  · exact routes.exists_entry_iff.mp ⟨_, _, hentry⟩

/-- A call that delivers in every case finds its groups ready: otherwise packets follow a path up to
a switch that has rejected a group, if the row of that path comes last there. -/
theorem groupReady_of_installDelivers (horder : order.Iterates topo)
    (hwithin : Within topo switches)
    (hdelivers : InstallDelivers topo order fuel call network draws)
    (hconsistent : Consistent network)
    (hfree : ∀ node n, (draws node).head? = some n → (network.switches node).groups n = none)
    (hprepared : Prepared topo order fuel call paths pw dictionaries) {node : Dpid}
    (hneeds : ∃ row ∈ nodePorts node (dictionaries.zip pw), 1 < row.2.length) :
    GroupReady call (draws node) network node := by
  have routes := routes_of_prepared horder hwithin hprepared
  have hlength := length_pw hprepared routes
  by_contra hnot
  have hbroken := (ready_or_broken (hfree node)).resolve_left hnot
  obtain ⟨⟨inPort, row⟩, hrow, hseveral⟩ := hneeds
  obtain ⟨exit, hexit⟩ := List.exists_mem_of_ne_nil row
    ((nodePorts_collects node _).nonempty _ _ hrow)
  obtain ⟨ports, hports, hlookup⟩ : Entry dictionaries node inPort exit.1 :=
    (mem_row_iff hlength hrow).mp (List.mem_map_of_mem (f := Prod.fst) hexit)
  obtain ⟨path, hpath, halong, -⟩ := routes.exists_path hports
  have hsimple := routes.simple path hpath
  have hkeys : (ports.map Prod.fst).Nodup := halong.keys ▸ hsimple.nodup
  -- the rows of this path come last at its switches
  obtain ⟨outPort, network', hcall, hdelivered⟩ := hdelivers (lastOrders (entryPort ports))
  obtain ⟨_, _, _, hprepared', heffect⟩ := installPaths_effect hcall
  obtain ⟨rfl, rfl, rfl⟩ := prepared_unique hprepared hprepared'
  have hconsistent' := consistent_of_installPaths hconsistent hcall
  have hpacket := pairPacket_between call
  have hlast := exists_row_of_lastOrders routes hlength hports hkeys heffect
  have hfollows : ∀ item ∈ ports, ¬ Forwards call network' item.1 [] →
      Sends network' (pairPacket call) item.1 item.2.1 item.2.2 := by
    intro item hitem hserved
    obtain ⟨final, hmem, hfinal⟩ := hlast item hitem
    have hnonempty := (nodePorts_collects item.1 _).nonempty _ _ hmem
    have hforwards := (forwards_or_loses (hfree item.1) hnonempty hfinal).resolve_right hserved
    exact (sends_of_row hconsistent' hlength hmem hforwards hpacket).mpr
      ⟨ports, hports, lookup_of_mem hkeys hitem⟩
  have huntrapped := @follow_path topo call network' call.firstPort (pairPacket call)
    (fun node ↦ Forwards call network' node [])
    (fun node inPort htrapped ↦ .inl (lost_of_forwards_nil hconsistent' hpacket inPort htrapped))
    path ports halong hsimple.nodup hsimple.ends hfollows call.src hsimple.starts []
    (hdelivered _ hpacket) _ (mem_of_lookup hlookup)
  obtain ⟨final, hmem, hfinal⟩ := hlast _ (mem_of_lookup hlookup)
  have hsame := List.inj_on_of_nodup_map (nodePorts_collects node _).keys hmem hrow rfl
  obtain rfl : final = row := (Prod.mk.inj hsame).2
  exact huntrapped.1 (hfinal.loses hseveral hbroken)

/-- A call that delivers in every case delivers whatever rows come last. -/
theorem alwaysDelivered_of_call (horder : order.Iterates topo) (hwithin : Within topo switches)
    (hdelivers : InstallDelivers topo order fuel call network draws)
    (hconsistent : Consistent network)
    (hprepared : Prepared topo order fuel call paths pw dictionaries)
    (hready : ∀ node, (∃ row ∈ nodePorts node (dictionaries.zip pw), 1 < row.2.length) →
      GroupReady call (draws node) network node) : AlwaysDelivered topo call dictionaries := by
  have routes := routes_of_prepared horder hwithin hprepared
  have hlength := length_pw hprepared routes
  intro last hused
  obtain ⟨outPort, network', hcall, hdelivered⟩ := hdelivers (lastOrders last)
  obtain ⟨_, _, _, hprepared', heffect⟩ := installPaths_effect hcall
  obtain ⟨rfl, rfl, rfl⟩ := prepared_unique hprepared hprepared'
  have hconsistent' := consistent_of_installPaths hconsistent hcall
  refine ⟨network', installed_of_effect routes hlength hconsistent' heffect hready ?_, hdelivered⟩
  intro node hnode
  obtain ⟨exit, hentry⟩ := hused node (routes.exists_entry_iff.mpr hnode)
  obtain ⟨row, hrow⟩ := exists_row hlength hentry
  exact lastOrders_getLast? hrow

theorem deliverable_of_installDelivers (horder : order.Iterates topo)
    (hwithin : Within topo switches) (hports : DistinctPorts topo)
    (hconnected : ∃ path, SimplePath topo call.src call.dst path)
    (hconsistent : Consistent network)
    (hfree : ∀ node n, (draws node).head? = some n → (network.switches node).groups n = none)
    (hdelivers : InstallDelivers topo order fuel call network draws) :
    ∃ paths, getOptimalPaths2 topo order fuel call.src call.dst = .ok paths ∧
      Deliverable topo call paths ∧
      ∀ node, NeedsGroup topo call paths node → GroupReady call (draws node) network node := by
  obtain ⟨outPort, network', hcall, -⟩ := hdelivers (lastOrders fun _ ↦ 0)
  obtain ⟨paths, pw, dictionaries, hprepared, heffect⟩ := installPaths_effect hcall
  obtain ⟨hnodup, -, hnonempty⟩ := getOptimalPaths_ok horder hwithin hprepared.paths_eq
  have hnonempty := hnonempty (by decide) hconnected
  have routes := routes_of_prepared horder hwithin hprepared
  have hready : ∀ node, (∃ row ∈ nodePorts node (dictionaries.zip pw), 1 < row.2.length) →
      GroupReady call (draws node) network node := fun node ↦
    groupReady_of_installDelivers horder hwithin hdelivers hconsistent hfree hprepared
  have halways := alwaysDelivered_of_call horder hwithin hdelivers hconsistent hprepared hready
  have hacyclic := acyclic_of_alwaysDelivered routes halways
  refine ⟨paths, hprepared.paths_eq, ⟨hacyclic, ?_, ?_, ?_, ?_, ?_⟩,
    fun node hneeds ↦ hready node ((needsGroup_iff hprepared).mp hneeds)⟩
  · intro next hhop hused
    obtain ⟨inPort, exit, _, _, hentry, _, hlink⟩ := routes.entries_of_hop hhop
    rcases routes.entry_in hentry with ⟨-, rfl⟩ | ⟨previous, hprevious, -⟩
    · exact ne_of_alwaysDelivered routes halways hentry (Option.some.inj (hlink.1.symm.trans hused))
    · exact routes.not_hop_src hprevious
  · intro previous hhop hused
    obtain ⟨_, _, entry, exit, _, hentry, hlink⟩ := routes.entries_of_hop hhop
    rcases routes.entry_out hentry with ⟨-, rfl⟩ | ⟨hnotDst, -⟩
    · exact ne_of_alwaysDelivered routes halways hentry (Option.some.inj (hused.symm.trans hlink.2))
    · exact hnotDst rfl
  · intro hsame hequal
    obtain ⟨path, hpath⟩ := List.exists_mem_of_ne_nil _ hnonempty
    have hmem : call.src ∈ paths.flatten :=
      List.mem_flatten.mpr ⟨path, hpath, List.mem_of_head? (routes.simple path hpath).starts⟩
    obtain ⟨entry, exit, hentry⟩ := routes.exists_entry_iff.mpr hmem
    have hdiffer := ne_of_alwaysDelivered routes halways hentry
    rcases routes.entry_in hentry with ⟨-, rfl⟩ | ⟨previous, hprevious, -⟩
    · rcases routes.entry_out hentry with ⟨-, rfl⟩ | ⟨hnotDst, -⟩
      · exact hdiffer hequal.symm
      · exact hnotDst hsame
    · exact routes.not_hop_src hprevious
  · intro path hpath node hnode
    exact heffect.known node (List.mem_flatten.mpr ⟨path, hpath, hnode⟩)
  · by_cases hseveral : 1 < paths.length
    · right
      obtain ⟨node, hnode, row, hrow, hentries⟩ :=
        exists_row_several hports routes hnodup hseveral (length_pw hprepared routes)
      exact (sum_ne_zero_iff hprepared.pw_eq).mp (heffect.installable node hnode row hrow hentries)
    · exact .inl (not_lt.mp hseveral)

theorem installDelivers_of_deliverable (horder : order.Iterates topo)
    (hwithin : Within topo switches) (hports : DistinctPorts topo)
    (hconnected : ∃ path, SimplePath topo call.src call.dst path)
    (hconsistent : Consistent network)
    (hpaths : getOptimalPaths2 topo order fuel call.src call.dst = .ok paths)
    (hdeliverable : Deliverable topo call paths)
    (hready : ∀ node, NeedsGroup topo call paths node →
      GroupReady call (draws node) network node) :
    InstallDelivers topo order fuel call network draws := by
  obtain ⟨-, -, hnonempty⟩ := getOptimalPaths_ok horder hwithin hpaths
  have hnonempty := hnonempty (by decide) hconnected
  obtain ⟨pw, dictionaries, hprepared⟩ := exists_prepared horder hwithin hpaths
  have routes := routes_of_prepared horder hwithin hprepared
  have hlength := length_pw hprepared routes
  have hready' : ∀ node, (∃ row ∈ nodePorts node (dictionaries.zip pw), 1 < row.2.length) →
      GroupReady call (draws node) network node := fun node hrow ↦
    hready node ((needsGroup_iff hprepared).mpr hrow)
  have hknown : ∀ node ∈ paths.flatten, node ∈ topo.datapathList := by
    intro node hnode
    obtain ⟨path, hpath, hmem⟩ := List.mem_flatten.mp hnode
    exact hdeliverable.known path hpath node hmem
  have hsum : ∀ node ∈ paths.flatten,
      Installable pw.sum (nodePorts node (dictionaries.zip pw)) := by
    intro node hnode row hrow hentries
    rcases hdeliverable.weighted with hsingle | hpositive
    · have hfew := row_single (routes.along.length_eq ▸ hsingle) hrow
      omega
    · exact (sum_ne_zero_iff hprepared.pw_eq).mpr hpositive
  obtain ⟨outPort, hfirst⟩ := firstOutPort_of_routes routes hnonempty
  intro orders
  obtain ⟨network', hcall⟩ := @installPaths_completes call network topo order fuel orders draws
    paths pw dictionaries outPort hprepared hconsistent hknown (keys_of_routes routes) hsum hready'
    hfirst
  obtain ⟨_, _, _, hprepared', heffect⟩ := installPaths_effect hcall
  obtain ⟨rfl, rfl, rfl⟩ := prepared_unique hprepared hprepared'
  have hconsistent' := consistent_of_installPaths hconsistent hcall
  refine ⟨outPort, network', hcall, ?_⟩
  have hlast : ∀ node, ∃ last, node ∈ paths.flatten → ∃ row,
      (rowsOf orders (dictionaries.zip pw) node).getLast? = some (last, row) := by
    intro node
    by_cases hnode : node ∈ paths.flatten
    · obtain ⟨entry, exit, hentry⟩ := routes.exists_entry_iff.mpr hnode
      obtain ⟨row, hrow⟩ := exists_row hlength hentry
      obtain ⟨final, hfinal⟩ := Option.isSome_iff_exists.mp
        (List.getLast?_isSome.mpr (List.ne_nil_of_mem (mem_rowsOf.mpr hrow)))
      exact ⟨final.1, fun _ ↦ ⟨final.2, hfinal⟩⟩
    · exact ⟨0, fun hmem ↦ absurd hmem hnode⟩
  choose last hlast using hlast
  exact delivered_of_deliverable hports routes hnonempty hdeliverable
    (installed_of_effect routes hlength hconsistent' heffect hready' hlast)

theorem mem_flatten_of_needsGroup (horder : order.Iterates topo) (hwithin : Within topo switches)
    (hpaths : getOptimalPaths2 topo order fuel call.src call.dst = .ok paths) {node : Dpid}
    (h : NeedsGroup topo call paths node) : node ∈ paths.flatten := by
  obtain ⟨pw, dictionaries, hprepared⟩ := exists_prepared horder hwithin hpaths
  have routes := routes_of_prepared horder hwithin hprepared
  obtain ⟨⟨inPort, row⟩, hrow, -⟩ := (needsGroup_iff hprepared).mp h
  obtain ⟨exit, hexit⟩ := List.exists_mem_of_ne_nil row
    ((nodePorts_collects node _).nonempty _ _ hrow)
  exact routes.exists_entry_iff.mp ⟨inPort, exit.1, (mem_row_iff (length_pw hprepared routes)
    hrow).mp (List.mem_map_of_mem (f := Prod.fst) hexit)⟩

end Calls

/-- When a call delivers: the paths it chooses can be computed and are deliverable, and the groups
that it needs have numbers that their switches accept. -/
def CanDeliver (topo : TopologyState) (order : SetOrder) (call : GroupCall) (network : Network)
    (draws : Dpid → List ℕ) : Prop :=
  ∃ paths, (∃ bound, ∀ fuel ≥ bound,
      getOptimalPaths2 topo order fuel call.src call.dst = .ok paths) ∧
    Deliverable topo call paths ∧
    ∀ node, NeedsGroup topo call paths node → GroupReady call (draws node) network node

/-- **Group-based forwarding.** For connected switches of a finite topology whose neighbours have
ports of their own, after any earlier calls and with any numbers to draw, `install_paths` completes
and delivers every packet of the pair, for all orders of iteration and all choices of buckets, if
the paths it chooses can be computed, their hops have no cycle, they avoid the ports of the hosts,
their switches are known, they are one or not all free of cost, and the groups they need can be
installed. Unless a number drawn is that of an installed group, it does so only then. -/
theorem group_forwarding_delivers_iff (topo : TopologyState) (order : SetOrder)
    (links : Finset (Dpid × Dpid)) (horder : order.Iterates topo)
    (hfinite : ∀ u v, (topo.adjacency u v).isSome → (u, v) ∈ links) (hports : DistinctPorts topo)
    (call : GroupCall) (hconnected : ∃ path, SimplePath topo call.src call.dst path)
    (earlier : List Invocation) (draws : Dpid → List ℕ) :
    (CanDeliver topo order call (afterCalls .init earlier) draws →
      ∃ bound, ∀ fuel ≥ bound,
        InstallDelivers topo order fuel call (afterCalls .init earlier) draws) ∧
    ((∀ node n, (draws node).head? = some n →
        ((afterCalls .init earlier).switches node).groups n = none) →
      (∃ bound, ∀ fuel ≥ bound,
        InstallDelivers topo order fuel call (afterCalls .init earlier) draws) →
      CanDeliver topo order call (afterCalls .init earlier) draws) := by
  have hwithin := within_links hfinite
  have hconsistent := consistent_afterCalls earlier
  constructor
  · rintro ⟨paths, ⟨bound, hpaths⟩, hdeliverable, hready⟩
    refine ⟨bound, ?_⟩
    intro fuel hfuel
    exact installDelivers_of_deliverable horder hwithin hports hconnected hconsistent
      (hpaths fuel hfuel) hdeliverable hready
  · rintro hfree ⟨bound, hdelivers⟩
    obtain ⟨paths, hpaths, hdeliverable, hready⟩ := deliverable_of_installDelivers horder hwithin
      hports hconnected hconsistent hfree (hdelivers bound le_rfl)
    refine ⟨paths, ⟨bound, ?_⟩, hdeliverable, hready⟩
    intro fuel hfuel
    exact getOptimalPaths_mono horder hwithin hpaths hfuel

/-- The triangle of known switches: the hops of its two paths go upwards. -/
def knownTriangle : TopologyState := { triangle with datapathList := {1, 2, 3} }

def triangleCall : GroupCall := ⟨1, 7, 3, 8, 1, 3⟩

theorem triangleOrder_iterates_known : triangleOrder.Iterates knownTriangle :=
  ⟨triangleOrder_iterates.nodup, triangleOrder_iterates.mem_iff⟩

theorem finite_knownTriangle : ∀ u v, (knownTriangle.adjacency u v).isSome →
    (u, v) ∈ ({1, 2, 3} ×ˢ {1, 2, 3} : Finset (Dpid × Dpid)) := by
  intro u v hlinked
  simp only [knownTriangle, triangle, Option.isSome_ite] at hlinked
  simpa using hlinked.2

theorem hop_triangle {paths : List (List Dpid)} (hperm : paths.Perm [[1, 3], [1, 2, 3]])
    {u v : Dpid} (h : Hop paths u v) : (u = 1 ∧ v = 3) ∨ (u = 1 ∧ v = 2) ∨ (u = 2 ∧ v = 3) := by
  obtain ⟨path, hpath, i, hu, hv⟩ := h
  rcases List.mem_pair.mp (hperm.mem_iff.mp hpath) with rfl | rfl
  · match i with
    | 0 => exact .inl ⟨Option.some.inj hu.symm, Option.some.inj hv.symm⟩
    | i + 1 => simp at hv
  · match i with
    | 0 => exact .inr (.inl ⟨Option.some.inj hu.symm, Option.some.inj hv.symm⟩)
    | 1 => exact .inr (.inr ⟨Option.some.inj hu.symm, Option.some.inj hv.symm⟩)
    | i + 2 => simp at hv

theorem deliverable_triangle {paths : List (List Dpid)} (hperm : paths.Perm [[1, 3], [1, 2, 3]]) :
    Deliverable knownTriangle triangleCall paths := by
  have hup : ∀ u v, Hop paths u v → u < v := by
    intro u v hhop
    rcases hop_triangle hperm hhop with ⟨rfl, rfl⟩ | ⟨rfl, rfl⟩ | ⟨rfl, rfl⟩ <;> decide
  refine ⟨?_, ?_, ?_, by decide, ?_, ?_⟩
  · intro node hcycle
    have hbelow := Relation.TransGen.mono hup node node hcycle
    rw [Relation.transGen_eq_self] at hbelow
    exact lt_irrefl node hbelow
  · intro next hnext
    rcases hop_triangle hperm hnext with ⟨-, rfl⟩ | ⟨-, rfl⟩ | ⟨-, rfl⟩ <;> decide
  · intro previous hprevious
    rcases hop_triangle hperm hprevious with ⟨rfl, -⟩ | ⟨rfl, -⟩ | ⟨rfl, -⟩ <;> decide
  · intro path hpath
    rcases List.mem_pair.mp (hperm.mem_iff.mp hpath) with rfl | rfl <;> decide
  · exact .inr ⟨[1, 3], hperm.mem_iff.mpr (by simp), by decide⟩

/-- Iteration in the order of insertion. -/
def insertionOrders : Orders where
  switches := id
  switches_perm := .refl
  rows _ := id
  rows_perm _ := .refl
  items := id
  items_perm := .refl

/-- A call for packets from switch 1 to another switch of the triangle, with one number to draw. -/
def fromOne (dst : Dpid) (n : ℕ) : Invocation where
  topo := knownTriangle
  order := triangleOrder
  fuel := 10
  orders := insertionOrders
  draws _ := [n]
  call := ⟨1, 7, dst, 8, 1, dst⟩

/-- The direct path is cheaper, and the search finds it first. -/
theorem getOptimalPaths2_triangle {dst middle : Dpid}
    (hsearch : getPaths triangleOrder 10 1 dst = .ok [[1, dst], [1, middle, dst]])
    (hcosts : [[1, dst], [1, middle, dst]].mapM (getPathCost knownTriangle) = .ok [1, 2]) :
    getOptimalPaths2 knownTriangle triangleOrder 10 1 dst =
      .ok [[1, dst], [1, middle, dst]] :=
  getOptimalPaths_of_sorted [1, 2] hsearch hcosts (by decide) (by decide : 2 < maxPaths2)

theorem prepare_fromOne_three (n : ℕ) : (fromOne 3 n).prepare =
    .ok ([[1, 3], [1, 2, 3]], [1, 2],
      [[(1, 7, 5), (3, 3, 8)], [(1, 7, 4), (2, 3, 5), (3, 4, 8)]]) := by
  have hpaths := @getOptimalPaths2_triangle 3 2 (by decide) rfl
  rw [Invocation.prepare]
  simp only [fromOne, hpaths]
  rfl

theorem prepare_fromOne_two (n : ℕ) : (fromOne 2 n).prepare =
    .ok ([[1, 2], [1, 3, 2]], [1, 2],
      [[(1, 7, 4), (2, 3, 8)], [(1, 7, 5), (3, 3, 4), (2, 5, 8)]]) := by
  have hpaths := @getOptimalPaths2_triangle 2 3 (by decide) rfl
  rw [Invocation.prepare]
  simp only [fromOne, hpaths]
  rfl

/-- After a call for switch 2 the number 7 is free for the group of switch 3. -/
theorem ready_after_fromOne_two : ∀ node ∈ [1, 2, 3],
    GroupReady triangleCall [7] (afterCalls .init [fromOne 2 8]) node := by
  have hstate : ∀ node ∈ [1, 2, 3],
      (afterCalls .init [fromOne 2 8]).multipathGroupIds (node, 1, 3) = none ∧
        ((afterCalls .init [fromOne 2 8]).switches node).groups 7 = none := by
    rw [afterCalls, List.foldl_cons, List.foldl_nil, afterCall, installPaths_eq,
      prepare_fromOne_two]
    decide +kernel
  intro node hnode
  obtain ⟨hid, hfree⟩ := hstate node hnode
  refine ⟨?_, fun _ ↦ ⟨7, rfl, by decide, hfree⟩⟩
  intro groupId hother
  cases hid.symm.trans hother

/-- A second pair of the triangle is served as well. -/
theorem group_forwarding_triangle : ∃ bound, ∀ fuel ≥ bound,
    InstallDelivers knownTriangle triangleOrder fuel triangleCall
      (afterCalls .init [fromOne 2 8]) fun _ ↦ [7] := by
  have hwithin := within_links finite_knownTriangle
  have hpaths : getPaths triangleOrder 10 1 3 = .ok [[1, 3], [1, 2, 3]] := by decide
  have husable : Usable knownTriangle := ⟨usable_triangle.both, usable_triangle.bandwidth⟩
  have hconnected : SimplePath knownTriangle 1 3 [1, 3] := ⟨rfl, rfl, by decide, by decide⟩
  obtain ⟨hnodup, hmem⟩ := getPaths_ok triangleOrder_iterates_known hwithin hpaths
  have hfuel : ∀ fuel ≥ 10, getPaths triangleOrder fuel 1 3 = .ok [[1, 3], [1, 2, 3]] :=
    fun fuel ↦ getPaths_mono triangleOrder_iterates_known hwithin hpaths
  obtain ⟨optimal, ⟨bound, hoptimal⟩, -⟩ := getOptimalPaths_spec husable hfuel hnodup
    (fun path ↦ (hmem path).mp) maxPaths2
  have hperm : optimal.Perm [[1, 3], [1, 2, 3]] :=
    getOptimalPaths_perm (hoptimal _ (le_max_left bound 10)) (hfuel _ (le_max_right bound 10))
      (by decide)
  refine (group_forwarding_delivers_iff knownTriangle triangleOrder _ triangleOrder_iterates_known
    finite_knownTriangle distinctPorts_triangle triangleCall ⟨_, hconnected⟩ [fromOne 2 8]
    fun _ ↦ [7]).1 ⟨optimal, ⟨bound, hoptimal⟩, deliverable_triangle hperm, ?_⟩
  intro node hneeds
  have hnode := @mem_flatten_of_needsGroup knownTriangle triangleCall optimal triangleOrder bound
    _ triangleOrder_iterates_known hwithin (hoptimal bound le_rfl) node hneeds
  rw [hperm.flatten.mem_iff] at hnode
  apply ready_after_fromOne_two
  revert hnode
  simp only [List.flatten_cons, List.flatten_nil, List.cons_append, List.nil_append,
    List.mem_cons, List.not_mem_nil, or_false]
  tauto

/-- Two ways between the end switches and a link across: the paths use it in both directions. -/
def diamondLinks : List (Dpid × Dpid) := [(1, 2), (1, 3), (2, 3), (2, 4), (3, 4)]

def diamond : TopologyState :=
  { TopologyState.init with
    datapathList := {1, 2, 3, 4}
    adjacency := fun u v ↦
      if (u, v) ∈ diamondLinks ∨ (v, u) ∈ diamondLinks then some (v + 2) else none }

def diamondOrder : SetOrder := fun node path ↦
  [1, 2, 3, 4].filter fun next ↦ (diamond.adjacency node next).isSome ∧ next ∉ path

def diamondCall : GroupCall := ⟨1, 7, 4, 8, 1, 4⟩

theorem linked_diamond {u v : Dpid} (h : (diamond.adjacency u v).isSome) :
    u ∈ [1, 2, 3, 4] ∧ v ∈ [1, 2, 3, 4] := by
  simp only [diamond, Option.isSome_ite] at h
  have hlinks : ∀ link ∈ diamondLinks, link.1 ∈ [1, 2, 3, 4] ∧ link.2 ∈ [1, 2, 3, 4] := by decide
  rcases h with hlink | hlink
  · exact hlinks _ hlink
  · exact (hlinks _ hlink).symm

theorem diamondOrder_iterates : diamondOrder.Iterates diamond where
  nodup _ _ := List.Nodup.filter _ (by decide)
  mem_iff node path next := by
    simp only [diamondOrder, List.mem_filter, decide_eq_true_eq, and_iff_right_iff_imp]
    rintro ⟨hlinked, -⟩
    exact (linked_diamond hlinked).2

theorem distinctPorts_diamond : DistinctPorts diamond := by
  intro u v w port hv hw
  simp only [diamond, Option.ite_none_right_eq_some, Option.some.injEq] at hv hw
  exact Nat.add_right_cancel (hv.2.trans hw.2.symm)

theorem group_forwarding_diamond :
    diamondOrder.Iterates diamond ∧ DistinctPorts diamond ∧ SimplePath diamond 1 4 [1, 2, 4] ∧
      ¬ ∃ bound, ∀ fuel ≥ bound,
        InstallDelivers diamond diamondOrder fuel diamondCall .init fun _ ↦ [0] := by
  have hconnected : SimplePath diamond 1 4 [1, 2, 4] := ⟨rfl, rfl, by decide, by decide⟩
  refine ⟨diamondOrder_iterates, distinctPorts_diamond, hconnected, ?_⟩
  rintro ⟨bound, hdelivers⟩
  have hwithin : Within diamond {1, 2, 3, 4} := by
    intro u v hlinked
    simpa using (linked_diamond hlinked).2
  obtain ⟨paths, hpaths, hdeliverable, -⟩ := deliverable_of_installDelivers diamondOrder_iterates
    hwithin distinctPorts_diamond ⟨_, hconnected⟩ consistent_init (fun _ _ _ ↦ rfl)
    (hdelivers _ (le_max_left bound 20))
  have hsearch : getPaths diamondOrder 20 1 4 =
      .ok [[1, 3, 4], [1, 3, 2, 4], [1, 2, 4], [1, 2, 3, 4]] := by decide
  have hperm := getOptimalPaths_perm hpaths
    (getPaths_mono diamondOrder_iterates hwithin hsearch (le_max_right bound 20)) (by decide)
  have hdown : Hop paths 3 2 := ⟨[1, 3, 2, 4], hperm.mem_iff.mpr (by decide), 1, rfl, rfl⟩
  have hup : Hop paths 2 3 := ⟨[1, 2, 3, 4], hperm.mem_iff.mpr (by decide), 1, rfl, rfl⟩
  exact hdeliverable.acyclic 2 (.tail (.single hup) hdown)

end Wispr.Multipath.Cycles
