import Wispr.Controller.Forwarding

/-!
# Where tagged frames leave the network

Rules for double-tagged frames send them along links and, at the end of a path, to the daemon port.
At the source switch the rule sends a frame from the daemon out of the egress port of the path. When
both hosts hang on one switch that port is the port of the destination host, because the source role
is tested first and the destination role is never reached. Apart from installs for such pairs tagged
frames stay inside until they reach a daemon.
-/

open Wispr.Foundation.Effects Wispr.Foundation.FlowTable

namespace Wispr.Controller.Confinement

open Paths Install Forwarding

/-- One call of `install_paths`, completed or not, with the topology it found. -/
structure Attempt where
  topo : TopologyState
  call : InstallCall
  draws : List ℕ

def Attempt.messages (env : Env) (attempt : Attempt) : List (Dpid × FlowMod) :=
  (installPaths env attempt.topo attempt.call attempt.draws).log

def attemptMessages (env : Env) (attempts : List Attempt) : List (Dpid × FlowMod) :=
  attempts.flatMap (Attempt.messages env)

/-- How the network is wired: ports in the adjacency map are ends of links, and every call is for
hosts at fixed positions. A host port is no link and no daemon port. -/
structure Attachment (peer : Peer) (attach : Mac → Dpid × Port) (attempts : List Attempt) :
    Prop where
  links : ∀ attempt ∈ attempts, ∀ u v p, attempt.topo.adjacency u v = some p → (peer u p).isSome
  src : ∀ attempt ∈ attempts, attach attempt.call.srcMac =
    (attempt.call.src, attempt.call.firstPort)
  dst : ∀ attempt ∈ attempts, attach attempt.call.dstMac =
    (attempt.call.dst, attempt.call.lastPort)
  hostPort : ∀ mac, (attach mac).2 ≠ 1 ∧ (attach mac).2 ≠ 2 ∧ peer (attach mac).1 (attach mac).2 =
    none

/-- The frame, having entered a switch on a port, can leave the network at a switch on a port. A
switch never sends a packet back out of the port it came in on. -/
inductive LeavesAt (tables : Dpid → List FlowMod) (peer : Peer) (packet : Packet) :
    Dpid → Port → Dpid → Port → Prop
  | leave {node : Dpid} {inPort outPort : Port} {rule : FlowMod} :
      Selected OFPMatch.accepts (tables node) (inPort, packet) rule →
      .port outPort ∈ rule.actions → outPort ≠ inPort → peer node outPort = none →
      LeavesAt tables peer packet node inPort node outPort
  | hop {node next last : Dpid} {inPort outPort nextIn lastPort : Port} {rule : FlowMod} :
      Selected OFPMatch.accepts (tables node) (inPort, packet) rule →
      .port outPort ∈ rule.actions → outPort ≠ inPort → peer node outPort = some (next, nextIn) →
      LeavesAt tables peer packet next nextIn last lastPort →
      LeavesAt tables peer packet node inPort last lastPort

/-- A frame as the daemons send it: behind the outer tag stands another one. -/
structure DoubleTagged (packet : Packet) (vlanVid : ℕ) : Prop where
  ethType : packet.ethType = 0x8100
  vid : packet.vlanVid = some vlanVid

/-- Tagged frames from a daemon leave the network at daemon ports only. -/
def Confined (tables : Dpid → List FlowMod) (peer : Peer) : Prop :=
  ∀ packet vlanVid, DoubleTagged packet vlanVid → ∀ node last port,
    LeavesAt tables peer packet node 2 last port → port = 1

variable {env : Env} {peer : Peer} {attach : Mac → Dpid × Port} {attempts : List Attempt}

/-- A VLAN rule of an install between two switches sends frames to the daemon port or into a
link. -/
theorem vlanPair_output {topo : TopologyState} {call : InstallCall} (hends : call.src ≠ call.dst)
    {path : List Dpid} {ports : PathPorts} (hsimple : topo.G.SimplePath call.src call.dst path)
    (halong : PortsAlong topo call.lastPort call.firstPort path ports) {node : Dpid}
    {inPort outPort : Port} (hitem : (node, inPort, outPort) ∈ ports) {vlanVid : ℕ}
    {flow : FlowMod} (hflow : flow ∈ vlanPair call node inPort outPort vlanVid) :
    ∃ port, flow.actions = [.port port] ∧
      (port = 1 ∨ ∃ v, topo.adjacency node v = some port) := by
  obtain ⟨hentry, hexit⟩ := halong.ports_of_item hitem
  rw [hsimple.starts, Option.some.injEq] at hentry
  rw [hsimple.ends, Option.some.injEq] at hexit
  have hin : node ≠ call.src → ∃ v, topo.adjacency node v = some inPort :=
    fun hnode ↦ hentry.resolve_left fun hfirst ↦ hnode hfirst.1.symm
  have hout : node ≠ call.dst → ∃ v, topo.adjacency node v = some outPort :=
    fun hnode ↦ hexit.resolve_left fun hlast ↦ hnode hlast.1.symm
  unfold vlanPair at hflow
  split at hflow
  · rename_i hsrc
    simp only [List.mem_cons, List.not_mem_nil, or_false] at hflow
    rcases hflow with rfl | rfl
    · exact ⟨outPort, rfl, .inr (hout (hsrc ▸ hends))⟩
    · exact ⟨1, rfl, .inl rfl⟩
  · rename_i hsrc
    split at hflow
    · simp only [List.mem_cons, List.not_mem_nil, or_false] at hflow
      rcases hflow with rfl | rfl
      · exact ⟨1, rfl, .inl rfl⟩
      · exact ⟨inPort, rfl, .inr (hin hsrc)⟩
    · rename_i hdst
      simp only [List.mem_cons, List.not_mem_nil, or_false] at hflow
      rcases hflow with rfl | rfl
      · exact ⟨outPort, rfl, .inr (hout hdst)⟩
      · exact ⟨inPort, rfl, .inr (hin hsrc)⟩

/-- A call that installs nothing for one switch alone: its end points differ, or it stops at the
missing switch before it has sent anything. -/
def Harmless (attempt : Attempt) : Prop :=
  attempt.call.src = attempt.call.dst → attempt.call.src ∉ attempt.topo.datapathList

theorem path_of_sameSwitch {topo : TopologyState} {call : InstallCall}
    (hsame : call.src = call.dst) {paths : List (List Dpid)}
    (hpaths : getPaths env topo call.src call.dst = .ok paths) : paths = [[call.src]] := by
  rw [getPaths, if_pos hsame] at hpaths
  exact (Except.ok.inj hpaths).symm

theorem Attempt.output_of_harmless {attempt : Attempt} (hharmless : Harmless attempt) {node : Dpid}
    {flow : FlowMod} (hmem : (node, flow) ∈ attempt.messages env)
    (htype : flow.condition.ethType = some 0x8100) :
    ∃ port, flow.actions = [.port port] ∧
      (port = 1 ∨ ∃ v, attempt.topo.adjacency node v = some port) := by
  obtain ⟨hknown, paths, path, ports, hpaths, hpath, halong, first, vlan, inPort, outPort, hitem,
    hflow⟩ := mem_installPaths_log hmem
  have hsimple := getPaths_simple hpaths path hpath
  have hends : attempt.call.src ≠ attempt.call.dst := by
    intro hsame
    rw [path_of_sameSwitch hsame hpaths, List.mem_singleton] at hpath
    have hnode : node ∈ path := halong.keys ▸ List.mem_map_of_mem hitem
    rw [hpath, List.mem_singleton] at hnode
    exact hharmless hsame (hnode ▸ hknown)
  rcases nodeFlows_cases hflow with harp | hipv4 | hvlan
  · exact absurd (harp.symm.trans htype) (by decide)
  · exact absurd (hipv4.symm.trans htype) (by decide)
  · obtain ⟨x, -, hpair⟩ := mem_vlanFlows.mp hvlan
    exact vlanPair_output hends hsimple halong hitem hpair

/-- The rules that accept a tagged frame: the table-miss rule and VLAN rules of some call. -/
theorem accepting_vlan {node : Dpid} {rule : FlowMod} {port : Port} {packet : Packet} {vlanVid : ℕ}
    (htagged : DoubleTagged packet vlanVid)
    (hmem : rule ∈ tableOf (attemptMessages env attempts) node)
    (haccepts : rule.condition.accepts (port, packet) = true) :
    rule = tableMiss ∨ ∃ attempt ∈ attempts, (node, rule) ∈ attempt.messages env ∧
      rule.priority = 3 ∧ rule.condition = vlanMatch port packet.ethDst packet.ethSrc vlanVid := by
  rcases mem_addAll hmem with hmiss | hsent
  · exact .inl (List.mem_singleton.mp hmiss)
  · right
    obtain ⟨attempt, hattempt, hmessage⟩ := List.mem_flatMap.mp (mem_sentTo.mp hsent)
    obtain ⟨-, paths, path, ports, -, -, -, first, vlan, inPort, outPort, -, hflow⟩ :=
      mem_installPaths_log hmessage
    exact ⟨attempt, hattempt, hmessage,
      accepts_doubleTagged hflow htagged.ethType htagged.vid haccepts⟩

/-- Where all calls are harmless, a tagged frame leaves at a daemon port, wherever it entered. -/
theorem leavesAt_daemon (hattached : Attachment peer attach attempts)
    (hharmless : ∀ attempt ∈ attempts, Harmless attempt) {packet : Packet} {vlanVid : ℕ}
    (htagged : DoubleTagged packet vlanVid) {node last : Dpid} {inPort port : Port}
    (h : LeavesAt (tableOf (attemptMessages env attempts)) peer packet node inPort last port) :
    port = 1 := by
  induction h with
  | @leave node inPort outPort rule hselected haction hdiffer hleaves =>
    rcases accepting_vlan htagged hselected.mem hselected.accepted with
      hmiss | ⟨attempt, hattempt, hmessage, -, hcondition⟩
    · rw [hmiss] at haction
      simp [tableMiss] at haction
    · obtain ⟨exit, hexit, hdaemon | ⟨v, hlink⟩⟩ := Attempt.output_of_harmless
        (hharmless attempt hattempt) hmessage (by rw [hcondition]; rfl)
      · rw [hexit, List.mem_singleton, OutPort.port.injEq] at haction
        exact haction.trans hdaemon
      · rw [hexit, List.mem_singleton, OutPort.port.injEq] at haction
        have hpeer := hattached.links attempt hattempt node v exit hlink
        rw [← haction, hleaves] at hpeer
        cases hpeer
  | hop _ _ _ _ _ ih => exact ih

/-! ## Installs at one switch -/

/-- The rule that hands frames from the daemon to the destination host, tag and all. -/
def hostRule (call : InstallCall) : FlowMod :=
  ⟨3, vlanMatch 2 call.dstMac call.srcMac 0x1001, [.port call.lastPort]⟩

theorem hostRule_mem_log {attempt : Attempt} (hsame : attempt.call.src = attempt.call.dst)
    (hknown : attempt.call.src ∈ attempt.topo.datapathList) :
    (attempt.call.src, hostRule attempt.call) ∈ attempt.messages env := by
  have hpaths : getPaths env attempt.topo attempt.call.src attempt.call.dst =
      .ok [[attempt.call.src]] := if_pos hsame
  have hitems : env.items
      (setItem [] attempt.call.src (attempt.call.firstPort, attempt.call.lastPort)) =
        [(attempt.call.src, attempt.call.firstPort, attempt.call.lastPort)] :=
    List.perm_singleton.mp (env.items_perm _)
  refine Logged.mem_bind_log_right hpaths ?_
  refine Logged.mem_bind_log_right rfl ?_
  refine Logged.mem_bind_log_right rfl ?_
  refine Logged.mem_bind_log_left _ ?_
  refine Logged.mem_bind_log_left _ ?_
  have hsent : (attempt.call.src, hostRule attempt.call) ∈
      (nodeFlows attempt.call true 0x1001 attempt.call.src attempt.call.firstPort
        attempt.call.lastPort).map fun flow ↦ (attempt.call.src, flow) := by
    refine List.mem_map.mpr ⟨_, List.mem_append_right _ ?_, rfl⟩
    refine mem_vlanFlows.mpr ⟨0, Nat.zero_le _, ?_⟩
    rw [vlanPair, if_pos rfl]
    exact List.mem_cons_self ..
  rw [hitems]
  refine Logged.mem_bind_log_right (if_pos hknown) ?_
  exact Logged.mem_bind_log_left _ hsent

/-- A VLAN rule for frames from the daemon port: it belongs to the source switch of its call, with
the call's addresses or with the port as egress port, or to another switch. -/
theorem vlanPair_of_daemonPort {call : InstallCall} {node : Dpid} {inPort outPort : Port}
    {vlanVid vlanVid' : ℕ} {dstMac srcMac : Mac} {flow : FlowMod}
    (hflow : flow ∈ vlanPair call node inPort outPort vlanVid)
    (hcondition : flow.condition = vlanMatch 2 dstMac srcMac vlanVid') :
    (node = call.src ∧ ((call.dstMac = dstMac ∧ call.srcMac = srcMac ∧
        flow.actions = [.port outPort]) ∨
      (outPort = 2 ∧ call.srcMac = dstMac ∧ call.dstMac = srcMac))) ∨
      (node ≠ call.src ∧ (call.srcMac = srcMac ∨ call.srcMac = dstMac)) := by
  unfold vlanPair at hflow
  split at hflow
  · rename_i hsrc
    left
    simp only [List.mem_cons, List.not_mem_nil, or_false] at hflow
    rcases hflow with rfl | rfl
    · simp only [vlanMatch, OFPMatch.mk.injEq, Option.some.injEq] at hcondition
      exact ⟨hsrc, .inl ⟨hcondition.2.1, hcondition.2.2.1, rfl⟩⟩
    · simp only [vlanMatch, OFPMatch.mk.injEq, Option.some.injEq] at hcondition
      exact ⟨hsrc, .inr ⟨hcondition.1, hcondition.2.1, hcondition.2.2.1⟩⟩
  · rename_i hsrc
    right
    refine ⟨hsrc, ?_⟩
    split at hflow
    · simp only [List.mem_cons, List.not_mem_nil, or_false] at hflow
      rcases hflow with rfl | rfl
      · simp only [vlanMatch, OFPMatch.mk.injEq, Option.some.injEq] at hcondition
        exact .inl hcondition.2.2.1
      · simp only [vlanMatch, OFPMatch.mk.injEq, Option.some.injEq] at hcondition
        exact .inr hcondition.2.1
    · simp only [List.mem_cons, List.not_mem_nil, or_false] at hflow
      rcases hflow with rfl | rfl
      · simp only [vlanMatch, OFPMatch.mk.injEq, Option.some.injEq] at hcondition
        exact .inl hcondition.2.2.1
      · simp only [vlanMatch, OFPMatch.mk.injEq, Option.some.injEq] at hcondition
        exact .inr hcondition.2.1

/-- Whatever writes the entry of that rule is a call for the same hosts and writes the same rule. -/
theorem eq_hostRule (hattached : Attachment peer attach attempts) {attempt : Attempt}
    (hattempt : attempt ∈ attempts) (hsame : attempt.call.src = attempt.call.dst) {flow : FlowMod}
    (hflow : (attempt.call.src, flow) ∈ attemptMessages env attempts)
    (hentry : flow.SameEntry (hostRule attempt.call)) : flow = hostRule attempt.call := by
  obtain ⟨writer, hwriter, hmessage⟩ := List.mem_flatMap.mp hflow
  obtain ⟨-, paths, path, ports, hpaths, hpath, halong, first, vlan, inPort, outPort, hitem,
    hnode⟩ := mem_installPaths_log hmessage
  have htype : flow.condition.ethType = some 0x8100 := by rw [hentry.2]; rfl
  have hsrc := hattached.src attempt hattempt
  have hdst := hattached.dst attempt hattempt
  have hsrc' := hattached.src writer hwriter
  have hdst' := hattached.dst writer hwriter
  -- A writer for hosts of this switch has one path, from host port to host port.
  have hports : writer.call.src = writer.call.dst → outPort = writer.call.lastPort := by
    intro hone
    rw [path_of_sameSwitch hone hpaths, List.mem_singleton] at hpath
    subst hpath
    cases halong with
    | last _ _ =>
      simp only [List.mem_singleton, Prod.mk.injEq] at hitem
      exact hitem.2.2
  rcases nodeFlows_cases hnode with harp | hipv4 | hvlan
  · exact absurd (harp.symm.trans htype) (by decide)
  · exact absurd (hipv4.symm.trans htype) (by decide)
  obtain ⟨x, -, hpair⟩ := mem_vlanFlows.mp hvlan
  rcases vlanPair_of_daemonPort hpair hentry.2 with
    ⟨hnodeSrc, ⟨hdstMac, hsrcMac, hactions⟩ | ⟨hdaemon, hsrcMac, hdstMac⟩⟩ | ⟨hother, hsrcMac⟩
  · rw [hdstMac, hdst, Prod.mk.injEq] at hdst'
    have hone : writer.call.src = writer.call.dst :=
      hnodeSrc.symm.trans (hsame.trans hdst'.1)
    rw [hports hone, ← hdst'.2] at hactions
    exact Rule.ext hentry.1 hentry.2 hactions
  · -- A call in the other direction would have to know the host on the daemon port.
    rw [hdstMac, hsrc, Prod.mk.injEq] at hdst'
    have hone : writer.call.src = writer.call.dst := hnodeSrc.symm.trans hdst'.1
    have hhost := (hattached.hostPort writer.call.dstMac).2.1
    rw [hattached.dst writer hwriter] at hhost
    exact absurd ((hports hone).symm.trans hdaemon) hhost
  · -- Both hosts hang on this switch, so it is the source switch of every such call.
    apply absurd _ hother
    rcases hsrcMac with hsrcMac | hsrcMac
    · rw [hsrcMac, hsrc, Prod.mk.injEq] at hsrc'
      exact hsrc'.1
    · rw [hsrcMac, hdst, Prod.mk.injEq] at hsrc'
      exact hsame.trans hsrc'.1

/-- After a call for two hosts of one switch a tagged frame leaves through a host port. -/
theorem leavesAt_host (hattached : Attachment peer attach attempts) {attempt : Attempt}
    (hattempt : attempt ∈ attempts) (hsame : attempt.call.src = attempt.call.dst)
    (hknown : attempt.call.src ∈ attempt.topo.datapathList) :
    LeavesAt (tableOf (attemptMessages env attempts)) peer
      ⟨attempt.call.srcMac, attempt.call.dstMac, 0x8100, 0x8100, some 0x1001, none, none, false⟩
      attempt.call.src 2 attempt.call.src attempt.call.lastPort := by
  have hhost := hattached.hostPort attempt.call.dstMac
  rw [hattached.dst attempt hattempt] at hhost
  have hwritten : (attempt.call.src, hostRule attempt.call) ∈ attemptMessages env attempts :=
    List.mem_flatMap.mpr ⟨attempt, hattempt, hostRule_mem_log hsame hknown⟩
  have hmem : hostRule attempt.call ∈ tableOf (attemptMessages env attempts) attempt.call.src := by
    apply (mem_addAll_of_agreeing (mem_sentTo.mpr hwritten) _ ⟨rfl, rfl⟩).mpr rfl
    intro flow hflow hentry
    exact eq_hostRule hattached hattempt hsame (mem_sentTo.mp hflow) hentry
  have hselected : Selected OFPMatch.accepts
      (tableOf (attemptMessages env attempts) attempt.call.src)
      (2, ⟨attempt.call.srcMac, attempt.call.dstMac, 0x8100, 0x8100, some 0x1001, none, none,
        false⟩) (hostRule attempt.call) := by
    refine ⟨hmem, by simp [OFPMatch.accepts, fieldAccepts, vlanMatch, hostRule], ?_⟩
    intro other hother haccepts
    rcases accepting_vlan ⟨rfl, rfl⟩ hother haccepts with hmiss | ⟨-, -, -, hpriority, -⟩
    · rw [hmiss]
      exact Nat.zero_le _
    · exact hpriority.le
  exact .leave hselected (List.mem_singleton_self _) hhost.2.1 (hsame ▸ hhost.2.2)

/-- **Tagged frames reach no host** exactly when no install was for two hosts of one known
switch. -/
theorem tagged_confined_iff (env : Env) (peer : Peer) (attach : Mac → Dpid × Port)
    (attempts : List Attempt) (hattached : Attachment peer attach attempts) :
    Confined (tableOf (attemptMessages env attempts)) peer ↔
      ∀ attempt ∈ attempts, attempt.call.src = attempt.call.dst →
        attempt.call.src ∉ attempt.topo.datapathList := by
  constructor
  · intro hconfined attempt hattempt hsame hknown
    have hdaemon := hconfined _ 0x1001 ⟨rfl, rfl⟩ _ _ _
      (leavesAt_host hattached hattempt hsame hknown)
    have hhost := hattached.hostPort attempt.call.dstMac
    rw [hattached.dst attempt hattempt] at hhost
    exact hhost.1 hdaemon
  · intro hharmless packet vlanVid htagged node last port hleaves
    exact leavesAt_daemon hattached hharmless htagged hleaves

/-- Hosts 1 and 2 hang on switch 1, all others on switch 2. -/
def hostAttach (mac : Mac) : Dpid × Port :=
  if mac = 1 then (1, 4) else if mac = 2 then (1, 5) else (2, 4)

/-- Installs between hosts of different switches. -/
def acrossAttempt : Attempt := ⟨pairTopology, ⟨1, 4, 2, 4, 1, 3, 1, 3⟩, [0]⟩

def backAttempt : Attempt := ⟨pairTopology, ⟨2, 4, 1, 5, 3, 2, 3, 2⟩, [0]⟩

/-- An install between hosts of switch 1, and the same before the switch has entered. -/
def sameSwitchAttempt : Attempt := ⟨pairTopology, ⟨1, 4, 1, 5, 1, 2, 1, 2⟩, [0]⟩

def earlyAttempt : Attempt := ⟨.init, ⟨1, 4, 1, 5, 1, 2, 1, 2⟩, [0]⟩

theorem hostAttach_attachment {attempts : List Attempt}
    (h : ∀ attempt ∈ attempts, attempt = acrossAttempt ∨ attempt = backAttempt ∨
      attempt = sameSwitchAttempt ∨ attempt = earlyAttempt) :
    Attachment pairPeer hostAttach attempts where
  links := by
    intro attempt hattempt u v p hlink
    have htopo : attempt.topo = pairTopology ∨ attempt.topo = .init := by
      rcases h attempt hattempt with rfl | rfl | rfl | rfl
      · exact .inl rfl
      · exact .inl rfl
      · exact .inl rfl
      · exact .inr rfl
    rcases htopo with htopo | htopo
    · rw [htopo] at hlink
      obtain ⟨rfl, ⟨rfl, rfl⟩ | ⟨rfl, rfl⟩⟩ := pairTopology_port hlink
      · rfl
      · rfl
    · rw [htopo] at hlink
      cases hlink
  src := by
    intro attempt hattempt
    rcases h attempt hattempt with rfl | rfl | rfl | rfl
    · rfl
    · rfl
    · rfl
    · rfl
  dst := by
    intro attempt hattempt
    rcases h attempt hattempt with rfl | rfl | rfl | rfl
    · rfl
    · rfl
    · rfl
    · rfl
  hostPort := by
    intro mac
    unfold hostAttach
    split
    · decide
    · split
      · decide
      · decide

theorem tagged_frame_reaches_host :
    Attachment pairPeer hostAttach [acrossAttempt, sameSwitchAttempt] ∧
      ¬ Confined (tableOf (attemptMessages directPaths [acrossAttempt, sameSwitchAttempt]))
        pairPeer := by
  have hattached : Attachment pairPeer hostAttach [acrossAttempt, sameSwitchAttempt] :=
    hostAttach_attachment (by simp)
  refine ⟨hattached, ?_⟩
  intro hconfined
  have hleaves : LeavesAt _ pairPeer _ 1 2 1 5 :=
    @leavesAt_host directPaths _ _ _ hattached sameSwitchAttempt (by simp) rfl (by decide)
  exact absurd (hconfined _ 0x1001 ⟨rfl, rfl⟩ _ _ _ hleaves) (by decide)

/-- An install for two hosts of a switch that has not entered raises before it sends their rules. -/
theorem tagged_confined_across :
    Confined (tableOf (attemptMessages directPaths [earlyAttempt, acrossAttempt, backAttempt]))
      pairPeer := by
  apply (tagged_confined_iff directPaths pairPeer hostAttach
    [earlyAttempt, acrossAttempt, backAttempt] (hostAttach_attachment (by simp))).mpr
  intro attempt hattempt
  simp only [List.mem_cons, List.not_mem_nil, or_false] at hattempt
  rcases hattempt with rfl | rfl | rfl
  · exact fun _ ↦ Finset.notMem_empty _
  · exact fun hsame ↦ absurd hsame (by decide)
  · exact fun hsame ↦ absurd hsame (by decide)

end Wispr.Controller.Confinement
