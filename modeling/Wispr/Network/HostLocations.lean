import Wispr.Network.Schedule

/-!
# Host locations are learned correctly

The handler keeps the first location it sees for an address. That this is the host's own port rests
on causality: no frame of a host travels past its access switch before the controller has recorded
the host. A frame leaves the access switch only by a rule for the host's port, which an install
between recorded hosts has sent, or by a packet-out, which the controller sends after recording its
sender.
-/

open Wispr.Foundation.FlowTable

namespace Wispr.Network.HostLocations

open Controller.Paths Controller.Install Controller.PacketIn Model Schedule

variable {env : Env} {fabric : Fabric} {order : Order}
  {handles : ControllerState → PacketInMsg → Bool}

/-- The controller knows where the host is. -/
def Recorded (controller : ControllerState) (mac : Mac) : Prop := controller.hosts mac ≠ none

/-- A frame is still on the access link of its sender, or the sender is recorded. -/
def AtHome (fabric : Fabric) (controller : ControllerState) (dpid : Dpid) (port : Port)
    (packet : Packet) : Prop :=
  fabric.attach packet.ethSrc = some (dpid, port) ∨ Recorded controller packet.ethSrc

/-- A rule that moves frames of a host off its access switch is there for a recorded host. -/
def RuleOk (fabric : Fabric) (controller : ControllerState) (dpid : Dpid) (rule : FlowMod) : Prop :=
  rule.actions = [] ∨ rule.actions = [.controller] ∨
    ∃ port, rule.condition.inPort = some port ∧
      ∀ mac, fabric.attach mac = some (dpid, port) → Recorded controller mac

/-- The causality invariant. -/
structure Inv (fabric : Fabric) (state : NetState) : Prop where
  hosts : ∀ {mac location}, state.controller.hosts mac = some location →
    fabric.attach mac = some location
  frames : ∀ frame ∈ state.frames,
    AtHome fabric state.controller frame.dpid frame.port frame.packet
  packetIns : ∀ event ∈ state.packetIns,
    AtHome fabric state.controller event.dpid event.inPort event.packet
  packetOuts : ∀ {dpid inPort outPort packet},
    (dpid, SwitchMsg.packetOut inPort outPort packet) ∈ state.toSwitches →
      Recorded state.controller packet.ethSrc
  flowMods : ∀ {dpid flow}, (dpid, SwitchMsg.flowMod flow) ∈ state.toSwitches →
    RuleOk fabric state.controller dpid flow
  tables : ∀ {dpid rule}, rule ∈ state.tables dpid → RuleOk fabric state.controller dpid rule
  daemons : ∀ {dpid packet}, (dpid, packet) ∈ state.daemons →
    Recorded state.controller packet.ethSrc
  links : ∀ {u v port}, state.controller.topo.adjacency u v = some port → fabric.peer u port ≠ none

/-- Every recorded location stays as it is. -/
def Extends (controller controller' : ControllerState) : Prop :=
  ∀ mac location, controller.hosts mac = some location → controller'.hosts mac = some location

theorem Recorded.mono {controller controller' : ControllerState}
    (hextends : Extends controller controller') {mac : Mac} (h : Recorded controller mac) :
    Recorded controller' mac := by
  obtain ⟨location, hlocation⟩ := Option.ne_none_iff_exists'.mp h
  exact Option.ne_none_iff_exists'.mpr ⟨location, hextends mac location hlocation⟩

theorem AtHome.mono {controller controller' : ControllerState}
    (hextends : Extends controller controller') {dpid : Dpid} {port : Port} {packet : Packet}
    (h : AtHome fabric controller dpid port packet) : AtHome fabric controller' dpid port packet :=
  h.imp_right (Recorded.mono hextends)

theorem RuleOk.mono {controller controller' : ControllerState}
    (hextends : Extends controller controller') {dpid : Dpid} {rule : FlowMod}
    (h : RuleOk fabric controller dpid rule) : RuleOk fabric controller' dpid rule := by
  rcases h with hdrop | hmiss | ⟨port, hport, hhosts⟩
  · exact .inl hdrop
  · exact .inr (.inl hmiss)
  · exact .inr (.inr ⟨port, hport, fun mac hmac ↦ (hhosts mac hmac).mono hextends⟩)

theorem ruleOk_tableMiss (fabric : Fabric) (controller : ControllerState) (dpid : Dpid) :
    RuleOk fabric controller dpid tableMiss := .inr (.inl rfl)

theorem inv_init (fabric : Fabric) : Inv fabric .init where
  hosts := by
    intro mac location h
    cases h
  frames := by simp [NetState.init]
  packetIns := by simp [NetState.init]
  packetOuts := by simp [NetState.init]
  flowMods := by simp [NetState.init]
  tables := by
    intro dpid rule hrule
    rw [List.mem_singleton.mp hrule]
    exact ruleOk_tableMiss fabric _ dpid
  daemons := by simp [NetState.init]
  links := by
    intro u v port h
    cases h

/-- A frame of a recorded host may go anywhere. -/
theorem transmit_inv {state : NetState} (hinv : Inv fabric state) {packet : Packet}
    (hrecorded : Recorded state.controller packet.ethSrc) (dpid : Dpid) (port : Port) :
    Inv fabric (state.transmit fabric dpid packet port) := by
  unfold NetState.transmit
  split
  · refine { hinv with frames := ?_ }
    intro frame hframe
    rcases List.mem_append.mp hframe with hold | hnew
    · exact hinv.frames frame hold
    · rw [List.mem_singleton.mp hnew]
      exact .inr hrecorded
  · split
    · refine { hinv with daemons := ?_ }
      intro dpid' packet' hmem
      rcases List.mem_append.mp hmem with hold | hnew
      · exact hinv.daemons hold
      · cases List.mem_singleton.mp hnew
        exact hrecorded
    · exact hinv

theorem transmitAll_inv {state : NetState} (hinv : Inv fabric state) {packet : Packet}
    (hrecorded : Recorded state.controller packet.ethSrc) (dpid : Dpid) (ports : List Port) :
    Inv fabric (ports.foldl (fun state port ↦ state.transmit fabric dpid packet port) state) := by
  induction ports generalizing state with
  | nil => exact hinv
  | cons port rest ih =>
    apply ih (transmit_inv hinv hrecorded dpid port)
    rwa [transmit_controller]

/-- A packet-in may be raised for any frame that is at home. -/
theorem raise_inv {state : NetState} (hinv : Inv fabric state) {dpid : Dpid} {port : Port}
    {packet : Packet} (hhome : AtHome fabric state.controller dpid port packet) :
    Inv fabric (state.perform fabric dpid port packet .controller) := by
  refine { hinv with packetIns := ?_ }
  intro event hevent
  rcases List.mem_append.mp hevent with hold | hnew
  · exact hinv.packetIns event hold
  · rw [List.mem_singleton.mp hnew]
    exact hhome

theorem perform_inv {state : NetState} (hinv : Inv fabric state) {packet : Packet}
    (hrecorded : Recorded state.controller packet.ethSrc) (dpid : Dpid) (port : Port)
    (action : OutPort) : Inv fabric (state.perform fabric dpid port packet action) := by
  cases action with
  | port number => exact transmitAll_inv hinv hrecorded dpid _
  | flood => exact transmitAll_inv hinv hrecorded dpid _
  | controller => exact raise_inv hinv (.inr hrecorded)

theorem performAll_inv {state : NetState} (hinv : Inv fabric state) {packet : Packet}
    (hrecorded : Recorded state.controller packet.ethSrc) (dpid : Dpid) (port : Port)
    (actions : List OutPort) : Inv fabric (actions.foldl
      (fun state action ↦ state.perform fabric dpid port packet action) state) := by
  induction actions generalizing state with
  | nil => exact hinv
  | cons action rest ih =>
    apply ih (perform_inv hinv hrecorded dpid port action)
    rwa [perform_controller]

/-- Rules of an install are for link ports, the daemon port, and the ports of two recorded hosts. -/
theorem ruleOk_of_sends {controller : ControllerState}
    (hhosts : ∀ {mac location}, controller.hosts mac = some location →
      fabric.attach mac = some location)
    (hlinks : ∀ {u v port}, controller.topo.adjacency u v = some port → fabric.peer u port ≠ none)
    {event : PacketInMsg} {dpid : Dpid} {flow : FlowMod}
    (h : Sends env controller.topo controller.hosts event (dpid, .flowMod flow)) :
    RuleOk fabric controller dpid flow := by
  cases h with
  | dropRule => exact .inl rfl
  | @pathRule call draws message dstMac hsrc hdst hmem =>
    obtain ⟨port, hport, hwhere⟩ := installPaths_inPort hmem
    refine .inr (.inr ⟨port, hport, ?_⟩)
    intro mac hmac
    have hsame : ∀ {other}, controller.hosts other = some (message.1, port) →
        Recorded controller mac := by
      intro other hother
      rw [fabric.attach_injective hmac (hhosts hother), Recorded, hother]
      exact Option.some_ne_none _
    rcases hwhere with hdaemon | hfirst | hlast | ⟨v, hlink⟩
    · exact absurd hdaemon (fabric.attach_not_daemon hmac).2
    · exact hsame (hfirst ▸ hsrc)
    · exact hsame (hlast ▸ hdst)
    · exact absurd (fabric.attach_not_link hmac) (hlinks hlink)

/-- Packet-outs carry frames of recorded hosts. -/
theorem recorded_of_sends {controller : ControllerState} {event : PacketInMsg} {dpid : Dpid}
    {inPort : Port} {outPort : OutPort} {packet : Packet}
    (h : Sends env controller.topo controller.hosts event
      (dpid, .packetOut inPort outPort packet)) : Recorded controller packet.ethSrc := by
  cases h with
  | flood hknown => exact hknown
  | toPort hsrc => exact fun hnone ↦ Option.some_ne_none _ (hsrc.symm.trans hnone)

/-- The handler keeps all recorded locations. -/
theorem packetInHandler_extends (env : Env) (controller : ControllerState) (event : PacketInMsg)
    (draws : List ℕ) : Extends controller (packetInHandler env controller event draws).1 := by
  obtain ⟨hhosts, -, -⟩ := packetInHandler_spec env controller event draws
  intro mac location hlocation
  rcases hhosts with hsame | ⟨hnew, hupdate⟩
  · rwa [hsame]
  · have hother : mac ≠ event.packet.ethSrc := by
      rintro rfl
      exact Option.some_ne_none _ (hlocation.symm.trans hnew)
    rwa [hupdate, Function.update_of_ne hother]

/-- A location learned from a packet-in at home is the attachment of its sender. -/
theorem packetInHandler_hosts {controller : ControllerState} {event : PacketInMsg}
    (hhosts : ∀ {mac location}, controller.hosts mac = some location →
      fabric.attach mac = some location)
    (hhome : AtHome fabric controller event.dpid event.inPort event.packet) (draws : List ℕ)
    {mac : Mac} {location : Dpid × Port}
    (h : (packetInHandler env controller event draws).1.hosts mac = some location) :
    fabric.attach mac = some location := by
  obtain ⟨hlearned, -, -⟩ := packetInHandler_spec env controller event draws
  rcases hlearned with hsame | ⟨hnew, hupdate⟩
  · exact hhosts (hsame ▸ h)
  · rw [hupdate] at h
    by_cases hmac : mac = event.packet.ethSrc
    · subst hmac
      rw [Function.update_self] at h
      rw [← h]
      exact hhome.resolve_right (absurd hnew)
    · rw [Function.update_of_ne hmac] at h
      exact hhosts h

/-! ## Every step -/

/-- A host or a daemon puts a frame on its link. -/
theorem arrives_inv {state : NetState} (hinv : Inv fabric state) {dpid : Dpid} {port : Port}
    {packet : Packet} (hhome : AtHome fabric state.controller dpid port packet) :
    Inv fabric { state with frames := state.frames ++ [⟨dpid, port, packet⟩] } := by
  refine { hinv with frames := ?_ }
  intro frame hframe
  rcases List.mem_append.mp hframe with hold | hnew
  · exact hinv.frames frame hold
  · rw [List.mem_singleton.mp hnew]
    exact hhome

/-- A matching rule of an unrecorded host's frame can only drop it or hand it to the controller. -/
theorem switchForwards_inv {state : NetState} (hinv : Inv fabric state)
    {before after : List Arriving} {frame : Arriving} {rule : FlowMod}
    (hframes : state.frames = before ++ frame :: after)
    (hselected : Selected OFPMatch.accepts (state.tables frame.dpid) (frame.port, frame.packet)
      rule) :
    Inv fabric (rule.actions.foldl
      (fun state action ↦ state.perform fabric frame.dpid frame.port frame.packet action)
      { state with frames := before ++ after }) := by
  have hhome := hinv.frames frame (mem_of_queued hframes)
  have hrest : Inv fabric { state with frames := before ++ after } := by
    refine { hinv with frames := ?_ }
    intro other hother
    exact hinv.frames other (mem_of_removed hframes hother)
  rcases hinv.tables hselected.mem with hdrop | hmiss | ⟨port, hport, hhosts⟩
  · rw [hdrop]
    exact hrest
  · rw [hmiss]
    exact raise_inv hrest hhome
  · have harrival := OFPMatch.inPort_of_accepts hport hselected.accepted
    have hrecorded : Recorded state.controller frame.packet.ethSrc := by
      rcases hhome with hattached | hknown
      · exact hhosts _ (harrival ▸ hattached)
      · exact hknown
    exact performAll_inv hrest hrecorded _ _ _

theorem controllerHandles_inv {state : NetState} (hinv : Inv fabric state)
    {before after : List PacketInMsg} {event : PacketInMsg} (draws : List ℕ)
    (hevents : state.packetIns = before ++ event :: after) :
    Inv fabric { state with
      controller := (packetInHandler env state.controller event draws).1
      packetIns := before ++ after
      toSwitches := state.toSwitches ++ (packetInHandler env state.controller event draws).2 } := by
  have hhome := hinv.packetIns event (mem_of_queued hevents)
  have hextends := packetInHandler_extends env state.controller event draws
  obtain ⟨-, htopo, hsends⟩ := packetInHandler_spec env state.controller event draws
  have hhosts : ∀ {mac location},
      (packetInHandler env state.controller event draws).1.hosts mac = some location →
        fabric.attach mac = some location :=
    fun h ↦ packetInHandler_hosts hinv.hosts hhome draws h
  have hlinks : ∀ {u v port},
      (packetInHandler env state.controller event draws).1.topo.adjacency u v = some port →
        fabric.peer u port ≠ none := by
    intro u v port hport
    rw [htopo] at hport
    exact hinv.links hport
  rw [← htopo] at hsends
  refine ⟨hhosts, ?_, ?_, ?_, ?_, ?_, ?_, hlinks⟩
  · intro frame hframe
    exact (hinv.frames frame hframe).mono hextends
  · intro other hother
    exact (hinv.packetIns other (mem_of_removed hevents hother)).mono hextends
  · intro dpid inPort outPort packet hmem
    rcases List.mem_append.mp hmem with hold | hnew
    · exact (hinv.packetOuts hold).mono hextends
    · exact recorded_of_sends (hsends _ hnew)
  · intro dpid flow hmem
    rcases List.mem_append.mp hmem with hold | hnew
    · exact (hinv.flowMods hold).mono hextends
    · exact ruleOk_of_sends hhosts hlinks (hsends _ hnew)
  · intro dpid rule hrule
    exact (hinv.tables hrule).mono hextends
  · intro dpid packet hmem
    exact (hinv.daemons hmem).mono hextends

/-- A message leaves the queue of the switches. -/
theorem delivered_inv {state : NetState} (hinv : Inv fabric state)
    {before after : List (Dpid × SwitchMsg)} {message : Dpid × SwitchMsg}
    (hqueue : state.toSwitches = before ++ message :: after) :
    Inv fabric { state with toSwitches := before ++ after } := by
  refine { hinv with packetOuts := ?_, flowMods := ?_ }
  · intro dpid inPort outPort packet hmem
    exact hinv.packetOuts (mem_of_removed hqueue hmem)
  · intro dpid flow hmem
    exact hinv.flowMods (mem_of_removed hqueue hmem)

theorem flowModArrives_inv {state : NetState} (hinv : Inv fabric state)
    {before after : List (Dpid × SwitchMsg)} {dpid : Dpid} {flow : FlowMod}
    (hqueue : state.toSwitches = before ++ (dpid, .flowMod flow) :: after) :
    Inv fabric { state with
      tables := Function.update state.tables dpid (add (state.tables dpid) flow)
      toSwitches := before ++ after } := by
  refine { delivered_inv hinv hqueue with tables := ?_ }
  intro other rule hrule
  by_cases hsame : other = dpid
  · subst hsame
    simp only [Function.update_self] at hrule
    rcases mem_add.mp hrule with ⟨hold, -⟩ | rfl
    · exact hinv.tables hold
    · exact hinv.flowMods (mem_of_queued hqueue)
  · simp only [Function.update_of_ne hsame] at hrule
    exact hinv.tables hrule

/-- Links are only added where the fabric has one. -/
theorem handleEvent_links {topo : TopologyState}
    (hlinks : ∀ {u v port}, topo.adjacency u v = some port → fabric.peer u port ≠ none)
    {event : TopologyEvent} (hreal : RealEvent fabric event) {u v : Dpid} {port : Port}
    (h : (handleEvent topo event).adjacency u v = some port) : fabric.peer u port ≠ none := by
  cases event with
  | switchEnter switch =>
    simp only [handleEvent, switchEnterHandler] at h
    split at h
    · exact hlinks h
    · exact hlinks h
  | switchLeave switch =>
    simp only [handleEvent, switchLeaveHandler] at h
    split at h
    · by_cases hu : u = switch
      · simp only [hu, Function.update_self] at h
        cases h
      · simp only [Function.update_of_ne hu] at h
        exact hlinks h
    · exact hlinks h
  | linkAdd s1 s2 =>
    simp only [handleEvent, linkAddHandler, setAdjacency_adjacency] at h
    split at h
    · rename_i hend
      cases h
      rw [hend.1, hreal.2]
      exact Option.some_ne_none _
    · split at h
      · rename_i hend
        cases h
        rw [hend.1, hreal.1]
        exact Option.some_ne_none _
      · exact hlinks h
  | linkDelete s1 s2 =>
    simp only [handleEvent, linkDeleteHandler] at h
    split at h
    · exact hlinks h
    · simp only [setAdjacency_adjacency] at h
      split at h
      · cases h
      · split at h
        · cases h
        · exact hlinks h

/-- Every step keeps the invariant. -/
theorem step_inv {state state' : NetState} (hinv : Inv fabric state)
    (h : Step env fabric order handles state state') : Inv fabric state' := by
  cases h with
  | hostSends hattached howns =>
    apply arrives_inv hinv
    exact .inl (howns.1.symm ▸ hattached)
  | switchForwards hframes _ hselected => exact switchForwards_inv hinv hframes hselected
  | controllerHandles draws hevents => exact controllerHandles_inv hinv draws hevents
  | flowModArrives hqueue => exact flowModArrives_inv hinv hqueue
  | packetOutArrives hqueue =>
    have hrecorded := hinv.packetOuts (mem_of_queued hqueue)
    exact perform_inv (delivered_inv hinv hqueue) hrecorded _ _ _
  | daemonSends hreceived hsame =>
    apply arrives_inv hinv
    have hrecorded := hinv.daemons hreceived
    exact .inr (hsame.symm ▸ hrecorded)
  | switchFeatures dpid =>
    refine { hinv with packetOuts := ?_, flowMods := ?_ }
    · intro dpid' inPort outPort packet hmem
      exact hinv.packetOuts (by simpa using hmem)
    · intro dpid' flow hmem
      rcases List.mem_append.mp hmem with hold | hnew
      · exact hinv.flowMods hold
      · cases List.mem_singleton.mp hnew
        exact ruleOk_tableMiss fabric _ dpid
  | topologyChanges hreal => exact { hinv with links := handleEvent_links hinv.links hreal }
  | portDescription dpid port speed => exact { hinv with links := hinv.links }

theorem reachable_inv {state : NetState} (h : Reachable env fabric order handles state) :
    Inv fabric state := by
  induction h with
  | refl => exact inv_init fabric
  | tail _ hstep ih => exact step_inv ih hstep

/-- In every reachable state, whatever the order of delivery, a recorded location is the one where
the host is attached; it is no link port and not the daemon's port 2. -/
theorem host_locations_correct {state : NetState}
    (hreachable : Reachable env fabric order handles state) (mac : Mac) :
    (state.controller.hosts mac = none ∨
      state.controller.hosts mac = fabric.attach mac) ∧
    ∀ dpid port, state.controller.hosts mac = some (dpid, port) →
      fabric.peer dpid port = none ∧ port ≠ 2 := by
  have hinv := reachable_inv hreachable
  constructor
  · cases hmac : state.controller.hosts mac with
    | none => exact .inl rfl
    | some location => exact .inr (hinv.hosts hmac).symm
  · intro dpid port hmac
    have hattached := hinv.hosts hmac
    exact ⟨fabric.attach_not_link hattached, (fabric.attach_not_daemon hattached).2⟩

/-- After an ARP exchange both hosts are recorded, each at its own port. -/
theorem host_locations_correct_exchange :
    ∃ state, Reachable directPaths pairFabric .any (fun _ _ ↦ true) state ∧
      (state.controller.hosts 1).isSome = true ∧ (state.controller.hosts 2).isSome = true ∧
      state.controller.hosts 1 = some (1, 4) ∧ state.controller.hosts 2 = some (2, 4) := by
  obtain ⟨state, hreachable, hknown⟩ := exists_reachable
    (show (replay directPaths pairFabric .any (fun _ _ ↦ true) pairExchange).any
      (fun state ↦ (state.controller.hosts 1).isSome && (state.controller.hosts 2).isSome) = true
      by decide +kernel)
  obtain ⟨hfirst, hsecond⟩ := Bool.and_eq_true_iff.mp hknown
  have hlocation : ∀ mac, (state.controller.hosts mac).isSome = true →
      state.controller.hosts mac = pairFabric.attach mac := by
    intro mac hmac
    rcases (host_locations_correct hreachable mac).1 with hnone | hattached
    · rw [hnone] at hmac
      cases hmac
    · exact hattached
  exact ⟨state, hreachable, hfirst, hsecond, hlocation 1 hfirst, hlocation 2 hsecond⟩

end Wispr.Network.HostLocations
