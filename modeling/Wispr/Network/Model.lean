import Mathlib.Logic.Relation
import Wispr.Controller.PacketIn

/-!
# The network as a transition system

Hosts, switches with flow tables, daemons and the controller, with the frames, packet-ins,
packet-outs and flow-mods in flight between them. Each step lets one party act: a host sends a
frame, a switch forwards one by a rule of highest priority, the controller handles a packet-in, a
switch carries out a message, a daemon emits a frame, or the controller hears of a change of the
topology.

What may overtake what is a parameter: messages are delivered in any order, or first in first out
per switch. So is the set of packet-ins the controller handles, which is how a condition on runs is
stated.
-/

open Wispr.Foundation.FlowTable

namespace Wispr.Network.Model

open Controller.Paths Controller.Install Controller.PacketIn

/-- The fixed part of the network: links, host positions and addresses, switches with a daemon.
Hosts sit on ports of their own, apart from links and from the daemon's ports 1 and 2. -/
structure Fabric where
  peer : Dpid → Port → Option (Dpid × Port)
  ports : Dpid → List Port
  attach : Mac → Option (Dpid × Port)
  ipOf : Mac → Ip
  daemonAt : Dpid → Bool
  attach_injective : ∀ {mac mac' location}, attach mac = some location →
    attach mac' = some location → mac = mac'
  attach_not_link : ∀ {mac dpid port}, attach mac = some (dpid, port) → peer dpid port = none
  attach_not_daemon : ∀ {mac dpid port}, attach mac = some (dpid, port) → port ≠ 1 ∧ port ≠ 2

/-- A frame about to enter a switch. -/
structure Arriving where
  dpid : Dpid
  port : Port
  packet : Packet
  deriving DecidableEq

structure NetState where
  controller : ControllerState
  tables : Dpid → List FlowMod
  frames : List Arriving
  packetIns : List PacketInMsg
  toSwitches : List (Dpid × SwitchMsg)
  daemons : List (Dpid × Packet)

/-- Switches hold the table-miss rule; nothing is in flight. -/
def NetState.init : NetState where
  controller := .init
  tables _ := [tableMiss]
  frames := []
  packetIns := []
  toSwitches := []
  daemons := []

/-- The physical ports an output action leads to; a frame never leaves on the port it came in. -/
def egressPorts (fabric : Fabric) (dpid : Dpid) (inPort : Port) : OutPort → List Port
  | .port number => if number = inPort then [] else [number]
  | .flood => (fabric.ports dpid).filter fun port ↦ port ≠ inPort
  | .controller => []

/-- A frame leaves a switch: over a link, to the daemon, or to a host. -/
def NetState.transmit (state : NetState) (fabric : Fabric) (dpid : Dpid) (packet : Packet)
    (port : Port) : NetState :=
  match fabric.peer dpid port with
  | some (next, nextPort) => { state with frames := state.frames ++ [⟨next, nextPort, packet⟩] }
  | none =>
      if fabric.daemonAt dpid ∧ (port = 1 ∨ port = 2) then
        { state with daemons := state.daemons ++ [(dpid, packet)] }
      else state

/-- One output action. -/
def NetState.perform (state : NetState) (fabric : Fabric) (dpid : Dpid) (inPort : Port)
    (packet : Packet) (action : OutPort) : NetState :=
  match action with
  | .controller => { state with packetIns := state.packetIns ++ [⟨dpid, inPort, packet⟩] }
  | action => (egressPorts fabric dpid inPort action).foldl
      (fun state port ↦ state.transmit fabric dpid packet port) state

/-- Frames on the move leave the controller and its messages alone. -/
@[simp] theorem transmit_controller (state : NetState) (fabric : Fabric) (dpid : Dpid)
    (packet : Packet) (port : Port) :
    (state.transmit fabric dpid packet port).controller = state.controller := by
  unfold NetState.transmit
  split
  · rfl
  · split
    · rfl
    · rfl

@[simp] theorem transmit_toSwitches (state : NetState) (fabric : Fabric) (dpid : Dpid)
    (packet : Packet) (port : Port) :
    (state.transmit fabric dpid packet port).toSwitches = state.toSwitches := by
  unfold NetState.transmit
  split
  · rfl
  · split
    · rfl
    · rfl

/-- A view that no step of a loop changes is the same after the loop. -/
theorem foldl_keeps {α β γ : Type} (view : α → γ) {step : α → β → α}
    (hstep : ∀ state item, view (step state item) = view state) (items : List β) (state : α) :
    view (items.foldl step state) = view state := by
  induction items generalizing state with
  | nil => rfl
  | cons item rest ih => rw [List.foldl_cons, ih, hstep]

@[simp] theorem perform_controller (state : NetState) (fabric : Fabric) (dpid : Dpid)
    (inPort : Port) (packet : Packet) (action : OutPort) :
    (state.perform fabric dpid inPort packet action).controller = state.controller := by
  cases action with
  | port number => exact foldl_keeps NetState.controller (by simp) _ state
  | flood => exact foldl_keeps NetState.controller (by simp) _ state
  | controller => rfl

@[simp] theorem perform_toSwitches (state : NetState) (fabric : Fabric) (dpid : Dpid)
    (inPort : Port) (packet : Packet) (action : OutPort) :
    (state.perform fabric dpid inPort packet action).toSwitches = state.toSwitches := by
  cases action with
  | port number => exact foldl_keeps NetState.toSwitches (by simp) _ state
  | flood => exact foldl_keeps NetState.toSwitches (by simp) _ state
  | controller => rfl

/-- What may be delivered when. -/
inductive Order where
  | any
  | perSwitchFifo

/-- An item may be delivered before those in front of it. -/
def Order.Allows {α κ : Type} (order : Order) (channel : α → κ) (before : List α) (item : α) :
    Prop :=
  match order with
  | .any => True
  | .perSwitchFifo => ∀ earlier ∈ before, channel earlier ≠ channel item

/-- Frames of a host carry its own address and IP address. -/
def CarriesOwn (fabric : Fabric) (mac : Mac) (packet : Packet) : Prop :=
  packet.ethSrc = mac ∧ (∀ arp, packet.arp = some arp → arp.srcIp = fabric.ipOf mac) ∧
    ∀ header, packet.ipv4 = some header → header.src = fabric.ipOf mac

/-- Reported links exist. -/
def RealEvent (fabric : Fabric) : TopologyEvent → Prop
  | .linkAdd s1 s2 => fabric.peer s1.dpid s1.portNo = some (s2.dpid, s2.portNo) ∧
      fabric.peer s2.dpid s2.portNo = some (s1.dpid, s1.portNo)
  | _ => True

def NetState.withTopo (state : NetState) (topo : TopologyState) : NetState :=
  { state with controller := { state.controller with topo := topo } }

inductive Step (env : Env) (fabric : Fabric) (order : Order)
    (handles : ControllerState → PacketInMsg → Bool) : NetState → NetState → Prop
  | hostSends {state : NetState} {mac : Mac} {dpid : Dpid} {port : Port} {packet : Packet} :
      fabric.attach mac = some (dpid, port) → CarriesOwn fabric mac packet →
      Step env fabric order handles state
        { state with frames := state.frames ++ [⟨dpid, port, packet⟩] }
  | switchForwards {state : NetState} {before after : List Arriving} {frame : Arriving}
      {rule : FlowMod} : state.frames = before ++ frame :: after →
      order.Allows (fun item : Arriving ↦ (item.dpid, item.port)) before frame →
      Selected OFPMatch.accepts (state.tables frame.dpid) (frame.port, frame.packet) rule →
      Step env fabric order handles state
        (rule.actions.foldl
          (fun state action ↦ state.perform fabric frame.dpid frame.port frame.packet action)
          { state with frames := before ++ after })
  | controllerHandles {state : NetState} {before after : List PacketInMsg} {event : PacketInMsg}
      (draws : List ℕ) : state.packetIns = before ++ event :: after →
      order.Allows PacketInMsg.dpid before event → handles state.controller event = true →
      Step env fabric order handles state
        { state with
          controller := (packetInHandler env state.controller event draws).1
          packetIns := before ++ after
          toSwitches := state.toSwitches ++ (packetInHandler env state.controller event draws).2 }
  | flowModArrives {state : NetState} {before after : List (Dpid × SwitchMsg)} {dpid : Dpid}
      {flow : FlowMod} : state.toSwitches = before ++ (dpid, .flowMod flow) :: after →
      order.Allows Prod.fst before (dpid, SwitchMsg.flowMod flow) →
      Step env fabric order handles state
        { state with
          tables := Function.update state.tables dpid (add (state.tables dpid) flow)
          toSwitches := before ++ after }
  | packetOutArrives {state : NetState} {before after : List (Dpid × SwitchMsg)} {dpid : Dpid}
      {inPort : Port} {outPort : OutPort} {packet : Packet} :
      state.toSwitches = before ++ (dpid, .packetOut inPort outPort packet) :: after →
      order.Allows Prod.fst before (dpid, SwitchMsg.packetOut inPort outPort packet) →
      Step env fabric order handles state
        (({ state with toSwitches := before ++ after } : NetState).perform fabric dpid inPort packet
          outPort)
  | daemonSends {state : NetState} {dpid : Dpid} {received packet : Packet} :
      (dpid, received) ∈ state.daemons → packet.ethSrc = received.ethSrc →
      Step env fabric order handles state
        { state with frames := state.frames ++ [⟨dpid, 2, packet⟩] }
  | switchFeatures {state : NetState} (dpid : Dpid) :
      Step env fabric order handles state
        { state with toSwitches := state.toSwitches ++ [(dpid, .flowMod tableMiss)] }
  | topologyChanges {state : NetState} {event : TopologyEvent} : RealEvent fabric event →
      Step env fabric order handles state (state.withTopo (handleEvent state.controller.topo event))
  | portDescription {state : NetState} (dpid : Dpid) (port : Port) (speed : ℕ) :
      Step env fabric order handles state
        (state.withTopo (portDescStatsReplyHandler state.controller.topo dpid port speed))

/-- Taking one item out of a queue leaves only items that were in it. -/
theorem mem_of_removed {α : Type} {queue before after : List α} {item other : α}
    (hqueue : queue = before ++ item :: after) (hother : other ∈ before ++ after) :
    other ∈ queue := by
  rw [hqueue]
  exact ((List.sublist_cons_self item after).append_left before).subset hother

theorem mem_of_queued {α : Type} {queue before after : List α} {item : α}
    (hqueue : queue = before ++ item :: after) : item ∈ queue := by
  simp [hqueue]

/-- The states of all runs. -/
def Reachable (env : Env) (fabric : Fabric) (order : Order)
    (handles : ControllerState → PacketInMsg → Bool) (state : NetState) : Prop :=
  Relation.ReflTransGen (Step env fabric order handles) .init state

end Wispr.Network.Model
