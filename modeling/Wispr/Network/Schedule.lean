import Wispr.Network.Model

/-!
# Runs chosen by a schedule

A schedule names who acts next and on which item in flight. Replaying it is a computation that
fails when a move is not allowed, so a concrete run of the network is obtained by evaluation; every
state it ends in is reachable.
-/

open Wispr.Foundation.FlowTable

namespace Wispr.Network.Schedule

open Controller.Paths Controller.Install Controller.PacketIn Model

/-- The next step; items in flight are named by their position in the queue. -/
inductive Move where
  | hostSends (mac : Mac) (packet : Packet)
  | switchForwards (position : ℕ) (rule : FlowMod)
  | controllerHandles (position : ℕ) (draws : List ℕ)
  | messageArrives (position : ℕ)
  | daemonSends (received : Dpid × Packet) (packet : Packet)
  | switchFeatures (dpid : Dpid)
  | topologyChanges (event : TopologyEvent)
  | portDescription (dpid : Dpid) (port : Port) (speed : ℕ)

instance {α κ : Type} [DecidableEq κ] (order : Order) (channel : α → κ) (before : List α)
    (item : α) : Decidable (order.Allows channel before item) :=
  match order with
  | .any => isTrue trivial
  | .perSwitchFifo => inferInstanceAs (Decidable (∀ earlier ∈ before, _))

instance (fabric : Fabric) (mac : Mac) (packet : Packet) :
    Decidable (CarriesOwn fabric mac packet) :=
  decidable_of_iff (packet.ethSrc = mac ∧ (∀ arp ∈ packet.arp, arp.srcIp = fabric.ipOf mac) ∧
    ∀ header ∈ packet.ipv4, header.src = fabric.ipOf mac) Iff.rfl

instance (fabric : Fabric) (event : TopologyEvent) : Decidable (RealEvent fabric event) :=
  match event with
  | .switchEnter _ => isTrue trivial
  | .switchLeave _ => isTrue trivial
  | .linkAdd _ _ => inferInstanceAs (Decidable (_ ∧ _))
  | .linkDelete _ _ => isTrue trivial

instance (table : List FlowMod) (header : Port × Packet) (rule : FlowMod) :
    Decidable (Selected OFPMatch.accepts table header rule) :=
  decidable_of_iff (rule ∈ table ∧ rule.condition.accepts header = true ∧
      ∀ other ∈ table, other.condition.accepts header = true → other.priority ≤ rule.priority)
    ⟨fun h ↦ ⟨h.1, h.2.1, h.2.2⟩, fun h ↦ ⟨h.mem, h.accepted, h.highest⟩⟩

/-- Takes the item at a position out of a queue, if the order lets it go first. -/
def pick {α κ : Type} [DecidableEq κ] (order : Order) (channel : α → κ) (queue : List α)
    (position : ℕ) : Option (α × List α) :=
  match queue[position]? with
  | none => none
  | some item =>
      if order.Allows channel (queue.take position) item then
        some (item, queue.take position ++ queue.drop (position + 1))
      else none

theorem pick_some {α κ : Type} [DecidableEq κ] {order : Order} {channel : α → κ}
    {queue rest : List α} {position : ℕ} {item : α}
    (h : pick order channel queue position = some (item, rest)) :
    ∃ before after, queue = before ++ item :: after ∧ order.Allows channel before item ∧
      rest = before ++ after := by
  unfold pick at h
  split at h
  · cases h
  · rename_i found hfound
    split at h
    · rename_i hallowed
      cases h
      obtain ⟨hposition, rfl⟩ := List.getElem?_eq_some_iff.mp hfound
      refine ⟨queue.take position, queue.drop (position + 1), ?_, hallowed, rfl⟩
      rw [List.cons_getElem_drop_succ, List.take_append_drop]
    · cases h

/-- One move, or nothing if it is not allowed. -/
def act (env : Env) (fabric : Fabric) (order : Order)
    (handles : ControllerState → PacketInMsg → Bool) (state : NetState) : Move → Option NetState
  | .hostSends mac packet =>
      match fabric.attach mac with
      | none => none
      | some (dpid, port) =>
          if CarriesOwn fabric mac packet then
            some { state with frames := state.frames ++ [⟨dpid, port, packet⟩] }
          else none
  | .switchForwards position rule =>
      match pick order (fun item ↦ (item.dpid, item.port)) state.frames position with
      | none => none
      | some (frame, rest) =>
          if Selected OFPMatch.accepts (state.tables frame.dpid) (frame.port, frame.packet)
              rule then
            some (rule.actions.foldl
              (fun state action ↦ state.perform fabric frame.dpid frame.port frame.packet action)
              { state with frames := rest })
          else none
  | .controllerHandles position draws =>
      match pick order PacketInMsg.dpid state.packetIns position with
      | none => none
      | some (event, rest) =>
          if handles state.controller event then
            some { state with
              controller := (packetInHandler env state.controller event draws).1
              packetIns := rest
              toSwitches :=
                state.toSwitches ++ (packetInHandler env state.controller event draws).2 }
          else none
  | .messageArrives position =>
      match pick order Prod.fst state.toSwitches position with
      | none => none
      | some ((dpid, .flowMod flow), rest) =>
          some { state with
            tables := Function.update state.tables dpid (add (state.tables dpid) flow)
            toSwitches := rest }
      | some ((dpid, .packetOut inPort outPort packet), rest) =>
          some (({ state with toSwitches := rest } : NetState).perform fabric dpid inPort packet
            outPort)
  | .daemonSends received packet =>
      if received ∈ state.daemons ∧ packet.ethSrc = received.2.ethSrc then
        some { state with frames := state.frames ++ [⟨received.1, 2, packet⟩] }
      else none
  | .switchFeatures dpid =>
      some { state with toSwitches := state.toSwitches ++ [(dpid, .flowMod tableMiss)] }
  | .topologyChanges event =>
      if RealEvent fabric event then
        some (state.withTopo (handleEvent state.controller.topo event))
      else none
  | .portDescription dpid port speed =>
      some (state.withTopo (portDescStatsReplyHandler state.controller.topo dpid port speed))

variable {env : Env} {fabric : Fabric} {order : Order}
  {handles : ControllerState → PacketInMsg → Bool}

theorem act_sound {state state' : NetState} {move : Move}
    (h : act env fabric order handles state move = some state') :
    Step env fabric order handles state state' := by
  cases move with
  | hostSends mac packet =>
    simp only [act] at h
    split at h
    · cases h
    · rename_i dpid port hattached
      split at h
      · rename_i howns
        cases h
        exact .hostSends hattached howns
      · cases h
  | switchForwards position rule =>
    simp only [act] at h
    split at h
    · cases h
    · rename_i frame rest hpick
      obtain ⟨before, after, hqueue, hallowed, rfl⟩ := pick_some hpick
      split at h
      · rename_i hselected
        cases h
        exact .switchForwards hqueue hallowed hselected
      · cases h
  | controllerHandles position draws =>
    simp only [act] at h
    split at h
    · cases h
    · rename_i event rest hpick
      obtain ⟨before, after, hqueue, hallowed, rfl⟩ := pick_some hpick
      split at h
      · rename_i hhandles
        cases h
        exact .controllerHandles draws hqueue hallowed hhandles
      · cases h
  | messageArrives position =>
    simp only [act] at h
    split at h
    · cases h
    · rename_i dpid flow rest hpick
      obtain ⟨before, after, hqueue, hallowed, rfl⟩ := pick_some hpick
      cases h
      exact .flowModArrives hqueue hallowed
    · rename_i dpid inPort outPort packet rest hpick
      obtain ⟨before, after, hqueue, hallowed, rfl⟩ := pick_some hpick
      cases h
      exact .packetOutArrives hqueue hallowed
  | daemonSends received packet =>
    simp only [act] at h
    split at h
    · rename_i hreceived
      cases h
      exact .daemonSends hreceived.1 hreceived.2
    · cases h
  | switchFeatures dpid =>
    cases h
    exact .switchFeatures dpid
  | topologyChanges event =>
    simp only [act] at h
    split at h
    · rename_i hreal
      cases h
      exact .topologyChanges hreal
    · cases h
  | portDescription dpid port speed =>
    cases h
    exact .portDescription dpid port speed

/-- Replays a schedule. -/
def replay (env : Env) (fabric : Fabric) (order : Order)
    (handles : ControllerState → PacketInMsg → Bool) (moves : List Move) : Option NetState :=
  moves.foldlM (act env fabric order handles) .init

theorem replay_reachable {moves : List Move} {state : NetState}
    (h : replay env fabric order handles moves = some state) :
    Reachable env fabric order handles state := by
  have hrun : ∀ (moves : List Move) (start : NetState),
      Reachable env fabric order handles start →
      moves.foldlM (act env fabric order handles) start = some state →
      Reachable env fabric order handles state := by
    intro moves
    induction moves with
    | nil =>
      intro start hstart hend
      cases hend
      exact hstart
    | cons move rest ih =>
      intro start hstart hend
      rw [List.foldlM_cons, Option.bind_eq_bind, Option.bind_eq_some_iff] at hend
      obtain ⟨next, hnext, hrest⟩ := hend
      exact ih next (hstart.tail (act_sound hnext)) hrest
  exact hrun moves .init .refl h

/-- A property of the state a schedule ends in holds of a reachable state. -/
theorem exists_reachable {moves : List Move} {property : NetState → Bool}
    (h : (replay env fabric order handles moves).any property = true) :
    ∃ state, Reachable env fabric order handles state ∧ property state = true := by
  cases hreplay : replay env fabric order handles moves with
  | none => simp [hreplay] at h
  | some state =>
    rw [hreplay] at h
    exact ⟨state, replay_reachable hreplay, h⟩

/-- Two switches linked on their ports 3; host 1 at the first one, hosts 2 and 3 at the other. -/
def pairFabric : Fabric where
  peer dpid port :=
    if (dpid, port) = (1, 3) then some (2, 3)
    else if (dpid, port) = (2, 3) then some (1, 3)
    else none
  ports dpid := if dpid = 1 then [1, 2, 3, 4] else [1, 2, 3, 4, 5]
  attach mac :=
    if mac = 1 then some (1, 4)
    else if mac = 2 then some (2, 4)
    else if mac = 3 then some (2, 5)
    else none
  ipOf mac := mac.setWidth 32
  daemonAt _ := true
  attach_injective := by
    intro mac mac' location hmac hmac'
    grind
  attach_not_link := by
    intro mac dpid port hmac
    grind
  attach_not_daemon := by
    intro mac dpid port hmac
    grind

/-- Host `src` asks for the address of host `dst`. -/
def request (src dst : ℕ) : Packet where
  ethSrc := .ofNat 48 src
  ethDst := 0xffffffffffff
  ethertype := 0x0806
  ethType := 0x0806
  vlanVid := none
  arp := some ⟨1, .ofNat 32 src, .ofNat 32 dst⟩
  ipv4 := none
  ipv6 := false

/-- Host `src` answers host `dst`. -/
def reply (src dst : ℕ) : Packet :=
  { request src dst with
    ethDst := .ofNat 48 dst
    arp := some ⟨2, .ofNat 32 src, .ofNat 32 dst⟩ }

/-- A frame of a host reaches its switch, which hands it to the controller. -/
def raises (mac : Mac) (packet : Packet) (position : ℕ) : List Move :=
  [.hostSends mac packet, .switchForwards position tableMiss]

/-- Both switches enter and their link is reported. -/
def pairStarts : List Move :=
  [.topologyChanges (.switchEnter 1), .topologyChanges (.switchEnter 2),
    .topologyChanges (.linkAdd ⟨1, 3⟩ ⟨2, 3⟩)]

/-- Host 1 asks for host 2, the request is flooded, host 2 answers, and the answer installs
paths. -/
def pairExchange : List Move :=
  pairStarts ++ raises 1 (request 1 2) 0 ++ [.controllerHandles 0 [], .messageArrives 0] ++
    raises 2 (reply 2 1) 1 ++ [.controllerHandles 0 [0]]

end Wispr.Network.Schedule
