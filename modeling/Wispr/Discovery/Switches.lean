import Wispr.Discovery.Ports

/-!
# The link discovery service

The application `Switches` of `ryu/topology/switches.py`, which runs beside the controller and tells
it of switches and links. It probes every port, learns a link from a probe that comes in elsewhere,
and forgets it when a port goes down, a switch leaves or the probes stay away. `LinkState` keeps a
dictionary of links and, redundantly, the peer of each source port.

A handler, or a round of `link_loop`, runs to its end or to an exception, and what it has done
before an exception stays done. Nothing runs in between, as is the case while the queues of the
observers, which hold 128 events, are not full. The model keeps the four kinds of events the
multipath controller observes and the probes that are sent. Host tracking, which only `EventHostAdd`
reports, and the order of iteration over a dictionary of links, which only orders events, are left
out.
-/

namespace Wispr.Discovery.Switches

open Controller.Paths Lldp LldpPacket Ports

/-- `LINK_TIMEOUT`, in milliseconds. -/
def linkTimeout : ℤ := 10000

def linkLldpDrop : ℕ := 5

def defaultTtl : ℕ := 120

/-- The fields of an `OFPPort` that are read. Port numbers have 32 bits. -/
structure OfpPort where
  portNo : ℕ
  hwAddr : Fin 6 → UInt8
  config : ℕ
  state : ℕ
  portNo_lt : portNo < 2 ^ 32

/-- `Port.is_reserved`: above `OFPP_MAX`. -/
def OfpPort.isReserved (port : OfpPort) : Bool := decide (0xffffff00 < port.portNo)

/-- `Port.is_down`: `OFPPS_LINK_DOWN` or `OFPPC_PORT_DOWN`. -/
def OfpPort.isDown (port : OfpPort) : Bool :=
  decide (0 < port.state &&& 1) || decide (0 < port.config &&& 1)

structure Link where
  src : LinkEnd
  dst : LinkEnd
  deriving DecidableEq, Repr

/-- `LinkState`: the dictionary of links with their times, and `_map`. -/
structure LinkState where
  times : List (Link × ℤ)
  map : LinkEnd → Option LinkEnd

def LinkState.links (state : LinkState) : List Link := state.times.map Prod.fst

/-- `self[link] = time`. -/
def LinkState.setTime (state : LinkState) (link : Link) (time : ℤ) : LinkState :=
  { state with times := (link, time) :: state.times.filter fun item ↦ item.1 ≠ link }

/-- `self.pop(link, None)`. -/
def LinkState.pop (state : LinkState) (link : Link) : LinkState :=
  { state with times := state.times.filter fun item ↦ item.1 ≠ link }

/-- `self._map[src] = dst`, and `del self._map[src]`. -/
def LinkState.setPeer (state : LinkState) (src : LinkEnd) (dst : Option LinkEnd) : LinkState :=
  { state with map := Function.update state.map src dst }

/-- The state of `Switches`. A datapath is known by its connection. -/
structure Service where
  dps : Dpid → Option ℕ
  portState : Dpid → Option (List OfpPort)
  ports : PortDataState
  links : LinkState

def Service.init : Service := ⟨fun _ ↦ none, fun _ ↦ none, [], ⟨[], fun _ ↦ none⟩⟩

/-- What a handler may raise: the `KeyError` of a dictionary, or what `lldp_parse` lets through. -/
inductive HandlerExc where
  | keyError
  | parse (exc : ParseExc)
  deriving DecidableEq, Repr

/-- What a handler leaves: the state, the events for the observers, and what it has raised. -/
structure Outcome where
  service : Service
  events : List TopologyEvent
  raised : Option HandlerExc

def Service.quiet (service : Service) : Outcome := ⟨service, [], none⟩

def Service.fails (service : Service) (exc : HandlerExc) : Outcome := ⟨service, [], some exc⟩

/-- A handler goes on after another part of it, unless that has raised. -/
def Outcome.andThen (first : Outcome) (next : Service → Outcome) : Outcome :=
  if first.raised.isSome then first
  else
    let second := next first.service
    ⟨second.service, first.events ++ second.events, second.raised⟩

def switchPorts (service : Service) (dpid : Dpid) : List OfpPort :=
  if (service.dps dpid).isSome then
    ((service.portState dpid).getD []).filter fun port ↦ !port.isReserved
  else []

def getPort (service : Service) (dpid : Dpid) (portNo : ℕ) : Option OfpPort :=
  (switchPorts service dpid).find? fun port ↦ port.portNo = portNo

/-- `PortState.add` and `PortState.modify`. -/
def setPort (ports : List OfpPort) (port : OfpPort) : List OfpPort :=
  if ports.any fun other ↦ other.portNo = port.portNo then
    ports.map fun other ↦ if other.portNo = port.portNo then port else other
  else ports ++ [port]

def portAdded (service : Service) (dpid : Dpid) (port : OfpPort) : Service :=
  { service with
    ports := service.ports.addPort ⟨dpid, port.portNo⟩ port.isDown
      (lldpPacket dpid port.portNo port.hwAddr defaultTtl) }

/-- `_link_down`, with `port_deleted`. -/
def linkDown (service : Service) (port : LinkEnd) : Outcome :=
  match service.links.map port with
  | none => service.quiet
  | some dst =>
      if ⟨port, dst⟩ ∈ service.links.links then
        let links := (service.links.pop ⟨port, dst⟩).setPeer port none
        let links := links.pop ⟨dst, port⟩
        let revLinkDst := links.map dst
        let links := links.setPeer dst none
        ⟨{ service with links := links, ports := service.ports.moveFront dst },
          .linkDelete port dst :: (revLinkDst.map fun peer ↦ .linkDelete dst peer).toList, none⟩
      else service.quiet

def portGone (service : Service) (port : LinkEnd) : Outcome :=
  match service.ports.delPort port with
  | none => service.fails .keyError
  | some ports => linkDown { service with ports := ports } port

/-- The loop over the ports of a switch that has left. -/
def portsGone (dpid : Dpid) : List OfpPort → Service → Outcome
  | [], service => service.quiet
  | port :: rest, service =>
      (portGone service ⟨dpid, port.portNo⟩).andThen fun service ↦ portsGone dpid rest service

/-- `state_change_handler` in `MAIN_DISPATCHER`. -/
def connected (service : Service) (dpid : Dpid) (connection : ℕ) (ports : List OfpPort) : Outcome :=
  let multiple := (service.dps dpid).isSome
  let portState := match service.portState dpid with
    | none => Function.update service.portState dpid (some ports)
    | some _ => service.portState
  let service := { service with
    dps := Function.update service.dps dpid (some connection)
    portState := portState }
  if multiple then service.quiet
  else
    ⟨(switchPorts service dpid).foldl (fun service port ↦ portAdded service dpid port) service,
      [.switchEnter dpid], none⟩

/-- `state_change_handler` in `DEAD_DISPATCHER`. -/
def disconnected (service : Service) (dpid : Dpid) (connection : ℕ) : Outcome :=
  if service.dps dpid = some connection then
    let ports := switchPorts service dpid
    let service := { service with
      dps := Function.update service.dps dpid none
      portState := Function.update service.portState dpid none }
    Outcome.andThen ⟨service, [.switchLeave dpid], none⟩ (portsGone dpid ports)
  else service.quiet

inductive Reason where
  | add
  | delete
  | modify
  deriving DecidableEq, Repr

def portStatus (service : Service) (dpid : Dpid) (reason : Reason) (desc : OfpPort) : Outcome :=
  match reason with
  | .add =>
      match service.portState dpid with
      | none => service.fails .keyError
      | some ports =>
          let service := { service with
            portState := Function.update service.portState dpid (some (setPort ports desc)) }
          match getPort service dpid desc.portNo with
          | none => service.quiet
          | some port => (portAdded service dpid port).quiet
  | .delete =>
      let gone := match getPort service dpid desc.portNo with
        | none => service.quiet
        | some port => portGone service ⟨dpid, port.portNo⟩
      gone.andThen fun service ↦
        match service.portState dpid with
        | none => service.fails .keyError
        | some ports =>
            if ports.any fun port ↦ port.portNo = desc.portNo then
              Service.quiet { service with
                portState := Function.update service.portState dpid
                  (some (ports.filter fun port ↦ port.portNo ≠ desc.portNo)) }
            else service.fails .keyError
  | .modify =>
      match service.portState dpid with
      | none => service.fails .keyError
      | some ports =>
          let service := { service with
            portState := Function.update service.portState dpid (some (setPort ports desc)) }
          match getPort service dpid desc.portNo with
          | none => service.quiet
          | some port =>
              match service.ports.setDown ⟨dpid, port.portNo⟩ port.isDown with
              | none => service.fails .keyError
              | some known =>
                  let service := { service with ports := known }
                  if port.isDown then linkDown service ⟨dpid, port.portNo⟩ else service.quiet

/-- The part of `lldp_packet_in_handler` for a source port that had another peer. -/
def peerMoved (service : Service) (src dst : LinkEnd) : Outcome :=
  match service.links.map src with
  | none => service.quiet
  | some oldPeer =>
      if oldPeer = dst then service.quiet
      else if ⟨src, oldPeer⟩ ∈ service.links.links then
        ⟨{ service with links := service.links.pop ⟨src, oldPeer⟩ }, [.linkDelete src oldPeer],
          none⟩
      else service.fails .keyError

/-- The part of `lldp_packet_in_handler` that stores the link, with `update_link`. -/
def linkSeen (service : Service) (src dst : LinkEnd) (now : ℤ) : Outcome :=
  let link : Link := ⟨src, dst⟩
  let reverse : Link := ⟨dst, src⟩
  let links := (service.links.setTime link now).setPeer src (some dst)
  let ports := if reverse ∈ links.links then service.ports else service.ports.moveFront dst
  ⟨{ service with links := links, ports := ports },
    if link ∈ service.links.links then [] else [.linkAdd src dst], none⟩

/-- `lldp_packet_in_handler`. It catches no exception of `lldp_parse` but the unknown format. -/
def lldpPacketIn (service : Service) (dpid : Dpid) (inPort : ℕ) (data : Bytes) (other : ParseExc)
    (now : ℤ) : Outcome :=
  match lldpParse other data with
  | .error .unknownFormat => service.quiet
  | .error exc => service.fails (.parse exc)
  | .ok (srcDpid, srcPortNo) =>
      if srcDpid < 0 then service.quiet
      else
        match getPort service srcDpid.toNat srcPortNo with
        | none => service.quiet
        | some src =>
            if srcDpid.toNat = dpid then service.quiet
            else
              let source : LinkEnd := ⟨srcDpid.toNat, src.portNo⟩
              let service := { service with ports := service.ports.lldpReceived source }
              match getPort service dpid inPort with
              | none => service.quiet
              | some dst =>
                  let target : LinkEnd := ⟨dpid, dst.portNo⟩
                  (peerMoved service source target).andThen fun service ↦
                    linkSeen service source target now

/-- `send_lldp_packet`: the state, and the frame that goes out of the port. -/
def sendLldpPacket (service : Service) (port : LinkEnd) (now : ℤ) :
    Service × List (LinkEnd × Bytes) :=
  match service.ports.lldpSent port now with
  | none => (service, [])
  | some (data, ports) =>
      let service := { service with ports := ports }
      if data.isDown || (service.dps port.dpid).isNone then (service, [])
      else (service, [(port, data.lldpData)])

/-- The links that one round of `link_loop` gives up: old, from a known port, and with more than
`LINK_LLDP_DROP` probes unanswered. -/
def expiredLinks (service : Service) (now : ℤ) : List Link :=
  (service.links.times.filter fun item ↦ item.2 + linkTimeout < now &&
    (service.ports.get? item.1.src).any fun data ↦ linkLldpDrop < data.sent).map Prod.fst

/-- The body of the second loop of `link_loop`, with `link_down`. -/
def expireLink (deleted : List Link) (now : ℤ) (service : Service) (link : Link) : Outcome :=
  let popped := { service with links := service.links.pop link }
  if link ∉ service.links.links then service.fails .keyError
  else if (service.links.map link.src).isNone then popped.fails .keyError
  else
    let links := popped.links.setPeer link.src none
    let reverse : Link := ⟨link.dst, link.src⟩
    let service :=
      if reverse ∈ deleted then { service with links := links }
      else
        { service with
          links :=
            if reverse ∈ links.links then links.setTime reverse (now - linkTimeout) else links
          ports := service.ports.moveFront link.dst }
    ⟨service, [.linkDelete link.src link.dst], none⟩

/-- The second loop of `link_loop`. -/
def expireLinks (deleted : List Link) (now : ℤ) : List Link → Service → Outcome
  | [], service => service.quiet
  | link :: rest, service =>
      (expireLink deleted now service link).andThen (expireLinks deleted now rest)

/-- One round of `link_loop`. -/
def linkLoop (service : Service) (now : ℤ) : Outcome :=
  let deleted := expiredLinks service now
  expireLinks deleted now deleted service

/-- What can happen to the service. The exception that comes with a frame is the one `lldp_parse`
raises if the frame is of another protocol than LLDP. -/
inductive Input where
  | connected (dpid : Dpid) (connection : ℕ) (ports : List OfpPort)
  | disconnected (dpid : Dpid) (connection : ℕ)
  | portStatus (dpid : Dpid) (reason : Reason) (desc : OfpPort)
  | packetIn (dpid : Dpid) (inPort : ℕ) (data : Bytes) (other : ParseExc) (now : ℤ)
  | sendLldpPacket (port : LinkEnd) (now : ℤ)
  | linkLoop (now : ℤ)

def step (service : Service) : Input → Outcome
  | .connected dpid connection ports => connected service dpid connection ports
  | .disconnected dpid connection => disconnected service dpid connection
  | .portStatus dpid reason desc => portStatus service dpid reason desc
  | .packetIn dpid inPort data other now => lldpPacketIn service dpid inPort data other now
  | .sendLldpPacket port now => (sendLldpPacket service port now).1.quiet
  | .linkLoop now => linkLoop service now

def probesOf (service : Service) : Input → List (LinkEnd × Bytes)
  | .sendLldpPacket port now => (sendLldpPacket service port now).2
  | _ => []

/-- The state after some inputs, with all events and probes so far. -/
structure History where
  service : Service
  events : List TopologyEvent
  probes : List (LinkEnd × Bytes)

def History.init : History := ⟨.init, [], []⟩

def History.next (history : History) (input : Input) : History :=
  let outcome := step history.service input
  ⟨outcome.service, history.events ++ outcome.events,
    history.probes ++ probesOf history.service input⟩

def history (inputs : List Input) : History := inputs.foldl History.next .init

end Wispr.Discovery.Switches
