import Wispr.Controller.Install

/-!
# The packet-in handler

`_packet_in_handler` of `ryu_multipath.py`, with the learning of host locations, the ARP table and
the record of pairs that already have paths. One call updates the controller and sends flow-mods
and at most one packet-out, which goes back to the switch that raised the packet-in. An exception
inside the handler is caught by the event loop: what was stored and sent before it stays.
-/

open Wispr.Foundation.Effects Wispr.Foundation.FlowTable

namespace Wispr.Controller.PacketIn

open Paths Install

/-- The controller's state; `timeDict` maps an address to the peers it has paths to. -/
structure ControllerState where
  topo : TopologyState
  hosts : Mac → Option (Dpid × Port)
  arpTable : Ip → Option Mac
  timeDict : Ip → Option (Ip → Option Port)

def ControllerState.init : ControllerState where
  topo := .init
  hosts _ := none
  arpTable _ := none
  timeDict _ := none

/-- A packet-in message. -/
structure PacketInMsg where
  dpid : Dpid
  inPort : Port
  packet : Packet
  deriving DecidableEq, Repr

/-- Messages from the controller to a switch. -/
inductive SwitchMsg where
  | flowMod (flow : FlowMod)
  | packetOut (inPort : Port) (outPort : OutPort) (packet : Packet)
  deriving DecidableEq, Repr

def ethTypeLldp : ℕ := 35020

/-- 00:50:56:fe:c0:ed and 00:0c:29:af:d3:52. -/
def ignoredPair (src dst : Mac) : Bool :=
  decide ((src = 0x005056fec0ed ∧ dst = 0x000c29afd352) ∨
    (src = 0x000c29afd352 ∧ dst = 0x005056fec0ed))

/-- `if src not in self.hosts: self.hosts[src] = (dpid, in_port)`. -/
def ControllerState.learn (controller : ControllerState) (src : Mac) (location : Dpid × Port) :
    ControllerState :=
  match controller.hosts src with
  | some _ => controller
  | none => { controller with hosts := Function.update controller.hosts src (some location) }

def ControllerState.setArp (controller : ControllerState) (ip : Ip) (mac : Mac) : ControllerState :=
  { controller with arpTable := Function.update controller.arpTable ip (some mac) }

/-- `ip in self.timeDict and other in self.timeDict[ip]`. -/
def ControllerState.timed (controller : ControllerState) (ip other : Ip) : Bool :=
  ((controller.timeDict ip).bind fun peers ↦ peers other).isSome

/-- The four assignments after an install; each address forgets its other peers. -/
def ControllerState.recordPair (controller : ControllerState) (srcIp dstIp : Ip) (outPort : Port) :
    ControllerState :=
  let timeDict := Function.update controller.timeDict srcIp
    (some (Function.update (fun _ ↦ none) dstIp (some outPort)))
  let timeDict := Function.update timeDict dstIp
    (some (Function.update (fun _ ↦ none) srcIp (some outPort)))
  { controller with timeDict := timeDict }

/-- The packet-out for an ARP packet. -/
def packetOut (event : PacketInMsg) (outPort : OutPort) : Dpid × SwitchMsg :=
  (event.dpid, .packetOut event.inPort outPort event.packet)

/-- `install_paths` between two known hosts, the record of the pair and the packet-out. -/
def installAndSend (env : Env) (controller : ControllerState) (event : PacketInMsg)
    (arp : ArpHeader) (dstMac : Mac) (draws : List ℕ) : ControllerState × List (Dpid × SwitchMsg) :=
  match controller.hosts event.packet.ethSrc, controller.hosts dstMac with
  | some h1, some h2 =>
      let call : InstallCall := ⟨h1.1, h1.2, h2.1, h2.2, arp.srcIp, arp.dstIp,
        event.packet.ethSrc, dstMac⟩
      let outcome := installPaths env controller.topo call draws
      let sent := outcome.log.map fun message ↦ (message.1, SwitchMsg.flowMod message.2)
      match outcome.result with
      | .error _ => (controller, sent)
      | .ok outPort =>
          (controller.recordPair arp.srcIp arp.dstIp outPort,
            sent ++ [packetOut event (.port outPort)])
  | _, _ => (controller, [])

/-- The ARP part of the handler, after the location of the sender has been learned. -/
def handleArp (env : Env) (controller : ControllerState) (event : PacketInMsg) (arp : ArpHeader)
    (draws : List ℕ) : ControllerState × List (Dpid × SwitchMsg) :=
  if controller.timed arp.dstIp arp.srcIp || controller.timed arp.srcIp arp.dstIp then
    (controller, [])
  else if arp.opcode = 2 then
    let controller := controller.setArp arp.srcIp event.packet.ethSrc
    installAndSend env controller event arp event.packet.ethDst draws
  else if arp.opcode = 1 ∧ (controller.arpTable arp.dstIp).isSome then
    let controller := controller.setArp arp.srcIp event.packet.ethSrc
    match controller.arpTable arp.dstIp with
    | some dstMac => installAndSend env controller event arp dstMac draws
    | none => (controller, [])
  else (controller, [packetOut event .flood])

/-- `_packet_in_handler`. -/
def packetInHandler (env : Env) (controller : ControllerState) (event : PacketInMsg)
    (draws : List ℕ) : ControllerState × List (Dpid × SwitchMsg) :=
  let packet := event.packet
  if packet.ethertype = ethTypeLldp then (controller, [])
  else if packet.ipv6 then
    (controller, [(event.dpid, .flowMod ⟨1, { ethType := some packet.ethertype }, []⟩)])
  else if ignoredPair packet.ethSrc packet.ethDst then
    (controller,
      [(event.dpid,
        .flowMod ⟨1, { ethDst := some packet.ethDst, ethSrc := some packet.ethSrc }, []⟩)])
  else
    let controller := controller.learn packet.ethSrc (event.dpid, event.inPort)
    match packet.arp with
    | none => (controller, [])
    | some arp => handleArp env controller event arp draws

/-! ## What one call can do -/

theorem learn_keeps (controller : ControllerState) (src : Mac) (location : Dpid × Port) :
    (controller.learn src location).topo = controller.topo ∧
      (controller.learn src location).arpTable = controller.arpTable ∧
      (controller.learn src location).timeDict = controller.timeDict := by
  cases hsrc : controller.hosts src with
  | some known => simp [ControllerState.learn, hsrc]
  | none => simp [ControllerState.learn, hsrc]

theorem learn_hosts (controller : ControllerState) (src : Mac) (location : Dpid × Port) :
    (controller.learn src location).hosts = controller.hosts ∨
      (controller.hosts src = none ∧ (controller.learn src location).hosts =
        Function.update controller.hosts src (some location)) := by
  cases hsrc : controller.hosts src with
  | some known => simp [ControllerState.learn, hsrc]
  | none => simp [ControllerState.learn, hsrc]

theorem learn_known (controller : ControllerState) (src : Mac) (location : Dpid × Port) :
    (controller.learn src location).hosts src ≠ none := by
  cases hsrc : controller.hosts src with
  | some known => simp [ControllerState.learn, hsrc]
  | none => simp [ControllerState.learn, hsrc]

/-- A message of the handler, given the locations known after learning. -/
inductive Sends (env : Env) (topo : TopologyState) (hosts : Mac → Option (Dpid × Port))
    (event : PacketInMsg) : Dpid × SwitchMsg → Prop
  | dropRule {condition : OFPMatch} :
      Sends env topo hosts event (event.dpid, .flowMod ⟨1, condition, []⟩)
  | pathRule {call : InstallCall} {draws : List ℕ} {message : Dpid × FlowMod} {dstMac : Mac} :
      hosts event.packet.ethSrc = some (call.src, call.firstPort) →
      hosts dstMac = some (call.dst, call.lastPort) →
      message ∈ (installPaths env topo call draws).log →
      Sends env topo hosts event (message.1, .flowMod message.2)
  | flood : hosts event.packet.ethSrc ≠ none → Sends env topo hosts event (packetOut event .flood)
  | toPort {call : InstallCall} {draws : List ℕ} {outPort : Port} :
      hosts event.packet.ethSrc = some (call.src, call.firstPort) →
      (installPaths env topo call draws).result = .ok outPort →
      Sends env topo hosts event (packetOut event (.port outPort))

theorem installAndSend_spec {env : Env} {controller : ControllerState} {event : PacketInMsg}
    {arp : ArpHeader} {dstMac : Mac} {draws : List ℕ} :
    (installAndSend env controller event arp dstMac draws).1.hosts = controller.hosts ∧
      (installAndSend env controller event arp dstMac draws).1.topo = controller.topo ∧
      ∀ message ∈ (installAndSend env controller event arp dstMac draws).2,
        Sends env controller.topo controller.hosts event message := by
  unfold installAndSend
  cases hsrc : controller.hosts event.packet.ethSrc with
  | none => simp
  | some h1 =>
    cases hdst : controller.hosts dstMac with
    | none => simp
    | some h2 =>
      simp only
      split
      · refine ⟨rfl, rfl, ?_⟩
        intro message hmessage
        obtain ⟨flow, hflow, rfl⟩ := List.mem_map.mp hmessage
        exact .pathRule hsrc hdst hflow
      · rename_i outPort hresult
        refine ⟨rfl, rfl, ?_⟩
        intro message hmessage
        rcases List.mem_append.mp hmessage with hpath | hout
        · obtain ⟨flow, hflow, rfl⟩ := List.mem_map.mp hpath
          exact .pathRule hsrc hdst hflow
        · rw [List.mem_singleton.mp hout]
          exact .toPort hsrc hresult

theorem handleArp_spec (env : Env) {controller : ControllerState} {event : PacketInMsg}
    (arp : ArpHeader) (draws : List ℕ) (hknown : controller.hosts event.packet.ethSrc ≠ none) :
    (handleArp env controller event arp draws).1.hosts = controller.hosts ∧
      (handleArp env controller event arp draws).1.topo = controller.topo ∧
      ∀ message ∈ (handleArp env controller event arp draws).2,
        Sends env controller.topo controller.hosts event message := by
  unfold handleArp
  split
  · simp
  split
  · exact installAndSend_spec
  split
  · simp only
    split
    · exact installAndSend_spec
    · exact ⟨rfl, rfl, by simp⟩
  · refine ⟨rfl, rfl, ?_⟩
    intro message hmessage
    rw [List.mem_singleton.mp hmessage]
    exact .flood hknown

/-- One call of the handler: it learns the location of an unknown sender or no location at all, and
sends nothing but drop rules, path rules between known hosts, and its packet-out. -/
theorem packetInHandler_spec (env : Env) (controller : ControllerState) (event : PacketInMsg)
    (draws : List ℕ) :
    ((packetInHandler env controller event draws).1.hosts = controller.hosts ∨
      (controller.hosts event.packet.ethSrc = none ∧
        (packetInHandler env controller event draws).1.hosts =
          Function.update controller.hosts event.packet.ethSrc (some (event.dpid, event.inPort)))) ∧
      (packetInHandler env controller event draws).1.topo = controller.topo ∧
      ∀ message ∈ (packetInHandler env controller event draws).2,
        Sends env controller.topo (packetInHandler env controller event draws).1.hosts event
          message := by
  unfold packetInHandler
  simp only
  split
  · exact ⟨.inl rfl, rfl, by simp⟩
  split
  · refine ⟨.inl rfl, rfl, ?_⟩
    intro message hmessage
    rw [List.mem_singleton.mp hmessage]
    exact .dropRule
  split
  · refine ⟨.inl rfl, rfl, ?_⟩
    intro message hmessage
    rw [List.mem_singleton.mp hmessage]
    exact .dropRule
  have hlearned := learn_hosts controller event.packet.ethSrc (event.dpid, event.inPort)
  have hknown := learn_known controller event.packet.ethSrc (event.dpid, event.inPort)
  have hkept := (learn_keeps controller event.packet.ethSrc (event.dpid, event.inPort)).1
  split
  · exact ⟨hlearned, hkept, by simp⟩
  · rename_i arp harp
    obtain ⟨hhosts, htopo, hsends⟩ := handleArp_spec env arp draws hknown
    rw [hkept] at htopo hsends
    rw [hhosts]
    exact ⟨hlearned, htopo, hsends⟩

/-- The call reaches `install_paths`, as far as the handler's own tests decide. -/
def installsPaths (controller : ControllerState) (event : PacketInMsg) : Bool :=
  decide (event.packet.ethertype ≠ ethTypeLldp) && !event.packet.ipv6 &&
    !ignoredPair event.packet.ethSrc event.packet.ethDst &&
    match event.packet.arp with
    | none => false
    | some arp =>
        !(controller.timed arp.dstIp arp.srcIp || controller.timed arp.srcIp arp.dstIp) &&
          (decide (arp.opcode = 2) ||
            decide (arp.opcode = 1) && (controller.arpTable arp.dstIp).isSome)

theorem installsPaths_of_packetOut {env : Env} {controller : ControllerState} {event : PacketInMsg}
    {draws : List ℕ} {target : Dpid} {inPort outPort : Port} {packet : Packet}
    (h : (target, SwitchMsg.packetOut inPort (.port outPort) packet) ∈
      (packetInHandler env controller event draws).2) : installsPaths controller event = true := by
  unfold packetInHandler at h
  simp only at h
  split at h
  · cases h
  split at h
  · simp at h
  split at h
  · simp at h
  rename_i hlldp hipv6 hpair
  split at h
  · cases h
  rename_i arp harp
  obtain ⟨-, harpTable, htimeDict⟩ :=
    learn_keeps controller event.packet.ethSrc (event.dpid, event.inPort)
  simp only [handleArp, ControllerState.timed, harpTable, htimeDict] at h
  split at h
  · cases h
  rename_i htimed
  split at h
  · rename_i hreply
    simp [installsPaths, ControllerState.timed, hlldp, hipv6, hpair, harp, htimed, hreply]
  split at h
  · rename_i hrequest
    simp [installsPaths, ControllerState.timed, hlldp, hipv6, hpair, harp, htimed, hrequest.1,
      hrequest.2]
  · simp [packetOut] at h

/-- The hardware address the handler asks for paths to, after the sender has been entered. -/
def targetMac (controller : ControllerState) (event : PacketInMsg) (arp : ArpHeader) : Option Mac :=
  if arp.opcode = 2 then some event.packet.ethDst
  else (controller.setArp arp.srcIp event.packet.ethSrc).arpTable arp.dstIp

/-- The arguments of the `install_paths` call a packet-in leads to, if it leads to one. -/
def calledInstall (controller : ControllerState) (event : PacketInMsg) : Option InstallCall :=
  match event.packet.arp with
  | none => none
  | some arp =>
      let hosts := (controller.learn event.packet.ethSrc (event.dpid, event.inPort)).hosts
      match hosts event.packet.ethSrc, targetMac controller event arp with
      | some h1, some dstMac =>
          match hosts dstMac with
          | some h2 =>
              if installsPaths controller event then
                some ⟨h1.1, h1.2, h2.1, h2.2, arp.srcIp, arp.dstIp, event.packet.ethSrc, dstMac⟩
              else none
          | none => none
      | _, _ => none

/-- Everything one call can do to the ARP table and the record of pairs, and what it sends while it
does so. -/
inductive HandlerEffect (env : Env) (controller : ControllerState) (event : PacketInMsg)
    (draws : List ℕ) : ControllerState → List (Dpid × SwitchMsg) → Prop
  | quiet {next : ControllerState} {sent : List (Dpid × SwitchMsg)} :
      installsPaths controller event = false → next.arpTable = controller.arpTable →
      next.timeDict = controller.timeDict → HandlerEffect env controller event draws next sent
  | unknownHost {next : ControllerState} {arp : ArpHeader} :
      installsPaths controller event = true → event.packet.arp = some arp →
      calledInstall controller event = none →
      next.arpTable = (controller.setArp arp.srcIp event.packet.ethSrc).arpTable →
      next.timeDict = controller.timeDict → HandlerEffect env controller event draws next []
  | raised {next : ControllerState} {arp : ArpHeader} {call : InstallCall} {exception : PyExc} :
      installsPaths controller event = true → event.packet.arp = some arp →
      calledInstall controller event = some call →
      (installPaths env controller.topo call draws).result = .error exception →
      next.arpTable = (controller.setArp arp.srcIp event.packet.ethSrc).arpTable →
      next.timeDict = controller.timeDict →
      HandlerEffect env controller event draws next
        ((installPaths env controller.topo call draws).log.map fun message ↦
          (message.1, .flowMod message.2))
  | installed {next : ControllerState} {arp : ArpHeader} {call : InstallCall} {outPort : Port} :
      installsPaths controller event = true → event.packet.arp = some arp →
      calledInstall controller event = some call →
      (installPaths env controller.topo call draws).result = .ok outPort →
      next.arpTable = (controller.setArp arp.srcIp event.packet.ethSrc).arpTable →
      next.timeDict = (controller.recordPair arp.srcIp arp.dstIp outPort).timeDict →
      HandlerEffect env controller event draws next
        ((installPaths env controller.topo call draws).log.map (fun message ↦
          (message.1, .flowMod message.2)) ++ [packetOut event (.port outPort)])

/-- A call of `install_paths` is for the addresses of the ARP packet. -/
theorem calledInstall_some {controller : ControllerState} {event : PacketInMsg} {call : InstallCall}
    (h : calledInstall controller event = some call) :
    installsPaths controller event = true ∧
      ∃ arp, event.packet.arp = some arp ∧ call.ipSrc = arp.srcIp ∧ call.ipDst = arp.dstIp := by
  unfold calledInstall at h
  split at h
  · cases h
  rename_i arp harp
  simp only at h
  split at h
  · split at h
    · split at h
      · rename_i hinstalls
        cases h
        exact ⟨hinstalls, arp, harp, rfl, rfl⟩
      · cases h
    · cases h
  · cases h

theorem calledInstall_src {controller : ControllerState} {event : PacketInMsg} {call : InstallCall}
    (h : calledInstall controller event = some call) :
    (controller.learn event.packet.ethSrc (event.dpid, event.inPort)).hosts event.packet.ethSrc =
      some (call.src, call.firstPort) := by
  unfold calledInstall at h
  split at h
  · cases h
  simp only at h
  split at h
  · rename_i h1 dstMac hsrc hdstMac
    split at h
    · split at h
      · cases h
        exact hsrc
      · cases h
    · cases h
  · cases h

/-- The part of the handler from the host lookups on. -/
theorem installAndSend_effect {env : Env} {controller : ControllerState} {event : PacketInMsg}
    {arp : ArpHeader} {dstMac : Mac} (draws : List ℕ)
    (hinstalls : installsPaths controller event = true) (harp : event.packet.arp = some arp)
    (htarget : targetMac controller event arp = some dstMac) :
    HandlerEffect env controller event draws
      (installAndSend env ((controller.learn event.packet.ethSrc
        (event.dpid, event.inPort)).setArp arp.srcIp event.packet.ethSrc) event arp dstMac draws).1
      (installAndSend env ((controller.learn event.packet.ethSrc
        (event.dpid, event.inPort)).setArp arp.srcIp event.packet.ethSrc) event arp dstMac draws).2
      := by
  obtain ⟨htopo, harpTable, htimeDict⟩ :=
    learn_keeps controller event.packet.ethSrc (event.dpid, event.inPort)
  have hcalled : calledInstall controller event =
      match (controller.learn event.packet.ethSrc (event.dpid, event.inPort)).hosts
          event.packet.ethSrc,
        (controller.learn event.packet.ethSrc (event.dpid, event.inPort)).hosts dstMac with
      | some h1, some h2 => some ⟨h1.1, h1.2, h2.1, h2.2, arp.srcIp, arp.dstIp,
          event.packet.ethSrc, dstMac⟩
      | _, _ => none := by
    unfold calledInstall
    simp only [harp, htarget, hinstalls, if_true]
    cases (controller.learn event.packet.ethSrc (event.dpid, event.inPort)).hosts
      event.packet.ethSrc with
    | none => rfl
    | some h1 =>
      cases hdst : (controller.learn event.packet.ethSrc (event.dpid, event.inPort)).hosts
        dstMac with
      | none => simp only [hdst]
      | some h2 => simp only [hdst]
  have hentered : ((controller.learn event.packet.ethSrc (event.dpid, event.inPort)).setArp
      arp.srcIp event.packet.ethSrc).arpTable =
        (controller.setArp arp.srcIp event.packet.ethSrc).arpTable := by
    simp only [ControllerState.setArp, harpTable]
  unfold installAndSend
  simp only [ControllerState.setArp, htopo] at hcalled hentered ⊢
  split
  · rename_i h1 h2 hsrc hdst
    simp only [hsrc, hdst] at hcalled
    split
    · rename_i exception hresult
      exact .raised hinstalls harp hcalled hresult hentered htimeDict
    · rename_i outPort hresult
      refine .installed hinstalls harp hcalled hresult hentered ?_
      simp only [ControllerState.recordPair, htimeDict]
  · rename_i hmissing
    refine .unknownHost hinstalls harp ?_ hentered htimeDict
    rw [hcalled]
    split
    · rename_i h1 h2 hsrc hdst
      exact (hmissing h1 h2 hsrc hdst).elim
    · rfl

theorem packetInHandler_effect (env : Env) (controller : ControllerState) (event : PacketInMsg)
    (draws : List ℕ) :
    HandlerEffect env controller event draws (packetInHandler env controller event draws).1
      (packetInHandler env controller event draws).2 := by
  obtain ⟨-, harpTable, htimeDict⟩ :=
    learn_keeps controller event.packet.ethSrc (event.dpid, event.inPort)
  unfold packetInHandler
  simp only
  split
  · rename_i hlldp
    exact .quiet (by simp [installsPaths, hlldp]) rfl rfl
  split
  · rename_i hipv6
    exact .quiet (by simp [installsPaths, hipv6]) rfl rfl
  split
  · rename_i hpair
    exact .quiet (by simp [installsPaths, hpair]) rfl rfl
  rename_i hlldp hipv6 hpair
  split
  · rename_i harp
    exact .quiet (by simp [installsPaths, harp]) harpTable htimeDict
  rename_i arp harp
  simp only [handleArp, ControllerState.timed, harpTable, htimeDict]
  split
  · rename_i htimed
    exact .quiet (by simp [installsPaths, ControllerState.timed, harp, htimed]) harpTable htimeDict
  rename_i htimed
  split
  · rename_i hreply
    apply installAndSend_effect draws _ harp (by simp [targetMac, hreply])
    simp [installsPaths, ControllerState.timed, hlldp, hipv6, hpair, harp, htimed, hreply]
  rename_i hreply
  split
  · rename_i hrequest
    have htarget : targetMac controller event arp =
        ((controller.learn event.packet.ethSrc (event.dpid, event.inPort)).setArp arp.srcIp
          event.packet.ethSrc).arpTable arp.dstIp := by
      simp only [targetMac, hreply, if_false, ControllerState.setArp, harpTable]
    have hinstalls : installsPaths controller event = true := by
      simp [installsPaths, ControllerState.timed, hlldp, hipv6, hpair, harp, htimed, hrequest.1,
        hrequest.2]
    split
    · rename_i dstMac hdstMac
      exact installAndSend_effect draws hinstalls harp (htarget.trans hdstMac)
    · rename_i hnone
      -- The address was in the table before the sender was entered, so it still is.
      have hknown := hrequest.2
      simp only [ControllerState.setArp, harpTable, Function.update_apply] at hnone
      split at hnone
      · cases hnone
      · simp [hnone] at hknown
  · rename_i hrequest
    refine .quiet ?_ harpTable htimeDict
    have hneither :
        (decide (arp.opcode = 1) && (controller.arpTable arp.dstIp).isSome) = false := by
      rw [← Bool.not_eq_true, Bool.and_eq_true, decide_eq_true_eq]
      exact hrequest
    simp [installsPaths, harp, hreply, hneither]

end Wispr.Controller.PacketIn
