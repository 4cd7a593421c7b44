import Wispr.Network.HostLocations

/-!
# Where packet-outs go

A packet-out goes to the switch that raised the packet-in. Its port, when it is not the flood port,
was computed by `install_paths` for the switch of the sender. The two agree exactly for the
packet-ins that are raised by the sender's own switch, whenever their `install_paths` call
completes. A flooded copy of a request that is handled after a third host has made the target known
breaks this.
-/

namespace Wispr.Network.PacketOuts

open Controller.Paths Controller.Install Controller.PacketIn Model Schedule HostLocations

variable {env : Env} {fabric : Fabric} {order : Order}

/-- One call of the handler in a run: the state it starts from, the packet-in and the draws. -/
structure Handling where
  controller : ControllerState
  event : PacketInMsg
  draws : List ℕ

def Handling.sent (env : Env) (handling : Handling) : List (Dpid × SwitchMsg) :=
  (packetInHandler env handling.controller handling.event handling.draws).2

/-- A run of the network with the handler calls it makes, oldest first. -/
inductive HandledRun (env : Env) (fabric : Fabric) (order : Order) : List Handling → NetState → Prop
  | start : HandledRun env fabric order [] .init
  | other {handlings : List Handling} {state state' : NetState} :
      HandledRun env fabric order handlings state →
      Step env fabric order (fun _ _ ↦ false) state state' →
      HandledRun env fabric order handlings state'
  | handle {handlings : List Handling} {state : NetState} {before after : List PacketInMsg}
      {event : PacketInMsg} (draws : List ℕ) : HandledRun env fabric order handlings state →
      state.packetIns = before ++ event :: after → order.Allows PacketInMsg.dpid before event →
      HandledRun env fabric order (handlings ++ [⟨state.controller, event, draws⟩])
        { state with
          controller := (packetInHandler env state.controller event draws).1
          packetIns := before ++ after
          toSwitches := state.toSwitches ++ (packetInHandler env state.controller event draws).2 }

theorem step_of_silent {handles : ControllerState → PacketInMsg → Bool} {state state' : NetState}
    (h : Step env fabric order (fun _ _ ↦ false) state state') :
    Step env fabric order handles state state' := by
  cases h with
  | hostSends hattached howns => exact .hostSends hattached howns
  | switchForwards hframes hallowed hselected => exact .switchForwards hframes hallowed hselected
  | controllerHandles _ _ _ hhandles => cases hhandles
  | flowModArrives hqueue hallowed => exact .flowModArrives hqueue hallowed
  | packetOutArrives hqueue hallowed => exact .packetOutArrives hqueue hallowed
  | daemonSends hreceived hsame => exact .daemonSends hreceived hsame
  | switchFeatures dpid => exact .switchFeatures dpid
  | topologyChanges hreal => exact .topologyChanges hreal
  | portDescription dpid port speed => exact .portDescription dpid port speed

theorem HandledRun.reachable {handlings : List Handling} {state : NetState}
    (h : HandledRun env fabric order handlings state) :
    Reachable env fabric order (fun _ _ ↦ true) state := by
  induction h with
  | start => exact .refl
  | other _ hstep ih => exact ih.tail (step_of_silent hstep)
  | handle draws _ hevents hallowed ih =>
    exact ih.tail (.controllerHandles draws hevents hallowed rfl)

theorem exists_handledRun {state : NetState}
    (h : Reachable env fabric order (fun _ _ ↦ true) state) :
    ∃ handlings, HandledRun env fabric order handlings state := by
  induction h with
  | refl => exact ⟨[], .start⟩
  | tail _ hstep ih =>
    obtain ⟨handlings, hrun⟩ := ih
    cases hstep with
    | hostSends hattached howns => exact ⟨_, hrun.other (.hostSends hattached howns)⟩
    | switchForwards hframes hallowed hselected =>
      exact ⟨_, hrun.other (.switchForwards hframes hallowed hselected)⟩
    | controllerHandles draws hevents hallowed _ => exact ⟨_, hrun.handle draws hevents hallowed⟩
    | flowModArrives hqueue hallowed => exact ⟨_, hrun.other (.flowModArrives hqueue hallowed)⟩
    | packetOutArrives hqueue hallowed => exact ⟨_, hrun.other (.packetOutArrives hqueue hallowed)⟩
    | daemonSends hreceived hsame => exact ⟨_, hrun.other (.daemonSends hreceived hsame)⟩
    | switchFeatures dpid => exact ⟨_, hrun.other (.switchFeatures dpid)⟩
    | topologyChanges hreal => exact ⟨_, hrun.other (.topologyChanges hreal)⟩
    | portDescription dpid port speed =>
      exact ⟨_, hrun.other (.portDescription dpid port speed)⟩

/-- A property of every handler call made in a state with the causality invariant holds of every
call of a run. -/
theorem HandledRun.forall_handlings {property : Handling → Prop}
    (hproperty : ∀ (state : NetState) (event : PacketInMsg) (draws : List ℕ), Inv fabric state →
      event ∈ state.packetIns → property ⟨state.controller, event, draws⟩)
    {handlings : List Handling} {state : NetState}
    (h : HandledRun env fabric order handlings state) :
    ∀ handling ∈ handlings, property handling := by
  induction h with
  | start => exact fun handling hmem ↦ absurd hmem List.not_mem_nil
  | other _ _ ih => exact ih
  | handle draws hbefore hevents _ ih =>
    intro handling hmem
    rcases List.mem_append.mp hmem with hold | hnew
    · exact ih handling hold
    · rw [List.mem_singleton.mp hnew]
      exact hproperty _ _ draws (reachable_inv hbefore.reachable) (mem_of_queued hevents)

/-- Every packet-out to a port goes to the switch for which `install_paths` computed the port in
this very call, which is the one the sender is attached to. -/
def SentToOwnSwitch (env : Env) (fabric : Fabric) (handling : Handling) : Prop :=
  ∀ (target : Dpid) (inPort outPort : Port) (packet : Packet),
    (target, SwitchMsg.packetOut inPort (.port outPort) packet) ∈ handling.sent env →
      ∃ call, calledInstall handling.controller handling.event = some call ∧
        (installPaths env handling.controller.topo call handling.draws).result = .ok outPort ∧
        target = call.src ∧
        fabric.attach handling.event.packet.ethSrc = some (call.src, call.firstPort)

/-- If the packet-in leads to an `install_paths` call that completes, the switch its sender is
attached to has raised it. -/
def InstallsAtHome (env : Env) (fabric : Fabric) (handling : Handling) : Prop :=
  ∀ call outPort, calledInstall handling.controller handling.event = some call →
    (installPaths env handling.controller.topo call handling.draws).result = .ok outPort →
      ∃ port, fabric.attach handling.event.packet.ethSrc = some (handling.event.dpid, port)

/-- The source of an `install_paths` call is where the sender is attached. -/
theorem attach_of_calledInstall {state : NetState} (hinv : Inv fabric state) {event : PacketInMsg}
    (hevent : event ∈ state.packetIns) {call : InstallCall}
    (hcalled : calledInstall state.controller event = some call) :
    fabric.attach event.packet.ethSrc = some (call.src, call.firstPort) := by
  have hsrc := calledInstall_src hcalled
  rcases learn_hosts state.controller event.packet.ethSrc (event.dpid, event.inPort) with
    hsame | ⟨hnew, hupdate⟩
  · rw [hsame] at hsrc
    exact hinv.hosts hsrc
  · rw [hupdate, Function.update_self] at hsrc
    rw [← hsrc]
    exact (hinv.packetIns event hevent).resolve_right (absurd hnew)

theorem sentToOwnSwitch_iff {state : NetState} (hinv : Inv fabric state) {event : PacketInMsg}
    (hevent : event ∈ state.packetIns) (draws : List ℕ) :
    SentToOwnSwitch env fabric ⟨state.controller, event, draws⟩ ↔
      InstallsAtHome env fabric ⟨state.controller, event, draws⟩ := by
  have heffect := packetInHandler_effect env state.controller event draws
  have hinstalls : ∀ {target inPort outPort packet},
      (target, SwitchMsg.packetOut inPort (.port outPort) packet) ∈
        (packetInHandler env state.controller event draws).2 →
      installsPaths state.controller event = true := fun hmem ↦ installsPaths_of_packetOut hmem
  unfold SentToOwnSwitch InstallsAtHome Handling.sent
  simp only
  generalize packetInHandler env state.controller event draws = outcome at heffect hinstalls ⊢
  obtain ⟨next, sent⟩ := outcome
  constructor
  · intro hown call outPort hcalled hresult
    cases heffect with
    | quiet hquiet => simp [(calledInstall_some hcalled).1] at hquiet
    | unknownHost _ _ hnone => simp [hcalled] at hnone
    | raised _ _ hcalled' hresult' =>
      cases hcalled.symm.trans hcalled'
      simp [hresult] at hresult'
    | installed _ _ _ _ =>
      obtain ⟨call', -, -, htarget, hattach⟩ := hown _ _ _ _
        (List.mem_append_right _ (List.mem_singleton_self _))
      exact ⟨call'.firstPort, htarget ▸ hattach⟩
  · intro hhome target inPort outPort packet hmem
    cases heffect with
    | quiet hquiet => simp [hinstalls hmem] at hquiet
    | unknownHost => cases hmem
    | raised => simp at hmem
    | @installed arp call outPort' _ _ hcalled hresult =>
      have hpacketOut : (target, SwitchMsg.packetOut inPort (.port outPort) packet) =
          packetOut event (.port outPort') := by simpa using hmem
      obtain ⟨port, hport⟩ := hhome call outPort' hcalled hresult
      have hattach := attach_of_calledInstall hinv hevent hcalled
      cases hpacketOut
      refine ⟨call, hcalled, hresult, ?_, hattach⟩
      have hsame : event.dpid = call.src ∧ port = call.firstPort := by
        simpa using hport.symm.trans hattach
      exact hsame.1

/-- In every run, under any order of delivery, a handler call sends its packet-out to the switch the
port was computed for exactly when the sender's own switch has raised the packet-in, or the call
leads to no completed `install_paths`. -/
theorem packetOuts_sent_to_own_switch {handlings : List Handling} {state : NetState}
    (hrun : HandledRun env fabric order handlings state) :
    ∀ handling ∈ handlings, SentToOwnSwitch env fabric handling ↔
      InstallsAtHome env fabric handling :=
  hrun.forall_handlings fun _ _ draws hinv hevent ↦ sentToOwnSwitch_iff hinv hevent draws

/-- The handler call made next in the state a schedule ends in, with a message it sends. -/
theorem exists_handling {moves : List Move} {event : PacketInMsg} {draws : List ℕ}
    {message : Dpid × SwitchMsg}
    (hreplay : (replay env fabric order (fun _ _ ↦ true) moves).any (fun state ↦
      decide (state.packetIns.head? = some event) &&
        decide (message ∈ (packetInHandler env state.controller event draws).2)) = true) :
    ∃ handlings final, HandledRun env fabric order handlings final ∧
      ∃ handling ∈ handlings, handling.event = event ∧ message ∈ handling.sent env := by
  obtain ⟨state, hreachable, hstate⟩ := exists_reachable hreplay
  obtain ⟨hhead, hsent⟩ := Bool.and_eq_true_iff.mp hstate
  obtain ⟨rest, hevents⟩ := List.head?_eq_some_iff.mp (of_decide_eq_true hhead)
  obtain ⟨handlings, hrun⟩ := exists_handledRun hreachable
  have hallowed : order.Allows PacketInMsg.dpid [] event := by
    cases order with
    | any => trivial
    | perSwitchFifo => exact fun earlier hearlier ↦ absurd hearlier List.not_mem_nil
  exact ⟨_, _, hrun.handle draws hevents hallowed, _,
    List.mem_append_right _ (List.mem_singleton_self _), rfl, of_decide_eq_true hsent⟩

/-- Host 2 answers host 1, and the packet-in of the answer waits at the controller. -/
def answerWaits : List Move := pairExchange.dropLast

/-- The answer is sent out at switch 2, on its port towards the asking host. -/
theorem packetOuts_sent_to_own_switch_answer :
    ∃ handlings state, HandledRun directPaths pairFabric .perSwitchFifo handlings state ∧
      ∃ handling ∈ handlings,
        (2, SwitchMsg.packetOut 4 (.port 3) (reply 2 1)) ∈ handling.sent directPaths ∧
        SentToOwnSwitch directPaths pairFabric handling := by
  have hreplay : (replay directPaths pairFabric .perSwitchFifo (fun _ _ ↦ true) answerWaits).any
      (fun state ↦ decide (state.packetIns.head? = some ⟨2, 4, reply 2 1⟩) &&
        decide ((2, SwitchMsg.packetOut 4 (.port 3) (reply 2 1)) ∈
          (packetInHandler directPaths state.controller ⟨2, 4, reply 2 1⟩ [0]).2)) = true := by
    decide +kernel
  obtain ⟨handlings, final, hrun, handling, hmem, hevent, hsent⟩ := exists_handling hreplay
  have hattach : pairFabric.attach (reply 2 1).ethSrc = some (2, 4) := rfl
  refine ⟨handlings, final, hrun, handling, hmem, hsent, ?_⟩
  apply (packetOuts_sent_to_own_switch hrun handling hmem).mpr
  intro call outPort _ _
  rw [hevent]
  exact ⟨4, hattach⟩

/-- Host 3 asks for host 2 and so does host 1. The copy of host 1's request at switch 2 waits behind
the answer of host 2 to host 3, which makes host 2 known. -/
def crossedRequests : List Move :=
  pairStarts ++ raises 3 (request 3 2) 0 ++ [.controllerHandles 0 [], .messageArrives 0] ++
    raises 1 (request 1 2) 1 ++ [.controllerHandles 0 []] ++ raises 2 (reply 2 3) 1 ++
    [.messageArrives 0, .switchForwards 1 tableMiss, .controllerHandles 0 [0]]

/-- Port 3 of switch 1 is sent to switch 2. -/
theorem packetOut_sent_to_other_switch :
    ¬ ∀ (env : Env) (fabric : Fabric) (handlings : List Handling) (state : NetState),
      HandledRun env fabric .perSwitchFifo handlings state →
        ∀ handling ∈ handlings, SentToOwnSwitch env fabric handling := by
  intro halways
  have hreplay : (replay directPaths pairFabric .perSwitchFifo (fun _ _ ↦ true)
      crossedRequests).any (fun state ↦
        decide (state.packetIns.head? = some ⟨2, 3, request 1 2⟩) &&
          decide ((2, SwitchMsg.packetOut 3 (.port 3) (request 1 2)) ∈
            (packetInHandler directPaths state.controller ⟨2, 3, request 1 2⟩ [0]).2)) = true := by
    decide +kernel
  obtain ⟨handlings, final, hrun, handling, hmem, hevent, hsent⟩ := exists_handling hreplay
  obtain ⟨call, -, -, htarget, hattach⟩ := halways _ _ _ final hrun handling hmem _ _ _ _ hsent
  have hswitch : pairFabric.attach (request 1 2).ethSrc = some (1, 4) := rfl
  have hcall : call.src = 1 ∧ call.firstPort = 4 := by
    rw [hevent, hswitch] at hattach
    simpa [eq_comm] using hattach
  exact absurd (htarget.trans hcall.1) (by decide)

end Wispr.Network.PacketOuts
