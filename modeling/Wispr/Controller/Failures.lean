import Wispr.Controller.Coherence
import Wispr.Controller.Pairs

/-!
# Packet-ins that fail

Nothing undoes what the handler has done when an exception ends it. The sender is entered into the
ARP table before the first lookup that can fail, the pair is recorded after the last one, and rules
are sent only once paths, costs and ports have been computed. So an exception leaves the record of
pairs alone, and rules behind only where a switch of a computed path has no datapath.
-/

open Wispr.Foundation.Effects

namespace Wispr.Controller.Failures

open Paths Install PacketIn Coherence Pairs

/-- The exception that ends a call of the handler, if one does: a host lookup fails, or
`install_paths` raises. -/
def handlerException (env : Env) (controller : ControllerState) (event : PacketInMsg)
    (draws : List ℕ) : Option PyExc :=
  if installsPaths controller event then
    match calledInstall controller event with
    | none => some .keyError
    | some call =>
        match (installPaths env controller.topo call draws).result with
        | .error exception => some exception
        | .ok _ => none
  else none

/-- The port dictionaries of a call have been computed: paths, their costs and their ports. -/
def Computed (env : Env) (topo : TopologyState) (call : InstallCall)
    (pathsWithPorts : List PathPorts) : Prop :=
  ∃ paths costs, getPaths env topo call.src call.dst = .ok paths ∧
    paths.mapM (getPathCost topo) = .ok costs ∧
    addPortsToPaths topo paths call.firstPort call.lastPort = .ok pathsWithPorts

def DatapathMissing (topo : TopologyState) (pathsWithPorts : List PathPorts) : Prop :=
  ∃ path ∈ pathsWithPorts, ∃ item ∈ path, item.1 ∉ topo.datapathList

theorem installNodes_error {topo : TopologyState} {flows : Dpid → Port → Port → List FlowMod}
    {path : PathPorts} {exception : PyExc}
    (h : (installNodes topo flows path).result = .error exception) :
    exception = .keyError ∧ ∃ item ∈ path, item.1 ∉ topo.datapathList := by
  induction path with
  | nil => cases h
  | cons item rest ih =>
    obtain ⟨node, inPort, outPort⟩ := item
    rcases Logged.bind_error h with hlookup | ⟨_, -, hsend⟩
    · simp only [Logged.ofExcept_result, datapath] at hlookup
      split at hlookup
      · cases hlookup
      · rename_i hmissing
        cases hlookup
        exact ⟨rfl, _, List.mem_cons_self .., hmissing⟩
    · rcases Logged.bind_error hsend with htell | ⟨_, -, hrest⟩
      · cases htell
      · obtain ⟨hkey, missing, hmem, hmissing⟩ := ih hrest
        exact ⟨hkey, missing, List.mem_cons_of_mem _ hmem, hmissing⟩

theorem chooseMirror_error {pathsWithPorts : List PathPorts} {path : PathPorts} {draws : List ℕ}
    {exception : PyExc} (hsome : pathsWithPorts ≠ [])
    (h : chooseMirror pathsWithPorts path draws = .error exception) : exception = .unfinished := by
  induction draws with
  | nil =>
    cases h
    rfl
  | cons draw draws ih =>
    simp only [chooseMirror] at h
    split at h
    · rename_i hnone
      have hbound := Nat.mod_lt draw (List.length_pos_of_ne_nil hsome)
      rw [List.getElem?_eq_getElem hbound] at hnone
      cases hnone
    · split at h
      · exact ih h
      · cases h

theorem installLoop_error {env : Env} {topo : TopologyState} {call : InstallCall}
    {pathsWithPorts : List PathPorts} {firstPath : Bool} {vlan mirrIorvlan : ℕ}
    {paths : List PathPorts} (hsub : ∀ path ∈ paths, path ∈ pathsWithPorts) {draws : List ℕ}
    {exception : PyExc}
    (h : (installLoop env topo call pathsWithPorts firstPath vlan mirrIorvlan paths draws).result =
      .error exception) :
    exception = .unfinished ∨ (exception = .keyError ∧ DatapathMissing topo pathsWithPorts) := by
  have hitems : ∀ {path : PathPorts}, path ∈ pathsWithPorts →
      (∃ item ∈ env.items path, item.1 ∉ topo.datapathList) →
      DatapathMissing topo pathsWithPorts := by
    rintro path hpath ⟨item, hitem, hmissing⟩
    exact ⟨path, hpath, item, (env.items_perm path).mem_iff.mp hitem, hmissing⟩
  induction paths generalizing firstPath vlan mirrIorvlan draws with
  | nil => cases h
  | cons path rest ih =>
    have hpath := hsub path (List.mem_cons_self ..)
    rcases Logged.bind_error h with hown | ⟨_, -, hchoose⟩
    · obtain ⟨hkey, hmissing⟩ := installNodes_error hown
      exact .inr ⟨hkey, hitems hpath hmissing⟩
    rcases Logged.bind_error hchoose with hdraw | ⟨⟨mirror, draws'⟩, hmirror, hinstall⟩
    · exact .inl (chooseMirror_error (List.ne_nil_of_mem hpath) hdraw)
    rcases Logged.bind_error hinstall with hmirrored | ⟨_, -, hrest⟩
    · obtain ⟨hkey, hmissing⟩ := installNodes_error hmirrored
      exact .inr ⟨hkey, hitems (chooseMirror_ok hmirror).1 hmissing⟩
    · exact ih (fun other hother ↦ hsub other (List.mem_cons_of_mem _ hother)) hrest

theorem firstOutPort_error {topo : TopologyState} {src : Dpid} {firstPort lastPort : Port}
    {paths : List (List Dpid)} {pathsWithPorts : List PathPorts} {exception : PyExc}
    (halong : List.Forall₂ (PortsAlong topo lastPort firstPort) paths pathsWithPorts)
    (hstarts : ∀ path ∈ paths, path.head? = some src)
    (h : firstOutPort pathsWithPorts src = .error exception) : pathsWithPorts = [] := by
  cases pathsWithPorts with
  | nil => rfl
  | cons path rest =>
    simp only [firstOutPort] at h
    split at h
    · rename_i hnone
      have hno := firstOutPort_no_keyError halong hstarts
      simp [firstOutPort, hnone] at hno
    · cases h

/-- A call that raises has sent nothing, or it has met a switch without datapath on a path it had
computed completely. -/
theorem installPaths_error {env : Env} {topo : TopologyState} {call : InstallCall}
    {draws : List ℕ} {exception : PyExc} (hraised : exception ≠ .unfinished)
    (h : (installPaths env topo call draws).result = .error exception) :
    (installPaths env topo call draws).log = [] ∨
      (exception = .keyError ∧ ∃ pathsWithPorts, Computed env topo call pathsWithPorts ∧
        DatapathMissing topo pathsWithPorts) := by
  rcases Logged.bind_error_log h with ⟨-, hlog⟩ | ⟨paths, hpaths, hafterPaths, hlog₁⟩
  · exact .inl hlog
  rcases Logged.bind_error_log hafterPaths with ⟨-, hlog⟩ | ⟨costs, hcosts, hafterCosts, hlog₂⟩
  · exact .inl (hlog₁.trans hlog)
  rcases Logged.bind_error_log hafterCosts with
    ⟨-, hlog⟩ | ⟨pathsWithPorts, hpathsWithPorts, hafterPorts, hlog₃⟩
  · exact .inl (hlog₁.trans (hlog₂.trans hlog))
  rcases Logged.bind_error_log hafterPorts with ⟨hloop, -⟩ | ⟨rest, hloop, hport, hlog₄⟩
  · rcases installLoop_error (fun _ hpath ↦ hpath) hloop with hwaiting | ⟨hkey, hmissing⟩
    · exact absurd hwaiting hraised
    · exact .inr ⟨hkey, pathsWithPorts, ⟨paths, costs, hpaths, hcosts, hpathsWithPorts⟩, hmissing⟩
  · left
    have hnone := firstOutPort_error (addPortsToPaths_ok hpaths hpathsWithPorts)
      (fun path hpath ↦ (getPaths_simple hpaths path hpath).starts) hport
    subst hnone
    exact hlog₁.trans (hlog₂.trans (hlog₃.trans hlog₄))

/-- What an exception leaves behind. -/
structure FailureEffect (env : Env) (controller : ControllerState) (event : PacketInMsg)
    (exception : PyExc) (next : ControllerState) (sent : List (Dpid × SwitchMsg)) : Prop where
  timeDict : next.timeDict = controller.timeDict
  arpTable : ∃ arp, event.packet.arp = some arp ∧
    next.arpTable = Function.update controller.arpTable arp.srcIp (some event.packet.ethSrc)
  noPacketOut : ∀ message ∈ sent, ∃ flow, message.2 = .flowMod flow
  flowMods : sent = [] ∨ (exception = .keyError ∧ ∃ call pathsWithPorts,
    calledInstall controller event = some call ∧
    Computed env controller.topo call pathsWithPorts ∧
    DatapathMissing controller.topo pathsWithPorts)

/-- **A failing packet-in** leaves the record of pairs alone, changes the ARP table by the entry of
the sender only, sends no packet-out, and sends flow-mods only if a switch of a computed path has no
datapath. -/
theorem failed_packetIn_effect (env : Env) (inputs : List ControllerInput) (event : PacketInMsg)
    (draws : List ℕ) (exception : PyExc) (hfinished : exception ≠ .unfinished)
    (h : handlerException env (controllerAfter env inputs) event draws = some exception) :
    FailureEffect env (controllerAfter env inputs) event exception
      (packetInHandler env (controllerAfter env inputs) event draws).1
      (packetInHandler env (controllerAfter env inputs) event draws).2 := by
  have heffect := packetInHandler_effect env (controllerAfter env inputs) event draws
  generalize controllerAfter env inputs = controller at h heffect ⊢
  generalize packetInHandler env controller event draws = outcome at heffect ⊢
  obtain ⟨next, sent⟩ := outcome
  unfold handlerException at h
  cases heffect with
  | quiet hquiet => simp [hquiet] at h
  | unknownHost _ harp _ harpTable htimeDict =>
    exact ⟨htimeDict, ⟨_, harp, harpTable⟩, by simp, .inl rfl⟩
  | @raised arp call raised hinstalls harp hcalled hresult harpTable htimeDict =>
    simp only [hinstalls, if_true, hcalled, hresult, Option.some.injEq] at h
    subst h
    refine ⟨htimeDict, ⟨arp, harp, harpTable⟩, ?_, ?_⟩
    · intro message hmessage
      obtain ⟨flow, -, rfl⟩ := List.mem_map.mp hmessage
      exact ⟨flow.2, rfl⟩
    · rcases installPaths_error hfinished hresult with
        hlog | ⟨hkey, pathsWithPorts, hcomputed, hmissing⟩
      · exact .inl (by rw [hlog]; rfl)
      · exact .inr ⟨hkey, call, pathsWithPorts, hcalled, hcomputed, hmissing⟩
  | installed hinstalls _ hcalled hresult => simp [hinstalls, hcalled, hresult] at h

/-- Switch 2 is known from a link and a packet of host 21, but has not entered. -/
def halfEntered : List ControllerInput :=
  [.topology (.switchEnter 1), .topology (.linkAdd ⟨1, 3⟩ ⟨2, 3⟩),
    .packetIn { arpFrom 1 21 12 with dpid := 2 } []]

/-- A reply to an unknown host fails at the lookup and stays in the ARP table; a reply to a host
behind a switch without datapath fails after rules have gone to the first switch. -/
theorem failed_reply_leaves_traces :
    (handlerException directPaths (controllerAfter directPaths []) (arpFrom 2 12 11) [] =
        some .keyError ∧
      (controllerAfter directPaths []).arpTable 12 = none ∧
      (packetInHandler directPaths (controllerAfter directPaths []) (arpFrom 2 12 11) []).1.arpTable
        12 = some 12) ∧
    handlerException directPaths (controllerAfter directPaths halfEntered) (arpFrom 2 12 21) [0] =
        some .keyError ∧
      (packetInHandler directPaths (controllerAfter directPaths halfEntered) (arpFrom 2 12 21)
        [0]).2 ≠ [] := by
  refine ⟨⟨by decide, rfl, by decide⟩, by decide, by decide⟩

/-- The second of these failures: rules have been sent, and nothing is recorded of the pair. -/
theorem failed_packetIn_half_entered :
    FailureEffect directPaths (controllerAfter directPaths halfEntered) (arpFrom 2 12 21) .keyError
      (packetInHandler directPaths (controllerAfter directPaths halfEntered) (arpFrom 2 12 21)
        [0]).1
      (packetInHandler directPaths (controllerAfter directPaths halfEntered) (arpFrom 2 12 21)
        [0]).2 :=
  failed_packetIn_effect directPaths halfEntered (arpFrom 2 12 21) [0] .keyError (by decide)
    (by decide)

end Wispr.Controller.Failures
