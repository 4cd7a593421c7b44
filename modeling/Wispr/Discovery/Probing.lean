import Wispr.Controller.Forwarding
import Wispr.Controller.LinkPorts
import Wispr.Discovery.Links

/-!
# Link discovery over a fixed cabling

A probe is made for one port and sent out of that port; over the cable it comes in at the other end,
and there it still names the port it left. So every link the service learns is a cable, and what the
controller keeps of the reported links in `adjacency` is the wiring of the network.

The network is trusted to carry probes over cables only: a frame that `lldp_parse` accepts is one
the service has sent, with bytes that a switch may have appended, received at the other end of the
cable.
-/

namespace Wispr.Discovery.Probing

open Controller.Paths Controller.LinkPorts Controller.Forwarding
open Lldp LldpPacket Ports Switches Links

/-- The frame is a probe made for the port. -/
def ProbeOf (port : LinkEnd) (data : Bytes) : Prop :=
  port.dpid < 2 ^ 64 ∧ port.portNo < 2 ^ 32 ∧
    ∃ hwAddr, data = lldpPacket port.dpid port.portNo hwAddr defaultTtl

/-- Whatever follows it, a probe is read as its port. -/
theorem ProbeOf.lldpParse {port : LinkEnd} {data : Bytes} (h : ProbeOf port data)
    (other : ParseExc) (trailer : Bytes) :
    lldpParse other (data ++ trailer) = .ok ((port.dpid : ℤ), port.portNo) := by
  obtain ⟨hdpid, hportNo, hwAddr, rfl⟩ := h
  exact lldpParse_lldpPacket other _ _ _ hwAddr trailer hdpid hportNo (by decide)

/-- The switch whose ports an input may announce. -/
def announced : Input → Option Dpid
  | .connected dpid _ _ => some dpid
  | .portStatus dpid _ _ => some dpid
  | _ => none

/-- Datapath ids have 64 bits. -/
def InRange (input : Input) : Prop := ∀ dpid, announced input = some dpid → dpid < 2 ^ 64

/-- The input sends a probe at the time. -/
def SendsAt (input : Input) (now : ℤ) : Prop := ∃ port, input = .sendLldpPacket port now

section Handlers

variable {frame : LinkEnd → Bytes → Prop} {time : ℤ → Prop} {service : Service}
  {before : PortDataState}

theorem andThen_changes {first : Outcome}
    (h : Changes frame time before first.service.ports) {next : Service → Outcome}
    (hnext : ∀ service, Changes frame time service.ports (next service).service.ports) :
    Changes frame time before (first.andThen next).service.ports := by
  unfold Outcome.andThen
  split
  · exact h
  · exact h.trans (hnext _)

theorem portsAdded_changes {dpid : Dpid} {ports : List OfpPort}
    (hframe : ∀ port : OfpPort,
      frame ⟨dpid, port.portNo⟩ (lldpPacket dpid port.portNo port.hwAddr defaultTtl))
    (h : Changes frame time before service.ports) :
    Changes frame time before
      (ports.foldl (fun service port ↦ portAdded service dpid port) service).ports := by
  induction ports generalizing service with
  | nil => exact h
  | cons port rest ih => exact ih (h.tail (.added port.isDown (hframe port)))

theorem linkDown_changes (h : Changes frame time before service.ports) (port : LinkEnd) :
    Changes frame time before (linkDown service port).service.ports := by
  unfold linkDown
  split
  · exact h
  · split
    · exact h.tail (.front _)
    · exact h

theorem portGone_changes (port : LinkEnd) :
    Changes frame time service.ports (portGone service port).service.ports := by
  unfold portGone
  split
  · exact .refl
  · rename_i ports hports
    refine linkDown_changes ?_ port
    exact .single (.gone hports)

theorem portsGone_changes (dpid : Dpid) (ports : List OfpPort) :
    Changes frame time service.ports (portsGone dpid ports service).service.ports := by
  induction ports generalizing service with
  | nil => exact .refl
  | cons port rest ih => exact andThen_changes (portGone_changes _) fun _ ↦ ih

theorem expireLinks_changes (deleted : List Link) (now : ℤ) (pending : List Link) :
    Changes frame time service.ports (expireLinks deleted now pending service).service.ports := by
  induction pending generalizing service with
  | nil => exact .refl
  | cons link rest ih =>
    refine andThen_changes ?_ fun _ ↦ ih
    unfold expireLink
    dsimp only
    split
    · exact .refl
    split
    · exact .refl
    split
    · exact .refl
    · exact .single (.front _)

theorem portStatus_changes {dpid : Dpid} {reason : Reason} {desc : OfpPort}
    (hframe : ∀ port : OfpPort,
      frame ⟨dpid, port.portNo⟩ (lldpPacket dpid port.portNo port.hwAddr defaultTtl)) :
    Changes frame time service.ports (portStatus service dpid reason desc).service.ports := by
  cases reason with
  | add =>
    simp only [portStatus]
    split
    · exact .refl
    · split
      · exact .refl
      · rename_i port hport
        exact .single (.added port.isDown (hframe port))
  | delete =>
    simp only [portStatus]
    refine andThen_changes ?_ ?_
    · split
      · exact .refl
      · exact portGone_changes _
    · intro next
      split
      · exact .refl
      · split
        · exact .refl
        · exact .refl
  | modify =>
    simp only [portStatus]
    split
    · exact .refl
    · split
      · exact .refl
      · split
        · exact .refl
        · rename_i known hknown
          split
          · refine linkDown_changes ?_ _
            exact .single (.down hknown)
          · exact .single (.down hknown)

theorem lldpPacketIn_changes (dpid : Dpid) (inPort : ℕ) (data : Bytes) (other : ParseExc)
    (now : ℤ) : Changes frame time service.ports
      (lldpPacketIn service dpid inPort data other now).service.ports := by
  unfold lldpPacketIn
  split
  · exact .refl
  · exact .refl
  rename_i srcDpid srcPortNo hparse
  split
  · exact .refl
  split
  · exact .refl
  rename_i src hsrc
  split
  · exact .refl
  refine .head (.received ⟨srcDpid.toNat, src.portNo⟩) ?_
  dsimp only
  split
  · exact .refl
  · refine andThen_changes ?_ ?_
    · unfold peerMoved
      split
      · exact .refl
      · split
        · exact .refl
        · split
          · exact .refl
          · exact .refl
    · intro next
      simp only [linkSeen]
      split
      · exact .refl
      · exact .single (.front _)

/-- A probe goes out with the frame of its port. -/
theorem sendLldpPacket_probes {port : LinkEnd} {now : ℤ} (h : Frames frame service.ports) :
    ∀ probe ∈ (sendLldpPacket service port now).2, frame probe.1 probe.2 := by
  unfold sendLldpPacket
  split
  · exact nofun
  · rename_i data ports hsent
    dsimp only
    split
    · exact nofun
    · intro probe hprobe
      rw [List.mem_singleton.mp hprobe]
      obtain ⟨old, hold, hsame⟩ := Option.map_eq_some_iff.mp hsent
      obtain ⟨rfl, -⟩ := Prod.mk.inj hsame
      exact h _ (mem_of_get? hold)

theorem sendLldpPacket_changes {port : LinkEnd} {now : ℤ} (htime : time now) :
    Changes frame time service.ports (sendLldpPacket service port now).1.ports := by
  unfold sendLldpPacket
  split
  · exact .refl
  · rename_i data ports hsent
    dsimp only
    split
    · exact .single (.sent hsent htime)
    · exact .single (.sent hsent htime)

/-- Whatever happens, ports are added with their own probe frames, and only a sent probe leaves a
timestamp. -/
theorem step_changes (service : Service) (input : Input)
    (hframe : ∀ dpid, announced input = some dpid → ∀ port : OfpPort,
      frame ⟨dpid, port.portNo⟩ (lldpPacket dpid port.portNo port.hwAddr defaultTtl)) :
    Changes frame (SendsAt input) service.ports (step service input).service.ports := by
  cases input with
  | connected dpid connection ports =>
    simp only [step, connected]
    split
    · exact .refl
    · exact portsAdded_changes (hframe dpid rfl) .refl
  | disconnected dpid connection =>
    simp only [step, disconnected]
    split
    · refine andThen_changes ?_ ?_
      · exact .refl
      · exact fun _ ↦ portsGone_changes dpid _
    · exact .refl
  | portStatus dpid reason desc => exact portStatus_changes (hframe dpid rfl)
  | packetIn dpid inPort data other now => exact lldpPacketIn_changes dpid inPort data other now
  | sendLldpPacket port now => exact sendLldpPacket_changes ⟨port, rfl⟩
  | linkLoop now => exact expireLinks_changes _ now _

end Handlers

/-- The frame is no probe, or one of the probes sent so far out of the port at the other end of the
cable. -/
def CarriedFrame (cabling : Cabling) (past : History) (dpid : Dpid) (inPort : ℕ) (data : Bytes)
    (other : ParseExc) : Prop :=
  (∀ named, lldpParse other data ≠ .ok named) ∨ ∃ probe ∈ past.probes, ∃ trailer,
    data = probe.2 ++ trailer ∧ cabling.cable probe.1 = some ⟨dpid, inPort⟩

/-- Cables carry probes and nothing else does. -/
def Carried (cabling : Cabling) (inputs : List Input) : Prop :=
  ∀ front dpid inPort data other now back,
    inputs = front ++ .packetIn dpid inPort data other now :: back →
      CarriedFrame cabling (history front) dpid inPort data other

/-- What holds after every run. -/
structure Sound (cabling : Cabling) (past : History) : Prop where
  ports : Frames ProbeOf past.service.ports
  probes : ∀ probe ∈ past.probes, ProbeOf probe.1 probe.2
  consistent : Consistent cabling past.service.links (observed past.events)
  reports : ∀ {src dst}, .linkAdd src dst ∈ past.events →
    cabling.cable src = some dst ∧ src.dpid ≠ dst.dpid

variable {cabling : Cabling}

theorem sound_init (cabling : Cabling) : Sound cabling .init where
  ports := nofun
  probes := nofun
  consistent :=
    { nodup := List.nodup_nil
      peers := by simp [History.init, Service.init, LinkState.links]
      view := by simp [History.init, Service.init, LinkState.links, observed]
      cabled := nofun }
  reports := nofun

/-- A probe that was carried by a cable names the port at the other end. -/
theorem Sound.cameOverCable {past : History} (h : Sound cabling past) {dpid : Dpid} {inPort : ℕ}
    {data : Bytes} {other : ParseExc}
    (hcarried : CarriedFrame cabling past dpid inPort data other) :
    CameOverCable cabling dpid inPort data other := by
  intro srcDpid srcPortNo hparse
  rcases hcarried with hnone | ⟨probe, hprobe, trailer, rfl, hcable⟩
  · exact absurd hparse (hnone _)
  · rw [(h.probes probe hprobe).lldpParse other trailer] at hparse
    cases hparse
    exact hcable

theorem Sound.step_leaves {past : History} (h : Sound cabling past) {input : Input}
    (hcarried : ∀ dpid inPort data other now, input = .packetIn dpid inPort data other now →
      CameOverCable cabling dpid inPort data other) :
    Leaves cabling (observed past.events) (step past.service input) := by
  cases input with
  | connected dpid connection ports => exact connected_leaves h.consistent dpid connection ports
  | disconnected dpid connection => exact disconnected_leaves h.consistent dpid connection
  | portStatus dpid reason desc => exact portStatus_leaves h.consistent dpid reason desc
  | packetIn dpid inPort data other now =>
    exact lldpPacketIn_leaves h.consistent (hcarried dpid inPort data other now rfl) now
  | sendLldpPacket port now =>
    refine leaves_quiet ?_
    rw [sendLldpPacket_links]
    exact h.consistent
  | linkLoop now => exact (linkLoop_withdraws h.consistent.toAgree now).1.leaves h.consistent

theorem Sound.next {past : History} (h : Sound cabling past) {input : Input}
    (hrange : InRange input)
    (hcarried : ∀ dpid inPort data other now, input = .packetIn dpid inPort data other now →
      CameOverCable cabling dpid inPort data other) : Sound cabling (past.next input) := by
  have hleaves := h.step_leaves hcarried
  have hchanges : Changes ProbeOf (SendsAt input) past.service.ports
      (step past.service input).service.ports :=
    step_changes _ _ fun dpid hdpid port ↦
      ⟨hrange dpid hdpid, port.portNo_lt, port.hwAddr, rfl⟩
  refine ⟨hchanges.frames h.ports, ?_, ?_, ?_⟩
  · intro probe hprobe
    rcases List.mem_append.mp hprobe with hprobe | hprobe
    · exact h.probes probe hprobe
    · cases input with
      | sendLldpPacket port now => exact sendLldpPacket_probes h.ports probe hprobe
      | _ => cases hprobe
  · simp only [History.next, observed, List.foldl_append]
    exact hleaves.consistent
  · intro src dst hreport
    rcases List.mem_append.mp hreport with hreport | hreport
    · exact h.reports hreport
    · exact hleaves.reports hreport

theorem history_append (inputs : List Input) (input : Input) :
    history (inputs ++ [input]) = (history inputs).next input := by
  rw [history, history, List.foldl_append, List.foldl_cons, List.foldl_nil]

theorem sound_history {inputs : List Input} (hrange : ∀ input ∈ inputs, InRange input)
    (hcarried : Carried cabling inputs) : Sound cabling (history inputs) := by
  induction inputs using List.reverseRecOn with
  | nil => exact sound_init cabling
  | append_singleton inputs input ih =>
    have hpast : Sound cabling (history inputs) := by
      refine ih (fun earlier hearlier ↦ hrange earlier (by simp [hearlier])) ?_
      rintro front dpid inPort data other now back rfl
      exact hcarried front dpid inPort data other now (back ++ [input]) (by simp)
    rw [history_append]
    refine hpast.next (hrange input (by simp)) ?_
    rintro dpid inPort data other now rfl
    exact hpast.cameOverCable (hcarried inputs dpid inPort data other now [] rfl)

/-- In every run over a fixed cabling the dictionary of links, the peers in `_map` and the links an
observer believes in are the same, every link is a cable, and no round of the loop that gives links
up raises an exception. -/
theorem discovery_consistent (cabling : Cabling) (inputs : List Input)
    (hrange : ∀ input ∈ inputs, InRange input) (hcarried : Carried cabling inputs) :
    Consistent cabling (history inputs).service.links (observed (history inputs).events) ∧
      ∀ now, (linkLoop (history inputs).service now).raised = none := by
  have hsound := sound_history hrange hcarried
  exact ⟨hsound.consistent, fun now ↦ (linkLoop_withdraws hsound.consistent.toAgree now).2⟩

/-- Every frame that comes in is a probe from the other end of the cable, without a trailer. -/
def carriedRun (cabling : Cabling) (past : History) : List Input → Bool
  | [] => true
  | input :: rest =>
      (match input with
      | .packetIn dpid inPort data _ _ => past.probes.any fun probe ↦
          probe.2 = data && cabling.cable probe.1 = some ⟨dpid, inPort⟩
      | _ => true) && carriedRun cabling (past.next input) rest

theorem carried_of_carriedRun {inputs : List Input}
    (h : carriedRun cabling .init inputs = true) : Carried cabling inputs := by
  have hrun : ∀ (inputs : List Input) (past : History), carriedRun cabling past inputs = true →
      ∀ front dpid inPort data other now back,
        inputs = front ++ .packetIn dpid inPort data other now :: back →
          CarriedFrame cabling (front.foldl History.next past) dpid inPort data other := by
    intro inputs
    induction inputs with
    | nil =>
      intro past _ front dpid inPort data other now back hsplit
      simp at hsplit
    | cons input rest ih =>
      intro past hpast front dpid inPort data other now back hsplit
      obtain ⟨hinput, hrest⟩ := Bool.and_eq_true_iff.mp hpast
      cases front with
      | nil =>
        obtain ⟨rfl, -⟩ := List.cons.inj hsplit
        obtain ⟨probe, hprobe, hframe⟩ := List.any_eq_true.mp hinput
        rw [Bool.and_eq_true, decide_eq_true_eq, decide_eq_true_eq] at hframe
        exact .inr ⟨probe, hprobe, [], by rw [List.append_nil, hframe.1], hframe.2⟩
      | cons first front =>
        obtain ⟨rfl, htail⟩ := List.cons.inj hsplit
        exact ih _ hrest front dpid inPort data other now back htail
  exact hrun inputs .init h

/-- A port that is up, and the same port without its link. -/
def upPort (portNo : UInt8) : OfpPort :=
  ⟨portNo.toNat, ![2, 0, 0, 0, 0, portNo], 0, 0, portNo.toNat_lt.trans (by decide)⟩

def downPort (portNo : UInt8) : OfpPort := { upPort portNo with state := 1 }

/-- The cables between ports 3 to 6 of four switches: a triangle of switches 1, 2 and 3, and a cable
from switch 1 to switch 4. -/
def fourSwitches : List (LinkEnd × LinkEnd) :=
  [(⟨1, 3⟩, ⟨2, 3⟩), (⟨1, 4⟩, ⟨3, 4⟩), (⟨2, 5⟩, ⟨3, 5⟩), (⟨1, 6⟩, ⟨4, 6⟩)]

def triangleCables : Cabling where
  cable port := (fourSwitches ++ fourSwitches.map Prod.swap).lookup port
  symm := by
    intro port peer h
    have hends : ∀ cable ∈ fourSwitches ++ fourSwitches.map Prod.swap,
        (fourSwitches ++ fourSwitches.map Prod.swap).lookup cable.2 = some cable.1 := by decide
    obtain ⟨front, back, hsplit, -⟩ := List.lookup_eq_some_iff.mp h
    exact hends (port, peer) (hsplit ▸ by simp)

/-- A probe leaves a port and comes in at the other end. -/
def crossing (src dst : LinkEnd) (portNo : UInt8) (now : ℤ) : List Input :=
  [.sendLldpPacket src now,
    .packetIn dst.dpid dst.portNo (lldpPacket src.dpid src.portNo (upPort portNo).hwAddr defaultTtl)
      .unknownFormat (now + 1)]

/-- Four cables are found, one of them in both directions. Then port 6 of switch 1 goes down, and
the probes from port 5 of switch 2 stay away until its link is given up, and come again. -/
def changingLinks : List Input :=
  ([1, 2, 3, 4].map fun dpid ↦
      .connected dpid 0 [upPort 3, upPort 4, upPort 5, upPort 6]) ++
    crossing ⟨1, 3⟩ ⟨2, 3⟩ 3 0 ++ crossing ⟨3, 4⟩ ⟨1, 4⟩ 4 10 ++ crossing ⟨2, 5⟩ ⟨3, 5⟩ 5 20 ++
    crossing ⟨1, 6⟩ ⟨4, 6⟩ 6 30 ++ crossing ⟨4, 6⟩ ⟨1, 6⟩ 6 40 ++
    [.portStatus 1 .modify (downPort 6)] ++
    ((List.range 6).map fun round ↦ .sendLldpPacket ⟨2, 5⟩ (1000 * (round + 1))) ++
    [.linkLoop 11000] ++ crossing ⟨2, 5⟩ ⟨3, 5⟩ 5 11500

theorem changingLinks_inRange : ∀ input ∈ changingLinks, InRange input := by
  have hall : ∀ input ∈ changingLinks, (announced input).all (· < 2 ^ 64) = true := by
    decide +kernel
  intro input hinput dpid hdpid
  have hbound := hall input hinput
  rw [hdpid, Option.all_some, decide_eq_true_eq] at hbound
  exact hbound

theorem changingLinks_carried : Carried triangleCables changingLinks :=
  carried_of_carriedRun (by decide +kernel)

theorem changingLinks_events : (history changingLinks).events =
    [.switchEnter 1, .switchEnter 2, .switchEnter 3, .switchEnter 4, .linkAdd ⟨1, 3⟩ ⟨2, 3⟩,
      .linkAdd ⟨3, 4⟩ ⟨1, 4⟩, .linkAdd ⟨2, 5⟩ ⟨3, 5⟩, .linkAdd ⟨1, 6⟩ ⟨4, 6⟩,
      .linkAdd ⟨4, 6⟩ ⟨1, 6⟩, .linkDelete ⟨1, 6⟩ ⟨4, 6⟩, .linkDelete ⟨4, 6⟩ ⟨1, 6⟩,
      .linkDelete ⟨2, 5⟩ ⟨3, 5⟩, .linkAdd ⟨2, 5⟩ ⟨3, 5⟩] := by
  decide +kernel

/-- Three links are left. -/
theorem discovery_consistent_changing_links :
    Consistent triangleCables (history changingLinks).service.links
        {⟨⟨1, 3⟩, ⟨2, 3⟩⟩, ⟨⟨3, 4⟩, ⟨1, 4⟩⟩, ⟨⟨2, 5⟩, ⟨3, 5⟩⟩} ∧
      ∀ now, (linkLoop (history changingLinks).service now).raised = none := by
  have hview : observed (history changingLinks).events =
      {⟨⟨1, 3⟩, ⟨2, 3⟩⟩, ⟨⟨3, 4⟩, ⟨1, 4⟩⟩, ⟨⟨2, 5⟩, ⟨3, 5⟩⟩} := by
    rw [changingLinks_events]
    decide
  rw [← hview]
  exact discovery_consistent triangleCables changingLinks changingLinks_inRange
    changingLinks_carried

/-! ## The sending loop -/

/-- The times at which probes are sent. -/
def sendTimes (inputs : List Input) : List ℤ :=
  inputs.filterMap fun input ↦ match input with
    | .sendLldpPacket _ now => some now
    | _ => none

theorem mem_sendTimes {inputs : List Input} {input : Input} {now : ℤ} (hinput : input ∈ inputs)
    (hsends : SendsAt input now) : now ∈ sendTimes inputs := by
  obtain ⟨port, rfl⟩ := hsends
  exact List.mem_filterMap.mpr ⟨_, hinput, rfl⟩

theorem ordered_history {inputs : List Input} (hclock : (sendTimes inputs).Pairwise (· ≤ ·))
    {now : ℤ} (hnow : ∀ time ∈ sendTimes inputs, time ≤ now) :
    Ordered now (history inputs).service.ports := by
  induction inputs using List.reverseRecOn generalizing now with
  | nil => exact ⟨.nil, nofun⟩
  | append_singleton inputs input ih =>
    have hchanges : Changes (fun _ _ ↦ True) (SendsAt input) (history inputs).service.ports
        (step (history inputs).service input).service.ports :=
      step_changes _ _ fun _ _ _ ↦ trivial
    rw [sendTimes, List.filterMap_append, List.pairwise_append] at hclock
    obtain ⟨hearlier, -, hlater⟩ := hclock
    rw [history_append]
    -- at a sent probe the clock stands at its time, at any other input it may stand where it is
    cases input with
    | sendLldpPacket port time =>
      have hpast := ih hearlier fun earlier htime ↦ hlater earlier htime time (by simp)
      have hsent : ∀ sent, SendsAt (.sendLldpPacket port time) sent → sent = time := by
        rintro sent ⟨sender, hsame⟩
        cases hsame
        rfl
      have hordered := Changes.ordered hchanges hsent le_rfl hpast
      exact ⟨hordered.sorted, fun stamp hstamp ↦ (hordered.past stamp hstamp).trans
        (hnow time (mem_sendTimes (by simp) ⟨port, rfl⟩))⟩
    | _ =>
      have hpast := ih hearlier fun time htime ↦
        hnow time (by rw [sendTimes, List.filterMap_append]; exact List.mem_append_left _ htime)
      refine Changes.ordered hchanges ?_ le_rfl hpast
      rintro sent ⟨sender, hsame⟩
      cases hsame

/-- The sending loop may stop early: in every run with a clock that does not go back, the scan that
ends at the first port that is not due finds all ports that are due, in their order, and the ports
without a timestamp up to there. The loop then waits for the next port to become due, or not at all
if there is one and others were due. -/
theorem due_ports_found (inputs : List Input) (now : ℤ)
    (hclock : (sendTimes inputs).Pairwise (· ≤ ·)) (hnow : ∀ time ∈ sendTimes inputs, time ≤ now) :
    let ports := (history inputs).service.ports
    (scan now ports).ports = (ports.filter fun item ↦ isDue now item.2).map Prod.fst ∧
      (scan now ports).portsNow = ((ports.takeWhile fun item ↦ !isPending now item.2).filter
        fun item ↦ item.2.timestamp.isNone).map Prod.fst ∧
      (scan now ports).wait =
        if (∃ item ∈ ports, isDue now item.2) ∧ ∃ item ∈ ports, isPending now item.2 then some 0
        else nextDue now ports := by
  intro ports
  have hsorted := (ordered_history hclock hnow).sorted
  obtain ⟨hports, hportsNow, -⟩ := scan_ordered hsorted
  exact ⟨hports, hportsNow, scan_wait hsorted⟩

/-- At 12000 port 5 of switch 2 is not due, and others are. -/
theorem due_ports_found_changing_links :
    (scan 12000 (history changingLinks).service.ports).ports =
        ((history changingLinks).service.ports.filter fun item ↦ isDue 12000 item.2).map
          Prod.fst ∧
      (scan 12000 (history changingLinks).service.ports).wait = some 0 := by
  obtain ⟨hports, -, hwait⟩ :=
    due_ports_found changingLinks 12000 (by decide +kernel) (by decide +kernel)
  have hboth : (∃ item ∈ (history changingLinks).service.ports, isDue 12000 item.2) ∧
      ∃ item ∈ (history changingLinks).service.ports, isPending 12000 item.2 := by
    decide +kernel
  rw [if_pos hboth] at hwait
  exact ⟨hports, hwait⟩

/-- The links the controller keeps were all reported. -/
theorem adjacency_reported (events : List TopologyEvent) {u v : Dpid} {p : Port}
    (hdifferent : u ≠ v) (hp : (events.foldl handleEvent .init).adjacency u v = some p) :
    ∃ q, ∃ event ∈ events, ReportsLink event u p v q := by
  induction events using List.reverseRecOn with
  | nil => cases hp
  | append_singleton events event ih =>
    rw [List.foldl_append, List.foldl_cons, List.foldl_nil] at hp
    by_cases hjoins : JoinsSwitches event u v
    · obtain ⟨⟨a, portA⟩, ⟨b, portB⟩, rfl, hends⟩ := hjoins
      simp only [handleEvent, linkAddHandler, setAdjacency_adjacency] at hp
      rcases Sym2.eq_iff.mp hends with ⟨ha, hb⟩ | ⟨ha, hb⟩
      · simp only at ha hb
        subst ha hb
        rw [if_neg fun hsame ↦ hdifferent hsame.1, if_pos ⟨rfl, rfl⟩] at hp
        cases hp
        exact ⟨portB, _, List.mem_append_right _ (List.mem_singleton.mpr rfl), .inl rfl⟩
      · simp only at ha hb
        subst ha hb
        rw [if_pos ⟨rfl, rfl⟩] at hp
        cases hp
        exact ⟨portA, _, List.mem_append_right _ (List.mem_singleton.mpr rfl), .inr rfl⟩
    · obtain ⟨q, earlier, hearlier, hreports⟩ := ih (adjacency_before hp hjoins)
      exact ⟨q, earlier, List.mem_append_left _ hearlier, hreports⟩

/-- The far end of the cable of a port. -/
def peerOf (cabling : Cabling) : Peer := fun dpid port ↦
  (cabling.cable ⟨dpid, port⟩).map fun far ↦ (far.dpid, far.portNo)

theorem Sound.reported_cable {past : History} (h : Sound cabling past) {event : TopologyEvent}
    (hevent : event ∈ past.events) {u v : Dpid} {p q : Port}
    (hreports : ReportsLink event u p v q) :
    peerOf cabling u p = some (v, q) ∧ u ≠ v := by
  rcases hreports with rfl | rfl
  · obtain ⟨hcable, hswitches⟩ := h.reports hevent
    rw [peerOf, hcable]
    exact ⟨rfl, hswitches⟩
  · obtain ⟨hcable, hswitches⟩ := h.reports hevent
    rw [peerOf, cabling.symm hcable]
    exact ⟨rfl, hswitches.symm⟩

/-- The topology state of the controller after the reports of a run. -/
def learnedTopology (inputs : List Input) : TopologyState :=
  (history inputs).events.foldl handleEvent .init

/-- What the controller keeps of a link is one end of a cable. -/
theorem learnedTopology_cable {inputs : List Input} (h : Sound cabling (history inputs))
    {u v : Dpid} {p : Port} (hp : (learnedTopology inputs).adjacency u v = some p) :
    u ≠ v ∧ ∃ q, peerOf cabling u p = some (v, q) := by
  have hself : u ≠ v := by
    rintro rfl
    have hnone := adjacency_self (history inputs).events u fun event hevent hjoins ↦ by
      obtain ⟨s1, s2, rfl, hends⟩ := hjoins
      obtain ⟨-, hswitches⟩ := h.reports hevent
      rcases Sym2.eq_iff.mp hends with ⟨h1, h2⟩ | ⟨h1, h2⟩
      · exact hswitches (h1.trans h2.symm)
      · exact hswitches (h1.trans h2.symm)
    rw [learnedTopology, hnone] at hp
    cases hp
  obtain ⟨q, event, hevent, hreports⟩ := adjacency_reported _ hself hp
  exact ⟨hself, q, (h.reported_cable hevent hreports).1⟩

theorem learnedTopology_wired {inputs : List Input} (h : Sound cabling (history inputs)) :
    WiredAs (learnedTopology inputs) (peerOf cabling) where
  link := by
    intro u v p q hp hq
    obtain ⟨front, event, back, hevents, hreports, -⟩ :=
      latestLink_of_facing _ (learnedTopology_cable h hp).1 hp hq
    exact (h.reported_cable (hevents ▸ by simp) hreports).1
  distinct := by
    intro u v w p hv hw
    obtain ⟨-, q, hfar⟩ := learnedTopology_cable h hv
    obtain ⟨-, q', hfar'⟩ := learnedTopology_cable h hw
    rw [hfar'] at hfar
    exact (Prod.mk.inj (Option.some.inj hfar)).1.symm

/-- Link discovery and the topology handlers of the controller together: after every run the
adjacency map of the controller is wired as the cables are. -/
theorem discovered_wiring (cabling : Cabling) (inputs : List Input)
    (hrange : ∀ input ∈ inputs, InRange input) (hcarried : Carried cabling inputs) :
    WiredAs ((history inputs).events.foldl handleEvent .init) (peerOf cabling) :=
  learnedTopology_wired (sound_history hrange hcarried)

/-- The controller keeps the triangle, and no link to switch 4. -/
theorem discovered_wiring_changing_links :
    WiredAs ((history changingLinks).events.foldl handleEvent .init) (peerOf triangleCables) ∧
      ((history changingLinks).events.foldl handleEvent .init).adjacency 2 3 = some 5 ∧
      ((history changingLinks).events.foldl handleEvent .init).adjacency 1 4 = none := by
  refine ⟨discovered_wiring triangleCables changingLinks changingLinks_inRange
    changingLinks_carried, ?_, ?_⟩
  · rw [changingLinks_events]
    decide
  · rw [changingLinks_events]
    decide

end Wispr.Discovery.Probing
