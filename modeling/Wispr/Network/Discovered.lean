import Wispr.Controller.Backward
import Wispr.Discovery.Probing

/-!
# From probes to routes

Link discovery, the controller and the switches together, over the cables of a network. The links
that the service reports become the adjacency map, the adjacency map the ports of the installed
paths, and these the rules of the switches. Of the network only its cables are assumed, and that the
first two ports of an access switch are left to the daemon.
-/

namespace Wispr.Network.Discovered

open Controller.Paths Controller.Install Controller.Forwarding Controller.Backward
open Discovery.LldpPacket Discovery.Switches Discovery.Links Discovery.Probing

/-- No cable to another switch is at the ports of the daemon. -/
structure DaemonPorts (cabling : Cabling) (node : Dpid) : Prop where
  outgoing : cabling.cable ⟨node, 1⟩ = none
  incoming : cabling.cable ⟨node, 2⟩ = none

theorem DaemonPorts.accessSwitch {cabling : Cabling} {inputs : List Input} {node : Dpid}
    (hports : DaemonPorts cabling node) (hsound : Sound cabling (history inputs)) :
    AccessSwitch (learnedTopology inputs) (peerOf cabling) node where
  daemon_port := by
    intro v p hp
    obtain ⟨-, q, hfar⟩ := learnedTopology_cable hsound hp
    constructor
    · rintro rfl
      rw [peerOf, hports.outgoing] at hfar
      cases hfar
    · rintro rfl
      rw [peerOf, hports.incoming] at hfar
      cases hfar
  leaves := by rw [peerOf, hports.outgoing, Option.map_none]

/-- **From probes to routes.** After any run of link discovery over a fixed cabling, and any
sequence of completed installs on the topology the controller has learned from it, take the last
install for a pair of addresses between two switches whose daemon ports are not cabled. Each of its
ids names one path, and double-tagged frames with the id follow this path over the cables from
daemon to daemon, and the reversed path back. -/
theorem discovered_routing (cabling : Cabling) (inputs : List Input)
    (hrange : ∀ input ∈ inputs, InRange input) (hcarried : Carried cabling inputs) (env : Env)
    (before after : List (CompletedCall env (learnedTopology inputs)))
    (done : CompletedCall env (learnedTopology inputs))
    (hsrcPorts : DaemonPorts cabling done.call.src) (hdstPorts : DaemonPorts cabling done.call.dst)
    (hends : done.call.src ≠ done.call.dst) (hmacs : done.call.srcMac ≠ done.call.dstMac)
    (hlast : ∀ later ∈ after, s(later.call.srcMac, later.call.dstMac) ≠
      s(done.call.srcMac, done.call.dstMac)) :
    ∃ paths, getPaths env (learnedTopology inputs) done.call.src done.call.dst = .ok paths ∧
      RoutesBothWays (peerOf cabling) (before ++ done :: after) done.call paths := by
  have hsound := sound_history hrange hcarried
  exact routesBothWays_of_last (learnedTopology_wired hsound) before (hsrcPorts.accessSwitch hsound)
    (hdstPorts.accessSwitch hsound) hends hmacs hlast

theorem triangleCables_daemonPorts (node : Dpid) (hnode : node < 5) :
    DaemonPorts triangleCables node where
  outgoing := by
    have hnone : ∀ node < 5, triangleCables.cable ⟨node, 1⟩ = none := by decide
    exact hnone node hnode
  incoming := by
    have hnone : ∀ node < 5, triangleCables.cable ⟨node, 2⟩ = none := by decide
    exact hnone node hnode

theorem learnedTopology_changingLinks : learnedTopology changingLinks =
    [.switchEnter 1, .switchEnter 2, .switchEnter 3, .switchEnter 4, .linkAdd ⟨1, 3⟩ ⟨2, 3⟩,
      .linkAdd ⟨3, 4⟩ ⟨1, 4⟩, .linkAdd ⟨2, 5⟩ ⟨3, 5⟩, .linkAdd ⟨1, 6⟩ ⟨4, 6⟩,
      .linkAdd ⟨4, 6⟩ ⟨1, 6⟩, .linkDelete ⟨1, 6⟩ ⟨4, 6⟩, .linkDelete ⟨4, 6⟩ ⟨1, 6⟩,
      .linkDelete ⟨2, 5⟩ ⟨3, 5⟩, .linkAdd ⟨2, 5⟩ ⟨3, 5⟩].foldl handleEvent .init := by
  rw [learnedTopology, changingLinks_events]

/-- An install between switches 1 and 2 over the learned links, and one between 1 and 3 before. -/
def learnedDone : CompletedCall fanPaths (learnedTopology changingLinks) :=
  ⟨pairCall, [1, 0], 3, by rw [learnedTopology_changingLinks]; decide +kernel⟩

def learnedBefore : CompletedCall fanPaths (learnedTopology changingLinks) :=
  ⟨⟨1, 7, 3, 7, 0x0A000003, 0x0A000004, 0x020000000003, 0x020000000004⟩, [1, 0], 4,
    by rw [learnedTopology_changingLinks]; decide +kernel⟩

/-- Of the links that are left, the second id uses the way through switch 3. -/
theorem discovered_routing_changing_links :
    Travels (tableOf (messagesOf [learnedBefore, learnedDone])) (peerOf triangleCables)
      ⟨0x020000000001, 0x020000000002, 0x8100, 0x8100, some 0x1002, none, none, false⟩
      1 2 [1, 3, 2] 2 1 := by
  obtain ⟨paths, hpaths, hroutes⟩ := discovered_routing triangleCables changingLinks
    changingLinks_inRange changingLinks_carried fanPaths [learnedBefore] [] learnedDone
    (triangleCables_daemonPorts 1 (by decide)) (triangleCables_daemonPorts 2 (by decide))
    (by decide) (by decide) (by simp)
  have hfound : getPaths fanPaths (learnedTopology changingLinks) 1 2 =
      .ok [[1, 2], [1, 3, 2]] := by
    rw [learnedTopology_changingLinks]
    decide +kernel
  cases hpaths.symm.trans hfound
  obtain ⟨path, -, hpath, -, hframes⟩ := hroutes 0 (by decide) 1 (by decide)
  obtain rfl : [1, 3, 2] = path := by simpa using hpath rfl
  exact (hframes 0 (by decide) _ rfl rfl).1 rfl rfl

end Wispr.Network.Discovered
