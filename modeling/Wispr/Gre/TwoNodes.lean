import Wispr.Foundation.Run
import Wispr.Gre.Encapsulation

/-!
# Two GRE daemons

Two nodes joined by a network that may delay, reorder, repeat and lose frames: every frame a node
has sent may reach the other at any time and any number of times. Each node also receives whatever
the hosts behind it send. A node removes the GRE header of a frame exactly when it has learned the
destination from its own ingress traffic, so what happens to a frame depends on the joint run.
-/

open Wispr.Foundation.ByteBuffer Wispr.Foundation.Run

namespace Wispr.Gre.TwoNodes

open Wispr.Daemon.Proto (Frame ingressKey)
open Wispr.Daemon.Net (Iface WisprIngressKey destIs wisprIngressKeyAt)
open Wispr.Gre.Daemon Wispr.Gre.Encapsulation

inductive Side where
  | first
  | second
  deriving DecidableEq, Repr

def Side.other : Side → Side
  | .first => .second
  | .second => .first

/-- Tables of the two nodes, and the frames each has sent, in order. -/
structure Joint where
  tables : Side → Tables
  sent : Side → List Frame

def init : Joint where
  tables _ := initWisprtables
  sent _ := []

/-- A node receives a frame of a host, or one of those that the other node has sent. -/
inductive Event where
  | host (side : Side) (wire : Frame)
  | link (side : Side) (index : ℕ)
  deriving DecidableEq, Repr

/-- Which node receives which frame. -/
def Joint.arrival (state : Joint) : Event → Option (Side × Frame)
  | .host side wire => some (side, wire)
  | .link side index => ((state.sent side.other)[index]?).map fun wire ↦ (side, wire)

/-- The default of `gateWayIporMAC`, the text "000000". -/
def noGateway : Fin 6 → UInt8 := fun _ ↦ 0x30

/-- A node without a configured gateway. -/
def nodeIface (mac : Side → Fin 6 → UInt8) (side : Side) : Iface := ⟨mac side, noGateway⟩

variable (linked : Linked) (mac : Side → Fin 6 → UInt8)

/-- One event; its output is what the receiving node sends. -/
def jointStep (state : Joint) (event : Event) : Except Fault (Joint × List Frame) :=
  match state.arrival event with
  | none => .ok (state, [])
  | some (side, wire) =>
      match processNewpkt linked (nodeIface mac side) (state.tables side) wire with
      | .error fault => .error fault
      | .ok (next, sent) =>
          .ok ({ tables := Function.update state.tables side next
                 sent := Function.update state.sent side (state.sent side ++ sent) }, sent)

variable {linked mac} {state next start final : Joint} {event : Event} {events : List Event}
variable {side : Side} {wire : Frame} {sent : List Frame} {outputs : List (List Frame)}
variable {address : UInt32}

theorem jointStep_cases (h : jointStep linked mac state event = .ok (next, sent)) :
    (state.arrival event = none ∧ next = state ∧ sent = []) ∨
      ∃ side wire tables, state.arrival event = some (side, wire) ∧
        processNewpkt linked (nodeIface mac side) (state.tables side) wire = .ok (tables, sent) ∧
        next.tables = Function.update state.tables side tables ∧
        next.sent = Function.update state.sent side (state.sent side ++ sent) := by
  unfold jointStep at h
  cases harrival : state.arrival event with
  | none =>
    rw [harrival] at h
    cases h
    exact .inl ⟨rfl, rfl, rfl⟩
  | some received =>
    obtain ⟨side, wire⟩ := received
    rw [harrival] at h
    simp only at h
    split at h
    · cases h
    · rename_i tables frames hstep
      cases h
      exact .inr ⟨side, wire, tables, rfl, hstep, rfl, rfl⟩

/-! ## What holds in every run -/

/-- The sessions of both nodes are of mode 0. -/
def Joint.AllStriping (state : Joint) : Prop := ∀ side, Striping (state.tables side)

theorem init_allStriping : init.AllStriping := by
  intro side key session hsession
  cases hsession

theorem jointStep_allStriping (hstate : state.AllStriping)
    (h : jointStep linked mac state event = .ok (next, sent)) : next.AllStriping := by
  rcases jointStep_cases h with ⟨-, rfl, -⟩ | ⟨side, wire, tables, -, hstep, htables, -⟩
  · exact hstate
  · intro node
    rw [htables, Function.update_apply]
    split
    · exact (hstate side).after_newpkt hstep
    · exact hstate node

theorem jointStep_sent (h : jointStep linked mac state event = .ok (next, sent)) (side : Side) :
    state.sent side <+: next.sent side := by
  rcases jointStep_cases h with ⟨-, rfl, -⟩ | ⟨node, wire, tables, -, -, -, hsent⟩
  · exact List.prefix_refl _
  · rw [hsent, Function.update_apply]
    split
    · rename_i heq
      rw [heq]
      exact List.prefix_append ..
    · exact List.prefix_refl _

theorem run_sent (h : run (jointStep linked mac) start events = .ok (final, outputs))
    (side : Side) : start.sent side <+: final.sent side :=
  run_invariant (fun state ↦ start.sent side <+: state.sent side)
    (fun hstate hstep ↦ hstate.trans (jointStep_sent hstep side)) (List.prefix_refl _) h

/-- The event teaches the node the address: it is a TCP packet from there, accepted for ingress at
this node, to a destination that the node does not know at that time. -/
def Joint.Teaches (mac : Side → Fin 6 → UInt8) (state : Joint) (event : Event) (side : Side)
    (address : UInt32) : Prop :=
  ∃ wire, state.arrival event = some (side, wire) ∧
    teaches (nodeIface mac side) (state.tables side) wire = true ∧
    (ingressKey (recvBuf wire)).srcIp = address

/-- A step of the run from `start` teaches the node the address. -/
def Learned (linked : Linked) (mac : Side → Fin 6 → UInt8) (start : Joint) (events : List Event)
    (side : Side) (address : UInt32) : Prop :=
  ∃ front event back state outputs, events = front ++ event :: back ∧
    run (jointStep linked mac) start front = .ok (state, outputs) ∧
    state.Teaches mac event side address

/-- A step adds to the known hosts what it teaches. -/
theorem jointStep_hostIp (h : jointStep linked mac state event = .ok (next, sent)) :
    (next.tables side).hostIp address = true ↔
      (state.tables side).hostIp address = true ∨ state.Teaches mac event side address := by
  rcases jointStep_cases h with
    ⟨harrival, rfl, -⟩ | ⟨node, wire, tables, harrival, hstep, htables, -⟩
  · simp [Joint.Teaches, harrival]
  · rw [htables, processNewpkt_tables hstep]
    by_cases hnode : side = node
    · subst hnode
      rw [Function.update_self]
      by_cases hteaches : teaches (nodeIface mac side) (state.tables side) wire = true
      · have htaught : state.Teaches mac event side address ↔
            address = (ingressKey (recvBuf wire)).srcIp := by
          constructor
          · intro h
            obtain ⟨received, hreceived, -, hsource⟩ := h
            cases harrival.symm.trans hreceived
            exact hsource.symm
          · intro h
            exact ⟨wire, harrival, hteaches, h.symm⟩
        rw [if_pos hteaches, htaught]
        simp only [learn, Function.update_apply]
        split
        · rename_i heq
          simp [heq]
        · rename_i hne
          simp [hne]
      · simp [Joint.Teaches, harrival, hteaches]
    · rw [Function.update_of_ne hnode]
      simp [Joint.Teaches, harrival, Ne.symm hnode]

theorem learned_cons (hfirst : jointStep linked mac start event = .ok (next, sent)) :
    Learned linked mac start (event :: events) side address ↔
      start.Teaches mac event side address ∨ Learned linked mac next events side address := by
  constructor
  · intro h
    obtain ⟨front, taught, back, state, outputs, hsplit, hfront, hteaches⟩ := h
    cases front with
    | nil =>
      cases hsplit
      cases hfront
      exact .inl hteaches
    | cons head front =>
      cases hsplit
      obtain ⟨middle, output, tail, hstep, hrest, -⟩ := run_cons_ok.mp hfront
      cases hfirst.symm.trans hstep
      exact .inr ⟨front, taught, back, state, tail, rfl, hrest, hteaches⟩
  · intro h
    rcases h with hteaches | ⟨front, taught, back, state, outputs, rfl, hfront, hteaches⟩
    · exact ⟨[], event, events, start, [], rfl, rfl, hteaches⟩
    · exact ⟨event :: front, taught, back, state, sent :: outputs, rfl,
        run_cons_ok.mpr ⟨next, sent, outputs, hfirst, hfront, rfl⟩, hteaches⟩

/-- What a node knows at the end of a run, it knew at the start or learned on the way. -/
theorem run_hostIp (h : run (jointStep linked mac) start events = .ok (final, outputs)) :
    (final.tables side).hostIp address = true ↔
      (start.tables side).hostIp address = true ∨
        Learned linked mac start events side address := by
  induction events generalizing start outputs with
  | nil =>
    cases h
    simp [Learned]
  | cons event rest ih =>
    obtain ⟨next, output, tail, hfirst, hrest, -⟩ := run_cons_ok.mp h
    rw [ih hrest, jointStep_hostIp hfirst, learned_cons hfirst, or_assoc]

@[simp] theorem Side.other_other (side : Side) : side.other.other = side := by
  cases side with
  | first => rfl
  | second => rfl

theorem jointStep_of_arrival {tables : Tables} (harrival : state.arrival event = some (side, wire))
    (hstep : processNewpkt linked (nodeIface mac side) (state.tables side) wire =
      .ok (tables, sent)) :
    jointStep linked mac state event =
      .ok (⟨Function.update state.tables side tables,
        Function.update state.sent side (state.sent side ++ sent)⟩, sent) := by
  simp only [jointStep, harrival, hstep]

/-- A packet that enters at a node for a destination it does not know leaves it encapsulated. -/
theorem entered_encapsulated {packet : Frame} (hstriping : state.AllStriping)
    (harrival : state.arrival event = some (side, packet))
    (hencapsulates : teaches (nodeIface mac side) (state.tables side) packet = true)
    (hstep : jointStep linked mac state event = .ok (next, sent)) :
    34 ≤ packet.length ∧ packet.length + 8 ≤ packetSize ∧
      ∃ key, key.mode = 0 ∧ sent = [encapsulated linked packet key] ∧
        next.sent side = state.sent side ++ [encapsulated linked packet key] := by
  rcases jointStep_cases hstep with ⟨hnone, -, -⟩ | ⟨node, wire, tables, hsome, hnew, -, hsent⟩
  · cases harrival.symm.trans hnone
  · cases harrival.symm.trans hsome
    obtain ⟨hlow, hhigh⟩ := processNewpkt_teaches_bounds hencapsulates hnew
    cases (processNewpkt_of_teaches hencapsulates hlow hhigh).symm.trans hnew
    refine ⟨hlow, hhigh, _, ?_, rfl, ?_⟩
    · rw [nextKey_mode]
      exact (hstriping side).mode_sessionOf _
    · rw [hsent, Function.update_self]

/-- A frame that a node has sent can reach the other node at any later time. -/
theorem arrival_of_sent {frame : Frame} (hsent : start.sent side = state.sent side ++ [frame])
    (hrun : run (jointStep linked mac) start events = .ok (final, outputs)) :
    final.arrival (.link side.other (state.sent side).length) = some (side.other, frame) := by
  obtain ⟨later, hlater⟩ := run_sent hrun side
  have hinflight : (final.sent side)[(state.sent side).length]? = some frame := by
    rw [← hlater, hsent]
    simp
  simp only [Joint.arrival, Side.other_other, hinflight, Option.map_some]

/-- A node without gateway is the egress of the frames to the hosts it has learned in the run. -/
theorem isEgressOf_iff {packet : Frame}
    (hrun : run (jointStep linked mac) init events = .ok (final, outputs)) :
    isEgressOf (nodeIface mac side) (final.tables side) packet = true ↔
      Learned linked mac init events side (ingressKey (recvBuf packet)).dstIp ∨
        destIs (recvBuf packet) noGateway = true := by
  rw [isEgressOf, Bool.or_eq_true, run_hostIp hrun]
  simp [init, initWisprtables, nodeIface]

/-- A packet that entered at one node for a destination it does not know is encapsulated. Whenever
the other node receives that frame, it sends the packet on as it was exactly when it has learned
the destination by then; the default of the gateway address counts as a gateway. Otherwise the
frame is passed on with its GRE header, or ignored when it carries the node's own address. -/
theorem encapsulated_arrival {before middle : List Event} {entered after : Joint} {packet : Frame}
    {outputs' : List (List Frame)}
    (hbefore : run (jointStep linked mac) init before = .ok (state, outputs))
    (harrival : state.arrival event = some (side, packet))
    (hencapsulates : teaches (nodeIface mac side) (state.tables side) packet = true)
    (hplain : PlainHeader packet)
    (hstep : jointStep linked mac state event = .ok (entered, sent))
    (hmiddle : run (jointStep linked mac) entered middle = .ok (after, outputs')) :
    ∃ frame, sent = [frame] ∧ frame ≠ packet ∧
      after.arrival (.link side.other (state.sent side).length) = some (side.other, frame) ∧
      ∃ last output, jointStep linked mac after (.link side.other (state.sent side).length) =
          .ok (last, output) ∧
        (output = [packet] ↔ destIs (recvBuf packet) (mac side.other) = false ∧
          (Learned linked mac init (before ++ event :: middle) side.other
            (ingressKey (recvBuf packet)).dstIp ∨ destIs (recvBuf packet) noGateway = true)) ∧
        (output ≠ [packet] →
          output = if destIs (recvBuf packet) (mac side.other) then [] else [frame]) := by
  have hstriping : state.AllStriping :=
    run_invariant Joint.AllStriping jointStep_allStriping init_allStriping hbefore
  obtain ⟨hlow, hhigh, key, hmode, hsent, hjoint⟩ :=
    entered_encapsulated hstriping harrival hencapsulates hstep
  have hlonger : encapsulated linked packet key ≠ packet := encapsulated_ne hlow
  have hlink := arrival_of_sent hjoint hmiddle
  refine ⟨encapsulated linked packet key, hsent, hlonger, hlink, ?_⟩
  have hnew := @processNewpkt_encapsulated linked packet key (nodeIface mac side)
    (after.tables side.other) (nodeIface mac side.other) hlow hhigh hplain hmode
    (teaches_iff.mp hencapsulates).1
  have hlast := jointStep_of_arrival hlink hnew
  have hwhole := run_append_ok.mpr ⟨state, outputs, _, hbefore,
    run_cons_ok.mpr ⟨entered, sent, outputs', hstep, hmiddle, rfl⟩, rfl⟩
  have hegress := @isEgressOf_iff linked mac after _ side.other _ packet hwhole
  have hmac : (nodeIface mac side.other).mac = mac side.other := rfl
  rw [hmac] at hlast
  refine ⟨_, _, hlast, ?_, ?_⟩
  · rw [← hegress]
    cases destIs (recvBuf packet) (mac side.other) with
    | true => simp
    | false =>
      cases isEgressOf (nodeIface mac side.other) (after.tables side.other) packet with
      | true => simp
      | false => simp [hlonger]
  · intro hdifferent
    cases hown : destIs (recvBuf packet) (mac side.other) with
    | true => simp
    | false =>
      cases hknown : isEgressOf (nodeIface mac side.other) (after.tables side.other) packet with
      | true => simp [hown, hknown] at hdifferent
      | false => simp

/-- The key as the bit-fields of a little-endian host. -/
def bitfieldBytes (key : WisprIngressKey) : Frame :=
  [UInt8.ofNat (key.index % 256), UInt8.ofNat (key.index % 4096 / 256 + key.mode % 16 * 16),
    UInt8.ofNat (key.bitmask % 256), UInt8.ofNat (key.bitmask / 256 % 256)]

theorem bitfieldBytes_mode {key : WisprIngressKey} (hmode : key.mode = 0) :
    (wisprIngressKeyAt (.received 4 (bitfieldBytes key)) 0).mode = 0 := by
  simp [wisprIngressKeyAt, Buf.load16, bitfieldBytes, hmode]
  omega

/-- The key in bit-fields, and no frames for VLAN arrivals. -/
def bitfieldLinked : Linked where
  keyBytes := bitfieldBytes
  keyBytes_length _ := rfl
  keyBytes_mode _ := bitfieldBytes_mode
  processWispr0Vlan _ _ := .ok []

/-- 02:00:00:00:00:01 and 02:00:00:00:00:02. -/
def nodeMac : Side → Fin 6 → UInt8
  | .first => ![2, 0, 0, 0, 0, 1]
  | .second => ![2, 0, 0, 0, 0, 2]

/-- A TCP packet of five bytes of payload between 10.0.0.1 and 10.0.0.2, by the last bytes of its
source and destination. -/
def tcpPacket (source destination : UInt8) : Frame :=
  [0x0a, 0, 0, 0, 0, destination, 0x0a, 0, 0, 0, 0, source, 0x08, 0x00,
    0x45, 0, 0, 45, 0, 1, 0, 0, 64, 6, 0, 0, 10, 0, 0, source, 10, 0, 0, destination,
    0x1f, 0x90, 0x1f, 0x91, 0, 0, 0, 1, 0, 0, 0, 0, 0x50, 0x18, 2, 0, 0, 0, 0, 0,
    0x68, 0x65, 0x6c, 0x6c, 0x6f]

/-- A host's packet for a destination that its node does not know is accepted. -/
theorem jointStep_host {packet : Frame}
    (hteaches : teaches (nodeIface mac side) (state.tables side) packet = true)
    (hlow : 34 ≤ packet.length) (hhigh : packet.length + 8 ≤ packetSize) :
    ∃ next frame, jointStep linked mac state (.host side packet) = .ok (next, [frame]) ∧
      frame ≠ packet ∧
      next.tables = Function.update state.tables side
        (learn (state.tables side) (ingressKey (recvBuf packet))) ∧
      next.sent = Function.update state.sent side (state.sent side ++ [frame]) :=
  ⟨_, _, jointStep_of_arrival rfl (processNewpkt_of_teaches hteaches hlow hhigh),
    encapsulated_ne hlow, rfl, rfl⟩

/-- A packet of B has entered at the second node before, so the packet of A to B is restored. -/
theorem encapsulated_arrival_known :
    ∃ state outputs entered sent last,
      run (jointStep bitfieldLinked nodeMac) init [.host .second (tcpPacket 2 1)] =
        .ok (state, outputs) ∧
      jointStep bitfieldLinked nodeMac state (.host .first (tcpPacket 1 2)) = .ok (entered, sent) ∧
      jointStep bitfieldLinked nodeMac entered (.link .second 0) =
        .ok (last, [tcpPacket 1 2]) := by
  have htaught : teaches (nodeIface nodeMac .second) (init.tables .second) (tcpPacket 2 1) =
      true := by decide
  obtain ⟨state, reply, hreply, -, htables, hsent⟩ :=
    @jointStep_host bitfieldLinked nodeMac init .second (tcpPacket 2 1) htaught (by decide)
      (by decide)
  have hbefore := run_cons_ok.mpr ⟨state, [reply], [], hreply, run_nil state, rfl⟩
  have hencapsulates : teaches (nodeIface nodeMac .first) (state.tables .first) (tcpPacket 1 2) =
      true := by
    rw [htables]
    decide
  obtain ⟨entered, frame, hstep, -, -, -⟩ :=
    @jointStep_host bitfieldLinked nodeMac state .first (tcpPacket 1 2) hencapsulates (by decide)
      (by decide)
  have hlearned : Learned bitfieldLinked nodeMac init
      ([.host .second (tcpPacket 2 1)] ++ .host .first (tcpPacket 1 2) :: []) .second
        (ingressKey (recvBuf (tcpPacket 1 2))).dstIp :=
    ⟨[], _, _, init, [], rfl, rfl, tcpPacket 2 1, rfl, htaught, by decide⟩
  obtain ⟨-, -, -, -, last, output, hlast, hrestored, -⟩ :=
    encapsulated_arrival hbefore rfl hencapsulates (by decide) hstep (run_nil entered)
  have houtput := hrestored.mpr ⟨by decide, .inl hlearned⟩
  have hindex : (state.sent .first).length = 0 := by
    rw [hsent]
    rfl
  rw [hindex, houtput] at hlast
  exact ⟨state, _, entered, _, last, hbefore, hstep, hlast⟩

/-- The first packet of A to B is passed on with its GRE header. -/
theorem first_packet_stays_encapsulated :
    teaches (nodeIface nodeMac .first) (init.tables .first) (tcpPacket 1 2) = true ∧
      ∃ last frame, run (jointStep bitfieldLinked nodeMac) init
          [.host .first (tcpPacket 1 2), .link .second 0] = .ok (last, [[frame], [frame]]) ∧
        frame ≠ tcpPacket 1 2 := by
  have hencapsulates : teaches (nodeIface nodeMac .first) (init.tables .first) (tcpPacket 1 2) =
      true := by decide
  have hfirst := @jointStep_of_arrival bitfieldLinked nodeMac init (.host .first (tcpPacket 1 2))
    .first (tcpPacket 1 2) _ _ rfl
    (processNewpkt_of_teaches hencapsulates (by decide) (by decide))
  have hpassed := @processNewpkt_encapsulated bitfieldLinked (tcpPacket 1 2)
    (nextKey (sessionOf (init.tables .first) (ingressKey (recvBuf (tcpPacket 1 2)))))
    (nodeIface nodeMac .first) (init.tables .second) (nodeIface nodeMac .second) (by decide)
    (by decide) (by decide) (by decide) (teaches_iff.mp hencapsulates).1
  rw [if_neg (by decide), if_neg (by decide)] at hpassed
  exact ⟨hencapsulates, _, _, run_cons_ok.mpr ⟨_, _, _, hfirst,
    run_cons_ok.mpr ⟨_, _, _, jointStep_of_arrival rfl hpassed, run_nil _, rfl⟩, rfl⟩,
    encapsulated_ne (by decide)⟩

end Wispr.Gre.TwoNodes
