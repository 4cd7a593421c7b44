import Wispr.Discovery.Probing

/-!
# Discovery while cables are moved

Nothing is assumed of the cables here: a probe may come in anywhere, with any content, at any time.
A source port with a new peer gives up its old link before it gets the new one, and a link that is
not seen again is given up by the loop. What can still tear the records of the links apart is a port
that goes down while its peer has another peer; as long as that does not happen, the dictionary of
links, the peers in `_map` and the observers agree.
-/

namespace Wispr.Discovery.MovedCables

open Controller.Paths Lldp LldpPacket Ports Switches Links Probing

variable {service : Service} {view : Finset Link}

/-- What a handler leaves agrees with what it has reported. -/
def Tracks (view : Finset Link) (outcome : Outcome) : Prop :=
  Agree outcome.service.links (outcome.events.foldl observe view)

theorem Tracks.andThen {first : Outcome} (h : Tracks view first) {next : Service → Outcome}
    (hnext : Tracks (first.events.foldl observe view) (next first.service)) :
    Tracks view (first.andThen next) := by
  unfold Outcome.andThen
  split
  · exact h
  · rw [Tracks, List.foldl_append]
    exact hnext

theorem Tracks.andThen_of_forall {first : Outcome} (h : Tracks view first)
    {next : Service → Outcome}
    (hnext : ∀ service view, Agree service.links view → Tracks view (next service)) :
    Tracks view (first.andThen next) :=
  h.andThen (hnext _ _ h)

theorem tracks_quiet (h : Agree service.links view) : Tracks view service.quiet := h

/-- A link is seen from a port that has no other peer. -/
theorem linkSeen_tracks (h : Agree service.links view) {src dst : LinkEnd}
    (hpeer : ∀ peer, service.links.map src = some peer → peer = dst) (now : ℤ) :
    Tracks view (linkSeen service src dst now) := by
  have hadded := h.add hpeer now
  unfold linkSeen
  by_cases hknown : ⟨src, dst⟩ ∈ service.links.links
  · rw [Finset.insert_eq_of_mem (h.view.mpr hknown)] at hadded
    simp only [hknown, if_true]
    exact hadded
  · simp only [hknown, if_false]
    exact hadded

/-- Setting a peer twice is setting it once. -/
theorem setPeer_setTime_setPeer (links : LinkState) (link : Link) (src : LinkEnd)
    (first second : Option LinkEnd) (now : ℤ) :
    ((links.setPeer src first).setTime link now).setPeer src second =
      (links.setTime link now).setPeer src second := by
  simp [LinkState.setPeer, LinkState.setTime]

/-- A probe moves a link in all records, whatever peer its source port had. -/
theorem probe_tracks (h : Agree service.links view) (src dst : LinkEnd) (now : ℤ) :
    Tracks view ((peerMoved service src dst).andThen fun service ↦ linkSeen service src dst now) ∧
      ((peerMoved service src dst).andThen fun service ↦
        linkSeen service src dst now).raised = none := by
  cases hold : service.links.map src with
  | none =>
    simp only [peerMoved, hold]
    exact ⟨(tracks_quiet h).andThen (linkSeen_tracks h (by simp [hold]) now), rfl⟩
  | some oldPeer =>
    by_cases hsame : oldPeer = dst
    · simp only [peerMoved, hold, hsame, if_true]
      exact ⟨(tracks_quiet h).andThen (linkSeen_tracks h (by simp [hold, hsame]) now), rfl⟩
    · have hlink := h.peers.mp hold
      have hunknown : (⟨src, dst⟩ : Link) ∉ (service.links.pop ⟨src, oldPeer⟩).links := by
        intro hmem
        have hpeer := h.peers.mpr (mem_links_pop.mp hmem).1
        exact hsame (Option.some.inj (hold.symm.trans hpeer))
      -- the old link is given up with the peer, then the new one comes with its peer
      have hmoved := @Agree.add _ _ src dst (h.remove hlink) (by simp) now
      rw [setPeer_setTime_setPeer] at hmoved
      simp only [peerMoved, hold, hsame, hlink, if_true, if_false, Outcome.andThen,
        Option.isSome_none, Bool.false_eq_true, linkSeen, hunknown, Tracks, List.cons_append,
        List.nil_append, List.foldl_cons, List.foldl_nil, observe]
      exact ⟨hmoved, trivial⟩

/-- What a handler has raised is what `lldp_parse` has, and not the unknown format. -/
def RaisesAsParse (parsed : Except ParseExc (ℤ × ℕ)) (raised : Option HandlerExc) : Prop :=
  raised = none ∨ ∃ exc, exc ≠ .unknownFormat ∧ parsed = .error exc ∧ raised = some (.parse exc)

theorem lldpPacketIn_tracks (h : Agree service.links view) (dpid : Dpid) (inPort : ℕ) (data : Bytes)
    (other : ParseExc) (now : ℤ) : Tracks view (lldpPacketIn service dpid inPort data other now) ∧
      RaisesAsParse (lldpParse other data)
        (lldpPacketIn service dpid inPort data other now).raised := by
  unfold lldpPacketIn
  split
  · exact ⟨h, .inl rfl⟩
  · rename_i exc hknown hparse
    exact ⟨h, .inr ⟨exc, hknown, hparse, rfl⟩⟩
  split
  · exact ⟨h, .inl rfl⟩
  split
  · exact ⟨h, .inl rfl⟩
  split
  · exact ⟨h, .inl rfl⟩
  dsimp only
  split
  · exact ⟨h, .inl rfl⟩
  · refine (probe_tracks ?_ _ _ now).imp_right .inl
    exact h

theorem disconnected_tracks (h : Agree service.links view) (hmutual : Mutual service.links)
    (dpid : Dpid) (connection : ℕ) : Tracks view (disconnected service dpid connection) := by
  unfold disconnected
  split
  · refine Tracks.andThen ?_ ?_
    · exact h
    · refine (portsGone_withdraws ?_ ?_ dpid _).agree
      · exact h
      · exact hmutual
  · exact h

theorem portStatus_tracks (h : Agree service.links view) {reason : Reason}
    (hmutual : reason ≠ .add → Mutual service.links) (dpid : Dpid) (desc : OfpPort) :
    Tracks view (portStatus service dpid reason desc) := by
  cases reason with
  | add =>
    simp only [portStatus]
    split
    · exact h
    · split
      · exact h
      · exact h
  | delete =>
    simp only [portStatus]
    refine Tracks.andThen_of_forall ?_ fun next seen hnext ↦ ?_
    · split
      · exact h
      · exact (portGone_withdraws h (hmutual (by decide)) _).agree
    · split
      · exact hnext
      · split
        · exact hnext
        · exact hnext
  | modify =>
    simp only [portStatus]
    split
    · exact h
    · split
      · exact h
      · split
        · exact h
        · split
          · refine (linkDown_withdraws ?_ ?_ _).agree
            · exact h
            · exact hmutual (by decide)
          · exact h

/-- The input may take a port down. -/
def takesDown : Input → Bool
  | .disconnected _ _ => true
  | .portStatus _ reason _ => decide (reason ≠ .add)
  | _ => false

theorem step_tracks (h : Agree service.links view) {input : Input}
    (hmutual : takesDown input = true → Mutual service.links) :
    Tracks view (step service input) := by
  cases input with
  | connected dpid connection ports =>
    simp only [step, connected]
    split
    · exact h
    · simp only [Tracks, List.foldl_cons, List.foldl_nil, observe, portAdded_links]
      exact h
  | disconnected dpid connection => exact disconnected_tracks h (hmutual rfl) dpid connection
  | portStatus dpid reason desc =>
    exact portStatus_tracks h (fun hreason ↦ hmutual (decide_eq_true hreason)) dpid desc
  | packetIn dpid inPort data other now =>
    exact (lldpPacketIn_tracks h dpid inPort data other now).1
  | sendLldpPacket port now =>
    simp only [Tracks, step, Service.quiet, sendLldpPacket_links, List.foldl_nil]
    exact h
  | linkLoop now => exact (linkLoop_withdraws h now).1.agree

theorem agree_of_mutual (inputs : List Input)
    (hmutual : ∀ front input back, inputs = front ++ input :: back → takesDown input = true →
      Mutual (history front).service.links) :
    Agree (history inputs).service.links (observed (history inputs).events) := by
  induction inputs using List.reverseRecOn with
  | nil => exact (sound_init ⟨fun _ ↦ none, nofun⟩).consistent.toAgree
  | append_singleton inputs input ih =>
    have hpast := ih fun front earlier back hsplit ↦
      hmutual front earlier (back ++ [input]) (by simp [hsplit])
    have hstep := step_tracks hpast (hmutual inputs input [] rfl)
    rw [history_append]
    simp only [History.next, observed, List.foldl_append]
    exact hstep

/-- Whatever frames come in and from where, as long as the known peers are mutual whenever a port
may go down, the dictionary of links, the peers in `_map` and the links an observer believes in are
the same. The handler of a frame raises nothing but what `lldp_parse` lets through, and no round of
the loop raises: neither meets the `KeyError` of a dictionary of the service. -/
theorem records_agree_while_mutual (inputs : List Input)
    (hmutual : ∀ front input back, inputs = front ++ input :: back → takesDown input = true →
      Mutual (history front).service.links) :
    Agree (history inputs).service.links (observed (history inputs).events) ∧
      (∀ dpid inPort data other now, RaisesAsParse (lldpParse other data)
        (lldpPacketIn (history inputs).service dpid inPort data other now).raised) ∧
      ∀ now, (linkLoop (history inputs).service now).raised = none := by
  have hagree := agree_of_mutual inputs hmutual
  exact ⟨hagree,
    fun dpid inPort data other now ↦ (lldpPacketIn_tracks hagree dpid inPort data other now).2,
    fun now ↦ (linkLoop_withdraws hagree now).2⟩

/-- The cable of port 3 of switch 1 is moved from switch 2 to switch 4, where both ends are probed.
A frame of zeros comes in, and the port of switch 1 goes down. -/
def moveOneCable : List Input :=
  [.connected 1 0 [upPort 3], .connected 2 0 [upPort 3], .connected 4 0 [upPort 3],
    .packetIn 2 3 (lldpPacket 1 3 (upPort 3).hwAddr defaultTtl) .unknownFormat 0,
    .packetIn 4 3 (lldpPacket 1 3 (upPort 3).hwAddr defaultTtl) .unknownFormat 1,
    .packetIn 1 3 (lldpPacket 4 3 (upPort 3).hwAddr defaultTtl) .unknownFormat 2,
    .packetIn 1 3 [0, 0] .unknownFormat 3,
    .portStatus 1 .modify (downPort 3)]

/-- Before the port goes down, the known links are those of the new cable. -/
theorem moveOneCable_links : (history (moveOneCable.take 7)).service.links.links =
    [⟨⟨4, 3⟩, ⟨1, 3⟩⟩, ⟨⟨1, 3⟩, ⟨4, 3⟩⟩] := by
  decide +kernel

theorem moveOneCable_mutual : ∀ front input back, moveOneCable = front ++ input :: back →
    takesDown input = true → Mutual (history front).service.links := by
  intro front input back hsplit hdown
  have hlast : ∀ index < 8, (moveOneCable[index]?.any takesDown) = true → index = 7 := by
    decide +kernel
  have hlength : front.length < 8 := by
    have htotal := congrArg List.length hsplit
    rw [List.length_append, List.length_cons] at htotal
    have hsize : moveOneCable.length = 8 := rfl
    omega
  have hindex : front.length = 7 := by
    refine hlast _ hlength ?_
    rw [hsplit, List.getElem?_append_right (Nat.le_refl _), Nat.sub_self]
    exact hdown
  have hfront : front = moveOneCable.take 7 := by
    rw [hsplit, ← hindex, List.take_left]
  -- nothing has gone down before, so the peers are those of the links
  have hagree := agree_of_mutual front fun earlier input' between hbefore hdown' ↦ by
    have hshort : earlier.length < front.length := by
      rw [hbefore, List.length_append, List.length_cons]
      omega
    have hearlier : earlier.length = 7 := by
      refine hlast _ (by omega) ?_
      rw [hsplit, hbefore, List.append_assoc, List.getElem?_append_right (Nat.le_refl _),
        Nat.sub_self]
      exact hdown'
    omega
  intro src dst peer hpeer hback
  have hsrc := hagree.peers.mp hpeer
  have hdst := hagree.peers.mp hback
  rw [hfront, moveOneCable_links] at hsrc hdst
  simp only [List.mem_cons, Link.mk.injEq, List.not_mem_nil, or_false] at hsrc hdst
  rcases hsrc with ⟨rfl, rfl⟩ | ⟨rfl, rfl⟩
  · rcases hdst with ⟨hother, -⟩ | ⟨-, rfl⟩
    · exact absurd hother (by decide)
    · rfl
  · rcases hdst with ⟨-, rfl⟩ | ⟨hother, -⟩
    · rfl
    · exact absurd hother (by decide)

theorem records_agree_while_mutual_moved :
    Agree (history moveOneCable).service.links (observed (history moveOneCable).events) ∧
      (∀ dpid inPort data other now, RaisesAsParse (lldpParse other data)
        (lldpPacketIn (history moveOneCable).service dpid inPort data other now).raised) ∧
      ∀ now, (linkLoop (history moveOneCable).service now).raised = none :=
  records_agree_while_mutual moveOneCable moveOneCable_mutual

end Wispr.Discovery.MovedCables
