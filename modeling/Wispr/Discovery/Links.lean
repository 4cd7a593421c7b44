import Wispr.Discovery.Switches

/-!
# Links the service knows and links it has reported

Over a fixed cabling the three records of a link agree in every run: the dictionary of links, the
peers in `_map`, and what an observer has been told by `EventLinkAdd` and `EventLinkDelete`. Every
link is a cable. The reverse link that `port_deleted` drops without looking at it is then the
reverse of the deleted one.
-/

namespace Wispr.Discovery.Links

open Controller.Paths Lldp LldpPacket Ports Switches

/-- The links an observer believes in, after one more event. -/
def observe (view : Finset Link) : TopologyEvent → Finset Link
  | .linkAdd src dst => insert ⟨src, dst⟩ view
  | .linkDelete src dst => view.erase ⟨src, dst⟩
  | .switchEnter _ => view
  | .switchLeave _ => view

/-- The links an observer believes in. -/
def observed (events : List TopologyEvent) : Finset Link := events.foldl observe ∅

/-- Where cables lead. A cable has two ends. -/
structure Cabling where
  cable : LinkEnd → Option LinkEnd
  symm : ∀ {port peer}, cable port = some peer → cable peer = some port

/-- The three records of the links agree. -/
structure Agree (links : LinkState) (view : Finset Link) : Prop where
  nodup : links.links.Nodup
  peers : ∀ {src dst}, links.map src = some dst ↔ ⟨src, dst⟩ ∈ links.links
  view : ∀ {link}, link ∈ view ↔ link ∈ links.links

/-- The records agree, and every link is a cable. -/
structure Consistent (cabling : Cabling) (links : LinkState) (view : Finset Link) : Prop extends
    Agree links view where
  cabled : ∀ {link}, link ∈ links.links → cabling.cable link.src = some link.dst

@[simp] theorem mem_links_pop {links : LinkState} {link other : Link} :
    other ∈ (links.pop link).links ↔ other ∈ links.links ∧ other ≠ link := by
  simp only [LinkState.links, LinkState.pop, List.mem_map, List.mem_filter, decide_eq_true_eq]
  constructor
  · rintro ⟨item, ⟨hmem, hne⟩, rfl⟩
    exact ⟨⟨item, hmem, rfl⟩, hne⟩
  · rintro ⟨⟨item, hmem, rfl⟩, hne⟩
    exact ⟨item, ⟨hmem, hne⟩, rfl⟩

@[simp] theorem mem_links_setTime {links : LinkState} {link other : Link} {time : ℤ} :
    other ∈ (links.setTime link time).links ↔ other = link ∨ other ∈ links.links := by
  have hpop := @mem_links_pop links link other
  simp only [LinkState.links, LinkState.pop] at hpop
  simp only [LinkState.links, LinkState.setTime, List.map_cons, List.mem_cons, hpop]
  by_cases hsame : other = link
  · simp [hsame]
  · simp [hsame]

theorem nodup_links_pop {links : LinkState} (h : links.links.Nodup) (link : Link) :
    (links.pop link).links.Nodup :=
  h.sublist (List.filter_sublist.map Prod.fst)

theorem nodup_links_setTime {links : LinkState} (h : links.links.Nodup) (link : Link) (time : ℤ) :
    (links.setTime link time).links.Nodup := by
  refine List.nodup_cons.mpr ⟨?_, nodup_links_pop h link⟩
  intro hmem
  exact (mem_links_pop.mp hmem).2 rfl

@[simp] theorem links_setPeer (links : LinkState) (src : LinkEnd) (dst : Option LinkEnd) :
    (links.setPeer src dst).links = links.links := rfl

@[simp] theorem map_pop (links : LinkState) (link : Link) : (links.pop link).map = links.map := rfl

@[simp] theorem map_setTime (links : LinkState) (link : Link) (time : ℤ) :
    (links.setTime link time).map = links.map := rfl

@[simp] theorem map_setPeer (links : LinkState) (src : LinkEnd) (dst : Option LinkEnd) :
    (links.setPeer src dst).map = Function.update links.map src dst := rfl

section Records

variable {links : LinkState} {view : Finset Link} {src dst : LinkEnd}

/-- One link less, in all records. -/
theorem Agree.remove (h : Agree links view) (hmem : ⟨src, dst⟩ ∈ links.links) :
    Agree ((links.pop ⟨src, dst⟩).setPeer src none) (view.erase ⟨src, dst⟩) := by
  have hpeer := h.peers.mpr hmem
  refine ⟨nodup_links_pop h.nodup _, ?_, ?_⟩
  · intro other target
    by_cases hother : other = src
    · subst hother
      simp only [map_setPeer, Function.update_self, links_setPeer, mem_links_pop]
      constructor
      · exact nofun
      · rintro ⟨hlink, hne⟩
        have hsame := (h.peers.mpr hlink).symm.trans hpeer
        exact absurd (by rw [Option.some.inj hsame]) hne
    · simp only [map_setPeer, Function.update_of_ne hother, map_pop, links_setPeer, mem_links_pop,
        h.peers]
      constructor
      · intro hlink
        exact ⟨hlink, fun hsame ↦ hother (congrArg Link.src hsame)⟩
      · exact fun hlink ↦ hlink.1
  · intro link
    simp only [Finset.mem_erase, links_setPeer, mem_links_pop, h.view]
    exact and_comm

/-- Removing what is not there changes no record. -/
theorem Agree.remove_absent (h : Agree links view) (hpeer : links.map src = none) (dst : LinkEnd) :
    Agree ((links.pop ⟨src, dst⟩).setPeer src none) view := by
  have habsent : ∀ target, ⟨src, target⟩ ∉ links.links := by
    intro target hmem
    rw [← h.peers, hpeer] at hmem
    cases hmem
  have hlinks : ∀ link, link ∈ (links.pop ⟨src, dst⟩).links ↔ link ∈ links.links := by
    intro link
    rw [mem_links_pop]
    constructor
    · exact fun hlink ↦ hlink.1
    · exact fun hlink ↦ ⟨hlink, fun hsame ↦ habsent dst (hsame ▸ hlink)⟩
  refine ⟨nodup_links_pop h.nodup _, ?_, ?_⟩
  · intro other target
    rw [links_setPeer, hlinks, map_setPeer, map_pop, ← hpeer, Function.update_eq_self, h.peers]
  · intro link
    rw [links_setPeer, hlinks, h.view]

/-- One link more, in all records, from a port without another peer. -/
theorem Agree.add (h : Agree links view) (hpeer : ∀ peer, links.map src = some peer → peer = dst)
    (now : ℤ) :
    Agree ((links.setTime ⟨src, dst⟩ now).setPeer src (some dst)) (insert ⟨src, dst⟩ view) := by
  refine ⟨nodup_links_setTime h.nodup _ _, ?_, ?_⟩
  · intro other target
    by_cases hother : other = src
    · subst hother
      simp only [map_setPeer, Function.update_self, links_setPeer, mem_links_setTime]
      constructor
      · intro hsame
        cases hsame
        exact .inl rfl
      · rintro (hsame | hlink)
        · cases hsame
          rfl
        · rw [hpeer target (h.peers.mpr hlink)]
    · simp only [map_setPeer, Function.update_of_ne hother, map_setTime, links_setPeer,
        mem_links_setTime, h.peers]
      constructor
      · exact .inr
      · rintro (hsame | hlink)
        · exact absurd (congrArg Link.src hsame) hother
        · exact hlink
  · intro link
    simp only [Finset.mem_insert, links_setPeer, mem_links_setTime, h.view]

/-- A new time for a known link changes no record. -/
theorem Agree.touch (h : Agree links view) {link : Link} (hmem : link ∈ links.links) (time : ℤ) :
    Agree (links.setTime link time) view := by
  have hlinks : ∀ other, other ∈ (links.setTime link time).links ↔ other ∈ links.links := by
    intro other
    rw [mem_links_setTime]
    constructor
    · rintro (rfl | hother)
      · exact hmem
      · exact hother
    · exact .inr
  refine ⟨nodup_links_setTime h.nodup _ _, ?_, ?_⟩
  · intro src dst
    rw [hlinks, map_setTime, h.peers]
  · intro other
    rw [hlinks, h.view]

end Records

/-! ## A port goes down -/

section PortDown

variable {service : Service} {view : Finset Link} {port dst : LinkEnd}

/-- What `_link_down` does to the records when the port has a peer: both links between the two ports
and both peers are dropped, and the peer's own link is reported as deleted whatever it is. -/
theorem linkDown_of_peer (h : Agree service.links view)
    (hpeer : service.links.map port = some dst) :
    (linkDown service port).service.links =
        ((((service.links.pop ⟨port, dst⟩).setPeer port none).pop ⟨dst, port⟩).setPeer dst none) ∧
      (linkDown service port).events = .linkDelete port dst ::
        ((((service.links.pop ⟨port, dst⟩).setPeer port none).map dst).map
          fun peer ↦ .linkDelete dst peer).toList := by
  constructor
  · simp only [linkDown, hpeer, h.peers.mp hpeer, if_true]
  · simp only [linkDown, hpeer, h.peers.mp hpeer, if_true, map_pop]

/-- Where the peer of the port points back, or nowhere, the records agree afterwards. -/
theorem linkDown_agrees (h : Agree service.links view)
    (hback : ∀ dst peer, service.links.map port = some dst → service.links.map dst = some peer →
      peer = port) :
    Agree (linkDown service port).service.links
      ((linkDown service port).events.foldl observe view) := by
  cases hpeer : service.links.map port with
  | none =>
    simp only [linkDown, hpeer]
    exact h
  | some dst =>
    obtain ⟨hlinks, hevents⟩ := linkDown_of_peer h hpeer
    have hfirst := h.remove (h.peers.mp hpeer)
    rw [hlinks, hevents, List.foldl_cons, observe]
    cases hafter : ((service.links.pop ⟨port, dst⟩).setPeer port none).map dst with
    | none => exact hfirst.remove_absent hafter port
    | some peer =>
      have hbefore : service.links.map dst = some peer := by
        by_cases hself : dst = port
        · simp [hself] at hafter
        · simpa [Function.update_of_ne hself] using hafter
      obtain rfl := hback dst peer hpeer hbefore
      exact hfirst.remove (hfirst.peers.mp hafter)

/-- A peer with another peer is forgotten in `_map` and reported, and its link stays in the
dictionary. -/
theorem linkDown_forgets (h : Agree service.links view) {peer : LinkEnd}
    (hpeer : service.links.map port = some dst) (hback : service.links.map dst = some peer)
    (hother : peer ≠ port) :
    (linkDown service port).service.links.map dst = none ∧
      .linkDelete dst peer ∈ (linkDown service port).events ∧
      ⟨dst, peer⟩ ∈ (linkDown service port).service.links.links := by
  obtain ⟨hlinks, hevents⟩ := linkDown_of_peer h hpeer
  have hself : dst ≠ port := by
    rintro rfl
    exact hother (Option.some.inj (hback.symm.trans hpeer))
  rw [hlinks, hevents]
  refine ⟨by simp, ?_, ?_⟩
  · simp [Function.update_of_ne hself, hback]
  · simp only [links_setPeer, mem_links_pop, ne_eq, Link.mk.injEq, not_and]
    exact ⟨⟨h.peers.mp hback, fun hsame ↦ absurd hsame hself⟩, fun _ ↦ hother⟩

/-- After `_link_down` the records agree exactly when the peer of the port pointed back or nowhere.
Otherwise, as when a cable has been moved and not all ports have been probed since, `port_deleted`
forgets the peer's new link in `_map`, the observers are told that it is gone, and the dictionary
keeps it, so that it is not reported again when it is seen again. -/
theorem records_survive_port_down_iff (service : Service) (view : Finset Link) (port : LinkEnd)
    (h : Agree service.links view) :
    (Agree (linkDown service port).service.links
        ((linkDown service port).events.foldl observe view) ↔
      ∀ dst peer, service.links.map port = some dst → service.links.map dst = some peer →
        peer = port) ∧
    ∀ dst peer, service.links.map port = some dst → service.links.map dst = some peer →
      peer ≠ port →
        (linkDown service port).service.links.map dst = none ∧
          .linkDelete dst peer ∈ (linkDown service port).events ∧
          ⟨dst, peer⟩ ∈ (linkDown service port).service.links.links := by
  refine ⟨⟨?_, linkDown_agrees h⟩, fun dst peer ↦ linkDown_forgets h⟩
  intro hafter dst peer hpeer hback
  by_contra hother
  obtain ⟨hforgotten, -, hkept⟩ := linkDown_forgets h hpeer hback hother
  rw [hafter.peers.mpr hkept] at hforgotten
  cases hforgotten

end PortDown

/-- Switch 1 was cabled to switch 2, whose end of the cable has been moved to switch 4: the link
from switch 1 is still known, and the new link of switch 2 has been seen. -/
def movedCable : Service :=
  { Service.init with
    links :=
      ⟨[(⟨⟨1, 3⟩, ⟨2, 3⟩⟩, 0), (⟨⟨2, 3⟩, ⟨4, 3⟩⟩, 0)], fun port ↦
        if port = ⟨1, 3⟩ then some ⟨2, 3⟩ else if port = ⟨2, 3⟩ then some ⟨4, 3⟩ else none⟩ }

theorem movedCable_agrees :
    Agree movedCable.links {⟨⟨1, 3⟩, ⟨2, 3⟩⟩, ⟨⟨2, 3⟩, ⟨4, 3⟩⟩} where
  nodup := by decide
  peers := by
    intro src dst
    by_cases hfirst : src = ⟨1, 3⟩
    · simp [movedCable, LinkState.links, hfirst, eq_comm]
    · by_cases hsecond : src = ⟨2, 3⟩
      · simp [movedCable, LinkState.links, hsecond, eq_comm]
      · simp [movedCable, LinkState.links, hfirst, hsecond]
  view := by simp [movedCable, LinkState.links]

/-- When the port of switch 1 goes down, the observers lose the new link, which is still known. -/
theorem records_lost_after_move :
    ¬ Agree (linkDown movedCable ⟨1, 3⟩).service.links
        ((linkDown movedCable ⟨1, 3⟩).events.foldl observe
          {⟨⟨1, 3⟩, ⟨2, 3⟩⟩, ⟨⟨2, 3⟩, ⟨4, 3⟩⟩}) ∧
      .linkDelete ⟨2, 3⟩ ⟨4, 3⟩ ∈ (linkDown movedCable ⟨1, 3⟩).events ∧
      ⟨⟨2, 3⟩, ⟨4, 3⟩⟩ ∈ (linkDown movedCable ⟨1, 3⟩).service.links.links := by
  obtain ⟨hagree, hforgets⟩ := records_survive_port_down_iff _ _ ⟨1, 3⟩ movedCable_agrees
  obtain ⟨-, hreported, hkept⟩ := hforgets ⟨2, 3⟩ ⟨4, 3⟩ rfl rfl (by decide)
  refine ⟨?_, hreported, hkept⟩
  rw [hagree]
  intro hback
  exact absurd (hback ⟨2, 3⟩ ⟨4, 3⟩ rfl rfl) (by decide)

/-- Every two ports that know each other are each other's peers. -/
def Mutual (links : LinkState) : Prop :=
  ∀ {src dst peer}, links.map src = some dst → links.map dst = some peer → peer = src

/-- A handler has dropped links, told the observers so, and done no more to the records. -/
structure Withdraws (service : Service) (view : Finset Link) (outcome : Outcome) : Prop where
  agree : Agree outcome.service.links (outcome.events.foldl observe view)
  kept : ∀ link ∈ outcome.service.links.links, link ∈ service.links.links
  silent : ∀ src dst, .linkAdd src dst ∉ outcome.events

section Withdraws

variable {service : Service} {view : Finset Link}

theorem withdraws_quiet (h : Agree service.links view) : Withdraws service view service.quiet :=
  ⟨h, fun _ hlink ↦ hlink, nofun⟩

/-- Fewer links leave mutual peers mutual. -/
theorem Withdraws.mutual {outcome : Outcome} (hwithdraws : Withdraws service view outcome)
    (h : Agree service.links view) (hmutual : Mutual service.links) :
    Mutual outcome.service.links := by
  intro src dst peer hpeer hback
  have hbefore : ∀ {a b}, outcome.service.links.map a = some b → service.links.map a = some b :=
    fun hmap ↦ h.peers.mpr (hwithdraws.kept _ (hwithdraws.agree.peers.mp hmap))
  exact hmutual (hbefore hpeer) (hbefore hback)

/-- Parts in sequence. -/
theorem Withdraws.andThen {first : Outcome} (h : Withdraws service view first)
    {next : Service → Outcome}
    (hnext : Withdraws first.service (first.events.foldl observe view) (next first.service)) :
    Withdraws service view (first.andThen next) := by
  unfold Outcome.andThen
  split
  · exact h
  · refine ⟨?_, fun link hlink ↦ h.kept link (hnext.kept link hlink), ?_⟩
    · rw [List.foldl_append]
      exact hnext.agree
    · intro src dst hreport
      rcases List.mem_append.mp hreport with hreport | hreport
      · exact h.silent src dst hreport
      · exact hnext.silent src dst hreport

theorem linkDown_withdraws (h : Agree service.links view) (hmutual : Mutual service.links)
    (port : LinkEnd) : Withdraws service view (linkDown service port) := by
  cases hpeer : service.links.map port with
  | none =>
    simp only [linkDown, hpeer]
    exact withdraws_quiet h
  | some dst =>
    obtain ⟨hlinks, hevents⟩ := linkDown_of_peer h hpeer
    refine ⟨linkDown_agrees h fun dst peer ↦ hmutual, ?_, ?_⟩
    · intro link hlink
      rw [hlinks] at hlink
      simp only [links_setPeer, mem_links_pop] at hlink
      exact hlink.1.1
    · intro src target hreport
      rw [hevents] at hreport
      simp at hreport

theorem portGone_withdraws (h : Agree service.links view) (hmutual : Mutual service.links)
    (port : LinkEnd) : Withdraws service view (portGone service port) := by
  unfold portGone
  split
  · exact ⟨h, fun _ hlink ↦ hlink, nofun⟩
  · rename_i ports hports
    have hdown := @linkDown_withdraws { service with ports := ports } view h hmutual port
    exact ⟨hdown.agree, hdown.kept, hdown.silent⟩

theorem portsGone_withdraws (h : Agree service.links view) (hmutual : Mutual service.links)
    (dpid : Dpid) (ports : List OfpPort) :
    Withdraws service view (portsGone dpid ports service) := by
  induction ports generalizing service view with
  | nil => exact withdraws_quiet h
  | cons port rest ih =>
    have hfirst := portGone_withdraws h hmutual ⟨dpid, port.portNo⟩
    exact hfirst.andThen (ih hfirst.agree (hfirst.mutual h hmutual))

/-- One link of the loop: it is given up without an exception, and the others stay. -/
theorem expireLink_withdraws (h : Agree service.links view) (deleted : List Link) (now : ℤ)
    {link : Link} (hmem : link ∈ service.links.links) :
    Withdraws service view (expireLink deleted now service link) ∧
      (expireLink deleted now service link).raised = none ∧
      ∀ other ∈ service.links.links, other ≠ link →
        other ∈ (expireLink deleted now service link).service.links.links := by
  obtain ⟨src, dst⟩ := link
  have hpeer : ¬ (service.links.map src).isNone = true := by
    rw [h.peers.mpr hmem]
    exact Bool.false_ne_true
  have hremoved := h.remove hmem
  have hothers : ∀ other, other ∈ ((service.links.pop ⟨src, dst⟩).setPeer src none).links ↔
      other ∈ service.links.links ∧ other ≠ ⟨src, dst⟩ := by
    intro other
    rw [links_setPeer, mem_links_pop]
  unfold expireLink
  rw [if_neg (not_not_intro hmem), if_neg hpeer]
  refine ⟨⟨?_, ?_, by simp⟩, rfl, ?_⟩
  · simp only [List.foldl_cons, List.foldl_nil, observe]
    split
    · exact hremoved
    · split
      · rename_i hreverse
        exact hremoved.touch hreverse _
      · exact hremoved
  · intro other hother
    dsimp only at hother
    split at hother
    · exact ((hothers other).mp hother).1
    · dsimp only at hother
      split at hother
      · rename_i hreverse
        rcases mem_links_setTime.mp hother with rfl | hother
        · exact ((hothers _).mp hreverse).1
        · exact ((hothers other).mp hother).1
      · exact ((hothers other).mp hother).1
  · intro other hother hne
    dsimp only
    split
    · exact (hothers other).mpr ⟨hother, hne⟩
    · dsimp only
      split
      · rw [mem_links_setTime]
        exact .inr ((hothers other).mpr ⟨hother, hne⟩)
      · exact (hothers other).mpr ⟨hother, hne⟩

theorem expireLinks_withdraws (h : Agree service.links view) (deleted : List Link) (now : ℤ)
    {pending : List Link} (hnodup : pending.Nodup)
    (hmem : ∀ link ∈ pending, link ∈ service.links.links) :
    Withdraws service view (expireLinks deleted now pending service) ∧
      (expireLinks deleted now pending service).raised = none := by
  induction pending generalizing service view with
  | nil => exact ⟨withdraws_quiet h, rfl⟩
  | cons link rest ih =>
    obtain ⟨hlink, hrest⟩ := List.nodup_cons.mp hnodup
    obtain ⟨hfirst, hraised, hothers⟩ :=
      expireLink_withdraws h deleted now (hmem link (List.mem_cons_self ..))
    have hkept : ∀ other ∈ rest,
        other ∈ (expireLink deleted now service link).service.links.links := by
      intro other hother
      exact hothers other (hmem other (List.mem_cons_of_mem _ hother))
        fun hsame ↦ hlink (hsame ▸ hother)
    obtain ⟨hwithdraws, hraised'⟩ := ih hfirst.agree hrest hkept
    refine ⟨hfirst.andThen hwithdraws, ?_⟩
    rw [expireLinks, Outcome.andThen, hraised]
    exact hraised'

theorem linkLoop_withdraws (h : Agree service.links view) (now : ℤ) :
    Withdraws service view (linkLoop service now) ∧ (linkLoop service now).raised = none := by
  refine expireLinks_withdraws h _ now ?_ ?_
  · exact h.nodup.sublist (List.filter_sublist.map Prod.fst)
  · intro link hlink
    obtain ⟨item, hitem, rfl⟩ := List.mem_map.mp hlink
    exact List.mem_map_of_mem (List.mem_of_mem_filter hitem)

end Withdraws

/-- A handler leaves consistent records, and has reported only cables between switches. -/
structure Leaves (cabling : Cabling) (view : Finset Link) (outcome : Outcome) : Prop where
  consistent : Consistent cabling outcome.service.links (outcome.events.foldl observe view)
  reports : ∀ {src dst}, .linkAdd src dst ∈ outcome.events →
    cabling.cable src = some dst ∧ src.dpid ≠ dst.dpid

variable {cabling : Cabling} {view : Finset Link} {service : Service}

theorem leaves_quiet (h : Consistent cabling service.links view) :
    Leaves cabling view service.quiet := ⟨h, nofun⟩

theorem leaves_fails (h : Consistent cabling service.links view) (exc : HandlerExc) :
    Leaves cabling view (service.fails exc) := ⟨h, nofun⟩

/-- Consistent parts in sequence. -/
theorem Leaves.andThen {first : Outcome} (h : Leaves cabling view first)
    {next : Service → Outcome}
    (hnext : ∀ service view, Consistent cabling service.links view →
      Leaves cabling view (next service)) : Leaves cabling view (first.andThen next) := by
  unfold Outcome.andThen
  split
  · exact h
  · have hsecond := hnext _ _ h.consistent
    refine ⟨?_, ?_⟩
    · rw [List.foldl_append]
      exact hsecond.consistent
    · intro src dst hreport
      rcases List.mem_append.mp hreport with hreport | hreport
      · exact h.reports hreport
      · exact hsecond.reports hreport

/-- Peers are mutual, because cables have two ends. -/
theorem Consistent.mutual {links : LinkState} (h : Consistent cabling links view) :
    Mutual links := by
  intro port dst peer hpeer hback
  have hcable := cabling.symm (h.cabled (h.peers.mp hpeer))
  exact Option.some.inj ((h.cabled (h.peers.mp hback)).symm.trans hcable)

theorem Withdraws.leaves {outcome : Outcome} (hwithdraws : Withdraws service view outcome)
    (h : Consistent cabling service.links view) : Leaves cabling view outcome :=
  ⟨⟨hwithdraws.agree, fun hlink ↦ h.cabled (hwithdraws.kept _ hlink)⟩,
    fun hreport ↦ absurd hreport (hwithdraws.silent _ _)⟩

/-- A known peer of the source port is the other end of its cable. -/
theorem peerMoved_eq (h : Consistent cabling service.links view) {src dst : LinkEnd}
    (hcable : cabling.cable src = some dst) : peerMoved service src dst = service.quiet := by
  unfold peerMoved
  split
  · rfl
  · rename_i oldPeer hpeer
    have hold := h.cabled (h.peers.mp hpeer)
    rw [if_pos (Option.some.inj (hold.symm.trans hcable))]

theorem linkSeen_leaves (h : Consistent cabling service.links view) {src dst : LinkEnd}
    (hcable : cabling.cable src = some dst) (hswitches : src.dpid ≠ dst.dpid) (now : ℤ) :
    Leaves cabling view (linkSeen service src dst now) := by
  have hadded : Consistent cabling ((service.links.setTime ⟨src, dst⟩ now).setPeer src (some dst))
      (insert ⟨src, dst⟩ view) := by
    refine ⟨h.toAgree.add ?_ now, ?_⟩
    · intro peer hpeer
      exact Option.some.inj ((h.cabled (h.peers.mp hpeer)).symm.trans hcable)
    · intro link hlink
      rw [links_setPeer, mem_links_setTime] at hlink
      rcases hlink with rfl | hlink
      · exact hcable
      · exact h.cabled hlink
  unfold linkSeen
  by_cases hknown : ⟨src, dst⟩ ∈ service.links.links
  · rw [Finset.insert_eq_of_mem (h.view.mpr hknown)] at hadded
    simp only [hknown, if_true]
    exact ⟨hadded, nofun⟩
  · simp only [hknown, if_false]
    refine ⟨hadded, ?_⟩
    intro source target hreport
    cases List.mem_singleton.mp hreport
    exact ⟨hcable, hswitches⟩

/-- Adding ports changes no link. -/
theorem portAdded_links (dpid : Dpid) (ports : List OfpPort) (service : Service) :
    (ports.foldl (fun service port ↦ portAdded service dpid port) service).links =
      service.links := by
  induction ports generalizing service with
  | nil => rfl
  | cons port rest ih =>
    rw [List.foldl_cons, ih]
    rfl

theorem connected_leaves (h : Consistent cabling service.links view) (dpid : Dpid)
    (connection : ℕ) (ports : List OfpPort) :
    Leaves cabling view (connected service dpid connection ports) := by
  unfold connected
  dsimp only
  split
  · exact ⟨h, nofun⟩
  · refine ⟨?_, by simp⟩
    rw [portAdded_links]
    exact h

theorem disconnected_leaves (h : Consistent cabling service.links view) (dpid : Dpid)
    (connection : ℕ) : Leaves cabling view (disconnected service dpid connection) := by
  unfold disconnected
  split
  · refine Leaves.andThen ⟨h, by simp⟩ ?_
    intro next view hnext
    exact (portsGone_withdraws hnext.toAgree hnext.mutual dpid _).leaves hnext
  · exact leaves_quiet h

theorem portStatus_leaves (h : Consistent cabling service.links view) (dpid : Dpid)
    (reason : Reason) (desc : OfpPort) :
    Leaves cabling view (portStatus service dpid reason desc) := by
  cases reason with
  | add =>
    simp only [portStatus]
    split
    · exact ⟨h, nofun⟩
    · split
      · exact ⟨h, nofun⟩
      · exact ⟨h, nofun⟩
  | delete =>
    simp only [portStatus]
    refine Leaves.andThen ?_ ?_
    · split
      · exact leaves_quiet h
      · exact (portGone_withdraws h.toAgree h.mutual _).leaves h
    · intro next view hnext
      split
      · exact ⟨hnext, nofun⟩
      · split
        · exact ⟨hnext, nofun⟩
        · exact ⟨hnext, nofun⟩
  | modify =>
    simp only [portStatus]
    split
    · exact ⟨h, nofun⟩
    · split
      · exact ⟨h, nofun⟩
      · split
        · exact ⟨h, nofun⟩
        · split
          · refine Withdraws.leaves (linkDown_withdraws ?_ ?_ _) ?_
            · exact h.toAgree
            · exact h.mutual
            · exact h
          · exact ⟨h, nofun⟩

@[simp] theorem sendLldpPacket_links (service : Service) (port : LinkEnd) (now : ℤ) :
    (sendLldpPacket service port now).1.links = service.links := by
  unfold sendLldpPacket
  split
  · rfl
  · dsimp only
    split
    · rfl
    · rfl

theorem portNo_of_getPort {dpid : Dpid} {portNo : ℕ} {port : OfpPort}
    (h : getPort service dpid portNo = some port) : port.portNo = portNo := by
  simpa using List.find?_some h

/-- A frame that names a port came over the cable of that port. -/
def CameOverCable (cabling : Cabling) (dpid : Dpid) (inPort : ℕ) (data : Bytes)
    (other : ParseExc) : Prop :=
  ∀ srcDpid srcPortNo, lldpParse other data = .ok (srcDpid, srcPortNo) →
    cabling.cable ⟨srcDpid.toNat, srcPortNo⟩ = some ⟨dpid, inPort⟩

theorem lldpPacketIn_leaves (h : Consistent cabling service.links view) {dpid : Dpid} {inPort : ℕ}
    {data : Bytes} {other : ParseExc} (hcable : CameOverCable cabling dpid inPort data other)
    (now : ℤ) : Leaves cabling view (lldpPacketIn service dpid inPort data other now) := by
  unfold lldpPacketIn
  split
  · exact leaves_quiet h
  · exact leaves_fails h _
  rename_i srcDpid srcPortNo hparse
  have hlink := hcable srcDpid srcPortNo hparse
  split
  · exact leaves_quiet h
  split
  · exact leaves_quiet h
  rename_i src hsrc
  split
  · exact leaves_quiet h
  rename_i hswitches
  dsimp only
  split
  · exact ⟨h, nofun⟩
  rename_i dst hdst
  rw [portNo_of_getPort hsrc, portNo_of_getPort hdst]
  generalize service.ports.lldpReceived ⟨srcDpid.toNat, srcPortNo⟩ = ports
  have hkept : Consistent cabling { service with ports := ports }.links view := h
  rw [peerMoved_eq hkept hlink]
  exact (leaves_quiet hkept).andThen fun _ _ hnext ↦ linkSeen_leaves hnext hlink hswitches now

end Wispr.Discovery.Links
