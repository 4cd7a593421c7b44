import Wispr.Controller.Paths

/-!
# Ports of one link

`adjacency` keeps the two ports of a link in two rows, and the topology handlers write and delete
the rows at different times: a leaving switch takes its own row only, and a deletion stops at the
first entry it misses. One-sided entries do arise. Two entries that face each other are still the
ports of one reported link, and of the latest one between the two switches.
-/

namespace Wispr.Controller.LinkPorts

open Paths

/-- The event reports a link between the two switches. -/
def JoinsSwitches (event : TopologyEvent) (a b : Dpid) : Prop :=
  ∃ s1 s2, event = .linkAdd s1 s2 ∧ s(s1.dpid, s2.dpid) = s(a, b)

/-- The event reports the link between port `p` of `a` and port `q` of `b`, from either end. -/
def ReportsLink (event : TopologyEvent) (a : Dpid) (p : Port) (b : Dpid) (q : Port) : Prop :=
  event = .linkAdd ⟨a, p⟩ ⟨b, q⟩ ∨ event = .linkAdd ⟨b, q⟩ ⟨a, p⟩

/-- The last report of a link between the two switches was the one between these ports. -/
def LatestLink (events : List TopologyEvent) (a : Dpid) (p : Port) (b : Dpid) (q : Port) : Prop :=
  ∃ front event back, events = front ++ event :: back ∧ ReportsLink event a p b q ∧
    ∀ later ∈ back, ¬ JoinsSwitches later a b

theorem adjacency_before {topo : TopologyState} {event : TopologyEvent} {a b : Dpid} {p : Port}
    (h : (handleEvent topo event).adjacency a b = some p) (hevent : ¬ JoinsSwitches event a b) :
    topo.adjacency a b = some p := by
  cases event with
  | switchEnter switch =>
    simp only [handleEvent, switchEnterHandler] at h
    split at h
    · exact h
    · exact h
  | switchLeave switch =>
    simp only [handleEvent, switchLeaveHandler] at h
    split at h
    · by_cases ha : a = switch
      · simp [ha] at h
      · simpa [ha] using h
    · exact h
  | linkAdd s1 s2 =>
    have hends : s(s1.dpid, s2.dpid) ≠ s(a, b) := fun hsame ↦ hevent ⟨s1, s2, rfl, hsame⟩
    simp only [handleEvent, linkAddHandler, setAdjacency_adjacency] at h
    split at h
    · rename_i hreverse
      exact absurd (by rw [hreverse.1, hreverse.2, Sym2.eq_swap]) hends
    split at h
    · rename_i hforward
      exact absurd (by rw [hforward.1, hforward.2]) hends
    · exact h
  | linkDelete s1 s2 =>
    simp only [handleEvent, linkDeleteHandler] at h
    split at h
    · exact h
    · simp only [setAdjacency_adjacency] at h
      split at h
      · cases h
      split at h
      · cases h
      · exact h

theorem reportsLink_of_joins {topo : TopologyState} {event : TopologyEvent} {a b : Dpid}
    {p q : Port} (hjoins : JoinsSwitches event a b) (hdifferent : a ≠ b)
    (hp : (handleEvent topo event).adjacency a b = some p)
    (hq : (handleEvent topo event).adjacency b a = some q) : ReportsLink event a p b q := by
  obtain ⟨⟨u, portU⟩, ⟨v, portV⟩, rfl, hends⟩ := hjoins
  simp only [handleEvent, linkAddHandler, setAdjacency_adjacency] at hp hq
  rcases Sym2.eq_iff.mp hends with ⟨hu, hv⟩ | ⟨hu, hv⟩
  · simp only at hu hv
    subst hu hv
    left
    simp_all [eq_comm]
  · simp only at hu hv
    subst hu hv
    right
    simp_all [eq_comm]

theorem adjacency_self (events : List TopologyEvent) (a : Dpid)
    (hself : ∀ event ∈ events, ¬ JoinsSwitches event a a) :
    (events.foldl handleEvent .init).adjacency a a = none := by
  induction events using List.reverseRecOn with
  | nil => rfl
  | append_singleton events event ih =>
    rw [List.foldl_append, List.foldl_cons, List.foldl_nil]
    have hevent := hself event (by simp)
    have hbefore := ih fun earlier hearlier ↦ hself earlier (by simp [hearlier])
    by_contra hsome
    obtain ⟨p, hp⟩ := Option.ne_none_iff_exists'.mp hsome
    have hkept := adjacency_before hp hevent
    rw [hbefore] at hkept
    cases hkept

/-- The ports of facing entries come from one report. -/
theorem latestLink_of_facing (events : List TopologyEvent) {a b : Dpid} {p q : Port}
    (hdifferent : a ≠ b) (hp : (events.foldl handleEvent .init).adjacency a b = some p)
    (hq : (events.foldl handleEvent .init).adjacency b a = some q) : LatestLink events a p b q := by
  induction events using List.reverseRecOn with
  | nil => cases hp
  | append_singleton events event ih =>
    rw [List.foldl_append, List.foldl_cons, List.foldl_nil] at hp hq
    by_cases hjoins : JoinsSwitches event a b
    · exact ⟨events, event, [], rfl, reportsLink_of_joins hjoins hdifferent hp hq, by simp⟩
    · have hreverse : ¬ JoinsSwitches event b a := by
        rintro ⟨s1, s2, hevent, hends⟩
        exact hjoins ⟨s1, s2, hevent, hends.trans Sym2.eq_swap⟩
      obtain ⟨front, report, back, rfl, hreport, hlater⟩ :=
        ih (adjacency_before hp hjoins) (adjacency_before hq hreverse)
      refine ⟨front, report, back ++ [event], by simp, hreport, ?_⟩
      intro later hmem
      rcases List.mem_append.mp hmem with hback | hlast
      · exact hlater later hback
      · rwa [List.mem_singleton.mp hlast]

/-- In every state reached by topology events, two facing entries are the ports of the link the
latest report between the two switches named. Link discovery reports no link from a switch to
itself. -/
theorem facing_ports_of_one_link (events : List TopologyEvent) (a b : Dpid) (p q : Port)
    (hself : a = b → ∀ event ∈ events, ¬ JoinsSwitches event a a)
    (hp : (events.foldl handleEvent .init).adjacency a b = some p)
    (hq : (events.foldl handleEvent .init).adjacency b a = some q) : LatestLink events a p b q := by
  by_cases hsame : a = b
  · have hnone := adjacency_self events a (hself hsame)
    rw [← hsame, hnone] at hp
    cases hp
  · exact latestLink_of_facing events hsame hp hq

/-- Two parallel links, one reported from both ends, and a switch that leaves and comes back. -/
def parallelLinks : List TopologyEvent :=
  [.switchEnter 1, .switchEnter 2, .linkAdd ⟨1, 3⟩ ⟨2, 4⟩, .linkAdd ⟨1, 5⟩ ⟨2, 6⟩,
    .switchLeave 1, .switchEnter 1, .linkAdd ⟨2, 4⟩ ⟨1, 3⟩, .linkAdd ⟨1, 3⟩ ⟨2, 4⟩]

theorem facing_ports_parallel_links : LatestLink parallelLinks 1 3 2 4 :=
  facing_ports_of_one_link parallelLinks 1 2 3 4 (fun hsame ↦ absurd hsame (by decide))
    (by decide) (by decide)

end Wispr.Controller.LinkPorts
