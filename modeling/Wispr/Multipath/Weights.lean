import Wispr.Controller.Coherence
import Wispr.Multipath.Groups

/-!
# Costs and bucket weights

The cost of a link divides the reference bandwidth by the speed of its slower end, and the weight of
a bucket divides the cost of its path by the sum of all costs. The speeds are whatever the switches
report. This module says for which reports both divisions are defined, and that the weights are then
between 0 and 10 and fall with the cost.
-/

open Wispr.Foundation.Effects

namespace Wispr.Multipath.Weights

open Controller.Paths Controller.Coherence Groups

/-- A reply: the switch, and the speed of each of its ports. -/
abbrev Reply := Dpid × List (Port × ℕ)

/-- `port_desc_stats_reply_handler`. -/
def handleReply (topo : TopologyState) (reply : Reply) : TopologyState :=
  reply.2.foldl (fun topo p ↦ portDescStatsReplyHandler topo reply.1 p.1 p.2) topo

/-- The topology with these links, after the replies. -/
def afterReplies (adjacency : Dpid → Dpid → Option Port) (replies : List Reply) : TopologyState :=
  replies.foldl handleReply { TopologyState.init with adjacency := adjacency }

/-- All speeds reported, in order. -/
def reports (replies : List Reply) : List ((Dpid × Port) × ℕ) :=
  replies.flatMap fun reply ↦ reply.2.map fun p ↦ ((reply.1, p.1), p.2)

/-- The speed reported last for a port, or `DEFAULT_BW`. -/
def lastSpeed (replies : List Reply) (switch : Dpid) (portNo : Port) : ℕ :=
  ((reports replies).reverse.lookup (switch, portNo)).getD defaultBw

def handleReport (topo : TopologyState) (report : (Dpid × Port) × ℕ) : TopologyState :=
  portDescStatsReplyHandler topo report.1.1 report.1.2 report.2

theorem foldl_handleReply (topo : TopologyState) (replies : List Reply) :
    replies.foldl handleReply topo = (reports replies).foldl handleReport topo := by
  rw [reports, List.foldl_flatMap]
  congr 1
  funext topo reply
  rw [List.foldl_map]
  rfl

theorem handleReport_bandwidths (topo : TopologyState) (report : (Dpid × Port) × ℕ)
    (switch : Dpid) (portNo : Port) :
    (handleReport topo report).bandwidths switch portNo =
      if (switch, portNo) = report.1 then report.2 else topo.bandwidths switch portNo := by
  obtain ⟨⟨reporter, port⟩, speed⟩ := report
  simp only [handleReport, portDescStatsReplyHandler, Function.update_apply, Prod.mk.injEq]
  by_cases hswitch : switch = reporter
  · by_cases hport : portNo = port
    · simp [hswitch, hport]
    · simp [hswitch, hport]
  · simp [hswitch]

theorem bandwidths_foldl (topo : TopologyState) (items : List ((Dpid × Port) × ℕ)) (switch : Dpid)
    (portNo : Port) :
    (items.foldl handleReport topo).bandwidths switch portNo =
      (items.reverse.lookup (switch, portNo)).getD (topo.bandwidths switch portNo) := by
  induction items generalizing topo with
  | nil => rfl
  | cons report rest ih =>
    rw [List.foldl_cons, ih, List.reverse_cons, List.lookup_append, handleReport_bandwidths]
    cases rest.reverse.lookup (switch, portNo) with
    | some speed => rfl
    | none =>
      by_cases hreport : (switch, portNo) = report.1
      · rw [if_pos hreport, List.lookup_cons, hreport]
        simp
      · rw [if_neg hreport, List.lookup_cons, beq_false_of_ne hreport]
        rfl

theorem adjacency_foldl (topo : TopologyState) (items : List ((Dpid × Port) × ℕ)) :
    (items.foldl handleReport topo).adjacency = topo.adjacency := by
  induction items generalizing topo with
  | nil => rfl
  | cons report rest ih => exact ih _

variable (adjacency : Dpid → Dpid → Option Port) (replies : List Reply)

theorem afterReplies_bandwidths : (afterReplies adjacency replies).bandwidths =
    lastSpeed replies := by
  funext switch portNo
  rw [afterReplies, foldl_handleReply, bandwidths_foldl]
  rfl

theorem afterReplies_adjacency : (afterReplies adjacency replies).adjacency = adjacency := by
  rw [afterReplies, foldl_handleReply, adjacency_foldl]

/-- The consecutive switches of a path. -/
def linksOf (path : List Dpid) : List (Dpid × Dpid) := path.zip path.tail

/-- The speed of the port of `u` towards `v`. -/
def portSpeed (topo : TopologyState) (u v : Dpid) : ℕ :=
  (topo.adjacency u v).elim 0 (topo.bandwidths u)

/-- The speed of the slower end of a link. -/
def linkSpeed (topo : TopologyState) (link : Dpid × Dpid) : ℕ :=
  min (portSpeed topo link.1 link.2) (portSpeed topo link.2 link.1)

variable {topo : TopologyState} {path : List Dpid} {paths : List (List Dpid)} {pw : List ℕ}

theorem getLinkCost_eq {u v : Dpid} (hjoined : Joined topo u v) :
    getLinkCost topo u v =
      if linkSpeed topo (u, v) = 0 then .error .zeroDivisionError
      else .ok (referenceBw / linkSpeed topo (u, v)) := by
  obtain ⟨e1, he1⟩ := Option.ne_none_iff_exists'.mp hjoined.1
  obtain ⟨e2, he2⟩ := Option.ne_none_iff_exists'.mp hjoined.2
  simp only [getLinkCost, adjacencyPort_of_some he1, adjacencyPort_of_some he2, bind, Except.bind,
    linkSpeed, portSpeed, he1, he2, Option.elim_some]
  rfl

/-- A path has a cost exactly when all of its links have a speed, and then it is their sum. -/
theorem getPathCostFrom_eq_ok_iff (hjoined : path.IsChain (Joined topo)) {cost total : ℕ} :
    getPathCostFrom topo cost path = .ok total ↔
      (∀ link ∈ linksOf path, linkSpeed topo link ≠ 0) ∧
        total = cost + ((linksOf path).map fun link ↦ referenceBw / linkSpeed topo link).sum := by
  induction path generalizing cost with
  | nil => simp [getPathCostFrom, linksOf, eq_comm]
  | cons u rest ih =>
    cases rest with
    | nil => simp [getPathCostFrom, linksOf, eq_comm]
    | cons v rest =>
      obtain ⟨hlink, hrest⟩ := List.isChain_cons_cons.mp hjoined
      have hlinks : linksOf (u :: v :: rest) = (u, v) :: linksOf (v :: rest) := rfl
      rw [getPathCostFrom, getLinkCost_eq hlink, hlinks, List.forall_mem_cons, List.map_cons,
        List.sum_cons]
      by_cases hspeed : linkSpeed topo (u, v) = 0
      · simp [hspeed, bind, Except.bind]
      · rw [if_neg hspeed]
        simp only [bind, Except.bind]
        rw [ih hrest, Nat.add_assoc]
        simp [hspeed]

theorem getPathCost_completes_iff (hjoined : path.IsChain (Joined topo)) :
    (∃ cost, getPathCost topo path = .ok cost) ↔
      ∀ link ∈ linksOf path, linkSpeed topo link ≠ 0 := by
  simp only [getPathCost, getPathCostFrom_eq_ok_iff hjoined, exists_and_left, exists_eq, and_true]

/-- The cost of a path is zero exactly when all of its links are faster than the reference. -/
theorem getPathCost_ne_zero_iff (hjoined : path.IsChain (Joined topo))
    (hspeeds : ∀ link ∈ linksOf path, linkSpeed topo link ≠ 0) :
    getPathCost topo path ≠ .ok 0 ↔ ∃ link ∈ linksOf path, linkSpeed topo link ≤ referenceBw := by
  rw [getPathCost, ne_eq, getPathCostFrom_eq_ok_iff hjoined, Nat.zero_add, @eq_comm ℕ 0,
    List.sum_eq_zero_iff, not_and]
  constructor
  · intro hpositive
    by_contra hnone
    push Not at hnone
    apply hpositive hspeeds
    intro quotient hquotient
    obtain ⟨link, hlink, rfl⟩ := List.mem_map.mp hquotient
    exact Nat.div_eq_of_lt (hnone link hlink)
  · intro ⟨link, hlink, hslow⟩ _ hzero
    have hquotient : referenceBw / linkSpeed topo link = 0 :=
      hzero _ (List.mem_map_of_mem hlink)
    rcases Nat.div_eq_zero_iff.mp hquotient with hspeed | hfast
    · exact hspeeds link hlink hspeed
    · omega

theorem round_le_round {x y : ℚ} (hle : x ≤ y) : round x ≤ round y := by
  rw [round_eq, round_eq]
  exact Int.floor_le_floor (by linarith)

variable {sumOfPw weight weight' : ℕ} {port port' : Port} {bucket bucket' : Bucket}

theorem bucketFor_eq_ok (h : bucketFor sumOfPw (port, weight) = .ok bucket) :
    sumOfPw ≠ 0 ∧ bucket.weight = round ((1 - weight / sumOfPw) * 10 : ℚ) := by
  rw [bucketFor] at h
  split at h
  · cases h
  · rename_i hsum
    cases h
    exact ⟨hsum, rfl⟩

/-- The weight falls with the cost. -/
theorem bucketFor_antitone (h : bucketFor sumOfPw (port, weight) = .ok bucket)
    (h' : bucketFor sumOfPw (port', weight') = .ok bucket') (hle : weight ≤ weight') :
    bucket'.weight ≤ bucket.weight := by
  obtain ⟨hsum, hweight⟩ := bucketFor_eq_ok h
  obtain ⟨-, hweight'⟩ := bucketFor_eq_ok h'
  rw [hweight, hweight']
  apply round_le_round
  have hcast : (weight : ℚ) ≤ weight' := Nat.cast_le.mpr hle
  have hquotient : (weight : ℚ) / sumOfPw ≤ weight' / sumOfPw := by gcongr
  linarith

/-- A share of the sum has a weight between 0 and 10. -/
theorem bucketFor_bounds (h : bucketFor sumOfPw (port, weight) = .ok bucket)
    (hle : weight ≤ sumOfPw) : 0 ≤ bucket.weight ∧ bucket.weight ≤ 10 := by
  obtain ⟨hsum, hweight⟩ := bucketFor_eq_ok h
  have hpositive : (0 : ℚ) < sumOfPw := Nat.cast_pos.mpr (Nat.pos_of_ne_zero hsum)
  have hlow : (0 : ℚ) ≤ weight / sumOfPw := by positivity
  have hhigh : (weight : ℚ) / sumOfPw ≤ 1 := by
    rw [div_le_one hpositive]
    exact Nat.cast_le.mpr hle
  rw [hweight]
  constructor
  · calc (0 : ℤ) = round (0 : ℚ) := round_zero.symm
      _ ≤ round ((1 - weight / sumOfPw) * 10 : ℚ) := round_le_round (by linarith)
  · calc round ((1 - weight / sumOfPw) * 10 : ℚ) ≤ round (10 : ℚ) := round_le_round (by linarith)
      _ = 10 := round_ofNat 10

/-- Costs and weights of the paths are defined, the weights are between 0 and 10, and the path with
the smaller cost has no smaller weight. -/
def WeightsSound (topo : TopologyState) (paths : List (List Dpid)) : Prop :=
  ∃ pw, paths.mapM (getPathCost topo) = .ok pw ∧
    (∀ weight ∈ pw, ∀ port, ∃ bucket, bucketFor pw.sum (port, weight) = .ok bucket ∧
      0 ≤ bucket.weight ∧ bucket.weight ≤ 10) ∧
    ∀ weight ∈ pw, ∀ weight' ∈ pw, ∀ port port' bucket bucket',
      bucketFor pw.sum (port, weight) = .ok bucket →
      bucketFor pw.sum (port', weight') = .ok bucket' →
      weight ≤ weight' → bucket'.weight ≤ bucket.weight

/-- Weights are sound as soon as the costs are defined and not all zero. -/
theorem weightsSound_iff (hnonempty : paths ≠ []) :
    WeightsSound topo paths ↔
      (∀ path ∈ paths, ∃ cost, getPathCost topo path = .ok cost) ∧
        ∃ path ∈ paths, getPathCost topo path ≠ .ok 0 := by
  constructor
  · intro ⟨pw, hpw, hbuckets, _⟩
    refine ⟨fun path hpath ↦ ?_, (Search.sum_ne_zero_iff hpw).mp ?_⟩
    · obtain ⟨cost, -, hcost⟩ := mapM_ok_of_mem hpw hpath
      exact ⟨cost, hcost⟩
    · obtain ⟨weight, rest, rfl⟩ : ∃ weight rest, pw = weight :: rest := by
        cases mapM_ok hpw with
        | nil => exact absurd rfl hnonempty
        | cons => exact ⟨_, _, rfl⟩
      obtain ⟨bucket, hbucket, -⟩ := hbuckets weight List.mem_cons_self 0
      exact (bucketFor_eq_ok hbucket).1
  · intro ⟨hcosts, hpositive⟩
    obtain ⟨pw, hpw⟩ := mapM_completes hcosts
    have hsum : pw.sum ≠ 0 := (Search.sum_ne_zero_iff hpw).mpr hpositive
    refine ⟨pw, hpw, fun weight hweight port ↦ ?_, fun _ _ _ _ _ _ _ _ ↦ bucketFor_antitone⟩
    obtain ⟨bucket, hbucket⟩ : ∃ bucket, bucketFor pw.sum (port, weight) = .ok bucket :=
      ⟨_, if_neg hsum⟩
    exact ⟨bucket, hbucket, bucketFor_bounds hbucket (List.le_sum_of_mem hweight)⟩

/-- The speed that `u` reported last for its port towards `v`, or the default. -/
def reportedSpeed (adjacency : Dpid → Dpid → Option Port) (replies : List Reply) (u v : Dpid) : ℕ :=
  (adjacency u v).elim 0 (lastSpeed replies u)

theorem portSpeed_afterReplies (u v : Dpid) :
    portSpeed (afterReplies adjacency replies) u v = reportedSpeed adjacency replies u v := by
  rw [portSpeed, reportedSpeed, afterReplies_adjacency, afterReplies_bandwidths]

/-- After any replies, costs and weights of any paths along links are sound exactly when no end of a
link on them has speed zero and some end of some link is not faster than the reference. -/
theorem weights_sound_iff (adjacency : Dpid → Dpid → Option Port) (replies : List Reply)
    (paths : List (List Dpid)) (htwo : 2 ≤ paths.length)
    (hpaths : ∀ path ∈ paths,
      path.IsChain fun u v ↦ adjacency u v ≠ none ∧ adjacency v u ≠ none) :
    WeightsSound (afterReplies adjacency replies) paths ↔
      (∀ path ∈ paths, ∀ link ∈ linksOf path,
        reportedSpeed adjacency replies link.1 link.2 ≠ 0 ∧
          reportedSpeed adjacency replies link.2 link.1 ≠ 0) ∧
        ∃ path ∈ paths, ∃ link ∈ linksOf path,
          reportedSpeed adjacency replies link.1 link.2 ≤ referenceBw ∨
            reportedSpeed adjacency replies link.2 link.1 ≤ referenceBw := by
  have hnonempty : paths ≠ [] := by
    rintro rfl
    exact absurd htwo (by decide)
  have hjoined : ∀ path ∈ paths, path.IsChain (Joined (afterReplies adjacency replies)) := by
    intro path hpath
    apply (hpaths path hpath).imp
    intro u v hlink
    simpa only [Controller.Coherence.Joined, afterReplies_adjacency] using hlink
  have hspeed : ∀ link, linkSpeed (afterReplies adjacency replies) link ≠ 0 ↔
      reportedSpeed adjacency replies link.1 link.2 ≠ 0 ∧
        reportedSpeed adjacency replies link.2 link.1 ≠ 0 := by
    intro link
    rw [linkSpeed, portSpeed_afterReplies, portSpeed_afterReplies]
    omega
  have hslow : ∀ link, linkSpeed (afterReplies adjacency replies) link ≤ referenceBw ↔
      reportedSpeed adjacency replies link.1 link.2 ≤ referenceBw ∨
        reportedSpeed adjacency replies link.2 link.1 ≤ referenceBw := by
    intro link
    rw [linkSpeed, portSpeed_afterReplies, portSpeed_afterReplies, min_le_iff]
  have hdefined : (∀ path ∈ paths, ∃ cost,
      getPathCost (afterReplies adjacency replies) path = .ok cost) ↔
        ∀ path ∈ paths, ∀ link ∈ linksOf path,
          linkSpeed (afterReplies adjacency replies) link ≠ 0 :=
    forall₂_congr fun path hpath ↦ getPathCost_completes_iff (hjoined path hpath)
  simp only [← hspeed, ← hslow]
  rw [weightsSound_iff hnonempty, hdefined]
  apply and_congr_right
  intro hspeeds
  apply exists_congr
  intro path
  apply and_congr_right
  intro hpath
  exact getPathCost_ne_zero_iff (hjoined path hpath) (hspeeds path hpath)

/-- Switches 1, 2 and 3, each linked to the others, on the port with the number of the other. -/
def triangle (u v : Dpid) : Option Port :=
  if u ≠ v ∧ 1 ≤ u ∧ u ≤ 3 ∧ 1 ≤ v ∧ v ≤ 3 then some v else none

/-- The two paths between switches 1 and 3. -/
def trianglePaths : List (List Dpid) := [[1, 3], [1, 2, 3]]

theorem trianglePaths_linked : ∀ path ∈ trianglePaths,
    path.IsChain fun u v ↦ triangle u v ≠ none ∧ triangle v u ≠ none := by
  decide

/-- A slow port of switch 2, all others at the default. -/
theorem weights_sound_slow_port :
    WeightsSound (afterReplies triangle [(2, [(3, 1000000)])]) trianglePaths :=
  (weights_sound_iff triangle _ trianglePaths (by decide) trianglePaths_linked).mpr
    (by decide)

/-- Every port is faster than the reference. -/
def fastReplies : List Reply :=
  [(1, [(2, 40000000), (3, 40000000)]), (2, [(1, 40000000), (3, 40000000)]),
    (3, [(1, 40000000), (2, 40000000)])]

/-- A port that reports speed zero leaves its path without a cost, and a network of fast ports
leaves its paths without weights. -/
theorem weights_not_sound :
    getPathCost (afterReplies triangle [(2, [(3, 0)])]) [1, 2, 3] = .error .zeroDivisionError ∧
      ¬ WeightsSound (afterReplies triangle [(2, [(3, 0)])]) trianglePaths ∧
      trianglePaths.mapM (getPathCost (afterReplies triangle fastReplies)) = .ok [0, 0] ∧
      ¬ WeightsSound (afterReplies triangle fastReplies) trianglePaths := by
  have hundefined : getPathCost (afterReplies triangle [(2, [(3, 0)])]) [1, 2, 3] =
      .error .zeroDivisionError := by rfl
  have hzero : trianglePaths.mapM (getPathCost (afterReplies triangle fastReplies)) =
      .ok [0, 0] := by rfl
  refine ⟨hundefined, ?_, hzero, ?_⟩
  · intro hsound
    obtain ⟨cost, hcost⟩ := ((weightsSound_iff (by decide)).mp hsound).1 [1, 2, 3] (by decide)
    cases hundefined.symm.trans hcost
  · intro hsound
    have hpositive := (Search.sum_ne_zero_iff hzero).mpr
      ((weightsSound_iff (by decide)).mp hsound).2
    exact hpositive rfl

end Wispr.Multipath.Weights
