import Wispr.Multipath.Groups

/-!
# Tables after an installation

What a completed call of `install_paths` leaves at the switches of its paths: the entry for the pair
of addresses sends packets to the ports of one row, the row that the loop over `ports` came to last.
A row with several entries needs a group with a number that the switch accepts: a recorded number
whose group is installed, or the first number drawn if it is legal and free. Where the switch
rejects the group-mod, packets are sent to a group that does not exist.
-/

open Wispr.Foundation.Effects Wispr.Foundation.FlowTable

namespace Wispr.Multipath.Tables

open Controller.Paths Search Groups
open Controller.Install hiding installPaths

/-- Rules of priority 32768 are for pairs of addresses, and installed groups have legal numbers. -/
structure ConsistentAt (network : Network) (node : Dpid) : Prop where
  ipRules : ∀ rule ∈ (network.switches node).flows, rule.priority = 32768 →
    ∃ src dst, rule.condition = matchIp src dst
  legal : ∀ groupId, ((network.switches node).groups groupId).isSome → groupId ≤ ofpgMax

def Consistent (network : Network) : Prop := ∀ node, ConsistentAt network node

/-- The group of the pair at the switch has a number that the switch accepts. -/
structure GroupReady (call : GroupCall) (draws : List ℕ) (network : Network) (node : Dpid) :
    Prop where
  recorded : ∀ groupId, network.multipathGroupIds (node, call.src, call.dst) = some groupId →
    ((network.switches node).groups groupId).isSome
  drawn : network.multipathGroupIds (node, call.src, call.dst) = none →
    ∃ n, draws.head? = some n ∧ n ≤ ofpgMax ∧ (network.switches node).groups n = none

/-- The number of the group is recorded without a group, or it will be. -/
structure GroupBroken (call : GroupCall) (draws : List ℕ) (network : Network) (node : Dpid) :
    Prop where
  recorded : ∀ groupId, network.multipathGroupIds (node, call.src, call.dst) = some groupId →
    (network.switches node).groups groupId = none
  drawn : network.multipathGroupIds (node, call.src, call.dst) = none →
    ∀ n, draws.head? = some n → ofpgMax < n ∧ (network.switches node).groups n = none

/-- The entry for the pair of addresses sends packets to these ports. -/
def Forwards (call : GroupCall) (network : Network) (node : Dpid) (ports : List Port) : Prop :=
  ∃ actions, ⟨32768, matchIp call.ipSrc call.ipDst, actions⟩ ∈ (network.switches node).flows ∧
    (∀ rule ∈ (network.switches node).flows, rule.priority = 32768 →
      rule.condition = matchIp call.ipSrc call.ipDst → rule.actions = actions) ∧
    (network.switches node).outputs actions = ports

/-- The two networks have the same data of a switch. -/
structure SameAt (network network' : Network) (node : Dpid) : Prop where
  switches : network'.switches node = network.switches node
  ids : ∀ src dst, network'.multipathGroupIds (node, src, dst) =
    network.multipathGroupIds (node, src, dst)

variable {call : GroupCall} {network network' network'' : Network} {node : Dpid} {draws : List ℕ}

/-- With a number to draw that is free, the group is ready or broken. -/
theorem ready_or_broken
    (hfree : ∀ n, draws.head? = some n → (network.switches node).groups n = none) :
    GroupReady call draws network node ∨ GroupBroken call draws network node := by
  cases hid : network.multipathGroupIds (node, call.src, call.dst) with
  | some groupId =>
    cases hgroup : (network.switches node).groups groupId with
    | some buckets =>
      refine .inl ⟨?_, by simp [hid]⟩
      intro other hother
      obtain rfl : groupId = other := Option.some.inj (hid.symm.trans hother)
      simp [hgroup]
    | none =>
      refine .inr ⟨?_, by simp [hid]⟩
      intro other hother
      obtain rfl : groupId = other := Option.some.inj (hid.symm.trans hother)
      exact hgroup
  | none =>
    by_cases hlegal : ∃ n, draws.head? = some n ∧ n ≤ ofpgMax
    · obtain ⟨n, hdraw, hle⟩ := hlegal
      exact .inl ⟨by simp [hid], fun _ ↦ ⟨n, hdraw, hle, hfree n hdraw⟩⟩
    · refine .inr ⟨by simp [hid], ?_⟩
      intro _ n hdraw
      exact ⟨not_le.mp fun hle ↦ hlegal ⟨n, hdraw, hle⟩, hfree n hdraw⟩

theorem SameAt.refl (network : Network) (node : Dpid) : SameAt network network node :=
  ⟨rfl, fun _ _ ↦ rfl⟩

theorem SameAt.trans (h : SameAt network network' node) (h' : SameAt network' network'' node) :
    SameAt network network'' node :=
  ⟨h'.switches.trans h.switches, fun src dst ↦ (h'.ids src dst).trans (h.ids src dst)⟩

/-- Whether a group is ready depends on its number and on the groups of the switch. -/
theorem GroupReady.congr (h : GroupReady call draws network node)
    (hid : network'.multipathGroupIds (node, call.src, call.dst) =
      network.multipathGroupIds (node, call.src, call.dst))
    (hgroups : (network'.switches node).groups = (network.switches node).groups) :
    GroupReady call draws network' node := by
  constructor
  · rw [hid, hgroups]
    exact h.recorded
  · rw [hid, hgroups]
    exact h.drawn

theorem GroupBroken.congr (h : GroupBroken call draws network node)
    (hid : network'.multipathGroupIds (node, call.src, call.dst) =
      network.multipathGroupIds (node, call.src, call.dst))
    (hgroups : (network'.switches node).groups = (network.switches node).groups) :
    GroupBroken call draws network' node := by
  constructor
  · rw [hid, hgroups]
    exact h.recorded
  · rw [hid, hgroups]
    exact h.drawn

theorem Forwards.of_same {ports : List Port} (h : Forwards call network node ports)
    (hsame : SameAt network network' node) : Forwards call network' node ports := by
  rw [Forwards, hsame.switches]
  exact h

/-- A group that is ready stays ready, and one that is broken stays broken. -/
structure StatusKept (call : GroupCall) (draws : List ℕ) (network network' : Network)
    (node : Dpid) : Prop where
  ready : GroupReady call draws network node → GroupReady call draws network' node
  broken : GroupBroken call draws network node → GroupBroken call draws network' node

theorem StatusKept.refl (network : Network) : StatusKept call draws network network node :=
  ⟨id, id⟩

theorem StatusKept.trans (h : StatusKept call draws network network' node)
    (h' : StatusKept call draws network' network'' node) :
    StatusKept call draws network network'' node :=
  ⟨h'.ready ∘ h.ready, h'.broken ∘ h.broken⟩

theorem StatusKept.of_same (hsame : SameAt network network' node) :
    StatusKept call draws network network' node where
  ready h := h.congr (hsame.ids _ _) (congrArg SwitchTables.groups hsame.switches)
  broken h := h.congr (hsame.ids _ _) (congrArg SwitchTables.groups hsame.switches)

/-- What the row that comes last leaves behind: packets go to its ports, or nowhere if it needs a
group that is broken. -/
structure RowForwards (call : GroupCall) (draws : List ℕ) (network network' : Network) (node : Dpid)
    (row : List (Port × ℕ)) : Prop where
  forwards : row ≠ [] → (1 < row.length → GroupReady call draws network node) →
    Forwards call network' node (row.map Prod.fst)
  loses : 1 < row.length → GroupBroken call draws network node → Forwards call network' node []

theorem RowForwards.of_status {row : List (Port × ℕ)}
    (h : RowForwards call draws network' network'' node row)
    (hkept : StatusKept call draws network network' node) :
    RowForwards call draws network network'' node row where
  forwards hnonempty hready := h.forwards hnonempty fun hseveral ↦ hkept.ready (hready hseveral)
  loses hseveral hbroken := h.loses hseveral (hkept.broken hbroken)

theorem RowForwards.imp {row : List (Port × ℕ)}
    (h : RowForwards call draws network network' node row)
    (himp : ∀ {ports}, Forwards call network' node ports → Forwards call network'' node ports) :
    RowForwards call draws network network'' node row where
  forwards hnonempty hready := himp (h.forwards hnonempty hready)
  loses hseveral hbroken := himp (h.loses hseveral hbroken)

/-- The rules of a row, added to the table of a switch. -/
def withRow (call : GroupCall) (actions : List Action) (tables : SwitchTables) : SwitchTables :=
  { tables with
    flows := add (add tables.flows ⟨32768, matchIp call.ipSrc call.ipDst, actions⟩)
      ⟨1, matchArp call.ipSrc call.ipDst, actions⟩ }

theorem addFlows_apply {actions : List Action} (hfits : actions.all Action.fits = true) :
    addFlows call node actions network =
      .ok () (network.setTables node (withRow call actions (network.switches node))) := by
  rw [addFlows, bind_apply]
  simp only [addFlow, sendMsg_apply, Message.fits, hfits, setTables_self, setTables_setTables]
  rfl

theorem addFlows_ok {actions : List Action} {value : Unit}
    (h : addFlows call node actions network = .ok value network') :
    network' = network.setTables node (withRow call actions (network.switches node)) := by
  obtain ⟨_, middle, hip, harp⟩ := bind_ok h
  obtain ⟨-, rfl⟩ := sendMsg_ok hip
  obtain ⟨-, rfl⟩ := sendMsg_ok harp
  simp only [setTables_self, setTables_setTables]
  rfl

/-- Rules of priority 32768 after a row: the old ones of other pairs, and the one of the row. -/
theorem mem_withRow {actions : List Action} {tables : SwitchTables} {rule : GroupRule}
    (hpriority : rule.priority = 32768) : rule ∈ (withRow call actions tables).flows ↔
      (rule ∈ tables.flows ∧ rule.condition ≠ matchIp call.ipSrc call.ipDst) ∨
        rule = ⟨32768, matchIp call.ipSrc call.ipDst, actions⟩ := by
  have harp : rule ≠ ⟨1, matchArp call.ipSrc call.ipDst, actions⟩ := by
    rintro rfl
    cases hpriority
  have hentry : ¬ rule.SameEntry ⟨1, matchArp call.ipSrc call.ipDst, actions⟩ := by
    rintro ⟨hother, -⟩
    rw [hpriority] at hother
    cases hother
  simp only [withRow, mem_add, harp, hentry, or_false, not_false_eq_true, and_true]
  simp only [Rule.SameEntry, hpriority, true_and, ne_eq]

/-- With the rules of a row its actions decide. -/
theorem forwards_withRow (call : GroupCall) (actions : List Action) (network : Network)
    (tables : SwitchTables) :
    Forwards call (network.setTables node (withRow call actions tables)) node
      (tables.outputs actions) := by
  refine ⟨actions, ?_, ?_, ?_⟩
  · rw [setTables_self, mem_withRow rfl]
    exact .inr rfl
  · intro rule hrule hpriority hcondition
    rw [setTables_self] at hrule
    rcases (mem_withRow hpriority).mp hrule with ⟨-, hother⟩ | rfl
    · exact absurd hcondition hother
    · rfl
  · rw [setTables_self]
    rfl

theorem bucketFor_ok {sumOfPw : ℕ} (hsum : sumOfPw ≠ 0) (outPorts : List (Port × ℕ)) :
    ∃ buckets, outPorts.mapM (bucketFor sumOfPw) = .ok buckets :=
  mapM_completes fun _ _ ↦ ⟨_, if_neg hsum⟩

/-- The buckets of a row lead to its ports. -/
theorem outPort_buckets {sumOfPw : ℕ} {outPorts : List (Port × ℕ)} {buckets : List Bucket}
    (h : outPorts.mapM (bucketFor sumOfPw) = .ok buckets) :
    buckets.map Bucket.outPort = outPorts.map Prod.fst := by
  have hports : List.Forall₂ (fun entry bucket ↦ entry.1 = bucket.outPort) outPorts buckets := by
    apply (mapM_ok h).imp
    intro entry bucket hbucket
    unfold bucketFor at hbucket
    split at hbucket
    · cases hbucket
    · cases hbucket
      rfl
  rw [← List.forall₂_eq_eq_eq, List.forall₂_map_left_iff, List.forall₂_map_right_iff]
  exact hports.flip.imp fun _ _ h ↦ h.symm

/-- The number of the group of a switch: the recorded one, or the first number drawn. -/
theorem groupIdFor_cases (call : GroupCall) (node : Dpid) (draws : List ℕ) (network : Network) :
    (∃ groupId, network.multipathGroupIds (node, call.src, call.dst) = some groupId ∧
      groupIdFor call node draws network = .ok (groupId, false) network) ∨
    (∃ groupId, draws.head? = some groupId ∧
      network.multipathGroupIds (node, call.src, call.dst) = none ∧
      groupIdFor call node draws network =
        .ok (groupId, true) (network.recordGroup (node, call.src, call.dst) groupId)) ∨
    (draws.head? = none ∧ network.multipathGroupIds (node, call.src, call.dst) = none ∧
      groupIdFor call node draws network = .error .unfinished network) := by
  cases hid : network.multipathGroupIds (node, call.src, call.dst) with
  | some groupId =>
    refine .inl ⟨groupId, rfl, ?_⟩
    simp only [groupIdFor, bind_apply, get_apply, hid, pure_apply]
  | none =>
    cases draws with
    | nil =>
      refine .inr (.inr ⟨rfl, rfl, ?_⟩)
      simp only [groupIdFor, bind_apply, get_apply, hid, generateOpenflowGid, fromExcept]
    | cons n rest =>
      refine .inr (.inl ⟨n, rfl, rfl, ?_⟩)
      simp only [groupIdFor, bind_apply, get_apply, hid, generateOpenflowGid, List.not_mem_nil,
        if_false, fromExcept, modify_apply, pure_apply]

/-- A number found for the group of a switch, and what the switch makes of the group-mod. -/
structure Numbered (call : GroupCall) (draws : List ℕ) (network middle : Network) (node : Dpid)
    (groupId : ℕ) (groupNew : Bool) : Prop where
  switches : middle.switches = network.switches
  recorded : middle.multipathGroupIds (node, call.src, call.dst) = some groupId
  others : ∀ other ≠ node, ∀ src dst, middle.multipathGroupIds (other, src, dst) =
    network.multipathGroupIds (other, src, dst)
  accepted : GroupReady call draws network node → ∀ buckets,
    (network.switches node).receive (.groupMod (if groupNew then .add else .modify) groupId
        buckets) =
      ⟨(network.switches node).flows,
        Function.update (network.switches node).groups groupId (some buckets)⟩
  rejected : GroupBroken call draws network node → (network.switches node).groups groupId = none ∧
    ∀ buckets, (network.switches node).receive
      (.groupMod (if groupNew then .add else .modify) groupId buckets) = network.switches node

theorem groupIdFor_numbered {groupId : ℕ} {groupNew : Bool} {middle : Network}
    (h : groupIdFor call node draws network = .ok (groupId, groupNew) middle) :
    Numbered call draws network middle node groupId groupNew := by
  rcases groupIdFor_cases call node draws network with
    ⟨found, hid, hfound⟩ | ⟨found, hdraw, hid, hfound⟩ | ⟨-, -, hfound⟩
  · cases h.symm.trans hfound
    refine ⟨rfl, hid, fun _ _ _ _ ↦ rfl, ?_, ?_⟩
    · intro hready buckets
      exact if_pos (hready.recorded _ hid)
    · intro hbroken
      have hmissing := hbroken.recorded _ hid
      exact ⟨hmissing, fun buckets ↦ if_neg (by simp [hmissing])⟩
  · cases h.symm.trans hfound
    refine ⟨rfl, Function.update_self .., ?_, ?_, ?_⟩
    · intro other hother src dst
      exact Function.update_of_ne (by simp [hother]) ..
    · intro hready buckets
      obtain ⟨n, hn, hle, hfree⟩ := hready.drawn hid
      obtain rfl : groupId = n := Option.some.inj (hdraw.symm.trans hn)
      exact if_pos ⟨hle, hfree⟩
    · intro hbroken
      obtain ⟨hillegal, hmissing⟩ := hbroken.drawn hid _ hdraw
      refine ⟨hmissing, fun buckets ↦ if_neg ?_⟩
      exact fun haccepted ↦ absurd haccepted.1 (not_le.mpr hillegal)
  · cases h.symm.trans hfound

/-- What one row leaves behind. -/
structure RowEffect (call : GroupCall) (draws : List ℕ) (network network' : Network) (node : Dpid)
    (row : List (Port × ℕ)) : Prop where
  status : StatusKept call draws network network' node
  last : RowForwards call draws network network' node row
  others : ∀ other ≠ node, SameAt network network' other

/-- A row with one entry changes the rules only. -/
theorem rowEffect_single (outPort : Port) (weight : ℕ) :
    RowEffect call draws network
      (network.setTables node (withRow call [.output outPort] (network.switches node))) node
      [(outPort, weight)] where
  status := by
    have hgroups : ((network.setTables node (withRow call [.output outPort]
        (network.switches node))).switches node).groups = (network.switches node).groups := by
      rw [setTables_self]
      rfl
    exact ⟨fun h ↦ h.congr rfl hgroups, fun h ↦ h.congr rfl hgroups⟩
  last := ⟨fun _ _ ↦ forwards_withRow call [.output outPort] network _, by simp⟩
  others other hother := ⟨setTables_of_ne _ _ hother, fun _ _ ↦ rfl⟩

/-- The tables of a switch after a row with several entries. -/
def withGroup (call : GroupCall) (groupId : ℕ) (groupNew : Bool) (buckets : List Bucket)
    (tables : SwitchTables) : SwitchTables :=
  withRow call [.group groupId]
    (tables.receive (.groupMod (if groupNew then .add else .modify) groupId buckets))

/-- A row with several entries changes its group, if the switch accepts that. -/
theorem rowEffect_group {groupId : ℕ} {groupNew : Bool} {buckets : List Bucket} {middle : Network}
    {row : List (Port × ℕ)} (hports : buckets.map Bucket.outPort = row.map Prod.fst)
    (hseveral : 1 < row.length)
    (hnumbered : Numbered call draws network middle node groupId groupNew) :
    RowEffect call draws network
      (middle.setTables node (withGroup call groupId groupNew buckets (network.switches node)))
      node row := by
  have hforwards := @forwards_withRow node call [.group groupId] middle
    ((network.switches node).receive (.groupMod (if groupNew then .add else .modify) groupId
      buckets))
  refine ⟨⟨?_, ?_⟩, ⟨?_, ?_⟩, ?_⟩
  · intro hready
    constructor
    · intro other hother
      obtain rfl : groupId = other := Option.some.inj (hnumbered.recorded.symm.trans hother)
      rw [setTables_self, withGroup, hnumbered.accepted hready buckets]
      simp [withRow]
    · intro hnone
      cases hnumbered.recorded.symm.trans hnone
  · intro hbroken
    obtain ⟨hmissing, hrejected⟩ := hnumbered.rejected hbroken
    constructor
    · intro other hother
      obtain rfl : groupId = other := Option.some.inj (hnumbered.recorded.symm.trans hother)
      rw [setTables_self, withGroup, hrejected buckets]
      exact hmissing
    · intro hnone
      cases hnumbered.recorded.symm.trans hnone
  · intro _ hready
    rw [hnumbered.accepted (hready hseveral) buckets] at hforwards
    rw [withGroup, hnumbered.accepted (hready hseveral) buckets]
    simpa [SwitchTables.outputs, hports] using hforwards
  · intro _ hbroken
    obtain ⟨hmissing, hrejected⟩ := hnumbered.rejected hbroken
    rw [hrejected buckets] at hforwards
    rw [withGroup, hrejected buckets]
    simpa [SwitchTables.outputs, hmissing] using hforwards
  · intro other hother
    refine ⟨?_, hnumbered.others other hother⟩
    rw [setTables_of_ne _ _ hother, hnumbered.switches]

theorem installRow_several (call : GroupCall) (sumOfPw : ℕ) (node : Dpid) (draws : List ℕ)
    (first second : Port × ℕ) (rest : List (Port × ℕ)) :
    installRow call sumOfPw node draws (first :: second :: rest) = (do
      let (groupId, groupNew) ← groupIdFor call node draws
      let buckets ← fromExcept ((first :: second :: rest).mapM (bucketFor sumOfPw))
      sendMsg node (.groupMod (if groupNew then .add else .modify) groupId buckets)
      addFlows call node [.group groupId]) := rfl

/-- A row that has been installed. -/
theorem installRow_effect {sumOfPw : ℕ} {row : List (Port × ℕ)}
    (h : installRow call sumOfPw node draws row network = .ok () network') :
    RowEffect call draws network network' node row := by
  match row with
  | [] =>
    cases h
    exact ⟨.refl network, ⟨fun hempty ↦ absurd rfl hempty, by simp⟩,
      fun other _ ↦ .refl network other⟩
  | [(outPort, weight)] =>
    rw [addFlows_ok h]
    exact rowEffect_single outPort weight
  | first :: second :: rest =>
    rw [installRow_several] at h
    obtain ⟨⟨groupId, groupNew⟩, middle, hgroup, hafterGroup⟩ := bind_ok h
    obtain ⟨buckets, kept, hbuckets, hafterBuckets⟩ := bind_ok hafterGroup
    obtain ⟨_, sent, hsent, hflows⟩ := bind_ok hafterBuckets
    obtain ⟨hcomputed, rfl⟩ := fromExcept_ok hbuckets
    obtain ⟨-, rfl⟩ := sendMsg_ok hsent
    have hnumbered := groupIdFor_numbered hgroup
    rw [addFlows_ok hflows, setTables_self, setTables_setTables, hnumbered.switches]
    exact rowEffect_group (outPort_buckets hcomputed) (by simp) hnumbered

/-- A row with several entries, a positive sum of costs and a group that is ready is installed, and
so is every other row. -/
theorem installRow_completes {sumOfPw : ℕ} {row : List (Port × ℕ)}
    (hconsistent : ConsistentAt network node) (hsum : 1 < row.length → sumOfPw ≠ 0)
    (hready : 1 < row.length → GroupReady call draws network node) :
    ∃ network', installRow call sumOfPw node draws row network = .ok () network' := by
  match row, hsum, hready with
  | [], _, _ => exact ⟨network, rfl⟩
  | [(outPort, weight)], _, _ => exact ⟨_, addFlows_apply (by rfl)⟩
  | first :: second :: rest, hsum, hready =>
    have hready := hready (by simp)
    obtain ⟨buckets, hbuckets⟩ := bucketFor_ok (hsum (by simp)) (first :: second :: rest)
    obtain ⟨groupId, groupNew, middle, hlegal, hgroup⟩ : ∃ groupId groupNew middle,
        groupId ≤ ofpgMax ∧
          groupIdFor call node draws network = .ok (groupId, groupNew) middle := by
      rcases groupIdFor_cases call node draws network with
        ⟨groupId, hid, hgroup⟩ | ⟨groupId, hdraw, hid, hgroup⟩ | ⟨hdraw, hid, -⟩
      · exact ⟨_, _, _, hconsistent.legal _ (hready.recorded _ hid), hgroup⟩
      · obtain ⟨n, hn, hle, -⟩ := hready.drawn hid
        obtain rfl : groupId = n := Option.some.inj (hdraw.symm.trans hn)
        exact ⟨_, _, _, hle, hgroup⟩
      · obtain ⟨n, hn, -⟩ := hready.drawn hid
        cases hdraw.symm.trans hn
    have hfits : groupId < 2 ^ 32 := lt_of_le_of_lt hlegal (by decide)
    have hsend := @sendMsg_apply middle node
      (.groupMod (if groupNew then .add else .modify) groupId buckets)
      (by simpa [Message.fits] using hfits)
    have hrow : installRow call sumOfPw node draws (first :: second :: rest) network =
        addFlows call node [.group groupId] (middle.setTables node
          ((middle.switches node).receive
            (.groupMod (if groupNew then .add else .modify) groupId buckets))) := by
      simp only [installRow_several, bind_apply, hgroup, fromExcept, hbuckets, hsend]
    exact ⟨_, hrow.trans (addFlows_apply (by simpa [Action.fits] using hfits))⟩

/-- A row with several entries divides by the sum of costs. -/
theorem sum_ne_zero_of_installRow {sumOfPw : ℕ} {outPorts : List (Port × ℕ)}
    (h : installRow call sumOfPw node draws outPorts network = .ok () network')
    (hseveral : 1 < outPorts.length) : sumOfPw ≠ 0 := by
  match outPorts, hseveral with
  | first :: second :: rest, _ =>
    rw [installRow_several] at h
    obtain ⟨_, middle, _, h⟩ := bind_ok h
    obtain ⟨buckets, _, hbuckets, _⟩ := bind_ok h
    intro hzero
    have hresult := (fromExcept_ok hbuckets).1
    have hfirst : bucketFor sumOfPw first = .error .zeroDivisionError := if_pos hzero
    rw [List.mapM_cons, hfirst] at hresult
    cases hresult

/-- What the rows of a switch leave behind: the last row decides. -/
structure RowsEffect (call : GroupCall) (draws : List ℕ) (network network' : Network) (node : Dpid)
    (rows : PortRows) : Prop where
  status : StatusKept call draws network network' node
  last : ∀ row, rows.getLast? = some row → RowForwards call draws network network' node row.2
  others : ∀ other ≠ node, SameAt network network' other

theorem installRows_effect {sumOfPw : ℕ} {rows : PortRows}
    (h : installRows call sumOfPw node draws rows network = .ok () network') :
    RowsEffect call draws network network' node rows := by
  induction rows generalizing network with
  | nil =>
    cases h
    exact ⟨.refl _, by simp, fun other _ ↦ .refl _ other⟩
  | cons row rest ih =>
    obtain ⟨_, middle, hrow, hrest⟩ := bind_ok h
    have heffect := installRow_effect hrow
    have hlater := ih hrest
    refine ⟨heffect.status.trans hlater.status, ?_, ?_⟩
    · intro last hlast
      cases rest with
      | nil =>
        obtain rfl : row = last := by simpa using hlast
        cases hrest
        exact heffect.last
      | cons second rest =>
        exact (hlater.last last (by simpa using hlast)).of_status heffect.status
    · intro other hother
      exact (heffect.others other hother).trans (hlater.others other hother)

theorem sum_ne_zero_of_installRows {sumOfPw : ℕ} {rows : PortRows}
    (h : installRows call sumOfPw node draws rows network = .ok () network') :
    ∀ row ∈ rows, 1 < row.2.length → sumOfPw ≠ 0 := by
  induction rows generalizing network with
  | nil => simp
  | cons row rest ih =>
    obtain ⟨_, middle, hrow, hrest⟩ := bind_ok h
    intro other hother
    rcases List.mem_cons.mp hother with rfl | hlater
    · exact sum_ne_zero_of_installRow hrow
    · exact ih hrest other hlater

def ConsistentKept (network network' : Network) : Prop := Consistent network → Consistent network'

theorem ConsistentKept.refl (network : Network) : ConsistentKept network network := id

theorem ConsistentKept.trans (network network' network'' : Network)
    (h : ConsistentKept network network') (h' : ConsistentKept network' network'') :
    ConsistentKept network network'' := h' ∘ h

/-- A method after which a consistent network is consistent. -/
abbrev KeepsConsistent {α : Type} (method : Method α) : Prop := Relates ConsistentKept method

section KeepsConsistent

variable {α β : Type}

theorem KeepsConsistent.bind {first : Method α} {next : α → Method β}
    (hfirst : KeepsConsistent first) (hnext : ∀ value, KeepsConsistent (next value)) :
    KeepsConsistent (first >>= next) :=
  Relates.bind ConsistentKept.trans hfirst hnext

theorem keepsConsistent_fromExcept (result : Except PyExc α) :
    KeepsConsistent (fromExcept result) := relates_fromExcept ConsistentKept.refl result

theorem consistent_init : Consistent .init := by
  intro node
  refine ⟨?_, ?_⟩
  · intro rule hrule hpriority
    simp only [Network.init, List.mem_singleton] at hrule
    rw [hrule] at hpriority
    cases hpriority
  · intro groupId hinstalled
    cases hinstalled

/-- A group is added with a legal number only. -/
theorem legal_receive {tables : SwitchTables} {message : Message}
    (h : ∀ groupId, (tables.groups groupId).isSome → groupId ≤ ofpgMax) (groupId : ℕ)
    (hinstalled : ((tables.receive message).groups groupId).isSome) : groupId ≤ ofpgMax := by
  by_cases hold : (tables.groups groupId).isSome
  · exact h groupId hold
  cases message with
  | flowMod rule => exact absurd hinstalled hold
  | groupMod command added buckets =>
    cases command with
    | add =>
      simp only [SwitchTables.receive] at hinstalled
      split at hinstalled
      · rename_i haccepted
        by_cases hsame : groupId = added
        · exact hsame ▸ haccepted.1
        · simp only [Function.update_of_ne hsame] at hinstalled
          exact absurd hinstalled hold
      · exact absurd hinstalled hold
    | modify =>
      simp only [SwitchTables.receive] at hinstalled
      split at hinstalled
      · rename_i haccepted
        by_cases hsame : groupId = added
        · exact h groupId (hsame ▸ haccepted)
        · simp only [Function.update_of_ne hsame] at hinstalled
          exact absurd hinstalled hold
      · exact absurd hinstalled hold

/-- A rule of priority 32768 is for a pair of addresses. -/
def IpOnly (message : Message) : Prop :=
  ∀ rule, message = .flowMod rule → rule.priority = 32768 →
    ∃ src dst, rule.condition = matchIp src dst

theorem mem_flows_receive {tables : SwitchTables} {message : Message} {rule : GroupRule}
    (h : rule ∈ (tables.receive message).flows) :
    rule ∈ tables.flows ∨ message = .flowMod rule := by
  cases message with
  | flowMod added =>
    rcases mem_add.mp h with ⟨hold, -⟩ | rfl
    · exact .inl hold
    · exact .inr rfl
  | groupMod command groupId buckets =>
    left
    cases command with
    | add =>
      simp only [SwitchTables.receive] at h
      split at h
      · exact h
      · exact h
    | modify =>
      simp only [SwitchTables.receive] at h
      split at h
      · exact h
      · exact h

theorem keepsConsistent_sendMsg {message : Message} (hip : IpOnly message) :
    KeepsConsistent (sendMsg node message) := by
  apply relates_sendMsg ConsistentKept.refl
  intro network hconsistent other
  by_cases hother : other = node
  · subst hother
    constructor
    · intro rule hrule hpriority
      rw [setTables_self] at hrule
      rcases mem_flows_receive hrule with hold | rfl
      · exact (hconsistent other).ipRules rule hold hpriority
      · exact hip rule rfl hpriority
    · rw [setTables_self]
      exact legal_receive (hconsistent other).legal
  · constructor
    · rw [setTables_of_ne _ _ hother]
      exact (hconsistent other).ipRules
    · rw [setTables_of_ne _ _ hother]
      exact (hconsistent other).legal

theorem keepsConsistent_addFlows (call : GroupCall) (node : Dpid) (actions : List Action) :
    KeepsConsistent (addFlows call node actions) := by
  apply KeepsConsistent.bind
  · apply keepsConsistent_sendMsg
    rintro rule ⟨⟩ -
    exact ⟨call.ipSrc, call.ipDst, rfl⟩
  · intro _
    apply keepsConsistent_sendMsg
    rintro rule ⟨⟩ hpriority
    cases hpriority

theorem keepsConsistent_groupIdFor (call : GroupCall) (node : Dpid) (draws : List ℕ) :
    KeepsConsistent (groupIdFor call node draws) := by
  intro network hconsistent
  rcases groupIdFor_cases call node draws network with
    ⟨_, -, hgroup⟩ | ⟨_, -, -, hgroup⟩ | ⟨-, -, hgroup⟩
  · rw [hgroup]
    exact hconsistent
  · rw [hgroup]
    exact fun node ↦ ⟨(hconsistent node).ipRules, (hconsistent node).legal⟩
  · rw [hgroup]
    exact hconsistent

theorem keepsConsistent_installRow (call : GroupCall) (sumOfPw : ℕ) (node : Dpid) (draws : List ℕ)
    (row : List (Port × ℕ)) : KeepsConsistent (installRow call sumOfPw node draws row) := by
  match row with
  | [] => exact relates_pure ConsistentKept.refl ()
  | [_] => exact keepsConsistent_addFlows call node _
  | _ :: _ :: _ =>
    rw [installRow_several]
    refine (keepsConsistent_groupIdFor call node draws).bind fun _ ↦ ?_
    refine (keepsConsistent_fromExcept _).bind fun _ ↦ ?_
    refine (keepsConsistent_sendMsg ?_).bind fun _ ↦ keepsConsistent_addFlows call node _
    rintro rule ⟨⟩

theorem keepsConsistent_installRows (call : GroupCall) (sumOfPw : ℕ) (node : Dpid)
    (draws : List ℕ) (rows : PortRows) :
    KeepsConsistent (installRows call sumOfPw node draws rows) := by
  induction rows with
  | nil => exact relates_pure ConsistentKept.refl ()
  | cons row rest ih =>
    exact (keepsConsistent_installRow call sumOfPw node draws row.2).bind fun _ ↦ ih

theorem keepsConsistent_installSwitches (topo : TopologyState) (orders : Orders)
    (draws : Dpid → List ℕ) (call : GroupCall) (sumOfPw : ℕ) (weighted : List (PathPorts × ℕ))
    (nodes : List Dpid) :
    KeepsConsistent (installSwitches topo orders draws call sumOfPw weighted nodes) := by
  induction nodes with
  | nil => exact relates_pure ConsistentKept.refl ()
  | cons node rest ih =>
    refine (keepsConsistent_fromExcept _).bind fun _ ↦ ?_
    exact (keepsConsistent_installRows call sumOfPw node (draws node) _).bind fun _ ↦ ih

theorem vlanRules_priority {vlan : ℕ} {inPort outPort : Port} :
    ∀ rule ∈ vlanRules call vlan node inPort outPort, rule.priority ≠ 32768 := by
  intro rule hrule
  unfold vlanRules at hrule
  split at hrule
  · simp only [List.mem_cons, List.not_mem_nil, or_false] at hrule
    rcases hrule with rfl | rfl
    · simp
    · simp
  · split at hrule
    · simp only [List.mem_cons, List.not_mem_nil, or_false] at hrule
      rcases hrule with rfl | rfl
      · simp
      · simp
    · rw [List.mem_singleton.mp hrule]
      simp

theorem keepsConsistent_installVlans (topo : TopologyState) (orders : Orders) (call : GroupCall)
    (vlan : ℕ) (paths : List PathPorts) :
    KeepsConsistent (installVlans topo orders call vlan paths) := by
  apply relates_installVlans ConsistentKept.refl ConsistentKept.trans
  intro vlan node inPort outPort rule hrule
  apply keepsConsistent_sendMsg
  rintro other ⟨⟩ hpriority
  exact absurd hpriority (vlanRules_priority rule hrule)

theorem keepsConsistent_installPaths (topo : TopologyState) (order : SetOrder) (fuel : ℕ)
    (orders : Orders) (draws : Dpid → List ℕ) (call : GroupCall) :
    KeepsConsistent (installPaths topo order fuel orders draws call) := by
  refine (keepsConsistent_fromExcept _).bind fun paths ↦ ?_
  refine (keepsConsistent_fromExcept _).bind fun pw ↦ ?_
  refine (keepsConsistent_fromExcept _).bind fun pathsWithPorts ↦ ?_
  refine (keepsConsistent_installSwitches topo orders draws call _ _ _).bind fun _ ↦ ?_
  refine (keepsConsistent_installVlans topo orders call _ _).bind fun _ ↦ ?_
  exact keepsConsistent_fromExcept _

theorem consistent_of_installPaths {topo : TopologyState} {order : SetOrder} {fuel : ℕ}
    {orders : Orders} {draws : Dpid → List ℕ} {outPort : Port} (hconsistent : Consistent network)
    (h : installPaths topo order fuel orders draws call network = .ok outPort network') :
    Consistent network' := by
  have hafter := keepsConsistent_installPaths topo order fuel orders draws call network hconsistent
  rwa [h] at hafter

/-- After any calls, completed or not, the network is consistent. -/
theorem consistent_afterCalls (invocations : List Invocation) :
    Consistent (afterCalls .init invocations) := by
  induction invocations using List.reverseRecOn with
  | nil => exact consistent_init
  | append_singleton earlier invocation ih =>
    rw [afterCalls, List.foldl_append, List.foldl_cons, List.foldl_nil]
    exact keepsConsistent_installPaths _ _ _ _ _ _ _ ih

end KeepsConsistent

/-- What a completed method leaves. -/
theorem KeepsConsistent.of_ok {α : Type} {method : Method α} {value : α}
    (h : KeepsConsistent method) (hok : method network = .ok value network')
    (hconsistent : Consistent network) : Consistent network' := by
  have hafter := h network hconsistent
  rwa [hok] at hafter

/-- Rows that can be installed: a row with several entries has a positive sum of costs to divide
by. -/
def Installable (sumOfPw : ℕ) (rows : PortRows) : Prop :=
  ∀ row ∈ rows, 1 < row.2.length → sumOfPw ≠ 0

theorem installRows_completes {sumOfPw : ℕ} {rows : PortRows} (hconsistent : Consistent network)
    (hrows : Installable sumOfPw rows)
    (hready : (∃ row ∈ rows, 1 < row.2.length) → GroupReady call draws network node) :
    ∃ network', installRows call sumOfPw node draws rows network = .ok () network' := by
  induction rows generalizing network with
  | nil => exact ⟨network, rfl⟩
  | cons row rest ih =>
    obtain ⟨middle, hrow⟩ := installRow_completes (hconsistent node)
      (hrows row (List.mem_cons_self ..))
      fun hseveral ↦ hready ⟨row, List.mem_cons_self .., hseveral⟩
    have hmiddle := (keepsConsistent_installRow call sumOfPw node draws row.2).of_ok hrow
      hconsistent
    obtain ⟨network', hrest⟩ := ih hmiddle
      (fun other hother ↦ hrows other (List.mem_cons_of_mem _ hother))
      (by
        rintro ⟨other, hother, hseveral⟩
        apply (installRow_effect hrow).status.ready
        exact hready ⟨other, List.mem_cons_of_mem _ hother, hseveral⟩)
    exact ⟨network', by simp only [installRows, bind_apply, hrow, hrest]⟩

/-! ## All switches -/

section Switches

variable {topo : TopologyState} {orders : Orders} {draws : Dpid → List ℕ} {sumOfPw : ℕ}
  {weighted : List (PathPorts × ℕ)} {nodes : List Dpid}

theorem datapathOf_apply (hknown : node ∈ topo.datapathList) :
    datapathOf topo node network = .ok () network := by
  simp [datapathOf, datapath, hknown, fromExcept]

theorem known_of_datapathOf {value : Unit} (h : datapathOf topo node network = .ok value network') :
    node ∈ topo.datapathList ∧ network' = network := by
  obtain ⟨hresult, hsame⟩ := fromExcept_ok h
  refine ⟨?_, hsame⟩
  by_contra hunknown
  rw [datapath, if_neg hunknown] at hresult
  cases hresult

/-- The rows of a switch, in the order in which the loop comes to them. -/
def rowsOf (orders : Orders) (weighted : List (PathPorts × ℕ)) (node : Dpid) : PortRows :=
  orders.rows node (nodePorts node weighted)

/-- What the loop over the switches leaves behind: every switch is known and has divided by a
positive sum where it had to, and its last row decides. -/
structure SwitchesEffect (topo : TopologyState) (orders : Orders) (draws : Dpid → List ℕ)
    (call : GroupCall) (sumOfPw : ℕ) (weighted : List (PathPorts × ℕ)) (nodes : List Dpid)
    (network network' : Network) : Prop where
  known : ∀ node ∈ nodes, node ∈ topo.datapathList
  installable : ∀ node ∈ nodes, Installable sumOfPw (rowsOf orders weighted node)
  last : ∀ node ∈ nodes, ∀ row, (rowsOf orders weighted node).getLast? = some row →
    RowForwards call (draws node) network network' node row.2
  others : ∀ node ∉ nodes, SameAt network network' node

theorem installSwitches_effect
    (h : installSwitches topo orders draws call sumOfPw weighted nodes network =
      .ok () network') :
    SwitchesEffect topo orders draws call sumOfPw weighted nodes network network' := by
  induction nodes generalizing network with
  | nil =>
    cases h
    exact ⟨by simp, by simp, by simp, fun node _ ↦ .refl _ node⟩
  | cons node rest ih =>
    obtain ⟨_, found, hdatapath, hswitch⟩ := bind_ok h
    obtain ⟨hknown, rfl⟩ := known_of_datapathOf hdatapath
    obtain ⟨_, middle, hrows, hrest⟩ := bind_ok hswitch
    have heffect := installRows_effect hrows
    have hlater := ih hrest
    refine ⟨?_, ?_, ?_, ?_⟩
    · intro other hother
      rcases List.mem_cons.mp hother with rfl | hmem
      · exact hknown
      · exact hlater.known other hmem
    · intro other hother
      rcases List.mem_cons.mp hother with rfl | hmem
      · exact sum_ne_zero_of_installRows hrows
      · exact hlater.installable other hmem
    · intro other hother row hrow
      have hkept : StatusKept call (draws other) found middle other := by
        by_cases hsame : other = node
        · exact hsame ▸ heffect.status
        · exact .of_same (heffect.others other hsame)
      by_cases hmem : other ∈ rest
      · exact (hlater.last other hmem row hrow).of_status hkept
      · obtain rfl : other = node := (List.mem_cons.mp hother).resolve_right hmem
        exact (heffect.last row hrow).imp fun h ↦ h.of_same (hlater.others other hmem)
    · intro other hother
      rw [List.mem_cons, not_or] at hother
      exact (heffect.others other hother.1).trans (hlater.others other hother.2)

theorem installSwitches_completes (hconsistent : Consistent network)
    (hknown : ∀ node ∈ nodes, node ∈ topo.datapathList)
    (hrows : ∀ node ∈ nodes, Installable sumOfPw (rowsOf orders weighted node))
    (hready : ∀ node ∈ nodes, (∃ row ∈ rowsOf orders weighted node, 1 < row.2.length) →
      GroupReady call (draws node) network node) :
    ∃ network', installSwitches topo orders draws call sumOfPw weighted nodes network =
      .ok () network' := by
  induction nodes generalizing network with
  | nil => exact ⟨network, rfl⟩
  | cons node rest ih =>
    obtain ⟨middle, hinstall⟩ := installRows_completes hconsistent
      (hrows node (List.mem_cons_self ..)) (hready node (List.mem_cons_self ..))
    have heffect := installRows_effect hinstall
    have hmiddle := (keepsConsistent_installRows call sumOfPw node (draws node) _).of_ok hinstall
      hconsistent
    obtain ⟨network', hrest⟩ := ih hmiddle
      (fun other hother ↦ hknown other (List.mem_cons_of_mem _ hother))
      (fun other hother ↦ hrows other (List.mem_cons_of_mem _ hother))
      (by
        intro other hother hseveral
        have hbefore := hready other (List.mem_cons_of_mem _ hother) hseveral
        by_cases hsame : other = node
        · subst hsame
          exact heffect.status.ready hbefore
        · exact (StatusKept.of_same (heffect.others other hsame)).ready hbefore)
    have hdatapath := @datapathOf_apply network node topo (hknown node (List.mem_cons_self ..))
    refine ⟨network', ?_⟩
    rw [rowsOf] at hinstall
    simp only [installSwitches, bind_apply, hdatapath, hinstall, hrest]

end Switches

/-- The networks agree on groups and on rules of priority 32768. -/
structure KeepsIp (network network' : Network) : Prop where
  groups : ∀ node, (network'.switches node).groups = (network.switches node).groups
  rules : ∀ node rule, rule.priority = 32768 →
    (rule ∈ (network'.switches node).flows ↔ rule ∈ (network.switches node).flows)

theorem KeepsIp.refl (network : Network) : KeepsIp network network :=
  ⟨fun _ ↦ rfl, fun _ _ _ ↦ .rfl⟩

theorem KeepsIp.trans (h : KeepsIp network network') (h' : KeepsIp network' network'') :
    KeepsIp network network'' := by
  refine ⟨fun node ↦ (h'.groups node).trans (h.groups node), ?_⟩
  intro node rule hpriority
  exact (h'.rules node rule hpriority).trans (h.rules node rule hpriority)

theorem Forwards.of_keeps {ports : List Port} (h : Forwards call network node ports)
    (hkeeps : KeepsIp network network') : Forwards call network' node ports := by
  obtain ⟨actions, hmem, honly, houtputs⟩ := h
  refine ⟨actions, (hkeeps.rules node _ rfl).mpr hmem, ?_, ?_⟩
  · intro rule hrule hpriority
    exact honly rule ((hkeeps.rules node rule hpriority).mp hrule) hpriority
  · rw [← houtputs, SwitchTables.outputs, SwitchTables.outputs, hkeeps.groups]

/-- A rule of another priority leaves those of priority 32768 alone. -/
theorem keepsIp_addFlow {rule : GroupRule} (hpriority : rule.priority ≠ 32768) :
    Relates KeepsIp (addFlow node rule.priority rule.condition rule.actions) := by
  apply relates_sendMsg KeepsIp.refl
  intro network
  refine ⟨?_, ?_⟩
  · intro other
    by_cases hother : other = node
    · rw [hother, setTables_self]
      rfl
    · rw [setTables_of_ne _ _ hother]
  · intro other kept hkept
    by_cases hother : other = node
    · rw [hother, setTables_self]
      simp only [SwitchTables.receive, mem_add]
      have hdiffer : kept.priority ≠ rule.priority := fun hsame ↦ hpriority (hsame ▸ hkept)
      constructor
      · rintro (⟨hold, -⟩ | rfl)
        · exact hold
        · exact absurd rfl hdiffer
      · exact fun hold ↦ .inl ⟨hold, fun hentry ↦ hdiffer hentry.1⟩
    · rw [setTables_of_ne _ _ hother]

theorem keepsIp_installVlans (topo : TopologyState) (orders : Orders) (call : GroupCall)
    (vlan : ℕ) (paths : List PathPorts) :
    Relates KeepsIp (installVlans topo orders call vlan paths) :=
  relates_installVlans KeepsIp.refl (fun _ _ _ ↦ KeepsIp.trans)
    (fun _ _ _ _ rule hrule ↦ keepsIp_addFlow (vlanRules_priority rule hrule)) vlan paths

section SecondLoop

variable {topo : TopologyState} {orders : Orders}

theorem vlanRules_fits {vlan : ℕ} {inPort outPort : Port} :
    ∀ rule ∈ vlanRules call vlan node inPort outPort, rule.actions.all Action.fits = true := by
  intro rule hrule
  unfold vlanRules at hrule
  split at hrule
  · simp only [List.mem_cons, List.not_mem_nil, or_false] at hrule
    rcases hrule with rfl | rfl
    · rfl
    · rfl
  · split at hrule
    · simp only [List.mem_cons, List.not_mem_nil, or_false] at hrule
      rcases hrule with rfl | rfl
      · rfl
      · rfl
    · rw [List.mem_singleton.mp hrule]
      rfl

theorem addRules_completes {rules : List GroupRule}
    (h : ∀ rule ∈ rules, rule.actions.all Action.fits = true) :
    ∃ network', addRules node rules network = .ok () network' := by
  induction rules generalizing network with
  | nil => exact ⟨network, rfl⟩
  | cons rule rest ih =>
    have hrule := @sendMsg_apply network node (.flowMod rule) (h rule (List.mem_cons_self ..))
    obtain ⟨network', hrest⟩ := @ih
      (network.setTables node ((network.switches node).receive (.flowMod rule)))
      fun other hother ↦ h other (List.mem_cons_of_mem _ hother)
    exact ⟨network', by simp only [addRules, bind_apply, addFlow, hrule, hrest]⟩

theorem installVlanPath_completes {vlan : ℕ} {path : PathPorts}
    (hknown : ∀ item ∈ path, item.1 ∈ topo.datapathList) :
    ∃ network', installVlanPath topo call vlan path network = .ok () network' := by
  induction path generalizing network with
  | nil => exact ⟨network, rfl⟩
  | cons item rest ih =>
    obtain ⟨node, inPort, outPort⟩ := item
    obtain ⟨middle, hrules⟩ := @addRules_completes network node
      (vlanRules call vlan node inPort outPort) vlanRules_fits
    obtain ⟨network', hrest⟩ := @ih middle fun other hother ↦
      hknown other (List.mem_cons_of_mem _ hother)
    have hdatapath := @datapathOf_apply network node topo (hknown _ (List.mem_cons_self ..))
    exact ⟨network', by simp only [installVlanPath, bind_apply, hdatapath, hrules, hrest]⟩

theorem installVlans_completes {vlan : ℕ} {paths : List PathPorts}
    (hknown : ∀ path ∈ paths, ∀ item ∈ path, item.1 ∈ topo.datapathList) :
    ∃ network', installVlans topo orders call vlan paths network = .ok () network' := by
  induction paths generalizing network vlan with
  | nil => exact ⟨network, rfl⟩
  | cons path rest ih =>
    have hitems : ∀ item ∈ orders.items path, item.1 ∈ topo.datapathList := by
      intro item hitem
      exact hknown path (List.mem_cons_self ..) item ((orders.items_perm path).mem_iff.mp hitem)
    obtain ⟨middle, hpath⟩ := @installVlanPath_completes call network topo vlan _ hitems
    obtain ⟨network', hrest⟩ := @ih middle (vlan + 1) fun other hother ↦
      hknown other (List.mem_cons_of_mem _ hother)
    exact ⟨network', by simp only [installVlans, bind_apply, hpath, hrest]⟩

end SecondLoop

section Call

variable {topo : TopologyState} {order : SetOrder} {fuel : ℕ} {orders : Orders}
  {draws : Dpid → List ℕ} {paths : List (List Dpid)} {pw : List ℕ}
  {pathsWithPorts : List PathPorts} {outPort : Port}

/-- What the first part of a call computes. -/
structure Prepared (topo : TopologyState) (order : SetOrder) (fuel : ℕ) (call : GroupCall)
    (paths : List (List Dpid)) (pw : List ℕ) (pathsWithPorts : List PathPorts) : Prop where
  paths_eq : getOptimalPaths2 topo order fuel call.src call.dst = .ok paths
  pw_eq : paths.mapM (getPathCost topo) = .ok pw
  ports_eq : addPortsToPaths topo paths call.firstPort call.lastPort = .ok pathsWithPorts

theorem mem_switches (orders : Orders) (paths : List (List Dpid)) (node : Dpid) :
    node ∈ orders.switches paths.flatten.dedup ↔ node ∈ paths.flatten := by
  rw [(orders.switches_perm _).mem_iff, List.mem_dedup]

theorem mem_rowsOf {weighted : List (PathPorts × ℕ)} {row : Port × List (Port × ℕ)} :
    row ∈ rowsOf orders weighted node ↔ row ∈ nodePorts node weighted :=
  (orders.rows_perm _ _).mem_iff

/-- A prepared call whose switches are known and whose rows can be installed completes. -/
theorem installPaths_completes (hprepared : Prepared topo order fuel call paths pw pathsWithPorts)
    (hconsistent : Consistent network) (hknown : ∀ node ∈ paths.flatten, node ∈ topo.datapathList)
    (hkeys : ∀ path ∈ pathsWithPorts, ∀ item ∈ path, item.1 ∈ paths.flatten)
    (hrows : ∀ node ∈ paths.flatten,
      Installable pw.sum (nodePorts node (pathsWithPorts.zip pw)))
    (hready : ∀ node, (∃ row ∈ nodePorts node (pathsWithPorts.zip pw), 1 < row.2.length) →
      GroupReady call (draws node) network node)
    (hfirst : firstOutPort pathsWithPorts call.src = .ok outPort) :
    ∃ network', installPaths topo order fuel orders draws call network = .ok outPort network' := by
  obtain ⟨middle, hswitches⟩ := @installSwitches_completes call network topo orders draws pw.sum
    (pathsWithPorts.zip pw) (orders.switches paths.flatten.dedup) hconsistent
    (fun node hnode ↦ hknown node ((mem_switches orders paths node).mp hnode))
    (fun node hnode row hrow ↦
      hrows node ((mem_switches orders paths node).mp hnode) row (mem_rowsOf.mp hrow))
    (by
      rintro node - ⟨row, hrow, hseveral⟩
      exact hready node ⟨row, mem_rowsOf.mp hrow, hseveral⟩)
  obtain ⟨network', hvlans⟩ := @installVlans_completes call middle topo orders 0x1001
    pathsWithPorts fun path hpath item hitem ↦ hknown _ (hkeys path hpath item hitem)
  refine ⟨network', ?_⟩
  simp only [installPaths, bind_apply, fromExcept, hprepared.paths_eq, hprepared.pw_eq,
    hprepared.ports_eq, hswitches, hvlans, hfirst]

/-- What a completed call leaves behind. -/
structure CallEffect (topo : TopologyState) (orders : Orders) (draws : Dpid → List ℕ)
    (call : GroupCall) (paths : List (List Dpid)) (pw : List ℕ) (pathsWithPorts : List PathPorts)
    (network network' : Network) : Prop where
  known : ∀ node ∈ paths.flatten, node ∈ topo.datapathList
  installable : ∀ node ∈ paths.flatten,
    Installable pw.sum (nodePorts node (pathsWithPorts.zip pw))
  last : ∀ node ∈ paths.flatten, ∀ row,
    (rowsOf orders (pathsWithPorts.zip pw) node).getLast? = some row →
      RowForwards call (draws node) network network' node row.2

theorem installPaths_effect
    (h : installPaths topo order fuel orders draws call network = .ok outPort network') :
    ∃ paths pw pathsWithPorts, Prepared topo order fuel call paths pw pathsWithPorts ∧
      CallEffect topo orders draws call paths pw pathsWithPorts network network' := by
  obtain ⟨paths, _, hpaths, hafterPaths⟩ := bind_ok h
  obtain ⟨pw, _, hpw, hafterPw⟩ := bind_ok hafterPaths
  obtain ⟨pathsWithPorts, _, hports, hafterPorts⟩ := bind_ok hafterPw
  obtain ⟨_, middle, hswitches, hafterSwitches⟩ := bind_ok hafterPorts
  obtain ⟨_, last, hvlans, hreturned⟩ := bind_ok hafterSwitches
  obtain ⟨hpathsEq, rfl⟩ := fromExcept_ok hpaths
  obtain ⟨hpwEq, rfl⟩ := fromExcept_ok hpw
  obtain ⟨hportsEq, rfl⟩ := fromExcept_ok hports
  obtain ⟨-, rfl⟩ := fromExcept_ok hreturned
  have heffect := installSwitches_effect hswitches
  have hkeeps := keepsIp_installVlans topo orders call 0x1001 pathsWithPorts middle
  rw [hvlans] at hkeeps
  refine ⟨paths, pw, pathsWithPorts, ⟨hpathsEq, hpwEq, hportsEq⟩, ?_, ?_, ?_⟩
  · intro node hnode
    exact heffect.known node ((mem_switches orders paths node).mpr hnode)
  · intro node hnode row hrow
    exact heffect.installable node ((mem_switches orders paths node).mpr hnode) row
      (mem_rowsOf.mpr hrow)
  · intro node hnode row hrow
    exact (heffect.last node ((mem_switches orders paths node).mpr hnode) row hrow).imp
      fun h ↦ h.of_keeps hkeeps

end Call

end Wispr.Multipath.Tables
