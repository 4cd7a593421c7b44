import Wispr.Controller.Paths
import Wispr.Discovery.LldpPacket

/-!
# Ports that are probed

`PortDataState` of `ryu/topology/switches.py`: the known ports with their probe frames, in the order
in which the sending loop visits them. A port is put in front when its timestamp is cleared and at
the end when a probe is sent, so the timestamps never decrease along the order and the loop may stop
at the first port that is not due.

Times are milliseconds. The linked list of the class is a list here.
-/

namespace Wispr.Discovery.Ports

open Controller.Paths Lldp

/-- `LLDP_SEND_PERIOD_PER_PORT`. -/
def lldpSendPeriodPerPort : ℤ := 900

/-- `PortData`. -/
structure PortData where
  isDown : Bool
  lldpData : Bytes
  timestamp : Option ℤ
  sent : ℕ

/-- `PortDataState`. -/
abbrev PortDataState := List (LinkEnd × PortData)

namespace PortDataState

/-- The data of a known port. -/
def get? (state : PortDataState) (port : LinkEnd) : Option PortData := state.lookup port

/-- A change of the data of one port in its place. -/
def modify (state : PortDataState) (port : LinkEnd) (change : PortData → PortData) :
    PortDataState :=
  state.map fun item ↦ if item.1 = port then (item.1, change item.2) else item

/-- The other ports. -/
def without (state : PortDataState) (port : LinkEnd) : PortDataState :=
  state.filter fun item ↦ item.1 ≠ port

/-- `add_port`. -/
def addPort (state : PortDataState) (port : LinkEnd) (isDown : Bool) (lldpData : Bytes) :
    PortDataState :=
  match state.get? port with
  | none => (port, ⟨isDown, lldpData, none, 0⟩) :: state
  | some _ => state.modify port fun data ↦ { data with isDown := isDown }

/-- `lldp_sent`; absent on a `KeyError`. -/
def lldpSent (state : PortDataState) (port : LinkEnd) (now : ℤ) :
    Option (PortData × PortDataState) :=
  (state.get? port).map fun data ↦
    let data := { data with timestamp := some now, sent := data.sent + 1 }
    (data, state.without port ++ [(port, data)])

/-- `lldp_received`; its caller ignores the `KeyError`. -/
def lldpReceived (state : PortDataState) (port : LinkEnd) : PortDataState :=
  state.modify port fun data ↦ { data with sent := 0 }

/-- `move_front`. -/
def moveFront (state : PortDataState) (port : LinkEnd) : PortDataState :=
  match state.get? port with
  | none => state
  | some data => (port, { data with timestamp := none }) :: state.without port

/-- `set_down`; absent on a `KeyError`. A port that is down stays in its place. -/
def setDown (state : PortDataState) (port : LinkEnd) (isDown : Bool) : Option PortDataState :=
  (state.get? port).map fun data ↦
    if isDown then
      state.modify port fun data ↦ { data with isDown := isDown, timestamp := none }
    else (port, { data with isDown := isDown, timestamp := none }) :: state.without port

/-- `del_port`; absent on a `KeyError`. -/
def delPort (state : PortDataState) (port : LinkEnd) : Option PortDataState :=
  (state.get? port).map fun _ ↦ state.without port

end PortDataState

theorem mem_of_get? {state : PortDataState} {port : LinkEnd} {data : PortData}
    (h : state.get? port = some data) : (port, data) ∈ state := by
  obtain ⟨front, back, rfl, -⟩ := List.lookup_eq_some_iff.mp h
  simp

/-- One change of the known ports. New ports come with frames of a kind, and probes are sent at
times of a kind. -/
inductive Change (frame : LinkEnd → Bytes → Prop) (time : ℤ → Prop) (state : PortDataState) :
    PortDataState → Prop
  | added {port : LinkEnd} {lldpData : Bytes} (isDown : Bool) : frame port lldpData →
      Change frame time state (state.addPort port isDown lldpData)
  | received (port : LinkEnd) : Change frame time state (state.lldpReceived port)
  | front (port : LinkEnd) : Change frame time state (state.moveFront port)
  | down {port : LinkEnd} {isDown : Bool} {next : PortDataState} :
      state.setDown port isDown = some next → Change frame time state next
  | gone {port : LinkEnd} {next : PortDataState} :
      state.delPort port = some next → Change frame time state next
  | sent {port : LinkEnd} {now : ℤ} {data : PortData} {next : PortDataState} :
      state.lldpSent port now = some (data, next) → time now → Change frame time state next

/-- Any number of changes. -/
abbrev Changes (frame : LinkEnd → Bytes → Prop) (time : ℤ → Prop) :
    PortDataState → PortDataState → Prop := Relation.ReflTransGen (Change frame time)

variable {frame : LinkEnd → Bytes → Prop} {time : ℤ → Prop} {state next : PortDataState}

theorem mem_modify {port : LinkEnd} {change : PortData → PortData} {item : LinkEnd × PortData}
    (h : item ∈ state.modify port change) :
    item ∈ state ∨ ∃ data, (item.1, data) ∈ state ∧ item.2 = change data := by
  obtain ⟨old, hold, rfl⟩ := List.mem_map.mp h
  split
  · exact .inr ⟨old.2, hold, rfl⟩
  · exact .inl hold

/-- Every known port has a frame of the kind. -/
def Frames (frame : LinkEnd → Bytes → Prop) (state : PortDataState) : Prop :=
  ∀ item ∈ state, frame item.1 item.2.lldpData

theorem Frames.modify (h : Frames frame state) (port : LinkEnd) {change : PortData → PortData}
    (hchange : ∀ data, (change data).lldpData = data.lldpData) :
    Frames frame (state.modify port change) := by
  intro item hitem
  rcases mem_modify hitem with hitem | ⟨data, hdata, hsame⟩
  · exact h item hitem
  · rw [hsame, hchange]
    exact h _ hdata

theorem Frames.front (h : Frames frame state) {port : LinkEnd} {data : PortData}
    (hport : frame port data.lldpData) : Frames frame ((port, data) :: state.without port) := by
  intro item hitem
  rcases List.mem_cons.mp hitem with rfl | hitem
  · exact hport
  · exact h item (List.mem_of_mem_filter hitem)

theorem Change.frames (hchange : Change frame time state next) (h : Frames frame state) :
    Frames frame next := by
  cases hchange with
  | @added port lldpData isDown hframe =>
    unfold PortDataState.addPort
    split
    · intro item hitem
      rcases List.mem_cons.mp hitem with rfl | hitem
      · exact hframe
      · exact h item hitem
    · exact h.modify _ fun _ ↦ rfl
  | received port => exact h.modify port fun _ ↦ rfl
  | front port =>
    unfold PortDataState.moveFront
    split
    · exact h
    · rename_i data hdata
      exact h.front (h _ (mem_of_get? hdata))
  | down hdown =>
    obtain ⟨data, hdata, rfl⟩ := Option.map_eq_some_iff.mp hdown
    split
    · exact h.modify _ fun _ ↦ rfl
    · exact h.front (h _ (mem_of_get? hdata))
  | gone hgone =>
    obtain ⟨data, -, rfl⟩ := Option.map_eq_some_iff.mp hgone
    exact fun item hitem ↦ h item (List.mem_of_mem_filter hitem)
  | sent hsent =>
    obtain ⟨data, hdata, hsame⟩ := Option.map_eq_some_iff.mp hsent
    obtain ⟨rfl, rfl⟩ := Prod.mk.inj hsame
    have hport := h _ (mem_of_get? hdata)
    intro item hitem
    rcases List.mem_append.mp hitem with hitem | hitem
    · exact h item (List.mem_of_mem_filter hitem)
    · rw [List.mem_singleton.mp hitem]
      exact hport

theorem Changes.frames (hchanges : Changes frame time state next) (h : Frames frame state) :
    Frames frame next := by
  induction hchanges with
  | refl => exact h
  | tail _ hchange ih => exact hchange.frames ih

/-! ## The sending loop -/

/-- What one scan of `lldp_loop` finds: the ports without a timestamp, the ports that are due, and
the time until the first port that is not. -/
structure Scan where
  portsNow : List LinkEnd
  ports : List LinkEnd
  timeout : Option ℤ

/-- The scan of `lldp_loop`. It ends at the first port that is not due. -/
def scan (now : ℤ) : PortDataState → Scan
  | [] => ⟨[], [], none⟩
  | (key, data) :: rest =>
      match data.timestamp with
      | none =>
          let found := scan now rest
          { found with portsNow := key :: found.portsNow }
      | some timestamp =>
          let expire := timestamp + lldpSendPeriodPerPort
          if expire ≤ now then
            let found := scan now rest
            { found with ports := key :: found.ports }
          else ⟨[], [], some (expire - now)⟩

/-- The timeout of `lldp_event.wait` after the probes. The loop has slept after each port that was
due, and does not sleep again when another one is to come. -/
def Scan.wait (found : Scan) : Option ℤ :=
  if found.timeout.isSome ∧ found.ports ≠ [] then some 0 else found.timeout

/-- The timestamps in the order of the list. -/
def stamps (state : PortDataState) : List ℤ := state.filterMap fun item ↦ item.2.timestamp

/-- The timestamps do not decrease, and none is later than the clock. -/
structure Ordered (clock : ℤ) (state : PortDataState) : Prop where
  sorted : (stamps state).Pairwise (· ≤ ·)
  past : ∀ stamp ∈ stamps state, stamp ≤ clock

theorem Ordered.sublist {clock : ℤ} (h : Ordered clock state)
    (hstamps : (stamps next).Sublist (stamps state)) : Ordered clock next :=
  ⟨h.sorted.sublist hstamps, fun stamp hstamp ↦ h.past stamp (hstamps.subset hstamp)⟩

theorem Ordered.of_eq {clock : ℤ} (h : Ordered clock state) (hstamps : stamps next = stamps state) :
    Ordered clock next := h.sublist (hstamps ▸ .refl _)

theorem stamps_modify (state : PortDataState) (port : LinkEnd) {change : PortData → PortData}
    (hchange : ∀ data, (change data).timestamp = data.timestamp) :
    stamps (state.modify port change) = stamps state := by
  rw [stamps, PortDataState.modify, List.filterMap_map]
  congr 1
  funext item
  simp only [Function.comp_apply]
  split
  · exact hchange item.2
  · rfl

theorem stamps_clear (state : PortDataState) (port : LinkEnd) {change : PortData → PortData}
    (hchange : ∀ data, (change data).timestamp = none) :
    (stamps (state.modify port change)).Sublist (stamps state) := by
  induction state with
  | nil => exact .slnil
  | cons item rest ih =>
    simp only [stamps, PortDataState.modify, List.map_cons, List.filterMap_cons] at ih ⊢
    split
    · split
      · exact ih
      · exact ih.trans (List.sublist_cons_self ..)
    · rename_i stamp hstamp
      have hother : item.1 ≠ port := by
        intro hsame
        rw [if_pos hsame, hchange] at hstamp
        cases hstamp
      rw [if_neg hother] at hstamp
      rw [hstamp]
      exact ih.cons_cons stamp

theorem stamps_without (state : PortDataState) (port : LinkEnd) :
    (stamps (state.without port)).Sublist (stamps state) :=
  List.filter_sublist.filterMap _

theorem stamps_front (state : PortDataState) (port : LinkEnd) {data : PortData}
    (hdata : data.timestamp = none) :
    (stamps ((port, data) :: state.without port)).Sublist (stamps state) := by
  have hnone : stamps ((port, data) :: state.without port) = stamps (state.without port) := by
    simp only [stamps, List.filterMap_cons, hdata]
  rw [hnone]
  exact stamps_without state port

/-- A change keeps the order. Only a sent probe sets a timestamp, and it goes to the end. -/
theorem Change.ordered {clock now : ℤ} (hchange : Change frame time state next)
    (htime : ∀ sent, time sent → sent = now) (hclock : clock ≤ now) (h : Ordered clock state) :
    Ordered now next := by
  have hnow : Ordered now state := ⟨h.sorted, fun stamp hstamp ↦ (h.past stamp hstamp).trans hclock⟩
  cases hchange with
  | added isDown hframe =>
    unfold PortDataState.addPort
    split
    · exact hnow.sublist (.refl _)
    · exact hnow.of_eq (stamps_modify state _ fun _ ↦ rfl)
  | received port => exact hnow.of_eq (stamps_modify state port fun _ ↦ rfl)
  | front port =>
    unfold PortDataState.moveFront
    split
    · exact hnow
    · exact hnow.sublist (stamps_front state port rfl)
  | down hdown =>
    obtain ⟨data, -, rfl⟩ := Option.map_eq_some_iff.mp hdown
    split
    · exact hnow.sublist (stamps_clear state _ fun _ ↦ rfl)
    · exact hnow.sublist (stamps_front state _ rfl)
  | gone hgone =>
    obtain ⟨data, -, rfl⟩ := Option.map_eq_some_iff.mp hgone
    exact hnow.sublist (stamps_without state _)
  | @sent port _ _ _ hsent hsentAt =>
    obtain rfl := htime _ hsentAt
    obtain ⟨data, -, hsame⟩ := Option.map_eq_some_iff.mp hsent
    obtain ⟨rfl, rfl⟩ := Prod.mk.inj hsame
    have hothers := hnow.sublist (stamps_without state port)
    constructor
    · rw [stamps, List.filterMap_append, List.pairwise_append]
      refine ⟨hothers.sorted, by simp, ?_⟩
      intro stamp hstamp last hlast
      simp only [List.filterMap_cons, List.filterMap_nil, List.mem_singleton] at hlast
      rw [hlast]
      exact hothers.past stamp hstamp
    · intro stamp hstamp
      rw [stamps, List.filterMap_append, List.mem_append] at hstamp
      rcases hstamp with hstamp | hstamp
      · exact hothers.past stamp hstamp
      · simp only [List.filterMap_cons, List.filterMap_nil, List.mem_singleton] at hstamp
        exact hstamp.le

theorem Changes.ordered {clock now : ℤ} (hchanges : Changes frame time state next)
    (htime : ∀ sent, time sent → sent = now) (hclock : clock ≤ now) (h : Ordered clock state) :
    Ordered now next := by
  induction hchanges with
  | refl => exact ⟨h.sorted, fun stamp hstamp ↦ (h.past stamp hstamp).trans hclock⟩
  | tail _ hchange ih => exact hchange.ordered htime le_rfl ih

/-- The port is due for its next probe. -/
def isDue (now : ℤ) (data : PortData) : Bool :=
  data.timestamp.any fun timestamp ↦ timestamp + lldpSendPeriodPerPort ≤ now

/-- The time from now to the next port that becomes due, when there is one. -/
def nextDue (now : ℤ) (state : PortDataState) : Option ℤ :=
  (((stamps state).filter fun stamp ↦ now < stamp + lldpSendPeriodPerPort).map
    fun stamp ↦ stamp + lldpSendPeriodPerPort - now).min?

/-- Along ordered timestamps, behind a port that is not due no port is due. -/
theorem not_due_of_sorted {now stamp : ℤ} (hstamp : now < stamp + lldpSendPeriodPerPort)
    (hlater : ∀ other ∈ stamps state, stamp ≤ other) :
    ∀ item ∈ state, isDue now item.2 = false := by
  intro item hitem
  cases htime : item.2.timestamp with
  | none => simp [isDue, htime]
  | some other =>
    have hother := hlater other (List.mem_filterMap.mpr ⟨item, hitem, htime⟩)
    simp only [isDue, htime, Option.any_some, decide_eq_false_iff_not, not_le]
    omega

/-- The port has a timestamp, and is not due yet. -/
def isPending (now : ℤ) (data : PortData) : Bool :=
  data.timestamp.any fun timestamp ↦ now < timestamp + lldpSendPeriodPerPort

/-- The first port that is not due yet is the next one to become due. -/
theorem nextDue_of_sorted {state : PortDataState} {stamp now : ℤ} {later : List ℤ}
    (hstamps : stamps state = stamp :: later) (hpending : now < stamp + lldpSendPeriodPerPort)
    (hlater : ∀ other ∈ later, stamp ≤ other) :
    nextDue now state = some (stamp + lldpSendPeriodPerPort - now) := by
  rw [nextDue, hstamps, List.min?_eq_some_iff]
  refine ⟨List.mem_map.mpr ⟨stamp, by simp [hpending], rfl⟩, ?_⟩
  intro wait hwait
  obtain ⟨other, hother, rfl⟩ := List.mem_map.mp hwait
  rcases List.mem_cons.mp (List.mem_of_mem_filter hother) with rfl | hother
  · exact le_rfl
  · have hle := hlater other hother
    omega

/-- The scan that stops at the first port that is not due finds every port that is due, in order,
the ports without a timestamp that come before, and the time until the next one is due. -/
theorem scan_ordered {now : ℤ} (h : (stamps state).Pairwise (· ≤ ·)) :
    (scan now state).ports = (state.filter fun item ↦ isDue now item.2).map Prod.fst ∧
      (scan now state).portsNow = ((state.takeWhile fun item ↦ !isPending now item.2).filter
        fun item ↦ item.2.timestamp.isNone).map Prod.fst ∧
      (scan now state).timeout = nextDue now state := by
  induction state with
  | nil => exact ⟨rfl, rfl, rfl⟩
  | cons item rest ih =>
    obtain ⟨key, data⟩ := item
    cases htime : data.timestamp with
    | none =>
      have hstamps : stamps ((key, data) :: rest) = stamps rest := by
        simp only [stamps, List.filterMap_cons, htime]
      have hdue : isDue now data = false := by simp [isDue, htime]
      have hfree : isPending now data = false := by simp [isPending, htime]
      rw [hstamps] at h
      obtain ⟨hports, hportsNow, htimeout⟩ := ih h
      simp only [scan, htime, List.filter_cons, List.takeWhile_cons, hdue, hfree, Bool.not_false,
        Bool.false_eq_true, if_true, if_false, Option.isNone_none, List.map_cons, nextDue, hstamps,
        hportsNow, true_and]
      exact ⟨hports, htimeout⟩
    | some stamp =>
      have hstamps : stamps ((key, data) :: rest) = stamp :: stamps rest := by
        simp only [stamps, List.filterMap_cons, htime]
      rw [hstamps] at h
      obtain ⟨hlater, hrest⟩ := List.pairwise_cons.mp h
      by_cases hexpired : stamp + lldpSendPeriodPerPort ≤ now
      · have hdue : isDue now data = true := by simp [isDue, htime, hexpired]
        have hskip : ¬ now < stamp + lldpSendPeriodPerPort := not_lt.mpr hexpired
        have hfree : isPending now data = false := by simp [isPending, htime, hexpired]
        obtain ⟨hports, hportsNow, htimeout⟩ := ih hrest
        simp only [scan, htime, hexpired, if_true, List.filter_cons, List.takeWhile_cons, hdue,
          hfree, Bool.not_false, Option.isNone_some, List.map_cons, hports, hportsNow, htimeout,
          nextDue, hstamps, hskip, decide_false, Bool.false_eq_true, if_false, and_self]
      · have hpending : now < stamp + lldpSendPeriodPerPort := not_le.mp hexpired
        have hdue : isDue now data = false := by simp [isDue, htime, hpending]
        have hstop : isPending now data = true := by simp [isPending, htime, hpending]
        have hnone : (rest.filter fun item ↦ isDue now item.2) = [] := by
          rw [List.filter_eq_nil_iff]
          intro other hother
          rw [not_due_of_sorted hpending hlater other hother]
          exact Bool.false_ne_true
        rw [nextDue_of_sorted hstamps hpending hlater]
        simp only [scan, htime, hexpired, if_false, List.filter_cons, List.takeWhile_cons, hdue,
          hstop, Bool.not_true, Bool.false_eq_true, hnone, List.map_nil, List.filter_nil, and_self]

/-- The loop waits for the next port that is not due yet, unless there is one and others were due:
then it scans again at once. -/
theorem scan_wait {now : ℤ} (h : (stamps state).Pairwise (· ≤ ·)) :
    (scan now state).wait =
      if (∃ item ∈ state, isDue now item.2) ∧ ∃ item ∈ state, isPending now item.2 then some 0
      else nextDue now state := by
  obtain ⟨hports, -, htimeout⟩ := scan_ordered h
  have hdue : (scan now state).ports ≠ [] ↔ ∃ item ∈ state, isDue now item.2 := by
    rw [hports, Ne, List.map_eq_nil_iff, List.filter_eq_nil_iff]
    simp only [not_forall, exists_prop, not_not]
  have hpending : (nextDue now state).isSome ↔ ∃ item ∈ state, isPending now item.2 := by
    rw [nextDue, List.isSome_min?_iff, Ne, List.map_eq_nil_iff, List.filter_eq_nil_iff]
    simp only [stamps, List.mem_filterMap, isPending, Option.any_eq_true]
    constructor
    · intro hsome
      obtain ⟨stamp, hstamp, hlater⟩ : ∃ stamp, (∃ item ∈ state, item.2.timestamp = some stamp) ∧
          decide (now < stamp + lldpSendPeriodPerPort) = true := by
        simpa only [not_forall, exists_prop, not_not] using hsome
      obtain ⟨item, hitem, htime⟩ := hstamp
      exact ⟨item, hitem, stamp, htime, hlater⟩
    · rintro ⟨item, hitem, stamp, htime, hlater⟩ hnone
      exact hnone stamp ⟨item, hitem, htime⟩ hlater
  rw [Scan.wait, htimeout]
  exact if_congr ((and_congr hpending hdue).trans and_comm) rfl rfl

end Wispr.Discovery.Ports
