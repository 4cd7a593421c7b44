import Wispr.Controller.PacketIn

/-!
# The record of installed pairs

`timeDict` remembers for each address the peers it has paths to, and a packet-in between two
addresses is ignored when either of them lists the other. Each install replaces the whole rows of
its two addresses, so it forgets their other peers. A pair stays known exactly for as long as
no install erases the last of its two entries.
-/

namespace Wispr.Controller.Pairs

open Paths Install PacketIn

/-- One event the controller handles. A packet-in comes with the random numbers drawn during it. -/
inductive ControllerInput where
  | packetIn (event : PacketInMsg) (draws : List ℕ)
  | topology (event : TopologyEvent)
  | portDesc (switch : Dpid) (portNo : Port) (currSpeed : ℕ)

def controllerStep (env : Env) (controller : ControllerState) : ControllerInput → ControllerState
  | .packetIn event draws => (packetInHandler env controller event draws).1
  | .topology event => { controller with topo := handleEvent controller.topo event }
  | .portDesc switch portNo currSpeed =>
      { controller with topo := portDescStatsReplyHandler controller.topo switch portNo currSpeed }

/-- The controller after a sequence of events. -/
def controllerAfter (env : Env) (inputs : List ControllerInput) : ControllerState :=
  inputs.foldl (controllerStep env) .init

theorem controllerAfter_concat (env : Env) (inputs : List ControllerInput)
    (input : ControllerInput) : controllerAfter env (inputs ++ [input]) =
      controllerStep env (controllerAfter env inputs) input :=
  List.foldl_concat ..

/-- Either address lists the other, so that the handler ignores ARP packets between them. -/
def Recorded (controller : ControllerState) (a b : Ip) : Prop :=
  controller.timed a b = true ∨ controller.timed b a = true

/-- An install for `{x, y}` leaves every other pair an entry: whoever `x` or `y` lists also lists
them, and neither lists itself. -/
structure SparesOthers (controller : ControllerState) (x y : Ip) : Prop where
  listed : ∀ w z, w = x ∨ w = y → z ≠ x → z ≠ y → controller.timed w z = true →
    controller.timed z w = true
  notSelf : x ≠ y → controller.timed x x = false ∧ controller.timed y y = false

/-- The rows after an install: the two addresses list each other and nobody else. -/
theorem timed_recordPair (controller : ControllerState) (x y a b : Ip) (outPort : Port) :
    (controller.recordPair x y outPort).timed a b =
      if a = y then decide (b = x) else if a = x then decide (b = y)
      else controller.timed a b := by
  simp only [ControllerState.timed, ControllerState.recordPair, Function.update_apply]
  by_cases hy : a = y
  · by_cases hb : b = x
    · simp [hy, hb]
    · simp [hy, hb]
  · by_cases hx : a = x
    · subst hx
      by_cases hb : b = y
      · simp [hy, hb]
      · simp [hy, hb]
    · simp [hy, hx]

/-- An entry of another pair survives an install that spares it, on one side or the other. -/
theorem recorded_of_timed {controller : ControllerState} {x y a b : Ip}
    (hspares : SparesOthers controller x y) (outPort : Port) (htimed : controller.timed a b = true)
    (hother : s(a, b) ≠ s(x, y)) : Recorded (controller.recordPair x y outPort) a b := by
  simp only [Recorded, timed_recordPair]
  by_cases ha : a = x ∨ a = y
  · by_cases hb : b = x ∨ b = y
    · -- Both ends belong to the install, so the pair is one address with itself.
      by_cases hxy : x = y
      · exact absurd (by rw [ha.elim id (·.trans hxy.symm), hb.elim id (·.trans hxy.symm), hxy])
          hother
      · obtain ⟨hx, hy⟩ := hspares.notSelf hxy
        rcases ha with rfl | rfl
        · rcases hb with rfl | rfl
          · rw [hx] at htimed
            cases htimed
          · exact absurd rfl hother
        · rcases hb with rfl | rfl
          · exact absurd Sym2.eq_swap hother
          · rw [hy] at htimed
            cases htimed
    · push Not at hb
      right
      rw [if_neg hb.2, if_neg hb.1]
      exact hspares.listed a b ha hb.1 hb.2 htimed
  · push Not at ha
    left
    rw [if_neg ha.2, if_neg ha.1]
    exact htimed

/-- An install keeps all other pairs recorded exactly when it spares an entry of each. -/
theorem sparesOthers_iff (controller : ControllerState) (x y : Ip) (outPort : Port) :
    SparesOthers controller x y ↔ ∀ a b, Recorded controller a b → s(a, b) ≠ s(x, y) →
      Recorded (controller.recordPair x y outPort) a b := by
  constructor
  · intro hspares a b hrecorded hother
    rcases hrecorded with htimed | htimed
    · exact recorded_of_timed hspares outPort htimed hother
    · apply Or.symm
      apply recorded_of_timed hspares outPort htimed
      rwa [Sym2.eq_swap]
  · intro hkept
    simp only [Recorded, timed_recordPair] at hkept
    constructor
    · intro w z hw hzx hzy hlisted
      have hother : s(w, z) ≠ s(x, y) := by
        intro hsame
        rcases Sym2.eq_iff.mp hsame with ⟨-, hz⟩ | ⟨-, hz⟩
        · exact hzy hz
        · exact hzx hz
      rcases hkept w z (.inl hlisted) hother with hforth | hback
      · rcases hw with rfl | rfl
        · simp [hzx, hzy] at hforth
        · simp [hzx] at hforth
      · simpa [hzx, hzy] using hback
    · intro hxy
      constructor
      · by_contra hself
        have hkeptSelf := hkept x x (.inl (by simpa using hself)) (by simp [hxy])
        simp [hxy] at hkeptSelf
      · by_contra hself
        have hkeptSelf := hkept y y (.inl (by simpa using hself)) (by simp [Ne.symm hxy])
        simp [Ne.symm hxy] at hkeptSelf

/-- A step that completes an install, with the addresses it is for. -/
def Completes (env : Env) (controller : ControllerState) (input : ControllerInput) (x y : Ip) :
    Prop :=
  ∃ event draws call outPort, input = .packetIn event draws ∧
    calledInstall controller event = some call ∧
    (installPaths env controller.topo call draws).result = .ok outPort ∧
    call.ipSrc = x ∧ call.ipDst = y

theorem Completes.unique {env : Env} {controller : ControllerState} {input : ControllerInput}
    {x y x' y' : Ip} (h : Completes env controller input x y)
    (h' : Completes env controller input x' y') : x = x' ∧ y = y' := by
  obtain ⟨event, draws, call, -, rfl, hcall, -, rfl, rfl⟩ := h
  obtain ⟨event', draws', call', -, hinput, hcall', -, rfl, rfl⟩ := h'
  cases hinput
  obtain rfl : call = call' := Option.some.inj (hcall.symm.trans hcall')
  exact ⟨rfl, rfl⟩

/-- A step replaces the rows of the pair whose install it completes, or touches no row. -/
theorem controllerStep_timeDict (env : Env) (controller : ControllerState)
    (input : ControllerInput) :
    (∃ x y outPort, Completes env controller input x y ∧
        (controllerStep env controller input).timeDict =
          (controller.recordPair x y outPort).timeDict) ∨
      ((∀ x y, ¬ Completes env controller input x y) ∧
        (controllerStep env controller input).timeDict = controller.timeDict) := by
  cases input with
  | topology event =>
    right
    refine ⟨?_, rfl⟩
    rintro x y ⟨_, _, _, _, hinput, -⟩
    cases hinput
  | portDesc switch portNo currSpeed =>
    right
    refine ⟨?_, rfl⟩
    rintro x y ⟨_, _, _, _, hinput, -⟩
    cases hinput
  | packetIn event draws =>
    have heffect := packetInHandler_effect env controller event draws
    simp only [controllerStep]
    generalize packetInHandler env controller event draws = outcome at heffect ⊢
    obtain ⟨next, sent⟩ := outcome
    cases heffect with
    | quiet hquiet _ htimeDict =>
      right
      refine ⟨?_, htimeDict⟩
      rintro x y ⟨_, _, call, _, hinput, hcall, -⟩
      cases hinput
      rw [(calledInstall_some hcall).1] at hquiet
      cases hquiet
    | unknownHost _ _ hnone _ htimeDict =>
      right
      refine ⟨?_, htimeDict⟩
      rintro x y ⟨_, _, call, _, hinput, hcall, -⟩
      cases hinput
      rw [hnone] at hcall
      cases hcall
    | raised _ _ hcalled hraised _ htimeDict =>
      right
      refine ⟨?_, htimeDict⟩
      rintro x y ⟨_, _, call, _, hinput, hcall, hok, -⟩
      cases hinput
      rw [hcalled, Option.some.injEq] at hcall
      rw [hcall, hok] at hraised
      cases hraised
    | @installed arp call outPort _ harp hcalled hok _ htimeDict =>
      left
      obtain ⟨-, arp', harp', hsrc, hdst⟩ := calledInstall_some hcalled
      obtain rfl : arp = arp' := Option.some.inj (harp.symm.trans harp')
      exact ⟨arp.srcIp, arp.dstIp, outPort, ⟨event, draws, call, outPort, rfl, hcalled, hok, hsrc,
        hdst⟩, htimeDict⟩

theorem recorded_congr {controller next : ControllerState} (h : next.timeDict = controller.timeDict)
    (a b : Ip) : Recorded next a b ↔ Recorded controller a b := by
  simp only [Recorded, ControllerState.timed, h]

theorem recorded_recordPair (controller : ControllerState) {x y a b : Ip} (outPort : Port)
    (hpair : s(x, y) = s(a, b)) : Recorded (controller.recordPair x y outPort) a b := by
  simp only [Recorded, timed_recordPair]
  rcases Sym2.eq_iff.mp hpair with ⟨rfl, rfl⟩ | ⟨rfl, rfl⟩
  · right
    simp
  · left
    simp

theorem recorded_before {controller : ControllerState} {x y a b : Ip} {outPort : Port}
    (h : Recorded (controller.recordPair x y outPort) a b) (hpair : s(x, y) ≠ s(a, b)) :
    Recorded controller a b := by
  have hrow : ∀ u v, s(x, y) ≠ s(u, v) → (controller.recordPair x y outPort).timed u v = true →
      controller.timed u v = true := by
    intro u v hother htimed
    rw [timed_recordPair] at htimed
    split at htimed
    · rename_i hu
      rw [hu, of_decide_eq_true htimed] at hother
      exact absurd Sym2.eq_swap hother
    split at htimed
    · rename_i hu
      rw [hu, of_decide_eq_true htimed] at hother
      exact absurd rfl hother
    · exact htimed
  rcases h with hforth | hback
  · exact .inl (hrow a b hpair hforth)
  · exact .inr (hrow b a (by rwa [Sym2.eq_swap (a := b)]) hback)

/-! ## Runs -/

/-- Some step of the run has completed an install for the two addresses, in either order. -/
def CompletedPair (env : Env) (inputs : List ControllerInput) (a b : Ip) : Prop :=
  ∃ front input back, inputs = front ++ input :: back ∧
    ∃ x y, Completes env (controllerAfter env front) input x y ∧ s(x, y) = s(a, b)

theorem CompletedPair.append {env : Env} {inputs : List ControllerInput} {a b : Ip}
    (h : CompletedPair env inputs a b) (later : List ControllerInput) :
    CompletedPair env (inputs ++ later) a b := by
  obtain ⟨front, input, back, rfl, hcompletes⟩ := h
  exact ⟨front, input, back ++ later, by simp, hcompletes⟩

theorem completedPair_concat {env : Env} {inputs : List ControllerInput} {input : ControllerInput}
    {a b : Ip} (h : CompletedPair env (inputs ++ [input]) a b) :
    CompletedPair env inputs a b ∨
      ∃ x y, Completes env (controllerAfter env inputs) input x y ∧ s(x, y) = s(a, b) := by
  obtain ⟨front, step, back, hsplit, hcompletes⟩ := h
  rcases List.eq_nil_or_concat back with rfl | ⟨rest, last, rfl⟩
  · obtain ⟨rfl, hstep⟩ := List.append_inj' hsplit rfl
    obtain rfl : input = step := by simpa using hstep
    exact .inr hcompletes
  · rw [List.concat_eq_append, ← List.cons_append, ← List.append_assoc] at hsplit
    obtain ⟨rfl, -⟩ := List.append_inj' hsplit rfl
    exact .inl ⟨front, step, rest, rfl, hcompletes⟩

theorem completedPair_of_recorded {env : Env} {inputs : List ControllerInput} {a b : Ip}
    (h : Recorded (controllerAfter env inputs) a b) : CompletedPair env inputs a b := by
  induction inputs using List.reverseRecOn with
  | nil => simp [controllerAfter, ControllerState.init, Recorded, ControllerState.timed] at h
  | append_singleton inputs input ih =>
    rw [controllerAfter_concat] at h
    rcases controllerStep_timeDict env (controllerAfter env inputs) input with
      ⟨x, y, outPort, hcompletes, hrows⟩ | ⟨-, hrows⟩
    · by_cases hpair : s(x, y) = s(a, b)
      · exact ⟨inputs, input, [], rfl, x, y, hcompletes, hpair⟩
      · rw [recorded_congr hrows] at h
        exact (ih (recorded_before h hpair)).append [input]
    · exact (ih ((recorded_congr hrows a b).mp h)).append [input]

/-- Every install the run completes spares an entry of each other pair. -/
def SparesAlong (env : Env) (inputs : List ControllerInput) : Prop :=
  ∀ front input back, inputs = front ++ input :: back →
    ∀ x y, Completes env (controllerAfter env front) input x y →
      SparesOthers (controllerAfter env front) x y

theorem SparesAlong.of_append {env : Env} {front back : List ControllerInput}
    (h : SparesAlong env (front ++ back)) : SparesAlong env front := by
  intro before input after hsplit
  exact h before input (after ++ back) (by simp [hsplit])

/-- Where installs spare the other pairs, a completed pair stays recorded. -/
theorem recorded_of_completedPair {env : Env} {inputs : List ControllerInput}
    (hspares : SparesAlong env inputs) {a b : Ip} (h : CompletedPair env inputs a b) :
    Recorded (controllerAfter env inputs) a b := by
  induction inputs using List.reverseRecOn with
  | nil =>
    obtain ⟨front, input, back, hsplit, -⟩ := h
    simp at hsplit
  | append_singleton inputs input ih =>
    rw [controllerAfter_concat]
    have hbefore : CompletedPair env inputs a b → Recorded (controllerAfter env inputs) a b :=
      ih hspares.of_append
    rcases controllerStep_timeDict env (controllerAfter env inputs) input with
      ⟨x, y, outPort, hcompletes, hrows⟩ | ⟨hnone, hrows⟩
    · rw [recorded_congr hrows]
      by_cases hpair : s(x, y) = s(a, b)
      · exact recorded_recordPair _ outPort hpair
      · have hold : CompletedPair env inputs a b := by
          rcases completedPair_concat h with hold | ⟨x', y', hcompletes', hpair'⟩
          · exact hold
          · obtain ⟨rfl, rfl⟩ := hcompletes.unique hcompletes'
            exact absurd hpair' hpair
        have hsparesStep := hspares inputs input [] rfl x y hcompletes
        exact (sparesOthers_iff _ x y outPort).mp hsparesStep a b (hbefore hold) (Ne.symm hpair)
    · rw [recorded_congr hrows]
      rcases completedPair_concat h with hold | ⟨x, y, hcompletes, -⟩
      · exact hbefore hold
      · exact absurd hcompletes (hnone x y)

/-- The packet-in carries an ARP packet between the two addresses, in either direction. -/
def Between (event : PacketInMsg) (a b : Ip) : Prop :=
  ∃ arp, event.packet.arp = some arp ∧ s(arp.srcIp, arp.dstIp) = s(a, b)

/-- At every point of the run, no ARP packet between the addresses of a completed install leads to
another call of `install_paths`. -/
def InstalledOnce (env : Env) (inputs : List ControllerInput) : Prop :=
  ∀ front back, inputs = front ++ back → ∀ a b, CompletedPair env front a b →
    ∀ event, Between event a b → calledInstall (controllerAfter env front) event = none

theorem calledInstall_of_recorded {controller : ControllerState} {event : PacketInMsg} {a b : Ip}
    (hrecorded : Recorded controller a b) (hbetween : Between event a b) :
    calledInstall controller event = none := by
  obtain ⟨arp, harp, hpair⟩ := hbetween
  have htimed : (controller.timed arp.dstIp arp.srcIp || controller.timed arp.srcIp arp.dstIp) =
      true := by
    rw [Bool.or_eq_true]
    rcases Sym2.eq_iff.mp hpair with ⟨hsrc, hdst⟩ | ⟨hsrc, hdst⟩
    · rw [hsrc, hdst]
      exact hrecorded.symm
    · rw [hsrc, hdst]
      exact hrecorded
  by_contra hcalled
  obtain ⟨call, hcall⟩ := Option.ne_none_iff_exists'.mp hcalled
  have hinstalls := (calledInstall_some hcall).1
  simp [installsPaths, harp, htimed] at hinstalls

/-- A gratuitous reply that a host sends to its own hardware address. -/
def selfReply (a b : Ip) : PacketInMsg :=
  ⟨0, 0, ⟨0, 0, 0x0806, 0x0806, none, some ⟨2, a, b⟩, none, false⟩⟩

/-- Between addresses without a record such a reply leads to a call. -/
theorem recorded_of_selfReply {controller : ControllerState} {a b : Ip}
    (h : calledInstall controller (selfReply a b) = none) : Recorded controller a b := by
  by_contra hunknown
  simp only [Recorded, not_or, Bool.not_eq_true] at hunknown
  obtain ⟨location, hlocation⟩ := Option.ne_none_iff_exists'.mp (learn_known controller
    (selfReply a b).packet.ethSrc ((selfReply a b).dpid, (selfReply a b).inPort))
  have harp : (selfReply a b).packet.arp = some ⟨2, a, b⟩ := rfl
  have htarget : targetMac controller (selfReply a b) ⟨2, a, b⟩ =
      some (selfReply a b).packet.ethSrc := rfl
  have hinstalls : installsPaths controller (selfReply a b) = true := by
    simp [installsPaths, selfReply, hunknown.1, hunknown.2, ethTypeLldp, ignoredPair]
  simp only [calledInstall, harp, hlocation, htarget, hinstalls, if_true, reduceCtorEq] at h

/-- **Paths of a pair are installed once** exactly along the runs in which no install erases the
last entry of another pair. -/
theorem installed_once_iff (env : Env) (inputs : List ControllerInput) :
    InstalledOnce env inputs ↔ SparesAlong env inputs := by
  constructor
  · intro honce front input back hsplit x y hcompletes
    rcases controllerStep_timeDict env (controllerAfter env front) input with
      ⟨x', y', outPort, hcompletes', hrows⟩ | ⟨hnone, -⟩
    · obtain ⟨rfl, rfl⟩ := hcompletes.unique hcompletes'
      apply (sparesOthers_iff _ x y outPort).mpr
      intro a b hrecorded _
      rw [← recorded_congr hrows, ← controllerAfter_concat]
      apply recorded_of_selfReply
      exact honce (front ++ [input]) back (by simp [hsplit]) a b
        ((completedPair_of_recorded hrecorded).append [input]) (selfReply a b) ⟨_, rfl, rfl⟩
    · exact absurd hcompletes (hnone x y)
  · intro hspares front back hsplit a b hcompleted event hbetween
    subst hsplit
    exact calledInstall_of_recorded (recorded_of_completedPair hspares.of_append hcompleted)
      hbetween

/-- Host `n` has address `n`, hardware address `n` and port `n` of switch 1. -/
def arpFrom (opcode n m : ℕ) : PacketInMsg :=
  ⟨1, n, ⟨.ofNat 48 n, .ofNat 48 m, 0x0806, 0x0806, none,
    some ⟨opcode, .ofNat 32 n, .ofNat 32 m⟩, none, false⟩⟩

/-- Host 11 asks, then hosts 12 and 13 answer it, and host 14 answers host 12. -/
def fourHosts : List ControllerInput :=
  [.topology (.switchEnter 1), .packetIn (arpFrom 1 11 12) [], .packetIn (arpFrom 2 12 11) [0],
    .packetIn (arpFrom 2 13 11) [0], .packetIn (arpFrom 2 14 12) [0]]

/-- The second and the third install erase the two entries of the first one. -/
theorem pair_installed_again :
    CompletedPair directPaths fourHosts 12 11 ∧ Between (arpFrom 2 12 11) 12 11 ∧
      (calledInstall (controllerAfter directPaths fourHosts) (arpFrom 2 12 11)).isSome = true := by
  refine ⟨?_, ⟨_, rfl, rfl⟩, by decide⟩
  refine ⟨[.topology (.switchEnter 1), .packetIn (arpFrom 1 11 12) []],
    .packetIn (arpFrom 2 12 11) [0], _, rfl, 12, 11, ?_, rfl⟩
  exact ⟨arpFrom 2 12 11, [0], ⟨1, 12, 1, 11, 12, 11, 12, 11⟩, 11, rfl, by decide, rfl, rfl, rfl⟩

end Wispr.Controller.Pairs
