import Wispr.Foundation.Run

/-!
# Keyed greedy window filters

A window filter keeps one time per slot. An arrival is forwarded when it is later than the slot's
time by more than the window, and only a forwarded arrival moves that time. Over a whole run the
arrivals forwarded in a slot are the greedy subsequence of the slot's own arrival times: nothing
that happens in another slot, and no dropped arrival, can influence a decision.

The time type is any linearly ordered additive group; clocks need not be monotone.
-/

namespace Wispr.Foundation.WindowFilter

open Run

variable {T : Type} [AddCommGroup T] [LinearOrder T] [IsOrderedAddMonoid T]

/-- Greedy decisions after a forwarded arrival at `last`. -/
def greedyFrom (window : T) : T → List T → List Bool
  | _, [] => []
  | last, time :: rest =>
      decide (last + window < time) ::
        greedyFrom window (if last + window < time then time else last) rest

/-- The greedy subsequence: the first arrival, then each arrival later than the last forwarded one
by more than the window. -/
def greedy (window : T) : List T → List Bool
  | [] => []
  | time :: rest => true :: greedyFrom window time rest

omit [IsOrderedAddMonoid T] in
/-- A start value more than a window before every arrival is as good as no earlier arrival. -/
theorem greedyFrom_eq_greedy {window last : T} {times : List T}
    (hlate : ∀ time ∈ times, last + window < time) :
    greedyFrom window last times = greedy window times := by
  cases times with
  | nil => rfl
  | cons time rest => simp [greedyFrom, greedy, hlate time (List.mem_cons_self ..)]

/-- A step function that filters its arrivals through one window per slot. Inputs without a slot
may do anything else, but leave the kept times alone. -/
structure Filter (σ ι ο ε κ T : Type) [DecidableEq κ] [Add T] [LT T] where
  step : σ → ι → Except ε (σ × ο)
  slot : ι → Option κ
  time : ι → T
  forwarded : ο → Prop
  window : T
  lastSeen : σ → κ → T
  forwarded_iff : ∀ {state input next output key}, step state input = .ok (next, output) →
    slot input = some key → (forwarded output ↔ lastSeen state key + window < time input)
  lastSeen_forwarded : ∀ {state input next output key}, step state input = .ok (next, output) →
    slot input = some key → forwarded output →
      lastSeen next = Function.update (lastSeen state) key (time input)
  lastSeen_kept : ∀ {state input next output}, step state input = .ok (next, output) →
    (∀ key, slot input = some key → ¬ forwarded output) → lastSeen next = lastSeen state

namespace Filter

variable {σ ι ο ε κ : Type} [DecidableEq κ] (filter : Filter σ ι ο ε κ T)

/-- A step function that hands a part of its inputs to a window filter, and does not touch the
filter's times on the others, is a window filter. -/
def lift {ι' : Type} (step : σ → ι' → Except ε (σ × ο)) (part : ι' → Option ι) (time : ι' → T)
    (hpart : ∀ state {input arrival}, part input = some arrival →
      step state input = filter.step state arrival ∧ time input = filter.time arrival)
    (hother : ∀ {state input next output}, part input = none →
      step state input = .ok (next, output) → filter.lastSeen next = filter.lastSeen state) :
    Filter σ ι' ο ε κ T where
  step := step
  slot input := (part input).bind filter.slot
  time := time
  forwarded := filter.forwarded
  window := filter.window
  lastSeen := filter.lastSeen
  forwarded_iff := by
    intro state input next output key hstep hslot
    obtain ⟨arrival, harrival, hslot⟩ := Option.bind_eq_some_iff.mp hslot
    obtain ⟨hsame, htime⟩ := hpart state harrival
    rw [htime]
    exact filter.forwarded_iff (hsame ▸ hstep) hslot
  lastSeen_forwarded := by
    intro state input next output key hstep hslot hout
    obtain ⟨arrival, harrival, hslot⟩ := Option.bind_eq_some_iff.mp hslot
    obtain ⟨hsame, htime⟩ := hpart state harrival
    rw [htime]
    exact filter.lastSeen_forwarded (hsame ▸ hstep) hslot hout
  lastSeen_kept := by
    intro state input next output hstep hdropped
    cases harrival : part input with
    | none => exact hother harrival hstep
    | some arrival =>
      apply filter.lastSeen_kept ((hpart state harrival).1 ▸ hstep)
      intro key hkey
      exact hdropped key (by rw [harrival, Option.bind_some, hkey])

def arrivals (key : κ) (inputs : List ι) : List T :=
  inputs.filterMap fun input ↦
    if filter.slot input = some key then some (filter.time input) else none

def decisions [DecidablePred filter.forwarded] (key : κ) (inputs : List ι) (outputs : List ο) :
    List Bool :=
  (inputs.zip outputs).filterMap fun pair ↦
    if filter.slot pair.1 = some key then some (decide (filter.forwarded pair.2)) else none

omit [IsOrderedAddMonoid T] in
theorem lastSeen_step {state next : σ} {input : ι} {output : ο}
    (hstep : filter.step state input = .ok (next, output)) (key : κ) :
    (filter.slot input = some key ∧ filter.forwarded output ∧
        filter.lastSeen next key = filter.time input) ∨
      ((filter.slot input = some key → ¬ filter.forwarded output) ∧
        filter.lastSeen next key = filter.lastSeen state key) := by
  by_cases hforwarded : ∃ other, filter.slot input = some other ∧ filter.forwarded output
  · obtain ⟨other, hslot, hout⟩ := hforwarded
    have hupdate := filter.lastSeen_forwarded hstep hslot hout
    by_cases hkey : key = other
    · subst hkey
      exact .inl ⟨hslot, hout, by rw [hupdate, Function.update_self]⟩
    · refine .inr ⟨fun hsame ↦ ?_, by rw [hupdate, Function.update_of_ne hkey]⟩
      exact absurd (Option.some.inj (hsame.symm.trans hslot)) hkey
  · push Not at hforwarded
    refine .inr ⟨hforwarded key, ?_⟩
    rw [filter.lastSeen_kept hstep hforwarded]

omit [IsOrderedAddMonoid T] in
/-- The decisions of a slot over a whole run are the greedy ones on its own arrival times. -/
theorem decisions_eq_greedyFrom [DecidablePred filter.forwarded] {state final : σ}
    {inputs : List ι} {outputs : List ο}
    (h : run filter.step state inputs = .ok (final, outputs)) (key : κ) :
    filter.decisions key inputs outputs =
      greedyFrom filter.window (filter.lastSeen state key) (filter.arrivals key inputs) := by
  induction inputs generalizing state outputs with
  | nil =>
    simp only [run_nil, Except.ok.injEq, Prod.mk.injEq] at h
    simp [decisions, arrivals, greedyFrom]
  | cons input rest ih =>
    obtain ⟨next, output, tail, hstep, hrest, rfl⟩ := run_cons_ok.mp h
    have htail := ih hrest
    unfold decisions arrivals at htail ⊢
    by_cases hslot : filter.slot input = some key
    · have hiff := filter.forwarded_iff hstep hslot
      have hlast : filter.lastSeen next key =
          if filter.lastSeen state key + filter.window < filter.time input
            then filter.time input else filter.lastSeen state key := by
        rcases filter.lastSeen_step hstep key with ⟨-, hout, hnext⟩ | ⟨hdrop, hnext⟩
        · rw [hnext, if_pos (hiff.mp hout)]
        · rw [hnext, if_neg fun hlate ↦ hdrop hslot (hiff.mpr hlate)]
      simp only [List.zip_cons_cons, List.filterMap_cons, hslot, ↓reduceIte, greedyFrom]
      rw [htail, hlast]
      simp only [hiff]
    · rcases filter.lastSeen_step hstep key with ⟨hsame, -, -⟩ | ⟨-, hnext⟩
      · exact absurd hsame hslot
      · simp only [List.zip_cons_cons, List.filterMap_cons, hslot, ↓reduceIte]
        rw [htail, hnext]

omit [IsOrderedAddMonoid T] in
theorem lastSeen_eq_or_forwarded {state final : σ} {inputs : List ι} {outputs : List ο}
    (h : run filter.step state inputs = .ok (final, outputs)) (key : κ) :
    filter.lastSeen final key = filter.lastSeen state key ∨
      ∃ (index : ℕ) (earlier : ι) (output : ο), inputs[index]? = some earlier ∧
        outputs[index]? = some output ∧ filter.slot earlier = some key ∧ filter.forwarded output ∧
        filter.lastSeen final key = filter.time earlier := by
  induction inputs generalizing state outputs with
  | nil =>
    simp only [run_nil, Except.ok.injEq, Prod.mk.injEq] at h
    exact .inl (by rw [h.1])
  | cons input rest ih =>
    obtain ⟨next, output, tail, hstep, hrest, rfl⟩ := run_cons_ok.mp h
    rcases ih hrest with hkept | ⟨index, earlier, out, hearlier, hout, hfacts⟩
    · rcases filter.lastSeen_step hstep key with ⟨hslot, hout, hnext⟩ | ⟨-, hnext⟩
      · exact .inr ⟨0, input, output, rfl, rfl, hslot, hout, hkept.trans hnext⟩
      · exact .inl (hkept.trans hnext)
    · exact .inr ⟨index + 1, earlier, out, hearlier, hout, hfacts⟩

theorem lastSeen_mono (hwindow : 0 ≤ filter.window) {state final : σ} {inputs : List ι}
    {outputs : List ο} (h : run filter.step state inputs = .ok (final, outputs)) (key : κ) :
    filter.lastSeen state key ≤ filter.lastSeen final key := by
  induction inputs generalizing state outputs with
  | nil =>
    simp only [run_nil, Except.ok.injEq, Prod.mk.injEq] at h
    exact le_of_eq (by rw [h.1])
  | cons input rest ih =>
    obtain ⟨next, output, tail, hstep, hrest, rfl⟩ := run_cons_ok.mp h
    refine le_trans ?_ (ih hrest)
    rcases filter.lastSeen_step hstep key with ⟨hslot, hout, hnext⟩ | ⟨-, hnext⟩
    · rw [hnext]
      have hlate := (filter.forwarded_iff hstep hslot).mp hout
      exact (le_add_of_nonneg_right hwindow).trans hlate.le
    · exact hnext.ge

theorem forwarded_late (hwindow : 0 ≤ filter.window) {state final : σ} {inputs : List ι}
    {outputs : List ο} (h : run filter.step state inputs = .ok (final, outputs)) {index : ℕ}
    {input : ι} {output : ο} {key : κ} (hinput : inputs[index]? = some input)
    (houtput : outputs[index]? = some output) (hslot : filter.slot input = some key)
    (hforwarded : filter.forwarded output) :
    filter.lastSeen state key + filter.window < filter.time input := by
  obtain ⟨before, after, found, hbefore, hstep, hfound, -⟩ := run_getElem? h hinput
  cases houtput.symm.trans hfound
  have hmono := filter.lastSeen_mono hwindow hbefore key
  have hlate := (filter.forwarded_iff hstep hslot).mp hforwarded
  calc
    filter.lastSeen state key + filter.window ≤ filter.lastSeen before key + filter.window :=
      add_le_add_left hmono _
    _ < filter.time input := hlate

theorem forwarded_apart (hwindow : 0 ≤ filter.window) {state final : σ} {inputs : List ι}
    {outputs : List ο} (h : run filter.step state inputs = .ok (final, outputs)) {index₁ index₂ : ℕ}
    (horder : index₁ < index₂) {first second : ι} {out₁ out₂ : ο} {key : κ}
    (hfirst : inputs[index₁]? = some first) (hsecond : inputs[index₂]? = some second)
    (hout₁ : outputs[index₁]? = some out₁) (hout₂ : outputs[index₂]? = some out₂)
    (hslot₁ : filter.slot first = some key) (hslot₂ : filter.slot second = some key)
    (hforwarded₁ : filter.forwarded out₁) (hforwarded₂ : filter.forwarded out₂) :
    filter.time first + filter.window < filter.time second := by
  obtain ⟨distance, rfl⟩ := Nat.exists_eq_add_of_lt horder
  obtain ⟨before, middle, output, -, hstep, houtput, hrest⟩ := run_getElem? h hfirst
  cases hout₁.symm.trans houtput
  have hindex : index₁ + 1 + distance = index₁ + distance + 1 := by omega
  have hsecond' : (inputs.drop (index₁ + 1))[distance]? = some second := by
    rw [List.getElem?_drop, hindex, hsecond]
  have hout₂' : (outputs.drop (index₁ + 1))[distance]? = some out₂ := by
    rw [List.getElem?_drop, hindex, hout₂]
  have hkept : filter.lastSeen middle key = filter.time first := by
    rw [filter.lastSeen_forwarded hstep hslot₁ hforwarded₁, Function.update_self]
  rw [← hkept]
  exact filter.forwarded_late hwindow hrest hsecond' hout₂' hslot₂ hforwarded₂

omit [IsOrderedAddMonoid T] in
/-- An arrival is dropped only for an arrival forwarded before it in its own slot, or for the
slot's initial time. -/
theorem dropped_of_earlier {state final : σ} {inputs : List ι} {outputs : List ο}
    (h : run filter.step state inputs = .ok (final, outputs)) {index : ℕ} {input : ι} {output : ο}
    {key : κ} (hinput : inputs[index]? = some input) (houtput : outputs[index]? = some output)
    (hslot : filter.slot input = some key) (hdropped : ¬ filter.forwarded output)
    (hinitial : filter.lastSeen state key + filter.window < filter.time input) :
    ∃ index' < index, ∃ earlier out, inputs[index']? = some earlier ∧
      outputs[index']? = some out ∧ filter.slot earlier = some key ∧ filter.forwarded out ∧
      filter.time input ≤ filter.time earlier + filter.window := by
  obtain ⟨before, after, found, hbefore, hstep, hfound, -⟩ := run_getElem? h hinput
  cases houtput.symm.trans hfound
  have hclose : filter.time input ≤ filter.lastSeen before key + filter.window := by
    rw [filter.forwarded_iff hstep hslot] at hdropped
    exact not_lt.mp hdropped
  rcases filter.lastSeen_eq_or_forwarded hbefore key with
    hkept | ⟨index', earlier, out, hearlier, hout, hkey, hforwarded, htime⟩
  · rw [hkept] at hclose
    exact absurd hinitial (not_lt.mpr hclose)
  · rw [List.getElem?_take] at hearlier hout
    split at hearlier
    · rename_i hbound
      rw [if_pos hbound] at hout
      exact ⟨index', hbound, earlier, out, hearlier, hout, hkey, hforwarded, htime ▸ hclose⟩
    · cases hearlier

end Filter

end Wispr.Foundation.WindowFilter
