import Mathlib.Tactic

/-!
# Runs of faulting step functions

A step consumes one input and either faults or returns the next state with the step's output. A
run threads the state through a list of inputs and keeps the output of every step; the first fault
ends it. The rules below split a run at any position, carry an invariant along it and prove that a
run whose steps are enabled completes.
-/

namespace Wispr.Foundation.Run

variable {σ ι ο ε : Type}

/-- Final state and the outputs of all steps, in order. -/
def run (step : σ → ι → Except ε (σ × ο)) : σ → List ι → Except ε (σ × List ο)
  | state, [] => .ok (state, [])
  | state, input :: rest =>
      match step state input with
      | .error fault => .error fault
      | .ok (next, output) =>
          match run step next rest with
          | .error fault => .error fault
          | .ok (final, outputs) => .ok (final, output :: outputs)

variable {step : σ → ι → Except ε (σ × ο)}

@[simp] theorem run_nil (state : σ) : run step state [] = .ok (state, []) := rfl

theorem run_cons_ok {state final : σ} {input : ι} {rest : List ι} {outputs : List ο} :
    run step state (input :: rest) = .ok (final, outputs) ↔
      ∃ next output tail, step state input = .ok (next, output) ∧
        run step next rest = .ok (final, tail) ∧ outputs = output :: tail := by
  simp only [run]
  constructor
  · intro h
    split at h
    · cases h
    · rename_i next output hstep
      split at h
      · cases h
      · rename_i last tail hrest
        simp only [Except.ok.injEq, Prod.mk.injEq] at h
        obtain ⟨rfl, rfl⟩ := h
        exact ⟨next, output, tail, hstep, hrest, rfl⟩
  · rintro ⟨next, output, tail, hstep, hrest, rfl⟩
    simp only [hstep, hrest]

theorem run_length {state final : σ} {inputs : List ι} {outputs : List ο}
    (h : run step state inputs = .ok (final, outputs)) : outputs.length = inputs.length := by
  induction inputs generalizing state outputs with
  | nil =>
    simp only [run_nil, Except.ok.injEq, Prod.mk.injEq] at h
    simp [← h.2]
  | cons input rest ih =>
    obtain ⟨next, output, tail, -, hrest, rfl⟩ := run_cons_ok.mp h
    simp [ih hrest]

theorem run_append_ok {state final : σ} {front back : List ι} {outputs : List ο} :
    run step state (front ++ back) = .ok (final, outputs) ↔
      ∃ middle outputs₁ outputs₂, run step state front = .ok (middle, outputs₁) ∧
        run step middle back = .ok (final, outputs₂) ∧ outputs = outputs₁ ++ outputs₂ := by
  induction front generalizing state outputs with
  | nil => simp
  | cons input rest ih =>
    rw [List.cons_append, run_cons_ok]
    constructor
    · rintro ⟨next, output, tail, hstep, hrest, rfl⟩
      obtain ⟨middle, outputs₁, outputs₂, hfront, hback, rfl⟩ := ih.mp hrest
      exact ⟨middle, output :: outputs₁, outputs₂,
        run_cons_ok.mpr ⟨next, output, outputs₁, hstep, hfront, rfl⟩, hback, rfl⟩
    · rintro ⟨middle, outputs₁, outputs₂, hfront, hback, rfl⟩
      obtain ⟨next, output, tail, hstep, hrest, rfl⟩ := run_cons_ok.mp hfront
      exact ⟨next, output, tail ++ outputs₂, hstep,
        ih.mpr ⟨middle, tail, outputs₂, hrest, hback, rfl⟩, rfl⟩

/-- The step at a position of a completed run, with the runs before and after it. -/
theorem run_getElem? {state final : σ} {inputs : List ι} {outputs : List ο} {index : ℕ} {input : ι}
    (h : run step state inputs = .ok (final, outputs)) (hindex : inputs[index]? = some input) :
    ∃ before after output, run step state (inputs.take index) = .ok (before, outputs.take index) ∧
      step before input = .ok (after, output) ∧ outputs[index]? = some output ∧
      run step after (inputs.drop (index + 1)) = .ok (final, outputs.drop (index + 1)) := by
  induction inputs generalizing state outputs index with
  | nil => simp at hindex
  | cons first rest ih =>
    obtain ⟨next, output, tail, hstep, hrest, rfl⟩ := run_cons_ok.mp h
    cases index with
    | zero =>
      simp only [List.getElem?_cons_zero, Option.some.injEq] at hindex
      subst hindex
      exact ⟨state, next, output, rfl, hstep, rfl, hrest⟩
    | succ index =>
      obtain ⟨before, after, found, hbefore, hfound, houtput, hafter⟩ :=
        ih hrest (by simpa using hindex)
      exact ⟨before, after, found, run_cons_ok.mpr ⟨next, output, _, hstep, hbefore, rfl⟩, hfound,
        houtput, hafter⟩

/-- What every step preserves holds at the end of every run. -/
theorem run_invariant (invariant : σ → Prop)
    (hstep : ∀ {state next : σ} {input : ι} {output : ο}, invariant state →
      step state input = .ok (next, output) → invariant next)
    {state final : σ} {inputs : List ι} {outputs : List ο} (hstate : invariant state)
    (h : run step state inputs = .ok (final, outputs)) : invariant final := by
  induction inputs generalizing state outputs with
  | nil =>
    cases h
    exact hstate
  | cons input rest ih =>
    obtain ⟨next, output, tail, hfirst, hrest, -⟩ := run_cons_ok.mp h
    exact ih (hstep hstate hfirst) hrest

/-- A run whose inputs are all enabled completes. -/
theorem run_completes {enabled : ι → Prop}
    (hstep : ∀ state input, enabled input → ∃ next output, step state input = .ok (next, output))
    (state : σ) (inputs : List ι) (henabled : ∀ input ∈ inputs, enabled input) :
    ∃ final outputs, run step state inputs = .ok (final, outputs) := by
  induction inputs generalizing state with
  | nil => exact ⟨state, [], rfl⟩
  | cons input rest ih =>
    obtain ⟨next, output, hfirst⟩ := hstep state input (henabled input (List.mem_cons_self ..))
    obtain ⟨final, outputs, hrest⟩ :=
      ih next fun item hitem ↦ henabled item (List.mem_cons_of_mem _ hitem)
    exact ⟨final, output :: outputs, run_cons_ok.mpr ⟨next, output, outputs, hfirst, hrest, rfl⟩⟩

/-- Steps that agree through an abstraction of the state give runs that do: the same fault, or the
same outputs and abstractly the same final state. -/
theorem run_abstracts {τ : Type} {abstractStep : τ → ι → Except ε (τ × ο)} (abstraction : σ → τ)
    (invariant : σ → Prop)
    (hstep : ∀ {state : σ} (input : ι), invariant state →
      (step state input).map (Prod.map abstraction id) = abstractStep (abstraction state) input)
    (hinvariant : ∀ {state next : σ} {input : ι} {output : ο}, invariant state →
      step state input = .ok (next, output) → invariant next)
    {state : σ} (hstate : invariant state) (inputs : List ι) :
    (run step state inputs).map (Prod.map abstraction id) =
      run abstractStep (abstraction state) inputs := by
  induction inputs generalizing state with
  | nil => rfl
  | cons input rest ih =>
    have hfirst := hstep input hstate
    cases hresult : step state input with
    | error fault =>
      rw [hresult] at hfirst
      simp only [run, hresult, ← hfirst, Except.map]
    | ok result =>
      obtain ⟨next, output⟩ := result
      have hrest := ih (hinvariant hstate hresult)
      rw [hresult] at hfirst
      cases htail : run step next rest with
      | error fault =>
        rw [htail] at hrest
        simp only [run, hresult, htail, ← hfirst, ← hrest, Except.map, Prod.map]
      | ok tail =>
        rw [htail] at hrest
        simp only [run, hresult, htail, ← hfirst, ← hrest, Except.map, Prod.map, id]

end Wispr.Foundation.Run
