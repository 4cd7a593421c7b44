import Mathlib.Tactic

/-!
# Journeys with free choices

At each position something moves on: to another position, out of the network, or it gets lost. Which
of the offered outcomes happens is not known. `Arrives` says that every sequence of choices leads
out after finitely many moves and visits no place twice.

Moves along an acyclic relation on finitely many places arrive. A set of positions that can always
be stayed in never does.
-/

namespace Wispr.Foundation.Journeys

/-- What can happen at a position. -/
inductive Outcome (σ : Type) where
  | leave
  | lost
  | move (next : σ)

variable {σ N : Type} {place : σ → N} {offers : σ → Outcome σ → Prop}

/-- Whatever is chosen, the journey leaves the network and visits no place twice. -/
inductive Arrives (place : σ → N) (offers : σ → Outcome σ → Prop) : List N → σ → Prop
  | step {visited : List N} {position : σ} :
      place position ∉ visited → (∃ outcome, offers position outcome) →
      ¬ offers position .lost →
      (∀ next, offers position (.move next) →
        Arrives place offers (place position :: visited) next) →
      Arrives place offers visited position

namespace Arrives

variable {visited : List N} {position next : σ}

theorem not_lost (h : Arrives place offers visited position) : ¬ offers position .lost := by
  cases h with
  | step _ _ hkept _ => exact hkept

theorem move (h : Arrives place offers visited position) (hmove : offers position (.move next)) :
    Arrives place offers (place position :: visited) next := by
  cases h with
  | step _ _ _ hmoves => exact hmoves next hmove

/-- A journey that can get lost or be prolonged for ever does not arrive. -/
theorem not_trapped (trap : σ → Prop)
    (htrap : ∀ position, trap position →
      offers position .lost ∨ ∃ next, offers position (.move next) ∧ trap next)
    (h : Arrives place offers visited position) : ¬ trap position := by
  induction h with
  | @step visited position _ _ hkept _ ih =>
    intro htrapped
    rcases htrap position htrapped with hlost | ⟨next, hmove, hnext⟩
    · exact hkept hlost
    · exact ih next hmove hnext

end Arrives

/-- Moves along an acyclic relation on finitely many places arrive. The invariant `safe` provides an
outcome at every position; the number of places left to visit decreases. -/
theorem arrives_of_acyclic [DecidableEq N] {hop : N → N → Prop}
    (hacyclic : ∀ node, ¬ Relation.TransGen hop node node) (places : Finset N) (safe : σ → Prop)
    (hplaces : ∀ position, safe position → place position ∈ places)
    (hoffers : ∀ position, safe position → ∃ outcome, offers position outcome)
    (hkept : ∀ position, safe position → ¬ offers position .lost)
    (hmoves : ∀ position next, safe position → offers position (.move next) →
      safe next ∧ hop (place position) (place next))
    {position : σ} (hsafe : safe position) {visited : List N}
    (hbehind : ∀ node ∈ visited, Relation.TransGen hop node (place position)) :
    Arrives place offers visited position := by
  induction hleft : (places.filter (· ∉ visited)).card using Nat.strong_induction_on
    generalizing position visited with
  | _ left ih =>
    have hfresh : place position ∉ visited := fun hvisited ↦ hacyclic _ (hbehind _ hvisited)
    refine .step hfresh (hoffers position hsafe) (hkept position hsafe) ?_
    intro next hmove
    obtain ⟨hnext, hhop⟩ := hmoves position next hsafe hmove
    have hfewer : (places.filter (· ∉ place position :: visited)).card < left := by
      rw [← hleft]
      apply Finset.card_lt_card
      rw [Finset.ssubset_iff_of_subset]
      · exact ⟨place position, by simp [hplaces position hsafe, hfresh], by simp⟩
      · intro node hnode
        simp only [Finset.mem_filter, List.mem_cons, not_or] at hnode ⊢
        exact ⟨hnode.1, hnode.2.2⟩
    refine ih _ hfewer hnext ?_ rfl
    intro node hnode
    rcases List.mem_cons.mp hnode with hsame | hearlier
    · rw [hsame]
      exact .single hhop
    · exact (hbehind node hearlier).tail hhop

end Wispr.Foundation.Journeys
