import Mathlib.Tactic

/-!
# Priority flow tables

A table holds rules with a priority, a condition and actions. Adding a rule replaces the entry with
the same priority and condition, so an entry is written rather than duplicated. A packet is handled
by a matching rule of highest priority; nothing is assumed about the choice among several such
rules, and `Selected` is a relation for that reason.

What a long sequence of additions leaves in an entry is decided by its writes alone: if all writes
agree, the order does not matter, and rules of other entries never interfere.
-/

namespace Wispr.Foundation.FlowTable

variable {M A H : Type}

@[ext] structure Rule (M A : Type) where
  priority : ℕ
  condition : M
  actions : A
  deriving DecidableEq, Repr

/-- Two rules occupy one entry of the table. -/
def Rule.SameEntry (rule rule' : Rule M A) : Prop :=
  rule.priority = rule'.priority ∧ rule.condition = rule'.condition

instance [DecidableEq M] (rule rule' : Rule M A) : Decidable (rule.SameEntry rule') :=
  inferInstanceAs (Decidable (_ ∧ _))

/-- Adding a rule overwrites its entry. -/
def add [DecidableEq M] (table : List (Rule M A)) (rule : Rule M A) : List (Rule M A) :=
  table.filter (fun old ↦ ¬ old.SameEntry rule) ++ [rule]

def addAll [DecidableEq M] (table rules : List (Rule M A)) : List (Rule M A) :=
  rules.foldl add table

/-- A matching rule of highest priority. -/
structure Selected (accepts : M → H → Bool) (table : List (Rule M A)) (header : H)
    (rule : Rule M A) : Prop where
  mem : rule ∈ table
  accepted : accepts rule.condition header = true
  highest : ∀ other ∈ table, accepts other.condition header = true → other.priority ≤ rule.priority

/-- A matching rule that beats every other one is the only one that can be selected. -/
theorem selected_iff_of_dominant {accepts : M → H → Bool} {table : List (Rule M A)} {header : H}
    {rule : Rule M A} (hmem : rule ∈ table) (haccepted : accepts rule.condition header = true)
    (hdominant : ∀ other ∈ table, accepts other.condition header = true →
      other.priority < rule.priority ∨ other = rule) (chosen : Rule M A) :
    Selected accepts table header chosen ↔ chosen = rule := by
  constructor
  · intro hchosen
    have hhighest := hchosen.highest rule hmem haccepted
    exact (hdominant chosen hchosen.mem hchosen.accepted).resolve_left (not_lt.mpr hhighest)
  · intro hchosen
    subst hchosen
    refine ⟨hmem, haccepted, ?_⟩
    intro other hother hacceptedOther
    rcases hdominant other hother hacceptedOther with hlt | hsame
    · exact hlt.le
    · rw [hsame]

/-- If some rule matches, a matching rule of highest priority exists. -/
theorem exists_selected {accepts : M → H → Bool} {table : List (Rule M A)} {header : H}
    {rule : Rule M A} (hmem : rule ∈ table) (haccepted : accepts rule.condition header = true) :
    ∃ chosen, Selected accepts table header chosen := by
  have hmatching : rule ∈ table.filter fun other ↦ accepts other.condition header :=
    List.mem_filter.mpr ⟨hmem, haccepted⟩
  obtain ⟨chosen, hchosen, hhighest⟩ := Multiset.exists_max_image Rule.priority
    (Multiset.coe_eq_zero _ |>.not.mpr (List.ne_nil_of_mem hmatching))
  obtain ⟨hchosenMem, hchosenAccepted⟩ := List.mem_filter.mp hchosen
  refine ⟨chosen, hchosenMem, hchosenAccepted, ?_⟩
  intro other hother hotherAccepted
  exact hhighest other (List.mem_filter.mpr ⟨hother, hotherAccepted⟩)

section Writes

variable [DecidableEq M]

theorem mem_add {table : List (Rule M A)} {rule other : Rule M A} :
    other ∈ add table rule ↔ (other ∈ table ∧ ¬ other.SameEntry rule) ∨ other = rule := by
  simp [add]

/-- Every rule of the table was there before or was added. -/
theorem mem_addAll {table rules : List (Rule M A)} {rule : Rule M A}
    (hmem : rule ∈ addAll table rules) : rule ∈ table ∨ rule ∈ rules := by
  induction rules generalizing table with
  | nil => exact .inl hmem
  | cons first rest ih =>
    rcases ih hmem with hadded | hrest
    · rcases mem_add.mp hadded with ⟨hold, -⟩ | hfirst
      · exact .inl hold
      · exact .inr (hfirst ▸ List.mem_cons_self ..)
    · exact .inr (List.mem_cons_of_mem _ hrest)

theorem addAll_append (table rules rules' : List (Rule M A)) :
    addAll table (rules ++ rules') = addAll (addAll table rules) rules' :=
  List.foldl_append ..

/-- Additions to other entries leave an entry alone. -/
theorem mem_addAll_of_untouched {table rules : List (Rule M A)} {rule : Rule M A}
    (huntouched : ∀ written ∈ rules, ¬ rule.SameEntry written) :
    rule ∈ addAll table rules ↔ rule ∈ table := by
  induction rules generalizing table with
  | nil => rfl
  | cons first rest ih =>
    have hfirst := huntouched first (List.mem_cons_self ..)
    have hstep : rule ∈ addAll (add table first) rest ↔ rule ∈ add table first :=
      ih fun written hwritten ↦ huntouched written (List.mem_cons_of_mem _ hwritten)
    refine hstep.trans (mem_add.trans ?_)
    constructor
    · rintro (⟨hold, -⟩ | hsame)
      · exact hold
      · exact absurd ⟨by rw [hsame], by rw [hsame]⟩ hfirst
    · intro hold
      exact .inl ⟨hold, hfirst⟩

/-- An entry whose writes all agree holds the agreed rule and no other. -/
theorem mem_addAll_of_agreeing {table rules : List (Rule M A)} {rule other : Rule M A}
    (hwritten : rule ∈ rules)
    (hagree : ∀ written ∈ rules, written.SameEntry rule → written = rule)
    (hentry : other.SameEntry rule) : other ∈ addAll table rules ↔ other = rule := by
  induction rules generalizing table with
  | nil => cases hwritten
  | cons first rest ih =>
    have hrest : ∀ written ∈ rest, written.SameEntry rule → written = rule :=
      fun written hmem ↦ hagree written (List.mem_cons_of_mem _ hmem)
    by_cases hlater : rule ∈ rest
    · exact ih hlater hrest
    · -- The last write is the first of the list; the rest is about other entries.
      have hfirst : first = rule := by
        rcases List.mem_cons.mp hwritten with hsame | hmem
        · exact hsame.symm
        · exact absurd hmem hlater
      have huntouched : ∀ written ∈ rest, ¬ other.SameEntry written := by
        intro written hmem hsame
        have hentry' : written.SameEntry rule :=
          ⟨hsame.1.symm.trans hentry.1, hsame.2.symm.trans hentry.2⟩
        exact hlater (hrest written hmem hentry' ▸ hmem)
      refine (mem_addAll_of_untouched huntouched).trans (mem_add.trans ?_)
      rw [hfirst]
      constructor
      · rintro (⟨-, hother⟩ | hsame)
        · exact absurd hentry hother
        · exact hsame
      · exact .inr

/-- An entry that was written is occupied. -/
theorem exists_mem_addAll (table : List (Rule M A)) {rules : List (Rule M A)} {rule : Rule M A}
    (hwritten : rule ∈ rules) :
    ∃ holder ∈ addAll table rules, holder.SameEntry rule := by
  induction rules generalizing table rule with
  | nil => cases hwritten
  | cons first rest ih =>
    rcases List.mem_cons.mp hwritten with rfl | hlater
    · by_cases hagain : ∃ written ∈ rest, rule.SameEntry written
      · obtain ⟨written, hmem, hsame⟩ := hagain
        obtain ⟨holder, hholder, hentry⟩ : ∃ holder ∈ addAll (add table rule) rest,
          holder.SameEntry written := ih _ hmem
        exact ⟨holder, hholder, hentry.1.trans hsame.1.symm, hentry.2.trans hsame.2.symm⟩
      · have huntouched : ∀ written ∈ rest, ¬ rule.SameEntry written :=
          fun written hmem hsame ↦ hagain ⟨written, hmem, hsame⟩
        refine ⟨rule, (mem_addAll_of_untouched huntouched).mpr ?_, rfl, rfl⟩
        exact mem_add.mpr (.inr rfl)
    · exact ih _ hlater

/-- If all matching rules that were ever written prescribe the same actions and some of them
outranks the initial table, the packet is treated by these actions and by no others. -/
theorem selected_of_uniform_writes {accepts : M → H → Bool} {table rules : List (Rule M A)}
    {header : H} {rule : Rule M A} (hwritten : rule ∈ rules)
    (haccepted : accepts rule.condition header = true)
    (houtranks : ∀ old ∈ table, old.priority < rule.priority)
    (huniform : ∀ other ∈ rules, accepts other.condition header = true →
      other.actions = rule.actions) :
    (∃ chosen, Selected accepts (addAll table rules) header chosen) ∧
      ∀ chosen, Selected accepts (addAll table rules) header chosen →
        chosen.actions = rule.actions := by
  obtain ⟨holder, hholder, hpriority, hcondition⟩ := exists_mem_addAll table hwritten
  have hholderAccepted : accepts holder.condition header = true := by rw [hcondition, haccepted]
  refine ⟨exists_selected hholder hholderAccepted, ?_⟩
  intro chosen hchosen
  have hhighest := hchosen.highest holder hholder hholderAccepted
  rcases mem_addAll hchosen.mem with hold | hnew
  · have hlower := houtranks chosen hold
    omega
  · exact huniform chosen hnew hchosen.accepted

end Writes

end Wispr.Foundation.FlowTable
