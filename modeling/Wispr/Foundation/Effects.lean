import Mathlib.Tactic

/-!
# Computations that log and may raise

A computation sends messages while it runs and ends with a result or an exception. Messages sent
before an exception stay sent. The rules below split the log of a sequence at its binds: all of it
when the sequence returns, and a part of it in any case.
-/

namespace Wispr.Foundation.Effects

variable {ω ε α β : Type}

structure Logged (ω ε α : Type) where
  log : List ω
  result : Except ε α

namespace Logged

/-- An exception ends the sequence and keeps what was sent. -/
def bind (first : Logged ω ε α) (next : α → Logged ω ε β) : Logged ω ε β :=
  match first.result with
  | .error exception => ⟨first.log, .error exception⟩
  | .ok value => ⟨first.log ++ (next value).log, (next value).result⟩

instance : Monad (Logged ω ε) where
  pure value := ⟨[], .ok value⟩
  bind := bind

def tell (messages : List ω) : Logged ω ε Unit := ⟨messages, .ok ()⟩

/-- A computation without messages. -/
def ofExcept (result : Except ε α) : Logged ω ε α := ⟨[], result⟩

@[simp] theorem pure_log (value : α) : (pure value : Logged ω ε α).log = [] := rfl

@[simp] theorem pure_result (value : α) : (pure value : Logged ω ε α).result = .ok value := rfl

@[simp] theorem tell_log (messages : List ω) :
    (tell messages : Logged ω ε Unit).log = messages := rfl

@[simp] theorem tell_result (messages : List ω) :
    (tell messages : Logged ω ε Unit).result = .ok () := rfl

@[simp] theorem ofExcept_log (result : Except ε α) :
    (ofExcept result : Logged ω ε α).log = [] := rfl

@[simp] theorem ofExcept_result (result : Except ε α) :
    (ofExcept result : Logged ω ε α).result = result := rfl

/-- A sequence that returns has run both parts. -/
theorem bind_ok {first : Logged ω ε α} {next : α → Logged ω ε β} {value : β}
    (h : (first >>= next).result = .ok value) :
    ∃ middle, first.result = .ok middle ∧ (next middle).result = .ok value ∧
      (first >>= next).log = first.log ++ (next middle).log := by
  cases hfirst : first.result with
  | error exception => simp [Bind.bind, bind, hfirst] at h
  | ok middle =>
    simp only [Bind.bind, bind, hfirst] at h ⊢
    exact ⟨middle, rfl, h, rfl⟩

/-- A sequence raises what its first part raises, or what its second part raises. -/
theorem bind_error {first : Logged ω ε α} {next : α → Logged ω ε β} {exception : ε}
    (h : (first >>= next).result = .error exception) :
    first.result = .error exception ∨
      ∃ middle, first.result = .ok middle ∧ (next middle).result = .error exception := by
  cases hfirst : first.result with
  | error raised =>
    simp only [Bind.bind, bind, hfirst, Except.error.injEq] at h
    exact .inl (by rw [h])
  | ok middle =>
    simp only [Bind.bind, bind, hfirst] at h
    exact .inr ⟨middle, rfl, h⟩

/-- What a sequence that raises has sent: all of its first part, and of its second part as far as
that came. -/
theorem bind_error_log {first : Logged ω ε α} {next : α → Logged ω ε β} {exception : ε}
    (h : (first >>= next).result = .error exception) :
    (first.result = .error exception ∧ (first >>= next).log = first.log) ∨
      ∃ middle, first.result = .ok middle ∧ (next middle).result = .error exception ∧
        (first >>= next).log = first.log ++ (next middle).log := by
  rcases bind_error h with hfirst | ⟨middle, hfirst, hnext⟩
  · exact .inl ⟨hfirst, by simp only [Bind.bind, bind, hfirst]⟩
  · exact .inr ⟨middle, hfirst, hnext, by simp only [Bind.bind, bind, hfirst]⟩

/-- Whatever a sequence sent, one of its parts sent it. -/
theorem mem_bind_log {first : Logged ω ε α} {next : α → Logged ω ε β} {message : ω}
    (h : message ∈ (first >>= next).log) :
    message ∈ first.log ∨ ∃ middle, first.result = .ok middle ∧ message ∈ (next middle).log := by
  cases hfirst : first.result with
  | error exception =>
    simp only [Bind.bind, bind, hfirst] at h
    exact .inl h
  | ok middle =>
    simp only [Bind.bind, bind, hfirst, List.mem_append] at h
    rcases h with hmem | hmem
    · exact .inl hmem
    · exact .inr ⟨middle, rfl, hmem⟩

/-- What the first part sent stays sent. -/
theorem mem_bind_log_left {first : Logged ω ε α} (next : α → Logged ω ε β) {message : ω}
    (h : message ∈ first.log) : message ∈ (first >>= next).log := by
  cases hfirst : first.result with
  | error exception => simpa [Bind.bind, bind, hfirst] using h
  | ok middle => simpa [Bind.bind, bind, hfirst] using .inl h

theorem mem_bind_log_right {first : Logged ω ε α} {next : α → Logged ω ε β} {middle : α}
    {message : ω} (hfirst : first.result = .ok middle) (h : message ∈ (next middle).log) :
    message ∈ (first >>= next).log := by
  simp only [Bind.bind, bind, hfirst, List.mem_append]
  exact .inr h

end Logged

/-- A collecting loop that returns has a result for every item. -/
theorem mapM_ok {items : List α} {results : List β} {step : α → Except ε β}
    (h : items.mapM step = .ok results) :
    List.Forall₂ (fun item result ↦ step item = .ok result) items results := by
  induction items generalizing results with
  | nil =>
    cases h
    exact .nil
  | cons item rest ih =>
    rw [List.mapM_cons] at h
    cases hitem : step item with
    | error exception => simp [hitem, Bind.bind, Except.bind] at h
    | ok result =>
      cases hrest : rest.mapM step with
      | error exception => simp [hitem, hrest, Bind.bind, Except.bind] at h
      | ok others =>
        simp only [hitem, hrest, Bind.bind, Except.bind, pure, Except.pure, Except.ok.injEq] at h
        subst h
        exact .cons hitem (ih hrest)

theorem mapM_ok_of_mem {items : List α} {results : List β} {step : α → Except ε β} {item : α}
    (h : items.mapM step = .ok results) (hitem : item ∈ items) :
    ∃ result ∈ results, step item = .ok result := by
  have hresults := mapM_ok h
  obtain ⟨index, hindex, rfl⟩ := List.getElem_of_mem hitem
  have hindex' : index < results.length := hresults.length_eq ▸ hindex
  exact ⟨results[index], List.getElem_mem hindex', hresults.get hindex hindex'⟩

/-- A collecting loop whose step returns for every item returns. -/
theorem mapM_completes {items : List α} {step : α → Except ε β}
    (h : ∀ item ∈ items, ∃ result, step item = .ok result) :
    ∃ results, items.mapM step = .ok results := by
  induction items with
  | nil => exact ⟨[], rfl⟩
  | cons item rest ih =>
    obtain ⟨result, hresult⟩ := h item (List.mem_cons_self ..)
    obtain ⟨results, hresults⟩ := ih fun other hother ↦ h other (List.mem_cons_of_mem _ hother)
    refine ⟨result :: results, ?_⟩
    rw [List.mapM_cons, hresult, hresults]
    rfl

/-- A collecting loop raises what the step raises for one of its items. -/
theorem mapM_error {items : List α} {step : α → Except ε β} {exception : ε}
    (h : items.mapM step = .error exception) : ∃ item ∈ items, step item = .error exception := by
  induction items with
  | nil => cases h
  | cons item rest ih =>
    rw [List.mapM_cons] at h
    cases hitem : step item with
    | error raised =>
      simp only [hitem, Bind.bind, Except.bind, Except.error.injEq] at h
      exact ⟨item, List.mem_cons_self .., by rw [hitem, h]⟩
    | ok result =>
      cases hrest : rest.mapM step with
      | error raised =>
        simp only [hitem, hrest, Bind.bind, Except.bind, Except.error.injEq] at h
        subst h
        obtain ⟨found, hfound, hraised⟩ := ih hrest
        exact ⟨found, List.mem_cons_of_mem _ hfound, hraised⟩
      | ok others => simp [hitem, hrest, Bind.bind, Except.bind, pure, Except.pure] at h

end Wispr.Foundation.Effects
