import Mathlib.Init

/-!
# Machines and their runs

A machine answers an event with a reply and a new state, as long as the event is
admitted in the present state.  `Run s es t` says that the events of `es`, each
with the reply it got, lead from `s` to `t`.

`Run.keeps` is the induction principle of the development: what holds at first,
and is kept by every admitted event of a given kind, holds after every run of
events of that kind.
-/

namespace Moxy
namespace Lib

/-- A deterministic machine with a guard on its events. -/
structure Machine (σ ε ρ : Type) where
  step : ε → σ → ρ × σ
  guard : σ → ε → Prop

namespace Machine

variable {σ ε ρ : Type} (M : Machine σ ε ρ)

/-- Runs, extended at their end. -/
inductive Run : σ → List (ε × ρ) → σ → Prop
  | refl (s : σ) : Run s [] s
  | next {s t : σ} {es : List (ε × ρ)} (e : ε) :
      Run s es t → M.guard t e →
      Run s (es ++ [(e, (M.step e t).1)]) (M.step e t).2

variable {M}

/-- The events of a list with their replies, from `s` on. -/
def trace (M : Machine σ ε ρ) : σ → List ε → List (ε × ρ)
  | _, [] => []
  | s, e :: es => (e, (M.step e s).1) :: M.trace (M.step e s).2 es

/-- The state after a list of events. -/
def final (M : Machine σ ε ρ) : σ → List ε → σ
  | s, [] => s
  | s, e :: es => M.final (M.step e s).2 es

/-- Every event of the list is admitted when its turn comes. -/
def Admits (M : Machine σ ε ρ) : σ → List ε → Prop
  | _, [] => True
  | s, e :: es => M.guard s e ∧ M.Admits (M.step e s).2 es

instance decidableAdmits (M : Machine σ ε ρ) [∀ s e, Decidable (M.guard s e)] :
    ∀ s es, Decidable (M.Admits s es)
  | _, [] => inferInstanceAs (Decidable True)
  | s, e :: es =>
      have := decidableAdmits M (M.step e s).2 es
      inferInstanceAs (Decidable (M.guard s e ∧ M.Admits (M.step e s).2 es))

/-- Invariants of a kind of events. -/
theorem Run.keeps
    {P : σ → Prop} {K : ε → Prop} {s t : σ} {es : List (ε × ρ)}
    (hrun : M.Run s es t)
    (hstep : ∀ u e, P u → K e → M.guard u e → P (M.step e u).2)
    (hkind : ∀ er ∈ es, K er.1)
    (hs : P s) :
    P t := by
  induction hrun with
  | refl =>
      exact hs
  | @next t es e _ hguard ih =>
      have hes : ∀ er ∈ es, K er.1 :=
        fun er her => hkind er (List.mem_append_left _ her)
      have he : K e := hkind _ (List.mem_append_right _ List.mem_cons_self)
      exact hstep t e (ih hes) he hguard

/-- Invariants of all events. -/
theorem Run.invariant
    {P : σ → Prop} {s t : σ} {es : List (ε × ρ)}
    (hrun : M.Run s es t)
    (hstep : ∀ u e, P u → M.guard u e → P (M.step e u).2)
    (hs : P s) :
    P t :=
  hrun.keeps (K := fun _ => True)
    (fun u e hu _ hguard => hstep u e hu hguard) (fun _ _ => trivial) hs

/-- One run after another. -/
theorem Run.trans
    {s t u : σ} {es fs : List (ε × ρ)}
    (h₁ : M.Run s es t)
    (h₂ : M.Run t fs u) :
    M.Run s (es ++ fs) u := by
  induction h₂ with
  | refl =>
      simpa using h₁
  | next e _ hguard ih =>
      rw [← List.append_assoc]
      exact Run.next e ih hguard

/-- An admitted list of events is a run. -/
theorem run_of_admits :
    ∀ (es : List ε) (s : σ), M.Admits s es → M.Run s (M.trace s es) (M.final s es) := by
  intro es
  induction es with
  | nil =>
      intro s _
      exact Run.refl s
  | cons e es ih =>
      intro s h
      have hfirst : M.Run s ([] ++ [(e, (M.step e s).1)]) (M.step e s).2 :=
        Run.next e (Run.refl s) h.1
      exact hfirst.trans (ih _ h.2)

theorem admits_append :
    ∀ (es fs : List ε) (s : σ),
      M.Admits s (es ++ fs) ↔ M.Admits s es ∧ M.Admits (M.final s es) fs := by
  intro es
  induction es with
  | nil =>
      intro fs s
      simp [Admits, final]
  | cons e es ih =>
      intro fs s
      simp only [List.cons_append, Admits, final, ih, and_assoc]

theorem trace_append :
    ∀ (es fs : List ε) (s : σ),
      M.trace s (es ++ fs) = M.trace s es ++ M.trace (M.final s es) fs := by
  intro es
  induction es with
  | nil =>
      intro fs s
      rfl
  | cons e es ih =>
      intro fs s
      simp only [List.cons_append, trace, final, ih]

/--
If one step of `N` answers like one admitted step of `M` and leads to a related
state, then a whole list of events does.
-/
theorem trace_of_simulation
    {τ : Type} {N : Machine τ ε ρ} {R : τ → σ → Prop}
    (hstep : ∀ t s e, R t s → M.guard s e →
      (N.step e t).1 = (M.step e s).1 ∧ R (N.step e t).2 (M.step e s).2) :
    ∀ (es : List ε) (t : τ) (s : σ), R t s → M.Admits s es →
      N.trace t es = M.trace s es ∧ R (N.final t es) (M.final s es) := by
  intro es
  induction es with
  | nil =>
      intro t s hrel _
      exact ⟨rfl, hrel⟩
  | cons e es ih =>
      intro t s hrel hadmits
      obtain ⟨hreply, hrel'⟩ := hstep t s e hrel hadmits.1
      obtain ⟨htrace, hfinal⟩ := ih _ _ hrel' hadmits.2
      exact ⟨by simp only [trace, hreply, htrace], hfinal⟩

/-- The state before a given event of a run. -/
theorem Run.split_at
    {s t : σ} {es₁ es₂ : List (ε × ρ)} {er : ε × ρ}
    (hrun : M.Run s (es₁ ++ er :: es₂) t) :
    ∃ u,
      M.Run s es₁ u ∧
      M.guard u er.1 ∧
      (M.step er.1 u).1 = er.2 ∧
      M.Run (M.step er.1 u).2 es₂ t := by
  generalize hes : es₁ ++ er :: es₂ = es at hrun
  induction hrun generalizing es₂ with
  | refl =>
      simp at hes
  | @next t es e hrun hguard ih =>
      -- The last event of the run is `er` itself or the last one of `es₂`.
      rcases List.eq_nil_or_concat es₂ with rfl | ⟨es₃, last, rfl⟩
      · obtain ⟨rfl, hlast⟩ := List.append_inj' hes rfl
        cases hlast
        exact ⟨t, hrun, hguard, rfl, Run.refl _⟩
      · rw [List.concat_eq_append, ← List.cons_append, ← List.append_assoc] at hes
        obtain ⟨hinit, hlast⟩ := List.append_inj' hes rfl
        cases hlast
        obtain ⟨u, h₁, hg, hreply, h₂⟩ := ih hinit
        rw [List.concat_eq_append]
        exact ⟨u, h₁, hg, hreply, Run.next e h₂ hguard⟩

/-- The place in a run where an event of the run happened. -/
theorem Run.split
    {s t : σ} {es : List (ε × ρ)} {er : ε × ρ}
    (hrun : M.Run s es t)
    (her : er ∈ es) :
    ∃ u es₁ es₂,
      es = es₁ ++ er :: es₂ ∧
      M.Run s es₁ u ∧
      M.guard u er.1 ∧
      (M.step er.1 u).1 = er.2 ∧
      M.Run (M.step er.1 u).2 es₂ t := by
  obtain ⟨es₁, es₂, rfl⟩ := List.append_of_mem her
  obtain ⟨u, h⟩ := hrun.split_at
  exact ⟨u, es₁, es₂, rfl, h⟩

end Machine
end Lib
end Moxy
