import Moxy.Lib.Machine
import Mathlib.Data.List.Forall2

/-!
# Two machines side by side

`joint M N R E` runs two machines together.  It admits a pair of events if each
machine admits its own, the two events with their replies match by `E`, and the
states after them are related by `R`.  A run of it is a run of either machine, with
related states at every point in between.

`exists_joint` is the forward simulation: if every step of `M` can be matched, every
run of `M` is one half of a joint run.

`Run.project` is for a machine that contains another one.  Only some of its events
concern the part, and these are events of the part.
-/

namespace Moxy
namespace Lib
namespace Machine

variable {σ τ ε ε' ρ ρ' : Type}

/-- The left half of a joint event with its reply. -/
def leftOf (g : (ε × ε') × (ρ × ρ')) : ε × ρ :=
  (g.1.1, g.2.1)

/-- The right half of a joint event with its reply. -/
def rightOf (g : (ε × ε') × (ρ × ρ')) : ε' × ρ' :=
  (g.1.2, g.2.2)

/-- Both machines together, in related states and with matching events. -/
def joint (M : Machine σ ε ρ) (N : Machine τ ε' ρ') (R : σ → τ → Prop)
    (E : ε × ρ → ε' × ρ' → Prop) : Machine (σ × τ) (ε × ε') (ρ × ρ') where
  step ef st :=
    (((M.step ef.1 st.1).1, (N.step ef.2 st.2).1), ((M.step ef.1 st.1).2, (N.step ef.2 st.2).2))
  guard st ef :=
    M.guard st.1 ef.1 ∧ N.guard st.2 ef.2 ∧
      E (ef.1, (M.step ef.1 st.1).1) (ef.2, (N.step ef.2 st.2).1) ∧
      R (M.step ef.1 st.1).2 (N.step ef.2 st.2).2

variable {M : Machine σ ε ρ} {N : Machine τ ε' ρ'} {R : σ → τ → Prop}
  {E : ε × ρ → ε' × ρ' → Prop} {p q : σ × τ} {gs : List ((ε × ε') × (ρ × ρ'))}

theorem joint_right
    (hrun : (joint M N R E).Run p gs q) :
    N.Run p.2 (gs.map rightOf) q.2 := by
  induction hrun with
  | refl => exact .refl _
  | next e _ hguard ih =>
      rw [List.map_append]
      exact ih.next e.2 hguard.2.1

theorem joint_rel
    (hrun : (joint M N R E).Run p gs q)
    (hp : R p.1 p.2) :
    R q.1 q.2 :=
  hrun.invariant (P := fun st => R st.1 st.2) (fun _ _ _ hguard => hguard.2.2.2) hp

theorem joint_matches
    (hrun : (joint M N R E).Run p gs q) :
    ∀ g ∈ gs, E (leftOf g) (rightOf g) := by
  induction hrun with
  | refl => exact fun g hg => (List.not_mem_nil hg).elim
  | next e _ hguard ih =>
      intro g hg
      rcases List.mem_append.mp hg with hg | hg
      · exact ih g hg
      · rw [List.mem_singleton.mp hg]
        exact hguard.2.2.1

/--
Every run of `M` is the left half of a joint run, if every step can be matched.  The
steps may be matched with regard to a condition `Q` on the final state that, when it
holds after a step, holds before it.
-/
theorem exists_joint
    {Q : σ → Prop}
    (hback : ∀ s e, M.guard s e → Q (M.step e s).2 → Q s)
    (hstep : ∀ s t e, R s t → M.guard s e → Q (M.step e s).2 →
      ∃ f, N.guard t f ∧ E (e, (M.step e s).1) (f, (N.step f t).1) ∧
        R (M.step e s).2 (N.step f t).2)
    {s s' : σ} {t : τ} {es : List (ε × ρ)}
    (hrun : M.Run s es s')
    (hst : R s t)
    (hQ : Q s') :
    ∃ gs t', (joint M N R E).Run (s, t) gs (s', t') ∧ gs.map leftOf = es := by
  induction hrun with
  | refl => exact ⟨[], t, .refl _, rfl⟩
  | @next u es e _ hguard ih =>
      obtain ⟨gs, t', hjoint, rfl⟩ := ih (hback u e hguard hQ)
      obtain ⟨f, hf, hmatch, hrel⟩ := hstep u t' e (joint_rel hjoint hst) hguard hQ
      exact ⟨_, _, hjoint.next (e, f) ⟨hguard, hf, hmatch, hrel⟩, by rw [List.map_append]; rfl⟩

/--
A run of the whole is a run of a part, in the events that concern the part.  `view`
tells which these are, and what they are for the part.
-/
theorem Run.project
    {view : ε × ρ → Option (ε' × ρ')}
    (hother : ∀ s t e, R s t → M.guard s e → view (e, (M.step e s).1) = none →
      R (M.step e s).2 t)
    (hpart : ∀ s t e f r, R s t → M.guard s e → view (e, (M.step e s).1) = some (f, r) →
      N.guard t f ∧ (N.step f t).1 = r ∧ R (M.step e s).2 (N.step f t).2)
    {s s' : σ} {t : τ} {es : List (ε × ρ)}
    (hrun : M.Run s es s')
    (hst : R s t) :
    ∃ t', N.Run t (es.filterMap view) t' ∧ R s' t' := by
  induction hrun with
  | refl => exact ⟨t, .refl _, hst⟩
  | @next u es e _ hguard ih =>
      obtain ⟨t', hrun', hrel⟩ := ih
      rw [List.filterMap_append]
      cases hview : view (e, (M.step e u).1) with
      | none =>
          refine ⟨t', ?_, hother u t' e hrel hguard hview⟩
          rw [List.filterMap_cons_none hview, List.filterMap_nil, List.append_nil]
          exact hrun'
      | some fr =>
          obtain ⟨f, r⟩ := fr
          obtain ⟨hf, rfl, hrel'⟩ := hpart u t' e f r hrel hguard hview
          refine ⟨(N.step f t').2, ?_, hrel'⟩
          rw [List.filterMap_cons_some hview, List.filterMap_nil]
          exact hrun'.next f hf

end Machine
end Lib
end Moxy
