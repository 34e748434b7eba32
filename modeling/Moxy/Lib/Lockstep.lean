import Moxy.Lib.CrashProgram

/-!
# Two programs in lockstep

Two programs over different states are compared call by call.  They run in
lockstep if from related states they end in the same way, with related values,
errors and states.

The comparison may be called off.  A coupling names states on either side in
which nothing is promised any more; a program never leaves such a state.  So what
a whole program promises can be read off its last state: as long as that one is
not off, no earlier one was.

The rules below follow the combinators of `CrashM`.
-/

namespace Moxy
namespace Lib

/-- Two outcomes of one kind, with related values, errors and states. -/
inductive Outcome.Alike {ε ε' σ τ α α' : Type} (V : α → α' → Prop)
    (X : ε → ε' → Prop) (R : σ → τ → Prop) :
    Outcome ε σ α → Outcome ε' τ α' → Prop
  | ok {a : α} {a' : α'} {s : σ} {t : τ} (ha : V a a') (hs : R s t) :
      Outcome.Alike V X R (.ok a s) (.ok a' t)
  | error {e : ε} {e' : ε'} {s : σ} {t : τ} (he : X e e') (hs : R s t) :
      Outcome.Alike V X R (.error e s) (.error e' t)
  | crashed {s : σ} {t : τ} (hs : R s t) :
      Outcome.Alike V X R (.crashed s) (.crashed t)

/-- The results of two attempts. -/
inductive ExceptAlike {ε ε' α α' : Type} (V : α → α' → Prop) (X : ε → ε' → Prop) :
    Except ε α → Except ε' α' → Prop
  | ok {a : α} {a' : α'} (ha : V a a') : ExceptAlike V X (.ok a) (.ok a')
  | error {e : ε} {e' : ε'} (he : X e e') : ExceptAlike V X (.error e) (.error e')

/-- Related states, and the states on either side that call the comparison off. -/
structure Coupling (σ τ : Type) where
  rel : σ → τ → Prop
  offLeft : σ → Prop
  offRight : τ → Prop

/-- A state against itself, until `P` holds of it. -/
def Coupling.itself {σ : Type} (P : σ → Prop) : Coupling σ σ where
  rel := Eq
  offLeft := P
  offRight := P

namespace CrashM

/-- The two programs run in lockstep until one of them is off. -/
structure Tracks {ε ε' σ τ α α' : Type} (C : Coupling σ τ) (V : α → α' → Prop)
    (X : ε → ε' → Prop) (m : CrashM ε σ α) (n : CrashM ε' τ α') : Prop where
  left : Preserves C.offLeft m
  right : Preserves C.offRight n
  alike : ∀ s t, C.rel s t →
    C.offLeft (m s).state ∨ C.offRight (n t).state ∨
      Outcome.Alike V X C.rel (m s) (n t)

section Rules

variable {ε ε' σ τ α α' δ δ' : Type} {C : Coupling σ τ} {V : α → α' → Prop}
  {W : δ → δ' → Prop} {X : ε → ε' → Prop}

/-- Every value of either side has a partner. -/
def Partnered (V : α → α' → Prop) : Prop :=
  (∀ a, ∃ a', V a a') ∧ ∀ a', ∃ a, V a a'

theorem partnered_eq :
    Partnered (Eq : α → α → Prop) :=
  ⟨fun a => ⟨a, rfl⟩, fun a => ⟨a, rfl⟩⟩

theorem Partnered.attempt
    (hV : Partnered V)
    (hX : Partnered X) :
    Partnered (ExceptAlike V X) := by
  constructor
  · rintro (e | a)
    · obtain ⟨e', he⟩ := hX.1 e
      exact ⟨_, .error he⟩
    · obtain ⟨a', ha⟩ := hV.1 a
      exact ⟨_, .ok ha⟩
  · rintro (e' | a')
    · obtain ⟨e, he⟩ := hX.2 e'
      exact ⟨_, .error he⟩
    · obtain ⟨a, ha⟩ := hV.2 a'
      exact ⟨_, .ok ha⟩

theorem tracks_pure
    {a : α} {a' : α'}
    (h : V a a') :
    Tracks C V X (pure a) (pure a') where
  left := preserves_pure a
  right := preserves_pure a'
  alike := fun _ _ hs => Or.inr (Or.inr (.ok h hs))

theorem tracks_fail
    {e : ε} {e' : ε'}
    (h : X e e') :
    Tracks C V X (fail e) (fail e') where
  left := preserves_fail e
  right := preserves_fail e'
  alike := fun _ _ hs => Or.inr (Or.inr (.error h hs))

theorem tracks_update
    {f : σ → σ} {g : τ → τ}
    (hleft : ∀ s, C.offLeft s → C.offLeft (f s))
    (hright : ∀ t, C.offRight t → C.offRight (g t))
    (h : ∀ s t, C.rel s t → C.rel (f s) (g t)) :
    Tracks C Eq X (update f) (update g) where
  left := preserves_update hleft
  right := preserves_update hright
  alike := fun s t hs => Or.inr (Or.inr (.ok rfl (h s t hs)))

theorem bind_of_crashed
    {m : CrashM ε σ α} {s s' : σ}
    (h : m s = .crashed s')
    (f : α → CrashM ε σ δ) :
    (m >>= f) s = .crashed s' := by
  show andThen m f s = .crashed s'
  unfold andThen
  rw [h]

theorem preserves_of_state
    {P : σ → Prop} {m : CrashM ε σ α}
    (h : ∀ s, P s → P (m s).state) :
    Preserves P m := by
  intro s hs
  have hend := h s hs
  unfold wp
  cases hm : m s with
  | ok a s' | error e s' | crashed s' =>
      rw [hm] at hend
      exact hend

/-- What a program leaves behind, a continuation that preserves it leaves behind. -/
theorem Preserves.bind_state
    {P : σ → Prop} {m : CrashM ε σ α} {f : α → CrashM ε σ δ} {s : σ}
    (hf : ∀ a, Preserves P (f a))
    (hs : P (m s).state) :
    P ((m >>= f) s).state := by
  show P (andThen m f s).state
  unfold andThen
  cases hm : m s with
  | ok a s' =>
      rw [hm] at hs
      exact wp_state (hf a s' hs)
  | error e s' =>
      rw [hm] at hs
      exact hs
  | crashed s' =>
      rw [hm] at hs
      exact hs

theorem Tracks.bind
    {m : CrashM ε σ α} {n : CrashM ε' τ α'}
    {f : α → CrashM ε σ δ} {g : α' → CrashM ε' τ δ'}
    (hm : Tracks C V X m n)
    (hV : Partnered V)
    (hf : ∀ a a', V a a' → Tracks C W X (f a) (g a')) :
    Tracks C W X (m >>= f) (n >>= g) := by
  have hleft : ∀ a, Preserves C.offLeft (f a) := by
    intro a
    obtain ⟨a', ha⟩ := hV.1 a
    exact (hf a a' ha).left
  have hright : ∀ a', Preserves C.offRight (g a') := by
    intro a'
    obtain ⟨a, ha⟩ := hV.2 a'
    exact (hf a a' ha).right
  refine ⟨hm.left.bind hleft, hm.right.bind hright, ?_⟩
  intro s t hs
  rcases hm.alike s t hs with hoff | hoff | halike
  · exact Or.inl (Preserves.bind_state hleft hoff)
  · exact Or.inr (Or.inl (Preserves.bind_state hright hoff))
  · generalize hms : m s = o at halike
    generalize hnt : n t = o' at halike
    cases halike with
    | ok ha hs' =>
        rw [bind_of_ok hms, bind_of_ok hnt]
        exact (hf _ _ ha).alike _ _ hs'
    | error he hs' =>
        rw [bind_of_error hms, bind_of_error hnt]
        exact Or.inr (Or.inr (.error he hs'))
    | crashed hs' =>
        rw [bind_of_crashed hms, bind_of_crashed hnt]
        exact Or.inr (Or.inr (.crashed hs'))

theorem Tracks.attempt
    {m : CrashM ε σ α} {n : CrashM ε' τ α'} {Y : ε → ε' → Prop}
    (h : Tracks C V X m n) :
    Tracks C (ExceptAlike V X) Y (CrashM.attempt m) (CrashM.attempt n) := by
  refine ⟨h.left.attempt, h.right.attempt, ?_⟩
  intro s t hs
  have halike := h.alike s t hs
  unfold CrashM.attempt
  generalize m s = o at halike ⊢
  generalize n t = o' at halike ⊢
  rcases halike with hoff | hoff | halike
  · left
    cases o <;> exact hoff
  · right
    left
    cases o' <;> exact hoff
  · right
    right
    cases halike with
    | ok ha hs' => exact .ok (.ok ha) hs'
    | error he hs' => exact .ok (.error he) hs'
    | crashed hs' => exact .crashed hs'

/-- A program on one component of the state. -/
theorem Tracks.zoom
    {σ₁ τ₁ : Type} {D : Coupling σ₁ τ₁}
    {get : σ → σ₁} {set : σ₁ → σ → σ} {get' : τ → τ₁} {set' : τ₁ → τ → τ}
    {m : CrashM ε σ₁ α} {n : CrashM ε' τ₁ α'}
    (h : Tracks D V X m n)
    (hleft : Preserves C.offLeft (CrashM.zoom get set m))
    (hright : Preserves C.offRight (CrashM.zoom get' set' n))
    (hoffLeft : ∀ a s, D.offLeft a → C.offLeft (set a s))
    (hoffRight : ∀ b t, D.offRight b → C.offRight (set' b t))
    (hget : ∀ s t, C.rel s t → D.rel (get s) (get' t))
    (hset : ∀ s t a b, C.rel s t → D.rel a b → C.rel (set a s) (set' b t)) :
    Tracks C V X (CrashM.zoom get set m) (CrashM.zoom get' set' n) := by
  refine ⟨hleft, hright, ?_⟩
  intro s t hs
  have halike := h.alike (get s) (get' t) (hget s t hs)
  unfold CrashM.zoom
  generalize m (get s) = o at halike ⊢
  generalize n (get' t) = o' at halike ⊢
  rcases halike with hoff | hoff | halike
  · left
    cases o <;> exact hoffLeft _ _ hoff
  · right
    left
    cases o' <;> exact hoffRight _ _ hoff
  · right
    right
    cases halike with
    | ok ha hs' => exact .ok ha (hset _ _ _ _ hs hs')
    | error he hs' => exact .error he (hset _ _ _ _ hs hs')
    | crashed hs' => exact .crashed (hset _ _ _ _ hs hs')

/-- A program that reads the state, but only a part `Q` of it that is related. -/
theorem tracks_read_bind
    {Q : σ → τ → Prop} {f : σ → CrashM ε σ δ} {g : τ → CrashM ε' τ δ'}
    (hrel : ∀ s t, C.rel s t → Q s t)
    (hQ : Partnered Q)
    (hf : ∀ s t, Q s t → Tracks C W X (f s) (g t)) :
    Tracks C W X (read >>= f) (read >>= g) where
  left := preserves_read_bind fun s => by
    obtain ⟨t, hst⟩ := hQ.1 s
    exact (hf s t hst).left
  right := preserves_read_bind fun t => by
    obtain ⟨s, hst⟩ := hQ.2 t
    exact (hf s t hst).right
  alike := fun s t hs => (hf s t (hrel s t hs)).alike s t hs

theorem Tracks.mono
    {m : CrashM ε σ α} {n : CrashM ε' τ α'} {V' : α → α' → Prop} {X' : ε → ε' → Prop}
    (h : Tracks C V X m n)
    (hV : ∀ a a', V a a' → V' a a')
    (hX : ∀ e e', X e e' → X' e e') :
    Tracks C V' X' m n := by
  refine ⟨h.left, h.right, ?_⟩
  intro s t hs
  refine (h.alike s t hs).imp_right (Or.imp_right ?_)
  intro halike
  generalize m s = o at halike ⊢
  generalize n t = o' at halike ⊢
  cases halike with
  | ok ha hs' => exact .ok (hV _ _ ha) hs'
  | error he hs' => exact .error (hX _ _ he) hs'
  | crashed hs' => exact .crashed hs'

theorem tracks_itself
    {P : σ → Prop} {m : CrashM ε σ α}
    (h : Preserves P m) :
    Tracks (.itself P) Eq Eq m m := by
  refine ⟨h, h, ?_⟩
  rintro s _ rfl
  refine Or.inr (Or.inr ?_)
  cases m s with
  | ok a s' => exact .ok rfl rfl
  | error e s' => exact .error rfl rfl
  | crashed s' => exact .crashed rfl

end Rules

end CrashM
end Lib
end Moxy
