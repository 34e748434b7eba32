import Mathlib.Init

/-!
# Programs that may report an error or stop

A program over a state `σ` ends in one of three ways: it returns a value, it
reports an error, or the process stops in the middle.  In all three cases the
state that it leaves behind is kept, because part of that state outlives the
process.

`wp m ok error crashed s` says how `m` ends when it is started in `s`: one
condition for each of the three ways.  The rules below push `wp` through the
combinators, so that a proof about a program follows the text of the program.
-/

namespace Moxy
namespace Lib

/-- The three ways in which a program can end. -/
inductive Outcome (ε σ α : Type) where
  | ok (a : α) (s : σ)
  | error (e : ε) (s : σ)
  | crashed (s : σ)
deriving DecidableEq

namespace Outcome

variable {ε σ α : Type}

/-- The state left behind. -/
def state : Outcome ε σ α → σ
  | ok _ s => s
  | error _ s => s
  | crashed s => s

end Outcome

/-- Programs over `σ` with errors in `ε`. -/
def CrashM (ε σ α : Type) : Type :=
  σ → Outcome ε σ α

namespace CrashM

variable {ε σ τ α δ : Type}

/-- Sequential composition; an error or a stop ends the whole program. -/
def andThen (m : CrashM ε σ α) (f : α → CrashM ε σ δ) : CrashM ε σ δ :=
  fun s =>
    match m s with
    | .ok a s' => f a s'
    | .error e s' => .error e s'
    | .crashed s' => .crashed s'

instance : Monad (CrashM ε σ) where
  pure a := fun s => .ok a s
  bind := andThen

/-- Report an error. -/
def fail (e : ε) : CrashM ε σ α :=
  fun s => .error e s

/-- Read the state. -/
def read : CrashM ε σ σ :=
  fun s => .ok s s

/-- Change the state. -/
def update (f : σ → σ) : CrashM ε σ Unit :=
  fun s => .ok () (f s)

/-- Turn a reported error into a value, so that the caller can branch on it. -/
def attempt (m : CrashM ε σ α) : CrashM ε σ (Except ε α) :=
  fun s =>
    match m s with
    | .ok a s' => .ok (.ok a) s'
    | .error e s' => .ok (.error e) s'
    | .crashed s' => .crashed s'

/-- Run a program on one component of the state. -/
def zoom (get : σ → τ) (set : τ → σ → σ) (m : CrashM ε τ α) : CrashM ε σ α :=
  fun s =>
    match m (get s) with
    | .ok a t => .ok a (set t s)
    | .error e t => .error e (set t s)
    | .crashed t => .crashed (set t s)

/--
`m` started in `s` returns with `ok`, reports with `error` or stops with
`crashed`.
-/
def wp (m : CrashM ε σ α) (ok : α → σ → Prop) (error : ε → σ → Prop)
    (crashed : σ → Prop) (s : σ) : Prop :=
  match m s with
  | .ok a s' => ok a s'
  | .error e s' => error e s'
  | .crashed s' => crashed s'

section Rules

variable {m : CrashM ε σ α} {ok : α → σ → Prop} {error : ε → σ → Prop}
  {crashed : σ → Prop} {s : σ}

@[simp] theorem wp_pure
    (a : α) :
    wp (pure a : CrashM ε σ α) ok error crashed s ↔ ok a s :=
  Iff.rfl

@[simp] theorem wp_fail
    (e : ε) :
    wp (fail e : CrashM ε σ α) ok error crashed s ↔ error e s :=
  Iff.rfl

@[simp] theorem wp_read
    {ok : σ → σ → Prop} :
    wp (read : CrashM ε σ σ) ok error crashed s ↔ ok s s :=
  Iff.rfl

@[simp] theorem wp_update
    {ok : Unit → σ → Prop} (f : σ → σ) :
    wp (update f : CrashM ε σ Unit) ok error crashed s ↔ ok () (f s) :=
  Iff.rfl

@[simp] theorem wp_bind
    {ok : δ → σ → Prop} (f : α → CrashM ε σ δ) :
    wp (m >>= f) ok error crashed s ↔
      wp m (fun a s' => wp (f a) ok error crashed s') error crashed s := by
  show wp (andThen m f) ok error crashed s ↔ _
  unfold wp andThen
  cases m s <;> rfl

@[simp] theorem wp_attempt
    {ok : Except ε α → σ → Prop} :
    wp (attempt m) ok error crashed s ↔
      wp m (fun a s' => ok (.ok a) s') (fun e s' => ok (.error e) s')
        crashed s := by
  unfold wp attempt
  cases m s <;> rfl

@[simp] theorem wp_zoom
    {get : σ → τ} {set : τ → σ → σ} {n : CrashM ε τ α} :
    wp (zoom get set n) ok error crashed s ↔
      wp n (fun a t => ok a (set t s)) (fun e t => error e (set t s))
        (fun t => crashed (set t s)) (get s) := by
  unfold wp zoom
  cases n (get s) <;> rfl

/-- A program that returns hands its value to the next one. -/
theorem bind_of_ok
    {a : α} {s' : σ}
    (h : m s = .ok a s')
    (f : α → CrashM ε σ δ) :
    (m >>= f) s = f a s' := by
  show andThen m f s = f a s'
  unfold andThen
  rw [h]

theorem bind_of_error
    {e : ε} {s' : σ}
    (h : m s = .error e s')
    (f : α → CrashM ε σ δ) :
    (m >>= f) s = .error e s' := by
  show andThen m f s = .error e s'
  unfold andThen
  rw [h]

/-- Two continuations that agree where the program can return. -/
theorem bind_congr
    {f g : α → CrashM ε σ δ}
    (h : wp m (fun a s' => f a s' = g a s') (fun _ _ => True) (fun _ => True) s) :
    (m >>= f) s = (m >>= g) s := by
  show andThen m f s = andThen m g s
  rw [wp] at h
  rw [andThen, andThen]
  cases hm : m s with
  | ok a s' =>
      rw [hm] at h
      exact h
  | error | crashed => rfl

/-- A stronger requirement implies a weaker one. -/
theorem wp_mono
    {ok' : α → σ → Prop} {error' : ε → σ → Prop} {crashed' : σ → Prop}
    (h : wp m ok error crashed s)
    (hok : ∀ a s', ok a s' → ok' a s')
    (herror : ∀ e s', error e s' → error' e s')
    (hcrashed : ∀ s', crashed s' → crashed' s') :
    wp m ok' error' crashed' s := by
  unfold wp at h ⊢
  cases hm : m s with
  | ok a s' =>
      rw [hm] at h
      exact hok a s' h
  | error e s' =>
      rw [hm] at h
      exact herror e s' h
  | crashed s' =>
      rw [hm] at h
      exact hcrashed s' h

/-- Two requirements can be shown one at a time. -/
theorem wp_and
    {ok' : α → σ → Prop} {error' : ε → σ → Prop} {crashed' : σ → Prop}
    (h : wp m ok error crashed s)
    (h' : wp m ok' error' crashed' s) :
    wp m (fun a s' => ok a s' ∧ ok' a s') (fun e s' => error e s' ∧ error' e s')
      (fun s' => crashed s' ∧ crashed' s') s := by
  unfold wp at *
  cases hm : m s with
  | ok a s' =>
      rw [hm] at h h'
      exact ⟨h, h'⟩
  | error e s' =>
      rw [hm] at h h'
      exact ⟨h, h'⟩
  | crashed s' =>
      rw [hm] at h h'
      exact ⟨h, h'⟩

/-- A program that can neither fail nor stop returns. -/
theorem wp_returns
    (h : wp m ok (fun _ _ => False) (fun _ => False) s) :
    ∃ a s', m s = .ok a s' ∧ ok a s' := by
  unfold wp at h
  cases hm : m s with
  | ok a s' =>
      rw [hm] at h
      exact ⟨a, s', rfl, h⟩
  | error e s' =>
      rw [hm] at h
      exact h.elim
  | crashed s' =>
      rw [hm] at h
      exact h.elim

theorem wp_of_ok
    {a : α} {s' : σ}
    (h : wp m ok error crashed s)
    (hend : m s = .ok a s') :
    ok a s' := by
  unfold wp at h
  rw [hend] at h
  exact h

/-- A program that is known to return has to meet the first condition only. -/
theorem wp_iff_of_ok
    {a : α} {s' : σ}
    (hend : m s = .ok a s') :
    wp m ok error crashed s ↔ ok a s' := by
  unfold wp
  rw [hend]

theorem wp_of_error
    {e : ε} {s' : σ}
    (h : wp m ok error crashed s)
    (hend : m s = .error e s') :
    error e s' := by
  unfold wp at h
  rw [hend] at h
  exact h

/-- A program that can only report one error in one state does so. -/
theorem eq_error_of_wp
    {e : ε} {s' : σ}
    (h : wp m (fun _ _ => False) (fun e' t => e' = e ∧ t = s') (fun _ => False) s) :
    m s = .error e s' := by
  unfold wp at h
  cases hm : m s with
  | ok a t =>
      rw [hm] at h
      exact h.elim
  | error e' t =>
      rw [hm] at h
      rw [h.1, h.2]
  | crashed t =>
      rw [hm] at h
      exact h.elim

/-- The end of a program is the one that it computes. -/
theorem wp_exact :
    wp m (fun a s' => m s = .ok a s') (fun e s' => m s = .error e s')
      (fun s' => m s = .crashed s') s := by
  unfold wp
  cases m s <;> rfl

/-- What holds at all ends holds of the state left behind. -/
theorem wp_state
    {P : σ → Prop}
    (h : wp m (fun _ => P) (fun _ => P) P s) :
    P (m s).state := by
  unfold wp at h
  cases hm : m s with
  | ok a s' =>
      rw [hm] at h
      exact h
  | error e s' =>
      rw [hm] at h
      exact h
  | crashed s' =>
      rw [hm] at h
      exact h

end Rules

section Preserves

variable {P : σ → Prop}

/-- However `m` ends, it keeps `P`. -/
def Preserves (P : σ → Prop) (m : CrashM ε σ α) : Prop :=
  ∀ s, P s → wp m (fun _ s' => P s') (fun _ s' => P s') P s

theorem preserves_pure
    (a : α) :
    Preserves P (pure a : CrashM ε σ α) :=
  fun _ hs => hs

theorem preserves_fail
    (e : ε) :
    Preserves P (fail e : CrashM ε σ α) :=
  fun _ hs => hs

theorem preserves_update
    {f : σ → σ}
    (h : ∀ s, P s → P (f s)) :
    Preserves P (update f : CrashM ε σ Unit) :=
  fun s hs => h s hs

theorem Preserves.bind
    {m : CrashM ε σ α} {f : α → CrashM ε σ δ}
    (hm : Preserves P m)
    (hf : ∀ a, Preserves P (f a)) :
    Preserves P (m >>= f) := by
  intro s hs
  rw [wp_bind]
  exact wp_mono (hm s hs) (fun a s' hs' => hf a s' hs') (fun _ _ h => h) (fun _ h => h)

theorem preserves_read_bind
    {f : σ → CrashM ε σ δ}
    (h : ∀ s, Preserves P (f s)) :
    Preserves P (read >>= f) :=
  fun s hs => (h s) s hs

theorem Preserves.attempt
    {m : CrashM ε σ α}
    (h : Preserves P m) :
    Preserves P (CrashM.attempt m) := by
  intro s hs
  rw [wp_attempt]
  exact h s hs

theorem Preserves.zoom
    {Q : τ → Prop} {get : σ → τ} {set : τ → σ → σ} {m : CrashM ε τ α}
    (hm : Preserves Q m)
    (hget : ∀ s, P s → Q (get s))
    (hset : ∀ s t, P s → Q t → P (set t s)) :
    Preserves P (CrashM.zoom get set m) := by
  intro s hs
  rw [wp_zoom]
  exact wp_mono (hm (get s) (hget s hs)) (fun _ t ht => hset s t hs ht)
    (fun _ t ht => hset s t hs ht) (fun t ht => hset s t hs ht)

end Preserves

end CrashM
end Lib
end Moxy
