/-!
# Hoare — weakest preconditions for a state monad with exceptions

`wp m Q E s`: run from `s`, the program ends in `Q` if it returns and in `E` if it raises.  `Keeps R` is the special
case of a program all of whose runs, returning or raising, stay inside a preorder `R`; it needs no intermediate
assertions.
-/
namespace PicoRecorder
namespace Lib

variable {ε σ α β : Type}

def wp (m : EStateM ε σ α) (Q : α → σ → Prop) (E : ε → σ → Prop) (s : σ) : Prop :=
  match m s with
  | .ok a t => Q a t
  | .error e t => E e t

/-- Run a handler for the exceptions it takes; the others pass. -/
def catching (m : EStateM ε σ α) (handler : ε → Option (EStateM ε σ α)) : EStateM ε σ α := fun s =>
  match m s with
  | .ok a t => .ok a t
  | .error e t =>
    match handler e with
    | none => .error e t
    | some h => h t

/-- Run `cleanup` on the way out, unless by an exception that `leaves` says is no way out. -/
def ensuring (leaves : ε → Bool) (cleanup : σ → σ) (m : EStateM ε σ α) : EStateM ε σ α := fun s =>
  match m s with
  | .ok a t => .ok a (cleanup t)
  | .error e t => .error e (if leaves e then cleanup t else t)

section Rules

variable {Q Q' : α → σ → Prop} {E E' : ε → σ → Prop} {s : σ}

@[simp] theorem wp_pure (a : α) : wp (pure a : EStateM ε σ α) Q E s ↔ Q a s := Iff.rfl

@[simp] theorem wp_throw (e : ε) : wp (throw e : EStateM ε σ α) Q E s ↔ E e s := Iff.rfl

@[simp] theorem wp_bind (m : EStateM ε σ β) (f : β → EStateM ε σ α) :
    wp (m >>= f) Q E s ↔ wp m (fun b => wp (f b) Q E) E s := by
  show (match EStateM.bind m f s with | .ok a t => Q a t | .error e t => E e t) ↔ _
  unfold wp EStateM.bind
  cases m s <;> rfl

theorem wp_mono {m : EStateM ε σ α} (h : wp m Q E s) (hQ : ∀ a t, Q a t → Q' a t) (hE : ∀ e t, E e t → E' e t) :
    wp m Q' E' s := by
  unfold wp at h ⊢
  cases hm : m s with
  | ok a t => rw [hm] at h; exact hQ a t h
  | error e t => rw [hm] at h; exact hE e t h

theorem wp_and {m : EStateM ε σ α} (h : wp m Q E s) (h' : wp m Q' E' s) :
    wp m (fun a t => Q a t ∧ Q' a t) (fun e t => E e t ∧ E' e t) s := by
  unfold wp at h h' ⊢
  cases hm : m s with
  | ok a t => rw [hm] at h h'; exact ⟨h, h'⟩
  | error e t => rw [hm] at h h'; exact ⟨h, h'⟩

theorem wp_catching {m : EStateM ε σ α} {handler : ε → Option (EStateM ε σ α)} :
    wp (catching m handler) Q E s ↔
      wp m Q (fun e t => match handler e with | none => E e t | some h => wp h Q E t) s := by
  unfold wp catching
  cases m s with
  | ok a t => rfl
  | error e t =>
    dsimp only
    cases handler e <;> rfl

theorem wp_ensuring {leaves : ε → Bool} {cleanup : σ → σ} {m : EStateM ε σ α} :
    wp (ensuring leaves cleanup m) Q E s ↔
      wp m (fun a t => Q a (cleanup t)) (fun e t => E e (if leaves e then cleanup t else t)) s := by
  unfold wp ensuring
  cases m s <;> rfl

/-- What a program does is what it does. -/
theorem wp_run (m : EStateM ε σ α) (s : σ) : wp m (fun a t => m s = .ok a t) (fun e t => m s = .error e t) s := by
  unfold wp
  cases m s with
  | ok a t => rfl
  | error e t => rfl

/-- A run that is known picks the assertion it has to satisfy. -/
theorem wp_of_ok {m : EStateM ε σ α} {a : α} {t : σ} (hm : m s = .ok a t) (h : wp m Q E s) : Q a t := by
  unfold wp at h
  rw [hm] at h
  exact h

/-- A run that must not raise returns, and one that must not return raises. -/
theorem ok_of_wp {m : EStateM ε σ α} (h : wp m Q (fun _ _ => False) s) : ∃ a t, m s = .ok a t ∧ Q a t := by
  unfold wp at h
  cases hm : m s with
  | ok a t => rw [hm] at h; exact ⟨a, t, rfl, h⟩
  | error e t => rw [hm] at h; exact h.elim

theorem error_of_wp {m : EStateM ε σ α} (h : wp m (fun _ _ => False) E s) : ∃ e t, m s = .error e t ∧ E e t := by
  unfold wp at h
  cases hm : m s with
  | ok a t => rw [hm] at h; exact h.elim
  | error e t => rw [hm] at h; exact ⟨e, t, rfl, h⟩

instance {m : EStateM ε σ α} [∀ a t, Decidable (Q a t)] [∀ e t, Decidable (E e t)] : Decidable (wp m Q E s) :=
  match h : m s with
  | .ok a t => decidable_of_iff (Q a t) (by unfold wp; rw [h])
  | .error e t => decidable_of_iff (E e t) (by unfold wp; rw [h])

end Rules

/-- Every run of the program, however it ends, stays inside `R`. -/
def Keeps (R : σ → σ → Prop) (m : EStateM ε σ α) : Prop := ∀ s, wp m (fun _ => R s) (fun _ => R s) s

section Keeps

variable {R : σ → σ → Prop} (hrefl : ∀ s, R s s) (htrans : ∀ s t u, R s t → R t u → R s u)
include hrefl

theorem Keeps.pure (a : α) : Keeps R (pure a : EStateM ε σ α) := hrefl

theorem Keeps.throw (e : ε) : Keeps R (throw e : EStateM ε σ α) := hrefl

omit hrefl

theorem Keeps.mono {R' : σ → σ → Prop} {m : EStateM ε σ α} (h : Keeps R m) (hR : ∀ s t, R s t → R' s t) : Keeps R' m :=
  fun s => wp_mono (h s) (fun _ t => hR s t) (fun _ t => hR s t)

include htrans

theorem Keeps.bind {m : EStateM ε σ β} {f : β → EStateM ε σ α} (hm : Keeps R m) (hf : ∀ b, Keeps R (f b)) :
    Keeps R (m >>= f) := fun s => by
  rw [wp_bind]
  exact wp_mono (hm s) (fun b t ht => wp_mono (hf b t) (fun _ u => htrans s t u ht) (fun _ u => htrans s t u ht))
    (fun _ _ ht => ht)

theorem Keeps.catching {m : EStateM ε σ α} {handler : ε → Option (EStateM ε σ α)} (hm : Keeps R m)
    (hh : ∀ e h, handler e = some h → Keeps R h) : Keeps R (catching m handler) := fun s => by
  rw [wp_catching]
  refine wp_mono (hm s) (fun _ _ ht => ht) (fun e t ht => ?_)
  cases he : handler e with
  | none => exact ht
  | some h => exact wp_mono (hh e h he t) (fun _ u => htrans s t u ht) (fun _ u => htrans s t u ht)

theorem Keeps.ensuring {leaves : ε → Bool} {cleanup : σ → σ} {m : EStateM ε σ α} (hm : Keeps R m)
    (hc : ∀ s, R s (cleanup s)) : Keeps R (ensuring leaves cleanup m) := fun s => by
  rw [wp_ensuring]
  refine wp_mono (hm s) (fun _ t ht => htrans s t _ ht (hc t)) (fun e t ht => ?_)
  split
  · exact htrans s t _ ht (hc t)
  · exact ht

end Keeps

end Lib
end PicoRecorder
