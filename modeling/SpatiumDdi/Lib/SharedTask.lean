import Mathlib.Logic.Relation

/-!
Tasks that share a state. A task calls on the state and goes on by what it is
answered; between two of its calls the others change the state as they like,
within what they may be relied on for. A task is safe when every call it makes is
allowed in whatever state it is made, and its result satisfies a postcondition in
the state it returns in.
-/

namespace SpatiumDdi

/-- A task that makes calls, each answered by a `Reply`, and returns an `α`. -/
inductive Task {Call : Type} (Reply : Call → Type) (α : Type) where
  | ret (a : α)
  | call (c : Call) (next : Reply c → Task Reply α)

namespace Task

variable {Call : Type} {Reply : Call → Type} {α β σ : Type}

def bind : Task Reply α → (α → Task Reply β) → Task Reply β
  | .ret a, k => k a
  | .call c next, k => .call c fun r => (next r).bind k

instance : Monad (Task Reply) where
  pure := .ret
  bind := .bind

def ask (c : Call) : Task Reply (Reply c) := .call c .ret

end Task

/-- What a task may rely on while it waits, which calls it may make, and what a
call may do and answer. -/
structure Protocol {Call : Type} (Reply : Call → Type) (σ : Type) where
  rely : σ → σ → Prop
  may : Call → σ → Prop
  does : (c : Call) → σ → Reply c → σ → Prop
  refl : ∀ s, rely s s
  trans : ∀ s t u, rely s t → rely t u → rely s u

namespace Task

variable {Call : Type} {Reply : Call → Type} {α β σ : Type} {P : Protocol Reply σ}

/-- From `s`, whatever the others do, the task makes only calls it may make and
returns with the postcondition. -/
def Safe (P : Protocol Reply σ) : Task Reply α → (α → σ → Prop) → σ → Prop
  | .ret a, post, s => post a s
  | .call c next, post, s =>
    ∀ t, P.rely s t → P.may c t ∧ ∀ r u, P.does c t r u → (next r).Safe P post u

variable {post post' : α → σ → Prop} {s t u : σ}

theorem safe_pure {a : α} (h : post a s) : (pure a : Task Reply α).Safe P post s := h

variable {c : Call}

theorem safe_ask {post : Reply c → σ → Prop}
    (h : ∀ t, P.rely s t → P.may c t ∧ ∀ r u, P.does c t r u → post r u) :
    (ask c : Task Reply (Reply c)).Safe P post s :=
  h

variable {p : Task Reply α} {next : Reply c → Task Reply α}

theorem Safe.bind {k : α → Task Reply β} {post : β → σ → Prop}
    (h : p.Safe P (fun a => (k a).Safe P post) s) : (p >>= k).Safe P post s := by
  change (p.bind k).Safe P post s
  induction p generalizing s with
  | ret a => exact h
  | call c next ih =>
    intro t ht
    obtain ⟨hmay, hnext⟩ := h t ht
    exact ⟨hmay, fun r u hr => ih r (hnext r u hr)⟩

theorem Safe.mono (h : p.Safe P post s) (himp : ∀ a t, post a t → post' a t) :
    p.Safe P post' s := by
  induction p generalizing s with
  | ret a => exact himp a s h
  | call c next ih =>
    intro t ht
    obtain ⟨hmay, hnext⟩ := h t ht
    exact ⟨hmay, fun r u hr => ih r (hnext r u hr)⟩

theorem safe_ite {c : Prop} {_ : Decidable c} {q : Task Reply α} (hp : c → p.Safe P post s)
    (hq : ¬c → q.Safe P post s) : (if c then p else q).Safe P post s := by
  by_cases h : c
  · rw [if_pos h]
    exact hp h
  · rw [if_neg h]
    exact hq h

section

variable (h : (Task.call c next).Safe P post s)
include h

theorem Safe.rely (hst : P.rely s t) : (Task.call c next).Safe P post t :=
  fun u htu => h u (P.trans s t u hst htu)

theorem Safe.may : P.may c s :=
  (h s (P.refl s)).1

theorem Safe.reply {r : Reply c} (hr : P.does c s r t) : (next r).Safe P post t :=
  (h s (P.refl s)).2 r t hr

end

end Task

end SpatiumDdi
