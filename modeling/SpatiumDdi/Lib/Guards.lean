import Mathlib.Init

/-!
Request handlers that run a list of guards and then write. A handler is a value
of `Except ε α`; these lemmas turn "the handler succeeded" into the facts its
guards checked.
-/

namespace SpatiumDdi

variable {ε α β : Type}

/-- Refuses with `e` unless `c` holds. -/
def require (c : Prop) [Decidable c] (e : ε) : Except ε Unit :=
  if c then .ok () else .error e

/-- The value of a lookup, or the refusal `e`. -/
def orRefuse (o : Option α) (e : ε) : Except ε α :=
  match o with
  | some a => .ok a
  | none => .error e

variable {x : Except ε α}

variable {b : β}

theorem bind_eq_ok {f : α → Except ε β} : (x >>= f) = .ok b ↔ ∃ a, x = .ok a ∧ f a = .ok b := by
  cases x <;> simp [bind, Except.bind]

theorem require_eq_ok {c : Prop} [Decidable c] {e : ε} {u : Unit} :
    require c e = .ok u ↔ c := by
  unfold require
  split <;> simp_all

variable {a : α}

variable {o : Option α}

theorem orRefuse_eq_ok {e : ε} : orRefuse o e = .ok a ↔ o = some a := by
  cases o <;> simp [orRefuse]

theorem pure_eq_ok {b : α} : (pure a : Except ε α) = .ok b ↔ a = b := by
  simp [pure, Except.pure]

theorem map_eq_ok {f : α → β} : x.map f = .ok b ↔ ∃ a, x = .ok a ∧ f a = b := by
  cases x <;> simp [Except.map]

theorem map_snd_eq_ok {x : Except ε (α × β)} : x.map Prod.snd = .ok b ↔ ∃ a, x = .ok (a, b) := by
  rcases x with _ | ⟨a, c⟩ <;> simp [Except.map]

theorem require_bind {c : Prop} [Decidable c] (hc : c) (e : ε) (f : Unit → Except ε α) :
    (require c e >>= f) = f () := by
  simp [require, hc, bind, Except.bind]

theorem orRefuse_bind (h : o = some a) (e : ε) (f : α → Except ε β) :
    (orRefuse o e >>= f) = f a := by
  simp [orRefuse, h, bind, Except.bind]

theorem ok_bind (h : x = .ok a) (f : α → Except ε β) : (x >>= f) = f a := by
  simp [h, bind, Except.bind]

theorem toOption_eq_some : x.toOption = some a ↔ x = .ok a := by
  cases x <;> simp [Except.toOption]

end SpatiumDdi
