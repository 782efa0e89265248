import Mathlib.Data.List.Basic

/-!
Hash chains. Each row stores the hash of the row before it and its own hash,
computed from the stored one and its content. A chain may be cut and joined
where the last hash of the first part is the start of the second.
-/

namespace SpatiumDdi

/-- How rows of type `R` are chained by hashes of type `H`. -/
structure HashChain (R H : Type) where
  prev : R → Option H
  own : R → H
  /-- The hash of a row, from the stored previous one. -/
  recompute : R → H

namespace HashChain

variable {R H : Type} (K : HashChain R H)

/-- The rows chain from the hash `p`. -/
def Linked : Option H → List R → Prop
  | _, [] => True
  | p, r :: rest => K.prev r = p ∧ K.recompute r = K.own r ∧ Linked (some (K.own r)) rest

def tip (p : Option H) (rows : List R) : Option H :=
  match rows.getLast? with
  | some r => some (K.own r)
  | none => p

@[simp] theorem tip_nil (p : Option H) : K.tip p [] = p := rfl

@[simp] theorem tip_cons (p : Option H) (r : R) (rows : List R) :
    K.tip p (r :: rows) = K.tip (some (K.own r)) rows := by
  cases rows with
  | nil => rfl
  | cons s rest =>
    unfold tip
    rw [List.getLast?_cons_cons]
    cases h : (s :: rest).getLast? with
    | none => simp at h
    | some t => rfl

theorem tip_append (p : Option H) (xs ys : List R) :
    K.tip p (xs ++ ys) = K.tip (K.tip p xs) ys := by
  induction xs generalizing p with
  | nil => rfl
  | cons r xs ih => simp only [List.cons_append, tip_cons, ih]

theorem linked_append {p : Option H} {xs ys : List R} :
    K.Linked p (xs ++ ys) ↔ K.Linked p xs ∧ K.Linked (K.tip p xs) ys := by
  induction xs generalizing p with
  | nil => simp [Linked]
  | cons r xs ih => simp only [List.cons_append, Linked, tip_cons, ih, and_assoc]

end HashChain

end SpatiumDdi
