import Mathlib.Data.List.Infix

/-!
The pattern test of SQL's `LIKE`, and patterns that match a text as it stands.
-/

namespace SpatiumDdi.Like

/-- Whether a text matches a pattern: `%` stands for any text, `_` for one character, and a
backslash takes the next one as it is. -/
def like : List Char → List Char → Bool
  | [], s => s.isEmpty
  | '%' :: p, s => s.tails.any (like p)
  | '_' :: p, s =>
    match s with
    | [] => false
    | _ :: s => like p s
  | '\\' :: c :: p, s =>
    match s with
    | [] => false
    | d :: s => d = c && like p s
  | c :: p, s =>
    match s with
    | [] => false
    | d :: s => d = c && like p s

/-- The characters a pattern gives a meaning to. -/
def special (c : Char) : Bool := c = '\\' || c = '%' || c = '_'

/-- One replacement of a character by its escaped form. -/
def guard (mark : Char) (text : List Char) : List Char :=
  text.flatMap fun c => if c = mark then ['\\', c] else [c]

def escape (text : List Char) : List Char :=
  text.flatMap fun c => if special c then ['\\', c] else [c]

/-- Escaping the backslash first, the three replacements escape every special character once. -/
theorem guard_guard_guard (text : List Char) :
    guard '_' (guard '%' (guard '\\' text)) = escape text := by
  induction text with
  | nil => rfl
  | cons c text ih =>
    have hsplit : guard '_' (guard '%' (guard '\\' (c :: text))) =
        guard '_' (guard '%' (if c = '\\' then ['\\', c] else [c])) ++ escape text := by
      rw [← ih]
      simp only [guard, List.flatMap_cons, List.flatMap_append]
    have hescape : escape (c :: text) = (if special c then ['\\', c] else [c]) ++ escape text := by
      simp only [escape, List.flatMap_cons]
    rw [hsplit, hescape]
    congr 1
    by_cases hslash : c = '\\'
    · subst hslash; rfl
    · by_cases hpercent : c = '%'
      · subst hpercent; rfl
      · by_cases hunder : c = '_'
        · subst hunder; rfl
        · simp [guard, special, hslash, hpercent, hunder]

theorem like_percent (p s : List Char) :
    like ('%' :: p) s = true ↔ ∃ lead rest, s = lead ++ rest ∧ like p rest = true := by
  rw [like, List.any_eq_true]
  constructor
  · rintro ⟨rest, hrest, h⟩
    obtain ⟨lead, rfl⟩ := List.mem_tails _ _ |>.1 hrest
    exact ⟨lead, rest, rfl, h⟩
  · rintro ⟨lead, rest, rfl, h⟩
    exact ⟨rest, (List.mem_tails _ _).2 (List.suffix_append lead rest), h⟩

theorem like_escaped_cons (c : Char) (p s : List Char) :
    like ('\\' :: c :: p) s = true ↔ ∃ rest, s = c :: rest ∧ like p rest = true := by
  cases s with
  | nil => simp [like]
  | cons d s => simp [like]

theorem like_plain_cons {c : Char} (hc : special c = false) (p s : List Char) :
    like (c :: p) s = true ↔ ∃ rest, s = c :: rest ∧ like p rest = true := by
  simp only [special, Bool.or_eq_false_iff, decide_eq_false_iff_not] at hc
  obtain ⟨⟨hslash, hpercent⟩, hunder⟩ := hc
  cases s with
  | nil => simp [like, hslash]
  | cons d s => simp [like, hslash]

theorem like_escape (text s : List Char) : like (escape text) s = true ↔ s = text := by
  induction text generalizing s with
  | nil => simp [escape, like]
  | cons c text ih =>
    have hcons : like (escape (c :: text)) s = true ↔
        ∃ rest, s = c :: rest ∧ like (escape text) rest = true := by
      cases hc : special c with
      | true =>
        rw [escape, List.flatMap_cons, if_pos hc]
        exact like_escaped_cons c (escape text) s
      | false =>
        rw [escape, List.flatMap_cons, if_neg (by simp [hc])]
        exact like_plain_cons hc (escape text) s
    rw [hcons]
    constructor
    · rintro ⟨rest, rfl, h⟩
      rw [(ih rest).1 h]
    · rintro rfl
      exact ⟨text, rfl, (ih text).2 rfl⟩

end SpatiumDdi.Like
