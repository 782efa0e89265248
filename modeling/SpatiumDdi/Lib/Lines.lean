import SpatiumDdi.Lib.Text

/-!
Lines and words of a text: `str.splitlines`, `str.replace` of two characters, and runs of one
character written once.
-/

namespace SpatiumDdi.Text

/-- What `str.splitlines` ends a line at. -/
def isBreak (c : Char) : Bool :=
  let n := c.toNat
  (0x0A ≤ n && n ≤ 0x0D) || (0x1C ≤ n && n ≤ 0x1E) || n == 0x85 || n == 0x2028 || n == 0x2029

theorem isSpace_of_isBreak {c : Char} (h : isBreak c = true) : isSpace c = true := by
  simp only [isBreak, Bool.or_eq_true, Bool.and_eq_true, decide_eq_true_eq, beq_iff_eq] at h
  simp only [isSpace, Bool.or_eq_true, Bool.and_eq_true, decide_eq_true_eq, beq_iff_eq]
  omega

/-- The lines of a text, `acc` being what the first of them starts with. -/
def splitLinesFrom (acc : List Char) : List Char → List (List Char)
  | [] => if acc = [] then [] else [acc]
  | '\r' :: '\n' :: rest => acc :: splitLinesFrom [] rest
  | c :: rest => if isBreak c then acc :: splitLinesFrom [] rest else splitLinesFrom (acc ++ [c]) rest

def splitLines (s : List Char) : List (List Char) := splitLinesFrom [] s

theorem splitLinesFrom_cons {c : Char} (h : isBreak c = false) (acc rest : List Char) :
    splitLinesFrom acc (c :: rest) = splitLinesFrom (acc ++ [c]) rest := by
  rw [splitLinesFrom, h]
  · exact if_neg Bool.false_ne_true
  · rintro rest' rfl _
    cases h

variable {line : List Char}

theorem splitLinesFrom_append (h : ∀ c ∈ line, isBreak c = false) (acc rest : List Char) :
    splitLinesFrom acc (line ++ rest) = splitLinesFrom (acc ++ line) rest := by
  induction line generalizing acc with
  | nil => rw [List.append_nil, List.nil_append]
  | cons c line ih =>
    obtain ⟨hc, hline⟩ := List.forall_mem_cons.mp h
    rw [List.cons_append, splitLinesFrom_cons hc, ih hline, List.append_assoc, List.singleton_append]

theorem splitLines_line (h : ∀ c ∈ line, isBreak c = false) (rest : List Char) :
    splitLines (line ++ '\n' :: rest) = line :: splitLines rest := by
  rw [splitLines, splitLinesFrom_append h, List.nil_append, splitLines]
  cases rest <;> rfl

theorem splitLines_flatMap {lines : List (List Char)}
    (h : ∀ line ∈ lines, ∀ c ∈ line, isBreak c = false) :
    splitLines (lines.flatMap fun line => line ++ ['\n']) = lines := by
  induction lines with
  | nil => rfl
  | cons line lines ih =>
    obtain ⟨hline, hlines⟩ := List.forall_mem_cons.mp h
    rw [List.flatMap_cons, List.append_assoc, List.singleton_append, splitLines_line hline,
      ih hlines]

/-- `str.replace` of the text `a b`. -/
def replaceTwo (a b : Char) (new : List Char) : List Char → List Char
  | x :: y :: rest =>
    if x = a ∧ y = b then new ++ replaceTwo a b new rest else x :: replaceTwo a b new (y :: rest)
  | s => s

theorem replaceTwo_hit (a b : Char) (new rest : List Char) :
    replaceTwo a b new (a :: b :: rest) = new ++ replaceTwo a b new rest := by
  rw [replaceTwo, if_pos ⟨rfl, rfl⟩]

theorem replaceTwo_ne {a x : Char} (h : x ≠ a) (b : Char) (new s : List Char) :
    replaceTwo a b new (x :: s) = x :: replaceTwo a b new s := by
  cases s with
  | nil => rfl
  | cons y s => rw [replaceTwo, if_neg fun hand => h hand.1]

theorem replaceTwo_other {b : Char} {s : List Char} (h : s.head? ≠ some b) (a x : Char)
    (new : List Char) :
    replaceTwo a b new (x :: s) = x :: replaceTwo a b new s := by
  cases s with
  | nil => rfl
  | cons y s => rw [replaceTwo, if_neg fun hand => h (congrArg some hand.2)]

section Squeeze

variable {α : Type} [DecidableEq α]

/-- Each run of `b` as one. -/
def squeeze (b : α) : List α → List α
  | [] => []
  | a :: rest => if a = b ∧ rest.head? = some b then squeeze b rest else a :: squeeze b rest

variable {b a : α} {rest : List α}

theorem squeeze_of_ne (h : a ≠ b) (rest : List α) :
    squeeze b (a :: rest) = a :: squeeze b rest := by
  rw [squeeze, if_neg fun hand => h hand.1]

theorem squeeze_again (h : rest.head? = some b) : squeeze b (b :: rest) = squeeze b rest := by
  rw [squeeze, if_pos ⟨rfl, h⟩]

theorem squeeze_once (h : rest.head? ≠ some b) : squeeze b (b :: rest) = b :: squeeze b rest := by
  rw [squeeze, if_neg fun hand => h hand.2]

variable {s : List α}

theorem squeeze_append_of_not_mem (h : b ∉ s) (rest : List α) :
    squeeze b (s ++ rest) = s ++ squeeze b rest := by
  induction s with
  | nil => rfl
  | cons a s ih =>
    obtain ⟨ha, hs⟩ := not_or.mp (mt List.mem_cons.mpr h)
    rw [List.cons_append, squeeze_of_ne (Ne.symm ha), ih hs, List.cons_append]

theorem squeeze_length_le (b : α) (s : List α) : (squeeze b s).length ≤ s.length := by
  induction s with
  | nil => exact Nat.le_refl 0
  | cons a s ih =>
    rw [squeeze]
    split
    · exact Nat.le_succ_of_le ih
    · exact Nat.succ_le_succ ih

/-- Two of them stand side by side. -/
def Doubled (b : α) (s : List α) : Prop := [b, b] <:+: s

instance (b : α) (s : List α) : Decidable (Doubled b s) :=
  inferInstanceAs (Decidable ([b, b] <:+: s))

omit [DecidableEq α] in
theorem not_doubled_nil (b : α) : ¬ Doubled b [] := fun h => by cases List.infix_nil.mp h

omit [DecidableEq α] in
theorem doubled_cons : Doubled b (a :: s) ↔ a = b ∧ s.head? = some b ∨ Doubled b s := by
  rw [Doubled, List.infix_cons_iff, List.cons_prefix_cons,
    List.singleton_prefix_iff_head?_eq_some, eq_comm (a := b), Doubled]

theorem squeeze_length_eq_iff : (squeeze b s).length = s.length ↔ ¬ Doubled b s := by
  induction s with
  | nil => exact ⟨fun _ => not_doubled_nil b, fun _ => rfl⟩
  | cons a s ih =>
    rw [doubled_cons, not_or, squeeze]
    split
    next hdouble =>
      have hle := squeeze_length_le b s
      rw [List.length_cons]
      exact ⟨fun h => absurd h (by omega), fun h => absurd hdouble h.1⟩
    next hdouble =>
      rw [List.length_cons, List.length_cons, Nat.succ_inj, ih]
      exact ⟨fun h => ⟨hdouble, h⟩, fun h => h.2⟩

theorem squeeze_of_not_doubled (h : ¬ Doubled b s) : squeeze b s = s := by
  induction s with
  | nil => rfl
  | cons a s ih =>
    rw [doubled_cons, not_or] at h
    rw [squeeze, if_neg h.1, ih h.2]

theorem flatten_squeeze_length_le (b : α) (ss : List (List α)) :
    (ss.map (squeeze b)).flatten.length ≤ ss.flatten.length := by
  induction ss with
  | nil => exact Nat.le_refl 0
  | cons s ss ih =>
    rw [List.map_cons, List.flatten_cons, List.flatten_cons, List.length_append, List.length_append]
    exact Nat.add_le_add (squeeze_length_le b s) ih

theorem flatten_squeeze_eq_iff {ss : List (List α)} :
    (ss.map (squeeze b)).flatten = ss.flatten ↔ ∀ s ∈ ss, ¬ Doubled b s := by
  constructor
  · intro h
    induction ss with
    | nil => exact nofun
    | cons s ss ih =>
      rw [List.map_cons, List.flatten_cons, List.flatten_cons] at h
      have hlen := congrArg List.length h
      rw [List.length_append, List.length_append] at hlen
      have hhead := squeeze_length_le b s
      have htail := flatten_squeeze_length_le b ss
      obtain ⟨_, hss⟩ := List.append_inj h (by omega)
      exact List.forall_mem_cons.mpr ⟨squeeze_length_eq_iff.mp (by omega), ih hss⟩
  · intro h
    rw [List.map_congr_left fun s hs => squeeze_of_not_doubled (h s hs), List.map_id']

end Squeeze

end SpatiumDdi.Text
