import Mathlib.Data.List.Chain
import Mathlib.Data.List.Nodup
import Mathlib.Data.List.Perm.Subperm

/-!
A depth-first search that emits a node after the nodes it refers to. A node is unvisited, on the
path that is being followed, or emitted; to meet one on the path is to have found a cycle.
-/

namespace SpatiumDdi.DepthFirst

variable {α : Type} [DecidableEq α]

inductive Mark where
  | unvisited
  | onPath
  | emitted
  deriving DecidableEq

structure State (α : Type) where
  marks : α → Mark
  ordered : List α

/-- Why a search stops: a node of its own path, or too little fuel. -/
inductive Stop (α : Type) where
  | cycle (node : α) (path : List α)
  | fuel

def State.empty : State α := ⟨fun _ => .unvisited, []⟩

def State.mark (s : State α) (a : α) (m : Mark) : State α :=
  { s with marks := fun b => if b = a then m else s.marks b }

def State.emit (s : State α) (a : α) : State α :=
  { s.mark a .emitted with ordered := s.ordered ++ [a] }

def visit (refs : α → List α) : ℕ → List α → State α → α → Except (Stop α) (State α)
  | 0, _, _, _ => .error .fuel
  | fuel + 1, path, s, a =>
    match s.marks a with
    | .emitted => .ok s
    | .onPath => .error (.cycle a path)
    | .unvisited => do
      let s ← (refs a).foldlM (visit refs fuel (path ++ [a])) (s.mark a .onPath)
      return s.emit a

def order (refs : α → List α) (nodes : List α) : Except (Stop α) (List α) := do
  let s ← nodes.foldlM (visit refs (nodes.length + 1) []) State.empty
  return s.ordered

/-- A list has before each member all that a relation has it lead to. -/
def Respects (r : α → α → Prop) (l : List α) : Prop :=
  ∀ pre a post, l = pre ++ a :: post → ∀ b, r a b → b ∈ pre

def Refers (refs : α → List α) (a b : α) : Prop := b ∈ refs a

variable {r : α → α → Prop} {refs : α → List α} {l nodes path : List α} {s : State α} {a b : α}

omit [DecidableEq α] in
theorem respects_nil : Respects r [] := by
  intro pre a post h
  cases pre <;> cases h

omit [DecidableEq α] in
theorem Respects.concat (h : Respects r l) (ha : ∀ b, r a b → b ∈ l) : Respects r (l ++ [a]) := by
  intro pre x post heq b hb
  rcases List.eq_nil_or_concat post with rfl | ⟨init, last, rfl⟩
  · obtain ⟨rfl, hx⟩ := List.append_inj' heq rfl
    obtain rfl : a = x := by simpa using hx
    exact ha b hb
  · rw [List.concat_eq_append, ← List.cons_append, ← List.append_assoc] at heq
    obtain ⟨rfl, -⟩ := List.append_inj' heq rfl
    exact h pre x init rfl b hb

omit [DecidableEq α] in
theorem Respects.mem_of_transGen (h : Respects r l) (hab : Relation.TransGen r a b)
    {pre post : List α} (hl : l = pre ++ a :: post) : b ∈ pre := by
  induction hab using Relation.TransGen.head_induction_on generalizing pre post with
  | single hab => exact h pre _ post hl b hab
  | head hac _ ih =>
    obtain ⟨pre', post', rfl⟩ := List.append_of_mem (h pre _ post hl _ hac)
    exact List.mem_append_left _ (ih (hl.trans (List.append_assoc _ _ _)))

omit [DecidableEq α] in
theorem Respects.not_transGen (h : Respects r l) (hnodup : l.Nodup) (ha : a ∈ l) :
    ¬ Relation.TransGen r a a := by
  intro hcycle
  obtain ⟨pre, post, hl⟩ := List.append_of_mem ha
  have hmem := h.mem_of_transGen hcycle hl
  rw [hl, List.nodup_append] at hnodup
  exact hnodup.2.2 a hmem a List.mem_cons_self rfl

structure Path (refs : α → List α) (nodes path : List α) : Prop where
  nodup : path.Nodup
  among : ∀ a ∈ path, a ∈ nodes
  chain : path.IsChain (Refers refs)

structure Inv (refs : α → List α) (nodes path : List α) (s : State α) : Prop where
  emitted : ∀ a, s.marks a = .emitted ↔ a ∈ s.ordered
  onPath : ∀ a, s.marks a = .onPath ↔ a ∈ path
  nodup : s.ordered.Nodup
  among : ∀ a ∈ s.ordered, a ∈ nodes
  respects : Respects (Refers refs) s.ordered

omit [DecidableEq α] in
theorem inv_empty : Inv refs nodes [] (State.empty : State α) where
  emitted a := by simp [State.empty]
  onPath a := by simp [State.empty]
  nodup := List.nodup_nil
  among a ha := by cases ha
  respects := respects_nil

theorem Inv.mark (h : Inv refs nodes path s) (ha : s.marks a = .unvisited) :
    Inv refs nodes (path ++ [a]) (s.mark a .onPath) where
  emitted b := by
    rw [State.mark]
    by_cases hb : b = a
    · have hnot := mt (h.emitted b).mpr (by rw [hb, ha]; decide)
      simp [hb, hb ▸ hnot]
    · simpa [hb] using h.emitted b
  onPath b := by
    rw [State.mark]
    by_cases hb : b = a
    · simp [hb]
    · simpa [hb] using h.onPath b
  nodup := h.nodup
  among := h.among
  respects := h.respects

theorem Inv.emit (h : Inv refs nodes (path ++ [a]) s) (hnot : a ∉ path) (hnode : a ∈ nodes)
    (hrefs : ∀ b ∈ refs a, b ∈ s.ordered) : Inv refs nodes path (s.emit a) where
  emitted b := by
    by_cases hb : b = a
    · simp [State.emit, State.mark, hb]
    · simpa [State.emit, State.mark, hb] using h.emitted b
  onPath b := by
    by_cases hb : b = a
    · simp [State.emit, State.mark, hb, hnot]
    · simpa [State.emit, State.mark, hb] using h.onPath b
  nodup := by
    have hmark : s.marks a = .onPath := (h.onPath a).mpr (by simp)
    have hnew : a ∉ s.ordered := fun hmem => by
      rw [(h.emitted a).mpr hmem] at hmark
      cases hmark
    refine List.nodup_append.mpr ⟨h.nodup, List.nodup_singleton a, fun b hb c hc => ?_⟩
    rw [List.mem_singleton.mp hc]
    rintro rfl
    exact hnew hb
  among b hb := by
    rcases List.mem_append.mp hb with hb | hb
    · exact h.among b hb
    · rw [List.mem_singleton.mp hb]
      exact hnode
  respects := h.respects.concat hrefs

/-- The step from the end of the path to a node. -/
def Reached (refs : α → List α) (path : List α) (a : α) : Prop :=
  ∀ last ∈ path.getLast?, Refers refs last a

omit [DecidableEq α] in
theorem Path.concat (h : Path refs nodes path) (hnot : a ∉ path) (hnode : a ∈ nodes)
    (hreached : Reached refs path a) : Path refs nodes (path ++ [a]) where
  nodup := by
    refine List.nodup_append.mpr ⟨h.nodup, List.nodup_singleton a, fun b hb c hc => ?_⟩
    rw [List.mem_singleton.mp hc]
    rintro rfl
    exact hnot hb
  among b hb := by
    rcases List.mem_append.mp hb with hb | hb
    · exact h.among b hb
    · rw [List.mem_singleton.mp hb]
      exact hnode
  chain := by
    refine List.isChain_append.mpr ⟨h.chain, List.isChain_singleton a, fun last hlast b hb => ?_⟩
    obtain rfl : a = b := by simpa using hb
    exact hreached last hlast

omit [DecidableEq α] in
theorem Path.cycle (h : Path refs nodes path) (hreached : Reached refs path a) (hmem : a ∈ path) :
    Relation.TransGen (Refers refs) a a := by
  obtain ⟨pre, post, rfl⟩ := List.append_of_mem hmem
  have hchain : (a :: post).IsChain (Refers refs) := (List.isChain_append.mp h.chain).2.1
  have hforward := List.relationReflTransGen_of_exists_isChain_cons post hchain rfl
  have hback : Refers refs ((a :: post).getLast (List.cons_ne_nil a post)) a := by
    refine hreached _ ?_
    rw [List.getLast?_append, List.getLast?_eq_getLast_of_ne_nil (List.cons_ne_nil a post)]
    rfl
  exact Relation.TransGen.tail' hforward hback

def Visited (refs : α → List α) (nodes path : List α) (s : State α) (l : List α) :
    Except (Stop α) (State α) → Prop
  | .ok s' => Inv refs nodes path s' ∧ (∀ a ∈ l, a ∈ s'.ordered) ∧ ∀ a ∈ s.ordered, a ∈ s'.ordered
  | .error (.cycle a _) => a ∈ nodes ∧ Relation.TransGen (Refers refs) a a
  | .error .fuel => False

omit [DecidableEq α] in
theorem visited_foldlM {f : State α → α → Except (Stop α) (State α)} (h : Inv refs nodes path s)
    (hf : ∀ s, Inv refs nodes path s → ∀ a ∈ l, Visited refs nodes path s [a] (f s a)) :
    Visited refs nodes path s l (l.foldlM f s) := by
  induction l generalizing s with
  | nil => exact ⟨h, fun _ ha => (List.not_mem_nil ha).elim, fun _ ha => ha⟩
  | cons a l ih =>
    have hstep := hf s h a List.mem_cons_self
    rw [List.foldlM_cons]
    cases hrun : f s a with
    | error stop =>
      rw [hrun] at hstep
      cases stop with
      | cycle b path => exact hstep
      | fuel => exact hstep
    | ok s₁ =>
      rw [hrun] at hstep
      obtain ⟨hinv, hmem, hmono⟩ := hstep
      have hrest := ih hinv fun s hs b hb => hf s hs b (List.mem_cons_of_mem _ hb)
      change Visited refs nodes path s (a :: l) (l.foldlM f s₁)
      cases hfold : l.foldlM f s₁ with
      | error stop =>
        rw [hfold] at hrest
        cases stop with
        | cycle b path => exact hrest
        | fuel => exact hrest
      | ok s₂ =>
        rw [hfold] at hrest
        obtain ⟨hinv₂, hmem₂, hmono₂⟩ := hrest
        refine ⟨hinv₂, fun b hb => ?_, fun b hb => hmono₂ b (hmono b hb)⟩
        rcases List.mem_cons.mp hb with rfl | hb
        · exact hmono₂ b (hmem b List.mem_cons_self)
        · exact hmem₂ b hb

theorem visit_spec (hclosed : ∀ a ∈ nodes, ∀ b ∈ refs a, b ∈ nodes) (fuel : ℕ)
    (hpath : Path refs nodes path) (hfuel : nodes.length < fuel + path.length)
    (hinv : Inv refs nodes path s) (hnode : a ∈ nodes) (hreached : Reached refs path a) :
    Visited refs nodes path s [a] (visit refs fuel path s a) := by
  induction fuel generalizing path s a with
  | zero =>
    have hlen := (List.subperm_of_subset hpath.nodup hpath.among).length_le
    omega
  | succ fuel ih =>
    rw [visit]
    cases hmark : s.marks a with
    | emitted =>
      refine ⟨hinv, fun b hb => ?_, fun _ hb => hb⟩
      rw [List.mem_singleton.mp hb]
      exact (hinv.emitted a).mp hmark
    | onPath => exact ⟨hnode, hpath.cycle hreached ((hinv.onPath a).mp hmark)⟩
    | unvisited =>
      have hnot : a ∉ path := fun hmem => by
        rw [(hinv.onPath a).mpr hmem] at hmark
        cases hmark
      have hlen : nodes.length < fuel + (path ++ [a]).length := by
        rw [List.length_append, List.length_singleton]
        omega
      have hfold := visited_foldlM (hinv.mark hmark) fun s hs b hb =>
        ih (hpath.concat hnot hnode hreached) hlen hs (hclosed a hnode b hb)
          fun last hlast => by
            rw [List.getLast?_concat] at hlast
            rwa [← Option.some.inj hlast]
      dsimp only
      cases hrun : (refs a).foldlM (visit refs fuel (path ++ [a])) (s.mark a .onPath) with
      | error stop =>
        rw [hrun] at hfold
        cases stop with
        | cycle b path => exact hfold
        | fuel => exact hfold
      | ok s' =>
        rw [hrun] at hfold
        obtain ⟨hinv', hmem, hmono⟩ := hfold
        refine ⟨hinv'.emit hnot hnode hmem, fun b hb => ?_, fun b hb => ?_⟩
        · rw [List.mem_singleton.mp hb]
          exact List.mem_append_right _ (List.mem_singleton_self a)
        · exact List.mem_append_left _ (hmono b hb)

/-- The nodes are put in order, or some node leads back to itself. -/
theorem order_spec (hnodup : nodes.Nodup) (hclosed : ∀ a ∈ nodes, ∀ b ∈ refs a, b ∈ nodes) :
    (∃ l, order refs nodes = .ok l ∧ l.Perm nodes ∧ Respects (Refers refs) l) ∨
      ∃ a path, order refs nodes = .error (.cycle a path) ∧ a ∈ nodes ∧
        Relation.TransGen (Refers refs) a a := by
  have hpath : Path refs nodes [] := 
    ⟨List.nodup_nil, fun _ ha => (List.not_mem_nil ha).elim, List.isChain_nil⟩
  have hrun := visited_foldlM (@inv_empty _ refs nodes)
    fun s hs a ha => visit_spec hclosed (nodes.length + 1) hpath (by simp) hs ha
      fun last hlast => by cases hlast
  rw [order]
  cases hfold : nodes.foldlM (visit refs (nodes.length + 1) []) (State.empty : State α) with
  | error stop =>
    rw [hfold] at hrun
    cases stop with
    | cycle a path => exact .inr ⟨a, path, rfl, hrun⟩
    | fuel => exact hrun.elim
  | ok s =>
    rw [hfold] at hrun
    obtain ⟨hinv, hmem, -⟩ := hrun
    exact .inl ⟨s.ordered, rfl,
      (List.perm_ext_iff_of_nodup hinv.nodup hnodup).mpr fun a => ⟨hinv.among a, hmem a⟩,
      hinv.respects⟩

end SpatiumDdi.DepthFirst
