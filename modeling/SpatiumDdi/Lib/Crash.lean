import Mathlib.Data.List.Basic

/-!
Programs that may be killed. A program is a sequence of atomic actions on a
state, chosen by what it reads, and the process running it may end after any of
them. A weakest precondition states at once what holds after every action and
what holds when the program returns.
-/

namespace SpatiumDdi

/-- A program over the state `σ` that returns an `α`. -/
inductive Prog (σ α : Type) where
  | ret (a : α)
  /-- One atomic action. -/
  | act (f : σ → σ) (next : Prog σ α)
  /-- Continue by the state. -/
  | ask (next : σ → Prog σ α)

namespace Prog

variable {σ α β : Type}

def bind : Prog σ α → (α → Prog σ β) → Prog σ β
  | .ret a, k => k a
  | .act f next, k => .act f (next.bind k)
  | .ask next, k => .ask fun s => (next s).bind k

instance : Monad (Prog σ) where
  pure := .ret
  bind := .bind

def modify (f : σ → σ) : Prog σ Unit := .act f (.ret ())

def get : Prog σ σ := .ask .ret

def states : Prog σ α → σ → List σ
  | .ret _, _ => []
  | .act f next, s => f s :: next.states (f s)
  | .ask next, s => (next s).states s

/-- The value and the state where nothing cuts the program. -/
def run : Prog σ α → σ → α × σ
  | .ret a, s => (a, s)
  | .act f next, s => next.run (f s)
  | .ask next, s => (next s).run s

/-- From `s`, `during` holds after every action and `post` at the end. -/
def wp : Prog σ α → (σ → Prop) → (α → σ → Prop) → σ → Prop
  | .ret a, _, post, s => post a s
  | .act f next, during, post, s => during (f s) ∧ next.wp during post (f s)
  | .ask next, during, post, s => (next s).wp during post s

variable {during during' : σ → Prop} {post post' : α → σ → Prop} {s : σ}

@[simp] theorem wp_pure (a : α) :
    (pure a : Prog σ α).wp during post s ↔ post a s :=
  Iff.rfl

@[simp] theorem wp_bind (p : Prog σ α) (k : α → Prog σ β) (post : β → σ → Prop) :
    (p >>= k).wp during post s ↔ p.wp during (fun a => (k a).wp during post) s := by
  change (p.bind k).wp during post s ↔ _
  induction p generalizing s with
  | ret a => rfl
  | act f next ih => simp only [bind, wp, ih]
  | ask next ih => simp only [bind, wp, ih]

@[simp] theorem wp_modify (f : σ → σ) (post : Unit → σ → Prop) :
    (modify f).wp during post s ↔ during (f s) ∧ post () (f s) :=
  Iff.rfl

@[simp] theorem wp_get (post : σ → σ → Prop) : (get : Prog σ σ).wp during post s ↔ post s s :=
  Iff.rfl

theorem wp_ite {c : Prop} {_ : Decidable c} {p q : Prog σ α} (hp : c → p.wp during post s)
    (hq : ¬c → q.wp during post s) :
    (if c then p else q).wp during post s := by
  by_cases h : c
  · rw [if_pos h]
    exact hp h
  · rw [if_neg h]
    exact hq h

theorem wp_mono (hduring : ∀ s, during s → during' s) (hpost : ∀ a s, post a s → post' a s)
    (p : Prog σ α) (h : p.wp during post s) :
    p.wp during' post' s := by
  induction p generalizing s with
  | ret a => exact hpost a s h
  | act f next ih => exact ⟨hduring _ h.1, ih h.2⟩
  | ask next ih => exact ih s h

theorem wp_post (hpost : ∀ a s, post a s → post' a s) (p : Prog σ α)
    (h : p.wp during post s) :
    p.wp during post' s :=
  wp_mono (fun _ h => h) hpost p h

theorem wp_seq {k : α → Prog σ β} {post : β → σ → Prop} {left : α → σ → Prop}
    (hk : ∀ a s, left a s → (k a).wp during post s) (p : Prog σ α) (h : p.wp during left s) :
    (p >>= k).wp during post s :=
  (wp_bind p k post).mpr (wp_post hk p h)

/-- The rule is exact: it speaks of the states passed and of the result. -/
theorem wp_iff (p : Prog σ α) :
    p.wp during post s ↔ (∀ t ∈ p.states s, during t) ∧ post (p.run s).1 (p.run s).2 := by
  induction p generalizing s with
  | ret a => simp [wp, states, run]
  | act f next ih => simp only [wp, states, run, ih, List.forall_mem_cons, and_assoc]
  | ask next ih => simp only [wp, states, run, ih]

attribute [irreducible] wp

/-- Every action of the program, from any state, stays within the relation. -/
def Within (R : σ → σ → Prop) (p : Prog σ α) : Prop :=
  ∀ s, p.wp (R s) (fun _ => R s) s

section Within

variable {R : σ → σ → Prop}

theorem within_pure (hrefl : ∀ s, R s s) (a : α) : Within R (pure a : Prog σ α) :=
  fun s => (wp_pure a).mpr (hrefl s)

theorem within_modify {f : σ → σ} (h : ∀ s, R s (f s)) : Within R (modify f) :=
  fun s => (wp_modify f _).mpr ⟨h s, h s⟩

theorem within_bind (htrans : ∀ s t u, R s t → R t u → R s u) {p : Prog σ α}
    {k : α → Prog σ β} (hp : Within R p) (hk : ∀ a, Within R (k a)) :
    Within R (p >>= k) := by
  intro s
  rw [wp_bind]
  apply wp_post _ p (hp s)
  intro a t hst
  exact wp_mono (fun u => htrans s t u hst) (fun _ u => htrans s t u hst) (k a) (hk a t)

theorem within_get {k : σ → Prog σ β} (hk : ∀ s, Within R (k s)) : Within R (get >>= k) := by
  intro s
  rw [wp_bind, wp_get]
  exact hk s s

end Within

/-- What a program that nothing cuts returns and leaves, by what can be seen of the state. -/
def Through {τ : Type} (view : σ → τ) (v : τ) (p : Prog σ α) (post : α → τ → Prop) : Prop :=
  ∀ s, view s = v → p.wp (fun _ => True) (fun a t => post a (view t)) s

namespace Through

variable {τ : Type} {view : σ → τ} {v w : τ} {p q : Prog σ α} {k : α → Prog σ β}
  {post mid : α → τ → Prop} {post' : β → τ → Prop} {f : σ → σ}

theorem pure {a : α} (h : post a v) : Through view v (pure a) post :=
  fun _ hs => (wp_pure a).mpr (hs ▸ h)

theorem bind (hp : Through view v p mid) (hk : ∀ a w, mid a w → Through view w (k a) post') :
    Through view v (p >>= k) post' :=
  fun s hs => wp_seq (fun a t ht => hk a _ ht t rfl) p (hp s hs)

theorem mono (hp : Through view v p mid) (h : ∀ a w, mid a w → post a w) :
    Through view v p post :=
  fun s hs => wp_post (fun a t => h a (view t)) p (hp s hs)

theorem ite {c : Prop} {_ : Decidable c} (hp : c → Through view v p post)
    (hq : ¬c → Through view v q post) :
    Through view v (if c then p else q) post :=
  fun s hs => wp_ite (fun h => hp h s hs) fun h => hq h s hs

theorem get {k : σ → Prog σ β} (hk : ∀ s, view s = v → Through view v (k s) post') :
    Through view v (Prog.get >>= k) post' :=
  fun s hs => (wp_bind Prog.get k _).mpr ((wp_get _).mpr (hk s hs s hs))

theorem modify {post : Unit → τ → Prop} (hf : ∀ s, view s = v → view (f s) = w)
    (h : post () w) :
    Through view v (Prog.modify f) post :=
  fun s hs => (wp_modify f _).mpr ⟨trivial, hf s hs ▸ h⟩

theorem step {k : Unit → Prog σ β} (w : τ) (hf : ∀ s, view s = v → view (f s) = w)
    (hk : Through view w (k ()) post') :
    Through view v (Prog.modify f >>= k) post' :=
  fun s hs => (wp_bind _ k _).mpr ((wp_modify f _).mpr ⟨trivial, hk _ (hf s hs)⟩)

/-- A program that leaves the view. -/
theorem within (hp : Within (fun s t => view t = view s) p) (h : ∀ a, post a v) :
    Through view v p post :=
  fun s hs => wp_mono (fun _ _ => trivial) (fun a _ ht => ht.trans hs ▸ h a) p (hp s)

theorem skip (hp : Within (fun s t => view t = view s) p)
    (hk : ∀ a, Through view v (k a) post') :
    Through view v (p >>= k) post' :=
  .bind (within hp fun _ => Eq.refl v) fun a _ (hw : v = _) => hw ▸ hk a

end Through

end Prog

/-- A machine whose programs may be cut: `crash` is what a kill leaves of the
state, `ready` says where a program may start and `endures` where a kill is
allowed to fall. -/
structure Killable (σ ι : Type) where
  prog : ι → Prog σ Unit
  crash : σ → σ
  ready : σ → ι → Prop
  endures : σ → Prop

namespace Killable

variable {σ ι : Type} (M : Killable σ ι)

/-- The states between two programs, or after a kill. -/
inductive Reach (init : σ) : σ → Prop
  | init : Reach init init
  | done {s : σ} (i : ι) : Reach init s → M.ready s i → Reach init ((M.prog i).run s).2
  | cut {s t : σ} (i : ι) : Reach init s → M.ready s i → t ∈ (M.prog i).states s →
      M.endures t → Reach init (M.crash t)

inductive Moment (init : σ) : σ → Prop
  | rest {s : σ} : M.Reach init s → Moment init s
  | within {s t : σ} (i : ι) : M.Reach init s → M.ready s i → t ∈ (M.prog i).states s →
      Moment init t

variable {M} {init : σ} {inv during : σ → Prop}

theorem Reach.invariant (hinit : inv init)
    (hstep : ∀ s i, inv s → M.ready s i → (M.prog i).wp during (fun _ => inv) s)
    (hcrash : ∀ t, during t → M.endures t → inv (M.crash t)) {s : σ} (h : M.Reach init s) :
    inv s := by
  induction h with
  | init => exact hinit
  | done i _ hready ih => exact ((Prog.wp_iff _).mp (hstep _ i ih hready)).2
  | cut i _ hready ht hend ih =>
    exact hcrash _ (((Prog.wp_iff _).mp (hstep _ i ih hready)).1 _ ht) hend

/-- An invariant of the rests that every action keeps in the sense of `during`
holds at every moment in that sense. -/
theorem Moment.invariant (hinit : inv init)
    (hstep : ∀ s i, inv s → M.ready s i → (M.prog i).wp during (fun _ => inv) s)
    (hcrash : ∀ t, during t → M.endures t → inv (M.crash t)) {t : σ} (h : M.Moment init t) :
    inv t ∨ during t := by
  cases h with
  | rest h => exact .inl (h.invariant hinit hstep hcrash)
  | within i h hready ht =>
    have hinv := h.invariant hinit hstep hcrash
    exact .inr (((Prog.wp_iff _).mp (hstep _ i hinv hready)).1 _ ht)

end Killable

end SpatiumDdi
