import Mathlib.Data.List.Nodup

/-!
A set of values kept by rows, where several rows may hold the same value.

`survivors` follows the rows themselves: a put overlays its own row, a drop removes one
row, a wipe removes every row with a value. `run` keeps one entry for each value
instead, forgetting the twins of the entry it keeps. The two agree on the values exactly
when, for each value, the entry that was kept is removed later just in case no row with
the value survives.
-/

namespace SpatiumDdi.Twins

inductive Event (α I V : Type*)
  | put (a : α)
  | drop (i : I)
  | wipe (v : V)

variable {α I V : Type*} [DecidableEq I] [DecidableEq V] (value : α → V)
  (row : α → Option I)

def firsts (l : List α) : List α :=
  l.foldl (fun kept a => if kept.any fun k => value a = value k then kept else kept ++ [a]) []

def kept (l : List α) (v : V) : Option α := l.find? fun a => value a = v

def step (l : List α) : Event α I V → List α
  | .put a => firsts value ((l.filter fun b => value b ≠ value a) ++ [a])
  | .drop i => firsts value (l.filter fun b => row b ≠ some i)
  | .wipe v => firsts value (l.filter fun b => value b ≠ v)

def run (l : List α) (es : List (Event α I V)) : List α := es.foldl (step value row) l

def overlay (l : List α) : Event α I V → List α
  | .put a => (l.filter fun b => row b = none ∨ row b ≠ row a) ++ [a]
  | .drop i => l.filter fun b => row b ≠ some i
  | .wipe v => l.filter fun b => value b ≠ v

/-- The rows left after a batch of events. -/
def survivors (l : List α) (es : List (Event α I V)) : List α :=
  es.foldl (overlay value row) l

def Survives (l : List α) (es : List (Event α I V)) (v : V) : Prop :=
  ∃ a ∈ survivors value row l es, value a = v

/-- An event leaves an entry in place. -/
def spares (a : α) : Event α I V → Bool
  | .put _ => true
  | .drop i => row a ≠ some i
  | .wipe v => value a ≠ v

def putHere (v : V) (post : List (Event α I V)) :
    Event α I V → Option (α × List (Event α I V))
  | .put a => if value a = v then some (a, post) else none
  | .drop _ => none
  | .wipe _ => none

def lastPut (v : V) : List (Event α I V) → Option (α × List (Event α I V))
  | [] => none
  | e :: es => (lastPut v es).or (putHere value v es e)

/-- The entry kept for a value, with the events it has to outlive: that of the value's
last put, or else the first one the batch's first event spares. -/
def keeper (l : List α) (v : V) (es : List (Event α I V)) :
    Option (α × List (Event α I V)) :=
  match lastPut value v es with
  | some r => some r
  | none =>
    match es with
    | [] => none
    | e :: post =>
      (l.find? fun a => value a = v && spares value row a e).map fun a => (a, post)

variable {l : List α} {v : V}

omit [DecidableEq I] in
theorem mem_values_iff : v ∈ l.map value ↔ (kept value l v).isSome := by
  simp [kept, List.find?_isSome]

theorem kept_firsts (l : List α) (v : V) : kept value (firsts value l) v = kept value l v := by
  have hfold (acc : List α) : kept value (l.foldl (fun kept a =>
      if kept.any fun k => value a = value k then kept else kept ++ [a]) acc) v =
        kept value (acc ++ l) v := by
    induction l generalizing acc with
    | nil => simp
    | cons a l ih =>
      rw [List.foldl_cons, ih]
      split
      · rename_i hany
        obtain ⟨k, hk, hka⟩ := List.any_eq_true.mp hany
        simp only [decide_eq_true_eq] at hka
        by_cases hv : value a = v
        · have hsome : (acc.find? fun a => value a = v).isSome :=
            List.find?_isSome.mpr ⟨k, hk, by simpa [hka] using hv⟩
          simp [kept, List.find?_append, Option.or_of_isSome hsome]
        · simp [kept, List.find?_append, hv]
      · simp
  simpa [firsts] using hfold []

theorem nodup_firsts (l : List α) : ((firsts value l).map value).Nodup := by
  have hfold (acc : List α) (hacc : (acc.map value).Nodup) : ((l.foldl (fun kept a =>
      if kept.any fun k => value a = value k then kept else kept ++ [a]) acc).map
        value).Nodup := by
    induction l generalizing acc with
    | nil => simpa using hacc
    | cons a l ih =>
      rw [List.foldl_cons]
      split
      · exact ih acc hacc
      · rename_i hany
        apply ih
        rw [List.map_append, List.nodup_append]
        refine ⟨hacc, by simp, ?_⟩
        rintro v hv _ hmem rfl
        obtain rfl := List.mem_singleton.mp hmem
        obtain ⟨k, hk, hkv⟩ := List.mem_map.mp hv
        exact hany (List.any_eq_true.mpr ⟨k, hk, by simp [hkv]⟩)
  exact hfold [] (by simp)

theorem nodup_step (l : List α) (e : Event α I V) :
    ((step value row l e).map value).Nodup := by
  cases e <;> exact nodup_firsts value _

variable {es : List (Event α I V)} {r : α × List (Event α I V)}

theorem nodup_run (l : List α) (hes : es ≠ []) : ((run value row l es).map value).Nodup := by
  rw [← List.dropLast_append_getLast hes, run, List.foldl_append, List.foldl_cons,
    List.foldl_nil]
  exact nodup_step value row _ _

/-- What an event makes of the entry kept for `v`. -/
def keep (v : V) (k : Option α) : Event α I V → Option α
  | .put a => if value a = v then some a else k
  | .drop i => k.filter fun a => spares value row a (.drop i)
  | .wipe w => k.filter fun a => spares value row a (.wipe w)

omit [DecidableEq I] in
theorem kept_filter (l : List α) (p : α → Bool) (v : V) :
    kept value (l.filter p) v = l.find? fun a => value a = v && p a := by
  rw [kept, List.find?_filter]
  congr 1
  funext a
  cases p a <;> simp

theorem kept_step (l : List α) (v : V) (e : Event α I V) :
    kept value (step value row l e) v =
      match e with
      | .put a => if value a = v then some a else kept value l v
      | e => l.find? fun a => value a = v && spares value row a e := by
  cases e with
  | put a =>
    have happend : kept value ((l.filter fun b => value b ≠ value a) ++ [a]) v =
        (kept value (l.filter fun b => value b ≠ value a) v).or (kept value [a] v) :=
      List.find?_append
    rw [step, kept_firsts, happend, kept_filter]
    by_cases hv : value a = v
    · have hnone : (l.find? fun b => value b = v && decide (value b ≠ value a)) = none := by
        simp [List.find?_eq_none, hv]
      rw [hnone]
      simp [kept, hv]
    · have hsame : (fun b => decide (value b = v) && decide (value b ≠ value a)) =
          fun b => decide (value b = v) := by
        funext b
        by_cases hb : value b = v
        · simp [hb, Ne.symm hv]
        · simp [hb]
      rw [hsame]
      simp [kept, hv]
  | drop i => rw [step, kept_firsts, kept_filter]; rfl
  | wipe w => rw [step, kept_firsts, kept_filter]; rfl

section

variable (hl : (l.map value).Nodup)
include hl

theorem find?_and_of_nodup (v : V) (p : α → Bool) :
    (l.find? fun a => value a = v && p a) = (kept value l v).filter p := by
  induction l with
  | nil => simp [kept]
  | cons a l ih =>
    obtain ⟨hfresh, hl⟩ := List.nodup_cons.mp hl
    by_cases hv : value a = v
    · have hrest : l.find? (fun a => value a = v && p a) = none := by
        rw [List.find?_eq_none]
        intro b hb hbv
        simp only [Bool.and_eq_true, decide_eq_true_eq] at hbv
        exact hfresh (List.mem_map.mpr ⟨b, hb, hbv.1.trans hv.symm⟩)
      cases hp : p a <;> simp [kept, hv, hp, hrest, Option.filter_some]
    · simpa [kept, hv] using ih hl

theorem kept_step_of_nodup (v : V) (e : Event α I V) :
    kept value (step value row l e) v = keep value row v (kept value l v) e := by
  rw [kept_step]
  cases e with
  | put a => rfl
  | drop i => exact find?_and_of_nodup value hl v _
  | wipe w => exact find?_and_of_nodup value hl v _

theorem kept_foldl (v : V) (es : List (Event α I V)) :
    kept value (es.foldl (step value row) l) v = es.foldl (keep value row v) (kept value l v) := by
  induction es generalizing l with
  | nil => rfl
  | cons e es ih =>
    rw [List.foldl_cons, List.foldl_cons, ih (nodup_step value row l e),
      kept_step_of_nodup value row hl]

end

/-- Every event leaves the entry in place. -/
def spared (a : α) (es : List (Event α I V)) : Bool := es.all (spares value row a)

theorem foldl_keep (v : V) (k : Option α) (es : List (Event α I V)) :
    es.foldl (keep value row v) k =
      match lastPut value v es with
      | some (a, post) => if spared value row a post then some a else none
      | none => k.filter fun a => spared value row a es := by
  induction es generalizing k with
  | nil => cases k <;> simp [lastPut, spared, Option.filter_some]
  | cons e es ih =>
    rw [List.foldl_cons, ih, lastPut]
    cases hlast : lastPut value v es with
    | some r => rfl
    | none =>
      simp only [Option.none_or]
      cases e with
      | put a =>
        by_cases hv : value a = v
        · simp [putHere, keep, hv, Option.filter_some]
        · simp [putHere, keep, hv, spared, spares]
      | drop i =>
        simp only [putHere, keep, Option.filter_filter, spared, List.all_cons, Bool.and_comm]
      | wipe w =>
        simp only [putHere, keep, Option.filter_filter, spared, List.all_cons, Bool.and_comm]

private theorem filter_eq_bind (k : Option α) (post : List (Event α I V)) :
    (k.filter fun a => spared value row a post) =
      (k.map fun a => (a, post)).bind fun r =>
        if spared value row r.1 r.2 then some r.1 else none := by
  cases k <;> simp [Option.filter_some]

/-- The entry a whole batch leaves for a value: its keeper, when every later event spares
it. -/
theorem kept_run (l : List α) (v : V) (hes : es ≠ []) :
    kept value (run value row l es) v =
      (keeper value row l v es).bind fun r =>
        if spared value row r.1 r.2 then some r.1 else none := by
  cases es with
  | nil => exact absurd rfl hes
  | cons e post =>
    rw [run, List.foldl_cons, kept_foldl value row (nodup_step value row l e), foldl_keep,
      kept_step, keeper, lastPut]
    cases hlast : lastPut value v post with
    | some r => simp
    | none =>
      simp only [Option.none_or]
      cases e with
      | put a =>
        by_cases hv : value a = v
        · simp [putHere, hv, Option.filter_some]
        · simp [putHere, hv, filter_eq_bind, kept, spares]
      | drop i => exact filter_eq_bind value row _ post
      | wipe w => exact filter_eq_bind value row _ post

theorem mem_overlay {e : Event α I V} {r : α} (h : r ∈ overlay value row l e) :
    e = .put r ∨ (r ∈ l ∧ spares value row r e) := by
  cases e with
  | put a =>
    rcases List.mem_append.mp h with hold | hnew
    · exact .inr ⟨(List.mem_filter.mp hold).1, rfl⟩
    · exact .inl (by rw [List.mem_singleton.mp hnew])
  | drop i => exact .inr ⟨(List.mem_filter.mp h).1, (List.mem_filter.mp h).2⟩
  | wipe v => exact .inr ⟨(List.mem_filter.mp h).1, (List.mem_filter.mp h).2⟩

/-- A surviving row was put, or was there at the start, and every later event spares it. -/
theorem survivor_origin {r : α} (h : r ∈ survivors value row l es) :
    (∃ pre post, es = pre ++ .put r :: post ∧ spared value row r post) ∨
      (r ∈ l ∧ spared value row r es) := by
  induction es generalizing l with
  | nil => exact .inr ⟨h, rfl⟩
  | cons e es ih =>
    rcases ih (l := overlay value row l e) h with ⟨pre, post, rfl, hs⟩ | ⟨hmem, hs⟩
    · exact .inl ⟨e :: pre, post, rfl, hs⟩
    · rcases mem_overlay value row hmem with rfl | ⟨hl, he⟩
      · exact .inl ⟨[], es, rfl, hs⟩
      · exact .inr ⟨hl, by simpa [spared, he] using hs⟩

omit [DecidableEq I] in
theorem lastPut_suffix (h : lastPut value v es = some r) : value r.1 = v ∧ r.2 <:+ es := by
  induction es with
  | nil => simp [lastPut] at h
  | cons e es ih =>
    rw [lastPut, Option.or_eq_some_iff] at h
    rcases h with hlater | ⟨-, hhere⟩
    · exact ⟨(ih hlater).1, (ih hlater).2.trans (List.suffix_cons e es)⟩
    · cases e with
      | put a =>
        simp only [putHere, Option.ite_none_right_eq_some, Option.some.injEq] at hhere
        obtain ⟨hv, rfl⟩ := hhere
        exact ⟨hv, List.suffix_cons _ _⟩
      | drop i => simp [putHere] at hhere
      | wipe w => simp [putHere] at hhere

variable {a : α} {post : List (Event α I V)}

omit [DecidableEq I] in
theorem lastPut_of_put {pre : List (Event α I V)} (ha : value a = v) :
    ∃ r, lastPut value v (pre ++ .put a :: post) = some r ∧ r.2 <:+ post := by
  induction pre with
  | nil =>
    cases hlast : lastPut value v post with
    | some r =>
      exact ⟨r, by simp [lastPut, hlast], (lastPut_suffix value hlast).2⟩
    | none => exact ⟨(a, post), by simp [lastPut, hlast, putHere, ha], List.suffix_refl _⟩
  | cons e pre ih =>
    obtain ⟨r, hr, hsuffix⟩ := ih
    exact ⟨r, by simp [lastPut, hr], hsuffix⟩

theorem keeper_of_lastPut (l : List α) (h : lastPut value v es = some r) :
    keeper value row l v es = some r := by
  rw [keeper.eq_def, h]

theorem keeper_value (h : keeper value row l v es = some (a, post)) : value a = v := by
  rw [keeper.eq_def] at h
  split at h
  · rename_i r hlast
    obtain rfl := Option.some.inj h
    exact (lastPut_suffix value hlast).1
  · split at h
    · simp at h
    · obtain ⟨b, hb, hab⟩ := Option.map_eq_some_iff.mp h
      obtain ⟨rfl, -⟩ := Prod.mk.inj hab
      have hfound := List.find?_some hb
      simp only [Bool.and_eq_true, decide_eq_true_eq] at hfound
      exact hfound.1

theorem keeper_of_survives (hes : es ≠ []) (h : Survives value row l es v) :
    ∃ a post, keeper value row l v es = some (a, post) ∧ .wipe v ∉ post := by
  obtain ⟨r, hr, hv⟩ := h
  have hnowipe {later : List (Event α I V)} (hs : spared value row r later) :
      .wipe v ∉ later := by
    intro hmem
    have := List.all_eq_true.mp hs _ hmem
    simp [spares, hv] at this
  rcases survivor_origin value row hr with ⟨pre, post, rfl, hs⟩ | ⟨hl, hs⟩
  · obtain ⟨k, hk, hsuffix⟩ := lastPut_of_put value hv
    exact ⟨k.1, k.2, keeper_of_lastPut value row l hk, fun hmem => hnowipe hs (hsuffix.mem hmem)⟩
  · cases hlast : lastPut value v es with
    | some k =>
      refine ⟨k.1, k.2, keeper_of_lastPut value row l hlast, fun hmem => hnowipe hs ?_⟩
      exact (lastPut_suffix value hlast).2.mem hmem
    | none =>
      cases es with
      | nil => exact absurd rfl hes
      | cons e post =>
        simp only [spared, List.all_cons, Bool.and_eq_true] at hs
        have hsome : (l.find? fun a => value a = v && spares value row a e).isSome :=
          List.find?_isSome.mpr ⟨r, hl, by simp [hv, hs.1]⟩
        obtain ⟨k, hk⟩ := Option.isSome_iff_exists.mp hsome
        exact ⟨k, post, by simp [keeper, hlast, hk], hnowipe hs.2⟩

structure KeepersHold (l : List α) (es : List (Event α I V)) : Prop where
  /-- While some row holds the value, no later event drops the row kept for it. -/
  not_dropped : ∀ v a post, keeper value row l v es = some (a, post) →
    Survives value row l es v → ∀ i, row a = some i → .drop i ∉ post
  /-- Once no row holds the value, a later event removes the entry kept for it. -/
  not_stale : ∀ v a post, keeper value row l v es = some (a, post) →
    ¬ Survives value row l es v → (∃ i, row a = some i ∧ .drop i ∈ post) ∨ .wipe v ∈ post

theorem spared_iff :
    spared value row a post ↔ (∀ i, row a = some i → .drop i ∉ post) ∧
      .wipe (value a) ∉ post := by
  rw [spared, List.all_eq_true]
  constructor
  · intro h
    refine ⟨fun i hi hmem => ?_, fun hmem => ?_⟩
    · simpa [spares, hi] using h _ hmem
    · simpa [spares] using h _ hmem
  · rintro ⟨hdrop, hwipe⟩ e he
    cases e with
    | put b => rfl
    | drop i => simpa [spares] using fun hi => hdrop i hi he
    | wipe w =>
      simp only [spares, decide_eq_true_eq]
      rintro rfl
      exact hwipe he

/-- The deduplicated entries hold exactly the values that survive if and only if every
kept entry meets its condition. -/
theorem run_values_iff (hes : es ≠ []) :
    (∀ v, v ∈ (run value row l es).map value ↔ Survives value row l es v) ↔
      KeepersHold value row l es := by
  have hpresent (v : V) : v ∈ (run value row l es).map value ↔
      ∃ a post, keeper value row l v es = some (a, post) ∧ spared value row a post := by
    rw [mem_values_iff, kept_run value row l v hes]
    cases hk : keeper value row l v es with
    | none => simp
    | some r =>
      obtain ⟨a, post⟩ := r
      by_cases hs : spared value row a post
      · simp only [Option.bind_some, hs, if_true, Option.isSome_some, true_iff]
        exact ⟨a, post, rfl, hs⟩
      · simp [hs]
  simp only [hpresent]
  constructor
  · intro h
    refine ⟨fun v a post hk hsurv => ?_, fun v a post hk hgone => ?_⟩
    · obtain ⟨b, post', hk', hs⟩ := (h v).mpr hsurv
      obtain ⟨rfl, rfl⟩ := Prod.mk.inj (Option.some.inj (hk.symm.trans hk'))
      exact ((spared_iff value row).mp hs).1
    · have hnot : ¬ spared value row a post := fun hs => hgone ((h v).mp ⟨a, post, hk, hs⟩)
      rw [spared_iff, keeper_value value row hk] at hnot
      by_contra hkept
      push Not at hkept
      exact hnot ⟨hkept.1, hkept.2⟩
  · rintro ⟨hdropped, hstale⟩ v
    constructor
    · rintro ⟨a, post, hk, hs⟩
      by_contra hgone
      obtain ⟨hnodrop, hnowipe⟩ := (spared_iff value row).mp hs
      rcases hstale v a post hk hgone with ⟨i, hi, hmem⟩ | hmem
      · exact hnodrop i hi hmem
      · rw [keeper_value value row hk] at hnowipe
        exact hnowipe hmem
    · intro hsurv
      obtain ⟨a, post, hk, hnowipe⟩ := keeper_of_survives value row hes hsurv
      refine ⟨a, post, hk, (spared_iff value row).mpr ⟨hdropped v a post hk hsurv, ?_⟩⟩
      rwa [keeper_value value row hk]

end SpatiumDdi.Twins
