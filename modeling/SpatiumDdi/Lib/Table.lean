import Mathlib.Data.List.Nodup
import Mathlib.Data.Option.Basic

/-!
A database table with an integer primary key. Rows are kept in insertion order
and the two facts a primary key gives are fields of the value: no key occurs
twice, and every key is below the counter the next insert takes. What a table
holds is read through `get?`, so each operation comes with the lemma that says
what `get?` returns after it.
-/

namespace SpatiumDdi

universe u

@[ext]
structure Table (α : Type u) where
  rows : List (Nat × α)
  next : Nat
  nodup : (rows.map Prod.fst).Nodup
  fresh : ∀ r ∈ rows, r.1 < next

namespace Table

variable {α : Type u}

def empty : Table α where
  rows := []
  next := 0
  nodup := by simp
  fresh := by simp

def get? (t : Table α) (k : Nat) : Option α := (t.rows.find? fun r => r.1 == k).map Prod.snd

/-- The key of the new row is the table's counter. -/
def insert (t : Table α) (a : α) : Table α where
  rows := t.rows ++ [(t.next, a)]
  next := t.next + 1
  nodup := by
    have hne : ∀ r ∈ t.rows, r.1 ≠ t.next := fun r hr => Nat.ne_of_lt (t.fresh r hr)
    simpa [List.nodup_append, t.nodup] using fun x b hx => hne (x, b) hx
  fresh := by
    intro r hr
    rcases List.mem_append.mp hr with hr | hr
    · exact Nat.lt_succ_of_lt (t.fresh r hr)
    · rw [List.mem_singleton.mp hr]
      exact Nat.lt_succ_self _

/-- An UPDATE: every row is rewritten by `f`, its key is not. -/
def modify (t : Table α) (f : Nat → α → α) : Table α where
  rows := t.rows.map fun r => (r.1, f r.1 r.2)
  next := t.next
  nodup := by simpa [List.map_map, Function.comp_def] using t.nodup
  fresh := by
    intro r hr
    obtain ⟨r', hr', rfl⟩ := List.mem_map.mp hr
    exact t.fresh r' hr'

/-- A DELETE of the rows that `p` does not hold of. -/
def keep (t : Table α) (p : Nat → α → Bool) : Table α where
  rows := t.rows.filter fun r => p r.1 r.2
  next := t.next
  nodup := t.nodup.sublist (List.filter_sublist.map _)
  fresh := fun r hr => t.fresh r (List.mem_of_mem_filter hr)

/-- A SELECT: the rows that `p` holds of, in insertion order. -/
def select (t : Table α) (p : Nat → α → Bool) : List (Nat × α) :=
  t.rows.filter fun r => p r.1 r.2

variable {t : Table α} {k : Nat} {a : α} {p : Nat → α → Bool}

theorem mem_rows_iff : (k, a) ∈ t.rows ↔ t.get? k = some a := by
  suffices h : ∀ rows : List (Nat × α), (rows.map Prod.fst).Nodup →
      ((k, a) ∈ rows ↔ (rows.find? fun r => r.1 == k).map Prod.snd = some a) from
    h t.rows t.nodup
  intro rows nodup
  induction rows with
  | nil => simp
  | cons r rest ih =>
    obtain ⟨k', a'⟩ := r
    simp only [List.map_cons, List.nodup_cons] at nodup
    obtain ⟨hnot, hrest⟩ := nodup
    by_cases hk : k' = k
    · subst hk
      have habsent : (k', a) ∉ rest := fun hm => hnot (List.mem_map.mpr ⟨_, hm, rfl⟩)
      simp [habsent, eq_comm]
    · simp [hk, Ne.symm hk, ih hrest]

theorem mem_select : (k, a) ∈ t.select p ↔ t.get? k = some a ∧ p k a = true := by
  rw [select, List.mem_filter, mem_rows_iff]

theorem lt_next (h : t.get? k = some a) : k < t.next :=
  t.fresh _ (mem_rows_iff.mpr h)

@[simp] theorem get?_next (t : Table α) : t.get? t.next = none := by
  cases h : t.get? t.next with
  | none => rfl
  | some a => exact absurd (lt_next h) (Nat.lt_irrefl _)

theorem ne_next (h : t.get? k = some a) : k ≠ t.next :=
  Nat.ne_of_lt (lt_next h)

@[simp] theorem get?_empty (k : Nat) : (empty : Table α).get? k = none := rfl

@[simp] theorem next_insert (t : Table α) (a : α) : (t.insert a).next = t.next + 1 := rfl

@[simp] theorem next_keep (t : Table α) (p : Nat → α → Bool) : (t.keep p).next = t.next := rfl

theorem get?_insert (t : Table α) (a : α) (k : Nat) :
    (t.insert a).get? k = if k = t.next then some a else t.get? k := by
  refine Option.ext fun b => ?_
  rw [← mem_rows_iff]
  simp only [insert, List.mem_append, List.mem_singleton, mem_rows_iff, Prod.mk.injEq]
  by_cases hk : k = t.next
  · subst hk
    simp [eq_comm]
  · simp [hk]

@[simp] theorem get?_insert_next (t : Table α) (a : α) : (t.insert a).get? t.next = some a := by
  simp [get?_insert]

variable {b : α}

theorem get?_insert_of_get? (a : α) (h : t.get? k = some b) : (t.insert a).get? k = some b := by
  rw [get?_insert, if_neg (ne_next h), h]

theorem get?_insert_cases (h : (t.insert a).get? k = some b) :
    (k = t.next ∧ b = a) ∨ t.get? k = some b := by
  rw [get?_insert] at h
  split at h
  · exact Or.inl ⟨‹_›, (Option.some.inj h).symm⟩
  · exact Or.inr h

@[simp] theorem get?_modify (t : Table α) (f : Nat → α → α) (k : Nat) :
    (t.modify f).get? k = (t.get? k).map (f k) := by
  refine Option.ext fun b => ?_
  rw [← mem_rows_iff, Option.map_eq_some_iff]
  simp only [modify, List.mem_map, Prod.exists, Prod.mk.injEq]
  constructor
  · rintro ⟨k', a, hm, rfl, rfl⟩
    exact ⟨a, mem_rows_iff.mp hm, rfl⟩
  · rintro ⟨a, ha, rfl⟩
    exact ⟨k, a, mem_rows_iff.mpr ha, rfl, rfl⟩

theorem modify_modify (t : Table α) (f g : Nat → α → α) :
    (t.modify f).modify g = t.modify fun i a => g i (f i a) :=
  Table.ext (by simp [modify]) rfl

theorem modify_congr {f g : Nat → α → α} (h : ∀ i a, t.get? i = some a → f i a = g i a) :
    t.modify f = t.modify g :=
  Table.ext (List.map_congr_left fun r hr => by rw [h r.1 r.2 (mem_rows_iff.mp hr)]) rfl

theorem modify_eq_self {f : Nat → α → α} (h : ∀ i a, t.get? i = some a → f i a = a) :
    t.modify f = t := by
  refine Table.ext ?_ rfl
  refine (List.map_congr_left fun r hr => ?_).trans (List.map_id t.rows)
  rw [h r.1 r.2 (mem_rows_iff.mp hr), id]

@[simp] theorem get?_keep (t : Table α) (p : Nat → α → Bool) (k : Nat) :
    (t.keep p).get? k = (t.get? k).filter (p k) := by
  refine Option.ext fun b => ?_
  rw [← mem_rows_iff, Option.filter_eq_some_iff]
  simp only [keep, List.mem_filter, mem_rows_iff]

/-- Inserts one row for each element of a list, in order. -/
def insertAll (t : Table α) (as : List α) : Table α := as.foldl insert t

@[simp] theorem insertAll_nil (t : Table α) : t.insertAll [] = t := rfl

@[simp] theorem insertAll_cons (t : Table α) (a : α) (as : List α) :
    t.insertAll (a :: as) = (t.insert a).insertAll as := rfl

theorem next_insertAll (t : Table α) (as : List α) :
    (t.insertAll as).next = t.next + as.length := by
  induction as generalizing t with
  | nil => rfl
  | cons a as ih => simp [ih]; omega

theorem get?_insertAll_of_get? (as : List α) (h : t.get? k = some b) :
    (t.insertAll as).get? k = some b := by
  induction as generalizing t with
  | nil => exact h
  | cons a as ih => exact ih (get?_insert_of_get? a h)

theorem get?_insertAll_iff {as : List α} :
    (t.insertAll as).get? k = some b ↔
      t.get? k = some b ∨ ∃ i, k = t.next + i ∧ as[i]? = some b := by
  induction as generalizing t with
  | nil => simp
  | cons a as ih =>
    rw [insertAll_cons, ih, next_insert]
    constructor
    · rintro (h | ⟨i, rfl, hi⟩)
      · rcases get?_insert_cases h with ⟨rfl, rfl⟩ | h
        · exact Or.inr ⟨0, rfl, rfl⟩
        · exact Or.inl h
      · exact Or.inr ⟨i + 1, by omega, hi⟩
    · rintro (h | ⟨i, rfl, hi⟩)
      · exact Or.inl (get?_insert_of_get? a h)
      · cases i with
        | zero =>
          rw [List.getElem?_cons_zero, Option.some.injEq] at hi
          subst hi
          exact Or.inl (get?_insert_next t a)
        | succ i => exact Or.inr ⟨i, by omega, hi⟩

/-- The rows without their keys, in insertion order. -/
def values (t : Table α) : List α := t.rows.map Prod.snd

theorem mem_values : a ∈ t.values ↔ ∃ k, t.get? k = some a := by
  simp only [values, List.mem_map, Prod.exists, exists_eq_right, mem_rows_iff]

@[simp] theorem values_modify (t : Table α) (f : α → α) :
    (t.modify fun _ a => f a).values = t.values.map f := by
  simp [values, modify]

@[simp] theorem values_keep (t : Table α) (p : α → Bool) :
    (t.keep fun _ a => p a).values = t.values.filter p := by
  simp [values, keep, List.filter_map, Function.comp_def]

@[simp] theorem values_insertAll (t : Table α) (as : List α) :
    (t.insertAll as).values = t.values ++ as := by
  induction as generalizing t with
  | nil => simp
  | cons a as ih =>
    rw [insertAll_cons, ih]
    simp [values, insert]

theorem map_select (t : Table α) (p : α → Bool) :
    (t.select fun _ a => p a).map Prod.snd = t.values.filter p := by
  simp [values, select, List.filter_map, Function.comp_def]

theorem filter_values_keep {q : α → Bool} (h : ∀ k a, t.get? k = some a → q a = true → p k a = true) :
    (t.keep p).values.filter q = t.values.filter q := by
  simp only [values, keep, List.filter_map, List.filter_filter]
  congr 1
  refine List.filter_congr fun r hr => ?_
  have hp := h r.1 r.2 (mem_rows_iff.mp hr)
  cases hq : q r.2 with
  | true => simp [hq, hp hq]
  | false => simp [hq]

end Table

universe v

structure KeyedTable (α : Type u) {κ : Type v} (key : α → κ) where
  table : Table α
  unique : ∀ i a j b, table.get? i = some a → table.get? j = some b → key a = key b → i = j

namespace KeyedTable

variable {α : Type u} {κ : Type v} {key : α → κ}

def empty : KeyedTable α key where
  table := Table.empty
  unique := by simp

variable [DecidableEq κ]

def lookup (t : KeyedTable α key) (k : κ) : Option (Nat × α) :=
  t.table.rows.find? fun r => key r.2 = k

variable {k : κ} {i : Nat} {a : α} {t : KeyedTable α key}

theorem lookup_eq_some : t.lookup k = some (i, a) ↔ t.table.get? i = some a ∧ key a = k := by
  constructor
  · intro h
    have hkey : key a = k := by simpa using List.find?_some h
    exact ⟨Table.mem_rows_iff.mp (List.mem_of_find?_eq_some h), hkey⟩
  · rintro ⟨hget, rfl⟩
    cases hfind : t.lookup (key a) with
    | none =>
      have hnone := List.find?_eq_none.mp hfind (i, a) (Table.mem_rows_iff.mpr hget)
      simp at hnone
    | some r =>
      obtain ⟨j, b⟩ := r
      have hkey : key b = key a := by simpa using List.find?_some hfind
      have hj := Table.mem_rows_iff.mp (List.mem_of_find?_eq_some hfind)
      obtain rfl := t.unique j b i a hj hget hkey
      rw [Option.some.inj (hj.symm.trans hget)]

theorem lookup_eq_none : t.lookup k = none ↔ ∀ i a, t.table.get? i = some a → key a ≠ k := by
  constructor
  · intro h i a hget hkey
    rw [lookup_eq_some.mpr ⟨hget, hkey⟩] at h
    cases h
  · intro h
    cases hlookup : t.lookup k with
    | none => rfl
    | some r =>
      obtain ⟨hget, hkey⟩ := lookup_eq_some.mp hlookup
      exact absurd hkey (h r.1 r.2 hget)

theorem ext_lookup {o o' : Option (Nat × α)} (h : ∀ i a, o = some (i, a) ↔ o' = some (i, a)) :
    o = o' :=
  Option.ext fun r => h r.1 r.2

def insert (t : KeyedTable α key) (a : α) (h : t.lookup (key a) = none) : KeyedTable α key where
  table := t.table.insert a
  unique := by
    have hnew := lookup_eq_none.mp h
    intro i b j c hi hj hkey
    rcases Table.get?_insert_cases hi with ⟨hi, hb⟩ | hi <;>
      rcases Table.get?_insert_cases hj with ⟨hj, hc⟩ | hj
    · exact hi.trans hj.symm
    · exact absurd (hkey.symm.trans (congrArg key hb)) (hnew j c hj)
    · exact absurd (hkey.trans (congrArg key hc)) (hnew i b hi)
    · exact t.unique i b j c hi hj hkey

def update (t : KeyedTable α key) (i : Nat) (f : α → α)
    (h : ∀ a, t.table.get? i = some a → key (f a) = key a) : KeyedTable α key where
  table := t.table.modify fun j a => if j = i then f a else a
  unique := by
    have hkey : ∀ j a b, t.table.get? j = some a → (if j = i then f a else a) = b →
        key b = key a := by
      rintro j a b hj rfl
      split
      · subst j
        exact h a hj
      · rfl
    intro j a k b hj hk heq
    rw [Table.get?_modify, Option.map_eq_some_iff] at hj hk
    obtain ⟨a', ha', hfa⟩ := hj
    obtain ⟨b', hb', hfb⟩ := hk
    exact t.unique j a' k b' ha' hb' ((hkey j a' a ha' hfa).symm.trans
      (heq.trans (hkey k b' b hb' hfb)))

def delete (t : KeyedTable α key) (i : Nat) : KeyedTable α key where
  table := t.table.keep fun j _ => j ≠ i
  unique := by
    intro j a k b hj hk
    have hsub : ∀ {j a}, (t.table.keep fun j _ => j ≠ i).get? j = some a →
        t.table.get? j = some a := fun h =>
      Table.mem_rows_iff.mp (List.mem_of_mem_filter (Table.mem_rows_iff.mpr h))
    exact t.unique j a k b (hsub hj) (hsub hk)

theorem lookup_insert (t : KeyedTable α key) (a : α) (h : t.lookup (key a) = none) (k : κ) :
    (t.insert a h).lookup k = if k = key a then some (t.table.next, a) else t.lookup k := by
  refine ext_lookup fun i b => ?_
  rw [lookup_eq_some, insert, Table.get?_insert]
  by_cases hi : i = t.table.next
  · subst hi
    rw [if_pos rfl]
    have hnot : t.lookup k ≠ some (t.table.next, b) := fun hk =>
      absurd (lookup_eq_some.mp hk).1 (by simp)
    by_cases hk : k = key a
    · subst hk
      simp [eq_comm]
      rintro rfl
      rfl
    · rw [if_neg hk]
      simp only [hnot, iff_false, not_and, Option.some.injEq]
      rintro rfl
      exact Ne.symm hk
  · rw [if_neg hi]
    by_cases hk : k = key a
    · subst hk
      rw [if_pos rfl]
      simp only [Option.some.injEq, Prod.mk.injEq, Ne.symm hi, false_and, iff_false, not_and]
      exact lookup_eq_none.mp h i b
    · rw [if_neg hk, lookup_eq_some]

theorem lookup_update (t : KeyedTable α key) {f : α → α}
    (h : ∀ a, t.table.get? i = some a → key (f a) = key a) (hi : t.lookup k = some (i, a))
    (k' : κ) : (t.update i f h).lookup k' = if k' = k then some (i, f a) else t.lookup k' := by
  obtain ⟨hget, hkey⟩ := lookup_eq_some.mp hi
  refine ext_lookup fun j b => ?_
  rw [lookup_eq_some, update, Table.get?_modify, Option.map_eq_some_iff]
  by_cases hj : j = i
  · subst hj
    by_cases hk : k' = k
    · subst hk
      simp only [hget, Option.some.injEq, exists_eq_left', if_true, Prod.mk.injEq, true_and]
      exact ⟨fun hb => hb.1, fun hb => ⟨hb, by rw [← hb, h a hget, hkey]⟩⟩
    · have hnot : t.lookup k' ≠ some (j, b) := fun hlookup => by
        obtain ⟨hget', hkey'⟩ := lookup_eq_some.mp hlookup
        obtain rfl := Option.some.inj (hget.symm.trans hget')
        exact hk (hkey'.symm.trans hkey)
      simp only [hget, if_neg hk, hnot, iff_false]
      rintro ⟨⟨a', ha', rfl⟩, hkb⟩
      obtain rfl := Option.some.inj ha'
      simp only [if_true, h a hget, hkey] at hkb
      exact hk hkb.symm
  · have hout : t.lookup k' = some (j, b) ↔ t.table.get? j = some b ∧ key b = k' :=
      lookup_eq_some
    by_cases hk : k' = k
    · subst hk
      have hnot : ¬ (t.table.get? j = some b ∧ key b = k') := fun hb =>
        hj (t.unique j b i a hb.1 hget (hb.2.trans hkey.symm))
      simpa [hj, Ne.symm hj] using not_and.mp hnot
    · rw [if_neg hk, hout]
      simp [hj]

theorem lookup_delete (t : KeyedTable α key) (hi : t.lookup k = some (i, a)) (k' : κ) :
    (t.delete i).lookup k' = if k' = k then none else t.lookup k' := by
  obtain ⟨hget, hkey⟩ := lookup_eq_some.mp hi
  refine ext_lookup fun j b => ?_
  have hkeep : (t.table.keep fun j _ => j ≠ i).get? j = some b ↔ t.table.get? j = some b ∧ j ≠ i := by
    rw [← Table.mem_rows_iff, ← Table.mem_rows_iff]
    simp [Table.keep]
  rw [lookup_eq_some, delete, hkeep]
  by_cases hk : k' = k
  · subst hk
    simp only [if_true, reduceCtorEq, iff_false]
    rintro ⟨⟨hb, hj⟩, hkb⟩
    exact hj (t.unique j b i a hb hget (hkb.trans hkey.symm))
  · rw [if_neg hk, lookup_eq_some]
    constructor
    · exact fun h => ⟨h.1.1, h.2⟩
    · rintro ⟨hb, rfl⟩
      refine ⟨⟨hb, ?_⟩, rfl⟩
      rintro rfl
      obtain rfl := Option.some.inj (hget.symm.trans hb)
      exact hk hkey

end KeyedTable

end SpatiumDdi
