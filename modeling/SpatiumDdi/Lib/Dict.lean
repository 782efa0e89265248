import Mathlib.Data.List.Nodup
import Mathlib.Data.List.Perm.Subperm

/-!
A dictionary that keeps the order its keys were first set in.
-/

namespace SpatiumDdi

structure Dict (κ α : Type) where
  items : List (κ × α)
  nodup : (items.map Prod.fst).Nodup

namespace Dict

variable {κ α : Type} [DecidableEq κ]

def empty : Dict κ α := ⟨[], List.nodup_nil⟩

def keys (d : Dict κ α) : List κ := d.items.map Prod.fst

def get? (d : Dict κ α) (k : κ) : Option α := (d.items.find? (·.1 = k)).map Prod.snd

variable {d : Dict κ α} {k : κ} {v : α} {items : List (κ × α)}

theorem get?_eq_some : d.get? k = some v ↔ (k, v) ∈ d.items := by
  rw [get?, Option.map_eq_some_iff]
  constructor
  · rintro ⟨item, hfind, rfl⟩
    have hkey : item.1 = k := by simpa using List.find?_some hfind
    rw [← hkey]
    exact List.mem_of_find?_eq_some hfind
  · intro hmem
    cases hfind : d.items.find? (·.1 = k) with
    | none => exact absurd (List.find?_eq_none.mp hfind _ hmem) (by simp)
    | some item =>
      have hkey : item.1 = k := by simpa using List.find?_some hfind
      have hsame := List.inj_on_of_nodup_map d.nodup (List.mem_of_find?_eq_some hfind) hmem hkey
      exact ⟨item, rfl, congrArg Prod.snd hsame⟩

theorem mem_keys : k ∈ d.keys ↔ ∃ v, d.get? k = some v := by
  simp only [keys, List.mem_map, get?_eq_some]
  constructor
  · rintro ⟨⟨_, v⟩, hmem, rfl⟩
    exact ⟨v, hmem⟩
  · rintro ⟨v, hmem⟩
    exact ⟨(k, v), hmem, rfl⟩

/-- `d[k] = v` on the items. -/
def setItems (k : κ) (v : α) : List (κ × α) → List (κ × α)
  | [] => [(k, v)]
  | item :: rest => if item.1 = k then (k, v) :: rest else item :: setItems k v rest

theorem keys_setItems (k : κ) (v : α) (items : List (κ × α)) :
    (setItems k v items).map Prod.fst =
      if k ∈ items.map Prod.fst then items.map Prod.fst else items.map Prod.fst ++ [k] := by
  induction items with
  | nil => rfl
  | cons item rest ih =>
    by_cases hkey : item.1 = k
    · simp [setItems, hkey]
    · simp only [setItems, if_neg hkey, List.map_cons, ih, List.mem_cons, Ne.symm hkey, false_or]
      split <;> rfl

def set (d : Dict κ α) (k : κ) (v : α) : Dict κ α where
  items := setItems k v d.items
  nodup := by
    rw [keys_setItems]
    split
    · exact d.nodup
    next hnew => exact List.nodup_append.mpr ⟨d.nodup, List.nodup_singleton k, by
        intro a ha b hb
        rw [List.mem_singleton.mp hb]
        rintro rfl
        exact hnew ha⟩

theorem mem_setItems {k' : κ} {v' : α} (hnodup : (items.map Prod.fst).Nodup) :
    (k', v') ∈ setItems k v items ↔ if k' = k then v' = v else (k', v') ∈ items := by
  induction items with
  | nil =>
    by_cases hkey : k' = k <;> simp [setItems, hkey]
  | cons item rest ih =>
    rw [List.map_cons, List.nodup_cons] at hnodup
    obtain ⟨key, value⟩ := item
    simp only [setItems]
    by_cases hitem : key = k
    · subst hitem
      rw [if_pos rfl, List.mem_cons, List.mem_cons, Prod.mk.injEq, Prod.mk.injEq]
      by_cases hkey : k' = key
      · subst hkey
        have hnot : (k', v') ∉ rest := fun hmem =>
          hnodup.1 (List.mem_map.mpr ⟨_, hmem, rfl⟩)
        simp [hnot]
      · simp [hkey]
    · rw [if_neg hitem, List.mem_cons, ih hnodup.2, List.mem_cons, Prod.mk.injEq]
      by_cases hkey : k' = k
      · subst hkey
        simp [Ne.symm hitem]
      · simp [hkey]

theorem get?_set (d : Dict κ α) (k : κ) (v : α) (k' : κ) :
    (d.set k v).get? k' = if k' = k then some v else d.get? k' := by
  apply Option.ext
  intro v'
  rw [get?_eq_some, set, mem_setItems d.nodup]
  by_cases hkey : k' = k
  · rw [if_pos hkey, if_pos hkey, Option.some.injEq, eq_comm]
  · rw [if_neg hkey, if_neg hkey, get?_eq_some]

def keep (p : κ → α → Bool) (d : Dict κ α) : Dict κ α where
  items := d.items.filter fun item => p item.1 item.2
  nodup := d.nodup.sublist (List.filter_sublist.map Prod.fst)

theorem get?_keep (p : κ → α → Bool) (d : Dict κ α) (k : κ) :
    (d.keep p).get? k = (d.get? k).filter (p k) := by
  apply Option.ext
  intro v
  rw [get?_eq_some, keep, List.mem_filter, Option.filter_eq_some_iff, get?_eq_some]

def erase (d : Dict κ α) (k : κ) : Dict κ α := d.keep fun key _ => key ≠ k

theorem get?_erase (d : Dict κ α) (k k' : κ) :
    (d.erase k).get? k' = if k' = k then none else d.get? k' := by
  rw [erase, get?_keep]
  by_cases hkey : k' = k
  · subst hkey
    cases d.get? k' <;> simp
  · cases d.get? k' <;> simp [hkey]

omit [DecidableEq κ] in
theorem length_le_of_keys {l : List κ} (h : ∀ k ∈ d.keys, k ∈ l) : d.items.length ≤ l.length := by
  have hlen := (List.subperm_of_subset d.nodup h).length_le
  rwa [List.length_map] at hlen

/-- `for k, v in items: d[k] = v` -/
def setAll (items : List (κ × α)) (d : Dict κ α) : Dict κ α :=
  items.foldl (fun d item => d.set item.1 item.2) d

theorem setAll_cons (item : κ × α) (items : List (κ × α)) (d : Dict κ α) :
    setAll (item :: items) d = setAll items (d.set item.1 item.2) :=
  rfl

theorem get?_setAll_of_not_mem (h : ∀ v, (k, v) ∉ items) (d : Dict κ α) :
    (setAll items d).get? k = d.get? k := by
  induction items generalizing d with
  | nil => rfl
  | cons item items ih =>
    have hne : k ≠ item.1 := by
      rintro rfl
      exact h item.2 List.mem_cons_self
    rw [setAll_cons, ih fun v hv => h v (List.mem_cons_of_mem _ hv), get?_set, if_neg hne]

theorem mem_of_get?_setAll (h : (setAll items d).get? k = some v) :
    (k, v) ∈ items ∨ d.get? k = some v := by
  induction items generalizing d with
  | nil => exact .inr h
  | cons item items ih =>
    rcases ih h with hmem | hget
    · exact .inl (List.mem_cons_of_mem _ hmem)
    · rw [get?_set] at hget
      split at hget
      next hkey =>
        rw [hkey, ← Option.some.inj hget]
        exact .inl List.mem_cons_self
      · exact .inr hget

theorem get?_setAll_of_mem (hmem : (k, v) ∈ items) (h : ∀ v', (k, v') ∈ items → v' = v)
    (d : Dict κ α) : (setAll items d).get? k = some v := by
  induction items generalizing d with
  | nil => cases hmem
  | cons item items ih =>
    rw [setAll_cons]
    by_cases hrest : ∃ v', (k, v') ∈ items
    · obtain ⟨v', hv'⟩ := hrest
      have hsame := h v' (List.mem_cons_of_mem _ hv')
      rw [hsame] at hv'
      exact ih hv' (fun w hw => h w (List.mem_cons_of_mem _ hw)) _
    · rw [not_exists] at hrest
      rcases List.mem_cons.mp hmem with rfl | hmem
      · rw [get?_setAll_of_not_mem hrest, get?_set, if_pos rfl]
      · exact absurd hmem (hrest v)

omit [DecidableEq κ] in
theorem ext_items {d' : Dict κ α} (h : d.items = d'.items) : d = d' := by
  cases d
  cases d'
  cases h
  rfl

theorem setItems_of_new (h : k ∉ items.map Prod.fst) : setItems k v items = items ++ [(k, v)] := by
  induction items with
  | nil => rfl
  | cons item items ih =>
    rw [List.map_cons, List.mem_cons, not_or] at h
    rw [setItems, if_neg (Ne.symm h.1), ih h.2, List.cons_append]

theorem setAll_items (d : Dict κ α) : setAll d.items empty = d := by
  have hrun : ∀ (items : List (κ × α)) (d₀ : Dict κ α),
      ((d₀.items ++ items).map Prod.fst).Nodup → (setAll items d₀).items = d₀.items ++ items := by
    intro items
    induction items with
    | nil => intro d₀ _; exact (List.append_nil _).symm
    | cons item items ih =>
      intro d₀ hnodup
      have hnew : item.1 ∉ d₀.items.map Prod.fst := by
        rw [List.map_append, List.nodup_append] at hnodup
        exact fun hmem => hnodup.2.2 _ hmem _ List.mem_cons_self rfl
      have hitems : (d₀.set item.1 item.2).items = d₀.items ++ [item] := setItems_of_new hnew
      rw [setAll_cons, ih _ (by rw [hitems, List.append_assoc]; exact hnodup), hitems,
        List.append_assoc, List.singleton_append]
  refine ext_items ?_
  rw [hrun d.items empty d.nodup]
  exact List.nil_append _

end Dict

end SpatiumDdi
