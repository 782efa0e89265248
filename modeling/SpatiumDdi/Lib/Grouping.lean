import Mathlib.Data.List.Nodup

/-!
Items gathered by a key in the order the keys come, as a dictionary of lists that is filled one
item at a time.
-/

namespace SpatiumDdi.Grouping

variable {α κ : Type} [DecidableEq κ]

/-- `groups.setdefault(k, []).append(a)`. -/
def addTo (k : κ) (a : α) : List (κ × List α) → List (κ × List α)
  | [] => [(k, [a])]
  | g :: groups => if g.1 = k then (g.1, g.2 ++ [a]) :: groups else g :: addTo k a groups

structure Gathered (key : α → κ) (items : List α) (groups : List (κ × List α)) : Prop where
  keys : (groups.map Prod.fst).Nodup
  items_eq : ∀ g ∈ groups, g.2 = items.filter (key · = g.1) ∧ g.2 ≠ []
  covers : ∀ a ∈ items, key a ∈ groups.map Prod.fst

theorem gathered_nil (key : α → κ) : Gathered key [] [] := ⟨List.nodup_nil, nofun, nofun⟩

theorem keys_addTo (k : κ) (a : α) (groups : List (κ × List α)) :
    (addTo k a groups).map Prod.fst =
      if k ∈ groups.map Prod.fst then groups.map Prod.fst else groups.map Prod.fst ++ [k] := by
  induction groups with
  | nil => rfl
  | cons g groups ih =>
    rw [addTo]
    by_cases hg : g.1 = k
    · rw [if_pos hg, if_pos (List.mem_map.mpr ⟨g, List.mem_cons_self, hg⟩)]
      rfl
    · rw [if_neg hg, List.map_cons, ih, List.map_cons]
      by_cases hk : k ∈ groups.map Prod.fst
      · rw [if_pos hk, if_pos (List.mem_cons_of_mem _ hk)]
      · rw [if_neg hk, if_neg fun hmem => hk ((List.mem_cons.mp hmem).resolve_left (Ne.symm hg)),
          List.cons_append]

variable {groups : List (κ × List α)} {key : α → κ} {items : List α}

theorem mem_addTo {k : κ} {a : α} (hkeys : (groups.map Prod.fst).Nodup) {g : κ × List α}
    (h : g ∈ addTo k a groups) :
    (g ∈ groups ∧ g.1 ≠ k) ∨ (∃ l, (k, l) ∈ groups ∧ g = (k, l ++ [a])) ∨
      (k ∉ groups.map Prod.fst ∧ g = (k, [a])) := by
  induction groups with
  | nil => exact .inr (.inr ⟨List.not_mem_nil, List.mem_singleton.mp h⟩)
  | cons g' groups ih =>
    rw [List.map_cons, List.nodup_cons] at hkeys
    rw [addTo] at h
    split at h
    next hg =>
      rcases List.mem_cons.mp h with rfl | hmem
      · refine .inr (.inl ⟨g'.2, ?_, ?_⟩)
        · rw [← hg]
          exact List.mem_cons_self
        · rw [hg]
      · refine .inl ⟨List.mem_cons_of_mem _ hmem, fun hgk => hkeys.1 ?_⟩
        rw [hg, ← hgk]
        exact List.mem_map_of_mem hmem
    next hg =>
      rcases List.mem_cons.mp h with rfl | hmem
      · exact .inl ⟨List.mem_cons_self, hg⟩
      · rcases ih hkeys.2 hmem with ⟨hmem, hne⟩ | ⟨l, hl, rfl⟩ | ⟨hnew, rfl⟩
        · exact .inl ⟨List.mem_cons_of_mem _ hmem, hne⟩
        · exact .inr (.inl ⟨l, List.mem_cons_of_mem _ hl, rfl⟩)
        · refine .inr (.inr ⟨fun hk => ?_, rfl⟩)
          rcases List.mem_cons.mp hk with hk | hk
          · exact hg hk.symm
          · exact hnew hk

theorem Gathered.add (h : Gathered key items groups) (a : α) :
    Gathered key (items ++ [a]) (addTo (key a) a groups) := by
  refine ⟨?_, ?_, ?_⟩
  · rw [keys_addTo]
    split
    next => exact h.keys
    next hnew =>
      exact List.nodup_append.mpr ⟨h.keys, List.nodup_singleton _, fun x hx y hy hxy =>
        hnew (List.mem_singleton.mp hy ▸ hxy ▸ hx)⟩
  · intro g hg
    rw [List.filter_append]
    rcases mem_addTo h.keys hg with ⟨hmem, hne⟩ | ⟨l, hl, rfl⟩ | ⟨hnew, rfl⟩
    · rw [List.filter_cons_of_neg (by simpa using Ne.symm hne), List.filter_nil, List.append_nil]
      exact h.items_eq g hmem
    · rw [List.filter_cons_of_pos (by simp), List.filter_nil, ← (h.items_eq _ hl).1]
      exact ⟨rfl, List.append_ne_nil_of_right_ne_nil _ (List.cons_ne_nil _ _)⟩
    · have hnone : items.filter (fun b => key b = key a) = [] := by
        rw [List.filter_eq_nil_iff]
        intro b hb hkey
        rw [decide_eq_true_iff] at hkey
        exact hnew (hkey ▸ h.covers b hb)
      rw [hnone, List.filter_cons_of_pos (by simp)]
      exact ⟨rfl, List.cons_ne_nil _ _⟩
  · intro b hb
    rw [keys_addTo]
    rcases List.mem_append.mp hb with hb | hb
    · split
      · exact h.covers b hb
      · exact List.mem_append_left _ (h.covers b hb)
    · rw [List.mem_singleton.mp hb]
      split
      next hmem => exact hmem
      next => exact List.mem_append_right _ List.mem_cons_self

theorem Gathered.mem_map_iff (h : Gathered key items groups) {l : List α} :
    l ∈ groups.map Prod.snd ↔ ∃ a ∈ items, l = items.filter (key · = key a) := by
  constructor
  · intro hl
    obtain ⟨g, hg, rfl⟩ := List.mem_map.mp hl
    obtain ⟨heq, hne⟩ := h.items_eq g hg
    obtain ⟨a, ha⟩ := List.exists_mem_of_ne_nil _ hne
    rw [heq, List.mem_filter, decide_eq_true_iff] at ha
    exact ⟨a, ha.1, ha.2 ▸ heq⟩
  · rintro ⟨a, ha, rfl⟩
    obtain ⟨g, hg, hkey⟩ := List.mem_map.mp (h.covers a ha)
    exact List.mem_map.mpr ⟨g, hg, hkey ▸ (h.items_eq g hg).1⟩

theorem Gathered.foldl {done : List α} (h : Gathered key done groups) :
    Gathered key (done ++ items) (items.foldl (fun groups a => addTo (key a) a groups) groups) := by
  induction items generalizing done groups with
  | nil =>
    rw [List.append_nil]
    exact h
  | cons a items ih =>
    rw [List.append_cons]
    exact ih (h.add a)

theorem flatten_addTo (k : κ) (a : α) (groups : List (κ × List α)) :
    ((addTo k a groups).map Prod.snd).flatten.Perm ((groups.map Prod.snd).flatten ++ [a]) := by
  induction groups with
  | nil => exact .refl _
  | cons g groups ih =>
    rw [addTo]
    split
    next =>
      rw [List.map_cons, List.flatten_cons, List.map_cons, List.flatten_cons, List.append_assoc,
        List.append_assoc]
      exact (@List.perm_append_comm _ [a] (groups.map Prod.snd).flatten).append_left g.2
    next =>
      rw [List.map_cons, List.flatten_cons, List.map_cons, List.flatten_cons, List.append_assoc]
      exact ih.append_left g.2

theorem flatten_foldl (key : α → κ) (items : List α) (groups : List (κ × List α)) :
    ((items.foldl (fun groups a => addTo (key a) a groups) groups).map Prod.snd).flatten.Perm
      ((groups.map Prod.snd).flatten ++ items) := by
  induction items generalizing groups with
  | nil =>
    rw [List.append_nil]
    exact .refl _
  | cons a items ih =>
    rw [List.append_cons]
    exact (ih _).trans ((flatten_addTo (key a) a groups).append_right items)

end SpatiumDdi.Grouping
