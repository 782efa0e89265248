import Mathlib.Data.List.Sort
import Mathlib.Order.WithBot

/-!
Keyset scans: the rows of a table past a key, in key order, read in pages.

Over rows with distinct keys a page is a prefix of what is past the last key, and what is past the last key
of a page is the rest.
-/

namespace SpatiumDdi.Keyset

universe u v

variable {α : Type u} {κ : Type v} [LinearOrder κ] {key : α → κ}

def sorted (key : α → κ) (rows : List α) : List α :=
  rows.insertionSort fun a b => key a ≤ key b

def after (key : α → κ) (rows : List α) (last : κ) : List α :=
  sorted key (rows.filter fun r => last < key r)

def Distinct (key : α → κ) (rows : List α) : Prop := (rows.map key).Nodup

theorem perm_sorted (rows : List α) : (sorted key rows).Perm rows := List.perm_insertionSort _ _

variable {r : α} {rows xs ys : List α} {last : κ}

theorem mem_sorted : r ∈ sorted key rows ↔ r ∈ rows :=
  (perm_sorted rows).mem_iff

theorem mem_after : r ∈ after key rows last ↔ r ∈ rows ∧ last < key r := by
  rw [after, mem_sorted, List.mem_filter, decide_eq_true_eq]

theorem pairwise_sorted (h : Distinct key rows) :
    (sorted key rows).Pairwise fun a b => key a < key b := by
  have hle : (sorted key rows).Pairwise fun a b => key a ≤ key b := List.pairwise_insertionSort _ _
  have hne : (sorted key rows).Pairwise fun a b => key a ≠ key b := by
    rw [← List.pairwise_map (R := (· ≠ ·))]
    exact ((perm_sorted rows).map key).nodup_iff.mpr h
  exact hle.imp₂ (fun _ _ hab hne => lt_of_le_of_ne hab hne) hne

theorem eq_of_perm (hperm : xs.Perm ys) (hxs : xs.Pairwise fun a b => key a < key b)
    (hys : ys.Pairwise fun a b => key a < key b) : xs = ys :=
  hperm.eq_of_pairwise (fun _ _ _ _ hab hba => absurd hba hab.not_gt) hxs hys

section

variable (h : Distinct key rows)
include h

theorem insertionSort_desc :
    rows.insertionSort (fun a b => key b ≤ key a) = (sorted key rows).reverse := by
  have hle : (rows.insertionSort fun a b => key b ≤ key a).Pairwise fun a b => key b ≤ key a := by
    have : Std.Total fun a b : α => key b ≤ key a := ⟨fun a b => le_total (key b) (key a)⟩
    have : IsTrans α fun a b => key b ≤ key a := ⟨fun _ _ _ hab hbc => hbc.trans hab⟩
    exact List.pairwise_insertionSort _ _
  have hperm : (rows.insertionSort fun a b => key b ≤ key a).Perm rows := List.perm_insertionSort _ _
  have hne : (rows.insertionSort fun a b => key b ≤ key a).Pairwise fun a b => key a ≠ key b := by
    rw [← List.pairwise_map (R := (· ≠ ·))]
    exact (hperm.map key).nodup_iff.mpr h
  have hlt : (rows.insertionSort fun a b => key b ≤ key a).Pairwise fun a b => key b < key a :=
    hle.imp₂ (fun _ _ hba hne => lt_of_le_of_ne hba hne.symm) hne
  refine List.reverse_eq_iff.mp (eq_of_perm ?_ (List.pairwise_reverse.mpr hlt) (pairwise_sorted h))
  exact (List.reverse_perm _).trans (hperm.trans (perm_sorted rows).symm)

theorem after_of_split (hsplit : sorted key rows = xs ++ ys) (hxs : ∀ r ∈ xs, key r ≤ last)
    (hys : ∀ r ∈ ys, last < key r) : after key rows last = ys := by
  have hsorted := pairwise_sorted h
  rw [hsplit] at hsorted
  have hpast : (xs ++ ys).filter (fun r => last < key r) = ys := by
    rw [List.filter_append, List.filter_eq_nil_iff.mpr fun r hr => by simpa using hxs r hr,
      List.filter_eq_self.mpr fun r hr => by simpa using hys r hr, List.nil_append]
  have hperm : (after key rows last).Perm ys := by
    have hwhole : (sorted key rows).Perm rows := perm_sorted rows
    have hrows := hwhole.symm.filter fun r => last < key r
    rw [hsplit, hpast] at hrows
    exact (perm_sorted _).trans hrows
  have hys' := (List.pairwise_append.mp hsorted).2.1
  exact eq_of_perm hperm (pairwise_sorted (h.sublist (List.filter_sublist.map key))) hys'

theorem exists_split (last : κ) :
    ∃ xs, sorted key rows = xs ++ after key rows last ∧ ∀ r ∈ xs, key r ≤ last := by
  refine ⟨sorted key (rows.filter fun r => !decide (last < key r)), ?_, ?_⟩
  · refine eq_of_perm ?_ (pairwise_sorted h) ?_
    · have hparts := (List.filter_append_perm (fun r => decide (last < key r)) rows).symm.trans
        List.perm_append_comm
      exact (perm_sorted rows).trans
        (hparts.trans ((perm_sorted _).symm.append (perm_sorted _).symm))
    · refine List.pairwise_append.mpr ⟨pairwise_sorted (h.sublist (List.filter_sublist.map key)),
        pairwise_sorted (h.sublist (List.filter_sublist.map key)), ?_⟩
      intro a ha b hb
      have hle : key a ≤ last := by simpa using (List.mem_filter.mp (mem_sorted.mp ha)).2
      exact lt_of_le_of_lt hle (mem_after.mp hb).2
  · intro r hr
    simpa using (List.mem_filter.mp (mem_sorted.mp hr)).2

theorem exists_split_at (hr : r ∈ rows) :
    ∃ xs, sorted key rows = xs ++ r :: after key rows (key r) ∧ ∀ a ∈ xs, key a < key r := by
  have hmem : r ∈ sorted key rows := mem_sorted.mpr hr
  obtain ⟨xs, ys, hsplit⟩ := List.append_of_mem hmem
  have hsorted := pairwise_sorted h
  rw [hsplit] at hsorted
  obtain ⟨-, htail, hcross⟩ := List.pairwise_append.mp hsorted
  have hbefore : ∀ a ∈ xs, key a < key r := fun a ha => hcross a ha r List.mem_cons_self
  have hafter : after key rows (key r) = ys := by
    have hcut : sorted key rows = (xs ++ [r]) ++ ys := by rw [hsplit]; simp
    refine after_of_split h hcut ?_ ?_
    · intro a ha
      rcases List.mem_append.mp ha with ha | ha
      · exact (hbefore a ha).le
      · rw [List.mem_singleton.mp ha]
    · exact (List.pairwise_cons.mp htail).1
  exact ⟨xs, by rw [hsplit, hafter], hbefore⟩

theorem after_page {limit : ℕ} (hr : ((after key rows last).take limit).getLast? = some r) :
    after key rows (key r) = (after key rows last).drop limit := by
  obtain ⟨xs, hsplit, hxs⟩ := exists_split h last
  obtain ⟨init, hpage⟩ := List.getLast?_eq_some_iff.mp hr
  have hcut := List.take_append_drop limit (after key rows last)
  rw [hpage] at hcut
  have hsorted := pairwise_sorted h
  rw [hsplit, ← hcut] at hsorted
  obtain ⟨-, hrest, -⟩ := List.pairwise_append.mp hsorted
  obtain ⟨hinit, -, hcross⟩ := List.pairwise_append.mp hrest
  have hlast : last < key r := by
    have htake : r ∈ (after key rows last).take limit := by
      rw [hpage]
      exact List.mem_append_right _ List.mem_cons_self
    exact (mem_after.mp (List.mem_of_mem_take htake)).2
  have hparts : sorted key rows = (xs ++ (init ++ [r])) ++ (after key rows last).drop limit := by
    rw [hsplit, List.append_assoc, hcut]
  refine after_of_split h hparts ?_ ?_
  · intro a ha
    rcases List.mem_append.mp ha with ha | ha
    · exact (hxs a ha).trans hlast.le
    rcases List.mem_append.mp ha with ha | ha
    · exact ((List.pairwise_append.mp hinit).2.2 a ha r List.mem_cons_self).le
    · rw [List.mem_singleton.mp ha]
  · exact fun a ha => hcross r (List.mem_append_right _ List.mem_cons_self) a ha

end

end SpatiumDdi.Keyset

namespace SpatiumDdi.PageWalk

universe u v

variable {α : Type u} {κ : Type v} [LinearOrder κ] {key : α → κ} {limit : ℕ} {cursor : WithBot κ}
  {table : List α} {tables : List (List α)} {passed : List α}

def Ordered (key : α → κ) (rows : List α) : Prop := rows.Pairwise fun a b => key a < key b

/-- The rows past a cursor, which is `⊥` before the first. -/
def past (key : α → κ) (cursor : WithBot κ) (table : List α) : List α :=
  table.filter fun a => cursor < (key a : WithBot κ)

def page (key : α → κ) (limit : ℕ) (cursor : WithBot κ) (table : List α) : List α :=
  (past key cursor table).take limit

variable {a : α}

theorem mem_past : a ∈ past key cursor table ↔ a ∈ table ∧ cursor < (key a : WithBot κ) := by
  rw [past, List.mem_filter, decide_eq_true_eq]

theorem mem_of_mem_page (h : a ∈ page key limit cursor table) :
    a ∈ table ∧ cursor < (key a : WithBot κ) :=
  mem_past.mp (List.mem_of_mem_take h)

theorem Ordered.past (h : Ordered key table) : Ordered key (past key cursor table) := h.filter _

theorem Ordered.page (h : Ordered key table) : Ordered key (page key limit cursor table) :=
  h.past.sublist (List.take_sublist _ _)

variable {x : α}

theorem Ordered.lt_of_left (h : Ordered key table) (hx : x ∈ PageWalk.page key limit cursor table)
    (ha : a ∈ PageWalk.past key cursor table) (hleft : a ∉ PageWalk.page key limit cursor table) :
    key x < key a := by
  have hsplit := List.take_append_drop limit (PageWalk.past key cursor table)
  have hall : Ordered key (PageWalk.past key cursor table) := h.past
  rw [Ordered, ← hsplit, List.pairwise_append] at hall
  rw [← hsplit] at ha
  rcases List.mem_append.mp ha with htaken | hdropped
  · exact absurd htaken hleft
  · exact hall.2.2 x hx a hdropped

theorem Ordered.le_getLast {rows : List α} (h : Ordered key rows) (hx : rows.getLast? = some x)
    (ha : a ∈ rows) : key a ≤ key x := by
  obtain ⟨before, rfl⟩ := List.getLast?_eq_some_iff.mp hx
  rcases List.mem_append.mp ha with ha | ha
  · exact ((List.pairwise_append.mp h).2.2 a ha x List.mem_cons_self).le
  · rw [List.mem_singleton.mp ha]

/-- The rows passed on the way to a cursor: in order, none past it, and every row up to it that each
table had. -/
structure Passed (key : α → κ) (tables : List (List α)) (passed : List α) (cursor : WithBot κ) :
    Prop where
  ordered : Ordered key passed
  upTo : ∀ a ∈ passed, (key a : WithBot κ) ≤ cursor
  whole : ∀ a, (∀ table ∈ tables, a ∈ table) → (key a : WithBot κ) ≤ cursor → a ∈ passed

theorem Passed.start : Passed key [] [] ⊥ where
  ordered := List.Pairwise.nil
  upTo := fun _ ha => absurd ha List.not_mem_nil
  whole := fun _ _ ha => absurd (le_bot_iff.mp ha) WithBot.coe_ne_bot

section

variable (h : Passed key tables passed cursor)
include h

theorem Passed.append_page (ht : Ordered key table) :
    Ordered key (passed ++ page key limit cursor table) := by
  refine List.pairwise_append.mpr ⟨h.ordered, ht.page, fun a ha b hb => ?_⟩
  exact WithBot.coe_lt_coe.mp ((h.upTo a ha).trans_lt (mem_of_mem_page hb).2)

theorem Passed.past_or_mem (ha : ∀ t ∈ tables ++ [table], a ∈ t) :
    a ∈ past key cursor table ∨ a ∈ passed := by
  rcases lt_or_ge cursor (key a : WithBot κ) with hpast | hupTo
  · exact .inl (mem_past.mpr ⟨ha table (List.mem_append_right _ List.mem_cons_self), hpast⟩)
  · exact .inr (h.whole a (fun t ht => ha t (List.mem_append_left _ ht)) hupTo)

theorem Passed.turn (ht : Ordered key table) (hx : (page key limit cursor table).getLast? = some x) :
    Passed key (tables ++ [table]) (passed ++ page key limit cursor table) (key x) where
  ordered := h.append_page ht
  upTo := by
    intro a ha
    rcases List.mem_append.mp ha with ha | ha
    · exact (h.upTo a ha).trans (mem_of_mem_page (List.mem_of_getLast? hx)).2.le
    · exact WithBot.coe_le_coe.mpr (ht.page.le_getLast hx ha)
  whole := by
    intro a htables hupTo
    rcases h.past_or_mem htables with hpast | hpassed
    · by_contra hleft
      have hlt := ht.lt_of_left (List.mem_of_getLast? hx) hpast
        fun hpage => hleft (List.mem_append_right _ hpage)
      exact absurd (WithBot.coe_le_coe.mp hupTo) (not_le.mpr hlt)
    · exact List.mem_append_left _ hpassed

end

theorem page_eq_past (h : (page key limit cursor table).length < limit) :
    page key limit cursor table = past key cursor table := by
  refine List.take_of_length_le ?_
  rw [page, List.length_take] at h
  omega

/-- With a page that is not full the walk has passed every row that each table had. -/
theorem Passed.finish (h : Passed key tables passed cursor)
    (hshort : (page key limit cursor table).length < limit) (ha : ∀ t ∈ tables ++ [table], a ∈ t) :
    a ∈ passed ++ page key limit cursor table := by
  rw [page_eq_past hshort, List.mem_append]
  exact (h.past_or_mem ha).symm

end SpatiumDdi.PageWalk
