import Mathlib.Data.Finset.Basic
import Mathlib.Data.Finset.Image

/-!
Dynamic updates of a zone.

A zone holds a set of values under every key, and one of the keys, the name servers of the apex, is
protected: a delete of the whole set is ignored, and so is the delete of its last value.
-/

namespace SpatiumDdi.DynamicUpdate

universe u v

variable {κ : Type u} {ν : Type v} [DecidableEq κ] [DecidableEq ν]

abbrev Zone (κ : Type u) (ν : Type v) := κ → Finset ν

inductive Change (κ : Type u) (ν : Type v) where
  | clear (key : κ)
  | add (key : κ) (value : ν)
  | delete (key : κ) (value : ν)
deriving DecidableEq

def Change.key : Change κ ν → κ
  | clear key => key
  | add key _ => key
  | delete key _ => key

def apply (apex : κ) (zone : Zone κ ν) : Change κ ν → Zone κ ν
  | .clear key => if key = apex then zone else Function.update zone key ∅
  | .add key value => Function.update zone key (insert value (zone key))
  | .delete key value =>
    if key = apex ∧ zone key ⊆ {value} then zone
    else Function.update zone key ((zone key).erase value)

def applyAll (apex : κ) (zone : Zone κ ν) (changes : List (Change κ ν)) : Zone κ ν :=
  changes.foldl (apply apex) zone

variable {apex key : κ} {zone : Zone κ ν} {changes : List (Change κ ν)} {change : Change κ ν}
  {value : ν}

@[simp] theorem applyAll_nil : applyAll apex zone [] = zone := rfl

@[simp] theorem applyAll_cons (change : Change κ ν) :
    applyAll apex zone (change :: changes) = applyAll apex (apply apex zone change) changes := rfl

theorem applyAll_append (more : List (Change κ ν)) :
    applyAll apex zone (changes ++ more) = applyAll apex (applyAll apex zone changes) more :=
  List.foldl_append

theorem apply_of_ne (h : change.key ≠ key) : apply apex zone change key = zone key := by
  cases change with
  | clear k =>
    simp only [apply]
    split
    · rfl
    · exact Function.update_of_ne h.symm ..
  | add k value => exact Function.update_of_ne h.symm ..
  | delete k value =>
    simp only [apply]
    split
    · rfl
    · exact Function.update_of_ne h.symm ..

theorem applyAll_of_ne (h : ∀ change ∈ changes, change.key ≠ key) :
    applyAll apex zone changes key = zone key := by
  induction changes generalizing zone with
  | nil => rfl
  | cons change rest ih =>
    rw [applyAll_cons, ih fun c hc => h c (List.mem_cons_of_mem change hc)]
    exact apply_of_ne (h change List.mem_cons_self)

theorem applyAll_of_key {k : κ} (hkey : ∀ change ∈ changes, change.key = k) (h : k ≠ key) :
    applyAll apex zone changes key = zone key :=
  applyAll_of_ne fun change hchange => hkey change hchange ▸ h

theorem applyAll_adds (values : List ν) :
    applyAll apex zone (values.map (.add key)) key = zone key ∪ values.toFinset := by
  induction values generalizing zone with
  | nil => simp
  | cons value rest ih =>
    rw [List.map_cons, applyAll_cons, ih]
    ext other
    simp only [apply, Function.update_self, Finset.mem_union, Finset.mem_insert,
      List.toFinset_cons]
    tauto

theorem mem_apply (h : value ∈ apply apex zone change key) :
    value ∈ zone key ∨ change = .add key value := by
  by_cases hkey : change.key = key
  · subst hkey
    cases change with
    | clear k =>
      simp only [apply, Change.key] at h ⊢
      split at h
      · exact .inl h
      · rw [Function.update_self] at h
        cases h
    | add k other =>
      simp only [apply, Change.key, Function.update_self, Finset.mem_insert] at h
      rcases h with rfl | hold
      · exact .inr rfl
      · exact .inl hold
    | delete k other =>
      simp only [apply, Change.key] at h
      split at h
      · exact .inl h
      · rw [Function.update_self] at h
        exact .inl (Finset.mem_of_mem_erase h)
  · rw [apply_of_ne hkey] at h
    exact .inl h

theorem mem_applyAll (h : value ∈ applyAll apex zone changes key) :
    value ∈ zone key ∨ .add key value ∈ changes := by
  induction changes generalizing zone with
  | nil => exact .inl h
  | cons change rest ih =>
    rcases ih h with hmid | hadd
    · rcases mem_apply hmid with hold | rfl
      · exact .inl hold
      · exact .inr List.mem_cons_self
    · exact .inr (List.mem_cons_of_mem _ hadd)

theorem mem_applyAll_clear (hkey : key ≠ apex)
    (h : value ∈ applyAll apex zone (.clear key :: changes) key) : .add key value ∈ changes := by
  rw [applyAll_cons] at h
  rcases mem_applyAll h with hold | hadd
  · rw [apply, if_neg hkey, Function.update_self] at hold
    cases hold
  · exact hadd

theorem applyAll_replace (h : key ≠ apex) (values : List ν) :
    applyAll apex zone (.clear key :: values.map (.add key)) key = values.toFinset := by
  rw [applyAll_cons, applyAll_adds]
  simp [apply, h]

theorem applyAll_replace_apex (values : List ν) :
    applyAll apex zone (.clear apex :: values.map (.add apex)) apex =
      zone apex ∪ values.toFinset := by
  rw [applyAll_cons, applyAll_adds]
  simp [apply]

theorem applyAll_deletes {values : List ν} {kept : ν} (hkept : kept ∈ zone key)
    (hnot : kept ∉ values) :
    applyAll apex zone (values.map (.delete key)) key = zone key \ values.toFinset := by
  induction values generalizing zone with
  | nil => simp
  | cons value rest ih =>
    rw [List.mem_cons, not_or] at hnot
    have happly : apply apex zone (.delete key value) key = (zone key).erase value := by
      simp only [apply]
      split
      · -- the last value of the protected set is the kept one
        rename_i hlast
        exact absurd (Finset.mem_singleton.mp (hlast.2 hkept)) hnot.1
      · exact Function.update_self ..
    have hstill : kept ∈ apply apex zone (.delete key value) key := by
      rw [happly]
      exact Finset.mem_erase.mpr ⟨hnot.1, hkept⟩
    rw [List.map_cons, applyAll_cons, ih hstill hnot.2, happly]
    ext other
    simp only [Finset.mem_sdiff, Finset.mem_erase, List.toFinset_cons, Finset.mem_insert]
    tauto

def values (records : Finset (κ × ν)) : Zone κ ν :=
  fun key => (records.filter fun r => r.1 = key).image Prod.snd

def applyRecords (apex : κ) (records : Finset (κ × ν)) : Change κ ν → Finset (κ × ν)
  | .clear key => if key = apex then records else records.filter fun r => r.1 ≠ key
  | .add key value => insert (key, value) records
  | .delete key value =>
    if key = apex ∧ values records key ⊆ {value} then records else records.erase (key, value)

def applyAllRecords (apex : κ) (records : Finset (κ × ν)) (changes : List (Change κ ν)) : Finset (κ × ν) :=
  changes.foldl (applyRecords apex) records

variable {records : Finset (κ × ν)} {value : ν}

@[simp] theorem mem_values : value ∈ values records key ↔ (key, value) ∈ records := by
  simp [values]

theorem values_applyRecords (c : Change κ ν) :
    values (applyRecords apex records c) = apply apex (values records) c := by
  funext k
  ext v
  cases c with
  | clear key =>
    simp only [applyRecords, apply]
    split
    · rfl
    · by_cases hk : k = key
      · simp [hk]
      · simp [hk]
  | add key value =>
    simp only [applyRecords, apply]
    by_cases hk : k = key
    · simp [hk]
    · simp [hk]
  | delete key value =>
    simp only [applyRecords, apply]
    split
    · rfl
    · by_cases hk : k = key
      · simp [hk]
      · simp [hk]

theorem values_applyAllRecords :
    values (applyAllRecords apex records changes) = applyAll apex (values records) changes := by
  induction changes generalizing records with
  | nil => rfl
  | cons c rest ih =>
    rw [applyAll_cons, ← values_applyRecords, ← ih]
    rfl

theorem mem_applyAllRecords (h : (key, value) ∈ applyAllRecords apex records changes) :
    (key, value) ∈ records ∨ .add key value ∈ changes := by
  rw [← mem_values, values_applyAllRecords] at h
  exact (mem_applyAll h).imp_left mem_values.mp

theorem mem_applyAllRecords_of_ne (h : ∀ c ∈ changes, c.key ≠ key) :
    (key, value) ∈ applyAllRecords apex records changes ↔ (key, value) ∈ records := by
  rw [← mem_values, values_applyAllRecords, applyAll_of_ne h, mem_values]

theorem mem_applyAllRecords_clear (hkey : key ≠ apex)
    (h : (key, value) ∈ applyAllRecords apex records (.clear key :: changes)) :
    .add key value ∈ changes := by
  rw [← mem_values, values_applyAllRecords] at h
  exact mem_applyAll_clear hkey h

end SpatiumDdi.DynamicUpdate
