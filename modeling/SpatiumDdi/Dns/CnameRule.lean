import SpatiumDdi.Lib.Dict
import SpatiumDdi.Lib.Text

/-!
The rule that a CNAME is the only record at its name, over rows that are not stored
yet. Lower and upper case are the interpreter's, taken as parameters.
-/

namespace SpatiumDdi.Dns.CnameRule

variable {V : Type} [DecidableEq V] (lower upper : String → String)

def apexCnameDetail : String :=
  "A CNAME cannot be at the zone apex: the apex always holds the zone's SOA " ++
  "and NS records, and a CNAME must be the only record at its name (RFC 1034 " ++
  "section 3.6.2, RFC 2181 section 10.1). Use A / AAAA records at the apex, " ++
  "or an ALIAS where the group's servers support one."

structure NameRow (V : Type) where
  name : String
  recordType : String
  value : String := ""
  viewId : Option V := none
  deriving DecidableEq

def isApex (name : String) : Bool := Text.strip name = "" || Text.strip name = "@"

def viewsOverlap (a b : Option V) : Bool := a = none || b = none || a = b

/-- `t.strip().upper() == "CNAME"` -/
def isCname (recordType : String) : Bool := upper (Text.strip recordType) = "CNAME"

def typesConflict (recordType otherType : String) : Bool :=
  isCname upper recordType || isCname upper otherType

def rel (name : String) : String :=
  let n := Text.rstripDots (lower (Text.strip name))
  if n = "" then "@" else n

def meet (a b : NameRow V) : Bool :=
  rel lower a.name = rel lower b.name && viewsOverlap a.viewId b.viewId &&
    typesConflict upper a.recordType b.recordType

/-- `_describe`: the other row has an id where it is stored. -/
def describe (recordType fqdn otherType otherValue : String) (otherId : Option String) : String :=
  let name := Text.rstripDots fqdn
  let rtype := upper (Text.strip recordType)
  let ref := match otherId with
    | none => ""
    | some id => s!" (id {id})"
  let what :=
    if upper otherType = "CNAME" then
      if rtype = "CNAME" then
        s!"{name} already has a CNAME to {otherValue}{ref}, and a name holds at most one CNAME"
      else
        s!"{name} is a CNAME to {otherValue}{ref}, so it can hold no {rtype} record"
    else
      s!"{name} already holds data ({otherType} {otherValue}{ref}), so it cannot take a CNAME"
  s!"{what}. A CNAME must be the only record at its name (RFC 1034 section " ++
    "3.6.2, RFC 2181 section 10.1); PowerDNS and BIND both refuse a zone " ++
    "that breaks this, and the server stops applying it."

/-- Reasons by the index of a new row. -/
abbrev Refused := Dict Nat String

/-- The first loop: data beside a standing CNAME. -/
def refuseData (standing : List (NameRow V)) (refused : Refused) (item : NameRow V × Nat) :
    Refused :=
  let (row, i) := item
  if isCname upper row.recordType then
    refused
  else
    match standing.find? (meet lower upper row) with
    | none => refused
    | some st => refused.set i (describe upper row.recordType row.name st.recordType st.value none)

/-- What a CNAME meets: standing rows first, then the data that is kept, then the CNAMEs
kept so far. -/
def otherRow (news standing : List (NameRow V)) (refused : Refused) (kept : List (NameRow V))
    (row : NameRow V) (i : Nat) : Option (NameRow V) :=
  ((standing.find? (meet lower upper row)).or
    ((news.zipIdx.find? fun (r, j) => j ∉ refused.keys ∧ j ≠ i ∧ meet lower upper row r ∧
      ¬isCname upper r.recordType).map Prod.fst)).or
    (kept.find? (meet lower upper row))

def refuseCname (news standing : List (NameRow V)) (state : Refused × List (NameRow V))
    (item : NameRow V × Nat) : Refused × List (NameRow V) :=
  let (refused, kept) := state
  let (row, i) := item
  if isCname upper row.recordType then
    if isApex row.name then
      (refused.set i apexCnameDetail, kept)
    else
      match otherRow lower upper news standing refused kept row i with
      | some other =>
        (refused.set i (describe upper "CNAME" row.name other.recordType other.value none), kept)
      | none => (refused, kept ++ [row])
  else
    state

def refusedByCnameRule (news standing : List (NameRow V)) : Refused :=
  let refused := news.zipIdx.foldl (refuseData lower upper standing) .empty
  (news.zipIdx.foldl (refuseCname lower upper news standing) (refused, [])).1

def keptRows (news : List (NameRow V)) (refused : Refused) : List (NameRow V) :=
  (news.zipIdx.filter fun item => item.2 ∉ refused.keys).map Prod.fst

/-- No two rows break the rule. -/
def Apart (rows : List (NameRow V)) : Prop := rows.Pairwise fun a b => ¬meet lower upper a b

def ApexCname (row : NameRow V) : Prop :=
  isCname upper row.recordType ∧ rel lower row.name = "@"

/-- What is kept breaks nothing, and nothing is refused without a cause that stays. -/
structure SoundAndMaximal (news standing : List (NameRow V)) (refused : Refused) : Prop where
  apart : Apart lower upper (keptRows news refused ++ standing)
  apex : ∀ row ∈ keptRows news refused, ¬ApexCname lower upper row
  cause : ∀ row i, (row, i) ∈ news.zipIdx → i ∈ refused.keys →
    ApexCname lower upper row ∨ (∃ st ∈ standing, meet lower upper row st) ∨
      ∃ other ∈ keptRows news refused, meet lower upper row other

def Blocked (news standing : List (NameRow V)) (row : NameRow V) : Prop :=
  (∃ st ∈ standing, meet lower upper row st) ∨
    ∃ r ∈ news, ¬isCname upper r.recordType ∧ (∀ st ∈ standing, ¬meet lower upper r st) ∧
      meet lower upper row r

def ApexCaught (news standing : List (NameRow V)) : Prop :=
  ∀ row ∈ news, ApexCname lower upper row → ¬isApex row.name →
    Blocked lower upper news standing row

variable {V : Type} [DecidableEq V] {lower upper : String → String}
variable {news standing : List (NameRow V)} {a b row : NameRow V} {refused : Refused}

theorem viewsOverlap_comm (x y : Option V) : viewsOverlap x y = viewsOverlap y x := by
  rw [Bool.eq_iff_iff]
  simp only [viewsOverlap, Bool.or_eq_true, decide_eq_true_eq]
  constructor
  · rintro ((h | h) | h)
    · exact .inl (.inr h)
    · exact .inl (.inl h)
    · exact .inr h.symm
  · rintro ((h | h) | h)
    · exact .inl (.inr h)
    · exact .inl (.inl h)
    · exact .inr h.symm

theorem meet_comm (a b : NameRow V) : meet lower upper a b = meet lower upper b a := by
  have hname : decide (rel lower a.name = rel lower b.name) =
      decide (rel lower b.name = rel lower a.name) := decide_eq_decide.mpr eq_comm
  rw [meet, meet, hname, viewsOverlap_comm, typesConflict, typesConflict, Bool.or_comm]

theorem rel_of_meet (h : meet lower upper a b = true) : rel lower a.name = rel lower b.name := by
  simp only [meet, Bool.and_eq_true, decide_eq_true_eq] at h
  exact h.1.1

theorem not_meet_data (ha : ¬isCname upper a.recordType) (hb : ¬isCname upper b.recordType) :
    ¬meet lower upper a b := by
  simp [meet, typesConflict, ha, hb]

theorem rel_of_isApex (hlower : Text.AsciiLower lower) {name : String}
    (h : isApex name = true) : rel lower name = "@" := by
  have hempty : lower "" = "" := hlower [] (by simp)
  have hat : lower "@" = "@" := hlower ['@'] (by simp)
  simp only [isApex, Bool.or_eq_true, decide_eq_true_eq] at h
  rcases h with h | h
  · simp only [rel, h, hempty]
    rfl
  · simp only [rel, h, hat]
    rfl

/-- What the first loop has refused of the rows it has seen. -/
def DataRefused (lower upper : String → String) (standing : List (NameRow V))
    (item : NameRow V × Nat) : Prop :=
  ¬isCname upper item.1.recordType ∧ ∃ st ∈ standing, meet lower upper item.1 st

theorem mem_keys_set {i j : Nat} {text : String} :
    j ∈ (refused.set i text).keys ↔ j = i ∨ j ∈ refused.keys := by
  rw [Dict.mem_keys, Dict.mem_keys]
  simp only [Dict.get?_set]
  by_cases h : j = i
  · simp [h]
  · simp [h]

theorem mem_keys_refuseData (refused : Refused) (item : NameRow V × Nat) (j : Nat) :
    j ∈ (refuseData lower upper standing refused item).keys ↔
      j ∈ refused.keys ∨ (j = item.2 ∧ DataRefused lower upper standing item) := by
  obtain ⟨row, i⟩ := item
  simp only [refuseData, DataRefused]
  split
  next hcname => simp [hcname]
  next hdata =>
    split
    next hfind =>
      have hnone : ¬∃ st ∈ standing, meet lower upper row st = true := by
        rintro ⟨st, hst, hmeet⟩
        exact List.find?_eq_none.mp hfind st hst hmeet
      simp [hnone]
    next st hfind =>
      have hsome : ∃ st ∈ standing, meet lower upper row st = true :=
        ⟨st, List.mem_of_find?_eq_some hfind, List.find?_some hfind⟩
      rw [mem_keys_set]
      simp [hdata, hsome, or_comm]

theorem mem_keys_refuseAll (items : List (NameRow V × Nat)) (refused : Refused) (j : Nat) :
    j ∈ (items.foldl (refuseData lower upper standing) refused).keys ↔
      j ∈ refused.keys ∨ ∃ item ∈ items, j = item.2 ∧ DataRefused lower upper standing item := by
  induction items generalizing refused with
  | nil => simp
  | cons item rest ih =>
    rw [List.foldl_cons, ih, mem_keys_refuseData]
    simp only [List.mem_cons, exists_eq_or_imp, or_assoc]

/-- What holds once the second loop has seen the rows `seen`. -/
structure Sorted (lower upper : String → String) (news standing : List (NameRow V))
    (seen : List (NameRow V × Nat)) (state : Refused × List (NameRow V)) : Prop where
  data : ∀ item ∈ news.zipIdx, ¬isCname upper item.1.recordType →
    (item.2 ∈ state.1.keys ↔ ∃ st ∈ standing, meet lower upper item.1 st)
  todo : ∀ item ∈ news.zipIdx, item ∉ seen → isCname upper item.1.recordType →
    item.2 ∉ state.1.keys
  kept : ∀ k, k ∈ state.2 ↔
    ∃ i, (k, i) ∈ seen ∧ isCname upper k.recordType ∧ i ∉ state.1.keys
  free : ∀ item ∈ seen, isCname upper item.1.recordType → item.2 ∉ state.1.keys →
    ¬isApex item.1.name ∧ ¬Blocked lower upper news standing item.1
  apart : seen.Pairwise fun x y => isCname upper x.1.recordType → isCname upper y.1.recordType →
    x.2 ∉ state.1.keys → y.2 ∉ state.1.keys → ¬meet lower upper x.1 y.1
  cause : ∀ item ∈ seen, isCname upper item.1.recordType → item.2 ∈ state.1.keys →
    isApex item.1.name ∨ Blocked lower upper news standing item.1 ∨
      ∃ k ∈ state.2, meet lower upper item.1 k

omit [DecidableEq V] in
theorem eq_of_index {x y : NameRow V × Nat} (hx : x ∈ news.zipIdx) (hy : y ∈ news.zipIdx)
    (h : x.2 = y.2) : x = y := by
  rw [List.mem_zipIdx_iff_getElem?] at hx hy
  rw [h, hy, Option.some.injEq] at hx
  exact Prod.ext hx.symm h

theorem otherRow_isSome {state : Refused × List (NameRow V)} {i : Nat}
    (hdata : ∀ item ∈ news.zipIdx, ¬isCname upper item.1.recordType →
      (item.2 ∈ state.1.keys ↔ ∃ st ∈ standing, meet lower upper item.1 st))
    (hi : (row, i) ∈ news.zipIdx) (hrow : isCname upper row.recordType = true) :
    (∃ other, otherRow lower upper news standing state.1 state.2 row i = some other) ↔
      Blocked lower upper news standing row ∨ ∃ k ∈ state.2, meet lower upper row k := by
  rw [← Option.isSome_iff_exists, otherRow]
  simp only [Option.isSome_or, Option.isSome_map, List.find?_isSome, Bool.or_eq_true,
    decide_eq_true_eq, Blocked]
  apply or_congr (or_congr Iff.rfl _) Iff.rfl
  constructor
  · rintro ⟨⟨r, j⟩, hmem, hkey, -, hmeet, hr⟩
    refine ⟨r, List.fst_mem_of_mem_zipIdx hmem, hr, ?_, hmeet⟩
    intro st hst hstands
    exact hkey ((hdata (r, j) hmem hr).mpr ⟨st, hst, hstands⟩)
  · rintro ⟨r, hr, hcname, hstands, hmeet⟩
    obtain ⟨j, hj⟩ := List.mem_iff_getElem?.mp hr
    have hmem : (r, j) ∈ news.zipIdx := List.mem_zipIdx_iff_getElem?.mpr hj
    refine ⟨(r, j), hmem, ?_, ?_, hmeet, hcname⟩
    · intro hkey
      obtain ⟨st, hst, hmeets⟩ := (hdata (r, j) hmem hcname).mp hkey
      exact hstands st hst hmeets
    · rintro rfl
      have hsame := eq_of_index hmem hi rfl
      rw [Prod.mk.injEq] at hsame
      rw [hsame.1] at hcname
      exact hcname hrow

namespace Sorted

variable {seen : List (NameRow V × Nat)} {state : Refused × List (NameRow V)}
variable {item : NameRow V × Nat}

section

variable (h : Sorted lower upper news standing seen state)
include h

theorem skip (hitem : ¬isCname upper item.1.recordType) :
    Sorted lower upper news standing (seen ++ [item]) state where
  data := h.data
  todo x hx hnew := h.todo x hx fun hseen => hnew (List.mem_append_left _ hseen)
  kept k := by
    rw [h.kept]
    constructor
    · rintro ⟨i, hseen, hk⟩
      exact ⟨i, List.mem_append_left _ hseen, hk⟩
    · rintro ⟨i, hseen, hk⟩
      rcases List.mem_append.mp hseen with hseen | hseen
      · exact ⟨i, hseen, hk⟩
      · rw [← List.mem_singleton.mp hseen] at hitem
        exact absurd hk.1 hitem
  free x hx hcname := by
    rcases List.mem_append.mp hx with hx | hx
    · exact h.free x hx hcname
    · rw [List.mem_singleton.mp hx] at hcname
      exact absurd hcname hitem
  apart := by
    refine List.pairwise_append.mpr ⟨h.apart, List.pairwise_singleton _ _, ?_⟩
    intro x _ y hy _ hcname
    rw [List.mem_singleton.mp hy] at hcname
    exact absurd hcname hitem
  cause x hx hcname := by
    rcases List.mem_append.mp hx with hx | hx
    · exact h.cause x hx hcname
    · rw [List.mem_singleton.mp hx] at hcname
      exact absurd hcname hitem

theorem refuse (hseen : ∀ x ∈ seen, x ∈ news.zipIdx ∧ x.2 ≠ item.2) (hmem : item ∈ news.zipIdx)
    (hitem : isCname upper item.1.recordType = true)
    (hcause : isApex item.1.name ∨ Blocked lower upper news standing item.1 ∨ ∃ k ∈ state.2, meet lower upper item.1 k)
    (text : String) :
    Sorted lower upper news standing (seen ++ [item]) (state.1.set item.2 text, state.2) where
  data x hx hdata := by
    have hne : x.2 ≠ item.2 := by
      intro heq
      rw [eq_of_index hx hmem heq] at hdata
      exact hdata hitem
    rw [mem_keys_set, or_iff_right hne]
    exact h.data x hx hdata
  todo x hx hnew hcname := by
    rw [List.mem_append, List.mem_singleton, not_or] at hnew
    rw [mem_keys_set, not_or]
    exact ⟨fun heq => hnew.2 (eq_of_index hx hmem heq), h.todo x hx hnew.1 hcname⟩
  kept k := by
    rw [h.kept]
    constructor
    · rintro ⟨i, hk, hcname, hfree⟩
      refine ⟨i, List.mem_append_left _ hk, hcname, ?_⟩
      rw [mem_keys_set, not_or]
      exact ⟨(hseen _ hk).2, hfree⟩
    · rintro ⟨i, hk, hcname, hfree⟩
      rw [mem_keys_set, not_or] at hfree
      rcases List.mem_append.mp hk with hk | hk
      · exact ⟨i, hk, hcname, hfree.2⟩
      · rw [← List.mem_singleton.mp hk] at hfree
        exact absurd rfl hfree.1
  free x hx hcname hfree := by
    rw [mem_keys_set, not_or] at hfree
    rcases List.mem_append.mp hx with hx | hx
    · exact h.free x hx hcname hfree.2
    · rw [List.mem_singleton.mp hx] at hfree
      exact absurd rfl hfree.1
  apart := by
    refine List.pairwise_append.mpr ⟨?_, List.pairwise_singleton _ _, ?_⟩
    · apply h.apart.imp
      intro x y hxy hx hy hfreex hfreey
      rw [mem_keys_set, not_or] at hfreex hfreey
      exact hxy hx hy hfreex.2 hfreey.2
    · intro x _ y hy _ _ _ hfree
      rw [List.mem_singleton.mp hy, mem_keys_set] at hfree
      exact absurd (.inl rfl) hfree
  cause x hx hcname hkey := by
    rcases List.mem_append.mp hx with hx | hx
    · rw [mem_keys_set, or_iff_right (hseen x hx).2] at hkey
      exact h.cause x hx hcname hkey
    · rw [List.mem_singleton.mp hx]
      exact hcause

theorem keep (hmem : item ∈ news.zipIdx) (hnew : item ∉ seen)
    (hitem : isCname upper item.1.recordType = true) (hapex : ¬isApex item.1.name)
    (hblocked : ¬Blocked lower upper news standing item.1)
    (hkept : ∀ k ∈ state.2, ¬meet lower upper item.1 k) :
    Sorted lower upper news standing (seen ++ [item]) (state.1, state.2 ++ [item.1]) where
  data := h.data
  todo x hx hnew := h.todo x hx fun hseen => hnew (List.mem_append_left _ hseen)
  kept k := by
    have hfree := h.todo item hmem hnew hitem
    rw [List.mem_append, h.kept, List.mem_singleton]
    constructor
    · rintro (⟨i, hk, hcname⟩ | rfl)
      · exact ⟨i, List.mem_append_left _ hk, hcname⟩
      · exact ⟨item.2, List.mem_append_right _ (List.mem_singleton_self _), hitem, hfree⟩
    · rintro ⟨i, hk, hcname⟩
      rcases List.mem_append.mp hk with hk | hk
      · exact .inl ⟨i, hk, hcname⟩
      · exact .inr (congrArg Prod.fst (List.mem_singleton.mp hk))
  free x hx hcname hfree := by
    rcases List.mem_append.mp hx with hx | hx
    · exact h.free x hx hcname hfree
    · rw [List.mem_singleton.mp hx]
      exact ⟨hapex, hblocked⟩
  apart := by
    refine List.pairwise_append.mpr ⟨h.apart, List.pairwise_singleton _ _, ?_⟩
    intro x hx y hy hcname _ hfree _
    rw [List.mem_singleton.mp hy, meet_comm]
    exact hkept x.1 ((h.kept x.1).mpr ⟨x.2, hx, hcname, hfree⟩)
  cause x hx hcname hkey := by
    rcases List.mem_append.mp hx with hx | hx
    · rcases h.cause x hx hcname hkey with hcause | hcause | ⟨k, hk, hmeet⟩
      · exact .inl hcause
      · exact .inr (.inl hcause)
      · exact .inr (.inr ⟨k, List.mem_append_left _ hk, hmeet⟩)
    · rw [List.mem_singleton.mp hx] at hkey
      exact absurd hkey (h.todo item hmem hnew hitem)

theorem step (hseen : ∀ x ∈ seen, x ∈ news.zipIdx ∧ x.2 ≠ item.2) (hmem : item ∈ news.zipIdx) :
    Sorted lower upper news standing (seen ++ [item])
      (refuseCname lower upper news standing state item) := by
  obtain ⟨row, i⟩ := item
  have hnew : (row, i) ∉ seen := fun hx => (hseen _ hx).2 rfl
  simp only [refuseCname]
  split
  next hcname =>
    have hother := otherRow_isSome h.data hmem hcname
    split
    next hapex => exact h.refuse hseen hmem hcname (.inl hapex) _
    next hapex =>
      split
      next other hsome =>
        exact h.refuse hseen hmem hcname (.inr (hother.mp ⟨other, hsome⟩)) _
      next hnone =>
        have hfree := mt hother.mpr (by simp [hnone])
        rw [not_or] at hfree
        exact h.keep hmem hnew hcname hapex hfree.1 fun k hk hmeet => hfree.2 ⟨k, hk, hmeet⟩
  next hdata => exact h.skip hdata

end

theorem start : Sorted lower upper news standing []
    (news.zipIdx.foldl (refuseData lower upper standing) .empty, []) := by
  have hkeys : ∀ j, j ∈ (news.zipIdx.foldl (refuseData lower upper standing) .empty).keys ↔
      j ∈ (Dict.empty : Refused).keys ∨
        ∃ item ∈ news.zipIdx, j = item.2 ∧ DataRefused lower upper standing item :=
    mem_keys_refuseAll news.zipIdx .empty
  have hempty : ∀ j, j ∉ (Dict.empty : Refused).keys := fun j => List.not_mem_nil
  constructor
  · intro item hitem hdata
    rw [hkeys, or_iff_right (hempty _)]
    constructor
    · rintro ⟨item', hitem', hsame, hrefused⟩
      rw [eq_of_index hitem hitem' hsame]
      exact hrefused.2
    · intro hmeets
      exact ⟨item, hitem, rfl, hdata, hmeets⟩
  · intro item hitem _ hcname
    rw [hkeys, or_iff_right (hempty _)]
    rintro ⟨item', hitem', hsame, hrefused⟩
    rw [eq_of_index hitem hitem' hsame] at hcname
    exact hrefused.1 hcname
  · simp
  · simp
  · exact List.Pairwise.nil
  · simp

theorem run {rest : List (NameRow V × Nat)} (h : Sorted lower upper news standing seen state)
    (hall : seen ++ rest = news.zipIdx) :
    Sorted lower upper news standing news.zipIdx
      (rest.foldl (refuseCname lower upper news standing) state) := by
  induction rest generalizing seen state with
  | nil =>
    rw [List.append_nil] at hall
    exact hall ▸ h
  | cons item rest ih =>
    have hnodup : (news.zipIdx.map Prod.snd).Nodup := by
      rw [List.zipIdx_map_snd]
      exact List.nodup_range'
    rw [← hall, List.map_append, List.map_cons, List.nodup_append] at hnodup
    refine ih (h.step ?_ (by simp [← hall])) (by simp [← hall])
    intro x hx
    refine ⟨by simp [← hall, hx], ?_⟩
    exact hnodup.2.2 x.2 (List.mem_map_of_mem hx) item.2 List.mem_cons_self

end Sorted

omit [DecidableEq V] in
theorem mem_keptRows :
    row ∈ keptRows news refused ↔ ∃ i, (row, i) ∈ news.zipIdx ∧ i ∉ refused.keys := by
  simp only [keptRows, List.mem_map, List.mem_filter, decide_eq_true_eq]
  constructor
  · rintro ⟨⟨r, i⟩, ⟨hmem, hkept⟩, rfl⟩
    exact ⟨i, hmem, hkept⟩
  · rintro ⟨i, hmem, hkept⟩
    exact ⟨(row, i), ⟨hmem, hkept⟩, rfl⟩

namespace Sorted

variable {state : Refused × List (NameRow V)}

section

variable (h : Sorted lower upper news standing news.zipIdx state)
include h

theorem not_meet_standing (ha : a ∈ keptRows news state.1) {st : NameRow V} (hst : st ∈ standing) :
    ¬meet lower upper a st := by
  obtain ⟨i, hmem, hkept⟩ := mem_keptRows.mp ha
  intro hmeet
  by_cases hcname : isCname upper a.recordType = true
  · exact (h.free (a, i) hmem hcname hkept).2 (.inl ⟨st, hst, hmeet⟩)
  · exact hkept ((h.data (a, i) hmem hcname).mpr ⟨st, hst, hmeet⟩)

theorem not_meet_data (ha : a ∈ keptRows news state.1) (hb : b ∈ keptRows news state.1)
    (hcname : isCname upper a.recordType = true) (hdata : ¬isCname upper b.recordType) :
    ¬meet lower upper a b := by
  obtain ⟨i, hmem, hkept⟩ := mem_keptRows.mp ha
  obtain ⟨j, hmem', -⟩ := mem_keptRows.mp hb
  intro hmeet
  exact (h.free (a, i) hmem hcname hkept).2 (.inr ⟨b, List.fst_mem_of_mem_zipIdx hmem', hdata,
    fun st hst => h.not_meet_standing hb hst, hmeet⟩)

theorem apart_kept : Apart lower upper (keptRows news state.1) := by
  rw [Apart, keptRows, List.pairwise_map, List.pairwise_filter]
  refine List.Pairwise.imp_of_mem ?_ h.apart
  rintro ⟨a, i⟩ ⟨b, j⟩ hi hj hapart hfree hfree'
  have ha : a ∈ keptRows news state.1 := mem_keptRows.mpr ⟨i, hi, of_decide_eq_true hfree⟩
  have hb : b ∈ keptRows news state.1 := mem_keptRows.mpr ⟨j, hj, of_decide_eq_true hfree'⟩
  by_cases hcname : isCname upper a.recordType = true
  · by_cases hcname' : isCname upper b.recordType = true
    · exact hapart hcname hcname' (of_decide_eq_true hfree) (of_decide_eq_true hfree')
    · exact h.not_meet_data ha hb hcname hcname'
  · by_cases hcname' : isCname upper b.recordType = true
    · rw [meet_comm]
      exact h.not_meet_data hb ha hcname' hcname
    · exact CnameRule.not_meet_data hcname hcname'

theorem apart_standing (hstanding : Apart lower upper standing) :
    Apart lower upper (keptRows news state.1 ++ standing) := by
  refine List.pairwise_append.mpr ⟨h.apart_kept, hstanding, ?_⟩
  intro a ha st hst
  exact h.not_meet_standing ha hst

theorem cause_of_blocked (hblocked : Blocked lower upper news standing row) :
    (∃ st ∈ standing, meet lower upper row st) ∨
      ∃ other ∈ keptRows news state.1, meet lower upper row other := by
  rcases hblocked with hst | ⟨r, hr, hdata, hstands, hmeet⟩
  · exact .inl hst
  · obtain ⟨j, hj⟩ := List.mem_iff_getElem?.mp hr
    have hmem : (r, j) ∈ news.zipIdx := List.mem_zipIdx_iff_getElem?.mpr hj
    refine .inr ⟨r, mem_keptRows.mpr ⟨j, hmem, ?_⟩, hmeet⟩
    intro hkey
    obtain ⟨st, hst, hmeets⟩ := (h.data (r, j) hmem hdata).mp hkey
    exact hstands st hst hmeets

theorem mem_kept {k : NameRow V} (hk : k ∈ state.2) :
    k ∈ keptRows news state.1 ∧ isCname upper k.recordType = true := by
  obtain ⟨i, hmem, hcname, hkept⟩ := (h.kept k).mp hk
  exact ⟨mem_keptRows.mpr ⟨i, hmem, hkept⟩, hcname⟩

theorem soundAndMaximal (hlower : Text.AsciiLower lower) (hstanding : Apart lower upper standing)
    (hcaught : ApexCaught lower upper news standing) :
    SoundAndMaximal lower upper news standing state.1 where
  apart := h.apart_standing hstanding
  apex row hrow hapex := by
    obtain ⟨i, hmem, hkept⟩ := mem_keptRows.mp hrow
    obtain ⟨hnot, hblocked⟩ := h.free (row, i) hmem hapex.1 hkept
    exact hblocked (hcaught row (List.fst_mem_of_mem_zipIdx hmem) hapex hnot)
  cause row i hmem hkey := by
    by_cases hcname : isCname upper row.recordType = true
    · rcases h.cause (row, i) hmem hcname hkey with hapex | hblocked | ⟨k, hk, hmeet⟩
      · exact .inl ⟨hcname, rel_of_isApex hlower hapex⟩
      · exact .inr (h.cause_of_blocked hblocked)
      · exact .inr (.inr ⟨k, (h.mem_kept hk).1, hmeet⟩)
    · exact .inr (.inl ((h.data (row, i) hmem hcname).mp hkey))

theorem apexCaught (hapart : ∀ row ∈ keptRows news state.1, ¬ApexCname lower upper row) :
    ApexCaught lower upper news standing := by
  intro row hrow hapex hnot
  obtain ⟨i, hi⟩ := List.mem_iff_getElem?.mp hrow
  have hmem : (row, i) ∈ news.zipIdx := List.mem_zipIdx_iff_getElem?.mpr hi
  by_cases hkey : i ∈ state.1.keys
  · rcases h.cause (row, i) hmem hapex.1 hkey with hisApex | hblocked | ⟨k, hk, hmeet⟩
    · exact absurd hisApex hnot
    · exact hblocked
    · have hkept := h.mem_kept hk
      have hrel : rel lower k.name = "@" := (rel_of_meet hmeet).symm.trans hapex.2
      exact absurd ⟨hkept.2, hrel⟩ (hapart k hkept.1)
  · exact absurd hapex (hapart row (mem_keptRows.mpr ⟨i, hmem, hkey⟩))

end

end Sorted

/-- The rule is sound and maximal exactly where the apex test misses no CNAME that
nothing else refuses. -/
theorem soundAndMaximal_iff (hlower : Text.AsciiLower lower)
    (hstanding : Apart lower upper standing) :
    SoundAndMaximal lower upper news standing (refusedByCnameRule lower upper news standing) ↔
      ApexCaught lower upper news standing := by
  have hsorted : Sorted lower upper news standing news.zipIdx _ :=
    Sorted.start.run (List.nil_append _)
  constructor
  · intro h
    exact hsorted.apexCaught h.apex
  · intro h
    exact hsorted.soundAndMaximal hlower hstanding h

def dotCname : NameRow Unit := { name := ".", recordType := "CNAME", value := "a.example.com." }

theorem not_soundAndMaximal_dotCname :
    Apart Text.asciiLower Text.asciiUpper ([] : List (NameRow Unit)) ∧
      ¬SoundAndMaximal Text.asciiLower Text.asciiUpper [dotCname] []
        (refusedByCnameRule Text.asciiLower Text.asciiUpper [dotCname] []) := by
  refine ⟨List.Pairwise.nil, ?_⟩
  intro h
  exact h.apex dotCname (by decide) ⟨by decide, by decide⟩

/-- Beside the apex's own records the same CNAME is refused. -/
theorem soundAndMaximal_dotCname_beside :
    SoundAndMaximal Text.asciiLower Text.asciiUpper [dotCname]
      [{ name := "@", recordType := "NS", value := "ns1.example.com." }]
      (refusedByCnameRule Text.asciiLower Text.asciiUpper [dotCname]
        [{ name := "@", recordType := "NS", value := "ns1.example.com." }]) := by
  refine (soundAndMaximal_iff Text.asciiLower_ascii (List.pairwise_singleton _ _)).mpr ?_
  intro row hrow _ _
  rw [List.mem_singleton.mp hrow]
  exact .inl ⟨_, List.mem_singleton_self _, by decide⟩

end SpatiumDdi.Dns.CnameRule
