import Mathlib.Data.List.Pairwise
import SpatiumDdi.Lib.Like
import SpatiumDdi.Lib.Text

/-!
The exceptions of the blocklists of a zone (`services/dns_blocklist.py`). An operator's exception is
applied to every list. A feed's own exception joins them where nothing but the feed's list is
carved.
-/

namespace SpatiumDdi.Dns.Blocklist

abbrev Name := List Char

structure Entry where
  domain : Name
  isWildcard : Bool

inductive Source where
  | manual
  | feed
  deriving DecidableEq

structure Exempt where
  domain : Name
  source : Source

variable {Id : Type} [DecidableEq Id] {a name b : Name}

structure Tables (Id : Type) where
  enabled : Id → Bool
  entries : Id → List Entry
  exceptions : Id → List Exempt

def joinLabels (labels : List Name) : Name := ['.'].intercalate labels

def ancestors (name : Name) : List Name :=
  let labels := name.splitOn '.'
  (List.range' 1 (labels.length - 1)).map fun i => joinLabels (labels.drop i)

def likeEscape (text : Name) : Name := Like.guard '_' (Like.guard '%' (Like.guard '\\' text))

def underPattern (n : Name) : List Char := '%' :: '.' :: likeEscape n

section
variable (lower : Name → Name) (T : Tables Id)

def candidates (feed : Id → List Name) (bl : Id) : List Name :=
  let names := feed bl
  let lookup := names.flatMap ancestors
  let own := ((T.entries bl).filter fun e => e.isWildcard && lookup.contains e.domain).map
    fun e => lower e.domain
  names.filter fun n => (ancestors n).any fun a => own.contains a

/-- The candidates of a list that no other list blocks, or blocks a name under. -/
def carvedNames (enabled : List Id) (names : List Name) (bl : Id) : List Name :=
  let others := enabled.filter fun other => other ≠ bl
  if others.isEmpty then names
  else
    let lookup := names ++ names.flatMap ancestors
    let cover := (others.flatMap T.entries).filter fun e => lookup.contains e.domain
    let exact := cover.map fun e => lower e.domain
    let wild := (cover.filter fun e => e.isWildcard).map fun e => lower e.domain
    let safe := names.filter fun n =>
      !exact.contains n && !(ancestors n).any fun a => wild.contains a
    let patterns := safe.map underPattern
    let under := ((others.flatMap T.entries).filter fun e =>
      patterns.any fun p => Like.like p e.domain).map fun e => lower e.domain
    safe.filter fun n => !under.any fun u => ('.' :: n).isSuffixOf u

def pooledFeedExceptions (enabled : List Id) (feed : Id → List Name) : List Name :=
  enabled.flatMap fun bl => carvedNames lower T enabled (candidates lower T feed bl) bl

def feedNames (bl : Id) : List Name :=
  ((T.exceptions bl).filter fun x => x.source = .feed).map
    fun x => Text.rstripDotsChars (lower x.domain)

def exceptionDomains (lists : List Id) : List Name :=
  let enabled := lists.filter T.enabled
  let manual := ((enabled.flatMap T.exceptions).filter fun x => x.source ≠ .feed).map
    fun x => lower x.domain
  manual ++ pooledFeedExceptions lower T enabled (feedNames lower T)

def collectLists (lists : List Id) : List Entry × List Name :=
  ((lists.filter T.enabled).flatMap fun bl =>
    (T.entries bl).map fun e => { e with domain := lower e.domain },
    exceptionDomains lower T lists)

end

theorem map_range_drop (f : List Name → Name) (labels : List Name) (a : Name) :
    (List.range (a :: labels).length).map (fun i => f ((a :: labels).drop i)) =
      f (a :: labels) :: (List.range labels.length).map fun i => f (labels.drop i) := by
  rw [List.length_cons, List.range_succ_eq_map, List.map_cons, List.map_map]
  rfl

theorem ancestors_eq (name : Name) :
    ancestors name = (List.range (name.splitOn '.').tail.length).map fun i =>
      joinLabels ((name.splitOn '.').tail.drop i) := by
  simp only [ancestors]
  rw [List.range'_eq_map_range, List.map_map, List.length_tail]
  refine List.map_congr_left fun i _ => ?_
  rw [Function.comp_apply, List.drop_tail, Nat.add_comm]

theorem ancestors_nil : ancestors [] = [] := rfl

theorem ancestors_dot (name : Name) : ancestors ('.' :: name) = name :: ancestors name := by
  have hjoin : joinLabels (name.splitOn '.') = name := List.intercalate_splitOn '.'
  rw [ancestors_eq, ancestors_eq name]
  cases hlabels : name.splitOn '.' with
  | nil => exact absurd hlabels (List.splitOn_ne_nil _ _)
  | cons a labels =>
    rw [hlabels] at hjoin
    have htail : (('.' :: name).splitOn '.').tail = a :: labels := by
      rw [← hlabels, List.splitOn, List.splitOnP_cons_eq_if_modifyHead, if_pos (beq_self_eq_true _)]
      rfl
    rw [htail, map_range_drop, hjoin, List.tail_cons]

theorem ancestors_other {c : Char} (hc : c ≠ '.') (name : Name) :
    ancestors (c :: name) = ancestors name := by
  have htail : ((c :: name).splitOn '.').tail = (name.splitOn '.').tail := by
    rw [List.splitOn, List.splitOnP_cons_eq_if_modifyHead, if_neg (by simp [hc]), List.splitOn,
      List.tail_modifyHead]
  rw [ancestors_eq, ancestors_eq name, htail]

theorem mem_ancestors : a ∈ ancestors name ↔ ∃ lead, name = lead ++ '.' :: a := by
  induction name with
  | nil => simp [ancestors_nil]
  | cons c name ih =>
    by_cases hc : c = '.'
    · subst hc
      rw [ancestors_dot, List.mem_cons, ih]
      constructor
      · rintro (rfl | ⟨lead, rfl⟩)
        · exact ⟨[], rfl⟩
        · exact ⟨'.' :: lead, rfl⟩
      · rintro ⟨lead, hlead⟩
        cases lead with
        | nil => exact .inl (List.cons.inj hlead).2.symm
        | cons d lead => exact .inr ⟨lead, (List.cons.inj hlead).2⟩
    · rw [ancestors_other hc, ih]
      constructor
      · rintro ⟨lead, rfl⟩
        exact ⟨c :: lead, rfl⟩
      · rintro ⟨lead, hlead⟩
        cases lead with
        | nil => exact absurd (List.cons.inj hlead).1 hc
        | cons d lead => exact ⟨lead, (List.cons.inj hlead).2⟩

theorem ancestors_trans (ha : a ∈ ancestors b) (hb : b ∈ ancestors name) : a ∈ ancestors name := by
  obtain ⟨lead, rfl⟩ := mem_ancestors.1 ha
  obtain ⟨lead', rfl⟩ := mem_ancestors.1 hb
  exact mem_ancestors.2 ⟨lead' ++ '.' :: lead, by simp⟩

theorem pairwise_ancestors (name : Name) :
    (ancestors name).Pairwise fun b a => a ∈ ancestors b := by
  induction name with
  | nil => exact List.Pairwise.nil
  | cons c name ih =>
    by_cases hc : c = '.'
    · subst hc
      rw [ancestors_dot]
      exact List.Pairwise.cons (fun a ha => ha) ih
    · rw [ancestors_other hc]
      exact ih

theorem covers_chain (ha : a ∈ name :: ancestors name) (hb : b ∈ name :: ancestors name) :
    a = b ∨ b ∈ ancestors a ∨ a ∈ ancestors b := by
  let Related : Name → Name → Prop := fun b a => b = a ∨ a ∈ ancestors b ∨ b ∈ ancestors a
  have : Std.Symm Related := by
    constructor
    rintro b a (rfl | h | h)
    · exact .inl rfl
    · exact .inr (.inr h)
    · exact .inr (.inl h)
  have hpairwise : (name :: ancestors name).Pairwise Related := by
    refine List.Pairwise.imp (R := fun b a => a ∈ ancestors b) (fun h => .inr (.inl h)) ?_
    exact List.Pairwise.cons (fun a ha => ha) (pairwise_ancestors name)
  by_cases heq : a = b
  · exact .inl heq
  · exact hpairwise.forall ha hb heq

theorem like_underPattern {n d : Name} :
    Like.like (underPattern n) d = true ↔ n ∈ ancestors d := by
  have hdot : Like.special '.' = false := by decide
  rw [underPattern, likeEscape, Like.guard_guard_guard, Like.like_percent, mem_ancestors]
  constructor
  · rintro ⟨lead, rest, rfl, h⟩
    obtain ⟨rest', rfl, h⟩ := (Like.like_plain_cons hdot _ _).1 h
    exact ⟨lead, by rw [(Like.like_escape n rest').1 h]⟩
  · rintro ⟨lead, rfl⟩
    exact ⟨lead, _, rfl, (Like.like_plain_cons hdot _ _).2 ⟨n, rfl, (Like.like_escape n n).2 rfl⟩⟩

end SpatiumDdi.Dns.Blocklist
