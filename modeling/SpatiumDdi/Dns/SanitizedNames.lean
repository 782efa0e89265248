import Mathlib.Data.List.DropRight
import SpatiumDdi.Dhcp.Statics
import SpatiumDdi.Lib.Guards

/-!
The names of hosts: the validators that raise, the sanitisers that fold whatever comes
in, and the check before a name is published as the owner of a record. A name is its
characters. What Python and `idna` do beyond ASCII is a parameter.
-/

namespace SpatiumDdi.Dns.HostNames

open Text
open Dhcp (maxLabelLen maxNameLen isLdh subRuns stripChar fitLabels)

abbrev Name := List Char

/-- What lies outside ASCII: `str.lower`, NFKD, `unicodedata.combining`, and
`idna.encode(label, uts46=True)` with its error. -/
structure Unicode where
  lower : String → String
  nfkd : Name → Name
  combining : Char → Bool
  idna : Name → Except String Name

variable (U : Unicode)

def Unicode.lowerName (name : Name) : Name := (U.lower (String.ofList name)).toList

def isAscii (name : Name) : Bool := name.all (·.toNat < 128)

def hostLabelRe : Name → Bool
  | [] => false
  | c :: rest =>
    c.isAlphanum && (rest.isEmpty || (rest.length ≤ 62 &&
      rest.dropLast.all (fun d => d.isAlphanum || d = '-') && rest.getLast?.any Char.isAlphanum))

def dnsLabelRe : Name → Bool
  | [] => false
  | c :: rest =>
    c ≠ '-' && (c.isAlphanum || c = '_') && (rest.isEmpty || (rest.length ≤ 62 &&
      rest.dropLast.all (fun d => d.isAlphanum || d = '_' || d = '-') &&
      rest.getLast?.any fun d => d.isAlphanum || d = '_'))

def containsControlChars (value : Name) : Bool := value.any fun c => c.toNat < 0x20 || c.toNat = 0x7F

def toAsciiLabel (label : Name) : Except String Name :=
  if isAscii label then
    .ok label
  else
    match U.idna label with
    | .ok ascii => .ok ascii
    | .error exc =>
      let shown := String.ofList label
      .error s!"'{shown}' is not a valid internationalized label ({exc})"

def stripRoot (name : Name) : Name × Bool :=
  if name.getLast? = some '.' then (name.dropLast, true) else (name, false)

def validateHostLabel (field : String) (label : Name) : Except String Name := do
  if label = [] then
    throw s!"{field} contains an empty label"
  let asciiLabel ← toAsciiLabel U label
  let shown := String.ofList asciiLabel
  if maxLabelLen < asciiLabel.length then
    throw s!"{field} label '{shown}' exceeds {maxLabelLen} characters"
  if !hostLabelRe asciiLabel then
    throw (s!"{field} label '{shown}' is not a valid host label " ++
      "(letters, digits and hyphens only; no leading or trailing hyphen)")
  return U.lowerName asciiLabel

def validateHostname (field : String) (name : Name) : Except String Name := do
  let raw := stripChars name
  if raw = [] then
    throw s!"{field} must not be empty"
  let body := (stripRoot raw).1
  if body = [] then
    throw s!"{field} must not be the root domain"
  let labels ← (body.splitOn '.').mapM (validateHostLabel U field)
  let normalized := List.intercalate ['.'] labels
  let shown := String.ofList normalized
  if maxNameLen < normalized.length then
    throw s!"{field} '{shown}' exceeds {maxNameLen} characters"
  return normalized

def validateDnsLabel (field : String) (allowWildcard : Bool) (label : Name) :
    Except String Name := do
  if label = [] then
    throw s!"{field} contains an empty label"
  if label = ['*'] then
    if allowWildcard then
      return ['*']
    throw s!"{field}: a '*' wildcard is only valid as the leftmost label"
  let asciiLabel ← toAsciiLabel U label
  let shown := String.ofList asciiLabel
  if maxLabelLen < asciiLabel.length then
    throw s!"{field} label '{shown}' exceeds {maxLabelLen} characters"
  if !dnsLabelRe asciiLabel then
    throw (s!"{field} label '{shown}' is not a valid DNS label " ++
      "(letters, digits, hyphen and underscore only; no leading or trailing hyphen)")
  return U.lowerName asciiLabel

def validateRecordOwner (field : String) (name : Name) : Except String Name := do
  let raw := stripChars name
  if raw = [] ∨ raw = ['@'] then
    return ['@']
  let body := (stripRoot raw).1
  if body = [] then
    return ['@']
  let out ← (body.splitOn '.').zipIdx.mapM fun (part, i) =>
    validateDnsLabel U field (decide (i = 0)) part
  let normalized := List.intercalate ['.'] out
  let shown := String.ofList normalized
  if maxNameLen < normalized.length then
    throw s!"{field} '{shown}' exceeds {maxNameLen} characters"
  return normalized

def publishableHostOwnerError (hostname : Option Name) : Option String :=
  match hostname with
  | none => some "hostname is blank"
  | some name =>
    if stripChars name = [] then
      some "hostname is blank"
    else if name ≠ stripChars name ∨ containsControlChars name then
      some "hostname contains whitespace or a control character"
    else
      match validateRecordOwner U "hostname" name with
      | .error exc => some exc
      | .ok owner => if owner = ['@'] then some "hostname cannot name the zone apex" else none

def sanitizeHostLabel (raw : Option Name) : Name :=
  match raw with
  | none => []
  | some raw =>
    if raw = [] then
      []
    else
      let s := U.lowerName (stripChar '"' (stripChars raw))
      stripChar '-' ((subRuns false s).take maxLabelLen)

def sanitizeHostname (raw : Option Name) : Name :=
  match raw with
  | none => []
  | some raw =>
    if raw = [] then
      []
    else
      let labels := ((raw.splitOn '.').map (sanitizeHostLabel U ∘ some)).filter (· ≠ [])
      if labels = [] then
        []
      else if (List.intercalate ['.'] labels).length ≤ maxNameLen then
        List.intercalate ['.'] labels
      else
        List.intercalate ['.'] (fitLabels labels labels.length)

def transliterate : Char → Name
  | 'ä' => ['a', 'e']
  | 'ö' => ['o', 'e']
  | 'ü' => ['u', 'e']
  | 'Ä' => ['A', 'e']
  | 'Ö' => ['O', 'e']
  | 'Ü' => ['U', 'e']
  | 'ß' => ['s', 's']
  | c => [c]

def isApostrophe (c : Char) : Bool := c = '\'' || c = '’' || c = '\x60'

def isHostName (name : Name) : Bool :=
  name ≠ [] && name.length ≤ maxNameLen && isAscii name && (name.splitOn '.').all hostLabelRe

def sanitizeMirroredHostname (raw : Option Name) : Name :=
  match raw with
  | none => []
  | some raw =>
    if raw = [] then
      []
    else
      let name := stripChars raw
      if isHostName name then
        name
      else
        let folded := U.nfkd (name.flatMap transliterate)
        let folded := folded.filter fun ch => !U.combining ch
        sanitizeHostname U (some (folded.filter fun ch => !isApostrophe ch))

open Dhcp (maxLabelLen maxNameLen isLdh subRuns stripChar fitLabels)

variable {U : Unicode}

variable {c : Char}

theorem isLower_iff : c.isLower = true ↔ 'a' ≤ c ∧ c ≤ 'z' := by
  change (decide ('a' ≤ c) && decide (c ≤ 'z')) = true ↔ _
  rw [Bool.and_eq_true, decide_eq_true_iff, decide_eq_true_iff]

theorem isLdh_iff (c : Char) :
    isLdh c = true ↔ (c.isLower = true ∨ c.isDigit = true) ∨ c = '-' := by
  rw [isLower_iff, isDigit_iff]
  simp only [isLdh, Bool.or_eq_true, Bool.and_eq_true, decide_eq_true_eq, beq_iff_eq]

/-- A letter, a digit or a hyphen, of either case. -/
def IsHostChar (c : Char) : Prop := c.isAlphanum = true ∨ c = '-'

theorem isAlphanum_iff : c.isAlphanum = true ↔
    (c.isUpper = true ∨ c.isLower = true) ∨ c.isDigit = true := by
  change ((c.isUpper || c.isLower) || c.isDigit) = true ↔ _
  rw [Bool.or_eq_true, Bool.or_eq_true]

theorem IsHostChar.of_isLdh (h : isLdh c = true) : IsHostChar c := by
  rcases (isLdh_iff c).mp h with (h | h) | h
  · exact .inl (isAlphanum_iff.mpr (.inl (.inr h)))
  · exact .inl (isAlphanum_iff.mpr (.inr h))
  · exact .inr h

theorem toNat_of_isAlphanum (h : c.isAlphanum = true) :
    (48 ≤ c.toNat ∧ c.toNat ≤ 57) ∨ (65 ≤ c.toNat ∧ c.toNat ≤ 90) ∨
      (97 ≤ c.toNat ∧ c.toNat ≤ 122) := by
  have hupper : c.isUpper = true → 65 ≤ c.toNat ∧ c.toNat ≤ 90 := of_decide_eq_true
  have hlower : c.isLower = true → 97 ≤ c.toNat ∧ c.toNat ≤ 122 := isLower_iff.mp
  rcases isAlphanum_iff.mp h with (h | h) | h
  · exact .inr (.inl (hupper h))
  · exact .inr (.inr (hlower h))
  · exact .inl (toNat_of_isDigit h)

theorem IsHostChar.toNat (h : IsHostChar c) :
    c.toNat = 45 ∨ (48 ≤ c.toNat ∧ c.toNat ≤ 57) ∨ (65 ≤ c.toNat ∧ c.toNat ≤ 90) ∨
      (97 ≤ c.toNat ∧ c.toNat ≤ 122) := by
  rcases h with h | rfl
  · exact .inr (toNat_of_isAlphanum h)
  · exact .inl rfl

theorem not_isSpace (h : 33 ≤ c.toNat ∧ c.toNat ≤ 126) : isSpace c = false := by
  simp only [isSpace, Bool.or_eq_false_iff, Bool.and_eq_false_iff, decide_eq_false_iff_not,
    beq_eq_false_iff_ne]
  omega

theorem stripChar_eq_rdropWhile (c : Char) (s : Name) :
    stripChar c s = (s.dropWhile (· == c)).rdropWhile (· == c) := rfl

theorem stripChar_subset (c : Char) (s : Name) : stripChar c s ⊆ s := by
  rw [stripChar_eq_rdropWhile]
  intro d hd
  exact List.dropWhile_subset _ ((List.rdropWhile_prefix _ _).subset hd)

theorem stripChar_length (c : Char) (s : Name) : (stripChar c s).length ≤ s.length := by
  rw [stripChar_eq_rdropWhile]
  exact Nat.le_trans (List.rdropWhile_prefix _ _).length_le (List.length_dropWhile_le _ _)

theorem getLast?_stripChar (c : Char) (s : Name) : (stripChar c s).getLast? ≠ some c := by
  rw [stripChar_eq_rdropWhile]
  intro hlast
  have hne : (s.dropWhile (· == c)).rdropWhile (· == c) ≠ [] := by
    intro hnil
    rw [hnil] at hlast
    cases hlast
  have hnot := List.rdropWhile_last_not _ _ hne
  rw [List.getLast?_eq_some_getLast hne, Option.some.injEq] at hlast
  simp [hlast] at hnot

theorem head?_stripChar (c : Char) (s : Name) : (stripChar c s).head? ≠ some c := by
  rw [stripChar_eq_rdropWhile]
  intro hhead
  obtain ⟨rest, hrest⟩ := List.head?_eq_some_iff.mp hhead
  obtain ⟨tail, htail⟩ := List.rdropWhile_prefix (· == c) (s.dropWhile (· == c))
  have hdrop : (s.dropWhile (· == c)).head? = some c := by
    rw [← htail, hrest]
    rfl
  have hnot := List.head?_dropWhile_not (· == c) s
  rw [hdrop] at hnot
  simp at hnot

variable {s label name : Name} {labels : List Name}

theorem stripChar_eq_self (hhead : s.head? ≠ some c) (hlast : s.getLast? ≠ some c) :
    stripChar c s = s := by
  have hdrop : s.dropWhile (· == c) = s := by
    cases s with
    | nil => rfl
    | cons d rest =>
      rw [List.dropWhile_cons_of_neg]
      rintro hd
      exact hhead (by simpa using hd)
  rw [stripChar_eq_rdropWhile, hdrop, List.rdropWhile_eq_self_iff]
  intro hne hd
  rw [beq_iff_eq] at hd
  exact hlast (by rw [List.getLast?_eq_some_getLast hne, hd])

theorem hostLabelRe_iff :
    hostLabelRe label = true ↔ label.length ≤ maxLabelLen ∧ (∀ c ∈ label, IsHostChar c) ∧
      label.head?.any Char.isAlphanum ∧ label.getLast?.any Char.isAlphanum := by
  cases label with
  | nil => simp [hostLabelRe]
  | cons c rest =>
    obtain rfl | ⟨init, d, rfl⟩ := List.eq_nil_or_concat' rest
    · simp [hostLabelRe, IsHostChar, maxLabelLen]
      tauto
    · have hne : (init ++ [d]).isEmpty = false := by simp
      have hlast : (c :: (init ++ [d])).getLast? = some d := by
        rw [← List.cons_append, List.getLast?_concat]
      have hlen : (c :: (init ++ [d])).length ≤ maxLabelLen ↔ (init ++ [d]).length ≤ 62 := by
        rw [List.length_cons, maxLabelLen]
        omega
      simp only [hostLabelRe, hne, hlast, hlen, List.dropLast_concat, List.getLast?_concat,
        List.head?_cons, Option.any_some, Bool.and_eq_true, Bool.false_or, decide_eq_true_eq,
        List.all_eq_true, Bool.or_eq_true, List.forall_mem_cons, List.forall_mem_append,
        IsHostChar, List.mem_singleton, forall_eq]
      constructor
      · rintro ⟨hc, ⟨hlen, hinit⟩, hd⟩
        exact ⟨hlen, ⟨.inl hc, hinit, by simpa using .inl hd⟩, hc, hd⟩
      · rintro ⟨hlen, ⟨-, hinit, -⟩, hc, hd⟩
        exact ⟨hc, ⟨hlen, hinit⟩, hd⟩

section

variable (h : hostLabelRe label = true)
include h

theorem dnsLabelRe_of_hostLabelRe : dnsLabelRe label = true := by
  cases label with
  | nil => cases h
  | cons c rest =>
    simp only [hostLabelRe, Bool.and_eq_true, Bool.or_eq_true, decide_eq_true_eq,
      List.all_eq_true] at h
    obtain ⟨hc, hrest⟩ := h
    have hne : c ≠ '-' := by
      rintro rfl
      cases hc
    simp only [dnsLabelRe, Bool.and_eq_true, Bool.or_eq_true, decide_eq_true_eq, List.all_eq_true]
    refine ⟨⟨hne, .inl hc⟩, ?_⟩
    rcases hrest with hnil | ⟨⟨hlen, hinit⟩, hlast⟩
    · exact .inl hnil
    · refine .inr ⟨⟨hlen, fun d hd => ?_⟩, ?_⟩
      · rcases hinit d hd with hd | hd
        · exact .inl (.inl hd)
        · exact .inr hd
      · cases hget : rest.getLast? with
        | none => simp [hget] at hlast
        | some d =>
          rw [hget, Option.any_some] at hlast
          simp [hlast]

theorem ne_nil_of_hostLabelRe : label ≠ [] := by
  rintro rfl
  cases h

theorem isAscii_of_hostLabelRe : isAscii label = true := by
  obtain ⟨-, hchars, -⟩ := hostLabelRe_iff.mp h
  simp only [isAscii, List.all_eq_true, decide_eq_true_eq]
  intro c hc
  have := (hchars c hc).toNat
  omega

end

theorem lowerName_ascii (hlower : AsciiLower U.lower) (h : isAscii name = true) :
    U.lowerName name = name.map Char.toLower := by
  simp only [isAscii, List.all_eq_true, decide_eq_true_eq] at h
  rw [Unicode.lowerName, hlower name h, String.toList_ofList]

theorem toAsciiLabel_ascii (h : isAscii label = true) : toAsciiLabel U label = .ok label := by
  rw [toAsciiLabel, if_pos h]

section

variable {label : Name} (h : hostLabelRe label = true)

include h

theorem validateHostLabel_ok (field : String) :
    validateHostLabel U field label = .ok (U.lowerName label) := by
  have hlen := (hostLabelRe_iff.mp h).1
  have hascii : toAsciiLabel U label = .ok label :=
    toAsciiLabel_ascii (isAscii_of_hostLabelRe h)
  simp only [validateHostLabel, if_neg (ne_nil_of_hostLabelRe h), ok_bind hascii,
    if_neg (Nat.not_lt.mpr hlen), h]
  rfl

theorem validateDnsLabel_ok (field : String) (allowWildcard : Bool) :
    validateDnsLabel U field allowWildcard label = .ok (U.lowerName label) := by
  have hlen := (hostLabelRe_iff.mp h).1
  have hstar : label ≠ ['*'] := by
    rintro rfl
    exact absurd h (by decide)
  have hascii : toAsciiLabel U label = .ok label :=
    toAsciiLabel_ascii (isAscii_of_hostLabelRe h)
  simp only [validateDnsLabel, if_neg (ne_nil_of_hostLabelRe h), if_neg hstar, ok_bind hascii,
    if_neg (Nat.not_lt.mpr hlen), dnsLabelRe_of_hostLabelRe h]
  rfl

end

theorem mapM_ok {α β ε : Type} {f : α → Except ε β} {g : α → β} {l : List α}
    (h : ∀ a ∈ l, f a = .ok (g a)) : l.mapM f = .ok (l.map g) := by
  induction l with
  | nil => rfl
  | cons a l ih =>
    rw [List.mapM_cons, h a List.mem_cons_self, ih fun b hb => h b (List.mem_cons_of_mem a hb)]
    rfl

structure Spells (labels : List Name) (name : Name) : Prop where
  nonempty : labels ≠ []
  good : ∀ label ∈ labels, hostLabelRe label = true
  joined : List.intercalate ['.'] labels = name

theorem intercalate_map_length {f : Name → Name}
    (h : ∀ label ∈ labels, (f label).length = label.length) :
    (List.intercalate ['.'] (labels.map f)).length = (List.intercalate ['.'] labels).length := by
  induction labels with
  | nil => rfl
  | cons label rest ih =>
    have hrest := ih fun label' h' => h label' (List.mem_cons_of_mem _ h')
    have hlabel := h label List.mem_cons_self
    cases rest with
    | nil => simpa using hlabel
    | cons label' rest =>
      rw [List.map_cons] at hrest
      rw [List.map_cons, List.map_cons, List.intercalate_cons_cons, List.intercalate_cons_cons]
      simp only [List.length_append, hrest, hlabel]

namespace Spells

variable {labels : List Name} {name : Name}

section

variable (h : Spells labels name)
include h

theorem char (hc : c ∈ name) : IsHostChar c ∨ c = '.' := by
  rw [← h.joined] at hc
  rcases mem_intercalate hc with hdot | ⟨label, hlabel, hc⟩
  · exact .inr hdot
  · exact .inl ((hostLabelRe_iff.mp (h.good label hlabel)).2.1 c hc)

theorem toNat (hc : c ∈ name) : 45 ≤ c.toNat ∧ c.toNat ≤ 122 ∧ c.toNat ≠ 64 := by
  rcases h.char hc with hhost | rfl
  · have := hhost.toNat
    omega
  · decide

theorem splitOn : name.splitOn '.' = labels := by
  rw [← h.joined]
  refine List.splitOn_intercalate '.' ?_ h.nonempty
  intro label hlabel hdot
  have := ((hostLabelRe_iff.mp (h.good label hlabel)).2.1 '.' hdot).toNat
  simp at this

theorem head : ∃ c, name.head? = some c ∧ c.isAlphanum = true := by
  obtain ⟨hne, hgood, hjoined⟩ := h
  cases labels with
  | nil => exact absurd rfl hne
  | cons label rest =>
    obtain ⟨-, -, hhead, -⟩ := hostLabelRe_iff.mp (hgood label List.mem_cons_self)
    obtain ⟨c, hc, halnum⟩ := (Option.any_eq_true _ _).mp hhead
    refine ⟨c, ?_, halnum⟩
    rw [← hjoined]
    cases rest with
    | nil => simpa using hc
    | cons label' rest =>
      rw [List.intercalate_cons_cons, List.append_assoc, List.head?_append, hc]
      rfl

theorem last : ∃ c, name.getLast? = some c ∧ c.isAlphanum = true := by
  obtain ⟨hne, hgood, rfl⟩ := h
  induction labels with
  | nil => exact absurd rfl hne
  | cons label rest ih =>
    cases rest with
    | nil =>
      obtain ⟨-, -, -, hlast⟩ := hostLabelRe_iff.mp (hgood label List.mem_cons_self)
      obtain ⟨c, hc, halnum⟩ := (Option.any_eq_true _ _).mp hlast
      exact ⟨c, by simpa using hc, halnum⟩
    | cons label' rest =>
      obtain ⟨c, hc, halnum⟩ := ih (List.cons_ne_nil _ _) fun l hl =>
        hgood l (List.mem_cons_of_mem _ hl)
      refine ⟨c, ?_, halnum⟩
      rw [List.intercalate_cons_cons, List.getLast?_append, hc]
      rfl

theorem ne_nil : name ≠ [] := by
  obtain ⟨c, hc, -⟩ := h.head
  rintro rfl
  cases hc

theorem stripChars_self : stripChars name = name := by
  obtain ⟨a, ha, halnum⟩ := h.head
  obtain ⟨b, hb, hblnum⟩ := h.last
  have hspace : ∀ c : Char, c.isAlphanum = true → isSpace c = false := by
    intro c hc
    have := toNat_of_isAlphanum hc
    apply not_isSpace
    omega
  have hstrip : stripChars ([] ++ (name ++ [])) = name :=
    stripChars_of (by simp) (by simp) ha (hspace a halnum) hb (hspace b hblnum)
  simpa using hstrip

theorem stripRoot_self : (stripRoot name).1 = name := by
  obtain ⟨b, hb, hblnum⟩ := h.last
  have hdot : name.getLast? ≠ some '.' := by
    rw [hb, ne_eq, Option.some.injEq]
    rintro rfl
    cases hblnum
  rw [stripRoot, if_neg hdot]

theorem no_control : containsControlChars name = false := by
  simp only [containsControlChars, List.any_eq_false, decide_eq_true_eq, Bool.or_eq_true]
  intro c hc
  have := h.toNat hc
  omega

theorem label_length :
    ∀ label ∈ name.splitOn '.', 1 ≤ label.length ∧ label.length ≤ maxLabelLen := by
  rw [h.splitOn]
  intro label hlabel
  refine ⟨?_, (hostLabelRe_iff.mp (h.good label hlabel)).1⟩
  exact List.length_pos_of_ne_nil (ne_nil_of_hostLabelRe (h.good label hlabel))

end

section

variable (hlower : AsciiLower U.lower)
include hlower

section

variable (h : Spells labels name)
include h

theorem lower_length : (List.intercalate ['.'] (labels.map U.lowerName)).length = name.length := by
  rw [← h.joined]
  apply intercalate_map_length
  intro label hlabel
  rw [lowerName_ascii hlower (isAscii_of_hostLabelRe (h.good label hlabel)), List.length_map]

theorem validateHostname_ok (hlen : name.length ≤ maxNameLen) (field : String) :
    validateHostname U field name = .ok (List.intercalate ['.'] (labels.map U.lowerName)) := by
  have hlabels : labels.mapM (validateHostLabel U field) = .ok (labels.map U.lowerName) :=
    mapM_ok fun label hlabel => validateHostLabel_ok (h.good label hlabel) field
  have hfits := Nat.not_lt.mpr ((h.lower_length hlower).trans_le hlen)
  simp only [validateHostname, h.stripChars_self, if_neg h.ne_nil, h.stripRoot_self, h.splitOn,
    ok_bind hlabels, if_neg hfits]
  rfl

theorem validateRecordOwner_ok (hlen : name.length ≤ maxNameLen) (field : String) :
    validateRecordOwner U field name = .ok (List.intercalate ['.'] (labels.map U.lowerName)) := by
  have hlabels : (labels.zipIdx.mapM fun (part, i) =>
      validateDnsLabel U field (decide (i = 0)) part) = .ok (labels.map U.lowerName) := by
    have hmap : labels.zipIdx.map (fun item => U.lowerName item.1) = labels.map U.lowerName := by
      have hcomp := List.map_map (f := Prod.fst) (g := U.lowerName) (l := labels.zipIdx)
      rw [List.zipIdx_map_fst] at hcomp
      exact hcomp.symm
    rw [← hmap]
    exact mapM_ok fun item hitem =>
      validateDnsLabel_ok (h.good item.1 (List.fst_mem_of_mem_zipIdx hitem)) field _
  have hfits := Nat.not_lt.mpr ((h.lower_length hlower).trans_le hlen)
  have hapex : ¬(name = [] ∨ name = ['@']) := by
    rintro (hnil | hat)
    · exact h.ne_nil hnil
    · have := h.toNat (hat ▸ List.mem_singleton_self '@')
      simp at this
  simp only [validateRecordOwner, h.stripChars_self, if_neg hapex, if_neg h.ne_nil,
    h.stripRoot_self, h.splitOn, ok_bind hlabels, if_neg hfits]
  rfl

end

end

theorem toLower_ne_at (h : IsHostChar c) : c.toLower ≠ '@' := by
  have hall : ∀ n : Fin 128, (Char.ofNat n).toNat ≠ 64 → (Char.ofNat n).toLower ≠ '@' := by
    decide +kernel
  have hnat := h.toNat
  have hchar := hall ⟨c.toNat, by omega⟩
  rw [Char.ofNat_toNat] at hchar
  exact hchar (by omega)

theorem publishable (hlower : AsciiLower U.lower) (h : Spells labels name)
    (hlen : name.length ≤ maxNameLen) : publishableHostOwnerError U (some name) = none := by
  have hclean : ¬(name ≠ stripChars name ∨ containsControlChars name = true) := by
    rw [h.stripChars_self, h.no_control]
    simp
  have hapex : List.intercalate ['.'] (labels.map U.lowerName) ≠ ['@'] := by
    intro hat
    have hmem : '@' ∈ List.intercalate ['.'] (labels.map U.lowerName) := by simp [hat]
    rcases mem_intercalate hmem with hdot | ⟨lowered, hlowered, hin⟩
    · cases hdot
    · obtain ⟨label, hlabel, rfl⟩ := List.mem_map.mp hlowered
      have hgood := h.good label hlabel
      rw [lowerName_ascii hlower (isAscii_of_hostLabelRe hgood)] at hin
      obtain ⟨c, hc, hat⟩ := List.mem_map.mp hin
      exact toLower_ne_at ((hostLabelRe_iff.mp hgood).2.1 c hc) hat
  have howner := h.validateRecordOwner_ok hlower hlen "hostname"
  simp only [publishableHostOwnerError, if_neg hclean, howner, if_neg hapex]
  rw [h.stripChars_self, if_neg h.ne_nil]

end Spells

theorem subRuns_ldh (inRun : Bool) (s : Name) : ∀ c ∈ subRuns inRun s, isLdh c = true := by
  fun_induction subRuns inRun s with
  | case1 => simp
  | case2 inRun c rest hldh ih =>
    intro d hd
    rcases List.mem_cons.mp hd with rfl | hd
    · exact hldh
    · exact ih d hd
  | case3 c rest hldh ih => exact ih
  | case4 inRun c rest hldh hrun ih =>
    intro d hd
    rcases List.mem_cons.mp hd with rfl | hd
    · rfl
    · exact ih d hd

theorem subRuns_self (h : ∀ c ∈ s, isLdh c = true) : subRuns false s = s := by
  induction s with
  | nil => rfl
  | cons c rest ih =>
    rw [subRuns, if_pos (h c List.mem_cons_self), ih fun d hd => h d (List.mem_cons_of_mem _ hd)]

theorem toLower_of_isLdh (h : isLdh c = true) : c.toLower = c := by
  have hall : ∀ n : Fin 128, isLdh (Char.ofNat n) = true →
      (Char.ofNat n).toLower = Char.ofNat n := by
    decide +kernel
  have hnat := (IsHostChar.of_isLdh h).toNat
  have hchar := hall ⟨c.toNat, by omega⟩
  rw [Char.ofNat_toNat] at hchar
  exact hchar h

/-- A label of lower case letters, digits and inner hyphens. -/
def Folded (label : Name) : Prop := hostLabelRe label = true ∧ ∀ c ∈ label, isLdh c = true

theorem isAlphanum_of_isLdh (h : isLdh c = true) (hne : c ≠ '-') : c.isAlphanum = true := by
  rcases IsHostChar.of_isLdh h with h | h
  · exact h
  · exact absurd h hne

theorem folded_of_stripChar (hchars : ∀ c ∈ s, isLdh c = true) (hlen : s.length ≤ maxLabelLen)
    (hne : stripChar '-' s ≠ []) : Folded (stripChar '-' s) := by
  have hldh : ∀ c ∈ stripChar '-' s, isLdh c = true := fun c hc =>
    hchars c (stripChar_subset '-' s hc)
  have hhead := head?_stripChar '-' s
  have hlast := getLast?_stripChar '-' s
  refine ⟨hostLabelRe_iff.mpr ⟨Nat.le_trans (stripChar_length _ _) hlen,
    fun c hc => .of_isLdh (hldh c hc), ?_, ?_⟩, hldh⟩
  · obtain ⟨c, hc⟩ := Option.ne_none_iff_exists'.mp (List.head?_eq_none_iff.not.mpr hne)
    rw [hc, Option.any_some]
    exact isAlphanum_of_isLdh (hldh c (List.mem_of_head? hc)) fun h => hhead (h ▸ hc)
  · obtain ⟨c, hc⟩ := Option.ne_none_iff_exists'.mp (List.getLast?_eq_none_iff.not.mpr hne)
    rw [hc, Option.any_some]
    exact isAlphanum_of_isLdh (hldh c (List.mem_of_getLast? hc)) fun h => hlast (h ▸ hc)

theorem sanitizeHostLabel_folded (raw : Option Name) :
    sanitizeHostLabel U raw = [] ∨ Folded (sanitizeHostLabel U raw) := by
  rw [or_iff_not_imp_left]
  intro hne
  cases raw with
  | none => exact absurd rfl hne
  | some raw =>
    by_cases hraw : raw = []
    · exact absurd (by simp [sanitizeHostLabel, hraw]) hne
    · simp only [sanitizeHostLabel, if_neg hraw] at hne ⊢
      refine folded_of_stripChar ?_ (List.length_take_le _ _) hne
      intro c hc
      exact subRuns_ldh _ _ c (List.mem_of_mem_take hc)

namespace Folded

variable {label : Name} (h : Folded label)

include h

theorem spells : Spells [label] label :=
  ⟨List.cons_ne_nil _ _, by simpa using h.1, by simp⟩

theorem lowerName_self (hlower : AsciiLower U.lower) : U.lowerName label = label := by
  rw [lowerName_ascii hlower (isAscii_of_hostLabelRe h.1)]
  have hid : ∀ c ∈ label, c.toLower = c := fun c hc => toLower_of_isLdh (h.2 c hc)
  rw [List.map_congr_left hid, List.map_id']

theorem sanitize_self (hlower : AsciiLower U.lower) : sanitizeHostLabel U (some label) = label := by
  have hne := ne_nil_of_hostLabelRe h.1
  obtain ⟨a, ha, halnum⟩ := h.spells.head
  obtain ⟨b, hb, hblnum⟩ := h.spells.last
  have hstrip : ∀ c : Char, c.isAlphanum = false → stripChar c label = label := by
    intro c hc
    apply stripChar_eq_self
    · rintro hhead
      rw [ha, Option.some.injEq] at hhead
      rw [hhead, hc] at halnum
      cases halnum
    · rintro hlast
      rw [hb, Option.some.injEq] at hlast
      rw [hlast, hc] at hblnum
      cases hblnum
  have htake : label.take maxLabelLen = label := List.take_of_length_le (hostLabelRe_iff.mp h.1).1
  simp only [sanitizeHostLabel, if_neg hne, h.spells.stripChars_self]
  rw [hstrip '"' (by decide), h.lowerName_self hlower, subRuns_self h.2, htake, hstrip '-' (by decide)]

end Folded

theorem fitLabels_spec (labels : List Name) {n : Nat} (hn : labels.length ≤ n) :
    fitLabels labels n <+: labels ∧
      (List.intercalate ['.'] (fitLabels labels n)).length ≤ maxNameLen := by
  induction n generalizing labels with
  | zero =>
    rw [List.length_eq_zero_iff.mp (Nat.le_zero.mp hn)]
    exact ⟨List.prefix_rfl, Nat.zero_le _⟩
  | succ n ih =>
    rw [fitLabels]
    split
    · have hlen : labels.dropLast.length ≤ n := by
        rw [List.length_dropLast]
        omega
      obtain ⟨hpre, hfits⟩ := ih labels.dropLast hlen
      exact ⟨hpre.trans (List.dropLast_prefix labels), hfits⟩
    next hfits => exact ⟨List.prefix_rfl, Nat.not_lt.mp hfits⟩

def FoldedName (name : Name) : Prop :=
  name.length ≤ maxNameLen ∧ ∃ labels, Spells labels name ∧ ∀ label ∈ labels, Folded label

theorem foldedName_intercalate (hfolded : ∀ label ∈ labels, Folded label)
    (hfits : (List.intercalate ['.'] labels).length ≤ maxNameLen) :
    List.intercalate ['.'] labels = [] ∨ FoldedName (List.intercalate ['.'] labels) := by
  cases labels with
  | nil => exact .inl rfl
  | cons label rest =>
    exact .inr ⟨hfits, _, ⟨List.cons_ne_nil _ _, fun l hl => (hfolded l hl).1, rfl⟩, hfolded⟩

theorem sanitizeHostname_folded (raw : Option Name) :
    sanitizeHostname U raw = [] ∨ FoldedName (sanitizeHostname U raw) := by
  cases raw with
  | none => exact .inl rfl
  | some raw =>
    have hfolded : ∀ label ∈ ((raw.splitOn '.').map (sanitizeHostLabel U ∘ some)).filter (· ≠ []),
        Folded label := by
      intro label hlabel
      obtain ⟨hmem, hne⟩ := List.mem_filter.mp hlabel
      obtain ⟨part, -, rfl⟩ := List.mem_map.mp hmem
      exact (sanitizeHostLabel_folded (some part)).resolve_left (of_decide_eq_true hne)
    simp only [sanitizeHostname]
    split
    · exact .inl rfl
    · split
      · exact .inl rfl
      · split
        next hfits => exact foldedName_intercalate hfolded hfits
        · obtain ⟨hpre, hfits⟩ := fitLabels_spec _ (Nat.le_refl _)
          exact foldedName_intercalate (fun label hlabel => hfolded label (hpre.subset hlabel)) hfits

theorem FoldedName.sanitize_self (hlower : AsciiLower U.lower) (h : FoldedName name) :
    sanitizeHostname U (some name) = name := by
  obtain ⟨hlen, labels, hspells, hfolded⟩ := h
  have hmap : labels.map (sanitizeHostLabel U ∘ some) = labels :=
    (List.map_congr_left fun label hlabel => (hfolded label hlabel).sanitize_self hlower).trans
      (List.map_id' labels)
  have hkeep : labels.filter (· ≠ []) = labels := by
    rw [List.filter_eq_self]
    intro label hlabel
    exact decide_eq_true (ne_nil_of_hostLabelRe (hfolded label hlabel).1)
  simp only [sanitizeHostname, if_neg hspells.ne_nil, hspells.splitOn, hmap, hkeep,
    if_neg hspells.nonempty, hspells.joined, if_pos hlen]

theorem FoldedName.validate_self (hlower : AsciiLower U.lower) (h : FoldedName name)
    (field : String) : validateHostname U field name = .ok name := by
  obtain ⟨hlen, labels, hspells, hfolded⟩ := h
  have hmap : labels.map U.lowerName = labels :=
    (List.map_congr_left fun label hlabel => (hfolded label hlabel).lowerName_self hlower).trans
      (List.map_id' labels)
  rw [hspells.validateHostname_ok hlower hlen, hmap, hspells.joined]

theorem isHostName_spells (h : isHostName name = true) :
    name.length ≤ maxNameLen ∧ Spells (name.splitOn '.') name := by
  simp only [isHostName, Bool.and_eq_true, decide_eq_true_eq, List.all_eq_true] at h
  obtain ⟨⟨⟨-, hlen⟩, -⟩, hlabels⟩ := h
  exact ⟨hlen, List.splitOn_ne_nil _ _, hlabels, List.intercalate_splitOn '.'⟩

/-- The name is empty, or every check of a published host name passes it. -/
structure Publishable (U : Unicode) (name : Name) : Prop where
  valid : name ≠ [] → ∀ field, ∃ normalized, validateHostname U field name = .ok normalized
  length : name.length ≤ maxNameLen
  labels : name ≠ [] → ∀ label ∈ name.splitOn '.', 1 ≤ label.length ∧ label.length ≤ maxLabelLen
  owner : name ≠ [] → publishableHostOwnerError U (some name) = none

theorem Spells.publishable_name (hlower : AsciiLower U.lower) (h : Spells labels name)
    (hlen : name.length ≤ maxNameLen) : Publishable U name where
  valid _ field := ⟨_, h.validateHostname_ok hlower hlen field⟩
  length := hlen
  labels _ := h.label_length
  owner _ := h.publishable hlower hlen

theorem publishable_nil : Publishable U [] where
  valid h := absurd rfl h
  length := Nat.zero_le _
  labels h := absurd rfl h
  owner h := absurd rfl h

theorem publishable_sanitized (hlower : AsciiLower U.lower) (raw : Option Name) :
    Publishable U (sanitizeHostname U raw) := by
  rcases sanitizeHostname_folded (U := U) raw with hnil | ⟨hlen, labels, hspells, -⟩
  · rw [hnil]
    exact publishable_nil
  · exact hspells.publishable_name hlower hlen

theorem publishable_mirrored (hlower : AsciiLower U.lower) (raw : Option Name) :
    Publishable U (sanitizeMirroredHostname U raw) := by
  cases raw with
  | none => exact publishable_nil
  | some raw =>
    simp only [sanitizeMirroredHostname]
    split
    · exact publishable_nil
    · split
      next hhost =>
        obtain ⟨hlen, hspells⟩ := isHostName_spells hhost
        exact hspells.publishable_name hlower hlen
      · exact publishable_sanitized hlower _

/-- Sanitised names are publishable, and sanitising is idempotent. -/
theorem sanitized_publishable (hlower : AsciiLower U.lower) (raw : Option Name) :
    Publishable U (sanitizeHostname U raw) ∧ Publishable U (sanitizeMirroredHostname U raw) ∧
      sanitizeHostname U (some (sanitizeHostname U raw)) = sanitizeHostname U raw ∧
      (sanitizeHostname U raw ≠ [] → ∀ field,
        validateHostname U field (sanitizeHostname U raw) = .ok (sanitizeHostname U raw)) := by
  refine ⟨publishable_sanitized hlower raw, publishable_mirrored hlower raw, ?_, ?_⟩
  · rcases sanitizeHostname_folded (U := U) raw with hnil | hfolded
    · rw [hnil]
      rfl
    · exact hfolded.sanitize_self hlower
  · intro hne field
    exact ((sanitizeHostname_folded (U := U) raw).resolve_left hne).validate_self hlower field

/-- An interpreter that knows no character beyond ASCII. -/
def asciiOnly : Unicode where
  lower := asciiLower
  nfkd name := name
  combining _ := false
  idna _ := .error "Codepoint not allowed"

theorem sanitized_publishable_display :
    validateHostname asciiOnly "hostname" (sanitizeHostname asciiOnly (some "My_PC.-.Corp".toList)) =
      .ok "my-pc.corp".toList := by
  have hname : sanitizeHostname asciiOnly (some "My_PC.-.Corp".toList) = "my-pc.corp".toList := by
    decide +kernel
  have hvalid := (sanitized_publishable (U := asciiOnly) asciiLower_ascii
    (some "My_PC.-.Corp".toList)).2.2.2 (by rw [hname]; decide) "hostname"
  rw [hname] at hvalid ⊢
  exact hvalid

end SpatiumDdi.Dns.HostNames
