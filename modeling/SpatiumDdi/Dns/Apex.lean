import Mathlib.Data.Finset.Dedup
import Mathlib.Data.List.Infix
import SpatiumDdi.Lib.Text

/-!
The names of a zone file. A name is ASCII text, compared without case; a name in a zone file is
absolute when it ends in a dot and relative to the zone otherwise.
-/

namespace SpatiumDdi.Dns.Apex

open Text (isSpace stripChars)

abbrev Name := List Char

theorem lawfulBEq_name : LawfulBEq Name := inferInstance

/-- `str.lower` of an ASCII name. -/
def lower (s : Name) : Name := s.map Char.toLower

def zoneFileName (value origin : Name) : Name :=
  let v := stripChars value
  if v = [] ∨ v = ['@'] then origin
  else if v.getLast? = some '.' then v
  else v ++ '.' :: origin

def inside (name origin : Name) : Bool :=
  lower name == lower origin || ('.' :: lower origin).isSuffixOf (lower name)

def hasEmptyLabel : Name → Bool
  | '.' :: '.' :: _ => true
  | _ :: rest => hasEmptyLabel rest
  | [] => false

def isZonefileUnsafe (c : Char) : Bool :=
  isSpace c || c ∈ [';', '$', '(', ')', '"', '@', '\\'] || c.toNat < 0x20 || c.toNat == 0x7F

def absoluteName (value : Option Name) : Option Name :=
  value.bind fun value =>
    let name := stripChars value
    if name = [] ∨ name = ['.'] ∨ name.any (fun c => 0x80 ≤ c.toNat) ∨ name.head? = some '.' ∨
        hasEmptyLabel name ∨ name.any isZonefileUnsafe then none
    else some (if name.getLast? = some '.' then name else name ++ ['.'])

def isAlnum (c : Char) : Bool := c.isDigit || c.isUpper || c.isLower

/-- `_HOST_LABEL_RE`; the pattern's end also matches before a final line end. -/
def isHostLabel (label : Name) : Bool :=
  let body := if label.getLast? = some '\n' then label.dropLast else label
  body.head?.any isAlnum && body.getLast?.any isAlnum && body.length ≤ 63 &&
    body.all fun c => isAlnum c || c == '-'

def labels : Name → List Name
  | [] => [[]]
  | c :: rest =>
    match labels rest with
    | label :: others => if c = '.' then [] :: label :: others else (c :: label) :: others
    | [] => [[c]]

def withoutDot (name : Name) : Name :=
  if name.getLast? = some '.' then name.dropLast else name

def isHostName (absolute : Name) : Bool :=
  let body := withoutDot absolute
  body ≠ [] && body.length ≤ 253 && '.' ∈ body && (labels body).all isHostLabel

/-- `_MAILBOX_LOCAL_RE`; the pattern's end also matches before a final line end. -/
def isMailboxLocal (s : Name) : Bool :=
  let body := if s.getLast? = some '\n' then s.dropLast else s
  body ≠ [] && body.all fun c => 0x21 ≤ c.toNat && c.toNat ≤ 0x7E

def isMailboxName (absolute : Name) : Bool :=
  let body := withoutDot absolute
  let local_ := body.takeWhile (· ≠ '.')
  let domain := (body.dropWhile (· ≠ '.')).drop 1
  body ≠ [] && body.length ≤ 253 && '.' ∈ body && local_.length ≤ 63 && isMailboxLocal local_ &&
    (labels domain).all isHostLabel

def labelsAreHostNames (origin : Name) : Bool :=
  let body := withoutDot origin
  body == [] || (labels body).all isHostLabel

/-- A name that ends in a dot, with no white space around it. -/
structure Absolute (name : Name) : Prop where
  stripped : stripChars name = name
  dotted : name.getLast? = some '.'

instance (name : Name) : Decidable (Absolute name) :=
  decidable_of_iff (stripChars name = name ∧ name.getLast? = some '.')
    ⟨fun h => ⟨h.1, h.2⟩, fun h => ⟨h.1, h.2⟩⟩

variable {name : Name}

theorem zoneFileName_of_absolute (h : Absolute name) (origin : Name) :
    zoneFileName name origin = name := by
  have hne : ¬ (name = [] ∨ name = ['@']) := by
    rintro (rfl | rfl)
    · exact absurd h.dotted (by decide)
    · exact absurd h.dotted (by decide)
  simp only [zoneFileName, h.stripped, if_neg hne, h.dotted, if_true]

variable {s : Name} {a d : Char}

private theorem dropWhile_head (h : (s.dropWhile isSpace).head? = some a) : isSpace a = false := by
  have hnot := List.head?_dropWhile_not isSpace s
  rw [h] at hnot
  simpa using hnot

private theorem stripChars_head (h : (stripChars s).head? = some a) : isSpace a = false := by
  refine dropWhile_head (s := s) ?_
  rw [stripChars, List.head?_reverse] at h
  obtain ⟨t, ht⟩ := List.dropWhile_suffix (l := (s.dropWhile isSpace).reverse) isSpace
  have hlast : ((s.dropWhile isSpace).reverse).getLast? = some a := by
    rw [← ht, List.getLast?_append, h]
    rfl
  rwa [List.getLast?_reverse] at hlast

private theorem stripChars_last (h : (stripChars s).getLast? = some a) : isSpace a = false := by
  rw [stripChars, List.getLast?_reverse] at h
  exact dropWhile_head h

theorem stripChars_self {b : Char} (hhead : s.head? = some a) (ha : isSpace a = false)
    (hlast : s.getLast? = some b) (hb : isSpace b = false) : stripChars s = s := by
  have hnone : ∀ c ∈ ([] : Name), isSpace c = true := by simp
  simpa using Text.stripChars_of hnone hnone hhead ha hlast hb

theorem absolute_zoneFileName {origin : Name} (horigin : Absolute origin) (value : Name) :
    Absolute (zoneFileName value origin) := by
  simp only [zoneFileName]
  split
  · exact horigin
  · rename_i hne
    rw [not_or] at hne
    obtain ⟨a, rest, hcons⟩ := List.exists_cons_of_ne_nil hne.1
    have hhead : (stripChars value).head? = some a := by rw [hcons]; rfl
    have ha := stripChars_head hhead
    split
    · rename_i hdot
      exact ⟨stripChars_self hhead ha hdot (stripChars_last hdot), hdot⟩
    · have hlast : (stripChars value ++ '.' :: origin).getLast? = some '.' := by
        rw [List.getLast?_append, List.getLast?_cons, horigin.dotted]
        rfl
      refine ⟨stripChars_self ?_ ha hlast rfl, hlast⟩
      rw [hcons]
      rfl

theorem absolute_of_head (hhead : name.head? = some a) (ha : isSpace a = false)
    (hdot : name.getLast? = some '.') : Absolute name :=
  ⟨stripChars_self hhead ha hdot rfl, hdot⟩

theorem absolute_absoluteName {value : Option Name} (h : absoluteName value = some name) :
    Absolute name := by
  obtain ⟨value, -, h⟩ := Option.bind_eq_some_iff.mp h
  simp only at h
  obtain ⟨hrefused, h⟩ := Option.ite_none_left_eq_some.mp h
  rw [not_or] at hrefused
  obtain ⟨a, rest, hcons⟩ := List.exists_cons_of_ne_nil hrefused.1
  have hhead : (stripChars value).head? = some a := by rw [hcons]; rfl
  have ha := stripChars_head hhead
  rw [Option.some.injEq] at h
  subst h
  split
  · exact absolute_of_head hhead ha ‹_›
  · refine absolute_of_head (a := a) ?_ ha (List.getLast?_concat ..)
    rw [hcons]
    rfl

theorem toLower_keeps {β : Type} {p : Char → β}
    (h : ∀ k < 0x80, p (Char.ofNat k).toLower = p (Char.ofNat k)) (c : Char) :
    p c.toLower = p c := by
  by_cases hc : c.toNat < 0x80
  · have hchar := h c.toNat hc
    rwa [Char.ofNat_toNat] at hchar
  · have hupper : ¬ (c.val ≥ 'A'.val ∧ c.val ≤ 'Z'.val) := by
      rintro ⟨-, hle⟩
      have hnat : c.toNat ≤ 90 := UInt32.le_iff_toNat_le.mp hle
      omega
    exact congrArg p (dif_neg hupper)

theorem toLower_idem (c : Char) : c.toLower.toLower = c.toLower :=
  toLower_keeps (by decide +kernel) c

theorem isSpace_toLower (c : Char) : isSpace c.toLower = isSpace c :=
  toLower_keeps (by decide +kernel) c

theorem isAlnum_toLower (c : Char) : isAlnum c.toLower = isAlnum c :=
  toLower_keeps (by decide +kernel) c

theorem toLower_eq_iff (hd : d ∈ ['.', '-', '\n']) (c : Char) : c.toLower = d ↔ c = d := by
  have hall : ∀ d ∈ ['.', '-', '\n'], ∀ k < 0x80,
      ((Char.ofNat k).toLower == d) = (Char.ofNat k == d) := by
    refine List.forall_mem_cons.mpr ⟨by decide +kernel, ?_⟩
    refine List.forall_mem_cons.mpr ⟨by decide +kernel, ?_⟩
    exact List.forall_mem_singleton.mpr (by decide +kernel)
  have hbeq := toLower_keeps (p := (· == d)) (hall d hd) c
  simpa using congrArg (· = true) hbeq

theorem lower_lower (s : Name) : lower (lower s) = lower s := by
  rw [lower, lower, List.map_map]
  exact List.map_congr_left fun c _ => toLower_idem c

theorem getLast?_lower (hd : d ∈ ['.', '-', '\n']) (s : Name) :
    (lower s).getLast? = some d ↔ s.getLast? = some d := by
  rw [lower, List.getLast?_map]
  cases s.getLast? with
  | none => simp
  | some c => simpa using toLower_eq_iff hd c

theorem stripChars_lower (s : Name) : stripChars (lower s) = lower (stripChars s) := by
  have hspace : isSpace ∘ Char.toLower = isSpace := funext isSpace_toLower
  simp only [stripChars, lower, List.dropWhile_map, hspace, ← List.map_reverse]

theorem absolute_lower (h : Absolute name) : Absolute (lower name) :=
  ⟨by rw [stripChars_lower, h.stripped], (getLast?_lower (by simp) name).mpr h.dotted⟩

private theorem isHostLabel_lower (label : Name) : isHostLabel (lower label) = isHostLabel label := by
  have hbody : (if (lower label).getLast? = some '\n' then (lower label).dropLast else lower label) =
      lower (if label.getLast? = some '\n' then label.dropLast else label) := by
    simp only [getLast?_lower (show '\n' ∈ ['.', '-', '\n'] by simp)]
    split
    · exact List.map_dropLast.symm
    · rfl
  have hchar : (fun c => isAlnum c || c == '-') ∘ Char.toLower = fun c => isAlnum c || c == '-' := by
    funext c
    rw [Function.comp_apply, isAlnum_toLower,
      toLower_keeps (p := (· == '-')) (by decide +kernel) c]
  simp only [isHostLabel, hbody]
  generalize (if label.getLast? = some '\n' then label.dropLast else label) = body
  simp only [lower, List.head?_map, List.getLast?_map, Option.any_map,
    isAlnum_toLower, List.length_map, List.all_map, hchar]

private theorem labels_lower (s : Name) : labels (lower s) = (labels s).map lower := by
  induction s with
  | nil => rfl
  | cons c rest ih =>
    have hc := toLower_eq_iff (show '.' ∈ ['.', '-', '\n'] by simp) c
    have hlower : lower (c :: rest) = c.toLower :: lower rest := rfl
    rw [hlower, labels, labels, ih]
    cases labels rest with
    | nil => rfl
    | cons label others =>
      simp only [List.map_cons, hc]
      split
      · rfl
      · rfl

theorem labelsAreHostNames_lower (origin : Name) :
    labelsAreHostNames (lower origin) = labelsAreHostNames origin := by
  have hbody : withoutDot (lower origin) = lower (withoutDot origin) := by
    simp only [withoutDot, getLast?_lower (show '.' ∈ ['.', '-', '\n'] by simp)]
    split
    · exact List.map_dropLast.symm
    · rfl
  have hlabel : isHostLabel ∘ lower = isHostLabel := funext isHostLabel_lower
  simp only [labelsAreHostNames, hbody, labels_lower, List.all_map, hlabel]
  cases withoutDot origin with
  | nil => rfl
  | cons c rest => rfl

end SpatiumDdi.Dns.Apex

/-!
The apex of a rendered zone.

BIND loads a zone only if its apex has a name server, so a zone that declares none is written with its
`primary_ns`, or with the placeholder `ns1.<zone>` and the address that goes with it. The agent notes
what the apex is derived from, so that a record op can leave named with the apex the next render writes.
-/

namespace SpatiumDdi.Dns.Apex

open Text (isSpace stripChars)

attribute [local instance] lawfulBEq_name

inductive RType where
  | a
  | aaaa
  | ns
  | other
deriving DecidableEq

def RType.isAddress : RType → Bool
  | a => true
  | aaaa => true
  | _ => false

structure ZoneRecord where
  name : Name
  rtype : RType
  value : Name
deriving DecidableEq

structure Zone where
  name : Name
  primaryNs : Option Name
  adminEmail : Option Name
  records : List ZoneRecord

def originOf (raw : Name) : Name :=
  if raw.getLast? = some '.' then raw else raw ++ ['.']

def Zone.origin (zone : Zone) : Name := originOf zone.name

def ZoneRecord.owner (r : ZoneRecord) (origin : Name) : Name := lower (zoneFileName r.name origin)

def placeholderNsLabel : Name := ['n', 's', '1']
def placeholderNsAddress : Name := ['1', '2', '7', '.', '0', '.', '0', '.', '1']
def placeholderRnameLabel : Name := ['a', 'd', 'm', 'i', 'n']
def placeholderOutside : Name := ['i', 'n', 'v', 'a', 'l', 'i', 'd', '.']

structure ZoneApex where
  soaMname : Name
  soaRname : Name
  ns : List Name
  placeholderGlue : Bool
deriving DecidableEq

def addressedOf (origin : Name) (records : List ZoneRecord) : List Name :=
  records.filterMap fun r => if r.rtype.isAddress then some (r.owner origin) else none

/-- The targets of the name server records at the apex. -/
def declaredNsOf (origin : Name) (records : List ZoneRecord) : List Name :=
  records.filterMap fun r =>
    if r.rtype = .ns ∧ r.owner origin = lower origin then some (zoneFileName r.value origin)
    else none

def Zone.addressed (zone : Zone) : List Name := addressedOf zone.origin zone.records

def Zone.declaredNs (zone : Zone) : List Name := declaredNsOf zone.origin zone.records

def placeholder (origin : Name) : Name :=
  if labelsAreHostNames origin then placeholderNsLabel ++ '.' :: origin else placeholderOutside

/-- The fallback of a zone that declares no name server. -/
def fallbackNs (origin : Name) (primaryNs : Option Name) (addressed : List Name) : Name :=
  match primaryNs with
  | some primary =>
    if !inside primary origin || lower primary ∈ addressed then primary else placeholder origin
  | none => placeholder origin

def apexOf (origin : Name) (primaryNs adminEmail : Option Name) (declaredNs addressed : List Name) :
    ZoneApex :=
  let fallback := fallbackNs origin primaryNs addressed
  let nsSet := if declaredNs = [] then [fallback] else declaredNs
  { soaMname := primaryNs.getD (declaredNs.headD (placeholder origin))
    soaRname := adminEmail.getD
      (if labelsAreHostNames origin then placeholderRnameLabel ++ '.' :: origin
        else placeholderOutside)
    ns := if declaredNs = [] then [fallback] else []
    placeholderGlue := inside (placeholder origin) origin &&
      lower (placeholder origin) ∈ nsSet.map lower && lower (placeholder origin) ∉ addressed }

def zoneApex (zone : Zone) : ZoneApex :=
  apexOf zone.origin ((absoluteName zone.primaryNs).filter isHostName)
    ((absoluteName zone.adminEmail).filter isMailboxName) zone.declaredNs zone.addressed

def zoneLineRefused (name value : Name) : Bool :=
  let control c := c.toNat < 0x20 || c.toNat == 0x7F
  name.any (fun c => isSpace c || control c) || value.any control

/-- What BIND holds as the value of a record: the absolute name, compared without case, of a name
server, and the text of anything else. -/
def rdata (origin : Name) (rtype : RType) (value : Name) : Name :=
  if rtype = .ns then lower (zoneFileName value origin) else value

structure Line where
  owner : Name
  rtype : RType
  value : Name
deriving DecidableEq

def Line.of (origin : Name) (r : ZoneRecord) : Line :=
  ⟨r.owner origin, r.rtype, rdata origin r.rtype r.value⟩

def glueOwner (origin : Name) : Name := placeholderNsLabel ++ '.' :: origin

section

variable (parses : RType → Name → Bool)

/-- Whether a record of the payload gets a line in the zone file. `parses` is `_parses_as_rdata`. -/
def isWritten (r : ZoneRecord) : Bool :=
  !zoneLineRefused (if r.name = [] then ['@'] else r.name) r.value && parses r.rtype r.value

def writeZoneFile (zone : Zone) : List Line :=
  let origin := zone.origin
  let apex := zoneApex zone
  apex.ns.map (fun ns => ⟨lower origin, .ns, rdata origin .ns ns⟩) ++
    (if apex.placeholderGlue then [⟨lower (glueOwner origin), .a, placeholderNsAddress⟩] else []) ++
    (zone.records.filter (isWritten parses)).map (Line.of origin)

def rendered (zone : Zone) (key : Name × RType) : Finset Name :=
  ((writeZoneFile parses zone).filterMap fun line =>
    if (line.owner, line.rtype) = key then some line.value else none).toFinset

end

def apexAddressNames (origin : Name) (primaryNs : Option Name) : List Name :=
  lower (glueOwner origin) :: ((absoluteName primaryNs).map lower).toList

structure ApexState where
  name : Name
  primaryNs : Option Name
  adminEmail : Option Name
  ns : List Name
  addressed : List Name

def rememberApex (zone : Zone) : ApexState :=
  { name := zone.name
    primaryNs := zone.primaryNs
    adminEmail := zone.adminEmail
    ns := zone.declaredNs
    addressed := zone.addressed.filter (· ∈ apexAddressNames zone.origin zone.primaryNs) }

def apexZone (state : ApexState) : Zone :=
  { name := state.name
    primaryNs := state.primaryNs
    adminEmail := state.adminEmail
    records := state.ns.map (fun n => ⟨['@'], .ns, n⟩) ++
      state.addressed.map fun a =>
        ⟨a, .a, ['1', '9', '2', '.', '0', '.', '2', '.', '1']⟩ }

variable {origin : Name}

theorem not_inside_placeholderOutside (hdot : origin.getLast? = some '.')
    (hlabels : labelsAreHostNames origin = false) : inside placeholderOutside origin = false := by
  have hlower : lower placeholderOutside = placeholderOutside := by decide
  simp only [inside, hlower, Bool.or_eq_false_iff, beq_eq_false_iff_ne]
  constructor
  · intro heq
    rw [← labelsAreHostNames_lower, ← heq] at hlabels
    exact absurd hlabels (by decide +kernel)
  · by_contra hsuffix
    rw [Bool.not_eq_false, List.isSuffixOf_iff_suffix, ← List.mem_tails] at hsuffix
    have hnil : lower origin = [] := by
      simpa [placeholderOutside, List.tails] using hsuffix
    rw [lower, List.map_eq_nil_iff] at hnil
    rw [hnil] at hdot
    cases hdot

theorem absoluteName_of_filter {value : Option Name} {p : Name → Bool} {name : Name}
    (h : (absoluteName value).filter p = some name) : absoluteName value = some name :=
  (Option.filter_eq_some_iff.mp h).1

variable {addressed addressed' : List Name}

theorem apexOf_congr (primaryNs adminEmail : Option Name) {declaredNs : List Name}
    (hplaceholder : inside (placeholder origin) origin = true →
      (lower (placeholder origin) ∈ addressed ↔ lower (placeholder origin) ∈ addressed'))
    (hprimary : declaredNs = [] → ∀ p, primaryNs = some p → inside p origin = true →
      (lower p ∈ addressed ↔ lower p ∈ addressed')) :
    apexOf origin primaryNs adminEmail declaredNs addressed =
      apexOf origin primaryNs adminEmail declaredNs addressed' := by
  have hfallback : declaredNs = [] →
      fallbackNs origin primaryNs addressed = fallbackNs origin primaryNs addressed' := by
    intro hdeclared
    cases primaryNs with
    | none => rfl
    | some p =>
      cases hp : inside p origin with
      | false => simp [fallbackNs, hp]
      | true => simp only [fallbackNs, hprimary hdeclared p rfl hp]
  have hglue : (inside (placeholder origin) origin && lower (placeholder origin) ∉ addressed) =
      (inside (placeholder origin) origin && lower (placeholder origin) ∉ addressed') := by
    cases hinside : inside (placeholder origin) origin with
    | false => rfl
    | true => simp only [hplaceholder hinside]
  by_cases hdeclared : declaredNs = []
  · simp only [apexOf, hdeclared, hfallback hdeclared,
      Bool.and_right_comm _ _ (decide (lower (placeholder origin) ∉ _)), hglue]
  · simp only [apexOf, if_neg hdeclared,
      Bool.and_right_comm _ _ (decide (lower (placeholder origin) ∉ _)), hglue]

theorem placeholder_of_inside (hdot : origin.getLast? = some '.')
    (h : inside (placeholder origin) origin = true) : placeholder origin = glueOwner origin := by
  cases hlabels : labelsAreHostNames origin with
  | true => rw [placeholder, if_pos hlabels, glueOwner]
  | false =>
    rw [placeholder, hlabels] at h
    exact absurd h (by simp [not_inside_placeholderOutside hdot hlabels])

theorem apexOf_noted (hdot : origin.getLast? = some '.') {primaryNs : Option Name}
    (adminEmail : Option Name) (declaredNs : List Name)
    (h : ∀ n ∈ apexAddressNames origin primaryNs, n ∈ addressed ↔ n ∈ addressed') :
    apexOf origin ((absoluteName primaryNs).filter isHostName) adminEmail declaredNs addressed =
      apexOf origin ((absoluteName primaryNs).filter isHostName) adminEmail declaredNs
        addressed' := by
  refine apexOf_congr _ adminEmail (fun hinside => h _ ?_) (fun _ p hp _ => h _ ?_)
  · rw [placeholder_of_inside hdot hinside]
    exact List.mem_cons_self
  · simp [apexAddressNames, absoluteName_of_filter hp]

end SpatiumDdi.Dns.Apex
