import SpatiumDdi.Dns.NamedConfLists

/-!
What the accepted lists hold. The characters that the grammar of an element does not fix are the
zone of its address and the blanks beside its `!`, its `key` and its `@`; the element stays inside
its statement where these do.
-/

namespace SpatiumDdi.Dns.MatchList

open Text Ipaddress
open ConfText hiding Chars
open Appliance (splitOptionalNetmask makeNetmask isPlain isPlain_of_parseIPv4 isPlain_of_parseIPv6
  mem_of_parseIPv4 zoneOf_of_not_mem)
open Caa (splitSpace)
open SupportBundle.Scrub (zoneOf)

def margins (s : Chars) : List Chars :=
  [s.takeWhile isSpace, ((s.dropWhile isSpace).reverse.takeWhile isSpace).reverse]

def zoneIn (s : Chars) : Chars := zoneOf (s.takeWhile (· ≠ '/'))

def looseBody (body : Chars) : List Chars :=
  if isBuiltin body then []
  else
    match keyName body with
    | some _ => [(body.drop 3).takeWhile isSpace]
    | none => [zoneIn body]

/-- The blanks after `!` and `key`, and the zone. -/
def looseElement (element : Chars) : List Chars :=
  (match stripChars element with
    | '!' :: rest => margins rest
    | _ => []) ++ looseBody (bodyOf (stripChars element))

/-- The blanks beside `@`, and the zone. -/
def looseForwarder (element : Chars) : List Chars :=
  let (ip, port) := partitionAt (stripChars element)
  margins ip ++ (port.map margins).getD [] ++ [zoneIn (stripChars ip)]

def looseZoneForwarder (element : Chars) : List Chars :=
  [zoneIn (stripChars (partitionAt (stripChars (spelledOut element))).1)]

/-- The zone, and the words after the address: a key is not checked but for being known. -/
def looseNotify (element : Chars) : List Chars :=
  match splitSpace (stripChars element) with
  | [] => []
  | ip :: rest => zoneIn ip :: rest

/-- A character that no clean text minds. -/
def isSafe (c : Char) : Bool := !isForeign c && c ≠ '/'

variable {s t addr mask body ip port cleaned : Chars}

theorem clean_of_isSafe (h : ∀ c ∈ s, isSafe c = true) : clean s = true := by
  refine clean_iff.2 ⟨fun c hc => ?_, opensComment_of_not_mem fun hmem => ?_⟩
  · simpa using (Bool.and_eq_true_iff.1 (h c hc)).1
  · cases h '/' hmem

theorem clean_append_left (hs : '/' ∉ s) :
    clean (s ++ t) = true ↔ clean s = true ∧ clean t = true := by
  simp only [clean_iff, opensComment_append_left hs, opensComment_of_not_mem hs,
    List.forall_mem_append]
  tauto

theorem clean_append_right (ht : ∀ c ∈ t, c ≠ '/' ∧ c ≠ '*') :
    clean (s ++ t) = true ↔ clean s = true ∧ clean t = true := by
  simp only [clean_iff, opensComment_append_right ht,
    opensComment_of_not_mem fun hmem => (ht '/' hmem).1 rfl, List.forall_mem_append]
  tauto

variable {c : Char} {extra : List Char} {longest : ℕ} {names : Names} {refused : Bool}

theorem clean_cons_of_isSafe (h : isSafe c = true) (s : Chars) :
    clean (c :: s) = true ↔ clean s = true := by
  have hc : clean [c] = true := clean_of_isSafe (by simpa using h)
  have hslash : '/' ∉ [c] := by
    rw [List.mem_singleton]
    rintro rfl
    cases h
  rw [← List.singleton_append, clean_append_left hslash]
  exact and_iff_right hc

theorem not_isSpace_slash (h : isSpace c = true) : c ≠ '/' ∧ c ≠ '*' := by
  constructor <;>
  · rintro rfl
    cases h

theorem clean_stripChars :
    clean s = true ↔ (∀ part ∈ margins s, clean part = true) ∧ clean (stripChars s) = true := by
  have hspace : ∀ s : Chars, ∀ c ∈ s.takeWhile isSpace, c ≠ '/' ∧ c ≠ '*' := fun s c hc =>
    not_isSpace_slash (List.mem_takeWhile_imp hc)
  have hsplit : s = s.takeWhile isSpace ++
      (stripChars s ++ ((s.dropWhile isSpace).reverse.takeWhile isSpace).reverse) := by
    rw [stripChars, ← List.reverse_append, List.takeWhile_append_dropWhile, List.reverse_reverse,
      List.takeWhile_append_dropWhile]
  have htrail : ∀ c ∈ ((s.dropWhile isSpace).reverse.takeWhile isSpace).reverse,
      c ≠ '/' ∧ c ≠ '*' := fun c hc => hspace _ c (List.mem_reverse.1 hc)
  have hlead : '/' ∉ s.takeWhile isSpace := fun hmem => (hspace s '/' hmem).1 rfl
  conv_lhs => rw [hsplit, clean_append_left hlead, clean_append_right htrail]
  simp only [margins, List.forall_mem_cons, List.not_mem_nil, false_imp_iff, implies_true, and_true]
  tauto

def markChars : List Char := [';', '\x7b', '\x7d', '"', '#', '\n', '\r', '/']

theorem isSafe_cases (h : isSafe c = false) : c ∈ markChars := by
  simpa [markChars, isSafe, isForeign, or_assoc, imp_iff_not_or] using h

theorem isSafe_of {p : Char → Bool} (hp : markChars.all (!p ·)) (h : p c = true) :
    isSafe c = true := by
  by_contra hunsafe
  have hnot := List.all_eq_true.1 hp c (isSafe_cases (Bool.of_not_eq_true hunsafe))
  rw [h] at hnot
  cases hnot

theorem isSafe_of_isPlain (h : isPlain c = true) (hslash : c ≠ '/') : isSafe c = true := by
  refine isSafe_of (p := fun c => isPlain c && c ≠ '/') (by decide) ?_
  simp [h, hslash]

theorem takeWhile_slash (h : '/' ∉ s) : s.takeWhile (· ≠ '/') = s := by
  rw [List.takeWhile_eq_self_iff]
  intro c hc
  exact decide_eq_true fun heq => h (heq ▸ hc)

theorem isSafe_of_parseIPv4 {n : ℕ} (h : parseIPv4 addr = some n) (hc : c ∈ addr) :
    isSafe c = true ∧ c ≠ '%' := by
  rcases mem_of_parseIPv4 h hc with rfl | hdigit
  · decide
  · refine ⟨isSafe_of (p := Char.isDigit) (by decide) hdigit, ?_⟩
    rintro rfl
    cases hdigit

theorem clean_of_isAddress (h : isAddress addr = true) :
    '/' ∉ addr ∧ (clean addr = true ↔ clean (zoneIn addr) = true) := by
  rcases Bool.or_eq_true_iff.1 h with h4 | h6
  · obtain ⟨n, hn⟩ := Option.isSome_iff_exists.1 h4
    have hslash : '/' ∉ addr := fun hmem => absurd (isSafe_of_parseIPv4 hn hmem).1 (by decide)
    have hzone : '%' ∉ addr := fun hmem => (isSafe_of_parseIPv4 hn hmem).2 rfl
    refine ⟨hslash, ?_⟩
    rw [zoneIn, takeWhile_slash hslash, zoneOf_of_not_mem hzone]
    exact iff_of_true (clean_of_isSafe fun c hc => (isSafe_of_parseIPv4 hn hc).1) rfl
  · obtain ⟨n, hn⟩ := Option.isSome_iff_exists.1 h6
    obtain ⟨hslash, hplain⟩ := isPlain_of_parseIPv6 hn
    have hhead : '/' ∉ addr.takeWhile (· ≠ '%') := fun hmem =>
      hslash (List.takeWhile_subset _ hmem)
    have hsafe : clean (addr.takeWhile (· ≠ '%')) = true := clean_of_isSafe fun c hc =>
      isSafe_of_isPlain (hplain c hc) fun heq => hhead (heq ▸ hc)
    refine ⟨hslash, ?_⟩
    conv_lhs => rw [← List.takeWhile_append_dropWhile (p := (· ≠ '%')) (l := addr)]
    rw [clean_append_left hhead, zoneIn, takeWhile_slash hslash, zoneOf]
    exact and_iff_right hsafe

theorem isSafe_of_makeNetmask {version : Version} {p : ℕ}
    (h : makeNetmask version (some mask) = some p) (hc : c ∈ mask) : isSafe c = true ∧ c ≠ '*' := by
  have hdigits : ∀ {longest}, Appliance.prefixFromString longest mask = some p →
      c.isDigit = true := by
    intro longest hp
    obtain ⟨-, hp⟩ := Option.ite_none_left_eq_some.mp hp
    obtain ⟨hp, -⟩ := Option.filter_eq_some_iff.1 hp
    obtain ⟨digits, hread, -⟩ := Option.map_eq_some_iff.1 hp
    exact Appliance.isDigit_of_mapM hread c hc
  have hquad : Appliance.prefixFromIpString mask = some p → c = '.' ∨ c.isDigit = true := by
    intro hp
    obtain ⟨n, hn, -⟩ := Option.bind_eq_some_iff.1 hp
    exact mem_of_parseIPv4 hn hc
  have hcase : c = '.' ∨ c.isDigit = true := by
    cases version with
    | v4 =>
      rcases Option.or_eq_some_iff.1 h with hp | ⟨-, hp⟩
      · exact .inr (hdigits hp)
      · exact hquad hp
    | v6 => exact .inr (hdigits h)
  rcases hcase with rfl | hdigit
  · decide
  · refine ⟨isSafe_of (p := Char.isDigit) (by decide) hdigit, ?_⟩
    rintro rfl
    cases hdigit

theorem clean_slash (h : ∀ c ∈ mask, isSafe c = true ∧ c ≠ '*') : clean ('/' :: mask) = true := by
  have hslash : '/' ∉ mask := fun hmem => absurd (h '/' hmem).1 (by decide)
  have hmask := clean_iff.1 (clean_of_isSafe fun c hc => (h c hc).1)
  refine clean_iff.2 ⟨List.forall_mem_cons.2 ⟨rfl, hmask.1⟩, ?_⟩
  rw [opensComment, hmask.2, Bool.or_false]
  cases mask with
  | nil => rfl
  | cons c mask =>
    have hne : c ≠ '/' := fun heq => hslash (heq ▸ List.mem_cons_self)
    have hstar := (h c List.mem_cons_self).2
    simp [hne, hstar]

theorem clean_of_networkOf {network : Version × ℕ × ℕ} (h : networkOf body = some network) :
    clean body = true ↔ clean (zoneIn body) = true := by
  obtain ⟨⟨addr, mask⟩, hsplit, hread⟩ := Option.bind_eq_some_iff.1 h
  have haddr : isAddress addr = true ∧ ∃ version p, makeNetmask version mask = some p := by
    rcases Option.or_eq_some_iff.1 hread with hread | ⟨-, hread⟩
    · obtain ⟨n, hn, hmask⟩ := Option.bind_eq_some_iff.1 hread
      obtain ⟨p, hp, -⟩ := Option.map_eq_some_iff.1 hmask
      exact ⟨by simp [isAddress, hn], _, p, hp⟩
    · obtain ⟨n, hn, hmask⟩ := Option.bind_eq_some_iff.1 hread
      obtain ⟨p, hp, -⟩ := Option.map_eq_some_iff.1 hmask
      exact ⟨by simp [isAddress, hn], _, p, hp⟩
  obtain ⟨hread, version, p, hp⟩ := haddr
  obtain ⟨hslash, hclean⟩ := clean_of_isAddress hread
  have hjoin : ['/'].intercalate (body.splitOn '/') = body := List.intercalate_splitOn '/'
  unfold splitOptionalNetmask at hsplit
  split at hsplit
  next addr' heq =>
    obtain ⟨rfl, rfl⟩ := Prod.mk.inj (Option.some.inj hsplit)
    rw [heq, List.intercalate_singleton] at hjoin
    rw [← hjoin]
    exact hclean
  next addr' mask' heq =>
    obtain ⟨rfl, rfl⟩ := Prod.mk.inj (Option.some.inj hsplit)
    have hbody : body = addr' ++ '/' :: mask' := by
      rw [← hjoin, heq]
      simp
    have hsafe : ∀ c ∈ mask', isSafe c = true ∧ c ≠ '*' := fun c hc => isSafe_of_makeNetmask hp hc
    have hzone : zoneIn body = zoneIn addr' := by
      have hall : ∀ c ∈ addr', decide (c ≠ '/') = true := fun c hc =>
        decide_eq_true fun heq => hslash (heq ▸ hc)
      rw [zoneIn, hbody, List.takeWhile_append_of_pos hall, List.takeWhile_cons_of_neg (by simp),
        List.append_nil, zoneIn, takeWhile_slash hslash]
    rw [hzone, hbody, clean_append_left hslash]
    exact (and_iff_left (clean_slash hsafe)).trans hclean
  next => cases hsplit

theorem isSafe_of_isNameOf (h : isNameOf extra longest s = true)
    (hextra : extra.all (fun c => isSafe c && c ≠ '%')) (hc : c ∈ s) :
    isSafe c = true ∧ c ≠ '%' := by
  have hclass : c.isAlphanum = true ∨ c ∈ extra := by
    cases s with
    | nil => cases hc
    | cons d rest =>
      simp only [isNameOf, Bool.and_eq_true, List.all_eq_true, Bool.or_eq_true,
        List.contains_iff_mem] at h
      rcases List.mem_cons.1 hc with rfl | hc
      · exact .inl h.1.1
      · exact h.1.2 c hc
  rcases hclass with halnum | hmem
  · refine ⟨isSafe_of (p := Char.isAlphanum) (by decide) halnum, ?_⟩
    rintro rfl
    cases halnum
  · simpa using List.all_eq_true.1 hextra c hmem

theorem clean_of_isNameOf (h : isNameOf extra longest s = true)
    (hextra : extra.all (fun c => isSafe c && c ≠ '%')) : clean s = true ∧ zoneIn s = [] := by
  refine ⟨clean_of_isSafe fun c hc => (isSafe_of_isNameOf h hextra hc).1, ?_⟩
  refine zoneOf_of_not_mem fun hmem => ?_
  exact (isSafe_of_isNameOf h hextra (List.takeWhile_subset _ hmem)).2 rfl

theorem clean_of_isBuiltin (h : isBuiltin s = true) : clean s = true := by
  refine clean_of_isSafe fun c hc => ?_
  have hlower : isSafe c.toLower = true := by
    have hmem : c.toLower ∈ s.map Char.toLower := List.mem_map_of_mem hc
    have hall : builtinAcls.all (·.all isSafe) = true := by decide
    exact List.all_eq_true.1 (List.all_eq_true.1 hall _ (List.contains_iff_mem.1 h)) _ hmem
  by_contra hunsafe
  have hcases := isSafe_cases (Bool.of_not_eq_true hunsafe)
  have hkept : markChars.all (fun c => !isSafe c.toLower) = true := by decide
  have hunsafe' := List.all_eq_true.1 hkept c hcases
  rw [hlower] at hunsafe'
  cases hunsafe'

theorem keyName_eq {name : Chars} (h : keyName s = some name) :
    s = "key".toList ++ ((s.drop 3).takeWhile isSpace ++ name) ∧
      (s.drop 3).takeWhile isSpace ≠ [] ∧ isNameOf ['_', '.', '-'] 128 name = true := by
  unfold keyName at h
  split at h
  next rest =>
    obtain ⟨hname, h⟩ := Option.ite_none_right_eq_some.1 h
    have hrest : rest = rest.takeWhile isSpace ++ name := by
      rw [← Option.some.inj h, List.takeWhile_append_dropWhile]
    refine ⟨congrArg ("key".toList ++ ·) hrest, ?_, ?_⟩
    · intro hnil
      have hlt := hname.1
      rw [Option.some.inj h] at hlt
      have hlength := congrArg List.length hrest
      have hnil' : rest.takeWhile isSpace = [] := hnil
      rw [hnil', List.nil_append] at hlength
      omega
    · rw [← Option.some.inj h]
      exact hname.2
  next => cases h

inductive MatchBody (names : Names) : Chars → Prop
  | builtin {s : Chars} : isBuiltin s = true → MatchBody names s
  | key {gap name : Chars} : gap ≠ [] → (∀ c ∈ gap, isSpace c = true) → name ∈ names.knownKeys →
      MatchBody names ("key".toList ++ (gap ++ name))
  | network {s : Chars} {network : Version × ℕ × ℕ} : networkOf s = some network → MatchBody names s
  | address {s : Chars} : isAddress s = true → MatchBody names s
  | acl {s : Chars} : isAclName s = true → s ∈ names.knownAcls → MatchBody names s

/-- A body, or `!` and a body with blanks beside it. -/
inductive MatchEntry (names : Names) : Chars → Prop
  | plain {s : Chars} : MatchBody names s → MatchEntry names s
  | negated {rest : Chars} : MatchBody names (stripChars rest) → MatchEntry names ('!' :: rest)

theorem checkBody_ok (h : checkBody names false refused body = .ok ()) :
    MatchBody names body ∧
      (clean body = true ↔ ∀ part ∈ looseBody body, clean part = true) := by
  unfold checkBody at h
  unfold looseBody
  split at h
  next hbuiltin =>
    rw [if_pos hbuiltin]
    exact ⟨.builtin hbuiltin, iff_of_true (clean_of_isBuiltin hbuiltin) nofun⟩
  next hbuiltin =>
    rw [if_neg hbuiltin]
    cases hkey : keyName body with
    | some name =>
      simp only [hkey] at h
      split at h
      next => cases h
      next hknown =>
        obtain ⟨hbody, hgap, hname⟩ := keyName_eq hkey
        have hspace : ∀ c ∈ (body.drop 3).takeWhile isSpace, isSpace c = true := fun c hc =>
          List.mem_takeWhile_imp hc
        have hslash : '/' ∉ (body.drop 3).takeWhile isSpace := fun hmem =>
          (not_isSpace_slash (hspace '/' hmem)).1 rfl
        have hclean : clean name = true := (clean_of_isNameOf hname (by decide)).1
        refine ⟨?_, ?_⟩
        · rw [hbody]
          refine .key hgap hspace ?_
          simpa using hknown
        · conv_lhs => rw [hbody, clean_append_left (by decide), clean_append_left hslash]
          rw [List.forall_mem_singleton]
          exact ⟨fun h => h.2.1, fun h => ⟨by decide, h, hclean⟩⟩
    | none =>
      simp only [hkey] at h
      simp only [List.forall_mem_singleton]
      split at h
      next =>
        cases hnetwork : networkOf body with
        | none =>
          rw [hnetwork] at h
          cases h
        | some network => exact ⟨.network hnetwork, clean_of_networkOf hnetwork⟩
      next =>
        split at h
        next haddress => exact ⟨.address haddress, (clean_of_isAddress haddress).2⟩
        next =>
          split at h
          next => cases h
          next hacl =>
            split at h
            next => cases h
            next hknown =>
              have hname : isAclName body = true := by simpa using hacl
              obtain ⟨hclean, hzone⟩ := clean_of_isNameOf hname (by decide)
              refine ⟨.acl hname (by simpa using hknown), iff_of_true hclean ?_⟩
              rw [hzone]
              rfl

variable {element : Chars}

theorem looseElement_negated {rest : Chars} (h : stripChars element = '!' :: rest) :
    looseElement element = margins rest ++ looseBody (stripChars rest) := by
  rw [looseElement, h]
  rfl

variable {raw : Chars} {rest : List Chars}

theorem bodyOf_plain (h : raw.head? ≠ some '!') : bodyOf raw = raw := by
  unfold bodyOf
  split
  next => exact absurd rfl h
  next => rfl

theorem looseElement_plain (h : (stripChars element).head? ≠ some '!') :
    looseElement element = looseBody (stripChars element) := by
  rw [looseElement, bodyOf_plain h]
  split
  next rest hraw =>
    rw [hraw] at h
    exact absurd rfl h
  next => rfl

theorem validateElement_ok (h : validateElement names false refused element = .ok ()) :
    MatchEntry names (stripChars element) ∧
      (clean (stripChars element) = true ↔ ∀ part ∈ looseElement element, clean part = true) := by
  unfold validateElement at h
  dsimp only at h
  split at h
  next => cases h
  next =>
    split at h
    next => cases h
    next =>
      obtain ⟨hbody, hclean⟩ := checkBody_ok h
      by_cases hhead : (stripChars element).head? = some '!'
      · obtain ⟨rest, hraw⟩ := List.head?_eq_some_iff.1 hhead
        rw [looseElement_negated hraw, hraw]
        rw [hraw] at hbody hclean
        change clean (stripChars rest) = true ↔ _ at hclean
        refine ⟨.negated hbody, ?_⟩
        rw [List.forall_mem_append, clean_cons_of_isSafe (by decide), clean_stripChars, hclean]
        rfl
      · rw [bodyOf_plain hhead] at hbody hclean
        rw [looseElement_plain hhead]
        exact ⟨.plain hbody, hclean⟩

inductive ForwarderEntry : Chars → Prop
  | bare {ip : Chars} : isAddress ip = true → ForwarderEntry ip
  | port {ip port : Chars} : isAddress ip = true → isPort port = true →
      ForwarderEntry (ip ++ '@' :: port)

theorem partitionAt_none (h : partitionAt s = (ip, none)) : s = ip := by
  obtain ⟨hip, hport⟩ := Prod.mk.inj h
  split at hport
  next hrest =>
    rw [← hip]
    conv_lhs => rw [← List.takeWhile_append_dropWhile (p := (· ≠ '@')) (l := s), hrest]
    exact List.append_nil _
  next => cases hport

theorem partitionAt_some (h : partitionAt s = (ip, some port)) : s = ip ++ '@' :: port := by
  obtain ⟨hip, hport⟩ := Prod.mk.inj h
  split at hport
  next => cases hport
  next c rest hrest =>
    obtain rfl : c = '@' := by
      have hnot := List.head?_dropWhile_not (· ≠ '@') s
      rw [hrest] at hnot
      simpa using hnot
    rw [← hip, ← Option.some.inj hport, ← hrest, List.takeWhile_append_dropWhile]

theorem not_mem_of_stripChars (h : '/' ∉ stripChars s) : '/' ∉ s := by
  obtain ⟨lead, trail, hs, hlead, htrail⟩ := exists_stripChars s
  intro hmem
  rw [hs, List.mem_append, List.mem_append] at hmem
  rcases hmem with hmem | hmem | hmem
  · exact (not_isSpace_slash (hlead _ hmem)).1 rfl
  · exact h hmem
  · exact (not_isSpace_slash (htrail _ hmem)).1 rfl

theorem clean_of_isPort (h : isPort port = true) : clean port = true := by
  refine clean_of_isSafe fun c hc => ?_
  simp only [isPort, Bool.and_eq_true, List.all_eq_true] at h
  exact isSafe_of (p := Char.isDigit) (by decide) (h.1.2 c hc)

theorem validateForwarder_ok (h : validateForwarder element = .ok cleaned) :
    cleaned = stripChars element ∧ ForwarderEntry (canonicalForwarder cleaned) ∧
      (clean cleaned = true ↔ ∀ part ∈ looseForwarder element, clean part = true) ∧
      (clean (canonicalForwarder cleaned) = true ↔
        clean (zoneIn (stripChars (partitionAt (stripChars element)).1)) = true) := by
  unfold validateForwarder at h
  unfold looseForwarder canonicalForwarder
  cases hparts : partitionAt (stripChars element) with
  | mk ip port =>
    simp only [hparts] at h ⊢
    split at h
    next => cases h
    next haddress =>
      have haddress : isAddress (stripChars ip) = true := by simpa using haddress
      obtain ⟨hslash, hzone⟩ := clean_of_isAddress haddress
      cases port with
      | none =>
        obtain rfl : stripChars element = cleaned := Except.ok.inj h
        simp only [hparts]
        refine ⟨trivial, .bare haddress, ?_, hzone⟩
        rw [partitionAt_none hparts, clean_stripChars, hzone, List.forall_mem_append,
          List.forall_mem_singleton, Option.map_none, Option.getD_none, List.append_nil]
      | some port =>
        dsimp only at h
        split at h
        next => cases h
        next hport =>
          have hport : isPort (stripChars port) = true := by simpa using hport
          obtain rfl : stripChars element = cleaned := Except.ok.inj h
          simp only [hparts]
          refine ⟨trivial, .port haddress hport, ?_, ?_⟩
          · rw [partitionAt_some hparts, clean_append_left (not_mem_of_stripChars hslash),
              clean_cons_of_isSafe (by decide), clean_stripChars (s := ip),
              clean_stripChars (s := port), hzone, List.forall_mem_append, List.forall_mem_append,
              List.forall_mem_singleton, Option.map_some, Option.getD_some]
            have hclean := clean_of_isPort hport
            tauto
          · rw [clean_append_left hslash, clean_cons_of_isSafe (by decide), hzone]
            exact and_iff_left (clean_of_isPort hport)

inductive NotifyEntry (names : Names) : Chars → Prop
  | mk {ip : Chars} {port key : List Chars} : isAddress ip = true →
      (port = [] ∨ ∃ n, isPort n = true ∧ port = ["port".toList, n]) →
      (key = [] ∨ ∃ name ∈ names.knownKeys, key = ["key".toList, name]) →
      NotifyEntry names ([' '].intercalate (ip :: (port ++ key)))

theorem notifyKey_ok (h : notifyKey names raw rest = .ok ()) :
    rest = [] ∨ ∃ name ∈ names.knownKeys, rest = ["key".toList, name] := by
  unfold notifyKey at h
  split at h
  next => exact .inl rfl
  next word name =>
    split at h
    next hword =>
      split at h
      next hknown => exact .inr ⟨name, List.contains_iff_mem.1 hknown, by rw [hword]⟩
      next => cases h
    next => cases h
  next => cases h

theorem notifyRest_ok (h : notifyRest names raw rest = .ok ()) :
    ∃ port key, rest = port ++ key ∧
      (port = [] ∨ ∃ n, isPort n = true ∧ port = ["port".toList, n]) ∧
      (key = [] ∨ ∃ name ∈ names.knownKeys, key = ["key".toList, name]) := by
  unfold notifyRest at h
  split at h
  next word n rest =>
    split at h
    next hword =>
      split at h
      next hport =>
        exact ⟨[word, n], rest, rfl, .inr ⟨n, hport, by rw [hword]⟩, notifyKey_ok h⟩
      next => cases h
    next => exact ⟨[], word :: n :: rest, rfl, .inl rfl, notifyKey_ok h⟩
  next => exact ⟨[], rest, rfl, .inl rfl, notifyKey_ok h⟩

theorem clean_intercalate {parts : List Chars} :
    clean ([' '].intercalate parts) = true ↔ ∀ part ∈ parts, clean part = true := by
  induction parts with
  | nil => exact iff_of_true rfl nofun
  | cons part parts ih =>
    cases parts with
    | nil => simp
    | cons next parts =>
      rw [List.intercalate_cons_cons, List.forall_mem_cons, ← ih, List.append_assoc,
        List.singleton_append]
      have hopens := opensComment_append_cons (c := ' ') (by decide) (by decide) part
        ([' '].intercalate (next :: parts))
      simp only [clean_iff, hopens, Bool.or_eq_false_iff, List.forall_mem_append,
        List.forall_mem_cons]
      have hblank : isForeign ' ' = false := rfl
      tauto

theorem validateNotify_ok (h : validateNotify names element = .ok cleaned) :
    NotifyEntry names cleaned ∧
      (clean cleaned = true ↔ ∀ part ∈ looseNotify element, clean part = true) := by
  unfold validateNotify at h
  unfold looseNotify
  dsimp only at h
  cases hwords : splitSpace (stripChars element) with
  | nil =>
    rw [hwords] at h
    cases h
  | cons ip rest =>
    simp only [hwords] at h ⊢
    split at h
    next => cases h
    next haddress =>
      have haddress : isAddress ip = true := by simpa using haddress
      cases hrest : notifyRest names (stripChars element) rest with
      | error complaint =>
        rw [hrest] at h
        cases h
      | ok u =>
        rw [hrest] at h
        obtain rfl := Except.ok.inj h
        obtain ⟨port, key, rfl, hport, hkey⟩ := notifyRest_ok hrest
        refine ⟨.mk haddress hport hkey, ?_⟩
        rw [clean_intercalate, List.forall_mem_cons, (clean_of_isAddress haddress).2,
          List.forall_mem_cons]

end SpatiumDdi.Dns.MatchList
