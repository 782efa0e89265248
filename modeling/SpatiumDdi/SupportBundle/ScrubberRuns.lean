import SpatiumDdi.SupportBundle.Scrubber

/-!
The scrubber without its memory. What a cache holds is what would be made again, so that each
answer depends on its call alone, whatever was called before.
-/

namespace SpatiumDdi.SupportBundle.Scrub

open Ipaddress (parseIPv4 parseIPv6 octetText)
open ClassTest (hexPair)

/-- What is kept under a key is what the function gives. -/
def Recalls {α : Type} (d : Dict Chars α) (f : Chars → α) : Prop :=
  ∀ k v, d.get? k = some v → v = f k

section Recalls

variable {α : Type} {d : Dict Chars α} {f : Chars → α}

theorem recalls_empty (f : Chars → α) : Recalls Dict.empty f := fun _ _ h => by cases h

theorem Recalls.set (h : Recalls d f) (k : Chars) : Recalls (d.set k (f k)) f := by
  intro k' v hget
  rw [Dict.get?_set] at hget
  split at hget
  next heq =>
    rw [← Option.some.inj hget, heq]
  next => exact h k' v hget

theorem Recalls.setDefault (h : Recalls d f) (k : Chars) :
    (setDefault d k (f k)).2 = f k ∧ Recalls (setDefault d k (f k)).1 f := by
  unfold Scrub.setDefault
  cases hget : d.get? k with
  | some kept => exact ⟨h k kept hget, h⟩
  | none => exact ⟨rfl, h.set k⟩

end Recalls

section Answers

variable (o : Outside)

def ipv4Net (netKey : Chars) : ℕ := o.index "v4net".toList netKey synthV4Nets

def synthV4 (addr : ℕ) : ℕ :=
  synthV4Base + ipv4Net o (ipv4Text (addr / 256 * 256)) * 256 + addr % 256

def ipv4Answer (raw : Chars) : Chars :=
  match parseIPv4 raw with
  | none => raw
  | some addr => if exemptV4 addr then raw else ipv4Text (synthV4 o addr)

def synthV6 (raw : Chars) (addr : ℕ) : ℕ :=
  synthV6Prefix + o.index "v6net".toList (Scrubber.ipv6NetKey raw addr) (2 ^ 16) * 2 ^ 64 +
    o.index "v6iid".toList raw (2 ^ 32)

def ipv6Answer (raw : Chars) : Chars :=
  match parseIPv6 raw with
  | none => raw
  | some addr => if exemptV6 addr then raw else ipv6Text (synthV6 o raw addr)

def synthMac (key : Chars) : Chars :=
  let idx := o.index "mac".toList key (2 ^ 24)
  synthMacOui ++ ':' :: hexPair (idx / 2 ^ 16) ++ ':' :: hexPair (idx / 2 ^ 8 % 256) ++ ':' ::
    hexPair (idx % 256)

def macAnswer (raw : Chars) : Chars := synthMac o (o.macKey raw)

def synthHost (name : Chars) : Chars :=
  let labels := name.splitOn '.'
  let domain := Scrubber.domainOf name
  List.intercalate ['.'] ((labels.take (labels.length - Scrubber.suffixLen labels)).foldr
    (fun label parts => Scrubber.synthLabel o domain label :: parts)
    [Scrubber.synthDomain o domain])

def hostAnswer (raw : Chars) : Chars :=
  if o.exemptHost raw then raw
  else if o.isProbablyCode raw then raw
  else synthHost o (o.hostKey raw)

def synthUser (key : Chars) : Chars :=
  "user".toList ++ octetText (o.index "user".toList key 100000)

def userAnswer (enabled : Bool) (raw : Chars) : Chars :=
  if raw = [] ∨ enabled = false then raw else synthUser o (o.lower raw)

def partsAnswer (f : Chars → Chars) (parts : List Part) : Chars :=
  parts.flatMap fun part => if part.isMatch then f part.chars else part.chars

def cidrAnswer (f : Chars → Chars) (token : Chars) : Chars :=
  if '/' ∈ token then f (token.takeWhile (· ≠ '/')) ++ token.dropWhile (· ≠ '/') else f token

def maybeIpv6Answer (token : Chars) : Chars :=
  match parseIPv6 (token.takeWhile (· ≠ '/')) with
  | none => token
  | some _ => cidrAnswer (ipv6Answer o) token

def pseudonymiseAnswer (re : Patterns) (text : Chars) : Chars :=
  let a := partsAnswer (macAnswer o) (re.macRe text)
  let b := partsAnswer (maybeIpv6Answer o) (re.ipv6CandidateRe a)
  let c := partsAnswer (cidrAnswer (ipv4Answer o)) (re.ipv4Re b)
  partsAnswer (hostAnswer o) (re.hostnameRe c)

def textAnswer (re : Patterns) (redact : Redact) (enabled : Bool) (value : Chars) : Chars :=
  if value = [] then value
  else if enabled = false then (redact value).1
  else pseudonymiseAnswer o re (redact value).1

/-- What a call returns, whatever was called before. -/
def answer (re : Patterns) (redact : Redact) (enabled : Bool) : Call → Chars
  | .ipv4 raw => ipv4Answer o raw
  | .ipv6 raw => ipv6Answer o raw
  | .mac raw => macAnswer o raw
  | .hostname raw => hostAnswer o raw
  | .username raw => userAnswer o enabled raw
  | .text value => textAnswer o re redact enabled value

end Answers

/-- Every cache recalls what would be made again. -/
structure Faithful (o : Outside) (st : Scrubber) : Prop where
  ipv4 : Recalls st.ipv4 (ipv4Answer o)
  ipv4Nets : Recalls st.ipv4Nets (ipv4Net o)
  ipv6 : Recalls st.ipv6 (ipv6Answer o)
  macs : Recalls st.macs (synthMac o)
  hosts : Recalls st.hosts (synthHost o)
  domains : Recalls st.domains (Scrubber.synthDomain o)
  users : Recalls st.users (synthUser o)

variable {st : Scrubber}

theorem Faithful.report {o : Outside} (h : Faithful o st) (report : ScrubReport) :
    Faithful o { st with report := report } :=
  ⟨h.ipv4, h.ipv4Nets, h.ipv6, h.macs, h.hosts, h.domains, h.users⟩

theorem faithful_new (o : Outside) : Faithful o .new :=
  ⟨recalls_empty _, recalls_empty _, recalls_empty _, recalls_empty _, recalls_empty _,
    recalls_empty _, recalls_empty _⟩

/-- A mapper that returns what the function gives, and keeps the scrubber faithful. -/
def Gives (o : Outside) (mapper : Mapper) (f : Chars → Chars) : Prop :=
  ∀ st, Faithful o st → ∀ raw, (mapper st raw).2 = f raw ∧ Faithful o (mapper st raw).1

variable {o : Outside} {mapper : Mapper} {f : Chars → Chars}

theorem ipv4Of_gives : Gives o (Scrubber.ipv4Of o) (ipv4Answer o) := by
  intro st h raw
  unfold Scrubber.ipv4Of
  cases hget : st.ipv4.get? raw with
  | some kept => exact ⟨h.ipv4 raw kept hget, h⟩
  | none =>
    dsimp only
    cases hparse : parseIPv4 raw with
    | none =>
      rw [ipv4Answer, hparse]
      exact ⟨rfl, h⟩
    | some addr =>
      dsimp only
      have hset := h.ipv4.set raw
      rw [ipv4Answer, hparse] at hset ⊢
      dsimp only at hset ⊢
      split at hset
      next hexempt =>
        rw [if_pos hexempt, if_pos hexempt]
        exact ⟨rfl, { h with ipv4 := hset }⟩
      next hexempt =>
        rw [if_neg hexempt, if_neg hexempt]
        obtain ⟨hnet, hnets⟩ := h.ipv4Nets.setDefault (ipv4Text (addr / 256 * 256))
        rw [ipv4Net] at hnet
        rw [hnet]
        exact ⟨rfl, { h with ipv4 := hset, ipv4Nets := hnets }⟩

theorem ipv6Of_gives : Gives o (Scrubber.ipv6Of o) (ipv6Answer o) := by
  intro st h raw
  unfold Scrubber.ipv6Of
  cases hget : st.ipv6.get? raw with
  | some kept => exact ⟨h.ipv6 raw kept hget, h⟩
  | none =>
    dsimp only
    cases hparse : parseIPv6 raw with
    | none =>
      rw [ipv6Answer, hparse]
      exact ⟨rfl, h⟩
    | some addr =>
      dsimp only
      have hset := h.ipv6.set raw
      rw [ipv6Answer, hparse] at hset ⊢
      dsimp only at hset ⊢
      split at hset
      next hexempt =>
        rw [if_pos hexempt, if_pos hexempt]
        exact ⟨rfl, { h with ipv6 := hset }⟩
      next hexempt =>
        rw [if_neg hexempt, if_neg hexempt]
        exact ⟨rfl, { h with ipv6 := hset }⟩

theorem macOf_gives : Gives o (Scrubber.macOf o) (macAnswer o) := by
  intro st h raw
  unfold Scrubber.macOf
  dsimp only
  cases hget : st.macs.get? (o.macKey raw) with
  | some kept => exact ⟨h.macs _ kept hget, h⟩
  | none => exact ⟨rfl, { h with macs := h.macs.set (o.macKey raw) }⟩

theorem hostnameOf_gives : Gives o (Scrubber.hostnameOf o) (hostAnswer o) := by
  intro st h raw
  unfold Scrubber.hostnameOf hostAnswer
  split
  next => exact ⟨rfl, h⟩
  next =>
    split
    next => exact ⟨rfl, h⟩
    next =>
      dsimp only
      cases hget : st.hosts.get? (o.hostKey raw) with
      | some kept => exact ⟨h.hosts _ kept hget, h⟩
      | none =>
        dsimp only
        obtain ⟨hkept, hdomains⟩ := h.domains.setDefault (Scrubber.domainOf (o.hostKey raw))
        rw [hkept]
        exact ⟨rfl, { h with hosts := h.hosts.set (o.hostKey raw), domains := hdomains }⟩

theorem usernameOf_gives (enabled : Bool) :
    Gives o (fun st => st.usernameOf o enabled) (userAnswer o enabled) := by
  intro st h raw
  dsimp only
  unfold Scrubber.usernameOf userAnswer
  split
  next => exact ⟨rfl, h⟩
  next =>
    dsimp only
    cases hget : st.users.get? (o.lower raw) with
    | some kept => exact ⟨h.users _ kept hget, h⟩
    | none => exact ⟨rfl, { h with users := h.users.set (o.lower raw) }⟩

theorem subParts_gives (h : Gives o mapper f) (parts : List Part) (hst : Faithful o st) :
    (subParts mapper st parts).2 = partsAnswer f parts ∧
      Faithful o (subParts mapper st parts).1 := by
  induction parts generalizing st with
  | nil => exact ⟨rfl, hst⟩
  | cons part parts ih =>
    rw [subParts, partsAnswer, List.flatMap_cons]
    dsimp only
    cases part.isMatch with
    | true =>
      obtain ⟨hmapped, hfaithful⟩ := h st hst part.chars
      obtain ⟨hmore, hrest⟩ := ih hfaithful
      exact ⟨congrArg₂ (· ++ ·) hmapped hmore, hrest⟩
    | false =>
      obtain ⟨hmore, hrest⟩ := ih hst
      exact ⟨congrArg (part.chars ++ ·) hmore, hrest⟩

theorem subCidr_gives (h : Gives o mapper f) : Gives o (subCidr mapper) (cidrAnswer f) := by
  intro st hst token
  unfold subCidr cidrAnswer
  split
  next =>
    obtain ⟨hmapped, hfaithful⟩ := h st hst (token.takeWhile (· ≠ '/'))
    exact ⟨congrArg (· ++ _) hmapped, hfaithful⟩
  next => exact h st hst token

theorem maybeIpv6_gives : Gives o (maybeIpv6 o) (maybeIpv6Answer o) := by
  intro st hst token
  unfold maybeIpv6 maybeIpv6Answer
  cases parseIPv6 (token.takeWhile (· ≠ '/')) with
  | none => exact ⟨rfl, hst⟩
  | some _ => exact subCidr_gives ipv6Of_gives st hst token

variable (re : Patterns)

theorem pseudonymise_gives : Gives o (pseudonymise o re) (pseudonymiseAnswer o re) := by
  intro st hst text
  obtain ⟨hmac, hst⟩ := subParts_gives macOf_gives (re.macRe text) hst
  obtain ⟨hipv6, hst⟩ := subParts_gives maybeIpv6_gives (re.ipv6CandidateRe _) hst
  obtain ⟨hipv4, hst⟩ := subParts_gives (subCidr_gives ipv4Of_gives) (re.ipv4Re _) hst
  obtain ⟨hhost, hst⟩ := subParts_gives hostnameOf_gives (re.hostnameRe _) hst
  refine ⟨hhost.trans ?_, hst⟩
  rw [hipv4, hipv6, hmac]
  rfl

theorem textOf_gives (redact : Redact) (enabled : Bool) :
    Gives o (textOf o re redact enabled) (textAnswer o re redact enabled) := by
  intro st hst value
  unfold textOf textAnswer
  split
  next => exact ⟨rfl, hst⟩
  next =>
    dsimp only
    split
    next => exact ⟨rfl, hst.report _⟩
    next => exact pseudonymise_gives re _ (hst.report _) _

theorem call_gives (redact : Redact) (enabled : Bool) (hst : Faithful o st) (c : Call) :
    (call o re redact enabled st c).2 = answer o re redact enabled c ∧
      Faithful o (call o re redact enabled st c).1 := by
  cases c with
  | ipv4 raw => exact ipv4Of_gives st hst raw
  | ipv6 raw => exact ipv6Of_gives st hst raw
  | mac raw => exact macOf_gives st hst raw
  | hostname raw => exact hostnameOf_gives st hst raw
  | username raw => exact usernameOf_gives enabled st hst raw
  | text value => exact textOf_gives re redact enabled st hst value

theorem answers_eq (redact : Redact) (enabled : Bool) (hst : Faithful o st) (calls : List Call) :
    answers o re redact enabled st calls = calls.map (answer o re redact enabled) := by
  induction calls generalizing st with
  | nil => rfl
  | cons c calls ih =>
    obtain ⟨hanswer, hfaithful⟩ := call_gives re redact enabled hst c
    rw [answers, List.map_cons, hanswer, ih hfaithful]

open Ipaddress

variable {o : Outside}

theorem index_lt (o : Outside) (bucket value : Chars) {modulo : ℕ} (h : 0 < modulo) :
    o.index bucket value modulo < modulo :=
  Nat.mod_lt _ h

variable {raw : Chars}

theorem ipv4Answer_of {addr : ℕ} (h : parseIPv4 raw = some addr) (hexempt : exemptV4 addr = false) :
    ipv4Answer o raw = ipv4Text (synthV4 o addr) := by
  rw [ipv4Answer, h]
  exact if_neg (by rw [hexempt]; exact Bool.false_ne_true)

theorem parseIPv4_ipv4Text {n : ℕ} (h : n < 2 ^ 32) : parseIPv4 (ipv4Text n) = some n := by
  have hlt : ∀ m ∈ [n / 2 ^ 24, n / 2 ^ 16 % 256, n / 2 ^ 8 % 256, n % 256], m < 256 := by
    simp only [List.mem_cons, List.not_mem_nil, or_false]
    rintro m (rfl | rfl | rfl | rfl) <;> omega
  rw [ipv4Text, parseIPv4_octets rfl hlt]
  simp only [ofBigEndian, List.foldl_cons, List.foldl_nil, Option.some.injEq]
  omega

theorem synthV4_range (o : Outside) (addr : ℕ) :
    synthV4Base ≤ synthV4 o addr ∧ synthV4 o addr < synthV4Base + 2 ^ 26 := by
  have hnet : ipv4Net o (ipv4Text (addr / 256 * 256)) < 2 ^ 18 :=
    index_lt o _ _ (by decide)
  unfold synthV4
  omega

theorem ipv6Answer_of {addr : ℕ} (h : parseIPv6 raw = some addr) (hexempt : exemptV6 addr = false) :
    ipv6Answer o raw = ipv6Text (synthV6 o raw addr) := by
  rw [ipv6Answer, h]
  exact if_neg (by rw [hexempt]; exact Bool.false_ne_true)

theorem synthV6_range (o : Outside) (raw : Chars) (addr : ℕ) :
    synthV6Prefix ≤ synthV6 o raw addr ∧ synthV6 o raw addr < synthV6Prefix + 2 ^ 80 := by
  have hnet := index_lt o "v6net".toList (Scrubber.ipv6NetKey raw addr) (Nat.two_pow_pos 16)
  have hiid := index_lt o "v6iid".toList raw (Nat.two_pow_pos 32)
  unfold synthV6
  omega

theorem synthV6_net (o : Outside) (raw : Chars) (addr : ℕ) :
    synthV6 o raw addr / 2 ^ 64 = synthV6Prefix / 2 ^ 64 +
      o.index "v6net".toList (Scrubber.ipv6NetKey raw addr) (2 ^ 16) := by
  have hiid := index_lt o "v6iid".toList raw (Nat.two_pow_pos 32)
  unfold synthV6 synthV6Prefix
  omega

theorem ipv6NetKey_of (hzone : zoneOf raw = []) (addr : ℕ) :
    Scrubber.ipv6NetKey raw addr = ipv6Text (addr / 2 ^ 64 * 2 ^ 64) := by
  rw [Scrubber.ipv6NetKey, hzone, ite_self, List.append_nil]

/-- On ASCII text the function is `str.lower`. -/
def LowersAscii (lower : Chars → Chars) : Prop :=
  ∀ s : Chars, (∀ c ∈ s, c.toNat < 128) → lower s = s.map Char.toLower

/-- A character of a MAC address, whatever its case and separator. -/
def macChar (c : Char) : Char := if c = '-' then ':' else c.toLower

theorem macKey_ascii (hlower : LowersAscii o.lower) (h : ∀ c ∈ raw, c.toNat < 128) :
    o.macKey raw = raw.map macChar := by
  rw [Outside.macKey, hlower raw h, List.map_map]
  refine List.map_congr_left fun c hc => ?_
  have hdash : c.toLower = '-' ↔ c = '-' := by
    have hall : ∀ n : Fin 128, (Char.ofNat n).toLower = '-' ↔ Char.ofNat n = '-' := by
      decide +kernel
    have hcase := hall ⟨c.toNat, h c hc⟩
    rw [Char.ofNat_toNat] at hcase
    exact hcase
  simp only [Function.comp_apply, macChar, hdash]

theorem hostAnswer_of (hexempt : o.exemptHost raw = false) (hcode : o.isProbablyCode raw = false) :
    hostAnswer o raw = synthHost o (o.hostKey raw) := by
  rw [hostAnswer, hexempt, hcode]
  rfl

theorem suffix_intercalate (sep last : Chars) (parts : List Chars) :
    last <:+ List.intercalate sep (parts ++ [last]) := by
  induction parts with
  | nil => rw [List.nil_append, List.intercalate_singleton]
  | cons part parts ih =>
    rw [List.cons_append, List.intercalate_cons_of_ne_nil (List.concat_ne_nil _ _)]
    exact ih.trans (List.suffix_append _ _)

theorem synthHost_suffix (o : Outside) (name : Chars) : ('.' :: synthTld) <:+ synthHost o name := by
  have hparts : ∀ (domain last : Chars) (labels : List Chars),
      labels.foldr (fun label parts => Scrubber.synthLabel o domain label :: parts) [last] =
        labels.map (Scrubber.synthLabel o domain) ++ [last] := by
    intro domain last labels
    induction labels with
    | nil => rfl
    | cons label labels ih => rw [List.foldr_cons, ih, List.map_cons, List.cons_append]
  rw [synthHost, hparts]
  exact (List.suffix_append _ _).trans (suffix_intercalate _ _ _)

/-- What the answers of the scrubber keep of the real values, and that they are none of them. -/
structure Pseudonyms (o : Outside) : Prop where
  /-- An IPv4 address has one spelling. -/
  ipv4Spelling : ∀ s t addr, parseIPv4 s = some addr → parseIPv4 t = some addr →
    ipv4Answer o s = ipv4Answer o t
  ipv4Grouping : ∀ s t a b, parseIPv4 s = some a → parseIPv4 t = some b →
    exemptV4 a = false → exemptV4 b = false → a / 256 = b / 256 →
      ∃ net, ipv4Answer o s = ipv4Text (net * 256 + a % 256) ∧
        ipv4Answer o t = ipv4Text (net * 256 + b % 256)
  ipv4Apart : ∀ s a, parseIPv4 s = some a → exemptV4 a = false →
    a < synthV4Base ∨ synthV4Base + 2 ^ 26 ≤ a →
      ∃ m, parseIPv4 (ipv4Answer o s) = some m ∧ m ≠ a
  ipv6Grouping : ∀ s t a b, parseIPv6 s = some a → parseIPv6 t = some b →
    zoneOf s = [] → zoneOf t = [] → exemptV6 a = false → exemptV6 b = false →
      a / 2 ^ 64 = b / 2 ^ 64 → ∃ m n, ipv6Answer o s = ipv6Text m ∧ ipv6Answer o t = ipv6Text n ∧
        m / 2 ^ 64 = n / 2 ^ 64
  ipv6Apart : ∀ s a, parseIPv6 s = some a → exemptV6 a = false →
    a < synthV6Prefix ∨ synthV6Prefix + 2 ^ 80 ≤ a → ∃ m, ipv6Answer o s = ipv6Text m ∧ m ≠ a
  macSpelling : ∀ s t : Chars, (∀ c ∈ s, c.toNat < 128) → (∀ c ∈ t, c.toNat < 128) →
    s.map macChar = t.map macChar → macAnswer o s = macAnswer o t
  macApart : ∀ s, ¬ synthMacOui <+: o.macKey s → macAnswer o s ≠ o.macKey s
  /-- Case and trailing dots aside. -/
  hostSpelling : ∀ s t, o.hostKey s = o.hostKey t → o.exemptHost s = false →
    o.isProbablyCode s = false → o.isProbablyCode t = false → hostAnswer o s = hostAnswer o t
  hostApart : ∀ s, o.exemptHost s = false → o.isProbablyCode s = false →
    ¬ ('.' :: synthTld) <:+ o.hostKey s → hostAnswer o s ≠ o.hostKey s

theorem pseudonyms (hlower : LowersAscii o.lower) : Pseudonyms o where
  ipv4Spelling s t addr hs ht := by rw [parseIPv4_inj hs ht]
  ipv4Grouping s t a b hs ht ha hb hab := by
    refine ⟨240 * 2 ^ 16 + ipv4Net o (ipv4Text (a / 256 * 256)), ?_, ?_⟩
    · rw [ipv4Answer_of hs ha, synthV4, synthV4Base]
      exact congrArg ipv4Text (by omega)
    · rw [ipv4Answer_of ht hb, synthV4, synthV4Base, hab]
      exact congrArg ipv4Text (by omega)
  ipv4Apart s a hs ha hrange := by
    obtain ⟨hlow, hhigh⟩ := synthV4_range o a
    refine ⟨synthV4 o a, ?_, by omega⟩
    rw [ipv4Answer_of hs ha]
    refine parseIPv4_ipv4Text (Nat.lt_trans hhigh ?_)
    decide
  ipv6Grouping s t a b hs ht hzs hzt ha hb hab := by
    refine ⟨_, _, ipv6Answer_of hs ha, ipv6Answer_of ht hb, ?_⟩
    rw [synthV6_net, synthV6_net, ipv6NetKey_of hzs, ipv6NetKey_of hzt, hab]
  ipv6Apart s a hs ha hrange := by
    obtain ⟨hlow, hhigh⟩ := synthV6_range o s a
    exact ⟨_, ipv6Answer_of hs ha, by omega⟩
  macSpelling s t hs ht hst := by
    rw [macAnswer, macAnswer, macKey_ascii hlower hs, macKey_ascii hlower ht, hst]
  macApart s hs heq := hs (heq ▸ List.prefix_append _ _)
  hostSpelling s t hkey hexempt hs ht := by
    have hexempt' : o.exemptHost t = false := by
      rw [← hexempt, Outside.exemptHost, Outside.exemptHost, hkey]
    rw [hostAnswer_of hexempt hs, hostAnswer_of hexempt' ht, hkey]
  hostApart s hexempt hcode hs heq := by
    rw [hostAnswer_of hexempt hcode] at heq
    exact hs (heq ▸ synthHost_suffix o _)

/-- Whatever was called before, an answer depends on its call alone; and the answers are
pseudonyms. -/
theorem scrubber_consistent (o : Outside) (hlower : LowersAscii o.lower) (re : Patterns)
    (redact : Redact) (enabled : Bool) (calls : List Call) :
    answers o re redact enabled .new calls = calls.map (answer o re redact enabled) ∧
      Pseudonyms o :=
  ⟨answers_eq re redact enabled (faithful_new o) calls, pseudonyms hlower⟩

/-- A hash of one value, and the cases of ASCII. -/
def plainOutside (digest : ℕ) : Outside :=
  ⟨fun _ => digest, fun s => s.map Char.toLower, Char.isUpper, Char.isLower⟩

def noPatterns : Patterns := ⟨fun _ => [], fun _ => [], fun _ => [], fun _ => []⟩

/-- Two spellings of a MAC address around an IPv4 address. -/
theorem scrubber_consistent_twoMacs :
    answers (plainOutside 7) noPatterns (fun s => (s, [])) true .new
        [.mac "AA-BB-CC-00-11-22".toList, .ipv4 "10.0.0.9".toList, .mac "aa:bb:cc:00:11:22".toList] =
      ["02:00:00:00:00:07".toList, "240.0.7.9".toList, "02:00:00:00:00:07".toList] := by
  have hrun := (scrubber_consistent (plainOutside 7) (fun _ _ => rfl) noPatterns
    (fun s => (s, [])) true [.mac "AA-BB-CC-00-11-22".toList, .ipv4 "10.0.0.9".toList,
      .mac "aa:bb:cc:00:11:22".toList]).1
  rw [hrun]
  decide +kernel

/-- Two spellings of a name of which one ends in a label of both cases, and an address that is
synthetic already. -/
theorem not_consistent_mixedCase :
    (plainOutside 0).hostKey "corp.Example".toList = (plainOutside 0).hostKey "corp.example".toList ∧
      (plainOutside 0).exemptHost "corp.example".toList = false ∧
      answers (plainOutside 0) noPatterns (fun s => (s, [])) true .new
          [.hostname "corp.Example".toList, .hostname "corp.example".toList,
            .ipv4 "240.0.0.9".toList] =
        ["corp.Example".toList, "d0.invalid".toList, "240.0.0.9".toList] := by
  refine ⟨by decide +kernel, by decide +kernel, by decide +kernel⟩

end SpatiumDdi.SupportBundle.Scrub
