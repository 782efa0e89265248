import SpatiumDdi.Dns.NamedConfLists
import SpatiumDdi.Lib.Guards
import SpatiumDdi.Lib.Subnets

/-!
`translate_address_match` (`services/dns/technitium_options.py`): an address-match list of BIND as
an access list of Technitium and a set of keys. A named ACL is read in place; where a negation
matches within one, BIND goes on behind it, and the translation does not.
-/

namespace SpatiumDdi.Dns.AddressMatch

open Text Ipaddress
open MatchList (bodyOf networkOf)

inductive Element where
  | any
  | none
  | localhost
  | localnets
  | key (name : Chars)
  | net (net : Net)
  | named

/-- The letters and digits that `_KEY_ELEMENT` takes. Where case is ignored, four letters outside
ASCII are among them. -/
def isKeyLetter (c : Char) : Bool := c.isAlphanum || ['İ', 'ı', 'ſ', '\u212a'].contains c

def isKeyName : Chars → Bool
  | [] => false
  | c :: rest => isKeyLetter c && rest.all fun c => isKeyLetter c || ['_', '.', '-'].contains c

/-- The name that `_KEY_ELEMENT` finds in a text that ends in no line break. -/
def keyElement : Chars → Option Chars
  | k :: e :: y :: space :: rest =>
    let quoted := rest.dropWhile isSpace
    let opened := if quoted.head? = some '"' then quoted.tail else quoted
    let name := if opened.getLast? = some '"' then opened.dropLast else opened
    if ['k', 'K', '\u212a'].contains k && e.toLower = 'e' && y.toLower = 'y' && isSpace space &&
        isKeyName name then some name
    else none
  | _ => none

def elementOf (body : Chars) : Element :=
  let low := body.map Char.toLower
  if low = "any".toList then .any
  else if low = "none".toList then .none
  else if low = "localhost".toList then .localhost
  else if low = "localnets".toList then .localnets
  else
    match keyElement body, networkOf body with
    | some name, _ => .key name
    | none, some (version, n, p) => .net (Net.ofValue version n p)
    | none, none => .named

def isNegated (text : Chars) : Bool := text.head? = some '!'

/-- An item of a flattened list. A key is never negated. -/
inductive Item where
  | net (neg : Bool) (net : Net)
  | any (neg : Bool)
  | key (name : Chars)

namespace Item

def neg : Item → Bool
  | .net neg _ | .any neg => neg
  | .key _ => false

def isKey : Item → Bool
  | .key _ => true
  | _ => false

def deniesAll : Item → Bool
  | .any neg => neg
  | _ => false

def inverted : Item → Item
  | .net _ n => .net true n
  | .any _ => .any true
  | .key name => .key name

end Item

inductive AddressMatchError where
  | negatedLocalhost
  | localnets
  | negatedKey
  | mapped
  | unknown
  | cyclic
  | inverted
  | keysNotAllowed
  | addressBesideKey
  | negationBehindKey
  /-- The depth of references given has run out. -/
  | unfinished
  deriving DecidableEq

def loopback4 : Address := ⟨.v4, 0x7F000001, by decide⟩
def loopback6 : Address := ⟨.v6, 1, by decide⟩

def v4Mapped : Net := Net.ofValue .v6 (0xFFFF * 2 ^ 32) 96

abbrev Acls := List (Chars × List (Chars × Bool))

/-- An entry of a named ACL as an element. -/
def entryText : Chars × Bool → Chars
  | (v, n) => (if n || isNegated v then ['!'] else []) ++ stripChars (v.dropWhile (· = '!'))

section

variable (acls : Acls)

def flattenElement (again : List Chars → List Chars → Except AddressMatchError (List Item))
    (trail : List Chars) (raw : Chars) : Except AddressMatchError (List Item) :=
  let text := stripChars raw
  let neg := isNegated text
  let body := bodyOf text
  if text = [] then .ok []
  else
    match elementOf body with
    | .any => .ok [.any neg]
    -- `none` is `!any`
    | .none => .ok [.any !neg]
    | .localhost =>
      if neg then .error .negatedLocalhost
      else .ok [.net false (Net.ofValue .v4 loopback4.value 32),
        .net false (Net.ofValue .v6 loopback6.value 128)]
    | .localnets => .error .localnets
    | .key name => if neg then .error .negatedKey else .ok [.key name]
    | .net net => if net.subnetOf v4Mapped then .error .mapped else .ok [.net neg net]
    | .named =>
      match acls.lookup body with
      | none => .error .unknown
      | some entries =>
        if trail.contains body then .error .cyclic
        else do
          let inner ← again (body :: trail) (entries.map entryText)
          if neg then
            if inner.any fun i => i.neg || i.isKey then .error .inverted
            else .ok (inner.map Item.inverted)
          else .ok inner

/-- `_flatten_address_match`, with references of so many levels. -/
def flatten : ℕ → List Chars → List Chars → Except AddressMatchError (List Item)
  | 0, _, _ => .error .unfinished
  | depth + 1, trail, elements => do
    let parts ← elements.mapM (flattenElement acls (flatten depth) trail)
    .ok parts.flatten

def openAcl : List Net := [Net.ofValue .v4 0 0, Net.ofValue .v6 0 0]

/-- An address stands beside keys only negated, and in front of them. -/
def checkPlace (firstKey : Option ℕ) (index : ℕ) (neg : Bool) : Except AddressMatchError Unit :=
  do
  require (firstKey = none ∨ neg) .addressBesideKey
  require (∀ first ∈ firstKey, index ≤ first) .negationBehindKey

/-- The last loop of `translate_address_match`, from an index on. -/
def collect (firstKey : Option ℕ) : ℕ → List Item →
    Except AddressMatchError (List (Bool × Net) × List Chars)
  | _, [] => .ok ([], [])
  | index, .key name :: items => do
    let (acl, keys) ← collect firstKey (index + 1) items
    .ok (acl, name :: keys.filter (· ≠ name))
  | index, .any neg :: items => do
    checkPlace firstKey index neg
    let (acl, keys) ← collect firstKey (index + 1) items
    .ok (openAcl.map (neg, ·) ++ acl, keys)
  | index, .net neg net :: items => do
    checkPlace firstKey index neg
    let (acl, keys) ← collect firstKey (index + 1) items
    .ok ((neg, net) :: acl, keys)

/-- The items up to the first that denies everyone, and without it where it stands behind a key. -/
def reachable (items : List Item) : List Item :=
  match items.findIdx? Item.deniesAll with
  | none => items
  | some denyAll =>
    match (items.take (denyAll + 1)).findIdx? Item.isKey with
    | none => items.take (denyAll + 1)
    | some firstKey =>
      if firstKey < denyAll then items.take denyAll else items.take (denyAll + 1)

def translate (elements : List Chars) (allowKeys : Bool) :
    Except AddressMatchError (List (Bool × Net) × List Chars) := do
  let items ← flatten acls (acls.length + 1) [] elements
  let firstKey := (reachable items).findIdx? Item.isKey
  require (firstKey = none ∨ allowKeys) .keysNotAllowed
  let (acl, keys) ← collect firstKey 0 (reachable items)
  .ok (if firstKey.isSome then acl ++ openAcl.map (false, ·) else acl, keys)

end

structure Client where
  address : Address
  keys : Chars → Bool

structure Server where
  own : Address → Bool
  attached : Address → Bool
  own_loopback4 : own loopback4 = true
  own_loopback6 : own loopback6 = true

/-- Technitium: the first matching entry decides, and with keys one of them is presented. -/
def technitiumAdmits (acl : List (Bool × Net)) (keys : List Chars) (client : Client) : Bool :=
  ((acl.find? fun e => e.2.contains client.address).map (!·.1)) = some true &&
    (keys.isEmpty || keys.any client.keys)

variable (acls : Acls) (server : Server) (client : Client)

/-- BIND on one element: the decision, and whether a negation within a named ACL was passed over
before. -/
def readElement (again : List Chars → Option Bool × Bool) (raw : Chars) : Option Bool × Bool :=
  let text := stripChars raw
  let neg := isNegated text
  let body := bodyOf text
  let hit := fun (hit : Bool) => (if hit then some (!neg) else none, false)
  if text = [] then (none, false)
  else
    match elementOf body with
    | .any => hit true
    | .none => (some neg, false)
    | .localhost => hit (server.own client.address)
    | .localnets => hit (server.attached client.address)
    | .key name => hit (client.keys name)
    | .net net => hit (net.contains client.address)
    | .named =>
      match acls.lookup body with
      | none => (none, false)
      | some entries =>
        match again (entries.map entryText) with
        | (some true, passed) => (some (!neg), passed)
        -- a negative match in a named ACL is no match
        | (some false, _) => (none, true)
        | (none, passed) => (none, passed)

def readList (read : Chars → Option Bool × Bool) : List Chars → Option Bool × Bool
  | [] => (none, false)
  | raw :: elements =>
    match read raw with
    | (some verdict, passed) => (some verdict, passed)
    | (none, passed) => ((readList read elements).1, passed || (readList read elements).2)

/-- BIND on a list, with references of so many levels. -/
def read : ℕ → List Chars → Option Bool × Bool
  | 0, _ => (none, false)
  | depth + 1, elements => readList (readElement acls server client (read depth)) elements

def bindAdmits (elements : List Chars) : Bool :=
  (read acls server client (acls.length + 1) elements).1 = some true

/-- A negation in a named ACL matched before BIND came to its decision. -/
def passedOver (elements : List Chars) : Bool :=
  (read acls server client (acls.length + 1) elements).2

def Item.matches : Item → Bool
  | .net _ n => n.contains client.address
  | .any _ => true
  | .key name => client.keys name

def decides : List Item → Option Bool
  | [] => none
  | item :: items => if item.matches client then some !item.neg else decides items

/-- What BIND's reading becomes where a negation decides that it passes over. -/
def settle : Option Bool × Bool → Option Bool
  | (verdict, passed) => if passed then some false else verdict

variable {acls server client}

theorem decides_append (items items' : List Item) :
    decides client (items ++ items') = (decides client items).or (decides client items') := by
  induction items with
  | nil => rfl
  | cons item items ih =>
    simp only [List.cons_append, decides, ih]
    split <;> rfl

variable (client) in
theorem decides_inverted {items : List Item} (h : items.any (fun i => i.neg || i.isKey) = false) :
    decides client (items.map Item.inverted) = (decides client items).map (!·) ∧
      decides client items ≠ some false := by
  induction items with
  | nil => exact ⟨rfl, nofun⟩
  | cons item items ih =>
    rw [List.any_cons, Bool.or_eq_false_iff] at h
    cases item with
    | key name => cases h.1
    | any neg =>
      obtain rfl : neg = false := by simpa [Item.isKey, Item.neg] using h.1
      exact ⟨rfl, nofun⟩
    | net neg net =>
      obtain rfl : neg = false := by simpa [Item.isKey, Item.neg] using h.1
      by_cases hcontains : net.contains client.address
      · simp [decides, Item.inverted, Item.matches, Item.neg, hcontains]
      · simpa [decides, Item.inverted, Item.matches, hcontains] using ih h.2

theorem settle_readList_cons (read : Chars → Option Bool × Bool) (raw : Chars)
    (elements : List Chars) : settle (readList read (raw :: elements)) =
      (settle (read raw)).or (settle (readList read elements)) := by
  rw [readList]
  rcases read raw with ⟨_ | verdict, _ | _⟩ <;> simp [settle]

theorem loopback_of_contains {a : Address}
    (h : (Net.ofValue .v4 loopback4.value 32).contains a ∨
      (Net.ofValue .v6 loopback6.value 128).contains a) : a = loopback4 ∨ a = loopback6 := by
  obtain ⟨version, value, hrange⟩ := a
  rcases h with ⟨rfl, hle, hge⟩ | ⟨rfl, hle, hge⟩
  · have hnet : (Net.ofValue .v4 loopback4.value 32).networkAddress = 0x7F000001 ∧
        (Net.ofValue .v4 loopback4.value 32).broadcastAddress = 0x7F000001 := by decide +kernel
    obtain rfl : value = 0x7F000001 :=
      Nat.le_antisymm (hge.trans_eq hnet.2) (hnet.1.symm.trans_le hle)
    exact .inl rfl
  · have hnet : (Net.ofValue .v6 loopback6.value 128).networkAddress = 1 ∧
        (Net.ofValue .v6 loopback6.value 128).broadcastAddress = 1 := by decide +kernel
    obtain rfl : value = 1 :=
      Nat.le_antisymm (hge.trans_eq hnet.2) (hnet.1.symm.trans_le hle)
    exact .inr rfl

variable {trail elements : List Chars}

theorem decides_flattenElement
    {again : List Chars → List Chars → Except AddressMatchError (List Item)}
    {againRead : List Chars → Option Bool × Bool} (hown : server.own client.address = false)
    (hagain : ∀ trail elements items, again trail elements = .ok items →
      decides client items = settle (againRead elements)) {raw : Chars} {items : List Item}
    (h : flattenElement acls again trail raw = .ok items) :
    decides client items = settle (readElement acls server client againRead raw) := by
  unfold flattenElement at h
  unfold readElement
  by_cases htext : stripChars raw = []
  · rw [if_pos htext] at h ⊢
    cases h
    rfl
  rw [if_neg htext] at h ⊢
  cases helement : elementOf (bodyOf (stripChars raw)) <;> simp only [helement] at h ⊢
  case any =>
    cases h
    rfl
  case none =>
    cases h
    simp [decides, Item.matches, Item.neg, settle]
  case localhost =>
    split at h
    next => cases h
    cases h
    have hloopback : ¬ ((Net.ofValue .v4 loopback4.value 32).contains client.address ∨
        (Net.ofValue .v6 loopback6.value 128).contains client.address) := by
      intro hcontains
      rcases loopback_of_contains hcontains with heq | heq
      · rw [heq, server.own_loopback4] at hown
        cases hown
      · rw [heq, server.own_loopback6] at hown
        cases hown
    rw [not_or] at hloopback
    simp [decides, Item.matches, hloopback, hown, settle]
  case localnets => cases h
  case key name =>
    split at h
    next => cases h
    next hneg =>
    cases h
    rw [Bool.eq_false_iff.mpr hneg]
    rfl
  case net net =>
    split at h
    next => cases h
    cases h
    rfl
  case named =>
    cases hlookup : acls.lookup (bodyOf (stripChars raw)) <;> simp only [hlookup] at h ⊢
    case none => cases h
    split at h
    next => cases h
    obtain ⟨inner, hinner, h⟩ := bind_eq_ok.mp h
    have hsettle := hagain _ _ _ hinner
    generalize againRead _ = reading at hsettle ⊢
    split at h
    next hneg =>
      split at h
      next => cases h
      next hplain =>
      cases h
      obtain ⟨hinverted, hne⟩ := decides_inverted client
        (Bool.eq_false_iff.mpr hplain)
      rw [hinverted, hsettle]
      rw [hsettle] at hne
      rcases reading with ⟨_ | _ | _, _ | _⟩ <;> simp_all [settle]
    next hneg =>
      cases h
      rw [hsettle]
      rcases reading with ⟨_ | _ | _, _ | _⟩ <;> simp_all [settle]

theorem decides_mapM {f : Chars → Except AddressMatchError (List Item)}
    {g : Chars → Option Bool × Bool}
    (hfg : ∀ raw items, f raw = .ok items → decides client items = settle (g raw))
    {parts : List (List Item)} (h : elements.mapM f = .ok parts) :
    decides client parts.flatten = settle (readList g elements) := by
  induction elements generalizing parts with
  | nil =>
    cases h
    rfl
  | cons raw elements ih =>
    rw [List.mapM_cons] at h
    obtain ⟨items, hitems, h⟩ := bind_eq_ok.mp h
    obtain ⟨rest, hrest, h⟩ := bind_eq_ok.mp h
    cases h
    rw [List.flatten_cons, decides_append, hfg _ _ hitems, ih hrest, settle_readList_cons]

theorem decides_flatten (hown : server.own client.address = false) {depth : ℕ} {items : List Item}
    (h : flatten acls depth trail elements = .ok items) :
    decides client items = settle (read acls server client depth elements) := by
  induction depth generalizing trail elements items with
  | zero => cases h
  | succ depth ih =>
    obtain ⟨parts, hparts, heq⟩ := bind_eq_ok.mp h
    cases heq
    exact decides_mapM (fun _ _ h => decides_flattenElement hown (fun _ _ _ h => ih h) h) hparts

variable {items : List Item}

theorem decides_reachable : decides client (reachable items) = some true ↔
    decides client items = some true := by
  rw [reachable]
  cases hfind : items.findIdx? Item.deniesAll with
  | none => rfl
  | some denyAll =>
    obtain ⟨hlt, hdenies, -⟩ := List.findIdx?_eq_some_iff_getElem.mp hfind
    have hlast : ∀ rest, decides client (items[denyAll] :: rest) = some false := by
      intro rest
      cases hitem : items[denyAll] with
      | net neg net => rw [hitem] at hdenies; cases hdenies
      | key name => rw [hitem] at hdenies; cases hdenies
      | any neg =>
        obtain rfl : neg = true := by simpa [hitem, Item.deniesAll] using hdenies
        rfl
    have hitems : decides client items =
        (decides client (items.take denyAll)).or (some false) := by
      conv_lhs => rw [← List.take_append_drop denyAll items, List.drop_eq_getElem_cons hlt]
      rw [decides_append, hlast]
    have htake : decides client (items.take (denyAll + 1)) = decides client items := by
      rw [List.take_succ_eq_append_getElem hlt, decides_append, hlast, hitems]
    have hshort : decides client (items.take denyAll) = some true ↔
        decides client items = some true := by
      rw [hitems]
      rcases decides client (items.take denyAll) with _ | _ | _ <;> simp
    dsimp only
    split
    · rw [htake]
    · split
      · exact hshort
      · rw [htake]

theorem contains_open {v : Version} {a : Address} (h : a.version = v) :
    (Net.ofValue v 0 0).contains a := by
  refine ⟨h, ?_, ?_⟩
  · simp [Net.ofValue]
  · have hrange := a.inRange
    rw [h] at hrange
    rw [Net.broadcastAddress, Net.ofValue_numAddresses 0 (Nat.zero_le _), Nat.sub_zero]
    omega

theorem find_openAcl (neg : Bool) (rest : List (Bool × Net)) (a : Address) :
    ((openAcl.map (neg, ·) ++ rest).find? (·.2.contains a)).map (!·.1) = some !neg := by
  cases hv : a.version with
  | v4 => simp [openAcl, contains_open hv]
  | v6 =>
    by_cases h4 : (Net.ofValue .v4 0 0).contains a
    · simp [openAcl, h4]
    · simp [openAcl, h4, contains_open hv]

variable {index first : ℕ} {acl : List (Bool × Net)} {keys : List Chars}

variable (client) in
theorem collect_plain (hplain : ∀ i ∈ items, i.isKey = false)
    (h : collect none index items = .ok (acl, keys)) :
    keys = [] ∧ (acl.find? (·.2.contains client.address)).map (!·.1) = decides client items := by
  induction items generalizing index acl keys with
  | nil =>
    cases h
    exact ⟨rfl, rfl⟩
  | cons item items ih =>
    obtain ⟨hitem, htail⟩ := List.forall_mem_cons.mp hplain
    cases item with
    | key name => cases hitem
    | any neg =>
      obtain ⟨-, -, h⟩ := bind_eq_ok.mp h
      obtain ⟨⟨acl', keys'⟩, hrest, h⟩ := bind_eq_ok.mp h
      cases h
      exact ⟨(ih htail hrest).1, find_openAcl neg acl' client.address⟩
    | net neg net =>
      obtain ⟨-, -, h⟩ := bind_eq_ok.mp h
      obtain ⟨⟨acl', keys'⟩, hrest, h⟩ := bind_eq_ok.mp h
      cases h
      refine ⟨(ih htail hrest).1, ?_⟩
      by_cases hcontains : net.contains client.address
      · simp [decides, Item.matches, Item.neg, hcontains]
      · simpa [decides, Item.matches, hcontains] using (ih htail hrest).2

theorem of_checkPlace {neg : Bool} {u : Unit}
    (h : checkPlace (some first) index neg = .ok u) : neg = true ∧ index ≤ first := by
  obtain ⟨_, hneg, h⟩ := bind_eq_ok.mp h
  exact ⟨(require_eq_ok.mp hneg).resolve_left nofun, require_eq_ok.mp h first rfl⟩

variable (client) in
theorem collect_keyed (hfirst : ∀ j name, items[j]? = some (.key name) → first ≤ index + j)
    (h : collect (some first) index items = .ok (acl, keys)) :
    (first < index → acl = []) ∧ (∀ e ∈ acl, e.1 = true) ∧
      (∀ name, name ∈ keys ↔ .key name ∈ items) ∧
      (decides client items = some true ↔ acl.find? (·.2.contains client.address) = none ∧
        ∃ name ∈ keys, client.keys name = true) := by
  induction items generalizing index acl keys with
  | nil =>
    cases h
    exact ⟨fun _ => rfl, nofun, fun name => by simp, by simp [decides]⟩
  | cons item items ih =>
    have hrestFirst : ∀ j name, items[j]? = some (.key name) → first ≤ index + 1 + j := by
      intro j name hj
      have := hfirst (j + 1) name hj
      omega
    cases item with
    | key name =>
      obtain ⟨⟨acl', keys'⟩, hrest, h⟩ := bind_eq_ok.mp h
      cases h
      obtain ⟨hbehind, hneg, hkeys, hdecides⟩ := ih hrestFirst hrest
      have hle : first ≤ index := hfirst 0 name rfl
      obtain rfl := hbehind (Nat.lt_succ_of_le hle)
      refine ⟨fun _ => rfl, hneg, fun other => ?_, ?_⟩
      · by_cases hother : other = name <;> simp [hother, hkeys]
      · by_cases hpresents : client.keys name = true
        · simp [decides, Item.matches, Item.neg, hpresents]
        · have hother : ∀ other ∈ keys', client.keys other = true → other ≠ name := by
            rintro other - hother rfl
            exact hpresents hother
          have hrest : decides client (.key name :: items) = decides client items :=
            if_neg hpresents
          rw [hrest, hdecides]
          refine and_congr_right fun _ => ?_
          constructor
          · rintro ⟨other, hmem, hkey⟩
            exact ⟨other, by simp [hmem, hother other hmem hkey], hkey⟩
          · rintro ⟨other, hmem, hkey⟩
            refine ⟨other, ?_, hkey⟩
            rcases List.mem_cons.mp hmem with rfl | hmem
            · exact absurd hkey hpresents
            · exact List.mem_of_mem_filter hmem
    | any neg =>
      obtain ⟨_, hplace, h⟩ := bind_eq_ok.mp h
      obtain ⟨⟨acl', keys'⟩, hrest, h⟩ := bind_eq_ok.mp h
      cases h
      obtain ⟨rfl, hle⟩ := of_checkPlace hplace
      obtain ⟨-, hneg, hkeys, -⟩ := ih hrestFirst hrest
      refine ⟨fun hlt => absurd hlt (by omega), ?_, fun name => by simp [hkeys], ?_⟩
      · simpa [openAcl] using hneg
      · have hfind := find_openAcl true acl' client.address
        constructor
        · exact nofun
        · rintro ⟨hnone, -⟩
          rw [hnone] at hfind
          cases hfind
    | net neg net =>
      obtain ⟨_, hplace, h⟩ := bind_eq_ok.mp h
      obtain ⟨⟨acl', keys'⟩, hrest, h⟩ := bind_eq_ok.mp h
      cases h
      obtain ⟨rfl, hle⟩ := of_checkPlace hplace
      obtain ⟨-, hneg, hkeys, hdecides⟩ := ih hrestFirst hrest
      refine ⟨fun hlt => absurd hlt (by omega), ?_, fun name => by simp [hkeys], ?_⟩
      · exact List.forall_mem_cons.mpr ⟨rfl, hneg⟩
      · by_cases hcontains : net.contains client.address
        · simp [decides, Item.matches, Item.neg, hcontains]
        · simpa [decides, Item.matches, hcontains] using hdecides

theorem bind_ne_error {ε α β : Type} {e : ε} {x : Except ε α} {f : α → Except ε β}
    (hx : x ≠ .error e) (hf : ∀ a, f a ≠ .error e) : (x >>= f) ≠ .error e := by
  cases x with
  | error e' => exact fun h => hx (congrArg Except.error (Except.error.inj h))
  | ok a => exact hf a

theorem mapM_ne_error {ε α β : Type} {e : ε} {f : α → Except ε β} (hf : ∀ a, f a ≠ .error e)
    (xs : List α) : xs.mapM f ≠ .error e := by
  induction xs with
  | nil => simp [pure, Except.pure]
  | cons x xs ih =>
    rw [List.mapM_cons]
    exact bind_ne_error (hf x) fun _ => bind_ne_error ih fun _ => by simp [pure, Except.pure]

theorem flatten_finishes {depth : ℕ} (hnodup : trail.Nodup) (hnames : trail ⊆ acls.map Prod.fst)
    (hdepth : acls.length < depth + trail.length) (elements : List Chars) :
    flatten acls depth trail elements ≠ .error .unfinished := by
  induction depth generalizing trail elements with
  | zero =>
    have := (hnodup.subperm hnames).length_le
    rw [List.length_map] at this
    omega
  | succ depth ih =>
    refine bind_ne_error (mapM_ne_error (fun raw => ?_) _) fun _ => by simp
    unfold flattenElement
    dsimp only
    split
    · simp
    cases elementOf (bodyOf (stripChars raw)) with
    | any | none | localnets => simp
    | localhost | key _ | net _ =>
      dsimp only
      split <;> simp
    | named =>
      cases hlookup : acls.lookup (bodyOf (stripChars raw)) with
      | none => simp
      | some entries =>
        dsimp only
        split
        · simp
        next htrail =>
        have hname : bodyOf (stripChars raw) ∈ acls.map Prod.fst := by
          obtain ⟨before, after, rfl, -⟩ := List.lookup_eq_some_iff.mp hlookup
          simp
        refine bind_ne_error (ih (List.nodup_cons.mpr ⟨mt List.contains_iff_mem.mpr htrail, hnodup⟩)
          (List.cons_subset.mpr ⟨hname, hnames⟩) (by rw [List.length_cons]; omega) _) fun _ => ?_
        split
        · split <;> simp
        · simp

theorem checkPlace_finishes (firstKey : Option ℕ) (index : ℕ) (neg : Bool) :
    checkPlace firstKey index neg ≠ .error .unfinished := by
  refine bind_ne_error ?_ fun _ => ?_
  all_goals
    rw [require]
    split <;> simp

theorem collect_finishes (firstKey : Option ℕ) (index : ℕ) :
    collect firstKey index items ≠ .error .unfinished := by
  induction items generalizing index with
  | nil => simp [collect]
  | cons item items ih =>
    cases item with
    | key name => exact bind_ne_error (ih _) fun _ => by simp
    | any neg | net neg net =>
      exact bind_ne_error (checkPlace_finishes _ _ _) fun _ => bind_ne_error (ih _) fun _ => by simp

theorem translate_finishes (elements : List Chars) (allowKeys : Bool) :
    translate acls elements allowKeys ≠ .error .unfinished := by
  refine bind_ne_error (flatten_finishes List.nodup_nil (List.nil_subset _) (by simp) _) fun _ => ?_
  refine bind_ne_error ?_ fun _ => bind_ne_error (collect_finishes _ _) fun _ => by simp
  rw [require]
  split <;> simp

theorem technitiumAdmits_iff (hown : server.own client.address = false) {allowKeys : Bool}
    (h : translate acls elements allowKeys = .ok (acl, keys)) :
    technitiumAdmits acl keys client = true ↔ bindAdmits acls server client elements = true ∧
      passedOver acls server client elements = false := by
  obtain ⟨items, hitems, h⟩ := bind_eq_ok.mp h
  obtain ⟨_, -, h⟩ := bind_eq_ok.mp h
  obtain ⟨⟨acl', keys'⟩, hcollect, h⟩ := bind_eq_ok.mp h
  have hread := decides_flatten hown hitems
  have hdecides : technitiumAdmits acl keys client = true ↔
      decides client (reachable items) = some true := by
    cases hfirst : (reachable items).findIdx? Item.isKey with
    | none =>
      rw [hfirst] at hcollect h
      cases h
      obtain ⟨rfl, hfind⟩ := collect_plain client
        (List.findIdx?_eq_none_iff.mp hfirst) hcollect
      simp [technitiumAdmits, hfind]
    | some first =>
      rw [hfirst] at hcollect h
      cases h
      obtain ⟨hlt, hkey, hbefore⟩ := List.findIdx?_eq_some_iff_getElem.mp hfirst
      have hplaces : ∀ j name, (reachable items)[j]? = some (.key name) → first ≤ 0 + j := by
        intro j name hj
        obtain ⟨hj, heq⟩ := List.getElem?_eq_some_iff.mp hj
        by_contra hle
        exact hbefore j (by omega) (by rw [heq]; rfl)
      obtain ⟨-, hneg, hkeys, hiff⟩ := collect_keyed client hplaces hcollect
      have hne : keys ≠ [] := by
        cases hitem : (reachable items)[first] with
        | key name =>
          exact List.ne_nil_of_mem ((hkeys name).mpr (hitem ▸ List.getElem_mem hlt))
        | any _ | net _ _ =>
          rw [hitem] at hkey
          cases hkey
      rw [hiff, technitiumAdmits, if_pos (by rfl), List.find?_append]
      cases hfind : acl'.find? (·.2.contains client.address) with
      | none =>
        have hopen := find_openAcl false [] client.address
        rw [List.append_nil] at hopen
        rw [Option.none_or, hopen]
        simp [hne]
      | some e =>
        have hdenied := hneg e (List.mem_of_find?_eq_some hfind)
        simp [hdenied]
  rw [hdecides, decides_reachable, hread, bindAdmits, passedOver]
  rcases read acls server client (acls.length + 1) elements with ⟨_ | _ | _, _ | _⟩ <;>
    simp [settle]

/-- **The translation ends, and it admits the clients that BIND admits if and only if none of these
is passed over by a negation in a named ACL.** -/
theorem translate_exact_iff (acls : Acls) (elements : List Chars) (allowKeys : Bool)
    (server : Server) : translate acls elements allowKeys ≠ .error .unfinished ∧
      ∀ acl keys, translate acls elements allowKeys = .ok (acl, keys) →
        ((∀ client : Client, server.own client.address = false →
            (technitiumAdmits acl keys client = true ↔
              bindAdmits acls server client elements = true)) ↔
          ∀ client : Client, server.own client.address = false →
            bindAdmits acls server client elements = true →
              passedOver acls server client elements = false) := by
  refine ⟨translate_finishes elements allowKeys, fun acl keys h => ?_⟩
  refine forall_congr' fun client => forall_congr' fun hown => ?_
  rw [technitiumAdmits_iff hown h, and_iff_left_iff_imp]

def bare : Server where
  own a := a = loopback4 ∨ a = loopback6
  attached _ := false
  own_loopback4 := by decide
  own_loopback6 := by decide

/-- A network without one of its parts. -/
def lan : Acls := [("lan".toList, [("!10.1.0.0/16".toList, false), ("10.0.0.0/8".toList, false)])]

theorem not_translate_exact_lan : ¬ ∀ acl keys,
    translate lan ["lan".toList, "any".toList] true = .ok (acl, keys) →
      ∀ client : Client, bare.own client.address = false →
        (technitiumAdmits acl keys client = true ↔
          bindAdmits lan bare client ["lan".toList, "any".toList] = true) := by
  intro h
  have hclient := h ((true, Net.ofValue .v4 0x0A010000 16) ::
    (false, Net.ofValue .v4 0x0A000000 8) :: openAcl.map (false, ·)) [] (by decide +kernel)
    ⟨⟨.v4, 0x0A010001, by decide⟩, fun _ => false⟩ (by decide +kernel)
  revert hclient
  decide +kernel

end SpatiumDdi.Dns.AddressMatch
