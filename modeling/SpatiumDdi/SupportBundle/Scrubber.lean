import SpatiumDdi.Lib.ClassTest
import SpatiumDdi.Lib.Dict

/-!
The pseudonyms of a support bundle (`services/support_bundle/scrub.py`). A `Scrubber` maps
addresses and names to synthetic ones through a keyed hash and keeps what it mapped.
-/

namespace SpatiumDdi.SupportBundle.Scrub

open Ipaddress (parseIPv4 parseIPv6 octetText)
open ClassTest (hexPair)

abbrev Chars := List Char

def ipv4Text (n : ℕ) : Chars :=
  List.intercalate ['.'] ([n / 2 ^ 24, n / 2 ^ 16 % 256, n / 2 ^ 8 % 256, n % 256].map octetText)

/-- The longest run of zero hextets, the first of them, as its start and length. -/
def longestZeros (hextets : List ℕ) : ℕ × ℕ :=
  let step := fun (acc : (ℕ × ℕ) × ℕ) (x : ℕ × ℕ) =>
    if x.1 = 0 then
      let run := acc.2 + 1
      (if acc.1.2 < run then (x.2 + 1 - run, run) else acc.1, run)
    else (acc.1, 0)
  (hextets.zipIdx.foldl step ((0, 0), 0)).1

def compressHextets (hextets : List ℕ) : List Chars :=
  let texts := hextets.map (Nat.toDigits 16)
  let zeros := longestZeros hextets
  if 1 < zeros.2 then
    let high := texts.take zeros.1
    let low := texts.drop (zeros.1 + zeros.2)
    (if zeros.1 = 0 then [[]] else []) ++ high ++ [[]] ++ low ++ if low = [] then [[]] else []
  else texts

def hextetsOf (n : ℕ) : List ℕ := (List.range 8).map fun i => n / 2 ^ (16 * (7 - i)) % 2 ^ 16

/-- `str(IPv6Address(n))`, with no zone. -/
def ipv6Text (n : ℕ) : Chars := List.intercalate [':'] (compressHextets (hextetsOf n))

/-- The zone of a text, with its percent sign. -/
def zoneOf (raw : Chars) : Chars := raw.dropWhile (· ≠ '%')

/-- Loopback, unspecified, link-local or multicast. -/
def exemptV4 (n : ℕ) : Bool :=
  n / 2 ^ 24 = 127 || n = 0 || n / 2 ^ 16 = 169 * 256 + 254 || n / 2 ^ 28 = 14

def exemptV6 (n : ℕ) : Bool :=
  n = 1 || n = 0 || n / 2 ^ 120 = 255 || n / 2 ^ 118 = 0xfe80 / 2 ^ 6

def synthV4Base : ℕ := 240 * 2 ^ 24

def synthV4Nets : ℕ := 2 ^ 18

def synthV6Prefix : ℕ := 0x20010db8 * 2 ^ 96

def synthMacOui : Chars := "02:00:00".toList

def synthTld : Chars := "invalid".toList

def hostnameAllowlist : List Chars :=
  ["localhost", "localhost.localdomain", "example.com", "example.org", "example.net",
    "spatiumddi.com", "www.spatiumddi.com", "github.com", "in-addr.arpa", "ip6.arpa", "postgres",
    "redis", "api", "worker", "beat", "frontend"].map String.toList

def nonTldSuffixes : List Chars :=
  ["json", "jsonl", "txt", "log", "yml", "yaml", "conf", "ini", "toml", "cfg", "sql", "lock", "pyc",
    "pyo", "env", "pem", "crt", "csr", "bak", "tmp", "out", "err", "db", "sqlite", "whl", "tar",
    "gz"].map String.toList

def multiPartSuffixes : List Chars :=
  ["co.uk", "org.uk", "ac.uk", "gov.uk", "com.au", "net.au", "org.au", "co.nz", "co.jp"].map
    String.toList

/-- What the methods take from outside: the keyed hash, of whose digest four bytes are read, and
the cases of characters. -/
structure Outside where
  digest : Chars → ℕ
  lower : Chars → Chars
  isUpper : Char → Bool
  isLower : Char → Bool

namespace Outside

variable (o : Outside)

def index (bucket value : Chars) (modulo : ℕ) : ℕ := o.digest (bucket ++ ':' :: value) % modulo

def isProbablyCode (name : Chars) : Bool :=
  let last := (name.splitOn '.').getLastD []
  nonTldSuffixes.contains (o.lower last) || (last.any o.isUpper && last.any o.isLower)

/-- A name without the trailing dots, in lower case. -/
def hostKey (raw : Chars) : Chars := o.lower (Text.rstripDotsChars raw)

def exemptHost (raw : Chars) : Bool :=
  let name := o.hostKey raw
  name = [] || hostnameAllowlist.contains name || ".in-addr.arpa".toList.isSuffixOf name ||
    ".ip6.arpa".toList.isSuffixOf name

def macKey (raw : Chars) : Chars := (o.lower raw).map fun c => if c = '-' then ':' else c

end Outside

structure ScrubReport where
  ipsV4 : ℕ
  ipsV6 : ℕ
  macs : ℕ
  hostnames : ℕ
  usernames : ℕ
  secretsRedacted : Dict Chars ℕ

structure Scrubber where
  ipv4 : Dict Chars Chars
  ipv4Nets : Dict Chars ℕ
  ipv6 : Dict Chars Chars
  macs : Dict Chars Chars
  hosts : Dict Chars Chars
  domains : Dict Chars Chars
  users : Dict Chars Chars
  report : ScrubReport

def Scrubber.new : Scrubber :=
  ⟨.empty, .empty, .empty, .empty, .empty, .empty, .empty, ⟨0, 0, 0, 0, 0, .empty⟩⟩

/-- A value that is kept, or else made and kept. -/
def setDefault {α : Type} (d : Dict Chars α) (k : Chars) (v : α) : Dict Chars α × α :=
  match d.get? k with
  | some kept => (d, kept)
  | none => (d.set k v, v)

namespace Scrubber

variable (o : Outside) (st : Scrubber)

def ipv4Of (raw : Chars) : Scrubber × Chars :=
  match st.ipv4.get? raw with
  | some kept => (st, kept)
  | none =>
    match parseIPv4 raw with
    | none => (st, raw)
    | some addr =>
      if exemptV4 addr then ({ st with ipv4 := st.ipv4.set raw raw }, raw)
      else
        let netKey := ipv4Text (addr / 256 * 256)
        let net := setDefault st.ipv4Nets netKey (o.index "v4net".toList netKey synthV4Nets)
        let synth := ipv4Text (synthV4Base + net.2 * 256 + addr % 256)
        ({ st with
            ipv4 := st.ipv4.set raw synth
            ipv4Nets := net.1
            report := { st.report with ipsV4 := st.report.ipsV4 + 1 } }, synth)

/-- The network of an address, its zone kept where the address has no host bits. -/
def ipv6NetKey (raw : Chars) (addr : ℕ) : Chars :=
  ipv6Text (addr / 2 ^ 64 * 2 ^ 64) ++ if addr % 2 ^ 64 = 0 then zoneOf raw else []

def ipv6Of (raw : Chars) : Scrubber × Chars :=
  match st.ipv6.get? raw with
  | some kept => (st, kept)
  | none =>
    match parseIPv6 raw with
    | none => (st, raw)
    | some addr =>
      if exemptV6 addr then ({ st with ipv6 := st.ipv6.set raw raw }, raw)
      else
        let subnet := o.index "v6net".toList (ipv6NetKey raw addr) (2 ^ 16)
        let iid := o.index "v6iid".toList raw (2 ^ 32)
        let synth := ipv6Text (synthV6Prefix + subnet * 2 ^ 64 + iid)
        ({ st with
            ipv6 := st.ipv6.set raw synth
            report := { st.report with ipsV6 := st.report.ipsV6 + 1 } }, synth)

def macOf (raw : Chars) : Scrubber × Chars :=
  let key := o.macKey raw
  match st.macs.get? key with
  | some kept => (st, kept)
  | none =>
    let idx := o.index "mac".toList key (2 ^ 24)
    let synth := synthMacOui ++ ':' :: hexPair (idx / 2 ^ 16) ++ ':' ::
      hexPair (idx / 2 ^ 8 % 256) ++ ':' :: hexPair (idx % 256)
    ({ st with
        macs := st.macs.set key synth
        report := { st.report with macs := st.report.macs + 1 } }, synth)

def suffixLen (labels : List Chars) : ℕ :=
  if 3 ≤ labels.length ∧
      multiPartSuffixes.contains (List.intercalate ['.'] (labels.drop (labels.length - 2))) then 3
  else 2

def domainOf (name : Chars) : Chars :=
  let labels := name.splitOn '.'
  if suffixLen labels ≤ labels.length then
    List.intercalate ['.'] (labels.drop (labels.length - suffixLen labels))
  else name

def synthDomain (domain : Chars) : Chars :=
  'd' :: octetText (o.index "domain".toList domain 100000) ++ '.' :: synthTld

def synthLabel (domain label : Chars) : Chars :=
  'n' :: octetText (o.index "label".toList (domain ++ ':' :: label) 100000)

def hostnameOf (raw : Chars) : Scrubber × Chars :=
  if o.exemptHost raw then (st, raw)
  else if o.isProbablyCode raw then (st, raw)
  else
    let name := o.hostKey raw
    match st.hosts.get? name with
    | some kept => (st, kept)
    | none =>
      let labels := name.splitOn '.'
      let domain := domainOf name
      let kept := setDefault st.domains domain (synthDomain o domain)
      let parts := (labels.take (labels.length - suffixLen labels)).foldr
        (fun label parts => synthLabel o domain label :: parts) [kept.2]
      let synth := List.intercalate ['.'] parts
      ({ st with
          hosts := st.hosts.set name synth
          domains := kept.1
          report := { st.report with hostnames := st.report.hostnames + 1 } }, synth)

def usernameOf (enabled : Bool) (raw : Chars) : Scrubber × Chars :=
  if raw = [] ∨ enabled = false then (st, raw)
  else
    let key := o.lower raw
    match st.users.get? key with
    | some kept => (st, kept)
    | none =>
      let synth := "user".toList ++ octetText (o.index "user".toList key 100000)
      ({ st with
          users := st.users.set key synth
          report := { st.report with usernames := st.report.usernames + 1 } }, synth)

end Scrubber

/-- A part of a text: a match of a pattern, or what is between two. -/
structure Part where
  isMatch : Bool
  chars : Chars

/-- The four patterns of the text sweep, as the parts they cut a text into. -/
structure Patterns where
  macRe : Chars → List Part
  ipv6CandidateRe : Chars → List Part
  ipv4Re : Chars → List Part
  hostnameRe : Chars → List Part

/-- A method that maps a text and changes the scrubber. -/
abbrev Mapper := Scrubber → Chars → Scrubber × Chars

/-- `pattern.sub`: the matches mapped, in order. -/
def subParts (mapper : Mapper) (st : Scrubber) : List Part → Scrubber × Chars
  | [] => (st, [])
  | part :: rest =>
    let mapped := if part.isMatch then mapper st part.chars else (st, part.chars)
    let more := subParts mapper mapped.1 rest
    (more.1, mapped.2 ++ more.2)

def subCidr (mapper : Mapper) : Mapper := fun st token =>
  if '/' ∈ token then
    let mapped := mapper st (token.takeWhile (· ≠ '/'))
    (mapped.1, mapped.2 ++ token.dropWhile (· ≠ '/'))
  else mapper st token

def maybeIpv6 (o : Outside) : Mapper := fun st token =>
  match parseIPv6 (token.takeWhile (· ≠ '/')) with
  | none => (st, token)
  | some _ => subCidr (Scrubber.ipv6Of o) st token

def pseudonymise (o : Outside) (re : Patterns) : Mapper := fun st text =>
  let a := subParts (Scrubber.macOf o) st (re.macRe text)
  let b := subParts (maybeIpv6 o) a.1 (re.ipv6CandidateRe a.2)
  let c := subParts (subCidr (Scrubber.ipv4Of o)) b.1 (re.ipv4Re b.2)
  subParts (Scrubber.hostnameOf o) c.1 (re.hostnameRe c.2)

/-- `redact_secrets`, as the text it leaves and the kinds it met. -/
abbrev Redact := Chars → Chars × List Chars

def countKinds (secrets : Dict Chars ℕ) (kinds : List Chars) : Dict Chars ℕ :=
  kinds.foldl (fun d kind => d.set kind ((d.get? kind).getD 0 + 1)) secrets

def textOf (o : Outside) (re : Patterns) (redact : Redact) (enabled : Bool) : Mapper :=
  fun st value =>
    if value = [] then (st, value)
    else
      let cleaned := redact value
      let st := { st with report := { st.report with
        secretsRedacted := countKinds st.report.secretsRedacted cleaned.2 } }
      if enabled = false then (st, cleaned.1) else pseudonymise o re st cleaned.1

inductive Call where
  | ipv4 (raw : Chars)
  | ipv6 (raw : Chars)
  | mac (raw : Chars)
  | hostname (raw : Chars)
  | username (raw : Chars)
  | text (value : Chars)

section Calls

variable (o : Outside) (re : Patterns) (redact : Redact) (enabled : Bool)

def call (st : Scrubber) : Call → Scrubber × Chars
  | .ipv4 raw => st.ipv4Of o raw
  | .ipv6 raw => st.ipv6Of o raw
  | .mac raw => st.macOf o raw
  | .hostname raw => st.hostnameOf o raw
  | .username raw => st.usernameOf o enabled raw
  | .text value => textOf o re redact enabled st value

/-- What the calls return, one after the other. -/
def answers (st : Scrubber) : List Call → List Chars
  | [] => []
  | c :: rest =>
    let step := call o re redact enabled st c
    step.2 :: answers step.1 rest

end Calls

end SpatiumDdi.SupportBundle.Scrub
