import SpatiumDdi.Lib.AddressText
import SpatiumDdi.Lib.Subnets
import SpatiumDdi.Lib.Guards

/-!
Reverse zones: the names that cover a network, the network a name covers, and the
owner names of PTR records. A name is its characters. Lower case is the interpreter's,
a parameter.
-/

namespace SpatiumDdi.Dns.Reverse

open Ipaddress Text

/-- A `ValueError` that the code does not catch. -/
inductive ValueError where
  | valueError
  deriving DecidableEq

variable (lower : String → String)

def lowerChars (s : Chars) : Chars := (lower (String.ofList s)).toList

def firstAddress (net : Net) : Address := ⟨net.version, net.networkAddress, net.inRange⟩

def join (labels : List Chars) : Chars := List.intercalate ['.'] labels

def reverseZonePieces (net : Net) : List Net :=
  match net.version with
  | .v4 =>
    let unit := if net.prefixlen > 16 then 24 else if net.prefixlen > 8 then 16 else 8
    if net.prefixlen ≥ unit then
      if net.prefixlen > unit then [Net.ofValue .v4 net.networkAddress unit] else [net]
    else
      net.subnets unit
  | .v6 =>
    let rounded := (net.prefixlen + 3) / 4 * 4
    let unit6 := if rounded = 0 then 4 else rounded
    if net.prefixlen ≥ unit6 then [net] else net.subnets unit6

def computeReverseZoneNames (net : Net) : List Chars :=
  let bits := net.version.labelBits
  let total := net.version.labelCount
  (reverseZonePieces net).map fun piece =>
    let parts := (firstAddress piece).reversePointer.splitOn '.'
    let labels := piece.prefixlen / bits
    let keep := (parts.take total).drop (total - labels)
    join (keep ++ parts.drop total) ++ ['.']

def ipNetwork (addr : Chars) (prefixlen : Nat) : Except ValueError Net :=
  let found : Option (Version × Nat) :=
    ((parseIPv4 addr).map (Version.v4, ·)).or ((parseIPv6 addr).map (Version.v6, ·))
  match found with
  | none => .error .valueError
  | some (version, value) =>
    if h : prefixlen ≤ version.maxPrefixlen ∧ 2 ^ (version.maxPrefixlen - prefixlen) ∣ value ∧
        value < 2 ^ version.maxPrefixlen then
      .ok ⟨version, value, prefixlen, h.1, h.2.1, h.2.2⟩
    else
      .error .valueError

/-- Each label is ASCII digits, of a number up to 255. -/
def octetsFit : List Chars → Except ValueError Bool
  | [] => .ok true
  | o :: rest =>
    if o ≠ [] ∧ o.all Char.isDigit then
      match parseInt (String.ofList o) with
      | none => .error .valueError
      | some n => if n ≤ 255 then octetsFit rest else .ok false
    else
      .ok false

/-- `n in "0123456789abcdef"` of one character. -/
def isNibble (label : Chars) : Bool :=
  match label with
  | [c] => "0123456789abcdef".toList.contains c
  | _ => false

/-- `labels[-2:]` -/
def lastTwo (labels : List Chars) : List Chars := labels.drop (labels.length - 2)

/-- `":".join(hexstr[i : i + 4] for i in range(0, 32, 4))` -/
def colons (hexstr : Chars) : Chars :=
  List.intercalate [':'] ((List.range 8).map fun i => (hexstr.drop (4 * i)).take 4)

def reverseZoneNetwork (name : Chars) : Except ValueError (Option Net) := do
  let labels := (rstripDotsChars (lowerChars lower name)).splitOn '.'
  if lastTwo labels = ["in-addr".toList, "arpa".toList] then
    let octets := (labels.take (labels.length - 2)).reverse
    if octets.length < 1 ∨ 3 < octets.length then
      return none
    if !(← octetsFit octets) then
      return none
    let addr := join (octets ++ List.replicate (4 - octets.length) ['0'])
    return some (← ipNetwork addr (8 * octets.length))
  if lastTwo labels = ["ip6".toList, "arpa".toList] then
    let nibbles := (labels.take (labels.length - 2)).reverse
    if nibbles.length < 1 ∨ 32 < nibbles.length ∨ !nibbles.all isNibble then
      return none
    let hexstr := nibbles.flatten ++ List.replicate (32 - nibbles.flatten.length) '0'
    return some (← ipNetwork (colons hexstr) (4 * nibbles.length))
  return none

def addressOf (version : Version) (value : Option Nat) : Option Address :=
  value.bind fun n => if h : n < 2 ^ version.maxPrefixlen then some ⟨version, n, h⟩ else none

def ptrAddress (recordName zoneName : Chars) : Option Address :=
  let owner :=
    if recordName = [] ∨ recordName = ['@'] then rstripDotsChars zoneName
    else rstripDotsChars recordName ++ '.' :: rstripDotsChars zoneName
  let labels := (lowerChars lower owner).splitOn '.'
  if lastTwo labels = ["in-addr".toList, "arpa".toList] ∧ labels.length = 6 then
    addressOf .v4 (parseIPv4 (join (labels.take 4).reverse))
  else if lastTwo labels = ["ip6".toList, "arpa".toList] ∧ labels.length = 34 then
    addressOf .v6 (parseIPv6 (colons (labels.take 32).reverse.flatten))
  else
    none

def expectedPtr (a : Address) (zoneName : Chars) : Chars :=
  let revFull := a.reversePointer ++ ['.']
  let z := rstripDotsChars zoneName ++ ['.']
  if revFull = z then ['@'] else revFull.take (revFull.length - (z.length + 1))

/-- `covers`: the address's reverse pointer is at the zone's name or under it. -/
def covers (a : Address) (zoneName : Chars) : Prop :=
  let revPointer := a.reversePointer ++ ['.']
  let zname := rstripDotsChars zoneName ++ ['.']
  '.' :: zname <:+ revPointer ∨ revPointer = zname

instance (a : Address) (zoneName : Chars) : Decidable (covers a zoneName) :=
  inferInstanceAs (Decidable (_ ∨ _))

end SpatiumDdi.Dns.Reverse

/-!
The zone an address's PTR goes into, and the reverse zones of a subnet
(`services/dns/sync_check.py`).

Among the zones adopted for a subnet the one with the longest name that covers the
address owns it, and only a primary one is picked. The subnet's list makes that pick
at some first addresses only: of each zone-sized piece, and of each zone named for a
network that meets the subnet. It says every zone that is picked exactly where no
zone is hidden at all of these by zones beneath it.
-/

namespace SpatiumDdi.Dns.Reverse

open Ipaddress Text

inductive ZoneType where
  | primary
  | secondary
  | stub
  | forward
deriving DecidableEq

inductive ZoneKind where
  | forward
  | reverse
deriving DecidableEq

structure DNSZone where
  id : Nat
  name : Chars
  zoneType : ZoneType
  kind : ZoneKind
  linkedSubnetId : Option Nat
deriving DecidableEq

structure Subnet where
  id : Nat
  spaceId : Nat
  network : Net

structure ReverseCandidate where
  zone : DNSZone
  linkedSpaceId : Option Nat
  linkedNetwork : Option Net
  inGroup : Bool

def ipamAuthorsZone (zone : DNSZone) : Bool := zone.zoneType = .primary

def reverseOwnerKey (zone : DNSZone) : Nat ×ₗ Bool :=
  toLex ((rstripDotsChars zone.name).length, ipamAuthorsZone zone)

def cidrsOverlap (a : Option Net) (b : Net) : Bool :=
  match a with
  | none => false
  | some na => na.version = b.version ∧ na.overlaps b

/-- `own` -/
def linkedHere (subnet : Subnet) (z : DNSZone) : Bool :=
  z.linkedSubnetId = some subnet.id ∧ z.kind = .reverse

def crossSpace (subnet : Subnet) (c : ReverseCandidate) : Bool :=
  !linkedHere subnet c.zone && c.linkedSpaceId.isSome && c.linkedSpaceId ≠ some subnet.spaceId &&
    cidrsOverlap c.linkedNetwork subnet.network

/-- The loop body of `pick_reverse_zone`. -/
def pickStep (subnet : Subnet) (ipAddr : Address) (best : Option DNSZone) (c : ReverseCandidate) :
    Option DNSZone :=
  let z := c.zone
  if !(linkedHere subnet z || c.inGroup) || !decide (covers ipAddr z.name) then best
  else if crossSpace subnet c then best
  else
    match best with
    | none => some z
    | some owner => if reverseOwnerKey owner < reverseOwnerKey z then some z else some owner

def pickReverseZone (subnet : Subnet) (ipAddr : Address) (candidates : List ReverseCandidate) :
    Option DNSZone :=
  (candidates.foldl (pickStep subnet ipAddr) none).filter ipamAuthorsZone

/-- `ip_address` of an integer: IPv4 where it fits. -/
def ipAddress (value : Nat) : Except ValueError Address :=
  if h : value < 2 ^ Version.v4.maxPrefixlen then .ok ⟨.v4, value, h⟩
  else if h : value < 2 ^ Version.v6.maxPrefixlen then .ok ⟨.v6, value, h⟩
  else .error .valueError

variable (lower : String → String)

def zoneStarts (net : Net) : List ReverseCandidate → Except ValueError (List Nat)
  | [] => .ok []
  | c :: rest => do
    let covered ← reverseZoneNetwork lower c.zone.name
    let starts ← zoneStarts net rest
    match covered with
    | some zone =>
      if zone.version = net.version ∧ zone.overlaps net then
        return max zone.networkAddress net.networkAddress :: starts
      else
        return starts
    | none => return starts

def collectPicks (subnet : Subnet) (candidates : List ReverseCandidate) :
    List Nat → List DNSZone → Except ValueError (List DNSZone)
  | [], out => .ok out
  | start :: rest, out => do
    match pickReverseZone subnet (← ipAddress start) candidates with
    | some z =>
      if z.id ∈ out.map (·.id) then collectPicks subnet candidates rest out
      else collectPicks subnet candidates rest (out ++ [z])
    | none => collectPicks subnet candidates rest out

def subnetReverseZones (subnet : Subnet) (candidates : List ReverseCandidate) :
    Except ValueError (List DNSZone) := do
  let pieceStarts := (reverseZonePieces subnet.network).map (·.networkAddress)
  let starts := pieceStarts ++ (← zoneStarts lower subnet.network candidates)
  collectPicks subnet candidates (starts.dedup.insertionSort (· ≤ ·)) []

def nameLength (zone : DNSZone) : Nat := (rstripDotsChars zone.name).length

def adopted (subnet : Subnet) (c : ReverseCandidate) : Bool :=
  (linkedHere subnet c.zone || c.inGroup) && !crossSpace subnet c

structure Owns (subnet : Subnet) (candidates : List ReverseCandidate) (a : Address)
    (zone : DNSZone) : Prop where
  adopted : ∃ c ∈ candidates, adopted subnet c ∧ c.zone = zone
  primary : ipamAuthorsZone zone
  covers : covers a zone.name
  longest : ∀ c ∈ candidates, Reverse.adopted subnet c → Reverse.covers a c.zone.name →
    nameLength c.zone ≤ nameLength zone

inductive Start (subnet : Subnet) (candidates : List ReverseCandidate) (a : Address) : Prop where
  | piece (piece : Net) (mem : piece ∈ reverseZonePieces subnet.network)
      (start : ipAddress piece.networkAddress = .ok a)
  | zone (c : ReverseCandidate) (mem : c ∈ candidates) (covered : Net)
      (named : reverseZoneNetwork lower c.zone.name = .ok (some covered))
      (overlaps : covered.overlaps subnet.network)
      (start : ipAddress (max covered.networkAddress subnet.network.networkAddress) = .ok a)

structure Sampled (subnet : Subnet) (candidates : List ReverseCandidate) : Prop where
  /-- Every name is read: no octet of an octet-aligned one is padded with zeros. -/
  readable : ∀ c ∈ candidates, ∃ covered, reverseZoneNetwork lower c.zone.name = .ok covered
  /-- A zone with addresses of the subnet has one of the starts among them. -/
  found : ∀ zone a, subnet.network.contains a → Owns subnet candidates a zone →
    ∃ s, Start lower subnet candidates s ∧ Owns subnet candidates s zone
  /-- A zone with a start has an address of the subnet. -/
  inside : ∀ zone s, Start lower subnet candidates s → Owns subnet candidates s zone →
    ∃ a, subnet.network.contains a ∧ Owns subnet candidates a zone

end SpatiumDdi.Dns.Reverse
