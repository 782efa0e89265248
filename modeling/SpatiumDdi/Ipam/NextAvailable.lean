import SpatiumDdi.Lib.Spans
import SpatiumDdi.Store

/-!
The next-available picker: a free host of a subnet for a caller who may be held to delegated
ranges. IPv4 scans its hosts in order or shuffled; IPv6 derives an address from the MAC, scans, or
draws at random, and falls from the first of these through to the last.
-/

namespace SpatiumDdi.Ipam

open Ipaddress

inductive AllocationStrategy where
  | sequential
  | random
  | eui64
deriving DecidableEq

structure AddressRow where
  subnetId : Nat
  address : Address
  status : AddressStatus := .available
  staticAssignmentId : Option Nat := none
deriving DecidableEq

inductive PoolType where
  | dynamic
  | excluded
  | reserved
  | pd
deriving DecidableEq

structure PoolRow where
  scopeId : Nat
  poolType : PoolType := .dynamic
  startIp : Address
  endIp : Address
  deletion : Option Nat := none
deriving DecidableEq

structure PickerRows where
  addresses : List AddressRow
  scopes : List (Nat × DHCPScope)
  pools : List PoolRow

/-- `holds_address`: an available row is a free slot unless a reservation points at it. -/
def AddressRow.holdsAddress (row : AddressRow) : Prop :=
  row.status ≠ .available ∨ row.staticAssignmentId ≠ none

instance (row : AddressRow) : Decidable row.holdsAddress := inferInstanceAs (Decidable (_ ∨ _))

/-- `WritableSetRanges`, before it is finalised. -/
structure WritableSetRanges where
  intervals : List (Nat × Nat)
  hosts : List Nat
deriving DecidableEq

def WritableSetRanges.contains (r : WritableSetRanges) (ip : Nat) : Bool :=
  ip ∈ r.hosts || Spans.find (Spans.merge r.intervals) ip

/-- What `secrets.randbits` and `random.shuffle` yield. -/
structure Draws where
  randbits : Nat → Nat
  shuffle : List Address → List Address
  shuffle_perm : ∀ hosts, (shuffle hosts).Perm hosts

structure PickRequest where
  subnetId : Nat
  network : Net
  ipv6AllocationPolicy : AllocationStrategy := .random
  strategy : AllocationStrategy := .sequential
  macAddress : Option String := none
  allowedRanges : Option WritableSetRanges := none

structure NextIPPick where
  address : Option Address
  strategy : AllocationStrategy
deriving DecidableEq

def usedAddresses (db : PickerRows) (subnetId : Nat) : List Address :=
  (db.addresses.filter fun row => row.subnetId == subnetId && decide row.holdsAddress).map
    (·.address)

def dynamicPools (db : PickerRows) (subnetId : Nat) : List PoolRow :=
  db.pools.filter fun pool => pool.deletion.isNone && pool.poolType == .dynamic &&
    db.scopes.any fun scope => scope.1 == pool.scopeId && scope.2.subnetId == subnetId &&
      scope.2.deletion.isNone

def loadDynamicPoolRanges (db : PickerRows) (subnetId : Nat) : List (Nat × Nat) :=
  (dynamicPools db subnetId).map fun pool =>
    if pool.endIp.value < pool.startIp.value then (pool.endIp.value, pool.startIp.value)
    else (pool.startIp.value, pool.endIp.value)

def ipIntInDynamicPool (ip : Nat) (ranges : List (Nat × Nat)) : Bool :=
  ranges.any fun r => r.1 ≤ ip && ip ≤ r.2

def hexDigit? (c : Char) : Option Nat :=
  if '0' ≤ c ∧ c ≤ '9' then some (c.toNat - '0'.toNat)
  else if 'a' ≤ c ∧ c ≤ 'f' then some (c.toNat - 'a'.toNat + 10)
  else none

/-- The octets of a MAC: its twelve hex digits in pairs, whatever stands between them. -/
def macBytes (mac : String) : Option (List Nat) :=
  match mac.toLower.toList.filterMap hexDigit? with
  | [a, b, c, d, e, f, g, h, i, j, k, l] =>
    some [16 * a + b, 16 * c + d, 16 * e + f, 16 * g + h, 16 * i + j, 16 * k + l]
  | _ => none

def fromBytesBig (octets : List Nat) : Nat := octets.foldl (fun n octet => 256 * n + octet) 0

/-- `int(net.network_address) | host`. -/
def orHost (net : Net) (host : Nat) : Address where
  version := net.version
  value := (net.networkAddress ||| host) % 2 ^ net.version.maxPrefixlen
  inRange := Nat.mod_lt _ (Nat.two_pow_pos _)

def eui64FromMac (net : Net) (mac : String) : Option Address :=
  if net.prefixlen ≠ 64 then none
  else
    match macBytes mac with
    | some (first :: second :: third :: rest) =>
      let iid := [first ^^^ 2, second, third, 255, 254] ++ rest
      some (orHost net (fromBytesBig iid))
    | _ => none

/-- Where the hosts of a network start and how many there are: IPv4 leaves the boundary addresses
out and IPv6 the subnet-router anycast address, unless there are only one or two addresses. -/
def hostSpan (net : Net) : Nat × Nat :=
  if net.version.maxPrefixlen ≤ net.prefixlen + 1 then (0, net.numAddresses)
  else
    match net.version with
    | .v4 => (1, net.numAddresses - 2)
    | .v6 => (1, net.numAddresses - 1)

/-- `itertools.islice(net.hosts(), bound)`. -/
def firstHosts (net : Net) (bound : Nat) : List Address :=
  (List.range (min (hostSpan net).2 bound)).map fun k => net.nth ((hostSpan net).1 + k)

def maxSearch : Nat := 65536

def allowed (ranges : Option WritableSetRanges) (ip : Nat) : Bool :=
  ranges.all fun r => r.contains ip

/-- The three checks of every scan. -/
def isFree (db : PickerRows) (request : PickRequest) (host : Address) : Bool :=
  !(host ∈ usedAddresses db request.subnetId) &&
    !ipIntInDynamicPool host.value (loadDynamicPoolRanges db request.subnetId) &&
    allowed request.allowedRanges host.value

def effectiveStrategy (request : PickRequest) : AllocationStrategy :=
  if request.strategy = .sequential ∧
      (request.ipv6AllocationPolicy = .random ∨ request.ipv6AllocationPolicy = .eui64) then
    request.ipv6AllocationPolicy
  else request.strategy

def randomCandidate (db : PickerRows) (request : PickRequest) (draws : Draws) (attempt : Nat) :
    Option Address :=
  let hostBits := request.network.version.maxPrefixlen - request.network.prefixlen
  let suffix := draws.randbits attempt
  if suffix = 0 then none
  else
    let candidate := orHost request.network (suffix &&& (2 ^ hostBits - 1))
    if isFree db request candidate then some candidate else none

def pickRandom (db : PickerRows) (request : PickRequest) (draws : Draws) : NextIPPick :=
  if request.network.version.maxPrefixlen ≤ request.network.prefixlen then ⟨none, .random⟩
  else ⟨(List.range 32).findSome? (randomCandidate db request draws), .random⟩

/-- The EUI-64 address when no row holds it and the caller may write it. -/
def pickEui64 (db : PickerRows) (request : PickRequest) : Option Address :=
  (eui64FromMac request.network (request.macAddress.getD "")).filter fun candidate =>
    !(candidate ∈ usedAddresses db request.subnetId) &&
      allowed request.allowedRanges candidate.value

def pickSequential (db : PickerRows) (request : PickRequest) : NextIPPick :=
  ⟨(firstHosts request.network maxSearch).find? (isFree db request), .sequential⟩

def pickIPv6 (db : PickerRows) (request : PickRequest) (draws : Draws) : NextIPPick :=
  match effectiveStrategy request with
  | .eui64 =>
    match pickEui64 db request with
    | some candidate => ⟨some candidate, .eui64⟩
    | none => pickRandom db request draws
  | .sequential => pickSequential db request
  | .random => pickRandom db request draws

def pickIPv4 (db : PickerRows) (request : PickRequest) (draws : Draws) : NextIPPick :=
  let hosts := firstHosts request.network maxSearch
  match request.strategy with
  | .random => ⟨(draws.shuffle hosts).find? (isFree db request), .random⟩
  | _ => ⟨hosts.find? (isFree db request), .sequential⟩

def pickNextAvailableIp (db : PickerRows) (request : PickRequest) (draws : Draws) : NextIPPick :=
  match request.network.version with
  | .v6 => pickIPv6 db request draws
  | .v4 => pickIPv4 db request draws

variable {net : Net}

theorem orHost_eq_nth {host : Nat} (h : host < net.numAddresses) :
    orHost net host = net.nth host := by
  obtain ⟨k, hk⟩ := net.numAddresses_dvd
  have hadd : net.networkAddress ||| host = net.networkAddress + host := by
    rw [hk]
    exact (Nat.two_pow_add_eq_or_of_lt h k).symm
  simp only [orHost, Net.nth, hadd]

theorem hostSpan_le (net : Net) : (hostSpan net).1 + (hostSpan net).2 ≤ net.numAddresses := by
  have hpos := net.numAddresses_pos
  unfold hostSpan
  split
  · omega
  · split <;> simp only <;> omega

variable {a : Address} {mac : String} {octets : List Nat}

theorem contains_of_mem_firstHosts {bound : Nat} (h : a ∈ firstHosts net bound) :
    net.contains a := by
  simp only [firstHosts, List.mem_map, List.mem_range] at h
  obtain ⟨k, hk, rfl⟩ := h
  have hspan := hostSpan_le net
  exact Net.contains_nth (by omega)

theorem hexDigit?_lt {c : Char} {d : Nat} (h : hexDigit? c = some d) : d < 16 := by
  unfold hexDigit? at h
  split at h
  · rename_i hc
    have hle : c.toNat ≤ 57 := hc.2
    have hzero : '0'.toNat = 48 := rfl
    simp only [Option.some.injEq] at h
    omega
  · split at h
    · rename_i hc
      have hle : c.toNat ≤ 102 := hc.2
      have ha : 'a'.toNat = 97 := rfl
      simp only [Option.some.injEq] at h
      omega
    · cases h

theorem macBytes_lt (h : macBytes mac = some octets) :
    octets.length = 6 ∧ ∀ octet ∈ octets, octet < 256 := by
  have hdigits : ∀ d ∈ mac.toLower.toList.filterMap hexDigit?, d < 16 := fun d hd => by
    obtain ⟨c, -, hc⟩ := List.mem_filterMap.mp hd
    exact hexDigit?_lt hc
  unfold macBytes at h
  split at h
  case h_1 heq =>
    rw [heq] at hdigits
    simp only [List.mem_cons, List.not_mem_nil, or_false, forall_eq_or_imp, forall_eq] at hdigits
    cases h
    refine ⟨rfl, ?_⟩
    simp only [List.mem_cons, List.not_mem_nil, or_false, forall_eq_or_imp, forall_eq]
    omega
  case h_2 => cases h

theorem foldl_octets_lt (h : ∀ octet ∈ octets, octet < 256) (n : Nat) :
    octets.foldl (fun n octet => 256 * n + octet) n < (n + 1) * 256 ^ octets.length := by
  induction octets generalizing n with
  | nil => simp
  | cons octet octets ih =>
    have hoctet := h octet (by simp)
    calc
      octets.foldl (fun n octet => 256 * n + octet) (256 * n + octet)
          < (256 * n + octet + 1) * 256 ^ octets.length := ih (fun o ho => h o (by simp [ho])) _
      _ ≤ ((n + 1) * 256) * 256 ^ octets.length := Nat.mul_le_mul_right _ (by omega)
      _ = (n + 1) * 256 ^ (octets.length + 1) := by ring

theorem contains_eui64FromMac (h : eui64FromMac net mac = some a) : net.contains a := by
  obtain ⟨hlen, h⟩ := Option.ite_none_left_eq_some.mp h
  rw [not_not] at hlen
  split at h
  case h_2 => cases h
  case h_1 first second third rest hmac =>
    obtain ⟨hsix, hlt⟩ := macBytes_lt hmac
    have hfirst : first ^^^ 2 < 2 ^ 8 :=
      Nat.xor_lt_two_pow (hlt first (by simp)) (by decide)
    have hiid : ∀ octet ∈ [first ^^^ 2, second, third, 255, 254] ++ rest, octet < 256 := by
      intro octet ho
      simp only [List.cons_append, List.nil_append, List.mem_cons] at ho
      rcases ho with rfl | rfl | rfl | rfl | rfl | ho
      · exact hfirst
      · exact hlt octet (by simp)
      · exact hlt octet (by simp)
      · decide
      · decide
      · exact hlt octet (by simp [ho])
    have hhost : fromBytesBig ([first ^^^ 2, second, third, 255, 254] ++ rest) <
        net.numAddresses := by
      have hbound := foldl_octets_lt hiid 0
      have hcount : ([first ^^^ 2, second, third, 255, 254] ++ rest).length = 8 := by
        simp only [List.length_cons] at hsix
        simp only [List.length_append, List.length_cons, List.length_nil]
        omega
      have hv : net.version.maxPrefixlen = 128 := by
        have := net.prefixlen_le
        cases hversion : net.version
        · rw [hversion] at this
          simp only [Version.maxPrefixlen] at this
          omega
        · rfl
      rw [hcount] at hbound
      rw [fromBytesBig, Net.numAddresses, hv, hlen]
      exact lt_of_lt_of_le hbound (by decide)
    cases h
    rw [orHost_eq_nth hhost]
    exact Net.contains_nth hhost

variable {db : PickerRows} {draws : Draws} {request : PickRequest} {ip subnetId : Nat}

theorem contains_of_randomCandidate {attempt : Nat}
    (h : randomCandidate db request draws attempt = some a) :
    request.network.contains a ∧ isFree db request a = true := by
  obtain ⟨-, h⟩ := Option.ite_none_left_eq_some.mp h
  obtain ⟨hfree, h⟩ := Option.ite_none_right_eq_some.mp h
  have hhost : draws.randbits attempt &&&
      (2 ^ (request.network.version.maxPrefixlen - request.network.prefixlen) - 1) <
        request.network.numAddresses := by
    rw [Nat.and_two_pow_sub_one_eq_mod]
    exact Nat.mod_lt _ (Nat.two_pow_pos _)
  cases h
  rw [orHost_eq_nth hhost] at hfree ⊢
  exact ⟨Net.contains_nth hhost, hfree⟩

def WritableSetRanges.Covers (r : WritableSetRanges) (ip : Nat) : Prop :=
  ip ∈ r.hosts ∨ Spans.Holds r.intervals ip

theorem WritableSetRanges.contains_iff {r : WritableSetRanges} :
    r.contains ip = true ↔ r.Covers ip := by
  obtain ⟨hbefore, hholds⟩ := Spans.merge_spec r.intervals
  simp only [contains, Covers, Bool.or_eq_true, decide_eq_true_eq, Spans.find_iff hbefore, hholds]

theorem allowed_iff {ranges : Option WritableSetRanges} :
    allowed ranges ip = true ↔ ∀ r, ranges = some r → r.Covers ip := by
  cases ranges <;> simp [allowed, WritableSetRanges.contains_iff]

/-- The pool's range has the address, whichever end was given first. -/
def PoolRow.Holds (pool : PoolRow) (a : Address) : Prop :=
  pool.startIp.version = a.version ∧ min pool.startIp.value pool.endIp.value ≤ a.value ∧
    a.value ≤ max pool.startIp.value pool.endIp.value

instance (pool : PoolRow) (a : Address) : Decidable (pool.Holds a) :=
  inferInstanceAs (Decidable (_ ∧ _))

theorem not_holds_of_ipIntInDynamicPool
    (h : ipIntInDynamicPool a.value (loadDynamicPoolRanges db subnetId) = false) :
    ∀ pool ∈ dynamicPools db subnetId, ¬ pool.Holds a := by
  rintro pool hpool ⟨-, hstart, hend⟩
  simp only [ipIntInDynamicPool, loadDynamicPoolRanges, List.any_map, List.any_eq_false,
    Function.comp_apply, Bool.and_eq_true, decide_eq_true_eq, not_and, not_le] at h
  have hoff := h pool hpool
  split at hoff
  · simp only at hoff
    omega
  · simp only at hoff
    omega

theorem mem_usedAddresses :
    a ∈ usedAddresses db subnetId ↔
      ∃ row ∈ db.addresses, row.subnetId = subnetId ∧ row.holdsAddress ∧ row.address = a := by
  simp [usedAddresses, and_assoc]

structure Writable (db : PickerRows) (request : PickRequest) (a : Address) : Prop where
  unheld : ∀ row ∈ db.addresses, row.subnetId = request.subnetId → row.holdsAddress →
    row.address ≠ a
  allowed : ∀ r, request.allowedRanges = some r → r.Covers a.value

structure Available (db : PickerRows) (request : PickRequest) (a : Address) : Prop
    extends Writable db request a where
  inSubnet : request.network.contains a
  offPools : ∀ pool ∈ dynamicPools db request.subnetId, ¬ pool.Holds a

theorem writable_iff :
    Writable db request a ↔
      a ∉ usedAddresses db request.subnetId ∧ allowed request.allowedRanges a.value = true := by
  rw [mem_usedAddresses, allowed_iff]
  constructor
  · rintro ⟨hunheld, hallowed⟩
    refine ⟨?_, hallowed⟩
    rintro ⟨row, hrow, hsubnet, hholds, ha⟩
    exact hunheld row hrow hsubnet hholds ha
  · rintro ⟨hunheld, hallowed⟩
    exact ⟨fun row hrow hsubnet hholds ha => hunheld ⟨row, hrow, hsubnet, hholds, ha⟩, hallowed⟩

theorem available_of_isFree (hnet : request.network.contains a) (h : isFree db request a = true) :
    Available db request a := by
  simp only [isFree, Bool.and_eq_true, Bool.not_eq_true', decide_eq_false_iff_not] at h
  obtain ⟨⟨hunused, hpools⟩, hallowed⟩ := h
  exact { toWritable := writable_iff.mpr ⟨hunused, hallowed⟩
          inSubnet := hnet
          offPools := not_holds_of_ipIntInDynamicPool hpools }

theorem available_of_find? {hosts : List Address}
    (hhosts : ∀ host ∈ hosts, request.network.contains host)
    (h : hosts.find? (isFree db request) = some a) : Available db request a :=
  available_of_isFree (hhosts a (List.mem_of_find?_eq_some h)) (List.find?_some h)

theorem available_of_pickRandom (h : (pickRandom db request draws).address = some a) :
    Available db request a := by
  unfold pickRandom at h
  split at h
  · cases h
  · obtain ⟨attempt, -, hattempt⟩ := List.exists_of_findSome?_eq_some h
    obtain ⟨hnet, hfree⟩ := contains_of_randomCandidate hattempt
    exact available_of_isFree hnet hfree

theorem available_of_pickIPv4 (h : (pickIPv4 db request draws).address = some a) :
    Available db request a := by
  simp only [pickIPv4] at h
  split at h
  · refine available_of_find? (fun host hhost => ?_) h
    exact contains_of_mem_firstHosts ((draws.shuffle_perm _).mem_iff.mp hhost)
  · exact available_of_find? (fun host hhost => contains_of_mem_firstHosts hhost) h

/-- The EUI-64 branch hands out an address inside a dynamic pool: the MAC's address is free of
rows and writable. -/
def Eui64MeetsPool (db : PickerRows) (request : PickRequest) : Prop :=
  request.network.version = .v6 ∧ effectiveStrategy request = .eui64 ∧
    ∃ candidate, eui64FromMac request.network (request.macAddress.getD "") = some candidate ∧
      Writable db request candidate ∧
      ∃ pool ∈ dynamicPools db request.subnetId, pool.Holds candidate

theorem pickEui64_eq_some {candidate : Address} :
    pickEui64 db request = some candidate ↔
      eui64FromMac request.network (request.macAddress.getD "") = some candidate ∧
        Writable db request candidate := by
  rw [pickEui64, Option.filter_eq_some_iff, writable_iff]
  simp

theorem pickIPv6_iff (db : PickerRows) (request : PickRequest) (draws : Draws)
    (hv : request.network.version = .v6) :
    (∀ a, (pickIPv6 db request draws).address = some a → Available db request a) ↔
      ¬ Eui64MeetsPool db request := by
  unfold pickIPv6
  split
  case h_1 heui =>
    split
    case h_1 candidate hpick =>
      obtain ⟨hcandidate, hwritable⟩ := pickEui64_eq_some.mp hpick
      constructor
      · rintro havailable ⟨-, -, other, hother, -, pool, hpool, hholds⟩
        obtain rfl := Option.some.inj (hcandidate.symm.trans hother)
        exact (havailable candidate rfl).offPools pool hpool hholds
      · intro hapart a ha
        obtain rfl := Option.some.inj ha
        exact { toWritable := hwritable
                inSubnet := contains_eui64FromMac hcandidate
                offPools := fun pool hpool hholds =>
                  hapart ⟨hv, heui, candidate, hcandidate, hwritable, pool, hpool, hholds⟩ }
    case h_2 hpick =>
      refine iff_of_true (fun a ha => available_of_pickRandom ha) ?_
      rintro ⟨-, -, candidate, hcandidate, hwritable, -⟩
      rw [pickEui64_eq_some.mpr ⟨hcandidate, hwritable⟩] at hpick
      cases hpick
  case h_2 hsequential =>
    refine iff_of_true (fun a ha => ?_) fun h => ?_
    · exact available_of_find? (fun host hhost => contains_of_mem_firstHosts hhost) ha
    · obtain ⟨-, heui, -⟩ := h
      rw [hsequential] at heui
      cases heui
  case h_3 hrandom =>
    refine iff_of_true (fun a ha => available_of_pickRandom ha) fun h => ?_
    obtain ⟨-, heui, -⟩ := h
    rw [hrandom] at heui
    cases heui

/-- What the picker hands out may be handed out, unless it is the address of a MAC and lies in a
dynamic pool. -/
theorem pickNextAvailableIp_available_iff (db : PickerRows) (request : PickRequest)
    (draws : Draws) :
    (∀ a, (pickNextAvailableIp db request draws).address = some a → Available db request a) ↔
      ¬ Eui64MeetsPool db request := by
  unfold pickNextAvailableIp
  split
  case h_1 hv => exact pickIPv6_iff db request draws hv
  case h_2 hv =>
    refine iff_of_true (fun a ha => available_of_pickIPv4 ha) fun h => ?_
    obtain ⟨hv6, -⟩ := h
    rw [hv] at hv6
    cases hv6

/-- A /64 whose dynamic pool spans its hosts. -/
private def pooledRows : PickerRows where
  addresses := []
  scopes := [(7, { groupId := 1, subnetId := 3 })]
  pools := [{ scopeId := 7, startIp := ⟨.v6, 0x20010db8000000000000000000000001, by decide⟩,
              endIp := ⟨.v6, 0x20010db800000000ffffffffffffffff, by decide⟩ }]

private def macRequest : PickRequest where
  subnetId := 3
  network := Net.ofValue .v6 0x20010db8000000000000000000000000 64
  ipv6AllocationPolicy := .eui64
  macAddress := some "52:54:00:12:34:56"

private def zeroDraws : Draws where
  randbits := fun _ => 0
  shuffle := id
  shuffle_perm := fun hosts => List.Perm.refl hosts

theorem pickNextAvailableIp_pooled :
    ¬ ∀ a, (pickNextAvailableIp pooledRows macRequest zeroDraws).address = some a →
      Available pooledRows macRequest a := by
  intro havailable
  let handed : Address := ⟨.v6, 0x20010db800000000505400fffe123456, by decide⟩
  have hpick : (pickNextAvailableIp pooledRows macRequest zeroDraws).address = some handed := by
    decide +kernel
  have hpools : ∃ pool ∈ dynamicPools pooledRows macRequest.subnetId, pool.Holds handed := by
    decide +kernel
  obtain ⟨pool, hpool, hholds⟩ := hpools
  exact (havailable handed hpick).offPools pool hpool hholds

end SpatiumDdi.Ipam
