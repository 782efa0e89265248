import SpatiumDdi.Dhcp.KeaOptions

/-!
The options of the document that the agent renders from a bundle (`render_kea.py`). They stand at
five levels: the block's own, a subnet's, a pool's, a reservation's and a client class's.

Of each dict only the keys that hold options, or dicts with options, and the name of a class are
here. The class of blocked MACs and the pools that delegate prefixes have no options.
-/

namespace SpatiumDdi.Dhcp.Kea

open RawOptions (OptionValue Options Chars isUnset)

structure Pool where
  poolType : Option Chars
  optionsOverride : Option Options

structure Static where
  optionsOverride : Option Options

structure Scope where
  addressFamily : Option Chars
  v6AddressMode : Option Chars
  options : Option Options
  pools : List Pool
  statics : List Static
  pxeClassNames : Option (List Chars)

structure LegacySubnet where
  options : Option Options
  reservations : List (Option Options)

structure ClientClass where
  name : Chars
  addressFamily : Option Chars
  options : Option Options
  optionsV4 : Option Options
  optionsV6 : Option Options

structure PxeClass where
  name : Chars
  matchExpression : Option Chars

structure PhoneClass where
  name : Chars
  options : Option Options

structure DevicePolicyClass where
  name : Chars
  matchExpression : Option Chars
  test : Option Chars
  options : Option Options

structure Bundle where
  globalOptions : Option Options
  scopes : Option (List Scope)
  subnets : List LegacySubnet
  clientClasses : List ClientClass
  pxeClasses : List PxeClass
  phoneClasses : List PhoneClass
  devicePolicyClasses : List DevicePolicyClass
  optionDefs : List OptionDef

def orText (text : Option Chars) (default : String) : Chars :=
  match text with
  | some (c :: cs) => c :: cs
  | _ => default.toList

def Pool.isDynamic (p : Pool) : Bool := orText p.poolType "dynamic" = "dynamic".toList

def Scope.isV6 (s : Scope) : Bool := orText s.addressFamily "ipv4" = "ipv6".toList

def Scope.dynamicPools (s : Scope) : List Pool := s.pools.filter (·.isDynamic)

def Bundle.v4Scopes (b : Bundle) : List Scope := (b.scopes.getD []).filter fun s => ! s.isV6

def Bundle.v6Scopes (b : Bundle) : List Scope := (b.scopes.getD []).filter (·.isV6)

/-- Whether a version 4 scope lists its own PXE classes. -/
def Bundle.pxeScoped (b : Bundle) : Bool := b.v4Scopes.any (·.pxeClassNames.isSome)

def ClientClass.inFamily (c : ClientClass) (family : String) : Bool :=
  [family.toList, "dual".toList].contains (c.addressFamily.getD "dual".toList)

def ClientClass.familyOptions (c : ClientClass) (family : String) : Option Options :=
  match c.addressFamily with
  | none => c.options
  | some _ => if family = "ipv6" then c.optionsV6 else c.optionsV4

/-- A device policy without an expression is left out. -/
def DevicePolicyClass.hasTest (c : DevicePolicyClass) : Bool :=
  orText c.matchExpression "" ≠ [] || orText c.test "" ≠ []

def listField (key : String) (items : List OptionValue) : List (Chars × OptionValue) :=
  if items = [] then [] else [(key.toList, .list items)]

/-- Whether `if options` lets a map through. -/
def hasOptions (options : Option Options) : Bool := options.any fun options => ! options.items.isEmpty

/-- `_pxe_classes`, less the boot fields and tests. -/
def pxeClasses (additional : Bool) (p : PxeClass) : List OptionValue :=
  if additional then
    [.dict [("name".toList, .str p.name)], .dict [("name".toList, .str (p.name ++ "-boot".toList))]]
  else [.dict [("name".toList, .str p.name)]]

section

variable (str : OptionValue → Chars)

def familyEntries (v6 : Bool) (options : Option Options) : List OptionValue :=
  if v6 then optionsFromMappingV6 str options else optionsFromMapping str options

def dynamicPool (v6 : Bool) (p : Pool) : OptionValue :=
  .dict (listField "option-data" (familyEntries str v6 p.optionsOverride))

def reservation (v6 : Bool) (options : Option Options) : OptionValue :=
  .dict (listField "option-data" (familyEntries str v6 options))

def subnet (s : LegacySubnet) : OptionValue :=
  .dict (listField "option-data" (optionsFromMapping str s.options) ++
    listField "reservations" (s.reservations.map (reservation str false)))

def scopeToSubnet (s : Scope) : OptionValue :=
  .dict (listField "pools" (s.dynamicPools.map (dynamicPool str false)) ++
    listField "option-data" (optionsFromMapping str s.options) ++
    listField "reservations" (s.statics.map fun st => reservation str false st.optionsOverride))

def scopeToSubnet6 (s : Scope) : OptionValue :=
  let mode := orText s.v6AddressMode "stateful"
  let serveAddresses := decide (mode = "stateful".toList)
  let serveOptions := serveAddresses || decide (mode = "stateless".toList)
  .dict ((if serveAddresses then listField "pools" (s.dynamicPools.map (dynamicPool str true))
      else []) ++
    (if serveOptions then listField "option-data" (optionsFromMappingV6 str s.options) else []) ++
    (if serveAddresses || serveOptions then
      listField "reservations" (s.statics.map fun st => reservation str true st.optionsOverride)
    else []))

def clientClass (v6 : Bool) (c : ClientClass) : OptionValue :=
  let options := c.familyOptions (if v6 then "ipv6" else "ipv4")
  .dict ([("name".toList, .str c.name)] ++
    if hasOptions options then [("option-data".toList, .list (familyEntries str v6 options))] else [])

def phoneClass (c : PhoneClass) : OptionValue :=
  .dict ([("name".toList, .str c.name)] ++
    listField "option-data" (optionsFromMapping str c.options))

def devicePolicyClass (c : DevicePolicyClass) : Option OptionValue :=
  if c.hasTest then
    some (.dict ([("name".toList, .str c.name)] ++
      listField "option-data" (optionsFromMapping str c.options)))
  else none

def renderedClasses (b : Bundle) : List OptionValue :=
  (b.clientClasses.filter (·.inFamily "ipv4")).map (clientClass str false) ++
    b.pxeClasses.flatMap (pxeClasses b.pxeScoped) ++ b.phoneClasses.map (phoneClass str) ++
    b.devicePolicyClasses.filterMap (devicePolicyClass str)

def subnet4 (b : Bundle) : List OptionValue :=
  match b.scopes with
  | some _ => b.v4Scopes.map (scopeToSubnet str)
  | none => b.subnets.map (subnet str)

/-- The Dhcp4 block before its definitions are known. -/
def assembled (b : Bundle) : OptionValue :=
  .dict (listField "option-data" (optionsFromMapping str b.globalOptions) ++
    [("subnet4".toList, .list (subnet4 str b))] ++
    listField "client-classes" (renderedClasses str b))

def dhcp6 (b : Bundle) : OptionValue :=
  .dict ([("subnet6".toList, .list (b.v6Scopes.map (scopeToSubnet6 str)))] ++
    if b.v6Scopes = [] then []
    else listField "option-data" (optionsFromMappingV6 str b.globalOptions) ++
      listField "client-classes"
        ((b.clientClasses.filter (·.inFamily "ipv6")).map (clientClass str true)))

end

def collectOptionDefs (dhcp4 : OptionValue) : List OptionDef :=
  keaOptionDefs.filter fun d => (optionData dhcp4).any fun entry => entryName entry = some d.name

/-- The definitions that the control plane shipped, less those of a code that has one. -/
def mergeDefs (named shipped : List OptionDef) : List OptionDef :=
  shipped.foldl (fun defs d => if d.code ∈ defs.map (·.code) then defs else defs ++ [d]) named

structure Rendered where
  dhcp4 : OptionValue
  optionDef : List OptionDef
  dhcp6 : OptionValue

def render (str : OptionValue → Chars) (b : Bundle) : Rendered :=
  let dhcp4 := assembled str b
  let optionDefs := mergeDefs (collectOptionDefs dhcp4) b.optionDefs
  { dhcp4 := stripUndefined (optionDefs.map fun d => (d.code : ℤ)) dhcp4
    optionDef := optionDefs
    dhcp6 := dhcp6 str b }

def Scope.v4Maps (s : Scope) : List (Option Options) :=
  s.dynamicPools.map (·.optionsOverride) ++ [s.options] ++ s.statics.map (·.optionsOverride)

def LegacySubnet.v4Maps (s : LegacySubnet) : List (Option Options) := s.options :: s.reservations

/-- The option maps of the Dhcp4 block, in its order. -/
def Bundle.v4Maps (b : Bundle) : List (Option Options) :=
  [b.globalOptions] ++
    (match b.scopes with
      | some _ => b.v4Scopes.flatMap Scope.v4Maps
      | none => b.subnets.flatMap LegacySubnet.v4Maps) ++
    (b.clientClasses.filter (·.inFamily "ipv4")).map (·.familyOptions "ipv4") ++
    b.phoneClasses.map (·.options) ++
    (b.devicePolicyClasses.filter (·.hasTest)).map (·.options)

variable {str : OptionValue → Chars}

theorem memberOptions_append (l l' : List (Chars × OptionValue)) :
    memberOptions (l ++ l') = memberOptions l ++ memberOptions l' := by
  induction l with
  | nil => rfl
  | cons item l ih => rw [List.cons_append, memberOptions, memberOptions, ih, List.append_assoc]

theorem itemOptions_eq (items : List OptionValue) : itemOptions items = items.flatMap optionData := by
  induction items with
  | nil => rfl
  | cons item items ih => rw [itemOptions, List.flatMap_cons, ih]

@[simp]
theorem memberOptions_optionData (items : List OptionValue) :
    memberOptions (listField "option-data" items) = items := by
  unfold listField
  split
  next hnil => rw [hnil]; rfl
  · rw [memberOptions, optionList, if_pos rfl, listOf, Option.getD_some, memberOptions,
      List.append_nil]

theorem memberOptions_list (key : String) (hkey : key.toList ≠ "option-data".toList)
    (items : List OptionValue) :
    memberOptions [(key.toList, .list items)] = items.flatMap optionData := by
  rw [memberOptions, optionList, if_neg hkey, Option.getD_none, optionData, itemOptions_eq,
    memberOptions, List.append_nil]

theorem memberOptions_listField (key : String) (hkey : key.toList ≠ "option-data".toList)
    (items : List OptionValue) :
    memberOptions (listField key items) = items.flatMap optionData := by
  unfold listField
  split
  next hnil => rw [hnil]; rfl
  · exact memberOptions_list key hkey items

@[simp]
theorem memberOptions_name (name : Chars) :
    memberOptions [("name".toList, .str name)] = [] := by
  simp [memberOptions, optionList, optionData]

theorem optionData_dict (members : List (Chars × OptionValue)) :
    optionData (.dict members) = memberOptions members := by
  rw [optionData]

@[simp]
theorem optionData_dynamicPool (v6 : Bool) (p : Pool) :
    optionData (dynamicPool str v6 p) = familyEntries str v6 p.optionsOverride := by
  rw [dynamicPool, optionData_dict, memberOptions_optionData]

@[simp]
theorem optionData_reservation (v6 : Bool) (options : Option Options) :
    optionData (reservation str v6 options) = familyEntries str v6 options := by
  rw [reservation, optionData_dict, memberOptions_optionData]

theorem optionData_scopeToSubnet (s : Scope) :
    optionData (scopeToSubnet str s) = s.v4Maps.flatMap (optionsFromMapping str) := by
  rw [scopeToSubnet, optionData_dict, memberOptions_append, memberOptions_append,
    memberOptions_listField "pools" (by decide), memberOptions_listField "reservations" (by decide),
    memberOptions_optionData]
  simp [Scope.v4Maps, List.flatMap_map, familyEntries]

theorem optionData_subnet (s : LegacySubnet) :
    optionData (subnet str s) = s.v4Maps.flatMap (optionsFromMapping str) := by
  rw [subnet, optionData_dict, memberOptions_append,
    memberOptions_listField "reservations" (by decide), memberOptions_optionData]
  simp [LegacySubnet.v4Maps, List.flatMap_map, familyEntries]

theorem familyEntries_of_not_hasOptions {v6 : Bool} {options : Option Options}
    (h : hasOptions options = false) : familyEntries str v6 options = [] := by
  cases options with
  | none => cases v6 <;> rfl
  | some options =>
    have hnil : options.items = [] := by simpa [hasOptions] using h
    cases v6 <;> simp [familyEntries, optionsFromMapping, optionsFromMappingV6, hnil]

theorem optionData_clientClass (v6 : Bool) (c : ClientClass) :
    optionData (clientClass str v6 c) =
      familyEntries str v6 (c.familyOptions (if v6 then "ipv6" else "ipv4")) := by
  simp only [clientClass, optionData_dict, memberOptions_append, memberOptions_name, List.nil_append]
  generalize c.familyOptions (if v6 then "ipv6" else "ipv4") = options
  cases hoptions : hasOptions options with
  | true =>
    rw [if_pos rfl, memberOptions, optionList, if_pos rfl, listOf, Option.getD_some, memberOptions,
      List.append_nil]
  | false =>
    rw [if_neg Bool.false_ne_true, memberOptions, familyEntries_of_not_hasOptions hoptions]

theorem optionData_phoneClass (c : PhoneClass) :
    optionData (phoneClass str c) = optionsFromMapping str c.options := by
  rw [phoneClass, optionData_dict, memberOptions_append, memberOptions_name, List.nil_append,
    memberOptions_optionData]

theorem optionData_devicePolicyClasses (classes : List DevicePolicyClass) :
    (classes.filterMap (devicePolicyClass str)).flatMap optionData =
      ((classes.filter (·.hasTest)).map (·.options)).flatMap (optionsFromMapping str) := by
  induction classes with
  | nil => rfl
  | cons c classes ih =>
    rw [List.filterMap_cons, List.filter_cons, devicePolicyClass]
    by_cases htest : c.hasTest = true
    · rw [if_pos htest, if_pos htest, List.flatMap_cons, List.map_cons, List.flatMap_cons, ih,
        optionData_dict, memberOptions_append, memberOptions_name, List.nil_append,
        memberOptions_optionData]
    · rw [if_neg htest, if_neg htest]
      exact ih

theorem optionData_pxeClasses (additional : Bool) (p : PxeClass) :
    (pxeClasses additional p).flatMap optionData = [] := by
  cases additional <;> simp [pxeClasses, memberOptions, optionList, optionData]

theorem optionData_assembled (b : Bundle) :
    optionData (assembled str b) = b.v4Maps.flatMap (optionsFromMapping str) := by
  have hsubnets : (subnet4 str b).flatMap optionData =
      (match b.scopes with
        | some _ => b.v4Scopes.flatMap Scope.v4Maps
        | none => b.subnets.flatMap LegacySubnet.v4Maps).flatMap (optionsFromMapping str) := by
    unfold subnet4
    cases b.scopes with
    | some scopes =>
      simp only [List.flatMap_map, List.flatMap_assoc, optionData_scopeToSubnet]
    | none => simp only [List.flatMap_map, List.flatMap_assoc, optionData_subnet]
  have hpxe : (b.pxeClasses.flatMap (pxeClasses b.pxeScoped)).flatMap optionData = [] := by
    simp only [List.flatMap_assoc, optionData_pxeClasses, List.flatMap_eq_nil_iff, implies_true]
  have hclasses : (renderedClasses str b).flatMap optionData =
      ((b.clientClasses.filter (·.inFamily "ipv4")).map (·.familyOptions "ipv4") ++
        b.phoneClasses.map (·.options) ++
        (b.devicePolicyClasses.filter (·.hasTest)).map (·.options)).flatMap
          (optionsFromMapping str) := by
    simp only [renderedClasses, List.flatMap_append, hpxe, optionData_devicePolicyClasses,
      List.flatMap_map, optionData_clientClass, optionData_phoneClass, familyEntries,
      Bool.false_eq_true, if_false, List.append_nil]
  rw [assembled, optionData_dict, memberOptions_append, memberOptions_append,
    memberOptions_optionData, memberOptions_list "subnet4" (by decide),
    memberOptions_listField "client-classes" (by decide),
    hsubnets, hclasses, Bundle.v4Maps]
  simp only [List.flatMap_append, List.flatMap_cons, List.flatMap_nil, List.append_nil,
    List.append_assoc]

variable {str : OptionValue → Chars} {kea : Chars → Prop} {b : Bundle} {d : OptionDef}

theorem mergeDefs_cons (named : List OptionDef) (first : OptionDef) (shipped : List OptionDef) :
    mergeDefs named (first :: shipped) =
      mergeDefs (if first.code ∈ named.map (·.code) then named else named ++ [first]) shipped :=
  rfl

theorem mem_mergeDefs {named shipped : List OptionDef} :
    d ∈ mergeDefs named shipped ↔
      d ∈ named ∨ d.code ∉ named.map (·.code) ∧ shipped.find? (·.code = d.code) = some d := by
  induction shipped generalizing named with
  | nil => simp [mergeDefs]
  | cons first shipped ih =>
    rw [mergeDefs_cons, ih, List.find?_cons]
    by_cases hseen : first.code ∈ named.map (·.code)
    · rw [if_pos hseen]
      refine or_congr Iff.rfl (and_congr_right fun hnew => ?_)
      have hne : first.code ≠ d.code := fun heq => hnew (heq ▸ hseen)
      rw [decide_eq_false hne]
    · rw [if_neg hseen, List.mem_append, List.mem_singleton, List.map_append, List.mem_append,
        List.map_singleton, List.mem_singleton, or_assoc, not_or]
      refine or_congr Iff.rfl ?_
      by_cases heq : first.code = d.code
      · rw [decide_eq_true heq]
        constructor
        · rintro (rfl | ⟨⟨-, hne⟩, -⟩)
          · exact ⟨hseen, rfl⟩
          · exact absurd heq.symm hne
        · rintro ⟨-, hfirst⟩
          exact .inl (Option.some.inj hfirst).symm
      · rw [decide_eq_false heq]
        constructor
        · rintro (rfl | ⟨⟨hnew, -⟩, hfind⟩)
          · exact absurd rfl heq
          · exact ⟨hnew, hfind⟩
        · rintro ⟨hnew, hfind⟩
          exact .inr ⟨⟨hnew, Ne.symm heq⟩, hfind⟩

theorem nodup_mergeDefs {named shipped : List OptionDef} (h : (named.map (·.code)).Nodup) :
    ((mergeDefs named shipped).map (·.code)).Nodup := by
  induction shipped generalizing named with
  | nil => exact h
  | cons first shipped ih =>
    rw [mergeDefs_cons]
    refine ih ?_
    split
    · exact h
    next hnew =>
      rw [List.map_append, List.nodup_append]
      refine ⟨h, List.nodup_singleton _, fun a ha a' ha' => ?_⟩
      rw [List.map_singleton, List.mem_singleton] at ha'
      rintro rfl
      exact hnew (ha' ▸ ha)

/-- Whether an entry of that name is rendered into the Dhcp4 block. -/
def Bundle.Emits (b : Bundle) (name : Chars) : Prop :=
  ∃ options ∈ b.v4Maps, (∃ p ∈ keaOptionNamesV4, p.2.toList = name ∧ sets p.1 options = true) ∨
    ∃ entry ∈ rawEntriesOf options, entryName entry = some name

/-- The agent has a definition of the name, or the bundle brings one, the first of its code, of a
code that the agent defines for no other name in the document. -/
def Bundle.Ships (b : Bundle) (name : Chars) : Prop :=
  (∃ d ∈ keaOptionDefs, d.name = name) ∨
    ∃ d, d.name = name ∧ b.optionDefs.find? (·.code = d.code) = some d ∧
      ∀ own ∈ keaOptionDefs, own.code = d.code → ¬ b.Emits own.name

theorem emits_iff (str : OptionValue → Chars) {name : Chars} :
    b.Emits name ↔ ∃ entry ∈ optionData (assembled str b), entryName entry = some name := by
  rw [optionData_assembled]
  constructor
  · rintro ⟨options, hoptions, ⟨p, hp, rfl, hset⟩ | ⟨entry, hraw, hname⟩⟩
    · obtain ⟨entry, hentry, hname⟩ := exists_mem_of_sets str hp hset
      exact ⟨entry, List.mem_flatMap.mpr ⟨options, hoptions, hentry⟩, hname⟩
    · exact ⟨entry, List.mem_flatMap.mpr ⟨options, hoptions, mem_optionsFromMapping_of_raw hraw⟩,
        hname⟩
  · rintro ⟨entry, hentry, hname⟩
    obtain ⟨options, hoptions, hmem⟩ := List.mem_flatMap.mp hentry
    refine ⟨options, hoptions, ?_⟩
    rcases name_of_mem_optionsFromMapping hmem hname with ⟨p, hp, hset, rfl⟩ | hraw
    · exact .inl ⟨p, hp, rfl, hset⟩
    · exact .inr ⟨entry, hraw, hname⟩

theorem mem_collectOptionDefs :
    d ∈ collectOptionDefs (assembled str b) ↔ d ∈ keaOptionDefs ∧ b.Emits d.name := by
  rw [collectOptionDefs, List.mem_filter, List.any_eq_true, emits_iff str]
  simp only [decide_eq_true_eq]

theorem mem_optionDef :
    d ∈ (render str b).optionDef ↔ (d ∈ keaOptionDefs ∧ b.Emits d.name) ∨
      b.optionDefs.find? (·.code = d.code) = some d ∧
        ∀ own ∈ keaOptionDefs, own.code = d.code → ¬ b.Emits own.name := by
  have hnew : d.code ∉ (collectOptionDefs (assembled str b)).map (·.code) ↔
      ∀ own ∈ keaOptionDefs, own.code = d.code → ¬ b.Emits own.name := by
    rw [List.mem_map, not_exists]
    constructor
    · exact fun h own hown hcode hemits => h own ⟨mem_collectOptionDefs.mpr ⟨hown, hemits⟩, hcode⟩
    · rintro h own ⟨hown, hcode⟩
      obtain ⟨hown, hemits⟩ := mem_collectOptionDefs.mp hown
      exact h own hown hcode hemits
  rw [render, mem_mergeDefs, mem_collectOptionDefs, hnew, and_comm (b := _ = some d)]

theorem exists_optionDef_iff {name : Chars} (hemits : b.Emits name) :
    (∃ d ∈ (render str b).optionDef, d.name = name) ↔ b.Ships name := by
  constructor
  · rintro ⟨d, hd, rfl⟩
    rcases mem_optionDef.mp hd with ⟨hown, -⟩ | ⟨hfind, hfree⟩
    · exact .inl ⟨d, hown, rfl⟩
    · exact .inr ⟨d, rfl, hfind, hfree⟩
  · rintro (⟨d, hown, rfl⟩ | ⟨d, rfl, hfind, hfree⟩)
    · exact ⟨d, mem_optionDef.mpr (.inl ⟨hown, hemits⟩), rfl⟩
    · exact ⟨d, mem_optionDef.mpr (.inr ⟨hfind, hfree⟩), rfl⟩

def Pool.withoutRawCodes (p : Pool) : Pool :=
  { p with optionsOverride := p.optionsOverride.map Kea.withoutRawCodes }

def Static.withoutRawCodes (st : Static) : Static :=
  { st with optionsOverride := st.optionsOverride.map Kea.withoutRawCodes }

def Scope.withoutRawCodes (s : Scope) : Scope :=
  { s with
    options := s.options.map Kea.withoutRawCodes
    pools := s.pools.map (·.withoutRawCodes)
    statics := s.statics.map (·.withoutRawCodes) }

def LegacySubnet.withoutRawCodes (s : LegacySubnet) : LegacySubnet where
  options := s.options.map Kea.withoutRawCodes
  reservations := s.reservations.map (·.map Kea.withoutRawCodes)

def ClientClass.withoutRawCodes (c : ClientClass) : ClientClass :=
  { c with
    options := c.options.map Kea.withoutRawCodes
    optionsV4 := c.optionsV4.map Kea.withoutRawCodes
    optionsV6 := c.optionsV6.map Kea.withoutRawCodes }

def PhoneClass.withoutRawCodes (c : PhoneClass) : PhoneClass :=
  { c with options := c.options.map Kea.withoutRawCodes }

def DevicePolicyClass.withoutRawCodes (c : DevicePolicyClass) : DevicePolicyClass :=
  { c with options := c.options.map Kea.withoutRawCodes }

def Bundle.withoutRawCodes (b : Bundle) : Bundle :=
  { b with
    globalOptions := b.globalOptions.map Kea.withoutRawCodes
    scopes := b.scopes.map (·.map (·.withoutRawCodes))
    subnets := b.subnets.map (·.withoutRawCodes)
    clientClasses := b.clientClasses.map (·.withoutRawCodes)
    phoneClasses := b.phoneClasses.map (·.withoutRawCodes)
    devicePolicyClasses := b.devicePolicyClasses.map (·.withoutRawCodes) }

theorem familyEntries_withoutRawCodes (options : Option Options) :
    familyEntries str true (options.map withoutRawCodes) = familyEntries str true options :=
  optionsFromMappingV6_withoutRawCodes options

theorem scopeToSubnet6_withoutRawCodes (s : Scope) :
    scopeToSubnet6 str s.withoutRawCodes = scopeToSubnet6 str s := by
  have hpools : s.withoutRawCodes.dynamicPools = s.dynamicPools.map Pool.withoutRawCodes := by
    rw [Scope.dynamicPools, Scope.withoutRawCodes, List.filter_map]
    rfl
  have hpool : dynamicPool str true ∘ Pool.withoutRawCodes = dynamicPool str true := by
    funext p
    rw [Function.comp_apply, dynamicPool, Pool.withoutRawCodes, familyEntries_withoutRawCodes,
      dynamicPool]
  have hstatic : (fun st : Static => reservation str true st.optionsOverride) ∘
      Static.withoutRawCodes = fun st => reservation str true st.optionsOverride := by
    funext st
    simp only [Function.comp_apply, reservation, Static.withoutRawCodes,
      familyEntries_withoutRawCodes]
  rw [scopeToSubnet6, scopeToSubnet6, hpools, List.map_map, hpool]
  simp only [Scope.withoutRawCodes, List.map_map, hstatic, optionsFromMappingV6_withoutRawCodes]
  rfl

theorem optionData_clientClass_withoutRawCodes (c : ClientClass) :
    optionData (clientClass str true c.withoutRawCodes) = optionData (clientClass str true c) := by
  have hfamily : c.withoutRawCodes.familyOptions "ipv6" =
      (c.familyOptions "ipv6").map withoutRawCodes := by
    rw [ClientClass.familyOptions, ClientClass.familyOptions, ClientClass.withoutRawCodes]
    cases c.addressFamily <;> simp
  rw [optionData_clientClass, optionData_clientClass, if_pos rfl, hfamily,
    familyEntries_withoutRawCodes]

theorem optionData_dhcp6_withoutRawCodes (b : Bundle) :
    optionData (dhcp6 str b.withoutRawCodes) = optionData (dhcp6 str b) := by
  have hscopes : b.withoutRawCodes.v6Scopes = b.v6Scopes.map (·.withoutRawCodes) := by
    rw [Bundle.v6Scopes, Bundle.v6Scopes, Bundle.withoutRawCodes]
    cases b.scopes with
    | none => rfl
    | some scopes => exact List.filter_map
  have hsubnets : b.withoutRawCodes.v6Scopes.map (scopeToSubnet6 str) =
      b.v6Scopes.map (scopeToSubnet6 str) := by
    rw [hscopes, List.map_map]
    exact List.map_congr_left fun s _ => scopeToSubnet6_withoutRawCodes s
  have hclasses : b.withoutRawCodes.clientClasses.filter (·.inFamily "ipv6") =
      (b.clientClasses.filter (·.inFamily "ipv6")).map (·.withoutRawCodes) := List.filter_map
  have hidle : b.withoutRawCodes.v6Scopes = [] ↔ b.v6Scopes = [] := by
    rw [hscopes, List.map_eq_nil_iff]
  have hglobal : b.withoutRawCodes.globalOptions = b.globalOptions.map withoutRawCodes := rfl
  rw [dhcp6, dhcp6, optionData_dict, optionData_dict, memberOptions_append, memberOptions_append,
    hsubnets]
  congr 1
  by_cases hnone : b.v6Scopes = []
  · rw [if_pos hnone, if_pos (hidle.mpr hnone)]
  · rw [if_neg hnone, if_neg (mt hidle.mp hnone), memberOptions_append, memberOptions_append,
      memberOptions_listField "client-classes" (by decide),
      memberOptions_listField "client-classes" (by decide), hclasses, hglobal,
      optionsFromMappingV6_withoutRawCodes, List.map_map, List.flatMap_map, List.flatMap_map]
    simp only [Function.comp_apply, optionData_clientClass_withoutRawCodes]

def hasDefinition (defs : List OptionDef) (entry : OptionValue) : Bool :=
  defs.any fun d => entryCode entry = some (d.code : ℤ) ∨
    (named entry = true ∧ entryName entry = some d.name)

/-- What a rendered document owes Kea, which knows some names on its own. -/
structure OneDefinition (str : OptionValue → Chars) (kea : Chars → Prop) (b : Bundle) : Prop where
  coded : ∀ entry ∈ optionData (render str b).dhcp4, named entry = false →
    ∀ code, entryCode entry = some code → ∃ d ∈ (render str b).optionDef, (d.code : ℤ) = code
  named : ∀ entry ∈ optionData (render str b).dhcp4, ∀ name, name ≠ [] →
    entryName entry = some name → ¬ kea name → ∃ d ∈ (render str b).optionDef, d.name = name
  single : ((render str b).optionDef.map (·.code)).Nodup
  kept : (optionData (render str b).dhcp4).filter (hasDefinition (render str b).optionDef) =
    (b.v4Maps.flatMap (optionsFromMapping str)).filter (hasDefinition (render str b).optionDef)
  v6 : optionData (render str b.withoutRawCodes).dhcp6 = optionData (render str b).dhcp6

theorem optionData_render :
    optionData (render str b).dhcp4 = (b.v4Maps.flatMap (optionsFromMapping str)).filter
      (keepsEntry ((render str b).optionDef.map fun d => (d.code : ℤ))) := by
  rw [render, optionData_strip, optionData_assembled]

theorem keepsEntry_of_hasDefinition {defs : List OptionDef} {entry : OptionValue}
    (h : hasDefinition defs entry = true) :
    keepsEntry (defs.map fun d => (d.code : ℤ)) entry = true := by
  obtain ⟨d, hd, hcase⟩ := List.any_eq_true.mp h
  rcases of_decide_eq_true hcase with hcode | ⟨hnamed, -⟩
  · exact keepsEntry_of_mem hcode (List.mem_map.mpr ⟨d, hd, rfl⟩)
  · exact keepsEntry_of_named hnamed

/-- Kea has a definition of its own of each option in the table, or the agent has. A raw entry
is rendered whatever its name is, and nothing but the bundle can bring its definition. -/
theorem one_definition_iff (str : OptionValue → Chars) (kea : Chars → Prop)
    (hkea : ∀ p ∈ keaOptionNamesV4, kea p.2.toList ∨ ∃ d ∈ keaOptionDefs, d.name = p.2.toList)
    (b : Bundle) :
    OneDefinition str kea b ↔
      ∀ options ∈ b.v4Maps, ∀ entry ∈ rawEntriesOf options, ∀ name, name ≠ [] →
        entryName entry = some name → ¬ kea name → b.Ships name := by
  constructor
  · intro h options hoptions entry hraw name hne hname hunknown
    have hentry : entry ∈ optionData (render str b).dhcp4 := by
      rw [optionData_render, List.mem_filter, List.mem_flatMap]
      exact ⟨⟨options, hoptions, mem_optionsFromMapping_of_raw hraw⟩,
        keepsEntry_of_named (named_of_entryName hname hne)⟩
    exact (exists_optionDef_iff ⟨options, hoptions, .inr ⟨entry, hraw, hname⟩⟩).mp
      (h.named entry hentry name hne hname hunknown)
  · intro h
    refine ⟨?_, ?_, nodup_mergeDefs ?_, ?_, optionData_dhcp6_withoutRawCodes b⟩
    · intro entry hentry hnamed code hcode
      rw [optionData_render, List.mem_filter] at hentry
      exact List.mem_map.mp (mem_of_keepsEntry hentry.2 hcode hnamed)
    · intro entry hentry name hne hname hunknown
      rw [optionData_render, List.mem_filter, List.mem_flatMap] at hentry
      obtain ⟨⟨options, hoptions, hmem⟩, -⟩ := hentry
      rcases name_of_mem_optionsFromMapping hmem hname with ⟨p, hp, hset, rfl⟩ | hraw
      · have hown := (hkea p hp).resolve_left hunknown
        exact (exists_optionDef_iff ⟨options, hoptions, .inl ⟨p, hp, rfl, hset⟩⟩).mpr (.inl hown)
      · exact (exists_optionDef_iff ⟨options, hoptions, .inr ⟨entry, hraw, hname⟩⟩).mpr
          (h options hoptions entry hraw name hne hname hunknown)
    · exact (List.filter_sublist.map _).nodup (by decide)
    · rw [optionData_render, List.filter_filter]
      refine List.filter_congr fun entry _ => ?_
      cases hdef : hasDefinition (render str b).optionDef entry with
      | true => rw [keepsEntry_of_hasDefinition hdef, Bool.and_true]
      | false => rfl

def knownNames : List Chars :=
  ["routers", "domain-name-servers", "domain-name", "broadcast-address", "ntp-servers",
    "tftp-server-name", "boot-file-name", "domain-search", "interface-mtu", "time-offset",
    "geoconf-civic"].map String.toList

def plainText : OptionValue → Chars
  | .str s => s
  | _ => []

def locationEntry (name : String) (code : ℤ) (data : String) : OptionValue :=
  .dict [("name".toList, .str name.toList), ("code".toList, .int code),
    ("space".toList, .str "dhcp4".toList), ("csv-format".toList, .bool false),
    ("data".toList, .str data.toList)]

def civicEntry : OptionValue := locationEntry "geoconf-civic" 99 "000258580103464F4F"

def geoEntry : OptionValue := locationEntry "spatium-opt-123" 123 "22000000000022000000000000000001"

def locatedOptions : Options where
  items := [("routers".toList, .list [.str "10.0.0.1".toList]),
    ("option_data".toList, .list [civicEntry, geoEntry])]
  nodup := by decide

def locatedScope : Scope where
  addressFamily := some "ipv4".toList
  v6AddressMode := none
  options := some locatedOptions
  pools := []
  statics := []
  pxeClassNames := none

def locatedBundle (optionDefs : List OptionDef) : Bundle where
  globalOptions := none
  scopes := some [locatedScope]
  subnets := []
  clientClasses := []
  pxeClasses := []
  phoneClasses := []
  devicePolicyClasses := []
  optionDefs := optionDefs

theorem v4Maps_locatedBundle (optionDefs : List OptionDef) :
    (locatedBundle optionDefs).v4Maps = [none, some locatedOptions] := by
  have hscopes : (locatedBundle optionDefs).v4Scopes = [locatedScope] := rfl
  rw [Bundle.v4Maps, hscopes]
  rfl

theorem rawEntries_locatedOptions : rawEntries locatedOptions = [civicEntry, geoEntry] := rfl

theorem one_definition_iff_located :
    OneDefinition plainText (· ∈ knownNames)
      (locatedBundle [vendorDef "spatium-opt-123" 123 "binary" false]) := by
  refine (one_definition_iff plainText (· ∈ knownNames) (by decide) _).mpr ?_
  intro options hoptions entry hentry name _ hname hunknown
  rw [v4Maps_locatedBundle, List.mem_cons, List.mem_singleton] at hoptions
  rcases hoptions with rfl | rfl
  · cases hentry
  rw [rawEntriesOf, Option.elim_some, rawEntries_locatedOptions, List.mem_cons,
    List.mem_singleton] at hentry
  rcases hentry with rfl | rfl
  · have hcivic : name = "geoconf-civic".toList := (Option.some.inj hname).symm
    exact absurd (hcivic ▸ by decide) hunknown
  · have hgeo : name = "spatium-opt-123".toList := (Option.some.inj hname).symm
    refine .inr ⟨vendorDef "spatium-opt-123" 123 "binary" false, hgeo.symm, by decide, ?_⟩
    intro own hown hcode
    rw [keaOptionDefs, List.mem_singleton] at hown
    rw [hown] at hcode
    cases hcode

/-- Without the shipped definition the geodetic location is rendered all the same. -/
theorem not_oneDefinition_located :
    ¬ ∀ b, OneDefinition plainText (· ∈ knownNames) b := by
  intro h
  have hentry : geoEntry ∈ optionData (render plainText (locatedBundle [])).dhcp4 := by
    rw [optionData_render, List.mem_filter, List.mem_flatMap, v4Maps_locatedBundle]
    refine ⟨⟨some locatedOptions, by simp, mem_optionsFromMapping_of_raw ?_⟩,
      keepsEntry_of_named (by decide)⟩
    rw [rawEntriesOf, Option.elim_some, rawEntries_locatedOptions]
    exact List.mem_cons_of_mem _ List.mem_cons_self
  obtain ⟨d, hd, hname⟩ := (h (locatedBundle [])).named geoEntry hentry "spatium-opt-123".toList
    (by decide) rfl (by decide)
  rcases mem_optionDef.mp hd with ⟨hown, -⟩ | ⟨hfind, -⟩
  · rw [keaOptionDefs, List.mem_singleton] at hown
    rw [hown] at hname
    exact absurd hname (by decide)
  · cases hfind

end SpatiumDdi.Dhcp.Kea
