import SpatiumDdi.Dhcp.RawOptions

/-!
Options in a Kea document (`render_kea.py`). A document is a JSON value; its options stand in the
lists under `option-data` keys, at whatever depth, and are read and thinned out there.
-/

namespace SpatiumDdi.Dhcp.Kea

open RawOptions (OptionValue Options Chars isUnset)

/-- `node.get(key)`, of a dict. -/
def member (key : String) : OptionValue → Option OptionValue
  | .dict members => (members.find? (·.1 = key.toList)).map Prod.snd
  | _ => none

/-- An `isinstance(value, int)`, which a boolean is too. -/
def intOf : OptionValue → Option ℤ
  | .int n => some n
  | .bool b => some (if b then 1 else 0)
  | _ => none

def truthy : OptionValue → Bool
  | .null => false
  | .bool b => b
  | .int n => n ≠ 0
  | .float bits => bits <<< 1 ≠ 0
  | .str s => ! s.isEmpty
  | .list items => ! items.isEmpty
  | .dict members => ! members.isEmpty

def entryCode (entry : OptionValue) : Option ℤ := (member "code" entry).bind intOf

def named (entry : OptionValue) : Bool := (member "name" entry).any truthy

def entryName (entry : OptionValue) : Option Chars :=
  match member "name" entry with
  | some (.str name) => some name
  | _ => none

variable {entry : OptionValue}

theorem named_of_entryName {name : Chars} (h : entryName entry = some name) (hne : name ≠ []) :
    named entry = true := by
  unfold entryName at h
  split at h
  next found hfound =>
    obtain rfl := Option.some.inj h
    simpa [named, hfound, truthy] using hne
  · cases h

/-- The test of `_strip_undefined_code_options`, on one entry. -/
def keepsEntry (defined : List ℤ) (entry : OptionValue) : Bool :=
  match entryCode entry with
  | some code => named entry || decide (code ∈ defined)
  | none => true

variable {defined : List ℤ}

theorem keepsEntry_of_named (h : named entry = true) : keepsEntry defined entry = true := by
  unfold keepsEntry
  split
  · rw [h, Bool.true_or]
  · rfl

theorem keepsEntry_of_mem {code : ℤ} (h : entryCode entry = some code) (hmem : code ∈ defined) :
    keepsEntry defined entry = true := by
  rw [keepsEntry, h]
  simp [hmem]

theorem mem_of_keepsEntry {code : ℤ} (h : keepsEntry defined entry = true)
    (hcode : entryCode entry = some code) (hname : named entry = false) : code ∈ defined := by
  rw [keepsEntry, hcode] at h
  simpa [hname] using h

/-- The members of an `isinstance(value, list)`. -/
def listOf : OptionValue → Option (List OptionValue)
  | .list items => some items
  | _ => none

/-- The list that `key == "option-data" and isinstance(val, list)` lets through. -/
def optionList (key : Chars) (val : OptionValue) : Option (List OptionValue) :=
  if key = "option-data".toList then listOf val else none

mutual

/-- The entries that `_collect_option_defs` walks over, in the document's order. -/
def optionData : OptionValue → List OptionValue
  | .dict members => memberOptions members
  | .list items => itemOptions items
  | _ => []

def itemOptions : List OptionValue → List OptionValue
  | [] => []
  | item :: rest => optionData item ++ itemOptions rest

def memberOptions : List (Chars × OptionValue) → List OptionValue
  | [] => []
  | (key, val) :: rest => (optionList key val).getD (optionData val) ++ memberOptions rest

end

mutual

def stripUndefined (defined : List ℤ) : OptionValue → OptionValue
  | .dict members => .dict (stripMembers defined members)
  | .list items => .list (stripItems defined items)
  | node => node

def stripItems (defined : List ℤ) : List OptionValue → List OptionValue
  | [] => []
  | item :: rest => stripUndefined defined item :: stripItems defined rest

def stripMembers (defined : List ℤ) : List (Chars × OptionValue) → List (Chars × OptionValue)
  | [] => []
  | (key, val) :: rest =>
    (key, match optionList key val with
      | some entries => .list (entries.filter (keepsEntry defined))
      | none => stripUndefined defined val) :: stripMembers defined rest

end

theorem listOf_strip (defined : List ℤ) {val : OptionValue} (h : listOf val = none) :
    listOf (stripUndefined defined val) = none := by
  cases val <;> first | rfl | cases h

mutual

theorem optionData_strip (defined : List ℤ) :
    ∀ node, optionData (stripUndefined defined node) = (optionData node).filter (keepsEntry defined)
  | .dict members => memberOptions_strip defined members
  | .list items => itemOptions_strip defined items
  | .null | .bool _ | .int _ | .float _ | .str _ => rfl

theorem itemOptions_strip (defined : List ℤ) :
    ∀ items, itemOptions (stripItems defined items) = (itemOptions items).filter (keepsEntry defined)
  | [] => rfl
  | item :: rest => by
    rw [stripItems, itemOptions, itemOptions, List.filter_append, optionData_strip defined item,
      itemOptions_strip defined rest]

theorem memberOptions_strip (defined : List ℤ) :
    ∀ members, memberOptions (stripMembers defined members) =
      (memberOptions members).filter (keepsEntry defined)
  | [] => rfl
  | (key, val) :: rest => by
    have hval := optionData_strip defined val
    rw [stripMembers, memberOptions, memberOptions, List.filter_append,
      memberOptions_strip defined rest]
    congr 1
    cases hlist : optionList key val with
    | some entries =>
      have hkey : key = "option-data".toList := by
        by_contra hne
        rw [optionList, if_neg hne] at hlist
        cases hlist
      simp [optionList, hkey, listOf]
    | none =>
      have hlist' : optionList key (stripUndefined defined val) = none := by
        unfold optionList at hlist ⊢
        split
        next hkey => exact listOf_strip defined (by rwa [if_pos hkey] at hlist)
        · rfl
      simp only [hlist', Option.getD_none, hval]

end

open RawOptions (OptionValue Options Chars isUnset)

def optionCodes : List (String × ℤ) :=
  [("routers", 3), ("domain-name-servers", 6), ("domain-name", 15), ("ntp-servers", 42),
    ("domain-search", 119)]

def keaOptionNamesV4 : List (String × String) :=
  [("routers", "routers"), ("dns-servers", "domain-name-servers"), ("domain-name", "domain-name"),
    ("broadcast-address", "broadcast-address"), ("ntp-servers", "ntp-servers"),
    ("tftp-server-name", "tftp-server-name"), ("bootfile-name", "boot-file-name"),
    ("tftp-server-address", "tftp-server-address"), ("domain-search", "domain-search"),
    ("mtu", "interface-mtu"), ("time-offset", "time-offset")]

def legacyOptionAliasesV4 : List (String × String) :=
  [("dns_servers", "dns-servers"), ("domain-name-servers", "dns-servers"),
    ("ntp_servers", "ntp-servers"), ("gateway", "routers"), ("domain_name", "domain-name"),
    ("domain_search", "domain-search"), ("tftp_server", "tftp-server-name"),
    ("boot_file", "bootfile-name"), ("boot-file-name", "bootfile-name"),
    ("broadcast_address", "broadcast-address"), ("interface-mtu", "mtu"),
    ("time_offset", "time-offset"), ("tftp_server_address", "tftp-server-address")]

/-- `_KEA_OPTION_NAMES_V6` under the two spellings that each name is read from, in order. -/
def keaOptionNamesV6 : List (String × String × String) :=
  [("dns_servers", "dns-servers", "dns-servers"), ("domain_search", "domain-search", "domain-search"),
    ("ntp_servers", "ntp-servers", "sntp-servers"), ("boot_file", "bootfile-name", "bootfile-url")]

def getOption (options : Options) (key : String) : OptionValue :=
  (options.get? key.toList).getD .null

/-- The raw list that a map brings, under `option_data`. -/
def rawEntries (options : Options) : List OptionValue :=
  (listOf (getOption options "option_data")).getD []

def isRawCode (key : Chars) : Bool := "code:".toList.isPrefixOf key

section

-- Python's `str`.
variable (str : OptionValue → Chars)

def dataText : OptionValue → Chars
  | .list items => ", ".toList.intercalate (items.map str)
  | value => str value

def opt (name : String) (value : OptionValue) : OptionValue :=
  .dict ([("name".toList, .str name.toList), ("data".toList, .str (dataText str value))] ++
    match optionCodes.find? (·.1 = name) with
    | some (_, code) => [("code".toList, .int code), ("space".toList, .str "dhcp4".toList)]
    | none => [])

def codeEntry (code : ℤ) (value : OptionValue) : OptionValue :=
  .dict [("code".toList, .int code), ("data".toList, .str (dataText str value))]

def canonicalizeV4 (options : Options) : Options :=
  legacyOptionAliasesV4.foldl
    (fun out (spelling, canon) =>
      match out.get? canon.toList, options.get? spelling.toList with
      | none, some value => out.set canon.toList value
      | _, _ => out)
    (options.keep fun key _ => keaOptionNamesV4.any (·.1.toList = key))

def optionsFromMapping : Option Options → List OptionValue
  | none => []
  | some options =>
    if options.items = [] then []
    else
      let canon := canonicalizeV4 options
      (keaOptionNamesV4.filterMap fun (name, keaName) =>
        let val := getOption canon name
        if isUnset val then none else some (opt str keaName val)) ++
      (options.items.filterMap fun (key, val) =>
        if isRawCode key then
          -- a key that `int` refuses is passed over
          (Text.parseInt (String.ofList (key.drop 5))).map fun code => codeEntry str code val
        else none) ++
      rawEntries options

def optionsFromMappingV6 : Option Options → List OptionValue
  | none => []
  | some options =>
    if options.items = [] then []
    else
      (keaOptionNamesV6.filterMap fun (first, second, keaName) =>
        let val := if truthy (getOption options first) then getOption options first
          else getOption options second
        if isUnset val then none
        else some (.dict [("name".toList, .str keaName.toList),
          ("data".toList, .str (dataText str val))])) ++
      rawEntries options

end

variable {str : OptionValue → Chars} {options : Options}

@[simp]
theorem entryName_opt (name : String) (value : OptionValue) :
    entryName (opt str name value) = some name.toList := by
  simp [entryName, member, opt]

theorem entryName_codeEntry (code : ℤ) (value : OptionValue) :
    entryName (codeEntry str code value) = none := by
  simp [entryName, member, codeEntry]

/-- The raw entries that a map brings, if there is a map. -/
def rawEntriesOf (options : Option Options) : List OptionValue := options.elim [] rawEntries

/-- Whether a map sets the option of a canonical name, under any of its spellings. -/
def sets (name : String) (options : Option Options) : Bool :=
  options.any fun options => ! isUnset (getOption (canonicalizeV4 options) name)

section

variable (h : options.items = [])
include h

theorem getOption_of_items_nil (key : String) : getOption options key = .null := by
  rw [getOption, Dict.get?, h]
  rfl

theorem rawEntries_of_items_nil : rawEntries options = [] := by
  rw [rawEntries, getOption_of_items_nil h]
  rfl

theorem canonicalizeV4_of_items_nil (key : String) :
    getOption (canonicalizeV4 options) key = .null := by
  have hkept : (options.keep fun key _ => keaOptionNamesV4.any (·.1.toList = key)).items = [] := by
    simp [Dict.keep, h]
  have hstep : ∀ (aliases : List (String × String)) (out : Options), out.items = [] →
      (aliases.foldl
        (fun out (spelling, canon) =>
          match out.get? canon.toList, options.get? spelling.toList with
          | none, some value => out.set canon.toList value
          | _, _ => out) out).items = [] := by
    intro aliases
    induction aliases with
    | nil => exact fun out hout => hout
    | cons pair aliases ih =>
      intro out hout
      have hnone : options.get? pair.1.toList = none := by rw [Dict.get?, h]; rfl
      exact ih _ (by simpa [hnone] using hout)
  exact getOption_of_items_nil (hstep _ _ hkept) key

end

theorem name_of_mem_optionsFromMapping {options : Option Options} {name : Chars}
    (h : entry ∈ optionsFromMapping str options) (hname : entryName entry = some name) :
    (∃ p ∈ keaOptionNamesV4, sets p.1 options = true ∧ name = p.2.toList) ∨
      entry ∈ rawEntriesOf options := by
  cases options with
  | none => cases h
  | some options =>
    rw [optionsFromMapping] at h
    split at h
    · cases h
    · simp only [List.mem_append, List.mem_filterMap] at h
      rcases h with (⟨p, hp, hentry⟩ | ⟨item, -, hentry⟩) | hraw
      · obtain ⟨hset, hentry⟩ := Option.ite_none_left_eq_some.mp hentry
        obtain rfl := Option.some.inj hentry
        rw [entryName_opt, Option.some.injEq] at hname
        exact .inl ⟨p, hp, by simpa [sets] using hset, hname.symm⟩
      · split at hentry
        · obtain ⟨code, -, rfl⟩ := Option.map_eq_some_iff.mp hentry
          rw [entryName_codeEntry] at hname
          cases hname
        · cases hentry
      · exact .inr hraw

theorem mem_optionsFromMapping_of_raw {options : Option Options} (h : entry ∈ rawEntriesOf options) :
    entry ∈ optionsFromMapping str options := by
  cases options with
  | none => cases h
  | some options =>
    rw [optionsFromMapping]
    split
    next hnil =>
      rw [rawEntriesOf, Option.elim_some, rawEntries_of_items_nil hnil] at h
      cases h
    · exact List.mem_append_right _ h

theorem exists_mem_of_sets (str : OptionValue → Chars) {options : Option Options} {p : String × String}
    (hp : p ∈ keaOptionNamesV4) (h : sets p.1 options = true) :
    ∃ entry ∈ optionsFromMapping str options, entryName entry = some p.2.toList := by
  cases options with
  | none => cases h
  | some options =>
    have hset : isUnset (getOption (canonicalizeV4 options) p.1) = false := by
      simpa [sets] using h
    refine ⟨opt str p.2 (getOption (canonicalizeV4 options) p.1), ?_, entryName_opt _ _⟩
    rw [optionsFromMapping]
    split
    next hnil =>
      rw [canonicalizeV4_of_items_nil hnil] at hset
      cases hset
    · refine List.mem_append_left _ (List.mem_append_left _ (List.mem_filterMap.mpr ⟨p, hp, ?_⟩))
      simp [hset]

def withoutRawCodes (options : Options) : Options := options.keep fun key _ => ! isRawCode key

theorem getOption_withoutRawCodes (options : Options) {key : String}
    (h : isRawCode key.toList = false) :
    getOption (withoutRawCodes options) key = getOption options key := by
  rw [getOption, withoutRawCodes, Dict.get?_keep, h, getOption]
  cases options.get? key.toList <;> rfl

theorem optionsFromMappingV6_some (options : Options) :
    optionsFromMappingV6 str (some options) =
      (keaOptionNamesV6.filterMap fun (first, second, keaName) =>
        let val := if truthy (getOption options first) then getOption options first
          else getOption options second
        if isUnset val then none
        else some (.dict [("name".toList, .str keaName.toList),
          ("data".toList, .str (dataText str val))])) ++
      rawEntries options := by
  rw [optionsFromMappingV6]
  split
  next hnil =>
    rw [rawEntries_of_items_nil hnil]
    simp [getOption_of_items_nil hnil, truthy, isUnset]
  · rfl

theorem optionsFromMappingV6_withoutRawCodes (options : Option Options) :
    optionsFromMappingV6 str (options.map withoutRawCodes) = optionsFromMappingV6 str options := by
  cases options with
  | none => rfl
  | some options =>
    have hget : ∀ key ∈ ["dns_servers", "dns-servers", "domain_search", "domain-search",
        "ntp_servers", "ntp-servers", "boot_file", "bootfile-name", "option_data"],
        getOption (withoutRawCodes options) key = getOption options key := by
      intro key hkey
      refine getOption_withoutRawCodes options ?_
      fin_cases hkey <;> decide
    rw [Option.map_some, optionsFromMappingV6_some, optionsFromMappingV6_some, rawEntries,
      rawEntries, hget "option_data" (by simp)]
    congr 1
    simp only [keaOptionNamesV6, List.filterMap_cons, List.filterMap_nil]
    rw [hget "dns_servers" (by simp), hget "dns-servers" (by simp), hget "domain_search" (by simp),
      hget "domain-search" (by simp), hget "ntp_servers" (by simp), hget "ntp-servers" (by simp),
      hget "boot_file" (by simp), hget "bootfile-name" (by simp)]

end SpatiumDdi.Dhcp.Kea
