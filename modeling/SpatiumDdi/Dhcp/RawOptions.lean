import SpatiumDdi.Lib.AddressText
import SpatiumDdi.Lib.Dict

/-!
The option definitions that the control plane ships to Kea (`drivers/dhcp/kea.py`). Kea has none
of its own for these codes, and refuses a second one for a code.
-/

namespace SpatiumDdi.Dhcp

structure OptionDef where
  name : List Char
  code : ℕ
  space : List Char
  type : List Char
  array : Bool
  deriving DecidableEq

def vendorDef (name : String) (code : ℕ) (type : String) (array : Bool) : OptionDef :=
  ⟨name.toList, code, "dhcp4".toList, type.toList, array⟩

def keaVendorOptionDefs : List OptionDef :=
  [vendorDef "spatium-opt-43" 43 "binary" false,
    vendorDef "spatium-opt-123" 123 "binary" false,
    vendorDef "spatium-opt-132" 132 "string" false,
    vendorDef "spatium-opt-150" 150 "ipv4-address" true,
    vendorDef "spatium-opt-160" 160 "string" false,
    vendorDef "spatium-opt-161" 161 "string" false,
    vendorDef "spatium-opt-176" 176 "string" false,
    vendorDef "spatium-opt-242" 242 "string" false]

def keaOptionDefs : List OptionDef := [vendorDef "tftp-server-address" 150 "ipv4-address" true]

def vendorDefOf (code : ℕ) : Option OptionDef := keaVendorOptionDefs.find? (·.code = code)

theorem vendorDefOf_le {code : ℕ} {d : OptionDef} (h : vendorDefOf code = some d) : code ≤ 254 := by
  have hall : ∀ d ∈ keaVendorOptionDefs, d.code ≤ 254 := by
    simp [keaVendorOptionDefs, vendorDef]
  have hcode : d.code = code := by simpa using List.find?_some h
  rw [← hcode]
  exact hall d (List.mem_of_find?_eq_some h)

end SpatiumDdi.Dhcp

namespace SpatiumDdi.Dhcp.RawOptions

abbrev Chars := List Char

inductive OptionValue where
  | null
  | bool (b : Bool)
  | int (n : ℤ)
  | float (bits : UInt64)
  | str (s : Chars)
  | list (items : List OptionValue)
  | dict (members : List (Chars × OptionValue))

inductive Family where
  | ipv4
  | ipv6
  | dual
  deriving DecidableEq

/-- `RAW_CODES_KEA`, `RAW_CODES_WINDOWS` and `RAW_CODES_NONE`. -/
inductive Spelling where
  | code
  | opt
  | none
  deriving DecidableEq

/-- The `ValueError` of a check. -/
inductive Refusal where
  | notSingle
  | needsAddress
  | notAddress (item : OptionValue)
  | notString
  | blank
  | controlCharacters
  | notHex
  | prefixOrSeparators
  | oddHex
  | v4Only
  | noSpelling
  | windowsSpelling
  | keaSpelling
  | noDefinition (code : ℕ)
  | noValue

def isUnset : OptionValue → Bool
  | .null => true
  | .str s => s.isEmpty
  | .list items => items.isEmpty
  | _ => false

def items : OptionValue → List OptionValue
  | .list items => items
  | .str s => (((s.splitOn ',').map Text.stripChars).filter fun p => p ≠ []).map .str
  | value => [value]

def scalar : OptionValue → Except Refusal OptionValue
  | .list [item] => .ok item
  | .list _ => .error .notSingle
  | value => .ok value

/-- `_check_ip_list`, for version 4. -/
def checkItems (items : List OptionValue) : Except Refusal Unit :=
  if items = [] then .error .needsAddress
  else
    items.forM fun item =>
      match item with
      | .str s =>
        if (Ipaddress.parseIPv4 (Text.stripChars s)).isSome then .ok ()
        else .error (.notAddress item)
      | _ => .error (.notAddress item)

def ipv4List (value : OptionValue) : Except Refusal Unit := checkItems (items value)

def ipv4 (value : OptionValue) : Except Refusal Unit := do checkItems (items (.list [← scalar value]))

def containsControlChars (s : Chars) : Bool := s.any fun c => c.toNat ≤ 0x1F || c.toNat = 0x7F

/-- `_string`. The digits of a number are neither blank nor control characters, but `str` refuses
too many of them. -/
def string (value : OptionValue) : Except Refusal Unit := do
  match ← scalar value with
  | .str s =>
    if Text.stripChars s = [] then .error .blank
    else if containsControlChars s then .error .controlCharacters
    else .ok ()
  | .int n => if Text.maxStrDigits < (Nat.toDigits 10 n.natAbs).length then .error .notString else .ok ()
  | _ => .error .notString

def isHexDigit (c : Char) : Bool := (Ipaddress.hexValue c).isSome

def hex (value : OptionValue) : Except Refusal Unit := do
  match ← scalar value with
  | .str s =>
    if s = [] then .error .notHex
    else if ! s.all isHexDigit then .error .prefixOrSeparators
    else if s.length % 2 ≠ 0 then .error .oddHex
    else .ok ()
  | _ => .error .notHex

def rawCodeCheck (spec : OptionDef) : OptionValue → Except Refusal Unit :=
  if spec.type = "binary".toList then hex
  else if spec.type = "ipv4-address".toList then if spec.array then ipv4List else ipv4
  else string

def refuseRawSpelling : Spelling → Except Refusal Unit
  | .none => .error .noSpelling
  | .opt => .error .windowsSpelling
  | .code => .ok ()

/-- `_check_one`, for the key `code:NN`. -/
def checkOne (code : ℕ) (value : OptionValue) (addressFamily : Family) (rawCodes : Spelling) :
    Except Refusal Unit :=
  if addressFamily = .ipv6 then .error .v4Only
  else do
    refuseRawSpelling rawCodes
    match vendorDefOf code with
    | none => .error (.noDefinition code)
    | some spec => if isUnset value then .error .noValue else rawCodeCheck spec value

/-- A match of `(\d+)`. -/
def decimals (s : Chars) : Option (List ℕ) := if s = [] then none else s.mapM Text.decimal

def rawCode (key : Chars) : Option (List ℕ) :=
  if "code:".toList <+: key then decimals (key.drop 5) else none

def windowsCode (key : Chars) : Option (List ℕ) :=
  if "opt-".toList <+: key then decimals (key.drop 4) else none

def codeDigits (key : Chars) : Option (List ℕ) := (rawCode key).or (windowsCode key)

def isCodeKey (key : Chars) : Bool := (codeDigits key).isSome

def ofDecimals (digits : List ℕ) : ℕ := digits.foldl (fun n d => n * 10 + d) 0

structure ValueError where

def intOf (digits : List ℕ) : Except ValueError ℕ :=
  if Text.maxStrDigits < digits.length then .error ⟨⟩ else .ok (ofDecimals digits)

def optKey (code : ℕ) : Chars := "opt-".toList ++ Nat.toDigits 10 code

def codeKey (code : ℕ) : Chars := "code:".toList ++ Nat.toDigits 10 code

abbrev Options := Dict Chars OptionValue

def rawCodeKeys (options : Options) : List Chars := options.keys.filter isCodeKey

def rawKeysDroppedBy (options : Options) (rawCodes : Spelling) : List Chars :=
  (rawCodeKeys options).filter fun key =>
    rawCodes = .none ∨ ("opt-".toList <+: key ∧ rawCodes ≠ .opt) ∨
      ("code:".toList <+: key ∧ rawCodes = .opt)

section Rekey

variable (addressFamily : Family) (rawCodes : Spelling)

/-- The key that one turn of the loop stores a value under, `none` for a dropped key. -/
def rekeyOne (key : Chars) (value : OptionValue) : Except ValueError (Option Chars) :=
  match codeDigits key with
  | none => .ok (some key)
  | some digits => do
    let code ← intOf digits
    if addressFamily ≠ .ipv4 ∨ rawCodes = .none then return none
    if rawCodes = .opt then
      return if 1 ≤ code ∧ code ≤ 254 then some (optKey code) else none
    match checkOne code value addressFamily rawCodes with
    | .ok _ => return some (codeKey code)
    | .error _ => return none

def rekeyStep (acc : Options × List Chars) (item : Chars × OptionValue) :
    Except ValueError (Options × List Chars) := do
  match ← rekeyOne addressFamily rawCodes item.1 item.2 with
  | some target => return (acc.1.set target item.2, acc.2)
  | none => return (acc.1, acc.2 ++ [item.1])

def rekeyRawOptions (options : Options) : Except ValueError (Options × List Chars) :=
  options.items.foldlM (rekeyStep addressFamily rawCodes) (Dict.empty, [])

end Rekey

end SpatiumDdi.Dhcp.RawOptions
