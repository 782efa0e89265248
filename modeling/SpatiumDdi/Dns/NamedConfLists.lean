import SpatiumDdi.Appliance.NetworkText
import SpatiumDdi.Dns.Caa
import SpatiumDdi.Dns.MatchList
import SpatiumDdi.Lib.ConfText

/-!
The validators of address lists in `services/dns/named_conf_validation.py`: address-match lists,
forwarders and servers to notify. An error keeps what it names; its wording is left out.
-/

namespace SpatiumDdi.Dns.MatchList

open Text Ipaddress
open Appliance (splitOptionalNetmask makeNetmask masked ipNetwork)
open Caa (splitSpace)

inductive Complaint where
  | emptyEntry
  | bareNegation
  | unknownKey (name : Chars)
  | badPrefix (body : Chars)
  | hostBits (body : Chars)
  | maskAsAddress (body : Chars)
  | badEntry (body : Chars)
  | unknownAcl (name : Chars)
  | badPort (port : Chars)
  | badAddress (ip : Chars)
  | badNotify (raw : Chars)
  | mixedNone

structure ViewValidationError where
  complaint : Complaint
  field : Chars
  value : Chars

structure Names where
  knownAcls : List Chars
  knownKeys : List Chars

/-- The network a text reads as, with the bits below its prefix. -/
def networkOf (s : Chars) : Option (Version × ℕ × ℕ) :=
  (splitOptionalNetmask s).bind fun (addr, mask) =>
    let read := fun (version : Version) (parse : Chars → Option ℕ) =>
      (parse addr).bind fun n => (makeNetmask version mask).map fun p => (version, n, p)
    (read .v4 parseIPv4).or (read .v6 parseIPv6)

def afterSlash (s : Chars) : Chars := (s.dropWhile (· ≠ '/')).tail

def hasHostBits : Version × ℕ × ℕ → Bool
  | (version, n, p) => masked version n p ≠ n

def bind9RefusedPrefix (element : Chars) : Option (Version × ℕ × ℕ) :=
  let body := bodyOf (stripChars element)
  if '/' ∉ body then none
  else
    (networkOf body).bind fun network =>
      let length := afterSlash body
      if length = [] ∨ length.any (fun c => !c.isDigit) then some network
      else if hasHostBits network then some network
      else none

/-- `_validate_element`, of a stripped element without its negation. -/
def checkBody (names : Names) (allowUnknownNames allowBind9RefusedPrefixes : Bool) (body : Chars) :
    Except Complaint Unit :=
  if isBuiltin body then .ok ()
  else
    match keyName body with
    | some name =>
      if !allowUnknownNames && !names.knownKeys.contains name then .error (.unknownKey name)
      else .ok ()
    | none =>
      if '/' ∈ body then
        match networkOf body with
        | none => .error (.badPrefix body)
        | some _ =>
          match if allowBind9RefusedPrefixes then none else bind9RefusedPrefix body with
          | some network =>
            .error (if hasHostBits network then .hostBits body else .maskAsAddress body)
          | none => .ok ()
      else if isAddress body then .ok ()
      else if !isAclName body then .error (.badEntry body)
      else if !allowUnknownNames && !names.knownAcls.contains body then .error (.unknownAcl body)
      else .ok ()

def validateElement (names : Names) (allowUnknownNames allowBind9RefusedPrefixes : Bool)
    (element : Chars) : Except Complaint Unit :=
  let raw := stripChars element
  if raw = [] then .error .emptyEntry
  else if bodyOf raw = [] then .error .bareNegation
  else checkBody names allowUnknownNames allowBind9RefusedPrefixes (bodyOf raw)

def atElement {α : Type} (field element : Chars) (result : Except Complaint α) :
    Except ViewValidationError α :=
  result.mapError fun complaint => ⟨complaint, field, element⟩

def validateAddressMatchList (names : Names) (field : Chars)
    (allowUnknownNames allowBind9RefusedPrefixes : Bool) (elements : List Chars) :
    Except ViewValidationError (List Chars) :=
  elements.mapM fun element => do
    atElement field element
      (validateElement names allowUnknownNames allowBind9RefusedPrefixes element)
    return stripChars element

def validateAclEntries (names : Names) (field : Chars) (entries : List Chars) :
    Except ViewValidationError (List Chars) :=
  validateAddressMatchList names field false false entries

def isPort (port : Chars) : Bool :=
  port ≠ [] && port.all Char.isDigit &&
    (parseInt (String.ofList port)).any fun n => decide (1 ≤ n ∧ n ≤ 65535)

/-- `str.partition("@")`, without the part for the separator. -/
def partitionAt (s : Chars) : Chars × Option Chars :=
  (s.takeWhile (· ≠ '@'), match s.dropWhile (· ≠ '@') with
    | [] => none
    | _ :: port => some port)

def validateForwarder (element : Chars) : Except Complaint Chars :=
  let raw := stripChars element
  let (ip, port) := partitionAt raw
  if !isAddress (stripChars ip) then .error (.badAddress (stripChars ip))
  else
    match port with
    | none => .ok raw
    | some port =>
      if !isPort (stripChars port) then .error (.badPort (stripChars port)) else .ok raw

def validateForwarders (field : Chars) (elements : List Chars) :
    Except ViewValidationError (List Chars) :=
  elements.mapM fun element => atElement field element (validateForwarder element)

/-- What follows the address of a server to notify. -/
def notifyKey (names : Names) (raw : Chars) : List Chars → Except Complaint Unit
  | [] => .ok ()
  | [word, name] =>
    if word = "key".toList then
      if names.knownKeys.contains name then .ok () else .error (.unknownKey name)
    else .error (.badNotify raw)
  | _ => .error (.badNotify raw)

def notifyRest (names : Names) (raw : Chars) : List Chars → Except Complaint Unit
  | word :: port :: rest =>
    if word = "port".toList then
      if isPort port then notifyKey names raw rest else .error (.badPort port)
    else notifyKey names raw (word :: port :: rest)
  | rest => notifyKey names raw rest

def validateNotify (names : Names) (element : Chars) : Except Complaint Chars :=
  let raw := stripChars element
  match splitSpace raw with
  | [] => .error .emptyEntry
  | ip :: rest =>
    if !isAddress ip then .error (.badAddress ip)
    else do
      notifyRest names raw rest
      return [' '].intercalate (ip :: rest)

def validateAlsoNotify (names : Names) (field : Chars) (elements : List Chars) :
    Except ViewValidationError (List Chars) :=
  elements.mapM fun element => atElement field element (validateNotify names element)

def refuseMixedNone (field : Chars) (elements : List Chars) : Except ViewValidationError Unit :=
  if elements.length < 2 then .ok ()
  else
    match elements.find? fun element => (bodyOf element).map Char.toLower = "none".toList with
    | some element => .error ⟨.mixedNone, field, element⟩
    | none => .ok ()

/-- The options of `validate_server_option` that hold lists: those of
`ADDRESS_MATCH_LIST_OPTIONS`, and two more. -/
inductive ListOption where
  | allowQuery
  | allowQueryCache
  | allowRecursion
  | allowTransfer
  | allowNotify
  | blackhole
  | rrlExemptClients
  | forwarders
  | alsoNotify
deriving DecidableEq

def ListOption.field : ListOption → Chars
  | allowQuery => "allow_query".toList
  | allowQueryCache => "allow_query_cache".toList
  | allowRecursion => "allow_recursion".toList
  | allowTransfer => "allow_transfer".toList
  | allowNotify => "allow_notify".toList
  | blackhole => "blackhole".toList
  | rrlExemptClients => "rrl_exempt_clients".toList
  | forwarders => "forwarders".toList
  | alsoNotify => "also_notify".toList

/-- `validate_server_option`, of an option that holds a list. -/
def validateServerOption (names : Names) (option : ListOption) (value : List Chars) :
    Except ViewValidationError (List Chars) :=
  match option with
  | .forwarders => validateForwarders option.field value
  | .alsoNotify => validateAlsoNotify names option.field value
  | option => do
    let cleaned ← validateAddressMatchList names option.field false false value
    if option = .allowTransfer then refuseMixedNone option.field cleaned
    return cleaned

/-- `_FORWARDER_PORT_WORD_RE`: an address, the word `port` and a port, as the address and the port
around an at sign. -/
def spelledOut (element : Chars) : Chars :=
  match splitSpace (stripChars element) with
  | [ip, word, port] =>
    if word.map Char.toLower = "port".toList then ip ++ '@' :: port else stripChars element
  | _ => stripChars element

def canonicalForwarder (c : Chars) : Chars :=
  match partitionAt c with
  | (ip, none) => stripChars ip
  | (ip, some port) => stripChars ip ++ '@' :: stripChars port

def validateZoneForwarders (field : Chars) (elements : List Chars) :
    Except ViewValidationError (List Chars) := do
  let cleaned ← validateForwarders field (elements.map spelledOut)
  return cleaned.map canonicalForwarder

end SpatiumDdi.Dns.MatchList
