import SpatiumDdi.Lib.AddressText

/-!
Elements of an address-match list (`services/dns/named_conf_validation.py`): the names BIND has
built in, keys, addresses and the names of ACLs. A text is its characters.
-/

namespace SpatiumDdi.Dns.MatchList

open Text Ipaddress

def builtinAcls : List Chars := ["any".toList, "none".toList, "localhost".toList, "localnets".toList]

/-- A letter or digit of ASCII, and more characters of a class up to a length. -/
def isNameOf (extra : List Char) (longest : ℕ) : Chars → Bool
  | [] => false
  | c :: rest =>
    c.isAlphanum && rest.all (fun c => c.isAlphanum || extra.contains c) &&
      decide (rest.length < longest)

/-- `_ACL_NAME_RE`, of a text that ends in no line break. -/
def isAclName (s : Chars) : Bool := isNameOf ['.', '_', '-'] 255 s

/-- The name that `_KEY_RE` finds in a text that ends in no line break. -/
def keyName (s : Chars) : Option Chars :=
  match s with
  | 'k' :: 'e' :: 'y' :: rest =>
    let name := rest.dropWhile isSpace
    if name.length < rest.length ∧ isNameOf ['_', '.', '-'] 128 name then some name else none
  | _ => none

/-- Whether a text is a built-in name. No letter outside ASCII has one of its letters as its lower
case. -/
def isBuiltin (s : Chars) : Bool := builtinAcls.contains (s.map Char.toLower)

def isAddress (s : Chars) : Bool := (parseIPv4 s).isSome || (parseIPv6 s).isSome

/-- What a negation leaves of a stripped element. -/
def bodyOf (raw : Chars) : Chars :=
  match raw with
  | '!' :: rest => stripChars rest
  | raw => raw

def isNameReference (value : Chars) : Option Chars :=
  let body := bodyOf (stripChars value)
  if body = [] ∨ isBuiltin body ∨ (keyName body).isSome then none
  else if '/' ∈ body then none
  else if isAddress body then none
  else if isAclName body then some body else none

end SpatiumDdi.Dns.MatchList
