import Mathlib.Data.List.Sort
import Mathlib.Data.String.Basic
import SpatiumDdi.Lib.Dict
import SpatiumDdi.Lib.Escaped

/-!
InfluxDB's line protocol (`services/influxdb/line_protocol.py`): how a batch of points is rendered,
and the grammar that it is read by. A text is its characters.
-/

namespace SpatiumDdi.Influxdb

open Escaped

abbrev Chars := List Char

inductive FieldValue (F : Type) where
  | bool (b : Bool)
  | int (n : ℤ)
  | float (x : F)
  | str (s : Chars)

structure Point (F : Type) where
  measurement : Chars
  tags : Dict Chars Chars
  fields : Dict Chars (FieldValue F)
  timestamp : ℤ

structure NoFields where
  measurement : Chars

def measurementEscapes (c : Char) : Bool := c = ',' || c = ' '

def keyEscapes (c : Char) : Bool := c = ',' || c = '=' || c = ' '

/-- What `_apply` makes of line breaks. -/
def cleaned (s : Chars) : Chars := s.map fun c => if c = '\n' ∨ c = '\r' then ' ' else c

def escapeMeasurement (s : Chars) : Chars := escape measurementEscapes (cleaned s)

def escapeKey (s : Chars) : Chars := escape keyEscapes (cleaned s)

def stringEscapes (c : Char) : Bool := c = '\\' || c = '"'

def formatStringField (s : Chars) : Chars := '"' :: (escape stringEscapes (cleaned s) ++ ['"'])

def intText (n : ℤ) : Chars :=
  if n < 0 then '-' :: Nat.toDigits 10 n.natAbs else Nat.toDigits 10 n.natAbs

section

variable {F : Type} (repr : F → Chars)

def formatFieldValue : FieldValue F → Chars
  | .bool b => if b then "true".toList else "false".toList
  | .int n => intText n ++ ['i']
  | .float x => repr x
  | .str s => formatStringField s

/-- `sorted(items)`: no two items have the same key. -/
def sortedItems {α : Type} (d : Dict Chars α) : List (Chars × α) :=
  d.items.insertionSort fun a b => a.1 ≤ b.1

def keptTags (p : Point F) : List (Chars × Chars) :=
  (sortedItems p.tags).filter fun tag => tag.2 ≠ []

def tagText (tag : Chars × Chars) : Chars := escapeKey tag.1 ++ '=' :: escapeKey tag.2

def fieldText (field : Chars × FieldValue F) : Chars :=
  escapeKey field.1 ++ '=' :: formatFieldValue repr field.2

def renderPoint (p : Point F) : Except NoFields Chars :=
  if p.fields.items = [] then .error ⟨p.measurement⟩
  else
    let head := escapeMeasurement p.measurement
    let tagParts := (keptTags p).map tagText
    let head := if tagParts ≠ [] then head ++ ',' :: [','].intercalate tagParts else head
    let fieldParts := (sortedItems p.fields).map (fieldText repr)
    .ok (head ++ ' ' :: ([','].intercalate fieldParts ++ ' ' :: intText p.timestamp))

def renderBatch (points : List (Point F)) : Except NoFields Chars := do
  let lines ← points.mapM (renderPoint repr)
  return ['\n'].intercalate lines

end

structure Read (F : Type) where
  measurement : Chars
  tags : List (Chars × Chars)
  fields : List (Chars × FieldValue F)
  timestamp : ℤ

/-- The characters that a backslash escapes outside string fields. -/
def escapable (c : Char) : Bool := c = ',' || c = '=' || c = ' '

def endsMeasurement (c : Char) : Bool := c = ',' || c = ' ' || c = '\n'

/-- What ends a key or a tag's value. -/
def endsKey (c : Char) : Bool := c = ',' || c = '=' || c = ' ' || c = '\n'

def endsString (c : Char) : Bool := c = '"'

def endsValue (c : Char) : Bool := c = ',' || c = ' ' || c = '\n'

def readInt (s : Chars) : Option ℤ :=
  match s with
  | '-' :: digits => (readNat digits).map fun n : ℕ => -(n : ℤ)
  | digits => (readNat digits).map fun n : ℕ => (n : ℤ)
where
  readNat (digits : Chars) : Option ℕ :=
    if digits ≠ [] ∧ digits.all Char.isDigit then some (Nat.ofDigitChars 10 digits 0) else none

abbrev IsInt64 (n : ℤ) : Prop := -0x8000000000000000 ≤ n ∧ n < 0x8000000000000000

section

variable {F : Type} (readFloat : Chars → Option F)

def readBare (s : Chars) : Option (FieldValue F) :=
  if s = "true".toList then some (.bool true)
  else if s = "false".toList then some (.bool false)
  else if s.getLast? = some 'i' then
    ((readInt s.dropLast).filter fun n => IsInt64 n).map .int
  else (readFloat s).map .float

def readValue : Chars → Option (FieldValue F × Chars)
  | '"' :: s =>
    match scan stringEscapes endsString s with
    | (token, '"' :: rest) => some (.str token, rest)
    | _ => none
  | s => (readBare readFloat (s.takeWhile fun c => ! endsValue c)).map fun value =>
      (value, s.dropWhile fun c => ! endsValue c)

def readTags : ℕ → Chars → Option (List (Chars × Chars) × Chars)
  | fuel + 1, ',' :: s =>
    match scan escapable endsKey s with
    | (key, '=' :: s) =>
      let (value, rest) := scan escapable endsKey s
      if key = [] then none
      else (readTags fuel rest).map fun (tags, rest) => ((key, value) :: tags, rest)
    | _ => none
  | _, s => some ([], s)

def readFields : ℕ → Chars → Option (List (Chars × FieldValue F) × Chars)
  | 0, _ => none
  | fuel + 1, s =>
    match scan escapable endsKey s with
    | (key, '=' :: s) =>
      if key = [] then none
      else
        match readValue readFloat s with
        | some (value, ',' :: rest) =>
          (readFields fuel rest).map fun (fields, rest) => ((key, value) :: fields, rest)
        | some (value, rest) => some ([(key, value)], rest)
        | none => none
    | _ => none

def readPoint (s : Chars) : Option (Read F × Chars) :=
  let (measurement, s) := scan escapable endsMeasurement s
  if measurement = [] then none
  else do
    let (tags, s) ← readTags s.length s
    match s with
    | ' ' :: s => do
      let (fields, s) ← readFields readFloat s.length s
      match s with
      | ' ' :: s => do
        let timestamp ← readInt (s.takeWhile (· ≠ '\n'))
        return (⟨measurement, tags, fields, timestamp⟩, s.dropWhile (· ≠ '\n'))
      | _ => none
    | _ => none

def readBatch : ℕ → Chars → Option (List (Read F))
  | 0, _ => none
  | fuel + 1, s =>
    match readPoint readFloat s with
    | some (p, []) => some [p]
    | some (p, _ :: rest) => (readBatch fuel rest).map (p :: ·)
    | none => none

end

end SpatiumDdi.Influxdb
