import SpatiumDdi.Lib.Text
import SpatiumDdi.Lib.Utf8

/-!
Python's `csv.reader` with its default dialect, over the lines of a text, and the texts it
reads back exactly: rows of plain fields, joined by commas and each ended by a newline.
-/

namespace SpatiumDdi.Csv

inductive ReaderState where
  | startRecord
  | startField
  | inField
  | inQuotedField
  | quoteInQuotedField
  | eatCrnl
  deriving DecidableEq

structure Reader where
  state : ReaderState := .startRecord
  field : List Char := []
  fields : List (List Char) := []

/-- The two ways `csv.Error` is raised: a field over the limit, and a line ending in the middle
of a line. -/
inductive ReadError where
  | fieldLimit
  | newLine
  deriving DecidableEq

def fieldLimit : Nat := 131072

def Reader.saveField (r : Reader) (next : ReaderState) : Reader :=
  { state := next, field := [], fields := r.fields ++ [r.field] }

def Reader.addChar (r : Reader) (c : Char) (next : ReaderState) : Except ReadError Reader :=
  if r.field.length < fieldLimit then .ok { r with state := next, field := r.field ++ [c] }
  else .error .fieldLimit

def isNewline (c : Char) : Bool := c == '\n' || c == '\r'

/-- One character of a line, `none` being the end of the line. -/
def Reader.processChar (r : Reader) (c : Option Char) : Except ReadError Reader :=
  match r.state, c with
  | .startRecord, none => .ok r
  | .startRecord, some c =>
    if isNewline c then .ok { r with state := .eatCrnl } else atField r c
  | .startField, none => .ok (r.saveField .startRecord)
  | .startField, some c => atField r c
  | .inField, none => .ok (r.saveField .startRecord)
  | .inField, some c =>
    if isNewline c then .ok (r.saveField .eatCrnl)
    else if c == ',' then .ok (r.saveField .startField)
    else r.addChar c .inField
  | .inQuotedField, none => .ok r
  | .inQuotedField, some c =>
    if c == '"' then .ok { r with state := .quoteInQuotedField } else r.addChar c .inQuotedField
  | .quoteInQuotedField, none => .ok (r.saveField .startRecord)
  | .quoteInQuotedField, some c =>
    if c == '"' then r.addChar c .inQuotedField
    else if c == ',' then .ok (r.saveField .startField)
    else if isNewline c then .ok (r.saveField .eatCrnl)
    else r.addChar c .inField
  | .eatCrnl, none => .ok { r with state := .startRecord }
  | .eatCrnl, some c => if isNewline c then .ok r else .error .newLine
where
  atField (r : Reader) (c : Char) : Except ReadError Reader :=
    if isNewline c then .ok (r.saveField .eatCrnl)
    else if c == '"' then .ok { r with state := .inQuotedField }
    else if c == ',' then .ok (r.saveField .startField)
    else r.addChar c .inField

def Reader.processChars (r : Reader) : List (Option Char) → Except ReadError Reader
  | [] => .ok r
  | c :: cs => (r.processChar c).bind fun r => r.processChars cs

def lines : List Char → List (List Char)
  | [] => []
  | c :: rest =>
    if c = '\n' then [c] :: lines rest
    else match lines rest with
      | [] => [[c]]
      | line :: others => (c :: line) :: others

/-- The records of the lines, the reader having stopped in the middle of one. -/
def Reader.records (r : Reader) : List (List Char) → Except ReadError (List (List (List Char)))
  | [] =>
    if r.field ≠ [] ∨ r.state = .inQuotedField then .ok [(r.saveField .startRecord).fields]
    else .ok []
  | line :: rest =>
    (r.processChars (line.map some ++ [none])).bind fun r =>
      if r.state = .startRecord then (records {} rest).map (r.fields :: ·) else r.records rest

def rows (data : List Char) : Except ReadError (List (List (List Char))) :=
  Reader.records {} (lines data)

/-- The pieces with `sep` between two of them and `stop` after the last. -/
def joined {α : Type} (sep stop : α) : List (List α) → List α
  | [] => [stop]
  | [f] => f ++ [stop]
  | f :: g :: rest => f ++ sep :: joined sep stop (g :: rest)

structure Plain (f : List Char) : Prop where
  comma : ',' ∉ f
  newline : ∀ c ∈ f, isNewline c = false
  quote : f.head? ≠ some '"'
  short : f.length ≤ fieldLimit

theorem Reader.processChars_append (r : Reader) (cs ds : List (Option Char)) :
    r.processChars (cs ++ ds) = (r.processChars cs).bind fun r => r.processChars ds := by
  induction cs generalizing r with
  | nil => rfl
  | cons c cs ih =>
    rw [List.cons_append, processChars, processChars]
    cases r.processChar c with
    | error e => rfl
    | ok r' => exact ih r'

theorem lines_append_newline {line : List Char} (h : '\n' ∉ line) (rest : List Char) :
    lines (line ++ '\n' :: rest) = (line ++ ['\n']) :: lines rest := by
  induction line with
  | nil => simp [lines]
  | cons c line ih =>
    have hc : c ≠ '\n' := fun hc => h (hc ▸ List.mem_cons_self)
    have hline : '\n' ∉ line := fun hmem => h (List.mem_cons_of_mem _ hmem)
    rw [List.cons_append, lines, if_neg hc, ih hline]
    rfl

variable {r : Reader}

theorem Reader.processChars_inField (hstate : r.state = .inField) {cs : List Char}
    (hcomma : ',' ∉ cs) (hnewline : ∀ c ∈ cs, isNewline c = false)
    (hshort : r.field.length + cs.length ≤ fieldLimit) :
    r.processChars (cs.map some) = .ok { r with field := r.field ++ cs } := by
  induction cs generalizing r with
  | nil => simp [processChars]
  | cons c cs ih =>
    have hc : c ≠ ',' := fun hc => hcomma (hc ▸ List.mem_cons_self)
    have hn : isNewline c = false := hnewline c List.mem_cons_self
    rw [List.length_cons] at hshort
    have hstep : r.processChar (some c) = .ok { r with field := r.field ++ [c] } := by
      simp only [processChar, hstate, hn, Bool.false_eq_true, if_false, beq_iff_eq, hc, addChar]
      rw [if_pos (by omega)]
    rw [List.map_cons, processChars, hstep, Except.bind,
      ih (by exact hstate) (fun hmem => hcomma (List.mem_cons_of_mem _ hmem))
        (fun d hd => hnewline d (List.mem_cons_of_mem _ hd)) (by
          simp only [List.length_append, List.length_singleton]
          omega)]
    simp

def Reader.AtField (r : Reader) : Prop :=
  (r.state = .startRecord ∨ r.state = .startField) ∧ r.field = []

variable {f : List Char} {fields : List (List Char)}

theorem Reader.processChars_plain (hr : r.AtField) (hf : Plain f) :
    ∃ state, (state = r.state ∨ state = .inField) ∧
      r.processChars (f.map some) = .ok { r with state := state, field := f } := by
  obtain ⟨hstate, hfield⟩ := hr
  cases f with
  | nil => exact ⟨r.state, Or.inl rfl, by rw [List.map_nil, processChars, ← hfield]⟩
  | cons c f =>
    have hc : c ≠ ',' := fun hc => hf.comma (hc ▸ List.mem_cons_self)
    have hq : c ≠ '"' := fun hq => hf.quote (hq ▸ rfl)
    have hn : isNewline c = false := hf.newline c List.mem_cons_self
    have hshort := hf.short
    rw [List.length_cons] at hshort
    have hat : processChar.atField r c = .ok { r with state := .inField, field := [c] } := by
      simp only [processChar.atField, hn, Bool.false_eq_true, if_false, beq_iff_eq, hc, hq, addChar,
        hfield]
      rw [if_pos (by change 0 < fieldLimit; decide), List.nil_append]
    have hstep : r.processChar (some c) = .ok { r with state := .inField, field := [c] } := by
      rcases hstate with hstate | hstate
      · simp only [processChar, hstate, hn, Bool.false_eq_true, if_false]
        exact hat
      · simp only [processChar, hstate]
        exact hat
    refine ⟨.inField, Or.inr rfl, ?_⟩
    rw [List.map_cons, processChars, hstep, Except.bind,
      processChars_inField rfl (fun hmem => hf.comma (List.mem_cons_of_mem _ hmem))
        (fun d hd => hf.newline d (List.mem_cons_of_mem _ hd)) (by
          simp only [List.length_singleton]
          omega)]
    rfl

theorem Reader.processChar_comma
    (h : (r.state = .startRecord ∨ r.state = .startField) ∨ r.state = .inField) :
    r.processChar (some ',') = .ok (r.saveField .startField) := by
  rcases h with (h | h) | h <;> simp [processChar, h, processChar.atField, isNewline]

theorem Reader.processChar_newline (h : r.state = .startField ∨ r.state = .inField) :
    r.processChar (some '\n') = .ok (r.saveField .eatCrnl) := by
  rcases h with h | h <;> simp [processChar, h, processChar.atField, isNewline]

theorem Reader.processChars_field (hr : r.AtField) (hf : Plain f) :
    r.processChars ((f ++ [',']).map some) =
      .ok { state := .startField, field := [], fields := r.fields ++ [f] } := by
  obtain ⟨state, hstate, hrun⟩ := r.processChars_plain hr hf
  have hcomma : ({ r with state := state, field := f } : Reader).processChar (some ',') =
      .ok { state := .startField, field := [], fields := r.fields ++ [f] } := by
    apply processChar_comma
    rcases hstate with rfl | rfl
    · exact Or.inl hr.1
    · exact Or.inr rfl
  rw [List.map_append, processChars_append, hrun]
  simp only [Except.bind, List.map_cons, List.map_nil, processChars, hcomma]

theorem Reader.processChars_last (hr : r.AtField) (hstart : r.state = .startField) (hf : Plain f) :
    r.processChars ((f ++ ['\n']).map some ++ [none]) =
      .ok { state := .startRecord, field := [], fields := r.fields ++ [f] } := by
  obtain ⟨state, hstate, hrun⟩ := r.processChars_plain hr hf
  have hnewline : ({ r with state := state, field := f } : Reader).processChar (some '\n') =
      .ok { state := .eatCrnl, field := [], fields := r.fields ++ [f] } := by
    apply processChar_newline
    rcases hstate with rfl | rfl
    · exact Or.inl hstart
    · exact Or.inr rfl
  rw [List.map_append, List.append_assoc, processChars_append, hrun]
  simp only [Except.bind, List.map_cons, List.map_nil, List.cons_append, List.nil_append,
    processChars, hnewline]
  rfl

private theorem joined_split (f g : List Char) (fields : List (List Char)) :
    (joined ',' '\n' (f :: g :: fields)).map some ++ [none] =
      (f ++ [',']).map some ++ ((joined ',' '\n' (g :: fields)).map some ++ [none]) := by
  simp [joined]

theorem Reader.processChars_joined (hr : r.AtField) (hstart : r.state = .startField)
    (hne : fields ≠ []) (hplain : ∀ f ∈ fields, Plain f) :
    r.processChars ((joined ',' '\n' fields).map some ++ [none]) =
      .ok { state := .startRecord, field := [], fields := r.fields ++ fields } := by
  induction fields generalizing r with
  | nil => exact absurd rfl hne
  | cons f fields ih =>
    have hf := hplain f List.mem_cons_self
    cases fields with
    | nil => exact r.processChars_last hr hstart hf
    | cons g fields =>
      have hrest : ∀ f ∈ g :: fields, Plain f := fun f hmem =>
        hplain f (List.mem_cons_of_mem _ hmem)
      rw [joined_split, processChars_append, r.processChars_field hr hf]
      simp only [Except.bind]
      rw [ih ⟨Or.inr rfl, rfl⟩ rfl (List.cons_ne_nil _ _) hrest, List.append_assoc]
      rfl

theorem Reader.processChars_line {g : List Char} (hplain : ∀ h ∈ f :: g :: fields, Plain h) :
    ({} : Reader).processChars ((joined ',' '\n' (f :: g :: fields)).map some ++ [none]) =
      .ok { state := .startRecord, field := [], fields := f :: g :: fields } := by
  rw [joined_split, processChars_append,
    processChars_field ⟨Or.inl rfl, rfl⟩ (hplain f List.mem_cons_self)]
  simp only [Except.bind]
  rw [processChars_joined ⟨Or.inr rfl, rfl⟩ rfl (List.cons_ne_nil _ _)
    fun h hmem => hplain h (List.mem_cons_of_mem _ hmem)]
  rfl

theorem exists_joined_eq {α : Type} (sep stop : α) (fields : List (List α)) :
    ∃ body, joined sep stop fields = body ++ [stop] ∧
      ∀ a ∈ body, a = sep ∨ ∃ f ∈ fields, a ∈ f := by
  induction fields with
  | nil => exact ⟨[], rfl, fun a ha => nomatch ha⟩
  | cons f fields ih =>
    obtain ⟨body, hbody, hmem⟩ := ih
    cases fields with
    | nil => exact ⟨f, rfl, fun a ha => Or.inr ⟨f, List.mem_cons_self, ha⟩⟩
    | cons g fields =>
      refine ⟨f ++ sep :: body, ?_, ?_⟩
      · rw [joined, hbody, List.append_assoc, List.cons_append]
      · intro a ha
        rcases List.mem_append.mp ha with ha | ha
        · exact Or.inr ⟨f, List.mem_cons_self, ha⟩
        · rcases List.mem_cons.mp ha with rfl | ha
          · exact Or.inl rfl
          · obtain hsep | ⟨h, hh, hin⟩ := hmem a ha
            · exact Or.inl hsep
            · exact Or.inr ⟨h, List.mem_cons_of_mem _ hh, hin⟩

/-- A row the reader gives back as it was written. -/
def PlainRow (fields : List (List Char)) : Prop := 2 ≤ fields.length ∧ ∀ f ∈ fields, Plain f

theorem rows_cons (h : PlainRow fields) (rest : List Char) :
    rows (joined ',' '\n' fields ++ rest) = (rows rest).map (fields :: ·) := by
  obtain ⟨hlength, hplain⟩ := h
  obtain ⟨body, hbody, hmem⟩ := exists_joined_eq ',' '\n' fields
  have hline : '\n' ∉ body := by
    intro hn
    obtain hsep | ⟨f, hf, hin⟩ := hmem _ hn
    · exact absurd hsep (by decide)
    · exact absurd ((hplain f hf).newline _ hin) (by decide)
  match fields, hlength with
  | f :: g :: fields, _ =>
    have hrun := Reader.processChars_line hplain
    rw [hbody] at hrun
    rw [rows, hbody, List.append_assoc, List.singleton_append, lines_append_newline hline,
      Reader.records, hrun]
    rfl

/-- **The reader gives plain rows back.** -/
theorem rows_flatMap (written : List (List (List Char))) (h : ∀ fields ∈ written, PlainRow fields) :
    rows (written.flatMap (joined ',' '\n')) = .ok written := by
  induction written with
  | nil => rfl
  | cons fields written ih =>
    rw [List.flatMap_cons, rows_cons (h fields List.mem_cons_self),
      ih fun fields hmem => h fields (List.mem_cons_of_mem _ hmem)]
    rfl

theorem decodeReplace_joined {sep stop : UInt8} (hsep : sep < 0x80) (hstop : stop < 0x80)
    (fields : List Utf8.Octets) (rest : Utf8.Octets) (hne : fields ≠ []) :
    Utf8.decodeReplace (joined sep stop fields ++ rest) =
      joined (Char.ofNat sep.toNat) (Char.ofNat stop.toNat) (fields.map Utf8.decodeReplace) ++
        Utf8.decodeReplace rest := by
  induction fields with
  | nil => exact absurd rfl hne
  | cons f fields ih =>
    cases fields with
    | nil =>
      rw [joined, List.append_assoc, List.singleton_append,
        Utf8.decodeReplace_append_ascii f hstop]
      simp [joined]
    | cons g fields =>
      rw [joined, List.append_assoc, List.cons_append, Utf8.decodeReplace_append_ascii f hsep,
        ih (List.cons_ne_nil _ _)]
      simp [joined]

end SpatiumDdi.Csv
