import Mathlib.Data.List.Infix
import SpatiumDdi.Lib.Lines

/-!
The redactor of a log stream (`services/support_bundle/scrub.py`). A private key arrives one line
at a time: after a BEGIN marker lines are withheld until the END, and lines that look like the
body of a key are held back until the next line tells what they were.
-/

namespace SpatiumDdi.SupportBundle

abbrev Chars := List Char

inductive Marker where
  | start
  | stop

def Marker.prefix : Marker → Chars
  | .start => "-----BEGIN ".toList
  | .stop => "-----END ".toList

def isLabelChar (c : Char) : Bool := ('A' ≤ c && c ≤ 'Z') || ('0' ≤ c && c ≤ '9') || c == ' '

/-- A match of `(?:[A-Z0-9 ]+ )?PRIVATE KEY(?: BLOCK)?`, the characters being of the class. -/
def isKeyLabel (label : Chars) : Bool :=
  ["PRIVATE KEY".toList, "PRIVATE KEY BLOCK".toList].any fun kind =>
    label == kind || ((' ' :: kind).isSuffixOf label && kind.length + 1 < label.length)

/-- A match of `_PEM_BEGIN` or `_PEM_END` here, as what follows it. -/
def matchMarker (m : Marker) (s : Chars) : Option Chars :=
  let body := s.drop m.prefix.length
  let after := body.dropWhile isLabelChar
  if m.prefix <+: s ∧ isKeyLabel (body.takeWhile isLabelChar) ∧ "-----".toList <+: after then
    some (after.drop 5)
  else
    none

/-- `_PEM_BEGIN_RE.search` or `_PEM_END_RE.search`: what is before the first match, and after. -/
def search (m : Marker) : Chars → Option (Chars × Chars)
  | [] => none
  | c :: s =>
    match matchMarker m (c :: s) with
    | some after => some ([], after)
    | none => (search m s).map fun found => (c :: found.1, found.2)

def isBase64 (c : Char) : Bool :=
  ('A' ≤ c && c ≤ 'Z') || ('a' ≤ c && c ≤ 'z') || ('0' ≤ c && c ≤ '9') || c == '+' || c == '/'

/-- A full match of `=?[A-Za-z0-9+/]{least,}={0,2}`. -/
def isToken (least : ℕ) (s : Chars) : Bool :=
  let t := if s.head? = some '=' then s.tail else s
  least ≤ (t.takeWhile isBase64).length &&
    [[], ['='], ['=', '=']].contains (t.dropWhile isBase64)

def isBodyToken (s : Chars) : Bool := isToken 16 s

def isLastToken (s : Chars) : Bool := isToken 1 s

def splitSpace (s : Chars) : List Chars := (s.splitOnP Text.isSpace).filter fun word => word ≠ []

def pemLineTail (rest : Chars) : Chars :=
  if ['\\', 'n'] <:+: rest ∨ (splitSpace rest).any isBodyToken then [] else rest

def pemMaxLines : ℕ := 256

def pemRedacted : Chars := "[REDACTED]:pem".toList

section Stream

-- A line carries where it comes from, which the source's lines do not (`Unit`).
variable {ι : Type}

structure LogStreamRedactor (ι : Type) where
  inKey : Bool
  keyLines : ℕ
  held : List (ι × Chars)

def LogStreamRedactor.new : LogStreamRedactor ι := ⟨false, 0, []⟩

-- `redact_secrets` of one line.
variable (redactSecrets : Chars → Chars)

def flush (held : List (ι × Chars)) : List (ι × Chars) :=
  held.map fun line => (line.1, redactSecrets line.2)

def couldBeBody (held : List (ι × Chars)) (line : Chars) : Bool :=
  let stripped := Text.stripChars line
  !stripped.isEmpty && held.length < pemMaxLines &&
    if held.isEmpty then isBodyToken stripped else isLastToken stripped

/-- The end of `_feed_line`: a line with no unpaired marker is held back, or sent after those that
are held. -/
def settle (st : LogStreamRedactor ι) (line : ι × Chars) :
    LogStreamRedactor ι × List (ι × Chars) :=
  if couldBeBody st.held line.2 then ({ st with held := st.held ++ [line] }, [])
  else ({ st with held := [] }, flush redactSecrets st.held ++ [(line.1, redactSecrets line.2)])

def feedOutside (st : LogStreamRedactor ι) (line : ι × Chars) :
    LogStreamRedactor ι × List (ι × Chars) :=
  match search .start line.2 with
  | some (before, after) =>
    if search .stop after = none then
      (⟨true, 0, []⟩, flush redactSecrets st.held ++
        [(line.1, redactSecrets before ++ pemRedacted ++ redactSecrets (pemLineTail after))])
    else
      settle redactSecrets st line
  | none =>
    match search .stop line.2 with
    | some (before, after) =>
      ({ st with held := [] },
        [(line.1, redactSecrets before ++ pemRedacted ++ redactSecrets after)])
    | none => settle redactSecrets st line

def feedLine (st : LogStreamRedactor ι) (line : ι × Chars) :
    LogStreamRedactor ι × List (ι × Chars) :=
  if st.inKey then
    let st := { st with keyLines := st.keyLines + 1 }
    match search .stop line.2 with
    | some (_, rest) =>
      let st := { st with inKey := false }
      if Text.stripChars rest = [] then (st, []) else feedOutside redactSecrets st (line.1, rest)
    | none => (if pemMaxLines ≤ st.keyLines then { st with inKey := false } else st, [])
  else
    feedOutside redactSecrets st line

def feedLines (st : LogStreamRedactor ι) : List (ι × Chars) →
    LogStreamRedactor ι × List (ι × Chars)
  | [] => (st, [])
  | line :: rest =>
    let step := feedLine redactSecrets st line
    let more := feedLines step.1 rest
    (more.1, step.2 ++ more.2)

def feed (st : LogStreamRedactor Unit) (chunk : Chars) :
    LogStreamRedactor Unit × List (Unit × Chars) :=
  feedLines redactSecrets st ((Text.splitLines chunk).map fun line => ((), line))

/-- What `feed` of each chunk and then `flush` return. -/
def stream (st : LogStreamRedactor Unit) : List Chars → List Chars
  | [] => (flush redactSecrets st.held).map Prod.snd
  | chunk :: rest =>
    let step := feed redactSecrets st chunk
    step.2.map Prod.snd ++ stream step.1 rest

end Stream

inductive Role where
  | text
  | opening
  | body
  | closing
  deriving DecidableEq

def opens : Chars → Bool
  | [] => false
  | c :: s =>
    (match matchMarker .start (c :: s) with
      | some after => (search .stop after).isNone
      | none => false) || opens s

/-- An END after the first BEGIN: what opens a key on such a line stands behind a whole block. -/
def behind (l : Chars) : Bool :=
  match search .start l with
  | some (_, after) => (search .stop after).isSome
  | none => false

def strayStop (l : Chars) : Bool :=
  match search .stop l, search .start l with
  | some (before, _), some (before', _) => before.length < before'.length
  | some _, none => true
  | none, _ => false

/-- A BEGIN with no END after it, of which nothing is left behind the first END: the two share
their dashes. -/
def Tangled (l : Chars) : Prop :=
  opens l = true ∧ ∃ before rest, search .stop l = some (before, rest) ∧ opens rest = false

/-- A line of bare base64 that is as long as a key body's. -/
def isBare (l : Chars) : Bool := isBodyToken (Text.stripChars l)

def isWord (l : Chars) : Bool := isLastToken (Text.stripChars l)

/-- A line that is held back where `n` lines are. -/
def holds (n : ℕ) (l : Chars) : Bool :=
  if n = 0 then isBare l else isWord l && decide (n < pemMaxLines)

inductive Mode where
  /-- Outside a key. The last `n` lines are held back, `words` if some belong to no key. -/
  | text (n : ℕ) (words : Bool)
  /-- In the tail of a key whose start was not seen, after a line of its body. -/
  | tail (n : ℕ) (words : Bool)
  /-- After `n` body lines of a key, its BEGIN standing `behind` a whole block or not. -/
  | key (n : ℕ) (behind : Bool)
  deriving DecidableEq

/-- How a line is read: a key is opened, fewer than 256 lines of body follow, and it is closed.
A tail has bare lines of body only. -/
def next : Mode → Role → Chars → Option Mode
  | .text n _, .text, l =>
    if opens l ∨ strayStop l then none
    else some (if holds n l then .text (n + 1) true else .text 0 false)
  | .text _ _, .opening, l => if opens l then some (.key 0 (behind l)) else none
  | .text n words, .body, l => if isBare l then some (.tail (n + 1) words) else none
  | .text _ _, .closing, l => if strayStop l ∧ opens l = false then some (.text 0 false) else none
  | .tail n words, .body, l => if isBare l then some (.tail (n + 1) words) else none
  | .tail _ _, .closing, l =>
    if strayStop l then some (if opens l then .key 0 (behind l) else .text 0 false) else none
  | .key n b, .body, l =>
    if search .stop l = none ∧ n + 1 < pemMaxLines then some (.key (n + 1) b) else none
  | .key _ b, .closing, l =>
    match search .stop l with
    | some (_, rest) =>
      some (if opens rest then .key 0 (if b then behind l else behind rest)
        else .text (if !b && isBare rest then 1 else 0) false)
    | none => none
  | _, _, _ => none

def path (m : Mode) : List (Role × Chars) → Option Mode
  | [] => some m
  | l :: rest => (next m l.1 l.2).bind fun m' => path m' rest

/-- The roles are read from outside a key to outside one. -/
def WellFormed (log : List (Role × Chars)) : Prop :=
  ∃ n words, path (.text 0 false) log = some (.text n words)

/-- Where the redactor does not know that it is in a key, only bare lines are held, at most 256
and all of the key, and only an END on a line with no BEGIN drops them. -/
def StepOk : Mode → Role → Chars → Prop
  | .text n _, .body, _ => n < pemMaxLines
  | .text _ words, .closing, l => search .start l = none → words = false
  | .tail n _, .body, _ => n < pemMaxLines
  | .tail _ words, .closing, l => search .start l = none ∧ words = false
  | .key n true, .body, l => holds n l = true
  | .key n true, .closing, l => if n = 0 then ¬ Tangled l else search .start l = none
  | _, _, _ => True

def Covered (m : Mode) : List (Role × Chars) → Prop
  | [] => True
  | l :: rest => StepOk m l.1 l.2 ∧ ∀ m', next m l.1 l.2 = some m' → Covered m' rest

section Traced

variable (redactSecrets : Chars → Chars)

/-- What is sent of a whole log, and of what is held at its end. -/
def traced {ι : Type} (st : LogStreamRedactor ι) (log : List (ι × Chars)) : List (ι × Chars) :=
  (feedLines redactSecrets st log).2 ++ flush redactSecrets (feedLines redactSecrets st log).1.held

def texts (lines : List (Role × Chars)) : List (Role × Chars) :=
  flush redactSecrets (lines.filter fun l => l.1 = .text)

/-- Nothing sent comes from a body line, and each line that belongs to no key is sent once,
redacted, in order. -/
def Safe (log : List (Role × Chars)) (sent : List (Role × Chars)) : Prop :=
  (∀ o ∈ sent, o.1 ≠ .body) ∧ (sent.filter fun o => o.1 = .text) = texts redactSecrets log

end Traced

variable {m : Marker} {s after before l : Chars}

theorem dash_of_matchMarker (h : matchMarker m s = some after) : '-' ∈ s := by
  unfold matchMarker at h
  obtain ⟨hmatch, h⟩ := Option.ite_none_right_eq_some.mp h
  refine hmatch.1.subset ?_
  cases m
  · exact List.mem_cons_self
  · exact List.mem_cons_self

theorem dash_of_search {found : Chars × Chars} (h : search m s = some found) : '-' ∈ s := by
  induction s generalizing found with
  | nil => cases h
  | cons c s ih =>
    rw [search] at h
    split at h
    next after hmatch => exact dash_of_matchMarker hmatch
    next =>
      obtain ⟨found', hfound, _⟩ := Option.map_eq_some_iff.mp h
      exact List.mem_cons_of_mem _ (ih hfound)

theorem search_cons_eq_none {c : Char} :
    search m (c :: s) = none ↔ matchMarker m (c :: s) = none ∧ search m s = none := by
  rw [search]
  cases hmatch : matchMarker m (c :: s) with
  | some after => exact ⟨nofun, nofun⟩
  | none =>
    rw [Option.map_eq_none_iff]
    exact ⟨fun h => ⟨rfl, h⟩, fun h => h.2⟩

theorem search_suffix {t : Chars} (h : search m s = none) (hsuffix : t <:+ s) :
    search m t = none := by
  induction s with
  | nil =>
    rw [List.suffix_nil.mp hsuffix]
    exact h
  | cons c s ih =>
    rcases List.suffix_cons_iff.mp hsuffix with rfl | hsuffix
    · exact h
    · exact ih (search_cons_eq_none.mp h).2 hsuffix

theorem suffix_of_matchMarker (h : matchMarker m s = some after) : after <:+ s := by
  unfold matchMarker at h
  obtain ⟨-, h⟩ := Option.ite_none_right_eq_some.mp h
  rw [← Option.some.inj h]
  exact ((List.drop_suffix _ _).trans (List.dropWhile_suffix _)).trans (List.drop_suffix _ _)

theorem suffix_of_search (h : search m s = some (before, after)) : after <:+ s := by
  induction s generalizing before with
  | nil => cases h
  | cons c s ih =>
    rw [search] at h
    split at h
    next found hmatch =>
      obtain ⟨_, rfl⟩ := Prod.mk.inj (Option.some.inj h)
      exact suffix_of_matchMarker hmatch
    next =>
      obtain ⟨found, hfound, heq⟩ := Option.map_eq_some_iff.mp h
      obtain ⟨_, rfl⟩ := Prod.mk.inj heq
      exact (ih hfound).trans (List.suffix_cons _ _)

theorem opens_of_search (h : search .start s = some (before, after))
    (hafter : search .stop after = none) : opens s = true := by
  induction s generalizing before with
  | nil => cases h
  | cons c s ih =>
    cases hmatch : matchMarker .start (c :: s) with
    | some found =>
      rw [search, hmatch] at h
      obtain ⟨_, rfl⟩ := Prod.mk.inj (Option.some.inj h)
      rw [opens, hmatch, Bool.or_eq_true]
      dsimp only
      rw [hafter]
      exact .inl rfl
    | none =>
      rw [search, hmatch] at h
      obtain ⟨found, hfound, heq⟩ := Option.map_eq_some_iff.mp h
      obtain ⟨_, rfl⟩ := Prod.mk.inj heq
      rw [opens, Bool.or_eq_true]
      exact .inr (ih hfound)

theorem not_opens_of_search (h : search .start s = none) : opens s = false := by
  induction s with
  | nil => rfl
  | cons c s ih =>
    obtain ⟨hmatch, hsearch⟩ := search_cons_eq_none.mp h
    rw [opens, hmatch, ih hsearch]
    rfl

theorem dash_stripChars (h : '-' ∈ l) : '-' ∈ Text.stripChars l := by
  obtain ⟨lead, trail, heq, hlead, htrail⟩ := Text.exists_stripChars l
  rw [heq, List.mem_append, List.mem_append] at h
  rcases h with hmem | hmem | hmem
  · cases hlead _ hmem
  · exact hmem
  · cases htrail _ hmem

theorem not_dash_of_isToken {least : ℕ} (h : isToken least s = true) : '-' ∉ s := by
  intro hdash
  unfold isToken at h
  rw [Bool.and_eq_true, List.contains_eq_mem, decide_eq_true_iff, decide_eq_true_iff] at h
  have htail : '-' ∈ (if s.head? = some '=' then s.tail else s) := by
    split
    next hhead =>
      obtain ⟨rest, rfl⟩ := List.head?_eq_some_iff.mp hhead
      exact (List.mem_cons.mp hdash).resolve_left (by decide)
    next => exact hdash
  rw [← List.takeWhile_append_dropWhile (p := isBase64)
    (l := if s.head? = some '=' then s.tail else s), List.mem_append] at htail
  rcases htail with hmem | hmem
  · have hbase : isBase64 '-' = true := List.all_eq_true.mp List.all_takeWhile _ hmem
    exact absurd hbase (by decide)
  · have hrest := h.2
    simp only [List.mem_cons, List.not_mem_nil, or_false] at hrest
    rcases hrest with hrest | hrest | hrest <;> rw [hrest] at hmem <;> revert hmem <;> decide

theorem isWord_of_isBare (h : isBare l = true) : isWord l = true := by
  unfold isBare isBodyToken isToken at h
  unfold isWord isLastToken isToken
  rw [Bool.and_eq_true, decide_eq_true_iff] at h ⊢
  exact ⟨Nat.le_trans (by decide) h.1, h.2⟩

theorem search_of_isWord (h : isWord l = true) (m : Marker) : search m l = none := by
  cases hsearch : search m l with
  | none => rfl
  | some found =>
    exact absurd (dash_stripChars (dash_of_search hsearch)) (not_dash_of_isToken h)

theorem stripChars_ne_nil_of_isWord (h : isWord l = true) :
    (Text.stripChars l).isEmpty = false := by
  cases hstrip : Text.stripChars l with
  | nil =>
    rw [isWord, hstrip] at h
    exact absurd h (by decide)
  | cons c s => rfl

section CouldBeBody

variable {ι : Type} {held : List (ι × Chars)} {l : Chars}

theorem couldBeBody_eq : couldBeBody held l = holds held.length l := by
  unfold couldBeBody holds
  dsimp only
  cases held with
  | nil =>
    cases hbare : isBare l with
    | true =>
      rw [stripChars_ne_nil_of_isWord (isWord_of_isBare hbare)]
      exact hbare
    | false =>
      rw [if_pos List.length_nil, Bool.and_eq_false_iff]
      exact .inr hbare
  | cons first held =>
    rw [if_neg (c := (first :: held).length = 0) (Nat.succ_ne_zero held.length)]
    cases hword : isWord l with
    | true =>
      rw [stripChars_ne_nil_of_isWord hword, Bool.true_and, Bool.not_false, Bool.true_and]
      exact (congrArg _ hword).trans (Bool.and_true _)
    | false =>
      rw [Bool.false_and, Bool.and_eq_false_iff]
      exact .inr hword

variable {n : ℕ}

theorem isWord_of_holds (h : holds n l = true) : isWord l = true := by
  unfold holds at h
  split at h
  next => exact isWord_of_isBare h
  next => exact (Bool.and_eq_true _ _ ▸ h).1

theorem holds_of_isBare (h : isBare l = true) (hn : n < pemMaxLines) : holds n l = true := by
  unfold holds
  split
  next => exact h
  next =>
    rw [isWord_of_isBare h, decide_eq_true hn]
    rfl

theorem holds_full (l : Chars) (hn : pemMaxLines ≤ n) : holds n l = false := by
  unfold holds
  rw [if_neg (Nat.ne_of_gt (Nat.lt_of_lt_of_le (by decide) hn)), decide_eq_false (Nat.not_lt.mpr hn)]
  exact Bool.and_false _

theorem couldBeBody_of_search {found : Chars × Chars} (h : search m l = some found) :
    couldBeBody held l = false := by
  rw [couldBeBody_eq]
  cases hbody : holds held.length l with
  | false => rfl
  | true =>
    rw [search_of_isWord (isWord_of_holds hbody)] at h
    cases h

end CouldBeBody

end SpatiumDdi.SupportBundle
