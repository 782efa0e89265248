import SpatiumDdi.Lib.JsonContainers

/-!
The streaming parse of a cached bundle. The file is read a chunk at a time; a value
is decoded from what is buffered, again with more where it may have been cut, and a
container that does not fit is decoded a member at a time. However the file is cut,
the parse gives what `json.loads` gives for its text, without the records of zones
and the entries of blocklists where they are not asked for.
-/

namespace SpatiumDdi.Agent

open Json
open Text (Points)

/-- What one call of the file's `read` returns, short of the end. -/
abbrev Chunk := { c : Points // c ≠ [] }

/-- A `_TextStream`: `buf[pos:]`, the reads to come, and whether the end was met. -/
structure TextStream where
  unread : Points
  chunks : List Chunk
  eof : Bool
  ended : eof = true → chunks = []

namespace TextStream

def text (st : TextStream) : Points := st.unread ++ (st.chunks.map Subtype.val).flatten

/-- `_read`, and `_grow`: whether there was more. -/
def read (st : TextStream) : Bool × TextStream :=
  if st.eof then
    (false, st)
  else
    match st.chunks with
    | [] => (false, ⟨st.unread, [], true, fun _ => rfl⟩)
    | c :: rest => (true, ⟨st.unread ++ c.val, rest, false, nofun⟩)

variable {st st' : TextStream}

theorem read_length (h : st.read = (true, st')) : st'.chunks.length < st.chunks.length := by
  unfold read at h
  split at h
  · cases h
  · split at h
    · cases h
    next c rest hchunks =>
      simp only [Prod.mk.injEq, true_and] at h
      rw [hchunks, ← h]
      exact Nat.lt_succ_self _

theorem read_true (h : st.read = (true, st')) :
    st.eof = false ∧ ∃ c, st'.unread = st.unread ++ c := by
  unfold read at h
  split at h
  · cases h
  next heof =>
    refine ⟨eq_false_of_ne_true heof, ?_⟩
    split at h
    · cases h
    next c rest _ =>
      simp only [Prod.mk.injEq, true_and] at h
      exact ⟨c.val, h ▸ rfl⟩

theorem text_read (st : TextStream) : st.read.2.text = st.text := by
  unfold read
  split
  · rfl
  · split
    next hchunks => simp [text, hchunks]
    next c rest hchunks => simp [text, hchunks]

theorem read_false (h : st.read = (false, st')) :
    st.text = st.unread ∧ st'.chunks = [] ∧ st'.unread = st.unread ∧ st'.eof = true := by
  unfold read at h
  split at h
  next heof =>
    simp only [Prod.mk.injEq, true_and] at h
    have hchunks := st.ended heof
    exact ⟨by simp [text, hchunks], h ▸ hchunks, h ▸ rfl, h ▸ heof⟩
  · split at h
    next hchunks =>
      simp only [Prod.mk.injEq, true_and] at h
      exact ⟨by simp [text, hchunks], h ▸ rfl, h ▸ rfl, h ▸ rfl⟩
    · cases h

def peek (st : TextStream) : Option Nat × TextStream :=
  match skipSpace st.unread with
  | c :: rest => (some c, { st with unread := c :: rest })
  | [] =>
    match _h : read { st with unread := [] } with
    | (true, st') => st'.peek
    | (false, st') => (none, st')
termination_by st.chunks.length
decreasing_by
  have hlen := read_length _h
  exact hlen

/-- `self.pos += 1`. -/
def drop (st : TextStream) : TextStream := { st with unread := st.unread.tail }

/-- `value` after its `peek`, `container` being how it goes down where it may. -/
def decodeFrom (container : Option (Option Nat → TextStream → Option (Json × TextStream)))
    (ch : Option Nat) (st : TextStream) : Option (Json × TextStream) :=
  match rawDecode st.unread with
  | none =>
    if container.isSome && ch.all isOpening && !st.eof then
      container.bind fun container => container ch st
    else
      match _h : st.read with
      | (true, st') => decodeFrom container ch st'
      | (false, _) => none
  | some (value, rest) =>
    if cutOff value rest then
      match _h : st.read with
      | (true, st') => decodeFrom container ch st'
      | (false, st') => some (value, { st' with unread := rest })
    else
      some (value, { st with unread := rest })
termination_by st.chunks.length
decreasing_by
  · exact read_length _h
  · exact read_length _h

def valueFlat (st : TextStream) : Option (Json × TextStream) :=
  match st.peek with
  | (ch, st) => decodeFrom none ch st

def source : Source TextStream where
  peek := peek
  drop := drop

def asKey {σ : Type} : Option (Json × σ) → Option (Points × σ)
  | some (.string key, st) => some (key, st)
  | _ => none

def memberKey (st : TextStream) : Option (Points × TextStream) :=
  match st.peek with
  | (ch, st) => if ch = some quote then asKey st.valueFlat else none

/-- `_container`, its members read by `value`. No container starts at the end. -/
def container (value : TextStream → Option (Json × TextStream)) (ch : Option Nat)
    (st : TextStream) : Option (Json × TextStream) :=
  match ch with
  | some c => source.container memberKey value st.text.tail.length c st
  | none => none

def value : Nat → TextStream → Option (Json × TextStream)
  | 0, st => st.valueFlat
  | depth + 1, st =>
    match st.peek with
    | (ch, st) => decodeFrom (some (container (value depth))) ch st

def rest (st : TextStream) : Points :=
  match _h : st.read with
  | (true, st') => st'.rest
  | (false, st') => st'.unread
termination_by st.chunks.length
decreasing_by exact read_length _h

theorem peek_of_cons {c : Nat} {rest : Points} (h : skipSpace st.unread = c :: rest) :
    st.peek = (some c, { st with unread := c :: rest }) := by
  rw [peek]
  split
  next c' rest' h' =>
    rw [h, List.cons.injEq] at h'
    rw [h'.1, h'.2]
  next h' => rw [h] at h'; cases h'

theorem peek_spec (st : TextStream) :
    st.peek.1 = (skipSpace st.text).head? ∧ st.peek.2.text = skipSpace st.text ∧
      st.peek.2.unread.head? = st.peek.1 ∧ (st.peek.1 = none → st.peek.2.eof = true) := by
  induction hn : st.chunks.length using Nat.strong_induction_on generalizing st with
  | _ n ih =>
    cases hs : skipSpace st.unread with
    | cons c rest =>
      have htext : skipSpace st.text = c :: rest ++ (st.chunks.map Subtype.val).flatten := by
        rw [text, skipSpace_append (by rw [hs]; exact List.cons_ne_nil _ _), hs]
      rw [peek_of_cons hs, htext]
      exact ⟨rfl, rfl, rfl, nofun⟩
    | nil =>
      have htext : skipSpace st.text = skipSpace (text { st with unread := [] }) :=
        skipSpace_eq_nil_append hs
      rw [peek]
      split
      next c rest h => rw [hs] at h; cases h
      next =>
        split
        next st' hread =>
          have hlen := read_length hread
          have hsame := text_read { st with unread := [] }
          rw [hread] at hsame
          rw [htext, ← hsame]
          exact ih st'.chunks.length (hn ▸ hlen) st' rfl
        next st' hread =>
          obtain ⟨hall, hchunks, hunread, heof⟩ := read_false hread
          rw [htext, hall]
          refine ⟨rfl, ?_, by rw [hunread]; rfl, fun _ => heof⟩
          rw [text, hunread, hchunks]
          rfl

theorem text_of_head {c : Nat} (h : st.unread.head? = some c) :
    ∃ rest, st.text = c :: rest ∧ st.drop.text = rest := by
  cases hu : st.unread with
  | nil => rw [hu] at h; cases h
  | cons d rest =>
    rw [hu, List.head?_cons, Option.some.injEq] at h
    refine ⟨rest ++ (st.chunks.map Subtype.val).flatten, by rw [text, hu, h]; rfl, ?_⟩
    rw [text, drop, hu]
    rfl

theorem shows : source.Shows text where
  peek st := (peek_spec st).1
  rest st := (peek_spec st).2.1
  drop st hne := by
    obtain ⟨hpeek, htext, hhead, _⟩ := peek_spec st
    change st.peek.1 ≠ none at hne
    obtain ⟨c, hc⟩ := Option.ne_none_iff_exists'.mp hne
    rw [hc] at hhead
    obtain ⟨rest, hrest, hdrop⟩ := text_of_head hhead
    change st.peek.2.drop.text = _
    rw [hdrop, ← htext, hrest]
    rfl

theorem rest_eq (st : TextStream) : st.rest = st.text := by
  induction hn : st.chunks.length using Nat.strong_induction_on generalizing st with
  | _ n ih =>
    have htext := text_read st
    rw [rest]
    split
    next st' hread =>
      rw [hread] at htext
      rw [← htext]
      exact ih st'.chunks.length (hn ▸ read_length hread) st' rfl
    next st' hread =>
      obtain ⟨hall, _, hunread, _⟩ := read_false hread
      rw [hall, hunread]

theorem decodeFrom_seen
    {container : Option (Option Nat → TextStream → Option (Json × TextStream))}
    (hcontainer : ∀ f, container = some f → ∀ st c, st.unread.head? = some c →
      isOpening c = true → seen text (f (some c) st) = rawDecode st.text)
    {ch : Option Nat} (st : TextStream) (hhead : st.unread.head? = ch)
    (hend : ch = none → st.eof = true) :
    seen text (decodeFrom container ch st) = rawDecode st.text := by
  induction hn : st.chunks.length using Nat.strong_induction_on generalizing st with
  | _ n ih =>
    have hmore : ∀ st', st.read = (true, st') →
        seen text (decodeFrom container ch st') = rawDecode st.text := by
      intro st' hread
      have htext := text_read st
      rw [hread] at htext
      rw [← htext]
      obtain ⟨heof, more, hunread⟩ := read_true hread
      cases ch with
      | none =>
        rw [hend rfl] at heof
        cases heof
      | some c =>
        refine ih st'.chunks.length (hn ▸ read_length hread) st' ?_ nofun rfl
        rw [hunread, List.head?_append, hhead]
        rfl
    rw [decodeFrom]
    split
    next hnone =>
      split
      next hdown =>
        simp only [Bool.and_eq_true, Bool.not_eq_true'] at hdown
        obtain ⟨⟨hsome, hopen⟩, heof⟩ := hdown
        obtain ⟨f, rfl⟩ := Option.isSome_iff_exists.mp hsome
        cases ch with
        | none =>
          rw [hend rfl] at heof
          cases heof
        | some c => exact hcontainer f rfl st c hhead hopen
      next =>
        split
        next st' hread => exact hmore st' hread
        next st' hread =>
          rw [(read_false hread).1, hnone]
          rfl
    next value rest hsome =>
      split
      next hcut =>
        split
        next st' hread => exact hmore st' hread
        next st' hread =>
          obtain ⟨hall, hchunks, _⟩ := read_false hread
          rw [hall, hsome]
          simp [seen, text, hchunks]
      next hcut =>
        rw [text, rawDecode_append hsome (eq_false_of_ne_true hcut)]
        rfl

theorem valueFlat_seen (st : TextStream) : seen text st.valueFlat = valueOf st.text := by
  obtain ⟨_, htext, hhead, hend⟩ := peek_spec st
  rw [valueFlat, valueOf, ← htext]
  exact decodeFrom_seen (fun f hf => by cases hf) st.peek.2 hhead hend

theorem asKey_valueOf (s : Points) : asKey (valueOf s) = scanKey s := by
  unfold valueOf scanKey
  cases hs : skipSpace s with
  | nil => rfl
  | cons c rest =>
    simp only
    by_cases hc : c = quote
    · rw [if_pos hc, rawDecode_cons, if_pos hc]
      cases scanString rest with
      | none => rfl
      | some found => rfl
    · rw [if_neg hc]
      cases hvalue : rawDecode (c :: rest) with
      | none => rfl
      | some found =>
        obtain ⟨value, r⟩ := found
        cases value with
        | string t =>
          obtain ⟨_, heq⟩ := rawDecode_opening hvalue rfl
          exact absurd (List.cons.inj heq).1 hc
        | _ => rfl

theorem asKey_seen {r : Option (Json × TextStream)} {s : Points} (h : seen text r = valueOf s) :
    seen text (asKey r) = scanKey s := by
  rw [← asKey_valueOf, ← h]
  cases r with
  | none => rfl
  | some found =>
    obtain ⟨value, st⟩ := found
    cases value <;> rfl

theorem memberKey_seen (st : TextStream) : seen text st.memberKey = scanKey st.text := by
  obtain ⟨hpeek, htext, _, _⟩ := peek_spec st
  have hflat := valueFlat_seen st.peek.2
  rw [htext, valueOf, skipSpace_skipSpace] at hflat
  rw [memberKey]
  simp only
  split
  next hquote => exact asKey_seen hflat
  next hquote =>
    rw [hpeek] at hquote
    unfold scanKey
    split
    next c rest hs =>
      rw [hs, List.head?_cons, Option.some.injEq] at hquote
      rw [if_neg hquote]
      rfl
    · rfl

theorem value_seen (depth : Nat) (st : TextStream) :
    seen text (st.value depth) = valueOf st.text := by
  induction depth generalizing st with
  | zero => exact valueFlat_seen st
  | succ depth ih =>
    obtain ⟨_, htext, hhead, hend⟩ := peek_spec st
    rw [value, valueOf, ← htext]
    apply decodeFrom_seen _ st.peek.2 hhead hend
    intro f hf st₁ c hc hopen
    rw [Option.some.injEq] at hf
    obtain ⟨rest, hrest, hdrop⟩ := text_of_head hc
    have hquote : c ≠ quote := by
      rintro rfl
      cases hopen
    rw [hrest, rawDecode_cons, if_neg hquote, if_pos hopen, ← hf, container, hrest]
    exact container_seen shows memberKey_seen ih hdrop

end TextStream

def descendDepth : Nat := 3

def recordLevel (key : Points) : Option Points :=
  if key = points "zones" then some (points "records")
  else if key = points "blocklists" then some (points "entries")
  else none

/-- `item.pop(_RECORD_LEVEL[key], None)` of an element of the array under `key`. -/
def popRecords (key : Points) (item : Json) : Json :=
  match recordLevel key, item with
  | some level, .object members => .object (members.filter fun m => m.1 ≠ level)
  | _, _ => item

/-- An element of the array under `key`, as the parse keeps it. -/
def keepItem (records : Bool) (key : Points) (item : Json) : Json :=
  if records then item else popRecords key item

def keepMember (records : Bool) (key : Points) : Json → Json
  | .array items => .array (items.map (keepItem records key))
  | value => value

/-- The key of a top-level member: any value, which has to be a string. -/
def topKey (st : TextStream) : Option (Points × TextStream) := TextStream.asKey st.valueFlat

/-- The value of a top-level member, an array an element at a time. -/
def topValue (records : Bool) (key : Points) (st : TextStream) : Option (Json × TextStream) :=
  match st.peek with
  | (ch, st) =>
    if ch = some leftBracket then
      let item := fun st : TextStream => (st.value descendDepth).map fun found =>
        (keepItem records key found.1, found.2)
      (TextStream.source.array item st.text.tail.length st.drop).map fun found =>
        (.array found.1, found.2)
    else
      st.value descendDepth

/-- `parse_bundle_file`, of the text that the file's reads return. -/
def parseBundleFile (records : Bool) (chunks : List Chunk) : Option Json :=
  match TextStream.peek ⟨[], chunks, false, nofun⟩ with
  | (ch, st) =>
    if ch ≠ some leftBrace then
      loads st.rest
    else
      match TextStream.source.object topKey (topValue records) st.text.tail.length st.drop with
      | none => none
      | some (members, st) =>
        match st.peek with
        | (some _, _) => none
        | (none, _) => some (.object (dict members))

/-- `json.loads`'s value without the records of its zones and the entries of its
blocklists. -/
def withoutRecords : Json → Json
  | .object members => .object (members.map fun m => (m.1, match m.2 with
    | .array items => .array (items.map (popRecords m.1))
    | value => value))
  | value => value

def keepMembers (records : Bool) : Json → Json
  | .object members => .object (members.map fun m => (m.1, keepMember records m.1 m.2))
  | value => value

open TextStream

theorem topKey_seen (st : TextStream) : seen text (topKey st) = scanKey st.text :=
  asKey_seen (valueFlat_seen st)

variable {s : Points}

theorem keepMember_of_head {records : Bool} {key : Points} {r : Points} {value : Json}
    (h : rawDecode s = some (value, r)) (hhead : s.head? ≠ some leftBracket) :
    keepMember records key value = value := by
  cases value with
  | array items =>
    obtain ⟨rest, rfl⟩ := rawDecode_opening h rfl
    exact absurd rfl hhead
  | _ => rfl

variable (records : Bool)

theorem item_seen (key : Points) (st : TextStream) :
    seen text ((st.value descendDepth).map fun found =>
        (keepItem records key found.1, found.2)) =
      (valueOf st.text).map fun found => (keepItem records key found.1, found.2) := by
  rw [seen_map (keepItem records key), value_seen]

theorem topValue_seen (key : Points) (st : TextStream) :
    seen text (topValue records key st) =
      (valueOf st.text).map fun found => (keepMember records key found.1, found.2) := by
  obtain ⟨hpeek, htext, hhead, _⟩ := peek_spec st
  rw [topValue]
  simp only
  split
  next hopen =>
    rw [hopen] at hhead
    obtain ⟨rest, hrest, hdrop⟩ := text_of_head hhead
    have hitems := array_seen (w := fun t => (valueOf t).map fun found =>
      (keepItem records key found.1, found.2)) shows (item_seen records key) rest.length
      st.peek.2.drop
    rw [hdrop, array_map (keepItem records key) valueOf] at hitems
    rw [hrest, List.tail_cons, seen_map Json.array, hitems, valueOf, ← htext, hrest,
      rawDecode_leftBracket, Option.map_map, Option.map_map]
    rfl
  next hopen =>
    rw [value_seen, htext, valueOf, skipSpace_skipSpace, valueOf]
    cases hvalue : rawDecode (skipSpace st.text) with
    | none => rfl
    | some found =>
      rw [Option.map_some, keepMember_of_head hvalue (by rw [← hpeek]; exact hopen)]

theorem keepMembers_of_head (h : (skipSpace s).head? ≠ some leftBrace) :
    (loads s).map (keepMembers records) = loads s := by
  cases hloads : loads s with
  | none => rfl
  | some value =>
    cases value with
    | object members =>
      unfold loads decode at hloads
      split at hloads
      · cases hloads
      · split at hloads
        next value rest hvalue =>
          split at hloads
          · rw [Option.some.injEq] at hloads
            obtain ⟨rest, hrest⟩ := rawDecode_opening (hloads ▸ hvalue) rfl
            exact absurd (hrest ▸ rfl) h
          · cases hloads
        · cases hloads
    | _ => rfl

theorem loads_object {rest : Points} (h : skipSpace s = leftBrace :: rest) :
    loads s = (textSource.object scanKey (fun _ => valueOf) rest.length rest).bind fun found =>
      if skipSpace found.2 = [] then some (.object (dict found.1)) else none := by
  have hbom : s.head? ≠ some bom := by
    intro hbom
    cases s with
    | nil => cases h
    | cons c t =>
      rw [List.head?_cons, Option.some.injEq] at hbom
      subst hbom
      cases h
  rw [loads, if_neg hbom, decode, h, rawDecode_leftBrace]
  cases textSource.object scanKey (fun _ => valueOf) rest.length rest <;> rfl

theorem parseBundleFile_seen (chunks : List Chunk) :
    parseBundleFile records chunks =
      (loads (chunks.map Subtype.val).flatten).map (keepMembers records) := by
  obtain ⟨hpeek, htext, hhead, _⟩ := peek_spec ⟨[], chunks, false, nofun⟩
  change _ = (loads (text ⟨[], chunks, false, nofun⟩)).map _
  rw [parseBundleFile]
  simp only
  split
  next hopen =>
    rw [hpeek] at hopen
    rw [rest_eq, htext, loads_skipSpace, keepMembers_of_head records hopen]
  next hopen =>
    rw [not_not] at hopen
    rw [hopen] at hhead
    obtain ⟨rest, hrest, hdrop⟩ := text_of_head hhead
    have hmembers := object_seen (w := fun key t => (valueOf t).map fun found =>
      (keepMember records key found.1, found.2)) shows topKey_seen (topValue_seen records)
      rest.length (peek ⟨[], chunks, false, nofun⟩).2.drop
    rw [hdrop, object_map (keepMember records) scanKey] at hmembers
    rw [loads_object (htext ▸ hrest), hrest, List.tail_cons]
    cases hfound : source.object topKey (topValue records) rest.length
        (peek ⟨[], chunks, false, nofun⟩).2.drop with
    | none =>
      rw [hfound] at hmembers
      rw [Option.map_eq_none_iff.mp hmembers.symm]
      rfl
    | some found =>
      obtain ⟨members, st⟩ := found
      rw [hfound] at hmembers
      obtain ⟨⟨whole, rest'⟩, hwhole, heq⟩ := Option.map_eq_some_iff.mp hmembers.symm
      simp only [Prod.mk.injEq] at heq
      obtain ⟨rfl, rfl⟩ := heq
      rw [hwhole]
      simp only [Option.bind_some]
      obtain ⟨hend, _⟩ := peek_spec st
      by_cases hrest' : skipSpace st.text = []
      · rw [if_pos hrest']
        rw [hrest'] at hend
        split
        next hsome => rw [hsome] at hend; cases hend
        next =>
          rw [dict_map]
          rfl
      · rw [if_neg hrest']
        split
        next => rfl
        next hnone =>
          rw [hnone] at hend
          exact absurd (List.head?_eq_none_iff.mp hend.symm) hrest'

theorem keepMember_true (key : Points) (value : Json) : keepMember true key value = value := by
  cases value with
  | array items => exact congrArg Json.array (List.map_id' items)
  | _ => rfl

theorem keepMembers_true (value : Json) : keepMembers true value = value := by
  cases value with
  | object members =>
    simp only [keepMembers, keepMember_true]
    exact congrArg Json.object (List.map_id' members)
  | _ => rfl

theorem keepMembers_false (value : Json) : keepMembers false value = withoutRecords value := by
  cases value with
  | object members =>
    apply congrArg Json.object
    apply List.map_congr_left
    intro m _
    cases m.2 <;> rfl
  | _ => rfl

/-- However its reads cut a file, the parse gives the value of its text, or fails where
that is no JSON. -/
theorem parseBundleFile_eq_loads (chunks : List Chunk) :
    parseBundleFile true chunks = loads (chunks.map Subtype.val).flatten ∧
      parseBundleFile false chunks =
        (loads (chunks.map Subtype.val).flatten).map withoutRecords := by
  rw [parseBundleFile_seen, parseBundleFile_seen, funext keepMembers_true,
    funext keepMembers_false]
  exact ⟨Option.map_id', rfl⟩

end SpatiumDdi.Agent
