import SpatiumDdi.Influxdb.LineProtocolValues

/-!
Which batches are read back as they were sent. A backslash is escaped nowhere but in string fields,
so one at the end of a name or a tag's value takes the delimiter after it with it.
-/

namespace SpatiumDdi.Influxdb

open Escaped

variable {F : Type} {repr : F → Chars} {readFloat : Chars → Option F} {p : Point F}
  {s rest : Chars}

def tagsText (tags : List (Chars × Chars)) : Chars := tags.flatMap fun tag => ',' :: tagText tag

theorem comma_intercalate {parts : List Chars} (h : parts ≠ []) :
    ',' :: [','].intercalate parts = parts.flatMap fun part => ',' :: part := by
  induction parts with
  | nil => exact absurd rfl h
  | cons part parts ih =>
    cases parts with
    | nil => simp [List.intercalate]
    | cons next parts =>
      rw [List.flatMap_cons, ← ih (List.cons_ne_nil _ _)]
      simp [List.intercalate]

theorem tagsText_eq (tags : List (Chars × Chars)) :
    (if tags.map tagText ≠ [] then s ++ ',' :: [','].intercalate (tags.map tagText) else s) =
      s ++ tagsText tags := by
  split
  next h => rw [comma_intercalate h, List.flatMap_map, tagsText]
  next h =>
    rw [not_not, List.map_eq_nil_iff] at h
    rw [h, tagsText, List.flatMap_nil, List.append_nil]

theorem tagsText_delimiter (tags : List (Chars × Chars)) (rest : Chars) :
    ∃ d rest', (d = ',' ∨ d = '=' ∨ d = ' ') ∧ tagsText tags ++ ' ' :: rest = d :: rest' := by
  cases tags with
  | nil => exact ⟨' ', rest, .inr (.inr rfl), rfl⟩
  | cons tag tags =>
    exact ⟨',', _, .inl rfl,
      by rw [tagsText, List.flatMap_cons, List.cons_append, List.cons_append]⟩

def TagReadable (tag : Chars × Chars) : Prop := KeyReadable tag.1 ∧ KeyReadable tag.2

def cleanedTag (tag : Chars × Chars) : Chars × Chars := (cleaned tag.1, cleaned tag.2)

theorem tagsText_cons (tag : Chars × Chars) (tags : List (Chars × Chars)) (rest : Chars) :
    tagsText (tag :: tags) ++ rest =
      ',' :: (escapeKey tag.1 ++ '=' :: (escapeKey tag.2 ++ (tagsText tags ++ rest))) := by
  simp [tagsText, tagText]

variable {tags : List (Chars × Chars)} {fuel : ℕ}

theorem readTags_tagsText (hkeys : ∀ tag ∈ tags, tag.1 ≠ []) (h : ∀ tag ∈ tags, TagReadable tag)
    (hfuel : tags.length ≤ fuel) (rest : Chars) :
    readTags fuel (tagsText tags ++ ' ' :: rest) = some (tags.map cleanedTag, ' ' :: rest) := by
  induction tags generalizing fuel with
  | nil => cases fuel <;> rfl
  | cons tag tags ih =>
    obtain ⟨hkey, hvalue⟩ := h tag List.mem_cons_self
    obtain ⟨fuel, rfl⟩ : ∃ n, fuel = n + 1 := ⟨fuel - 1, by rw [List.length_cons] at hfuel; omega⟩
    obtain ⟨d, rest', hd, hrest⟩ := tagsText_delimiter tags rest
    have hread := ih (fun tag htag => hkeys tag (List.mem_cons_of_mem _ htag))
      (fun tag htag => h tag (List.mem_cons_of_mem _ htag)) (Nat.le_of_succ_le_succ hfuel)
    have hne := cleaned_ne_nil (hkeys tag List.mem_cons_self)
    rw [hrest] at hread
    rw [tagsText_cons, hrest, readTags, scan_key (.inr (.inl rfl)) hkey]
    simp only [scan_key hd hvalue, if_neg hne, hread, Option.map_some]
    rfl

theorem readTags_eq_some {tag : Chars × Chars}
    (h : readTags (fuel + 1) (',' :: s) = some (tag :: tags, rest)) :
    ∃ after, scan escapable endsKey s = (tag.1, '=' :: after) ∧
      (scan escapable endsKey after).1 = tag.2 ∧
      readTags fuel (scan escapable endsKey after).2 = some (tags, rest) := by
  rw [readTags] at h
  rcases hscan : scan escapable endsKey s with ⟨key, - | ⟨d, after⟩⟩
  · rw [hscan] at h
    cases h
  rw [hscan] at h
  by_cases hd : d = '='
  · subst hd
    by_cases hkey : key = []
    · simp only [if_pos hkey, reduceCtorEq] at h
    simp only [if_neg hkey, Option.map_eq_some_iff] at h
    obtain ⟨⟨tags', rest'⟩, hread, heq⟩ := h
    obtain ⟨⟨rfl, rfl⟩, rfl⟩ : (tag = (key, (scan escapable endsKey after).1) ∧ tags = tags') ∧
        rest = rest' := by simpa using heq.symm
    exact ⟨after, rfl, rfl, hread⟩
  · simp [hd] at h

variable {rest' : Chars} {fields : List (Chars × FieldValue F)} {points : List (Point F)}

theorem tagReadable_of_readTags
    (h : readTags fuel (tagsText tags ++ ' ' :: rest) = some (tags.map cleanedTag, rest')) :
    ∀ tag ∈ tags, TagReadable tag := by
  induction tags generalizing fuel rest' with
  | nil => exact nofun
  | cons tag tags ih =>
    obtain ⟨d, after, hd, hafter⟩ := tagsText_delimiter tags rest
    rw [tagsText_cons, List.map_cons] at h
    cases fuel with
    | zero => cases h
    | succ fuel =>
      obtain ⟨text, hscan, hvalue, hread⟩ := readTags_eq_some h
      have hkey : KeyReadable tag.1 := keyReadable_of_scan (.inr (.inl rfl)) (by rw [hscan]; rfl)
      obtain rfl : escapeKey tag.2 ++ (tagsText tags ++ ' ' :: rest) = text := by
        rw [scan_key (.inr (.inl rfl)) hkey] at hscan
        exact (List.cons.inj (Prod.mk.inj hscan).2).2
      rw [hafter] at hvalue hread
      have hvalue : KeyReadable tag.2 := keyReadable_of_scan hd hvalue
      rw [scan_key hd hvalue, ← hafter] at hread
      intro other hother
      rcases List.mem_cons.mp hother with rfl | hother
      · exact ⟨hkey, hvalue⟩
      · exact ih hread other hother

def fieldsText (repr : F → Chars) (fields : List (Chars × FieldValue F)) : Chars :=
  [','].intercalate (fields.map (fieldText repr))

def cleanedField (field : Chars × FieldValue F) : Chars × FieldValue F :=
  (cleaned field.1, cleanedValue field.2)

/-- An integer of 64 bits, or no integer. -/
def Fits (value : FieldValue F) : Prop := ∀ n, value = .int n → IsInt64 n

def afterField (repr : F → Chars) (fields : List (Chars × FieldValue F)) (rest : Chars) : Chars :=
  match fields with
  | [] => ' ' :: rest
  | fields => ',' :: (fieldsText repr fields ++ ' ' :: rest)

theorem fieldsText_cons (field : Chars × FieldValue F) (fields : List (Chars × FieldValue F))
    (rest : Chars) :
    fieldsText repr (field :: fields) ++ ' ' :: rest =
      escapeKey field.1 ++
        '=' :: (formatFieldValue repr field.2 ++ afterField repr fields rest) := by
  cases fields with
  | nil => simp [fieldsText, afterField, fieldText, List.intercalate]
  | cons next fields => simp [fieldsText, afterField, fieldText, List.intercalate]

theorem readValue_afterField (hfloats : ReadsFloats repr readFloat) {value : FieldValue F}
    (hfits : Fits value) (fields : List (Chars × FieldValue F)) (rest : Chars) :
    readValue readFloat (formatFieldValue repr value ++ afterField repr fields rest) =
      some (cleanedValue value, afterField repr fields rest) := by
  cases fields with
  | nil => exact readValue_formatFieldValue hfloats hfits rfl rest
  | cons next fields => exact readValue_formatFieldValue hfloats hfits rfl _

theorem readFields_fieldsText (hfloats : ReadsFloats repr readFloat) (hne : fields ≠ [])
    (hkeys : ∀ field ∈ fields, field.1 ≠ []) (hfits : ∀ field ∈ fields, Fits field.2)
    (h : ∀ field ∈ fields, KeyReadable field.1) (hfuel : fields.length ≤ fuel) (rest : Chars) :
    readFields readFloat fuel (fieldsText repr fields ++ ' ' :: rest) =
      some (fields.map cleanedField, ' ' :: rest) := by
  induction fields generalizing fuel with
  | nil => exact absurd rfl hne
  | cons field fields ih =>
    obtain ⟨fuel, rfl⟩ : ∃ n, fuel = n + 1 := ⟨fuel - 1, by rw [List.length_cons] at hfuel; omega⟩
    have hkey := cleaned_ne_nil (hkeys field List.mem_cons_self)
    have hvalue := readValue_afterField hfloats (hfits field List.mem_cons_self) fields rest
    rw [fieldsText_cons, readFields, scan_key (.inr (.inl rfl)) (h field List.mem_cons_self)]
    cases fields with
    | nil =>
      simp only [if_neg hkey, hvalue]
      rfl
    | cons next fields =>
      have hread := ih (List.cons_ne_nil _ _)
        (fun field hfield => hkeys field (List.mem_cons_of_mem _ hfield))
        (fun field hfield => hfits field (List.mem_cons_of_mem _ hfield))
        (fun field hfield => h field (List.mem_cons_of_mem _ hfield))
        (Nat.le_of_succ_le_succ hfuel)
      simp only [if_neg hkey, hvalue]
      simp only [afterField, hread, Option.map_some]
      rfl

theorem readFields_eq_some {field : Chars × FieldValue F}
    (h : readFields readFloat fuel s = some (field :: fields, rest)) :
    ∃ after value more, scan escapable endsKey s = (field.1, '=' :: after) ∧
      readValue readFloat after = some (value, more) ∧
      ∀ next, more = ',' :: next →
        ∃ fuel', readFields readFloat fuel' next = some (fields, rest) := by
  cases fuel with
  | zero => cases h
  | succ fuel =>
  rw [readFields] at h
  rcases hscan : scan escapable endsKey s with ⟨key, - | ⟨d, after⟩⟩
  · rw [hscan] at h
    cases h
  rw [hscan] at h
  by_cases hd : d = '='
  · subst hd
    by_cases hkey : key = []
    · simp only [if_pos hkey, reduceCtorEq] at h
    simp only [if_neg hkey] at h
    rcases hvalue : readValue readFloat after with - | ⟨value, more⟩
    · rw [hvalue] at h
      cases h
    rw [hvalue] at h
    refine ⟨after, value, more, ?_, hvalue, ?_⟩
    · rcases more with - | ⟨c, more⟩
      · cases h; rfl
      · by_cases hc : c = ','
        · subst hc
          simp only [Option.map_eq_some_iff] at h
          obtain ⟨_, -, heq⟩ := h
          cases heq
          rfl
        · have heq : ((key, value) = field ∧ fields = []) ∧ c :: more = rest := by
            simpa [hc] using h
          rw [← heq.1.1]
    · rintro next rfl
      simp only [Option.map_eq_some_iff] at h
      obtain ⟨_, hread, heq⟩ := h
      cases heq
      exact ⟨fuel, hread⟩
  · simp [hd] at h

theorem keyReadable_of_readFields (hfloats : ReadsFloats repr readFloat)
    (hfits : ∀ field ∈ fields, Fits field.2)
    (h : readFields readFloat fuel (fieldsText repr fields ++ ' ' :: rest) = some (fields.map cleanedField, rest')) :
    ∀ field ∈ fields, KeyReadable field.1 := by
  induction fields generalizing fuel with
  | nil => exact nofun
  | cons field fields ih =>
    rw [fieldsText_cons, List.map_cons] at h
    obtain ⟨after, value, more, hscan, hvalue, hrest⟩ := readFields_eq_some h
    have hkey : KeyReadable field.1 := keyReadable_of_scan (.inr (.inl rfl)) (by rw [hscan]; rfl)
    rw [scan_key (.inr (.inl rfl)) hkey] at hscan
    rw [← (List.cons.inj (Prod.mk.inj hscan).2).2,
      readValue_afterField hfloats (hfits field List.mem_cons_self)] at hvalue
    intro other hother
    rcases List.mem_cons.mp hother with rfl | hother
    · exact hkey
    cases fields with
    | nil => cases hother
    | cons next fields =>
      obtain ⟨fuel', hread⟩ := hrest _ (Prod.mk.inj (Option.some.inj hvalue)).2.symm
      exact ih (fun field hfield => hfits field (List.mem_cons_of_mem _ hfield)) hread other hother

theorem mem_sortedItems {α : Type} {d : Dict Chars α} {item : Chars × α} :
    item ∈ sortedItems d ↔ item ∈ d.items :=
  List.mem_insertionSort _

def pointText (repr : F → Chars) (p : Point F) : Chars :=
  escapeMeasurement p.measurement ++
    (tagsText (keptTags p) ++
      ' ' :: (fieldsText repr (sortedItems p.fields) ++ ' ' :: intText p.timestamp))

theorem renderPoint_eq (h : p.fields.items ≠ []) :
    renderPoint repr p = .ok (pointText repr p) := by
  rw [renderPoint, if_neg h]
  simp only [tagsText_eq, pointText, fieldsText, List.append_assoc]

theorem renderBatch_eq (h : ∀ p ∈ points, p.fields.items ≠ []) :
    renderBatch repr points = .ok (['\n'].intercalate (points.map (pointText repr))) := by
  have hlines : points.mapM (renderPoint repr) = .ok (points.map (pointText repr)) := by
    induction points with
    | nil => rfl
    | cons p points ih =>
      rw [List.mapM_cons, renderPoint_eq (h p List.mem_cons_self),
        ih fun p hp => h p (List.mem_cons_of_mem _ hp)]
      rfl
  rw [renderBatch, hlines]
  rfl

/-- A point whose line is split where its parts end. -/
structure LineReadable (p : Point F) : Prop where
  measurement : Readable measurementEscapes escapable (cleaned p.measurement)
  tags : ∀ tag ∈ keptTags p, TagReadable tag
  fields : ∀ field ∈ sortedItems p.fields, KeyReadable field.1

theorem afterMeasurement (p : Point F) (rest : Chars) :
    ∃ d rest', escapable d = true ∧ endsMeasurement d = true ∧
      tagsText (keptTags p) ++ ' ' :: rest = d :: rest' := by
  cases htags : keptTags p with
  | nil => exact ⟨' ', rest, rfl, rfl, rfl⟩
  | cons tag tags => exact ⟨',', _, rfl, rfl, by rw [tagsText_cons]⟩

theorem Sendable.keys (h : Sendable p) : ∀ tag ∈ keptTags p, tag.1 ≠ [] := fun tag htag =>
  h.tags tag (mem_sortedItems.mp (List.mem_filter.mp htag).1)

theorem Sendable.fits (h : Sendable p) : ∀ field ∈ sortedItems p.fields, Fits field.2 := by
  rintro ⟨key, value⟩ hfield n rfl
  exact h.ints key n (mem_sortedItems.mp hfield)

theorem length_le_tagsText (tags : List (Chars × Chars)) :
    tags.length ≤ (tagsText tags).length := by
  induction tags with
  | nil => exact Nat.le_refl 0
  | cons tag tags ih =>
    rw [tagsText, List.flatMap_cons, List.length_append, List.length_cons, List.length_cons,
      ← tagsText]
    omega

theorem length_le_fieldsText (fields : List (Chars × FieldValue F)) (rest : Chars) :
    fields.length ≤ (fieldsText repr fields ++ ' ' :: rest).length := by
  induction fields with
  | nil => exact Nat.zero_le _
  | cons field fields ih =>
    rw [fieldsText_cons]
    cases fields with
    | nil =>
      simp only [List.length_cons, List.length_nil, List.length_append]
      omega
    | cons next fields =>
      rw [afterField]
      · simp only [List.length_cons, List.length_append] at ih ⊢
        omega
      · simp

def LineEnd (rest : Chars) : Prop := rest = [] ∨ ∃ next, rest = '\n' :: next

theorem readInt_line (n : ℤ) (h : LineEnd rest) :
    readInt ((intText n ++ rest).takeWhile (· ≠ '\n')) = some n ∧
      (intText n ++ rest).dropWhile (· ≠ '\n') = rest := by
  have hall : ∀ c ∈ intText n, decide (c ≠ '\n') = true := by
    intro c hc
    rcases mem_intText hc with hdigit | rfl
    · rw [decide_eq_true_eq]
      rintro rfl
      cases hdigit
    · rfl
  rw [List.takeWhile_append_of_pos hall, List.dropWhile_append_of_pos hall]
  rcases h with rfl | ⟨next, rfl⟩
  · exact ⟨by rw [List.takeWhile_nil, List.append_nil, readInt_intText], rfl⟩
  · rw [List.takeWhile_cons_of_neg (by simp), List.dropWhile_cons_of_neg (by simp),
      List.append_nil]
    exact ⟨readInt_intText n, rfl⟩

theorem readPoint_pointText (hfloats : ReadsFloats repr readFloat) (hp : Sendable p)
    (h : LineReadable p) (hend : LineEnd rest) :
    readPoint readFloat (pointText repr p ++ rest) = some (expected p, rest) := by
  obtain ⟨d, after, hd, hstop, hafter⟩ := afterMeasurement p
    (fieldsText repr (sortedItems p.fields) ++ ' ' :: (intText p.timestamp ++ rest))
  have hscan := scan_escape suits_measurement hd hstop endsMeasurement_cleaned h.measurement after
  obtain ⟨hint, hrest⟩ := readInt_line p.timestamp hend
  have hfields : sortedItems p.fields ≠ [] := fun hnil =>
    hp.some (List.eq_nil_iff_forall_not_mem.mpr fun item hitem => by
      rw [← mem_sortedItems, hnil] at hitem
      cases hitem)
  simp only [pointText, List.append_assoc, List.cons_append]
  rw [readPoint, hafter, escapeMeasurement, hscan]
  simp only [if_neg (cleaned_ne_nil hp.measurement)]
  rw [← hafter, readTags_tagsText hp.keys h.tags
    (le_trans (length_le_tagsText _) (by rw [List.length_append]; exact Nat.le_add_right _ _))]
  simp only [Option.bind_eq_bind, Option.bind_some]
  rw [readFields_fieldsText hfloats hfields
    (fun field hfield => hp.fields field (mem_sortedItems.mp hfield)) hp.fits h.fields
    (length_le_fieldsText _ _)]
  simp only [Option.bind_some, hint, hrest]
  rfl

theorem readPoint_eq_some {r : Read F} (h : readPoint readFloat s = some (r, rest)) :
    ∃ text more last, scan escapable endsMeasurement s = (r.measurement, text) ∧
      readTags text.length text = some (r.tags, ' ' :: more) ∧
      readFields readFloat more.length more = some (r.fields, ' ' :: last) := by
  rw [readPoint] at h
  rcases hscan : scan escapable endsMeasurement s with ⟨measurement, text⟩
  rw [hscan] at h
  by_cases hm : measurement = []
  · simp only [if_pos hm, reduceCtorEq] at h
  simp only [if_neg hm, Option.bind_eq_bind, Option.bind_eq_some_iff] at h
  obtain ⟨⟨tags, after⟩, htags, h⟩ := h
  rcases after with - | ⟨c, more⟩
  · cases h
  by_cases hc : c = ' '
  · subst hc
    simp only [Option.bind_eq_some_iff] at h
    obtain ⟨⟨fields, after⟩, hfields, h⟩ := h
    rcases after with - | ⟨d, last⟩
    · cases h
    by_cases hd : d = ' '
    · subst hd
      simp only [Option.bind_eq_some_iff] at h
      obtain ⟨timestamp, -, h⟩ := h
      cases h
      exact ⟨text, more, last, rfl, htags, hfields⟩
    · simp [hd] at h
  · simp [hc] at h

theorem lineReadable_of_readPoint (hfloats : ReadsFloats repr readFloat) (hp : Sendable p)
    (h : readPoint readFloat (pointText repr p ++ rest) = some (expected p, rest')) :
    LineReadable p := by
  obtain ⟨d, after, hd, hstop, hafter⟩ := afterMeasurement p
    (fieldsText repr (sortedItems p.fields) ++ ' ' :: (intText p.timestamp ++ rest))
  simp only [pointText, List.append_assoc, List.cons_append] at h
  obtain ⟨text, more, last, hscan, htags, hfields⟩ := readPoint_eq_some h
  rw [hafter, escapeMeasurement] at hscan
  have hmeasurement : Readable measurementEscapes escapable (cleaned p.measurement) :=
    readable_of_scan suits_measurement hd hstop endsMeasurement_cleaned (congrArg Prod.fst hscan)
  rw [scan_escape suits_measurement hd hstop endsMeasurement_cleaned hmeasurement] at hscan
  rw [← (Prod.mk.inj hscan).2, ← hafter] at htags
  have htag := tagReadable_of_readTags htags
  rw [readTags_tagsText hp.keys htag
    (le_trans (length_le_tagsText _) (by rw [List.length_append]; exact Nat.le_add_right _ _))]
    at htags
  rw [← (List.cons.inj (Prod.mk.inj (Option.some.inj htags)).2).2] at hfields
  exact ⟨hmeasurement, htag, keyReadable_of_readFields hfloats hp.fits hfields⟩

theorem batchText_cons (repr : F → Chars) (p : Point F) (points : List (Point F)) :
    ∃ rest, LineEnd rest ∧
      ['\n'].intercalate ((p :: points).map (pointText repr)) = pointText repr p ++ rest ∧
      ((points = [] ∧ rest = []) ∨
        points ≠ [] ∧ rest = '\n' :: ['\n'].intercalate (points.map (pointText repr))) := by
  cases points with
  | nil => exact ⟨[], .inl rfl, by simp [List.intercalate], .inl ⟨rfl, rfl⟩⟩
  | cons next points =>
    exact ⟨_, .inr ⟨_, rfl⟩, by simp [List.intercalate], .inr ⟨List.cons_ne_nil _ _, rfl⟩⟩

theorem readBatch_eq_some_iff {r : Read F} {rs : List (Read F)} :
    readBatch readFloat (fuel + 1) s = some (r :: rs) ↔
      ∃ rest, readPoint readFloat s = some (r, rest) ∧
        ((rest = [] ∧ rs = []) ∨
          ∃ c next, rest = c :: next ∧ readBatch readFloat fuel next = some rs) := by
  rw [readBatch]
  rcases readPoint readFloat s with - | ⟨p, - | ⟨c, next⟩⟩
  · simp
  · simp only [Option.some.injEq, List.cons.injEq, Prod.mk.injEq]
    constructor
    · rintro ⟨rfl, rfl⟩
      exact ⟨[], ⟨rfl, rfl⟩, .inl ⟨rfl, rfl⟩⟩
    · rintro ⟨rest, ⟨rfl, rfl⟩, ⟨-, rfl⟩ | ⟨c, next, heq, -⟩⟩
      · exact ⟨rfl, rfl⟩
      · cases heq
  · simp only [Option.map_eq_some_iff, List.cons.injEq, Option.some.injEq, Prod.mk.injEq]
    constructor
    · rintro ⟨points, hread, rfl, rfl⟩
      exact ⟨_, ⟨rfl, rfl⟩, .inr ⟨c, next, rfl, hread⟩⟩
    · rintro ⟨rest, ⟨rfl, rfl⟩, ⟨heq, -⟩ | ⟨d, after, heq, hread⟩⟩
      · cases heq
      · cases heq
        exact ⟨rs, hread, rfl, rfl⟩

theorem readBatch_batch (hfloats : ReadsFloats repr readFloat) (hne : points ≠ [])
    (hp : ∀ p ∈ points, Sendable p)
    (hfuel : (['\n'].intercalate (points.map (pointText repr))).length < fuel) :
    readBatch readFloat fuel (['\n'].intercalate (points.map (pointText repr))) =
        some (points.map expected) ↔ ∀ p ∈ points, LineReadable p := by
  induction points generalizing fuel with
  | nil => exact absurd rfl hne
  | cons p points ih =>
    obtain ⟨rest, hend, htext, hcases⟩ := batchText_cons repr p points
    obtain ⟨fuel, rfl⟩ : ∃ n, fuel = n + 1 := ⟨fuel - 1, by omega⟩
    have hsend := hp p List.mem_cons_self
    have hfirst (h : LineReadable p) :
        readPoint readFloat (pointText repr p ++ rest) = some (expected p, rest) :=
      readPoint_pointText hfloats hsend h hend
    rw [htext, List.length_append] at hfuel
    rw [htext, List.map_cons, readBatch_eq_some_iff, List.forall_mem_cons]
    rcases hcases with ⟨rfl, rfl⟩ | ⟨hpoints, rfl⟩
    · constructor
      · rintro ⟨rest, hread, -⟩
        exact ⟨lineReadable_of_readPoint hfloats hsend hread, nofun⟩
      · rintro ⟨hline, -⟩
        exact ⟨[], hfirst hline, .inl ⟨rfl, rfl⟩⟩
    · rw [List.length_cons] at hfuel
      have hrest := ih hpoints (fun p hmem => hp p (List.mem_cons_of_mem _ hmem))
        (show _ < fuel by omega)
      constructor
      · rintro ⟨rest, hread, hcases⟩
        have hline := lineReadable_of_readPoint hfloats hsend hread
        obtain rfl := (Prod.mk.inj (Option.some.inj ((hfirst hline).symm.trans hread))).2
        refine ⟨hline, hrest.mp ?_⟩
        rcases hcases with ⟨heq, -⟩ | ⟨c, next, heq, hread⟩
        · cases heq
        · cases heq
          exact hread
      · rintro ⟨hline, hlines⟩
        exact ⟨_, hfirst hline, .inr ⟨'\n', _, rfl, hrest.mpr hlines⟩⟩

/-- No name or tag of the point ends in a backslash, and its measurement has none before an equals
sign. -/
structure NoLooseBackslash (p : Point F) : Prop where
  measurement : p.measurement.getLast? ≠ some '\\'
  equals : ∀ pre post, p.measurement ≠ pre ++ '\\' :: '=' :: post
  tags : ∀ tag ∈ p.tags.items, tag.2 ≠ [] →
    tag.1.getLast? ≠ some '\\' ∧ tag.2.getLast? ≠ some '\\'
  fields : ∀ field ∈ p.fields.items, field.1.getLast? ≠ some '\\'

theorem lineReadable_iff : LineReadable p ↔ NoLooseBackslash p := by
  constructor
  · rintro ⟨hmeasurement, htags, hfields⟩
    obtain ⟨hlast, hequals⟩ := measurementReadable_iff.mp hmeasurement
    refine ⟨hlast, hequals, fun tag htag hne => ?_, fun field hfield => ?_⟩
    · obtain ⟨hkey, hvalue⟩ := htags tag
        (List.mem_filter.mpr ⟨mem_sortedItems.mpr htag, decide_eq_true hne⟩)
      exact ⟨keyReadable_iff.mp hkey, keyReadable_iff.mp hvalue⟩
    · exact keyReadable_iff.mp (hfields field (mem_sortedItems.mpr hfield))
  · rintro ⟨hlast, hequals, htags, hfields⟩
    refine ⟨measurementReadable_iff.mpr ⟨hlast, hequals⟩, fun tag htag => ?_,
      fun field hfield => ?_⟩
    · obtain ⟨hmem, hne⟩ := List.mem_filter.mp htag
      obtain ⟨hkey, hvalue⟩ := htags tag (mem_sortedItems.mp hmem) (of_decide_eq_true hne)
      exact ⟨keyReadable_iff.mpr hkey, keyReadable_iff.mpr hvalue⟩
    · exact keyReadable_iff.mpr (hfields field (mem_sortedItems.mp hfield))

def RoundTrips (repr : F → Chars) (readFloat : Chars → Option F) (points : List (Point F)) : Prop :=
  ∃ text, renderBatch repr points = .ok text ∧
    readBatch readFloat (text.length + 1) text = some (points.map expected)

theorem roundTrips_iff_lineReadable (hne : points ≠ []) (hp : ∀ p ∈ points, Sendable p)
    (hfloats : ReadsFloats repr readFloat) :
    RoundTrips repr readFloat points ↔ ∀ p ∈ points, LineReadable p := by
  have hrender : renderBatch repr points = .ok _ := renderBatch_eq fun p hmem => (hp p hmem).some
  have hread := readBatch_batch hfloats hne hp (Nat.lt_succ_self _)
  constructor
  · rintro ⟨text, htext, hpoints⟩
    obtain rfl := Except.ok.inj (hrender.symm.trans htext)
    exact hread.mp hpoints
  · intro h
    exact ⟨_, hrender, hread.mpr h⟩

theorem render_batch_round_trip {points : List (Point F)} (hne : points ≠ [])
    (hp : ∀ p ∈ points, Sendable p) (hfloats : ReadsFloats repr readFloat) :
    RoundTrips repr readFloat points ↔ ∀ p ∈ points, NoLooseBackslash p := by
  rw [roundTrips_iff_lineReadable hne hp hfloats]
  exact forall₂_congr fun p _ => lineReadable_iff

/-- The one float of the point below. -/
def reprHalf : Unit → Chars := fun _ => "0.5".toList

def readHalf (s : Chars) : Option Unit := if s = "0.5".toList then some () else none

def subnetPoint (space : String) : Point Unit where
  measurement := "subnet_utilization".toList
  tags := ⟨[("subnet".toList, "192.0.2.0/24".toList), ("space".toList, space.toList)],
    show ["subnet".toList, "space".toList].Nodup by decide⟩
  fields := ⟨[("allocated".toList, .int 3), ("percent".toList, .float ())],
    show ["allocated".toList, "percent".toList].Nodup by decide⟩
  timestamp := 1700000000

theorem readsFloats_half : ReadsFloats reprHalf readHalf where
  chars | () => by simp [reprHalf, Char.isDigit]
  nonempty | () => by decide
  reads | () => by decide

theorem sendable_subnetPoint (space : String) : Sendable (subnetPoint space) where
  measurement := show "subnet_utilization".toList ≠ [] by decide
  tags tag htag := by
    rcases List.mem_pair.mp htag with rfl | rfl <;> simp
  fields field hfield := by
    rcases List.mem_pair.mp hfield with rfl | rfl <;> simp
  ints key n hmem := by
    rcases List.mem_pair.mp hmem with heq | heq
    · rw [FieldValue.int.inj (Prod.mk.inj heq).2]
      decide
    · cases (Prod.mk.inj heq).2
  some := List.cons_ne_nil _ _

theorem render_batch_round_trip_subnet : RoundTrips reprHalf readHalf [subnetPoint "lab"] := by
  refine (render_batch_round_trip (List.cons_ne_nil _ _) ?_ readsFloats_half).mpr ?_
  · exact List.forall_mem_singleton.mpr (sendable_subnetPoint "lab")
  · have hmeasurement : '\\' ∉ (subnetPoint "lab").measurement := by decide
    refine List.forall_mem_singleton.mpr ⟨by decide, fun pre post heq => hmeasurement ?_, ?_, ?_⟩
    · rw [heq]
      simp
    · intro tag htag
      rcases List.mem_pair.mp htag with rfl | rfl <;> decide
    · intro field hfield
      rcases List.mem_pair.mp hfield with rfl | rfl <;> decide

/-- A space whose name ends in a backslash: its tag runs into the next one, and the batch is no
line protocol. -/
theorem subnet_batch_refused :
    ¬ ∀ points : List (Point Unit), points ≠ [] → (∀ p ∈ points, Sendable p) →
      RoundTrips reprHalf readHalf points := by
  intro h
  have hsend := List.forall_mem_singleton.mpr (sendable_subnetPoint "lab\\")
  have hline := (roundTrips_iff_lineReadable (List.cons_ne_nil _ _) hsend readsFloats_half).mp
    (h _ (List.cons_ne_nil _ _) hsend)
  obtain ⟨-, hvalue⟩ := (lineReadable_iff.mp (hline _ List.mem_cons_self)).tags
    ("space".toList, "lab\\".toList) (List.mem_cons_of_mem _ List.mem_cons_self) (by decide)
  exact hvalue (by decide)

end SpatiumDdi.Influxdb
