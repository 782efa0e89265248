import SpatiumDdi.Dns.ReverseRead

/-!
Where the reverse zones of a subnet are the zones its addresses pick: exactly where each
zone with addresses of the subnet owns one of the starts.
-/

namespace SpatiumDdi.Dns.Reverse

open Ipaddress Text

section Argmax

variable {α β : Type} [LinearOrder β] {f : α → β} {M : β}

theorem argmax_eq_find? {l : List α} (hle : ∀ x ∈ l, f x ≤ M) (hex : ∃ x ∈ l, f x = M) :
    l.argmax f = l.find? (f · = M) := by
  induction l with
  | nil =>
    obtain ⟨x, hx, -⟩ := hex
    cases hx
  | cons x l ih =>
    have hle' : ∀ y ∈ l, f y ≤ M := fun y hy => hle y (List.mem_cons_of_mem x hy)
    rw [List.argmax_cons]
    by_cases hx : f x = M
    · rw [List.find?_cons_of_pos (by simpa using hx)]
      cases hc : l.argmax f with
      | none => rfl
      | some c =>
        have hnot : ¬f x < f c := by
          rw [hx]
          exact not_lt.mpr (hle' c (List.argmax_mem hc))
        exact if_neg hnot
    · have hex' : ∃ y ∈ l, f y = M := by
        obtain ⟨y, hy, hfy⟩ := hex
        rcases List.mem_cons.mp hy with rfl | hy
        · exact absurd hfy hx
        · exact ⟨y, hy, hfy⟩
      rw [List.find?_cons_of_neg (by simpa using hx), ih hle' hex']
      cases hc : l.find? (f · = M) with
      | none =>
        obtain ⟨y, hy, hfy⟩ := hex'
        have hnone := List.find?_eq_none.mp hc y hy
        simp [hfy] at hnone
      | some c =>
        have hfc : f c = M := by simpa using List.find?_some hc
        have hlt : f x < f c := by
          rw [hfc]
          exact lt_of_le_of_ne (hle x List.mem_cons_self) hx
        exact if_pos hlt

end Argmax

section Pick

variable {subnet : Subnet} {candidates : List ReverseCandidate} {a b : Address}
  {zone zone' : DNSZone} {name name' : Chars}

theorem pickStep_eq (best : Option DNSZone) (c : ReverseCandidate) :
    pickStep subnet a best c =
      if adopted subnet c && decide (covers a c.zone.name) then
        match best with
        | none => some c.zone
        | some owner =>
          if reverseOwnerKey owner < reverseOwnerKey c.zone then some c.zone else some owner
      else best := by
  cases heligible : linkedHere subnet c.zone || c.inGroup <;> cases hskipped : crossSpace subnet c <;>
    by_cases hunder : covers a c.zone.name <;> cases best <;>
      simp [pickStep, adopted, heligible, hskipped, hunder]

theorem foldl_pickStep (l : List ReverseCandidate) (best : Option ReverseCandidate) :
    l.foldl (pickStep subnet a) (best.map (·.zone)) =
      ((l.filter fun c => adopted subnet c && decide (covers a c.zone.name)).foldl
        (List.argAux fun b c => reverseOwnerKey c.zone < reverseOwnerKey b.zone) best).map
          (·.zone) := by
  induction l generalizing best with
  | nil => rfl
  | cons c l ih =>
    rw [List.foldl_cons, pickStep_eq, List.filter_cons]
    split
    · rw [List.foldl_cons, ← ih]
      cases best with
      | none => rfl
      | some b =>
        rw [List.argAux]
        dsimp only [Option.map_some]
        split <;> rfl
    · exact ih best

theorem pick_eq_argmax :
    pickReverseZone subnet a candidates =
      (((candidates.filter fun c => adopted subnet c && decide (covers a c.zone.name)).argmax
        fun c => reverseOwnerKey c.zone).map (·.zone)).filter ipamAuthorsZone := by
  rw [pickReverseZone]
  exact congrArg _ (foldl_pickStep candidates none)

theorem key_le {z z' : DNSZone} : reverseOwnerKey z ≤ reverseOwnerKey z' →
    nameLength z ≤ nameLength z' := by
  intro h
  rcases Prod.Lex.toLex_le_toLex.mp h with hlt | ⟨heq, -⟩
  · exact Nat.le_of_lt hlt
  · exact Nat.le_of_eq heq

theorem pick_owns (h : pickReverseZone subnet a candidates = some zone) :
    Owns subnet candidates a zone := by
  rw [pick_eq_argmax, Option.filter_eq_some_iff, Option.map_eq_some_iff] at h
  obtain ⟨⟨c, hc, rfl⟩, hprimary⟩ := h
  have hmem := List.argmax_mem hc
  rw [List.mem_filter, Bool.and_eq_true, decide_eq_true_eq] at hmem
  refine ⟨⟨c, hmem.1, hmem.2.1, rfl⟩, hprimary, hmem.2.2, ?_⟩
  intro c' hc' hadopted hcovers
  have hin : c' ∈ candidates.filter fun c => adopted subnet c && decide (covers a c.zone.name) :=
    List.mem_filter.mpr ⟨hc', by rw [hadopted, decide_eq_true hcovers]; rfl⟩
  exact key_le (List.le_of_mem_argmax (f := fun c => reverseOwnerKey c.zone) hin hc)

theorem covers_injective (h : covers a name) (h' : covers a name')
    (hlen : (rstripDotsChars name).length = (rstripDotsChars name').length) :
    rstripDotsChars name = rstripDotsChars name' := by
  have hend : ∀ name, covers a name → rstripDotsChars name ++ ['.'] <:+ a.reversePointer ++ ['.'] := by
    rintro name (hunder | hat)
    · exact (List.suffix_cons '.' _).trans hunder
    · rw [hat]
  have hle : (rstripDotsChars name ++ ['.']).length ≤ (rstripDotsChars name' ++ ['.']).length := by
    rw [List.length_append, List.length_append, hlen]
  have heq := (List.suffix_of_suffix_length_le (hend name h) (hend name' h') hle).eq_of_length (by
    rw [List.length_append, List.length_append, hlen])
  exact List.append_cancel_right heq

theorem covers_congr (h : rstripDotsChars name = rstripDotsChars name') :
    covers a name ↔ covers a name' := by
  rw [covers, covers, h]

/-- The first primary candidate of a zone's name. -/
def author (subnet : Subnet) (candidates : List ReverseCandidate) (zone : DNSZone) :
    Option DNSZone :=
  (candidates.find? fun c => adopted subnet c &&
    (decide (rstripDotsChars c.zone.name = rstripDotsChars zone.name) &&
      ipamAuthorsZone c.zone)).map (·.zone)

theorem author_condition (hprimary : ipamAuthorsZone zone) (hcovers : covers a zone.name)
    (c : ReverseCandidate) :
    ((adopted subnet c && decide (covers a c.zone.name)) = true ∧
        reverseOwnerKey c.zone = reverseOwnerKey zone) ↔
      (adopted subnet c && (decide (rstripDotsChars c.zone.name = rstripDotsChars zone.name) &&
        ipamAuthorsZone c.zone)) = true := by
  simp only [Bool.and_eq_true, decide_eq_true_eq]
  constructor
  · rintro ⟨⟨hadopted, hunder⟩, hkey⟩
    have hlen := congrArg (fun k => (ofLex k).1) hkey
    have htype := congrArg (fun k => (ofLex k).2) hkey
    exact ⟨hadopted, covers_injective hunder hcovers hlen, htype.trans hprimary⟩
  · rintro ⟨hadopted, hname, hauthors⟩
    refine ⟨⟨hadopted, (covers_congr hname).mpr hcovers⟩, ?_⟩
    rw [reverseOwnerKey, reverseOwnerKey, hname, hauthors, hprimary]

theorem pick_of_owns (h : Owns subnet candidates a zone) :
    pickReverseZone subnet a candidates = author subnet candidates zone := by
  obtain ⟨⟨owner, howner, hadopted, rfl⟩, hprimary, hcovers, hlongest⟩ := h
  have hargmax := argmax_eq_find? (M := reverseOwnerKey owner.zone)
    (f := fun c : ReverseCandidate => reverseOwnerKey c.zone)
    (l := candidates.filter fun c => adopted subnet c && decide (covers a c.zone.name))
    (fun c hc => by
      rw [List.mem_filter, Bool.and_eq_true, decide_eq_true_eq] at hc
      have hle := hlongest c hc.1 hc.2.1 hc.2.2
      rw [reverseOwnerKey, reverseOwnerKey, Prod.Lex.toLex_le_toLex]
      rcases Nat.lt_or_eq_of_le hle with hlt | heq
      · exact .inl hlt
      · exact .inr ⟨heq, by rw [hprimary]; exact Bool.le_true _⟩)
    ⟨owner, List.mem_filter.mpr ⟨howner, by rw [hadopted, decide_eq_true hcovers]; rfl⟩, rfl⟩
  rw [pick_eq_argmax, hargmax, List.find?_filter, author]
  have hcondition : (fun c : ReverseCandidate =>
      decide ((adopted subnet c && decide (covers a c.zone.name)) = true ∧
        decide (reverseOwnerKey c.zone = reverseOwnerKey owner.zone) = true)) =
      fun c => adopted subnet c &&
        (decide (rstripDotsChars c.zone.name = rstripDotsChars owner.zone.name) &&
          ipamAuthorsZone c.zone) := by
    funext c
    apply Bool.eq_iff_iff.mpr
    simp only [decide_eq_true_eq]
    exact author_condition hprimary hcovers c
  rw [hcondition]
  cases hfound : candidates.find? _ with
  | none => rfl
  | some c =>
    have hc := List.find?_some hfound
    rw [Bool.and_eq_true, Bool.and_eq_true] at hc
    rw [Option.map_some, Option.filter_some, hc.2.2]
    rfl

theorem author_name (h : author subnet candidates zone = some zone') :
    rstripDotsChars zone'.name = rstripDotsChars zone.name := by
  obtain ⟨c, hc, rfl⟩ := Option.map_eq_some_iff.mp h
  have hfound := List.find?_some hc
  simp only [Bool.and_eq_true, decide_eq_true_eq] at hfound
  exact hfound.2.1

section

variable (h : Owns subnet candidates a zone)
include h

theorem Owns.of_name (h' : Owns subnet candidates b zone')
    (hname : rstripDotsChars zone'.name = rstripDotsChars zone.name) :
    Owns subnet candidates b zone := by
  refine ⟨h.adopted, h.primary, (covers_congr hname).mp h'.covers, ?_⟩
  intro c hc hadopted hcovers
  have hle := h'.longest c hc hadopted hcovers
  rwa [nameLength, nameLength, hname] at hle

theorem pick_eq_of_owns (h' : Owns subnet candidates b zone) :
    pickReverseZone subnet a candidates = pickReverseZone subnet b candidates := by
  rw [pick_of_owns h, pick_of_owns h']

theorem owns_pick :
    ∃ zone', pickReverseZone subnet a candidates = some zone' ∧
      rstripDotsChars zone'.name = rstripDotsChars zone.name := by
  obtain ⟨owner, howner, hadopted, heq⟩ := h.adopted
  have hpick := pick_of_owns h
  cases hauthor : author subnet candidates zone with
  | none =>
    rw [author, Option.map_eq_none_iff] at hauthor
    have hnone := List.find?_eq_none.mp hauthor owner howner
    simp [hadopted, heq, h.primary] at hnone
  | some zone' => exact ⟨zone', hpick.trans hauthor, author_name hauthor⟩

end

end Pick

section Loop

variable {lower : String → String} {subnet : Subnet} {candidates l : List ReverseCandidate}
  {starts : List Nat}

theorem ipAddress_ok {value : Nat} (h : value < 2 ^ 128) : ∃ a, ipAddress value = .ok a := by
  rw [ipAddress]
  split
  · exact ⟨_, rfl⟩
  · rw [dif_pos (show value < 2 ^ Version.v6.maxPrefixlen from h)]
    exact ⟨_, rfl⟩

theorem value_lt (net : Net) : net.networkAddress < 2 ^ 128 := by
  refine lt_of_lt_of_le net.inRange ?_
  cases net.version <;> decide

theorem zoneStarts_ok (net : Net)
    (h : ∀ c ∈ l, ∃ covered, reverseZoneNetwork lower c.zone.name = .ok covered) :
    ∃ starts, zoneStarts lower net l = .ok starts ∧ ∀ x, x ∈ starts ↔
      ∃ c ∈ l, ∃ covered, reverseZoneNetwork lower c.zone.name = .ok (some covered) ∧
        covered.overlaps net ∧ x = max covered.networkAddress net.networkAddress := by
  induction l with
  | nil => exact ⟨[], rfl, by simp⟩
  | cons c l ih =>
    obtain ⟨covered, hcovered⟩ := h c List.mem_cons_self
    obtain ⟨starts, hstarts, hmem⟩ := ih fun c' hc' => h c' (List.mem_cons_of_mem c hc')
    rw [zoneStarts, ok_bind hcovered, ok_bind hstarts]
    cases covered with
    | none => exact ⟨starts, rfl, fun x => by simp [hmem, hcovered]⟩
    | some zone =>
      by_cases hmeets : zone.overlaps net
      · refine ⟨_, if_pos ⟨hmeets.1, hmeets⟩, fun x => ?_⟩
        simp [hmem, hcovered, hmeets]
      · refine ⟨starts, if_neg (fun hboth => hmeets hboth.2), fun x => ?_⟩
        simp [hmem, hcovered, hmeets]

theorem readable_of_zoneStarts {net : Net} (h : zoneStarts lower net l = .ok starts) :
    ∀ c ∈ l, ∃ covered, reverseZoneNetwork lower c.zone.name = .ok covered := by
  induction l generalizing starts with
  | nil => intro c hc; cases hc
  | cons c l ih =>
    rw [zoneStarts] at h
    cases hcovered : reverseZoneNetwork lower c.zone.name with
    | error e => rw [hcovered] at h; cases h
    | ok covered =>
      rw [ok_bind hcovered] at h
      cases hrest : zoneStarts lower net l with
      | error e => rw [hrest] at h; cases h
      | ok rest =>
        intro c' hc'
        rcases List.mem_cons.mp hc' with rfl | hc'
        · exact ⟨covered, hcovered⟩
        · exact ih hrest c' hc'

theorem collectPicks_spec (subnet : Subnet)
    (hids : ∀ c ∈ candidates, ∀ c' ∈ candidates, c.zone.id = c'.zone.id → c.zone = c'.zone)
    (hstarts : ∀ x ∈ starts, x < 2 ^ 128) {out : List DNSZone}
    (hout : ∀ zone ∈ out, ∃ c ∈ candidates, c.zone = zone) :
    ∃ zones, collectPicks subnet candidates starts out = .ok zones ∧ ∀ zone, zone ∈ zones ↔
      zone ∈ out ∨ ∃ x ∈ starts, ∃ a, ipAddress x = .ok a ∧
        pickReverseZone subnet a candidates = some zone := by
  induction starts generalizing out with
  | nil => exact ⟨out, rfl, by simp⟩
  | cons x starts ih =>
    have hrest : ∀ y ∈ starts, y < 2 ^ 128 := fun y hy => hstarts y (List.mem_cons_of_mem x hy)
    obtain ⟨a, ha⟩ := ipAddress_ok (hstarts x List.mem_cons_self)
    rw [collectPicks, ok_bind ha]
    cases hpick : pickReverseZone subnet a candidates with
    | none =>
      obtain ⟨zones, hzones, hmem⟩ := ih hrest hout
      exact ⟨zones, hzones, fun zone => by simp [hmem, ha, hpick]⟩
    | some z =>
      obtain ⟨owner, howner, -, heq⟩ := (pick_owns hpick).adopted
      by_cases hseen : z.id ∈ out.map (·.id)
      · obtain ⟨z', hz', hid⟩ := List.mem_map.mp hseen
        obtain ⟨c', hc', rfl⟩ := hout z' hz'
        have hsame : z = c'.zone := by
          rw [← heq]
          exact hids owner howner c' hc' (by rw [heq, hid])
        obtain ⟨zones, hzones, hmem⟩ := ih hrest hout
        refine ⟨zones, (if_pos hseen).trans hzones, fun zone => ?_⟩
        rw [hmem]
        constructor
        · rintro (h | ⟨y, hy, h⟩)
          · exact .inl h
          · exact .inr ⟨y, List.mem_cons_of_mem x hy, h⟩
        · rintro (h | ⟨y, hy, b, hb, hzone⟩)
          · exact .inl h
          · rcases List.mem_cons.mp hy with rfl | hy
            · rw [ha] at hb
              cases hb
              rw [hpick] at hzone
              cases hzone
              exact .inl (hsame ▸ hz')
            · exact .inr ⟨y, hy, b, hb, hzone⟩
      · have hout' : ∀ zone ∈ out ++ [z], ∃ c ∈ candidates, c.zone = zone := by
          intro zone hzone
          rcases List.mem_append.mp hzone with hzone | hzone
          · exact hout zone hzone
          · exact ⟨owner, howner, heq.trans (List.mem_singleton.mp hzone).symm⟩
        obtain ⟨zones, hzones, hmem⟩ := ih hrest hout'
        refine ⟨zones, (if_neg hseen).trans hzones, fun zone => ?_⟩
        rw [hmem]
        simp [ha, hpick, or_assoc, eq_comm]

theorem subnetReverseZones_ok (subnet : Subnet)
    (hids : ∀ c ∈ candidates, ∀ c' ∈ candidates, c.zone.id = c'.zone.id → c.zone = c'.zone)
    (hreadable : ∀ c ∈ candidates, ∃ covered, reverseZoneNetwork lower c.zone.name = .ok covered) :
    ∃ zones, subnetReverseZones lower subnet candidates = .ok zones ∧ ∀ zone, zone ∈ zones ↔
      ∃ s, Start lower subnet candidates s ∧ pickReverseZone subnet s candidates = some zone := by
  obtain ⟨starts, hstarts, hmem⟩ := zoneStarts_ok subnet.network hreadable
  have hall : ∀ x, x ∈ ((reverseZonePieces subnet.network).map (·.networkAddress) ++
      starts).dedup.insertionSort (· ≤ ·) ↔
      (∃ piece ∈ reverseZonePieces subnet.network, piece.networkAddress = x) ∨ x ∈ starts := by
    intro x
    rw [List.mem_insertionSort, List.mem_dedup, List.mem_append, List.mem_map]
  have hlt : ∀ x ∈ ((reverseZonePieces subnet.network).map (·.networkAddress) ++
      starts).dedup.insertionSort (· ≤ ·), x < 2 ^ 128 := by
    intro x hx
    rcases (hall x).mp hx with ⟨piece, -, rfl⟩ | hx
    · exact value_lt piece
    · obtain ⟨c, -, covered, -, -, rfl⟩ := (hmem x).mp hx
      exact max_lt (value_lt covered) (value_lt subnet.network)
  have hnone : ∀ zone ∈ ([] : List DNSZone), ∃ c ∈ candidates, c.zone = zone := by simp
  obtain ⟨zones, hzones, hpicks⟩ := collectPicks_spec subnet hids hlt hnone
  refine ⟨zones, ?_, fun zone => ?_⟩
  · rw [subnetReverseZones, ok_bind hstarts]
    exact hzones
  · rw [hpicks]
    constructor
    · rintro (h | ⟨x, hx, s, hs, hzone⟩)
      · cases h
      · refine ⟨s, ?_, hzone⟩
        rcases (hall x).mp hx with ⟨piece, hpiece, rfl⟩ | hx
        · exact .piece piece hpiece hs
        · obtain ⟨c, hc, covered, hnamed, hmeets, rfl⟩ := (hmem x).mp hx
          exact .zone c hc covered hnamed hmeets hs
    · rintro ⟨s, hstart, hzone⟩
      refine .inr ?_
      cases hstart with
      | piece piece hpiece hs => exact ⟨_, (hall _).mpr (.inl ⟨piece, hpiece, rfl⟩), s, hs, hzone⟩
      | zone c hc covered hnamed hmeets hs =>
        exact ⟨_, (hall _).mpr (.inr ((hmem _).mpr ⟨c, hc, covered, hnamed, hmeets, rfl⟩)), s, hs,
          hzone⟩

theorem readable_of_ok {zones : List DNSZone}
    (h : subnetReverseZones lower subnet candidates = .ok zones) :
    ∀ c ∈ candidates, ∃ covered, reverseZoneNetwork lower c.zone.name = .ok covered := by
  cases hstarts : zoneStarts lower subnet.network candidates with
  | error e =>
    rw [subnetReverseZones, hstarts] at h
    cases h
  | ok starts => exact readable_of_zoneStarts hstarts

section OwnNames

variable (hnames : ∀ c ∈ candidates, c.zone.name ∈ computeReverseZoneNames subnet.network)

include hnames

end OwnNames

end Loop

def tenOne : Subnet := { id := 1, spaceId := 1, network := .ofValue .v4 (10 * 2 ^ 24 + 2 ^ 16) 16 }

def groupZone (id : Nat) (name : String) : ReverseCandidate where
  zone := { id, name := name.toList, zoneType := .primary, kind := .reverse, linkedSubnetId := none }
  linkedSpaceId := none
  linkedNetwork := none
  inGroup := true

/-- A zone and one beneath it that starts at the same address. -/
def nestedZones : List ReverseCandidate :=
  [groupZone 1 "1.10.in-addr.arpa.", groupZone 2 "0.1.10.in-addr.arpa."]

end SpatiumDdi.Dns.Reverse
