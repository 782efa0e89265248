import SpatiumDdi.Ipam.SubnetsApart

/-!
`carve_children` (`services/ipam/templates.py`) with what it returns and how it may fail: the slots
of a layout stand one behind the other, and each is compared with the block's own subnets only.
-/

namespace SpatiumDdi.Ipam.Template

open Ipaddress

inductive AppliesTo where
  | block
  | subnet
deriving DecidableEq

/-- An element of `child_layout.children`; what a row takes over from it unread is left out. -/
structure LayoutEntry where
  prefixlen : ℤ
  nameTemplate : String

structure IPAMTemplate where
  appliesTo : AppliesTo
  childLayout : Option (List LayoutEntry)

structure CarvedChild where
  cidr : Net
  name : String
  skipped : Bool

/-- What `str.format` raises: an error that `_render_child_name` catches, or another. -/
inductive FormatError where
  | keyError
  | valueError
  | indexError
  | other

inductive TemplateError where
  | notForBlocks
  | noChildren
  | badPrefix
  | overflows (index : ℕ)
  | overlaps (child existing : Net)

inductive CarveError where
  | template (error : TemplateError)
  /-- `1 << (max_prefixlen - prefix)` with a negative shift count. -/
  | negativeShift
  | format

section Code

variable (format : String → Net → ℕ → Except FormatError String) (str : Net → String)

def renderChildName (template : String) (network : Net) (index : ℕ) : Except CarveError String :=
  if template = "" then .ok ""
  else
    match format template network index with
    | .ok name => .ok name
    | .error .other => .error .format
    | .error _ => .ok (str network)

def validateChildLayout (children : List LayoutEntry) (parentPrefix : ℕ) :
    Except CarveError (List (ℕ × String)) :=
  if children = [] then .error (.template .noChildren)
  else if ∃ entry ∈ children, entry.prefixlen ≤ parentPrefix then .error (.template .badPrefix)
  else .ok (children.map fun entry => (entry.prefixlen.toNat, entry.nameTemplate))

def existingSubnetsUnderBlock (σ : Store) (blockId : ℕ) : List Net :=
  (σ.liveSubnets fun _ s => s.blockId == blockId).map (·.2.network)

def alignUp (cursor size : ℕ) : ℕ := (cursor + size - 1) / size * size

/-- The loop of `carve_children`, from an entry on. -/
def carveFrom (block : Net) (existing : List Net) :
    List Net → ℕ → ℕ → List (ℕ × String) → Except CarveError (List CarvedChild)
  | _, _, _, [] => .ok []
  | nets, cursor, index, (prefixlen, template) :: rest =>
    if block.version.maxPrefixlen < prefixlen then .error .negativeShift
    else
      let size := 2 ^ (block.version.maxPrefixlen - prefixlen)
      let aligned := alignUp cursor size
      if block.broadcastAddress < aligned + size - 1 then .error (.template (.overflows index))
      else
        let child := Net.ofValue block.version aligned prefixlen
        match renderChildName format str template child index with
        | .error e => .error e
        | .ok name =>
          if child ∈ existing then
            (carveFrom block existing nets (aligned + size) (index + 1) rest).map
              (⟨child, name, true⟩ :: ·)
          else
            match nets.find? fun n => n.overlaps child with
            | some clash => .error (.template (.overlaps child clash))
            | none =>
              (carveFrom block existing (nets ++ [child]) (aligned + size) (index + 1) rest).map
                (⟨child, name, false⟩ :: ·)

def CarvedChild.row (block : IPBlock) (blockId : ℕ) (child : CarvedChild) : Subnet where
  spaceId := block.spaceId
  blockId := blockId
  network := child.cidr
  kind := subnetKindFor child.cidr

def created (children : List CarvedChild) : List CarvedChild := children.filter fun c => !c.skipped

def carveChildren (σ : Store) (template : IPAMTemplate) (blockId : ℕ) (block : IPBlock) :
    Except CarveError (Store × List CarvedChild) :=
  match template.childLayout with
  | none => .ok (σ, [])
  | some layout =>
    if template.appliesTo ≠ .block then .error (.template .notForBlocks)
    else do
      let spec ← validateChildLayout layout block.network.prefixlen
      let existing := existingSubnetsUnderBlock σ blockId
      let children ←
        carveFrom format str block.network existing existing block.network.networkAddress 1 spec
      return ({ σ with
        subnets := σ.subnets.insertAll ((created children).map (·.row block blockId)) }, children)

end Code

section Rules

variable (format : String → Net → ℕ → Except FormatError String) (str : Net → String)

def SpaceApart (σ : Store) (spaceId : ℕ) : Prop :=
  ∀ i j s t, σ.getSubnet i = some s → σ.getSubnet j = some t → i ≠ j → s.spaceId = spaceId →
    t.spaceId = spaceId → ¬ s.network.overlaps t.network

structure LaidOut (block : Net) (layout : List LayoutEntry) (children : List CarvedChild) :
    Prop where
  prefixes : children.map (fun c => (c.cidr.prefixlen : ℤ)) = layout.map (·.prefixlen)
  inside : ∀ c ∈ children, c.cidr.subnetOf block
  ordered : children.Pairwise fun c d => c.cidr.broadcastAddress < d.cidr.networkAddress

/-- What the template leaves of a space: a refusal, or subnets that lie apart, with one row more for
each entry that is not skipped, and nothing to do for a second run. -/
def Carves (σ : Store) (template : IPAMTemplate) (blockId : ℕ) (block : IPBlock) : Prop :=
  match carveChildren format str σ template blockId block with
  | .error (.template _) => True
  | .error _ => False
  | .ok (σ', children) => SpaceApart σ' block.spaceId ∧
      LaidOut block.network (template.childLayout.getD []) children ∧
      σ'.subnets = σ.subnets.insertAll ((created children).map (·.row block blockId)) ∧
      carveChildren format str σ' template blockId block =
        .ok (σ', children.map fun c => { c with skipped := true })

variable (block : Net) (own : List Net)

def slotSize (p : ℕ) : ℕ := 2 ^ (block.version.maxPrefixlen - p)

/-- The first aligned network of a prefix from the cursor on. -/
def slot (cursor p : ℕ) : Net := Net.ofValue block.version (alignUp cursor (slotSize block p)) p

def behind (cursor p : ℕ) : ℕ := alignUp cursor (slotSize block p) + slotSize block p

def Fits (cursor p : ℕ) : Prop := behind block cursor p ≤ block.networkAddress + block.numAddresses

/-- The slot of an entry lies in the block, and is one of the block's own subnets or overlaps none of
them. -/
structure Placed (cursor p : ℕ) : Prop where
  le : p ≤ block.version.maxPrefixlen
  fits : Fits block cursor p
  clear : slot block cursor p ∈ own ∨ ∀ n ∈ own, ¬ n.overlaps (slot block cursor p)

def AllPlaced : ℕ → List (ℕ × String) → Prop
  | _, [] => True
  | cursor, (p, _) :: rest => Placed block own cursor p ∧ AllPlaced (behind block cursor p) rest

/-- Every entry up to the first that is not placed is no longer than an address, and where it fits,
its name can be rendered. -/
def AllSound : ℕ → ℕ → List (ℕ × String) → Prop
  | _, _, [] => True
  | cursor, index, (p, template) :: rest => p ≤ block.version.maxPrefixlen ∧
      (Fits block cursor p →
        ∃ name, renderChildName format str template (slot block cursor p) index = .ok name) ∧
      (Placed block own cursor p → AllSound (behind block cursor p) (index + 1) rest)

def slots : ℕ → List (ℕ × String) → List Net
  | _, [] => []
  | cursor, (p, _) :: rest => slot block cursor p :: slots (behind block cursor p) rest

end Rules

/-- A layout that is looked at has no prefix longer than an address and no name that cannot be
rendered before an entry is refused, and where none is, no slot overlaps a subnet of the space, the
block's own apart. -/
def Regular (format : String → Net → ℕ → Except FormatError String) (str : Net → String) (σ : Store)
    (template : IPAMTemplate) (blockId : ℕ) (block : IPBlock) : Prop :=
  ∀ layout spec, template.childLayout = some layout → template.appliesTo = .block →
    validateChildLayout layout block.network.prefixlen = .ok spec →
      let own := existingSubnetsUnderBlock σ blockId
      let start := block.network.networkAddress
      AllSound format str block.network own start 1 spec ∧
        (AllPlaced block.network own start spec → ∀ n ∈ slots block.network start spec, n ∉ own →
          ∀ i s, σ.getSubnet i = some s → s.spaceId = block.spaceId → ¬ s.network.overlaps n)

variable {block : Net} {own nets : List Net} {cursor p index : ℕ}

theorem slotSize_pos (block : Net) (p : ℕ) : 0 < slotSize block p := Nat.two_pow_pos _

theorem le_alignUp {size : ℕ} (hpos : 0 < size) : cursor ≤ alignUp cursor size := by
  have := Nat.lt_div_mul_add (a := cursor + size - 1) hpos
  unfold alignUp
  omega

theorem fits_iff : ¬ block.broadcastAddress <
    alignUp cursor (slotSize block p) + slotSize block p - 1 ↔ Fits block cursor p := by
  have hpos := slotSize_pos block p
  have hblock := block.numAddresses_pos
  unfold Fits behind Net.broadcastAddress
  omega

theorem slot_spec (hle : p ≤ block.version.maxPrefixlen) (hfits : Fits block cursor p) :
    (slot block cursor p).prefixlen = p ∧
      (slot block cursor p).numAddresses = slotSize block p ∧
      (slot block cursor p).networkAddress = alignUp cursor (slotSize block p) := by
  have hpos := slotSize_pos block p
  have hrange := block.end_le
  unfold Fits behind at hfits
  exact ⟨Net.ofValue_prefixlen _ hle, Net.ofValue_numAddresses _ hle,
    Net.ofValue_networkAddress hle (by omega) (Nat.dvd_mul_left _ _)⟩

theorem slot_ends (hle : p ≤ block.version.maxPrefixlen) (hfits : Fits block cursor p) :
    cursor ≤ (slot block cursor p).networkAddress ∧
      (slot block cursor p).networkAddress + (slot block cursor p).numAddresses =
        behind block cursor p := by
  obtain ⟨-, hsize, hstart⟩ := slot_spec hle hfits
  rw [hsize, hstart]
  exact ⟨le_alignUp (slotSize_pos block p), rfl⟩

theorem Placed.subnetOf (h : Placed block own cursor p) (hcursor : block.networkAddress ≤ cursor) :
    (slot block cursor p).subnetOf block := by
  obtain ⟨hstart, hend⟩ := slot_ends h.le h.fits
  exact Net.subnetOf_iff.mpr ⟨rfl, by omega, by rw [hend]; exact h.fits⟩

section

variable {format : String → Net → ℕ → Except FormatError String} {str : Net → String}
  {entries : List (ℕ × String)} {template : String}

theorem renderChildName_error {network : Net} {e : CarveError}
    (h : renderChildName format str template network index = .error e) : e = .format := by
  unfold renderChildName at h
  split at h
  · cases h
  · split at h <;> cases h
    rfl

/-- The children of entries that are all placed. -/
def laid (format : String → Net → ℕ → Except FormatError String) (str : Net → String) (block : Net)
    (own : List Net) : ℕ → ℕ → List (ℕ × String) → List CarvedChild
  | _, _, [] => []
  | cursor, index, (p, template) :: rest =>
    let name := renderChildName format str template (slot block cursor p) index
    ⟨slot block cursor p, name.toOption.getD "", slot block cursor p ∈ own⟩ ::
      laid format str block own (behind block cursor p) (index + 1) rest

/-- What a run of the loop says about its entries. -/
def Explains (format : String → Net → ℕ → Except FormatError String) (str : Net → String)
    (block : Net) (own : List Net) (cursor index : ℕ) (entries : List (ℕ × String)) :
    Except CarveError (List CarvedChild) → Prop
  | .ok children => AllSound format str block own cursor index entries ∧
      AllPlaced block own cursor entries ∧ children = laid format str block own cursor index entries
  | .error (.template _) => AllSound format str block own cursor index entries ∧
      ¬ AllPlaced block own cursor entries
  | .error _ => ¬ AllSound format str block own cursor index entries

theorem Explains.cons {name : String}
    (hname : renderChildName format str template (slot block cursor p) index = .ok name)
    (hplaced : Placed block own cursor p) {rest : List (ℕ × String)}
    {result : Except CarveError (List CarvedChild)}
    (h : Explains format str block own (behind block cursor p) (index + 1) rest result) :
    Explains format str block own cursor index ((p, template) :: rest)
      (result.map (⟨slot block cursor p, name, slot block cursor p ∈ own⟩ :: ·)) := by
  have hsound : AllSound format str block own cursor index ((p, template) :: rest) ↔
      AllSound format str block own (behind block cursor p) (index + 1) rest :=
    ⟨fun h => h.2.2 hplaced, fun h => ⟨hplaced.le, fun _ => ⟨name, hname⟩, fun _ => h⟩⟩
  have hall : AllPlaced block own cursor ((p, template) :: rest) ↔
      AllPlaced block own (behind block cursor p) rest := and_iff_right hplaced
  match result, h with
  | .ok children, ⟨h₁, h₂, h₃⟩ =>
    exact ⟨hsound.mpr h₁, hall.mpr h₂, by simp [laid, hname, h₃, Except.toOption]⟩
  | .error (.template _), ⟨h₁, h₂⟩ => exact ⟨hsound.mpr h₁, mt hall.mp h₂⟩
  | .error .negativeShift, h => exact mt hsound.mp h
  | .error .format, h => exact mt hsound.mp h

/-- What was carved before lies before the cursor. -/
theorem carveFrom_explains (hown : ∀ n ∈ own, n ∈ nets)
    (hnets : ∀ n ∈ nets, n ∈ own ∨ n.networkAddress + n.numAddresses ≤ cursor) :
    Explains format str block own cursor index entries
      (carveFrom format str block own nets cursor index entries) := by
  induction entries generalizing nets cursor index with
  | nil => exact ⟨trivial, trivial, rfl⟩
  | cons entry rest ih =>
    obtain ⟨p, template⟩ := entry
    rw [carveFrom]
    split
    next hlong => exact fun hsound => absurd hsound.1 (by omega)
    next hle =>
      replace hle : p ≤ block.version.maxPrefixlen := by omega
      dsimp only
      split
      next hover =>
        have hfits : ¬ Fits block cursor p := fun hfits => fits_iff.mpr hfits hover
        exact ⟨⟨hle, fun h => absurd h hfits, fun h => absurd h.fits hfits⟩,
          fun hall => hfits hall.1.fits⟩
      next hover =>
        have hfits : Fits block cursor p := fits_iff.mp hover
        change Explains _ _ _ _ _ _ _ (match renderChildName format str template
          (slot block cursor p) index with | .error e => _ | .ok name => _)
        split
        next e hname =>
          rw [renderChildName_error hname]
          intro hsound
          obtain ⟨name, hok⟩ := hsound.2.1 hfits
          cases hname.symm.trans hok
        next name hname =>
          change Explains _ _ _ _ _ _ _ (if slot block cursor p ∈ own then _ else _)
          split
          next hmem =>
            have hplaced : Placed block own cursor p := ⟨hle, hfits, .inl hmem⟩
            have hrest := @ih nets (behind block cursor p) (index + 1) hown fun n hn =>
              (hnets n hn).imp_right fun h => by have := slot_ends hle hfits; omega
            have hcons := Explains.cons hname hplaced hrest
            rw [decide_eq_true hmem] at hcons
            exact hcons
          next hmem =>
            split
            next clash hclash =>
              have hmeets : clash.overlaps (slot block cursor p) := by
                have hfound := List.find?_some hclash
                exact of_decide_eq_true hfound
              have hbefore : clash ∈ own := by
                refine (hnets clash (List.mem_of_find?_eq_some hclash)).resolve_right fun h => ?_
                have hends := slot_ends hle hfits
                obtain ⟨-, -, hlt⟩ := Net.overlaps_iff.mp hmeets
                omega
              have hbad : ¬ Placed block own cursor p := fun hplaced =>
                hplaced.clear.elim hmem fun h => h clash hbefore hmeets
              exact ⟨⟨hle, fun _ => ⟨name, hname⟩, fun h => absurd h hbad⟩, fun hall => hbad hall.1⟩
            next hnone =>
              have hclear : ∀ n ∈ nets, ¬ n.overlaps (slot block cursor p) := fun n hn hmeets =>
                List.find?_eq_none.mp hnone n hn (decide_eq_true hmeets)
              have hplaced : Placed block own cursor p :=
                ⟨hle, hfits, .inr fun n hn => hclear n (hown n hn)⟩
              have hends := slot_ends hle hfits
              have hrest := @ih (nets ++ [slot block cursor p]) (behind block cursor p) (index + 1)
                (fun n hn => List.mem_append_left _ (hown n hn)) fun n hn => by
                  rcases List.mem_append.mp hn with hn | hn
                  · exact (hnets n hn).imp_right fun h => by omega
                  · rw [List.mem_singleton.mp hn]
                    exact .inr hends.2.le
              have hcons := Explains.cons hname hplaced hrest
              rw [decide_eq_false hmem] at hcons
              exact hcons

theorem carveFrom_own : Explains format str block own cursor index entries
    (carveFrom format str block own own cursor index entries) :=
  carveFrom_explains (fun _ h => h) fun _ h => .inl h

theorem carveFrom_eq_laid (hsound : AllSound format str block own cursor index entries)
    (hplaced : AllPlaced block own cursor entries) :
    carveFrom format str block own own cursor index entries =
      .ok (laid format str block own cursor index entries) := by
  have h : Explains format str block own cursor index entries
    (carveFrom format str block own own cursor index entries) := carveFrom_own
  match hresult : carveFrom format str block own own cursor index entries with
  | .ok children =>
    rw [hresult] at h
    rw [h.2.2]
  | .error (.template e) =>
    rw [hresult] at h
    exact absurd hplaced h.2
  | .error .negativeShift =>
    rw [hresult] at h
    exact absurd hsound h
  | .error .format =>
    rw [hresult] at h
    exact absurd hsound h

/-- The children of a layout that is placed have its prefixes, and stand one behind the other. -/
theorem laid_spec (hplaced : AllPlaced block own cursor entries)
    (hcursor : block.networkAddress ≤ cursor) :
    (laid format str block own cursor index entries).map (·.cidr.prefixlen) =
        entries.map Prod.fst ∧
      (laid format str block own cursor index entries).Pairwise
        (fun c d => c.cidr.broadcastAddress < d.cidr.networkAddress) ∧
      ∀ c ∈ laid format str block own cursor index entries,
        c.cidr.subnetOf block ∧ cursor ≤ c.cidr.networkAddress := by
  induction entries generalizing cursor index with
  | nil => simp [laid]
  | cons entry rest ih =>
    obtain ⟨p, template⟩ := entry
    obtain ⟨hp, hrest⟩ := hplaced
    obtain ⟨hstart, hend⟩ := slot_ends hp.le hp.fits
    have hnext : cursor < behind block cursor p := by
      have := (slot block cursor p).numAddresses_pos
      omega
    obtain ⟨hprefixes, hordered, hinside⟩ := @ih _ (index + 1) hrest (by omega)
    refine ⟨?_, List.pairwise_cons.mpr ⟨fun c hc => ?_, hordered⟩, fun c hc => ?_⟩
    · exact congrArg₂ List.cons (slot_spec hp.le hp.fits).1 hprefixes
    · have := (slot block cursor p).numAddresses_pos
      have := (hinside c hc).2
      simp only [Net.broadcastAddress]
      omega
    · rcases List.mem_cons.mp hc with rfl | hc
      · exact ⟨hp.subnetOf hcursor, hstart⟩
      · obtain ⟨hsub, hle⟩ := hinside c hc
        exact ⟨hsub, by omega⟩

theorem mem_slots {n : Net} : n ∈ slots block cursor entries ↔
    ∃ c ∈ laid format str block own cursor index entries, c.cidr = n := by
  induction entries generalizing cursor index with
  | nil => simp [slots, laid]
  | cons entry rest ih => simp [slots, laid, @ih _ (index + 1), eq_comm]

theorem skipped_of_mem_laid {c : CarvedChild}
    (h : c ∈ laid format str block own cursor index entries) : c.skipped = decide (c.cidr ∈ own) := by
  induction entries generalizing cursor index with
  | nil => cases h
  | cons entry rest ih =>
    rcases List.mem_cons.mp h with rfl | h
    · rfl
    · exact ih h

/-- Where every slot is a subnet of the block by now, every entry is skipped. -/
theorem laid_again {own' : List Net} (hsound : AllSound format str block own cursor index entries)
    (hplaced : AllPlaced block own cursor entries)
    (hslots : ∀ n ∈ slots block cursor entries, n ∈ own') :
    AllSound format str block own' cursor index entries ∧ AllPlaced block own' cursor entries ∧
      laid format str block own' cursor index entries =
        (laid format str block own cursor index entries).map fun c => { c with skipped := true } := by
  induction entries generalizing cursor index with
  | nil => exact ⟨trivial, trivial, rfl⟩
  | cons entry rest ih =>
    obtain ⟨p, template⟩ := entry
    obtain ⟨hp, hrest⟩ := hplaced
    have hmem := hslots _ List.mem_cons_self
    obtain ⟨hsound', hplaced', hlaid⟩ := ih (hsound.2.2 hp) hrest fun n hn =>
      hslots n (List.mem_cons_of_mem _ hn)
    refine ⟨⟨hp.le, hsound.2.1, fun _ => hsound'⟩, ⟨⟨hp.le, hp.fits, .inl hmem⟩, hplaced'⟩, ?_⟩
    simp [laid, hlaid, hmem]

end

variable {σ σ' : Store} {spaceId blockId : ℕ}

/-- Rows that lie apart leave the space apart exactly if they meet no live subnet of it. -/
theorem spaceApart_insertAll_iff {rows : List Subnet} (hσ' : σ'.subnets = σ.subnets.insertAll rows)
    (hapart : SpaceApart σ spaceId) (hrows : ∀ r ∈ rows, r.spaceId = spaceId ∧ r.deletion = none)
    (hpair : rows.Pairwise fun r s => ¬ r.network.overlaps s.network) :
    SpaceApart σ' spaceId ↔ ∀ r ∈ rows, ∀ i s, σ.getSubnet i = some s → s.spaceId = spaceId →
      ¬ s.network.overlaps r.network := by
  have hget : ∀ {i s}, σ'.getSubnet i = some s ↔
      σ.getSubnet i = some s ∨ ∃ k, i = σ.subnets.next + k ∧ rows[k]? = some s := by
    intro i s
    rw [Store.getSubnet_eq_some, hσ', Table.get?_insertAll_iff, Store.getSubnet_eq_some]
    constructor
    · rintro ⟨h | h, hlive⟩
      · exact .inl ⟨h, hlive⟩
      · exact .inr h
    · rintro (⟨h, hlive⟩ | ⟨k, hk, h⟩)
      · exact ⟨.inl h, hlive⟩
      · exact ⟨.inr ⟨k, hk, h⟩, (hrows s (List.mem_of_getElem? h)).2⟩
  constructor
  · intro h r hr i s hs hspace
    obtain ⟨k, hk⟩ := List.mem_iff_getElem?.mp hr
    have hlt := Table.lt_next (Store.getSubnet_eq_some.mp hs).1
    exact h i _ s r (hget.mpr (.inl hs)) (hget.mpr (.inr ⟨k, rfl, hk⟩)) (by omega) hspace
      (hrows r hr).1
  · intro h i j s t hs ht hne hspace hspace'
    rcases hget.mp hs with hs | ⟨k, rfl, hk⟩ <;> rcases hget.mp ht with ht | ⟨l, rfl, hl⟩
    · exact hapart i j s t hs ht hne hspace hspace'
    · exact h t (List.mem_of_getElem? hl) i s hs hspace
    · exact fun ho => h s (List.mem_of_getElem? hk) j t ht hspace' ho.symm
    · obtain ⟨hklt, rfl⟩ := List.getElem?_eq_some_iff.mp hk
      obtain ⟨hllt, rfl⟩ := List.getElem?_eq_some_iff.mp hl
      rcases Nat.lt_or_gt_of_ne (fun heq : k = l => hne (by rw [heq])) with hlt | hlt
      · exact List.pairwise_iff_getElem.mp hpair k l hklt hllt hlt
      · exact fun ho => List.pairwise_iff_getElem.mp hpair l k hllt hklt hlt ho.symm

theorem mem_existing {n : Net} : n ∈ existingSubnetsUnderBlock σ blockId ↔
    ∃ i s, σ.getSubnet i = some s ∧ s.blockId = blockId ∧ s.network = n := by
  simp [existingSubnetsUnderBlock, Store.mem_liveSubnets, and_assoc]

theorem mem_created {c : CarvedChild} {children : List CarvedChild} :
    c ∈ created children ↔ c ∈ children ∧ c.skipped = false := by
  simp [created]

theorem validateChildLayout_spec (layout : List LayoutEntry) (parentPrefix : ℕ) :
    (∃ e, validateChildLayout layout parentPrefix = .error (.template e)) ∨
      ∃ spec, validateChildLayout layout parentPrefix = .ok spec ∧
        spec.map (fun e => (e.1 : ℤ)) = layout.map (·.prefixlen) := by
  unfold validateChildLayout
  split
  next => exact .inl ⟨_, rfl⟩
  next =>
    split
    next => exact .inl ⟨_, rfl⟩
    next h =>
      refine .inr ⟨_, rfl, ?_⟩
      rw [List.map_map]
      refine List.map_congr_left fun entry hentry => Int.toNat_of_nonneg ?_
      by_contra hneg
      exact h ⟨entry, hentry, by omega⟩

variable {format : String → Net → ℕ → Except FormatError String} {str : Net → String}
  {template : IPAMTemplate} {block : IPBlock} {layout : List LayoutEntry} {spec : List (ℕ × String)}

theorem carveChildren_eq (hlayout : template.childLayout = some layout)
    (happlies : template.appliesTo = .block)
    (hspec : validateChildLayout layout block.network.prefixlen = .ok spec) (σ : Store) :
    carveChildren format str σ template blockId block =
      (carveFrom format str block.network (existingSubnetsUnderBlock σ blockId)
        (existingSubnetsUnderBlock σ blockId) block.network.networkAddress 1 spec).map
          fun children => ({ σ with
            subnets := σ.subnets.insertAll ((created children).map (·.row block blockId)) },
            children) := by
  simp only [carveChildren, hlayout, happlies, ne_eq, not_true_eq_false, if_false, hspec]
  rfl

/-- Where every entry is placed, the space stays apart exactly if no slot meets a subnet that is not
the block's own, and a second run finds every slot taken. -/
theorem carves_of_placed (hapart : SpaceApart σ block.spaceId)
    (hlayout : template.childLayout = some layout) (happlies : template.appliesTo = .block)
    (hspec : validateChildLayout layout block.network.prefixlen = .ok spec)
    (hprefixes : spec.map (fun e => (e.1 : ℤ)) = layout.map (·.prefixlen)) {own : List Net}
    (hown : existingSubnetsUnderBlock σ blockId = own)
    (hsound : AllSound format str block.network own block.network.networkAddress 1 spec)
    (hplaced : AllPlaced block.network own block.network.networkAddress spec) :
    Carves format str σ template blockId block ↔
      ∀ n ∈ slots block.network block.network.networkAddress spec, n ∉ own →
        ∀ i s, σ.getSubnet i = some s → s.spaceId = block.spaceId → ¬ s.network.overlaps n := by
  let children := laid format str block.network own block.network.networkAddress 1 spec
  let rows := (created children).map (·.row block blockId)
  let σ' : Store := { σ with subnets := σ.subnets.insertAll rows }
  have hrun : carveChildren format str σ template blockId block = .ok (σ', children) := by
    rw [carveChildren_eq hlayout happlies hspec, hown, carveFrom_eq_laid hsound hplaced]
    rfl
  obtain ⟨hlengths, hordered, hinside⟩ : children.map (·.cidr.prefixlen) = spec.map Prod.fst ∧ _ :=
    laid_spec hplaced le_rfl
  have hskipped : ∀ c ∈ children, (c.skipped = false ↔ c.cidr ∉ own) := fun c hc => by
    rw [skipped_of_mem_laid hc, decide_eq_false_iff_not]
  have hrow : ∀ r ∈ rows, ∃ c ∈ children, c.cidr ∉ own ∧ c.row block blockId = r := by
    intro r hr
    obtain ⟨c, hc, rfl⟩ := List.mem_map.mp hr
    obtain ⟨hc, hnew⟩ := mem_created.mp hc
    exact ⟨c, hc, (hskipped c hc).mp hnew, rfl⟩
  have hrowOf : ∀ c ∈ children, c.cidr ∉ own → c.row block blockId ∈ rows := fun c hc hnew =>
    List.mem_map_of_mem (mem_created.mpr ⟨hc, (hskipped c hc).mpr hnew⟩)
  have hslots : ∀ n ∈ slots block.network block.network.networkAddress spec,
      n ∈ existingSubnetsUnderBlock σ' blockId := by
    intro n hn
    obtain ⟨c, hc, rfl⟩ : ∃ c ∈ children, c.cidr = n := mem_slots.mp hn
    by_cases hold : c.cidr ∈ own
    · obtain ⟨i, s, hs, hid, hcidr⟩ := mem_existing.mp (hown ▸ hold)
      obtain ⟨hs, hlive⟩ := Store.getSubnet_eq_some.mp hs
      exact mem_existing.mpr ⟨i, s, Store.getSubnet_eq_some.mpr
        ⟨Table.get?_insertAll_of_get? _ hs, hlive⟩, hid, hcidr⟩
    · obtain ⟨k, hk⟩ := List.mem_iff_getElem?.mp (hrowOf c hc hold)
      exact mem_existing.mpr ⟨_, _, Store.getSubnet_eq_some.mpr
        ⟨Table.get?_insertAll_iff.mpr (.inr ⟨k, rfl, hk⟩), rfl⟩, rfl, rfl⟩
  have hagain : carveChildren format str σ' template blockId block =
      .ok (σ', children.map fun c => { c with skipped := true }) := by
    obtain ⟨hsound', hplaced', hlaid⟩ := laid_again hsound hplaced hslots
    rw [carveChildren_eq hlayout happlies hspec, carveFrom_eq_laid hsound' hplaced', hlaid]
    have hnone : created (children.map fun c => { c with skipped := true }) = [] := by
      simp [created]
    simp only [Except.map, children] at hnone ⊢
    rw [hnone]
    rfl
  have hapart' : SpaceApart σ' block.spaceId ↔ ∀ r ∈ rows, ∀ i s, σ.getSubnet i = some s →
      s.spaceId = block.spaceId → ¬ s.network.overlaps r.network := by
    refine spaceApart_insertAll_iff rfl hapart (fun r hr => ?_) ?_
    · obtain ⟨c, -, -, rfl⟩ := hrow r hr
      exact ⟨rfl, rfl⟩
    · refine List.pairwise_map.mpr ((hordered.filter _).imp ?_)
      intro c d hlt ho
      have hc := c.cidr.numAddresses_pos
      obtain ⟨-, -, hover⟩ := Net.overlaps_iff.mp ho
      simp only [CarvedChild.row, Net.broadcastAddress] at hlt hover
      omega
  have hlaidOut : LaidOut block.network (template.childLayout.getD []) children := by
    refine ⟨?_, fun c hc => (hinside c hc).1, hordered⟩
    rw [hlayout, Option.getD_some, ← hprefixes]
    have hcast := congrArg (List.map (Nat.cast : ℕ → ℤ)) hlengths
    rwa [List.map_map, List.map_map] at hcast
  rw [Carves, hrun]
  dsimp only
  rw [hapart', and_iff_left ⟨hlaidOut, rfl, hagain⟩]
  constructor
  · intro h n hn hnew
    obtain ⟨c, hc, rfl⟩ : ∃ c ∈ children, c.cidr = n := mem_slots.mp hn
    exact h _ (hrowOf c hc hnew)
  · intro h r hr
    obtain ⟨c, hc, hnew, rfl⟩ := hrow r hr
    exact h _ (mem_slots.mpr ⟨c, hc, rfl⟩) hnew

/-- **A template carves a block as it should, exactly where the layout is regular: no entry that is
reached is longer than an address or has a name that cannot be rendered, and no slot meets a live
subnet of the space that is not the block's own.** -/
theorem carve_children_iff (format : String → Net → ℕ → Except FormatError String)
    (str : Net → String) (σ : Store) (template : IPAMTemplate) (blockId : ℕ) (block : IPBlock)
    (hapart : SpaceApart σ block.spaceId) :
    Carves format str σ template blockId block ↔ Regular format str σ template blockId block := by
  cases hlayout : template.childLayout with
  | none =>
    refine iff_of_true ?_ fun layout spec h => by simp [hlayout] at h
    simp [Carves, carveChildren, hlayout, hapart, created, LaidOut.mk]
  | some layout =>
    by_cases happlies : template.appliesTo = .block
    swap
    · refine iff_of_true ?_ fun _ _ _ h => absurd h happlies
      simp [Carves, carveChildren, hlayout, happlies]
    rcases validateChildLayout_spec layout block.network.prefixlen with
      ⟨e, he⟩ | ⟨spec, hspec, hprefixes⟩
    · refine iff_of_true ?_ fun layout' spec h _ hspec => ?_
      · have herror : carveChildren format str σ template blockId block = .error (.template e) := by
          simp only [carveChildren, hlayout, happlies, ne_eq, not_true_eq_false, if_false, he]
          rfl
        rw [Carves, herror]
        trivial
      · cases hlayout.symm.trans h
        cases he.symm.trans hspec
    have hregular : Regular format str σ template blockId block ↔
        AllSound format str block.network (existingSubnetsUnderBlock σ blockId)
          block.network.networkAddress 1 spec ∧ (AllPlaced block.network
            (existingSubnetsUnderBlock σ blockId) block.network.networkAddress spec →
              ∀ n ∈ slots block.network block.network.networkAddress spec,
                n ∉ existingSubnetsUnderBlock σ blockId → ∀ i s, σ.getSubnet i = some s →
                  s.spaceId = block.spaceId → ¬ s.network.overlaps n) :=
      ⟨fun h => h layout spec hlayout happlies hspec, fun h layout' spec' hlayout' _ hspec' => by
        cases hlayout.symm.trans hlayout'
        cases hspec.symm.trans hspec'
        exact h⟩
    have hexplains : Explains format str block.network (existingSubnetsUnderBlock σ blockId)
      block.network.networkAddress 1 spec (carveFrom format str block.network
        (existingSubnetsUnderBlock σ blockId) (existingSubnetsUnderBlock σ blockId)
        block.network.networkAddress 1 spec) := carveFrom_own
    have hrun : carveChildren format str σ template blockId block = _ :=
      carveChildren_eq hlayout happlies hspec σ
    rw [hregular]
    match hresult : carveFrom format str block.network (existingSubnetsUnderBlock σ blockId)
        (existingSubnetsUnderBlock σ blockId) block.network.networkAddress 1 spec with
    | .ok children =>
      rw [hresult] at hexplains
      obtain ⟨hsound, hplaced, -⟩ := hexplains
      rw [carves_of_placed hapart hlayout happlies hspec hprefixes rfl hsound hplaced]
      exact ⟨fun h => ⟨hsound, fun _ => h⟩, fun h => h.2 hplaced⟩
    | .error (.template e) =>
      rw [hresult] at hexplains hrun
      refine iff_of_true ?_ ⟨hexplains.1, fun h => absurd h hexplains.2⟩
      rw [Carves, hrun]
      trivial
    | .error .negativeShift | .error .format =>
      rw [hresult] at hexplains hrun
      refine iff_of_false (fun h => ?_) fun h => hexplains h.1
      rwa [Carves, hrun] at h

def net (address prefixlen : ℕ) : Net := Net.ofValue .v4 address prefixlen

def parent : IPBlock := { spaceId := 0, parentBlockId := none, network := net 0x0A000000 16 }

def oneSubnet (blockId : ℕ) : Store :=
  { Store.empty with
    spaces := Table.empty.insert { name := "" }
    blocks := (Table.empty.insert parent).insert
      { spaceId := 0, parentBlockId := some 0, network := net 0x0A000000 17 }
    subnets := Table.empty.insert { spaceId := 0, blockId, network := net 0x0A000000 24 } }

def threeChildren : IPAMTemplate where
  appliesTo := .block
  childLayout := some [⟨24, ""⟩, ⟨24, "lan"⟩, ⟨23, ""⟩]

def plain (template : String) (_ : Net) (_ : ℕ) : Except FormatError String := .ok template

theorem oneSubnet_row {blockId i : ℕ} {s : Subnet} (h : (oneSubnet blockId).getSubnet i = some s) :
    i = 0 ∧ s = { spaceId := 0, blockId, network := net 0x0A000000 24 } := by
  obtain ⟨hrow, -⟩ := Store.getSubnet_eq_some.mp h
  have hlt := Table.lt_next hrow
  obtain rfl : i = 0 := Nat.lt_one_iff.mp hlt
  exact ⟨rfl, (Option.some.inj hrow).symm⟩

theorem spaceApart_oneSubnet (blockId : ℕ) : SpaceApart (oneSubnet blockId) parent.spaceId :=
  fun _ _ _ _ hs ht hne => absurd ((oneSubnet_row hs).1.trans (oneSubnet_row ht).1.symm) hne

/-- The first entry is there already. -/
theorem carve_children_skips : Carves plain (fun _ => "") (oneSubnet 0) threeChildren 0 parent := by
  refine (carve_children_iff plain _ _ _ _ _ (spaceApart_oneSubnet 0)).mpr ?_
  rintro _ _ ⟨⟩ - ⟨⟩
  refine ⟨⟨by decide, fun _ => ⟨_, rfl⟩, fun _ => ⟨by decide, fun _ => ⟨_, rfl⟩, fun _ =>
    ⟨by decide, fun _ => ⟨_, rfl⟩, fun _ => trivial⟩⟩⟩, fun _ n hn hnew i s hs _ => ?_⟩
  obtain ⟨-, rfl⟩ := oneSubnet_row hs
  revert n
  decide +kernel

/-- A template carves over the subnet of a child block. -/
theorem not_carves_underChildBlock :
    ¬ Carves plain (fun _ => "") (oneSubnet 1) threeChildren 0 parent := by
  intro h
  obtain ⟨σ', children, hrun, hold, hnew⟩ : ∃ σ' children,
      carveChildren plain (fun _ => "") (oneSubnet 1) threeChildren 0 parent = .ok (σ', children) ∧
        σ'.getSubnet 0 = some { spaceId := 0, blockId := 1, network := net 0x0A000000 24 } ∧
        σ'.getSubnet 1 = some { spaceId := 0, blockId := 0, network := net 0x0A000000 24 } :=
    ⟨_, _, rfl, rfl, rfl⟩
  rw [Carves, hrun] at h
  exact h.1 0 1 _ _ hold hnew (by decide) rfl rfl (by decide +kernel)

end SpatiumDdi.Ipam.Template
