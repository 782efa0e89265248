import SpatiumDdi.Lib.ClassicBpf
import Mathlib.Tactic.Linarith

/-!
`build_filter` (`spatium_dhcp_agent/intake.py`): the socket filter that counts DHCPv4 arrivals. The
program accepts what Kea serves, but its jumps to the end are of eight bits, so it exists for so
many addresses and interfaces together only.
-/

namespace SpatiumDdi.Dhcp.Intake

open ClassicBpf

def MAX_FILTER_IFACES : ℕ := 200

inductive Label where
  | dst
  | iface
  | accept
  | reject

abbrev LD_W_ABS : ℕ := 0x20
abbrev LD_H_ABS : ℕ := 0x28
abbrev LD_B_ABS : ℕ := 0x30
abbrev LD_H_IND : ℕ := 0x48
abbrev LDX_B_MSH : ℕ := 0xB1
abbrev JEQ_K : ℕ := 0x15
abbrev JSET_K : ℕ := 0x45
abbrev RET_K : ℕ := 0x06
abbrev SKF_AD_PKTTYPE : ℕ := 0xFFFFF004
abbrev SKF_AD_IFINDEX : ℕ := 0xFFFFF008
abbrev IPV4_BROADCAST : ℕ := 0xFFFFFFFF

structure FilterArgs where
  mode : String
  ifindexes : Option (List ℕ)
  loopback : Option ℕ
  addresses : List ℕ

namespace FilterArgs

variable (f : FilterArgs)

/-- Up to the label `dst`. -/
def header : List (Labelled Label) :=
  ⟨LD_B_ABS, 9, none, none⟩ :: ⟨JEQ_K, 17, none, some .reject⟩ ::
  ⟨LD_H_ABS, 6, none, none⟩ :: ⟨JSET_K, 0x1FFF, some .reject, none⟩ ::
  ⟨LDX_B_MSH, 0, none, none⟩ :: ⟨LD_H_IND, 2, none, none⟩ ::
  ⟨JEQ_K, 67, none, some .reject⟩ :: ⟨LD_W_ABS, SKF_AD_PKTTYPE, none, none⟩ ::
  if f.mode = "raw" then
    [⟨JEQ_K, 0, some .dst, none⟩, ⟨JEQ_K, 1, some .dst, some .reject⟩]
  else
    [⟨JEQ_K, 0, some .dst, some .reject⟩]

def destinations : List ℕ :=
  if f.mode = "raw" then IPV4_BROADCAST :: f.addresses else f.addresses

/-- From `dst` up to `iface`. -/
def destination : List (Labelled Label) :=
  ⟨LD_W_ABS, 16, none, none⟩ ::
  (f.destinations.map (fun addr => ⟨JEQ_K, addr, some .iface, none⟩) ++
  [⟨RET_K, 0, none, none⟩])

/-- From `iface` up to `accept`. -/
def interfaces : List (Labelled Label) :=
  ⟨LD_W_ABS, SKF_AD_IFINDEX, none, none⟩ ::
  match f.ifindexes with
  | none =>
    match f.loopback with
    | none => [⟨RET_K, 1, none, none⟩]
    | some loopback => [⟨JEQ_K, loopback, some .reject, some .accept⟩]
  | some ifindexes =>
    ifindexes.map (fun idx => ⟨JEQ_K, idx, some .accept, none⟩) ++ [⟨RET_K, 0, none, none⟩]

def source : List (Labelled Label) :=
  f.header ++ (f.destination ++ (f.interfaces ++
    [⟨RET_K, 1, none, none⟩, ⟨RET_K, 0, none, none⟩]))

def labels : Label → ℕ
  | .dst => f.header.length
  | .iface => f.header.length + f.destination.length
  | .accept => f.header.length + f.destination.length + f.interfaces.length
  | .reject => f.header.length + f.destination.length + f.interfaces.length + 1

def buildFilter : Except ValueError (List Insn) :=
  assemble f.labels 0 f.source

def ServedIface (ifindex : ℕ) : Prop :=
  match f.ifindexes with
  | some ifindexes => ifindex ∈ ifindexes
  | none => ∀ idx ∈ f.loopback, ifindex ≠ idx

structure Served (p : Packet) : Prop where
  udp : p.byte 9 = some 17
  /-- The fragment offset, 13 bits, is 0. -/
  firstFragment : ∃ flags, p.half 6 = some flags ∧ flags % 2 ^ 13 = 0
  /-- Behind the header, whose length in words is the lower half of byte 0. -/
  port : ∃ b, p.byte 0 = some b ∧ p.half (4 * (b % 2 ^ 4) + 2) = some 67
  pktType : p.pktType = 0 ∨ f.mode = "raw" ∧ p.pktType = 1
  destination : ∃ addr, p.word 16 = some addr ∧
    (addr ∈ f.addresses ∨ f.mode = "raw" ∧ addr = IPV4_BROADCAST)
  iface : f.ServedIface p.ifindex

/-- The number of addresses and listed interfaces that the jumps reach over. -/
def Fits : Prop :=
  f.addresses.length + (f.ifindexes.getD []).length ≤ if f.mode = "raw" then 241 else 243

theorem labels_reject : f.labels .reject =
    f.addresses.length + (f.ifindexes.getD []).length + if f.mode = "raw" then 16 else 14 := by
  simp only [labels, header, destination, interfaces, destinations]
  cases f.ifindexes with
  | none => cases f.loopback <;> split <;> simp <;> omega
  | some ifindexes => split <;> simp <;> omega

theorem fits_iff : f.Fits ↔ f.labels .reject ≤ 257 := by
  rw [labels_reject, Fits]
  split <;> omega

theorem source_length : f.source.length = f.labels .reject + 1 := by
  simp only [source, labels, List.length_append, List.length_cons, List.length_nil]
  omega

theorem drop_dst : f.source.drop (f.labels .dst) = f.destination ++ (f.interfaces ++
    [⟨RET_K, 1, none, none⟩, ⟨RET_K, 0, none, none⟩]) :=
  List.drop_left

theorem drop_iface : f.source.drop (f.labels .iface) =
    f.interfaces ++ [⟨RET_K, 1, none, none⟩, ⟨RET_K, 0, none, none⟩] := by
  rw [source, labels, ← List.drop_drop, List.drop_left, List.drop_left]

theorem drop_accept : f.source.drop (f.labels .accept) =
    [⟨RET_K, 1, none, none⟩, ⟨RET_K, 0, none, none⟩] := by
  rw [source, labels, ← List.drop_drop, ← List.drop_drop, List.drop_left, List.drop_left,
    List.drop_left]

theorem drop_reject : f.source.drop (f.labels .reject) = [⟨RET_K, 0, none, none⟩] := by
  have h := congrArg List.tail (drop_accept f)
  rwa [List.tail_drop] at h

theorem labels_le (label : Label) : f.labels label ≤ f.labels .reject := by
  cases label <;> simp only [labels] <;> omega

variable {f} {prog : List Insn} {p : Packet} {a x : ℕ}

theorem buildFilter_error (h : ¬ f.Fits) :
    ∃ off, f.buildFilter = .error (.jumpOutOfRange off) := by
  rw [fits_iff] at h
  refine ⟨f.labels .reject - 2, ?_⟩
  have hresolve : resolve f.labels 1 (some .reject) =
      .error (.jumpOutOfRange (f.labels .reject - 2)) := by
    rw [resolve, if_neg]
    · congr 2
      omega
    · omega
  rw [buildFilter, source, header, List.cons_append, List.cons_append, assemble, assemble]
  dsimp only
  rw [hresolve]
  rfl

theorem buildFilter_ok (h : f.Fits) : ∃ prog, f.buildFilter = .ok prog := by
  rw [fits_iff] at h
  have hle := labels_le f
  have hheader : ∀ r ∈ f.header.tail, ∀ label, r.jt = some label ∨ r.jf = some label →
      label = .dst ∨ label = .reject := by
    unfold header
    split <;> simp [or_imp, forall_and]
  have hdestination : ∀ r ∈ f.destination, ∀ label,
      r.jt = some label ∨ r.jf = some label → label = .iface := by
    simp [destination, or_imp, forall_and]
  have hinterfaces : ∀ r ∈ f.interfaces, ∀ label,
      r.jt = some label ∨ r.jf = some label → label = .accept ∨ label = .reject := by
    unfold interfaces
    cases f.ifindexes with
    | none => cases f.loopback <;> simp [or_imp, forall_and]
    | some ifindexes => simp [or_imp, forall_and]
  have hsplit : f.header = [⟨LD_B_ABS, 9, none, none⟩] ++ f.header.tail := rfl
  have hlength : f.header.length = f.header.tail.length + 1 := rfl
  rw [buildFilter, source, hsplit, List.append_assoc]
  refine assemble_append (by simp) (assemble_append ?_ (assemble_append ?_ (assemble_append ?_
    ⟨_, rfl⟩)))
  · intro r hr label hlabel
    have := hle label
    rcases hheader r hr label hlabel with rfl | rfl <;>
      simp only [labels, hlength, List.length_singleton] at h this ⊢ <;> omega
  · intro r hr label hlabel
    have := hle label
    cases hdestination r hr label hlabel
    simp only [labels, hlength, List.length_singleton] at h this ⊢
    omega
  · intro r hr label hlabel
    have := hle label
    rcases hinterfaces r hr label hlabel with rfl | rfl <;>
      simp only [labels, hlength, List.length_singleton] at h this ⊢ <;> omega

theorem jumpsInside (h : f.buildFilter = .ok prog) : JumpsInside prog := by
  intro pc i hi hcode
  have hlength := assemble_length h
  have hpc := (List.getElem?_eq_some_iff.mp hi).1
  have hlast := source_length f
  obtain ⟨i', hi', hcode', -, hjt, hjf⟩ := exists_insn h (List.drop_eq_getElem_cons (hlength ▸ hpc))
  cases hi.symm.trans hi'
  have hnext : pc + 1 < prog.length := by
    by_contra hend
    obtain rfl : pc = f.labels .reject := by omega
    obtain ⟨r, hr, hcode', -⟩ := exists_insn h (drop_reject f)
    cases hi.symm.trans hr
    exact hcode hcode'
  have hdest : ∀ target, dest f.labels pc target < prog.length := by
    intro target
    cases target with
    | none => exact hnext
    | some label =>
      have := labels_le f label
      rw [dest]
      omega
  rw [Nat.zero_add] at hjt hjf
  exact ⟨hjt ▸ hdest _, hjf ▸ hdest _⟩

section Execution

variable (h : f.buildFilter = .ok prog) {pc k : ℕ} {seg : List (Labelled Label)}
include h

theorem not_accepts_reject :
    ¬ Accepts p prog (f.labels .reject) a x := by
  rw [accepts_ret h (drop_reject f) rfl]
  simp

theorem accepts_accept :
    Accepts p prog (f.labels .accept) a x := by
  rw [accepts_ret h (drop_accept f) rfl]
  simp

theorem accepts_iface : Accepts p prog (f.labels .iface) a x ↔
    f.ServedIface p.ifindex := by
  have hdrop := drop_iface f
  have htail := congrArg List.tail hdrop
  unfold interfaces at hdrop htail
  rw [List.cons_append] at hdrop htail
  rw [List.tail_drop, List.tail_cons] at htail
  rw [accepts_load h hdrop (some p.ifindex) (fun v => (v, x)) fun _ _ => rfl]
  simp only [Option.some.injEq, exists_eq_left']
  rw [ServedIface]
  cases hifindexes : f.ifindexes with
  | none =>
    rw [hifindexes] at htail
    cases hloopback : f.loopback with
    | none =>
      rw [hloopback] at htail
      rw [accepts_ret h htail rfl]
      simp
    | some loopback =>
      rw [hloopback] at htail
      rw [accepts_jeq h htail]
      by_cases hidx : p.ifindex = loopback
      · rw [if_pos hidx]
        simp [dest, not_accepts_reject h, hidx]
      · rw [if_neg hidx]
        simp [dest, accepts_accept h, hidx]
  | some ifindexes =>
    rw [hifindexes, List.append_assoc] at htail
    have hend := congrArg (List.drop ifindexes.length) htail
    rw [List.drop_drop, List.drop_left' (List.length_map _)] at hend
    rw [accepts_chain h htail, accepts_ret h hend rfl]
    simp [accepts_accept h]

theorem accepts_dst : Accepts p prog (f.labels .dst) a x ↔
    (∃ addr, p.word 16 = some addr ∧ addr ∈ f.destinations) ∧
      f.ServedIface p.ifindex := by
  have hdrop := drop_dst f
  have htail := congrArg List.tail hdrop
  rw [destination, List.cons_append] at hdrop htail
  rw [List.tail_drop, List.tail_cons, List.append_assoc] at htail
  have hend := congrArg (List.drop f.destinations.length) htail
  rw [List.drop_drop, List.drop_left' (List.length_map _)] at hend
  rw [accepts_load h hdrop (p.word 16) (fun v => (v, x)) fun _ _ => rfl]
  simp [accepts_chain h htail, accepts_ret h hend rfl, accepts_iface h, ← and_assoc]

theorem accepts_jeq_reject (hr : f.source.drop pc =
      ⟨JEQ_K, k, none, some .reject⟩ :: seg) :
    Accepts p prog pc a x ↔ a = k ∧ Accepts p prog (pc + 1) a x := by
  rw [accepts_jeq h hr]
  by_cases ha : a = k
  · simp [ha, dest]
  · simp [ha, dest, not_accepts_reject h]

theorem accepts_jset_reject (hr : f.source.drop pc =
      ⟨JSET_K, k, some .reject, none⟩ :: seg) :
    Accepts p prog pc a x ↔ a &&& k = 0 ∧ Accepts p prog (pc + 1) a x := by
  rw [accepts_jset h hr]
  by_cases ha : a &&& k = 0
  · simp [ha, dest]
  · simp [ha, dest, not_accepts_reject h]

theorem accepts_pktType : Accepts p prog 8 a x ↔
    (a = 0 ∨ f.mode = "raw" ∧ a = 1) ∧
      Accepts p prog (f.labels .dst) a x := by
  by_cases hmode : f.mode = "raw"
  · have hdrop : f.source.drop 8 =
        [⟨JEQ_K, 0, some .dst, none⟩, ⟨JEQ_K, 1, some .dst, some .reject⟩] ++
          f.source.drop 10 := by
      rw [source, header, if_pos hmode]
      rfl
    have hnext := congrArg List.tail hdrop
    rw [List.tail_drop] at hnext
    have hraw : (f.mode = "raw") = True := eq_true hmode
    rw [accepts_jeq h hdrop]
    by_cases ha : a = 0
    · simp [ha, dest]
    · rw [if_neg ha, dest, accepts_jeq h hnext]
      by_cases hone : a = 1 <;> simp [ha, hone, hraw, dest, not_accepts_reject h]
  · have hdrop : f.source.drop 8 =
        [⟨JEQ_K, 0, some .dst, some .reject⟩] ++
          f.source.drop 9 := by
      rw [source, header, if_neg hmode]
      rfl
    rw [accepts_jeq h hdrop]
    by_cases ha : a = 0 <;> simp [ha, hmode, dest, not_accepts_reject h]

theorem accepts_header : Accepts p prog 0 0 0 ↔
    ∃ proto, p.byte 9 = some proto ∧ proto = 17 ∧ ∃ flags, p.half 6 = some flags ∧
      flags &&& 0x1FFF = 0 ∧ ∃ b, p.byte 0 = some b ∧ ∃ port,
        p.half (4 * (b &&& 0xF) + 2) = some port ∧ port = 67 ∧
        (p.pktType = 0 ∨ f.mode = "raw" ∧ p.pktType = 1) ∧
        (∃ addr, p.word 16 = some addr ∧ addr ∈ f.destinations) ∧
        f.ServedIface p.ifindex := by
  refine (accepts_load h rfl (p.byte 9) (fun v => (v, 0)) fun _ _ => rfl).trans
    (exists_congr fun proto => and_congr_right fun _ => ?_)
  refine (accepts_jeq_reject h rfl).trans (and_congr_right fun _ => ?_)
  refine (accepts_load h rfl (p.half 6) (fun v => (v, 0)) fun _ _ => rfl).trans
    (exists_congr fun flags => and_congr_right fun _ => ?_)
  refine (accepts_jset_reject h rfl).trans (and_congr_right fun _ => ?_)
  refine (accepts_load h rfl (p.byte 0) (fun b => (flags, 4 * (b &&& 0xF))) fun _ _ => rfl).trans
    (exists_congr fun b => and_congr_right fun _ => ?_)
  refine (accepts_load h rfl _ (fun v => (v, 4 * (b &&& 0xF))) fun _ _ => rfl).trans
    (exists_congr fun port => and_congr_right fun _ => ?_)
  refine (accepts_jeq_reject h rfl).trans (and_congr_right fun _ => ?_)
  refine (accepts_load h rfl (some p.pktType) (fun v => (v, 4 * (b &&& 0xF)))
    fun _ _ => rfl).trans ?_
  simp only [Option.some.injEq, exists_eq_left']
  rw [accepts_pktType h, accepts_dst h]

end Execution

theorem served_iff : f.Served p ↔
    ∃ proto, p.byte 9 = some proto ∧ proto = 17 ∧ ∃ flags, p.half 6 = some flags ∧
      flags &&& 0x1FFF = 0 ∧ ∃ b, p.byte 0 = some b ∧ ∃ port,
        p.half (4 * (b &&& 0xF) + 2) = some port ∧ port = 67 ∧
        (p.pktType = 0 ∨ f.mode = "raw" ∧ p.pktType = 1) ∧
        (∃ addr, p.word 16 = some addr ∧ addr ∈ f.destinations) ∧
        f.ServedIface p.ifindex := by
  have hdestinations : ∀ addr, addr ∈ f.destinations ↔
      addr ∈ f.addresses ∨ f.mode = "raw" ∧ addr = IPV4_BROADCAST := by
    intro addr
    unfold destinations
    split <;> simp [*, or_comm]
  have hflags : ∀ flags : ℕ, flags &&& 0x1FFF = flags % 2 ^ 13 := fun flags =>
    Nat.and_two_pow_sub_one_eq_mod flags 13
  have hlength : ∀ b : ℕ, b &&& 0xF = b % 2 ^ 4 := fun b => Nat.and_two_pow_sub_one_eq_mod b 4
  simp only [hdestinations, hflags, hlength]
  constructor
  · rintro ⟨hudp, ⟨flags, hflags, hzero⟩, ⟨b, hb, hport⟩, htype, hdst, hiface⟩
    exact ⟨17, hudp, rfl, flags, hflags, hzero, b, hb, 67, hport, rfl, htype, hdst, hiface⟩
  · rintro ⟨_, hudp, rfl, flags, hflags, hzero, b, hb, _, hport, rfl, htype, hdst, hiface⟩
    exact ⟨hudp, ⟨flags, hflags, hzero⟩, ⟨b, hb, hport⟩, htype, hdst, hiface⟩

/-- There is a program, and it accepts what Kea serves, just for so many addresses and
interfaces. -/
theorem filter_iff_fits (f : FilterArgs) :
    (∃ prog, f.buildFilter = .ok prog ∧ JumpsInside prog ∧
      ∀ p, Accepts p prog 0 0 0 ↔ f.Served p) ↔
      f.Fits := by
  constructor
  · rintro ⟨prog, hprog, -⟩
    by_contra h
    obtain ⟨off, herror⟩ := buildFilter_error h
    cases hprog.symm.trans herror
  · intro h
    obtain ⟨prog, hprog⟩ := buildFilter_ok h
    exact ⟨prog, hprog, jumpsInside hprog, fun p => (accepts_header hprog).trans served_iff.symm⟩

def twoHundred : FilterArgs := ⟨"raw", some (List.range' 1 200), none, List.range' 1 200⟩

theorem no_filter_twoHundred :
    (∀ ifindexes ∈ twoHundred.ifindexes, ifindexes.length ≤ MAX_FILTER_IFACES) ∧
      twoHundred.addresses.length ≤ MAX_FILTER_IFACES ∧
      ∃ off, twoHundred.buildFilter = .error (.jumpOutOfRange off) :=
  ⟨by simp [twoHundred, MAX_FILTER_IFACES], by simp [twoHundred, MAX_FILTER_IFACES],
    buildFilter_error (by simp [Fits, twoHundred])⟩

end FilterArgs

end SpatiumDdi.Dhcp.Intake
