import Mathlib.Data.Int.Notation
import Mathlib.Tactic.Common

/-!
Classic BPF programs on a packet, and their assembly from instructions with labels: an assembled
program runs as its source does, jump by jump.
-/

namespace SpatiumDdi.ClassicBpf

structure Packet where
  bytes : List UInt8
  pktType : ℕ
  ifindex : ℕ

namespace Packet

variable (p : Packet)

def byte (i : ℕ) : Option ℕ := p.bytes[i]?.map UInt8.toNat

def half (i : ℕ) : Option ℕ :=
  (p.byte i).bind fun b => (p.byte (i + 1)).map fun c => 256 * b + c

def word (i : ℕ) : Option ℕ :=
  (p.half i).bind fun h => (p.half (i + 2)).map fun l => 65536 * h + l

/-- A word, or what an ancillary offset stands for. -/
def wordAt (k : ℕ) : Option ℕ :=
  if k = 0xFFFFF004 then some p.pktType
  else if k = 0xFFFFF008 then some p.ifindex
  else p.word k

end Packet

structure Insn where
  code : ℕ
  jt : ℕ
  jf : ℕ
  k : ℕ

/-- One instruction with accumulator `a` and index `x`. A load outside the packet returns 0. -/
def step (p : Packet) (code k a x : ℕ) (next : ℕ → ℕ → Option ℕ) (jump : Bool → Option ℕ) :
    Option ℕ :=
  match code with
  | 0x06 => some k
  | 0x15 => jump (a = k)
  | 0x45 => jump (a &&& k ≠ 0)
  | 0x20 => (p.wordAt k).elim (some 0) fun v => next v x
  | 0x28 => (p.half k).elim (some 0) fun v => next v x
  | 0x30 => (p.byte k).elim (some 0) fun v => next v x
  | 0x48 => (p.half (x + k)).elim (some 0) fun v => next v x
  | 0xB1 => (p.byte k).elim (some 0) fun b => next a (4 * (b &&& 0xF))
  | _ => none

/-- What a program returns from its instruction `pc` on, `none` when it runs past its end. -/
def exec (p : Packet) : List Insn → (pc a x : ℕ) → Option ℕ
  | [], _, _, _ => none
  | _ :: prog, pc + 1, a, x => exec p prog pc a x
  | i :: prog, 0, a, x =>
    step p i.code i.k a x (exec p prog 0) fun b => exec p prog (if b then i.jt else i.jf) a x

/-- The packet is accepted from the instruction `pc` on. -/
def Accepts (p : Packet) (prog : List Insn) (pc a x : ℕ) : Prop :=
  ∃ v ≠ 0, exec p prog pc a x = some v

/-- Both branches of every jump are instructions of the program. -/
def JumpsInside (prog : List Insn) : Prop :=
  ∀ pc i, prog[pc]? = some i → i.code ≠ 0x06 →
    pc + 1 + i.jt < prog.length ∧ pc + 1 + i.jf < prog.length

/-- An instruction whose jumps are to labels, or to the next one. -/
structure Labelled (Label : Type) where
  code : ℕ
  k : ℕ := 0
  jt : Option Label := none
  jf : Option Label := none

inductive ValueError where
  | jumpOutOfRange (off : ℤ)

variable {Label : Type} (labels : Label → ℕ)

def resolve (pc : ℕ) : Option Label → Except ValueError ℕ
  | none => .ok 0
  | some label =>
    let off : ℤ := labels label - pc - 1
    if 0 ≤ off ∧ off ≤ 255 then .ok off.toNat else .error (.jumpOutOfRange off)

def assemble (pc : ℕ) : List (Labelled Label) → Except ValueError (List Insn)
  | [] => .ok []
  | r :: source => do
    let jt ← resolve labels pc r.jt
    let jf ← resolve labels pc r.jf
    let prog ← assemble (pc + 1) source
    .ok (⟨r.code, jt, jf, r.k⟩ :: prog)

def dest (pc : ℕ) : Option Label → ℕ
  | none => pc + 1
  | some label => labels label

variable {labels} {p : Packet} {pc a x n : ℕ} {prog : List Insn}
  {source seg : List (Labelled Label)} {r : Labelled Label}

theorem resolve_dest {target : Option Label} {off : ℕ} (h : resolve labels pc target = .ok off) :
    pc + 1 + off = dest labels pc target := by
  cases target with
  | none => cases h; rfl
  | some label =>
    rw [resolve] at h
    split at h
    · cases h
      rw [dest]
      omega
    · cases h

theorem assemble_cons (h : assemble labels pc (r :: source) = .ok prog) :
    ∃ jt jf rest, resolve labels pc r.jt = .ok jt ∧ resolve labels pc r.jf = .ok jf ∧
      assemble labels (pc + 1) source = .ok rest ∧ prog = ⟨r.code, jt, jf, r.k⟩ :: rest := by
  rw [assemble] at h
  cases hjt : resolve labels pc r.jt with
  | error => rw [hjt] at h; cases h
  | ok jt =>
    cases hjf : resolve labels pc r.jf with
    | error => rw [hjt, hjf] at h; cases h
    | ok jf =>
      cases hrest : assemble labels (pc + 1) source with
      | error => rw [hjt, hjf, hrest] at h; cases h
      | ok rest =>
        rw [hjt, hjf, hrest] at h
        cases h
        exact ⟨jt, jf, rest, rfl, rfl, rfl, rfl⟩

section

variable (h : assemble labels n source = .ok prog)
include h

theorem exists_insn (hr : source.drop pc = r :: seg) :
    ∃ i, prog[pc]? = some i ∧ i.code = r.code ∧ i.k = r.k ∧
      n + pc + 1 + i.jt = dest labels (n + pc) r.jt ∧
      n + pc + 1 + i.jf = dest labels (n + pc) r.jf := by
  induction source generalizing n pc prog with
  | nil => simp at hr
  | cons r' source ih =>
    obtain ⟨jt, jf, rest, hjt, hjf, hrest, rfl⟩ := assemble_cons h
    cases pc with
    | zero =>
      obtain ⟨rfl, -⟩ := List.cons.inj hr
      exact ⟨_, rfl, rfl, rfl, resolve_dest hjt, resolve_dest hjf⟩
    | succ pc =>
      have hi := ih hrest hr
      rwa [Nat.add_right_comm n 1 pc] at hi

theorem assemble_length : prog.length = source.length := by
  induction source generalizing n prog with
  | nil => cases h; rfl
  | cons r source ih =>
    obtain ⟨jt, jf, rest, -, -, hrest, rfl⟩ := assemble_cons h
    rw [List.length_cons, List.length_cons, ih hrest]

end

theorem exec_get {i : Insn} (h : prog[pc]? = some i) :
    exec p prog pc a x = step p i.code i.k a x (exec p prog (pc + 1)) fun b =>
      exec p prog (pc + 1 + if b then i.jt else i.jf) a x := by
  induction prog generalizing pc with
  | nil => simp at h
  | cons i' prog ih =>
    cases pc with
    | zero =>
      cases h
      simp only [exec, Nat.zero_add, Nat.add_comm 1]
    | succ pc =>
      rw [exec, ih h]
      congr 1
      funext b
      rw [Nat.add_right_comm (pc + 1) 1, exec]

theorem exec_assembled (h : assemble labels 0 source = .ok prog)
    (hr : source.drop pc = r :: seg) :
    exec p prog pc a x = step p r.code r.k a x (exec p prog (pc + 1)) fun b =>
      exec p prog (dest labels pc (if b then r.jt else r.jf)) a x := by
  obtain ⟨i, hi, hcode, hk, hjt, hjf⟩ := exists_insn h hr
  rw [Nat.zero_add] at hjt hjf
  rw [exec_get hi, hcode, hk]
  congr 1
  funext b
  cases b with
  | false => exact congrArg (exec p prog · a x) hjf
  | true => exact congrArg (exec p prog · a x) hjt

theorem assemble_append {rest : List (Labelled Label)}
    (hseg : ∀ r ∈ seg, ∀ label, r.jt = some label ∨ r.jf = some label →
      pc + seg.length ≤ labels label ∧ labels label ≤ pc + 256)
    (hrest : ∃ prog, assemble labels (pc + seg.length) rest = .ok prog) :
    ∃ prog, assemble labels pc (seg ++ rest) = .ok prog := by
  induction seg generalizing pc with
  | nil => exact hrest
  | cons r seg ih =>
    have hresolve : ∀ target, (target = r.jt ∨ target = r.jf) →
        ∃ off, resolve labels pc target = .ok off := by
      intro target htarget
      cases target with
      | none => exact ⟨0, rfl⟩
      | some label =>
        have hlabel := hseg r List.mem_cons_self label (htarget.imp Eq.symm Eq.symm)
        rw [List.length_cons] at hlabel
        refine ⟨_, if_pos ?_⟩
        omega
    obtain ⟨jt, hjt⟩ := hresolve _ (.inl rfl)
    obtain ⟨jf, hjf⟩ := hresolve _ (.inr rfl)
    obtain ⟨prog, hprog⟩ := @ih (pc + 1)
      (fun r' hr' label hlabel => by
        have := hseg r' (List.mem_cons_of_mem _ hr') label hlabel
        rw [List.length_cons] at this
        omega)
      (by simpa only [List.length_cons, Nat.add_right_comm pc 1, ← Nat.add_assoc] using hrest)
    refine ⟨⟨r.code, jt, jf, r.k⟩ :: prog, ?_⟩
    rw [List.cons_append, assemble, hjt, hjf, hprog]
    rfl

section

variable (h : assemble labels 0 source = .ok prog) {jt jf : Option Label}
include h

theorem accepts_load (hr : source.drop pc = r :: seg) (load : Option ℕ) (next : ℕ → ℕ × ℕ)
    (hstep : ∀ exec jump, step p r.code r.k a x exec jump = load.elim (some 0) fun v => exec (next v).1 (next v).2) :
    Accepts p prog pc a x ↔
      ∃ v, load = some v ∧ Accepts p prog (pc + 1) (next v).1 (next v).2 := by
  rw [Accepts, exec_assembled h hr, hstep]
  cases load with
  | none => simp
  | some value => simp [Accepts]

theorem accepts_ret (hr : source.drop pc = r :: seg) (hcode : r.code = 0x06) :
    Accepts p prog pc a x ↔ r.k ≠ 0 := by
  rw [Accepts, exec_assembled h hr, hcode]
  simp [step]

theorem accepts_jeq {k : ℕ} (hr : source.drop pc = ⟨0x15, k, jt, jf⟩ :: seg) :
    Accepts p prog pc a x ↔
      Accepts p prog (dest labels pc (if a = k then jt else jf)) a x := by
  rw [Accepts, exec_assembled h hr]
  simp [step, Accepts]

theorem accepts_jset {k : ℕ} (hr : source.drop pc = ⟨0x45, k, jt, jf⟩ :: seg) :
    Accepts p prog pc a x ↔
      Accepts p prog (dest labels pc (if a &&& k ≠ 0 then jt else jf)) a x := by
  rw [Accepts, exec_assembled h hr]
  simp [step, Accepts]

theorem accepts_chain {label : Label} {ks : List ℕ}
    (hr : source.drop pc = ks.map (fun k => ⟨0x15, k, some label, none⟩) ++ seg) :
    Accepts p prog pc a x ↔
      if a ∈ ks then Accepts p prog (labels label) a x
      else Accepts p prog (pc + ks.length) a x := by
  induction ks generalizing pc with
  | nil => simp
  | cons k ks ih =>
    have hrest := congrArg List.tail hr
    rw [List.tail_drop, List.map_cons, List.cons_append, List.tail_cons] at hrest
    rw [accepts_jeq h hr]
    by_cases hk : a = k
    · simp [dest, hk]
    · simp [dest, hk, ih hrest, Nat.add_assoc, Nat.add_comm 1]

end

end SpatiumDdi.ClassicBpf
