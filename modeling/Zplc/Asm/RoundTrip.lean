/-
`disassemble(assemble(S))` for a source without `.ORG`, `.DB` or `.BYTE`.

The spec's listing (`expectedListing`) puts the instructions one after the
other from address 0, gives each label the address of the first instruction
at or after it, and shows each instruction's operand value reduced to its
width. Three facts meet in `disassemble_assemble`: pass 1 places things that
way (`applyEvents_layout`); pass 2 gives each operand that value up to the
width's modulus (`resolveInstruction_ok`); and the disassembler reads one
record per emitted instruction back (`disasmLoop_encode`).
-/
import Mathlib.Data.List.Forall2
import Zplc.Asm.Layout
import Zplc.Asm.Disasm
import Zplc.Asm.Literal

namespace Zplc

open Py

/-- A byte read as a signed number. -/
def signedByte (x : Int) : Int := if x < 128 then x else x - 256

/-- The record the spec expects for an instruction at `a` with operand value `v`: its
name and `v` reduced modulo `2 ^ (8 * width)`, read as a signed byte (with the target
`a + 2` on from it) for a relative branch. -/
def expectedLine (a : Int) (op : Opcode) (v : Int) : DisasmLine :=
  match op.operandSize with
  | 0 => .plain a op.name
  | 1 =>
    if op.isRelative then .relative a op.name (signedByte (v % 256)) (a + 2 + signedByte (v % 256))
    else .byte a op.name (v % 256).toNat
  | 2 => .word a op.name (v % 65536).toNat
  | _ => .dword a op.name (v % 4294967296).toNat

/-- The spec's operand value of an instruction: its literal, or for a label reference
the address of the label of that name ignoring case, less `a + 2` for a relative
branch. -/
def operandValue (table : List (List Char × Int)) (i : Instruction) : Int :=
  match i.operandLabel with
  | some ref@(_ :: _) =>
    let target := (table.lookup (upper ref)).getD 0
    if i.opcode.isRelative then target - (i.address + 2) else target
  | _ => i.operand.getD 0

/-- The listing the spec promises for a source whose events are `evs`. -/
def expectedListing (evs : List Event) : List DisasmLine :=
  (layout 0 evs).map fun i => expectedLine i.address i.opcode (operandValue (labelTable 0 evs) i)

/-! ## Pass 2 -/

theorem lookup_findLabel (labels : List Label) (name : List Char) :
    (labels.map Label.entry).lookup name = (findLabel labels name).map (·.address) := by
  induction labels with
  | nil => rfl
  | cons l ls ih =>
    simp only [List.map_cons, List.lookup_cons, findLabel, List.find?_cons, Label.entry] at ih ⊢
    by_cases h : l.name = name
    · simp [h]
    · rw [beq_eq_false_iff_ne.2 (fun e => h e.symm), beq_eq_false_iff_ne.2 h]
      exact ih

/-- `2 ^ (8 * width)`: an operand is written, and read back, modulo this. -/
def Opcode.modulus (op : Opcode) : Int := 256 ^ op.operandSize

theorem expectedLine_congr (a : Int) (op : Opcode) {v v' : Int} (h : v % op.modulus = v' % op.modulus) :
    expectedLine a op v = expectedLine a op v' := by
  rcases op.operandSize_cases with hw | hw | hw | hw <;>
    simp_all [expectedLine, Opcode.modulus]

/-- What pass 2 does to one instruction: opcode and address stay, the operand becomes
the spec's value modulo the width's modulus, and a relative branch to a label reaches it
within a signed byte. -/
theorem resolveInstruction_ok {labels : List Label} {i i' : Instruction}
    (h : resolveInstruction labels i = .ok i') :
    i'.opcode = i.opcode ∧ i'.address = i.address ∧
      i'.operand.getD 0 % i.opcode.modulus =
        operandValue (labels.map Label.entry) i % i.opcode.modulus ∧
      (i.opcode.isRelative → i.operandLabel.getD [] ≠ [] →
        -128 ≤ operandValue (labels.map Label.entry) i ∧
          operandValue (labels.map Label.entry) i ≤ 127) := by
  obtain ⟨op, val, ref, n, addr⟩ := i
  rcases ref with _ | _ | ⟨c, cs⟩
  · simp only [resolveInstruction, Except.ok.injEq] at h; subst h; simp [operandValue]
  · simp only [resolveInstruction, Except.ok.injEq] at h; subst h; simp [operandValue]
  simp only [resolveInstruction] at h
  split at h
  · cases h
  next label hl =>
  have hv : ((labels.map Label.entry).lookup (upper (c :: cs))).getD 0 = label.address := by
    simp [lookup_findLabel, hl]
  split at h
  · next hrel =>
    split at h
    · cases h
    next hrange =>
    cases h
    have hval : operandValue (labels.map Label.entry) ⟨op, val, some (c :: cs), n, addr⟩ =
        label.address - (addr + 2) := by simp [operandValue, hv, hrel]
    refine ⟨rfl, rfl, ?_, fun _ _ => ?_⟩
    · simp [hval, Opcode.modulus, Opcode.operandSize_of_isRelative hrel, Int.emod_emod]
    · simp only [Bool.or_eq_true, decide_eq_true_eq, not_or] at hrange
      omega
  · next hrel =>
    cases h
    simp [operandValue, hv, hrel]

theorem mapM_ok_forall₂ {α β ε : Type} {f : α → Except ε β} {as : List α} {bs : List β}
    (h : as.mapM f = .ok bs) : List.Forall₂ (fun a b => f a = .ok b) as bs := by
  induction as generalizing bs with
  | nil => cases h; exact .nil
  | cons a as ih =>
    simp only [List.mapM_cons, except_bind_eq_ok] at h
    obtain ⟨b, hb, bs', hbs, h⟩ := h
    cases h
    exact .cons hb (ih hbs)

/-! ## Reading the code back -/

theorem length_encodeInstruction (i : Instruction) :
    (encodeInstruction i).length = 1 + i.opcode.operandSize := by
  rcases i.opcode.operandSize_cases with h | h | h | h <;> simp [encodeInstruction, h]

/-- **The disassembler reads an emitted instruction back** as the spec's record for its
operand, and goes on after it. -/
theorem disasmLoop_encode (i : Instruction) (rest : List UInt8) (fuel : Nat) (a : Int) :
    disasmLoop (fuel + 1) a (encodeInstruction i ++ rest) =
      expectedLine a i.opcode (i.operand.getD 0) ::
        disasmLoop fuel (a + (1 + i.opcode.operandSize)) rest := by
  obtain ⟨op, val, ref, n, addr⟩ := i
  have hv : op.value % 256 = op.value := Nat.mod_eq_of_lt op.value_lt
  have hlen : ∀ k, ¬ (k + rest.length < k) := fun k => by omega
  have hnn : 0 ≤ val.getD 0 % 256 := Int.emod_nonneg _ (by decide)
  have hlt : (val.getD 0 % 256).toNat < 128 ↔ val.getD 0 % 256 < 128 := by omega
  have h256 : (val.getD 0 % 256).toNat < 256 := by omega
  have h16 : (val.getD 0 % 65536).toNat < 65536 := by omega
  have h32 : (val.getD 0 % 4294967296).toNat < 4294967296 := by omega
  rcases op.operandSize_cases with h | h | h | h <;>
    simp only [encodeInstruction, h, List.cons_append, disasmLoop, toNat_uint8_ofNat, hv,
      Opcode.ofValue_value, getOperandSize_value] <;>
    simp [operandLine, expectedLine, h, Nat.mod_eq_of_lt, h256, h16, h32, List.take_left',
      List.drop_left', ofLE_toLE, signedByte, hlen, Int.toNat_of_nonneg hnn, hlt]

theorem disasmLoop_flatMap (is : List Instruction) :
    ∀ (a : Int) (fuel : Nat), Consecutive a is → is.length ≤ fuel →
      disasmLoop fuel a (is.flatMap encodeInstruction) =
        is.map fun i => expectedLine i.address i.opcode (i.operand.getD 0) := by
  induction is with
  | nil => intro a fuel _ _; cases fuel <;> rfl
  | cons i is ih =>
    intro a fuel hc hl
    obtain ⟨fuel, rfl⟩ : ∃ f, fuel = f + 1 := ⟨fuel - 1, by simp at hl; omega⟩
    rw [List.flatMap_cons, disasmLoop_encode, ih _ fuel hc.2 (by simpa using hl)]
    simp [hc.1]

theorem length_le_flatMap_encode (is : List Instruction) :
    is.length ≤ (is.flatMap encodeInstruction).length := by
  induction is with
  | nil => rfl
  | cons i is ih =>
    rw [List.flatMap_cons, List.length_append, length_encodeInstruction, List.length_cons]
    omega

theorem signedByte_emod {v : Int} (h1 : -128 ≤ v) (h2 : v ≤ 127) : signedByte (v % 256) = v := by
  unfold signedByte; split <;> omega

/-- Every relative branch to a label that pass 2 accepts reaches it within a signed
byte. -/
theorem resolved_range {labels : List Label} {is is' : List Instruction}
    (h : List.Forall₂ (fun i i' => resolveInstruction labels i = .ok i') is is') :
    ∀ i ∈ is, i.opcode.isRelative → i.operandLabel.getD [] ≠ [] →
      -128 ≤ operandValue (labels.map Label.entry) i ∧
        operandValue (labels.map Label.entry) i ≤ 127 := by
  induction h with
  | nil => simp
  | cons hi _ ih =>
    intro j hj
    rcases List.mem_cons.1 hj with rfl | hj
    · exact (resolveInstruction_ok hi).2.2.2
    · exact ih j hj

/-- Pass 2 over placed instructions keeps them in place and shows each with the spec's
operand value. -/
theorem resolved_listing {labels : List Label} {is is' : List Instruction}
    (h : List.Forall₂ (fun i i' => resolveInstruction labels i = .ok i') is is') :
    ∀ {a : Int}, Consecutive a is →
      Consecutive a is' ∧
        is'.map (fun i => expectedLine i.address i.opcode (i.operand.getD 0)) =
          is.map (fun i => expectedLine i.address i.opcode (operandValue (labels.map Label.entry) i)) := by
  induction h with
  | nil => exact fun _ => ⟨trivial, rfl⟩
  | @cons i i' is is' hi _ ih =>
    intro a hc
    obtain ⟨hop, haddr, hmod, -⟩ := resolveInstruction_ok hi
    obtain ⟨hc', hmap⟩ := ih hc.2
    refine ⟨⟨by rw [haddr, hc.1], by rwa [hop]⟩, ?_⟩
    simp only [List.map_cons, hmap, hop, haddr, expectedLine_congr _ _ hmod]

/-- **`disassemble(assemble(S))` is the spec's listing.** For every source `S` that
`assemble` accepts, with events `evs`: if none of them is `.ORG`, `.DB` or `.BYTE`, the
disassembly of the code has one record per instruction, in order, at the spec's address,
naming its opcode and showing its operand value reduced to its width (a signed byte for
`JR`, `JRZ`, `JRNZ`); and every relative branch to a label shows that label's address as
its target. -/
theorem disassemble_assemble {S : List Char} {st : Assembler} {code : List UInt8}
    (h : assemble S = .ok (st, code)) :
    ∃ evs, readSource S = .ok evs ∧
      ((∀ e ∈ evs, e.movesCursor = false) →
        disassembleLines code = expectedListing evs ∧
        ∀ i ∈ layout 0 evs, i.opcode.isRelative → i.operandLabel.getD [] ≠ [] →
          ∃ s, expectedLine i.address i.opcode (operandValue (labelTable 0 evs) i) =
            .relative i.address i.opcode.name s
              (((labelTable 0 evs).lookup (upper (i.operandLabel.getD []))).getD 0)) := by
  obtain ⟨evs, hr, hres, rfl⟩ := assemble_ok h
  refine ⟨evs, hr, fun hno => ?_⟩
  obtain ⟨hi, hl⟩ := applyEvents_layout {} hno
  simp only [resolveLabels, except_bind_eq_ok, except_pure, Except.ok.injEq] at hres
  obtain ⟨is', hmap, entry, -, rfl⟩ := hres
  have h2 := mapM_ok_forall₂ hmap
  simp only [hi, List.nil_append] at h2
  have htable : (applyEvents {} evs).labels.map Label.entry = labelTable 0 evs := by simpa using hl
  obtain ⟨hc, hlist⟩ := resolved_listing h2 (consecutive_layout 0 evs)
  have hrange := resolved_range h2
  rw [htable] at hlist hrange
  refine ⟨?_, fun i hi hrel href => ?_⟩
  · simp only [disassembleLines, emitBytecode]
    rw [disasmLoop_flatMap is' 0 _ hc (length_le_flatMap_encode is'), hlist]
    rfl
  · obtain ⟨lo, hi'⟩ := hrange i hi hrel href
    obtain ⟨op, val, ref, n, a⟩ := i
    rcases ref with _ | _ | ⟨c, cs⟩
    · simp at href
    · simp at href
    simp only [operandValue, hrel, if_true] at lo hi' ⊢
    have ht : ∀ t : Int, a + 2 + (t - (a + 2)) = t := fun t => by omega
    simp only [expectedLine, Opcode.operandSize_of_isRelative hrel, hrel, if_true,
      signedByte_emod lo hi', ht]
    exact ⟨_, rfl⟩

/-- A backward relative branch and a forward absolute reference, in mixed letter case. -/
theorem disassemble_assemble_loop :
    ∃ st code, assemble "loop: NOP\njr Loop\nPUSH16 fwd\nfwd: HALT".toList = .ok (st, code) ∧
      ∃ evs, readSource "loop: NOP\njr Loop\nPUSH16 fwd\nfwd: HALT".toList = .ok evs ∧
        ((∀ e ∈ evs, e.movesCursor = false) →
          disassembleLines code = expectedListing evs ∧
          ∀ i ∈ layout 0 evs, i.opcode.isRelative → i.operandLabel.getD [] ≠ [] →
            ∃ s, expectedLine i.address i.opcode (operandValue (labelTable 0 evs) i) =
              .relative i.address i.opcode.name s
                (((labelTable 0 evs).lookup (upper (i.operandLabel.getD []))).getD 0)) :=
  ⟨_, _, rfl, disassemble_assemble rfl⟩

/-! ## Programs written with literals -/

/-- A line of a program whose operands are literals: the mnemonic, then, for an opcode
that takes an operand, a space and a literal of the grammar with no `;` or line end in it
and at most 4300 digits if decimal. -/
structure LiteralLine where
  op : Opcode
  operand : Option OperandText
  takesOperand : operand.isSome = decide (0 < op.operandSize)
  literal : ∀ o ∈ operand, o.operand.2 = none ∧ ';' ∉ o.text ∧ NoBreak o.text ∧
    o.decimalDigits ≤ intMaxStrDigits

def LiteralLine.text (l : LiteralLine) : List Char :=
  match l.operand with
  | none => l.op.name
  | some o => l.op.name ++ ' ' :: o.text

/-- The literal's value, as the spec reads it. -/
def LiteralLine.value (l : LiteralLine) : Option Int := l.operand.bind (·.operand.1)

/-- The source of a program: its lines joined with `\n`. -/
def programText : List LiteralLine → List Char
  | [] => []
  | l :: ls => l.text ++ ls.flatMap fun m => '\n' :: m.text

/-- The listing the spec promises for such a program: each instruction after the one
before from `a`, showing its literal reduced to its width. -/
def literalListing (a : Int) : List LiteralLine → List DisasmLine
  | [] => []
  | l :: ls => expectedLine a l.op (l.value.getD 0) :: literalListing (a + (1 + l.op.operandSize)) ls

/-- Each line is one line of text, with no label, read as its instruction with the
literal's value. -/
theorem LiteralLine.read (l : LiteralLine) (n : Nat) :
    l.text ≠ [] ∧ NoBreak l.text ∧ matchLabel (strip (beforeSemicolon l.text)) = none ∧
      readLine l.text n = .ok [.instr l.op l.value none n] := by
  obtain ⟨op, operand, htakes, hlit⟩ := l
  obtain ⟨hne, hplain⟩ := op.name_plain
  cases operand with
  | none =>
    obtain ⟨-, hl, hr⟩ := readLine_name op (by simpa using htakes) n
    exact ⟨hne, fun x hx => (hplain x hx).2.1, hl, hr⟩
  | some o =>
    obtain ⟨hnum, hsemi, hbreak, hlim⟩ := hlit o rfl
    obtain ⟨-, hl, hr⟩ := readLine_operand op (by simpa using htakes.symm) o hsemi hbreak hlim n
    refine ⟨by simp [LiteralLine.text], NoBreak.append (fun x hx => (hplain x hx).2.1)
      fun x hx => (List.mem_cons.1 hx).elim (fun e => e ▸ by decide) (hbreak x), hl, ?_⟩
    simpa [LiteralLine.value, hnum] using hr

theorem readLines_literal (prog : List LiteralLine) (k : Nat) :
    readLines ((prog.map LiteralLine.text).enumFrom k) =
      .ok ((prog.enumFrom k).map fun p => .instr p.2.op p.2.value none p.1) := by
  induction prog generalizing k with
  | nil => rfl
  | cons l ls ih =>
    simp [readLines, (l.read k).2.2.2, ih, Functor.map, Except.map]

theorem layout_literal (prog : List LiteralLine) (a : Int) (k : Nat) :
    (∀ i ∈ layout a ((prog.enumFrom k).map fun p => .instr p.2.op p.2.value none p.1),
        i.operandLabel = none) ∧
      (layout a ((prog.enumFrom k).map fun p => .instr p.2.op p.2.value none p.1)).map
        (fun i => expectedLine i.address i.opcode (i.operand.getD 0)) = literalListing a prog := by
  induction prog generalizing a k with
  | nil => exact ⟨by simp [layout], rfl⟩
  | cons l ls ih =>
    obtain ⟨h1, h2⟩ := ih (a + (1 + l.op.operandSize)) (k + 1)
    simp only [List.enumFrom_cons, List.map_cons, layout, List.mem_cons, forall_eq_or_imp]
    exact ⟨⟨trivial, h1⟩, by rw [h2]; rfl⟩

theorem applyEvents_literal_entry (s : Assembler) (prog : List LiteralLine) (k : Nat) :
    (applyEvents s ((prog.enumFrom k).map fun p => .instr p.2.op p.2.value none p.1)).entryPoint =
      s.entryPoint := by
  induction prog generalizing s k with
  | nil => rfl
  | cons l ls ih => exact ih _ (k + 1)

/-- Pass 2 keeps a state with no label reference and a numeric entry point as it is. -/
theorem resolveLabels_unlabelled {s : Assembler} (h : ∀ i ∈ s.instructions, i.operandLabel = none)
    {e : Int} (he : s.entryPoint = .num e) : resolveLabels s = .ok s := by
  obtain ⟨is, labels, ep, cur⟩ := s
  cases he
  have hm : is.mapM (resolveInstruction labels) = .ok is := by
    induction is with
    | nil => rfl
    | cons i is ih =>
      have hi : resolveInstruction labels i = .ok i := by
        simp [resolveInstruction, h i (List.mem_cons_self _ _)]
      rw [List.mapM_cons, hi, except_ok_bind, ih fun j hj => h j (List.mem_cons_of_mem _ hj)]
      rfl
  rw [resolveLabels, hm, except_ok_bind]
  rfl

/-- **A program written with literals lists back its literals.** For every program whose
lines are each a mnemonic and, for an opcode that takes an operand, a literal of the
grammar: `assemble` accepts its text, and the disassembly of the code has one record per
line, in order, each after the one before from address 0, naming the opcode and showing
the literal's value reduced to its width (a signed byte for `JR`, `JRZ`, `JRNZ`). -/
theorem disassemble_assemble_literals (prog : List LiteralLine) :
    ∃ st code, assemble (programText prog) = .ok (st, code) ∧
      disassembleLines code = literalListing 0 prog := by
  have hlines : splitlines (programText prog) = prog.map LiteralLine.text := by
    cases prog with
    | nil => rfl
    | cons l ls =>
      rw [programText, List.map_cons, ← splitlines_join l.text (ls.map LiteralLine.text), List.flatMap_map]
      intro t ht
      obtain ⟨m, -, rfl⟩ : ∃ m ∈ l :: ls, m.text = t := List.mem_map.1 (by simpa using ht)
      exact ⟨(m.read 0).1, (m.read 0).2.1⟩
  have hp : parseLines {} ((splitlines (programText prog)).enumFrom 1) =
      .ok (applyEvents {} ((prog.enumFrom 1).map fun p => .instr p.2.op p.2.value none p.1)) := by
    rw [hlines, parseLines_noLabel {} fun p hp => ?_, readLines_literal]
    · rfl
    obtain ⟨m, -, hm⟩ := List.mem_map.1 (List.snd_mem_of_mem_enumFrom hp)
    exact hm ▸ (m.read p.1).2.2.1
  have hno : ∀ e ∈ (prog.enumFrom 1).map (fun p => Event.instr p.2.op p.2.value none p.1),
      e.movesCursor = false := by
    simp only [List.mem_map]
    rintro _ ⟨p, -, rfl⟩
    rfl
  obtain ⟨hi, -⟩ := applyEvents_layout {} hno
  obtain ⟨hlab, hlist⟩ := layout_literal prog 0 1
  simp only [List.nil_append] at hi
  have hr := resolveLabels_unlabelled (hi ▸ hlab) (applyEvents_literal_entry {} prog 1)
  refine ⟨_, _, by rw [assemble, hp, except_ok_bind, hr]; rfl, ?_⟩
  rw [disassembleLines, emitBytecode, hi,
    disasmLoop_flatMap _ 0 _ (consecutive_layout 0 _) (length_le_flatMap_encode _), hlist]

end Zplc
