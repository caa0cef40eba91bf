/-
`ZPLCAssembler`, pass 2 and output: `resolve_labels`, `emit_bytecode`,
`assemble` and `create_zplc_file` of `zplc_asm.py`. Python's `x & 0xFF`
(and `0xFFFF`, `0xFFFFFFFF`) is `x % 2 ^ k`, also for a negative `x`.
-/
import Zplc.Asm.Assembler

namespace Zplc

open Py

/-- `self.labels[name]`, when `name in self.labels`. -/
def findLabel (labels : List Label) (name : List Char) : Option Label :=
  labels.find? (·.name == name)

/-- One iteration of `resolve_labels`' loop over the instructions. -/
def resolveInstruction (labels : List Label) (instr : Instruction) :
    Except AssemblerError Instruction :=
  match instr.operandLabel with
  | some ref@(_ :: _) =>
    let labelName := upper ref
    match findLabel labels labelName with
    | none => .error ⟨.undefinedLabel labelName, instr.lineNum, []⟩
    | some label =>
      if instr.opcode.isRelative then
        let offset := label.address - (instr.address + 2)
        if offset < -128 || offset > 127 then
          .error ⟨.jumpOutOfRange labelName offset, instr.lineNum, []⟩
        else .ok { instr with operand := some (offset % 256) }
      else .ok { instr with operand := some label.address }
  | _ => .ok instr

/-- The end of `resolve_labels()`: an entry point that is a label name is looked up. -/
def resolveEntry (labels : List Label) : EntryPoint → Except AssemblerError EntryPoint
  | .label name =>
    match findLabel labels name with
    | some label => .ok (.num label.address)
    | none => .error ⟨.undefinedEntry name, 0, []⟩
  | e => .ok e

/-- `resolve_labels()`. -/
def resolveLabels (s : Assembler) : Except AssemblerError Assembler := do
  let instructions ← s.instructions.mapM (resolveInstruction s.labels)
  let entryPoint ← resolveEntry s.labels s.entryPoint
  pure { s with instructions, entryPoint }

/-- The bytes `emit_bytecode` writes for one instruction: the opcode, then the operand
(0 when there is none) masked to its width, little-endian. -/
def encodeInstruction (instr : Instruction) : List UInt8 :=
  let operandSize := instr.opcode.operandSize
  let operand := instr.operand.getD 0
  UInt8.ofNat instr.opcode.value ::
    if operandSize == 1 then [UInt8.ofNat (operand % 256).toNat]
    else if operandSize == 2 then toLE 2 (operand % 65536).toNat
    else if operandSize == 4 then toLE 4 (operand % 4294967296).toNat
    else []

/-- `emit_bytecode()`. -/
def emitBytecode (s : Assembler) : List UInt8 := s.instructions.flatMap encodeInstruction

/-- `assemble(source)`: the raw bytecode, with the assembler as it is left, whose
`entry_point` `create_zplc_file` writes. -/
def assemble (source : List Char) : Except AssemblerError (Assembler × List UInt8) := do
  let s ← parseLines {} ((splitlines source).enumFrom 1)
  let s ← resolveLabels s
  pure (s, emitBytecode s)

def zplcMagic : Nat := 0x434C505A

def zplcVersionMajor : Nat := 1

def zplcVersionMinor : Nat := 0

/-- The header layout `<IHHIIIIHHI`. -/
def headerFormat : List Field := [.I, .H, .H, .I, .I, .I, .I, .H, .H, .I]

/-- The segment-table entry layout `<HHI`. -/
def segmentFormat : List Field := [.H, .H, .I]

/-- `create_zplc_file(bytecode)`: header, one code segment entry, the code. Its two
`assert`s on the packed lengths always hold (`length_pack`). -/
def createZplcFile (s : Assembler) (bytecode : List UInt8) : Except StructError (List UInt8) := do
  let codeSize : Int := bytecode.length
  let segmentCount : Int := 1
  let entry : Int := match s.entryPoint with
    | .num v => v
    | .label _ => 0
  let header ← pack headerFormat
    [zplcMagic, zplcVersionMajor, zplcVersionMinor, 0, 0, codeSize, 0, entry, segmentCount, 0]
  let segmentEntry ← pack segmentFormat [1, 0, codeSize]
  pure (header ++ segmentEntry ++ bytecode)

end Zplc
