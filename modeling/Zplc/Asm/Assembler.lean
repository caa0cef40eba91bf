/-
`ZPLCAssembler`, pass 1: `parse_number`, `parse_operand`, `handle_directive`
and `parse_line` of `zplc_asm.py`. A line is read into the assembler's
fields: instructions with the address cursor at their line, labels with the
cursor at theirs, the entry point, and the cursor itself.

An error is the `AssemblerError` the code raises, its message kept as the
data the f-string formats. `handle_directive` lets the `ValueError` of a bad
`.DB` value through; `assemble` turns it into an `AssemblerError` naming the
line. Logging (`log`, `verbose`) only prints and is left out.
-/
import Zplc.Isa

namespace Zplc

open Py

/-- `Instruction`. `address` is the cursor at its line, which `.ORG` can set to any
integer. -/
structure Instruction where
  opcode : Opcode
  operand : Option Int
  operandLabel : Option (List Char)
  lineNum : Nat
  address : Int
  deriving DecidableEq, Repr

/-- `Label`. -/
structure Label where
  name : List Char
  address : Int
  lineNum : Nat
  deriving DecidableEq, Repr

/-- `entry_point`: a number, or a label name until `resolve_labels` looks it up. -/
inductive EntryPoint where
  | num (v : Int)
  | label (name : List Char)
  deriving DecidableEq, Repr

/-- The assembler's state, as `assemble` resets it. `labels` is the `dict`'s entries
in insertion order. -/
structure Assembler where
  instructions : List Instruction := []
  labels : List Label := []
  entryPoint : EntryPoint := .num 0
  currentAddress : Int := 0
  deriving DecidableEq, Repr

/-- The message of an `AssemblerError`, as the data its f-string formats. -/
inductive AsmMessage where
  | duplicateLabel (name : List Char)
  | unknownInstruction (mnemonic : List Char)
  | requiresOperand (mnemonic : List Char)
  | takesNoOperand (mnemonic : List Char)
  | invalidOperand (operand : List Char) (e : ValueError)
  | invalidOrg (operand : List Char)
  | invalidEntry (operand : List Char)
  | unknownDirective (directive : List Char)
  | undefinedLabel (name : List Char)
  | jumpOutOfRange (name : List Char) (offset : Int)
  | undefinedEntry (name : List Char)
  /-- `assemble`'s `AssemblerError(str(e), line_num, line)` for another exception. -/
  | raised (e : ValueError)
  deriving DecidableEq, Repr

/-- `AssemblerError(message, line_num, line)`. -/
structure AssemblerError where
  message : AsmMessage
  lineNum : Nat
  line : List Char
  deriving DecidableEq, Repr

/-- What `parse_line` raises: an `AssemblerError`, or the `ValueError` of a `.DB`
value. -/
inductive LineError where
  | asm (e : AssemblerError)
  | value (e : ValueError)
  deriving DecidableEq, Repr

/-! ## Numbers and operands -/

/-- `escapes` of `parse_number`'s character literals. -/
def escapes : List (Char × Nat) :=
  [('n', 10), ('r', 13), ('t', 9), ('\\', 92), ('\'', 39), ('0', 0)]

/-- The character-literal branch of `parse_number`, for a quoted `s` of at least three
characters: an escape when `s[1]` is a backslash, `len(s) >= 4` and `s[2] in escapes`,
`ord(s[1])` otherwise. -/
def charLiteralValue (s : List Char) : Int :=
  match s with
  | _ :: '\\' :: c :: _ =>
    match (if 4 ≤ s.length then escapes.lookup c else none) with
    | some v => v
    | none => ('\\' : Char).toNat
  | _ :: c :: _ => c.toNat
  | _ => 0

/-- `s.lower().startswith(p)` for an ASCII `p`. -/
def lowerStartsWith (s p : List Char) : Bool := p.isPrefixOf (s.map Char.toLower)

/-- `parse_number(s)`. -/
def parseNumber (s : List Char) : Except ValueError Int :=
  let s := strip s
  if s.isEmpty then .error .emptyNumber
  else if s.head? == some '\'' && s.getLast? == some '\'' && 3 ≤ s.length then
    .ok (charLiteralValue s)
  else
    let (negative, s) := splitSign s
    let base :=
      if lowerStartsWith s "0x".toList then 16
      else if lowerStartsWith s "0b".toList then 2
      else if lowerStartsWith s "0o".toList then 8
      else 10
    (fun value => if negative then -value else value) <$> pyInt s base

/-- `parse_operand(operand_str, line_num, opcode)`: `(value, label_ref)`. The opcode
argument is unused by the source. -/
def parseOperand (operandStr : List Char) (lineNum : Nat) :
    Except AssemblerError (Option Int × Option (List Char)) :=
  let operandStr := strip operandStr
  if operandStr.isEmpty then .ok (none, none)
  else if matchIdentifier operandStr then .ok (none, some operandStr)
  else
    match parseNumber operandStr with
    | .ok v => .ok (some v, none)
    | .error e => .error ⟨.invalidOperand operandStr e, lineNum, []⟩

/-! ## Lines -/

/-- The loop of `.DB`/`.BYTE`: each value is parsed, then the cursor advances; a
`ValueError` escapes. -/
def defineBytes (s : Assembler) : List (List Char) → Except LineError Assembler
  | [] => .ok s
  | v :: vs =>
    match parseNumber (strip v) with
    | .ok _ => defineBytes { s with currentAddress := s.currentAddress + 1 } vs
    | .error e => .error (.value e)

/-- `handle_directive(directive, operand, line_num)`. -/
def handleDirective (s : Assembler) (directive operand : List Char) (lineNum : Nat) :
    Except LineError Assembler :=
  if directive == ".ORG".toList then
    match parseNumber operand with
    | .ok v => .ok { s with currentAddress := v }
    | .error _ => .error (.asm ⟨.invalidOrg operand, lineNum, []⟩)
  else if directive == ".ENTRY".toList then
    let operand := strip operand
    if matchIdentifier operand then .ok { s with entryPoint := .label (upper operand) }
    else
      match parseNumber operand with
      | .ok v => .ok { s with entryPoint := .num v }
      | .error _ => .error (.asm ⟨.invalidEntry operand, lineNum, []⟩)
  else if directive == ".DB".toList || directive == ".BYTE".toList then
    defineBytes s (operand.splitOn ',')
  else .error (.asm ⟨.unknownDirective directive, lineNum, []⟩)

/-- The operand fields of the instruction `parse_line` builds, with its checks. -/
def lineOperand (mnemonic operandStr line : List Char) (lineNum operandSize : Nat) :
    Except LineError (Option Int × Option (List Char)) :=
  if 0 < operandSize then
    if operandStr.isEmpty then .error (.asm ⟨.requiresOperand mnemonic, lineNum, line⟩)
    else (parseOperand operandStr lineNum).mapError .asm
  else if !operandStr.isEmpty then .error (.asm ⟨.takesNoOperand mnemonic, lineNum, line⟩)
  else .ok (none, none)

/-- `parse_line` after the label: the directive or instruction of `line`. -/
def parseStatement (s : Assembler) (line : List Char) (lineNum : Nat) :
    Except LineError Assembler :=
  let (word, operandStr) := splitFirst line
  let mnemonic := upper word
  if mnemonic.head? == some '.' then handleDirective s mnemonic operandStr lineNum
  else
    match Opcode.ofName mnemonic with
    | none => .error (.asm ⟨.unknownInstruction mnemonic, lineNum, line⟩)
    | some opcode =>
      (lineOperand mnemonic operandStr line lineNum opcode.operandSize).map fun (val, ref) =>
        { s with
          instructions := s.instructions ++ [⟨opcode, val, ref, lineNum, s.currentAddress⟩]
          currentAddress := s.currentAddress + (1 + opcode.operandSize) }

/-- `parse_line(line, line_num)`. -/
def parseLine (s : Assembler) (raw : List Char) (lineNum : Nat) : Except LineError Assembler :=
  let line := strip (beforeSemicolon raw)
  if line.isEmpty then .ok s
  else
    match matchLabel line with
    | some (name, rest) =>
      let labelName := upper name
      if s.labels.any (·.name == labelName) then
        .error (.asm ⟨.duplicateLabel labelName, lineNum, line⟩)
      else
        let s := { s with labels := s.labels ++ [⟨labelName, s.currentAddress, lineNum⟩] }
        let line := strip rest
        if line.isEmpty then .ok s else parseStatement s line lineNum
    | none => parseStatement s line lineNum

/-- Pass 1 of `assemble` over the numbered lines; another exception of a line becomes an
`AssemblerError` with that line. -/
def parseLines (s : Assembler) : List (Nat × List Char) → Except AssemblerError Assembler
  | [] => .ok s
  | (n, line) :: rest =>
    match parseLine s line n with
    | .ok s' => parseLines s' rest
    | .error (.asm e) => .error e
    | .error (.value e) => .error ⟨.raised e, n, line⟩

end Zplc
