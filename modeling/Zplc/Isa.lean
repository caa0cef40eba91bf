/-
The instruction set as `zplc_asm.py` declares it: the `Opcode` members with
their byte values, `get_operand_size`, and the two tables built from them
(`OPCODE_BY_NAME`, `OPERAND_SIZE`). The disassembler's reverse table
(`{op.value: op.name for op in Opcode}`) is `Opcode.ofValue`.
-/
import Zplc.Python.Struct

namespace Zplc

/-- `class Opcode(IntEnum)`, members in declaration order. -/
inductive Opcode where
  | NOP | HALT | BREAK | GET_TICKS
  | DUP | DROP | SWAP | OVER | ROT
  | ADD | SUB | MUL | DIV | MOD | NEG | ABS
  | ADDF | SUBF | MULF | DIVF | NEGF | ABSF
  | AND | OR | XOR | NOT | SHL | SHR | SAR
  | EQ | NE | LT | LE | GT | GE | LTU | GTU
  | PUSH8 | JR | JRZ | JRNZ
  | LOAD8 | LOAD16 | LOAD32 | LOAD64 | STORE8 | STORE16 | STORE32 | STORE64 | PUSH16
  | JMP | JZ | JNZ | CALL | RET
  | I2F | F2I | I2B | EXT8 | EXT16 | ZEXT8 | ZEXT16
  | PUSH32
  deriving DecidableEq, Repr

namespace Opcode

/-- The member's value. -/
def value : Opcode → Nat
  | NOP => 0x00 | HALT => 0x01 | BREAK => 0x02 | GET_TICKS => 0x03
  | DUP => 0x10 | DROP => 0x11 | SWAP => 0x12 | OVER => 0x13 | ROT => 0x14
  | ADD => 0x20 | SUB => 0x21 | MUL => 0x22 | DIV => 0x23 | MOD => 0x24 | NEG => 0x25
  | ABS => 0x26
  | ADDF => 0x28 | SUBF => 0x29 | MULF => 0x2A | DIVF => 0x2B | NEGF => 0x2C | ABSF => 0x2D
  | AND => 0x30 | OR => 0x31 | XOR => 0x32 | NOT => 0x33 | SHL => 0x34 | SHR => 0x35
  | SAR => 0x36
  | EQ => 0x38 | NE => 0x39 | LT => 0x3A | LE => 0x3B | GT => 0x3C | GE => 0x3D
  | LTU => 0x3E | GTU => 0x3F
  | PUSH8 => 0x40 | JR => 0x50 | JRZ => 0x51 | JRNZ => 0x52
  | LOAD8 => 0x80 | LOAD16 => 0x81 | LOAD32 => 0x82 | LOAD64 => 0x83 | STORE8 => 0x84
  | STORE16 => 0x85 | STORE32 => 0x86 | STORE64 => 0x87 | PUSH16 => 0x88
  | JMP => 0x90 | JZ => 0x91 | JNZ => 0x92 | CALL => 0x93 | RET => 0x94
  | I2F => 0xA0 | F2I => 0xA1 | I2B => 0xA2 | EXT8 => 0xA3 | EXT16 => 0xA4 | ZEXT8 => 0xA5
  | ZEXT16 => 0xA6
  | PUSH32 => 0xC0

/-- Every member, in declaration order (iterating `Opcode`). -/
def all : List Opcode :=
  [NOP, HALT, BREAK, GET_TICKS, DUP, DROP, SWAP, OVER, ROT, ADD, SUB, MUL, DIV, MOD, NEG, ABS,
   ADDF, SUBF, MULF, DIVF, NEGF, ABSF, AND, OR, XOR, NOT, SHL, SHR, SAR,
   EQ, NE, LT, LE, GT, GE, LTU, GTU, PUSH8, JR, JRZ, JRNZ,
   LOAD8, LOAD16, LOAD32, LOAD64, STORE8, STORE16, STORE32, STORE64, PUSH16,
   JMP, JZ, JNZ, CALL, RET, I2F, F2I, I2B, EXT8, EXT16, ZEXT8, ZEXT16, PUSH32]

/-- The member's name, `op.name`. -/
def nameStr : Opcode → String
  | NOP => "NOP" | HALT => "HALT" | BREAK => "BREAK" | GET_TICKS => "GET_TICKS"
  | DUP => "DUP" | DROP => "DROP" | SWAP => "SWAP" | OVER => "OVER" | ROT => "ROT"
  | ADD => "ADD" | SUB => "SUB" | MUL => "MUL" | DIV => "DIV" | MOD => "MOD" | NEG => "NEG"
  | ABS => "ABS" | ADDF => "ADDF" | SUBF => "SUBF" | MULF => "MULF" | DIVF => "DIVF"
  | NEGF => "NEGF" | ABSF => "ABSF" | AND => "AND" | OR => "OR" | XOR => "XOR"
  | NOT => "NOT" | SHL => "SHL" | SHR => "SHR" | SAR => "SAR" | EQ => "EQ" | NE => "NE"
  | LT => "LT" | LE => "LE" | GT => "GT" | GE => "GE" | LTU => "LTU" | GTU => "GTU"
  | PUSH8 => "PUSH8" | JR => "JR" | JRZ => "JRZ" | JRNZ => "JRNZ" | LOAD8 => "LOAD8"
  | LOAD16 => "LOAD16" | LOAD32 => "LOAD32" | LOAD64 => "LOAD64" | STORE8 => "STORE8"
  | STORE16 => "STORE16" | STORE32 => "STORE32" | STORE64 => "STORE64" | PUSH16 => "PUSH16"
  | JMP => "JMP" | JZ => "JZ" | JNZ => "JNZ" | CALL => "CALL" | RET => "RET" | I2F => "I2F"
  | F2I => "F2I" | I2B => "I2B" | EXT8 => "EXT8" | EXT16 => "EXT16" | ZEXT8 => "ZEXT8"
  | ZEXT16 => "ZEXT16" | PUSH32 => "PUSH32"

def name (op : Opcode) : List Char := op.nameStr.toList

/-- `OPCODE_BY_NAME[name]`, when `name in OPCODE_BY_NAME`. -/
def ofName (n : List Char) : Option Opcode := all.find? (·.name == n)

/-- `opcode_names[value]`, when `value in opcode_names`. -/
def ofValue (v : Nat) : Option Opcode := all.find? (·.value == v)

/-- The relative branches `JR`, `JRZ`, `JRNZ`. -/
def isRelative (op : Opcode) : Bool := op == JR || op == JRZ || op == JRNZ

end Opcode

/-- `get_operand_size(opcode)`. -/
def getOperandSize (opcode : Nat) : Nat :=
  if opcode == 0x94 then 0
  else if 0xA0 ≤ opcode && opcode ≤ 0xA6 then 0
  else if opcode < 0x40 then 0
  else if opcode < 0x80 then 1
  else if opcode < 0xC0 then 2
  else 4

/-- `OPERAND_SIZE[op]`. -/
def Opcode.operandSize (op : Opcode) : Nat := getOperandSize op.value

@[simp] theorem getOperandSize_value (op : Opcode) : getOperandSize op.value = op.operandSize := rfl

namespace Opcode

theorem ofValue_value (op : Opcode) : ofValue op.value = some op := by cases op <;> rfl

theorem ofName_name (op : Opcode) : ofName op.name = some op := by cases op <;> rfl

theorem value_lt (op : Opcode) : op.value < 256 := by cases op <;> decide

theorem operandSize_cases (op : Opcode) :
    op.operandSize = 0 ∨ op.operandSize = 1 ∨ op.operandSize = 2 ∨ op.operandSize = 4 := by
  cases op <;> decide

theorem operandSize_of_isRelative {op : Opcode} (h : op.isRelative = true) : op.operandSize = 1 := by
  simp only [isRelative, Bool.or_eq_true, beq_iff_eq] at h
  rcases h with (rfl | rfl) | rfl <;> rfl

theorem name_ofName {n : List Char} {op : Opcode} (h : ofName n = some op) : op.name = n := by
  simpa using List.find?_some h

theorem value_ofValue {v : Nat} {op : Opcode} (h : ofValue v = some op) : op.value = v := by
  simpa using List.find?_some h

theorem getOperandSize_of_ofValue {v : Nat} {op : Opcode} (h : ofValue v = some op) :
    getOperandSize v = op.operandSize := by
  rw [← value_ofValue h]; rfl

/-- Every mnemonic is an upper-case identifier. -/
theorem name_isIdent (op : Opcode) : Py.isIdentBody op.name = true ∧ Py.upper op.name = op.name := by
  cases op <;> exact ⟨rfl, rfl⟩

end Opcode

end Zplc
