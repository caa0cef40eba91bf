/-
`disassemble(bytecode, base_addr)` of `zplc_asm.py`. Its loop keeps `pc`;
here it walks the rest `bytecode[pc:]` with the address `base_addr + pc`, and
`fuel` bounds the iterations (each reads at least one byte, so the length of
the code is enough). A line is kept as the data its f-string formats
(`DisasmLine`); `disassemble` joins their texts with newlines. No text is
empty or holds a line end, so `str.splitlines` gives back one line per record
(`splitlines_disassemble`).
-/
import Zplc.Asm.Emit

namespace Zplc

open Py

/-- A line of the listing. -/
inductive DisasmLine where
  /-- `0x{addr:04X}: ??? (0x{opcode:02X})`. -/
  | unknown (addr : Int) (opcode : Nat)
  /-- `0x{addr:04X}: {name} <truncated>`. -/
  | truncated (addr : Int) (name : List Char)
  /-- `0x{addr:04X}: {name}`. -/
  | plain (addr : Int) (name : List Char)
  /-- `0x{addr:04X}: {name} {signed_op} (-> 0x{target:04X})`. -/
  | relative (addr : Int) (name : List Char) (signedOp target : Int)
  /-- `0x{addr:04X}: {name} {operand} (0x{operand:02X})`. -/
  | byte (addr : Int) (name : List Char) (operand : Nat)
  /-- `0x{addr:04X}: {name} 0x{operand:04X}`. -/
  | word (addr : Int) (name : List Char) (operand : Nat)
  /-- `0x{addr:04X}: {name} 0x{operand:08X}`. -/
  | dword (addr : Int) (name : List Char) (operand : Nat)
  deriving DecidableEq, Repr

/-- A `<truncated>` line, after which the loop stops. -/
def DisasmLine.isTruncated : DisasmLine → Bool
  | .truncated .. => true
  | _ => false

/-- The line for a known opcode whose operand bytes are all there (`operands` starts
at `pc + 1`). -/
def operandLine (addr : Int) (op : Opcode) (operandSize : Nat) (operands : List UInt8) :
    DisasmLine :=
  if operandSize == 0 then .plain addr op.name
  else if operandSize == 1 then
    let operand := (operands.headD 0).toNat
    if op.isRelative then
      let signedOp : Int := if operand < 128 then operand else operand - 256
      .relative addr op.name signedOp (addr + 2 + signedOp)
    else .byte addr op.name operand
  else if operandSize == 2 then .word addr op.name (ofLE (operands.take 2))
  else .dword addr op.name (ofLE (operands.take 4))

/-- The `while pc < len(bytecode)` loop, from `rest = bytecode[pc:]` at
`addr = base_addr + pc`. -/
def disasmLoop : Nat → Int → List UInt8 → List DisasmLine
  | 0, _, _ => []
  | _ + 1, _, [] => []
  | fuel + 1, addr, opcode :: operands =>
    match Opcode.ofValue opcode.toNat with
    | none => .unknown addr opcode.toNat :: disasmLoop fuel (addr + 1) operands
    | some op =>
      let operandSize := getOperandSize opcode.toNat
      if operands.length < operandSize then [.truncated addr op.name]
      else
        operandLine addr op operandSize operands ::
          disasmLoop fuel (addr + (1 + operandSize)) (operands.drop operandSize)

/-- The lines of `disassemble(bytecode, base_addr)`. -/
def disassembleLines (bytecode : List UInt8) (baseAddr : Int := 0) : List DisasmLine :=
  disasmLoop bytecode.length baseAddr bytecode

/-- `f"{n:0{w}X}"`: upper-case hex digits, zero-padded to `w` characters. -/
def hexUpper (w : Nat) (n : Int) : String :=
  let digits := (Nat.toDigits 16 n.natAbs).map Char.toUpper
  let sign := if n < 0 then "-" else ""
  sign ++ String.mk (List.replicate (w - sign.length - digits.length) '0' ++ digits)

def DisasmLine.text : DisasmLine → String
  | .unknown addr opcode => "0x" ++ hexUpper 4 addr ++ ": ??? (0x" ++ hexUpper 2 opcode ++ ")"
  | .truncated addr name => "0x" ++ hexUpper 4 addr ++ ": " ++ String.mk name ++ " <truncated>"
  | .plain addr name => "0x" ++ hexUpper 4 addr ++ ": " ++ String.mk name
  | .relative addr name signedOp target =>
    "0x" ++ hexUpper 4 addr ++ ": " ++ String.mk name ++ " " ++ toString signedOp ++
      " (-> 0x" ++ hexUpper 4 target ++ ")"
  | .byte addr name operand =>
    "0x" ++ hexUpper 4 addr ++ ": " ++ String.mk name ++ " " ++ toString operand ++
      " (0x" ++ hexUpper 2 operand ++ ")"
  | .word addr name operand => "0x" ++ hexUpper 4 addr ++ ": " ++ String.mk name ++ " 0x" ++ hexUpper 4 operand
  | .dword addr name operand => "0x" ++ hexUpper 4 addr ++ ": " ++ String.mk name ++ " 0x" ++ hexUpper 8 operand

/-- `disassemble(bytecode, base_addr)`. -/
def disassemble (bytecode : List UInt8) (baseAddr : Int := 0) : String :=
  "\n".intercalate ((disassembleLines bytecode baseAddr).map DisasmLine.text)

/-! ## The walk over the code

What the loop reads, stated without fuel: the code is cut into pieces one after the
other, each covered by one line. A byte that is no opcode is a piece of its own; a known
opcode takes its operand bytes with it, and the line reads its operand from those bytes
only; an opcode with fewer operand bytes left than it takes is the last piece. -/

/-- `Walks addr code lines`: the listing `lines` walks `code`, which starts at address
`addr`. -/
inductive Walks : Int → List UInt8 → List DisasmLine → Prop
  | nil (addr : Int) : Walks addr [] []
  /-- `??? (0x..)`, one byte on. -/
  | unknown {addr : Int} {x : UInt8} {rest : List UInt8} {lines : List DisasmLine} :
      Opcode.ofValue x.toNat = none → Walks (addr + 1) rest lines →
      Walks addr (x :: rest) (.unknown addr x.toNat :: lines)
  /-- A whole instruction: the opcode and its `width` operand bytes. -/
  | whole {addr : Int} {x : UInt8} {op : Opcode} {operands rest : List UInt8}
      {lines : List DisasmLine} :
      Opcode.ofValue x.toNat = some op → operands.length = op.operandSize →
      Walks (addr + (1 + op.operandSize)) rest lines →
      Walks addr (x :: (operands ++ rest)) (operandLine addr op op.operandSize operands :: lines)
  /-- `<truncated>`: fewer than `width` bytes after the opcode, and nothing after it. -/
  | truncated {addr : Int} {x : UInt8} {op : Opcode} {operands : List UInt8} :
      Opcode.ofValue x.toNat = some op → operands.length < op.operandSize →
      Walks addr (x :: operands) [.truncated addr op.name]

theorem disasmLoop_unknown {x : UInt8} (hx : Opcode.ofValue x.toNat = none) (fuel : Nat)
    (addr : Int) (rest : List UInt8) :
    disasmLoop (fuel + 1) addr (x :: rest) = .unknown addr x.toNat :: disasmLoop fuel (addr + 1) rest := by
  rw [disasmLoop, hx]

theorem disasmLoop_known {x : UInt8} {op : Opcode} (hx : Opcode.ofValue x.toNat = some op)
    (fuel : Nat) (addr : Int) (operands : List UInt8) :
    disasmLoop (fuel + 1) addr (x :: operands) =
      if operands.length < op.operandSize then [.truncated addr op.name]
      else operandLine addr op op.operandSize operands ::
        disasmLoop fuel (addr + (1 + op.operandSize)) (operands.drop op.operandSize) := by
  rw [disasmLoop, hx]
  dsimp only
  rw [Opcode.getOperandSize_of_ofValue hx]

/-- A line reads no operand byte past its width. -/
theorem operandLine_take (addr : Int) (op : Opcode) (operands : List UInt8) :
    operandLine addr op op.operandSize (operands.take op.operandSize) =
      operandLine addr op op.operandSize operands := by
  rcases op.operandSize_cases with h | h | h | h <;> rw [h]
  · rfl
  · cases operands <;> rfl
  · show DisasmLine.word addr op.name (ofLE ((operands.take 2).take 2)) = _
    rw [List.take_take, Nat.min_self]; rfl
  · show DisasmLine.dword addr op.name (ofLE ((operands.take 4).take 4)) = _
    rw [List.take_take, Nat.min_self]; rfl

theorem walks_disasmLoop (fuel : Nat) (addr : Int) (code : List UInt8) (h : code.length ≤ fuel) :
    Walks addr code (disasmLoop fuel addr code) := by
  induction fuel generalizing addr code with
  | zero => rw [List.eq_nil_of_length_eq_zero (Nat.le_zero.1 h)]; exact .nil addr
  | succ fuel ih =>
    match code, h with
    | [], _ => exact .nil addr
    | x :: operands, h =>
      have hlen : operands.length ≤ fuel := Nat.le_of_succ_le_succ h
      cases hx : Opcode.ofValue x.toNat with
      | none =>
        rw [disasmLoop_unknown hx]
        exact .unknown hx (ih _ _ hlen)
      | some op =>
        rw [disasmLoop_known hx]
        split
        · next hlt => exact .truncated hx hlt
        · next hge =>
          have hwhole : Walks addr (x :: (operands.take op.operandSize ++ operands.drop op.operandSize))
              (operandLine addr op op.operandSize (operands.take op.operandSize) ::
                disasmLoop fuel (addr + (1 + op.operandSize)) (operands.drop op.operandSize)) :=
            .whole hx (List.length_take_of_le (Nat.le_of_not_lt hge))
              (ih _ _ (by rw [List.length_drop]; omega))
          rwa [List.take_append_drop, operandLine_take] at hwhole

/-- **The listing walks the code exactly.** For every code and every base address the
disassembler stops, and its lines cut the code into pieces one after the other from
offset `0`: a byte that is no opcode alone, then the next offset is one on; a known
opcode with its `get_operand_size` operand bytes, from which alone the line reads its
operand, then the next offset is past them; or, as the last line, an opcode with fewer
bytes after it than its width (`<truncated>` exactly when `p + width ≥ len(b)`).
Otherwise the last piece ends at the end of the code. -/
theorem disassemble_walks (bytecode : List UInt8) (baseAddr : Int) :
    Walks baseAddr bytecode (disassembleLines bytecode baseAddr) :=
  walks_disasmLoop _ _ _ le_rfl

/-- The walk of a code is the loop's listing: no other listing walks it. -/
theorem Walks.eq_disasmLoop {addr : Int} {code : List UInt8} {lines : List DisasmLine}
    (h : Walks addr code lines) (fuel : Nat) (hf : code.length ≤ fuel) :
    lines = disasmLoop fuel addr code := by
  induction h generalizing fuel with
  | nil => cases fuel <;> rfl
  | unknown hx _ ih =>
    cases fuel with
    | zero => exact absurd hf (Nat.not_succ_le_zero _)
    | succ fuel => rw [disasmLoop_unknown hx, ← ih fuel (Nat.le_of_succ_le_succ hf)]
  | @whole addr x op operands rest _ hx hlen _ ih =>
    cases fuel with
    | zero => exact absurd hf (Nat.not_succ_le_zero _)
    | succ fuel =>
      have hf' : (operands ++ rest).length ≤ fuel := Nat.le_of_succ_le_succ hf
      rw [List.length_append] at hf'
      rw [disasmLoop_known hx, if_neg (by rw [List.length_append]; omega),
        ← operandLine_take addr op (operands ++ rest), List.take_left' hlen, List.drop_left' hlen,
        ← ih fuel (by omega)]
  | truncated hx hlt =>
    cases fuel with
    | zero => exact absurd hf (Nat.not_succ_le_zero _)
    | succ fuel =>
      rw [disasmLoop_known hx, if_pos hlt]

/-- The disassembler's lines are the one listing that walks the code. -/
theorem walks_iff (bytecode : List UInt8) (baseAddr : Int) (lines : List DisasmLine) :
    Walks baseAddr bytecode lines ↔ lines = disassembleLines bytecode baseAddr :=
  ⟨fun h => h.eq_disasmLoop _ le_rfl, fun h => h ▸ walks_disasmLoop _ _ _ le_rfl⟩

/-! ## Listings of joined code -/

theorem Walks.append {addr : Int} {code code' : List UInt8} {lines lines' : List DisasmLine}
    (h : Walks addr code lines) (hnt : ∀ l ∈ lines, l.isTruncated = false)
    (h' : Walks (addr + code.length) code' lines') :
    Walks addr (code ++ code') (lines ++ lines') := by
  induction h with
  | nil => simpa using h'
  | @unknown addr x rest lines hx _ ih =>
    have h'' : Walks (addr + 1 + rest.length) code' lines' := by
      rwa [List.length_cons, show addr + ((rest.length + 1 : Nat) : Int) = addr + 1 + rest.length by
        push_cast; omega] at h'
    exact .unknown hx (ih (fun l hl => hnt l (List.mem_cons_of_mem _ hl)) h'')
  | @whole addr x op operands rest lines hx hlen _ ih =>
    have h'' : Walks (addr + (1 + op.operandSize) + rest.length) code' lines' := by
      rw [List.length_cons, List.length_append, hlen] at h'
      rwa [show addr + ((op.operandSize + rest.length + 1 : Nat) : Int) =
        addr + (1 + op.operandSize) + rest.length by push_cast; omega] at h'
    rw [List.cons_append, List.append_assoc, List.cons_append]
    exact .whole hx hlen (ih (fun l hl => hnt l (List.mem_cons_of_mem _ hl)) h'')
  | truncated => exact absurd (hnt _ (List.mem_singleton_self _)) Bool.noConfusion

/-- **Code joined at an instruction boundary is listed piece by piece.** For all codes
`b₁` and `b₂` and every base address: when no line of `b₁`'s listing is `<truncated>`,
the listing of `b₁ ++ b₂` is that of `b₁`, then that of `b₂` from the address where
`b₁` ends. -/
theorem disassembleLines_append (b₁ b₂ : List UInt8) (baseAddr : Int)
    (h : ∀ l ∈ disassembleLines b₁ baseAddr, l.isTruncated = false) :
    disassembleLines (b₁ ++ b₂) baseAddr =
      disassembleLines b₁ baseAddr ++ disassembleLines b₂ (baseAddr + b₁.length) :=
  ((walks_iff _ _ _).1 ((walks_disasmLoop _ _ _ le_rfl).append h
    (walks_disasmLoop _ _ _ le_rfl))).symm

/-- A word push, then a byte that is no opcode. -/
theorem disassembleLines_append_push :
    (∀ l ∈ disassembleLines [0x88, 0x34, 0x12] 0x100, l.isTruncated = false) ∧
      disassembleLines ([0x88, 0x34, 0x12] ++ [0xFF]) 0x100 =
        disassembleLines [0x88, 0x34, 0x12] 0x100 ++
          disassembleLines [0xFF] (0x100 + ([0x88, 0x34, 0x12] : List UInt8).length) :=
  ⟨by decide, disassembleLines_append _ _ _ (by decide)⟩

/-! ## The text -/

theorem NoBreak.str_append {a b : String} (ha : NoBreak a.toList) (hb : NoBreak b.toList) :
    NoBreak (a ++ b).toList :=
  NoBreak.append ha hb

theorem str_append_ne_nil {a : String} (h : a.toList ≠ []) (b : String) : (a ++ b).toList ≠ [] :=
  List.append_ne_nil_of_left_ne_nil h _

theorem noBreak_hexUpper (w : Nat) (n : Int) : NoBreak (hexUpper w n).toList := by
  unfold hexUpper
  refine NoBreak.str_append (by split <;> decide) (NoBreak.append (fun c hc => ?_)
    (noBreak_toDigits (by decide) (by decide) _).2)
  rw [List.eq_of_mem_replicate hc]; decide

theorem noBreak_name (op : Opcode) : NoBreak (String.mk op.name).toList := by
  obtain ⟨h, -⟩ := op.name_isIdent
  generalize op.name = s at h
  cases s with
  | nil => exact fun _ h => absurd h (List.not_mem_nil _)
  | cons c cs =>
    simp only [isIdentBody, Bool.and_eq_true, List.all_eq_true] at h
    intro d hd
    rcases List.mem_cons.1 hd with rfl | hd
    · exact (isIdentChar_plain (isIdentChar_of_isIdentStart h.1)).2.1
    · exact (isIdentChar_plain (h.2 d hd)).2.1

/-- Every line starts with `0x`. -/
theorem DisasmLine.text_ne_nil (l : DisasmLine) : l.text.toList ≠ [] := by
  cases l <;> simp only [DisasmLine.text] <;>
    repeat' with_reducible apply str_append_ne_nil
  all_goals decide

theorem noBreak_text_unknown (addr : Int) (k : Nat) :
    NoBreak (DisasmLine.unknown addr k).text.toList := by
  unfold DisasmLine.text
  repeat' with_reducible apply NoBreak.str_append
  all_goals first | with_reducible exact noBreak_hexUpper _ _ | decide

theorem noBreak_text_truncated (addr : Int) (op : Opcode) :
    NoBreak (DisasmLine.truncated addr op.name).text.toList := by
  unfold DisasmLine.text
  repeat' with_reducible apply NoBreak.str_append
  all_goals first
    | with_reducible exact noBreak_hexUpper _ _
    | with_reducible exact noBreak_name op
    | decide

theorem noBreak_text_operandLine (addr : Int) (op : Opcode) (size : Nat) (operands : List UInt8) :
    NoBreak (operandLine addr op size operands).text.toList := by
  unfold operandLine
  split_ifs <;> unfold DisasmLine.text <;> repeat' with_reducible apply NoBreak.str_append
  all_goals first
    | with_reducible exact noBreak_hexUpper _ _
    | with_reducible exact noBreak_name op
    | with_reducible exact noBreak_toString_int _
    | with_reducible exact noBreak_toString_nat _
    | decide

theorem Walks.noBreak {addr : Int} {code : List UInt8} {lines : List DisasmLine}
    (h : Walks addr code lines) : ∀ l ∈ lines, NoBreak l.text.toList := by
  induction h with
  | nil => exact fun _ h => absurd h (List.not_mem_nil _)
  | unknown _ _ ih =>
    exact fun l hl => (List.mem_cons.1 hl).elim (fun e => e ▸ noBreak_text_unknown _ _) (ih l)
  | whole _ _ _ ih =>
    exact fun l hl => (List.mem_cons.1 hl).elim (fun e => e ▸ noBreak_text_operandLine _ _ _ _) (ih l)
  | truncated _ _ => exact fun l hl => List.mem_singleton.1 hl ▸ noBreak_text_truncated _ _

/-- **The listing has one line per record.** For every code and base address, the text
`disassemble` returns splits back, by `str.splitlines`, into exactly the texts of its
records, in order: no record is empty or holds a line end. -/
theorem splitlines_disassemble (bytecode : List UInt8) (baseAddr : Int) :
    splitlines (disassemble bytecode baseAddr).toList =
      (disassembleLines bytecode baseAddr).map fun l => l.text.toList := by
  have hw : ∀ l ∈ disassembleLines bytecode baseAddr, NoBreak l.text.toList :=
    (walks_disasmLoop _ _ _ le_rfl).noBreak
  rw [disassemble]
  generalize disassembleLines bytecode baseAddr = lines at hw ⊢
  cases lines with
  | nil => rfl
  | cons l ls =>
    have hsep : ((ls.map DisasmLine.text).flatMap fun b => "\n".toList ++ b.toList) =
        (ls.map fun l => l.text.toList).flatMap fun b => '\n' :: b := by
      rw [List.flatMap_map, List.flatMap_map]; rfl
    rw [List.map_cons, toList_intercalate_cons, hsep, List.map_cons, splitlines_join]
    intro m hm
    rcases List.mem_cons.1 hm with rfl | hm
    · exact ⟨l.text_ne_nil, hw l (List.mem_cons_self _ _)⟩
    · obtain ⟨l', hl', rfl⟩ := List.mem_map.1 hm
      exact ⟨l'.text_ne_nil, hw l' (List.mem_cons_of_mem _ hl')⟩

end Zplc
