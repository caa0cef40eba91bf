/-
What `LanguageTester` reads back from the device's memory: `expect_memory`
with the integer formats, `expect_int16`, `expect_int32` and `expect_bool`,
all on top of `peek`. Their prints are left out; what each returns is kept.

`peek` returns values below 256 only (`peekBytes_lt`), so `bytearray(mem)`
never raises. A value `poke` writes as a word or a double word reads back
under `expect_int16` or `expect_int32` as itself only below `2^15` or `2^31`:
the expects read signed, while `poke` packs unsigned and refuses a negative
value (`expectMemory_after_poke`). `expect_bool` tests a bit of one byte: it
reads back the bit of the byte `poke` wrote (`expectBool_after_poke`), and from
bit 8 on it holds exactly when the bit is expected clear, whatever the memory
holds (`expectBool_high_bit`).
-/
import Zplc.Hil.Poke

namespace Zplc.Hil

open Py Serial

/-- The formats of `struct` that `expect_memory` reads as one little-endian integer:
`<b`, `<B`, `<h`, `<H`, `<i`, `<I`. -/
inductive IntFormat where
  | b
  | B
  | h
  | H
  | i
  | I
  deriving DecidableEq, Repr

/-- `size_map[fmt_char]`. -/
def IntFormat.size : IntFormat → Nat
  | .b | .B => 1
  | .h | .H => 2
  | .i | .I => 4

/-- A lower-case letter reads a signed integer. -/
def IntFormat.signed : IntFormat → Bool
  | .b | .h | .i => true
  | _ => false

/-- `struct.unpack(fmt, bytearray(mem))[0]`, for `mem` of the format's size. -/
def IntFormat.unpack (f : IntFormat) (mem : List Nat) : Int :=
  let data := mem.map UInt8.ofNat
  if f.signed then ofLESigned data else ofLE data

/-- `expect_memory(address, fmt, expected_value)` for an integer format: `False` on a
short read, else whether the value read is the one expected. -/
def expectMemory (address : Int) (fmt : IntFormat) (expectedValue : Int) : Serial Bool := do
  let mem ← peek address fmt.size
  if mem.length < fmt.size then pure false
  else pure (fmt.unpack mem == expectedValue)

/-- `expect_int16(address, expected_value)`. -/
def expectInt16 (address expectedValue : Int) : Serial Bool :=
  expectMemory (address + 0x1000) .h expectedValue

/-- `expect_int32(address, expected_value)`. -/
def expectInt32 (address expectedValue : Int) : Serial Bool :=
  expectMemory (address + 0x1000) .i expectedValue

/-- `expect_bool(address, bit_offset, expected_bool)`: bit `bit_offset` of the byte at
`address + 0x1000`, `(mem[0] >> bit_offset) & 1`. A negative offset, for which `>>`
raises, is outside the model. -/
def expectBool (address : Int) (bitOffset : Nat) (expectedBool : Bool) : Serial Bool := do
  let mem ← peek (address + 0x1000) 1
  match mem with
  | [] => pure false
  | m :: _ => pure ((m >>> bitOffset) % 2 == if expectedBool then 1 else 0)

/-- The signed format of a field's width, as `expect_int16` and `expect_int32` read it. -/
def IntFormat.signedOf : Field → IntFormat
  | .H => .h
  | .I => .i

@[simp] theorem IntFormat.size_signedOf (f : Field) : (signedOf f).size = f.width := by
  cases f <;> rfl

@[simp] theorem IntFormat.signed_signedOf (f : Field) : (signedOf f).signed = true := by
  cases f <;> rfl

/-! ## Reading back what `poke` wrote -/

@[simp] theorem exec_expectMemory (address : Int) (fmt : IntFormat) (v : Int)
    (resp : Nat → List Char) :
    (expectMemory address fmt v).exec resp =
      ⟨[peekCommand address fmt.size ++ crlf],
        if (peekBytes (resp 0) fmt.size).length < fmt.size then false
        else fmt.unpack (peekBytes (resp 0) fmt.size) == v, 1⟩ := by
  rw [expectMemory, exec_bind, exec_peek]
  split <;> rfl

theorem uint8_ofNat_toNat (b : UInt8) : UInt8.ofNat b.toNat = b :=
  UInt8.toNat.inj (by rw [toNat_uint8_ofNat, Nat.mod_eq_of_lt (UInt8.toNat_lt_size b)])

/-- `bytearray(mem)` of bytes is those bytes. -/
@[simp] theorem IntFormat.unpack_map_toNat (fmt : IntFormat) (data : List UInt8) :
    fmt.unpack (data.map UInt8.toNat) = if fmt.signed then ofLESigned data else ofLE data := by
  simp only [IntFormat.unpack, List.map_map, Function.comp_def, uint8_ofNat_toNat, List.map_id']

/-- What `poke` packs at two or four bytes: a value that fits, unsigned. -/
theorem pokeData_width_eq_ok {f : Field} {v : Int} {data : List UInt8}
    (h : pokeData v f.width = .ok data) :
    0 ≤ v ∧ v < 2 ^ (8 * f.width) ∧ data = toLE f.width (v % 2 ^ (8 * f.width)).toNat := by
  have hpow : (256 : Int) ^ f.width = 2 ^ (8 * f.width) := by rw [pow_mul]; rfl
  rw [pokeData_width, pack_one] at h
  split at h
  · next hv =>
    cases h
    rw [hpow] at hv
    rw [Int.emod_eq_of_lt hv.1 hv.2]
    exact ⟨hv.1, hv.2, rfl⟩
  · cases h

/-- Bytes packed unsigned read back signed as the value only below the sign bit. -/
theorem ofLESigned_toLE_beq {s : Nat} {v : Int} (h0 : 0 ≤ v) (hv : v < 2 ^ (8 * s)) :
    (ofLESigned (toLE s (v % 2 ^ (8 * s)).toNat) == v) = decide (v < 2 ^ (8 * s - 1)) := by
  have hu : (ofLE (toLE s (v % 2 ^ (8 * s)).toNat) : Int) = v :=
    (ofLE_toLE_emod s v).trans (Int.emod_eq_of_lt h0 hv)
  have hlt : ofLE (toLE s (v % 2 ^ (8 * s)).toNat) < 2 ^ (8 * s - 1) ↔ v < 2 ^ (8 * s - 1) := by
    rw [← Int.ofNat_lt, hu]; push_cast; rfl
  rw [ofLESigned, length_toLE]
  by_cases h : v < 2 ^ (8 * s - 1)
  · rw [if_pos (hlt.2 h), hu]; simp [h]
  · rw [if_neg (mt hlt.1 h), hu]; simp only [h, decide_False, beq_eq_false_iff_ne]; omega

/-- **A word or double word poked reads back as itself only below the sign bit.** For
every address, field `H` or `I` and value `v` that `poke` packs, against a device whose
answer to the `peek` lists the bytes the `poke` wrote: `poke(a, v, s)` then
`expect_memory(a, "<h" | "<i", v)` sends the two commands and returns `True` exactly when
`v < 2^(8s-1)`. So `expect_int16` and `expect_int32` fail on a value `poke` writes from
`2^15` and from `2^31` on. -/
theorem expectMemory_after_poke (address v : Int) (f : Field) (resp : Nat → List Char)
    {data : List UInt8} (hpoke : pokeData v f.width = .ok data)
    (hdev : peekBytes (resp 1) f.width = data.map UInt8.toNat) :
    (do let _ ← poke address v f.width; expectMemory address (.signedOf f) v).exec resp =
      ⟨[pokeCommand address (hexlify data) ++ crlf, peekCommand address f.width ++ crlf],
        decide (v < 2 ^ (8 * f.width - 1)), 2⟩ := by
  obtain ⟨h0, hv, rfl⟩ := pokeData_width_eq_ok hpoke
  rw [exec_bind, exec_poke_ok hpoke]
  simp only [exec_expectMemory, IntFormat.size_signedOf, shift_apply, Nat.add_zero, hdev,
    List.length_map, length_toLE, Nat.lt_irrefl, if_false, IntFormat.unpack_map_toNat,
    IntFormat.signed_signedOf, if_true, ofLESigned_toLE_beq h0 hv]
  rfl

/-- `poke(0x1000, 0x8000, 2)` then `expect_memory(0x1000, "<h", 0x8000)` fails. -/
theorem expectMemory_after_poke_word :
    (pokeData 0x8000 Field.H.width = .ok [0x00, 0x80] ∧
        peekBytes ("0x1000: 00 80\r\nzplc:~$".toList) Field.H.width = [0x00, 0x80]) ∧
      (do let _ ← poke 0x1000 0x8000 Field.H.width
          expectMemory 0x1000 (.signedOf .H) 0x8000).exec (fun _ => "0x1000: 00 80\r\nzplc:~$".toList) =
        ⟨[pokeCommand 0x1000 (hexlify [0x00, 0x80]) ++ crlf, peekCommand 0x1000 Field.H.width ++ crlf],
          decide ((0x8000 : Int) < 2 ^ (8 * Field.H.width - 1)), 2⟩ :=
  ⟨⟨by decide, by decide⟩,
    expectMemory_after_poke 0x1000 0x8000 .H _ (by decide) (by decide)⟩

/-! ## One bit -/

/-- `(m >> k) & 1 == (1 if b else 0)` is bit `k` of `m` compared with `b`. -/
theorem shiftRight_mod_two_beq (m k : Nat) (b : Bool) :
    ((m >>> k) % 2 == if b then 1 else 0) = (m.testBit k == b) := by
  rw [Nat.testBit_to_div_mod, ← Nat.shiftRight_eq_div_pow]
  have h2 : (m >>> k) % 2 < 2 := Nat.mod_lt _ (by decide)
  generalize (m >>> k) % 2 = r at h2 ⊢
  rcases (by omega : r = 0 ∨ r = 1) with rfl | rfl <;> cases b <;> rfl

@[simp] theorem exec_expectBool (address : Int) (k : Nat) (b : Bool) (resp : Nat → List Char) :
    (expectBool address k b).exec resp =
      ⟨[peekCommand (address + 0x1000) 1 ++ crlf],
        match peekBytes (resp 0) 1 with
        | [] => false
        | m :: _ => m.testBit k == b, 1⟩ := by
  rw [expectBool, exec_bind, exec_peek]
  generalize peekBytes (resp 0) 1 = mem
  cases mem
  · rfl
  · congr 1
    exact shiftRight_mod_two_beq _ _ _

/-- **`expect_bool` past bit 7 checks nothing of the memory.** For every address, every
`bit_offset ≥ 8` and every response, `expect_bool` sends its one `peek` and returns `True`
exactly when a byte came back and the bit is expected clear: the byte `peek` reads has no
such bit. -/
theorem expectBool_high_bit (address : Int) (k : Nat) (b : Bool) (resp : Nat → List Char)
    (hk : 8 ≤ k) :
    (expectBool address k b).exec resp =
      ⟨[peekCommand (address + 0x1000) 1 ++ crlf], (peekBytes (resp 0) 1 != []) && !b, 1⟩ := by
  have hlt : ∀ x ∈ peekBytes (resp 0) 1, x < 256 := fun _ => mem_peekBytes_lt
  rw [exec_expectBool]
  generalize peekBytes (resp 0) 1 = mem at hlt ⊢
  cases mem with
  | nil => rfl
  | cons m rest =>
    have hpow : 2 ^ 8 ≤ 2 ^ k := Nat.pow_le_pow_right (by omega) hk
    have hm : m < 2 ^ k := by have := hlt m (List.mem_cons_self _ _); omega
    simp only [Nat.testBit_lt_two_pow hm]
    cases b <;> rfl

/-- Bit 8 of a byte expected set fails, whatever the byte. -/
theorem expectBool_bit_eight :
    8 ≤ 8 ∧ (expectBool 0 8 true).exec (fun _ => "0x1000: ff\r\nzplc:~$".toList) =
      ⟨[peekCommand (0 + 0x1000) 1 ++ crlf],
        (peekBytes ("0x1000: ff\r\nzplc:~$".toList) 1 != []) && !true, 1⟩ :=
  ⟨le_rfl, expectBool_high_bit 0 8 true _ le_rfl⟩

/-- **`expect_bool` reads back the bit of the byte `poke` wrote.** For every address,
value `v`, bit `k` and expected `b`, against a device whose answer to the `peek` lists the
byte the `poke` wrote: `poke(a + 0x1000, v)` then `expect_bool(a, k, b)` sends the two
commands and returns whether bit `k` of `v & 0xFF` is `b`. -/
theorem expectBool_after_poke (address v : Int) (k : Nat) (b : Bool) (resp : Nat → List Char)
    (hdev : peekBytes (resp 1) 1 = [(v % 0x100).toNat]) :
    (do let _ ← poke (address + 0x1000) v 1; expectBool address k b).exec resp =
      ⟨[pokeCommand (address + 0x1000) (hexlify [UInt8.ofNat (v % 0x100).toNat]) ++ crlf,
          peekCommand (address + 0x1000) 1 ++ crlf], (v % 0x100).toNat.testBit k == b, 2⟩ := by
  rw [exec_bind, exec_poke_ok (rfl : pokeData v 1 = .ok [UInt8.ofNat (v % 0x100).toNat])]
  simp only [exec_expectBool, shift_apply, Nat.add_zero, hdev]
  rfl

/-- `poke(0x1000, 5)` then `expect_bool(0, 2, True)`. -/
theorem expectBool_after_poke_five :
    peekBytes ("0x1000: 05\r\nzplc:~$".toList) 1 = [((5 : Int) % 0x100).toNat] ∧
      (do let _ ← poke (0 + 0x1000) 5 1; expectBool 0 2 true).exec
          (fun _ => "0x1000: 05\r\nzplc:~$".toList) =
        ⟨[pokeCommand (0 + 0x1000) (hexlify [UInt8.ofNat ((5 : Int) % 0x100).toNat]) ++ crlf,
            peekCommand (0 + 0x1000) 1 ++ crlf], ((5 : Int) % 0x100).toNat.testBit 2 == true, 2⟩ :=
  ⟨by decide, expectBool_after_poke 0 5 2 true _ (by decide)⟩

end Zplc.Hil
