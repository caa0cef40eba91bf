/-
`LanguageTester.poke(address, value, size)`: the value is packed first, as
`value & 0xFF` for one byte, `struct.pack("<H", value)` for two,
`struct.pack("<I", value)` for four and nothing for any other size; then one
command `zplc dbg poke {hex(address)} {hex_str}` carries the bytes' hex.

`poke_exec` says what each of the three sizes does over the values whose
bytes read back as themselves. One byte masks every value. For two and four
bytes `struct.pack` raises `struct.error` on a negative value, before anything
is sent, and any other size sends the command with an empty payload
(`poke_negative_word_other_size`).
-/
import Zplc.Hil.Tester

namespace Zplc.Hil

open Py Serial

/-- The `bytearray` of `poke`: `value & 0xFF` (the value mod 256, for a negative
value too) for size 1, `struct.pack("<H", value)` for 2, `struct.pack("<I", value)`
for 4, and nothing for another size. -/
def pokeData (value size : Int) : Except StructError (List UInt8) :=
  if size == 1 then .ok [UInt8.ofNat (value % 0x100).toNat]
  else if size == 2 then pack [.H] [value]
  else if size == 4 then pack [.I] [value]
  else .ok []

/-- `zplc dbg poke {hex(address)} {hex_str}`. -/
def pokeCommand (address : Int) (hexStr : List Char) : List Char :=
  "zplc dbg poke ".toList ++ pyHex address ++ ' ' :: hexStr

/-- `poke(address, value, size)`. A `struct.error` is raised before anything is
sent. -/
def poke (address value : Int) (size : Int := 1) : Serial (Except StructError Unit) :=
  match pokeData value size with
  | .error e => pure (.error e)
  | .ok data => do
    let _ ← send (pokeCommand address (hexlify data))
    pure (.ok ())

/-- `struct.unpack("<b" | "<h" | "<i", data)[0]` for `data` of 1, 2 or 4 bytes: the
two's-complement reading of the little-endian bytes. -/
def ofLESigned (data : List UInt8) : Int :=
  if ofLE data < 2 ^ (8 * data.length - 1) then ofLE data
  else (ofLE data : Int) - 2 ^ (8 * data.length)

/-! ## The bytes -/

theorem pokeData_byte (v : Int) : pokeData v 1 = .ok (toLE 1 (v % 2 ^ (8 * 1)).toNat) := by
  have hlt : (v % 0x100).toNat < 256 := by omega
  show Except.ok [UInt8.ofNat (v % 0x100).toNat] = .ok [UInt8.ofNat ((v % 0x100).toNat % 256)]
  rw [Nat.mod_eq_of_lt hlt]

theorem pokeData_width (f : Field) (v : Int) : pokeData v f.width = pack [f] [v] := by
  cases f <;> rfl

theorem pokeData_width_ok (f : Field) {v : Int} (h0 : 0 ≤ v) (hhi : v ≤ 2 ^ (8 * f.width) - 1) :
    pokeData v f.width = .ok (toLE f.width (v % 2 ^ (8 * f.width)).toNat) := by
  have hpow : (256 : Int) ^ f.width = 2 ^ (8 * f.width) := by rw [pow_mul]; rfl
  rw [pokeData_width, pack_one, if_pos ⟨h0, by omega⟩, Int.emod_eq_of_lt h0 (by omega)]

theorem pokeData_width_neg (f : Field) {v : Int} (hv : v < 0) :
    pokeData v f.width = .error (.range f) := by
  rw [pokeData_width, pack_one, if_neg fun h => absurd h.1 (by omega)]

/-- The little-endian bytes of `v mod 2^(8s)` are that number. -/
theorem ofLE_toLE_emod (s : Nat) (v : Int) :
    (ofLE (toLE s (v % 2 ^ (8 * s)).toNat) : Int) = v % 2 ^ (8 * s) := by
  have hpos : (0 : Int) < 2 ^ (8 * s) := by exact_mod_cast Nat.two_pow_pos (8 * s)
  have hpow : ((256 ^ s : Nat) : Int) = 2 ^ (8 * s) := by push_cast; rw [pow_mul]; rfl
  rw [ofLE_toLE, Int.natCast_mod, hpow, Int.toNat_of_nonneg (Int.emod_nonneg _ (by omega)),
    Int.emod_emod]

/-- From `-2^(8s-1)` to `2^(8s) - 1` the bytes of `v mod 2^(8s)` read back as `v`:
signed for a negative value, unsigned for the others. -/
theorem readBack_toLE {s : Nat} {v : Int} (hs : 0 < s) (hlo : -2 ^ (8 * s - 1) ≤ v)
    (hhi : v ≤ 2 ^ (8 * s) - 1) :
    (if v < 0 then ofLESigned (toLE s (v % 2 ^ (8 * s)).toNat)
      else ofLE (toLE s (v % 2 ^ (8 * s)).toNat)) = v := by
  have hN : (2 : Int) ^ (8 * s) = 2 * 2 ^ (8 * s - 1) := by
    rw [← pow_succ']; congr 1; omega
  have hu := ofLE_toLE_emod s v
  split
  · next hv =>
    have hmod : v % 2 ^ (8 * s) = v + 2 ^ (8 * s) := by
      rw [← Int.add_emod_self, Int.emod_eq_of_lt (by omega) (by omega)]
    have hge : ¬ ofLE (toLE s (v % 2 ^ (8 * s)).toNat) < 2 ^ (8 * s - 1) := fun h => by
      have h' : (ofLE (toLE s (v % 2 ^ (8 * s)).toNat) : Int) < 2 ^ (8 * s - 1) := by
        exact_mod_cast h
      omega
    rw [ofLESigned, length_toLE, if_neg hge]
    omega
  · next hv => rw [hu, Int.emod_eq_of_lt (by omega) (by omega)]

/-! ## What `poke` sends -/

theorem exec_poke_ok {address value size : Int} {data : List UInt8}
    (h : pokeData value size = .ok data) (resp : Nat → List Char) :
    (poke address value size).exec resp =
      ⟨[pokeCommand address (hexlify data) ++ crlf], .ok (), 1⟩ := by
  rw [poke, h]; rfl

theorem exec_poke_error {address value size : Int} {e : StructError}
    (h : pokeData value size = .error e) (resp : Nat → List Char) :
    (poke address value size).exec resp = ⟨[], .error e, 0⟩ := by
  rw [poke, h]; rfl

/-- **What `poke` does at one, two and four bytes.** For every address, every size
`s` in `{1, 2, 4}` and every value `v` from `-2^(8s-1)` to `2^(8s) - 1`: at one byte,
or for `v ≥ 0`, `poke(a, v, s)` sends exactly one command, whose payload is the hex
of the `s` little-endian bytes of `v mod 2^(8s)`; for a negative value at two or four
bytes it raises `struct.error` and sends nothing. Those bytes read back as `v`,
signed for a negative value and unsigned otherwise. -/
theorem poke_exec (address v : Int) (s : Nat) (resp : Nat → List Char)
    (hs : s = 1 ∨ s = 2 ∨ s = 4) (hlo : -2 ^ (8 * s - 1) ≤ v) (hhi : v ≤ 2 ^ (8 * s) - 1) :
    (poke address v s).exec resp =
        (if s = 1 ∨ 0 ≤ v then
          ⟨[pokeCommand address (hexlify (toLE s (v % 2 ^ (8 * s)).toNat)) ++ crlf], .ok (), 1⟩
        else ⟨[], .error (.range (if s = 2 then .H else .I)), 0⟩) ∧
      (if v < 0 then ofLESigned (toLE s (v % 2 ^ (8 * s)).toNat)
        else ofLE (toLE s (v % 2 ^ (8 * s)).toNat)) = v := by
  refine ⟨?_, readBack_toLE (by omega) hlo hhi⟩
  rcases hs with rfl | rfl | rfl
  · rw [if_pos (Or.inl rfl)]
    exact exec_poke_ok (pokeData_byte v) resp
  all_goals by_cases hv : 0 ≤ v
  · rw [if_pos (Or.inr hv)]
    exact exec_poke_ok (pokeData_width_ok .H hv hhi) resp
  · rw [if_neg (by omega), if_pos rfl]
    exact exec_poke_error (pokeData_width_neg .H (by omega)) resp
  · rw [if_pos (Or.inr hv)]
    exact exec_poke_ok (pokeData_width_ok .I hv hhi) resp
  · rw [if_neg (by omega), if_neg (by decide)]
    exact exec_poke_error (pokeData_width_neg .I (by omega)) resp

/-- `poke(0x2000, -2)` at one byte writes `fe`. -/
theorem poke_exec_byte :
    ((1 = 1 ∨ 1 = 2 ∨ 1 = 4) ∧ -2 ^ (8 * 1 - 1) ≤ (-2 : Int) ∧ (-2 : Int) ≤ 2 ^ (8 * 1) - 1) ∧
      ((poke 0x2000 (-2) (1 : Nat)).exec (fun _ => []) =
          (if 1 = 1 ∨ 0 ≤ (-2 : Int) then
            ⟨[pokeCommand 0x2000 (hexlify (toLE 1 ((-2) % 2 ^ (8 * 1)).toNat)) ++ crlf], .ok (), 1⟩
          else ⟨[], .error (.range (if 1 = 2 then .H else .I)), 0⟩) ∧
        (if (-2 : Int) < 0 then ofLESigned (toLE 1 ((-2) % 2 ^ (8 * 1)).toNat)
          else ofLE (toLE 1 ((-2) % 2 ^ (8 * 1)).toNat)) = -2) :=
  ⟨⟨Or.inl rfl, by decide, by decide⟩,
    poke_exec 0x2000 (-2) 1 (fun _ => []) (Or.inl rfl) (by decide) (by decide)⟩

theorem pokeData_other {value size : Int} (h1 : size ≠ 1) (h2 : size ≠ 2) (h4 : size ≠ 4) :
    pokeData value size = .ok [] := by
  simp [pokeData, h1, h2, h4]

/-- **A negative word raises, and another size pokes an empty payload.** For every address
and value: at two or four bytes a negative value makes `struct.pack` raise `struct.error`
before anything is sent, where one byte masks it; and every size other than 1, 2 and 4
sends `zplc dbg poke <hex(a)> ` with no bytes. -/
theorem poke_negative_word_other_size (address v : Int) (resp : Nat → List Char) :
    (v < 0 → (poke address v 2).exec resp = ⟨[], .error (.range .H), 0⟩ ∧
      (poke address v 4).exec resp = ⟨[], .error (.range .I), 0⟩) ∧
    ∀ s : Int, s ≠ 1 → s ≠ 2 → s ≠ 4 →
      (poke address v s).exec resp = ⟨[pokeCommand address [] ++ crlf], .ok (), 1⟩ :=
  ⟨fun hv => ⟨exec_poke_error (pokeData_width_neg .H hv) resp,
      exec_poke_error (pokeData_width_neg .I hv) resp⟩,
    fun _ h1 h2 h4 => exec_poke_ok (pokeData_other h1 h2 h4) resp⟩

end Zplc.Hil
