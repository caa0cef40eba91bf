/-
`struct.pack` and `struct.unpack` with the little-endian unsigned formats the
assembler and the HIL tester use (`<H`, `<I`, `<IHHIIIIHHI`, `<HHI`), and
`binascii.hexlify` / `bytes.hex`. A value outside its field's range makes
`pack` raise `struct.error`.
-/
import Zplc.Python.Int

namespace Zplc.Py

/-- The `w` little-endian bytes of `n`, that is of `n % 256 ^ w`. -/
def toLE : Nat → Nat → List UInt8
  | 0, _ => []
  | w + 1, n => UInt8.ofNat (n % 256) :: toLE w (n / 256)

/-- The number with the given little-endian bytes. -/
def ofLE : List UInt8 → Nat
  | [] => 0
  | b :: bs => b.toNat + 256 * ofLE bs

/-- An unsigned field of a `struct` format: `H` (2 bytes) or `I` (4 bytes). -/
inductive Field where
  | H
  | I
  deriving DecidableEq, Repr

def Field.width : Field → Nat
  | .H => 2
  | .I => 4

/-- `struct.error`: a value outside its field's range, or a wrong number of values. -/
inductive StructError where
  | range (field : Field)
  | count
  deriving DecidableEq, Repr

/-- `struct.pack('<' + fields, *values)`. -/
def pack : List Field → List Int → Except StructError (List UInt8)
  | [], [] => .ok []
  | f :: fs, v :: vs =>
    if 0 ≤ v ∧ v < 256 ^ f.width then (toLE f.width v.toNat ++ ·) <$> pack fs vs
    else .error (.range f)
  | _, _ => .error .count

/-- `struct.unpack('<' + fields, data)`; `none` is `struct.error` (wrong length). -/
def unpack : List Field → List UInt8 → Option (List Nat)
  | [], [] => some []
  | [], _ :: _ => none
  | f :: fs, data =>
    if f.width ≤ data.length then (ofLE (data.take f.width) :: ·) <$> unpack fs (data.drop f.width)
    else none

/-- `struct.calcsize('<' + fields)`. -/
def calcsize : List Field → Nat
  | [] => 0
  | f :: fs => f.width + calcsize fs

/-- A hex digit as `hexlify` writes it (lower case). -/
def hexDigit (n : Nat) : Char := if n < 10 then Char.ofNat (48 + n) else Char.ofNat (87 + n)

/-- `binascii.hexlify(data).decode()`, which is also `data.hex()`. -/
def hexlify (data : List UInt8) : List Char :=
  data.flatMap fun b => [hexDigit (b.toNat / 16), hexDigit (b.toNat % 16)]

/-! ## Facts -/

@[simp] theorem toNat_uint8_ofNat (n : Nat) : (UInt8.ofNat n).toNat = n % 256 := by
  simp [UInt8.toNat, UInt8.ofNat, Fin.ofNat]

@[simp] theorem length_toLE (w n : Nat) : (toLE w n).length = w := by
  induction w generalizing n <;> simp [toLE, *]

theorem ofLE_toLE (w n : Nat) : ofLE (toLE w n) = n % 256 ^ w := by
  induction w generalizing n with
  | zero => simp [toLE, ofLE, Nat.mod_one]
  | succ w ih =>
    rw [toLE, ofLE, ih, toNat_uint8_ofNat, Nat.mod_mod, Nat.pow_succ', Nat.mod_mul]

@[simp] theorem length_hexlify (data : List UInt8) : (hexlify data).length = 2 * data.length := by
  induction data with
  | nil => rfl
  | cons b bs ih => simp only [hexlify, List.flatMap_cons] at ih ⊢; simp [ih]; omega

theorem hexlify_append (a b : List UInt8) : hexlify (a ++ b) = hexlify a ++ hexlify b := by
  simp [hexlify, List.flatMap_append]

/-- Decoding packed fields gives the values back. -/
theorem unpack_pack {fs : List Field} {vs : List Int} {data : List UInt8}
    (h : pack fs vs = .ok data) (hl : fs.length = vs.length) :
    unpack fs data = some (vs.map Int.toNat) := by
  induction fs generalizing vs data with
  | nil => cases vs <;> simp_all [pack, unpack]
  | cons f fs ih =>
    cases vs with
    | nil => simp at hl
    | cons v vs =>
      simp only [pack] at h
      split at h
      · next hv =>
        obtain ⟨rest, hp, rfl⟩ := except_map_eq_ok.1 h
        have hv' : v.toNat < 256 ^ f.width := by rw [Int.toNat_lt hv.1]; exact_mod_cast hv.2
        simp [unpack, ih hp (by simpa using hl), List.take_left', List.drop_left',
          ofLE_toLE, Nat.mod_eq_of_lt hv']
      · cases h

theorem length_pack {fs : List Field} {vs : List Int} {data : List UInt8}
    (h : pack fs vs = .ok data) : data.length = calcsize fs := by
  induction fs generalizing vs data with
  | nil => cases vs <;> simp_all [pack, calcsize]
  | cons f fs ih =>
    cases vs with
    | nil => cases h
    | cons v vs =>
      simp only [pack] at h
      split at h
      · obtain ⟨rest, hp, rfl⟩ := except_map_eq_ok.1 h
        simp [calcsize, ih hp]
      · cases h

/-- `struct.pack` of one field. -/
theorem pack_one (f : Field) (v : Int) :
    pack [f] [v] = if 0 ≤ v ∧ v < 256 ^ f.width then .ok (toLE f.width v.toNat) else .error (.range f) := by
  rw [pack]
  split <;> simp [pack]

/-- Every value of `vs` fits its field of `fs`. -/
def Fits (fs : List Field) (vs : List Int) : Prop :=
  fs.length = vs.length ∧ ∀ p ∈ fs.zip vs, 0 ≤ p.2 ∧ p.2 < 256 ^ p.1.width

theorem pack_ok_of_fits {fs : List Field} {vs : List Int} (h : Fits fs vs) :
    ∃ data, pack fs vs = .ok data := by
  induction fs generalizing vs with
  | nil =>
    cases vs with
    | nil => exact ⟨[], rfl⟩
    | cons => simp [Fits] at h
  | cons f fs ih =>
    obtain ⟨hl, hv⟩ := h
    cases vs with
    | nil => simp at hl
    | cons v vs =>
      obtain ⟨d, hd⟩ := ih ⟨by simpa using hl, fun p hp => hv p (by simp [hp])⟩
      have := hv (f, v) (by simp)
      exact ⟨toLE f.width v.toNat ++ d, by simp [pack, this, hd]⟩

theorem fits_of_pack_ok {fs : List Field} {vs : List Int} {data : List UInt8}
    (h : pack fs vs = .ok data) : Fits fs vs := by
  induction fs generalizing vs data with
  | nil =>
    cases vs with
    | nil => exact ⟨rfl, by simp⟩
    | cons => cases h
  | cons f fs ih =>
    cases vs with
    | nil => cases h
    | cons v vs =>
      simp only [pack] at h
      split at h
      · next hv =>
        obtain ⟨rest, hp, -⟩ := except_map_eq_ok.1 h
        obtain ⟨hl, hall⟩ := ih hp
        refine ⟨by simp [hl], fun p hp' => ?_⟩
        rcases List.mem_cons.1 (List.zip_cons_cons .. ▸ hp') with rfl | hp'
        · exact hv
        · exact hall p hp'
      · cases h

/-- **`struct.pack` raises exactly when a value does not fit its field.** -/
theorem pack_ok_iff {fs : List Field} {vs : List Int} :
    (∃ data, pack fs vs = .ok data) ↔ Fits fs vs :=
  ⟨fun ⟨_, h⟩ => fits_of_pack_ok h, pack_ok_of_fits⟩

end Zplc.Py
