/-
The module `create_zplc_file` writes, read back as §6 of the spec lays it out:
a 32-byte little-endian header, `segment_count` 8-byte table entries, then the
segment bodies in table order, with nothing after them. `decodeModule` is
that reading, written from the spec; `createZplcFile_decode` says the file of
any code shorter than `2 ^ 32` bytes, with an entry point that fits 16 bits,
reads back as one code segment holding exactly that code.
-/
import Zplc.Asm.Emit

namespace Zplc

open Py

/-- The header fields, in file order. -/
structure ModuleHeader where
  magic : Nat
  versionMajor : Nat
  versionMinor : Nat
  flags : Nat
  checksum : Nat
  codeSize : Nat
  dataSize : Nat
  entryPoint : Nat
  segmentCount : Nat
  reserved : Nat
  deriving DecidableEq, Repr

/-- A segment-table entry. -/
structure SegmentEntry where
  type : Nat
  flags : Nat
  size : Nat
  deriving DecidableEq, Repr

structure ZplcModule where
  header : ModuleHeader
  segments : List SegmentEntry
  bodies : List (List UInt8)
  deriving DecidableEq, Repr

/-- `n` table entries from the front of `data`, and what follows them. -/
def decodeSegments : Nat → List UInt8 → Option (List SegmentEntry × List UInt8)
  | 0, data => some ([], data)
  | n + 1, data => do
    let [type, flags, size] ← unpack segmentFormat (data.take 8) | none
    let (rest, tail) ← decodeSegments n (data.drop 8)
    pure (⟨type, flags, size⟩ :: rest, tail)

/-- The bodies of the given sizes, in order, from the front of `data`. -/
def splitBodies : List Nat → List UInt8 → Option (List (List UInt8) × List UInt8)
  | [], data => some ([], data)
  | n :: ns, data =>
    if n ≤ data.length then
      (fun (bs, tail) => (data.take n :: bs, tail)) <$> splitBodies ns (data.drop n)
    else none

/-- Reading a module as §6 lays it out; `none` when it is too short or has bytes left
over. -/
def decodeModule (data : List UInt8) : Option ZplcModule := do
  let [magic, vmaj, vmin, flags, crc, codeSize, dataSize, entry, count, reserved] ←
    unpack headerFormat (data.take 32) | none
  let (segments, rest) ← decodeSegments count (data.drop 32)
  let (bodies, tail) ← splitBodies (segments.map (·.size)) rest
  if tail.isEmpty then
    pure ⟨⟨magic, vmaj, vmin, flags, crc, codeSize, dataSize, entry, count, reserved⟩,
      segments, bodies⟩
  else none

/-- With code shorter than `2 ^ 32` bytes and an entry point in `[0, 65535]`, every field
of the header and of the table entry fits its width. -/
theorem createZplcFile_fits (b : List UInt8) {e : Int} (hb : b.length < 2 ^ 32)
    (he : 0 ≤ e ∧ e ≤ 65535) :
    Fits headerFormat [zplcMagic, zplcVersionMajor, zplcVersionMinor, 0, 0, b.length, 0, e, 1, 0] ∧
      Fits segmentFormat [1, 0, b.length] := by
  have hb' : (b.length : Int) < 4294967296 := by exact_mod_cast hb
  exact ⟨⟨rfl, by simp [headerFormat, Field.width, zplcMagic, zplcVersionMajor, zplcVersionMinor]; omega⟩,
    ⟨rfl, by simp [segmentFormat, Field.width]; omega⟩⟩

/-- **The file of `create_zplc_file` reads back as one code segment.** For code shorter
than `2 ^ 32` bytes and an entry point `e` in `[0, 65535]`, the module is
`40 + len(b)` bytes; its header is the magic, version 1.0, zero flags, checksum and
data size, code size `len(b)`, entry point `e` and one segment; the table holds the
code segment's entry, and the one body is `b`, with nothing left over. -/
theorem createZplcFile_decode (s : Assembler) (b : List UInt8) (e : Int)
    (hb : b.length < 2 ^ 32) (he : 0 ≤ e ∧ e ≤ 65535) (hs : s.entryPoint = .num e) :
    ∃ data, createZplcFile s b = .ok data ∧ data.length = 40 + b.length ∧
      decodeModule data = some
        ⟨⟨zplcMagic, 1, 0, 0, 0, b.length, 0, e.toNat, 1, 0⟩, [⟨1, 0, b.length⟩], [b]⟩ := by
  obtain ⟨hfh, hfs⟩ := createZplcFile_fits b hb he
  obtain ⟨header, hh⟩ := pack_ok_of_fits hfh
  obtain ⟨entry, he'⟩ := pack_ok_of_fits hfs
  have h32 : header.length = 32 := by simpa [headerFormat, calcsize, Field.width] using length_pack hh
  have h8 : entry.length = 8 := by simpa [segmentFormat, calcsize, Field.width] using length_pack he'
  refine ⟨header ++ entry ++ b, by simp [createZplcFile, hs, hh, he'], by simp [h32, h8]; omega, ?_⟩
  have hu := unpack_pack hh rfl
  have hu' := unpack_pack he' rfl
  simp only [decodeModule, List.append_assoc, List.take_left' h32, List.drop_left' h32, hu]
  simp only [zplcMagic, Nat.cast_ofNat, zplcVersionMajor, Int.Nat.cast_ofNat_Int, zplcVersionMinor,
    List.map_cons, Int.reduceToNat, Int.toNat_one, Int.toNat_zero, Int.toNat_ofNat, List.map_nil,
    List.isEmpty_eq_true, Option.pure_def, Option.bind_eq_bind, Option.some_bind, decodeSegments,
    List.take_left' h8, hu', List.drop_left' h8, splitBodies, le_refl, if_true, List.take_length,
    List.drop_length, Option.map_eq_map, Option.map_some']

/-- The two-byte program `PUSH8 10` with the default entry point 0. -/
theorem createZplcFile_decode_push :
    ([0x40, 10] : List UInt8).length < 2 ^ 32 ∧ ((0 : Int) ≤ 0 ∧ (0 : Int) ≤ 65535) ∧
      ∃ data, createZplcFile {} [0x40, 10] = .ok data ∧ data.length = 40 + 2 ∧
        decodeModule data = some
          ⟨⟨zplcMagic, 1, 0, 0, 0, 2, 0, 0, 1, 0⟩, [⟨1, 0, 2⟩], [[0x40, 10]]⟩ :=
  ⟨by decide, by decide, createZplcFile_decode {} [0x40, 10] 0 (by decide) (by decide) rfl⟩

end Zplc
