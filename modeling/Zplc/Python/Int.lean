/-
Python's `int(s, base)` for the bases `parse_number` uses (2, 8, 10, 16), as
CPython reads a `str` (`PyLong_FromUnicodeObject`). It first maps the string
to ASCII: characters below 127 stay, other whitespace becomes a space, other
decimal digits (Unicode category Nd, here as of Unicode 15) their ASCII digit,
and the first other character becomes `?` and ends the string. Then it reads

  ws* [+|-] [0x|0o|0b ['_']] digit ('_'? digit)* ws*

with `ws` the ASCII whitespace of `Py_ISSPACE`, a prefix only in its own base,
and at most 4300 digits in base 10 (the default `sys.get_int_max_str_digits()`).
-/
import Zplc.Python.Text

namespace Zplc.Py

/-! ## `Except`, the model's exceptions -/

section
variable {ε α β : Type}

instance exceptDecidableEq [DecidableEq ε] [DecidableEq α] : DecidableEq (Except ε α)
  | .ok a, .ok b => if h : a = b then isTrue (h ▸ rfl) else isFalse (h ∘ Except.ok.inj)
  | .error a, .error b => if h : a = b then isTrue (h ▸ rfl) else isFalse (h ∘ Except.error.inj)
  | .ok _, .error _ => isFalse Except.noConfusion
  | .error _, .ok _ => isFalse Except.noConfusion

@[simp] theorem except_ok_bind (a : α) (f : α → Except ε β) : (Except.ok a >>= f) = f a := rfl

@[simp] theorem except_error_bind (e : ε) (f : α → Except ε β) :
    (Except.error e >>= f) = .error e := rfl

@[simp] theorem except_map_ok (f : α → β) (a : α) :
    (f <$> (Except.ok a : Except ε α)) = .ok (f a) := rfl

@[simp] theorem except_map_error (f : α → β) (e : ε) :
    (f <$> (Except.error e : Except ε α)) = .error e := rfl

@[simp] theorem except_pure (a : α) : (pure a : Except ε α) = .ok a := rfl

theorem except_bind_eq_ok {x : Except ε α} {f : α → Except ε β} {b : β} :
    (x >>= f) = .ok b ↔ ∃ a, x = .ok a ∧ f a = .ok b := by
  cases x <;> simp

theorem except_map_eq_ok {x : Except ε α} {f : α → β} {b : β} :
    (f <$> x) = .ok b ↔ ∃ a, x = .ok a ∧ f a = b := by
  cases x <;> simp

theorem except_bind_eq_error {x : Except ε α} {f : α → Except ε β} {e : ε} :
    (x >>= f) = .error e ↔ x = .error e ∨ ∃ a, x = .ok a ∧ f a = .error e := by
  cases x <;> simp

theorem except_map_eq_error {x : Except ε α} {f : α → β} {e : ε} :
    (f <$> x) = .error e ↔ x = .error e := by
  cases x <;> simp

end

/-! ## `int()` -/

/-- The first code point of each run of ten Unicode decimal digits. -/
def decimalZeros : List Nat :=
  [0x30, 0x660, 0x6F0, 0x7C0, 0x966, 0x9E6, 0xA66, 0xAE6, 0xB66, 0xBE6, 0xC66, 0xCE6,
   0xD66, 0xDE6, 0xE50, 0xED0, 0xF20, 0x1040, 0x1090, 0x17E0, 0x1810, 0x1946, 0x19D0,
   0x1A80, 0x1A90, 0x1B50, 0x1BB0, 0x1C40, 0x1C50, 0xA620, 0xA8D0, 0xA900, 0xA9D0,
   0xA9F0, 0xAA50, 0xABF0, 0xFF10, 0x104A0, 0x10D30, 0x11066, 0x110F0, 0x11136,
   0x111D0, 0x112F0, 0x11450, 0x114D0, 0x11650, 0x116C0, 0x11730, 0x118E0, 0x11950,
   0x11C50, 0x11D50, 0x11DA0, 0x11F50, 0x16A60, 0x16AC0, 0x16B50, 0x1D7CE, 0x1D7D8,
   0x1D7E2, 0x1D7EC, 0x1D7F6, 0x1E140, 0x1E2F0, 0x1E4F0, 0x1E950, 0x1FBF0]

/-- `Py_UNICODE_TODECIMAL`: the value of a decimal digit of any script. -/
def decimalValue (c : Char) : Option Nat :=
  (decimalZeros.find? fun z => z ≤ c.toNat && c.toNat < z + 10).map (c.toNat - ·)

/-- `_PyUnicode_TransformDecimalAndSpaceToASCII`. -/
def toAscii : List Char → List Char
  | [] => []
  | c :: cs =>
    if c.toNat < 127 then c :: toAscii cs
    else if isSpace c then ' ' :: toAscii cs
    else match decimalValue c with
      | some d => Char.ofNat (48 + d) :: toAscii cs
      | none => ['?']

/-- `Py_ISSPACE`: ASCII whitespace only. -/
def asciiSpace (c : Char) : Bool := c == ' ' || (9 ≤ c.toNat && c.toNat ≤ 13)

/-- `_PyLong_DigitValue`: 0 to 35 for `0-9a-zA-Z`, 37 otherwise. -/
def digitValue (c : Char) : Nat :=
  if c.isDigit then c.toNat - 48
  else if c.isLower then c.toNat - 87
  else if c.isUpper then c.toNat - 55
  else 37

/-- The letter of the prefix `int` accepts in `base` (`0x`, `0o`, `0b`). -/
def prefixLetter : Nat → Option Char
  | 16 => some 'x'
  | 8 => some 'o'
  | 2 => some 'b'
  | _ => none

/-- Skips `0x` (or `0X`, in base 16; likewise `0o`, `0b`) and one `_` after it. -/
def dropPrefix (base : Nat) : List Char → List Char
  | '0' :: x :: rest =>
    if prefixLetter base = some x.toLower then
      match rest with
      | '_' :: r => r
      | r => r
    else '0' :: x :: rest
  | s => s

/-- A character of the digit run: a digit below `base`, or `_`. -/
def inRun (base : Nat) (c : Char) : Bool := digitValue c < base || c == '_'

/-- The scan's checks on the run: not empty, no `__`, no `_` at its end. -/
def wellFormedRun : List Char → Bool
  | [] => false
  | [c] => c != '_'
  | '_' :: '_' :: _ => false
  | _ :: rest => wellFormedRun rest

/-- The value of the digits of a run, most significant first. -/
def runValue (base : Nat) (run : List Char) : Nat :=
  ((run.filter (· != '_')).map digitValue).foldl (fun acc d => acc * base + d) 0

/-- `int.__new__` raising `ValueError`. -/
inductive ValueError where
  /-- `parse_number`'s own `ValueError("Empty number")`. -/
  | emptyNumber
  /-- `invalid literal for int() with base {base}: {s!r}`. -/
  | invalidLiteral (base : Nat) (s : List Char)
  /-- `Exceeds the limit (4300 digits) for integer string conversion`. -/
  | exceedsLimit (digits : Nat)
  deriving DecidableEq, Repr

/-- The default `sys.get_int_max_str_digits()`. -/
def intMaxStrDigits : Nat := 4300

/-- An optional leading `+` or `-`: whether it was `-`, and the text after it. Both
`int()` and `parse_number` (`s[0] == '-'`, then `'+'`) read a sign so. -/
def splitSign : List Char → Bool × List Char
  | '+' :: r => (false, r)
  | '-' :: r => (true, r)
  | r => (false, r)

/-- `int(s, base)`. -/
def pyInt (s : List Char) (base : Nat) : Except ValueError Int :=
  let t := (toAscii s).dropWhile asciiSpace
  let (negative, t) := splitSign t
  let t := dropPrefix base t
  let run := t.takeWhile (inRun base)
  let rest := t.dropWhile (inRun base)
  let digits := (run.filter (· != '_')).length
  if !(run.head? != some '_' && wellFormedRun run && (rest.dropWhile asciiSpace).isEmpty) then
    .error (.invalidLiteral base s)
  else if base == 10 && intMaxStrDigits < digits then .error (.exceedsLimit digits)
  else
    let v : Int := runValue base run
    .ok (if negative then -v else v)

/-! ## Facts -/

theorem toAscii_of_ascii {s : List Char} (h : ∀ c ∈ s, c.toNat < 127) : toAscii s = s := by
  induction s with
  | nil => rfl
  | cons c s ih =>
    simp only [List.mem_cons, forall_eq_or_imp] at h
    simp [toAscii, h.1, ih h.2]

theorem splitSign_of_head {c : Char} {s : List Char} (h1 : c ≠ '+') (h2 : c ≠ '-') :
    splitSign (c :: s) = (false, c :: s) := by
  unfold splitSign; split <;> simp_all

theorem dropPrefix_ten (s : List Char) : dropPrefix 10 s = s := by
  unfold dropPrefix; split <;> simp [prefixLetter]

theorem wellFormedRun_of_ne {s : List Char} (hne : s ≠ []) (h : '_' ∉ s) : wellFormedRun s := by
  induction s with
  | nil => contradiction
  | cons c s ih =>
    simp only [List.mem_cons, not_or] at h
    cases s with
    | nil => simpa [wellFormedRun] using Ne.symm h.1
    | cons d s =>
      have hc : c ≠ '_' := Ne.symm h.1
      rw [wellFormedRun.eq_4 _ _ (by simp [hc]) (fun _ h => absurd h hc)]
      exact ih (by simp) h.2

example : pyInt "1_000".toList 10 = .ok 1000 := by decide
example : pyInt " -0x_1F ".toList 16 = .ok (-31) := by decide
example : pyInt "1__0".toList 10 = .error (.invalidLiteral 10 "1__0".toList) := by decide

end Zplc.Py
