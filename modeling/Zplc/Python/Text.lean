/-
The pieces of Python's `str` that the assembler and the HIL tester use, on a
string as the list of its code points: `isspace`, `strip`, `splitlines`,
`split(None, 1)`, `upper`, and the two patterns `zplc_asm.py` matches with
`re.match` (a whole operand `[a-zA-Z_][a-zA-Z0-9_]*`, and `label:` at the start
of a line).

`upper` maps each character as Python does wherever the result is ASCII: the
ASCII letters, and the ten other characters whose upper case is ASCII (`ß`,
`ı`, `ſ` and the ligatures `ﬀ` to `ﬆ`), so `puſh8` is `PUSH8` here as there.
Any other character is kept, where Python maps some by Unicode's tables; either
way the word is then no opcode or directive name, and only the text of the
`Unknown instruction` or `Unknown directive` message differs. Labels are ASCII
by their pattern.

Lines that are not empty and hold no line end, joined with `\n`, split back
into themselves (`splitlines_join`); digits, in any base up to 16, hold no
line end (`noBreak_toDigits`).
-/
import Mathlib.Data.List.Basic
import Mathlib.Algebra.Group.Int

namespace Zplc.Py

/-- `str.isspace` of one character: the Unicode whitespace that `strip`, `split`
and the `\s` of `re` agree on. -/
def isSpace (c : Char) : Bool :=
  let n := c.toNat
  (9 ≤ n && n ≤ 13) || (28 ≤ n && n ≤ 32) || n == 133 || n == 160 || n == 5760 ||
    (8192 ≤ n && n ≤ 8202) || n == 8232 || n == 8233 || n == 8239 || n == 8287 || n == 12288

def lstrip (s : List Char) : List Char := s.dropWhile isSpace

def rstrip (s : List Char) : List Char := (s.reverse.dropWhile isSpace).reverse

/-- `str.strip()`. -/
def strip (s : List Char) : List Char := rstrip (lstrip s)

/-- The characters `str.splitlines` ends a line at (`\r\n` is one end). -/
def isLineBreak (c : Char) : Bool :=
  let n := c.toNat
  (10 ≤ n && n ≤ 13) || (28 ≤ n && n ≤ 30) || n == 133 || n == 8232 || n == 8233

/-- `str.splitlines()`, with `cur` the current line reversed: a line end closes the
line, and a last line is kept only if it is not empty. -/
def splitlinesAux (cur : List Char) : List Char → List (List Char)
  | [] => if cur.isEmpty then [] else [cur.reverse]
  | '\r' :: '\n' :: rest => cur.reverse :: splitlinesAux [] rest
  | c :: rest =>
    if isLineBreak c then cur.reverse :: splitlinesAux [] rest else splitlinesAux (c :: cur) rest

def splitlines (s : List Char) : List (List Char) := splitlinesAux [] s

/-- `parts[0]` and `parts[1] if len(parts) > 1 else ""` for `parts = s.split(None, 1)`:
the first word, and the rest after the whitespace that follows it. -/
def splitFirst (s : List Char) : List Char × List Char :=
  let s := lstrip s
  (s.takeWhile (!isSpace ·), lstrip (s.dropWhile (!isSpace ·)))

/-- `sub in s`. -/
def strContains : List Char → List Char → Bool
  | [], sub => sub.isEmpty
  | c :: cs, sub => sub.isPrefixOf (c :: cs) || strContains cs sub

/-- The characters other than ASCII letters whose `str.upper()` is ASCII, with it. -/
def upperSpecial : List (Char × List Char) :=
  [('ß', ['S', 'S']), ('ı', ['I']), ('ſ', ['S']), ('ﬀ', ['F', 'F']), ('ﬁ', ['F', 'I']),
    ('ﬂ', ['F', 'L']), ('ﬃ', ['F', 'F', 'I']), ('ﬄ', ['F', 'F', 'L']), ('ﬅ', ['S', 'T']),
    ('ﬆ', ['S', 'T'])]

/-- `str.upper()` of one character where it is ASCII; any other character is kept. -/
def charUpper (c : Char) : List Char := (upperSpecial.lookup c).getD [c.toUpper]

/-- `str.upper()`, character by character as Python maps it (no case mapping of `upper`
depends on its neighbours). It agrees with Python on every text whose upper case is
ASCII, which is every text that can name an opcode or a directive. -/
def upper (s : List Char) : List Char := s.flatMap charUpper

/-- `line[:line.index(';')]` when `';' in line`, else `line`. -/
def beforeSemicolon (s : List Char) : List Char := s.takeWhile (· ≠ ';')

def isIdentStart (c : Char) : Bool := c.isAlpha || c == '_'

def isIdentChar (c : Char) : Bool := c.isAlphanum || c == '_'

/-- `[a-zA-Z_][a-zA-Z0-9_]*` matches all of `s`. -/
def isIdentBody : List Char → Bool
  | c :: cs => isIdentStart c && cs.all isIdentChar
  | [] => false

/-- `re.match(r'^[a-zA-Z_][a-zA-Z0-9_]*$', s)`; Python's `$` also matches before a
final newline. -/
def matchIdentifier (s : List Char) : Bool :=
  isIdentBody s || (s.getLast? == some '\n' && isIdentBody s.dropLast)

/-- `re.match(r'^([a-zA-Z_][a-zA-Z0-9_]*)\s*:', s)`: the group and the text after the
match. The name takes every identifier character, so the match is unique. -/
def matchLabel : List Char → Option (List Char × List Char)
  | c :: cs =>
    if isIdentStart c then
      match (cs.dropWhile isIdentChar).dropWhile isSpace with
      | ':' :: rest => some (c :: cs.takeWhile isIdentChar, rest)
      | _ => none
    else none
  | [] => none

/-! ## Facts -/

theorem lstrip_of_head {c : Char} {s : List Char} (h : isSpace c = false) :
    lstrip (c :: s) = c :: s := by
  simp [lstrip, List.dropWhile_cons, h]

theorem splitlinesAux_noBreak (cur : List Char) :
    ∀ s : List Char, (∀ c ∈ s, isLineBreak c = false) → cur ++ s ≠ [] →
      splitlinesAux cur s = [cur.reverse ++ s]
  | [], _, h => by simpa [splitlinesAux] using h
  | c :: s, hs, _ => by
    have hc : isLineBreak c = false := hs c (by simp)
    have hr : '\r' ≠ c := fun e => by simp [← e, isLineBreak] at hc
    have key : splitlinesAux cur (c :: s) = splitlinesAux (c :: cur) s := by
      cases s with
      | nil => simp [splitlinesAux, hc]
      | cons d s => rw [splitlinesAux.eq_3 _ _ _ (fun _ h _ => hr h.symm), if_neg (by simp [hc])]
    rw [key, splitlinesAux_noBreak (c :: cur) s (fun d hd => hs d (by simp [hd])) (by simp)]
    simp

/-- A non-empty text without a line end is one line. -/
theorem splitlines_noBreak {s : List Char} (hs : ∀ c ∈ s, isLineBreak c = false) (hne : s ≠ []) :
    splitlines s = [s] := by
  simpa using splitlinesAux_noBreak [] s hs (by simpa using hne)

/-- A text that starts and ends with a non-space is its own `strip()`. -/
theorem strip_eq_self {s : List Char} (h1 : ∀ x ∈ s.head?, isSpace x = false)
    (h2 : ∀ x ∈ s.getLast?, isSpace x = false) : strip s = s := by
  have hl : lstrip s = s := by
    cases s with
    | nil => rfl
    | cons c s => exact lstrip_of_head (h1 c rfl)
  have hr : s.reverse.dropWhile isSpace = s.reverse := by
    cases h : s.reverse with
    | nil => rfl
    | cons c t =>
      have : isSpace c = false := h2 c (by simp [List.getLast?_eq_head?_reverse, h])
      simp [List.dropWhile_cons, this]
  simp [strip, rstrip, hl, hr]

theorem char_isDigit (c : Char) : c.isDigit = (48 ≤ c.toNat && c.toNat ≤ 57) := by
  simp [Char.isDigit, Char.le_def, Char.toNat, UInt32.le_def, BitVec.le_def]; rfl

theorem char_isLower (c : Char) : c.isLower = (97 ≤ c.toNat && c.toNat ≤ 122) := by
  simp [Char.isLower, Char.le_def, Char.toNat, UInt32.le_def, BitVec.le_def]; rfl

theorem char_isUpper (c : Char) : c.isUpper = (65 ≤ c.toNat && c.toNat ≤ 90) := by
  simp [Char.isUpper, Char.le_def, Char.toNat, UInt32.le_def, BitVec.le_def]; rfl

theorem isIdentChar_of_isIdentStart {c : Char} (h : isIdentStart c = true) :
    isIdentChar c = true := by
  simp only [isIdentStart, isIdentChar, Char.isAlphanum, Bool.or_eq_true] at h ⊢
  tauto

/-- An identifier character is not a space, a line end, `;`, `:` or `.`. -/
theorem isIdentChar_plain {c : Char} (h : isIdentChar c = true) :
    isSpace c = false ∧ isLineBreak c = false ∧ c ≠ ';' ∧ c ≠ ':' ∧ c ≠ '.' := by
  have hr : (48 ≤ c.toNat ∧ c.toNat ≤ 57) ∨ (65 ≤ c.toNat ∧ c.toNat ≤ 90) ∨ c.toNat = 95 ∨
      (97 ≤ c.toNat ∧ c.toNat ≤ 122) := by
    simp only [isIdentChar, Char.isAlphanum, Char.isAlpha, char_isDigit, char_isUpper,
      char_isLower, Bool.or_eq_true, Bool.and_eq_true, decide_eq_true_eq, beq_iff_eq] at h
    rcases h with h | rfl
    · omega
    · decide
  have hne : ∀ d : Char, d.toNat < 48 ∨ 57 < d.toNat ∧ d.toNat < 65 → c ≠ d :=
    fun d hd e => by subst e; omega
  refine ⟨?_, ?_, hne ';' (by decide), hne ':' (by decide), hne '.' (by decide)⟩ <;>
    rw [Bool.eq_false_iff] <;>
    simp only [isSpace, isLineBreak, ne_eq, Bool.or_eq_true, Bool.and_eq_true, decide_eq_true_eq,
      beq_iff_eq] <;>
    omega

/-- `split(None, 1)` of a word, a space and a rest that does not start with a space. -/
theorem splitFirst_word {w rest : List Char} (hne : w ≠ []) (hw : ∀ x ∈ w, isSpace x = false)
    (hr : ∀ x ∈ rest.head?, isSpace x = false) : splitFirst (w ++ ' ' :: rest) = (w, rest) := by
  obtain ⟨c, cs, rfl⟩ := List.exists_cons_of_ne_nil hne
  have hw' : ∀ x ∈ c :: cs, (!isSpace x) = true := fun x hx => by simp [hw x hx]
  have hl : lstrip rest = rest := by
    cases rest with
    | nil => rfl
    | cons d ds => exact lstrip_of_head (hr d rfl)
  simp only [splitFirst, List.cons_append, lstrip_of_head (hw c (by simp))]
  have hsp : isSpace ' ' = true := by decide
  rw [← List.cons_append, List.takeWhile_append_of_pos hw', List.dropWhile_append_of_pos hw']
  simp only [List.takeWhile_cons, List.dropWhile_cons, hsp, Bool.not_true, List.append_nil]
  simpa [lstrip, hsp] using hl

/-- A line of a word, a space and a rest that starts with neither a space nor `:` has
no label. -/
theorem matchLabel_word {w rest : List Char} (hw : isIdentBody w = true)
    (hr : ∀ x ∈ rest.head?, isSpace x = false ∧ x ≠ ':') : matchLabel (w ++ ' ' :: rest) = none := by
  match w, hw with
  | c :: cs, hw =>
    simp only [isIdentBody, Bool.and_eq_true, List.all_eq_true] at hw
    have hd : (cs ++ ' ' :: rest).dropWhile isIdentChar = ' ' :: rest := by
      rw [List.dropWhile_append_of_pos hw.2]; simp [isIdentChar]
    have hs : (' ' :: rest).dropWhile isSpace = rest := by
      cases rest with
      | nil => rfl
      | cons d ds =>
        have hsp : isSpace ' ' = true := by decide
        simp [List.dropWhile_cons, (hr d rfl).1, hsp]
    simp only [matchLabel, List.cons_append, hw.1, if_true, hd, hs]
    split
    · exact absurd rfl (hr ':' rfl).2
    · rfl

/-- `split(None, 1)` of a lone word. -/
theorem splitFirst_single {w : List Char} (hw : ∀ x ∈ w, isSpace x = false) :
    splitFirst w = (w, []) := by
  have hw' : ∀ x ∈ w, (!isSpace x) = true := fun x hx => by simp [hw x hx]
  have hl : lstrip w = w := by
    cases w with
    | nil => rfl
    | cons c cs => exact lstrip_of_head (hw c (by simp))
  simp only [splitFirst, hl, List.takeWhile_eq_self_iff.2 hw', List.dropWhile_eq_nil_iff.2 hw']
  rfl

/-- A lone identifier is no label. -/
theorem matchLabel_ident {w : List Char} (hw : isIdentBody w = true) : matchLabel w = none := by
  match w, hw with
  | c :: cs, hw =>
    simp only [isIdentBody, Bool.and_eq_true, List.all_eq_true] at hw
    simp [matchLabel, hw.1, List.dropWhile_eq_nil_iff.2 hw.2]

/-! ## Lines of joined text -/

/-- No character of `s` ends a line for `str.splitlines`. -/
def NoBreak (s : List Char) : Prop := ∀ c ∈ s, isLineBreak c = false

instance : DecidablePred NoBreak := fun s => inferInstanceAs (Decidable (∀ c ∈ s, _))

theorem NoBreak.append {a b : List Char} (ha : NoBreak a) (hb : NoBreak b) : NoBreak (a ++ b) :=
  fun c hc => (List.mem_append.1 hc).elim (ha c) (hb c)

/-- A character that ends no line goes into the current one. -/
theorem splitlinesAux_plain (cur : List Char) {c : Char} (hc : isLineBreak c = false)
    (s : List Char) : splitlinesAux cur (c :: s) = splitlinesAux (c :: cur) s := by
  have hr : '\r' ≠ c := fun e => by simp [← e, isLineBreak] at hc
  rw [splitlinesAux.eq_3 _ _ _ (fun _ h _ => hr h.symm), if_neg (by simp [hc])]

theorem splitlinesAux_append_newline {a : List Char} (ha : NoBreak a) (cur s : List Char) :
    splitlinesAux cur (a ++ '\n' :: s) = (cur.reverse ++ a) :: splitlinesAux [] s := by
  induction a generalizing cur with
  | nil =>
    rw [List.nil_append, List.append_nil,
      splitlinesAux.eq_3 _ _ _ (fun _ h _ => absurd h (by decide)), if_pos (by decide)]
  | cons c a ih =>
    rw [List.cons_append, splitlinesAux_plain cur (ha c (List.mem_cons_self _ _)),
      ih (fun d hd => ha d (List.mem_cons_of_mem _ hd))]
    simp

/-- **Lines joined with `\n` split back into those lines**, when none is empty or holds a
line end. -/
theorem splitlines_join (a : List Char) (as : List (List Char))
    (h : ∀ l ∈ a :: as, l ≠ [] ∧ NoBreak l) :
    splitlines (a ++ as.flatMap fun b => '\n' :: b) = a :: as := by
  induction as generalizing a with
  | nil =>
    obtain ⟨hne, ha⟩ := h a (List.mem_singleton_self _)
    simpa using splitlines_noBreak ha hne
  | cons b as ih =>
    rw [List.flatMap_cons, List.cons_append, splitlines,
      splitlinesAux_append_newline (h a (List.mem_cons_self _ _)).2, ← splitlines,
      ih b fun l hl => h l (List.mem_cons_of_mem _ hl)]
    rfl

theorem digitChar_noBreak :
    ∀ k < 16, isLineBreak (Nat.digitChar k) = false ∧ isLineBreak (Nat.digitChar k).toUpper = false := by
  decide

theorem mem_toDigitsCore {b f n : Nat} {ds : List Char} {c : Char}
    (h : c ∈ Nat.toDigitsCore b f n ds) : c ∈ ds ∨ ∃ m, c = Nat.digitChar (m % b) := by
  induction f generalizing n ds with
  | zero => exact .inl h
  | succ f ih =>
    change c ∈ (if n / b = 0 then Nat.digitChar (n % b) :: ds
      else Nat.toDigitsCore b f (n / b) (Nat.digitChar (n % b) :: ds)) at h
    split at h
    · exact (List.mem_cons.1 h).elim (fun e => .inr ⟨_, e⟩) .inl
    · exact (ih h).elim (fun h => (List.mem_cons.1 h).elim (fun e => .inr ⟨_, e⟩) .inl) .inr

/-- The digits of a number in a base up to 16, in either case, end no line. -/
theorem noBreak_toDigits {b : Nat} (hb : 0 < b) (hb16 : b ≤ 16) (n : Nat) :
    NoBreak (Nat.toDigits b n) ∧ NoBreak ((Nat.toDigits b n).map Char.toUpper) := by
  have hd : ∀ c ∈ Nat.toDigits b n, ∃ k < 16, c = Nat.digitChar k := fun c hc => by
    obtain ⟨m, rfl⟩ := (mem_toDigitsCore hc).resolve_left (List.not_mem_nil _)
    exact ⟨m % b, by have := Nat.mod_lt m hb; omega, rfl⟩
  refine ⟨fun c hc => ?_, fun c hc => ?_⟩
  · obtain ⟨k, hk, rfl⟩ := hd c hc
    exact (digitChar_noBreak k hk).1
  · obtain ⟨d, hd', rfl⟩ := List.mem_map.1 hc
    obtain ⟨k, hk, rfl⟩ := hd d hd'
    exact (digitChar_noBreak k hk).2

/-- `str(n)` of a natural number ends no line. -/
theorem noBreak_toString_nat (n : Nat) : NoBreak (toString n).toList :=
  (noBreak_toDigits (by decide) (by decide) n).1

/-- `str(n)` of an integer ends no line. -/
theorem noBreak_toString_int (i : Int) : NoBreak (toString i).toList := by
  cases i with
  | ofNat m => exact noBreak_toString_nat m
  | negSucc m => exact NoBreak.append (by decide) (noBreak_toString_nat (m + 1))

theorem intercalate_go_toList (acc sep : String) (as : List String) :
    (String.intercalate.go acc sep as).toList = acc.toList ++ as.flatMap fun b => sep.toList ++ b.toList := by
  induction as generalizing acc with
  | nil => simp [String.intercalate.go]
  | cons b as ih =>
    rw [String.intercalate.go, ih]
    simp [String.toList]

/-- `sep.join([a, *rest])`. -/
theorem toList_intercalate_cons (sep a : String) (as : List String) :
    (sep.intercalate (a :: as)).toList = a.toList ++ as.flatMap fun b => sep.toList ++ b.toList :=
  intercalate_go_toList a sep as

end Zplc.Py
