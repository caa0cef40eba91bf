/-
The operand grammar of §4.2 of the spec, and what pass 1 makes of an operand
written in it. `OperandText` is the grammar as data: an identifier, a numeric
literal (sign, radix prefix, digits) or a character literal, with the text it
is written as and the value it denotes. After a mnemonic that takes an
operand, every such text is read as the spec says (`readSource_operand`),
provided it holds no `;` (a comment starts there) and no line end, and a
decimal literal has at most 4300 digits (`int()`'s limit). The converse does
not hold: `parse_number` also takes texts outside the grammar
(`readSource_double_sign`).
-/
import Mathlib.Data.Nat.Digits
import Zplc.Asm.Reading

namespace Zplc

open Py

/-! ## The grammar -/

inductive Sign where
  | unsigned
  | plus
  | minus
  deriving DecidableEq, Repr

def Sign.text : Sign → List Char
  | .unsigned => []
  | .plus => ['+']
  | .minus => ['-']

def Sign.apply : Sign → Int → Int
  | .minus, v => -v
  | _, v => v

inductive Radix where
  | bin
  | oct
  | dec
  | hex
  deriving DecidableEq, Repr

def Radix.base : Radix → Nat
  | .bin => 2
  | .oct => 8
  | .dec => 10
  | .hex => 16

/-- The radix's prefix, its letter in either case: `0b`, `0o`, `0x`; none for decimal. -/
def Radix.prefixText (r : Radix) (upperCase : Bool) : List Char :=
  let withLetter (c : Char) := ['0', if upperCase then c.toUpper else c]
  match r with
  | .bin => withLetter 'b'
  | .oct => withLetter 'o'
  | .dec => []
  | .hex => withLetter 'x'

/-- The value of `c` as a digit `0-9`, `a-f` or `A-F`. -/
def hexValue (c : Char) : Option Nat :=
  let n := c.toNat
  if 48 ≤ n ∧ n ≤ 57 then some (n - 48)
  else if 97 ≤ n ∧ n ≤ 102 then some (n - 87)
  else if 65 ≤ n ∧ n ≤ 70 then some (n - 55)
  else none

/-- The value of `c` as a digit of the radix. -/
def Radix.digit (r : Radix) (c : Char) : Option Nat := (hexValue c).filter (· < r.base)

/-- A numeric literal: an optional sign, the radix's prefix and a non-empty run of its
digits. -/
structure NumLiteral where
  sign : Sign
  radix : Radix
  upperPrefix : Bool
  digits : List Char
  digits_ne : digits ≠ []
  isDigit : ∀ c ∈ digits, (radix.digit c).isSome

def NumLiteral.text (l : NumLiteral) : List Char :=
  l.sign.text ++ l.radix.prefixText l.upperPrefix ++ l.digits

/-- The digits' value in the radix, most significant first, with the sign. -/
def NumLiteral.value (l : NumLiteral) : Int :=
  l.sign.apply
    (Nat.ofDigits l.radix.base (l.digits.map fun c => (l.radix.digit c).getD 0).reverse : Nat)

/-- The character an escape letter stands for. -/
def escapeChar : Char → Char
  | 'n' => '\n'
  | 'r' => '\r'
  | 't' => '\t'
  | '0' => Char.ofNat 0
  | c => c

/-- A character literal: one character, or one of the escapes `\n \r \t \\ \' \0`,
between single quotes. -/
inductive CharLiteral where
  | plain (c : Char)
  | escape (e : Char) (h : e ∈ ['n', 'r', 't', '\\', '\'', '0'])

def CharLiteral.text : CharLiteral → List Char
  | .plain c => ['\'', c, '\'']
  | .escape e _ => ['\'', '\\', e, '\'']

/-- The character's code. -/
def CharLiteral.value : CharLiteral → Int
  | .plain c => c.toNat
  | .escape e _ => (escapeChar e).toNat

/-- A name `[A-Za-z_][A-Za-z0-9_]*`. -/
structure Identifier where
  name : List Char
  isIdent : isIdentBody name = true

/-- An operand of the grammar. -/
inductive OperandText where
  | label (id : Identifier)
  | num (l : NumLiteral)
  | char (l : CharLiteral)

def OperandText.text : OperandText → List Char
  | .label id => id.name
  | .num l => l.text
  | .char l => l.text

/-- What pass 1 should record: the literal's value, or the name as a label
reference. -/
def OperandText.operand : OperandText → Option Int × Option (List Char)
  | .label id => (none, some id.name)
  | .num l => (some l.value, none)
  | .char l => (some l.value, none)

/-- The digits of a decimal literal, which `int()` limits. -/
def OperandText.decimalDigits : OperandText → Nat
  | .num l => if l.radix = .dec then l.digits.length else 0
  | _ => 0

/-! ## Characters -/

theorem hexValue_eq_some {c : Char} {d : Nat} (h : hexValue c = some d) :
    ((48 ≤ c.toNat ∧ c.toNat ≤ 57 ∧ d = c.toNat - 48) ∨
      (97 ≤ c.toNat ∧ c.toNat ≤ 102 ∧ d = c.toNat - 87) ∨
      (65 ≤ c.toNat ∧ c.toNat ≤ 70 ∧ d = c.toNat - 55)) ∧ digitValue c = d := by
  unfold hexValue at h
  dsimp only at h
  simp only [digitValue, char_isDigit, char_isLower, char_isUpper]
  split_ifs at h with h1 h2 h3 <;> cases h
  · exact ⟨.inl ⟨h1.1, h1.2, rfl⟩, by simp [h1.1, h1.2]⟩
  · refine ⟨.inr (.inl ⟨h2.1, h2.2, rfl⟩), ?_⟩
    rw [if_neg (by simp; omega), if_pos (by simp; omega)]
  · refine ⟨.inr (.inr ⟨h3.1, h3.2, rfl⟩), ?_⟩
    rw [if_neg (by simp; omega), if_neg (by simp; omega), if_pos (by simp; omega)]

theorem Radix.digit_spec {r : Radix} {c : Char} (h : (r.digit c).isSome) :
    ((48 ≤ c.toNat ∧ c.toNat ≤ 57) ∨ (97 ≤ c.toNat ∧ c.toNat ≤ 102) ∨
      (65 ≤ c.toNat ∧ c.toNat ≤ 70)) ∧
    digitValue c = (r.digit c).getD 0 ∧ digitValue c < r.base := by
  obtain ⟨d, hd⟩ := Option.isSome_iff_exists.1 h
  obtain ⟨hv, hlt⟩ := Option.filter_eq_some.1 hd
  obtain ⟨hr, hdv⟩ := hexValue_eq_some hv
  refine ⟨by omega, by rw [hd, hdv]; rfl, by simpa [hdv] using hlt⟩

theorem Radix.digit_plain {r : Radix} {c : Char} (h : (r.digit c).isSome) :
    c.toNat < 127 ∧ isSpace c = false ∧ asciiSpace c = false ∧ isLineBreak c = false ∧
      c ≠ '_' ∧ c ≠ '+' ∧ c ≠ '-' ∧ c ≠ '\'' ∧ c ≠ ';' ∧ c ≠ ':' ∧ inRun r.base c = true := by
  obtain ⟨hr, -, hlt⟩ := digit_spec h
  have hne : ∀ d : Char, ¬((48 ≤ d.toNat ∧ d.toNat ≤ 57) ∨ (97 ≤ d.toNat ∧ d.toNat ≤ 102) ∨
      (65 ≤ d.toNat ∧ d.toNat ≤ 70)) → c ≠ d := fun d hd e => hd (e ▸ hr)
  refine ⟨by omega, ?_, ?_, ?_, hne _ (by decide), hne _ (by decide), hne _ (by decide),
    hne _ (by decide), hne _ (by decide), hne _ (by decide), by simp [inRun, hlt]⟩ <;>
    rw [Bool.eq_false_iff] <;>
    simp only [isSpace, asciiSpace, isLineBreak, ne_eq, Bool.or_eq_true, Bool.and_eq_true,
      decide_eq_true_eq, beq_iff_eq, not_or]
  · omega
  · exact ⟨hne ' ' (by decide), by omega⟩
  · omega

theorem Radix.digit_zero (r : Radix) : (r.digit '0').isSome := by
  cases r <;> decide

theorem Radix.exists_head_digit (r : Radix) (up : Bool) (c : Char) (cs : List Char)
    (hc : (r.digit c).isSome) :
    ∃ x rest, r.prefixText up ++ c :: cs = x :: rest ∧ (r.digit x).isSome := by
  cases r <;> simp [Radix.prefixText, hc, Radix.digit_zero]

theorem Radix.dec_digit {c : Char} (h : (Radix.dec.digit c).isSome) :
    48 ≤ c.toNat ∧ c.toNat ≤ 57 := by
  obtain ⟨d, hd⟩ := Option.isSome_iff_exists.1 h
  obtain ⟨hv, hlt⟩ := Option.filter_eq_some.1 hd
  have := (hexValue_eq_some hv).1
  simp only [Radix.base, decide_eq_true_eq] at hlt
  omega

theorem lowerStartsWith_dec {ds : List Char} (hd : ∀ c ∈ ds, (Radix.dec.digit c).isSome)
    {a : Char} (ha : 57 < a.toNat) : lowerStartsWith ds ['0', a] = false := by
  have hl : ds.map Char.toLower = ds := (List.map_congr_left fun c hc => by
    have := Radix.dec_digit (hd c hc)
    simp only [Char.toLower, id]; rw [if_neg (by omega)]).trans (List.map_id ds)
  rw [lowerStartsWith, hl, Bool.eq_false_iff]
  intro h
  have := Radix.dec_digit (hd a ((List.isPrefixOf_iff_prefix.1 h).subset (by simp)))
  omega

/-! ## `int()` and `parse_number` on the grammar -/

theorem pyInt_digits (r : Radix) (up : Bool) {ds : List Char} (hne : ds ≠ [])
    (hd : ∀ c ∈ ds, (r.digit c).isSome) (hlim : r = .dec → ds.length ≤ intMaxStrDigits) :
    pyInt (r.prefixText up ++ ds) r.base = .ok (runValue r.base ds) := by
  obtain ⟨c, cs, rfl⟩ := List.exists_cons_of_ne_nil hne
  have hp := fun x hx => Radix.digit_plain (hd x hx)
  obtain ⟨x, rest, hxr, hx⟩ := r.exists_head_digit up c cs (hd c (by simp))
  have hascii : ∀ y ∈ r.prefixText up ++ c :: cs, y.toNat < 127 := by
    intro y hy
    rcases List.mem_append.1 hy with hy | hy
    · cases r <;> cases up <;> simp [Radix.prefixText] at hy <;> rcases hy with rfl | rfl <;> decide
    · exact (hp y hy).1
  have hstart : (r.prefixText up ++ c :: cs).dropWhile asciiSpace = r.prefixText up ++ c :: cs := by
    rw [hxr]; simp [(Radix.digit_plain hx).2.2.1]
  have hsign : splitSign (r.prefixText up ++ c :: cs) = (false, r.prefixText up ++ c :: cs) := by
    rw [hxr]; exact splitSign_of_head (Radix.digit_plain hx).2.2.2.2.2.1 (Radix.digit_plain hx).2.2.2.2.2.2.1
  have hdrop : dropPrefix r.base (r.prefixText up ++ c :: cs) = c :: cs := by
    have hc : c ≠ '_' := (hp c (by simp)).2.2.2.2.1
    cases r
    case dec => exact dropPrefix_ten _
    all_goals cases up <;> simp [Radix.prefixText, dropPrefix, prefixLetter, Radix.base, hc]
  have hrun : (c :: cs).takeWhile (inRun r.base) = c :: cs :=
    List.takeWhile_eq_self_iff.2 fun y hy => (hp y hy).2.2.2.2.2.2.2.2.2.2
  have hrest : (c :: cs).dropWhile (inRun r.base) = [] :=
    List.dropWhile_eq_nil_iff.2 fun y hy => (hp y hy).2.2.2.2.2.2.2.2.2.2
  have hfilter : (c :: cs).filter (· != '_') = c :: cs :=
    List.filter_eq_self.2 fun y hy => by simpa using (hp y hy).2.2.2.2.1
  have hwf : wellFormedRun (c :: cs) = true :=
    wellFormedRun_of_ne (by simp) fun h => (hp '_' h).2.2.2.2.1 rfl
  have hlim' : r.base = 10 → (c :: cs).length ≤ intMaxStrDigits := fun h =>
    hlim (by cases r <;> first | rfl | exact absurd h (by decide))
  simp only [pyInt, toAscii_of_ascii hascii, hstart, hsign, hdrop, hrun, hrest, hfilter, hwf]
  simpa [(hp c (by simp)).2.2.2.2.1] using hlim'

theorem base_of_prefixText (r : Radix) (up : Bool) {ds : List Char}
    (hd : ∀ c ∈ ds, (r.digit c).isSome) :
    (if lowerStartsWith (r.prefixText up ++ ds) "0x".toList then 16
      else if lowerStartsWith (r.prefixText up ++ ds) "0b".toList then 2
      else if lowerStartsWith (r.prefixText up ++ ds) "0o".toList then 8 else 10) = r.base := by
  have hx : "0x".toList = ['0', 'x'] := rfl
  have hb : "0b".toList = ['0', 'b'] := rfl
  have ho : "0o".toList = ['0', 'o'] := rfl
  rw [hx, hb, ho]
  cases r
  case dec =>
    have h1 := @lowerStartsWith_dec ds hd 'x' (by decide)
    have h2 := @lowerStartsWith_dec ds hd 'b' (by decide)
    have h3 := @lowerStartsWith_dec ds hd 'o' (by decide)
    simp only [Radix.prefixText, List.nil_append, h1, h2, h3]
    rfl
  all_goals cases up <;> simp [Radix.prefixText, lowerStartsWith, List.isPrefixOf, Radix.base]

/-! ## The ends of an operand's text -/

theorem dec_digit_plain {x : Char} (h : (Radix.dec.digit x).isSome) :
    isIdentStart x = false ∧ isSpace x = false ∧ x ≠ ':' ∧ x ≠ '\'' ∧ x ≠ '+' ∧ x ≠ '-' := by
  have hr := Radix.dec_digit h
  have hp := Radix.digit_plain h
  refine ⟨?_, hp.2.1, hp.2.2.2.2.2.2.2.2.2.1, hp.2.2.2.2.2.2.2.1, hp.2.2.2.2.2.1, hp.2.2.2.2.2.2.1⟩
  simp only [isIdentStart, Char.isAlpha, char_isUpper, char_isLower, Bool.or_eq_false_iff,
    Bool.and_eq_false_iff, decide_eq_false_iff_not, beq_eq_false_iff_ne]
  refine ⟨⟨by omega, by omega⟩, fun e => by subst e; revert hr; decide⟩

theorem NumLiteral.head_text (l : NumLiteral) :
    ∃ x rest, l.text = x :: rest ∧ (x = '+' ∨ x = '-' ∨ (Radix.dec.digit x).isSome) := by
  obtain ⟨sign, r, up, ds, hne, hd⟩ := l
  obtain ⟨c, cs, rfl⟩ := List.exists_cons_of_ne_nil hne
  cases sign
  case plus => exact ⟨_, _, rfl, .inl rfl⟩
  case minus => exact ⟨_, _, rfl, .inr (.inl rfl)⟩
  case unsigned =>
    cases r
    case dec => exact ⟨c, cs, rfl, .inr (.inr (hd c (by simp)))⟩
    all_goals exact ⟨'0', _, rfl, .inr (.inr rfl)⟩

theorem NumLiteral.last_text (l : NumLiteral) : ∀ y ∈ l.text.getLast?, (l.radix.digit y).isSome :=
  fun y hy => l.isDigit y (List.mem_of_getLast?_eq_some (by
    obtain ⟨c, cs, h⟩ := List.exists_cons_of_ne_nil l.digits_ne
    simpa [NumLiteral.text, h] using hy))

theorem NumLiteral.strip_text (l : NumLiteral) : strip l.text = l.text := by
  obtain ⟨x, rest, h, hx⟩ := l.head_text
  apply strip_eq_self
  · rw [h]
    rintro y ⟨⟩
    rcases hx with rfl | rfl | hx
    · decide
    · decide
    · exact (dec_digit_plain hx).2.1
  · exact fun y hy => (Radix.digit_plain (l.last_text y hy)).2.1

theorem foldl_digits (b : Nat) (L : List Nat) (acc : Nat) :
    L.foldl (fun acc d => acc * b + d) acc = acc * b ^ L.length + Nat.ofDigits b L.reverse := by
  induction L generalizing acc with
  | nil => simp
  | cons d L ih =>
    rw [List.foldl_cons, ih, List.reverse_cons, Nat.ofDigits_append, List.length_reverse]
    simp [Nat.ofDigits, pow_succ]
    ring

theorem runValue_digits {r : Radix} {ds : List Char} (hd : ∀ c ∈ ds, (r.digit c).isSome) :
    runValue r.base ds = Nat.ofDigits r.base (ds.map fun c => (r.digit c).getD 0).reverse := by
  have hf : ds.filter (· != '_') = ds :=
    List.filter_eq_self.2 fun y hy => by simpa using (Radix.digit_plain (hd y hy)).2.2.2.2.1
  have hm : ds.map digitValue = ds.map fun c => (r.digit c).getD 0 :=
    List.map_congr_left fun c hc => (Radix.digit_spec (hd c hc)).2.1
  simp [runValue, hf, hm, foldl_digits]

/-- **`parse_number` reads a numeric literal of the grammar as its value**, if a
decimal one has at most 4300 digits. -/
theorem parseNumber_num (l : NumLiteral) (hlim : l.radix = .dec → l.digits.length ≤ intMaxStrDigits) :
    parseNumber l.text = .ok l.value := by
  obtain ⟨x, rest, hxt, hx⟩ := l.head_text
  have hquote : (l.text.head? == some '\'') = false := by
    rw [hxt]; rcases hx with rfl | rfl | hx
    · rfl
    · rfl
    · simp [(dec_digit_plain hx).2.2.2.1]
  have hempty : l.text.isEmpty = false := by simp [hxt]
  simp only [parseNumber, l.strip_text, hempty, hquote, Bool.false_and, Bool.false_eq_true, if_false]
  obtain ⟨sign, r, up, ds, hne, hd⟩ := l
  obtain ⟨c, cs, rfl⟩ := List.exists_cons_of_ne_nil hne
  obtain ⟨y, ys, hyr, hy⟩ := r.exists_head_digit up c cs (hd c (by simp))
  have hyp := Radix.digit_plain hy
  have hsign : splitSign (sign.text ++ r.prefixText up ++ c :: cs) =
      (sign == .minus, r.prefixText up ++ c :: cs) := by
    cases sign
    case unsigned => simpa [Sign.text, hyr] using splitSign_of_head hyp.2.2.2.2.2.1 hyp.2.2.2.2.2.2.1
    all_goals rfl
  simp only [NumLiteral.text, hsign, base_of_prefixText r up hd,
    pyInt_digits r up (List.cons_ne_nil c cs) hd hlim, runValue_digits hd]
  cases sign <;> rfl

theorem charLiteralValue_plain {c : Char} (hc : c ≠ '\\') :
    charLiteralValue ['\'', c, '\''] = c.toNat := by
  simp [charLiteralValue, hc]

/-- **`parse_number` reads a character literal of the grammar as the character's
code.** -/
theorem parseNumber_char (l : CharLiteral) : parseNumber l.text = .ok l.value := by
  have hq : isSpace '\'' = false := by decide
  cases l with
  | plain c =>
    have hstrip : strip ['\'', c, '\''] = ['\'', c, '\''] := strip_eq_self (by simp [hq]) (by simp [hq])
    by_cases hc : c = '\\'
    · subst hc; rfl
    · simp [parseNumber, hstrip, CharLiteral.text, CharLiteral.value, charLiteralValue_plain hc]
  | escape e he =>
    simp only [List.mem_cons, List.mem_singleton, List.not_mem_nil, or_false] at he
    rcases he with rfl | rfl | rfl | rfl | rfl | rfl <;> rfl

/-! ## An operand after its mnemonic -/

theorem OperandText.ends (o : OperandText) :
    (∃ y ys, o.text = y :: ys ∧ isSpace y = false ∧ y ≠ ':') ∧
      ∀ z ∈ o.text.getLast?, isSpace z = false := by
  cases o with
  | label id =>
    obtain ⟨name, hid⟩ := id
    match name, hid with
    | c :: cs, hid =>
      simp only [isIdentBody, Bool.and_eq_true, List.all_eq_true] at hid
      have hc := isIdentChar_plain (isIdentChar_of_isIdentStart hid.1)
      refine ⟨⟨c, cs, rfl, hc.1, hc.2.2.2.1⟩, fun z hz => ?_⟩
      rcases List.mem_cons.1 (List.mem_of_getLast?_eq_some hz) with rfl | hz
      · exact hc.1
      · exact (isIdentChar_plain (hid.2 z hz)).1
  | num l =>
    obtain ⟨x, rest, h, hx⟩ := l.head_text
    refine ⟨⟨x, rest, h, ?_⟩, fun z hz => (Radix.digit_plain (l.last_text z hz)).2.1⟩
    rcases hx with rfl | rfl | hx
    · decide
    · decide
    · exact ⟨(dec_digit_plain hx).2.1, (dec_digit_plain hx).2.2.1⟩
  | char l =>
    have hq : isSpace '\'' = false := by decide
    cases l <;> exact ⟨⟨_, _, rfl, hq, by decide⟩, by simp [OperandText.text, CharLiteral.text, hq]⟩

/-- `parse_operand` records an identifier as a label reference and a literal as its
value. -/
theorem parseOperand_text (o : OperandText) (hlim : o.decimalDigits ≤ intMaxStrDigits) (n : Nat) :
    parseOperand o.text n = .ok o.operand := by
  obtain ⟨⟨y, ys, hy, hys, -⟩, hlast⟩ := o.ends
  have hstrip : strip o.text = o.text := strip_eq_self (by simp [hy, hys]) hlast
  have hempty : o.text.isEmpty = false := by simp [hy]
  simp only [parseOperand, hstrip, hempty, Bool.false_eq_true, if_false]
  cases o with
  | label id => simp [OperandText.text, OperandText.operand, matchIdentifier, id.isIdent]
  | num l =>
    have hlim' : l.radix = .dec → l.digits.length ≤ intMaxStrDigits := fun h => by
      simpa [OperandText.decimalDigits, h] using hlim
    have hid : matchIdentifier l.text = false := by
      obtain ⟨x, rest, h, hx⟩ := l.head_text
      have hnl : (l.text.getLast? == some '\n') = false := by
        cases hl : l.text.getLast? with
        | none => rfl
        | some z =>
          have := (Radix.digit_plain (l.last_text z hl)).2.2.2.1
          simpa [beq_iff_eq] using fun e : z = '\n' => by subst e; revert this; decide
      rw [matchIdentifier, hnl, Bool.false_and, Bool.or_false, h, isIdentBody]
      rcases hx with rfl | rfl | hx
      · rfl
      · rfl
      · simp [(dec_digit_plain hx).1]
    simp [OperandText.text, OperandText.operand, hid, parseNumber_num l hlim']
  | char l =>
    have hid : matchIdentifier l.text = false := by
      cases l <;> rfl
    simp [OperandText.text, OperandText.operand, hid, parseNumber_char l]

theorem Opcode.name_plain (op : Opcode) :
    op.name ≠ [] ∧
      ∀ x ∈ op.name, isSpace x = false ∧ isLineBreak x = false ∧ x ≠ ';' ∧ x ≠ ':' ∧ x ≠ '.' := by
  obtain ⟨hid, -⟩ := op.name_isIdent
  match op.name, hid with
  | c :: cs, hid =>
    simp only [isIdentBody, Bool.and_eq_true, List.all_eq_true] at hid
    exact ⟨List.cons_ne_nil _ _, fun x hx => isIdentChar_plain <|
      (List.mem_cons.1 hx).elim (fun e => e ▸ isIdentChar_of_isIdentStart hid.1) (hid.2 x)⟩

/-- The line `M o` at any line number: one line, with no label, read as the instruction. -/
theorem readLine_operand (op : Opcode) (hw : 0 < op.operandSize) (o : OperandText)
    (hsemi : ';' ∉ o.text) (hbreak : ∀ c ∈ o.text, isLineBreak c = false)
    (hlim : o.decimalDigits ≤ intMaxStrDigits) (n : Nat) :
    splitlines (op.name ++ ' ' :: o.text) = [op.name ++ ' ' :: o.text] ∧
      matchLabel (strip (beforeSemicolon (op.name ++ ' ' :: o.text))) = none ∧
      readLine (op.name ++ ' ' :: o.text) n = .ok [.instr op o.operand.1 o.operand.2 n] := by
  obtain ⟨hid, hup⟩ := op.name_isIdent
  obtain ⟨hne, hplain⟩ := op.name_plain
  obtain ⟨⟨y, ys, hy, hys, hyc⟩, hlast⟩ := o.ends
  obtain ⟨c, cs, hname⟩ := List.exists_cons_of_ne_nil hne
  have hc := hplain c (by simp [hname])
  have hchars : ∀ x ∈ op.name ++ ' ' :: o.text, isLineBreak x = false ∧ x ≠ ';' := by
    intro x hx
    simp only [List.mem_append, List.mem_cons] at hx
    rcases hx with hx | rfl | hx
    · exact ⟨(hplain x hx).2.1, (hplain x hx).2.2.1⟩
    · exact ⟨by decide, by decide⟩
    · exact ⟨hbreak x hx, fun e => hsemi (e ▸ hx)⟩
  have hsemi' : beforeSemicolon (op.name ++ ' ' :: o.text) = op.name ++ ' ' :: o.text :=
    List.takeWhile_eq_self_iff.2 fun x hx => by simpa using (hchars x hx).2
  have hstrip : strip (op.name ++ ' ' :: o.text) = op.name ++ ' ' :: o.text := by
    apply strip_eq_self
    · simp [hname, hc.1]
    · intro z hz; exact hlast z (by simpa [hy] using hz)
  have hlabel := @matchLabel_word _ o.text hid (by simp [hy, hys, hyc])
  have hfirst : splitFirst (op.name ++ ' ' :: o.text) = (op.name, o.text) :=
    splitFirst_word hne (fun x hx => (hplain x hx).1) (by simp [hy, hys])
  have hdot : (op.name.head? == some '.') = false := by
    simp [hname, hc.2.2.2.2]
  have hempty : o.text.isEmpty = false := by simp [hy]
  refine ⟨splitlines_noBreak (fun x hx => (hchars x hx).1) (by simp),
    by rw [hsemi', hstrip]; exact hlabel, ?_⟩
  simp [readLine, hsemi', hstrip, hlabel, readStatement, hfirst, hup, hdot, Opcode.ofName_name,
    lineOperand, hw, hempty, parseOperand_text o hlim n, Except.mapError, Except.map]

theorem readLine_name (op : Opcode) (hw : op.operandSize = 0) (n : Nat) :
    splitlines op.name = [op.name] ∧ matchLabel (strip (beforeSemicolon op.name)) = none ∧
      readLine op.name n = .ok [.instr op none none n] := by
  obtain ⟨hid, hup⟩ := op.name_isIdent
  obtain ⟨hne, hplain⟩ := op.name_plain
  obtain ⟨c, cs, hname⟩ := List.exists_cons_of_ne_nil hne
  have hsemi : beforeSemicolon op.name = op.name :=
    List.takeWhile_eq_self_iff.2 fun x hx => by simpa using (hplain x hx).2.2.1
  have hstrip : strip op.name = op.name :=
    strip_eq_self (fun x hx => (hplain x (List.mem_of_mem_head? hx)).1)
      (fun x hx => (hplain x (List.mem_of_mem_getLast? hx)).1)
  have hdot : (op.name.head? == some '.') = false := by
    simp [hname, (hplain c (by simp [hname])).2.2.2.2]
  refine ⟨splitlines_noBreak (fun x hx => (hplain x hx).2.1) hne,
    by rw [hsemi, hstrip]; exact matchLabel_ident hid, ?_⟩
  simp [readLine, hsemi, hstrip, matchLabel_ident hid, readStatement,
    splitFirst_single fun x hx => (hplain x hx).1, hup, hdot, Opcode.ofName_name, lineOperand, hw,
    hne, Except.map]

/-- **Pass 1 reads an operand of the grammar as the spec says.** For every mnemonic
whose opcode takes an operand and every operand of the grammar with no `;` and no line
end in its text (and at most 4300 digits if decimal), the source line `M o` is accepted
as one instruction whose operand is the literal's value, or the identifier as a label
reference. -/
theorem readSource_operand (op : Opcode) (hw : 0 < op.operandSize) (o : OperandText)
    (hsemi : ';' ∉ o.text) (hbreak : ∀ c ∈ o.text, isLineBreak c = false)
    (hlim : o.decimalDigits ≤ intMaxStrDigits) :
    readSource (op.name ++ ' ' :: o.text) = .ok [.instr op o.operand.1 o.operand.2 1] := by
  obtain ⟨hlines, -, hline⟩ := readLine_operand op hw o hsemi hbreak hlim 1
  simp [readSource, hlines, readLines, hline]

/-- A signed hexadecimal literal after `PUSH16`. -/
theorem readSource_operand_hex :
    readSource "PUSH16 -0x1F".toList = .ok [.instr .PUSH16 (some (-31)) none 1] :=
  readSource_operand .PUSH16 (by decide) (.num ⟨.minus, .hex, false, ['1', 'F'], by simp, by decide⟩)
    (by decide) (by decide) (by decide)

theorem OperandText.text_ne_double_sign (o : OperandText) (rest : List Char) :
    o.text ≠ '-' :: '-' :: rest := by
  cases o with
  | label id =>
    intro h
    have hdash : isIdentStart '-' = false := by decide
    have := id.isIdent
    simp [OperandText.text] at h
    simp [h, isIdentBody, hdash] at this
  | num l =>
    obtain ⟨sign, r, up, ds, hne, hd⟩ := l
    obtain ⟨c, cs, rfl⟩ := List.exists_cons_of_ne_nil hne
    obtain ⟨x, xs, hxr, hx⟩ := r.exists_head_digit up c cs (hd c (by simp))
    have hxp := Radix.digit_plain hx
    intro h
    simp only [OperandText.text, NumLiteral.text, List.append_assoc, hxr] at h
    cases sign <;> simp [Sign.text] at h
    all_goals exact hxp.2.2.2.2.2.2.1 h.1
  | char l => cases l <;> simp [OperandText.text, CharLiteral.text]

/-- **`parse_number` takes more than the grammar.** `PUSH8 --5` is read with the
operand 5: the first `-` is `parse_number`'s sign, the second `int()`'s. No operand of
the grammar is written with two signs. -/
theorem readSource_double_sign :
    readSource "PUSH8 --5".toList = .ok [.instr .PUSH8 (some 5) none 1] ∧
      ∀ o : OperandText, o.text ≠ "--5".toList :=
  ⟨rfl, fun o => o.text_ne_double_sign ['5']⟩

end Zplc
