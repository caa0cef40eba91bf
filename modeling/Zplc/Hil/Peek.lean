/-
`peek`'s reading of a response. On each line that holds a `:`, the text between
its first `:` and the next (`line.split(":")[1]`) is searched with
`re.findall(r"([0-9A-Fa-f]{2})", ...)`, and every pair found is a byte; the
first `length` of them are returned.

A pair is any two hex digits in a row, inside a word or not. The bytes are the
two-digit hex words of those texts exactly when every other word there has no
two hex digits in a row (`peekBytes_tokens`); `Error: bad address` gives two
bytes (`peekBytes_error_text`). Whatever the response, every value read is below
256 (`peekBytes_lt`).
-/
import Zplc.Python.Int

namespace Zplc.Hil

open Py

/-- `[0-9A-Fa-f]`. -/
def isHexDigit (c : Char) : Bool :=
  let n := c.toNat
  (48 ≤ n && n ≤ 57) || (97 ≤ n && n ≤ 102) || (65 ≤ n && n ≤ 70)

/-- `re.findall(r"([0-9A-Fa-f]{2})", s)`: from the left, two hex digits in a row are a
match and the search goes on after them; otherwise it moves one character on. -/
def hexPairs : List Char → List (List Char)
  | a :: b :: rest =>
    if isHexDigit a && isHexDigit b then [a, b] :: hexPairs rest else hexPairs (b :: rest)
  | _ => []
termination_by structural s => s

@[simp] theorem hexPairs_nil : hexPairs [] = [] := rfl

@[simp] theorem hexPairs_singleton (a : Char) : hexPairs [a] = [] := rfl

/-- `line.split(":")[1]` of a line that holds a `:`: the text between its first `:` and
the next. -/
def afterColon (line : List Char) : List Char :=
  ((line.dropWhile (· != ':')).drop 1).takeWhile (· != ':')

/-- `int(hv, 16)` of a pair `findall` returns: its value, as a pair has no sign, prefix
or `_`. -/
def hexByte (hv : List Char) : Nat := runValue 16 hv

/-- The list `peek` builds from the response `resp`, cut to its first `length` bytes
(`bytes_out[:length]`). -/
def peekBytes (resp : List Char) (length : Nat) : List Nat :=
  (((splitlines resp).filter (':' ∈ ·)).flatMap fun line =>
    (hexPairs (afterColon line)).map hexByte).take length

/-! ## Words -/

/-- `str.split()`, with `cur` the current word reversed. -/
def wordsAux (cur : List Char) : List Char → List (List Char)
  | [] => if cur.isEmpty then [] else [cur.reverse]
  | c :: cs =>
    if isSpace c then (if cur.isEmpty then wordsAux [] cs else cur.reverse :: wordsAux [] cs)
    else wordsAux (c :: cur) cs

/-- The whitespace-separated words of a text. -/
def words (s : List Char) : List (List Char) := wordsAux [] s

/-- A word of exactly two hex digits. -/
def isHexToken (w : List Char) : Bool := w.length == 2 && w.all isHexDigit

/-- No two neighbouring characters of `w` are both hex digits. -/
def NoHexPair (w : List Char) : Prop :=
  ∀ p ∈ w.zip w.tail, isHexDigit p.1 = false ∨ isHexDigit p.2 = false

instance : DecidablePred NoHexPair := fun _ => inferInstanceAs (Decidable (∀ _ ∈ _, _))

/-- The bytes of the two-digit hex words after the first `:` of each line, up to the
next `:`, the first `n` of them. -/
def peekTokens (resp : List Char) (n : Nat) : List Nat :=
  (((splitlines resp).filter (':' ∈ ·)).flatMap fun line =>
    ((words (afterColon line)).filter isHexToken).map hexByte).take n

/-! ## Pairs and words -/

theorem hexPairs_cons_cons (a b : Char) (rest : List Char) :
    hexPairs (a :: b :: rest) =
      if isHexDigit a && isHexDigit b then [a, b] :: hexPairs rest else hexPairs (b :: rest) := by
  rw [hexPairs]

/-- A space is not a hex digit. -/
theorem isHexDigit_of_isSpace {c : Char} (hs : isSpace c = true) : isHexDigit c = false := by
  simp only [isSpace, isHexDigit, Bool.or_eq_true, Bool.and_eq_true, decide_eq_true_eq,
    beq_iff_eq] at hs ⊢
  rw [Bool.eq_false_iff]
  simp only [ne_eq, Bool.or_eq_true, Bool.and_eq_true, decide_eq_true_eq]
  omega

/-- The search skips a character that is not a hex digit. -/
theorem hexPairs_nonHex_cons {c : Char} (hc : isHexDigit c = false) (v : List Char) :
    hexPairs (c :: v) = hexPairs v := by
  cases v with
  | nil => rfl
  | cons d v => rw [hexPairs_cons_cons, hc, Bool.false_and, if_neg Bool.false_ne_true]

/-- A character that is not a hex digit ends every pair: the search restarts after it. -/
theorem hexPairs_append_nonHex {c : Char} (hc : isHexDigit c = false) (u v : List Char) :
    hexPairs (u ++ c :: v) = hexPairs u ++ hexPairs v := by
  induction u using hexPairs.induct with
  | case1 a b rest hab ih =>
    rw [List.cons_append, List.cons_append, hexPairs_cons_cons, hexPairs_cons_cons, if_pos hab,
      if_pos hab, ih, List.cons_append]
  | case2 a b rest hab ih =>
    rw [List.cons_append, List.cons_append, hexPairs_cons_cons, hexPairs_cons_cons, if_neg hab,
      if_neg hab, ← List.cons_append, ih]
  | case3 u hu =>
    match u, hu with
    | [], _ => exact hexPairs_nonHex_cons hc v
    | [a], _ =>
      rw [List.singleton_append, hexPairs_cons_cons, hc, Bool.and_false, if_neg Bool.false_ne_true]
      exact hexPairs_nonHex_cons hc v
    | _ :: _ :: _, hu => exact absurd rfl (hu _ _ _)

theorem hexPairs_wordsAux (cur s : List Char) :
    hexPairs (cur.reverse ++ s) = (wordsAux cur s).flatMap hexPairs := by
  induction s generalizing cur with
  | nil => cases cur <;> simp [wordsAux]
  | cons c s ih =>
    by_cases hs : isSpace c
    · rw [hexPairs_append_nonHex (isHexDigit_of_isSpace hs), show hexPairs s = _ from ih []]
      cases cur <;> simp [wordsAux, hs]
    · simpa [wordsAux, hs] using ih (c :: cur)

/-- Pairs never cross a space. -/
theorem hexPairs_words (s : List Char) : hexPairs s = (words s).flatMap hexPairs :=
  hexPairs_wordsAux [] s

theorem hexPairs_noHexPair {w : List Char} (h : NoHexPair w) : hexPairs w = [] := by
  induction w with
  | nil => rfl
  | cons a t ih =>
    cases t with
    | nil => rfl
    | cons b rest =>
      simp only [NoHexPair, List.tail_cons, List.zip_cons_cons, List.mem_cons,
        forall_eq_or_imp] at h
      have hab : (isHexDigit a && isHexDigit b) = false := by rcases h.1 with h | h <;> simp [h]
      rw [hexPairs_cons_cons, hab, if_neg Bool.false_ne_true]
      exact ih h.2

theorem hexPairs_token {w : List Char} (h : isHexToken w = true) : hexPairs w = [w] := by
  match w, h with
  | [a, b], h => simp_all [isHexToken, hexPairs]

theorem flatMap_eq_filter {ws : List (List Char)} {f : List Char → List (List Char)}
    {p : List Char → Bool} (h : ∀ w ∈ ws, f w = if p w then [w] else []) :
    ws.flatMap f = ws.filter p := by
  induction ws with
  | nil => rfl
  | cons w ws ih =>
    rw [List.flatMap_cons, h w (by simp), ih fun v hv => h v (by simp [hv]), List.filter_cons]
    split <;> rfl

/-- **`peek` reads the two-digit hex words of a well-formed response.** For every
response whose words between the first `:` and the next, on every line, are two hex
digits or have no two hex digits in a row, `peek(a, n)` returns the first `n` of the
bytes of those two-digit words, line by line in order, and no more than there are. -/
theorem peekBytes_tokens (resp : List Char) (n : Nat)
    (h : ∀ line ∈ splitlines resp, ∀ w ∈ words (afterColon line),
      isHexToken w = true ∨ NoHexPair w) :
    peekBytes resp n = peekTokens resp n := by
  unfold peekBytes peekTokens
  congr 1
  refine List.flatMap_congr fun line hline => ?_
  rw [hexPairs_words, flatMap_eq_filter fun w hw => ?_]
  rcases h line (List.mem_filter.1 hline).1 w hw with ht | hn
  · simp [ht, hexPairs_token ht]
  · have ht : isHexToken w = false := by
      match w, hn with
      | [a, b], hn =>
        simp only [NoHexPair, List.tail_cons, List.zip_cons_cons, List.zip_nil_right,
          List.mem_singleton, forall_eq] at hn
        rcases hn with h | h <;> simp [isHexToken, h]
      | [], _ | [_], _ | _ :: _ :: _ :: _, _ => rfl
    simp [ht, hexPairs_noHexPair hn]

/-- A dump line and the prompt. -/
theorem peekBytes_tokens_dump :
    peekBytes "0x2000: 2A ff 07\r\nzplc:~$".toList 2 =
      peekTokens "0x2000: 2A ff 07\r\nzplc:~$".toList 2 :=
  peekBytes_tokens _ 2 (by decide)

/-- **Hex letters in words are read as bytes.** `Error: bad address` holds no two-digit
hex word, yet `peek` reads `ba` and `ad` from it. -/
theorem peekBytes_error_text :
    peekBytes "Error: bad address".toList 4 = [0xBA, 0xAD] ∧
      peekTokens "Error: bad address".toList 4 = [] := by
  decide

/-! ## Bytes -/

/-- A hex digit's value is below 16. -/
theorem digitValue_lt {c : Char} (h : isHexDigit c = true) : digitValue c < 16 ∧ c ≠ '_' := by
  simp only [isHexDigit, Bool.or_eq_true, Bool.and_eq_true, decide_eq_true_eq] at h
  refine ⟨?_, fun e => by rw [e] at h; have : '_'.toNat = 95 := rfl; omega⟩
  simp only [digitValue, char_isDigit, char_isLower, char_isUpper]
  split_ifs <;> simp only [Bool.and_eq_true, decide_eq_true_eq] at * <;> omega

theorem mem_hexPairs {s p : List Char} (h : p ∈ hexPairs s) :
    ∃ a b, p = [a, b] ∧ isHexDigit a = true ∧ isHexDigit b = true := by
  induction s using hexPairs.induct with
  | case1 a b rest hab ih =>
    rw [hexPairs_cons_cons, if_pos hab] at h
    rcases List.mem_cons.1 h with rfl | h
    · simp only [Bool.and_eq_true] at hab; exact ⟨a, b, rfl, hab⟩
    · exact ih h
  | case2 a b rest hab ih =>
    rw [hexPairs_cons_cons, if_neg hab] at h
    exact ih h
  | case3 s hs =>
    match s, hs with
    | [], _ | [_], _ => cases h
    | _ :: _ :: _, hs => exact absurd rfl (hs _ _ _)

theorem mem_peekBytes_lt {resp : List Char} {n x : Nat} (hx : x ∈ peekBytes resp n) : x < 256 := by
  simp only [peekBytes] at hx
  obtain ⟨line, -, hline⟩ := List.mem_flatMap.1 (List.mem_of_mem_take hx)
  obtain ⟨p, hp, rfl⟩ := List.mem_map.1 hline
  obtain ⟨a, b, rfl, ha, hb⟩ := mem_hexPairs hp
  obtain ⟨ha1, ha2⟩ := digitValue_lt ha
  obtain ⟨hb1, hb2⟩ := digitValue_lt hb
  simp only [hexByte, runValue, List.filter_cons, bne_iff_ne, ne_eq, ha2, hb2, not_false_eq_true,
    decide_True, List.filter_nil, if_true, List.map_cons, List.map_nil, List.foldl_cons,
    List.foldl_nil]
  omega

/-- **`peek` returns bytes.** Every value `peek` returns, whatever the response, is below
256. -/
theorem peekBytes_lt (resp : List Char) (n : Nat) : ∀ x ∈ peekBytes resp n, x < 256 :=
  fun _ hx => mem_peekBytes_lt hx

/-- The pair `ba` read from an error text is a byte. -/
theorem peekBytes_lt_error_text :
    0xBA ∈ peekBytes "Error: bad address".toList 4 ∧ 0xBA < 256 :=
  ⟨by decide, peekBytes_lt "Error: bad address".toList 4 0xBA (by decide)⟩

end Zplc.Hil
