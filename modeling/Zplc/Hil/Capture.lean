/-
`start_and_capture`'s scan of the text that arrives in its window. Each
character is appended to a buffer; once the buffer holds a `}`, the text from
its first `{` to its first `}` is decoded as JSON, kept if its `t` field is a
trace kind, and the buffer is cut after that `}`. The decoder is a parameter
(`loads`, with `kindOf` reading the `t` field), so every result holds for any
JSON decoder. A `JSONDecodeError` keeps nothing; any other exception of
`json.loads` (a `ValueError` for an integer of more than 4300 digits, a
`RecursionError` for nesting too deep) is not caught and ends the capture.

After any text the buffer holds no `}`, or its first brace is a `}` (`Stuck`).
From a clean buffer every later brace-free record is decoded on its own, the
first one joined to what the buffer held from its first `{`; from a stuck
buffer nothing is extracted again (`captureScan_resync`).

Whatever arrives, the window is gaps with no brace and pieces `{…}` ending at
their first `}`, then a rest. The capture returns the pieces' kept decodings in
order, or raises the exception of the first piece whose decoding raises; when
it returns, nothing is extracted from the rest (`captureScan_pieces`).
-/
import Zplc.Python.Int

namespace Zplc.Hil

open Py

/-- An exception of `json.loads` other than `JSONDecodeError`. -/
inductive LoadsError where
  | valueError
  | recursionError
  deriving DecidableEq, Repr

/-- What `json.loads` does with a text. -/
inductive Loaded (α : Type) where
  | value (data : α)
  /-- `json.JSONDecodeError`, which the capture catches. -/
  | decodeError
  /-- Any other exception, which escapes `start_and_capture`. -/
  | raised (e : LoadsError)
  deriving DecidableEq, Repr

section Scan

variable {α : Type} (loads : List Char → Loaded α) (kindOf : α → Option (List Char))

/-- The `t` fields of the records the capture keeps. -/
def traceKinds : List (List Char) := ["opcode", "error", "task", "fb", "ack"].map String.toList

/-- The `try` of the capture loop: `json.loads(json_str)`, kept if its `t` is a trace
kind; a `JSONDecodeError` keeps nothing, and another exception escapes. -/
def keepTrace (jsonStr : List Char) : Except LoadsError (List α) :=
  match loads jsonStr with
  | .value data => .ok (if (kindOf data).any (· ∈ traceKinds) then [data] else [])
  | .decodeError => .ok []
  | .raised e => .error e

/-- One character of the capture loop: `buffer += char`, then the extraction. The two
`find`s are `findIdx?`, with `-1` as `none`. -/
def captureStep (st : List Char × List α) (c : Char) : Except LoadsError (List Char × List α) :=
  let buffer := st.1 ++ [c]
  if '}' ∈ buffer then
    match buffer.findIdx? (· == '{'), buffer.findIdx? (· == '}') with
    | some startIdx, some endIdx =>
      if startIdx < endIdx then
        (fun kept => (buffer.drop (endIdx + 1), st.2 ++ kept)) <$>
          keepTrace loads kindOf ((buffer.drop startIdx).take (endIdx + 1 - startIdx))
      else .ok (buffer, st.2)
    | _, _ => .ok (buffer, st.2)
  else .ok (buffer, st.2)

/-- The buffer and the traces after the text `s`, or the exception that ended the loop. -/
def captureFrom (s : List Char) : Except LoadsError (List Char × List α) :=
  s.foldlM (captureStep loads kindOf) ([], [])

/-- What `start_and_capture` returns, or raises, when `s` arrives in its window. -/
def captureScan (s : List Char) : Except LoadsError (List α) :=
  Prod.snd <$> captureFrom loads kindOf s

/-! ## Records and buffers -/

/-- A text with no brace. -/
def Braceless (t : List Char) : Prop := '{' ∉ t ∧ '}' ∉ t

instance : DecidablePred Braceless := fun _ => inferInstanceAs (Decidable (_ ∧ _))

/-- The text of a record with no brace but its two delimiters. -/
def IsRecord (r : List Char) : Prop := ∃ body, Braceless body ∧ r = '{' :: body ++ ['}']

/-- A buffer whose first brace is a `}`. -/
def Stuck (buffer : List Char) : Prop := ∃ pre post, Braceless pre ∧ buffer = pre ++ '}' :: post

/-- The traces kept from `t_0 r_1 t_1 … r_n t_n` after a buffer with no `}`: the first
record with the text from the buffer's first `{` before it, then every later record on
its own; or the first exception. -/
def resyncTraces (buffer t0 : List Char) :
    List (List Char × List Char) → Except LoadsError (List α)
  | [] => .ok []
  | (r, _) :: rest => do
    let first ← keepTrace loads kindOf ((buffer ++ t0).dropWhile (· != '{') ++ r)
    let more ← rest.mapM fun p => keepTrace loads kindOf p.1
    pure (first ++ more.flatten)

/-! ## One character -/

theorem captureStep_plain {buf : List Char} (tr : List α) {c : Char} (hb : '}' ∉ buf)
    (hc : c ≠ '}') : captureStep loads kindOf (buf, tr) c = .ok (buf ++ [c], tr) := by
  simp [captureStep, hb, hc.symm]

theorem dropWhile_open {s : List Char} (h : '{' ∈ s) :
    ∃ post, s.dropWhile (· != '{') = '{' :: post := by
  induction s with
  | nil => cases h
  | cons c s ih =>
    by_cases hc : c = '{'
    · exact ⟨s, by simp [hc]⟩
    · simp only [List.mem_cons, Ne.symm hc, false_or] at h
      simpa [List.dropWhile_cons, hc] using ih h

theorem dropWhile_append_open (buf body : List Char) :
    (buf ++ '{' :: body).dropWhile (· != '{') = buf.dropWhile (· != '{') ++ '{' :: body := by
  rw [List.dropWhile_append]
  split
  · next h => simp [List.isEmpty_iff.1 h]
  · rfl

theorem findIdx?_beq_none {s : List Char} {c : Char} (h : c ∉ s) :
    s.findIdx? (· == c) = none :=
  List.findIdx?_eq_none_iff.2 fun x hx => by simpa using fun e : x = c => h (e ▸ hx)

theorem captureStep_close {buf : List Char} (tr : List α) (hb : '}' ∉ buf) (ho : '{' ∈ buf) :
    captureStep loads kindOf (buf, tr) '}' =
      (fun kept => ([], tr ++ kept)) <$> keepTrace loads kindOf (buf.dropWhile (· != '{') ++ ['}']) := by
  obtain ⟨post, hpost⟩ := dropWhile_open ho
  have hsplit := List.takeWhile_append_dropWhile (· != '{') buf
  have hpre : '{' ∉ buf.takeWhile (· != '{') := fun h => by
    simpa using List.mem_takeWhile_imp h
  rw [hpost] at hsplit ⊢
  generalize buf.takeWhile (· != '{') = pre at hsplit hpre
  subst hsplit
  simp only [List.mem_append, List.mem_cons, not_or] at hb
  have h1 : (pre ++ '{' :: post ++ ['}']).findIdx? (· == '{') = some pre.length := by
    simp [findIdx?_beq_none hpre]
  have h2 : (pre ++ '{' :: post ++ ['}']).findIdx? (· == '}') =
      some (pre.length + (post.length + 1)) := by
    simp [findIdx?_beq_none hb.1, findIdx?_beq_none hb.2.2, Nat.add_comm]
  simp only [captureStep, h1, h2, List.mem_append, List.mem_singleton, or_true, if_true]
  rw [if_pos (by omega), List.append_assoc, List.drop_append_eq_append_drop]
  simp [Nat.add_sub_cancel_left, List.take_of_length_le, List.drop_of_length_le, Nat.add_assoc]

theorem captureStep_stray {buf : List Char} (tr : List α) (ho : '{' ∉ buf) :
    captureStep loads kindOf (buf, tr) '}' = .ok (buf ++ ['}'], tr) := by
  have h1 : (buf ++ ['}']).findIdx? (· == '{') = none := findIdx?_beq_none (by simp [ho])
  simp [captureStep, h1]

theorem captureStep_stuck {buf : List Char} (tr : List α) (c : Char) (h : Stuck buf) :
    captureStep loads kindOf (buf, tr) c = .ok (buf ++ [c], tr) ∧ Stuck (buf ++ [c]) := by
  obtain ⟨pre, post, ⟨ho, hc⟩, rfl⟩ := h
  refine ⟨?_, pre, post ++ [c], ⟨ho, hc⟩, by simp⟩
  have hB : pre ++ '}' :: post ++ [c] = (pre ++ ['}']) ++ (post ++ [c]) := by simp
  have h1 : ∀ i, ((pre ++ ['}']) ++ (post ++ [c])).findIdx? (· == '{') = some i →
      pre.length < i := by
    intro i hi
    rw [List.findIdx?_append, findIdx?_beq_none (by simp [ho]), Option.none_or] at hi
    obtain ⟨j, -, rfl⟩ := Option.map_eq_some'.1 hi
    simp only [List.length_append, List.length_singleton]
    omega
  have h2 : ((pre ++ ['}']) ++ (post ++ [c])).findIdx? (· == '}') = some pre.length := by
    rw [List.findIdx?_append, List.findIdx?_append, findIdx?_beq_none hc]
    simp
  simp only [captureStep, hB, h2]
  split
  · split
    · next i j hi hj => cases hj; rw [if_neg (by have := h1 i hi; omega)]
    · rfl
  · rfl

theorem captureStep_clean_or_stuck {st st' : List Char × List α} {c : Char}
    (h : '}' ∉ st.1 ∨ Stuck st.1) (hs : captureStep loads kindOf st c = .ok st') :
    '}' ∉ st'.1 ∨ Stuck st'.1 := by
  obtain ⟨buf, tr⟩ := st
  rcases h with hb | hst
  · by_cases hc : c = '}'
    · subst hc
      by_cases ho : '{' ∈ buf
      · rw [captureStep_close loads kindOf tr hb ho] at hs
        obtain ⟨_, -, rfl⟩ := except_map_eq_ok.1 hs
        exact .inl (List.not_mem_nil _)
      · rw [captureStep_stray loads kindOf tr ho] at hs
        cases hs
        exact .inr ⟨buf, [], ⟨ho, hb⟩, rfl⟩
    · rw [captureStep_plain loads kindOf tr hb hc] at hs
      cases hs
      exact .inl (by simp [hb, Ne.symm hc])
  · rw [(captureStep_stuck loads kindOf tr c hst).1] at hs
    cases hs
    exact .inr (captureStep_stuck loads kindOf tr c hst).2

/-! ## Runs -/

theorem foldl_braceFree {buf s : List Char} (tr : List α) (hb : '}' ∉ buf) (hs : '}' ∉ s) :
    s.foldlM (captureStep loads kindOf) (buf, tr) = .ok (buf ++ s, tr) := by
  induction s generalizing buf with
  | nil => simp
  | cons c s ih =>
    simp only [List.mem_cons, not_or] at hs
    rw [List.foldlM_cons, captureStep_plain _ _ _ hb (Ne.symm hs.1), except_ok_bind,
      ih (by simpa using ⟨hb, hs.1⟩) hs.2]
    simp

theorem foldl_stuck {buf : List Char} (tr : List α) (s : List Char) (h : Stuck buf) :
    s.foldlM (captureStep loads kindOf) (buf, tr) = .ok (buf ++ s, tr) := by
  induction s generalizing buf with
  | nil => simp
  | cons c s ih =>
    obtain ⟨hstep, hst⟩ := captureStep_stuck loads kindOf tr c h
    rw [List.foldlM_cons, hstep, except_ok_bind, ih hst]
    simp

/-- After any text the buffer holds no `}`, or its first brace is a `}`. -/
theorem foldl_clean_or_stuck (s : List Char) :
    ∀ st st' : List Char × List α, ('}' ∉ st.1 ∨ Stuck st.1) →
      s.foldlM (captureStep loads kindOf) st = .ok st' → '}' ∉ st'.1 ∨ Stuck st'.1 := by
  induction s with
  | nil => intro st st' h hs; cases hs; exact h
  | cons c s ih =>
    intro st st' h hs
    obtain ⟨st1, h1, h2⟩ := except_bind_eq_ok.1 hs
    exact ih st1 st' (captureStep_clean_or_stuck loads kindOf h h1) h2

theorem foldl_record {buf r : List Char} (tr : List α) (hb : '}' ∉ buf) (hr : IsRecord r) :
    r.foldlM (captureStep loads kindOf) (buf, tr) =
      (fun kept => ([], tr ++ kept)) <$> keepTrace loads kindOf (buf.dropWhile (· != '{') ++ r) := by
  obtain ⟨body, ⟨ho, hc⟩, rfl⟩ := hr
  have hb' : '}' ∉ buf ++ '{' :: body := by simp [hb, hc]
  rw [List.foldlM_append, foldl_braceFree loads kindOf tr hb (by simp [hc]), except_ok_bind,
    List.foldlM_cons, captureStep_close loads kindOf tr hb' (by simp)]
  simp only [List.foldlM_nil, bind_pure, dropWhile_append_open, List.append_assoc, List.cons_append]

theorem resyncTraces_clean {t : List Char} (ht : '{' ∉ t) (rs : List (List Char × List Char)) :
    resyncTraces loads kindOf [] t rs = List.flatten <$> rs.mapM fun p => keepTrace loads kindOf p.1 := by
  have hd : t.dropWhile (· != '{') = [] :=
    List.dropWhile_eq_nil_iff.2 fun x hx => by simpa using fun h : x = '{' => ht (h ▸ hx)
  cases rs with
  | nil => rfl
  | cons p rest =>
    simp only [resyncTraces, List.nil_append, hd, List.mapM_cons]
    cases keepTrace loads kindOf p.1 <;> cases rest.mapM fun p => keepTrace loads kindOf p.1 <;> rfl

theorem foldl_records {buf t0 : List Char} (tr : List α) (rs : List (List Char × List Char))
    (hb : '}' ∉ buf) (ht0 : Braceless t0) (hrs : ∀ p ∈ rs, IsRecord p.1 ∧ Braceless p.2) :
    Prod.snd <$> (t0 ++ rs.flatMap fun p => p.1 ++ p.2).foldlM (captureStep loads kindOf) (buf, tr) =
      (tr ++ ·) <$> resyncTraces loads kindOf buf t0 rs := by
  induction rs generalizing buf t0 tr with
  | nil => simp [foldl_braceFree loads kindOf tr hb ht0.2, resyncTraces]
  | cons p rest ih =>
    obtain ⟨r, t⟩ := p
    obtain ⟨hr, ht⟩ := hrs (r, t) (by simp)
    have hbt : '}' ∉ buf ++ t0 := by simp [hb, ht0.2]
    simp only [List.flatMap_cons, List.foldlM_append, foldl_braceFree loads kindOf tr hb ht0.2,
      except_ok_bind, foldl_record loads kindOf tr hbt hr, resyncTraces]
    cases keepTrace loads kindOf ((buf ++ t0).dropWhile (· != '{') ++ r) with
    | error e => rfl
    | ok kept =>
      have := ih (tr ++ kept) (List.not_mem_nil _) ht fun q hq => hrs q (by simp [hq])
      rw [resyncTraces_clean _ _ ht.1, List.foldlM_append] at this
      rw [except_map_ok, except_ok_bind, this]
      cases rest.mapM fun p => keepTrace loads kindOf p.1 <;> simp

/-- **The capture resynchronises after anything but a stray `}`.** For every text `g`,
and every `t_0 r_1 t_1 … r_n t_n` with brace-free `t_i` and records `r_i` with no brace
inside: after `g` the buffer holds no `}` or its first brace is a `}`. The capture of
`g t_0 r_1 t_1 … r_n t_n` is that of `g`, then, if the buffer after `g` holds no `}`,
`r_1` decoded with the text from the buffer's first `{` before it and each of
`r_2 … r_n` decoded on its own; if it holds a `}`, nothing more. An exception of a
decoding ends it. -/
theorem captureScan_resync (g t0 : List Char) (rs : List (List Char × List Char))
    (ht0 : Braceless t0) (hrs : ∀ p ∈ rs, IsRecord p.1 ∧ Braceless p.2) :
    (∀ st, captureFrom loads kindOf g = .ok st → '}' ∉ st.1 ∨ Stuck st.1) ∧
      captureScan loads kindOf (g ++ t0 ++ rs.flatMap fun p => p.1 ++ p.2) =
        captureFrom loads kindOf g >>= fun st =>
          if '}' ∈ st.1 then pure st.2 else (st.2 ++ ·) <$> resyncTraces loads kindOf st.1 t0 rs := by
  have hcs := fun st h => foldl_clean_or_stuck loads kindOf g ([], []) st (.inl (List.not_mem_nil _)) h
  refine ⟨hcs, ?_⟩
  unfold captureScan captureFrom
  rw [List.append_assoc, List.foldlM_append]
  cases hg : g.foldlM (captureStep loads kindOf) ([], []) with
  | error e => rfl
  | ok st =>
    obtain ⟨buf, tr⟩ := st
    rw [except_ok_bind, except_ok_bind]
    by_cases hb : '}' ∈ buf
    · have hs : Stuck buf := (hcs _ hg).resolve_left (not_not.2 hb)
      rw [if_pos hb, foldl_stuck loads kindOf tr _ hs]
      rfl
    · rw [if_neg hb, foldl_records loads kindOf tr rs hb ht0 hrs]

theorem captureScan_after_stray (s : List Char) : captureScan loads kindOf ('}' :: s) = .ok [] := by
  have h : captureStep loads kindOf ([], []) '}' = .ok (['}'], []) :=
    captureStep_stray loads kindOf [] (List.not_mem_nil _)
  rw [captureScan, captureFrom, List.foldlM_cons, h, except_ok_bind,
    foldl_stuck loads kindOf [] s (show Stuck ['}'] from ⟨[], [], by decide, rfl⟩)]
  rfl

/-! ## Every window -/

/-- A piece the capture decodes: a `{`, text with no `}`, and the `}` that ends it. -/
def IsPiece (r : List Char) : Prop := ∃ body, '}' ∉ body ∧ r = '{' :: body ++ ['}']

theorem findIdx?_beq_some {s : List Char} {c : Char} {i : Nat}
    (h : s.findIdx? (· == c) = some i) : ∃ pre post, s = pre ++ c :: post ∧ pre.length = i ∧ c ∉ pre := by
  induction s generalizing i with
  | nil => cases h
  | cons d s ih =>
    rw [List.findIdx?_cons, Nat.zero_add, List.findIdx?_succ] at h
    by_cases hd : d = c
    · subst hd
      rw [if_pos (beq_self_eq_true d)] at h
      exact ⟨[], s, rfl, Option.some.inj h, List.not_mem_nil _⟩
    · rw [if_neg (by simpa using hd)] at h
      obtain ⟨j, hj, rfl⟩ := Option.map_eq_some'.1 h
      obtain ⟨pre, post, rfl, rfl, hn⟩ := ih hj
      exact ⟨d :: pre, post, rfl, rfl, by simp [hn, Ne.symm hd]⟩

/-- What one character does to the capture: it is appended to the buffer, or it ends a
piece, whose decoding is kept (or raises) and after which the buffer starts again. -/
theorem captureStep_cases (buf : List Char) (tr : List α) (c : Char) :
    captureStep loads kindOf (buf, tr) c = .ok (buf ++ [c], tr) ∨
      ∃ pre r post, Braceless pre ∧ IsPiece r ∧ buf ++ [c] = pre ++ r ++ post ∧
        captureStep loads kindOf (buf, tr) c =
          (fun kept => (post, tr ++ kept)) <$> keepTrace loads kindOf r := by
  unfold captureStep
  generalize buf ++ [c] = B
  dsimp only
  split
  · split
    · next i j h1 h2 =>
      split
      · next hij =>
        right
        obtain ⟨preA, postA, hA, rfl, hnA⟩ := findIdx?_beq_some h1
        obtain ⟨preB, postB, hB, rfl, hnB⟩ := findIdx?_beq_some h2
        obtain ⟨mid, rfl, rfl⟩ : ∃ mid, preB = preA ++ '{' :: mid ∧ postA = mid ++ '}' :: postB := by
          rcases List.append_eq_append_iff.1 (hA.symm.trans hB) with ⟨a, rfl, ha⟩ | ⟨a, rfl, ha⟩
          · cases a with
            | nil => cases ha
            | cons x mid =>
              obtain ⟨rfl, rfl⟩ := List.cons_eq_cons.1 ha
              exact ⟨mid, rfl, rfl⟩
          · rw [List.length_append] at hij; omega
        subst hA
        refine ⟨preA, '{' :: mid ++ ['}'], postB, ⟨hnA, fun h => hnB (by simp [h])⟩,
          ⟨mid, fun h => hnB (by simp [h]), rfl⟩, by simp, ?_⟩
        simp [Nat.add_sub_cancel_left, Nat.add_assoc, List.take_append]
      · exact .inl rfl
    · exact .inl rfl
  · exact .inl rfl

/-- What the capture has done, or raised, after the text `p`: `p` is gaps with no brace
and pieces, in turn, then a rest, which is the buffer if the loop goes on; and the result
is the pieces' kept decodings, or the first exception among them. -/
def Captured (p : List Char) (res : Except LoadsError (List Char × List α)) : Prop :=
  ∃ (ps : List (List Char × List Char)) (rest : List Char),
    (∀ q ∈ ps, Braceless q.1 ∧ IsPiece q.2) ∧ p = ps.flatMap (fun q => q.1 ++ q.2) ++ rest ∧
    (∀ st, res = .ok st → st.1 = rest) ∧
    Prod.snd <$> res = List.flatten <$> ps.mapM fun q => keepTrace loads kindOf q.2

theorem Captured.step {p : List Char} {res : Except LoadsError (List Char × List α)}
    (h : Captured loads kindOf p res) (c : Char) :
    Captured loads kindOf (p ++ [c]) (res >>= fun st => captureStep loads kindOf st c) := by
  obtain ⟨ps, rest, hps, rfl, hbuf, htr⟩ := h
  cases res with
  | error e =>
    refine ⟨ps, rest ++ [c], hps, by simp, fun _ h => ?_, htr⟩
    simp at h
  | ok st =>
    obtain ⟨buf, tr⟩ := st
    obtain rfl : buf = rest := hbuf _ rfl
    obtain ⟨ls, hls, htr⟩ : ∃ ls, ps.mapM (fun q => keepTrace loads kindOf q.2) = .ok ls ∧ ls.flatten = tr :=
      except_map_eq_ok.1 htr.symm
    rw [except_ok_bind]
    rcases captureStep_cases loads kindOf buf tr c with hst | ⟨pre, r, post, hpre, hr, hsplit, hst⟩
    · refine ⟨ps, buf ++ [c], hps, by simp, fun st h => by rw [hst] at h; cases h; rfl, ?_⟩
      rw [hst, hls, ← htr]; rfl
    · refine ⟨ps ++ [(pre, r)], post, fun q hq => ?_, ?_, fun st h => ?_, ?_⟩
      · rcases List.mem_append.1 hq with hq | hq
        · exact hps q hq
        · rw [List.mem_singleton.1 hq]; exact ⟨hpre, hr⟩
      · rw [List.append_assoc, hsplit]; simp
      · rw [hst] at h
        obtain ⟨_, -, rfl⟩ := except_map_eq_ok.1 h
        rfl
      · rw [hst, List.mapM_append, hls, List.mapM_cons, List.mapM_nil, ← htr]
        cases keepTrace loads kindOf r <;> simp

theorem Captured.foldl {p : List Char} {res : Except LoadsError (List Char × List α)}
    (h : Captured loads kindOf p res) (s : List Char) :
    Captured loads kindOf (p ++ s) (res >>= fun st => s.foldlM (captureStep loads kindOf) st) := by
  induction s generalizing p res with
  | nil => cases res <;> simpa using h
  | cons c s ih =>
    have := ih (h.step loads kindOf c)
    rw [List.append_cons]
    cases res <;> simpa using this

/-- **The capture keeps exactly the decodings of the window's pieces.** For every text
that arrives in the window: it is gaps with no brace and pieces `{…}` whose only `}` is
their last character, in turn, then a rest; the capture returns the kept decodings of
those pieces, in order, or raises the exception of the first piece whose decoding raises;
and when it returns, nothing is extracted from the rest (no `}` in it, or a `}` before any
`{`). -/
theorem captureScan_pieces (s : List Char) :
    ∃ (ps : List (List Char × List Char)) (rest : List Char),
      (∀ q ∈ ps, Braceless q.1 ∧ IsPiece q.2) ∧ s = ps.flatMap (fun q => q.1 ++ q.2) ++ rest ∧
      captureScan loads kindOf s = List.flatten <$> ps.mapM (fun q => keepTrace loads kindOf q.2) ∧
      ∀ traces, captureScan loads kindOf s = .ok traces → '}' ∉ rest ∨ Stuck rest := by
  obtain ⟨ps, rest, hps, hs, hbuf, htr⟩ := (show Captured loads kindOf [] (.ok ([], [])) from
    ⟨[], [], by simp, rfl, fun _ h => by cases h; rfl, rfl⟩).foldl loads kindOf s
  refine ⟨ps, rest, hps, by simpa using hs, htr, fun traces h => ?_⟩
  obtain ⟨st, hst, -⟩ := except_map_eq_ok.1 h
  rw [← hbuf st hst]
  exact foldl_clean_or_stuck loads kindOf s _ st (.inl (List.not_mem_nil _)) hst

end Scan

/-! ## A decoder that knows one record -/

/-- The record `\x7b"t":"ack"\x7d`. -/
def ackRecord : List Char := "\x7b\"t\":\"ack\"\x7d".toList

/-- `json.loads` on `ackRecord`, as its `t` field; every other text fails to decode. -/
def ackLoads (s : List Char) : Loaded (List Char) :=
  if s = ackRecord then .value "ack".toList else .decodeError

/-- A torn record's head before two records: the first record is lost with it, the
second kept. -/
theorem captureScan_resync_torn :
    Braceless "\n".toList ∧
      (∀ p ∈ [(ackRecord, "\n".toList), (ackRecord, [])], IsRecord p.1 ∧ Braceless p.2) ∧
      (∀ st, captureFrom ackLoads some "\x7b\"t\"".toList = .ok st → '}' ∉ st.1 ∨ Stuck st.1) ∧
      captureScan ackLoads some ("\x7b\"t\"".toList ++ "\n".toList ++
          [(ackRecord, "\n".toList), (ackRecord, [])].flatMap fun p => p.1 ++ p.2) =
        captureFrom ackLoads some "\x7b\"t\"".toList >>= fun st =>
          if '}' ∈ st.1 then pure st.2
          else (st.2 ++ ·) <$> resyncTraces ackLoads some st.1 "\n".toList
            [(ackRecord, "\n".toList), (ackRecord, [])] := by
  have hrs : ∀ p ∈ [(ackRecord, "\n".toList), (ackRecord, [])], IsRecord p.1 ∧ Braceless p.2 := by
    have hr : IsRecord ackRecord := ⟨"\"t\":\"ack\"".toList, by decide, rfl⟩
    simp only [List.mem_cons, List.mem_singleton, List.not_mem_nil, or_false]
    rintro p (rfl | rfl) <;> exact ⟨hr, by decide⟩
  exact ⟨by decide, hrs, captureScan_resync ackLoads some _ _ _ (by decide) hrs⟩

/-- **A stray `}` stops the capture.** After a `}` that no `{` precedes, such as the tail
of a record torn by `reset_input_buffer`, nothing is kept: here two `ack` records follow,
each kept on its own, and the capture is empty. -/
theorem captureScan_stray_brace :
    keepTrace ackLoads some ackRecord = .ok ["ack".toList] ∧
      captureScan ackLoads some ('}' :: ackRecord ++ '\n' :: ackRecord) = .ok [] :=
  ⟨rfl, captureScan_after_stray ackLoads some _⟩

end Zplc.Hil
