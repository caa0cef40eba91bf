/-
Pass 1 read without the assembler's state. What a line says does not depend
on the state: a label, an instruction with its operand, or a directive
(`readLine`, as `Event`s in source order). `parse_line` applies those events
to the state (`applyEvent`: a label gets the cursor, an instruction is
appended at the cursor and moves it on, `.ORG` sets the cursor, `.DB` moves
it on by one per value) and refuses a label it has seen (`parseLine_ok`).
So pass 1 is the events of the whole source applied in order
(`parseLines_ok`), and `assemble` is that, then pass 2 and emission
(`assemble_ok`).
-/
import Zplc.Asm.Emit

namespace Zplc

open Py

/-- What a line says to pass 1. -/
inductive Event where
  | label (name : List Char) (lineNum : Nat)
  | instr (op : Opcode) (operand : Option Int) (ref : Option (List Char)) (lineNum : Nat)
  | org (v : Int)
  | entry (e : EntryPoint)
  | defineBytes (count : Nat)
  deriving DecidableEq, Repr

/-- The state change of one event, as `parse_line` and `handle_directive` make it. -/
def applyEvent (s : Assembler) : Event → Assembler
  | .label name n => { s with labels := s.labels ++ [⟨name, s.currentAddress, n⟩] }
  | .instr op val ref n =>
    { s with
      instructions := s.instructions ++ [⟨op, val, ref, n, s.currentAddress⟩]
      currentAddress := s.currentAddress + (1 + op.operandSize) }
  | .org v => { s with currentAddress := v }
  | .entry e => { s with entryPoint := e }
  | .defineBytes k => { s with currentAddress := s.currentAddress + k }

def applyEvents (s : Assembler) (evs : List Event) : Assembler := evs.foldl applyEvent s

@[simp] theorem applyEvents_nil (s : Assembler) : applyEvents s [] = s := rfl

@[simp] theorem applyEvents_cons (s : Assembler) (e : Event) (evs : List Event) :
    applyEvents s (e :: evs) = applyEvents (applyEvent s e) evs := rfl

theorem applyEvents_append (s : Assembler) (a b : List Event) :
    applyEvents s (a ++ b) = applyEvents (applyEvents s a) b := List.foldl_append _ _ _ _

/-- The events of a directive line (`handle_directive` without the state). -/
def readDirective (directive operand : List Char) (lineNum : Nat) : Except LineError (List Event) :=
  if directive == ".ORG".toList then
    match parseNumber operand with
    | .ok v => .ok [.org v]
    | .error _ => .error (.asm ⟨.invalidOrg operand, lineNum, []⟩)
  else if directive == ".ENTRY".toList then
    let operand := strip operand
    if matchIdentifier operand then .ok [.entry (.label (upper operand))]
    else
      match parseNumber operand with
      | .ok v => .ok [.entry (.num v)]
      | .error _ => .error (.asm ⟨.invalidEntry operand, lineNum, []⟩)
  else if directive == ".DB".toList || directive == ".BYTE".toList then
    (fun vs => vs.map fun _ => Event.defineBytes 1) <$>
      (operand.splitOn ',').mapM fun v => (parseNumber (strip v)).mapError .value
  else .error (.asm ⟨.unknownDirective directive, lineNum, []⟩)

/-- The events of a line after its label. -/
def readStatement (line : List Char) (lineNum : Nat) : Except LineError (List Event) :=
  let (word, operandStr) := splitFirst line
  let mnemonic := upper word
  if mnemonic.head? == some '.' then readDirective mnemonic operandStr lineNum
  else
    match Opcode.ofName mnemonic with
    | none => .error (.asm ⟨.unknownInstruction mnemonic, lineNum, line⟩)
    | some opcode =>
      (lineOperand mnemonic operandStr line lineNum opcode.operandSize).map fun (val, ref) =>
        [.instr opcode val ref lineNum]

/-- The events of a line. -/
def readLine (raw : List Char) (lineNum : Nat) : Except LineError (List Event) :=
  let line := strip (beforeSemicolon raw)
  if line.isEmpty then .ok []
  else
    match matchLabel line with
    | some (name, rest) =>
      let line := strip rest
      if line.isEmpty then .ok [.label (upper name) lineNum]
      else (.label (upper name) lineNum :: ·) <$> readStatement line lineNum
    | none => readStatement line lineNum

/-- The events of the numbered lines, with `assemble`'s treatment of a line's error. -/
def readLines : List (Nat × List Char) → Except AssemblerError (List Event)
  | [] => .ok []
  | (n, line) :: rest =>
    match readLine line n with
    | .ok evs => (evs ++ ·) <$> readLines rest
    | .error (.asm e) => .error e
    | .error (.value e) => .error ⟨.raised e, n, line⟩

/-- The events of a source text, line by line. -/
def readSource (source : List Char) : Except AssemblerError (List Event) :=
  readLines ((splitlines source).enumFrom 1)

/-! ## `parse_line` applies what the line says -/

theorem defineBytes_eq (s : Assembler) (vals : List (List Char)) :
    defineBytes s vals = (fun vs => applyEvents s (vs.map fun _ => Event.defineBytes 1)) <$>
      vals.mapM fun v => (parseNumber (strip v)).mapError .value := by
  induction vals generalizing s with
  | nil => rfl
  | cons v vs ih =>
    simp only [defineBytes, List.mapM_cons]
    cases parseNumber (strip v) <;> simp [ih, Except.mapError, applyEvent]; rfl

theorem handleDirective_eq (s : Assembler) (d o : List Char) (n : Nat) :
    handleDirective s d o n = applyEvents s <$> readDirective d o n := by
  simp only [handleDirective, readDirective]
  split
  · cases parseNumber o <;> rfl
  split
  · split
    · rfl
    · cases parseNumber (strip o) <;> rfl
  split
  · rw [defineBytes_eq]
    cases (o.splitOn ',').mapM fun v => (parseNumber (strip v)).mapError LineError.value <;> rfl
  · rfl

theorem parseStatement_eq (s : Assembler) (line : List Char) (n : Nat) :
    parseStatement s line n = applyEvents s <$> readStatement line n := by
  simp only [parseStatement, readStatement]
  split
  · exact handleDirective_eq ..
  · cases Opcode.ofName (upper (splitFirst line).1) with
    | none => rfl
    | some op =>
      dsimp only
      cases lineOperand (upper (splitFirst line).1) (splitFirst line).2 line n op.operandSize <;> rfl

/-- A statement has no label event. -/
theorem readStatement_noLabel {line : List Char} {n : Nat} {evs : List Event}
    (h : readStatement line n = .ok evs) (name : List Char) (m : Nat) :
    Event.label name m ∉ evs := by
  simp only [readStatement] at h
  split at h
  · simp only [readDirective] at h
    repeat' split at h
    all_goals first
      | (cases h <;> simp)
      | (obtain ⟨_, _, rfl⟩ := except_map_eq_ok.1 h; simp)
  · split at h
    · cases h
    · obtain ⟨_, _, rfl⟩ := except_map_eq_ok.1 h; simp

/-- **`parse_line` is the line's events applied**, and a label it accepts is new. -/
theorem parseLine_ok {s s' : Assembler} {raw : List Char} {n : Nat}
    (h : parseLine s raw n = .ok s') :
    ∃ evs, readLine raw n = .ok evs ∧ s' = applyEvents s evs ∧
      ∀ name m, Event.label name m ∈ evs → ∀ l ∈ s.labels, l.name ≠ name := by
  simp only [parseLine, readLine] at h ⊢
  by_cases he : (strip (beforeSemicolon raw)).isEmpty
  · simp only [he, if_true, Except.ok.injEq] at h ⊢
    exact ⟨[], rfl, h ▸ rfl, by simp⟩
  simp only [he, Bool.false_eq_true, if_false] at h ⊢
  rcases hm : matchLabel (strip (beforeSemicolon raw)) with _ | ⟨name, rest⟩
  · simp only [hm, parseStatement_eq] at h ⊢
    obtain ⟨evs, he', rfl⟩ := except_map_eq_ok.1 h
    exact ⟨evs, he', rfl, fun nm m hin => absurd hin (readStatement_noLabel he' nm m)⟩
  simp only [hm] at h ⊢
  split at h
  · cases h
  next hfresh =>
  have hfresh' : ∀ l ∈ s.labels, l.name ≠ upper name := fun l hl he =>
    hfresh (List.any_eq_true.2 ⟨l, hl, by simp [he]⟩)
  by_cases hr : (strip rest).isEmpty
  · simp only [hr, if_true, Except.ok.injEq] at h ⊢
    exact ⟨[.label (upper name) n], rfl, h ▸ rfl, by simpa using hfresh'⟩
  simp only [hr, Bool.false_eq_true, if_false, parseStatement_eq] at h ⊢
  obtain ⟨evs, he', rfl⟩ := except_map_eq_ok.1 h
  refine ⟨.label (upper name) n :: evs, by simp [he'], rfl, fun nm m hmem => ?_⟩
  rcases List.mem_cons.1 hmem with h1 | hin
  · cases h1; exact hfresh'
  · exact absurd hin (readStatement_noLabel he' nm m)

/-- **Pass 1 is the source's events applied in order.** -/
theorem parseLines_ok {s s' : Assembler} {lines : List (Nat × List Char)}
    (h : parseLines s lines = .ok s') :
    ∃ evs, readLines lines = .ok evs ∧ s' = applyEvents s evs := by
  induction lines generalizing s with
  | nil => cases h; exact ⟨[], rfl, rfl⟩
  | cons p rest ih =>
    obtain ⟨n, line⟩ := p
    simp only [parseLines] at h
    split at h
    · next s1 h1 =>
      obtain ⟨evs1, hr1, rfl, -⟩ := parseLine_ok h1
      obtain ⟨evs2, hr2, rfl⟩ := ih h
      exact ⟨evs1 ++ evs2, by simp [readLines, hr1, hr2], (applyEvents_append ..).symm⟩
    all_goals cases h

theorem parseLine_noLabel {s : Assembler} {raw : List Char} {n : Nat}
    (h : matchLabel (strip (beforeSemicolon raw)) = none) :
    parseLine s raw n = applyEvents s <$> readLine raw n := by
  simp only [parseLine, readLine, h, parseStatement_eq]
  split <;> rfl

/-- Over lines with no label pass 1 cannot refuse a label, so it is the lines' events
applied, or the first line's error. -/
theorem parseLines_noLabel (s : Assembler) {lines : List (Nat × List Char)}
    (h : ∀ p ∈ lines, matchLabel (strip (beforeSemicolon p.2)) = none) :
    parseLines s lines = applyEvents s <$> readLines lines := by
  induction lines generalizing s with
  | nil => rfl
  | cons p rest ih =>
    obtain ⟨n, line⟩ := p
    simp only [parseLines, readLines, parseLine_noLabel (h _ (List.mem_cons_self _ _))]
    rcases readLine line n with (e | e) | evs
    · rfl
    · rfl
    · show parseLines (applyEvents s evs) rest = _
      rw [ih _ fun q hq => h q (List.mem_cons_of_mem _ hq)]
      cases readLines rest <;> simp [Functor.map, Except.map, applyEvents_append]

/-- What `assemble` does with an accepted source: its events applied from the reset
state, labels resolved, instructions emitted. -/
theorem assemble_ok {S : List Char} {st : Assembler} {code : List UInt8}
    (h : assemble S = .ok (st, code)) :
    ∃ evs, readSource S = .ok evs ∧ resolveLabels (applyEvents {} evs) = .ok st ∧
      code = emitBytecode st := by
  simp only [assemble, except_bind_eq_ok] at h
  obtain ⟨s1, h1, st', h2, h3⟩ := h
  cases h3
  obtain ⟨evs, hr, rfl⟩ := parseLines_ok h1
  exact ⟨evs, hr, h2, rfl⟩

end Zplc
