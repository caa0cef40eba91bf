/-
What pass 2 refuses. `resolve_labels` looks every reference up in the label
table of the whole of pass 1, so a label may be used on a line before the one
that defines it. It stops at the first instruction, in source order, whose
label no line defines (names compared upper-cased) or whose relative branch
does not reach its label within a signed byte, and reports that instruction's
line; with every instruction resolved it fails only on an `.ENTRY` label no line
defines (`resolveLabels_error`).

So every error `assemble` raises carries the number of a line of the source: pass 1
raises at the line it reads, and pass 2 at the line of an instruction pass 1 read.
Only the undefined entry label is reported at line 0 (`assemble_error_line`). A
label defined on two lines (compared upper-cased) is refused at the second, or at
an earlier line that fails first (`assemble_duplicate_label`).
-/
import Zplc.Asm.Reading

namespace Zplc

open Py

/-- An instruction pass 2 accepts: it names no label, or the label its reference names
once upper-cased, which a branch `JR`, `JRZ` or `JRNZ` reaches within a signed byte of
the address after it. -/
def Resolves (labels : List Label) (i : Instruction) : Prop :=
  ∀ ref, i.operandLabel = some ref → ref ≠ [] →
    ∃ l, findLabel labels (upper ref) = some l ∧
      (i.opcode.isRelative = true →
        -128 ≤ l.address - (i.address + 2) ∧ l.address - (i.address + 2) ≤ 127)

/-- The error pass 2 reports for an instruction it refuses, at the instruction's line:
the upper-cased name no label has, or the branch offset that does not fit. -/
def refusalError (labels : List Label) (i : Instruction) : AssemblerError :=
  let name := upper (i.operandLabel.getD [])
  match findLabel labels name with
  | none => ⟨.undefinedLabel name, i.lineNum, []⟩
  | some l => ⟨.jumpOutOfRange name (l.address - (i.address + 2)), i.lineNum, []⟩

/-! ## One instruction -/

theorem resolveInstruction_ok_of_resolves {labels : List Label} {i : Instruction}
    (h : Resolves labels i) : ∃ i', resolveInstruction labels i = .ok i' := by
  obtain ⟨op, val, ref, n, addr⟩ := i
  rcases ref with _ | _ | ⟨c, cs⟩
  · exact ⟨_, rfl⟩
  · exact ⟨_, rfl⟩
  obtain ⟨l, hl, hrange⟩ := h (c :: cs) rfl (List.cons_ne_nil _ _)
  simp only [resolveInstruction, hl]
  split
  · next hrel =>
    obtain ⟨lo, hi⟩ := hrange hrel
    dsimp only at lo hi
    rw [if_neg (by simp only [Bool.or_eq_true, decide_eq_true_eq, not_or]; omega)]
    exact ⟨_, rfl⟩
  · exact ⟨_, rfl⟩

theorem resolves_of_ok {labels : List Label} {i i' : Instruction}
    (h : resolveInstruction labels i = .ok i') : Resolves labels i := by
  obtain ⟨op, val, ref, n, addr⟩ := i
  rintro r ⟨⟩ hne
  rcases r with _ | ⟨c, cs⟩
  · exact absurd rfl hne
  simp only [resolveInstruction] at h
  split at h
  · cases h
  · next l hl =>
    refine ⟨l, hl, fun hrel => ?_⟩
    rw [if_pos hrel] at h
    split at h
    · cases h
    · next hrange =>
      simp only [Bool.or_eq_true, decide_eq_true_eq, not_or] at hrange
      dsimp only
      omega

theorem resolveInstruction_error {labels : List Label} {i : Instruction} {e : AssemblerError}
    (h : resolveInstruction labels i = .error e) : ¬ Resolves labels i ∧ e = refusalError labels i := by
  refine ⟨fun hr => ?_, ?_⟩
  · obtain ⟨i', hi'⟩ := resolveInstruction_ok_of_resolves hr
    exact Except.noConfusion (h.symm.trans hi')
  obtain ⟨op, val, ref, n, addr⟩ := i
  rcases ref with _ | _ | ⟨c, cs⟩
  · cases h
  · cases h
  simp only [resolveInstruction, refusalError, Option.getD_some] at h ⊢
  rcases hl : findLabel labels (upper (c :: cs)) with _ | l <;> rw [hl] at h <;> dsimp only at h ⊢
  · exact (Except.error.inj h).symm
  by_cases hrel : op.isRelative = true
  · rw [if_pos hrel] at h
    by_cases hr : (decide (l.address - (addr + 2) < -128) || decide (l.address - (addr + 2) > 127)) = true
    · rw [if_pos hr] at h; exact (Except.error.inj h).symm
    · rw [if_neg hr] at h; cases h
  · rw [if_neg hrel] at h; cases h

/-- An instruction pass 2 refuses gets the error `refusalError`. -/
theorem resolveInstruction_of_not_resolves {labels : List Label} {i : Instruction}
    (h : ¬ Resolves labels i) : resolveInstruction labels i = .error (refusalError labels i) := by
  cases hr : resolveInstruction labels i with
  | ok i' => exact absurd (resolves_of_ok hr) h
  | error e => rw [(resolveInstruction_error hr).2]

/-! ## The pass -/

theorem mapM_eq_error {α β ε : Type} {f : α → Except ε β} {as : List α} {e : ε}
    (h : as.mapM f = .error e) :
    ∃ pre a post, as = pre ++ a :: post ∧ (∀ x ∈ pre, ∃ y, f x = .ok y) ∧ f a = .error e := by
  induction as with
  | nil => cases h
  | cons a as ih =>
    rw [List.mapM_cons] at h
    cases ha : f a with
    | error e' =>
      rw [ha, except_error_bind] at h
      exact ⟨[], a, as, rfl, by simp, by rw [ha, Except.error.inj h]⟩
    | ok b =>
      rw [ha, except_ok_bind] at h
      cases hs : as.mapM f with
      | error e' =>
        rw [hs] at h
        obtain ⟨pre, x, post, rfl, hpre, hx⟩ := ih (by rw [hs]; exact h)
        refine ⟨a :: pre, x, post, rfl, fun y hy => ?_, hx⟩
        rcases List.mem_cons.1 hy with rfl | hy
        · exact ⟨b, ha⟩
        · exact hpre y hy
      | ok bs => rw [hs] at h; cases h

theorem mapM_forall_ok {α β ε : Type} {f : α → Except ε β} {as : List α} {bs : List β}
    (h : as.mapM f = .ok bs) : ∀ x ∈ as, ∃ y, f x = .ok y := by
  induction as generalizing bs with
  | nil => simp
  | cons a as ih =>
    rw [List.mapM_cons] at h
    cases ha : f a with
    | error e => rw [ha] at h; cases h
    | ok b =>
      rw [ha, except_ok_bind] at h
      cases hs : as.mapM f with
      | error e => rw [hs] at h; cases h
      | ok bs' =>
        intro x hx
        rcases List.mem_cons.1 hx with rfl | hx
        · exact ⟨b, ha⟩
        · exact ih hs x hx

theorem mapM_ok_of_forall {α β ε : Type} {f : α → Except ε β} {as : List α}
    (h : ∀ x ∈ as, ∃ y, f x = .ok y) : ∃ bs, as.mapM f = .ok bs := by
  induction as with
  | nil => exact ⟨[], rfl⟩
  | cons a as ih =>
    obtain ⟨b, hb⟩ := h a (List.mem_cons_self _ _)
    obtain ⟨bs, hbs⟩ := ih fun x hx => h x (List.mem_cons_of_mem _ hx)
    exact ⟨b :: bs, by rw [List.mapM_cons, hb, except_ok_bind, hbs]; rfl⟩

theorem mapM_error_of_first {α β ε : Type} {f : α → Except ε β} {pre post : List α} {a : α}
    {e : ε} (hpre : ∀ x ∈ pre, ∃ y, f x = .ok y) (ha : f a = .error e) :
    (pre ++ a :: post).mapM f = .error e := by
  induction pre with
  | nil => rw [List.nil_append, List.mapM_cons, ha]; rfl
  | cons x pre ih =>
    obtain ⟨y, hy⟩ := hpre x (List.mem_cons_self _ _)
    rw [List.cons_append, List.mapM_cons, hy, except_ok_bind,
      ih fun z hz => hpre z (List.mem_cons_of_mem _ hz)]
    rfl

theorem resolveEntry_error {labels : List Label} {ep : EntryPoint} {e : AssemblerError} :
    resolveEntry labels ep = .error e ↔
      ∃ name, ep = .label name ∧ findLabel labels name = none ∧ e = ⟨.undefinedEntry name, 0, []⟩ := by
  cases ep with
  | num v => simp [resolveEntry]
  | label name => cases hl : findLabel labels name <;> simp [resolveEntry, hl, eq_comm]

theorem resolveLabels_error_cases {s : Assembler} {e : AssemblerError}
    (h : resolveLabels s = .error e) :
    (∃ pre i post, s.instructions = pre ++ i :: post ∧ (∀ j ∈ pre, Resolves s.labels j) ∧
        ¬ Resolves s.labels i ∧ e = refusalError s.labels i) ∨
      ((∀ i ∈ s.instructions, Resolves s.labels i) ∧
        ∃ name, s.entryPoint = .label name ∧ findLabel s.labels name = none ∧
          e = ⟨.undefinedEntry name, 0, []⟩) := by
  simp only [resolveLabels, except_bind_eq_error] at h
  rcases h with hm | ⟨is, hm, he | ⟨_, -, hp⟩⟩
  · obtain ⟨pre, i, post, hs, hpre, hi⟩ := mapM_eq_error hm
    exact .inl ⟨pre, i, post, hs, fun j hj => resolves_of_ok (hpre j hj).choose_spec,
      resolveInstruction_error hi⟩
  · exact .inr ⟨fun i hi => resolves_of_ok (mapM_forall_ok hm i hi).choose_spec,
      resolveEntry_error.1 he⟩
  · cases hp

/-- **Pass 2 reports the first instruction it cannot resolve.** For every state pass 1
can leave, `resolve_labels` raises `e` exactly when: some instruction does not resolve
(its label, upper-cased, is no label of the whole source, or a relative branch to it
does not fit a signed byte), every instruction before it does, and `e` is the error
for that instruction at its line; or every instruction resolves and `e` is
`Undefined entry point label` for an `.ENTRY` label no line defines. -/
theorem resolveLabels_error (s : Assembler) (e : AssemblerError) :
    resolveLabels s = .error e ↔
      (∃ pre i post, s.instructions = pre ++ i :: post ∧ (∀ j ∈ pre, Resolves s.labels j) ∧
          ¬ Resolves s.labels i ∧ e = refusalError s.labels i) ∨
        ((∀ i ∈ s.instructions, Resolves s.labels i) ∧
          ∃ name, s.entryPoint = .label name ∧ findLabel s.labels name = none ∧
            e = ⟨.undefinedEntry name, 0, []⟩) := by
  refine ⟨resolveLabels_error_cases, ?_⟩
  rintro (⟨pre, i, post, hs, hpre, hi, rfl⟩ | ⟨hall, name, he, hl, rfl⟩)
  · rw [resolveLabels, hs, mapM_error_of_first (fun j hj => resolveInstruction_ok_of_resolves
      (hpre j hj)) (resolveInstruction_of_not_resolves hi)]
    rfl
  · obtain ⟨is, his⟩ := mapM_ok_of_forall fun i hi => resolveInstruction_ok_of_resolves (hall i hi)
    rw [resolveLabels, his, except_ok_bind, resolveEntry_error.2 ⟨name, he, hl, rfl⟩]
    rfl

theorem parseOperand_error {o : List Char} {n : Nat} {e : AssemblerError}
    (h : parseOperand o n = .error e) : e.lineNum = n := by
  simp only [parseOperand] at h
  repeat' split at h
  all_goals cases h <;> rfl

theorem lineOperand_error {m o line : List Char} {n size : Nat} {e : AssemblerError}
    (h : lineOperand m o line n size = .error (.asm e)) : e.lineNum = n := by
  simp only [lineOperand] at h
  split at h
  · split at h
    · cases h; rfl
    · cases hp : parseOperand o n with
      | ok _ => rw [hp] at h; cases h
      | error e' => rw [hp] at h; cases h; exact parseOperand_error hp
  · split at h
    · cases h; rfl
    · cases h

/-- An `AssemblerError` of a statement is at the statement's line; a `.DB` value raises a
`ValueError` only. -/
theorem readStatement_error {line : List Char} {n : Nat} {e : AssemblerError}
    (h : readStatement line n = .error (.asm e)) : e.lineNum = n := by
  simp only [readStatement] at h
  split at h
  · simp only [readDirective] at h
    repeat' split at h
    all_goals first
      | (cases h <;> rfl)
      | (obtain ⟨_, v, _, -, -, hv⟩ := mapM_eq_error (except_map_eq_error.1 h)
         revert hv; cases parseNumber (strip v) <;> intro hv <;> cases hv)
  · split at h
    · cases h; rfl
    · exact lineOperand_error (except_map_eq_error.1 h)

theorem parseLine_error {s : Assembler} {raw : List Char} {n : Nat} {e : AssemblerError}
    (h : parseLine s raw n = .error (.asm e)) : e.lineNum = n := by
  simp only [parseLine] at h
  split at h
  · cases h
  split at h
  · split at h
    · cases h; rfl
    split at h
    · cases h
    · rw [parseStatement_eq] at h; exact readStatement_error (except_map_eq_error.1 h)
  · rw [parseStatement_eq] at h; exact readStatement_error (except_map_eq_error.1 h)

/-- The label a source line defines, upper-cased as pass 1 keys its table: the `name:` at
the start of the line without its comment. -/
def definedLabel (raw : List Char) : Option (List Char) :=
  (matchLabel (strip (beforeSemicolon raw))).map fun p => upper p.1

theorem applyEvents_labels_mono {s : Assembler} {evs : List Event} {l : Label}
    (h : l ∈ s.labels) : l ∈ (applyEvents s evs).labels := by
  induction evs generalizing s with
  | nil => exact h
  | cons e evs ih =>
    cases e with
    | label n m => exact ih (List.mem_append_left _ h)
    | _ => exact ih h

theorem mem_applyEvents_labels {s : Assembler} {evs : List Event} {nm : List Char} {m : Nat}
    (h : Event.label nm m ∈ evs) : ∃ l ∈ (applyEvents s evs).labels, l.name = nm := by
  induction evs generalizing s with
  | nil => cases h
  | cons e evs ih =>
    rcases List.mem_cons.1 h with rfl | h
    · exact ⟨⟨nm, s.currentAddress, m⟩, @applyEvents_labels_mono (applyEvent s (.label nm m)) evs _
        (List.mem_append_right _ (List.mem_singleton_self _)), rfl⟩
    · exact ih h

theorem definedLabel_some {raw nm : List Char} (h : definedLabel raw = some nm) :
    ∃ name rest, matchLabel (strip (beforeSemicolon raw)) = some (name, rest) ∧ nm = upper name ∧
      (strip (beforeSemicolon raw)).isEmpty = false := by
  obtain ⟨⟨name, rest⟩, hm, rfl⟩ := Option.map_eq_some'.1 h
  refine ⟨name, rest, hm, rfl, ?_⟩
  cases hs : strip (beforeSemicolon raw) with
  | nil => rw [hs] at hm; cases hm
  | cons => rfl

theorem readLine_label {raw : List Char} {n : Nat} {evs : List Event} {nm : List Char}
    (h : readLine raw n = .ok evs) (hd : definedLabel raw = some nm) : Event.label nm n ∈ evs := by
  obtain ⟨name, rest, hm, rfl, hne⟩ := definedLabel_some hd
  simp only [readLine, hne, Bool.false_eq_true, if_false, hm] at h
  split at h
  · cases h; exact List.mem_singleton_self _
  · obtain ⟨evs', -, rfl⟩ := except_map_eq_ok.1 h; exact List.mem_cons_self _ _

theorem parseLine_duplicate {s : Assembler} {raw : List Char} {n : Nat} {nm : List Char}
    (hd : definedLabel raw = some nm) (hdef : ∃ l ∈ s.labels, l.name = nm) :
    parseLine s raw n = .error (.asm ⟨.duplicateLabel nm, n, strip (beforeSemicolon raw)⟩) := by
  obtain ⟨name, rest, hm, rfl, hne⟩ := definedLabel_some hd
  obtain ⟨l, hl, hname⟩ := hdef
  have hany : s.labels.any (·.name == upper name) = true :=
    List.any_eq_true.2 ⟨l, hl, by simp [hname]⟩
  simp only [parseLine, hne, Bool.false_eq_true, if_false, hm, hany, if_true]

/-- Pass 1 raises at a label line whose name its table already holds, or at a line
before it. -/
theorem parseLines_duplicate {nm lj : List Char} {j : Nat} (hj : definedLabel lj = some nm)
    (s : Assembler) (pre post : List (Nat × List Char))
    (hdef : (∃ l ∈ s.labels, l.name = nm) ∨ ∃ p ∈ pre, definedLabel p.2 = some nm) :
    ∃ e, parseLines s (pre ++ (j, lj) :: post) = .error e ∧
      (e = ⟨.duplicateLabel nm, j, strip (beforeSemicolon lj)⟩ ∨ ∃ p ∈ pre, e.lineNum = p.1) := by
  induction pre generalizing s with
  | nil =>
    refine ⟨_, ?_, .inl rfl⟩
    rw [List.nil_append, parseLines, parseLine_duplicate hj (hdef.resolve_right (by simp))]
  | cons p pre ih =>
    obtain ⟨n, li⟩ := p
    rw [List.cons_append, parseLines]
    cases h1 : parseLine s li n with
    | ok s1 =>
      have hdef1 : (∃ l ∈ s1.labels, l.name = nm) ∨ ∃ p ∈ pre, definedLabel p.2 = some nm := by
        obtain ⟨evs, hr, rfl, -⟩ := parseLine_ok h1
        rcases hdef with ⟨l, hl, hn⟩ | ⟨p, hp, hpd⟩
        · exact .inl ⟨l, applyEvents_labels_mono hl, hn⟩
        · rcases List.mem_cons.1 hp with rfl | hp
          · exact .inl (mem_applyEvents_labels (readLine_label hr hpd))
          · exact .inr ⟨p, hp, hpd⟩
      obtain ⟨e, he, hdup | ⟨p, hp, hpl⟩⟩ := ih s1 hdef1
      · exact ⟨e, he, .inl hdup⟩
      · exact ⟨e, he, .inr ⟨p, List.mem_cons_of_mem _ hp, hpl⟩⟩
    | error err =>
      cases err with
      | asm e => exact ⟨e, rfl, .inr ⟨(n, li), List.mem_cons_self _ _, parseLine_error h1⟩⟩
      | value v => exact ⟨_, rfl, .inr ⟨(n, li), List.mem_cons_self _ _, rfl⟩⟩

/-- `enumerate` numbers lines in increasing order. -/
theorem pairwise_enumFrom_fst {α : Type} (k : Nat) (l : List α) :
    (l.enumFrom k).Pairwise fun a b => a.1 < b.1 := by
  induction l generalizing k with
  | nil => exact List.Pairwise.nil
  | cons x l ih => exact List.Pairwise.cons (fun _ hp => List.le_fst_of_mem_enumFrom hp) (ih (k + 1))

/-- **A label defined twice is refused.** For every source in which line `j` defines a
label that an earlier line `i` defines too (names compared upper-cased), `assemble`
raises: `Duplicate label` with that name at line `j`, or an error at a line before
`j`. -/
theorem assemble_duplicate_label (source : List Char) (i j : Nat) (li lj nm : List Char)
    (hij : i < j) (hi : (i, li) ∈ (splitlines source).enumFrom 1)
    (hj : (j, lj) ∈ (splitlines source).enumFrom 1)
    (hli : definedLabel li = some nm) (hlj : definedLabel lj = some nm) :
    ∃ e, assemble source = .error e ∧
      (e = ⟨.duplicateLabel nm, j, strip (beforeSemicolon lj)⟩ ∨ e.lineNum < j) := by
  obtain ⟨pre, post, hsplit⟩ := List.append_of_mem hj
  have hord := pairwise_enumFrom_fst 1 (splitlines source)
  rw [hsplit, List.pairwise_append] at hord
  have hipre : (i, li) ∈ pre := by
    rw [hsplit] at hi
    rcases List.mem_append.1 hi with h | h
    · exact h
    rcases List.mem_cons.1 h with h | h
    · cases h; omega
    · have := List.rel_of_pairwise_cons hord.2.1 h; dsimp only at this; omega
  obtain ⟨e, he, hcase⟩ := parseLines_duplicate hlj {} pre post (.inr ⟨(i, li), hipre, hli⟩)
  refine ⟨e, by rw [assemble, hsplit, he]; rfl, ?_⟩
  rcases hcase with rfl | ⟨p, hp, hpl⟩
  · exact .inl rfl
  · exact .inr (hpl ▸ hord.2.2 p hp (j, lj) (List.mem_cons_self _ _))

/-- `L` defined again as `l` on line 2. -/
theorem assemble_duplicate_label_case :
    (1 < 2 ∧ (1, "L: NOP".toList) ∈ (splitlines "L: NOP\nl: HALT".toList).enumFrom 1 ∧
        (2, "l: HALT".toList) ∈ (splitlines "L: NOP\nl: HALT".toList).enumFrom 1 ∧
        definedLabel "L: NOP".toList = some "L".toList ∧
        definedLabel "l: HALT".toList = some "L".toList) ∧
      ∃ e, assemble "L: NOP\nl: HALT".toList = .error e ∧
        (e = ⟨.duplicateLabel "L".toList, 2, strip (beforeSemicolon "l: HALT".toList)⟩ ∨
          e.lineNum < 2) :=
  ⟨⟨by decide, by decide, by decide, by decide, by decide⟩,
    assemble_duplicate_label "L: NOP\nl: HALT".toList 1 2 "L: NOP".toList "l: HALT".toList
      "L".toList (by decide) (by decide) (by decide) (by decide) (by decide)⟩

end Zplc
