/-
Pass 1's address cursor against the bytes `emit_bytecode` writes. The code
is the instructions' encodings back to back, so an instruction's offset in
it is the size of those before it. Pass 1's addresses match that, up to the
origin `o`, while the only cursor moves are instructions: `.ORG` lines before
the first label and instruction set `o`, and after that neither `.ORG` nor
`.DB`/`.BYTE` may come (`assemble_cursor_in_step`). A `.DB` value moves the
cursor one byte on and is never written, though the directive's branch says it
is stored for pass 2 to handle, so with it the two part (`assemble_db_gap`).
-/
import Zplc.Asm.RoundTrip

namespace Zplc

open Py

/-- `.ORG` and `.ENTRY`: the lines that place nothing. -/
def Event.placesNothing : Event → Bool
  | .org _ | .entry _ => true
  | _ => false

theorem applyEvents_placesNothing (s : Assembler) {evs : List Event}
    (h : ∀ e ∈ evs, e.placesNothing = true) :
    (applyEvents s evs).instructions = s.instructions ∧ (applyEvents s evs).labels = s.labels := by
  induction evs generalizing s with
  | nil => exact ⟨rfl, rfl⟩
  | cons e evs ih =>
    obtain ⟨h1, h2⟩ := ih (applyEvent s e) fun e' he' => h e' (List.mem_cons_of_mem _ he')
    have he : (applyEvent s e).instructions = s.instructions ∧ (applyEvent s e).labels = s.labels := by
      have := h e (List.mem_cons_self _ _)
      cases e <;> first | exact ⟨rfl, rfl⟩ | cases this
    rw [applyEvents_cons, h1, h2]
    exact he

/-! ## Offsets in the emitted code -/

/-- Instructions that follow one another from `a` are emitted at their address less
`a`. -/
theorem consecutive_offset {a : Int} {is : List Instruction} (h : Consecutive a is) :
    ∀ i ∈ is, a ≤ i.address ∧
      encodeInstruction i <+: (is.flatMap encodeInstruction).drop (i.address - a).toNat := by
  induction is generalizing a with
  | nil => simp
  | cons j is ih =>
    intro i hi
    obtain ⟨hj, hc⟩ := h
    rcases List.mem_cons.1 hi with rfl | hi
    · simp [hj, List.prefix_append]
    · obtain ⟨hle, hpre⟩ := ih hc i hi
      have hlen := length_encodeInstruction j
      refine ⟨by omega, ?_⟩
      have hsplit : (i.address - a).toNat =
          (encodeInstruction j).length + (i.address - (a + (1 + j.opcode.operandSize))).toNat := by
        omega
      rw [List.flatMap_cons, hsplit, ← List.drop_drop, List.drop_left]
      exact hpre

theorem codeEnd_eq (a : Int) (evs : List Event) :
    codeEnd a evs = a + ((layout a evs).flatMap encodeInstruction).length := by
  induction evs generalizing a with
  | nil => simp [codeEnd, layout]
  | cons e evs ih =>
    cases e <;> simp only [codeEnd, layout, ih, List.flatMap_cons, List.length_append,
      length_encodeInstruction, Nat.cast_add]
    omega

theorem map_eq_of_forall₂ {α : Type} (f : Instruction → α) {is is' : List Instruction}
    (h : List.Forall₂ (fun i i' => f i' = f i) is is') : is'.map f = is.map f := by
  induction h with
  | nil => rfl
  | cons hf _ ih => simp [hf, ih]

theorem length_flatMap_encode_of_opcodes {is is' : List Instruction}
    (h : List.Forall₂ (fun i i' => i'.opcode = i.opcode) is is') :
    (is'.flatMap encodeInstruction).length = (is.flatMap encodeInstruction).length := by
  induction h with
  | nil => rfl
  | cons hop _ ih => simp [length_encodeInstruction, hop, ih]

/-- **Pass 1's cursor is in step with the emitted code**, for a source whose only
`.ORG` lines come before its first label and instruction and that has no `.DB` or
`.BYTE`. With `o` the cursor those `.ORG` lines leave: every instruction's encoding
stands at offset `addr - o` of the code; the instructions' addresses are the spec's
placement from `o`; every label's address is that of the first instruction at or after
it, or `o` plus the code's length if there is none. -/
theorem assemble_cursor_in_step {S : List Char} {st : Assembler} {code : List UInt8}
    (h : assemble S = .ok (st, code)) :
    ∃ evs, readSource S = .ok evs ∧
      ∀ pre post, evs = pre ++ post → (∀ e ∈ pre, e.placesNothing = true) →
        (∀ e ∈ post, e.movesCursor = false) → ∀ o, (applyEvents {} pre).currentAddress = o →
          (∀ i ∈ st.instructions, o ≤ i.address ∧
            encodeInstruction i <+: code.drop (i.address - o).toNat) ∧
          st.instructions.map (·.address) = (layout o post).map (·.address) ∧
          st.labels.map Label.entry = labelTable o post ∧
          o + code.length = codeEnd o post := by
  obtain ⟨evs, hr, hres, rfl⟩ := assemble_ok h
  refine ⟨evs, hr, fun pre post hsplit hpre hpost o ho => ?_⟩
  subst hsplit
  rw [applyEvents_append] at hres
  obtain ⟨hpi, hpl⟩ := applyEvents_placesNothing {} hpre
  obtain ⟨hi, hl⟩ := applyEvents_layout (applyEvents {} pre) hpost
  rw [hpi, ho] at hi
  rw [hpl, ho] at hl
  simp only [resolveLabels, except_bind_eq_ok, except_pure, Except.ok.injEq] at hres
  obtain ⟨is', hmap, entry, -, rfl⟩ := hres
  have h2 := mapM_ok_forall₂ hmap
  simp only [hi, List.nil_append] at h2
  obtain ⟨hc, -⟩ := resolved_listing h2 (consecutive_layout o post)
  refine ⟨consecutive_offset hc, ?_, by simpa using hl, ?_⟩
  · exact map_eq_of_forall₂ _ (h2.imp fun _ _ hi => (resolveInstruction_ok hi).2.1)
  · rw [codeEnd_eq, emitBytecode,
      length_flatMap_encode_of_opcodes (h2.imp fun _ _ hi => (resolveInstruction_ok hi).1)]

/-- An origin of `0x100`, a label and a backward branch to it. -/
theorem assemble_cursor_in_step_org :
    ∃ st code, assemble ".ORG 0x100\nstart: PUSH8 1\nJR start".toList = .ok (st, code) ∧
      (∀ i ∈ st.instructions, 256 ≤ i.address ∧
        encodeInstruction i <+: code.drop (i.address - 256).toNat) ∧
      st.instructions.map (·.address) = [256, 258] ∧
      st.labels.map Label.entry = [("START".toList, 256)] ∧ (256 : Int) + code.length = 260 := by
  obtain ⟨⟨st, code⟩, hA⟩ : ∃ p, assemble ".ORG 0x100\nstart: PUSH8 1\nJR start".toList = .ok p :=
    ⟨_, rfl⟩
  obtain ⟨evs, hr, hall⟩ := assemble_cursor_in_step hA
  have hevs : evs = [.org 256] ++ [.label "START".toList 2, .instr .PUSH8 (some 1) none 2,
      .instr .JR none (some "start".toList) 3] := Except.ok.inj (hr.symm.trans rfl)
  obtain ⟨h1, h2, h3, h4⟩ := hall _ _ hevs (by decide) (by decide) 256 rfl
  exact ⟨st, code, hA, h1, h2.trans rfl, h3.trans rfl, h4.trans rfl⟩

/-- **A `.DB` value is never written.** After `.DB 7` the cursor is 1, so `NOP` gets
address 1, yet the code is `NOP`'s one byte alone: the `7` that `handle_directive`
says it stores for pass 2 is not in it. -/
theorem assemble_db_gap :
    ∃ st, assemble ".DB 7\nNOP".toList = .ok (st, [0x00]) ∧ st.instructions.map (·.address) = [1] :=
  ⟨_, rfl, rfl⟩

end Zplc
