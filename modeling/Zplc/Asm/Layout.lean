/-
Where pass 1 puts things, said the spec's way. The spec places the
instructions one after the other (`layout`: the first at the start address,
each next one `1 + width` bytes on) and gives a label the address of the
first instruction at or after its definition, or the end of the code
(`labelTable`). Pass 1 does this with a running cursor. For events that
neither set nor skip the cursor (no `.ORG`, `.DB`, `.BYTE`), the two agree
(`applyEvents_layout`).
-/
import Zplc.Asm.Reading

namespace Zplc

/-- `.ORG` sets the cursor and `.DB`/`.BYTE` move it without an instruction. -/
def Event.movesCursor : Event → Bool
  | .org _ | .defineBytes _ => true
  | _ => false

/-- The instructions of `evs` as the spec places them, the first at `a`. -/
def layout (a : Int) : List Event → List Instruction
  | [] => []
  | .instr op val ref n :: rest => ⟨op, val, ref, n, a⟩ :: layout (a + (1 + op.operandSize)) rest
  | _ :: rest => layout a rest

/-- The address after the last instruction of `evs`, when the first is at `a`. -/
def codeEnd (a : Int) : List Event → Int
  | [] => a
  | .instr op _ _ _ :: rest => codeEnd (a + (1 + op.operandSize)) rest
  | _ :: rest => codeEnd a rest

/-- The spec's label addresses: that of the first instruction at or after the label's
definition, or the end of the code if there is none. -/
def labelTable (a : Int) : List Event → List (List Char × Int)
  | [] => []
  | .label name _ :: rest =>
    (name, ((layout a rest).head?.map (·.address)).getD (codeEnd a rest)) :: labelTable a rest
  | .instr op _ _ _ :: rest => labelTable (a + (1 + op.operandSize)) rest
  | _ :: rest => labelTable a rest

/-- A label's name and address, as `resolve_labels` reads them. -/
def Label.entry (l : Label) : List Char × Int := (l.name, l.address)

/-- The instructions follow one another from `a`. -/
def Consecutive : Int → List Instruction → Prop
  | _, [] => True
  | a, i :: is => i.address = a ∧ Consecutive (a + (1 + i.opcode.operandSize)) is

theorem consecutive_layout (a : Int) (evs : List Event) : Consecutive a (layout a evs) := by
  induction evs generalizing a with
  | nil => trivial
  | cons e evs ih => cases e <;> simp [layout, Consecutive, ih]

/-- Without cursor moves, the first instruction after a point is at the running address. -/
theorem layout_head_address (a : Int) {evs : List Event} (h : ∀ e ∈ evs, e.movesCursor = false) :
    ((layout a evs).head?.map (·.address)).getD (codeEnd a evs) = a := by
  induction evs with
  | nil => rfl
  | cons e evs ih =>
    have he := h e (List.mem_cons_self _ _)
    have hrest := ih fun e' h' => h e' (List.mem_cons_of_mem _ h')
    cases e with
    | instr => rfl
    | org => cases he
    | defineBytes => cases he
    | label => exact hrest
    | entry => exact hrest

/-- **Pass 1 places instructions and labels as the spec does**, when nothing moves the
cursor but instructions. -/
theorem applyEvents_layout (s : Assembler) {evs : List Event}
    (h : ∀ e ∈ evs, e.movesCursor = false) :
    (applyEvents s evs).instructions = s.instructions ++ layout s.currentAddress evs ∧
      (applyEvents s evs).labels.map Label.entry =
        s.labels.map Label.entry ++ labelTable s.currentAddress evs := by
  induction evs generalizing s with
  | nil => simp [layout, labelTable]
  | cons e evs ih =>
    have hrest : ∀ e ∈ evs, e.movesCursor = false := fun e he => h e (by simp [he])
    obtain ⟨h1, h2⟩ := ih (applyEvent s e) hrest
    have he := h e (by simp)
    cases e with
    | label name n =>
      refine ⟨by simpa [applyEvent, layout] using h1, ?_⟩
      rw [applyEvents_cons, h2]
      simp [applyEvent, labelTable, layout_head_address _ hrest, Label.entry]
    | instr op val ref n => exact ⟨by simpa [applyEvent, layout] using h1, by simpa [applyEvent, labelTable] using h2⟩
    | org v => simp [Event.movesCursor] at he
    | entry e => exact ⟨by simpa [applyEvent, layout] using h1, by simpa [applyEvent, labelTable] using h2⟩
    | defineBytes k => simp [Event.movesCursor] at he

end Zplc
