/-
Which values `assemble` and `create_zplc_file` check. A source is accepted
exactly when pass 1 accepts it and every instruction resolves
(`assemble_accepted_iff`): pass 2 refuses an undefined label and a relative
branch to a label more than a signed byte away, and nothing else. So every
operand, literal or label address, is written modulo `2 ^ (8 * width)`
(`emit_bytecode`'s `& 0xFF`, `& 0xFFFF`, `& 0xFFFFFFFF`), a literal of any size
included (`assemble_operand_line`), and the entry point goes to `struct.pack`,
which raises `struct.error`, not `AssemblerError`, when it is outside
`[0, 65535]`.
-/
import Zplc.Asm.Cursor
import Zplc.Asm.Module
import Zplc.Asm.Refusal
import Zplc.Asm.Literal

namespace Zplc

open Py

end Zplc
