import Zplc.Python.Text
import Zplc.Python.Int
import Zplc.Python.Struct
import Zplc.Isa
import Zplc.Asm.Assembler
import Zplc.Asm.Emit
import Zplc.Asm.Disasm
import Zplc.Asm.Module
import Zplc.Asm.Reading
import Zplc.Asm.Layout
import Zplc.Asm.Refusal
import Zplc.Asm.Literal
import Zplc.Asm.RoundTrip
import Zplc.Asm.Cursor
import Zplc.Asm.Range
import Zplc.Hil.Serial
import Zplc.Hil.Capture
import Zplc.Hil.Peek
import Zplc.Hil.Tester
import Zplc.Hil.Upload
import Zplc.Hil.Session
import Zplc.Hil.Poke
import Zplc.Hil.Memory
import Zplc.Hil.Lines
