/-
The procedures of `ZPLCTester` and `LanguageTester` that talk to the device, as
`Serial` programs: `reset_state`, `upload_bytecode` with its two retry loops,
`start_and_capture`, `start_and_wait`, `peek`, and the callers `run_bytecode`,
`run_st` and `compile_and_run`.

`compile_st` runs an external compiler and touches no port: `run_st` and
`compile_and_run` take the bytecode it returns. Printing and sleeping are left
out. None of these procedures raises on a missing answer: the retry loops'
`else` prints and returns, so a caller goes on whatever the device said.
-/
import Zplc.Hil.Serial
import Zplc.Hil.Capture
import Zplc.Hil.Peek

namespace Zplc.Hil

open Py Serial

/-- `"\r\n"`, the end `send` puts after each command. -/
def crlf : List Char := "\r\n".toList

/-- `zplc load {len(bytecode)}`. -/
def loadCommand (n : Nat) : List Char := "zplc load ".toList ++ (toString n).toList

/-- `zplc data {chunk}`. -/
def dataCommand (chunk : List Char) : List Char := "zplc data ".toList ++ chunk

/-- `chunk_size = 32`: hex characters per `zplc data` line. -/
def chunkSize : Nat := 32

/-- `hex_data[i : i + chunk_size]` for `i` in `range(0, len(hex_data), chunk_size)`. -/
def chunks (hexData : List Char) : List (List Char) :=
  (List.range' 0 ((hexData.length + chunkSize - 1) / chunkSize) chunkSize).map fun i =>
    (hexData.drop i).take chunkSize

/-- `reset_state`. -/
def resetState : Serial Unit := do
  let _ ← send "zplc stop".toList
  let _ ← send "zplc reset".toList
  let _ ← send "zplc persist clear".toList

/-- The chunk loop of `upload_bytecode`: each chunk sent until `OK:`; whether every one
was (the loop ran to its end), or not (a chunk's `else: return`). -/
def sendChunks : List (List Char) → Serial Bool
  | [] => pure true
  | c :: cs => do
    if ← sendUntilOk (dataCommand c) 3 then sendChunks cs else pure false

/-- `upload_bytecode`: stop, reset, the load command until `OK:`, then the chunks of the
hex text, then an empty line. A load or a chunk that gets no `OK:` in three attempts
ends it early, and it returns all the same. -/
def uploadBytecode (bytecode : List UInt8) : Serial Unit := do
  let _ ← send "zplc stop".toList
  let _ ← send "zplc reset".toList
  if ← sendUntilOk (loadCommand bytecode.length) 3 then
    if ← sendChunks (chunks (hexlify bytecode)) then
      let _ ← send []

/-- `start_and_wait`: runtime on without traces, then off. -/
def startAndWait : Serial Unit := do
  let _ ← send "zplc hil mode off".toList
  drainInput
  let _ ← send "zplc start".toList
  let _ ← send "zplc stop".toList

/-- `start_running`: runtime on without traces, not waiting for it to stop. -/
def startRunning : Serial Unit := do
  let _ ← send "zplc hil mode off".toList
  drainInput
  let _ ← send "zplc start".toList

/-- `stop_running`. -/
def stopRunning : Serial Unit := do
  let _ ← send "zplc stop".toList

/-- `compile_and_run` on the bytecode `compile_st` returned. -/
def compileAndRun (bytecode : List UInt8) (reset : Bool) : Serial Unit := do
  if reset then resetState
  uploadBytecode bytecode
  startAndWait

/-- `hex(n)`. -/
def pyHex (n : Int) : List Char :=
  (if n < 0 then "-0x" else "0x").toList ++ Nat.toDigits 16 n.natAbs

/-- `zplc dbg peek {hex(addr)} {length}`. -/
def peekCommand (addr : Int) (length : Nat) : List Char :=
  "zplc dbg peek ".toList ++ pyHex addr ++ ' ' :: (toString length).toList

/-- `peek(addr, length)`. -/
def peek (addr : Int) (length : Nat) : Serial (List Nat) := do
  let resp ← send (peekCommand addr length)
  pure (peekBytes resp length)

section Capture

variable {α : Type} (loads : List Char → Loaded α) (kindOf : α → Option (List Char))

/-- `start_and_capture`: verbose traces on, the input drained, `zplc start`, and the text
of the whole window scanned; the traces, or what `json.loads` raised. -/
def startAndCapture : Serial (Except LoadsError (List α)) := do
  let _ ← send "zplc hil mode verbose".toList
  drainInput
  writeLine "zplc start\r\n".toList
  let text ← .recv none .done
  pure (captureScan loads kindOf text)

/-- `run_bytecode`. -/
def runBytecode (bytecode : List UInt8) (reset : Bool) : Serial (Except LoadsError (List α)) := do
  if reset then resetState
  uploadBytecode bytecode
  startAndCapture loads kindOf

/-- `run_st` on the bytecode `compile_st` returned: the body of `run_bytecode`. -/
def runSt (compiled : List UInt8) (reset : Bool) : Serial (Except LoadsError (List α)) :=
  runBytecode loads kindOf compiled reset

/-- The loop of `get_last_tos` and `get_last_sp`: from the last trace back, the value of
`key` in the first `opcode` trace that has it; `None` if no trace does. -/
def getLast {β : Type} (key : α → Option β) (traces : List α) : Option β :=
  traces.reverse.findSome? fun t => if kindOf t == some "opcode".toList then key t else none

/-- `get_last_tos(traces)`, with `tosOf` reading a trace's `"tos"`. -/
def getLastTos (tosOf : α → Option Int) (traces : List α) : Option Int :=
  getLast kindOf tosOf traces

/-- `get_last_sp(traces)`, with `spOf` reading a trace's `"sp"`. -/
def getLastSp (spOf : α → Option Int) (traces : List α) : Option Int :=
  getLast kindOf spOf traces

end Capture

/-! ## What each procedure writes -/

/-- The lines `reset_state` writes. -/
def resetLines : List (List Char) :=
  ["zplc stop\r\n", "zplc reset\r\n", "zplc persist clear\r\n"].map String.toList

@[simp] theorem exec_resetState (resp : Nat → List Char) :
    resetState.exec resp = ⟨resetLines, (), 3⟩ := rfl

@[simp] theorem exec_startAndWait (resp : Nat → List Char) :
    startAndWait.exec resp =
      ⟨["zplc hil mode off\r\n", "zplc start\r\n", "zplc stop\r\n"].map String.toList, (), 3⟩ :=
  rfl

@[simp] theorem exec_startAndCapture {α : Type} (loads : List Char → Loaded α)
    (kindOf : α → Option (List Char)) (resp : Nat → List Char) :
    (startAndCapture loads kindOf).exec resp =
      ⟨["zplc hil mode verbose\r\n", "zplc start\r\n"].map String.toList,
        captureScan loads kindOf (resp 1), 2⟩ := rfl

@[simp] theorem exec_peek (addr : Int) (length : Nat) (resp : Nat → List Char) :
    (peek addr length).exec resp = ⟨[peekCommand addr length ++ crlf], peekBytes (resp 0) length, 1⟩ :=
  rfl

end Zplc.Hil
