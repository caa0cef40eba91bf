/-
What the tester writes to the port, line by line: every write is a command
with no line end in it, then `\r\n`, so the device's line reader takes each
command whole. `Serial.SendsLines p` says this of a procedure by its
structure, for every answer it reads; `send` of such a command has it, `>>=`
keeps it (`SendsLines.bind`), and a run writes only such lines
(`SendsLines.exec`).

Every command is built from fixed words, `hex(addr)`, `str(n)` and the hex of
bytes, none of which holds a line end, so every procedure of `ZPLCTester` and
`LanguageTester` has the invariant, for all of its arguments
(`writes_command_lines`).
-/
import Zplc.Hil.Memory

namespace Zplc.Hil

open Py Serial

/-- A procedure that writes only whole command lines, whatever it reads. -/
inductive Serial.SendsLines {α : Type} : Serial α → Prop
  | done (a : α) : SendsLines (.done a)
  | drain {p : Serial α} : SendsLines p → SendsLines (.drain p)
  | write {cmd : List Char} {p : Serial α} :
      NoBreak cmd → SendsLines p → SendsLines (.write (cmd ++ crlf) p)
  | recv {w : Option (List Char)} {k : List Char → Serial α} :
      (∀ r, SendsLines (k r)) → SendsLines (.recv w k)

/-- What a run shows of a procedure with `SendsLines`: each line written is a command
with no line end, then `\r\n`. -/
def WritesLines {α : Type} (o : Outcome α) : Prop :=
  ∀ w ∈ o.writes, ∃ cmd, NoBreak cmd ∧ w = cmd ++ crlf

namespace Serial.SendsLines

variable {α β : Type}

theorem bind {p : Serial α} {f : α → Serial β} (hp : p.SendsLines) (hf : ∀ a, (f a).SendsLines) :
    (p >>= f).SendsLines := by
  induction hp with
  | done a => exact hf a
  | drain _ ih => exact .drain ih
  | write hc _ ih => exact .write hc ih
  | recv _ ih => exact .recv ih

theorem exec {p : Serial α} (hp : p.SendsLines) (resp : Nat → List Char) :
    WritesLines (p.exec resp) := by
  induction hp generalizing resp with
  | done a => exact fun _ h => absurd h (List.not_mem_nil _)
  | drain _ ih => exact ih resp
  | write hc _ ih =>
    intro w hw
    rcases List.mem_cons.1 hw with rfl | hw
    · exact ⟨_, hc, rfl⟩
    · exact ih resp w hw
  | recv _ ih => exact ih _ (shift resp 1)

end Serial.SendsLines

/-! ## The commands -/

theorem NoBreak.cons {c : Char} {s : List Char} (hc : isLineBreak c = false) (hs : NoBreak s) :
    NoBreak (c :: s) :=
  fun d hd => (List.mem_cons.1 hd).elim (fun e => e ▸ hc) (hs d)

theorem noBreak_hexlify (data : List UInt8) : NoBreak (hexlify data) := by
  have hd : ∀ n < 16, isLineBreak (hexDigit n) = false := by decide
  intro c hc
  obtain ⟨b, -, hc⟩ := List.mem_flatMap.1 hc
  have hb := UInt8.toNat_lt_size b
  rcases List.mem_cons.1 hc with rfl | hc
  · exact hd _ (by simp only [UInt8.size] at hb; omega)
  · rw [List.mem_singleton.1 hc]; exact hd _ (Nat.mod_lt _ (by decide))

theorem noBreak_pyHex (n : Int) : NoBreak (pyHex n) :=
  NoBreak.append (by split <;> decide) (noBreak_toDigits (by decide) (by decide) _).1

theorem noBreak_peekCommand (addr : Int) (length : Nat) : NoBreak (peekCommand addr length) :=
  NoBreak.append (NoBreak.append (by decide) (noBreak_pyHex addr))
    (NoBreak.cons (by decide) (noBreak_toString_nat length))

theorem noBreak_pokeCommand (address : Int) (data : List UInt8) :
    NoBreak (pokeCommand address (hexlify data)) :=
  NoBreak.append (NoBreak.append (by decide) (noBreak_pyHex address))
    (NoBreak.cons (by decide) (noBreak_hexlify data))

theorem noBreak_chunk {b : List UInt8} {c : List Char} (h : c ∈ chunks (hexlify b)) : NoBreak c := by
  simp only [chunks, List.mem_map] at h
  obtain ⟨i, -, rfl⟩ := h
  exact fun x hx => noBreak_hexlify b x (((List.take_sublist _ _).trans (List.drop_sublist _ _)).subset hx)

/-! ## The procedures -/

theorem sendsLines_send {cmd : List Char} (h : NoBreak cmd) (w : List Char) :
    (send cmd w).SendsLines :=
  .drain (.write h (.recv fun _ => .done _))

theorem sendsLines_drainInput : drainInput.SendsLines := .drain (.done ())

theorem sendsLines_sendUntilOk {cmd : List Char} (h : NoBreak cmd) :
    ∀ n, (sendUntilOk cmd n).SendsLines
  | 0 => .done _
  | n + 1 => by
    rw [sendUntilOk]
    refine sendsLines_drainInput.bind fun _ => (sendsLines_send h _).bind fun resp => ?_
    split
    · exact .done _
    · exact sendsLines_sendUntilOk h n

theorem sendsLines_sendChunks {cs : List (List Char)} (h : ∀ c ∈ cs, NoBreak c) :
    (sendChunks cs).SendsLines := by
  induction cs with
  | nil => exact .done _
  | cons c cs ih =>
    rw [sendChunks]
    refine (sendsLines_sendUntilOk (NoBreak.append (by decide) (h c (List.mem_cons_self _ _))) 3).bind
      fun ok => ?_
    split
    · exact ih fun d hd => h d (List.mem_cons_of_mem _ hd)
    · exact .done _

theorem sendsLines_resetState : resetState.SendsLines :=
  (sendsLines_send (by decide) _).bind fun _ =>
    (sendsLines_send (by decide) _).bind fun _ => (sendsLines_send (by decide) _).bind fun _ => .done _

theorem sendsLines_uploadBytecode (bytecode : List UInt8) : (uploadBytecode bytecode).SendsLines := by
  refine (sendsLines_send (by decide) _).bind fun _ => (sendsLines_send (by decide) _).bind fun _ =>
    (sendsLines_sendUntilOk (NoBreak.append (by decide) (noBreak_toString_nat _)) 3).bind fun ok => ?_
  split
  · refine (sendsLines_sendChunks fun c hc => noBreak_chunk hc).bind fun ok' => ?_
    split
    · exact (sendsLines_send (fun _ h => absurd h (List.not_mem_nil _)) _).bind fun _ => .done _
    · exact .done _
  · exact .done _

theorem sendsLines_startAndWait : startAndWait.SendsLines :=
  (sendsLines_send (by decide) _).bind fun _ => sendsLines_drainInput.bind fun _ =>
    (sendsLines_send (by decide) _).bind fun _ => (sendsLines_send (by decide) _).bind fun _ => .done _

/-- The one raw write, `self.ser.write(b"zplc start\r\n")`, is the line `zplc start`. -/
theorem sendsLines_writeStart : (writeLine "zplc start\r\n".toList).SendsLines :=
  (Serial.SendsLines.write (by decide) (.done ()) :
    (Serial.write ("zplc start".toList ++ crlf) (.done ()) : Serial Unit).SendsLines)

theorem sendsLines_startAndCapture {α : Type} (loads : List Char → Loaded α)
    (kindOf : α → Option (List Char)) : (startAndCapture loads kindOf).SendsLines :=
  (sendsLines_send (by decide) _).bind fun _ => sendsLines_drainInput.bind fun _ =>
    sendsLines_writeStart.bind fun _ => (Serial.SendsLines.recv fun _ => .done _).bind fun _ => .done _

theorem sendsLines_peek (addr : Int) (length : Nat) : (peek addr length).SendsLines :=
  (sendsLines_send (noBreak_peekCommand addr length) _).bind fun _ => .done _

theorem sendsLines_poke (address value size : Int) : (poke address value size).SendsLines := by
  unfold poke
  split
  · exact .done _
  · exact (sendsLines_send (noBreak_pokeCommand address _) _).bind fun _ => .done _

theorem sendsLines_expectMemory (address : Int) (fmt : IntFormat) (v : Int) :
    (expectMemory address fmt v).SendsLines :=
  (sendsLines_peek _ _).bind fun _ => by split <;> exact .done _

theorem sendsLines_expectBool (address : Int) (k : Nat) (b : Bool) :
    (expectBool address k b).SendsLines :=
  (sendsLines_peek _ _).bind fun _ => by split <;> exact .done _

theorem sendsLines_runBytecode {α : Type} (loads : List Char → Loaded α)
    (kindOf : α → Option (List Char)) (bytecode : List UInt8) (reset : Bool) :
    (runBytecode loads kindOf bytecode reset).SendsLines := by
  have hrest := (sendsLines_uploadBytecode bytecode).bind fun _ => sendsLines_startAndCapture loads kindOf
  cases reset
  · exact hrest
  · exact sendsLines_resetState.bind fun _ => hrest

theorem sendsLines_compileAndRun (bytecode : List UInt8) (reset : Bool) :
    (compileAndRun bytecode reset).SendsLines := by
  have hrest := (sendsLines_uploadBytecode bytecode).bind fun _ => sendsLines_startAndWait
  cases reset
  · exact hrest
  · exact sendsLines_resetState.bind fun _ => hrest

/-- **Every line the tester writes is one whole command.** For all arguments and every
sequence of answers from the device, each line that `run_bytecode` (so `run_st`),
`compile_and_run`, `start_running`, `stop_running`, `peek`, `poke`, `expect_memory`
(so `expect_int16` and `expect_int32`) and `expect_bool` write is a command with no line
end in it, followed by `\r\n`. -/
theorem writes_command_lines {α : Type} (loads : List Char → Loaded α)
    (kindOf : α → Option (List Char)) (bytecode : List UInt8) (reset : Bool)
    (address value size expected : Int) (length bitOffset : Nat) (fmt : IntFormat)
    (expectedBool : Bool) (resp : Nat → List Char) :
    WritesLines ((runBytecode loads kindOf bytecode reset).exec resp) ∧
      WritesLines ((compileAndRun bytecode reset).exec resp) ∧
      WritesLines (startRunning.exec resp) ∧ WritesLines (stopRunning.exec resp) ∧
      WritesLines ((peek address length).exec resp) ∧
      WritesLines ((poke address value size).exec resp) ∧
      WritesLines ((expectMemory address fmt expected).exec resp) ∧
      WritesLines ((expectBool address bitOffset expectedBool).exec resp) :=
  ⟨(sendsLines_runBytecode loads kindOf bytecode reset).exec resp,
    (sendsLines_compileAndRun bytecode reset).exec resp,
    ((sendsLines_send (by decide) _).bind fun _ => sendsLines_drainInput.bind fun _ =>
      (sendsLines_send (by decide) _).bind fun _ => .done _).exec resp,
    ((sendsLines_send (by decide) _).bind fun _ => .done _).exec resp,
    (sendsLines_peek address length).exec resp,
    (sendsLines_poke address value size).exec resp,
    (sendsLines_expectMemory address fmt expected).exec resp,
    (sendsLines_expectBool address bitOffset expectedBool).exec resp⟩

end Zplc.Hil
