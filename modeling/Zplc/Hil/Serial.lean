/-
The serial port as `zplc_tester.py` drives it. A host procedure is a
`Serial` program of the four things it does with the port: discard what has
arrived (`while self.ser.in_waiting: self.ser.read(...)`, and
`reset_input_buffer`), write a line, or read until a text has arrived or the
time is up (the loop of `send`, and the capture window of
`start_and_capture`). Printing and sleeping do nothing to the port and are
left out; time is left to the device: a read returns whatever the device has
sent by then.

`Serial.exec` runs a procedure against a device whose successive responses
are given: the lines written, the result, and how many responses were read.
Each procedure gets one lemma that says what it writes and reads
(`exec_send`, `exec_sendUntilOk`), and `exec_bind` chains them.
-/
import Zplc.Python.Struct

namespace Zplc.Hil

open Py

/-- A host procedure over the serial port. -/
inductive Serial (α : Type) where
  | done (a : α)
  /-- Discard the input that has arrived. -/
  | drain (next : Serial α)
  /-- `self.ser.write(data)`. -/
  | write (data : List Char) (next : Serial α)
  /-- Read until `waitFor` is in what was read, or until the time is up (with
  `waitFor = none`, for the whole window): the text read. -/
  | recv (waitFor : Option (List Char)) (next : List Char → Serial α)

namespace Serial

variable {α β : Type}

def bind : Serial α → (α → Serial β) → Serial β
  | done a, f => f a
  | drain p, f => drain (p.bind f)
  | write d p, f => write d (p.bind f)
  | recv w k, f => recv w fun r => (k r).bind f

instance : Monad Serial where
  pure := done
  bind := bind

/-- What a run shows: the lines written, in order, the result, and how many responses
were read. -/
structure Outcome (α : Type) where
  writes : List (List Char)
  result : α
  used : Nat

/-- The responses from the `n`-th on. -/
def shift (resp : Nat → List Char) (n : Nat) : Nat → List Char := fun i => resp (n + i)

/-- The run of `p` against a device whose successive responses are `resp 0`, `resp 1`,
and so on. -/
def exec : Serial α → (Nat → List Char) → Outcome α
  | done a, _ => ⟨[], a, 0⟩
  | drain p, resp => p.exec resp
  | write d p, resp => let o := p.exec resp; ⟨d :: o.writes, o.result, o.used⟩
  | recv _ k, resp => let o := (k (resp 0)).exec (shift resp 1); ⟨o.writes, o.result, o.used + 1⟩

@[simp] theorem shift_zero (resp : Nat → List Char) : shift resp 0 = resp := by
  funext i; simp [shift]

@[simp] theorem shift_shift (resp : Nat → List Char) (m n : Nat) :
    shift (shift resp m) n = shift resp (m + n) := by
  funext i; simp [shift, Nat.add_assoc]

@[simp] theorem shift_apply (resp : Nat → List Char) (n i : Nat) : shift resp n i = resp (n + i) :=
  rfl

@[simp] theorem exec_done (a : α) (resp : Nat → List Char) : (done a).exec resp = ⟨[], a, 0⟩ := rfl

@[simp] theorem exec_pure (a : α) (resp : Nat → List Char) :
    (pure a : Serial α).exec resp = ⟨[], a, 0⟩ := rfl

@[simp] theorem exec_drain (p : Serial α) (resp : Nat → List Char) :
    (drain p).exec resp = p.exec resp := rfl

@[simp] theorem exec_write (d : List Char) (p : Serial α) (resp : Nat → List Char) :
    (write d p).exec resp = ⟨d :: (p.exec resp).writes, (p.exec resp).result, (p.exec resp).used⟩ :=
  rfl

@[simp] theorem exec_recv (w : Option (List Char)) (k : List Char → Serial α)
    (resp : Nat → List Char) :
    (recv w k).exec resp =
      ⟨((k (resp 0)).exec (shift resp 1)).writes, ((k (resp 0)).exec (shift resp 1)).result,
        ((k (resp 0)).exec (shift resp 1)).used + 1⟩ := rfl

/-- **A sequence runs as its first part, then the rest on the responses left.** -/
theorem exec_bind (p : Serial α) (f : α → Serial β) (resp : Nat → List Char) :
    (p >>= f).exec resp =
      ⟨(p.exec resp).writes ++ ((f (p.exec resp).result).exec (shift resp (p.exec resp).used)).writes,
        ((f (p.exec resp).result).exec (shift resp (p.exec resp).used)).result,
        (p.exec resp).used + ((f (p.exec resp).result).exec (shift resp (p.exec resp).used)).used⟩ := by
  show (p.bind f).exec resp = _
  induction p generalizing resp with
  | done a => simp [bind]
  | drain p ih => simp [bind, ih]
  | write d p ih => simp [bind, ih]
  | recv w k ih => simp [bind, ih, Nat.add_right_comm, Nat.add_comm 1]

end Serial

/-! ## The port's operations as the tester uses them -/

open Serial

/-- `while self.ser.in_waiting: self.ser.read(...)`, and `reset_input_buffer()`. -/
def drainInput : Serial Unit := .drain (.done ())

def writeLine (data : List Char) : Serial Unit := .write data (.done ())

/-- `send(cmd, wait_for, timeout)`: drain, write the command and `\r\n`, read until
`wait_for` (the prompt by default) or the timeout; the text read. The timeout is the
device's part: the response is what it has sent by then. -/
def send (cmd : List Char) (waitFor : List Char := "zplc:~$".toList) : Serial (List Char) :=
  .drain (.write (cmd ++ "\r\n".toList) (.recv (some waitFor) .done))

/-- `"OK:" in resp`. -/
def okIn (resp : List Char) : Bool := strContains resp "OK:".toList

/-- The retry loops of `upload_bytecode`: up to `attempts` times, drain the input and
`send` the command waiting for `OK:`, until a response holds `OK:`; whether one did
(the `for`'s `break`, or its `else`). -/
def sendUntilOk (cmd : List Char) : Nat → Serial Bool
  | 0 => pure false
  | n + 1 => do
    drainInput
    let resp ← send cmd "OK:".toList
    if okIn resp then pure true else sendUntilOk cmd n

@[simp] theorem exec_drainInput (resp : Nat → List Char) : drainInput.exec resp = ⟨[], (), 0⟩ :=
  rfl

@[simp] theorem exec_writeLine (d : List Char) (resp : Nat → List Char) :
    (writeLine d).exec resp = ⟨[d], (), 0⟩ := rfl

/-- `send` writes its command line and reads one response. -/
@[simp] theorem exec_send (cmd w : List Char) (resp : Nat → List Char) :
    (send cmd w).exec resp = ⟨[cmd ++ "\r\n".toList], resp 0, 1⟩ := rfl

/-- The first `n` responses. -/
def responses (resp : Nat → List Char) : Nat → List (List Char)
  | 0 => []
  | n + 1 => resp 0 :: responses (shift resp 1) n

@[simp] theorem responses_zero (resp : Nat → List Char) : responses resp 0 = [] := rfl

@[simp] theorem length_responses (resp : Nat → List Char) (n : Nat) :
    (responses resp n).length = n := by
  induction n generalizing resp <;> simp [responses, *]

/-- The attempts of a command sent until `OK:` as the responses they got: at least one
and at most `n`, none but the last holding `OK:`, and `n` of them if none does. -/
def Attempts (n : Nat) (rs : List (List Char)) : Prop :=
  rs ≠ [] ∧ rs.length ≤ n ∧ (∀ r ∈ rs.dropLast, okIn r = false) ∧
    (rs.any okIn = false → rs.length = n)

theorem exec_sendUntilOk_succ (cmd : List Char) (n : Nat) (resp : Nat → List Char) :
    (sendUntilOk cmd (n + 1)).exec resp =
      if okIn (resp 0) then ⟨[cmd ++ "\r\n".toList], true, 1⟩
      else
        ⟨(cmd ++ "\r\n".toList) :: ((sendUntilOk cmd n).exec (shift resp 1)).writes,
          ((sendUntilOk cmd n).exec (shift resp 1)).result,
          ((sendUntilOk cmd n).exec (shift resp 1)).used + 1⟩ := by
  simp only [sendUntilOk, exec_bind, exec_drainInput, exec_send, shift_zero]
  by_cases h : okIn (resp 0) <;> simp [h, Nat.add_comm 1]

/-- **A command sent until `OK:`**: it is written once per attempt, the attempts are
the responses read, and it is acknowledged exactly when one of them holds `OK:`. -/
theorem exec_sendUntilOk (cmd : List Char) {n : Nat} (hn : 0 < n) (resp : Nat → List Char) :
    ((sendUntilOk cmd n).exec resp).writes =
        List.replicate ((sendUntilOk cmd n).exec resp).used (cmd ++ "\r\n".toList) ∧
      Attempts n (responses resp ((sendUntilOk cmd n).exec resp).used) ∧
      ((sendUntilOk cmd n).exec resp).result =
        (responses resp ((sendUntilOk cmd n).exec resp).used).any okIn := by
  induction n generalizing resp with
  | zero => contradiction
  | succ n ih =>
    rw [exec_sendUntilOk_succ]
    split
    · next hok => simp [responses, Attempts, hok]
    · next hok =>
      rcases Nat.eq_zero_or_pos n with rfl | hpos
      · simp [sendUntilOk, responses, Attempts, hok]
      · obtain ⟨hw, ⟨hne, hle, hlast, hall⟩, hres⟩ := ih hpos (shift resp 1)
        refine ⟨by simp [hw, List.replicate_succ], ⟨by simp [responses], by simpa [responses] using hle,
          ?_, ?_⟩, by simp [responses, hok, hres]⟩
        · rw [responses, List.dropLast_cons_of_ne_nil hne]
          simpa [hok] using hlast
        · simpa [responses, hok] using hall

end Zplc.Hil
