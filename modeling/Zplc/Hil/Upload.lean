/-
What `upload_bytecode` writes and reads against every device. The responses
it reads fall into blocks: one each for `zplc stop` and `zplc reset`, the
attempts of the load command, the attempts of each chunk, and one for the final
empty line. Every block of attempts holds at most three responses, none but its
last holding `OK:`; an acknowledged block is followed by the next command's, and a
block whose attempts all failed is the last one (`UploadTrace`). The lines written
follow from the blocks (`uploadLines`), and an upload that stopped on a failure
ends with that command's three attempts (`UploadTrace.endsOnFailure`).

Nothing here can fail: a load or a chunk that is never acknowledged makes
`upload_bytecode` return early, and `run_bytecode`, `run_st` and
`compile_and_run` go on to start the runtime (`callers_start_after_upload`).
-/
import Zplc.Hil.Tester

namespace Zplc.Hil

open Py Serial

theorem responses_add (resp : Nat → List Char) (m n : Nat) :
    responses resp (m + n) = responses resp m ++ responses (shift resp m) n := by
  induction m generalizing resp with
  | zero => simp [responses]
  | succ m ih => simp [Nat.add_right_comm m 1 n, responses, ih, Nat.add_comm 1]

theorem mem_dropLast_cons {α : Type} {a x : α} {l : List α} (h : x ∈ (a :: l).dropLast) :
    x = a ∨ x ∈ l.dropLast := by
  cases l with
  | nil => simp at h
  | cons b l => simpa [List.dropLast_cons_of_ne_nil] using h

/-! ## Chunks -/

theorem join_range'_chunks (s : List Char) (n k : Nat) :
    ((List.range' k n chunkSize).map fun i => (s.drop i).take chunkSize).flatten =
      (s.drop k).take (chunkSize * n) := by
  induction n generalizing k with
  | zero => simp
  | succ n ih =>
    rw [List.range'_succ, List.map_cons, List.flatten_cons, ih, Nat.mul_succ,
      Nat.add_comm (chunkSize * n), List.take_add, List.drop_drop]

/-- The chunks are the hex text cut into pieces of 32. -/
theorem join_chunks (s : List Char) : (chunks s).flatten = s := by
  rw [chunks, join_range'_chunks, List.drop_zero, List.take_of_length_le]
  simp only [chunkSize]; omega

theorem length_chunks (s : List Char) : (chunks s).length = (s.length + 31) / 32 := by
  simp [chunks, chunkSize]

/-- Every chunk is non-empty and at most 32 characters long, and of even length when the
text is. -/
theorem mem_chunks {s c : List Char} (h : c ∈ chunks s) :
    c ≠ [] ∧ c.length ≤ 32 ∧ (s.length % 2 = 0 → c.length % 2 = 0) := by
  simp only [chunks, chunkSize, List.mem_map, List.mem_range'] at h
  obtain ⟨i, ⟨j, hj, rfl⟩, rfl⟩ := h
  have hlt : 0 + 32 * j < s.length := by omega
  have hlen : ((s.drop (0 + 32 * j)).take 32).length = min 32 (s.length - (0 + 32 * j)) := by
    rw [List.length_take, List.length_drop]
  refine ⟨fun h => ?_, by omega, fun _ => by omega⟩
  rw [h, List.length_nil] at hlen
  omega

/-! ## The chunk loop -/

/-- The chunk loop's attempts, as the responses each chunk's attempts got: no more blocks
than chunks, each of one to three attempts, every block but the last acknowledged, and
an acknowledged block followed by the next chunk's, so that the blocks cover every chunk
unless the last of them was not acknowledged. -/
structure ChunkTrace (cs : List (List Char)) (chunkRs : List (List (List Char))) : Prop where
  length_le : chunkRs.length ≤ cs.length
  attempts : ∀ rs ∈ chunkRs, Attempts 3 rs
  acked : ∀ rs ∈ chunkRs.dropLast, rs.any okIn = true
  complete : chunkRs.all (·.any okIn) = true → chunkRs.length = cs.length

/-- The lines the chunk loop writes: each chunk's line once per attempt. -/
def chunkLines (cs : List (List Char)) (chunkRs : List (List (List Char))) : List (List Char) :=
  (List.zipWith (fun c rs => List.replicate rs.length (dataCommand c ++ crlf)) cs chunkRs).flatten

/-- Every chunk sent and acknowledged. -/
def allAcked (cs : List (List Char)) (chunkRs : List (List (List Char))) : Bool :=
  chunkRs.length == cs.length && chunkRs.all (·.any okIn)

theorem exec_sendChunks (cs : List (List Char)) (resp : Nat → List Char) :
    ∃ chunkRs, ((sendChunks cs).exec resp).writes = chunkLines cs chunkRs ∧
      responses resp ((sendChunks cs).exec resp).used = chunkRs.flatten ∧
      ChunkTrace cs chunkRs ∧ ((sendChunks cs).exec resp).result = allAcked cs chunkRs := by
  induction cs generalizing resp with
  | nil => exact ⟨[], rfl, rfl, ⟨le_rfl, by simp, by simp, fun _ => rfl⟩, rfl⟩
  | cons c cs ih =>
    obtain ⟨hw, hatt, hres⟩ := exec_sendUntilOk (dataCommand c) (by decide : 0 < 3) resp
    simp only [sendChunks, exec_bind]
    generalize (sendUntilOk (dataCommand c) 3).exec resp = o at hw hatt hres ⊢
    obtain ⟨ws, ok, u⟩ := o
    dsimp only at hw hatt hres ⊢
    subst hw hres
    by_cases hok : (responses resp u).any okIn
    · obtain ⟨chunkRs, h1, h2, ⟨hlen, hatts, hack, hcomp⟩, h4⟩ := ih (shift resp u)
      refine ⟨responses resp u :: chunkRs, ?_, ?_, ⟨by simpa using hlen, ?_, ?_,
        fun hall => by simpa using hcomp (Bool.and_eq_true_iff.1 hall).2⟩, ?_⟩
      · simp [hok, h1, chunkLines, crlf]
      · simp [hok, responses_add, h2]
      · simpa [hatt] using hatts
      · intro rs hrs
        rcases mem_dropLast_cons hrs with rfl | hrs
        exacts [hok, hack rs hrs]
      · simp [hok, h4, allAcked]
    · refine ⟨[responses resp u], ?_, ?_, ⟨by simp, by simpa using hatt, by simp,
        fun hall => absurd (by simpa using hall) hok⟩, ?_⟩
      · simp [hok, chunkLines, crlf]
      · simp [hok]
      · simp [hok, allAcked]

theorem chunkLines_snoc {cs : List (List Char)} {chunkRs : List (List (List Char))}
    (hlt : chunkRs.length < cs.length) (rs : List (List Char)) :
    ∃ c ∈ cs, chunkLines cs (chunkRs ++ [rs]) =
      chunkLines cs chunkRs ++ List.replicate rs.length (dataCommand c ++ crlf) := by
  induction chunkRs generalizing cs with
  | nil =>
    obtain ⟨c, cs, rfl⟩ := List.exists_cons_of_length_pos hlt
    exact ⟨c, List.mem_cons_self _ _, by simp [chunkLines]⟩
  | cons r chunkRs ih =>
    obtain ⟨c, cs, rfl⟩ := List.exists_cons_of_length_pos (Nat.zero_lt_of_lt hlt)
    obtain ⟨d, hd, hcl⟩ := ih (by simpa using hlt)
    refine ⟨d, List.mem_cons_of_mem _ hd, ?_⟩
    simp only [chunkLines, List.cons_append, List.zipWith_cons_cons, List.flatten_cons] at hcl ⊢
    rw [hcl, List.append_assoc]

/-! ## The upload -/

/-- The load and every chunk acknowledged. -/
def uploadAcked (b : List UInt8) (loadRs : List (List Char)) (chunkRs : List (List (List Char))) :
    Bool :=
  loadRs.any okIn && allAcked (chunks (hexlify b)) chunkRs

/-- The lines `upload_bytecode` writes when its load attempts got `loadRs` and its chunks'
attempts `chunkRs`. -/
def uploadLines (b : List UInt8) (loadRs : List (List Char)) (chunkRs : List (List (List Char))) :
    List (List Char) :=
  ["zplc stop\r\n".toList, "zplc reset\r\n".toList] ++
    List.replicate loadRs.length (loadCommand b.length ++ crlf) ++
    chunkLines (chunks (hexlify b)) chunkRs ++
    (if uploadAcked b loadRs chunkRs then [crlf] else [])

/-- A run of `upload_bytecode` with outcome `o` on the responses `resp`, as its blocks of
responses: `loadRs` for the load's attempts, `chunkRs` for the chunks', `finalRs` for the
empty line. -/
structure UploadTrace (b : List UInt8) (resp : Nat → List Char) (o : Outcome Unit)
    (loadRs : List (List Char)) (chunkRs : List (List (List Char))) (finalRs : List (List Char)) :
    Prop where
  writes : o.writes = uploadLines b loadRs chunkRs
  reads : responses resp o.used = [resp 0, resp 1] ++ loadRs ++ chunkRs.flatten ++ finalRs
  final : finalRs.length = if uploadAcked b loadRs chunkRs then 1 else 0
  load : Attempts 3 loadRs
  noChunks : loadRs.any okIn = false → chunkRs = []
  chunkTrace : loadRs.any okIn = true → ChunkTrace (chunks (hexlify b)) chunkRs

/-- The lines of an upload that stopped on a failure: they end with the three attempts of
a command none of which was acknowledged, the load or a chunk, and nothing follows. -/
def EndsOnFailure (b : List UInt8) (writes : List (List Char)) : Prop :=
  ∃ pre cmd, writes = pre ++ List.replicate 3 (cmd ++ crlf) ∧
    (cmd = loadCommand b.length ∨ cmd ∈ (chunks (hexlify b)).map dataCommand)

section Trace

variable {b : List UInt8} {resp : Nat → List Char} {o : Outcome Unit} {loadRs : List (List Char)}
  {chunkRs : List (List (List Char))} {finalRs : List (List Char)}
  (h : UploadTrace b resp o loadRs chunkRs finalRs)
include h

/-- An upload whose load or some chunk went unacknowledged ends on that command's three
attempts. -/
theorem UploadTrace.endsOnFailure (hf : uploadAcked b loadRs chunkRs = false) :
    EndsOnFailure b o.writes := by
  rw [h.writes, uploadLines, hf]
  simp only [Bool.false_eq_true, if_false, List.append_nil]
  by_cases hl : loadRs.any okIn
  · have ht := h.chunkTrace hl
    obtain ⟨rs, hrs, hno⟩ : ∃ rs ∈ chunkRs, rs.any okIn = false := by
      cases hall : chunkRs.all (·.any okIn)
      · simpa using hall
      · simp [uploadAcked, allAcked, hl, ht.complete hall, hall] at hf
    obtain ⟨init, last, rfl⟩ : ∃ init last, chunkRs = init ++ [last] :=
      ⟨_, _, (List.dropLast_concat_getLast (List.ne_nil_of_mem hrs)).symm⟩
    -- every block but the last was acknowledged, so the unacknowledged one is the last
    have hlast : last.any okIn = false := by
      rcases List.mem_append.1 hrs with h1 | h1
      · exact absurd (ht.acked rs (by simpa using h1)) (by simp [hno])
      · rwa [← List.mem_singleton.1 h1]
    obtain ⟨c, hc, hcl⟩ := chunkLines_snoc (by simpa using ht.length_le) last
    rw [hcl, (ht.attempts last (by simp)).2.2.2 hlast]
    exact ⟨_, dataCommand c, (List.append_assoc _ _ _).symm, .inr (List.mem_map_of_mem _ hc)⟩
  · have hl' : loadRs.any okIn = false := by simpa using hl
    refine ⟨["zplc stop\r\n".toList, "zplc reset\r\n".toList], loadCommand b.length, ?_, .inl rfl⟩
    rw [h.noChunks hl', h.load.2.2.2 hl']
    simp [chunkLines]

theorem UploadTrace.chunkAttempts :
    chunkRs.length ≤ (chunks (hexlify b)).length ∧ ∀ rs ∈ chunkRs, Attempts 3 rs := by
  by_cases hl : loadRs.any okIn
  · exact ⟨(h.chunkTrace hl).length_le, (h.chunkTrace hl).attempts⟩
  · simp [h.noChunks (by simpa using hl)]

end Trace

theorem exec_uploadBytecode_eq (b : List UInt8) (resp : Nat → List Char) :
    (uploadBytecode b).exec resp =
      let o1 := (sendUntilOk (loadCommand b.length) 3).exec (shift resp 2)
      let o2 := (sendChunks (chunks (hexlify b))).exec (shift resp (2 + o1.used))
      let pre := ["zplc stop\r\n".toList, "zplc reset\r\n".toList] ++ o1.writes
      if o1.result then
        if o2.result then ⟨pre ++ o2.writes ++ [crlf], (), 2 + o1.used + o2.used + 1⟩
        else ⟨pre ++ o2.writes, (), 2 + o1.used + o2.used⟩
      else ⟨pre, (), 2 + o1.used⟩ := by
  simp only [uploadBytecode, exec_bind, exec_send, shift_shift]
  by_cases h1 : ((sendUntilOk (loadCommand b.length) 3).exec (shift resp 2)).result <;>
    simp only [h1, if_true, if_false, Bool.false_eq_true]
  · by_cases h2 : ((sendChunks (chunks (hexlify b))).exec (shift resp (2 +
        ((sendUntilOk (loadCommand b.length) 3).exec (shift resp 2)).used))).result <;>
      simp [h2, exec_bind, crlf] <;> omega
  · simp; omega

theorem exec_uploadBytecode (b : List UInt8) (resp : Nat → List Char) :
    ∃ loadRs chunkRs finalRs,
      UploadTrace b resp ((uploadBytecode b).exec resp) loadRs chunkRs finalRs := by
  obtain ⟨hw, hatt, hres⟩ :=
    exec_sendUntilOk (loadCommand b.length) (by decide : 0 < 3) (shift resp 2)
  rw [exec_uploadBytecode_eq]
  generalize (sendUntilOk (loadCommand b.length) 3).exec (shift resp 2) = o at hw hatt hres ⊢
  obtain ⟨ws, ok, u⟩ := o
  dsimp only at hw hatt hres ⊢
  subst hw hres
  have hreads : responses resp (2 + u) = [resp 0, resp 1] ++ responses (shift resp 2) u := by
    rw [responses_add]; rfl
  by_cases hok : (responses (shift resp 2) u).any okIn
  · obtain ⟨chunkRs, h1, h2, htr, h4⟩ := exec_sendChunks (chunks (hexlify b)) (shift resp (2 + u))
    generalize (sendChunks (chunks (hexlify b))).exec (shift resp (2 + u)) = o2 at h1 h2 h4 ⊢
    obtain ⟨ws2, ok2, u2⟩ := o2
    dsimp only at h1 h2 h4 ⊢
    subst h1 h4
    have hreads2 : responses resp (2 + u + u2) =
        [resp 0, resp 1] ++ responses (shift resp 2) u ++ chunkRs.flatten := by
      rw [responses_add, hreads, h2]
    by_cases hall : allAcked (chunks (hexlify b)) chunkRs
    · refine ⟨_, chunkRs, [resp (2 + u + u2)], ⟨?_, ?_, ?_, hatt, by simp [hok], fun _ => htr⟩⟩
      · simp [uploadLines, uploadAcked, hok, hall, crlf]
      · simp [hok, hall, responses_add, hreads2, responses]
      · simp [uploadAcked, hok, hall]
    · refine ⟨_, chunkRs, [], ⟨?_, ?_, ?_, hatt, by simp [hok], fun _ => htr⟩⟩
      · simp [uploadLines, uploadAcked, hok, hall, crlf]
      · simp [hok, hall, hreads2]
      · simp [uploadAcked, hok, hall]
  · refine ⟨_, [], [], ⟨?_, ?_, ?_, hatt, fun _ => rfl, fun h => absurd h (by simpa using hok)⟩⟩
    · simp [uploadLines, uploadAcked, hok, chunkLines, crlf]
    · simpa [hok] using hreads
    · simp [uploadAcked, hok]

/-- **The upload's lines, for every bytecode and every device.** `upload_bytecode` writes
`zplc stop`, `zplc reset`, then `zplc load len(b)` once per load attempt; only if the
load was acknowledged, each chunk of `hexlify(b)` once per attempt, in order, each chunk
after the one before it was acknowledged, until all are sent or one fails; and only if
every chunk was acknowledged, an empty line. Each command's attempts are one to
three responses, none but the last holding `OK:`, three if none does, and no line
follows a command whose three attempts failed. The chunks are `ceil(2 len(b) / 32)`
non-empty pieces of even length at most 32 that make up `hexlify(b)`. -/
theorem uploadBytecode_lines (b : List UInt8) (resp : Nat → List Char) :
    (∃ loadRs chunkRs finalRs,
      UploadTrace b resp ((uploadBytecode b).exec resp) loadRs chunkRs finalRs) ∧
    (chunks (hexlify b)).flatten = hexlify b ∧
    (chunks (hexlify b)).length = (2 * b.length + 31) / 32 ∧
    ∀ c ∈ chunks (hexlify b), c ≠ [] ∧ c.length ≤ 32 ∧ c.length % 2 = 0 :=
  ⟨exec_uploadBytecode b resp, join_chunks _, by rw [length_chunks, length_hexlify],
    fun _ hc => have h := mem_chunks hc; ⟨h.1, h.2.1, h.2.2 (by simp)⟩⟩

/-! ## The callers -/

section Callers

variable {α : Type} (loads : List Char → Loaded α) (kindOf : α → Option (List Char))

/-- The lines `reset_state` writes when the caller asks for it. -/
def resetWrites (reset : Bool) : List (List Char) := if reset then resetLines else []

/-- **A failed upload is not an error.** For every bytecode and every device, acknowledging
or not: `upload_bytecode` returns. Its run is an `UploadTrace`, and when the load or a
chunk got no `OK:` in its three attempts it writes nothing after them. After the lines of
`reset_state` (if asked) and of the upload, `run_bytecode` and `run_st` write
`zplc hil mode verbose` and `zplc start` and return the traces of the window that
follows, and `compile_and_run` writes `zplc hil mode off`, `zplc start` and
`zplc stop`. -/
theorem callers_start_after_upload (b : List UInt8) (reset : Bool) (resp : Nat → List Char) :
    (∃ loadRs chunkRs finalRs,
      UploadTrace b (shift resp (resetWrites reset).length)
          ((uploadBytecode b).exec (shift resp (resetWrites reset).length)) loadRs chunkRs finalRs ∧
        (uploadAcked b loadRs chunkRs = false →
          EndsOnFailure b ((uploadBytecode b).exec (shift resp (resetWrites reset).length)).writes)) ∧
      ((runBytecode loads kindOf b reset).exec resp).writes =
        resetWrites reset ++ ((uploadBytecode b).exec (shift resp (resetWrites reset).length)).writes ++
          ["zplc hil mode verbose\r\n", "zplc start\r\n"].map String.toList ∧
      ((runBytecode loads kindOf b reset).exec resp).result =
        captureScan loads kindOf (resp ((resetWrites reset).length +
          ((uploadBytecode b).exec (shift resp (resetWrites reset).length)).used + 1)) ∧
      ((runSt loads kindOf b reset).exec resp).writes =
        resetWrites reset ++ ((uploadBytecode b).exec (shift resp (resetWrites reset).length)).writes ++
          ["zplc hil mode verbose\r\n", "zplc start\r\n"].map String.toList ∧
      ((compileAndRun b reset).exec resp).writes =
        resetWrites reset ++ ((uploadBytecode b).exec (shift resp (resetWrites reset).length)).writes ++
          ["zplc hil mode off\r\n", "zplc start\r\n", "zplc stop\r\n"].map String.toList := by
  obtain ⟨loadRs, chunkRs, finalRs, htr⟩ :=
    exec_uploadBytecode b (shift resp (resetWrites reset).length)
  refine ⟨⟨loadRs, chunkRs, finalRs, htr, htr.endsOnFailure⟩, ?_⟩
  cases reset <;>
    simp [resetWrites, runBytecode, runSt, compileAndRun, exec_bind, resetLines, Nat.add_assoc]

end Callers

/-- **A silent device does not stop the run.** No answer ever comes: the load is tried
three times, and `run_bytecode` still writes `zplc start`. -/
theorem runBytecode_silent_device :
    ((runBytecode ackLoads some [0x01] false).exec fun _ => []).writes =
      ["zplc stop\r\n", "zplc reset\r\n", "zplc load 1\r\n", "zplc load 1\r\n", "zplc load 1\r\n",
        "zplc hil mode verbose\r\n", "zplc start\r\n"].map String.toList := by
  decide

end Zplc.Hil
