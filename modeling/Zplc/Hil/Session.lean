/-
`upload_bytecode` against a device, as a session of two parties over a serial
link. The host runs the procedure step by step: `send`'s drain, its write, and
its read, one character at a time, which ends once the awaited text is in what
was read, or at the timeout, which may come at any moment. The device takes the
host's lines in order, `zplc load` clearing its load buffer and `zplc data`
appending the payload, and answers each line; a character of an answer may be
lost, or arrive late, after the host's timeout or after its next drain.

Whatever the interleaving, once the host has finished and the device has taken
every line, the load buffer holds each chunk as many times as the host sent it
(`session_loadBuffer`). A chunk whose answer was lost is sent again, and stored
twice (`session_duplicate_chunk`).
-/
import Zplc.Hil.Upload

namespace Zplc.Hil

open Py Serial

/-! ## The host's runs -/

/-- `p` becomes `q` after reading the responses `rs` and writing the lines `ws`. -/
inductive HostRun {α : Type} : Serial α → List (List Char) → List (List Char) → Serial α → Prop
  | refl (p : Serial α) : HostRun p [] [] p
  | drain {p : Serial α} {rs ws q} : HostRun p rs ws q → HostRun (.drain p) rs ws q
  | write {d} {p : Serial α} {rs ws q} : HostRun p rs ws q → HostRun (.write d p) rs (d :: ws) q
  | recv {w k r rs ws} {q : Serial α} : HostRun (k r) rs ws q → HostRun (.recv w k) (r :: rs) ws q

namespace HostRun

variable {α : Type} {p : Serial α} {rs ws : List (List Char)}

theorem drain_last {q : Serial α} (h : HostRun p rs ws (.drain q)) : HostRun p rs ws q := by
  generalize hq : Serial.drain q = q' at h
  induction h with
  | refl => subst hq; exact .drain (.refl q)
  | drain _ ih => exact .drain (ih hq)
  | write _ ih => exact .write (ih hq)
  | recv _ ih => exact .recv (ih hq)

theorem write_last {d : List Char} {q : Serial α} (h : HostRun p rs ws (.write d q)) :
    HostRun p rs (ws ++ [d]) q := by
  generalize hq : Serial.write d q = q' at h
  induction h with
  | refl => subst hq; exact .write (.refl q)
  | drain _ ih => exact .drain (ih hq)
  | write _ ih => exact .write (ih hq)
  | recv _ ih => exact .recv (ih hq)

theorem recv_last {w : Option (List Char)} {k : List Char → Serial α} (r : List Char)
    (h : HostRun p rs ws (.recv w k)) : HostRun p (rs ++ [r]) ws (k r) := by
  generalize hq : Serial.recv w k = q' at h
  induction h with
  | refl => subst hq; exact .recv (.refl (k r))
  | drain _ ih => exact .drain (ih hq)
  | write _ ih => exact .write (ih hq)
  | recv _ ih => exact .recv (ih hq)

/-- A run to the end is `exec` on the responses it read. -/
theorem exec_eq {a : α} (h : HostRun p rs ws (.done a)) :
    p.exec (fun i => rs.getD i []) = ⟨ws, a, rs.length⟩ := by
  generalize hq : Serial.done a = q' at h
  induction h with
  | refl => subst hq; rfl
  | drain _ ih => exact ih hq
  | write _ ih => rw [exec_write, ih hq]
  | @recv w k r rs ws q _ ih =>
    have hs : shift (fun i => (r :: rs).getD i []) 1 = fun i => rs.getD i [] := by
      funext i; simp [shift, Nat.add_comm 1]
    simp only [exec_recv, List.getD_cons_zero, hs, ih hq]
    rfl

end HostRun

/-! ## The session -/

/-- The device's reading of a line, taken without its `\r\n`: `zplc load` clears the load
buffer, `zplc data` appends its payload, and any other line leaves it. -/
def lineEffect (line buffer : List Char) : List Char :=
  if "zplc load ".toList.isPrefixOf line then []
  else if "zplc data ".toList.isPrefixOf line then buffer ++ line.drop 10
  else buffer

/-- The device taking a line the host wrote. -/
def deviceTake (buffer w : List Char) : List Char := lineEffect (w.takeWhile (· != '\r')) buffer

/-- Both parties and the link. `written` and `read` record what the host wrote and the
responses its reads returned. -/
structure Session where
  host : Serial Unit
  /-- The text the host's current read has so far. -/
  acc : List Char
  /-- What has reached the host and was not read yet. -/
  hostIn : List Char
  /-- The lines on their way to the device. -/
  toDevice : List (List Char)
  /-- The device's load buffer. -/
  buffer : List Char
  /-- The answers on their way to the host. -/
  toHost : List Char
  written : List (List Char)
  read : List (List Char)

/-- The session at the start of `upload_bytecode`, with any text already on the link and
any load buffer. -/
def Session.start (b : List UInt8) (hostIn toHost buffer : List Char) : Session :=
  ⟨uploadBytecode b, [], hostIn, [], buffer, toHost, [], []⟩

/-- Who moves next. -/
inductive Choice where
  /-- The host's next drain or write. -/
  | host
  /-- The host reads a character that has arrived. -/
  | hostRead
  /-- The host's read ends: the awaited text is in it, or the time is up. -/
  | hostReturn
  /-- The device takes the first line on its way. -/
  | device
  /-- The first character of the answers arrives. -/
  | deliver
  /-- The first character of the answers is lost. -/
  | lose
  deriving DecidableEq, Repr

section Steps

variable (answer : List Char → List Char)

/-- One move, when it can be made; the device answers a line `w` with `answer w`. -/
def Session.step : Choice → Session → Option Session
  | .host, s =>
    match s.host with
    | .drain p => some { s with host := p, hostIn := [] }
    | .write d p => some { s with host := p, toDevice := s.toDevice ++ [d], written := s.written ++ [d] }
    | _ => none
  | .hostRead, s =>
    match s.host, s.hostIn with
    | .recv w _, c :: rest =>
      if w.all fun w => !strContains s.acc w then some { s with acc := s.acc ++ [c], hostIn := rest }
      else none
    | _, _ => none
  | .hostReturn, s =>
    match s.host with
    | .recv _ k => some { s with host := k s.acc, acc := [], read := s.read ++ [s.acc] }
    | _ => none
  | .device, s =>
    match s.toDevice with
    | w :: rest =>
      some { s with toDevice := rest, buffer := deviceTake s.buffer w, toHost := s.toHost ++ answer w }
    | [] => none
  | .deliver, s =>
    match s.toHost with
    | c :: rest => some { s with toHost := rest, hostIn := s.hostIn ++ [c] }
    | [] => none
  | .lose, s =>
    match s.toHost with
    | _ :: rest => some { s with toHost := rest }
    | [] => none

/-- The sessions a session can become. -/
inductive Reaches : Session → Session → Prop
  | refl (s : Session) : Reaches s s
  | step {s t u : Session} (ch : Choice) : Session.step answer ch s = some t → Reaches t u → Reaches s u

/-- What one move can do: a drain, a write, the end of a read, the device taking a line,
or a move of characters to or within the host that leaves the rest as it was. -/
theorem step_cases {ch : Choice} {s t : Session} (h : Session.step answer ch s = some t) :
    (∃ p, s.host = .drain p ∧ t = { s with host := p, hostIn := [] }) ∨
    (∃ d p, s.host = .write d p ∧
      t = { s with host := p, toDevice := s.toDevice ++ [d], written := s.written ++ [d] }) ∨
    (∃ w k, s.host = .recv w k ∧ t = { s with host := k s.acc, acc := [], read := s.read ++ [s.acc] }) ∨
    (∃ w rest, s.toDevice = w :: rest ∧
      t = { s with toDevice := rest, buffer := deviceTake s.buffer w, toHost := s.toHost ++ answer w }) ∨
    (t.host = s.host ∧ t.toDevice = s.toDevice ∧ t.buffer = s.buffer ∧ t.written = s.written ∧
      t.read = s.read) := by
  cases ch <;> simp only [Session.step] at h
  · split at h <;> cases h
    · exact .inl ⟨_, ‹_›, rfl⟩
    · exact .inr (.inl ⟨_, _, ‹_›, rfl⟩)
  · split at h
    · split at h <;> cases h
      exact .inr (.inr (.inr (.inr ⟨rfl, rfl, rfl, rfl, rfl⟩)))
    · cases h
  · split at h <;> cases h
    exact .inr (.inr (.inl ⟨_, _, ‹_›, rfl⟩))
  · split at h <;> cases h
    exact .inr (.inr (.inr (.inl ⟨_, _, ‹_›, rfl⟩)))
  · split at h <;> cases h
    exact .inr (.inr (.inr (.inr ⟨rfl, rfl, rfl, rfl, rfl⟩)))
  · split at h <;> cases h
    exact .inr (.inr (.inr (.inr ⟨rfl, rfl, rfl, rfl, rfl⟩)))

/-- The session's invariant, for a host that started as `P` and a device whose load
buffer was `buf0`: the host is `P` run on the responses it read, having written
`written`, and the device has taken the lines written that are no longer on their way. -/
structure Inv (P : Serial Unit) (buf0 : List Char) (s : Session) : Prop where
  host : HostRun P s.read s.written s.host
  device : ∃ taken, s.written = taken ++ s.toDevice ∧ s.buffer = taken.foldl deviceTake buf0

theorem step_inv {P : Serial Unit} {buf0 : List Char} {ch : Choice} {s t : Session}
    (h : Session.step answer ch s = some t) (hi : Inv P buf0 s) : Inv P buf0 t := by
  obtain ⟨hh, taken, hw, hb⟩ := hi
  rcases step_cases answer h with ⟨p, hs, rfl⟩ | ⟨d, p, hs, rfl⟩ | ⟨w, k, hs, rfl⟩ |
    ⟨w, rest, hs, rfl⟩ | ⟨h1, h2, h3, h4, h5⟩
  · exact ⟨(hs ▸ hh).drain_last, taken, hw, hb⟩
  · exact ⟨(hs ▸ hh).write_last, taken, by simp [hw], hb⟩
  · exact ⟨(hs ▸ hh).recv_last _, taken, hw, hb⟩
  · exact ⟨hh, taken ++ [w], by simp [hw, hs], by simp [hb]⟩
  · exact ⟨h1 ▸ h4 ▸ h5 ▸ hh, taken, by rw [h2, h4, hw], by rw [h3, hb]⟩

theorem reaches_inv {P : Serial Unit} {buf0 : List Char} {s t : Session}
    (h : Reaches answer s t) (hi : Inv P buf0 s) : Inv P buf0 t := by
  induction h with
  | refl => exact hi
  | step _ hst _ ih => exact ih (step_inv answer hst hi)

end Steps

/-! ## The device's buffer after an upload -/

/-- A line of the chunk loop. -/
def isDataLine (line : List Char) : Bool := "zplc data ".toList.isPrefixOf line

theorem hexlify_ne_cr (b : List UInt8) : '\r' ∉ hexlify b := by
  have hd : ∀ n < 16, hexDigit n ≠ '\r' := by decide
  simp only [hexlify, List.mem_flatMap, List.mem_cons, List.mem_singleton, List.not_mem_nil,
    or_false, not_exists, not_and]
  intro x _ h
  rcases h with h | h
  · exact hd _ (by have := UInt8.toNat_lt_size x; simp only [UInt8.size] at this; omega) h.symm
  · exact hd _ (Nat.mod_lt _ (by decide)) h.symm

theorem chunk_ne_cr {b : List UInt8} {c : List Char} (h : c ∈ chunks (hexlify b)) : '\r' ∉ c := by
  simp only [chunks, List.mem_map] at h
  obtain ⟨i, -, rfl⟩ := h
  exact fun hc => hexlify_ne_cr b (((List.take_sublist _ _).trans (List.drop_sublist _ _)).subset hc)

theorem deviceTake_data (buf : List Char) {c : List Char} (hc : '\r' ∉ c) :
    deviceTake buf (dataCommand c ++ crlf) = buf ++ c := by
  have ht : (dataCommand c ++ crlf).takeWhile (· != '\r') =
      "zplc data ".toList ++ (c ++ crlf).takeWhile (· != '\r') := rfl
  rw [deviceTake, ht, List.takeWhile_append_of_pos fun x hx => by
    simpa using fun e : x = '\r' => hc (e ▸ hx)]
  simp [crlf, lineEffect, List.isPrefixOf_iff_prefix]

theorem deviceTake_load (buf : List Char) (n : Nat) : deviceTake buf (loadCommand n ++ crlf) = [] := by
  have ht : (loadCommand n ++ crlf).takeWhile (· != '\r') =
      "zplc load ".toList ++ ((toString n).toList ++ crlf).takeWhile (· != '\r') := rfl
  simp [deviceTake, ht, lineEffect, List.isPrefixOf_iff_prefix]

theorem foldl_deviceTake_replicate (buf : List Char) {c : List Char} (hc : '\r' ∉ c) (m : Nat) :
    (List.replicate m (dataCommand c ++ crlf)).foldl deviceTake buf = buf ++ (List.replicate m c).flatten := by
  induction m generalizing buf with
  | zero => simp
  | succ m ih => simp [List.replicate_succ, deviceTake_data buf hc, ih]

theorem foldl_deviceTake_chunkLines (buf : List Char) {cs : List (List Char)} (hc : ∀ c ∈ cs, '\r' ∉ c)
    (chunkRs : List (List (List Char))) :
    (chunkLines cs chunkRs).foldl deviceTake buf =
      buf ++ (List.zipWith (fun c rs => (List.replicate rs.length c).flatten) cs chunkRs).flatten := by
  induction cs generalizing buf chunkRs with
  | nil => simp [chunkLines]
  | cons c cs ih =>
    cases chunkRs with
    | nil => simp [chunkLines]
    | cons rs chunkRs =>
      have := ih (buf ++ (List.replicate rs.length c).flatten) (fun c' h => hc c' (by simp [h])) chunkRs
      simp only [chunkLines, List.zipWith_cons_cons, List.flatten_cons, List.foldl_append] at this ⊢
      rw [foldl_deviceTake_replicate buf (hc c (by simp)), this, List.append_assoc]

theorem foldl_deviceTake_loads (buf : List Char) (n : Nat) {k : Nat} (hk : 0 < k) :
    (List.replicate k (loadCommand n ++ crlf)).foldl deviceTake buf = [] := by
  induction k generalizing buf with
  | zero => contradiction
  | succ k ih =>
    rw [List.replicate_succ, List.foldl_cons, deviceTake_load]
    rcases Nat.eq_zero_or_pos k with rfl | hk
    · rfl
    · exact ih [] hk

/-- **What the device holds after an upload's lines**: each chunk as many times as its line
was written, whatever the buffer held before. -/
theorem foldl_deviceTake_uploadLines (buf0 : List Char) (b : List UInt8) {loadRs : List (List Char)}
    (hl : loadRs ≠ []) (chunkRs : List (List (List Char))) :
    (uploadLines b loadRs chunkRs).foldl deviceTake buf0 =
      (List.zipWith (fun c rs => (List.replicate rs.length c).flatten) (chunks (hexlify b)) chunkRs).flatten := by
  have hk : 0 < loadRs.length := List.length_pos.2 hl
  have hfinal : ∀ buf, ((if uploadAcked b loadRs chunkRs then [crlf] else []).foldl deviceTake buf) = buf := by
    intro buf; split <;> rfl
  simp only [uploadLines, List.foldl_append, hfinal]
  rw [foldl_deviceTake_loads _ _ hk, foldl_deviceTake_chunkLines _ (fun c h => chunk_ne_cr h),
    List.nil_append]

theorem mem_chunkLines {cs : List (List Char)} {chunkRs : List (List (List Char))} {l : List Char}
    (h : l ∈ chunkLines cs chunkRs) : ∃ c, l = dataCommand c ++ crlf := by
  induction cs generalizing chunkRs with
  | nil => simp [chunkLines] at h
  | cons c cs ih =>
    cases chunkRs with
    | nil => simp [chunkLines] at h
    | cons rs chunkRs =>
      simp only [chunkLines, List.zipWith_cons_cons, List.flatten_cons, List.mem_append,
        List.mem_replicate] at h
      exact h.elim (fun h => ⟨c, h.2⟩) ih

theorem filter_isDataLine_uploadLines (b : List UInt8) (loadRs : List (List Char))
    (chunkRs : List (List (List Char))) :
    (uploadLines b loadRs chunkRs).filter isDataLine = chunkLines (chunks (hexlify b)) chunkRs := by
  have hdata : ∀ l ∈ chunkLines (chunks (hexlify b)) chunkRs, isDataLine l = true := by
    intro l hl
    obtain ⟨c, rfl⟩ := mem_chunkLines hl
    simp [isDataLine, dataCommand, List.isPrefixOf_iff_prefix]
  have hload : isDataLine (loadCommand b.length ++ crlf) = false := rfl
  have hfinal : (if uploadAcked b loadRs chunkRs then [crlf] else []).filter isDataLine = [] := by
    split <;> rfl
  simp only [uploadLines, List.filter_append, hfinal, List.filter_eq_self.2 hdata, List.append_nil,
    List.filter_replicate, hload]
  rfl

theorem crlf_mem_uploadLines {b : List UInt8} {loadRs : List (List Char)}
    {chunkRs : List (List (List Char))} (h : crlf ∈ uploadLines b loadRs chunkRs) :
    uploadAcked b loadRs chunkRs = true := by
  by_contra hna
  have hne : ∀ l ∈ uploadLines b loadRs chunkRs, l.head? = some 'z' := by
    simp only [uploadLines, hna, Bool.false_eq_true, if_false, List.append_nil, List.mem_append,
      List.mem_cons, List.mem_replicate, List.not_mem_nil, or_false]
    rintro l (((rfl | rfl) | ⟨-, rfl⟩) | hl)
    · rfl
    · rfl
    · rfl
    · obtain ⟨c, rfl⟩ := mem_chunkLines hl
      rfl
  exact absurd (hne crlf h) (by decide)

theorem length_flatten_replicate (c : List Char) (m : Nat) :
    (List.replicate m c).flatten.length = m * c.length := by
  induction m with
  | zero => simp
  | succ m ih => simp [List.replicate_succ, ih, Nat.succ_mul, Nat.add_comm]

section Counts

variable {cs : List (List Char)} {ms : List Nat}

theorem length_le_flatten_replicate (hlen : ms.length = cs.length) (hms : ∀ m ∈ ms, 1 ≤ m) :
    cs.flatten.length ≤ (List.zipWith (fun c m => (List.replicate m c).flatten) cs ms).flatten.length := by
  induction cs generalizing ms with
  | nil => simp
  | cons c cs ih =>
    cases ms with
    | nil => cases hlen
    | cons m ms =>
      have h1 := ih (Nat.succ.inj hlen) fun m' h => hms m' (List.mem_cons_of_mem _ h)
      have h2 : c.length ≤ m * c.length := Nat.le_mul_of_pos_left _ (hms m (List.mem_cons_self _ _))
      simp only [List.zipWith_cons_cons, List.flatten_cons, List.length_append,
        length_flatten_replicate]
      omega

theorem eq_one_of_length_flatten_replicate (hcs : ∀ c ∈ cs, c ≠ []) (hlen : ms.length = cs.length)
    (hms : ∀ m ∈ ms, 1 ≤ m)
    (h : (List.zipWith (fun c m => (List.replicate m c).flatten) cs ms).flatten.length =
      cs.flatten.length) : ∀ m ∈ ms, m = 1 := by
  induction cs generalizing ms with
  | nil => cases ms with
    | nil => exact fun _ h => absurd h (List.not_mem_nil _)
    | cons => cases hlen
  | cons c cs ih =>
    cases ms with
    | nil => cases hlen
    | cons m ms =>
      have hlen' : ms.length = cs.length := Nat.succ.inj hlen
      have hms' : ∀ m' ∈ ms, 1 ≤ m' := fun m' h => hms m' (List.mem_cons_of_mem _ h)
      have hge := length_le_flatten_replicate hlen' hms'
      have hc : 0 < c.length := List.length_pos.2 (hcs c (List.mem_cons_self _ _))
      have h2 : c.length ≤ m * c.length := Nat.le_mul_of_pos_left _ (hms m (List.mem_cons_self _ _))
      simp only [List.zipWith_cons_cons, List.flatten_cons, List.length_append,
        length_flatten_replicate] at h
      have hm : m * c.length = 1 * c.length := by omega
      simp only [List.mem_cons, forall_eq_or_imp]
      exact ⟨Nat.eq_of_mul_eq_mul_right hc hm,
        ih (fun c' h => hcs c' (List.mem_cons_of_mem _ h)) hlen' hms' (by omega)⟩

/-- Chunks repeated `m_k ≥ 1` times, one count per chunk, give back the text exactly when
every count is one. -/
theorem flatten_replicate_eq_iff (hcs : ∀ c ∈ cs, c ≠ []) (hlen : ms.length = cs.length)
    (hms : ∀ m ∈ ms, 1 ≤ m) :
    (List.zipWith (fun c m => (List.replicate m c).flatten) cs ms).flatten = cs.flatten ↔
      ∀ m ∈ ms, m = 1 := by
  refine ⟨fun h => eq_one_of_length_flatten_replicate hcs hlen hms (congrArg List.length h),
    fun h => ?_⟩
  clear hcs hms
  induction cs generalizing ms with
  | nil => rfl
  | cons c cs ih =>
    cases ms with
    | nil => cases hlen
    | cons m ms =>
      simp only [List.mem_cons, forall_eq_or_imp] at h
      simp only [List.zipWith_cons_cons, List.flatten_cons, h.1, List.replicate_one,
        List.flatten_nil, List.append_nil, ih (Nat.succ.inj hlen) h.2]

end Counts

/-- **The load buffer holds each chunk as many times as the host sent it.** For every
device's answers, everything already on the link, every load buffer before, and every
interleaving of the two parties with lost and late answers: once the host has run
`upload_bytecode` to its end and the device has taken every line, there are counts
`1 ≤ m_k ≤ 3`, one for each chunk sent, such that the host wrote chunk `k`'s line `m_k`
times and the load buffer is `c_0^m_0 c_1^m_1 …`. If the host wrote its final empty line,
every chunk was sent, and the buffer is `hexlify(b)` exactly when no chunk was sent
twice. -/
theorem session_loadBuffer (answer : List Char → List Char) (b : List UInt8)
    (hostIn toHost buf0 : List Char) {s : Session}
    (hr : Reaches answer (Session.start b hostIn toHost buf0) s) (hdone : s.host = .done ())
    (hdev : s.toDevice = []) :
    ∃ ms : List Nat, ms.length ≤ (chunks (hexlify b)).length ∧ (∀ m ∈ ms, 1 ≤ m ∧ m ≤ 3) ∧
      s.written.filter isDataLine =
        (List.zipWith (fun c m => List.replicate m (dataCommand c ++ crlf)) (chunks (hexlify b))
          ms).flatten ∧
      s.buffer = (List.zipWith (fun c m => (List.replicate m c).flatten) (chunks (hexlify b)) ms).flatten ∧
      (crlf ∈ s.written → ms.length = (chunks (hexlify b)).length ∧
        (s.buffer = hexlify b ↔ ∀ m ∈ ms, m = 1)) := by
  obtain ⟨hh, taken, hw, hb⟩ := reaches_inv answer hr ⟨.refl _, [], rfl, rfl⟩
  simp only [Session.start] at hh hb
  rw [hdev, List.append_nil] at hw
  subst hw
  rw [hdone] at hh
  obtain ⟨loadRs, chunkRs, finalRs, htr⟩ := exec_uploadBytecode b fun i => s.read.getD i []
  rw [hh.exec_eq] at htr
  have hwr : s.written = uploadLines b loadRs chunkRs := htr.writes
  have hbuf : s.buffer = (List.zipWith (fun c m => (List.replicate m c).flatten) (chunks (hexlify b))
      (chunkRs.map List.length)).flatten := by
    rw [hb, hwr, foldl_deviceTake_uploadLines _ _ htr.load.1, List.zipWith_map_right]
  have hms : ∀ m ∈ chunkRs.map List.length, 1 ≤ m ∧ m ≤ 3 := by
    simp only [List.mem_map]
    rintro m ⟨rs, hrs, rfl⟩
    have := htr.chunkAttempts.2 rs hrs
    exact ⟨List.length_pos.2 this.1, this.2.1⟩
  refine ⟨chunkRs.map List.length, by simpa using htr.chunkAttempts.1, hms, ?_, hbuf, fun hc => ?_⟩
  · rw [hwr, filter_isDataLine_uploadLines, chunkLines, List.zipWith_map_right]
  · have hack := crlf_mem_uploadLines (hwr ▸ hc)
    simp only [uploadAcked, allAcked, Bool.and_eq_true, beq_iff_eq] at hack
    have hlen : (chunkRs.map List.length).length = (chunks (hexlify b)).length := by
      simpa using hack.2.1
    refine ⟨hlen, ?_⟩
    conv => lhs; rhs; rw [← join_chunks (hexlify b)]
    rw [hbuf]
    exact flatten_replicate_eq_iff (fun c h => (mem_chunks h).1) hlen fun m hm => (hms m hm).1

/-! ## Runs of the session -/

/-- The moves of a list, one after the other. -/
def Session.run (answer : List Char → List Char) : Session → List Choice → Option Session
  | s, [] => some s
  | s, ch :: chs => (Session.step answer ch s).bind (Session.run answer · chs)

theorem reaches_of_run (answer : List Char → List Char) :
    ∀ {s t : Session} {chs : List Choice}, Session.run answer s chs = some t → Reaches answer s t
  | s, t, [], h => by cases h; exact .refl s
  | s, t, ch :: chs, h => by
    simp only [Session.run] at h
    cases hs : Session.step answer ch s with
    | none => simp [hs] at h
    | some s1 =>
      simp only [hs, Option.bind_some] at h
      exact .step ch hs (reaches_of_run answer h)

/-- Whether a host procedure has ended. -/
def Serial.isDone {α : Type} : Serial α → Bool
  | .done _ => true
  | _ => false

theorem Serial.eq_done_of_isDone {p : Serial Unit} (h : p.isDone = true) : p = .done () := by
  cases p <;> simp_all [Serial.isDone]

/-- A run whose last session satisfies `p`. -/
theorem reach_of_run (answer : List Char → List Char) (s0 : Session) (chs : List Choice)
    (p : Session → Bool) (h : (Session.run answer s0 chs).map p = some true) :
    ∃ s, Reaches answer s0 s ∧ p s = true := by
  cases hr : Session.run answer s0 chs with
  | none => simp [hr] at h
  | some s => exact ⟨s, reaches_of_run answer hr, by simpa [hr] using h⟩

/-- A command sent with `send` whose answer is lost: drain, write, the device takes the
line, the three characters of its answer are lost, and the time is up. -/
def lostAnswer : List Choice := [.host, .host, .device, .lose, .lose, .lose, .hostReturn]

/-- An attempt of a command sent until `OK:` whose answer is read: the loop's drain, then
`send`'s drain, write, the device's answer arriving and read. -/
def readAttempt : List Choice :=
  [.host, .host, .host, .device, .deliver, .deliver, .deliver, .hostRead, .hostRead, .hostRead,
    .hostReturn]

/-- A device answering every line with `OK:`, all answers read: the load buffer is
`hexlify(b)`. -/
theorem session_loadBuffer_prompt :
    ∃ s, Reaches (fun _ => "OK:".toList) (Session.start [0x01] [] [] []) s ∧ s.host = .done () ∧
      s.toDevice = [] ∧
      ∃ ms : List Nat, ms.length ≤ (chunks (hexlify [0x01])).length ∧ (∀ m ∈ ms, 1 ≤ m ∧ m ≤ 3) ∧
        s.written.filter isDataLine =
          (List.zipWith (fun c m => List.replicate m (dataCommand c ++ crlf))
            (chunks (hexlify [0x01])) ms).flatten ∧
        s.buffer =
          (List.zipWith (fun c m => (List.replicate m c).flatten) (chunks (hexlify [0x01])) ms).flatten ∧
        (crlf ∈ s.written → ms.length = (chunks (hexlify [0x01])).length ∧
          (s.buffer = hexlify [0x01] ↔ ∀ m ∈ ms, m = 1)) := by
  obtain ⟨s, hr, hp⟩ := reach_of_run (fun _ => "OK:".toList) (Session.start [0x01] [] [] [])
    (lostAnswer ++ lostAnswer ++ readAttempt ++ readAttempt ++ lostAnswer)
    (fun s => s.host.isDone && s.toDevice.isEmpty) (by decide)
  simp only [Bool.and_eq_true, List.isEmpty_iff] at hp
  exact ⟨s, hr, Serial.eq_done_of_isDone hp.1, hp.2,
    session_loadBuffer _ [0x01] [] [] [] hr (Serial.eq_done_of_isDone hp.1) hp.2⟩

/-- **A lost answer duplicates a chunk.** The device answers every line with `OK:`; the
answer to the first `zplc data 01` is lost, the host sends it again, and that answer is
read. The host ends with every chunk acknowledged, and the load buffer is `0101`, not
`hexlify([1]) = 01`. -/
theorem session_duplicate_chunk :
    ∃ s, Reaches (fun _ => "OK:".toList) (Session.start [0x01] [] [] []) s ∧ s.host = .done () ∧
      s.toDevice = [] ∧ crlf ∈ s.written ∧ s.buffer = "0101".toList ∧ hexlify [0x01] = "01".toList := by
  obtain ⟨s, hr, hp⟩ := reach_of_run (fun _ => "OK:".toList) (Session.start [0x01] [] [] [])
    (lostAnswer ++ lostAnswer ++ readAttempt ++ .host :: lostAnswer ++ readAttempt ++ lostAnswer)
    (fun s => s.host.isDone && s.toDevice.isEmpty && s.written.contains crlf &&
      s.buffer == "0101".toList) (by decide)
  simp only [Bool.and_eq_true, List.isEmpty_iff, List.elem_iff, beq_iff_eq, List.contains] at hp
  exact ⟨s, hr, Serial.eq_done_of_isDone hp.1.1.1, hp.1.1.2, hp.1.2, hp.2, rfl⟩

end Zplc.Hil
