import Procnet.Core.Wire
import Procnet.Daemon.State

/-!
# The threads that read a connection

What `procnetd/src/server.rs` does with the bytes of one client. The thread
spawned for a connection reads an initial command through a buffered reader. A
command other than `DaemonCommand.run` is carried out and ends the connection. On
`run` the reader is dismantled, and the rest of the stream is read through a second
one, by a loop that carries out every command it finds.

A `Conn` is where these threads are between two of their steps. What
a connection passes to `DaemonState.update`, one command after the other, is
`Conn.commands`.

The bytes of the stream are read through two buffers, and the first one is dropped
with whatever it holds. So the hand-over is lossless exactly when a delivery of the
socket ends where the frame of `run` does: `handover_iff`.
-/

namespace Procnet

open Lib

/-- Where the threads of a connection are. -/
inductive Conn where
  /-- Spawned; the stream is to be cloned and its read timeout set. -/
  | opening (stream : Source) : Conn
  /-- Before the initial command. -/
  | initial (reader : SocketReader) : Conn
  /-- After `run`; the read timeout is to be removed. -/
  | handover (stream : Source) : Conn
  /-- In the loop of a streaming client. -/
  | streaming (reader : SocketReader) : Conn
  /-- Nothing reads the stream any more. -/
  | closed : Conn
  deriving DecidableEq, Repr

namespace Conn

/-- One step of the thread that reads a connection, and the command it then has for
the shared state. `ok` says whether the system calls of the step succeed. -/
def step (ok : Bool) : Conn → Conn × Option DaemonCommand
  | opening stream => (if ok then initial (.new stream) else closed, none)
  | initial reader =>
    match readMsg DaemonCommand.codec.decode reader with
    | .error _ => (closed, none)
    | .ok (msg, reader) =>
      if msg ≠ .run then (closed, some msg) else (handover reader.intoInner, none)
  | handover stream => (if ok then streaming (.new stream) else closed, none)
  | streaming reader =>
    match readMsg DaemonCommand.codec.decode reader with
    | .error _ => (closed, none)
    | .ok (msg, reader) => (streaming reader, some msg)
  | closed => (closed, none)

/-- The commands that a connection passes to the shared state in `n` of its steps,
nothing else happening in between. A command that panics ends the thread. -/
def commands : ℕ → DaemonState → Conn → List DaemonCommand
  | 0, _, _ => []
  | n + 1, s, c =>
    match c.step true with
    | (c', none) => commands n s c'
    | (c', some msg) =>
      msg :: match s.update msg with
        | some s' => commands n s' c'
        | none => []

end Conn

/-! ### The frames of commands -/

/-- The frame of a command. -/
def DaemonCommand.frame (c : DaemonCommand) : List UInt8 := Procnet.frame (codec.encode c)

namespace DaemonCommand

theorem length_encode_le (c : DaemonCommand) : (codec.encode c).length ≤ 12 := by
  cases c <;> simp [codec, fields]

theorem reads_encode (c : DaemonCommand) :
    (codec.encode c).length < 2 ^ 16 ∧ codec.decode (codec.encode c) = .ok (c, []) := by
  have hlen : (codec.encode c).length < 2 ^ 16 := lt_of_le_of_lt c.length_encode_le (by decide)
  exact ⟨hlen, Codec.reads_encode (Codec.fits_of_dom fun _ => trivial) hlen⟩

end DaemonCommand

/-- What is read takes at least the bytes of its frame. -/
theorem length_frame_le_of_readMsg {reader reader' : SocketReader} {msg : DaemonCommand}
    (h : readMsg DaemonCommand.codec.decode reader = .ok (msg, reader')) :
    msg.frame.length + reader'.pending.length ≤ reader.pending.length := by
  obtain ⟨payload, unused, -, hdec, hpending⟩ := frame_of_readMsg h
  obtain ⟨-, rfl⟩ := DaemonCommand.codec.encode_decode _ _ _ hdec
  rw [hpending, DaemonCommand.frame, List.length_append, length_frame, length_frame,
    List.length_append]
  omega

/-- Nothing is read where nothing is left. -/
theorem exists_readMsg_error {reader : SocketReader} (hp : reader.pending = []) :
    ∃ err, readMsg DaemonCommand.codec.decode reader = .error err := by
  cases h : readMsg DaemonCommand.codec.decode reader with
  | error err => exact ⟨err, rfl⟩
  | ok p =>
    have hlen := length_frame_le_of_readMsg h
    rw [hp, DaemonCommand.frame, length_frame] at hlen
    simp [PREFIX_LEN] at hlen

namespace Conn

variable {s : DaemonState}

@[simp] theorem commands_closed (n : ℕ) : closed.commands n s = [] := by
  induction n generalizing s with
  | zero => rfl
  | succ n ih => exact ih

/-- The loop of a streaming client that has the frames of some commands before it
carries them out in order. -/
theorem commands_streaming {cmds : List DaemonCommand} (hrun : .run ∉ cmds)
    {reader : SocketReader} (hp : reader.pending = (cmds.map DaemonCommand.frame).flatten) {n : ℕ}
    (hn : cmds.length ≤ n) : (streaming reader).commands n s = cmds := by
  induction cmds generalizing reader n s with
  | nil =>
    cases n with
    | zero => rfl
    | succ n =>
      -- Nothing is left, so the read fails and the loop ends.
      obtain ⟨err, herr⟩ := exists_readMsg_error hp
      rw [commands, step, herr]
      exact commands_closed n
  | cons msg cmds ih =>
    obtain ⟨n, rfl⟩ : ∃ k, n = k + 1 := ⟨n - 1, by simp at hn; omega⟩
    rw [List.map_cons, List.flatten_cons] at hp
    obtain ⟨hlen, hdec⟩ := msg.reads_encode
    obtain ⟨r, hr, hp', -⟩ := readMsg_frame hp hlen hdec
    obtain ⟨hmsg, hcmds⟩ : msg ≠ .run ∧ .run ∉ cmds := by
      simpa [eq_comm, List.mem_cons, not_or] using hrun
    obtain ⟨s', hs'⟩ : ∃ s', s.update msg = some s' :=
      Option.ne_none_iff_exists'.mp (mt DaemonState.update_eq_none_iff.mp hmsg)
    simp only [commands, step, hr, hs', ih hcmds hp' (Nat.le_of_succ_le_succ hn)]

/-- The loop carries out no more commands than the bytes before it hold. -/
theorem length_commands_streaming_le (n : ℕ) (reader : SocketReader) :
    (((streaming reader).commands n s).map DaemonCommand.frame).flatten.length ≤
      reader.pending.length := by
  induction n generalizing reader s with
  | zero => simp [commands]
  | succ n ih =>
    cases h : readMsg DaemonCommand.codec.decode reader with
    | error err => simp [commands, step, h]
    | ok p =>
      obtain ⟨msg, r⟩ := p
      have hlen := length_frame_le_of_readMsg h
      cases hs : s.update msg with
      | none =>
        simp only [commands, step, h, hs, List.map_cons, List.map_nil, List.flatten_cons,
          List.flatten_nil, List.append_nil]
        omega
      | some s' =>
        have hrec := ih (s := s') r
        simp only [commands, step, h, hs, List.map_cons, List.flatten_cons, List.length_append]
        omega

end Conn

/-! ### The hand-over -/

/-- **No command is lost or duplicated at the hand-over**: all commands of the client
are carried out, in order, and the loop starts at a frame. -/
def HandsOver (s : DaemonState) (source : Source) (cmds : List DaemonCommand) : Prop :=
  (∀ n ≥ cmds.length + 3, (Conn.opening source).commands n s = cmds) ∧
    ∀ stream, (((Conn.opening source).step true).1.step true).1 = .handover stream →
      ∃ k, stream.bytes = ((cmds.drop k).map DaemonCommand.frame).flatten

/-- What the initial reader leaves behind when it has read `run`. -/
theorem readMsg_run {source : Source} {rest : List UInt8}
    (hsource : source.bytes = DaemonCommand.run.frame ++ rest) :
    ∃ reader : SocketReader,
      readMsg DaemonCommand.codec.decode (.new source : SocketReader) = .ok (.run, reader) ∧
      reader.buf ++ reader.inner.bytes = rest ∧
      (reader.buf = [] ↔ source.CutAt DaemonCommand.run.frame.length) := by
  obtain ⟨hlen, hdec⟩ := DaemonCommand.reads_encode .run
  have hnew : (.new source : SocketReader).pending = DaemonCommand.run.frame ++ rest := hsource
  obtain ⟨r, hr, hp, -⟩ := readMsg_frame hnew hlen hdec
  refine ⟨r, hr, hp, ?_⟩
  -- Its two reads are one read of the whole frame.
  obtain ⟨prefixBuf, payload, -, r₁, h₁, h₂, -⟩ := readMsg_eq_ok hr
  obtain ⟨hlen₁, hp₁⟩ := BufReader.readExact_eq_ok (by decide) h₁
  obtain rfl : prefixBuf = [4, 0] := by
    have htake := congrArg (List.take PREFIX_LEN) hp₁
    rw [List.take_left' hlen₁, BufReader.pending_new, hsource] at htake
    exact htake.symm
  have hadd := BufReader.readExact_add (m := PREFIX_LEN) (n := 4) (by decide) h₁ h₂
  exact BufReader.buf_readExact_eq_nil_iff (by decide) (by decide) hadd

/-- **When the hand-over is lossless**: a delivery of the socket ends where the frame
of `run` does. Otherwise the initial reader has buffered bytes of later frames, and
they are dropped with it. -/
theorem handover_iff (s : DaemonState) (source : Source) (cmds : List DaemonCommand)
    (hrun : .run ∉ cmds)
    (hsource : source.bytes =
      DaemonCommand.run.frame ++ (cmds.map DaemonCommand.frame).flatten) :
    HandsOver s source cmds ↔ source.CutAt DaemonCommand.run.frame.length := by
  obtain ⟨r, hr, hp, hcut⟩ := readMsg_run hsource
  have hsteps : ∀ n, (Conn.opening source).commands (n + 3) s =
      (Conn.streaming (.new r.inner)).commands n s := by
    intro n
    simp only [Conn.commands, Conn.step, if_true, hr, BufReader.intoInner, ne_eq, not_true_eq_false,
      if_false]
  have hstream : (((Conn.opening source).step true).1.step true).1 = .handover r.inner := by
    simp only [Conn.step, if_true, hr, BufReader.intoInner, ne_eq, not_true_eq_false, if_false]
  rw [← hcut]
  constructor
  · rintro ⟨hcmds, -⟩
    have hall := hcmds (cmds.length + 3) (le_refl _)
    rw [hsteps] at hall
    have hlen := Conn.length_commands_streaming_le (s := s) cmds.length (.new r.inner)
    rw [hall, BufReader.pending_new, ← hp, List.length_append] at hlen
    exact List.eq_nil_of_length_eq_zero (by omega)
  · intro hbuf
    rw [hbuf, List.nil_append] at hp
    refine ⟨fun n hn => ?_, fun stream h => ⟨0, ?_⟩⟩
    · obtain ⟨k, rfl⟩ : ∃ k, n = k + 3 := ⟨n - 3, by omega⟩
      rw [hsteps]
      have hnew : (.new r.inner : SocketReader).pending = _ := hp
      exact Conn.commands_streaming hrun hnew (by omega)
    · rw [hstream] at h
      cases h
      exact hp

/-- A client whose `run` is delivered on its own, and then `reset` in two pieces. -/
theorem handover_separate :
    HandsOver .new [.bytes 4 [0, 0, 0, 0, 0], .bytes 4 [0, 4], .bytes 0 [0, 0]] [.reset] :=
  (handover_iff .new [.bytes 4 [0, 0, 0, 0, 0], .bytes 4 [0, 4], .bytes 0 [0, 0]] [.reset]
    (by decide) (by decide +kernel)).mpr (by decide)

/-- **A command is lost at the hand-over** if it is delivered together with `run`: the
`reset` of this client is never carried out. -/
theorem handover_loses_command :
    Source.bytes [.bytes 4 [0, 0, 0, 0, 0, 4, 0, 4, 0, 0, 0]] =
        DaemonCommand.run.frame ++ ([DaemonCommand.reset].map DaemonCommand.frame).flatten ∧
      ¬ HandsOver .new [.bytes 4 [0, 0, 0, 0, 0, 4, 0, 4, 0, 0, 0]] [.reset] := by
  refine ⟨by decide +kernel, fun ⟨hcmds, _⟩ => ?_⟩
  have h := hcmds 4 (by decide)
  revert h
  decide +kernel

end Procnet
