import Procnet.Daemon.Server

/-!
# Streams of commands with torn writes

A client ignores the errors of its later writes, so what is on its connection is, of the frame of
every command it has sent, some first part, and after it the next one. The daemon may take such a
stream up anywhere, since the reader that is dropped at the hand-over takes some bytes with it. All
that keeps the two in step are the bytes of the frames.

They do so for the commands that a key sends (`DaemonCommand.IsStep`): three zeros in a row end a
whole frame (`append_zeros_eq`), so a command that is read at all has been written as a whole, and
is the one that was written (`readMsg_torn`).
-/

namespace Procnet

open Lib

/-- The commands that a key sends. -/
def DaemonCommand.IsStep (command : DaemonCommand) : Prop :=
  command = .intervalIncrease ∨ command = .intervalDecrease

/-- A command, and what has been written of its frame. -/
abbrev CommandWrite := DaemonCommand × List UInt8

/-- Nothing but a first part of the frame has been written. -/
def CommandWrite.Torn (w : CommandWrite) : Prop := w.2 <+: w.1.frame

/-- The bytes that some writes leave on the connection. -/
def wireOf (writes : List CommandWrite) : List UInt8 := (writes.map Prod.snd).flatten

/-- The commands that have been written as a whole. -/
def wholeOf (writes : List CommandWrite) : List DaemonCommand :=
  (writes.filter fun w => w.2 = w.1.frame).map Prod.fst

@[simp] theorem wireOf_cons (w : CommandWrite) (writes : List CommandWrite) :
    wireOf (w :: writes) = w.2 ++ wireOf writes := rfl

@[simp] theorem wireOf_append (ws writes : List CommandWrite) :
    wireOf (ws ++ writes) = wireOf ws ++ wireOf writes := by
  simp [wireOf]

@[simp] theorem wholeOf_append (ws writes : List CommandWrite) :
    wholeOf (ws ++ writes) = wholeOf ws ++ wholeOf writes := by
  simp [wholeOf]

theorem wholeOf_cons_of_whole {w : CommandWrite} (h : w.2 = w.1.frame)
    (writes : List CommandWrite) : wholeOf (w :: writes) = w.1 :: wholeOf writes := by
  simp [wholeOf, h]

/-- Writes of the commands of keys. -/
def Steps (writes : List CommandWrite) : Prop := ∀ w ∈ writes, w.1.IsStep ∧ w.Torn

variable {w : CommandWrite} {writes : List CommandWrite} {bytes rest : List UInt8}

theorem Steps.tail (h : Steps (w :: writes)) : Steps writes :=
  fun v hv => h v (List.mem_cons_of_mem _ hv)

theorem Steps.of_append {ws : List CommandWrite} (h : Steps (ws ++ writes)) : Steps writes :=
  fun v hv => h v (List.mem_append_right _ hv)

theorem DaemonCommand.IsStep.frame_eq {command : DaemonCommand} (h : command.IsStep) :
    ∃ v, v ≠ 0 ∧ DaemonCommand.codec.encode command = [v, 0, 0, 0] ∧
      command.frame = [4, 0, v, 0, 0, 0] := by
  rcases h with rfl | rfl
  · exact ⟨2, by decide, rfl, rfl⟩
  · exact ⟨3, by decide, rfl, rfl⟩

/-- The bytes of such writes begin with the prefix of a frame, if there are any. -/
theorem Steps.head_ne_zero (h : Steps writes) : wireOf writes ≠ 0 :: rest := by
  induction writes with
  | nil => simp [wireOf]
  | cons w writes ih =>
    obtain ⟨hstep, more, hmore⟩ := h w (List.mem_cons_self ..)
    obtain ⟨v, -, -, hframe⟩ := hstep.frame_eq
    rw [wireOf_cons]
    intro hzero
    cases hw : w.2 with
    | nil =>
      rw [hw, List.nil_append] at hzero
      exact ih h.tail hzero
    | cons b bs =>
      rw [hw, List.cons_append] at hzero hmore
      obtain ⟨rfl, -⟩ := List.cons.inj hzero
      rw [hframe] at hmore
      exact absurd (List.cons.inj hmore).1 (by decide)

/-- Three zeros in the bytes of one frame are its last ones. -/
theorem zeros_of_frame {v : UInt8} (hv : v ≠ 0) {before after : List UInt8}
    (h : [4, 0, v, 0, 0, 0] = before ++ 0 :: 0 :: 0 :: after) :
    before = [4, 0, v] ∧ after = [] := by
  rcases before with _ | ⟨a, _ | ⟨b, _ | ⟨c, before⟩⟩⟩
  · simp at h
  · simp [hv] at h
  · simp [hv] at h
  · have hlen := congrArg List.length h
    simp only [List.length_cons, List.length_nil, List.length_append] at hlen
    obtain rfl : before = [] := List.eq_nil_of_length_eq_zero (by omega)
    simp_all

/-- **Three zeros in a row end a whole frame.** -/
theorem append_zeros_eq (h : Steps writes) {before after : List UInt8}
    (hw : wireOf writes = before ++ 0 :: 0 :: 0 :: after) :
    ∃ pre w post v, writes = pre ++ w :: post ∧ w.2 = w.1.frame ∧
      DaemonCommand.codec.encode w.1 = [v, 0, 0, 0] ∧ before = wireOf pre ++ [4, 0, v] ∧
      after = wireOf post := by
  induction writes generalizing before with
  | nil => simp [wireOf] at hw
  | cons w writes ih =>
    rw [wireOf_cons] at hw
    have hne : ∀ rest, wireOf writes ≠ 0 :: rest := fun _ => h.tail.head_ne_zero
    rcases List.append_eq_append_iff.mp hw with ⟨bs, rfl, hrest⟩ | ⟨cs, hcs, hrest⟩
    · -- The zeros come after the first write.
      obtain ⟨pre, w', post, v, rfl, hwhole, hcode, rfl, rfl⟩ := ih h.tail hrest
      exact ⟨w :: pre, w', post, v, rfl, hwhole, hcode, by simp, rfl⟩
    · -- They begin in the first write, and do not reach into the next one.
      obtain ⟨hstep, more, hmore⟩ := h w (List.mem_cons_self ..)
      obtain ⟨v, hv, hcode, hframe⟩ := hstep.frame_eq
      rcases cs with _ | ⟨a, _ | ⟨b, _ | ⟨c, cs⟩⟩⟩
      · exact absurd hrest.symm (hne _)
      · simp only [List.cons_append, List.nil_append, List.cons.injEq] at hrest
        exact absurd hrest.2.symm (hne _)
      · simp only [List.cons_append, List.nil_append, List.cons.injEq] at hrest
        exact absurd hrest.2.2.symm (hne _)
      · simp only [List.cons_append, List.cons.injEq] at hrest
        obtain ⟨rfl, rfl, rfl, rfl⟩ := hrest
        have hall : [4, 0, v, 0, 0, 0] = before ++ 0 :: 0 :: 0 :: (cs ++ more) := by
          rw [← hframe, ← hmore, hcs]
          simp
        obtain ⟨rfl, hnil⟩ := zeros_of_frame hv hall
        obtain ⟨rfl, rfl⟩ := List.append_eq_nil_iff.mp hnil
        exact ⟨[], w, writes, v, rfl, by simpa using hmore, hcode, rfl, rfl⟩

/-- The payload of any command begins with its number. -/
theorem DaemonCommand.encode_eq (command : DaemonCommand) :
    ∃ v fields, codec.encode command = v :: 0 :: 0 :: 0 :: fields := by
  have hvariant : ∃ v, (Codec.u32 .little).encode command.variant = [v, 0, 0, 0] := by
    cases command with
    | interval millis => exact ⟨1, show (Codec.u32 .little).encode 1 = _ from rfl⟩
    | run | intervalIncrease | intervalDecrease | reset => exact ⟨_, rfl⟩
  obtain ⟨v, hv⟩ := hvariant
  refine ⟨v, command.fields, ?_⟩
  show (Codec.u32 .little).encode command.variant ++ command.fields = _
  rw [hv]
  rfl

/-- **A command that is read was written as a whole**, wherever the stream is taken up. -/
theorem readMsg_torn (h : Steps writes) {reader reader' : SocketReader} {msg : DaemonCommand}
    (hp : reader.pending <:+: wireOf writes)
    (hr : readMsg DaemonCommand.codec.decode reader = .ok (msg, reader')) :
    ∃ pre w post, writes = pre ++ w :: post ∧ w.2 = w.1.frame ∧ msg = w.1 ∧
      reader'.pending <:+: wireOf post := by
  obtain ⟨before, after, hwire⟩ := hp
  obtain ⟨payload, unused, hlt, hdec, hpending⟩ := frame_of_readMsg hr
  obtain ⟨-, rfl⟩ := DaemonCommand.codec.encode_decode _ _ _ hdec
  obtain ⟨v, fields, hcode⟩ := msg.encode_eq
  obtain ⟨l₀, l₁, hlen⟩ : ∃ l₀ l₁, leBytes PREFIX_LEN
      (DaemonCommand.codec.encode msg ++ unused).length = [l₀, l₁] := ⟨_, _, rfl⟩
  have hsplit : wireOf writes = (before ++ [l₀, l₁, v]) ++
      0 :: 0 :: 0 :: (fields ++ unused ++ reader'.pending ++ after) := by
    rw [← hwire, hpending, frame, hlen, hcode]
    simp
  obtain ⟨pre, w, post, v', rfl, hwhole, hcode', hbefore, hafter⟩ := append_zeros_eq h hsplit
  refine ⟨pre, w, post, rfl, hwhole, ?_, ?_⟩
  · -- The three bytes before the zeros are those of the frame that has been written.
    have hlast : l₀ = 4 ∧ l₁ = 0 ∧ v = v' := by
      have htail := (List.append_inj' hbefore rfl).2
      simpa using htail
    obtain ⟨rfl, rfl, rfl⟩ := hlast
    have hsize : (DaemonCommand.codec.encode msg ++ unused).length = 4 := by
      rw [← ofLeBytes_prefix hlt, hlen]
      rfl
    rw [hcode] at hsize
    simp only [List.cons_append, List.length_cons, List.length_append] at hsize
    have hfields : fields = [] := List.eq_nil_of_length_eq_zero (by omega)
    rw [hfields] at hcode
    have hsame := hcode.trans hcode'.symm
    have hmsg := msg.reads_encode.2
    rw [hsame, w.1.reads_encode.2] at hmsg
    exact (Prod.mk.inj (Except.ok.inj hmsg)).1.symm
  · exact ⟨fields ++ unused, after, hafter⟩

end Procnet
