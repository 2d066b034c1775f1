import Procnet.Core.Ipc

/-!
# Streams of frames

What `readMsg` makes of a stream that `writeMsg` produced. The frames of a list of
messages are read back one by one, each read consuming its own frame and nothing
of the next; if the stream is cut, the messages whose frames are complete are read,
and then its end is reported (`RoundTrips`). The bytes may arrive in any pieces:
reading exactly so many bytes hides them, so the proofs are about the bytes still
to come (`BufReader.pending`) only.

The two kinds of stream the program has are snapshots, written from a view and
read as owned values, and commands (`stream_round_trip`).

The other way round, `readMsg` does not compare the length of a frame with what the decoder
has used, so it accepts some frames that are never written (`accepted_frames`).
-/

namespace Procnet

open Lib

variable {α β : Type}

/-! ### One frame -/

/-- The frame of a payload. -/
def frame (payload : List UInt8) : List UInt8 := leBytes PREFIX_LEN payload.length ++ payload

theorem length_frame (payload : List UInt8) :
    (frame payload).length = PREFIX_LEN + payload.length := by
  simp [frame]

/-- **When a message is accepted**, and what is written then. -/
theorem writeMsg_eq (serialize : α → List UInt8) (buf : List UInt8) (msg : α) :
    writeMsg serialize buf msg =
      if (serialize msg).length < 2 ^ 16 then (frame (serialize msg), .ok ())
      else (List.replicate PREFIX_LEN 0 ++ serialize msg, .error .oversized) := by
  have hlen : (List.replicate PREFIX_LEN (0 : UInt8) ++ serialize msg).length - PREFIX_LEN =
      (serialize msg).length := by simp
  have hdrop : (List.replicate PREFIX_LEN (0 : UInt8) ++ serialize msg).drop PREFIX_LEN =
      serialize msg := List.drop_left' (by simp)
  simp only [writeMsg, hlen, u16TryFrom]
  split_ifs with h
  · have hval : (UInt16.ofNat (serialize msg).length).toNat = (serialize msg).length :=
      UInt16.toNat_ofNat_of_lt' h
    simp only [hval, hdrop]
    rfl
  · rfl

theorem writeMsg_ok {serialize : α → List UInt8} {buf : List UInt8} {msg : α}
    (h : (writeMsg serialize buf msg).2 = .ok ()) :
    (serialize msg).length < 2 ^ 16 ∧ (writeMsg serialize buf msg).1 = frame (serialize msg) := by
  rw [writeMsg_eq] at h ⊢
  split_ifs at h ⊢ with hlt
  exact ⟨hlt, rfl⟩

theorem readExactOrEof_of_le {reader : SocketReader} {n : ℕ} {bs rest : List UInt8}
    (hp : reader.pending = bs ++ rest) (hn : bs.length = n) :
    ∃ reader', readExactOrEof reader n = .ok (bs, reader') ∧ reader'.pending = rest ∧
      (reader'.inner.fails ↔ reader.inner.fails) := by
  subst hn
  obtain ⟨r', hr, hp', hf⟩ := reader.readExact_of_le (by decide) (n := bs.length) (by simp [hp])
  refine ⟨r', ?_, by simpa [hp] using hp', hf⟩
  rw [readExactOrEof, hr, hp, List.take_left]
  rfl

theorem readExactOrEof_of_lt {reader : SocketReader} {n : ℕ} (h : reader.pending.length < n)
    (hf : ¬ reader.inner.fails) : readExactOrEof reader n = .error .eof := by
  rw [readExactOrEof, reader.readExact_of_lt (by decide) h, if_neg hf]
  rfl

theorem ofLeBytes_prefix {payload : List UInt8} (h : payload.length < 2 ^ 16) :
    ofLeBytes (leBytes PREFIX_LEN payload.length) = payload.length := by
  rw [ofLeBytes_leBytes]
  exact Nat.mod_eq_of_lt h

/-- **A complete frame is read**, and what follows it is left alone. -/
theorem readMsg_frame {deserialize : Decoder α} {payload rest r : List UInt8} {a : α}
    {reader : SocketReader} (hp : reader.pending = frame payload ++ rest)
    (hlen : payload.length < 2 ^ 16) (hdec : deserialize payload = .ok (a, r)) :
    ∃ reader', readMsg deserialize reader = .ok (a, reader') ∧ reader'.pending = rest ∧
      (reader'.inner.fails ↔ reader.inner.fails) := by
  rw [frame, List.append_assoc] at hp
  obtain ⟨r₁, h₁, hp₁, hf₁⟩ := readExactOrEof_of_le hp (length_leBytes _ _)
  obtain ⟨r₂, h₂, hp₂, hf₂⟩ := readExactOrEof_of_le hp₁ rfl
  refine ⟨r₂, ?_, hp₂, hf₂.trans hf₁⟩
  simp only [readMsg, h₁, ok_bind, ofLeBytes_prefix hlen, h₂, hdec]
  rfl

/-- **An incomplete frame is the end of the stream.** -/
theorem readMsg_short {deserialize : Decoder α} (payload : List UInt8) {reader : SocketReader}
    (hp : reader.pending <+: frame payload) (hshort : reader.pending ≠ frame payload)
    (hlen : payload.length < 2 ^ 16) (hf : ¬ reader.inner.fails) :
    readMsg deserialize reader = .error .eof := by
  obtain ⟨cut, hcut⟩ := hp
  have hpos : 0 < cut.length := by
    refine List.length_pos_of_ne_nil fun h => hshort ?_
    rw [← hcut, h, List.append_nil]
  have htotal := congrArg List.length hcut
  rw [List.length_append, length_frame] at htotal
  rcases Nat.lt_or_ge reader.pending.length PREFIX_LEN with hlt | hge
  · simp only [readMsg, readExactOrEof_of_lt hlt hf]
    rfl
  · -- The prefix is there; the payload is not.
    have hsplit : reader.pending =
        leBytes PREFIX_LEN payload.length ++ reader.pending.drop PREFIX_LEN := by
      have htake : (frame payload).take PREFIX_LEN = leBytes PREFIX_LEN payload.length :=
        List.take_left' (length_leBytes _ _)
      rw [← hcut, List.take_append_of_le_length hge] at htake
      rw [← htake, List.take_append_drop]
    obtain ⟨r₁, h₁, hp₁, hf₁⟩ := readExactOrEof_of_le hsplit (length_leBytes _ _)
    have hlt : r₁.pending.length < payload.length := by
      rw [hp₁, List.length_drop]
      omega
    simp only [readMsg, h₁, ok_bind, ofLeBytes_prefix hlen,
      readExactOrEof_of_lt hlt (hf₁.not.mpr hf)]
    rfl

/-- **What a successful read did**: it read a prefix, as many bytes as this says, and
decoded them. -/
theorem readMsg_eq_ok {deserialize : Decoder α} {reader reader' : SocketReader} {a : α}
    (h : readMsg deserialize reader = .ok (a, reader')) :
    ∃ prefixBuf payload rest reader₁, reader.readExact PREFIX_LEN = .ok (prefixBuf, reader₁) ∧
      reader₁.readExact (ofLeBytes prefixBuf) = .ok (payload, reader') ∧
      deserialize payload = .ok (a, rest) := by
  obtain ⟨⟨prefixBuf, r₁⟩, h₁, h⟩ := bind_eq_ok.mp h
  obtain ⟨⟨payload, r₂⟩, h₂, h⟩ := bind_eq_ok.mp h
  obtain ⟨⟨b, rest⟩, hdec, h⟩ := bind_eq_ok.mp h
  obtain ⟨rfl, rfl⟩ := Prod.mk.inj (Except.ok.inj h)
  exact ⟨prefixBuf, payload, rest, r₁, mapError_eq_ok.mp h₁, mapError_eq_ok.mp h₂,
    mapError_eq_ok.mp hdec⟩

/-! ### Many frames -/

/-- Reads `k` messages in a row. -/
def readMsgs (deserialize : Decoder α) : ℕ → SocketReader →
    Except MsgReadError (List α × SocketReader)
  | 0, reader => .ok ([], reader)
  | k + 1, reader => do
    let (msg, reader) ← readMsg deserialize reader
    let (msgs, reader) ← readMsgs deserialize k reader
    return (msg :: msgs, reader)

/-- How many of the frames of a stream are complete in its first `n` bytes. -/
def completeFrames : List (List UInt8) → ℕ → ℕ
  | [], _ => 0
  | f :: fs, n => if f.length ≤ n then completeFrames fs (n - f.length) + 1 else 0

/-- **What is written is read back.** Messages that were accepted, each written over
any contents of the buffer, are read from their frames in order, each read consuming
its frame; and from a stream that is cut after `n` bytes those whose frames are
complete are read, and then its end. -/
def RoundTrips (serialize : β → List UInt8) (view : β → α) (deserialize : Decoder α) : Prop :=
  ∀ sent : List (List UInt8 × β), (∀ m ∈ sent, (writeMsg serialize m.1 m.2).2 = .ok ()) →
    let frames := sent.map fun m => (writeMsg serialize m.1 m.2).1
    let msgs := sent.map fun m => view m.2
    (∀ (rest : List UInt8) (reader : SocketReader), reader.pending = frames.flatten ++ rest →
      ∀ k ≤ msgs.length, ∃ reader', readMsgs deserialize k reader = .ok (msgs.take k, reader') ∧
        reader'.pending = (frames.drop k).flatten ++ rest) ∧
    ∀ (n : ℕ) (reader : SocketReader), reader.pending = frames.flatten.take n →
      ¬ reader.inner.fails →
      ∃ reader', readMsgs deserialize (completeFrames frames n) reader =
          .ok (msgs.take (completeFrames frames n), reader') ∧
        readMsg deserialize reader' = .error .eof

section Frames

variable {payloads : List (List UInt8)} {msgs : List α} {deserialize : Decoder α}

/-- A payload that fits its prefix and is read as a given value. -/
def Reads (deserialize : Decoder α) (payload : List UInt8) (msg : α) : Prop :=
  payload.length < 2 ^ 16 ∧ deserialize payload = .ok (msg, [])

theorem readMsgs_frames (h : List.Forall₂ (Reads deserialize) payloads msgs) {rest : List UInt8}
    {reader : SocketReader} (hp : reader.pending = (payloads.map frame).flatten ++ rest) {k : ℕ}
    (hk : k ≤ msgs.length) :
    ∃ reader', readMsgs deserialize k reader = .ok (msgs.take k, reader') ∧
      reader'.pending = ((payloads.map frame).drop k).flatten ++ rest := by
  induction h generalizing reader k with
  | nil =>
    obtain rfl : k = 0 := by simpa using hk
    exact ⟨reader, rfl, hp⟩
  | cons hread _ ih =>
    cases k with
    | zero => exact ⟨reader, rfl, hp⟩
    | succ k =>
      rw [List.map_cons, List.flatten_cons, List.append_assoc] at hp
      obtain ⟨r₁, h₁, hp₁, -⟩ := readMsg_frame hp hread.1 hread.2
      obtain ⟨r₂, h₂, hp₂⟩ := ih hp₁ (Nat.le_of_succ_le_succ hk)
      refine ⟨r₂, ?_, hp₂⟩
      simp only [readMsgs, h₁, ok_bind, h₂]
      rfl

theorem readMsgs_cut (h : List.Forall₂ (Reads deserialize) payloads msgs) {n : ℕ}
    {reader : SocketReader} (hp : reader.pending = (payloads.map frame).flatten.take n)
    (hf : ¬ reader.inner.fails) :
    ∃ reader', readMsgs deserialize (completeFrames (payloads.map frame) n) reader =
        .ok (msgs.take (completeFrames (payloads.map frame) n), reader') ∧
      readMsg deserialize reader' = .error .eof := by
  induction h generalizing reader n with
  | nil =>
    refine ⟨reader, rfl, ?_⟩
    -- The stream has ended before the frame of any payload, of the empty one say.
    refine readMsg_short [] ?_ ?_ (by decide) hf <;> simp [hp, frame, PREFIX_LEN, leBytes]
  | @cons payload msg payloads msgs hread _ ih =>
    rw [List.map_cons, List.flatten_cons] at hp
    rw [List.map_cons, completeFrames]
    split_ifs with hle
    · rw [List.take_append, List.take_of_length_le hle] at hp
      obtain ⟨r₁, h₁, hp₁, hf₁⟩ := readMsg_frame hp hread.1 hread.2
      obtain ⟨r₂, h₂, heof⟩ := ih hp₁ (hf₁.not.mpr hf)
      refine ⟨r₂, ?_, heof⟩
      simp only [readMsgs, h₁, ok_bind, h₂]
      rfl
    · refine ⟨reader, rfl, ?_⟩
      rw [List.take_append_of_le_length (by omega)] at hp
      refine readMsg_short payload ?_ (fun heq => ?_) hread.1 hf
      · rw [hp]
        exact List.take_prefix _ _
      · have hlen := congrArg List.length (hp.symm.trans heq)
        rw [List.length_take] at hlen
        omega

/-- A serializer and a deserializer that agree on single messages agree on
streams. -/
theorem roundTrips_of_reads {serialize : β → List UInt8} {view : β → α}
    (h : ∀ msg, (serialize msg).length < 2 ^ 16 →
      deserialize (serialize msg) = .ok (view msg, [])) :
    RoundTrips serialize view deserialize := by
  intro sent hsent
  have hframes : (sent.map fun m => (writeMsg serialize m.1 m.2).1) =
      (sent.map fun m => serialize m.2).map frame := by
    rw [List.map_map]
    exact List.map_congr_left fun m hm => (writeMsg_ok (hsent m hm)).2
  have hreads : List.Forall₂ (Reads deserialize) (sent.map fun m => serialize m.2)
      (sent.map fun m => view m.2) := by
    rw [List.forall₂_map_left_iff, List.forall₂_map_right_iff, List.forall₂_same]
    intro m hm
    obtain ⟨hlt, -⟩ := writeMsg_ok (hsent m hm)
    exact ⟨hlt, h m.2 hlt⟩
  simp only [hframes]
  exact ⟨fun rest reader hp k hk => readMsgs_frames hreads hp hk,
    fun n reader hp hf => readMsgs_cut hreads hp hf⟩

end Frames

/-! ### Snapshots and commands -/

/-- A short payload of a codec is read as the value it was made from. -/
theorem Lib.Codec.reads_encode {c : Codec α} (hc : c.Fits) {a : α}
    (h : (c.encode a).length < 2 ^ 16) : c.decode (c.encode a) = .ok (a, []) := by
  have hdec := c.decode_encode a [] (hc a (by omega))
  rwa [List.append_nil] at hdec

/-- **Wire round trip over whole streams**: snapshots, written from views and read as
owned values, and commands. -/
theorem stream_round_trip :
    RoundTrips SnapshotRef.serialize SnapshotRef.toData SnapshotData.codec.decode ∧
      RoundTrips DaemonCommand.codec.encode id DaemonCommand.codec.decode := by
  constructor
  · refine roundTrips_of_reads fun msg h => ?_
    rw [SnapshotRef.serialize_eq] at h ⊢
    exact Codec.reads_encode SnapshotData.fits_codec h
  · exact roundTrips_of_reads fun msg h => Codec.reads_encode (Codec.fits_of_dom fun _ => trivial) h

/-- Two commands, cut two bytes into the frame of the second and delivered in two
pieces: the first is read, then the end of the stream. -/
theorem stream_round_trip_cut :
    ∃ reader', readMsgs DaemonCommand.codec.decode 1
        (BufReader.new [.bytes 4 [0, 0], .bytes 0 [0, 0, 12, 0]]) = .ok ([.run], reader') ∧
      readMsg DaemonCommand.codec.decode reader' = .error .eof := by
  have hsent : ∀ m ∈ [([], DaemonCommand.run), ([1, 2, 3], .interval 200)],
      (writeMsg DaemonCommand.codec.encode m.1 m.2).2 = .ok () := by
    simp only [List.forall_mem_cons]
    exact ⟨rfl, rfl, by simp⟩
  exact (stream_round_trip.2 _ hsent).2 8 (BufReader.new [.bytes 4 [0, 0], .bytes 0 [0, 0, 12, 0]])
    rfl (by decide)

/-! ### Which frames are accepted -/

/-- **A read takes a frame**, of all the payload that the decoder has been given. -/
theorem frame_of_readMsg {deserialize : Decoder α} {reader reader' : SocketReader} {a : α}
    (h : readMsg deserialize reader = .ok (a, reader')) :
    ∃ payload unused, payload.length < 2 ^ 16 ∧ deserialize payload = .ok (a, unused) ∧
      reader.pending = frame payload ++ reader'.pending := by
  obtain ⟨prefixBuf, payload, unused, reader₁, h₁, h₂, hdec⟩ := readMsg_eq_ok h
  obtain ⟨hlen₁, hp₁⟩ := BufReader.readExact_eq_ok (by decide) h₁
  obtain ⟨hlen, hp₂⟩ := BufReader.readExact_eq_ok (by decide) h₂
  have hlt := ofLeBytes_lt prefixBuf
  rw [hlen₁, ← hlen] at hlt
  -- Two bytes spell only one length, so the prefix is the one that would be written.
  have hbytes : leBytes PREFIX_LEN payload.length = prefixBuf := by
    rw [hlen, ← hlen₁, leBytes_ofLeBytes]
  exact ⟨payload, unused, hlt, hdec, by rw [hp₁, hp₂, frame, hbytes, List.append_assoc]⟩

/-- **The frames a message is read from**: its encoding, and then any bytes that the decoder does
not use. Such a frame is what is written for the message exactly if it has none. -/
def AcceptsPadded (c : Codec α) : Prop :=
  (∀ (reader reader' : SocketReader) (msg : α), readMsg c.decode reader = .ok (msg, reader') →
    ∃ unused, (c.encode msg ++ unused).length < 2 ^ 16 ∧
      reader.pending = frame (c.encode msg ++ unused) ++ reader'.pending ∧
      ∀ buf, (writeMsg c.encode buf msg).2 = .ok () ∧
        ((writeMsg c.encode buf msg).1 = frame (c.encode msg ++ unused) ↔ unused = [])) ∧
  ∀ (reader : SocketReader) (msg : α) (unused rest : List UInt8),
    (c.encode msg ++ unused).length < 2 ^ 16 →
    reader.pending = frame (c.encode msg ++ unused) ++ rest →
    ∃ reader', readMsg c.decode reader = .ok (msg, reader') ∧ reader'.pending = rest

theorem acceptsPadded_of_fits {c : Codec α} (hc : c.Fits) : AcceptsPadded c := by
  constructor
  · intro reader reader' msg hread
    obtain ⟨payload, unused, hlt, hdec, hpending⟩ := frame_of_readMsg hread
    obtain ⟨-, rfl⟩ := c.encode_decode payload msg unused hdec
    refine ⟨unused, hlt, hpending, fun buf => ?_⟩
    have hmsg : (c.encode msg).length < 2 ^ 16 := by
      rw [List.length_append] at hlt
      omega
    rw [writeMsg_eq, if_pos hmsg]
    refine ⟨rfl, fun heq => ?_, ?_⟩
    · -- A frame that has no unused bytes is shorter.
      have hlen := congrArg List.length heq
      rw [length_frame, length_frame, List.length_append] at hlen
      exact List.length_eq_zero_iff.mp (by omega)
    · rintro rfl
      rw [List.append_nil]
  · intro reader msg unused rest hlt hpending
    have hdom : c.dom msg := hc msg (by
      rw [List.length_append] at hlt
      omega)
    obtain ⟨reader', hread, hrest, -⟩ :=
      readMsg_frame hpending hlt (c.decode_encode msg unused hdom)
    exact ⟨reader', hread, hrest⟩

/-- **Which frames `readMsg` accepts**, of either kind of message: those that `writeMsg` produces,
and the same with unused bytes in the payload. -/
theorem accepted_frames :
    AcceptsPadded SnapshotData.codec ∧ AcceptsPadded DaemonCommand.codec :=
  ⟨acceptsPadded_of_fits SnapshotData.fits_codec,
    acceptsPadded_of_fits (Codec.fits_of_dom fun _ => trivial)⟩

/-- A command with an unused byte is accepted, and is not what is written for it. -/
theorem unused_byte_accepted :
    ∃ reader', readMsg DaemonCommand.codec.decode (BufReader.new [.bytes 5 [0, 0, 0, 0, 0, 255]]) =
        .ok (.run, reader') ∧ reader'.pending = [] ∧
      (writeMsg DaemonCommand.codec.encode [] .run).1 ≠ [5, 0, 0, 0, 0, 0, 255] := by
  have hpending : (BufReader.new [.bytes 5 [0, 0, 0, 0, 0, 255]] : SocketReader).pending =
      frame (DaemonCommand.codec.encode .run ++ [255]) ++ [] := rfl
  obtain ⟨reader', hread, hrest, -⟩ :=
    readMsg_frame hpending (by decide) (DaemonCommand.codec.decode_encode .run [255] trivial)
  exact ⟨reader', hread, hrest, by decide⟩

/-- An empty snapshot, with two unused bytes, is read. -/
theorem accepted_frames_empty :
    ∃ reader', readMsg SnapshotData.codec.decode (BufReader.new (Source.putBack
        (frame (SnapshotData.codec.encode ⟨1000, 1, [], []⟩ ++ [1, 2])) [])) =
      .ok (⟨1000, 1, [], []⟩, reader') ∧ reader'.pending = [] :=
  accepted_frames.1.2 _ ⟨1000, 1, [], []⟩ [1, 2] [] (by decide) (by
    rw [BufReader.pending_new, Source.bytes_putBack]
    rfl)

end Procnet
