import Procnet.Core.Stats
import Procnet.Lib.BufReader

/-!
# The messages between the daemon and its clients

The wire format of `procnet-core/src/ipc.rs`. A message is framed by its length on
two bytes (`writeMsg`, `readMsg`); its payload is the `bincode` form of a value,
which writes the fields of a structure in the order of their declaration, integers
at their full width in little-endian order, lengths of sequences and strings on
eight bytes, and the index of an enum variant on four.

The daemon serializes a borrowed `SnapshotRef`, a client reads an owned
`SnapshotData`. They are two types with a serializer each, and nothing but the
order of their fields makes them agree (`SnapshotRef.serialize_eq`).

That a stream of frames is read back as the messages that were written, however it
is delivered and wherever it is cut, is the subject of `Procnet.Core.Wire`; the
exact size of a snapshot (`length_serialize_snapshotRef`) decides in
`Procnet.Daemon.App` which ones can be sent.
-/

namespace Procnet

open Lib

/-- Length of the prefix used to frame each message. -/
def PREFIX_LEN : ℕ := 2

/-- The capacity of a `BufReader` that is not given one. -/
def DEFAULT_BUF_SIZE : ℕ := 8 * 1024

/-- A buffered reader of a socket. -/
abbrev SocketReader := BufReader DEFAULT_BUF_SIZE

/-! ### Messages -/

/-- What a client asks of the daemon. -/
inductive DaemonCommand where
  /-- Stay connected and receive the snapshots. -/
  | run : DaemonCommand
  /-- Set the refresh interval, in milliseconds. -/
  | interval (interval : UInt64) : DaemonCommand
  | intervalIncrease : DaemonCommand
  | intervalDecrease : DaemonCommand
  | reset : DaemonCommand
  deriving DecidableEq, Repr

/-- A snapshot, as a client receives it. -/
structure SnapshotData where
  interval : UInt64
  tick : UInt64
  rows : List StatsRow
  deadProcs : List ProcInfo
  deriving DecidableEq, Repr

/-- A snapshot, as the daemon sends it: a view of its own buffers. -/
structure SnapshotRef where
  interval : UInt64
  tick : UInt64
  rows : List StatsRow
  deadProcs : List ProcInfo
  deriving DecidableEq, Repr

/-- The snapshot that a view shows. -/
def SnapshotRef.toData (s : SnapshotRef) : SnapshotData :=
  ⟨s.interval, s.tick, s.rows, s.deadProcs⟩

/-! ### Payloads

The counters and addresses are made of fixed-width integers and a byte array only,
so their `bincode` form is the memory layout of a little-endian host. -/

/-- The payload form of a tracked process. -/
def ProcInfo.codec : Codec ProcInfo :=
  ((Codec.u32 .little).pair (Codec.str.pair ((StatsBytes.layout .little).pair
    (StatsBytes.layout .little)))).iso
    (fun p => ⟨p.1, p.2.1, p.2.2.1, p.2.2.2⟩) (fun i => (i.pid, i.name, i.tcpCum, i.udpCum))
    (fun _ => rfl) fun _ => rfl

/-- The payload form of a row. -/
def StatsRow.codec : Codec StatsRow :=
  ((Codec.u32 .little).pair (Codec.str.pair ((ProtocolStats.layout .little).pair
    ((ProtocolStats.layout .little).pair ((StatsBytes.layout .little).pair
      (StatsBytes.layout .little)))))).iso
    (fun p => ⟨p.1, p.2.1, p.2.2.1, p.2.2.2.1, p.2.2.2.2.1, p.2.2.2.2.2⟩)
    (fun r => (r.pid, r.name, r.tcp, r.udp, r.tcpCum, r.udpCum)) (fun _ => rfl) fun _ => rfl

/-- The payload form of a snapshot. -/
def SnapshotData.codec : Codec SnapshotData :=
  ((Codec.u64 .little).pair ((Codec.u64 .little).pair ((Codec.list StatsRow.codec).pair
    (Codec.list ProcInfo.codec)))).iso
    (fun p => ⟨p.1, p.2.1, p.2.2.1, p.2.2.2⟩)
    (fun s => (s.interval, s.tick, s.rows, s.deadProcs)) (fun _ => rfl) fun _ => rfl

/-- Serializes a view of a snapshot, field by field. -/
def SnapshotRef.serialize (s : SnapshotRef) : List UInt8 :=
  (Codec.u64 .little).encode s.interval ++ (Codec.u64 .little).encode s.tick ++
    (Codec.list StatsRow.codec).encode s.rows ++ (Codec.list ProcInfo.codec).encode s.deadProcs

namespace DaemonCommand

/-- The index of a variant. -/
def variant : DaemonCommand → UInt32
  | run => 0
  | interval _ => 1
  | intervalIncrease => 2
  | intervalDecrease => 3
  | reset => 4

/-- The fields of a variant. -/
def fields : DaemonCommand → List UInt8
  | interval millis => (Codec.u64 .little).encode millis
  | run | intervalIncrease | intervalDecrease | reset => []

/-- Reads the fields of the variant with a given index. -/
def decodeFields (variant : UInt32) (b : List UInt8) :
    Except DecodeError (DaemonCommand × List UInt8) :=
  if variant = 0 then .ok (run, b)
  else if variant = 1 then do
    let (millis, b) ← (Codec.u64 .little).decode b
    return (interval millis, b)
  else if variant = 2 then .ok (intervalIncrease, b)
  else if variant = 3 then .ok (intervalDecrease, b)
  else if variant = 4 then .ok (reset, b)
  else .error (.invalidTag variant.toNat)

theorem decodeFields_fields (c : DaemonCommand) (r : List UInt8) :
    decodeFields c.variant (c.fields ++ r) = .ok (c, r) := by
  cases c with
  | interval millis =>
    have h := (Codec.u64 .little).decode_encode millis r trivial
    simp [decodeFields, variant, fields, h]
  | run | intervalIncrease | intervalDecrease | reset => rfl

theorem fields_of_decodeFields {v : UInt32} {b r : List UInt8} {c : DaemonCommand}
    (h : decodeFields v b = .ok (c, r)) : v = c.variant ∧ b = c.fields ++ r := by
  unfold decodeFields at h
  split_ifs at h with h0 h1 h2 h3 h4
  · obtain ⟨rfl, rfl⟩ := Prod.mk.inj (Except.ok.inj h)
    exact ⟨h0, rfl⟩
  · obtain ⟨⟨millis, b'⟩, hb, hr⟩ := bind_eq_ok.mp h
    obtain ⟨rfl, rfl⟩ := Prod.mk.inj (Except.ok.inj hr)
    exact ⟨h1, ((Codec.u64 .little).encode_decode _ _ _ hb).2⟩
  · obtain ⟨rfl, rfl⟩ := Prod.mk.inj (Except.ok.inj h)
    exact ⟨h2, rfl⟩
  · obtain ⟨rfl, rfl⟩ := Prod.mk.inj (Except.ok.inj h)
    exact ⟨h3, rfl⟩
  · obtain ⟨rfl, rfl⟩ := Prod.mk.inj (Except.ok.inj h)
    exact ⟨h4, rfl⟩

/-- The payload form of a command. -/
def codec : Codec DaemonCommand where
  encode c := (Codec.u32 .little).encode c.variant ++ c.fields
  decode b := do
    let (variant, b) ← (Codec.u32 .little).decode b
    decodeFields variant b
  dom _ := True
  decode_encode c r _ := by
    rw [List.append_assoc, (Codec.u32 .little).decode_encode _ _ trivial]
    exact decodeFields_fields c r
  encode_decode b c r h := by
    obtain ⟨⟨v, b'⟩, hv, hrest⟩ := bind_eq_ok.mp h
    obtain ⟨rfl, rfl⟩ := fields_of_decodeFields hrest
    refine ⟨trivial, ?_⟩
    rw [((Codec.u32 .little).encode_decode _ _ _ hv).2, List.append_assoc]

end DaemonCommand

/-! ### Sizes and domains -/

@[simp] theorem StatsBytes.length_encode_layout (e : Endian) (b : StatsBytes) :
    ((layout e).encode b).length = 16 :=
  (fixed_layout e).length b

@[simp] theorem ProtocolStats.length_encode_layout (e : Endian) (s : ProtocolStats) :
    ((layout e).encode s).length = 40 :=
  (fixed_layout e).length s

@[simp] theorem ProcInfo.length_encode_codec (i : ProcInfo) :
    (codec.encode i).length = 44 + i.name.utf8ByteSize := by
  simp [codec, Codec.iso]
  omega

@[simp] theorem StatsRow.length_encode_codec (r : StatsRow) :
    (codec.encode r).length = 124 + r.name.utf8ByteSize := by
  simp [codec, Codec.iso]
  omega

/-- **The size of a snapshot**: fixed fields, and the rows and dead processes with
their names. -/
theorem length_serialize_snapshotRef (s : SnapshotRef) :
    s.serialize.length =
      32 + (s.rows.map fun r => 124 + r.name.utf8ByteSize).sum +
        (s.deadProcs.map fun i => 44 + i.name.utf8ByteSize).sum := by
  simp only [SnapshotRef.serialize, List.length_append, Codec.length_encode_u64, Codec.encode_list,
    length_leBytes, List.length_flatMap, StatsRow.length_encode_codec,
    ProcInfo.length_encode_codec]
  omega

/-- **The view and the snapshot are serialized alike.** -/
theorem SnapshotRef.serialize_eq (s : SnapshotRef) :
    s.serialize = SnapshotData.codec.encode s.toData := by
  simp [serialize, SnapshotData.codec, Codec.iso, Codec.pair, toData]

theorem ProcInfo.fits_codec : codec.Fits :=
  ((Codec.fits_of_dom (Codec.dom_u32 _)).pair (Codec.fits_str.pair
    ((Codec.fits_of_dom (StatsBytes.fixed_layout _).dom).pair
      (Codec.fits_of_dom (StatsBytes.fixed_layout _).dom)))).iso

theorem StatsRow.fits_codec : codec.Fits :=
  ((Codec.fits_of_dom (Codec.dom_u32 _)).pair (Codec.fits_str.pair
    ((Codec.fits_of_dom (ProtocolStats.fixed_layout _).dom).pair
      ((Codec.fits_of_dom (ProtocolStats.fixed_layout _).dom).pair
        ((Codec.fits_of_dom (StatsBytes.fixed_layout _).dom).pair
          (Codec.fits_of_dom (StatsBytes.fixed_layout _).dom)))))).iso

theorem SnapshotData.fits_codec : codec.Fits :=
  ((Codec.fits_of_dom (Codec.dom_u64 _)).pair ((Codec.fits_of_dom (Codec.dom_u64 _)).pair
    ((StatsRow.fits_codec.list fun r => by simp).pair
      (ProcInfo.fits_codec.list fun i => by simp)))).iso

/-! ### Frames -/

/-- Why a message is not sent. Serializing into memory itself cannot fail. -/
inductive MsgSendError where
  /-- The payload exceeds the length the prefix can hold. -/
  | oversized : MsgSendError
  deriving DecidableEq, Repr

/-- Why a message is not received. -/
inductive MsgReadError where
  /-- The stream ended. -/
  | eof : MsgReadError
  | io : MsgReadError
  | decode (source : DecodeError) : MsgReadError
  deriving DecidableEq, Repr

/-- Converts to a 16-bit integer, if it fits. -/
def u16TryFrom (n : ℕ) : Option UInt16 := if n < 2 ^ 16 then some (UInt16.ofNat n) else none

/-- Writes a frame over what the buffer holds. On an error the buffer is left with
a prefix of zeros. -/
def writeMsg {α : Type} (serialize : α → List UInt8) (_buf : List UInt8) (msg : α) :
    List UInt8 × Except MsgSendError Unit :=
  -- the buffer is cleared first
  let buf := List.replicate PREFIX_LEN 0 ++ serialize msg
  match u16TryFrom (buf.length - PREFIX_LEN) with
  | none => (buf, .error .oversized)
  | some payloadLen => (leBytes 2 payloadLen.toNat ++ buf.drop PREFIX_LEN, .ok ())

/-- Reads exactly `n` bytes, and tells the end of the stream from other errors. -/
def readExactOrEof (reader : SocketReader) (n : ℕ) :
    Except MsgReadError (List UInt8 × SocketReader) :=
  (reader.readExact n).mapError fun
    | .unexpectedEof => .eof
    | .io => .io

/-- Reads a frame. Bytes of the payload that the value does not take are ignored. -/
def readMsg {α : Type} (deserialize : Decoder α) (reader : SocketReader) :
    Except MsgReadError (α × SocketReader) := do
  let (prefixBuf, reader) ← readExactOrEof reader PREFIX_LEN
  let payloadLen := ofLeBytes prefixBuf
  let (payloadBuf, reader) ← readExactOrEof reader payloadLen
  let (response, _) ← (deserialize payloadBuf).mapError .decode
  return (response, reader)

end Procnet
