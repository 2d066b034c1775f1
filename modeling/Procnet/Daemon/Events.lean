import Procnet.Core.Layout
import Procnet.Lib.Utf8

/-!
# Start events, from the ring buffer to the collector

The kernel side announces an entry by a record of `EVENTS`: the process, and the command name of
the thread that was running (`emit_start_event` in `bpf/procnet.bpf.c`). The daemon consumes the
records (`procnetd/src/events.rs`), and looks under `/proc` for a better name than the one it was
given: that of the executable, or the command name as it is now. By then the process may be gone,
and its pid another one's; what `/proc` says at that moment is up to the environment (`ProcFs`).

The command name is cut to fifteen bytes by the kernel, and may be cut inside a character; it is
decoded so that this character is replaced, and no other one. Whatever the records, they are handed
out in order (`start_event_named`). Whatever it is that `/proc` says, a name is never longer than
its longest part allows (`utf8ByteSize_name_le`).
-/

namespace Procnet

open Lib

/-! ### The record -/

/-- `ProcStartEvent` of the kernel side, `ProcStartEventBpf` of the daemon. -/
structure ProcStartEventBpf where
  /-- `tgid` on the kernel side. -/
  pid : UInt32
  comm : Vector UInt8 16
  deriving DecidableEq, Repr

/-- `struct ProcStartEvent` in C. -/
def cProcStartEvent (e : Endian) : CType ProcStartEventBpf := .struct [
  (CType.u32 e).field "tgid" ProcStartEventBpf.pid,
  (CType.byteArray 16).field "comm" ProcStartEventBpf.comm]

/-- `ProcStartEventBpf`, which is `#[repr(C)]`, as its fields are read. -/
def ProcStartEventBpf.layout (e : Endian) : Codec ProcStartEventBpf :=
  ((Codec.u32 e).pair (Codec.byteArray 16)).iso (fun p => ⟨p.1, p.2⟩) (fun r => (r.pid, r.comm))
    (fun _ => rfl) fun _ => rfl

/-- Bytes of a `ProcStartEventBpf` in memory. -/
def sizeOfProcStartEventBpf : ℕ := 20

/-- `bpf_get_current_comm`: as much of the command name as fits before a final zero, and zeros. -/
def bpfGetCurrentComm (comm : List UInt8) : Vector UInt8 16 :=
  .ofFn fun i => if i.val < 15 then comm.getD i.val 0 else 0

/-- The record that `emit_start_event` submits. -/
def emitStartEvent (tgid : UInt32) (comm : Vector UInt8 16) : ProcStartEventBpf := ⟨tgid, comm⟩

/-! ### Names -/

/-- What `/proc` says at some moment. -/
structure ProcFs where
  /-- The target of the link `/proc/{pid}/exe`, if it can be read. -/
  exe : UInt32 → Option (List UInt8)
  /-- The contents of `/proc/{pid}/comm`, if they can be read. -/
  comm : UInt32 → Option (List UInt8)

/-- `/` -/
def SLASH : UInt8 := 47

/-- `.` -/
def DOT : UInt8 := 46

/-- The last component of a path, if it is the name of a file. Empty components and `.` do not
count. -/
def fileName (path : List UInt8) : Option (List UInt8) :=
  let parts := ((path.splitOn SLASH).reverse.dropWhile fun part => part = [] ∨ part = [DOT])
  parts.head?.filter (· ≠ [DOT, DOT])

/-- The Unicode property `White_Space`. -/
def isWhitespace (c : Char) : Bool :=
  (9 ≤ c.toNat ∧ c.toNat ≤ 13) ∨ c.toNat = 32 ∨ c.toNat = 0x85 ∨ c.toNat = 0xA0 ∨
    c.toNat = 0x1680 ∨ (0x2000 ≤ c.toNat ∧ c.toNat ≤ 0x200A) ∨ c.toNat = 0x2028 ∨
    c.toNat = 0x2029 ∨ c.toNat = 0x202F ∨ c.toNat = 0x205F ∨ c.toNat = 0x3000

/-- A text without the white space at its two ends. -/
def trim (s : String) : String :=
  .ofList ((s.toList.dropWhile isWhitespace).reverse.dropWhile isWhitespace).reverse

/-- The name of the executable of a process, if it can be said as a text. -/
def ProcFs.exeName (proc : ProcFs) (pid : UInt32) : Option String :=
  (((proc.exe pid).bind fileName).bind Codec.ofUtf8Bytes).filter (· ≠ "")

/-- The command name of a process. -/
def ProcFs.commName (proc : ProcFs) (pid : UInt32) : Option String :=
  (((proc.comm pid).bind Codec.ofUtf8Bytes).map trim).filter (· ≠ "")

/-- The name of a process, if `/proc` says any. -/
def getProcName (proc : ProcFs) (pid : UInt32) : Option String :=
  (proc.exeName pid).or (proc.commName pid)

/-- A command name, as far as the first zero. -/
def commToString (comm : Vector UInt8 16) : String :=
  let stop := (comm.toList.findIdx? (· == 0)).getD comm.size
  .ofList (Utf8Pending.start.lossy (comm.toList.take stop))

/-- The event that a record says. -/
def parseProcEvent (e : Endian) (proc : ProcFs) (data : List UInt8) : Option ProcStartEvent :=
  if data.length ≠ sizeOfProcStartEventBpf then none
  else ((ProcStartEventBpf.layout e).decode data).toOption.map fun (raw, _) =>
    ⟨raw.pid, (getProcName proc raw.pid).getD (commToString raw.comm)⟩

/-! ### The reader -/

/-- The reader of the ring buffer, with the events that have not been handed out. -/
structure EventReader where
  queue : List ProcStartEvent
  deriving DecidableEq, Repr

/-- A record of the ring buffer, and what `/proc` says when it is consumed. -/
structure Consumed where
  proc : ProcFs
  data : List UInt8

/-- What is pushed for a record. -/
def Consumed.event (e : Endian) (r : Consumed) : Option ProcStartEvent :=
  parseProcEvent e r.proc r.data

namespace EventReader

/-- A reader that has read nothing yet. -/
def new : EventReader := ⟨[]⟩

/-- The callback of the ring buffer. -/
def push (e : Endian) (reader : EventReader) (r : Consumed) : EventReader :=
  match r.event e with
  | some event => ⟨reader.queue ++ [event]⟩
  | none => reader

/-- Consumes the records that are there, and hands the events out if that works. -/
def drainAvailable (e : Endian) (reader : EventReader) (records : List Consumed) (ok : Bool) :
    EventReader × Option (List ProcStartEvent) :=
  let reader := records.foldl (push e) reader
  if ok then (⟨[]⟩, some reader.queue) else (reader, none)

theorem queue_push (e : Endian) (reader : EventReader) (r : Consumed) :
    (reader.push e r).queue = reader.queue ++ (r.event e).toList := by
  unfold push
  cases r.event e with
  | some event => rfl
  | none => exact (List.append_nil _).symm

/-- **What is handed out**: the events of the records, in order, behind those that were left. -/
theorem drainAvailable_eq (e : Endian) (reader : EventReader) (records : List Consumed) :
    reader.drainAvailable e records true =
      (.new, some (reader.queue ++ records.filterMap (Consumed.event e))) := by
  have hqueue : ∀ reader : EventReader, (records.foldl (push e) reader).queue =
      reader.queue ++ records.filterMap (Consumed.event e) := by
    induction records with
    | nil => exact fun reader => (List.append_nil _).symm
    | cons r records ih =>
      intro reader
      rw [List.foldl_cons, ih, queue_push, List.append_assoc]
      cases hr : r.event e <;> simp [hr]
  rw [drainAvailable, if_pos rfl, hqueue]
  rfl

end EventReader

/-! ### What the daemon reads is what was submitted -/

theorem packed_cProcStartEvent (e : Endian) : (cProcStartEvent e).Packed ∧
    (cProcStartEvent e).dims = (sizeOfProcStartEventBpf, 4) := by
  refine CType.packed_struct [(4, 4), (16, 1)] rfl (by decide) ?_
  simp only [List.forall_mem_cons]
  exact ⟨(CType.packed_scalar ..).field .., (CType.packed_byteArray 16).field .., by simp⟩

theorem contents_cProcStartEvent (e : Endian) (raw : ProcStartEventBpf) :
    (cProcStartEvent e).contents raw = (ProcStartEventBpf.layout e).encode raw := by
  simp [cProcStartEvent, ProcStartEventBpf.layout, Codec.iso, Codec.pair, CType.u32, Codec.u32,
    Codec.uint, Codec.byteArray]

theorem ProcStartEventBpf.fixed_layout (e : Endian) :
    (ProcStartEventBpf.layout e).Fixed sizeOfProcStartEventBpf :=
  ((Codec.fixed_u32 e).pair (Codec.fixed_byteArray 16)).iso

/-- **A record is read as it was written**, by whichever bytes it is represented. -/
theorem parseProcEvent_of_represents {e : Endian} {raw : ProcStartEventBpf} {data : List UInt8}
    (h : (cProcStartEvent e).Represents raw data) (proc : ProcFs) :
    parseProcEvent e proc data =
      some ⟨raw.pid, (getProcName proc raw.pid).getD (commToString raw.comm)⟩ := by
  have hfixed := ProcStartEventBpf.fixed_layout e
  have hdata : data = (ProcStartEventBpf.layout e).encode raw := by
    rw [← contents_cProcStartEvent]
    exact (packed_cProcStartEvent e).1.represents_iff.mp h
  have hlen : data.length = sizeOfProcStartEventBpf := hdata ▸ hfixed.length raw
  have hdecode : (ProcStartEventBpf.layout e).decode data = .ok (raw, []) := by
    rw [hdata, ← List.append_nil ((ProcStartEventBpf.layout e).encode raw)]
    exact (ProcStartEventBpf.layout e).decode_encode raw [] (hfixed.dom raw)
  rw [parseProcEvent, if_neg (not_not.mpr hlen), hdecode]
  rfl

/-- **Every byte string of the size of a record is read**, and no other is. -/
theorem isSome_parseProcEvent (e : Endian) (proc : ProcFs) (data : List UInt8) :
    (parseProcEvent e proc data).isSome ↔ data.length = sizeOfProcStartEventBpf := by
  unfold parseProcEvent
  split
  case isTrue hlen => exact iff_of_false (by simp) hlen
  case isFalse hlen =>
    obtain ⟨raw, r, hraw⟩ :=
      (ProcStartEventBpf.fixed_layout e).exists_decode data (not_not.mp hlen).ge
    rw [hraw]
    exact iff_of_true rfl (not_not.mp hlen)

/-! ### The name of a file -/

/-- A component of a path that names a file. -/
structure IsFileName (name : List UInt8) : Prop where
  slash : SLASH ∉ name
  ne_nil : name ≠ []
  ne_dot : name ≠ [DOT]
  ne_dots : name ≠ [DOT, DOT]

theorem reverse_splitOn_append {name : List UInt8} (hslash : SLASH ∉ name) (dir : List UInt8) :
    ((dir ++ SLASH :: name).splitOn SLASH).reverse = name :: (dir.splitOn SLASH).reverse := by
  rw [List.splitOn_append_cons_self, List.splitOn_eq_singleton hslash, List.reverse_append,
    List.reverse_singleton, List.singleton_append]

/-- **The file that a path leads to.** -/
theorem fileName_append {name : List UInt8} (h : IsFileName name) (dir : List UInt8) :
    fileName (dir ++ SLASH :: name) = some name := by
  have hkeep : decide (name = [] ∨ name = [DOT]) = false :=
    decide_eq_false (not_or.mpr ⟨h.ne_nil, h.ne_dot⟩)
  have hname : decide (name ≠ [DOT, DOT]) = true := decide_eq_true h.ne_dots
  simp only [fileName, reverse_splitOn_append h.slash, List.dropWhile_cons, hkeep,
    Bool.false_eq_true, if_false, List.head?_cons, Option.filter_some, hname, if_true]

/-! ### The command name -/

theorem toList_bpfGetCurrentComm (comm : List UInt8) :
    (bpfGetCurrentComm comm).toList =
      comm.take 15 ++ List.replicate (16 - (comm.take 15).length) 0 := by
  have hle : (comm.take 15).length ≤ 15 := List.length_take_le ..
  refine List.ext_getElem (by simp) fun i hi hi' => ?_
  have hi : i < 16 := by simpa using hi
  simp only [bpfGetCurrentComm, Vector.getElem_toList, Vector.getElem_ofFn, List.getElem_append]
  split_ifs with h15 hlt hlt
  · rw [List.getElem_take, List.getD_eq_getElem?_getD, List.getElem?_eq_getElem, Option.getD_some]
  · rw [List.getElem_replicate, List.getD_eq_getElem?_getD, List.getElem?_eq_none, Option.getD_none]
    rw [List.length_take] at hlt
    omega
  · omega
  · rw [List.getElem_replicate]

/-- What is read of a command name is what the kernel kept of it. -/
theorem commToString_bpfGetCurrentComm {comm : List UInt8} (h : 0 ∉ comm) :
    commToString (bpfGetCurrentComm comm) =
      .ofList (Utf8Pending.start.lossy (comm.take 15)) := by
  have hle : (comm.take 15).length ≤ 15 := List.length_take_le ..
  obtain ⟨k, hk⟩ : ∃ k, 16 - (comm.take 15).length = k + 1 := ⟨15 - (comm.take 15).length, by omega⟩
  -- The first zero is the one that the kernel put behind the name.
  have hend : (bpfGetCurrentComm comm).toList.findIdx? (· == 0) = some (comm.take 15).length := by
    rw [toList_bpfGetCurrentComm, hk, List.replicate_succ, List.findIdx?_append]
    have hnone : (comm.take 15).findIdx? (· == 0) = none := by
      refine List.findIdx?_eq_none_iff.mpr fun b hb => beq_eq_false_iff_ne.mpr ?_
      rintro rfl
      exact h (List.mem_of_mem_take hb)
    simp [hnone, List.findIdx?_cons]
  rw [commToString, hend, Option.getD_some, toList_bpfGetCurrentComm, List.take_left]

/-- The bytes of a text are those of its characters. -/
theorem utf8Bytes_eq_flatMap (s : String) :
    Codec.utf8Bytes s = s.toList.flatMap String.utf8EncodeChar := by
  rw [Codec.utf8Bytes, ← String.utf8Encode_toList, List.utf8Encode, List.toList_data_toByteArray]

/-! ### What an event is called -/

/-- The name of the executable comes first. -/
theorem getProcName_exe {proc : ProcFs} {pid : UInt32} {dir : List UInt8} {exe : String}
    (h : proc.exe pid = some (dir ++ SLASH :: Codec.utf8Bytes exe))
    (hname : IsFileName (Codec.utf8Bytes exe)) : getProcName proc pid = some exe := by
  have hne : exe ≠ "" := by
    rintro rfl
    exact hname.ne_nil rfl
  have hexe : proc.exeName pid = some exe := by
    simp [ProcFs.exeName, h, fileName_append hname, Codec.ofUtf8Bytes_utf8Bytes, hne]
  rw [getProcName, hexe, Option.some_or]

/-- The command name comes next, without the white space around it. -/
theorem getProcName_comm {proc : ProcFs} {pid : UInt32} {text : String}
    (hexe : proc.exeName pid = none) (h : proc.comm pid = some (Codec.utf8Bytes text))
    (hne : trim text ≠ "") : getProcName proc pid = some (trim text) := by
  have hcomm : proc.commName pid = some (trim text) := by
    simp [ProcFs.commName, h, Codec.ofUtf8Bytes_utf8Bytes, hne]
  rw [getProcName, hexe, hcomm, Option.none_or]

/-- A record of the ring buffer, with the process that the kernel side has submitted it for, and
the command name of the thread that was running. -/
structure Announced extends Consumed where
  tgid : UInt32
  /-- All of it, also what the kernel cuts off. -/
  comm : List UInt8

namespace Announced

variable {e : Endian} {a : Announced}

/-- The record is laid out by the C rules. A command name has no zeros. -/
def Submitted (e : Endian) (a : Announced) : Prop :=
  0 ∉ a.comm ∧
    (cProcStartEvent e).Represents (emitStartEvent a.tgid (bpfGetCurrentComm a.comm)) a.data

/-- **The best name there is** for the process of a record. -/
structure Named (a : Announced) (name : String) : Prop where
  /-- The name of the executable, if `/proc` says it. -/
  exe : ∀ dir exe, a.proc.exe a.tgid = some (dir ++ SLASH :: Codec.utf8Bytes exe) →
    IsFileName (Codec.utf8Bytes exe) → name = exe
  /-- Else the command name that `/proc` says. -/
  commName : a.proc.exeName a.tgid = none →
    ∀ text, a.proc.comm a.tgid = some (Codec.utf8Bytes text) → trim text ≠ "" → name = trim text
  /-- If `/proc` says nothing, as for a process that is gone, what the kernel has kept of the
  command name, decoded whatever its bytes are: the characters it begins with are kept. -/
  record : getProcName a.proc a.tgid = none → ∀ whole rest,
    a.comm.take 15 = whole.flatMap String.utf8EncodeChar ++ rest →
      name.toList = whole ++ Utf8Pending.start.lossy rest
  /-- Of a text all the characters are kept that end within fifteen bytes, and nothing else is, but
  that one replacement character stands for a character that does not. -/
  cut : getProcName a.proc a.tgid = none → ∀ text, a.comm = Codec.utf8Bytes text →
    ∃ whole, whole <+: text.toList ∧
      (a.comm.take 15 = whole.flatMap String.utf8EncodeChar ∧ name.toList = whole ∨
        (∃ c, whole ++ [c] <+: text.toList ∧
          (whole.flatMap String.utf8EncodeChar).length < 15 ∧
          15 < ((whole ++ [c]).flatMap String.utf8EncodeChar).length) ∧
        name.toList = whole ++ [replacementChar])

/-- **What becomes of a record.** -/
theorem Submitted.named (h : a.Submitted e) :
    ∃ ev, parseProcEvent e a.proc a.data = some ev ∧ ev.pid = a.tgid ∧ a.Named ev.name := by
  obtain ⟨hcomm, hdata⟩ := h
  refine ⟨_, parseProcEvent_of_represents hdata a.proc, rfl, ?_, ?_, ?_, ?_⟩
  · intro dir exe hexe hname
    rw [emitStartEvent, getProcName_exe hexe hname, Option.getD_some]
  · intro hexe text htext hne
    rw [emitStartEvent, getProcName_comm hexe htext hne, Option.getD_some]
  · intro hnone whole rest hkept
    rw [emitStartEvent, hnone, Option.getD_none, commToString_bpfGetCurrentComm hcomm,
      String.toList_ofList, hkept, Utf8Pending.lossy_encode_append]
  · intro hnone text htext
    obtain ⟨whole, hwhole, hcut⟩ := Utf8Pending.lossy_cut text.toList 15
    rw [← utf8Bytes_eq_flatMap, ← htext] at hcut
    refine ⟨whole, hwhole, ?_⟩
    rw [emitStartEvent, hnone, Option.getD_none, commToString_bpfGetCurrentComm hcomm,
      String.toList_ofList]
    exact hcut

end Announced

/-- **A start event is called by the best name there is**: let the kernel submit some records, and
lay them out by the C rules. The daemon drains one event for each of them, in order, behind those
that were left. An event is one of the process its record was submitted for; it has the name of the
executable, if `/proc` says it; else the command name that `/proc` says; and if `/proc` says
nothing, the command name that the kernel has put into the record, as far as it can be decoded. -/
theorem start_event_named (e : Endian) (reader : EventReader) {records : List Announced}
    (h : ∀ a ∈ records, a.Submitted e) :
    ∃ events, reader.drainAvailable e (records.map Announced.toConsumed) true =
        (.new, some (reader.queue ++ events)) ∧
      List.Forall₂ (fun (a : Announced) ev => parseProcEvent e a.proc a.data = some ev ∧
        ev.pid = a.tgid ∧ a.Named ev.name) records events := by
  refine ⟨_, EventReader.drainAvailable_eq e reader _, ?_⟩
  induction records with
  | nil => exact List.Forall₂.nil
  | cons a records ih =>
    obtain ⟨ha, hrecords⟩ := List.forall_mem_cons.mp h
    obtain ⟨ev, hev, hpid, hname⟩ := ha.named
    have hevent : a.toConsumed.event e = some ev := hev
    rw [List.map_cons, List.filterMap_cons_some hevent]
    exact List.Forall₂.cons ⟨hev, hpid, hname⟩ (ih hrecords)

/-- What `/proc` says of processes that are gone. -/
def goneProc : ProcFs := ⟨fun _ => none, fun _ => none⟩

/-- What `/proc` says of a process that runs `curl`. -/
def curlProc : ProcFs := ⟨fun _ => some (Codec.utf8Bytes "/usr/bin/curl"), fun _ => none⟩

/-- The record of a process, as the kernel side lays it out. -/
def announced (proc : ProcFs) (tgid : UInt32) (comm : List UInt8) : Announced where
  proc := proc
  data := (cProcStartEvent .big).contents (emitStartEvent tgid (bpfGetCurrentComm comm))
  tgid := tgid
  comm := comm

theorem submitted_announced {proc : ProcFs} {tgid : UInt32} {comm : List UInt8} (h : 0 ∉ comm) :
    (announced proc tgid comm).Submitted .big :=
  ⟨h, (packed_cProcStartEvent .big).1.represents_iff.mpr rfl⟩

/-- A name of nine Greek letters, of which the eighth is cut; a process that can be looked up; and a
name that is no text. -/
def threeRecords : List Announced :=
  [announced goneProc 7 (Codec.utf8Bytes "αβγδεζηθι"), announced curlProc 8 [99],
    announced goneProc 9 [97, 0xFF, 98]]

theorem start_event_named_greek :
    ∃ events : List ProcStartEvent,
      events = [⟨7, "αβγδεζη\uFFFD"⟩, ⟨8, "curl"⟩, ⟨9, "a\uFFFDb"⟩] ∧
      List.Forall₂ (fun (a : Announced) ev => parseProcEvent .big a.proc a.data = some ev ∧
        ev.pid = a.tgid ∧ a.Named ev.name) threeRecords events := by
  have hsubmitted : ∀ a ∈ threeRecords, a.Submitted .big := by
    simp only [threeRecords, List.forall_mem_cons]
    exact ⟨submitted_announced (by decide +kernel), submitted_announced (by decide),
      submitted_announced (by decide), by simp⟩
  obtain ⟨events, hdrained, hnamed⟩ := start_event_named .big .new hsubmitted
  have heval : (EventReader.new.drainAvailable .big
      (threeRecords.map Announced.toConsumed) true).2 =
      some [⟨7, "αβγδεζη\uFFFD"⟩, ⟨8, "curl"⟩, ⟨9, "a\uFFFDb"⟩] := by decide +kernel
  rw [hdrained] at heval
  exact ⟨events, Option.some.inj heval, hnamed⟩

/-! ### How long a name is -/

/-- The names of executables and the command names under `/proc` are no longer than some number of
bytes. -/
def ProcFs.Within (L : ℕ) (proc : ProcFs) : Prop :=
  ∀ pid, (∀ path ∈ proc.exe pid, ∀ name ∈ fileName path, name.length ≤ L) ∧
    ∀ text ∈ proc.comm pid, text.length ≤ L

theorem utf8ByteSize_trim_le (s : String) : (trim s).utf8ByteSize ≤ s.utf8ByteSize := by
  have hsub : ((s.toList.dropWhile isWhitespace).reverse.dropWhile isWhitespace).reverse.Sublist
      s.toList := by
    refine List.Sublist.trans ?_ (List.dropWhile_sublist isWhitespace)
    have hrev := (List.dropWhile_sublist (l := (s.toList.dropWhile isWhitespace).reverse)
      isWhitespace).reverse
    rwa [List.reverse_reverse] at hrev
  calc (trim s).utf8ByteSize
      = String.utf8Len ((s.toList.dropWhile isWhitespace).reverse.dropWhile isWhitespace).reverse :=
        String.utf8ByteSize_ofList _
    _ ≤ String.utf8Len s.toList := String.utf8Len_le_of_sublist hsub
    _ = s.utf8ByteSize := by rw [← String.utf8ByteSize_ofList, String.ofList_toList]

/-- A text takes the bytes it was read from. -/
theorem utf8ByteSize_of_ofUtf8Bytes {bs : List UInt8} {s : String}
    (h : Codec.ofUtf8Bytes bs = some s) : s.utf8ByteSize = bs.length := by
  rw [← Codec.length_utf8Bytes, Codec.utf8Bytes_of_ofUtf8Bytes h]

/-- A command name of sixteen bytes becomes a text of three times as many at most. -/
theorem utf8ByteSize_commToString_le (comm : Vector UInt8 16) :
    (commToString comm).utf8ByteSize ≤ 48 := by
  rw [commToString, String.utf8ByteSize_ofList]
  refine (Utf8Pending.utf8Len_lossy_le _ _).trans ?_
  have hlen : (comm.toList.take ((comm.toList.findIdx? (· == 0)).getD comm.size)).length ≤ 16 :=
    (List.length_take_le' ..).trans comm.length_toList.le
  rw [Utf8Pending.owed]
  omega

theorem utf8ByteSize_getProcName_le {proc : ProcFs} {L : ℕ} (h : proc.Within L) {pid : UInt32}
    {name : String} (hname : getProcName proc pid = some name) : name.utf8ByteSize ≤ L := by
  obtain ⟨hexe, hcomm⟩ := h pid
  rcases Option.or_eq_some_iff.mp hname with hname | ⟨-, hname⟩
  · obtain ⟨hname, -⟩ := Option.filter_eq_some_iff.mp hname
    obtain ⟨file, hfile, hname⟩ := Option.bind_eq_some_iff.mp hname
    obtain ⟨path, hpath, hfile⟩ := Option.bind_eq_some_iff.mp hfile
    rw [utf8ByteSize_of_ofUtf8Bytes hname]
    exact hexe path hpath file hfile
  · obtain ⟨hname, -⟩ := Option.filter_eq_some_iff.mp hname
    obtain ⟨text, htext, rfl⟩ := Option.map_eq_some_iff.mp hname
    obtain ⟨bytes, hbytes, htext⟩ := Option.bind_eq_some_iff.mp htext
    refine (utf8ByteSize_trim_le text).trans ?_
    rw [utf8ByteSize_of_ofUtf8Bytes htext]
    exact hcomm bytes hbytes

/-- **No event has a long name**, whatever the bytes it was read from. -/
theorem utf8ByteSize_name_le {e : Endian} {proc : ProcFs} {L : ℕ} (h : proc.Within L) (hL : 48 ≤ L)
    {data : List UInt8} {ev : ProcStartEvent} (hev : parseProcEvent e proc data = some ev) :
    ev.name.utf8ByteSize ≤ L := by
  unfold parseProcEvent at hev
  split at hev
  · cases hev
  · obtain ⟨⟨raw, rest⟩, -, rfl⟩ := Option.map_eq_some_iff.mp hev
    show ((getProcName proc raw.pid).getD (commToString raw.comm)).utf8ByteSize ≤ L
    cases hname : getProcName proc raw.pid with
    | some name => exact utf8ByteSize_getProcName_le h hname
    | none => exact (utf8ByteSize_commToString_le raw.comm).trans hL

end Procnet
