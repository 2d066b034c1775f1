import Procnet.Lib.Codec
import Procnet.Lib.Saturating
import Procnet.Lib.Vec
import Mathlib.Data.String.Basic

/-!
# Traffic counters and the stats collector

The data model of `procnet-core/src/stats.rs` and its operations, as the code
computes them. The kernel keeps one `ProcStats` per process and per CPU; the
daemon reads their raw bytes through a `StatsMap`, merges them
(`mergeValuesForPid`) and keeps, in a `StatsCollector`, the last merged counters
of every tracked process, which are both what it displays as cumulative usage and
the baseline of the next per-tick difference.

`StatsCollector.collectRows` is the loop of one tick. It indexes the vector of
tracked processes and removes the dead ones by swapping the last one into their
place, so the model keeps the index and the vector explicit (`Sweep`); what the
loop computes is the subject of `Procnet.Core.Collect`.
-/

namespace Procnet

open Lib

/-- Number of entries of the kernel's stats map. -/
def MAP_SIZE : ℕ := 512

/-- Maximum number of recently dead processes retained by the daemon. -/
def DEAD_PROC_LIMIT : ℕ := 20

/-! ### Counters and addresses -/

/-- The protocol a byte count belongs to. -/
inductive Protocol where
  | tcp : Protocol
  | udp : Protocol
  deriving DecidableEq, Repr

/-- The direction of a byte count. -/
inductive Dir where
  | sent : Dir
  | recv : Dir
  deriving DecidableEq, Repr

/-- Bytes sent and received. -/
structure StatsBytes where
  sent : UInt64
  recv : UInt64
  deriving DecidableEq, Repr

namespace StatsBytes

instance : Inhabited StatsBytes := ⟨⟨0, 0⟩⟩

/-- Both directions together. -/
def combine (b : StatsBytes) : UInt64 := satAdd b.sent b.recv

/-- The sum of two pairs of counters, direction by direction. -/
def merge (b other : StatsBytes) : StatsBytes where
  sent := satAdd b.sent other.sent
  recv := satAdd b.recv other.recv

/-- What has been counted above a baseline, direction by direction. -/
def saturatingSub (b base : StatsBytes) : StatsBytes where
  sent := satSub b.sent base.sent
  recv := satSub b.recv base.recv

/-- The counter of one direction. -/
def dir (b : StatsBytes) : Dir → UInt64
  | .sent => b.sent
  | .recv => b.recv

@[simp] theorem merge_dir (b other : StatsBytes) (d : Dir) :
    (b.merge other).dir d = satAdd (b.dir d) (other.dir d) := by
  cases d <;> rfl

end StatsBytes

/-- The remote endpoint of a socket. The addresses are in big-endian
representation. -/
structure StatsAddr where
  dstPort : UInt16
  srcPort : UInt16
  /-- Big Endian. -/
  dstIpv4 : UInt32
  /-- Big Endian. -/
  dstIpv6 : Vector UInt8 16
  deriving DecidableEq, Repr

instance : Inhabited StatsAddr := ⟨⟨0, 0, 0, Vector.replicate 16 0⟩⟩

/-- The counters of one protocol, and the last endpoint they were counted for. -/
structure ProtocolStats where
  bytes : StatsBytes
  addr : StatsAddr
  deriving DecidableEq, Repr

instance : Inhabited ProtocolStats := ⟨⟨default, default⟩⟩

/-- The value of one process on one CPU. -/
structure ProcStats where
  tcp : ProtocolStats
  udp : ProtocolStats
  deriving DecidableEq, Repr

namespace ProcStats

instance : Inhabited ProcStats := ⟨⟨default, default⟩⟩

/-- The part of a value that belongs to one protocol. -/
def proto (s : ProcStats) : Protocol → ProtocolStats
  | .tcp => s.tcp
  | .udp => s.udp

/-- The counter of one protocol and one direction. -/
def counter (s : ProcStats) (p : Protocol) (d : Dir) : UInt64 := (s.proto p).bytes.dir d

end ProcStats

/-! ### The raw bytes of a map value

The structs are laid out field by field: every field sits at a multiple of its
own size, so the C layout leaves no gap between them. -/

/-- Bytes of a `ProcStats` in memory. -/
def sizeOfProcStats : ℕ := 80

/-- The layout of a `StatsBytes` in the memory of a host. -/
def StatsBytes.layout (e : Endian) : Codec StatsBytes :=
  ((Codec.u64 e).pair (Codec.u64 e)).iso (fun p => ⟨p.1, p.2⟩) (fun b => (b.sent, b.recv))
    (fun _ => rfl) fun _ => rfl

/-- The layout of a `StatsAddr` in the memory of a host. -/
def StatsAddr.layout (e : Endian) : Codec StatsAddr :=
  ((Codec.u16 e).pair ((Codec.u16 e).pair ((Codec.u32 e).pair (Codec.byteArray 16)))).iso
    (fun p => ⟨p.1, p.2.1, p.2.2.1, p.2.2.2⟩)
    (fun a => (a.dstPort, a.srcPort, a.dstIpv4, a.dstIpv6)) (fun _ => rfl) fun _ => rfl

/-- The layout of a `ProtocolStats` in the memory of a host. -/
def ProtocolStats.layout (e : Endian) : Codec ProtocolStats :=
  ((StatsBytes.layout e).pair (StatsAddr.layout e)).iso (fun p => ⟨p.1, p.2⟩)
    (fun s => (s.bytes, s.addr)) (fun _ => rfl) fun _ => rfl

/-- The layout of a `ProcStats` in the memory of a host. -/
def ProcStats.layout (e : Endian) : Codec ProcStats :=
  ((ProtocolStats.layout e).pair (ProtocolStats.layout e)).iso (fun p => ⟨p.1, p.2⟩)
    (fun s => (s.tcp, s.udp)) (fun _ => rfl) fun _ => rfl

/-- The bytes the kernel holds for a value. -/
def procStatsToBytes (e : Endian) (s : ProcStats) : List UInt8 := (ProcStats.layout e).encode s

/-- Reads a value back from its bytes, if there are as many as it takes. -/
def procStatsFromBytes (e : Endian) (data : List UInt8) : Option ProcStats :=
  if data.length ≠ sizeOfProcStats then none
  else ((ProcStats.layout e).decode data).toOption.map Prod.fst

theorem StatsBytes.fixed_layout (e : Endian) : (StatsBytes.layout e).Fixed 16 :=
  ((Codec.fixed_u64 e).pair (Codec.fixed_u64 e)).iso

theorem StatsAddr.fixed_layout (e : Endian) : (StatsAddr.layout e).Fixed 24 :=
  ((Codec.fixed_u16 e).pair ((Codec.fixed_u16 e).pair
    ((Codec.fixed_u32 e).pair (Codec.fixed_byteArray 16)))).iso

theorem ProtocolStats.fixed_layout (e : Endian) : (ProtocolStats.layout e).Fixed 40 :=
  ((StatsBytes.fixed_layout e).pair (StatsAddr.fixed_layout e)).iso

theorem ProcStats.fixed_layout (e : Endian) : (ProcStats.layout e).Fixed sizeOfProcStats :=
  ((ProtocolStats.fixed_layout e).pair (ProtocolStats.fixed_layout e)).iso

@[simp] theorem length_procStatsToBytes (e : Endian) (s : ProcStats) :
    (procStatsToBytes e s).length = sizeOfProcStats :=
  (ProcStats.fixed_layout e).length s

/-- **The daemon reads what the kernel wrote**, and nothing else as the same value. -/
theorem procStatsFromBytes_eq_some_iff (e : Endian) {data : List UInt8} {s : ProcStats} :
    procStatsFromBytes e data = some s ↔ data = procStatsToBytes e s := by
  have hfixed := ProcStats.fixed_layout e
  unfold procStatsFromBytes
  split
  case isTrue hlen =>
    refine iff_of_false (by simp) ?_
    rintro rfl
    exact hlen (hfixed.length s)
  case isFalse hlen =>
    obtain ⟨s', r, hs'⟩ := hfixed.exists_decode data (not_not.mp hlen).ge
    have hrest := hfixed.length_rest hs'
    obtain rfl : r = [] := List.length_eq_zero_iff.mp (by omega)
    have hdata := ((ProcStats.layout e).encode_decode data s' [] hs').2
    rw [List.append_nil] at hdata
    rw [hs']
    show some s' = some s ↔ data = (ProcStats.layout e).encode s
    constructor
    · intro h
      rw [← Option.some.inj h]
      exact hdata
    · intro h
      have hs := (ProcStats.layout e).decode_encode s [] (hfixed.dom s)
      rw [List.append_nil, ← h, hs'] at hs
      rw [(Prod.mk.inj (Except.ok.inj hs)).1]

/-- **Every byte string of the right size is a value**, and no other is. -/
theorem isSome_procStatsFromBytes (e : Endian) (data : List UInt8) :
    (procStatsFromBytes e data).isSome ↔ data.length = sizeOfProcStats := by
  unfold procStatsFromBytes
  split
  case isTrue hlen => exact iff_of_false (by simp) hlen
  case isFalse hlen =>
    obtain ⟨s, r, hs⟩ := (ProcStats.fixed_layout e).exists_decode data (not_not.mp hlen).ge
    rw [hs]
    exact iff_of_true rfl (not_not.mp hlen)

@[simp] theorem procStatsFromBytes_toBytes (e : Endian) (s : ProcStats) :
    procStatsFromBytes e (procStatsToBytes e s) = some s :=
  (procStatsFromBytes_eq_some_iff e).mpr rfl

/-! ### Merging the values of all CPUs -/

/-- A lookup in a per-CPU map: the raw values of a key, one per CPU. -/
structure StatsMap where
  lookupPercpu : List UInt8 → Option (List (List UInt8))

/-- The key of a process: its pid in native byte order. -/
def pidKey (e : Endian) (pid : UInt32) : List UInt8 := e.bytes 4 pid.toNat

/-- The map whose values, read by a host, are the given ones. -/
def StatsMap.ofValues (e : Endian) (values : UInt32 → Option (List ProcStats)) : StatsMap where
  lookupPercpu key :=
    if key.length = 4 then
      (values (UInt32.ofNat (e.value key))).map (List.map (procStatsToBytes e))
    else none

@[simp] theorem StatsMap.lookupPercpu_ofValues (e : Endian)
    (values : UInt32 → Option (List ProcStats)) (pid : UInt32) :
    (ofValues e values).lookupPercpu (pidKey e pid) =
      (values pid).map (List.map (procStatsToBytes e)) := by
  have hvalue : e.value (pidKey e pid) = pid.toNat := by
    rw [pidKey, e.value_bytes]
    exact Nat.mod_eq_of_lt pid.toNat_lt
  have hlen : (pidKey e pid).length = 4 := e.length_bytes 4 _
  simp only [ofValues, if_pos hlen, hvalue, UInt32.ofNat_toNat]

/-- Adds the counters of one CPU, and takes its address if none was seen yet. -/
def mergeStats (merged stats : ProtocolStats) : ProtocolStats where
  bytes := merged.bytes.merge stats.bytes
  addr := if merged.addr = default ∧ stats.addr ≠ default then stats.addr else merged.addr

/-- One step of the merge: a value of the wrong size is skipped. -/
def mergeValue (e : Endian) (merged : ProcStats) (value : List UInt8) : ProcStats :=
  match procStatsFromBytes e value with
  | some value => ⟨mergeStats merged.tcp value.tcp, mergeStats merged.udp value.udp⟩
  | none => merged

/-- The values of a process on all CPUs, merged into one. -/
def mergeValuesForPid (e : Endian) (statsMap : StatsMap) (pid : UInt32) : Option ProcStats :=
  (statsMap.lookupPercpu (pidKey e pid)).map fun perCpuValues =>
    perCpuValues.foldl (mergeValue e) default

/-- The values of a process on all CPUs, merged into one, once they are read. -/
def mergeProcStats (values : List ProcStats) : ProcStats :=
  values.foldl (fun merged value =>
    ⟨mergeStats merged.tcp value.tcp, mergeStats merged.udp value.udp⟩) default

/-- **A lookup merges the values the kernel holds.** -/
theorem mergeValuesForPid_ofValues (e : Endian) (values : UInt32 → Option (List ProcStats))
    (pid : UInt32) :
    mergeValuesForPid e (.ofValues e values) pid = (values pid).map mergeProcStats := by
  rw [mergeValuesForPid, StatsMap.lookupPercpu_ofValues, Option.map_map]
  refine congrArg (fun f => Option.map f (values pid)) (funext fun vs => ?_)
  simp only [Function.comp_apply, List.foldl_map, mergeValue, procStatsFromBytes_toBytes]
  rfl

/-! ### Processes and rows -/

/-- A process that starts to use the network. -/
structure ProcStartEvent where
  pid : UInt32
  name : String
  deriving DecidableEq, Repr

/-- A tracked process, with the counters seen at its last lookup. -/
structure ProcInfo where
  pid : UInt32
  name : String
  tcpCum : StatsBytes
  udpCum : StatsBytes
  deriving DecidableEq, Repr

/-- The last counters of one protocol. -/
def ProcInfo.cum (i : ProcInfo) : Protocol → StatsBytes
  | .tcp => i.tcpCum
  | .udp => i.udpCum

/-- One line of a snapshot: what a process did during a tick, and in total. -/
structure StatsRow where
  pid : UInt32
  name : String
  tcp : ProtocolStats
  udp : ProtocolStats
  tcpCum : StatsBytes
  udpCum : StatsBytes
  deriving DecidableEq, Repr

namespace StatsRow

/-- The part of a row that belongs to one protocol. -/
def proto (r : StatsRow) : Protocol → ProtocolStats
  | .tcp => r.tcp
  | .udp => r.udp

/-- Per-tick total (TCP + UDP). -/
def total (r : StatsRow) : StatsBytes := r.tcp.bytes.merge r.udp.bytes

/-- Cumulative total (TCP + UDP). -/
def totalCum (r : StatsRow) : StatsBytes := r.tcpCum.merge r.udpCum

/-- The per-tick count of one protocol and one direction. -/
def delta (r : StatsRow) (p : Protocol) (d : Dir) : UInt64 :=
  match p with
  | .tcp => r.tcp.bytes.dir d
  | .udp => r.udp.bytes.dir d

/-- The cumulative count of one protocol and one direction. -/
def cum (r : StatsRow) (p : Protocol) (d : Dir) : UInt64 :=
  match p with
  | .tcp => r.tcpCum.dir d
  | .udp => r.udpCum.dir d

end StatsRow

/-! ### The collector -/

/-- Lower-cases the ASCII letters of a name. -/
def makeAsciiLowercase (name : String) : String := name.map Char.toLower

theorem utf8Size_toLower (c : Char) : c.toLower.utf8Size = c.utf8Size := by
  unfold Char.toLower
  split
  · rename_i h
    have hc : c.val.toNat ≤ 90 := UInt32.le_iff_toNat_le.mp h.2
    have h32 : ('a'.val - 'A'.val).toNat = 32 := rfl
    have h127 : (127 : UInt32).toNat = 127 := rfl
    have hone : c.utf8Size = 1 :=
      Char.utf8Size_eq_one_iff.mpr (UInt32.le_iff_toNat_le.mpr (by omega))
    rw [hone, Char.utf8Size_eq_one_iff, UInt32.le_iff_toNat_le, UInt32.toNat_add, h32]
    omega
  · rfl

/-- A name takes as many bytes in lower case. -/
theorem utf8ByteSize_makeAsciiLowercase (name : String) :
    (makeAsciiLowercase name).utf8ByteSize = name.utf8ByteSize := by
  have hlen : ∀ l : List Char, String.utf8Len (l.map Char.toLower) = String.utf8Len l := by
    intro l
    induction l with
    | nil => rfl
    | cons c l ih => simp [ih, utf8Size_toLower]
  rw [makeAsciiLowercase, String.map_eq_internal, String.utf8ByteSize_ofList, hlen,
    ← String.utf8ByteSize_ofList, String.ofList_toList]

/-- The processes the daemon follows, and those it has seen die. -/
structure StatsCollector where
  procs : List ProcInfo
  deadProcs : List ProcInfo
  deriving DecidableEq, Repr

namespace StatsCollector

/-- A collector that has seen nothing yet. -/
def new : StatsCollector := ⟨[], []⟩

/-- Forgets the cumulative counters and the dead processes. -/
def reset (c : StatsCollector) : StatsCollector where
  procs := c.procs.map fun p => { p with tcpCum := default, udpCum := default }
  deadProcs := []

/-- Starts to follow a process, or starts over if its pid is already followed. -/
def applyEvent (c : StatsCollector) (event : ProcStartEvent) : StatsCollector :=
  let name := makeAsciiLowercase event.name
  match c.procs.findIdx? fun p => p.pid == event.pid with
  | some i =>
    { c with
      procs := c.procs.modify i fun p =>
        { p with name := name, tcpCum := default, udpCum := default } }
  | none => { c with procs := c.procs ++ [⟨event.pid, name, default, default⟩] }

end StatsCollector

/-- The process as a lookup that found `new` leaves it. -/
def ProcInfo.sampled (i : ProcInfo) (new : ProcStats) : ProcInfo :=
  { i with tcpCum := new.tcp.bytes, udpCum := new.udp.bytes }

/-- The row of a process whose lookup found `new`. -/
def ProcInfo.row (i : ProcInfo) (new : ProcStats) : StatsRow where
  pid := i.pid
  name := i.name
  tcp := ⟨new.tcp.bytes.saturatingSub i.tcpCum, new.tcp.addr⟩
  udp := ⟨new.udp.bytes.saturatingSub i.udpCum, new.udp.addr⟩
  tcpCum := new.tcp.bytes
  udpCum := new.udp.bytes

/-- The variables of the loop of `StatsCollector.collectRows`. -/
structure Sweep where
  procs : List ProcInfo
  deadProcs : List ProcInfo
  out : List StatsRow
  idx : ℕ
  deriving DecidableEq, Repr

namespace Sweep

/-- The loop before its first iteration: `out` is cleared. -/
def start (c : StatsCollector) : Sweep := ⟨c.procs, c.deadProcs, [], 0⟩

/-- The body of the loop, on what the lookup of the process at hand returned. -/
def visit (s : Sweep) (procInfo : ProcInfo) : Option ProcStats → Sweep
  | some newStats =>
    { s with
      procs := s.procs.set s.idx (procInfo.sampled newStats)
      out := s.out ++ [procInfo.row newStats]
      idx := s.idx + 1 }
  | none =>
    -- the index stays: the last process now sits there
    { s with
      procs := swapRemove s.procs s.idx
      deadProcs := pushRecent DEAD_PROC_LIMIT s.deadProcs procInfo }

theorem length_visit_sub_lt {s : Sweep} (h : s.idx < s.procs.length) (p : ProcInfo)
    (found : Option ProcStats) :
    (s.visit p found).procs.length - (s.visit p found).idx < s.procs.length - s.idx := by
  cases found with
  | some new =>
    simp only [visit, List.length_set]
    omega
  | none =>
    have hne : s.procs ≠ [] := List.ne_nil_of_length_pos (by omega)
    simp only [visit, swapRemove, List.getLast?_eq_some_getLast hne, List.length_dropLast,
      List.length_set]
    omega

/-- The loop of `StatsCollector.collectRows`. -/
def loop (e : Endian) (statsMap : StatsMap) (s : Sweep) : Sweep :=
  if h : s.idx < s.procs.length then
    let procInfo := s.procs[s.idx]
    loop e statsMap (s.visit procInfo (mergeValuesForPid e statsMap procInfo.pid))
  else s
  termination_by s.procs.length - s.idx
  decreasing_by exact length_visit_sub_lt h _ _

end Sweep

/-- One tick: looks every tracked process up, and returns the rows of those that
are still there. The buffer `out` is reused from the tick before. -/
def StatsCollector.collectRows (e : Endian) (c : StatsCollector) (statsMap : StatsMap)
    (_out : List StatsRow) : StatsCollector × List StatsRow :=
  let s := (Sweep.start c).loop e statsMap
  (⟨s.procs, s.deadProcs⟩, s.out)

end Procnet
