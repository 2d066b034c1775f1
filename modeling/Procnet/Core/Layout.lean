import Procnet.Core.Stats
import Procnet.Lib.CLayout

/-!
# The two declarations of a map value

The kernel side writes a `struct ProcStats` of `procnetd/src/bpf/procnet.bpf.c`, and the daemon
casts its bytes to the `#[repr(C)]` struct of the same name in `procnet-core/src/stats.rs`. Nothing
compares the two declarations but their sizes.

Here each of them is given in its own order of fields, and the C rules do the rest. They put every
field in the same place, and leave no gaps (`packed_cProcStats`); so what `procStatsFromBytes` reads
is the value that was written, and every byte string of the right size is one (`layouts_agree`).
-/

namespace Procnet

open Lib

/-! ### The declarations in C -/

/-- `struct StatsBytes` -/
def cStatsBytes (e : Endian) : CType StatsBytes := .struct [
  (CType.u64 e).field "sent" StatsBytes.sent,
  (CType.u64 e).field "recv" StatsBytes.recv]

/-- `struct StatsAddr` -/
def cStatsAddr (e : Endian) : CType StatsAddr := .struct [
  (CType.u16 e).field "dst_port" StatsAddr.dstPort,
  (CType.u16 e).field "src_port" StatsAddr.srcPort,
  (CType.u32 e).field "dst_ipv4" StatsAddr.dstIpv4,
  (CType.byteArray 16).field "dst_ipv6" StatsAddr.dstIpv6]

/-- `struct ProtocolStats` -/
def cProtocolStats (e : Endian) : CType ProtocolStats := .struct [
  (cStatsBytes e).field "bytes" ProtocolStats.bytes,
  (cStatsAddr e).field "addr" ProtocolStats.addr]

/-- `struct ProcStats` -/
def cProcStats (e : Endian) : CType ProcStats := .struct [
  (cProtocolStats e).field "tcp" ProcStats.tcp,
  (cProtocolStats e).field "udp" ProcStats.udp]

/-! ### The declarations in Rust -/

/-- `StatsBytes`, which is `#[repr(C)]`. -/
def rustStatsBytes (e : Endian) : CType StatsBytes := .struct [
  (CType.u64 e).field "sent" StatsBytes.sent,
  (CType.u64 e).field "recv" StatsBytes.recv]

/-- `StatsAddr`, which is `#[repr(C)]`. -/
def rustStatsAddr (e : Endian) : CType StatsAddr := .struct [
  (CType.u16 e).field "dst_port" StatsAddr.dstPort,
  (CType.u16 e).field "src_port" StatsAddr.srcPort,
  (CType.u32 e).field "dst_ipv4" StatsAddr.dstIpv4,
  (CType.byteArray 16).field "dst_ipv6" StatsAddr.dstIpv6]

/-- `ProtocolStats`, which is `#[repr(C)]`. -/
def rustProtocolStats (e : Endian) : CType ProtocolStats := .struct [
  (rustStatsBytes e).field "bytes" ProtocolStats.bytes,
  (rustStatsAddr e).field "addr" ProtocolStats.addr]

/-- `ProcStats`, which is `#[repr(C)]`. -/
def rustProcStats (e : Endian) : CType ProcStats := .struct [
  (rustProtocolStats e).field "tcp" ProcStats.tcp,
  (rustProtocolStats e).field "udp" ProcStats.udp]

/-- **The two declarations are laid out alike.** -/
theorem rustProcStats_eq (e : Endian) : rustProcStats e = cProcStats e := rfl

/-! ### No padding -/

variable (e : Endian)

theorem packed_cStatsBytes : (cStatsBytes e).Packed ∧ (cStatsBytes e).dims = (16, 8) := by
  refine CType.packed_struct [(8, 8), (8, 8)] rfl (by decide) ?_
  simp only [List.forall_mem_cons]
  exact ⟨(CType.packed_scalar ..).field .., (CType.packed_scalar ..).field .., by simp⟩

theorem packed_cStatsAddr : (cStatsAddr e).Packed ∧ (cStatsAddr e).dims = (24, 4) := by
  refine CType.packed_struct [(2, 2), (2, 2), (4, 4), (16, 1)] rfl (by decide) ?_
  simp only [List.forall_mem_cons]
  exact ⟨(CType.packed_scalar ..).field .., (CType.packed_scalar ..).field ..,
    (CType.packed_scalar ..).field .., (CType.packed_byteArray 16).field .., by simp⟩

theorem packed_cProtocolStats :
    (cProtocolStats e).Packed ∧ (cProtocolStats e).dims = (40, 8) := by
  obtain ⟨hbytes, hbytesDims⟩ := packed_cStatsBytes e
  obtain ⟨haddr, haddrDims⟩ := packed_cStatsAddr e
  refine CType.packed_struct [(16, 8), (24, 4)] (by simp [*]) (by decide) ?_
  simp only [List.forall_mem_cons]
  exact ⟨hbytes.field .., haddr.field .., by simp⟩

theorem packed_cProcStats :
    (cProcStats e).Packed ∧ (cProcStats e).dims = (sizeOfProcStats, 8) := by
  obtain ⟨hproto, hprotoDims⟩ := packed_cProtocolStats e
  refine CType.packed_struct [(40, 8), (40, 8)] (by simp [*]) (by decide) ?_
  simp only [List.forall_mem_cons]
  exact ⟨hproto.field .., hproto.field .., by simp⟩

/-! ### The bytes of a value -/

/-- The bytes that the C rules give a value are those that the daemon takes it for. -/
theorem contents_cProcStats (s : ProcStats) : (cProcStats e).contents s = procStatsToBytes e s := by
  simp [cProcStats, cProtocolStats, cStatsBytes, cStatsAddr, procStatsToBytes, ProcStats.layout,
    ProtocolStats.layout, StatsBytes.layout, StatsAddr.layout, Codec.iso, Codec.pair,
    CType.u16, CType.u32, CType.u64, Codec.u16, Codec.u32, Codec.u64, Codec.uint, Codec.byteArray]

/-- **The daemon reads what the kernel has written**: the two sides put every field in the same
place, and leave no gaps. Every value, however it is represented, is read back; what is read has
been laid out by the daemon's own declaration; and every byte string of the size of a value is one,
and the only representation of it. -/
theorem layouts_agree :
    cProcStats e = rustProcStats e ∧
    Tiles 0 (cProcStats e).leaves (cProcStats e).size ∧ (cProcStats e).leaves.length = 12 ∧
    (∀ s mem, (cProcStats e).Represents s mem → procStatsFromBytes e mem = some s) ∧
    (∀ s mem, procStatsFromBytes e mem = some s ↔ (rustProcStats e).Represents s mem) ∧
    (∀ data, data.length = (cProcStats e).size →
      ∃ s, procStatsFromBytes e data = some s ∧ procStatsToBytes e s = data) ∧
    ∀ data, data.length ≠ (cProcStats e).size → procStatsFromBytes e data = none := by
  obtain ⟨hpacked, hdims⟩ := packed_cProcStats e
  have hsize : (cProcStats e).size = sizeOfProcStats := congrArg Prod.fst hdims
  -- Without padding, the representations of a value are its bytes, and these are what is read.
  have hrepr : ∀ s mem, (cProcStats e).Represents s mem ↔ procStatsFromBytes e mem = some s := by
    intro s mem
    rw [hpacked.represents_iff, contents_cProcStats, procStatsFromBytes_eq_some_iff]
  refine ⟨rfl, hpacked, rfl, fun s mem => (hrepr s mem).mp, fun s mem => ?_, fun data hlen => ?_,
    fun data hlen => ?_⟩
  · rw [rustProcStats_eq, hrepr]
  · rw [hsize, ← isSome_procStatsFromBytes e, Option.isSome_iff_exists] at hlen
    obtain ⟨s, hs⟩ := hlen
    exact ⟨s, hs, ((procStatsFromBytes_eq_some_iff e).mp hs).symm⟩
  · rw [hsize, Ne, ← isSome_procStatsFromBytes e, Option.not_isSome_iff_eq_none] at hlen
    exact hlen

/-- Where the fields are. -/
example : (cProcStats .little).leaves.map (fun l => (l.path, l.offset, l.size)) =
    [(["tcp", "bytes", "sent"], 0, 8), (["tcp", "bytes", "recv"], 8, 8),
      (["tcp", "addr", "dst_port"], 16, 2), (["tcp", "addr", "src_port"], 18, 2),
      (["tcp", "addr", "dst_ipv4"], 20, 4), (["tcp", "addr", "dst_ipv6"], 24, 16),
      (["udp", "bytes", "sent"], 40, 8), (["udp", "bytes", "recv"], 48, 8),
      (["udp", "addr", "dst_port"], 56, 2), (["udp", "addr", "src_port"], 58, 2),
      (["udp", "addr", "dst_ipv4"], 60, 4), (["udp", "addr", "dst_ipv6"], 64, 16)] := by
  rfl

/-- Eighty zeros are a value. -/
theorem layouts_agree_zeros :
    ∃ s, procStatsFromBytes .little (List.replicate 80 0) = some s ∧
      procStatsToBytes .little s = List.replicate 80 0 :=
  (layouts_agree .little).2.2.2.2.2.1 _ (by decide +kernel)

end Procnet
