import Procnet.Bpf.Probes
import Procnet.Core.Wire
import Procnet.Lib.Text

/-!
# The endpoint that is shown

The remote endpoint of a socket is captured in the kernel, which converts the port to host order
and leaves the address in network order; it is stored in a map value, read back by the daemon, sent
in a snapshot, and put into words by `format_endpoint` of `procnet/src/tui/view.rs`.

`Endpoint` is what all of these are about: two ports, and the octets of the destination in network
order. A socket has one (`Sock.endpoint`), which it keeps in the memory of a host of either byte
order; `Endpoint.addr` is how the host captures it, and `Endpoint.text` what the user should see.
`endpoint_shown` is that this is seen, and that a text says which address has been captured.

The text of an IPv6 address is a parameter, of which only matters that it is injective.
-/

namespace Procnet

open Lib

/-! ### Texts of addresses -/

/-- Swaps the bytes of an integer. -/
def swapBytes (x : UInt32) : UInt32 :=
  UInt32.ofNat (Endian.big.value (Endian.little.bytes 4 x.toNat))

/-- `u32::from_be` -/
def u32FromBe (e : Endian) (x : UInt32) : UInt32 :=
  match e with
  | .little => swapBytes x
  | .big => x

/-- Four octets, with dots between them. -/
def dotted (octets : Vector UInt8 4) : String :=
  s!"{octets[0]}.{octets[1]}.{octets[2]}.{octets[3]}"

/-- The octets of an `Ipv4Addr` that has been made from an integer, most significant first. -/
def octetsOf (addr : UInt32) : Vector UInt8 4 :=
  ⟨(Endian.big.bytes 4 addr.toNat).toArray, Endian.big.length_bytes 4 addr.toNat⟩

/-- `Ipv4Addr::from(addr).to_string()` -/
def ipv4ToString (addr : UInt32) : String := dotted (octetsOf addr)

section Format

variable (e : Endian) (ipv6ToString : Vector UInt8 16 → String)

/-- The text of the destination of an address that has been captured on a host, if it has one. -/
def formatDestination (addr : StatsAddr) : Option String :=
  if addr.dstIpv4 ≠ 0 then some (ipv4ToString (u32FromBe e addr.dstIpv4))
  else if addr.dstIpv6 ≠ Vector.replicate 16 0 then some s!"[{ipv6ToString addr.dstIpv6}]"
  else none

/-- The text of an address that has been captured on a host. -/
def formatEndpoint (addr : StatsAddr) : String :=
  if addr.srcPort = 0 ∨ addr.dstPort = 0 then "—"
  else
    match formatDestination e ipv6ToString addr with
    | some destination => s!"src {addr.srcPort} → dst {destination}:{addr.dstPort}"
    | none => "—"

end Format

/-! ### Endpoints -/

/-- The destination of a socket, in network order. -/
inductive Destination where
  | v4 (octets : Vector UInt8 4) : Destination
  | v6 (octets : Vector UInt8 16) : Destination
  deriving DecidableEq, Repr

namespace Destination

/-- The whole destination is zero. -/
def IsZero : Destination → Prop
  | v4 octets => octets = Vector.replicate 4 0
  | v6 octets => octets = Vector.replicate 16 0

instance decidableIsZero : ∀ d : Destination, Decidable d.IsZero
  | v4 octets => inferInstanceAs (Decidable (octets = _))
  | v6 octets => inferInstanceAs (Decidable (octets = _))

/-- An IPv6 address stands in brackets. -/
def text (ipv6ToString : Vector UInt8 16 → String) : Destination → String
  | v4 octets => dotted octets
  | v6 octets => s!"[{ipv6ToString octets}]"

end Destination

/-- The two ends of a socket, as far as they are shown. -/
structure Endpoint where
  srcPort : UInt16
  dstPort : UInt16
  destination : Destination
  deriving DecidableEq, Repr

namespace Endpoint

/-- A port or the whole destination is zero. -/
def Incomplete (ep : Endpoint) : Prop :=
  ep.srcPort = 0 ∨ ep.dstPort = 0 ∨ ep.destination.IsZero

instance (ep : Endpoint) : Decidable ep.Incomplete := inferInstanceAs (Decidable (_ ∨ _ ∨ _))

/-- **What the user should see.** -/
def text (ipv6ToString : Vector UInt8 16 → String) (ep : Endpoint) : String :=
  if ep.Incomplete then "—"
  else s!"src {ep.srcPort} → dst {ep.destination.text ipv6ToString}:{ep.dstPort}"

/-- **How a host captures an endpoint**: the ports as numbers, the destination as it is in
memory. -/
def addr (e : Endian) (ep : Endpoint) : StatsAddr where
  dstPort := ep.dstPort
  srcPort := ep.srcPort
  dstIpv4 :=
    match ep.destination with
    | .v4 octets => UInt32.ofNat (e.value octets.toList)
    | .v6 _ => 0
  dstIpv6 :=
    match ep.destination with
    | .v4 _ => Vector.replicate 16 0
    | .v6 octets => octets

end Endpoint

/-- **The endpoint of a socket** of one of the two families, read from the memory of a host: the
destination and its port are kept there in network order. -/
def Sock.endpoint (e : Endian) (sk : Sock) : Endpoint where
  srcPort := sk.num
  dstPort := UInt16.ofNat (Endian.big.value (e.bytes 2 sk.dport.toNat))
  destination :=
    if sk.family = AF_INET then .v4 ⟨(e.bytes 4 sk.daddr.toNat).toArray, e.length_bytes 4 _⟩
    else .v6 sk.v6Daddr

/-! ### Capturing -/

theorem ofNat_value_bytes (e : Endian) (x : UInt32) :
    UInt32.ofNat (e.value (e.bytes 4 x.toNat)) = x := by
  rw [e.value_bytes_of_lt x.toNat_lt, UInt32.ofNat_toNat]

/-- **The port in host order** is the number that its two bytes spell in network order. -/
theorem bpfNtohs_eq (e : Endian) (x : UInt16) :
    bpfNtohs e x = UInt16.ofNat (Endian.big.value (e.bytes 2 x.toNat)) := by
  have hx : x.toNat < 65536 := x.toNat_lt
  cases e with
  | big => rw [Endian.value_bytes_of_lt _ x.toNat_lt, UInt16.ofNat_toNat, bpfNtohs]
  | little =>
    have hvalue : Endian.big.value (Endian.little.bytes 2 x.toNat) =
        2 ^ 8 * (x.toNat % 256) + x.toNat / 256 := by
      simp only [Endian.value, Endian.bytes, leBytes, List.reverse_cons, List.reverse_nil,
        List.nil_append, List.cons_append, ofLeBytes, UInt8.toNat_ofNat']
      omega
    -- The two halves have no bit in common, so their disjunction is their sum.
    have hor : (x <<< 8 ||| x >>> 8).toNat = 2 ^ 8 * (x.toNat % 256) + x.toNat / 256 := by
      have hhigh : (x <<< 8).toNat = 2 ^ 8 * (x.toNat % 256) := by
        simp [UInt16.toNat_shiftLeft, Nat.shiftLeft_eq]
        omega
      have hlow : (x >>> 8).toNat = x.toNat / 256 := by
        simp [UInt16.toNat_shiftRight, Nat.shiftRight_eq_div_pow]
      rw [UInt16.toNat_or, hhigh, hlow, Nat.two_pow_add_eq_or_of_lt (by omega)]
    rw [bpfNtohs, hvalue, ← hor, UInt16.ofNat_toNat]

/-- **Capturing a socket** of one of the two families captures its endpoint. -/
theorem captureAddr_eq {e : Endian} {sk : Sock} (h : sk.family = AF_INET ∨ sk.family = AF_INET6) :
    captureAddr e sk = (sk.endpoint e).addr e := by
  unfold captureAddr Endpoint.addr Sock.endpoint
  rw [bpfNtohs_eq]
  by_cases hv4 : sk.family = AF_INET
  · simp only [if_pos hv4]
    have hdaddr := (ofNat_value_bytes e sk.daddr).symm
    exact congrArg (StatsAddr.mk _ _ · _) hdaddr
  · have hv6 : sk.family = AF_INET6 := h.resolve_left hv4
    simp only [if_neg hv4, if_pos hv6]

/-! ### Formatting -/

/-- `u32::from_be` reads the bytes that are in memory, most significant first. -/
theorem u32FromBe_eq (e : Endian) (x : UInt32) :
    u32FromBe e x = UInt32.ofNat (Endian.big.value (e.bytes 4 x.toNat)) := by
  cases e with
  | little => rfl
  | big => exact (ofNat_value_bytes .big x).symm

/-- **The octets of a captured address** are those that were in memory. -/
theorem octetsOf_u32FromBe (e : Endian) (octets : Vector UInt8 4) :
    octetsOf (u32FromBe e (UInt32.ofNat (e.value octets.toList))) = octets := by
  have hlen : octets.toList.length = 4 := octets.length_toList
  have hto : ∀ e' : Endian, (UInt32.ofNat (e'.value octets.toList)).toNat =
      e'.value octets.toList := by
    intro e'
    have hlt := e'.value_lt octets.toList
    rw [hlen] at hlt
    exact UInt32.toNat_ofNat_of_lt' hlt
  refine Vector.toList_inj.mp ?_
  show Endian.big.bytes 4 (u32FromBe e (UInt32.ofNat (e.value octets.toList))).toNat = octets.toList
  rw [u32FromBe_eq, hto, e.bytes_value_of_length hlen, hto, Endian.bytes_value_of_length _ hlen]

/-- An address is zero if all its octets are. -/
theorem ofNat_value_eq_zero_iff (e : Endian) (octets : Vector UInt8 4) :
    UInt32.ofNat (e.value octets.toList) = 0 ↔ octets = Vector.replicate 4 0 := by
  have hzero : u32FromBe e 0 = 0 := by cases e <;> rfl
  constructor
  · intro h
    rw [← octetsOf_u32FromBe e octets, h, hzero]
    rfl
  · rintro rfl
    cases e <;> rfl

theorem formatDestination_addr (e : Endian) (ipv6ToString : Vector UInt8 16 → String)
    (ep : Endpoint) :
    formatDestination e ipv6ToString (ep.addr e) =
      if ep.destination.IsZero then none else some (ep.destination.text ipv6ToString) := by
  obtain ⟨srcPort, dstPort, octets | octets⟩ := ep
  · -- The octets of the IPv6 address have been left at zero.
    have hv4 : (Endpoint.addr e ⟨srcPort, dstPort, .v4 octets⟩).dstIpv4 =
        UInt32.ofNat (e.value octets.toList) := rfl
    have hv6 : (Endpoint.addr e ⟨srcPort, dstPort, .v4 octets⟩).dstIpv6 =
        Vector.replicate 16 0 := rfl
    have hiff := ofNat_value_eq_zero_iff e octets
    by_cases hzero : (Destination.v4 octets).IsZero
    · rw [if_pos hzero, formatDestination, hv4, if_neg (not_not.mpr (hiff.mpr hzero)), hv6,
        if_neg (not_not.mpr rfl)]
    · rw [if_neg hzero, formatDestination, hv4, if_pos (mt hiff.mp hzero), ipv4ToString,
        octetsOf_u32FromBe]
      rfl
  · -- No IPv4 address has been captured, so the other one is looked at.
    have hv4 : (Endpoint.addr e ⟨srcPort, dstPort, .v6 octets⟩).dstIpv4 = 0 := rfl
    have hv6 : (Endpoint.addr e ⟨srcPort, dstPort, .v6 octets⟩).dstIpv6 = octets := rfl
    rw [formatDestination, hv4, if_neg (not_not.mpr rfl), hv6]
    by_cases hzero : (Destination.v6 octets).IsZero
    · rw [if_pos hzero]
      exact if_neg (not_not.mpr hzero)
    · rw [if_neg hzero]
      exact if_pos hzero

/-- **What is shown of a captured endpoint** is the text of the endpoint. -/
theorem formatEndpoint_addr (e : Endian) (ipv6ToString : Vector UInt8 16 → String) (ep : Endpoint) :
    formatEndpoint e ipv6ToString (ep.addr e) = ep.text ipv6ToString := by
  have hports : ((ep.addr e).srcPort = 0 ∨ (ep.addr e).dstPort = 0) ↔
      (ep.srcPort = 0 ∨ ep.dstPort = 0) := Iff.rfl
  have hincomplete : ep.Incomplete ↔ (ep.srcPort = 0 ∨ ep.dstPort = 0) ∨ ep.destination.IsZero :=
    or_assoc.symm
  rw [formatEndpoint, formatDestination_addr, Endpoint.text]
  by_cases hport : ep.srcPort = 0 ∨ ep.dstPort = 0
  · rw [if_pos (hports.mpr hport), if_pos (hincomplete.mpr (Or.inl hport))]
  · rw [if_neg (mt hports.mp hport)]
    by_cases hzero : ep.destination.IsZero
    · rw [if_pos hzero, if_pos (hincomplete.mpr (Or.inr hzero))]
    · have hcomplete : ¬ ep.Incomplete := fun h => (hincomplete.mp h).elim hport hzero
      rw [if_neg hzero, if_neg hcomplete]
      rfl

/-! ### Texts tell endpoints apart -/

theorem toList_text_of_complete {ipv6ToString : Vector UInt8 16 → String} {ep : Endpoint}
    (h : ¬ ep.Incomplete) :
    (ep.text ipv6ToString).toList = "src ".toList ++ (ep.srcPort.toNat.repr.toList ++ ' ' ::
      ("→ dst ".toList ++ ((ep.destination.text ipv6ToString).toList ++ ':' ::
        ep.dstPort.toNat.repr.toList))) := by
  have hport : ∀ port : UInt16, toString port = port.toNat.repr := fun _ => rfl
  have hto : " → dst ".toList = ' ' :: "→ dst ".toList := rfl
  have hcolon : ":".toList = [':'] := rfl
  rw [Endpoint.text, if_neg h]
  show (((("src " ++ toString ep.srcPort) ++ " → dst ") ++ ep.destination.text ipv6ToString) ++
    ":" ++ toString ep.dstPort).toList = _
  simp only [String.toList_append, hport, hto, hcolon, List.append_assoc, List.cons_append,
    List.nil_append]

/-- A text that is shown for a complete endpoint is no dash. -/
theorem text_eq_dash_iff {ipv6ToString : Vector UInt8 16 → String} {ep : Endpoint} :
    ep.text ipv6ToString = "—" ↔ ep.Incomplete := by
  refine ⟨fun h => ?_, fun h => if_pos h⟩
  by_contra hcomplete
  have hlist := congrArg String.toList h
  rw [toList_text_of_complete hcomplete] at hlist
  have hhead : some 's' = some '—' := congrArg List.head? hlist
  exact absurd hhead (by decide)

theorem toList_dotted (octets : Vector UInt8 4) :
    (dotted octets).toList = octets[0].toNat.repr.toList ++ '.' ::
      (octets[1].toNat.repr.toList ++ '.' :: (octets[2].toNat.repr.toList ++ '.' ::
        octets[3].toNat.repr.toList)) := by
  have hoctet : ∀ octet : UInt8, toString octet = octet.toNat.repr := fun _ => rfl
  have hdot : ".".toList = ['.'] := rfl
  show (((((toString octets[0] ++ ".") ++ toString octets[1]) ++ ".") ++ toString octets[2]) ++
    "." ++ toString octets[3]).toList = _
  simp only [String.toList_append, hoctet, hdot, List.append_assoc, List.cons_append,
    List.nil_append]

theorem dotted_injective : Function.Injective dotted := by
  intro a b h
  have hlist := congrArg String.toList h
  have hdot : ∀ n : ℕ, '.' ∉ n.repr.toList := notMem_toList_repr rfl
  rw [toList_dotted, toList_dotted, append_cons_inj_left (hdot _) (hdot _),
    append_cons_inj_left (hdot _) (hdot _), append_cons_inj_left (hdot _) (hdot _),
    toList_repr_inj, toList_repr_inj, toList_repr_inj, toList_repr_inj] at hlist
  obtain ⟨h0, h1, h2, h3⟩ := hlist
  refine Vector.ext fun i hi => ?_
  obtain rfl | rfl | rfl | rfl : i = 0 ∨ i = 1 ∨ i = 2 ∨ i = 3 := by omega
  · exact UInt8.toNat_inj.mp h0
  · exact UInt8.toNat_inj.mp h1
  · exact UInt8.toNat_inj.mp h2
  · exact UInt8.toNat_inj.mp h3

theorem toList_text_v6 (ipv6ToString : Vector UInt8 16 → String) (octets : Vector UInt8 16) :
    ((Destination.v6 octets).text ipv6ToString).toList =
      '[' :: ((ipv6ToString octets).toList ++ [']']) := by
  have hopen : "[".toList = ['['] := rfl
  have hclose : "]".toList = [']'] := rfl
  show (("[" ++ ipv6ToString octets) ++ "]").toList = _
  simp only [String.toList_append, hopen, hclose, List.cons_append, List.nil_append]

/-- Only an IPv6 address has brackets. -/
theorem text_v4_ne_v6 (ipv6ToString : Vector UInt8 16 → String) (octets : Vector UInt8 4)
    (octets' : Vector UInt8 16) :
    (Destination.v4 octets).text ipv6ToString ≠ (Destination.v6 octets').text ipv6ToString := by
  intro h
  have hmem : '[' ∈ ((Destination.v4 octets).text ipv6ToString).toList := by
    rw [h, toList_text_v6]
    exact List.mem_cons_self ..
  have hbracket : ∀ n : ℕ, '[' ∉ n.repr.toList := notMem_toList_repr rfl
  have hdot : '[' ≠ '.' := by decide
  rw [Destination.text, toList_dotted] at hmem
  simp only [List.mem_append, List.mem_cons, hbracket, hdot, or_self] at hmem

/-- **The text of a destination** says which one it is. -/
theorem destination_text_injective {ipv6ToString : Vector UInt8 16 → String}
    (hinj : Function.Injective ipv6ToString) :
    Function.Injective (Destination.text ipv6ToString) := by
  intro d d' h
  cases d with
  | v4 octets =>
    cases d' with
    | v4 octets' => exact congrArg Destination.v4 (dotted_injective h)
    | v6 octets' => exact absurd h (text_v4_ne_v6 ipv6ToString octets octets')
  | v6 octets =>
    cases d' with
    | v4 octets' => exact absurd h.symm (text_v4_ne_v6 ipv6ToString octets' octets)
    | v6 octets' =>
      have hlist := congrArg String.toList h
      rw [toList_text_v6, toList_text_v6, List.cons_inj_right, List.append_cancel_right_eq,
        String.toList_inj] at hlist
      exact congrArg Destination.v6 (hinj hlist)

/-- **The text of a complete endpoint** says which one it is. -/
theorem eq_of_text_eq {ipv6ToString : Vector UInt8 16 → String}
    (hinj : Function.Injective ipv6ToString) {ep ep' : Endpoint} (h : ¬ ep.Incomplete)
    (h' : ¬ ep'.Incomplete) (htext : ep.text ipv6ToString = ep'.text ipv6ToString) : ep = ep' := by
  have hlist := congrArg String.toList htext
  have hspace : ∀ n : ℕ, ' ' ∉ n.repr.toList := notMem_toList_repr rfl
  have hcolon : ∀ n : ℕ, ':' ∉ n.repr.toList := notMem_toList_repr rfl
  -- The local port ends at the first space; the destination port stands behind the last colon,
  -- for an IPv6 address has colons too.
  rw [toList_text_of_complete h, toList_text_of_complete h', List.append_cancel_left_eq,
    append_cons_inj_left (hspace _) (hspace _), List.append_cancel_left_eq,
    append_cons_inj_right (hcolon _) (hcolon _), toList_repr_inj, toList_repr_inj] at hlist
  obtain ⟨hsrc, hdestination, hdst⟩ := hlist
  obtain ⟨srcPort, dstPort, destination⟩ := ep
  obtain ⟨srcPort', dstPort', destination'⟩ := ep'
  obtain rfl : srcPort = srcPort' := UInt16.toNat_inj.mp hsrc
  obtain rfl : dstPort = dstPort' := UInt16.toNat_inj.mp hdst
  obtain rfl : destination = destination' :=
    destination_text_injective hinj (String.toList_inj.mp hdestination)
  rfl

/-! ### From the socket to the screen -/

/-- The value that is stored has the address that has been captured. -/
theorem addr_updateStats (stats : ProcStats) (p : Protocol) (sent recv : UInt64)
    (addr : StatsAddr) :
    ((updateStats stats p sent recv addr).proto p).addr = addr := by
  cases p <;> rfl

/-- A snapshot that is written is read back by the client. -/
theorem exists_readMsg_snapshot {snap : SnapshotRef} {buf rest : List UInt8} {reader : SocketReader}
    (h : (writeMsg SnapshotRef.serialize buf snap).2 = .ok ())
    (hpending : reader.pending = (writeMsg SnapshotRef.serialize buf snap).1 ++ rest) :
    ∃ reader', readMsg SnapshotData.codec.decode reader = .ok (snap.toData, reader') := by
  obtain ⟨hlt, hframe⟩ := writeMsg_ok h
  rw [hframe] at hpending
  rw [SnapshotRef.serialize_eq] at hlt hpending
  obtain ⟨reader', hread, -⟩ :=
    readMsg_frame hpending hlt (Codec.reads_encode SnapshotData.fits_codec hlt)
  exact ⟨reader', hread⟩

/-- **The endpoint that is shown is that of the socket**: the address that is captured, stored in a
value of the map, read back from its bytes, put into a row of a snapshot, and received by a client
on the same host is shown as the text of the endpoint; this is a dash exactly if a port or the
whole destination is zero; and captured addresses that have the same text, other than the dash, are
equal. -/
theorem endpoint_shown (e : Endian) {ipv6ToString : Vector UInt8 16 → String}
    (hinj : Function.Injective ipv6ToString) :
    (∀ (sk : Sock) (old : ProcStats) (p : Protocol) (sent recv : UInt64),
      sk.family = AF_INET ∨ sk.family = AF_INET6 →
      ∃ stats', procStatsFromBytes e
          (procStatsToBytes e (updateStats old p sent recv (captureAddr e sk))) = some stats' ∧
        ∀ (snap : SnapshotRef) (k : ℕ) (row : StatsRow) (buf rest : List UInt8)
          (reader : SocketReader), snap.rows[k]? = some row →
          (row.proto p).addr = (stats'.proto p).addr →
          (writeMsg SnapshotRef.serialize buf snap).2 = .ok () →
          reader.pending = (writeMsg SnapshotRef.serialize buf snap).1 ++ rest →
          ∃ data reader' row', readMsg SnapshotData.codec.decode reader = .ok (data, reader') ∧
            data.rows[k]? = some row' ∧
            formatEndpoint e ipv6ToString (row'.proto p).addr =
              (sk.endpoint e).text ipv6ToString) ∧
    (∀ ep : Endpoint, ep.text ipv6ToString = "—" ↔ ep.Incomplete) ∧
    ∀ sk sk' : Sock, sk.family = AF_INET ∨ sk.family = AF_INET6 →
      sk'.family = AF_INET ∨ sk'.family = AF_INET6 →
      formatEndpoint e ipv6ToString (captureAddr e sk) =
        formatEndpoint e ipv6ToString (captureAddr e sk') →
      formatEndpoint e ipv6ToString (captureAddr e sk) ≠ "—" →
      captureAddr e sk = captureAddr e sk' := by
  refine ⟨fun sk old p sent recv hfamily => ⟨_, procStatsFromBytes_toBytes e _, ?_⟩,
    fun ep => text_eq_dash_iff, ?_⟩
  · intro snap k row buf rest reader hrow hcarried hwrite hpending
    obtain ⟨reader', hread⟩ := exists_readMsg_snapshot hwrite hpending
    refine ⟨snap.toData, reader', row, hread, hrow, ?_⟩
    rw [hcarried, addr_updateStats, captureAddr_eq hfamily, formatEndpoint_addr]
  · intro sk sk' hfamily hfamily' htext hdash
    rw [captureAddr_eq hfamily, formatEndpoint_addr] at htext hdash
    rw [captureAddr_eq hfamily', formatEndpoint_addr] at htext
    rw [captureAddr_eq hfamily, captureAddr_eq hfamily',
      eq_of_text_eq hinj (mt text_eq_dash_iff.mpr hdash)
        (mt text_eq_dash_iff.mpr (htext ▸ hdash)) htext]

/-! ### A text of IPv6 addresses -/

/-- The two hexadecimal digits of a byte. -/
def hexByte (b : UInt8) : List Char := [Nat.digitChar (b.toNat / 16), Nat.digitChar (b.toNat % 16)]

/-- Groups of two bytes, with colons between them. -/
def hexGroups : List UInt8 → List Char
  | [a, b] => hexByte a ++ hexByte b
  | a :: b :: rest => hexByte a ++ hexByte b ++ ':' :: hexGroups rest
  | _ => []

/-- The text of an IPv6 address no group of which starts with a zero. -/
def ipv6LongForm (octets : Vector UInt8 16) : String := String.ofList (hexGroups octets.toList)

theorem hexByte_inj {a b : UInt8} (h : hexByte a = hexByte b) : a = b := by
  have hdigit : ∀ m < 16, ∀ n < 16, Nat.digitChar m = Nat.digitChar n → m = n := by decide
  have ha : a.toNat < 256 := a.toNat_lt
  have hb : b.toNat < 256 := b.toNat_lt
  obtain ⟨hhigh, hlow⟩ := List.cons.inj h
  have hdiv := hdigit _ (by omega) _ (by omega) hhigh
  have hmod := hdigit _ (by omega) _ (by omega) (List.cons.inj hlow).1
  exact UInt8.toNat_inj.mp (by omega)

theorem hexGroups_cons_cons {a b : UInt8} {rest : List UInt8} (h : rest ≠ []) :
    hexGroups (a :: b :: rest) = hexByte a ++ (hexByte b ++ ':' :: hexGroups rest) := by
  cases rest with
  | nil => exact absurd rfl h
  | cons c rest => exact List.append_assoc ..

theorem hexGroups_inj {l l' : List UInt8} (hlen : l.length = l'.length) (heven : 2 ∣ l.length)
    (h : hexGroups l = hexGroups l') : l = l' := by
  fun_induction hexGroups l generalizing l' with
  | case1 a b =>
    obtain ⟨a', b', rfl⟩ := List.length_eq_two.mp hlen.symm
    obtain ⟨ha, hb⟩ := List.append_inj h rfl
    rw [hexByte_inj ha, hexByte_inj hb]
  | case2 a b rest hrest ih =>
    match l', hlen with
    | a' :: b' :: rest', hlen =>
      have hne : rest ≠ [] := fun hnil => hrest hnil
      have hlen' : rest.length = rest'.length := by simpa using hlen
      have hne' : rest' ≠ [] := by
        rintro rfl
        exact hne (List.length_eq_zero_iff.mp hlen')
      rw [hexGroups_cons_cons hne', List.append_assoc] at h
      obtain ⟨ha, h⟩ := List.append_inj h rfl
      obtain ⟨hb, h⟩ := List.append_inj h rfl
      rw [hexByte_inj ha, hexByte_inj hb, ih hlen' (by simpa using heven) (List.cons.inj h).2]
  | case3 l hpair hmore =>
    match l, hmore with
    | [], _ => exact (List.length_eq_zero_iff.mp hlen.symm).symm
    | [a], _ => simp at heven
    | a :: b :: rest, hmore => exact (hmore a b rest rfl).elim

theorem ipv6LongForm_injective : Function.Injective ipv6LongForm := by
  intro a b h
  have hlen : a.toList.length = b.toList.length := by
    rw [Vector.length_toList, Vector.length_toList]
  refine Vector.toList_inj.mp (hexGroups_inj hlen ?_ (String.ofList_inj.mp h))
  rw [Vector.length_toList]
  decide

/-- A socket, as a little-endian host has it in memory. -/
def ipv6Sock : Sock where
  family := AF_INET6
  num := 49152
  dport := 0xbb01
  daddr := 0
  v6Daddr := #v[0x20, 0x01, 0x1d, 0xb8, 0x20, 0x02, 0x1d, 0xb9, 0x20, 0x03, 0x1d, 0xba, 0x20, 0x04,
    0x1d, 0xbb]

/-- What a client reads of the endpoint of a socket. -/
theorem endpoint_shown_ipv6 :
    ∃ stats data reader' row', procStatsFromBytes .little (procStatsToBytes .little
        (updateStats default .tcp 0 5 (captureAddr .little ipv6Sock))) = some stats ∧
      readMsg SnapshotData.codec.decode (BufReader.new (Source.putBack (writeMsg
        SnapshotRef.serialize []
          ⟨1000, 1, [⟨7, "curl", stats.tcp, default, default, default⟩], []⟩).1
        [])) = .ok (data, reader') ∧
      data.rows[0]? = some row' ∧ formatEndpoint .little ipv6LongForm row'.tcp.addr =
        "src 49152 → dst [2001:1db8:2002:1db9:2003:1dba:2004:1dbb]:443" := by
  obtain ⟨stats, hstats, hshown⟩ := (endpoint_shown .little ipv6LongForm_injective).1 ipv6Sock
    default .tcp 0 5 (Or.inr rfl)
  have hpending : ∀ bs, (BufReader.new (Source.putBack bs []) : SocketReader).pending =
      bs ++ [] := by
    intro bs
    rw [BufReader.pending_new, Source.bytes_putBack]
    rfl
  have hwrite : (writeMsg SnapshotRef.serialize [] ⟨1000, 1,
      [⟨7, "curl", stats.tcp, default, default, default⟩], []⟩).2 = .ok () := by
    rw [writeMsg_eq, if_pos]
    rw [length_serialize_snapshotRef]
    show 32 + (124 + "curl".utf8ByteSize + 0) + 0 < 2 ^ 16
    decide
  obtain ⟨data, reader', row', hread, hrow, htext⟩ :=
    hshown _ 0 _ [] [] _ rfl rfl hwrite (hpending _)
  refine ⟨stats, data, reader', row', hstats, hread, hrow, htext.trans ?_⟩
  decide +kernel

end Procnet
