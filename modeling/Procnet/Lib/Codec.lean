import Procnet.Lib.Bytes
import Mathlib.Algebra.Order.BigOperators.Group.List
import Mathlib.Data.List.Forall2

/-!
# Prefix codecs

An encoder and a decoder of one type, packaged with the two laws that tie them
together: decoding an encoding gives the value back and leaves what follows it
(`Codec.decode_encode`), and whatever is decoded was the encoding of the result
(`Codec.encode_decode`). The second law says that the format is canonical: no
value has two encodings.

The first law holds only for values whose lengths fit their length prefixes;
these form the domain `Codec.dom` of a codec, and decoding never leaves it. A codec
of a fixed size (`Codec.Fixed`) has no other values, and reads any bytes if there
are enough of them.

The combinators below are those of a fixed-width binary format: unsigned
integers, byte arrays, pairs, length-prefixed sequences, length-prefixed UTF-8
strings, and a change of representation, which is how the fields of a structure
are laid out one after the other.
-/

namespace Procnet

namespace Lib

/-- Why a decoder stops. -/
inductive DecodeError where
  /-- The input ends inside a value. -/
  | unexpectedEof : DecodeError
  /-- The bytes of a string are not UTF-8. -/
  | invalidUtf8 : DecodeError
  /-- A tag names no constructor. -/
  | invalidTag (tag : ℕ) : DecodeError
  deriving DecidableEq, Repr

/-- A decoder reads a value off the front of a byte string. -/
abbrev Decoder (α : Type) := List UInt8 → Except DecodeError (α × List UInt8)

/-- **A prefix codec**: an encoder and a decoder that undo each other. -/
structure Codec (α : Type) where
  /-- The bytes of a value. -/
  encode : α → List UInt8
  /-- Reads a value, and returns what follows it. -/
  decode : Decoder α
  /-- The values whose lengths fit their prefixes. -/
  dom : α → Prop
  decode_encode : ∀ a r, dom a → decode (encode a ++ r) = .ok (a, r)
  encode_decode : ∀ b a r, decode b = .ok (a, r) → dom a ∧ b = encode a ++ r

/-! ### Chaining decoders -/

section Bind

variable {ε ε' α β : Type}

@[simp] theorem ok_bind (a : α) (f : α → Except ε β) : (Except.ok a >>= f) = f a := rfl

@[simp] theorem pure_eq_ok (a : α) : (pure a : Except ε α) = .ok a := rfl

/-- A chain succeeds when both of its parts do. -/
theorem bind_eq_ok {x : Except ε α} {f : α → Except ε β} {b : β} :
    (x >>= f) = .ok b ↔ ∃ a, x = .ok a ∧ f a = .ok b := by
  cases x with
  | error e => exact ⟨fun h => (by cases h), fun ⟨_, h, _⟩ => (by cases h)⟩
  | ok a => exact ⟨fun h => ⟨a, rfl, h⟩, fun ⟨_, h, hf⟩ => (by cases h; exact hf)⟩

/-- Mapping a result succeeds when the result does. -/
theorem map_eq_ok {x : Except ε α} {f : α → β} {b : β} :
    x.map f = .ok b ↔ ∃ a, x = .ok a ∧ f a = b := by
  cases x with
  | error e => exact ⟨fun h => (by cases h), fun ⟨_, h, _⟩ => (by cases h)⟩
  | ok a =>
    exact ⟨fun h => ⟨a, rfl, Except.ok.inj h⟩, fun ⟨_, h, hf⟩ => (by cases h; rw [← hf]; rfl)⟩

/-- Mapping an error does not touch a result. -/
theorem mapError_eq_ok {x : Except ε α} {f : ε → ε'} {a : α} :
    x.mapError f = .ok a ↔ x = .ok a := by
  cases x with
  | error e => exact ⟨fun h => (by cases h), fun h => (by cases h)⟩
  | ok b => exact ⟨fun h => (by cases h; rfl), fun h => (by cases h; rfl)⟩

end Bind

/-! ### Reading a given number of bytes -/

/-- Takes exactly `n` bytes off the front of the input. -/
def takeBytes (n : ℕ) : Decoder (List UInt8) := fun b =>
  if n ≤ b.length then .ok (b.take n, b.drop n) else .error .unexpectedEof

theorem takeBytes_append {n : ℕ} {bs : List UInt8} (h : bs.length = n) (r : List UInt8) :
    takeBytes n (bs ++ r) = .ok (bs, r) := by
  subst h
  simp [takeBytes]

theorem takeBytes_eq_ok {n : ℕ} {b bs r : List UInt8} (h : takeBytes n b = .ok (bs, r)) :
    bs.length = n ∧ b = bs ++ r := by
  unfold takeBytes at h
  split at h
  · rename_i hn
    obtain ⟨rfl, rfl⟩ : b.take n = bs ∧ b.drop n = r := by simpa using h
    exact ⟨by simpa using hn, (List.take_append_drop n b).symm⟩
  · simp at h

namespace Codec

variable {α β : Type}

/-! ### Integers and byte arrays -/

/-- An unsigned integer of `w` bytes in a given byte order, for any type of such
integers. -/
def uint (e : Endian) (w : ℕ) (toNat : α → ℕ) (ofNat : ℕ → α) (hlt : ∀ a, toNat a < 256 ^ w)
    (hof : ∀ a, ofNat (toNat a) = a) (hto : ∀ n, n < 256 ^ w → toNat (ofNat n) = n) :
    Codec α where
  encode a := e.bytes w (toNat a)
  decode b := do
    let (bs, r) ← takeBytes w b
    return (ofNat (e.value bs), r)
  dom _ := True
  decode_encode a r _ := by
    have hv : e.value (e.bytes w (toNat a)) = toNat a := by
      rw [e.value_bytes, Nat.mod_eq_of_lt (hlt a)]
    simp [takeBytes_append (e.length_bytes w (toNat a)), hv, hof]
  encode_decode b a r h := by
    obtain ⟨⟨bs, r'⟩, ht, hr⟩ := bind_eq_ok.mp h
    obtain ⟨rfl, rfl⟩ : ofNat (e.value bs) = a ∧ r' = r := by simpa using hr
    obtain ⟨hlen, rfl⟩ := takeBytes_eq_ok ht
    have hbs : e.value bs < 256 ^ w := hlen ▸ e.value_lt bs
    refine ⟨trivial, ?_⟩
    rw [hto _ hbs, ← hlen, e.bytes_value]

/-- A 16-bit integer. -/
def u16 (e : Endian) : Codec UInt16 :=
  uint e 2 UInt16.toNat UInt16.ofNat UInt16.toNat_lt (fun _ => UInt16.ofNat_toNat)
    fun _ h => UInt16.toNat_ofNat_of_lt' h

/-- A 32-bit integer. -/
def u32 (e : Endian) : Codec UInt32 :=
  uint e 4 UInt32.toNat UInt32.ofNat UInt32.toNat_lt (fun _ => UInt32.ofNat_toNat)
    fun _ h => UInt32.toNat_ofNat_of_lt' h

/-- A 64-bit integer. -/
def u64 (e : Endian) : Codec UInt64 :=
  uint e 8 UInt64.toNat UInt64.ofNat UInt64.toNat_lt (fun _ => UInt64.ofNat_toNat)
    fun _ h => UInt64.toNat_ofNat_of_lt' h

@[simp] theorem length_encode_u32 (e : Endian) (n : UInt32) : ((u32 e).encode n).length = 4 :=
  e.length_bytes 4 n.toNat

@[simp] theorem length_encode_u64 (e : Endian) (n : UInt64) : ((u64 e).encode n).length = 8 :=
  e.length_bytes 8 n.toNat

@[simp] theorem dom_u32 (e : Endian) (n : UInt32) : (u32 e).dom n := trivial

@[simp] theorem dom_u64 (e : Endian) (n : UInt64) : (u64 e).dom n := trivial

/-- An array of `n` bytes, without a length prefix. -/
def byteArray (n : ℕ) : Codec (Vector UInt8 n) where
  encode v := v.toList
  decode b :=
    if h : n ≤ b.length then .ok (⟨(b.take n).toArray, by simpa using h⟩, b.drop n)
    else .error .unexpectedEof
  dom _ := True
  decode_encode v r _ := by
    have hlen : v.toList.length = n := v.length_toList
    have htake : (v.toList ++ r).take n = v.toList := by
      rw [List.take_append_of_le_length (by omega), List.take_of_length_le (by omega)]
    have hdrop : (v.toList ++ r).drop n = r := by
      rw [List.drop_append_of_le_length (by omega), List.drop_of_length_le (by omega),
        List.nil_append]
    rw [dif_pos (by simp [hlen])]
    refine congrArg Except.ok (Prod.ext (Vector.toArray_inj.mp ?_) hdrop)
    exact congrArg List.toArray htake
  encode_decode b a r h := by
    split at h
    · obtain ⟨rfl, rfl⟩ := Prod.mk.inj (Except.ok.inj h)
      exact ⟨trivial, (List.take_append_drop n b).symm⟩
    · simp at h

@[simp] theorem length_encode_byteArray {n : ℕ} (v : Vector UInt8 n) :
    ((byteArray n).encode v).length = n :=
  v.length_toList

/-! ### Pairs and changes of representation -/

/-- One value after the other. -/
def pair (c : Codec α) (d : Codec β) : Codec (α × β) where
  encode p := c.encode p.1 ++ d.encode p.2
  decode b := do
    let (x, b) ← c.decode b
    let (y, b) ← d.decode b
    return ((x, y), b)
  dom p := c.dom p.1 ∧ d.dom p.2
  decode_encode p r h := by
    simp [List.append_assoc, c.decode_encode _ _ h.1, d.decode_encode _ _ h.2]
  encode_decode b p r h := by
    obtain ⟨⟨x, b'⟩, hx, h⟩ := bind_eq_ok.mp h
    obtain ⟨⟨y, b''⟩, hy, h⟩ := bind_eq_ok.mp h
    obtain ⟨rfl, rfl⟩ : (x, y) = p ∧ b'' = r := by simpa using h
    obtain ⟨hdx, rfl⟩ := c.encode_decode _ _ _ hx
    obtain ⟨hdy, rfl⟩ := d.encode_decode _ _ _ hy
    exact ⟨⟨hdx, hdy⟩, by simp⟩

/-- The same bytes, read as another type. -/
def iso (c : Codec α) (mk : α → β) (split : β → α) (hmk : ∀ b, mk (split b) = b)
    (hsplit : ∀ a, split (mk a) = a) : Codec β where
  encode b := c.encode (split b)
  decode bs := do
    let (a, r) ← c.decode bs
    return (mk a, r)
  dom b := c.dom (split b)
  decode_encode b r h := by
    simp [c.decode_encode _ _ h, hmk]
  encode_decode bs b r h := by
    obtain ⟨⟨a, r'⟩, ha, h⟩ := bind_eq_ok.mp h
    obtain ⟨rfl, rfl⟩ : mk a = b ∧ r' = r := by simpa using h
    rw [hsplit]
    exact c.encode_decode _ _ _ ha

/-! ### Values of a fixed size -/

/-- All values have `w` bytes, and any `w` bytes are a value. -/
structure Fixed (c : Codec α) (w : ℕ) : Prop where
  dom : ∀ a, c.dom a
  length : ∀ a, (c.encode a).length = w
  exists_decode : ∀ b : List UInt8, w ≤ b.length → ∃ a r, c.decode b = .ok (a, r)

/-- A decoder that stops behind the bytes it needs leaves none of them. -/
theorem Fixed.length_rest {c : Codec α} {w : ℕ} (h : c.Fixed w) {b r : List UInt8} {a : α}
    (hb : c.decode b = .ok (a, r)) : b.length = w + r.length := by
  rw [(c.encode_decode b a r hb).2, List.length_append, h.length a]

theorem fixed_uint (e : Endian) {w : ℕ} {toNat : α → ℕ} {ofNat : ℕ → α}
    (hlt : ∀ a, toNat a < 256 ^ w) (hof : ∀ a, ofNat (toNat a) = a)
    (hto : ∀ n, n < 256 ^ w → toNat (ofNat n) = n) :
    (uint e w toNat ofNat hlt hof hto).Fixed w where
  dom _ := trivial
  length a := e.length_bytes w (toNat a)
  exists_decode b hb := by
    refine ⟨ofNat (e.value (b.take w)), b.drop w, ?_⟩
    show (takeBytes w b >>= fun p => pure (ofNat (e.value p.1), p.2)) = _
    rw [takeBytes, if_pos hb]
    rfl

theorem fixed_u16 (e : Endian) : (u16 e).Fixed 2 := fixed_uint e _ _ _

theorem fixed_u32 (e : Endian) : (u32 e).Fixed 4 := fixed_uint e _ _ _

theorem fixed_u64 (e : Endian) : (u64 e).Fixed 8 := fixed_uint e _ _ _

theorem fixed_byteArray (n : ℕ) : (byteArray n).Fixed n where
  dom _ := trivial
  length := length_encode_byteArray
  exists_decode b hb := by
    refine ⟨⟨(b.take n).toArray, by simpa using hb⟩, b.drop n, ?_⟩
    exact dif_pos hb

theorem Fixed.pair {c : Codec α} {d : Codec β} {v w : ℕ} (hc : c.Fixed v) (hd : d.Fixed w) :
    (c.pair d).Fixed (v + w) where
  dom p := ⟨hc.dom p.1, hd.dom p.2⟩
  length p := by
    show (c.encode p.1 ++ d.encode p.2).length = v + w
    rw [List.length_append, hc.length, hd.length]
  exists_decode b hb := by
    obtain ⟨x, b', hx⟩ := hc.exists_decode b (by omega)
    have hlen := hc.length_rest hx
    obtain ⟨y, r, hy⟩ := hd.exists_decode b' (by omega)
    refine ⟨(x, y), r, ?_⟩
    show (c.decode b >>= fun p => d.decode p.2 >>= fun q => pure ((p.1, q.1), q.2)) = _
    rw [hx, ok_bind, hy, ok_bind, pure_eq_ok]

theorem Fixed.iso {c : Codec α} {w : ℕ} (hc : c.Fixed w) {mk : α → β} {split : β → α}
    {hmk : ∀ b, mk (split b) = b} {hsplit : ∀ a, split (mk a) = a} :
    (c.iso mk split hmk hsplit).Fixed w where
  dom b := hc.dom (split b)
  length b := hc.length (split b)
  exists_decode bs hbs := by
    obtain ⟨a, r, ha⟩ := hc.exists_decode bs hbs
    refine ⟨mk a, r, ?_⟩
    show (c.decode bs >>= fun p => pure (mk p.1, p.2)) = _
    rw [ha, ok_bind, pure_eq_ok]

/-! ### Sequences -/

/-- Reads `n` values in a row. -/
def decodeN (c : Codec α) : ℕ → Decoder (List α)
  | 0, b => .ok ([], b)
  | n + 1, b => do
    let (a, b) ← c.decode b
    let (l, b) ← decodeN c n b
    return (a :: l, b)

theorem decodeN_flatMap (c : Codec α) (l : List α) (r : List UInt8) (h : ∀ a ∈ l, c.dom a) :
    c.decodeN l.length (l.flatMap c.encode ++ r) = .ok (l, r) := by
  induction l with
  | nil => rfl
  | cons a l ih =>
    have ha : c.dom a := h a (List.mem_cons_self ..)
    have hl := ih fun x hx => h x (List.mem_cons_of_mem a hx)
    simp [decodeN, List.append_assoc, c.decode_encode _ _ ha, hl]

theorem flatMap_of_decodeN (c : Codec α) (n : ℕ) (b : List UInt8) (l : List α) (r : List UInt8)
    (h : c.decodeN n b = .ok (l, r)) :
    l.length = n ∧ (∀ a ∈ l, c.dom a) ∧ b = l.flatMap c.encode ++ r := by
  induction n generalizing b l with
  | zero =>
    obtain ⟨rfl, rfl⟩ : [] = l ∧ b = r := by simpa [decodeN] using h
    simp
  | succ n ih =>
    rw [decodeN] at h
    obtain ⟨⟨a, b'⟩, ha, h⟩ := bind_eq_ok.mp h
    obtain ⟨⟨l', b''⟩, hl, h⟩ := bind_eq_ok.mp h
    obtain ⟨rfl, rfl⟩ : a :: l' = l ∧ b'' = r := by simpa using h
    obtain ⟨hda, rfl⟩ := c.encode_decode _ _ _ ha
    obtain ⟨hlen, hdl, rfl⟩ := ih b' l' hl
    exact ⟨by simp [hlen], by simpa using ⟨hda, hdl⟩, by simp⟩

/-- A sequence: its length on eight bytes, then its elements. -/
def list (c : Codec α) : Codec (List α) where
  encode l := leBytes 8 l.length ++ l.flatMap c.encode
  decode b := do
    let (n, b) ← takeBytes 8 b
    c.decodeN (ofLeBytes n) b
  dom l := l.length < 2 ^ 64 ∧ ∀ a ∈ l, c.dom a
  decode_encode l r h := by
    have hlen : ofLeBytes (leBytes 8 l.length) = l.length := by
      rw [ofLeBytes_leBytes]
      exact Nat.mod_eq_of_lt h.1
    simp [List.append_assoc, takeBytes_append (length_leBytes 8 l.length), hlen,
      decodeN_flatMap c l r h.2]
  encode_decode b l r h := by
    obtain ⟨⟨n, b'⟩, hn, hrest⟩ := bind_eq_ok.mp h
    obtain ⟨hlen, rfl⟩ := takeBytes_eq_ok hn
    obtain ⟨hl, hd, rfl⟩ := flatMap_of_decodeN c _ _ _ _ hrest
    have hlt : ofLeBytes n < 256 ^ 8 := hlen ▸ ofLeBytes_lt n
    refine ⟨⟨by rw [hl]; exact hlt, hd⟩, ?_⟩
    rw [hl, ← hlen, leBytes_ofLeBytes, List.append_assoc]

@[simp] theorem length_encode_pair (c : Codec α) (d : Codec β) (p : α × β) :
    ((pair c d).encode p).length = (c.encode p.1).length + (d.encode p.2).length :=
  List.length_append

theorem encode_list (c : Codec α) (l : List α) :
    (list c).encode l = leBytes 8 l.length ++ l.flatMap c.encode := rfl

/-! ### Strings -/

/-- The UTF-8 bytes of a string. -/
def utf8Bytes (s : String) : List UInt8 := s.toByteArray.data.toList

@[simp] theorem length_utf8Bytes (s : String) : (utf8Bytes s).length = s.utf8ByteSize := rfl

/-- Decodes UTF-8 bytes, if that is what they are. -/
def ofUtf8Bytes (bs : List UInt8) : Option String := String.fromUTF8? bs.toByteArray

theorem ofUtf8Bytes_utf8Bytes (s : String) : ofUtf8Bytes (utf8Bytes s) = some s := by
  have hb : (utf8Bytes s).toByteArray = s.toByteArray := by
    ext1
    apply Array.toList_inj.mp
    rw [List.toList_data_toByteArray]
    rfl
  rw [ofUtf8Bytes, String.fromUTF8?, hb, dif_pos s.isValidUTF8]
  rfl

theorem utf8Bytes_of_ofUtf8Bytes {bs : List UInt8} {s : String} (h : ofUtf8Bytes bs = some s) :
    utf8Bytes s = bs := by
  unfold ofUtf8Bytes String.fromUTF8? at h
  split at h
  · obtain rfl := Option.some.inj h
    exact List.toList_data_toByteArray
  · simp at h

/-- A string: the length of its UTF-8 form on eight bytes, then that form. -/
def str : Codec String where
  encode s := leBytes 8 s.utf8ByteSize ++ utf8Bytes s
  decode b := do
    let (n, b) ← takeBytes 8 b
    let (bs, b) ← takeBytes (ofLeBytes n) b
    match ofUtf8Bytes bs with
    | some s => return (s, b)
    | none => .error .invalidUtf8
  dom s := s.utf8ByteSize < 2 ^ 64
  decode_encode s r h := by
    have hlen : ofLeBytes (leBytes 8 s.utf8ByteSize) = s.utf8ByteSize := by
      rw [ofLeBytes_leBytes]
      exact Nat.mod_eq_of_lt h
    simp [List.append_assoc, takeBytes_append (length_leBytes 8 s.utf8ByteSize), hlen,
      takeBytes_append (length_utf8Bytes s), ofUtf8Bytes_utf8Bytes]
  encode_decode b s r h := by
    obtain ⟨⟨n, b'⟩, hn, hrest⟩ := bind_eq_ok.mp h
    obtain ⟨⟨bs, b''⟩, hbs, hstr⟩ := bind_eq_ok.mp hrest
    obtain ⟨hlen, rfl⟩ := takeBytes_eq_ok hn
    obtain ⟨hsize, rfl⟩ := takeBytes_eq_ok hbs
    cases hs : ofUtf8Bytes bs with
    | none => simp [hs] at hstr
    | some s' =>
      obtain ⟨rfl, rfl⟩ : s' = s ∧ b'' = r := by simpa [hs] using hstr
      have hutf := utf8Bytes_of_ofUtf8Bytes hs
      have heq : s'.utf8ByteSize = ofLeBytes n := by
        rw [← length_utf8Bytes, hutf, hsize]
      have hlt : ofLeBytes n < 256 ^ 8 := hlen ▸ ofLeBytes_lt n
      refine ⟨by rw [heq]; exact hlt, ?_⟩
      rw [heq, hutf, ← hlen, leBytes_ofLeBytes, List.append_assoc]

@[simp] theorem length_encode_str (s : String) : (str.encode s).length = 8 + s.utf8ByteSize := by
  simp [str]

theorem dom_str (s : String) : str.dom s ↔ s.utf8ByteSize < 2 ^ 64 := Iff.rfl

/-! ### The domain of short encodings -/

/-- Every value with a short encoding is in the domain: a prefix that overflows
belongs to an encoding longer than any memory. -/
def Fits (c : Codec α) : Prop := ∀ a, (c.encode a).length < 2 ^ 64 → c.dom a

theorem fits_of_dom {c : Codec α} (h : ∀ a, c.dom a) : c.Fits := fun a _ => h a

theorem Fits.pair {c : Codec α} {d : Codec β} (hc : c.Fits) (hd : d.Fits) : (c.pair d).Fits := by
  intro p h
  rw [length_encode_pair] at h
  exact ⟨hc p.1 (by omega), hd p.2 (by omega)⟩

theorem Fits.iso {c : Codec α} (hc : c.Fits) {mk : α → β} {split : β → α}
    {hmk : ∀ b, mk (split b) = b} {hsplit : ∀ a, split (mk a) = a} :
    (c.iso mk split hmk hsplit).Fits :=
  fun b h => hc (split b) h

theorem fits_str : str.Fits := by
  intro s h
  rw [length_encode_str] at h
  rw [dom_str]
  omega

theorem length_encode_le_of_mem (c : Codec α) {l : List α} {a : α} (ha : a ∈ l) :
    (c.encode a).length ≤ (l.flatMap c.encode).length := by
  rw [List.length_flatMap]
  exact List.le_sum_of_mem (List.mem_map_of_mem ha)

theorem length_le_flatMap {c : Codec α} (hpos : ∀ a, 0 < (c.encode a).length) (l : List α) :
    l.length ≤ (l.flatMap c.encode).length := by
  induction l with
  | nil => simp
  | cons a l ih =>
    have ha := hpos a
    simp only [List.flatMap_cons, List.length_append, List.length_cons]
    omega

theorem Fits.list {c : Codec α} (hc : c.Fits) (hpos : ∀ a, 0 < (c.encode a).length) :
    (list c).Fits := by
  intro l h
  rw [encode_list, List.length_append, length_leBytes] at h
  have hlen := length_le_flatMap hpos l
  refine ⟨by omega, fun a ha => hc a ?_⟩
  have hmem := c.length_encode_le_of_mem ha
  omega

end Codec

end Lib

end Procnet
