import Mathlib.Data.Nat.Notation
import Mathlib.Data.List.Basic
import Procnet.Lib.Bytes

/-!
# The layout of C structs

Where the C rules put the fields of a struct: each at the next multiple of its alignment, the
struct itself being aligned as its most aligned field is, and as long as a multiple of that. The
fields of fields are `CType.leaves`, with their offsets in the whole.

The bytes of a value are only given in part by its fields: what stands in the gaps between them is
not said (`CType.Represents`). Where there are no gaps (`CType.Packed`) a value has only one
representation, the fields one after the other (`CType.Packed.represents_iff`), and a struct has
none if its fields have none and each of them happens to start where the one before ends
(`CType.packed_struct`).
-/

namespace Procnet

namespace Lib

variable {σ τ : Type}

/-- The next multiple of an alignment. -/
def roundUp (n align : ℕ) : ℕ := (n + align - 1) / align * align

theorem roundUp_of_dvd {n align : ℕ} (hpos : 0 < align) (h : align ∣ n) : roundUp n align = n := by
  obtain ⟨k, rfl⟩ := h
  have hdiv : (align * k + align - 1) / align = k := by
    rw [Nat.add_sub_assoc hpos, Nat.mul_add_div hpos, Nat.div_eq_of_lt (by omega), Nat.add_zero]
  rw [roundUp, hdiv, Nat.mul_comm]

/-! ### Leaves -/

/-- A part of a value that has no parts itself: where it is, and its bytes. -/
structure Leaf (σ : Type) where
  /-- The names of the fields that lead to it. -/
  path : List String
  offset : ℕ
  size : ℕ
  bytes : σ → List UInt8
  length_bytes : ∀ s, (bytes s).length = size

namespace Leaf

/-- The leaf of a value that is a field of another one. -/
def field (name : String) (get : σ → τ) (l : Leaf τ) : Leaf σ where
  path := name :: l.path
  offset := l.offset
  size := l.size
  bytes s := l.bytes (get s)
  length_bytes s := l.length_bytes (get s)

/-- The leaf of a value that starts at an offset. -/
def shift (k : ℕ) (l : Leaf σ) : Leaf σ := { l with offset := k + l.offset }

/-- The bytes of a leaf are where it says. -/
def StoredIn (l : Leaf σ) (s : σ) (mem : List UInt8) : Prop :=
  (mem.drop l.offset).take l.size = l.bytes s

end Leaf

/-- Each leaf starts where the one before ends. -/
def Tiles : ℕ → List (Leaf σ) → ℕ → Prop
  | start, [], stop => start = stop
  | start, l :: ls, stop => l.offset = start ∧ Tiles (start + l.size) ls stop

section Tiles

variable {a b c : ℕ} {ls ls' : List (Leaf σ)}

theorem Tiles.append (h : Tiles a ls b) (h' : Tiles b ls' c) : Tiles a (ls ++ ls') c := by
  induction ls generalizing a with
  | nil =>
    obtain rfl : a = b := h
    exact h'
  | cons l ls ih => exact ⟨h.1, ih h.2⟩

theorem Tiles.shift (h : Tiles a ls b) (k : ℕ) : Tiles (k + a) (ls.map (Leaf.shift k)) (k + b) := by
  induction ls generalizing a with
  | nil => exact congrArg (k + ·) h
  | cons l ls ih =>
    refine ⟨congrArg (k + ·) h.1, ?_⟩
    show Tiles (k + a + l.size) (ls.map (Leaf.shift k)) (k + b)
    rw [Nat.add_assoc]
    exact ih h.2

theorem Tiles.field {ls : List (Leaf τ)} (h : Tiles a ls b) (name : String) (get : σ → τ) :
    Tiles a (ls.map (Leaf.field name get)) b := by
  induction ls generalizing a with
  | nil => exact h
  | cons l ls ih => exact ⟨h.1, ih h.2⟩

theorem Tiles.length (h : Tiles a ls b) (s : σ) :
    a + (ls.flatMap fun l => l.bytes s).length = b := by
  induction ls generalizing a with
  | nil => exact h
  | cons l ls ih =>
    rw [List.flatMap_cons, List.length_append, l.length_bytes, ← Nat.add_assoc]
    exact ih h.2

/-- **Leaves without gaps say all the bytes.** -/
theorem Tiles.stored_iff (h : Tiles a ls b) {s : σ} {mem : List UInt8} (hlen : mem.length = b) :
    (∀ l ∈ ls, l.StoredIn s mem) ↔ mem.drop a = ls.flatMap fun l => l.bytes s := by
  induction ls generalizing a with
  | nil =>
    obtain rfl : a = b := h
    simp [← hlen]
  | cons l ls ih =>
    -- The first leaf is at the start, the others say what follows it.
    obtain ⟨hoffset, htiles⟩ := h
    have hle := htiles.length s
    have hsplit : mem.drop a = (mem.drop a).take l.size ++ mem.drop (a + l.size) := by
      rw [← List.drop_drop, List.take_append_drop]
    have htake : ((mem.drop a).take l.size).length = (l.bytes s).length := by
      rw [l.length_bytes, List.length_take, List.length_drop]
      omega
    rw [List.forall_mem_cons, ih htiles, Leaf.StoredIn, hoffset, List.flatMap_cons]
    constructor
    · rintro ⟨hl, hrest⟩
      rw [hsplit, hl, hrest]
    · intro heq
      rw [hsplit] at heq
      exact List.append_inj heq htake

end Tiles

/-! ### Types -/

/-- A type of C, over the values that it has. -/
structure CType (σ : Type) where
  size : ℕ
  align : ℕ
  leaves : List (Leaf σ)

namespace CType

/-- The bytes of a value in memory: its leaves are where they should be. -/
def Represents (t : CType σ) (s : σ) (mem : List UInt8) : Prop :=
  mem.length = t.size ∧ ∀ l ∈ t.leaves, l.StoredIn s mem

/-- A type without padding. -/
def Packed (t : CType σ) : Prop := Tiles 0 t.leaves t.size

/-- The leaves of a value, one after the other. -/
def contents (t : CType σ) (s : σ) : List UInt8 := t.leaves.flatMap fun l => l.bytes s

/-- **Without padding a value has one representation.** -/
theorem Packed.represents_iff {t : CType σ} (h : t.Packed) {s : σ} {mem : List UInt8} :
    t.Represents s mem ↔ mem = t.contents s := by
  have hsize : (t.contents s).length = t.size := (Nat.zero_add _).symm.trans (Tiles.length h s)
  constructor
  · rintro ⟨hlen, hstored⟩
    have hall := (h.stored_iff hlen).mp hstored
    rwa [List.drop_zero] at hall
  · rintro rfl
    exact ⟨hsize, (h.stored_iff hsize).mpr rfl⟩

/-- A type without parts. -/
def scalar (size : ℕ) (bytes : σ → List UInt8) (h : ∀ s, (bytes s).length = size) : CType σ where
  size := size
  align := size
  leaves := [⟨[], 0, size, bytes, h⟩]

/-- A 16-bit integer. -/
def u16 (e : Endian) : CType UInt16 :=
  scalar 2 (fun n => e.bytes 2 n.toNat) fun _ => e.length_bytes 2 _

/-- A 32-bit integer. -/
def u32 (e : Endian) : CType UInt32 :=
  scalar 4 (fun n => e.bytes 4 n.toNat) fun _ => e.length_bytes 4 _

/-- A 64-bit integer. -/
def u64 (e : Endian) : CType UInt64 :=
  scalar 8 (fun n => e.bytes 8 n.toNat) fun _ => e.length_bytes 8 _

/-- An array of `n` bytes. -/
def byteArray (n : ℕ) : CType (Vector UInt8 n) where
  size := n
  align := 1
  leaves := [⟨[], 0, n, Vector.toList, fun v => v.length_toList⟩]

/-- A type as that of a field. -/
def field (t : CType τ) (name : String) (get : σ → τ) : CType σ where
  size := t.size
  align := t.align
  leaves := t.leaves.map (Leaf.field name get)

/-- The leaves of fields that are put one after the other, each at the next multiple of its
alignment, and where the last one ends. -/
def place : ℕ → List (CType σ) → List (Leaf σ) × ℕ
  | start, [] => ([], start)
  | start, t :: ts =>
    let offset := roundUp start t.align
    let (leaves, stop) := place (offset + t.size) ts
    (t.leaves.map (Leaf.shift offset) ++ leaves, stop)

/-- The size and the alignment of a type. -/
def dims (t : CType σ) : ℕ × ℕ := (t.size, t.align)

@[simp] theorem dims_field (t : CType τ) (name : String) (get : σ → τ) :
    (t.field name get).dims = t.dims := rfl

/-- The greatest alignment of some types. -/
def maxAlign (ds : List (ℕ × ℕ)) : ℕ := ds.foldl (fun align d => max align d.2) 1

/-- **A struct**, by the C rules. -/
def struct (fields : List (CType σ)) : CType σ where
  size := roundUp (place 0 fields).2 (maxAlign (fields.map dims))
  align := maxAlign (fields.map dims)
  leaves := (place 0 fields).1

/-- Each field falls on a multiple of its alignment when it starts where the one before ends. -/
def Fall : ℕ → List (ℕ × ℕ) → ℕ → Prop
  | start, [], stop => start = stop
  | start, d :: ds, stop => 0 < d.2 ∧ d.2 ∣ start ∧ Fall (start + d.1) ds stop

instance decidableFall : ∀ start ds stop, Decidable (Fall start ds stop)
  | start, [], stop => inferInstanceAs (Decidable (start = stop))
  | start, d :: ds, stop =>
    haveI := decidableFall (start + d.1) ds stop
    inferInstanceAs (Decidable (0 < d.2 ∧ d.2 ∣ start ∧ Fall (start + d.1) ds stop))

/-- The fields of a struct fall in place, and the struct ends where they do. -/
def Fits (ds : List (ℕ × ℕ)) (stop : ℕ) : Prop :=
  Fall 0 ds stop ∧ 0 < maxAlign ds ∧ maxAlign ds ∣ stop

instance decidableFits (ds : List (ℕ × ℕ)) (stop : ℕ) : Decidable (Fits ds stop) :=
  inferInstanceAs (Decidable (_ ∧ _))

theorem packed_scalar (size : ℕ) (bytes : σ → List UInt8) (h : ∀ s, (bytes s).length = size) :
    (scalar size bytes h).Packed :=
  ⟨rfl, Nat.zero_add size⟩

theorem packed_byteArray (n : ℕ) : (byteArray n).Packed := ⟨rfl, Nat.zero_add n⟩

theorem Packed.field {t : CType τ} (h : t.Packed) (name : String) (get : σ → τ) :
    (t.field name get).Packed :=
  Tiles.field h name get

@[simp] theorem contents_scalar (size : ℕ) (bytes : σ → List UInt8)
    (h : ∀ s, (bytes s).length = size) (s : σ) : (scalar size bytes h).contents s = bytes s :=
  List.append_nil _

@[simp] theorem contents_byteArray {n : ℕ} (v : Vector UInt8 n) :
    (byteArray n).contents v = v.toList :=
  List.append_nil _

@[simp] theorem contents_field (t : CType τ) (name : String) (get : σ → τ) (s : σ) :
    (t.field name get).contents s = t.contents (get s) :=
  List.flatMap_map ..

/-- The contents of a struct are those of its fields. -/
@[simp] theorem contents_struct (fields : List (CType σ)) (s : σ) :
    (struct fields).contents s = fields.flatMap fun t => t.contents s := by
  have hplace : ∀ start, (place start fields).1.flatMap (fun l => l.bytes s) =
      fields.flatMap fun t => t.contents s := by
    induction fields with
    | nil => exact fun _ => rfl
    | cons t ts ih =>
      intro start
      simp only [place, List.flatMap_append, List.flatMap_cons, ih, List.flatMap_map]
      rfl
  exact hplace 0

theorem tiles_place {fields : List (CType σ)} {start stop : ℕ} (hpacked : ∀ t ∈ fields, t.Packed)
    (h : Fall start (fields.map dims) stop) :
    Tiles start (place start fields).1 stop ∧ (place start fields).2 = stop := by
  induction fields generalizing start with
  | nil => exact ⟨h, h⟩
  | cons t ts ih =>
    -- The field falls in place, so rounding up leaves no gap before it.
    obtain ⟨hpos, hdvd, hrest⟩ := h
    obtain ⟨ht, hts⟩ := List.forall_mem_cons.mp hpacked
    obtain ⟨htiles, hstop⟩ := ih hts hrest
    have hoffset : roundUp start t.align = start := roundUp_of_dvd hpos hdvd
    simp only [place, hoffset]
    exact ⟨(Tiles.shift ht start).append htiles, hstop⟩

/-- **A struct whose fields fall in place has no padding.** -/
theorem packed_struct (ds : List (ℕ × ℕ)) {fields : List (CType σ)} {stop : ℕ}
    (hdims : fields.map dims = ds) (hfits : Fits ds stop) (hpacked : ∀ t ∈ fields, t.Packed) :
    (struct fields).Packed ∧ (struct fields).dims = (stop, maxAlign ds) := by
  subst hdims
  obtain ⟨hfall, hpos, hdvd⟩ := hfits
  obtain ⟨htiles, hstop⟩ := tiles_place hpacked hfall
  have hsize : (struct fields).size = stop := by
    show roundUp (place 0 fields).2 (maxAlign (fields.map dims)) = stop
    rw [hstop, roundUp_of_dvd hpos hdvd]
  refine ⟨?_, Prod.ext hsize rfl⟩
  rw [Packed, hsize]
  exact htiles

end CType

end Lib

end Procnet
