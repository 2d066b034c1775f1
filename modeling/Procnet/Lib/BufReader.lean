import Procnet.Lib.Codec
import Mathlib.Data.Nat.Notation
import Mathlib.Data.List.Basic
import Mathlib.Data.List.Infix

/-!
# Buffered reading of a byte stream

A byte source hands out its bytes in pieces that it chooses itself: a read asks
for at most so many bytes and gets some non-empty part of what there is. A
buffered reader asks its source for whole buffers and serves smaller reads from
what it holds.

Reading exactly `n` bytes hides the pieces: whatever they are, the result is a
function of the bytes that are still to come (`BufReader.readExact_of_le`,
`BufReader.readExact_of_lt`). What the pieces do decide is how much of the source
sits in the buffer afterwards: nothing, exactly when a piece ends where the read
does (`BufReader.buf_readExact_eq_nil_iff`). Whoever then drops the reader and
goes on with the source loses the rest of that piece.
-/

namespace Procnet

namespace Lib

/-! ### Byte sources -/

/-- What one read of a source finds. -/
inductive Delivery where
  /-- At least one byte. -/
  | bytes (head : UInt8) (tail : List UInt8) : Delivery
  /-- The read fails. -/
  | error : Delivery
  deriving DecidableEq, Repr

/-- A source: what its successive reads find, and then its end. -/
abbrev Source := List Delivery

namespace Source

/-- The source with the given bytes still to be delivered first. -/
def putBack : List UInt8 → Source → Source
  | [], s => s
  | b :: bs, s => .bytes b bs :: s

/-- Reads at most `n` bytes; none at the end of the source. -/
def read (n : ℕ) : Source → Option (List UInt8 × Source)
  | [] => some ([], [])
  | .error :: _ => none
  | .bytes b bs :: s => some ((b :: bs).take n, putBack ((b :: bs).drop n) s)

/-- The bytes a source delivers before it ends or fails. -/
def bytes : Source → List UInt8
  | [] => []
  | .error :: _ => []
  | .bytes b bs :: s => b :: bs ++ bytes s

/-- Whether a source fails in the end. -/
def fails (s : Source) : Prop := .error ∈ s

instance (s : Source) : Decidable s.fails := inferInstanceAs (Decidable (_ ∈ _))

/-- Whether a delivery ends after exactly `n` bytes. -/
def CutAt : ℕ → Source → Prop
  | 0, _ => True
  | n + 1, .bytes _ bs :: s => bs.length ≤ n ∧ CutAt (n - bs.length) s
  | _ + 1, _ => False

theorem cutAt_zero (s : Source) : CutAt 0 s := by
  unfold CutAt
  trivial

instance decidableCutAt : ∀ n s, Decidable (CutAt n s)
  | 0, s => isTrue (cutAt_zero s)
  | n + 1, .bytes _ bs :: s =>
    haveI := decidableCutAt (n - bs.length) s
    inferInstanceAs (Decidable (bs.length ≤ n ∧ _))
  | _ + 1, [] => isFalse id
  | _ + 1, .error :: _ => isFalse id

@[simp] theorem bytes_putBack (bs : List UInt8) (s : Source) :
    (putBack bs s).bytes = bs ++ s.bytes := by
  cases bs <;> rfl

@[simp] theorem fails_putBack (bs : List UInt8) (s : Source) : (putBack bs s).fails ↔ s.fails := by
  cases bs <;> simp [putBack, fails]

/-- **What one read can do.** -/
theorem read_cases {n : ℕ} (hn : 0 < n) (s : Source) :
    (s.read n = none ∧ s.bytes = [] ∧ s.fails) ∨
    (s.read n = some ([], []) ∧ s.bytes = [] ∧ ¬ s.fails) ∨
    ∃ bs s', s.read n = some (bs, s') ∧ bs ≠ [] ∧ bs.length ≤ n ∧ bs ++ s'.bytes = s.bytes ∧
      (s'.fails ↔ s.fails) := by
  match s with
  | [] => exact Or.inr (Or.inl ⟨rfl, rfl, by simp [fails]⟩)
  | .error :: s => exact Or.inl ⟨rfl, rfl, by simp [fails]⟩
  | .bytes b bs :: s =>
    refine Or.inr (Or.inr ⟨(b :: bs).take n, _, rfl, ?_, List.length_take_le n _, ?_, ?_⟩)
    · obtain ⟨n, rfl⟩ := Nat.exists_eq_add_of_lt hn
      simp
    · rw [bytes_putBack, ← List.append_assoc, List.take_append_drop]
      rfl
    · rw [fails_putBack]
      simp [fails]

end Source

/-! ### Buffered readers -/

/-- Why reading a given number of bytes fails. -/
inductive ReadError where
  /-- The source ended first. -/
  | unexpectedEof : ReadError
  /-- The source failed. -/
  | io : ReadError
  deriving DecidableEq, Repr

/-- A reader with a buffer of `cap` bytes over a source. -/
structure BufReader (cap : ℕ) where
  /-- What the buffer holds and has not served yet. -/
  buf : List UInt8
  inner : Source
  deriving DecidableEq, Repr

namespace BufReader

variable {cap : ℕ}

/-- A reader that has read nothing yet. -/
def new (inner : Source) : BufReader cap := ⟨[], inner⟩

/-- The source of a reader that is given up. What the buffer holds is lost. -/
def intoInner (r : BufReader cap) : Source := r.inner

/-- Refills the buffer if it is empty. -/
def fillBuf (r : BufReader cap) : Option (BufReader cap) :=
  if r.buf = [] then (r.inner.read cap).map fun (bs, s) => ⟨bs, s⟩ else some r

/-- Reads at most `n` bytes. A read as large as the buffer bypasses it when it is
empty. -/
def read (r : BufReader cap) (n : ℕ) : Option (List UInt8 × BufReader cap) :=
  if r.buf = [] ∧ cap ≤ n then (r.inner.read n).map fun (bs, s) => (bs, ⟨[], s⟩)
  else r.fillBuf.map fun r => (r.buf.take n, ⟨r.buf.drop n, r.inner⟩)

/-- Reads until it has `n` bytes. -/
def readExact (r : BufReader cap) (n : ℕ) : Except ReadError (List UInt8 × BufReader cap) :=
  if n = 0 then .ok ([], r)
  else
    match r.read n with
    | none => .error .io
    | some ([], _) => .error .unexpectedEof
    | some (b :: bs, r) =>
      match r.readExact (n - (bs.length + 1)) with
      | .error err => .error err
      | .ok (rest, r) => .ok (b :: bs ++ rest, r)
  termination_by n

/-- The bytes that are still to be read. -/
def pending (r : BufReader cap) : List UInt8 := r.buf ++ r.inner.bytes

@[simp] theorem pending_new (s : Source) : (new s : BufReader cap).pending = s.bytes := rfl

/-- **What one read of a reader can do.** -/
theorem read_cases (hcap : 0 < cap) {n : ℕ} (hn : 0 < n) (r : BufReader cap) :
    (r.read n = none ∧ r.pending = [] ∧ r.inner.fails) ∨
    (∃ r', r.read n = some ([], r') ∧ r.pending = [] ∧ ¬ r.inner.fails) ∨
    ∃ b bs r', r.read n = some (b :: bs, r') ∧ bs.length < n ∧
      b :: bs ++ r'.pending = r.pending ∧ (r'.inner.fails ↔ r.inner.fails) := by
  obtain ⟨n, rfl⟩ : ∃ k, n = k + 1 := ⟨n - 1, by omega⟩
  obtain ⟨buf, s⟩ := r
  cases buf with
  | cons b buf =>
    refine Or.inr (Or.inr ⟨b, buf.take n, ⟨buf.drop n, s⟩, ?_, ?_, ?_, Iff.rfl⟩)
    · simp [read, fillBuf]
    · simp only [List.length_take]
      omega
    · simp [pending, ← List.append_assoc, List.take_append_drop]
  | nil =>
    by_cases hbypass : cap ≤ n + 1
    · rcases Source.read_cases hn s with ⟨h, hb, hf⟩ | ⟨h, hb, hf⟩ | ⟨bs, s', h, hne, hlen, hb, hf⟩
      · exact Or.inl ⟨by simp [read, hbypass, h], by simpa [pending] using hb, hf⟩
      · exact Or.inr (Or.inl ⟨⟨[], []⟩, by simp [read, hbypass, h],
          by simpa [pending] using hb, hf⟩)
      · obtain ⟨b, bs, rfl⟩ := List.exists_cons_of_ne_nil hne
        rw [List.length_cons] at hlen
        refine Or.inr (Or.inr ⟨b, bs, ⟨[], s'⟩, by simp [read, hbypass, h], by omega, ?_, hf⟩)
        simpa [pending] using hb
    · rcases Source.read_cases hcap s with ⟨h, hb, hf⟩ | ⟨h, hb, hf⟩ |
        ⟨bs, s', h, hne, hlen, hb, hf⟩
      · exact Or.inl ⟨by simp [read, fillBuf, hbypass, h], by simpa [pending] using hb, hf⟩
      · exact Or.inr (Or.inl ⟨⟨[], []⟩, by simp [read, fillBuf, hbypass, h],
          by simpa [pending] using hb, hf⟩)
      · obtain ⟨b, bs, rfl⟩ := List.exists_cons_of_ne_nil hne
        refine Or.inr (Or.inr ⟨b, bs.take n, ⟨bs.drop n, s'⟩,
          by simp [read, fillBuf, hbypass, h], ?_, ?_, hf⟩)
        · simp only [List.length_take]
          omega
        · simpa [pending, ← List.append_assoc, List.take_append_drop] using hb

/-- **Reading bytes that are there** returns them, however they are delivered. -/
theorem readExact_of_le (hcap : 0 < cap) {n : ℕ} (r : BufReader cap) (h : n ≤ r.pending.length) :
    ∃ r', r.readExact n = .ok (r.pending.take n, r') ∧ r'.pending = r.pending.drop n ∧
      (r'.inner.fails ↔ r.inner.fails) := by
  induction n using Nat.strong_induction_on generalizing r with
  | _ n ih =>
    rw [readExact]
    by_cases hn : n = 0
    · exact ⟨r, by simp [hn], by simp [hn], Iff.rfl⟩
    · have hpos : 0 < n := Nat.pos_of_ne_zero hn
      rcases read_cases hcap hpos r with ⟨-, hp, -⟩ | ⟨r', -, hp, -⟩ | ⟨b, bs, r', hr, hlen, hp, hf⟩
      · simp [hp] at h
        omega
      · simp [hp] at h
        omega
      · have hle : n - (bs.length + 1) ≤ r'.pending.length := by
          rw [← hp] at h
          simp only [List.length_append, List.length_cons] at h
          omega
        obtain ⟨r'', hr'', hp'', hf''⟩ := ih (n - (bs.length + 1)) (by omega) r' hle
        have htake : r.pending.take n = b :: bs ++ r'.pending.take (n - (bs.length + 1)) := by
          rw [← hp, List.take_append, List.length_cons, List.take_of_length_le (by simp; omega)]
        have hdrop : r.pending.drop n = r'.pending.drop (n - (bs.length + 1)) := by
          rw [← hp, List.drop_append, List.length_cons, List.drop_of_length_le (by simp; omega),
            List.nil_append]
        exact ⟨r'', by simp [hn, hr, hr'', htake], by rw [hp'', hdrop], hf''.trans hf⟩

/-- **Reading more bytes than there are** fails the way the source does. -/
theorem readExact_of_lt (hcap : 0 < cap) {n : ℕ} (r : BufReader cap) (h : r.pending.length < n) :
    r.readExact n = .error (if r.inner.fails then .io else .unexpectedEof) := by
  induction n using Nat.strong_induction_on generalizing r with
  | _ n ih =>
    have hn : n ≠ 0 := by omega
    rw [readExact, if_neg hn]
    rcases read_cases hcap (Nat.pos_of_ne_zero hn) r with
      ⟨hr, -, hf⟩ | ⟨r', hr, -, hf⟩ | ⟨b, bs, r', hr, hlen, hp, hf⟩
    · rw [hr, if_pos hf]
    · rw [hr, if_neg hf]
    · have hlt : r'.pending.length < n - (bs.length + 1) := by
        rw [← hp] at h
        simp only [List.length_append, List.length_cons] at h
        omega
      rw [hr]
      simp only [ih (n - (bs.length + 1)) (by omega) r' hlt, hf]

/-- **What a successful read did.** -/
theorem readExact_eq_ok (hcap : 0 < cap) {n : ℕ} {r r' : BufReader cap} {bs : List UInt8}
    (h : r.readExact n = .ok (bs, r')) : bs.length = n ∧ r.pending = bs ++ r'.pending := by
  rcases Nat.lt_or_ge r.pending.length n with hlt | hge
  · rw [r.readExact_of_lt hcap hlt] at h
    cases h
  · obtain ⟨r'', hr, hp, -⟩ := r.readExact_of_le hcap hge
    rw [hr] at h
    obtain ⟨rfl, rfl⟩ := Prod.mk.inj (Except.ok.inj h)
    exact ⟨List.length_take_of_le hge, by rw [hp, List.take_append_drop]⟩

/-! ### What stays in the buffer -/

/-- A read of bytes the buffer holds does not touch the source. -/
theorem readExact_of_le_buf {n : ℕ} {buf : List UInt8} {s : Source} (h : n ≤ buf.length) :
    (⟨buf, s⟩ : BufReader cap).readExact n = .ok (buf.take n, ⟨buf.drop n, s⟩) := by
  cases n with
  | zero => simp [readExact]
  | succ n =>
    obtain ⟨b, buf, rfl⟩ := List.exists_cons_of_length_pos (Nat.zero_lt_of_lt h)
    have hlen : n ≤ buf.length := by simpa using h
    rw [readExact, if_neg (Nat.succ_ne_zero n)]
    simp [read, fillBuf, readExact, Nat.min_eq_left hlen]

/-- A read of more bytes than the buffer holds takes these first. -/
theorem readExact_of_buf_le {n : ℕ} {buf : List UInt8} {s : Source} (h : buf.length ≤ n) :
    (⟨buf, s⟩ : BufReader cap).readExact n =
      ((⟨[], s⟩ : BufReader cap).readExact (n - buf.length)).map fun p => (buf ++ p.1, p.2) := by
  cases buf with
  | nil =>
    simp only [List.length_nil, Nat.sub_zero, List.nil_append]
    cases (⟨[], s⟩ : BufReader cap).readExact n <;> rfl
  | cons b buf =>
    obtain ⟨n, rfl⟩ : ∃ k, n = k + 1 := ⟨n - 1, by simp at h; omega⟩
    have hlen : buf.length ≤ n := by simpa using h
    rw [readExact, if_neg (Nat.succ_ne_zero n)]
    simp only [read, fillBuf, List.cons_ne_nil, false_and, if_false, Option.map_some,
      List.take_succ_cons, List.drop_succ_cons, List.take_of_length_le hlen,
      List.drop_of_length_le hlen, List.length_cons]
    cases (⟨[], s⟩ : BufReader cap).readExact (n + 1 - (buf.length + 1)) <;> rfl

/-- A read that fits in the buffer refills it when it is empty. -/
theorem readExact_nil {n : ℕ} (hn : 0 < n) (hcap : n < cap) (b : UInt8) (bs : List UInt8)
    (s : Source) :
    (⟨[], .bytes b bs :: s⟩ : BufReader cap).readExact n =
      (⟨(b :: bs).take cap, .putBack ((b :: bs).drop cap) s⟩ : BufReader cap).readExact n := by
  obtain ⟨cap, rfl⟩ : ∃ k, cap = k + 1 := ⟨cap - 1, by omega⟩
  rw [readExact, readExact, if_neg (by omega), if_neg (by omega)]
  simp [read, fillBuf, Source.read, Nat.not_le.mpr hcap]

/-- A read that succeeds with an empty buffer found bytes in the source. -/
theorem exists_bytes_of_readExact {n : ℕ} (hn : 0 < n) (hcap : n < cap) {s : Source}
    {p : List UInt8 × BufReader cap} (h : (⟨[], s⟩ : BufReader cap).readExact n = .ok p) :
    ∃ b bs s', s = .bytes b bs :: s' := by
  rw [readExact, if_neg (by omega)] at h
  match s with
  | [] => simp [read, fillBuf, Source.read, Nat.not_le.mpr hcap] at h
  | .error :: s => simp [read, fillBuf, Source.read, Nat.not_le.mpr hcap] at h
  | .bytes b bs :: s => exact ⟨b, bs, s, rfl⟩

/-- **A read that fits in the buffer can be made in two parts.** The induction is
on the first part, one refill at a time. -/
theorem readExact_add {m n : ℕ} {r r₁ r₂ : BufReader cap} {a b : List UInt8} (hcap : m + n < cap)
    (h₁ : r.readExact m = .ok (a, r₁)) (h₂ : r₁.readExact n = .ok (b, r₂)) :
    r.readExact (m + n) = .ok (a ++ b, r₂) := by
  induction m using Nat.strong_induction_on generalizing r a with
  | _ m ih =>
    rcases Nat.eq_zero_or_pos m with rfl | hm
    · obtain ⟨rfl, rfl⟩ : a = [] ∧ r₁ = r := by
        rw [readExact] at h₁
        simpa [eq_comm] using h₁
      rw [Nat.zero_add, h₂, List.nil_append]
    have key : ∀ buf s, buf ≠ [] → (⟨buf, s⟩ : BufReader cap).readExact m = .ok (a, r₁) →
        (⟨buf, s⟩ : BufReader cap).readExact (m + n) = .ok (a ++ b, r₂) := by
      intro buf s hne hbuf
      rcases Nat.le_total m buf.length with hle | hle
      · -- The first part is served by the buffer.
        rw [readExact_of_le_buf hle] at hbuf
        obtain ⟨rfl, rfl⟩ := Prod.mk.inj (Except.ok.inj hbuf)
        rcases Nat.le_total (m + n) buf.length with hle' | hle'
        · rw [readExact_of_le_buf (by simp; omega)] at h₂
          obtain ⟨rfl, rfl⟩ := Prod.mk.inj (Except.ok.inj h₂)
          rw [readExact_of_le_buf hle', List.take_add, List.drop_drop]
        · rw [readExact_of_buf_le (by simp; omega), map_eq_ok] at h₂
          obtain ⟨⟨x, r⟩, hx, hxb⟩ := h₂
          obtain ⟨rfl, rfl⟩ := Prod.mk.inj hxb
          have hrest : m + n - buf.length = n - (buf.drop m).length := by simp; omega
          rw [readExact_of_buf_le hle', hrest, hx, Except.map, ← List.append_assoc,
            List.take_append_drop]
      · -- The first part takes all of it, and goes on with a refill.
        rw [readExact_of_buf_le hle, map_eq_ok] at hbuf
        obtain ⟨⟨x, r⟩, hx, hxa⟩ := hbuf
        obtain ⟨rfl, rfl⟩ := Prod.mk.inj hxa
        have hpos : 0 < buf.length := List.length_pos_of_ne_nil hne
        have hrest : m + n - buf.length = m - buf.length + n := by omega
        rw [readExact_of_buf_le (by omega), hrest, ih (m - buf.length) (by omega) (by omega) hx,
          Except.map, List.append_assoc]
    obtain ⟨buf, s⟩ := r
    by_cases hbuf : buf = []
    · subst hbuf
      obtain ⟨c, cs, s, rfl⟩ := exists_bytes_of_readExact hm (by omega) h₁
      rw [readExact_nil (by omega) hcap]
      rw [readExact_nil hm (by omega)] at h₁
      exact key _ _ (by simp; omega) h₁
    · exact key buf s hbuf h₁

/-- **The buffer is empty after a read exactly when a delivery ends there.** -/
theorem buf_readExact_eq_nil_iff {n : ℕ} {s : Source} (hn : 0 < n) (hcap : n < cap)
    {bs : List UInt8} {r : BufReader cap} (h : (new s).readExact n = .ok (bs, r)) :
    r.buf = [] ↔ s.CutAt n := by
  induction s generalizing n bs with
  | nil =>
    obtain ⟨b, bs, s, hs⟩ := exists_bytes_of_readExact hn hcap h
    simp at hs
  | cons d s ih =>
    obtain ⟨c, cs, s', hs⟩ := exists_bytes_of_readExact hn hcap h
    obtain ⟨rfl, rfl⟩ := List.cons.inj hs
    obtain ⟨n, rfl⟩ : ∃ k, n = k + 1 := ⟨n - 1, by omega⟩
    rw [new, readExact_nil hn hcap] at h
    rw [Source.CutAt]
    rcases Nat.lt_or_ge n cs.length with hlt | hge
    · -- The delivery is longer than the read.
      rw [readExact_of_le_buf (by simp; omega)] at h
      obtain ⟨-, rfl⟩ := Prod.mk.inj (Except.ok.inj h)
      simp only [List.drop_eq_nil_iff, List.length_take, List.length_cons]
      omega
    · have htake : (c :: cs).take cap = c :: cs := List.take_of_length_le (by simp; omega)
      have hdrop : (c :: cs).drop cap = [] := List.drop_of_length_le (by simp; omega)
      rw [htake, hdrop, readExact_of_buf_le (by simpa using hge), map_eq_ok] at h
      obtain ⟨⟨x, r'⟩, hx, hxr⟩ := h
      obtain ⟨rfl, rfl⟩ := Prod.mk.inj hxr
      simp only [List.length_cons, Nat.add_sub_add_right, Source.putBack] at hx
      rcases Nat.eq_zero_or_pos (n - cs.length) with hzero | hpos
      · rw [hzero, readExact] at hx
        obtain ⟨-, rfl⟩ : x = [] ∧ ⟨[], s⟩ = r' := by simpa using hx
        simp [hge, hzero, Source.cutAt_zero]
      · simp [hge, ih hpos (by omega) hx]

end BufReader

end Lib

end Procnet
