import Mathlib.Data.String.Basic
import Procnet.Lib.Codec

/-!
# Bytes that may not be UTF-8

A decoder that never fails: what is no UTF-8 becomes replacement characters, one for each sequence
that could not be continued. It is a machine that reads a byte at a time (`Utf8Pending.next`), so
that what is said of it is said of a byte.

The bytes of a character, read from the start, give this character (`completes_utf8EncodeChar`); a
text that is UTF-8 is read as it is (`lossy_encode_append`), one that is cut inside a character
keeps the others and ends with one replacement character (`lossy_cut`), and no text gets longer
than three times its bytes (`utf8Len_lossy_le`).
-/

namespace Procnet

namespace Lib

/-- The character that stands for what could not be decoded. -/
def replacementChar : Char := '\uFFFD'

/-- **Where the decoder is**. -/
inductive Utf8Pending where
  /-- Between two characters. -/
  | start : Utf8Pending
  /-- Inside a sequence: how many bytes are missing, the range of the next of them, and the number
  that those before have spelled. -/
  | more (missing lo hi code : ℕ) : Utf8Pending
  deriving DecidableEq, Repr

namespace Utf8Pending

/-- The sequence that a byte begins. Not every byte does, and the second one has a smaller range
where the sequence would be overlong, a surrogate, or too large. -/
def lead (b : ℕ) : Option Utf8Pending :=
  if b < 0xC2 then none
  else if b ≤ 0xDF then some (.more 1 0x80 0xBF (b - 0xC0))
  else if b = 0xE0 then some (.more 2 0xA0 0xBF 0)
  else if b = 0xED then some (.more 2 0x80 0x9F 0xD)
  else if b ≤ 0xEF then some (.more 2 0x80 0xBF (b - 0xE0))
  else if b = 0xF0 then some (.more 3 0x90 0xBF 0)
  else if b ≤ 0xF3 then some (.more 3 0x80 0xBF (b - 0xF0))
  else if b = 0xF4 then some (.more 3 0x80 0x8F 4)
  else none

/-- The first byte of a sequence. -/
def first (b : ℕ) : List Char × Utf8Pending :=
  if b < 0x80 then ([Char.ofNat b], start)
  else
    match lead b with
    | some s => ([], s)
    | none => ([replacementChar], start)

/-- **The next byte**: the characters it gives, and where the decoder is then. A byte that does not
continue its sequence is the first of another one. -/
def next : Utf8Pending → ℕ → List Char × Utf8Pending
  | start, b => first b
  | more missing lo hi code, b =>
    if lo ≤ b ∧ b ≤ hi then
      if missing = 1 then ([Char.ofNat (code * 64 + b % 64)], start)
      else ([], more (missing - 1) 0x80 0xBF (code * 64 + b % 64))
    else (replacementChar :: (first b).1, (first b).2)

/-- What the decoder makes of the bytes that are left. -/
def lossy : Utf8Pending → List UInt8 → List Char
  | start, [] => []
  | more .., [] => [replacementChar]
  | s, b :: bs => (s.next b.toNat).1 ++ (s.next b.toNat).2.lossy bs

theorem lossy_cons (s : Utf8Pending) (b : UInt8) (bs : List UInt8) :
    s.lossy (b :: bs) = (s.next b.toNat).1 ++ (s.next b.toNat).2.lossy bs := by
  cases s <;> rfl

/-! ### Whole characters, and the last one -/

/-- **The bytes of one character**, from where the decoder is. -/
inductive Completes : Utf8Pending → List UInt8 → Char → Prop where
  /-- The last byte. -/
  | last {s : Utf8Pending} {b : UInt8} {c : Char} (h : s.next b.toNat = ([c], start)) :
    Completes s [b] c
  /-- A byte that others follow. -/
  | cons {s : Utf8Pending} {b : UInt8} {bs : List UInt8} {c : Char} {missing lo hi code : ℕ}
    (h : s.next b.toNat = ([], more missing lo hi code))
    (rest : Completes (more missing lo hi code) bs c) : Completes s (b :: bs) c

/-- A character that is complete is read as it is. -/
theorem Completes.lossy_append {s : Utf8Pending} {bs : List UInt8} {c : Char}
    (h : s.Completes bs c) (rest : List UInt8) :
    s.lossy (bs ++ rest) = c :: start.lossy rest := by
  induction h with
  | last h => rw [List.singleton_append, lossy_cons, h, List.singleton_append]
  | cons h _ ih => rw [List.cons_append, lossy_cons, h, List.nil_append, ih]

/-- **A character that is cut** leaves one replacement character. -/
theorem Completes.lossy_take {s : Utf8Pending} {bs : List UInt8} {c : Char}
    (h : s.Completes bs c) {k : ℕ} (hk : k < bs.length) :
    s.lossy (bs.take k) = if k = 0 then s.lossy [] else [replacementChar] := by
  induction h generalizing k with
  | last h =>
    obtain rfl : k = 0 := Nat.lt_one_iff.mp hk
    rw [List.take_zero, if_pos rfl]
  | cons h rest ih =>
    cases k with
    | zero => rw [List.take_zero, if_pos rfl]
    | succ k =>
      -- The byte that is there gives nothing, and the machine is inside the sequence.
      rw [List.take_succ_cons, lossy_cons, h, List.nil_append, ih (Nat.lt_of_succ_lt_succ hk),
        if_neg (Nat.succ_ne_zero k), lossy, ite_self]

/-! ### Every character has its bytes -/

theorem toNat_ofNat {n : ℕ} (h : n < 256) : (UInt8.ofNat n).toNat = n := UInt8.toNat_ofNat_of_lt' h

/-- A byte that begins a sequence. -/
theorem next_first {b : ℕ} {s : Utf8Pending} (hb : b < 256) (h : lead b = some s) :
    start.next (UInt8.ofNat b).toNat = ([], s) := by
  have hlow : ¬ b < 0x80 := by
    intro hlt
    rw [lead, if_pos (by omega)] at h
    cases h
  rw [toNat_ofNat hb, next, first, if_neg hlow, h]

/-- A byte of a sequence that is not the last. -/
theorem next_more {missing lo hi code b : ℕ} (hb : b < 256) (hlo : lo ≤ b) (hhi : b ≤ hi)
    (hm : missing ≠ 1) : (more missing lo hi code).next (UInt8.ofNat b).toNat =
      ([], more (missing - 1) 0x80 0xBF (code * 64 + b % 64)) := by
  rw [toNat_ofNat hb, next, if_pos ⟨hlo, hhi⟩, if_neg hm]

/-- The last byte of a sequence. -/
theorem next_last {lo hi code b : ℕ} {c : Char} (hb : b < 256) (hlo : lo ≤ b) (hhi : b ≤ hi)
    (hc : code * 64 + b % 64 = c.toNat) :
    (more 1 lo hi code).next (UInt8.ofNat b).toNat = ([c], start) := by
  rw [toNat_ofNat hb, next, if_pos ⟨hlo, hhi⟩, if_pos rfl, hc, Char.ofNat_toNat]

/-- A sequence of two bytes. -/
theorem lead_two {a : ℕ} (h2 : 2 ≤ a) (ha : a < 32) :
    lead (a + 0xC0) = some (.more 1 0x80 0xBF a) := by
  rw [lead, if_neg (by omega), if_pos (by omega), Nat.add_sub_cancel]

/-- A sequence of three bytes: its second one shows that it is no shorter one, and no surrogate. -/
theorem lead_three {a b : ℕ} (ha : a < 16) (hlo : 0x80 ≤ b) (hhi : b ≤ 0xBF)
    (h0 : a = 0 → 0xA0 ≤ b) (hd : a = 0xD → b ≤ 0x9F) :
    ∃ lo hi, lead (a + 0xE0) = some (.more 2 lo hi a) ∧ lo ≤ b ∧ b ≤ hi := by
  rw [lead, if_neg (by omega), if_neg (by omega)]
  split_ifs with h1 h2
  · obtain rfl : a = 0 := by omega
    exact ⟨_, _, rfl, h0 rfl, hhi⟩
  · obtain rfl : a = 0xD := by omega
    exact ⟨_, _, rfl, hlo, hd rfl⟩
  · exact ⟨_, _, by rw [Nat.add_sub_cancel], hlo, hhi⟩
  all_goals omega

/-- A sequence of four bytes: its second one shows that it is no shorter one, and not too large. -/
theorem lead_four {a b : ℕ} (ha : a ≤ 4) (hlo : 0x80 ≤ b) (hhi : b ≤ 0xBF)
    (h0 : a = 0 → 0x90 ≤ b) (h4 : a = 4 → b ≤ 0x8F) :
    ∃ lo hi, lead (a + 0xF0) = some (.more 3 lo hi a) ∧ lo ≤ b ∧ b ≤ hi := by
  rw [lead, if_neg (by omega), if_neg (by omega), if_neg (by omega), if_neg (by omega),
    if_neg (by omega)]
  split_ifs with h1 h2 h3
  · obtain rfl : a = 0 := by omega
    exact ⟨_, _, rfl, h0 rfl, hhi⟩
  · exact ⟨_, _, by rw [Nat.add_sub_cancel], hlo, hhi⟩
  · obtain rfl : a = 4 := by omega
    exact ⟨_, _, rfl, hlo, h4 rfl⟩
  · omega

/-- **The bytes of a character give this character.** -/
theorem completes_utf8EncodeChar (c : Char) : start.Completes (String.utf8EncodeChar c) c := by
  have hvalid : c.toNat < 0xD800 ∨ 0xDFFF < c.toNat ∧ c.toNat < 0x110000 := c.valid
  have hv : c.val.toNat = c.toNat := rfl
  unfold String.utf8EncodeChar
  simp only [hv]
  generalize hn : c.toNat = n at hvalid ⊢
  split_ifs with h1 h2 h3
  · -- one byte
    refine .last ?_
    rw [toNat_ofNat (by omega), next, first, if_pos (by omega), ← hn, Char.ofNat_toNat]
  · -- two bytes
    have hlead := lead_two (a := n / 64 % 32) (by omega) (by omega)
    exact .cons (next_first (by omega) hlead)
      (.last (next_last (by omega) (by omega) (by omega) (by omega)))
  · -- three bytes
    obtain ⟨lo, hi, hlead, hlo, hhi⟩ := lead_three (a := n / 4096 % 16) (b := n / 64 % 64 + 0x80)
      (by omega) (by omega) (by omega) (by omega) (by omega)
    exact .cons (next_first (by omega) hlead) (.cons (next_more (by omega) hlo hhi (by decide))
      (.last (next_last (by omega) (by omega) (by omega) (by omega))))
  · -- four bytes
    obtain ⟨lo, hi, hlead, hlo, hhi⟩ := lead_four (a := n / 262144 % 8) (b := n / 4096 % 64 + 0x80)
      (by omega) (by omega) (by omega) (by omega) (by omega)
    exact .cons (next_first (by omega) hlead) (.cons (next_more (by omega) hlo hhi (by decide))
      (.cons (next_more (by omega) (by omega) (by omega) (by decide))
        (.last (next_last (by omega) (by omega) (by omega) (by omega)))))

/-- **What is UTF-8 is read as it is.** -/
theorem lossy_encode_append (cs : List Char) (rest : List UInt8) :
    start.lossy (cs.flatMap String.utf8EncodeChar ++ rest) = cs ++ start.lossy rest := by
  induction cs with
  | nil => rfl
  | cons c cs ih =>
    rw [List.flatMap_cons, List.append_assoc, (completes_utf8EncodeChar c).lossy_append, ih,
      List.cons_append]

/-- **A text that is cut** keeps the characters before the cut. If it falls inside a character, a
replacement character stands for this one. -/
theorem lossy_cut (cs : List Char) (k : ℕ) :
    ∃ whole, whole <+: cs ∧
      ((cs.flatMap String.utf8EncodeChar).take k = whole.flatMap String.utf8EncodeChar ∧
          start.lossy ((cs.flatMap String.utf8EncodeChar).take k) = whole ∨
        (∃ c, whole ++ [c] <+: cs ∧ (whole.flatMap String.utf8EncodeChar).length < k ∧
            k < ((whole ++ [c]).flatMap String.utf8EncodeChar).length) ∧
          start.lossy ((cs.flatMap String.utf8EncodeChar).take k) =
            whole ++ [replacementChar]) := by
  induction cs generalizing k with
  | nil => exact ⟨[], List.nil_prefix, Or.inl ⟨List.take_nil, by simp [lossy]⟩⟩
  | cons c cs ih =>
    have hc := completes_utf8EncodeChar c
    rw [List.flatMap_cons]
    by_cases hk : k < (String.utf8EncodeChar c).length
    · -- The cut is before the end of the first character.
      rw [List.take_append_of_le_length hk.le, hc.lossy_take hk]
      refine ⟨[], List.nil_prefix, ?_⟩
      by_cases h0 : k = 0
      · subst h0
        exact Or.inl ⟨rfl, rfl⟩
      · refine Or.inr ⟨⟨c, ⟨cs, rfl⟩, Nat.pos_of_ne_zero h0, ?_⟩, if_neg h0⟩
        rwa [List.nil_append, List.flatMap_singleton]
    · obtain ⟨whole, hwhole, hcut⟩ := ih (k - (String.utf8EncodeChar c).length)
      have htake : (String.utf8EncodeChar c ++ cs.flatMap String.utf8EncodeChar).take k =
          String.utf8EncodeChar c ++ (cs.flatMap String.utf8EncodeChar).take
            (k - (String.utf8EncodeChar c).length) := by
        rw [List.take_append, List.take_of_length_le (Nat.le_of_not_lt hk)]
      rw [htake, hc.lossy_append]
      refine ⟨c :: whole, List.cons_prefix_cons.mpr ⟨rfl, hwhole⟩, ?_⟩
      rcases hcut with ⟨ht, hl⟩ | ⟨⟨d, hd, hlo, hhi⟩, hl⟩
      · exact Or.inl ⟨by rw [ht, List.flatMap_cons], by rw [hl]⟩
      · refine Or.inr ⟨⟨d, List.cons_prefix_cons.mpr ⟨rfl, hd⟩, ?_, ?_⟩, by
          rw [hl, List.cons_append]⟩
        · rw [List.flatMap_cons, List.length_append]
          omega
        · rw [List.cons_append, List.flatMap_cons, List.length_append]
          omega

/-! ### No text gets much longer -/

/-- What the bytes read so far may still give. -/
def owed : Utf8Pending → ℕ
  | start => 0
  | more .. => 3

/-- The first byte of a sequence gives no more than three bytes, now or later. -/
theorem utf8Len_first_le (b : ℕ) : String.utf8Len (first b).1 + (first b).2.owed ≤ 3 := by
  unfold first
  split_ifs with hb
  · have hval : (Char.ofNat b).toNat = b := by
      rw [Char.ofNat, dif_pos (Or.inl (by omega))]
      rfl
    have hsize : (Char.ofNat b).utf8Size = 1 :=
      Char.utf8Size_eq_one_iff.mpr (UInt32.le_iff_toNat_le.mpr
        (hval.trans_le (Nat.le_of_lt_succ hb)))
    simp [owed, hsize]
  · cases hlead : lead b with
    | some s => cases s <;> simp [owed]
    | none => simp [owed]; decide

/-- The next byte gives no more than three bytes beyond what the others were to give. -/
theorem utf8Len_next_le (s : Utf8Pending) (b : ℕ) :
    String.utf8Len (s.next b).1 + (s.next b).2.owed ≤ 3 + s.owed := by
  cases s with
  | start => exact (utf8Len_first_le b).trans (Nat.le_add_right 3 _)
  | more missing lo hi code =>
    rw [next]
    split_ifs
    · have hsize := Char.utf8Size_le_four (Char.ofNat (code * 64 + b % 64))
      simp only [owed, String.utf8Len_cons, String.utf8Len_nil]
      omega
    · simp [owed]
    · have hfirst := utf8Len_first_le b
      have hsize : replacementChar.utf8Size = 3 := by decide
      show String.utf8Len (first b).1 + replacementChar.utf8Size + (first b).2.owed ≤ 3 + 3
      rw [hsize]
      omega

/-- **No text gets longer than three times its bytes.** -/
theorem utf8Len_lossy_le (s : Utf8Pending) (bs : List UInt8) :
    String.utf8Len (s.lossy bs) ≤ 3 * bs.length + s.owed := by
  induction bs generalizing s with
  | nil => cases s <;> simp [lossy, owed]; decide
  | cons b bs ih =>
    have hnext := utf8Len_next_le s b.toNat
    have hrest := ih (s.next b.toNat).2
    rw [lossy_cons, String.utf8Len_append, List.length_cons]
    omega

end Utf8Pending

end Lib

end Procnet
