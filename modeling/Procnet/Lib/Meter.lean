import Mathlib.Algebra.BigOperators.Group.List.Basic
import Mathlib.Algebra.Order.Ring.Nat
import Mathlib.Data.List.Pairwise
import Mathlib.Data.Nat.Notation

/-!
# Reading a counter that is never cleared

A meter watches a counter that only grows. It remembers the last value it read,
its *baseline*, and reports at each reading the difference from it. A reset sets
the baseline to zero without touching the counter.

Without resets the reported differences add up to the last reading
(`sum_deltas`): nothing is lost and nothing is counted twice. Every reset adds
the baseline it erased to what will be reported (`cleared`), since the counter
still contains it; so counting starts afresh after a reset exactly when there was
nothing to erase (`cleared_eq_zero_iff`).
-/

namespace Procnet

namespace Lib

namespace Meter

/-- What can happen to a meter. -/
inductive Beat where
  /-- The counter is read, and shows `v`. -/
  | sample (v : ℕ) : Beat
  /-- The baseline is set to zero. -/
  | reset : Beat
  deriving DecidableEq, Repr

/-- The differences a meter reports, from a baseline on. -/
def deltas : ℕ → List Beat → List ℕ
  | _, [] => []
  | base, .sample v :: bs => (v - base) :: deltas v bs
  | _, .reset :: bs => deltas 0 bs

/-- The baseline in the end. -/
def reading : ℕ → List Beat → ℕ
  | base, [] => base
  | _, .sample v :: bs => reading v bs
  | _, .reset :: bs => reading 0 bs

/-- What the resets erase. -/
def cleared : ℕ → List Beat → ℕ
  | _, [] => 0
  | _, .sample v :: bs => cleared v bs
  | base, .reset :: bs => base + cleared 0 bs

/-- The values read. -/
def samples : List Beat → List ℕ
  | [] => []
  | .sample v :: bs => v :: samples bs
  | .reset :: bs => samples bs

/-- No reading that a reset follows shows anything. -/
def FreshResets : List Beat → Prop
  | [] => True
  | .sample v :: bs => (.reset ∈ bs → v = 0) ∧ FreshResets bs
  | .reset :: bs => FreshResets bs

/-- The counter never decreases. -/
def Rising (bs : List Beat) : Prop := (samples bs).Pairwise (· ≤ ·)

theorem deltas_append (base : ℕ) (bs bs' : List Beat) :
    deltas base (bs ++ bs') = deltas base bs ++ deltas (reading base bs) bs' := by
  induction bs generalizing base with
  | nil => rfl
  | cons b bs ih => cases b <;> simp [deltas, reading, ih]

theorem reading_append (base : ℕ) (bs bs' : List Beat) :
    reading base (bs ++ bs') = reading (reading base bs) bs' := by
  induction bs generalizing base with
  | nil => rfl
  | cons b bs ih => cases b <;> simp [reading, ih]

theorem samples_append (bs bs' : List Beat) :
    samples (bs ++ bs') = samples bs ++ samples bs' := by
  induction bs with
  | nil => rfl
  | cons b bs ih => cases b <;> simp [samples, ih]

theorem freshResets_append {bs : List Beat} (h : samples bs = []) (bs' : List Beat) :
    FreshResets (bs ++ bs') ↔ FreshResets bs' := by
  induction bs with
  | nil => rfl
  | cons b bs ih =>
    cases b with
    | sample v => simp [samples] at h
    | reset => exact ih h

theorem cleared_append_sample (base v : ℕ) (bs : List Beat) :
    cleared base (bs ++ [.sample v]) = cleared base bs := by
  induction bs generalizing base with
  | nil => rfl
  | cons b bs ih => cases b <;> simp [cleared, ih]

/-- The readings of a meter that is never reset end with its baseline. -/
theorem reading_eq_getLastD (base : ℕ) {bs : List Beat} (h : .reset ∉ bs) :
    reading base bs = (samples bs).getLastD base := by
  induction bs generalizing base with
  | nil => rfl
  | cons b bs ih =>
    cases b with
    | sample v =>
      rw [reading, ih v (fun hr => h (List.mem_cons_of_mem _ hr)), samples]
      cases samples bs <;> rfl
    | reset => exact absurd (List.mem_cons_self ..) h

/-- **The books of a meter**: what it reports and where it started make up where
it ends and what was erased on the way. -/
theorem sum_deltas (base : ℕ) {bs : List Beat} (h : Rising bs)
    (hbase : ∀ v ∈ samples bs, base ≤ v) :
    (deltas base bs).sum + base = reading base bs + cleared base bs := by
  induction bs generalizing base with
  | nil => simp [deltas, reading, cleared]
  | cons b bs ih =>
    cases b with
    | sample v =>
      obtain ⟨hv, hrest⟩ := List.pairwise_cons.mp (show (v :: samples bs).Pairwise (· ≤ ·) from h)
      have hle : base ≤ v := hbase v (List.mem_cons_self ..)
      have hbooks := ih v hrest hv
      simp only [deltas, reading, cleared, List.sum_cons]
      omega
    | reset =>
      have hbooks := ih 0 h fun v _ => Nat.zero_le v
      simp only [deltas, reading, cleared]
      omega

theorem cleared_eq_zero_of_no_reset (base : ℕ) {bs : List Beat} (h : .reset ∉ bs) :
    cleared base bs = 0 := by
  induction bs generalizing base with
  | nil => rfl
  | cons b bs ih =>
    cases b with
    | sample v => exact ih v fun hr => h (List.mem_cons_of_mem _ hr)
    | reset => exact absurd (List.mem_cons_self ..) h

/-- **Nothing is erased exactly when nothing was shown** before a reset. -/
theorem cleared_eq_zero_iff (base : ℕ) {bs : List Beat} (h : Rising bs)
    (hbase : ∀ v ∈ samples bs, base ≤ v) :
    cleared base bs = 0 ↔ (.reset ∈ bs → base = 0) ∧ FreshResets bs := by
  induction bs generalizing base with
  | nil => simp [cleared, FreshResets]
  | cons b bs ih =>
    cases b with
    | sample v =>
      obtain ⟨hv, hrest⟩ := List.pairwise_cons.mp (show (v :: samples bs).Pairwise (· ≤ ·) from h)
      have hle : base ≤ v := hbase v (List.mem_cons_self ..)
      rw [cleared, ih v hrest hv, FreshResets]
      constructor
      · rintro ⟨hr, hf⟩
        refine ⟨fun hmem => ?_, hr, hf⟩
        have hv0 := hr (by simpa using hmem)
        omega
      · exact And.right
    | reset =>
      have hrec := ih 0 h fun v _ => Nat.zero_le v
      rw [cleared, FreshResets, Nat.add_eq_zero_iff, hrec]
      simp

end Meter

end Lib

end Procnet
