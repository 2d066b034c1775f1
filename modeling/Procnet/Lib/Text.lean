import Mathlib.Data.Nat.Notation
import Mathlib.Data.List.Basic
import Std.Data.String.ToNat

/-!
# Texts with separators

A text that is put together from parts with a separator between two of them determines the parts,
if the separator does not occur in one of the two: it can then be found as the first or the last
one (`append_cons_inj_left`, `append_cons_inj_right`). Decimal numbers are such parts for every
separator that is not a digit.
-/

namespace Procnet

namespace Lib

variable {α : Type} {c : α} {x x' z z' : List α}

/-- **The first separator** tells what stands before it. -/
theorem append_cons_inj_left (hx : c ∉ x) (hx' : c ∉ x') :
    x ++ c :: z = x' ++ c :: z' ↔ x = x' ∧ z = z' := by
  refine ⟨fun h => ?_, by rintro ⟨rfl, rfl⟩; rfl⟩
  -- One of the texts cannot end before the other one: it would have the separator there.
  induction x generalizing x' with
  | nil =>
    cases x' with
    | nil => exact ⟨rfl, (List.cons.inj h).2⟩
    | cons a x' =>
      obtain ⟨rfl, -⟩ := List.cons.inj h
      exact absurd (List.mem_cons_self ..) hx'
  | cons a x ih =>
    cases x' with
    | nil =>
      obtain ⟨rfl, -⟩ := List.cons.inj h
      exact absurd (List.mem_cons_self ..) hx
    | cons a' x' =>
      obtain ⟨rfl, hrest⟩ := List.cons.inj h
      obtain ⟨rfl, rfl⟩ := ih (List.not_mem_of_not_mem_cons hx) (List.not_mem_of_not_mem_cons hx')
        hrest
      exact ⟨rfl, rfl⟩

/-- **The last separator** tells what stands behind it. -/
theorem append_cons_inj_right (hz : c ∉ z) (hz' : c ∉ z') :
    x ++ c :: z = x' ++ c :: z' ↔ x = x' ∧ z = z' := by
  refine ⟨fun h => ?_, by rintro ⟨rfl, rfl⟩; rfl⟩
  have hreverse := congrArg List.reverse h
  simp only [List.reverse_append, List.reverse_cons, List.append_assoc, List.singleton_append]
    at hreverse
  obtain ⟨hz, hx⟩ := (append_cons_inj_left (by simpa using hz) (by simpa using hz')).mp hreverse
  exact ⟨List.reverse_injective hx, List.reverse_injective hz⟩

/-- A decimal number has digits only. -/
theorem notMem_toList_repr {c : Char} (hc : c.isDigit = false) (n : ℕ) : c ∉ n.repr.toList := by
  rw [Nat.toList_repr]
  intro hmem
  rw [Nat.isDigit_of_mem_toDigits (by decide) (by decide) hmem] at hc
  exact absurd hc (by decide)

/-- Decimal numbers are told apart by their digits. -/
theorem toList_repr_inj {m n : ℕ} : m.repr.toList = n.repr.toList ↔ m = n := by
  rw [String.toList_inj, Nat.repr_inj]

end Lib

end Procnet
