import Mathlib.Data.List.Sort

/-!
# Sorting by a key, in either direction

Entries of a table are sorted by one of their columns, upwards or downwards, and entries that agree
in it are put in ascending order of a second column, whatever the direction. `KeyLe` is that
relation. It is total and transitive, so that a sort by it is sorted; and where the second column
tells the entries apart it is a linear order of them, so that a list has only one sorted
permutation (`eq_of_perm_of_pairwise`): the result of the sort does not depend on how the list was
ordered before.

`compare_ne_gt` reads the relation off a comparator that compares the keys, reverses the result or
does not, and then compares the second column.
-/

namespace Procnet

namespace Lib

variable {α κ ι : Type} [LinearOrder κ] [LinearOrder ι]

/-- Whether an entry may stand before another one: by the key, downwards if `desc`, and by the
second column, upwards, where the keys are the same. -/
def KeyLe (desc : Bool) (key : α → κ) (tie : α → ι) (a b : α) : Prop :=
  (if desc then key b < key a else key a < key b) ∨ key a = key b ∧ tie a ≤ tie b

/-- **A comparator in two stages**: what it says of two entries is the relation. -/
theorem compare_ne_gt (desc : Bool) (key : α → κ) (tie : α → ι) (a b : α) :
    ((if desc then (compare (key a) (key b)).swap else compare (key a) (key b)).then
      (compare (tie a) (tie b))) ≠ .gt ↔ KeyLe desc key tie a b := by
  rw [Ne, Ordering.then_eq_gt, KeyLe]
  rcases lt_trichotomy (key a) (key b) with h | h | h
  · cases desc <;> simp [compare_lt_iff_lt.mpr h, h, h.not_gt, h.ne]
  · cases desc <;> simp [h, compare_gt_iff_gt]
  · cases desc <;> simp [compare_gt_iff_gt.mpr h, h, h.not_gt, h.ne']

namespace KeyLe

variable {desc : Bool} {key : α → κ} {tie : α → ι}

theorem total (a b : α) : KeyLe desc key tie a b ∨ KeyLe desc key tie b a := by
  rcases lt_trichotomy (key a) (key b) with h | h | h
  · cases desc with
    | false => exact Or.inl (Or.inl h)
    | true => exact Or.inr (Or.inl h)
  · exact (le_total (tie a) (tie b)).imp (fun hle => Or.inr ⟨h, hle⟩)
      fun hle => Or.inr ⟨h.symm, hle⟩
  · cases desc with
    | false => exact Or.inr (Or.inl h)
    | true => exact Or.inl (Or.inl h)

theorem trans {a b c : α} (hab : KeyLe desc key tie a b) (hbc : KeyLe desc key tie b c) :
    KeyLe desc key tie a c := by
  rcases hab with hab | ⟨hab, hle⟩
  · rcases hbc with hbc | ⟨hbc, -⟩
    · refine Or.inl ?_
      cases desc with
      | false => exact lt_trans hab hbc
      | true => exact lt_trans hbc hab
    · exact Or.inl (hbc ▸ hab)
  · rcases hbc with hbc | ⟨hbc, hle'⟩
    · exact Or.inl (hab ▸ hbc)
    · exact Or.inr ⟨hab.trans hbc, hle.trans hle'⟩

/-- Entries that may stand in either order agree in the second column. -/
theorem tie_eq {a b : α} (hab : KeyLe desc key tie a b) (hba : KeyLe desc key tie b a) :
    tie a = tie b := by
  rcases hab with hab | ⟨hab, hle⟩
  · rcases hba with hba | ⟨hba, -⟩
    · cases desc with
      | false => exact absurd hab hba.not_gt
      | true => exact absurd hab hba.not_gt
    · rw [hba] at hab
      cases desc <;> exact absurd hab (lt_irrefl _)
  · rcases hba with hba | ⟨-, hle'⟩
    · rw [hab] at hba
      cases desc <;> exact absurd hba (lt_irrefl _)
    · exact le_antisymm hle hle'

end KeyLe

/-- **A sort by a total and transitive relation is sorted**, whatever decides the relation. -/
theorem pairwise_insertionSort_of {r : α → α → Prop} [DecidableRel r] {R : α → α → Prop}
    (hr : ∀ a b, r a b ↔ R a b) (total : ∀ a b, R a b ∨ R b a)
    (trans : ∀ a b c, R a b → R b c → R a c) (l : List α) : (l.insertionSort r).Pairwise R := by
  have : Std.Total r := ⟨fun a b => by rw [hr, hr]; exact total a b⟩
  have : IsTrans α r := ⟨fun a b c => by rw [hr, hr, hr]; exact trans a b c⟩
  exact (List.pairwise_insertionSort r l).imp fun h => (hr _ _).mp h

/-- **Only one permutation is sorted**, where a column tells the entries apart. -/
theorem eq_of_perm_of_pairwise {ι : Type} {R : α → α → Prop} (tie : α → ι)
    (hR : ∀ a b, R a b → R b a → tie a = tie b) {l l₁ l₂ : List α} (hl : (l.map tie).Nodup)
    (h₁ : l₁.Pairwise R) (h₂ : l₂.Pairwise R) (hp₁ : l₁.Perm l) (hp₂ : l₂.Perm l) : l₁ = l₂ := by
  refine List.Perm.eq_of_pairwise ?_ h₁ h₂ (hp₁.trans hp₂.symm)
  intro a b ha hb hab hba
  exact List.inj_on_of_nodup_map hl (hp₁.mem_iff.mp ha) (hp₂.mem_iff.mp hb) (hR a b hab hba)

end Lib

end Procnet
