import Mathlib.Data.List.DropRight
import Mathlib.Data.List.Nodup

/-!
# In-place removal and bounded logs of a list

Two ways a program keeps a list short without reallocating it.

* **Removal by swapping.** Removing the element at an index by moving the last
  element into its place, and looking at the same index again. A loop that does
  so does not visit the list from left to right; `visitOrder` is the order it
  does visit it in, and `visitOrder_perm` says that it visits everything once.
* **A bounded log.** Appending an element and dropping the oldest one when the
  log is longer than its limit. Any number of appends leaves the last elements
  of the whole history (`foldl_pushRecent`).

The last sections are about a fold that keeps the first value that is set, about
reading a list by index, and about searching one.
-/

namespace Procnet

namespace Lib

variable {α : Type}

/-! ### Removal by swapping -/

/-- Removes the element at index `i`, moving the last one into its place. -/
def swapRemove (l : List α) (i : ℕ) : List α :=
  match l.getLast? with
  | none => []
  | some z => (l.set i z).dropLast

/-- What a removal at the head leaves: the last element first, then the rest. -/
def moveLast (l : List α) : List α :=
  match l.getLast? with
  | none => []
  | some z => z :: l.dropLast

theorem length_moveLast (l : List α) : (moveLast l).length = l.length := by
  rcases List.eq_nil_or_concat l with rfl | ⟨l, z, rfl⟩ <;> simp [moveLast]

theorem moveLast_perm (l : List α) : (moveLast l).Perm l := by
  rcases List.eq_nil_or_concat l with rfl | ⟨l, z, rfl⟩
  · simp [moveLast]
  · simpa [moveLast] using (List.perm_append_singleton z l).symm

/-- **A removal in the middle leaves the elements before it alone**, and puts the
last one in its place. -/
theorem swapRemove_append (l r : List α) (x : α) :
    swapRemove (l ++ x :: r) l.length = l ++ moveLast r := by
  rcases List.eq_nil_or_concat r with rfl | ⟨r, z, rfl⟩
  · simp [swapRemove, moveLast]
  · have hlast : (l ++ x :: (r ++ [z])).getLast? = some z := by
      rw [← List.cons_append, ← List.append_assoc, List.getLast?_concat]
    have hset : (l ++ x :: (r ++ [z])).set l.length z = l ++ z :: (r ++ [z]) := by
      rw [List.set_append_right _ _ (le_refl _)]
      simp
    have hdrop : (l ++ z :: (r ++ [z])).dropLast = l ++ z :: r := by
      rw [← List.cons_append, ← List.append_assoc, List.dropLast_concat]
    simp only [swapRemove, List.concat_eq_append, hlast, hset, hdrop]
    simp [moveLast]

/-- The order in which a loop visits a list when it removes by swapping the
elements that are not to be kept, and looks at the same index again. -/
def visitOrder (keep : α → Bool) : List α → List α
  | [] => []
  | x :: l => x :: visitOrder keep (if keep x then l else moveLast l)
  termination_by l => l.length
  decreasing_by split <;> simp [length_moveLast]

theorem visitOrder_nil (keep : α → Bool) : visitOrder keep [] = [] := by
  rw [visitOrder]

theorem visitOrder_cons_keep {keep : α → Bool} {x : α} (h : keep x = true) (l : List α) :
    visitOrder keep (x :: l) = x :: visitOrder keep l := by
  rw [visitOrder, if_pos h]

theorem visitOrder_cons_drop {keep : α → Bool} {x : α} (h : keep x = false) (l : List α) :
    visitOrder keep (x :: l) = x :: visitOrder keep (moveLast l) := by
  rw [visitOrder, if_neg (by simp [h])]

/-- Induction along the order of visits. -/
theorem visit_induction {k : α → Bool} {motive : List α → Prop} (nil : motive [])
    (cons_keep : ∀ x l, k x = true → motive l → motive (x :: l))
    (cons_drop : ∀ x l, k x = false → motive (moveLast l) → motive (x :: l)) :
    ∀ l, motive l
  | [] => nil
  | x :: l => by
    cases h : k x with
    | true => exact cons_keep x l h (visit_induction nil cons_keep cons_drop l)
    | false => exact cons_drop x l h (visit_induction nil cons_keep cons_drop (moveLast l))
  termination_by l => l.length
  decreasing_by all_goals simp [length_moveLast]

/-- **Every element is visited exactly once.** -/
theorem visitOrder_perm (keep : α → Bool) (l : List α) : (visitOrder keep l).Perm l := by
  induction l using visit_induction (k := keep) with
  | nil => rw [visitOrder_nil]
  | cons_keep x l h ih =>
    rw [visitOrder_cons_keep h]
    exact ih.cons x
  | cons_drop x l h ih =>
    rw [visitOrder_cons_drop h]
    exact (ih.trans (moveLast_perm l)).cons x

/-! ### A bounded log -/

/-- Appends to a log, dropping its oldest entry if it gets longer than `n`. -/
def pushRecent (n : ℕ) (l : List α) (x : α) : List α :=
  let l' := l ++ [x]
  if n < l'.length then l'.tail else l'

theorem mem_of_mem_pushRecent {n : ℕ} {l : List α} {x y : α} (h : y ∈ pushRecent n l x) :
    y ∈ l ++ [x] := by
  unfold pushRecent at h
  simp only at h
  split_ifs at h
  · exact List.mem_of_mem_tail h
  · exact h

theorem pushRecent_eq_rtake {n : ℕ} {l : List α} (h : l.length ≤ n) (x : α) :
    pushRecent n l x = (l ++ [x]).rtake n := by
  unfold pushRecent
  simp only [List.length_append, List.length_singleton, List.rtake]
  split
  · have hn : l.length + 1 - n = 1 := by omega
    rw [hn, List.drop_one]
  · have hn : l.length + 1 - n = 0 := by omega
    rw [hn, List.drop_zero]

theorem length_rtake_le (n : ℕ) (l : List α) : (l.rtake n).length ≤ n := by
  simp only [List.rtake, List.length_drop]
  omega

theorem length_pushRecent_le {n : ℕ} {l : List α} (h : l.length ≤ n) (x : α) :
    (pushRecent n l x).length ≤ n := by
  rw [pushRecent_eq_rtake h]
  exact length_rtake_le n _

/-- Only the end of a log matters to the end of a longer one. -/
theorem rtake_rtake_append (n : ℕ) (l r : List α) :
    (l.rtake n ++ r).rtake n = (l ++ r).rtake n := by
  simp only [List.rtake, List.length_append, List.length_drop, List.drop_append, List.drop_drop]
  congr 2 <;> omega

/-- **A bounded log holds the last entries of its history.** -/
theorem foldl_pushRecent {n : ℕ} (l xs : List α) (h : l.length ≤ n) :
    xs.foldl (pushRecent n) l = (l ++ xs).rtake n := by
  induction xs generalizing l with
  | nil =>
    have hn : l.length - n = 0 := by omega
    simp [List.rtake, hn]
  | cons x xs ih =>
    rw [List.foldl_cons, ih _ (length_pushRecent_le h x), pushRecent_eq_rtake h,
      rtake_rtake_append, List.append_assoc, List.singleton_append]

/-- An entry is in the log until enough later ones have come. -/
theorem mem_rtake_of_length_lt {n : ℕ} {r : List α} (h : r.length < n) (l : List α) (x : α) :
    x ∈ (l ++ x :: r).rtake n := by
  obtain ⟨k, hk⟩ : ∃ k, l.length = (l ++ x :: r).length - n + k := by
    rw [List.length_append, List.length_cons]
    exact ⟨l.length - (l.length + (r.length + 1) - n), by omega⟩
  rw [List.rtake, List.drop_append_of_le_length (by omega)]
  exact List.mem_append_right _ (List.mem_cons_self ..)

/-- A log holds what it held, or what was appended to it. -/
theorem mem_of_mem_foldl_pushRecent {n : ℕ} {l xs : List α} {x : α}
    (h : x ∈ xs.foldl (pushRecent n) l) : x ∈ l ∨ x ∈ xs := by
  induction xs generalizing l with
  | nil => exact Or.inl h
  | cons a xs ih =>
    rcases ih h with hx | hx
    · have hx' : x ∈ l ++ [a] := by
        rw [pushRecent] at hx
        split at hx
        · exact List.mem_of_mem_tail hx
        · exact hx
      rcases List.mem_append.mp hx' with hx' | hx'
      · exact Or.inl hx'
      · exact Or.inr (List.mem_singleton.mp hx' ▸ List.mem_cons_self ..)
    · exact Or.inr (List.mem_cons_of_mem _ hx)

/-! ### Lists with a key -/

/-- Where keys are distinct, the elements with a given key are at most one. -/
theorem filter_key_eq_singleton {κ : Type} [DecidableEq κ] {key : α → κ} {l : List α}
    (h : (l.map key).Nodup) {a : α} (ha : a ∈ l) :
    (l.filter fun x => key x == key a) = [a] := by
  induction l with
  | nil => simp at ha
  | cons b l ih =>
    obtain ⟨hb, hl⟩ := List.nodup_cons.mp (List.map_cons ▸ h)
    rcases List.mem_cons.mp ha with rfl | ha'
    · have hnone : (l.filter fun x => key x == key a) = [] := by
        refine List.filter_eq_nil_iff.mpr fun x hx hkey => hb ?_
        rw [← beq_iff_eq.mp hkey]
        exact List.mem_map_of_mem hx
      simp [hnone]
    · have hne : key b ≠ key a := fun hkey => hb (hkey ▸ List.mem_map_of_mem ha')
      rw [List.filter_cons_of_neg (by simpa using hne), ih hl ha']

/-! ### The first value that is set -/

/-- Takes a value over unless it is unset or another one has been taken. -/
def keepFirst [DecidableEq α] (unset : α) (kept a : α) : α :=
  if kept = unset ∧ a ≠ unset then a else kept

/-- **A fold that keeps the first value that is set** keeps the first one of the list, unless it
starts with one. -/
theorem foldl_keepFirst [DecidableEq α] (unset kept : α) (l : List α) :
    l.foldl (keepFirst unset) kept =
      if kept = unset then (l.find? (· ≠ unset)).getD unset else kept := by
  induction l generalizing kept with
  | nil =>
    rw [List.foldl_nil, List.find?_nil, Option.getD_none]
    split
    · assumption
    · rfl
  | cons a l ih =>
    rw [List.foldl_cons, ih, keepFirst]
    by_cases hkept : kept = unset
    · by_cases ha : a = unset
      · simp [hkept, ha]
      · simp [hkept, ha]
    · simp [hkept]

/-! ### Reading by index -/

/-- Applying a function that does not fail on the elements of a list. -/
theorem exists_mapM_eq_some {β : Type} {f : α → Option β} {l : List α}
    (h : ∀ a ∈ l, ∃ b, f a = some b) :
    ∃ bs : List β, l.mapM f = some bs ∧ bs.length = l.length ∧
      ∀ k : ℕ, bs[k]? = l[k]?.bind f := by
  induction l with
  | nil => exact ⟨[], rfl, rfl, fun _ => rfl⟩
  | cons a l ih =>
    obtain ⟨b, hb⟩ := h a (List.mem_cons_self ..)
    obtain ⟨bs, hbs, hlen, hget⟩ := ih fun a' ha' => h a' (List.mem_cons_of_mem _ ha')
    refine ⟨b :: bs, by simp [List.mapM_cons, hb, hbs], congrArg (· + 1) hlen, fun k => ?_⟩
    cases k with
    | zero => simp [hb]
    | succ k => simpa using hget k

/-- Applying a function whose results on the elements of a list are known. -/
theorem mapM_eq_some_map {β : Type} {f : α → Option β} {g : α → β} {l : List α}
    (h : ∀ a ∈ l, f a = some (g a)) : l.mapM f = some (l.map g) := by
  induction l with
  | nil => rfl
  | cons a l ih =>
    rw [List.mapM_cons, h a (List.mem_cons_self ..), ih fun b hb => h b (List.mem_cons_of_mem _ hb)]
    rfl

/-- Reading a list in which one element has been replaced. -/
theorem getElem?_set_of_some {l : List α} {i : ℕ} {a : α} (h : l[i]? = some a) (b : α) (k : ℕ) :
    (l.set i b)[k]? = if k = i then some b else l[k]? := by
  rcases eq_or_ne k i with rfl | hk
  · simp [List.getElem?_set_self', h]
  · rw [List.getElem?_set_ne (Ne.symm hk), if_neg hk]

/-- Reading a list with one more element. -/
theorem getElem?_concat_eq_some {l : List α} {a b : α} {k : ℕ} (h : (l ++ [a])[k]? = some b) :
    l[k]? = some b ∨ b = a := by
  rw [List.getElem?_append] at h
  split at h
  · exact Or.inl h
  · exact Or.inr (List.mem_singleton.mp (List.mem_of_getElem? h))

/-! ### Searching a list -/

/-- What is found in a list does not depend on its order, where at most one of its elements will
do. -/
theorem find?_eq_some_of_exclusive {p : α → Bool} {l : List α}
    (h : l.Pairwise fun a b => ¬ (p a ∧ p b)) {a : α} (hmem : a ∈ l) (ha : p a) :
    l.find? p = some a := by
  induction h with
  | nil => cases hmem
  | @cons b l hb _ ih =>
    rcases List.mem_cons.mp hmem with rfl | hmem
    · exact List.find?_cons_of_pos ha
    · rw [List.find?_cons_of_neg (fun hpb => hb a hmem ⟨hpb, ha⟩)]
      exact ih hmem

/-- The element that has an index, if there is one. -/
theorem filter_zipIdx_eq (l : List α) (start k : ℕ) :
    (l.zipIdx start).filter (fun p => p.2 = k) =
      if start ≤ k then (l[k - start]?.map fun a => (a, k)).toList else [] := by
  induction l generalizing start with
  | nil => simp
  | cons a l ih =>
    rw [List.zipIdx_cons, List.filter_cons, ih]
    rcases Nat.lt_trichotomy start k with hlt | rfl | hgt
    · have hsub : k - start = k - (start + 1) + 1 := by omega
      rw [if_neg (by simp; omega), if_pos (by omega), if_pos (by omega), hsub,
        List.getElem?_cons_succ]
    · rw [if_pos (by simp), if_neg (by omega), if_pos (by omega), Nat.sub_self]
      rfl
    · rw [if_neg (by simp; omega), if_neg (by omega), if_neg (by omega)]

/-- Where two of the values of a list come from. -/
theorem exists_of_pair_sublist_filterMap {β : Type} {f : α → Option β} {l : List α} {b b' : β}
    (h : [b, b'].Sublist (l.filterMap f)) :
    ∃ before a between a' after, l = before ++ a :: (between ++ a' :: after) ∧
      f a = some b ∧ f a' = some b' := by
  obtain ⟨r, r', hr, hb, hb'⟩ := List.cons_sublist_iff.mp h
  obtain ⟨l₁, l₂, rfl, rfl, rfl⟩ := List.filterMap_eq_append_iff.mp hr
  obtain ⟨a, ha, hfa⟩ := List.mem_filterMap.mp hb
  obtain ⟨a', ha', hfa'⟩ := List.mem_filterMap.mp (List.singleton_sublist.mp hb')
  obtain ⟨before, more, rfl⟩ := List.append_of_mem ha
  obtain ⟨less, after, rfl⟩ := List.append_of_mem ha'
  exact ⟨before, a, more ++ less, a', after, by simp, hfa, hfa'⟩

end Lib

end Procnet
