import Mathlib.Data.List.AList

/-!
# Maps of bounded size

A finite map that holds at most `cap` keys, and says so in its type. A new key is
inserted only if it is absent and there is room (`insertNew`), or in place of another key
where there is none (`put`); the value of a key that is present can be changed in place
(`modify`), which never takes room.

The keys are kept in an association list of Mathlib, whose order nothing below
depends on: an operation is described by what it does to `lookup`.
-/

namespace Procnet

namespace Lib

/-- A map from `κ` to `β` with at most `cap` keys. -/
structure BoundedMap (κ β : Type) (cap : ℕ) where
  toAList : AList fun _ : κ => β
  length_le : toAList.entries.length ≤ cap

namespace BoundedMap

variable {κ β : Type} {cap : ℕ} [DecidableEq κ]

/-- The map without keys. -/
def empty : BoundedMap κ β cap := ⟨∅, Nat.zero_le _⟩

/-- The value of a key. -/
def lookup (m : BoundedMap κ β cap) (k : κ) : Option β := m.toAList.lookup k

/-- The number of keys. -/
def size (m : BoundedMap κ β cap) : ℕ := m.toAList.entries.length

/-- Whether every key is taken. -/
def full (m : BoundedMap κ β cap) : Prop := cap ≤ m.toAList.entries.length

instance (m : BoundedMap κ β cap) : Decidable m.full := inferInstanceAs (Decidable (_ ≤ _))

theorem length_insert_of_lookup_eq_none {m : AList fun _ : κ => β} {k : κ}
    (h : m.lookup k = none) (v : β) : (m.insert k v).entries.length = m.entries.length + 1 := by
  rw [AList.entries_insert_of_notMem (AList.lookup_eq_none.mp h), List.length_cons]

theorem length_insert_of_lookup_eq_some {m : AList fun _ : κ => β} {k : κ} {w : β}
    (h : m.lookup k = some w) (v : β) : (m.insert k v).entries.length = m.entries.length := by
  have hmem : k ∈ m.keys := by
    rw [← AList.mem_keys, ← AList.lookup_isSome, h]
    rfl
  have hpos : 0 < m.keys.length := List.length_pos_of_mem hmem
  have hkeys := congrArg List.length (AList.keys_insert (a := k) (b := v) m)
  rw [List.length_cons, List.length_erase_of_mem hmem] at hkeys
  simp only [AList.keys, List.keys, List.length_map] at hkeys hpos
  omega

/-- Inserts a key that is absent, if there is room. -/
def insertNew (m : BoundedMap κ β cap) (k : κ) (v : β) : Option (BoundedMap κ β cap) :=
  if h : m.lookup k = none ∧ ¬ m.full then
    some ⟨m.toAList.insert k v, by
      rw [length_insert_of_lookup_eq_none h.1]
      exact Nat.lt_of_not_le h.2⟩
  else none

/-- Removes a key. -/
def erase (m : BoundedMap κ β cap) (k : κ) : BoundedMap κ β cap where
  toAList := m.toAList.erase k
  length_le := by
    have hkeys := congrArg List.length (AList.keys_erase k m.toAList)
    have hle := List.length_erase_le (a := k) (l := m.toAList.keys)
    rw [← hkeys] at hle
    simp only [AList.keys, List.keys, List.length_map] at hle
    exact Nat.le_trans hle m.length_le

/-- Changes the value of a key, if it is there. -/
def modify (m : BoundedMap κ β cap) (k : κ) (f : β → β) : BoundedMap κ β cap :=
  match h : m.toAList.lookup k with
  | none => m
  | some v => ⟨m.toAList.insert k (f v), by
      rw [length_insert_of_lookup_eq_some h]
      exact m.length_le⟩

/-- Whether a key is inserted in place of another one. -/
def Evicts (m : BoundedMap κ β cap) (k : κ) : Prop := m.lookup k = none ∧ m.full

instance (m : BoundedMap κ β cap) (k : κ) : Decidable (m.Evicts k) :=
  decidable_of_iff ((m.lookup k).isNone ∧ m.full) (by rw [Option.isNone_iff_eq_none]; rfl)

/-- Inserts or replaces a key. In a full map, a new key takes the place of `victim`, which must
be there. -/
def put (m : BoundedMap κ β cap) (victim k : κ) (v : β) : Option (BoundedMap κ β cap) :=
  if (m.lookup k).isSome then some (m.modify k fun _ => v)
  else if m.full then
    if (m.lookup victim).isSome then (m.erase victim).insertNew k v else none
  else m.insertNew k v

@[simp] theorem lookup_empty (k : κ) : (empty : BoundedMap κ β cap).lookup k = none :=
  AList.lookup_empty k

/-- **When a key can be inserted**, and what this does. -/
theorem insertNew_eq_some {m m' : BoundedMap κ β cap} {k : κ} {v : β}
    (h : m.insertNew k v = some m') :
    m.lookup k = none ∧ ¬ m.full ∧ ∀ k', m'.lookup k' = if k' = k then some v else m.lookup k' := by
  unfold insertNew at h
  split at h
  · rename_i hnew
    obtain rfl := Option.some.inj h
    refine ⟨hnew.1, hnew.2, fun k' => ?_⟩
    split_ifs with hk
    · rw [hk]
      exact AList.lookup_insert _
    · exact AList.lookup_insert_ne hk
  · cases h

theorem insertNew_isSome {m : BoundedMap κ β cap} {k : κ} {v : β} :
    (m.insertNew k v).isSome ↔ m.lookup k = none ∧ ¬ m.full := by
  unfold insertNew
  split <;> simp_all

@[simp] theorem lookup_erase (m : BoundedMap κ β cap) (k k' : κ) :
    (m.erase k).lookup k' = if k' = k then none else m.lookup k' := by
  split_ifs with hk
  · rw [hk]
    exact AList.lookup_erase _ _
  · exact AList.lookup_erase_ne hk

@[simp] theorem lookup_modify (m : BoundedMap κ β cap) (k k' : κ) (f : β → β) :
    (m.modify k f).lookup k' = if k' = k then (m.lookup k').map f else m.lookup k' := by
  unfold modify
  split
  · rename_i hnone
    have hv : m.lookup k = none := hnone
    split_ifs with hk
    · rw [hk, hv]
      rfl
    · rfl
  · rename_i v hsome
    have hv : m.lookup k = some v := hsome
    split_ifs with hk
    · rw [hk, hv]
      exact AList.lookup_insert _
    · exact AList.lookup_insert_ne hk

/-- **What becomes of the keys**: the new one has its value, and a full map has lost another
one to it. -/
theorem put_eq_some {m m' : BoundedMap κ β cap} {victim k : κ} {v : β}
    (h : m.put victim k v = some m') (k' : κ) :
    m'.lookup k' =
      if k' = k then some v else if m.Evicts k ∧ k' = victim then none else m.lookup k' := by
  unfold put at h
  split_ifs at h with hk hfull hvictim
  · obtain rfl := Option.some.inj h
    have hnot : ¬ m.Evicts k := fun hevicts => by
      rw [hevicts.1] at hk
      cases hk
    have hrest : (if m.Evicts k ∧ k' = victim then none else m.lookup k') = m.lookup k' :=
      if_neg fun hand => hnot hand.1
    rw [lookup_modify, hrest]
    by_cases heq : k' = k
    · obtain ⟨w, hw⟩ := Option.isSome_iff_exists.mp hk
      rw [if_pos heq, if_pos heq, heq, hw]
      rfl
    · rw [if_neg heq, if_neg heq]
  · have hevicts : m.Evicts k := ⟨Option.not_isSome_iff_eq_none.mp hk, hfull⟩
    rw [(insertNew_eq_some h).2.2 k', lookup_erase]
    simp only [hevicts, true_and]
  · have hrest : (if m.Evicts k ∧ k' = victim then none else m.lookup k') = m.lookup k' :=
      if_neg fun hand => hfull hand.1.2
    rw [(insertNew_eq_some h).2.2 k', hrest]

/-- A new key can be inserted where there is room, and takes one place. -/
theorem put_of_room {m : BoundedMap κ β cap} {k : κ} (hk : m.lookup k = none) (hroom : ¬ m.full)
    (victim : κ) (v : β) : ∃ m', m.put victim k v = some m' ∧ m'.size = m.size + 1 := by
  refine ⟨⟨m.toAList.insert k v, ?_⟩, ?_, length_insert_of_lookup_eq_none hk v⟩
  · rw [length_insert_of_lookup_eq_none hk]
    exact Nat.lt_of_not_le hroom
  · rw [put, if_neg (by rw [hk]; nofun), if_neg hroom, insertNew, dif_pos ⟨hk, hroom⟩]

/-- A map has no more places taken than there are keys it may have. -/
theorem size_le_length {m : BoundedMap κ β cap} {l : List κ}
    (h : ∀ k, (m.lookup k).isSome → k ∈ l) : m.size ≤ l.length := by
  have hsub : m.toAList.keys ⊆ l := by
    intro k hk
    exact h k (AList.lookup_isSome.mpr (AList.mem_keys.mpr hk))
  have hle := (List.subperm_of_subset m.toAList.keys_nodup hsub).length_le
  simpa [AList.keys, List.keys, size] using hle

/-- In a full map, a new key can be inserted in place of one that is there. -/
theorem put_of_victim {m : BoundedMap κ β cap} {victim k : κ} (hk : m.lookup k = none)
    (hfull : m.full) (hvictim : (m.lookup victim).isSome) (v : β) :
    ∃ m', m.put victim k v = some m' := by
  have hmem : victim ∈ m.toAList.keys := by
    rw [← AList.mem_keys, ← AList.lookup_isSome]
    exact hvictim
  have hlen : (m.erase victim).toAList.entries.length + 1 = m.toAList.entries.length := by
    have hkeys := congrArg List.length (AList.keys_erase victim m.toAList)
    rw [List.length_erase_of_mem hmem] at hkeys
    have hpos := List.length_pos_of_mem hmem
    simp only [AList.keys, List.keys, List.length_map] at hkeys hpos
    rw [erase, hkeys]
    omega
  have hnew : (m.erase victim).lookup k = none ∧ ¬ (m.erase victim).full := by
    refine ⟨?_, ?_⟩
    · rw [lookup_erase, hk, ite_self]
    · have hle := m.length_le
      rw [full]
      omega
  obtain ⟨m', hm'⟩ := Option.isSome_iff_exists.mp (insertNew_isSome (v := v).mpr hnew)
  exact ⟨m', by rw [put, if_neg (by rw [hk]; nofun), if_pos hfull, if_pos hvictim, hm']⟩

end BoundedMap

end Lib

end Procnet
