import Procnet.Lib.KeyOrder
import Procnet.Tui.View

/-!
# The view is the filtered list, in a canonical order

What `render` of `procnet/src/tui/view.rs` puts into the view. The indices of the entries that
pass the filter are sorted, by two copies of one comparator, `sort_rows` and `sort_dead_procs`. The
comparator compares a column, reverses the result if the direction says so, and breaks ties by pid;
columns have equal values often, as saturating sums do.

`Columns.Precedes` says in terms of the columns which entry may stand before which, and
`Columns.Lists` what a view of a list is: the entries that pass, each once, in such an order.
`view_canonical` says that every frame leaves such a view, that for rows with distinct pids it does
not depend on the order of the rows, which `swap_remove` changes all the time, and that the two
copies of the comparator sort alike.
-/

namespace Procnet

open Lib

/-- Sorts indices into the rows. -/
def sortRows (rows : List StatsRow) (indices : List ℕ) (key : SortKey) (dir : SortDir) :
    Option (List ℕ) :=
  rowColumns.sort rows indices key dir

/-- Sorts indices into the dead processes, by their cumulative bytes. -/
def sortDeadProcs (procs : List ProcInfo) (indices : List ℕ) (key : SortKey) (dir : SortDir) :
    Option (List ℕ) :=
  deadColumns.sort procs indices key dir

theorem compare_uint32 (x y : UInt32) : Ord.compare x y = Ord.compare x.toNat y.toNat := by
  show compareOfLessAndEq x y = compareOfLessAndEq x.toNat y.toNat
  simp only [compareOfLessAndEq, UInt32.lt_iff_toNat_lt, UInt32.toNat_inj]

theorem compare_uint64 (x y : UInt64) : Ord.compare x y = Ord.compare x.toNat y.toNat := by
  show compareOfLessAndEq x y = compareOfLessAndEq x.toNat y.toNat
  simp only [compareOfLessAndEq, UInt64.lt_iff_toNat_lt, UInt64.toNat_inj]

namespace Columns

variable {α : Type} (t : Columns α)

/-! ### The order of two entries -/

/-- **Which entry may stand before which**: by the column, in the direction given, and by ascending
pid where the column has the same value. -/
def Precedes (key : SortKey) (dir : SortDir) : α → α → Prop :=
  let pid := fun x => (t.pid x).toNat
  match key with
  | .pid => KeyLe (dir = .desc) pid pid
  | .name => KeyLe (dir = .desc) t.name pid
  | .sent => KeyLe (dir = .desc) (fun x => (t.total x).sent.toNat) pid
  | .recv => KeyLe (dir = .desc) (fun x => (t.total x).recv.toNat) pid
  | .total => KeyLe (dir = .desc) (fun x => (t.total x).combine.toNat) pid

variable {t} {key : SortKey} {dir : SortDir}

/-- **The comparator compares so.** -/
theorem compare_ne_gt_iff (a b : α) : t.compare key dir a b ≠ .gt ↔ t.Precedes key dir a b := by
  have hdir : ∀ o : Ordering, (if dir = .desc then o.swap else o) =
      if decide (dir = .desc) then o.swap else o := fun o => by simp
  cases key with
  | pid =>
    simp only [compare, Precedes, hdir, compare_uint32]
    exact compare_ne_gt _ (fun x => (t.pid x).toNat) (fun x => (t.pid x).toNat) a b
  | name =>
    simp only [compare, Precedes, hdir, compare_uint32]
    exact compare_ne_gt _ t.name (fun x => (t.pid x).toNat) a b
  | sent =>
    simp only [compare, Precedes, hdir, compare_uint32, compare_uint64]
    exact compare_ne_gt _ (fun x => (t.total x).sent.toNat) (fun x => (t.pid x).toNat) a b
  | recv =>
    simp only [compare, Precedes, hdir, compare_uint32, compare_uint64]
    exact compare_ne_gt _ (fun x => (t.total x).recv.toNat) (fun x => (t.pid x).toNat) a b
  | total =>
    simp only [compare, Precedes, hdir, compare_uint32, compare_uint64]
    exact compare_ne_gt _ (fun x => (t.total x).combine.toNat) (fun x => (t.pid x).toNat) a b

/-- Whatever the column, it is the order of a key. -/
theorem precedes_eq_keyLe (t : Columns α) (key : SortKey) (dir : SortDir) :
    ∃ (κ : Type) (_ : LinearOrder κ) (value : α → κ),
      t.Precedes key dir = KeyLe (dir = .desc) value fun x => (t.pid x).toNat := by
  cases key with
  | pid => exact ⟨ℕ, inferInstance, fun x => (t.pid x).toNat, rfl⟩
  | name => exact ⟨String, inferInstance, t.name, rfl⟩
  | sent => exact ⟨ℕ, inferInstance, fun x => (t.total x).sent.toNat, rfl⟩
  | recv => exact ⟨ℕ, inferInstance, fun x => (t.total x).recv.toNat, rfl⟩
  | total => exact ⟨ℕ, inferInstance, fun x => (t.total x).combine.toNat, rfl⟩

theorem precedes_total (a b : α) : t.Precedes key dir a b ∨ t.Precedes key dir b a := by
  obtain ⟨κ, _, value, heq⟩ := precedes_eq_keyLe t key dir
  rw [heq]
  exact KeyLe.total a b

theorem Precedes.trans {a b c : α} (hab : t.Precedes key dir a b) (hbc : t.Precedes key dir b c) :
    t.Precedes key dir a c := by
  obtain ⟨κ, _, value, heq⟩ := precedes_eq_keyLe t key dir
  rw [heq] at hab hbc ⊢
  exact hab.trans hbc

/-- Entries that may stand in either order have the same pid. -/
theorem Precedes.pid_eq {a b : α} (hab : t.Precedes key dir a b) (hba : t.Precedes key dir b a) :
    t.pid a = t.pid b := by
  obtain ⟨κ, _, value, heq⟩ := precedes_eq_keyLe t key dir
  rw [heq] at hab hba
  exact UInt32.toNat_inj.mp (hab.tie_eq hba)

/-! ### Entries with their indices -/

/-- The entries of a list, with their indices. -/
def entries (xs : List α) : List (ℕ × α) := xs.zipIdx.map Prod.swap

theorem mem_entries {xs : List α} {p : ℕ × α} : p ∈ entries xs ↔ xs[p.1]? = some p.2 := by
  obtain ⟨i, x⟩ := p
  rw [entries, List.mem_map]
  constructor
  · rintro ⟨⟨y, j⟩, hmem, heq⟩
    obtain ⟨rfl, rfl⟩ := Prod.mk.inj heq
    exact List.mem_zipIdx_iff_getElem?.mp hmem
  · intro h
    exact ⟨(x, i), List.mem_zipIdx_iff_getElem?.mpr h, rfl⟩

theorem map_fst_entries (xs : List α) : (entries xs).map Prod.fst = List.range xs.length := by
  rw [entries, List.map_map]
  exact (List.zipIdx_map_snd 0 xs).trans (List.range_eq_range').symm

theorem map_snd_entries (xs : List α) : (entries xs).map Prod.snd = xs := by
  rw [entries, List.map_map]
  exact List.zipIdx_map_fst 0 xs

/-- **What a sort of indices returns**: the same entries, in order. -/
theorem exists_sort {xs : List α} {l : List (ℕ × α)} (h : ∀ p ∈ l, p ∈ entries xs) :
    ∃ l' : List (ℕ × α), t.sort xs (l.map Prod.fst) key dir = some (l'.map Prod.fst) ∧ l'.Perm l ∧
      l'.Pairwise fun a b => t.Precedes key dir a.2 b.2 := by
  have hread : ((l.map Prod.fst).mapM fun i => xs[i]?.map fun x => (i, x)) = some l := by
    rw [List.mapM_map, mapM_eq_some_map (g := id), List.map_id]
    intro p hp
    rw [Function.comp_apply, mem_entries.mp (h p hp)]
    rfl
  have htrans : ∀ a b c : ℕ × α, t.Precedes key dir a.2 b.2 → t.Precedes key dir b.2 c.2 →
      t.Precedes key dir a.2 c.2 := fun _ _ _ hab hbc => hab.trans hbc
  refine ⟨_, by rw [sort, hread]; rfl, List.perm_insertionSort _ l, ?_⟩
  exact pairwise_insertionSort_of (fun a b => compare_ne_gt_iff a.2 b.2)
    (fun a b => precedes_total a.2 b.2) htrans l

/-! ### The view -/

variable (t) in
/-- Whether an entry passes the filter: its name or its pid, in decimal, contains the text, in
lower case. -/
def passes (s : TuiState) (x : α) : Bool :=
  s.filterText.isEmpty ||
    s.filterTarget.selects (makeAsciiLowercase s.filterText) (t.name x) (t.pid x)

variable {xs : List α} {s : TuiState}

/-- The two branches of the code filter alike. -/
theorem view_eq_sort (xs : List α) (s : TuiState) :
    t.view xs s = t.sort xs (((entries xs).filter fun p => t.passes s p.2).map Prod.fst)
      s.sortKey s.sortDir := by
  unfold view
  split
  case isTrue hxs =>
    obtain rfl := List.isEmpty_iff.mp hxs
    rfl
  case isFalse =>
    by_cases hfilter : s.filterText.isEmpty
    · have hall : ((entries xs).filter fun p => t.passes s p.2) = entries xs :=
        List.filter_eq_self.mpr fun p _ => by rw [passes, hfilter, Bool.true_or]
      rw [hall, map_fst_entries, if_pos hfilter]
    · have hsome : (xs.zipIdx.filterMap fun p =>
            if s.filterTarget.selects (makeAsciiLowercase s.filterText) (t.name p.1) (t.pid p.1)
              then some p.2 else none) =
          ((entries xs).filter fun p => t.passes s p.2).map Prod.fst := by
        rw [entries, List.filter_map, List.map_map, ← List.filterMap_eq_map, List.filterMap_filter]
        refine List.filterMap_congr fun p _ => ?_
        simp [passes, hfilter]
      rw [if_neg hfilter]
      exact congrArg (fun indices => t.sort xs indices s.sortKey s.sortDir) hsome

/-- **What a view is**: the entries that pass the filter, in order. -/
theorem exists_view (xs : List α) (s : TuiState) :
    ∃ l : List (ℕ × α), t.view xs s = some (l.map Prod.fst) ∧
      l.Perm ((entries xs).filter fun p => t.passes s p.2) ∧
      l.Pairwise fun a b => t.Precedes s.sortKey s.sortDir a.2 b.2 := by
  rw [view_eq_sort]
  exact exists_sort fun p hp => (List.mem_filter.mp hp).1

variable (t) in
/-- **A view of a list**: the index of every entry that passes the filter, once, and no other, in
the order of the column. -/
structure Lists (xs : List α) (s : TuiState) (view : List ℕ) : Prop where
  nodup : view.Nodup
  mem : ∀ i, i ∈ view ↔ ∃ x, xs[i]? = some x ∧ t.passes s x
  ordered : view.Pairwise fun i j => ∀ a b, xs[i]? = some a → xs[j]? = some b →
    t.Precedes s.sortKey s.sortDir a b

theorem lists_view {view : List ℕ} (h : t.view xs s = some view) : t.Lists xs s view := by
  obtain ⟨l, hl, hperm, hsorted⟩ := exists_view (t := t) xs s
  obtain rfl := Option.some.inj (hl.symm.trans h)
  have hentry : ∀ p ∈ l, xs[p.1]? = some p.2 := fun p hp =>
    mem_entries.mp (List.mem_filter.mp (hperm.mem_iff.mp hp)).1
  refine ⟨?_, fun i => ?_, ?_⟩
  · -- The indices are some of all indices, each of which there is once.
    have hsub : ((entries xs).filter fun p => t.passes s p.2).Sublist (entries xs) :=
      List.filter_sublist
    have hall : ((entries xs).map Prod.fst).Nodup := by
      rw [map_fst_entries]
      exact List.nodup_range
    exact (hperm.map Prod.fst).nodup_iff.mpr (hall.sublist (hsub.map Prod.fst))
  · rw [List.mem_map]
    constructor
    · rintro ⟨p, hp, rfl⟩
      exact ⟨p.2, hentry p hp, (List.mem_filter.mp (hperm.mem_iff.mp hp)).2⟩
    · rintro ⟨x, hx, hpass⟩
      exact ⟨(i, x), hperm.mem_iff.mpr (List.mem_filter.mpr ⟨mem_entries.mpr hx, hpass⟩), rfl⟩
  · rw [List.pairwise_map]
    refine (List.Pairwise.and_mem.mp hsorted).imp ?_
    rintro p q ⟨hp, hq, hpq⟩ a b ha hb
    obtain rfl := Option.some.inj ((hentry p hp).symm.trans ha)
    obtain rfl := Option.some.inj ((hentry q hq).symm.trans hb)
    exact hpq

/-- **The entries of a view do not depend on the order of the list**, where their pids are
distinct. -/
theorem map_view_perm {xs' : List α} (hperm : xs.Perm xs') (hnodup : (xs.map t.pid).Nodup)
    {view view' : List ℕ} (h : t.view xs s = some view) (h' : t.view xs' s = some view') :
    view.map (xs[·]?) = view'.map (xs'[·]?) := by
  obtain ⟨l, hl, hp, hsorted⟩ := exists_view (t := t) xs s
  obtain ⟨l', hl', hp', hsorted'⟩ := exists_view (t := t) xs' s
  obtain rfl := Option.some.inj (hl.symm.trans h)
  obtain rfl := Option.some.inj (hl'.symm.trans h')
  have hread : ∀ {ys : List α} {m : List (ℕ × α)},
      m.Perm ((entries ys).filter fun p => t.passes s p.2) →
      (m.map Prod.fst).map (ys[·]?) = (m.map Prod.snd).map some ∧
        (m.map Prod.snd).Perm (ys.filter (t.passes s)) := by
    intro ys m hm
    constructor
    · rw [List.map_map, List.map_map]
      exact List.map_congr_left fun p hp =>
        mem_entries.mp (List.mem_filter.mp (hm.mem_iff.mp hp)).1
    · have hsnd : ((entries ys).filter fun p => t.passes s p.2).map Prod.snd =
          ys.filter (t.passes s) := by
        conv_rhs => rw [← map_snd_entries ys]
        exact (List.filter_map (p := t.passes s) (f := Prod.snd)).symm
      exact hsnd ▸ hm.map Prod.snd
  obtain ⟨hfst, hsnd⟩ := hread hp
  obtain ⟨hfst', hsnd'⟩ := hread hp'
  rw [hfst, hfst']
  refine congrArg (List.map some) ?_
  refine eq_of_perm_of_pairwise t.pid (fun a b => Precedes.pid_eq) ?_
    (List.pairwise_map.mpr hsorted) (List.pairwise_map.mpr hsorted') hsnd
    (hsnd'.trans (hperm.filter _).symm)
  have hsub : (xs.filter (t.passes s)).Sublist xs := List.filter_sublist
  exact hnodup.sublist (hsub.map t.pid)

end Columns

/-! ### The two copies of the comparator -/

namespace Columns

variable {α : Type}

/-- What the sort looks at. -/
def values (t : Columns α) (x : α) : UInt32 × String × StatsBytes := (t.pid x, t.name x, t.total x)

/-- A table of such values. -/
def valueColumns : Columns (UInt32 × String × StatsBytes) where
  pid v := v.1
  name v := v.2.1
  total v := v.2.2
  empty := ""
  noMatch := ""

/-- **The sort looks at nothing else.** -/
theorem sort_eq_sort_values (t : Columns α) (xs : List α) (indices : List ℕ) (key : SortKey)
    (dir : SortDir) :
    t.sort xs indices key dir = valueColumns.sort (xs.map t.values) indices key dir := by
  have hread : (indices.mapM fun i => (xs.map t.values)[i]?.map fun v => (i, v)) =
      (indices.mapM fun i => xs[i]?.map fun x => (i, x)).map
        (List.map fun p => (p.1, t.values p.2)) := by
    induction indices with
    | nil => rfl
    | cons i indices ih =>
      rw [List.mapM_cons, List.mapM_cons, ih, List.getElem?_map]
      cases xs[i]? with
      | none => rfl
      | some x => cases indices.mapM fun i => xs[i]?.map fun x => (i, x) <;> rfl
  rw [sort, sort, hread, Option.map_map]
  refine congrArg (fun f => Option.map f _) (funext fun l => ?_)
  have hsort := List.map_insertionSort
    (r := fun a b : ℕ × α => t.compare key dir a.2 b.2 ≠ .gt)
    (s := fun a b => valueColumns.compare key dir a.2 b.2 ≠ .gt)
    (fun p => (p.1, t.values p.2)) l fun a _ b _ => Iff.rfl
  rw [Function.comp_apply, ← hsort, List.map_map]
  rfl

end Columns

/-- A dead process and a row that the sort cannot tell apart. -/
def SameColumns (p : ProcInfo) (r : StatsRow) : Prop :=
  p.pid = r.pid ∧ p.name = r.name ∧ p.tcpCum = r.tcp.bytes ∧ p.udpCum = r.udp.bytes

/-- **Dead processes are sorted as rows are.** -/
theorem sortDeadProcs_eq_sortRows {procs : List ProcInfo} {rows : List StatsRow}
    (h : List.Forall₂ SameColumns procs rows) (indices : List ℕ) (key : SortKey) (dir : SortDir) :
    sortDeadProcs procs indices key dir = sortRows rows indices key dir := by
  have hvalues : procs.map deadColumns.values = rows.map rowColumns.values := by
    induction h with
    | nil => rfl
    | @cons p r _ _ hpr _ ih =>
      obtain ⟨hpid, hname, htcp, hudp⟩ := hpr
      have hhead : deadColumns.values p = rowColumns.values r := by
        show (p.pid, p.name, p.tcpCum.merge p.udpCum) =
          (r.pid, r.name, r.tcp.bytes.merge r.udp.bytes)
        rw [hpid, hname, htcp, hudp]
      rw [List.map_cons, List.map_cons, hhead, ih]
  rw [sortDeadProcs, sortRows, deadColumns.sort_eq_sort_values, rowColumns.sort_eq_sort_values,
    hvalues]

/-! ### Frames -/

/-- **Every frame leaves a view of the list shown.** -/
theorem view_of_render {snap : SnapshotData} {height : ℕ} {s s' : TuiState} {frame : Frame}
    (h : render snap height s = some (s', frame)) :
    match s.viewMode with
    | .live => rowColumns.view snap.rows s = some s'.view
    | .dead => deadColumns.view snap.deadProcs s = some s'.view := by
  unfold render at h
  cases hmode : s.viewMode with
  | live =>
    rw [hmode] at h
    obtain ⟨view, pids, frame', hview, -, hrender⟩ := rowColumns.render_eq snap.rows height s
    obtain ⟨rfl, -⟩ := Prod.mk.inj (Option.some.inj (hrender.symm.trans h))
    rwa [TuiState.view_drawn]
  | dead =>
    rw [hmode] at h
    obtain ⟨view, pids, frame', hview, -, hrender⟩ := deadColumns.render_eq snap.deadProcs height s
    obtain ⟨rfl, -⟩ := Prod.mk.inj (Option.some.inj (hrender.symm.trans h))
    rwa [TuiState.view_drawn]

/-- **The view is the filtered list in a canonical order**: after every frame, of either list, it
has the index of every entry that passes the filter, once, and no other, in the order of the
column and then of the pids; for rows with distinct pids, the pids in it are the same however the
rows are permuted; and the two sorts agree. -/
theorem view_canonical :
    (∀ (snap : SnapshotData) (height : ℕ) (s s' : TuiState) (frame : Frame),
      render snap height s = some (s', frame) →
      match s.viewMode with
      | .live => rowColumns.Lists snap.rows s s'.view
      | .dead => deadColumns.Lists snap.deadProcs s s'.view) ∧
    (∀ (snap snap' : SnapshotData) (height height' : ℕ) (s s₁ s₂ : TuiState) (f₁ f₂ : Frame),
      s.viewMode = .live → snap.rows.Perm snap'.rows → (snap.rows.map StatsRow.pid).Nodup →
      render snap height s = some (s₁, f₁) → render snap' height' s = some (s₂, f₂) →
      s₁.view.map (fun i => snap.rows[i]?.map StatsRow.pid) =
        s₂.view.map fun i => snap'.rows[i]?.map StatsRow.pid) ∧
    ∀ (procs : List ProcInfo) (rows : List StatsRow) (indices : List ℕ) (key : SortKey)
      (dir : SortDir), List.Forall₂ SameColumns procs rows →
      sortDeadProcs procs indices key dir = sortRows rows indices key dir := by
  refine ⟨fun snap height s s' frame h => ?_, ?_, ?_⟩
  · have hview := view_of_render h
    cases hmode : s.viewMode with
    | live =>
      rw [hmode] at hview
      exact Columns.lists_view hview
    | dead =>
      rw [hmode] at hview
      exact Columns.lists_view hview
  · intro snap snap' height height' s s₁ s₂ f₁ f₂ hmode hperm hnodup h₁ h₂
    have hview₁ := view_of_render h₁
    have hview₂ := view_of_render h₂
    rw [hmode] at hview₁ hview₂
    have hmap := Columns.map_view_perm (t := rowColumns) hperm hnodup hview₁ hview₂
    have hpids := congrArg (List.map (Option.map StatsRow.pid)) hmap
    rwa [List.map_map, List.map_map] at hpids
  · intro procs rows indices key dir h
    exact sortDeadProcs_eq_sortRows h indices key dir

/-- A snapshot of processes that differ in their pids only. -/
def tiedRows (pids : List UInt32) : SnapshotData :=
  ⟨1000, 1, pids.map fun pid => ⟨pid, "a", default, default, default, default⟩, []⟩

/-- Two rows are displayed in the same order, whichever comes first. -/
theorem view_canonical_swapped :
    ∃ s₁ s₂ f₁ f₂, render (tiedRows [7, 9]) 10 .new = some (s₁, f₁) ∧
      render (tiedRows [9, 7]) 10 .new = some (s₂, f₂) ∧
      s₁.view.map (fun i => (tiedRows [7, 9]).rows[i]?.map StatsRow.pid) =
        s₂.view.map fun i => (tiedRows [9, 7]).rows[i]?.map StatsRow.pid := by
  have hrender : ∀ pids ∈ [[7, 9], [9, 7]], (render (tiedRows pids) 10 .new).isSome := by
    decide +kernel
  obtain ⟨⟨s₁, f₁⟩, h₁⟩ := Option.isSome_iff_exists.mp (hrender [7, 9] (by decide))
  obtain ⟨⟨s₂, f₂⟩, h₂⟩ := Option.isSome_iff_exists.mp (hrender [9, 7] (by decide))
  exact ⟨s₁, s₂, f₁, f₂, h₁, h₂, view_canonical.2.1 _ _ 10 10 .new s₁ s₂ f₁ f₂ rfl
    (List.Perm.swap ..) (by decide) h₁ h₂⟩

/-- Equal totals: ties are broken by pid, upwards, in both directions. -/
example :
    let rows : List StatsRow := [2, 1, 3].map fun pid =>
      ⟨pid, "a", ⟨⟨10, 0⟩, default⟩, default, default, default⟩
    sortRows rows [0, 1, 2] .total .desc = some [1, 0, 2] ∧
      sortRows rows [0, 1, 2] .total .asc = some [1, 0, 2] := by decide +kernel

end Procnet
