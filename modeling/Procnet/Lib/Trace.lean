import Mathlib.Data.Nat.Notation
import Mathlib.Data.List.Basic
import Mathlib.Data.List.Induction
import Mathlib.Data.Option.Basic

/-!
# Runs of a labelled step function

A system is given by a partial step function: `step s l` is the state after the
step `l`, or `none` where the system cannot take it. `exec` runs a list of
steps. The rules below are the inductions every proof about runs needs, done
once:

* `exec_invariant` – what holds at the start and is kept by every step holds at
  the end;
* `exec_invariant_of_meets` – the same for the runs all of whose steps meet a
  condition on the state they start from;
* `exec_good_iff_meets` – such a condition is exact where a step that fails it does
  lasting harm;
* `exec_always_iff_meets` – and it is exact, whatever harm a step does, for a property of
  every state a run goes through;
* `exec_relation` – what each step does to a state, a whole run does to it;
* `exec_filterMap` – what a system does to a part of its state is a run of that part;
* `exec_observe` – the invariant rule for properties of a state together with what has
  been observed of the steps that led to it (`observe`).
-/

namespace Procnet

namespace Lib

variable {σ ℓ : Type} (step : σ → ℓ → Option σ)

/-- The state after a list of steps. -/
def exec : σ → List ℓ → Option σ
  | s, [] => some s
  | s, l :: ls => (step s l).bind fun s' => exec s' ls

/-- Every step of a run meets a condition on the state it is taken from. -/
def Meets (C : σ → ℓ → Prop) : σ → List ℓ → Prop
  | _, [] => True
  | s, l :: ls => C s l ∧ ∀ s', step s l = some s' → Meets C s' ls

variable {step}

@[simp] theorem exec_nil (s : σ) : exec step s [] = some s := rfl

theorem exec_cons (s : σ) (l : ℓ) (ls : List ℓ) :
    exec step s (l :: ls) = (step s l).bind fun s' => exec step s' ls := rfl

/-- A run takes its first step and goes on from there. -/
theorem exec_cons_eq_some {s t : σ} {l : ℓ} {ls : List ℓ} :
    exec step s (l :: ls) = some t ↔ ∃ s', step s l = some s' ∧ exec step s' ls = some t := by
  rw [exec_cons, Option.bind_eq_some_iff]

theorem exec_singleton (s : σ) (l : ℓ) : exec step s [l] = step s l :=
  Option.bind_fun_some (step s l)

theorem exec_append (s : σ) (ls ls' : List ℓ) :
    exec step s (ls ++ ls') = (exec step s ls).bind fun s' => exec step s' ls' := by
  induction ls generalizing s with
  | nil => rfl
  | cons l ls ih =>
    rw [List.cons_append, exec_cons, exec_cons, Option.bind_assoc]
    exact congrArg _ (funext ih)

theorem exec_append_eq_some {s t : σ} {ls ls' : List ℓ} :
    exec step s (ls ++ ls') = some t ↔
      ∃ s', exec step s ls = some s' ∧ exec step s' ls' = some t := by
  rw [exec_append, Option.bind_eq_some_iff]

/-- What is left of a run after its first steps. -/
theorem exec_drop {s s' t : σ} {ls ls' : List ℓ} (h : exec step s ls = some s')
    (h' : exec step s (ls ++ ls') = some t) : exec step s' ls' = some t := by
  obtain ⟨s'', hs'', ht⟩ := exec_append_eq_some.mp h'
  obtain rfl := Option.some.inj (hs''.symm.trans h)
  exact ht

/-- A run that ends in a state with a property, as far as this can be computed. -/
theorem exists_exec_of_any (step : σ → ℓ → Option σ) (s : σ) (ls : List ℓ) (p : σ → Bool)
    (h : (exec step s ls).any p = true) : ∃ t, exec step s ls = some t ∧ p t = true :=
  (Option.any_eq_true _ _).mp h

variable {C : σ → ℓ → Prop}

instance decidableMeets [∀ s l, Decidable (C s l)] :
    ∀ (s : σ) (ls : List ℓ), Decidable (Meets step C s ls)
  | _, [] => isTrue trivial
  | s, l :: ls =>
    match h : step s l with
    | none => decidable_of_iff (C s l) ⟨fun hC => ⟨hC, by simp [h]⟩, And.left⟩
    | some s' =>
      have : Decidable (Meets step C s' ls) := decidableMeets s' ls
      decidable_of_iff (C s l ∧ Meets step C s' ls) (by rw [Meets, h]; simp)

theorem meets_of_forall (h : ∀ s l, C s l) (s : σ) (ls : List ℓ) : Meets step C s ls := by
  induction ls generalizing s with
  | nil => trivial
  | cons l ls ih => exact ⟨h s l, fun s' _ => ih s'⟩

theorem meets_of_forall_mem {ls : List ℓ} (h : ∀ l ∈ ls, ∀ s, C s l) (s : σ) :
    Meets step C s ls := by
  induction ls generalizing s with
  | nil => trivial
  | cons l ls ih =>
    refine ⟨h l (List.mem_cons_self ..) s, fun s' _ => ih (fun l' hl' => ?_) s'⟩
    exact h l' (List.mem_cons_of_mem _ hl')

theorem meets_ne_of_notMem {l : ℓ} {ls : List ℓ} (h : l ∉ ls) (s : σ) :
    Meets step (fun _ l' => l' ≠ l) s ls := by
  refine meets_of_forall_mem (fun l' hl' _ => ?_) s
  rintro rfl
  exact h hl'

theorem meets_append {s : σ} {ls ls' : List ℓ} :
    Meets step C s (ls ++ ls') ↔
      Meets step C s ls ∧ ∀ s', exec step s ls = some s' → Meets step C s' ls' := by
  induction ls generalizing s with
  | nil => simp [Meets]
  | cons l ls ih =>
    rw [List.cons_append, Meets, Meets]
    constructor
    · rintro ⟨hC, hrest⟩
      refine ⟨⟨hC, fun s' hs' => (ih.mp (hrest s' hs')).1⟩, fun t ht => ?_⟩
      obtain ⟨s', hs', ht'⟩ := exec_cons_eq_some.mp ht
      exact (ih.mp (hrest s' hs')).2 t ht'
    · rintro ⟨⟨hC, hrest⟩, hlast⟩
      refine ⟨hC, fun s' hs' => ih.mpr ⟨hrest s' hs', fun t ht => ?_⟩⟩
      exact hlast t (exec_cons_eq_some.mpr ⟨s', hs', ht⟩)

/-- **A run meets a condition step by step.** -/
theorem meets_iff_forall_step {s : σ} {ls : List ℓ} :
    Meets step C s ls ↔
      ∀ ls₁ l ls₂ s₁, ls = ls₁ ++ l :: ls₂ → exec step s ls₁ = some s₁ → C s₁ l := by
  constructor
  · rintro h ls₁ l ls₂ s₁ rfl hs₁
    exact ((meets_append.mp h).2 s₁ hs₁).1
  · intro h
    induction ls generalizing s with
    | nil => trivial
    | cons l ls ih =>
      refine ⟨h [] l ls s rfl rfl, fun s' hs' => ih fun ls₁ l' ls₂ s₁ hsplit hs₁ => ?_⟩
      refine h (l :: ls₁) l' ls₂ s₁ (congrArg (List.cons l) hsplit) ?_
      exact exec_cons_eq_some.mpr ⟨s', hs', hs₁⟩

/-- **The invariant rule under a condition**: a run whose steps all meet the
condition keeps what each such step keeps. -/
theorem exec_invariant_of_meets {I : σ → Prop}
    (hstep : ∀ s l s', C s l → I s → step s l = some s' → I s') {s t : σ} {ls : List ℓ}
    (hm : Meets step C s ls) (hI : I s) (h : exec step s ls = some t) : I t := by
  induction ls generalizing s with
  | nil =>
    obtain rfl : s = t := by simpa using h
    exact hI
  | cons l ls ih =>
    obtain ⟨s', hs', ht⟩ := exec_cons_eq_some.mp h
    exact ih (hm.2 s' hs') (hstep s l s' hm.1 hI hs') ht

/-- Where an invariant of the steps that meet `D` implies `C`, a run whose steps all meet
`D` meets `C`. -/
theorem meets_of_invariant {D : σ → ℓ → Prop} {I : σ → Prop}
    (hstep : ∀ s l s', D s l → I s → step s l = some s' → I s') (hC : ∀ s l, I s → C s l)
    {s : σ} {ls : List ℓ} (hm : Meets step D s ls) (hI : I s) : Meets step C s ls := by
  induction ls generalizing s with
  | nil => trivial
  | cons l ls ih => exact ⟨hC s l hI, fun s' hs' => ih (hm.2 s' hs') (hstep s l s' hm.1 hI hs')⟩

/-- **The invariant rule**: a run keeps what every step keeps. -/
theorem exec_invariant {I : σ → Prop} (hstep : ∀ s l s', I s → step s l = some s' → I s')
    {s t : σ} {ls : List ℓ} (hI : I s) (h : exec step s ls = some t) : I t :=
  exec_invariant_of_meets (C := fun _ _ => True) (fun s l s' _ => hstep s l s')
    (meets_of_forall (fun _ _ => trivial) s ls) hI h

/-- **The exact rule under a condition**: where a step that meets `D` leads from a good
state to a good state exactly when it meets `C`, and none leads back to one, a run whose
steps all meet `D` ends in a good state exactly when all of them meet `C`. -/
theorem exec_good_iff_meets_of_meets {D : σ → ℓ → Prop} {G : σ → Prop}
    (hstep : ∀ s l s', D s l → G s → step s l = some s' → (G s' ↔ C s l))
    (hbad : ∀ s l s', D s l → ¬ G s → step s l = some s' → ¬ G s') {s t : σ} {ls : List ℓ}
    (hD : Meets step D s ls) (hs : G s) (h : exec step s ls = some t) :
    G t ↔ Meets step C s ls := by
  induction ls generalizing s with
  | nil =>
    obtain rfl : s = t := by simpa using h
    exact iff_of_true hs trivial
  | cons l ls ih =>
    obtain ⟨s', hs', ht⟩ := exec_cons_eq_some.mp h
    have hmeets : Meets step C s (l :: ls) ↔ C s l ∧ Meets step C s' ls := by
      rw [Meets, hs']
      simp
    rw [hmeets, ← hstep s l s' hD.1 hs hs']
    by_cases hgood : G s'
    · rw [ih (hD.2 s' hs') hgood ht, and_iff_right hgood]
    · have hend : ¬ G t :=
        exec_invariant_of_meets (I := fun u => ¬ G u) hbad (hD.2 s' hs') hgood ht
      exact iff_of_false hend fun hm => hgood hm.1

/-- **The exact rule**: where a step from a good state leads to a good state exactly
when it meets the condition, and nothing leads back to one, a run ends in a good
state exactly when all its steps meet the condition. -/
theorem exec_good_iff_meets {G : σ → Prop}
    (hstep : ∀ s l s', G s → step s l = some s' → (G s' ↔ C s l))
    (hbad : ∀ s l s', ¬ G s → step s l = some s' → ¬ G s') {s t : σ} {ls : List ℓ}
    (hs : G s) (h : exec step s ls = some t) : G t ↔ Meets step C s ls :=
  exec_good_iff_meets_of_meets (D := fun _ _ => True) (fun s l s' _ => hstep s l s')
    (fun s l s' _ => hbad s l s') (meets_of_forall (fun _ _ => trivial) s ls) hs h

/-- **The exact rule for every state of a run**: where a step from a good state leads to
a good state exactly when it meets the condition, a run goes through good states only
exactly when all its steps meet the condition. -/
theorem exec_always_iff_meets {I G : σ → Prop}
    (hinv : ∀ s l s', I s → G s → step s l = some s' → I s')
    (hstep : ∀ s l s', I s → G s → step s l = some s' → (G s' ↔ C s l)) {s t : σ} {ls : List ℓ}
    (hI : I s) (hs : G s) (h : exec step s ls = some t) :
    (∀ ls' u, ls' <+: ls → exec step s ls' = some u → G u) ↔ Meets step C s ls := by
  induction ls generalizing s with
  | nil =>
    refine iff_of_true (fun ls' u hpre hu => ?_) trivial
    obtain rfl := List.prefix_nil.mp hpre
    obtain rfl : s = u := by simpa using hu
    exact hs
  | cons l ls ih =>
    obtain ⟨s', hs', ht⟩ := exec_cons_eq_some.mp h
    constructor
    · intro hall
      have hgood : G s' := by
        refine hall [l] s' ⟨ls, rfl⟩ ?_
        rw [exec_cons_eq_some]
        exact ⟨s', hs', rfl⟩
      refine ⟨(hstep s l s' hI hs hs').mp hgood, fun u hu => ?_⟩
      obtain rfl := Option.some.inj (hs'.symm.trans hu)
      refine (ih (hinv s l s' hI hs hs') hgood ht).mp fun ls' v hpre hv => ?_
      refine hall (l :: ls') v ?_ (exec_cons_eq_some.mpr ⟨s', hs', hv⟩)
      exact List.cons_prefix_cons.mpr ⟨rfl, hpre⟩
    · rintro ⟨hC, hrest⟩ ls' u hpre hu
      have hgood : G s' := (hstep s l s' hI hs hs').mpr hC
      cases ls' with
      | nil =>
        obtain rfl : s = u := by simpa using hu
        exact hs
      | cons l' ls' =>
        obtain ⟨rfl, hpre'⟩ := List.cons_prefix_cons.mp hpre
        obtain ⟨s'', hs'', hu'⟩ := exec_cons_eq_some.mp hu
        obtain rfl := Option.some.inj (hs'.symm.trans hs'')
        exact (ih (hinv s l' s' hI hs hs') hgood ht).mpr (hrest s' hs') ls' u hpre' hu'

/-- **The relation rule**: a reflexive and transitive relation that every step
respects relates the ends of a run. -/
theorem exec_relation {R : σ → σ → Prop} (hrefl : ∀ s, R s s)
    (htrans : ∀ s t u, R s t → R t u → R s u)
    (hstep : ∀ s l s', step s l = some s' → R s s') {s t : σ} {ls : List ℓ}
    (h : exec step s ls = some t) : R s t := by
  refine exec_invariant (I := fun u => R s u) (fun u l u' hu hs => ?_) (hrefl s) h
  exact htrans s u u' hu (hstep u l u' hs)

section Projection

variable {σ' ℓ' : Type} {step' : σ' → ℓ' → Option σ'}

/-- **The projection rule**: where the image of every step is a step of another system, or
none, the image of a run is a run of it. -/
theorem exec_filterMap (α : σ → σ') (f : ℓ → Option ℓ')
    (hstep : ∀ s l s', step s l = some s' → exec step' (α s) (f l).toList = some (α s')) {s t : σ}
    {ls : List ℓ} (h : exec step s ls = some t) :
    exec step' (α s) (ls.filterMap f) = some (α t) := by
  induction ls generalizing s with
  | nil =>
    obtain rfl : s = t := by simpa using h
    rfl
  | cons l ls ih =>
    obtain ⟨s', hs', ht⟩ := exec_cons_eq_some.mp h
    have hsplit : (l :: ls).filterMap f = (f l).toList ++ ls.filterMap f := by
      cases hl : f l with
      | none => rw [List.filterMap_cons_none hl, Option.toList_none, List.nil_append]
      | some l' => rw [List.filterMap_cons_some hl, Option.toList_some, List.singleton_append]
    rw [hsplit, exec_append_eq_some]
    exact ⟨α s', hstep s l s' hs', ih ht⟩

/-- **The simulation rule**: where a step is matched by a run of another system between the images
of its ends, so is a run. -/
theorem exists_exec_of_simulates (α : σ → σ')
    (hstep : ∀ s l s', step s l = some s' → ∃ ls', exec step' (α s) ls' = some (α s')) {s t : σ}
    {ls : List ℓ} (h : exec step s ls = some t) : ∃ ls', exec step' (α s) ls' = some (α t) := by
  induction ls generalizing s with
  | nil =>
    obtain rfl : s = t := by simpa using h
    exact ⟨[], rfl⟩
  | cons l ls ih =>
    obtain ⟨s', hs', ht⟩ := exec_cons_eq_some.mp h
    obtain ⟨ls₁, h₁⟩ := hstep s l s' hs'
    obtain ⟨ls₂, h₂⟩ := ih ht
    exact ⟨ls₁ ++ ls₂, exec_append_eq_some.mpr ⟨α s', h₁, h₂⟩⟩

end Projection

/-! ### What is observed of a run -/

variable {ω : Type} {obs : σ → ℓ → Option ω}

variable (step) in
/-- What is observed of a run, step by step. -/
def observe (obs : σ → ℓ → Option ω) : σ → List ℓ → List ω
  | _, [] => []
  | s, l :: ls => (obs s l).toList ++ ((step s l).map fun s' => observe obs s' ls).getD []

theorem observe_cons {s s' : σ} {l : ℓ} (h : step s l = some s') (ls : List ℓ) :
    observe step obs s (l :: ls) = (obs s l).toList ++ observe step obs s' ls := by
  rw [observe, h]
  rfl

/-- **The projection rule for observations**: where the image of a step is observed as the
step itself, the image of a run is observed as the run. -/
theorem observe_filterMap {σ' ℓ' : Type} {step' : σ' → ℓ' → Option σ'}
    {obs' : σ' → ℓ' → Option ω} (α : σ → σ') (f : ℓ → Option ℓ')
    (hstep : ∀ s l s', step s l = some s' → exec step' (α s) (f l).toList = some (α s'))
    (hobs : ∀ s l s', step s l = some s' → (f l).bind (obs' (α s)) = obs s l) {s t : σ}
    {ls : List ℓ} (h : exec step s ls = some t) :
    observe step' obs' (α s) (ls.filterMap f) = observe step obs s ls := by
  induction ls generalizing s with
  | nil => rfl
  | cons l ls ih =>
    obtain ⟨s', hs', ht⟩ := exec_cons_eq_some.mp h
    rw [observe_cons hs', ← ih ht, ← hobs s l s' hs']
    have hl := hstep s l s' hs'
    cases hfl : f l with
    | none =>
      rw [hfl] at hl
      obtain heq : α s = α s' := by simpa using hl
      rw [List.filterMap_cons_none hfl, heq]
      rfl
    | some l' =>
      rw [hfl, Option.toList_some] at hl
      obtain ⟨t', ht', heq⟩ := exec_cons_eq_some.mp hl
      obtain rfl : t' = α s' := by simpa using heq
      rw [List.filterMap_cons_some hfl, observe_cons ht']
      rfl

/-- **The rule for two observations** of a run: what one of them sees of every step, or nothing, is
what it sees of the run, in order. -/
theorem observe_sublist_filterMap {ω' : Type} {obs' : σ → ℓ → Option ω'} {f : ω' → Option ω}
    (hobs : ∀ s l s', step s l = some s' → (obs s l).toList.Sublist ((obs' s l).bind f).toList)
    {s t : σ} {ls : List ℓ} (h : exec step s ls = some t) :
    (observe step obs s ls).Sublist ((observe step obs' s ls).filterMap f) := by
  induction ls generalizing s with
  | nil => exact List.Sublist.refl _
  | cons l ls ih =>
    obtain ⟨s', hs', ht⟩ := exec_cons_eq_some.mp h
    have hfirst : (obs' s l).toList.filterMap f = ((obs' s l).bind f).toList := by
      cases obs' s l with
      | none => rfl
      | some o => cases ho : f o <;> simp [ho]
    rw [observe_cons hs', observe_cons hs', List.filterMap_append, hfirst]
    exact (hobs s l s' hs').append (ih ht)

/-- **The invariant rule for what has been observed**: a run all of whose steps meet a
condition keeps what each such step keeps of a state and the observations that led
to it. -/
theorem exec_observe {R : σ → List ω → Prop}
    (hstep : ∀ s l s' h, C s l → R s h → step s l = some s' → R s' (h ++ (obs s l).toList))
    {s t : σ} {ls : List ℓ} (hm : Meets step C s ls) (hs : R s [])
    (h : exec step s ls = some t) : R t (observe step obs s ls) := by
  suffices hpre : ∀ pre, R s pre → R t (pre ++ observe step obs s ls) from hpre [] hs
  clear hs
  induction ls generalizing s with
  | nil =>
    intro pre hpre
    obtain rfl : s = t := by simpa using h
    simpa [observe] using hpre
  | cons l ls ih =>
    intro pre hpre
    obtain ⟨s', hs', ht⟩ := exec_cons_eq_some.mp h
    rw [observe_cons hs', ← List.append_assoc]
    exact ih (hm.2 s' hs') ht _ (hstep s l s' pre hm.1 hpre hs')

/-- **The invariant rule for what a run has done**: the same, with the steps themselves. -/
theorem exec_steps {R : σ → List ℓ → Prop}
    (hstep : ∀ s l s' ls, C s l → R s ls → step s l = some s' → R s' (ls ++ [l]))
    {s t : σ} {ls : List ℓ} (hm : Meets step C s ls) (hs : R s [])
    (h : exec step s ls = some t) : R t ls := by
  have hself : ∀ {s : σ} {ls : List ℓ}, exec step s ls = some t →
      observe step (fun _ l => some l) s ls = ls := by
    intro s ls h
    induction ls generalizing s with
    | nil => rfl
    | cons l ls ih =>
      obtain ⟨s', hs', ht⟩ := exec_cons_eq_some.mp h
      rw [observe_cons hs', ih ht]
      rfl
  have hrun : R t (observe step (fun _ l => some l) s ls) := exec_observe hstep hm hs h
  rwa [hself h] at hrun

/-- What is observed of a run that goes on by a step. -/
theorem observe_concat {s t t' : σ} {l : ℓ} {ls : List ℓ} (h : exec step s ls = some t)
    (ht : step t l = some t') :
    observe step obs s (ls ++ [l]) = observe step obs s ls ++ (obs t l).toList := by
  induction ls generalizing s with
  | nil =>
    obtain rfl : s = t := by simpa using h
    rw [List.nil_append, observe_cons ht]
    exact List.append_nil _
  | cons l' ls ih =>
    obtain ⟨s', hs', ht'⟩ := exec_cons_eq_some.mp h
    rw [List.cons_append, observe_cons hs', observe_cons hs', ih ht', List.append_assoc]

/-- **Induction on a run from its end**: what holds of the empty run, and goes on to hold when a
step is added to a run, holds of every run. -/
theorem exec_concat_rec {s₀ : σ} {R : List ℓ → σ → Prop} (hnil : R [] s₀)
    (hconcat : ∀ ls l s s', exec step s₀ ls = some s → R ls s → step s l = some s' →
      R (ls ++ [l]) s') {ls : List ℓ} {t : σ} (h : exec step s₀ ls = some t) : R ls t := by
  induction ls using List.reverseRecOn generalizing t with
  | nil =>
    obtain rfl : s₀ = t := by simpa using h
    exact hnil
  | append_singleton ls l ih =>
    obtain ⟨s, hs, ht⟩ := exec_append_eq_some.mp h
    exact hconcat ls l s t hs (ih hs) (by rwa [exec_singleton] at ht)

/-- **An observation was made at a step of the run.** -/
theorem exists_step_of_observe {s t : σ} {ls : List ℓ} (h : exec step s ls = some t)
    {hist hist' : List ω} {o : ω} (hobs : observe step obs s ls = hist ++ o :: hist') :
    ∃ ls₁ l ls₂ u u', ls = ls₁ ++ l :: ls₂ ∧ exec step s ls₁ = some u ∧ step u l = some u' ∧
      exec step u' ls₂ = some t ∧ observe step obs s ls₁ = hist ∧ obs u l = some o ∧
      observe step obs u' ls₂ = hist' := by
  induction ls generalizing s hist with
  | nil => simp [observe] at hobs
  | cons l ls ih =>
    obtain ⟨s', hs', ht⟩ := exec_cons_eq_some.mp h
    rw [observe_cons hs'] at hobs
    cases ho : obs s l with
    | none =>
      rw [ho] at hobs
      obtain ⟨ls₁, l', ls₂, u, u', rfl, hu, hu', ht', hhist, hl', hhist'⟩ := ih ht hobs
      refine ⟨l :: ls₁, l', ls₂, u, u', rfl, exec_cons_eq_some.mpr ⟨s', hs', hu⟩, hu', ht', ?_,
        hl', hhist'⟩
      rw [observe_cons hs', ho]
      exact hhist
    | some o' =>
      rw [ho] at hobs
      cases hist with
      | nil =>
        obtain ⟨rfl, hrest⟩ := List.cons.inj hobs
        exact ⟨[], l, ls, s, s', rfl, rfl, hs', ht, rfl, ho, hrest⟩
      | cons o₁ hist =>
        obtain ⟨rfl, hrest⟩ := List.cons.inj hobs
        obtain ⟨ls₁, l', ls₂, u, u', rfl, hu, hu', ht', hhist, hl', hhist'⟩ := ih ht hrest
        refine ⟨l :: ls₁, l', ls₂, u, u', rfl, exec_cons_eq_some.mpr ⟨s', hs', hu⟩, hu', ht', ?_,
          hl', hhist'⟩
        rw [observe_cons hs', ho, hhist]
        rfl

/-! ### The last of some observations -/

variable {β : Type}

/-- The last value that some observations of a history have. -/
def latest (f : ω → Option β) (b : β) (hist : List ω) : β := hist.foldl (fun b o => (f o).getD b) b

theorem latest_append (f : ω → Option β) (b : β) (hist hist' : List ω) :
    latest f b (hist ++ hist') = latest f (latest f b hist) hist' :=
  List.foldl_append

@[simp] theorem latest_concat (f : ω → Option β) (b : β) (hist : List ω) (o : ω) :
    latest f b (hist ++ [o]) = (f o).getD (latest f b hist) :=
  latest_append f b hist [o]

/-- Without such observations nothing changes. -/
theorem latest_of_none {f : ω → Option β} {hist : List ω} (h : ∀ o ∈ hist, f o = none) (b : β) :
    latest f b hist = b := by
  induction hist using List.reverseRecOn with
  | nil => rfl
  | append_singleton hist o ih =>
    rw [latest_concat, h o (by simp), Option.getD_none]
    exact ih fun o' ho' => h o' (List.mem_append_left _ ho')

/-- **Where the last value comes from.** -/
theorem latest_cases (f : ω → Option β) (b : β) (hist : List ω) :
    latest f b hist = b ∨
      ∃ before o after, hist = before ++ o :: after ∧ f o = some (latest f b hist) := by
  induction hist using List.reverseRecOn with
  | nil => exact Or.inl rfl
  | append_singleton hist o ih =>
    rw [latest_concat]
    cases ho : f o with
    | some x => exact Or.inr ⟨hist, o, [], rfl, ho⟩
    | none =>
      rw [Option.getD_none]
      refine ih.imp_right ?_
      rintro ⟨before, o', after, hsplit, ho'⟩
      exact ⟨before, o', after ++ [o], by rw [hsplit]; simp, ho'⟩

/-- Only the observations of the history matter. -/
theorem latest_congr {f g : ω → Option β} {hist : List ω} (h : ∀ o ∈ hist, f o = g o) (b : β) :
    latest f b hist = latest g b hist := by
  induction hist using List.reverseRecOn with
  | nil => rfl
  | append_singleton hist o ih =>
    rw [latest_concat, latest_concat, h o (by simp),
      ih fun o' ho' => h o' (List.mem_append_left _ ho')]

end Lib

end Procnet
