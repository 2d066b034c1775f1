import Procnet.Lib.Trace
import Procnet.Lib.Vec

/-!
# The socket path

What `bind_unix_listener` of `procnetd/src/server.rs` and the signal handler of
`procnetd/src/signals.rs` do to the path of the IPC socket, for any number of daemons that use
the same one. A daemon that finds the path taken connects to it, to see whether somebody still
listens, and removes it if not. Between the two, the path can change; and a socket that has been
bound but does not listen yet refuses connections as well. So a daemon can remove the path of
another one that has just started.

Apart from that, the path is safe: `clobber_free_iff`. A daemon that is stopped removes its own
socket only.
-/

namespace Procnet

open Lib

/-- The error a daemon exits with that cannot bind the path. -/
inductive ListenerError where
  | inUse : ListenerError
  | bind : ListenerError
  deriving DecidableEq, Repr

/-- Where a daemon is. -/
inductive Stage where
  /-- Before `UnixListener::bind`. -/
  | starting : Stage
  /-- The path is taken; before the `connect` of `probe_and_bind`. -/
  | probing : Stage
  /-- Nobody listens; before `remove_file`. -/
  | removing : Stage
  /-- Before the second `UnixListener::bind`. -/
  | rebinding : Stage
  /-- The socket is bound, and is to listen. -/
  | bound : Stage
  | running : Stage
  /-- A signal has been received; the path is to be removed. -/
  | stopping : Stage
  /-- About to exit. -/
  | stopped : Stage
  | failed (err : ListenerError) : Stage
  /-- It has crashed, or exited. -/
  | exited : Stage
  deriving DecidableEq, Repr

namespace Stage

/-- The daemon has bound the path, and has not removed it. -/
def Holds (p : Stage) : Prop := p = bound ∨ p = running ∨ p = stopping

/-- The daemon has bound the path, and still runs. -/
def Alive (p : Stage) : Prop := p.Holds ∨ p = stopped

/-- Its socket accepts connections. -/
def Listens (p : Stage) : Prop := p = running ∨ p = stopping ∨ p = stopped

instance (p : Stage) : Decidable p.Alive := by unfold Alive Holds; infer_instance

instance (p : Stage) : Decidable p.Listens := by unfold Listens; infer_instance

end Stage

/-- The daemons that have been started, and whose socket the path names. -/
structure Instances where
  path : Option ℕ
  pcs : List Stage
  deriving DecidableEq, Repr

/-- A step of one daemon; `ok` says whether the system call meets no error of its own. -/
inductive PathOp where
  | bind (ok : Bool) : PathOp
  /-- The error of its own, if any: a missing permission counts as `ListenerError.inUse`. -/
  | connect (err : Option ListenerError) : PathOp
  | remove (ok : Bool) : PathOp
  | listen : PathOp
  /-- `SIGINT` or `SIGTERM`, once the handler is installed. -/
  | signal : PathOp
  /-- The handler removes the path. -/
  | unlink (ok : Bool) : PathOp
  /-- The process ends, by whatever cause. -/
  | exit : PathOp
  deriving DecidableEq, Repr

/-- What can happen next. -/
inductive PathStep where
  | start : PathStep
  | op (i : ℕ) (l : PathOp) : PathStep
  deriving DecidableEq, Repr

namespace Instances

/-- Nobody has been started. -/
def new : Instances := ⟨none, []⟩

/-- Where the step of daemon `i` leads it, and what the path names then. -/
def next (s : Instances) (i : ℕ) (p : Stage) (l : PathOp) : Option (Stage × Option ℕ) :=
  match l, p with
  | .bind ok, .starting =>
    if ok = false then some (.failed .bind, s.path)
    else if s.path = none then some (.bound, some i)
    else some (.probing, s.path)
  | .connect (some err), .probing => some (.failed err, s.path)
  | .connect none, .probing =>
    if ∃ j ∈ s.path, ∃ q ∈ s.pcs[j]?, q.Listens then some (.failed .inUse, s.path)
    else some (.removing, s.path)
  | .remove ok, .removing => some (.rebinding, if ok then none else s.path)
  | .bind ok, .rebinding =>
    if ok ∧ s.path = none then some (.bound, some i) else some (.failed .bind, s.path)
  | .listen, .bound => some (.running, s.path)
  | .signal, .running => some (.stopping, s.path)
  | .unlink ok, .stopping => some (.stopped, if ok then none else s.path)
  | .exit, p => if p = .exited then none else some (.exited, s.path)
  | _, _ => none

/-- One step of a daemon. -/
def step (s : Instances) : PathStep → Option Instances
  | .start => some { s with pcs := s.pcs ++ [.starting] }
  | .op i l => s.pcs[i]?.bind fun p => (s.next i p l).map fun r => ⟨r.2, s.pcs.set i r.1⟩

/-- The step removes the path, which names the socket of another daemon that still runs. -/
def Clobbers (s : Instances) (l : PathStep) : Prop :=
  ∃ i j q, (l = .op i (.remove true) ∨ l = .op i (.unlink true)) ∧ s.path = some j ∧ j ≠ i ∧
    s.pcs[j]? = some q ∧ q.Alive

/-- No step that can be taken next removes the path of another daemon. -/
def Safe (s : Instances) : Prop := ∀ l, (s.step l).isSome → ¬ s.Clobbers l

/-- The steps that keep the daemons apart: nobody binds the path while somebody is about to
remove it, and nobody probes a socket that does not listen yet. -/
def Apart (s : Instances) : PathStep → Prop
  | .op _ (.bind true) => s.path = none → .removing ∉ s.pcs
  | .op _ (.connect none) => ∀ j ∈ s.path, s.pcs[j]? ≠ some .bound
  | _ => True

instance (s : Instances) (l : PathStep) : Decidable (s.Apart l) := by
  unfold Apart
  split <;> infer_instance

variable {s s' : Instances} {i : ℕ} {l : PathOp}

/-- **What a step of a daemon can do** to its place and to the path. -/
theorem next_cases {p p' : Stage} {path : Option ℕ} (h : s.next i p l = some (p', path)) :
    (l = .bind true ∧ s.path = none ∧ p ≠ .removing ∧ p' = .bound ∧ path = some i) ∨
    (l = .connect none ∧ p = .probing ∧ p' = .removing ∧ path = s.path ∧
      ∀ j ∈ s.path, ∀ q ∈ s.pcs[j]?, ¬ q.Listens) ∨
    (l = .remove true ∧ p = .removing ∧ p' = .rebinding ∧ path = none) ∨
    (l = .unlink true ∧ p = .stopping ∧ p' = .stopped ∧ path = none) ∨
    (path = s.path ∧ p' ≠ .removing ∧ (p'.Alive → p.Alive) ∧ (p'.Holds → p.Holds) ∧
      s.Apart (.op i l) ∧ l ≠ .remove true ∧ l ≠ .unlink true) := by
  unfold next at h
  split at h
  case h_1 ok =>
    cases ok with
    | false =>
      obtain ⟨rfl, rfl⟩ := Prod.mk.inj (Option.some.inj h)
      simp [Stage.Alive, Stage.Holds, Apart]
    | true =>
      by_cases hpath : s.path = none
      · obtain ⟨rfl, rfl⟩ : .bound = p' ∧ some i = path := by simpa [hpath] using h
        exact Or.inl ⟨rfl, hpath, nofun, rfl, rfl⟩
      · obtain ⟨rfl, rfl⟩ : .probing = p' ∧ s.path = path := by simpa [hpath] using h
        simp [Stage.Alive, Stage.Holds, Apart, hpath]
  case h_2 err =>
    obtain ⟨rfl, rfl⟩ := Prod.mk.inj (Option.some.inj h)
    simp [Stage.Alive, Stage.Holds, Apart]
  case h_3 =>
    split at h
    case isTrue hlistens =>
      obtain ⟨rfl, rfl⟩ := Prod.mk.inj (Option.some.inj h)
      obtain ⟨j, hj, q, hq, hlistens⟩ := hlistens
      refine Or.inr (Or.inr (Or.inr (Or.inr ⟨rfl, nofun, by simp [Stage.Alive, Stage.Holds],
        by simp [Stage.Holds], ?_, nofun, nofun⟩)))
      intro k hk hbound
      obtain rfl := Option.some.inj (hj.symm.trans hk)
      obtain rfl := Option.some.inj (hq.symm.trans hbound)
      simp [Stage.Listens] at hlistens
    case isFalse hrefused =>
      obtain ⟨rfl, rfl⟩ := Prod.mk.inj (Option.some.inj h)
      refine Or.inr (Or.inl ⟨rfl, rfl, rfl, rfl, fun j hj q hq hlistens => ?_⟩)
      exact hrefused ⟨j, hj, q, hq, hlistens⟩
  case h_4 ok =>
    obtain ⟨rfl, rfl⟩ := Prod.mk.inj (Option.some.inj h)
    cases ok with
    | false => simp [Stage.Alive, Stage.Holds, Apart]
    | true => exact Or.inr (Or.inr (Or.inl ⟨rfl, rfl, rfl, rfl⟩))
  case h_5 ok =>
    split at h
    case isTrue hok =>
      obtain ⟨rfl, rfl⟩ := Prod.mk.inj (Option.some.inj h)
      obtain ⟨rfl, hpath⟩ := hok
      exact Or.inl ⟨rfl, hpath, nofun, rfl, rfl⟩
    case isFalse hok =>
      obtain ⟨rfl, rfl⟩ := Prod.mk.inj (Option.some.inj h)
      refine Or.inr (Or.inr (Or.inr (Or.inr ⟨rfl, nofun, by simp [Stage.Alive, Stage.Holds],
        by simp [Stage.Holds], ?_, nofun, nofun⟩)))
      cases ok with
      | false => trivial
      | true => exact fun hpath => absurd ⟨rfl, hpath⟩ hok
  case h_8 ok =>
    obtain ⟨rfl, rfl⟩ := Prod.mk.inj (Option.some.inj h)
    cases ok with
    | false => simp [Stage.Alive, Stage.Holds, Apart]
    | true => exact Or.inr (Or.inr (Or.inr (Or.inl ⟨rfl, rfl, rfl, rfl⟩)))
  case h_9 =>
    split at h
    case isTrue => cases h
    case isFalse =>
      obtain ⟨rfl, rfl⟩ := Prod.mk.inj (Option.some.inj h)
      simp [Stage.Alive, Stage.Holds, Apart]
  case h_10 => cases h
  all_goals
    obtain ⟨rfl, rfl⟩ := Prod.mk.inj (Option.some.inj h)
    simp [Stage.Alive, Stage.Holds, Apart]

/-- A step of one daemon changes its place, and perhaps the path. -/
theorem exists_next (h : s.step (.op i l) = some s') :
    ∃ p p' path, s.pcs[i]? = some p ∧ s.next i p l = some (p', path) ∧
      s' = ⟨path, s.pcs.set i p'⟩ := by
  obtain ⟨p, hp, ⟨p', path⟩, hnext, rfl⟩ : ∃ p, s.pcs[i]? = some p ∧ ∃ r,
      s.next i p l = some r ∧ (⟨r.2, s.pcs.set i r.1⟩ : Instances) = s' := by
    simpa only [step, Option.bind_eq_some_iff, Option.map_eq_some_iff] using h
  exact ⟨p, p', path, hp, hnext, rfl⟩

/-- A daemon that holds the path is what it names. -/
def Owned (s : Instances) : Prop := ∀ i p, s.pcs[i]? = some p → p.Holds → s.path = some i

/-- **What makes a state safe**: nobody is about to remove the path of a live daemon. -/
theorem safe_iff (hown : s.Owned) :
    s.Safe ↔ ∀ j q, s.path = some j → s.pcs[j]? = some q → q.Alive → .removing ∉ s.pcs := by
  constructor
  · intro hsafe j q hj hq halive hmem
    obtain ⟨i, hi⟩ := List.mem_iff_getElem?.mp hmem
    refine hsafe (.op i (.remove true)) ?_ ⟨i, j, q, Or.inl rfl, hj, ?_, hq, halive⟩
    · simp [step, next, hi]
    · rintro rfl
      obtain rfl := Option.some.inj (hi.symm.trans hq)
      simp [Stage.Alive, Stage.Holds] at halive
  · rintro h l hl ⟨i, j, q, rfl | rfl, hj, hne, hq, halive⟩
    · obtain ⟨s', hs'⟩ := Option.isSome_iff_exists.mp hl
      obtain ⟨p, p', path, hp, hnext, -⟩ := exists_next hs'
      rcases next_cases hnext with ⟨hl, -⟩ | ⟨hl, -⟩ | ⟨-, rfl, -⟩ | ⟨hl, -⟩ |
        ⟨-, -, -, -, -, hl, -⟩
      · cases hl
      · cases hl
      · exact h j q hj hq halive (List.mem_of_getElem? hp)
      · cases hl
      · exact hl rfl
    · obtain ⟨s', hs'⟩ := Option.isSome_iff_exists.mp hl
      obtain ⟨p, p', path, hp, hnext, -⟩ := exists_next hs'
      rcases next_cases hnext with ⟨hl, -⟩ | ⟨hl, -⟩ | ⟨hl, -⟩ | ⟨-, rfl, -⟩ |
        ⟨-, -, -, -, -, -, hl⟩
      · cases hl
      · cases hl
      · cases hl
      · have hi := hown i _ hp (Or.inr (Or.inr rfl))
        exact hne (Option.some.inj (hj.symm.trans hi))
      · exact hl rfl

/-- **In a safe state, a step takes the path of no daemon that holds it.** -/
theorem owned_step (hown : s.Owned) (hsafe : s.Safe) {l : PathStep} (h : s.step l = some s') :
    s'.Owned := by
  have hremoving := (safe_iff hown).mp hsafe
  cases l with
  | start =>
    obtain rfl : { s with pcs := s.pcs ++ [.starting] } = s' := Option.some.inj h
    intro i p hp hholds
    rcases getElem?_concat_eq_some hp with hp | rfl
    · exact hown i p hp hholds
    · simp [Stage.Holds] at hholds
  | op i l =>
    obtain ⟨p, p', path, hp, hnext, rfl⟩ := exists_next h
    intro k q hq hholds
    rw [getElem?_set_of_some hp] at hq
    by_cases hk : k = i
    · -- The daemon itself.
      obtain rfl : p' = q := by simpa [hk] using hq
      rcases next_cases hnext with ⟨-, -, -, -, rfl⟩ | ⟨-, -, rfl, -⟩ | ⟨-, -, rfl, -⟩ |
        ⟨-, -, rfl, -⟩ | ⟨rfl, -, -, hholds', -⟩
      · exact congrArg some hk.symm
      · simp [Stage.Holds] at hholds
      · simp [Stage.Holds] at hholds
      · simp [Stage.Holds] at hholds
      · rw [hk]
        exact hown i p hp (hholds' hholds)
    · -- Another daemon, which holds the path: nobody binds or removes it.
      rw [if_neg hk] at hq
      have hpath : s.path = some k := hown k q hq hholds
      rcases next_cases hnext with ⟨-, hnone, -⟩ | ⟨-, -, -, rfl, -⟩ | ⟨-, rfl, -⟩ |
        ⟨-, rfl, -⟩ | ⟨rfl, -⟩
      · rw [hpath] at hnone
        cases hnone
      · exact hpath
      · exact absurd (List.mem_of_getElem? hp) (hremoving k q hpath hq (Or.inl hholds))
      · have hi : s.path = some i := hown i _ hp (Or.inr (Or.inr rfl))
        exact absurd (Option.some.inj (hpath.symm.trans hi)) hk
      · exact hpath

/-- **A step leads to a safe state exactly when it keeps the daemons apart.** -/
theorem safe_step_iff (hown : s.Owned) (hsafe : s.Safe) {l : PathStep} (h : s.step l = some s') :
    s'.Safe ↔ s.Apart l := by
  rw [safe_iff (owned_step hown hsafe h)]
  have hremoving := (safe_iff hown).mp hsafe
  cases l with
  | start =>
    obtain rfl : { s with pcs := s.pcs ++ [.starting] } = s' := Option.some.inj h
    refine iff_of_true (fun j q hj hq halive => ?_) trivial
    rcases getElem?_concat_eq_some hq with hq | rfl
    · simpa using hremoving j q hj hq halive
    · simp [Stage.Alive, Stage.Holds] at halive
  | op i l =>
    obtain ⟨p, p', path, hp, hnext, rfl⟩ := exists_next h
    simp only [getElem?_set_of_some hp]
    rcases next_cases hnext with ⟨rfl, hnone, hp', rfl, rfl⟩ | ⟨rfl, rfl, rfl, rfl, hlistens⟩ |
      ⟨rfl, -, -, rfl⟩ | ⟨rfl, -, -, rfl⟩ | ⟨rfl, hp', halive', -, hapart, -⟩
    · -- The path now names a live daemon.
      constructor
      · intro hall _ hmem
        obtain ⟨k, hk⟩ := List.mem_iff_getElem?.mp hmem
        refine hall i .bound rfl (if_pos rfl) (Or.inl (Or.inl rfl)) ?_
        refine List.mem_of_getElem? (i := k) ?_
        have hki : k ≠ i := by
          rintro rfl
          exact hp' (Option.some.inj (hp.symm.trans hk))
        rw [getElem?_set_of_some hp, if_neg hki, hk]
      · intro hapart j q _ _ _ hmem
        rcases List.mem_or_eq_of_mem_set hmem with hmem | heq
        · exact hapart hnone hmem
        · cases heq
    · -- The daemon is now about to remove the path.
      have hmem : .removing ∈ s.pcs.set i .removing := by
        refine List.mem_of_getElem? (i := i) ?_
        rw [getElem?_set_of_some hp, if_pos rfl]
      constructor
      · intro hall j hj hbound
        have hji : j ≠ i := by
          rintro rfl
          cases Option.some.inj (hp.symm.trans hbound)
        exact hall j .bound hj (by rw [if_neg hji, hbound]) (Or.inl (Or.inl rfl)) hmem
      · intro hapart j q hj hq halive _
        by_cases hji : j = i
        · obtain rfl : .removing = q := by simpa [hji] using hq
          simp [Stage.Alive, Stage.Holds] at halive
        · rw [if_neg hji] at hq
          rcases halive with (rfl | rfl | rfl) | rfl
          · exact hapart j hj hq
          · exact hlistens j hj _ hq (Or.inl rfl)
          · exact hlistens j hj _ hq (Or.inr (Or.inl rfl))
          · exact hlistens j hj _ hq (Or.inr (Or.inr rfl))
    · exact iff_of_true nofun trivial
    · exact iff_of_true nofun trivial
    · -- The other steps lead nobody to a removal, and keep the path.
      refine iff_of_true (fun j q hj hq halive hmem => ?_) hapart
      have hmem' : .removing ∈ s.pcs := by
        rcases List.mem_or_eq_of_mem_set hmem with hmem | heq
        · exact hmem
        · exact absurd heq.symm hp'
      by_cases hji : j = i
      · obtain rfl : p' = q := by simpa [hji] using hq
        exact hremoving i p (hji ▸ hj) hp (halive' halive) hmem'
      · rw [if_neg hji] at hq
        exact hremoving j q hj hq halive hmem'

end Instances

/-- **When no daemon clobbers another one**: the runs all of whose states are safe are those
where no daemon binds the path while another is about to remove it, and none probes a socket that
does not listen yet. In these, no step removes the path of another daemon that still runs. -/
theorem clobber_free_iff {ls : List PathStep} {s : Instances}
    (h : exec Instances.step .new ls = some s) :
    ((∀ ls' u, ls' <+: ls → exec Instances.step .new ls' = some u → u.Safe) ↔
      Meets Instances.step Instances.Apart .new ls) ∧
    (Meets Instances.step Instances.Apart .new ls →
      Meets Instances.step (fun s l => (s.step l).isSome → ¬ s.Clobbers l) .new ls) := by
  have hown : Instances.new.Owned := by simp [Instances.Owned, Instances.new]
  have hsafe : Instances.new.Safe := by
    rw [Instances.safe_iff hown]
    simp [Instances.new]
  refine ⟨exec_always_iff_meets (I := Instances.Owned)
    (fun _ _ _ hown hsafe => Instances.owned_step hown hsafe)
    (fun _ _ _ hown hsafe => Instances.safe_step_iff hown hsafe) hown hsafe h, fun hm => ?_⟩
  refine meets_of_invariant (D := Instances.Apart) (I := fun s => s.Owned ∧ s.Safe)
    (fun u l u' hapart hu hstep => ?_) (fun u l hu => hu.2 l) hm ⟨hown, hsafe⟩
  exact ⟨Instances.owned_step hu.1 hu.2 hstep,
    (Instances.safe_step_iff hu.1 hu.2 hstep).mpr hapart⟩

/-- A daemon crashes, and its successor reclaims the path and is stopped later on. -/
def reclaimingRun : List PathStep :=
  [.start, .op 0 (.bind true), .op 0 .listen, .op 0 .exit,
    .start, .op 1 (.bind true), .op 1 (.connect none), .op 1 (.remove true), .op 1 (.bind true),
    .op 1 .listen, .op 1 .signal, .op 1 (.unlink true), .op 1 .exit]

theorem clobber_free_reclaiming :
    Meets Instances.step (fun s l => (s.step l).isSome → ¬ s.Clobbers l) .new reclaimingRun := by
  obtain ⟨s, hs, -⟩ := exists_exec_of_any Instances.step .new reclaimingRun
    (fun _ => true) (by decide +kernel)
  exact (clobber_free_iff hs).2 (by decide +kernel)

/-- After a crash, two daemons are started at once, and both find that nobody listens; the first
one is up before the second one goes on. -/
def racingRun : List PathStep :=
  [.start, .op 0 (.bind true), .op 0 .listen, .op 0 .exit,
    .start, .op 1 (.bind true), .op 1 (.connect none),
    .start, .op 2 (.bind true), .op 2 (.connect none),
    .op 1 (.remove true), .op 1 (.bind true), .op 1 .listen]

/-- **A live daemon is clobbered**: the second one can now remove the path of the first one. -/
theorem racing_clobbers :
    ∃ s, exec Instances.step .new racingRun = some s ∧
      (s.step (.op 2 (.remove true))).isSome ∧ s.Clobbers (.op 2 (.remove true)) := by
  obtain ⟨s, hs, hp⟩ := exists_exec_of_any Instances.step .new racingRun
    (fun s => s.path = some 1 ∧ s.pcs[1]? = some .running ∧ (s.step (.op 2 (.remove true))).isSome)
    (by decide +kernel)
  obtain ⟨hpath, hrunning, hstep⟩ := of_decide_eq_true hp
  exact ⟨s, hs, hstep, 2, 1, .running, Or.inl rfl, hpath, by decide, hrunning, by decide⟩

end Procnet
