import Procnet.Daemon.Delivery

/-!
# The end of a connection

The socket of a streaming client has two owners in the daemon: the thread that writes to it, and
the thread that reads commands from it, with a clone of the stream. Each ends on its own. When a
write fails, or the write timeout cannot be set, the writing thread drops its descriptor; the other
one stays in `read` as long as the client keeps its end open. So the socket stays open, with
nobody left who would write to it, and a client that is only suspended for a while waits for ever
once it goes on (`waits_forever`).

`hangup_iff` says which runs have no such client: those where a thread that ends leaves no clone
behind, unless the client has closed its end already.
-/

namespace Procnet

open Lib

namespace Connection

/-- The client reads what is left on its connection, finds the end of the stream, and reports
`DaemonHangup`. -/
def ReportsHangup (c : Connection) : Prop :=
  ∃ c', exec step c [.clientRead (c.wire.length - c.taken), .clientEof] = some c' ∧
    c'.client = .hungUp

/-- **No zombie**: when the thread that serves a client has ended and the client holds its end
open, the daemon keeps no descriptor of the socket, so that the client gets to know. -/
def NoZombie (c : Connection) : Prop :=
  c.writer = .ended → c.client = .reading → c.descriptors = 0 ∧ c.ReportsHangup

/-- The client has read no more than there is. -/
def ReadsWire (c : Connection) : Prop := c.taken ≤ c.wire.length

variable {c c' : Connection}

theorem descriptors_eq_zero_iff : c.descriptors = 0 ↔ c.writer = .ended ∧ c.clone = false := by
  by_cases hw : c.writer = .ended <;> cases hclone : c.clone <;> simp [descriptors, hw, hclone]

/-- A client of a socket that nobody else holds gets to know. -/
theorem reportsHangup_of_descriptors (h : c.descriptors = 0) (hclient : c.client = .reading)
    (hreads : c.ReadsWire) : c.ReportsHangup := by
  have hall : c.taken + (c.wire.length - c.taken) = c.wire.length := Nat.add_sub_of_le hreads
  refine ⟨{ c with taken := c.wire.length, client := .hungUp }, ?_, rfl⟩
  have hread : c.step (.clientRead (c.wire.length - c.taken)) =
      some { c with taken := c.wire.length } := by
    simp [step, hclient, hall]
  have heof : ({ c with taken := c.wire.length } : Connection).step .clientEof =
      some { c with taken := c.wire.length, client := .hungUp } := by
    have hd : ({ c with taken := c.wire.length, client := .reading } : Connection).descriptors =
        0 := h
    simp [step, hclient, hd]
  rw [exec_cons, hread, Option.bind_some, exec_cons, heof]
  rfl

/-- What matters is the clone. -/
theorem noZombie_iff (hreads : c.ReadsWire) :
    c.NoZombie ↔ (c.writer = .ended → c.client = .reading → c.clone = false) := by
  constructor
  · intro h hw hclient
    exact (descriptors_eq_zero_iff.mp (h hw hclient).1).2
  · intro h hw hclient
    have hd : c.descriptors = 0 := descriptors_eq_zero_iff.mpr ⟨hw, h hw hclient⟩
    exact ⟨hd, reportsHangup_of_descriptors hd hclient hreads⟩

/-- **The ends of a connection only close**, and only `dropStream` ends the thread. -/
theorem step_ends {l : ConnStep} (h : c.step l = some c') :
    (c'.writer = .ended → c.writer = .ended ∨ l = .dropStream) ∧
      (c'.clone → c.clone) ∧ (c'.client = .reading → c.client = .reading) ∧
      (c.ReadsWire → c'.ReadsWire) := by
  have hsending : ∀ rest, Writer.sending rest ≠ .ended := by
    intro rest hrest
    have hserves := Writer.serves_sending rest
    rw [hrest] at hserves
    exact hserves.not_starting_not_left.2 (Or.inr (Or.inr rfl))
  unfold step at h
  split at h
  case h_5 hw =>
    cases hq : c.queue with
    | nil => simp [hq] at h
    | cons data queue =>
      rw [hq] at h
      obtain rfl := Option.some.inj h
      exact ⟨fun hend => absurd hend (hsending data), id, id, id⟩
  case h_6 n rest hw =>
    obtain ⟨-, rfl⟩ : _ ∧ _ = c' := by
      simpa only [Option.ite_none_right_eq_some, Option.some.injEq] using h
    refine ⟨fun hend => absurd hend (hsending _), id, id, fun hreads => ?_⟩
    exact Nat.le_trans hreads (by simp)
  case h_9 hw =>
    obtain rfl := Option.some.inj h
    exact ⟨fun _ => Or.inr rfl, id, id, id⟩
  case h_10 =>
    obtain ⟨-, rfl⟩ : _ ∧ _ = c' := by
      simpa only [Option.ite_none_right_eq_some, Option.some.injEq] using h
    exact ⟨Or.inl, nofun, id, id⟩
  case h_11 n =>
    obtain ⟨hn, rfl⟩ : _ ∧ _ = c' := by
      simpa only [Option.ite_none_right_eq_some, Option.some.injEq] using h
    exact ⟨Or.inl, id, id, fun _ => hn.2⟩
  case h_12 =>
    obtain ⟨-, rfl⟩ : _ ∧ _ = c' := by
      simpa only [Option.ite_none_right_eq_some, Option.some.injEq] using h
    exact ⟨Or.inl, id, nofun, id⟩
  case h_13 =>
    obtain ⟨-, rfl⟩ : _ ∧ _ = c' := by
      simpa only [Option.ite_none_right_eq_some, Option.some.injEq] using h
    exact ⟨Or.inl, id, nofun, id⟩
  case h_14 => cases h
  all_goals
    obtain rfl := Option.some.inj h
    exact ⟨nofun, by simp, id, id⟩

theorem step_dropStream (h : c.step .dropStream = some c') : c' = { c with writer := .ended } := by
  cases hw : c.writer with
  | closing => simpa [step, hw] using h.symm
  | _ => simp [step, hw] at h

/-- Neither the ends of the connection nor what has gone over it change. -/
structure SameEnds (c c' : Connection) : Prop where
  writer : c'.writer = .ended ↔ c.writer = .ended
  clone : c'.clone = c.clone
  client : c'.client = c.client
  taken : c'.taken = c.taken
  wire : c'.wire = c.wire

end Connection

/-! ### All connections -/

/-- **Where a connection comes from**: it is new, or has taken a step on its own, or a step of
the daemon has left its ends as they are. -/
theorem View.step_ends {v v' : View} {l : ViewStep} (h : v.step l = some v') {c' : Connection}
    (hc' : v'.conn = some c') :
    (v.conn = none ∧ c' = .new) ∨ ∃ c, v.conn = some c ∧
      ((∃ m, l = .conn m ∧ c.step m = some c') ∨ (∀ m, l ≠ .conn m) ∧ c.SameEnds c') := by
  rcases step_cases h with ⟨-, hconn, rfl⟩ | ⟨m, c, c₁, rfl, hc, hm, rfl⟩ | ⟨c, hl, hc, rfl⟩ |
    ⟨c, rfl, hc, hw, -, rfl⟩ | ⟨bytes, rfl, -, rfl⟩ | ⟨c, bytes, todo, rfl, hc, -, hv⟩ |
    ⟨bytes, rfl, -, rfl⟩
  · exact Or.inl ⟨hconn, (Option.some.inj hc').symm⟩
  · obtain rfl := Option.some.inj hc'
    exact Or.inr ⟨c, hc, Or.inl ⟨m, rfl, hm⟩⟩
  · -- The thread leaves the loop, or never gets there.
    obtain rfl := Option.some.inj hc'
    have hne : ∀ m, l ≠ .conn m := by
      rcases hl with ⟨rfl, -⟩ | ⟨rfl, -⟩ <;> exact nofun
    have hw : c.writer ≠ .ended := by
      rcases hl with ⟨-, hw⟩ | ⟨-, hw⟩ <;> simp [hw]
    exact Or.inr ⟨c, hc, Or.inr ⟨hne, ⟨nofun, fun hended => absurd hended hw⟩, rfl, rfl, rfl, rfl⟩⟩
  · obtain rfl := Option.some.inj hc'
    exact Or.inr ⟨c, hc, Or.inr ⟨nofun, by simp [hw], rfl, rfl, rfl, rfl⟩⟩
  · exact Or.inr ⟨c', hc', Or.inr ⟨nofun, Iff.rfl, rfl, rfl, rfl, rfl⟩⟩
  · refine Or.inr ⟨c, hc, Or.inr ⟨nofun, ?_⟩⟩
    rcases hv with ⟨-, rfl⟩ | ⟨-, rfl⟩
    · obtain rfl := Option.some.inj (hc.symm.trans hc')
      exact ⟨Iff.rfl, rfl, rfl, rfl, rfl⟩
    · obtain ⟨queue, hsend⟩ := c.trySend_frame bytes
      obtain rfl := hsend.symm.trans (Option.some.inj hc')
      exact ⟨Iff.rfl, rfl, rfl, rfl, rfl⟩
  · exact Or.inr ⟨c', hc', Or.inr ⟨nofun, Iff.rfl, rfl, rfl, rfl, rfl⟩⟩

namespace Fanout

variable {s s' : Fanout} {l : FanoutStep}

/-- The same for the steps of the daemon. -/
theorem step_ends (h : s.step l = some s') {i : ℕ} {c' : Connection}
    (hc' : s'.conns[i]? = some c') :
    (s.conns[i]? = none ∧ c' = .new) ∨ ∃ c, s.conns[i]? = some c ∧
      ((∃ m, l = .conn i m ∧ c.step m = some c') ∨ (∀ m, l ≠ .conn i m) ∧ c.SameEnds c') := by
  have hview := step_view i h
  cases hl : l.seenBy i with
  | none =>
    have hsame : s.view i = s'.view i := by simpa [hl] using hview
    refine Or.inr ⟨c', ?_, Or.inr ⟨?_, Iff.rfl, rfl, rfl, rfl, rfl⟩⟩
    · rw [← view_conn, hsame]
      exact hc'
    · rintro m rfl
      simp [FanoutStep.seenBy] at hl
  | some vl =>
    obtain ⟨v', hv', heq⟩ := exec_cons_eq_some.mp (hl ▸ hview)
    obtain rfl : v' = s'.view i := by simpa using heq
    refine (View.step_ends hv' hc').imp_right ?_
    rintro ⟨c, hc, hstep⟩
    refine ⟨c, hc, hstep.imp ?_ ?_⟩
    · rintro ⟨m, rfl, hm⟩
      refine ⟨m, ?_, hm⟩
      -- Only the step of the connection itself is seen as one.
      cases l with
      | conn j m' =>
        by_cases hj : j = i
        · subst hj
          simpa [FanoutStep.seenBy] using hl
        · simp [FanoutStep.seenBy, hj] at hl
      | broadcast _ => cases hl
      | finish => cases hl
      | accept j => by_cases hj : j = i <;> simp [FanoutStep.seenBy, hj] at hl
      | join j _ => by_cases hj : j = i <;> simp [FanoutStep.seenBy, hj] at hl
      | starve j => by_cases hj : j = i <;> simp [FanoutStep.seenBy, hj] at hl
      | offer j => by_cases hj : j = i <;> simp [FanoutStep.seenBy, hj] at hl
    · rintro ⟨hne, hends⟩
      refine ⟨?_, hends⟩
      rintro m rfl
      exact hne m (by simpa [FanoutStep.seenBy] using hl.symm)

/-- No client of the daemon is a zombie. -/
def NoZombies (s : Fanout) : Prop :=
  ∀ (i : ℕ) (c : Connection), s.conns[i]? = some c → c.NoZombie

/-- A thread that ends leaves no clone behind, unless the client has closed its end. -/
def DropsBoth (s : Fanout) : FanoutStep → Prop
  | .conn i .dropStream => ∀ c ∈ s.conns[i]?, c.client = .reading → c.clone = false
  | _ => True

instance (s : Fanout) (l : FanoutStep) : Decidable (s.DropsBoth l) := by
  unfold DropsBoth
  split <;> infer_instance

/-- The clients have read no more than there is. -/
def ReadsWire (s : Fanout) : Prop :=
  ∀ (i : ℕ) (c : Connection), s.conns[i]? = some c → c.ReadsWire

theorem readsWire_step (hI : s.ReadsWire) (h : s.step l = some s') : s'.ReadsWire := by
  intro i c' hc'
  rcases step_ends h hc' with ⟨-, rfl⟩ | ⟨c, hc, ⟨m, -, hm⟩ | ⟨-, hends⟩⟩
  · exact Nat.le_refl _
  · exact (Connection.step_ends hm).2.2.2 (hI i c hc)
  · rw [Connection.ReadsWire, hends.taken, hends.wire]
    exact hI i c hc

/-- **A step leads to no zombie exactly when it drops both descriptors.** -/
theorem noZombies_step_iff (hI : s.ReadsWire) (hG : s.NoZombies) (h : s.step l = some s') :
    s'.NoZombies ↔ s.DropsBoth l := by
  have hI' := readsWire_step hI h
  constructor
  · intro hG'
    unfold DropsBoth
    split
    case h_1 i =>
      intro c hc hclient
      rw [Option.mem_def] at hc
      obtain ⟨c', hc', rfl⟩ : ∃ c', c.step .dropStream = some c' ∧
          { s with conns := s.conns.set i c' } = s' := by
        simpa [step, hc] using h
      obtain rfl := Connection.step_dropStream hc'
      have hget : (s.conns.set i { c with writer := .ended })[i]? =
          some { c with writer := .ended } := by
        simp [List.getElem?_set_self', hc]
      exact (Connection.noZombie_iff (hI' i _ hget)).mp (hG' i _ hget) rfl hclient
    case h_2 => trivial
  · intro hdrops i c' hc'
    rw [Connection.noZombie_iff (hI' i c' hc')]
    intro hw hclient
    rcases step_ends h hc' with ⟨-, rfl⟩ | ⟨c, hc, ⟨m, rfl, hm⟩ | ⟨-, hends⟩⟩
    · cases hw
    · obtain ⟨hw', hclone, hclient', -⟩ := Connection.step_ends hm
      have hfalse : c.clone = false := by
        rcases hw' hw with hended | rfl
        · exact (Connection.noZombie_iff (hI i c hc)).mp (hG i c hc) hended (hclient' hclient)
        · exact hdrops c hc (hclient' hclient)
      by_contra hclone'
      rw [hclone (Bool.of_not_eq_false hclone')] at hfalse
      cases hfalse
    · rw [hends.clone]
      exact (Connection.noZombie_iff (hI i c hc)).mp (hG i c hc) (hends.writer.mp hw)
        (hends.client ▸ hclient)

end Fanout

/-- **When there are no zombies**: in exactly the runs where every thread that ends finds the
clone of its stream dropped, or the client's end closed. -/
theorem hangup_iff {ls : List FanoutStep} {s : Fanout} (h : exec Fanout.step .new ls = some s) :
    (∀ ls' u, ls' <+: ls → exec Fanout.step .new ls' = some u → u.NoZombies) ↔
      Meets Fanout.step Fanout.DropsBoth .new ls :=
  exec_always_iff_meets (I := Fanout.ReadsWire) (fun _ _ _ hI _ => Fanout.readsWire_step hI)
    (fun _ _ _ => Fanout.noZombies_step_iff) (by simp [Fanout.ReadsWire, Fanout.new])
    (by simp [Fanout.NoZombies, Fanout.new]) h

/-- A client that quits: the thread that reads its commands finds the end of the stream, and the
next write fails. -/
def quittingRun : List FanoutStep :=
  [.accept 0, .conn 0 (.command true), .conn 0 (.arm true), .join 0 true,
    .conn 0 .clientClose, .conn 0 (.readerExit true),
    .broadcast [2, 0, 7, 7], .offer 0, .finish,
    .conn 0 .recv, .conn 0 .fail, .conn 0 .dropReceiver, .conn 0 .dropStream]

theorem hangup_iff_quitting :
    ∃ s, exec Fanout.step .new quittingRun = some s ∧
      ∀ ls' u, ls' <+: quittingRun → exec Fanout.step .new ls' = some u → u.NoZombies := by
  obtain ⟨s, hs, -⟩ := exists_exec_of_any Fanout.step .new quittingRun
    (fun _ => true) (by decide +kernel)
  exact ⟨s, hs, (hangup_iff hs).mpr (by decide +kernel)⟩

/-- A client is suspended, and the write of a frame to it times out. -/
def suspendedRun : List FanoutStep :=
  [.accept 0, .conn 0 (.command true), .conn 0 (.arm true), .join 0 true,
    .broadcast [2, 0, 7, 7], .offer 0, .finish,
    .conn 0 .recv, .conn 0 .fail, .conn 0 .dropReceiver, .conn 0 .dropStream]

/-- **A zombie**: the thread that serves the client has ended, the client holds its end open, and
so does the daemon. -/
theorem suspended_zombie :
    ∃ s c, exec Fanout.step .new suspendedRun = some s ∧ s.conns[0]? = some c ∧
      c.writer = .ended ∧ c.client = .reading ∧ c.descriptors = 1 ∧ ¬ s.NoZombies := by
  obtain ⟨s, hs, hp⟩ := exists_exec_of_any Fanout.step .new suspendedRun
    (fun s => s.conns[0]?.any fun c => c.writer = .ended ∧ c.client = .reading ∧ c.descriptors = 1)
    (by decide +kernel)
  obtain ⟨c, hc, hend⟩ := (Option.any_eq_true _ _).mp hp
  obtain ⟨hw, hclient, hd⟩ := of_decide_eq_true hend
  refine ⟨s, c, hs, hc, hw, hclient, hd, fun hall => ?_⟩
  have hzero := (hall 0 c hc hw hclient).1
  rw [hd] at hzero
  cases hzero

/-! ### The zombie stays -/

/-- The thread that serves the client has ended, the other one holds its clone, and the client
has not found the end of the stream. -/
def Connection.Stuck (c : Connection) : Prop :=
  c.writer = .ended ∧ c.client ≠ .hungUp ∧ (c.client = .reading → c.clone)

theorem Connection.stuck_step {c c' : Connection} {l : ConnStep} (hs : c.Stuck)
    (hl : l ≠ .readerExit false) (h : c.step l = some c') : c'.Stuck := by
  obtain ⟨hw, hne, hclone⟩ := hs
  cases l with
  | readerExit eof =>
    obtain rfl : eof = true := by simpa using hl
    obtain ⟨⟨-, -, hn⟩, rfl⟩ : _ ∧ _ = c' := by
      simpa only [step, hw, Option.ite_none_right_eq_some, Option.some.injEq] using h
    exact ⟨rfl, hne, fun hclient => absurd hclient (hn trivial)⟩
  | clientRead n =>
    obtain ⟨-, rfl⟩ : _ ∧ _ = c' := by
      simpa only [step, hw, Option.ite_none_right_eq_some, Option.some.injEq] using h
    exact ⟨rfl, hne, hclone⟩
  | clientEof =>
    obtain ⟨⟨hclient, -, hd⟩, -⟩ : (_ ∧ _ ∧ c.descriptors = 0) ∧ _ = c' := by
      simpa only [step, hw, Option.ite_none_right_eq_some, Option.some.injEq] using h
    have hfalse := (descriptors_eq_zero_iff.mp hd).2
    rw [hclone hclient] at hfalse
    cases hfalse
  | clientClose =>
    obtain ⟨-, rfl⟩ : _ ∧ _ = c' := by
      simpa only [step, hw, Option.ite_none_right_eq_some, Option.some.injEq] using h
    exact ⟨rfl, nofun, nofun⟩
  | command run => cases run <;> simp [step, hw] at h
  | arm ok => cases ok <;> simp [step, hw] at h
  | recv => simp [step, hw] at h
  | write n => simp [step, hw] at h
  | fail => simp [step, hw] at h
  | dropReceiver => simp [step, hw] at h
  | dropStream => simp [step, hw] at h

theorem Fanout.stuck_step {s s' : Fanout} {l : FanoutStep} {i : ℕ}
    (hl : l ≠ .conn i (.readerExit false)) (hs : ∃ c, s.conns[i]? = some c ∧ c.Stuck)
    (h : s.step l = some s') : ∃ c, s'.conns[i]? = some c ∧ c.Stuck := by
  obtain ⟨c, hc, hstuck⟩ := hs
  have hview : (s.view i).conn = some c := hc
  obtain ⟨c', hc', -⟩ := View.exec_conn (step_view i h) hview
  refine ⟨c', hc', ?_⟩
  rcases step_ends h hc' with ⟨hnone, -⟩ | ⟨c₁, hc₁, ⟨m, rfl, hm⟩ | ⟨-, hends⟩⟩
  · rw [hc] at hnone
    cases hnone
  · obtain rfl := Option.some.inj (hc.symm.trans hc₁)
    exact Connection.stuck_step hstuck (fun hm' => hl (hm' ▸ rfl)) hm
  · obtain rfl := Option.some.inj (hc.symm.trans hc₁)
    obtain ⟨hw, hne, hclone⟩ := hstuck
    refine ⟨hends.writer.mpr hw, ?_, ?_⟩
    · rw [hends.client]
      exact hne
    · rw [hends.client, hends.clone]
      exact hclone

/-- **A zombie waits for ever**: as long as the thread that reads its commands meets no error,
the client does not find the end of the stream. -/
theorem waits_forever {s t : Fanout} {i : ℕ} {ls : List FanoutStep} {c : Connection}
    (h : exec Fanout.step s ls = some t) (hc : s.conns[i]? = some c) (hw : c.writer = .ended)
    (hclient : c.client = .reading) (hclone : c.clone)
    (hls : .conn i (.readerExit false) ∉ ls) :
    ∃ c', t.conns[i]? = some c' ∧ c'.client ≠ .hungUp := by
  have hstuck : c.Stuck := ⟨hw, by simp [hclient], fun _ => hclone⟩
  obtain ⟨c', hc', -, hne, -⟩ := exec_invariant_of_meets
    (fun _ _ _ hl hs hstep => Fanout.stuck_step hl hs hstep) (meets_ne_of_notMem hls s)
    ⟨c, hc, hstuck⟩ h
  exact ⟨c', hc', hne⟩

end Procnet
