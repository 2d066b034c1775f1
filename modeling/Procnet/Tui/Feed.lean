import Procnet.Tui.Client

/-!
# What a client shows

A run of the client is judged by what it has received, taken out of the channel, drawn and written
(`ClientObs`). The snapshots go through a thread, a channel and the loop, which drops those that
arrive while the feed is paused; `Fed` says where each of them is.

`client_shows_in_order` is the result: the client panics where its terminal cannot be set up, and
nowhere else; what it draws are snapshots of the stream, and later ones later; none is lost on the
way to the loop, and the hangup of the daemon is reported after the last of them.
-/

namespace Procnet

open Lib

/-- What happens in a step of the client. -/
inductive ClientObs where
  | received (snap : SnapshotData) : ClientObs
  /-- The main thread has taken a snapshot out of the channel. -/
  | taken (snap : SnapshotData) (paused : Bool) : ClientObs
  | drawn (snap : SnapshotData) : ClientObs
  | wrote (command : DaemonCommand) (bytes : List UInt8) : ClientObs
  deriving DecidableEq, Repr

namespace ClientObs

def received? : ClientObs → Option SnapshotData
  | received snap => some snap
  | taken .. | drawn _ | wrote .. => none

def taken? : ClientObs → Option SnapshotData
  | taken snap _ => some snap
  | received _ | drawn _ | wrote .. => none

/-- The snapshot is shown from now on. -/
def adopted? : ClientObs → Option SnapshotData
  | taken snap false => some snap
  | taken _ true | received _ | drawn _ | wrote .. => none

def drawn? : ClientObs → Option SnapshotData
  | drawn snap => some snap
  | received _ | taken .. | wrote .. => none

end ClientObs

section Histories

variable (hist : List ClientObs)

/-- The snapshots that have been received. -/
def receivedOf : List SnapshotData := hist.filterMap ClientObs.received?

/-- The snapshots that the main thread has taken out of the channel. -/
def takenOf : List SnapshotData := hist.filterMap ClientObs.taken?

/-- Those that it has not dropped. -/
def adoptedOf : List SnapshotData := hist.filterMap ClientObs.adopted?

/-- The snapshots that have been drawn, frame by frame. -/
def drawnOf : List SnapshotData := hist.filterMap ClientObs.drawn?

end Histories

/-- What is shown before the first snapshot. -/
def blank : SnapshotData := ⟨0, 0, [], []⟩

/-- The snapshot `k` of a stream, the first of which is number 1. -/
def nthShown (msgs : List SnapshotData) (k : ℕ) : SnapshotData := ((blank :: msgs)[k]?).getD blank

/-- What is shown at the end of a list of adopted snapshots. -/
def lastShown (adopted : List SnapshotData) : SnapshotData := adopted.getLast?.getD blank

namespace ClientProcess

/-- What happens in a step. -/
def obs (c : ClientProcess) : ClientStep → Option ClientObs
  | .connect _ | .clone _ | .tuiNew _ => none
  | .send accepted => some (.wrote c.firstCommand (sendDaemonCommand c.firstCommand accepted).1)
  | .receive =>
    match c.receiver with
    | .reading reader =>
      match readMsg SnapshotData.codec.decode reader with
      | .ok (snap, _) => if c.main.over then none else some (.received snap)
      | .error _ => none
    | .unspawned | .finished => none
  | .tryRecv => c.channel.head?.map fun snap => .taken snap c.state.paused
  | .draw height => height.map fun _ => .drawn c.snap
  | .event ev accepted =>
    (ev.bind TermEvent.pressed).bind fun key => (handleKey c.state key).bind fun handled =>
      handled.sent.map fun command => .wrote command (sendDaemonCommand command accepted).1

/-- What has happened in a run. -/
def history (command : Option Command) (ls : List ClientStep) : List ClientObs :=
  observe step obs (start command) ls

variable {c c' : ClientProcess} {l : ClientStep} {hist : List ClientObs}

/-- **Where the snapshots of a stream are.** -/
structure Fed (c : ClientProcess) (hist : List ClientObs) : Prop where
  /-- None is lost in the channel. -/
  queued : receivedOf hist = takenOf hist ++ c.channel
  /-- The thread has read them one after the other. -/
  read : ∃ reader, readMsgs SnapshotData.codec.decode (receivedOf hist).length (.new c.source) =
      .ok (receivedOf hist, reader) ∧
    (∀ r, c.receiver = .reading r → r = reader) ∧
    (c.receiver = .finished → c.main.over = false ∨ c.main = .returned (.error .daemonHangup) →
      ∃ err, readMsg SnapshotData.codec.decode reader = .error err)
  unspawned : c.receiver = .unspawned → receivedOf hist = []
  early : c.main.Early → c.receiver = .unspawned
  hangup : c.main = .returned (.error .daemonHangup) → c.receiver = .finished ∧ c.channel = []
  shown : c.snap = lastShown (adoptedOf hist)
  /-- The frames show later snapshots later. -/
  drawn : ∃ k ≤ (takenOf hist).length, c.snap = nthShown (takenOf hist) k ∧
    ∃ ks : List ℕ, ks.Pairwise (· ≤ ·) ∧ (∀ j ∈ ks, j ≤ k) ∧
      drawnOf hist = ks.map (nthShown (takenOf hist))

theorem nthShown_append {msgs : List SnapshotData} {k : ℕ} (h : k ≤ msgs.length)
    (more : List SnapshotData) : nthShown (msgs ++ more) k = nthShown msgs k := by
  have hlt : k < (blank :: msgs).length := Nat.lt_succ_of_le h
  rw [nthShown, nthShown, ← List.cons_append, List.getElem?_append_left hlt]

theorem nthShown_concat (msgs : List SnapshotData) (snap : SnapshotData) :
    nthShown (msgs ++ [snap]) (msgs.length + 1) = snap := by
  simp [nthShown]

theorem lastShown_concat (msgs : List SnapshotData) (snap : SnapshotData) :
    lastShown (msgs ++ [snap]) = snap := by
  simp [lastShown]

theorem fed_start (command : Option Command) : (start command).Fed [] where
  queued := rfl
  read := ⟨_, rfl, by simp [start], by simp [start]⟩
  unspawned := fun _ => rfl
  early := fun _ => rfl
  hangup := by simp [start]
  shown := rfl
  drawn := ⟨0, Nat.le_refl 0, rfl, [], List.Pairwise.nil, by simp, rfl⟩

/-- The commands that are written have nothing to do with the feed. -/
theorem Fed.wrote (h : c.Fed hist) (command : DaemonCommand) (bytes : List UInt8) :
    c.Fed (hist ++ [.wrote command bytes]) := by
  have hsame : receivedOf (hist ++ [.wrote command bytes]) = receivedOf hist ∧
      takenOf (hist ++ [.wrote command bytes]) = takenOf hist ∧
      adoptedOf (hist ++ [.wrote command bytes]) = adoptedOf hist ∧
      drawnOf (hist ++ [.wrote command bytes]) = drawnOf hist := by
    simp [receivedOf, takenOf, adoptedOf, drawnOf, ClientObs.received?, ClientObs.taken?,
      ClientObs.adopted?, ClientObs.drawn?]
  obtain ⟨hreceived, htaken, hadopted, hdrawn⟩ := hsame
  constructor
  · rw [hreceived, htaken]
    exact h.queued
  · rw [hreceived]
    exact h.read
  · rw [hreceived]
    exact h.unspawned
  · exact h.early
  · exact h.hangup
  · rw [hadopted]
    exact h.shown
  · rw [htaken, hdrawn]
    exact h.drawn

/-- A step of the main thread that leaves the channel alone. -/
theorem Fed.congr (h : c.Fed hist) (hsnap : c'.snap = c.snap) (hchannel : c'.channel = c.channel)
    (hsource : c'.source = c.source) (hreceiver : c'.receiver = c.receiver)
    (hover : c.main.over = false) (hhangup : c'.main ≠ .returned (.error .daemonHangup))
    (hearly : c'.main.Early → c.main.Early) : c'.Fed hist := by
  obtain ⟨reader, hread, hreader, hfinished⟩ := h.read
  refine ⟨?_, ⟨reader, ?_, ?_, ?_⟩, ?_, ?_, fun hm => absurd hm hhangup, ?_, ?_⟩
  · rw [hchannel]
    exact h.queued
  · rw [hsource]
    exact hread
  · rw [hreceiver]
    exact hreader
  · rw [hreceiver]
    exact fun hr _ => hfinished hr (Or.inl hover)
  · rw [hreceiver]
    exact h.unspawned
  · rw [hreceiver]
    exact fun hm => h.early (hearly hm)
  · rw [hsnap]
    exact h.shown
  · rw [hsnap]
    exact h.drawn

/-- **The first command** is written. -/
theorem Fed.send (h : c.Fed hist) (hm : c.main = .sending) (accepted : Option ℕ) :
    (c.send accepted).Fed hist := by
  have hearly : c.main.Early := Or.inr (Or.inr (Or.inl hm))
  have hover : c.main.over = false := by rw [hm]; rfl
  obtain ⟨bytes, ok, -, ⟨-, hsend⟩ | ⟨-, -, hsend⟩ | ⟨-, -, hsend⟩⟩ := c.send_cases accepted
  · rw [hsend]
    exact h.congr rfl rfl rfl rfl hover (by simp [ret]) fun _ => hearly
  · rw [hsend]
    exact h.congr rfl rfl rfl rfl hover (by simp [ret]) fun _ => hearly
  · rw [hsend]
    exact h.congr rfl rfl rfl rfl hover (by simp) fun _ => hearly

/-- **The terminal is set up**: the thread that is spawned has not read anything. -/
theorem Fed.tuiNew (h : c.Fed hist) (hm : c.main = .settingUp) (ok : Bool) :
    (c.tuiNew ok).Fed hist := by
  have hearly : c.main.Early := Or.inr (Or.inr (Or.inr hm))
  have hnone : receivedOf hist = [] := h.unspawned (h.early hearly)
  cases ok with
  | true =>
    refine ⟨h.queued, ?_, by simp [ClientProcess.tuiNew],
      by simp [ClientProcess.tuiNew, MainPc.Early], by simp [ClientProcess.tuiNew],
      h.shown, h.drawn⟩
    rw [hnone]
    exact ⟨_, rfl, by simp [ClientProcess.tuiNew], by simp [ClientProcess.tuiNew]⟩
  | false =>
    exact h.congr rfl rfl rfl rfl (by rw [hm]; rfl) (by simp [ClientProcess.tuiNew]) fun _ => hearly

/-- **A message is received**: it is the next one of the stream. -/
theorem Fed.receive (h : c.Fed hist) {reader : SocketReader} (hr : c.receiver = .reading reader) :
    (c.receive reader).Fed (hist ++ (c.obs .receive).toList) := by
  obtain ⟨reader₁, hread, hreader, -⟩ := h.read
  obtain rfl := hreader reader hr
  have hhangup : c.main ≠ .returned (.error .daemonHangup) := by
    intro hm
    have hfinished := (h.hangup hm).1
    rw [hr] at hfinished
    cases hfinished
  have hearly : ¬ c.main.Early := by
    intro hm
    have hunspawned := h.early hm
    rw [hr] at hunspawned
    cases hunspawned
  rw [obs, hr, ClientProcess.receive]
  cases hmsg : readMsg SnapshotData.codec.decode reader with
  | error err =>
    simp only [hmsg, Option.toList_none, List.append_nil]
    exact ⟨h.queued, ⟨reader, hread, by simp, fun _ _ => ⟨err, hmsg⟩⟩, by simp,
      fun hm => absurd hm hearly, fun hm => absurd hm hhangup, h.shown, h.drawn⟩
  | ok p =>
    obtain ⟨snap, reader'⟩ := p
    cases hover : c.main.over with
    | true =>
      simp only [hmsg, if_true, Option.toList_none, List.append_nil]
      refine ⟨h.queued, ⟨reader, hread, by simp, fun _ hm => ?_⟩, by simp,
        fun hm => absurd hm hearly, fun hm => absurd hm hhangup, h.shown, h.drawn⟩
      rcases hm with hm | hm
      · exact absurd (hm.symm.trans hover) (by decide)
      · exact absurd hm hhangup
    | false =>
      simp only [hmsg, Bool.false_eq_true, if_false, Option.toList_some]
      have hreceived : receivedOf (hist ++ [.received snap]) = receivedOf hist ++ [snap] := by
        simp [receivedOf, ClientObs.received?]
      have hsame : takenOf (hist ++ [.received snap]) = takenOf hist ∧
          adoptedOf (hist ++ [.received snap]) = adoptedOf hist ∧
          drawnOf (hist ++ [.received snap]) = drawnOf hist := by
        simp [takenOf, adoptedOf, drawnOf, ClientObs.taken?, ClientObs.adopted?, ClientObs.drawn?]
      obtain ⟨htaken, hadopted, hdrawn⟩ := hsame
      refine ⟨?_, ⟨reader', ?_, by simp, by simp⟩, by simp, fun hm => absurd hm hearly,
        fun hm => absurd hm hhangup, ?_, ?_⟩
      · rw [hreceived, htaken, h.queued, List.append_assoc]
      · rw [hreceived, List.length_append]
        exact readMsgs_succ hread hmsg
      · rw [hadopted]
        exact h.shown
      · rw [htaken, hdrawn]
        exact h.drawn

/-- **The main thread looks into the channel.** -/
theorem Fed.tryRecv (h : c.Fed hist) (hm : c.main = .polling) :
    c.tryRecv.Fed (hist ++ (c.obs .tryRecv).toList) := by
  have hover : c.main.over = false := by rw [hm]; rfl
  unfold ClientProcess.tryRecv
  split
  case h_2 hchannel =>
    simp only [obs, hchannel, List.head?_nil, Option.map_none, Option.toList_none, List.append_nil]
    split
    case isFalse => exact h.congr rfl hchannel.symm rfl rfl hover (by simp) (by simp [MainPc.Early])
    case isTrue hfinished =>
      -- The channel is empty and its other end is gone.
      obtain ⟨reader, hread, hreader, herr⟩ := h.read
      exact ⟨h.queued, ⟨reader, hread, hreader, fun hr _ => herr hr (Or.inl hover)⟩, h.unspawned,
        by simp [ret, MainPc.Early], fun _ => ⟨hfinished, hchannel⟩, h.shown, h.drawn⟩
  case h_1 snap channel hchannel =>
    simp only [obs, hchannel, List.head?_cons, Option.map_some, Option.toList_some]
    have hreceived : receivedOf (hist ++ [.taken snap c.state.paused]) = receivedOf hist := by
      simp [receivedOf, ClientObs.received?]
    have htaken : takenOf (hist ++ [.taken snap c.state.paused]) = takenOf hist ++ [snap] := by
      simp [takenOf, ClientObs.taken?]
    have hdrawn : drawnOf (hist ++ [.taken snap c.state.paused]) = drawnOf hist := by
      simp [drawnOf, ClientObs.drawn?]
    obtain ⟨k, hk, hsnap, ks, hsorted, hks, hframes⟩ := h.drawn
    have hframes' : drawnOf hist = ks.map (nthShown (takenOf hist ++ [snap])) := by
      rw [hframes]
      refine List.map_congr_left fun j hj => ?_
      exact (nthShown_append ((hks j hj).trans hk) [snap]).symm
    have hqueued : receivedOf hist = takenOf hist ++ [snap] ++ channel := by
      rw [h.queued, hchannel, List.append_assoc, List.singleton_append]
    cases hpaused : c.state.paused with
    | true =>
      have hadopted : adoptedOf (hist ++ [.taken snap true]) = adoptedOf hist := by
        simp [adoptedOf, ClientObs.adopted?]
      rw [hpaused] at hreceived htaken hdrawn
      rw [if_pos rfl]
      refine ⟨?_, ?_, ?_, h.early, by simp [hm], ?_, k, ?_, ?_, ks, hsorted, hks, ?_⟩
      · rw [hreceived, htaken]
        exact hqueued
      · rw [hreceived]
        exact h.read
      · rw [hreceived]
        exact h.unspawned
      · rw [hadopted]
        exact h.shown
      · rw [htaken, List.length_append]
        omega
      · rw [htaken, nthShown_append hk]
        exact hsnap
      · rw [hdrawn, htaken]
        exact hframes'
    | false =>
      have hadopted : adoptedOf (hist ++ [.taken snap false]) = adoptedOf hist ++ [snap] := by
        simp [adoptedOf, ClientObs.adopted?]
      rw [hpaused] at hreceived htaken hdrawn
      rw [if_neg (by decide)]
      refine ⟨?_, ?_, ?_, h.early, by simp [hm], ?_, (takenOf hist).length + 1, ?_, ?_, ks, hsorted,
        fun j hj => ((hks j hj).trans hk).trans (Nat.le_succ _), ?_⟩
      · rw [hreceived, htaken]
        exact hqueued
      · rw [hreceived]
        exact h.read
      · rw [hreceived]
        exact h.unspawned
      · rw [hadopted, lastShown_concat]
      · rw [htaken, List.length_append]
        rfl
      · rw [htaken, nthShown_concat]
      · rw [hdrawn, htaken]
        exact hframes'

/-- **A frame shows what is shown now.** -/
theorem Fed.drawnNow (h : c.Fed hist) : c.Fed (hist ++ [.drawn c.snap]) := by
  have hsame : receivedOf (hist ++ [.drawn c.snap]) = receivedOf hist ∧
      takenOf (hist ++ [.drawn c.snap]) = takenOf hist ∧
      adoptedOf (hist ++ [.drawn c.snap]) = adoptedOf hist ∧
      drawnOf (hist ++ [.drawn c.snap]) = drawnOf hist ++ [c.snap] := by
    simp [receivedOf, takenOf, adoptedOf, drawnOf, ClientObs.received?, ClientObs.taken?,
      ClientObs.adopted?, ClientObs.drawn?]
  obtain ⟨hreceived, htaken, hadopted, hdrawn⟩ := hsame
  obtain ⟨k, hk, hsnap, ks, hsorted, hks, hframes⟩ := h.drawn
  refine ⟨?_, ?_, ?_, h.early, h.hangup, ?_, k, ?_, ?_, ks ++ [k], ?_, ?_, ?_⟩
  · rw [hreceived, htaken]
    exact h.queued
  · rw [hreceived]
    exact h.read
  · rw [hreceived]
    exact h.unspawned
  · rw [hadopted]
    exact h.shown
  · rwa [htaken]
  · rwa [htaken]
  · exact List.pairwise_append.mpr ⟨hsorted, List.pairwise_singleton _ _, by
      simpa using hks⟩
  · intro j hj
    rcases List.mem_append.mp hj with hj | hj
    · exact hks j hj
    · exact Nat.le_of_eq (List.mem_singleton.mp hj)
  · rw [hdrawn, htaken, hframes, List.map_append, List.map_singleton, ← hsnap]

/-- **A frame is drawn**, unless the main thread panics. -/
theorem Fed.draw (h : c.Fed hist) (hm : c.main = .drawing ∨ c.main = .redrawing) (height : ℕ)
    {main : MainPc} (hmain : main = .waiting ∨ main = .polling) :
    (c.draw height main).Fed (hist ++ [.drawn c.snap]) := by
  have hover : c.main.over = false := by rcases hm with hm | hm <;> rw [hm] <;> rfl
  have hdrawn := h.drawnNow
  unfold ClientProcess.draw
  split
  · rcases hmain with rfl | rfl
    · exact hdrawn.congr rfl rfl rfl rfl hover (by simp) (by simp [MainPc.Early])
    · exact hdrawn.congr rfl rfl rfl rfl hover (by simp) (by simp [MainPc.Early])
  · exact hdrawn.congr rfl rfl rfl rfl hover (by simp) (by simp [MainPc.Early])

theorem Fed.press (h : c.Fed hist) (hm : c.main = .waiting) (key : KeyEvent)
    (accepted : Option ℕ) : (c.press key accepted).Fed hist := by
  have hover : c.main.over = false := by rw [hm]; rfl
  obtain ⟨hsnap, hchannel, hsource, hreceiver, hmain⟩ := c.press_frame key accepted
  refine h.congr hsnap hchannel hsource hreceiver hover ?_ ?_
  · rcases hmain with hmain | hmain | hmain | hmain <;> simp [hmain]
  · rcases hmain with hmain | hmain | hmain | hmain <;> simp [hmain, MainPc.Early]

/-- What is written by an event. -/
theorem obs_event (c : ClientProcess) (ev : Option TermEvent) (accepted : Option ℕ) :
    c.obs (.event ev accepted) = none ∨
      ∃ command bytes, c.obs (.event ev accepted) = some (.wrote command bytes) := by
  cases hobs : c.obs (.event ev accepted) with
  | none => exact Or.inl rfl
  | some o =>
    obtain ⟨key, -, hkey⟩ := Option.bind_eq_some_iff.mp hobs
    obtain ⟨handled, -, hsent⟩ := Option.bind_eq_some_iff.mp hkey
    obtain ⟨command, -, rfl⟩ := Option.map_eq_some_iff.mp hsent
    exact Or.inr ⟨_, _, rfl⟩

theorem Fed.event (h : c.Fed hist) (ev : Option TermEvent) (accepted : Option ℕ) :
    c.Fed (hist ++ (c.obs (.event ev accepted)).toList) := by
  rcases c.obs_event ev accepted with hobs | ⟨command, bytes, hobs⟩
  · rw [hobs, Option.toList_none, List.append_nil]
    exact h
  · rw [hobs]
    exact h.wrote command bytes

/-- The socket of a client is there before its thread is. -/
theorem Fed.connected (h : c.Fed hist) (hm : c.main = .connecting) {main : MainPc}
    (hmain : main ≠ .returned (.error .daemonHangup)) (source : Source) :
    Fed { c with main, source } hist := by
  have hunspawned : c.receiver = .unspawned := h.early (Or.inl hm)
  have hnone : receivedOf hist = [] := h.unspawned hunspawned
  refine ⟨h.queued, ?_, h.unspawned, fun _ => hunspawned, fun hhangup => absurd hhangup hmain,
    h.shown, h.drawn⟩
  rw [hnone]
  refine ⟨_, rfl, fun r hr => ?_, fun hr => ?_⟩
  · cases hunspawned.symm.trans hr
  · cases hunspawned.symm.trans hr

/-- **Every step keeps track of the snapshots.** -/
theorem Fed.step (h : c.Fed hist) (hstep : c.step l = some c') :
    c'.Fed (hist ++ (c.obs l).toList) := by
  rcases step_cases hstep with ⟨main, source, hl, hmain, rfl⟩ | ⟨accepted, rfl, hm, rfl⟩ |
    ⟨ok, rfl, hm, rfl⟩ | ⟨reader, rfl, hr, rfl⟩ | ⟨rfl, hm, rfl⟩ | ⟨height, main, rfl, rfl, hm⟩ |
    ⟨ev, key, accepted, rfl, hm, -, rfl⟩ | ⟨⟨ev, accepted, rfl, -⟩, hm, rfl⟩ | ⟨err, hl, rfl⟩
  · have hhangup : main ≠ .returned (.error .daemonHangup) := by
      rcases hmain with rfl | rfl | ⟨err, rfl, herr⟩
      · simp
      · simp
      · intro heq
        injection heq with heq
        injection heq with heq
        exact herr heq
    rcases hl with ⟨⟨source, rfl⟩, hm⟩ | ⟨⟨ok, rfl⟩, hm, rfl⟩
    · rw [obs, Option.toList_none, List.append_nil]
      exact h.connected hm hhangup _
    · rw [obs, Option.toList_none, List.append_nil]
      exact h.congr rfl rfl rfl rfl (by rw [hm]; rfl) hhangup fun _ => Or.inr (Or.inl hm)
  · rw [obs, Option.toList_some]
    exact (h.wrote _ _).send hm accepted
  · rw [obs, Option.toList_none, List.append_nil]
    exact h.tuiNew hm ok
  · exact h.receive hr
  · exact h.tryRecv hm
  · rw [obs, Option.map_some, Option.toList_some]
    rcases hm with ⟨hm, rfl⟩ | ⟨hm, rfl⟩
    · exact h.draw (Or.inl hm) height (Or.inl rfl)
    · exact h.draw (Or.inr hm) height (Or.inr rfl)
  · exact (h.event _ accepted).press hm key accepted
  · exact (h.event _ accepted).congr rfl rfl rfl rfl (by rw [hm]; rfl) (by simp)
      (by simp [MainPc.Early])
  · rcases hl with ⟨rfl, hm⟩ | ⟨accepted, rfl, hm⟩
    · rw [obs, Option.map_none, Option.toList_none, List.append_nil]
      have hover : c.main.over = false := by rcases hm with hm | hm <;> rw [hm] <;> rfl
      exact h.congr rfl rfl rfl rfl hover (by simp [ret]) (by simp [ret, MainPc.Early])
    · exact (h.event none accepted).congr rfl rfl rfl rfl (by rw [hm]; rfl) (by simp [ret])
        (by simp [ret, MainPc.Early])

/-- **Where the snapshots are, over whole runs.** -/
theorem fed_exec {command : Option Command} {ls : List ClientStep}
    (h : exec ClientProcess.step (start command) ls = some c) : c.Fed (history command ls) := by
  exact exec_observe (C := fun _ _ => True) (R := Fed)
    (fun _ _ _ _ _ hfed hstep => hfed.step hstep) (meets_of_forall (fun _ _ => trivial) _ _)
    (fed_start command) h

/-! ### Where a client panics -/

/-- **A client has panicked before its loop** once its terminal could not be set up, and the main
thread takes no step after that. -/
theorem panicked_setUp_step (hstep : c.step l = some c') :
    c'.main = .panicked .setUp ↔ c.main = .panicked .setUp ∨ l = .tuiNew false := by
  rcases step_cases hstep with ⟨main, source, hl, hmain, rfl⟩ | ⟨accepted, rfl, hm, rfl⟩ |
    ⟨ok, rfl, hm, rfl⟩ | ⟨reader, rfl, hr, rfl⟩ | ⟨rfl, hm, rfl⟩ | ⟨height, main, rfl, rfl, hm⟩ |
    ⟨ev, key, accepted, rfl, hm, -, rfl⟩ | ⟨⟨ev, accepted, rfl, -⟩, hm, rfl⟩ | ⟨err, hl, rfl⟩
  · have hbefore : c.main ≠ .panicked .setUp ∧ l ≠ .tuiNew false := by
      rcases hl with ⟨⟨_, rfl⟩, hm⟩ | ⟨⟨_, rfl⟩, hm, -⟩ <;> simp [hm]
    have hafter : main ≠ .panicked .setUp := by
      rcases hmain with rfl | rfl | ⟨err, rfl, -⟩ <;> simp
    simp [hbefore, hafter]
  · obtain ⟨bytes, ok, -, ⟨-, hsend⟩ | ⟨-, -, hsend⟩ | ⟨-, -, hsend⟩⟩ := c.send_cases accepted
    · simp [hsend, hm, ret]
    · simp [hsend, hm, ret]
    · simp [hsend, hm]
  · cases ok with
    | true => simp [ClientProcess.tuiNew, hm]
    | false => simp [ClientProcess.tuiNew]
  · simp [(c.receive_frame reader).1]
  · rcases (tryRecv_frame hm).1 with hafter | hafter | hafter <;> simp [hafter, hm]
  · have hbefore : c.main ≠ .panicked .setUp ∧ main ≠ .panicked .setUp := by
      rcases hm with ⟨hm, rfl⟩ | ⟨hm, rfl⟩ <;> simp [hm]
    rcases (c.draw_frame height main).1 with hafter | hafter <;> simp [hafter, hbefore]
  · obtain ⟨-, -, -, -, hafter⟩ := c.press_frame key accepted
    rcases hafter with hafter | hafter | hafter | hafter <;> simp [hafter, hm]
  · simp [hm]
  · rcases hl with ⟨rfl, hm | hm⟩ | ⟨accepted, rfl, hm⟩ <;> simp [ret, hm]

/-- **A client panics where its terminal cannot be set up**, and nowhere else. -/
theorem panicked_iff {command : Option Command} {ls : List ClientStep}
    (h : exec ClientProcess.step (start command) ls = some c) :
    (∃ point, c.main = .panicked point) ↔ ClientStep.tuiNew false ∈ ls := by
  -- In the loop, it is its session that would panic.
  obtain ⟨ms, hms⟩ := exists_exec_session h
  have hsound : c.session.Sound := exec_invariant (I := Session.Sound)
    (fun _ _ _ hs hstep => Session.sound_step hs hstep) ⟨by decide, TuiState.good_new⟩ hms
  have hindex : c.main ≠ .panicked .index := by
    intro hm
    exact hsound.1 (by rw [session, hm]; rfl)
  have hsetUp : c.main = .panicked .setUp ↔ ClientStep.tuiNew false ∈ ls := by
    refine exec_concat_rec (R := fun ls c => c.main = .panicked .setUp ↔
      ClientStep.tuiNew false ∈ ls) (by simp [start]) ?_ h
    intro ls l c c' _ ih hstep
    rw [panicked_setUp_step hstep, ih, List.mem_append, List.mem_singleton, eq_comm (a := l)]
  rw [← hsetUp]
  constructor
  · rintro ⟨point, hpoint⟩
    cases point with
    | setUp => exact hpoint
    | index => exact absurd hpoint hindex
  · exact fun hm => ⟨.setUp, hm⟩

/-! ### The main results -/

theorem adopted_sublist (hist : List ClientObs) : (adoptedOf hist).Sublist (takenOf hist) := by
  induction hist with
  | nil => exact List.Sublist.slnil
  | cons o hist ih =>
    cases o with
    | taken snap paused =>
      cases paused with
      | true => exact ih.cons snap
      | false => exact ih.cons_cons snap
    | received | drawn | wrote => exact ih

/-- **The snapshots of a stream on their way to the screen**, when the frames of the first
`complete` of them have been delivered. -/
structure Feed (c : ClientProcess) (hist : List ClientObs) (msgs : List SnapshotData)
    (complete : ℕ) : Prop where
  /-- The first of them are received, and taken out of the channel in this order. -/
  received : ∃ k ≤ complete, takenOf hist ++ c.channel = msgs.take k
  /-- A client that is told of the hangup has taken all of them. -/
  hangup : c.main = .returned (.error .daemonHangup) → takenOf hist = msgs.take complete
  /-- Those are not shown that are taken while the feed is paused. -/
  shown : c.snap = lastShown (adoptedOf hist)
  adopted : (adoptedOf hist).Sublist (takenOf hist)
  /-- The frames show some of them, the later ones later. -/
  drawn : ∃ ks : List ℕ, ks.Pairwise (· ≤ ·) ∧ (∀ j ∈ ks, j ≤ (takenOf hist).length) ∧
    drawnOf hist = ks.map (nthShown msgs)

/-- **What a client does with a stream** of which some first part is delivered. -/
theorem feed_of_delivered {command : Option Command} {ls : List ClientStep}
    {payloads : List (List UInt8)} {msgs : List SnapshotData}
    (h : exec ClientProcess.step (start command) ls = some c)
    (hmsgs : List.Forall₂ (Reads SnapshotData.codec.decode) payloads msgs)
    (hp : c.source.bytes <+: (payloads.map frame).flatten) :
    c.Feed (history command ls) msgs
      (completeFrames (payloads.map frame) c.source.bytes.length) := by
  have hfed : c.Fed (history command ls) := fed_exec h
  generalize history command ls = hist at hfed
  generalize hcomplete : completeFrames (payloads.map frame) c.source.bytes.length = complete
  obtain ⟨reader, hread, -, herr⟩ := hfed.read
  have hpending : (.new c.source : SocketReader).pending =
      (payloads.map frame).flatten.take c.source.bytes.length :=
    List.prefix_iff_eq_take.mp hp
  obtain ⟨hk, hreceived⟩ := readMsgs_delivered hmsgs hpending hread
  rw [hcomplete] at hk
  refine ⟨⟨_, hk, hfed.queued.symm.trans hreceived⟩, fun hm => ?_, hfed.shown,
    adopted_sublist hist, ?_⟩
  · obtain ⟨hfinished, hchannel⟩ := hfed.hangup hm
    obtain ⟨err, hstop⟩ := herr hfinished (Or.inr hm)
    -- The thread has stopped at an error, and not before the last complete frame.
    obtain ⟨received, reader', hall⟩ := exists_readMsgs_complete hmsgs hpending
    have hge := le_of_readMsgs_error hread hstop hall
    rw [hcomplete] at hge
    have htaken : takenOf hist = receivedOf hist := by
      rw [hfed.queued, hchannel, List.append_nil]
    rw [htaken, hreceived, Nat.le_antisymm hk hge]
  · obtain ⟨k, hle, -, ks, hsorted, hks, hdrawn⟩ := hfed.drawn
    refine ⟨ks, hsorted, fun j hj => (hks j hj).trans hle, ?_⟩
    rw [hdrawn]
    refine List.map_congr_left fun j hj => ?_
    have htaken : takenOf hist <+: msgs := by
      refine List.IsPrefix.trans ⟨c.channel, hfed.queued.symm⟩ ?_
      rw [hreceived]
      exact List.take_prefix _ _
    obtain ⟨more, hmore⟩ := htaken
    rw [← hmore, nthShown_append ((hks j hj).trans hle)]

end ClientProcess

/-- **The client shows what it is sent, in order.** Let the socket deliver, in any pieces, some
first part of a stream of frames, and then end or fail. The client panics where its terminal cannot
be set up, and nowhere else: no access by index is out of range. What the receiving thread has
passed on are the first messages of the stream; the main thread has taken them out of the channel in
this order, but for those that still are in it; and the frames show some of them, the later ones
later. A client that is told of the hangup has taken every message that was delivered completely. -/
theorem client_shows_in_order {command : Option Command} {ls : List ClientStep} {c : ClientProcess}
    {payloads : List (List UInt8)} {msgs : List SnapshotData}
    (h : exec ClientProcess.step (.start command) ls = some c)
    (hmsgs : List.Forall₂ (Reads SnapshotData.codec.decode) payloads msgs)
    (hp : c.source.bytes <+: (payloads.map frame).flatten) :
    ((∃ point, c.main = .panicked point) ↔ ClientStep.tuiNew false ∈ ls) ∧
      c.Feed (ClientProcess.history command ls) msgs
        (completeFrames (payloads.map frame) c.source.bytes.length) :=
  ⟨ClientProcess.panicked_iff h, ClientProcess.feed_of_delivered h hmsgs hp⟩

/-- Two snapshots without rows. -/
def twoTicks : List SnapshotData := [⟨1000, 1, [], []⟩, ⟨1000, 2, [], []⟩]

/-- The daemon dies in the middle of its second snapshot. -/
def cutSource : Source :=
  Source.putBack (((twoTicks.map fun s => frame (SnapshotData.codec.encode s)).flatten).take 40) []

/-- The client draws a frame before the first snapshot arrives, and one after it. -/
def cutSession : List ClientStep :=
  [.connect (some cutSource), .clone true, .send none, .tuiNew true, .tryRecv, .draw (some 5),
    .event (some .timeout) none, .receive, .tryRecv, .tryRecv, .draw (some 5),
    .event (some (.key .press ⟨.char '+', false⟩)) none, .receive, .tryRecv]

theorem client_shows_in_order_cut :
    ∃ c, exec ClientProcess.step (.start none) cutSession = some c ∧
      c.main = .returned (.error .daemonHangup) ∧
      drawnOf (ClientProcess.history none cutSession) = [blank, ⟨1000, 1, [], []⟩] ∧
      takenOf (ClientProcess.history none cutSession) = twoTicks.take 1 := by
  obtain ⟨c, hc, hp⟩ := exists_exec_of_any ClientProcess.step (.start none) cutSession
    (fun c => c.main = .returned (.error .daemonHangup) ∧ c.source = cutSource)
    (by decide +kernel)
  obtain ⟨hmain, hsource⟩ := of_decide_eq_true hp
  have hreads : List.Forall₂ (Reads SnapshotData.codec.decode)
      (twoTicks.map SnapshotData.codec.encode) twoTicks := by
    have hshort : ∀ snap ∈ twoTicks, (SnapshotData.codec.encode snap).length < 2 ^ 16 := by
      decide +kernel
    rw [List.forall₂_map_left_iff, List.forall₂_same]
    exact fun snap hsnap =>
      ⟨hshort snap hsnap, Codec.reads_encode SnapshotData.fits_codec (hshort snap hsnap)⟩
  have hdelivered : c.source.bytes <+:
      ((twoTicks.map SnapshotData.codec.encode).map frame).flatten := by
    rw [hsource]
    decide +kernel
  obtain ⟨-, hfeed⟩ := client_shows_in_order hc hreads hdelivered
  refine ⟨c, hc, hmain, by decide +kernel, (hfeed.hangup hmain).trans ?_⟩
  rw [hsource]
  decide +kernel

end Procnet
