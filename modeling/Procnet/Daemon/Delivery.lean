import Mathlib.Data.List.TakeWhile
import Procnet.Daemon.Fanout

/-!
# What a client is sent

Whatever the other clients do, and wherever writes fail, a client finds on its connection whole
frames, of snapshots handed out since its registration and in their order, and after them at most
one frame that is cut. What is missing was offered when its channel was full, or comes after its
thread has left the loop.

`FanoutObs` is what a run shows of one client: its registration, the snapshots handed out, and
each of them that is offered to it. `Served` relates the state of the client to that history, and
`fanout_isolated` reads off what the client gets.
-/

namespace Procnet

open Lib

/-! ### The history of a client -/

/-- What is seen of a client in a run. -/
inductive FanoutObs where
  /-- Its sender is registered. -/
  | joined : FanoutObs
  /-- `update_streams` starts on a snapshot. -/
  | broadcast (bytes : List UInt8) : FanoutObs
  /-- The snapshot is offered to the client; its connection at that moment. -/
  | offered (bytes : List UInt8) (c : Connection) : FanoutObs
  deriving DecidableEq, Repr

namespace FanoutObs

/-- The snapshot that `update_streams` starts on. -/
def broadcast? : FanoutObs → Option (List UInt8)
  | broadcast bytes => some bytes
  | _ => none

/-- The snapshot that is offered. -/
def offer? : FanoutObs → Option (List UInt8)
  | offered bytes _ => some bytes
  | _ => none

/-- The channel has taken what was offered. -/
def isOk : FanoutObs → Bool
  | offered bytes c => (c.trySend bytes).1 = .ok
  | _ => false

end FanoutObs

/-- What a step shows of client `i`. -/
def Fanout.obs (i : ℕ) (s : Fanout) : FanoutStep → Option FanoutObs
  | .join j true => if j = i then some .joined else none
  | .broadcast bytes => some (.broadcast bytes)
  | .offer j =>
    match s.conns[j]?, s.senders with
    | some c, .retain bytes _ _ => if j = i then some (.offered bytes c) else none
    | _, _ => none
  | _ => none

/-- What a run of the daemon shows of client `i`. -/
def fanoutHistory (i : ℕ) (ls : List FanoutStep) : List FanoutObs :=
  observe Fanout.step (Fanout.obs i) .new ls

/-- The snapshots handed out since the client has been registered. -/
def broadcastsSince (hist : List FanoutObs) : List (List UInt8) :=
  (hist.dropWhile (· ≠ .joined)).filterMap FanoutObs.broadcast?

/-- The snapshots offered to the client. -/
def offers (hist : List FanoutObs) : List (List UInt8) := hist.filterMap FanoutObs.offer?

/-- The snapshots its channel has taken. -/
def accepted (hist : List FanoutObs) : List (List UInt8) := offers (hist.filter FanoutObs.isOk)

theorem accepted_sublist (hist : List FanoutObs) : (accepted hist).Sublist (offers hist) :=
  List.filter_sublist.filterMap _

@[simp] theorem offers_concat (hist : List FanoutObs) (o : FanoutObs) :
    offers (hist ++ [o]) = offers hist ++ o.offer?.toList := by
  cases o <;> simp [offers, FanoutObs.offer?]

theorem accepted_concat (hist : List FanoutObs) (o : FanoutObs) :
    accepted (hist ++ [o]) = accepted hist ++ if o.isOk then o.offer?.toList else [] := by
  cases ho : o.isOk <;> simp [accepted, List.filter_append, ho]

theorem dropWhile_of_notMem {hist : List FanoutObs} (h : .joined ∉ hist) :
    hist.dropWhile (· ≠ .joined) = [] := by
  rw [List.dropWhile_eq_nil_iff]
  intro o ho
  simpa using ne_of_mem_of_not_mem ho h

/-- Before the registration nothing counts. -/
theorem broadcastsSince_of_notMem {hist : List FanoutObs} (h : .joined ∉ hist) :
    broadcastsSince hist = [] := by
  rw [broadcastsSince, dropWhile_of_notMem h, List.filterMap_nil]

/-- From then on, every snapshot does. -/
theorem broadcastsSince_concat {hist : List FanoutObs} (h : .joined ∈ hist) (o : FanoutObs) :
    broadcastsSince (hist ++ [o]) = broadcastsSince hist ++ o.broadcast?.toList := by
  have hne : hist.dropWhile (· ≠ .joined) ≠ [] := by
    rw [ne_eq, List.dropWhile_eq_nil_iff]
    intro hall
    simpa using hall _ h
  rw [broadcastsSince, List.dropWhile_append, if_neg (by simpa using hne), List.filterMap_append,
    broadcastsSince]
  cases o <;> rfl

/-- The registration itself is no snapshot. -/
theorem broadcastsSince_joined {hist : List FanoutObs} (h : .joined ∉ hist) :
    broadcastsSince (hist ++ [.joined]) = [] := by
  rw [broadcastsSince, List.dropWhile_append, dropWhile_of_notMem h]
  rfl

/-! ### The frames on the wire -/

namespace Connection

/-- **Where the frames are that the channel has taken**: some are on the wire, one may be cut,
and the others are in the channel, as long as there is one. -/
def Framed (sent : List (List UInt8)) (c : Connection) : Prop :=
  ∃ frames cut more part, sent = frames ++ cut ++ more ∧ c.wire = frames.flatten ++ part ∧
    (¬ c.writer.Dropped → more = c.queue) ∧
    ((cut = [] ∧ part = [] ∧ ∀ rest, c.writer ≠ .writing rest) ∨
      ∃ rest, rest ≠ [] ∧ cut = [part ++ rest] ∧ (c.writer = .writing rest ∨ c.writer.Left))

/-- What the threads of a connection do without the list of senders. -/
structure Quiet (c c' : Connection) : Prop where
  starting : c'.writer.Starting → c.writer.Starting
  serves : c'.writer.Serves → c.writer.Serves
  dropped : c.writer.Dropped → c'.writer.Dropped
  left : c.writer.Left → c'.writer.Left ∧ c'.wire = c.wire
  wire : c.wire <+: c'.wire
  queue : c'.queue.length ≤ c.queue.length
  framed : ∀ sent, c.Framed sent → c'.Framed sent

variable {c c' : Connection} {sent : List (List UInt8)} {data : List UInt8}

/-- A new connection has been sent nothing. -/
theorem framed_new : new.Framed [] :=
  ⟨[], [], [], [], rfl, rfl, fun _ => rfl, Or.inl ⟨rfl, rfl, nofun⟩⟩

/-- Only the thread, the channel and the socket matter. -/
theorem Framed.congr (h : c.Framed sent) (hw : c'.writer = c.writer) (hq : c'.queue = c.queue)
    (hwire : c'.wire = c.wire) : c'.Framed sent := by
  rw [Framed, hw, hq, hwire]
  exact h

/-- No frame is begun where the thread is not in `write_all` and has not left the loop. -/
theorem Framed.whole (h : c.Framed sent) (hw : ∀ rest, c.writer ≠ .writing rest)
    (hleft : ¬ c.writer.Left) :
    ∃ frames, sent = frames ++ c.queue ∧ c.wire = frames.flatten := by
  obtain ⟨frames, cut, more, part, rfl, hwire, hmore, ⟨rfl, rfl, -⟩ | ⟨rest, -, -, hrest⟩⟩ := h
  · refine ⟨frames, ?_, by rw [hwire, List.append_nil]⟩
    rw [hmore fun hd => hleft hd.left, List.append_nil]
  · exact absurd hrest (not_or.mpr ⟨hw rest, hleft⟩)

/-- The frame that is being written. -/
theorem Framed.current {rest : List UInt8} (h : c.Framed sent) (hw : c.writer = .writing rest) :
    ∃ frames part, rest ≠ [] ∧ sent = frames ++ [part ++ rest] ++ c.queue ∧
      c.wire = frames.flatten ++ part := by
  obtain ⟨frames, cut, more, part, rfl, hwire, hmore, ⟨-, -, hnot⟩ | ⟨rest', hne, rfl, hrest⟩⟩ := h
  · exact absurd hw (hnot rest)
  · obtain rfl : rest' = rest := by
      rcases hrest with hrest | hleft
      · exact Writer.writing.inj (hrest.symm.trans hw)
      · rw [hw] at hleft
        exact absurd hleft (by simp [Writer.Left, Writer.Dropped])
    have hdropped : ¬ c.writer.Dropped := by simp [hw, Writer.Dropped]
    exact ⟨frames, part, hne, by rw [hmore hdropped], hwire⟩

/-- The next frame, as far as it goes. -/
theorem framed_sending {frames : List (List UInt8)} {part rest : List UInt8}
    (hsent : sent = frames ++ [part ++ rest] ++ c.queue) (hwire : c.wire = frames.flatten ++ part)
    (hw : c.writer = .sending rest) : c.Framed sent := by
  by_cases hrest : rest = []
  · subst hrest
    refine ⟨frames ++ [part], [], c.queue, [], ?_, ?_, fun _ => rfl, Or.inl ⟨rfl, rfl, ?_⟩⟩
    · rw [hsent, List.append_nil, List.append_nil]
    · simp [hwire]
    · simp [hw, Writer.sending]
  · refine ⟨frames, [part ++ rest], c.queue, part, hsent, hwire, fun _ => rfl, Or.inr ?_⟩
    exact ⟨rest, hrest, rfl, Or.inl (by rw [hw, Writer.sending, if_neg hrest])⟩

/-- What has been begun stays cut once the thread has left the loop. -/
theorem Framed.left (h : c.Framed sent) (hleft : c'.writer.Left) (hwire : c'.wire = c.wire)
    (hq : ¬ c'.writer.Dropped → c'.queue = c.queue ∧ ¬ c.writer.Dropped) : c'.Framed sent := by
  have hnot : ∀ rest, c'.writer ≠ .writing rest := by
    rintro rest hw
    rw [hw] at hleft
    simp [Writer.Left, Writer.Dropped] at hleft
  obtain ⟨frames, cut, more, part, hsent, hc, hmore, hcut⟩ := h
  refine ⟨frames, cut, more, part, hsent, hwire.trans hc, ?_, ?_⟩
  · intro hdropped
    rw [(hq hdropped).1]
    exact hmore (hq hdropped).2
  · rcases hcut with ⟨hcut, hpart, -⟩ | ⟨rest, hne, hcut, -⟩
    · exact Or.inl ⟨hcut, hpart, hnot⟩
    · exact Or.inr ⟨rest, hne, hcut, Or.inr hleft⟩

/-- The channel takes another frame. -/
theorem Framed.push (h : c.Framed sent) (hdropped : ¬ c.writer.Dropped) :
    Framed (sent ++ [data]) { c with queue := c.queue ++ [data] } := by
  obtain ⟨frames, cut, more, part, rfl, hwire, hmore, hcut⟩ := h
  refine ⟨frames, cut, more ++ [data], part, ?_, hwire, fun _ => ?_, hcut⟩
  · rw [List.append_assoc]
  · rw [hmore hdropped]

/-- A step that changes neither the channel nor the socket, and leads from outside the loop to
no place in it. -/
theorem quiet_of_eq (hq : c'.queue = c.queue) (hwire : c'.wire = c.wire)
    (hstart : c'.writer.Starting → c.writer.Starting)
    (hserves : c'.writer.Serves → c.writer.Serves) (hdropped : c.writer.Dropped → c'.writer.Dropped)
    (hleft : c.writer.Left → c'.writer.Left)
    (hframed : ∀ sent, c.Framed sent → c'.Framed sent) : Quiet c c' where
  starting := hstart
  serves := hserves
  dropped := hdropped
  left := fun h => ⟨hleft h, hwire⟩
  wire := hwire ▸ List.prefix_rfl
  queue := by rw [hq]
  framed := hframed

/-- **The thread leaves the loop**, or never gets there. -/
theorem quiet_leave (hw : c.writer.Starting ∨ c.writer.Serves) (hw' : c'.writer.Left)
    (hq : c'.queue = c.queue) (hwire : c'.wire = c.wire) : Quiet c c' := by
  have hleft : ¬ c.writer.Left := hw.elim (fun h => h.not_serves_not_left.2)
    fun h => h.not_starting_not_left.2
  refine quiet_of_eq hq hwire (fun h => absurd hw' h.not_serves_not_left.2)
    (fun h => absurd hw' h.not_starting_not_left.2) (fun h => absurd h.left hleft)
    (fun _ => hw') fun sent h => ?_
  exact h.left hw' hwire fun _ => ⟨hq, fun h => hleft h.left⟩

/-- **What the threads of a connection do is quiet.** -/
theorem quiet_step {l : ConnStep} (h : c.step l = some c') : Quiet c c' := by
  rcases step_cases h with ⟨hw, hq, hwire⟩ | ⟨hw, hq, hwire⟩ | ⟨data, hw, hq, hw', hwire⟩ |
    ⟨rest, n, hw, hn, hlen, hq, hw', hwire⟩ | ⟨rest, hw, hw', hq, hwire⟩ | ⟨hw, hw', hq, hwire⟩ |
    ⟨hw, hw', hq, hwire⟩
  · refine quiet_of_eq hq hwire ?_ ?_ ?_ ?_ fun sent hf => hf.congr hw hq hwire
    all_goals
      rw [hw]
      exact id
  · -- Before the loop.
    have hstart : c.writer.Starting := by
      rcases hw with ⟨hw, -⟩ | ⟨hw, -⟩
      · exact Or.inl hw
      · exact Or.inr (Or.inl hw)
    by_cases hleft : c'.writer.Left
    · exact quiet_leave (Or.inl hstart) hleft hq hwire
    · have hstart' : c'.writer.Starting := by
        rcases hw with ⟨-, hw' | hw'⟩ | ⟨-, hw' | hw'⟩
        · exact Or.inr (Or.inl hw')
        · exact absurd (Or.inr (Or.inl hw')) hleft
        · exact Or.inr (Or.inr hw')
        · exact absurd (Or.inr (Or.inl hw')) hleft
      refine quiet_of_eq hq hwire (fun _ => hstart)
        (fun h => absurd hstart' h.not_starting_not_left.1)
        (fun h => absurd h.left hstart.not_serves_not_left.2)
        (fun h => absurd h hstart.not_serves_not_left.2) fun sent hf => ?_
      obtain ⟨frames, hsent, hframes⟩ := hf.whole
        (fun rest hwriting => hstart.not_serves_not_left.1 (Or.inr ⟨rest, hwriting⟩))
        hstart.not_serves_not_left.2
      refine ⟨frames, [], c'.queue, [], ?_, ?_, fun _ => rfl, Or.inl ⟨rfl, rfl, ?_⟩⟩
      · rw [hsent, hq, List.append_nil]
      · rw [hwire, hframes, List.append_nil]
      · exact fun rest hwriting => hstart'.not_serves_not_left.1 (Or.inr ⟨rest, hwriting⟩)
  · -- The thread takes a frame out of the channel.
    have hserves : c.writer.Serves := Or.inl hw
    have hserves' : c'.writer.Serves := hw' ▸ Writer.serves_sending data
    refine ⟨fun h => absurd hserves' h.not_serves_not_left.1, fun _ => hserves,
      fun h => absurd h.left hserves.not_starting_not_left.2,
      fun h => absurd h hserves.not_starting_not_left.2, hwire ▸ List.prefix_rfl, ?_,
      fun sent hf => ?_⟩
    · rw [hq]
      exact Nat.le_succ _
    · obtain ⟨frames, hsent, hframes⟩ := hf.whole (by simp [hw]) hserves.not_starting_not_left.2
      refine framed_sending (?_ : sent = frames ++ [[] ++ data] ++ c'.queue) ?_ hw'
      · rw [hsent, hq, List.nil_append, List.append_assoc, List.singleton_append]
      · rw [hwire, hframes, List.append_nil]
  · -- The socket accepts some bytes.
    have hserves : c.writer.Serves := Or.inr ⟨rest, hw⟩
    have hserves' : c'.writer.Serves := hw' ▸ Writer.serves_sending _
    refine ⟨fun h => absurd hserves' h.not_serves_not_left.1, fun _ => hserves,
      fun h => absurd h.left hserves.not_starting_not_left.2,
      fun h => absurd h hserves.not_starting_not_left.2, ?_, by rw [hq], fun sent hf => ?_⟩
    · rw [hwire]
      exact List.prefix_append _ _
    · obtain ⟨frames, part, -, hsent, hframes⟩ := hf.current hw
      refine framed_sending
        (?_ : sent = frames ++ [(part ++ rest.take n) ++ rest.drop n] ++ c'.queue)
        ?_ hw'
      · rw [hsent, hq, List.append_assoc part, List.take_append_drop]
      · rw [hwire, hframes, List.append_assoc]
  · exact quiet_leave (Or.inr (Or.inr ⟨rest, hw⟩)) (Or.inl hw') hq hwire
  · -- The frames in the channel are dropped.
    have hleft : c'.writer.Left := Or.inr (Or.inl hw')
    refine ⟨fun h => absurd hleft h.not_serves_not_left.2,
      fun h => absurd hleft h.not_starting_not_left.2, fun _ => Or.inl hw',
      fun _ => ⟨hleft, hwire⟩, hwire ▸ List.prefix_rfl, by simp [hq], fun sent hf => ?_⟩
    exact hf.left hleft hwire fun h => absurd (Or.inl hw') h
  · have hdropped : c'.writer.Dropped := Or.inr hw'
    refine quiet_of_eq hq hwire (fun h => absurd hdropped.left h.not_serves_not_left.2)
      (fun h => absurd hdropped.left h.not_starting_not_left.2) (fun _ => hdropped)
      (fun _ => hdropped.left) fun sent hf => ?_
    exact hf.left hdropped.left hwire fun h => absurd hdropped h

end Connection

/-! ### The history in the view of a client -/

namespace View

/-- What a step of a view shows. -/
def obs (v : View) : ViewStep → Option FanoutObs
  | .join true => some .joined
  | .broadcast bytes => some (.broadcast bytes)
  | .offer =>
    match v.conn, v.pass with
    | some c, some (bytes, _) => some (.offered bytes c)
    | _, _ => none
  | _ => none

/-- The snapshot that is still to be offered. -/
def pending (v : View) : List (List UInt8) :=
  match v.pass with
  | some (bytes, _ + 1) => [bytes]
  | _ => []

/-- **What a step shows of a view, and what it does to it.** -/
theorem obs_cases {v v' : View} {l : ViewStep} (h : v.step l = some v') :
    (v.obs l = none ∧ v.conn = none ∧ v' = { v with conn := some .new }) ∨
    (∃ c c', v.obs l = none ∧ v.conn = some c ∧ c.Quiet c' ∧ v' = { v with conn := some c' }) ∨
    (∃ c, v.obs l = some .joined ∧ v.conn = some c ∧ c.writer = .joining ∧ v.pass = none ∧
      v' = ⟨some { c with writer := .waiting }, v.kept + 1, none⟩) ∨
    (∃ bytes, v.obs l = some (.broadcast bytes) ∧ v.pass = none ∧
      v' = { v with kept := 0, pass := some (bytes, v.kept) }) ∨
    (∃ c bytes todo, v.obs l = some (.offered bytes c) ∧ v.conn = some c ∧
      v.pass = some (bytes, todo + 1) ∧
      (c.writer.Dropped ∧ v' = { v with pass := some (bytes, todo) } ∨
        ¬ c.writer.Dropped ∧
          v' = ⟨some (c.trySend bytes).2, v.kept + 1, some (bytes, todo)⟩)) ∨
    (∃ bytes, v.obs l = none ∧ v.pass = some (bytes, 0) ∧ v' = { v with pass := none }) := by
  rcases step_cases h with ⟨rfl, hc, rfl⟩ | ⟨m, c, c', rfl, hc, hm, rfl⟩ | ⟨c, hl, hc, rfl⟩ |
    ⟨c, rfl, hc, hw, hpass, rfl⟩ | ⟨bytes, rfl, hpass, rfl⟩ | ⟨c, bytes, todo, rfl, hc, hpass, hv⟩ |
    ⟨bytes, rfl, hpass, rfl⟩
  · exact Or.inl ⟨rfl, hc, rfl⟩
  · exact Or.inr (Or.inl ⟨c, c', rfl, hc, Connection.quiet_step hm, rfl⟩)
  · have hquiet : c.Quiet { c with writer := .leaving } := by
      refine Connection.quiet_leave ?_ (Or.inl rfl) rfl rfl
      exact hl.imp (fun h => Or.inr (Or.inr h.2)) fun h => Or.inl h.2
    have hobs : v.obs l = none := by rcases hl with ⟨rfl, -⟩ | ⟨rfl, -⟩ <;> rfl
    exact Or.inr (Or.inl ⟨c, _, hobs, hc, hquiet, rfl⟩)
  · exact Or.inr (Or.inr (Or.inl ⟨c, rfl, hc, hw, hpass, rfl⟩))
  · exact Or.inr (Or.inr (Or.inr (Or.inl ⟨bytes, rfl, hpass, rfl⟩)))
  · refine Or.inr (Or.inr (Or.inr (Or.inr (Or.inl ⟨c, bytes, todo, ?_, hc, hpass, hv⟩))))
    rw [obs, hc, hpass]
  · exact Or.inr (Or.inr (Or.inr (Or.inr (Or.inr ⟨bytes, rfl, hpass, rfl⟩))))

end View

/-- What a client notices of a step shows what the step does. -/
theorem Fanout.obs_view (i : ℕ) (s : Fanout) (l : FanoutStep) :
    (l.seenBy i).bind (s.view i).obs = s.obs i l := by
  cases l with
  | accept j => by_cases hj : j = i <;> simp [FanoutStep.seenBy, Fanout.obs, View.obs, hj]
  | conn j l => by_cases hj : j = i <;> simp [FanoutStep.seenBy, Fanout.obs, View.obs, hj]
  | join j ok =>
    by_cases hj : j = i <;> cases ok <;> simp [FanoutStep.seenBy, Fanout.obs, View.obs, hj]
  | starve j => by_cases hj : j = i <;> simp [FanoutStep.seenBy, Fanout.obs, View.obs, hj]
  | broadcast bytes => rfl
  | offer j =>
    by_cases hj : j = i
    · subst hj
      cases hc : s.conns[j]? <;> cases hs : s.senders <;>
        simp [FanoutStep.seenBy, Fanout.obs, View.obs, Fanout.view, hc, hs]
    · cases hc : s.conns[j]? <;> cases hs : s.senders <;>
        simp [FanoutStep.seenBy, Fanout.obs, hc, hs, hj]
  | finish => rfl

/-! ### A client is served -/

/-- How the state of a client and its history agree. -/
structure Served (v : View) (hist : List FanoutObs) : Prop where
  /-- A sender that has been registered is in the list, unless its receiver is gone. -/
  joined : .joined ∈ hist → ∃ c, v.conn = some c ∧ ¬ c.writer.Starting ∧
    (v.listed = 1 ∨ v.listed = 0 ∧ c.writer.Dropped)
  fresh : .joined ∉ hist → v.listed = 0 ∧ offers hist = [] ∧ ∀ c, v.conn = some c →
    ¬ c.writer.Serves
  framed : ∀ c, v.conn = some c → c.Framed (accepted hist)
  /-- A sender in the list is offered every snapshot. -/
  offered : ∃ missed, broadcastsSince hist = offers hist ++ v.pending ++ missed ∧
    (v.listed = 1 → missed = [])
  bounded : ∀ c, v.conn = some c → c.queue.length ≤ CHANNEL_BOUND
  slots : ∀ bytes c, .offered bytes c ∈ hist → c.queue.length ≤ CHANNEL_BOUND

variable {v v' : View} {hist : List FanoutObs}

theorem served_new : Served .new [] where
  joined := nofun
  fresh := fun _ => ⟨rfl, rfl, nofun⟩
  framed := nofun
  offered := ⟨[], rfl, fun _ => rfl⟩
  bounded := nofun
  slots := nofun

namespace Served

/-- Before the connection is accepted nothing has been taken. -/
theorem accepted_eq_nil (h : Served v hist) (hj : .joined ∉ hist) : accepted hist = [] := by
  have hsub := accepted_sublist hist
  rw [(h.fresh hj).2.1] at hsub
  exact List.sublist_nil.mp hsub

theorem accept (h : Served v hist) (hconn : v.conn = none) :
    Served { v with conn := some .new } hist := by
  have hj : .joined ∉ hist := by
    intro hj
    obtain ⟨c, hc, -⟩ := h.joined hj
    rw [hconn] at hc
    cases hc
  refine ⟨fun hj' => absurd hj' hj, fun _ => ⟨(h.fresh hj).1, (h.fresh hj).2.1, ?_⟩, ?_, h.offered,
    ?_, h.slots⟩
  · rintro c hc
    obtain rfl := Option.some.inj hc
    simp [Connection.new, Writer.Serves]
  · rintro c hc
    obtain rfl := Option.some.inj hc
    rw [h.accepted_eq_nil hj]
    exact Connection.framed_new
  · rintro c hc
    obtain rfl := Option.some.inj hc
    exact Nat.zero_le _

theorem quiet (h : Served v hist) {c c' : Connection} (hc : v.conn = some c) (hq : c.Quiet c') :
    Served { v with conn := some c' } hist := by
  refine ⟨fun hj => ?_, fun hj => ⟨(h.fresh hj).1, (h.fresh hj).2.1, ?_⟩, ?_, h.offered, ?_,
    h.slots⟩
  · obtain ⟨c₁, hc₁, hstart, hlisted⟩ := h.joined hj
    obtain rfl := Option.some.inj (hc.symm.trans hc₁)
    exact ⟨c', rfl, fun hs => hstart (hq.starting hs), hlisted.imp_right (And.imp_right hq.dropped)⟩
  · rintro c₁ hc₁
    obtain rfl := Option.some.inj hc₁
    exact fun hs => (h.fresh hj).2.2 c hc (hq.serves hs)
  · rintro c₁ hc₁
    obtain rfl := Option.some.inj hc₁
    exact hq.framed _ (h.framed c hc)
  · rintro c₁ hc₁
    obtain rfl := Option.some.inj hc₁
    exact hq.queue.trans (h.bounded c hc)

theorem join (h : Served v hist) {c : Connection} (hc : v.conn = some c)
    (hw : c.writer = .joining) (hpass : v.pass = none) :
    Served ⟨some { c with writer := .waiting }, v.kept + 1, none⟩ (hist ++ [.joined]) := by
  have hj : .joined ∉ hist := by
    intro hj
    obtain ⟨c₁, hc₁, hstart, -⟩ := h.joined hj
    obtain rfl := Option.some.inj (hc.symm.trans hc₁)
    exact hstart (Or.inr (Or.inr hw))
  have hkept : v.kept = 0 := by simpa [View.listed, hpass] using (h.fresh hj).1
  have haccepted : accepted (hist ++ [.joined]) = [] := by
    rw [accepted_concat, h.accepted_eq_nil hj]
    rfl
  obtain ⟨frames, hsent, hframes⟩ := (h.framed c hc).whole (by simp [hw])
    (by simp [hw, Writer.Left, Writer.Dropped])
  rw [h.accepted_eq_nil hj] at hsent
  obtain ⟨rfl, hqueue⟩ := List.append_eq_nil_iff.mp hsent.symm
  refine ⟨fun _ => ⟨_, rfl, ?_, Or.inl ?_⟩, fun hj' => absurd (by simp) hj', ?_,
    ⟨[], ?_, fun _ => rfl⟩,
    ?_, ?_⟩
  · simp [Writer.Starting]
  · simp [View.listed, hkept]
  · rintro c₁ hc₁
    obtain rfl := Option.some.inj hc₁
    rw [haccepted]
    exact ⟨[], [], [], [], rfl, hframes, fun _ => hqueue.symm, Or.inl ⟨rfl, rfl, by simp⟩⟩
  · rw [broadcastsSince_joined hj, offers_concat, (h.fresh hj).2.1]
    rfl
  · rintro c₁ hc₁
    obtain rfl := Option.some.inj hc₁
    exact h.bounded c hc
  · intro bytes c₁ hmem
    exact h.slots bytes c₁ (by simpa using hmem)

theorem broadcast (h : Served v hist) {bytes : List UInt8} (hpass : v.pass = none) :
    Served { v with kept := 0, pass := some (bytes, v.kept) }
      (hist ++ [.broadcast bytes]) := by
  have hlisted : ({ v with kept := 0, pass := some (bytes, v.kept) } : View).listed = v.listed := by
    simp [View.listed, hpass]
  have hmem : .joined ∈ hist ++ [.broadcast bytes] ↔ .joined ∈ hist := by simp
  have hoffers : offers (hist ++ [.broadcast bytes]) = offers hist := by
    rw [offers_concat]
    exact List.append_nil _
  have haccepted : accepted (hist ++ [.broadcast bytes]) = accepted hist := by
    rw [accepted_concat]
    exact List.append_nil _
  refine ⟨fun hj => ?_, fun hj => ?_, ?_, ?_, h.bounded, ?_⟩
  · rw [hlisted]
    exact h.joined (hmem.mp hj)
  · rw [hlisted, hoffers]
    exact h.fresh (mt hmem.mpr hj)
  · rw [haccepted]
    exact h.framed
  · rw [hlisted, hoffers]
    by_cases hj : .joined ∈ hist
    · obtain ⟨missed, hmissed, hall⟩ := h.offered
      have hpending : v.pending = [] := by simp [View.pending, hpass]
      rw [hpending, List.append_nil] at hmissed
      obtain ⟨c, -, -, hone | ⟨hzero, -⟩⟩ := h.joined hj
      · -- The sender is in the list, and is to be visited.
        have hkept : v.kept = 1 := by simpa [View.listed, hpass] using hone
        refine ⟨[], ?_, fun _ => rfl⟩
        rw [broadcastsSince_concat hj, hmissed, hall hone]
        simp [FanoutObs.broadcast?, View.pending, hkept]
      · -- The sender has been removed, and misses this snapshot as well.
        have hkept : v.kept = 0 := by simpa [View.listed, hpass] using hzero
        refine ⟨missed ++ [bytes], ?_, fun hone => by omega⟩
        rw [broadcastsSince_concat hj, hmissed]
        simp [FanoutObs.broadcast?, View.pending, hkept]
    · have hkept : v.kept = 0 := by simpa [View.listed, hpass] using (h.fresh hj).1
      refine ⟨[], ?_, fun _ => rfl⟩
      rw [broadcastsSince_of_notMem (mt hmem.mp hj), (h.fresh hj).2.1]
      simp [View.pending, hkept]
  · intro bytes' c hmem'
    exact h.slots bytes' c (by simpa using hmem')

theorem finish (h : Served v hist) {bytes : List UInt8} (hpass : v.pass = some (bytes, 0)) :
    Served { v with pass := none } hist := by
  have hlisted : ({ v with pass := none } : View).listed = v.listed := by
    simp [View.listed, hpass]
  have hpending : ({ v with pass := none } : View).pending = v.pending := by
    simp [View.pending, hpass]
  refine ⟨?_, ?_, h.framed, ?_, h.bounded, h.slots⟩
  · rw [hlisted]
    exact h.joined
  · rw [hlisted]
    exact h.fresh
  · rw [hlisted, hpending]
    exact h.offered

theorem offer (h : Served v hist) {c : Connection} {bytes : List UInt8} {todo : ℕ}
    (hc : v.conn = some c) (hpass : v.pass = some (bytes, todo + 1))
    (hv : c.writer.Dropped ∧ v' = { v with pass := some (bytes, todo) } ∨
      ¬ c.writer.Dropped ∧ v' = ⟨some (c.trySend bytes).2, v.kept + 1, some (bytes, todo)⟩) :
    Served v' (hist ++ [.offered bytes c]) := by
  have hlisted : v.listed = v.kept + (todo + 1) := by simp [View.listed, hpass]
  have hj : .joined ∈ hist := by
    by_contra hj
    have hzero := (h.fresh hj).1
    omega
  obtain ⟨c₁, hc₁, hstart, hone | ⟨hzero, -⟩⟩ := h.joined hj
  swap
  · omega
  obtain rfl := Option.some.inj (hc.symm.trans hc₁)
  obtain ⟨hkept, rfl⟩ : v.kept = 0 ∧ todo = 0 := by omega
  -- What is now offered was pending.
  have hbroadcasts : broadcastsSince (hist ++ [.offered bytes c]) =
      offers (hist ++ [.offered bytes c]) := by
    obtain ⟨missed, hmissed, hall⟩ := h.offered
    rw [broadcastsSince_concat hj, hmissed, hall hone, offers_concat]
    simp [FanoutObs.broadcast?, FanoutObs.offer?, View.pending, hpass]
  have hslots : ∀ bytes' c', .offered bytes' c' ∈ hist ++ [.offered bytes c] →
      c'.queue.length ≤ CHANNEL_BOUND := by
    intro bytes' c' hmem
    rcases List.mem_append.mp hmem with hmem | hmem
    · exact h.slots bytes' c' hmem
    · obtain ⟨-, rfl⟩ : bytes' = bytes ∧ c' = c := by simpa using hmem
      exact h.bounded c' hc
  have haccepted := accepted_concat hist (.offered bytes c)
  have hjoined : .joined ∈ hist ++ [.offered bytes c] := List.mem_append_left _ hj
  rcases hv with ⟨hdropped, rfl⟩ | ⟨hdropped, rfl⟩
  · -- The sender is removed.
    have hok : (FanoutObs.offered bytes c).isOk = false := by
      simp [FanoutObs.isOk, Connection.trySend, hdropped]
    rw [hok, if_neg Bool.false_ne_true, List.append_nil] at haccepted
    refine ⟨fun _ => ⟨c, hc, hstart, Or.inr ⟨?_, hdropped⟩⟩, fun hj' => absurd hjoined hj', ?_,
      ⟨[], ?_, fun _ => rfl⟩, h.bounded, hslots⟩
    · simp [View.listed, hkept]
    · rw [haccepted]
      exact h.framed
    · rw [hbroadcasts]
      simp [View.pending]
  · -- The sender is kept.
    have hkeeps : (c.trySend bytes).2.writer = c.writer ∧
        (c.trySend bytes).2.queue.length ≤ CHANNEL_BOUND ∧
        (c.trySend bytes).2.Framed (accepted (hist ++ [.offered bytes c])) := by
      rcases c.trySend_cases bytes with ⟨hd, -⟩ | ⟨-, hroom, hsend⟩ | ⟨-, -, hsend⟩
      · exact absurd hd hdropped
      · -- The channel has room.
        have hok : (FanoutObs.offered bytes c).isOk = true := by simp [FanoutObs.isOk, hsend]
        rw [hok, if_pos rfl] at haccepted
        rw [hsend, haccepted]
        refine ⟨rfl, ?_, (h.framed c hc).push hdropped⟩
        simpa using Nat.succ_le_of_lt hroom
      · -- The channel is full, and the snapshot is skipped.
        have hok : (FanoutObs.offered bytes c).isOk = false := by simp [FanoutObs.isOk, hsend]
        rw [hok, if_neg Bool.false_ne_true, List.append_nil] at haccepted
        rw [hsend, haccepted]
        exact ⟨rfl, h.bounded c hc, h.framed c hc⟩
    refine ⟨fun _ => ⟨_, rfl, ?_, Or.inl ?_⟩, fun hj' => absurd hjoined hj', ?_,
      ⟨[], ?_, fun _ => rfl⟩, ?_, hslots⟩
    · rw [hkeeps.1]
      exact hstart
    · simp [View.listed, hkept]
    · rintro c₁ hc₁
      obtain rfl := Option.some.inj hc₁
      exact hkeeps.2.2
    · rw [hbroadcasts]
      simp [View.pending]
    · rintro c₁ hc₁
      obtain rfl := Option.some.inj hc₁
      exact hkeeps.2.1

/-- **Every step serves the client.** -/
theorem step (h : Served v hist) {l : ViewStep} (hstep : v.step l = some v') :
    Served v' (hist ++ (v.obs l).toList) := by
  rcases View.obs_cases hstep with ⟨hobs, hc, rfl⟩ | ⟨c, c', hobs, hc, hq, rfl⟩ |
    ⟨c, hobs, hc, hw, hpass, rfl⟩ | ⟨bytes, hobs, hpass, rfl⟩ |
    ⟨c, bytes, todo, hobs, hc, hpass, hv⟩ | ⟨bytes, hobs, hpass, rfl⟩
  all_goals
    rw [hobs]
    simp only [Option.toList_none, Option.toList_some, List.append_nil]
  · exact h.accept hc
  · exact h.quiet hc hq
  · exact h.join hc hw hpass
  · exact h.broadcast hpass
  · exact h.offer hc hpass hv
  · exact h.finish hpass

end Served

/-- **A client is served in every run.** -/
theorem served_view (i : ℕ) {ls : List FanoutStep} {s : Fanout}
    (h : exec Fanout.step .new ls = some s) : Served (s.view i) (fanoutHistory i ls) := by
  have hhist : observe View.step View.obs .new (ls.filterMap (FanoutStep.seenBy i)) =
      fanoutHistory i ls :=
    observe_filterMap (Fanout.view i) (FanoutStep.seenBy i) (fun _ _ _ => Fanout.step_view i)
      (fun s l _ _ => s.obs_view i l) h
  rw [← hhist]
  exact exec_observe (R := Served) (C := fun _ _ => True) (fun _ _ _ _ _ hS => hS.step)
    (meets_of_forall (fun _ _ => trivial) _ _) served_new (Fanout.exec_view i h)

/-! ### What only grows -/

namespace View

variable {l : ViewStep} {c : Connection}

/-- A connection stays, what is written to it stays written, and a thread that has left the loop
writes nothing more. -/
theorem step_conn (h : v.step l = some v') (hc : v.conn = some c) :
    ∃ c', v'.conn = some c' ∧ c.wire <+: c'.wire ∧
      (c.writer.Left → c'.writer.Left ∧ c'.wire = c.wire) ∧
      (c.writer.Dropped → c'.writer.Dropped) := by
  rcases obs_cases h with ⟨-, hc₁, -⟩ | ⟨c₁, c', -, hc₁, hq, rfl⟩ |
    ⟨c₁, -, hc₁, hw, -, rfl⟩ | ⟨bytes, -, -, rfl⟩ | ⟨c₁, bytes, todo, -, hc₁, -, hv⟩ |
    ⟨bytes, -, -, rfl⟩
  · rw [hc] at hc₁
    cases hc₁
  · obtain rfl := Option.some.inj (hc.symm.trans hc₁)
    exact ⟨c', rfl, hq.wire, hq.left, hq.dropped⟩
  · obtain rfl := Option.some.inj (hc.symm.trans hc₁)
    have hleft : ¬ c.writer.Left := by simp [hw, Writer.Left, Writer.Dropped]
    exact ⟨_, rfl, List.prefix_rfl, fun h => absurd h hleft, fun h => absurd h.left hleft⟩
  · exact ⟨c, hc, List.prefix_rfl, fun h => ⟨h, rfl⟩, id⟩
  · obtain rfl := Option.some.inj (hc.symm.trans hc₁)
    rcases hv with ⟨-, rfl⟩ | ⟨-, rfl⟩
    · exact ⟨c, hc, List.prefix_rfl, fun h => ⟨h, rfl⟩, id⟩
    · obtain ⟨queue, hsend⟩ := c.trySend_frame bytes
      exact ⟨_, congrArg some hsend, List.prefix_rfl, fun h => ⟨h, rfl⟩, id⟩
  · exact ⟨c, hc, List.prefix_rfl, fun h => ⟨h, rfl⟩, id⟩

theorem exec_conn {ls : List ViewStep} (h : exec View.step v ls = some v')
    (hc : v.conn = some c) :
    ∃ c', v'.conn = some c' ∧ c.wire <+: c'.wire ∧ (c.writer.Left → c'.wire = c.wire) := by
  have hrun := exec_invariant (I := fun u => ∃ c', u.conn = some c' ∧ c.wire <+: c'.wire ∧
    (c.writer.Left → c'.writer.Left ∧ c'.wire = c.wire)) ?_ ?_ h
  · obtain ⟨c', hc', hwire, hleft⟩ := hrun
    exact ⟨c', hc', hwire, fun h => (hleft h).2⟩
  · rintro u l u' ⟨c₁, hc₁, hwire, hleft⟩ hstep
    obtain ⟨c₂, hc₂, hwire', hleft', -⟩ := step_conn hstep hc₁
    refine ⟨c₂, hc₂, hwire.trans hwire', fun h => ?_⟩
    obtain ⟨hl, heq⟩ := hleft h
    exact ⟨(hleft' hl).1, (hleft' hl).2.trans heq⟩
  · exact ⟨c, hc, List.prefix_rfl, fun h => ⟨h, rfl⟩⟩

/-- The receiver is gone, and the sender is not among those that are kept. -/
def Removed (v : View) : Prop := v.kept = 0 ∧ ∃ c, v.conn = some c ∧ c.writer.Dropped

theorem removed_step (hr : v.Removed) (h : v.step l = some v') : v'.Removed := by
  obtain ⟨hkept, c, hc, hdropped⟩ := hr
  obtain ⟨c', hc', -, -, hdropped'⟩ := step_conn h hc
  refine ⟨?_, c', hc', hdropped' hdropped⟩
  rcases obs_cases h with ⟨-, -, rfl⟩ | ⟨c₁, c₂, -, -, -, rfl⟩ | ⟨c₁, -, hc₁, hw, -, rfl⟩ |
    ⟨bytes, -, -, rfl⟩ | ⟨c₁, bytes, todo, -, hc₁, -, ⟨-, rfl⟩ | ⟨hnot, rfl⟩⟩ | ⟨bytes, -, -, rfl⟩
  · exact hkept
  · exact hkept
  · obtain rfl := Option.some.inj (hc.symm.trans hc₁)
    rw [hw] at hdropped
    exact absurd hdropped (by simp [Writer.Dropped])
  · rfl
  · exact hkept
  · obtain rfl := Option.some.inj (hc.symm.trans hc₁)
    exact absurd hdropped hnot
  · exact hkept

end View

/-! ### The rest of the list is visited whatever happens -/

namespace Fanout

variable {s : Fanout}

/-- A sender in the list has a connection. -/
theorem exists_conn_of_mem {ls : List FanoutStep} (h : exec step .new ls = some s) {j : ℕ}
    (hj : j ∈ s.senders.all) : ∃ c, s.conns[j]? = some c := by
  have hS := served_view j h
  by_cases hjoined : .joined ∈ fanoutHistory j ls
  · obtain ⟨c, hc, -⟩ := hS.joined hjoined
    exact ⟨c, hc⟩
  · have hlisted := (hS.fresh hjoined).1
    rw [listed_view, List.count_eq_zero] at hlisted
    exact absurd hj hlisted

/-- **`update_streams` never waits**: it can go on to its end at once. -/
theorem isSome_exec_offers {bytes : List UInt8} {kept todo : List ℕ}
    (hs : s.senders = .retain bytes kept todo) (hconns : ∀ j ∈ todo, ∃ c, s.conns[j]? = some c) :
    (exec step s (todo.map .offer ++ [.finish])).isSome := by
  induction todo generalizing s kept with
  | nil => simp [exec_cons, step, hs]
  | cons j todo ih =>
    obtain ⟨c, hc⟩ := hconns j (List.mem_cons_self ..)
    obtain ⟨s', kept', hstep, hs', hlen⟩ : ∃ s' kept', s.step (.offer j) = some s' ∧
        s'.senders = .retain bytes kept' todo ∧ s'.conns.length = s.conns.length := by
      rcases c.trySend_cases bytes with ⟨-, hsend⟩ | ⟨-, -, hsend⟩ | ⟨-, -, hsend⟩
      · refine ⟨{ s with senders := .retain bytes kept todo }, kept, ?_, rfl, rfl⟩
        simp only [step, hc, hs, hsend, ne_eq, not_true_eq_false, if_false]
      all_goals
        refine ⟨⟨s.conns.set j (c.trySend bytes).2, .retain bytes (kept ++ [j]) todo⟩, kept ++ [j],
          ?_, rfl, List.length_set⟩
        simp only [step, hc, hs, hsend, ne_eq, not_true_eq_false, if_false]
    rw [List.map_cons, List.cons_append, exec_cons, hstep, Option.bind_some]
    refine ih hs' fun k hk => ?_
    obtain ⟨c', hc'⟩ := hconns k (List.mem_cons_of_mem _ hk)
    obtain ⟨hk', -⟩ := List.getElem?_eq_some_iff.mp hc'
    exact ⟨_, List.getElem?_eq_getElem (hlen ▸ hk')⟩

end Fanout

/-! ### What a client gets -/

/-- The snapshot that is still to be offered to client `i`. -/
def Senders.pending (i : ℕ) : Senders → List (List UInt8)
  | .unlocked _ => []
  | .retain bytes _ todo => if i ∈ todo then [bytes] else []

theorem Fanout.pending_view (i : ℕ) (s : Fanout) : (s.view i).pending = s.senders.pending i := by
  cases hs : s.senders with
  | unlocked senders => simp [View.pending, view, Senders.pending, hs]
  | retain bytes kept todo =>
    by_cases hi : i ∈ todo
    · obtain ⟨n, hn⟩ : ∃ n, todo.count i = n + 1 :=
        ⟨todo.count i - 1, (Nat.succ_pred_eq_of_pos (List.count_pos_iff.mpr hi)).symm⟩
      simp [View.pending, view, Senders.pending, hs, hi, hn]
    · simp [View.pending, view, Senders.pending, hs, hi, List.count_eq_zero.mpr hi]

/-- What holds of client `i` with connection `c` after a run. -/
structure Isolated (i : ℕ) (ls : List FanoutStep) (s : Fanout) (c : Connection) : Prop where
  /-- Whole frames are on the wire, and at most one that is cut: it is being written, or the
  thread has left the loop. -/
  frames : ∃ frames part, c.wire = frames.flatten ++ part ∧
    (part = [] ∧ frames <+: accepted (fanoutHistory i ls) ∨
      ∃ rest, rest ≠ [] ∧ frames ++ [part ++ rest] <+: accepted (fanoutHistory i ls) ∧
        (c.writer = .writing rest ∨ c.writer.Left))
  /-- They are of snapshots handed out since the registration, in their order. -/
  inOrder : (accepted (fanoutHistory i ls)).Sublist (broadcastsSince (fanoutHistory i ls))
  /-- What is on the wire stays, and nothing follows once the thread has left the loop. -/
  stays : ∀ ls' t, exec Fanout.step s ls' = some t → ∃ c', t.conns[i]? = some c' ∧
    c.wire <+: c'.wire ∧ (c.writer.Left → c'.wire = c.wire)
  /-- Every snapshot handed out since the registration has been offered, or is about to be. -/
  offered : .joined ∈ fanoutHistory i ls → ¬ c.writer.Dropped →
    broadcastsSince (fanoutHistory i ls) = offers (fanoutHistory i ls) ++ s.senders.pending i
  /-- What was offered to a live thread and not taken met a full channel. -/
  full : ∀ bytes c', .offered bytes c' ∈ fanoutHistory i ls → ¬ c'.writer.Dropped →
    (c'.trySend bytes).1 ≠ .ok → c'.queue.length = CHANNEL_BOUND
  /-- The steps of the others do not matter. -/
  alone : ∀ ls' s', exec Fanout.step .new ls' = some s' →
    ls'.filterMap (FanoutStep.seenBy i) = ls.filterMap (FanoutStep.seenBy i) →
    s'.conns[i]? = some c
  /-- Nobody can keep `update_streams` from going on to its end. -/
  finishes : ∀ bytes kept todo, s.senders = .retain bytes kept todo →
    (exec Fanout.step s (todo.map .offer ++ [.finish])).isSome
  /-- The next snapshot removes the sender of a receiver that is gone, for good. -/
  removed : c.writer.Dropped → ∀ bytes ls' t senders,
    exec Fanout.step s (.broadcast bytes :: ls') = some t → t.senders = .unlocked senders →
    i ∉ senders
  /-- No other sender is removed. -/
  kept : .joined ∈ fanoutHistory i ls → i ∈ s.senders.all ∨ c.writer.Dropped

/-- **A client gets what is its due, whatever the others do**: any number of clients, any
interleaving of their threads with `update_streams`, and writes that fail anywhere. -/
theorem fanout_isolated {ls : List FanoutStep} {s : Fanout}
    (h : exec Fanout.step .new ls = some s) {i : ℕ} {c : Connection}
    (hc : s.conns[i]? = some c) : Isolated i ls s c := by
  have hS := served_view i h
  have hview : (s.view i).conn = some c := hc
  refine ⟨?_, ?_, ?_, ?_, ?_, ?_, ?_, ?_, ?_⟩
  · obtain ⟨frames, cut, more, part, hsent, hwire, -, hcut⟩ := hS.framed c hview
    refine ⟨frames, part, hwire, ?_⟩
    rcases hcut with ⟨rfl, rfl, -⟩ | ⟨rest, hne, rfl, hw⟩
    · exact Or.inl ⟨rfl, more, by rw [hsent, List.append_nil]⟩
    · exact Or.inr ⟨rest, hne, ⟨more, hsent.symm⟩, hw⟩
  · obtain ⟨missed, hmissed, -⟩ := hS.offered
    refine (accepted_sublist _).trans ?_
    rw [hmissed, List.append_assoc]
    exact List.sublist_append_left _ _
  · intro ls' t ht
    exact View.exec_conn (Fanout.exec_view i ht) hview
  · intro hjoined hdropped
    obtain ⟨missed, hmissed, hall⟩ := hS.offered
    obtain ⟨c', hc', -, hone | ⟨-, hdropped'⟩⟩ := hS.joined hjoined
    · rw [hmissed, hall hone, List.append_nil, Fanout.pending_view]
    · obtain rfl := Option.some.inj (hview.symm.trans hc')
      exact absurd hdropped' hdropped
  · intro bytes c' hmem hdropped hok
    refine Nat.le_antisymm (hS.slots bytes c' hmem) ?_
    rcases c'.trySend_cases bytes with ⟨hd, -⟩ | ⟨-, -, hsend⟩ | ⟨-, hfull, -⟩
    · exact absurd hd hdropped
    · rw [hsend] at hok
      exact absurd rfl hok
    · exact hfull
  · intro ls' s' h' hsame
    have hrun := Fanout.exec_view i h'
    rw [hsame, Fanout.view_new, ← Fanout.view_new i, Fanout.exec_view i h] at hrun
    rw [← Fanout.view_conn, ← Option.some.inj hrun, hview]
  · intro bytes kept todo hs
    refine Fanout.isSome_exec_offers hs fun j hj => Fanout.exists_conn_of_mem h ?_
    rw [hs]
    exact List.mem_append_right _ hj
  · intro hdropped bytes ls' t senders ht hsenders
    have hrun := Fanout.exec_view i ht
    obtain ⟨v₁, hv₁, hrest⟩ : ∃ v₁, (s.view i).step (.broadcast bytes) = some v₁ ∧
        exec View.step v₁ (ls'.filterMap (FanoutStep.seenBy i)) = some (t.view i) :=
      exec_cons_eq_some.mp hrun
    have hfirst : v₁.Removed := by
      obtain ⟨c₁, hc₁, -, -, hdropped₁⟩ := View.step_conn hv₁ hview
      refine ⟨?_, c₁, hc₁, hdropped₁ hdropped⟩
      simp only [View.step] at hv₁
      split at hv₁
      case h_1 =>
        obtain rfl := Option.some.inj hv₁
        rfl
      case h_2 => cases hv₁
    have hlast := (exec_invariant (fun _ _ _ => View.removed_step) hfirst hrest).1
    simp only [Fanout.view, hsenders, List.count_eq_zero] at hlast
    exact hlast
  · intro hjoined
    obtain ⟨c', hc', -, hone | ⟨-, hdropped⟩⟩ := hS.joined hjoined
    · rw [Fanout.listed_view] at hone
      exact Or.inl (List.count_pos_iff.mp (by omega))
    · obtain rfl := Option.some.inj (hview.symm.trans hc')
      exact Or.inr hdropped

/-- Two clients: the second gets half a frame before its write fails, and is removed by the next
snapshot; the first has not read anything yet. -/
def failingRun : List FanoutStep :=
  [.accept 0, .conn 0 (.command true), .conn 0 (.arm true), .join 0 true,
    .accept 1, .conn 1 (.command true), .conn 1 (.arm true), .join 1 true,
    .broadcast [2, 0, 7, 7], .offer 0, .offer 1, .finish,
    .conn 1 .recv, .conn 1 (.write 2), .conn 1 .fail, .conn 1 .dropReceiver,
    .broadcast [2, 0, 8, 8], .offer 0, .offer 1, .finish]

theorem fanout_isolated_failing :
    ∃ s c, exec Fanout.step .new failingRun = some s ∧ s.conns[1]? = some c ∧ c.wire = [2, 0] ∧
      s.senders = .unlocked [0] ∧ Isolated 1 failingRun s c := by
  obtain ⟨s, hs, hp⟩ := exists_exec_of_any Fanout.step .new failingRun
    (fun s => s.conns[1]?.any (·.wire = [2, 0]) && s.senders = .unlocked [0]) (by decide +kernel)
  rw [Bool.and_eq_true, Option.any_eq_true, decide_eq_true_eq] at hp
  obtain ⟨⟨c, hc, hwire⟩, hsenders⟩ := hp
  exact ⟨s, c, hs, hc, of_decide_eq_true hwire, hsenders, fanout_isolated hs hc⟩

end Procnet
