import Procnet.System.Service
import Procnet.Tui.Feed

/-!
# From the main loop to the screen

What a client shows has come a long way: an iteration of the main loop builds a snapshot and
serializes it, `update_streams` offers it to the channel of the client, which may be full, a thread
writes it to the socket, where a write may fail, the client reads it in other pieces, and its main
thread takes it out of a channel, and drops it while it is paused. `shown_was_built` is about the
whole way, for any interleaving of all of these threads and any number of other clients.
-/

namespace Procnet

open Lib

/-- A snapshot that has been sent is read as it was. -/
theorem Daemon.Sends.reads {e : Endian} {snap : SnapshotData} (h : Daemon.Sends e snap) :
    Reads SnapshotData.codec.decode (SnapshotData.codec.encode snap) snap := by
  obtain ⟨ls, d, events, m, -, -, -, hw, rfl⟩ := h
  have hlen := (writeMsg_ok hw).1
  rw [SnapshotRef.serialize_eq] at hlen
  exact ⟨hlen, Codec.reads_encode SnapshotData.fits_codec hlen⟩

/-- What is observed of the snapshots handed out. -/
theorem broadcasts_fanoutHistory (i : ℕ) {ls : List FanoutStep} {s : Fanout}
    (h : exec Fanout.step .new ls = some s) :
    (fanoutHistory i ls).filterMap FanoutObs.broadcast? = handedOut ls := by
  suffices hall : ∀ u, exec Fanout.step u ls = some s →
      (observe Fanout.step (Fanout.obs i) u ls).filterMap FanoutObs.broadcast? = handedOut ls from
    hall _ h
  clear h
  induction ls with
  | nil => exact fun _ _ => rfl
  | cons l ls ih =>
    intro u hu
    obtain ⟨u', hu', hs⟩ := exec_cons_eq_some.mp hu
    have hfirst : (Fanout.obs i u l).toList.filterMap FanoutObs.broadcast? = handedOut [l] := by
      cases l with
      | accept j => rfl
      | conn j m => rfl
      | join j ok =>
        cases ok with
        | true => by_cases hj : j = i <;> simp [Fanout.obs, hj, FanoutObs.broadcast?, handedOut]
        | false => rfl
      | starve j => rfl
      | broadcast bytes => rfl
      | offer j =>
        simp only [Fanout.obs]
        split
        · by_cases hj : j = i <;> simp [hj, FanoutObs.broadcast?, handedOut]
        · rfl
      | finish => rfl
    have hsplit : handedOut (l :: ls) = handedOut [l] ++ handedOut ls :=
      List.filterMap_append (l := [l]) ..
    rw [observe_cons hu', List.filterMap_append, ih u' hs, hfirst, hsplit]

/-- **What is on the wire of a connection** are frames of snapshots that have been built. -/
theorem Composed.wire {e : Endian} {s : Service} {hist : List SnapshotData}
    (h : Composed e s hist) {i : ℕ} {k : Connection} (hk : s.fanout.conns[i]? = some k) :
    ∃ msgs : List SnapshotData, msgs.Sublist hist ∧
      k.wire <+: (msgs.map SnapshotData.frame).flatten := by
  obtain ⟨ls, hls, hout⟩ := h.fanout
  have hS := served_view i hls
  obtain ⟨frames, cut, more, part, hsent, hwire, -, hcut⟩ := hS.framed k hk
  obtain ⟨missed, hmissed, -⟩ := hS.offered
  have hsub : (frames ++ cut).Sublist (hist.map SnapshotData.frame) := by
    have htaken : (frames ++ cut).Sublist (accepted (fanoutHistory i ls)) := by
      rw [hsent]
      exact List.sublist_append_left _ _
    have hoffered : (offers (fanoutHistory i ls)).Sublist
        (broadcastsSince (fanoutHistory i ls)) := by
      rw [hmissed, List.append_assoc]
      exact List.sublist_append_left _ _
    have hsince : (broadcastsSince (fanoutHistory i ls)).Sublist (handedOut ls) := by
      rw [← broadcasts_fanoutHistory i hls]
      exact (List.dropWhile_sublist _).filterMap _
    have hbuilt : (handedOut ls).Sublist (hist.map SnapshotData.frame) := by
      rw [← hout]
      exact List.sublist_append_left _ _
    exact htaken.trans ((accepted_sublist _).trans (hoffered.trans (hsince.trans hbuilt)))
  obtain ⟨msgs, hmsgs, heq⟩ := List.sublist_map_iff.mp hsub
  refine ⟨msgs, hmsgs, ?_⟩
  rw [← heq, hwire]
  rcases hcut with ⟨rfl, rfl, -⟩ | ⟨rest, -, rfl, -⟩
  · rw [List.append_nil, List.append_nil]
  · rw [List.flatten_append, List.flatten_singleton, ← List.append_assoc]
    exact List.prefix_append _ _

/-- What is shown is a snapshot of the stream, or nothing yet. -/
theorem nthShown_cases (msgs : List SnapshotData) (j : ℕ) :
    nthShown msgs j = blank ∨ nthShown msgs j ∈ msgs := by
  unfold nthShown
  cases hget : (blank :: msgs)[j]? with
  | none => exact Or.inl rfl
  | some snap => exact List.mem_cons.mp (List.mem_of_getElem? hget)

/-- **What a client does with what is on its wire.** -/
theorem Composed.feed {e : Endian} {s : Service} {hist : List SnapshotData} {i : ℕ}
    {k : Connection} {command : Option Command} {ks : List ClientStep} {c : ClientProcess}
    (h : Composed e s hist) (hk : s.fanout.conns[i]? = some k)
    (hc : Lib.exec ClientProcess.step (.start command) ks = some c)
    (hsource : c.source.bytes <+: k.wire) :
    ∃ msgs : List SnapshotData, msgs.Sublist hist ∧ (∀ snap ∈ msgs, Daemon.Sends e snap) ∧
      c.Feed (ClientProcess.history command ks) msgs
        (completeFrames (msgs.map SnapshotData.frame) c.source.bytes.length) := by
  obtain ⟨msgs, hmsgs, hwire⟩ := h.wire hk
  have hsends : ∀ snap ∈ msgs, Daemon.Sends e snap := fun snap hmem =>
    h.sends snap (hmsgs.subset hmem)
  have hframes : (msgs.map SnapshotData.codec.encode).map Procnet.frame =
      msgs.map SnapshotData.frame :=
    List.map_map ..
  have hreads : List.Forall₂ (Reads SnapshotData.codec.decode)
      (msgs.map SnapshotData.codec.encode) msgs := by
    rw [List.forall₂_map_left_iff, List.forall₂_same]
    exact fun snap hmem => (hsends snap hmem).reads
  refine ⟨msgs, hmsgs, hsends, ?_⟩
  rw [← hframes]
  refine ClientProcess.feed_of_delivered hc hreads (hsource.trans ?_)
  rw [hframes]
  exact hwire

/-- **A client shows what the daemon has built, and nothing else.** Let a client read some first
part of what is on the wire of a connection, in any pieces, in a run of the service with any number
of other clients. It panics where its terminal cannot be set up, and nowhere else; and there are
snapshots, built by iterations of the main loop in this order, each as such a run builds it, which
it receives, takes and shows in order, whole ones only; a client that is told of the hangup has
taken all that were delivered. -/
theorem shown_was_built (e : Endian) {ls : List ServiceStep} {s : Service} {i : ℕ} {k : Connection}
    {command : Option Command} {ks : List ClientStep} {c : ClientProcess}
    (h : exec (Service.step e) .new ls = some s) (hk : s.fanout.conns[i]? = some k)
    (hc : exec ClientProcess.step (.start command) ks = some c)
    (hsource : c.source.bytes <+: k.wire) :
    ((∃ point, c.main = .panicked point) ↔ ClientStep.tuiNew false ∈ ks) ∧
      ∃ msgs : List SnapshotData, msgs.Sublist (Service.builtOf e ls) ∧
        (∀ snap ∈ msgs, Daemon.Sends e snap) ∧
        c.Feed (ClientProcess.history command ks) msgs
          (completeFrames (msgs.map SnapshotData.frame) c.source.bytes.length) := by
  exact ⟨ClientProcess.panicked_iff hc, (Composed.exec h).feed hk hc hsource⟩

/-- What its socket delivers. -/
def servedSource : Source :=
  Source.putBack ((SnapshotData.frame ⟨1000, 1, [], []⟩).take 7)
    (Source.putBack ((SnapshotData.frame ⟨1000, 1, [], []⟩).drop 7 ++ [32, 0, 232]) [])

/-- It shows the first snapshot. -/
def servedClient : List ClientStep :=
  [.connect (some servedSource), .clone true, .send none, .tuiNew true, .receive, .tryRecv,
    .tryRecv, .draw (some 5)]

theorem shown_was_built_served :
    ∃ msgs : List SnapshotData, msgs.Sublist [⟨1000, 1, [], []⟩, ⟨1000, 2, [], []⟩] ∧
      ∃ ks : List ℕ, drawnOf (ClientProcess.history none servedClient) =
        ks.map (nthShown msgs) ∧
      drawnOf (ClientProcess.history none servedClient) = [⟨1000, 1, [], []⟩] := by
  obtain ⟨s, hs, hp⟩ := exists_exec_of_any (Service.step .little) .new servedRun
    (fun s => s.fanout.conns[0]?.any fun k => decide (servedSource.bytes <+: k.wire))
    (by decide +kernel)
  obtain ⟨k, hk, hwire⟩ := (Option.any_eq_true _ _).mp hp
  obtain ⟨c, hc, hsource⟩ := exists_exec_of_any ClientProcess.step (.start none) servedClient
    (fun c => c.source = servedSource) (by decide +kernel)
  have hbuilt : Service.builtOf .little servedRun = [⟨1000, 1, [], []⟩, ⟨1000, 2, [], []⟩] := by
    decide +kernel
  obtain ⟨-, msgs, hmsgs, -, hfeed⟩ := shown_was_built .little hs hk hc
    (by rw [of_decide_eq_true hsource]; exact of_decide_eq_true hwire)
  obtain ⟨ks, -, -, hdrawn⟩ := hfeed.drawn
  exact ⟨msgs, hbuilt ▸ hmsgs, ks, hdrawn, by decide +kernel⟩

end Procnet
