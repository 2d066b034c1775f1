import Procnet.Bpf.Kernel

/-!
# Start events

The call that inserts an entry announces it: it reserves a record in the ring buffer and
submits it. Other calls, exits and insertions happen in between. This module follows an
announcement from the insertion to the ring: where the announcements of a state come from
(`Kernel.announces_step`, `Kernel.mem_events_step`), that a record stays in the ring
(`Kernel.events_step`), and that no two calls announce the same entry (`Kernel.Announcing`).
-/

namespace Procnet

open Lib

namespace Kernel

variable {n : ℕ} {k k' : Kernel n}

/-- **Where an announcement comes from**: the call has just inserted the entry, has just
reserved the record, or is left as it was. -/
theorem announces_step {l : KernelStep n} (h : k.step l = some k') {cpu : Fin n} {c : Call}
    (hc : c ∈ k'.calls cpu) {id : ℕ} (hid : id ∈ c.pc.announces) :
    (c ∈ k.calls cpu ∧ l ≠ .run cpu) ∨
    ∃ d ∈ k.calls cpu, l = .run cpu ∧ d.thread = c.thread ∧
      ((k.Inserts l c.thread.tgid ∧ c.pc = .reserve id ∧ id = k.nextId) ∨
        (d.pc = .reserve id ∧ c.pc = .submit id ∧
          k'.events = k.events ++ [⟨c.thread.tgid, id, false⟩])) := by
  rcases mem_calls_step h hc with hold | ⟨-, hpc, -⟩ | ⟨d, hd, rfl, hthread⟩
  · exact Or.inl hold
  · simp [hpc, Pc.announces] at hid
  · refine Or.inr ⟨d, hd, rfl, hthread, ?_⟩
    obtain rfl : k.accountBytes cpu d = k' := by simpa [step, Option.mem_def.mp hd] using h
    rcases accountBytes_cases k cpu d with ⟨c', hq, heq⟩ | ⟨id', -, heq⟩ |
      ⟨stats, hpc, hins, heq⟩ | ⟨id', hpc, -, heq⟩ | ⟨id', -, -, heq⟩ | ⟨id', -, heq⟩ <;>
      rw [heq] at hc ⊢
    · have hc' : c ∈ c' := by simpa using hc
      rw [(hq.2 c hc').2] at hid
      cases hid
    · simp [ret] at hc
    · obtain rfl : { d with pc := .reserve k.nextId } = c := by simpa [goto] using hc
      obtain rfl : k.nextId = id := by simpa [Pc.announces] using hid
      have hnew := BoundedMap.insertNew_eq_some hins
      exact Or.inl ⟨⟨cpu, d, hd, rfl, hpc, rfl, hnew.1, hnew.2.1⟩, rfl, rfl⟩
    · obtain rfl : { d with pc := .submit id' } = c := by simpa [goto] using hc
      obtain rfl : id' = id := by simpa [Pc.announces] using hid
      exact Or.inr ⟨hpc, rfl, rfl⟩
    · simp [ret] at hc
    · simp [ret] at hc

/-- **Where a record comes from**: it was there, or a call has just reserved it. -/
theorem mem_events_step {l : KernelStep n} (h : k.step l = some k') {r' : StartRecord}
    (hr : r' ∈ k'.events) :
    (∃ r ∈ k.events, r.tgid = r'.tgid ∧ r.entry = r'.entry) ∨
    ∃ cpu, ∃ d ∈ k.calls cpu, l = .run cpu ∧ d.thread.tgid = r'.tgid ∧
      d.pc = .reserve r'.entry := by
  rcases step_cases h with ⟨u, rfl, -, rfl⟩ |
    ⟨cpu, u, addr, sent, recv, protocol, rfl, -, -, -, rfl⟩ |
    ⟨cpu, d, rfl, hd, rfl⟩ | ⟨u, rfl, -, -, rfl⟩
  · exact Or.inl ⟨r', hr, rfl, rfl⟩
  · exact Or.inl ⟨r', hr, rfl, rfl⟩
  · rcases accountBytes_cases k cpu d with ⟨c', -, heq⟩ | ⟨id, -, heq⟩ | ⟨stats, -, -, heq⟩ |
      ⟨id, hpc, -, heq⟩ | ⟨id, -, -, heq⟩ | ⟨id, -, heq⟩ <;> rw [heq] at hr
    · exact Or.inl ⟨r', hr, rfl, rfl⟩
    · exact Or.inl ⟨r', hr, rfl, rfl⟩
    · exact Or.inl ⟨r', hr, rfl, rfl⟩
    · rcases List.mem_append.mp hr with hr | hr
      · exact Or.inl ⟨r', hr, rfl, rfl⟩
      · obtain rfl := List.mem_singleton.mp hr
        exact Or.inr ⟨cpu, d, hd, rfl, rfl, hpc⟩
    · exact Or.inl ⟨r', hr, rfl, rfl⟩
    · obtain ⟨r, hmem, rfl⟩ := List.mem_map.mp hr
      refine Or.inl ⟨r, hmem, ?_⟩
      split_ifs <;> exact ⟨rfl, rfl⟩
  · refine Or.inl ⟨r', ?_, rfl, rfl⟩
    rw [procnetSchedProcessExit] at hr
    split_ifs at hr <;> exact hr

/-- **The ring grows by the records that are reserved**, one at a time and at its end. -/
theorem entries_events_step {l : KernelStep n} (h : k.step l = some k') :
    k'.events.map StartRecord.entry = k.events.map StartRecord.entry ∨
    ∃ cpu, ∃ d ∈ k.calls cpu, ∃ id, l = .run cpu ∧ d.pc = .reserve id ∧
      k'.events.map StartRecord.entry = k.events.map StartRecord.entry ++ [id] := by
  rcases step_cases h with ⟨u, rfl, -, rfl⟩ |
    ⟨cpu, u, addr, sent, recv, protocol, rfl, -, -, -, rfl⟩ |
    ⟨cpu, d, rfl, hd, rfl⟩ | ⟨u, rfl, -, -, rfl⟩
  · exact Or.inl rfl
  · exact Or.inl rfl
  · rcases accountBytes_cases k cpu d with ⟨c', -, heq⟩ | ⟨id, -, heq⟩ | ⟨stats, -, -, heq⟩ |
      ⟨id, hpc, -, heq⟩ | ⟨id, -, -, heq⟩ | ⟨id, -, heq⟩ <;> rw [heq]
    · exact Or.inl rfl
    · exact Or.inl rfl
    · exact Or.inl rfl
    · exact Or.inr ⟨cpu, d, hd, id, rfl, hpc, by simp⟩
    · exact Or.inl rfl
    · refine Or.inl ?_
      simp only [List.map_map]
      refine List.map_congr_left fun r _ => ?_
      simp only [Function.comp_apply]
      split_ifs <;> rfl
  · refine Or.inl ?_
    rw [procnetSchedProcessExit]
    split_ifs <;> rfl

/-- **A record stays in the ring**, and is submitted only by the call that reserved it. -/
theorem events_step {l : KernelStep n} (h : k.step l = some k') {r : StartRecord}
    (hr : r ∈ k.events) :
    ∃ r' ∈ k'.events, r'.tgid = r.tgid ∧ r'.entry = r.entry ∧
      (r'.submitted = r.submitted ∨
        ∃ cpu, ∃ d ∈ k.calls cpu, l = .run cpu ∧ d.pc = .submit r.entry) := by
  rcases step_cases h with ⟨u, rfl, -, rfl⟩ |
    ⟨cpu, u, addr, sent, recv, protocol, rfl, -, -, -, rfl⟩ |
    ⟨cpu, d, rfl, hd, rfl⟩ | ⟨u, rfl, -, -, rfl⟩
  · exact ⟨r, hr, rfl, rfl, Or.inl rfl⟩
  · exact ⟨r, hr, rfl, rfl, Or.inl rfl⟩
  · rcases accountBytes_cases k cpu d with ⟨c', -, heq⟩ | ⟨id, -, heq⟩ | ⟨stats, -, -, heq⟩ |
      ⟨id, -, -, heq⟩ | ⟨id, -, -, heq⟩ | ⟨id, hpc, heq⟩ <;> rw [heq]
    · exact ⟨r, hr, rfl, rfl, Or.inl rfl⟩
    · exact ⟨r, hr, rfl, rfl, Or.inl rfl⟩
    · exact ⟨r, hr, rfl, rfl, Or.inl rfl⟩
    · exact ⟨r, List.mem_append_left _ hr, rfl, rfl, Or.inl rfl⟩
    · exact ⟨r, hr, rfl, rfl, Or.inl rfl⟩
    · refine ⟨_, List.mem_map_of_mem hr, ?_⟩
      split_ifs with hid
      · exact ⟨rfl, rfl, Or.inr ⟨cpu, d, hd, rfl, by rw [hpc, hid]⟩⟩
      · exact ⟨rfl, rfl, Or.inl rfl⟩
  · refine ⟨r, ?_, rfl, rfl, Or.inl rfl⟩
    rw [procnetSchedProcessExit]
    split_ifs <;> exact hr

/-- Whether a call on a CPU has inserted an entry of a process and has yet to emit its start
event. -/
def Emitting (k : Kernel n) (cpu : Fin n) (tgid : UInt32) : Prop :=
  ∃ c ∈ k.calls cpu, c.thread.tgid = tgid ∧ c.pc.announces ≠ none

instance (k : Kernel n) (cpu : Fin n) (tgid : UInt32) : Decidable (k.Emitting cpu tgid) :=
  inferInstanceAs (Decidable (∃ c ∈ _, _))

/-- The call that inserts an entry is to announce it. -/
theorem emitting_of_inserts {l : KernelStep n} (h : k.step l = some k') {tgid : UInt32}
    (hins : k.Inserts l tgid) : ∃ cpu, k'.Emitting cpu tgid := by
  obtain ⟨cpu, c, hc, rfl, hpc, rfl, hnone, hfull⟩ := hins
  obtain rfl : k.accountBytes cpu c = k' := by simpa [step, Option.mem_def.mp hc] using h
  obtain ⟨stats, hstats⟩ := Option.isSome_iff_exists.mp
    (BoundedMap.insertNew_isSome (v := Entry.create k.nextId cpu
      (updateStats default c.protocol c.sent c.recv c.addr)).mpr ⟨hnone, hfull⟩)
  refine ⟨cpu, { c with pc := .reserve k.nextId }, ?_, rfl, by simp [Pc.announces]⟩
  simp [accountBytes, hpc, hstats, goto]

/-- **What becomes of an announcement**: it goes on, its record is in the ring, or the ring
has no room for it. -/
theorem emitting_step {l : KernelStep n} (hk : ∀ cpu, ∀ c ∈ k.calls cpu, ∀ id, c.pc = .submit id →
      ∃ r ∈ k.events, r.tgid = c.thread.tgid)
    (h : k.step l = some k') {cpu : Fin n} {tgid : UInt32} (hemit : k.Emitting cpu tgid) :
    k'.Emitting cpu tgid ∨ (∃ r ∈ k'.events, r.tgid = tgid) ∨
      ∃ c ∈ k.calls cpu, l = .run cpu ∧ c.thread.tgid = tgid ∧ (∃ id, c.pc = .reserve id) ∧
        ¬ ringHasRoom k.events := by
  obtain ⟨c, hc, rfl, hann⟩ := hemit
  by_cases hl : l = .run cpu
  · subst hl
    obtain rfl : k.accountBytes cpu c = k' := by simpa [step, Option.mem_def.mp hc] using h
    refine Or.inr ?_
    rcases accountBytes_cases k cpu c with ⟨c', hq, -⟩ | ⟨id, hpc, -⟩ | ⟨stats, hpc, -⟩ |
      ⟨id, -, -, heq⟩ | ⟨id, hpc, hroom, -⟩ | ⟨id, hpc, heq⟩
    · exact absurd hq.1 hann
    · exact absurd (by rw [hpc]; rfl) hann
    · exact absurd (by rw [hpc]; rfl) hann
    · refine Or.inl ⟨⟨c.thread.tgid, id, false⟩, ?_, rfl⟩
      rw [heq]
      exact List.mem_append_right _ (List.mem_singleton_self _)
    · exact Or.inr ⟨c, hc, rfl, rfl, ⟨id, hpc⟩, hroom⟩
    · obtain ⟨r, hr, htgid⟩ := hk cpu c hc id hpc
      obtain ⟨r', hr', htgid', -⟩ := events_step h hr
      exact Or.inl ⟨r', hr', htgid'.trans htgid⟩
  · exact Or.inl ⟨c, calls_step h hc hl, rfl, hann⟩

/-- What holds of the calls that announce an entry, and of their records. -/
structure Announcing (k : Kernel n) : Prop where
  /-- Entries are numbered in the order of their insertion. -/
  lt_nextId : ∀ cpu, ∀ c ∈ k.calls cpu, ∀ id ∈ c.pc.announces, id < k.nextId
  /-- An entry is announced by one call at most. -/
  unique : ∀ cpu cpu', ∀ c ∈ k.calls cpu, ∀ c' ∈ k.calls cpu', ∀ id ∈ c.pc.announces,
    id ∈ c'.pc.announces → cpu = cpu'
  /-- A reserved record stays in the ring until its call has submitted it. -/
  reserved : ∀ cpu, ∀ c ∈ k.calls cpu, ∀ id, c.pc = .submit id →
    ∃ r ∈ k.events, r.tgid = c.thread.tgid ∧ r.entry = id ∧ r.submitted = false

theorem announcing_boot : (boot : Kernel n).Announcing := by
  constructor <;> simp [boot]

theorem Announcing.step {l : KernelStep n} (hk : k.Announcing) (h : k.step l = some k') :
    k'.Announcing := by
  have hold : ∀ cpu, ∀ c ∈ k'.calls cpu, ∀ id ∈ c.pc.announces,
      (∃ d ∈ k.calls cpu, id ∈ d.pc.announces) ∨
        (l = .run cpu ∧ id = k.nextId ∧ k'.nextId = k.nextId + 1) := by
    intro cpu c hc id hid
    rcases announces_step h hc hid with ⟨hc, -⟩ | ⟨d, hd, hl, -, ⟨hins, -, hnew⟩ | ⟨hpc, -⟩⟩
    · exact Or.inl ⟨c, hc, hid⟩
    · exact Or.inr ⟨hl, hnew, nextId_of_inserts h hins⟩
    · exact Or.inl ⟨d, hd, by rw [hpc]; rfl⟩
  constructor
  · intro cpu c hc id hid
    rcases hold cpu c hc id hid with ⟨d, hd, hid⟩ | ⟨-, rfl, hnext⟩
    · exact Nat.lt_of_lt_of_le (hk.lt_nextId cpu d hd id hid) (nextId_le_step h)
    · omega
  · intro cpu cpu' c hc c' hc' id hid hid'
    rcases hold cpu c hc id hid with ⟨d, hd, hid⟩ | ⟨hl, hnew, -⟩ <;>
      rcases hold cpu' c' hc' id hid' with ⟨d', hd', hid'⟩ | ⟨hl', hnew', -⟩
    · exact hk.unique cpu cpu' d hd d' hd' id hid hid'
    · exact absurd (hk.lt_nextId cpu d hd id hid) (by omega)
    · exact absurd (hk.lt_nextId cpu' d' hd' id hid') (by omega)
    · exact KernelStep.run.inj (hl.symm.trans hl')
  · intro cpu c hc id hpc
    have hid : id ∈ c.pc.announces := by rw [hpc]; rfl
    rcases announces_step h hc hid with ⟨hc, hl⟩ | ⟨d, hd, rfl, hthread, ⟨-, hpc', -⟩ | ⟨-, -, hev⟩⟩
    · obtain ⟨r, hr, htgid, rfl, hsub⟩ := hk.reserved cpu c hc id hpc
      obtain ⟨r', hr', htgid', hentry', hsub' | ⟨cpu', d, hd, rfl, hpcd⟩⟩ := events_step h hr
      · exact ⟨r', hr', htgid'.trans htgid, hentry', hsub'.trans hsub⟩
      · have hcpu : cpu = cpu' :=
          hk.unique cpu cpu' c hc d hd r.entry hid (by rw [hpcd]; rfl)
        exact absurd (by rw [hcpu]) hl
    · rw [hpc] at hpc'
      cases hpc'
    · exact ⟨_, hev ▸ List.mem_append_right _ (List.mem_singleton_self _), rfl, rfl, rfl⟩

/-- The daemon consumes only records that have been submitted. -/
theorem Announcing.withoutHead (hk : k.Announcing) {r : StartRecord} {events : List StartRecord}
    (hevents : k.events = r :: events) (hsub : r.submitted = true) :
    Announcing { k with events := events } := by
  refine ⟨hk.lt_nextId, hk.unique, fun cpu c hc id hpc => ?_⟩
  obtain ⟨r', hr', htgid, hentry, hsub'⟩ := hk.reserved cpu c hc id hpc
  rw [hevents] at hr'
  rcases List.mem_cons.mp hr' with rfl | hr'
  · rw [hsub] at hsub'
    cases hsub'
  · exact ⟨r', hr', htgid, hentry, hsub'⟩

end Kernel

end Procnet
