import MappedQueue.Proofs.Sessions
import MappedQueue.Proofs.Withdrawals

/-!
# Closing the handle of a client

A client whose main thread finds the lock free withdraws the registration of a handle in one go,
whether the thread is cancelled or not and however often it has been interrupted. So a close
succeeds at once, unless the tag is broken; then it fails, the drop that follows it fails as well,
and all that has happened is that the handle has lost its mapping.
-/

namespace MappedQueue

open Layout (headerSize)

variable {q : Shared} {h : Handle} {around : Surroundings} {me file number : Nat} {p : Client}
  {queue : Queue} {t : Thread} {n : Nat} {last : Advance} {answer : Answer}

namespace Call

/-- The withdrawal as a call that is left alone. -/
theorem passes_withdraw (hsize : headerSize ≤ q.region.size) (htagged : q.tagged = true)
    (hfree : q.holder = none) : ∃ region, q.region.Withdrawn h.identity region ∧
      Passes me h around 4 q { request := .notify none } {
        call := { request := .notify none, point := .answered (.ok .notified) }
        shared := { q with region, orphaned := false }, nonblocking := h.nonblocking } := by
  obtain ⟨region, hwithdrawn, hturn⟩ :=
    exists_takeTurn_withdraw (c := { request := .notify none, point := .inside })
      (q := q.seize me) hsize rfl h 0 around.herald
  refine ⟨region, hwithdrawn, (Comes.enters rfl htagged hfree).passes (k := 1) (.ends ?_ rfl)⟩
  rw [← hfree] at hturn
  exact congrArg some hturn

/-- A broken tag is found before the lock is asked for. -/
theorem passes_refused (htag : q.tagged = false) :
    Passes me h around 2 q { request := .notify none } {
      call := { request := .notify none, point := .answered (.error .badHandle) }
      shared := q, nonblocking := h.nonblocking } := by
  have hknocks : step me h around 0 q { request := .notify none } = some {
      call := { request := .notify none, point := .knocking }, shared := q,
      nonblocking := h.nonblocking } := step_of_pace (.goes rfl (.accepted rfl))
  exact .goes hknocks trivial (.ends (step_of_pace (.goes rfl (.untagged rfl htag))) rfl)

end Call

namespace Client

/-- An attempt to withdraw that is left alone. -/
theorem withdraw_of_passes (hfault : p.fault = none) (hthread : p.threads[main]? = some t)
    (hcall : t.call = none) (hfile : file < p.host.disk.files.size)
    (hqueue : p.queues[number]? = some queue) (hmap : p.host.fileOf queue.store.mapping = file)
    (hn : n ≤ 8)
    (hpasses : Call.Passes main queue.handle { p.view queue with cancelled := t.cancelled } n
      (p.host.disk.shared file) { request := .notify none } last)
    (hanswer : last.call.point = .answered answer)
    (hmode : last.nonblocking = queue.handle.nonblocking) (hdelivery : last.delivery = none) :
    ∃ threads t', threads[main]? = some t' ∧ t'.call = none ∧
      p.withdraw number =
        (answer.map fun _ => (), { p.putShared file last.shared with threads }) := by
  obtain ⟨answer', sliceEnd, p', hanswer', hcalled, hwithin⟩ :=
    call_of_comes hfault hthread hcall hfile hqueue hmap { request := .notify none } hn hpasses
      hdelivery
  cases hanswer.symm.trans hanswer'
  rw [hmode, setMode_self hqueue] at hwithin
  obtain ⟨threads, hmain, rfl⟩ := hwithin
  refine ⟨threads, _, hmain, rfl, ?_⟩
  rw [withdraw, hcalled]
  cases answer <;> rfl

/-- While the tag is broken nothing changes in an attempt but the threads. -/
theorem withdraw_of_not_tagged (hfault : p.fault = none) (hthread : p.threads[main]? = some t)
    (hcall : t.call = none) (hfile : file < p.host.disk.files.size)
    (hqueue : p.queues[number]? = some queue) (hmap : p.host.fileOf queue.store.mapping = file)
    (htag : (p.host.disk.shared file).tagged = false) :
    ∃ threads t', threads[main]? = some t' ∧ t'.call = none ∧
      p.withdraw number = (.error .badHandle, { p with threads }) := by
  obtain ⟨threads, t', hmain, hidle, hwithdraw⟩ := withdraw_of_passes hfault hthread hcall hfile
    hqueue hmap (by decide) (Call.passes_refused htag) rfl rfl rfl
  rw [putShared_self] at hwithdraw
  exact ⟨threads, t', hmain, hidle, hwithdraw⟩

/-- Closing and dropping a handle while the lock is free. With a tag that is in order the
registration of its identity ends, if it is the one in force, and the lock is in order; otherwise a
close fails. In any case nothing else has changed in the end but that the handle has no mapping. -/
theorem close_alone (hfault : p.fault = none) (hthread : p.threads[main]? = some t)
    (hcall : t.call = none) (hfile : file < p.host.disk.files.size)
    (hqueue : p.queues[number]? = some queue) (hmap : p.host.fileOf queue.store.mapping = file)
    (hsize : headerSize ≤ (p.host.disk.shared file).region.size)
    (hfree : (p.host.disk.shared file).holder = none) :
    ((p.host.disk.shared file).tagged = true → ∃ region,
      (p.host.disk.shared file).region.Withdrawn queue.handle.identity region ∧ ∃ threads,
        let left : Client :=
          { p.putShared file { p.host.disk.shared file with region, orphaned := false } with
            threads }
        p.close number = (.ok (), left.detach number) ∧ p.drop number = left.detach number) ∧
    ((p.host.disk.shared file).tagged = false → ∃ threads threads',
      p.close number = (.error .badHandle, { p with threads }.detach number) ∧
        p.drop number = { p with threads := threads' }.detach number) := by
  refine ⟨fun htagged => ?_, fun htag => ?_⟩
  · obtain ⟨region, hwithdrawn, hpasses⟩ := Call.passes_withdraw hsize htagged hfree
    obtain ⟨threads, t', -, -, hwithdraw⟩ := withdraw_of_passes hfault hthread hcall hfile hqueue
      hmap (by decide) hpasses rfl rfl rfl
    refine ⟨region, hwithdrawn, threads, ?_, ?_⟩
    · unfold close
      rw [hwithdraw]
      rfl
    · rw [drop, hwithdraw]
  · obtain ⟨threads, t', hmain, hidle, hfirst⟩ :=
      withdraw_of_not_tagged hfault hthread hcall hfile hqueue hmap htag
    -- The second attempt finds the tag as broken as the first one did.
    obtain ⟨threads', -, -, -, hsecond⟩ :=
      withdraw_of_not_tagged (p := { p with threads }) hfault hmain hidle hfile hqueue hmap htag
    refine ⟨threads', threads, ?_, ?_⟩
    · unfold close
      rw [hfirst]
      dsimp only
      rw [drop, hsecond]
    · rw [drop, hfirst]

end Client

end MappedQueue
