import Cybera.Answers
import Cybera.Chronicle
import Cybera.References

/-!
A thread can always be driven to its end, because every command may fail. What holds of the
commits of a call that has ended therefore holds as soon as they are made, also if the
thread crashes later.
-/

namespace Interleaving

section Completion
variable {Cmd : Type} {Res : Cmd → Type} {Err Choice Call Event α S : Type}
  {M : Machine Cmd Res Err Choice Call Event α S}

theorem run_ended (able : ∀ thread cmd state, ∃ choice answer after,
      M.exec thread cmd choice state = some (answer, after))
    {pool : Pool Cmd Res Err α S} {thread : Nat} {program : Prog Cmd Res Err α}
    (running : pool.threads[thread]? = some (some program)) :
    ∃ moves after outcome, run M pool moves = some after ∧
      after.threads[thread]? = some (some (.ended outcome)) := by
  induction program generalizing pool with
  | done value => exact ⟨[], pool, .ok value, rfl, running⟩
  | raise error => exact ⟨[], pool, .error error, rfl, running⟩
  | exec cmd next ih =>
      obtain ⟨choice, answer, state, executed⟩ := able thread cmd pool.state
      have moved : step M pool (.advance thread choice) =
          some ⟨state, pool.threads.set thread (some (next answer))⟩ := by
        simp [step, running, executed]
      have known := (List.getElem?_eq_some_iff.mp running).1
      have onward : (⟨state, pool.threads.set thread (some (next answer))⟩ :
          Pool Cmd Res Err α S).threads[thread]? = some (some (next answer)) :=
        List.getElem?_set_self known
      obtain ⟨moves, after, outcome, ran, ended⟩ := ih answer onward
      exact ⟨.advance thread choice :: moves, after, outcome, by simp [run, moved, ran], ended⟩

end Completion
end Interleaving

namespace Cybera

open Interleaving

section Blocks
variable {config : Config} {pool : ServerPool}

theorem exec_able (thread : Nat) (cmd : Cmd) (world : World) : ∃ choice answer after,
    world.exec thread cmd choice = some (answer, after) :=
  ⟨{ fails := true }, _, _, rfl⟩

theorem step_later {after : ServerPool} {move : Move Choice Call Ambient}
    (moved : step (server config) pool move = some after) : Later pool.state after.state := by
  have ran : run (server config) pool [move] = some after := by simp [run, moved]
  exact (run_onward ran).later

theorem reached_ended (reached : Reached config pool) {thread : Nat} {program : Program Reply}
    (running : pool.threads[thread]? = some (some program)) :
    ∃ (after : ServerPool) (outcome : Except Failure Reply), Reached config after ∧
        Later pool.state after.state ∧
        after.threads[thread]? = some (some (Prog.ended outcome)) := by
  obtain ⟨moves, after, outcome, ran, ended⟩ := run_ended (M := server config) exec_able running
  exact ⟨after, outcome, run_reachable _ _ moves pool after reached ran, (run_onward ran).later,
    ended⟩

theorem reached_commit (reached : Reached config pool) {commits : Nat}
    (bound : commits ≤ pool.state.db.log.length) : ∃ earlier, Reached config earlier ∧
      earlier.state.db.log = pool.state.db.log.take commits ∧
      earlier.state.db.store = storeAfter pool.state.db.log commits := by
  have here : ∀ {pool : ServerPool}, Reached config pool → ∃ earlier, Reached config earlier ∧
      earlier.state.db.log = pool.state.db.log.take pool.state.db.log.length ∧
      earlier.state.db.store = storeAfter pool.state.db.log pool.state.db.log.length :=
    fun {pool} reached => ⟨pool, reached, List.take_length.symm, (reached_ready reached).recorded⟩
  induction reached with
  | init =>
      obtain rfl : commits = 0 := Nat.le_zero.mp bound
      exact here .init
  | @next pool after move before moved ih =>
      obtain ⟨grows, longer⟩ := move_log moved
      by_cases old : commits ≤ pool.state.db.log.length
      · obtain ⟨earlier, reached, log, store⟩ := ih old
        refine ⟨earlier, reached, ?_, store.trans (storeAfter_grown grows commits old).symm⟩
        obtain ⟨more, grown⟩ := grows
        rw [log, ← grown, List.take_append_of_le_length old]
      · obtain rfl : commits = after.state.db.log.length := by omega
        exact here (before.next move moved)

theorem block_outcome (reached : Reached config pool) {index thread : Nat} {acts : List Entry}
    {call : Call} (found : pool.state.db.log[index]? = some (thread, acts))
    (called : pool.state.arrivals[thread]? = some call) :
    ∃ (after : ServerPool) (outcome : Except Failure Reply),
      Outcome config thread call outcome after.state ∧
        after.state.db.log.take (index + 1) = pool.state.db.log.take (index + 1) := by
  induction reached with
  | init => simp [World.initial, emptyDatabase] at found
  | @next pool next move before moved ih =>
      obtain ⟨grows, longer⟩ := move_log moved
      by_cases old : index < pool.state.db.log.length
      · have found' := List.getElem?_eq_getElem old
        have same := prefix_getElem? grows found'
        rw [found, Option.some.injEq] at same
        rw [← same] at found'
        obtain ⟨call', called', _⟩ := block_lawful (reached_legit before) found'
        have arrivals := prefix_getElem? (step_later moved).arrivals called'
        rw [called, Option.some.injEq] at arrivals
        subst arrivals
        obtain ⟨after, outcome, ended, log⟩ := ih found' called'
        refine ⟨after, outcome, ended, log.trans ?_⟩
        obtain ⟨more, grown⟩ := grows
        rw [← grown, List.take_append_of_le_length old]
      · have reached := before.next move moved
        have last : index = pool.state.db.log.length := by
          have bound := (List.getElem?_eq_some_iff.mp found).1
          omega
        subst last
        have running : ∃ program, next.threads[thread]? = some (some program) := by
          cases step_cases moved with
          | start call => simp [server, World.start] at found
          | crash mover program running =>
              simp [server, World.crash, RowLock.State.rollback] at found
          | ambient event world happened =>
              have db := (ambient_cases happened).1
              simp [db] at found
          | advance mover choice cmd rest answer world running executed =>
              rcases exec_block executed with same | ⟨txn, _, grown, _⟩
              · simp [same] at found
              · rw [show (⟨world, _⟩ : ServerPool).state.db.log = world.db.log from rfl, grown,
                  List.getElem?_concat_length, Option.some.injEq, Prod.mk.injEq] at found
                obtain ⟨rfl, _⟩ := found
                have known := (List.getElem?_eq_some_iff.mp running).1
                exact ⟨rest answer, List.getElem?_set_self known⟩
        obtain ⟨program, running⟩ := running
        obtain ⟨after, outcome, reached', later, ended⟩ := reached_ended reached running
        have arrivals := prefix_getElem? later.arrivals called
        refine ⟨after, outcome, ?_, ?_⟩
        · cases outcome with
          | ok reply => exact answered_outcome reached' arrivals ended
          | error error => exact thrown_outcome reached' arrivals ended
        · obtain ⟨more, grown⟩ := later.log
          rw [← grown, List.take_append_of_le_length]
          exact (List.getElem?_eq_some_iff.mp found).1

end Blocks
end Cybera
