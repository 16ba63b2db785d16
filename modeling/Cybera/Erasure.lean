import Cybera.Delivery

/-!
A run without one of its calls. A transaction that never commits leaves the
database as if it had never begun, and the others take the same steps without it.
-/

namespace Cybera

open Interleaving

/-- The world without the thread: no open transaction and no steps of its own. -/
def World.without (world : World) (gone : Nat) : World :=
  { world with
    db := world.db.rollback gone
    hist := world.hist.filter fun event => event.thread != gone }

section Others
variable {thread gone : Nat} {world after : World} {choice : Choice}

theorem without_view (different : thread ≠ gone) (order : Nat → Nat) :
    (world.without gone).view thread order = world.view thread order := by
  have rows : (world.db.rollback gone).view thread = world.db.view thread :=
    RowLock.rollback_view different
  have txn : (world.db.rollback gone).txns thread = world.db.txns thread :=
    (RowLock.rollback_undisturbed different).txn
  simp only [World.view, World.without, rows, txn]
  rfl

theorem without_pending (different : thread ≠ gone) :
    (world.without gone).pendingActs thread = world.pendingActs thread :=
  pendingActs_same (RowLock.rollback_undisturbed different).txn

theorem without_open {txn : RowLock.Txn Row Act}
    (member : txn ∈ (world.without gone).othersOpen thread) : txn ∈ world.othersOpen thread := by
  simp only [World.othersOpen, List.mem_filterMap] at member ⊢
  obtain ⟨other, listed, opened⟩ := member
  refine ⟨other, listed, ?_⟩
  split at opened
  · cases opened
  · rename_i apart
    rw [if_neg apart]
    by_cases same : other = gone
    · subst same
      simp [World.without, RowLock.State.rollback] at opened
    · exact ((RowLock.rollback_undisturbed same).txn).symm.trans opened

theorem without_doomed {table : TableName} {row : Row table}
    (free : world.planDoomed thread table row = false) :
    (world.without gone).planDoomed thread table row = false := by
  simp only [World.planDoomed, List.any_eq_false] at free ⊢
  exact fun txn member => free txn (without_open member)

theorem without_contended {table : TableName} {row : Row table}
    (free : world.contended thread table row = false) :
    (world.without gone).contended thread table row = false := by
  simp only [World.contended, List.any_eq_false] at free ⊢
  exact fun txn member => free txn (without_open member)

theorem without_awaited {plan : Nat} (free : world.planAwaited thread plan = false) :
    (world.without gone).planAwaited thread plan = false := by
  simp only [World.planAwaited, List.any_eq_false] at free ⊢
  exact fun txn member => free txn (without_open member)

theorem without_shared {target : TableName × Nat} (free : world.keyShared thread target = false) :
    (world.without gone).keyShared thread target = false := by
  simp only [World.keyShared, List.any_eq_false] at free ⊢
  exact fun txn member => free txn (without_open member)

theorem without_selected {other : Nat} (different : other ≠ gone) (target : TableName × Nat) :
    (world.without gone).selectedForUpdate other target =
      world.selectedForUpdate other target := by
  have kept : (world.hist.filter fun event => event.thread != gone).filter
      (fun event => event.thread == other) =
        world.hist.filter fun event => event.thread == other := by
    rw [List.filter_filter]
    refine List.filter_congr fun event _ => ?_
    by_cases own : event.thread = other
    · simp [own, different]
    · simp [own]
  simp only [World.selectedForUpdate, World.without, kept]

theorem without_taken {targets : List (TableName × Nat)}
    (free : world.keysTaken thread targets = false) :
    (world.without gone).keysTaken thread targets = false := by
  simp only [World.keysTaken, List.any_eq_false] at free ⊢
  intro target member
  have free := free target member
  have locks : (world.without gone).db.locks target.1 target.2 =
      if world.db.locks target.1 target.2 = some gone then none
      else world.db.locks target.1 target.2 := rfl
  rw [locks]
  cases held : world.db.locks target.1 target.2 with
  | none => simp
  | some other =>
      by_cases own : other = gone
      · simp [own]
      · simpa [held, own, without_selected own] using free

theorem without_write (different : thread ≠ gone) {entry : Entry}
    (written : world.write thread entry = some after) :
    (world.without gone).write thread entry = some (after.without gone) := by
  simp only [World.write, Option.map_eq_some_iff] at written ⊢
  obtain ⟨db, granted, rfl⟩ := written
  exact ⟨_, RowLock.rollback_write different granted, rfl⟩

theorem without_failed (world : World) {thread gone : Nat} (different : thread ≠ gone)
    (took : Bool) (cmd : Cmd) :
    (world.without gone).failed thread took cmd =
      ((world.failed thread took cmd).1, (world.failed thread took cmd).2.without gone) := by
  have undone : (world.db.rollback gone).rollback thread =
      (world.db.rollback thread).rollback gone :=
    RowLock.rollback_comm
  cases cmd with
  | commit =>
      cases took with
      | true => simp [World.failed, World.without, RowLock.rollback_commit different]
      | false => simp [World.failed, World.without, undone]
  | rollback => simp only [World.failed, World.without, undone]
  | ndsctl command => cases took <;> rfl
  | _ => rfl

theorem without_succeeded (different : thread ≠ gone) {cmd : Cmd}
    {answer : Except Failure (Res cmd)}
    (executed : world.succeeded thread choice cmd = some (answer, after)) :
    (world.without gone).succeeded thread choice cmd = some (answer, after.without gone) := by
  have rows : (world.without gone).db.view thread = world.db.view thread :=
    RowLock.rollback_view different
  have view : (world.without gone).view thread choice.order = world.view thread choice.order :=
    without_view different _
  cases cmd with
  | begin =>
      cases executed
      simp only [World.succeeded, World.without, RowLock.rollback_begin different]
  | commit =>
      cases executed
      simp only [World.succeeded, World.without, RowLock.rollback_commit different]
  | rollback =>
      cases executed
      have undone : (world.db.rollback gone).rollback thread =
          (world.db.rollback thread).rollback gone := RowLock.rollback_comm
      simp only [World.succeeded, World.without, undone]
  | query query =>
      cases executed
      simp only [World.succeeded, view]
  | lock table id =>
      simp only [World.succeeded, rows] at executed ⊢
      split at executed
      · cases executed
        rfl
      · split at executed
        · cases executed
        · rename_i free
          rw [without_shared (Bool.eq_false_iff.mpr free)]
          simp only [Option.map_eq_some_iff, Prod.mk.injEq] at executed
          obtain ⟨db, granted, rfl, rfl⟩ := executed
          have granted' := RowLock.rollback_acquire different granted
          simp [World.without, granted']
  | update table id op =>
      simp only [World.succeeded, rows, view] at executed ⊢
      split at executed
      · cases executed
        rfl
      · split at executed
        · split at executed
          · cases executed
          · rename_i resolved free
            rw [Bool.or_eq_true, not_or, Bool.not_eq_true, Bool.not_eq_true] at free
            simp only [Option.map_eq_some_iff, Prod.mk.injEq] at executed
            obtain ⟨reached, written, rfl, rfl⟩ := executed
            rw [if_pos resolved, without_doomed free.1, without_taken free.2]
            simp [without_write different written]
        · rename_i dangling
          cases executed
          rw [if_neg dangling]
  | insert table row skip =>
      simp only [World.succeeded, rows, view] at executed ⊢
      split at executed
      · cases executed
      · rename_i free
        rw [Bool.or_eq_true, not_or, Bool.not_eq_true, Bool.not_eq_true] at free
        rw [without_contended free.1, without_doomed free.2]
        have clash : (world.without gone).clash = world.clash := rfl
        rw [clash]
        split at executed
        · rename_i clashing
          cases executed
          simp [clashing]
        · rename_i single
          split at executed
          · rename_i resolved
            split at executed
            · cases executed
            · rename_i untaken
              simp only [Option.map_eq_some_iff, Prod.mk.injEq] at executed
              obtain ⟨reached, written, rfl, rfl⟩ := executed
              have wrote := without_write different written
              rw [without_taken (Bool.eq_false_iff.mpr untaken)]
              simp only [Bool.or_self, Bool.false_eq_true, if_false, if_neg single, if_pos resolved]
              simp only [Option.map_eq_some_iff, Prod.mk.injEq]
              exact ⟨_, wrote, rfl, rfl⟩
          · rename_i dangling
            cases executed
            simp [single, dangling]
  | deletePlan id =>
      simp only [World.succeeded, rows] at executed ⊢
      split at executed
      · cases executed
        rfl
      · split at executed
        · cases executed
        · rename_i free
          have next : (world.without gone).db.next = world.db.next := rfl
          rw [without_awaited (by simpa using free), next]
          split at executed
          · rename_i referenced
            cases executed
            simp [referenced]
          · rename_i unreferenced
            simp only [Option.map_eq_some_iff, Prod.mk.injEq] at executed
            obtain ⟨reached, written, rfl, rfl⟩ := executed
            simp only [Bool.false_eq_true, if_false, if_neg unreferenced]
            simp [without_write different written]
  | dateNow =>
      cases executed
      rfl
  | randomBytes count =>
      cases executed
      rfl
  | ndsctl command =>
      cases executed
      rfl
  | audit actor action =>
      simp only [World.succeeded] at executed ⊢
      split at executed
      · cases executed
      · rename_i free
        cases executed
        rw [without_taken (Bool.eq_false_iff.mpr free)]
        rfl

theorem exec_without (different : thread ≠ gone) {cmd : Cmd} {answer : Except Failure (Res cmd)}
    (executed : world.exec thread cmd choice = some (answer, after)) :
    (world.without gone).exec thread cmd choice = some (answer, after.without gone) := by
  simp only [World.exec, Option.map_eq_some_iff, Prod.exists, Prod.mk.injEq] at executed ⊢
  obtain ⟨reply, reached, result, rfl, rfl⟩ := executed
  refine ⟨reply, reached.without gone, ?_, rfl, ?_⟩
  · split at result
    · rename_i fails
      rw [Option.some.injEq] at result
      rw [if_pos fails]
      have same := without_failed { world with clock := world.clock + choice.elapsed } different
        choice.took cmd
      rw [result] at same
      exact congrArg some same
    · rename_i goes
      rw [if_neg goes]
      exact without_succeeded different result
  · have event : (world.without gone).eventOf thread cmd choice reply =
        world.eventOf thread cmd choice reply := by
      have view : (({ world with clock := world.clock + choice.elapsed } : World).without
          gone).view thread choice.order = _ := without_view different _
      have pending : (world.without gone).pendingActs thread = world.pendingActs thread :=
        without_pending different
      simp only [World.eventOf, pending]
      rw [← view]
      rfl
    have kept : (world.eventOf thread cmd choice reply).thread ≠ gone := different
    have hist : (reached.hist ++ [world.eventOf thread cmd choice reply]).filter
        (fun event => event.thread != gone) =
          (reached.without gone).hist ++
            [(world.without gone).eventOf thread cmd choice reply] := by
      rw [event, List.filter_append]
      simp [World.without, kept]
    simp only [World.without] at hist ⊢
    exact congrArg _ hist.symm

end Others

theorem exec_gone {gone : Nat} {world after : World} {choice : Choice} {cmd : Cmd}
    {answer : Except Failure (Res cmd)}
    (executed : world.exec gone cmd choice = some (answer, after))
    (uncommitted : ¬ Lands ⟨cmd, answer⟩)
    (opens : ∀ table row skip, cmd ≠ .insert table row skip)
    (clients : after.clients = world.clients) :
    after.without gone = { world.without gone with clock := world.clock + choice.elapsed } := by
  obtain ⟨clock, arrivals, hist, _⟩ := exec_cases executed
  have own : after.hist.filter (fun event => event.thread != gone) =
      world.hist.filter fun event => event.thread != gone := by
    rw [hist, List.filter_append]
    simp [World.eventOf]
  have db : after.db.rollback gone = world.db.rollback gone := by
    have deed := exec_deed executed
    generalize after.db = db at deed
    cases deed with
    | read | failed | unlocked | missed | skipped | gone => rfl
    | began => exact RowLock.begin_rollback _
    | committed landed => exact absurd ⟨_, landed, rfl⟩ uncommitted
    | refused | undone => exact RowLock.rollback_twice
    | locked present granted => exact RowLock.acquire_rollback granted
    | updated present written => exact RowLock.write_rollback written
    | inserted => exact absurd rfl (opens _ _ _)
    | deleted written => exact RowLock.write_rollback written
  simp only [World.without, own, db, clock, arrivals, clients]

/-- The step commits no transaction, inserts nothing and leaves the clients of
OpenNDS alone. -/
structure Event.Traceless (event : Event) : Prop where
  uncommitted : ¬ Lands event.done
  opens : ∀ table row skip, event.cmd ≠ .insert table row skip
  clients : ∀ command clients, event.cmd = .ndsctl command → (command.run clients).2 = clients

theorem step_hist {config : Config} {pool after : ServerPool} {move : Move Choice Call Ambient}
    (moved : step (server config) pool move = some after) :
    pool.state.hist <+: after.state.hist := by
  cases step_cases moved with
  | start call => exact List.prefix_refl _
  | advance thread choice cmd next answer reached running executed =>
      obtain ⟨_, _, hist, _⟩ := exec_cases executed
      exact hist ▸ List.prefix_append _ _
  | crash thread program running => exact List.prefix_refl _
  | ambient event reached happened => exact (ambient_cases happened).2.2.2 ▸ List.prefix_refl _

theorem crash_without {gone : Nat} {world : World} :
    (world.without gone).crash gone = world.without gone := by
  have undone : (world.db.rollback gone).rollback gone = world.db.rollback gone :=
    RowLock.rollback_twice
  simp only [World.crash, World.without, undone]

/-- A thread whose steps left no trace might as well have taken none: there is a
run in which it is started and stops there, and everybody else does the same. -/
theorem reached_without {config : Config} {pool : ServerPool} {gone : Nat}
    (reached : Reached config pool)
    (traceless : ∀ event ∈ pool.state.hist, event.thread = gone → event.Traceless) :
    Reached config ⟨pool.state.without gone, pool.threads.set gone none⟩ := by
  induction reached with
  | init =>
      have db : emptyDatabase.rollback gone = emptyDatabase := by
        have locks : emptyDatabase.release gone = emptyDatabase.locks := by
          funext table id
          rfl
        simp only [RowLock.State.rollback, locks]
        simp [emptyDatabase]
      have same : World.initial.without gone = World.initial := by
        simp only [World.without, World.initial, db, List.filter_nil]
      rw [same]
      exact .init
  | @next pool after move before moved ih =>
      have grown := step_hist moved
      have ih := ih fun event member => traceless event (grown.subset member)
      cases step_cases moved with
      | start call =>
          have started : (World.start call pool.state).without gone =
            World.start call (pool.state.without gone) := rfl
          have next : Reached config ⟨World.start call (pool.state.without gone),
              pool.threads.set gone none ++ [some (call.program config)]⟩ :=
                ih.next (.start call) rfl
          rcases Nat.lt_trichotomy gone pool.threads.length with old | rfl | beyond
          · simp only [List.set_append, if_pos old]
            exact next
          · -- the thread itself is started
            rw [List.set_eq_of_length_le (Nat.le_refl _)] at next
            refine next.next (.crash pool.threads.length) ?_
            have stopped : (server config).crash pool.threads.length
                ((World.start call pool.state).without pool.threads.length) =
                  (World.start call pool.state).without pool.threads.length := crash_without
            rw [← started]
            simp only [step, List.getElem?_concat_length, stopped]
            rfl
          · rw [List.set_eq_of_length_le (Nat.le_of_lt beyond)] at next
            have same : (pool.threads ++ [some (call.program config)]).set gone none =
                pool.threads ++ [some (call.program config)] := by
              refine List.set_eq_of_length_le ?_
              rw [List.length_append, List.length_singleton]
              exact beyond
            rw [show (server config).body call = call.program config from rfl, same]
            exact next
      | advance thread choice cmd next answer reached running executed =>
          by_cases own : thread = gone
          · subst own
            obtain ⟨_, _, hist, _⟩ := exec_cases executed
            have trace : (pool.state.eventOf thread cmd choice answer).Traceless := by
              refine traceless _ ?_ rfl
              rw [hist]
              exact List.mem_append_right _ List.mem_cons_self
            have clients : reached.clients = pool.state.clients := by
              rcases exec_clients executed with same | ⟨command, same, ran⟩
              · exact same
              · exact ran.trans (trace.clients command _ same)
            rw [List.set_set, exec_gone executed trace.uncommitted trace.opens clients]
            exact ih.next (.ambient (.elapse choice.elapsed)) rfl
          · have running' : (pool.threads.set gone none)[thread]? =
                some (some (.exec cmd next)) := by
              rw [List.getElem?_set_ne (Ne.symm own)]
              exact running
            refine ih.next (.advance thread choice) ?_
            have executed' : (server config).exec thread cmd choice (pool.state.without gone) = _ :=
              exec_without own executed
            simp only [step, running', executed', Option.map_some, Option.some.injEq,
              Pool.mk.injEq, true_and]
            exact List.set_comm _ _ (Ne.symm own)
      | crash thread program running =>
          by_cases own : thread = gone
          · subst own
            rw [List.set_set]
            have same : (World.crash thread pool.state).without thread =
              pool.state.without thread := crash_without
            exact same ▸ ih
          · refine ih.next (.crash thread) ?_
            have running' : (pool.threads.set gone none)[thread]? = some (some program) := by
              rw [List.getElem?_set_ne (Ne.symm own)]
              exact running
            have undone : (pool.state.db.rollback gone).rollback thread =
              (pool.state.db.rollback thread).rollback gone := RowLock.rollback_comm
            simp only [step, running', Option.some.injEq, Pool.mk.injEq]
            refine ⟨?_, List.set_comm _ _ (Ne.symm own)⟩
            exact congrArg (fun db => { pool.state.without gone with db }) undone
      | ambient event reached happened =>
          refine ih.next (.ambient event) ?_
          have same : World.ambient event (pool.state.without gone) =
              some (World.without reached gone) := by
            cases event with
            | elapse milliseconds =>
                cases happened
                rfl
            | clients clients =>
                simp only [server, World.ambient] at happened ⊢
                split at happened
                · rename_i known
                  cases happened
                  exact if_pos known
                · cases happened
          have same' : (server config).ambient event (pool.state.without gone) = _ := same
          simp only [step, same', Option.map_some]

end Cybera
