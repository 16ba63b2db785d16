import Cybera.SessionManager

/-!
The machine of the whole system and what any step of it preserves, whoever
takes it: the lock discipline, rows that stay, and a commit log whose replay is
the database.
-/

namespace Cybera

open Interleaving

def storeAfter (log : List (Nat × List Entry)) (commits : Nat) : Store :=
  replay ((log.take commits).flatMap (·.2)) fun _ _ => none

theorem storeAfter_append (log more : List (Nat × List Entry)) (commits : Nat)
    (bound : commits ≤ log.length) : storeAfter (log ++ more) commits = storeAfter log commits := by
  simp [storeAfter, List.take_append_of_le_length bound]

theorem storeAfter_grown {log more : List (Nat × List Entry)} (before : log <+: more)
    (commits : Nat) (bound : commits ≤ log.length) :
    storeAfter more commits = storeAfter log commits := by
  obtain ⟨rest, rfl⟩ := before
  exact storeAfter_append log rest commits bound

theorem storeAfter_succ (log : List (Nat × List Entry)) (index : Nat) (block : Nat × List Entry)
    (found : log[index]? = some block) :
    storeAfter log (index + 1) = replay block.2 (storeAfter log index) := by
  simp [storeAfter, List.take_add_one, found, replay, RowLock.replay_append]

/-- Only plans are ever deleted. -/
def Kept (entry : Entry) : Prop :=
  match entry.act with
  | .delete => entry.table = .plans
  | _ => True

/-- One step of a thread on the database; a transaction begins at `now`. -/
inductive DbStep (thread : Nat) (now : Time) (db : Database) : Database → Prop where
  | same : DbStep thread now db db
  | opened : DbStep thread now db (db.begin thread now)
  | committed : DbStep thread now db (db.commit thread)
  | undone : DbStep thread now db (db.rollback thread)
  | locked (table : TableName) (id : Nat) {after : Database}
      (granted : db.acquire thread table id = some after) : DbStep thread now db after
  | wrote (entry : Entry) {after : Database} (kept : Kept entry)
      (granted : db.write Act.run thread entry = some after) : DbStep thread now db after
  | inserted (table : TableName) (row : Row table) {after : Database}
      (granted : (db.reserve table).write Act.run thread ⟨table, db.next table, .insert row⟩ =
        some after) : DbStep thread now db after

/-- The COMMIT was carried out, and its answer came or was lost. -/
inductive Landed : Except Failure Unit → Prop where
  | answered : Landed (.ok ())
  | lost : Landed (.error .lost)

/-- A COMMIT of the thread was carried out and its answer lost. -/
def Lost (world : World) (thread : Nat) : Prop :=
  ∃ time commits acts view,
    ⟨thread, .commit, .error .lost, time, commits, acts, view⟩ ∈ world.hist

def Event.loses (thread : Nat) : Event → Bool
  | ⟨holder, .commit, .error .lost, _, _, _, _⟩ => holder == thread
  | _ => false

theorem lost_iff {world : World} {thread : Nat} :
    Lost world thread ↔ world.hist.any (Event.loses thread) = true := by
  simp only [List.any_eq_true]
  constructor
  · rintro ⟨time, commits, acts, view, logged⟩
    exact ⟨_, logged, by simp [Event.loses]⟩
  · rintro ⟨event, logged, loses⟩
    unfold Event.loses at loses
    split at loses
    · rw [beq_iff_eq] at loses
      subst loses
      exact ⟨_, _, _, _, logged⟩
    · cases loses

instance (world : World) (thread : Nat) : Decidable (Lost world thread) :=
  decidable_of_iff _ lost_iff.symm

/-- A recorded SELECT answered what its view says, and so did a row's lock. -/
def Event.Answered : Event → Prop
  | ⟨_, .query query, .ok result, _, _, _, view⟩ => result = query.eval view
  | ⟨_, .lock table id, .ok (some row), _, _, _, view⟩ => view.rows table id = some row
  | _ => True

/-- The event saw the database as it was after `commits` commits, with the
thread's own pending acts. -/
structure Event.Truthful (log : List (Nat × List Entry)) (event : Event) : Prop where
  answered : event.Answered
  bound : event.commits ≤ log.length
  rows : event.view.rows = replay event.pending (storeAfter log event.commits)

structure Ready (world : World) : Prop where
  sound : RowLock.Sound Act.run world.db
  kept : ∀ thread txn, world.db.txns thread = some txn → ∀ entry ∈ txn.acts, Kept entry
  idle : ∀ thread, world.arrivals.length ≤ thread → world.db.txns thread = none
  recorded : world.db.store = storeAfter world.db.log world.db.log.length
  truthful : ∀ event ∈ world.hist, event.Truthful world.db.log

/-- What a thread relies on while others take steps. -/
structure Rely (thread : Nat) (before after : World) : Prop where
  db : RowLock.Undisturbed thread before.db after.db
  clock : before.clock ≤ after.clock
  hist : before.hist <+: after.hist
  own : after.hist.filter (fun event => event.thread == thread) =
    before.hist.filter (fun event => event.thread == thread)
  arrivals : before.arrivals <+: after.arrivals
  stays : ∀ table id, table ≠ .plans → (before.db.store table id).isSome →
    (after.db.store table id).isSome

/-- What a thread keeps across its own steps as well, until it commits. -/
structure Carries (thread : Nat) (before after : World) : Prop where
  db : RowLock.Keeps thread before.db after.db
  clock : before.clock ≤ after.clock
  hist : before.hist <+: after.hist
  arrivals : before.arrivals <+: after.arrivals
  stays : ∀ table id, table ≠ .plans → (before.db.store table id).isSome →
    (after.db.store table id).isSome

theorem rely_refl (thread : Nat) (world : World) : Rely thread world world :=
  ⟨RowLock.undisturbed_refl _ _, Int.le_refl _, List.prefix_refl _, rfl, List.prefix_refl _,
    fun _ _ _ present => present⟩

theorem rely_trans {thread : Nat} {first second third : World}
    (left : Rely thread first second) (right : Rely thread second third) :
    Rely thread first third where
  db := RowLock.undisturbed_trans left.db right.db
  clock := Int.le_trans left.clock right.clock
  hist := left.hist.trans right.hist
  own := right.own.trans left.own
  arrivals := left.arrivals.trans right.arrivals
  stays := fun table id other present =>
    right.stays table id other (left.stays table id other present)

theorem carries_refl (thread : Nat) (world : World) : Carries thread world world :=
  ⟨RowLock.keeps_refl _ _, Int.le_refl _, List.prefix_refl _, List.prefix_refl _,
    fun _ _ _ present => present⟩

theorem carries_trans {thread : Nat} {first second third : World}
    (left : Carries thread first second) (right : Carries thread second third) :
    Carries thread first third where
  db := RowLock.keeps_trans left.db right.db
  clock := Int.le_trans left.clock right.clock
  hist := left.hist.trans right.hist
  arrivals := left.arrivals.trans right.arrivals
  stays := fun table id other present =>
    right.stays table id other (left.stays table id other present)

theorem Rely.carries {thread : Nat} {before after : World} (rely : Rely thread before after) :
    Carries thread before after :=
  ⟨rely.db.keeps, rely.clock, rely.hist, rely.arrivals, rely.stays⟩

section Steps
variable {thread other : Nat} {now : Time} {db after : Database}

theorem dbStep_undisturbed (sound : RowLock.Sound Act.run db) (different : thread ≠ other)
    (step : DbStep other now db after) : RowLock.Undisturbed thread db after := by
  cases step with
  | same => exact RowLock.undisturbed_refl _ _
  | opened => exact RowLock.begin_undisturbed different now
  | committed => exact RowLock.commit_undisturbed sound different
  | undone => exact RowLock.rollback_undisturbed different
  | locked table id granted => exact RowLock.acquire_undisturbed granted
  | wrote entry kept granted => exact RowLock.write_undisturbed different granted
  | inserted table row granted =>
      exact RowLock.undisturbed_trans (RowLock.reserve_undisturbed table)
        (RowLock.write_undisturbed different granted)

theorem dbStep_sound (sound : RowLock.Sound Act.run db) (step : DbStep thread now db after) :
    RowLock.Sound Act.run after := by
  cases step with
  | same => exact sound
  | opened => exact RowLock.sound_begin sound now
  | committed => exact RowLock.sound_commit sound
  | undone => exact RowLock.sound_rollback sound
  | locked table id granted => exact RowLock.sound_acquire sound granted
  | wrote entry kept granted => exact RowLock.sound_write sound granted
  | inserted table row granted =>
      exact RowLock.sound_write (RowLock.sound_reserve sound table) granted

theorem dbStep_store (step : DbStep thread now db after) :
    after = db.commit thread ∨ (after.log = db.log ∧ after.store = db.store) := by
  cases step with
  | same => exact Or.inr ⟨rfl, rfl⟩
  | opened =>
      right
      unfold RowLock.State.begin
      split <;> simp
  | committed => exact Or.inl rfl
  | undone => exact Or.inr ⟨rfl, rfl⟩
  | locked table id granted =>
      obtain ⟨_, store, _, log⟩ := RowLock.acquire_same granted
      exact Or.inr ⟨log, store⟩
  | wrote entry kept granted =>
      obtain ⟨store, _, log⟩ := RowLock.write_same granted
      exact Or.inr ⟨log, store⟩
  | inserted table row granted =>
      obtain ⟨store, _, log⟩ := RowLock.write_same granted
      exact Or.inr ⟨log, store⟩

theorem runEntry_stays (store : Store) (entry : Entry) (kept : Kept entry) (table : TableName)
    (id : Nat) (row : table ≠ .plans) (present : (store table id).isSome) :
    (RowLock.runEntry Act.run store entry table id).isSome := by
  by_cases hit : table = entry.table ∧ id = entry.id
  · obtain ⟨rfl, rfl⟩ := hit
    rw [RowLock.runEntry_at]
    unfold Kept at kept
    cases act : entry.act with
    | insert inserted => simp [Act.run]
    | update op now => simpa [Act.run] using present
    | delete =>
        rw [act] at kept
        exact absurd kept row
  · rwa [RowLock.runEntry_other _ _ _ _ _ hit]

theorem replay_stays (entries : List Entry) (store : Store) (kept : ∀ entry ∈ entries, Kept entry)
    (table : TableName) (id : Nat) (row : table ≠ .plans) (present : (store table id).isSome) :
    (replay entries store table id).isSome := by
  induction entries generalizing store with
  | nil => exact present
  | cons entry rest ih =>
      exact ih _ (fun other member => kept other (List.mem_cons_of_mem entry member))
        (runEntry_stays store entry (kept entry (by simp)) table id row present)

end Steps

section Exec
variable {thread other : Nat} {world after : World} {choice : Choice}

theorem failed_error (world : World) (thread : Nat) (took : Bool) (cmd : Cmd) :
    ∃ error, (world.failed thread took cmd).1 = .error error := by
  cases cmd with
  | commit => cases took <;> exact ⟨_, rfl⟩
  | _ => exact ⟨_, rfl⟩

theorem failed_dbStep (world : World) (thread : Nat) (took : Bool) (cmd : Cmd) :
    DbStep thread world.clock world.db (world.failed thread took cmd).2.db := by
  cases cmd with
  | commit =>
      cases took with
      | true => exact .committed
      | false => exact .undone
  | rollback => exact .undone
  | ndsctl command => cases took <;> exact .same
  | _ => exact .same

/-- What a command does that neither waits nor is made to fail: everything that
is said of a statement rests on this inversion of `succeeded`. -/
inductive Effect (world : World) (thread : Nat) (choice : Choice) (view : View) :
    (cmd : Cmd) → Except Failure (Res cmd) → World → Prop where
  | began : Effect world thread choice view .begin (.ok ())
      { world with db := world.db.begin thread world.clock }
  | committed : Effect world thread choice view .commit (.ok ())
      { world with db := world.db.commit thread }
  | undone : Effect world thread choice view .rollback (.ok ())
      { world with db := world.db.rollback thread }
  | asked (query : Query) : Effect world thread choice view (.query query)
    (.ok (query.eval view)) world
  | unlocked {table : TableName} {id : Nat} (absent : world.db.view thread table id = none) :
      Effect world thread choice view (.lock table id) (.ok none) world
  | locked {table : TableName} {id : Nat} {row : Row table} {db : Database}
      (present : world.db.view thread table id = some row)
      (granted : world.db.acquire thread table id = some db) :
      Effect world thread choice view (.lock table id) (.ok (some row)) { world with db }
  | missed {table : TableName} {id : Nat} {op : Op table}
      (absent : world.db.view thread table id = none) :
      Effect world thread choice view (.update table id op) (.ok none) world
  | broken {table : TableName} {id : Nat} {op : Op table} :
      Effect world thread choice view (.update table id op) (.error .query) world
  | updated {table : TableName} {id : Nat} {op : Op table} {row : Row table} {db : Database}
      (present : world.db.view thread table id = some row)
      (linked : World.resolves (world.db.view thread) table (Op.run table op view.now row) = true)
      (standing : world.planDoomed thread table (Op.run table op view.now row) = false)
      (written : world.db.write Act.run thread ⟨table, id, .update op view.now⟩ = some db) :
      Effect world thread choice view (.update table id op)
        (.ok (some (Op.run table op view.now row))) { world with db }
  | skipped {table : TableName} {row : Time → Row table} :
      Effect world thread choice view (.insert table row true) (.ok none) world
  | refused {table : TableName} {row : Time → Row table} {skip : Bool} :
      Effect world thread choice view (.insert table row skip) (.error .query) world
  | inserted {table : TableName} {row : Time → Row table} {skip : Bool} {db : Database}
      (free : world.contended thread table (row view.now) = false)
      (standing : world.planDoomed thread table (row view.now) = false)
      (single : world.clash (world.db.view thread) table (row view.now) = false)
      (linked : World.resolves (world.db.view thread) table (row view.now) = true)
      (written : (world.db.reserve table).write Act.run thread
        ⟨table, world.db.next table, .insert (row view.now)⟩ = some db) :
      Effect world thread choice view (.insert table row skip)
        (.ok (some (world.db.next table, row view.now))) { world with db }
  | gone {id : Nat} : Effect world thread choice view (.deletePlan id) (.ok ()) world
  | referenced {id : Nat} : Effect world thread choice view (.deletePlan id) (.error .query) world
  | deleted {id : Nat} {db : Database} (free : world.planAwaited thread id = false)
      (unreferenced : ∀ request < world.db.next .planRequests, ∀ row : PlanRequestRow,
        world.db.view thread .planRequests request = some row → row.source.planId ≠ some id)
      (written : world.db.write Act.run thread ⟨.plans, id, .delete⟩ = some db) :
      Effect world thread choice view (.deletePlan id) (.ok ()) { world with db }
  | timed : Effect world thread choice view .dateNow (.ok world.clock) world
  | drew (count : Nat) : Effect world thread choice view (.randomBytes count)
      (.ok ((List.range count).map fun index => choice.random.getD index 0 % 256)) world
  | ordered (command : NdsCommand) : Effect world thread choice view (.ndsctl command)
      (command.run world.clients).1 { world with clients := (command.run world.clients).2 }
  | audited (actor : Option Nat) (action : String) :
      Effect world thread choice view (.audit actor action) (.ok ()) world

section Effects
variable {table : TableName} {id : Nat}

theorem lock_effect {answer : Except Failure (Option (Row table))}
    (executed : world.succeeded thread choice (.lock table id) = some (answer, after)) :
    Effect world thread choice (world.view thread choice.order) (.lock table id) answer after := by
  simp only [World.succeeded] at executed
  split at executed
  · rename_i absent
    cases executed
    exact .unlocked absent
  · rename_i row present
    split at executed
    · cases executed
    · simp only [Option.map_eq_some_iff, Prod.mk.injEq] at executed
      obtain ⟨db, granted, rfl, rfl⟩ := executed
      exact .locked present granted

theorem update_effect {op : Op table} {answer : Except Failure (Option (Row table))}
    (executed : world.succeeded thread choice (.update table id op) = some (answer, after)) :
    Effect world thread choice (world.view thread choice.order) (.update table id op) answer
      after := by
  simp only [World.succeeded] at executed
  split at executed
  · rename_i absent
    cases executed
    exact .missed absent
  · rename_i row present
    split at executed
    · rename_i linked
      split at executed
      · cases executed
      · rename_i standing
        rw [Bool.or_eq_true, not_or] at standing
        simp only [Option.map_eq_some_iff, Prod.mk.injEq, World.write] at executed
        obtain ⟨_, ⟨db, written, rfl⟩, rfl, rfl⟩ := executed
        exact .updated present linked (Bool.eq_false_iff.mpr standing.1) written
    · cases executed
      exact .broken

theorem insert_effect {row : Time → Row table} {skip : Bool}
    {answer : Except Failure (Option (Nat × Row table))}
    (executed : world.succeeded thread choice (.insert table row skip) = some (answer, after)) :
    Effect world thread choice (world.view thread choice.order) (.insert table row skip) answer
      after := by
  simp only [World.succeeded] at executed
  split at executed
  · cases executed
  · rename_i free
    rw [Bool.or_eq_true, not_or] at free
    split at executed
    · simp only [Option.some.injEq, Prod.mk.injEq] at executed
      obtain ⟨rfl, rfl⟩ := executed
      cases skip with
      | true => exact .skipped
      | false => exact .refused
    · rename_i single
      split at executed
      · rename_i linked
        split at executed
        · cases executed
        · simp only [Option.map_eq_some_iff, Prod.mk.injEq, World.write] at executed
          obtain ⟨_, ⟨db, written, rfl⟩, rfl, rfl⟩ := executed
          exact .inserted (Bool.eq_false_iff.mpr free.1) (Bool.eq_false_iff.mpr free.2)
            (Bool.eq_false_iff.mpr single) linked written
      · cases executed
        exact .refused

theorem delete_effect {answer : Except Failure Unit}
    (executed : world.succeeded thread choice (.deletePlan id) = some (answer, after)) :
    Effect world thread choice (world.view thread choice.order) (.deletePlan id) answer after := by
  simp only [World.succeeded] at executed
  split at executed
  · cases executed
    exact .gone
  · split at executed
    · cases executed
    · rename_i free
      split at executed
      · cases executed
        exact .referenced
      · rename_i unreferenced
        simp only [Option.map_eq_some_iff, Prod.mk.injEq, World.write] at executed
        obtain ⟨_, ⟨db, written, rfl⟩, rfl, rfl⟩ := executed
        refine .deleted (Bool.eq_false_iff.mpr free) ?_ written
        intro request bound row present refers
        refine unreferenced (List.any_eq_true.mpr ⟨request, List.mem_range.mpr bound, ?_⟩)
        simp [present, World.refersTo, refers]

end Effects

theorem succeeded_effect {cmd : Cmd} {answer : Except Failure (Res cmd)}
    (executed : world.succeeded thread choice cmd = some (answer, after)) :
    Effect world thread choice (world.view thread choice.order) cmd answer after := by
  cases cmd with
  | lock table id => exact lock_effect executed
  | update table id op => exact update_effect executed
  | insert table row skip => exact insert_effect executed
  | deletePlan id => exact delete_effect executed
  | begin =>
      cases executed
      exact .began
  | commit =>
      cases executed
      exact .committed
  | rollback =>
      cases executed
      exact .undone
  | query query =>
      cases executed
      exact .asked query
  | dateNow =>
      cases executed
      exact .timed
  | randomBytes count =>
      cases executed
      exact .drew count
  | ndsctl command =>
      cases executed
      exact .ordered command
  | audit actor action =>
      simp only [World.succeeded] at executed
      split at executed
      · cases executed
      · cases executed
        exact .audited actor action

theorem succeeded_dbStep {cmd : Cmd} {answer : Except Failure (Res cmd)}
    (executed : world.succeeded thread choice cmd = some (answer, after)) :
    DbStep thread world.clock world.db after.db := by
  cases succeeded_effect executed with
  | began => exact .opened
  | committed => exact .committed
  | undone => exact .undone
  | locked present granted => exact .locked _ _ granted
  | updated present linked standing written =>
      refine .wrote _ ?_ written
      trivial
  | inserted free standing single linked written => exact .inserted _ _ written
  | deleted free unreferenced written =>
      refine .wrote _ ?_ written
      rfl
  | _ => exact .same

/-- Only an `ndsctl` command touches the clients of OpenNDS. -/
def SameClients (cmd : Cmd) (world after : World) : Prop :=
  after.clients = world.clients ∨
    ∃ command, cmd = .ndsctl command ∧ after.clients = (command.run world.clients).2

theorem failed_same (world : World) (thread : Nat) (took : Bool) (cmd : Cmd) :
    (world.failed thread took cmd).2.clock = world.clock ∧
      (world.failed thread took cmd).2.arrivals = world.arrivals ∧
      (world.failed thread took cmd).2.hist = world.hist ∧
      SameClients cmd world (world.failed thread took cmd).2 := by
  cases cmd with
  | ndsctl command =>
      cases took with
      | true => exact ⟨rfl, rfl, rfl, Or.inr ⟨command, rfl, rfl⟩⟩
      | false => exact ⟨rfl, rfl, rfl, Or.inl rfl⟩
  | commit => cases took <;> exact ⟨rfl, rfl, rfl, Or.inl rfl⟩
  | _ => exact ⟨rfl, rfl, rfl, Or.inl rfl⟩

theorem succeeded_same {cmd : Cmd} {answer : Except Failure (Res cmd)}
    (executed : world.succeeded thread choice cmd = some (answer, after)) :
    after.clock = world.clock ∧ after.arrivals = world.arrivals ∧ after.hist = world.hist ∧
      SameClients cmd world after := by
  cases succeeded_effect executed with
  | ordered command => exact ⟨rfl, rfl, rfl, Or.inr ⟨command, rfl, rfl⟩⟩
  | _ => exact ⟨rfl, rfl, rfl, Or.inl rfl⟩

def World.eventOf (world : World) (thread : Nat) (cmd : Cmd) (choice : Choice)
    (answer : Except Failure (Res cmd)) : Event :=
  ⟨thread, cmd, answer, world.clock + choice.elapsed, world.db.log.length,
    world.pendingActs thread,
    ({ world with clock := world.clock + choice.elapsed } : World).view thread choice.order⟩

theorem exec_cases {cmd : Cmd} {answer : Except Failure (Res cmd)}
    (executed : world.exec thread cmd choice = some (answer, after)) :
    after.clock = world.clock + choice.elapsed ∧ after.arrivals = world.arrivals ∧
      after.hist = world.hist ++ [world.eventOf thread cmd choice answer] ∧
      DbStep thread (world.clock + choice.elapsed) world.db after.db := by
  simp only [World.exec, Option.map_eq_some_iff, Prod.exists, Prod.mk.injEq] at executed
  obtain ⟨reply, reached, result, rfl, rfl⟩ := executed
  split at result
  · obtain ⟨clock, arrivals, hist, _⟩ := failed_same
      { world with clock := world.clock + choice.elapsed } thread choice.took cmd
    have stepped := failed_dbStep
      { world with clock := world.clock + choice.elapsed } thread choice.took cmd
    rw [Option.some.injEq] at result
    rw [result] at clock arrivals hist stepped
    exact ⟨clock, arrivals, by rw [hist]; rfl, stepped⟩
  · obtain ⟨clock, arrivals, hist, _⟩ := succeeded_same result
    have stepped := succeeded_dbStep result
    exact ⟨clock, arrivals, by rw [hist]; rfl, stepped⟩

theorem exec_clients {cmd : Cmd} {answer : Except Failure (Res cmd)}
    (executed : world.exec thread cmd choice = some (answer, after)) :
    SameClients cmd world after := by
  simp only [World.exec, Option.map_eq_some_iff, Prod.exists, Prod.mk.injEq] at executed
  obtain ⟨reply, reached, result, rfl, rfl⟩ := executed
  split at result
  · have clients := (failed_same { world with clock := world.clock + choice.elapsed } thread
      choice.took cmd).2.2.2
    rw [Option.some.injEq] at result
    rw [result] at clients
    exact clients
  · exact (succeeded_same result).2.2.2

end Exec

section Ready
variable {thread other : Nat} {now : Time} {world after : World} {choice : Choice}

theorem inTxn_of_some {db : Database} {txn : RowLock.Txn Row Act}
    (present : db.txns thread = some txn) : RowLock.InTxn db thread txn.began txn.acts :=
  ⟨txn.rows, present⟩

theorem commit_idle {db : Database} (outside : db.txns thread = none) :
    db.commit thread = db := by
  simp [RowLock.State.commit, outside]

theorem dbStep_stays {db reached : Database} (sound : RowLock.Sound Act.run db)
    (kept : ∀ txn, db.txns thread = some txn → ∀ entry ∈ txn.acts, Kept entry)
    (step : DbStep thread now db reached) (table : TableName) (id : Nat) (row : table ≠ .plans)
    (present : (db.store table id).isSome) : (reached.store table id).isSome := by
  rcases dbStep_store step with rfl | ⟨_, store⟩
  · cases opened : db.txns thread with
    | none => rwa [commit_idle opened]
    | some txn =>
        rw [(RowLock.commit_replays sound (inTxn_of_some opened)).1]
        exact replay_stays txn.acts db.store (kept txn opened) table id row present
  · rwa [store]

theorem dbStep_recorded {db reached : Database} (sound : RowLock.Sound Act.run db)
    (recorded : db.store = storeAfter db.log db.log.length) (step : DbStep thread now db reached) :
    reached.store = storeAfter reached.log reached.log.length := by
  rcases dbStep_store step with rfl | ⟨log, store⟩
  · cases opened : db.txns thread with
    | none => rwa [commit_idle opened]
    | some txn =>
        obtain ⟨store, log⟩ := RowLock.commit_replays sound (inTxn_of_some opened)
        rw [store, log, List.length_append, List.length_singleton,
          storeAfter_succ _ db.log.length (thread, txn.acts) (by simp),
          storeAfter_append _ _ _ (Nat.le_refl _), ← recorded]
        rfl
  · rw [log, store, recorded]

theorem write_kept {db reached : Database} {entry : Entry} (new : Kept entry)
    (kept : ∀ thread txn, db.txns thread = some txn → ∀ entry ∈ txn.acts, Kept entry)
    (granted : db.write Act.run other entry = some reached) :
    ∀ thread txn, reached.txns thread = some txn → ∀ entry ∈ txn.acts, Kept entry := by
  intro holder txn present act member
  by_cases same : holder = other
  · subst same
    obtain ⟨held, before, acquired, opened, rfl⟩ := RowLock.write_cases granted
    rw [(RowLock.acquire_same acquired).1] at opened
    simp only [Function.update_self, Option.some.injEq] at present
    subst present
    rcases List.mem_append.mp member with earlier | latest
    · exact kept holder before opened act earlier
    · rw [List.mem_singleton] at latest
      exact latest ▸ new
  · rw [(RowLock.write_undisturbed same granted).txn] at present
    exact kept holder txn present act member

theorem dbStep_kept {db reached : Database}
    (kept : ∀ thread txn, db.txns thread = some txn → ∀ entry ∈ txn.acts, Kept entry)
    (step : DbStep other now db reached) :
    ∀ thread txn, reached.txns thread = some txn → ∀ entry ∈ txn.acts, Kept entry := by
  cases step with
  | same => exact kept
  | opened =>
      intro holder txn present act member
      rcases RowLock.begin_txns present with earlier | ⟨_, rfl⟩
      · exact kept holder txn earlier act member
      · cases member
  | committed =>
      exact fun holder txn present => kept holder txn (RowLock.commit_txns present).2
  | undone =>
      exact fun holder txn present => kept holder txn (RowLock.rollback_txns present).2
  | locked table id granted =>
      rw [(RowLock.acquire_same granted).1]
      exact kept
  | wrote entry new granted => exact write_kept new kept granted
  | inserted table row granted =>
      refine write_kept ?_ ?_ granted
      · trivial
      · exact kept

theorem dbStep_idle {db reached : Database} (sound : RowLock.Sound Act.run db)
    (different : thread ≠ other) (outside : db.txns thread = none)
    (step : DbStep other now db reached) : reached.txns thread = none :=
  (dbStep_undisturbed sound different step).txn.trans outside

theorem view_pending (ready : Ready world) :
    world.db.view thread = replay (world.pendingActs thread) world.db.store := by
  unfold World.pendingActs
  cases opened : world.db.txns thread with
  | none => exact RowLock.view_outside opened
  | some txn => exact RowLock.view_inTxn ready.sound (inTxn_of_some opened)

theorem dbStep_log {db reached : Database} (step : DbStep thread now db reached) :
    db.log <+: reached.log := by
  rcases dbStep_store step with rfl | ⟨log, _⟩
  · unfold RowLock.State.commit
    split
    · exact List.prefix_refl _
    · exact List.prefix_append _ _
  · exact log ▸ List.prefix_refl _

theorem truthful_later {log later : List (Nat × List Entry)} (grows : log <+: later)
    {event : Event} (truthful : event.Truthful log) : event.Truthful later := by
  refine ⟨truthful.answered, Nat.le_trans truthful.bound grows.length_le, ?_⟩
  rw [truthful.rows, storeAfter_grown grows _ truthful.bound]

theorem exec_answered {cmd : Cmd} {answer : Except Failure (Res cmd)}
    (executed : world.exec thread cmd choice = some (answer, after)) :
    (world.eventOf thread cmd choice answer).Answered := by
  cases cmd with
  | query query =>
      simp only [World.exec, Option.map_eq_some_iff, Prod.exists, Prod.mk.injEq] at executed
      obtain ⟨reply, reached, result, rfl, _⟩ := executed
      split at result
      · cases result
        trivial
      · cases result
        rfl
  | lock table id =>
      simp only [World.exec, Option.map_eq_some_iff, Prod.exists, Prod.mk.injEq] at executed
      obtain ⟨reply, reached, result, rfl, _⟩ := executed
      split at result
      · cases result
        trivial
      · cases lock_effect result with
        | unlocked absent => trivial
        | locked present granted => exact present
  | _ => trivial

theorem exec_truthful (ready : Ready world) {cmd : Cmd} {answer : Except Failure (Res cmd)}
    (executed : world.exec thread cmd choice = some (answer, after)) :
    ∀ event ∈ after.hist, event.Truthful after.db.log := by
  obtain ⟨_, _, hist, step⟩ := exec_cases executed
  have grows := dbStep_log step
  intro event member
  rw [hist] at member
  rcases List.mem_append.mp member with earlier | latest
  · exact truthful_later grows (ready.truthful event earlier)
  · rw [List.mem_singleton] at latest
    subst latest
    refine truthful_later grows ⟨exec_answered executed, Nat.le_refl _, ?_⟩
    have seen : world.db.view thread = _ := view_pending ready
    rw [ready.recorded] at seen
    exact seen

theorem exec_ready (ready : Ready world) (known : thread < world.arrivals.length) {cmd : Cmd}
    {answer : Except Failure (Res cmd)}
    (executed : world.exec thread cmd choice = some (answer, after)) : Ready after := by
  obtain ⟨_, arrivals, _, step⟩ := exec_cases executed
  refine ⟨dbStep_sound ready.sound step, dbStep_kept ready.kept step, ?_,
    dbStep_recorded ready.sound ready.recorded step, exec_truthful ready executed⟩
  intro idle beyond
  rw [arrivals] at beyond
  have different : idle ≠ thread := fun same => absurd known (by omega)
  exact dbStep_idle ready.sound different (ready.idle idle beyond) step

theorem exec_rely (ready : Ready world) (different : thread ≠ other) {cmd : Cmd}
    {answer : Except Failure (Res cmd)}
    (executed : world.exec other cmd choice = some (answer, after)) :
    Rely thread world after := by
  obtain ⟨clock, arrivals, hist, step⟩ := exec_cases executed
  refine ⟨dbStep_undisturbed ready.sound different step, ?_, ?_, ?_, ?_,
    dbStep_stays ready.sound (ready.kept other) step⟩
  · rw [clock]
    exact Int.le_add_of_nonneg_right (Int.natCast_nonneg _)
  · rw [hist]
    exact List.prefix_append _ _
  · rw [hist, List.filter_append]
    simp [World.eventOf, Ne.symm different]
  · exact arrivals ▸ List.prefix_refl _

theorem start_ready (call : Call) (ready : Ready world) : Ready (world.start call) := by
  refine ⟨ready.sound, ready.kept, ?_, ready.recorded, ready.truthful⟩
  intro idle beyond
  simp only [World.start, List.length_append, List.length_singleton] at beyond
  exact ready.idle idle (by omega)

theorem start_rely (call : Call) : Rely thread world (world.start call) :=
  ⟨RowLock.undisturbed_refl _ _, Int.le_refl _, List.prefix_refl _, rfl,
    List.prefix_append _ _, fun _ _ _ present => present⟩

theorem crash_ready (ready : Ready world) : Ready (world.crash thread) := by
  have step : DbStep thread world.clock world.db (world.crash thread).db := .undone
  refine ⟨dbStep_sound ready.sound step, dbStep_kept ready.kept step, ?_,
    dbStep_recorded ready.sound ready.recorded step, ready.truthful⟩
  intro idle beyond
  by_cases same : idle = thread
  · subst same
    exact RowLock.rollback_outside
  · exact dbStep_idle ready.sound same (ready.idle idle beyond) step

theorem crash_rely (different : thread ≠ other) : Rely thread world (world.crash other) :=
  ⟨RowLock.rollback_undisturbed different, Int.le_refl _, List.prefix_refl _, rfl,
    List.prefix_refl _, fun _ _ _ present => present⟩

theorem ambient_cases {event : Ambient} (happened : world.ambient event = some after) :
    after.db = world.db ∧ world.clock ≤ after.clock ∧ after.arrivals = world.arrivals ∧
      after.hist = world.hist := by
  cases event with
  | elapse milliseconds =>
      cases happened
      exact ⟨rfl, Int.le_add_of_nonneg_right (Int.natCast_nonneg _), rfl, rfl⟩
  | clients clients =>
      simp only [World.ambient] at happened
      split at happened
      · cases happened
        exact ⟨rfl, Int.le_refl _, rfl, rfl⟩
      · cases happened

theorem ambient_ready {event : Ambient} (ready : Ready world)
    (happened : world.ambient event = some after) : Ready after := by
  obtain ⟨db, _, arrivals, hist⟩ := ambient_cases happened
  refine ⟨db ▸ ready.sound, db ▸ ready.kept, ?_, db ▸ ready.recorded,
    by rw [db, hist]; exact ready.truthful⟩
  intro idle beyond
  rw [db]
  exact ready.idle idle (arrivals ▸ beyond)

theorem ambient_rely {event : Ambient} (happened : world.ambient event = some after) :
    Rely thread world after := by
  obtain ⟨db, clock, arrivals, hist⟩ := ambient_cases happened
  refine ⟨db ▸ RowLock.undisturbed_refl _ _, clock, hist ▸ List.prefix_refl _, by rw [hist],
    arrivals ▸ List.prefix_refl _, ?_⟩
  intro table id _ present
  rwa [db]

theorem initial_ready : Ready World.initial := by
  refine ⟨⟨?_, ?_, ?_, ?_, ?_⟩, ?_, ?_, ?_, ?_⟩ <;>
    simp [World.initial, emptyDatabase, storeAfter, replay]

end Ready

/-- The backend and the session manager as one machine. -/
def server (config : Config) : Machine Cmd Res Failure Choice Call Ambient Reply World where
  exec := World.exec
  body := Call.program config
  calls := World.arrivals
  start := World.start
  crash := World.crash
  ambient := World.ambient
  exec_calls := by
    intro thread cmd choice state answer after executed
    exact (exec_cases executed).2.1
  start_calls _ _ := rfl
  crash_calls _ _ := rfl
  ambient_calls := by
    intro event state after happened
    exact (ambient_cases happened).2.2.1

abbrev ServerPool := Pool Cmd Res Failure Reply World

/-- Every interleaving of any calls, crashes and client movements, starting
from the migrated, empty database. -/
abbrev Reached (config : Config) (pool : ServerPool) : Prop :=
  Reachable (server config) World.initial pool

def viewNow (pool : ServerPool) : View :=
  ⟨pool.state.db.store, pool.state.db.next, pool.state.clock, id, pool.state.clients⟩

/-! Concrete runs, for the instances that stand next to the results. -/

def play (config : Config) (moves : List (Move Choice Call Ambient)) : Option ServerPool :=
  run (server config) ⟨World.initial, []⟩ moves

/-- What a call has answered or thrown, if it has ended. -/
def answerOf (pool : ServerPool) (thread : Nat) : Option (Except Failure Reply) :=
  match pool.threads[thread]? with
  | some (some (.done reply)) => some (.ok reply)
  | some (some (.raise error)) => some (.error error)
  | _ => none

theorem answerOf_ok {pool : ServerPool} {thread : Nat} {reply : Reply}
    (answer : answerOf pool thread = some (.ok reply)) :
    pool.threads[thread]? = some (some (.done reply)) := by
  unfold answerOf at answer
  split at answer
  · cases answer
    assumption
  · cases answer
  · cases answer

theorem answerOf_error {pool : ServerPool} {thread : Nat} {error : Failure}
    (answer : answerOf pool thread = some (.error error)) :
    pool.threads[thread]? = some (some (.raise error)) := by
  unfold answerOf at answer
  split at answer
  · cases answer
  · cases answer
    assumption
  · cases answer

def holdings (pool : ServerPool) (id : Nat) : Option (Int × Nat) :=
  (pool.state.db.store .users id).map fun user : UserRow =>
    (user.remainingSeconds, user.deviceLimit)

theorem play_shows (config : Config) {β : Type} (moves : List (Move Choice Call Ambient))
    (look : ServerPool → β) (seen : β) (played : (play config moves).map look = some seen) :
    ∃ pool, Reached config pool ∧ pool.state.arrivals = started moves ∧ look pool = seen := by
  obtain ⟨pool, ran, same⟩ := Option.map_eq_some_iff.mp played
  exact ⟨pool, run_reachable _ World.initial moves ⟨World.initial, []⟩ pool .init ran,
    run_calls _ _ _ moves ran, same⟩

theorem plays_show (config : Config) {β : Type} (moves rest : List (Move Choice Call Ambient))
    (look : ServerPool → ServerPool → β) (seen : β)
    (played : ((play config moves).bind fun middle =>
      (run (server config) middle rest).map (look middle)) = some seen) :
    ∃ middle final, Reached config middle ∧ run (server config) middle rest = some final ∧
      middle.state.arrivals = started moves ∧
      final.state.arrivals = started moves ++ started rest ∧ look middle final = seen := by
  obtain ⟨middle, ran, onward⟩ := Option.bind_eq_some_iff.mp played
  obtain ⟨final, ran', same⟩ := Option.map_eq_some_iff.mp onward
  have calls : middle.state.arrivals = started moves := run_calls _ _ _ moves ran
  have more := run_calls _ _ _ rest ran'
  rw [show (server config).calls middle.state = started moves from calls] at more
  exact ⟨middle, final, run_reachable _ World.initial moves ⟨World.initial, []⟩ middle .init ran,
    ran', calls, more, same⟩

/-- A minute past time 0. -/
def firstMinute : Text := "1970-01-01T00:01:00Z".toList

/-- A shop with a five minute cooldown; its hashes only tell texts apart, and of all
expiries it knows the first minute. -/
def shop : Config where
  kickCooldownSeconds := 300
  maxSessionSeconds := 86400
  fasKey := ['k', 'e', 'y']
  hmacSha256 key message := (key ++ message).map (·.toNat % 256)
  argon2Hash _ password := password
  argon2Verify hash password := hash == password
  timestamptz text := if text == firstMinute then some 60000 else none

def staff : AuthUser := ⟨1, ['a', 'd', 'm', 'i', 'n'], .admin⟩
def guest : AuthUser := ⟨2, ['1'], .customer⟩

/-- The thread takes this many steps in a row, none of which fails. -/
def steps (thread count : Nat) : List (Move Choice Call Ambient) :=
  List.replicate count (.advance thread {})

/-- Thread 0 seeds `staff` and `guest`. -/
def opening : List (Move Choice Call Ambient) :=
  .start (.seedAdmin staff.username ['s', 'e', 'c', 'r', 'e', 't'] 1) :: steps 0 9

/-- The guest's phone as OpenNDS redirects it to the portal. -/
def phoneMac : Text :=
  ['a', 'a', ':', 'b', 'b', ':', 'c', 'c', ':', 'd', 'd', ':', 'e', 'e', ':', 'f', 'f']

def tabletMac : Text :=
  ['a', 'a', ':', 'b', 'b', ':', 'c', 'c', ':', 'd', 'd', ':', 'e', 'e', ':', '0', '0']

def phoneIp : Text := ['1', '0', '.', '0', '.', '0', '.', '2']

def phone : ConnectDto where
  clientip := phoneIp
  clientmac := phoneMac
  hid := ['h']
  sig := FasService.sign shop ⟨phoneIp, phoneMac, ['h']⟩
  label := none
  macFormat := by decide
  hidLength := by decide
  sigLength := by decide
  labelLength := by simp

def tablet : ConnectDto where
  clientip := phoneIp
  clientmac := tabletMac
  hid := ['h']
  sig := FasService.sign shop ⟨phoneIp, tabletMac, ['h']⟩
  label := none
  macFormat := by decide
  hidLength := by decide
  sigLength := by decide
  labelLength := by simp

def anHour : GrantTimeDto where
  minutes := 60
  deviceLimit := none
  minutesMin := by decide
  limitMin := deactivate.limitPositive

def hourForTwo : GrantTimeDto where
  minutes := 60
  deviceLimit := some 2
  minutesMin := by decide
  limitMin := by simp

/-- The guest has an hour (thread 1), and OpenNDS knows the phone. -/
def arrival : List (Move Choice Call Ambient) :=
  opening ++ [.start (.grant staff 2 anHour)] ++ steps 1 4 ++
    [.ambient (.clients [(phoneMac, ⟨some phoneMac, some phoneIp, some preauthenticated⟩)])]

def auths (event : Event) : Bool :=
  match event.cmd with
  | .ndsctl (.auth ..) => true
  | _ => false

def deauths (event : Event) : Bool :=
  match event.cmd with
  | .ndsctl (.deauth _) => true
  | _ => false

end Cybera
