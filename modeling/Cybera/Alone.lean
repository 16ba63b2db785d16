import Cybera.Statements

/-!
A thread that nobody interrupts and none of whose calls fails: every statement
is granted at once, and what it sees is what it has written.
-/

namespace Cybera

open Interleaving

def Choice.Works (choice : Choice) : Prop := choice.fails = false

/-- Run by itself, the program returns a value that satisfies `post`. -/
abbrev Alone (config : Config) (thread : Nat) {β : Type} (post : β → World → Prop) :
    Program β → World → Prop :=
  Surely (server config) Choice.Works thread (Returns post)

/-- The foreign keys hold. -/
def Rooted (rows : Store) : Prop :=
  ∀ table id row, rows table id = some row → World.resolves rows table row = true

def Cmd.toNdsctl : Cmd → Option NdsCommand
  | .ndsctl command => some command
  | _ => none

/-- The commands that OpenNDS was given in between. -/
def issued (before after : World) : List NdsCommand :=
  (after.hist.drop before.hist.length).filterMap (·.cmd.toNdsctl)

/-- No transaction is open but the thread's own, which began at `began` and sees `rows`. -/
structure Sole (thread : Nat) (began : Option Time) (rows : Store) (db : Database) : Prop where
  others : ∀ other, other ≠ thread → db.txns other = none
  locks : ∀ table id holder, db.locks table id = some holder → holder = thread
  inside : (db.txns thread).map RowLock.Txn.began = began
  sees : db.view thread = rows
  numbered : ∀ table id, (rows table id).isSome → id < db.next table

/-- The same for a world that `first` has led to, with the commands issued since. -/
structure Solo (thread : Nat) (first : World) (began : Option Time) (rows : Store)
    (commands : List NdsCommand) (world : World) : Prop where
  db : Sole thread began rows world.db
  hist : ∃ events, world.hist = first.hist ++ events ∧
    events.filterMap (·.cmd.toNdsctl) = commands
  clock : first.clock ≤ world.clock

section Databases
variable {thread : Nat} {began : Option Time} {now : Time} {rows : Store} {db : Database}
  {table : TableName} {id : Nat}

theorem sole_begin (sole : Sole thread none rows db) :
    Sole thread (some now) rows (db.begin thread now) := by
  have closed : db.txns thread = none := by simpa using sole.inside
  have opened : db.begin thread now = { db with
      txns := Function.update db.txns thread (some ⟨now, fun _ _ => none, []⟩) } := by
    simp [RowLock.State.begin, closed]
  rw [opened]
  constructor
  · intro other different
    exact (Function.update_of_ne different _ _).trans (sole.others other different)
  · exact sole.locks
  · simp
  · rw [← sole.sees, RowLock.view_outside closed]
    simp only [RowLock.State.view, Function.update_self]
    rfl
  · exact sole.numbered

theorem sole_commit (sole : Sole thread (some now) rows db) :
    Sole thread none rows (db.commit thread) := by
  obtain ⟨txn, opened, _⟩ := Option.map_eq_some_iff.mp sole.inside
  have committed : db.commit thread = { db with
      store := RowLock.overlay txn.rows db.store
      txns := Function.update db.txns thread none
      locks := db.release thread
      log := db.log ++ [(thread, txn.acts)] } := by
    simp [RowLock.State.commit, opened]
  rw [committed]
  constructor
  · intro other different
    exact (Function.update_of_ne different _ _).trans (sole.others other different)
  · intro table id holder held
    exact sole.locks table id holder (RowLock.release_subset holder table id held).1
  · simp
  · rw [← sole.sees]
    simp [RowLock.State.view, opened]
  · exact sole.numbered

theorem sole_reserve (sole : Sole thread began rows db) :
    Sole thread began rows (db.reserve table) := by
  refine ⟨sole.others, sole.locks, sole.inside, sole.sees, ?_⟩
  intro other key present
  have bound := sole.numbered other key present
  by_cases same : other = table
  · subst same
    simpa [RowLock.State.reserve] using Nat.lt_succ_of_lt bound
  · simpa [RowLock.State.reserve, Function.update_of_ne same] using bound

theorem sole_acquire (sole : Sole thread (some now) rows db) (bound : id < db.next table) :
    ∃ held, db.acquire thread table id = some held ∧ Sole thread (some now) rows held ∧
      held.next = db.next := by
  obtain ⟨txn, opened, _⟩ := Option.map_eq_some_iff.mp sole.inside
  unfold RowLock.State.acquire
  simp only [opened, Option.isSome_some, bound, decide_true, Bool.and_self, if_true]
  cases lock : db.locks table id with
  | some holder =>
      have mine := sole.locks table id holder lock
      simp only [mine, if_true]
      exact ⟨db, rfl, sole, rfl⟩
  | none =>
      refine ⟨_, rfl, ⟨sole.others, ?_, sole.inside, sole.sees, sole.numbered⟩, rfl⟩
      intro other key holder held
      by_cases hit : other = table ∧ key = id
      · obtain ⟨rfl, rfl⟩ := hit
        simpa using held.symm
      · simp only [RowLock.put_other _ _ _ _ _ _ hit] at held
        exact sole.locks other key holder held

theorem sole_write (sole : Sole thread (some now) rows db) (entry : Entry)
    (bound : entry.id < db.next entry.table) :
    ∃ after, db.write Act.run thread entry = some after ∧
      Sole thread (some now) (RowLock.runEntry Act.run rows entry) after := by
  obtain ⟨held, granted, sole', next⟩ := sole_acquire sole bound
  obtain ⟨txn, opened, began⟩ := Option.map_eq_some_iff.mp sole'.inside
  unfold RowLock.State.write
  simp only [granted, Option.bind_some, opened, Option.map_some]
  refine ⟨_, rfl, ?_, sole'.locks, by simp [began], ?_, ?_⟩
  · intro other different
    exact (Function.update_of_ne different _ _).trans (sole'.others other different)
  · have before : RowLock.overlay txn.rows held.store = rows := by
      rw [← sole'.sees, RowLock.State.view, opened]
    simp only [RowLock.State.view, Function.update_self, opened, RowLock.overlay_put, before]
    rfl
  · intro table id written
    by_cases hit : table = entry.table ∧ id = entry.id
    · obtain ⟨rfl, rfl⟩ := hit
      exact next ▸ bound
    · rw [RowLock.runEntry_other _ _ _ _ _ hit] at written
      exact sole'.numbered table id written

theorem sole_insert (sole : Sole thread (some now) rows db) (row : Row table) :
    ∃ after, (db.reserve table).write Act.run thread (create table (db.next table) row) =
        some after ∧
      Sole thread (some now) (RowLock.runEntry Act.run rows (create table (db.next table) row))
        after ∧
      rows table (db.next table) = none := by
  have reserved : Sole thread (some now) rows (db.reserve table) := sole_reserve sole
  obtain ⟨after, granted, sole'⟩ := sole_write reserved (create table (db.next table) row) (by
    simp [create, RowLock.State.reserve])
  refine ⟨after, granted, sole', ?_⟩
  by_contra present
  exact Nat.lt_irrefl _ (sole.numbered table _ (Option.ne_none_iff_isSome.mp present))

end Databases
section Statements
variable {config : Config} {thread : Nat} {first world after : World} {began : Option Time}
  {now : Time} {rows : Store} {commands : List NdsCommand} {table : TableName} {id : Nat}
  {choice : Choice}

theorem Solo.issued (solo : Solo thread first began rows commands world) :
    Cybera.issued first world = commands := by
  obtain ⟨events, hist, same⟩ := solo.hist
  rw [Cybera.issued, hist, List.drop_left, same]

theorem Solo.store (solo : Solo thread first none rows commands world) : world.db.store = rows := by
  have closed : world.db.txns thread = none := by simpa using solo.db.inside
  rw [← solo.db.sees, RowLock.view_outside closed]

theorem Solo.since {date : Time} (solo : Solo thread first began rows commands world)
    (passed : date ≤ world.clock) :
    Solo thread { first with clock := date } began rows commands world :=
  ⟨solo.db, solo.hist, passed⟩

theorem solo_exec (cmd : Cmd) {answer : Except Failure (Res cmd)} {reached : World}
    {began' : Option Time} {rows' : Store} (solo : Solo thread first began rows commands world)
    (works : choice.Works)
    (ran : (world.advance choice.elapsed).succeeded thread choice cmd = some (answer, reached))
    (sole : Sole thread began' rows' reached.db) :
    ∃ after, world.exec thread cmd choice = some (answer, after) ∧
      after.clock = world.clock + choice.elapsed ∧
      Solo thread first began' rows' (commands ++ cmd.toNdsctl.toList) after := by
  have succeeds : choice.fails = false := works
  have granted : ∃ after, world.exec thread cmd choice = some (answer, after) ∧
      after.db = reached.db := by
    unfold World.exec
    simp only [succeeds, Bool.false_eq_true, if_false, Option.map_eq_some_iff, Prod.exists]
    exact ⟨_, ⟨answer, reached, ran, rfl⟩, rfl⟩
  obtain ⟨after, executed, db⟩ := granted
  obtain ⟨clock, _, hist, _⟩ := exec_cases executed
  obtain ⟨events, past, same⟩ := solo.hist
  refine ⟨after, executed, clock, ?_⟩
  constructor
  · exact db ▸ sole
  · refine ⟨events ++ [world.eventOf thread cmd choice answer], ?_, ?_⟩
    · rw [hist, past, List.append_assoc]
    · rw [List.filterMap_append, same]
      cases command : cmd.toNdsctl <;> simp [World.eventOf, command]
  · rw [clock]
    exact Int.le_trans solo.clock (Int.le_add_of_nonneg_right (Int.natCast_nonneg _))

theorem solo_quiet (cmd : Cmd) (quiet : cmd.toNdsctl = none) {answer : Except Failure (Res cmd)}
    {reached : World} {began' : Option Time} {rows' : Store}
    (solo : Solo thread first began rows commands world) (works : choice.Works)
    (ran : (world.advance choice.elapsed).succeeded thread choice cmd = some (answer, reached))
    (sole : Sole thread began' rows' reached.db) :
    ∃ after, world.exec thread cmd choice = some (answer, after) ∧
      after.clock = world.clock + choice.elapsed ∧
      Solo thread first began' rows' commands after := by
  obtain ⟨after, executed, clock, solo'⟩ := solo_exec cmd solo works ran sole
  rw [quiet, Option.toList_none, List.append_nil] at solo'
  exact ⟨after, executed, clock, solo'⟩

structure View.Shows (view : View) (rows : Store) : Prop where
  same : view.rows = rows
  numbered : ∀ table id, (rows table id).isSome → id < view.next table

theorem alone_query (solo : Solo thread first began rows commands world) (query : Query) :
    Alone config thread (fun answer after => Solo thread first began rows commands after ∧
      ∃ view, answer = query.eval view ∧ view.Shows rows) (select query) world := by
  apply surely_perform
  intro choice works
  obtain ⟨after, executed, _, solo'⟩ := solo_quiet (.query query) rfl solo works rfl solo.db
  exact ⟨_, after, executed, solo', _, rfl, solo.db.sees, solo.db.numbered⟩

theorem alone_dateNow (solo : Solo thread first began rows commands world) :
    Alone config thread (fun date after => Solo thread first began rows commands after ∧
      first.clock ≤ date ∧ date ≤ after.clock) (perform .dateNow) world := by
  apply surely_perform
  intro choice works
  obtain ⟨after, executed, clock, solo'⟩ := solo_quiet .dateNow rfl solo works rfl solo.db
  have passed : first.clock ≤ after.clock := solo'.clock
  rw [clock] at passed
  exact ⟨_, after, executed, solo', passed, Int.le_of_eq clock.symm⟩

theorem alone_begin (solo : Solo thread first none rows commands world) :
    Alone config thread (fun _ after => ∃ now, Solo thread first (some now) rows commands after)
      (perform .begin) world := by
  apply surely_perform
  intro choice works
  obtain ⟨after, executed, _, solo'⟩ := solo_quiet .begin rfl solo works rfl (sole_begin solo.db)
  exact ⟨_, after, executed, _, solo'⟩

theorem alone_commit (solo : Solo thread first (some now) rows commands world) :
    Alone config thread (fun _ after => Solo thread first none rows commands after)
      (perform .commit) world := by
  apply surely_perform
  intro choice works
  obtain ⟨after, executed, _, solo'⟩ := solo_quiet .commit rfl solo works rfl (sole_commit solo.db)
  exact ⟨_, after, executed, solo'⟩

theorem nobody_alone (sole : Sole thread began rows world.db) : world.othersOpen thread = [] := by
  simp only [World.othersOpen, List.filterMap_eq_nil_iff]
  intro other _
  split
  · rfl
  · rename_i different
    exact sole.others other different

theorem undoomed_alone (sole : Sole thread began rows world.db) (row : Row table) :
    world.planDoomed thread table row = false := by
  simp [World.planDoomed, nobody_alone sole]

theorem uncontended_alone (sole : Sole thread began rows world.db) (row : Row table) :
    world.contended thread table row = false := by
  simp [World.contended, nobody_alone sole]

theorem unshared_alone (sole : Sole thread began rows world.db) (target : TableName × Nat) :
    world.keyShared thread target = false := by
  simp [World.keyShared, nobody_alone sole]

theorem untaken_alone (sole : Sole thread began rows world.db) (targets : List (TableName × Nat)) :
    world.keysTaken thread targets = false := by
  rw [World.keysTaken, List.any_eq_false]
  intro target _
  cases held : world.db.locks target.1 target.2 with
  | none => simp
  | some other => simp [sole.locks _ _ _ held]

theorem alone_audit (solo : Solo thread first began rows commands world) (actor : Option Nat)
    (action : String) : Alone config thread
      (fun _ after => Solo thread first began rows commands after)
      (perform (.audit actor action)) world := by
  apply surely_perform
  intro choice works
  have free : ∀ targets, (world.advance choice.elapsed).keysTaken thread targets = false :=
    fun targets => untaken_alone solo.db targets
  have ran : (world.advance choice.elapsed).succeeded thread choice (.audit actor action) =
      some (.ok (), world.advance choice.elapsed) := by
    simp [World.succeeded, free]
  obtain ⟨after, executed, _, solo'⟩ := solo_quiet (.audit actor action) rfl solo works ran solo.db
  exact ⟨_, after, executed, solo'⟩

theorem alone_log (solo : Solo thread first began rows commands world) (actor : Option Nat)
    (action : String) : Alone config thread
      (fun _ after => Solo thread first began rows commands after)
      (AuditService.log actor action) world := by
  apply surely_rescue
  refine surely_mono ?_ _ _ (alone_audit solo actor action)
  rintro (_ | _) after reached
  · exact absurd reached id
  · exact reached

theorem alone_lock (solo : Solo thread first (some now) rows commands world) (row : Row table)
    (present : rows table id = some row) :
    Alone config thread (fun answer after => answer = some row ∧
      Solo thread first (some now) rows commands after) (lockRow table id) world := by
  apply surely_perform
  intro choice works
  have bound := solo.db.numbered table id (Option.isSome_of_eq_some present)
  obtain ⟨held, granted, sole, _⟩ := sole_acquire solo.db bound
  have seen : (world.advance choice.elapsed).db.view thread table id = some row := by
    rw [← present, ← solo.db.sees]
    rfl
  have free : (world.advance choice.elapsed).keyShared thread (table, id) = false :=
    unshared_alone solo.db _
  have granted' : (world.advance choice.elapsed).db.acquire thread table id = some held := granted
  have ran : (world.advance choice.elapsed).succeeded thread choice (.lock table id) =
      some (.ok (some row), { world.advance choice.elapsed with db := held }) := by
    simp [World.succeeded, seen, free, granted']
  obtain ⟨after, executed, _, solo'⟩ := solo_quiet (.lock table id) rfl solo works ran sole
  exact ⟨_, after, executed, rfl, solo'⟩

theorem solo_sees (solo : Solo thread first (some now) rows commands world) (choice : Choice) :
    (world.advance choice.elapsed).db.view thread = rows ∧
      ((world.advance choice.elapsed).view thread choice.order).now = now := by
  obtain ⟨txn, opened, began⟩ := Option.map_eq_some_iff.mp solo.db.inside
  exact ⟨solo.db.sees, by simp [World.view, World.advance, opened, began]⟩

theorem alone_update {op : Op table} (solo : Solo thread first (some now) rows commands world)
    (row : Row table) (present : rows table id = some row)
    (linked : World.resolves rows table (Op.run table op now row) = true) :
    Alone config thread (fun _ after => Solo thread first (some now)
        (RowLock.runEntry Act.run rows (alter table id op now)) commands after)
      (updateRow table id op) world := by
  apply surely_perform
  intro choice works
  have bound := solo.db.numbered table id (Option.isSome_of_eq_some present)
  obtain ⟨written, granted, sole⟩ := sole_write solo.db (alter table id op now) bound
  obtain ⟨seen, time⟩ := solo_sees solo choice
  have standing : (world.advance choice.elapsed).planDoomed thread table (Op.run table op now row) =
      false := undoomed_alone solo.db _
  have free : (world.advance choice.elapsed).keysTaken thread (Op.targets table op) = false :=
    untaken_alone solo.db _
  have put : (world.advance choice.elapsed).write thread ⟨table, id, .update op now⟩ =
      some { world.advance choice.elapsed with db := written } := by
    have granted' : (world.advance choice.elapsed).db.write Act.run thread
        ⟨table, id, .update op now⟩ = some written := granted
    rw [World.write, granted', Option.map_some]
  have ran : (world.advance choice.elapsed).succeeded thread choice (.update table id op) =
      some (.ok (some (Op.run table op now row)),
        { world.advance choice.elapsed with db := written }) := by
    simp only [World.succeeded, seen, present, time, linked, standing, free, put, if_true,
      Bool.or_self, Bool.false_eq_true, if_false, Option.map_some]
  obtain ⟨after, executed, _, solo'⟩ := solo_quiet (.update table id op) rfl solo works ran sole
  exact ⟨_, after, executed, solo'⟩

structure Inserted (rows : Store) (table : TableName) (row : Row table) (id : Nat) : Prop where
  empty : rows table id = none
  linked : World.resolves rows table row = true
  single : ∀ key other, rows table key = some other → conflicts table other row = false

/-- The row is inserted, or skipped for one that it conflicts with, or refused
for a row that it points to and that is missing. -/
theorem surely_insertOrSkip (solo : Solo thread first (some now) rows commands world)
    (row : Time → Row table) :
    Surely (server config) Choice.Works thread (Branch
        (fun answer after =>
          (answer = none ∧ Solo thread first (some now) rows commands after ∧
            ∃ key other, rows table key = some other ∧ conflicts table other (row now) = true) ∨
          ∃ id, answer = some (id, row now) ∧ Inserted rows table (row now) id ∧
            Solo thread first (some now) (RowLock.runEntry Act.run rows (create table id (row now)))
              commands after)
        (fun error _ => error = .query ∧ World.resolves rows table (row now) = false))
      (insertOrSkip table row) world := by
  apply surely_command
  intro choice works
  obtain ⟨seen, time⟩ := solo_sees solo choice
  have free : (world.advance choice.elapsed).contended thread table (row now) = false :=
    uncontended_alone solo.db _
  have standing : (world.advance choice.elapsed).planDoomed thread table (row now) = false :=
    undoomed_alone solo.db _
  by_cases clash : (world.advance choice.elapsed).clash rows table (row now) = true
  · have ran : (world.advance choice.elapsed).succeeded thread choice (.insert table row true) =
        some (.ok none, world.advance choice.elapsed) := by
      simp [World.succeeded, time, seen, free, standing, clash]
    obtain ⟨after, executed, _, solo'⟩ := solo_quiet (.insert table row true) rfl solo works ran
      solo.db
    refine ⟨.ok none, after, executed, Or.inl ⟨rfl, solo', ?_⟩⟩
    obtain ⟨key, _, conflict⟩ := List.any_eq_true.mp clash
    cases present : rows table key with
    | none => simp [present] at conflict
    | some other =>
        rw [present] at conflict
        exact ⟨key, other, present, conflict⟩
  cases linked : World.resolves rows table (row now) with
  | false =>
      have ran : (world.advance choice.elapsed).succeeded thread choice (.insert table row true) =
          some (.error .query, world.advance choice.elapsed) := by
        simp [World.succeeded, time, seen, free, standing, clash, linked]
      obtain ⟨after, executed, _⟩ := solo_quiet (.insert table row true) rfl solo works ran solo.db
      exact ⟨.error .query, after, executed, rfl, rfl⟩
  | true =>
      obtain ⟨written, granted, sole, empty⟩ := sole_insert solo.db (row now)
      have put : ({ world.advance choice.elapsed with
          db := (world.advance choice.elapsed).db.reserve table } : World).write thread
            ⟨table, world.db.next table, .insert (row now)⟩ =
          some { world.advance choice.elapsed with db := written } := by
        have granted' : ((world.advance choice.elapsed).db.reserve table).write Act.run thread
            ⟨table, world.db.next table, .insert (row now)⟩ = some written := granted
        rw [World.write, granted', Option.map_some]
      have ran : (world.advance choice.elapsed).succeeded thread choice (.insert table row true) =
          some (.ok (some (world.db.next table, row now)),
            { world.advance choice.elapsed with db := written }) := by
        have next : (world.advance choice.elapsed).db.next table = world.db.next table := rfl
        have untaken : (world.advance choice.elapsed).keysTaken thread
            (references table (row now)) = false := untaken_alone solo.db _
        simp only [World.succeeded, seen, time, free, standing, untaken, clash, linked, next, put,
          if_true, Bool.or_self, Bool.false_eq_true, if_false, Option.map_some]
      obtain ⟨after, executed, _, solo'⟩ := solo_quiet (.insert table row true) rfl solo works ran
        sole
      refine ⟨.ok _, after, executed, Or.inr ⟨_, rfl, ⟨empty, linked, ?_⟩, solo'⟩⟩
      intro key other present
      have bound := solo.db.numbered table key (Option.isSome_of_eq_some present)
      by_contra conflict
      refine clash (List.any_eq_true.mpr ⟨key, List.mem_range.mpr bound, ?_⟩)
      simpa [present] using conflict

theorem alone_randomBytes (solo : Solo thread first began rows commands world) (count : Nat) :
    Alone config thread (fun bytes after => bytes.length = count ∧
        (∃ choice, after.hist =
          world.hist ++ [world.eventOf thread (.randomBytes count) choice (.ok bytes)]) ∧
        Solo thread first began rows commands after)
      (perform (.randomBytes count)) world := by
  apply surely_perform
  intro choice works
  obtain ⟨after, executed, _, solo'⟩ := solo_quiet (.randomBytes count) rfl solo works rfl solo.db
  obtain ⟨_, _, hist, _⟩ := exec_cases executed
  exact ⟨_, after, executed, by simp, ⟨choice, hist⟩, solo'⟩

theorem alone_rollback (world : World) :
    Alone config thread (fun _ after => world.clock ≤ after.clock) (perform .rollback) world := by
  apply surely_perform
  intro choice works
  have succeeds : choice.fails = false := works
  obtain ⟨after, executed⟩ : ∃ after, world.exec thread .rollback choice =
      some (.ok (), after) := by
    simp [World.exec, World.succeeded, succeeds]
  refine ⟨(), after, executed, ?_⟩
  rw [(exec_cases executed).1]
  exact Int.le_add_of_nonneg_right (Int.natCast_nonneg _)

/-- A transaction either commits what its body has written, or throws what its
body has thrown. -/
theorem surely_tx {α : Type} {post : Except Failure α → World → Prop}
    (solo : Solo thread first none rows commands world) (body : Program α)
    (inside : ∀ opened now, Solo thread first (some now) rows commands opened →
      Surely (server config) Choice.Works thread (Branch
        (fun value closing => ∃ rows' commands',
          Solo thread first (some now) rows' commands' closing ∧
            ∀ after, Solo thread first none rows' commands' after → post (.ok value) after)
        (fun error closing => ∀ after : World, closing.clock ≤ after.clock →
          post (.error error) after)) body opened) :
    Surely (server config) Choice.Works thread post (DbService.tx body) world := by
  apply surely_rescue
  refine surely_bind _ _ _ (alone_begin solo) ?_
  rintro _ opened ⟨now, solo1⟩
  refine surely_then _ _ _ (surely_mono ?_ _ _ (inside opened now solo1))
  rintro (error | value) closing reached
  · refine surely_bind _ _ _ (alone_rollback closing) ?_
    intro _ after later
    exact reached after later
  · obtain ⟨rows', commands', solo2, ends⟩ := reached
    refine surely_bind _ _ _ (alone_commit solo2) ?_
    intro _ after solo3
    exact ends after solo3

theorem alone_json (solo : Solo thread first began rows commands world) :
    Alone config thread (fun answer after => answer = world.clients ∧
        Solo thread first began rows (commands ++ [.json]) after)
      (perform (.ndsctl .json)) world := by
  apply surely_perform
  intro choice works
  obtain ⟨after, executed, _, solo'⟩ := solo_exec (.ndsctl .json) solo works rfl solo.db
  exact ⟨_, after, executed, rfl, solo'⟩

theorem alone_ndsctl (command : NdsCommand) (value : command.Res)
    (solo : Solo thread first began rows commands world) :
    Alone config thread (fun _ after => Solo thread first began rows (commands ++ [command]) after)
      ((perform (.ndsctl command)).rescue fun _ => .done value) world := by
  apply surely_rescue
  intro choice works
  obtain ⟨after, executed, _, solo'⟩ := solo_exec (.ndsctl command) solo works rfl solo.db
  refine ⟨_, after, executed, ?_⟩
  cases (command.run (world.advance choice.elapsed).clients).1 with
  | ok value => exact solo'
  | error error => exact solo'

theorem call_run {post : Except Failure Reply → World → Prop} (call : Call) (pool : ServerPool)
    (sure : Surely (server config) Choice.Works pool.threads.length post (call.program config)
      (pool.state.start call)) (choices : Nat → Choice) (works : ∀ n, (choices n).Works) :
    ∃ steps final, run (server config) pool (.start call ::
        (List.range steps).map fun n => .advance pool.threads.length (choices n)) = some final ∧
      ∃ outcome, answerOf final pool.threads.length = some outcome ∧ post outcome final.state := by
  have present : (pool.threads ++ [some (call.program config)])[pool.threads.length]? =
      some (some (call.program config)) := List.getElem?_concat_length
  obtain ⟨steps, final, ran, ended⟩ := surely_run _
    ⟨pool.state.start call, pool.threads ++ [some (call.program config)]⟩ present sure choices works
  refine ⟨steps, final, ran, ?_⟩
  rcases ended with ⟨reply, answered, reached⟩ | ⟨error, thrown, reached⟩
  · exact ⟨.ok reply, by simp [answerOf, answered], reached⟩
  · exact ⟨.error error, by simp [answerOf, thrown], reached⟩

end Statements
end Cybera
