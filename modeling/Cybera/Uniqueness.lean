import Cybera.Deeds
import Cybera.References

/-!
The UNIQUE constraints. Every statement of every transaction sees rows that keep
them, and no two open transactions have versions that would break them.
-/

namespace Cybera

open Interleaving

structure Unique (db : Database) : Prop where
  stored : ∀ table id key, ∀ row other : Row table, id ≠ key → db.store table id = some row →
    db.store table key = some other → conflicts table row other = false
  seen : ∀ thread table id key, ∀ row other : Row table, id ≠ key →
    db.view thread table id = some row → db.view thread table key = some other →
      conflicts table row other = false
  apart : ∀ thread holder, thread ≠ holder → ∀ table id key, ∀ row other : Row table,
    db.version thread table id = some (some row) → db.version holder table key = some (some other) →
      conflicts table row other = false

theorem conflicts_comm (table : TableName) (row other : Row table) :
    conflicts table row other = conflicts table other row := by
  cases table with
  | users | vouchers => exact Bool.beq_comm
  | devices =>
      simp only [conflicts]
      rw [@Bool.beq_comm _ _ _ row.userId, @Bool.beq_comm _ _ _ row.mac]
  | sessions =>
      simp only [conflicts]
      rw [@Bool.beq_comm _ _ _ row.deviceMac, Bool.and_comm (row.status == _)]
  | plans | planRequests => rfl

theorem update_conflicts {table : TableName} {op : Op table} (closing : Closing table op)
    (now : Time)
    {row other : Row table} (conflict : conflicts table (Op.run table op now row) other = true) :
    conflicts table row other = true := by
  cases table with
  | users => cases op <;> exact conflict
  | vouchers => cases op <;> exact conflict
  | devices => cases op <;> exact conflict
  | plans | planRequests => exact conflict
  | sessions =>
      cases op with
      | settle elapsed => exact conflict
      | refresh ip token => exact conflict
      | finish status =>
          have ended : status ≠ .active := closing
          simp [conflicts, Op.run, SessionOp.run, ended] at conflict

section Steps
variable {db after : Database} {thread : Nat}

theorem unique_unchanged (unique : Unique db) (store : after.store = db.store)
    (version : ∀ thread, after.version thread = db.version thread) : Unique after := by
  have view : ∀ thread, after.view thread = db.view thread := by
    intro thread
    funext table id
    rw [RowLock.view_eq, RowLock.view_eq, store, version]
  constructor
  · rw [store]
    exact unique.stored
  · intro thread
    rw [view]
    exact unique.seen thread
  · intro thread holder
    rw [version, version]
    exact unique.apart thread holder

theorem apart_ended (unique : Unique db)
    (gone : ∀ table id, after.version thread table id = none)
    (kept : ∀ holder, holder ≠ thread → after.version holder = db.version holder)
    (holder holder' : Nat) (different : holder ≠ holder') (table : TableName) (id key : Nat)
    (row other : Row table) (version : after.version holder table id = some (some row))
    (version' : after.version holder' table key = some (some other)) :
    conflicts table row other = false := by
  by_cases same : holder = thread
  · rw [same, gone] at version
    cases version
  by_cases same' : holder' = thread
  · rw [same', gone] at version'
    cases version'
  rw [kept _ same] at version
  rw [kept _ same'] at version'
  exact unique.apart holder holder' different table id key row other version version'

theorem unique_rollback (unique : Unique db) : Unique (db.rollback thread) := by
  have gone : ∀ table id, (db.rollback thread).version thread table id = none :=
    RowLock.version_outside RowLock.rollback_outside
  have kept : ∀ holder, holder ≠ thread → (db.rollback thread).txns holder = db.txns holder :=
    fun holder different => (RowLock.rollback_undisturbed different).txn
  constructor
  · exact unique.stored
  · intro holder table id key row other different present present'
    by_cases same : holder = thread
    · subst same
      rw [RowLock.view_eq, gone] at present present'
      exact unique.stored table id key row other different present present'
    · rw [RowLock.view_same (kept holder same) rfl] at present present'
      exact unique.seen holder table id key row other different present present'
  · exact apart_ended unique gone fun holder different => RowLock.version_same
      (kept holder different)

theorem unique_commit (sound : RowLock.Sound Act.run db) (unique : Unique db) :
    Unique (db.commit thread) := by
  have gone : ∀ table id, (db.commit thread).version thread table id = none :=
    RowLock.version_outside RowLock.commit_outside
  have kept : ∀ holder, holder ≠ thread →
      (db.commit thread).version holder = db.version holder := fun holder different =>
    RowLock.version_same (RowLock.commit_undisturbed sound different).txn
  -- a version of somebody else against what the committer saw
  have mixed : ∀ holder table id key, ∀ row other : Row table, holder ≠ thread → id ≠ key →
      db.version holder table id = some (some row) → db.version holder table key = none →
      db.view thread table key = some other → conflicts table row other = false := by
    intro holder table id key row other different distinct version bare present
    rw [RowLock.view_eq] at present
    cases mine : db.version thread table key with
    | some own =>
        rw [mine, Option.getD_some] at present
        exact unique.apart holder thread different table id key row other version
          (mine.trans (congrArg some present))
    | none =>
        rw [mine, Option.getD_none] at present
        refine unique.seen holder table id key row other distinct ?_ ?_
        · rw [RowLock.view_eq, version, Option.getD_some]
        · rw [RowLock.view_eq, bare, Option.getD_none, present]
  constructor
  · rw [RowLock.store_commit]
    exact unique.seen thread
  · intro holder table id key row other different present present'
    rw [RowLock.view_eq, RowLock.store_commit] at present present'
    by_cases same : holder = thread
    · subst same
      rw [gone, Option.getD_none] at present present'
      exact unique.seen holder table id key row other different present present'
    rw [kept holder same] at present present'
    cases version : db.version holder table id with
    | none =>
        rw [version, Option.getD_none] at present
        cases version' : db.version holder table key with
        | none =>
            rw [version', Option.getD_none] at present'
            exact unique.seen thread table id key row other different present present'
        | some own =>
            rw [version', Option.getD_some] at present'
            rw [conflicts_comm]
            exact mixed holder table key id other row same (Ne.symm different)
              (version'.trans (congrArg some present')) version present
    | some own =>
        rw [version, Option.getD_some] at present
        cases version' : db.version holder table key with
        | none =>
            rw [version', Option.getD_none] at present'
            exact mixed holder table id key row other same different
              (version.trans (congrArg some present)) version' present'
        | some own' =>
            rw [version', Option.getD_some] at present'
            refine unique.seen holder table id key row other different ?_ ?_
            · rw [RowLock.view_eq, version, Option.getD_some, present]
            · rw [RowLock.view_eq, version', Option.getD_some, present']
  · exact apart_ended unique gone kept

/-- A write keeps the constraints if the row it leaves conflicts neither with
what the writer sees nor with the version of another transaction. -/
theorem unique_write (unique : Unique db) {entry : Entry}
    (written : db.write Act.run thread entry = some after)
    (alone : ∀ row, Act.run entry.table entry.act (db.view thread entry.table entry.id) = some row →
      ∀ key other, key ≠ entry.id → db.view thread entry.table key = some other →
        conflicts entry.table row other = false)
    (ahead : ∀ row, Act.run entry.table entry.act (db.view thread entry.table entry.id) = some row →
      ∀ holder, holder ≠ thread → ∀ key other,
        db.version holder entry.table key = some (some other) →
          conflicts entry.table row other = false) : Unique after := by
  have store : after.store = db.store := (RowLock.write_same written).1
  have others : ∀ holder, holder ≠ thread → after.txns holder = db.txns holder :=
    fun holder different => (RowLock.write_undisturbed different written).txn
  have mine := RowLock.version_write written
  have seen := RowLock.view_write written
  constructor
  · rw [store]
    exact unique.stored
  · intro holder table id key row other different present present'
    by_cases same : holder = thread
    · subst same
      rw [seen] at present present'
      by_cases hit : table = entry.table ∧ id = entry.id
      · obtain ⟨rfl, rfl⟩ := hit
        rw [RowLock.runEntry_at] at present
        rw [RowLock.runEntry_other _ _ _ _ _ fun hit => different hit.2.symm] at present'
        exact alone row present key other (Ne.symm different) present'
      rw [RowLock.runEntry_other _ _ _ _ _ hit] at present
      by_cases hit' : table = entry.table ∧ key = entry.id
      · obtain ⟨rfl, rfl⟩ := hit'
        rw [RowLock.runEntry_at] at present'
        rw [conflicts_comm]
        exact alone other present' id row different present
      rw [RowLock.runEntry_other _ _ _ _ _ hit'] at present'
      exact unique.seen holder table id key row other different present present'
    · rw [RowLock.view_same (others holder same) store] at present present'
      exact unique.seen holder table id key row other different present present'
  · have against : ∀ holder, holder ≠ thread → ∀ table id key, ∀ row other : Row table,
        after.version thread table id = some (some row) →
        after.version holder table key = some (some other) → conflicts table row other = false := by
      intro holder different table id key row other version version'
      rw [RowLock.version_same (others holder different)] at version'
      rw [mine] at version
      by_cases hit : table = entry.table ∧ id = entry.id
      · obtain ⟨rfl, rfl⟩ := hit
        rw [RowLock.put_same, Option.some.injEq] at version
        exact ahead row version holder different key other version'
      · rw [RowLock.put_other _ _ _ _ _ _ hit] at version
        exact unique.apart thread holder (Ne.symm different) table id key row other version version'
    intro holder holder' different table id key row other version version'
    by_cases same : holder = thread
    · subst same
      exact against holder' (Ne.symm different) table id key row other version version'
    by_cases same' : holder' = thread
    · subst same'
      rw [conflicts_comm]
      exact against holder different table key id other row version' version
    rw [RowLock.version_same (others _ same)] at version
    rw [RowLock.version_same (others _ same')] at version'
    exact unique.apart holder holder' different table id key row other version version'

end Steps

section Exec
variable {thread : Nat} {world after : World} {choice : Choice}

/-- The UPDATE keeps the row's key, and whoever has another version of a row
with that key would have conflicted already. -/
theorem unique_update (sound : RowLock.Sound Act.run world.db) (unique : Unique world.db)
    {table : TableName} {id : Nat} {op : Op table} {now : Time} {row : Row table} {db : Database}
    (closing : Closing table op) (present : world.db.view thread table id = some row)
    (written : world.db.write Act.run thread (alter table id op now) = some db) : Unique db := by
  have left : ∀ row', Act.run table (.update op now) (world.db.view thread table id) = some row' →
      row' = Op.run table op now row := by
    intro row' ran
    rw [present] at ran
    exact (Option.some.inj ran).symm
  have safe : ∀ other, conflicts table row other = false →
      conflicts table (Op.run table op now row) other = false := by
    intro other free
    by_contra conflict
    rw [update_conflicts closing now (by simpa using conflict)] at free
    cases free
  refine unique_write unique written ?_ ?_
  · intro row' ran key other different seen
    rw [left row' ran]
    exact safe other (unique.seen thread table id key row other (Ne.symm different) present seen)
  · intro row' ran holder different key (other : Row table) version
    rw [left row' ran]
    apply safe
    replace version : world.db.version holder table key = some (some other) := version
    cases own : world.db.version thread table id with
    | some mine =>
        rw [RowLock.view_eq, own, Option.getD_some] at present
        exact unique.apart thread holder (Ne.symm different) table id key row other
          (own.trans (congrArg some present)) version
    | none =>
        rw [RowLock.view_eq, own, Option.getD_none] at present
        have bare : world.db.version holder table id = none := by
          by_contra some'
          have held := RowLock.version_locked sound (Option.isSome_iff_ne_none.mpr some')
          rcases (RowLock.write_open written).2 with free | free
          · cases held.symm.trans free
          · exact different (Option.some.inj (held.symm.trans free))
        have apart : id ≠ key := by
          rintro rfl
          cases bare.symm.trans version
        refine unique.seen holder table id key row other apart ?_ ?_
        · rw [RowLock.view_eq, bare, Option.getD_none, present]
        · rw [RowLock.view_eq, version, Option.getD_some]

theorem unclashed (sound : RowLock.Sound Act.run world.db) {table : TableName} {row : Row table}
    (single : world.clash (world.db.view thread) table row = false) {key : Nat} {other : Row table}
    (present : world.db.view thread table key = some other) :
    conflicts table other row = false := by
  have listed : key < world.db.next table := RowLock.view_bound sound
    (Option.isSome_of_eq_some present)
  have clear := List.any_eq_false.mp single key (List.mem_range.mpr listed)
  simpa [present] using clear

theorem uncontended (ready : Ready world) {table : TableName} {row : Row table}
    (free : world.contended thread table row = false) {holder key : Nat}
    (different : holder ≠ thread)
    {other : Row table} (version : world.db.version holder table key = some (some other)) :
    conflicts table other row = false := by
  cases opened : world.db.txns holder with
  | none => simp [RowLock.State.version, opened] at version
  | some txn =>
      have version' : txn.rows table key = some (some other) := by
        simpa [RowLock.State.version, opened] using version
      have known : holder < world.arrivals.length := by
        by_contra beyond
        rw [ready.idle holder (Nat.le_of_not_lt beyond)] at opened
        cases opened
      have written : (world.db.version holder table key).isSome := by simp [version]
      have listed : key < world.db.next table := RowLock.version_bound ready.sound written
      have member : txn ∈ world.othersOpen thread := by
        refine List.mem_filterMap.mpr ⟨holder, List.mem_range.mpr known, ?_⟩
        rw [if_neg different, opened]
      have clear := List.any_eq_false.mp free txn member
      simp only [Bool.not_eq_true, List.any_eq_false, List.mem_range] at clear
      have quiet := clear key listed
      rw [version', Bool.or_eq_false_iff] at quiet
      exact quiet.1

theorem exec_unique (ready : Ready world) (unique : Unique world.db) {cmd : Cmd}
    {answer : Except Failure (Res cmd)}
    (closing : ∀ table id op, cmd = .update table id op → Closing table op)
    (executed : world.exec thread cmd choice = some (answer, after)) : Unique after.db := by
  have ready' : Ready (world.advance choice.elapsed) :=
    ⟨ready.sound, ready.kept, ready.idle, ready.recorded, ready.truthful⟩
  have deed := exec_deed executed
  generalize reached : after.db = db at deed
  cases deed with
  | read | failed | unlocked | missed | skipped | gone => exact unique
  | began =>
      exact unique_unchanged unique (RowLock.store_begin _) fun _ => RowLock.version_begin _
  | committed => exact unique_commit ready.sound unique
  | refused | undone => exact unique_rollback unique
  | locked present granted =>
      obtain ⟨txns, store, _, _⟩ := RowLock.acquire_same granted
      exact unique_unchanged unique store fun thread => RowLock.version_same (congrFun txns thread)
  | updated present written =>
      exact unique_update ready'.sound unique (closing _ _ _ rfl) present written
  | @inserted table row skip _ free single written =>
      have view : ((world.advance choice.elapsed).db.reserve table).view thread =
        (world.advance choice.elapsed).db.view thread := RowLock.view_same rfl rfl
      have reserved : Unique ((world.advance choice.elapsed).db.reserve table) :=
        unique_unchanged unique rfl fun _ => RowLock.version_same rfl
      refine unique_write reserved written ?_ ?_
      · rintro _ ⟨⟩ key other _ present
        rw [view] at present
        exact (conflicts_comm table _ other).trans (unclashed ready'.sound single present)
      · rintro _ ⟨⟩ holder different key other version
        exact (conflicts_comm table _ other).trans (uncontended ready' free different version)
  | deleted written =>
      refine unique_write unique written ?_ ?_
      · rintro _ ⟨⟩
      · rintro _ ⟨⟩

end Exec

theorem reached_unique {config : Config} {pool : ServerPool} (reached : Reached config pool) :
    Unique pool.state.db := by
  refine reached_ordered along_mayDo (fun world => Unique world.db) ?_ ?_ ?_ ?_ ?_ reached
  · constructor
    · intro table id key row other _ present
      cases present
    · intro thread table id key row other _ present
      cases present
    · intro thread holder _ table id key row other version
      cases version
  · exact fun _ _ unique => unique
  · intro pool thread call cmd choice answer after before unique _ may executed
    refine exec_unique (reached_ready before) unique ?_ executed
    rintro table id op rfl
    exact may.2
  · exact fun _ _ unique => unique_rollback unique
  · intro event before after unique happened
    rw [(ambient_cases happened).1]
    exact unique

end Cybera
