import Cybera.Chronicle
import Cybera.Deadlocks
import Cybera.Exclusion
import Cybera.PassOrder
import Cybera.References

/-!
What a statement waits for. A lock is refused while somebody else holds the row; an
INSERT waits for the transactions that may yet take or free its unique key, a write of a
request for one that deletes its plan, and the DELETE of a plan for one that writes a
request for it. In each case another transaction holds a row that stands in the way.
Besides, a write that sets a foreign key waits for the FOR UPDATE lock of the row it
points to, and FOR UPDATE for the transactions that have set such keys.
-/

namespace RowLock

section Locks
variable {Table : Type} [DecidableEq Table] {Row Act : Table → Type}
variable {apply : (table : Table) → Act table → Option (Row table) → Option (Row table)}
variable {state after : State Row Act} {thread holder : Nat}

theorem acquire_waits {table : Table} {id : Nat} (inside : (state.txns thread).isSome)
    (bound : id < state.next table) (waits : state.acquire thread table id = none) :
    ∃ other, other ≠ thread ∧ state.locks table id = some other := by
  rw [State.acquire, if_pos (by simp [inside, bound])] at waits
  cases held : state.locks table id with
  | none => simp [held] at waits
  | some other =>
      refine ⟨other, ?_, rfl⟩
      rintro rfl
      simp [held] at waits

theorem write_waits {entry : Entry Act} (inside : (state.txns thread).isSome)
    (bound : entry.id < state.next entry.table) (waits : state.write apply thread entry = none) :
    ∃ other, other ≠ thread ∧ state.locks entry.table entry.id = some other := by
  rw [State.write, Option.bind_eq_none_iff] at waits
  cases granted : state.acquire thread entry.table entry.id with
  | none => exact acquire_waits inside bound granted
  | some held =>
      have closed := waits held granted
      rw [Option.map_eq_none_iff, (acquire_same granted).1] at closed
      rw [closed] at inside
      cases inside

theorem acquire_gained {table named : Table} {id key : Nat}
    (granted : state.acquire thread table id = some after)
    (held : after.locks named key = some holder) :
    state.locks named key = some holder ∨ holder = thread ∧ named = table ∧ key = id := by
  obtain ⟨_, _, ⟨_, rfl⟩ | ⟨_, rfl⟩⟩ := acquire_cases granted
  · exact Or.inl held
  · by_cases hit : named = table ∧ key = id
    · obtain ⟨rfl, rfl⟩ := hit
      simp only [put_same, Option.some.injEq] at held
      exact Or.inr ⟨held.symm, rfl, rfl⟩
    · simp only [put_other _ _ _ _ _ _ hit] at held
      exact Or.inl held

theorem write_gained {entry : Entry Act} {named : Table} {key : Nat}
    (written : state.write apply thread entry = some after)
    (held : after.locks named key = some holder) :
    state.locks named key = some holder ∨
      holder = thread ∧ named = entry.table ∧ key = entry.id := by
  obtain ⟨locked, txn, granted, _, rfl⟩ := write_cases written
  exact acquire_gained granted held

omit [DecidableEq Table] in
theorem begin_locks (now : Int) : (state.begin thread now).locks = state.locks := by
  unfold State.begin
  split <;> rfl

omit [DecidableEq Table] in
theorem rollback_gained {named : Table} {key : Nat}
    (held : (state.rollback thread).locks named key = some holder) :
    state.locks named key = some holder ∧ holder ≠ thread :=
  release_subset holder named key held

theorem commit_gained {named : Table} {key : Nat} (sound : Sound apply state)
    (held : (state.commit thread).locks named key = some holder) :
    state.locks named key = some holder ∧ holder ≠ thread := by
  unfold State.commit at held
  split at held
  · rename_i closed
    refine ⟨held, ?_⟩
    rintro rfl
    have opened := sound.owned holder named key held
    rw [closed] at opened
    cases opened
  · exact release_subset holder named key held

end Locks
end RowLock

namespace Cybera

open Interleaving

/-! The rows that a thread holds, by what it has done. -/

/-- What was done since the last COMMIT or ROLLBACK. -/
def openPast : Past → Past
  | [] => []
  | ⟨.commit, _⟩ :: _ => []
  | ⟨.rollback, _⟩ :: _ => []
  | done :: older => done :: openPast older

theorem openPast_plain {cmd : Cmd} {answer : Except Failure (Res cmd)} {past : Past}
    (plain : ¬ cmd.Closes) : openPast (⟨cmd, answer⟩ :: past) = ⟨cmd, answer⟩ :: openPast past := by
  cases cmd with
  | commit | rollback => exact absurd trivial plain
  | _ => rfl

theorem openPast_closed {cmd : Cmd} {answer : Except Failure (Res cmd)} {past : Past}
    (closes : cmd.Closes) : openPast (⟨cmd, answer⟩ :: past) = [] := by
  cases cmd with
  | commit | rollback => rfl
  | _ => exact closes.elim

/-- The row that a step locks; the DELETE of a plan may also find nothing to lock. -/
def takenBy : Done Cmd Res Failure → Option RowRef
  | ⟨.lock table id, .ok (some _)⟩ => some (table, id)
  | ⟨.update table id _, .ok (some _)⟩ => some (table, id)
  | ⟨.insert table _ _, .ok (some made)⟩ => some (table, made.1)
  | ⟨.deletePlan id, .ok ()⟩ => some (.plans, id)
  | _ => none

def heldRows (past : Past) : List RowRef := (openPast past).filterMap takenBy

theorem heldRows_closed {cmd : Cmd} {answer : Except Failure (Res cmd)} {past : Past}
    (closes : cmd.Closes) : heldRows (⟨cmd, answer⟩ :: past) = [] := by
  rw [heldRows, openPast_closed closes]
  rfl

theorem mem_heldRows {cmd : Cmd} {answer : Except Failure (Res cmd)} {past : Past} {row : RowRef}
    (plain : ¬ cmd.Closes) : row ∈ heldRows (⟨cmd, answer⟩ :: past) ↔
      takenBy ⟨cmd, answer⟩ = some row ∨ row ∈ heldRows past := by
  rw [heldRows, openPast_plain plain, List.filterMap_cons]
  cases takenBy ⟨cmd, answer⟩ with
  | none => simp [heldRows]
  | some taken => simp [heldRows, eq_comm]

theorem heldRows_quiet {cmd : Cmd} {answer : Except Failure (Res cmd)} {past : Past}
    (plain : ¬ cmd.Closes) (idle : takenBy ⟨cmd, answer⟩ = none) :
    heldRows (⟨cmd, answer⟩ :: past) = heldRows past := by
  rw [heldRows, openPast_plain plain, List.filterMap_cons_none idle]
  rfl

/-- The thread's locks are the rows that its open transaction has taken. -/
structure Grasp (thread : Nat) (world : World) : Prop where
  listed : ∀ table id, world.db.locks table id = some thread →
    (table, id) ∈ heldRows (pastOf world.hist thread)
  locked : ∀ table id, table ≠ .plans → (table, id) ∈ heldRows (pastOf world.hist thread) →
    world.db.locks table id = some thread

section Steps
variable {thread : Nat} {world after : World} {choice : Choice}

theorem dbStep_gained {mover holder : Nat} {now : Time} {db reached : Database}
    (sound : RowLock.Sound Act.run db) (step : DbStep mover now db reached)
    (different : holder ≠ mover) {table : TableName} {id : Nat}
    (held : reached.locks table id = some holder) : db.locks table id = some holder := by
  cases step with
  | same => exact held
  | opened => rwa [RowLock.begin_locks] at held
  | committed => exact (RowLock.commit_gained sound held).1
  | undone => exact (RowLock.rollback_gained held).1
  | locked named key granted =>
      exact (RowLock.acquire_gained granted held).resolve_right fun own => different own.1
  | wrote entry kept granted =>
      exact (RowLock.write_gained granted held).resolve_right fun own => different own.1
  | inserted named row granted =>
      exact (RowLock.write_gained granted held).resolve_right fun own => different own.1

theorem deed_gained {view : View} {cmd : Cmd}
    {answer : Except Failure (Res cmd)} {db : Database} (plain : ¬ cmd.Closes)
    (deed : Deed world thread view cmd answer db) {table : TableName} {id : Nat}
    (held : db.locks table id = some thread) :
    world.db.locks table id = some thread ∨ takenBy ⟨cmd, answer⟩ = some (table, id) := by
  cases deed with
  | read | failed | unlocked | missed | skipped | gone => exact Or.inl held
  | began =>
      rw [RowLock.begin_locks] at held
      exact Or.inl held
  | committed | refused | undone => exact absurd trivial plain
  | locked present granted =>
      rcases RowLock.acquire_gained granted held with before | ⟨_, rfl, rfl⟩
      · exact Or.inl before
      · exact Or.inr rfl
  | updated present written =>
      rcases RowLock.write_gained written held with before | ⟨_, rfl, rfl⟩
      · exact Or.inl before
      · exact Or.inr rfl
  | inserted free single written =>
      rcases RowLock.write_gained written held with before | ⟨_, rfl, rfl⟩
      · exact Or.inl before
      · exact Or.inr rfl
  | deleted written =>
      rcases RowLock.write_gained written held with before | ⟨_, rfl, rfl⟩
      · exact Or.inl before
      · exact Or.inr rfl

theorem deed_taken {view : View} {cmd : Cmd} {answer : Except Failure (Res cmd)} {db : Database}
    (deed : Deed world thread view cmd answer db) {table : TableName} {id : Nat}
    (kept : table ≠ .plans) (taken : takenBy ⟨cmd, answer⟩ = some (table, id)) :
    db.locks table id = some thread := by
  cases deed with
  | read reads => cases cmd <;> first | exact reads.elim | cases taken
  | failed => cases cmd <;> cases taken
  | began | committed | refused | undone | unlocked | missed | skipped => cases taken
  | locked present granted =>
      cases taken
      exact RowLock.acquire_lock granted
  | updated present written =>
      cases taken
      exact RowLock.write_lock written
  | inserted free single written =>
      cases taken
      exact RowLock.write_lock written
  | gone | deleted =>
      cases taken
      exact absurd rfl kept

theorem own_grasp (sound : RowLock.Sound Act.run world.db) (grasp : Grasp thread world) {cmd : Cmd}
    {answer : Except Failure (Res cmd)}
    (executed : world.exec thread cmd choice = some (answer, after)) : Grasp thread after := by
  have past := exec_past executed
  by_cases closes : cmd.Closes
  · -- a COMMIT or ROLLBACK leaves neither locks nor rows taken
    have closed := exec_closes executed closes
    have sound' := dbStep_sound sound (exec_cases executed).2.2.2
    constructor
    · intro table id held
      have opened := sound'.owned thread table id held
      rw [closed] at opened
      cases opened
    · intro table id _ member
      rw [past, heldRows_closed closes] at member
      cases member
  · have deed := exec_deed executed
    constructor
    · intro table id held
      rw [past, mem_heldRows closes]
      rcases deed_gained closes deed held with before | taken
      · exact Or.inr (grasp.listed table id before)
      · exact Or.inl taken
    · intro table id kept member
      rw [past, mem_heldRows closes] at member
      rcases member with taken | earlier
      · exact deed_taken deed kept taken
      · exact exec_locks closes executed (grasp.locked table id kept earlier)

end Steps

section Reached
variable {config : Config} {pool : ServerPool} (reached : Reached config pool)
include reached

theorem reached_grasp {thread : Nat} {program : Program Reply}
    (running : pool.threads[thread]? = some (some program)) : Grasp thread pool.state := by
  refine (reached_live along_mayDo (fun _ => True) Grasp trivial ?_ ?_ ?_ ?_ ?_ ?_ reached).2 thread
    program running
  · intro pool thread before nothing beyond
    have closed := (reached_ready before).idle thread beyond
    constructor
    · intro table id held
      have opened := (reached_ready before).sound.owned thread table id held
      rw [closed] at opened
      cases opened
    · intro table id _ member
      rw [nothing] at member
      cases member
  · exact fun _ _ _ => ⟨trivial, fun _ grasp => ⟨grasp.listed, grasp.locked⟩⟩
  · intro pool thread call cmd choice answer after before _ grasp _ _ executed
    exact ⟨trivial, own_grasp (reached_ready before).sound grasp executed⟩
  · intro pool thread mover cmd choice answer after before _ different grasp executed
    have step := (exec_cases executed).2.2.2
    have sound := (reached_ready before).sound
    have past := exec_past_other different executed
    constructor
    · intro table id held
      rw [past]
      exact grasp.listed table id (dbStep_gained sound step different held)
    · intro table id kept member
      rw [past] at member
      exact (dbStep_undisturbed sound different step).locks table id
        (grasp.locked table id kept member)
  · refine fun mover world _ => ⟨trivial, fun thread different grasp => ⟨?_, ?_⟩⟩
    · exact fun table id held => grasp.listed table id (RowLock.rollback_gained held).1
    · exact fun table id kept member => (RowLock.rollback_undisturbed different).locks table id
        (grasp.locked table id kept member)
  · intro event before after _ happened
    obtain ⟨db, _, _, hist⟩ := ambient_cases happened
    refine ⟨trivial, fun thread grasp => ⟨?_, ?_⟩⟩
    · rw [db, hist]
      exact grasp.listed
    · rw [db, hist]
      exact grasp.locked

end Reached

/-! What open transactions have written. -/

/-- Only plans are given up, and what was inserted is not yet there for others. -/
structure Versioned (db : Database) : Prop where
  gone : ∀ holder txn table id, db.txns holder = some txn → txn.rows table id = some none →
    table = .plans
  fresh : ∀ holder txn table id row, db.txns holder = some txn → create table id row ∈ txn.acts →
    db.store table id = none

section Versioned
variable {thread : Nat} {world after : World} {choice : Choice}

/-- A write of the transaction: of an old row, of a new one, or the removal of a plan. -/
theorem write_versioned {db reached : Database} {entry : Entry} (versioned : Versioned db)
    (kept : Act.run entry.table entry.act (db.view thread entry.table entry.id) = none →
      entry.table = .plans)
    (made : ∀ table id row, create table id row = entry → db.store table id = none)
    (written : db.write Act.run thread entry = some reached)
    {txn : RowLock.Txn Row Act} (opened : reached.txns thread = some txn) :
    (∀ table id, txn.rows table id = some none → table = .plans) ∧
      ∀ table id row, create table id row ∈ txn.acts → reached.store table id = none := by
  obtain ⟨before, txn', present, opened', acts, _⟩ := write_acts written
  rw [opened, Option.some.injEq] at opened'
  subst opened'
  obtain ⟨store, _, txn'', opened'', others, own⟩ := write_versions present written
  rw [opened, Option.some.injEq] at opened''
  subst opened''
  constructor
  · intro table id gone
    by_cases hit : table = entry.table ∧ id = entry.id
    · obtain ⟨rfl, rfl⟩ := hit
      rw [own, Option.some.injEq] at gone
      exact kept gone
    · rw [others table id hit] at gone
      exact versioned.gone thread before table id present gone
  · intro table id row member
    rw [store]
    rw [acts] at member
    rcases List.mem_append.mp member with earlier | latest
    · exact versioned.fresh thread before table id row present earlier
    · exact made table id row (List.mem_singleton.mp latest)

theorem deed_versioned (sound : RowLock.Sound Act.run world.db) (versioned : Versioned world.db)
    {view : View} {cmd : Cmd} {answer : Except Failure (Res cmd)} {db : Database}
    (deed : Deed world thread view cmd answer db) {txn : RowLock.Txn Row Act}
    (opened : db.txns thread = some txn) :
    (∀ table id, txn.rows table id = some none → table = .plans) ∧
      ∀ table id row, create table id row ∈ txn.acts → db.store table id = none := by
  cases deed with
  | read | failed | unlocked | missed | skipped | gone =>
      exact ⟨fun table id => versioned.gone thread txn table id opened,
        fun table id row => versioned.fresh thread txn table id row opened⟩
  | began =>
      rw [RowLock.store_begin]
      rcases RowLock.begin_txns opened with before | ⟨_, rfl⟩
      · exact ⟨fun table id => versioned.gone thread txn table id before,
          fun table id row => versioned.fresh thread txn table id row before⟩
      · exact ⟨fun _ _ gone => (by cases gone), fun _ _ _ member => (by cases member)⟩
  | committed =>
      rw [RowLock.commit_outside] at opened
      cases opened
  | refused | undone =>
      rw [RowLock.rollback_outside] at opened
      cases opened
  | locked present granted =>
      obtain ⟨txns, store, _, _⟩ := RowLock.acquire_same granted
      rw [txns] at opened
      rw [store]
      exact ⟨fun table id => versioned.gone thread txn table id opened,
        fun table id row => versioned.fresh thread txn table id row opened⟩
  | updated present written =>
      refine write_versioned versioned (fun gone => ?_) (fun table id row same => ?_) written opened
      · simp [alter, Act.run, present] at gone
      · simp only [create, alter, RowLock.Entry.mk.injEq] at same
        obtain ⟨rfl, rfl, impossible⟩ := same
        cases impossible
  | @inserted table row skip db free single written =>
      have versioned' : Versioned (world.db.reserve table) := ⟨versioned.gone, versioned.fresh⟩
      refine write_versioned versioned' (fun gone => ?_) (fun named id row' same => ?_) written
        opened
      · cases gone
      · simp only [create, RowLock.Entry.mk.injEq] at same
        obtain ⟨rfl, rfl, _⟩ := same
        exact (sound.unused named (world.db.next named) (Nat.le_refl _)).1
  | deleted written =>
      refine write_versioned versioned (fun _ => rfl) (fun table id row same => ?_) written opened
      simp only [create, remove, RowLock.Entry.mk.injEq] at same
      obtain ⟨rfl, rfl, impossible⟩ := same
      cases impossible

theorem undisturbed_versioned {db reached : Database} (sound : RowLock.Sound Act.run db)
    (versioned : Versioned db) (undisturbed : RowLock.Undisturbed thread db reached)
    {txn : RowLock.Txn Row Act} (opened : reached.txns thread = some txn) :
    (∀ table id, txn.rows table id = some none → table = .plans) ∧
      ∀ table id row, create table id row ∈ txn.acts → reached.store table id = none := by
  rw [undisturbed.txn] at opened
  refine ⟨fun table id => versioned.gone thread txn table id opened, fun table id row member => ?_⟩
  rw [undisturbed.rows table id (sound.listed thread txn opened _ member)]
  exact versioned.fresh thread txn table id row opened member

theorem exec_versioned (sound : RowLock.Sound Act.run world.db) (versioned : Versioned world.db)
    {cmd : Cmd} {answer : Except Failure (Res cmd)}
    (executed : world.exec thread cmd choice = some (answer, after)) : Versioned after.db := by
  have known : ∀ holder txn, after.db.txns holder = some txn →
      (∀ table id, txn.rows table id = some none → table = .plans) ∧
        ∀ table id row, create table id row ∈ txn.acts → after.db.store table id = none := by
    intro holder txn opened
    by_cases own : holder = thread
    · subst own
      have sound' : RowLock.Sound Act.run (world.advance choice.elapsed).db := sound
      exact deed_versioned sound' versioned (exec_deed executed) opened
    · exact undisturbed_versioned sound versioned
        (dbStep_undisturbed sound own (exec_cases executed).2.2.2) opened
  exact ⟨fun holder txn table id opened => (known holder txn opened).1 table id,
    fun holder txn table id row opened => (known holder txn opened).2 table id row⟩

theorem reached_versioned {config : Config} {pool : ServerPool} (reached : Reached config pool) :
    Versioned pool.state.db := by
  induction reached with
  | init => exact ⟨by simp [World.initial, emptyDatabase], by simp [World.initial, emptyDatabase]⟩
  | @next pool after move before moved ih =>
      cases step_cases moved with
      | start call => exact ih
      | advance mover choice cmd next answer world running executed =>
          exact exec_versioned (reached_ready before).sound ih executed
      | crash mover program running =>
          have earlier : ∀ {holder txn}, (pool.state.db.rollback mover).txns holder = some txn →
              pool.state.db.txns holder = some txn := fun opened => (RowLock.rollback_txns opened).2
          exact ⟨fun holder txn table id opened => ih.gone holder txn table id (earlier opened),
            fun holder txn table id row opened => ih.fresh holder txn table id row (earlier opened)⟩
      | ambient event world happened => exact (ambient_cases happened).1 ▸ ih

end Versioned

/-! What a statement waits for. -/

def Cmd.table : Cmd → Option TableName
  | .lock table _ => some table
  | .update table _ _ => some table
  | .insert table _ _ => some table
  | .deletePlan _ => some .plans
  | _ => none

/-- The open transaction of `other` holds the row, and the thread's statement waits for it. -/
inductive Awaits (world : World) (thread other : Nat) : Cmd → RowRef → Prop where
  | lock {table : TableName} {id : Nat} (present : (world.db.view thread table id).isSome)
      (held : world.db.locks table id = some other) :
      Awaits world thread other (.lock table id) (table, id)
  | update {table : TableName} {id : Nat} {op : Op table}
      (present : (world.db.view thread table id).isSome)
      (held : world.db.locks table id = some other) :
      Awaits world thread other (.update table id op) (table, id)
  | insert {table : TableName} {key : Nat} {row : Time → Row table} {skip : Bool}
      {txn : RowLock.Txn Row Act} {rival : Row table} (opened : world.db.txns other = some txn)
      (written : (txn.rows table key).isSome)
      (version : txn.rows table key = some (some rival) ∨ world.db.store table key = some rival)
      (clash : conflicts table rival (row (world.view thread id).now) = true) :
      Awaits world thread other (.insert table row skip) (table, key)
  | updateDoomed {key plan : Nat} {op : RequestOp} {request : PlanRequestRow}
      {txn : RowLock.Txn Row Act} (present : world.db.view thread .planRequests key = some request)
      (refers : (.plans, plan) ∈ references .planRequests
        (RequestOp.run (world.view thread id).now op request))
      (opened : world.db.txns other = some txn) (gone : txn.rows .plans plan = some none) :
      Awaits world thread other (.update .planRequests key op) (.plans, plan)
  | insertDoomed {row : Time → PlanRequestRow} {skip : Bool} {plan : Nat}
      {txn : RowLock.Txn Row Act}
      (refers : (.plans, plan) ∈ references .planRequests (row (world.view thread id).now))
      (opened : world.db.txns other = some txn) (gone : txn.rows .plans plan = some none) :
      Awaits world thread other (.insert .planRequests row skip) (.plans, plan)
  | delete {plan : Nat} (present : (world.db.view thread .plans plan).isSome)
      (held : world.db.locks .plans plan = some other) :
      Awaits world thread other (.deletePlan plan) (.plans, plan)
  | deleteReferred {plan id : Nat} {request : PlanRequestRow} {txn : RowLock.Txn Row Act}
      (opened : world.db.txns other = some txn)
      (written : txn.rows .planRequests id = some (some request))
      (refers : request.source.planId = some plan) :
      Awaits world thread other (.deletePlan plan) (.planRequests, id)

/-- A foreign key that one of the two sets points to a row that the other locks FOR UPDATE. -/
inductive KeyAwaits (world : World) (thread other : Nat) : Cmd → RowRef → Prop where
  | lock {table : TableName} {id : Nat} {txn : RowLock.Txn Row Act} {entry : Entry}
      (opened : world.db.txns other = some txn) (acted : entry ∈ txn.acts)
      (points : (table, id) ∈ Act.targets entry.table entry.act) :
      KeyAwaits world thread other (.lock table id) (table, id)
  | update {table : TableName} {id : Nat} {op : Op table} {row : RowRef}
      (points : row ∈ Op.targets table op) (held : world.db.locks row.1 row.2 = some other)
      (selected : world.selectedForUpdate other row = true) :
      KeyAwaits world thread other (.update table id op) row
  | insert {table : TableName} {made : Time → Row table} {skip : Bool} {row : RowRef}
      (points : row ∈ references table (made (world.view thread id).now))
      (held : world.db.locks row.1 row.2 = some other)
      (selected : world.selectedForUpdate other row = true) :
      KeyAwaits world thread other (.insert table made skip) row
  | audit {user : Nat} {action : String} (held : world.db.locks .users user = some other)
      (selected : world.selectedForUpdate other (.users, user) = true) :
      KeyAwaits world thread other (.audit (some user) action) (.users, user)

section Awaits
variable {world : World} {thread : Nat}

theorem keyShared_awaits {table : TableName} {id : Nat}
    (shared : world.keyShared thread (table, id) = true) :
    ∃ other row, other ≠ thread ∧ KeyAwaits world thread other (.lock table id) row := by
  obtain ⟨txn, listed, found⟩ := List.any_eq_true.mp shared
  obtain ⟨other, _, opened⟩ := List.mem_filterMap.mp listed
  obtain ⟨entry, acted, points⟩ := List.any_eq_true.mp found
  split at opened
  · cases opened
  · rename_i different
    exact ⟨other, _, different, .lock opened acted (List.contains_iff_mem.mp points)⟩

theorem keysTaken_held {targets : List RowRef} (taken : world.keysTaken thread targets = true) :
    ∃ other, ∃ row ∈ targets, other ≠ thread ∧ world.db.locks row.1 row.2 = some other ∧
      world.selectedForUpdate other row = true := by
  obtain ⟨row, listed, found⟩ := List.any_eq_true.mp taken
  split at found
  · rename_i other held
    rw [Bool.and_eq_true, bne_iff_ne] at found
    exact ⟨other, row, listed, found.1, held, found.2⟩
  · cases found

theorem othersOpen_txn {txn : RowLock.Txn Row Act} (listed : txn ∈ world.othersOpen thread) :
    ∃ other, other ≠ thread ∧ world.db.txns other = some txn := by
  obtain ⟨other, _, opened⟩ := List.mem_filterMap.mp listed
  split at opened
  · cases opened
  · rename_i different
    exact ⟨other, different, opened⟩

theorem contended_awaits {table : TableName} {row : Time → Row table} {skip : Bool}
    (contended : world.contended thread table (row (world.view thread id).now) = true) :
    ∃ other row', other ≠ thread ∧ Awaits world thread other (.insert table row skip) row' := by
  obtain ⟨txn, listed, found⟩ := List.any_eq_true.mp contended
  obtain ⟨other, different, opened⟩ := othersOpen_txn listed
  obtain ⟨id, _, rivals⟩ := List.any_eq_true.mp found
  refine ⟨other, (table, id), different, ?_⟩
  cases written : txn.rows table id with
  | none => simp [written] at rivals
  | some version =>
      simp only [written, Bool.or_eq_true] at rivals
      rcases rivals with own | committed
      · cases version with
        | none => cases own
        | some rival => exact .insert opened (by simp [written]) (Or.inl written) own
      · cases stored : world.db.store table id with
        | none => simp [stored] at committed
        | some rival =>
            rw [stored] at committed
            exact .insert opened (by simp [written]) (Or.inr stored) committed

theorem doomed_plan (versioned : Versioned world.db) {table : TableName} {row : Row table}
    (doomed : world.planDoomed thread table row = true) : table = .planRequests ∧
      ∃ other txn plan, other ≠ thread ∧ (.plans, plan) ∈ references table row ∧
        world.db.txns other = some txn ∧ txn.rows .plans plan = some none := by
  obtain ⟨txn, listed, found⟩ := List.any_eq_true.mp doomed
  obtain ⟨other, different, opened⟩ := othersOpen_txn listed
  obtain ⟨⟨named, id⟩, refers, deleted⟩ := List.any_eq_true.mp found
  have gone : txn.rows named id = some none := by
    split at deleted
    · assumption
    · cases deleted
  obtain rfl := versioned.gone other txn named id opened gone
  refine ⟨?_, other, txn, id, different, refers, opened, gone⟩
  cases table with
  | planRequests => rfl
  | _ => simp [references] at refers

theorem awaited_deletes {plan : Nat} (awaited : world.planAwaited thread plan = true) :
    ∃ other row, other ≠ thread ∧ Awaits world thread other (.deletePlan plan) row := by
  obtain ⟨txn, listed, found⟩ := List.any_eq_true.mp awaited
  obtain ⟨other, different, opened⟩ := othersOpen_txn listed
  obtain ⟨id, _, refers⟩ := List.any_eq_true.mp found
  refine ⟨other, (.planRequests, id), different, ?_⟩
  split at refers
  · rename_i request written
    exact .deleteReferred opened written (by simpa [World.refersTo] using refers)
  · cases refers

theorem stopped_awaits (ready : Ready world) (versioned : Versioned world.db) {cmd : Cmd}
    (inside : cmd.table.isSome → (world.db.txns thread).isSome)
    (stopped : world.succeeded thread {} cmd = none) :
    ∃ other row, other ≠ thread ∧
      (Awaits world thread other cmd row ∨ KeyAwaits world thread other cmd row) := by
  have bound : ∀ table id, (world.db.view thread table id).isSome → id < world.db.next table :=
    fun table id present => RowLock.view_bound ready.sound present
  cases cmd with
  | begin | commit | rollback | query | dateNow | randomBytes | ndsctl => cases stopped
  | audit actor action =>
      simp only [World.succeeded] at stopped
      split at stopped
      · rename_i taken
        obtain ⟨other, row, listed, different, held, selected⟩ := keysTaken_held taken
        obtain ⟨user, named, rfl⟩ := List.mem_map.mp listed
        rw [Option.mem_toList] at named
        cases named
        exact ⟨other, _, different, Or.inr (.audit held selected)⟩
      · cases stopped
  | lock table id =>
      simp only [World.succeeded] at stopped
      split at stopped
      · cases stopped
      · rename_i row present
        split at stopped
        · rename_i shared
          obtain ⟨other, key, different, awaits⟩ := keyShared_awaits shared
          exact ⟨other, key, different, Or.inr awaits⟩
        · have there : (world.db.view thread table id).isSome := by rw [present]; rfl
          rw [Option.map_eq_none_iff] at stopped
          obtain ⟨other, different, held⟩ :=
            RowLock.acquire_waits (inside rfl) (bound table id there) stopped
          exact ⟨other, _, different, Or.inl (.lock there held)⟩
  | update table id op =>
      simp only [World.succeeded] at stopped
      split at stopped
      · cases stopped
      · rename_i row present
        have there : (world.db.view thread table id).isSome := by rw [present]; rfl
        split at stopped
        · split at stopped
          · rename_i waits
            rcases (Bool.or_eq_true _ _).mp waits with doomed | taken
            · obtain ⟨rfl, other, txn, plan, different, refers, opened, gone⟩ :=
                doomed_plan versioned doomed
              exact ⟨other, _, different, Or.inl (.updateDoomed present refers opened gone)⟩
            · obtain ⟨other, key, points, different, held, selected⟩ := keysTaken_held taken
              exact ⟨other, key, different, Or.inr (.update points held selected)⟩
          · rw [Option.map_eq_none_iff, World.write, Option.map_eq_none_iff] at stopped
            obtain ⟨other, different, held⟩ :=
              RowLock.write_waits (inside rfl) (bound table id there) stopped
            exact ⟨other, _, different, Or.inl (.update there held)⟩
        · cases stopped
  | insert table row skip =>
      simp only [World.succeeded] at stopped
      split at stopped
      · rename_i waits
        rcases (Bool.or_eq_true _ _).mp waits with contended | doomed
        · obtain ⟨other, key, different, awaits⟩ := contended_awaits contended
          exact ⟨other, key, different, Or.inl awaits⟩
        · obtain ⟨rfl, other, txn, plan, different, refers, opened, gone⟩ :=
            doomed_plan versioned doomed
          exact ⟨other, _, different, Or.inl (.insertDoomed refers opened gone)⟩
      · split at stopped
        · cases stopped
        · split at stopped
          · split at stopped
            · rename_i taken
              obtain ⟨other, key, points, different, held, selected⟩ := keysTaken_held taken
              exact ⟨other, key, different, Or.inr (.insert points held selected)⟩
            · rw [Option.map_eq_none_iff, World.write, Option.map_eq_none_iff] at stopped
              -- the new row has a number that nobody can have locked
              have free := (ready.sound.unused table (world.db.next table) (Nat.le_refl _)).2
              have inside' : ((world.db.reserve table).txns thread).isSome := inside rfl
              obtain ⟨other, different, held⟩ :=
                RowLock.write_waits inside' (by simp [RowLock.State.reserve]) stopped
              cases free.symm.trans held
          · cases stopped
  | deletePlan id =>
      simp only [World.succeeded] at stopped
      split at stopped
      · cases stopped
      · rename_i row present
        split at stopped
        · rename_i awaited
          obtain ⟨other, key, different, awaits⟩ := awaited_deletes awaited
          exact ⟨other, key, different, Or.inl awaits⟩
        · split at stopped
          · cases stopped
          · rw [Option.map_eq_none_iff, World.write, Option.map_eq_none_iff] at stopped
            have there : (world.db.view thread .plans id).isSome := by rw [present]; rfl
            obtain ⟨other, different, held⟩ :=
              RowLock.write_waits (inside rfl) (bound .plans id there) stopped
            exact ⟨other, _, different, Or.inl (.delete there held)⟩

end Awaits
end Cybera
