import Cybera.Refinement

/-!
The foreign key of plan_requests.plan_id: plans are the only rows that are ever
deleted, and no committed request points to one that is gone. Writers of the two
tables wait for each other, which is what keeps this true between transactions.
-/

namespace Cybera

open Interleaving

def Resolved (store : Store) : Prop :=
  ∀ id, ∀ r : PlanRequestRow, ∀ plan, store .planRequests id = some r →
    r.source.planId = some plan → (store .plans plan).isSome

/-- The foreign key over committed rows and over the versions that open
transactions have written. -/
structure Linked (db : Database) : Prop where
  committed : Resolved db.store
  pending : ∀ thread txn id, ∀ r : PlanRequestRow, ∀ plan, db.txns thread = some txn →
    txn.rows .planRequests id = some (some r) → r.source.planId = some plan →
      (RowLock.overlay txn.rows db.store .plans plan).isSome
  apart : ∀ thread txn plan, db.txns thread = some txn → txn.rows .plans plan = some none →
    ∀ other txn', other ≠ thread → db.txns other = some txn' → ∀ id, ∀ r : PlanRequestRow,
      txn'.rows .planRequests id = some (some r) → r.source.planId ≠ some plan
  clear : ∀ thread txn plan, db.txns thread = some txn → txn.rows .plans plan = some none →
    ∀ id, ∀ r : PlanRequestRow, RowLock.overlay txn.rows db.store .planRequests id = some r →
      r.source.planId ≠ some plan

section Steps
variable {db after : Database} {thread : Nat} {txn txn' : RowLock.Txn Row Act}

theorem linked_change (linked : Linked db) (store : after.store = db.store)
    (others : ∀ other, other ≠ thread → after.txns other = db.txns other)
    (mine : after.txns thread = some txn')
    (points : ∀ id, ∀ r : PlanRequestRow, ∀ plan, txn'.rows .planRequests id = some (some r) →
      r.source.planId = some plan →
        (RowLock.overlay txn'.rows db.store .plans plan).isSome ∧
          ∀ other txn'', other ≠ thread → db.txns other = some txn'' →
            txn''.rows .plans plan ≠ some none)
    (removes : ∀ plan, txn'.rows .plans plan = some none →
      (∀ id, ∀ r : PlanRequestRow, RowLock.overlay txn'.rows db.store .planRequests id = some r →
        r.source.planId ≠ some plan) ∧
        ∀ other txn'', other ≠ thread → db.txns other = some txn'' → ∀ id, ∀ r : PlanRequestRow,
          txn''.rows .planRequests id = some (some r) → r.source.planId ≠ some plan) :
    Linked after := by
  refine ⟨store ▸ linked.committed, ?_, ?_, ?_⟩
  · intro holder current id r plan opened version refers
    rw [store]
    by_cases same : holder = thread
    · subst same
      rw [mine, Option.some.injEq] at opened
      subst opened
      exact (points id r plan version refers).1
    · rw [others holder same] at opened
      exact linked.pending holder current id r plan opened version refers
  · intro holder current plan opened gone other txn'' different present id r version refers
    by_cases same : holder = thread
    · subst same
      rw [mine, Option.some.injEq] at opened
      subst opened
      rw [others other different] at present
      exact (removes plan gone).2 other txn'' different present id r version refers
    · rw [others holder same] at opened
      by_cases own : other = thread
      · subst own
        rw [mine, Option.some.injEq] at present
        subst present
        exact (points id r plan version refers).2 holder current same opened gone
      · rw [others other own] at present
        exact linked.apart holder current plan opened gone other txn'' different
          present id r version refers
  · intro holder current plan opened gone
    rw [store]
    by_cases same : holder = thread
    · subst same
      rw [mine, Option.some.injEq] at opened
      subst opened
      exact (removes plan gone).1
    · rw [others holder same] at opened
      exact linked.clear holder current plan opened gone

theorem linked_commit (linked : Linked db) (opened : db.txns thread = some txn)
    (log : List (Nat × List Entry)) :
    Linked ⟨RowLock.overlay txn.rows db.store, db.next, db.release thread,
      Function.update db.txns thread none, log⟩ := by
  have others : ∀ other txn', Function.update db.txns thread none other = some txn' →
      other ≠ thread ∧ db.txns other = some txn' := by
    intro other txn' present
    by_cases same : other = thread
    · simp [same] at present
    · rw [Function.update_of_ne same] at present
      exact ⟨same, present⟩
  -- a plan that a request of anybody else points to is not among the deleted ones
  have stands : ∀ plan, txn.rows .plans plan ≠ some none → (db.store .plans plan).isSome →
      (RowLock.overlay txn.rows db.store .plans plan).isSome := by
    intro plan kept present
    unfold RowLock.overlay
    cases version : txn.rows .plans plan with
    | none => exact present
    | some row =>
        cases row with
        | none => exact absurd version kept
        | some row => rfl
  refine ⟨?_, ?_, ?_, ?_⟩
  · intro id r plan present refers
    change (txn.rows .planRequests id).getD (db.store .planRequests id) = some r at present
    cases version : txn.rows .planRequests id with
    | some row =>
        rw [version] at present
        exact linked.pending thread txn id r plan opened (version.trans (congrArg some present))
          refers
    | none =>
        rw [version] at present
        refine stands plan ?_ (linked.committed id r plan present refers)
        intro gone
        refine linked.clear thread txn plan opened gone id r ?_ refers
        simpa [RowLock.overlay, version] using present
  · intro other txn' id r plan present version refers
    obtain ⟨different, present⟩ := others other txn' present
    have before := linked.pending other txn' id r plan present version refers
    unfold RowLock.overlay at before ⊢
    cases own : txn'.rows .plans plan with
    | some row => simpa [own] using before
    | none =>
        rw [own] at before
        exact stands plan (fun gone => linked.apart thread txn plan opened gone other txn' different
          present id r version refers) before
  · intro other txn' plan present gone third txn'' different third' id r version refers
    obtain ⟨_, present⟩ := others other txn' present
    obtain ⟨_, third'⟩ := others third txn'' third'
    exact linked.apart other txn' plan present gone third txn'' different third' id r version refers
  · intro other txn' plan present gone id r visible refers
    obtain ⟨different, present⟩ := others other txn' present
    unfold RowLock.overlay at visible
    cases own : txn'.rows .planRequests id with
    | some row =>
        refine linked.clear other txn' plan present gone id r ?_ refers
        simpa [RowLock.overlay, own] using visible
    | none =>
        rw [own] at visible
        cases version : txn.rows .planRequests id with
        | some row =>
            refine linked.apart other txn' plan present gone thread txn
              (Ne.symm different) opened id r ?_ refers
            simpa [version] using visible
        | none =>
            refine linked.clear other txn' plan present gone id r ?_ refers
            simpa [RowLock.overlay, own, version] using visible

/-- A write, as far as the other statements of the transaction and everybody
else can see it. -/
theorem write_versions {entry : Entry} (opened : db.txns thread = some txn)
    (granted : db.write Act.run thread entry = some after) :
    after.store = db.store ∧ (∀ other, other ≠ thread → after.txns other = db.txns other) ∧
      ∃ txn', after.txns thread = some txn' ∧
        (∀ table id, ¬ (table = entry.table ∧ id = entry.id) →
          txn'.rows table id = txn.rows table id) ∧
        txn'.rows entry.table entry.id =
          some (Act.run entry.table entry.act (db.view thread entry.table entry.id)) := by
  obtain ⟨held, txn', acquired, present, rfl⟩ := RowLock.write_cases granted
  obtain ⟨txns, store, _, _⟩ := RowLock.acquire_same acquired
  rw [txns, opened, Option.some.injEq] at present
  subst present
  have seen : held.view thread = db.view thread := by
    simp only [RowLock.State.view, txns, store]
  refine ⟨store, ?_, _, Function.update_self .., ?_, ?_⟩
  · intro other different
    exact (Function.update_of_ne different _ _).trans (congrFun txns other)
  · intro table id apart
    exact RowLock.put_other _ _ _ _ _ _ apart
  · exact (RowLock.put_same _ _ _ _).trans (by rw [seen])

theorem view_overlay (opened : db.txns thread = some txn) :
    db.view thread = RowLock.overlay txn.rows db.store := by
  simp [RowLock.State.view, opened]

theorem linked_elsewhere {entry : Entry} (linked : Linked db) (opened : db.txns thread = some txn)
    (plans : entry.table ≠ .plans) (requests : entry.table ≠ .planRequests)
    (granted : db.write Act.run thread entry = some after) : Linked after := by
  obtain ⟨store, others, txn', mine, same, _⟩ := write_versions opened granted
  have requests' : ∀ id, txn'.rows .planRequests id = txn.rows .planRequests id :=
    fun id => same _ id fun hit => requests hit.1.symm
  have plans' : ∀ id, txn'.rows .plans id = txn.rows .plans id :=
    fun id => same _ id fun hit => plans hit.1.symm
  refine linked_change linked store others mine ?_ ?_
  · intro id r plan version refers
    rw [requests'] at version
    refine ⟨?_, ?_⟩
    · have before := linked.pending thread txn id r plan opened version refers
      simpa only [RowLock.overlay, plans'] using before
    · intro other txn'' different present gone
      exact linked.apart other txn'' plan present gone thread txn (Ne.symm different) opened id r
        version refers
  · intro plan gone
    rw [plans'] at gone
    refine ⟨?_, ?_⟩
    · intro id r visible
      simp only [RowLock.overlay, requests'] at visible
      exact linked.clear thread txn plan opened gone id r visible
    · intro other txn'' different present id r version
      exact linked.apart thread txn plan opened gone other txn'' different present id r version

theorem linked_request {id : Nat} {act : Act .planRequests} {r : PlanRequestRow}
    (linked : Linked db) (opened : db.txns thread = some txn)
    (made : Act.run .planRequests act (db.view thread .planRequests id) = some r)
    (stands : ∀ plan, r.source.planId = some plan → (db.view thread .plans plan).isSome ∧
      ∀ other txn'', other ≠ thread → db.txns other = some txn'' →
        txn''.rows .plans plan ≠ some none)
    (granted : db.write Act.run thread ⟨.planRequests, id, act⟩ = some after) : Linked after := by
  obtain ⟨store, others, txn', mine, same, new⟩ := write_versions opened granted
  replace new : txn'.rows .planRequests id = some (some r) := new.trans (congrArg some made)
  rw [view_overlay opened] at stands
  have plans : ∀ plan, txn'.rows .plans plan = txn.rows .plans plan :=
    fun plan => same _ plan (by simp)
  have others' : ∀ key, key ≠ id → txn'.rows .planRequests key = txn.rows .planRequests key :=
    fun key different => same _ key fun hit => different hit.2
  refine linked_change linked store others mine ?_ ?_
  · intro key r' plan version refers
    by_cases hit : key = id
    · subst hit
      rw [new, Option.some.injEq, Option.some.injEq] at version
      subst version
      obtain ⟨present, free⟩ := stands plan refers
      exact ⟨by simpa only [RowLock.overlay, plans] using present, free⟩
    · rw [others' key hit] at version
      refine ⟨?_, ?_⟩
      · have before := linked.pending thread txn key r' plan opened version refers
        simpa only [RowLock.overlay, plans] using before
      · intro other txn'' different present gone
        exact linked.apart other txn'' plan present gone thread txn (Ne.symm different) opened key
          r' version refers
  · intro plan gone
    rw [plans] at gone
    refine ⟨?_, ?_⟩
    · intro key r' visible refers
      by_cases hit : key = id
      · subst hit
        simp only [RowLock.overlay, new, Option.getD_some, Option.some.injEq] at visible
        subst visible
        have present := (stands plan refers).1
        simp [RowLock.overlay, gone] at present
      · simp only [RowLock.overlay, others' key hit] at visible
        exact linked.clear thread txn plan opened gone key r' visible refers
    · intro other txn'' different present key r' version
      exact linked.apart thread txn plan opened gone other txn'' different present key r' version

theorem linked_plan {id : Nat} {act : Act .plans} (linked : Linked db)
    (opened : db.txns thread = some txn)
    (unreferred : Act.run .plans act (db.view thread .plans id) = none →
      (∀ key, ∀ r : PlanRequestRow, db.view thread .planRequests key = some r →
        r.source.planId ≠ some id) ∧
      ∀ other txn'', other ≠ thread → db.txns other = some txn'' → ∀ key, ∀ r : PlanRequestRow,
        txn''.rows .planRequests key = some (some r) → r.source.planId ≠ some id)
    (granted : db.write Act.run thread ⟨.plans, id, act⟩ = some after) : Linked after := by
  obtain ⟨store, others, txn', mine, same, new⟩ := write_versions opened granted
  replace new : txn'.rows .plans id = some (Act.run .plans act (db.view thread .plans id)) := new
  rw [view_overlay opened] at unreferred new
  have requests : ∀ key, txn'.rows .planRequests key = txn.rows .planRequests key :=
    fun key => same _ key (by simp)
  have others' : ∀ plan, plan ≠ id → txn'.rows .plans plan = txn.rows .plans plan :=
    fun plan different => same _ plan fun hit => different hit.2
  refine linked_change linked store others mine ?_ ?_
  · intro key r plan version refers
    rw [requests] at version
    refine ⟨?_, ?_⟩
    · have before := linked.pending thread txn key r plan opened version refers
      by_cases hit : plan = id
      · subst hit
        cases result : Act.run .plans act (RowLock.overlay txn.rows db.store .plans plan) with
        | some row =>
            rw [result] at new
            simp [RowLock.overlay, new]
        | none =>
            refine absurd refers ((unreferred result).1 key r ?_)
            simp [RowLock.overlay, version]
      · simpa only [RowLock.overlay, others' plan hit] using before
    · intro other txn'' different present gone
      exact linked.apart other txn'' plan present gone thread txn (Ne.symm different) opened key r
        version refers
  · intro plan gone
    by_cases hit : plan = id
    · subst hit
      rw [new, Option.some.injEq] at gone
      obtain ⟨own, foreign⟩ := unreferred gone
      exact ⟨by simpa only [RowLock.overlay, requests] using own, foreign⟩
    · rw [others' plan hit] at gone
      refine ⟨?_, ?_⟩
      · intro key r visible
        simp only [RowLock.overlay, requests] at visible
        exact linked.clear thread txn plan opened gone key r visible
      · intro other txn'' different present key r version
        exact linked.apart thread txn plan opened gone other txn'' different present key r version

end Steps

section Exec
variable {world after : World} {thread : Nat} {choice : Choice}

theorem undoomed_targets (ready : Ready world) {table : TableName} {row : Row table}
    (standing : world.planDoomed thread table row = false) :
    ∀ target ∈ references table row, ∀ other txn, other ≠ thread → world.db.txns other = some txn →
      txn.rows target.1 target.2 ≠ some none := by
  intro target member other txn different opened gone
  have known : other < world.arrivals.length := by
    by_contra beyond
    rw [ready.idle other (Nat.le_of_not_lt beyond)] at opened
    cases opened
  have listed : txn ∈ world.othersOpen thread :=
    List.mem_filterMap.mpr ⟨other, List.mem_range.mpr known, by simp [different, opened]⟩
  rw [World.planDoomed, List.any_eq_false] at standing
  refine standing txn listed (List.any_eq_true.mpr ⟨target, member, ?_⟩)
  simp [gone]

theorem linked_committed {db : Database} {thread : Nat} (linked : Linked db) :
    Linked (db.commit thread) := by
  unfold RowLock.State.commit
  split
  · exact linked
  · exact linked_commit linked ‹_› _

theorem linked_undone {db : Database} (linked : Linked db) : Linked (db.rollback thread) := by
  have before : ∀ other txn, (db.rollback thread).txns other = some txn →
      db.txns other = some txn := fun _ _ present => (RowLock.rollback_txns present).2
  refine ⟨linked.committed, ?_, ?_, ?_⟩
  · intro other txn id r plan present
    exact linked.pending other txn id r plan (before other txn present)
  · intro other txn plan present gone third txn' different third'
    exact linked.apart other txn plan (before other txn present) gone third txn' different
      (before third txn' third')
  · intro other txn plan present
    exact linked.clear other txn plan (before other txn present)

theorem linked_begun {db : Database} (linked : Linked db) (now : Time) :
    Linked (db.begin thread now) := by
  cases opened : db.txns thread with
  | some txn => simpa [RowLock.State.begin, opened] using linked
  | none =>
      rw [RowLock.begin_fresh opened]
      refine linked_change linked rfl (fun other different => Function.update_of_ne different _ _)
        (Function.update_self ..) ?_ ?_
      · intro id r plan version
        cases version
      · intro plan gone
        cases gone

theorem linked_same {db reached : Database} (linked : Linked db) (store : reached.store = db.store)
    (txns : reached.txns = db.txns) : Linked reached := by
  refine ⟨store ▸ linked.committed, ?_, ?_, ?_⟩
  · rw [store, txns]
    exact linked.pending
  · rw [txns]
    exact linked.apart
  · rw [store, txns]
    exact linked.clear

theorem written_open {db reached : Database} {entry : Entry}
    (granted : db.write Act.run thread entry = some reached) :
    ∃ txn, db.txns thread = some txn := by
  obtain ⟨held, txn, acquired, present, _⟩ := RowLock.write_cases granted
  rw [(RowLock.acquire_same acquired).1] at present
  exact ⟨txn, present⟩

theorem planId_referenced {r : PlanRequestRow} {plan : Nat} (refers : r.source.planId = some plan) :
    (TableName.plans, plan) ∈ references .planRequests r := by
  simp [references, refers]

theorem request_stands (ready : Ready world) {r : PlanRequestRow}
    (resolved : World.resolves (world.db.view thread) .planRequests r = true)
    (standing : world.planDoomed thread .planRequests r = false) (plan : Nat)
    (refers : r.source.planId = some plan) :
    (world.db.view thread .plans plan).isSome ∧ ∀ other txn, other ≠ thread →
      world.db.txns other = some txn → txn.rows .plans plan ≠ some none := by
  have target := planId_referenced refers
  refine ⟨List.all_eq_true.mp resolved _ target, ?_⟩
  exact undoomed_targets ready standing _ target

theorem update_linked (ready : Ready world) (linked : Linked world.db) {table : TableName}
    {id : Nat} {op : Op table} {now : Time} {row : Row table} {reached : Database}
    (present : world.db.view thread table id = some row)
    (resolved : World.resolves (world.db.view thread) table (Op.run table op now row) = true)
    (granted : world.db.write Act.run thread (alter table id op now) = some reached)
    (standing : world.planDoomed thread table (Op.run table op now row) = false) :
    Linked reached := by
  obtain ⟨txn, opened⟩ := written_open granted
  cases table with
  | planRequests =>
      refine linked_request linked opened (r := Op.run .planRequests op now row) ?_ ?_ granted
      · rw [present]
        rfl
      · exact request_stands ready resolved standing
  | plans =>
      refine linked_plan linked opened ?_ granted
      rw [present]
      intro gone
      cases gone
  | _ => exact linked_elsewhere linked opened (by simp [alter]) (by simp [alter]) granted

theorem insert_linked (ready : Ready world) (linked : Linked world.db) {table : TableName}
    {row : Row table} {reached : Database}
    (resolved : World.resolves (world.db.view thread) table row = true)
    (granted : (world.db.reserve table).write Act.run thread
      (create table (world.db.next table) row) = some reached)
    (standing : world.planDoomed thread table row = false) : Linked reached := by
  obtain ⟨txn, opened⟩ := written_open granted
  have linked' : Linked (world.db.reserve table) := linked_same linked rfl rfl
  cases table with
  | planRequests =>
      exact linked_request linked' opened rfl (request_stands ready resolved standing) granted
  | plans =>
      refine linked_plan linked' opened ?_ granted
      intro gone
      cases gone
  | _ => exact linked_elsewhere linked' opened (by simp [create]) (by simp [create]) granted

theorem delete_linked (ready : Ready world) (linked : Linked world.db) {id : Nat}
    {reached : Database}
    (granted : world.db.write Act.run thread (remove .plans id) = some reached)
    (awaited : world.planAwaited thread id = false)
    (unreferenced : ∀ request < world.db.next .planRequests, ∀ row : PlanRequestRow,
      world.db.view thread .planRequests request = some row → row.source.planId ≠ some id) :
    Linked reached := by
  obtain ⟨txn, opened⟩ := written_open granted
  refine linked_plan linked opened (fun _ => ⟨?_, ?_⟩) granted
  · intro key r present
    exact unreferenced key (RowLock.view_bound ready.sound (Option.isSome_iff_exists.mpr ⟨r,
      present⟩)) r present
  · intro other txn' different present key r version refers
    have known : other < world.arrivals.length := by
      by_contra beyond
      rw [ready.idle other (Nat.le_of_not_lt beyond)] at present
      cases present
    have listed : txn' ∈ world.othersOpen thread :=
      List.mem_filterMap.mpr ⟨other, List.mem_range.mpr known, by simp [different, present]⟩
    rw [World.planAwaited, List.any_eq_false] at awaited
    have written : (world.db.version other .planRequests key).isSome := by
      simp [RowLock.State.version, present, version]
    have bound := RowLock.version_bound ready.sound written
    refine awaited txn' listed (List.any_eq_true.mpr ⟨key, List.mem_range.mpr bound, ?_⟩)
    simp [version, World.refersTo, refers]

theorem effect_linked (ready : Ready world) (linked : Linked world.db) {cmd : Cmd}
    {answer : Except Failure (Res cmd)} {view : View}
    (effect : Effect world thread choice view cmd answer after) : Linked after.db := by
  cases effect with
  | began => exact linked_begun linked _
  | committed => exact linked_committed linked
  | undone => exact linked_undone linked
  | locked present granted =>
      obtain ⟨txns, store, _, _⟩ := RowLock.acquire_same granted
      exact linked_same linked store txns
  | updated present resolved standing granted =>
      exact update_linked ready linked present resolved granted standing
  | inserted free standing single resolved granted =>
      exact insert_linked ready linked resolved granted standing
  | deleted awaited unreferenced granted =>
      exact delete_linked ready linked granted awaited unreferenced
  | _ => exact linked

theorem failed_linked (linked : Linked world.db) (took : Bool) (cmd : Cmd) :
    Linked (world.failed thread took cmd).2.db := by
  cases cmd with
  | commit =>
      cases took with
      | true => exact linked_committed linked
      | false => exact linked_undone linked
  | rollback => exact linked_undone linked
  | ndsctl command => cases took <;> exact linked
  | _ => exact linked

theorem exec_linked (ready : Ready world) (linked : Linked world.db) {cmd : Cmd}
    {answer : Except Failure (Res cmd)}
    (executed : world.exec thread cmd choice = some (answer, after)) : Linked after.db := by
  simp only [World.exec, Option.map_eq_some_iff, Prod.exists, Prod.mk.injEq] at executed
  obtain ⟨reply, reached, result, rfl, rfl⟩ := executed
  have ready' : Ready (world.advance choice.elapsed) :=
    ⟨ready.sound, ready.kept, ready.idle, ready.recorded, ready.truthful⟩
  have linked' : Linked (world.advance choice.elapsed).db := linked
  have kept : Linked reached.db := by
    split at result
    · rw [Option.some.injEq] at result
      have unchanged := @failed_linked _ thread linked' choice.took cmd
      rwa [show (world.advance choice.elapsed).failed thread choice.took cmd = (reply, reached)
        from result] at unchanged
    · exact effect_linked ready' linked' (succeeded_effect result)
  exact kept

end Exec

section Reached
variable {config : Config} {pool : ServerPool}

theorem initial_linked : Linked World.initial.db := by
  refine ⟨?_, ?_, ?_, ?_⟩ <;> simp [World.initial, emptyDatabase, Resolved]

theorem reached_linked (reached : Reached config pool) : Linked pool.state.db := by
  induction reached with
  | init => exact initial_linked
  | @next pool after move before moved ih =>
      cases step_cases moved with
      | start call => exact ih
      | advance thread choice cmd next answer world running executed =>
          exact exec_linked (reached_ready before) ih executed
      | crash thread program running => exact linked_undone ih
      | ambient event world happened => exact (ambient_cases happened).1 ▸ ih

theorem move_log {pool after : ServerPool} {move : Move Choice Call Ambient}
    (moved : step (server config) pool move = some after) :
    pool.state.db.log <+: after.state.db.log ∧
      after.state.db.log.length ≤ pool.state.db.log.length + 1 := by
  have same : ∀ {log : List (Nat × List Entry)}, log = pool.state.db.log →
      pool.state.db.log <+: log ∧ log.length ≤ pool.state.db.log.length + 1 := by
    rintro log rfl
    exact ⟨List.prefix_refl _, Nat.le_succ _⟩
  cases step_cases moved with
  | start call => exact same rfl
  | advance thread choice cmd next answer world running executed =>
      obtain ⟨_, _, _, stepped⟩ := exec_cases executed
      rcases dbStep_store stepped with committed | ⟨log, _⟩
      · rw [show (⟨world, _⟩ : ServerPool).state.db = world.db from rfl, committed]
        unfold RowLock.State.commit
        split
        · exact same rfl
        · simp
      · exact same log
  | crash thread program running => exact same rfl
  | ambient event world happened => exact same (by rw [(ambient_cases happened).1])

theorem reached_resolved (reached : Reached config pool) (commits : Nat)
    (bound : commits ≤ pool.state.db.log.length) :
    Resolved (storeAfter pool.state.db.log commits) := by
  induction reached with
  | init =>
      intro id r plan present
      simp [World.initial, emptyDatabase, storeAfter] at present
  | @next pool after move before moved ih =>
      obtain ⟨grows, longer⟩ := move_log moved
      by_cases old : commits ≤ pool.state.db.log.length
      · rw [storeAfter_grown grows commits old]
        exact ih old
      · have last : commits = after.state.db.log.length := by omega
        have now := before.next move moved
        rw [last, ← (reached_ready now).recorded]
        exact (reached_linked now).committed

end Reached
end Cybera
