import Cybera.Ledger

/-!
One rule for each kind of statement: what a thread knows after it, inside a
transaction and outside. The rules are stated over the interleaved machine, so
each already accounts for the steps of everybody else.
-/

namespace Cybera

open Interleaving

structure Held (config : Config) (world : World) : Prop where
  ready : Ready world
  legit : Legit config world

abbrev Secure {β : Type} (config : Config) (thread : Nat)
    (post : Except Failure β → World → Prop) (program : Program β) (world : World) : Prop :=
  Safe (server config) (Held config) Rely thread post program world

def World.own (world : World) (thread : Nat) : List (List Entry) :=
  (world.db.log.filter fun block => block.1 == thread).map (·.2)

/-- The thread has committed nothing, or did not hear that it has. -/
def World.Withdrawn (world : World) (thread : Nat) : Prop :=
  ¬ Lost world thread → world.own thread = []

theorem lost_later {before after : World} {thread : Nat} (grows : before.hist <+: after.hist)
    (lost : Lost before thread) : Lost after thread := by
  obtain ⟨time, commits, acts, view, logged⟩ := lost
  exact ⟨time, commits, acts, view, grows.subset logged⟩

theorem withdrawn_later {before after : World} {thread : Nat} (grows : before.hist <+: after.hist)
    (own : after.own thread = before.own thread) (withdrawn : before.Withdrawn thread) :
    after.Withdrawn thread :=
  fun heard => own.trans (withdrawn fun lost => heard (lost_later grows lost))

theorem withdrawn_lost {world : World} {thread index : Nat} {acts : List Entry}
    (lost : ∃ time view,
      ⟨thread, .commit, .error .lost, time, index, acts, view⟩ ∈ world.hist) :
    world.Withdrawn thread := by
  obtain ⟨time, view, logged⟩ := lost
  exact fun heard => absurd ⟨time, index, acts, view, logged⟩ heard

theorem withdrawn_silent {world : World} {thread : Nat} (withdrawn : world.Withdrawn thread)
    (heard : ¬ Lost world thread) : ∀ block ∈ world.db.log, block.1 ≠ thread := by
  intro block member same
  have nothing := withdrawn heard
  simp only [World.own, List.map_eq_nil_iff, List.filter_eq_nil_iff] at nothing
  exact absurd (by simp [same]) (nothing block member)

/-- `after` lies later in the run than `before`. -/
structure Later (before after : World) : Prop where
  log : before.db.log <+: after.db.log
  clock : before.clock ≤ after.clock
  hist : before.hist <+: after.hist
  arrivals : before.arrivals <+: after.arrivals

theorem later_refl (world : World) : Later world world :=
  ⟨List.prefix_refl _, Int.le_refl _, List.prefix_refl _, List.prefix_refl _⟩

theorem later_trans {first second third : World} (left : Later first second)
    (right : Later second third) : Later first third :=
  ⟨left.log.trans right.log, Int.le_trans left.clock right.clock, left.hist.trans right.hist,
    left.arrivals.trans right.arrivals⟩

/-- What happened from `before` on, it happened to its rows and after its clock. -/
structure Onward (before after : World) : Prop where
  later : Later before after
  events : ∀ (pos : Nat) (event : Event), before.hist.length ≤ pos →
    after.hist[pos]? = some event →
      before.db.log.length ≤ event.commits ∧ before.clock ≤ event.time

theorem onward_same {before after : World} (later : Later before after)
    (same : after.hist = before.hist) : Onward before after := by
  refine ⟨later, ?_⟩
  intro pos event beyond found
  rw [same] at found
  exact absurd (List.getElem?_eq_some_iff.mp found).1 (Nat.not_lt.mpr beyond)

theorem onward_trans {first second third : World} (left : Onward first second)
    (right : Onward second third) : Onward first third := by
  refine ⟨later_trans left.later right.later, ?_⟩
  intro pos event beyond found
  by_cases old : pos < second.hist.length
  · have there := List.getElem?_eq_getElem old
    rw [prefix_getElem? right.later.hist there, Option.some.injEq] at found
    exact left.events pos event beyond (found ▸ there)
  · obtain ⟨commits, time⟩ := right.events pos event (Nat.le_of_not_lt old) found
    exact ⟨Nat.le_trans left.later.log.length_le commits, Int.le_trans left.later.clock time⟩

theorem run_onward {config : Config} {pool after : ServerPool}
    {moves : List (Move Choice Call Ambient)} (ran : run (server config) pool moves = some after) :
    Onward pool.state after.state := by
  refine run_related (server config) Onward (fun world => onward_same (later_refl world) rfl)
    (fun _ _ _ => onward_trans) ?_ ?_ ?_ ?_ moves pool after ran
  · intro call world
    exact onward_same ⟨List.prefix_refl _, Int.le_refl _, List.prefix_refl _,
      List.prefix_append _ _⟩ rfl
  · intro thread cmd choice world answer after executed
    obtain ⟨clock, arrivals, hist, step⟩ := exec_cases executed
    have ahead : world.clock ≤ world.clock + choice.elapsed :=
      Int.le_add_of_nonneg_right (Int.natCast_nonneg _)
    refine ⟨⟨dbStep_log step, clock ▸ ahead, hist ▸ List.prefix_append _ _,
      arrivals ▸ List.prefix_refl _⟩, ?_⟩
    intro pos event beyond found
    -- the one event that is new
    rw [hist, List.getElem?_append_right beyond, List.getElem?_singleton,
      Option.ite_none_right_eq_some, Option.some.injEq] at found
    exact found.2 ▸ ⟨Nat.le_refl _, ahead⟩
  · intro thread world
    exact onward_same ⟨List.prefix_refl _, Int.le_refl _, List.prefix_refl _,
      List.prefix_refl _⟩ rfl
  · intro event before after happened
    obtain ⟨db, clock, arrivals, hist⟩ := ambient_cases happened
    exact onward_same ⟨db ▸ List.prefix_refl _, clock, hist ▸ List.prefix_refl _,
      arrivals ▸ List.prefix_refl _⟩ hist

theorem Carries.later {thread : Nat} {before after : World}
    (carries : Carries thread before after) :
    Later before after :=
  ⟨carries.db.log, carries.clock, carries.hist, carries.arrivals⟩

theorem Later.committed {before after : World} (later : Later before after) {thread : Nat}
    {acts : List Entry} {based : Store → Prop} (committed : before.Committed thread acts based) :
    after.Committed thread acts based := by
  obtain ⟨index, found, holds⟩ := committed
  refine ⟨index, prefix_getElem? later.log found, ?_⟩
  rwa [storeAfter_grown later.log index
    (Nat.le_of_lt (List.getElem?_eq_some_iff.mp found).1)]

/-- Inside a transaction that wrote `acts` and carries everything known in `first`. -/
structure Here (thread : Nat) (first world : World) (began : Time) (acts : List Entry) : Prop where
  since : Carries thread first world
  inside : RowLock.InTxn world.db thread began acts
  known : thread < world.arrivals.length
  clock : began ≤ world.clock

/-- Outside any transaction, with the commits made so far. -/
structure Free (thread : Nat) (world : World) (blocks : List (List Entry)) : Prop where
  outside : world.db.txns thread = none
  known : thread < world.arrivals.length
  own : world.own thread = blocks

/-- The last step of `after` is `event`, and `world` lies before it. -/
def Logged (world after : World) (event : Event) : Prop :=
  ∃ earlier, world.hist <+: earlier ∧ after.hist = earlier ++ [event]

theorem Logged.mem {world after : World} {event : Event} (logged : Logged world after event) :
    event ∈ after.hist := by
  obtain ⟨earlier, _, hist⟩ := logged
  simp [hist]

section Context
variable {thread : Nat} {first world after : World} {began : Time} {acts : List Entry}
  {blocks : List (List Entry)}

theorem Here.rely (here : Here thread first world began acts) (relied : Rely thread world after) :
    Here thread first after began acts where
  since := carries_trans here.since relied.carries
  inside := relied.db.inTxn here.inside
  known := Nat.lt_of_lt_of_le here.known relied.arrivals.length_le
  clock := Int.le_trans here.clock relied.clock

theorem Here.restart (here : Here thread first world began acts) :
    Here thread world world began acts :=
  ⟨carries_refl _ _, here.inside, here.known, here.clock⟩

theorem Here.weaken {earlier : World} (here : Here thread first world began acts)
    (carries : Carries thread earlier first) : Here thread earlier world began acts :=
  ⟨carries_trans carries here.since, here.inside, here.known, here.clock⟩

theorem own_eq (same : after.db.log.filter (fun block => block.1 == thread) =
    world.db.log.filter (fun block => block.1 == thread)) :
    after.own thread = world.own thread := by
  simp only [World.own, same]

theorem own_single (own : world.own thread = [acts]) {first second : Nat} {left right : List Entry}
    (found : world.db.log[first]? = some (thread, left))
    (found' : world.db.log[second]? = some (thread, right)) : first = second := by
  have apart : ∀ {first second : Nat} {left right : List Entry},
      world.db.log[first]? = some (thread, left) → world.db.log[second]? = some (thread, right) →
        ¬ first < second := by
    intro first second left right found found' less
    have earlier : (thread, left) ∈ (world.db.log.take second).filter (·.1 == thread) := by
      refine List.mem_filter.mpr ⟨List.mem_of_getElem? (i := first) ?_, by simp⟩
      rw [List.getElem?_take, if_pos less, found]
    have later : (thread, right) ∈ (world.db.log.drop second).filter (·.1 == thread) := by
      refine List.mem_filter.mpr ⟨List.mem_of_getElem? (i := 0) ?_, by simp⟩
      rw [List.getElem?_drop, Nat.add_zero, found']
    have count := congrArg List.length own
    rw [World.own, ← List.take_append_drop second world.db.log, List.filter_append, List.map_append,
      List.length_append, List.length_map, List.length_map, List.length_singleton] at count
    have := List.length_pos_of_mem earlier
    have := List.length_pos_of_mem later
    omega
  exact Nat.le_antisymm (Nat.not_lt.mp (apart found' found)) (Nat.not_lt.mp (apart found found'))

theorem own_old (grows : world.db.log <+: after.db.log) (own : after.own thread = world.own thread)
    {index : Nat} (found : after.db.log[index]? = some (thread, acts)) :
    world.db.log[index]? = some (thread, acts) := by
  obtain ⟨more, grown⟩ := grows
  rw [← grown] at found
  by_cases old : index < world.db.log.length
  · rwa [List.getElem?_append_left old] at found
  · rw [List.getElem?_append_right (Nat.le_of_not_lt old)] at found
    have new : acts ∈ (more.filter fun block => block.1 == thread).map (·.2) :=
      List.mem_map.mpr ⟨_, List.mem_filter.mpr ⟨List.mem_of_getElem? found, by simp⟩, rfl⟩
    rw [World.own, ← grown, List.filter_append, List.map_append, ← World.own,
      List.append_right_eq_self] at own
    rw [own] at new
    cases new

theorem Free.rely (free : Free thread world blocks) (relied : Rely thread world after) :
    Free thread after blocks where
  outside := relied.db.txn.trans free.outside
  known := Nat.lt_of_lt_of_le free.known relied.arrivals.length_le
  own := (own_eq relied.db.own).trans free.own

theorem free_pending (free : Free thread world blocks) : world.pendingActs thread = [] := by
  simp [World.pendingActs, free.outside]

theorem here_pending (here : Here thread first world began acts) :
    world.pendingActs thread = acts := by
  obtain ⟨rows, present⟩ := here.inside
  simp [World.pendingActs, present]

theorem Basis.carries (carries : Carries thread world after) :
    (after.basis thread).Extends (world.basis thread) :=
  ⟨fun _ _ _ holds => carries.db.holds holds, carries.db.log, carries.hist⟩

end Context

section Own
variable {config : Config} {thread : Nat} {world after : World} {choice : Choice}

theorem own_step {cmd : Cmd} {answer : Except Failure (Res cmd)} (held : Held config world)
    (known : thread < world.arrivals.length)
    (executed : world.exec thread cmd choice = some (answer, after))
    (log : after.db.log = world.db.log)
    (quiet : ∀ mac minutes, cmd ≠ .ndsctl (.auth mac minutes)) : Held config after := by
  obtain ⟨_, arrivals, hist, _⟩ := exec_cases executed
  refine ⟨exec_ready held.ready known executed, ?_⟩
  refine legit_quiet held.legit log (arrivals ▸ List.prefix_refl _)
    (hist ▸ List.prefix_append _ _) ?_
  intro index event found old
  rw [hist, List.getElem?_append_right old] at found
  have last := List.mem_of_getElem? found
  rw [List.mem_singleton] at last
  subst last
  exact quiet

theorem own_carries {cmd : Cmd} {answer : Except Failure (Res cmd)}
    (executed : world.exec thread cmd choice = some (answer, after))
    (keeps : RowLock.Keeps thread world.db after.db) (store : after.db.store = world.db.store) :
    Carries thread world after := by
  obtain ⟨clock, arrivals, hist, _⟩ := exec_cases executed
  refine ⟨keeps, ?_, hist ▸ List.prefix_append _ _, arrivals ▸ List.prefix_refl _, ?_⟩
  · rw [clock]
    exact Int.le_add_of_nonneg_right (Int.natCast_nonneg _)
  · intro table id _ present
    rwa [store]

theorem own_logged {cmd : Cmd} {answer : Except Failure (Res cmd)}
    (executed : world.exec thread cmd choice = some (answer, after)) :
    Logged world after (world.eventOf thread cmd choice answer) :=
  ⟨world.hist, List.prefix_refl _, (exec_cases executed).2.2.1⟩

/-- COMMIT, ROLLBACK and `ndsctl auth` have rules of their own. -/
def Cmd.Plain : Cmd → Prop
  | .commit => False
  | .rollback => False
  | .ndsctl (.auth ..) => False
  | _ => True

theorem plain_quiet {cmd : Cmd} (plain : cmd.Plain) :
    ∀ mac minutes, cmd ≠ .ndsctl (.auth mac minutes) := by
  rintro mac minutes rfl
  exact plain

def World.advance (world : World) (elapsed : Nat) : World :=
  { world with clock := world.clock + elapsed }

theorem exec_ok {cmd : Cmd} {value : Res cmd}
    (executed : world.exec thread cmd choice = some (.ok value, after)) :
    ∃ reached, (world.advance choice.elapsed).succeeded thread choice cmd =
      some (.ok value, reached) ∧ after.db = reached.db ∧ after.clients = reached.clients := by
  simp only [World.exec, Option.map_eq_some_iff, Prod.exists, Prod.mk.injEq] at executed
  obtain ⟨reply, reached, result, rfl, rfl⟩ := executed
  split at result
  · obtain ⟨error, failed⟩ := failed_error (world.advance choice.elapsed) thread choice.took cmd
    have drawn : (world.advance choice.elapsed).failed thread choice.took cmd =
        (.ok value, reached) := Option.some.inj result
    rw [drawn] at failed
    cases failed
  · exact ⟨reached, result, rfl, rfl⟩

theorem failed_db {cmd : Cmd} (plain : cmd.Plain) (took : Bool) :
    (world.failed thread took cmd).2.db = world.db := by
  cases cmd with
  | commit => cases plain
  | rollback => cases plain
  | ndsctl command => cases took <;> rfl
  | _ => rfl

theorem refused_db {cmd : Cmd} {error : Failure}
    (executed : world.succeeded thread choice cmd = some (.error error, after)) :
    after.db = world.db := by
  have effect := succeeded_effect executed
  generalize answered : Except.error error = answer at effect
  cases effect with
  | broken | refused | referenced | ordered => rfl
  | _ => cases answered

theorem error_db {cmd : Cmd} {error : Failure} (plain : cmd.Plain)
    (executed : world.exec thread cmd choice = some (.error error, after)) :
    after.db = world.db := by
  simp only [World.exec, Option.map_eq_some_iff, Prod.exists, Prod.mk.injEq] at executed
  obtain ⟨reply, reached, result, rfl, rfl⟩ := executed
  have same : reached.db = (world.advance choice.elapsed).db := by
    split at result
    · have kept : ((world.advance choice.elapsed).failed thread choice.took cmd).2.db =
          (world.advance choice.elapsed).db := failed_db plain choice.took
      have drawn : (world.advance choice.elapsed).failed thread choice.took cmd =
          (.error error, reached) := Option.some.inj result
      rwa [drawn] at kept
    · exact refused_db result
  exact same

theorem lock_ok {table : TableName} {id : Nat} {value : Option (Row table)}
    (executed : world.succeeded thread choice (.lock table id) = some (.ok value, after)) :
    (value = none ∧ after.db = world.db ∧ world.db.view thread table id = none) ∨
      (∃ row, value = some row ∧ world.db.view thread table id = some row ∧
        world.db.acquire thread table id = some after.db) := by
  cases lock_effect executed with
  | unlocked absent => exact Or.inl ⟨rfl, rfl, absent⟩
  | locked present granted => exact Or.inr ⟨_, rfl, present, granted⟩

theorem update_ok {table : TableName} {id : Nat} {op : Op table} {value : Option (Row table)}
    (executed : world.succeeded thread choice (.update table id op) = some (.ok value, after)) :
    (value = none ∧ after.db = world.db ∧ world.db.view thread table id = none) ∨
      (∃ row, value = some (Op.run table op (world.view thread choice.order).now row) ∧
        world.db.view thread table id = some row ∧
        World.resolves (world.db.view thread) table
          (Op.run table op (world.view thread choice.order).now row) = true ∧
        world.db.write Act.run thread (alter table id op (world.view thread choice.order).now) =
          some after.db ∧
        world.planDoomed thread table (Op.run table op (world.view thread choice.order).now row) =
          false) := by
  cases update_effect executed with
  | missed absent => exact Or.inl ⟨rfl, rfl, absent⟩
  | updated present linked standing written =>
      exact Or.inr ⟨_, rfl, present, linked, written, standing⟩

theorem insert_ok {table : TableName} {row : Time → Row table} {skip : Bool}
    {value : Option (Nat × Row table)}
    (executed : world.succeeded thread choice (.insert table row skip) =
      some (.ok value, after)) :
    (value = none ∧ after.db = world.db) ∨
      (value = some (world.db.next table, row (world.view thread choice.order).now) ∧
        World.resolves (world.db.view thread) table (row (world.view thread choice.order).now) =
          true ∧
        (world.db.reserve table).write Act.run thread
          (create table (world.db.next table) (row (world.view thread choice.order).now)) =
            some after.db ∧
        world.planDoomed thread table (row (world.view thread choice.order).now) = false) := by
  cases insert_effect executed with
  | skipped => exact Or.inl ⟨rfl, rfl⟩
  | inserted free standing single linked written => exact Or.inr ⟨rfl, linked, written, standing⟩

theorem delete_ok {id : Nat}
    (executed : world.succeeded thread choice (.deletePlan id) = some (.ok (), after)) :
    after.db = world.db ∨
      (world.db.write Act.run thread (remove .plans id) = some after.db ∧
        world.planAwaited thread id = false ∧
        (∀ request < world.db.next .planRequests, ∀ row : PlanRequestRow,
          world.db.view thread .planRequests request = some row →
            row.source.planId ≠ some id)) := by
  cases delete_effect executed with
  | gone => exact Or.inl rfl
  | deleted free unreferenced written => exact Or.inr ⟨written, free, unreferenced⟩

theorem rollback_db {answer : Except Failure Unit}
    (executed : world.exec thread .rollback choice = some (answer, after)) :
    after.db = world.db.rollback thread := by
  simp only [World.exec, Option.map_eq_some_iff, Prod.exists, Prod.mk.injEq] at executed
  obtain ⟨reply, reached, result, rfl, rfl⟩ := executed
  split at result <;> cases result <;> rfl

theorem auth_db {mac : Text} {minutes : Nat} {answer : Except Failure Unit}
    (executed : world.exec thread (.ndsctl (.auth mac minutes)) choice = some (answer, after)) :
    after.db = world.db := by
  simp only [World.exec, Option.map_eq_some_iff, Prod.exists, Prod.mk.injEq] at executed
  obtain ⟨reply, reached, result, rfl, rfl⟩ := executed
  split at result
  · cases result
    cases choice.took <;> rfl
  · cases result
    rfl

theorem commit_db {answer : Except Failure Unit}
    (executed : world.exec thread .commit choice = some (answer, after)) :
    (Landed answer ∧ after.db = world.db.commit thread) ∨
      (answer = .error .query ∧ after.db = world.db.rollback thread) := by
  simp only [World.exec, Option.map_eq_some_iff, Prod.exists, Prod.mk.injEq] at executed
  obtain ⟨reply, reached, result, rfl, rfl⟩ := executed
  split at result
  · rw [Option.some.injEq] at result
    cases took : choice.took with
    | true =>
        rw [took] at result
        cases result
        exact Or.inl ⟨.lost, rfl⟩
    | false =>
        rw [took] at result
        cases result
        exact Or.inr ⟨rfl, rfl⟩
  · cases result
    exact Or.inl ⟨.answered, rfl⟩

/-- A statement of an open transaction: `more` joins its acts, nothing commits. -/
structure Writes (thread : Nat) (before after : Database) (more : List Entry) : Prop where
  keeps : RowLock.Keeps thread before after
  store : after.store = before.store
  log : after.log = before.log
  inside : ∀ began acts, RowLock.InTxn before thread began acts →
    RowLock.InTxn after thread began (acts ++ more)

theorem writes_nothing (db : Database) : Writes thread db db [] :=
  ⟨RowLock.keeps_refl _ _, rfl, rfl, fun _ acts inside => by simpa using inside⟩

theorem writes_acquire {db reached : Database} {table : TableName} {id : Nat}
    (granted : db.acquire thread table id = some reached) : Writes thread db reached [] := by
  obtain ⟨txns, store, _, log⟩ := RowLock.acquire_same granted
  refine ⟨(RowLock.acquire_undisturbed granted).keeps, store, log, ?_⟩
  intro began acts inside
  simpa [RowLock.InTxn, txns] using inside

theorem writes_write {db reached : Database} {entry : Entry}
    (granted : db.write Act.run thread entry = some reached) :
    Writes thread db reached [entry] := by
  obtain ⟨store, _, log⟩ := RowLock.write_same granted
  exact ⟨RowLock.write_keeps granted, store, log,
    fun _ _ inside => RowLock.write_inTxn inside granted⟩

theorem writes_insert {db reached : Database} {table : TableName} {entry : Entry}
    (granted : (db.reserve table).write Act.run thread entry = some reached) :
    Writes thread db reached [entry] := by
  have wrote := writes_write granted
  exact ⟨RowLock.keeps_trans (RowLock.reserve_undisturbed table).keeps wrote.keeps, wrote.store,
    wrote.log, wrote.inside⟩

end Own

/-! Rules inside a transaction. An error only has to leave the transaction
where it is: DbService.tx rolls it back. -/
section Inside
variable {config : Config} {thread : Nat} {first world : World} {began : Time}
  {acts : List Entry} {α β : Type}

def Inside (thread : Nat) (first : World) (post : α → World → Prop) :
    Except Failure α → World → Prop :=
  Branch post fun _ => Carries thread first

abbrev Body (config : Config) (thread : Nat) (first : World) (post : α → World → Prop)
    (program : Program α) (world : World) : Prop :=
  Secure config thread (Inside thread first post) program world

theorem body_bind {post : β → World → Prop} (program : Program α) (rest : α → Program β)
    (body : Body config thread first (fun value after => Body config thread first post
      (rest value) after) program world) :
    Body config thread first post (program.bind rest) world := by
  apply safe_bind
  refine safe_mono ?_ _ _ body
  intro outcome after reached
  cases outcome with
  | ok value => exact reached
  | error error => exact reached

theorem body_mono {middle post : α → World → Prop} {program : Program α}
    (body : Body config thread first middle program world)
    (ends : ∀ value after, middle value after → post value after) :
    Body config thread first post program world := by
  refine safe_mono ?_ _ _ body
  intro outcome after ended
  cases outcome with
  | ok value => exact ends value after ended
  | error error => exact ended

theorem body_then {middle : α → World → Prop} {post : β → World → Prop} {program : Program α}
    {rest : α → Program β} (body : Body config thread first middle program world)
    (next : ∀ value after, middle value after → Body config thread first post (rest value) after) :
    Body config thread first post (program.bind rest) world :=
  body_bind program rest (body_mono body next)

theorem body_restart {post : α → World → Prop} {program : Program α}
    (since : Carries thread first world) (body : Body config thread world post program world) :
    Body config thread first post program world := by
  refine safe_mono ?_ _ _ body
  intro outcome after ended
  cases outcome with
  | ok value => exact ended
  | error error => exact carries_trans since ended

theorem body_throwIf {post : α → World → Prop} {condition : Bool} {error : Failure}
    {rest : Unit → Program α} (here : Here thread first world began acts)
    (passed : condition = false → Body config thread first post (rest ()) world) :
    Body config thread first post ((Prog.throwIf condition error).bind rest) world :=
  safe_throwIf _ _ _ _ (fun _ => here.since) passed

theorem body_orThrow {post : β → World → Prop} {value : Option α} {error : Failure}
    {rest : α → Program β} (here : Here thread first world began acts)
    (found : ∀ inner, value = some inner → Body config thread first post (rest inner) world) :
    Body config thread first post ((Prog.orThrow value error).bind rest) world :=
  safe_orThrow _ _ _ _ (fun _ => here.since) found

/-- The rule behind all the others: a plain command that succeeds adds `more`
to the transaction, one that fails leaves the transaction as it was. -/
theorem body_step {post : α → World → Prop} {cmd : Cmd} {rest : Res cmd → Program α}
    (plain : cmd.Plain) (here : Here thread first world began acts)
    (executes : ∀ before reached value choice, Here thread first before began acts →
      Carries thread world before → Held config before →
      (before.advance choice.elapsed).succeeded thread choice cmd = some (.ok value, reached) →
        ∃ more, Writes thread before.db reached.db more ∧
          ∀ after, after.db = reached.db → after.clock = before.clock + choice.elapsed →
            Carries thread world after → Held config after →
            Here thread first after began (acts ++ more) →
            Logged world after (before.eventOf thread cmd choice (.ok value)) →
              Body config thread first post (rest value) after) :
    Body config thread first post ((perform cmd).bind rest) world := by
  apply safe_perform
  intro before relied held choice answer after executed
  have here' := here.rely relied
  have come := relied.carries
  have clock := (exec_cases executed).1
  cases answer with
  | error error =>
      have same := error_db plain executed
      have carries := own_carries executed (same ▸ RowLock.keeps_refl _ _) (by rw [same])
      exact ⟨own_step held here'.known executed (by rw [same]) (plain_quiet plain),
        carries_trans here'.since carries⟩
  | ok value =>
      obtain ⟨reached, ran, same, _⟩ := exec_ok executed
      obtain ⟨more, wrote, tail⟩ := executes before reached value choice here' come held ran
      have carries := own_carries executed (same ▸ wrote.keeps) (same ▸ wrote.store)
      have kept := own_step held here'.known executed (same ▸ wrote.log) (plain_quiet plain)
      refine ⟨kept, tail after same clock (carries_trans come carries) kept ?_ ?_⟩
      · exact ⟨carries_trans here'.since carries, same ▸ wrote.inside _ _ here'.inside,
          Nat.lt_of_lt_of_le here'.known carries.arrivals.length_le,
          Int.le_trans here'.clock carries.clock⟩
      · obtain ⟨earlier, _, hist⟩ := own_logged executed
        exact ⟨before.hist, come.hist, (exec_cases executed).2.2.1⟩

theorem step_silent {post : α → World → Prop} {before reached : World} {choice : Choice}
    {event : Event} {body : Program α} (wrote : Writes thread before.db reached.db [])
    (tail : ∀ after, after.db = reached.db → after.clock = before.clock + choice.elapsed →
      Carries thread world after → Held config after → Here thread first after began acts →
      Logged world after event → Body config thread first post body after) :
    ∃ more, Writes thread before.db reached.db more ∧
      ∀ after, after.db = reached.db → after.clock = before.clock + choice.elapsed →
        Carries thread world after → Held config after →
        Here thread first after began (acts ++ more) → Logged world after event →
          Body config thread first post body after := by
  refine ⟨[], wrote, ?_⟩
  intro after reach clock carries kept here logged
  rw [List.append_nil] at here
  exact tail after reach clock carries kept here logged

theorem here_view (here : Here thread first world began acts) (held : Held config world) :
    world.db.view thread = replay acts world.db.store := by
  have seen : world.db.view thread = _ := view_pending held.ready
  rwa [here_pending here] at seen

theorem here_now (here : Here thread first world began acts) (elapsed : Nat) (order : Nat → Nat) :
    ((world.advance elapsed).view thread order).now = began := by
  obtain ⟨rows, present⟩ := here.inside
  simp [World.view, World.advance, present]

theorem body_query {post : α → World → Prop} {query : Query} {rest : query.Res → Program α}
    (here : Here thread first world began acts)
    (found : ∀ after time view, Here thread first after began acts → Carries thread world after →
      Held config after →
      Logged world after ⟨thread, .query query, .ok (query.eval view), time, after.db.log.length,
        acts, view⟩ →
      view.rows = replay acts after.db.store → view.now = began →
        Body config thread first post (rest (query.eval view)) after) :
    Body config thread first post ((select query).bind rest) world := by
  refine body_step trivial here ?_
  intro before reached value choice here' come held ran
  cases ran
  refine step_silent (writes_nothing _) ?_
  intro after same clock carries kept here'' logged
  refine found after (before.clock + choice.elapsed)
    ((before.advance choice.elapsed).view thread choice.order) here'' carries kept ?_ ?_ ?_
  · rw [World.eventOf, here_pending here'] at logged
    rw [same]
    exact logged
  · have seen := here_view here' held
    rw [same]
    exact seen
  · exact here_now here' _ _

theorem here_stays (here : Here thread first world began acts) (held : Held config world)
    {table : TableName} {id : Nat} (other : table ≠ .plans)
    (present : (world.db.store table id).isSome) :
    (replay acts world.db.store table id).isSome := by
  obtain ⟨rows, opened⟩ := here.inside
  exact replay_stays acts _ (held.ready.kept thread _ opened) table id other present

theorem body_dateNow {post : α → World → Prop} {rest : Time → Program α}
    (here : Here thread first world began acts)
    (found : ∀ after date, Here thread first after began acts → Carries thread world after →
      Held config after → began ≤ date → Body config thread first post (rest date) after) :
    Body config thread first post ((perform .dateNow).bind rest) world := by
  refine body_step trivial here ?_
  intro before reached value choice here' come held ran
  cases ran
  refine step_silent (writes_nothing _) ?_
  intro after same clock carries kept here'' logged
  refine found after _ here'' carries kept ?_
  exact Int.le_trans here'.clock (Int.le_add_of_nonneg_right (Int.natCast_nonneg _))

theorem body_lock {post : α → World → Prop} {table : TableName} {id : Nat}
    {rest : Option (Row table) → Program α} (here : Here thread first world began acts)
    (absent : ∀ after, Here thread first after began acts → Carries thread world after →
      Held config after → replay acts after.db.store table id = none →
        Body config thread first post (rest none) after)
    (found : ∀ after row, Here thread first after began acts → Carries thread world after →
      Held config after → after.db.locks table id = some thread →
      replay acts after.db.store table id = some row →
      (∃ time view, Logged world after
        ⟨thread, .lock table id, .ok (some row), time, after.db.log.length, acts, view⟩) →
        Body config thread first post (rest (some row)) after) :
    Body config thread first post ((lockRow table id).bind rest) world := by
  refine body_step trivial here ?_
  intro before reached value choice here' come held ran
  have seen := here_view here' held
  obtain ⟨rfl, same, missing⟩ | ⟨row, rfl, present, granted⟩ := lock_ok ran
  · refine step_silent (same ▸ writes_nothing _) ?_
    intro after reach clock carries kept here'' logged
    refine absent after here'' carries kept ?_
    rw [reach, same]
    exact seen ▸ missing
  · have wrote := writes_acquire granted
    refine step_silent wrote ?_
    intro after reach clock carries kept here'' logged
    refine found after row here'' carries kept ?_ ?_ ?_
    · rw [reach]
      exact RowLock.acquire_lock granted
    · rw [reach, wrote.store]
      exact seen ▸ present
    · rw [World.eventOf, here_pending here'] at logged
      rw [reach, wrote.log]
      exact ⟨_, _, logged⟩

theorem linked_targets {world' : World} {table : TableName} {row : Row table}
    (seen : world'.db.view thread = replay acts world'.db.store)
    (linked : World.resolves (world'.db.view thread) table row = true) :
    ∀ target ∈ references table row, (replay acts world'.db.store target.1 target.2).isSome := by
  rw [seen] at linked
  simpa [World.resolves] using linked

theorem body_update {post : α → World → Prop} {table : TableName} {id : Nat} {op : Op table}
    {rest : Option (Row table) → Program α} (here : Here thread first world began acts)
    (absent : ∀ after, Here thread first after began acts → Carries thread world after →
      Held config after → replay acts after.db.store table id = none →
        Body config thread first post (rest none) after)
    (found : ∀ after row, Here thread first after began (acts ++ [alter table id op began]) →
      Carries thread world after → Held config after → after.db.locks table id = some thread →
      replay acts after.db.store table id = some row →
      (∀ target ∈ references table (Op.run table op began row),
        (replay acts after.db.store target.1 target.2).isSome) →
        Body config thread first post (rest (some (Op.run table op began row))) after) :
    Body config thread first post ((updateRow table id op).bind rest) world := by
  refine body_step trivial here ?_
  intro before reached value choice here' come held ran
  have seen := here_view here' held
  have now := here_now here' choice.elapsed choice.order
  obtain ⟨rfl, same, missing⟩ | ⟨row, rfl, present, linked, granted, _⟩ := update_ok ran
  · refine step_silent (same ▸ writes_nothing _) ?_
    intro after reach clock carries kept here'' logged
    refine absent after here'' carries kept ?_
    rw [reach, same]
    exact seen ▸ missing
  · rw [now] at granted linked ⊢
    refine ⟨_, writes_write granted, ?_⟩
    intro after reach clock carries kept here'' logged
    have store : after.db.store = before.db.store := by
      rw [reach]
      exact (writes_write granted).store
    refine found after row here'' carries kept ?_ ?_ ?_
    · rw [reach]
      exact RowLock.write_lock granted
    · rw [store]
      exact seen ▸ present
    · rw [store]
      exact linked_targets seen linked

theorem body_insertOrSkip {post : α → World → Prop} {table : TableName} {row : Time → Row table}
    {rest : Option (Nat × Row table) → Program α} (here : Here thread first world began acts)
    (skipped : ∀ after, Here thread first after began acts → Carries thread world after →
      Held config after → Body config thread first post (rest none) after)
    (found : ∀ after id, Here thread first after began (acts ++ [create table id (row began)]) →
      Carries thread world after → Held config after →
      RowLock.Holds after.db thread table id none →
      (∀ target ∈ references table (row began),
        (replay acts after.db.store target.1 target.2).isSome) →
        Body config thread first post (rest (some (id, row began))) after) (skip : Bool) :
    Body config thread first post ((perform (.insert table row skip)).bind rest) world := by
  refine body_step trivial here ?_
  intro before reached value choice here' come held ran
  have seen := here_view here' held
  have now := here_now here' choice.elapsed choice.order
  obtain ⟨rfl, same⟩ | ⟨rfl, linked, granted, _⟩ := insert_ok ran
  · refine step_silent (same ▸ writes_nothing _) ?_
    intro after reach clock carries kept here'' logged
    exact skipped after here'' carries kept
  · rw [now] at granted linked ⊢
    refine ⟨_, writes_insert granted, ?_⟩
    intro after reach clock carries kept here'' logged
    have store : after.db.store = before.db.store := by
      rw [reach]
      exact (writes_insert granted).store
    refine found after (before.db.next table) here'' carries kept ⟨?_, ?_⟩ ?_
    · rw [reach]
      exact RowLock.write_lock granted
    · rw [store]
      exact (held.ready.sound.unused table _ (Nat.le_refl _)).1
    · rw [store]
      exact linked_targets seen linked

theorem body_insert {post : α → World → Prop} {table : TableName} {row : Time → Row table}
    {rest : Nat × Row table → Program α} (here : Here thread first world began acts)
    (found : ∀ after id, Here thread first after began (acts ++ [create table id (row began)]) →
      Carries thread world after → Held config after →
      RowLock.Holds after.db thread table id none →
      (∀ target ∈ references table (row began),
        (replay acts after.db.store target.1 target.2).isSome) →
        Body config thread first post (rest (id, row began)) after) :
    Body config thread first post ((insertRow table row).bind rest) world := by
  simp only [insertRow, Prog.bind_eq, Prog.bind_assoc]
  refine body_insertOrSkip here ?_ ?_ false
  · intro after here' carries kept
    exact here'.since
  · intro after id here' carries kept holds linked
    exact found after id here' carries kept holds linked

theorem body_delete {post : α → World → Prop} {id : Nat} {rest : Unit → Program α}
    (here : Here thread first world began acts)
    (absent : ∀ after, Here thread first after began acts → Carries thread world after →
      Held config after → Body config thread first post (rest ()) after)
    (found : ∀ after, Here thread first after began (acts ++ [remove .plans id]) →
      Carries thread world after → Held config after →
        Body config thread first post (rest ()) after) :
    Body config thread first post ((perform (.deletePlan id)).bind rest) world := by
  refine body_step trivial here ?_
  intro before reached value choice here' come held ran
  obtain same | ⟨granted, _, _⟩ := delete_ok ran
  · refine step_silent (same ▸ writes_nothing _) ?_
    intro after reach clock carries kept here'' logged
    exact absent after here'' carries kept
  · refine ⟨_, writes_write granted, ?_⟩
    intro after reach clock carries kept here'' logged
    exact found after here'' carries kept

theorem body_each {loop : List β → World → Prop} {post : Unit → World → Prop}
    {act : β → Program Unit} {items : List β} (entry : loop items world)
    (round : ∀ item rest state, loop (item :: rest) state →
      Body config thread first (fun _ after => loop rest after) (act item) state)
    (exit : ∀ state, loop [] state → post () state) :
    Body config thread first post (Prog.each items act) world := by
  refine safe_each loop act ?_ exit items world entry
  intro item rest state reached
  refine safe_mono ?_ _ _ (round item rest state reached)
  intro outcome after finished
  cases outcome with
  | ok value => exact finished
  | error error => exact finished

theorem body_collect {γ : Type} {loop : List β → List γ → World → Prop}
    {post : List γ → World → Prop} {act : β → Program (Option γ)} {items : List β}
    {kept : List γ} (entry : loop items kept world)
    (round : ∀ item rest kept state, loop (item :: rest) kept state →
      Body config thread first (fun found after => loop rest (kept ++ found.toList) after)
        (act item) state)
    (exit : ∀ found state, loop [] (kept ++ found) state → post found state) :
    Body config thread first post (Prog.collect items act) world := by
  induction items generalizing kept world post with
  | nil => exact exit [] world (by simpa using entry)
  | cons item rest ih =>
      apply body_bind
      refine safe_mono ?_ _ _ (round item rest kept world entry)
      intro outcome after finished
      cases outcome with
      | error error => exact finished
      | ok found =>
          apply body_bind
          refine ih finished ?_
          intro others state complete
          refine exit (found.toList ++ others) state ?_
          rwa [← List.append_assoc]

end Inside

/-! Rules outside a transaction, and the transaction as a whole. -/
section Outside
variable {config : Config} {thread : Nat} {world : World} {blocks : List (List Entry)}
  {α β : Type} {post : Except Failure β → World → Prop}

/-- Commands that leave the database alone, whatever they answer. -/
def Cmd.Apart : Cmd → Prop
  | .query _ => True
  | .dateNow => True
  | .randomBytes _ => True
  | .ndsctl (.auth ..) => False
  | .ndsctl _ => True
  | .audit .. => True
  | _ => False

theorem apart_plain {cmd : Cmd} (apart : cmd.Apart) : cmd.Plain := by
  cases cmd with
  | ndsctl command => cases command <;> trivial
  | commit => cases apart
  | rollback => cases apart
  | _ => trivial

theorem apart_db {after : World} {choice : Choice} {cmd : Cmd}
    {answer : Except Failure (Res cmd)} (apart : cmd.Apart)
    (executed : world.exec thread cmd choice = some (answer, after)) : after.db = world.db := by
  cases answer with
  | error error => exact error_db (apart_plain apart) executed
  | ok value =>
      obtain ⟨reached, ran, same, _⟩ := exec_ok executed
      rw [same]
      cases cmd with
      | ndsctl command =>
          simp only [World.succeeded, Option.some.injEq, Prod.mk.injEq] at ran
          obtain ⟨_, rfl⟩ := ran
          rfl
      | query query =>
          cases ran
          rfl
      | dateNow =>
          cases ran
          rfl
      | randomBytes count =>
          cases ran
          rfl
      | audit actor action =>
          cases succeeded_effect ran with
          | audited => rfl
      | _ => cases apart

theorem free_exec {cmd : Cmd} {next : Except Failure (Res cmd) → Program β} (apart : cmd.Apart)
    (free : Free thread world blocks)
    (goes : ∀ after answer time view, Free thread after blocks → Later world after →
      Held config after →
      Logged world after ⟨thread, cmd, answer, time, after.db.log.length, [], view⟩ →
        Secure config thread post (next answer) after) :
    Secure config thread post (.exec cmd next) world := by
  intro before relied held choice answer after executed
  have free' := free.rely relied
  have same := apart_db apart executed
  have carries := own_carries executed (same ▸ RowLock.keeps_refl _ _) (by rw [same])
  have kept := own_step held free'.known executed (by rw [same]) (plain_quiet (apart_plain apart))
  refine ⟨kept, goes after answer (before.clock + choice.elapsed)
    ((before.advance choice.elapsed).view thread choice.order) ?_ ?_ kept ?_⟩
  · exact ⟨same ▸ free'.outside, Nat.lt_of_lt_of_le free'.known carries.arrivals.length_le,
      by rw [← free'.own, World.own, World.own, same]⟩
  · exact later_trans relied.carries.later carries.later
  · refine ⟨before.hist, relied.hist, ?_⟩
    rw [(exec_cases executed).2.2.1, World.eventOf, free_pending free', same]
    rfl

theorem free_perform {cmd : Cmd} {rest : Res cmd → Program β} (apart : cmd.Apart)
    (free : Free thread world blocks)
    (failed : ∀ after error, Free thread after blocks → Later world after → Held config after →
      post (.error error) after)
    (found : ∀ after value time view, Free thread after blocks → Later world after →
      Held config after →
      Logged world after ⟨thread, cmd, .ok value, time, after.db.log.length, [], view⟩ →
        Secure config thread post (rest value) after) :
    Secure config thread post ((perform cmd).bind rest) world := by
  refine free_exec apart free ?_
  intro after answer time view free' later held logged
  cases answer with
  | ok value => exact found after value time view free' later held logged
  | error error => exact failed after error free' later held

theorem free_audit {actor : Option Nat} {action : String} {rest : Unit → Program β}
    (free : Free thread world blocks)
    (goes : ∀ after answer time view, Free thread after blocks → Later world after →
      Held config after → Logged world after ⟨thread, .audit actor action, answer, time,
        after.db.log.length, [], view⟩ → Secure config thread post (rest ()) after) :
    Secure config thread post ((AuditService.log actor action).bind rest) world := by
  have apart : (Cmd.audit actor action).Apart := trivial
  refine free_exec apart free ?_
  intro after answer time view free' later held logged
  cases answer with
  | ok value => exact goes after _ time view free' later held logged
  | error error => exact goes after _ time view free' later held logged

theorem free_begin {rest : Unit → Program β} (free : Free thread world blocks)
    (failed : ∀ after error, Free thread after blocks → Later world after → Held config after →
      post (.error error) after)
    (opened : ∀ first began, Here thread first first began [] → first.own thread = blocks →
      Later world first → Held config first → Secure config thread post (rest ()) first) :
    Secure config thread post ((perform .begin).bind rest) world := by
  apply safe_perform
  intro before relied held choice answer after executed
  have free' := free.rely relied
  cases answer with
  | error error =>
      have plain : Cmd.begin.Plain := trivial
      have same := error_db plain executed
      have carries := own_carries executed (same ▸ RowLock.keeps_refl _ _) (by rw [same])
      have kept := own_step held free'.known executed (by rw [same]) (plain_quiet plain)
      refine ⟨kept, failed after error ?_ (later_trans relied.carries.later carries.later) kept⟩
      exact ⟨same ▸ free'.outside, Nat.lt_of_lt_of_le free'.known carries.arrivals.length_le,
        by rw [← free'.own, World.own, World.own, same]⟩
  | ok value =>
      obtain ⟨reached, ran, same, _⟩ := exec_ok executed
      cases ran
      have same' : after.db = before.db.begin thread (before.clock + choice.elapsed) := same
      have store : after.db.store = before.db.store := by
        rw [same', RowLock.begin_fresh free'.outside]
      have log : after.db.log = before.db.log := by
        rw [same', RowLock.begin_fresh free'.outside]
      have carries := own_carries executed (same' ▸ RowLock.begin_keeps _) store
      have kept := own_step held free'.known executed log (by simp)
      refine ⟨kept, opened after (before.clock + choice.elapsed) ?_ ?_
        (later_trans relied.carries.later carries.later) kept⟩
      · refine ⟨carries_refl _ _, ?_, ?_, ?_⟩
        · rw [same']
          exact RowLock.begin_inTxn free'.outside _
        · exact Nat.lt_of_lt_of_le free'.known carries.arrivals.length_le
        · rw [(exec_cases executed).1]
      · rw [← free'.own, World.own, World.own, log]

theorem free_rollback {next : Except Failure Unit → Program β}
    (known : thread < world.arrivals.length) (own : world.own thread = blocks)
    (goes : ∀ after answer, Free thread after blocks → Later world after → Held config after →
      Secure config thread post (next answer) after) :
    Secure config thread post (.exec .rollback next) world := by
  intro before relied held choice answer after executed
  have same := rollback_db executed
  have known' := Nat.lt_of_lt_of_le known relied.arrivals.length_le
  obtain ⟨clock, arrivals, hist, _⟩ := exec_cases executed
  have kept := own_step held known' executed (by rw [same]; rfl) (by simp)
  refine ⟨kept, goes after answer ⟨?_, arrivals ▸ known', ?_⟩ ?_ kept⟩
  · rw [same]
    exact RowLock.rollback_outside
  · rw [← own, ← own_eq relied.db.own, World.own, World.own, same]
    rfl
  · refine later_trans relied.carries.later ⟨?_, ?_, ?_, arrivals ▸ List.prefix_refl _⟩
    · exact same ▸ List.prefix_refl _
    · rw [clock]
      exact Int.le_add_of_nonneg_right (Int.natCast_nonneg _)
    · exact hist ▸ List.prefix_append _ _

variable {first : World} {began : Time} {acts : List Entry} {call : Call}

theorem basis_committed {before : World} (held : Held config before) {hist : List Event}
    (grows : before.hist <+: hist) :
    (committedBasis before.db.log hist).Extends (before.basis thread) := by
  refine ⟨?_, List.prefix_refl _, grows⟩
  intro table id row holds
  have same : before.db.store table id = row := holds.row
  rw [← same]
  exact (congrFun (congrFun held.ready.recorded table) id).symm

theorem legit_commit {before after : World} {choice : Choice} {answer : Except Failure Unit}
    (held : Held config before) (called : before.arrivals[thread]? = some call)
    (inside : RowLock.InTxn before.db thread began acts)
    (lawful : Lawful config (before.basis thread) thread call acts)
    (executed : before.exec thread .commit choice = some (answer, after))
    (committed : after.db = before.db.commit thread) : Legit config after := by
  obtain ⟨_, arrivals, hist, _⟩ := exec_cases executed
  have log := (RowLock.commit_replays held.ready.sound inside).2
  rw [← committed] at log
  have grows : before.hist <+: after.hist := hist ▸ List.prefix_append _ _
  refine ⟨?_, ?_⟩
  · intro index holder block found
    rw [arrivals]
    by_cases old : index < before.db.log.length
    · rw [log, List.getElem?_append_left old] at found
      obtain ⟨known, called', lawful'⟩ := held.legit.blocks index holder block found
      refine ⟨known, called', ?_⟩
      rw [log, List.take_append_of_le_length (Nat.le_of_lt old)]
      exact lawful_mono (committed_extends _ grows) lawful'
    · rw [log, List.getElem?_append_right (Nat.le_of_not_lt old)] at found
      have last := List.mem_of_getElem? found
      rw [List.mem_singleton, Prod.mk.injEq] at last
      obtain ⟨rfl, rfl⟩ := last
      have here : index = before.db.log.length := by
        have bound := (List.getElem?_eq_some_iff.mp found).1
        simp only [List.length_singleton] at bound
        omega
      refine ⟨call, called, ?_⟩
      rw [log, here, List.take_left]
      exact lawful_mono (basis_committed held grows) lawful
  · intro index event found mac minutes authorises
    by_cases old : index < before.hist.length
    · rw [hist, List.getElem?_append_left old] at found
      obtain ⟨user, dto, called', lower, check, member, rest⟩ :=
        held.legit.auths index event found mac minutes authorises
      refine ⟨user, dto, arrivals ▸ called', lower, check, ?_, rest⟩
      rwa [hist, List.take_append_of_le_length (Nat.le_of_lt old)]
    · rw [hist, List.getElem?_append_right (Nat.le_of_not_lt old)] at found
      have last := List.mem_of_getElem? found
      rw [List.mem_singleton] at last
      subst last
      cases authorises

/-- COMMIT of lawful acts. `before` is the state in which it ran; `lost` says what follows
when only its answer was lost. -/
theorem here_commit {rest : Unit → Program β} (here : Here thread first world began acts)
    (own : first.own thread = blocks) (called : world.arrivals[thread]? = some call)
    (lawful : Lawful config (world.basis thread) thread call acts)
    (failed : ∀ after error, Free thread after blocks → Later world after → Held config after →
      post (.error error) after)
    (committed : ∀ before after, Carries thread world before → Held config before →
      after.db.log = before.db.log ++ [(thread, acts)] → Free thread after (blocks ++ [acts]) →
      Later world after → before.hist <+: after.hist → Held config after →
      (∃ time view, Logged world after
        ⟨thread, .commit, .ok (), time, before.db.log.length, acts, view⟩) →
        Secure config thread post (rest ()) after)
    (lost : ∀ before after, Carries thread world before → Held config before →
      after.db.log = before.db.log ++ [(thread, acts)] → Free thread after (blocks ++ [acts]) →
      Later world after → before.hist <+: after.hist → Held config after →
      (∃ time view, Logged world after
        ⟨thread, .commit, .error .lost, time, before.db.log.length, acts, view⟩) →
        post (.error .lost) after) :
    Secure config thread post ((perform .commit).bind rest) world := by
  apply safe_perform
  intro before relied held choice answer after executed
  have here' := here.rely relied
  obtain ⟨clock, arrivals, hist, _⟩ := exec_cases executed
  have known : thread < after.arrivals.length := arrivals ▸ here'.known
  have own' : before.own thread = blocks := (own_eq here'.since.db.own).trans own
  have onward : before.clock ≤ after.clock := by
    rw [clock]
    exact Int.le_add_of_nonneg_right (Int.natCast_nonneg _)
  have grows : before.hist <+: after.hist := hist ▸ List.prefix_append _ _
  rcases commit_db executed with ⟨landed, reached⟩ | ⟨rfl, reached⟩
  · have lawful' := lawful_mono (Basis.carries relied.carries) lawful
    have called' := prefix_getElem? relied.arrivals called
    have legit := legit_commit held called' here'.inside lawful' executed reached
    have kept : Held config after := ⟨exec_ready held.ready here'.known executed, legit⟩
    have log := (RowLock.commit_replays held.ready.sound here'.inside).2
    rw [← reached] at log
    have free : Free thread after (blocks ++ [acts]) := by
      refine ⟨?_, known, ?_⟩
      · rw [reached]
        exact RowLock.commit_outside
      · rw [← own', World.own, World.own, log]
        simp
    have later : Later world after := later_trans relied.carries.later
      ⟨log ▸ List.prefix_append _ _, onward, grows, arrivals ▸ List.prefix_refl _⟩
    have logged : ∃ time view, Logged world after
        ⟨thread, .commit, answer, time, before.db.log.length, acts, view⟩ := by
      refine ⟨before.clock + choice.elapsed,
        (before.advance choice.elapsed).view thread choice.order, before.hist, relied.hist, ?_⟩
      rw [hist, World.eventOf, here_pending here']
      rfl
    cases landed with
    | answered =>
        exact ⟨kept, committed before after relied.carries held log free later grows kept logged⟩
    | lost => exact ⟨kept, lost before after relied.carries held log free later grows kept logged⟩
  · have kept := own_step held here'.known executed (by rw [reached]; rfl) (by simp)
    refine ⟨kept, failed after .query ⟨?_, known, ?_⟩ ?_ kept⟩
    · rw [reached]
      exact RowLock.rollback_outside
    · rw [← own', World.own, World.own, reached]
      rfl
    · exact later_trans relied.carries.later
        ⟨reached ▸ List.prefix_refl _, onward, grows, arrivals ▸ List.prefix_refl _⟩

/-- A body that ended ready to commit lawful acts; `note` is what it knows about
its result and them. -/
def Seals (config : Config) (thread : Nat) (first : World) (began : Time) (call : Call)
    (note : α → List Entry → Basis → Prop) (value : α) (world : World) : Prop :=
  ∃ acts, Here thread first world began acts ∧
    Lawful config (world.basis thread) thread call acts ∧ note value acts (world.basis thread)

def Monotone (note : α → List Entry → Basis → Prop) : Prop :=
  ∀ value acts less more, more.Extends less → note value acts less → note value acts more

/-- DbService.tx: it commits what the body sealed, or leaves no trace, or commits it and
throws because the answer was lost. -/
theorem free_tx {body : Program α} {rest : α → Program β}
    {note : α → List Entry → Basis → Prop} (mono : Monotone note)
    (free : Free thread world blocks) (called : world.arrivals[thread]? = some call)
    (runs : ∀ first began, Here thread first first began [] → Later world first →
      Held config first → Body config thread first (Seals config thread first began call note)
        body first)
    (failed : ∀ after error, Free thread after blocks → Later world after → Held config after →
      post (.error error) after)
    (committed : ∀ after value acts, Free thread after (blocks ++ [acts]) → Later world after →
      Held config after →
      (∃ index, (∃ time view, Logged world after
          ⟨thread, .commit, .ok (), time, index, acts, view⟩) ∧
        after.db.log[index]? = some (thread, acts) ∧
        note value acts (committedBasis (after.db.log.take index) after.hist)) →
        Secure config thread post (rest value) after)
    (lost : ∀ after error value acts, Free thread after (blocks ++ [acts]) → Later world after →
      Held config after →
      (∃ index, (∃ time view,
          ⟨thread, .commit, .error .lost, time, index, acts, view⟩ ∈ after.hist) ∧
        after.db.log[index]? = some (thread, acts) ∧
        note value acts (committedBasis (after.db.log.take index) after.hist)) →
        post (.error error) after) :
    Secure config thread post ((DbService.tx body).bind rest) world := by
  have undo : ∀ (error : Failure) (state : World) (own : List (List Entry)),
      thread < state.arrivals.length → state.own thread = own →
      (∀ after failure, Free thread after own → Later state after → Held config after →
        post (.error failure) after) →
      Secure config thread
        (Branch (fun value => Secure config thread post (rest value)) fun error =>
          post (.error error))
        ((perform .rollback).bind fun _ => .raise error) state := by
    intro error state own known same ends
    refine free_rollback known same ?_
    intro after answer free' later' held
    cases answer with
    | ok value => exact ends after error free' later' held
    | error failure => exact ends after failure free' later' held
  apply safe_bind
  apply safe_rescue
  refine free_begin free ?_ ?_
  · intro after error free' later held
    exact undo error after _ free'.known free'.own fun final failure free'' later' =>
      failed final failure free'' (later_trans later later')
  intro first began here own later held
  apply safe_bind
  refine safe_mono ?_ _ _ (runs first began here later held)
  intro outcome state ended
  cases outcome with
  | error error =>
      have carries : Carries thread first state := ended
      exact undo error state _ (Nat.lt_of_lt_of_le here.known carries.arrivals.length_le)
        ((own_eq carries.db.own).trans own) fun final failure free' later' =>
          failed final failure free' (later_trans (later_trans later carries.later) later')
  | ok value =>
      obtain ⟨acts, here', lawful, noted⟩ := ended
      have later' := later_trans later here'.since.later
      refine here_commit here' own (prefix_getElem? later'.arrivals called) lawful ?_ ?_ ?_
      · intro after error free' onward held'
        exact undo error after _ free'.known free'.own fun final failure free'' later'' =>
          failed final failure free'' (later_trans (later_trans later' onward) later'')
      · rintro before after carries held' log free' onward grows kept
          ⟨time, view, earlier, past, hist⟩
        refine committed after value acts free' (later_trans later' onward) kept
          ⟨before.db.log.length, ⟨time, view, earlier, later'.hist.trans past, hist⟩,
            by simp [log], ?_⟩
        rw [log, List.take_left]
        exact mono _ _ _ _ (basis_committed held' grows)
          (mono _ _ _ _ (Basis.carries carries) noted)
      · rintro before after carries held' log free' onward grows kept ⟨time, view, logged⟩
        refine undo .lost after _ free'.known free'.own fun final failure free'' later'' held'' =>
          ?_
        have found : after.db.log[before.db.log.length]? = some (thread, acts) := by simp [log]
        refine lost final failure value acts free''
          (later_trans (later_trans later' onward) later'')
          held'' ⟨before.db.log.length, ⟨time, view, later''.hist.subset logged.mem⟩,
            prefix_getElem? later''.log found, ?_⟩
        have before' : final.db.log.take before.db.log.length = before.db.log := by
          obtain ⟨more, grown⟩ := later''.log
          rw [← grown, log, List.append_assoc, List.take_left]
        rw [before']
        exact mono _ _ _ _ (basis_committed held' (grows.trans later''.hist))
          (mono _ _ _ _ (Basis.carries carries) noted)

end Outside
end Cybera
