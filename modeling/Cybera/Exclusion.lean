import Cybera.Chronicle

/-!
Row locks over the history: between the step that takes a row and the end of
its transaction, no other thread takes the row.
-/

namespace Cybera

open Interleaving

/-- The step leaves the row locked by its thread. -/
inductive Event.Takes (table : TableName) (id : Nat) : Event → Prop where
  | locked {thread commits : Nat} {row : Row table} {time : Time} {pending : List Entry}
      {view : View} :
      Event.Takes table id ⟨thread, .lock table id, .ok (some row), time, commits, pending, view⟩
  | updated {thread commits : Nat} {op : Op table} {row : Row table} {time : Time}
      {pending : List Entry} {view : View} :
      Event.Takes table id
        ⟨thread, .update table id op, .ok (some row), time, commits, pending, view⟩
  | inserted {thread commits : Nat} {made : Time → Row table} {skip : Bool} {row : Row table}
      {time : Time} {pending : List Entry} {view : View} :
      Event.Takes table id
        ⟨thread, .insert table made skip, .ok (some (id, row)), time, commits, pending, view⟩

section Steps
variable {thread : Nat} {world after : World} {choice : Choice}

theorem exec_takes {cmd : Cmd} {answer : Except Failure (Res cmd)} {table : TableName} {id : Nat}
    (executed : world.exec thread cmd choice = some (answer, after))
    (takes : (world.eventOf thread cmd choice answer).Takes table id) :
    (world.db.locks table id = none ∨ world.db.locks table id = some thread) ∧
      after.db.locks table id = some thread := by
  have deed := exec_deed executed
  generalize reached : after.db = db at deed
  generalize recorded : world.eventOf thread cmd choice answer = event at takes
  cases takes with
  | locked =>
      simp only [World.eventOf, Event.mk.injEq] at recorded
      obtain ⟨-, rfl, answered, -⟩ := recorded
      cases eq_of_heq answered
      cases deed with
      | read reads => exact reads.elim
      | locked present granted =>
          refine ⟨?_, RowLock.acquire_lock granted⟩
          rcases (RowLock.acquire_cases granted).2.2 with ⟨mine, _⟩ | ⟨free, _⟩
          · exact Or.inr mine
          · exact Or.inl free
  | updated =>
      simp only [World.eventOf, Event.mk.injEq] at recorded
      obtain ⟨-, rfl, answered, -⟩ := recorded
      cases eq_of_heq answered
      cases deed with
      | read reads => exact reads.elim
      | updated present written =>
          exact ⟨(RowLock.write_open written).2, RowLock.write_lock written⟩
  | inserted =>
      simp only [World.eventOf, Event.mk.injEq] at recorded
      obtain ⟨-, rfl, answered, -⟩ := recorded
      cases eq_of_heq answered
      cases deed with
      | read reads => exact reads.elim
      | inserted free single written =>
          exact ⟨(RowLock.write_open written).2, RowLock.write_lock written⟩

theorem exec_locks {cmd : Cmd} {answer : Except Failure (Res cmd)} (open' : ¬ cmd.Closes)
    (executed : world.exec thread cmd choice = some (answer, after)) {table : TableName} {id : Nat}
    (held : world.db.locks table id = some thread) : after.db.locks table id = some thread := by
  have deed := exec_deed executed
  generalize reached : after.db = db at deed
  cases deed with
  | read | failed | unlocked | missed | skipped | gone => exact held
  | began => exact (RowLock.begin_keeps _).locks _ _ held
  | committed | refused | undone => exact absurd trivial open'
  | locked present granted => exact RowLock.acquire_locks granted _ _ _ held
  | updated present written => exact (RowLock.write_keeps written).locks _ _ held
  | inserted free single written => exact (RowLock.write_keeps written).locks _ _ held
  | deleted written => exact (RowLock.write_keeps written).locks _ _ held

end Steps

theorem unclosed_grown {hist more : List Event} {thread first last : Nat}
    (bound : last ≤ hist.length) :
    Unclosed (hist ++ more) thread first last ↔ Unclosed hist thread first last := by
  constructor
  · intro unclosed between event low high found
    refine unclosed between event low high ?_
    rw [List.getElem?_append_left (Nat.lt_of_lt_of_le high bound)]
    exact found
  · intro unclosed between event low high found
    rw [List.getElem?_append_left (Nat.lt_of_lt_of_le high bound)] at found
    exact unclosed between event low high found

theorem Unclosed.shorter {hist : List Event} {thread first last sooner : Nat}
    (unclosed : Unclosed hist thread first last) (before : sooner ≤ last) :
    Unclosed hist thread first sooner :=
  fun between event low high => unclosed between event low (Nat.lt_of_lt_of_le high before)

theorem Unclosed.later {hist : List Event} {thread first last start : Nat}
    (unclosed : Unclosed hist thread first last) (after : first ≤ start) :
    Unclosed hist thread start last :=
  fun between event low high => unclosed between event (Nat.lt_of_le_of_lt after low) high

/-- The rows that a running thread has taken in its open transaction are locked
by it, and nobody has taken them since. -/
structure Keeping (thread : Nat) (world : World) : Prop where
  held : ∀ (pos : Nat) (event : Event) table id, world.hist[pos]? = some event →
    event.thread = thread → event.Takes table id →
      Unclosed world.hist thread pos world.hist.length → world.db.locks table id = some thread
  alone : ∀ (first later : Nat) (taken other : Event) table id, first < later →
    world.hist[first]? = some taken → taken.thread = thread → taken.Takes table id →
      world.hist[later]? = some other → other.thread ≠ thread → other.Takes table id →
        ¬ Unclosed world.hist thread first later

/-- While a thread that goes on has a row, nobody else takes it. -/
def Exclusive (hist : List Event) : Prop :=
  ∀ (first middle last : Nat) (taken other next : Event) table id, first < middle → middle < last →
    hist[first]? = some taken → taken.Takes table id → hist[middle]? = some other →
      other.thread ≠ taken.thread → other.Takes table id → hist[last]? = some next →
        next.thread = taken.thread → ¬ Unclosed hist taken.thread first middle

section Pools
variable {thread : Nat} {world after : World} {choice : Choice}

theorem old_event {hist : List Event} {event latest : Event} {pos : Nat}
    (found : (hist ++ [latest])[pos]? = some event) :
    hist[pos]? = some event ∨ pos = hist.length ∧ latest = event := by
  by_cases old : pos < hist.length
  · rw [List.getElem?_append_left old] at found
    exact Or.inl found
  · have bound := (List.getElem?_eq_some_iff.mp found).1
    rw [List.length_append, List.length_singleton] at bound
    have here : pos = hist.length := by omega
    subst here
    rw [List.getElem?_concat_length, Option.some.injEq] at found
    exact Or.inr ⟨rfl, found⟩

theorem event_bound {α : Type} {hist : List α} {event : α} {pos : Nat}
    (found : hist[pos]? = some event) : pos < hist.length :=
  (List.getElem?_eq_some_iff.mp found).1

theorem own_keeping (keeping : Keeping thread world) {cmd : Cmd}
    {answer : Except Failure (Res cmd)}
    (executed : world.exec thread cmd choice = some (answer, after)) : Keeping thread after := by
  have hist := (exec_cases executed).2.2.1
  constructor
  · intro pos event table id found mine takes unclosed
    rw [hist] at found unclosed
    rcases old_event found with earlier | ⟨_, rfl⟩
    · have bound := event_bound earlier
      have going : ¬ cmd.Closes := by
        refine unclosed world.hist.length (world.eventOf thread cmd choice answer) bound ?_ ?_ rfl
        · simp
        · exact List.getElem?_concat_length
      refine exec_locks going executed (keeping.held pos event table id earlier mine takes ?_)
      exact (unclosed_grown (Nat.le_refl _)).mp (unclosed.shorter (by simp))
    · exact (exec_takes executed takes).2
  · intro first later taken other table id before found mine takes found' another takes'
    rw [hist] at found found' ⊢
    rcases old_event found' with earlier | ⟨_, rfl⟩
    · have bound := event_bound earlier
      rw [List.getElem?_append_left (Nat.lt_trans before bound)] at found
      rw [unclosed_grown (Nat.le_of_lt bound)]
      exact keeping.alone first later taken other table id before found mine takes earlier another
        takes'
    · exact absurd rfl another

theorem other_keeping {mover : Nat} (ready : Ready world) (different : thread ≠ mover)
    (keeping : Keeping thread world) {cmd : Cmd} {answer : Except Failure (Res cmd)}
    (executed : world.exec mover cmd choice = some (answer, after)) : Keeping thread after := by
  obtain ⟨_, _, hist, step⟩ := exec_cases executed
  constructor
  · intro pos event table id found mine takes unclosed
    rw [hist] at found unclosed
    rcases old_event found with earlier | ⟨_, rfl⟩
    · refine (dbStep_undisturbed ready.sound different step).locks _ _
        (keeping.held pos event table id earlier mine takes ?_)
      exact (unclosed_grown (Nat.le_refl _)).mp (unclosed.shorter (by simp))
    · exact absurd mine.symm different
  · intro first later taken other table id before found mine takes found' another takes'
    rw [hist] at found found' ⊢
    rcases old_event found' with earlier | ⟨here, rfl⟩
    · have bound := event_bound earlier
      rw [List.getElem?_append_left (Nat.lt_trans before bound)] at found
      rw [unclosed_grown (Nat.le_of_lt bound)]
      exact keeping.alone first later taken other table id before found mine takes earlier another
        takes'
    · subst here
      rw [List.getElem?_append_left before] at found
      rw [unclosed_grown (Nat.le_refl _)]
      intro unclosed
      have held := keeping.held first taken table id found mine takes unclosed
      rcases (exec_takes executed takes').1 with free | own
      · cases held.symm.trans free
      · exact different (Option.some.inj (held.symm.trans own))

theorem exec_exclusive (exclusive : Exclusive world.hist) (keeping : Keeping thread world)
    {cmd : Cmd} {answer : Except Failure (Res cmd)}
    (executed : world.exec thread cmd choice = some (answer, after)) : Exclusive after.hist := by
  have hist := (exec_cases executed).2.2.1
  rw [hist]
  intro first middle last taken other next table id low high found takes found' another
    takes' found'' same
  rcases old_event found'' with earlier | ⟨here, rfl⟩
  · have bound := event_bound earlier
    rw [List.getElem?_append_left (Nat.lt_trans high bound)] at found'
    rw [List.getElem?_append_left (Nat.lt_trans low (Nat.lt_trans high bound))] at found
    rw [unclosed_grown (Nat.le_of_lt (Nat.lt_trans high bound))]
    exact exclusive first middle last taken other next table id low high found takes found' another
      takes' earlier same
  · subst here
    rw [List.getElem?_append_left high] at found'
    rw [List.getElem?_append_left (Nat.lt_trans low high)] at found
    rw [unclosed_grown (Nat.le_of_lt high)]
    have mine : taken.thread = thread := same.symm
    rw [mine] at another ⊢
    exact keeping.alone first middle taken other table id low found mine takes found' another takes'

theorem reached_exclusive {config : Config} {pool : ServerPool} (reached : Reached config pool) :
    Exclusive pool.state.hist := by
  refine (reached_live along_mayDo (fun world => Exclusive world.hist) Keeping ?_ ?_ ?_ ?_ ?_ ?_ ?_
    reached).1
  · intro first middle last taken other next table id _ _ found
    simp [World.initial] at found
  · intro pool thread _ nothing _
    have none' : ∀ (pos : Nat) (event : Event), pool.state.hist[pos]? = some event →
        event.thread ≠ thread := by
      intro pos event found mine
      have member : event.done ∈ pastOf pool.state.hist thread :=
        mem_pastOf.mpr ⟨event, List.mem_of_getElem? found, mine, rfl⟩
      rw [nothing] at member
      cases member
    constructor
    · exact fun pos event table id found mine => absurd mine (none' pos event found)
    · exact fun first later taken other table id _ found mine => absurd mine
        (none' first taken found)
  · exact fun call world exclusive => ⟨exclusive, fun thread keeping => ⟨keeping.held,
      keeping.alone⟩⟩
  · intro pool thread call cmd choice answer after before exclusive keeping _ _ executed
    exact ⟨exec_exclusive exclusive keeping executed, own_keeping keeping executed⟩
  · intro pool thread mover cmd choice answer after before _ different keeping executed
    exact other_keeping (reached_ready before) different keeping executed
  · intro mover world exclusive
    refine ⟨exclusive, fun thread different keeping => ⟨?_, keeping.alone⟩⟩
    intro pos event table id found mine takes unclosed
    exact (RowLock.rollback_undisturbed different).locks _ _
      (keeping.held pos event table id found mine takes unclosed)
  · intro event before after exclusive happened
    obtain ⟨db, _, _, hist⟩ := ambient_cases happened
    rw [hist]
    refine ⟨exclusive, fun thread keeping => ?_⟩
    constructor
    · rw [db, hist]
      exact keeping.held
    · rw [hist]
      exact keeping.alone

end Pools

/-- Two transactions that take one row: the one that commits first has done so
before the other one takes it. -/
theorem Exclusive.serial {hist : List Event} (exclusive : Exclusive hist)
    {first close middle last : Nat} {taken closing other next : Event} {table : TableName}
    {id : Nat}
    (found : hist[first]? = some taken) (takes : taken.Takes table id) (until' : first < close)
    (found' : hist[close]? = some closing) (same : closing.thread = taken.thread)
    (closes : closing.cmd.Closes) (unclosed : Unclosed hist taken.thread first close)
    (found'' : hist[middle]? = some other) (takes' : other.Takes table id)
    (later : hist[last]? = some next) (same' : next.thread = other.thread) (ordered : close < last)
    (unclosed' : Unclosed hist other.thread middle last) : close < middle := by
  by_contra early
  rcases Nat.lt_or_eq_of_le (Nat.le_of_not_lt early) with before | rfl
  · by_cases mine : other.thread = taken.thread
    · exact unclosed' close closing before ordered found' (same.trans mine.symm) closes
    · rcases Nat.lt_trichotomy first middle with low | rfl | high
      · exact exclusive first middle close taken other closing table id low before
          found takes found'' mine takes' found' same (unclosed.shorter (Nat.le_of_lt before))
      · exact mine (congrArg Event.thread (Option.some.inj (found''.symm.trans found)))
      · have longer := Nat.lt_trans until' ordered
        exact exclusive middle first last other taken next table id high longer found'' takes' found
          (Ne.symm mine) takes later same' (unclosed'.shorter (Nat.le_of_lt longer))
  · rw [found', Option.some.injEq] at found''
    subst found''
    cases takes' <;> exact closes

theorem locked_takes {table : TableName} {id : Nat} {event : Event} {row : Row table}
    (same : event.done = ⟨.lock table id, .ok (some row)⟩) : event.Takes table id := by
  obtain ⟨mover, command, answer, time, commits, pending, view⟩ := event
  cases same
  exact .locked

theorem Event.Wrote.takes {event : Event} {entry : Entry} (wrote : event.Wrote entry)
    (kept : entry.table ≠ .plans) : event.Takes entry.table entry.id := by
  cases wrote with
  | update => exact .updated
  | insert => exact .inserted
  | delete => exact absurd rfl kept

theorem locked_stands {config : Config} {pool : ServerPool} (reached : Reached config pool)
    {first close : Nat} {taken closing : Event} {table : TableName} {id : Nat}
    (kept : table ≠ .plans) (found : pool.state.hist[first]? = some taken)
    (takes : taken.Takes table id) (found' : pool.state.hist[close]? = some closing)
    (own : closing.thread = taken.thread)
    (unclosed : Unclosed pool.state.hist taken.thread first close) {commits : Nat}
    (low : taken.commits ≤ commits) (high : commits ≤ closing.commits) :
    storeAfter pool.state.db.log commits table id =
      storeAfter pool.state.db.log taken.commits table id := by
  have exclusive := reached_exclusive reached
  have timeline := reached_timeline reached
  have bound := ((reached_ready reached).truthful closing (List.mem_of_getElem? found')).bound
  induction commits, low using Nat.le_induction with
  | base => rfl
  | succ index low ih =>
      obtain ⟨⟨thread, acts⟩, block⟩ : ∃ block, pool.state.db.log[index]? = some block :=
        ⟨_, List.getElem?_eq_getElem (Nat.lt_of_lt_of_le high bound)⟩
      rw [storeAfter_succ _ _ _ block, ← ih (Nat.le_of_succ_le high)]
      refine RowLock.replay_untouched Act.run acts _ table id ?_
      rintro entry member ⟨rfl, rfl⟩
      -- the block has taken the row, before the transaction or within it
      obtain ⟨writeAt, commitAt, write, written⟩ :=
        block_written (reached_chronicle reached) block member
      obtain ⟨before, foundWrite, rfl, wrote, going, _, time, view, landed, committed⟩ := written
      have writes := wrote.takes kept
      have within : commitAt < close := commits_order timeline committed found' high
      have after : first < commitAt := by
        rcases Nat.lt_trichotomy first commitAt with less | rfl | more
        · exact less
        · rw [committed, Option.some.injEq] at found
          subst found
          cases takes
        · have grown := (history_order timeline more committed found).closed
            ⟨_, _, _, _, _, _, landed, rfl, List.ne_nil_of_mem member⟩
          exact absurd (Nat.lt_of_lt_of_le grown low) (Nat.lt_irrefl _)
      have other : write.thread ≠ taken.thread := fun same =>
        unclosed commitAt _ after within committed same trivial
      rcases Nat.lt_trichotomy first writeAt with less | rfl | more
      · exact exclusive first writeAt close taken write closing _ _ less
          (Nat.lt_trans before within) found takes foundWrite other writes found' own
          (unclosed.shorter (Nat.le_of_lt (Nat.lt_trans before within)))
      · exact other (congrArg Event.thread (Option.some.inj (foundWrite.symm.trans found)))
      · exact exclusive writeAt first commitAt write taken _ _ _ more after foundWrite writes found
          (Ne.symm other) takes committed rfl (going.shorter (Nat.le_of_lt after))

theorem unended_unclosed {hist : List Event} {thread pos first : Nat}
    (unended : ∀ done ∈ pastOf (hist.take pos) thread, ¬ done.1.Closes) :
    Unclosed hist thread first pos :=
  fun between event _ high found own =>
    unended event.done (mem_pastOf_take.mpr ⟨between, event, high, found, own, rfl⟩)

/-! Steps outside any transaction. -/

def Outside : List (Done Cmd Res Failure) → Prop
  | [] => True
  | ⟨.commit, _⟩ :: _ => True
  | ⟨.rollback, _⟩ :: _ => True
  | ⟨.begin, _⟩ :: _ => False
  | _ :: older => Outside older

theorem outside_plain {cmd : Cmd} {answer : Except Failure (Res cmd)}
    {past : List (Done Cmd Res Failure)} (plain : ¬ cmd.Closes) (begins : cmd ≠ .begin) :
    Outside (⟨cmd, answer⟩ :: past) ↔ Outside past := by
  cases cmd with
  | begin => exact absurd rfl begins
  | commit => exact absurd trivial plain
  | rollback => exact absurd trivial plain
  | _ => rfl

section Outside
variable {thread : Nat} {world after : World} {choice : Choice}

theorem exec_outside {cmd : Cmd} {answer : Except Failure (Res cmd)} (begins : cmd ≠ .begin)
    (executed : world.exec thread cmd choice = some (answer, after))
    (outside : world.db.txns thread = none) : after.db.txns thread = none := by
  have deed := exec_deed executed
  generalize reached : after.db = db at deed
  have shut : ∀ {db : Database} {entry : Entry}, db.txns thread = none →
      ∀ written, db.write Act.run thread entry ≠ some written := by
    intro db entry closed written granted
    have opened := (RowLock.write_open granted).1
    rw [closed] at opened
    cases opened
  cases deed with
  | read | failed | unlocked | missed | skipped | gone => exact outside
  | began => exact absurd rfl begins
  | committed => exact RowLock.commit_outside
  | refused | undone => exact RowLock.rollback_outside
  | locked present granted => rwa [(RowLock.acquire_same granted).1]
  | updated present written => exact absurd written (shut outside _)
  | @inserted table row skip _ free single written =>
      have closed : ((world.advance choice.elapsed).db.reserve table).txns thread = none := outside
      exact absurd written (shut closed _)
  | deleted written => exact absurd written (shut outside _)

theorem outside_pending (outside : world.db.txns thread = none) :
    world.pendingActs thread = [] := by
  simp [World.pendingActs, outside]

theorem reached_shut {config : Config} {pool : ServerPool} (reached : Reached config pool) :
    (∀ (pos : Nat) (event : Event), pool.state.hist[pos]? = some event →
      Outside (pastOf (pool.state.hist.take pos) event.thread) → event.pending = []) ∧
    ∀ (thread : Nat) (program : Program Reply), pool.threads[thread]? = some (some program) →
      Outside (pastOf pool.state.hist thread) → pool.state.db.txns thread = none := by
  refine reached_live along_mayDo (fun world => ∀ (pos : Nat) (event : Event),
      world.hist[pos]? = some event → Outside (pastOf (world.hist.take pos) event.thread) →
        event.pending = [])
    (fun thread world => Outside (pastOf world.hist thread) → world.db.txns thread = none)
    ?_ ?_ ?_ ?_ ?_ ?_ ?_ reached
  · simp [World.initial]
  · exact fun pool thread before _ beyond _ => (reached_ready before).idle thread beyond
  · exact fun call world known => ⟨known, fun thread outside => outside⟩
  · intro pool thread call cmd choice answer after before known outside _ _ executed
    have hist := (exec_cases executed).2.2.1
    constructor
    · intro pos event found shut
      rw [hist] at found shut
      rcases old_event found with earlier | ⟨here, rfl⟩
      · rw [List.take_append_of_le_length (Nat.le_of_lt (event_bound earlier))] at shut
        exact known pos event earlier shut
      · subst here
        rw [List.take_left] at shut
        exact outside_pending (outside shut)
    · intro shut
      rw [exec_past executed] at shut
      by_cases closes : cmd.Closes
      · exact exec_closes executed closes
      by_cases begins : cmd = .begin
      · subst begins
        exact shut.elim
      · exact exec_outside begins executed (outside ((outside_plain closes begins).mp shut))
  · intro pool thread mover cmd choice answer after before _ different outside executed shut
    have step := (exec_cases executed).2.2.2
    rw [exec_past_other different executed] at shut
    rw [(dbStep_undisturbed (reached_ready before).sound different step).txn]
    exact outside shut
  · intro mover world known
    refine ⟨known, fun thread different outside shut => ?_⟩
    exact (RowLock.rollback_undisturbed different).txn.trans (outside shut)
  · intro event before after known happened
    obtain ⟨db, _, _, hist⟩ := ambient_cases happened
    rw [hist, db]
    exact ⟨known, fun thread outside => outside⟩

theorem reached_outside {config : Config} {pool : ServerPool} (reached : Reached config pool) :
    ∀ (pos : Nat) (event : Event), pool.state.hist[pos]? = some event →
      Outside (pastOf (pool.state.hist.take pos) event.thread) → event.pending = [] :=
  (reached_shut reached).1

theorem outside_rows {config : Config} {pool : ServerPool} (reached : Reached config pool)
    {pos : Nat} {event : Event} (found : pool.state.hist[pos]? = some event)
    (outside : Outside (pastOf (pool.state.hist.take pos) event.thread)) :
    event.view.rows = storeAfter pool.state.db.log event.commits := by
  have rows := ((reached_ready reached).truthful event (List.mem_of_getElem? found)).rows
  rw [reached_outside reached pos event found outside] at rows
  exact rows

end Outside

/-! Steps inside a transaction. -/

def Begun : List (Done Cmd Res Failure) → Prop
  | [] => False
  | ⟨.commit, _⟩ :: _ => False
  | ⟨.rollback, _⟩ :: _ => False
  | ⟨.begin, .ok _⟩ :: _ => True
  | _ :: older => Begun older

theorem begun_plain {cmd : Cmd} {answer : Except Failure (Res cmd)}
    {past : List (Done Cmd Res Failure)} (plain : ¬ cmd.Closes) (begins : cmd ≠ .begin) :
    Begun (⟨cmd, answer⟩ :: past) ↔ Begun past := by
  cases cmd with
  | begin => exact absurd rfl begins
  | commit => exact absurd trivial plain
  | rollback => exact absurd trivial plain
  | _ => rfl

theorem begun_unended {past : List (Done Cmd Res Failure)} (begun : ⟨.begin, .ok ()⟩ ∈ past)
    (unended : ∀ done ∈ past, ¬ done.1.Closes) : Begun past := by
  induction past with
  | nil => cases begun
  | cons done older ih =>
      obtain ⟨cmd, answer⟩ := done
      have plain : ¬ cmd.Closes := unended _ List.mem_cons_self
      have unended' := fun done member => unended done (List.mem_cons_of_mem _ member)
      by_cases begins : cmd = .begin
      · subst begins
        cases answer with
        | ok value => trivial
        | error error =>
            rcases List.mem_cons.mp begun with here | earlier
            · cases here
            · exact ih earlier unended'
      · refine (begun_plain plain begins).mpr (ih ?_ unended')
        refine (List.mem_cons.mp begun).resolve_left fun here => ?_
        exact begins (congrArg Sigma.fst here).symm

section Begun
variable {thread : Nat} {world after : World} {choice : Choice}

theorem exec_begun {cmd : Cmd} {answer : Except Failure (Res cmd)} (plain : ¬ cmd.Closes)
    (executed : world.exec thread cmd choice = some (answer, after))
    (inside : (world.db.txns thread).isSome) : (after.db.txns thread).isSome := by
  have deed := exec_deed executed
  generalize reached : after.db = db at deed
  have writes : ∀ {before : Database} {entry : Entry},
      before.write Act.run thread entry = some db → (db.txns thread).isSome := by
    intro before entry written
    obtain ⟨_, txn, _, opened, _⟩ := write_acts written
    simp [opened]
  cases deed with
  | read | failed | unlocked | missed | skipped | gone => exact inside
  | began => exact RowLock.begin_opens _
  | committed | refused | undone => exact absurd trivial plain
  | locked present granted => rwa [(RowLock.acquire_same granted).1]
  | updated present written => exact writes written
  | inserted free single written => exact writes written
  | deleted written => exact writes written

theorem begin_begun {value : Unit}
    (executed : world.exec thread .begin choice = some (.ok value, after)) :
    (after.db.txns thread).isSome := by
  have deed := exec_deed executed
  generalize reached : after.db = db at deed
  cases deed with
  | read reads => exact reads.elim
  | began => exact RowLock.begin_opens _

/-- A running thread inside its transaction has one, and a COMMIT that is carried out adds a
block, be it empty. -/
theorem reached_within {config : Config} {pool : ServerPool} (reached : Reached config pool) :
    (∀ (pos : Nat) (event : Event), pool.state.hist[pos]? = some event →
      Begun (pastOf (pool.state.hist.take pos) event.thread) →
        Lands event.done →
          pool.state.db.log[event.commits]? = some (event.thread, event.pending)) ∧
    ∀ (thread : Nat) (program : Program Reply), pool.threads[thread]? = some (some program) →
      Begun (pastOf pool.state.hist thread) → (pool.state.db.txns thread).isSome := by
  refine reached_live along_mayDo (fun world => ∀ (pos : Nat) (event : Event),
      world.hist[pos]? = some event → Begun (pastOf (world.hist.take pos) event.thread) →
        Lands event.done →
          world.db.log[event.commits]? = some (event.thread, event.pending))
    (fun thread world => Begun (pastOf world.hist thread) → (world.db.txns thread).isSome)
    ?_ ?_ ?_ ?_ ?_ ?_ ?_ reached
  · simp [World.initial]
  · exact fun pool thread _ nothing _ inside => by rw [nothing] at inside; exact inside.elim
  · exact fun call world known => ⟨known, fun thread inside => inside⟩
  · intro pool thread call cmd choice answer after before known inside _ _ executed
    obtain ⟨_, _, hist, step⟩ := exec_cases executed
    constructor
    · intro pos event found within commits
      rw [hist] at found within
      rcases old_event found with earlier | ⟨here, rfl⟩
      · rw [List.take_append_of_le_length (Nat.le_of_lt (event_bound earlier))] at within
        exact prefix_getElem? (dbStep_log step) (known pos event earlier within commits)
      · subst here
        rw [List.take_left] at within
        obtain ⟨txn, opened⟩ := Option.isSome_iff_exists.mp (inside within)
        obtain rfl : cmd = .commit := lands_commit commits
        have landed := lands_answer commits
        rcases commit_db executed with ⟨_, db⟩ | ⟨rfl, _⟩
        · simp only [db, RowLock.State.commit, opened, World.eventOf, World.pendingActs]
          exact List.getElem?_concat_length
        · cases landed
    · intro within
      rw [exec_past executed] at within
      by_cases closes : cmd.Closes
      · cases cmd with
        | commit | rollback => exact within.elim
        | _ => exact closes.elim
      by_cases begins : cmd = .begin
      · subst begins
        cases answer with
        | ok value => exact begin_begun executed
        | error error => exact exec_begun closes executed (inside within)
      · exact exec_begun closes executed (inside ((begun_plain closes begins).mp within))
  · intro pool thread mover cmd choice answer after before _ different inside executed within
    have step := (exec_cases executed).2.2.2
    rw [exec_past_other different executed] at within
    rw [(dbStep_undisturbed (reached_ready before).sound different step).txn]
    exact inside within
  · intro mover world known
    refine ⟨known, fun thread different inside within => ?_⟩
    have same : (world.crash mover).db.txns thread = world.db.txns thread :=
      (RowLock.rollback_undisturbed different).txn
    exact same ▸ inside within
  · intro event before after known happened
    obtain ⟨db, _, _, hist⟩ := ambient_cases happened
    rw [hist, db]
    exact ⟨known, fun thread inside => inside⟩

theorem reached_begun {config : Config} {pool : ServerPool} (reached : Reached config pool) :
    ∀ (pos : Nat) (event : Event), pool.state.hist[pos]? = some event →
      Begun (pastOf (pool.state.hist.take pos) event.thread) →
        Lands event.done →
          pool.state.db.log[event.commits]? = some (event.thread, event.pending) :=
  (reached_within reached).1

end Begun
end Cybera
