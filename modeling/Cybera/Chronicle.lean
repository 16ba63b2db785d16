import Cybera.Deeds

/-!
The log traced back to the history: every block has its COMMIT, every entry the
statement that wrote it, and a row that a transaction has locked stays locked
until the transaction ends.
-/

namespace Cybera

open Interleaving

inductive Event.Wrote : Event → Entry → Prop where
  | update {thread commits id : Nat} {table : TableName} {op : Op table} {row : Row table}
      {time : Time} {pending : List Entry} {view : View} :
      Event.Wrote ⟨thread, .update table id op, .ok (some row), time, commits, pending, view⟩
        (alter table id op view.now)
  | insert {thread commits id : Nat} {table : TableName} {row : Time → Row table} {skip : Bool}
      {time : Time} {pending : List Entry} {view : View} :
      Event.Wrote ⟨thread, .insert table row skip, .ok (some (id, row view.now)), time, commits,
        pending, view⟩ (create table id (row view.now))
  | delete {thread commits id : Nat} {time : Time} {pending : List Entry} {view : View} :
      Event.Wrote ⟨thread, .deletePlan id, .ok (), time, commits, pending, view⟩ (remove .plans id)

theorem updated_wrote {event : Event} {table : TableName} {id : Nat} {op : Op table}
    {row : Row table} (updated : event.done = ⟨.update table id op, .ok (some row)⟩) :
    event.Wrote (alter table id op event.view.now) := by
  obtain ⟨thread, cmd, answer, time, commits, pending, view⟩ := event
  cases updated
  exact .update

def Cmd.Closes : Cmd → Prop
  | .commit | .rollback => True
  | _ => False

/-- The thread ends no transaction between the two places in the history. -/
def Unclosed (hist : List Event) (thread first last : Nat) : Prop :=
  ∀ (between : Nat) (event : Event), first < between → between < last →
    hist[between]? = some event → event.thread = thread → ¬ event.cmd.Closes

/-- The thread wrote the entry before the place `pos`, in the same transaction. -/
def WroteBefore (hist : List Event) (pos thread : Nat) (entry : Entry) : Prop :=
  ∃ (earlier : Nat) (event : Event), earlier < pos ∧ hist[earlier]? = some event ∧
    event.thread = thread ∧ event.Wrote entry ∧ Unclosed hist thread earlier pos

structure Chronicle (world : World) : Prop where
  block : ∀ (index thread : Nat) (acts : List Entry), world.db.log[index]? = some (thread, acts) →
    ∃ (pos : Nat) (answer : Except Failure Unit) (time : Time) (view : View), Landed answer ∧
      world.hist[pos]? = some ⟨thread, .commit, answer, time, index, acts, view⟩
  pending : ∀ (pos : Nat) (event : Event), world.hist[pos]? = some event →
    ∀ entry ∈ event.pending, WroteBefore world.hist pos event.thread entry
  acts : ∀ thread txn, world.db.txns thread = some txn → ∀ entry ∈ txn.acts,
    WroteBefore world.hist world.hist.length thread entry

section Steps
variable {thread : Nat} {world after : World} {choice : Choice}

theorem write_acts {db reached : Database} {entry : Entry}
    (written : db.write Act.run thread entry = some reached) : ∃ txn txn',
      db.txns thread = some txn ∧ reached.txns thread = some txn' ∧
        txn'.acts = txn.acts ++ [entry] ∧ txn'.began = txn.began := by
  obtain ⟨held, txn, acquired, opened, rfl⟩ := RowLock.write_cases written
  rw [(RowLock.acquire_same acquired).1] at opened
  exact ⟨txn, _, opened, Function.update_self _ _ _, rfl, rfl⟩

theorem exec_acts {cmd : Cmd} {answer : Except Failure (Res cmd)}
    (executed : world.exec thread cmd choice = some (answer, after)) {txn' : RowLock.Txn Row Act}
    (opened : after.db.txns thread = some txn') : ∀ entry ∈ txn'.acts,
      (∃ txn, world.db.txns thread = some txn ∧ entry ∈ txn.acts) ∨
        (world.eventOf thread cmd choice answer).Wrote entry := by
  have deed := exec_deed executed
  have writes : ∀ {db : Database} {entry : Entry}, db.txns = world.db.txns →
      db.write Act.run thread entry = some after.db →
      (world.eventOf thread cmd choice answer).Wrote entry → ∀ act ∈ txn'.acts,
        (∃ txn, world.db.txns thread = some txn ∧ act ∈ txn.acts) ∨
          (world.eventOf thread cmd choice answer).Wrote act := by
    intro db entry same written wrote act member
    obtain ⟨txn, txn'', before, after', grown, _⟩ := write_acts written
    rw [opened, Option.some.injEq] at after'
    subst after'
    rw [grown] at member
    rcases List.mem_append.mp member with earlier | latest
    · exact Or.inl ⟨txn, same ▸ before, earlier⟩
    · rw [List.mem_singleton] at latest
      exact Or.inr (latest ▸ wrote)
  generalize reached : after.db = db at deed
  cases deed with
  | read | failed | unlocked | missed | skipped | gone =>
      rw [reached] at opened
      exact fun entry member => Or.inl ⟨txn', opened, member⟩
  | began =>
      intro entry member
      rw [reached] at opened
      cases before : world.db.txns thread with
      | none =>
          have fresh : world.db.begin thread (world.clock + choice.elapsed) = _ :=
            RowLock.begin_fresh before _
          rw [show (world.advance choice.elapsed).db.begin thread
            (world.advance choice.elapsed).clock = _ from fresh] at opened
          simp only [Function.update_self, Option.some.injEq] at opened
          subst opened
          cases member
      | some txn =>
          simp only [World.advance, RowLock.State.begin, before, Option.some.injEq] at opened
          exact Or.inl ⟨txn, rfl, opened ▸ member⟩
  | committed =>
      rw [reached, RowLock.commit_outside] at opened
      cases opened
  | refused | undone =>
      rw [reached, RowLock.rollback_outside] at opened
      cases opened
  | locked present granted =>
      rw [reached, (RowLock.acquire_same granted).1] at opened
      exact fun entry member => Or.inl ⟨txn', opened, member⟩
  | updated present written => exact writes rfl (reached ▸ written) .update
  | inserted free single written =>
      have same : ∀ table, ((world.advance choice.elapsed).db.reserve table).txns =
        world.db.txns := fun _ => rfl
      exact writes (same _) (reached ▸ written) .insert
  | deleted written => exact writes rfl (reached ▸ written) .delete

theorem exec_block {cmd : Cmd} {answer : Except Failure (Res cmd)}
    (executed : world.exec thread cmd choice = some (answer, after)) :
    after.db.log = world.db.log ∨ ∃ txn, world.db.txns thread = some txn ∧
      after.db.log = world.db.log ++ [(thread, txn.acts)] ∧
      ∃ (landing : Except Failure Unit) (time : Time) (view : View), Landed landing ∧
        world.eventOf thread cmd choice answer =
          ⟨thread, .commit, landing, time, world.db.log.length, txn.acts, view⟩ := by
  have deed := exec_deed executed
  generalize reached : after.db = db at deed
  cases deed with
  | read | failed | unlocked | missed | skipped | gone => exact Or.inl rfl
  | began =>
      left
      unfold RowLock.State.begin
      split <;> rfl
  | committed landed =>
      cases opened : world.db.txns thread with
      | none =>
          left
          have idle : (world.advance choice.elapsed).db.commit thread =
            (world.advance choice.elapsed).db := commit_idle opened
          rw [idle]
          rfl
      | some txn =>
          right
          refine ⟨txn, rfl, ?_, _, world.clock + choice.elapsed,
            (world.advance choice.elapsed).view thread choice.order, landed, ?_⟩
          · simp [World.advance, RowLock.State.commit, opened]
          · simp only [World.eventOf, World.pendingActs, opened]
            rfl
  | refused | undone => exact Or.inl rfl
  | locked present granted => exact Or.inl (RowLock.acquire_same granted).2.2.2
  | updated present written => exact Or.inl (RowLock.write_same written).2.2
  | inserted free single written => exact Or.inl (RowLock.write_same written).2.2
  | deleted written => exact Or.inl (RowLock.write_same written).2.2

/-- COMMIT and ROLLBACK end the transaction also when they fail. -/
theorem exec_closes {cmd : Cmd} {answer : Except Failure (Res cmd)}
    (executed : world.exec thread cmd choice = some (answer, after)) (closes : cmd.Closes) :
    after.db.txns thread = none := by
  cases cmd with
  | commit =>
      rcases commit_db executed with ⟨_, db⟩ | ⟨_, db⟩
      · rw [db, RowLock.commit_outside]
      · rw [db, RowLock.rollback_outside]
  | rollback => rw [rollback_db executed, RowLock.rollback_outside]
  | _ => exact absurd closes id

theorem wroteBefore_grown {hist : List Event} (more : List Event) {pos holder : Nat} {entry : Entry}
    (wrote : WroteBefore hist pos holder entry) (bound : pos ≤ hist.length) :
    WroteBefore (hist ++ more) pos holder entry := by
  obtain ⟨earlier, event, before, found, own, wrote, unclosed⟩ := wrote
  refine ⟨earlier, event, before, prefix_getElem? (List.prefix_append _ _) found, own, wrote, ?_⟩
  intro between event' after until' found'
  rw [List.getElem?_append_left (Nat.lt_of_lt_of_le until' bound)] at found'
  exact unclosed between event' after until' found'

theorem wroteBefore_step {hist : List Event} {event : Event} {holder : Nat} {entry : Entry}
    (wrote : WroteBefore hist hist.length holder entry)
    (open' : event.thread = holder → ¬ event.cmd.Closes) :
    WroteBefore (hist ++ [event]) (hist.length + 1) holder entry := by
  obtain ⟨earlier, writer, before, found, own, wrote, unclosed⟩ := wrote
  refine ⟨earlier, writer, Nat.lt_succ_of_lt before, prefix_getElem? (List.prefix_append _ _) found,
    own, wrote, ?_⟩
  intro between event' after until' found'
  by_cases old : between < hist.length
  · rw [List.getElem?_append_left old] at found'
    exact unclosed between event' after old found'
  · have here : between = hist.length := by omega
    subst here
    rw [List.getElem?_concat_length, Option.some.injEq] at found'
    exact found' ▸ open'

theorem exec_chronicle (ready : Ready world) (chronicle : Chronicle world) {cmd : Cmd}
    {answer : Except Failure (Res cmd)}
    (executed : world.exec thread cmd choice = some (answer, after)) : Chronicle after := by
  obtain ⟨_, _, hist, step⟩ := exec_cases executed
  refine ⟨?_, ?_, ?_⟩
  · intro index holder acts found
    rcases exec_block executed with same | ⟨txn, _, grown, landing, time, view, landed, event⟩
    · rw [same] at found
      obtain ⟨pos, answer, time, view, landed, committed⟩ := chronicle.block index holder acts found
      exact ⟨pos, answer, time, view, landed, hist ▸ prefix_getElem? (List.prefix_append _ _)
        committed⟩
    · rw [grown] at found
      by_cases old : index < world.db.log.length
      · rw [List.getElem?_append_left old] at found
        obtain ⟨pos, answer, time, view, landed, committed⟩ :=
          chronicle.block index holder acts found
        exact ⟨pos, answer, time, view, landed, hist ▸ prefix_getElem? (List.prefix_append _ _)
          committed⟩
      · have here : index = world.db.log.length := by
          have bound := (List.getElem?_eq_some_iff.mp found).1
          rw [List.length_append, List.length_singleton] at bound
          omega
        subst here
        rw [List.getElem?_concat_length, Option.some.injEq, Prod.mk.injEq] at found
        obtain ⟨rfl, rfl⟩ := found
        exact ⟨world.hist.length, landing, time, view, landed,
          by rw [hist, List.getElem?_concat_length, event]⟩
  · intro pos event found entry member
    rw [hist] at found ⊢
    by_cases old : pos < world.hist.length
    · rw [List.getElem?_append_left old] at found
      exact wroteBefore_grown _ (chronicle.pending pos event found entry member) (Nat.le_of_lt old)
    · have here : pos = world.hist.length := by
        have bound := (List.getElem?_eq_some_iff.mp found).1
        rw [List.length_append, List.length_singleton] at bound
        omega
      subst here
      rw [List.getElem?_concat_length, Option.some.injEq] at found
      subst found
      have member' : entry ∈ world.pendingActs thread := member
      unfold World.pendingActs at member'
      split at member'
      · rename_i txn opened
        exact wroteBefore_grown _ (chronicle.acts thread txn opened entry member') (Nat.le_refl _)
      · cases member'
  · intro holder txn' opened entry member
    rw [hist, List.length_append, List.length_singleton]
    by_cases mine : holder = thread
    · subst mine
      rcases exec_acts executed opened entry member with ⟨txn, before, earlier⟩ | wrote
      · refine wroteBefore_step (chronicle.acts holder txn before entry earlier) ?_
        intro _ closes
        rw [exec_closes executed closes] at opened
        cases opened
      · refine ⟨world.hist.length, _, Nat.lt_succ_self _, List.getElem?_concat_length,
          rfl, wrote, ?_⟩
        intro between _ after until'
        exact absurd (Nat.le_of_lt_succ until') (Nat.not_le_of_lt after)
    · rw [(dbStep_undisturbed ready.sound mine step).txn] at opened
      exact wroteBefore_step (chronicle.acts holder txn' opened entry member)
        fun same => absurd same.symm mine

theorem reached_chronicle {config : Config} {pool : ServerPool} (reached : Reached config pool) :
    Chronicle pool.state := by
  refine reachable_state (server config) Chronicle ?_ ?_ ?_ ?_ ?_ reached
  · exact ⟨by simp [World.initial, emptyDatabase], by simp [World.initial],
      by simp [World.initial, emptyDatabase]⟩
  · exact fun call world chronicle => ⟨chronicle.block, chronicle.pending, chronicle.acts⟩
  · intro pool thread cmd choice answer after before chronicle executed
    exact exec_chronicle (reached_ready before) chronicle executed
  · intro mover world chronicle
    refine ⟨chronicle.block, chronicle.pending, ?_⟩
    intro holder txn opened entry member
    by_cases mine : holder = mover
    · subst mine
      have closed : (world.crash holder).db.txns holder = none := RowLock.rollback_outside
      cases closed.symm.trans opened
    · have same : (world.crash mover).db.txns holder = world.db.txns holder :=
        (RowLock.rollback_undisturbed mine).txn
      exact chronicle.acts holder txn (same.symm.trans opened) entry member
  · intro event before after chronicle happened
    obtain ⟨db, _, _, hist⟩ := ambient_cases happened
    refine ⟨?_, ?_, ?_⟩
    · rw [db, hist]
      exact chronicle.block
    · rw [hist]
      exact chronicle.pending
    · rw [db, hist]
      exact chronicle.acts

end Steps

/-- A committed entry: the statement that wrote it, and the COMMIT after it. -/
structure Written (world : World) (index thread : Nat) (acts : List Entry) (entry : Entry)
    (writeAt commitAt : Nat) (write : Event) : Prop where
  before : writeAt < commitAt
  found : world.hist[writeAt]? = some write
  own : write.thread = thread
  wrote : write.Wrote entry
  unclosed : Unclosed world.hist thread writeAt commitAt
  commit : ∃ answer time view, Landed answer ∧
    world.hist[commitAt]? = some ⟨thread, .commit, answer, time, index, acts, view⟩

theorem block_written {world : World} (chronicle : Chronicle world) {index thread : Nat}
    {acts : List Entry} (found : world.db.log[index]? = some (thread, acts)) {entry : Entry}
    (member : entry ∈ acts) :
    ∃ writeAt commitAt write, Written world index thread acts entry writeAt commitAt write := by
  obtain ⟨pos, answer, time, view, landed, committed⟩ :=
    chronicle.block index thread acts found
  obtain ⟨earlier, event, before, found', own, wrote, unclosed⟩ :=
    chronicle.pending pos _ committed entry member
  exact ⟨earlier, pos, event, before, found', own, wrote, unclosed, answer, time, view,
    landed, committed⟩

end Cybera
