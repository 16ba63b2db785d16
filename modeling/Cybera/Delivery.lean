import Cybera.Exclusion

/-!
From the history to the log: what a transaction has written is in its block.
-/

namespace Cybera

open Interleaving
/-- What the thread wrote since its last COMMIT or ROLLBACK is pending. -/
def Carrying (thread : Nat) (world : World) : Prop :=
  ∀ (pos : Nat) (event : Event) entry, world.hist[pos]? = some event → event.thread = thread →
    event.Wrote entry → entry.table ≠ .plans →
      Unclosed world.hist thread pos world.hist.length → entry ∈ world.pendingActs thread

/-- What was written before a COMMIT that was carried out is in the block of that COMMIT. -/
def Delivered (world : World) : Prop :=
  ∀ (pos close : Nat) (write closing : Event) entry, world.hist[pos]? = some write →
    write.Wrote entry → entry.table ≠ .plans → world.hist[close]? = some closing →
      closing.thread = write.thread →
      Lands closing.done → pos < close → Unclosed world.hist write.thread pos close →
        world.db.log[closing.commits]? = some (write.thread, closing.pending) ∧
          entry ∈ closing.pending

section Delivery
variable {thread : Nat} {world after : World} {choice : Choice}

theorem pendingActs_same (same : after.db.txns thread = world.db.txns thread) :
    after.pendingActs thread = world.pendingActs thread := by
  simp only [World.pendingActs, same]

theorem write_pending {db : Database} {entry : Entry}
    (same : db.txns thread = world.db.txns thread)
    (written : db.write Act.run thread entry = some after.db) :
    after.pendingActs thread = world.pendingActs thread ++ [entry] := by
  obtain ⟨txn, txn', opened, opened', grown, _⟩ := write_acts written
  rw [same] at opened
  simp only [World.pendingActs, opened, opened', grown]

/-- A step leaves a transaction's acts alone, adds the one it wrote or ends the
transaction. -/
theorem exec_writes {cmd : Cmd} {answer : Except Failure (Res cmd)}
    (executed : world.exec thread cmd choice = some (answer, after)) :
    cmd.Closes ∧ after.pendingActs thread = [] ∨
      after.pendingActs thread = world.pendingActs thread ∨
        ∃ entry, after.pendingActs thread = world.pendingActs thread ++ [entry] ∧
          (world.eventOf thread cmd choice answer).Wrote entry := by
  have deed := exec_deed executed
  generalize reached : after.db = db at deed
  cases deed with
  | read | failed | unlocked | missed | skipped | gone =>
      exact Or.inr
        (Or.inl (pendingActs_same (congrFun (congrArg RowLock.State.txns reached) thread)))
  | began =>
      refine Or.inr (Or.inl ?_)
      cases opened : world.db.txns thread with
      | none =>
          have fresh : after.db.txns thread = some ⟨world.clock + choice.elapsed,
              fun _ _ => none, []⟩ := by
            rw [reached]
            simp [World.advance, RowLock.begin_fresh opened]
          simp only [World.pendingActs, fresh, opened]
      | some txn =>
          apply pendingActs_same
          rw [reached]
          simp [World.advance, RowLock.State.begin, opened]
  | committed =>
      have closed : after.db.txns thread = none := by rw [reached, RowLock.commit_outside]
      exact Or.inl ⟨trivial, by simp only [World.pendingActs, closed]⟩
  | refused | undone =>
      have closed : after.db.txns thread = none := by rw [reached, RowLock.rollback_outside]
      exact Or.inl ⟨trivial, by simp only [World.pendingActs, closed]⟩
  | locked present granted =>
      refine Or.inr (Or.inl (pendingActs_same ?_))
      rw [reached, (RowLock.acquire_same granted).1]
      rfl
  | updated present written =>
      exact Or.inr (Or.inr ⟨_, write_pending rfl (reached ▸ written), .update⟩)
  | @inserted table _ _ _ free single written =>
      have same : ((world.advance choice.elapsed).db.reserve table).txns thread =
        world.db.txns thread := rfl
      exact Or.inr (Or.inr ⟨_, write_pending same (reached ▸ written), .insert⟩)
  | deleted written =>
      exact Or.inr (Or.inr ⟨_, write_pending rfl (reached ▸ written), .delete⟩)

theorem exec_pending {cmd : Cmd} {answer : Except Failure (Res cmd)} (open' : ¬ cmd.Closes)
    (executed : world.exec thread cmd choice = some (answer, after)) {entry : Entry}
    (pending : entry ∈ world.pendingActs thread) : entry ∈ after.pendingActs thread := by
  rcases exec_writes executed with ⟨closes, _⟩ | same | ⟨latest, grown, _⟩
  · exact absurd closes open'
  · rwa [same]
  · rw [grown]
    exact List.mem_append_left _ pending

theorem exec_wrote {cmd : Cmd} {answer : Except Failure (Res cmd)}
    (executed : world.exec thread cmd choice = some (answer, after)) {entry : Entry}
    (wrote : (world.eventOf thread cmd choice answer).Wrote entry) (kept : entry.table ≠ .plans) :
    entry ∈ after.pendingActs thread := by
  have deed := exec_deed executed
  generalize reached : after.db = db at deed
  generalize recorded : world.eventOf thread cmd choice answer = event at wrote
  have latest : ∀ {db : Database} {entry : Entry}, db.txns thread = world.db.txns thread →
      db.write Act.run thread entry = some after.db → entry ∈ after.pendingActs thread := by
    intro db entry same written
    rw [write_pending same written]
    exact List.mem_append_right _ (List.mem_singleton_self _)
  cases wrote with
  | update =>
      simp only [World.eventOf, Event.mk.injEq] at recorded
      obtain ⟨-, rfl, answered, -, -, -, rfl⟩ := recorded
      cases eq_of_heq answered
      cases deed with
      | read reads => exact reads.elim
      | updated present written => exact latest rfl (reached ▸ written)
  | insert =>
      simp only [World.eventOf, Event.mk.injEq] at recorded
      obtain ⟨-, rfl, answered, -, -, -, rfl⟩ := recorded
      cases eq_of_heq answered
      cases deed with
      | read reads => exact reads.elim
      | inserted free single written =>
          have same : ∀ table, ((world.advance choice.elapsed).db.reserve table).txns thread =
            world.db.txns thread := fun _ => rfl
          exact latest (same _) (reached ▸ written)
  | delete => exact absurd rfl kept

theorem own_carrying (carrying : Carrying thread world) {cmd : Cmd}
    {answer : Except Failure (Res cmd)}
    (executed : world.exec thread cmd choice = some (answer, after)) : Carrying thread after := by
  have hist := (exec_cases executed).2.2.1
  intro pos event entry found mine wrote kept unclosed
  rw [hist] at found unclosed
  rcases old_event found with earlier | ⟨_, rfl⟩
  · have going : ¬ cmd.Closes := by
      refine unclosed world.hist.length (world.eventOf thread cmd choice answer)
        (event_bound earlier) ?_ List.getElem?_concat_length rfl
      simp
    refine exec_pending going executed (carrying pos event entry earlier mine wrote kept ?_)
    exact (unclosed_grown (Nat.le_refl _)).mp (unclosed.shorter (by simp))
  · exact exec_wrote executed wrote kept

theorem other_carrying {mover : Nat} (ready : Ready world) (different : thread ≠ mover)
    (carrying : Carrying thread world) {cmd : Cmd} {answer : Except Failure (Res cmd)}
    (executed : world.exec mover cmd choice = some (answer, after)) : Carrying thread after := by
  obtain ⟨_, _, hist, step⟩ := exec_cases executed
  intro pos event entry found mine wrote kept unclosed
  rw [hist] at found unclosed
  rcases old_event found with earlier | ⟨_, rfl⟩
  · rw [pendingActs_same (dbStep_undisturbed ready.sound different step).txn]
    refine carrying pos event entry earlier mine wrote kept ?_
    exact (unclosed_grown (Nat.le_refl _)).mp (unclosed.shorter (by simp))
  · exact absurd mine.symm different

theorem exec_delivered (delivered : Delivered world) (carrying : Carrying thread world) {cmd : Cmd}
    {answer : Except Failure (Res cmd)}
    (executed : world.exec thread cmd choice = some (answer, after)) : Delivered after := by
  obtain ⟨_, _, hist, _⟩ := exec_cases executed
  intro pos close write closing entry found wrote kept found' same commits before unclosed
  rw [hist] at found found' unclosed
  rcases old_event found' with earlier | ⟨here, rfl⟩
  · have bound := event_bound earlier
    rw [List.getElem?_append_left (Nat.lt_trans before bound)] at found
    obtain ⟨block, member⟩ := delivered pos close write closing entry found wrote kept earlier
      same commits before ((unclosed_grown (Nat.le_of_lt bound)).mp unclosed)
    rcases exec_block executed with same | ⟨txn, _, grown, _⟩
    · exact ⟨same ▸ block, member⟩
    · exact ⟨grown ▸ prefix_getElem? (List.prefix_append _ _) block, member⟩
  · subst here
    rw [List.getElem?_append_left before] at found
    obtain rfl : thread = write.thread := same
    have pending := carrying pos write entry found rfl wrote kept
      ((unclosed_grown (Nat.le_refl _)).mp unclosed)
    obtain rfl : cmd = .commit := lands_commit commits
    have landed := lands_answer commits
    refine ⟨?_, pending⟩
    cases opened : world.db.txns write.thread with
    | none =>
        simp only [World.pendingActs, opened] at pending
        cases pending
    | some txn =>
        rcases commit_db executed with ⟨_, db⟩ | ⟨rfl, _⟩
        · simp only [db, RowLock.State.commit, opened, World.eventOf, World.pendingActs]
          exact List.getElem?_concat_length
        · cases landed

theorem reached_delivered {config : Config} {pool : ServerPool} (reached : Reached config pool) :
    Delivered pool.state := by
  refine (reached_live along_mayDo Delivered Carrying ?_ ?_ ?_ ?_ ?_ ?_ ?_ reached).1
  · intro pos close write closing entry found
    simp [World.initial] at found
  · intro pool thread _ nothing _ pos event entry found mine
    have member : event.done ∈ pastOf pool.state.hist thread :=
      mem_pastOf.mpr ⟨event, List.mem_of_getElem? found, mine, rfl⟩
    rw [nothing] at member
    cases member
  · exact fun call world delivered => ⟨delivered, fun thread carrying => carrying⟩
  · intro pool thread call cmd choice answer after before delivered carrying _ _ executed
    exact ⟨exec_delivered delivered carrying executed, own_carrying carrying executed⟩
  · intro pool thread mover cmd choice answer after before _ different carrying executed
    exact other_carrying (reached_ready before) different carrying executed
  · intro mover world delivered
    refine ⟨delivered, fun thread different carrying pos event entry found mine wrote kept
      unclosed => ?_⟩
    rw [pendingActs_same (RowLock.rollback_undisturbed different).txn]
    exact carrying pos event entry found mine wrote kept unclosed
  · intro event before after delivered happened
    obtain ⟨db, _, _, hist⟩ := ambient_cases happened
    have pending : after.pendingActs = before.pendingActs := by
      funext thread
      exact pendingActs_same (congrFun (congrArg RowLock.State.txns db) thread)
    refine ⟨?_, fun thread carrying => ?_⟩
    · intro pos close write closing entry
      rw [hist, db]
      exact delivered pos close write closing entry
    · intro pos event entry
      rw [hist, pending]
      exact carrying pos event entry

/-- From one place in the history to a later one the thread has added to its acts
what it wrote in between. -/
def Added (hist : List Event) (thread first last : Nat) (before after : List Entry) : Prop :=
  ∃ rest, after = before ++ rest ∧ ∀ entry ∈ rest, ∃ (pos : Nat) (writer : Event), first ≤ pos ∧
    pos < last ∧ hist[pos]? = some writer ∧ writer.thread = thread ∧ writer.Wrote entry

theorem Added.grown {hist : List Event} (more : List Event) {first last : Nat}
    {before pending : List Entry} (added : Added hist thread first last before pending) :
    Added (hist ++ more) thread first last before pending := by
  obtain ⟨rest, split, written⟩ := added
  refine ⟨rest, split, fun entry member => ?_⟩
  obtain ⟨pos, writer, low, high, found, own⟩ := written entry member
  exact ⟨pos, writer, low, high, prefix_getElem? (List.prefix_append _ _) found, own⟩

theorem Added.later {hist : List Event} {first last later : Nat} {before pending : List Entry}
    (added : Added hist thread first last before pending) (more : last ≤ later) :
    Added hist thread first later before pending := by
  obtain ⟨rest, split, written⟩ := added
  refine ⟨rest, split, fun entry member => ?_⟩
  obtain ⟨pos, writer, low, high, found, own⟩ := written entry member
  exact ⟨pos, writer, low, Nat.lt_of_lt_of_le high more, found, own⟩

/-- The same for what is pending now. -/
def Adding (thread : Nat) (world : World) : Prop :=
  ∀ (pos : Nat) (event : Event), world.hist[pos]? = some event → event.thread = thread →
    ¬ event.cmd.Closes → Unclosed world.hist thread pos world.hist.length →
      Added world.hist thread pos world.hist.length event.pending (world.pendingActs thread)

theorem own_adding (adding : Adding thread world) {cmd : Cmd} {answer : Except Failure (Res cmd)}
    (executed : world.exec thread cmd choice = some (answer, after)) : Adding thread after := by
  have hist := (exec_cases executed).2.2.1
  have here : after.hist[world.hist.length]? = some (world.eventOf thread cmd choice answer) := by
    rw [hist]
    exact List.getElem?_concat_length
  have length : after.hist.length = world.hist.length + 1 := by
    rw [hist, List.length_append, List.length_singleton]
  -- what this step adds to the acts
  have step : ¬ cmd.Closes → Added after.hist thread world.hist.length after.hist.length
      (world.pendingActs thread) (after.pendingActs thread) := by
    intro open'
    rcases exec_writes executed with ⟨closes, _⟩ | same | ⟨entry, grown, wrote⟩
    · exact absurd closes open'
    · exact ⟨[], by simp [same], by simp⟩
    · refine ⟨[entry], grown, fun other member => ?_⟩
      rw [List.mem_singleton.mp member]
      exact ⟨world.hist.length, _, Nat.le_refl _, by omega, here, rfl, wrote⟩
  intro pos event found mine open' unclosed
  rw [hist] at found
  rcases old_event found with earlier | ⟨last, rfl⟩
  · have bound := event_bound earlier
    have going : ¬ cmd.Closes := unclosed world.hist.length _ bound (by omega) here rfl
    rw [hist] at unclosed
    have before : Added after.hist thread pos after.hist.length event.pending
        (world.pendingActs thread) := by
      have older := adding pos event earlier mine open'
        ((unclosed_grown (Nat.le_refl _)).mp (unclosed.shorter (by simp)))
      rw [length, hist]
      exact (older.grown _).later (Nat.le_succ _)
    obtain ⟨rest, split, written⟩ := before
    obtain ⟨more, split', written'⟩ := step going
    refine ⟨rest ++ more, by rw [split', split, List.append_assoc], fun entry member => ?_⟩
    rcases List.mem_append.mp member with older | newer
    · exact written entry older
    · obtain ⟨at', writer, low, high, rest⟩ := written' entry newer
      exact ⟨at', writer, Nat.le_trans (Nat.le_of_lt bound) low, high, rest⟩
  · exact last ▸ step open'

theorem reached_added {config : Config} {pool : ServerPool} (reached : Reached config pool)
    {first last : Nat} {event event' : Event} (found : pool.state.hist[first]? = some event)
    (found' : pool.state.hist[last]? = some event') (own : event'.thread = event.thread)
    (before : first < last) (open' : ¬ event.cmd.Closes)
    (unclosed : Unclosed pool.state.hist event.thread first last) :
    Added pool.state.hist event.thread first last event.pending event'.pending := by
  refine (reached_live along_mayDo (fun world => ∀ (first last : Nat) (event event' : Event),
    world.hist[first]? = some event → world.hist[last]? = some event' →
      event'.thread = event.thread → first < last → ¬ event.cmd.Closes →
        Unclosed world.hist event.thread first last →
          Added world.hist event.thread first last event.pending event'.pending) Adding
    ?_ ?_ ?_ ?_ ?_ ?_ ?_ reached).1 first last event event' found found' own before open' unclosed
  · simp [World.initial]
  · intro pool thread _ nothing _ pos event found mine
    have member : event.done ∈ pastOf pool.state.hist thread :=
      mem_pastOf.mpr ⟨event, List.mem_of_getElem? found, mine, rfl⟩
    rw [nothing] at member
    cases member
  · exact fun call world known => ⟨known, fun thread adding => adding⟩
  · intro pool thread call cmd choice answer after before known adding _ _ executed
    refine ⟨?_, own_adding adding executed⟩
    have hist := (exec_cases executed).2.2.1
    intro first last event event' found found' own ordered open' unclosed
    rw [hist] at found found' unclosed ⊢
    rcases old_event found' with earlier | ⟨here, rfl⟩
    · have bound := event_bound earlier
      rw [List.getElem?_append_left (Nat.lt_trans ordered bound)] at found
      exact (known first last event event' found earlier own ordered open'
        ((unclosed_grown (Nat.le_of_lt bound)).mp unclosed)).grown _
    · subst here
      rw [List.getElem?_append_left ordered] at found
      have own' : event.thread = thread := own.symm
      rw [own'] at unclosed ⊢
      exact (adding first event found own' open'
        ((unclosed_grown (Nat.le_refl _)).mp unclosed)).grown _
  · intro pool thread mover cmd choice answer after before _ different adding executed
    obtain ⟨_, _, hist, step⟩ := exec_cases executed
    intro pos event found mine open' unclosed
    rw [hist] at found unclosed
    rcases old_event found with earlier | ⟨_, rfl⟩
    · rw [pendingActs_same (dbStep_undisturbed (reached_ready before).sound different step).txn,
        hist]
      refine ((adding pos event earlier mine open' ?_).grown _).later ?_
      · exact (unclosed_grown (Nat.le_refl _)).mp (unclosed.shorter (by simp))
      · simp
    · exact absurd mine.symm different
  · intro mover world known
    refine ⟨known, fun thread different adding pos event found mine open' unclosed => ?_⟩
    rw [pendingActs_same (RowLock.rollback_undisturbed different).txn]
    exact adding pos event found mine open' unclosed
  · intro event before after known happened
    obtain ⟨db, _, _, hist⟩ := ambient_cases happened
    have pending : after.pendingActs = before.pendingActs := by
      funext thread
      exact pendingActs_same (congrFun (congrArg RowLock.State.txns db) thread)
    refine ⟨by rw [hist]; exact known, fun thread adding pos event => ?_⟩
    rw [hist, pending]
    exact adding pos event

theorem pending_committed {config : Config} {pool : ServerPool} (reached : Reached config pool)
    {pos : Nat} {commit : Event} (found : pool.state.hist[pos]? = some commit)
    (commits : Lands commit.done) {entry : Entry} (member : entry ∈ commit.pending)
    (kept : entry.table ≠ .plans) :
    pool.state.db.log[commit.commits]? = some (commit.thread, commit.pending) := by
  obtain ⟨earlier, write, before, found', own, wrote, unclosed⟩ :=
    (reached_chronicle reached).pending pos commit found entry member
  have delivered := reached_delivered reached earlier pos write commit entry found' wrote kept found
    own.symm commits before (own.symm ▸ unclosed)
  exact own ▸ delivered.1

end Delivery

section Recorded
variable {config : Config} {pool : ServerPool}

theorem reached_events (holds : Event → Prop)
    (execs : ∀ pool thread cmd choice answer after, Reached config pool →
      pool.state.exec thread cmd choice = some (answer, after) →
        holds (pool.state.eventOf thread cmd choice answer))
    (reached : Reached config pool) : ∀ event ∈ pool.state.hist, holds event := by
  refine reachable_state (server config) (fun world => ∀ event ∈ world.hist, holds event)
    ?_ ?_ ?_ ?_ ?_ reached
  · simp [World.initial]
  · exact fun _ _ known => known
  · intro pool thread cmd choice answer after before known executed event member
    rw [(exec_cases executed).2.2.1] at member
    rcases List.mem_append.mp member with earlier | latest
    · exact known event earlier
    · rw [List.mem_singleton.mp latest]
      exact execs pool thread cmd choice answer after before executed
  · exact fun _ _ known => known
  · intro event before after known happened
    rw [(ambient_cases happened).2.2.2]
    exact known

theorem missed_absent (reached : Reached config pool) {event : Event}
    (member : event ∈ pool.state.hist) {table : TableName} {id : Nat} {op : Op table}
    (missed : event.done = ⟨.update table id op, .ok none⟩) : event.view.rows table id = none := by
  refine reached_events (fun event => event.done = ⟨.update table id op, .ok none⟩ →
    event.view.rows table id = none) ?_ reached event member missed
  intro pool thread cmd choice answer after _ executed same
  cases same
  have deed := exec_deed executed
  generalize after.db = db at deed
  cases deed with
  | read reads => exact reads.elim
  | missed absent => exact absent

end Recorded
end Cybera
