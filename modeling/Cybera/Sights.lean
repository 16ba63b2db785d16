import Cybera.Alone
import Cybera.Retirement
import Cybera.Trail

/-!
What a single step tells its call about the committed tables and the clock of that
moment, by its answer and by what the call had done before it.
-/

namespace Cybera

open Interleaving

/-- Nothing written so far and no transaction ended. -/
structure Quiet (past : Past) : Prop where
  unwritten : Unwritten past
  unended : Unended past

def Unpending (past : Past) : Prop := Outside past ∨ Quiet past

/-- What the last step of a call and the steps before it, `earlier`, say about the committed
tables and the clock at that moment. -/
structure Reveals (store : Store) (clock : Time) (done : Done Cmd Res Failure) (earlier : Past) :
    Prop where
  asked : ∀ query answer, done = ⟨.query query, .ok answer⟩ → ∃ view : View, view.Shows store ∧
    answer = query.eval view ∧ (Outside earlier → view.now = clock)
  absent : ∀ table id, done = ⟨.lock table id, .ok none⟩ → store table id = none
  missed : ∀ table id op, done = ⟨.update table id op, .ok none⟩ → store table id = none
  edited : ∀ table id op row, done = ⟨.update table id op, .ok (some row)⟩ →
    ∃ before now, store table id = some before ∧ row = Op.run table op now before
  dated : ∀ now, done = ⟨.dateNow, .ok now⟩ → now = clock
  held : ∀ table id row, table ≠ .plans → Quiet earlier →
    ⟨.lock table id, .ok (some row)⟩ ∈ done :: earlier → store table id = some row
  named : ∀ code id, Quiet earlier →
    ⟨.query (.voucherByCode code), .ok (some id)⟩ ∈ earlier → ∃ v : VoucherRow,
      store .vouchers id = some v ∧ v.code = code
  once : ∀ user ids, ⟨.query (.activeSessionsOf user), .ok ids⟩ ∈ earlier → ids.Nodup

theorem quiet_nil : Quiet [] := ⟨by simp [Unwritten], by simp [Unended]⟩

theorem quiet_cons {done : Done Cmd Res Failure} {past : Past} (idle : ¬ WritesRow done)
    (plain : ¬ done.1.Closes) (quiet : Quiet past) : Quiet (done :: past) := by
  refine ⟨unwritten_cons idle quiet.unwritten, ?_⟩
  intro other member
  rcases List.mem_cons.mp member with rfl | earlier
  · exact plain
  · exact quiet.unended other earlier

theorem quiet_begin {past : Past} (quiet : Quiet past) : Quiet (⟨.begin, .ok ()⟩ :: past) :=
  quiet_cons (by rintro ⟨⟩) id quiet

theorem quiet_query {query : Query} {answer : Except Failure query.Res} {past : Past}
    (quiet : Quiet past) : Quiet (⟨.query query, answer⟩ :: past) :=
  quiet_cons (by rintro ⟨⟩) id quiet

theorem quiet_lock {table : TableName} {id : Nat} {answer : Except Failure (Option (Row table))}
    {past : Past} (quiet : Quiet past) : Quiet (⟨.lock table id, answer⟩ :: past) :=
  quiet_cons (by rintro ⟨⟩) (by rintro ⟨⟩) quiet

theorem pastOf_step {hist : List Event} {thread : Nat} {later earlier : Past}
    {done : Done Cmd Res Failure} (split : pastOf hist thread = later ++ done :: earlier) :
    ∃ (pos : Nat) (event : Event), hist[pos]? = some event ∧ event.thread = thread ∧
      event.done = done ∧ pastOf (hist.take pos) thread = earlier := by
  induction hist using List.reverseRecOn generalizing later with
  | nil => simp [pastOf] at split
  | append_singleton hist latest ih =>
      have known : (∃ (pos : Nat) (event : Event), hist[pos]? = some event ∧ event.thread = thread ∧
          event.done = done ∧ pastOf (hist.take pos) thread = earlier) →
          ∃ (pos : Nat) (event : Event), (hist ++ [latest])[pos]? = some event ∧
            event.thread = thread ∧ event.done = done ∧
              pastOf ((hist ++ [latest]).take pos) thread = earlier := by
        rintro ⟨pos, event, found, own, same, past⟩
        have bound := (List.getElem?_eq_some_iff.mp found).1
        refine ⟨pos, event, prefix_getElem? (List.prefix_append _ _) found, own, same, ?_⟩
        rwa [List.take_append_of_le_length (Nat.le_of_lt bound)]
      by_cases own : latest.thread = thread
      · rw [pastOf_own own] at split
        cases later with
        | nil =>
            rw [List.nil_append, List.cons.injEq] at split
            refine ⟨hist.length, latest, List.getElem?_concat_length, own, split.1, ?_⟩
            rw [List.take_left]
            exact split.2
        | cons last later =>
            rw [List.cons_append, List.cons.injEq] at split
            exact known (ih split.2)
      · rw [pastOf_other own] at split
        exact known (ih split)

theorem quiet_sooner {hist : List Event} {thread sooner pos : Nat} (before : sooner < pos)
    (quiet : Quiet (pastOf (hist.take pos) thread)) : Quiet (pastOf (hist.take sooner) thread) := by
  have whole : ∀ done ∈ pastOf (hist.take sooner) thread, done ∈ pastOf (hist.take pos) thread := by
    intro done member
    obtain ⟨at', event, early, found, own, same⟩ := mem_pastOf_take.mp member
    exact mem_pastOf_take.mpr ⟨at', event, Nat.lt_trans early before, found, own, same⟩
  exact ⟨fun done member => quiet.unwritten done (whole done member),
    fun done member => quiet.unended done (whole done member)⟩

section Runs
variable {config : Config} {pool : ServerPool} (reached : Reached config pool)
include reached

theorem outside_clock : ∀ (pos : Nat) (event : Event), pool.state.hist[pos]? = some event →
    Outside (pastOf (pool.state.hist.take pos) event.thread) → event.view.now = event.time := by
  refine (reached_live along_mayDo (fun world => ∀ (pos : Nat) (event : Event),
      world.hist[pos]? = some event → Outside (pastOf (world.hist.take pos) event.thread) →
        event.view.now = event.time)
    (fun thread world => Outside (pastOf world.hist thread) → world.db.txns thread = none)
    ?_ ?_ ?_ ?_ ?_ ?_ ?_ reached).1
  · simp [World.initial]
  · exact fun pool thread before _ beyond _ => (reached_ready before).idle thread beyond
  · exact fun call world known => ⟨known, fun thread outside => outside⟩
  · intro pool thread call cmd choice answer after before known outside _ _ executed
    have hist := (exec_cases executed).2.2.1
    constructor
    · intro pos event found shut
      rw [hist] at found shut
      rcases old_event found with earlier | ⟨here, rfl⟩
      · rw [List.take_append_of_le_length (Nat.le_of_lt (event_bound earlier))] at shut
        exact known pos event earlier shut
      · subst here
        rw [List.take_left] at shut
        simp [World.eventOf, World.view, outside shut]
    · intro shut
      rw [exec_past executed] at shut
      by_cases closes : cmd.Closes
      · exact exec_closes executed closes
      by_cases begins : cmd = .begin
      · subst begins
        exact shut.elim
      · exact exec_outside begins executed (outside ((outside_plain closes begins).mp shut))
  · intro pool thread mover cmd choice answer after before _ different outside executed shut
    have step := (exec_cases executed).2.2.2
    rw [exec_past_other different executed] at shut
    rw [(dbStep_undisturbed (reached_ready before).sound different step).txn]
    exact outside shut
  · intro mover world known
    refine ⟨known, fun thread different outside shut => ?_⟩
    exact (RowLock.rollback_undisturbed different).txn.trans (outside shut)
  · intro event before after known happened
    obtain ⟨db, _, _, hist⟩ := ambient_cases happened
    rw [hist, db]
    exact ⟨known, fun thread outside => outside⟩

/-- A statement that found no row saw none, and one that updated a row saw it before. -/
theorem edited_row {table : TableName} {id : Nat} {event : Event}
    (member : event ∈ pool.state.hist) :
    (event.done = ⟨.lock table id, .ok none⟩ → event.view.rows table id = none) ∧
    (∀ op, event.done = ⟨.update table id op, .ok none⟩ → event.view.rows table id = none) ∧
    ∀ op row, event.done = ⟨.update table id op, .ok (some row)⟩ →
      ∃ before now, event.view.rows table id = some before ∧ row = Op.run table op now before := by
  refine reached_events (fun event =>
    (event.done = ⟨.lock table id, .ok none⟩ → event.view.rows table id = none) ∧
    (∀ op, event.done = ⟨.update table id op, .ok none⟩ → event.view.rows table id = none) ∧
    ∀ op row, event.done = ⟨.update table id op, .ok (some row)⟩ → ∃ before now,
      event.view.rows table id = some before ∧ row = Op.run table op now before) ?_ reached
    event member
  intro pool thread cmd choice answer after _ executed
  have deed := exec_deed executed
  generalize after.db = db at deed
  refine ⟨?_, ?_, ?_⟩
  · intro same
    cases same
    cases deed with
    | read reads => exact reads.elim
    | unlocked absent => exact absent
  · intro op same
    cases same
    cases deed with
    | read reads => exact reads.elim
    | missed absent => exact absent
  · intro op row same
    cases same
    cases deed with
    | read reads => exact reads.elim
    | updated present written => exact ⟨_, _, present, rfl⟩

variable {pos : Nat} {event : Event} (found : pool.state.hist[pos]? = some event)
include found

theorem unpending_rows (unpending : Unpending (pastOf (pool.state.hist.take pos) event.thread)) :
    event.view.rows = storeAfter pool.state.db.log event.commits := by
  rcases unpending with outside | quiet
  · exact outside_rows reached found outside
  · have nothing : event.pending = [] := by
      refine List.eq_nil_iff_forall_not_mem.mpr fun entry pending => ?_
      obtain ⟨writeAt, write, before, found', own, wrote, _⟩ :=
        (reached_chronicle reached).pending pos event found entry pending
      exact quiet.unwritten write.done
        (mem_pastOf_take.mpr ⟨writeAt, write, before, found', own, rfl⟩) (wrote_row wrote)
    have truthful := (reached_ready reached).truthful event (List.mem_of_getElem? found)
    rw [truthful.rows, nothing, replay_nil]

theorem quiet_held (quiet : Quiet (pastOf (pool.state.hist.take pos) event.thread))
    {table : TableName} {id : Nat} {row : Row table} (kept : table ≠ .plans)
    (locked : ⟨.lock table id, .ok (some row)⟩ ∈
      event.done :: pastOf (pool.state.hist.take pos) event.thread) :
    storeAfter pool.state.db.log event.commits table id = some row := by
  have seen : ∀ {at' : Nat} {lock : Event}, pool.state.hist[at']? = some lock →
      Quiet (pastOf (pool.state.hist.take at') lock.thread) →
      lock.done = ⟨.lock table id, .ok (some row)⟩ →
      storeAfter pool.state.db.log lock.commits table id = some row := by
    intro at' lock found' quiet' same
    rw [← unpending_rows reached found' (Or.inr quiet')]
    exact locked_row reached (List.mem_of_getElem? found') same
  rcases List.mem_cons.mp locked with here | earlier
  · exact seen found quiet here.symm
  · obtain ⟨lockAt, lock, before, found', own, same⟩ := mem_pastOf_take.mp earlier
    have sooner := own ▸ quiet_sooner before quiet
    have grown := (history_order (reached_timeline reached) before found' found).commits
    have stands := locked_stands reached kept found' (locked_takes same) found own.symm
      (own ▸ unended_unclosed quiet.unended) grown (Nat.le_refl _)
    exact stands.trans (seen found' sooner same)

theorem reached_reveals (unpending : Unpending (pastOf (pool.state.hist.take pos) event.thread)) :
    Reveals (storeAfter pool.state.db.log event.commits) event.time event.done
      (pastOf (pool.state.hist.take pos) event.thread) := by
  have member := List.mem_of_getElem? found
  have rows := unpending_rows reached found unpending
  have edits := fun table id => @edited_row config pool reached table id event member
  constructor
  · intro query answer same
    have past := (reached_timeline reached).past event member
    have answered := ((reached_ready reached).truthful event member).answered
    have now := outside_clock reached pos event found
    obtain ⟨mover, cmd, reply, time, commits, pending, view⟩ := event
    cases same
    refine ⟨view, ⟨rows, ?_⟩, answered, now⟩
    exact fun table id present => past.listed table id (rows ▸ present)
  · intro table id same
    rw [← rows]
    exact (edits table id).1 same
  · intro table id op same
    rw [← rows]
    exact (edits table id).2.1 op same
  · intro table id op row same
    rw [← rows]
    exact (edits table id).2.2 op row same
  · intro now same
    exact (date_time reached member same).symm
  · exact fun table id row kept quiet locked => quiet_held reached found quiet kept locked
  · intro code id quiet asked
    obtain ⟨at', other, sooner, found', own, same⟩ := mem_pastOf_take.mp asked
    obtain ⟨v, present, rfl⟩ := voucherByCode_row reached (List.mem_of_getElem? found') same
    rw [unpending_rows reached found' (Or.inr (own ▸ quiet_sooner sooner quiet))] at present
    have grown := (history_order (reached_timeline reached) sooner found' found).commits
    have bound := ((reached_timeline reached).past event member).commits
    obtain ⟨after, stays, terms⟩ := row_related (reached_legit reached) (by simp)
      (by simp) SameTerms (fun _ => ⟨rfl, rfl⟩) sameTerms_trans op_sameTerms grown bound present
    exact ⟨after, stays, terms.1⟩
  · intro user ids asked
    obtain ⟨_, other, _, found', _, same⟩ := mem_pastOf_take.mp asked
    have answered := ((reached_ready reached).truthful other (List.mem_of_getElem? found')).answered
    obtain ⟨mover, cmd, reply, time, commits, pending, view⟩ := other
    cases same
    have answered' : ids = Query.eval view (.activeSessionsOf user) := answered
    rw [answered']
    exact scan_once view .sessions _

end Runs
end Cybera
