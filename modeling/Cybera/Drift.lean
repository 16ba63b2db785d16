import Cybera.Charges

/-!
Rounding over many passes. A pass settles a session once, by whole seconds, and
starts the next interval at its own time: every settlement may be half a second off.
-/

namespace Cybera

open Interleaving

def settlesDone (session : Nat) : Done Cmd Res Failure → Bool
  | ⟨.update .sessions id (.settle _), .ok (some _)⟩ => id == session
  | _ => false

/-- A transaction settles a session no more often than its thread has. -/
structure Settling (world : World) (session : Nat) : Prop where
  own : ∀ thread, settlements session (world.pendingActs thread) ≤
    (pastOf world.hist thread).countP (settlesDone session)
  recorded : ∀ (pos : Nat) (event : Event), world.hist[pos]? = some event →
    settlements session event.pending ≤
      (pastOf (world.hist.take pos) event.thread).countP (settlesDone session)

section Steps
variable {thread : Nat} {world after : World} {choice : Choice} {session : Nat}

theorem settlements_one (entry : Entry) :
    settlements session [entry] = if settleOf entry = some session then 1 else 0 := by
  simp only [settlements, List.filterMap_cons, List.filterMap_nil]
  cases settled : settleOf entry with
  | none => simp
  | some id => by_cases same : id = session <;> simp [same]

theorem exec_settlements {cmd : Cmd} {answer : Except Failure (Res cmd)}
    (executed : world.exec thread cmd choice = some (answer, after)) :
    settlements session (after.pendingActs thread) ≤
      settlements session (world.pendingActs thread) +
        if settlesDone session ⟨cmd, answer⟩ then 1 else 0 := by
  rcases exec_writes executed with ⟨_, none'⟩ | same | ⟨entry, grown, wrote⟩
  · rw [none']
    exact Nat.zero_le _
  · rw [same]
    exact Nat.le_add_right _ _
  · rw [grown, settlements_append]
    refine Nat.add_le_add_left ?_ _
    rw [settlements_one]
    split
    · rename_i settled
      have does : settlesDone session (world.eventOf thread cmd choice answer).done = true := by
        generalize world.eventOf thread cmd choice answer = event at wrote
        cases wrote with
        | @update _ _ _ table op =>
            cases table <;> first | cases settled | skip
            cases op with
            | settle elapsed =>
                cases settled
                simp [settlesDone, Event.done]
            | refresh | finish => cases settled
        | @insert _ _ _ table => cases table <;> cases settled
        | delete => cases settled
      have does' : settlesDone session ⟨cmd, answer⟩ = true := does
      rw [does']
      exact Nat.le_refl _
    · exact Nat.zero_le _

end Steps

theorem reached_settling {config : Config} {pool : ServerPool} (reached : Reached config pool)
    (session : Nat) : Settling pool.state session := by
  refine reachable_state (server config) (fun world => Settling world session) ?_ ?_
    ?_ ?_ ?_ reached
  · exact ⟨fun _ => Nat.zero_le _, fun pos event found => by cases found⟩
  · exact fun _ _ known => ⟨known.own, known.recorded⟩
  · intro pool thread cmd choice answer after before known executed
    obtain ⟨_, _, hist, step⟩ := exec_cases executed
    constructor
    · intro other
      by_cases own : other = thread
      · subst own
        have grown : pastOf after.hist other = ⟨cmd, answer⟩ :: pastOf pool.state.hist other :=
          exec_past executed
        rw [grown, List.countP_cons]
        exact Nat.le_trans (exec_settlements executed) (Nat.add_le_add_right (known.own other) _)
      · have same : pastOf after.hist other = pastOf pool.state.hist other :=
          exec_past_other own executed
        rw [same, pendingActs_same (dbStep_undisturbed (reached_ready before).sound own step).txn]
        exact known.own other
    · intro pos event found
      rw [hist] at found ⊢
      rcases old_event found with earlier | ⟨here, rfl⟩
      · rw [List.take_append_of_le_length (Nat.le_of_lt (event_bound earlier))]
        exact known.recorded pos event earlier
      · rw [here, List.take_left]
        exact known.own thread
  · intro thread world known
    refine ⟨fun other => ?_, known.recorded⟩
    by_cases own : other = thread
    · subst own
      have closed : (world.crash other).pendingActs other = [] := by
        simp only [World.pendingActs, World.crash, RowLock.rollback_outside]
      have nothing : settlements session ((world.crash other).pendingActs other) = 0 := by
        rw [closed]
        rfl
      exact nothing ▸ Nat.zero_le _
    · have same : (world.crash thread).pendingActs other = world.pendingActs other :=
        pendingActs_same (RowLock.rollback_undisturbed own).txn
      exact same ▸ known.own other
  · intro event before after known happened
    obtain ⟨db, _, _, hist⟩ := ambient_cases happened
    have same : ∀ thread, after.pendingActs thread = before.pendingActs thread :=
      fun thread => pendingActs_same (by rw [db])
    constructor
    · intro thread
      rw [same, hist]
      exact known.own thread
    · rw [hist]
      exact known.recorded

/-! One settlement of a session in each pass. -/

theorem settlementRows_distinct (view : View) :
    ((Query.settlementRows.eval view).map fun ids => ids.1).Nodup := by
  have sorted := (List.perm_insertionSort (fun (a b : Nat × Nat) => a.2 ≤ b.2)
    ((view.scan .sessions fun s => s.status == .active &&
      (view.rows .users s.userId).isSome).map fun found => (found.1, found.2.userId))).map
        fun ids => ids.1
  refine sorted.nodup_iff.mpr ?_
  rw [List.map_map]
  exact scan_once view .sessions _

theorem settlesDone_iff {session : Nat} {done : Done Cmd Res Failure} :
    settlesDone session done = true ↔
      ∃ elapsed row, done = ⟨.update .sessions session (.settle elapsed), .ok (some row)⟩ := by
  constructor
  · intro settles
    unfold settlesDone at settles
    split at settles
    · rw [beq_iff_eq] at settles
      subst settles
      exact ⟨_, _, rfl⟩
    · cases settles
  · rintro ⟨elapsed, row, rfl⟩
    simp [settlesDone]

section Runs
variable {config : Config} {pool : ServerPool} (reached : Reached config pool)
include reached

theorem pass_distinct (thread pos : Nat) : Distinct (pastOf (pool.state.hist.take pos) thread) := by
  intro found member
  obtain ⟨at', event, _, recorded, _, same⟩ := mem_pastOf_take.mp member
  have answered := ((reached_ready reached).truthful event (List.mem_of_getElem? recorded)).answered
  obtain ⟨mover, cmd, answer, time, commits, pending, view⟩ := event
  cases same
  have answered' : found = Query.settlementRows.eval view := answered
  exact answered' ▸ settlementRows_distinct view

theorem pass_settles_once {thread : Nat} (tick : pool.state.arrivals[thread]? = some .tick)
    (session pos : Nat) :
    (pastOf (pool.state.hist.take pos) thread).countP (settlesDone session) ≤ 1 := by
  induction pos with
  | zero => exact Nat.zero_le _
  | succ pos ih =>
      cases found : pool.state.hist[pos]? with
      | none =>
          rw [List.take_add_one, found, Option.toList_none, List.append_nil]
          exact ih
      | some event =>
          rw [List.take_add_one, found, Option.toList_some]
          by_cases own : event.thread = thread
          · rw [pastOf_own own, List.countP_cons]
            split
            · rename_i settles
              -- it has not settled the session before
              have none' : (pastOf (pool.state.hist.take pos) thread).countP
                  (settlesDone session) = 0 := by
                obtain ⟨elapsed, row, same⟩ := settlesDone_iff.mp settles
                have cmd : event.cmd = .update .sessions session (.settle elapsed) :=
                  congrArg Sigma.fst same
                have pass := reached_inPass reached found own tick
                rw [cmd] at pass
                obtain ⟨_, unsettled, _⟩ := pass
                refine List.countP_eq_zero.mpr fun done member settles => ?_
                obtain ⟨elapsed', row', rfl⟩ := settlesDone_iff.mp settles
                exact unsettled (pass_distinct reached thread pos) elapsed' _ member rfl
              rw [none']
            · exact ih
          · rwa [pastOf_other own]

theorem block_once {index thread : Nat} {acts : List Entry}
    (block : pool.state.db.log[index]? = some (thread, acts))
    (tick : pool.state.arrivals[thread]? = some .tick) (session : Nat) :
    settlements session acts ≤ 1 := by
  obtain ⟨pos, answer, time, view, landed, committed⟩ :=
    (reached_chronicle reached).block index thread acts block
  exact Nat.le_trans ((reached_settling reached session).recorded pos _ committed)
    (pass_settles_once reached tick session pos)

end Runs

section Blocks
variable {config : Config} {world : World} {index thread session : Nat} {acts : List Entry}
  {s after : SessionRow} {now date : Time}

theorem settled_charged (pass : Settled (world.basisAt index) thread now date acts)
    (row : storeAfter world.db.log index .sessions session = some s) :
    charged s.userId session acts = elapsedSeconds date s.lastTick * settlements session acts ∧
      ∀ elapsed time, alter .sessions session (.settle elapsed) time ∈ acts →
        elapsed = elapsedSeconds date s.lastTick := by
  induction pass with
  | nothing => exact ⟨rfl, fun _ _ member => by cases member⟩
  | @settled earlier device id s' account before held active owner positive devices ih =>
      have held' : storeAfter world.db.log index .sessions id = some s' := held
      rw [charged_append, settlements_append, pair_charged _ _ _ _ _ _ devices,
        pair_settlements _ _ _ _ _ devices, ih.1, Nat.mul_add]
      constructor
      · by_cases same : id = session
        · subst same
          rw [row, Option.some.injEq] at held'
          subst held'
          simp
        · simp [same]
      · intro elapsed time member
        rcases List.mem_append.mp member with older | newer
        · exact ih.2 elapsed time older
        · rcases List.mem_cons.mp newer with latest | other
          · cases latest
            rw [row, Option.some.injEq] at held'
            rw [held']
          · rcases List.mem_cons.mp other with charge | seen
            · cases charge
            · cases devices _ seen
  | vanished before held active late ih | exhausted before asked member ih =>
      rw [charged_append, settlements_append]
      refine ⟨ih.1, fun elapsed time member => ?_⟩
      rcases List.mem_append.mp member with older | latest
      · exact ih.2 elapsed time older
      · cases List.mem_singleton.mp latest

theorem settled_exact {call : Call} {elapsed : Nat}
    (lawful : Lawful config (world.basisAt index) thread call acts)
    (row : storeAfter world.db.log index .sessions session = some s)
    (left : storeAfter world.db.log (index + 1) .sessions session = some after)
    (block : world.db.log[index]? = some (thread, acts))
    (member : alter .sessions session (.settle elapsed) now ∈ acts)
    (once : settlements session acts ≤ 1) :
    after.secondsConsumed = s.secondsConsumed + elapsed := by
  rw [storeAfter_succ _ _ _ block] at left
  obtain rfl := settled_call lawful member
  have one : settlements session acts = 1 := Nat.le_antisymm once (settles_counted member)
  cases lawful with
  | nothing => cases member
  | tick ordered pass =>
      obtain ⟨taken, same⟩ := settled_charged pass row
      obtain ⟨_, left', _, _, balance⟩ := settlement_paid ordered pass row
      rw [left, Option.some.injEq] at left'
      subst left'
      rw [← balance, taken, one, Nat.mul_one, same elapsed now member]

end Blocks

/-! The clock runs ahead of last_tick. -/

section Stamps
variable {config : Config} {pool : ServerPool} (reached : Reached config pool)
include reached

/-- What a statement has written on a session, it has stamped with a time that
had passed. -/
theorem write_stamped {index thread : Nat} {acts : List Entry} {entry : Entry} (id : Nat)
    (block : pool.state.db.log[index]? = some (thread, acts)) (member : entry ∈ acts) :
    ∃ commit ∈ pool.state.hist, commit.commits = index ∧ commit.thread = thread ∧
      commit.Closes ∧
      (∀ op now, entry = alter .sessions id op now → now ≤ commit.time) ∧
      ∀ row : SessionRow, entry = create .sessions id row → row.lastTick ≤ commit.time := by
  obtain ⟨writeAt, commitAt, write, before, found, own, wrote, _, _, time, view, landed,
    committed⟩ := block_written (reached_chronicle reached) block member
  have timeline := reached_timeline reached
  have stamped : write.view.now ≤ time :=
    Int.le_trans (timeline.past write (List.mem_of_getElem? found)).now
      (history_order timeline before found committed).time
  refine ⟨_, List.mem_of_getElem? committed, rfl, rfl,
    ⟨_, _, _, _, _, _, landed, rfl, List.ne_nil_of_mem member⟩, ?_, ?_⟩
  · rintro op now rfl
    cases wrote
    exact stamped
  · rintro row same
    obtain ⟨call, _, may⟩ := reached_mayDo reached write (List.mem_of_getElem? found)
    cases wrote with
    | update | delete => cases same
    | insert =>
        cases same
        obtain ⟨_, opening⟩ := may
        rw [opening]
        exact stamped

theorem tick_bounded {commits id : Nat} {s : SessionRow} {until' : Time}
    (bound : commits ≤ pool.state.db.log.length)
    (row : storeAfter pool.state.db.log commits .sessions id = some s)
    (early : ∀ commit ∈ pool.state.hist, commit.commits < commits → commit.time ≤ until') :
    s.lastTick ≤ until' := by
  refine log_induction (reached_legit reached) (fun index => index ≤ commits → ∀ s : SessionRow,
    storeAfter pool.state.db.log index .sessions id = some s → s.lastTick ≤ until')
    (by simp [storeAfter]) ?_ commits bound (Nat.le_refl _) s row
  intro index thread acts call block _ lawful next ih low after left
  rw [next] at left
  refine replay_made _ .sessions id (fun row => row.lastTick ≤ until')
    (fun op now => now ≤ until') ?_ acts ?_
    (fun s present => ih (Nat.le_of_succ_le low) s present) left
  · intro op now row passed kept
    cases op with
    | settle | refresh => exact passed
    | finish => exact kept
  · rintro entry listed table rfl
    obtain ⟨commit, listed', same, _, _, alters, creates⟩ := write_stamped reached entry.id
      block listed
    have passed : commit.time ≤ until' := early commit listed' (by omega)
    cases lawful_sessions lawful entry listed table with
    | opened => exact Or.inr ⟨_, rfl, Int.le_trans (creates _ rfl) passed⟩
    | _ => exact Or.inl ⟨_, _, rfl, Int.le_trans (alters _ _ rfl) passed⟩

theorem tick_passed {commits id : Nat} {s : SessionRow}
    (row : storeAfter pool.state.db.log commits .sessions id = some s) {event : Event}
    (member : event ∈ pool.state.hist) (seen : commits ≤ event.commits) :
    s.lastTick ≤ event.time := by
  have bound := ((reached_ready reached).truthful event member).bound
  refine tick_bounded reached (Nat.le_trans seen bound) row fun commit listed early => ?_
  obtain ⟨pos, found⟩ := List.mem_iff_getElem?.mp listed
  obtain ⟨pos', found'⟩ := List.mem_iff_getElem?.mp member
  have ordered := commits_order (reached_timeline reached) found found' (by omega)
  exact (history_order (reached_timeline reached) ordered found found').time

theorem tick_now {commits id : Nat} {s : SessionRow} (bound : commits ≤ pool.state.db.log.length)
    (row : storeAfter pool.state.db.log commits .sessions id = some s) :
    s.lastTick ≤ pool.state.clock :=
  tick_bounded reached bound row fun commit listed _ =>
    ((reached_timeline reached).past commit listed).time

end Stamps

/-! The drift over a stretch of the log. -/

/-- No connect reconnects the session from block `first` on and before `last`. -/
def Unreconnected (world : World) (session first last : Nat) : Prop :=
  ∀ (index thread : Nat) (acts : List Entry) (ip token : Text) (now : Time), first ≤ index →
    index < last → world.db.log[index]? = some (thread, acts) →
      alter .sessions session (.refresh ip token) now ∉ acts

/-- Date.now() and now() agree in each pass that charges the session meanwhile. -/
def Agreeing (world : World) (session first last : Nat) : Prop :=
  ∀ span, ChargedFor world session span → first ≤ span.index → span.index < last →
    span.began = span.stop

/-- How often the session is settled from block `first` on and before `last`. -/
def settledBetween (world : World) (session first last : Nat) : Nat :=
  settlements session (((world.db.log.take last).drop first).flatMap (·.2))

theorem settledBetween_succ {world : World} {session first index thread : Nat} {acts : List Entry}
    (low : first ≤ index) (block : world.db.log[index]? = some (thread, acts)) :
    settledBetween world session first (index + 1) =
      settledBetween world session first index + settlements session acts := by
  unfold settledBetween
  rw [List.take_add_one, block, Option.toList_some, List.drop_append_of_le_length,
    List.flatMap_append, settlements_append]
  · simp
  · rw [List.length_take]
    have within := event_bound block
    omega

/-- The pass meets the session online at `date` and commits. It has locked the row
`before`, when `index` blocks were committed, and leaves `after`. -/
structure Ticked (world : World) (session index thread : Nat) (date : Time)
    (before after : SessionRow) : Prop where
  tick : world.arrivals[thread]? = some .tick
  locked : ∃ lock ∈ world.hist, lock.thread = thread ∧
    lock.done = ⟨.lock .sessions session, .ok (some before)⟩ ∧ lock.commits = index
  active : before.status = .active
  looked : Looked (pastOf world.hist thread) date
  online : ∃ clients, Reported (pastOf world.hist thread) clients ∧
    isOnline (authedClients clients) (toLowerCase before.deviceMac) = true
  committed : ∃ commit ∈ world.hist, commit.thread = thread ∧ Lands commit.done ∧
    commit.view.rows .sessions session = some after

theorem elapsed_near {date lastTick : Int} (passed : lastTick ≤ date) :
    |1000 * (elapsedSeconds date lastTick : Int) - (date - lastTick)| ≤ 500 := by
  unfold elapsedSeconds
  rw [abs_le]
  constructor <;> omega

section Drift
variable {config : Config} {pool : ServerPool} (reached : Reached config pool)
  {session first last : Nat} {start s : SessionRow}
include reached

theorem drift_bounded (ordered : first ≤ last) (bound : last ≤ pool.state.db.log.length)
    (row : storeAfter pool.state.db.log first .sessions session = some start)
    (unreconnected : Unreconnected pool.state session first last)
    (agreeing : Agreeing pool.state session first last)
    (left : storeAfter pool.state.db.log last .sessions session = some s) :
    |1000 * ((s.secondsConsumed : Int) - start.secondsConsumed) - (s.lastTick - start.lastTick)| ≤
      500 * (settledBetween pool.state session first last : Int) := by
  have legit := reached_legit reached
  have drifted : ∃ s : SessionRow, storeAfter pool.state.db.log last .sessions session = some s ∧
      |1000 * ((s.secondsConsumed : Int) - start.secondsConsumed) -
        (s.lastTick - start.lastTick)| ≤
          500 * (settledBetween pool.state session first last : Int) := by
    refine log_stretch legit (fun index => ∃ s : SessionRow,
      storeAfter pool.state.db.log index .sessions session = some s ∧
        |1000 * ((s.secondsConsumed : Int) - start.secondsConsumed) -
          (s.lastTick - start.lastTick)| ≤
            500 * (settledBetween pool.state session first index : Int))
      ordered bound ⟨start, row, by simp⟩ ?_
    rintro index thread acts call low high block _ lawful next ⟨before, present, near⟩
    obtain ⟨after, left, _⟩ := row_same legit (by simp) (by simp) (Nat.le_succ index)
      (event_bound block) present
    refine ⟨after, left, ?_⟩
    rw [settledBetween_succ low block]
    push_cast
    by_cases settles : ∃ elapsed now, alter .sessions session (.settle elapsed) now ∈ acts
    · obtain ⟨elapsed, now, member⟩ := settles
      obtain ⟨span, charge, here, began⟩ := settled_charge reached block member
      have forward := charged_forward reached charge
      have agree := agreeing span charge (here ▸ low) (here ▸ high)
      obtain ⟨_, ⟨thread', acts', block', settled⟩, _⟩ := charged_pass reached charge
      obtain ⟨⟨_, _, _, tickBlock, tick, _⟩, s', present', lastTick⟩ := charge
      rw [here] at block' present' tickBlock
      cases block.symm.trans block'
      cases block.symm.trans tickBlock
      rw [present, Option.some.injEq] at present'
      subst present'
      have once := block_once reached block tick session
      have one : settlements session acts = 1 := Nat.le_antisymm once (settles_counted settled)
      have used := settled_exact lawful present left block settled once
      have stamped := restart_tick reached block settled trivial left
      have close := elapsed_near (Int.le_of_lt forward)
      rw [used, stamped, agree, one]
      push_cast
      rw [abs_le] at near close ⊢
      rw [lastTick] at near
      constructor <;> linarith [near.1, near.2, close.1, close.2]
    · have none' : settlements session acts = 0 := by
        refine Nat.eq_zero_of_not_pos fun counted => settles ?_
        exact counted_settles counted
      have used := unsettled_kept lawful present ((storeAfter_succ _ _ _ block) ▸ left) none'
      have stays := unrestarted_tick reached block (by
        intro op time member restarts
        cases op with
        | settle elapsed => exact settles ⟨elapsed, time, member⟩
        | refresh ip token =>
            exact unreconnected index thread acts ip token time low high block member
        | finish status => exact restarts) present left
      rw [used, stays, none']
      simpa using near
  obtain ⟨s', left', near⟩ := drifted
  rw [left, Option.some.injEq] at left'
  exact left' ▸ near

variable {index thread : Nat} {date : Time} {before after : SessionRow}

theorem pass_block {commitAt : Nat} {commit : Event}
    (tick : pool.state.arrivals[thread]? = some .tick)
    (committed : pool.state.hist[commitAt]? = some commit) (own : commit.thread = thread)
    (lands : Lands commit.done) (wrote : commit.pending ≠ []) :
    pool.state.db.log[commit.commits]? = some (thread, commit.pending) := by
  obtain ⟨entry, member⟩ := List.exists_mem_of_ne_nil _ wrote
  obtain ⟨writeAt, write, _, found, own', wrote, _⟩ :=
    (reached_chronicle reached).pending commitAt commit committed entry member
  obtain ⟨call, called, may⟩ := reached_mayDo reached write (List.mem_of_getElem? found)
  rw [own', own, tick, Option.some.injEq] at called
  subst called
  have kept : entry.table ≠ .plans := by
    cases wrote with
    | update =>
        rintro rfl
        simp [Call.mayDo, Call.tables] at may
    | insert | delete => simp [Call.mayDo, Call.tables, Call.inserts] at may
  exact own ▸ pending_committed reached committed lands member kept

theorem ticked_exact (ticked : Ticked pool.state session index thread date before after) :
    storeAfter pool.state.db.log index .sessions session = some before ∧
      before.lastTick ≤ date ∧
      after.secondsConsumed = before.secondsConsumed + elapsedSeconds date before.lastTick := by
  obtain ⟨tick, ⟨lock, listed, ownLock, sameLock, here⟩, active, looked,
    ⟨clients, reported, online⟩, commit, listed', own, lands, leaves⟩ := ticked
  have legit := reached_legit reached
  have cmd : commit.cmd = .commit := lands_commit lands
  obtain ⟨lockAt, foundLock⟩ := List.mem_iff_getElem?.mp listed
  obtain ⟨commitAt, committed⟩ := List.mem_iff_getElem?.mp listed'
  have locked : ⟨.lock .sessions session, .ok (some before)⟩ ∈ pastOf pool.state.hist thread :=
    mem_pastOf.mpr ⟨lock, listed, ownLock, sameLock⟩
  have stored := locked_stored reached tick foundLock ownLock sameLock
  obtain ⟨_, _, _, _, _, _, _, row⟩ := locked_until reached tick committed own cmd locked
  have passed : before.lastTick ≤ date := by
    obtain ⟨look, listedLook, ownLook, sameLook⟩ := mem_pastOf.mp looked
    obtain ⟨lookAt, foundLook⟩ := List.mem_iff_getElem?.mp listedLook
    have later := locked_looked reached tick foundLock ownLock sameLock foundLook ownLook sameLook
    have grown := (history_order (reached_timeline reached) later foundLock foundLook).commits
    rw [← date_time reached listedLook sameLook]
    exact tick_passed reached stored listedLook grown
  refine ⟨here ▸ stored, passed, ?_⟩
  have truthful := (reached_ready reached).truthful commit listed'
  rw [truthful.rows] at leaves
  by_cases positive : 0 < elapsedSeconds date before.lastTick
  · have owing : Owing (pastOf pool.state.hist thread) session
        (elapsedSeconds date before.lastTick) before :=
      ⟨clients, date, reported, ⟨locked, active⟩, looked, online, rfl, positive⟩
    obtain ⟨block, now, member⟩ := owing_committed reached committed own lands tick owing
    obtain ⟨call, _, lawful⟩ := block_lawful legit block
    have left : storeAfter pool.state.db.log (commit.commits + 1) .sessions session =
        some after := by
      rw [storeAfter_succ _ _ _ block]
      exact leaves
    exact settled_exact lawful row left block member (block_once reached block tick session)
  · have nothing : elapsedSeconds date before.lastTick = 0 := Nat.eq_zero_of_not_pos positive
    rw [nothing, Nat.add_zero]
    by_cases wrote : commit.pending = []
    · rw [wrote, replay_nil, row, Option.some.injEq] at leaves
      rw [leaves]
    · have block := pass_block reached tick committed own lands wrote
      obtain ⟨call, _, lawful⟩ := block_lawful legit block
      refine unsettled_kept lawful row leaves ?_
      refine Nat.eq_zero_of_not_pos fun counted => positive ?_
      obtain ⟨elapsed, now, member⟩ := counted_settles counted
      obtain ⟨s, _, date', _, ⟨locked', _⟩, looked', _, same, some'⟩ :=
        settled_owing reached block tick member
      obtain ⟨_, _, _, _, _, _, _, row'⟩ := locked_until reached tick committed own cmd locked'
      rw [row, Option.some.injEq] at row'
      subst row'
      rwa [looked_once reached tick looked looked', ← same]

end Drift

/-- Whatever passes a session has been through, what it has used is off by half a
second at most for each settlement and for the latest pass. -/
theorem rounding_bounded (config : Config) (pool : ServerPool) (reached : Reached config pool)
    (session first index thread : Nat) (date : Time) (start before after : SessionRow)
    (row : storeAfter pool.state.db.log first .sessions session = some start)
    (ticked : Ticked pool.state session index thread date before after) (ordered : first ≤ index)
    (unreconnected : Unreconnected pool.state session first index)
    (agreeing : Agreeing pool.state session first index) :
    |1000 * ((after.secondsConsumed : Int) - start.secondsConsumed) - (date - start.lastTick)| ≤
      500 * (settledBetween pool.state session first index + 1 : Int) := by
  obtain ⟨present, passed, used⟩ := ticked_exact reached ticked
  have bound : index ≤ pool.state.db.log.length := by
    obtain ⟨lock, listed, _, _, here⟩ := ticked.locked
    exact here ▸ ((reached_ready reached).truthful lock listed).bound
  have drifted := drift_bounded reached ordered bound row unreconnected agreeing present
  have close := elapsed_near passed
  rw [used]
  push_cast
  rw [abs_le] at drifted close ⊢
  constructor <;> linarith [drifted.1, drifted.2, close.1, close.2]

/-- The pass meets the session online, and its two rows look like this. -/
def ticks (pool : ServerPool) (session index thread : Nat) (date : Time)
    (look : SessionRow → SessionRow → Bool) : Bool :=
  (pastOf pool.state.hist thread).any (looksAt date) &&
  pool.state.hist.any fun lock => lock.thread == thread && lock.commits == index &&
    match lock.done with
    | ⟨.lock .sessions id, .ok (some (before : SessionRow))⟩ =>
        id == session && before.status == .active &&
        (pastOf pool.state.hist thread).any (fun done =>
          match done with
          | ⟨.ndsctl .json, .ok clients⟩ =>
              isOnline (authedClients clients) (toLowerCase before.deviceMac)
          | _ => false) &&
        pool.state.hist.any fun commit => commit.thread == thread &&
          (match commit.done with
          | ⟨.commit, .ok _⟩ => true
          | _ => false) &&
          (commit.view.rows .sessions session).any fun after : SessionRow => look before after
    | _ => false

theorem ticks_ticked {pool : ServerPool} {session index thread : Nat} {date : Time}
    {look : SessionRow → SessionRow → Bool}
    (tick : pool.state.arrivals[thread]? = some .tick)
    (seen : ticks pool session index thread date look = true) : ∃ before after,
      Ticked pool.state session index thread date before after ∧ look before after = true := by
  rw [ticks, Bool.and_eq_true, List.any_eq_true, List.any_eq_true] at seen
  obtain ⟨⟨done, looked, looks⟩, lock, listed, locks⟩ := seen
  obtain rfl := looksAt_done looks
  simp only [Bool.and_eq_true, beq_iff_eq] at locks
  obtain ⟨⟨own, here⟩, locks⟩ := locks
  split at locks
  · rename_i id before same
    simp only [Bool.and_eq_true, beq_iff_eq, List.any_eq_true, Option.any_eq_true] at locks
    obtain ⟨⟨⟨rfl, active⟩, report, reported, online⟩, commit, listed', ⟨own', commits⟩, after, row,
      looks⟩ := locks
    refine ⟨before, after, ⟨tick, ⟨lock, listed, own, same, here⟩, active, looked, ?_,
      commit, listed', own', ?_, row⟩, looks⟩
    · split at online
      · exact ⟨_, reported, online⟩
      · cases online
    · split at commits
      · rename_i _ same'
        exact ⟨_, .answered, same'⟩
      · cases commits
  · cases locks

/-- Passes every 15.4 seconds: the interval and a pass's own time. -/
def slowPasses : List (Move Choice Call Ambient) :=
  arrival ++ [.start (.connect guest phone)] ++ steps 2 10 ++
    [.ambient (.elapse 15400), .start .tick] ++ steps 3 13 ++
    [.ambient (.elapse 15400), .start .tick] ++ steps 4 13 ++
    [.ambient (.elapse 15400), .start .tick] ++ steps 5 13

theorem slow_passes : ∃ pool start before after, Reached shop pool ∧
    storeAfter pool.state.db.log 4 .sessions 1 = some start ∧ start.lastTick = 0 ∧
    start.secondsConsumed = 0 ∧ Ticked pool.state 1 6 5 46200 before after ∧
    after.secondsConsumed = 45 ∧ Unreconnected pool.state 1 4 6 ∧ Agreeing pool.state 1 4 6 := by
  obtain ⟨pool, reached, arrivals, seen⟩ := play_shows shop slowPasses
    (fun pool => ((storeAfter pool.state.db.log 4 .sessions 1).any fun start : SessionRow =>
        start.lastTick == 0 && start.secondsConsumed == 0) &&
      ticks pool 1 6 5 46200 (fun _ after => after.secondsConsumed == 45) &&
      settlesFor pool 1 3 15 ⟨4, 0, 15400, 15400⟩ &&
      settlesFor pool 1 4 15 ⟨5, 15400, 30800, 30800⟩ &&
      !pool.state.db.log.any fun block => block.2.any refreshes) true (by decide +kernel)
  simp only [Bool.and_eq_true, Bool.not_eq_true', beq_iff_eq, Option.any_eq_true] at seen
  obtain ⟨⟨⟨⟨⟨start, row, opened, fresh⟩, ticked⟩, first⟩, second⟩, unrefreshed⟩ := seen
  obtain ⟨before, after, ticked, used⟩ := ticks_ticked (by rw [arrivals]; rfl) ticked
  rw [beq_iff_eq] at used
  refine ⟨pool, start, before, after, reached, row, opened, fresh, ticked, used, ?_, ?_⟩
  · intro index thread acts ip token now _ _ block member
    have listed := List.any_eq_false.mp unrefreshed _ (List.mem_of_getElem? block)
    exact listed (List.any_eq_true.mpr ⟨_, member, rfl⟩)
  · intro span charge low high
    have charge' : ∃ other, ChargedFor pool.state 1 other ∧ other.index = span.index ∧
        other.began = other.stop := by
      have either : span.index = 4 ∨ span.index = 5 := by omega
      rcases either with here | here
      · exact ⟨_, settlesFor_charged (by rw [arrivals]; rfl) first, here.symm, rfl⟩
      · exact ⟨_, settlesFor_charged (by rw [arrivals]; rfl) second, here.symm, rfl⟩
    obtain ⟨other, charge', here, agree⟩ := charge'
    obtain ⟨stop, began⟩ := charged_once reached charge charge' here.symm
    rw [stop, began, agree]

theorem rounding_bounded_slow : ∃ pool start before after, Reached shop pool ∧
    Ticked pool.state 1 6 5 46200 before after ∧
    |1000 * ((after.secondsConsumed : Int) - SessionRow.secondsConsumed start) -
      (46200 - SessionRow.lastTick start)| ≤ 500 * (settledBetween pool.state 1 4 6 + 1 : Int) := by
  obtain ⟨pool, start, before, after, reached, row, _, _, ticked, _, unreconnected, agreeing⟩ :=
    slow_passes
  exact ⟨pool, start, before, after, reached, ticked, rounding_bounded shop pool
    reached 1 4 6 5 46200 start before after row ticked (by decide) unreconnected agreeing⟩

/-- Three passes lose 1.2 seconds. -/
theorem rounding_drifts : ∃ pool start before after, Reached shop pool ∧
    storeAfter pool.state.db.log 4 .sessions 1 = some start ∧
    Ticked pool.state 1 6 5 46200 before after ∧ Unreconnected pool.state 1 4 6 ∧
    Agreeing pool.state 1 4 6 ∧
    ¬ |1000 * ((after.secondsConsumed : Int) - start.secondsConsumed) -
      (46200 - start.lastTick)| < 1000 := by
  obtain ⟨pool, start, before, after, reached, row, opened, fresh, ticked, used, unreconnected,
    agreeing⟩ := slow_passes
  refine ⟨pool, start, before, after, reached, row, ticked, unreconnected, agreeing, ?_⟩
  rw [used, fresh, opened]
  decide

end Cybera
