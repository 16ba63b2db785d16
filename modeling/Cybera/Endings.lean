import Cybera.Metering
import Cybera.Reauthorised

/-!
What has been charged for a session when it ends. Only a pass settles; a kick, a
takeover and the end of a session that the pass did not meet online leave the
time since last_tick unpaid.
-/

namespace Cybera

open Interleaving

/-- The block takes the session out of 'active'; `ended` is its now(). -/
structure Ended (world : World) (index thread session : Nat) (acts : List Entry)
    (before after : SessionRow) (ended : Time) : Prop where
  block : world.db.log[index]? = some (thread, acts)
  row : storeAfter world.db.log index .sessions session = some before
  active : before.status = .active
  ends : ∃ status, alter .sessions session (.finish status) ended ∈ acts
  left : storeAfter world.db.log (index + 1) .sessions session = some after

/-- Some step of the thread before the block's COMMIT found the client
authenticated. -/
def StillOnline (world : World) (index thread : Nat) (mac : Text) : Prop :=
  ∃ event ∈ world.hist, event.thread = thread ∧ event.commits ≤ index ∧
    isAuthed mac event.view.clients = true

/-- The block that ends the session has added the time since its last_tick, up
to the rounding of a settlement, and charged the owner for it. -/
structure PaidOff (session : Nat) (before after : SessionRow) (acts : List Entry) (ended : Time) :
    Prop where
  covered : ended - before.lastTick ≤
    1000 * ((after.secondsConsumed : Int) - before.secondsConsumed) + 500 * settlements session acts
  balance : before.secondsConsumed + charged before.userId session acts = after.secondsConsumed

/-- No time has passed since last_tick, or a pass ends the session that has
locked it, has its client in the snapshot and half a second to settle. -/
def NothingLost (world : World) (thread session : Nat) (before : SessionRow) (ended : Time) :
    Prop :=
  ended ≤ before.lastTick ∨ world.arrivals[thread]? = some .tick ∧
    ∃ elapsed s, Owing (pastOf world.hist thread) session elapsed s

section Acts
variable {session : Nat} {acts : List Entry}

theorem settles_counted {elapsed : Nat} {now : Time}
    (member : alter .sessions session (.settle elapsed) now ∈ acts) :
    0 < settlements session acts :=
  List.count_pos_iff.mpr (List.mem_filterMap.mpr ⟨_, member, rfl⟩)

theorem counted_settles (counted : 0 < settlements session acts) :
    ∃ elapsed now, alter .sessions session (.settle elapsed) now ∈ acts := by
  obtain ⟨⟨table, id, act⟩, member, found⟩ := List.mem_filterMap.mp (List.count_pos_iff.mp counted)
  unfold settleOf at found
  split at found
  · rename_i same
    cases same
    cases found
    exact ⟨_, _, member⟩
  · cases found

theorem settlements_added {store : Store} {s after : SessionRow}
    (alters : ∀ entry ∈ acts, entry.table = .sessions → entry.id = session →
      ∃ op now, entry = alter .sessions session op now ∧ ∀ elapsed, op = .settle elapsed →
        0 < elapsed)
    (present : store .sessions session = some s)
    (left : replay acts store .sessions session = some after) :
    s.secondsConsumed + settlements session acts ≤ after.secondsConsumed := by
  induction acts generalizing store s with
  | nil =>
      rw [replay_nil, present, Option.some.injEq] at left
      subst left
      exact Nat.le_refl _
  | cons entry rest ih =>
      have alters' := fun other member => alters other (List.mem_cons_of_mem entry member)
      rw [replay_cons] at left
      have split : settlements session ([entry] ++ rest) =
          settlements session [entry] + settlements session rest := settlements_append
      rw [List.singleton_append] at split
      rw [split]
      by_cases hit : TableName.sessions = entry.table ∧ session = entry.id
      · obtain ⟨op, now, rfl, positive⟩ := alters entry (by simp) hit.1.symm hit.2.symm
        have moved : RowLock.runEntry Act.run store (alter .sessions session op now) .sessions
            session = some (SessionOp.run now op s) := by
          rw [alter_same, present]
          rfl
        have later := ih alters' moved left
        cases op with
        | settle elapsed =>
            have added : (SessionOp.run now (.settle elapsed) s).secondsConsumed =
              s.secondsConsumed + elapsed := rfl
            have one : settlements session [alter .sessions session (.settle elapsed) now] = 1 := by
              simp [settlements, settleOf, alter]
            have least := positive elapsed rfl
            omega
        | refresh | finish =>
            have none' : ∀ op : SessionOp, (∀ elapsed, op ≠ .settle elapsed) →
                settlements session [alter .sessions session op now] = 0 := by
              intro op other
              cases op with
              | settle elapsed => exact absurd rfl (other elapsed)
              | refresh | finish => rfl
            rw [none' _ (by simp), Nat.zero_add]
            exact later
      · have none' : settlements session [entry] = 0 := by
          refine Nat.eq_zero_of_not_pos fun counted => hit ?_
          obtain ⟨elapsed, now, member⟩ := counted_settles counted
          rw [List.mem_singleton] at member
          subst member
          exact ⟨rfl, rfl⟩
        have kept : RowLock.runEntry Act.run store entry .sessions session = some s := by
          rwa [RowLock.runEntry_other _ _ _ _ _ hit]
        have later := ih alters' kept left
        omega

end Acts

section Blocks
variable {config : Config} {world : World} {index thread session : Nat} {call : Call}
  {acts : List Entry} {before after : SessionRow} {ended : Time}

theorem settled_call {elapsed : Nat} {now : Time}
    (lawful : Lawful config (world.basisAt index) thread call acts)
    (member : alter .sessions session (.settle elapsed) now ∈ acts) : call = .tick := by
  have entry := lawful_sessions lawful _ member rfl
  generalize same : alter .sessions session (.settle elapsed) now = settles at entry
  cases entry with
  | settled => rfl
  | _ => cases same

theorem settled_tick {elapsed : Nat} {now : Time}
    (lawful : Lawful config (world.basisAt index) thread .tick acts)
    (row : storeAfter world.db.log index .sessions session = some before)
    (left : replay acts (storeAfter world.db.log index) .sessions session = some after)
    (member : alter .sessions session (.settle elapsed) now ∈ acts) : after.lastTick = now := by
  have alters : AltersAt .sessions session acts :=
    lawful_alters lawful (by simp) (by simp) (by simp [row])
  cases lawful with
  | nothing => cases member
  | tick ordered pass =>
      obtain rfl := (settled_now pass member).1
      obtain ⟨first, rest, rfl⟩ := List.append_of_mem member
      have earlier : AltersAt .sessions session first :=
        fun entry listed => alters entry (List.mem_append_left _ listed)
      have later : AltersAt .sessions session rest :=
        fun entry listed => alters entry (List.mem_append_right _ (List.mem_cons_of_mem _ listed))
      obtain ⟨middle, found, _⟩ := replay_same _ .sessions session first earlier row
      rw [replay_append, replay_cons] at left
      have moved : RowLock.runEntry Act.run (replay first (storeAfter world.db.log index))
          (alter .sessions session (.settle elapsed) now) .sessions session =
            some (SessionOp.run now (.settle elapsed) middle) := by
        rw [alter_same, found]
        rfl
      have kept : ∃ final, replay rest (RowLock.runEntry Act.run (replay first
          (storeAfter world.db.log index)) (alter .sessions session (.settle elapsed) now))
            .sessions session = some final ∧ final.lastTick = now := by
        refine replay_acts _ .sessions session (fun row => row.lastTick = now) later ?_ moved rfl
        intro op time row listed kept
        have whole := settled_now pass (List.mem_append_right first (List.mem_cons_of_mem _ listed))
        cases op with
        | settle => exact whole.1
        | refresh ip token => exact absurd rfl (whole.2.1 ip token)
        | finish => exact kept
      obtain ⟨final, left', tick⟩ := kept
      rw [left, Option.some.injEq] at left'
      exact left' ▸ tick

theorem ended_paid (lawful : Lawful config (world.basisAt index) thread call acts)
    (row : storeAfter world.db.log index .sessions session = some before)
    (left : replay acts (storeAfter world.db.log index) .sessions session = some after)
    {status : SessionStatus} (ends : alter .sessions session (.finish status) ended ∈ acts) :
    Paid session before after acts := by
  obtain ⟨after', left', paid⟩ := block_paid lawful row (by
    intro ip token now member
    obtain ⟨device, devices, rfl⟩ := refresh_block lawful member
    rcases List.mem_append.mp ends with other | latest
    · cases devices _ other
    · cases List.mem_singleton.mp latest)
  rw [left, Option.some.injEq] at left'
  exact left' ▸ paid

theorem session_added (lawful : Lawful config (world.basisAt index) thread call acts)
    (row : storeAfter world.db.log index .sessions session = some before)
    (left : replay acts (storeAfter world.db.log index) .sessions session = some after) :
    before.secondsConsumed + settlements session acts ≤ after.secondsConsumed := by
  refine settlements_added ?_ row left
  rintro entry member table rfl
  cases lawful_sessions lawful entry member table with
  | settled _ _ positive =>
      exact ⟨_, _, rfl, by rintro _ ⟨rfl⟩; exact positive⟩
  | opened absent => cases row.symm.trans absent
  | _ => exact ⟨_, _, rfl, by simp⟩

theorem unsettled_kept (lawful : Lawful config (world.basisAt index) thread call acts)
    (row : storeAfter world.db.log index .sessions session = some before)
    (left : replay acts (storeAfter world.db.log index) .sessions session = some after)
    (unsettled : settlements session acts = 0) :
    after.secondsConsumed = before.secondsConsumed := by
  have kept : ∃ final, replay acts (storeAfter world.db.log index) .sessions session = some final ∧
      final.secondsConsumed = before.secondsConsumed := by
    refine replay_acts _ .sessions session (fun row => row.secondsConsumed = before.secondsConsumed)
      (lawful_alters lawful (by simp) (by simp) (by simp [row])) ?_ row rfl
    intro op time row member same
    cases op with
    | settle elapsed => exact absurd (settles_counted member) (by simp [unsettled])
    | refresh | finish => exact same
  obtain ⟨final, left', same⟩ := kept
  rw [left, Option.some.injEq] at left'
  exact left' ▸ same

theorem absent_uncharged (lawful : Lawful config (world.basisAt index) thread call acts)
    (absent : storeAfter world.db.log index .sessions session = none) (user : Nat) :
    charged user session acts = 0 := by
  by_cases users : TableName.users ∈ call.tables
  · by_cases sessions : TableName.sessions ∈ call.tables
    · cases lawful with
      | nothing => rfl
      | @tick began date _ ordered pass =>
          clear users sessions
          induction pass with
          | nothing => rfl
          | @settled earlier device id row account before held active owner positive devices ih =>
              have other : id ≠ session := by
                rintro rfl
                cases absent.symm.trans held
              rw [charged_append, pair_charged _ _ _ _ _ _ devices, ih,
                if_neg fun both => other both.2]
          | vanished before row active late ih => rw [charged_append, ih]; rfl
          | exhausted before asked member ih => rw [charged_append, ih]; rfl
      | _ => simp [Call.tables] at sessions users
    · exact (lawful_unpaid lawful sessions user).2
  · have charges : ∀ entry ∈ acts, chargeOf entry = none := by
      intro entry member
      have listed := lawful_tables lawful entry member
      obtain ⟨table, id, act⟩ := entry
      cases table <;> first | rfl | exact absurd listed users
    have taken : acts.filterMap chargeOf = [] := List.filterMap_eq_nil_iff.mpr charges
    simp [charged, taken]

theorem opened_unused (lawful : Lawful config (world.basisAt index) thread call acts)
    (absent : storeAfter world.db.log index .sessions session = none)
    (made : replay acts (storeAfter world.db.log index) .sessions session = some after) :
    after.secondsConsumed = 0 := by
  refine replay_made _ .sessions session (fun row => row.secondsConsumed = 0)
    (fun op _ => ∀ elapsed, op ≠ .settle elapsed) ?_ acts ?_ (by simp [absent]) made
  · intro op now row unsettled unused
    cases op with
    | settle elapsed => exact absurd rfl (unsettled elapsed)
    | refresh | finish => exact unused
  · rintro entry member table rfl
    cases lawful_sessions lawful entry member table with
    | settled present => cases absent.symm.trans present
    | opened => exact Or.inr ⟨_, rfl, rfl⟩
    | _ => exact Or.inl ⟨_, _, rfl, by simp⟩

end Blocks

section Runs
variable {config : Config} {pool : ServerPool} (reached : Reached config pool)
include reached

theorem met_before {thread session pos : Nat} {s : SessionRow} {commit : Event}
    (committed : pool.state.hist[pos]? = some commit) (own : commit.thread = thread)
    (commits : commit.cmd = .commit) (tick : pool.state.arrivals[thread]? = some .tick)
    (met : Met (pastOf pool.state.hist thread) session s) :
    Met (pastOf (pool.state.hist.take pos) thread) session s := by
  obtain ⟨locked, active⟩ := met
  obtain ⟨event, member, own', same⟩ := mem_pastOf.mp locked
  obtain ⟨lockAt, found⟩ := List.mem_iff_getElem?.mp member
  have cmd : event.cmd = .lock .sessions session := congrArg Sigma.fst same
  refine ⟨mem_pastOf_take.mpr ⟨lockAt, event, ?_, found, own', same⟩, active⟩
  rcases Nat.lt_trichotomy lockAt pos with low | rfl | high
  · exact low
  · rw [committed, Option.some.injEq] at found
    subst found
    cases commits.symm.trans cmd
  · have early := reached_inPass reached found own' tick
    rw [cmd] at early
    have closes : ¬ commit.cmd.Closes := early.1 commit.done
      (mem_pastOf_take.mpr ⟨pos, commit, high, committed, own, rfl⟩)
    rw [commits] at closes
    exact absurd trivial closes

theorem ended_pending {thread session pos : Nat} {commit : Event} {row : Option SessionRow}
    (committed : pool.state.hist[pos]? = some commit) (own : commit.thread = thread)
    (lands : Lands commit.done) (tick : pool.state.arrivals[thread]? = some .tick)
    (ended : ⟨.update .sessions session (.finish .ended), .ok row⟩ ∈
      pastOf (pool.state.hist.take pos) thread) :
    ∃ now, alter .sessions session (.finish .ended) now ∈ commit.pending := by
  have passed := reached_inPass reached committed own tick
  rw [show commit.cmd = .commit from lands_commit lands] at passed
  obtain ⟨writeAt, write, sooner, found, own', same⟩ := mem_pastOf_take.mp ended
  obtain ⟨row, rfl⟩ := Option.isSome_iff_exists.mp
    (pass_ends reached (own'.symm ▸ tick) found same)
  have unclosed : Unclosed pool.state.hist write.thread writeAt pos :=
    own'.symm ▸ unended_unclosed passed.1
  exact ⟨_, (reached_delivered reached writeAt pos write commit _ found (updated_wrote same)
    (by simp [alter]) committed (own.trans own'.symm) lands sooner unclosed).2⟩

theorem owing_committed {thread session elapsed pos : Nat} {s : SessionRow} {commit : Event}
    (committed : pool.state.hist[pos]? = some commit) (own : commit.thread = thread)
    (lands : Lands commit.done) (tick : pool.state.arrivals[thread]? = some .tick)
    (owing : Owing (pastOf pool.state.hist thread) session elapsed s) :
    pool.state.db.log[commit.commits]? = some (thread, commit.pending) ∧
      ∃ now, alter .sessions session (.settle elapsed) now ∈ commit.pending := by
  obtain ⟨clients, date, reported, met, looked, online, rfl, positive⟩ := owing
  have cmd : commit.cmd = .commit := lands_commit lands
  have passed := reached_inPass reached committed own tick
  rw [cmd] at passed
  obtain ⟨unended, _, ⟨clients', date', reported', looked', paidUp, _⟩, _⟩ := passed
  obtain rfl := reported_once reached tick reported (mem_pastOf_whole reported')
  obtain rfl := looked_once reached tick looked (mem_pastOf_whole looked')
  obtain ⟨row, settled⟩ := paidUp session s (met_before reached committed own cmd tick met) online
    positive
  obtain ⟨writeAt, write, sooner, found', own'', same'⟩ := mem_pastOf_take.mp settled
  obtain ⟨row, rfl⟩ := Option.isSome_iff_exists.mp
    (pass_settles reached (own''.symm ▸ tick) found' same')
  have unclosed : Unclosed pool.state.hist write.thread writeAt pos :=
    own''.symm ▸ unended_unclosed unended
  obtain ⟨block, pending⟩ := reached_delivered reached writeAt pos write _ _ found'
    (updated_wrote same') (by simp [alter]) committed (own.trans own''.symm) lands sooner unclosed
  exact ⟨own'' ▸ block, _, pending⟩

theorem owing_settled {index thread session elapsed : Nat} {acts : List Entry} {s : SessionRow}
    (block : pool.state.db.log[index]? = some (thread, acts))
    (tick : pool.state.arrivals[thread]? = some .tick)
    (owing : Owing (pastOf pool.state.hist thread) session elapsed s) :
    ∃ now, alter .sessions session (.settle elapsed) now ∈ acts := by
  obtain ⟨pos, answer, time, view, landed, committed⟩ :=
    (reached_chronicle reached).block index thread acts block
  exact (owing_committed reached committed rfl ⟨answer, landed, rfl⟩ tick owing).2

theorem settled_owing {index thread session elapsed : Nat} {acts : List Entry} {now : Time}
    (block : pool.state.db.log[index]? = some (thread, acts))
    (tick : pool.state.arrivals[thread]? = some .tick)
    (member : alter .sessions session (.settle elapsed) now ∈ acts) :
    ∃ s, Owing (pastOf pool.state.hist thread) session elapsed s := by
  obtain ⟨writeAt, commitAt, write, written⟩ :=
    block_written (reached_chronicle reached) block member
  obtain ⟨before, found, own, wrote, _, _⟩ := written
  have pass := reached_inPass reached found own tick
  cases wrote with
  | update =>
      obtain ⟨_, _, s, clients, date, reported, ⟨locked, active⟩, looked, rest⟩ := pass
      exact ⟨s, clients, date, mem_pastOf_whole reported, ⟨mem_pastOf_whole locked, active⟩,
        mem_pastOf_whole looked, rest⟩

variable {index thread session : Nat} {acts : List Entry} {before after : SessionRow} {ended : Time}

theorem ending_paid_iff (ending : Ended pool.state index thread session acts before after ended) :
    PaidOff session before after acts ended ↔
      NothingLost pool.state thread session before ended := by
  obtain ⟨block, row, active, ⟨status, ends⟩, left⟩ := ending
  obtain ⟨call, called, lawful⟩ := block_lawful (reached_legit reached) block
  rw [storeAfter_succ _ _ _ block] at left
  have added := session_added lawful row left
  obtain ⟨lag, balance⟩ := ended_paid lawful row left ends
  constructor
  · rintro ⟨covered, _⟩
    rcases Nat.eq_zero_or_pos (settlements session acts) with none' | some'
    · left
      rw [unsettled_kept lawful row left none', none'] at covered
      simpa using covered
    · right
      obtain ⟨elapsed, now, member⟩ := counted_settles some'
      obtain rfl := settled_call lawful member
      exact ⟨called, elapsed, settled_owing reached block called member⟩
  · rintro (past | ⟨tick, elapsed, s, owing⟩)
    · refine ⟨Int.le_trans (Int.sub_nonpos_of_le past) ?_, balance⟩
      omega
    · obtain ⟨now, member⟩ := owing_settled reached block tick owing
      rw [tick, Option.some.injEq] at called
      subst called
      have same : ended = now := by
        cases lawful with
        | nothing => cases member
        | tick ordered pass =>
            exact (settled_now pass ends).1.trans (settled_now pass member).1.symm
      rw [settled_tick lawful row left member, ← same] at lag
      exact ⟨lag, balance⟩

theorem settlements_within {commits : Nat} {s : SessionRow}
    (bound : commits ≤ pool.state.db.log.length)
    (present : storeAfter pool.state.db.log commits .sessions session = some s) :
    settlements session ((pool.state.db.log.take commits).flatMap (·.2)) ≤ s.secondsConsumed := by
  refine log_induction (reached_legit reached) (fun commits =>
    (storeAfter pool.state.db.log commits .sessions session = none →
      settlements session ((pool.state.db.log.take commits).flatMap (·.2)) = 0) ∧
    ∀ s : SessionRow, storeAfter pool.state.db.log commits .sessions session = some s →
      settlements session ((pool.state.db.log.take commits).flatMap (·.2)) ≤ s.secondsConsumed)
    ?_ ?_ commits bound |>.2 s present
  · exact ⟨fun _ => rfl, by simp [storeAfter]⟩
  intro index thread acts call found _ lawful next ih
  have grown : (pool.state.db.log.take (index + 1)).flatMap (·.2) =
      (pool.state.db.log.take index).flatMap (·.2) ++ acts := by
    simp [List.take_add_one, found]
  rw [grown, settlements_append, next]
  cases row : storeAfter pool.state.db.log index .sessions session with
  | none =>
      have none' : settlements session acts = 0 := by
        refine Nat.eq_zero_of_not_pos fun counted => ?_
        obtain ⟨elapsed, now, member⟩ := counted_settles counted
        generalize same : alter .sessions session (.settle elapsed) now = entry at member
        have listed := lawful_sessions lawful entry member (by rw [← same]; rfl)
        cases listed with
        | settled present active positive =>
            cases same
            cases row.symm.trans present
        | _ => cases same
      rw [ih.1 row, none']
      exact ⟨fun _ => rfl, fun s _ => Nat.zero_le _⟩
  | some before =>
      refine ⟨fun gone => ?_, fun s left => ?_⟩
      · have stays := lawful_alters lawful (by simp) (by simp) (Option.isSome_of_eq_some row)
        obtain ⟨_, left, _⟩ := replay_same _ .sessions session acts stays row
        cases gone.symm.trans left
      · have added := session_added lawful row left
        have earlier := ih.2 before row
        omega

theorem session_charged (unskipped : NothingSkipped pool.state) {commits : Nat} {s : SessionRow}
    (bound : commits ≤ pool.state.db.log.length)
    (present : storeAfter pool.state.db.log commits .sessions session = some s) :
    charged s.userId session ((pool.state.db.log.take commits).flatMap (·.2)) =
      s.secondsConsumed := by
  refine log_induction (reached_legit reached) (fun commits =>
    (storeAfter pool.state.db.log commits .sessions session = none → ∀ user,
      charged user session ((pool.state.db.log.take commits).flatMap (·.2)) = 0) ∧
    ∀ s : SessionRow, storeAfter pool.state.db.log commits .sessions session = some s →
      charged s.userId session ((pool.state.db.log.take commits).flatMap (·.2)) =
        s.secondsConsumed) ?_ ?_ commits bound |>.2 s present
  · exact ⟨fun _ _ => rfl, by simp [storeAfter]⟩
  intro index thread acts call found _ lawful next earlier
  obtain ⟨unused, used⟩ := earlier
  have grown : (pool.state.db.log.take (index + 1)).flatMap (·.2) =
      (pool.state.db.log.take index).flatMap (·.2) ++ acts := by
    simp [List.take_add_one, found]
  rw [grown, next]
  cases row : storeAfter pool.state.db.log index .sessions session with
  | none =>
      have free : ∀ user, charged user session
          ((pool.state.db.log.take index).flatMap (·.2) ++ acts) = 0 := by
        intro user
        rw [charged_append, unused row, absent_uncharged lawful row]
      refine ⟨fun _ => free, fun s left => ?_⟩
      rw [free, opened_unused lawful row left]
  | some before =>
      obtain ⟨after, left, _, balance⟩ := block_paid lawful row fun ip token now member =>
        unskipped index thread acts session ip token now before found member row
      obtain ⟨after', left', same⟩ := replay_same _ .sessions session acts
        (lawful_alters lawful (by simp) (by simp) (by simp [row])) row
      refine ⟨fun gone => absurd (gone.symm.trans left) (by simp), fun s final => ?_⟩
      rw [final, Option.some.injEq] at left left'
      subst left left'
      rw [charged_append, same.1, used before row, balance]

/-- When a session that loses nothing ends, its owner has been charged for two
thirds of its time at least. -/
theorem ended_charged (unskipped : NothingSkipped pool.state)
    (ending : Ended pool.state index thread session acts before after ended)
    (kept : NothingLost pool.state thread session before ended) :
    ended - before.startedAt ≤ 1500 * (charged before.userId session
      ((pool.state.db.log.take (index + 1)).flatMap (·.2)) : Int) := by
  obtain ⟨covered, _⟩ := (ending_paid_iff reached ending).mpr kept
  have bound := event_bound ending.block
  have earlier := session_covered reached unskipped (Nat.le_of_lt bound) ending.row
  have within := settlements_within reached (Nat.le_of_lt bound) ending.row
  obtain ⟨call, called, lawful⟩ := block_lawful (reached_legit reached) ending.block
  have left := ending.left
  rw [storeAfter_succ _ _ _ ending.block] at left
  have added := session_added lawful ending.row left
  obtain ⟨_, left', same⟩ := replay_same _ .sessions session acts
    (lawful_alters lawful (by simp) (by simp) (Option.isSome_of_eq_some ending.row)) ending.row
  rw [left, Option.some.injEq] at left'
  subst left'
  rw [← same.1, session_charged reached unskipped bound ending.left]
  have within' : (settlements session ((pool.state.db.log.take index).flatMap (·.2)) : Int) ≤
      before.secondsConsumed := by exact_mod_cast within
  have added' : (before.secondsConsumed : Int) + settlements session acts ≤
      after.secondsConsumed := by exact_mod_cast added
  linarith

end Runs

/-- Whoever ends a session has paid it off exactly when it has lost nothing by
then. If no session is ended online with time lost, each is paid for. -/
theorem ending_settles (config : Config) (pool : ServerPool) (reached : Reached config pool) :
    (∀ index thread session acts before after ended,
      Ended pool.state index thread session acts before after ended →
        (PaidOff session before after acts ended ↔
          NothingLost pool.state thread session before ended)) ∧
    (NothingSkipped pool.state →
      (∀ index thread session acts before after ended,
        Ended pool.state index thread session acts before after ended →
        StillOnline pool.state index thread before.deviceMac →
          NothingLost pool.state thread session before ended) →
      ∀ index thread session acts before after ended,
        Ended pool.state index thread session acts before after ended →
        StillOnline pool.state index thread before.deviceMac →
          ended - before.startedAt ≤ 1500 * (charged before.userId session
            ((pool.state.db.log.take (index + 1)).flatMap (·.2)) : Int)) := by
  constructor
  · intro index thread session acts before after ended ending
    exact ending_paid_iff reached ending
  · intro unskipped kept index thread session acts before after ended ending online
    exact ended_charged reached unskipped ending
      (kept index thread session acts before after ended ending online)

def opOf : Entry → Option (Nat × SessionOp × Time)
  | ⟨.sessions, session, .update op now⟩ => some (session, op, now)
  | _ => none

theorem opOf_alters {session : Nat} {acts : List Entry} {op : SessionOp} {now : Time}
    (found : acts.any (fun entry => opOf entry == some (session, op, now)) = true) :
    alter .sessions session op now ∈ acts := by
  obtain ⟨⟨table, id, act⟩, member, same⟩ := List.any_eq_true.mp found
  rw [beq_iff_eq] at same
  unfold opOf at same
  split at same
  · rename_i entry
    cases entry
    cases same
    exact member
  · cases same

/-- The block ends the session while its client is online, and looks like this. -/
def endsOnline (pool : ServerPool) (index thread session : Nat) (ended : Time)
    (look : SessionRow → SessionRow → List Entry → Bool) : Bool :=
  (pool.state.db.log[index]?).any fun block => block.1 == thread &&
    block.2.any (fun entry => opOf entry == some (session, .finish .ended, ended)) &&
    (storeAfter pool.state.db.log index .sessions session).any fun before : SessionRow =>
      before.status == .active && pool.state.hist.any (fun event => event.thread == thread &&
        decide (event.commits ≤ index) && isAuthed before.deviceMac event.view.clients) &&
      (storeAfter pool.state.db.log (index + 1) .sessions session).any fun after : SessionRow =>
        look before after block.2

theorem endsOnline_ends {pool : ServerPool} {index thread session : Nat} {ended : Time}
    {look : SessionRow → SessionRow → List Entry → Bool}
    (seen : endsOnline pool index thread session ended look = true) :
    ∃ acts before after, Ended pool.state index thread session acts before after ended ∧
      StillOnline pool.state index thread before.deviceMac ∧ look before after acts = true := by
  simp only [endsOnline, Option.any_eq_true, Bool.and_eq_true, beq_iff_eq] at seen
  obtain ⟨⟨_, acts⟩, block, ⟨rfl, ends⟩, before, row, ⟨active, online⟩, after, left, looks⟩ := seen
  refine ⟨acts, before, after, ⟨block, row, active, ⟨_, opOf_alters ends⟩, left⟩, ?_, looks⟩
  simpa [StillOnline, and_assoc] using online

/-- A pass charges the guest's last second and ends the session. -/
theorem ending_settles_exhausted : ∃ pool acts before after, Reached shop pool ∧
    Ended pool.state 4 3 1 acts before after 3600000 ∧
    StillOnline pool.state 4 3 before.deviceMac ∧ NothingLost pool.state 3 1 before 3600000 := by
  obtain ⟨pool, reached, _, seen⟩ := play_shows shop hourOver
    (fun pool => endsOnline pool 4 3 1 3600000 fun before after acts =>
      before.lastTick == 0 && before.secondsConsumed == 0 && after.secondsConsumed == 3600 &&
        charged before.userId 1 acts == 3600) true (by decide +kernel)
  obtain ⟨acts, before, after, ending, online, looks⟩ := endsOnline_ends seen
  simp only [Bool.and_eq_true, beq_iff_eq] at looks
  obtain ⟨⟨⟨tick, fresh⟩, consumed⟩, taken⟩ := looks
  refine ⟨pool, acts, before, after, reached, ending, online,
    ((ending_settles shop pool reached).1 _ _ _ _ _ _ _ ending).mp ⟨?_, ?_⟩⟩
  · rw [tick, fresh, consumed]
    have counted : (0 : Int) ≤ settlements 1 acts := Int.natCast_nonneg _
    push_cast
    linarith
  · rw [fresh, consumed, taken]

/-- Two accounts take the phone over from each other every 14 seconds. -/
def takeovers : List (Move Choice Call Ambient) :=
  arrival ++ [.start (.grant staff 1 anHour)] ++ steps 2 4 ++ [.start (.connect guest phone)] ++
    steps 3 10 ++ [.ambient (.elapse 14000), .start (.connect staff phone)] ++ steps 4 12 ++
    [.ambient (.elapse 14000), .start (.connect guest phone)] ++ steps 5 14

/-- The phone is online all the time, and neither account pays. -/
theorem takeovers_unpaid : ∃ pool, Reached shop pool ∧
    (∃ acts before after, Ended pool.state 5 4 1 acts before after 14000 ∧
      StillOnline pool.state 5 4 before.deviceMac ∧ ¬ PaidOff 1 before after acts 14000) ∧
    (∃ acts before after, Ended pool.state 6 5 2 acts before after 28000 ∧
      StillOnline pool.state 6 5 before.deviceMac ∧ ¬ PaidOff 2 before after acts 28000) ∧
    balanceOf pool.state.db.store 1 = 3600 ∧ balanceOf pool.state.db.store 2 = 3600 ∧
    pool.state.clock = 28000 ∧ isAuthed phoneMac pool.state.clients = true ∧
    pool.state.hist.any deauths = false := by
  obtain ⟨pool, reached, _, seen⟩ := play_shows shop takeovers
    (fun pool => endsOnline pool 5 4 1 14000 (fun before after acts => before.lastTick == 0 &&
        before.secondsConsumed == 0 && after.secondsConsumed == 0 && settlements 1 acts == 0) &&
      endsOnline pool 6 5 2 28000 (fun before after acts => before.lastTick == 14000 &&
        before.secondsConsumed == 0 && after.secondsConsumed == 0 && settlements 2 acts == 0) &&
      balanceOf pool.state.db.store 1 == 3600 && balanceOf pool.state.db.store 2 == 3600 &&
      pool.state.clock == 28000 && isAuthed phoneMac pool.state.clients &&
      !pool.state.hist.any deauths) true (by decide +kernel)
  simp only [Bool.and_eq_true, beq_iff_eq, Bool.not_eq_true'] at seen
  obtain ⟨⟨⟨⟨⟨⟨first, second⟩, staffs⟩, guests⟩, clock⟩, online⟩, undisturbed⟩ := seen
  refine ⟨pool, reached, ?_, ?_, staffs, guests, clock, online, undisturbed⟩
  · obtain ⟨acts, before, after, ending, still, looks⟩ := endsOnline_ends first
    simp only [Bool.and_eq_true, beq_iff_eq] at looks
    obtain ⟨⟨⟨tick, fresh⟩, consumed⟩, unsettled⟩ := looks
    refine ⟨acts, before, after, ending, still, fun paid => ?_⟩
    have covered := paid.covered
    rw [tick, fresh, consumed, unsettled] at covered
    exact absurd covered (by decide)
  · obtain ⟨acts, before, after, ending, still, looks⟩ := endsOnline_ends second
    simp only [Bool.and_eq_true, beq_iff_eq] at looks
    obtain ⟨⟨⟨tick, fresh⟩, consumed⟩, unsettled⟩ := looks
    refine ⟨acts, before, after, ending, still, fun paid => ?_⟩
    have covered := paid.covered
    rw [tick, fresh, consumed, unsettled] at covered
    exact absurd covered (by decide)

end Cybera
