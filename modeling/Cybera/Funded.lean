import Cybera.DeviceLimit
import Cybera.Endings

/-!
Whoever has an active session has time left, in every committed state. Opening a
session and charging an account to zero both take the account's row, and a pass
that has charged it to zero ends the account's sessions before its COMMIT.
-/

namespace Cybera

open Interleaving

/-- The account of every active session has something left. -/
def Funded (rows : Store) : Prop :=
  ∀ id, ∀ s : SessionRow, rows .sessions id = some s → s.status = .active →
    0 < balanceOf rows s.userId

/-! A session is opened by a transaction that has locked the account. -/

theorem survey_locked {user : Nat} {account : UserRow} {rest : List Nat}
    {kept : List (Nat × SessionRow)} {past : Past} (survey : Survey user account rest kept past) :
    ∃ newer older, past = newer ++ ⟨.lock .users user, .ok (some account)⟩ :: older ∧
      ∀ done ∈ newer, ¬ done.1.Closes := by
  induction survey with
  | @asked ids older => exact ⟨[_], older, rfl, by simp [Cmd.Closes]⟩
  | locked row survey ih =>
      obtain ⟨newer, older, rfl, open'⟩ := ih
      refine ⟨_ :: newer, older, rfl, fun done member => ?_⟩
      rcases List.mem_cons.mp member with rfl | earlier
      · exact id
      · exact open' done earlier
  | quiet answer still survey ih =>
      obtain ⟨newer, older, rfl, open'⟩ := ih
      refine ⟨_ :: newer, older, rfl, fun done member => ?_⟩
      rcases List.mem_cons.mp member with rfl | earlier
      · exact still.1
      · exact open' done earlier

theorem pastOf_split {hist : List Event} {thread pos : Nat} {newer older : Past}
    {done : Done Cmd Res Failure}
    (split : pastOf (hist.take pos) thread = newer ++ done :: older) :
    ∃ (earlier : Nat) (event : Event), earlier < pos ∧ hist[earlier]? = some event ∧
      event.thread = thread ∧ event.done = done ∧
        ∀ (between : Nat) (other : Event), earlier < between → between < pos →
          hist[between]? = some other → other.thread = thread → other.done ∈ newer := by
  induction pos generalizing newer with
  | zero =>
      rw [List.take_zero] at split
      have nothing : ([] : Past) = newer ++ done :: older := split
      simp at nothing
  | succ pos ih =>
      have shorter : ∀ {newer : Past}, pastOf (hist.take pos) thread = newer ++ done :: older →
          (∀ other, hist[pos]? = some other → other.thread = thread → other.done ∈ newer) →
          ∃ (earlier : Nat) (event : Event), earlier < pos + 1 ∧ hist[earlier]? = some event ∧
            event.thread = thread ∧ event.done = done ∧
              ∀ (between : Nat) (other : Event), earlier < between → between < pos + 1 →
                hist[between]? = some other → other.thread = thread → other.done ∈ newer := by
        intro newer split here
        obtain ⟨earlier, event, before, found, own, same, rest⟩ := ih split
        refine ⟨earlier, event, Nat.lt_succ_of_lt before, found, own, same, ?_⟩
        intro between other low high found' own'
        rcases Nat.lt_succ_iff_lt_or_eq.mp high with less | rfl
        · exact rest between other low less found' own'
        · exact here other found' own'
      cases found : hist[pos]? with
      | none =>
          rw [List.take_add_one, found, Option.toList_none, List.append_nil] at split
          exact shorter split fun other found' => by rw [found] at found'; cases found'
      | some event =>
          rw [List.take_add_one, found, Option.toList_some] at split
          by_cases own : event.thread = thread
          · rw [pastOf_own own] at split
            cases newer with
            | nil =>
                rw [List.nil_append, List.cons.injEq] at split
                refine ⟨pos, event, Nat.lt_succ_self _, found, own, split.1, ?_⟩
                exact fun between _ low high => absurd (Nat.le_of_lt_succ high)
                  (Nat.not_le_of_lt low)
            | cons latest newer =>
                rw [List.cons_append, List.cons.injEq] at split
                obtain ⟨earlier, at', before, found', own', same, rest⟩ := ih split.2
                refine ⟨earlier, at', Nat.lt_succ_of_lt before, found', own', same, ?_⟩
                intro between other low high found'' own''
                rcases Nat.lt_succ_iff_lt_or_eq.mp high with less | rfl
                · exact List.mem_cons_of_mem _ (rest between other low less found'' own'')
                · rw [found, Option.some.injEq] at found''
                  subst found''
                  exact List.mem_cons.mpr (Or.inl split.1)
          · rw [pastOf_other own] at split
            refine shorter split fun other found' own' => ?_
            rw [found, Option.some.injEq] at found'
            exact absurd (found' ▸ own') own

section Blocks
variable {config : Config} {basis : Basis} {thread : Nat} {call : Call} {acts : List Entry}

theorem tick_charges (lawful : Lawful config basis thread .tick acts) :
    ∀ entry ∈ acts, entry.table = .users →
      ∃ user elapsed session now, entry = alter .users user (.charge elapsed session) now := by
  intro entry member users
  cases lawful with
  | nothing => cases member
  | tick ordered pass =>
      obtain device | ⟨id, elapsed, rfl⟩ | ⟨id, rfl⟩ | ⟨user, elapsed, session, rfl⟩ :=
        settled_entries pass entry member
      · cases users.symm.trans device
      · cases users
      · cases users
      · exact ⟨user, elapsed, session, _, rfl⟩

theorem others_uncharged (lawful : Lawful config basis thread call acts) (other : call ≠ .tick)
    (user elapsed session : Nat) (now : Time) :
    alter .users user (.charge elapsed session) now ∉ acts := by
  intro member
  have users := lawful_tables lawful _ member
  cases lawful with
  | tick => exact absurd rfl other
  | nothing => cases member
  | seedClients fresh =>
      obtain ⟨_, _, _, _, _, same⟩ := fresh _ member
      cases same
  | _ => simp_all [Call.tables, alter, create]

theorem balance_kept {world : World} {index user : Nat}
    (lawful : Lawful config (world.basisAt index) thread call acts)
    (uncharged : ∀ elapsed session now, alter .users user (.charge elapsed session) now ∉ acts)
    (funded : 0 < balanceOf (storeAfter world.db.log index) user) :
    0 < balanceOf (replay acts (storeAfter world.db.log index)) user := by
  unfold balanceOf at funded
  split at funded
  · rename_i account present
    obtain ⟨after, left, positive⟩ : ∃ after, replay acts (storeAfter world.db.log index) .users
        user = some after ∧ 0 < (after : UserRow).remainingSeconds := by
      refine replay_acts _ .users user (fun account : UserRow => 0 < account.remainingSeconds)
        (lawful_alters lawful (by simp) (by simp) (by simp [present])) ?_ present funded
      intro op now row member positive
      cases op with
      | credit seconds limit source =>
          exact Int.add_pos_of_pos_of_nonneg positive (Int.natCast_nonneg _)
      | charge elapsed session => exact absurd member (uncharged elapsed session now)
      | syncAdmin hash => exact positive
    simpa [balanceOf, left] using positive
  · cases funded

end Blocks

section Runs
variable {config : Config} {pool : ServerPool} (reached : Reached config pool)
include reached

theorem opened_takes {index thread id : Nat} {acts : List Entry} {row : SessionRow}
    (block : pool.state.db.log[index]? = some (thread, acts))
    (member : create .sessions id row ∈ acts) :
    ∃ (lockAt commitAt : Nat) (lock : Event) (answer : Except Failure Unit) (time : Time)
      (view : View), lockAt < commitAt ∧
      pool.state.hist[lockAt]? = some lock ∧ lock.thread = thread ∧
      lock.Takes .users row.userId ∧ Unclosed pool.state.hist thread lockAt commitAt ∧
      Landed answer ∧
      pool.state.hist[commitAt]? = some ⟨thread, .commit, answer, time, index, acts, view⟩ := by
  obtain ⟨writeAt, commitAt, write, written⟩ :=
    block_written (reached_chronicle reached) block member
  obtain ⟨before, found, own, wrote, unclosed, answer, time, view, landed, committed⟩ := written
  obtain ⟨call, called, may, room⟩ := reached_allowed call_room reached writeAt write found
  cases wrote with
  | @insert _ _ _ _ row' skip =>
      obtain ⟨user, dto, account, kept, rfl, mine, survey, _⟩ := room
      obtain ⟨newer, older, split, open'⟩ := survey_locked survey
      obtain ⟨lockAt, lock, low, foundLock, ownLock, same, rest⟩ := pastOf_split split
      refine ⟨lockAt, commitAt, lock, answer, time, view, Nat.lt_trans low before, foundLock,
        ownLock.trans own, ?_, ?_, landed, committed⟩
      · rw [mine]
        exact locked_takes same
      · intro between other after until' found' own'
        rcases Nat.lt_trichotomy between writeAt with less | rfl | more
        · exact open' _ (rest between other after less found' (own'.trans own.symm))
        · rw [found, Option.some.injEq] at found'
          subst found'
          exact fun closes => closes
        · exact unclosed between other more until' found' own'

/-- A session is opened by a connect, for an account with time left, and left as
it was inserted. -/
theorem opened_row {index thread id : Nat} {acts : List Entry} {row : SessionRow}
    (block : pool.state.db.log[index]? = some (thread, acts))
    (member : create .sessions id row ∈ acts) :
    (∃ user dto, pool.state.arrivals[thread]? = some (.connect user dto)) ∧
      storeAfter pool.state.db.log (index + 1) .sessions id = some row ∧
        0 < balanceOf (storeAfter pool.state.db.log (index + 1)) row.userId := by
  obtain ⟨call, called, lawful⟩ := block_lawful (reached_legit reached) block
  rw [storeAfter_succ _ _ _ block]
  have entry := lawful_sessions lawful _ member rfl
  generalize same : create .sessions id row = creates at entry
  cases entry with
  | @opened user dto =>
      refine ⟨⟨user, dto, called⟩, ?_⟩
      have users : TableName.users ∉ (Call.connect user dto).tables := by simp [Call.tables]
      have kept := untouched_table lawful users (storeAfter pool.state.db.log index) user.id
      cases lawful with
      | nothing => cases member
      | refresh devices =>
          rcases List.mem_append.mp member with device | latest
          · cases devices _ device
          · cases List.mem_singleton.mp latest
      | opened devices owner paid closed fresh =>
          rcases List.mem_append.mp member with earlier | latest
          · rcases List.mem_append.mp earlier with device | ended
            · cases devices _ device
            · obtain ⟨_, _, same, _⟩ := closed _ ended
              cases same
          · cases List.mem_singleton.mp latest
            constructor
            · rw [replay_append]
              exact RowLock.runEntry_at Act.run _ (create .sessions id _)
            · have owner' : storeAfter pool.state.db.log index .users user.id = some _ := owner
              change 0 < balanceOf _ user.id
              unfold balanceOf
              rw [kept, owner']
              exact paid
  | _ => cases same

theorem charged_before {thread askAt pos user elapsed session : Nat} {ask charge : Event}
    {now : Time} (tick : pool.state.arrivals[thread]? = some .tick)
    (found : pool.state.hist[askAt]? = some ask) (own : ask.thread = thread)
    (asks : ask.cmd = .query .exhausted) (found' : pool.state.hist[pos]? = some charge)
    (own' : charge.thread = thread)
    (wrote : charge.Wrote (alter .users user (.charge elapsed session) now)) :
    pos < askAt := by
  have pass := reached_inPass reached found' own' tick
  rcases Nat.lt_trichotomy pos askAt with before | rfl | after
  · exact before
  · rw [found, Option.some.injEq] at found'
    subst found'
    cases wrote
    cases asks
  · cases wrote with
    | update =>
        exact absurd asks
          (pass.1 ask.done (mem_pastOf_take.mpr ⟨askAt, ask, after, found, own, rfl⟩))

/-- A pass that has charged the user reads the exhausted sessions, ends them and
commits. -/
structure Asking (world : World) (index thread user takeAt askAt commitAt : Nat) (acts : List Entry)
    (take ask commit : Event) (found : List (Nat × SessionRow)) : Prop where
  block : world.db.log[index]? = some (thread, acts)
  tick : world.arrivals[thread]? = some .tick
  taken : world.hist[takeAt]? = some take
  ownTake : take.thread = thread
  takes : take.Takes .users user
  early : takeAt < askAt
  asked : world.hist[askAt]? = some ask
  ownAsk : ask.thread = thread
  asks : ask.done = ⟨.query .exhausted, .ok found⟩
  late : askAt < commitAt
  committed : world.hist[commitAt]? = some commit
  ownCommit : commit.thread = thread
  lands : Lands commit.done
  index : commit.commits = index
  pending : commit.pending = acts
  unclosed : Unclosed world.hist thread takeAt commitAt
  finished : ∀ id s, (id, s) ∈ found → ∃ now, alter .sessions id (.finish .ended) now ∈ acts

theorem charge_asking {index thread user elapsed session : Nat} {acts : List Entry} {now : Time}
    (block : pool.state.db.log[index]? = some (thread, acts))
    (tick : pool.state.arrivals[thread]? = some .tick)
    (charged : alter .users user (.charge elapsed session) now ∈ acts) :
    ∃ takeAt askAt commitAt take ask commit found,
      Asking pool.state index thread user takeAt askAt commitAt acts take ask commit found := by
  obtain ⟨takeAt, commitAt, take, written⟩ :=
    block_written (reached_chronicle reached) block charged
  obtain ⟨before, foundTake, own, wrote, unclosed, answer, time, view, landed, committed⟩ := written
  have lands : Lands ⟨.commit, answer⟩ := ⟨answer, landed, rfl⟩
  have passed := reached_inPass reached committed rfl tick
  obtain ⟨_, _, _, found, listed, finished⟩ := passed
  obtain ⟨askAt, ask, late, foundAsk, ownAsk, same⟩ := mem_pastOf_take.mp listed
  have early := charged_before reached tick foundAsk ownAsk (congrArg Sigma.fst same) foundTake own
    wrote
  refine ⟨takeAt, askAt, commitAt, take, ask, _, found, block, tick, foundTake, own,
    wrote.takes (by simp [alter]), early, foundAsk, ownAsk, same, late, committed, rfl,
      lands, rfl, rfl,
    unclosed, ?_⟩
  intro id s member
  obtain ⟨row, ended⟩ := finished id s member
  exact ended_pending reached committed rfl lands tick ended

section Asking
variable {index thread user takeAt askAt commitAt : Nat} {acts : List Entry}
  {take ask commit : Event} {found : List (Nat × SessionRow)}
  (asking : Asking pool.state index thread user takeAt askAt commitAt acts take ask commit found)
include asking

theorem Asking.within : take.commits ≤ ask.commits ∧ ask.commits ≤ index := by
  have timeline := reached_timeline reached
  refine ⟨(history_order timeline asking.early asking.taken asking.asked).commits, ?_⟩
  rw [← asking.index]
  exact (history_order timeline asking.late asking.asked asking.committed).commits

theorem Asking.rest : ∃ rest, acts = ask.pending ++ rest ∧
    ∀ entry ∈ rest, entry.table ≠ .users := by
  have plain : ¬ ask.cmd.Closes := by
    have cmd : ask.cmd = .query .exhausted := congrArg Sigma.fst asking.asks
    rw [cmd]
    exact id
  obtain ⟨rest, split, written⟩ := reached_added reached asking.asked asking.committed
    (asking.ownCommit.trans asking.ownAsk.symm) asking.late plain
    (asking.ownAsk.symm ▸ asking.unclosed.later (Nat.le_of_lt asking.early))
  rw [asking.pending] at split
  refine ⟨rest, split, fun entry member users => ?_⟩
  obtain ⟨pos, writer, low, _, foundWriter, ownWriter, wrote⟩ := written entry member
  obtain ⟨call, called, lawful⟩ := block_lawful (reached_legit reached) asking.block
  rw [asking.tick, Option.some.injEq] at called
  subst called
  obtain ⟨user, elapsed, session, now, rfl⟩ :=
    tick_charges lawful entry (split ▸ List.mem_append_right _ member) users
  have before := charged_before reached asking.tick asking.asked asking.ownAsk
    (congrArg Sigma.fst asking.asks) foundWriter (ownWriter.trans asking.ownAsk) wrote
  exact absurd before (Nat.not_lt.mpr low)

theorem Asking.account : ask.view.rows .users user =
    storeAfter pool.state.db.log (index + 1) .users user := by
  obtain ⟨rest, split, others⟩ := asking.rest reached
  obtain ⟨low, high⟩ := asking.within reached
  have stands : ∀ commits, take.commits ≤ commits → commits ≤ index →
      storeAfter pool.state.db.log commits .users user =
        storeAfter pool.state.db.log take.commits .users user := by
    intro commits low high
    exact locked_stands reached (by simp) asking.taken asking.takes asking.committed
      (asking.ownCommit.trans asking.ownTake.symm) (asking.ownTake.symm ▸ asking.unclosed) low
      (asking.index.symm ▸ high)
  rw [((reached_ready reached).truthful ask (List.mem_of_getElem? asking.asked)).rows,
    storeAfter_succ _ _ _ asking.block]
  change _ = replay acts _ .users user
  rw [split, replay_append, replay_table _ _ _ _ others]
  apply RowLock.replay_local
  rw [stands _ low high, stands index (Nat.le_trans low high) (Nat.le_refl _)]

theorem Asking.opened {id : Nat} {s : SessionRow}
    (present : storeAfter pool.state.db.log index .sessions id = some s) (mine : s.userId = user) :
    (storeAfter pool.state.db.log ask.commits .sessions id).isSome := by
  by_contra none'
  have timeline := reached_timeline reached
  have legit := reached_legit reached
  have exclusive := reached_exclusive reached
  have bound : index ≤ pool.state.db.log.length := Nat.le_of_lt (event_bound asking.block)
  have absent := Option.not_isSome_iff_eq_none.mp none'
  obtain ⟨opening, other, made, row, low, high, block, member⟩ :=
    created_between legit (asking.within reached).2 bound absent (Option.isSome_of_eq_some present)
  obtain ⟨lockAt, closeAt, lock, answer, time, view, before, foundLock, ownLock, takes, unclosed,
    landed, foundClose⟩ := opened_takes reached block member
  obtain ⟨⟨_, _, connects⟩, made, _⟩ := opened_row reached block member
  have different : other ≠ thread := by
    rintro rfl
    cases connects.symm.trans asking.tick
  -- it is the account of the new session that the other transaction has locked
  have owner : row.userId = user := by
    obtain ⟨after, found', same⟩ := row_same legit (by simp) (by simp) high bound made
    rw [present, Option.some.injEq] at found'
    subst found'
    exact same.1.symm.trans mine
  rw [owner] at takes
  have inside : closeAt < commitAt :=
    commits_order timeline foundClose asking.committed (asking.index.symm ▸ high)
  have after : askAt < closeAt := by
    rcases Nat.lt_trichotomy askAt closeAt with less | rfl | more
    · exact less
    · rw [asking.asked, Option.some.injEq] at foundClose
      cases foundClose ▸ asking.asks
    · have grown := (history_order timeline more foundClose asking.asked).closed
        ⟨_, _, _, _, _, _, landed, rfl, List.ne_nil_of_mem member⟩
      exact absurd (Nat.lt_of_lt_of_le grown low) (Nat.lt_irrefl _)
  rcases Nat.lt_trichotomy lockAt takeAt with less | rfl | more
  · refine exclusive lockAt takeAt closeAt lock take _ .users user less
      (Nat.lt_trans asking.early after) foundLock takes asking.taken ?_ asking.takes foundClose
      ownLock.symm ?_
    · rw [asking.ownTake, ownLock]
      exact different.symm
    · exact ownLock.symm ▸ unclosed.shorter (Nat.le_of_lt (Nat.lt_trans asking.early after))
  · rw [asking.taken, Option.some.injEq] at foundLock
    subst foundLock
    exact different (ownLock.symm.trans asking.ownTake)
  · refine exclusive takeAt lockAt commitAt take lock commit .users user more
      (Nat.lt_trans before inside) asking.taken asking.takes foundLock ?_ takes asking.committed
      (asking.ownCommit.trans asking.ownTake.symm) ?_
    · rw [asking.ownTake, ownLock]
      exact different
    · exact asking.ownTake.symm ▸ asking.unclosed.shorter
        (Nat.le_of_lt (Nat.lt_trans before inside))

/-- If it leaves nothing, the pass has found the account's sessions exhausted and
has ended them. -/
theorem Asking.ends {id : Nat} {s after : SessionRow}
    (present : storeAfter pool.state.db.log index .sessions id = some s) (mine : s.userId = user)
    (left : storeAfter pool.state.db.log (index + 1) .sessions id = some after)
    (active : after.status = .active)
    (poor : ¬ 0 < balanceOf (storeAfter pool.state.db.log (index + 1)) user)
    {account : UserRow} (owner : ask.view.rows .users user = some account) : False := by
  have legit := reached_legit reached
  have block := asking.block
  obtain ⟨call, called, lawful⟩ := block_lawful legit block
  -- nothing in the block ends the session
  have going : ∀ status now, alter .sessions id (.finish status) now ∉ acts := by
    intro status now member
    obtain ⟨ended, left', inactive⟩ := finished_inactive lawful present member
    rw [← storeAfter_succ _ _ _ block, left, Option.some.injEq] at left'
    exact inactive (left' ▸ active)
  obtain ⟨s0, stored⟩ := Option.isSome_iff_exists.mp (asking.opened reached present mine)
  have within := (asking.within reached).2
  have bound : index + 1 ≤ pool.state.db.log.length := event_bound block
  have still : s0.status = .active := by
    by_contra ended
    obtain ⟨row, found', inactive⟩ :=
      inactive_stays legit (Nat.le_succ_of_le within) bound stored ended
    rw [left, Option.some.injEq] at found'
    exact inactive (found' ▸ active)
  have owned : s0.userId = user := by
    obtain ⟨row, found', same⟩ := row_same legit (by simp) (by simp) within
      (Nat.le_of_succ_le bound) stored
    rw [present, Option.some.injEq] at found'
    exact same.1.symm.trans (found' ▸ mine)
  obtain ⟨rest, split, _⟩ := asking.rest reached
  have recorded := List.mem_of_getElem? asking.asked
  have truthful := (reached_ready reached).truthful ask recorded
  obtain ⟨seen, view, activeSeen, ownedSeen⟩ : ∃ seen, ask.view.rows .sessions id = some seen ∧
      seen.status = .active ∧ seen.userId = user := by
    rw [truthful.rows]
    refine replay_acts _ .sessions id (fun row => row.status = .active ∧ row.userId = user)
      (pass_alters reached recorded (asking.ownAsk.symm ▸ asking.tick) id) ?_ stored ⟨still, owned⟩
    rintro op now row pending ⟨active, same⟩
    cases op with
    | settle | refresh => exact ⟨active, same⟩
    | finish status => exact absurd (split ▸ List.mem_append_left _ pending) (going status now)
  have listed : (id, seen) ∈ found := by
    have inTable := ((reached_timeline reached).past ask recorded).listed .sessions id
      (Option.isSome_of_eq_some view)
    have left' : account.remainingSeconds ≤ 0 := by
      rw [asking.account reached] at owner
      simpa [balanceOf, owner] using poor
    have exhausted : ask.view.isExhausted seen = true := by
      simp [View.isExhausted, activeSeen, ownedSeen, owner, left']
    have answered := truthful.answered
    have asks := asking.asks
    generalize ask = event at answered asks inTable view exhausted
    obtain ⟨mover, cmd, answer, time, commits, pending, rows⟩ := event
    cases asks
    rw [show found = Query.eval rows .exhausted from answered]
    exact mem_scan.mpr ⟨inTable, view, exhausted⟩
  obtain ⟨now, member⟩ := asking.finished id seen listed
  exact going .ended now member

end Asking

theorem reached_funded {commits : Nat} (bound : commits ≤ pool.state.db.log.length) :
    Funded (storeAfter pool.state.db.log commits) := by
  have legit := reached_legit reached
  refine log_induction legit (fun commits => Funded (storeAfter pool.state.db.log commits)) ?_ ?_
    commits bound
  · intro id s present
    simp [storeAfter] at present
  intro index thread acts call block called lawful next ih id after left active
  have within : index + 1 ≤ pool.state.db.log.length := event_bound block
  cases earlier : storeAfter pool.state.db.log index .sessions id with
  | none =>
      obtain ⟨index', thread', acts', row, low, high, block', member⟩ :=
        created_between legit (Nat.le_succ _) within earlier (Option.isSome_of_eq_some left)
      obtain rfl : index' = index := Nat.le_antisymm (Nat.le_of_lt_succ high) low
      obtain ⟨_, made, funded⟩ := opened_row reached block' member
      rw [left, Option.some.injEq] at made
      exact made ▸ funded
  | some s =>
      have still : s.status = .active := by
        by_contra ended
        obtain ⟨row, found, inactive⟩ :=
          inactive_stays legit (Nat.le_succ _) within earlier ended
        rw [left, Option.some.injEq] at found
        exact inactive (found ▸ active)
      have owned : after.userId = s.userId := by
        obtain ⟨row, found, same⟩ :=
          row_same legit (by simp) (by simp) (Nat.le_succ _) within earlier
        rw [left, Option.some.injEq] at found
        exact found ▸ same.1
      have funded := ih id s earlier still
      rw [owned]
      by_cases charged : ∃ elapsed session now,
          alter .users s.userId (.charge elapsed session) now ∈ acts
      · obtain ⟨elapsed, session, now, member⟩ := charged
        have tick : call = .tick := by
          by_contra other
          exact others_uncharged lawful other _ _ _ _ member
        subst tick
        by_contra poor
        obtain ⟨takeAt, askAt, commitAt, take, ask, commit, found, asking⟩ :=
          charge_asking reached block called member
        obtain ⟨account, owner⟩ : ∃ account : UserRow,
            storeAfter pool.state.db.log index .users s.userId = some account := by
          unfold balanceOf at funded
          split at funded
          · rename_i account present
            exact ⟨account, present⟩
          · cases funded
        obtain ⟨account', owner', _⟩ :=
          row_same legit (by simp) (by simp) (Nat.le_succ _) within owner
        exact asking.ends reached earlier rfl left active poor
          ((asking.account reached).trans owner')
      · rw [next]
        exact balance_kept lawful (fun elapsed session now member =>
          charged ⟨elapsed, session, now, member⟩) funded

end Runs
end Cybera
