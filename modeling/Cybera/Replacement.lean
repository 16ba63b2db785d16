import Cybera.Listing

/-!
RequestsService.create replaces a pending request in two statements, a SELECT of
its id and an UPDATE by id. A decision that commits between the two is written
over; without one, decided requests are frozen and what create answers is
pending.
-/

namespace Cybera

open Interleaving

/-- The block at `index` is a decision of the request. -/
def DecidesAt (world : World) (id index : Nat) : Prop :=
  ∃ decider actor approve acts, world.db.log[index]? = some (decider, acts) ∧ acts ≠ [] ∧
    world.arrivals[decider]? = some (.decide actor id approve)

/-- No decision of a request commits between the SELECT of a create that found
it pending and the UPDATE of that create. -/
def NoDecisionBetween (world : World) : Prop :=
  ∀ thread index id source now, world.db.log[index]? =
      some (thread, [alter .planRequests id (.replace source) now]) →
    ∀ user time read view,
      ⟨thread, .query (.pendingRequest user), .ok (some id), time, read, [], view⟩ ∈ world.hist →
        ∀ between, read ≤ between → between < index → ¬ DecidesAt world id between

structure Frozen (pool : ServerPool) : Prop where
  /-- an UPDATE of a create finds the request pending -/
  writes : ∀ index thread acts id source now, pool.state.db.log[index]? = some (thread, acts) →
    alter .planRequests id (.replace source) now ∈ acts → ∃ r : PlanRequestRow,
      storeAfter pool.state.db.log index .planRequests id = some r ∧ r.status = .pending
  /-- a decided request keeps all its columns -/
  keeps : ∀ id first last, ∀ r : PlanRequestRow, first ≤ last →
    last ≤ pool.state.db.log.length →
    storeAfter pool.state.db.log first .planRequests id = some r → r.status ≠ .pending →
      storeAfter pool.state.db.log last .planRequests id = some r
  /-- a create answers a pending row of the caller with what the caller asked for -/
  answers : ∀ thread user dto id row,
    pool.state.arrivals[thread]? = some (.createRequest user dto) →
    pool.threads[thread]? = some (some (.done (.request id row))) →
      row.status = .pending ∧ row.userId = user.id ∧ dto.source = some row.source ∧
        ∃ index acts, pool.state.db.log[index]? = some (thread, acts) ∧
          storeAfter pool.state.db.log (index + 1) .planRequests id = some row

section Blocks
variable {config : Config} {world : World} {index thread : Nat} {call : Call} {acts : List Entry}

theorem replace_block (lawful : Lawful config (world.basisAt index) thread call acts) {id : Nat}
    {source : RequestSource} {now : Time}
    (member : alter .planRequests id (.replace source) now ∈ acts) :
    acts = [alter .planRequests id (.replace source) now] ∧
      ∃ user dto time read view, ∃ r : PlanRequestRow, call = .createRequest user dto ∧
        ⟨thread, .query (.pendingRequest user.id), .ok (some id), time, read, [], view⟩ ∈
          world.hist ∧ read ≤ index ∧
        storeAfter world.db.log index .planRequests id = some r := by
  have listed := lawful_tables lawful _ member
  cases call with
  | createRequest user dto =>
      cases lawful with
      | nothing => simp at member
      | createNew => simp [alter, create] at member
      | @createReplace _ _ source' key read r now' time view given row asked earlier =>
          have same := List.mem_singleton.mp member
          simp only [alter, RowLock.Entry.mk.injEq, true_and] at same
          obtain ⟨rfl, same⟩ := same
          rw [heq_eq_eq] at same
          cases same
          have short : read ≤ (world.db.log.take index).length := earlier
          rw [List.length_take] at short
          exact ⟨rfl, user, dto, time, read, view, r, rfl, asked,
            Nat.le_trans short (Nat.min_le_left _ _), row⟩
  | decide actor key approve =>
      cases lawful with
      | nothing => simp at member
      | approve => simp [alter] at member
      | reject => simp [alter] at member
  | _ => simp [Call.tables, alter] at listed

theorem created_row {basis : Basis} {user : AuthUser} {dto : CreateRequestDto} {id : Nat}
    {row : PlanRequestRow}
    (lawful : Lawful config basis thread (.createRequest user dto) [create .planRequests id row]) :
    row.status = .pending ∧ row.userId = user.id := by
  generalize made : [create .planRequests id row] = acts at lawful
  cases lawful with
  | nothing => simp at made
  | createNew =>
      simp only [create, List.cons.injEq, RowLock.Entry.mk.injEq, heq_eq_eq, true_and, and_true,
        Act.insert.injEq] at made
      obtain ⟨_, rfl⟩ := made
      exact ⟨rfl, rfl⟩
  | createReplace => simp [create, alter] at made

theorem decides_decidedAt (legit : Legit config world) {id : Nat}
    (decides : DecidesAt world id index) : DecidedAt world id index := by
  obtain ⟨decider, actor, approve, acts, found, nonempty, called⟩ := decides
  obtain ⟨call, called', lawful⟩ := block_lawful legit found
  rw [called, Option.some.injEq] at called'
  subst called'
  have bound := (List.getElem?_eq_some_iff.mp found).1
  have next := storeAfter_succ _ _ _ found
  cases lawful with
  | nothing => exact absurd rfl nonempty
  | @approve _ _ read lock found r plan account now time late view held row pending =>
      have present : storeAfter world.db.log index .planRequests id = some r := row
      refine ⟨bound, ⟨r, present, pending⟩, RequestOp.run now (.decide .approved actor.id) r, ?_,
        by simp [RequestOp.run]⟩
      rw [next]
      simp [present, Op.run]
  | @reject _ _ r now row pending =>
      have present : storeAfter world.db.log index .planRequests id = some r := row
      refine ⟨bound, ⟨r, present, pending⟩, RequestOp.run now (.decide .rejected actor.id) r, ?_,
        by simp [RequestOp.run]⟩
      rw [next]
      simp [present, Op.run]

theorem pending_stays (legit : Legit config world) {id first last : Nat} {r : PlanRequestRow}
    (ordered : first ≤ last) (bound : last ≤ world.db.log.length)
    (present : storeAfter world.db.log first .planRequests id = some r)
    (pending : r.status = .pending)
    (undecided : ∀ between, first ≤ between → between < last → ¬ DecidesAt world id between) :
    ∃ after : PlanRequestRow, storeAfter world.db.log last .planRequests id = some after ∧
      after.status = .pending := by
  refine log_stretch legit (fun commits => ∃ after : PlanRequestRow,
    storeAfter world.db.log commits .planRequests id = some after ∧ after.status = .pending)
    ordered bound ⟨r, present, pending⟩ ?_
  rintro index thread acts call low high block called lawful next ⟨middle, found, waiting⟩
  rw [next]
  cases request_block lawful id with
  | kept same => exact ⟨middle, same.trans found, waiting⟩
  | made given absent after => simp [found] at absent
  | replaced given row asked earlier after =>
      rw [found, Option.some.injEq] at row
      subst row
      exact ⟨_, after, waiting⟩
  | @decided actor approve now r' _ row pending' after =>
      have nonempty : acts ≠ [] := by
        rintro rfl
        rw [replay_nil, row, Option.some.injEq] at after
        have settled := decision_decided approve now actor.id r'
        rw [← after] at settled
        exact settled pending'
      exact absurd ⟨thread, actor, approve, acts, block, nonempty, called⟩
        (undecided index low high)

theorem pendingRequest_answer (ready : Ready world) {user id read : Nat} {time : Time} {view : View}
    (asked : ⟨thread, .query (.pendingRequest user), .ok (some id), time, read, [], view⟩ ∈
      world.hist) :
    ∃ r : PlanRequestRow, storeAfter world.db.log read .planRequests id = some r ∧
      r.userId = user ∧ r.status = .pending := by
  obtain ⟨answered, _, rows⟩ := ready.truthful _ asked
  replace rows : view.rows = storeAfter world.db.log read := rows
  replace answered : some id = Query.eval view (.pendingRequest user) := answered
  obtain ⟨found, first, rfl⟩ := Option.map_eq_some_iff.mp answered.symm
  obtain ⟨_, present, matching⟩ := mem_scan.mp (List.mem_of_mem_head? first)
  rw [rows] at present
  exact ⟨found.2, present, by simpa using matching⟩

end Blocks
section Runs
variable {config : Config} {pool : ServerPool}

theorem replaced_pending (reached : Reached config pool)
    (undecided : NoDecisionBetween pool.state) {index thread id : Nat} {acts : List Entry}
    {source : RequestSource} {now : Time}
    (block : pool.state.db.log[index]? = some (thread, acts))
    (member : alter .planRequests id (.replace source) now ∈ acts) :
    ∃ r : PlanRequestRow, storeAfter pool.state.db.log index .planRequests id = some r ∧
      r.status = .pending := by
  have legit := reached_legit reached
  obtain ⟨call, _, lawful⟩ := block_lawful legit block
  obtain ⟨rfl, user, dto, time, read, view, _, _, asked, earlier, _⟩ := replace_block lawful member
  obtain ⟨r, present, _, pending⟩ := pendingRequest_answer (reached_ready reached) asked
  exact pending_stays legit earlier (Nat.le_of_lt (List.getElem?_eq_some_iff.mp block).1) present
    pending (undecided thread index id source now block user.id time read view asked)

theorem replaced_owner (reached : Reached config pool) {index thread id : Nat} {user : AuthUser}
    {dto : CreateRequestDto} {source : RequestSource} {now : Time} {r : PlanRequestRow}
    (called : pool.state.arrivals[thread]? = some (.createRequest user dto))
    (block : pool.state.db.log[index]? =
      some (thread, [alter .planRequests id (.replace source) now]))
    (row : storeAfter pool.state.db.log index .planRequests id = some r) : r.userId = user.id := by
  have legit := reached_legit reached
  obtain ⟨call, called', lawful⟩ := block_lawful legit block
  obtain ⟨_, user', dto', time, read, view, _, rfl, asked, earlier, _⟩ :=
    replace_block lawful (List.mem_singleton_self _)
  rw [called, Option.some.injEq, Call.createRequest.injEq] at called'
  obtain ⟨rfl, _⟩ := called'
  obtain ⟨r', present, mine, _⟩ := pendingRequest_answer (reached_ready reached) asked
  obtain ⟨after, row', same⟩ := row_same legit (by simp) (by simp) earlier
    (Nat.le_of_lt (List.getElem?_eq_some_iff.mp block).1) present
  rw [row, Option.some.injEq] at row'
  subst row'
  exact Eq.trans same mine

theorem answered_create (reached : Reached config pool) {thread id : Nat} {user : AuthUser}
    {dto : CreateRequestDto} {row : PlanRequestRow}
    (called : pool.state.arrivals[thread]? = some (.createRequest user dto))
    (answered : pool.threads[thread]? = some (some (.done (.request id row)))) :
    ∃ index acts, pool.state.db.log[index]? = some (thread, acts) ∧
      WritesRequest row.source id row acts ∧ dto.source = some row.source ∧
      storeAfter pool.state.db.log (index + 1) .planRequests id = some row := by
  obtain ⟨id', row', source, acts, reply, given, rfl, writes, index, block, left⟩ :
      CreateOutcome dto thread (.ok (.request id row)) pool.state :=
    answered_outcome reached called answered
  cases reply
  refine ⟨index, acts, block, writes, given, ?_⟩
  rw [storeAfter_succ _ _ _ block]
  exact left

theorem frozen_of_undecided (reached : Reached config pool)
    (undecided : NoDecisionBetween pool.state) : Frozen pool := by
  have legit := reached_legit reached
  refine ⟨?_, ?_, ?_⟩
  · intro index thread acts id source now block member
    exact replaced_pending reached undecided block member
  · intro id first last r ordered bound present decided
    refine log_stretch legit (fun commits =>
      storeAfter pool.state.db.log commits .planRequests id = some r) ordered bound present ?_
    intro index thread acts call _ _ block _ lawful next found
    rw [next]
    cases request_block lawful id with
    | kept same => exact same.trans found
    | made given absent after => simp [found] at absent
    | replaced given row asked earlier after =>
        obtain ⟨r', present', pending⟩ :=
          replaced_pending reached undecided block (List.mem_singleton_self _)
        rw [found, Option.some.injEq] at present'
        subst present'
        exact absurd pending decided
    | decided row pending after =>
        rw [found, Option.some.injEq] at row
        subst row
        exact absurd pending decided
  · intro thread user dto id row called answered
    obtain ⟨index, acts, block, writes, given, left⟩ := answered_create reached called answered
    suffices row.status = .pending ∧ row.userId = user.id from
      ⟨this.1, this.2, given, index, acts, block, left⟩
    obtain ⟨now, rfl⟩ | rfl := writes
    · obtain ⟨r, present, pending⟩ :=
        replaced_pending reached undecided block (List.mem_singleton_self _)
      have mine := replaced_owner reached called block present
      rw [storeAfter_succ _ _ _ block] at left
      simp only [replay_cons, replay_nil, alter_same, present, Option.map_some,
        Option.some.injEq] at left
      rw [← left]
      exact ⟨pending, mine⟩
    · obtain ⟨call, called', lawful⟩ := block_lawful legit block
      rw [called, Option.some.injEq] at called'
      subst called'
      exact created_row lawful

/-- Exactly the runs in which no decision falls between the two statements of a
create keep decided requests as they were decided and answer pending rows. -/
theorem request_frozen_iff (config : Config) (pool : ServerPool) (reached : Reached config pool) :
    Frozen pool ↔ NoDecisionBetween pool.state := by
  refine ⟨?_, frozen_of_undecided reached⟩
  intro frozen thread index id source now block user time read view asked between low high decides
  have legit := reached_legit reached
  obtain ⟨r, present, decided⟩ := (decides_decidedAt legit decides).after
  obtain ⟨r', present', pending⟩ :=
    frozen.writes index thread _ id source now block (List.mem_singleton_self _)
  obtain ⟨after, found, status⟩ := decided_stays legit high
    (Nat.le_of_lt (List.getElem?_eq_some_iff.mp block).1) present decided
  rw [present', Option.some.injEq] at found
  subst found
  exact decided (status.symm.trans pending)

end Runs

def requestNow (pool : ServerPool) (id : Nat) : Option (RequestStatus × Option Nat) :=
  (pool.state.db.store .planRequests id).map fun r : PlanRequestRow =>
    (r.status, r.source.requestedMinutes)

def answeredRequest (pool : ServerPool) (thread : Nat) : Option (Nat × RequestStatus) :=
  match answerOf pool thread with
  | some (.ok (.request id row)) => some (id, row.status)
  | _ => none

theorem answeredRequest_done {pool : ServerPool} {thread id : Nat} {status : RequestStatus}
    (answer : answeredRequest pool thread = some (id, status)) : ∃ row,
      pool.threads[thread]? = some (some (.done (.request id row))) ∧ row.status = status := by
  unfold answeredRequest at answer
  split at answer
  · rename_i key row answered
    cases answer
    exact ⟨row, answerOf_ok answered, rfl⟩
  · cases answer

def asksPending (event : Event) : Bool :=
  match event.cmd with
  | .query (.pendingRequest _) => true
  | _ => false

/-- A request is approved; the next one is replaced before its approval. -/
def decidedAround : List (Move Choice Call Ambient) :=
  opening ++ [.start (.createRequest guest halfHour)] ++ steps 1 5 ++
    [.start (.decide staff 1 true)] ++ steps 2 7 ++
    [.start (.createRequest guest halfHour)] ++ steps 3 5 ++
    [.start (.createRequest guest fullDay)] ++ steps 4 5 ++
    [.start (.decide staff 2 true)] ++ steps 5 7

theorem request_frozen_undisturbed : ∃ pool, Reached shop pool ∧
    requestNow pool 1 = some (.approved, some 30) ∧
    requestNow pool 2 = some (.approved, some 1440) ∧
    answeredRequest pool 4 = some (2, .pending) ∧ Frozen pool := by
  obtain ⟨pool, reached, _, seen⟩ := play_shows shop decidedAround
    (fun pool => requestNow pool 1 == some (.approved, some 30) &&
      requestNow pool 2 == some (.approved, some 1440) &&
      answeredRequest pool 4 == some (2, .pending) &&
      pool.state.db.log.map Prod.fst == [0, 0, 1, 2, 3, 4, 5] &&
      (pool.state.hist.filter asksPending).map (fun event => (event.thread, event.commits)) ==
        [(1, 2), (3, 4), (4, 5)])
    true (by decide +kernel)
  simp only [Bool.and_eq_true, beq_iff_eq] at seen
  obtain ⟨⟨⟨⟨first, second⟩, answer⟩, threads⟩, reads⟩ := seen
  refine ⟨pool, reached, first, second, answer, (request_frozen_iff shop pool reached).mpr ?_⟩
  intro thread index id source now found user time read view asked between low high
  -- nothing commits between the SELECT and the write of a create
  have block : [0, 0, 1, 2, 3, 4, 5][index]? = some thread := by
    rw [← threads, List.getElem?_map, found, Option.map_some]
  have listed : (thread, read) ∈ [(1, 2), (3, 4), (4, 5)] := by
    rw [← reads]
    exact List.mem_map.mpr ⟨_, List.mem_filter.mpr ⟨asked, rfl⟩, rfl⟩
  have bound : index < 7 := (List.getElem?_eq_some_iff.mp block).1
  have last : index ≤ read := by
    simp only [List.mem_cons, Prod.mk.injEq, List.not_mem_nil, or_false] at listed
    interval_cases index <;> simp at block <;> omega
  omega

/-- A second create has found request 1 pending; then it is approved. -/
def approvedMeanwhile : List (Move Choice Call Ambient) :=
  opening ++ [.start (.createRequest guest halfHour)] ++ steps 1 5 ++
    [.start (.createRequest guest fullDay)] ++ steps 2 1 ++
    [.start (.decide staff 1 true)] ++ steps 3 7

/-- The approved request is rewritten from 30 to 1440 minutes, and the create
that did it answers the approved row. -/
theorem decided_request_rewritten : ∃ decided rewritten : ServerPool, Reached shop decided ∧
    run (server shop) decided (steps 2 4) = some rewritten ∧
    requestNow decided 1 = some (.approved, some 30) ∧
    requestNow rewritten 1 = some (.approved, some 1440) ∧
    answeredRequest rewritten 2 = some (1, .approved) ∧ ¬ Frozen rewritten := by
  obtain ⟨decided, rewritten, reached, onward, _, arrivals, seen⟩ :=
    plays_show shop approvedMeanwhile
    (steps 2 4) (fun decided rewritten => (requestNow decided 1, requestNow rewritten 1,
      answeredRequest rewritten 2))
    (some (.approved, some 30), some (.approved, some 1440), some (1, .approved))
    (by decide +kernel)
  obtain ⟨before, rest⟩ := Prod.mk.inj seen
  obtain ⟨after, answer⟩ := Prod.mk.inj rest
  refine ⟨decided, rewritten, reached, onward, before, after, answer, ?_⟩
  intro frozen
  obtain ⟨row, answered, status⟩ := answeredRequest_done answer
  have pending := (frozen.answers 2 guest fullDay 1 row (by rw [arrivals]; rfl) answered).1
  rw [status] at pending
  cases pending

end Cybera
