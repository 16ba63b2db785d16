import Cybera.History
import Cybera.References

/-!
A plan request is decided once and, if approved, credited once with what its
locking SELECT showed.
-/

namespace Cybera

open Interleaving

/-- The plan that a request points to. -/
def planAt (rows : Store) (r : PlanRequestRow) : Option PlanRow :=
  r.source.planId.bind (rows .plans)

/-- The plan's duration for a request with a plan, its own minutes otherwise. -/
def requestMinutes (r : PlanRequestRow) (plan : Option PlanRow) : Nat :=
  match r.source.planId with
  | some _ => (plan.map (·.durationMinutes)).getD 0
  | none => r.source.requestedMinutes.getD 0

/-- What decide's SELECT answered. Its snapshot is of `read` commits, and it had locked the
request after `lock` of them. -/
inductive SelectedAt (world : World) (id thread read lock : Nat) :
    PlanRequestRow → Option PlanRow → Prop where
  | mk {found r : PlanRequestRow} {time late : Time} {view held : View}
      (asked : ⟨thread, .query (.requestWithPlan id),
        .ok (some (found, planAt (storeAfter world.db.log read) found)), time, read, [], view⟩ ∈
          world.hist)
      (ordered : read ≤ lock)
      (locked : ⟨thread, .lock .planRequests id, .ok (some r), late, lock, [], held⟩ ∈ world.hist)
      (before : storeAfter world.db.log read .planRequests id = some found)
      (seen : storeAfter world.db.log lock .planRequests id = some r) :
      SelectedAt world id thread read lock r
        (rejoined found r (planAt (storeAfter world.db.log read) found))

/-- The locking SELECTs answer the latest request together with the plan it then references. -/
def SelectsLatest (world : World) : Prop :=
  ∀ id thread read lock r plan, SelectedAt world id thread read lock r plan →
    plan = planAt (storeAfter world.db.log lock) r

/-- The block at `index` approves the request: it credits what its SELECT answered. -/
inductive Approves (world : World) (id thread index : Nat) : Credit → Prop where
  | mk {actor : AuthUser} {r : PlanRequestRow} {plan : Option PlanRow}
      {account credited : UserRow} {now : Time} {read lock : Nat}
      (called : world.arrivals[thread]? = some (.decide actor id true))
      (block : world.db.log[index]? = some (thread, approveActs actor.id id r plan now))
      (selected : SelectedAt world id thread read lock r plan) (earlier : lock ≤ index)
      (row : storeAfter world.db.log index .planRequests id = some r)
      (pending : r.status = .pending)
      (before : storeAfter world.db.log index .users r.userId = some account)
      (after : storeAfter world.db.log (index + 1) .users r.userId = some credited)
      (balance : credited.remainingSeconds = account.remainingSeconds +
        ↑(60 * creditedMinutes r plan))
      (limit : credited.deviceLimit =
        max account.deviceLimit ((plan.map (·.deviceLimit)).getD 1)) :
      Approves world id thread index ⟨r.userId, 60 * creditedMinutes r plan, .request id⟩

/-- The block at `index` approves the request: it credits what the request and
its plan said after `lock` commits, when the approving thread held the row. -/
inductive ApprovedAt (world : World) (id thread index lock : Nat) : Credit → Prop where
  | mk {actor : AuthUser} {r : PlanRequestRow} {account credited : UserRow} {now time : Time}
      {view : View}
      (called : world.arrivals[thread]? = some (.decide actor id true))
      (block : world.db.log[index]? = some (thread,
        approveActs actor.id id r (planAt (storeAfter world.db.log lock) r) now))
      (locked : ⟨thread, .lock .planRequests id, .ok (some r), time, lock, [], view⟩ ∈ world.hist)
      (earlier : lock ≤ index)
      (seen : storeAfter world.db.log lock .planRequests id = some r)
      (row : storeAfter world.db.log index .planRequests id = some r)
      (pending : r.status = .pending)
      (before : storeAfter world.db.log index .users r.userId = some account)
      (after : storeAfter world.db.log (index + 1) .users r.userId = some credited)
      (balance : credited.remainingSeconds = account.remainingSeconds +
        ↑(60 * requestMinutes r (planAt (storeAfter world.db.log lock) r)))
      (limit : credited.deviceLimit = max account.deviceLimit
        (((planAt (storeAfter world.db.log lock) r).map (·.deviceLimit)).getD 1))
      (positive : 0 < requestMinutes r (planAt (storeAfter world.db.log lock) r)) :
      ApprovedAt world id thread index lock
        ⟨r.userId, 60 * requestMinutes r (planAt (storeAfter world.db.log lock) r), .request id⟩

/-- The states of a request id after `commits` commits, with the credits given
on its account. -/
inductive RequestState (world : World) (id commits : Nat) : List Credit → Prop where
  | absent (empty : storeAfter world.db.log commits .planRequests id = none) :
      RequestState world id commits []
  | unapproved (r : PlanRequestRow)
      (present : storeAfter world.db.log commits .planRequests id = some r)
      (status : r.status ≠ .approved) : RequestState world id commits []
  | approved (r : PlanRequestRow) (thread index : Nat) (credit : Credit)
      (present : storeAfter world.db.log commits .planRequests id = some r)
      (status : r.status = .approved) (past : index < commits)
      (approval : Approves world id thread index credit) (same : credit.user = r.userId) :
      RequestState world id commits [credit]

/-- Exactly one of the two columns is set. -/
def OneSource (source : RequestSource) : Prop :=
  source.planId.isSome ↔ source.requestedMinutes = none

/-- What a block makes of one request. -/
inductive RequestStep (world : World) (index thread id : Nat) : Call → List Entry → Prop where
  | kept {call : Call} {acts : List Entry}
      (same : replay acts (storeAfter world.db.log index) .planRequests id =
        storeAfter world.db.log index .planRequests id) :
      RequestStep world index thread id call acts
  | made {user : AuthUser} {dto : CreateRequestDto} {source : RequestSource} {now : Time}
      {acts : List Entry} (given : dto.source = some source)
      (absent : storeAfter world.db.log index .planRequests id = none)
      (after : replay acts (storeAfter world.db.log index) .planRequests id =
        some (newRequest user source now)) :
      RequestStep world index thread id (.createRequest user dto) acts
  | replaced {user : AuthUser} {dto : CreateRequestDto} {source : RequestSource}
      {now time : Time} {read : Nat} {view : View} {r : PlanRequestRow}
      (given : dto.source = some source)
      (row : storeAfter world.db.log index .planRequests id = some r)
      (asked : ⟨thread, .query (.pendingRequest user.id), .ok (some id), time, read, [], view⟩ ∈
        world.hist) (earlier : read ≤ index)
      (after : replay [alter .planRequests id (.replace source) now]
        (storeAfter world.db.log index) .planRequests id =
          some (RequestOp.run now (.replace source) r)) :
      RequestStep world index thread id (.createRequest user dto)
        [alter .planRequests id (.replace source) now]
  | decided {actor : AuthUser} {approve : Bool} {now : Time} {r : PlanRequestRow}
      {acts : List Entry}
      (row : storeAfter world.db.log index .planRequests id = some r)
        (pending : r.status = .pending)
      (after : replay acts (storeAfter world.db.log index) .planRequests id =
        some (RequestOp.run now (.decide (decision approve) actor.id) r)) :
      RequestStep world index thread id (.decide actor id approve) acts

section Shape
variable {config : Config} {world : World} {index thread : Nat} {call : Call} {acts : List Entry}

theorem source_one {dto : CreateRequestDto} {source : RequestSource}
    (given : dto.source = some source) : OneSource source := by
  unfold CreateRequestDto.source at given
  split at given
  · cases given
    simp [OneSource, planSource]
  · split at given
    · cases given
      simp [OneSource, customSource]
    · cases given

theorem request_block (lawful : Lawful config (world.basisAt index) thread call acts) (id : Nat) :
    RequestStep world index thread id call acts := by
  by_cases touched : TableName.planRequests ∈ call.tables
  · cases call with
    | createRequest user dto =>
        cases lawful with
        | nothing => exact .kept rfl
        | @createNew _ _ source key now given fresh =>
            have absent : storeAfter world.db.log index .planRequests key = none := fresh
            by_cases same : id = key
            · subst same
              have after : replay [create .planRequests id (newRequest user source now)]
                  (storeAfter world.db.log index) .planRequests id =
                    some (newRequest user source now) := by simp
              exact .made given absent after
            · exact .kept (by simp [same])
        | @createReplace _ _ source key read r now time view given row asked earlier =>
            have present : storeAfter world.db.log index .planRequests key = some r := row
            by_cases same : id = key
            · subst same
              have short : read ≤ (world.db.log.take index).length := earlier
              rw [List.length_take] at short
              exact .replaced given present asked (Nat.le_trans short (Nat.min_le_left _ _))
                (by simp [present, Op.run])
            · exact .kept (by simp [same])
    | decide actor key approve =>
        have after : ∀ (approve : Bool) (now : Time) (rest : List Entry) (id : Nat)
            (r : PlanRequestRow), storeAfter world.db.log index .planRequests id = some r →
            (∀ entry ∈ rest, entry.table ≠ .planRequests) →
            replay (alter .planRequests id (.decide (decision approve) actor.id) now :: rest)
              (storeAfter world.db.log index) .planRequests id =
                some (RequestOp.run now (.decide (decision approve) actor.id) r) := by
          intro approve now rest id r present others
          rw [replay_cons, replay_table _ _ _ _ others, alter_same, present]
          rfl
        cases lawful with
        | nothing => exact .kept rfl
        | @approve _ _ read lock found r plan account now time late view held row pending =>
            have present : storeAfter world.db.log index .planRequests key = some r := row
            by_cases same : id = key
            · subst same
              exact .decided present pending (after true now _ id r present (by simp [alter]))
            · exact .kept (by simp [same])
        | @reject _ _ r now row pending =>
            have present : storeAfter world.db.log index .planRequests key = some r := row
            by_cases same : id = key
            · subst same
              exact .decided present pending (after false now [] id r present (by simp))
            · exact .kept (by simp [same])
    | _ => simp [Call.tables] at touched
  · exact .kept (untouched_table lawful touched _ _)

theorem requests_always (legit : Legit config world) (holds : PlanRequestRow → Prop)
    (fresh : ∀ (user : AuthUser) (dto : CreateRequestDto) source now, dto.source = some source →
      holds (newRequest user source now))
    (replaces : ∀ (dto : CreateRequestDto) source now row, dto.source = some source → holds row →
      holds (RequestOp.run now (.replace source) row))
    (decides : ∀ approve actor now row, row.status = .pending → holds row →
      holds (RequestOp.run now (.decide (decision approve) actor) row))
    {commits id : Nat} (bound : commits ≤ world.db.log.length) {r : PlanRequestRow}
    (present : storeAfter world.db.log commits .planRequests id = some r) : holds r := by
  refine log_induction legit (fun commits => ∀ r : PlanRequestRow,
    storeAfter world.db.log commits .planRequests id = some r → holds r) (by simp [storeAfter]) ?_
    commits bound r present
  intro index thread acts call found called lawful next ih r present
  rw [next] at present
  cases request_block lawful id with
  | kept same => exact ih r (same.symm.trans present)
  | made given absent after =>
      rw [after, Option.some.injEq] at present
      exact present ▸ fresh _ _ _ _ given
  | replaced given row asked earlier after =>
      rw [after, Option.some.injEq] at present
      exact present ▸ replaces _ _ _ _ given (ih _ row)
  | decided row pending after =>
      rw [after, Option.some.injEq] at present
      exact present ▸ decides _ _ _ _ pending (ih _ row)

theorem request_shape (legit : Legit config world) (id : Nat) {commits : Nat}
    (bound : commits ≤ world.db.log.length) {r : PlanRequestRow}
    (present : storeAfter world.db.log commits .planRequests id = some r) : OneSource r.source := by
  refine requests_always legit (fun r => OneSource r.source) ?_ ?_ ?_ bound present
  · exact fun user dto source now given => source_one given
  · exact fun dto source now row given _ => source_one given
  · exact fun approve actor now row _ shape => shape

end Shape

section Approval
variable {config : Config} {pool : ServerPool}

/-- The NULL that the join could yield never reaches the multiplication. -/
theorem creditedMinutes_eq {rows : Store} (resolved : Resolved rows) {id : Nat} {r : PlanRequestRow}
    (seen : rows .planRequests id = some r) :
    creditedMinutes r (planAt rows r) = requestMinutes r (planAt rows r) ∧
      0 < requestMinutes r (planAt rows r) := by
  unfold creditedMinutes requestMinutes planAt
  cases source : r.source.planId with
  | some plan =>
      obtain ⟨row, present⟩ := Option.isSome_iff_exists.mp (resolved id r plan seen source)
      simp only [Option.bind_some, present, Option.map_some, Option.some_or, Option.getD_some,
        true_and]
      exact PlanRow.durationPositive _
  | none =>
      have given := r.source.chkRequestSource
      simp only [source, Option.isSome_none, Bool.false_eq_true, false_or] at given
      obtain ⟨minutes, asked⟩ := Option.isSome_iff_exists.mp given
      simp only [Option.bind_none, Option.map_none, Option.none_or, asked,
        Option.getD_some, true_and]
      exact r.source.minutesPositive minutes (by simp [asked])

theorem requestWithPlan_answer (ready : Ready pool.state) {thread id read : Nat}
    {r : PlanRequestRow} {plan : Option PlanRow} {time : Time} {view : View}
    (asked : ⟨thread, .query (.requestWithPlan id), .ok (some (r, plan)), time, read, [], view⟩ ∈
      pool.state.hist) :
    storeAfter pool.state.db.log read .planRequests id = some r ∧
      plan = planAt (storeAfter pool.state.db.log read) r := by
  obtain ⟨answered, _, rows⟩ := ready.truthful _ asked
  replace rows : view.rows = storeAfter pool.state.db.log read := rows
  replace answered : some (r, plan) = Query.eval view (.requestWithPlan id) := answered
  simp only [Query.eval] at answered
  split at answered
  · rename_i request found
    rw [Option.some.injEq, Prod.mk.injEq] at answered
    obtain ⟨rfl, rfl⟩ := answered
    rw [← rows]
    exact ⟨found, rfl⟩
  · cases answered

theorem lock_answer (ready : Ready pool.state) {thread id lock : Nat} {r : PlanRequestRow}
    {late : Time} {held : View}
    (locked : ⟨thread, .lock .planRequests id, .ok (some r), late, lock, [], held⟩ ∈
      pool.state.hist) :
    storeAfter pool.state.db.log lock .planRequests id = some r := by
  obtain ⟨answered, _, rows⟩ := ready.truthful _ locked
  have present : held.rows .planRequests id = some r := answered
  have same : held.rows = storeAfter pool.state.db.log lock := rows
  rwa [same] at present

theorem approval_of_block (reached : Reached config pool) {thread index id read lock : Nat}
    {actor : AuthUser} {found r : PlanRequestRow} {plan : Option PlanRow} {account : UserRow}
    {now time late : Time} {view held : View}
    (called : pool.state.arrivals[thread]? = some (.decide actor id true))
    (block : pool.state.db.log[index]? = some (thread,
      approveActs actor.id id r (rejoined found r plan) now))
    (row : storeAfter pool.state.db.log index .planRequests id = some r)
    (pending : r.status = .pending)
    (owner : storeAfter pool.state.db.log index .users r.userId = some account)
    (asked : ⟨thread, .query (.requestWithPlan id), .ok (some (found, plan)), time, read, [],
      view⟩ ∈ pool.state.hist) (ordered : read ≤ lock)
    (locked : ⟨thread, .lock .planRequests id, .ok (some r), late, lock, [], held⟩ ∈
      pool.state.hist) (earlier : lock ≤ index) :
    ∃ credit, Approves pool.state id thread index credit ∧
      (approveActs actor.id id r (rejoined found r plan) now).filterMap creditOf = [credit] ∧
      credit.user = r.userId ∧ credit.source = .request id := by
  have ready := reached_ready reached
  obtain ⟨before, rfl⟩ := requestWithPlan_answer ready asked
  have selected := SelectedAt.mk asked ordered locked before (lock_answer ready locked)
  generalize rejoined found r (planAt (storeAfter pool.state.db.log read) found) = plan at *
  have after : storeAfter pool.state.db.log (index + 1) .users r.userId =
      some (UserOp.run (.credit (creditedMinutes r plan * 60) (some (creditedLimit plan))
        (.request id)) account) := by
    rw [storeAfter_succ _ _ _ block]
    simp [approveActs, owner, Op.run]
  refine ⟨_, .mk called block selected earlier row pending owner after ?_ rfl, ?_, rfl, rfl⟩
  · rw [Nat.mul_comm]
    rfl
  · simp [approveActs, Nat.mul_comm]

theorem uncredited_request {config : Config} {world : World} {index thread : Nat} {call : Call}
    {acts : List Entry} (lawful : Lawful config (world.basisAt index) thread call acts) (id : Nat)
    (other : ∀ actor, call ≠ .decide actor id true) :
    (acts.filterMap creditOf).filter (fun credit => credit.source = .request id) = [] := by
  simp only [List.filter_eq_nil_iff, List.mem_filterMap, decide_eq_true_eq]
  rintro credit ⟨entry, member, found⟩ source
  obtain ⟨_, _, _, _, same⟩ | ⟨actor, key, same, from'⟩ | ⟨_, _, _, _, same⟩ :=
    lawful_credit lawful entry member credit found
  · simp [source] at same
  · rw [source, CreditSource.request.injEq] at from'
    exact other actor (from' ▸ same)
  · simp [source] at same

theorem request_kept {world : World} {id index : Nat} {given : List Credit}
    (state : RequestState world id index given)
    (same : storeAfter world.db.log (index + 1) .planRequests id =
      storeAfter world.db.log index .planRequests id) :
        RequestState world id (index + 1) given := by
  cases state with
  | absent empty => exact .absent (same.trans empty)
  | unapproved r present status => exact .unapproved r (same.trans present) status
  | approved r thread index' credit present status past approval same' =>
      exact .approved r thread index' credit (same.trans present) status
        (Nat.lt_succ_of_lt past) approval same'

theorem request_state (reached : Reached config pool) (id : Nat) {commits : Nat}
    (bound : commits ≤ pool.state.db.log.length) :
    RequestState pool.state id commits
      (creditsFor (pool.state.db.log.take commits) (.request id)) := by
  refine log_induction (reached_legit reached) (fun commits => RequestState pool.state id commits
    (creditsFor (pool.state.db.log.take commits) (.request id))) ?_ ?_ commits bound
  · exact .absent rfl
  intro index thread acts call block called lawful next state
  rw [creditsFor_succ block]
  by_cases approves : ∃ actor, call = .decide actor id true
  · obtain ⟨actor, rfl⟩ := approves
    cases lawful with
    | nothing => simpa using request_kept state (by rw [next]; rfl)
    | @approve _ _ read lock shown r plan account now time late view held row pending owner asked
        ordered locked earlier =>
        have row' : storeAfter pool.state.db.log index .planRequests id = some r := row
        have short : lock ≤ index := by
          have bounded : lock ≤ (pool.state.db.log.take index).length := earlier
          rw [List.length_take] at bounded
          omega
        obtain ⟨credit, approval, credited, same, source⟩ :=
          approval_of_block reached called block row' pending owner asked ordered locked short
        have fresh : creditsFor (pool.state.db.log.take index) (.request id) = [] := by
          generalize creditsFor (pool.state.db.log.take index) (.request id) = given at state
          cases state with
          | absent => rfl
          | unapproved => rfl
          | approved other _ _ _ present status =>
              rw [row', Option.some.injEq] at present
              subst present
              simp [pending] at status
        have single : ([alter .planRequests id (.decide .approved actor.id) now,
            alter .users r.userId (.credit (creditedMinutes r (rejoined shown r plan) * 60)
              (some (creditedLimit (rejoined shown r plan))) (.request id)) now] :
                List Entry).filterMap creditOf = [credit] := credited
        rw [fresh, single, List.nil_append, List.filter_cons_of_pos (by simp [source]),
          List.filter_nil]
        refine .approved (RequestOp.run now (.decide .approved actor.id) r) thread
          index credit ?_ rfl (Nat.lt_succ_self _) approval same
        rw [next]
        simp [row', Op.run]
  · rw [uncredited_request lawful id fun actor same => approves ⟨actor, same⟩, List.append_nil]
    cases request_block lawful id with
    | kept same => exact request_kept state (next ▸ same)
    | made given absent after =>
        rw [← next] at after
        generalize creditsFor (pool.state.db.log.take index) (.request id) = given at state ⊢
        cases state with
        | absent => exact .unapproved _ after (by simp [newRequest])
        | unapproved r present => simp [absent] at present
        | approved r _ _ _ present => simp [absent] at present
    | replaced given row asked earlier after =>
        rw [← next] at after
        generalize creditsFor (pool.state.db.log.take index) (.request id) = given at state ⊢
        cases state with
        | absent empty => simp [row] at empty
        | unapproved r present status =>
            rw [row, Option.some.injEq] at present
            subst present
            exact .unapproved _ after status
        | approved r thread' index' credit present status past approval same =>
            rw [row, Option.some.injEq] at present
            subst present
            exact .approved _ thread' index' credit after status (Nat.lt_succ_of_lt past)
              approval same
    | @decided actor approve now before _ row pending after =>
        rw [← next] at after
        cases approve with
        | true => exact absurd ⟨actor, rfl⟩ approves
        | false =>
            generalize creditsFor (pool.state.db.log.take index) (.request id) = given at state ⊢
            cases state with
            | absent empty => simp [row] at empty
            | unapproved r present status =>
                exact .unapproved _ after (by simp [RequestOp.run, decision])
            | approved r _ _ _ present status =>
                rw [row, Option.some.injEq] at present
                subst present
                simp [pending] at status

end Approval

section Once
variable {config : Config} {pool : ServerPool}

theorem decided_stays {world : World} (legit : Legit config world) {id first last : Nat}
    {r : PlanRequestRow} (ordered : first ≤ last) (bound : last ≤ world.db.log.length)
    (present : storeAfter world.db.log first .planRequests id = some r)
    (decided : r.status ≠ .pending) :
    ∃ after : PlanRequestRow, storeAfter world.db.log last .planRequests id = some after ∧
      after.status = r.status := by
  refine log_stretch legit (fun commits => ∃ after : PlanRequestRow,
    storeAfter world.db.log commits .planRequests id = some after ∧ after.status = r.status)
    ordered bound ⟨r, present, rfl⟩ ?_
  rintro index thread acts call _ _ _ _ lawful next ⟨middle, found, status⟩
  rw [next]
  cases request_block lawful id with
  | kept same => exact ⟨middle, same.trans found, status⟩
  | made given absent after => simp [found] at absent
  | replaced given row asked earlier after =>
      rw [found, Option.some.injEq] at row
      subst row
      exact ⟨_, after, status⟩
  | decided row pending after =>
      rw [found, Option.some.injEq] at row
      subst row
      exact absurd (status.symm.trans pending) decided

theorem answered_block (reached : Reached config pool) {thread id : Nat} {actor : AuthUser}
    {approve : Bool} {reply : Reply}
    (called : pool.state.arrivals[thread]? = some (.decide actor id approve))
    (answered : pool.threads[thread]? = some (some (.done reply))) :
    ∃ index acts now, ∃ r : PlanRequestRow,
      pool.state.db.log[index]? = some (thread, acts) ∧ acts ≠ [] ∧
      storeAfter pool.state.db.log index .planRequests id = some r ∧ r.status = .pending ∧
      storeAfter pool.state.db.log (index + 1) .planRequests id =
        some (RequestOp.run now (.decide (decision approve) actor.id) r) := by
  obtain ⟨now, rest, own⟩ : DecideOutcome actor.id id approve thread (.ok reply) pool.state :=
    answered_outcome reached called answered
  obtain ⟨index, found⟩ := own_block (own ▸ List.mem_singleton_self _)
  obtain ⟨call, called', lawful⟩ := block_lawful (reached_legit reached) found
  rw [called, Option.some.injEq] at called'
  subst called'
  have next := storeAfter_succ _ _ _ found
  generalize made : alter .planRequests id (.decide (decision approve) actor.id) now :: rest = acts
    at *
  have nonempty : acts ≠ [] := by simp [← made]
  cases lawful with
  | nothing => exact absurd rfl nonempty
  | @approve _ _ read lock found r plan account now time late view held row pending =>
      have present : storeAfter pool.state.db.log index .planRequests id = some r := row
      refine ⟨index, _, now, r, found, nonempty, present, pending, ?_⟩
      rw [next]
      simp [present, Op.run, decision]
  | @reject _ _ r now row pending =>
      have present : storeAfter pool.state.db.log index .planRequests id = some r := row
      refine ⟨index, _, now, r, found, nonempty, present, pending, ?_⟩
      rw [next]
      simp [present, Op.run, decision]

theorem decision_decided (approve : Bool) (now : Time) (actorId : Nat) (r : PlanRequestRow) :
    (RequestOp.run now (.decide (decision approve) actorId) r).status ≠ .pending := by
  cases approve <;> simp [RequestOp.run, decision]

/-- The place in the log at which a request is decided, if there is one. -/
structure DecidedAt (world : World) (id index : Nat) : Prop where
  bound : index < world.db.log.length
  before : ∃ r : PlanRequestRow, storeAfter world.db.log index .planRequests id = some r ∧
    r.status = .pending
  after : ∃ r : PlanRequestRow, storeAfter world.db.log (index + 1) .planRequests id = some r ∧
    r.status ≠ .pending

theorem decidedAt_unique {world : World} (legit : Legit config world) {id first second : Nat}
    (left : DecidedAt world id first) (right : DecidedAt world id second) : first = second := by
  -- the later one would have met a decided row
  have ordered : ∀ {first second : Nat}, DecidedAt world id first → DecidedAt world id second →
      ¬ first < second := by
    intro first second left right before
    obtain ⟨r, present, decided⟩ := left.after
    obtain ⟨r', present', pending⟩ := right.before
    obtain ⟨middle, found, status⟩ := decided_stays legit before (Nat.le_of_lt right.bound) present
      decided
    rw [present', Option.some.injEq] at found
    subst found
    exact decided (status.symm.trans pending)
  exact Nat.le_antisymm (Nat.not_lt.mp (ordered right left)) (Nat.not_lt.mp (ordered left right))

theorem approves_decidedAt {world : World} {id thread index : Nat} {credit : Credit}
    (approval : Approves world id thread index credit) : DecidedAt world id index := by
  cases approval with
  | @mk actor r plan account credited now read lock called block selected earlier row pending =>
      refine ⟨(List.getElem?_eq_some_iff.mp block).1, ⟨r, row, pending⟩, ?_⟩
      rw [storeAfter_succ _ _ _ block]
      refine ⟨RequestOp.run now (.decide .approved actor.id) r, ?_, by simp [RequestOp.run]⟩
      simp [approveActs, row, Op.run]

theorem answered_decidedAt (reached : Reached config pool) {thread id : Nat} {actor : AuthUser}
    {approve : Bool} {reply : Reply}
    (called : pool.state.arrivals[thread]? = some (.decide actor id approve))
    (answered : pool.threads[thread]? = some (some (.done reply))) :
    ∃ index acts, pool.state.db.log[index]? = some (thread, acts) ∧
      DecidedAt pool.state id index := by
  obtain ⟨index, acts, now, r, found, _, row, pending, after⟩ :=
    answered_block reached called answered
  exact ⟨index, acts, found, (List.getElem?_eq_some_iff.mp found).1, ⟨r, row, pending⟩,
    ⟨_, after, decision_decided _ _ _ _⟩⟩

theorem decided_by_one (reached : Reached config pool) {thread thread' id : Nat}
    {actor actor' : AuthUser} {approve approve' : Bool} {reply reply' : Reply}
    (called : pool.state.arrivals[thread]? = some (.decide actor id approve))
    (answered : pool.threads[thread]? = some (some (.done reply)))
    (called' : pool.state.arrivals[thread']? = some (.decide actor' id approve'))
    (answered' : pool.threads[thread']? = some (some (.done reply'))) : thread = thread' := by
  obtain ⟨index, acts, found, decided⟩ := answered_decidedAt reached called answered
  obtain ⟨index', acts', found', decided'⟩ := answered_decidedAt reached called' answered'
  rw [decidedAt_unique (reached_legit reached) decided' decided, found, Option.some.injEq,
    Prod.mk.injEq] at found'
  exact found'.1

theorem answered_approval (reached : Reached config pool) {thread id : Nat} {actor : AuthUser}
    {reply : Reply} (called : pool.state.arrivals[thread]? = some (.decide actor id true))
    (answered : pool.threads[thread]? = some (some (.done reply))) :
    ∃ index credit, Approves pool.state id thread index credit ∧
      creditsFor pool.state.db.log (.request id) = [credit] := by
  obtain ⟨index, acts, now, r, found, _, row, pending, after⟩ :=
    answered_block reached called answered
  have legit := reached_legit reached
  have bound := (List.getElem?_eq_some_iff.mp found).1
  obtain ⟨last, present, status⟩ := decided_stays legit (Nat.succ_le_of_lt bound) (Nat.le_refl _)
    after (decision_decided _ _ _ _)
  have state := request_state reached id (Nat.le_refl _)
  rw [List.take_length] at state
  generalize creditsFor pool.state.db.log (.request id) = given at state
  cases state with
  | absent empty => simp [present] at empty
  | unapproved other present' status' =>
      rw [present, Option.some.injEq] at present'
      subst present'
      exact absurd status status'
  | approved other thread' index' credit present' status' past approval same =>
      have unique := decidedAt_unique legit (approves_decidedAt approval)
        ⟨bound, ⟨r, row, pending⟩, ⟨_, after, decision_decided _ _ _ _⟩⟩
      subst unique
      obtain rfl : thread' = thread := by
        cases approval with
        | mk _ block =>
            rw [found, Option.some.injEq, Prod.mk.injEq] at block
            exact block.1.symm
      exact ⟨_, credit, approval, rfl⟩

/-- Where the locking SELECT answers the latest rows, an approval credits what they say. -/
theorem approves_latest (reached : Reached config pool) (latest : SelectsLatest pool.state)
    {id thread index : Nat} {credit : Credit}
    (approval : Approves pool.state id thread index credit) :
    ∃ lock, ApprovedAt pool.state id thread index lock credit := by
  cases approval with
  | @mk actor r plan account credited now read lock called block selected earlier row pending
      before after balance limit =>
    have bound := (List.getElem?_eq_some_iff.mp block).1
    obtain rfl := latest id thread read lock r plan selected
    obtain ⟨time, view, locked, seen⟩ : ∃ time view,
        ⟨thread, .lock .planRequests id, .ok (some r), time, lock, [], view⟩ ∈ pool.state.hist ∧
          storeAfter pool.state.db.log lock .planRequests id = some r := by
      generalize planAt (storeAfter pool.state.db.log lock) r = plan at selected
      cases selected with
      | mk asked ordered locked first seen => exact ⟨_, _, locked, seen⟩
    obtain ⟨minutes, positive⟩ := creditedMinutes_eq
      (reached_resolved reached lock (Nat.le_trans earlier (Nat.le_of_lt bound))) seen
    rw [minutes] at balance ⊢
    exact ⟨lock, .mk called block locked earlier seen row pending before after balance limit
      positive⟩

theorem rejection_untouched {world : World} (legit : Legit config world) {thread id index : Nat}
    {actor : AuthUser} {acts : List Entry}
    (called : world.arrivals[thread]? = some (.decide actor id false))
    (found : world.db.log[index]? = some (thread, acts)) (user : Nat) :
    storeAfter world.db.log (index + 1) .users user = storeAfter world.db.log index
      .users user := by
  obtain ⟨call, called', lawful⟩ := block_lawful legit found
  rw [called, Option.some.injEq] at called'
  subst called'
  rw [storeAfter_succ _ _ _ found]
  cases lawful with
  | nothing => rfl
  | reject => simp

/-- Every request has one source; it is credited if and only if it is approved,
once, with the minutes that the approving SELECT showed; at most one decide of it
answers; a rejection leaves every account alone, and so does a decide that threw, unless
it did not hear that its COMMIT was carried out. -/
theorem request_decided_once (config : Config) (pool : ServerPool)
    (reached : Reached config pool) (latest : SelectsLatest pool.state) :
    (∀ id, ∀ r : PlanRequestRow, pool.state.db.store .planRequests id = some r →
      OneSource r.source ∧
      (r.status = .approved → ∃ thread index lock credit,
        ApprovedAt pool.state id thread index lock credit ∧
        creditsFor pool.state.db.log (.request id) = [credit] ∧ credit.user = r.userId) ∧
      (r.status ≠ .approved → creditsFor pool.state.db.log (.request id) = [])) ∧
    (∀ id thread actor approve reply,
      pool.state.arrivals[thread]? = some (.decide actor id approve) →
      pool.threads[thread]? = some (some (.done reply)) →
        (approve = true → ∃ index lock credit,
          ApprovedAt pool.state id thread index lock credit ∧
          creditsFor pool.state.db.log (.request id) = [credit]) ∧
        ∀ thread' actor' approve' reply',
          pool.state.arrivals[thread']? = some (.decide actor' id approve') →
          pool.threads[thread']? = some (some (.done reply')) → thread = thread') ∧
    (∀ id thread actor, pool.state.arrivals[thread]? = some (.decide actor id false) →
      ∀ index acts, pool.state.db.log[index]? = some (thread, acts) → ∀ user,
        storeAfter pool.state.db.log (index + 1) .users user =
          storeAfter pool.state.db.log index .users user) ∧
    (∀ id thread actor approve error,
      pool.state.arrivals[thread]? = some (.decide actor id approve) →
      pool.threads[thread]? = some (some (.raise error)) → ¬ Lost pool.state thread →
        ∀ block ∈ pool.state.db.log, block.1 ≠ thread) := by
  have legit := reached_legit reached
  refine ⟨?_, ?_, ?_, ?_⟩
  · intro id r present
    rw [(reached_ready reached).recorded] at present
    refine ⟨request_shape legit id (Nat.le_refl _) present, ?_⟩
    have state := request_state reached id (Nat.le_refl _)
    rw [List.take_length] at state
    generalize creditsFor pool.state.db.log (.request id) = given at state ⊢
    cases state with
    | absent empty => simp [present] at empty
    | unapproved other present' status =>
        rw [present, Option.some.injEq] at present'
        subst present'
        exact ⟨fun approved => absurd approved status, fun _ => rfl⟩
    | approved other thread index credit present' status past approval same =>
        rw [present, Option.some.injEq] at present'
        subst present'
        obtain ⟨lock, approved⟩ := approves_latest reached latest approval
        exact ⟨fun _ => ⟨thread, index, lock, credit, approved, rfl, same⟩,
          fun other => absurd status other⟩
  · intro id thread actor approve reply called answered
    refine ⟨?_, ?_⟩
    · rintro rfl
      obtain ⟨index, credit, approval, single⟩ := answered_approval reached called answered
      obtain ⟨lock, approved⟩ := approves_latest reached latest approval
      exact ⟨index, lock, credit, approved, single⟩
    · intro thread' actor' approve' reply' called' answered'
      exact decided_by_one reached called answered called' answered'
  · intro id thread actor called index acts found user
    exact rejection_untouched legit called found user
  · intro id thread actor approve error called thrown heard
    have withdrawn : pool.state.Withdrawn thread := thrown_outcome reached called thrown
    exact withdrawn_silent withdrawn heard

end Once

def halfHour : CreateRequestDto where
  planId := none
  minutes := some 30
  planMin := deactivate.limitPositive
  minutesRange := by simp

/-- The SELECT of a decide, if these are its snapshot and its lock, answered the latest plan. -/
def latestOf (log : List Block) (asked locked : Event) : Bool :=
  match asked, locked with
  | ⟨thread, .query (.requestWithPlan id), .ok (some (found, plan)), _, _, _, _⟩,
      ⟨holder, .lock .planRequests key, .ok (some r), _, lock, _, _⟩ =>
      thread != holder || id != key ||
        rejoined found r plan == planAt (storeAfter log lock) r
  | _, _ => true

theorem selectsLatest_all {world : World} (all : world.hist.all (fun asked =>
    world.hist.all (latestOf world.db.log asked)) = true) : SelectsLatest world := by
  intro id thread read lock r plan selected
  cases selected with
  | mk asked ordered locked before seen =>
      have pair := List.all_eq_true.mp (List.all_eq_true.mp all _ asked) _ locked
      simpa [latestOf] using pair

def doubleApprove : List (Move Choice Call Ambient) :=
  opening ++ [.start (.createRequest guest halfHour)] ++ steps 1 5 ++
    [.start (.decide staff 1 true), .start (.decide staff 1 true)] ++
    steps 2 3 ++ steps 3 2 ++ steps 2 4 ++ steps 3 2

theorem request_decided_once_raced : ∃ pool, Reached shop pool ∧
    (creditsFor pool.state.db.log (.request 1)).length = 1 ∧
    ∀ block ∈ pool.state.db.log, block.1 ≠ 3 := by
  obtain ⟨pool, reached, arrivals, seen⟩ := play_shows shop doubleApprove
    (fun pool => (((pool.state.db.store .planRequests 1).map fun r : PlanRequestRow => r.status),
      answerOf pool 3, decide (Lost pool.state 3), pool.state.hist.all fun asked =>
        pool.state.hist.all (latestOf pool.state.db.log asked)))
    (some .approved, some (.error (.badRequest "Request already approved")), false, true)
    (by decide +kernel)
  obtain ⟨row, rest⟩ := Prod.mk.inj seen
  obtain ⟨threw, rest⟩ := Prod.mk.inj rest
  obtain ⟨heard, all⟩ := Prod.mk.inj rest
  obtain ⟨r, present, status⟩ := Option.map_eq_some_iff.mp row
  obtain ⟨credited, _, _, silent⟩ :=
    request_decided_once shop pool reached (selectsLatest_all all)
  refine ⟨pool, reached, ?_, ?_⟩
  · obtain ⟨_, _, _, credit, _, single, _⟩ := (credited 1 r present).2.1 status
    rw [single, List.length_singleton]
  · exact silent 1 3 staff true _ (by rw [arrivals]; rfl) (answerOf_error threw)
      (of_decide_eq_false heard)

def asking : List (Move Choice Call Ambient) :=
  opening ++ [.start (.createRequest guest halfHour)] ++ steps 1 5

/-- The COMMIT of the approval is carried out, and its answer lost. -/
def lostApproval : List (Move Choice Call Ambient) :=
  [.start (.decide staff 1 true)] ++ steps 2 5 ++
    [.advance 2 { fails := true, took := true }] ++ steps 2 1

/-- The approval throws, and the guest has the half hour. -/
theorem lost_approval_credits : ∃ before after : ServerPool, Reached shop before ∧
    run (server shop) before lostApproval = some after ∧
    after.state.arrivals[2]? = some (.decide staff 1 true) ∧
    after.threads[2]? = some (some (.raise .lost)) ∧ SelectsLatest after.state ∧
    holdings before 2 = some (0, 1) ∧ holdings after 2 = some (1800, 1) := by
  obtain ⟨before, after, reached, ran, calls, calls', seen⟩ := plays_show shop asking lostApproval
    (fun before after => (answerOf after 2, holdings before 2, holdings after 2,
      after.state.hist.all fun asked => after.state.hist.all (latestOf after.state.db.log asked)))
    (some (.error .lost), some (0, 1), some (1800, 1), true) (by decide +kernel)
  obtain ⟨answer, rest⟩ := Prod.mk.inj seen
  obtain ⟨poor, rest⟩ := Prod.mk.inj rest
  obtain ⟨rich, all⟩ := Prod.mk.inj rest
  exact ⟨before, after, reached, ran, by rw [calls']; rfl, answerOf_error answer,
    selectsLatest_all all, poor, rich⟩

end Cybera
