import Cybera.Chronicle
import Cybera.Replacement

/-!
RequestsService.create inserts a request after a SELECT that found none pending.
The table has no constraint to that effect, so a request that another create of
the same customer inserts in between goes unseen.
-/

namespace Cybera

open Interleaving

def OnePending (rows : Store) : Prop :=
  ∀ id key, ∀ r other : PlanRequestRow, rows .planRequests id = some r →
    rows .planRequests key = some other → r.status = .pending → other.status = .pending →
      other.userId = r.userId → id = key

/-- The block at `index` inserts a request for the user. -/
def SubmitsAt (world : World) (user id index : Nat) : Prop :=
  ∃ thread acts, ∃ row : PlanRequestRow, world.db.log[index]? = some (thread, acts) ∧
    create .planRequests id row ∈ acts ∧ row.userId = user

structure OneAtATime (world : World) : Prop where
  one : ∀ commits, commits ≤ world.db.log.length → OnePending (storeAfter world.db.log commits)
  /-- a create inserts only for a customer who has nothing pending -/
  replaces : ∀ user id index, SubmitsAt world user id index → ∀ key, ∀ r : PlanRequestRow,
    storeAfter world.db.log index .planRequests key = some r → r.userId = user →
      r.status ≠ .pending
  /-- a decision leaves the customer without anything that could be approved -/
  decides : ∀ id index, DecidesAt world id index → ∀ r other : PlanRequestRow, ∀ key,
    storeAfter world.db.log index .planRequests id = some r →
    storeAfter world.db.log (index + 1) .planRequests key = some other →
      other.userId = r.userId → other.status ≠ .pending

/-- Between the SELECT of a create that found nothing pending and its INSERT no
other request of the customer is inserted, unless it is decided as well. -/
def NoSubmissionBetween (world : World) : Prop :=
  ∀ thread index id, ∀ row : PlanRequestRow, ∀ acts, world.db.log[index]? = some (thread, acts) →
    create .planRequests id row ∈ acts → ∀ time read view,
      ⟨thread, .query (.pendingRequest row.userId), .ok none, time, read, [], view⟩ ∈ world.hist →
        ∀ key between, read ≤ between → between < index → SubmitsAt world row.userId key between →
          ∃ decided, between < decided ∧ decided < index ∧ DecidesAt world key decided

/-- The SELECT comes before the INSERT, and before anything is written. -/
def Asks (call : Call) (past : List (Done Cmd Res Failure)) : Cmd → Prop
  | .insert .planRequests row _ => ∃ user dto, call = .createRequest user dto ∧
      (∀ now, (row now).userId = user.id) ∧
        ⟨.query (.pendingRequest user.id), .ok none⟩ ∈ past
  | .query (.pendingRequest _) => (∃ user dto, call = .createRequest user dto) →
      ∀ done ∈ past, done.1.Reads
  | _ => True

section Order
variable {config : Config}

theorem create_asks (user : AuthUser) (dto : CreateRequestDto) :
    Along (Asks (.createRequest user dto)) (Ends fun _ _ => True)
      (RequestsService.create user dto) [] := by
  refine along_orThrow _ _ _ (fun _ => trivial) fun source _ => ?_
  refine along_then (fun _ past => ∀ done ∈ past, done.1.Reads) ?_ ?_
  · unfold checkPlan
    split
    · simp [Along, Branch]
    · refine along_perform _ _ trivial (fun active => ?_) fun _ => trivial
      cases active with
      | false => trivial
      | true =>
          intro done member
          rw [List.mem_singleton.mp member]
          trivial
  · intro _ past reads
    refine along_perform _ _ (fun _ => reads) (fun pending => ?_) fun _ => trivial
    refine along_then (fun _ _ => True) ?_ ?_
    · cases pending with
      | none =>
          refine along_tx trivial (fun _ => trivial)
            (along_insertRow ?_ fun _ => ⟨trivial, trivial⟩)
          exact ⟨user, dto, rfl, fun _ => rfl, by simp⟩
      | some id =>
          refine along_then (fun _ _ => True) ?_ ?_
          · exact along_tx trivial (fun _ => trivial)
              (along_command _ trivial fun _ => ⟨trivial, trivial⟩)
          · intro row _ _
            exact along_orThrow _ _ _ (fun _ => trivial) fun _ _ => trivial
    · intro _ _ _
      refine along_then (fun _ _ => True) ?_ fun _ _ _ => trivial
      apply along_rescue
      exact ⟨trivial, fun answer => by cases answer <;> trivial⟩

theorem call_asks (call : Call) :
    Along (Asks call) (fun _ _ => True) (call.program config) [] := by
  by_cases creates : ∃ user dto, call = .createRequest user dto
  · obtain ⟨user, dto, rfl⟩ := creates
    exact along_post (fun _ _ _ => trivial) _ (create_asks user dto)
  · refine along_mono ?_ (fun _ _ _ => trivial) _ (uses_along _ (call_uses call))
    intro past cmd may
    unfold Asks
    split
    · exfalso
      revert may
      cases call with
      | createRequest user dto => exact absurd ⟨user, dto, rfl⟩ creates
      | _ => simp [Call.mayDo, Call.inserts]
    · exact fun some' => absurd some' creates
    · trivial

end Order

section Runs
variable {config : Config} {pool : ServerPool}

theorem wrote_create {event : Event} {table : TableName} {id : Nat} {row : Row table}
    (wrote : event.Wrote (create table id row)) : ∃ made skip,
      event.cmd = .insert table made skip ∧ row = made event.view.now := by
  generalize same : create table id row = entry at wrote
  cases wrote with
  | update =>
      simp only [create, alter, RowLock.Entry.mk.injEq] at same
      obtain ⟨rfl, _, same⟩ := same
      cases same
  | delete =>
      simp only [create, remove, RowLock.Entry.mk.injEq] at same
      obtain ⟨rfl, _, same⟩ := same
      cases same
  | @insert thread commits key other made skip time pending view =>
      simp only [create, RowLock.Entry.mk.injEq] at same
      obtain ⟨rfl, _, same⟩ := same
      rw [heq_eq_eq, Act.insert.injEq] at same
      exact ⟨made, skip, rfl, same⟩

theorem wrote_unread {event : Event} {entry : Entry} (wrote : event.Wrote entry) :
    ¬ event.cmd.Reads := by
  cases wrote <;> exact id

theorem submission_asked (reached : Reached config pool) {thread index id : Nat}
    {row : PlanRequestRow} {acts : List Entry}
    (found : pool.state.db.log[index]? = some (thread, acts))
    (member : create .planRequests id row ∈ acts) : ∃ time read view,
      ⟨thread, .query (.pendingRequest row.userId), .ok none, time, read, [], view⟩ ∈
        pool.state.hist ∧ read ≤ index := by
  have chronicle := reached_chronicle reached
  have ordered := reached_allowed call_asks reached
  obtain ⟨earlier, pos, write, before, wrote, rfl, made, _, _, time, view, _, committed⟩ :=
    block_written chronicle found member
  obtain ⟨rows, skip, command, same⟩ := wrote_create made
  obtain ⟨call, called, asks⟩ := ordered earlier write wrote
  rw [command] at asks
  obtain ⟨user, dto, rfl, owner, asked⟩ := asks
  rw [same, owner]
  obtain ⟨select, listed, own, done⟩ := mem_pastOf.mp asked
  obtain ⟨place, found'⟩ := List.mem_iff_getElem?.mp listed
  rw [List.getElem?_take, Option.ite_none_right_eq_some] at found'
  obtain ⟨first, found'⟩ := found'
  obtain ⟨mover, cmd, answer, time', read, pending, view'⟩ := select
  simp only [Event.done, Sigma.mk.injEq] at done
  obtain ⟨rfl, done⟩ := done
  rw [heq_eq_eq] at done
  subst done
  obtain rfl : mover = write.thread := own
  -- nothing has been written yet
  have nothing : pending = [] := by
    rw [List.eq_nil_iff_forall_not_mem]
    intro entry listed'
    obtain ⟨place', event, sooner, found'', own', wrote', _⟩ :=
      chronicle.pending place _ found' entry listed'
    obtain ⟨call', called', reads⟩ := ordered place _ found'
    rw [called, Option.some.injEq] at called'
    subst called'
    refine wrote_unread wrote' (reads ⟨user, dto, rfl⟩ event.done ?_)
    refine mem_pastOf.mpr ⟨event, List.mem_of_getElem? (i := place') ?_, own', rfl⟩
    rw [List.getElem?_take, if_pos sooner, found'']
  subst nothing
  refine ⟨time', read, view', List.mem_of_getElem? found', ?_⟩
  exact (history_order (reached_timeline reached) (Nat.lt_trans first before) found'
    committed).commits

theorem nonePending_answer (ready : Ready pool.state) (timeline : Timeline pool.state)
    {thread user read : Nat} {time : Time} {view : View}
    (asked : ⟨thread, .query (.pendingRequest user), .ok none, time, read, [], view⟩ ∈
      pool.state.hist) {id : Nat} {r : PlanRequestRow}
    (present : storeAfter pool.state.db.log read .planRequests id = some r)
    (mine : r.userId = user) : r.status ≠ .pending := by
  intro pending
  obtain ⟨answered, _, rows⟩ := ready.truthful _ asked
  replace rows : view.rows = storeAfter pool.state.db.log read := rows
  replace answered : none = Query.eval view (.pendingRequest user) := answered
  rw [← rows] at present
  have listed := (timeline.past _ asked).listed .planRequests id (by rw [present]; rfl)
  have seen : (id, r) ∈ view.scan .planRequests fun row : PlanRequestRow =>
      row.userId == user && row.status == .pending :=
    mem_scan.mpr ⟨listed, present, by simp [mine, pending]⟩
  simp only [Query.eval] at answered
  rw [eq_comm, Option.map_eq_none_iff, List.head?_eq_none_iff] at answered
  rw [answered] at seen
  cases seen

theorem insert_block {world : World} {index thread id : Nat} {user : AuthUser}
    {dto : CreateRequestDto} {acts : List Entry}
    (lawful : Lawful config (world.basisAt index) thread (.createRequest user dto) acts)
    (absent : storeAfter world.db.log index .planRequests id = none) {r : PlanRequestRow}
    (present : replay acts (storeAfter world.db.log index) .planRequests id = some r) :
    create .planRequests id r ∈ acts := by
  cases lawful with
  | nothing =>
      rw [replay_nil, absent] at present
      cases present
  | @createNew _ _ source key now given fresh =>
      by_cases same : id = key
      · subst same
        rw [replay_cons, replay_nil, create_same, Option.some.injEq] at present
        exact present ▸ List.mem_singleton_self _
      · rw [replay_cons, replay_nil, create_key _ _ _ _ _ same, absent] at present
        cases present
  | createReplace =>
      rw [replay_absent _ _ _ _ (alters_all _ _ ?_) absent] at present
      · cases present
      · intro entry member
        exact ⟨_, _, _, _, List.mem_singleton.mp member⟩

/-- A request that was not there at `first` and is at `last` was inserted in between. -/
theorem submitted_between {world : World} (legit : Legit config world) {id first last : Nat}
    (ordered : first ≤ last) (bound : last ≤ world.db.log.length)
    (absent : storeAfter world.db.log first .planRequests id = none) {r : PlanRequestRow}
    (present : storeAfter world.db.log last .planRequests id = some r) :
    ∃ between, first ≤ between ∧ between < last ∧ SubmitsAt world r.userId id between := by
  have goal : ∀ r : PlanRequestRow, storeAfter world.db.log last .planRequests id = some r →
      ∃ between, first ≤ between ∧ between < last ∧ SubmitsAt world r.userId id between := by
    refine log_stretch legit (fun commits => ∀ r : PlanRequestRow,
      storeAfter world.db.log commits .planRequests id = some r → ∃ between, first ≤ between ∧
        between < commits ∧ SubmitsAt world r.userId id between) ordered bound ?_ ?_
    · intro r found
      rw [absent] at found
      cases found
    · intro index thread acts call low _ block _ lawful next earlier r found
      have widen : ∀ {user : Nat}, (∃ between, first ≤ between ∧ between < index ∧
          SubmitsAt world user id between) → ∃ between, first ≤ between ∧ between < index + 1 ∧
            SubmitsAt world user id between := by
        rintro user ⟨between, after, before, submits⟩
        exact ⟨between, after, Nat.lt_succ_of_lt before, submits⟩
      rw [next] at found
      cases request_block lawful id with
      | kept same => exact widen (earlier r (same.symm.trans found))
      | @replaced user dto source now time read view before given row asked sooner after =>
          rw [after, Option.some.injEq] at found
          subst found
          exact widen (earlier before row)
      | @decided actor approve now before acts row pending after =>
          rw [after, Option.some.injEq] at found
          subst found
          exact widen (earlier before row)
      | made given absent' after =>
          have inserts := insert_block lawful absent' found
          exact ⟨index, low, Nat.lt_succ_self index, thread, acts, r, block, inserts, rfl⟩
  exact goal r present

theorem submits_alone (reached : Reached config pool) (apart : NoSubmissionBetween pool.state)
    {user id index : Nat} (submits : SubmitsAt pool.state user id index) {key : Nat}
    {r : PlanRequestRow} (present : storeAfter pool.state.db.log index .planRequests key = some r)
    (mine : r.userId = user) : r.status ≠ .pending := by
  intro pending
  have legit := reached_legit reached
  obtain ⟨thread, acts, row, found, member, rfl⟩ := submits
  obtain ⟨time, read, view, asked, earlier⟩ := submission_asked reached found member
  have bound := Nat.le_of_lt (List.getElem?_eq_some_iff.mp found).1
  cases before : storeAfter pool.state.db.log read .planRequests key with
  | none =>
      obtain ⟨between, low, high, other⟩ := submitted_between legit earlier bound before present
      obtain ⟨decided, _, past, decides⟩ := apart thread index id row acts found member time read
        view asked key between low high (mine ▸ other)
      obtain ⟨r', left, settled⟩ := (decides_decidedAt legit decides).after
      obtain ⟨after, found', status⟩ := decided_stays legit past bound left settled
      rw [present, Option.some.injEq] at found'
      subst found'
      exact settled (status.symm.trans pending)
  | some r0 =>
      obtain ⟨after, found', same⟩ := row_same legit (by simp) (by simp) earlier bound before
      rw [present, Option.some.injEq] at found'
      subst found'
      have owner : r0.userId = row.userId := Eq.trans (Eq.symm same) mine
      have settled := nonePending_answer (reached_ready reached) (reached_timeline reached) asked
        before owner
      obtain ⟨after, found', status⟩ := decided_stays legit earlier bound before settled
      rw [present, Option.some.injEq] at found'
      subst found'
      exact settled (status.symm.trans pending)

theorem pending_origin {world : World} {index thread id : Nat} {call : Call} {acts : List Entry}
    (block : world.db.log[index]? = some (thread, acts))
    (lawful : Lawful config (world.basisAt index) thread call acts) {r : PlanRequestRow}
    (present : replay acts (storeAfter world.db.log index) .planRequests id = some r)
    (pending : r.status = .pending) :
    (∃ r' : PlanRequestRow, storeAfter world.db.log index .planRequests id = some r' ∧
        r'.status = .pending ∧ r'.userId = r.userId) ∨
      SubmitsAt world r.userId id index := by
  cases request_block lawful id with
  | kept same => exact Or.inl ⟨r, same.symm.trans present, pending, rfl⟩
  | @replaced user dto source now time read view before given row asked sooner after =>
      rw [after, Option.some.injEq] at present
      subst present
      exact Or.inl ⟨before, row, pending, rfl⟩
  | @decided actor approve now before acts row waiting after =>
      rw [after, Option.some.injEq] at present
      subst present
      exact absurd pending (decision_decided approve now actor.id before)
  | made given absent after =>
      exact Or.inr ⟨thread, acts, r, block, insert_block lawful absent present, rfl⟩

theorem submission_block (legit : Legit config pool.state) {user id index : Nat}
    (submits : SubmitsAt pool.state user id index) : ∃ thread, ∃ caller : AuthUser, ∃ source now,
      pool.state.db.log[index]? =
        some (thread, [create .planRequests id (newRequest caller source now)]) ∧
      caller.id = user := by
  obtain ⟨thread, acts, row, found, member, rfl⟩ := submits
  obtain ⟨call, _, lawful⟩ := block_lawful legit found
  have listed := lawful_tables lawful _ member
  cases call with
  | createRequest user dto =>
      cases lawful with
      | nothing => cases member
      | @createNew _ _ source key now given fresh =>
          have one := List.mem_singleton.mp member
          simp only [create, RowLock.Entry.mk.injEq, heq_eq_eq, Act.insert.injEq, true_and] at one
          obtain ⟨rfl, rfl⟩ := one
          exact ⟨thread, user, source, now, found, rfl⟩
      | createReplace => simp [create, alter] at member
  | decide actor requestId approve =>
      cases lawful with
      | nothing => cases member
      | approve => simp [create, alter] at member
      | reject => simp [create, alter] at member
  | _ => simp [Call.tables, create] at listed

theorem submits_single (legit : Legit config pool.state) {user id other key index : Nat}
    (left : SubmitsAt pool.state user id index) (right : SubmitsAt pool.state other key index) :
    id = key := by
  obtain ⟨thread, caller, source, now, found, _⟩ := submission_block legit left
  obtain ⟨thread', caller', source', now', found', _⟩ := submission_block legit right
  rw [found] at found'
  simp only [create, Option.some.injEq, Prod.mk.injEq, List.cons.injEq, RowLock.Entry.mk.injEq,
    and_true] at found'
  exact found'.2.2.1

theorem onePending_stays (reached : Reached config pool) (apart : NoSubmissionBetween pool.state)
    {commits : Nat} (bound : commits ≤ pool.state.db.log.length) :
    OnePending (storeAfter pool.state.db.log commits) := by
  have legit := reached_legit reached
  refine log_induction legit (fun commits => OnePending (storeAfter pool.state.db.log commits))
    ?_ ?_ commits bound
  · intro id key r other present
    cases present
  intro index thread acts call block _ lawful next single id key r other left right pending
    pending' same
  rw [next] at left right
  have origin := pending_origin block lawful left pending
  have origin' := pending_origin block lawful right pending'
  rcases origin with ⟨before, found, waiting, owner⟩ | submits
  · rcases origin' with ⟨before', found', waiting', owner'⟩ | submits'
    · exact single id key before before' found found' waiting waiting'
        (owner'.trans (same.trans owner.symm))
    · exact absurd waiting (submits_alone reached apart submits' found (owner.trans same.symm))
  · rcases origin' with ⟨before', found', waiting', owner'⟩ | submits'
    · exact absurd waiting' (submits_alone reached apart submits found' (owner'.trans same))
    · exact submits_single legit submits submits'

theorem submits_pending (legit : Legit config pool.state) {user id index : Nat}
    (submits : SubmitsAt pool.state user id index) : ∃ r : PlanRequestRow,
      storeAfter pool.state.db.log (index + 1) .planRequests id = some r ∧ r.status = .pending ∧
        r.userId = user := by
  obtain ⟨thread, caller, source, now, found, owner⟩ := submission_block legit submits
  rw [storeAfter_succ _ _ _ found]
  exact ⟨newRequest caller source now, by simp, rfl, owner⟩

theorem oneAtATime_of_apart (reached : Reached config pool)
    (apart : NoSubmissionBetween pool.state) : OneAtATime pool.state := by
  have legit := reached_legit reached
  constructor
  · intro commits bound
    exact onePending_stays reached apart bound
  · intro user id index submits key r present mine
    exact submits_alone reached apart submits present mine
  · intro id index decides r other key present left same pending
    obtain ⟨r', present', waiting⟩ := (decides_decidedAt legit decides).before
    rw [present, Option.some.injEq] at present'
    subst present'
    obtain ⟨decider, actor, approve, acts, found, nonempty, called⟩ := decides
    obtain ⟨call, called', lawful⟩ := block_lawful legit found
    rw [called, Option.some.injEq] at called'
    subst called'
    have bound := Nat.le_of_lt (List.getElem?_eq_some_iff.mp found).1
    rw [storeAfter_succ _ _ _ found] at left
    generalize asked : Call.decide actor id approve = call at lawful
    cases request_block lawful key with
    | kept unchanged =>
        have before := unchanged.symm.trans left
        obtain rfl := onePending_stays reached apart bound id key r other present before waiting
          pending same
        -- the decision itself is what it left
        obtain ⟨r', left', settled⟩ :=
          (decides_decidedAt legit ⟨decider, actor, approve, acts, found, nonempty, called⟩).after
        rw [storeAfter_succ _ _ _ found, left, Option.some.injEq] at left'
        subst left'
        exact settled pending
    | made => cases asked
    | replaced => cases asked
    | @decided actor' approve' now before acts row _ after =>
        rw [after, Option.some.injEq] at left
        subst left
        exact decision_decided approve' now actor'.id before pending

/-- A customer has one pending request at most in exactly the runs in which no
two creates of one customer overlap so that both insert. -/
theorem one_pending_iff (config : Config) (pool : ServerPool) (reached : Reached config pool) :
    OneAtATime pool.state ↔ NoSubmissionBetween pool.state := by
  refine ⟨?_, oneAtATime_of_apart reached⟩
  intro single thread index id row acts found member time read view asked key between low high
    submits
  by_contra undecided
  have legit := reached_legit reached
  obtain ⟨r, present, pending, mine⟩ := submits_pending legit submits
  have bound := Nat.le_of_lt (List.getElem?_eq_some_iff.mp found).1
  obtain ⟨after, left, waiting⟩ := pending_stays legit high bound present pending
    fun decided past before decides => undecided ⟨decided, past, before, decides⟩
  obtain ⟨after', left', same⟩ := row_same legit (by simp) (by simp) high bound present
  rw [left, Option.some.injEq] at left'
  subst left'
  exact single.replaces row.userId id index ⟨thread, acts, row, found, member, rfl⟩ key after left
    (Eq.trans same mine) waiting

end Runs

def insertsRequest (entry : Entry) : Bool :=
  match entry with
  | ⟨.planRequests, _, .insert _⟩ => true
  | _ => false

def undisturbed : List (Move Choice Call Ambient) :=
  opening ++ [.start (.createRequest guest halfHour)] ++ steps 1 5 ++
    [.start (.createRequest guest fullDay)] ++ steps 2 5

theorem one_pending_undisturbed : ∃ pool, Reached shop pool ∧
    requestNow pool 1 = some (.pending, some 1440) ∧ OneAtATime pool.state := by
  obtain ⟨pool, reached, _, seen⟩ := play_shows shop undisturbed
    (fun pool => requestNow pool 1 == some (.pending, some 1440) &&
      !(pool.state.db.log.take 2).any (·.2.any insertsRequest) &&
      !(pool.state.db.log.drop 3).any (·.2.any insertsRequest)) true (by decide +kernel)
  simp only [Bool.and_eq_true, beq_iff_eq, Bool.not_eq_true', List.any_eq_false] at seen
  obtain ⟨⟨row, early⟩, late⟩ := seen
  -- the one INSERT is the third block
  have third : ∀ {user id index : Nat}, SubmitsAt pool.state user id index → index = 2 := by
    rintro user id index ⟨thread, acts, row, found, member, _⟩
    have inserts : acts.any insertsRequest = true := List.any_eq_true.mpr ⟨_, member, rfl⟩
    rcases Nat.lt_trichotomy index 2 with low | here | high
    · refine absurd inserts (early (thread, acts) (List.mem_of_getElem? (i := index) ?_))
      rw [List.getElem?_take, if_pos low, found]
    · exact here
    · refine absurd inserts (late (thread, acts) (List.mem_of_getElem? (i := index - 3) ?_))
      rw [List.getElem?_drop, Nat.add_sub_of_le high, found]
  refine ⟨pool, reached, row, (one_pending_iff shop pool reached).mpr ?_⟩
  intro thread index id row acts found member _ _ _ _ key between _ high submits
  have one := third ⟨thread, acts, row, found, member, rfl⟩
  have two := third submits
  omega

/-- Two taps on one button: both SELECTs come before either INSERT. -/
def doubleTap : List (Move Choice Call Ambient) :=
  opening ++ [.start (.createRequest guest halfHour), .start (.createRequest guest fullDay)] ++
    steps 1 1 ++ steps 2 5 ++ steps 1 4

def bothApproved : List (Move Choice Call Ambient) :=
  [.start (.decide staff 1 true)] ++ steps 3 7 ++ [.start (.decide staff 2 true)] ++ steps 4 7

/-- The guest has two requests pending, and both of them are approved. -/
theorem two_pending : ∃ pool final : ServerPool, Reached shop pool ∧
    run (server shop) pool bothApproved = some final ∧
    requestNow pool 1 = some (.pending, some 1440) ∧
    requestNow pool 2 = some (.pending, some 30) ∧
    credits final.state.db.log = [⟨2, 86400, .request 1⟩, ⟨2, 1800, .request 2⟩] ∧
    ¬ OneAtATime pool.state := by
  obtain ⟨pool, final, reached, ran, _, _, seen⟩ := plays_show shop doubleTap bothApproved
    (fun pool final => requestNow pool 1 == some (.pending, some 1440) &&
      requestNow pool 2 == some (.pending, some 30) &&
      (pool.state.db.store .planRequests 1).map PlanRequestRow.userId ==
        (pool.state.db.store .planRequests 2).map PlanRequestRow.userId &&
      credits final.state.db.log == [⟨2, 86400, .request 1⟩, ⟨2, 1800, .request 2⟩]) true
    (by decide +kernel)
  simp only [Bool.and_eq_true, beq_iff_eq] at seen
  obtain ⟨⟨⟨first, second⟩, owners⟩, both⟩ := seen
  refine ⟨pool, final, reached, ran, first, second, both, ?_⟩
  intro single
  obtain ⟨r, present, status⟩ := Option.map_eq_some_iff.mp first
  obtain ⟨other, present', status'⟩ := Option.map_eq_some_iff.mp second
  rw [present, present', Option.map_some, Option.map_some, Option.some.injEq] at owners
  rw [(reached_ready reached).recorded] at present present'
  have same := single.one _ (Nat.le_refl _) 1 2 r other present present'
    (congrArg Prod.fst status) (congrArg Prod.fst status') owners.symm
  exact absurd same (by decide)

end Cybera
