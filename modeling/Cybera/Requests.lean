import Cybera.Statements

/-!
RequestsService: what a create and a decide commit, and that a decide that
threw has committed nothing.
-/

namespace Cybera

open Interleaving

/-- `plan` is the one joined to the locked row. -/
def approveActs (actorId id : Nat) (r : PlanRequestRow) (plan : Option PlanRow) (now : Time) :
    List Entry :=
  [alter .planRequests id (.decide .approved actorId) now,
    alter .users r.userId (.credit (creditedMinutes r plan * 60) (some (creditedLimit plan))
      (.request id)) now]

/-- The transaction of a create: one UPDATE or one INSERT of the row it answers. -/
def WritesRequest (source : RequestSource) (id : Nat) (row : PlanRequestRow) (acts : List Entry) :
    Prop :=
  (∃ now, acts = [alter .planRequests id (.replace source) now]) ∨
    acts = [create .planRequests id row]

/-- The row that a create answers is the row that its transaction left. -/
def CreateNote (source : RequestSource) (id : Nat) (row : PlanRequestRow) (acts : List Entry)
    (basis : Basis) : Prop :=
  row.source = source ∧ ∃ rows : Option PlanRequestRow, basis.row .planRequests id rows ∧
    ∃ now, (acts = [alter .planRequests id (.replace source) now] ∧
        rows.map (RequestOp.run now (.replace source)) = some row) ∨
      acts = [create .planRequests id row]

def CreateOutcome (dto : CreateRequestDto) (thread : Nat) : Except Failure Reply → World → Prop
  | .ok reply, world => ∃ id row source acts, reply = .request id row ∧
      dto.source = some source ∧ row.source = source ∧ WritesRequest source id row acts ∧
      world.Committed thread acts (fun rows => replay acts rows .planRequests id = some row)
  | .error _, _ => True

def DecideOutcome (actorId requestId : Nat) (approve : Bool) (thread : Nat) :
    Except Failure Reply → World → Prop
  | .ok _, world => ∃ now rest, world.own thread =
      [alter .planRequests requestId (.decide (decision approve) actorId) now :: rest]
  | .error _, world => world.Withdrawn thread

/-- A listing that answered is one SELECT, with no transaction around it. -/
def ListOutcome (thread : Nat) : Except Failure Reply → World → Prop
  | .ok reply, world => ∃ items time read view, reply = .pending items ∧
      ⟨thread, .query .listPending, .ok items, time, read, [], view⟩ ∈ world.hist
  | .error _, _ => True

theorem listPending_safe {config : Config} {thread : Nat} {world : World}
    (free : Free thread world []) :
    Secure config thread (ListOutcome thread) RequestsService.listPending world := by
  have apart : (Cmd.query .listPending).Apart := trivial
  refine free_perform apart free (fun _ _ _ _ _ => trivial) ?_
  intro after items time view _ _ _ logged
  exact ⟨items, time, _, view, rfl, logged.mem⟩

section Create
variable {config : Config} {thread : Nat} {first world : World} {began : Time}
  {blocks : List (List Entry)}

theorem create_monotone (source : RequestSource) : Monotone fun (found : Nat × PlanRequestRow) =>
    CreateNote source found.1 found.2 := by
  rintro found acts less more extends' ⟨same, rows, known, rest⟩
  exact ⟨same, rows, extends'.row _ _ _ known, rest⟩

theorem createNote_committed {source : RequestSource} {id : Nat} {row : PlanRequestRow}
    {acts : List Entry} {log : List Block} {hist : List Event}
    (note : CreateNote source id row acts (committedBasis log hist)) :
    replay acts (storeAfter log log.length) .planRequests id = some row := by
  obtain ⟨_, rows, known, now, ⟨rfl, left⟩ | rfl⟩ := note
  · have same : storeAfter log log.length .planRequests id = rows := known
    simpa [same, Op.run] using left
  · simp

theorem createNote_writes {source : RequestSource} {id : Nat} {row : PlanRequestRow}
    {acts : List Entry} {basis : Basis} (note : CreateNote source id row acts basis) :
    WritesRequest source id row acts := by
  obtain ⟨_, _, _, now, ⟨same, _⟩ | same⟩ := note
  · exact Or.inl ⟨now, same⟩
  · exact Or.inr same

theorem replaceRow_safe (user : AuthUser) (dto : CreateRequestDto) (source : RequestSource)
    (given : dto.source = some source) (id read : Nat) (time : Time) (view : View)
    (asked : ⟨thread, .query (.pendingRequest user.id), .ok (some id), time, read, [], view⟩ ∈
      world.hist) (earlier : read ≤ world.db.log.length)
    (free : Free thread world [])
    (called : world.arrivals[thread]? = some (.createRequest user dto)) :
    Secure config thread (CreateOutcome dto thread) (do
      let row ← DbService.tx (updateRow .planRequests id (.replace source))
      let request ← Prog.orThrow row .query
      AuditService.log (some user.id) "request.create"
      pure (.request id request)) world := by
  have mono : Monotone fun (found : Option PlanRequestRow) acts basis =>
      ∀ row, found = some row → CreateNote source id row acts basis := by
    intro found acts less more extends' note row same
    exact create_monotone source (id, row) acts less more extends' (note row same)
  refine free_tx mono free called ?_ (fun _ _ _ _ _ => trivial) ?_
    fun _ _ _ _ _ _ _ _ => trivial
  · intro start began here later _
    rw [← Prog.bind_done (updateRow .planRequests id (.replace source))]
    refine body_update here ?_ ?_
    · intro after here' _ _ _
      exact ⟨[], here', .nothing _, by simp⟩
    · intro after r here' carries _ locked present _
      have row : RowLock.Holds after.db thread .planRequests id (some r) := ⟨locked, present⟩
      have past := later_trans later carries.later
      refine ⟨_, here', .createReplace given row (past.hist.subset asked)
        (Nat.le_trans earlier past.log.length_le), ?_⟩
      rintro _ ⟨⟩
      exact ⟨rfl, some r, row, began, Or.inl ⟨rfl, rfl⟩⟩
  · rintro after found acts free' later held ⟨index, _, block, note⟩
    refine safe_orThrow _ _ _ _ (fun _ => trivial) ?_
    intro row present
    refine free_audit free' ?_
    intro last _ _ _ _ later' _ _
    have noted := note row present
    refine ⟨id, row, source, acts, rfl, given, noted.1, createNote_writes noted,
      later'.committed ⟨index, block, ?_⟩⟩
    have left := createNote_committed noted
    rwa [storeAfter_take] at left

theorem insertRequest_safe (user : AuthUser) (dto : CreateRequestDto) (source : RequestSource)
    (given : dto.source = some source) (free : Free thread world [])
    (called : world.arrivals[thread]? = some (.createRequest user dto)) :
    Secure config thread (CreateOutcome dto thread) (do
      let request ← DbService.tx (insertRow .planRequests (newRequest user source))
      AuditService.log (some user.id) "request.create"
      pure (.request request.1 request.2)) world := by
  refine free_tx (create_monotone source) free called ?_ (fun _ _ _ _ _ => trivial) ?_
    fun _ _ _ _ _ _ _ _ => trivial
  · intro start began here _ _
    rw [← Prog.bind_done (insertRow .planRequests (newRequest user source))]
    refine body_insert here ?_
    intro after id here' _ _ holds _
    exact ⟨_, here', .createNew given holds, rfl, none, holds, began, Or.inr rfl⟩
  · rintro after found acts free' later held ⟨index, _, block, note⟩
    refine free_audit free' ?_
    intro last _ _ _ _ later' _ _
    refine ⟨found.1, found.2, source, acts, rfl, given, note.1, createNote_writes note,
      later'.committed ⟨index, block, ?_⟩⟩
    have left := createNote_committed note
    rwa [storeAfter_take] at left

theorem create_safe (user : AuthUser) (dto : CreateRequestDto) (free : Free thread world [])
    (called : world.arrivals[thread]? = some (.createRequest user dto)) :
    Secure config thread (CreateOutcome dto thread) (RequestsService.create user dto) world := by
  unfold RequestsService.create
  refine safe_orThrow _ _ _ _ (fun _ => trivial) ?_
  intro source given
  have asks : ∀ w, Free thread w [] → Later world w →
      Secure config thread (CreateOutcome dto thread) (do
        let pending ← select (.pendingRequest user.id)
        let request ← writeRequest user source pending
        AuditService.log (some user.id) "request.create"
        pure (.request request.1 request.2)) w := by
    intro w free' later
    have apart : (Cmd.query (.pendingRequest user.id)).Apart := trivial
    refine free_perform apart free' (fun _ _ _ _ _ => trivial) ?_
    intro after pending time view free'' later' held logged
    have called' := prefix_getElem? (later_trans later later').arrivals called
    cases pending with
    | some id =>
        simp only [writeRequest, Prog.bind_eq, Prog.bind_assoc, Prog.pure_eq, Prog.done_bind]
        exact replaceRow_safe user dto source given id _ time view logged.mem (Nat.le_refl _) free''
          called'
    | none => exact insertRequest_safe user dto source given free'' called'
  unfold checkPlan
  cases dto.planId with
  | none => exact asks world free (later_refl _)
  | some planId =>
      simp only [Prog.bind_eq, Prog.bind_assoc]
      have apart : (Cmd.query (.activePlan planId)).Apart := trivial
      refine free_perform apart free (fun _ _ _ _ _ => trivial) ?_
      intro after plan _ _ free' later _ _
      refine safe_throwIf _ _ _ _ (fun _ => trivial) fun _ => ?_
      exact asks after free' later

end Create

section Decide
variable {config : Config} {thread : Nat} {first world : World} {began : Time}

def DecideNote (actorId requestId : Nat) (approve : Bool) (_ : Unit) (acts : List Entry)
    (_ : Basis) : Prop :=
  ∃ now rest, acts =
    alter .planRequests requestId (.decide (decision approve) actorId) now :: rest

theorem decide_body (actor : AuthUser) (requestId : Nat) (approve : Bool)
    (here : Here thread first first began []) :
    Body config thread first (Seals config thread first began (.decide actor requestId approve)
        (DecideNote actor.id requestId approve)) (do
      let found ← selectRequestForUpdate requestId
      let request ← Prog.orThrow found (.notFound "Request not found")
      Prog.throwIf (request.1.status != .pending)
        (.badRequest ("Request already " ++ statusText request.1.status))
      let _ ← updateRow .planRequests requestId (.decide (decision approve) actor.id)
      if approve then creditRequest requestId request.1 request.2 else pure ()) first := by
  simp only [selectRequestForUpdate, Prog.bind_eq, Prog.bind_assoc]
  refine body_query here ?_
  intro w1 time view here1 carries1 _ asked _ _
  generalize Query.eval view (.requestWithPlan requestId) = answer at asked ⊢
  cases answer with
  | none => exact here1.since
  | some found =>
  obtain ⟨found, plan⟩ := found
  simp only [Prog.pure_eq, Prog.bind_assoc, Prog.done_bind]
  refine body_lock here1 ?_ ?_
  · intro w2 here2 _ _ _
    exact here2.since
  intro w2 r here2 carries2 _ held present ⟨late, seen, locked⟩
  have row2 : RowLock.Holds w2.db thread .planRequests requestId (some r) := ⟨held, present⟩
  refine body_orThrow here2 ?_
  rintro request ⟨⟩
  refine body_throwIf here2 fun undecided => ?_
  have pending : r.status = .pending := by simpa using undecided
  refine body_update here2 ?_ ?_
  · intro w3 here3 carries3 _ missing
    have gone : w3.db.store .planRequests requestId = none := missing
    rw [(carries3.db.holds row2).row] at gone
    cases gone
  intro w3 row here3 carries3 _ _ _ linked
  have row3 := carries3.db.holds row2
  cases approve with
  | false => exact ⟨_, here3, .reject row3 pending, began, [], rfl⟩
  | true =>
      -- the request's own foreign key is what makes the account exist
      have owner : (w3.db.store .users r.userId).isSome := by
        have same : row = r := by
          have found : w3.db.store .planRequests requestId = some row := ‹_›
          exact Option.some.inj (found.symm.trans row3.row)
        have target := linked (.users, row.userId) (by simp [references, Op.run, RequestOp.run])
        simpa [same] using target
      simp only [if_true, creditRequest, Prog.bind_eq, Prog.pure_eq]
      refine body_update here3 ?_ ?_
      · intro w4 here4 carries4 _ missing
        have stays := carries4.stays .users r.userId (by simp) owner
        simp at missing
        simp [missing] at stays
      intro w4 account here4 carries4 _ locked4 found4 _
      have row4 := carries4.db.holds row3
      have account4 : RowLock.Holds w4.db thread .users r.userId (some account) :=
        ⟨locked4, by simpa using found4⟩
      have past := carries_trans carries3 carries4
      have whole := carries_trans carries2 past
      exact ⟨_, here4, .approve row4 pending account4 (whole.hist.subset asked.mem)
        carries2.later.log.length_le (past.hist.subset locked.mem) past.later.log.length_le,
        began, _, rfl⟩

theorem decide_safe (actor : AuthUser) (requestId : Nat) (approve : Bool)
    (free : Free thread world [])
    (called : world.arrivals[thread]? = some (.decide actor requestId approve)) :
    Secure config thread (DecideOutcome actor.id requestId approve thread)
      (RequestsService.decide actor requestId approve) world := by
  unfold RequestsService.decide
  have mono : Monotone (DecideNote actor.id requestId approve) := fun _ _ _ _ _ note => note
  refine free_tx mono free called ?_ ?_ ?_ ?_
  · intro start began here _ _
    exact decide_body actor requestId approve here
  · intro after error free' _ _ _
    exact free'.own
  rotate_left
  · rintro after error _ acts _ _ _ ⟨index, lost, _⟩
    exact withdrawn_lost lost
  rintro after _ acts free' _ held ⟨index, _, found, now, rest, rfl⟩
  refine free_audit free' ?_
  intro last _ _ _ free'' _ _ _
  exact ⟨now, rest, free''.own⟩

end Decide
end Cybera
