import Cybera.Charges
import Cybera.Decisions
import Cybera.Redemption

/-!
Statuses go one way. What ends a session asks for its status, but for the pass:
it ends by id what a SELECT without FOR UPDATE has listed.
-/

namespace Cybera

open Interleaving

/-- The life cycles of the rows, over all that has been committed. -/
structure LifeCycles (world : World) : Prop where
  session : ∀ (id first last : Nat) (s : SessionRow), first ≤ last → last ≤ world.db.log.length →
    storeAfter world.db.log first .sessions id = some s → s.status ≠ .active →
      ∃ s' : SessionRow, storeAfter world.db.log last .sessions id = some s' ∧
        s'.status = s.status ∧ s'.endedAt = s.endedAt
  ended : ∀ (id commits : Nat) (s : SessionRow), commits ≤ world.db.log.length →
    storeAfter world.db.log commits .sessions id = some s →
      (s.endedAt.isSome ↔ s.status ≠ .active)
  single : ∀ (mac : Text) (id key commits : Nat), commits ≤ world.db.log.length →
    ActiveOn (storeAfter world.db.log commits) mac id →
      ActiveOn (storeAfter world.db.log commits) mac key → id = key
  voucher : ∀ (id first last : Nat) (v : VoucherRow), first ≤ last → last ≤ world.db.log.length →
    storeAfter world.db.log first .vouchers id = some v → v.status ≠ .unused →
      storeAfter world.db.log last .vouchers id = some v
  request : ∀ (id first last : Nat) (r : PlanRequestRow), first ≤ last →
    last ≤ world.db.log.length → storeAfter world.db.log first .planRequests id = some r →
      r.status ≠ .pending →
        ∃ r' : PlanRequestRow, storeAfter world.db.log last .planRequests id = some r' ∧
          r'.status = r.status ∧ r'.decidedBy = r.decidedBy ∧ r'.decidedAt = r.decidedAt
  decided : ∀ (id commits : Nat) (r : PlanRequestRow), commits ≤ world.db.log.length →
    storeAfter world.db.log commits .planRequests id = some r →
      (r.decidedBy.isSome ↔ r.status ≠ .pending) ∧ (r.decidedAt.isSome ↔ r.status ≠ .pending)

/-- A pass has listed the session, its account used up, and ends it in block
`index`; `now` is its now(). -/
structure PickedUp (world : World) (index id : Nat) (asked : Event) (now : Time) : Prop where
  asks : asked ∈ world.hist
  pass : world.arrivals[asked.thread]? = some .tick
  lists : ∃ found s, asked.done = ⟨.query .exhausted, .ok found⟩ ∧ (id, s) ∈ found
  ends : ∃ acts, world.db.log[index]? = some (asked.thread, acts) ∧
    alter .sessions id (.finish .ended) now ∈ acts

/-- Nobody has ended the session between the pass's SELECT and its COMMIT, or
exactly as the pass ends it. -/
def Unforestalled (world : World) : Prop :=
  ∀ index id asked now, PickedUp world index id asked now →
    ∀ (other thread : Nat) (acts : List Entry) (status : SessionStatus) (closed : Time),
      asked.commits ≤ other → other < index → world.db.log[other]? = some (thread, acts) →
      alter .sessions id (.finish status) closed ∈ acts → status = .ended ∧ closed = now

section Blocks
variable {config : Config} {world : World} {index thread : Nat} {call : Call} {acts : List Entry}

theorem used_untouched (lawful : Lawful config (world.basisAt index) thread call acts) {id : Nat}
    {v : VoucherRow} (present : storeAfter world.db.log index .vouchers id = some v)
    (used : v.status ≠ .unused) :
    replay acts (storeAfter world.db.log index) .vouchers id = some v := by
  rw [← present]
  refine RowLock.replay_untouched _ _ _ _ _ ?_
  rintro entry member ⟨table, hit⟩
  have listed := lawful_tables lawful entry member
  rw [← table] at listed
  cases lawful with
  | nothing => cases member
  | redeem voucher unused =>
      simp only [List.mem_cons, List.not_mem_nil, or_false] at member
      obtain rfl | rfl := member
      · obtain rfl : id = _ := hit
        have row : storeAfter world.db.log index .vouchers id = some _ := voucher
        rw [present, Option.some.injEq] at row
        exact used (row ▸ unused)
      · cases table
  | generate stored fresh =>
      obtain ⟨key, code, free, rfl⟩ := fresh entry member
      obtain rfl : id = key := hit
      have absent : storeAfter world.db.log index .vouchers id = none := free
      cases present.symm.trans absent
  | _ => simp [Call.tables] at listed

end Blocks

section Rows
variable {config : Config} {world : World} (legit : Legit config world)
include legit

theorem used_stays {id first last : Nat} {v : VoucherRow} (ordered : first ≤ last)
    (bound : last ≤ world.db.log.length)
    (present : storeAfter world.db.log first .vouchers id = some v) (used : v.status ≠ .unused) :
    storeAfter world.db.log last .vouchers id = some v := by
  refine log_stretch legit (fun commits => storeAfter world.db.log commits .vouchers id = some v)
    ordered bound present ?_
  intro index thread acts call _ _ _ _ lawful next found
  rw [next]
  exact used_untouched lawful found used

theorem decision_stays {id first last : Nat} {r : PlanRequestRow} (ordered : first ≤ last)
    (bound : last ≤ world.db.log.length)
    (present : storeAfter world.db.log first .planRequests id = some r)
    (decided : r.status ≠ .pending) :
    ∃ r' : PlanRequestRow, storeAfter world.db.log last .planRequests id = some r' ∧
      r'.status = r.status ∧ r'.decidedBy = r.decidedBy ∧ r'.decidedAt = r.decidedAt := by
  refine log_stretch legit (fun commits => ∃ r' : PlanRequestRow,
    storeAfter world.db.log commits .planRequests id = some r' ∧ r'.status = r.status ∧
      r'.decidedBy = r.decidedBy ∧ r'.decidedAt = r.decidedAt) ordered bound
    ⟨r, present, rfl, rfl, rfl⟩ ?_
  rintro index thread acts call _ _ _ _ lawful next ⟨middle, found, status, same⟩
  rw [next]
  cases request_block lawful id with
  | kept kept => exact ⟨middle, kept.trans found, status, same⟩
  | made given absent after => simp [found] at absent
  | replaced given row asked earlier after =>
      rw [found, Option.some.injEq] at row
      subst row
      exact ⟨_, after, status, same⟩
  | decided row pending after =>
      rw [found, Option.some.injEq] at row
      subst row
      exact absurd (status.symm.trans pending) decided

theorem decision_dated {id commits : Nat} {r : PlanRequestRow}
    (bound : commits ≤ world.db.log.length)
    (present : storeAfter world.db.log commits .planRequests id = some r) :
    (r.decidedBy.isSome ↔ r.status ≠ .pending) ∧ (r.decidedAt.isSome ↔ r.status ≠ .pending) := by
  refine requests_always legit (fun r => (r.decidedBy.isSome ↔ r.status ≠ .pending) ∧
    (r.decidedAt.isSome ↔ r.status ≠ .pending)) ?_ ?_ ?_ bound present
  · intro user dto source now _
    simp [newRequest]
  · exact fun dto source now row _ dated => dated
  · intro approve actor now row pending _
    have left := decision_decided approve now actor row
    simp [RequestOp.run] at left ⊢
    exact left

theorem ended_dated {id commits : Nat} {s : SessionRow} (bound : commits ≤ world.db.log.length)
    (present : storeAfter world.db.log commits .sessions id = some s) :
    s.endedAt.isSome ↔ s.status ≠ .active := by
  refine sessions_always legit (fun row => row.endedAt.isSome ↔ row.status ≠ .active) ?_ ?_ bound
    present
  · intro userId mac ip token now
    simp [newSession]
  · intro op now row closing dated
    cases op with
    | finish status =>
        have closes : status ≠ .active := closing
        simp [SessionOp.run, closes]
    | settle | refresh => exact dated

end Rows

section Runs
variable {config : Config} {pool : ServerPool} (reached : Reached config pool)
include reached

theorem stored_unique {mac : Text} {id key commits : Nat}
    (bound : commits ≤ pool.state.db.log.length)
    (active : ActiveOn (storeAfter pool.state.db.log commits) mac id)
    (active' : ActiveOn (storeAfter pool.state.db.log commits) mac key) : id = key := by
  cases commits with
  | zero =>
      obtain ⟨s, present, _⟩ := active
      cases present
  | succ index =>
      -- what the block's COMMIT sees is what it leaves
      have block := List.getElem?_eq_getElem bound
      obtain ⟨pos, answer, time, view, landed, committed⟩ :=
        (reached_chronicle reached).block _ _ _ block
      have member := List.mem_of_getElem? committed
      have rows : view.rows = storeAfter pool.state.db.log (index + 1) := by
        rw [storeAfter_succ _ _ _ block]
        exact ((reached_ready reached).truthful _ member).rows
      rw [← rows] at active active'
      exact seen_unique reached member active active'

theorem listed_active {asked : Event} {found : List (Nat × SessionRow)} {id : Nat} {s : SessionRow}
    (member : asked ∈ pool.state.hist) (tick : pool.state.arrivals[asked.thread]? = some .tick)
    (asks : asked.done = ⟨.query .exhausted, .ok found⟩) (listed : (id, s) ∈ found) :
    ∃ s' : SessionRow, storeAfter pool.state.db.log asked.commits .sessions id = some s' ∧
      s'.status = .active := by
  obtain ⟨seen, active⟩ := exhausted_row reached member asks listed
  obtain ⟨s', stored, _⟩ := pass_row reached member tick seen
  refine ⟨s', stored, ?_⟩
  by_contra ended
  obtain ⟨pos, found'⟩ := List.mem_iff_getElem?.mp member
  obtain ⟨after, left, inactive⟩ : ∃ after,
      replay asked.pending (storeAfter pool.state.db.log asked.commits) .sessions id = some after ∧
        after.status ≠ .active := by
    refine replay_keeps _ .sessions id (fun row => row.status ≠ .active)
      (fun op _ => Closing .sessions op) ?_ asked.pending ?_ stored ended
    · intro op now row closing ended
      cases op with
      | finish status => exact closing
      | settle | refresh => exact ended
    · intro entry pending table same
      obtain ⟨op, now, rfl⟩ := pass_alters reached member tick id entry pending table same
      obtain ⟨writeAt, write, _, foundWrite, own, wrote, _⟩ :=
        (reached_chronicle reached).pending pos asked found' _ pending
      obtain ⟨call, called, may⟩ := reached_mayDo reached write (List.mem_of_getElem? foundWrite)
      generalize made : alter .sessions id op now = entry at wrote
      cases wrote with
      | update =>
          cases made
          exact ⟨_, _, rfl, may.2⟩
      | insert | delete => cases made
  rw [((reached_ready reached).truthful asked member).rows, left, Option.some.injEq] at seen
  exact inactive (seen ▸ active)

theorem pass_finishes {index thread id : Nat} {acts : List Entry} {now : Time}
    (block : pool.state.db.log[index]? = some (thread, acts))
    (tick : pool.state.arrivals[thread]? = some .tick)
    (member : alter .sessions id (.finish .ended) now ∈ acts) :
    (∃ s : SessionRow, storeAfter pool.state.db.log index .sessions id = some s ∧
      s.status = .active) ∨
    ∃ asked, PickedUp pool.state index id asked now ∧ asked.commits ≤ index := by
  obtain ⟨writeAt, commitAt, write, written⟩ :=
    block_written (reached_chronicle reached) block member
  obtain ⟨before, found, own, wrote, unclosed, _, time, view, _, committed⟩ := written
  have cmd : write.cmd = .update .sessions id (.finish .ended) := by
    generalize made : alter .sessions id (.finish .ended) now = entry at wrote
    cases wrote with
    | update =>
        cases made
        rfl
    | insert | delete => cases made
  have passed := reached_inPass reached found own tick
  rw [cmd] at passed
  obtain ⟨_, _, ⟨_, _, s, _, ⟨locked, active⟩, _⟩ | ⟨listed, s, asks, listed'⟩⟩ := passed
  · obtain ⟨_, _, _, _, _, _, _, stored⟩ :=
      locked_until reached tick committed rfl rfl (mem_pastOf_whole locked)
    exact Or.inl ⟨s, stored, active⟩
  · obtain ⟨askedAt, asked, early, foundAsked, ownAsked, same⟩ := mem_pastOf_take.mp asks
    subst ownAsked
    refine Or.inr ⟨asked, ⟨List.mem_of_getElem? foundAsked, tick, ⟨listed, s, same, listed'⟩, acts,
      block, member⟩, ?_⟩
    exact (history_order (reached_timeline reached) (Nat.lt_trans early before) foundAsked
      committed).commits

/-- By induction on where the log is looked at again: a pass that ends a closed
session has listed it, and whoever closed it since did it the same way. -/
theorem closed_stays (unforestalled : Unforestalled pool.state) {id last : Nat}
    (bound : last ≤ pool.state.db.log.length) {first : Nat} {s : SessionRow}
    (ordered : first ≤ last) (present : storeAfter pool.state.db.log first .sessions id = some s)
    (closed : s.status ≠ .active) :
    ∃ s' : SessionRow, storeAfter pool.state.db.log last .sessions id = some s' ∧
      s'.status = s.status ∧ s'.endedAt = s.endedAt := by
  have legit := reached_legit reached
  induction last generalizing first s with
  | zero =>
      obtain rfl : first = 0 := Nat.le_zero.mp ordered
      exact ⟨s, present, rfl, rfl⟩
  | succ last ih =>
      rcases Nat.lt_or_eq_of_le ordered with less | rfl
      · obtain ⟨middle, found, status, ended⟩ :=
          ih (Nat.le_of_succ_le bound) (Nat.le_of_lt_succ less) present closed
        have block := List.getElem?_eq_getElem (Nat.lt_of_succ_le bound)
        obtain ⟨call, called, lawful⟩ := block_lawful legit block
        have closed' : middle.status ≠ .active := status ▸ closed
        rw [storeAfter_succ _ _ _ block]
        refine replay_keeps _ .sessions id
          (fun row => row.status = s.status ∧ row.endedAt = s.endedAt)
          (fun op now => op = .finish s.status ∧ some now = s.endedAt) ?_ _ ?_ found ⟨status, ended⟩
        · rintro op now row ⟨rfl, same⟩ _
          exact ⟨rfl, same⟩
        · intro entry member table same
          obtain ⟨rfl, now, rfl⟩ := closed_writes lawful found closed' entry member table same
          refine ⟨_, _, rfl, ?_⟩
          rcases pass_finishes reached block called member with
            ⟨row, stored, active⟩ | ⟨asked, picked, early⟩
          · rw [found, Option.some.injEq] at stored
            exact absurd (stored ▸ active) closed'
          · obtain ⟨listed, row, asks, listed'⟩ := picked.lists
            obtain ⟨row', stored, active⟩ := listed_active reached picked.asks
              picked.pass asks listed'
            obtain ⟨other, thread', acts', status', time, low, high, block', ends⟩ :=
              ended_between legit early (Nat.le_of_succ_le bound) stored active found closed'
            obtain ⟨rfl, rfl⟩ := unforestalled _ _ _ _ picked _ _ _ _ _ low high block' ends
            obtain ⟨before, stored', _⟩ := row_same legit (by simp) (by simp) low
              (Nat.le_of_lt (event_bound block')) stored
            obtain ⟨call', _, lawful'⟩ := block_lawful legit block'
            obtain ⟨after, left, finished, dated⟩ := finish_left lawful' stored' ends
            rw [← storeAfter_succ _ _ _ block'] at left
            obtain ⟨after', found', status'', ended'⟩ := ih (Nat.le_of_succ_le bound) high left
              (by simp [finished])
            rw [found, Option.some.injEq] at found'
            subst found'
            rw [← status, ← ended, status'', ended', finished, dated]
            exact ⟨rfl, rfl⟩
      · exact ⟨s, present, rfl, rfl⟩

theorem picked_up_present {index other id : Nat} {asked : Event} {now : Time}
    (picked : PickedUp pool.state index id asked now) (low : asked.commits ≤ other)
    (bound : other ≤ pool.state.db.log.length) :
    ∃ s : SessionRow, storeAfter pool.state.db.log other .sessions id = some s := by
  obtain ⟨found, s, asks, listed⟩ := picked.lists
  obtain ⟨s', stored, _⟩ := listed_active reached picked.asks picked.pass asks listed
  obtain ⟨s'', stands, _⟩ := row_same (reached_legit reached) (by simp) (by simp) low bound stored
  exact ⟨s'', stands⟩

theorem unforestalled_of (cycles : LifeCycles pool.state) : Unforestalled pool.state := by
  intro index id asked now picked other thread acts status closed low high block ends
  have legit := reached_legit reached
  obtain ⟨acts', block', ends'⟩ := picked.ends
  have bound := event_bound block'
  obtain ⟨s, stored⟩ := picked_up_present reached picked low (Nat.le_of_lt (event_bound block))
  obtain ⟨s', stored'⟩ := picked_up_present reached picked
    (Nat.le_trans low (Nat.le_of_lt high)) (Nat.le_of_lt bound)
  obtain ⟨_, _, lawful⟩ := block_lawful legit block
  obtain ⟨_, _, lawful'⟩ := block_lawful legit block'
  obtain ⟨after, left, finished, dated⟩ := finish_left lawful stored ends
  obtain ⟨after', left', finished', dated'⟩ := finish_left lawful' stored' ends'
  obtain ⟨op, time, same, closing⟩ :=
    session_alters lawful (Option.isSome_of_eq_some stored) _ ends rfl rfl
  cases same
  have closes : status ≠ .active := closing
  rw [← storeAfter_succ _ _ _ block] at left
  rw [← storeAfter_succ _ _ _ block'] at left'
  obtain ⟨final, stands, status', ended'⟩ :=
    cycles.session id _ _ after (Nat.succ_le_succ (Nat.le_of_lt high)) bound left
      (finished ▸ closes)
  rw [left', Option.some.injEq] at stands
  subst stands
  rw [finished, finished'] at status'
  rw [dated, dated', Option.some.injEq] at ended'
  exact ⟨status'.symm, ended'.symm⟩

end Runs

/-- The life cycles are one-way in exactly the runs in which no session is ended
between a pass's SELECT of the used-up accounts and its COMMIT. -/
theorem life_cycles_iff (config : Config) (pool : ServerPool) (reached : Reached config pool) :
    LifeCycles pool.state ↔ Unforestalled pool.state := by
  have legit := reached_legit reached
  constructor
  · exact unforestalled_of reached
  · intro unforestalled
    exact {
      session := fun id first last s ordered bound present closed =>
        closed_stays reached unforestalled bound ordered present closed
      ended := fun id commits s bound present => ended_dated legit bound present
      single := fun mac id key commits bound active active' =>
        stored_unique reached bound active active'
      voucher := fun id first last v ordered bound present used =>
        used_stays legit ordered bound present used
      request := fun id first last r ordered bound present decided =>
        decision_stays legit ordered bound present decided
      decided := fun id commits r bound present => decision_dated legit bound present }

def endingAfter (pool : ServerPool) (commits id : Nat) : Option (SessionStatus × Option Time) :=
  (storeAfter pool.state.db.log commits .sessions id).map fun s : SessionRow =>
    (s.status, s.endedAt)

def endsSession (entry : Entry) : Bool :=
  match opOf entry with
  | some (_, .finish _, _) => true
  | _ => false

theorem life_cycles_over : ∃ pool, Reached shop pool ∧ LifeCycles pool.state ∧
    endingAfter pool 4 1 = some (.active, none) ∧
    endingAfter pool 5 1 = some (.ended, some 3600000) := by
  obtain ⟨pool, reached, _, seen⟩ := play_shows shop hourOver
    (fun pool => endingAfter pool 4 1 == some (.active, none) &&
      endingAfter pool 5 1 == some (.ended, some 3600000) &&
      pool.state.db.log.zipIdx.all fun block => block.2 == 4 ||
        block.1.2.all fun entry => !endsSession entry) true (by decide +kernel)
  simp only [Bool.and_eq_true, beq_iff_eq] at seen
  obtain ⟨⟨before, after⟩, others⟩ := seen
  refine ⟨pool, reached, (life_cycles_iff shop pool reached).mpr ?_, before, after⟩
  have only : ∀ (index thread id : Nat) (acts : List Entry) status now,
      pool.state.db.log[index]? = some (thread, acts) →
      alter .sessions id (.finish status) now ∈ acts → index = 4 := by
    intro index thread id acts status now block member
    have listed := List.all_eq_true.mp others ((thread, acts), index)
      (List.mem_zipIdx_iff_getElem?.mpr block)
    simp only [Bool.or_eq_true, beq_iff_eq, List.all_eq_true] at listed
    rcases listed with here | none'
    · exact here
    · cases none' _ member
  intro index id asked now picked other thread acts status closed low high block ends
  obtain ⟨acts', block', ends'⟩ := picked.ends
  have first := only _ _ _ _ _ _ block ends
  have last := only _ _ _ _ _ _ block' ends'
  omega

/-- While a pass settles the last hour of the tablet, the phone goes online; the
pass has listed it when the staff kicks it. -/
def kickedMeanwhile : List (Move Choice Call Ambient) :=
  opening ++ [.start (.grant staff 2 hourForTwo)] ++ steps 1 4 ++
    [.ambient (.clients [(tabletMac, ⟨some tabletMac, some phoneIp, some preauthenticated⟩)]),
      .start (.connect guest tablet)] ++ steps 2 10 ++
    [.ambient (.elapse 3600000), .start .tick] ++ steps 3 3 ++
    [.start (.connect guest phone)] ++ steps 4 9 ++ steps 3 8 ++
    [.ambient (.elapse 1000), .start (.kick staff phoneMac)] ++ steps 5 9 ++ steps 3 3

/-- The pass makes an ended session of the kicked one. -/
theorem kicked_turned_ended : ∃ pool, Reached shop pool ∧
    endingAfter pool 6 2 = some (.kicked, some 3601000) ∧
    endingAfter pool 7 2 = some (.ended, some 3600000) ∧ ¬ LifeCycles pool.state := by
  obtain ⟨pool, reached, _, seen⟩ := play_shows shop kickedMeanwhile
    (fun pool => endingAfter pool 6 2 == some (.kicked, some 3601000) &&
      endingAfter pool 7 2 == some (.ended, some 3600000) && pool.state.db.log.length == 7) true
    (by decide +kernel)
  simp only [Bool.and_eq_true, beq_iff_eq] at seen
  obtain ⟨⟨kicked, ended⟩, length⟩ := seen
  refine ⟨pool, reached, kicked, ended, fun cycles => ?_⟩
  obtain ⟨s, present, same⟩ := Option.map_eq_some_iff.mp kicked
  simp only [Prod.mk.injEq] at same
  obtain ⟨s', present', status, _⟩ :=
    cycles.session 2 6 7 s (by omega) (by omega) present (by simp [same])
  obtain ⟨s'', present'', same'⟩ := Option.map_eq_some_iff.mp ended
  rw [present', Option.some.injEq] at present''
  subst present''
  simp only [Prod.mk.injEq] at same'
  rw [same.1, same'.1] at status
  cases status

end Cybera
