import Cybera.Deadlocks
import Cybera.Delivery
import Cybera.Devices
import Cybera.Draining
import Cybera.Stances

/-!
The server at a standstill. Left to itself it runs until every call has ended or until some
calls wait for each other in a circle. A circle of waits for rows holds calls of connect and
passes only, or generating calls only. Foreign keys close circles with other calls too, but
none without a connect or a pass.
-/

namespace Cybera

open Interleaving

/-- The next statement of the thread waits for a row that the other's transaction holds. -/
def RowWait (pool : ServerPool) (thread other : Nat) : Prop :=
  other ≠ thread ∧ ∃ cmd next row, pool.threads[thread]? = some (some (.exec cmd next)) ∧
    Awaits pool.state thread other cmd row

/-- It waits because of a foreign key. -/
def KeyWait (pool : ServerPool) (thread other : Nat) : Prop :=
  other ≠ thread ∧ ∃ cmd next row, pool.threads[thread]? = some (some (.exec cmd next)) ∧
    KeyAwaits pool.state thread other cmd row

def WaitsFor (pool : ServerPool) (thread other : Nat) : Prop :=
  RowWait pool thread other ∨ KeyWait pool thread other

/-- The thread waits, over others, for itself. -/
def Circular (waits : Nat → Nat → Prop) (thread : Nat) : Prop :=
  Relation.TransGen waits thread thread

/-- The other waits in a circle of the thread. -/
def InCircle (waits : Nat → Nat → Prop) (thread other : Nat) : Prop :=
  Relation.TransGen waits thread other ∧ Relation.TransGen waits other thread

/-- The calls that lock sessions together with accounts. -/
def Call.Joins : Call → Prop
  | .connect .. | .tick => True
  | _ => False

def Call.Generates : Call → Prop
  | .generate .. => True
  | _ => False

def Call.Seeds : Call → Prop
  | .seedAdmin .. => True
  | _ => False

def Runs (pool : ServerPool) (kind : Call → Prop) (thread : Nat) : Prop :=
  ∃ call, pool.state.arrivals[thread]? = some call ∧ kind call

/-- A wait of a call that is neither a connect nor a pass. -/
def WaitsApart (pool : ServerPool) (thread other : Nat) : Prop :=
  WaitsFor pool thread other ∧ ¬ Runs pool Call.Joins thread

/-! Who has a transaction open. -/

section Threads
variable {config : Config} {pool : ServerPool} (reached : Reached config pool)
include reached

theorem reached_order : Orderly (server config) (fun thread world => pastOf world.hist thread)
    Seated (fun _ _ => Rested) pool :=
  reachable_orderly (server_records config) call_seated rfl (fun _ => rfl) reached

theorem reached_seated {thread : Nat} {program : Program Reply}
    (running : pool.threads[thread]? = some (some program)) :
    ∃ call, pool.state.arrivals[thread]? = some call ∧
      Along (Seated call) (fun _ => Rested) program (pastOf pool.state.hist thread) := by
  have orderly := reached_order reached
  have bound : thread < pool.state.arrivals.length :=
    orderly.length ▸ (List.getElem?_eq_some_iff.mp running).1
  exact ⟨pool.state.arrivals[thread], List.getElem?_eq_getElem bound,
    orderly.threads thread program _ running (List.getElem?_eq_getElem bound)⟩

theorem stopped_waits {thread : Nat} {cmd : Cmd} {next : Except Failure (Res cmd) → Program Reply}
    (running : pool.threads[thread]? = some (some (.exec cmd next)))
    (still : pool.state.exec thread cmd {} = none) : ∃ other, WaitsFor pool thread other := by
  obtain ⟨call, _, seated, _⟩ := reached_seated reached running
  have stopped : pool.state.succeeded thread {} cmd = none := by
    simpa [World.exec] using still
  have inside : cmd.table.isSome → (pool.state.db.txns thread).isSome := fun locks =>
    (reached_within reached).2 thread _ running (seated.1 locks)
  obtain ⟨other, row, different, awaits⟩ :=
    stopped_awaits (reached_ready reached) (reached_versioned reached) inside stopped
  refine ⟨other, awaits.imp (fun row' => ?_) fun key => ?_⟩
  · exact ⟨different, cmd, next, row, running, row'⟩
  · exact ⟨different, cmd, next, row, running, key⟩

end Threads

/-! The accounts that a running transaction has inserted. -/

/-- The open transaction has inserted the account, and it still has this name there. -/
def Plants (db : Database) (thread id : Nat) (name : Text) : Prop :=
  ∃ txn, db.txns thread = some txn ∧ (∃ made : UserRow, create .users id made ∈ txn.acts) ∧
    ∃ latest : UserRow, txn.rows .users id = some (some latest) ∧ latest.username = name

/-- No account that the thread's transaction has inserted is lost or renamed. -/
def Planted (thread : Nat) (world : World) : Prop :=
  ∀ id (made : UserRow) (row : Time → UserRow) skip,
    ⟨.insert .users row skip, .ok (some (id, made))⟩ ∈ openPast (pastOf world.hist thread) →
      Plants world.db thread id made.username ∧ ∃ now, made = row now

section Planted
variable {world after : World} {thread : Nat} {choice : Choice}

theorem plants_same {db reached : Database} {id : Nat} {name : Text}
    (same : reached.txns thread = db.txns thread) (plants : Plants db thread id name) :
    Plants reached thread id name := by
  obtain ⟨txn, opened, rest⟩ := plants
  exact ⟨txn, same.trans opened, rest⟩

theorem write_plants {db reached : Database} {entry : Entry} {id : Nat} {name : Text}
    (apart : ¬ (TableName.users = entry.table ∧ id = entry.id))
    (written : db.write Act.run thread entry = some reached) (plants : Plants db thread id name) :
    Plants reached thread id name := by
  obtain ⟨txn, opened, ⟨made, created⟩, latest, there, named⟩ := plants
  obtain ⟨before, txn', opened', present, acts, _⟩ := write_acts written
  obtain ⟨_, _, txn'', present', others, _⟩ := write_versions opened written
  cases opened.symm.trans opened'
  cases present.symm.trans present'
  refine ⟨txn', present, ⟨made, ?_⟩, latest, (others .users id apart).trans there, named⟩
  exact acts ▸ List.mem_append_left _ created

theorem update_plants {db reached : Database} {id : Nat} {name : Text} {op : UserOp} {time : Time}
    (written : db.write Act.run thread (alter .users id op time) = some reached)
    (plants : Plants db thread id name) : Plants reached thread id name := by
  obtain ⟨txn, opened, ⟨made, created⟩, latest, there, named⟩ := plants
  obtain ⟨before, txn', opened', present, acts, _⟩ := write_acts written
  obtain ⟨_, _, txn'', present', _, own⟩ := write_versions opened written
  cases opened.symm.trans opened'
  cases present.symm.trans present'
  have seen : db.view thread .users id = some latest := by
    rw [view_overlay opened, RowLock.overlay, there]
    rfl
  refine ⟨txn', present, ⟨made, acts ▸ List.mem_append_left _ created⟩, op.run latest, ?_, ?_⟩
  · rw [alter, seen] at own
    exact own
  · rw [← named]
    cases op <;> rfl

theorem deed_plants (sound : RowLock.Sound Act.run world.db) {view : View} {cmd : Cmd}
    {answer : Except Failure (Res cmd)} {db : Database} (plain : ¬ cmd.Closes)
    (deed : Deed world thread view cmd answer db) {id : Nat} {name : Text}
    (plants : Plants world.db thread id name) : Plants db thread id name := by
  cases deed with
  | read | failed | unlocked | missed | skipped | gone => exact plants
  | began =>
      obtain ⟨txn, opened, rest⟩ := plants
      exact ⟨txn, by simp [RowLock.State.begin, opened], rest⟩
  | committed | refused | undone => exact absurd trivial plain
  | locked present granted => exact plants_same (congrFun (RowLock.acquire_same granted).1 _) plants
  | @updated table key op row db present written =>
      by_cases own : TableName.users = table ∧ id = key
      · obtain ⟨rfl, rfl⟩ := own
        exact update_plants written plants
      · exact write_plants own written plants
  | @inserted table row skip db free single written =>
      have reserved : Plants (world.db.reserve table) thread id name := plants_same rfl plants
      refine write_plants ?_ written reserved
      -- a new row has a new number
      rintro ⟨rfl, rfl⟩
      obtain ⟨txn, opened, _, latest, there, _⟩ := plants
      have held := sound.covered thread txn _ _ opened (Option.isSome_of_eq_some there)
      cases (sound.unused .users _ (Nat.le_refl _)).2.symm.trans held
  | deleted written => exact write_plants (by simp [remove]) written plants

theorem own_planted (sound : RowLock.Sound Act.run world.db) (planted : Planted thread world)
    {cmd : Cmd} {answer : Except Failure (Res cmd)}
    (executed : world.exec thread cmd choice = some (answer, after)) : Planted thread after := by
  intro id made row skip member
  rw [exec_past executed] at member
  by_cases closes : cmd.Closes
  · rw [openPast_closed closes] at member
    cases member
  have deed := exec_deed executed
  rw [openPast_plain closes] at member
  rcases List.mem_cons.mp member with latest | earlier
  · cases latest
    generalize reached : after.db = db at deed
    cases deed with
    | read reads => exact reads.elim
    | inserted free single written =>
        obtain ⟨before, txn, opened, present, acts, _⟩ := write_acts written
        obtain ⟨_, _, txn', present', _, own⟩ := write_versions opened written
        cases present.symm.trans present'
        have created := acts ▸ List.mem_append_right before.acts List.mem_cons_self
        exact ⟨⟨txn, reached ▸ present, ⟨_, created⟩, _, own, rfl⟩, _, rfl⟩
  · obtain ⟨plants, now, same⟩ := planted id made row skip earlier
    have sound' : RowLock.Sound Act.run (world.advance choice.elapsed).db := sound
    exact ⟨deed_plants sound' closes deed plants, now, same⟩

end Planted

theorem reached_planted {config : Config} {pool : ServerPool} (reached : Reached config pool)
    {thread : Nat} {program : Program Reply}
    (running : pool.threads[thread]? = some (some program)) : Planted thread pool.state := by
  refine (reached_live along_mayDo (fun _ => True) Planted trivial ?_ ?_ ?_ ?_ ?_ ?_ reached).2
    thread program running
  · intro pool thread before nothing beyond id made row skip member
    rw [nothing] at member
    cases member
  · exact fun _ _ _ => ⟨trivial, fun _ planted => planted⟩
  · intro pool thread call cmd choice answer after before _ planted _ _ executed
    exact ⟨trivial, own_planted (reached_ready before).sound planted executed⟩
  · intro pool thread mover cmd choice answer after before _ different planted executed
    have undisturbed := dbStep_undisturbed (reached_ready before).sound different
      (exec_cases executed).2.2.2
    intro id made row skip member
    rw [exec_past_other different executed] at member
    obtain ⟨plants, now⟩ := planted id made row skip member
    exact ⟨plants_same undisturbed.txn plants, now⟩
  · refine fun mover world _ => ⟨trivial, fun thread different planted => ?_⟩
    intro id made row skip member
    obtain ⟨plants, now⟩ := planted id made row skip member
    exact ⟨plants_same (RowLock.rollback_undisturbed different).txn plants, now⟩
  · intro event before after _ happened
    obtain ⟨db, _, _, hist⟩ := ambient_cases happened
    refine ⟨trivial, fun thread planted => ?_⟩
    rw [Planted, db, hist]
    exact planted

/-! What a thread in a circle holds and wants. -/

section Awaits
variable {world : World} {thread other : Nat} {cmd : Cmd} {row : RowRef}

theorem awaits_held (sound : RowLock.Sound Act.run world.db)
    (awaits : Awaits world thread other cmd row) : world.db.locks row.1 row.2 = some other := by
  cases awaits with
  | lock present held => exact held
  | update present held => exact held
  | insert opened written version clash => exact sound.covered other _ _ _ opened written
  | updateDoomed present refers opened gone =>
      exact sound.covered other _ _ _ opened (by rw [gone]; rfl)
  | insertDoomed refers opened gone =>
      exact sound.covered other _ _ _ opened (by rw [gone]; rfl)
  | delete present held => exact held
  | deleteReferred opened written refers =>
      exact sound.covered other _ _ _ opened (by rw [written]; rfl)

theorem awaits_table (awaits : Awaits world thread other cmd row) : cmd.table.isSome := by
  cases awaits <;> rfl

/-- A row of a plan apart, a statement waits for a row of its own table; the DELETE of a plan
waits for requests. -/
theorem awaits_named (awaits : Awaits world thread other cmd row) (kept : row.1 ≠ .plans) :
    cmd.table = some row.1 ∨ cmd.table = some .plans := by
  cases awaits with
  | lock | update | insert => exact Or.inl rfl
  | updateDoomed | insertDoomed => exact absurd rfl kept
  | delete | deleteReferred => exact Or.inr rfl

end Awaits

theorem holds_kept (call : Call) : .plans ∉ call.holds := by
  cases call <;> simp [Call.holds]

theorem wants_vouchers {call : Call} (wanted : .vouchers ∈ call.wants) : call.Generates := by
  cases call <;> simp [Call.wants] at wanted
  trivial

theorem wants_requests (call : Call) : .planRequests ∉ call.wants := by
  cases call <;> simp [Call.wants]

theorem wants_kept (call : Call) : .plans ∉ call.wants := by
  cases call <;> simp [Call.wants]

theorem onMac_single {view : View} (mac : Text) (apart : ∀ id key, ∀ s other : SessionRow,
    id ≠ key → view.rows .sessions id = some s → view.rows .sessions key = some other →
      conflicts .sessions s other = false) :
    (Query.eval view (.activeSessionsOn mac)).length ≤ 1 := by
  have distinct : ((view.scan .sessions fun s => s.deviceMac == mac && s.status == .active).map
      fun found => found.2.deviceMac).Nodup := by
    refine scan_distinct .sessions (fun s : SessionRow => s.deviceMac) ?_
    intro id key s other different present present' kept kept' same
    simp only [Bool.and_eq_true, beq_iff_eq] at kept kept'
    simpa [conflicts, kept.2, kept'.2, same] using apart id key s other different present present'
  have only : ∀ other ∈ (view.scan .sessions fun s =>
      s.deviceMac == mac && s.status == .active).map fun found => found.2.deviceMac,
      other = mac := by
    intro other member
    obtain ⟨⟨id, s⟩, listed, rfl⟩ := List.mem_map.mp member
    have kept := (mem_scan.mp listed).2.2
    simp only [Bool.and_eq_true, beq_iff_eq] at kept
    exact kept.1
  rw [List.eq_replicate_of_mem only, List.nodup_replicate, List.length_map] at distinct
  rwa [Query.eval, List.length_map]

theorem numberName_injective : Function.Injective numberName := by
  intro number other same
  have read := congrArg (Nat.ofDigitChars 10 · 0) same
  simpa [numberName, Nat.ofDigitChars_ten_toDigits] using read

section Rings
variable {config : Config} {pool : ServerPool} (reached : Reached config pool)
include reached

theorem waitsFor_open {thread other : Nat} (waits : WaitsFor pool thread other) :
    (pool.state.db.txns other).isSome := by
  have sound := (reached_ready reached).sound
  rcases waits with ⟨_, _, _, row, _, awaits⟩ | ⟨_, _, _, row, _, awaits⟩
  · exact sound.owned other row.1 row.2 (awaits_held sound awaits)
  · cases awaits with
    | lock opened acted points => exact Option.isSome_of_eq_some opened
    | update points held selected => exact sound.owned other _ _ held
    | insert points held selected => exact sound.owned other _ _ held
    | audit held selected => exact sound.owned other _ _ held

theorem reached_oneOnMac (thread : Nat) : OneOnMac (pastOf pool.state.hist thread) := by
  intro mac ids member
  obtain ⟨event, listed, _, done⟩ := mem_pastOf.mp member
  refine reached_events (fun event => ∀ mac ids,
    event.done = ⟨.query (.activeSessionsOn mac), .ok ids⟩ → ids.length ≤ 1) ?_ reached event listed
      mac ids done
  intro pool thread cmd choice answer after before executed mac ids done
  cases done
  obtain ⟨rfl, _⟩ := exec_query executed
  exact onMac_single mac ((reached_unique before).seen thread .sessions)

/-- A thread that is waited for and waits itself. -/
structure Caught (pool : ServerPool) (thread : Nat) (call : Call) (cmd : Cmd) : Prop where
  arrived : pool.state.arrivals[thread]? = some call
  running : ∃ next, pool.threads[thread]? = some (some (.exec cmd next))
  grasp : Grasp thread pool.state
  stance : Stance call (pastOf pool.state.hist thread) cmd

theorem waits_caught {thread other beyond : Nat} {cmd cmd' : Cmd} {row row' : RowRef}
    {next : Except Failure (Res cmd') → Program Reply}
    (awaits : Awaits pool.state thread other cmd row)
    (running : pool.threads[other]? = some (some (.exec cmd' next)))
    (awaits' : Awaits pool.state other beyond cmd' row') :
    ∃ call, Caught pool other call cmd' ∧ row.1 ∈ call.holds := by
  obtain ⟨call, arrived, seated, _⟩ := reached_seated reached running
  have grasp := reached_grasp reached running
  have held := grasp.listed row.1 row.2 (awaits_held (reached_ready reached).sound awaits)
  have stance := seated.2 (awaits_table awaits') (List.ne_nil_of_mem held)
    (reached_oneOnMac reached other)
  exact ⟨call, ⟨arrived, ⟨next, running⟩, grasp, stance⟩, stance.within _ held⟩

theorem caught_wants {thread other : Nat} {call : Call} {cmd : Cmd} {row : RowRef}
    (caught : Caught pool thread call cmd) (different : other ≠ thread)
    (awaits : Awaits pool.state thread other cmd row) (kept : row.1 ≠ .plans) :
    row.1 ∈ call.wants := by
  have held := awaits_held (reached_ready reached).sound awaits
  rcases caught.stance.aims with ⟨table, id, op, rfl, mine⟩ | ⟨table, wanted, aims⟩
  · -- for a row that it has locked it need not wait
    have own := caught.grasp.locked table id
      (fun plans => holds_kept call (plans ▸ caught.stance.within _ mine)) mine
    cases awaits with
    | update =>
        rw [own, Option.some.injEq] at held
        exact absurd held.symm different
    | updateDoomed => exact absurd rfl kept
  · rcases awaits_named awaits kept with named | named
    · rw [aims, Option.some.injEq] at named
      exact named ▸ wanted
    · rw [aims, Option.some.injEq] at named
      exact absurd (named ▸ wanted) (wants_kept call)

/-- Two threads of a circle, the first at a row of the second. -/
structure Link (pool : ServerPool) (thread other : Nat) (call call' : Call) (row : RowRef) :
    Prop where
  different : other ≠ thread
  first : ∃ cmd, Caught pool thread call cmd ∧ Awaits pool.state thread other cmd row
  second : ∃ cmd, Caught pool other call' cmd
  wanted : row.1 ∈ call.wants
  held : row.1 ∈ call'.holds

theorem circular_link {thread other : Nat} (waits : RowWait pool thread other)
    (circular : Circular (RowWait pool) thread) (circular' : Circular (RowWait pool) other) :
    ∃ call call' row, Link pool thread other call call' row := by
  obtain ⟨_, _, _, _, _, _, _, awaits⟩ := Relation.TransGen.tail'_iff.mp circular
  obtain ⟨_, ⟨_, _, _, _, running'', awaits''⟩, _⟩ := Relation.TransGen.head'_iff.mp circular'
  obtain ⟨different, cmd, next, row, running', awaits'⟩ := waits
  obtain ⟨call, caught, _⟩ := waits_caught reached awaits running' awaits'
  obtain ⟨call', caught', held⟩ := waits_caught reached awaits' running'' awaits''
  have kept : row.1 ≠ .plans := fun plans => holds_kept call' (plans ▸ held)
  have wanted := caught_wants reached caught different awaits' kept
  exact ⟨call, call', row, different, ⟨cmd, caught, awaits'⟩, ⟨_, caught'⟩, wanted, held⟩

theorem generating_before {thread other : Nat} (waits : RowWait pool thread other)
    (circular : Circular (RowWait pool) thread) (circular' : Circular (RowWait pool) other)
    (generates : Runs pool Call.Generates other) : Runs pool Call.Generates thread := by
  obtain ⟨call, call', row, link⟩ := circular_link reached waits circular circular'
  obtain ⟨cmd, caught, _⟩ := link.first
  obtain ⟨cmd', caught'⟩ := link.second
  obtain ⟨_, arrived, generates⟩ := generates
  cases caught'.arrived.symm.trans arrived
  refine ⟨call, caught.arrived, wants_vouchers ?_⟩
  cases call' with
  | generate => exact List.mem_singleton.mp link.held ▸ link.wanted
  | _ => exact generates.elim

theorem generating_round {thread other : Nat}
    (there : Relation.TransGen (RowWait pool) other thread)
    (back : Relation.TransGen (RowWait pool) thread other)
    (generates : Runs pool Call.Generates thread) : Runs pool Call.Generates other := by
  induction there using Relation.TransGen.head_induction_on with
  | @single other waits =>
      exact generating_before reached waits (back.head waits) (back.tail waits) generates
  | @head other next waits rest ih =>
      have circular : Circular (RowWait pool) other := .head waits (rest.trans back)
      exact generating_before reached waits circular (rest.trans (back.tail waits))
        (ih (back.tail waits))

/-! The seed script: it waits only for the names that another one inserts. -/

/-- The seed script is at this seat, and has taken earlier ones only. -/
structure AtSeat (pool : ServerPool) (thread seat : Nat) : Prop where
  seeds : Runs pool Call.Seeds thread
  seats : Seats seat (pastOf pool.state.hist thread)
  inserts : ∃ hash next, pool.threads[thread]? = some (some (.exec
    (.insert .users (fun _ => newUser (numberName seat) hash .customer) true) next))

theorem seat_held {thread seat id : Nat} {program : Program Reply}
    (running : pool.threads[thread]? = some (some program))
    (seats : Seats seat (pastOf pool.state.hist thread))
    (held : (.users, id) ∈ heldRows (pastOf pool.state.hist thread)) :
    pool.state.db.store .users id = none ∧ ∃ earlier < seat,
      Plants pool.state.db thread id (numberName earlier) := by
  obtain ⟨done, listed, taken⟩ := List.mem_filterMap.mp held
  obtain ⟨hash, earlier, answer, lower, rfl⟩ := seats done listed (Option.isSome_of_eq_some taken)
  rcases answer with error | _ | ⟨key, made⟩
  · cases taken
  · cases taken
  cases taken
  obtain ⟨plants, _, rfl⟩ := reached_planted reached running _ made _ _ listed
  refine ⟨?_, earlier, lower, plants⟩
  obtain ⟨txn, opened, ⟨row, created⟩, _⟩ := plants
  exact (reached_versioned reached).fresh thread txn .users key row opened created

theorem seat_awaited {thread other key : Nat} {name : Text} {cmd : Cmd}
    (awaits : Awaits pool.state thread other cmd (.users, key)) (different : other ≠ thread)
    (fresh : pool.state.db.store .users key = none) (plants : Plants pool.state.db other key name) :
    ∃ row skip now, cmd = .insert .users row skip ∧ (row now).username = name := by
  have sound := (reached_ready reached).sound
  have hidden : pool.state.db.view thread .users key = none := by
    have held := awaits_held sound awaits
    rw [RowLock.view_locked sound (by simpa [held] using different), fresh]
  cases awaits with
  | lock present => simp [hidden] at present
  | update present => simp [hidden] at present
  | @insert _ _ row skip txn rival opened written version clash =>
      obtain ⟨txn', opened', _, latest, there, rfl⟩ := plants
      cases opened.symm.trans opened'
      refine ⟨row, skip, (pool.state.view thread id).now, rfl, ?_⟩
      rcases version with own | stored
      · cases own.symm.trans there
        exact (beq_iff_eq.mp clash).symm
      · cases stored.symm.trans fresh

/-- What is waited for in a circle is held by a seed script at a seat of lower number. -/
theorem seat_before {thread other seat : Nat} (waits : RowWait pool thread other)
    (circular : Circular (RowWait pool) thread) (circular' : Circular (RowWait pool) other)
    (sits : AtSeat pool other seat) : ∃ lower < seat, AtSeat pool thread lower := by
  obtain ⟨call, call', ⟨table, id⟩, link⟩ := circular_link reached waits circular circular'
  obtain ⟨cmd, caught, awaits⟩ := link.first
  obtain ⟨cmd', caught'⟩ := link.second
  obtain ⟨next, running⟩ := caught.running
  obtain ⟨next', running'⟩ := caught'.running
  obtain ⟨_, arrived, seeds⟩ := sits.seeds
  cases caught'.arrived.symm.trans arrived
  obtain rfl : table = .users := by
    cases call' with
    | seedAdmin => exact List.mem_singleton.mp link.held
    | _ => exact seeds.elim
  have held := caught'.grasp.listed _ _ (awaits_held (reached_ready reached).sound awaits)
  obtain ⟨fresh, earlier, lower, plants⟩ := seat_held reached running' sits.seats held
  obtain ⟨row, skip, now, rfl, named⟩ := seat_awaited reached awaits link.different fresh plants
  -- who inserts accounts and wants one while holding rows is a seeding as well
  have orderly := reachable_orderly (server_records config) along_mayDo rfl (fun _ => rfl) reached
  obtain ⟨inserts, _⟩ := (orderly.threads thread _ call running caught.arrived).1
  have wanted := link.wanted
  cases call with
  | seedAdmin adminUser adminPass clientCount =>
      obtain ⟨hash, own, same, seats⟩ := caught.stance.enrols _ _ _ rfl
      cases same
      have here : own = earlier := numberName_injective named
      exact ⟨own, here ▸ lower, ⟨_, caught.arrived, trivial⟩, seats, hash, next, running⟩
  | register => cases wanted
  | _ => simp [Call.inserts] at inserts

theorem seat_absent (seat : Nat) :
    ∀ thread, Circular (RowWait pool) thread → ¬ AtSeat pool thread seat := by
  induction seat using Nat.strong_induction_on with
  | _ seat ih =>
      intro thread circular sits
      obtain ⟨before, rest, waits⟩ := Relation.TransGen.tail'_iff.mp circular
      have circular' : Circular (RowWait pool) before := Relation.TransGen.head' waits rest
      obtain ⟨lower, less, sits'⟩ := seat_before reached waits circular' circular sits
      exact ih lower less before circular' sits'

theorem circular_kind {thread : Nat} (circular : Circular (RowWait pool) thread) :
    Runs pool Call.Joins thread ∨ Runs pool Call.Generates thread := by
  obtain ⟨before, rest, waits⟩ := Relation.TransGen.tail'_iff.mp circular
  obtain ⟨beyond, waits', rest'⟩ := Relation.TransGen.head'_iff.mp circular
  have circular₀ : Circular (RowWait pool) before := Relation.TransGen.head' waits rest
  have circular₂ : Circular (RowWait pool) beyond := Relation.TransGen.tail' rest' waits'
  obtain ⟨call₀, call, row₀, link₀⟩ := circular_link reached waits circular₀ circular
  obtain ⟨call', call₂, row, link⟩ := circular_link reached waits' circular circular₂
  obtain ⟨cmd₀, caught₀, _⟩ := link₀.first
  obtain ⟨cmd, caught, _⟩ := link.first
  obtain ⟨cmd', caught'⟩ := link₀.second
  have arrived := caught.arrived
  cases caught'.arrived.symm.trans arrived
  have held := link₀.held
  have wanted₀ := link₀.wanted
  cases call with
  | connect | tick => exact Or.inl ⟨_, arrived, trivial⟩
  | generate => exact Or.inr ⟨_, arrived, trivial⟩
  | redeem =>
      -- only a generating call waits for vouchers, and such calls keep to themselves
      rw [List.mem_singleton.mp held] at wanted₀
      have generates : Runs pool Call.Generates before :=
        ⟨call₀, caught₀.arrived, wants_vouchers wanted₀⟩
      exact Or.inr (generating_round reached (circular.trans_left rest) (.single waits) generates)
  | decide =>
      rw [List.mem_singleton.mp held] at wanted₀
      exact absurd wanted₀ (wants_requests call₀)
  | seedAdmin adminUser adminPass clientCount =>
      obtain ⟨hash, seat, rfl, seats⟩ := caught.stance.enrols _ _ _ rfl
      obtain ⟨next, running⟩ := caught.running
      exact absurd ⟨⟨_, arrived, trivial⟩, seats, hash, next, running⟩
        (seat_absent reached seat thread circular)
  | _ => exact absurd link.wanted List.not_mem_nil

/-! The waits that foreign keys bring. -/

omit reached in
theorem references_named {table : TableName} {row : Row table} {key : RowRef}
    (points : key ∈ references table row) : key.1 = .users ∨ key.1 = .plans := by
  cases table with
  | users | plans => cases points
  | devices | sessions => exact Or.inl (congrArg Prod.fst (List.mem_singleton.mp points))
  | vouchers =>
      simp only [references, List.mem_cons, List.mem_map] at points
      rcases points with rfl | ⟨_, _, rfl⟩ <;> exact Or.inl rfl
  | planRequests =>
      simp only [references, List.mem_append, List.mem_cons, List.mem_map] at points
      rcases points with (rfl | ⟨_, _, rfl⟩) | ⟨_, _, rfl⟩
      · exact Or.inl rfl
      · exact Or.inr rfl
      · exact Or.inl rfl

omit reached in
theorem targets_named {table : TableName} {op : Op table} {key : RowRef}
    (points : key ∈ Op.targets table op) : key.1 = .users ∨ key.1 = .plans := by
  cases table with
  | users | plans | devices | sessions => cases points
  | planRequests =>
      cases op with
      | replace source =>
          obtain ⟨_, _, rfl⟩ := List.mem_map.mp points
          exact Or.inr rfl
      | decide status decidedBy => exact Or.inl (congrArg Prod.fst (List.mem_singleton.mp points))
  | vouchers =>
      cases op with
      | redeem redeemedBy => exact Or.inl (congrArg Prod.fst (List.mem_singleton.mp points))
      | _ => cases points

omit reached in
theorem acts_named {table : TableName} {act : Act table} {key : RowRef}
    (points : key ∈ Act.targets table act) : key.1 = .users ∨ key.1 = .plans := by
  cases act with
  | insert row => exact references_named points
  | update op now => exact targets_named points
  | delete => cases points

omit reached in
theorem locks_joins {call : Call} {table : TableName} (listed : table ∈ call.locks)
    (named : table = .users ∨ table = .plans) : call.Joins := by
  cases call <;> simp [Call.locks] at listed <;> first | trivial | simp [listed] at named

theorem selected_joins {thread : Nat} {row : RowRef} (named : row.1 = .users ∨ row.1 = .plans)
    (selected : pool.state.selectedForUpdate thread row = true) : Runs pool Call.Joins thread := by
  obtain ⟨event, listed, selects⟩ := List.any_eq_true.mp selected
  have recent := List.mem_reverse.mp ((List.takeWhile_prefix _).subset listed)
  obtain ⟨member, own⟩ := List.mem_filter.mp recent
  obtain ⟨call, arrived, may⟩ := reached_mayDo reached event member
  rw [beq_iff_eq.mp own] at arrived
  refine ⟨call, arrived, ?_⟩
  generalize event.cmd = cmd at selects may
  cases cmd with
  | lock table id =>
      have same : (table, id) = row := beq_iff_eq.mp selects
      subst same
      exact locks_joins may named
  | _ => cases selects

theorem keyWait_joins {thread other : Nat} (waits : KeyWait pool thread other) :
    Runs pool Call.Joins thread ∨ Runs pool Call.Joins other := by
  obtain ⟨_, cmd, next, row, running, awaits⟩ := waits
  cases awaits with
  | lock opened acted points =>
      -- only who waits locks the row, the other refers to it
      have orderly := reachable_orderly (server_records config) along_mayDo rfl
        (fun _ => rfl) reached
      obtain ⟨call, arrived, _⟩ := reached_seated reached running
      obtain ⟨locks, _⟩ := orderly.threads thread _ call running arrived
      exact Or.inl ⟨call, arrived, locks_joins locks (acts_named points)⟩
  | update points held selected =>
      exact Or.inr (selected_joins reached (targets_named points) selected)
  | insert points held selected =>
      exact Or.inr (selected_joins reached (references_named points) selected)
  | audit held selected => exact Or.inr (selected_joins reached (Or.inl rfl) selected)

theorem apart_rows {thread other : Nat} (path : Relation.TransGen (WaitsApart pool) thread other)
    (apart : ¬ Runs pool Call.Joins other) : Relation.TransGen (RowWait pool) thread other := by
  -- no end of such a wait locks what foreign keys point to, so it is for a row
  have row : ∀ {left right}, WaitsApart pool left right → ¬ Runs pool Call.Joins right →
      RowWait pool left right := by
    intro left right waits apart'
    rcases waits.1 with row | key
    · exact row
    · exact ((keyWait_joins reached key).elim waits.2 apart').elim
  induction path with
  | single waits => exact .single (row waits apart)
  | tail path waits ih => exact .tail (ih waits.2) (row waits apart)

theorem apart_generates {thread other : Nat} (circle : InCircle (WaitsApart pool) thread other) :
    Runs pool Call.Generates other := by
  obtain ⟨there, back⟩ := circle
  obtain ⟨_, ⟨_, apart⟩, _⟩ := Relation.TransGen.head'_iff.mp there
  obtain ⟨_, ⟨_, apart'⟩, _⟩ := Relation.TransGen.head'_iff.mp back
  have circular : Circular (RowWait pool) other :=
    (apart_rows reached back apart).trans (apart_rows reached there apart')
  exact (circular_kind reached circular).resolve_left apart'

end Rings

/-- A circle of waits for rows is one of connects and passes or one of generations, and no
foreign key closes a circle without a connect or a pass in it. -/
theorem circles_known {config : Config} {pool : ServerPool} (reached : Reached config pool)
    (thread : Nat) :
    ((∀ other, InCircle (RowWait pool) thread other → Runs pool Call.Joins other) ∨
      ∀ other, InCircle (RowWait pool) thread other → Runs pool Call.Generates other) ∧
    ∀ other, InCircle (WaitsApart pool) thread other → Runs pool Call.Generates other := by
  refine ⟨?_, fun other circle => apart_generates reached circle⟩
  by_cases generates : Runs pool Call.Generates thread
  · exact Or.inr fun other round => generating_round reached round.2 round.1 generates
  · -- one generating call in the circle would make this one generate too
    refine Or.inl fun other round => ?_
    rcases circular_kind reached (round.2.trans round.1) with joins | generates'
    · exact joins
    · exact absurd (generating_round reached round.1 round.2 generates') generates

theorem awaited_waits {pool : ServerPool} {thread other : Nat} {row : RowRef}
    (different : other ≠ thread) (asks : awaited pool thread = some row)
    (present : (pool.state.db.view thread row.1 row.2).isSome)
    (held : pool.state.db.locks row.1 row.2 = some other) : RowWait pool thread other := by
  unfold awaited at asks
  split at asks
  · rename_i table id next running
    cases asks
    exact ⟨different, _, next, _, running, .lock present held⟩
  · rename_i table id op next running
    cases asks
    exact ⟨different, _, next, _, running, .update present held⟩
  · cases asks

def stuck (pool : ServerPool) (thread : Nat) : Bool :=
  match pool.threads[thread]? with
  | some (some (.exec cmd _)) => (pool.state.exec thread cmd {}).isNone
  | _ => false

theorem stuck_waits {config : Config} {pool : ServerPool} (reached : Reached config pool)
    {thread other : Nat} (stopped : stuck pool thread = true)
    (pair : ∀ holder, holder < pool.state.arrivals.length → holder ≠ thread → holder ≠ other →
      pool.state.db.txns holder = none) : WaitsFor pool thread other := by
  unfold stuck at stopped
  split at stopped
  · rename_i cmd next running
    obtain ⟨holder, waits⟩ := stopped_waits reached running (Option.isNone_iff_eq_none.mp stopped)
    have opened := waitsFor_open reached waits
    have same : holder = other := by
      by_contra apart
      have different : holder ≠ thread := waits.elim And.left And.left
      by_cases bound : holder < pool.state.arrivals.length
      · rw [pair holder bound different apart] at opened
        cases opened
      · rw [(reached_ready reached).idle holder (Nat.le_of_not_lt bound)] at opened
        cases opened
    exact same ▸ waits
  · cases stopped

/-- Two generations draw the same two codes, in opposite orders. -/
def crossedDraws : List (Move Choice Call Ambient) :=
  let draws (thread first second : Nat) : List (Move Choice Call Ambient) :=
    [.start (.generate staff { hourVoucher with count := 2, countRange := by decide } 1),
      .advance thread { random := List.replicate 12 first },
      .advance thread { random := List.replicate 12 second }] ++ steps thread 2
  opening ++ draws 1 0 1 ++ draws 2 1 0

def deputy : AuthUser := ⟨3, ['d', 'e', 'p', 'u', 't', 'y'], .admin⟩

/-- The guest and an admin are online, and the admin decides a request during a pass. -/
def crossedKeys : List (Move Choice Call Ambient) :=
  arrival ++ [.start (.seedAdmin deputy.username ['s', 'e', 'c', 'r', 'e', 't'] 0)] ++ steps 2 8 ++
    [.start (.grant staff deputy.id anHour)] ++ steps 3 4 ++
    [.ambient (.clients [(phoneMac, ⟨some phoneMac, some phoneIp, some preauthenticated⟩),
      (tabletMac, ⟨some tabletMac, some phoneIp, some preauthenticated⟩)])] ++
    [.start (.connect guest phone)] ++ steps 4 10 ++
    [.start (.connect deputy tablet)] ++ steps 5 10 ++
    [.start (.createRequest guest halfHour)] ++ steps 6 5 ++
    [.start .tick] ++ steps 7 5 ++ [.start (.decide deputy 1 true)] ++ steps 8 4 ++ steps 7 1

/- The pass wants the account that the decision points to, and the decision wants the account
that the pass holds. -/
example : (play shop crossedKeys).map (fun pool => (stuck pool 7, stuck pool 8)) =
    some (true, true) := by decide +kernel

/-- A reconnection and a pass, each at a row of the other, and two generations, each at a
code of the other. -/
theorem circles_known_crossed :
    (∃ pool, Reached shop pool ∧ InCircle (RowWait pool) 3 4 ∧
      ∀ other, InCircle (RowWait pool) 3 other → Runs pool Call.Joins other) ∧
    ∃ pool, Reached shop pool ∧ InCircle (WaitsApart pool) 1 2 ∧
      ∀ other, InCircle (WaitsApart pool) 1 other → Runs pool Call.Generates other := by
  constructor
  · obtain ⟨pool, reached, arrivals, seen⟩ := play_shows shop crossedLocks (fun pool =>
      ((awaited pool 3, (pool.state.db.view 3 .sessions 1).isSome, pool.state.db.locks .sessions 1),
        (awaited pool 4, (pool.state.db.view 4 .users 2).isSome, pool.state.db.locks .users 2)))
      ((some (.sessions, 1), true, some 4), (some (.users, 2), true, some 3)) (by decide +kernel)
    simp only [Prod.mk.injEq] at seen
    obtain ⟨⟨asks, present, held⟩, asks', present', held'⟩ := seen
    have first : RowWait pool 3 4 := awaited_waits (by decide) asks present held
    have second : RowWait pool 4 3 := awaited_waits (by decide) asks' present' held'
    have round : InCircle (RowWait pool) 3 4 := ⟨.single first, .single second⟩
    refine ⟨pool, reached, round, ?_⟩
    rcases (circles_known reached 3).1 with joins | generates
    · exact joins
    · obtain ⟨call, arrived, kind⟩ := generates 4 round
      rw [arrivals] at arrived
      cases arrived
      exact kind.elim
  · obtain ⟨pool, reached, arrivals, seen⟩ := play_shows shop crossedDraws
      (fun pool => (stuck pool 1, stuck pool 2, (pool.state.db.txns 0).isNone))
      (true, true, true) (by decide +kernel)
    simp only [Prod.mk.injEq] at seen
    obtain ⟨stopped, stopped', closed⟩ := seen
    have only : ∀ holder, holder < pool.state.arrivals.length → holder ≠ 1 → holder ≠ 2 →
        pool.state.db.txns holder = none := by
      intro holder bound _ _
      rw [arrivals] at bound
      have bound : holder < 3 := bound
      obtain rfl : holder = 0 := by omega
      exact Option.isNone_iff_eq_none.mp closed
    have apart : ∀ thread, (thread = 1 ∨ thread = 2) → ¬ Runs pool Call.Joins thread := by
      rintro thread one ⟨call, arrived, kind⟩
      rw [arrivals] at arrived
      rcases one with rfl | rfl
      · cases arrived
        exact kind
      · cases arrived
        exact kind
    have first : WaitsApart pool 1 2 := ⟨stuck_waits reached stopped only, apart 1 (Or.inl rfl)⟩
    have second : WaitsApart pool 2 1 :=
      ⟨stuck_waits reached stopped' fun holder bound apart apart' => only holder bound apart' apart,
        apart 2 (Or.inr rfl)⟩
    exact ⟨pool, reached, ⟨.single first, .single second⟩, (circles_known reached 1).2⟩

end Cybera
