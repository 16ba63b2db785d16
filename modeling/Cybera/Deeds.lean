import Cybera.Commands
import Cybera.Timeline

/-!
What a single step can do, with its conditions, and the steps of a thread in
program order.
-/

namespace Cybera

open Interleaving

/-- The commands that read or that leave the database alone. -/
def Cmd.Reads : Cmd → Prop
  | .query _ | .dateNow | .randomBytes _ | .ndsctl _ | .audit .. => True
  | _ => False

/-- A step of the thread by its command and answer, with the database after it. -/
inductive Deed (world : World) (thread : Nat) (view : View) :
    (cmd : Cmd) → Except Failure (Res cmd) → Database → Prop where
  | read {cmd : Cmd} {answer : Except Failure (Res cmd)} (reads : cmd.Reads) :
      Deed world thread view cmd answer world.db
  | failed {cmd : Cmd} {error : Failure} (goes : cmd ≠ .commit ∧ cmd ≠ .rollback) :
      Deed world thread view cmd (.error error) world.db
  | began : Deed world thread view .begin (.ok ()) (world.db.begin thread world.clock)
  | committed {answer : Except Failure Unit} (landed : Landed answer) :
      Deed world thread view .commit answer (world.db.commit thread)
  | refused : Deed world thread view .commit (.error .query) (world.db.rollback thread)
  | undone {answer : Except Failure Unit} :
      Deed world thread view .rollback answer (world.db.rollback thread)
  | unlocked {table : TableName} {id : Nat} (absent : world.db.view thread table id = none) :
      Deed world thread view (.lock table id) (.ok none) world.db
  | locked {table : TableName} {id : Nat} {row : Row table} {after : Database}
      (present : world.db.view thread table id = some row)
      (granted : world.db.acquire thread table id = some after) :
      Deed world thread view (.lock table id) (.ok (some row)) after
  | missed {table : TableName} {id : Nat} {op : Op table}
      (absent : world.db.view thread table id = none) :
      Deed world thread view (.update table id op) (.ok none) world.db
  | updated {table : TableName} {id : Nat} {op : Op table} {row : Row table} {after : Database}
      (present : world.db.view thread table id = some row)
      (written : world.db.write Act.run thread (alter table id op view.now) = some after) :
      Deed world thread view (.update table id op) (.ok (some (Op.run table op view.now row))) after
  | skipped {table : TableName} {row : Time → Row table} {skip : Bool} :
      Deed world thread view (.insert table row skip) (.ok none) world.db
  | inserted {table : TableName} {row : Time → Row table} {skip : Bool} {after : Database}
      (free : world.contended thread table (row view.now) = false)
      (single : world.clash (world.db.view thread) table (row view.now) = false)
      (written : (world.db.reserve table).write Act.run thread
        (create table (world.db.next table) (row view.now)) = some after) :
      Deed world thread view (.insert table row skip)
        (.ok (some (world.db.next table, row view.now))) after
  | gone {id : Nat} : Deed world thread view (.deletePlan id) (.ok ()) world.db
  | deleted {id : Nat} {after : Database}
      (written : world.db.write Act.run thread (remove .plans id) = some after) :
      Deed world thread view (.deletePlan id) (.ok ()) after

section Steps
variable {thread : Nat} {world after : World} {choice : Choice}

theorem succeeded_deed {cmd : Cmd} {answer : Except Failure (Res cmd)}
    (executed : world.succeeded thread choice cmd = some (answer, after)) :
    Deed world thread (world.view thread choice.order) cmd answer after.db := by
  cases succeeded_effect executed with
  | began => exact .began
  | committed => exact .committed .answered
  | undone => exact .undone
  | unlocked absent => exact .unlocked absent
  | locked present granted => exact .locked present granted
  | missed absent => exact .missed absent
  | updated present linked standing written => exact .updated present written
  | skipped => exact .skipped
  | inserted free standing single linked written => exact .inserted free single written
  | gone => exact .gone
  | deleted free unreferenced written => exact .deleted written
  | broken | refused | referenced => exact .failed (by simp)
  | asked | timed | drew | ordered | audited => exact .read trivial

/-- The one inversion of a step that everything below rests on. -/
theorem exec_deed {cmd : Cmd} {answer : Except Failure (Res cmd)}
    (executed : world.exec thread cmd choice = some (answer, after)) :
    Deed (world.advance choice.elapsed) thread ((world.advance choice.elapsed).view thread
      choice.order) cmd answer after.db := by
  simp only [World.exec, Option.map_eq_some_iff, Prod.exists, Prod.mk.injEq] at executed
  obtain ⟨reply, reached, result, rfl, rfl⟩ := executed
  split at result
  · cases cmd with
    | commit =>
        simp only [World.failed, Option.some.injEq] at result
        cases took : choice.took with
        | true =>
            simp only [took, if_true] at result
            cases result
            exact .committed .lost
        | false =>
            simp only [took] at result
            cases result
            exact .refused
    | rollback =>
        cases result
        exact .undone
    | ndsctl command =>
        cases result
        cases choice.took <;> exact .read trivial
    | _ =>
        cases result
        exact .failed (by simp)
  · have deed := succeeded_deed result
    exact deed

theorem exec_query {query : Query} {result : query.Res}
    (executed : world.exec thread (.query query) choice = some (.ok result, after)) :
    result = query.eval ((world.advance choice.elapsed).view thread choice.order) ∧
      after.db = world.db := by
  obtain ⟨reached, ran, db, _⟩ := exec_ok executed
  simp only [World.succeeded, Option.some.injEq, Prod.mk.injEq, Except.ok.injEq] at ran
  obtain ⟨rfl, rfl⟩ := ran
  exact ⟨rfl, db⟩

end Steps

/-! The recorded steps of a thread. -/

def Event.done (event : Event) : Done Cmd Res Failure := ⟨event.cmd, event.answer⟩

/-- A COMMIT that was carried out. -/
def Lands (done : Done Cmd Res Failure) : Prop :=
  ∃ answer, Landed answer ∧ done = ⟨.commit, answer⟩

theorem answered_lands : Lands ⟨.commit, .ok ()⟩ := ⟨_, .answered, rfl⟩

theorem lands_commit {cmd : Cmd} {answer : Except Failure (Res cmd)}
    (lands : Lands ⟨cmd, answer⟩) : cmd = .commit := by
  obtain ⟨_, _, same⟩ := lands
  exact congrArg Sigma.fst same

theorem lands_answer {answer : Except Failure Unit} (lands : Lands ⟨.commit, answer⟩) :
    Landed answer := by
  obtain ⟨_, landed, same⟩ := lands
  cases same
  exact landed

/-- What the thread did in this history, newest first. -/
def pastOf (hist : List Event) (thread : Nat) : List (Done Cmd Res Failure) :=
  ((hist.filter fun event => event.thread == thread).map Event.done).reverse

section Past
variable {hist : List Event} {thread : Nat}

theorem pastOf_own {event : Event} (own : event.thread = thread) :
    pastOf (hist ++ [event]) thread = event.done :: pastOf hist thread := by
  simp [pastOf, own]

theorem pastOf_other {event : Event} (other : event.thread ≠ thread) :
    pastOf (hist ++ [event]) thread = pastOf hist thread := by
  simp [pastOf, other]

theorem exec_past {world after : World} {choice : Choice} {cmd : Cmd}
    {answer : Except Failure (Res cmd)}
    (executed : world.exec thread cmd choice = some (answer, after)) :
    pastOf after.hist thread = ⟨cmd, answer⟩ :: pastOf world.hist thread := by
  rw [(exec_cases executed).2.2.1]
  exact pastOf_own rfl

theorem exec_past_other {world after : World} {choice : Choice} {cmd : Cmd} {mover : Nat}
    {answer : Except Failure (Res cmd)} (different : thread ≠ mover)
    (executed : world.exec mover cmd choice = some (answer, after)) :
    pastOf after.hist thread = pastOf world.hist thread := by
  rw [(exec_cases executed).2.2.1]
  exact pastOf_other (Ne.symm different)

theorem mem_pastOf {done : Done Cmd Res Failure} : done ∈ pastOf hist thread ↔
    ∃ event ∈ hist, event.thread = thread ∧ event.done = done := by
  simp [pastOf, and_assoc]

theorem mem_pastOf_take {pos : Nat} {done : Done Cmd Res Failure} :
    done ∈ pastOf (hist.take pos) thread ↔ ∃ (earlier : Nat) (event : Event), earlier < pos ∧
      hist[earlier]? = some event ∧ event.thread = thread ∧ event.done = done := by
  rw [mem_pastOf]
  constructor
  · rintro ⟨event, member, own, same⟩
    obtain ⟨earlier, found⟩ := List.mem_iff_getElem?.mp member
    rw [List.getElem?_take] at found
    split at found
    · rename_i before
      exact ⟨earlier, event, before, found, own, same⟩
    · cases found
  · rintro ⟨earlier, event, before, found, own, same⟩
    refine ⟨event, List.mem_of_getElem? (i := earlier) ?_, own, same⟩
    rwa [List.getElem?_take, if_pos before]

theorem mem_pastOf_whole {pos : Nat} {done : Done Cmd Res Failure}
    (member : done ∈ pastOf (hist.take pos) thread) : done ∈ pastOf hist thread := by
  obtain ⟨earlier, event, _, found, own, same⟩ := mem_pastOf_take.mp member
  exact mem_pastOf.mpr ⟨event, List.mem_of_getElem? found, own, same⟩

theorem server_records (config : Config) :
    Records (server config) fun thread world => pastOf world.hist thread where
  own _ _ _ _ _ _ executed := exec_past executed
  other _ _ _ _ _ _ _ different executed := exec_past_other different executed
  start _ _ _ := rfl
  crash _ _ _ := rfl
  ambient thread event state after happened := by rw [(ambient_cases happened).2.2.2]

end Past

/-! Program order along the services' building blocks; an error may do anything. -/
section Along
variable {allowed : List (Done Cmd Res Failure) → Cmd → Prop} {past : List (Done Cmd Res Failure)}
  {α : Type}

/-- A postcondition of normal ends. -/
abbrev Ends (goes : α → List (Done Cmd Res Failure) → Prop) :
    Except Failure α → List (Done Cmd Res Failure) → Prop :=
  Branch goes fun _ _ => True

theorem along_then {β : Type} {goes : β → List (Done Cmd Res Failure) → Prop}
    (middle : α → List (Done Cmd Res Failure) → Prop) {program : Program α}
    {rest : α → Program β} (first : Along allowed (Ends middle) program past)
    (next : ∀ value after, middle value after → Along allowed (Ends goes) (rest value) after) :
    Along allowed (Ends goes) (program.bind rest) past := by
  apply along_bind
  refine along_post ?_ _ first
  rintro (error | value) after reached
  · trivial
  · exact next value after reached

theorem along_tx {goes : α → List (Done Cmd Res Failure) → Prop} {body : Program α}
    (begins : allowed past .begin) (undoes : ∀ past, allowed past .rollback)
    (inside : Along allowed (Ends fun value after => allowed after .commit ∧
      goes value (⟨.commit, .ok ()⟩ :: after)) body (⟨.begin, .ok ()⟩ :: past)) :
    Along allowed (Ends goes) (DbService.tx body) past := by
  apply along_rescue
  refine along_perform _ _ begins ?_ ?_
  · intro _
    apply along_bind
    refine along_post ?_ _ inside
    rintro (error | value) after reached
    · exact along_perform _ _ (undoes _) (fun _ => trivial) fun _ => trivial
    · refine along_perform _ _ reached.1 (fun _ => reached.2) ?_
      exact fun _ => along_perform _ _ (undoes _) (fun _ => trivial) fun _ => trivial
  · exact fun _ => along_perform _ _ (undoes _) (fun _ => trivial) fun _ => trivial

theorem along_insertRow {table : TableName} {row : Time → Row table}
    {goes : Nat × Row table → List (Done Cmd Res Failure) → Prop}
    (inserts : allowed past (.insert table row false))
    (done : ∀ made, goes made (⟨.insert table row false, .ok (some made)⟩ :: past)) :
    Along allowed (Ends goes) (insertRow table row) past := by
  refine along_perform _ _ inserts ?_ fun _ => trivial
  rintro (_ | made)
  · trivial
  · exact done made

theorem along_command (cmd : Cmd) {goes : Res cmd → List (Done Cmd Res Failure) → Prop}
    (permitted : allowed past cmd) (done : ∀ value, goes value (⟨cmd, .ok value⟩ :: past)) :
    Along allowed (Ends goes) (perform cmd) past := by
  refine ⟨permitted, ?_⟩
  rintro (error | value)
  · trivial
  · exact done value

end Along

section Allowed
variable {config : Config} {pool : ServerPool}
  {allowed : Call → List (Done Cmd Res Failure) → Cmd → Prop}
  {post : Call → Except Failure Reply → List (Done Cmd Res Failure) → Prop}

theorem reached_ordered
    (bodies : ∀ call, Along (allowed call) (post call) (call.program config) [])
    (holds : World → Prop) (entry : holds World.initial)
    (starts : ∀ call world, holds world → holds (world.start call))
    (execs : ∀ pool thread call cmd choice answer after, Reached config pool →
      holds pool.state → pool.state.arrivals[thread]? = some call →
      allowed call (pastOf pool.state.hist thread) cmd →
      pool.state.exec thread cmd choice = some (answer, after) → holds after)
    (crashes : ∀ thread world, holds world → holds (world.crash thread))
    (ambients : ∀ event before after, holds before → World.ambient event before = some after →
      holds after) (reached : Reached config pool) : holds pool.state :=
  reachable_ordered (server_records config) bodies rfl (fun _ => rfl) holds entry starts execs
    crashes ambients reached

/-- A property of the state and one of each running thread, kept by every step
that its call allows. -/
theorem reached_live
    (bodies : ∀ call, Along (allowed call) (post call) (call.program config) [])
    (inv : World → Prop) (holds : Nat → World → Prop) (entry : inv World.initial)
    (enters : ∀ pool thread, Reached config pool → pastOf pool.state.hist thread = [] →
      pool.state.arrivals.length ≤ thread → holds thread pool.state)
    (starts : ∀ call world, inv world → inv (world.start call) ∧
      ∀ thread, holds thread world → holds thread (world.start call))
    (own : ∀ pool thread call cmd choice answer after, Reached config pool → inv pool.state →
      holds thread pool.state → pool.state.arrivals[thread]? = some call →
      allowed call (pastOf pool.state.hist thread) cmd →
      pool.state.exec thread cmd choice = some (answer, after) → inv after ∧ holds thread after)
    (other : ∀ pool thread mover cmd choice answer after, Reached config pool → inv pool.state →
      thread ≠ mover → holds thread pool.state →
      pool.state.exec mover cmd choice = some (answer, after) → holds thread after)
    (crashes : ∀ mover world, inv world → inv (world.crash mover) ∧
      ∀ thread, thread ≠ mover → holds thread world → holds thread (world.crash mover))
    (ambients : ∀ event before after, inv before → World.ambient event before = some after →
      inv after ∧ ∀ thread, holds thread before → holds thread after)
    (reached : Reached config pool) :
    inv pool.state ∧ ∀ (thread : Nat) (program : Program Reply),
      pool.threads[thread]? = some (some program) → holds thread pool.state :=
  reachable_live (server_records config) bodies rfl (fun _ => rfl) inv holds entry enters starts
    own other crashes ambients reached

theorem reached_allowed
    (bodies : ∀ call, Along (allowed call) (post call) (call.program config) [])
    (reached : Reached config pool) : ∀ (index : Nat) (event : Event),
      pool.state.hist[index]? = some event → ∃ call, pool.state.arrivals[event.thread]? =
        some call ∧ allowed call (pastOf (pool.state.hist.take index) event.thread) event.cmd := by
  refine reached_ordered bodies (fun world => ∀ (index : Nat) (event : Event),
    world.hist[index]? = some event → ∃ call, world.arrivals[event.thread]? = some call ∧
      allowed call (pastOf (world.hist.take index) event.thread) event.cmd) ?_ ?_ ?_ ?_ ?_ reached
  · simp [World.initial]
  · intro call world known index event found
    obtain ⟨known', called, permitted⟩ := known index event found
    exact ⟨known', prefix_getElem? (List.prefix_append _ _) called, permitted⟩
  · intro pool thread call cmd choice answer after _ known called permitted executed
      index event found
    obtain ⟨_, arrivals, hist, _⟩ := exec_cases executed
    rw [arrivals]
    by_cases old : index < pool.state.hist.length
    · rw [hist, List.getElem?_append_left old] at found
      rw [hist, List.take_append_of_le_length (Nat.le_of_lt old)]
      exact known index event found
    · have here : index = pool.state.hist.length := by
        have bound := (List.getElem?_eq_some_iff.mp found).1
        rw [hist, List.length_append, List.length_singleton] at bound
        omega
      subst here
      rw [hist, List.getElem?_concat_length, Option.some.injEq] at found
      subst found
      refine ⟨call, called, ?_⟩
      rw [hist, List.take_left]
      exact permitted
  · exact fun _ _ known => known
  · intro event before after known happened
    obtain ⟨_, _, arrivals, hist⟩ := ambient_cases happened
    rw [arrivals, hist]
    exact known

theorem along_mayDo (call : Call) :
    Along (fun _ cmd => call.mayDo cmd) (fun _ _ => True) (call.program config) [] :=
  uses_along _ (call_uses call)

theorem reached_mayDo (reached : Reached config pool) (event : Event)
    (member : event ∈ pool.state.hist) : ∃ call,
      pool.state.arrivals[event.thread]? = some call ∧ call.mayDo event.cmd := by
  obtain ⟨index, found⟩ := List.mem_iff_getElem?.mp member
  exact reached_allowed along_mayDo reached index event found

end Allowed
end Cybera
