import Cybera.Interleaving

/-!
Program order. What a program may do next, given what it has done so far, is a
condition on the program alone; in a pool whose state records the steps it then
holds of everything that the threads were ever seen to do.
-/

namespace Interleaving

section Programs
variable {Cmd : Type} {Res : Cmd → Type} {Err α β γ : Type}

/-- A command with its answer. -/
abbrev Done (Cmd : Type) (Res : Cmd → Type) (Err : Type) := (cmd : Cmd) × Except Err (Res cmd)

variable (allowed : List (Done Cmd Res Err) → Cmd → Prop)

/-- With `past` behind it, newest first, each command of the program is allowed
and its outcome satisfies `post`, whatever the answers are. -/
def Along (post : Except Err α → List (Done Cmd Res Err) → Prop) :
    Prog Cmd Res Err α → List (Done Cmd Res Err) → Prop
  | .done value, past => post (.ok value) past
  | .raise error, past => post (.error error) past
  | .exec cmd next, past => allowed past cmd ∧
      ∀ answer, Along post (next answer) (⟨cmd, answer⟩ :: past)

variable {allowed} {past : List (Done Cmd Res Err)}

theorem along_mono {weaker : List (Done Cmd Res Err) → Cmd → Prop}
    {post post' : Except Err α → List (Done Cmd Res Err) → Prop}
    (permits : ∀ past cmd, allowed past cmd → weaker past cmd)
    (implies : ∀ outcome past, post outcome past → post' outcome past)
    (program : Prog Cmd Res Err α) (along : Along allowed post program past) :
    Along weaker post' program past := by
  induction program generalizing past with
  | done value => exact implies _ _ along
  | raise error => exact implies _ _ along
  | exec cmd next ih =>
      exact ⟨permits _ _ along.1, fun answer => ih answer (along.2 answer)⟩

theorem along_post {post post' : Except Err α → List (Done Cmd Res Err) → Prop}
    (implies : ∀ outcome past, post outcome past → post' outcome past)
    (program : Prog Cmd Res Err α) (along : Along allowed post program past) :
    Along allowed post' program past :=
  along_mono (fun _ _ permitted => permitted) implies program along

theorem along_and {other : List (Done Cmd Res Err) → Cmd → Prop}
    {post post' : Except Err α → List (Done Cmd Res Err) → Prop} (program : Prog Cmd Res Err α)
    (left : Along allowed post program past) (right : Along other post' program past) :
    Along (fun past cmd => allowed past cmd ∧ other past cmd)
      (fun outcome past => post outcome past ∧ post' outcome past) program past := by
  induction program generalizing past with
  | done value => exact ⟨left, right⟩
  | raise error => exact ⟨left, right⟩
  | exec cmd next ih =>
      exact ⟨⟨left.1, right.1⟩, fun answer => ih answer (left.2 answer) (right.2 answer)⟩

theorem along_bind {post : Except Err β → List (Done Cmd Res Err) → Prop}
    (program : Prog Cmd Res Err α) (rest : α → Prog Cmd Res Err β)
    (along : Along allowed (Branch (fun value => Along allowed post (rest value))
      fun error => post (.error error)) program past) :
    Along allowed post (program.bind rest) past := by
  induction program generalizing past with
  | done value => exact along
  | raise error => exact along
  | exec cmd next ih => exact ⟨along.1, fun answer => ih answer (along.2 answer)⟩

theorem along_rescue {post : Except Err α → List (Done Cmd Res Err) → Prop}
    (program : Prog Cmd Res Err α) (handler : Err → Prog Cmd Res Err α)
    (along : Along allowed (Branch (fun value => post (.ok value))
      fun error => Along allowed post (handler error)) program past) :
    Along allowed post (program.rescue handler) past := by
  induction program generalizing past with
  | done value => exact along
  | raise error => exact along
  | exec cmd next ih => exact ⟨along.1, fun answer => ih answer (along.2 answer)⟩

theorem along_perform {post : Except Err β → List (Done Cmd Res Err) → Prop} (cmd : Cmd)
    (rest : Res cmd → Prog Cmd Res Err β) (permitted : allowed past cmd)
    (answered : ∀ value, Along allowed post (rest value) (⟨cmd, .ok value⟩ :: past))
    (failed : ∀ error, post (.error error) (⟨cmd, .error error⟩ :: past)) :
    Along allowed post ((Prog.perform cmd).bind rest) past := by
  refine ⟨permitted, ?_⟩
  intro answer
  cases answer with
  | ok value => exact answered value
  | error error => exact failed error

theorem along_throwIf {post : Except Err β → List (Done Cmd Res Err) → Prop} (condition : Bool)
    (error : Err) (rest : Unit → Prog Cmd Res Err β)
    (thrown : condition = true → post (.error error) past)
    (passed : condition = false → Along allowed post (rest ()) past) :
    Along allowed post ((Prog.throwIf condition error).bind rest) past := by
  cases condition with
  | true => exact thrown rfl
  | false => exact passed rfl

theorem along_orThrow {post : Except Err β → List (Done Cmd Res Err) → Prop} (value : Option γ)
    (error : Err) (rest : γ → Prog Cmd Res Err β)
    (thrown : value = none → post (.error error) past)
    (found : ∀ inner, value = some inner → Along allowed post (rest inner) past) :
    Along allowed post ((Prog.orThrow value error).bind rest) past := by
  cases value with
  | none => exact thrown rfl
  | some inner => exact found inner rfl

theorem along_each {post : Except Err Unit → List (Done Cmd Res Err) → Prop}
    (loop : List γ → List (Done Cmd Res Err) → Prop) (act : γ → Prog Cmd Res Err Unit)
    (body : ∀ item rest past, loop (item :: rest) past →
      Along allowed (Branch (fun _ => loop rest) fun error => post (.error error)) (act item) past)
    (exit : ∀ past, loop [] past → post (.ok ()) past)
    (items : List γ) (entry : loop items past) :
    Along allowed post (Prog.each items act) past := by
  induction items generalizing past with
  | nil => exact exit past entry
  | cons item rest ih =>
      apply along_bind
      refine along_post ?_ _ (body item rest past entry)
      intro outcome after reached
      cases outcome with
      | ok value => exact ih reached
      | error error => exact reached

theorem along_collect {post : Except Err (List γ) → List (Done Cmd Res Err) → Prop}
    (loop : List β → List γ → List (Done Cmd Res Err) → Prop)
    (act : β → Prog Cmd Res Err (Option γ))
    (body : ∀ item rest kept past, loop (item :: rest) kept past →
      Along allowed (Branch (fun found => loop rest (kept ++ found.toList))
        fun error => post (.error error)) (act item) past)
    (exit : ∀ kept past, loop [] kept past → post (.ok kept) past)
    (items : List β) (entry : loop items [] past) :
    Along allowed post (Prog.collect items act) past := by
  have loops : ∀ (items : List β) (kept : List γ) (past : List (Done Cmd Res Err)),
      loop items kept past →
      Along allowed (Branch (fun others after => post (.ok (kept ++ others)) after)
        fun error => post (.error error)) (Prog.collect items act) past := by
    intro items
    induction items with
    | nil =>
        intro kept past entry
        have ended := exit kept past entry
        simpa [Prog.collect, Along, Branch] using ended
    | cons item rest ih =>
        intro kept past entry
        apply along_bind
        refine along_post ?_ _ (body item rest kept past entry)
        intro outcome after reached
        cases outcome with
        | error error => exact reached
        | ok found =>
            apply along_bind
            refine along_post ?_ _ (ih _ after reached)
            intro outcome final ended
            cases outcome with
            | error error => exact ended
            | ok others => simpa [Along, Branch] using ended
  refine along_post ?_ _ (loops items [] past entry)
  intro outcome after ended
  cases outcome with
  | ok kept => simpa [Branch] using ended
  | error error => exact ended

theorem along_keeps {commands : Cmd → Prop} (keeps : List (Done Cmd Res Err) → Prop)
    (permits : ∀ past cmd, commands cmd → keeps past → allowed past cmd)
    (quiet : ∀ past cmd answer, commands cmd → keeps past → keeps (⟨cmd, answer⟩ :: past))
    (program : Prog Cmd Res Err α) (uses : program.Uses commands) (entry : keeps past) :
    Along allowed (fun _ => keeps) program past := by
  induction program generalizing past with
  | done value => exact entry
  | raise error => exact entry
  | exec cmd next ih =>
      exact ⟨permits _ _ uses.1 entry,
        fun answer => ih answer (uses.2 answer) (quiet _ _ _ uses.1 entry)⟩

theorem uses_along {commands : Cmd → Prop} (program : Prog Cmd Res Err α)
    (uses : program.Uses commands) :
    Along (fun _ cmd => commands cmd) (fun _ _ => True) program past := by
  induction program generalizing past with
  | done value => trivial
  | raise error => trivial
  | exec cmd next ih => exact ⟨uses.1, fun answer => ih answer (uses.2 answer)⟩

end Programs

section Pools
variable {Cmd : Type} {Res : Cmd → Type} {Err Choice Call Event α S : Type}
variable (M : Machine Cmd Res Err Choice Call Event α S)

/-- The state records what each thread has done. -/
structure Records (past : Nat → S → List (Done Cmd Res Err)) : Prop where
  own : ∀ thread cmd choice state answer after,
    M.exec thread cmd choice state = some (answer, after) →
      past thread after = ⟨cmd, answer⟩ :: past thread state
  other : ∀ thread mover cmd choice state answer after, thread ≠ mover →
    M.exec mover cmd choice state = some (answer, after) → past thread after = past thread state
  start : ∀ thread call state, past thread (M.start call state) = past thread state
  crash : ∀ thread mover state, past thread (M.crash mover state) = past thread state
  ambient : ∀ thread event state after, M.ambient event state = some after →
    past thread after = past thread state

variable {M} {past : Nat → S → List (Done Cmd Res Err)}

/-- Each live thread goes on as its call allows; a thread that has not started
has done nothing. -/
structure Orderly (M : Machine Cmd Res Err Choice Call Event α S)
    (past : Nat → S → List (Done Cmd Res Err))
    (allowed : Call → List (Done Cmd Res Err) → Cmd → Prop)
    (post : Call → Except Err α → List (Done Cmd Res Err) → Prop)
    (pool : Pool Cmd Res Err α S) : Prop where
  length : pool.threads.length = (M.calls pool.state).length
  fresh : ∀ thread, pool.threads.length ≤ thread → past thread pool.state = []
  threads : ∀ thread program call, pool.threads[thread]? = some (some program) →
    (M.calls pool.state)[thread]? = some call →
      Along (allowed call) (post call) program (past thread pool.state)

variable {allowed : Call → List (Done Cmd Res Err) → Cmd → Prop}
  {post : Call → Except Err α → List (Done Cmd Res Err) → Prop}

theorem step_orderly (records : Records M past)
    (bodies : ∀ call, Along (allowed call) (post call) (M.body call) [])
    {pool after : Pool Cmd Res Err α S} {move : Move Choice Call Event}
    (orderly : Orderly M past allowed post pool) (moved : step M pool move = some after) :
    Orderly M past allowed post after := by
  obtain ⟨length, fresh, threads⟩ := orderly
  cases step_cases moved with
  | start call =>
      refine ⟨by simp [M.start_calls, length], ?_, ?_⟩
      · intro thread beyond
        rw [records.start]
        simp only [List.length_append, List.length_singleton] at beyond
        exact fresh thread (by omega)
      · intro thread program known present called
        simp only [M.start_calls] at called
        rw [records.start]
        rcases started_running present with ⟨old, present⟩ | ⟨rfl, started⟩
        · rw [List.getElem?_append_left (length ▸ old)] at called
          exact threads thread program known present called
        · cases started
          rw [length, List.getElem?_concat_length] at called
          cases called
          rw [fresh _ (Nat.le_refl _)]
          exact bodies call
  | advance mover choice cmd next answer reached running executed =>
      have known := (List.getElem?_eq_some_iff.mp running).1
      have sameCalls := M.exec_calls mover cmd choice _ answer reached executed
      refine ⟨by simp [sameCalls, length], ?_, ?_⟩
      · intro thread beyond
        simp only [List.length_set] at beyond
        have different : thread ≠ mover := fun same => absurd known (by omega)
        rw [records.other _ _ _ _ _ _ _ different executed]
        exact fresh thread beyond
      · intro thread program call present called
        simp only [sameCalls] at called
        rcases moved_running present with ⟨different, present⟩ | ⟨rfl, stepped⟩
        · rw [records.other _ _ _ _ _ _ _ different executed]
          exact threads thread program call present called
        · cases stepped
          rw [records.own _ _ _ _ _ _ executed]
          exact (threads thread _ call running called).2 answer
  | crash mover crashed running =>
      refine ⟨by simp [M.crash_calls, length], ?_, ?_⟩
      · intro thread beyond
        simp only [List.length_set] at beyond
        rw [records.crash]
        exact fresh thread beyond
      · intro thread program call present called
        simp only [M.crash_calls] at called
        rw [records.crash]
        rcases moved_running present with ⟨_, present⟩ | ⟨_, stopped⟩
        · exact threads thread program call present called
        · cases stopped
  | ambient event reached happened =>
      have sameCalls := M.ambient_calls event _ _ happened
      refine ⟨by simp [sameCalls, length], ?_, ?_⟩
      · intro thread beyond
        rw [records.ambient _ _ _ _ happened]
        exact fresh thread beyond
      · intro thread program call present called
        simp only [sameCalls] at called
        rw [records.ambient _ _ _ _ happened]
        exact threads thread program call present called

theorem reachable_orderly (records : Records M past)
    (bodies : ∀ call, Along (allowed call) (post call) (M.body call) []) {initial : S}
    (fresh : M.calls initial = []) (nothing : ∀ thread, past thread initial = [])
    {pool : Pool Cmd Res Err α S} (reachable : Reachable M initial pool) :
    Orderly M past allowed post pool := by
  induction reachable with
  | init => exact ⟨by simp [fresh], fun thread _ => nothing thread, by simp⟩
  | next move _ moved ih => exact step_orderly records bodies ih moved

theorem reachable_ordered (records : Records M past)
    (bodies : ∀ call, Along (allowed call) (post call) (M.body call) []) {initial : S}
    (fresh : M.calls initial = []) (nothing : ∀ thread, past thread initial = [])
    (holds : S → Prop) (entry : holds initial)
    (starts : ∀ call state, holds state → holds (M.start call state))
    (execs : ∀ pool thread call cmd choice answer after, Reachable M initial pool →
      holds pool.state → (M.calls pool.state)[thread]? = some call →
      allowed call (past thread pool.state) cmd →
      M.exec thread cmd choice pool.state = some (answer, after) → holds after)
    (crashes : ∀ thread state, holds state → holds (M.crash thread state))
    (ambients : ∀ event before after, holds before → M.ambient event before = some after →
      holds after) {pool : Pool Cmd Res Err α S} (reachable : Reachable M initial pool) :
    holds pool.state := by
  induction reachable with
  | init => exact entry
  | next move before moved ih =>
      cases step_cases moved with
      | start call => exact starts call _ ih
      | advance thread choice cmd next answer reached running executed =>
          have orderly := reachable_orderly records bodies fresh nothing before
          have known := (List.getElem?_eq_some_iff.mp running).1
          rw [orderly.length] at known
          have called := List.getElem?_eq_getElem known
          have along := orderly.threads thread _ _ running called
          exact execs _ thread _ cmd choice answer reached before ih called along.1 executed
      | crash thread program running => exact crashes thread _ ih
      | ambient event reached happened => exact ambients _ _ _ ih happened

/-- The invariant rule for a property of the state together with one of each
thread that is still running; both may rely on each other. -/
theorem reachable_live (records : Records M past)
    (bodies : ∀ call, Along (allowed call) (post call) (M.body call) []) {initial : S}
    (fresh : M.calls initial = []) (nothing : ∀ thread, past thread initial = [])
    (inv : S → Prop) (holds : Nat → S → Prop) (entry : inv initial)
    (enters : ∀ pool thread, Reachable M initial pool → past thread pool.state = [] →
      (M.calls pool.state).length ≤ thread → holds thread pool.state)
    (starts : ∀ call state, inv state → inv (M.start call state) ∧
      ∀ thread, holds thread state → holds thread (M.start call state))
    (own : ∀ pool thread call cmd choice answer after, Reachable M initial pool → inv pool.state →
      holds thread pool.state → (M.calls pool.state)[thread]? = some call →
      allowed call (past thread pool.state) cmd →
      M.exec thread cmd choice pool.state = some (answer, after) → inv after ∧ holds thread after)
    (other : ∀ pool thread mover cmd choice answer after, Reachable M initial pool →
      inv pool.state → thread ≠ mover → holds thread pool.state →
      M.exec mover cmd choice pool.state = some (answer, after) → holds thread after)
    (crashes : ∀ mover state, inv state → inv (M.crash mover state) ∧
      ∀ thread, thread ≠ mover → holds thread state → holds thread (M.crash mover state))
    (ambients : ∀ event before after, inv before → M.ambient event before = some after →
      inv after ∧ ∀ thread, holds thread before → holds thread after)
    {pool : Pool Cmd Res Err α S} (reachable : Reachable M initial pool) :
    inv pool.state ∧ ∀ (thread : Nat) (program : Prog Cmd Res Err α),
      pool.threads[thread]? = some (some program) → holds thread pool.state := by
  induction reachable with
  | init => exact ⟨entry, by simp⟩
  | @next pool after move before moved ih =>
      obtain ⟨kept, threads⟩ := ih
      have orderly := reachable_orderly records bodies fresh nothing before
      cases step_cases moved with
      | start call =>
          obtain ⟨inv', held⟩ := starts call _ kept
          refine ⟨inv', fun thread program running => held thread ?_⟩
          rcases started_running running with ⟨_, running⟩ | ⟨rfl, _⟩
          · exact threads thread program running
          · have last := Nat.le_refl pool.threads.length
            exact enters pool _ before (orderly.fresh _ last) (orderly.length ▸ last)
      | advance mover choice cmd next answer reached running executed =>
          have known := (List.getElem?_eq_some_iff.mp running).1
          have called := List.getElem?_eq_getElem (orderly.length ▸ known)
          have along := orderly.threads mover _ _ running called
          obtain ⟨inv', mine⟩ := own _ mover _ cmd choice answer reached before kept
            (threads mover _ running) called along.1 executed
          refine ⟨inv', ?_⟩
          intro thread program running'
          rcases moved_running running' with ⟨different, running'⟩ | ⟨rfl, _⟩
          · exact other _ thread mover cmd choice answer reached before kept different
              (threads thread program running') executed
          · exact mine
      | crash mover crashed running =>
          obtain ⟨inv', held⟩ := crashes mover _ kept
          refine ⟨inv', ?_⟩
          intro thread program running'
          rcases moved_running running' with ⟨different, running'⟩ | ⟨_, stopped⟩
          · exact held thread different (threads thread program running')
          · cases stopped
      | ambient event reached happened =>
          obtain ⟨inv', held⟩ := ambients event _ _ kept happened
          exact ⟨inv', fun thread program running => held thread (threads thread program running)⟩

end Pools
end Interleaving
