import Mathlib

/-!
Resumable programs over atomic commands, pools of such programs that share one
state, and a rely/guarantee rule for pools. A program stops at every command:
the pool decides who goes next, so a property of every reachable pool is a
property of every interleaving. Nothing here knows what the commands do.
-/

namespace Interleaving

section Programs
variable {Cmd : Type} {Res : Cmd → Type} {Err α β γ : Type}

inductive Prog (Cmd : Type) (Res : Cmd → Type) (Err α : Type) where
  | done (value : α)
  | raise (error : Err)
  | exec (cmd : Cmd) (next : Except Err (Res cmd) → Prog Cmd Res Err α)

namespace Prog

def bind : Prog Cmd Res Err α → (α → Prog Cmd Res Err β) → Prog Cmd Res Err β
  | .done value, rest => rest value
  | .raise error, _ => .raise error
  | .exec cmd next, rest => .exec cmd (fun answer => (next answer).bind rest)

def rescue : Prog Cmd Res Err α → (Err → Prog Cmd Res Err α) → Prog Cmd Res Err α
  | .done value, _ => .done value
  | .raise error, handler => handler error
  | .exec cmd next, handler => .exec cmd (fun answer => (next answer).rescue handler)

instance : Monad (Prog Cmd Res Err) where
  pure := .done
  bind := bind

/-- One command whose failure is an exception of the caller. -/
def perform (cmd : Cmd) : Prog Cmd Res Err (Res cmd) :=
  .exec cmd fun
    | .ok value => .done value
    | .error error => .raise error

def throwIf (condition : Bool) (error : Err) : Prog Cmd Res Err Unit :=
  if condition then .raise error else .done ()

def orThrow (value : Option α) (error : Err) : Prog Cmd Res Err α :=
  match value with
  | some value => .done value
  | none => .raise error

def each : List β → (β → Prog Cmd Res Err Unit) → Prog Cmd Res Err Unit
  | [], _ => .done ()
  | item :: rest, act => (act item).bind fun _ => each rest act

def collect : List β → (β → Prog Cmd Res Err (Option γ)) → Prog Cmd Res Err (List γ)
  | [], _ => .done []
  | item :: rest, act =>
      (act item).bind fun found => (collect rest act).bind fun others =>
        .done (found.toList ++ others)

theorem bind_assoc (program : Prog Cmd Res Err α) (first : α → Prog Cmd Res Err β)
    (second : β → Prog Cmd Res Err γ) :
    (program.bind first).bind second = program.bind fun value => (first value).bind second := by
  induction program with
  | done value => rfl
  | raise error => rfl
  | exec cmd next ih => simp only [bind, ih]

@[simp] theorem bind_eq (program : Prog Cmd Res Err α) (rest : α → Prog Cmd Res Err β) :
    program >>= rest = program.bind rest := rfl

@[simp] theorem pure_eq (value : α) : (pure value : Prog Cmd Res Err α) = .done value := rfl

@[simp] theorem done_bind (value : α) (rest : α → Prog Cmd Res Err β) :
    (Prog.done value : Prog Cmd Res Err α).bind rest = rest value := rfl

@[simp] theorem bind_done (program : Prog Cmd Res Err α) : program.bind .done = program := by
  induction program with
  | done value => rfl
  | raise error => rfl
  | exec cmd next ih => simp only [bind, ih]

@[simp] theorem raise_bind (error : Err) (rest : α → Prog Cmd Res Err β) :
    (Prog.raise error : Prog Cmd Res Err α).bind rest = .raise error := rfl

/-- Every command of the program is allowed, whatever the answers are. -/
def Uses (allowed : Cmd → Prop) : Prog Cmd Res Err α → Prop
  | .done _ => True
  | .raise _ => True
  | .exec cmd next => allowed cmd ∧ ∀ answer, (next answer).Uses allowed

theorem uses_bind {allowed : Cmd → Prop} {program : Prog Cmd Res Err α}
    {rest : α → Prog Cmd Res Err β} (first : program.Uses allowed)
    (second : ∀ value, (rest value).Uses allowed) : (program.bind rest).Uses allowed := by
  induction program with
  | done value => exact second value
  | raise error => trivial
  | exec cmd next ih => exact ⟨first.1, fun answer => ih answer (first.2 answer)⟩

theorem uses_rescue {allowed : Cmd → Prop} {program : Prog Cmd Res Err α}
    {handler : Err → Prog Cmd Res Err α} (first : program.Uses allowed)
    (second : ∀ error, (handler error).Uses allowed) : (program.rescue handler).Uses allowed := by
  induction program with
  | done value => trivial
  | raise error => exact second error
  | exec cmd next ih => exact ⟨first.1, fun answer => ih answer (first.2 answer)⟩

theorem uses_perform {allowed : Cmd → Prop} {cmd : Cmd} (permitted : allowed cmd) :
    (perform cmd : Prog Cmd Res Err (Res cmd)).Uses allowed :=
  ⟨permitted, fun answer => by cases answer <;> trivial⟩

theorem uses_collect {allowed : Cmd → Prop} {items : List β} {act : β → Prog Cmd Res Err (Option γ)}
    (single : ∀ item ∈ items, (act item).Uses allowed) : (collect items act).Uses allowed := by
  induction items with
  | nil => trivial
  | cons item rest ih =>
      apply uses_bind (single item (by simp))
      intro found
      apply uses_bind (ih fun other member => single other (by simp [member]))
      exact fun _ => trivial

theorem uses_each {allowed : Cmd → Prop} {items : List β} {act : β → Prog Cmd Res Err Unit}
    (single : ∀ item ∈ items, (act item).Uses allowed) : (each items act).Uses allowed := by
  induction items with
  | nil => trivial
  | cons item rest ih =>
      apply uses_bind (single item (by simp))
      exact fun _ => ih (fun other member => single other (by simp [member]))

end Prog
end Programs

/-- What the commands do to the shared state. `exec` answers `none` while the
command has to wait; `choice` resolves everything the program does not decide. -/
structure Machine (Cmd : Type) (Res : Cmd → Type) (Err Choice Call Event α S : Type) where
  exec : Nat → (cmd : Cmd) → Choice → S → Option (Except Err (Res cmd) × S)
  body : Call → Prog Cmd Res Err α
  calls : S → List Call
  start : Call → S → S
  crash : Nat → S → S
  ambient : Event → S → Option S
  exec_calls : ∀ thread cmd choice state answer after,
    exec thread cmd choice state = some (answer, after) → calls after = calls state
  start_calls : ∀ call state, calls (start call state) = calls state ++ [call]
  crash_calls : ∀ thread state, calls (crash thread state) = calls state
  ambient_calls : ∀ event state after, ambient event state = some after → calls after = calls state

section Pools
variable {Cmd : Type} {Res : Cmd → Type} {Err Choice Call Event α S : Type}

/-- A crashed thread is `none`; a finished one is `done` or `raise`. -/
structure Pool (Cmd : Type) (Res : Cmd → Type) (Err α S : Type) where
  state : S
  threads : List (Option (Prog Cmd Res Err α))

inductive Move (Choice Call Event : Type) where
  | start (call : Call)
  | advance (thread : Nat) (choice : Choice)
  | crash (thread : Nat)
  | ambient (event : Event)

variable (M : Machine Cmd Res Err Choice Call Event α S)

def step (pool : Pool Cmd Res Err α S) :
    Move Choice Call Event → Option (Pool Cmd Res Err α S)
  | .start call => some ⟨M.start call pool.state, pool.threads ++ [some (M.body call)]⟩
  | .advance thread choice =>
      match pool.threads[thread]? with
      | some (some (.exec cmd next)) =>
          (M.exec thread cmd choice pool.state).map fun (answer, after) =>
            ⟨after, pool.threads.set thread (some (next answer))⟩
      | _ => none
  | .crash thread =>
      match pool.threads[thread]? with
      | some (some _) => some ⟨M.crash thread pool.state, pool.threads.set thread none⟩
      | _ => none
  | .ambient event => (M.ambient event pool.state).map fun after => ⟨after, pool.threads⟩

inductive Moved (pool : Pool Cmd Res Err α S) :
    Move Choice Call Event → Pool Cmd Res Err α S → Prop where
  | start (call : Call) :
      Moved pool (.start call) ⟨M.start call pool.state, pool.threads ++ [some (M.body call)]⟩
  | advance (thread : Nat) (choice : Choice) (cmd : Cmd)
      (next : Except Err (Res cmd) → Prog Cmd Res Err α) (answer : Except Err (Res cmd)) (after : S)
      (running : pool.threads[thread]? = some (some (.exec cmd next)))
      (executed : M.exec thread cmd choice pool.state = some (answer, after)) :
      Moved pool (.advance thread choice) ⟨after, pool.threads.set thread (some (next answer))⟩
  | crash (thread : Nat) (program : Prog Cmd Res Err α)
      (running : pool.threads[thread]? = some (some program)) :
      Moved pool (.crash thread) ⟨M.crash thread pool.state, pool.threads.set thread none⟩
  | ambient (event : Event) (after : S) (happened : M.ambient event pool.state = some after) :
      Moved pool (.ambient event) ⟨after, pool.threads⟩

variable {M} in
theorem step_cases {pool after : Pool Cmd Res Err α S} {move : Move Choice Call Event}
    (moved : step M pool move = some after) : Moved M pool move after := by
  cases move with
  | start call =>
      cases moved
      exact .start call
  | advance thread choice =>
      simp only [step] at moved
      split at moved
      · rename_i cmd next running
        simp only [Option.map_eq_some_iff, Prod.exists] at moved
        obtain ⟨answer, reached, executed, rfl⟩ := moved
        exact .advance thread choice cmd next answer reached running executed
      · cases moved
  | crash thread =>
      simp only [step] at moved
      split at moved
      · rename_i program running
        cases moved
        exact .crash thread program running
      · cases moved
  | ambient event =>
      simp only [step, Option.map_eq_some_iff] at moved
      obtain ⟨reached, happened, rfl⟩ := moved
      exact .ambient event reached happened

theorem started_running {threads : List (Option (Prog Cmd Res Err α))} {thread : Nat}
    {added : Option (Prog Cmd Res Err α)} {program : Prog Cmd Res Err α}
    (present : (threads ++ [added])[thread]? = some (some program)) :
    thread < threads.length ∧ threads[thread]? = some (some program) ∨
      thread = threads.length ∧ added = some program := by
  rcases Nat.lt_or_ge thread threads.length with old | beyond
  · exact Or.inl ⟨old, by rwa [List.getElem?_append_left old] at present⟩
  · have last : thread = threads.length := by
      have bound := (List.getElem?_eq_some_iff.mp present).1
      rw [List.length_append, List.length_singleton] at bound
      exact Nat.le_antisymm (Nat.le_of_lt_succ bound) beyond
    subst last
    rw [List.getElem?_concat_length] at present
    exact Or.inr ⟨rfl, Option.some.inj present⟩

theorem moved_running {threads : List (Option (Prog Cmd Res Err α))} {thread mover : Nat}
    {replaced : Option (Prog Cmd Res Err α)} {program : Prog Cmd Res Err α}
    (present : (threads.set mover replaced)[thread]? = some (some program)) :
    thread ≠ mover ∧ threads[thread]? = some (some program) ∨
      thread = mover ∧ replaced = some program := by
  by_cases same : mover = thread
  · subst same
    have known := (List.getElem?_eq_some_iff.mp present).1
    rw [List.length_set] at known
    rw [List.getElem?_set_self known] at present
    exact Or.inr ⟨rfl, Option.some.inj present⟩
  · rw [List.getElem?_set_ne same] at present
    exact Or.inl ⟨Ne.symm same, present⟩

inductive Reachable (initial : S) : Pool Cmd Res Err α S → Prop where
  | init : Reachable initial ⟨initial, []⟩
  | next {pool after} (move : Move Choice Call Event) : Reachable initial pool →
      step M pool move = some after → Reachable initial after

def run (pool : Pool Cmd Res Err α S) :
    List (Move Choice Call Event) → Option (Pool Cmd Res Err α S)
  | [] => some pool
  | move :: rest => (step M pool move).bind fun after => run after rest

theorem run_reachable (initial : S) (moves : List (Move Choice Call Event))
    (pool after : Pool Cmd Res Err α S) (before : Reachable M initial pool)
    (result : run M pool moves = some after) : Reachable M initial after := by
  induction moves generalizing pool with
  | nil =>
      cases result
      exact before
  | cons move rest ih =>
      simp only [run, Option.bind_eq_some_iff] at result
      obtain ⟨middle, first, second⟩ := result
      exact ih middle (before.next move first) second

/-- The calls that a list of moves starts, by thread. -/
def started : List (Move Choice Call Event) → List Call
  | [] => []
  | .start call :: rest => call :: started rest
  | _ :: rest => started rest

theorem step_calls (pool after : Pool Cmd Res Err α S) (move : Move Choice Call Event)
    (moved : step M pool move = some after) :
    M.calls after.state = M.calls pool.state ++ started [move] := by
  cases step_cases moved with
  | start call => exact M.start_calls call pool.state
  | advance thread choice cmd next answer reached running executed =>
      simpa [started] using M.exec_calls _ _ _ _ _ _ executed
  | crash thread program running => simpa [started] using M.crash_calls thread pool.state
  | ambient event reached happened => simpa [started] using M.ambient_calls _ _ _ happened

theorem started_cons (move : Move Choice Call Event) (rest : List (Move Choice Call Event)) :
    started (move :: rest) = started [move] ++ started rest := by
  cases move <;> rfl

theorem run_calls (pool after : Pool Cmd Res Err α S) (moves : List (Move Choice Call Event))
    (result : run M pool moves = some after) :
    M.calls after.state = M.calls pool.state ++ started moves := by
  induction moves generalizing pool with
  | nil =>
      cases result
      simp [started]
  | cons move rest ih =>
      simp only [run, Option.bind_eq_some_iff] at result
      obtain ⟨middle, first, second⟩ := result
      rw [ih middle second, step_calls M pool middle move first, List.append_assoc,
        ← started_cons]

theorem run_related (related : S → S → Prop) (refl : ∀ state, related state state)
    (trans : ∀ first second third, related first second → related second third →
      related first third)
    (starts : ∀ call state, related state (M.start call state))
    (execs : ∀ thread cmd choice state answer after,
      M.exec thread cmd choice state = some (answer, after) → related state after)
    (crashes : ∀ thread state, related state (M.crash thread state))
    (ambients : ∀ event state after, M.ambient event state = some after → related state after)
    (moves : List (Move Choice Call Event)) (pool after : Pool Cmd Res Err α S)
    (ran : run M pool moves = some after) : related pool.state after.state := by
  induction moves generalizing pool with
  | nil =>
      cases ran
      exact refl _
  | cons move rest ih =>
      simp only [run, Option.bind_eq_some_iff] at ran
      obtain ⟨middle, moved, onward⟩ := ran
      refine trans _ _ _ ?_ (ih middle onward)
      cases step_cases moved with
      | start call => exact starts call _
      | advance thread choice cmd next answer reached running executed =>
          exact execs _ _ _ _ _ _ executed
      | crash thread program running => exact crashes thread _
      | ambient event reached happened => exact ambients _ _ _ happened

/-- A property of the state that the four kinds of step keep holds throughout;
each step may use that the pool it starts from is reachable. -/
theorem reachable_state {initial : S} (holds : S → Prop) (entry : holds initial)
    (starts : ∀ call state, holds state → holds (M.start call state))
    (execs : ∀ pool thread cmd choice answer after, Reachable M initial pool →
      holds pool.state → M.exec thread cmd choice pool.state = some (answer, after) → holds after)
    (crashes : ∀ thread state, holds state → holds (M.crash thread state))
    (ambients : ∀ event before after, holds before → M.ambient event before = some after →
      holds after) {pool : Pool Cmd Res Err α S} (reachable : Reachable M initial pool) :
    holds pool.state := by
  induction reachable with
  | init => exact entry
  | next move before moved ih =>
      cases step_cases moved with
      | start call => exact starts call _ ih
      | advance thread choice cmd next answer reached running executed =>
          exact execs _ _ _ _ _ _ before ih executed
      | crash thread program running => exact crashes thread _ ih
      | ambient event reached happened => exact ambients _ _ _ ih happened

end Pools

/-! Rely/guarantee. `inv` is kept by every step; `rely thread` is what a thread
may count on across the steps of everybody else. -/
section RelyGuarantee
variable {Cmd : Type} {Res : Cmd → Type} {Err Choice Call Event α β S : Type}
variable (M : Machine Cmd Res Err Choice Call Event α S)
variable (inv : S → Prop) (rely : Nat → S → S → Prop)

/-- From `state` the program keeps `inv` with each command it executes and ends
in an outcome that satisfies `post`, whatever the others do in between. -/
def Safe (thread : Nat) (post : Except Err β → S → Prop) :
    Prog Cmd Res Err β → S → Prop
  | .done value, state => post (.ok value) state
  | .raise error, state => post (.error error) state
  | .exec cmd next, state => ∀ before, rely thread state before → inv before →
      ∀ choice answer after, M.exec thread cmd choice before = some (answer, after) →
        inv after ∧ Safe thread post (next answer) after

variable {M inv rely} {thread : Nat}

def Branch (ok : β → S → Prop) (failed : Err → S → Prop) : Except Err β → S → Prop
  | .ok value, state => ok value state
  | .error error, state => failed error state

theorem safe_mono {post weaker : Except Err β → S → Prop}
    (implies : ∀ outcome state, post outcome state → weaker outcome state)
    (program : Prog Cmd Res Err β) (state : S)
    (safe : Safe M inv rely thread post program state) :
    Safe M inv rely thread weaker program state := by
  induction program generalizing state with
  | done value => exact implies _ _ safe
  | raise error => exact implies _ _ safe
  | exec cmd next ih =>
      intro before relied held choice answer after executed
      obtain ⟨kept, rest⟩ := safe before relied held choice answer after executed
      exact ⟨kept, ih answer after rest⟩

theorem safe_bind {γ : Type} {post : Except Err γ → S → Prop}
    (program : Prog Cmd Res Err β) (rest : β → Prog Cmd Res Err γ) (state : S)
    (safe : Safe M inv rely thread
      (Branch (fun value => Safe M inv rely thread post (rest value)) fun error =>
        post (.error error))
      program state) :
    Safe M inv rely thread post (program.bind rest) state := by
  induction program generalizing state with
  | done value => exact safe
  | raise error => exact safe
  | exec cmd next ih =>
      intro before relied held choice answer after executed
      obtain ⟨kept, tail⟩ := safe before relied held choice answer after executed
      exact ⟨kept, ih answer after tail⟩

theorem safe_rescue {post : Except Err β → S → Prop}
    (program : Prog Cmd Res Err β) (handler : Err → Prog Cmd Res Err β) (state : S)
    (safe : Safe M inv rely thread
      (Branch (fun value => post (.ok value)) fun error => Safe M inv rely thread post
        (handler error))
      program state) :
    Safe M inv rely thread post (program.rescue handler) state := by
  induction program generalizing state with
  | done value => exact safe
  | raise error => exact safe
  | exec cmd next ih =>
      intro before relied held choice answer after executed
      obtain ⟨kept, tail⟩ := safe before relied held choice answer after executed
      exact ⟨kept, ih answer after tail⟩

theorem safe_perform {post : Except Err β → S → Prop} (cmd : Cmd)
    (rest : Res cmd → Prog Cmd Res Err β) (state : S)
    (executes : ∀ before, rely thread state before → inv before →
      ∀ choice answer after, M.exec thread cmd choice before = some (answer, after) →
        inv after ∧ Branch (fun value => Safe M inv rely thread post (rest value))
          (fun error => post (.error error)) answer after) :
    Safe M inv rely thread post ((Prog.perform cmd).bind rest) state := by
  intro before relied held choice answer after executed
  obtain ⟨kept, tail⟩ := executes before relied held choice answer after executed
  refine ⟨kept, ?_⟩
  cases answer with
  | ok value => exact tail
  | error error => exact tail

theorem safe_throwIf {post : Except Err β → S → Prop} (condition : Bool) (error : Err)
    (rest : Unit → Prog Cmd Res Err β) (state : S)
    (thrown : condition = true → post (.error error) state)
    (passed : condition = false → Safe M inv rely thread post (rest ()) state) :
    Safe M inv rely thread post ((Prog.throwIf condition error).bind rest) state := by
  cases condition with
  | true => exact thrown rfl
  | false => exact passed rfl

theorem safe_orThrow {γ : Type} {post : Except Err β → S → Prop} (value : Option γ)
    (error : Err) (rest : γ → Prog Cmd Res Err β) (state : S)
    (thrown : value = none → post (.error error) state)
    (found : ∀ inner, value = some inner → Safe M inv rely thread post (rest inner) state) :
    Safe M inv rely thread post ((Prog.orThrow value error).bind rest) state := by
  cases value with
  | none => exact thrown rfl
  | some inner => exact found inner rfl

theorem safe_each {γ : Type} {post : Except Err Unit → S → Prop}
    (loop : List γ → S → Prop) (act : γ → Prog Cmd Res Err Unit)
    (body : ∀ item rest state, loop (item :: rest) state →
      Safe M inv rely thread (Branch (fun _ => loop rest) fun error => post (.error error))
        (act item) state)
    (exit : ∀ state, loop [] state → post (.ok ()) state)
    (items : List γ) (state : S) (entry : loop items state) :
    Safe M inv rely thread post (Prog.each items act) state := by
  induction items generalizing state with
  | nil => exact exit state entry
  | cons item rest ih =>
      apply safe_bind
      refine safe_mono ?_ _ _ (body item rest state entry)
      intro outcome after reached
      cases outcome with
      | ok value => exact ih after reached
      | error error => exact reached

end RelyGuarantee

/-! The pool rule: threads that are safe one by one keep `inv` together. -/
section PoolRule
variable {Cmd : Type} {Res : Cmd → Type} {Err Choice Call Event α S : Type}

structure Compatible (M : Machine Cmd Res Err Choice Call Event α S) (inv : S → Prop)
    (rely : Nat → S → S → Prop) (post : Nat → Call → Except Err α → S → Prop) : Prop where
  refl : ∀ thread state, rely thread state state
  trans : ∀ thread first second third,
    rely thread first second → rely thread second third → rely thread first third
  stable : ∀ thread call outcome before after, rely thread before after → inv after →
    post thread call outcome before → post thread call outcome after
  exec_rely : ∀ thread other cmd choice before answer after, thread ≠ other → inv before →
    M.exec other cmd choice before = some (answer, after) → rely thread before after
  start_inv : ∀ call state, inv state → inv (M.start call state)
  start_rely : ∀ thread call state, inv state → thread < (M.calls state).length →
    rely thread state (M.start call state)
  crash_inv : ∀ thread state, inv state → inv (M.crash thread state)
  crash_rely : ∀ thread other state, thread ≠ other → inv state →
    rely thread state (M.crash other state)
  ambient_inv : ∀ event before after, inv before →
    M.ambient event before = some after → inv after
  ambient_rely : ∀ thread event before after, inv before →
    M.ambient event before = some after → rely thread before after
  body_safe : ∀ call state, inv state →
    Safe M inv rely (M.calls state).length (post (M.calls state).length call)
      (M.body call) (M.start call state)

variable {M : Machine Cmd Res Err Choice Call Event α S} {inv : S → Prop}
  {rely : Nat → S → S → Prop} {post : Nat → Call → Except Err α → S → Prop}

theorem safe_relied (compatible : Compatible M inv rely post) (thread : Nat) (call : Call)
    (program : Prog Cmd Res Err α) (before after : S) (relied : rely thread before after)
    (held : inv after) (safe : Safe M inv rely thread (post thread call) program before) :
    Safe M inv rely thread (post thread call) program after := by
  cases program with
  | done value => exact compatible.stable thread call _ before after relied held safe
  | raise error => exact compatible.stable thread call _ before after relied held safe
  | exec cmd next =>
      intro later further
      exact safe later (compatible.trans thread before after later relied further)

/-- The pool invariant: each live thread is safe for the call it was started with. -/
structure PoolSafe (M : Machine Cmd Res Err Choice Call Event α S) (inv : S → Prop)
    (rely : Nat → S → S → Prop) (post : Nat → Call → Except Err α → S → Prop)
    (pool : Pool Cmd Res Err α S) : Prop where
  holds : inv pool.state
  length : pool.threads.length = (M.calls pool.state).length
  threads : ∀ thread program call, pool.threads[thread]? = some (some program) →
    (M.calls pool.state)[thread]? = some call →
      Safe M inv rely thread (post thread call) program pool.state

theorem step_safe (compatible : Compatible M inv rely post)
    (pool after : Pool Cmd Res Err α S) (move : Move Choice Call Event)
    (safe : PoolSafe M inv rely post pool) (moved : step M pool move = some after) :
    PoolSafe M inv rely post after := by
  obtain ⟨holds, length, threads⟩ := safe
  cases step_cases moved with
  | start call =>
      have held := compatible.start_inv call pool.state holds
      refine ⟨held, by simp [M.start_calls, length], ?_⟩
      intro thread program known present called
      simp only [M.start_calls] at called
      rcases started_running present with ⟨old, present⟩ | ⟨rfl, started⟩
      · rw [List.getElem?_append_left (length ▸ old)] at called
        exact safe_relied compatible thread known program _ _
          (compatible.start_rely thread call pool.state holds (length ▸ old)) held
          (threads thread program known present called)
      · cases started
        rw [length, List.getElem?_concat_length] at called
        cases called
        exact length ▸ compatible.body_safe call pool.state holds
  | advance mover choice cmd next answer reached running executed =>
      have known : mover < (M.calls pool.state).length := by
        rw [← length]
        exact (List.getElem?_eq_some_iff.mp running).1
      have sameCalls := M.exec_calls mover cmd choice _ answer reached executed
      obtain ⟨held, tail⟩ := threads mover _ _ running
        (List.getElem?_eq_getElem known) _ (compatible.refl _ _) holds
        choice answer reached executed
      refine ⟨held, by simp [sameCalls, length], ?_⟩
      intro thread program call present called
      simp only [sameCalls] at called
      rcases moved_running present with ⟨different, present⟩ | ⟨rfl, stepped⟩
      · exact safe_relied compatible thread call program _ _
          (compatible.exec_rely thread mover cmd choice _ answer _ different holds executed)
          held (threads thread program call present called)
      · cases stepped
        rw [List.getElem?_eq_getElem known] at called
        cases called
        exact tail
  | crash mover crashed running =>
      have held := compatible.crash_inv mover pool.state holds
      refine ⟨held, by simp [M.crash_calls, length], ?_⟩
      intro thread program call present called
      simp only [M.crash_calls] at called
      rcases moved_running present with ⟨different, present⟩ | ⟨_, stopped⟩
      · exact safe_relied compatible thread call program _ _
          (compatible.crash_rely thread mover _ different holds) held
          (threads thread program call present called)
      · cases stopped
  | ambient event reached happened =>
      have held := compatible.ambient_inv event _ _ holds happened
      have sameCalls := M.ambient_calls event _ _ happened
      refine ⟨held, by simp [sameCalls, length], ?_⟩
      intro thread program call present called
      simp only [sameCalls] at called
      exact safe_relied compatible thread call program _ _
        (compatible.ambient_rely thread event _ _ holds happened) held
        (threads thread program call present called)

theorem reachable_safe (compatible : Compatible M inv rely post) (initial : S)
    (fresh : M.calls initial = []) (holds : inv initial) (pool : Pool Cmd Res Err α S)
    (reachable : Reachable M initial pool) : PoolSafe M inv rely post pool := by
  induction reachable with
  | init => exact ⟨holds, by simp [fresh], by simp⟩
  | next move _ moved ih => exact step_safe compatible _ _ move ih moved

end PoolRule

/-! Total correctness of a program that nobody interrupts. -/
section Alone
variable {Cmd : Type} {Res : Cmd → Type} {Err Choice Call Event α β γ S : Type}
variable (M : Machine Cmd Res Err Choice Call Event α S) (works : Choice → Prop)

/-- Run by itself, with choices that work, the program is granted every command
and ends in an outcome that satisfies `post`. -/
def Surely (thread : Nat) (post : Except Err β → S → Prop) : Prog Cmd Res Err β → S → Prop
  | .done value, state => post (.ok value) state
  | .raise error, state => post (.error error) state
  | .exec cmd next, state => ∀ choice, works choice → ∃ answer after,
      M.exec thread cmd choice state = some (answer, after) ∧ Surely thread post (next answer) after

variable {M works} {thread : Nat}

def Returns (post : β → S → Prop) : Except Err β → S → Prop := Branch post fun _ _ => False

theorem surely_mono {post weaker : Except Err β → S → Prop}
    (implies : ∀ outcome state, post outcome state → weaker outcome state)
    (program : Prog Cmd Res Err β) (state : S) (sure : Surely M works thread post program state) :
    Surely M works thread weaker program state := by
  induction program generalizing state with
  | done value => exact implies _ _ sure
  | raise error => exact implies _ _ sure
  | exec cmd next ih =>
      intro choice working
      obtain ⟨answer, after, executed, rest⟩ := sure choice working
      exact ⟨answer, after, executed, ih answer after rest⟩

theorem surely_then {post : Except Err γ → S → Prop} (program : Prog Cmd Res Err β)
    (rest : β → Prog Cmd Res Err γ) (state : S)
    (sure : Surely M works thread (Branch (fun value => Surely M works thread post (rest value))
      fun error => post (.error error)) program state) :
    Surely M works thread post (program.bind rest) state := by
  induction program generalizing state with
  | done value => exact sure
  | raise error => exact sure
  | exec cmd next ih =>
      intro choice working
      obtain ⟨answer, after, executed, tail⟩ := sure choice working
      exact ⟨answer, after, executed, ih answer after tail⟩

theorem surely_bind {post : Except Err γ → S → Prop} {middle : β → S → Prop}
    (program : Prog Cmd Res Err β) (rest : β → Prog Cmd Res Err γ) (state : S)
    (first : Surely M works thread (Returns middle) program state)
    (second : ∀ value after, middle value after → Surely M works thread post (rest value) after) :
    Surely M works thread post (program.bind rest) state := by
  refine surely_then _ _ _ (surely_mono ?_ _ _ first)
  intro outcome after reached
  cases outcome with
  | ok value => exact second value after reached
  | error error => exact absurd reached id

theorem surely_kept {allowed : Cmd → Prop} {kept : S → Prop} {post : Except Err β → S → Prop}
    (stays : ∀ cmd choice before answer after, allowed cmd →
      M.exec thread cmd choice before = some (answer, after) → kept before → kept after)
    (program : Prog Cmd Res Err β) (uses : program.Uses allowed) (state : S) (here : kept state)
    (sure : Surely M works thread post program state) :
    Surely M works thread (fun outcome after => post outcome after ∧ kept after) program state := by
  induction program generalizing state with
  | done value => exact ⟨sure, here⟩
  | raise error => exact ⟨sure, here⟩
  | exec cmd next ih =>
      intro choice working
      obtain ⟨answer, after, executed, rest⟩ := sure choice working
      have further := stays cmd choice state answer after uses.1 executed here
      exact ⟨answer, after, executed, ih answer (uses.2 answer) after further rest⟩

theorem surely_rescue {post : Except Err β → S → Prop} (program : Prog Cmd Res Err β)
    (handler : Err → Prog Cmd Res Err β) (state : S)
    (sure : Surely M works thread (Branch (fun value => post (.ok value))
      fun error => Surely M works thread post (handler error)) program state) :
    Surely M works thread post (program.rescue handler) state := by
  induction program generalizing state with
  | done value => exact sure
  | raise error => exact sure
  | exec cmd next ih =>
      intro choice working
      obtain ⟨answer, after, executed, tail⟩ := sure choice working
      exact ⟨answer, after, executed, ih answer after tail⟩

theorem surely_command (cmd : Cmd) {post : Except Err (Res cmd) → S → Prop} (state : S)
    (executes : ∀ choice, works choice → ∃ answer after,
      M.exec thread cmd choice state = some (answer, after) ∧ post answer after) :
    Surely M works thread post (Prog.perform cmd : Prog Cmd Res Err (Res cmd)) state := by
  intro choice working
  obtain ⟨answer, after, executed, reached⟩ := executes choice working
  refine ⟨answer, after, executed, ?_⟩
  cases answer with
  | ok value => exact reached
  | error error => exact reached

theorem surely_perform (cmd : Cmd) {post : Res cmd → S → Prop} (state : S)
    (executes : ∀ choice, works choice → ∃ value after,
      M.exec thread cmd choice state = some (.ok value, after) ∧ post value after) :
    Surely M works thread (Returns post) (Prog.perform cmd : Prog Cmd Res Err (Res cmd)) state := by
  apply surely_command
  intro choice working
  obtain ⟨value, after, executed, reached⟩ := executes choice working
  exact ⟨.ok value, after, executed, reached⟩

theorem surely_each (loop : List γ → S → Prop) (act : γ → Prog Cmd Res Err Unit)
    (body : ∀ item rest state, loop (item :: rest) state →
      Surely M works thread (Returns fun _ => loop rest) (act item) state)
    (items : List γ) (state : S) (entry : loop items state) :
    Surely M works thread (Returns fun _ => loop []) (Prog.each items act) state := by
  induction items generalizing state with
  | nil => exact entry
  | cons item rest ih =>
      refine surely_bind _ _ _ (body item rest state entry) ?_
      intro _ after reached
      exact ih after reached

theorem surely_collect (failed : Err → S → Prop) (loop : List β → List γ → S → Prop)
    (act : β → Prog Cmd Res Err (Option γ))
    (body : ∀ item rest kept state, loop (item :: rest) kept state →
      Surely M works thread (Branch (fun found => loop rest (kept ++ found.toList)) failed)
        (act item) state)
    (items : List β) (kept : List γ) (state : S) (entry : loop items kept state) :
    Surely M works thread (Branch (fun found => loop [] (kept ++ found)) failed)
      (Prog.collect items act) state := by
  induction items generalizing kept state with
  | nil =>
      rw [← List.append_nil kept] at entry
      exact entry
  | cons item rest ih =>
      refine surely_then _ _ _ (surely_mono ?_ _ _ (body item rest kept state entry))
      rintro (error | found) after reached
      · exact reached
      refine surely_then _ _ _ (surely_mono ?_ _ _ (ih (kept ++ found.toList) after reached))
      rintro (error | others) final complete
      · exact complete
      · have complete' : loop [] (kept ++ found.toList ++ others) final := complete
        rw [List.append_assoc] at complete'
        exact complete'

theorem surely_run {post : Except Err α → S → Prop} (program : Prog Cmd Res Err α)
    (pool : Pool Cmd Res Err α S) (present : pool.threads[thread]? = some (some program))
    (sure : Surely M works thread post program pool.state) (choices : Nat → Choice)
    (working : ∀ n, works (choices n)) :
    ∃ steps final, run M pool ((List.range steps).map fun n => .advance thread (choices n)) =
        some final ∧
      ((∃ value, final.threads[thread]? = some (some (.done value)) ∧
        post (.ok value) final.state) ∨
        ∃ error, final.threads[thread]? = some (some (.raise error)) ∧
          post (.error error) final.state) := by
  induction program generalizing pool choices with
  | done value => exact ⟨0, pool, rfl, Or.inl ⟨value, present, sure⟩⟩
  | raise error => exact ⟨0, pool, rfl, Or.inr ⟨error, present, sure⟩⟩
  | exec cmd next ih =>
      obtain ⟨answer, after, executed, rest⟩ := sure (choices 0) (working 0)
      have bound := (List.getElem?_eq_some_iff.mp present).1
      -- the remaining steps draw the remaining choices
      obtain ⟨steps, final, ran, ended⟩ := ih answer
        ⟨after, pool.threads.set thread (some (next answer))⟩
        (by rw [List.getElem?_set_self bound]) rest (fun n => choices (n + 1))
        (fun n => working (n + 1))
      refine ⟨steps + 1, final, ?_, ended⟩
      rw [List.range_succ_eq_map, List.map_cons, List.map_map]
      simp only [run, step, present, executed, Option.map_some, Option.bind_some]
      exact ran

end Alone

end Interleaving
