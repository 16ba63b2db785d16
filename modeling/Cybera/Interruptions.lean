import Cybera.Interleaving

/-!
One run of a resumable program that can stop at any command, and a Hoare rule
for each construct with an assertion for the states in which it may stop.
Nothing here knows what the commands do.
-/

namespace Interruptions

open Interleaving

section Runs
variable {Cmd : Type} {Res : Cmd → Type} {Err Choice α β γ S : Type}

inductive Ending (Err α : Type) where
  | returned (value : α)
  | threw (error : Err)
  | stopped
  deriving DecidableEq

variable (exec : (cmd : Cmd) → Choice → S → Except Err (Res cmd) × S)

/-- Each command meets one choice; the run stops at the command that finds none left. -/
def attempt : Prog Cmd Res Err α → List Choice → S → Ending Err α × S
  | .done value, _, state => (.returned value, state)
  | .raise error, _, state => (.threw error, state)
  | .exec _ _, [], state => (.stopped, state)
  | .exec cmd next, choice :: choices, state =>
      attempt (next (exec cmd choice state).1) choices (exec cmd choice state).2

/-- `post` holds however the program ends, and `stop` wherever it may be cut off,
as long as the choices are allowed. -/
def Guarded (allowed : Choice → Prop) (stop : S → Prop) (post : Except Err α → S → Prop) :
    Prog Cmd Res Err α → S → Prop
  | .done value, state => post (.ok value) state
  | .raise error, state => post (.error error) state
  | .exec cmd next, state => stop state ∧ ∀ choice, allowed choice →
      Guarded allowed stop post (next (exec cmd choice state).1) (exec cmd choice state).2

/-- What a guarded program's run ends with. -/
def Ends (stop : S → Prop) (post : Except Err α → S → Prop) : Ending Err α × S → Prop
  | (.returned value, state) => post (.ok value) state
  | (.threw error, state) => post (.error error) state
  | (.stopped, state) => stop state

variable {exec} {allowed : Choice → Prop} {stop : S → Prop}

theorem guarded_ends {post : Except Err α → S → Prop} (program : Prog Cmd Res Err α)
    (choices : List Choice) (state : S) (permitted : ∀ choice ∈ choices, allowed choice)
    (guarded : Guarded exec allowed stop post program state) :
    Ends stop post (attempt exec program choices state) := by
  induction program generalizing choices state with
  | done value => cases choices <;> exact guarded
  | raise error => cases choices <;> exact guarded
  | exec cmd next ih =>
      cases choices with
      | nil => exact guarded.1
      | cons choice rest =>
          have further := guarded.2 choice (permitted choice (by simp))
          exact ih _ rest _ (fun other member => permitted other (by simp [member])) further

theorem attempt_finishes (choice : Choice) (program : Prog Cmd Res Err α) (state : S) :
    ∃ steps, (attempt exec program (List.replicate steps choice) state).1 ≠ .stopped := by
  induction program generalizing state with
  | done value => exact ⟨0, by simp [attempt]⟩
  | raise error => exact ⟨0, by simp [attempt]⟩
  | exec cmd next ih =>
      obtain ⟨steps, finished⟩ := ih (exec cmd choice state).1 (exec cmd choice state).2
      exact ⟨steps + 1, finished⟩

theorem guarded_mono {stop' : S → Prop} {post weaker : Except Err α → S → Prop}
    (stops : ∀ state, stop state → stop' state)
    (implies : ∀ outcome state, post outcome state → weaker outcome state)
    (program : Prog Cmd Res Err α) (state : S)
    (guarded : Guarded exec allowed stop post program state) :
    Guarded exec allowed stop' weaker program state := by
  induction program generalizing state with
  | done value => exact implies _ _ guarded
  | raise error => exact implies _ _ guarded
  | exec cmd next ih =>
      refine ⟨stops _ guarded.1, ?_⟩
      intro choice permitted
      exact ih _ _ (guarded.2 choice permitted)

theorem guarded_bind {post : Except Err β → S → Prop} (program : Prog Cmd Res Err α)
    (rest : α → Prog Cmd Res Err β) (state : S)
    (guarded : Guarded exec allowed stop (Branch
      (fun value => Guarded exec allowed stop post (rest value)) fun error => post (.error error))
      program state) :
    Guarded exec allowed stop post (program.bind rest) state := by
  induction program generalizing state with
  | done value => exact guarded
  | raise error => exact guarded
  | exec cmd next ih =>
      refine ⟨guarded.1, ?_⟩
      intro choice permitted
      exact ih _ _ (guarded.2 choice permitted)

theorem guarded_rescue {post : Except Err α → S → Prop} (program : Prog Cmd Res Err α)
    (handler : Err → Prog Cmd Res Err α) (state : S)
    (guarded : Guarded exec allowed stop (Branch (fun value => post (.ok value))
      fun error => Guarded exec allowed stop post (handler error)) program state) :
    Guarded exec allowed stop post (program.rescue handler) state := by
  induction program generalizing state with
  | done value => exact guarded
  | raise error => exact guarded
  | exec cmd next ih =>
      refine ⟨guarded.1, ?_⟩
      intro choice permitted
      exact ih _ _ (guarded.2 choice permitted)

theorem guarded_perform (cmd : Cmd) {post : Except Err (Res cmd) → S → Prop} (state : S)
    (here : stop state) (executes : ∀ choice, allowed choice →
      post (exec cmd choice state).1 (exec cmd choice state).2) :
    Guarded exec allowed stop post (Prog.perform cmd) state := by
  refine ⟨here, ?_⟩
  intro choice permitted
  have executed := executes choice permitted
  revert executed
  cases (exec cmd choice state).1 with
  | ok value => exact id
  | error error => exact id

theorem guarded_each {failed : Err → S → Prop} (loop : List γ → List γ → S → Prop)
    (act : γ → Prog Cmd Res Err Unit)
    (body : ∀ seen item later state, loop seen (item :: later) state →
      Guarded exec allowed stop (Branch (fun _ => loop (seen ++ [item]) later) failed)
        (act item) state)
    (seen items : List γ) (state : S) (entry : loop seen items state) :
    Guarded exec allowed stop (Branch (fun _ => loop (seen ++ items) []) failed)
      (Prog.each items act) state := by
  induction items generalizing seen state with
  | nil =>
      rw [← List.append_nil seen] at entry
      exact entry
  | cons item later ih =>
      apply guarded_bind
      refine guarded_mono (fun _ => id) ?_ _ _ (body seen item later state entry)
      intro outcome after reached
      cases outcome with
      | ok value =>
          have further := ih (seen ++ [item]) after reached
          rwa [List.append_assoc] at further
      | error error => exact reached

end Runs
end Interruptions
