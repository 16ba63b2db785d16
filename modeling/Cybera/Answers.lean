import Cybera.ProgramOrder

/-!
A program against an environment that answers every command: what it does then
is a function of the answers. Whatever a thread of a pool has done, it has done
against some environment. Nothing here knows what the commands do.
-/

namespace Interleaving

section Programs
variable {Cmd : Type} {Res : Cmd → Type} {Err α β γ : Type}

/-- The answer to a command, given what was done before it. -/
abbrev Answers (Cmd : Type) (Res : Cmd → Type) (Err : Type) :=
  List (Done Cmd Res Err) → (cmd : Cmd) → Except Err (Res cmd)

/-- What the program does after `past`, newest first, and how it ends. -/
def Prog.trace (answers : Answers Cmd Res Err) :
    Prog Cmd Res Err α → List (Done Cmd Res Err) → List (Done Cmd Res Err) × Except Err α
  | .done value, past => (past, .ok value)
  | .raise error, past => (past, .error error)
  | .exec cmd next, past =>
      (next (answers past cmd)).trace answers (⟨cmd, answers past cmd⟩ :: past)

def Prog.ended : Except Err α → Prog Cmd Res Err α
  | .ok value => .done value
  | .error error => .raise error

variable {answers : Answers Cmd Res Err} {past : List (Done Cmd Res Err)}

theorem trace_perform (cmd : Cmd) :
    (Prog.perform cmd : Prog Cmd Res Err (Res cmd)).trace answers past =
      (⟨cmd, answers past cmd⟩ :: past, answers past cmd) := by
  simp only [Prog.perform, Prog.trace]
  cases answers past cmd <;> rfl

theorem trace_bind (program : Prog Cmd Res Err α) (rest : α → Prog Cmd Res Err β) :
    (program.bind rest).trace answers past =
      match program.trace answers past with
      | (later, .ok value) => (rest value).trace answers later
      | (later, .error error) => (later, .error error) := by
  induction program generalizing past with
  | done value => rfl
  | raise error => rfl
  | exec cmd next ih => exact ih _

theorem trace_rescue (program : Prog Cmd Res Err α) (handler : Err → Prog Cmd Res Err α) :
    (program.rescue handler).trace answers past =
      match program.trace answers past with
      | (later, .ok value) => (later, .ok value)
      | (later, .error error) => (handler error).trace answers later := by
  induction program generalizing past with
  | done value => rfl
  | raise error => rfl
  | exec cmd next ih => exact ih _

theorem trace_bind_ok {program : Prog Cmd Res Err α} {rest : α → Prog Cmd Res Err β}
    {later : List (Done Cmd Res Err)} {value : α}
    (first : program.trace answers past = (later, .ok value)) :
    (program.bind rest).trace answers past = (rest value).trace answers later := by
  rw [trace_bind, first]

theorem trace_bind_error {program : Prog Cmd Res Err α} {rest : α → Prog Cmd Res Err β}
    {later : List (Done Cmd Res Err)} {error : Err}
    (first : program.trace answers past = (later, .error error)) :
    (program.bind rest).trace answers past = (later, .error error) := by
  rw [trace_bind, first]

theorem trace_uses {allowed : Cmd → Prop} (program : Prog Cmd Res Err α)
    (uses : program.Uses allowed) :
    ∀ done ∈ (program.trace answers past).1, done ∈ past ∨ allowed done.1 := by
  induction program generalizing past with
  | done value => exact fun done member => Or.inl member
  | raise error => exact fun done member => Or.inl member
  | exec cmd next ih =>
      intro done member
      rcases ih _ (uses.2 _) done member with earlier | permitted
      · rcases List.mem_cons.mp earlier with rfl | earlier
        · exact Or.inr uses.1
        · exact Or.inl earlier
      · exact Or.inr permitted

theorem trace_congr {other : Answers Cmd Res Err} (program : Prog Cmd Res Err α)
    (same : ∀ later cmd, answers (later ++ past) cmd = other (later ++ past) cmd) :
    program.trace answers past = program.trace other past := by
  induction program generalizing past with
  | done value => rfl
  | raise error => rfl
  | exec cmd next ih =>
      simp only [Prog.trace]
      have here : answers past cmd = other past cmd := same [] cmd
      rw [← here]
      refine ih _ fun later cmd' => ?_
      have onward := same (later ++ [⟨cmd, answers past cmd⟩]) cmd'
      rwa [List.append_assoc, List.singleton_append] at onward

open Classical in
/-- The environment that gives this answer here and is `answers` elsewhere. -/
noncomputable def Answers.put (answers : Answers Cmd Res Err) (past : List (Done Cmd Res Err))
    (cmd : Cmd) (answer : Except Err (Res cmd)) : Answers Cmd Res Err := fun past' cmd' =>
  if same : past' = past ∧ cmd' = cmd then same.2 ▸ answer else answers past' cmd'

theorem along_traced [Nonempty Err] (program : Prog Cmd Res Err α)
    (past : List (Done Cmd Res Err)) :
    Along (fun _ _ => True) (fun outcome final => ∃ answers : Answers Cmd Res Err,
      program.trace answers past = (final, outcome)) program past := by
  induction program generalizing past with
  | done value => exact ⟨fun _ _ => .error (Classical.arbitrary Err), rfl⟩
  | raise error => exact ⟨fun _ _ => .error error, rfl⟩
  | exec cmd next ih =>
      refine ⟨trivial, fun answer => along_post ?_ _ (ih answer _)⟩
      rintro outcome final ⟨answers, ended⟩
      refine ⟨answers.put past cmd answer, ?_⟩
      have here : answers.put past cmd answer past cmd = answer := by simp [Answers.put]
      simp only [Prog.trace, here]
      rw [← ended]
      refine trace_congr _ fun later cmd' => dif_neg ?_
      rintro ⟨same, _⟩
      have length := congrArg List.length same
      simp only [List.length_append, List.length_cons] at length
      omega

end Programs

section Pools
variable {Cmd : Type} {Res : Cmd → Type} {Err Choice Call Event α S : Type} [Nonempty Err]
  {M : Machine Cmd Res Err Choice Call Event α S} {past : Nat → S → List (Done Cmd Res Err)}

theorem reachable_traced (records : Records M past) {initial : S} (fresh : M.calls initial = [])
    (nothing : ∀ thread, past thread initial = []) {pool : Pool Cmd Res Err α S}
    (reachable : Reachable M initial pool) {thread : Nat} {call : Call}
    (called : (M.calls pool.state)[thread]? = some call) {outcome : Except Err α}
    (ended : pool.threads[thread]? = some (some (.ended outcome))) :
    ∃ answers : Answers Cmd Res Err,
      (M.body call).trace answers [] = (past thread pool.state, outcome) := by
  have orderly := reachable_orderly records (fun call => along_traced (M.body call) []) fresh
    nothing reachable
  have traced := orderly.threads thread _ call ended called
  cases outcome with
  | ok value => exact traced
  | error error => exact traced

end Pools
end Interleaving
