import Mathlib

/-!
Places that are held on credit. An account takes a free place while it has credit
and room, pays for it while it holds one, and holds no more places than its limit.
-/

namespace Metered

variable {Account Place : Type}

structure State (Account Place : Type) where
  credit : Account → Nat
  limit : Account → Nat
  holder : Place → Option Account

inductive Act (Account Place : Type) where
  | credit (account : Account) (amount limit : Nat)
  | charge (account : Account) (amount : Nat)
  | enter (place : Place) (account : Account)
  | leave (place : Place)

def State.empty : State Account Place := ⟨fun _ => 0, fun _ => 1, fun _ => none⟩

/-- Another place is within the account's limit. -/
def State.Room (state : State Account Place) (account : Account) : Prop :=
  ∀ places : List Place, places.Nodup → (∀ place ∈ places, state.holder place = some account) →
    places.length < state.limit account

/-- Nobody holds more places than the limit allows. -/
def State.Bounded (state : State Account Place) : Prop :=
  ∀ account, ∀ places : List Place, places.Nodup →
    (∀ place ∈ places, state.holder place = some account) → places.length ≤ state.limit account

theorem empty_bounded : (State.empty : State Account Place).Bounded := by
  intro account places _ held
  cases places with
  | nil => exact Nat.zero_le _
  | cons place _ => cases held place (by simp)

section Places
variable [DecidableEq Place]

def State.held (state : State Account Place) (place : Place) (holder : Option Account) :
    State Account Place :=
  { state with holder := Function.update state.holder place holder }

@[simp] theorem held_same (state : State Account Place) (place : Place) (holder : Option Account) :
    (state.held place holder).holder place = holder :=
  Function.update_self _ _ _

theorem held_other (state : State Account Place) {place here : Place} (holder : Option Account)
    (different : here ≠ place) : (state.held place holder).holder here = state.holder here :=
  Function.update_of_ne different _ _

end Places

section Credits
variable [DecidableEq Account]

def State.credited (state : State Account Place) (account : Account) (amount limit : Nat) :
    State Account Place :=
  { state with
    credit := Function.update state.credit account (state.credit account + amount)
    limit := Function.update state.limit account (max (state.limit account) limit) }

def State.charged (state : State Account Place) (account : Account) (amount : Nat) :
    State Account Place :=
  { state with credit := Function.update state.credit account (state.credit account - amount) }

def creditsTo (account : Account) : List (Act Account Place) → Nat
  | [] => 0
  | .credit other amount _ :: rest =>
      (if other = account then amount else 0) + creditsTo account rest
  | _ :: rest => creditsTo account rest

theorem creditsTo_append (account : Account) (acts rest : List (Act Account Place)) :
    creditsTo account (acts ++ rest) = creditsTo account acts + creditsTo account rest := by
  induction acts with
  | nil => simp [creditsTo]
  | cons act acts ih => cases act <;> simp [creditsTo, ih, Nat.add_assoc]

theorem creditsTo_zero (account : Account) (acts : List (Act Account Place))
    (uncredited : ∀ other amount limit, .credit other amount limit ∉ acts) :
    creditsTo account acts = 0 := by
  induction acts with
  | nil => rfl
  | cons act acts ih =>
      have rest := ih fun other amount limit member =>
        uncredited other amount limit (List.mem_cons_of_mem _ member)
      cases act with
      | credit other amount limit =>
          exact absurd (List.mem_cons_self) (uncredited other amount limit)
      | charge | enter | leave => exact rest

end Credits

section Steps
variable [DecidableEq Account] [DecidableEq Place]

inductive Step : State Account Place → Act Account Place → State Account Place → Prop where
  | credit (state : State Account Place) (account : Account) (amount limit : Nat) :
      Step state (.credit account amount limit) (state.credited account amount limit)
  | charge (state : State Account Place) (account : Account) (amount : Nat)
      (present : ∃ place, state.holder place = some account) :
      Step state (.charge account amount) (state.charged account amount)
  | enter (state : State Account Place) (place : Place) (account : Account)
      (free : state.holder place = none) (paid : 0 < state.credit account)
      (room : state.Room account) :
      Step state (.enter place account) (state.held place (some account))
  | leave (state : State Account Place) (place : Place) (account : Account)
      (held : state.holder place = some account) : Step state (.leave place) (state.held place none)

inductive Run : State Account Place → List (Act Account Place) → State Account Place → Prop where
  | nil (state : State Account Place) : Run state [] state
  | cons {state middle final : State Account Place} {act : Act Account Place}
      {acts : List (Act Account Place)} (step : Step state act middle)
      (rest : Run middle acts final) : Run state (act :: acts) final

variable {state middle final : State Account Place} {acts rest : List (Act Account Place)}

theorem run_append (first : Run state acts middle) (second : Run middle rest final) :
    Run state (acts ++ rest) final := by
  induction first with
  | nil => exact second
  | cons step _ ih => exact .cons step (ih second)

theorem run_keeps {inv : State Account Place → Prop}
    (keeps : ∀ state act after, Step state act after → inv state → inv after)
    (ran : Run state acts final) (start : inv state) : inv final := by
  induction ran with
  | nil => exact start
  | cons step _ ih => exact ih (keeps _ _ _ step start)

theorem step_bounded {act : Act Account Place} (step : Step state act final)
    (bounded : state.Bounded) : final.Bounded := by
  cases step with
  | credit account amount limit =>
      intro other places once held
      refine Nat.le_trans (bounded other places once held) ?_
      by_cases same : other = account
      · subst same
        simp [State.credited]
      · simp [State.credited, same]
  | charge => exact bounded
  | enter place account free paid room =>
      intro other places once held
      have elsewhere : ∀ here ∈ places.erase place, state.holder here = some other := by
        intro here member
        rw [once.mem_erase_iff] at member
        have kept := held here member.2
        rwa [held_other _ _ member.1] at kept
      by_cases member : place ∈ places
      · have same := held place member
        rw [held_same, Option.some.injEq] at same
        subst same
        have fewer := room _ (once.erase place) elsewhere
        have length := List.length_erase_add_one member
        exact length ▸ fewer
      · rw [List.erase_of_not_mem member] at elsewhere
        exact bounded other places once elsewhere
  | leave place account present =>
      intro other places once held
      refine bounded other places once fun here member => ?_
      have kept := held here member
      by_cases same : here = place
      · simp [same] at kept
      · rwa [held_other _ _ same] at kept

theorem run_credit (account : Account) (ran : Run state acts final) :
    final.credit account ≤ state.credit account + creditsTo account acts := by
  induction ran with
  | nil => exact Nat.le_refl _
  | cons step _ ih =>
      refine Nat.le_trans ih ?_
      cases step with
      | credit other amount limit =>
          by_cases same : account = other
          · subst same
            simp [State.credited, creditsTo, Nat.add_assoc]
          · simp [State.credited, creditsTo, same, Ne.symm same]
      | charge other amount =>
          by_cases same : account = other
          · subst same
            simp [State.charged, creditsTo]
          · simp [State.charged, creditsTo, same]
      | enter | leave => exact Nat.le_refl _

theorem run_entered {place : Place} {account : Account} (ran : Run state acts final)
    (free : state.holder place ≠ some account) (held : final.holder place = some account) :
    ∃ before after middle, acts = before ++ .enter place account :: after ∧
      Run state before middle ∧ 0 < middle.credit account := by
  induction ran with
  | nil => exact absurd held free
  | @cons state between final act acts step rest ih =>
      by_cases entered : between.holder place = some account
      · cases step with
        | credit | charge => exact absurd entered free
        | enter here other _ paid =>
            by_cases same : place = here
            · subst same
              rw [held_same, Option.some.injEq] at entered
              subst entered
              exact ⟨[], acts, state, rfl, .nil state, paid⟩
            · rw [held_other _ _ same] at entered
              exact absurd entered free
        | leave here other =>
            by_cases same : place = here
            · subst same
              simp at entered
            · rw [held_other _ _ same] at entered
              exact absurd entered free
      · obtain ⟨before, after, middle, rfl, first, paid⟩ := ih entered held
        exact ⟨act :: before, after, middle, rfl, .cons step first, paid⟩

theorem charges_run (dues : List (Account × Nat))
    (present : ∀ due ∈ dues, ∃ place, state.holder place = some due.1) :
    Run state (dues.map fun due => .charge due.1 due.2)
      { state with credit := fun account =>
        state.credit account - ((dues.filter fun due => due.1 = account).map Prod.snd).sum } := by
  induction dues generalizing state with
  | nil => exact .nil state
  | cons due rest ih =>
      have onward := @ih (state.charged due.1 due.2)
        fun other member => present other (List.mem_cons_of_mem _ member)
      refine .cons (.charge state due.1 due.2 (present due (by simp))) ?_
      refine Eq.subst ?_ onward
      rw [State.mk.injEq]
      refine ⟨funext fun account => ?_, rfl, rfl⟩
      by_cases same : due.1 = account
      · subst same
        simp [State.charged, Nat.sub_sub]
      · simp [State.charged, same, Ne.symm same]

theorem leaves_run (places : List Place) {holder : Place → Option Account}
    (left : ∀ place, holder place = state.holder place ∨ place ∈ places ∧ holder place = none) :
    ∃ leaving : List Place, (∀ place ∈ leaving, place ∈ places) ∧
      Run state (leaving.map .leave) { state with holder } := by
  induction places generalizing state with
  | nil =>
      have same : holder = state.holder := funext fun place => (left place).resolve_right (by simp)
      exact ⟨[], by simp, same ▸ .nil state⟩
  | cons place rest ih =>
      by_cases here : holder place = state.holder place
      · have fewer : ∀ other, holder other = state.holder other ∨ other ∈ rest ∧
            holder other = none := by
          intro other
          rcases left other with same | ⟨member, nobody⟩
          · exact Or.inl same
          · rcases List.mem_cons.mp member with rfl | later
            · exact Or.inl here
            · exact Or.inr ⟨later, nobody⟩
        obtain ⟨leaving, among, ran⟩ := ih fewer
        exact ⟨leaving, fun other member => List.mem_cons_of_mem _ (among other member), ran⟩
      · obtain ⟨_, nobody⟩ := (left place).resolve_left here
        obtain ⟨account, held⟩ := Option.ne_none_iff_exists'.mp fun free => here
          (nobody.trans free.symm)
        have fewer : ∀ other, holder other = (state.held place none).holder other ∨
            other ∈ rest ∧ holder other = none := by
          intro other
          by_cases same : other = place
          · subst same
            exact Or.inl (by simp [nobody])
          · rw [held_other _ _ same]
            rcases left other with kept | ⟨member, gone⟩
            · exact Or.inl kept
            · exact Or.inr ⟨(List.mem_cons.mp member).resolve_left same, gone⟩
        obtain ⟨leaving, among, ran⟩ := ih fewer
        refine ⟨place :: leaving, ?_, .cons (.leave state place account held) ran⟩
        intro other member
        rcases List.mem_cons.mp member with rfl | later
        · simp
        · exact List.mem_cons_of_mem _ (among other later)

end Steps
end Metered
