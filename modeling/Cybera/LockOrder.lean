import Mathlib

/-!
Transactions that lock rows one after another, each in an order of its own, and
keep every lock until they end. Which of them can wait for each other is read
off the lock orders: a deadlock is reachable exactly when the orders can be cut
so that nobody holds what another holds and some transactions wait in a ring.
-/

namespace LockOrder

variable {I Row : Type}

/-- The rows a transaction holds and the rows it will ask for, in order. -/
structure Progress (Row : Type) where
  held : List Row
  ahead : List Row

abbrev State (I Row : Type) := I → Progress Row

def initial (plan : I → List Row) : State I Row := fun i => ⟨[], plan i⟩

/-- A row goes to a transaction when no other holds it; a transaction may end at
any point, and then it holds nothing. -/
inductive Step [DecidableEq I] : State I Row → State I Row → Prop
  | lock (state : State I Row) (i : I) (row : Row) (rest : List Row)
      (wanted : (state i).ahead = row :: rest) (free : ∀ j, j ≠ i → row ∉ (state j).held) :
      Step state (Function.update state i ⟨(state i).held ++ [row], rest⟩)
  | finish (state : State I Row) (i : I) : Step state (Function.update state i ⟨[], []⟩)

def Waits (state : State I Row) (i j : I) : Prop :=
  i ≠ j ∧ ∃ row, (state i).ahead.head? = some row ∧ row ∈ (state j).held

def Deadlocked (state : State I Row) : Prop := ∃ i, Relation.TransGen (Waits state) i i

def Exclusive (state : State I Row) : Prop :=
  ∀ i j, i ≠ j → (state i).held.Disjoint (state j).held

/-- Nobody has ended. -/
structure Cut (plan : I → List Row) (state : State I Row) : Prop where
  split : ∀ i, (state i).held ++ (state i).ahead = plan i
  exclusive : Exclusive state

structure Partway (plan : I → List Row) (state : State I Row) : Prop where
  split : ∀ i, (state i).held ++ (state i).ahead = plan i ∨ state i = ⟨[], []⟩
  exclusive : Exclusive state

/-! Rings. -/

/-- Everyone in it has an edge to a member and an edge from a member. -/
structure Ring (edge : I → I → Prop) (ring : Set I) : Prop where
  inhabited : ring.Nonempty
  onward : ∀ i ∈ ring, ∃ j ∈ ring, edge i j
  backward : ∀ j ∈ ring, ∃ i ∈ ring, edge i j

theorem ring_of_cycle {edge : I → I → Prop} {i : I} (cycle : Relation.TransGen edge i i) :
    ∃ ring, Ring edge ring := by
  refine ⟨{j | Relation.TransGen edge i j ∧ Relation.TransGen edge j i}, ⟨i, cycle, cycle⟩, ?_, ?_⟩
  · rintro j ⟨there, back⟩
    obtain ⟨k, out, rest⟩ := Relation.TransGen.head'_iff.mp back
    refine ⟨k, ⟨there.tail out, ?_⟩, out⟩
    rcases Relation.reflTransGen_iff_eq_or_transGen.mp rest with rfl | rest
    · exact cycle
    · exact rest
  · rintro j ⟨there, back⟩
    obtain ⟨k, rest, into⟩ := Relation.TransGen.tail'_iff.mp there
    refine ⟨k, ⟨?_, back.head into⟩, into⟩
    rcases Relation.reflTransGen_iff_eq_or_transGen.mp rest with rfl | rest
    · exact cycle
    · exact rest

theorem cycle_of_onward [Finite I] {edge : I → I → Prop} {ring : Set I} (inhabited : ring.Nonempty)
    (onward : ∀ i ∈ ring, ∃ j ∈ ring, edge i j) : ∃ i, Relation.TransGen edge i i := by
  by_contra acyclic
  have irreflexive : Std.Irrefl (Function.swap (Relation.TransGen edge)) :=
    ⟨fun i cycle => acyclic ⟨i, cycle⟩⟩
  have transitive : IsTrans I (Function.swap (Relation.TransGen edge)) :=
    ⟨fun _ _ _ first second => second.trans first⟩
  have founded := Finite.wellFounded_of_trans_of_irrefl (Function.swap (Relation.TransGen edge))
  obtain ⟨last, member, least⟩ := founded.has_min ring inhabited
  obtain ⟨next, member', out⟩ := onward last member
  exact least next member' (.single out)

/-! What is reached. -/

section Runs
variable [DecidableEq I] {plan : I → List Row}

omit [DecidableEq I] in
theorem initial_cut : Cut plan (initial plan) where
  split _ := rfl
  exclusive _ _ _ := List.disjoint_nil_left _

theorem partway_step {before after : State I Row} (partway : Partway plan before)
    (step : Step before after) : Partway plan after := by
  cases step with
  | lock i row rest wanted free =>
      constructor
      · intro j
        by_cases same : j = i
        · subst same
          rcases partway.split j with split | ended
          · left
            simpa [wanted] using split
          · simp [ended] at wanted
        · simpa [same] using partway.split j
      · have apart : ∀ j, j ≠ i → ((before i).held ++ [row]).Disjoint (before j).held := by
          intro j other
          rw [List.disjoint_append_left]
          exact ⟨partway.exclusive i j other.symm, by simpa using free j other⟩
        intro j k different
        by_cases first : j = i
        · subst first
          simpa [different.symm] using apart k different.symm
        · by_cases second : k = i
          · subst second
            simpa [first] using (apart j first).symm
          · simpa [first, second] using partway.exclusive j k different
  | finish i =>
      constructor
      · intro j
        by_cases same : j = i
        · subst same
          simp
        · simpa [same] using partway.split j
      · intro j k different
        by_cases first : j = i
        · subst first
          simp
        · by_cases second : k = i
          · subst second
            simp
          · simpa [first, second] using partway.exclusive j k different

theorem reached_partway {state : State I Row}
    (reached : Relation.ReflTransGen Step (initial plan) state) : Partway plan state := by
  induction reached with
  | refl => exact ⟨fun i => Or.inl rfl, initial_cut.exclusive⟩
  | tail _ step ih => exact partway_step ih step

theorem cut_back {state : State I Row} (cut : Cut plan state) {i : I} {held : List Row} {row : Row}
    (holds : (state i).held = held ++ [row]) :
    Cut plan (Function.update state i ⟨held, row :: (state i).ahead⟩) ∧
      Step (Function.update state i ⟨held, row :: (state i).ahead⟩) state := by
  have fewer : ∀ j, ∀ kept ∈ (Function.update state i ⟨held, row :: (state i).ahead⟩ j).held,
      kept ∈ (state j).held := by
    intro j kept
    by_cases same : j = i
    · subst same
      simp only [Function.update_self, holds]
      exact List.mem_append_left _
    · simp [same]
  refine ⟨⟨fun j => ?_, fun j k different kept first second => ?_⟩, ?_⟩
  · by_cases same : j = i
    · subst same
      simpa [holds] using cut.split j
    · simpa [same] using cut.split j
  · exact cut.exclusive j k different (fewer j kept first) (fewer k kept second)
  · have again := Step.lock (Function.update state i ⟨held, row :: (state i).ahead⟩) i row
      (state i).ahead (by simp) fun j other taken =>
        cut.exclusive j i other (fewer j row taken) (by simp [holds])
    have restored : (⟨held ++ [row], (state i).ahead⟩ : Progress Row) = state i := by
      rw [← holds]
    simpa [restored] using again

/-- A cut is reached by giving each transaction its rows, one transaction after another. -/
theorem cut_reached [Fintype I] {state : State I Row} (cut : Cut plan state) :
    Relation.ReflTransGen Step (initial plan) state := by
  induction size : ∑ i, (state i).held.length using Nat.strong_induction_on generalizing state with
  | _ size ih =>
      by_cases nothing : ∀ i, (state i).held = []
      · have same : state = initial plan := by
          funext i
          have split := cut.split i
          rw [nothing i, List.nil_append] at split
          rw [initial, ← split, ← nothing i]
        rw [same]
      · push Not at nothing
        obtain ⟨i, some⟩ := nothing
        obtain ⟨held, row, holds⟩ := (List.eq_nil_or_concat' _).resolve_left some
        obtain ⟨back, step⟩ := cut_back cut holds
        refine (ih _ ?_ back rfl).tail step
        rw [← size]
        refine Finset.sum_lt_sum (fun j _ => ?_) ⟨i, Finset.mem_univ i, by simp [holds]⟩
        by_cases same : j = i
        · subst same
          simp [holds]
        · simp [same]

open Classical in
/-- The rule for showing that a deadlock is reached: how far the members of the ring have come. -/
theorem deadlock_reached [Fintype I] {ring : Set I} (inhabited : ring.Nonempty)
    (parts : State I Row) (split : ∀ i ∈ ring, (parts i).held ++ (parts i).ahead = plan i)
    (exclusive : ∀ i ∈ ring, ∀ j ∈ ring, i ≠ j → (parts i).held.Disjoint (parts j).held)
    (onward : ∀ i ∈ ring, ∃ j ∈ ring, Waits parts i j) :
    ∃ state, Relation.ReflTransGen Step (initial plan) state ∧ Deadlocked state := by
  refine ⟨fun i => if i ∈ ring then parts i else initial plan i, cut_reached ⟨fun i => ?_, ?_⟩, ?_⟩
  · by_cases member : i ∈ ring
    · simpa [member] using split i member
    · simp [member, initial]
  · intro i j different
    by_cases first : i ∈ ring
    · by_cases second : j ∈ ring
      · simpa [first, second] using exclusive i first j second different
      · simp [second, initial]
    · simp [first, initial]
  · refine cycle_of_onward inhabited fun i member => ?_
    obtain ⟨j, member', different, row, asked, holds⟩ := onward i member
    exact ⟨j, member', different,
      row, by simpa [member] using asked, by simpa [member'] using holds⟩

theorem pair_deadlocks [Fintype I] {i j : I} (different : i ≠ j) {held held' rest rest' : List Row}
    {row row' : Row} (first : held ++ row :: rest = plan i)
    (second : held' ++ row' :: rest' = plan j) (apart : held.Disjoint held')
    (taken : row ∈ held') (taken' : row' ∈ held) :
    ∃ state, Relation.ReflTransGen Step (initial plan) state ∧ Deadlocked state := by
  have other : j ≠ i := different.symm
  refine deadlock_reached (⟨i, by simp⟩ : ({i, j} : Set I).Nonempty)
    (fun k => if k = i then ⟨held, row :: rest⟩ else ⟨held', row' :: rest'⟩) ?_ ?_ ?_
  · rintro k (rfl | rfl)
    · simpa using first
    · simpa [other] using second
  · rintro k (rfl | rfl) l (rfl | rfl) unequal
    · exact absurd rfl unequal
    · simpa [other] using apart
    · simpa [other] using apart.symm
    · exact absurd rfl unequal
  · rintro k (rfl | rfl)
    · exact ⟨j, by simp, different, row, by simp, by simpa [other] using taken⟩
    · exact ⟨i, by simp, other, row', by simp [other], by simpa using taken'⟩

/-- The rule for showing that none is: whoever is in the ring holds a row and asks for another. -/
theorem deadlock_ring {state : State I Row}
    (reached : Relation.ReflTransGen Step (initial plan) state) (deadlocked : Deadlocked state) :
    Exclusive state ∧ ∃ ring, Ring (Waits state) ring ∧ ∀ i ∈ ring,
      (state i).held ++ (state i).ahead = plan i ∧ (state i).held ≠ [] ∧ (state i).ahead ≠ [] := by
  obtain ⟨i, cycle⟩ := deadlocked
  obtain ⟨ring, closed⟩ := ring_of_cycle cycle
  have partway := reached_partway reached
  refine ⟨partway.exclusive, ring, closed, fun j member => ?_⟩
  obtain ⟨_, _, _, row, asked, _⟩ := closed.onward j member
  obtain ⟨_, _, _, other, _, holds⟩ := closed.backward j member
  have some : (state j).held ≠ [] := List.ne_nil_of_mem holds
  refine ⟨(partway.split j).resolve_right fun ended => some (by simp [ended]), some, ?_⟩
  intro empty
  simp [empty] at asked

end Runs
end LockOrder
