import Cybera.Refinement

/-!
Reading the log: each block with the rows it was based on, what every block
leaves alone, and facts about rows over a whole run by induction on the log.
-/

namespace Cybera

/-- What the block at `index` was based on. -/
def World.basisAt (world : World) (index : Nat) : Basis where
  row table id row := storeAfter world.db.log index table id = row
  log := world.db.log.take index
  hist := world.hist

section Blocks
variable {config : Config} {world : World} {thread : Nat} {call : Call} {basis : Basis}
  {acts : List Entry}

theorem block_lawful (legit : Legit config world) {index : Nat}
    (found : world.db.log[index]? = some (thread, acts)) :
    ∃ call, world.arrivals[thread]? = some call ∧
      Lawful config (world.basisAt index) thread call acts := by
  obtain ⟨call, called, lawful⟩ := legit.blocks index thread acts found
  have same : committedBasis (world.db.log.take index) world.hist = world.basisAt index := by
    simp only [committedBasis, World.basisAt, storeAfter_take]
  exact ⟨call, called, same ▸ lawful⟩

theorem own_block {world : World} {thread : Nat} {acts : List Entry}
    (own : acts ∈ world.own thread) :
    ∃ index : Nat, world.db.log[index]? = some (thread, acts) := by
  obtain ⟨⟨holder, acts'⟩, listed, rfl⟩ := List.mem_map.mp own
  obtain ⟨member, mine⟩ := List.mem_filter.mp listed
  obtain rfl : holder = thread := by simpa using mine
  exact List.mem_iff_getElem?.mp member

theorem settled_entries {now date : Time} (pass : Settled basis thread now date acts) :
    ∀ entry ∈ acts, entry.table = .devices ∨
      (∃ id elapsed, entry = alter .sessions id (.settle elapsed) now) ∨
      (∃ id, entry = alter .sessions id (.finish .ended) now) ∨
      (∃ user elapsed id, entry = alter .users user (.charge elapsed id) now) := by
  induction pass with
  | nothing => simp
  | settled _ _ _ _ _ devices ih =>
      intro entry member
      simp only [List.mem_append, List.mem_cons] at member
      obtain earlier | rfl | rfl | device := member
      · exact ih entry earlier
      · exact Or.inr (Or.inl ⟨_, _, rfl⟩)
      · exact Or.inr (Or.inr (Or.inr ⟨_, _, _, rfl⟩))
      · exact Or.inl (devices entry device)
  | vanished _ _ _ _ ih =>
      intro entry member
      rcases List.mem_append.mp member with earlier | latest
      · exact ih entry earlier
      · exact Or.inr (Or.inr (Or.inl ⟨_, List.mem_singleton.mp latest⟩))
  | exhausted _ _ _ ih =>
      intro entry member
      rcases List.mem_append.mp member with earlier | latest
      · exact ih entry earlier
      · exact Or.inr (Or.inr (Or.inl ⟨_, List.mem_singleton.mp latest⟩))

theorem lawful_entries (lawful : Lawful config basis thread call acts) :
    ∀ entry ∈ acts, entry.table = .devices ∨ entry.table = .plans ∨
      (∃ op now, entry = alter entry.table entry.id op now) ∨
      (∃ row, entry = create entry.table entry.id row ∧ basis.row entry.table entry.id none) := by
  have changed : ∀ (table : TableName) (id : Nat) (op : Op table) (now : Time),
      ∃ op' now', alter table id op now = alter (alter table id op now).table
        (alter table id op now).id op' now' := fun table id op now => ⟨op, now, rfl⟩
  cases lawful with
  | nothing => simp
  | redeem =>
      simp only [List.mem_cons, List.not_mem_nil, or_false, forall_eq_or_imp, forall_eq]
      exact ⟨Or.inr (Or.inr (Or.inl (changed _ _ _ _))), Or.inr (Or.inr (Or.inl (changed _ _ _ _)))⟩
  | generate stored fresh =>
      intro entry member
      obtain ⟨id, code, free, rfl⟩ := fresh entry member
      exact Or.inr (Or.inr (Or.inr ⟨_, rfl, free⟩))
  | createNew given fresh =>
      simp only [List.mem_singleton, forall_eq]
      exact Or.inr (Or.inr (Or.inr ⟨_, rfl, fresh⟩))
  | createReplace | reject | grant =>
      simp only [List.mem_singleton, forall_eq]
      exact Or.inr (Or.inr (Or.inl (changed _ _ _ _)))
  | approve =>
      simp only [List.mem_cons, List.not_mem_nil, or_false, forall_eq_or_imp, forall_eq]
      exact ⟨Or.inr (Or.inr (Or.inl (changed _ _ _ _))), Or.inr (Or.inr (Or.inl (changed _ _ _ _)))⟩
  | refresh devices =>
      intro entry member
      rcases List.mem_append.mp member with device | latest
      · exact Or.inl (devices entry device)
      · rw [List.mem_singleton] at latest
        subst latest
        exact Or.inr (Or.inr (Or.inl (changed _ _ _ _)))
  | opened devices owner paid closed fresh =>
      intro entry member
      simp only [List.append_assoc, List.mem_append, List.mem_singleton] at member
      obtain device | finished | rfl := member
      · exact Or.inl (devices entry device)
      · obtain ⟨id, s, rfl, _⟩ := closed entry finished
        exact Or.inr (Or.inr (Or.inl (changed _ _ _ _)))
      · exact Or.inr (Or.inr (Or.inr ⟨_, rfl, fresh⟩))
  | kick closed =>
      intro entry member
      obtain ⟨id, s, rfl, _⟩ := closed entry member
      exact Or.inr (Or.inr (Or.inl (changed _ _ _ _)))
  | tick ordered pass =>
      intro entry member
      obtain device | ⟨id, elapsed, rfl⟩ | ⟨id, rfl⟩ | ⟨user, elapsed, id, rfl⟩ :=
        settled_entries pass entry member
      · exact Or.inl device
      · exact Or.inr (Or.inr (Or.inl (changed _ _ _ _)))
      · exact Or.inr (Or.inr (Or.inl (changed _ _ _ _)))
      · exact Or.inr (Or.inr (Or.inl (changed _ _ _ _)))
  | createPlan | updatePlan | deactivatePlan | deletePlan =>
      simp only [List.mem_singleton, forall_eq]
      exact Or.inr (Or.inl rfl)
  | register fresh | seedAdmin fresh =>
      simp only [List.mem_singleton, forall_eq]
      exact Or.inr (Or.inr (Or.inr ⟨_, rfl, fresh⟩))
  | syncAdmin =>
      simp only [List.mem_singleton, forall_eq]
      exact Or.inr (Or.inr (Or.inl (changed _ _ _ _)))
  | seedClients fresh =>
      intro entry member
      obtain ⟨id, number, free, _, _, rfl⟩ := fresh entry member
      exact Or.inr (Or.inr (Or.inr ⟨_, rfl, free⟩))

def Call.tables : Call → List TableName
  | .redeem .. => [.vouchers, .users]
  | .generate .. => [.vouchers]
  | .createRequest .. => [.planRequests]
  | .decide .. => [.planRequests, .users]
  | .connect .. => [.devices, .sessions]
  | .kick .. => [.sessions]
  | .tick => [.sessions, .users, .devices]
  | .createPlan .. | .updatePlan .. | .removePlan .. => [.plans]
  | .grant .. | .register .. | .seedAdmin .. => [.users]
  | .listPending | .clientLogin .. | .login .. => []

theorem lawful_tables (lawful : Lawful config basis thread call acts) :
    ∀ entry ∈ acts, entry.table ∈ call.tables := by
  cases lawful with
  | nothing => simp
  | generate stored fresh =>
      intro entry member
      obtain ⟨id, code, _, rfl⟩ := fresh entry member
      simp [Call.tables, create]
  | refresh devices =>
      intro entry member
      rcases List.mem_append.mp member with device | latest
      · simp [Call.tables, devices entry device]
      · rw [List.mem_singleton] at latest
        simp [Call.tables, latest, alter]
  | opened devices owner paid closed fresh =>
      intro entry member
      simp only [List.append_assoc, List.mem_append, List.mem_singleton] at member
      obtain device | finished | rfl := member
      · simp [Call.tables, devices entry device]
      · obtain ⟨id, s, rfl, _⟩ := closed entry finished
        simp [Call.tables, alter]
      · simp [Call.tables, create]
  | kick closed =>
      intro entry member
      obtain ⟨id, s, rfl, _⟩ := closed entry member
      simp [Call.tables, alter]
  | tick ordered pass =>
      intro entry member
      obtain device | ⟨id, elapsed, rfl⟩ | ⟨id, rfl⟩ | ⟨user, elapsed, id, rfl⟩ :=
        settled_entries pass entry member
      · simp [Call.tables, device]
      · simp [Call.tables, alter]
      · simp [Call.tables, alter]
      · simp [Call.tables, alter]
  | seedClients fresh =>
      intro entry member
      obtain ⟨id, number, _, _, _, rfl⟩ := fresh entry member
      simp [Call.tables, create]
  | _ => simp [Call.tables, alter, create, remove]

theorem untouched_table (lawful : Lawful config basis thread call acts) {table : TableName}
    (untouched : table ∉ call.tables) (store : Store) (id : Nat) :
    replay acts store table id = store table id :=
  replay_table _ _ _ _ fun entry member same =>
    untouched (same ▸ lawful_tables lawful entry member)

theorem lawful_alters {index : Nat} (lawful : Lawful config (world.basisAt index) thread call acts)
    {table : TableName} {id : Nat} (devices : table ≠ .devices) (plans : table ≠ .plans)
    (present : (storeAfter world.db.log index table id).isSome) : AltersAt table id acts := by
  rintro entry member rfl rfl
  obtain device | plan | altered | ⟨row, _, absent⟩ := lawful_entries lawful entry member
  · exact absurd device devices
  · exact absurd plan plans
  · exact altered
  · have none' : storeAfter world.db.log index entry.table entry.id = none := absent
    simp [none'] at present

end Blocks

section Rows
variable {config : Config} {world : World} (legit : Legit config world)
include legit

theorem log_stretch (holds : Nat → Prop) {first last : Nat} (ordered : first ≤ last)
    (bound : last ≤ world.db.log.length) (start : holds first)
    (block : ∀ index thread acts call, first ≤ index → index < last →
      world.db.log[index]? = some (thread, acts) → world.arrivals[thread]? = some call →
      Lawful config (world.basisAt index) thread call acts →
      storeAfter world.db.log (index + 1) = replay acts (storeAfter world.db.log index) →
      holds index → holds (index + 1)) : holds last := by
  induction last with
  | zero =>
      obtain rfl : first = 0 := Nat.le_zero.mp ordered
      exact start
  | succ last ih =>
      by_cases same : first = last + 1
      · exact same ▸ start
      · have before := ih (by omega) (Nat.le_of_succ_le bound)
          fun index thread acts call low high => block index thread acts call low
            (Nat.lt_succ_of_lt high)
        have found := List.getElem?_eq_getElem (Nat.lt_of_succ_le bound)
        obtain ⟨call, called, lawful⟩ := block_lawful legit found
        exact block last _ _ call (by omega) (Nat.lt_succ_self _) found called lawful
          (storeAfter_succ _ _ _ found) before

theorem log_induction (holds : Nat → Prop) (start : holds 0)
    (block : ∀ index thread acts call, world.db.log[index]? = some (thread, acts) →
      world.arrivals[thread]? = some call →
      Lawful config (world.basisAt index) thread call acts →
      storeAfter world.db.log (index + 1) = replay acts (storeAfter world.db.log index) →
      holds index → holds (index + 1)) (commits : Nat) (bound : commits ≤ world.db.log.length) :
    holds commits :=
  log_stretch legit holds (Nat.zero_le _) bound start
    fun index thread acts call _ _ => block index thread acts call

theorem row_related {table : TableName} (devices : table ≠ .devices) (plans : table ≠ .plans)
    (related : Row table → Row table → Prop) (refl : ∀ row, related row row)
    (trans : ∀ first second third, related first second → related second third →
      related first third)
    (step : ∀ op now row, related row (Op.run table op now row)) {id first last : Nat}
    {row : Row table} (ordered : first ≤ last) (bound : last ≤ world.db.log.length)
    (present : storeAfter world.db.log first table id = some row) :
    ∃ after, storeAfter world.db.log last table id = some after ∧ related row after := by
  refine log_stretch legit (fun commits => ∃ after,
    storeAfter world.db.log commits table id = some after ∧ related row after) ordered bound
    ⟨row, present, refl row⟩ ?_
  rintro index thread acts call _ _ _ _ lawful next ⟨middle, found, reach⟩
  obtain ⟨after, left, onward⟩ := replay_related _ table id related refl trans step acts
    (lawful_alters lawful devices plans (by simp [found])) found
  exact ⟨after, next ▸ left, trans _ _ _ reach onward⟩

theorem row_same {table : TableName} (devices : table ≠ .devices) (plans : table ≠ .plans)
    {id first last : Nat} {row : Row table} (ordered : first ≤ last)
    (bound : last ≤ world.db.log.length)
    (present : storeAfter world.db.log first table id = some row) :
    ∃ after, storeAfter world.db.log last table id = some after ∧ Same table row after :=
  row_related legit devices plans (Same table) (same_refl table) (fun _ _ _ => same_trans table)
    (op_same table) ordered bound present

end Rows

/-! Credits: what the log adds to balances, and on whose account. -/

structure Credit where
  user : Nat
  seconds : Nat
  source : CreditSource
  deriving DecidableEq

def creditOf : Entry → Option Credit
  | ⟨.users, user, .update (.credit seconds _ source) _⟩ => some ⟨user, seconds, source⟩
  | _ => none

def credits (log : List Block) : List Credit := (log.flatMap (·.2)).filterMap creditOf

def creditsFor (log : List Block) (source : CreditSource) : List Credit :=
  (credits log).filter fun credit => credit.source = source

theorem credits_succ {log : List Block} {index thread : Nat} {acts : List Entry}
    (found : log[index]? = some (thread, acts)) :
    credits (log.take (index + 1)) = credits (log.take index) ++ acts.filterMap creditOf := by
  simp [credits, List.take_add_one, found]

theorem creditsFor_succ {log : List Block} {index thread : Nat} {acts : List Entry}
    (found : log[index]? = some (thread, acts)) (source : CreditSource) :
    creditsFor (log.take (index + 1)) source = creditsFor (log.take index) source ++
      (acts.filterMap creditOf).filter fun credit => credit.source = source := by
  rw [creditsFor, credits_succ found, List.filter_append, creditsFor]

@[simp] theorem creditOf_credit (user seconds : Nat) (limit : Option Nat) (source : CreditSource)
    (now : Time) : creditOf (alter .users user (.credit seconds limit source) now) =
      some ⟨user, seconds, source⟩ := rfl

@[simp] theorem creditOf_charge (user elapsed session : Nat) (now : Time) :
    creditOf (alter .users user (.charge elapsed session) now) = none := rfl

@[simp] theorem creditOf_syncAdmin (user : Nat) (hash : Text) (now : Time) :
    creditOf (alter .users user (.syncAdmin hash) now) = none := rfl

@[simp] theorem creditOf_create (table : TableName) (id : Nat) (row : Row table) :
    creditOf (create table id row) = none := by
  cases table <;> rfl

theorem creditOf_table (entry : Entry) (other : entry.table ≠ .users) : creditOf entry = none := by
  obtain ⟨table, id, act⟩ := entry
  cases table <;> first | rfl | exact absurd rfl other

@[simp] theorem creditOf_other (table : TableName) (id : Nat) (op : Op table) (now : Time)
    (other : table ≠ .users) : creditOf (alter table id op now) = none :=
  creditOf_table _ other

theorem lawful_credit {config : Config} {basis : Basis} {thread : Nat} {call : Call}
    {acts : List Entry} (lawful : Lawful config basis thread call acts) :
    ∀ entry ∈ acts, ∀ credit, creditOf entry = some credit →
      (∃ user dto id, call = .redeem user dto ∧ credit.source = .voucher id) ∨
      (∃ actor id, call = .decide actor id true ∧ credit.source = .request id) ∨
      (∃ actor id dto, call = .grant actor id dto ∧ credit.source = .grant) := by
  have tables := lawful_tables lawful
  have none' : ∀ entry ∈ acts, (call.tables.contains .users) = false → creditOf entry = none := by
    intro entry member untouched
    refine creditOf_table entry fun same => ?_
    have listed := tables entry member
    rw [same] at listed
    simp [listed] at untouched
  intro entry member credit found
  cases lawful with
  | redeem =>
      simp only [List.mem_cons, List.not_mem_nil, or_false] at member
      obtain rfl | rfl := member
      · simp at found
      · simp only [creditOf_credit, Option.some.injEq] at found
        subst found
        exact Or.inl ⟨_, _, _, rfl, rfl⟩
  | approve =>
      simp only [List.mem_cons, List.not_mem_nil, or_false] at member
      obtain rfl | rfl := member
      · simp at found
      · simp only [creditOf_credit, Option.some.injEq] at found
        subst found
        exact Or.inr (Or.inl ⟨_, _, rfl, rfl⟩)
  | reject =>
      rw [List.mem_singleton] at member
      subst member
      simp at found
  | grant =>
      rw [List.mem_singleton] at member
      subst member
      simp only [creditOf_credit, Option.some.injEq] at found
      subst found
      exact Or.inr (Or.inr ⟨_, _, _, rfl, rfl⟩)
  | tick ordered pass =>
      obtain device | ⟨id, elapsed, rfl⟩ | ⟨id, rfl⟩ | ⟨user, elapsed, id, rfl⟩ :=
        settled_entries pass entry member
      · simp [creditOf_table, device] at found
      · simp at found
      · simp at found
      · simp at found
  | seedClients fresh =>
      obtain ⟨id, number, _, _, _, rfl⟩ := fresh entry member
      simp at found
  | nothing => simp at member
  | register | seedAdmin | syncAdmin =>
      rw [List.mem_singleton] at member
      subst member
      simp at found
  | _ => simp [none' entry member rfl] at found

end Cybera
