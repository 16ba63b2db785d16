import Mathlib

/-!
Read-committed transactions over tables of keyed rows. A writer locks the row
and keeps the new version to itself until it commits; a reader outside sees the
last committed version. Each version is computed when it is written, so a lost
update could be expressed here: that committing amounts to replaying the
transaction's acts on the rows of that moment is a theorem, not a definition.
-/

namespace RowLock

section Cells
variable {Table : Type} [DecidableEq Table] {F : Table → Type}

def put (cells : (table : Table) → Nat → F table) (table : Table) (id : Nat)
    (value : F table) : (table : Table) → Nat → F table :=
  fun other key =>
    if same : other = table then
      if key = id then same ▸ value else cells other key
    else cells other key

@[simp] theorem put_same (cells : (table : Table) → Nat → F table) (table : Table) (id : Nat)
    (value : F table) : put cells table id value table id = value := by
  simp [put]

theorem put_other (cells : (table : Table) → Nat → F table) (table other : Table)
    (id key : Nat) (value : F table) (different : ¬ (other = table ∧ key = id)) :
    put cells table id value other key = cells other key := by
  unfold put
  by_cases same : other = table
  · have apart : key ≠ id := fun equal => different ⟨same, equal⟩
    simp [same, apart]
  · simp [same]

@[simp] theorem put_table (cells : (table : Table) → Nat → F table) (table other : Table)
    (id key : Nat) (value : F table) (different : other ≠ table) :
    put cells table id value other key = cells other key :=
  put_other cells table other id key value fun same => different same.1

@[simp] theorem put_key (cells : (table : Table) → Nat → F table) (table : Table)
    (id key : Nat) (value : F table) (different : key ≠ id) :
    put cells table id value table key = cells table key :=
  put_other cells table table id key value fun same => different same.2

end Cells

abbrev Store {Table : Type} (Row : Table → Type) := (table : Table) → Nat → Option (Row table)

structure Entry {Table : Type} (Act : Table → Type) where
  table : Table
  id : Nat
  act : Act table

/-- An open transaction: its start time, the versions it wrote and the acts
that made them, oldest first. -/
structure Txn {Table : Type} (Row Act : Table → Type) where
  began : Int
  rows : (table : Table) → Nat → Option (Option (Row table))
  acts : List (Entry Act)

structure State {Table : Type} (Row Act : Table → Type) where
  store : Store Row
  next : Table → Nat
  locks : Table → Nat → Option Nat
  txns : Nat → Option (Txn Row Act)
  log : List (Nat × List (Entry Act))

section Replay
variable {Table : Type} [DecidableEq Table] {Row Act : Table → Type}
variable (apply : (table : Table) → Act table → Option (Row table) → Option (Row table))

def runEntry (store : Store Row) (entry : Entry Act) : Store Row :=
  put (F := fun table => Option (Row table)) store entry.table entry.id
    (apply entry.table entry.act (store entry.table entry.id))

def replay (entries : List (Entry Act)) (store : Store Row) : Store Row :=
  entries.foldl (runEntry apply) store

@[simp] theorem replay_nil (store : Store Row) : replay apply [] store = store := rfl

@[simp] theorem replay_cons (entry : Entry Act) (rest : List (Entry Act)) (store : Store Row) :
    replay apply (entry :: rest) store = replay apply rest (runEntry apply store entry) := rfl

theorem replay_append (first second : List (Entry Act)) (store : Store Row) :
    replay apply (first ++ second) store = replay apply second (replay apply first store) := by
  simp [replay, List.foldl_append]

theorem runEntry_at (store : Store Row) (entry : Entry Act) :
    runEntry apply store entry entry.table entry.id =
      apply entry.table entry.act (store entry.table entry.id) := by
  simp [runEntry]

theorem runEntry_other (store : Store Row) (entry : Entry Act) (table : Table) (id : Nat)
    (different : ¬ (table = entry.table ∧ id = entry.id)) :
    runEntry apply store entry table id = store table id :=
  put_other _ _ _ _ _ _ different

theorem runEntry_same (store : Store Row) (entry : Entry Act)
    (same : runEntry apply store entry entry.table entry.id = store entry.table entry.id) :
    runEntry apply store entry = store := by
  funext table id
  by_cases hit : table = entry.table ∧ id = entry.id
  · obtain ⟨rfl, rfl⟩ := hit
    exact same
  · exact runEntry_other apply store entry table id hit

theorem replay_local (entries : List (Entry Act)) (left right : Store Row) (table : Table)
    (id : Nat) (same : left table id = right table id) :
    replay apply entries left table id = replay apply entries right table id := by
  induction entries generalizing left right with
  | nil => exact same
  | cons entry rest ih =>
      apply ih
      by_cases hit : table = entry.table ∧ id = entry.id
      · obtain ⟨rfl, rfl⟩ := hit
        simp only [runEntry_at, same]
      · simp only [runEntry_other apply _ entry table id hit, same]

theorem replay_untouched (entries : List (Entry Act)) (store : Store Row) (table : Table)
    (id : Nat) (absent : ∀ entry ∈ entries, ¬ (table = entry.table ∧ id = entry.id)) :
    replay apply entries store table id = store table id := by
  induction entries generalizing store with
  | nil => rfl
  | cons entry rest ih =>
      rw [replay_cons, ih _ fun other member => absent other (List.mem_cons_of_mem entry member)]
      exact runEntry_other apply store entry table id (absent entry (by simp))

end Replay

section Transactions
variable {Table : Type} {Row Act : Table → Type}

def overlay (rows : (table : Table) → Nat → Option (Option (Row table)))
    (store : Store Row) : Store Row :=
  fun table id => (rows table id).getD (store table id)

namespace State

/-- What a statement of the thread sees: its own versions over the committed ones. -/
def view (state : State Row Act) (thread : Nat) : Store Row :=
  match state.txns thread with
  | none => state.store
  | some txn => overlay txn.rows state.store

/-- A second BEGIN inside a transaction changes nothing. -/
def begin (state : State Row Act) (thread : Nat) (now : Int) : State Row Act :=
  match state.txns thread with
  | some _ => state
  | none =>
      { state with
        txns := Function.update state.txns thread (some ⟨now, fun _ _ => none, []⟩) }

def reserve [DecidableEq Table] (state : State Row Act) (table : Table) : State Row Act :=
  { state with next := Function.update state.next table (state.next table + 1) }

/-- `none` while another transaction holds the row. -/
def acquire [DecidableEq Table] (state : State Row Act) (thread : Nat) (table : Table)
    (id : Nat) : Option (State Row Act) :=
  if (state.txns thread).isSome && decide (id < state.next table) then
    match state.locks table id with
    | some holder => if holder = thread then some state else none
    | none =>
        some { state with
          locks := put (F := fun _ => Option Nat) state.locks table id (some thread) }
  else none

def write [DecidableEq Table]
    (apply : (table : Table) → Act table → Option (Row table) → Option (Row table))
    (state : State Row Act) (thread : Nat) (entry : Entry Act) : Option (State Row Act) :=
  (state.acquire thread entry.table entry.id).bind fun held =>
    (held.txns thread).map fun txn =>
      { held with
        txns := Function.update held.txns thread (some
          { txn with
            rows := put (F := fun table => Option (Option (Row table))) txn.rows
              entry.table entry.id
              (some (apply entry.table entry.act (held.view thread entry.table entry.id)))
            acts := txn.acts ++ [entry] }) }

def release (state : State Row Act) (thread : Nat) : Table → Nat → Option Nat :=
  fun table id => if state.locks table id = some thread then none else state.locks table id

def commit (state : State Row Act) (thread : Nat) : State Row Act :=
  match state.txns thread with
  | none => state
  | some txn =>
      { state with
        store := overlay txn.rows state.store
        txns := Function.update state.txns thread none
        locks := state.release thread
        log := state.log ++ [(thread, txn.acts)] }

def rollback (state : State Row Act) (thread : Nat) : State Row Act :=
  { state with
    txns := Function.update state.txns thread none
    locks := state.release thread }

end State

/-- The lock discipline: versions are written under a lock, locks are held by
open transactions, and what a transaction sees is its acts replayed. -/
structure Sound [DecidableEq Table]
    (apply : (table : Table) → Act table → Option (Row table) → Option (Row table))
    (state : State Row Act) : Prop where
  owned : ∀ thread table id, state.locks table id = some thread → (state.txns thread).isSome
  covered : ∀ thread txn table id, state.txns thread = some txn →
    (txn.rows table id).isSome → state.locks table id = some thread
  listed : ∀ thread txn, state.txns thread = some txn →
    ∀ entry ∈ txn.acts, state.locks entry.table entry.id = some thread
  faithful : ∀ thread txn, state.txns thread = some txn →
    overlay txn.rows state.store = replay apply txn.acts state.store
  unused : ∀ table id, state.next table ≤ id →
    state.store table id = none ∧ state.locks table id = none

/-- What a thread keeps while others take steps. -/
structure Undisturbed (thread : Nat) (before after : State Row Act) : Prop where
  txn : after.txns thread = before.txns thread
  locks : ∀ table id, before.locks table id = some thread → after.locks table id = some thread
  rows : ∀ table id, before.locks table id = some thread →
    after.store table id = before.store table id
  log : before.log <+: after.log
  own : after.log.filter (fun block => block.1 == thread) =
    before.log.filter (fun block => block.1 == thread)

/-- What a thread keeps until it commits, its own statements included. -/
structure Keeps (thread : Nat) (before after : State Row Act) : Prop where
  locks : ∀ table id, before.locks table id = some thread → after.locks table id = some thread
  rows : ∀ table id, before.locks table id = some thread →
    after.store table id = before.store table id
  log : before.log <+: after.log
  own : after.log.filter (fun block => block.1 == thread) =
    before.log.filter (fun block => block.1 == thread)

def InTxn (state : State Row Act) (thread : Nat) (began : Int) (acts : List (Entry Act)) : Prop :=
  ∃ rows, state.txns thread = some ⟨began, rows, acts⟩

/-- The thread holds the row's lock and `row` is its last committed version. -/
structure Holds (state : State Row Act) (thread : Nat) (table : Table) (id : Nat)
    (row : Option (Row table)) : Prop where
  lock : state.locks table id = some thread
  row : state.store table id = row

theorem undisturbed_refl (thread : Nat) (state : State Row Act) :
    Undisturbed thread state state :=
  ⟨rfl, fun _ _ held => held, fun _ _ _ => rfl, List.prefix_refl _, rfl⟩

theorem undisturbed_trans {thread : Nat} {first second third : State Row Act}
    (left : Undisturbed thread first second) (right : Undisturbed thread second third) :
    Undisturbed thread first third where
  txn := right.txn.trans left.txn
  locks := fun table id held => right.locks table id (left.locks table id held)
  rows := fun table id held =>
    (right.rows table id (left.locks table id held)).trans (left.rows table id held)
  log := left.log.trans right.log
  own := right.own.trans left.own

theorem keeps_refl (thread : Nat) (state : State Row Act) : Keeps thread state state :=
  ⟨fun _ _ held => held, fun _ _ _ => rfl, List.prefix_refl _, rfl⟩

theorem keeps_trans {thread : Nat} {first second third : State Row Act}
    (left : Keeps thread first second) (right : Keeps thread second third) :
    Keeps thread first third where
  locks := fun table id held => right.locks table id (left.locks table id held)
  rows := fun table id held =>
    (right.rows table id (left.locks table id held)).trans (left.rows table id held)
  log := left.log.trans right.log
  own := right.own.trans left.own

theorem Undisturbed.keeps {thread : Nat} {before after : State Row Act}
    (undisturbed : Undisturbed thread before after) : Keeps thread before after :=
  ⟨undisturbed.locks, undisturbed.rows, undisturbed.log, undisturbed.own⟩

theorem Undisturbed.inTxn {thread : Nat} {before after : State Row Act} {began : Int}
    {acts : List (Entry Act)} (undisturbed : Undisturbed thread before after)
    (inside : InTxn before thread began acts) : InTxn after thread began acts := by
  obtain ⟨rows, present⟩ := inside
  exact ⟨rows, undisturbed.txn.trans present⟩

theorem Keeps.holds {thread : Nat} {before after : State Row Act} {table : Table} {id : Nat}
    {row : Option (Row table)} (keeps : Keeps thread before after)
    (holds : Holds before thread table id row) : Holds after thread table id row :=
  ⟨keeps.locks table id holds.lock, (keeps.rows table id holds.lock).trans holds.row⟩

variable {state : State Row Act} {thread other : Nat}

theorem view_outside (outside : state.txns thread = none) : state.view thread = state.store := by
  simp [State.view, outside]

theorem begin_fresh (outside : state.txns thread = none) (now : Int) :
    state.begin thread now =
      { state with
        txns := Function.update state.txns thread (some ⟨now, fun _ _ => none, []⟩) } := by
  simp [State.begin, outside]

theorem begin_inTxn (outside : state.txns thread = none) (now : Int) :
    InTxn (state.begin thread now) thread now [] :=
  ⟨fun _ _ => none, by simp [begin_fresh outside]⟩

theorem begin_undisturbed (different : thread ≠ other) (now : Int) :
    Undisturbed thread state (state.begin other now) := by
  unfold State.begin
  split
  · exact undisturbed_refl thread state
  · exact ⟨Function.update_of_ne different _ _, fun _ _ held => held, fun _ _ _ => rfl,
      List.prefix_refl _, rfl⟩

theorem begin_keeps (now : Int) : Keeps thread state (state.begin other now) := by
  unfold State.begin
  split
  · exact keeps_refl thread state
  · exact ⟨fun _ _ held => held, fun _ _ _ => rfl, List.prefix_refl _, rfl⟩

theorem release_other (different : thread ≠ other) (table : Table) (id : Nat) :
    state.release other table id = some thread ↔ state.locks table id = some thread := by
  unfold State.release
  split
  · rename_i held
    simp [held, Ne.symm different]
  · rfl

theorem release_subset (holder : Nat) (table : Table) (id : Nat)
    (held : state.release thread table id = some holder) :
    state.locks table id = some holder ∧ holder ≠ thread := by
  unfold State.release at held
  split at held
  · cases held
  · rename_i kept
    exact ⟨held, fun same => kept (same ▸ held)⟩

theorem rollback_undisturbed (different : thread ≠ other) :
    Undisturbed thread state (state.rollback other) :=
  ⟨Function.update_of_ne different _ _,
    fun table id held => (release_other different table id).mpr held,
    fun _ _ _ => rfl, List.prefix_refl _, rfl⟩

theorem rollback_outside : (state.rollback thread).txns thread = none := by
  simp [State.rollback]

theorem commit_outside : (state.commit thread).txns thread = none := by
  unfold State.commit
  split
  · assumption
  · simp

/-! The transactions that are open after one began or ended. -/

theorem begin_txns {now : Int} {holder : Nat} {txn : Txn Row Act}
    (present : (state.begin thread now).txns holder = some txn) :
    state.txns holder = some txn ∨ holder = thread ∧ txn = ⟨now, fun _ _ => none, []⟩ := by
  by_cases same : holder = thread
  · subst same
    unfold State.begin at present
    split at present
    · exact Or.inl present
    · simp only [Function.update_self, Option.some.injEq] at present
      exact Or.inr ⟨rfl, present.symm⟩
  · rw [(begin_undisturbed same now).txn] at present
    exact Or.inl present

theorem begin_opens (now : Int) : ((state.begin thread now).txns thread).isSome := by
  unfold State.begin
  split
  · simp [*]
  · simp

theorem rollback_txns {holder : Nat} {txn : Txn Row Act}
    (present : (state.rollback thread).txns holder = some txn) :
    holder ≠ thread ∧ state.txns holder = some txn := by
  have different : holder ≠ thread := by
    rintro rfl
    rw [rollback_outside] at present
    cases present
  exact ⟨different, (rollback_undisturbed different).txn ▸ present⟩

theorem commit_txns {holder : Nat} {txn : Txn Row Act}
    (present : (state.commit thread).txns holder = some txn) :
    holder ≠ thread ∧ state.txns holder = some txn := by
  have different : holder ≠ thread := by
    rintro rfl
    rw [commit_outside] at present
    cases present
  refine ⟨different, ?_⟩
  unfold State.commit at present
  split at present
  · exact present
  · simpa only [Function.update_of_ne different] using present

end Transactions

section Steps
variable {Table : Type} [DecidableEq Table] {Row Act : Table → Type}
variable {apply : (table : Table) → Act table → Option (Row table) → Option (Row table)}
variable {state after : State Row Act} {thread other : Nat}

theorem view_inTxn (sound : Sound apply state) {began : Int} {acts : List (Entry Act)}
    (inside : InTxn state thread began acts) :
    state.view thread = replay apply acts state.store := by
  obtain ⟨rows, present⟩ := inside
  simpa [State.view, present] using sound.faithful thread _ present

theorem sound_begin (sound : Sound apply state) (now : Int) :
    Sound apply (state.begin thread now) := by
  cases opened : state.txns thread with
  | some txn => simpa [State.begin, opened] using sound
  | none =>
      rw [begin_fresh opened]
      have idle : ∀ table id, state.locks table id ≠ some thread := by
        intro table id held
        simpa [opened] using sound.owned thread table id held
      refine ⟨?_, ?_, ?_, ?_, sound.unused⟩
      · intro holder table id held
        by_cases same : holder = thread
        · simp [same]
        · simpa [Function.update_of_ne same] using sound.owned holder table id held
      · intro holder txn table id present written
        rcases begin_txns (begin_fresh opened now ▸ present) with earlier | ⟨_, rfl⟩
        · exact sound.covered holder txn table id earlier written
        · simp at written
      · intro holder txn present
        rcases begin_txns (begin_fresh opened now ▸ present) with earlier | ⟨_, rfl⟩
        · exact sound.listed holder txn earlier
        · simp
      · intro holder txn present
        rcases begin_txns (begin_fresh opened now ▸ present) with earlier | ⟨_, rfl⟩
        · exact sound.faithful holder txn earlier
        · rfl

theorem reserve_undisturbed (table : Table) : Undisturbed thread state (state.reserve table) :=
  ⟨rfl, fun _ _ held => held, fun _ _ _ => rfl, List.prefix_refl _, rfl⟩

theorem sound_reserve (sound : Sound apply state) (table : Table) :
    Sound apply (state.reserve table) := by
  refine ⟨sound.owned, sound.covered, sound.listed, sound.faithful, ?_⟩
  intro named id beyond
  apply sound.unused named id
  by_cases same : named = table
  · subst same
    simp only [State.reserve, Function.update_self] at beyond
    omega
  · simpa [State.reserve, Function.update_of_ne same] using beyond

theorem acquire_cases {table : Table} {id : Nat}
    (granted : state.acquire thread table id = some after) :
    (state.txns thread).isSome ∧ id < state.next table ∧
      ((state.locks table id = some thread ∧ after = state) ∨
       (state.locks table id = none ∧ after =
          { state with
            locks := put (F := fun _ => Option Nat) state.locks table id (some thread) })) := by
  unfold State.acquire at granted
  split at granted
  · rename_i allowed
    simp only [Bool.and_eq_true, decide_eq_true_eq] at allowed
    refine ⟨allowed.1, allowed.2, ?_⟩
    split at granted
    · rename_i holder held
      split at granted
      · rename_i same
        subst same
        exact Or.inl ⟨held, (Option.some.inj granted).symm⟩
      · cases granted
    · rename_i free
      exact Or.inr ⟨free, (Option.some.inj granted).symm⟩
  · cases granted

theorem acquire_same {table : Table} {id : Nat}
    (granted : state.acquire thread table id = some after) :
    after.txns = state.txns ∧ after.store = state.store ∧ after.next = state.next ∧
      after.log = state.log := by
  obtain ⟨_, _, ⟨_, rfl⟩ | ⟨_, rfl⟩⟩ := acquire_cases granted <;> simp

theorem acquire_lock {table : Table} {id : Nat}
    (granted : state.acquire thread table id = some after) :
    after.locks table id = some thread := by
  obtain ⟨_, _, ⟨held, rfl⟩ | ⟨_, rfl⟩⟩ := acquire_cases granted
  · exact held
  · simp

theorem acquire_locks {table : Table} {id : Nat}
    (granted : state.acquire thread table id = some after) (holder : Nat) (named : Table)
    (key : Nat) (held : state.locks named key = some holder) :
    after.locks named key = some holder := by
  obtain ⟨_, _, ⟨_, rfl⟩ | ⟨free, rfl⟩⟩ := acquire_cases granted
  · exact held
  · by_cases hit : named = table ∧ key = id
    · obtain ⟨rfl, rfl⟩ := hit
      simp [free] at held
    · simpa [put_other _ _ _ _ _ _ hit] using held

theorem acquire_undisturbed {table : Table} {id : Nat}
    (granted : state.acquire other table id = some after) : Undisturbed thread state after := by
  obtain ⟨txns, store, _, log⟩ := acquire_same granted
  exact ⟨by rw [txns], acquire_locks granted thread, fun _ _ _ => by rw [store],
    log ▸ List.prefix_refl _, by rw [log]⟩

theorem sound_acquire (sound : Sound apply state) {table : Table} {id : Nat}
    (granted : state.acquire thread table id = some after) : Sound apply after := by
  obtain ⟨txns, store, next, _⟩ := acquire_same granted
  have keep := acquire_locks granted
  obtain ⟨opened, bound, cases⟩ := acquire_cases granted
  refine ⟨?_, ?_, ?_, ?_, ?_⟩
  · intro holder named key held
    rw [txns]
    obtain ⟨_, rfl⟩ | ⟨_, rfl⟩ := cases
    · exact sound.owned holder named key held
    · by_cases hit : named = table ∧ key = id
      · obtain ⟨rfl, rfl⟩ := hit
        simp only [put_same, Option.some.injEq] at held
        exact held ▸ opened
      · simp only [put_other _ _ _ _ _ _ hit] at held
        exact sound.owned holder named key held
  · intro holder txn named key present written
    rw [txns] at present
    exact keep holder named key (sound.covered holder txn named key present written)
  · intro holder txn present entry member
    rw [txns] at present
    exact keep holder _ _ (sound.listed holder txn present entry member)
  · intro holder txn present
    rw [txns] at present
    rw [store]
    exact sound.faithful holder txn present
  · intro named key beyond
    rw [next] at beyond
    rw [store]
    refine ⟨(sound.unused named key beyond).1, ?_⟩
    obtain ⟨_, rfl⟩ | ⟨_, rfl⟩ := cases
    · exact (sound.unused named key beyond).2
    · have apart : ¬ (named = table ∧ key = id) := by
        rintro ⟨rfl, rfl⟩
        omega
      simpa only [put_other _ _ _ _ _ _ apart] using (sound.unused named key beyond).2

theorem write_cases {entry : Entry Act}
    (written : state.write apply thread entry = some after) :
    ∃ held txn, state.acquire thread entry.table entry.id = some held ∧
      held.txns thread = some txn ∧
      after = { held with
        txns := Function.update held.txns thread (some
          { txn with
            rows := put (F := fun table => Option (Option (Row table))) txn.rows
              entry.table entry.id
              (some (apply entry.table entry.act (held.view thread entry.table entry.id)))
            acts := txn.acts ++ [entry] }) } := by
  simp only [State.write, Option.bind_eq_some_iff, Option.map_eq_some_iff] at written
  obtain ⟨held, granted, txn, present, rfl⟩ := written
  exact ⟨held, txn, granted, present, rfl⟩

theorem write_undisturbed {entry : Entry Act} (different : thread ≠ other)
    (written : state.write apply other entry = some after) : Undisturbed thread state after := by
  obtain ⟨held, txn, granted, _, rfl⟩ := write_cases written
  refine undisturbed_trans (acquire_undisturbed granted) ?_
  exact ⟨Function.update_of_ne different _ _, fun _ _ held => held, fun _ _ _ => rfl,
    List.prefix_refl _, rfl⟩

theorem write_keeps {entry : Entry Act}
    (written : state.write apply thread entry = some after) : Keeps thread state after := by
  obtain ⟨held, txn, granted, _, rfl⟩ := write_cases written
  refine keeps_trans (acquire_undisturbed granted).keeps ?_
  exact ⟨fun _ _ kept => kept, fun _ _ _ => rfl, List.prefix_refl _, rfl⟩

theorem write_lock {entry : Entry Act}
    (written : state.write apply thread entry = some after) :
    after.locks entry.table entry.id = some thread := by
  obtain ⟨held, txn, granted, _, rfl⟩ := write_cases written
  exact (acquire_lock granted :)

theorem write_same {entry : Entry Act}
    (written : state.write apply thread entry = some after) :
    after.store = state.store ∧ after.next = state.next ∧ after.log = state.log := by
  obtain ⟨held, txn, granted, _, rfl⟩ := write_cases written
  exact (acquire_same granted).2

theorem write_inTxn {entry : Entry Act} {began : Int} {acts : List (Entry Act)}
    (inside : InTxn state thread began acts)
    (written : state.write apply thread entry = some after) :
    InTxn after thread began (acts ++ [entry]) := by
  obtain ⟨held, txn, granted, present, rfl⟩ := write_cases written
  obtain ⟨rows, opened⟩ := inside
  rw [(acquire_same granted).1, opened] at present
  cases present
  exact ⟨_, Function.update_self ..⟩

theorem overlay_put (rows : (table : Table) → Nat → Option (Option (Row table)))
    (store : Store Row) (table : Table) (id : Nat) (row : Option (Row table)) :
    overlay (put (F := fun table => Option (Option (Row table))) rows table id (some row)) store =
      put (F := fun table => Option (Row table)) (overlay rows store) table id row := by
  funext named key
  by_cases hit : named = table ∧ key = id
  · obtain ⟨rfl, rfl⟩ := hit
    simp [overlay]
  · simp [overlay, put_other _ _ _ _ _ _ hit]

theorem sound_write (sound : Sound apply state) {entry : Entry Act}
    (written : state.write apply thread entry = some after) : Sound apply after := by
  obtain ⟨held, txn, granted, present, rfl⟩ := write_cases written
  have base := sound_acquire sound granted
  have locked := acquire_lock granted
  refine ⟨?_, ?_, ?_, ?_, base.unused⟩
  · intro holder table id kept
    by_cases same : holder = thread
    · simp [same]
    · simpa [Function.update_of_ne same] using base.owned holder table id kept
  · intro holder current table id found version
    by_cases same : holder = thread
    · subst same
      simp only [Function.update_self, Option.some.injEq] at found
      subst found
      by_cases hit : table = entry.table ∧ id = entry.id
      · obtain ⟨rfl, rfl⟩ := hit
        exact locked
      · simp only [put_other _ _ _ _ _ _ hit] at version
        exact base.covered holder txn table id present version
    · simp only [Function.update_of_ne same] at found
      exact base.covered holder current table id found version
  · intro holder current found act member
    by_cases same : holder = thread
    · subst same
      simp only [Function.update_self, Option.some.injEq] at found
      subst found
      rcases List.mem_append.mp member with earlier | latest
      · exact base.listed holder txn present act earlier
      · rw [List.mem_singleton] at latest
        subst latest
        exact locked
    · simp only [Function.update_of_ne same] at found
      exact base.listed holder current found act member
  · intro holder current found
    by_cases same : holder = thread
    · subst same
      simp only [Function.update_self, Option.some.injEq] at found
      subst found
      have seen : held.view holder = overlay txn.rows held.store := by
        simp [State.view, present]
      simp only [overlay_put, replay_append, ← base.faithful holder txn present, seen]
      rfl
    · simp only [Function.update_of_ne same] at found
      exact base.faithful holder current found

theorem sound_rollback (sound : Sound apply state) : Sound apply (state.rollback thread) := by
  refine ⟨?_, ?_, ?_, ?_, ?_⟩
  · intro holder table id held
    obtain ⟨kept, different⟩ := release_subset holder table id held
    simpa [State.rollback, Function.update_of_ne different] using
      sound.owned holder table id kept
  · intro holder txn table id present written
    obtain ⟨different, earlier⟩ := rollback_txns present
    exact (release_other different table id).mpr (sound.covered holder txn table id earlier written)
  · intro holder txn present entry member
    obtain ⟨different, earlier⟩ := rollback_txns present
    exact (release_other different _ _).mpr (sound.listed holder txn earlier entry member)
  · intro holder txn present
    exact sound.faithful holder txn (rollback_txns present).2
  · intro table id beyond
    obtain ⟨empty, free⟩ := sound.unused table id beyond
    exact ⟨empty, by simp [State.rollback, State.release, free]⟩

/-- Committing replays the transaction's acts on the rows of that moment: no
write of anybody else that happened in between is lost. -/
theorem commit_replays (sound : Sound apply state) {began : Int} {acts : List (Entry Act)}
    (inside : InTxn state thread began acts) :
    (state.commit thread).store = replay apply acts state.store ∧
      (state.commit thread).log = state.log ++ [(thread, acts)] := by
  obtain ⟨rows, present⟩ := inside
  simp only [State.commit, present, and_true]
  exact sound.faithful thread _ present

theorem commit_unlocked (sound : Sound apply state) (table : Table) (id : Nat)
    (free : state.locks table id ≠ some thread) :
    (state.commit thread).store table id = state.store table id := by
  unfold State.commit
  split
  · rfl
  · rename_i txn present
    have bare : txn.rows table id = none := by
      by_contra version
      exact free (sound.covered thread txn table id present (Option.isSome_iff_ne_none.mpr version))
    simp [overlay, bare]

theorem commit_undisturbed (sound : Sound apply state) (different : thread ≠ other) :
    Undisturbed thread state (state.commit other) := by
  have rows : ∀ table id, state.locks table id = some thread →
      (state.commit other).store table id = state.store table id := by
    intro table id held
    refine commit_unlocked sound table id ?_
    rw [held]
    simpa using different
  revert rows
  unfold State.commit
  split
  · exact fun _ => undisturbed_refl thread state
  · intro rows
    exact ⟨Function.update_of_ne different _ _,
      fun table id held => (release_other different table id).mpr held, rows,
      List.prefix_append _ _, by simp [List.filter_append, Ne.symm different]⟩

theorem sound_commit (sound : Sound apply state) : Sound apply (state.commit thread) := by
  have stays : ∀ table id, state.locks table id ≠ some thread →
      (state.commit thread).store table id = state.store table id := commit_unlocked sound
  revert stays
  unfold State.commit
  split
  · exact fun _ => sound
  · rename_i txn opened
    intro stays
    refine ⟨?_, ?_, ?_, ?_, ?_⟩
    · intro holder table id held
      obtain ⟨kept, different⟩ := release_subset holder table id held
      simpa [Function.update_of_ne different] using sound.owned holder table id kept
    · intro holder current table id present written
      by_cases same : holder = thread
      · simp [same] at present
      · simp only [Function.update_of_ne same] at present
        exact (release_other same table id).mpr
          (sound.covered holder current table id present written)
    · intro holder current present entry member
      by_cases same : holder = thread
      · simp [same] at present
      · simp only [Function.update_of_ne same] at present
        exact (release_other same _ _).mpr (sound.listed holder current present entry member)
    · intro holder current present
      by_cases same : holder = thread
      · simp [same] at present
      · simp only [Function.update_of_ne same] at present
        have before := sound.faithful holder current present
        funext table id
        by_cases mine : state.locks table id = some holder
        · have unchanged := stays table id (by simp [mine, same])
          rw [replay_local apply current.acts _ state.store table id unchanged,
            ← congrFun (congrFun before table) id]
          simp only [overlay] at unchanged ⊢
          rw [unchanged]
        · have bare : current.rows table id = none := by
            by_contra version
            exact mine (sound.covered holder current table id present
              (Option.isSome_iff_ne_none.mpr version))
          rw [replay_untouched apply current.acts _ table id]
          · simp [overlay, bare]
          · rintro entry member ⟨rfl, rfl⟩
            exact mine (sound.listed holder current present entry member)
    · intro table id beyond
      obtain ⟨empty, free⟩ := sound.unused table id beyond
      refine ⟨(stays table id (by simp [free])).trans empty, ?_⟩
      simp [State.release, free]

end Steps

/-! What a thread sees of a row: its own version, or else the committed one. -/
section Views
variable {Table : Type} {Row Act : Table → Type} {state after : State Row Act} {thread other : Nat}

/-- The version that the thread's open transaction has written, if any. -/
def State.version (state : State Row Act) (thread : Nat) (table : Table) (id : Nat) :
    Option (Option (Row table)) :=
  (state.txns thread).bind fun txn => txn.rows table id

theorem view_eq (table : Table) (id : Nat) : state.view thread table id =
    (state.version thread table id).getD (state.store table id) := by
  cases opened : state.txns thread <;> simp [State.view, State.version, overlay, opened]

theorem version_outside (outside : state.txns thread = none) (table : Table) (id : Nat) :
    state.version thread table id = none := by
  simp [State.version, outside]

theorem version_same (same : after.txns thread = state.txns thread) :
    after.version thread = state.version thread := by
  simp [funext_iff, State.version, same]

theorem view_same (same : after.txns thread = state.txns thread)
    (store : after.store = state.store) : after.view thread = state.view thread := by
  simp only [State.view, same, store]

theorem version_begin (now : Int) :
    (state.begin other now).version thread = state.version thread := by
  funext table id
  by_cases same : thread = other
  · subst same
    cases opened : state.txns thread <;> simp [State.begin, State.version, opened]
  · exact congrFun (congrFun (version_same (begin_undisturbed same now).txn) table) id

theorem store_begin (now : Int) : (state.begin other now).store = state.store := by
  unfold State.begin
  split <;> rfl

theorem store_commit : (state.commit thread).store = state.view thread := by
  unfold State.commit State.view
  split <;> rfl

variable [DecidableEq Table]
variable {apply : (table : Table) → Act table → Option (Row table) → Option (Row table)}

theorem version_locked (sound : Sound apply state) {table : Table} {id : Nat}
    (version : (state.version thread table id).isSome) : state.locks table id = some thread := by
  cases opened : state.txns thread with
  | none => simp [State.version, opened] at version
  | some txn =>
      refine sound.covered thread txn table id opened ?_
      simpa [State.version, opened] using version

theorem view_locked (sound : Sound apply state) {table : Table} {id : Nat}
    (held : state.locks table id ≠ some thread) :
    state.view thread table id = state.store table id := by
  rw [view_eq]
  cases version : state.version thread table id with
  | none => rfl
  | some row => exact absurd (version_locked sound (by simp [version])) held

/-! Rows beyond the counter of their table are nowhere. -/

theorem version_bound (sound : Sound apply state) {table : Table} {id : Nat}
    (version : (state.version thread table id).isSome) : id < state.next table := by
  by_contra beyond
  have free := (sound.unused table id (Nat.le_of_not_lt beyond)).2
  rw [version_locked sound version] at free
  cases free

theorem view_bound (sound : Sound apply state) {table : Table} {id : Nat}
    (present : (state.view thread table id).isSome) : id < state.next table := by
  by_contra beyond
  obtain ⟨absent, free⟩ := sound.unused table id (Nat.le_of_not_lt beyond)
  rw [view_locked sound (by simp [free]), absent] at present
  cases present

theorem write_open {entry : Entry Act} (written : state.write apply thread entry = some after) :
    (state.txns thread).isSome ∧
      (state.locks entry.table entry.id = none ∨
        state.locks entry.table entry.id = some thread) := by
  obtain ⟨held, txn, granted, _⟩ := write_cases written
  obtain ⟨opened, _, lock⟩ := acquire_cases granted
  refine ⟨opened, ?_⟩
  rcases lock with ⟨mine, _⟩ | ⟨free, _⟩
  · exact Or.inr mine
  · exact Or.inl free

/-- A write gives the thread a new version of the row and changes nothing else
that anybody sees. -/
theorem version_write {entry : Entry Act} (written : state.write apply thread entry = some after) :
    after.version thread =
      put (F := fun table => Option (Option (Row table))) (state.version thread)
        entry.table entry.id
        (some (apply entry.table entry.act (state.view thread entry.table entry.id))) := by
  obtain ⟨held, txn, granted, opened, rfl⟩ := write_cases written
  obtain ⟨txns, store, _, _⟩ := acquire_same granted
  have seen : held.view thread = state.view thread := view_same (congrFun txns thread) store
  rw [txns] at opened
  funext table id
  by_cases hit : table = entry.table ∧ id = entry.id
  · obtain ⟨rfl, rfl⟩ := hit
    simp [State.version, seen]
  · simp [State.version, put_other _ _ _ _ _ _ hit, opened]

theorem view_write {entry : Entry Act} (written : state.write apply thread entry = some after) :
    after.view thread = runEntry apply (state.view thread) entry := by
  funext table id
  rw [view_eq, version_write written, (write_same written).1]
  by_cases hit : table = entry.table ∧ id = entry.id
  · obtain ⟨rfl, rfl⟩ := hit
    simp [runEntry]
  · rw [put_other _ _ _ _ _ _ hit, runEntry_other _ _ _ _ _ hit, view_eq]

omit [DecidableEq Table] in
theorem Undisturbed.view (undisturbed : Undisturbed thread state after) {table : Table} {id : Nat}
    (held : state.locks table id = some thread) :
    after.view thread table id = state.view thread table id := by
  rw [view_eq, view_eq, version_same undisturbed.txn, undisturbed.rows table id held]

/-- After somebody else's COMMIT the thread sees its own versions over what the
other one saw. -/
theorem view_commit (sound : Sound apply state) (different : thread ≠ other) (table : Table)
    (id : Nat) : (state.commit other).view thread table id =
      (state.version thread table id).getD (state.view other table id) := by
  rw [view_eq, store_commit, version_same (commit_undisturbed sound different).txn]

end Views

/-! Taking a transaction back leaves everybody else's steps as they are. -/
section TakenBack
variable {Table : Type} {Row Act : Table → Type} {state after : State Row Act} {thread gone : Nat}

theorem rollback_view (different : thread ≠ gone) :
    (state.rollback gone).view thread = state.view thread :=
  view_same (rollback_undisturbed different).txn rfl

theorem release_comm :
    (state.rollback gone).release thread = (state.rollback thread).release gone := by
  funext table id
  simp only [State.rollback, State.release]
  split_ifs <;> rfl

theorem rollback_comm :
    (state.rollback thread).rollback gone = (state.rollback gone).rollback thread := by
  have locks : (state.rollback gone).release thread = (state.rollback thread).release gone :=
    release_comm
  unfold State.rollback at locks ⊢
  simp only [State.mk.injEq, true_and, and_true]
  refine ⟨locks.symm, ?_⟩
  by_cases same : thread = gone
  · rw [same]
  · exact Function.update_comm same _ _ _

theorem rollback_twice : (state.rollback gone).rollback gone = state.rollback gone := by
  unfold State.rollback State.release
  simp only [Function.update_idem, State.mk.injEq, true_and, and_true]
  funext table id
  split_ifs <;> rfl

theorem rollback_begin (different : thread ≠ gone) (now : Int) :
    (state.begin thread now).rollback gone = (state.rollback gone).begin thread now := by
  have txn : (state.rollback gone).txns thread = state.txns thread :=
    (rollback_undisturbed different).txn
  unfold State.begin
  rw [txn]
  split
  · rfl
  · simp only [State.rollback, State.mk.injEq, true_and, and_true]
    exact ⟨rfl, Function.update_comm different _ _ _⟩

theorem begin_rollback (now : Int) :
    (state.begin gone now).rollback gone = state.rollback gone := by
  unfold State.begin
  split
  · rfl
  · simp only [State.rollback, Function.update_idem]
    rfl

theorem rollback_commit (different : thread ≠ gone) :
    (state.commit thread).rollback gone = (state.rollback gone).commit thread := by
  have txn : (state.rollback gone).txns thread = state.txns thread :=
    (rollback_undisturbed different).txn
  have locks : (state.rollback gone).release thread = (state.rollback thread).release gone :=
    release_comm
  unfold State.commit
  rw [txn]
  split
  · rfl
  · simp only [State.rollback, State.mk.injEq, true_and, and_true]
    exact ⟨locks.symm, Function.update_comm different _ _ _⟩

variable [DecidableEq Table]
variable {apply : (table : Table) → Act table → Option (Row table) → Option (Row table)}

theorem rollback_acquire (different : thread ≠ gone) {table : Table} {id : Nat}
    (granted : state.acquire thread table id = some after) :
    (state.rollback gone).acquire thread table id = some (after.rollback gone) := by
  have txn : (state.rollback gone).txns thread = state.txns thread :=
    (rollback_undisturbed different).txn
  obtain ⟨opened, bound, ⟨held, rfl⟩ | ⟨free, rfl⟩⟩ := acquire_cases granted
  · have still : (after.rollback gone).locks table id = some thread :=
      (release_other different table id).mpr held
    have below : id < (after.rollback gone).next table := bound
    simp [State.acquire, txn, opened, below, still]
  · have still : (state.rollback gone).locks table id = none := by
      simp [State.rollback, State.release, free]
    have below : id < (state.rollback gone).next table := bound
    simp only [State.acquire, txn, opened, below, still, decide_true, Bool.and_self, if_true,
      Option.some.injEq]
    simp only [State.rollback, State.mk.injEq, true_and, and_true]
    funext named key
    by_cases hit : named = table ∧ key = id
    · obtain ⟨rfl, rfl⟩ := hit
      simp [State.release, different]
    · simp only [State.release, put_other _ _ _ _ _ _ hit]

theorem acquire_rollback {table : Table} {id : Nat}
    (granted : state.acquire gone table id = some after) :
    after.rollback gone = state.rollback gone := by
  obtain ⟨_, _, ⟨_, rfl⟩ | ⟨free, rfl⟩⟩ := acquire_cases granted
  · rfl
  · simp only [State.rollback, State.mk.injEq, true_and, and_true]
    funext named key
    by_cases hit : named = table ∧ key = id
    · obtain ⟨rfl, rfl⟩ := hit
      simp [State.release, free]
    · simp only [State.release, put_other _ _ _ _ _ _ hit]

theorem rollback_write (different : thread ≠ gone) {entry : Entry Act}
    (written : state.write apply thread entry = some after) :
    (state.rollback gone).write apply thread entry = some (after.rollback gone) := by
  obtain ⟨held, txn, granted, opened, rfl⟩ := write_cases written
  have same : (held.rollback gone).txns thread = some txn :=
    (rollback_undisturbed different).txn.trans opened
  rw [State.write, rollback_acquire different granted, Option.bind_some, same, Option.map_some,
    rollback_view different]
  simp only [State.rollback, Option.some.injEq, State.mk.injEq, true_and, and_true]
  exact ⟨rfl, Function.update_comm (Ne.symm different) _ _ _⟩

theorem write_rollback {entry : Entry Act} (written : state.write apply gone entry = some after) :
    after.rollback gone = state.rollback gone := by
  obtain ⟨held, txn, granted, _, rfl⟩ := write_cases written
  rw [← acquire_rollback granted]
  simp only [State.rollback, Function.update_idem]
  rfl

end TakenBack
end RowLock
