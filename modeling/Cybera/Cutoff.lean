import Cybera.Alone

/-!
What one pass of the session manager leaves behind when nobody interrupts it and
no call fails: who is still active, who was cut off, and what happened to the
clients that OpenNDS reported.
-/

namespace Cybera

open Interleaving

/-- The device is online, or its session is too young to be closed for being offline. -/
def Stays (online : List (Text × Text)) (date : Time) (s : SessionRow) : Prop :=
  isOnline online (toLowerCase s.deviceMac) = true ∨ date - s.startedAt ≤ connectGraceMs

/-- A state that satisfies the schema, with no transaction under way. -/
structure Valid (world : World) : Prop where
  quiet : ∀ thread, world.db.txns thread = none
  unlocked : ∀ table id, world.db.locks table id = none
  numbered : ∀ table id, (world.db.store table id).isSome → id < world.db.next table
  rooted : Rooted world.db.store
  unique : ∀ table id key left right, world.db.store table id = some left →
    world.db.store table key = some right → conflicts table left right = true → id = key
  lower : ∀ id, ∀ s : SessionRow, world.db.store .sessions id = some s →
    toLowerCase s.deviceMac = s.deviceMac

/-- Some active session runs on the device, and its owner has time left. -/
def Served (rows : Store) (mac : Text) : Prop :=
  ∃ id, ∃ s : SessionRow, ∃ user : UserRow, rows .sessions id = some s ∧ s.status = .active ∧
    s.deviceMac = mac ∧ rows .users s.userId = some user ∧ 0 < user.remainingSeconds

/-- An empty ip is no ip: for it flushConntrack has nothing to flush. -/
def Flushed (commands : List NdsCommand) (ip : Text) : Prop :=
  ip = [] ∨ NdsCommand.flushConntrack ip ∈ commands

/-- The pass from `before` to `after`, which read the clock at `date`. -/
structure Enforced (before after : World) (date : Time) : Prop where
  during : before.clock ≤ date ∧ date ≤ after.clock
  /-- no active session belongs to an exhausted account -/
  paid : ∀ id, ∀ s : SessionRow, ∀ user : UserRow, after.db.store .sessions id = some s →
    s.status = .active → after.db.store .users s.userId = some user → 0 < user.remainingSeconds
  /-- the sessions of an exhausted account are ended, and deauthorised unless they vanished -/
  cut : ∀ id, ∀ s : SessionRow, ∀ user : UserRow, before.db.store .sessions id = some s →
    s.status = .active → after.db.store .users s.userId = some user → user.remainingSeconds ≤ 0 →
      (∃ s' : SessionRow, after.db.store .sessions id = some s' ∧ s'.status = .ended) ∧
        (NdsCommand.deauth s.deviceMac ∈ issued before after ∨
          ¬ Stays (authedClients before.clients) date s)
  /-- an active session is online or young -/
  present : ∀ id, ∀ s : SessionRow, after.db.store .sessions id = some s → s.status = .active →
    Stays (authedClients before.clients) date s
  /-- a reported client is served and left alone, or deauthorised and flushed -/
  either : ∀ mac ip, (mac, ip) ∈ authedClients before.clients →
    Xor (Served after.db.store mac ∧ NdsCommand.deauth mac ∉ issued before after)
      (NdsCommand.deauth mac ∈ issued before after ∧ Flushed (issued before after) ip)

section Rows
variable {rows : Store} {table : TableName} {id : Nat} {now : Time}

theorem alter_isSome (op : Op table) (other : TableName) (key : Nat) :
    (RowLock.runEntry Act.run rows (alter table id op now) other key).isSome =
      (rows other key).isSome := by
  by_cases hit : other = table ∧ key = id
  · obtain ⟨rfl, rfl⟩ := hit
    rw [alter_same, Option.isSome_map]
  · rw [RowLock.runEntry_other _ _ _ _ _ hit]

theorem rooted_alter (table : TableName) (id : Nat) (op : Op table) (rooted : Rooted rows)
    (same : ∀ row, references table (Op.run table op now row) = references table row) :
    Rooted (RowLock.runEntry Act.run rows (alter table id op now)) := by
  intro other key row present
  have before : ∃ earlier, rows other key = some earlier ∧
      references other row = references other earlier := by
    by_cases hit : other = table ∧ key = id
    · obtain ⟨rfl, rfl⟩ := hit
      rw [alter_same, Option.map_eq_some_iff] at present
      obtain ⟨earlier, found, rfl⟩ := present
      exact ⟨earlier, found, same earlier⟩
    · rw [RowLock.runEntry_other _ _ _ _ _ hit] at present
      exact ⟨row, present, rfl⟩
  obtain ⟨earlier, found, targets⟩ := before
  have linked := rooted other key earlier found
  simp only [World.resolves, targets, alter_isSome] at linked ⊢
  exact linked

theorem owner_exists (rooted : Rooted rows) {s : SessionRow}
    (present : rows .sessions id = some s) :
    ∃ user : UserRow, rows .users s.userId = some user := by
  have linked := rooted .sessions id s present
  simp only [World.resolves, references, List.all_cons, List.all_nil, Bool.and_true] at linked
  exact Option.isSome_iff_exists.mp linked

theorem rooted_linked {op : Op table} {row : Row table} (rooted : Rooted rows)
    (present : rows table id = some row)
    (same : ∀ row, references table (Op.run table op now row) = references table row) :
    World.resolves rows table (Op.run table op now row) = true := by
  have linked := rooted table id row present
  simp only [World.resolves, same] at linked ⊢
  exact linked

end Rows

theorem session_references (op : SessionOp) (now : Time) (s : SessionRow) :
    references .sessions (Op.run .sessions op now s) = references .sessions s := by
  cases op <;> rfl

theorem user_references (op : UserOp) (now : Time) (user : UserRow) :
    references .users (Op.run .users op now user) = references .users user := rfl

theorem device_references (op : DeviceOp) (now : Time) (device : DeviceRow) :
    references .devices (Op.run .devices op now device) = references .devices device := by
  cases op <;> rfl

/-- The session of one round, after it; the other sessions are as they were. -/
structure Round (online : List (Text × Text)) (date : Time) (id : Nat) (rows rows' : Store) :
    Prop where
  rooted : Rooted rows'
  others : ∀ key, key ≠ id → rows' .sessions key = rows .sessions key
  settled : ∀ s : SessionRow, rows .sessions id = some s → ∃ s' : SessionRow,
    rows' .sessions id = some s' ∧ Same .sessions s s' ∧
      (Stays online date s ∧ s'.status = s.status ∨
        ¬ Stays online date s ∧ s'.status = .ended)

section Pass
variable {config : Config} {thread : Nat} {first world : World} {now date : Time}
  {rows : Store} {commands : List NdsCommand} {online : List (Text × Text)}

theorem finishSession_alone {id : Nat} {s : SessionRow} (rooted : Rooted rows)
    (solo : Solo thread first (some now) rows commands world)
    (present : rows .sessions id = some s) :
    Alone config thread (fun _ after => Solo thread first (some now)
        (RowLock.runEntry Act.run rows (alter .sessions id (.finish .ended) now)) commands after)
      (finishSession id) world := by
  refine surely_bind _ _ _ (alone_update solo s present
    (rooted_linked rooted present (session_references _ _))) ?_
  intro _ after solo'
  exact solo'

theorem touchDevice_alone {userId : Nat} {mac : Text} (rooted : Rooted rows)
    (solo : Solo thread first (some now) rows commands world) :
    Alone config thread (fun _ after => ∃ rows', Solo thread first (some now) rows' commands after ∧
        Rooted rows' ∧ rows' .sessions = rows .sessions)
      (touchDevice userId mac) world := by
  refine surely_bind _ _ _ (alone_query solo (.deviceOf userId mac)) ?_
  rintro found w1 ⟨solo1, view, answered, shows⟩
  cases found with
  | none => exact ⟨rows, solo1, rooted, rfl⟩
  | some id =>
      have present : ∃ device : DeviceRow, rows .devices id = some device := by
        simp only [Query.eval] at answered
        obtain ⟨⟨key, device⟩, head, same⟩ := Option.map_eq_some_iff.mp answered.symm
        obtain rfl : key = id := same
        exact ⟨device, shows.same ▸ (mem_scan.mp (List.mem_of_mem_head? head)).2.1⟩
      obtain ⟨device, present⟩ := present
      refine surely_bind _ _ _ (alone_update solo1 device present
        (rooted_linked rooted present (device_references _ _))) ?_
      intro _ w2 solo2
      refine ⟨_, solo2, rooted_alter .devices id .seen rooted (device_references _ _), ?_⟩
      funext key
      simp

theorem round_idle {id : Nat} (rooted : Rooted rows)
    (stays : ∀ s : SessionRow, rows .sessions id = some s → Stays online date s) :
    Round online date id rows rows :=
  ⟨rooted, fun _ _ => rfl, fun s present =>
    ⟨s, present, same_refl .sessions s, Or.inl ⟨stays s present, rfl⟩⟩⟩

theorem settle_alone (item : Nat × SessionRow) {s : SessionRow} (rooted : Rooted rows)
    (solo : Solo thread first (some now) rows commands world)
    (present : rows .sessions item.1 = some s) (same : Same .sessions item.2 s) :
    Alone config thread (fun _ after => ∃ rows', Solo thread first (some now) rows' commands after ∧
        Round online date item.1 rows rows')
      (settle online date item) world := by
  obtain ⟨id, read⟩ := item
  obtain ⟨owner, mac, startedAt⟩ : s.userId = read.userId ∧ s.deviceMac = read.deviceMac ∧
    s.startedAt = read.startedAt := same
  have only : ∀ s' : SessionRow, rows .sessions id = some s' → s' = s := by
    intro s' found
    rw [present, Option.some.injEq] at found
    exact found.symm
  unfold settle
  simp only
  split
  · rename_i reported
    have stays : Stays online date s := Or.inl (mac ▸ reported)
    split
    · refine surely_bind _ _ _ (alone_update solo s present
        (rooted_linked rooted present (session_references _ _))) ?_
      intro _ w1 solo1
      have rooted1 := rooted_alter .sessions id (.settle (elapsedSeconds date read.lastTick))
        rooted (session_references _ now)
      obtain ⟨user, account⟩ := owner_exists rooted present
      rw [owner] at account
      refine surely_bind _ _ _ (alone_update solo1 user (by simpa using account)
        (rooted_linked rooted1 (by simpa using account) (user_references _ _))) ?_
      intro _ w2 solo2
      have rooted2 := rooted_alter .users read.userId
        (.charge (elapsedSeconds date read.lastTick) id) rooted1 (user_references _ now)
      refine surely_mono ?_ _ _ (touchDevice_alone rooted2 solo2)
      rintro (_ | _) w3 reached
      · exact reached
      obtain ⟨rows3, solo3, rooted3, sessions⟩ := reached
      refine ⟨rows3, solo3, rooted3, ?_, ?_⟩
      · intro key different
        rw [sessions]
        simp [different]
      · intro s' found
        obtain rfl := only s' found
        refine ⟨SessionOp.run now (.settle (elapsedSeconds date read.lastTick)) s', ?_,
          op_same .sessions _ _ _, Or.inl ⟨stays, rfl⟩⟩
        rw [sessions]
        simp only [alter_table, ne_eq, reduceCtorEq, not_false_eq_true, alter_same, present]
        rfl
    · exact ⟨rows, solo, round_idle rooted fun s' found => only s' found ▸ stays⟩
  · rename_i offline
    rw [← mac] at offline
    split
    · rename_i late
      rw [← startedAt] at late
      refine surely_mono ?_ _ _ (finishSession_alone rooted solo present)
      rintro (_ | _) w1 reached
      · exact reached
      refine ⟨_, reached, rooted_alter .sessions id (.finish .ended) rooted
        (session_references _ _), ?_, ?_⟩
      · intro key different
        simp [different]
      · intro s' found
        obtain rfl := only s' found
        refine ⟨SessionOp.run now (.finish .ended) s', ?_, op_same .sessions _ _ _,
          Or.inr ⟨?_, rfl⟩⟩
        · rw [alter_same, present]
          rfl
        · rintro (reported | young)
          · exact offline reported
          · exact absurd late (not_lt.mpr young)
    · rename_i young
      rw [← startedAt] at young
      refine ⟨rows, solo, round_idle rooted fun s' found => ?_⟩
      exact only s' found ▸ Or.inr (not_lt.mp young)

theorem settlementRows_mem {view : View} (shows : view.Shows rows) (rooted : Rooted rows)
    {id userId : Nat} : (id, userId) ∈ Query.settlementRows.eval view ↔
      ∃ s : SessionRow, rows .sessions id = some s ∧ s.status = .active ∧ s.userId = userId := by
  simp only [Query.eval, List.mem_insertionSort, List.mem_map, Prod.mk.injEq]
  constructor
  · rintro ⟨⟨key, s⟩, scanned, rfl, rfl⟩
    obtain ⟨_, present, kept⟩ := mem_scan.mp scanned
    rw [Bool.and_eq_true, beq_iff_eq] at kept
    exact ⟨s, shows.same ▸ present, kept.1, rfl⟩
  · rintro ⟨s, present, active, rfl⟩
    obtain ⟨user, owner⟩ := owner_exists rooted present
    refine ⟨(id, s), mem_scan.mpr ⟨shows.numbered .sessions id (by rw [present]; rfl), ?_, ?_⟩,
      rfl, rfl⟩
    · rw [shows.same, present]
    · rw [Bool.and_eq_true, beq_iff_eq, shows.same, owner]
      exact ⟨active, rfl⟩

/-- What the locking SELECT still has to visit, and what it has kept. -/
structure Visiting (rows : Store) (rest : List (Nat × Nat)) (kept : List (Nat × SessionRow)) :
    Prop where
  ahead : ∀ item ∈ rest, ∃ s : SessionRow,
    rows .sessions item.1 = some s ∧ s.status = .active ∧ s.userId = item.2
  visited : ∀ found ∈ kept, rows .sessions found.1 = some found.2 ∧ found.2.status = .active
  covered : ∀ id, ∀ s : SessionRow, rows .sessions id = some s → s.status = .active →
    (id, s) ∈ kept ∨ ∃ userId, (id, userId) ∈ rest

theorem lockSettlementRows_alone (rooted : Rooted rows)
    (solo : Solo thread first (some now) rows commands world) :
    Alone config thread (fun found after => Solo thread first (some now) rows commands after ∧
        Visiting rows [] found) lockSettlementRows world := by
  refine surely_bind _ _ _ (alone_query solo .settlementRows) ?_
  rintro items w1 ⟨solo1, view, rfl, shows⟩
  have entry : Visiting rows (Query.settlementRows.eval view) [] := by
    constructor
    · intro item member
      exact (settlementRows_mem shows rooted).mp member
    · simp
    · intro id s present active
      exact Or.inr ⟨s.userId, (settlementRows_mem shows rooted).mpr ⟨s, present, active, rfl⟩⟩
  refine surely_mono ?_ _ _ (surely_collect (fun _ _ => False)
    (fun rest kept after => Solo thread first (some now) rows commands after ∧
      Visiting rows rest kept) _ ?_ _ [] w1 ⟨solo1, entry⟩)
  · rintro (_ | found) after reached
    · exact reached
    · exact reached
  rintro ⟨id, userId⟩ rest kept w2 ⟨solo2, visiting⟩
  obtain ⟨s, present, active, rfl⟩ := visiting.ahead (id, userId) (by simp)
  obtain ⟨user, owner⟩ := owner_exists rooted present
  refine surely_bind _ _ _ (alone_lock solo2 s present) ?_
  rintro _ w3 ⟨rfl, solo3⟩
  refine surely_bind _ _ _ (alone_lock solo3 user owner) ?_
  rintro _ w4 ⟨_, solo4⟩
  refine ⟨solo4, ?_, ?_, ?_⟩
  · exact fun item member => visiting.ahead item (List.mem_cons_of_mem _ member)
  · intro found member
    rcases List.mem_append.mp member with earlier | latest
    · exact visiting.visited found earlier
    · simp only [Option.filter, active, beq_self_eq_true, if_true, Option.map_some,
        Option.toList_some, List.mem_singleton] at latest
      subst latest
      exact ⟨present, active⟩
  · intro key other present' active'
    rcases visiting.covered key other present' active' with earlier | ⟨owner', listed⟩
    · exact Or.inl (List.mem_append_left _ earlier)
    · rcases List.mem_cons.mp listed with here | later
      · left
        cases here
        rw [present, Option.some.injEq] at present'
        subst present'
        simp [Option.filter, active]
      · exact Or.inr ⟨owner', later⟩

/-- The settlement so far: what has become of the rows of `start`, with the
rounds of `rest` still to come. -/
structure Swept (online : List (Text × Text)) (date : Time) (start : Store)
    (rest : List (Nat × SessionRow)) (rows : Store) : Prop where
  rooted : Rooted rows
  ahead : ∀ item ∈ rest, start .sessions item.1 = some item.2
  kept : ∀ id, ∀ s : SessionRow, start .sessions id = some s → ∃ s' : SessionRow,
    rows .sessions id = some s' ∧ Same .sessions s s' ∧
      (s'.status = s.status ∨ ¬ Stays online date s ∧ s'.status = .ended)
  absent : ∀ id, start .sessions id = none → rows .sessions id = none
  due : ∀ id, ∀ s : SessionRow, rows .sessions id = some s → s.status = .active →
    (∃ read, (id, read) ∈ rest) ∨ Stays online date s

theorem stays_same {s s' : SessionRow} (same : Same .sessions s s') :
    Stays online date s' ↔ Stays online date s := by
  obtain ⟨_, mac, startedAt⟩ : s'.userId = s.userId ∧ s'.deviceMac = s.deviceMac ∧
    s'.startedAt = s.startedAt := same
  rw [Stays, Stays, mac, startedAt]

theorem swept_round {start rows rows' : Store} {item : Nat × SessionRow}
    {rest : List (Nat × SessionRow)} (swept : Swept online date start (item :: rest) rows)
    (round : Round online date item.1 rows rows') : Swept online date start rest rows' := by
  have here := swept.ahead item (by simp)
  constructor
  · exact round.rooted
  · exact fun other member => swept.ahead other (List.mem_cons_of_mem _ member)
  · intro id s present
    obtain ⟨middle, found, same, status⟩ := swept.kept id s present
    by_cases hit : id = item.1
    · subst hit
      obtain ⟨s', found', same', settled⟩ := round.settled middle found
      refine ⟨s', found', same_trans .sessions same same', ?_⟩
      rcases settled with ⟨_, unchanged⟩ | ⟨gone, ended⟩
      · rw [unchanged]
        exact status
      · exact Or.inr ⟨fun stays => gone ((stays_same same).mpr stays), ended⟩
    · exact ⟨middle, by rw [round.others id hit, found], same, status⟩
  · intro id missing
    have different : id ≠ item.1 := by
      rintro rfl
      rw [here] at missing
      cases missing
    rw [round.others id different]
    exact swept.absent id missing
  · intro id s found active
    by_cases hit : id = item.1
    · subst hit
      obtain ⟨before, earlier, _⟩ := swept.kept item.1 item.2 here
      obtain ⟨s', found', same, settled⟩ := round.settled before earlier
      rw [found, Option.some.injEq] at found'
      subst found'
      rcases settled with ⟨stays, _⟩ | ⟨_, ended⟩
      · exact Or.inr ((stays_same same).mpr stays)
      · rw [active] at ended
        cases ended
    · rw [round.others id hit] at found
      rcases swept.due id s found active with ⟨read, listed⟩ | stays
      · rcases List.mem_cons.mp listed with first' | later
        · exact absurd (congrArg Prod.fst first') hit
        · exact Or.inl ⟨read, later⟩
      · exact Or.inr stays

theorem settleAll_alone {found : List (Nat × SessionRow)} (rooted : Rooted rows)
    (visiting : Visiting rows [] found)
    (solo : Solo thread first (some now) rows commands world) :
    Alone config thread (fun _ after => ∃ rows', Solo thread first (some now) rows' commands after ∧
        Swept online date rows [] rows')
      (Prog.each found (settle online date)) world := by
  refine surely_each (fun rest after => ∃ rows', Solo thread first (some now) rows' commands after ∧
    Swept online date rows rest rows') _ ?_ found world ⟨rows, solo, ?_⟩
  · rintro item rest state ⟨rows', solo', swept⟩
    obtain ⟨s, present, same, _⟩ := swept.kept item.1 item.2 (swept.ahead item (by simp))
    refine surely_mono ?_ _ _ (settle_alone item swept.rooted solo' present same)
    rintro (_ | _) after reached
    · exact reached
    obtain ⟨rows'', solo'', round⟩ := reached
    exact ⟨rows'', solo'', swept_round swept round⟩
  · constructor
    · exact rooted
    · exact fun item member => (visiting.visited item member).1
    · exact fun id s present => ⟨s, present, same_refl .sessions s, Or.inl rfl⟩
    · exact fun id missing => missing
    · intro id s present active
      rcases visiting.covered id s present active with listed | ⟨_, listed⟩
      · exact Or.inl ⟨s, listed⟩
      · cases listed

/-- UPDATE by id, one after the other. -/
def endings (now : Time) (items : List (Nat × SessionRow)) : List Entry :=
  items.map fun item => alter .sessions item.1 (.finish .ended) now

theorem endings_session (now : Time) (items : List (Nat × SessionRow)) {rows : Store} {id : Nat}
    {s : SessionRow} (present : rows .sessions id = some s) :
    ∃ s' : SessionRow, replay (endings now items) rows .sessions id = some s' ∧
      Same .sessions s s' ∧ ((∃ read, (id, read) ∈ items) → s'.status = .ended) ∧
      ((∀ read, (id, read) ∉ items) → s' = s) := by
  induction items generalizing rows s with
  | nil => exact ⟨s, present, same_refl .sessions s, by simp, fun _ => rfl⟩
  | cons item rest ih =>
      by_cases hit : id = item.1
      · subst hit
        have next : RowLock.runEntry Act.run rows (alter .sessions item.1 (.finish .ended) now)
            .sessions item.1 = some (SessionOp.run now (.finish .ended) s) := by
          rw [alter_same, present]
          rfl
        obtain ⟨s', found, same, listed, unlisted⟩ := ih next
        refine ⟨s', found, same_trans .sessions (op_same .sessions _ _ _) same, ?_, ?_⟩
        · intro _
          by_cases again : ∃ read, (item.1, read) ∈ rest
          · exact listed again
          · rw [unlisted fun read member => again ⟨read, member⟩]
            rfl
        · intro none'
          exact absurd List.mem_cons_self (none' item.2)
      · have next : RowLock.runEntry Act.run rows (alter .sessions item.1 (.finish .ended) now)
            .sessions id = some s := by rw [alter_key _ _ _ _ _ _ hit, present]
        obtain ⟨s', found, same, listed, unlisted⟩ := ih next
        refine ⟨s', found, same, ?_, ?_⟩
        · rintro ⟨read, member⟩
          rcases List.mem_cons.mp member with here | later
          · exact absurd (congrArg Prod.fst here) hit
          · exact listed ⟨read, later⟩
        · exact fun none' => unlisted fun read member => none' read (List.mem_cons_of_mem _ member)

theorem endings_absent (items : List (Nat × SessionRow)) {rows : Store} {id : Nat}
    (missing : rows .sessions id = none) : replay (endings now items) rows .sessions id = none := by
  refine replay_absent rows .sessions id _ (alters_all _ _ ?_) missing
  intro entry member
  obtain ⟨item, _, rfl⟩ := List.mem_map.mp member
  exact ⟨_, _, _, _, rfl⟩

theorem endings_users (items : List (Nat × SessionRow)) (rows : Store) (id : Nat) :
    replay (endings now items) rows .users id = rows .users id := by
  apply replay_table
  intro entry member
  obtain ⟨item, _, rfl⟩ := List.mem_map.mp member
  simp [alter]

theorem endAll_alone {items : List (Nat × SessionRow)} (rooted : Rooted rows)
    (present : ∀ item ∈ items, ∃ s : SessionRow, rows .sessions item.1 = some s)
    (solo : Solo thread first (some now) rows commands world) :
    Alone config thread (fun _ after =>
        Solo thread first (some now) (replay (endings now items) rows) commands after)
      (Prog.each items fun session => finishSession session.1) world := by
  induction items generalizing rows world with
  | nil => exact solo
  | cons item rest ih =>
      obtain ⟨s, here⟩ := present item (by simp)
      refine surely_bind _ _ _ (finishSession_alone rooted solo here) ?_
      intro _ after solo'
      refine ih (rooted_alter .sessions item.1 (.finish .ended) rooted (session_references _ _))
        ?_ solo'
      intro other member
      obtain ⟨s', found⟩ := present other (List.mem_cons_of_mem _ member)
      refine Option.isSome_iff_exists.mp ?_
      rw [alter_isSome, found]
      rfl

theorem exhausted_mem {view : View} (shows : view.Shows rows) (id : Nat) (s : SessionRow) :
    (id, s) ∈ Query.exhausted.eval view ↔ rows .sessions id = some s ∧ s.status = .active ∧
      ∃ user : UserRow, rows .users s.userId = some user ∧ user.remainingSeconds ≤ 0 := by
  have owes : view.isExhausted s = true ↔ s.status = .active ∧
      ∃ user : UserRow, rows .users s.userId = some user ∧ user.remainingSeconds ≤ 0 := by
    rw [View.isExhausted, shows.same, Bool.and_eq_true, beq_iff_eq]
    cases owner : rows .users s.userId <;> simp
  constructor
  · intro scanned
    obtain ⟨_, present, kept⟩ := mem_scan.mp scanned
    exact ⟨shows.same ▸ present, owes.mp kept⟩
  · rintro ⟨present, due⟩
    refine mem_scan.mpr ⟨shows.numbered .sessions id (by rw [present]; rfl), ?_, owes.mpr due⟩
    rw [shows.same, present]

/-- What the transaction of the pass makes of `start`, closing `exhausted` at the end. -/
structure Passed (online : List (Text × Text)) (date now : Time) (start middle : Store)
    (exhausted : List (Nat × SessionRow)) : Prop where
  swept : Swept online date start [] middle
  exhausted : ∀ id s, (id, s) ∈ exhausted ↔ middle .sessions id = some s ∧ s.status = .active ∧
    ∃ user : UserRow, middle .users s.userId = some user ∧ user.remainingSeconds ≤ 0

theorem settlement_alone (rooted : Rooted rows)
    (solo : Solo thread first none rows commands world) :
    Alone config thread (fun exhausted after => ∃ date now middle, first.clock ≤ date ∧
        Passed online date now rows middle exhausted ∧
        Solo thread { first with clock := date } none (replay (endings now exhausted) middle)
          commands after)
      (settlement online) world := by
  refine surely_bind _ _ _ (alone_begin solo) ?_
  rintro _ w1 ⟨now, solo1⟩
  refine surely_bind _ _ _ (lockSettlementRows_alone rooted solo1) ?_
  rintro found w2 ⟨solo2, visiting⟩
  refine surely_bind _ _ _ (alone_dateNow solo2) ?_
  rintro date w3 ⟨solo3, began, passed⟩
  refine surely_bind _ _ _ (settleAll_alone rooted visiting (solo3.since passed)) ?_
  rintro _ w4 ⟨middle, solo4, swept⟩
  refine surely_bind _ _ _ (alone_query solo4 .exhausted) ?_
  rintro exhausted w5 ⟨solo5, view, rfl, shows⟩
  have listed := exhausted_mem shows
  refine surely_bind _ _ _ (endAll_alone swept.rooted ?_ solo5) ?_
  · rintro ⟨id, s⟩ member
    exact ⟨s, ((listed id s).mp member).1⟩
  intro _ w6 solo6
  refine surely_bind _ _ _ (alone_commit solo6) ?_
  intro _ w7 solo7
  exact ⟨date, now, middle, began, ⟨swept, listed⟩, solo7⟩

theorem deauth_alone (mac : Text) (solo : Solo thread first none rows commands world) :
    Alone config thread (fun _ after => Solo thread first none rows (commands ++
      [.deauth mac]) after) (NdsctlService.deauth mac) world :=
  alone_ndsctl (.deauth mac) () solo

theorem flush_alone (ip : Text) (solo : Solo thread first none rows commands world) :
    Alone config thread (fun _ after => ∃ more, Solo thread first none rows (commands ++ more)
        after ∧ Flushed more ip ∧ ∀ mac, NdsCommand.deauth mac ∉ more)
      (NdsctlService.flushConntrack ip) world := by
  unfold NdsctlService.flushConntrack
  split
  · rename_i empty
    refine ⟨[], by simpa using solo, Or.inl (List.isEmpty_iff.mp empty), by simp⟩
  · refine surely_mono ?_ _ _ (alone_ndsctl (.flushConntrack ip) () solo)
    rintro (_ | _) after reached
    · exact reached
    · exact ⟨[.flushConntrack ip], reached, Or.inr (by simp), by simp⟩

theorem each_alone {γ : Type} {act : γ → Program Unit} {drops : γ → Text → Prop}
    {flushes : γ → Text → Prop} (items : List γ)
    (body : ∀ item ∈ items, ∀ commands state, Solo thread first none rows commands state →
      Alone config thread (fun _ after => ∃ more,
        Solo thread first none rows (commands ++ more) after ∧
          (∀ mac, NdsCommand.deauth mac ∈ more ↔ drops item mac) ∧
          ∀ ip, flushes item ip → Flushed more ip) (act item) state)
    (solo : Solo thread first none rows commands world) :
    Alone config thread (fun _ after => ∃ more,
        Solo thread first none rows (commands ++ more) after ∧
          (∀ mac, NdsCommand.deauth mac ∈ more ↔ ∃ item ∈ items, drops item mac) ∧
          ∀ item ∈ items, ∀ ip, flushes item ip → Flushed more ip)
      (Prog.each items act) world := by
  induction items generalizing commands world with
  | nil => exact ⟨[], by simpa using solo, by simp, by simp⟩
  | cons item rest ih =>
      refine surely_bind _ _ _ (body item (by simp) commands world solo) ?_
      rintro _ w1 ⟨here, solo1, dropped, flushed⟩
      refine surely_mono ?_ _ _ (ih (fun other member => body other (List.mem_cons_of_mem _ member))
        solo1)
      rintro (_ | _) w2 reached
      · exact reached
      obtain ⟨later, solo2, dropped', flushed'⟩ := reached
      refine ⟨here ++ later, by rwa [← List.append_assoc], ?_, ?_⟩
      · intro mac
        simp [dropped, dropped']
      · intro other member ip due
        rcases List.mem_cons.mp member with rfl | listed
        · rcases flushed ip due with empty | given
          · exact Or.inl empty
          · exact Or.inr (List.mem_append_left _ given)
        · rcases flushed' other listed ip due with empty | given
          · exact Or.inl empty
          · exact Or.inr (List.mem_append_right _ given)

theorem cutOff_alone (item : Nat × SessionRow)
    (solo : Solo thread first none rows commands world) :
    Alone config thread (fun _ after => ∃ more,
        Solo thread first none rows (commands ++ more) after ∧
          (∀ mac, NdsCommand.deauth mac ∈ more ↔ mac = toLowerCase item.2.deviceMac) ∧
          ∀ ip, ip = item.2.ip → Flushed more ip) (cutOff item) world := by
  refine surely_bind _ _ _ (deauth_alone _ solo) ?_
  intro _ w1 solo1
  refine surely_bind _ _ _ (flush_alone item.2.ip solo1) ?_
  rintro _ w2 ⟨more, solo2, flushed, silent⟩
  refine surely_mono ?_ _ _ (alone_audit solo2 none "session.cutoff")
  rintro (_ | _) w3 reached
  · exact reached
  have solo3 : Solo thread first none rows
      (commands ++ [.deauth (toLowerCase item.2.deviceMac)] ++ more) w3 := reached
  refine ⟨.deauth (toLowerCase item.2.deviceMac) :: more, by simpa using solo3, ?_, ?_⟩
  · intro mac
    simp [silent]
  · rintro _ rfl
    rcases flushed with empty | given
    · exact Or.inl empty
    · exact Or.inr (List.mem_cons_of_mem _ given)

theorem cutOrphan_alone (known : List Text) (client : Text × Text)
    (solo : Solo thread first none rows commands world) :
    Alone config thread (fun _ after => ∃ more,
        Solo thread first none rows (commands ++ more) after ∧
          (∀ mac, NdsCommand.deauth mac ∈ more ↔ mac = client.1 ∧ client.1 ∉ known) ∧
          ∀ ip, ip = client.2 ∧ client.1 ∉ known → Flushed more ip)
      (cutOrphan known client) world := by
  unfold cutOrphan
  split
  · rename_i listed
    have listed' : client.1 ∈ known := by simpa using listed
    exact ⟨[], by simpa using solo, by simp [listed'], by simp [listed']⟩
  · rename_i unlisted
    have unlisted' : client.1 ∉ known := by simpa using unlisted
    refine surely_bind _ _ _ (deauth_alone _ solo) ?_
    intro _ w1 solo1
    refine surely_mono ?_ _ _ (flush_alone client.2 solo1)
    rintro (_ | _) w2 reached
    · exact reached
    obtain ⟨more, solo2, flushed, silent⟩ := reached
    refine ⟨.deauth client.1 :: more, by simpa using solo2, ?_, ?_⟩
    · intro mac
      simp [silent, unlisted']
    · rintro _ ⟨rfl, _⟩
      rcases flushed with empty | given
      · exact Or.inl empty
      · exact Or.inr (List.mem_cons_of_mem _ given)

end Pass

/-! What is left after the pass. -/
section After
variable {online : List (Text × Text)} {date now : Time} {start middle : Store}
  {exhausted : List (Nat × SessionRow)} {id : Nat} {s : SessionRow}
  (pass : Passed online date now start middle exhausted)
include pass

omit pass in
theorem active_after (found : replay (endings now exhausted) middle .sessions id = some s)
    (active : s.status = .active) :
    middle .sessions id = some s ∧ ∀ read, (id, read) ∉ exhausted := by
  cases before : middle .sessions id with
  | none =>
      rw [endings_absent exhausted before] at found
      cases found
  | some earlier =>
      obtain ⟨s', found', _, listed, unlisted⟩ := endings_session now exhausted before
      rw [found, Option.some.injEq] at found'
      subst found'
      have none' : ∀ read, (id, read) ∉ exhausted := by
        intro read member
        rw [listed ⟨read, member⟩] at active
        cases active
      exact ⟨by rw [unlisted none'], none'⟩

theorem paid_after {user : UserRow}
    (found : replay (endings now exhausted) middle .sessions id = some s)
    (active : s.status = .active)
    (owner : replay (endings now exhausted) middle .users s.userId = some user) :
    0 < user.remainingSeconds := by
  obtain ⟨before, unlisted⟩ := active_after found active
  rw [endings_users] at owner
  by_contra spent
  exact unlisted s ((pass.exhausted id s).mpr ⟨before, active, user, owner, not_lt.mp spent⟩)

theorem stays_after (found : replay (endings now exhausted) middle .sessions id = some s)
    (active : s.status = .active) : Stays online date s := by
  obtain ⟨before, _⟩ := active_after found active
  rcases pass.swept.due id s before active with ⟨_, listed⟩ | stays
  · cases listed
  · exact stays

/-- A session that was active under an exhausted account is ended, either as
exhausted or as vanished. -/
theorem ended_after {user : UserRow} (present : start .sessions id = some s)
    (active : s.status = .active)
    (owner : replay (endings now exhausted) middle .users s.userId = some user)
    (spent : user.remainingSeconds ≤ 0) :
    (∃ s' : SessionRow, replay (endings now exhausted) middle .sessions id = some s' ∧
        s'.status = .ended) ∧
      ((∃ item ∈ exhausted, item.2.deviceMac = s.deviceMac) ∨ ¬ Stays online date s) := by
  rw [endings_users] at owner
  obtain ⟨s', before, same, status⟩ := pass.swept.kept id s present
  obtain ⟨userId, mac, _⟩ : s'.userId = s.userId ∧ s'.deviceMac = s.deviceMac ∧
    s'.startedAt = s.startedAt := same
  obtain ⟨s'', found, _, listed, unlisted⟩ := endings_session now exhausted before
  rcases status with unchanged | ⟨gone, ended⟩
  · have member : (id, s') ∈ exhausted := by
      refine (pass.exhausted id s').mpr ⟨before, unchanged.trans active, user, ?_, spent⟩
      rw [userId, owner]
    exact ⟨⟨s'', found, listed ⟨s', member⟩⟩, Or.inl ⟨(id, s'), member, mac⟩⟩
  · refine ⟨⟨s'', found, ?_⟩, Or.inr gone⟩
    have unlisted' : ∀ read, (id, read) ∉ exhausted := by
      intro read member
      obtain ⟨before', active', _⟩ := (pass.exhausted id read).mp member
      rw [before, Option.some.injEq] at before'
      subst before'
      rw [active'] at ended
      cases ended
    rw [unlisted unlisted', ended]

theorem before_pass (found : middle .sessions id = some s) : ∃ s0 : SessionRow,
    start .sessions id = some s0 ∧ s0.deviceMac = s.deviceMac ∧
      (s.status = .active → s0.status = .active) := by
  cases earlier : start .sessions id with
  | none =>
      rw [pass.swept.absent id earlier] at found
      cases found
  | some s0 =>
      obtain ⟨s', found', same, status⟩ := pass.swept.kept id s0 earlier
      rw [found, Option.some.injEq] at found'
      subst found'
      obtain ⟨_, mac, _⟩ : s.userId = s0.userId ∧ s.deviceMac = s0.deviceMac ∧
        s.startedAt = s0.startedAt := same
      refine ⟨s0, rfl, mac.symm, fun active => ?_⟩
      rcases status with unchanged | ⟨_, ended⟩
      · exact unchanged.symm.trans active
      · rw [active] at ended
        cases ended

end After

section Tick
variable {config : Config} {thread : Nat} {world : World}

theorem valid_solo (valid : Valid world) :
    Solo thread world none world.db.store [] world := by
  refine ⟨⟨fun other _ => valid.quiet other, ?_, ?_, ?_, valid.numbered⟩, ⟨[], by simp⟩,
    Int.le_refl _⟩
  · intro table id holder held
    rw [valid.unlocked table id] at held
    cases held
  · simp [valid.quiet thread]
  · exact RowLock.view_outside (valid.quiet thread)

theorem known_mem {view : View} {rows : Store} (shows : view.Shows rows) {mac : Text} :
    mac ∈ (Query.stillActive.eval view).map toLowerCase ↔ ∃ id, ∃ s : SessionRow,
      rows .sessions id = some s ∧ s.status = .active ∧ toLowerCase s.deviceMac = mac := by
  simp only [Query.eval, List.map_map, List.mem_map]
  constructor
  · rintro ⟨⟨id, s⟩, scanned, rfl⟩
    obtain ⟨_, present, active⟩ := mem_scan.mp scanned
    exact ⟨id, s, shows.same ▸ present, by simpa using active, rfl⟩
  · rintro ⟨id, s, present, active, rfl⟩
    refine ⟨(id, s), mem_scan.mpr ⟨shows.numbered .sessions id (by rw [present]; rfl), ?_, ?_⟩, rfl⟩
    · rw [shows.same, present]
    · simpa using active

theorem one_device (valid : Valid world) {online : List (Text × Text)} {date now : Time}
    {middle : Store} {exhausted : List (Nat × SessionRow)} {id key : Nat} {s other : SessionRow}
    (pass : Passed online date now world.db.store middle exhausted)
    (present : middle .sessions id = some s) (active : s.status = .active)
    (present' : middle .sessions key = some other) (active' : other.status = .active)
    (same : s.deviceMac = other.deviceMac) : id = key := by
  obtain ⟨s0, found, mac, open'⟩ := before_pass pass present
  obtain ⟨s1, found', mac', open''⟩ := before_pass pass present'
  refine valid.unique .sessions id key s0 s1 found found' ?_
  simp [conflicts, open' active, open'' active', mac, mac', same]

/-- Where the pass stands when the exhausted accounts have been cut off. -/
structure CutOff (thread : Nat) (first : World) (date now : Time) (middle : Store)
    (exhausted : List (Nat × SessionRow)) (commands : List NdsCommand) (after : World) : Prop where
  began : first.clock ≤ date
  pass : Passed (authedClients first.clients) date now first.db.store middle exhausted
  solo : Solo thread { first with clock := date } none (replay (endings now exhausted) middle)
    commands after
  dropped : ∀ mac, NdsCommand.deauth mac ∈ commands ↔
    ∃ item ∈ exhausted, mac = toLowerCase item.2.deviceMac

theorem cutOffs_alone {w1 : World} (valid : Valid world) (handler : Failure → Program Unit)
    (solo : Solo thread world none world.db.store [.json] w1) :
    Alone config thread (fun _ after => ∃ date now middle exhausted commands,
        CutOff thread world date now middle exhausted commands after)
      ((do
        let exhausted ← settlement (authedClients world.clients)
        Prog.each exhausted cutOff : Program Unit).rescue handler) w1 := by
  apply surely_rescue
  have inner : Alone config thread (fun _ after => ∃ date now middle exhausted commands,
      CutOff thread world date now middle exhausted commands after)
      (do
        let exhausted ← settlement (authedClients world.clients)
        Prog.each exhausted cutOff : Program Unit) w1 := by
    refine surely_bind _ _ _ (settlement_alone valid.rooted solo) ?_
    rintro exhausted w2 ⟨date, now, middle, began, pass, solo2⟩
    refine surely_mono ?_ _ _ (each_alone exhausted
      (fun item _ _ _ solo => cutOff_alone item solo) solo2)
    rintro (_ | _) w3 reached
    · exact reached
    obtain ⟨more, solo3, dropped, _⟩ := reached
    exact ⟨date, now, middle, exhausted, [.json] ++ more, began, pass, solo3, by simp [dropped]⟩
  refine surely_mono ?_ _ _ inner
  rintro (_ | _) after reached
  · exact absurd reached id
  · exact reached

theorem enforced_of_cutOff (valid : Valid world) {date now : Time} {middle : Store}
    {exhausted : List (Nat × SessionRow)} {commands more : List NdsCommand} {known : List Text}
    {before after : World} (cut : CutOff thread world date now middle exhausted commands before)
    (solo : Solo thread { world with clock := date } none (replay (endings now exhausted) middle)
      (commands ++ more) after)
    (listed : ∀ mac, mac ∈ known ↔ ∃ id, ∃ s : SessionRow,
      replay (endings now exhausted) middle .sessions id = some s ∧ s.status = .active ∧
        toLowerCase s.deviceMac = mac)
    (dropped : ∀ mac, NdsCommand.deauth mac ∈ more ↔
      ∃ client ∈ authedClients world.clients, mac = client.1 ∧ client.1 ∉ known)
    (flushed : ∀ client ∈ authedClients world.clients, ∀ ip,
      ip = client.2 ∧ client.1 ∉ known → Flushed more ip) : Enforced world after date := by
  have pass := cut.pass
  have rows : after.db.store = replay (endings now exhausted) middle := solo.store
  have orders : issued world after = commands ++ more := solo.issued
  have lower : ∀ {id : Nat} {s : SessionRow}, middle .sessions id = some s →
      toLowerCase s.deviceMac = s.deviceMac := by
    intro id s found
    obtain ⟨s0, present, mac, _⟩ := before_pass pass found
    rw [← mac]
    exact valid.lower id s0 present
  constructor
  · exact ⟨cut.began, solo.clock⟩
  · intro id s user found active owner
    rw [rows] at found owner
    exact paid_after pass found active owner
  · intro id s user present active owner spent
    rw [rows] at owner
    obtain ⟨ended, reason⟩ := ended_after pass present active owner spent
    refine ⟨rows ▸ ended, ?_⟩
    rcases reason with ⟨item, member, mac⟩ | gone
    · left
      rw [orders]
      refine List.mem_append_left _ ((cut.dropped _).mpr ⟨item, member, ?_⟩)
      rw [mac, valid.lower id s present]
    · exact Or.inr gone
  · intro id s found active
    rw [rows] at found
    exact stays_after pass found active
  · intro mac ip reported
    rw [rows, orders]
    by_cases served : mac ∈ known
    · obtain ⟨id, s, found, active, same⟩ := (listed mac).mp served
      obtain ⟨inside, unlisted⟩ := active_after found active
      rw [lower inside] at same
      obtain ⟨user, owner⟩ := owner_exists pass.swept.rooted inside
      have kept : replay (endings now exhausted) middle .users s.userId = some user := by
        rw [endings_users, owner]
      have spared : NdsCommand.deauth mac ∉ commands ++ more := by
        intro ordered
        rcases List.mem_append.mp ordered with earlier | later
        · obtain ⟨⟨key, other⟩, member, mac'⟩ := (cut.dropped mac).mp earlier
          obtain ⟨inside', active', _⟩ := (pass.exhausted key other).mp member
          rw [lower inside'] at mac'
          have one := one_device valid pass inside active inside' active' (same.trans mac')
          exact unlisted other (one ▸ member)
        · obtain ⟨client, _, rfl, unknown⟩ := (dropped mac).mp later
          exact unknown served
      have paid := paid_after pass found active kept
      exact Or.inl ⟨⟨⟨id, s, user, found, active, same, kept, paid⟩, spared⟩,
        fun refused => spared refused.1⟩
    · have refused : NdsCommand.deauth mac ∈ commands ++ more :=
        List.mem_append_right _ ((dropped mac).mpr ⟨(mac, ip), reported, rfl, served⟩)
      refine Or.inr ⟨⟨refused, ?_⟩, fun spared => spared.2 refused⟩
      rcases flushed (mac, ip) reported ip ⟨rfl, served⟩ with empty | given
      · exact Or.inl empty
      · exact Or.inr (List.mem_append_right _ given)

theorem tick_alone (config : Config) (valid : Valid world) :
    Alone config thread (fun reply after => reply = .ok ∧ ∃ date, Enforced world after date)
      SessionManager.tick world := by
  refine surely_bind _ _ _ (alone_json (valid_solo valid)) ?_
  rintro _ w1 ⟨rfl, solo1⟩
  refine surely_bind _ _ _ (cutOffs_alone valid _ solo1) ?_
  rintro _ w2 ⟨date, now, middle, exhausted, commands, cut⟩
  refine surely_bind _ _ _ (alone_query cut.solo .stillActive) ?_
  rintro _ w3 ⟨solo3, view, rfl, shows⟩
  refine surely_bind _ _ _ (each_alone (authedClients world.clients)
    (fun client _ _ _ solo => cutOrphan_alone _ client solo) solo3) ?_
  rintro _ w4 ⟨more, solo4, dropped, flushed⟩
  exact ⟨rfl, date, enforced_of_cutOff valid cut solo4 (fun mac => known_mem shows) dropped flushed⟩

/-- A pass that nobody interrupts and none of whose calls fails ends, and
enforces the cutoff completely and only where it is due. -/
theorem tick_enforces (config : Config) (pool : ServerPool) (valid : Valid pool.state)
    (choices : Nat → Choice) (works : ∀ n, (choices n).Works) :
    ∃ count final date, run (server config) pool (.start .tick ::
        (List.range count).map fun n => .advance pool.threads.length (choices n)) = some final ∧
      final.threads[pool.threads.length]? = some (some (.done .ok)) ∧
      Enforced pool.state final.state date := by
  have started' : Valid (pool.state.start .tick) :=
    ⟨valid.quiet, valid.unlocked, valid.numbered, valid.rooted, valid.unique, valid.lower⟩
  obtain ⟨count, final, ran, outcome, answered, reached⟩ := call_run .tick pool
    (tick_alone config started') choices works
  cases outcome with
  | error _ => exact absurd reached id
  | ok reply =>
      obtain ⟨rfl, date, enforced⟩ := reached
      refine ⟨count, final, date, ran, answerOf_ok answered, ?_⟩
      exact ⟨enforced.during, enforced.paid, enforced.cut, enforced.present, enforced.either⟩

end Tick

/-- The guest has ten seconds left for a phone that has been online for 100 and
a tablet that connected ten seconds ago. -/
def lastSeconds : UserRow where
  username := guest.username
  passwordHash := []
  role := .customer
  remainingSeconds := 10
  deviceLimit := 2
  limitPositive := by decide

def twoDevices : Store
  | .users, 2 => some lastSeconds
  | .sessions, 1 => some (newSession 2 phoneMac phoneIp ['h'] 0)
  | .sessions, 2 => some (newSession 2 tabletMac phoneIp ['h'] 90000)
  | _, _ => none

/-- OpenNDS reports the phone, and a stranger that has no session. -/
def crowded : World where
  db := { emptyDatabase with store := twoDevices, next := fun _ => 3 }
  clock := 100000
  clients := [(phoneMac, ⟨some phoneMac, some phoneIp, some authenticated⟩),
    (['s'], ⟨none, none, some authenticated⟩)]
  arrivals := []
  hist := []

inductive OfTwoDevices : (table : TableName) → Nat → Row table → Prop where
  | guest : OfTwoDevices .users 2 lastSeconds
  | phone : OfTwoDevices .sessions 1 (newSession 2 phoneMac phoneIp ['h'] 0)
  | tablet : OfTwoDevices .sessions 2 (newSession 2 tabletMac phoneIp ['h'] 90000)

theorem twoDevices_cases {table : TableName} {id : Nat} {row : Row table}
    (present : twoDevices table id = some row) : OfTwoDevices table id row := by
  unfold twoDevices at present
  split at present
  · cases present
    exact .guest
  · cases present
    exact .phone
  · cases present
    exact .tablet
  · cases present

theorem crowded_valid : Valid crowded := by
  constructor
  · exact fun _ => rfl
  · exact fun _ _ => rfl
  · intro table id present
    obtain ⟨row, found⟩ := Option.isSome_iff_exists.mp present
    have bound : id < 3 := by cases twoDevices_cases found <;> decide
    exact bound
  · intro table id row found
    cases twoDevices_cases found <;> decide
  · intro table id key left right found found' clash
    cases twoDevices_cases found with
    | guest =>
        cases twoDevices_cases found'
        rfl
    | phone =>
        cases twoDevices_cases found' with
        | phone => rfl
        | tablet => exact absurd clash (by decide)
    | tablet =>
        cases twoDevices_cases found' with
        | phone => exact absurd clash (by decide)
        | tablet => rfl
  · intro id s found
    cases twoDevices_cases found <;> decide

theorem tick_enforces_crowded : ∃ count final date,
    run (server shop) ⟨crowded, []⟩ (.start .tick ::
        (List.range count).map fun _ => .advance 0 {}) = some final ∧
      final.threads[0]? = some (some (.done .ok)) ∧ Enforced crowded final.state date :=
  tick_enforces shop ⟨crowded, []⟩ crowded_valid (fun _ => {}) (fun _ => rfl)

end Cybera
