import Cybera.Balance
import Cybera.Cutoff

/-!
The settlement loop against its specification. The loop floors the balance at
zero after every row; per user this comes to one subtraction of what all the
user's online devices owe, in whatever order the rows are visited.
-/

namespace Cybera

open Interleaving

/-- What the sessions of the user whose devices are online owe together. -/
def dues (online : List (Text × Text)) (date : Time) (user : Nat)
    (sessions : List (Nat × SessionRow)) : Nat :=
  ((sessions.filter fun s => s.2.userId == user && isOnline online (toLowerCase s.2.deviceMac)).map
    fun s => elapsedSeconds date s.2.lastTick).sum

/-- A visited session after the loop. -/
def metered (online : List (Text × Text)) (date now : Time) (s : SessionRow) : SessionRow :=
  if isOnline online (toLowerCase s.deviceMac) = true then
    if elapsedSeconds date s.lastTick = 0 then s
    else { s with
      secondsConsumed := s.secondsConsumed + elapsedSeconds date s.lastTick
      lastTick := now }
  else if connectGraceMs < date - s.startedAt then
    { s with status := .ended, endedAt := some now }
  else s

/-- The rows show the sessions, each listed once, and no balance is negative. -/
structure Billable (sessions : List (Nat × SessionRow)) (rows : Store) : Prop where
  once : (sessions.map Prod.fst).Nodup
  listed : ∀ s ∈ sessions, rows .sessions s.1 = some s.2
  owned : ∀ s ∈ sessions, (rows .users s.2.userId).isSome
  solvent : ∀ id, ∀ user : UserRow, rows .users id = some user → 0 ≤ user.remainingSeconds

/-- The specification of the loop. -/
structure BilledPerUser (online : List (Text × Text)) (date now : Time)
    (sessions : List (Nat × SessionRow)) (before after : Store) : Prop where
  balance : ∀ id, ∀ user : UserRow, before .users id = some user → after .users id =
    some { user with
    remainingSeconds := max 0 (user.remainingSeconds - dues online date id sessions) }
  lower : ∀ id, balanceOf after id ≤ balanceOf before id
  spared : ∀ id, (∀ s ∈ sessions, s.2.userId = id →
    isOnline online (toLowerCase s.2.deviceMac) = false) → after .users id = before .users id
  visited : ∀ s ∈ sessions, after .sessions s.1 = some (metered online date now s.2)
  others : ∀ id, id ∉ sessions.map Prod.fst → after .sessions id = before .sessions id

def roundActs (online : List (Text × Text)) (date now : Time) (s : Nat × SessionRow)
    (device : List Entry) : List Entry :=
  if isOnline online (toLowerCase s.2.deviceMac) = true then
    if elapsedSeconds date s.2.lastTick = 0 then []
    else alter .sessions s.1 (.settle (elapsedSeconds date s.2.lastTick)) now ::
      alter .users s.2.userId (.charge (elapsedSeconds date s.2.lastTick) s.1) now :: device
  else if connectGraceMs < date - s.2.startedAt then
    [alter .sessions s.1 (.finish .ended) now]
  else []

inductive LoopActs (online : List (Text × Text)) (date now : Time) :
    List (Nat × SessionRow) → List Entry → Prop where
  | done : LoopActs online date now [] []
  | round {s : Nat × SessionRow} {rest : List (Nat × SessionRow)} {device acts : List Entry}
      (devices : OnDevices device) (onward : LoopActs online date now rest acts) :
      LoopActs online date now (s :: rest) (roundActs online date now s device ++ acts)

section Floors
variable {online : List (Text × Text)} {date now : Time} {user : Nat}

theorem dues_cons (s : Nat × SessionRow) (rest : List (Nat × SessionRow)) :
    dues online date user (s :: rest) = dues online date user [s] + dues online date user rest := by
  simp only [dues, List.filter_cons, List.filter_nil]
  split <;> simp

theorem dues_single (s : Nat × SessionRow) : dues online date user [s] =
    if s.2.userId = user ∧ isOnline online (toLowerCase s.2.deviceMac) = true then
      elapsedSeconds date s.2.lastTick
    else 0 := by
  simp only [dues, List.filter_cons, List.filter_nil, Bool.and_eq_true, beq_iff_eq]
  split <;> simp

theorem floor_floor (balance : Int) (first second : Nat) :
    max 0 (max 0 (balance - first) - second) = max 0 (balance - (first + second : Nat)) := by
  omega

theorem floor_nothing {balance : Int} (solvent : 0 ≤ balance) :
    max 0 (balance - (0 : Nat)) = balance := by
  omega

end Floors

section Rounds
variable {online : List (Text × Text)} {date now : Time} {s : Nat × SessionRow}
  {rest : List (Nat × SessionRow)} {device : List Entry} {rows : Store}

theorem round_session (devices : OnDevices device) {id : Nat} (other : id ≠ s.1) :
    replay (roundActs online date now s device) rows .sessions id = rows .sessions id := by
  have aside : ∀ store : Store, replay device store .sessions id = store .sessions id :=
    fun store => replay_table store .sessions id device fun entry member => by
      simp [devices entry member]
  unfold roundActs
  split_ifs <;> simp [aside, other]

theorem round_metered (devices : OnDevices device) (listed : rows .sessions s.1 = some s.2) :
    replay (roundActs online date now s device) rows .sessions s.1 =
      some (metered online date now s.2) := by
  have aside : ∀ store : Store, replay device store .sessions s.1 = store .sessions s.1 :=
    fun store => replay_table store .sessions s.1 device fun entry member => by
      simp [devices entry member]
  unfold roundActs metered
  split_ifs <;> simp [aside, listed, Op.run, SessionOp.run]

theorem round_user (devices : OnDevices device) (id : Nat) :
    replay (roundActs online date now s device) rows .users id =
      if dues online date id [s] = 0 then rows .users id
      else (rows .users id).map (UserOp.run (.charge (dues online date id [s]) s.1)) := by
  have aside : ∀ store : Store, replay device store .users id = store .users id :=
    fun store => replay_table store .users id device fun entry member => by
      simp [devices entry member]
  rw [dues_single]
  unfold roundActs
  by_cases reported : isOnline online (toLowerCase s.2.deviceMac) = true
  · by_cases zero : elapsedSeconds date s.2.lastTick = 0
    · simp [reported, zero]
    · by_cases own : s.2.userId = id
      · subst own
        simp [reported, zero, aside]
        rfl
      · have other : id ≠ s.2.userId := fun same => own same.symm
        simp [reported, zero, aside, own, other]
  · rw [if_neg reported]
    split_ifs <;> simp_all

theorem round_billable (devices : OnDevices device) (billable : Billable (s :: rest) rows) :
    Billable rest (replay (roundActs online date now s device) rows) := by
  obtain ⟨once, listed, owned, solvent⟩ := billable
  simp only [List.map_cons, List.nodup_cons] at once
  refine ⟨once.2, ?_, ?_, ?_⟩
  · intro other member
    have apart : other.1 ≠ s.1 := by
      intro same
      exact once.1 (same ▸ List.mem_map_of_mem member)
    rw [round_session devices apart]
    exact listed other (List.mem_cons_of_mem s member)
  · intro other member
    rw [round_user devices]
    split
    · exact owned other (List.mem_cons_of_mem s member)
    · rw [Option.isSome_map]
      exact owned other (List.mem_cons_of_mem s member)
  · intro id user found
    rw [round_user devices] at found
    split at found
    · exact solvent id user found
    · obtain ⟨before, _, rfl⟩ := Option.map_eq_some_iff.mp found
      exact Int.le_max_left _ _

end Rounds

section Loop
variable {online : List (Text × Text)} {date now : Time} {sessions : List (Nat × SessionRow)}
  {acts : List Entry} {rows : Store}

theorem loop_user (loop : LoopActs online date now sessions acts)
    (billable : Billable sessions rows)
    {id : Nat} {user : UserRow} (present : rows .users id = some user) :
    replay acts rows .users id = some { user with
      remainingSeconds := max 0 (user.remainingSeconds - dues online date id sessions) } := by
  induction loop generalizing rows user with
  | done =>
      have solvent := billable.solvent id user present
      simp only [replay_nil, present, dues, List.filter_nil, List.map_nil, List.sum_nil]
      rw [floor_nothing solvent]
  | @round s rest device acts devices onward ih =>
      have solvent := billable.solvent id user present
      rw [replay_append, dues_cons]
      have here : replay (roundActs online date now s device) rows .users id = some { user with
          remainingSeconds := max 0 (user.remainingSeconds - dues online date id [s]) } := by
        rw [round_user devices, present]
        split
        · rename_i none'
          rw [none', floor_nothing solvent]
        · rfl
      rw [ih (round_billable devices billable) here, floor_floor]

theorem loop_spared (loop : LoopActs online date now sessions acts) {id : Nat}
    (offline : ∀ s ∈ sessions, s.2.userId = id →
      isOnline online (toLowerCase s.2.deviceMac) = false) :
    replay acts rows .users id = rows .users id := by
  induction loop generalizing rows with
  | done => rfl
  | @round s rest device acts devices onward ih =>
      have nothing : dues online date id [s] = 0 := by
        rw [dues_single, if_neg]
        rintro ⟨own, reported⟩
        rw [offline s List.mem_cons_self own] at reported
        cases reported
      rw [replay_append, ih fun other member => offline other (List.mem_cons_of_mem s member),
        round_user devices, if_pos nothing]

theorem loop_others (loop : LoopActs online date now sessions acts) {id : Nat}
    (unlisted : id ∉ sessions.map Prod.fst) :
    replay acts rows .sessions id = rows .sessions id := by
  induction loop generalizing rows with
  | done => rfl
  | @round s rest device acts devices onward ih =>
      simp only [List.map_cons, List.mem_cons, not_or] at unlisted
      rw [replay_append, ih unlisted.2, round_session devices unlisted.1]

theorem loop_visited (loop : LoopActs online date now sessions acts)
    (billable : Billable sessions rows) :
    ∀ s ∈ sessions, replay acts rows .sessions s.1 = some (metered online date now s.2) := by
  induction loop generalizing rows with
  | done => simp
  | @round s rest device acts devices onward ih =>
      intro found member
      rw [replay_append]
      rcases List.mem_cons.mp member with rfl | later
      · have once := billable.once
        simp only [List.map_cons, List.nodup_cons] at once
        rw [loop_others onward once.1,
          round_metered devices (billable.listed found List.mem_cons_self)]
      · exact ih (round_billable devices billable) found later

theorem loop_alters (loop : LoopActs online date now sessions acts) (table : TableName) (id : Nat)
    (other : table ≠ .devices) : AltersAt table id acts := by
  induction loop with
  | done => simp [AltersAt]
  | @round s rest device acts devices onward ih =>
      intro entry member
      rcases List.mem_append.mp member with here | later
      · unfold roundActs at here
        split_ifs at here
        · cases here
        · simp only [List.mem_cons] at here
          rcases here with rfl | rfl | device'
          · rintro rfl rfl
            exact ⟨_, _, rfl⟩
          · rintro rfl rfl
            exact ⟨_, _, rfl⟩
          · intro same
            exact absurd (same.symm.trans (devices entry device')) other
        · rw [List.mem_singleton] at here
          subst here
          rintro rfl rfl
          exact ⟨_, _, rfl⟩
        · cases here
      · exact ih entry later

theorem loop_billed (loop : LoopActs online date now sessions acts)
    (billable : Billable sessions rows) :
    BilledPerUser online date now sessions rows (replay acts rows) := by
  have balance : ∀ id, ∀ user : UserRow, rows .users id = some user →
      replay acts rows .users id = some { user with
        remainingSeconds := max 0 (user.remainingSeconds - dues online date id sessions) } :=
    fun _ _ => loop_user loop billable
  refine ⟨balance, ?_, fun id => loop_spared loop, loop_visited loop billable,
    fun id => loop_others loop⟩
  intro id
  unfold balanceOf
  cases present : rows .users id with
  | none =>
      rw [replay_absent rows .users id acts (loop_alters loop .users id (by simp)) present]
  | some user =>
      have solvent := billable.solvent id user present
      rw [balance id user present]
      simp only
      omega

end Loop
/-! The loop amid any other transactions: it only has to hold its rows. -/
section Amid
variable {config : Config} {thread : Nat} {world : World} {began date : Time}
  {acts : List Entry} {online : List (Text × Text)} {sessions : List (Nat × SessionRow)} {α : Type}

/-- Whatever happens in between, as long as the thread's transaction and the rows
it has locked are left to it: if the program ends without an exception, `post`. -/
abbrev Amid (config : Config) (thread : Nat) (post : α → World → Prop) (program : Program α)
    (world : World) : Prop :=
  Safe (server config) (fun _ => True)
    (fun thread before after => RowLock.Undisturbed thread before.db after.db) thread
    (Branch post fun _ _ => True) program world

/-- The thread has locked the sessions and their owners. -/
structure Holding (thread : Nat) (sessions : List (Nat × SessionRow)) (db : Database) : Prop where
  session : ∀ s ∈ sessions, db.locks .sessions s.1 = some thread ∧
    (db.view thread .sessions s.1).isSome
  owner : ∀ s ∈ sessions, db.locks .users s.2.userId = some thread ∧
    (db.view thread .users s.2.userId).isSome

theorem holding_undisturbed {before after : Database} (holding : Holding thread sessions before)
    (undisturbed : RowLock.Undisturbed thread before after) : Holding thread sessions after := by
  have onward : ∀ table id, before.locks table id = some thread ∧
      (before.view thread table id).isSome → after.locks table id = some thread ∧
        (after.view thread table id).isSome := by
    rintro table id ⟨held, present⟩
    exact ⟨undisturbed.locks table id held, (undisturbed.view held) ▸ present⟩
  exact ⟨fun s member => onward _ _ (holding.session s member),
    fun s member => onward _ _ (holding.owner s member)⟩

theorem holding_write {before after : Database} {table : TableName} {id : Nat} {op : Op table}
    (holding : Holding thread sessions before)
    (written : before.write Act.run thread (alter table id op began) = some after) :
    Holding thread sessions after := by
  have onward : ∀ other key, before.locks other key = some thread ∧
      (before.view thread other key).isSome → after.locks other key = some thread ∧
        (after.view thread other key).isSome := by
    rintro other key ⟨held, present⟩
    refine ⟨(RowLock.write_keeps written).locks other key held, ?_⟩
    rw [RowLock.view_write written, alter_isSome]
    exact present
  exact ⟨fun s member => onward _ _ (holding.session s member),
    fun s member => onward _ _ (holding.owner s member)⟩

theorem amid_mono {middle post : α → World → Prop} {program : Program α}
    (amid : Amid config thread middle program world)
    (ends : ∀ value after, middle value after → post value after) :
    Amid config thread post program world := by
  refine safe_mono ?_ _ _ amid
  intro outcome after ended
  cases outcome with
  | ok value => exact ends value after ended
  | error error => trivial

theorem amid_update {table : TableName} {id : Nat} {op : Op table} {post : α → World → Prop}
    {rest : Option (Row table) → Program α} (inside : RowLock.InTxn world.db thread began acts)
    (holding : Holding thread sessions world.db)
    (found : ∀ value after, RowLock.InTxn after.db thread began (acts ++
      [alter table id op began]) →
      Holding thread sessions after.db → Amid config thread post (rest value) after)
    (absent : ∀ after, RowLock.InTxn after.db thread began acts → Holding thread sessions after.db →
      after.db.view thread table id = none → Amid config thread post (rest none) after) :
    Amid config thread post ((updateRow table id op).bind rest) world := by
  refine safe_perform _ _ _ fun before relied _ choice answer after executed => ⟨trivial, ?_⟩
  have inside' := relied.inTxn inside
  have holding' := holding_undisturbed holding relied
  cases answer with
  | error error => trivial
  | ok value =>
      obtain ⟨reached, ran, same, _⟩ := exec_ok executed
      have now : ((before.advance choice.elapsed).view thread choice.order).now = began := by
        obtain ⟨rows, present⟩ := inside'
        simp [World.view, World.advance, present]
      obtain ⟨rfl, unchanged, missing⟩ | ⟨row, rfl, _, _, granted, _⟩ := update_ok ran
      · have db : after.db = before.db := same.trans unchanged
        refine absent after ?_ ?_ ?_
        · rwa [db]
        · rwa [db]
        · rw [db]
          exact missing
      · rw [now] at granted
        refine found _ after ?_ ?_
        · rw [same]
          exact RowLock.write_inTxn inside' granted
        · rw [same]
          exact holding_write holding' granted

theorem amid_select {query : Query} {post : α → World → Prop} {rest : query.Res → Program α}
    (inside : RowLock.InTxn world.db thread began acts) (holding : Holding thread sessions world.db)
    (answered : ∀ value after, RowLock.InTxn after.db thread began acts →
      Holding thread sessions after.db → Amid config thread post (rest value) after) :
    Amid config thread post ((select query).bind rest) world := by
  refine safe_perform _ _ _ fun before relied _ choice answer after executed => ⟨trivial, ?_⟩
  cases answer with
  | error error => trivial
  | ok value =>
      obtain ⟨reached, ran, same, _⟩ := exec_ok executed
      have db : after.db = before.db := by
        cases ran
        exact same
      refine answered value after ?_ ?_
      · rw [db]
        exact relied.inTxn inside
      · rw [db]
        exact holding_undisturbed holding relied

theorem amid_touch {userId : Nat} {mac : Text} (inside : RowLock.InTxn world.db thread began acts)
    (holding : Holding thread sessions world.db) :
    Amid config thread (fun _ after => ∃ device, OnDevices device ∧
        RowLock.InTxn after.db thread began (acts ++ device) ∧ Holding thread sessions after.db)
      (touchDevice userId mac) world := by
  refine amid_select inside holding ?_
  intro found w1 inside1 holding1
  have idle : ∀ after : World, RowLock.InTxn after.db thread began acts →
      Holding thread sessions after.db → ∃ device, OnDevices device ∧
        RowLock.InTxn after.db thread began (acts ++ device) ∧ Holding thread sessions after.db :=
    fun after inside' holding' => ⟨[], by simp [OnDevices], by simpa using inside', holding'⟩
  cases found with
  | none => exact idle w1 inside1 holding1
  | some id =>
      refine amid_update inside1 holding1 ?_ ?_
      · intro value w2 inside2 holding2
        exact ⟨_, by simp [OnDevices, alter], inside2, holding2⟩
      · intro w2 inside2 holding2 _
        exact idle w2 inside2 holding2

theorem amid_settle {s : Nat × SessionRow} (listed : s ∈ sessions)
    (inside : RowLock.InTxn world.db thread began acts)
    (holding : Holding thread sessions world.db) :
    Amid config thread (fun _ after => ∃ device, OnDevices device ∧
        RowLock.InTxn after.db thread began (acts ++ roundActs online date began s device) ∧
        Holding thread sessions after.db)
      (settle online date s) world := by
  have idle : RowLock.InTxn world.db thread began (acts ++ []) := by rwa [List.append_nil]
  unfold settle roundActs
  simp only
  by_cases reported : isOnline online (toLowerCase s.2.deviceMac) = true
  · by_cases zero : elapsedSeconds date s.2.lastTick = 0
    · simp only [reported, zero, Nat.lt_irrefl, if_true, if_false]
      exact ⟨[], by simp [OnDevices], idle, holding⟩
    · simp only [reported, zero, Nat.pos_of_ne_zero zero, if_true, if_false]
      refine amid_update inside holding ?_ ?_
      · intro _ w1 inside1 holding1
        refine amid_update inside1 holding1 ?_ ?_
        · intro _ w2 inside2 holding2
          refine amid_mono (amid_touch inside2 holding2) ?_
          rintro _ w3 ⟨device, devices, inside3, holding3⟩
          refine ⟨device, devices, ?_, holding3⟩
          simpa only [List.append_assoc, List.cons_append, List.nil_append] using inside3
        · intro w2 _ holding2 missing
          have present := (holding2.owner s listed).2
          rw [missing] at present
          cases present
      · intro w1 _ holding1 missing
        have present := (holding1.session s listed).2
        rw [missing] at present
        cases present
  · simp only [reported, Bool.false_eq_true, if_false]
    by_cases late : connectGraceMs < date - s.2.startedAt
    · simp only [late, if_true]
      refine amid_update inside holding ?_ ?_
      · intro _ w1 inside1 holding1
        exact ⟨[], by simp [OnDevices], inside1, holding1⟩
      · intro w1 _ holding1 missing
        have present := (holding1.session s listed).2
        rw [missing] at present
        cases present
    · simp only [late, if_false]
      exact ⟨[], by simp [OnDevices], idle, holding⟩

theorem loop_append {rest : List (Nat × SessionRow)} {more : List Entry}
    (first : LoopActs online date began sessions acts)
    (second : LoopActs online date began rest more) :
    LoopActs online date began (sessions ++ rest) (acts ++ more) := by
  induction first with
  | done => exact second
  | round devices onward ih =>
      rw [List.append_assoc]
      exact .round devices ih

theorem amid_loop (inside : RowLock.InTxn world.db thread began acts)
    (holding : Holding thread sessions world.db) :
    Amid config thread (fun _ after => ∃ more, LoopActs online date began sessions more ∧
        RowLock.InTxn after.db thread began (acts ++ more))
      (Prog.each sessions (settle online date)) world := by
  let loop (rest : List (Nat × SessionRow)) (after : World) : Prop :=
    ∃ visited more, sessions = visited ++ rest ∧ LoopActs online date began visited more ∧
      RowLock.InTxn after.db thread began (acts ++ more) ∧ Holding thread sessions after.db
  refine safe_each loop _ ?_ ?_ sessions world ⟨[], [], rfl, .done, by simpa using inside, holding⟩
  · rintro s rest state ⟨visited, more, split, written, inside', holding'⟩
    have listed : s ∈ sessions := by simp [split]
    refine amid_mono (amid_settle listed inside' holding') ?_
    rintro _ after ⟨device, devices, inside'', holding''⟩
    refine ⟨visited ++ [s], more ++ (roundActs online date began s device ++ []), by simp [split],
      loop_append written (.round devices .done), ?_, holding''⟩
    simpa only [List.append_assoc, List.append_nil] using inside''
  · rintro state ⟨visited, more, split, written, inside', _⟩
    rw [List.append_nil] at split
    exact ⟨more, split ▸ written, inside'⟩

end Amid
/-! The loop by itself: it comes to its end. -/
section Uninterrupted
variable {config : Config} {thread : Nat} {first world : World} {now date : Time}
  {rows : Store} {commands : List NdsCommand} {online : List (Text × Text)}
  {sessions : List (Nat × SessionRow)}

theorem touch_alone {userId : Nat} {mac : Text} (rooted : Rooted rows)
    (solo : Solo thread first (some now) rows commands world) :
    Alone config thread (fun _ after => ∃ device, OnDevices device ∧ Rooted (replay device rows) ∧
        Solo thread first (some now) (replay device rows) commands after)
      (touchDevice userId mac) world := by
  refine surely_bind _ _ _ (alone_query solo (.deviceOf userId mac)) ?_
  rintro found w1 ⟨solo1, view, answered, shows⟩
  cases found with
  | none => exact ⟨[], by simp [OnDevices], rooted, solo1⟩
  | some id =>
      obtain ⟨⟨key, device⟩, head, same⟩ := Option.map_eq_some_iff.mp answered.symm
      obtain rfl : key = id := same
      have present : rows .devices key = some device :=
        shows.same ▸ (mem_scan.mp (List.mem_of_mem_head? head)).2.1
      refine surely_bind _ _ _ (alone_update solo1 device present
        (rooted_linked rooted present (device_references _ _))) ?_
      intro _ w2 solo2
      exact ⟨[alter .devices key .seen now], by simp [OnDevices, alter],
        rooted_alter .devices key .seen rooted (device_references _ _), solo2⟩

theorem round_alone {s : Nat × SessionRow} {present : SessionRow} (rooted : Rooted rows)
    (solo : Solo thread first (some now) rows commands world)
    (found : rows .sessions s.1 = some present) (owned : (rows .users s.2.userId).isSome) :
    Alone config thread (fun _ after => ∃ device, OnDevices device ∧
        Rooted (replay (roundActs online date now s device) rows) ∧
        Solo thread first (some now) (replay (roundActs online date now s device) rows) commands
          after)
      (settle online date s) world := by
  unfold settle roundActs
  simp only
  by_cases reported : isOnline online (toLowerCase s.2.deviceMac) = true
  · by_cases zero : elapsedSeconds date s.2.lastTick = 0
    · simp only [reported, zero, Nat.lt_irrefl, if_true, if_false]
      exact ⟨[], by simp [OnDevices], rooted, solo⟩
    · simp only [reported, zero, Nat.pos_of_ne_zero zero, if_true, if_false]
      refine surely_bind _ _ _ (alone_update solo present found
        (rooted_linked rooted found (session_references _ _))) ?_
      intro _ w1 solo1
      have rooted1 := rooted_alter .sessions s.1 (.settle (elapsedSeconds date s.2.lastTick)) rooted
        (session_references _ now)
      obtain ⟨user, account⟩ := Option.isSome_iff_exists.mp owned
      have account1 : RowLock.runEntry Act.run rows
          (alter .sessions s.1 (.settle (elapsedSeconds date s.2.lastTick)) now) .users s.2.userId =
            some user := by simpa using account
      refine surely_bind _ _ _ (alone_update solo1 user account1
        (rooted_linked rooted1 account1 (user_references _ _))) ?_
      intro _ w2 solo2
      have rooted2 := rooted_alter .users s.2.userId
        (.charge (elapsedSeconds date s.2.lastTick) s.1) rooted1 (user_references _ now)
      exact touch_alone rooted2 solo2
  · simp only [reported, Bool.false_eq_true, if_false]
    by_cases late : connectGraceMs < date - s.2.startedAt
    · simp only [late, if_true]
      refine surely_mono ?_ _ _ (finishSession_alone rooted solo found)
      rintro (_ | _) w1 reached
      · exact reached
      exact ⟨[], by simp [OnDevices],
        rooted_alter .sessions s.1 (.finish .ended) rooted (session_references _ _), reached⟩
    · simp only [late, if_false]
      exact ⟨[], by simp [OnDevices], rooted, solo⟩

theorem loop_alone (rooted : Rooted rows) (billable : Billable sessions rows)
    (solo : Solo thread first (some now) rows commands world) :
    Alone config thread (fun _ after => ∃ more, LoopActs online date now sessions more ∧
        Solo thread first (some now) (replay more rows) commands after)
      (Prog.each sessions (settle online date)) world := by
  let loop (rest : List (Nat × SessionRow)) (after : World) : Prop :=
    ∃ visited more, sessions = visited ++ rest ∧ LoopActs online date now visited more ∧
      Rooted (replay more rows) ∧ Solo thread first (some now) (replay more rows) commands after
  have whole : Alone config thread (fun _ => loop []) (Prog.each sessions (settle online date))
      world := by
    refine surely_each loop _ ?_ sessions world ⟨[], [], rfl, .done, rooted, solo⟩
    rintro s rest state ⟨visited, more, split, written, rooted', solo'⟩
    have listed : s ∈ sessions := by simp [split]
    obtain ⟨present, found, _⟩ := replay_same rows .sessions s.1 more
      (loop_alters written _ _ (by simp)) (billable.listed s listed)
    obtain ⟨user, account⟩ := Option.isSome_iff_exists.mp (billable.owned s listed)
    obtain ⟨user', account', _⟩ := replay_same rows .users s.2.userId more
      (loop_alters written _ _ (by simp)) account
    refine surely_mono ?_ _ _ (round_alone rooted' solo' found (by simp [account']))
    rintro (_ | _) after reached
    · exact reached
    obtain ⟨device, devices, rooted'', solo''⟩ := reached
    rw [← replay_append] at rooted'' solo''
    have whole : LoopActs online date now (visited ++ [s])
        (more ++ roundActs online date now s device) := by
      have last : LoopActs online date now [s] (roundActs online date now s device ++ []) :=
        .round devices .done
      rw [List.append_nil] at last
      exact loop_append written last
    exact ⟨visited ++ [s], more ++ roundActs online date now s device, by simp [split], whole,
      rooted'', solo''⟩
  refine surely_mono ?_ _ _ whole
  rintro (_ | _) after reached
  · exact reached
  obtain ⟨visited, more, split, written, _, solo'⟩ := reached
  rw [List.append_nil] at split
  exact ⟨more, split ▸ written, solo'⟩

end Uninterrupted

/-- The settlement loop bills per user. Left alone it comes to its end, with the
rows as specified. Amid other transactions, holding its rows, what it has written
when it comes to its end has that effect on any rows that show the sessions. -/
theorem settlement_billed (config : Config) (thread : Nat) (online : List (Text × Text))
    (date began : Time) (sessions : List (Nat × SessionRow)) :
    (∀ world rows commands, Solo thread world (some began) rows commands world → Rooted rows →
      Billable sessions rows →
        Alone config thread (fun _ after => ∃ rows', BilledPerUser online date began
            sessions rows rows' ∧ Solo thread world (some began) rows' commands after)
          (Prog.each sessions (settle online date)) world) ∧
    ∀ world acts, RowLock.InTxn world.db thread began acts → Holding thread sessions world.db →
      Amid config thread (fun _ after => ∃ more, RowLock.InTxn after.db thread began
          (acts ++ more) ∧ ∀ rows, Billable sessions rows →
            BilledPerUser online date began sessions rows (replay more rows))
        (Prog.each sessions (settle online date)) world := by
  constructor
  · intro world rows commands solo rooted billable
    refine surely_mono ?_ _ _ (loop_alone rooted billable solo)
    rintro (_ | _) after reached
    · exact reached
    obtain ⟨more, written, solo'⟩ := reached
    exact ⟨_, loop_billed written billable, solo'⟩
  · intro world acts inside holding
    refine amid_mono (amid_loop inside holding) ?_
    rintro _ after ⟨more, written, inside'⟩
    exact ⟨more, inside', fun rows billable => loop_billed written billable⟩

def tenSecondsLeft : UserRow where
  username := ['g', 'u', 'e', 's', 't']
  passwordHash := []
  role := .customer
  remainingSeconds := 10
  deviceLimit := 2
  limitPositive := lastSeconds.limitPositive

def bothSessions : List (Nat × SessionRow) :=
  [(1, newSession 2 phoneMac phoneIp ['h'] 0), (2, newSession 2 tabletMac phoneIp ['i'] 0)]

def bothRows : Store
  | .users, id => if id = 2 then some tenSecondsLeft else none
  | .sessions, id => bothSessions.lookup id
  | _, _ => none

/-- A pass that has locked them all, seven seconds later. -/
def bothLocked : World := { World.initial with
  db := ⟨bothRows, fun _ => 3, fun _ _ => some 0,
    Function.update (fun _ => none) 0 (some ⟨7000, fun _ _ => none, []⟩), []⟩
  clock := 7000 }

theorem both_listed {s : Nat × SessionRow} (member : s ∈ bothSessions) :
    bothRows .sessions s.1 = some s.2 ∧ s.2.userId = 2 := by
  rcases List.mem_cons.mp member with rfl | second
  · exact ⟨rfl, rfl⟩
  · obtain rfl := List.mem_singleton.mp second
    exact ⟨rfl, rfl⟩

theorem both_found {id : Nat} {row : SessionRow} (found : bothRows .sessions id = some row) :
    (id, row) ∈ bothSessions := by
  obtain ⟨_, first, split, _⟩ := List.lookup_eq_some_iff.mp found
  simp [split]

theorem both_bound {table : TableName} {id : Nat} (present : (bothRows table id).isSome) :
    id < 3 := by
  obtain ⟨row, found⟩ := Option.isSome_iff_exists.mp present
  cases table with
  | users =>
      obtain ⟨rfl, _⟩ := Option.ite_none_right_eq_some.mp found
      decide
  | sessions =>
      rcases List.mem_cons.mp (both_found found) with same | second
      · cases same
        decide
      · cases List.mem_singleton.mp second
        decide
  | _ => cases found

theorem both_billable : Billable bothSessions bothRows := by
  refine ⟨by decide, fun s member => (both_listed member).1, ?_, ?_⟩
  · intro s member
    rw [(both_listed member).2]
    rfl
  · intro id user found
    obtain ⟨_, same⟩ := Option.ite_none_right_eq_some.mp found
    cases same
    decide

theorem settlement_billed_both :
    Alone shop 0 (fun _ after => balanceOf (after.db.view 0) 2 = 0)
      (Prog.each bothSessions (settle [(phoneMac, phoneIp), (tabletMac, phoneIp)] 7000))
        bothLocked ∧
    Amid shop 0 (fun _ after => ∃ more, RowLock.InTxn after.db 0 7000 more ∧
        balanceOf (replay more bothRows) 2 = 0)
      (Prog.each bothSessions (settle [(phoneMac, phoneIp), (tabletMac, phoneIp)] 7000))
      bothLocked := by
  obtain ⟨alone, amid⟩ := settlement_billed shop 0 [(phoneMac, phoneIp), (tabletMac, phoneIp)] 7000
    7000 bothSessions
  have spent : ∀ after, BilledPerUser [(phoneMac, phoneIp), (tabletMac, phoneIp)] 7000 7000
      bothSessions bothRows after → balanceOf after 2 = 0 := by
    intro after billed
    rw [balanceOf, billed.balance 2 tenSecondsLeft rfl]
    decide
  have sees : bothLocked.db.view 0 = bothRows := by
    funext table id
    rfl
  constructor
  · have solo : Solo 0 bothLocked (some 7000) bothRows [] bothLocked := by
      refine ⟨⟨?_, ?_, rfl, sees, ?_⟩, ⟨[], by simp, rfl⟩, Int.le_refl _⟩
      · intro other different
        exact Function.update_of_ne (f := fun _ => none) different _
      · intro table id holder held
        cases held
        rfl
      · intro table id present
        exact both_bound present
    have rooted : Rooted bothRows := by
      intro table id row found
      cases table with
      | sessions =>
          have owner := (both_listed (both_found found)).2
          simp only at owner
          simp [World.resolves, references, owner, bothRows]
      | users => rfl
      | _ => cases found
    refine surely_mono ?_ _ _ (alone bothLocked bothRows [] solo rooted both_billable)
    rintro (_ | _) after reached
    · exact reached
    obtain ⟨rows', billed, solo'⟩ := reached
    have left := spent rows' billed
    rw [← solo'.db.sees] at left
    exact left
  · have holding : Holding 0 bothSessions bothLocked.db := by
      constructor
      · intro s member
        refine ⟨rfl, ?_⟩
        rw [sees, (both_listed member).1]
        rfl
      · intro s member
        refine ⟨rfl, ?_⟩
        rw [sees, (both_listed member).2]
        rfl
    have inside : RowLock.InTxn bothLocked.db 0 7000 [] := ⟨fun _ _ => none, by simp [bothLocked]⟩
    refine amid_mono (amid bothLocked [] inside holding) ?_
    rintro _ after ⟨more, inside, billed⟩
    exact ⟨more, inside, spent _ (billed bothRows both_billable)⟩

end Cybera
