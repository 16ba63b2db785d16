import Cybera.Uniqueness
import Cybera.Chronicle

/-!
The device limit. connect counts the active sessions of an account while it
holds the account's row, and whoever opens a session for the account has to hold
that row until it commits.
-/

namespace Cybera

open Interleaving

/-- device_limit, 0 without an account. -/
def limitIn (rows : Store) (user : Nat) : Nat :=
  match rows .users user with
  | some (account : UserRow) => account.deviceLimit
  | none => 0

def ActiveOf (rows : Store) (user id : Nat) : Prop :=
  ∃ s : SessionRow, rows .sessions id = some s ∧ s.userId = user ∧ s.status = .active

def AtMost (rows : Store) (user limit : Nat) : Prop :=
  ∀ ids : List Nat, ids.Nodup → (∀ id ∈ ids, ActiveOf rows user id) → ids.length ≤ limit

section Counts
variable {rows later : Store} {user limit : Nat}

theorem atMost_fewer {more : Nat} (atMost : AtMost rows user limit)
    (fewer : ∀ id, ActiveOf later user id → ActiveOf rows user id) (enough : limit ≤ more) :
    AtMost later user more := by
  intro ids distinct active
  exact Nat.le_trans (atMost ids distinct fun id member => fewer id (active id member)) enough

theorem atMost_listed {kept : List Nat} (listed : ∀ id, ActiveOf rows user id → id ∈ kept) :
    AtMost rows user kept.length := by
  intro ids distinct active
  exact (List.subperm_of_subset distinct fun id member => listed id (active id member)).length_le

theorem atMost_opened (new : Nat) (atMost : AtMost rows user limit)
    (one : ∀ id, ActiveOf later user id → id = new ∨ ActiveOf rows user id) :
    AtMost later user (limit + 1) := by
  intro ids distinct active
  have others : (ids.erase new).length ≤ limit := by
    apply atMost _ (distinct.erase new)
    intro id member
    rw [distinct.mem_erase_iff] at member
    exact (one id (active id member.2)).resolve_left member.1
  have erased := List.length_erase_add_one (l := ids) (a := new)
  by_cases member : new ∈ ids
  · have same := erased member
    omega
  · rw [List.erase_of_not_mem member] at others
    omega

theorem limitIn_congr (same : later .users user = rows .users user) :
    limitIn later user = limitIn rows user := by
  rw [limitIn, limitIn, same]

theorem activeOf_congr {id : Nat} (same : later .sessions id = rows .sessions id) :
    ActiveOf later user id ↔ ActiveOf rows user id := by
  rw [ActiveOf, ActiveOf, same]

theorem limitIn_alter {table : TableName} {id : Nat} {op : Op table} {now : Time} :
    limitIn rows user ≤ limitIn (RowLock.runEntry Act.run rows (alter table id op now)) user := by
  by_cases hit : table = .users ∧ id = user
  · obtain ⟨rfl, rfl⟩ := hit
    have after := RowLock.runEntry_at Act.run rows (alter .users id op now)
    rw [limitIn, limitIn, show RowLock.runEntry Act.run rows (alter .users id op now) .users id = _
      from after]
    cases found : rows .users id with
    | none => simp
    | some account =>
        cases op with
        | credit seconds limit source =>
            simp only [alter, found, Act.run, Option.map_some]
            exact raiseLimit_ge _ _
        | charge elapsed session => simp [alter, found, Act.run, Op.run, UserOp.run]
        | syncAdmin hash => simp [alter, found, Act.run, Op.run, UserOp.run]
  · refine Nat.le_of_eq (limitIn_congr ?_).symm
    exact RowLock.runEntry_other _ _ _ _ _ fun same => hit ⟨same.1.symm, same.2.symm⟩

theorem activeOf_alter {table : TableName} {id key : Nat} {op : Op table} {now : Time}
    (closing : Closing table op)
    (active : ActiveOf (RowLock.runEntry Act.run rows (alter table id op now)) user key) :
    ActiveOf rows user key := by
  by_cases hit : table = .sessions ∧ id = key
  · obtain ⟨rfl, rfl⟩ := hit
    obtain ⟨s, left, mine, active⟩ := active
    have after := RowLock.runEntry_at Act.run rows (alter .sessions id op now)
    replace after := left.symm.trans after
    cases found : rows .sessions id with
    | none => simp [alter, found, Act.run] at after
    | some before =>
        simp only [alter, found, Act.run, Option.map_some, Option.some.injEq] at after
        subst after
        refine ⟨before, found, ?_⟩
        cases op with
        | settle elapsed => exact ⟨mine, active⟩
        | refresh ip token => exact ⟨mine, active⟩
        | finish status => exact absurd active closing
  · rwa [activeOf_congr] at active
    exact RowLock.runEntry_other _ _ _ _ _ fun same => hit ⟨same.1.symm, same.2.symm⟩

theorem limitIn_create {table : TableName} {id : Nat} {row : Row table}
    (absent : rows table id = none) :
    limitIn rows user ≤ limitIn (RowLock.runEntry Act.run rows (create table id row)) user := by
  by_cases hit : table = .users ∧ id = user
  · obtain ⟨rfl, rfl⟩ := hit
    simp [limitIn, absent]
  · refine Nat.le_of_eq (limitIn_congr ?_).symm
    exact RowLock.runEntry_other _ _ _ _ _ fun same => hit ⟨same.1.symm, same.2.symm⟩

theorem activeOf_create {table : TableName} {id key : Nat} {row : Row table}
    (other : ¬ (table = .sessions ∧ id = key))
    (active : ActiveOf (RowLock.runEntry Act.run rows (create table id row)) user key) :
    ActiveOf rows user key := by
  rwa [activeOf_congr] at active
  exact RowLock.runEntry_other _ _ _ _ _ fun same => other ⟨same.1.symm, same.2.symm⟩

theorem remove_other {table : TableName} {id key : Nat} (other : table ≠ .plans) :
    RowLock.runEntry Act.run rows (remove .plans id) table key = rows table key :=
  RowLock.runEntry_other _ _ _ _ _ fun same => other same.1

end Counts

/-- What everybody sees respects the limits; who has opened a session for an
account holds the account's row. -/
structure Bounded (db : Database) : Prop where
  within : ∀ user, AtMost db.store user (limitIn db.store user)
  raised : ∀ thread user, limitIn db.store user ≤ limitIn (db.view thread) user
  opening : ∀ thread user id, ActiveOf (db.view thread) user id → ¬ ActiveOf db.store user id →
    db.locks .users user = some thread ∧
      AtMost (db.view thread) user (limitIn (db.view thread) user)

section Steps
variable {db after : Database} {thread : Nat}

theorem bounded_unchanged (bounded : Bounded db) (store : after.store = db.store)
    (view : ∀ thread, after.view thread = db.view thread)
    (locks : ∀ thread table id, db.locks table id = some thread →
      after.locks table id = some thread) :
    Bounded after := by
  constructor
  · rw [store]
    exact bounded.within
  · intro thread user
    rw [store, view]
    exact bounded.raised thread user
  · intro thread user id active absent
    rw [view] at active ⊢
    rw [store] at absent
    obtain ⟨held, atMost⟩ := bounded.opening thread user id active absent
    exact ⟨locks thread .users user held, atMost⟩

theorem bounded_rollback (bounded : Bounded db) : Bounded (db.rollback thread) := by
  have mine : (db.rollback thread).view thread = db.store :=
    RowLock.view_outside RowLock.rollback_outside
  have others : ∀ holder, holder ≠ thread → (db.rollback thread).view holder = db.view holder :=
    fun holder different => RowLock.view_same (RowLock.rollback_undisturbed different).txn rfl
  constructor
  · exact bounded.within
  · intro holder user
    by_cases same : holder = thread
    · rw [same, mine]
      exact Nat.le_refl _
    · rw [others holder same]
      exact bounded.raised holder user
  · intro holder user id active absent
    by_cases same : holder = thread
    · rw [same, mine] at active
      exact absurd active absent
    · rw [others holder same] at active ⊢
      obtain ⟨held, atMost⟩ := bounded.opening holder user id active absent
      exact ⟨(RowLock.rollback_undisturbed same).locks _ _ held, atMost⟩

/-- A COMMIT of somebody else opens nothing for an account that the thread has locked. -/
theorem activeOf_commit (sound : RowLock.Sound Act.run db) (bounded : Bounded db)
    {holder user id : Nat} (different : holder ≠ thread) (held : db.locks .users user = some holder)
    (active : ActiveOf ((db.commit thread).view holder) user id) :
    ActiveOf (db.view holder) user id := by
  have after := RowLock.view_commit sound different .sessions id
  cases version : db.version holder .sessions id with
  | some own =>
      rw [version, Option.getD_some] at after
      refine (activeOf_congr ?_).mp active
      rw [after, RowLock.view_eq, version, Option.getD_some]
  | none =>
      rw [version, Option.getD_none] at after
      have seen : ActiveOf (db.view thread) user id := (activeOf_congr after).mp active
      have stored : ActiveOf db.store user id := by
        by_contra absent
        have other := (bounded.opening thread user id seen absent).1
        rw [held] at other
        exact different (Option.some.inj other)
      refine (activeOf_congr ?_).mp stored
      rw [RowLock.view_eq, version, Option.getD_none]

theorem bounded_commit (sound : RowLock.Sound Act.run db) (bounded : Bounded db) :
    Bounded (db.commit thread) := by
  have store : (db.commit thread).store = db.view thread := RowLock.store_commit
  have mine : (db.commit thread).view thread = db.view thread := by
    rw [RowLock.view_outside RowLock.commit_outside, store]
  constructor
  · intro user
    rw [store]
    by_cases opens : ∃ id, ActiveOf (db.view thread) user id ∧ ¬ ActiveOf db.store user id
    · obtain ⟨id, active, absent⟩ := opens
      exact (bounded.opening thread user id active absent).2
    · refine atMost_fewer (bounded.within user) ?_ (bounded.raised thread user)
      intro id active
      by_contra absent
      exact opens ⟨id, active, absent⟩
  · intro holder user
    by_cases same : holder = thread
    · rw [same, mine, store]
    have view := RowLock.view_commit sound same .users user
    rw [store]
    cases version : db.version holder .users user with
    | none =>
        rw [version, Option.getD_none] at view
        exact Nat.le_of_eq (limitIn_congr view).symm
    | some own =>
        -- the thread has locked the row, so the other one sees the committed limit
        have held := RowLock.version_locked sound (Option.isSome_of_eq_some version)
        have free : db.locks .users user ≠ some thread := by
          rw [held]
          exact fun equal => same (Option.some.inj equal)
        have kept := (RowLock.commit_undisturbed sound same).view held
        rw [limitIn_congr kept, limitIn_congr (RowLock.view_locked sound free)]
        exact bounded.raised holder user
  · intro holder user id active absent
    by_cases same : holder = thread
    · rw [same, mine] at active
      rw [store] at absent
      exact absurd active absent
    have view := RowLock.view_commit sound same .sessions id
    rw [store] at absent
    cases version : db.version holder .sessions id with
    | none =>
        rw [version, Option.getD_none] at view
        exact absurd ((activeOf_congr view).mp active) absent
    | some own =>
        have locked := RowLock.version_locked sound (Option.isSome_of_eq_some version)
        have free : db.locks .sessions id ≠ some thread := by
          rw [locked]
          exact fun equal => same (Option.some.inj equal)
        have kept := (RowLock.commit_undisturbed sound same).view locked
        have absent' : ¬ ActiveOf db.store user id :=
          fun stored => absent ((activeOf_congr (RowLock.view_locked sound free)).mpr stored)
        obtain ⟨held, atMost⟩ :=
          bounded.opening holder user id ((activeOf_congr kept).mp active) absent'
        have undisturbed := RowLock.commit_undisturbed sound same
        refine ⟨undisturbed.locks _ _ held, ?_⟩
        rw [limitIn_congr (undisturbed.view held)]
        exact atMost_fewer atMost (fun key => activeOf_commit sound bounded same held)
          (Nat.le_refl _)

theorem bounded_write (bounded : Bounded db) {entry : Entry}
    (written : db.write Act.run thread entry = some after)
    (raises : ∀ user, limitIn (db.view thread) user ≤
      limitIn (RowLock.runEntry Act.run (db.view thread) entry) user)
    (opens : ∀ user id, ActiveOf (RowLock.runEntry Act.run (db.view thread) entry) user id →
      ActiveOf (db.view thread) user id ∨ db.locks .users user = some thread ∧
        AtMost (RowLock.runEntry Act.run (db.view thread) entry) user
          (limitIn (RowLock.runEntry Act.run (db.view thread) entry) user)) : Bounded after := by
  have store : after.store = db.store := (RowLock.write_same written).1
  have mine := RowLock.view_write written
  have others : ∀ holder, holder ≠ thread → RowLock.Undisturbed holder db after :=
    fun holder different => RowLock.write_undisturbed different written
  constructor
  · rw [store]
    exact bounded.within
  · intro holder user
    rw [store]
    by_cases same : holder = thread
    · rw [same, mine]
      exact Nat.le_trans (bounded.raised thread user) (raises user)
    · rw [RowLock.view_same (others holder same).txn store]
      exact bounded.raised holder user
  · intro holder user id active absent
    rw [store] at absent
    by_cases same : holder = thread
    · subst same
      rw [mine] at active ⊢
      by_cases more : ∃ key, ActiveOf (RowLock.runEntry Act.run (db.view holder) entry) user key ∧
          ¬ ActiveOf (db.view holder) user key
      · obtain ⟨key, new, old⟩ := more
        obtain ⟨held, atMost⟩ := (opens user key new).resolve_left old
        exact ⟨(RowLock.write_keeps written).locks _ _ held, atMost⟩
      · have fewer : ∀ key, ActiveOf (RowLock.runEntry Act.run (db.view holder) entry) user key →
            ActiveOf (db.view holder) user key := by
          intro key new
          by_contra old
          exact more ⟨key, new, old⟩
        obtain ⟨held, atMost⟩ := bounded.opening holder user id (fewer id active) absent
        exact ⟨(RowLock.write_keeps written).locks _ _ held,
          atMost_fewer atMost fewer (raises user)⟩
    · rw [RowLock.view_same (others holder same).txn store] at active ⊢
      obtain ⟨held, atMost⟩ := bounded.opening holder user id active absent
      exact ⟨(others holder same).locks _ _ held, atMost⟩

end Steps

/-! What a connect that holds the account's row knows of its active sessions. -/

/-- The commands that end no transaction and open no session. -/
def Cmd.Quiet (cmd : Cmd) : Prop :=
  ¬ cmd.Closes ∧ ∀ row skip, cmd ≠ .insert .sessions row skip

/-- The account was locked, its active sessions were read and those up to `rest`
were locked; `kept` are the ones that were still active. -/
inductive Survey (user : Nat) (account : UserRow) :
    List Nat → List (Nat × SessionRow) → List (Done Cmd Res Failure) → Prop where
  | asked {ids : List Nat} {older : List (Done Cmd Res Failure)} :
      Survey user account ids [] (⟨.query (.activeSessionsOf user), .ok ids⟩ ::
        ⟨.lock .users user, .ok (some account)⟩ :: older)
  | locked {id : Nat} {rest : List Nat} {kept : List (Nat × SessionRow)}
      {past : List (Done Cmd Res Failure)} (row : Option SessionRow)
      (survey : Survey user account (id :: rest) kept past) :
      Survey user account rest
        (kept ++ ((row.filter fun s => s.userId == user && s.status == .active).map
          fun s => (id, s)).toList) (⟨.lock .sessions id, .ok row⟩ :: past)
  | quiet {rest : List Nat} {kept : List (Nat × SessionRow)} {past : List (Done Cmd Res Failure)}
      {cmd : Cmd} (answer : Except Failure (Res cmd)) (still : cmd.Quiet)
      (survey : Survey user account rest kept past) :
      Survey user account rest kept (⟨cmd, answer⟩ :: past)

/-- A session is inserted only for an account that has been surveyed and has
room for it. -/
def HasRoom (call : Call) (past : List (Done Cmd Res Failure)) : Cmd → Prop
  | .insert .sessions row _ => ∃ user dto account kept, call = .connect user dto ∧
      (∀ now, (row now).userId = user.id) ∧ Survey user.id account [] kept past ∧
        kept.length < account.deviceLimit
  | _ => True

section Order
variable {config : Config}

theorem quiet_hasRoom (call : Call) (past : List (Done Cmd Res Failure)) (cmd : Cmd)
    (still : cmd.Quiet) : HasRoom call past cmd := by
  unfold HasRoom
  split
  · exact absurd rfl (still.2 _ _)
  · trivial

theorem along_surveyed {α : Type} {call : Call} {user : Nat} {account : UserRow}
    {kept : List (Nat × SessionRow)} {past : List (Done Cmd Res Failure)} (program : Program α)
    (uses : program.Uses Cmd.Quiet) (survey : Survey user account [] kept past) :
    Along (HasRoom call) (Ends fun _ => Survey user account [] kept) program past := by
  refine along_post ?_ _ (along_keeps (Survey user account [] kept)
    (fun past cmd still _ => quiet_hasRoom call past cmd still)
    (fun _ _ answer still survey => survey.quiet answer still) program uses survey)
  rintro (error | value) after reached
  · trivial
  · exact reached

theorem openOrRefresh_room {user : AuthUser} {dto : ConnectDto} {account : UserRow}
    {kept : List (Nat × SessionRow)} {past : List (Done Cmd Res Failure)} {mac ip token : Text}
    {alreadyActive : Option (Nat × SessionRow)} (survey : Survey user.id account [] kept past)
    (room : (alreadyActive.isNone && account.deviceLimit ≤ kept.length) = false) :
    Along (HasRoom (.connect user dto)) (Ends fun _ _ => True)
      (openOrRefresh user.id mac ip token alreadyActive) past := by
  cases alreadyActive with
  | some s =>
      exact along_then (fun _ _ => True) (along_command _ trivial fun _ => trivial)
        fun _ _ _ => trivial
  | none =>
      have fits : kept.length < account.deviceLimit := by simpa using room
      refine along_then _ (along_surveyed _ ?_ survey) ?_
      · refine uses_finishActiveOn _ _ (fun _ => ?_) (fun _ => ?_) fun _ => ?_ <;>
          exact ⟨id, fun _ _ same => nomatch same⟩
      · intro _ past surveyed
        refine along_then (fun _ _ => True) (along_insertRow ?_ fun _ => trivial)
          fun _ _ _ => trivial
        exact ⟨user, dto, account, kept, rfl, fun _ => rfl, surveyed, fits⟩

theorem lockActiveSessions_room {call : Call} {user : Nat} {account : UserRow}
    {past : List (Done Cmd Res Failure)} :
    Along (HasRoom call) (Ends fun kept past => Survey user account [] kept past)
      (lockActiveSessions user) (⟨.lock .users user, .ok (some account)⟩ :: past) := by
  refine along_perform _ _ trivial ?_ fun _ => trivial
  intro ids
  refine along_collect (fun rest kept past => Survey user account rest kept past) _ ?_ ?_ ids .asked
  · intro id rest kept past survey
    refine along_perform _ _ trivial ?_ fun _ => trivial
    exact fun row => survey.locked row
  · exact fun _ _ survey => survey

theorem connect_room (user : AuthUser) (dto : ConnectDto) :
    Along (HasRoom (.connect user dto)) (Ends fun _ _ => True)
      (SessionsService.connect config user dto) [] := by
  refine along_throwIf _ _ _ (fun _ => trivial) fun _ => ?_
  refine along_perform _ _ trivial (fun recent => ?_) fun _ => trivial
  refine along_throwIf _ _ _ (fun _ => trivial) fun _ => ?_
  refine along_then (fun _ _ => True) ?_ ?_
  · refine along_tx trivial (fun _ => trivial) ?_
    refine along_perform _ _ trivial (fun locked => ?_) fun _ => trivial
    refine along_orThrow _ _ _ (fun _ => trivial) ?_
    rintro account rfl
    refine along_throwIf _ _ _ (fun _ => trivial) fun _ => ?_
    refine along_then _ lockActiveSessions_room ?_
    intro rows past survey
    refine along_throwIf _ _ _ (fun _ => trivial) fun room => ?_
    refine along_then _ (along_surveyed _ ?_ survey) ?_
    · have still : ∀ {cmd : Cmd}, ¬ cmd.Closes → (∀ row skip, cmd ≠ .insert .sessions row skip) →
          cmd.Quiet := fun ends opens => ⟨ends, opens⟩
      exact uses_upsertDevice _ _ _ (fun _ => still id fun _ _ same => nomatch same)
        (fun _ => still id fun _ _ same => nomatch same) fun _ => still id fun _ _
          same => nomatch same
    · intro _ past surveyed
      refine along_then _ (openOrRefresh_room surveyed room) fun _ _ _ => ?_
      exact ⟨trivial, trivial⟩
  · intro timeoutSeconds past _
    refine along_then (fun _ _ => True) (along_command _ trivial fun _ => trivial) fun _ _ _ => ?_
    refine along_then (fun _ _ => True) ?_ fun _ _ _ => trivial
    apply along_rescue
    exact ⟨trivial, fun answer => by cases answer <;> trivial⟩

theorem call_room (call : Call) :
    Along (fun past cmd => call.mayDo cmd ∧ HasRoom call past cmd) (fun _ _ => True)
      (call.program config) [] := by
  have may : Along (fun _ cmd => call.mayDo cmd) (fun _ _ => True) (call.program config) [] :=
    along_mayDo call
  have room : Along (HasRoom call) (fun _ _ => True) (call.program config) [] := by
    by_cases connects : ∃ user dto, call = .connect user dto
    · obtain ⟨user, dto, rfl⟩ := connects
      exact along_post (fun _ _ _ => trivial) _ (connect_room user dto)
    · refine along_mono ?_ (fun _ _ _ => trivial) _ may
      intro past cmd may
      unfold HasRoom
      split
      · exfalso
        revert may
        cases call with
        | connect user dto => exact absurd ⟨user, dto, rfl⟩ connects
        | _ => simp [Call.mayDo, Call.inserts]
      · trivial
  exact along_post (fun _ _ _ => trivial) _ (along_and _ may room)

end Order

/-- The thread holds the account's row, whose limit is no less. -/
def Owns (thread : Nat) (world : World) (user limit : Nat) : Prop :=
  world.db.locks .users user = some thread ∧ limit ≤ limitIn (world.db.view thread) user

/-- What a running thread has locked and read still stands. -/
structure Surveyed (thread : Nat) (world : World) : Prop where
  account : ∀ user account older,
    pastOf world.hist thread = ⟨.lock .users user, .ok (some account)⟩ :: older →
      Owns thread world user account.deviceLimit
  survey : ∀ user account rest kept, Survey user account rest kept (pastOf world.hist thread) →
    Owns thread world user account.deviceLimit ∧
      ∀ id, ActiveOf (world.db.view thread) user id → id ∈ rest ∨ id ∈ kept.map (·.1)

section Exec
variable {thread : Nat} {world after : World} {choice : Choice}

theorem absent_next {db : Database} (sound : RowLock.Sound Act.run db) (table : TableName) :
    db.view thread table (db.next table) = none := by
  by_contra present
  have bound := RowLock.view_bound sound (Option.isSome_iff_ne_none.mpr present)
  exact absurd bound (Nat.lt_irrefl _)

/-- What a thread keeps across its own quiet steps. -/
structure Steady (thread : Nat) (before after : Database) : Prop where
  locks : ∀ table id, before.locks table id = some thread → after.locks table id = some thread
  limit : ∀ user, limitIn (before.view thread) user ≤ limitIn (after.view thread) user
  active : ∀ user id, ActiveOf (after.view thread) user id → ActiveOf (before.view thread) user id

theorem steady_view {before after : Database} (view : after.view thread = before.view thread)
    (locks : ∀ table id, before.locks table id = some thread → after.locks table id = some thread) :
    Steady thread before after := by
  constructor
  · exact locks
  · intro user
    rw [view]
  · intro user id active
    rwa [view] at active

theorem steady_same (db : Database) : Steady thread db db := steady_view rfl fun _ _ held => held

theorem exec_steady (ready : Ready world) {cmd : Cmd} {answer : Except Failure (Res cmd)}
    (closing : ∀ table id op, cmd = .update table id op → Closing table op) (still : cmd.Quiet)
    (executed : world.exec thread cmd choice = some (answer, after)) :
    Steady thread world.db after.db := by
  have deed := exec_deed executed
  generalize reached : after.db = db at deed
  cases deed with
  | read | failed | unlocked | missed | skipped | gone => exact steady_same _
  | began =>
      refine steady_view ?_ (RowLock.begin_keeps _).locks
      funext table id
      rw [RowLock.view_eq, RowLock.view_eq, RowLock.version_begin, RowLock.store_begin]
      rfl
  | committed | refused | undone => exact absurd trivial still.1
  | locked present granted =>
      obtain ⟨txns, store, _, _⟩ := RowLock.acquire_same granted
      exact steady_view (RowLock.view_same (congrFun txns thread) store)
        (RowLock.acquire_locks granted thread)
  | @updated table id op row _ present written =>
      have view := RowLock.view_write written
      constructor
      · exact (RowLock.write_keeps written).locks
      · intro user
        rw [view]
        exact limitIn_alter
      · intro user key active
        rw [view] at active
        exact activeOf_alter (closing table id op rfl) active
  | @inserted table row skip _ free single written =>
      have view := RowLock.view_write written
      have reserved : ((world.advance choice.elapsed).db.reserve table).view thread =
        world.db.view thread := RowLock.view_same rfl rfl
      rw [reserved] at view
      constructor
      · exact (RowLock.write_keeps written).locks
      · intro user
        rw [view]
        exact limitIn_create (absent_next ready.sound table)
      · intro user key active
        rw [view] at active
        refine activeOf_create ?_ active
        rintro ⟨rfl, _⟩
        exact still.2 row skip rfl
  | deleted written =>
      have view := RowLock.view_write written
      constructor
      · exact (RowLock.write_keeps written).locks
      · intro user
        rw [view]
        exact Nat.le_of_eq (limitIn_congr (remove_other (by simp))).symm
      · intro user key active
        rw [view] at active
        exact (activeOf_congr (remove_other (by simp))).mp active

theorem Steady.owns {user limit : Nat} (steady : Steady thread world.db after.db)
    (owns : Owns thread world user limit) : Owns thread after user limit :=
  ⟨steady.locks _ _ owns.1, Nat.le_trans owns.2 (steady.limit user)⟩

theorem mem_activeSessionsOf {view : View} {user id : Nat}
    (bound : (view.rows .sessions id).isSome → id < view.next .sessions)
    (active : ActiveOf view.rows user id) :
    id ∈ (Query.activeSessionsOf user).eval view := by
  obtain ⟨s, present, mine, open'⟩ := active
  refine List.mem_map.mpr ⟨(id, s), mem_scan.mpr ⟨bound (by simp [present]), present, ?_⟩, rfl⟩
  simp [mine, open']

theorem own_surveyed (ready : Ready world) (surveyed : Surveyed thread world) {cmd : Cmd}
    {answer : Except Failure (Res cmd)}
    (closing : ∀ table id op, cmd = .update table id op → Closing table op)
    (executed : world.exec thread cmd choice = some (answer, after)) : Surveyed thread after := by
  have past := exec_past executed
  constructor
  · intro user account older same
    rw [past] at same
    cases same
    have deed := exec_deed executed
    generalize reached : after.db = db at deed
    cases deed with
    | read reads => exact reads.elim
    | locked present granted =>
        obtain ⟨txns, store, _, _⟩ := RowLock.acquire_same granted
        rw [Owns, reached, RowLock.view_same (congrFun txns thread) store]
        refine ⟨RowLock.acquire_lock granted, ?_⟩
        rw [limitIn, present]
  · intro user account rest kept survey
    rw [past] at survey
    generalize before : pastOf world.hist thread = earlier at survey
    cases survey with
    | asked =>
        obtain ⟨rfl, db⟩ := exec_query executed
        have owns := surveyed.account user account _ before
        rw [Owns, db]
        refine ⟨owns, ?_⟩
        intro id active
        exact Or.inl (mem_activeSessionsOf (fun present => RowLock.view_bound ready.sound present)
          active)
    | @locked id _ kept _ row survey =>
        rw [← before] at survey
        obtain ⟨owns, active⟩ := surveyed.survey user account _ _ survey
        have still : (Cmd.lock .sessions id).Quiet := ⟨fun closes => closes, by simp⟩
        have steady := exec_steady ready closing still executed
        refine ⟨steady.owns owns, ?_⟩
        intro key active'
        have seen := steady.active user key active'
        rcases active key seen with first | earlier
        · rcases List.mem_cons.mp first with rfl | later
          · right
            obtain ⟨s, present, mine, open'⟩ := seen
            have row' : row = some s := by
              have deed := exec_deed executed
              generalize reached : after.db = db at deed
              cases deed with
              | read reads => exact reads.elim
              | unlocked absent => cases absent.symm.trans present
              | locked present' granted => exact present'.symm.trans present
            simp [row', mine, open']
          · exact Or.inl later
        · right
          rw [List.map_append]
          exact List.mem_append_left _ earlier
    | quiet _ still survey =>
        rw [← before] at survey
        obtain ⟨owns, active⟩ := surveyed.survey user account rest kept survey
        have steady := exec_steady ready closing still executed
        exact ⟨steady.owns owns, fun id active' => active id (steady.active user id active')⟩

theorem Surveyed.later {thread : Nat} (surveyed : Surveyed thread world)
    (past : pastOf after.hist thread = pastOf world.hist thread)
    (undisturbed : RowLock.Undisturbed thread world.db after.db)
    (active : ∀ user id, world.db.locks .users user = some thread →
      ActiveOf (after.db.view thread) user id → ActiveOf (world.db.view thread) user id) :
    Surveyed thread after := by
  have owns : ∀ user limit, Owns thread world user limit → Owns thread after user limit := by
    rintro user limit ⟨held, least⟩
    refine ⟨undisturbed.locks _ _ held, ?_⟩
    rwa [limitIn_congr (undisturbed.view held)]
  constructor
  · intro user account older same
    rw [past] at same
    exact owns _ _ (surveyed.account user account older same)
  · intro user account rest kept survey
    rw [past] at survey
    obtain ⟨owned, listed⟩ := surveyed.survey user account rest kept survey
    exact ⟨owns _ _ owned, fun id active' => listed id (active user id owned.1 active')⟩

theorem other_surveyed {mover : Nat} (ready : Ready world) (bounded : Bounded world.db)
    (different : thread ≠ mover) (surveyed : Surveyed thread world) {cmd : Cmd}
    {answer : Except Failure (Res cmd)}
    (executed : world.exec mover cmd choice = some (answer, after)) : Surveyed thread after := by
  obtain ⟨_, _, _, step⟩ := exec_cases executed
  have undisturbed := dbStep_undisturbed ready.sound different step
  refine surveyed.later (exec_past_other different executed) undisturbed ?_
  · intro user id held active
    rcases dbStep_store step with committed | ⟨_, store⟩
    · rw [committed] at active
      exact activeOf_commit ready.sound bounded different held active
    · rwa [RowLock.view_same undisturbed.txn store] at active

theorem opened_within (surveyed : Surveyed thread world) {user new : Nat}
    {account : UserRow} {kept : List (Nat × SessionRow)} {s : SessionRow}
    (survey : Survey user account [] kept (pastOf world.hist thread))
    (fits : kept.length < account.deviceLimit) :
    world.db.locks .users user = some thread ∧
      AtMost (RowLock.runEntry Act.run (world.db.view thread) (create .sessions new s)) user
        (limitIn (RowLock.runEntry Act.run (world.db.view thread) (create .sessions new s))
          user) := by
  obtain ⟨⟨held, least⟩, listed⟩ := surveyed.survey user account [] kept survey
  have counted : AtMost (world.db.view thread) user (kept.map (·.1)).length :=
    atMost_listed fun id active => (listed id active).resolve_left (by simp)
  rw [List.length_map] at counted
  refine ⟨held, ?_⟩
  have same : limitIn (RowLock.runEntry Act.run (world.db.view thread) (create .sessions new s))
      user = limitIn (world.db.view thread) user :=
    limitIn_congr (RowLock.runEntry_other _ _ _ _ _ fun hit => nomatch hit.1)
  have one : AtMost (RowLock.runEntry Act.run (world.db.view thread) (create .sessions new s)) user
      (kept.length + 1) := by
    refine atMost_opened new counted fun id active => ?_
    by_cases same : id = new
    · exact Or.inl same
    · exact Or.inr (activeOf_create (fun hit => same hit.2.symm) active)
  refine atMost_fewer one (fun _ active => active) ?_
  rw [same]
  exact Nat.le_trans fits least

theorem exec_bounded (ready : Ready world) (bounded : Bounded world.db)
    (surveyed : Surveyed thread world) {call : Call} {cmd : Cmd}
    {answer : Except Failure (Res cmd)} (may : call.mayDo cmd)
    (room : HasRoom call (pastOf world.hist thread) cmd)
    (executed : world.exec thread cmd choice = some (answer, after)) : Bounded after.db := by
  have deed := exec_deed executed
  generalize reached : after.db = db at deed
  cases deed with
  | read | failed | unlocked | missed | skipped | gone => exact bounded
  | began =>
      refine bounded_unchanged bounded (RowLock.store_begin _) (fun holder => ?_)
        fun holder => (RowLock.begin_keeps _).locks
      funext table id
      rw [RowLock.view_eq, RowLock.view_eq, RowLock.version_begin, RowLock.store_begin]
      rfl
  | committed => exact bounded_commit ready.sound bounded
  | refused | undone => exact bounded_rollback bounded
  | locked present granted =>
      obtain ⟨txns, store, _, _⟩ := RowLock.acquire_same granted
      exact bounded_unchanged bounded store
        (fun holder => RowLock.view_same (congrFun txns holder) store)
        fun holder => RowLock.acquire_locks granted holder
  | @updated table id op row _ present written =>
      refine bounded_write bounded written (fun user => limitIn_alter) ?_
      exact fun user key active => Or.inl (activeOf_alter may.2 active)
  | @inserted table row skip _ free single written =>
      have view : ∀ holder, ((world.advance choice.elapsed).db.reserve table).view holder =
        world.db.view holder := fun holder => RowLock.view_same rfl rfl
      have reserved : Bounded ((world.advance choice.elapsed).db.reserve table) :=
        bounded_unchanged bounded rfl view fun _ _ _ held => held
      refine bounded_write reserved written ?_ ?_
      · intro user
        rw [view]
        exact limitIn_create (absent_next ready.sound table)
      · intro user key active
        rw [view] at active ⊢
        by_cases new : table = .sessions ∧ (world.advance choice.elapsed).db.next table = key
        · obtain ⟨rfl, rfl⟩ := new
          obtain ⟨client, dto, account, kept, _, mine, survey, fits⟩ := room
          by_cases own : user = client.id
          · subst own
            exact Or.inr (opened_within surveyed survey fits)
          · -- the new session is somebody else's
            obtain ⟨s, left, owner, _⟩ := active
            have made := RowLock.runEntry_at Act.run (world.db.view thread)
              (create .sessions ((world.advance choice.elapsed).db.next .sessions)
                (row ((world.advance choice.elapsed).view thread choice.order).now))
            cases (left.symm.trans made)
            exact absurd (owner.symm.trans (mine _)) own
        · exact Or.inl (activeOf_create new active)
  | deleted written =>
      refine bounded_write bounded written ?_ ?_
      · exact fun user => Nat.le_of_eq (limitIn_congr (remove_other (by simp))).symm
      · exact fun user key active => Or.inl ((activeOf_congr (remove_other (by simp))).mp active)

end Exec

theorem reached_bounded {config : Config} {pool : ServerPool} (reached : Reached config pool) :
    Bounded pool.state.db := by
  refine (reached_live call_room (fun world => Bounded world.db) Surveyed ?_ ?_ ?_ ?_ ?_ ?_ ?_
    reached).1
  · have nobody : ∀ user id, ¬ ActiveOf World.initial.db.store user id := by
      rintro user id ⟨s, present, _⟩
      cases present
    constructor
    · intro user ids _ active
      cases ids with
      | nil => exact Nat.zero_le _
      | cons id rest => exact absurd (active id (by simp)) (nobody user id)
    · exact fun thread user => Nat.zero_le _
    · exact fun thread user id active => absurd active (nobody user id)
  · intro pool thread _ nothing _
    constructor
    · intro user account older same
      rw [nothing] at same
      cases same
    · intro user account rest kept survey
      rw [nothing] at survey
      cases survey
  · exact fun call world bounded => ⟨bounded, fun thread surveyed =>
      surveyed.later rfl (RowLock.undisturbed_refl _ _) fun _ _ _ active => active⟩
  · intro pool thread call cmd choice answer after before bounded surveyed _ permitted executed
    have ready := reached_ready before
    refine ⟨exec_bounded ready bounded surveyed permitted.1 permitted.2 executed, ?_⟩
    refine own_surveyed ready surveyed ?_ executed
    rintro table id op rfl
    exact permitted.1.2
  · intro pool thread mover cmd choice answer after before bounded different surveyed executed
    exact other_surveyed (reached_ready before) bounded different surveyed executed
  · intro mover world bounded
    refine ⟨bounded_rollback bounded, fun thread different surveyed => ?_⟩
    have undisturbed : RowLock.Undisturbed _ world.db (world.db.rollback _) :=
      RowLock.rollback_undisturbed different
    refine surveyed.later rfl undisturbed ?_
    intro user id _ active
    have same : (world.crash mover).db.view thread = world.db.view thread :=
      RowLock.view_same undisturbed.txn rfl
    rwa [same] at active
  · intro event before after bounded happened
    obtain ⟨db, _, _, hist⟩ := ambient_cases happened
    rw [db]
    refine ⟨bounded, fun thread surveyed => ?_⟩
    refine surveyed.later (by rw [hist]) (db ▸ RowLock.undisturbed_refl _ _) ?_
    intro user id _ active
    rwa [db] at active

/-! The limit as the maximum of what was credited. -/

def limitOf (user : Nat) : Entry → Option Nat
  | ⟨.users, id, .update (.credit _ limit _) _⟩ => if id = user then limit else none
  | _ => none

def limitsCredited (log : List Block) (user : Nat) : List Nat :=
  (log.flatMap (·.2)).filterMap (limitOf user)

/-- The act makes a new account or leaves its limit alone. -/
def Entering (user : Nat) (entry : Entry) : Prop :=
  (∃ account : UserRow, entry = create .users user account ∧ account.deviceLimit = 1) ∨
    ∃ op : UserOp, ∃ now, entry = alter .users user op now ∧
      ∀ seconds limit source, op ≠ .credit seconds limit source

section Limits
variable {user : Nat} {acts : List Entry} {rows : Store}

theorem limitOf_other {entry : Entry} (other : ¬ (entry.table = .users ∧ entry.id = user)) :
    limitOf user entry = none := by
  obtain ⟨table, id, act⟩ := entry
  cases table with
  | users =>
      cases act with
      | update op now =>
          cases op with
          | credit seconds limit source => exact if_neg fun same => other ⟨rfl, same⟩
          | _ => rfl
      | _ => rfl
  | _ => rfl

theorem limitOf_entering {entry : Entry} (entering : Entering user entry) :
    limitOf user entry = none := by
  obtain ⟨account, rfl, _⟩ | ⟨op, now, rfl, uncredited⟩ := entering
  · rfl
  · cases op with
    | credit seconds limit source => exact absurd rfl (uncredited _ _ _)
    | _ => rfl

theorem limit_op (user : Nat) (op : UserOp) (now : Time) (account : UserRow) :
    (Op.run .users op now account).deviceLimit =
      (limitOf user (alter .users user op now)).toList.foldl max account.deviceLimit := by
  cases op with
  | credit seconds limit source =>
      cases limit with
      | none => simp [limitOf, alter, Op.run, UserOp.run, raiseLimit]
      | some limit => simp [limitOf, alter, Op.run, UserOp.run, raiseLimit]
  | charge elapsed session => rfl
  | syncAdmin hash => rfl

theorem limits_replayed {account : UserRow} (alters : AltersAt .users user acts)
    (present : rows .users user = some account) : ∃ after : UserRow,
      replay acts rows .users user = some after ∧
        after.deviceLimit = (acts.filterMap (limitOf user)).foldl max account.deviceLimit := by
  induction acts generalizing rows account with
  | nil => exact ⟨account, present, rfl⟩
  | cons entry rest ih =>
      have others : AltersAt .users user rest :=
        fun other member => alters other (List.mem_cons_of_mem entry member)
      by_cases hit : entry.table = .users ∧ entry.id = user
      · obtain ⟨op, now, rfl⟩ := alters entry (by simp) hit.1 hit.2
        have moved : RowLock.runEntry Act.run rows (alter .users user op now) .users user =
            some (Op.run .users op now account) := by
          rw [alter_same, present]
          rfl
        obtain ⟨after, left, limit⟩ := ih others moved
        refine ⟨after, left, limit.trans ?_⟩
        rw [limit_op user op now account]
        cases credited : limitOf user (alter .users user op now) with
        | none => rw [List.filterMap_cons_none credited, Option.toList_none, List.foldl_nil]
        | some more => rw [List.filterMap_cons_some credited, Option.toList_some, List.foldl_cons,
            List.foldl_nil, List.foldl_cons]
      · rw [List.filterMap_cons_none (limitOf_other hit)]
        refine ih others ?_
        rwa [RowLock.runEntry_other _ _ _ _ _ fun same => hit ⟨same.1.symm, same.2.symm⟩]

theorem entering_replayed
    (entering : ∀ entry ∈ acts, entry.table = .users → entry.id = user → Entering user entry)
    (before : ∀ account : UserRow, rows .users user = some account → account.deviceLimit = 1)
    {account : UserRow} (left : replay acts rows .users user = some account) :
    account.deviceLimit = 1 := by
  induction acts generalizing rows with
  | nil => exact before account left
  | cons entry rest ih =>
      refine ih (fun other member => entering other (List.mem_cons_of_mem entry member)) ?_ left
      intro account' after
      by_cases hit : entry.table = .users ∧ entry.id = user
      · obtain ⟨made, rfl, one⟩ | ⟨op, now, rfl, uncredited⟩ := entering entry (by simp) hit.1 hit.2
        · rw [create_same, Option.some.injEq] at after
          exact after ▸ one
        · rw [alter_same, Option.map_eq_some_iff] at after
          obtain ⟨account, present, rfl⟩ := after
          have nothing : limitOf user (alter .users user op now) = none :=
            limitOf_entering (Or.inr ⟨op, now, rfl, uncredited⟩)
          rw [limit_op user op now account, nothing]
          exact before account present
      · rw [RowLock.runEntry_other _ _ _ _ _ fun same => hit ⟨same.1.symm, same.2.symm⟩] at after
        exact before account' after

end Limits

theorem absent_entering {config : Config} {basis : Basis} {thread user : Nat} {call : Call}
    {acts : List Entry} (lawful : Lawful config basis thread call acts)
    (absent : ∀ account : UserRow, ¬ basis.row .users user (some account)) :
    ∀ entry ∈ acts, entry.table = .users → entry.id = user → Entering user entry := by
  have tables := lawful_tables lawful
  have there : ∀ id, ∀ account : UserRow, basis.row .users id (some account) → id ≠ user := by
    rintro id account row rfl
    exact absent account row
  have made : ∀ id, ∀ account : UserRow, account.deviceLimit = 1 → id = user →
      Entering user (create .users id account) := by
    rintro id account one rfl
    exact Or.inl ⟨account, rfl, one⟩
  intro entry member users mine
  have listed := tables entry member
  rw [users] at listed
  cases lawful with
  | nothing => cases member
  | redeem voucher unused owner =>
      simp only [List.mem_cons, List.not_mem_nil, or_false] at member
      obtain rfl | rfl := member
      · cases users
      · exact absurd mine (there _ _ owner)
  | approve row pending owner asked ordered locked earlier =>
      simp only [List.mem_cons, List.not_mem_nil, or_false] at member
      obtain rfl | rfl := member
      · cases users
      · exact absurd mine (there _ _ owner)
  | reject =>
      rw [List.mem_singleton] at member
      subst member
      cases users
  | grant owner =>
      rw [List.mem_singleton] at member
      subst member
      exact absurd mine (there _ _ owner)
  | tick ordered pass =>
      obtain device | ⟨id, elapsed, rfl⟩ | ⟨id, rfl⟩ | ⟨id, elapsed, session, rfl⟩ :=
        settled_entries pass entry member
      · cases device.symm.trans users
      · cases users
      · cases users
      · obtain rfl : id = user := mine
        exact Or.inr ⟨_, _, rfl, by simp⟩
  | register =>
      rw [List.mem_singleton] at member
      subst member
      exact made _ _ rfl mine
  | seedAdmin =>
      rw [List.mem_singleton] at member
      subst member
      exact made _ _ rfl mine
  | @syncAdmin adminUser adminPass count id =>
      rw [List.mem_singleton] at member
      subst member
      obtain rfl : id = user := mine
      exact Or.inr ⟨_, _, rfl, by simp⟩
  | seedClients fresh =>
      obtain ⟨id, number, _, _, _, rfl⟩ := fresh entry member
      exact made _ _ rfl mine
  | _ => simp [Call.tables] at listed

theorem limitsCredited_succ {log : List Block} {index thread : Nat} {acts : List Entry}
    (found : log[index]? = some (thread, acts)) (user : Nat) :
    limitsCredited (log.take (index + 1)) user =
      limitsCredited (log.take index) user ++ acts.filterMap (limitOf user) := by
  simp [limitsCredited, List.take_add_one, found]

theorem limit_credited {config : Config} {world : World} (legit : Legit config world) {user : Nat}
    {commits : Nat} (bound : commits ≤ world.db.log.length) :
    (storeAfter world.db.log commits .users user = none →
      limitsCredited (world.db.log.take commits) user = []) ∧
    ∀ account : UserRow, storeAfter world.db.log commits .users user = some account →
      account.deviceLimit = (limitsCredited (world.db.log.take commits) user).foldl max 1 := by
  refine log_induction legit (fun commits =>
    (storeAfter world.db.log commits .users user = none →
      limitsCredited (world.db.log.take commits) user = []) ∧
    ∀ account : UserRow, storeAfter world.db.log commits .users user = some account →
      account.deviceLimit = (limitsCredited (world.db.log.take commits) user).foldl max 1)
    ?_ ?_ commits bound
  · exact ⟨fun _ => rfl, fun account present => nomatch present⟩
  intro index thread acts call found _ lawful next before
  rw [limitsCredited_succ found]
  cases present : storeAfter world.db.log index .users user with
  | none =>
      have entering : ∀ entry ∈ acts, entry.table = .users → entry.id = user →
          Entering user entry := absent_entering lawful fun account row =>
        nomatch present.symm.trans (show storeAfter world.db.log index .users user = _ from row)
      have nothing : acts.filterMap (limitOf user) = [] := by
        refine List.filterMap_eq_nil_iff.mpr fun entry member => ?_
        by_cases hit : entry.table = .users ∧ entry.id = user
        · exact limitOf_entering (entering entry member hit.1 hit.2)
        · exact limitOf_other hit
      rw [nothing, before.1 present, List.append_nil]
      refine ⟨fun _ => rfl, fun account left => ?_⟩
      rw [next] at left
      exact entering_replayed entering (fun account stored => nomatch present.symm.trans stored)
        left
  | some account =>
      have alters : AltersAt .users user acts :=
        lawful_alters lawful (by simp) (by simp) (by simp [present])
      obtain ⟨after, left, limit⟩ := limits_replayed alters present
      rw [← next] at left
      constructor
      · intro absent
        cases left.symm.trans absent
      · intro account' left'
        rw [left, Option.some.injEq] at left'
        subst left'
        rw [limit, before.2 account present, List.foldl_append]

def activeSessions (db : Database) (user : Nat) : List Nat :=
  (List.range (db.next .sessions)).filter fun id =>
    match db.store .sessions id with
    | some (s : SessionRow) => s.userId == user && s.status == .active
    | none => false

theorem mem_activeSessions {db : Database} {user id : Nat} (member : id ∈ activeSessions db user) :
    ActiveOf db.store user id := by
  have kept := (List.mem_filter.mp member).2
  split at kept
  · rename_i s present
    simp only [Bool.and_eq_true, beq_iff_eq] at kept
    exact ⟨s, present, kept⟩
  · cases kept

section Runs
variable {config : Config} {pool after : ServerPool}

theorem limit_ratchet (reached : Reached config pool) {move : Move Choice Call Ambient}
    (moved : step (server config) pool move = some after) (user : Nat) :
    limitIn pool.state.db.store user ≤ limitIn after.state.db.store user := by
  have reached' := reached.next move moved
  obtain ⟨grows, _⟩ := move_log moved
  have raises : ∀ (op : UserOp) (now : Time) (account : UserRow),
      account.deviceLimit ≤ (Op.run .users op now account).deviceLimit := by
    intro op now account
    cases op with
    | credit seconds limit source => exact raiseLimit_ge _ _
    | charge elapsed session | syncAdmin hash => exact Nat.le_refl _
  cases present : pool.state.db.store .users user with
  | none => simp [limitIn, present]
  | some account =>
      have before := present
      rw [(reached_ready reached).recorded, ← storeAfter_grown grows _ (Nat.le_refl _)] at before
      obtain ⟨account', left, raised⟩ := row_related (reached_legit reached') (by simp) (by simp)
        (fun before after : UserRow => before.deviceLimit ≤ after.deviceLimit)
        (fun _ => Nat.le_refl _) (fun _ _ _ => Nat.le_trans) raises grows.length_le
        (Nat.le_refl _) before
      rw [← (reached_ready reached').recorded] at left
      rwa [limitIn, limitIn, present, left]

/-- The device limit bounds the active sessions of an account in every reachable
state, no step lowers it, and it is the maximum of 1 and of the limits credited. -/
theorem device_limit_kept (config : Config) (pool : ServerPool) (reached : Reached config pool) :
    (∀ user, (activeSessions pool.state.db user).length ≤ limitIn pool.state.db.store user) ∧
    (∀ move after, step (server config) pool move = some after → ∀ user,
      limitIn pool.state.db.store user ≤ limitIn after.state.db.store user) ∧
    ∀ user, ∀ account : UserRow, pool.state.db.store .users user = some account →
      ∀ limits : List Nat, limits.Perm (limitsCredited pool.state.db.log user) →
        account.deviceLimit = limits.foldl max 1 := by
  refine ⟨?_, ?_, ?_⟩
  · intro user
    exact (reached_bounded reached).within user _ (List.nodup_range.filter _)
      fun id member => mem_activeSessions member
  · intro move after moved user
    exact limit_ratchet reached moved user
  · intro user account present limits order
    rw [(reached_ready reached).recorded] at present
    have credited := (limit_credited (reached_legit reached) (Nat.le_refl _)).2 account present
    rw [List.take_length] at credited
    rw [credited]
    exact order.symm.foldl_eq' (fun _ _ _ _ _ => Nat.max_right_comm _ _ _) 1

end Runs

/-- Both devices pass the cooldown check before either has locked the account. -/
def twoConnects : List (Move Choice Call Ambient) :=
  arrival ++ [.start (.connect guest phone), .start (.connect guest tablet)] ++ steps 2 2 ++
    steps 3 2 ++ steps 2 8 ++ steps 3 4

theorem device_limit_raced : ∃ pool, Reached shop pool ∧
    activeSessions pool.state.db 2 = [1] ∧ limitIn pool.state.db.store 2 = 1 ∧
    answerOf pool 3 = some (.error (.forbidden (limitMessage 1))) ∧
    (∀ user, (activeSessions pool.state.db user).length ≤ limitIn pool.state.db.store user) ∧
    ∀ user, ∀ account : UserRow, pool.state.db.store .users user = some account →
      ∀ limits : List Nat, limits.Perm (limitsCredited pool.state.db.log user) →
        account.deviceLimit = limits.foldl max 1 := by
  obtain ⟨pool, reached, _, seen⟩ := play_shows shop twoConnects
    (fun pool => activeSessions pool.state.db 2 == [1] && limitIn pool.state.db.store 2 == 1 &&
      decide (answerOf pool 3 = some (.error (.forbidden (limitMessage 1))))) true
    (by decide +kernel)
  simp only [Bool.and_eq_true, beq_iff_eq, decide_eq_true_eq] at seen
  obtain ⟨⟨active, limit⟩, refused⟩ := seen
  have kept := device_limit_kept shop pool reached
  exact ⟨pool, reached, active, limit, refused, kept.1, kept.2.2⟩

end Cybera
