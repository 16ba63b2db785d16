import Cybera.System

/-!
What the log may contain: for each call the transactions it commits, with the
rows they were based on. This is the system without its statements: a sequence
of atomic transactions. That every run of the programs stays within it is
proved call by call in the modules that follow.
-/

namespace Cybera

open Interleaving

abbrev Block := Nat × List Entry

def alter (table : TableName) (id : Nat) (op : Op table) (now : Time) : Entry :=
  ⟨table, id, .update op now⟩

def create (table : TableName) (id : Nat) (row : Row table) : Entry := ⟨table, id, .insert row⟩

def remove (table : TableName) (id : Nat) : Entry := ⟨table, id, .delete⟩

/-! What an act does to a row, and to the rows it does not name. -/
section Acts
variable (store : Store) (table other : TableName) (id key : Nat)

@[simp] theorem replay_nil : replay [] store = store := rfl

@[simp] theorem replay_cons (entry : Entry) (rest : List Entry) :
    replay (entry :: rest) store = replay rest (RowLock.runEntry Act.run store entry) := rfl

theorem replay_append (before rest : List Entry) :
    replay (before ++ rest) store = replay rest (replay before store) :=
  RowLock.replay_append _ _ _ _

@[simp] theorem alter_same (op : Op table) (now : Time) :
    RowLock.runEntry Act.run store (alter table id op now) table id =
      (store table id).map (Op.run table op now) :=
  RowLock.runEntry_at _ _ (alter table id op now)

@[simp] theorem alter_table (op : Op table) (now : Time) (different : other ≠ table) :
    RowLock.runEntry Act.run store (alter table id op now) other key = store other key :=
  RowLock.runEntry_other _ _ _ _ _ fun same => different same.1

@[simp] theorem alter_key (op : Op table) (now : Time) (different : key ≠ id) :
    RowLock.runEntry Act.run store (alter table id op now) table key = store table key :=
  RowLock.runEntry_other _ _ _ _ _ fun same => different same.2

@[simp] theorem create_same (row : Row table) :
    RowLock.runEntry Act.run store (create table id row) table id = some row :=
  RowLock.runEntry_at _ _ (create table id row)

@[simp] theorem create_table (row : Row table) (different : other ≠ table) :
    RowLock.runEntry Act.run store (create table id row) other key = store other key :=
  RowLock.runEntry_other _ _ _ _ _ fun same => different same.1

@[simp] theorem create_key (row : Row table) (different : key ≠ id) :
    RowLock.runEntry Act.run store (create table id row) table key = store table key :=
  RowLock.runEntry_other _ _ _ _ _ fun same => different same.2

@[simp] theorem remove_table (different : other ≠ table) :
    RowLock.runEntry Act.run store (remove table id) other key = store other key :=
  RowLock.runEntry_other _ _ _ _ _ fun same => different same.1

@[simp] theorem remove_same :
    RowLock.runEntry Act.run store (remove table id) table id = none :=
  RowLock.runEntry_at _ _ (remove table id)

@[simp] theorem remove_key (different : key ≠ id) :
    RowLock.runEntry Act.run store (remove table id) table key = store table key :=
  RowLock.runEntry_other _ _ _ _ _ fun same => different same.2

theorem replay_table (acts : List Entry) (absent : ∀ entry ∈ acts, entry.table ≠ table) :
    replay acts store table id = store table id := by
  apply RowLock.replay_untouched
  rintro entry member ⟨rfl, _⟩
  exact absent entry member rfl

/-- Every act on the row is an UPDATE. -/
def AltersAt (acts : List Entry) : Prop :=
  ∀ entry ∈ acts, entry.table = table → entry.id = id → ∃ op now, entry = alter table id op now

theorem alters_all {acts : List Entry}
    (updates : ∀ entry ∈ acts, ∃ table id op now, entry = alter table id op now) :
    AltersAt table id acts := by
  rintro entry member rfl rfl
  obtain ⟨_, _, op, now, rfl⟩ := updates entry member
  exact ⟨op, now, rfl⟩

theorem replay_absent (acts : List Entry) (alters : AltersAt table id acts)
    (absent : store table id = none) : replay acts store table id = none := by
  induction acts generalizing store with
  | nil => exact absent
  | cons entry rest ih =>
      refine ih _ (fun other member => alters other (List.mem_cons_of_mem entry member)) ?_
      by_cases hit : table = entry.table ∧ id = entry.id
      · obtain ⟨op, now, rfl⟩ := alters entry (by simp) hit.1.symm hit.2.symm
        simp [absent]
      · rwa [RowLock.runEntry_other _ _ _ _ _ hit]

/-- The columns that no UPDATE of the services sets. -/
def Same : (table : TableName) → Row table → Row table → Prop
  | .users, (before : UserRow), (after : UserRow) => after.username = before.username
  | .plans, _, _ => True
  | .planRequests, (before : PlanRequestRow), (after : PlanRequestRow) =>
      after.userId = before.userId
  | .vouchers, (before : VoucherRow), (after : VoucherRow) =>
      after.code = before.code ∧ after.durationMinutes = before.durationMinutes ∧
        after.deviceLimit = before.deviceLimit
  | .devices, (before : DeviceRow), (after : DeviceRow) =>
      after.userId = before.userId ∧ after.mac = before.mac
  | .sessions, (before : SessionRow), (after : SessionRow) =>
      after.userId = before.userId ∧ after.deviceMac = before.deviceMac ∧
        after.startedAt = before.startedAt

theorem same_refl (row : Row table) : Same table row row := by
  cases table <;> simp [Same]

theorem same_trans {first second third : Row table} (left : Same table first second)
    (right : Same table second third) : Same table first third := by
  cases table <;> simp_all [Same]

theorem op_same (op : Op table) (now : Time) (row : Row table) :
    Same table row (Op.run table op now row) := by
  cases table with
  | users => cases op <;> rfl
  | plans => trivial
  | planRequests => cases op <;> rfl
  | vouchers => cases op <;> exact ⟨rfl, rfl, rfl⟩
  | devices => cases op <;> exact ⟨rfl, rfl⟩
  | sessions => cases op <;> exact ⟨rfl, rfl, rfl⟩

/-- A relation that every UPDATE of the table respects holds from a row to what
updates make of it. -/
theorem replay_related (related : Row table → Row table → Prop) (refl : ∀ row, related row row)
    (trans : ∀ first second third, related first second → related second third →
      related first third)
    (step : ∀ op now row, related row (Op.run table op now row)) (acts : List Entry)
    (alters : AltersAt table id acts) {row : Row table} (present : store table id = some row) :
    ∃ after, replay acts store table id = some after ∧ related row after := by
  induction acts generalizing store row with
  | nil => exact ⟨row, present, refl row⟩
  | cons entry rest ih =>
      have alters' : AltersAt table id rest :=
        fun other member => alters other (List.mem_cons_of_mem entry member)
      by_cases hit : table = entry.table ∧ id = entry.id
      · obtain ⟨op, now, rfl⟩ := alters entry (by simp) hit.1.symm hit.2.symm
        obtain ⟨after, found, reach⟩ := ih (RowLock.runEntry Act.run store (alter table id op now))
          alters' (by rw [alter_same, present]; rfl)
        exact ⟨after, found, trans _ _ _ (step op now row) reach⟩
      · exact ih _ alters' (by rwa [RowLock.runEntry_other _ _ _ _ _ hit])

theorem replay_keeps (holds : Row table → Prop) (permitted : Op table → Time → Prop)
    (step : ∀ op now row, permitted op now → holds row → holds (Op.run table op now row))
    (acts : List Entry) (alters : ∀ entry ∈ acts, entry.table = table → entry.id = id →
      ∃ op now, entry = alter table id op now ∧ permitted op now)
    {row : Row table} (present : store table id = some row) (start : holds row) :
    ∃ after, replay acts store table id = some after ∧ holds after := by
  induction acts generalizing store row with
  | nil => exact ⟨row, present, start⟩
  | cons entry rest ih =>
      have alters' := fun other member => alters other (List.mem_cons_of_mem entry member)
      by_cases hit : table = entry.table ∧ id = entry.id
      · obtain ⟨op, now, rfl, granted⟩ := alters entry (by simp) hit.1.symm hit.2.symm
        have moved : RowLock.runEntry Act.run store (alter table id op now) table id =
            some (Op.run table op now row) := by
          rw [alter_same, present]
          rfl
        exact ih _ alters' moved (step op now row granted start)
      · exact ih _ alters' (by rwa [RowLock.runEntry_other _ _ _ _ _ hit]) start

theorem replay_acts (holds : Row table → Prop) {acts : List Entry}
    (alters : AltersAt table id acts)
    (step : ∀ op now row, alter table id op now ∈ acts → holds row →
      holds (Op.run table op now row))
    {row : Row table} (present : store table id = some row) (start : holds row) :
    ∃ after, replay acts store table id = some after ∧ holds after := by
  refine replay_keeps store table id holds (fun op now => alter table id op now ∈ acts) step acts
    ?_ present start
  intro entry member listed same
  obtain ⟨op, now, rfl⟩ := alters entry member listed same
  exact ⟨op, now, rfl, member⟩

theorem replay_made (holds : Row table → Prop) (permitted : Op table → Time → Prop)
    (step : ∀ op now row, permitted op now → holds row → holds (Op.run table op now row))
    (acts : List Entry) (made : ∀ entry ∈ acts, entry.table = table → entry.id = id →
      (∃ op now, entry = alter table id op now ∧ permitted op now) ∨
        ∃ row, entry = create table id row ∧ holds row)
    (start : ∀ row, store table id = some row → holds row) {row : Row table}
    (present : replay acts store table id = some row) : holds row := by
  induction acts generalizing store with
  | nil => exact start row present
  | cons entry rest ih =>
      refine ih _ (fun other member => made other (List.mem_cons_of_mem entry member)) ?_ present
      intro middle found
      by_cases hit : table = entry.table ∧ id = entry.id
      · obtain ⟨op, now, rfl, granted⟩ | ⟨new, rfl, held⟩ :=
          made entry (by simp) hit.1.symm hit.2.symm
        · rw [alter_same, Option.map_eq_some_iff] at found
          obtain ⟨old, present, rfl⟩ := found
          exact step op now old granted (start old present)
        · rw [create_same, Option.some.injEq] at found
          exact found ▸ held
      · rw [RowLock.runEntry_other _ _ _ _ _ hit] at found
        exact start middle found

theorem replay_same (acts : List Entry) (alters : AltersAt table id acts) {row : Row table}
    (present : store table id = some row) :
    ∃ after, replay acts store table id = some after ∧ Same table row after :=
  replay_related store table id (Same table) (same_refl table) (fun _ _ _ => same_trans table)
    (op_same table) acts alters present

end Acts

/-- What a transaction can refer to: the committed rows that its locks protect,
the commits before it and the steps taken so far. -/
structure Basis where
  row : (table : TableName) → Nat → Option (Row table) → Prop
  log : List Block
  hist : List Event

structure Basis.Extends (more less : Basis) : Prop where
  row : ∀ table id row, less.row table id row → more.row table id row
  log : less.log <+: more.log
  hist : less.hist <+: more.hist

/-- The basis of an open transaction and the basis of a committed one. -/
def World.basis (world : World) (thread : Nat) : Basis where
  row table id row := RowLock.Holds world.db thread table id row
  log := world.db.log
  hist := world.hist

def committedBasis (log : List Block) (hist : List Event) : Basis where
  row table id row := storeAfter log log.length table id = row
  log := log
  hist := hist

theorem storeAfter_take (log : List Block) (index : Nat) :
    storeAfter (log.take index) (log.take index).length = storeAfter log index := by
  rw [storeAfter, List.take_length, storeAfter]

/-- The thread committed `acts` on rows that satisfy `based`. -/
def World.Committed (world : World) (thread : Nat) (acts : List Entry) (based : Store → Prop) :
    Prop :=
  ∃ index, world.db.log[index]? = some (thread, acts) ∧ based (storeAfter world.db.log index)

def OnDevices (acts : List Entry) : Prop := ∀ entry ∈ acts, entry.table = .devices

def Finishes (basis : Basis) (mac : Text) (status : SessionStatus) (now : Time)
    (acts : List Entry) : Prop :=
  ∀ entry ∈ acts, ∃ id, ∃ s : SessionRow, entry = alter .sessions id (.finish status) now ∧
    basis.row .sessions id (some s) ∧ s.status = .active ∧ s.deviceMac = mac

/-- The settlement of one pass. The rows of the first two cases are locked; the
exhausted ones come from a plain SELECT. -/
inductive Settled (basis : Basis) (thread : Nat) (now date : Time) : List Entry → Prop where
  | nothing : Settled basis thread now date []
  | settled {acts device : List Entry} {id : Nat} {s : SessionRow} {account : UserRow}
      (before : Settled basis thread now date acts)
      (row : basis.row .sessions id (some s)) (active : s.status = .active)
      (owner : basis.row .users s.userId (some account))
      (positive : 0 < elapsedSeconds date s.lastTick) (devices : OnDevices device) :
      Settled basis thread now date (acts ++
        (alter .sessions id (.settle (elapsedSeconds date s.lastTick)) now ::
          alter .users s.userId (.charge (elapsedSeconds date s.lastTick) id) now :: device))
  | vanished {acts : List Entry} {id : Nat} {s : SessionRow}
      (before : Settled basis thread now date acts)
      (row : basis.row .sessions id (some s)) (active : s.status = .active)
      (late : connectGraceMs < date - s.startedAt) :
      Settled basis thread now date (acts ++ [alter .sessions id (.finish .ended) now])
  | exhausted {acts pending : List Entry} {id read : Nat} {s : SessionRow} {time : Time}
      {view : View} {found : List (Nat × SessionRow)}
      (before : Settled basis thread now date acts)
      (asked : ⟨thread, .query .exhausted, .ok found, time, read, pending, view⟩ ∈ basis.hist)
      (member : (id, s) ∈ found) :
      Settled basis thread now date (acts ++ [alter .sessions id (.finish .ended) now])

/-- One constructor for each way a call's transaction can commit. -/
inductive Lawful (config : Config) (basis : Basis) (thread : Nat) : Call → List Entry → Prop where
  | nothing (call : Call) : Lawful config basis thread call []
  | redeem {user : AuthUser} {dto : RedeemVoucherDto} {id : Nat} {v : VoucherRow}
      {account : UserRow} {now : Time}
      (voucher : basis.row .vouchers id (some v)) (unused : v.status = .unused)
      (owner : basis.row .users user.id (some account)) :
      Lawful config basis thread (.redeem user dto)
        [alter .vouchers id (.redeem user.id) now,
          alter .users user.id
            (.credit (v.durationMinutes * 60) (some v.deviceLimit) (.voucher id)) now]
  | generate {actor : AuthUser} {dto : GenerateVouchersDto} {attempts : Nat} {acts : List Entry}
      (stored : dto.storable config = true)
      (fresh : ∀ entry ∈ acts, ∃ id code, basis.row .vouchers id none ∧
        entry = create .vouchers id (newVoucher config actor dto code)) :
      Lawful config basis thread (.generate actor dto attempts) acts
  | createNew {user : AuthUser} {dto : CreateRequestDto} {source : RequestSource} {id : Nat}
      {now : Time} (given : dto.source = some source) (fresh : basis.row .planRequests id none) :
      Lawful config basis thread (.createRequest user dto)
        [create .planRequests id (newRequest user source now)]
  | createReplace {user : AuthUser} {dto : CreateRequestDto} {source : RequestSource}
      {id read : Nat} {r : PlanRequestRow} {now time : Time} {view : View}
      (given : dto.source = some source) (row : basis.row .planRequests id (some r))
      (asked : ⟨thread, .query (.pendingRequest user.id), .ok (some id), time, read, [], view⟩ ∈
        basis.hist) (earlier : read ≤ basis.log.length) :
      Lawful config basis thread (.createRequest user dto)
        [alter .planRequests id (.replace source) now]
  | approve {actor : AuthUser} {id read lock : Nat} {found r : PlanRequestRow}
      {plan : Option PlanRow} {account : UserRow} {now time late : Time} {view held : View}
      (row : basis.row .planRequests id (some r)) (pending : r.status = .pending)
      (owner : basis.row .users r.userId (some account))
      (asked : ⟨thread, .query (.requestWithPlan id), .ok (some (found, plan)), time, read, [],
        view⟩ ∈ basis.hist) (ordered : read ≤ lock)
      (locked : ⟨thread, .lock .planRequests id, .ok (some r), late, lock, [], held⟩ ∈
        basis.hist) (earlier : lock ≤ basis.log.length) :
      Lawful config basis thread (.decide actor id true)
        [alter .planRequests id (.decide .approved actor.id) now,
          alter .users r.userId (.credit (creditedMinutes r (rejoined found r plan) * 60)
            (some (creditedLimit (rejoined found r plan))) (.request id)) now]
  | reject {actor : AuthUser} {id : Nat} {r : PlanRequestRow} {now : Time}
      (row : basis.row .planRequests id (some r)) (pending : r.status = .pending) :
      Lawful config basis thread (.decide actor id false)
        [alter .planRequests id (.decide .rejected actor.id) now]
  | grant {actor : AuthUser} {id : Nat} {dto : GrantTimeDto} {account : UserRow} {now : Time}
      (owner : basis.row .users id (some account)) :
      Lawful config basis thread (.grant actor id dto)
        [alter .users id (.credit (dto.minutes * 60) dto.deviceLimit .grant) now]
  | refresh {user : AuthUser} {dto : ConnectDto} {id : Nat} {s : SessionRow} {account : UserRow}
      {now : Time} {device : List Entry} (devices : OnDevices device)
      (owner : basis.row .users user.id (some account)) (paid : 0 < account.remainingSeconds)
      (row : basis.row .sessions id (some s)) (active : s.status = .active)
      (mine : s.userId = user.id) (same : s.deviceMac = toLowerCase dto.clientmac) :
      Lawful config basis thread (.connect user dto)
        (device ++ [alter .sessions id (.refresh dto.clientip dto.hid) now])
  | opened {user : AuthUser} {dto : ConnectDto} {id : Nat} {account : UserRow} {now : Time}
      {device ended : List Entry} (devices : OnDevices device)
      (owner : basis.row .users user.id (some account)) (paid : 0 < account.remainingSeconds)
      (closed : Finishes basis (toLowerCase dto.clientmac) .ended now ended)
      (fresh : basis.row .sessions id none) :
      Lawful config basis thread (.connect user dto)
        (device ++ ended ++ [create .sessions id
          (newSession user.id (toLowerCase dto.clientmac) dto.clientip dto.hid now)])
  | kick {actor : AuthUser} {mac : Text} {now : Time} {acts : List Entry}
      (closed : Finishes basis (toLowerCase mac) .kicked now acts) :
      Lawful config basis thread (.kick actor mac) acts
  | tick {now date : Time} {acts : List Entry} (ordered : now ≤ date)
      (settled : Settled basis thread now date acts) : Lawful config basis thread .tick acts
  | createPlan {actor : AuthUser} {dto : CreatePlanDto} {id : Nat}
      (fresh : basis.row .plans id none) :
      Lawful config basis thread (.createPlan actor dto) [create .plans id (newPlan dto)]
  | updatePlan {actor : AuthUser} {id : Nat} {dto : PlanEdit} {now : Time} :
      Lawful config basis thread (.updatePlan actor id dto) [alter .plans id dto now]
  | deactivatePlan {actor : AuthUser} {id : Nat} {now : Time} :
      Lawful config basis thread (.removePlan actor id) [alter .plans id deactivate now]
  | deletePlan {actor : AuthUser} {id : Nat} :
      Lawful config basis thread (.removePlan actor id) [remove .plans id]
  | register {dto : RegisterDto} {id : Nat} {salt : List Nat} (fresh : basis.row .users id none) :
      Lawful config basis thread (.register dto)
        [create .users id (newUser dto.username (config.argon2Hash salt dto.password) .customer)]
  | seedAdmin {adminUser adminPass : Text} {clientCount id : Nat} {salt : List Nat}
      (fresh : basis.row .users id none) :
      Lawful config basis thread (.seedAdmin adminUser adminPass clientCount)
        [create .users id (newUser adminUser (config.argon2Hash salt adminPass) .admin)]
  | syncAdmin {adminUser adminPass : Text} {clientCount id read : Nat} {salt : List Nat}
      {known : UserRow} {now time : Time} {view : View}
      (asked : ⟨thread, .query (.userByName adminUser), .ok (some (id, known)), time, read, [],
        view⟩ ∈ basis.hist) (earlier : read ≤ basis.log.length) :
      Lawful config basis thread (.seedAdmin adminUser adminPass clientCount)
        [alter .users id (.syncAdmin (config.argon2Hash salt adminPass)) now]
  | seedClients {adminUser adminPass hash : Text} {clientCount : Nat} {acts : List Entry}
      (fresh : ∀ entry ∈ acts, ∃ id number, basis.row .users id none ∧ 1 ≤ number ∧
        number ≤ clientCount ∧ entry = create .users id
          (newUser (numberName number) hash .customer)) :
      Lawful config basis thread (.seedAdmin adminUser adminPass clientCount) acts

section Monotone
variable {config : Config} {less more : Basis} {thread : Nat}

theorem Basis.Extends.refl (basis : Basis) : basis.Extends basis :=
  ⟨fun _ _ _ known => known, List.prefix_refl _, List.prefix_refl _⟩

theorem finishes_mono (extends' : more.Extends less) {mac : Text} {status : SessionStatus}
    {now : Time} {acts : List Entry} (closed : Finishes less mac status now acts) :
    Finishes more mac status now acts := by
  intro entry member
  obtain ⟨id, s, same, row, rest⟩ := closed entry member
  exact ⟨id, s, same, extends'.row _ _ _ row, rest⟩

theorem settled_mono (extends' : more.Extends less) {now date : Time} {acts : List Entry}
    (settled : Settled less thread now date acts) : Settled more thread now date acts := by
  induction settled with
  | nothing => exact .nothing
  | settled _ row active owner positive devices ih =>
      exact .settled ih (extends'.row _ _ _ row) active (extends'.row _ _ _ owner) positive devices
  | vanished _ row active late ih => exact .vanished ih (extends'.row _ _ _ row) active late
  | exhausted _ asked member ih => exact .exhausted ih (extends'.hist.subset asked) member

theorem lawful_mono (extends' : more.Extends less) {call : Call} {acts : List Entry}
    (lawful : Lawful config less thread call acts) : Lawful config more thread call acts := by
  have row := extends'.row
  have past := extends'.log.length_le
  cases lawful with
  | nothing => exact .nothing call
  | redeem voucher unused owner => exact .redeem (row _ _ _ voucher) unused (row _ _ _ owner)
  | generate stored fresh =>
      refine .generate stored fun entry member => ?_
      obtain ⟨id, code, free, same⟩ := fresh entry member
      exact ⟨id, code, row _ _ _ free, same⟩
  | createNew given fresh => exact .createNew given (row _ _ _ fresh)
  | createReplace given found asked earlier =>
      exact .createReplace given (row _ _ _ found) (extends'.hist.subset asked)
        (Nat.le_trans earlier past)
  | approve found pending owner asked ordered locked earlier =>
      exact .approve (row _ _ _ found) pending (row _ _ _ owner) (extends'.hist.subset asked)
        ordered (extends'.hist.subset locked) (Nat.le_trans earlier past)
  | reject found pending => exact .reject (row _ _ _ found) pending
  | grant owner => exact .grant (row _ _ _ owner)
  | refresh devices owner paid found active mine same =>
      exact .refresh devices (row _ _ _ owner) paid (row _ _ _ found) active mine same
  | opened devices owner paid closed fresh =>
      exact .opened devices (row _ _ _ owner) paid (finishes_mono extends' closed)
        (row _ _ _ fresh)
  | kick closed => exact .kick (finishes_mono extends' closed)
  | tick ordered settled => exact .tick ordered (settled_mono extends' settled)
  | createPlan fresh => exact .createPlan (row _ _ _ fresh)
  | updatePlan => exact .updatePlan
  | deactivatePlan => exact .deactivatePlan
  | deletePlan => exact .deletePlan
  | register fresh => exact .register (row _ _ _ fresh)
  | seedAdmin fresh => exact .seedAdmin (row _ _ _ fresh)
  | syncAdmin asked earlier =>
      exact .syncAdmin (extends'.hist.subset asked) (Nat.le_trans earlier past)
  | seedClients fresh =>
      apply Lawful.seedClients
      intro entry member
      obtain ⟨id, number, free, rest⟩ := fresh entry member
      exact ⟨id, number, row _ _ _ free, rest⟩

end Monotone

/-- `check` is a cooldown SELECT on `mac`, outside any transaction, that found
no recent kick. -/
def Event.Passed (check : Event) (mac : Text) (cooldownSeconds : Nat) : Prop :=
  ∃ thread time commits view,
    check = ⟨thread, .query (.recentKick mac cooldownSeconds), .ok false, time, commits, [], view⟩

/-- The log is a sequence of lawful transactions, and `ndsctl auth` runs only
for a connect that passed its cooldown check. -/
structure Legit (config : Config) (world : World) : Prop where
  blocks : ∀ index thread acts, world.db.log[index]? = some (thread, acts) →
    ∃ call, world.arrivals[thread]? = some call ∧
      Lawful config (committedBasis (world.db.log.take index) world.hist) thread call acts
  auths : ∀ index event, world.hist[index]? = some event → ∀ mac minutes,
    event.cmd = .ndsctl (.auth mac minutes) →
      ∃ user dto, world.arrivals[event.thread]? = some (.connect user dto) ∧
        mac = toLowerCase dto.clientmac ∧
        ∃ check ∈ world.hist.take index, check.thread = event.thread ∧
          check.Passed mac config.kickCooldownSeconds

section Growth
variable {config : Config} {world after : World}

theorem committed_extends (log : List Block) {hist later : List Event} (grows : hist <+: later) :
    (committedBasis log later).Extends (committedBasis log hist) :=
  ⟨fun _ _ _ known => known, List.prefix_refl _, grows⟩

theorem prefix_getElem? {α : Type} {before later : List α} (grows : before <+: later)
    {index : Nat} {item : α} (found : before[index]? = some item) :
    later[index]? = some item := by
  obtain ⟨rest, rfl⟩ := grows
  rw [List.getElem?_append_left (List.getElem?_eq_some_iff.mp found).1]
  exact found

theorem legit_quiet (legit : Legit config world) (log : after.db.log = world.db.log)
    (arrivals : world.arrivals <+: after.arrivals) (hist : world.hist <+: after.hist)
    (quiet : ∀ index event, after.hist[index]? = some event → world.hist.length ≤ index →
      ∀ mac minutes, event.cmd ≠ .ndsctl (.auth mac minutes)) : Legit config after := by
  refine ⟨?_, ?_⟩
  · intro index thread acts found
    rw [log] at found
    obtain ⟨call, called, lawful⟩ := legit.blocks index thread acts found
    rw [log]
    exact ⟨call, prefix_getElem? arrivals called, lawful_mono (committed_extends _ hist) lawful⟩
  · intro index event found mac minutes authorises
    by_cases old : index < world.hist.length
    · have same : world.hist[index]? = some event := by
        obtain ⟨rest, grown⟩ := hist
        rwa [← grown, List.getElem?_append_left old] at found
      obtain ⟨user, dto, called, lower, check, member, rest⟩ :=
        legit.auths index event same mac minutes authorises
      refine ⟨user, dto, prefix_getElem? arrivals called, lower, check, ?_, rest⟩
      obtain ⟨more, grown⟩ := hist
      rwa [← grown, List.take_append_of_le_length (Nat.le_of_lt old)]
    · exact absurd authorises (quiet index event found (Nat.le_of_not_lt old) mac minutes)

end Growth
end Cybera
