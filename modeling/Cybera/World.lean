import Cybera.Calls
import Cybera.Interleaving

/-!
The state that the backend, the session manager and OpenNDS share, and the
atomic steps on it. A SELECT reads one consistent view; a lock or a write waits
while another transaction holds the row; every statement and every process can
fail. `hist` records each step with what it saw.
-/

namespace Cybera

/-- A client in the output of `ndsctl json`; any of the three may be missing. -/
structure NdsClient where
  mac : Option Text
  ip : Option Text
  state : Option Text
  deriving DecidableEq

abbrev NdsClients := List (Text × NdsClient)

/-- What there is to see at a step: the rows, the clock and the clients of OpenNDS. -/
structure View where
  rows : Store
  next : TableName → Nat
  now : Time
  /-- the order in which a scan meets rows that no ORDER BY arranges -/
  order : Nat → Nat
  clients : NdsClients

def View.scan (view : View) (table : TableName) (keep : Row table → Bool) :
    List (Nat × Row table) :=
  ((List.range (view.next table)).insertionSort (view.order · ≤ view.order ·)).filterMap fun id =>
    (view.rows table id).bind fun row => if keep row then some (id, row) else none

theorem mem_scan {view : View} {table : TableName} {keep : Row table → Bool} {id : Nat}
    {row : Row table} : (id, row) ∈ view.scan table keep ↔
      id < view.next table ∧ view.rows table id = some row ∧ keep row = true := by
  simp only [View.scan, List.mem_filterMap, List.mem_insertionSort, List.mem_range,
    Option.bind_eq_some_iff, Option.ite_none_right_eq_some, Option.some.injEq, Prod.mk.injEq]
  constructor
  · rintro ⟨_, bound, _, present, kept, rfl, rfl⟩
    exact ⟨bound, present, kept⟩
  · rintro ⟨bound, present, kept⟩
    exact ⟨id, bound, row, present, kept, rfl, rfl⟩

theorem keyed_sublist {α : Type} {find : Nat → Option (Nat × α)}
    (keyed : ∀ key found, find key = some found → found.1 = key) (keys : List Nat) :
    ((keys.filterMap find).map fun found => found.1).Sublist keys := by
  induction keys with
  | nil => exact .slnil
  | cons key rest ih =>
      cases here : find key with
      | none =>
          rw [List.filterMap_cons_none here]
          exact ih.cons key
      | some found =>
          rw [List.filterMap_cons_some here, List.map_cons, keyed key found here]
          exact ih.cons_cons key

theorem scan_once (view : View) (table : TableName) (keep : Row table → Bool) :
    ((view.scan table keep).map Prod.fst).Nodup := by
  have keys : ((List.range (view.next table)).insertionSort
      (view.order · ≤ view.order ·)).Nodup :=
    (List.perm_insertionSort _ _).nodup_iff.mpr List.nodup_range
  refine keys.sublist (keyed_sublist ?_ _)
  intro key found same
  obtain ⟨row, _, kept⟩ := Option.bind_eq_some_iff.mp same
  split at kept
  · cases kept
    rfl
  · cases kept

/-- One constructor for each SELECT, and for the scan that finds the rows of a
locking SELECT or of a multi-row UPDATE. -/
inductive Query where
  | recentKick (mac : Text) (cooldownSeconds : Nat)
  | activeSessionsOf (userId : Nat)
  | activeSessionsOn (mac : Text)
  | activeIps (mac : Text)
  | settlementRows
  | exhausted
  | stillActive
  | voucherByCode (code : Text)
  | activePlan (id : Nat)
  | pendingRequest (userId : Nat)
  | requestWithPlan (id : Nat)
  | listPending
  | planReferenced (id : Nat)
  | vouchersByCodes (codes : List Text)
  | userByName (username : Text)
  | customerByName (username : Text)
  | deviceOf (userId : Nat) (mac : Text)

@[reducible] def Query.Res : Query → Type
  | .recentKick .. => Bool
  | .activeSessionsOf .. => List Nat
  | .activeSessionsOn .. => List Nat
  | .activeIps .. => List Text
  | .settlementRows => List (Nat × Nat)
  | .exhausted => List (Nat × SessionRow)
  | .stillActive => List Text
  | .voucherByCode .. => Option Nat
  | .activePlan .. => Bool
  | .pendingRequest .. => Option Nat
  | .requestWithPlan .. => Option (PlanRequestRow × Option PlanRow)
  | .listPending => List PendingItem
  | .planReferenced .. => Bool
  | .vouchersByCodes .. => List (Nat × VoucherRow)
  | .userByName .. => Option (Nat × UserRow)
  | .customerByName .. => Option (Nat × UserRow)
  | .deviceOf .. => Option Nat

/-- LEFT JOIN plans p ON p.id = r.plan_id -/
def View.planOf (view : View) (request : PlanRequestRow) : Option PlanRow :=
  request.source.planId.bind (view.rows .plans)

def View.isExhausted (view : View) (session : SessionRow) : Bool :=
  session.status == .active &&
    match view.rows .users session.userId with
    | some (user : UserRow) => decide (user.remainingSeconds ≤ 0)
    | none => false

def kickedSince (mac : Text) (since : Time) (session : SessionRow) : Bool :=
  session.deviceMac == mac && session.status == .kicked &&
    match session.endedAt with
    | some endedAt => decide (since < endedAt)
    | none => false

def Query.eval (view : View) : (query : Query) → query.Res
  | .recentKick mac cooldownSeconds =>
      !(view.scan .sessions (kickedSince mac (view.now - 1000 * cooldownSeconds))).isEmpty
  | .activeSessionsOf userId =>
      (view.scan .sessions fun s => s.userId == userId && s.status == .active).map (·.1)
  | .activeSessionsOn mac =>
      (view.scan .sessions fun s => s.deviceMac == mac && s.status == .active).map (·.1)
  | .activeIps mac =>
      (view.scan .sessions fun s => s.deviceMac == mac && s.status == .active).map (·.2.ip)
  | .settlementRows =>
      ((view.scan .sessions fun s =>
        s.status == .active && (view.rows .users s.userId).isSome).map
          fun found => (found.1, found.2.userId)).insertionSort fun a b => a.2 ≤ b.2
  | .exhausted => view.scan .sessions view.isExhausted
  | .stillActive => (view.scan .sessions fun s => s.status == .active).map (·.2.deviceMac)
  | .voucherByCode code => (view.scan .vouchers fun v => v.code == code).head?.map (·.1)
  | .activePlan id =>
      match view.rows .plans id with
      | some (plan : PlanRow) => plan.active
      | none => false
  | .pendingRequest userId =>
      (view.scan .planRequests fun r => r.userId == userId && r.status == .pending).head?.map (·.1)
  | .requestWithPlan id =>
      match view.rows .planRequests id with
      | some (request : PlanRequestRow) => some (request, view.planOf request)
      | none => none
  | .listPending =>
      ((view.scan .planRequests fun r => r.status == .pending).filterMap fun (id, request) =>
        match view.rows .users request.userId with
        | some (user : UserRow) => some ⟨id, request, user.username, view.planOf request⟩
        | none => none).insertionSort fun a b => a.request.createdAt ≤ b.request.createdAt
  | .planReferenced id =>
      !(view.scan .planRequests fun r => r.source.planId == some id).isEmpty
  | .vouchersByCodes codes =>
      (view.scan .vouchers fun v => codes.contains v.code).insertionSort
        fun a b => ¬ b.2.code < a.2.code
  | .userByName username => (view.scan .users fun u => u.username == username).head?
  | .customerByName username =>
      (view.scan .users fun u => u.username == username && u.role == .customer).head?
  | .deviceOf userId mac =>
      (view.scan .devices fun d => d.userId == userId && d.mac == mac).head?.map (·.1)

inductive NdsCommand where
  | auth (mac : Text) (minutes : Nat)
  | deauth (mac : Text)
  | json
  | flushConntrack (ip : Text)

@[reducible] def NdsCommand.Res : NdsCommand → Type
  | .auth .. => Unit
  | .deauth .. => Unit
  | .json => NdsClients
  | .flushConntrack .. => Unit

/-- `insert` computes the row from now(); with `skip` a unique conflict is
answered with `none` (ON CONFLICT DO NOTHING), otherwise it is an error. -/
inductive Cmd where
  | begin
  | commit
  | rollback
  | query (query : Query)
  | lock (table : TableName) (id : Nat)
  | update (table : TableName) (id : Nat) (op : Op table)
  | insert (table : TableName) (row : Time → Row table) (skip : Bool)
  | deletePlan (id : Nat)
  | dateNow
  | randomBytes (count : Nat)
  | ndsctl (command : NdsCommand)
  | audit (actor : Option Nat) (action : String)

def Cmd.begins : Cmd → Bool
  | .begin => true
  | _ => false

def Cmd.selects (target : TableName × Nat) : Cmd → Bool
  | .lock table id => (table, id) == target
  | _ => false

@[reducible] def Res : Cmd → Type
  | .begin => Unit
  | .commit => Unit
  | .rollback => Unit
  | .query query => query.Res
  | .lock table _ => Option (Row table)
  | .update table _ _ => Option (Row table)
  | .insert table _ _ => Option (Nat × Row table)
  | .deletePlan _ => Unit
  | .dateNow => Time
  | .randomBytes _ => List Nat
  | .ndsctl command => command.Res
  | .audit .. => Unit

/-- A step that happened: `commits` transactions had committed before it, and
`pending` are the acts of the thread's own open transaction. -/
structure Event where
  thread : Nat
  cmd : Cmd
  answer : Except Failure (Res cmd)
  time : Time
  commits : Nat
  pending : List Entry
  view : View

/-- `arrivals` lists the calls by thread. -/
structure World where
  db : Database
  clock : Time
  clients : NdsClients
  arrivals : List Call
  hist : List Event

/-- What a step does not decide: how long it took, whether it failed (`took`: a process or
a COMMIT that failed after acting), scan order and random bytes. -/
structure Choice where
  elapsed : Nat := 0
  fails : Bool := false
  took : Bool := false
  order : Nat → Nat := id
  random : List Nat := []

namespace World

def view (world : World) (thread : Nat) (order : Nat → Nat) : View where
  rows := world.db.view thread
  next := world.db.next
  now := match world.db.txns thread with
    | some txn => txn.began
    | none => world.clock
  order := order
  clients := world.clients

def pendingActs (world : World) (thread : Nat) : List Entry :=
  match world.db.txns thread with
  | some txn => txn.acts
  | none => []

def othersOpen (world : World) (thread : Nat) : List (RowLock.Txn Row Act) :=
  (List.range world.arrivals.length).filterMap fun other =>
    if other = thread then none else world.db.txns other

def clash (world : World) (rows : Store) (table : TableName) (row : Row table) : Bool :=
  (List.range (world.db.next table)).any fun id =>
    match rows table id with
    | some other => conflicts table other row
    | none => false

/-- A unique key that an open transaction is inserting or giving up: the
inserter waits for its outcome. -/
def contended (world : World) (thread : Nat) (table : TableName) (row : Row table) : Bool :=
  (world.othersOpen thread).any fun txn =>
    (List.range (world.db.next table)).any fun id =>
      match txn.rows table id with
      | none => false
      | some version =>
          (match version with
            | some other => conflicts table other row
            | none => false) ||
          (match world.db.store table id with
            | some other => conflicts table other row
            | none => false)

def resolves (rows : Store) (table : TableName) (row : Row table) : Bool :=
  (references table row).all fun target => (rows target.1 target.2).isSome

def refersTo (plan : Nat) (request : PlanRequestRow) : Bool := request.source.planId == some plan

/-- Another transaction is deleting the row's plan. -/
def planDoomed (world : World) (thread : Nat) (table : TableName) (row : Row table) : Bool :=
  (world.othersOpen thread).any fun txn =>
    (references table row).any fun target =>
      match txn.rows target.1 target.2 with
      | some none => true
      | _ => false

def planAwaited (world : World) (thread : Nat) (plan : Nat) : Bool :=
  (world.othersOpen thread).any fun txn =>
    (List.range (world.db.next .planRequests)).any fun id =>
      match txn.rows .planRequests id with
      | some (some (request : PlanRequestRow)) => refersTo plan request
      | _ => false

/-- The thread has locked the row FOR UPDATE since its last BEGIN. -/
def selectedForUpdate (world : World) (thread : Nat) (target : TableName × Nat) : Bool :=
  ((world.hist.filter fun event => event.thread == thread).reverse.takeWhile fun event =>
    !event.cmd.begins).any fun event => event.cmd.selects target

/-- Another transaction has locked FOR UPDATE what the foreign keys lock FOR KEY SHARE. -/
def keysTaken (world : World) (thread : Nat) (targets : List (TableName × Nat)) : Bool :=
  targets.any fun target =>
    match world.db.locks target.1 target.2 with
    | some other => other != thread && world.selectedForUpdate other target
    | none => false

/-- Another transaction has set a foreign key to the row, and so locked it FOR KEY SHARE. -/
def keyShared (world : World) (thread : Nat) (target : TableName × Nat) : Bool :=
  (world.othersOpen thread).any fun txn =>
    txn.acts.any fun entry => (Act.targets entry.table entry.act).contains target

def write (world : World) (thread : Nat) (entry : Entry) : Option World :=
  (world.db.write Act.run thread entry).map fun db => { world with db }

end World

def NdsClient.macOr (client : NdsClient) (key : Text) : Text :=
  toLowerCase (client.mac.getD key)

/-- state.includes('auth') && !state.includes('preauth') -/
def NdsClient.authed (client : NdsClient) : Bool :=
  let state := toLowerCase (client.state.getD [])
  decide (['a', 'u', 't', 'h'] <:+: state) &&
    !decide (['p', 'r', 'e', 'a', 'u', 't', 'h'] <:+: state)

def authenticated : Text :=
  ['A', 'u', 't', 'h', 'e', 'n', 't', 'i', 'c', 'a', 't', 'e', 'd']

def preauthenticated : Text :=
  ['P', 'r', 'e', 'a', 'u', 't', 'h', 'e', 'n', 't', 'i', 'c', 'a', 't', 'e', 'd']

def setState (mac state : Text) (clients : NdsClients) : NdsClients :=
  clients.map fun (key, client) =>
    if client.macOr key = mac then (key, { client with state := some state }) else (key, client)

def knowsMac (mac : Text) (clients : NdsClients) : Bool :=
  clients.any fun (key, client) => client.macOr key == mac

def isAuthed (mac : Text) (clients : NdsClients) : Bool :=
  clients.any fun (key, client) => client.macOr key == mac && client.authed

/-- `ndsctl auth` and `ndsctl deauth` fail for a client OpenNDS does not know. -/
def NdsCommand.run (clients : NdsClients) :
    (command : NdsCommand) → Except Failure command.Res × NdsClients
  | .auth mac _ =>
      if knowsMac mac clients then (.ok (), setState mac authenticated clients)
      else (.error .process, clients)
  | .deauth mac =>
      if knowsMac mac clients then (.ok (), setState mac preauthenticated clients)
      else (.error .process, clients)
  | .json => (.ok clients, clients)
  | .flushConntrack _ => (.ok (), clients)

namespace World

/-- A failed COMMIT ends the transaction without its writes, unless it was carried out and
only its answer was lost; any other failed statement leaves the transaction open for the
ROLLBACK of the caller. -/
def failed (world : World) (thread : Nat) (took : Bool) :
    (cmd : Cmd) → Except Failure (Res cmd) × World
  | .commit =>
      if took then (.error .lost, { world with db := world.db.commit thread })
      else (.error .query, { world with db := world.db.rollback thread })
  | .rollback => (.error .query, { world with db := world.db.rollback thread })
  | .ndsctl command =>
      (.error .process,
        if took then { world with clients := (command.run world.clients).2 } else world)
  | _ => (.error .query, world)

def succeeded (world : World) (thread : Nat) (choice : Choice) :
    (cmd : Cmd) → Option (Except Failure (Res cmd) × World)
  | .begin => some (.ok (), { world with db := world.db.begin thread world.clock })
  | .commit => some (.ok (), { world with db := world.db.commit thread })
  | .rollback => some (.ok (), { world with db := world.db.rollback thread })
  | .query query => some (.ok (query.eval (world.view thread choice.order)), world)
  | .lock table id =>
      match world.db.view thread table id with
      | none => some (.ok none, world)
      | some row =>
          -- FOR UPDATE also waits for foreign keys, which a plain UPDATE passes
          if world.keyShared thread (table, id) then none
          else (world.db.acquire thread table id).map fun db =>
            (.ok (some row), { world with db })
  | .update table id op =>
      match world.db.view thread table id with
      | none => some (.ok none, world)
      | some row =>
          let now := (world.view thread choice.order).now
          let updated := Op.run table op now row
          if resolves (world.db.view thread) table updated then
            if world.planDoomed thread table updated ||
                world.keysTaken thread (Op.targets table op) then none
            else (world.write thread ⟨table, id, .update op now⟩).map fun after =>
              (.ok (some updated), after)
          else some (.error .query, world)
  | .insert table row skip =>
      let inserted := row (world.view thread choice.order).now
      -- PostgreSQL checks unique keys on insertion and foreign keys after the statement
      if world.contended thread table inserted || world.planDoomed thread table inserted then none
      else if world.clash (world.db.view thread) table inserted then
        some (if skip then .ok none else .error .query, world)
      else if resolves (world.db.view thread) table inserted then
        if world.keysTaken thread (references table inserted) then none
        else
          let id := world.db.next table
          (({ world with db := world.db.reserve table } : World).write thread
            ⟨table, id, .insert inserted⟩).map fun after => (.ok (some (id, inserted)), after)
      else some (.error .query, world)
  | .deletePlan id =>
      match world.db.view thread .plans id with
      | none => some (.ok (), world)
      | some _ =>
          if world.planAwaited thread id then none
          else if (List.range (world.db.next .planRequests)).any (fun request =>
              match world.db.view thread .planRequests request with
              | some (row : PlanRequestRow) => refersTo id row
              | none => false) then
            some (.error .query, world)
          else (world.write thread ⟨.plans, id, .delete⟩).map fun after => (.ok (), after)
  | .dateNow => some (.ok world.clock, world)
  | .randomBytes count =>
      some (.ok ((List.range count).map fun index => choice.random.getD index 0 % 256), world)
  | .ndsctl command =>
      let result := command.run world.clients
      some (result.1, { world with clients := result.2 })
  | .audit actor _ =>
      if world.keysTaken thread (actor.toList.map fun user => (.users, user)) then none
      else some (.ok (), world)

def exec (thread : Nat) (cmd : Cmd) (choice : Choice) (world : World) :
    Option (Except Failure (Res cmd) × World) :=
  let world := { world with clock := world.clock + choice.elapsed }
  let result := if choice.fails then some (world.failed thread choice.took cmd)
    else world.succeeded thread choice cmd
  result.map fun (answer, after) =>
    (answer,
      { after with
        hist := after.hist ++
          [⟨thread, cmd, answer, world.clock, world.db.log.length, world.pendingActs thread,
            world.view thread choice.order⟩] })

def start (call : Call) (world : World) : World :=
  { world with arrivals := world.arrivals ++ [call] }

def crash (thread : Nat) (world : World) : World :=
  { world with db := world.db.rollback thread }

end World

/-- What happens without the services: time passes, clients come and go. Only
`ndsctl auth` makes a client authenticated. -/
inductive Ambient where
  | elapse (milliseconds : Nat)
  | clients (clients : NdsClients)

def World.ambient (event : Ambient) (world : World) : Option World :=
  match event with
  | .elapse milliseconds => some { world with clock := world.clock + milliseconds }
  | .clients clients =>
      if clients.all fun (key, client) =>
          !client.authed || isAuthed (client.macOr key) world.clients then
        some { world with clients }
      else none

def emptyDatabase : Database where
  store := fun _ _ => none
  next := fun _ => 1
  locks := fun _ _ => none
  txns := fun _ => none
  log := []

def World.initial : World where
  db := emptyDatabase
  clock := 0
  clients := []
  arrivals := []
  hist := []

end Cybera
