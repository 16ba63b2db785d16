import Cybera.RowLock

/-!
The tables of backend/migrations and the statements that change a row. A row's
id is its key in the store. CHECK constraints are fields: a row that violates
one cannot be built. Times are in milliseconds, money in hundredths.
-/

namespace Cybera

abbrev Text := List Char
abbrev Time := Int

inductive Role where
  | admin
  | customer
  deriving DecidableEq, Repr

inductive SessionStatus where
  | active
  | ended
  | kicked
  deriving DecidableEq, Repr

inductive VoucherStatus where
  | unused
  | redeemed
  | expired
  deriving DecidableEq, Repr

inductive RequestStatus where
  | pending
  | approved
  | rejected
  deriving DecidableEq, Repr

inductive TableName where
  | users
  | plans
  | planRequests
  | vouchers
  | devices
  | sessions
  deriving DecidableEq, Repr

structure UserRow where
  username : Text
  passwordHash : Text
  role : Role
  remainingSeconds : Int
  deviceLimit : Nat
  limitPositive : 1 ≤ deviceLimit
  deriving DecidableEq

structure PlanRow where
  name : Text
  durationMinutes : Nat
  price : Nat
  deviceLimit : Nat
  active : Bool
  durationPositive : 0 < durationMinutes
  limitPositive : 1 ≤ deviceLimit
  deriving DecidableEq

/-- The two columns under chk_request_source. -/
structure RequestSource where
  planId : Option Nat
  requestedMinutes : Option Nat
  minutesPositive : ∀ minutes ∈ requestedMinutes, 0 < minutes
  chkRequestSource : planId.isSome ∨ requestedMinutes.isSome
  deriving DecidableEq

structure PlanRequestRow where
  userId : Nat
  source : RequestSource
  status : RequestStatus
  createdAt : Time
  decidedBy : Option Nat
  decidedAt : Option Time
  deriving DecidableEq

structure VoucherRow where
  code : Text
  durationMinutes : Nat
  deviceLimit : Nat
  status : VoucherStatus
  createdBy : Nat
  expiresAt : Option Time
  redeemedBy : Option Nat
  redeemedAt : Option Time
  durationPositive : 0 < durationMinutes
  limitPositive : 1 ≤ deviceLimit
  deriving DecidableEq

structure DeviceRow where
  userId : Nat
  mac : Text
  label : Option Text
  firstSeen : Time
  lastSeen : Time
  deriving DecidableEq

structure SessionRow where
  userId : Nat
  deviceMac : Text
  ip : Text
  openndsToken : Option Text
  startedAt : Time
  endedAt : Option Time
  secondsConsumed : Nat
  status : SessionStatus
  lastTick : Time
  deriving DecidableEq

@[reducible] def Row : TableName → Type
  | .users => UserRow
  | .plans => PlanRow
  | .planRequests => PlanRequestRow
  | .vouchers => VoucherRow
  | .devices => DeviceRow
  | .sessions => SessionRow

/-- Why an account is credited. -/
inductive CreditSource where
  | voucher (id : Nat)
  | request (id : Nat)
  | grant
  deriving DecidableEq, Repr

/-- The SET clauses of `UPDATE users`. `source` and `session` are history
variables: they name the row on whose account the balance moves. -/
inductive UserOp where
  | credit (seconds : Nat) (limit : Option Nat) (source : CreditSource)
  | charge (elapsed : Nat) (session : Nat)
  | syncAdmin (passwordHash : Text)
  deriving DecidableEq

structure PlanEdit where
  name : Option Text
  durationMinutes : Option Nat
  price : Option Nat
  deviceLimit : Option Nat
  active : Option Bool
  durationPositive : ∀ minutes ∈ durationMinutes, 0 < minutes
  limitPositive : ∀ limit ∈ deviceLimit, 1 ≤ limit
  deriving DecidableEq

inductive RequestOp where
  | replace (source : RequestSource)
  | decide (status : RequestStatus) (decidedBy : Nat)
  deriving DecidableEq

inductive VoucherOp where
  | expire
  | redeem (redeemedBy : Nat)
  deriving DecidableEq

inductive DeviceOp where
  | seen
  | relabel (label : Option Text)
  deriving DecidableEq

inductive SessionOp where
  | settle (elapsed : Nat)
  | refresh (ip token : Text)
  | finish (status : SessionStatus)
  deriving DecidableEq

@[reducible] def Op : TableName → Type
  | .users => UserOp
  | .plans => PlanEdit
  | .planRequests => RequestOp
  | .vouchers => VoucherOp
  | .devices => DeviceOp
  | .sessions => SessionOp

/-- GREATEST(device_limit, COALESCE(limit, device_limit)). -/
def raiseLimit (current : Nat) (limit : Option Nat) : Nat := max current (limit.getD current)

theorem raiseLimit_ge (current : Nat) (limit : Option Nat) : current ≤ raiseLimit current limit :=
  Nat.le_max_left _ _

def UserOp.run : UserOp → UserRow → UserRow
  | .credit seconds limit _, user =>
      { user with
        remainingSeconds := user.remainingSeconds + seconds
        deviceLimit := raiseLimit user.deviceLimit limit
        limitPositive := Nat.le_trans user.limitPositive (raiseLimit_ge _ _) }
  | .charge elapsed _, user =>
      { user with remainingSeconds := max 0 (user.remainingSeconds - elapsed) }
  | .syncAdmin passwordHash, user => { user with passwordHash, role := .admin }

theorem getD_positive (value : Option Nat) (fallback : Nat) (positive : ∀ n ∈ value, 0 < n)
    (default : 0 < fallback) : 0 < value.getD fallback := by
  cases value with
  | none => exact default
  | some n => exact positive n rfl

def PlanEdit.run (edit : PlanEdit) (plan : PlanRow) : PlanRow where
  name := edit.name.getD plan.name
  durationMinutes := edit.durationMinutes.getD plan.durationMinutes
  price := edit.price.getD plan.price
  deviceLimit := edit.deviceLimit.getD plan.deviceLimit
  active := edit.active.getD plan.active
  durationPositive := getD_positive _ _ edit.durationPositive plan.durationPositive
  limitPositive := getD_positive _ _ edit.limitPositive plan.limitPositive

def RequestOp.run (now : Time) : RequestOp → PlanRequestRow → PlanRequestRow
  | .replace source, request => { request with source, createdAt := now }
  | .decide status decidedBy, request =>
      { request with status, decidedBy := some decidedBy, decidedAt := some now }

def VoucherOp.run (now : Time) : VoucherOp → VoucherRow → VoucherRow
  | .expire, voucher => { voucher with status := .expired }
  | .redeem redeemedBy, voucher =>
      { voucher with status := .redeemed, redeemedBy := some redeemedBy, redeemedAt := some now }

def DeviceOp.run (now : Time) : DeviceOp → DeviceRow → DeviceRow
  | .seen, device => { device with lastSeen := now }
  | .relabel label, device => { device with lastSeen := now, label := label.or device.label }

def SessionOp.run (now : Time) : SessionOp → SessionRow → SessionRow
  | .settle elapsed, session =>
      { session with secondsConsumed := session.secondsConsumed + elapsed, lastTick := now }
  | .refresh ip token, session => { session with ip, openndsToken := some token, lastTick := now }
  | .finish status, session => { session with status, endedAt := some now }

def Op.run : (table : TableName) → Op table → Time → Row table → Row table
  | .users, op, _, row => UserOp.run op row
  | .plans, op, _, row => PlanEdit.run op row
  | .planRequests, op, now, row => RequestOp.run now op row
  | .vouchers, op, now, row => VoucherOp.run now op row
  | .devices, op, now, row => DeviceOp.run now op row
  | .sessions, op, now, row => SessionOp.run now op row

/-- `now` is the start of the statement's transaction. -/
inductive Act (table : TableName) where
  | insert (row : Row table)
  | update (op : Op table) (now : Time)
  | delete

def Act.run (table : TableName) : Act table → Option (Row table) → Option (Row table)
  | .insert row, _ => some row
  | .update op now, current => current.map (Op.run table op now)
  | .delete, _ => none

abbrev Store := RowLock.Store Row
abbrev Entry := RowLock.Entry Act
abbrev Database := RowLock.State Row Act

def replay (entries : List Entry) (store : Store) : Store := RowLock.replay Act.run entries store

/-- Two rows that a UNIQUE constraint or index keeps apart. -/
def conflicts : (table : TableName) → Row table → Row table → Bool
  | .users, (left : UserRow), (right : UserRow) => left.username == right.username
  | .vouchers, (left : VoucherRow), (right : VoucherRow) => left.code == right.code
  | .devices, (left : DeviceRow), (right : DeviceRow) =>
      left.userId == right.userId && left.mac == right.mac
  | .sessions, (left : SessionRow), (right : SessionRow) =>
      left.status == .active && right.status == .active && left.deviceMac == right.deviceMac
  | .plans, _, _ => false
  | .planRequests, _, _ => false

/-- The rows a row points to through its foreign keys. -/
def references : (table : TableName) → Row table → List (TableName × Nat)
  | .users, _ => []
  | .plans, _ => []
  | .planRequests, (row : PlanRequestRow) =>
      (.users, row.userId) :: (row.source.planId.toList.map fun id => (.plans, id)) ++
        (row.decidedBy.toList.map fun id => (.users, id))
  | .vouchers, (row : VoucherRow) =>
      (.users, row.createdBy) :: (row.redeemedBy.toList.map fun id => (.users, id))
  | .devices, (row : DeviceRow) => [(.users, row.userId)]
  | .sessions, (row : SessionRow) => [(.users, row.userId)]

/-- The rows that an UPDATE sets a foreign key to. -/
def Op.targets : (table : TableName) → Op table → List (TableName × Nat)
  | .planRequests, .replace source => source.planId.toList.map fun id => (.plans, id)
  | .planRequests, .decide _ decidedBy => [(.users, decidedBy)]
  | .vouchers, .redeem redeemedBy => [(.users, redeemedBy)]
  | _, _ => []

def Act.targets (table : TableName) : Act table → List (TableName × Nat)
  | .insert row => references table row
  | .update op _ => Op.targets table op
  | .delete => []

end Cybera
