import Cybera.World

/-!
The backend services other than sessions, statement by statement. An
autocommitted write is a transaction of its own.
-/

namespace Cybera

open Interleaving

abbrev Program := Prog Cmd Res Failure

abbrev perform (cmd : Cmd) : Program (Res cmd) := Prog.perform cmd

/-- DbService.tx: COMMIT after the callback, ROLLBACK and rethrow on any throw. -/
def DbService.tx {α : Type} (body : Program α) : Program α :=
  (do
    let _ ← perform .begin
    let result ← body
    let _ ← perform .commit
    pure result).rescue fun error => do
      let _ ← perform .rollback
      .raise error

def select (query : Query) : Program query.Res := perform (.query query)

def lockRow (table : TableName) (id : Nat) : Program (Option (Row table)) :=
  perform (.lock table id)

def updateRow (table : TableName) (id : Nat) (op : Op table) : Program (Option (Row table)) :=
  perform (.update table id op)

def insertRow (table : TableName) (row : Time → Row table) : Program (Nat × Row table) := do
  let inserted ← perform (.insert table row false)
  Prog.orThrow inserted .query

def insertOrSkip (table : TableName) (row : Time → Row table) :
    Program (Option (Nat × Row table)) :=
  perform (.insert table row true)

/-- AuditService.log swallows its failures. -/
def AuditService.log (actor : Option Nat) (action : String) : Program Unit :=
  (perform (.audit actor action)).rescue fun _ => .done ()

/-! Vouchers. -/

def selectVoucherForUpdate (code : Text) : Program (Option (Nat × VoucherRow)) := do
  let found ← select (.voucherByCode code)
  match found with
  | none => pure none
  | some id => do
      let row ← lockRow .vouchers id
      pure (row.map fun v => (id, v))

/-- The UPDATE comes before the throw, so the transaction takes it back. -/
def expireOnTouch (id : Nat) (v : VoucherRow) : Program Unit :=
  match v.expiresAt with
  | none => .done ()
  | some expiresAt => do
      let now ← perform .dateNow
      if expiresAt < now then do
        let _ ← updateRow .vouchers id .expire
        .raise (.badRequest "Voucher expired")
      else .done ()

def VouchersService.redeem (user : AuthUser) (dto : RedeemVoucherDto) : Program Reply := do
  let normalized := toUpperCase (trim dto.code)
  let voucher ← DbService.tx do
    let found ← selectVoucherForUpdate normalized
    let v ← Prog.orThrow found (.badRequest "Unknown voucher code")
    Prog.throwIf (v.2.status == .redeemed) (.badRequest "Voucher already redeemed")
    Prog.throwIf (v.2.status == .expired) (.badRequest "Voucher expired")
    expireOnTouch v.1 v.2
    let _ ← updateRow .vouchers v.1 (.redeem user.id)
    let _ ← updateRow .users user.id
      (.credit (v.2.durationMinutes * 60) (some v.2.deviceLimit) (.voucher v.1))
    pure v
  AuditService.log (some user.id) "voucher.redeem"
  pure (.redeemed voucher.2.durationMinutes voucher.2.deviceLimit)

def codeAlphabet : Text := "ABCDEFGHJKLMNPQRSTUVWXYZ23456789".toList

def generateCode (bytes : List Nat) : Text :=
  let chars := bytes.map fun b => codeAlphabet.getD (b % codeAlphabet.length) 'A'
  chars.take 4 ++ '-' :: (chars.drop 4).take 4 ++ '-' :: (chars.drop 8).take 4

def randomCodes : Nat → Program (List Text)
  | 0 => .done []
  | count + 1 => do
      let bytes ← perform (.randomBytes 12)
      let others ← randomCodes count
      pure (generateCode bytes :: others)

/-- The values that the columns take: INT for both numbers, TIMESTAMPTZ for the expiry. -/
def GenerateVouchersDto.storable (config : Config) (dto : GenerateVouchersDto) : Bool :=
  dto.durationMinutes < 2 ^ 31 && dto.deviceLimit < 2 ^ 31 &&
    dto.expiresAt.all fun text => (config.timestamptz text).isSome

def newVoucher (config : Config) (actor : AuthUser) (dto : GenerateVouchersDto) (code : Text) :
    VoucherRow where
  code := code
  durationMinutes := dto.durationMinutes
  deviceLimit := dto.deviceLimit
  status := .unused
  createdBy := actor.id
  expiresAt := dto.expiresAt.bind config.timestamptz
  redeemedBy := none
  redeemedAt := none
  durationPositive := dto.durationMin
  limitPositive := dto.limitMin

/-- The INSERT fails as a whole on a parameter that its column does not take. -/
def insertBatch (config : Config) (actor : AuthUser) (dto : GenerateVouchersDto)
    (batch : List Text) : Program (List Text) :=
  if dto.storable config then
    DbService.tx (Prog.collect batch fun code => do
      let inserted ← insertOrSkip .vouchers fun _ => newVoucher config actor dto code
      pure (inserted.map fun voucher => voucher.2.code))
  else .raise .query

def generateLoop (config : Config) (actor : AuthUser) (dto : GenerateVouchersDto) :
    Nat → List Text → Program (List Text)
  | 0, codes => if codes.length < dto.count then .raise .attempts else .done codes
  | attempts + 1, codes =>
      if codes.length < dto.count then do
        let batch ← randomCodes (dto.count - codes.length)
        let inserted ← insertBatch config actor dto batch
        generateLoop config actor dto attempts (codes ++ inserted)
      else .done codes

def VouchersService.generate (config : Config) (actor : AuthUser) (dto : GenerateVouchersDto)
    (attempts : Nat) : Program Reply := do
  let codes ← generateLoop config actor dto attempts []
  AuditService.log (some actor.id) "voucher.generate"
  let rows ← select (.vouchersByCodes codes)
  pure (.vouchers rows)

/-! Requests. -/

def planSource (planId : Nat) : RequestSource where
  planId := some planId
  requestedMinutes := none
  minutesPositive := by simp
  chkRequestSource := Or.inl rfl

def customSource (minutes : Nat) (positive : 0 < minutes) : RequestSource where
  planId := none
  requestedMinutes := some minutes
  minutesPositive := by simpa using positive
  chkRequestSource := Or.inr rfl

/-- `plan_id = planId ?? null`, `requested_minutes = planId ? null : minutes`;
`none` when the caller gave neither. Ids and minutes that pass the DTO are truthy. -/
def CreateRequestDto.source (dto : CreateRequestDto) : Option RequestSource :=
  match dto.planId with
  | some planId => some (planSource planId)
  | none =>
      match given : dto.minutes with
      | some minutes =>
          some (customSource minutes (Nat.lt_of_lt_of_le (by decide)
            (dto.minutesRange minutes given).1))
      | none => none

def checkPlan (planId : Option Nat) : Program Unit :=
  match planId with
  | none => .done ()
  | some planId => do
      let plan ← select (.activePlan planId)
      Prog.throwIf (!plan) (.notFound "Plan not found or inactive")

def newRequest (user : AuthUser) (source : RequestSource) (now : Time) : PlanRequestRow where
  userId := user.id
  source := source
  status := .pending
  createdAt := now
  decidedBy := none
  decidedAt := none

/-- The replace branch finds the pending row and updates it by id, in two
statements with nothing in between to keep the row pending. -/
def writeRequest (user : AuthUser) (source : RequestSource) (pending : Option Nat) :
    Program (Nat × PlanRequestRow) :=
  match pending with
  | some id => do
      let row ← DbService.tx (updateRow .planRequests id (.replace source))
      let request ← Prog.orThrow row .query
      pure (id, request)
  | none => DbService.tx (insertRow .planRequests (newRequest user source))

def RequestsService.create (user : AuthUser) (dto : CreateRequestDto) : Program Reply := do
  let source ← Prog.orThrow dto.source
    (.badRequest "Pick a plan or enter the minutes you want")
  checkPlan dto.planId
  let pending ← select (.pendingRequest user.id)
  let request ← writeRequest user source pending
  AuditService.log (some user.id) "request.create"
  pure (.request request.1 request.2)

def RequestsService.listPending : Program Reply := do
  let items ← select .listPending
  pure (.pending items)

def statusText : RequestStatus → String
  | .pending => "pending"
  | .approved => "approved"
  | .rejected => "rejected"

/-- request.plan_minutes ?? request.requested_minutes, and null * 60 is 0 -/
def creditedMinutes (request : PlanRequestRow) (plan : Option PlanRow) : Nat :=
  ((plan.map (·.durationMinutes)).or request.source.requestedMinutes).getD 0

def creditedLimit (plan : Option PlanRow) : Nat := (plan.map (·.deviceLimit)).getD 1

def creditRequest (requestId : Nat) (request : PlanRequestRow) (plan : Option PlanRow) :
    Program Unit := do
  let _ ← updateRow .users request.userId
    (.credit (creditedMinutes request plan * 60) (some (creditedLimit plan)) (.request requestId))
  pure ()

def decision (approve : Bool) : RequestStatus := if approve then .approved else .rejected

/-- The plan in the row that `FOR UPDATE OF r` answers. Only the request is read again once
it is locked; it is joined to the plan row that the SELECT found before. -/
def rejoined (before request : PlanRequestRow) (plan : Option PlanRow) : Option PlanRow :=
  if request.source.planId = before.source.planId then plan else none

def selectRequestForUpdate (requestId : Nat) :
    Program (Option (PlanRequestRow × Option PlanRow)) := do
  let found ← select (.requestWithPlan requestId)
  match found with
  | none => pure none
  | some (before, plan) => do
      let row ← lockRow .planRequests requestId
      pure (row.map fun request => (request, rejoined before request plan))

def RequestsService.decide (actor : AuthUser) (requestId : Nat) (approve : Bool) :
    Program Reply := do
  let _ ← DbService.tx do
    let found ← selectRequestForUpdate requestId
    let request ← Prog.orThrow found (.notFound "Request not found")
    Prog.throwIf (request.1.status != .pending)
      (.badRequest ("Request already " ++ statusText request.1.status))
    let _ ← updateRow .planRequests requestId (.decide (decision approve) actor.id)
    if approve then creditRequest requestId request.1 request.2 else pure ()
  AuditService.log (some actor.id) (if approve then "request.approve" else "request.reject")
  pure .ok

/-! Grants and plans. -/

def AdminController.grant (actor : AuthUser) (id : Nat) (dto : GrantTimeDto) : Program Reply := do
  let row ← DbService.tx (updateRow .users id (.credit (dto.minutes * 60) dto.deviceLimit .grant))
  let user ← Prog.orThrow row (.notFound "User not found")
  AuditService.log (some actor.id) "user.grant"
  pure (.account id user)

def newPlan (dto : CreatePlanDto) : PlanRow where
  name := dto.name
  durationMinutes := dto.durationMinutes
  price := dto.price
  deviceLimit := dto.deviceLimit
  active := dto.active.getD true
  durationPositive := dto.durationMin
  limitPositive := dto.limitMin

def PlansService.create (actor : AuthUser) (dto : CreatePlanDto) : Program Reply := do
  let plan ← DbService.tx (insertRow .plans fun _ => newPlan dto)
  AuditService.log (some actor.id) "plan.create"
  pure (.plan plan.1 plan.2)

def PlansService.update (actor : AuthUser) (id : Nat) (dto : PlanEdit) : Program Reply := do
  let row ← DbService.tx (updateRow .plans id dto)
  let plan ← Prog.orThrow row (.notFound "Plan not found")
  AuditService.log (some actor.id) "plan.update"
  pure (.plan id plan)

def deactivate : PlanEdit where
  name := none
  durationMinutes := none
  price := none
  deviceLimit := none
  active := some false
  durationPositive := by simp
  limitPositive := by simp

def PlansService.remove (actor : AuthUser) (id : Nat) : Program Reply := do
  let referenced ← select (.planReferenced id)
  if referenced then do
    let _ ← DbService.tx (updateRow .plans id deactivate)
    AuditService.log (some actor.id) "plan.deactivate"
    pure (.removed true)
  else do
    DbService.tx (perform (.deletePlan id))
    AuditService.log (some actor.id) "plan.delete"
    pure (.removed false)

/-! Accounts. -/

def newUser (username passwordHash : Text) (role : Role) : UserRow where
  username := username
  passwordHash := passwordHash
  role := role
  remainingSeconds := 0
  deviceLimit := 1
  limitPositive := Nat.le_refl 1

def argon2HashOf (config : Config) (password : Text) : Program Text := do
  let salt ← perform (.randomBytes 16)
  pure (config.argon2Hash salt password)

def authUser (user : Nat × UserRow) : AuthUser := ⟨user.1, user.2.username, user.2.role⟩

def AuthService.register (config : Config) (dto : RegisterDto) : Program Reply := do
  let existing ← select (.userByName dto.username)
  Prog.throwIf existing.isSome (.conflict "Username already taken")
  let hash ← argon2HashOf config dto.password
  let user ← DbService.tx (insertRow .users fun _ => newUser dto.username hash .customer)
  AuditService.log (some user.1) "auth.register"
  pure (.user (authUser user))

/-- String(number) -/
def numberName (number : Nat) : Text := Nat.toDigits 10 number

def AuthService.clientLogin (dto : ClientLoginDto) : Program Reply := do
  let found ← select (.customerByName (numberName dto.number))
  let user ← Prog.orThrow found (.unauthorized "Unknown client number")
  AuditService.log (some user.1) "auth.client"
  pure (.user (authUser user))

def AuthService.login (config : Config) (dto : LoginDto) : Program Reply := do
  let found ← select (.userByName dto.username)
  let user ← Prog.orThrow found (.unauthorized "Invalid username or password")
  Prog.throwIf (!config.argon2Verify user.2.passwordHash dto.password)
    (.unauthorized "Invalid username or password")
  AuditService.log (some user.1) "auth.login"
  pure (.user (authUser user))

def hexEncode (bytes : List Nat) : Text :=
  bytes.flatMap fun byte => [Nat.digitChar (byte / 16 % 16), Nat.digitChar (byte % 16)]

/-- INSERT … ON CONFLICT (username) DO UPDATE -/
def upsertAdmin (username hash : Text) : Program Unit := do
  let inserted ← insertOrSkip .users fun _ => newUser username hash .admin
  if inserted.isSome then pure ()
  else do
    let found ← select (.userByName username)
    let user ← Prog.orThrow found .query
    let _ ← updateRow .users user.1 (.syncAdmin hash)
    pure ()

def insertClient (hash : Text) (number : Nat) : Program Unit := do
  let _ ← insertOrSkip .users fun _ => newUser (numberName number) hash .customer
  pure ()

def SeedAdmin.run (config : Config) (adminUser adminPass : Text) (clientCount : Nat) :
    Program Reply := do
  let adminHash ← argon2HashOf config adminPass
  DbService.tx (upsertAdmin adminUser adminHash)
  let secret ← perform (.randomBytes 32)
  let clientHash ← argon2HashOf config (hexEncode secret)
  DbService.tx (Prog.each (List.range' 1 clientCount) (insertClient clientHash))
  pure .ok

end Cybera
