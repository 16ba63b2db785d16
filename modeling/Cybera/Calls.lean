import Cybera.Schema

/-!
What reaches the services: validated request bodies, the calls with their
arguments, what they answer and what they throw. A DTO carries the rules of its
class-validator decorators, so an invalid body cannot be built.
-/

namespace Cybera

/-- JavaScript's toLowerCase and toUpperCase on ASCII, the only characters that
MAC addresses and voucher codes are made of. -/
def toLowerCase (text : Text) : Text := text.map Char.toLower
def toUpperCase (text : Text) : Text := text.map Char.toUpper

/-- The white space of JavaScript's trim and of \s in its patterns. -/
def isBlank (c : Char) : Bool :=
  let n := c.toNat
  (9 ≤ n && n ≤ 13) || n == 32 || n == 0xa0 || n == 0x1680 || (0x2000 ≤ n && n ≤ 0x200a) ||
    n == 0x2028 || n == 0x2029 || n == 0x202f || n == 0x205f || n == 0x3000 || n == 0xfeff

def trim (text : Text) : Text :=
  ((text.dropWhile isBlank).reverse.dropWhile isBlank).reverse

def isHexDigit (c : Char) : Bool :=
  ('0' ≤ c && c ≤ '9') || ('a' ≤ c && c ≤ 'f') || ('A' ≤ c && c ≤ 'F')

/-- /^([0-9a-f]{2}:){5}[0-9a-f]{2}$/i -/
def isMac (text : Text) : Bool :=
  text.length == 17 &&
    text.zipIdx.all fun (c, index) => if index % 3 == 2 then c == ':' else isHexDigit c

def isCodeChar (c : Char) : Bool :=
  ('A' ≤ c && c ≤ 'Z') || ('a' ≤ c && c ≤ 'z') || ('0' ≤ c && c ≤ '9') || c == '-'

def isUsernameChar (c : Char) : Bool :=
  ('A' ≤ c && c ≤ 'Z') || ('a' ≤ c && c ≤ 'z') || ('0' ≤ c && c ≤ '9') ||
    c == '_' || c == '.' || c == '-'

structure AuthUser where
  id : Nat
  username : Text
  role : Role
  deriving DecidableEq

structure RedeemVoucherDto where
  code : Text
  matchesCode : code.all isCodeChar ∧ 4 ≤ code.length ∧ code.length ≤ 64

/-- `expiresAt` also passes @IsDateString, which nothing here relies on. -/
structure GenerateVouchersDto where
  count : Nat
  durationMinutes : Nat
  deviceLimit : Nat
  expiresAt : Option Text
  countRange : 1 ≤ count ∧ count ≤ 500
  durationMin : 0 < durationMinutes
  limitMin : 1 ≤ deviceLimit

structure CreateRequestDto where
  planId : Option Nat
  minutes : Option Nat
  planMin : ∀ id ∈ planId, 1 ≤ id
  minutesRange : ∀ n ∈ minutes, 5 ≤ n ∧ n ≤ 1440

structure GrantTimeDto where
  minutes : Nat
  deviceLimit : Option Nat
  minutesMin : 1 ≤ minutes
  limitMin : ∀ limit ∈ deviceLimit, 1 ≤ limit

/-- `clientip` also passes @IsIP, which nothing here relies on. -/
structure ConnectDto where
  clientip : Text
  clientmac : Text
  hid : Text
  sig : Text
  label : Option Text
  macFormat : isMac clientmac = true
  hidLength : hid.length ≤ 128
  sigLength : sig.length ≤ 128
  labelLength : ∀ text ∈ label, text.length ≤ 64

structure CreatePlanDto where
  name : Text
  durationMinutes : Nat
  price : Nat
  deviceLimit : Nat
  active : Option Bool
  nameLength : 1 ≤ name.length ∧ name.length ≤ 64
  durationMin : 0 < durationMinutes
  limitMin : 1 ≤ deviceLimit

structure RegisterDto where
  username : Text
  password : Text
  usernameLength : 3 ≤ username.length ∧ username.length ≤ 32
  usernamePattern : username.all isUsernameChar = true
  passwordLength : 6 ≤ password.length ∧ password.length ≤ 128

structure ClientLoginDto where
  number : Nat
  numberRange : 1 ≤ number ∧ number ≤ 999

structure LoginDto where
  username : Text
  password : Text
  usernameLength : 1 ≤ username.length ∧ username.length ≤ 32
  passwordLength : 1 ≤ password.length ∧ password.length ≤ 128

/-- Environment variables, and the third-party functions the services call; `timestamptz` is
how PostgreSQL reads a TIMESTAMPTZ, `none` where it refuses the text. -/
structure Config where
  kickCooldownSeconds : Nat
  maxSessionSeconds : Nat
  fasKey : Text
  hmacSha256 : Text → Text → List Nat
  argon2Hash : List Nat → Text → Text
  argon2Verify : Text → Text → Bool
  timestamptz : Text → Option Time

/-- `seedAdmin` and `migrate` read ADMIN_USER, ADMIN_PASS and CLIENT_COUNT on
every run, so these are arguments. `attempts` bounds the rounds of `generate`. -/
inductive Call where
  | redeem (user : AuthUser) (dto : RedeemVoucherDto)
  | generate (actor : AuthUser) (dto : GenerateVouchersDto) (attempts : Nat)
  | createRequest (user : AuthUser) (dto : CreateRequestDto)
  | listPending
  | decide (actor : AuthUser) (requestId : Nat) (approve : Bool)
  | grant (actor : AuthUser) (id : Nat) (dto : GrantTimeDto)
  | connect (user : AuthUser) (dto : ConnectDto)
  | kick (actor : AuthUser) (mac : Text)
  | tick
  | createPlan (actor : AuthUser) (dto : CreatePlanDto)
  | updatePlan (actor : AuthUser) (id : Nat) (dto : PlanEdit)
  | removePlan (actor : AuthUser) (id : Nat)
  | register (dto : RegisterDto)
  | clientLogin (dto : ClientLoginDto)
  | login (dto : LoginDto)
  | seedAdmin (adminUser adminPass : Text) (clientCount : Nat)

/-- One line of `listPending`: the request, its owner's name and its plan. -/
structure PendingItem where
  id : Nat
  request : PlanRequestRow
  username : Text
  plan : Option PlanRow
  deriving DecidableEq

inductive Reply where
  | redeemed (creditedMinutes deviceLimit : Nat)
  | vouchers (rows : List (Nat × VoucherRow))
  | request (id : Nat) (row : PlanRequestRow)
  | pending (items : List PendingItem)
  | account (id : Nat) (row : UserRow)
  | connected (mac : Text) (timeoutSeconds : Int)
  | plan (id : Nat) (row : PlanRow)
  | removed (deactivated : Bool)
  | user (user : AuthUser)
  | ok
  deriving DecidableEq

/-- What a call throws: an HTTP exception with its message, a failed statement, a COMMIT
whose answer was `lost`, a failed process, or a `generate` that ran out of modelled rounds. -/
inductive Failure where
  | badRequest (message : String)
  | unauthorized (message : String)
  | forbidden (message : String)
  | notFound (message : String)
  | conflict (message : String)
  | query
  | lost
  | process
  | attempts
  deriving DecidableEq

end Cybera
