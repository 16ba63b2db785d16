import Cybera.Passwords

/-!
The controllers: which guards stand before which handler, and what a request does to
the machine. A token is made from the answer to a sign-in. Browsers may show it with any
later request, or any other text.
-/

namespace Cybera

open Interleaving

/-- JwtService with JWT_SECRET and expiresIn 7d; its times are whole seconds. -/
structure JwtService where
  sign : Time → AuthUser → Text
  verify : Time → Text → Option AuthUser
  verifies : ∀ signed now user, verify now (sign signed user) =
    if now / 1000 < signed / 1000 + 7 * 24 * 3600 then some user else none

inductive Guard where
  | jwtAuth
  | throttler
  | roles

inductive Controller where
  | auth
  | plans
  | requests
  | vouchers
  | session
  | me
  | admin
  deriving DecidableEq

def Controller.guards : Controller → List Guard
  | .auth | .vouchers => []
  | .plans | .requests | .me => [.jwtAuth]
  | .session | .admin => [.jwtAuth, .roles]

def Controller.roles : Controller → Option (List Role)
  | .admin => some [.admin]
  | _ => none

/-- The handlers, with the bodies and parameters that passed their pipes. -/
inductive Route where
  | register (dto : RegisterDto)
  | client (dto : ClientLoginDto)
  | login (dto : LoginDto)
  | logout
  | me
  | listPlans
  | createRequest (dto : CreateRequestDto)
  | myRequests
  | redeem (dto : RedeemVoucherDto)
  | connect (dto : ConnectDto)
  | balance
  | mySessions
  | devices
  | pendingRequests
  | approve (id : Nat)
  | reject (id : Nat)
  | users (q : Option Text)
  | grant (id : Nat) (dto : GrantTimeDto)
  | activeSessions
  | kick (mac : Text)
  | allPlans
  | createPlan (dto : CreatePlanDto)
  | updatePlan (id : Nat) (dto : PlanEdit)
  | deletePlan (id : Nat)
  | generateVouchers (dto : GenerateVouchersDto) (attempts : Nat)
  | listVouchers
  | auditLog (limit : Option Text)

def Route.controller : Route → Controller
  | .register .. | .client .. | .login .. | .logout | .me => .auth
  | .listPlans => .plans
  | .createRequest .. | .myRequests => .requests
  | .redeem .. => .vouchers
  | .connect .. => .session
  | .balance | .mySessions | .devices => .me
  | _ => .admin

/-- @UseGuards on the handler. -/
def Route.guards : Route → List Guard
  | .register .. | .client .. | .login .. => [.throttler]
  | .me => [.jwtAuth]
  | .redeem .. => [.jwtAuth, .throttler]
  | _ => []

/-- reflector.getAllAndOverride: @Roles on the handler, or else on its class. -/
def Route.roles (route : Route) : Option (List Role) :=
  (match route with
    | .connect .. => some [.customer, .admin]
    | _ => none : Option (List Role)).or route.controller.roles

structure Request where
  cookie : Option Text
  /-- whether the throttler counts too many requests of this client -/
  throttled : Bool
  route : Route

inductive Refusal where
  | unauthorized (message : String)
  | forbidden (message : String)
  | tooManyRequests
  deriving DecidableEq

def JwtAuthGuard.canActivate (jwt : JwtService) (now : Time) (cookie : Option Text) :
    Except Refusal AuthUser :=
  match cookie with
  | none | some [] => .error (.unauthorized "Not logged in")
  | some token =>
      match jwt.verify now token with
      | some user => .ok user
      | none => .error (.unauthorized "Invalid or expired session")

def RolesGuard.canActivate (roles : Option (List Role)) (user : Option AuthUser) :
    Except Refusal Unit :=
  match roles with
  | none | some [] => .ok ()
  | some roles =>
      if user.any fun user => roles.contains user.role then .ok ()
      else .error (.forbidden "Insufficient role")

def Guard.canActivate (jwt : JwtService) (now : Time) (request : Request)
    (user : Option AuthUser) : Guard → Except Refusal (Option AuthUser)
  | .jwtAuth => do
      let user ← JwtAuthGuard.canActivate jwt now request.cookie
      pure (some user)
  | .throttler => if request.throttled then .error .tooManyRequests else pure user
  | .roles => do
      RolesGuard.canActivate request.route.roles user
      pure user

/-- The guards of the class, then those of the handler: the user they let in. -/
def Request.admit (jwt : JwtService) (now : Time) (request : Request) :
    Except Refusal (Option AuthUser) :=
  (request.route.controller.guards ++ request.route.guards).foldlM
    (Guard.canActivate jwt now request) none

/-- What the handler calls; the others only read. -/
def Route.call (user : Option AuthUser) : Route → Option Call
  | .register dto => some (.register dto)
  | .client dto => some (.clientLogin dto)
  | .login dto => some (.login dto)
  | .createRequest dto => user.map (.createRequest · dto)
  | .redeem dto => user.map (.redeem · dto)
  | .connect dto => user.map (.connect · dto)
  | .pendingRequests => some .listPending
  | .approve id => user.map (.decide · id true)
  | .reject id => user.map (.decide · id false)
  | .grant id dto => user.map (.grant · id dto)
  | .kick mac => user.map (.kick · mac)
  | .createPlan dto => user.map (.createPlan · dto)
  | .updatePlan id dto => user.map (.updatePlan · id dto)
  | .deletePlan id => user.map (.removePlan · id)
  | .generateVouchers dto attempts => user.map (.generate · dto attempts)
  | _ => none

/-- What runs without a request: the passes of the session manager and the seeding. -/
inductive Process where
  | tick
  | seedAdmin (adminUser adminPass : Text) (clientCount : Nat)

def Process.call : Process → Call
  | .tick => .tick
  | .seedAdmin adminUser adminPass clientCount => .seedAdmin adminUser adminPass clientCount

/-- The machine behind the controllers; `issued` are the tokens that were handed out. -/
structure Site where
  pool : ServerPool
  issued : List (Time × AuthUser)

def Site.clock (site : Site) : Time := site.pool.state.clock

def Site.initial : Site := ⟨⟨World.initial, []⟩, []⟩

inductive SiteMove where
  | request (request : Request)
  | respond (thread : Nat)
  | process (process : Process)
  | advance (thread : Nat) (choice : Choice)
  | crash (thread : Nat)
  | ambient (event : Ambient)

def Site.signedIn (site : Site) (thread : Nat) : Option AuthUser :=
  match site.pool.state.arrivals[thread]?, answerOf site.pool thread with
  | some call, some (.ok (.user user)) => if call.signsIn then some user else none
  | _, _ => none

section Moves
variable (config : Config) (jwt : JwtService)

def Site.moved (site : Site) (move : Move Choice Call Ambient) : Option Site :=
  (step (server config) site.pool move).map fun pool => { site with pool }

def Site.play (site : Site) : SiteMove → Option Site
  | .request request =>
      match request.admit jwt site.clock with
      | .error _ => some site
      | .ok user =>
          match request.route.call user with
          | none => some site
          | some call => site.moved config (.start call)
  | .respond thread =>
      (site.signedIn thread).map fun user =>
        { site with issued := site.issued ++ [(site.clock, user)] }
  | .process process => site.moved config (.start process.call)
  | .advance thread choice => site.moved config (.advance thread choice)
  | .crash thread => site.moved config (.crash thread)
  | .ambient event => site.moved config (.ambient event)

def surf (site : Site) : List SiteMove → Option Site
  | [] => some site
  | move :: rest => (site.play config jwt move).bind fun after => surf after rest

/-- A token that verifies is one that was handed out. -/
def Site.genuine (site : Site) : SiteMove → Bool
  | .request ⟨some token, _, _⟩ =>
      (jwt.verify site.clock token).isNone ||
        site.issued.any fun (signed, user) => jwt.sign signed user == token
  | _ => true

def unforged (site : Site) : List SiteMove → Bool
  | [] => true
  | move :: rest => site.genuine jwt move &&
      match site.play config jwt move with
      | some after => unforged after rest
      | none => true

end Moves

def Call.user : Call → Option AuthUser
  | .redeem user _ | .createRequest user _ | .connect user _ => some user
  | .generate actor _ _ | .decide actor _ _ | .grant actor _ _ | .kick actor _
  | .createPlan actor _ | .updatePlan actor _ _ | .removePlan actor _ => some actor
  | .listPending | .tick | .register _ | .clientLogin _ | .login _ | .seedAdmin .. => none

def Call.staffOnly : Call → Bool
  | .generate .. | .decide .. | .grant .. | .kick .. | .createPlan .. | .updatePlan ..
  | .removePlan .. | .listPending => true
  | _ => false

end Cybera
