import Cybera.Completion
import Cybera.Decisions
import Cybera.Redemption
import Cybera.Routes

/-!
In whose name the handlers run. As long as tokens are not forged, each request that gets
past the guards comes from an account that signed in, and staff requests from an account
that is and stays an administrator's.
-/

namespace Cybera

open Interleaving

section Runs
variable {config : Config} {jwt : JwtService}

theorem surf_append (site : Site) (before rest : List SiteMove) :
    surf config jwt site (before ++ rest) =
      (surf config jwt site before).bind fun middle => surf config jwt middle rest := by
  induction before generalizing site with
  | nil => rfl
  | cons move before ih =>
      simp only [List.cons_append, surf]
      cases site.play config jwt move with
      | none => rfl
      | some after => exact ih after

/-- What a move does: only requests and processes start calls. -/
inductive Played (config : Config) (jwt : JwtService) (site : Site) : SiteMove → Site → Prop where
  | quiet (request : Request) : Played config jwt site (.request request) site
  | called (request : Request) (user : Option AuthUser) (call : Call) (pool : ServerPool)
      (admitted : request.admit jwt site.clock = .ok user)
      (handled : request.route.call user = some call)
      (moved : step (server config) site.pool (.start call) = some pool) :
      Played config jwt site (.request request) ⟨pool, site.issued⟩
  | responded (thread : Nat) (user : AuthUser) (signed : site.signedIn thread = some user) :
      Played config jwt site (.respond thread) ⟨site.pool, site.issued ++ [(site.clock, user)]⟩
  | processed (process : Process) (pool : ServerPool)
      (moved : step (server config) site.pool (.start process.call) = some pool) :
      Played config jwt site (.process process) ⟨pool, site.issued⟩
  | moved (move : SiteMove) (own : Move Choice Call Ambient) (pool : ServerPool)
      (old : ∀ call, own ≠ .start call)
      (moved : step (server config) site.pool own = some pool) :
      Played config jwt site move ⟨pool, site.issued⟩

theorem play_cases {site after : Site} {move : SiteMove}
    (played : site.play config jwt move = some after) : Played config jwt site move after := by
  have moves : ∀ {own : Move Choice Call Ambient}, site.moved config own = some after →
      ∃ pool, step (server config) site.pool own = some pool ∧ after = ⟨pool, site.issued⟩ := by
    intro own moved
    obtain ⟨pool, stepped, rfl⟩ := Option.map_eq_some_iff.mp moved
    exact ⟨pool, stepped, rfl⟩
  cases move with
  | request request =>
      simp only [Site.play] at played
      split at played
      · cases played
        exact .quiet request
      · rename_i user admitted
        split at played
        · cases played
          exact .quiet request
        · rename_i call handled
          obtain ⟨pool, stepped, rfl⟩ := moves played
          exact .called request user call pool admitted handled stepped
  | respond thread =>
      obtain ⟨user, signed, rfl⟩ := Option.map_eq_some_iff.mp played
      exact .responded thread user signed
  | process process =>
      obtain ⟨pool, stepped, rfl⟩ := moves played
      exact .processed process pool stepped
  | advance thread choice =>
      obtain ⟨pool, stepped, rfl⟩ := moves played
      exact .moved _ _ pool (by simp) stepped
  | crash thread =>
      obtain ⟨pool, stepped, rfl⟩ := moves played
      exact .moved _ _ pool (by simp) stepped
  | ambient event =>
      obtain ⟨pool, stepped, rfl⟩ := moves played
      exact .moved _ _ pool (by simp) stepped

theorem surf_induction (holds : Site → Prop) (run : List SiteMove) (entry : holds Site.initial)
    (moves : ∀ before move rest site after, run = before ++ move :: rest →
      surf config jwt Site.initial before = some site → Played config jwt site move after →
      holds site → holds after) :
    ∀ before rest site, run = before ++ rest →
      surf config jwt Site.initial before = some site → holds site := by
  intro before
  induction before using List.reverseRecOn with
  | nil =>
      intro rest site _ ran
      cases ran
      exact entry
  | append_singleton before move ih =>
      intro rest site split ran
      rw [surf_append] at ran
      obtain ⟨middle, first, last⟩ := Option.bind_eq_some_iff.mp ran
      simp only [surf, Option.bind_eq_some_iff, Option.some.injEq] at last
      obtain ⟨after, played, rfl⟩ := last
      have split' : run = before ++ move :: rest := by simp [split]
      exact moves before move rest middle after split' first (play_cases played)
        (ih (move :: rest) middle split' first)

theorem surf_reached {run : List SiteMove} {site : Site}
    (ran : surf config jwt Site.initial run = some site) : Reached config site.pool := by
  refine surf_induction (fun site => Reached config site.pool) run .init ?_ run
    [] site (by simp) ran
  intro before move rest site after _ _ played reached
  cases played with
  | quiet | responded => exact reached
  | called request user call pool admitted handled moved => exact reached.next _ moved
  | processed process pool moved => exact reached.next _ moved
  | moved _ own pool old moved => exact reached.next _ moved

theorem surf_later {site final : Site} {rest : List SiteMove}
    (ran : surf config jwt site rest = some final) : Later site.pool.state final.pool.state := by
  induction rest generalizing site with
  | nil =>
      cases ran
      exact later_refl _
  | cons move rest ih =>
      obtain ⟨middle, played, onward⟩ := Option.bind_eq_some_iff.mp ran
      refine later_trans ?_ (ih onward)
      cases play_cases played with
      | quiet | responded => exact later_refl _
      | called request user call pool admitted handled moved => exact step_later moved
      | processed process pool moved => exact step_later moved
      | moved _ own pool old moved => exact step_later moved

theorem issued_from {run : List SiteMove} {site : Site}
    (ran : surf config jwt Site.initial run = some site) : ∀ signed user,
      (signed, user) ∈ site.issued → ∃ earlier entrance between issuer,
        run = earlier ++ .respond entrance :: between ∧
        surf config jwt Site.initial earlier = some issuer ∧ issuer.clock = signed ∧
        issuer.signedIn entrance = some user := by
  refine surf_induction (fun site => ∀ signed user, (signed, user) ∈ site.issued →
    ∃ earlier entrance between issuer, run = earlier ++ .respond entrance :: between ∧
      surf config jwt Site.initial earlier = some issuer ∧ issuer.clock = signed ∧
      issuer.signedIn entrance = some user) run (by simp [Site.initial]) ?_ run []
        site (by simp) ran
  intro before move rest site after split ran played known signed user issued
  cases played with
  | quiet => exact known signed user issued
  | called | processed | moved => exact known signed user issued
  | responded entrance answered signedIn =>
      rcases List.mem_append.mp issued with old | new
      · exact known signed user old
      · obtain ⟨rfl, rfl⟩ := Prod.mk.inj (List.mem_singleton.mp new)
        exact ⟨before, entrance, rest, site, split, ran, rfl, signedIn⟩

theorem unforged_at {site middle : Site} {before after : List SiteMove} {move : SiteMove}
    (honest : unforged config jwt site (before ++ move :: after) = true)
    (ran : surf config jwt site before = some middle) : middle.genuine jwt move = true := by
  induction before generalizing site with
  | nil =>
      cases ran
      simp only [List.nil_append, unforged, Bool.and_eq_true] at honest
      exact honest.1
  | cons first before ih =>
      obtain ⟨next, played, onward⟩ := Option.bind_eq_some_iff.mp ran
      simp only [List.cons_append, unforged, Bool.and_eq_true, played] at honest
      exact ih honest.2 onward

end Runs

section Guards
variable {jwt : JwtService} {now : Time} {request : Request}

def Route.isOpen : Route → Bool
  | .register .. | .client .. | .login .. | .logout => true
  | _ => false

theorem jwtAuth_ok {cookie : Option Text} {user : AuthUser}
    (passed : JwtAuthGuard.canActivate jwt now cookie = .ok user) :
    ∃ token, cookie = some token ∧ jwt.verify now token = some user := by
  unfold JwtAuthGuard.canActivate at passed
  split at passed
  · cases passed
  · cases passed
  · rename_i token _
    split at passed
    · rename_i user' verified
      cases passed
      exact ⟨token, rfl, verified⟩
    · cases passed

theorem roles_ok {roles : List Role} {user : Option AuthUser} (some' : roles ≠ [])
    (passed : RolesGuard.canActivate (some roles) user = .ok ()) :
    ∃ known, user = some known ∧ known.role ∈ roles := by
  unfold RolesGuard.canActivate at passed
  split at passed
  · rename_i none'
    cases none'
  · rename_i empty
    exact absurd (Option.some.inj empty) some'
  · rename_i given _ same
    cases same
    split at passed
    · rename_i allowed
      obtain ⟨known, same, member⟩ := (Option.any_eq_true _ _).mp allowed
      exact ⟨known, same, by simpa using member⟩
    · cases passed

theorem guards_keep {guards : List Guard} {user visitor : Option AuthUser}
    (others : Guard.jwtAuth ∉ guards)
    (passed : guards.foldlM (Guard.canActivate jwt now request) user = .ok visitor) :
    visitor = user := by
  induction guards with
  | nil =>
      cases passed
      rfl
  | cons guard rest ih =>
      simp only [List.mem_cons, not_or] at others
      rw [List.foldlM_cons] at passed
      cases first : guard.canActivate jwt now request user with
      | error refusal =>
          rw [first] at passed
          cases passed
      | ok user' =>
          rw [first] at passed
          have same : user' = user := by
            cases guard with
            | jwtAuth => exact absurd rfl others.1
            | throttler =>
                simp only [Guard.canActivate] at first
                split at first <;> cases first
                rfl
            | roles =>
                simp only [Guard.canActivate] at first
                cases allowed : RolesGuard.canActivate request.route.roles user with
                | error refusal =>
                    rw [allowed] at first
                    cases first
                | ok _ =>
                    rw [allowed] at first
                    cases first
                    rfl
          exact ih others.2 (same ▸ passed)

theorem guards_first (route : Route) (shut : route.isOpen = false) :
    ∃ rest, route.controller.guards ++ route.guards = .jwtAuth :: rest ∧ Guard.jwtAuth ∉ rest ∧
      (route.controller = .admin → rest = [.roles] ∧ route.roles = some [.admin]) := by
  cases route with
  | register | client | login | logout => cases shut
  | me | listPlans | createRequest | myRequests | redeem | connect | balance | mySessions
  | devices =>
      exact ⟨_, rfl, by simp [Route.guards], by simp [Route.controller]⟩
  | _ => exact ⟨[.roles], rfl, by simp, fun _ => ⟨rfl, rfl⟩⟩

/-- Behind every handler that is not open stands the JwtAuthGuard, and before those of
AdminController the RolesGuard. -/
theorem admit_user {visitor : Option AuthUser} (shut : request.route.isOpen = false)
    (admitted : request.admit jwt now = .ok visitor) : ∃ user token, visitor = some user ∧
      request.cookie = some token ∧ jwt.verify now token = some user ∧
      (request.route.controller = .admin → user.role = .admin) := by
  obtain ⟨rest, guards, others, staff⟩ := guards_first request.route shut
  unfold Request.admit at admitted
  rw [guards, List.foldlM_cons] at admitted
  cases first : JwtAuthGuard.canActivate jwt now request.cookie with
  | error refusal =>
      simp only [Guard.canActivate, first] at admitted
      cases admitted
  | ok user =>
      simp only [Guard.canActivate, first] at admitted
      replace admitted : rest.foldlM (Guard.canActivate jwt now request) (some user) =
        .ok visitor := admitted
      obtain ⟨token, shown, verified⟩ := jwtAuth_ok first
      refine ⟨user, token, guards_keep others admitted, shown, verified, fun admin => ?_⟩
      obtain ⟨rfl, roles⟩ := staff admin
      cases allowed : RolesGuard.canActivate request.route.roles (some user) with
      | error refusal =>
          simp only [List.foldlM_cons, Guard.canActivate, allowed] at admitted
          cases admitted
      | ok _ =>
          rw [roles] at allowed
          obtain ⟨known, same, member⟩ := roles_ok (by simp) allowed
          cases same
          simpa using member

end Guards

/-! The account behind a token. -/
section Accounts
variable {config : Config} {pool : ServerPool}

/-- The account had this name and role at some commit. -/
def Accounted (world : World) (user : AuthUser) : Prop :=
  ∃ commits ≤ world.db.log.length, ∃ row : UserRow,
    storeAfter world.db.log commits .users user.id = some row ∧ row.username = user.username ∧
      row.role = user.role

theorem Accounted.later {before after : World} {user : AuthUser}
    (accounted : Accounted before user) (later : Later before after) : Accounted after user := by
  obtain ⟨commits, bound, row, present, rest⟩ := accounted
  exact ⟨commits, Nat.le_trans bound later.log.length_le, row,
    (storeAfter_grown later.log commits bound).symm ▸ present, rest⟩

theorem answered_account (reached : Reached config pool) {thread : Nat} {call : Call}
    {user : AuthUser} (called : pool.state.arrivals[thread]? = some call)
    (signs : call.signsIn = true)
    (answered : pool.threads[thread]? = some (some (.done (.user user)))) :
    Accounted pool.state user := by
  have ready := reached_ready reached
  have outcome := answered_outcome reached called answered
  cases call with
  | register dto =>
      obtain ⟨id, salt, same, own⟩ := outcome
      cases same
      obtain ⟨index, found⟩ := own_block (own ▸ List.mem_singleton_self _)
      obtain ⟨_, salt', made⟩ := registered_made (reached_legit reached) called found
      exact ⟨index + 1, (List.getElem?_eq_some_iff.mp found).1, _, made, rfl, rfl⟩
  | clientLogin dto =>
      obtain ⟨id, row, time, read, view, asked, same⟩ := outcome
      cases same
      obtain ⟨present, _, bound⟩ := customerByName_answer ready asked
      exact ⟨read, bound, row, present, rfl, rfl⟩
  | login dto =>
      obtain ⟨id, row, time, read, view, asked, _, same⟩ := outcome
      cases same
      obtain ⟨present, _, bound⟩ := userByName_answer ready asked
      exact ⟨read, bound, row, present, rfl, rfl⟩
  | _ => cases signs

theorem account_lasts (reached : Reached config pool) {user : AuthUser}
    (accounted : Accounted pool.state user) :
    ∃ row : UserRow, pool.state.db.store .users user.id = some row ∧
      row.username = user.username ∧ (user.role = .admin → row.role = .admin) := by
  obtain ⟨commits, bound, row, present, name, role⟩ := accounted
  obtain ⟨after, left, same, admin⟩ := @row_related _ _ (reached_legit reached) .users
    (by simp) (by simp)
    (fun before after => after.username = before.username ∧
      (before.role = .admin → after.role = .admin))
    (fun _ => ⟨rfl, id⟩)
    (fun _ _ _ left right => ⟨right.1.trans left.1, fun admin => right.2 (left.2 admin)⟩)
    (by intro op now before; cases op <;> simp [Op.run, UserOp.run]) _ _ _ _ bound
    (Nat.le_refl _) present
  rw [← (reached_ready reached).recorded] at left
  exact ⟨after, left, same.trans name, fun staff => admin (role.trans staff)⟩

end Accounts

/-- The token was made less than seven days before from the answer to a sign-in, and the
account still bears the name, and the rights if they were an administrator's. -/
structure Entitled (config : Config) (jwt : JwtService) (before : List SiteMove)
    (site final : Site) (user : AuthUser) : Prop where
  signedIn : ∃ earlier entrance between issuer,
    before = earlier ++ .respond entrance :: between ∧
      surf config jwt Site.initial earlier = some issuer ∧
      issuer.signedIn entrance = some user ∧
      site.clock / 1000 < issuer.clock / 1000 + 7 * 24 * 3600
  account : ∃ row : UserRow, final.pool.state.db.store .users user.id = some row ∧
    row.username = user.username ∧ (user.role = .admin → row.role = .admin)

section Tokens
variable {config : Config} {jwt : JwtService}

theorem signedIn_answer {site : Site} {thread : Nat} {user : AuthUser}
    (signed : site.signedIn thread = some user) : ∃ call,
      site.pool.state.arrivals[thread]? = some call ∧ call.signsIn = true ∧
        site.pool.threads[thread]? = some (some (.done (.user user))) := by
  unfold Site.signedIn at signed
  split at signed
  · rename_i call user' called answer
    split at signed
    · rename_i signs
      cases signed
      exact ⟨call, called, signs, answerOf_ok answer⟩
    · cases signed
  · cases signed

theorem token_from {before after : List SiteMove} {request : Request} {site : Site}
    (honest : unforged config jwt Site.initial (before ++ .request request :: after) = true)
    (ran : surf config jwt Site.initial before = some site) {token : Text} {user : AuthUser}
    (shown : request.cookie = some token) (verified : jwt.verify site.clock token = some user) :
    ∃ signed, (signed, user) ∈ site.issued ∧
      site.clock / 1000 < signed / 1000 + 7 * 24 * 3600 := by
  have genuine := unforged_at honest ran
  obtain ⟨cookie, throttled, route⟩ := request
  cases shown
  simp only [Site.genuine, verified, Option.isNone_some, Bool.false_or, List.any_eq_true,
    Prod.exists, beq_iff_eq] at genuine
  obtain ⟨signed, user', issued, rfl⟩ := genuine
  rw [jwt.verifies, Option.ite_none_right_eq_some, Option.some.injEq] at verified
  exact ⟨signed, verified.2 ▸ issued, verified.1⟩

theorem token_account {site : Site} {run : List SiteMove}
    (ran : surf config jwt Site.initial run = some site) {signed : Time} {user : AuthUser}
    (issued : (signed, user) ∈ site.issued) : Accounted site.pool.state user := by
  obtain ⟨earlier, entrance, between, issuer, rfl, ran', _, answer⟩ :=
    issued_from ran signed user issued
  obtain ⟨call, called, signs, answered⟩ := signedIn_answer answer
  rw [surf_append, ran'] at ran
  exact (answered_account (surf_reached ran') called signs answered).later (surf_later ran)

end Tokens

/-! A counter at work. Its tokens are in the clear. -/

def unary : Text → Nat × Text
  | '1' :: rest => ((unary rest).1 + 1, (unary rest).2)
  | rest => (0, rest)

theorem unary_replicate (n : Nat) (rest : Text) :
    unary (List.replicate n '1' ++ '.' :: rest) = (n, '.' :: rest) := by
  induction n with
  | zero => rfl
  | succ n ih => simp [List.replicate_succ, unary, ih]

def writtenToken (signed : Time) (user : AuthUser) : Text :=
  List.replicate (Equiv.intEquivNat signed) '1' ++
    '.' :: (List.replicate user.id '1' ++
      '.' :: (if user.role = .admin then 'a' else 'c') :: user.username)

def readToken (token : Text) : Option (Time × AuthUser) :=
  match unary token with
  | (time, _ :: rest) =>
      match unary rest with
      | (id, _ :: role :: username) =>
          some (Equiv.intEquivNat.symm time,
            ⟨id, username, if role = 'a' then .admin else .customer⟩)
      | _ => none
  | _ => none

theorem readToken_written (signed : Time) (user : AuthUser) :
    readToken (writtenToken signed user) = some (signed, user) := by
  obtain ⟨id, username, role⟩ := user
  unfold readToken writtenToken
  cases role <;> simp [unary_replicate]

def shopJwt : JwtService where
  sign := writtenToken
  verify now token := (readToken token).bind fun (signed, user) =>
    if now / 1000 < signed / 1000 + 7 * 24 * 3600 then some user else none
  verifies signed now user := by simp [readToken_written]

def staffLogin : LoginDto where
  username := staff.username
  password := ['s', 'e', 'c', 'r', 'e', 't']
  usernameLength := by decide
  passwordLength := by decide

def advances (thread count : Nat) : List SiteMove := List.replicate count (.advance thread {})

/-- The counter opens: staff and the first seat are seeded, and staff logs in. -/
def counter : List SiteMove :=
  .process (.seedAdmin staff.username ['s', 'e', 'c', 'r', 'e', 't'] 1) :: advances 0 9 ++
    [.request ⟨none, false, .login staffLogin⟩] ++ advances 1 2 ++ [.respond 1]

def counterGrant : Request := ⟨some (writtenToken 0 staff), false, .grant 2 anHour⟩

def granting : List SiteMove := counter ++ .request counterGrant :: advances 2 4

theorem granting_honest : unforged shop shopJwt Site.initial granting = true := by decide +kernel

theorem granting_ends : ∃ final, surf shop shopJwt Site.initial granting = some final ∧
    credits final.pool.state.db.log = [⟨2, 3600, .grant⟩] := by
  have played : (surf shop shopJwt Site.initial granting).map
      (fun site => credits site.pool.state.db.log) = some [⟨2, 3600, .grant⟩] := by decide +kernel
  exact Option.map_eq_some_iff.mp played

/-- In any run without forged tokens, a request that gets past the guards of a handler
that is not open comes from an account that signed in, and one to AdminController from an
administrator. -/
theorem requests_entitled (config : Config) (jwt : JwtService) (run : List SiteMove)
    (honest : unforged config jwt Site.initial run = true) (final : Site)
    (ran : surf config jwt Site.initial run = some final) :
    ∀ before request after site visitor, run = before ++ .request request :: after →
      surf config jwt Site.initial before = some site →
      request.admit jwt site.clock = .ok visitor → request.route.isOpen = false →
        ∃ user, visitor = some user ∧ Entitled config jwt before site final user ∧
          (request.route.controller = .admin → user.role = .admin) := by
  rintro before request after site visitor rfl ran' admitted shut
  obtain ⟨user, token, rfl, shown, verified, staff⟩ := admit_user shut admitted
  obtain ⟨signed, issued, fresh⟩ := token_from honest ran' shown verified
  obtain ⟨earlier, entrance, between, issuer, split, ran'', rfl, answer⟩ :=
    issued_from ran' signed user issued
  have reached := surf_reached ran
  rw [surf_append, ran'] at ran
  have accounted := (token_account ran' issued).later (surf_later ran)
  exact ⟨user, rfl, ⟨⟨earlier, entrance, between, issuer, split, ran'', answer, fresh⟩,
    account_lasts reached accounted⟩, staff⟩

theorem requests_entitled_grant : ∃ site final,
    Entitled shop shopJwt counter site final staff ∧
      surf shop shopJwt Site.initial granting = some final := by
  obtain ⟨final, ran, _⟩ := granting_ends
  have played : (surf shop shopJwt Site.initial counter).map Site.clock = some 0 := by
    decide +kernel
  obtain ⟨site, ran', clock⟩ := Option.map_eq_some_iff.mp played
  obtain ⟨user, same, entitled, _⟩ := requests_entitled shop shopJwt granting granting_honest final
    ran counter counterGrant (advances 2 4) site (some staff) rfl ran'
      (clock ▸ by decide +kernel) rfl
  cases same
  exact ⟨site, final, entitled, ran⟩

/-! Where the time comes from. -/

theorem call_user {visitor : Option AuthUser} {route : Route} {call : Call} {user : AuthUser}
    (handled : route.call visitor = some call) (acts : call.user = some user) :
    visitor = some user ∧ route.isOpen = false ∧
      (call.staffOnly = true → route.controller = .admin) := by
  cases route with
  | register | client | login | pendingRequests =>
      cases handled
      cases acts
  | logout | me | listPlans | myRequests | balance | mySessions | devices | users
  | activeSessions | allPlans | listVouchers | auditLog => cases handled
  | createRequest | redeem | connect =>
      obtain ⟨known, rfl, rfl⟩ := Option.map_eq_some_iff.mp handled
      cases acts
      exact ⟨rfl, rfl, by simp [Call.staffOnly]⟩
  | _ =>
      obtain ⟨known, rfl, rfl⟩ := Option.map_eq_some_iff.mp handled
      cases acts
      exact ⟨rfl, rfl, fun _ => rfl⟩

/-- Every call acts for an account, and the staff's calls for an administrator. -/
def Staffed (world : World) : Prop :=
  ∀ (thread : Nat) (call : Call) (user : AuthUser), world.arrivals[thread]? = some call →
    call.user = some user → Accounted world user ∧ (call.staffOnly = true → user.role = .admin)

theorem staffed_started {pool after : ServerPool} {call : Call} (staffed : Staffed pool.state)
    (moved : step (server config) pool (.start call) = some after)
    (entitled : ∀ user, call.user = some user →
      Accounted pool.state user ∧ (call.staffOnly = true → user.role = .admin)) :
    Staffed after.state := by
  have later := step_later moved
  cases step_cases moved
  intro thread call' user called acts
  by_cases old : thread < pool.state.arrivals.length
  · have called' : (pool.state.arrivals ++ [call])[thread]? = some call' := called
    rw [List.getElem?_append_left old] at called'
    obtain ⟨accounted, staff⟩ := staffed thread call' user called' acts
    exact ⟨accounted.later later, staff⟩
  · obtain rfl : call' = call := by
      have called' : (pool.state.arrivals ++ [call])[thread]? = some call' := called
      rw [List.getElem?_append_right (Nat.not_lt.mp old), List.getElem?_singleton,
        Option.ite_none_right_eq_some, Option.some.injEq] at called'
      exact called'.2.symm
    obtain ⟨accounted, staff⟩ := entitled user acts
    exact ⟨accounted.later later, staff⟩

theorem surf_staffed {config : Config} {jwt : JwtService} {run : List SiteMove} {site : Site}
    (honest : unforged config jwt Site.initial run = true)
    (whole : surf config jwt Site.initial run = some site) : Staffed site.pool.state := by
  refine surf_induction (fun site => Staffed site.pool.state) run
    (by simp [Staffed, Site.initial, World.initial]) ?_ run [] site (by simp) whole
  rintro before move rest site after rfl ran played staffed
  cases played with
  | quiet | responded => exact staffed
  | called request visitor call pool admitted handled moved =>
      refine staffed_started staffed moved fun user acts => ?_
      obtain ⟨rfl, shut, staff⟩ := call_user handled acts
      obtain ⟨user', token, same, shown, verified, admin⟩ := admit_user shut admitted
      cases same
      obtain ⟨signed, issued, _⟩ := token_from honest ran shown verified
      exact ⟨token_account ran issued, fun only => admin (staff only)⟩
  | processed process pool moved =>
      refine staffed_started staffed moved fun user acts => ?_
      cases process <;> cases acts
  | moved _ own pool old moved =>
      have later := step_later moved
      have same : pool.state.arrivals = site.pool.state.arrivals := by
        have calls := step_calls (server config) site.pool pool own moved
        have none' : started [own] = [] := by
          cases own with
          | start call => exact absurd rfl (old call)
          | _ => rfl
        rw [none', List.append_nil] at calls
        exact calls
      intro thread call user called acts
      obtain ⟨accounted, staff⟩ := staffed thread call user (same ▸ called) acts
      exact ⟨accounted.later later, staff⟩

theorem voucher_maker {config : Config} {world : World} (legit : Legit config world)
    {commits id : Nat} (bound : commits ≤ world.db.log.length) {v : VoucherRow}
    (present : storeAfter world.db.log commits .vouchers id = some v) :
    ∃ (thread : Nat) (actor : AuthUser) (dto : GenerateVouchersDto) (attempts : Nat),
      world.arrivals[thread]? = some (.generate actor dto attempts) ∧ v.createdBy = actor.id := by
  let holds (v : VoucherRow) : Prop :=
    ∃ (thread : Nat) (actor : AuthUser) (dto : GenerateVouchersDto) (attempts : Nat),
      world.arrivals[thread]? = some (.generate actor dto attempts) ∧ v.createdBy = actor.id
  refine log_induction legit (fun commits => ∀ v : VoucherRow,
    storeAfter world.db.log commits .vouchers id = some v → holds v) (by simp [storeAfter]) ?_
    commits bound v present
  intro index thread acts call found called lawful next held v' left
  rw [next] at left
  refine replay_made _ .vouchers id holds (fun _ _ => True) ?_ acts ?_ held left
  · intro op now row _ made
    cases op <;> exact made
  intro entry member table key
  have listed := lawful_tables lawful entry member
  rw [table] at listed
  cases lawful with
  | nothing => cases member
  | redeem =>
      simp only [List.mem_cons, List.not_mem_nil, or_false] at member
      obtain rfl | rfl := member
      · cases key
        exact Or.inl ⟨_, _, rfl, trivial⟩
      · cases table
  | generate stored fresh =>
      obtain ⟨key', code, _, rfl⟩ := fresh entry member
      cases key
      exact Or.inr ⟨_, rfl, thread, _, _, _, called, rfl⟩
  | _ => simp [Call.tables] at listed

/-- What puts time on an account, and in whose name it was done. -/
inductive GivenBy (world : World) (actor : AuthUser) : Credit → Prop where
  | voucher {thread attempts id user : Nat} {dto : GenerateVouchersDto} {v : VoucherRow}
      (called : world.arrivals[thread]? = some (.generate actor dto attempts))
      (row : world.db.store .vouchers id = some v) (made : v.createdBy = actor.id)
      (redeemed : v.redeemedBy = some user) :
      GivenBy world actor ⟨user, v.durationMinutes * 60, .voucher id⟩
  | request {thread index id : Nat} {credit : Credit}
      (called : world.arrivals[thread]? = some (.decide actor id true))
      (approved : Approves world id thread index credit) : GivenBy world actor credit
  | grant {thread user : Nat} {dto : GrantTimeDto}
      (called : world.arrivals[thread]? = some (.grant actor user dto)) :
      GivenBy world actor ⟨user, dto.minutes * 60, .grant⟩

theorem credit_given {config : Config} {pool : ServerPool} (reached : Reached config pool)
    {credit : Credit} (given : credit ∈ credits pool.state.db.log) :
    ∃ (thread : Nat) (call : Call) (actor : AuthUser), pool.state.arrivals[thread]? = some call ∧
      call.user = some actor ∧ call.staffOnly = true ∧ GivenBy pool.state actor credit := by
  have legit := reached_legit reached
  obtain ⟨entry, listed, found⟩ := List.mem_filterMap.mp given
  obtain ⟨⟨thread, acts⟩, block, member⟩ := List.mem_flatMap.mp listed
  obtain ⟨index, at'⟩ := List.mem_iff_getElem?.mp block
  obtain ⟨call, called, lawful⟩ := block_lawful legit at'
  obtain ⟨user, dto, id, rfl, source⟩ | ⟨actor, id, rfl, source⟩ | ⟨actor, id, dto, rfl, source⟩ :=
    lawful_credit lawful entry member credit found
  · have on : credit ∈ creditsFor pool.state.db.log (.voucher id) := by
      simp [creditsFor, given, source]
    have state := voucher_state legit id (Nat.le_refl _)
    rw [List.take_length] at state
    generalize creditsFor pool.state.db.log (.voucher id) = list at on state
    cases state with
    | absent | «open» => cases on
    | spent v redeemer now account present redeemed by' =>
        obtain rfl := List.mem_singleton.mp on
        obtain ⟨maker, actor, dto', attempts, called', made⟩ :=
          voucher_maker legit (Nat.le_refl _) present
        rw [← (reached_ready reached).recorded] at present
        exact ⟨maker, _, actor, called', rfl, rfl, .voucher called' present made by'⟩
  · have on : credit ∈ creditsFor pool.state.db.log (.request id) := by
      simp [creditsFor, given, source]
    have state := request_state reached id (Nat.le_refl _)
    rw [List.take_length] at state
    generalize creditsFor pool.state.db.log (.request id) = list at on state
    cases state with
    | absent | unapproved => cases on
    | approved r approver index credit' present status past approval =>
        obtain rfl := List.mem_singleton.mp on
        obtain ⟨actor, called'⟩ : ∃ actor : AuthUser,
            pool.state.arrivals[approver]? = some (.decide actor id true) := by
          cases approval with
          | mk called' => exact ⟨_, called'⟩
        exact ⟨approver, _, actor, called', rfl, rfl, .request called' approval⟩
  · cases lawful with
    | nothing => cases member
    | grant =>
        obtain rfl := List.mem_singleton.mp member
        cases found
        exact ⟨thread, _, actor, called, rfl, rfl, .grant called⟩

/-- In any run without forged tokens, every second that was ever put on an account comes
from an administrator: from a voucher that the account made, a request that it approved or
a grant of its own. -/
theorem time_from_staff (config : Config) (jwt : JwtService) (run : List SiteMove)
    (honest : unforged config jwt Site.initial run = true) (final : Site)
    (ran : surf config jwt Site.initial run = some final) :
    ∀ credit ∈ credits final.pool.state.db.log, ∃ actor : AuthUser, ∃ account : UserRow,
      GivenBy final.pool.state actor credit ∧
      final.pool.state.db.store .users actor.id = some account ∧
      account.username = actor.username ∧ account.role = .admin := by
  intro credit given
  have reached := surf_reached ran
  obtain ⟨thread, call, actor, called, acts, staff, by'⟩ := credit_given reached given
  obtain ⟨accounted, admin⟩ := surf_staffed honest ran thread call actor called acts
  obtain ⟨account, present, name, lasts⟩ := account_lasts reached accounted
  exact ⟨actor, account, by', present, name, lasts (admin staff)⟩

theorem time_from_staff_grant : ∃ final, ∃ actor : AuthUser, ∃ account : UserRow,
    surf shop shopJwt Site.initial granting = some final ∧
    GivenBy final.pool.state actor ⟨2, 3600, .grant⟩ ∧
    final.pool.state.db.store .users actor.id = some account ∧ account.role = .admin := by
  obtain ⟨final, ran, given⟩ := granting_ends
  obtain ⟨actor, account, by', present, _, admin⟩ := time_from_staff shop shopJwt granting
    granting_honest final ran ⟨2, 3600, .grant⟩ (by simp [given])
  exact ⟨final, actor, account, ran, by', present, admin⟩

end Cybera
