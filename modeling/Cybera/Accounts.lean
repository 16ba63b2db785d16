import Cybera.Statements

/-!
Accounts, grants and plans: what registering, entering, seeding, granting and
editing plans commit, and where an issued token comes from.
-/

namespace Cybera

open Interleaving

def RegisterOutcome (config : Config) (dto : RegisterDto) (thread : Nat) :
    Except Failure Reply → World → Prop
  | .ok reply, world => ∃ id salt, reply = .user ⟨id, dto.username, .customer⟩ ∧
      world.own thread = [[create .users id
        (newUser dto.username (config.argon2Hash salt dto.password) .customer)]]
  | .error _, _ => True

def ClientLoginOutcome (dto : ClientLoginDto) (thread : Nat) :
    Except Failure Reply → World → Prop
  | .ok reply, world => ∃ id, ∃ row : UserRow, ∃ time read view,
      ⟨thread, .query (.customerByName (numberName dto.number)), .ok (some (id, row)), time, read,
        [], view⟩ ∈ world.hist ∧ reply = .user ⟨id, row.username, row.role⟩
  | .error _, _ => True

def LoginOutcome (config : Config) (dto : LoginDto) (thread : Nat) :
    Except Failure Reply → World → Prop
  | .ok reply, world => ∃ id, ∃ row : UserRow, ∃ time read view,
      ⟨thread, .query (.userByName dto.username), .ok (some (id, row)), time, read, [], view⟩ ∈
          world.hist ∧
        config.argon2Verify row.passwordHash dto.password = true ∧
        reply = .user ⟨id, row.username, row.role⟩
  | .error _, _ => True

section Entrances
variable {config : Config} {thread : Nat} {first world : World} {began : Time}
  {blocks : List (List Entry)} {β : Type} {post : Except Failure β → World → Prop}

theorem free_argon2Hash {rest : Text → Program β} (password : Text)
    (free : Free thread world blocks) (anyway : ∀ error after, post (.error error) after)
    (found : ∀ after salt, Free thread after blocks → Later world after →
      Secure config thread post (rest (config.argon2Hash salt password)) after) :
    Secure config thread post ((argon2HashOf config password).bind rest) world := by
  simp only [argon2HashOf, Prog.bind_eq, Prog.bind_assoc, Prog.pure_eq, Prog.done_bind]
  have apart : (Cmd.randomBytes 16).Apart := trivial
  refine free_perform apart free (fun after error _ _ _ => anyway error after) ?_
  intro after salt _ _ free' later _ _
  exact found after salt free' later

def RegisterNote (config : Config) (dto : RegisterDto) (user : Nat × UserRow) (acts : List Entry)
    (_ : Basis) : Prop :=
  user.2.username = dto.username ∧ user.2.role = .customer ∧ ∃ salt, acts = [create .users user.1
    (newUser dto.username (config.argon2Hash salt dto.password) .customer)]

theorem register_safe (dto : RegisterDto) (free : Free thread world [])
    (called : world.arrivals[thread]? = some (.register dto)) :
    Secure config thread (RegisterOutcome config dto thread) (AuthService.register config dto)
      world := by
  unfold AuthService.register
  have anyway : ∀ error after, RegisterOutcome config dto thread (.error error) after :=
    fun _ _ => trivial
  have apart : (Cmd.query (.userByName dto.username)).Apart := trivial
  refine free_perform apart free (fun after error _ _ _ => anyway error after) ?_
  intro w1 existing _ _ free1 later1 _ _
  refine safe_throwIf _ _ _ _ (fun _ => trivial) fun _ => ?_
  refine free_argon2Hash dto.password free1 anyway ?_
  intro w2 salt free2 later2
  have mono : Monotone (RegisterNote config dto) := fun _ _ _ _ _ note => note
  refine free_tx mono free2 (prefix_getElem? (later_trans later1 later2).arrivals called) ?_
    (fun after error _ _ _ => anyway error after) ?_
    (fun after error _ _ _ _ _ _ => anyway error after)
  · intro start began here _ _
    rw [← Prog.bind_done (insertRow .users _)]
    refine body_insert here ?_
    intro after id here' _ _ holds _
    exact ⟨_, here', .register holds, rfl, rfl, salt, rfl⟩
  rintro after user acts free' _ _ ⟨index, _, _, name, role, salt, rfl⟩
  refine free_audit free' ?_
  intro last _ _ _ free'' _ _ _
  exact ⟨user.1, salt, by simp [authUser, name, role], free''.own⟩

theorem clientLogin_safe (dto : ClientLoginDto) (free : Free thread world []) :
    Secure config thread (ClientLoginOutcome dto thread) (AuthService.clientLogin dto) world := by
  unfold AuthService.clientLogin
  have apart : (Cmd.query (.customerByName (numberName dto.number))).Apart := trivial
  refine free_perform apart free (fun _ _ _ _ _ => trivial) ?_
  intro w1 found time view free1 _ _ logged
  refine safe_orThrow _ _ _ _ (fun _ => trivial) ?_
  rintro user rfl
  refine free_audit free1 ?_
  intro last _ _ _ _ later _ _
  exact ⟨user.1, user.2, time, _, view, later.hist.subset logged.mem, rfl⟩

theorem login_safe (dto : LoginDto) (free : Free thread world []) :
    Secure config thread (LoginOutcome config dto thread) (AuthService.login config dto) world := by
  unfold AuthService.login
  have apart : (Cmd.query (.userByName dto.username)).Apart := trivial
  refine free_perform apart free (fun _ _ _ _ _ => trivial) ?_
  intro w1 found time view free1 _ _ logged
  refine safe_orThrow _ _ _ _ (fun _ => trivial) ?_
  rintro user rfl
  refine safe_throwIf _ _ _ _ (fun _ => trivial) ?_
  intro verified
  refine free_audit free1 ?_
  intro last _ _ _ _ later _ _
  exact ⟨user.1, user.2, time, _, view, later.hist.subset logged.mem, by simpa using verified, rfl⟩

theorem upsertAdmin_body (adminUser adminPass : Text) (clientCount : Nat) (salt : List Nat)
    (here : Here thread first first began []) :
    Body config thread first (Seals config thread first began
        (.seedAdmin adminUser adminPass clientCount) fun _ _ _ => True)
      (upsertAdmin adminUser (config.argon2Hash salt adminPass)) first := by
  unfold upsertAdmin
  refine body_insertOrSkip here ?_ ?_ true
  · intro w1 here1 _ _
    refine body_query here1 ?_
    intro w2 time view here2 _ _ logged _ _
    cases answer : Query.eval view (.userByName adminUser) with
    | none => exact here2.since
    | some user =>
        rw [answer] at logged
        refine body_update here2 ?_ ?_
        · intro w3 here3 _ _ _
          exact ⟨_, here3, .nothing _, trivial⟩
        · intro w3 row here3 carries3 _ _ _ _
          exact ⟨_, here3, .syncAdmin (carries3.hist.subset logged.mem)
            carries3.db.log.length_le, trivial⟩
  · intro w1 id here1 _ _ holds _
    exact ⟨_, here1, .seedAdmin holds, trivial⟩

theorem seedClients_body (adminUser adminPass hash : Text) (clientCount : Nat)
    (here : Here thread first first began []) :
    Body config thread first (Seals config thread first began
        (.seedAdmin adminUser adminPass clientCount) fun _ _ _ => True)
      (Prog.each (List.range' 1 clientCount) (insertClient hash)) first := by
  let fresh (basis : Basis) (acts : List Entry) : Prop := ∀ entry ∈ acts, ∃ id number,
    basis.row .users id none ∧ 1 ≤ number ∧ number ≤ clientCount ∧
      entry = create .users id (newUser (numberName number) hash .customer)
  have carried : ∀ {w w' : World} {acts}, Carries thread w w' → fresh (w.basis thread) acts →
      fresh (w'.basis thread) acts := by
    intro w w' acts carries known entry member
    obtain ⟨id, number, free, rest⟩ := known entry member
    exact ⟨id, number, carries.db.holds free, rest⟩
  let loop (numbers : List Nat) (w : World) : Prop :=
    (∀ number ∈ numbers, 1 ≤ number ∧ number ≤ clientCount) ∧
      ∃ acts, Here thread first w began acts ∧ fresh (w.basis thread) acts
  have entry : loop (List.range' 1 clientCount) first := by
    refine ⟨?_, [], here, by simp [fresh]⟩
    intro number member
    rw [List.mem_range'_1] at member
    omega
  refine body_each entry ?_ ?_
  · rintro number rest state ⟨numbers, acts, here', known⟩
    refine body_insertOrSkip here' ?_ ?_ true
    · intro after here'' carries _
      exact ⟨fun other member => numbers other (List.mem_cons_of_mem number member),
        acts, here'', carried carries known⟩
    · intro after id here'' carries _ holds _
      refine ⟨fun other member => numbers other (List.mem_cons_of_mem number member), _, here'', ?_⟩
      intro entry member
      rcases List.mem_append.mp member with earlier | latest
      · exact carried carries known entry earlier
      · rw [List.mem_singleton] at latest
        obtain ⟨low, high⟩ := numbers number (by simp)
        exact ⟨id, number, holds, low, high, latest⟩
  · rintro state ⟨_, acts, here', known⟩
    exact ⟨acts, here', .seedClients known, trivial⟩

theorem seedAdmin_safe (adminUser adminPass : Text) (clientCount : Nat)
    (free : Free thread world [])
    (called : world.arrivals[thread]? = some (.seedAdmin adminUser adminPass clientCount)) :
    Secure config thread (fun _ _ => True) (SeedAdmin.run config adminUser adminPass clientCount)
      world := by
  unfold SeedAdmin.run
  have mono : Monotone fun (_ : Unit) (_ : List Entry) (_ : Basis) => True :=
    fun _ _ _ _ _ _ => trivial
  refine free_argon2Hash adminPass free (fun _ _ => trivial) ?_
  intro w1 salt free1 later1
  have called1 := prefix_getElem? later1.arrivals called
  refine free_tx mono free1 called1 ?_ (fun _ _ _ _ _ => trivial) ?_
        fun _ _ _ _ _ _ _ _ => trivial
  · intro start began here _ _
    exact upsertAdmin_body adminUser adminPass clientCount salt here
  intro w2 _ acts free2 later2 _ _
  have apart : (Cmd.randomBytes 32).Apart := trivial
  refine free_perform apart free2 (fun _ _ _ _ _ => trivial) ?_
  intro w3 secret _ _ free3 later3 _ _
  refine free_argon2Hash _ free3 (fun _ _ => trivial) ?_
  intro w4 salt' free4 later4
  have called4 := prefix_getElem? (later_trans later2 (later_trans later3 later4)).arrivals called1
  refine free_tx mono free4 called4 ?_ (fun _ _ _ _ _ => trivial) ?_
    fun _ _ _ _ _ _ _ _ => trivial
  · intro start began here _ _
    exact seedClients_body adminUser adminPass _ clientCount here
  · intro _ _ _ _ _ _ _
    trivial

end Entrances

section Grants
variable {config : Config} {thread : Nat} {world : World}

theorem updateTx_safe {table : TableName} {id : Nat} {op : Op table} {call : Call}
    {rest : Option (Row table) → Program Reply}
    (lawful : ∀ (basis : Basis) (row : Row table) (now : Time), basis.row table id (some row) →
      Lawful config basis thread call [alter table id op now])
    (free : Free thread world []) (called : world.arrivals[thread]? = some call)
    (ends : ∀ after blocks found, Free thread after blocks →
      Secure config thread (fun _ _ => True) (rest found) after) :
    Secure config thread (fun _ _ => True) ((DbService.tx (updateRow table id op)).bind rest)
      world := by
  have mono : Monotone fun (_ : Option (Row table)) (_ : List Entry) (_ : Basis) => True :=
    fun _ _ _ _ _ _ => trivial
  refine free_tx mono free called ?_ (fun _ _ _ _ _ => trivial) ?_
    fun _ _ _ _ _ _ _ _ => trivial
  · intro start began here _ _
    rw [← Prog.bind_done (updateRow table id op)]
    refine body_update here ?_ ?_
    · intro after here' _ _ _
      exact ⟨_, here', .nothing _, trivial⟩
    · intro after row here' _ _ locked present _
      exact ⟨_, here', lawful _ row began ⟨locked, present⟩, trivial⟩
  · intro after found acts free' _ _ _
    exact ends after _ found free'

theorem audited_safe {blocks : List (List Entry)} {actor : Option Nat} {action : String}
    {reply : Reply} (free : Free thread world blocks) :
    Secure config thread (fun _ _ => True) (do
      AuditService.log actor action
      pure reply) world :=
  free_audit free fun _ _ _ _ _ _ _ _ => trivial

theorem grant_safe (actor : AuthUser) (id : Nat) (dto : GrantTimeDto) (free : Free thread world [])
    (called : world.arrivals[thread]? = some (.grant actor id dto)) :
    Secure config thread (fun _ _ => True) (AdminController.grant actor id dto) world := by
  unfold AdminController.grant
  refine updateTx_safe (fun basis account now owner => .grant owner) free called ?_
  intro after blocks found free'
  exact safe_orThrow _ _ _ _ (fun _ => trivial) fun user _ => audited_safe free'

theorem createPlan_safe (actor : AuthUser) (dto : CreatePlanDto) (free : Free thread world [])
    (called : world.arrivals[thread]? = some (.createPlan actor dto)) :
    Secure config thread (fun _ _ => True) (PlansService.create actor dto) world := by
  unfold PlansService.create
  have mono : Monotone fun (_ : Nat × PlanRow) (_ : List Entry) (_ : Basis) => True :=
    fun _ _ _ _ _ _ => trivial
  refine free_tx mono free called ?_ (fun _ _ _ _ _ => trivial) ?_
    fun _ _ _ _ _ _ _ _ => trivial
  · intro start began here _ _
    rw [← Prog.bind_done (insertRow .plans _)]
    refine body_insert here ?_
    intro after id here' _ _ holds _
    exact ⟨_, here', .createPlan holds, trivial⟩
  · intro after plan acts free' _ _ _
    exact audited_safe free'

theorem updatePlan_safe (actor : AuthUser) (id : Nat) (dto : PlanEdit) (free : Free thread world [])
    (called : world.arrivals[thread]? = some (.updatePlan actor id dto)) :
    Secure config thread (fun _ _ => True) (PlansService.update actor id dto) world := by
  unfold PlansService.update
  refine updateTx_safe (fun basis row now _ => .updatePlan) free called ?_
  intro after blocks found free'
  exact safe_orThrow _ _ _ _ (fun _ => trivial) fun plan _ => audited_safe free'

theorem removePlan_safe (actor : AuthUser) (id : Nat) (free : Free thread world [])
    (called : world.arrivals[thread]? = some (.removePlan actor id)) :
    Secure config thread (fun _ _ => True) (PlansService.remove actor id) world := by
  unfold PlansService.remove
  have apart : (Cmd.query (.planReferenced id)).Apart := trivial
  refine free_perform apart free (fun _ _ _ _ _ => trivial) ?_
  intro w1 referenced _ _ free1 later1 _ _
  have called1 := prefix_getElem? later1.arrivals called
  cases referenced with
  | true =>
      refine updateTx_safe (fun basis row now _ => .deactivatePlan) free1 called1 ?_
      intro after blocks found free'
      exact audited_safe free'
  | false =>
      have mono : Monotone fun (_ : Unit) (_ : List Entry) (_ : Basis) => True :=
        fun _ _ _ _ _ _ => trivial
      refine free_tx mono free1 called1 ?_ (fun _ _ _ _ _ => trivial) ?_
        fun _ _ _ _ _ _ _ _ => trivial
      · intro start began here _ _
        rw [← Prog.bind_done (perform (.deletePlan id))]
        refine body_delete here ?_ ?_
        · intro after here' _ _
          exact ⟨_, here', .nothing _, trivial⟩
        · intro after here' _ _
          exact ⟨_, here', .deletePlan, trivial⟩
      · intro after _ acts free' _ _ _
        exact audited_safe free'

end Grants
end Cybera
