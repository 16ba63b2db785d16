import Cybera.History

/-!
Where tokens come from. Registration, seeding and the number entry share one
column of names; as long as nobody registers the name of a client number, a
registered account is entered with its password only.
-/

namespace Cybera

open Interleaving

/-- The calls whose answer AuthController signs. -/
def Call.signsIn : Call → Bool
  | .register .. => true
  | .clientLogin .. => true
  | .login .. => true
  | _ => false

/-- The register call of `thread` made the account. -/
def Registered (world : World) (thread id : Nat) (dto : RegisterDto) : Prop :=
  world.arrivals[thread]? = some (.register dto) ∧
    ∃ (index : Nat) (account : UserRow),
      world.db.log[index]? = some (thread, [create .users id account])

/-- A seeding made the account. -/
def Seeded (world : World) (id : Nat) : Prop :=
  ∃ (seeder : Nat) (adminUser adminPass : Text) (clientCount index : Nat) (acts : List Entry)
    (account : UserRow),
    world.arrivals[seeder]? = some (.seedAdmin adminUser adminPass clientCount) ∧
      world.db.log[index]? = some (seeder, acts) ∧ create .users id account ∈ acts

/-- No account is registered under the name of a client number. -/
def NoNumberRegistered (world : World) : Prop :=
  ∀ thread id dto, Registered world thread id dto → ∀ number, 1 ≤ number → number ≤ 999 →
    dto.username ≠ numberName number

structure Guarded (pool : ServerPool) : Prop where
  /-- a token for a registered account comes from its registration or from a
  login with its password, unless a seeding takes the name for the administrator -/
  registered : ∀ registrar id dto, Registered pool.state registrar id dto →
    (∀ adminUser adminPass clientCount,
      Call.seedAdmin adminUser adminPass clientCount ∈ pool.state.arrivals →
        adminUser ≠ dto.username) →
    ∀ (thread : Nat) (call : Call) (user : AuthUser),
      pool.state.arrivals[thread]? = some call → call.signsIn = true →
      pool.threads[thread]? = some (some (.done (.user user))) → user.id = id →
        thread = registrar ∨ ∃ attempt, call = .login attempt ∧ attempt.password = dto.password
  /-- the number entry enters seeded accounts only -/
  numbered : ∀ (thread : Nat) (dto : ClientLoginDto) (user : AuthUser),
    pool.state.arrivals[thread]? = some (.clientLogin dto) →
    pool.threads[thread]? = some (some (.done (.user user))) → Seeded pool.state user.id

section Blocks
variable {config : Config} {world : World} {index thread id : Nat} {call : Call}
  {acts : List Entry}

theorem sync_block {hash : Text} {now : Time}
    (lawful : Lawful config (world.basisAt index) thread call acts)
    (member : alter .users id (.syncAdmin hash) now ∈ acts) :
    ∃ adminUser adminPass clientCount time read known view,
      call = .seedAdmin adminUser adminPass clientCount ∧
        ⟨thread, .query (.userByName adminUser), .ok (some (id, known)), time, read, [], view⟩ ∈
          world.hist ∧ read ≤ index := by
  have listed := lawful_tables lawful _ member
  cases lawful with
  | nothing => simp at member
  | redeem | approve | reject | grant => simp [alter] at member
  | register | seedAdmin => simp [alter, create] at member
  | tick ordered pass =>
      obtain device | ⟨key, elapsed, same⟩ | ⟨key, same⟩ | ⟨user, elapsed, key, same⟩ :=
        settled_entries pass _ member
      · simp [alter] at device
      · simp [alter] at same
      · simp [alter] at same
      · simp [alter] at same
  | @syncAdmin adminUser adminPass clientCount key read salt known now' time view asked earlier =>
      have same := List.mem_singleton.mp member
      simp only [alter, RowLock.Entry.mk.injEq, true_and] at same
      obtain ⟨rfl, _⟩ := same
      have short : read ≤ (world.db.log.take index).length := earlier
      rw [List.length_take] at short
      exact ⟨adminUser, adminPass, clientCount, time, read, known, view, rfl, asked,
        Nat.le_trans short (Nat.min_le_left _ _)⟩
  | seedClients seeded =>
      obtain ⟨key, number, _, _, _, same⟩ := seeded _ member
      simp [alter, create] at same
  | _ => simp [Call.tables, alter] at listed

theorem account_made {account : UserRow}
    (lawful : Lawful config (world.basisAt index) thread call acts)
    (absent : storeAfter world.db.log index .users id = none)
    (made : replay acts (storeAfter world.db.log index) .users id = some account) :
    (∃ dto salt, call = .register dto ∧
        account = newUser dto.username (config.argon2Hash salt dto.password) .customer ∧
        acts = [create .users id account]) ∨
      ∃ adminUser adminPass clientCount row,
        call = .seedAdmin adminUser adminPass clientCount ∧ create .users id row ∈ acts := by
  have altered : ¬ AltersAt .users id acts := by
    intro alters
    rw [replay_absent _ .users id acts alters absent] at made
    cases made
  by_cases users : TableName.users ∈ call.tables
  · have created : ∀ {key : Nat} {row : UserRow}, acts = [create .users key row] → id = key ∧
        account = row := by
      rintro key row rfl
      by_cases same : id = key
      · subst same
        simp only [replay_cons, replay_nil, create_same, Option.some.injEq] at made
        exact ⟨rfl, made.symm⟩
      · simp only [replay_cons, replay_nil, create_key _ _ _ _ _ same, absent] at made
        cases made
    cases lawful with
    | nothing => exact absurd (by simp [AltersAt]) altered
    | redeem | approve =>
        refine absurd (alters_all _ _ ?_) altered
        simp only [List.mem_cons, List.not_mem_nil, or_false, forall_eq_or_imp, forall_eq]
        exact ⟨⟨_, _, _, _, rfl⟩, _, _, _, _, rfl⟩
    | reject | grant | syncAdmin =>
        refine absurd (alters_all _ _ ?_) altered
        simp only [List.mem_singleton, forall_eq]
        exact ⟨_, _, _, _, rfl⟩
    | tick ordered pass => exact absurd (settled_alters pass .users id (by simp)) altered
    | @register dto key salt fresh =>
        obtain ⟨rfl, rfl⟩ := created rfl
        exact Or.inl ⟨dto, salt, rfl, rfl, rfl⟩
    | @seedAdmin adminUser adminPass clientCount key salt fresh =>
        obtain ⟨rfl, rfl⟩ := created rfl
        exact Or.inr ⟨adminUser, adminPass, clientCount, _, rfl, List.mem_singleton_self _⟩
    | @seedClients adminUser adminPass hash clientCount _ seeded =>
        by_cases listed : ∃ row, create .users id row ∈ acts
        · obtain ⟨row, member⟩ := listed
          exact Or.inr ⟨adminUser, adminPass, clientCount, row, rfl, member⟩
        · refine absurd ?_ altered
          intro entry member _ key
          obtain ⟨key', number, _, _, _, rfl⟩ := seeded entry member
          cases key
          exact absurd ⟨_, member⟩ listed
    | _ => simp [Call.tables] at users
  · rw [untouched_table lawful users, absent] at made
    cases made

theorem hash_kept {rows : Store} {account : UserRow} (alters : AltersAt .users id acts)
    (unsynced : ∀ hash now, alter .users id (.syncAdmin hash) now ∉ acts)
    (present : rows .users id = some account) :
    ∃ after : UserRow, replay acts rows .users id = some after ∧
      after.username = account.username ∧ after.passwordHash = account.passwordHash := by
  induction acts generalizing rows account with
  | nil => exact ⟨account, present, rfl, rfl⟩
  | cons entry rest ih =>
      have alters' : AltersAt .users id rest :=
        fun other member => alters other (List.mem_cons_of_mem entry member)
      have unsynced' : ∀ hash now, alter .users id (.syncAdmin hash) now ∉ rest :=
        fun hash now member => unsynced hash now (List.mem_cons_of_mem entry member)
      rw [replay_cons]
      by_cases hit : TableName.users = entry.table ∧ id = entry.id
      · obtain ⟨op, now, rfl⟩ := alters entry (by simp) hit.1.symm hit.2.symm
        have run : RowLock.runEntry Act.run rows (alter .users id op now) .users id =
            some (Op.run .users op now account) := by
          rw [alter_same, present]
          rfl
        obtain ⟨after, left, name, hash⟩ := ih alters' unsynced' run
        refine ⟨after, left, ?_, ?_⟩
        · rw [name]
          cases op <;> rfl
        · rw [hash]
          cases op with
          | credit seconds limit source => rfl
          | charge elapsed session => rfl
          | syncAdmin hash' => exact absurd (by simp) (unsynced hash' now)
      · exact ih alters' unsynced' (by rwa [RowLock.runEntry_other _ _ _ _ _ hit])

end Blocks

section Answers
variable {world : World} {thread id read : Nat} {name : Text} {row : UserRow} {time : Time}
  {view : View}

theorem userByName_answer (ready : Ready world)
    (asked : ⟨thread, .query (.userByName name), .ok (some (id, row)), time, read, [], view⟩ ∈
      world.hist) :
    storeAfter world.db.log read .users id = some row ∧ row.username = name ∧
      read ≤ world.db.log.length := by
  obtain ⟨answered, bound, rows⟩ := ready.truthful _ asked
  replace rows : view.rows = storeAfter world.db.log read := rows
  replace answered : some (id, row) = Query.eval view (.userByName name) := answered
  obtain ⟨_, present, matching⟩ := mem_scan.mp (List.mem_of_mem_head? answered.symm)
  exact ⟨rows ▸ present, by simpa using matching, bound⟩

theorem customerByName_answer (ready : Ready world)
    (asked : ⟨thread, .query (.customerByName name), .ok (some (id, row)), time, read, [], view⟩ ∈
      world.hist) :
    storeAfter world.db.log read .users id = some row ∧ row.username = name ∧
      read ≤ world.db.log.length := by
  obtain ⟨answered, bound, rows⟩ := ready.truthful _ asked
  replace rows : view.rows = storeAfter world.db.log read := rows
  replace answered : some (id, row) = Query.eval view (.customerByName name) := answered
  obtain ⟨_, present, matching⟩ := mem_scan.mp (List.mem_of_mem_head? answered.symm)
  have both : row.username = name ∧ row.role = .customer := by simpa using matching
  exact ⟨rows ▸ present, both.1, bound⟩

end Answers

section Runs
variable {config : Config} {pool : ServerPool}

theorem account_origin (reached : Reached config pool) {commits id : Nat} {row : UserRow}
    (bound : commits ≤ pool.state.db.log.length)
    (present : storeAfter pool.state.db.log commits .users id = some row) :
    (∃ thread dto, Registered pool.state thread id dto ∧ dto.username = row.username) ∨
      Seeded pool.state id := by
  have legit := reached_legit reached
  refine log_induction legit (fun commits => ∀ row : UserRow,
    storeAfter pool.state.db.log commits .users id = some row →
      (∃ thread dto, Registered pool.state thread id dto ∧ dto.username = row.username) ∨
        Seeded pool.state id) ?_ ?_ commits bound row present
  · intro row present
    cases present
  intro index thread acts call found called lawful next ih row present
  rw [next] at present
  cases before : storeAfter pool.state.db.log index .users id with
  | some account =>
      obtain ⟨after, left, same⟩ := replay_same _ .users id acts
        (lawful_alters lawful (by simp) (by simp) (by simp [before])) before
      rw [present, Option.some.injEq] at left
      subst left
      have name : row.username = account.username := same
      rw [name]
      exact ih account before
  | none =>
      obtain ⟨dto, salt, rfl, rfl, rfl⟩ | ⟨adminUser, adminPass, clientCount, row', rfl, member⟩ :=
        account_made lawful before present
      · exact Or.inl ⟨thread, dto, ⟨called, index, _, found⟩, rfl⟩
      · exact Or.inr ⟨thread, adminUser, adminPass, clientCount, index, acts, row', called, found,
          member⟩

theorem registered_made {world : World} (legit : Legit config world) {thread id index : Nat}
    {dto : RegisterDto} {account : UserRow}
    (called : world.arrivals[thread]? = some (.register dto))
    (found : world.db.log[index]? = some (thread, [create .users id account])) :
    storeAfter world.db.log index .users id = none ∧ ∃ salt,
      storeAfter world.db.log (index + 1) .users id =
        some (newUser dto.username (config.argon2Hash salt dto.password) .customer) := by
  obtain ⟨call, called', lawful⟩ := block_lawful legit found
  rw [called, Option.some.injEq] at called'
  subst called'
  rw [storeAfter_succ _ _ _ found]
  generalize made : [create .users id account] = acts at lawful
  cases lawful with
  | nothing => simp at made
  | @register _ key salt fresh =>
      simp only [create, List.cons.injEq, RowLock.Entry.mk.injEq, heq_eq_eq, true_and,
        and_true, Act.insert.injEq] at made
      obtain ⟨rfl, _⟩ := made
      exact ⟨fresh, salt, by simp⟩

theorem registered_since {world : World} (legit : Legit config world)
    {thread id index commits : Nat} {dto : RegisterDto} {account row : UserRow}
    (called : world.arrivals[thread]? = some (.register dto))
    (found : world.db.log[index]? = some (thread, [create .users id account]))
    (present : storeAfter world.db.log commits .users id = some row) : index < commits := by
  by_contra before
  obtain ⟨absent, _⟩ := registered_made legit called found
  obtain ⟨after, left, _⟩ := row_same legit (by simp) (by simp) (Nat.not_lt.mp before)
    (Nat.le_of_lt (List.getElem?_eq_some_iff.mp found).1) present
  rw [absent] at left
  cases left

theorem registered_once {world : World} (legit : Legit config world)
    {thread thread' id index index' : Nat} {dto dto' : RegisterDto} {account account' : UserRow}
    (called : world.arrivals[thread]? = some (.register dto))
    (found : world.db.log[index]? = some (thread, [create .users id account]))
    (called' : world.arrivals[thread']? = some (.register dto'))
    (found' : world.db.log[index']? = some (thread', [create .users id account'])) :
    thread = thread' := by
  obtain ⟨_, _, made⟩ := registered_made legit called found
  obtain ⟨_, _, made'⟩ := registered_made legit called' found'
  have first := registered_since legit called found made'
  have second := registered_since legit called' found' made
  obtain rfl : index = index' := by omega
  rw [found, Option.some.injEq, Prod.mk.injEq] at found'
  exact found'.1

/-- The name and, as long as no seeding takes the name, the password of a
registered account are those of its registration. -/
theorem registered_row (reached : Reached config pool) {thread id commits index : Nat}
    {dto : RegisterDto} {account row : UserRow}
    (called : pool.state.arrivals[thread]? = some (.register dto))
    (found : pool.state.db.log[index]? = some (thread, [create .users id account]))
    (past : index < commits) (bound : commits ≤ pool.state.db.log.length)
    (present : storeAfter pool.state.db.log commits .users id = some row) :
    row.username = dto.username ∧
      ((∀ adminUser adminPass clientCount,
        Call.seedAdmin adminUser adminPass clientCount ∈ pool.state.arrivals →
          adminUser ≠ dto.username) →
        ∃ salt, row.passwordHash = config.argon2Hash salt dto.password) := by
  have legit := reached_legit reached
  have ready := reached_ready reached
  obtain ⟨_, salt, first⟩ := registered_made legit called found
  obtain ⟨after, left, same⟩ := row_same legit (by simp) (by simp) past bound first
  rw [present, Option.some.injEq] at left
  subst left
  refine ⟨same, fun unclaimed => ⟨salt, ?_⟩⟩
  suffices kept : ∃ after : UserRow, storeAfter pool.state.db.log commits .users id = some after ∧
      after.username = dto.username ∧
      after.passwordHash = config.argon2Hash salt dto.password by
    obtain ⟨after, left, _, hash⟩ := kept
    rw [present, Option.some.injEq] at left
    exact left ▸ hash
  refine log_stretch legit (fun commits => ∃ after : UserRow,
    storeAfter pool.state.db.log commits .users id = some after ∧
      after.username = dto.username ∧
      after.passwordHash = config.argon2Hash salt dto.password) past bound ⟨_, first, rfl, rfl⟩ ?_
  rintro at' thread' acts' call' _ high found' called' lawful' next ⟨before, row', name, hash⟩
  have unsynced : ∀ hash now, alter .users id (.syncAdmin hash) now ∉ acts' := by
    intro hash' now member
    obtain ⟨adminUser, adminPass, clientCount, time, read, known, view, rfl, asked, earlier⟩ :=
      sync_block lawful' member
    obtain ⟨known', named, _⟩ := userByName_answer ready asked
    obtain ⟨after, left, same'⟩ := row_same legit (by simp) (by simp) earlier (by omega) known'
    rw [row', Option.some.injEq] at left
    subst left
    exact unclaimed adminUser adminPass clientCount (List.mem_of_getElem? called')
      (named.symm.trans (Eq.trans (Eq.symm same') name))
  obtain ⟨after, left, name', hash'⟩ := hash_kept
    (lawful_alters lawful' (by simp) (by simp) (by simp [row'])) unsynced row'
  exact ⟨after, by rw [next, left], name'.trans name, hash'.trans hash⟩

/-- If no account is registered under the name of a client number, registered
accounts are entered by their registration or with their password only, and the
number entry enters seeded accounts only. -/
theorem passwords_guarded (config : Config)
    (verifies : ∀ salt password attempt,
      config.argon2Verify (config.argon2Hash salt password) attempt = true → attempt = password)
    (pool : ServerPool) (reached : Reached config pool)
    (unnumbered : NoNumberRegistered pool.state) : Guarded pool := by
  have legit := reached_legit reached
  have ready := reached_ready reached
  refine ⟨?_, ?_⟩
  · rintro registrar id dto ⟨called, index, account, found⟩ unclaimed thread call user called'
      signs answered rfl
    cases call with
    | register dto' =>
        obtain ⟨id, salt, same, own⟩ : RegisterOutcome config dto' thread (.ok (.user user))
          pool.state := answered_outcome reached called' answered
        cases same
        obtain ⟨index', found'⟩ := own_block (own ▸ List.mem_singleton_self _)
        exact Or.inl (registered_once legit called' found' called found)
    | clientLogin number =>
        obtain ⟨id, row, time, read, view, asked, same⟩ :
          ClientLoginOutcome number thread (.ok (.user user)) pool.state :=
            answered_outcome reached called' answered
        cases same
        obtain ⟨present, name, bound⟩ := customerByName_answer ready asked
        have past := registered_since legit called found present
        have same := (registered_row reached called found past bound present).1
        exact absurd (same.symm.trans name)
          (unnumbered registrar id dto ⟨called, index, account, found⟩ number.number
            number.numberRange.1 number.numberRange.2)
    | login attempt =>
        obtain ⟨id, row, time, read, view, asked, verified, same⟩ :
          LoginOutcome config attempt thread (.ok (.user user)) pool.state :=
            answered_outcome reached called' answered
        cases same
        obtain ⟨present, _, bound⟩ := userByName_answer ready asked
        have past := registered_since legit called found present
        obtain ⟨salt, hash⟩ := (registered_row reached called found past bound present).2 unclaimed
        rw [hash] at verified
        exact Or.inr ⟨attempt, rfl, verifies salt dto.password attempt.password verified⟩
    | _ => cases signs
  · intro thread dto user called answered
    obtain ⟨id, row, time, read, view, asked, same⟩ :
      ClientLoginOutcome dto thread (.ok (.user user)) pool.state :=
        answered_outcome reached called answered
    cases same
    obtain ⟨present, name, bound⟩ := customerByName_answer ready asked
    obtain ⟨registrar, dto', registered, same⟩ | seeded := account_origin reached bound present
    · exact absurd (same.trans name) (unnumbered registrar id dto' registered dto.number
        dto.numberRange.1 dto.numberRange.2)
    · exact seeded

end Runs

def newcomer : RegisterDto where
  username := ['a', 'n', 'n', 'a']
  password := ['s', 'e', 'c', 'r', 'e', 't']
  usernameLength := by decide
  usernamePattern := by decide
  passwordLength := by decide

def newcomerLogin : LoginDto where
  username := newcomer.username
  password := newcomer.password
  usernameLength := by decide
  passwordLength := by decide

/-- Seat 1 is seeded; a member registers and logs in. -/
def membership : List (Move Choice Call Ambient) :=
  opening ++ [.start (.register newcomer)] ++ steps 1 6 ++ [.start (.login newcomerLogin)] ++
    steps 2 2

theorem passwords_guarded_member : ∃ pool, Reached shop pool ∧ Guarded pool ∧
    pool.threads[2]? = some (some (.done (.user ⟨3, ['a', 'n', 'n', 'a'], .customer⟩))) := by
  obtain ⟨pool, reached, arrivals, seen⟩ := play_shows shop membership (answerOf · 2)
    (some (.ok (.user ⟨3, ['a', 'n', 'n', 'a'], .customer⟩))) (by decide +kernel)
  refine ⟨pool, reached, passwords_guarded shop ?_ pool reached ?_, answerOf_ok seen⟩
  · intro salt password attempt verified
    have same : password = attempt := by simpa [shop] using verified
    exact same.symm
  · rintro thread id dto ⟨called, _⟩ number _ high same
    have listed := List.mem_of_getElem? called
    simp only [arrivals, membership, opening, steps, started, List.mem_cons, List.cons_append,
      List.replicate, List.nil_append, Call.register.injEq, reduceCtorEq,
      List.not_mem_nil, or_false, false_or] at listed
    subst listed
    have apart : ∀ number < 1000, newcomer.username ≠ numberName number := by decide +kernel
    exact apart number (by omega) same

def seat : RegisterDto where
  username := ['5', '0', '0']
  password := ['s', 'e', 'c', 'r', 'e', 't']
  usernameLength := by decide
  usernamePattern := by decide
  passwordLength := by decide

def seatNumber : ClientLoginDto where
  number := 500
  numberRange := by decide

/-- Someone registers the name 500; then somebody enters the number 500. -/
def takenSeat : List (Move Choice Call Ambient) :=
  [.start (.register seat)] ++ steps 0 6 ++ [.start (.clientLogin seatNumber)] ++ steps 1 2

/-- The number entry issues a token for the registered account, without its password. -/
theorem number_enters_registered : ∃ pool, Reached shop pool ∧
    pool.state.arrivals = [.register seat, .clientLogin seatNumber] ∧
    pool.threads[0]? = some (some (.done (.user ⟨1, ['5', '0', '0'], .customer⟩))) ∧
    pool.threads[1]? = some (some (.done (.user ⟨1, ['5', '0', '0'], .customer⟩))) ∧
    ¬ Guarded pool := by
  obtain ⟨pool, reached, arrivals, seen⟩ := play_shows shop takenSeat
    (fun pool => (answerOf pool 0, answerOf pool 1))
    (some (.ok (.user ⟨1, ['5', '0', '0'], .customer⟩)),
      some (.ok (.user ⟨1, ['5', '0', '0'], .customer⟩))) (by decide +kernel)
  obtain ⟨first, second⟩ := Prod.mk.inj seen
  have calls : pool.state.arrivals = [.register seat, .clientLogin seatNumber] := arrivals
  refine ⟨pool, reached, calls, answerOf_ok first, answerOf_ok second, ?_⟩
  intro guarded
  obtain ⟨_, _, _, _, _, _, _, seeding, _⟩ :=
    guarded.numbered 1 seatNumber _ (by rw [calls]; rfl) (answerOf_ok second)
  have listed := List.mem_of_getElem? seeding
  simp [calls] at listed

end Cybera
