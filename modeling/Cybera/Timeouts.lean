import Cybera.Drift

/-!
The timeout that connect gives OpenNDS against the balance. It covers the
balance that connect has read; what is credited later does not lengthen it.
-/

namespace Cybera

open Interleaving

/-! What a connect authorises. -/

/-- Commands that end no transaction, lock no account and authorise nobody. -/
def Cmd.Lesser (cmd : Cmd) : Prop :=
  ¬ cmd.Closes ∧ (∀ id, cmd ≠ .lock .users id) ∧ ∀ mac minutes, cmd ≠ .ndsctl (.auth mac minutes)

/-- Nothing was written or locked before. -/
def OnlyAsked (past : Past) : Prop :=
  ∀ done ∈ past, done.1 = .begin ∨ ∃ query, done.1 = .query query

/-- In the connect's transaction, with its account locked. -/
structure AccountHeld (user : Nat) (account : UserRow) (past : Past) : Prop where
  locked : ⟨.lock .users user, .ok (some account)⟩ ∈ past
  unended : Unended past

/-- What stands behind the steps of a connect: the account is locked before
anything is written, and the timeout is what the account had left then. -/
def Authorising (config : Config) (user : AuthUser) (dto : ConnectDto) (past : Past) : Cmd → Prop
  | .lock .users id => id = user.id ∧ OnlyAsked past
  | .commit => Unended past
  | .ndsctl (.auth mac minutes) => mac = toLowerCase dto.clientmac ∧ ⟨.commit, .ok ()⟩ ∈ past ∧
      ∃ account : UserRow, ⟨.lock .users user.id, .ok (some account)⟩ ∈ past ∧
        minutes = authMinutes (min account.remainingSeconds config.maxSessionSeconds)
  | _ => True

section Order
variable {config : Config} {user : AuthUser} {dto : ConnectDto} {past : Past}

theorem lesser_authorising (past : Past) (cmd : Cmd) (inner : cmd.Lesser) :
    Authorising config user dto past cmd := by
  obtain ⟨going, unlocked, unauthorised⟩ := inner
  unfold Authorising
  split
  · exact absurd rfl (unlocked _)
  · exact absurd trivial going
  · exact absurd rfl (unauthorised _ _)
  · trivial

theorem holding_lesser {account : UserRow} (past : Past) (cmd : Cmd)
    (answer : Except Failure (Res cmd))
    (inner : cmd.Lesser) (holding : AccountHeld user.id account past) :
    AccountHeld user.id account (⟨cmd, answer⟩ :: past) := by
  refine ⟨List.mem_cons_of_mem _ holding.locked, ?_⟩
  intro done member
  rcases List.mem_cons.mp member with rfl | earlier
  · exact inner.1
  · exact holding.unended done earlier

theorem along_holding {α : Type} {account : UserRow} (program : Program α)
    (uses : program.Uses Cmd.Lesser) (holding : AccountHeld user.id account past) :
    Along (Authorising config user dto) (Ends fun _ => AccountHeld user.id account)
      program past := by
  refine along_post ?_ _ (along_keeps (AccountHeld user.id account)
    (fun past cmd lesser _ => lesser_authorising past cmd lesser) holding_lesser
      program uses holding)
  rintro (error | value) after kept
  · trivial
  · exact kept

theorem connect_authorises (user : AuthUser) (dto : ConnectDto) :
    Along (Authorising config user dto) (Ends fun _ _ => True)
      (SessionsService.connect config user dto) [] := by
  refine along_throwIf _ _ _ (fun _ => trivial) fun _ => ?_
  refine along_perform _ _ trivial (fun recent => ?_) fun _ => trivial
  refine along_throwIf _ _ _ (fun _ => trivial) fun _ => ?_
  refine along_then (fun timeoutSeconds past => ∃ account : UserRow,
    timeoutSeconds = min account.remainingSeconds config.maxSessionSeconds ∧
      ⟨.lock .users user.id, .ok (some account)⟩ ∈ past ∧ ⟨.commit, .ok ()⟩ ∈ past) ?_ ?_
  · refine along_tx trivial (fun _ => trivial) ?_
    refine along_perform _ _ ⟨rfl, ?_⟩ (fun locked => ?_) fun _ => trivial
    · simp [OnlyAsked]
    refine along_orThrow _ _ _ (fun _ => trivial) ?_
    rintro account rfl
    refine along_throwIf _ _ _ (fun _ => trivial) fun _ => ?_
    have holding : AccountHeld user.id account [⟨.lock .users user.id, .ok (some account)⟩,
        ⟨.begin, .ok ()⟩, ⟨.query (.recentKick (toLowerCase dto.clientmac)
          config.kickCooldownSeconds), .ok recent⟩] := by
      refine ⟨by simp, ?_⟩
      simp [Unended, Cmd.Closes]
    have asks : ∀ query, Cmd.Lesser (.query query) := fun _ => ⟨id, nofun, nofun⟩
    have locks : ∀ id, Cmd.Lesser (.lock .sessions id) := fun _ => ⟨id, nofun, nofun⟩
    have updates : ∀ table id op, Cmd.Lesser (.update table id op) := fun _ _ _ =>
      ⟨id, nofun, nofun⟩
    have inserts : ∀ table row skip, Cmd.Lesser (.insert table row skip) :=
      fun _ _ _ => ⟨id, nofun, nofun⟩
    refine along_then _ (along_holding _ (uses_lockActiveSessions _ asks locks) holding) ?_
    intro rows past holding
    refine along_throwIf _ _ _ (fun _ => trivial) fun _ => ?_
    refine along_then _ (along_holding _ (uses_upsertDevice _ _ _ asks (inserts _ · _)
      fun _ => updates _ _ _) holding) ?_
    intro _ past holding
    refine along_then _ (along_holding _ (uses_openOrRefresh _ _ _ _ _ asks locks
      (fun _ => updates _ _ _) (fun _ => updates _ _ _) (inserts _ _ _)) holding) ?_
    intro _ past holding
    exact ⟨holding.unended, account, rfl, List.mem_cons_of_mem _ holding.locked, by simp⟩
  · rintro timeoutSeconds past ⟨account, rfl, locked, committed⟩
    refine along_then (fun _ _ => True) (along_command _ ⟨rfl, committed, account, locked, rfl⟩
      fun _ => trivial) fun _ _ _ => ?_
    refine along_then (fun _ _ => True) ?_ fun _ _ _ => trivial
    apply along_rescue
    exact ⟨trivial, fun answer => by cases answer <;> trivial⟩

theorem call_authorises (call : Call) :
    Along (fun past cmd => ∀ user dto, call = .connect user dto →
      Authorising config user dto past cmd)
      (fun _ _ => True) (call.program config) [] := by
  by_cases connects : ∃ user dto, call = .connect user dto
  · obtain ⟨user, dto, rfl⟩ := connects
    refine along_mono ?_ (fun _ _ _ => trivial) _ (connect_authorises user dto)
    rintro past cmd allowed _ _ ⟨⟩
    exact allowed
  · refine along_mono ?_ (fun _ _ _ => trivial) _ (along_mayDo call)
    intro past cmd _ user dto same
    exact absurd ⟨user, dto, same⟩ connects

end Order

section Runs
variable {config : Config} {pool : ServerPool} (reached : Reached config pool)
include reached

theorem reached_authorising {pos : Nat} {event : Event} {user : AuthUser} {dto : ConnectDto}
    (found : pool.state.hist[pos]? = some event)
    (called : pool.state.arrivals[event.thread]? = some (.connect user dto)) :
    Authorising config user dto (pastOf (pool.state.hist.take pos) event.thread) event.cmd := by
  obtain ⟨call, called', allowed⟩ := reached_allowed call_authorises reached pos event found
  exact allowed user dto (Option.some.inj (called'.symm.trans called))

theorem account_stored {lockAt : Nat} {lock : Event} {user : AuthUser} {dto : ConnectDto}
    {account : UserRow} (found : pool.state.hist[lockAt]? = some lock)
    (called : pool.state.arrivals[lock.thread]? = some (.connect user dto))
    (locks : lock.done = ⟨.lock .users user.id, .ok (some account)⟩) :
    storeAfter pool.state.db.log lock.commits .users user.id = some account ∧
      OnlyAsked (pastOf (pool.state.hist.take lockAt) lock.thread) := by
  have allowed := reached_authorising reached found called
  rw [show lock.cmd = .lock .users user.id from congrArg Sigma.fst locks] at allowed
  have nothing : lock.pending = [] := by
    refine List.eq_nil_iff_forall_not_mem.mpr fun entry pending => ?_
    obtain ⟨writeAt, write, before, found', own, wrote, _⟩ :=
      (reached_chronicle reached).pending lockAt lock found entry pending
    rcases allowed.2 write.done (mem_pastOf_take.mpr ⟨writeAt, write, before, found', own, rfl⟩)
      with begins | ⟨query, asks⟩
    · cases wrote <;> cases begins
    · cases wrote <;> cases asks
  have held := locked_row reached (List.mem_of_getElem? found) locks
  have truthful := (reached_ready reached).truthful lock (List.mem_of_getElem? found)
  rw [truthful.rows, nothing, replay_nil] at held
  exact ⟨held, allowed.2⟩

/-- The connect behind an `ndsctl auth`: the account as it was when the
transaction committed, and the timeout that it gave. -/
theorem auth_granted {pos minutes : Nat} {event : Event} {mac : Text} {user : AuthUser}
    {dto : ConnectDto} (found : pool.state.hist[pos]? = some event)
    (orders : event.cmd = .ndsctl (.auth mac minutes))
    (called : pool.state.arrivals[event.thread]? = some (.connect user dto)) :
    ∃ commit ∈ pool.state.hist, commit.thread = event.thread ∧ commit.done = ⟨.commit, .ok ()⟩ ∧
      commit.commits ≤ event.commits ∧
      ∃ account : UserRow,
        storeAfter pool.state.db.log commit.commits .users user.id = some account ∧
          minutes = authMinutes (min account.remainingSeconds config.maxSessionSeconds) := by
  have allowed := reached_authorising reached found called
  rw [orders] at allowed
  obtain ⟨_, committed, account, locked, same⟩ := allowed
  obtain ⟨commitAt, commit, early, foundCommit, ownCommit, closes⟩ := mem_pastOf_take.mp committed
  obtain ⟨lockAt, lock, _, foundLock, ownLock, locks⟩ := mem_pastOf_take.mp locked
  obtain ⟨stored, asked⟩ := account_stored reached foundLock (ownLock ▸ called) locks
  have commits : commit.cmd = .commit := congrArg Sigma.fst closes
  have ordered : lockAt < commitAt := by
    rcases Nat.lt_trichotomy lockAt commitAt with less | rfl | more
    · exact less
    · rw [foundCommit, Option.some.injEq] at foundLock
      subst foundLock
      cases closes.symm.trans locks
    · rcases asked commit.done (mem_pastOf_take.mpr
        ⟨commitAt, commit, more, foundCommit, ownCommit.trans ownLock.symm, rfl⟩) with
        begins | ⟨query, asks⟩
      · cases (congrArg Sigma.fst closes).symm.trans begins
      · cases (congrArg Sigma.fst closes).symm.trans asks
  have timeline := reached_timeline reached
  have unended := reached_authorising reached foundCommit (ownCommit ▸ called)
  rw [commits] at unended
  have unclosed : Unclosed pool.state.hist lock.thread lockAt commitAt :=
    ownLock ▸ ownCommit ▸ unended_unclosed unended
  have stands := locked_stands reached (by simp) foundLock (locked_takes locks) foundCommit
    (ownCommit.trans ownLock.symm) unclosed
    (history_order timeline ordered foundLock foundCommit).commits (Nat.le_refl _)
  exact ⟨commit, List.mem_of_getElem? foundCommit, ownCommit, closes,
    (history_order timeline early foundCommit found).commits, account, stands.trans stored, same⟩

end Runs

/-! What the balance falls by. -/

section Acts
variable {user session : Nat} {acts : List Entry}

theorem charged_cons (entry : Entry) (rest : List Entry) :
    charged user session (entry :: rest) =
      charged user session [entry] + charged user session rest := by
  rw [← charged_append, List.singleton_append]

theorem acts_credited (entry : Entry) (rest : List Entry) :
    creditedTo ((entry :: rest).filterMap creditOf) user =
      creditedTo ([entry].filterMap creditOf) user + creditedTo (rest.filterMap creditOf) user := by
  rw [← creditedTo_append, ← List.filterMap_append, List.singleton_append]

theorem charged_away {entry : Entry} (away : ¬ (TableName.users = entry.table ∧ user = entry.id)) :
    charged user session [entry] = 0 := by
  cases charges : chargeOf entry with
  | none => simp [charged, charges]
  | some charge =>
      have named : TableName.users = entry.table ∧ charge.user = entry.id := by
        unfold chargeOf at charges
        split at charges
        · cases charges
          exact ⟨rfl, rfl⟩
        · cases charges
      have other : charge.user ≠ user := fun same => away ⟨named.1, same ▸ named.2⟩
      simp [charged, charges, other]

theorem op_lowers (user session : Nat) (op : UserOp) (now : Time) (account : UserRow)
    (uncredited : creditedTo ([alter .users user op now].filterMap creditOf) user = 0)
    (floor : 0 ≤ account.remainingSeconds) :
    0 ≤ (op.run account).remainingSeconds ∧ (op.run account).remainingSeconds ≤
      max 0 (account.remainingSeconds - charged user session [alter .users user op now]) := by
  cases op with
  | credit seconds limit source =>
      have nothing : seconds = 0 := by simpa [creditedTo, alter, creditOf] using uncredited
      subst nothing
      have uncharged : charged user session
          [alter .users user (.credit 0 limit source) now] = 0 := rfl
      simp [UserOp.run, uncharged, floor]
  | charge elapsed id =>
      have least : charged user session [alter .users user (.charge elapsed id) now] ≤ elapsed := by
        by_cases same : id = session <;> simp [charged, alter, chargeOf, same]
      simp only [UserOp.run]
      omega
  | syncAdmin hash =>
      have uncharged : charged user session [alter .users user (.syncAdmin hash) now] = 0 := rfl
      simp [UserOp.run, uncharged, floor]

theorem charged_lowers {rows : Store} {account : UserRow} (alters : AltersAt .users user acts)
    (uncredited : creditedTo (acts.filterMap creditOf) user = 0)
    (present : rows .users user = some account) (floor : 0 ≤ account.remainingSeconds) :
    balanceOf (replay acts rows) user ≤
      max 0 (account.remainingSeconds - charged user session acts) := by
  induction acts generalizing rows account with
  | nil => simp [balanceOf, present, charged]
  | cons entry rest ih =>
      have others : AltersAt .users user rest :=
        fun other member => alters other (List.mem_cons_of_mem entry member)
      rw [acts_credited] at uncredited
      rw [replay_cons, charged_cons]
      by_cases hit : TableName.users = entry.table ∧ user = entry.id
      · obtain ⟨op, now, rfl⟩ := alters entry (by simp) hit.1.symm hit.2.symm
        have moved : RowLock.runEntry Act.run rows (alter .users user op now) .users user =
            some (UserOp.run op account) := by simp [present, Op.run]
        obtain ⟨floor', lower⟩ := op_lowers user session op now account (by omega) floor
        have onward := ih others (by omega) moved floor'
        push_cast
        omega
      · have same : RowLock.runEntry Act.run rows entry .users user = some account := by
          rwa [RowLock.runEntry_other _ _ _ _ _ hit]
        have onward := ih others (by omega) same floor
        rwa [charged_away hit, Nat.zero_add]

end Acts

/-! From an `ndsctl auth` on. -/

/-- Nobody credits the user from block `first` on. -/
def Uncredited (world : World) (user first : Nat) : Prop :=
  ∀ index thread acts, first ≤ index → world.db.log[index]? = some (thread, acts) →
    creditedTo (acts.filterMap creditOf) user = 0

/-- From block `first` on, a connect that refreshes the session began before
`start`, or finds nothing to settle. -/
def NothingForgiven (world : World) (session first : Nat) (start : Int) : Prop :=
  ∀ index thread acts ip token now, ∀ s : SessionRow, first ≤ index →
    world.db.log[index]? = some (thread, acts) →
    alter .sessions session (.refresh ip token) now ∈ acts →
    storeAfter world.db.log index .sessions session = some s → now ≤ max start s.lastTick

/-- The balance is spent, or what is left of it covers no more than the time that
has not been settled since `start`. -/
structure Spending (world : World) (user session first : Nat) (start : Int) (most : Int)
    (index : Nat) : Prop where
  balance : balanceOf (storeAfter world.db.log index) user ≤ most
  lasts : ∀ s : SessionRow, storeAfter world.db.log index .sessions session = some s →
    s.userId = user → balanceOf (storeAfter world.db.log index) user = 0 ∨
      1000 * balanceOf (storeAfter world.db.log index) user + max start s.lastTick ≤
        1000 * most + start + 500 * (settledBetween world session first index : Int)

section Spending
variable {config : Config} {pool : ServerPool} (reached : Reached config pool)
  {user session first index thread : Nat} {start : Int} {most : Int} {acts : List Entry}
include reached

theorem block_lowers {account : UserRow} (session : Nat)
    (block : pool.state.db.log[index]? = some (thread, acts))
    (uncredited : creditedTo (acts.filterMap creditOf) user = 0)
    (present : storeAfter pool.state.db.log index .users user = some account) :
    balanceOf (storeAfter pool.state.db.log (index + 1)) user ≤
      max 0 (balanceOf (storeAfter pool.state.db.log index) user - charged user session acts) := by
  obtain ⟨call, _, lawful⟩ := block_lawful (reached_legit reached) block
  have floor := balance_floor reached user (Nat.le_of_lt (event_bound block))
  have balance : balanceOf (storeAfter pool.state.db.log index) user =
      account.remainingSeconds := by
    simp [balanceOf, present]
  rw [balance] at floor ⊢
  rw [storeAfter_succ _ _ _ block]
  exact charged_lowers (lawful_alters lawful (by simp) (by simp) (by simp [present])) uncredited
    present floor

theorem tick_forward {before after : SessionRow} (low : first ≤ index)
    (block : pool.state.db.log[index]? = some (thread, acts))
    (row : storeAfter pool.state.db.log index .sessions session = some before)
    (left : storeAfter pool.state.db.log (index + 1) .sessions session = some after)
    (unforgiven : NothingForgiven pool.state session first start) :
    max start after.lastTick ≤ max start before.lastTick +
      1000 * charged before.userId session acts + 500 * settlements session acts := by
  have charges : (0 : Int) ≤ charged before.userId session acts := Int.natCast_nonneg _
  have settles : (0 : Int) ≤ settlements session acts := Int.natCast_nonneg _
  by_cases skips : ∃ ip token now, alter .sessions session (.refresh ip token) now ∈ acts ∧
      before.lastTick < now
  · obtain ⟨ip, token, now, member, _⟩ := skips
    have restarted := restart_tick reached block member trivial left
    have within := unforgiven index thread acts ip token now before low block member row
    rw [restarted]
    have past : max start now ≤ max start before.lastTick := max_le (le_max_left _ _) within
    linarith
  · obtain ⟨call, _, lawful⟩ := block_lawful (reached_legit reached) block
    obtain ⟨after', left', lag, balance⟩ := block_paid lawful row
      fun ip token now member => Int.not_lt.mp fun late => skips ⟨ip, token, now, member, late⟩
    rw [storeAfter_succ _ _ _ block, left', Option.some.injEq] at left
    subst left
    have paid : (after'.secondsConsumed : Int) - before.secondsConsumed =
        charged before.userId session acts := by omega
    rw [paid] at lag
    refine max_le ?_ ?_
    · linarith [le_max_left start before.lastTick]
    · linarith [le_max_right start before.lastTick]

theorem spending_step {account : UserRow} (low : first ≤ index)
    (block : pool.state.db.log[index]? = some (thread, acts))
    (present : storeAfter pool.state.db.log index .users user = some account)
    (uncredited : creditedTo (acts.filterMap creditOf) user = 0)
    (unforgiven : NothingForgiven pool.state session first start)
    (opened : ∀ s : SessionRow, storeAfter pool.state.db.log (index + 1) .sessions session =
      some s → s.startedAt ≤ start)
    (spending : Spending pool.state user session first start most index) :
    Spending pool.state user session first start most (index + 1) := by
  obtain ⟨bounded, covers⟩ := spending
  have legit := reached_legit reached
  have lower := block_lowers reached session block uncredited present
  have floor := balance_floor reached user (Nat.le_of_lt (event_bound block))
  have floor' : 0 ≤ balanceOf (storeAfter pool.state.db.log (index + 1)) user :=
    balance_floor reached user (event_bound block)
  have least : balanceOf (storeAfter pool.state.db.log (index + 1)) user ≤ most := by omega
  refine ⟨least, fun after left owner => ?_⟩
  rw [settledBetween_succ low block]
  push_cast
  obtain ⟨call, _, lawful⟩ := block_lawful legit block
  cases row : storeAfter pool.state.db.log index .sessions session with
  | none =>
      have fresh := session_made lawful row ((storeAfter_succ _ _ _ block) ▸ left)
      have early : after.lastTick ≤ start := fresh ▸ opened after left
      rw [max_eq_left early]
      right
      linarith [Int.natCast_nonneg (settledBetween pool.state session first index),
        Int.natCast_nonneg (settlements session acts)]
  | some before =>
      obtain ⟨after', left', same⟩ := row_same legit (by simp) (by simp) (Nat.le_succ index)
        (event_bound block) row
      rw [left, Option.some.injEq] at left'
      subst left'
      have mine : before.userId = user := by rw [← owner, same.1]
      have forward := tick_forward reached low block row left unforgiven
      rw [mine] at forward
      have nothing : (0 : Int) ≤ charged user session acts := Int.natCast_nonneg _
      rcases covers before row mine with spent | covered
      · left
        omega
      · rcases le_total (balanceOf (storeAfter pool.state.db.log index) user -
          charged user session acts) 0 with gone | going
        · left
          omega
        · right
          rw [max_eq_right going] at lower
          linarith

end Spending
/-- The time in milliseconds that is not yet settled for the user's online devices. -/
def unsettledTime (pool : ServerPool) (user : Nat) : Int :=
  (((viewNow pool).scan .sessions fun s : SessionRow => s.userId == user && s.status == .active &&
    isAuthed s.deviceMac pool.state.clients).map fun found =>
      pool.state.clock - (found.2 : SessionRow).lastTick).sum

/-- OpenNDS is about to deauthorise the device of an active session: the minutes
of the last `ndsctl auth` of its MAC have passed, sooner than MAX_SESSION_SECONDS. -/
structure RunsOut (config : Config) (pool : ServerPool) (authAt : Nat) (auth : Event)
    (minutes id : Nat) (s : SessionRow) : Prop where
  found : pool.state.hist[authAt]? = some auth
  orders : auth.cmd = .ndsctl (.auth s.deviceMac minutes)
  last : ∀ (later : Nat) (event : Event), authAt < later → pool.state.hist[later]? = some event →
    event.answer.isOk = true → ¬ event.Auths s.deviceMac
  passed : pool.state.clock = auth.time + 60000 * minutes
  early : 60 * minutes < config.maxSessionSeconds
  online : isAuthed s.deviceMac pool.state.clients = true
  present : pool.state.db.store .sessions id = some s
  active : s.status = .active

/-- Since the connect that gave the timeout, which was the owner's: nobody has
credited the owner, and no connect has opened the session later or has refreshed
it and forgiven it time. -/
structure NobodyElse (world : World) (auth : Event) (id : Nat) (s : SessionRow) : Prop where
  owner : ∃ user dto, world.arrivals[auth.thread]? = some (.connect user dto) ∧ user.id = s.userId
  uncredited : ∀ commit ∈ world.hist, commit.thread = auth.thread →
    commit.done = ⟨.commit, .ok ()⟩ → Uncredited world s.userId commit.commits
  opened : s.startedAt ≤ auth.time
  unforgiven : NothingForgiven world id auth.commits auth.time

section Timeouts
variable {config : Config} {pool : ServerPool} (reached : Reached config pool)
include reached

theorem balance_falls {user first last : Nat} {account : UserRow} (ordered : first ≤ last)
    (bound : last ≤ pool.state.db.log.length)
    (present : storeAfter pool.state.db.log first .users user = some account)
    (uncredited : Uncredited pool.state user first) :
    balanceOf (storeAfter pool.state.db.log last) user ≤ account.remainingSeconds := by
  refine log_stretch (reached_legit reached) (fun index =>
    balanceOf (storeAfter pool.state.db.log index) user ≤ account.remainingSeconds) ordered bound
    (by simp [balanceOf, present]) ?_
  intro index thread acts call low _ block _ _ _ ih
  obtain ⟨account', present', _⟩ := row_same (reached_legit reached) (by simp) (by simp) low
    (Nat.le_of_lt (event_bound block)) present
  have lower := block_lowers reached 0 block (uncredited index thread acts low block) present'
  have floor := balance_floor reached user (Nat.le_of_lt (event_bound block))
  omega

theorem spending_since {authAt id : Nat} {auth : Event} {s : SessionRow} {most : Int}
    {account : UserRow} (found : pool.state.hist[authAt]? = some auth)
    (left : storeAfter pool.state.db.log pool.state.db.log.length .sessions id = some s)
    (present : storeAfter pool.state.db.log auth.commits .users s.userId = some account)
    (least : account.remainingSeconds ≤ most)
    (uncredited : Uncredited pool.state s.userId auth.commits) (opened : s.startedAt ≤ auth.time)
    (unforgiven : NothingForgiven pool.state id auth.commits auth.time) :
    Spending pool.state s.userId id auth.commits auth.time most pool.state.db.log.length := by
  have legit := reached_legit reached
  have member := List.mem_of_getElem? found
  have bound := ((reached_ready reached).truthful auth member).bound
  refine log_stretch legit (fun index =>
    Spending pool.state s.userId id auth.commits auth.time most index) bound (Nat.le_refl _) ?_ ?_
  · refine ⟨by simpa [balanceOf, present] using least, fun row here _ => ?_⟩
    have earlier := tick_passed reached here member (Nat.le_refl _)
    right
    rw [max_eq_left earlier]
    simp [settledBetween, balanceOf, present, settlements]
    omega
  · intro index thread acts call low _ block _ _ _ spending
    obtain ⟨account', present', _⟩ := row_same legit (by simp) (by simp) low
      (Nat.le_of_lt (event_bound block)) present
    refine spending_step reached low block present' (uncredited index thread acts low block)
      unforgiven ?_ spending
    intro row here
    obtain ⟨after, left', same⟩ := row_same legit (by simp) (by simp) (event_bound block)
      (Nat.le_refl _) here
    rw [left, Option.some.injEq] at left'
    subst left'
    rw [← same.2.2]
    exact opened

theorem unsettled_covers {id : Nat} {s : SessionRow}
    (present : pool.state.db.store .sessions id = some s) (active : s.status = .active)
    (online : isAuthed s.deviceMac pool.state.clients = true) :
    0 ≤ unsettledTime pool s.userId ∧
      pool.state.clock - s.lastTick ≤ unsettledTime pool s.userId := by
  have recorded := (reached_ready reached).recorded
  have within : ∀ key row, pool.state.db.store .sessions key = some row →
      0 ≤ pool.state.clock - (row : SessionRow).lastTick := by
    intro key row here
    rw [recorded] at here
    exact Int.sub_nonneg_of_le (tick_now reached (Nat.le_refl _) here)
  have terms : ∀ time ∈ ((viewNow pool).scan .sessions fun t : SessionRow =>
      t.userId == s.userId && t.status == .active && isAuthed t.deviceMac pool.state.clients).map
        fun found => pool.state.clock - (found.2 : SessionRow).lastTick, 0 ≤ time := by
    intro time member
    obtain ⟨⟨key, row⟩, listed, rfl⟩ := List.mem_map.mp member
    exact within key row (mem_scan.mp listed).2.1
  refine ⟨List.sum_nonneg terms, List.single_le_sum terms _ (List.mem_map.mpr ⟨(id, s), ?_, rfl⟩)⟩
  refine mem_scan.mpr ⟨session_below reached (Nat.le_refl _) ?_, present, ?_⟩
  · rw [← recorded, present]
    rfl
  · simp [active, online]

end Timeouts

/-- The minutes of an auth cover the balance, unless they are cut at MAX_SESSION_SECONDS. -/
theorem minutes_cover {remaining : Int} {most : Nat}
    (early : 60 * authMinutes (min remaining most) < most) :
    remaining ≤ 60 * authMinutes (min remaining most) := by
  unfold authMinutes at *
  omega

/-- When the timeout of a device runs out, what its owner has left is not yet
settled time, unless he was credited or the connect was overtaken. -/
theorem spent_at_timeout (config : Config) (pool : ServerPool) (reached : Reached config pool)
    (authAt : Nat) (auth : Event) (minutes id : Nat) (s : SessionRow)
    (runsOut : RunsOut config pool authAt auth minutes id s)
    (alone : NobodyElse pool.state auth id s) :
    1000 * balanceOf pool.state.db.store s.userId - unsettledTime pool s.userId ≤
      1000 * (settledBetween pool.state id auth.commits pool.state.db.log.length : Int) := by
  obtain ⟨user, dto, called, owner⟩ := alone.owner
  obtain ⟨commit, listed, own, committed, early, account, stored, rfl⟩ :=
    auth_granted reached runsOut.found runsOut.orders called
  rw [owner] at stored
  have recorded := (reached_ready reached).recorded
  have uncredited := alone.uncredited commit listed own committed
  have bound := ((reached_ready reached).truthful auth (List.mem_of_getElem? runsOut.found)).bound
  obtain ⟨account', present', _⟩ := row_same (reached_legit reached) (by simp) (by simp) early
    bound stored
  have least : account'.remainingSeconds ≤ account.remainingSeconds := by
    simpa [balanceOf, present'] using balance_falls reached early bound stored uncredited
  have left : storeAfter pool.state.db.log pool.state.db.log.length .sessions id = some s := by
    rw [← recorded]
    exact runsOut.present
  have spending := spending_since reached runsOut.found left present' least
    (fun index thread acts low => uncredited index thread acts (Nat.le_trans early low))
    alone.opened alone.unforgiven
  have covers := minutes_cover runsOut.early
  obtain ⟨positive, mine⟩ := unsettled_covers reached runsOut.present runsOut.active runsOut.online
  have passed := runsOut.passed
  have counted : (0 : Int) ≤ settledBetween pool.state id auth.commits pool.state.db.log.length :=
    Int.natCast_nonneg _
  rw [recorded]
  rcases spending.lasts s left rfl with spent | covered
  · rw [spent]
    linarith
  · have after := le_max_right auth.time s.lastTick
    linarith

def aMinute : GrantTimeDto where
  minutes := 1
  deviceLimit := none
  minutesMin := Nat.one_pos
  limitMin := anHour.limitMin

/-- The guest goes online with his phone on a minute's balance. -/
def onAMinute : List (Move Choice Call Ambient) :=
  opening ++ [.start (.grant staff 2 aMinute)] ++ steps 1 4 ++
    [.ambient (.clients [(phoneMac, ⟨some phoneMac, some phoneIp, some preauthenticated⟩)]),
      .start (.connect guest phone)] ++ steps 2 10

def minuteOver : List (Move Choice Call Ambient) :=
  onAMinute ++ [.ambient (.elapse 30000), .start .tick] ++ steps 3 13 ++ [.ambient (.elapse 30000)]

/-- Half way through the minute the staff grant another hour. -/
def grantedOnline : List (Move Choice Call Ambient) :=
  onAMinute ++ [.ambient (.elapse 30000), .start (.grant staff 2 anHour)] ++ steps 3 4 ++
    [.ambient (.elapse 30000)]

/-- The last `ndsctl auth` stands at `authAt` and has timed out. -/
def timesOut (config : Config) (pool : ServerPool) (authAt id : Nat) : Bool :=
  match pool.state.hist[authAt]?, pool.state.db.store .sessions id with
  | some auth, some (s : SessionRow) =>
      match auth.cmd with
      | .ndsctl (.auth mac minutes) =>
          mac == s.deviceMac && !(pool.state.hist.drop (authAt + 1)).any auths &&
            pool.state.clock == auth.time + 60000 * minutes &&
            decide (60 * minutes < config.maxSessionSeconds) &&
            isAuthed s.deviceMac pool.state.clients && s.status == .active
      | _ => false
  | _, _ => false

theorem timesOut_runsOut {config : Config} {pool : ServerPool} {authAt id : Nat}
    (out : timesOut config pool authAt id = true) :
    ∃ auth minutes s, RunsOut config pool authAt auth minutes id s := by
  unfold timesOut at out
  split at out
  next auth s found present =>
    split at out
    next mac minutes orders =>
      simp only [Bool.and_eq_true, beq_iff_eq, Bool.not_eq_true', decide_eq_true_eq] at out
      obtain ⟨⟨⟨⟨⟨device, alone⟩, passed⟩, early⟩, online⟩, active⟩ := out
      subst device
      refine ⟨auth, minutes, s, found, orders, ?_, passed, early, online, present, active⟩
      rintro later event ordered here _ ⟨minutes', again⟩
      have listed : event ∈ pool.state.hist.drop (authAt + 1) := by
        refine List.mem_of_getElem? (i := later - (authAt + 1)) ?_
        rw [List.getElem?_drop, show authAt + 1 + (later - (authAt + 1)) = later by omega]
        exact here
      have none' := List.any_eq_false.mp alone event listed
      exact none' (by simp [auths, again])
    next => cases out
  next => cases out

def commitsBy (thread : Nat) (event : Event) : Bool :=
  event.thread == thread && match event.cmd with
    | .commit => true
    | _ => false

/-- What was left alone, in a run in which no connect refreshes a session. -/
def nobodyElse (pool : ServerPool) (authAt id : Nat) : Bool :=
  match pool.state.hist[authAt]?, pool.state.db.store .sessions id with
  | some auth, some (s : SessionRow) =>
      (match pool.state.arrivals[auth.thread]? with
        | some (.connect user _) => user.id == s.userId
        | _ => false) &&
      (pool.state.hist.all fun event => !commitsBy auth.thread event ||
        (pool.state.db.log.drop event.commits).all fun block =>
          creditedTo (block.2.filterMap creditOf) s.userId == 0) &&
      decide (s.startedAt ≤ auth.time) &&
        !(pool.state.db.log.any fun block => block.2.any refreshes)
  | _, _ => false

theorem nobodyElse_holds {pool : ServerPool} {authAt id : Nat} {auth : Event} {s : SessionRow}
    (found : pool.state.hist[authAt]? = some auth)
    (present : pool.state.db.store .sessions id = some s)
    (left : nobodyElse pool authAt id = true) :
    NobodyElse pool.state auth id s := by
  simp only [nobodyElse, found, present, Bool.and_eq_true, decide_eq_true_eq, List.all_eq_true,
    Bool.or_eq_true, Bool.not_eq_true', beq_iff_eq] at left
  obtain ⟨⟨⟨owner, uncredited⟩, opened⟩, unrefreshed⟩ := left
  refine ⟨?_, ?_, opened, ?_⟩
  · split at owner
    next user dto called => exact ⟨user, dto, called, by simpa using owner⟩
    next => cases owner
  · intro commit listed own committed index thread acts low block
    have commits : commitsBy auth.thread commit = true := by
      have cmd : commit.cmd = .commit := congrArg Sigma.fst committed
      simp [commitsBy, own, cmd]
    refine (uncredited commit listed).resolve_left (by simp [commits]) (thread, acts) ?_
    refine List.mem_of_getElem? (i := index - commit.commits) ?_
    rw [List.getElem?_drop, show commit.commits + (index - commit.commits) = index by omega]
    exact block
  · intro index thread acts ip token now row _ block member
    have none' := List.any_eq_false.mp unrefreshed _ (List.mem_of_getElem? block)
    exact absurd (List.any_eq_true.mpr ⟨_, member, rfl⟩) none'

/-- Whose the session is, his balance, what is not settled, and how often the
session was settled since the step `authAt`. -/
def accounts (pool : ServerPool) (authAt id : Nat) : Option (Nat × Int × Int × Nat) :=
  match pool.state.hist[authAt]?, pool.state.db.store .sessions id with
  | some auth, some (s : SessionRow) => some (s.userId, balanceOf pool.state.db.store s.userId,
      unsettledTime pool s.userId,
      settledBetween pool.state id auth.commits pool.state.db.log.length)
  | _, _ => none

/-- The minute is over: half of it is settled and half is left to settle. -/
theorem spent_at_timeout_minute : ∃ pool auth minutes s, Reached shop pool ∧
    RunsOut shop pool 21 auth minutes 1 s ∧ NobodyElse pool.state auth 1 s ∧
    accounts pool 21 1 = some (2, 30, 30000, 1) ∧
    1000 * balanceOf pool.state.db.store s.userId - unsettledTime pool s.userId ≤
      1000 * (settledBetween pool.state 1 auth.commits pool.state.db.log.length : Int) := by
  obtain ⟨pool, reached, _, seen⟩ := play_shows shop minuteOver
    (fun pool => (timesOut shop pool 21 1 && nobodyElse pool 21 1, accounts pool 21 1))
    (true, some (2, 30, 30000, 1)) (by decide +kernel)
  simp only [Prod.mk.injEq, Bool.and_eq_true] at seen
  obtain ⟨auth, minutes, s, runsOut⟩ := timesOut_runsOut seen.1.1
  have alone := nobodyElse_holds runsOut.found runsOut.present seen.1.2
  exact ⟨pool, auth, minutes, s, reached, runsOut, alone, seen.2,
    spent_at_timeout shop pool reached 21 auth minutes 1 s runsOut alone⟩

/-- The granted hour is left, and the device is cut off at the old expiry. -/
theorem granted_time_cut_off : ∃ pool auth minutes s, Reached shop pool ∧
    RunsOut shop pool 21 auth minutes 1 s ∧ accounts pool 21 1 = some (2, 3660, 60000, 0) ∧
    ¬ 1000 * balanceOf pool.state.db.store s.userId - unsettledTime pool s.userId ≤
      1000 * (settledBetween pool.state 1 auth.commits pool.state.db.log.length : Int) := by
  obtain ⟨pool, reached, _, seen⟩ := play_shows shop grantedOnline
    (fun pool => (timesOut shop pool 21 1, accounts pool 21 1))
    (true, some (2, 3660, 60000, 0)) (by decide +kernel)
  simp only [Prod.mk.injEq] at seen
  obtain ⟨auth, minutes, s, runsOut⟩ := timesOut_runsOut seen.1
  have shown := seen.2
  simp only [accounts, runsOut.found, runsOut.present, Option.some.injEq, Prod.mk.injEq] at shown
  obtain ⟨_, balance, unsettled, settled⟩ := shown
  refine ⟨pool, auth, minutes, s, reached, runsOut, seen.2, ?_⟩
  rw [balance, unsettled, settled]
  decide

end Cybera
