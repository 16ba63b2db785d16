import Cybera.Exclusion
import Cybera.PassOrder

/-!
Connect puts everything that the database has to know into one transaction and
runs `ndsctl auth` after its COMMIT: a failure there finds the writes committed.
-/

namespace Cybera

open Interleaving

/-- The thread's transactions leave every row as they found it. -/
def Untouched (world : World) (thread : Nat) : Prop :=
  ∀ (index : Nat) (acts : List Entry), world.db.log[index]? = some (thread, acts) →
    ∀ table id, storeAfter world.db.log (index + 1) table id =
      storeAfter world.db.log index table id

def AuthFailed (world : World) (thread : Nat) : Prop :=
  ∃ event ∈ world.hist, event.thread = thread ∧ ∃ mac minutes error,
    event.done = ⟨.ndsctl (.auth mac minutes), .error error⟩

/-- What fails comes after the COMMIT was carried out: its answer, or `ndsctl auth`. -/
def FailsLate (world : World) (thread : Nat) : Prop := AuthFailed world thread ∨ Lost world thread

/-- A reconnect that finds the session and the device just as it writes them,
now() included. -/
def Repeats (world : World) (thread : Nat) (dto : ConnectDto) : Prop :=
  ∀ (index : Nat) (acts : List Entry), world.db.log[index]? = some (thread, acts) →
    ∃ (key id : Nat) (d : DeviceRow) (s : SessionRow) (now : Time),
      acts = [alter .devices key (.relabel dto.label) now,
        alter .sessions id (.refresh dto.clientip dto.hid) now] ∧
      storeAfter world.db.log index .devices key = some d ∧ d.lastSeen = now ∧
        dto.label.or d.label = d.label ∧
      storeAfter world.db.log index .sessions id = some s ∧ s.lastTick = now ∧
        s.ip = dto.clientip ∧ s.openndsToken = some dto.hid

/-- COMMIT ends a transaction that has begun, and `ndsctl auth` comes after it. -/
def AuthsLast (past : Past) : Cmd → Prop
  | .commit => Begun past
  | .ndsctl (.auth ..) => Committed past
  | _ => True

/-- A failure leaves nothing committed, unless it is that of `ndsctl auth`. -/
def FailsClean : Except Failure Reply → Past → Prop
  | .ok _, _ => True
  | .error _, past => ¬ Committed past ∨
      ∃ mac minutes error, ⟨.ndsctl (.auth mac minutes), .error error⟩ ∈ past

/-- The statements in a transaction. -/
def Cmd.Inner (cmd : Cmd) : Prop :=
  ¬ cmd.Closes ∧ cmd ≠ .begin ∧ ∀ mac minutes, cmd ≠ .ndsctl (.auth mac minutes)

section Order
variable {config : Config}

theorem uncommitted_cons {done : Done Cmd Res Failure} {past : Past}
    (other : done ≠ ⟨.commit, .ok ()⟩) (fresh : ¬ Committed past) : ¬ Committed (done :: past) := by
  intro committed
  rcases List.mem_cons.mp committed with here | earlier
  · exact other here.symm
  · exact fresh earlier

theorem tx_authsLast {α : Type} {body : Program α} {past : Past} (uses : body.Uses Cmd.Inner)
    (fresh : ¬ Committed past) :
    Along AuthsLast (Branch (fun _ past => Committed past) fun _ past => ¬ Committed past)
      (DbService.tx body) past := by
  have undo : ∀ {past : Past} (error : Failure), ¬ Committed past →
      Along AuthsLast (Branch (fun _ past => Committed past) fun _ past => ¬ Committed past)
        ((perform .rollback).bind fun _ => (.raise error : Program α)) past := by
    intro past error fresh
    exact along_perform _ _ trivial (fun _ => uncommitted_cons (by simp) fresh)
      fun _ => uncommitted_cons (by simp) fresh
  apply along_rescue
  refine along_perform _ _ trivial (fun _ => ?_) ?_
  · apply along_bind
    refine along_post ?_ _ (along_keeps (fun past => ¬ Committed past ∧ Begun past) ?_ ?_ body uses
      ⟨uncommitted_cons (by simp) fresh, trivial⟩)
    · rintro (error | value) after ⟨fresh', begun⟩
      · exact undo error fresh'
      · refine along_perform _ _ begun (fun _ => List.mem_cons_self) ?_
        exact fun error => undo error (uncommitted_cons (by simp) fresh')
    · intro past cmd inner _
      unfold AuthsLast
      split
      · exact absurd trivial inner.1
      · exact absurd rfl (inner.2.2 _ _)
      · trivial
    · rintro past cmd answer ⟨plain, begins, _⟩ ⟨fresh', begun⟩
      refine ⟨uncommitted_cons ?_ fresh', (begun_plain plain begins).mpr begun⟩
      intro same
      obtain rfl : cmd = .commit := congrArg Sigma.fst same
      exact plain trivial
  · exact fun error => undo error (uncommitted_cons (by simp) fresh)

theorem connectTx_inner (user : AuthUser) (mac ip hid : Text) (label : Option Text) :
    (connectTx config user mac ip hid label).Uses Cmd.Inner := by
  have inner : ∀ {cmd : Cmd}, ¬ cmd.Closes → cmd ≠ .begin →
      (∀ mac minutes, cmd ≠ .ndsctl (.auth mac minutes)) → cmd.Inner :=
    fun plain begins auths => ⟨plain, begins, auths⟩
  have asks : ∀ query, Cmd.Inner (.query query) := fun _ => inner id (by simp) (by simp)
  have locks : ∀ table id, Cmd.Inner (.lock table id) := fun _ _ => inner id (by simp) (by simp)
  have updates : ∀ table id op, Cmd.Inner (.update table id op) :=
    fun _ _ _ => inner id (by simp) (by simp)
  have inserts : ∀ table row skip, Cmd.Inner (.insert table row skip) :=
    fun _ _ _ => inner id (by simp) (by simp)
  refine Prog.uses_bind (Prog.uses_perform (locks _ _)) fun _ => ?_
  refine Prog.uses_bind (uses_orThrow _ _) fun account => ?_
  refine Prog.uses_bind (uses_throwIf _ _) fun _ => ?_
  refine Prog.uses_bind (uses_lockActiveSessions _ asks (locks _)) fun rows => ?_
  refine Prog.uses_bind (uses_throwIf _ _) fun _ => ?_
  refine Prog.uses_bind (uses_upsertDevice _ _ _ asks (inserts _ · _) fun _ => updates _ _ _)
    fun _ => ?_
  exact Prog.uses_bind (uses_openOrRefresh _ _ _ _ _ asks (locks _) (fun _ => updates _ _ _)
    (fun _ => updates _ _ _) (inserts _ _ _)) fun _ => trivial

theorem connect_authsLast (user : AuthUser) (dto : ConnectDto) :
    Along AuthsLast FailsClean (SessionsService.connect config user dto) [] := by
  have nothing : ¬ Committed [] := List.not_mem_nil
  refine along_throwIf _ _ _ (fun _ => Or.inl nothing) fun _ => ?_
  refine along_perform _ _ trivial (fun recent => ?_)
    fun _ => Or.inl (uncommitted_cons (by simp) nothing)
  have fresh : ¬ Committed [⟨.query (.recentKick (toLowerCase dto.clientmac)
    config.kickCooldownSeconds), .ok recent⟩] := uncommitted_cons (by simp) nothing
  refine along_throwIf _ _ _ (fun _ => Or.inl fresh) fun _ => ?_
  apply along_bind
  refine along_post ?_ _ (tx_authsLast (connectTx_inner user _ _ _ _) fresh)
  rintro (error | timeoutSeconds) past reached
  · exact Or.inl reached
  · refine along_perform _ _ reached (fun _ => ?_) ?_
    · apply along_bind
      apply along_rescue
      exact ⟨trivial, fun answer => by cases answer <;> trivial⟩
    · exact fun error => Or.inr ⟨_, _, error, List.mem_cons_self⟩

theorem call_authsLast (call : Call) :
    Along (fun past cmd => (∃ user dto, call = .connect user dto) → AuthsLast past cmd)
      (fun outcome past => (∃ user dto, call = .connect user dto) → FailsClean outcome past)
      (call.program config) [] := by
  by_cases connects : ∃ user dto, call = .connect user dto
  · obtain ⟨user, dto, rfl⟩ := connects
    exact along_mono (fun _ _ rests _ => rests) (fun _ _ clean _ => clean) _
      (connect_authsLast user dto)
  · exact along_mono (fun _ _ _ some' => absurd some' connects)
      (fun _ _ _ some' => absurd some' connects) _ (uses_along _ (call_uses call))

end Order

section Runs
variable {config : Config} {pool : ServerPool} (reached : Reached config pool) {thread : Nat}
  {user : AuthUser} {dto : ConnectDto}
  (called : pool.state.arrivals[thread]? = some (.connect user dto))
include reached called

theorem connect_rests {pos : Nat} {event : Event} (found : pool.state.hist[pos]? = some event)
    (own : event.thread = thread) :
    AuthsLast (pastOf (pool.state.hist.take pos) thread) event.cmd := by
  obtain ⟨call, called', rests⟩ := reached_allowed call_authsLast reached pos event found
  rw [own] at called' rests
  exact rests ⟨user, dto, Option.some.inj (called'.symm.trans called)⟩

theorem landed_block {pos : Nat} {commit : Event} (found : pool.state.hist[pos]? = some commit)
    (own : commit.thread = thread) (lands : Lands commit.done) :
    ∃ (index : Nat) (acts : List Entry), pool.state.db.log[index]? = some (thread, acts) := by
  obtain ⟨answer, _, same⟩ := id lands
  have inside := connect_rests reached called found own
  rw [show commit.cmd = .commit from congrArg Sigma.fst same, ← own] at inside
  have block := reached_begun reached pos commit found inside lands
  exact ⟨commit.commits, commit.pending, own ▸ block⟩

theorem failed_committed (late : FailsLate pool.state thread) :
    ∃ (index : Nat) (acts : List Entry), pool.state.db.log[index]? = some (thread, acts) := by
  rcases late with failed | lost
  · obtain ⟨event, member, own, mac, minutes, error, same⟩ := failed
    obtain ⟨pos, found⟩ := List.mem_iff_getElem?.mp member
    have after := connect_rests reached called found own
    rw [show event.cmd = .ndsctl (.auth mac minutes) from congrArg Sigma.fst same] at after
    obtain ⟨earlier, commit, _, found', own', committed⟩ := mem_pastOf_take.mp after
    exact landed_block reached called found' own' ⟨_, .answered, committed⟩
  · obtain ⟨time, commits, acts, view, member⟩ := lost
    obtain ⟨pos, found⟩ := List.mem_iff_getElem?.mp member
    exact landed_block reached called found rfl ⟨_, .lost, rfl⟩

theorem clean_untouched {error : Failure}
    (thrown : pool.threads[thread]? = some (some (.raise error)))
    (clean : ¬ FailsLate pool.state thread) (index : Nat) (acts : List Entry) :
    pool.state.db.log[index]? ≠ some (thread, acts) := by
  intro block
  have ended := (reachable_orderly (server_records config) call_authsLast rfl (fun _ => rfl)
    reached).threads thread _ _ thrown called ⟨user, dto, rfl⟩
  obtain ⟨pos, answer, time, view, landed, committed⟩ :=
    (reached_chronicle reached).block index thread acts block
  cases landed with
  | lost => exact clean (Or.inr ⟨time, index, acts, view, List.mem_of_getElem? committed⟩)
  | answered =>
      rcases ended with uncommitted | ⟨mac, minutes, error, failed⟩
      · exact uncommitted (mem_pastOf.mpr ⟨_, List.mem_of_getElem? committed, rfl, rfl⟩)
      · obtain ⟨event, member, own, same⟩ := mem_pastOf.mp failed
        exact clean (Or.inl ⟨event, member, own, mac, minutes, error, same⟩)

theorem thrown_writes {error : Failure}
    (thrown : pool.threads[thread]? = some (some (.raise error))) {index : Nat}
    {acts : List Entry} (block : pool.state.db.log[index]? = some (thread, acts)) :
    ∃ now, ConnectActs (pool.state.basisAt index) user dto now acts := by
  have written : ConnectOutcome user dto thread (.error error) pool.state :=
    thrown_outcome reached called thrown
  obtain ⟨now, writes⟩ := written index acts block
  rw [committedBasis, storeAfter_take] at writes
  exact ⟨now, writes⟩

end Runs

section Blocks
variable {basis : Basis} {world : World} {user : AuthUser} {dto : ConnectDto} {now : Time}
  {acts : List Entry} {index : Nat}

theorem connectActs_active (writes : ConnectActs (world.basisAt index) user dto now acts) :
    ∃ id, ∃ s : SessionRow, replay acts (storeAfter world.db.log index) .sessions id = some s ∧
      s.status = .active ∧ s.userId = user.id ∧ s.deviceMac = toLowerCase dto.clientmac := by
  cases writes with
  | @refresh device id s devices row active mine same =>
      have stored : storeAfter world.db.log index .sessions id = some s := row
      have kept : replay device (storeAfter world.db.log index) .sessions id = some s := by
        rw [replay_table _ _ _ _ fun entry member => by
          simp [deviceActs_onDevices devices entry member], stored]
      refine ⟨id, SessionOp.run now (.refresh dto.clientip dto.hid) s, ?_, active, mine, same⟩
      rw [replay_append, replay_cons, replay_nil, alter_same, kept]
      rfl
  | @opened device ended id devices closed fresh =>
      refine ⟨id, newSession user.id (toLowerCase dto.clientmac) dto.clientip dto.hid now, ?_, rfl,
        rfl, rfl⟩
      rw [replay_append, replay_cons, replay_nil, create_same]

theorem connectActs_repeat (writes : ConnectActs (world.basisAt index) user dto now acts)
    (same : ∀ table id, replay acts (storeAfter world.db.log index) table id =
      storeAfter world.db.log index table id) :
    ∃ (key id : Nat) (d : DeviceRow) (s : SessionRow),
      acts = [alter .devices key (.relabel dto.label) now,
        alter .sessions id (.refresh dto.clientip dto.hid) now] ∧
      storeAfter world.db.log index .devices key = some d ∧ d.lastSeen = now ∧
        dto.label.or d.label = d.label ∧
      storeAfter world.db.log index .sessions id = some s ∧ s.lastTick = now ∧
        s.ip = dto.clientip ∧ s.openndsToken = some dto.hid := by
  cases writes with
  | @opened device ended id devices closed fresh =>
      have absent : storeAfter world.db.log index .sessions id = none := fresh
      have left := same .sessions id
      rw [replay_append, replay_cons, replay_nil, create_same, absent] at left
      cases left
  | @refresh device id s devices row active mine mac =>
      have stored : storeAfter world.db.log index .sessions id = some s := row
      cases devices with
      | @new key fresh =>
          have absent : storeAfter world.db.log index .devices key = none := fresh
          have left := same .devices key
          rw [List.singleton_append, replay_cons, replay_cons, replay_nil,
            alter_table _ _ _ _ _ _ _ (by simp), create_same, absent] at left
          cases left
      | @known key d known =>
          have listed : storeAfter world.db.log index .devices key = some d := known
          have device := same .devices key
          have session := same .sessions id
          rw [List.singleton_append, replay_cons, replay_cons, replay_nil,
            alter_table _ _ _ _ _ _ _ (by simp), alter_same, listed, Option.map_some,
            Option.some.injEq] at device
          rw [List.singleton_append, replay_cons, replay_cons, replay_nil, alter_same,
            alter_table _ _ _ _ _ _ _ (by simp), stored, Option.map_some,
            Option.some.injEq] at session
          refine ⟨key, id, d, s, rfl, listed, ?_, ?_, stored, ?_, ?_, ?_⟩
          · exact (congrArg DeviceRow.lastSeen device).symm
          · exact congrArg DeviceRow.label device
          · exact (congrArg SessionRow.lastTick session).symm
          · exact (congrArg SessionRow.ip session).symm
          · exact (congrArg SessionRow.openndsToken session).symm

end Blocks

theorem repeats_untouched {world : World} {thread : Nat} {dto : ConnectDto}
    (repeats : Repeats world thread dto) : Untouched world thread := by
  intro index acts block table id
  obtain ⟨key, id', d, s, now, rfl, listed, seen, label, stored, tick, ip, token⟩ :=
    repeats index acts block
  have device : Op.run .devices (.relabel dto.label) now d = d := by
    simp only [Op.run, DeviceOp.run]
    rw [label, ← seen]
  have session : Op.run .sessions (.refresh dto.clientip dto.hid) now s = s := by
    simp only [Op.run, SessionOp.run]
    rw [← ip, ← token, ← tick]
  rw [storeAfter_succ _ _ _ block]
  have first : RowLock.runEntry Act.run (storeAfter world.db.log index)
      (alter .devices key (.relabel dto.label) now) = storeAfter world.db.log index := by
    refine RowLock.runEntry_same _ _ _ ((alter_same _ _ _ _ _).trans ?_)
    rw [listed, Option.map_some, device]
    exact listed.symm
  rw [replay_cons, replay_cons, replay_nil, first]
  refine congrFun (congrFun (RowLock.runEntry_same _ _ _ ((alter_same _ _ _ _ _).trans ?_)) table)
    id
  rw [stored, Option.map_some, session]
  exact stored.symm

/-- A connect that threw has left users, devices and sessions as they were in
exactly the cases in which neither `ndsctl auth` nor the answer to a COMMIT that
was carried out is what failed, or the call was a reconnect that wrote what was
there; where one of them is, the customer's session on the device is left active. -/
theorem failing_connect_iff (config : Config) (pool : ServerPool) (reached : Reached config pool)
    (thread : Nat) (user : AuthUser) (dto : ConnectDto) (error : Failure)
    (called : pool.state.arrivals[thread]? = some (.connect user dto))
    (thrown : pool.threads[thread]? = some (some (.raise error))) :
    (Untouched pool.state thread ↔
      (FailsLate pool.state thread → Repeats pool.state thread dto)) ∧
    (FailsLate pool.state thread → ∃ (index : Nat) (acts : List Entry),
      pool.state.db.log[index]? = some (thread, acts) ∧
        ∃ id, ∃ s : SessionRow, storeAfter pool.state.db.log (index + 1) .sessions id = some s ∧
          s.status = .active ∧ s.userId = user.id ∧ s.deviceMac = toLowerCase dto.clientmac) := by
  refine ⟨⟨?_, ?_⟩, ?_⟩
  · intro untouched _ index acts block
    obtain ⟨now, writes⟩ := thrown_writes reached called thrown block
    have left := untouched index acts block
    rw [storeAfter_succ _ _ _ block] at left
    obtain ⟨key, id, d, s, same⟩ := connectActs_repeat writes left
    exact ⟨key, id, d, s, now, same⟩
  · intro repeats
    by_cases late : FailsLate pool.state thread
    · exact repeats_untouched (repeats late)
    · intro index acts block
      exact absurd block (clean_untouched reached called thrown late index acts)
  · intro late
    obtain ⟨index, acts, block⟩ := failed_committed reached called late
    obtain ⟨now, writes⟩ := thrown_writes reached called thrown block
    obtain ⟨id, s, active⟩ := connectActs_active writes
    rw [← storeAfter_succ _ _ _ block] at active
    exact ⟨index, acts, block, id, s, active⟩

def failsAuth (event : Event) : Bool :=
  match event.done with
  | ⟨.ndsctl (.auth ..), .error _⟩ => true
  | _ => false

def sessionAfter (pool : ServerPool) (commits id : Nat) : Option (Nat × SessionStatus) :=
  (storeAfter pool.state.db.log commits .sessions id).map fun s : SessionRow => (s.userId, s.status)

def penniless : List (Move Choice Call Ambient) :=
  opening ++ [.start (.connect guest phone)] ++ steps 1 4

theorem failing_connect_penniless : ∃ (pool : ServerPool) (error : Failure), Reached shop pool ∧
    pool.threads[1]? = some (some (.raise error)) ∧ Untouched pool.state 1 := by
  obtain ⟨pool, reached, arrivals, seen⟩ := play_shows shop penniless
    (fun pool => (answerOf pool 1, pool.state.hist.any failsAuth,
      pool.state.hist.any (Event.loses 1)))
    (some (.error (.forbidden "No time left — redeem a voucher or request a plan")), false, false)
    (by decide +kernel)
  simp only [Prod.mk.injEq] at seen
  obtain ⟨answer, clean, kept⟩ := seen
  have thrown := answerOf_error answer
  refine ⟨pool, _, reached, thrown, ?_⟩
  refine (failing_connect_iff shop pool reached 1 guest phone _ (by rw [arrivals]; rfl)
    thrown).1.mpr ?_
  rintro (⟨event, member, _, mac, minutes, error, same⟩ | lost)
  · refine absurd ?_ (List.any_eq_false.mp clean event member)
    rw [failsAuth, same]
  · rw [lost_iff, kept] at lost
    cases lost

def companion : AuthUser := ⟨3, ['2'], .customer⟩

/-- The companion is online with the phone, which then leaves the Wi-Fi while
the guest connects it. -/
def lostClient : List (Move Choice Call Ambient) :=
  .start (.seedAdmin staff.username ['s', 'e', 'c', 'r', 'e', 't'] 2) :: steps 0 10 ++
    [.start (.grant staff 2 anHour)] ++ steps 1 4 ++
    [.start (.grant staff 3 anHour)] ++ steps 2 4 ++
    [.ambient (.clients [(phoneMac, ⟨some phoneMac, some phoneIp, some preauthenticated⟩)]),
      .start (.connect companion phone)] ++ steps 3 10 ++
    [.ambient (.clients []), .start (.connect guest phone)] ++ steps 4 11

/-- The guest's connect throws, has ended the companion's session and leaves an
active one of the guest. -/
theorem failed_auth_leaves_session : ∃ pool, Reached shop pool ∧
    pool.state.arrivals[4]? = some (.connect guest phone) ∧
    pool.threads[4]? = some (some (.raise .process)) ∧
    sessionAfter pool 5 1 = some (3, .active) ∧ sessionAfter pool 5 2 = none ∧
    sessionAfter pool 6 1 = some (3, .ended) ∧ sessionAfter pool 6 2 = some (2, .active) ∧
    ¬ Untouched pool.state 4 := by
  obtain ⟨pool, reached, arrivals, seen⟩ := play_shows shop lostClient
    (fun pool => (answerOf pool 4, (pool.state.db.log[5]?).map (·.1) == some 4 &&
      sessionAfter pool 5 1 == some (3, .active) && sessionAfter pool 5 2 == none &&
      sessionAfter pool 6 1 == some (3, .ended) && sessionAfter pool 6 2 == some (2, .active)))
    (some (.error .process), true) (by decide +kernel)
  obtain ⟨answer, rows⟩ := Prod.mk.inj seen
  simp only [Bool.and_eq_true, beq_iff_eq] at rows
  obtain ⟨⟨⟨⟨block, theirs⟩, none'⟩, ended⟩, mine⟩ := rows
  refine ⟨pool, reached, by rw [arrivals]; rfl, answerOf_error answer, theirs, none',
    ended, mine, ?_⟩
  intro untouched
  obtain ⟨⟨_, acts⟩, found, rfl⟩ := Option.map_eq_some_iff.mp block
  have same := untouched 5 acts found .sessions 2
  rw [sessionAfter, same, ← sessionAfter, none'] at mine
  cases mine

end Cybera
