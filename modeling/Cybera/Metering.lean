import Cybera.Balance

/-!
What a session has used against the time it has been open. A settlement moves
last_tick and pays for it, up to half a second of rounding; a connect on a
session that is already active moves last_tick and pays nothing.
-/

namespace Cybera

open Interleaving

def settleOf : Entry → Option Nat
  | ⟨.sessions, session, .update (.settle _) _⟩ => some session
  | _ => none

def settlements (session : Nat) (acts : List Entry) : Nat :=
  (acts.filterMap settleOf).count session

structure Charge where
  user : Nat
  session : Nat
  elapsed : Nat

def chargeOf : Entry → Option Charge
  | ⟨.users, user, .update (.charge elapsed session) _⟩ => some ⟨user, session, elapsed⟩
  | _ => none

/-- What the acts take from the user for the session. -/
def charged (user session : Nat) (acts : List Entry) : Nat :=
  (((acts.filterMap chargeOf).filter fun charge =>
    charge.user = user ∧ charge.session = session).map (·.elapsed)).sum

/-- `last_tick` moved by no more than was added to `seconds_consumed`, give or
take the rounding, and the owner was charged exactly that. -/
structure Paid (session : Nat) (before after : SessionRow) (acts : List Entry) : Prop where
  lag : after.lastTick - before.lastTick ≤
    1000 * ((after.secondsConsumed : Int) - before.secondsConsumed) + 500 * settlements session acts
  balance : before.secondsConsumed + charged before.userId session acts = after.secondsConsumed

/-- A connect that refreshes an active session finds nothing left to settle: its
transaction began no later than the session's `last_tick`. -/
def NothingSkipped (world : World) : Prop :=
  ∀ index thread acts session ip token now, ∀ s : SessionRow,
    world.db.log[index]? = some (thread, acts) →
    alter .sessions session (.refresh ip token) now ∈ acts →
    storeAfter world.db.log index .sessions session = some s → now ≤ s.lastTick

/-- No online time is forgiven: in every transaction and since the start of
every active session. -/
structure Metered (world : World) : Prop where
  steps : ∀ index thread acts session, ∀ before after : SessionRow,
    world.db.log[index]? = some (thread, acts) →
    storeAfter world.db.log index .sessions session = some before →
    storeAfter world.db.log (index + 1) .sessions session = some after →
      Paid session before after acts
  covers : ∀ session, ∀ s : SessionRow, world.db.store .sessions session = some s →
    s.status = .active →
      world.clock - s.startedAt ≤ 1000 * (s.secondsConsumed : Int) + (world.clock - s.lastTick) +
        500 * settlements session (world.db.log.flatMap (·.2))

section Acts
variable {session user : Nat} {before rest acts : List Entry}

theorem settlements_append : settlements session (before ++ rest) =
    settlements session before + settlements session rest := by
  simp [settlements]

theorem charged_append : charged user session (before ++ rest) =
    charged user session before + charged user session rest := by
  simp [charged]

theorem unmetered_free (unmetered : ∀ entry ∈ acts, Unmetered entry) :
    settlements session acts = 0 ∧ charged user session acts = 0 := by
  have settles : ∀ entry ∈ acts, settleOf entry = none := by
    intro entry member
    obtain ⟨_, other | ⟨id, op, now, rfl, notSettle⟩⟩ := unmetered entry member
    · obtain ⟨table, id, act⟩ := entry
      cases table <;> first | rfl | exact absurd rfl other
    · cases op with
      | settle elapsed => exact absurd rfl (notSettle elapsed)
      | refresh ip token => rfl
      | finish status => rfl
  have charges : ∀ entry ∈ acts, chargeOf entry = none := by
    intro entry member
    have other := (unmetered entry member).1
    obtain ⟨table, id, act⟩ := entry
    cases table <;> first | rfl | exact absurd rfl other
  have settled : acts.filterMap settleOf = [] := List.filterMap_eq_nil_iff.mpr settles
  have taken : acts.filterMap chargeOf = [] := List.filterMap_eq_nil_iff.mpr charges
  simp [settlements, charged, settled, taken]

theorem elapsed_covers (date lastTick : Int) :
    date - lastTick ≤ 1000 * (elapsedSeconds date lastTick : Int) + 500 := by
  unfold elapsedSeconds
  omega

end Acts

section Rows
variable {session : Nat} {first middle last : SessionRow} {before rest acts : List Entry}

theorem paid_append (owner : middle.userId = first.userId) (left : Paid session first middle before)
    (right : Paid session middle last rest) : Paid session first last (before ++ rest) := by
  obtain ⟨lag, balance⟩ := left
  obtain ⟨lag', balance'⟩ := right
  rw [owner] at balance'
  refine ⟨?_, ?_⟩
  · rw [settlements_append]
    push_cast
    linarith
  · rw [charged_append]
    omega

theorem paid_unmetered (unmetered : ∀ entry ∈ acts, Unmetered entry)
    (tick : last.lastTick ≤ first.lastTick) (same : last.secondsConsumed = first.secondsConsumed) :
    Paid session first last acts := by
  have free : settlements session acts = 0 ∧ charged first.userId session acts = 0 :=
    unmetered_free unmetered
  refine ⟨?_, by rw [free.2, same, Nat.add_zero]⟩
  rw [free.1, same]
  simpa using tick

end Rows

section Blocks
variable {config : Config} {world : World} {index thread session : Nat} {call : Call}
  {acts : List Entry} {s : SessionRow}

theorem tidy_kept (tidy : Tidy acts) {rows : Store} (present : rows .sessions session = some s) :
    ∃ after : SessionRow, replay acts rows .sessions session = some after ∧
      after.userId = s.userId ∧ after.lastTick = s.lastTick ∧
        after.secondsConsumed = s.secondsConsumed := by
  induction acts generalizing rows s with
  | nil => exact ⟨s, present, rfl, rfl, rfl⟩
  | cons entry rest ih =>
      have others : Tidy rest := fun other member => tidy other (List.mem_cons_of_mem entry member)
      rw [replay_cons]
      obtain away | ⟨id, status, now, rfl, _⟩ := tidy entry (by simp)
      · refine ih others ?_
        rwa [RowLock.runEntry_other _ _ _ _ _ fun same => away same.1.symm]
      · by_cases same : session = id
        · subst same
          exact ih others (s := SessionOp.run now (.finish status) s) (by simp [present, Op.run])
        · exact ih others (by simpa [same] using present)

theorem tidy_unmetered (tidy : Tidy acts) (users : ∀ entry ∈ acts, entry.table ≠ .users) :
    ∀ entry ∈ acts, Unmetered entry := by
  intro entry member
  refine ⟨users entry member, ?_⟩
  obtain away | ⟨id, status, now, rfl, _⟩ := tidy entry member
  · exact Or.inl away
  · exact Or.inr ⟨id, _, now, rfl, by simp⟩

theorem tidy_paid (tidy : Tidy acts) (users : ∀ entry ∈ acts, entry.table ≠ .users) {rows : Store}
    (present : rows .sessions session = some s) :
    ∃ after : SessionRow, replay acts rows .sessions session = some after ∧
      after.userId = s.userId ∧ Paid session s after acts := by
  obtain ⟨after, left, owner, tick, same⟩ := tidy_kept tidy present
  exact ⟨after, left, owner, paid_unmetered (tidy_unmetered tidy users) (le_of_eq tick) same⟩

theorem lawful_unpaid {basis : Basis} (lawful : Lawful config basis thread call acts)
    (sessions : TableName.sessions ∉ call.tables) (user : Nat) :
    settlements session acts = 0 ∧ charged user session acts = 0 := by
  by_cases users : TableName.users ∈ call.tables
  · cases lawful with
    | nothing => exact ⟨rfl, rfl⟩
    | redeem | approve | reject | grant | register | seedAdmin | syncAdmin => exact ⟨rfl, rfl⟩
    | tick => simp [Call.tables] at sessions
    | seedClients seeded =>
        have nothing : ∀ entry ∈ acts, settleOf entry = none ∧ chargeOf entry = none := by
          intro entry member
          obtain ⟨id, number, _, _, _, rfl⟩ := seeded entry member
          exact ⟨rfl, rfl⟩
        have settled : acts.filterMap settleOf = [] :=
          List.filterMap_eq_nil_iff.mpr fun entry member => (nothing entry member).1
        have taken : acts.filterMap chargeOf = [] :=
          List.filterMap_eq_nil_iff.mpr fun entry member => (nothing entry member).2
        simp [settlements, charged, settled, taken]
    | _ => simp [Call.tables] at users
  · refine unmetered_free fun entry member => ?_
    have listed := lawful_tables lawful entry member
    exact ⟨fun same => users (same ▸ listed), Or.inl fun same => sessions (same ▸ listed)⟩

theorem pair_settlements (id elapsed user : Nat) (now : Time) (device : List Entry)
    (devices : OnDevices device) : settlements session (alter .sessions id (.settle elapsed) now ::
      alter .users user (.charge elapsed id) now :: device) = if id = session then 1 else 0 := by
  have free : settlements session device = 0 ∧ charged user session device = 0 :=
    unmetered_free (devices_unmetered devices)
  have apart : settlements session ([alter .sessions id (.settle elapsed) now,
      alter .users user (.charge elapsed id) now] ++ device) = _ := settlements_append
  rw [free.1] at apart
  refine apart.trans ?_
  by_cases same : id = session <;>
    simp [settlements, List.filterMap_cons, settleOf, alter, same]

theorem pair_charged (id elapsed user owner : Nat) (now : Time) (device : List Entry)
    (devices : OnDevices device) :
    charged owner session (alter .sessions id (.settle elapsed) now ::
      alter .users user (.charge elapsed id) now :: device) =
        if user = owner ∧ id = session then elapsed else 0 := by
  have free : settlements session device = 0 ∧ charged owner session device = 0 :=
    unmetered_free (devices_unmetered devices)
  have apart : charged owner session ([alter .sessions id (.settle elapsed) now,
      alter .users user (.charge elapsed id) now] ++ device) = _ := charged_append
  rw [free.2] at apart
  refine apart.trans ?_
  by_cases same : user = owner ∧ id = session <;>
    simp [charged, List.filterMap_cons, chargeOf, alter, same]

theorem settlement_paid {now date : Int} (ordered : now ≤ date)
    (pass : Settled (world.basisAt index) thread now date acts)
    (present : storeAfter world.db.log index .sessions session = some s) :
    ∃ after : SessionRow, replay acts (storeAfter world.db.log index) .sessions session =
      some after ∧ after.userId = s.userId ∧ Paid session s after acts := by
  have ends : ∀ (acts : List Entry) (id : Nat) (middle : SessionRow),
      replay acts (storeAfter world.db.log index) .sessions session = some middle →
      middle.userId = s.userId → Paid session s middle acts →
      ∃ after : SessionRow, replay (acts ++ [alter .sessions id (.finish .ended) now])
        (storeAfter world.db.log index) .sessions session = some after ∧
          after.userId = s.userId ∧
          Paid session s after (acts ++ [alter .sessions id (.finish .ended) now]) := by
    intro acts id middle found owner paid
    have tidy : Tidy [alter .sessions id (.finish .ended) now] := by
      intro entry member
      exact Or.inr ⟨id, .ended, now, List.mem_singleton.mp member, by simp⟩
    have users : ∀ entry ∈ [alter .sessions id (.finish .ended) now], entry.table ≠ .users := by
      simp [alter]
    obtain ⟨after, left, owner', paid'⟩ := tidy_paid tidy users found
    exact ⟨after, by rw [replay_append, left], owner'.trans owner, paid_append owner paid paid'⟩
  induction pass with
  | nothing => exact ⟨s, present, rfl, paid_unmetered (by simp) (le_refl _) rfl⟩
  | @settled earlier device id row account before held active owner positive devices ih =>
      obtain ⟨middle, found, mine, lag, balance⟩ := ih
      by_cases same : session = id
      · subst same
        have this : storeAfter world.db.log index .sessions session = some row := held
        rw [present, Option.some.injEq] at this
        subst this
        refine ⟨SessionOp.run now (.settle (elapsedSeconds date s.lastTick)) middle, ?_, mine,
          ?_, ?_⟩
        · rw [replay_append, replay_cons, replay_cons,
            replay_table _ _ _ device fun entry member => by simp [devices entry member]]
          simp [found, Op.run]
        · rw [settlements_append, pair_settlements _ _ _ _ _ devices, if_pos rfl]
          have covers := elapsed_covers date s.lastTick
          have more : s.secondsConsumed ≤ middle.secondsConsumed := balance ▸ Nat.le_add_right _ _
          have more' : (s.secondsConsumed : Int) ≤ middle.secondsConsumed := by exact_mod_cast more
          simp only [SessionOp.run]
          push_cast
          have counted : (0 : Int) ≤ settlements session earlier := Int.natCast_nonneg _
          linarith
        · rw [charged_append, pair_charged _ _ _ _ _ _ devices, if_pos ⟨rfl, rfl⟩, ← Nat.add_assoc,
            balance]
          rfl
      · refine ⟨middle, ?_, mine, ?_, ?_⟩
        · rw [replay_append, replay_cons, replay_cons,
            replay_table _ _ _ device fun entry member => by simp [devices entry member]]
          simp [found, same]
        · rw [settlements_append, pair_settlements _ _ _ _ _ devices, if_neg (Ne.symm same)]
          exact lag
        · rw [charged_append, pair_charged _ _ _ _ _ _ devices,
            if_neg fun both => same both.2.symm]
          exact balance
  | @vanished earlier id row before held active late ih =>
      obtain ⟨middle, found, mine, paid⟩ := ih
      exact ends earlier id middle found mine paid
  | @exhausted earlier pending id read row time view found' before asked member ih =>
      obtain ⟨middle, found, mine, paid⟩ := ih
      exact ends earlier id middle found mine paid

/-- A block pays for the time by which it moves a session, unless it is a
connect that skips some. -/
theorem block_paid (lawful : Lawful config (world.basisAt index) thread call acts)
    (present : storeAfter world.db.log index .sessions session = some s)
    (unskipped : ∀ ip token now, alter .sessions session (.refresh ip token) now ∈ acts →
      now ≤ s.lastTick) :
    ∃ after : SessionRow, replay acts (storeAfter world.db.log index) .sessions session =
      some after ∧ Paid session s after acts := by
  by_cases sessions : TableName.sessions ∈ call.tables
  · have nothing : Paid session s s [] :=
      paid_unmetered (by simp) (le_refl _) rfl
    cases lawful with
    | nothing => exact ⟨s, present, nothing⟩
    | @refresh user dto id row account now device devices owner paid found active =>
        have unmetered : ∀ entry ∈ device ++
            [alter .sessions id (.refresh dto.clientip dto.hid) now], Unmetered entry := by
          intro entry member
          rcases List.mem_append.mp member with other | latest
          · exact devices_unmetered devices entry other
          · rw [List.mem_singleton] at latest
            subst latest
            exact ⟨by simp [alter], Or.inr ⟨id, _, now, rfl, by simp⟩⟩
        have kept := replay_table (storeAfter world.db.log index) .sessions session device
          fun entry member => by simp [devices entry member]
        by_cases same : session = id
        · subst same
          refine ⟨SessionOp.run now (.refresh dto.clientip dto.hid) s, ?_,
            paid_unmetered unmetered (unskipped dto.clientip dto.hid now (by simp)) rfl⟩
          rw [replay_append]
          simp [kept, present, Op.run]
        · refine ⟨s, ?_, paid_unmetered unmetered (le_refl _) rfl⟩
          rw [replay_append]
          simp [kept, present, same]
    | @opened user dto id account now device ended devices owner paid closed fresh =>
        have absent : storeAfter world.db.log index .sessions id = none := fresh
        have different : session ≠ id := by
          rintro rfl
          simp [present] at absent
        have tidy := tidy_append (onDevices_tidy devices) (finishes_tidy (by simp) closed)
        have users : ∀ entry ∈ device ++ ended, entry.table ≠ .users := by
          intro entry member
          rcases List.mem_append.mp member with other | finished
          · simp [devices entry other]
          · obtain ⟨key, row, rfl, _⟩ := closed entry finished
            simp [alter]
        obtain ⟨after, left, _, paid'⟩ := tidy_paid tidy users present
        refine ⟨after, by rw [replay_append]; simp [different, left], ?_⟩
        obtain ⟨lag, balance⟩ := paid'
        refine ⟨?_, ?_⟩
        · rw [settlements_append]
          exact lag
        · rw [charged_append]
          exact balance
    | kick closed =>
        have users : ∀ entry ∈ acts, entry.table ≠ .users := by
          intro entry member
          obtain ⟨key, row, rfl, _⟩ := closed entry member
          simp [alter]
        obtain ⟨after, left, _, paid⟩ := tidy_paid (finishes_tidy (by simp) closed) users present
        exact ⟨after, left, paid⟩
    | tick ordered pass =>
        obtain ⟨after, left, _, paid⟩ := settlement_paid ordered pass present
        exact ⟨after, left, paid⟩
    | _ => simp [Call.tables] at sessions
  · have free : settlements session acts = 0 ∧ charged s.userId session acts = 0 :=
      lawful_unpaid lawful sessions s.userId
    refine ⟨s, (untouched_table lawful sessions _ _).trans present, ?_, ?_⟩
    · simp [free.1]
    · rw [free.2, Nat.add_zero]

theorem session_made (lawful : Lawful config (world.basisAt index) thread call acts)
    (absent : storeAfter world.db.log index .sessions session = none)
    (made : replay acts (storeAfter world.db.log index) .sessions session = some s) :
    s.lastTick = s.startedAt := by
  have altered : AltersAt .sessions session acts →
      s.lastTick = s.startedAt := by
    intro alters
    rw [replay_absent _ .sessions session acts alters absent] at made
    cases made
  by_cases sessions : TableName.sessions ∈ call.tables
  · have finished : ∀ {acts : List Entry} {mac : Text} {status : SessionStatus} {now : Time},
        Finishes (world.basisAt index) mac status now acts → AltersAt .sessions session acts := by
      intro acts mac status now closed entry member _ key
      obtain ⟨id, row, rfl, _⟩ := closed entry member
      cases key
      exact ⟨_, _, rfl⟩
    cases lawful with
    | nothing => exact altered (by simp [AltersAt])
    | refresh devices =>
        refine altered fun entry member table key => ?_
        rcases List.mem_append.mp member with other | latest
        · simp [devices entry other] at table
        · rw [List.mem_singleton] at latest
          subst latest
          cases key
          exact ⟨_, _, rfl⟩
    | @opened user dto id account now device ended devices owner paid closed fresh =>
        have before : AltersAt .sessions session (device ++ ended) := by
          intro entry member table key
          rcases List.mem_append.mp member with other | ended'
          · simp [devices entry other] at table
          · exact finished closed entry ended' table key
        rw [replay_append] at made
        by_cases same : session = id
        · subst same
          simp only [replay_cons, replay_nil, create_same, Option.some.injEq] at made
          rw [← made]
          rfl
        · simp only [replay_cons, replay_nil, create_key _ _ _ _ _ same] at made
          rw [replay_absent _ .sessions session _ before absent] at made
          cases made
    | kick closed => exact altered (finished closed)
    | tick ordered pass => exact altered (settled_alters pass .sessions session (by simp))
    | _ => simp [Call.tables] at sessions
  · rw [untouched_table lawful sessions, absent] at made
    cases made

theorem refresh_block (lawful : Lawful config (world.basisAt index) thread call acts)
    {ip token : Text} {now : Time}
    (member : alter .sessions session (.refresh ip token) now ∈ acts) :
    ∃ device, OnDevices device ∧
      acts = device ++ [alter .sessions session (.refresh ip token) now] := by
  have listed := lawful_tables lawful _ member
  have unlisted : ∀ {device : List Entry}, OnDevices device →
      alter .sessions session (.refresh ip token) now ∉ device := by
    intro device devices other
    have table := devices _ other
    simp [alter] at table
  have unfinished : ∀ {mac : Text} {status : SessionStatus} {now' : Time} {acts : List Entry},
      Finishes (world.basisAt index) mac status now' acts →
      alter .sessions session (.refresh ip token) now ∉ acts := by
    intro mac status now' acts closed other
    obtain ⟨id, row, same, _⟩ := closed _ other
    simp [alter] at same
  cases lawful with
  | nothing => simp at member
  | @refresh user dto id row account now' device devices =>
      rcases List.mem_append.mp member with other | latest
      · exact absurd other (unlisted devices)
      · exact ⟨device, devices, by rw [List.mem_singleton.mp latest]⟩
  | opened devices owner paid closed fresh =>
      simp only [List.append_assoc, List.mem_append, List.mem_singleton] at member
      obtain other | ended | made := member
      · exact absurd other (unlisted devices)
      · exact absurd ended (unfinished closed)
      · simp [alter, create] at made
  | kick closed => exact absurd member (unfinished closed)
  | tick ordered pass =>
      obtain device | ⟨id, elapsed, same⟩ | ⟨id, same⟩ | ⟨user, elapsed, id, same⟩ :=
        settled_entries pass _ member
      · simp [alter] at device
      · simp [alter] at same
      · simp [alter] at same
      · simp [alter] at same
  | _ => simp [Call.tables, alter] at listed

end Blocks

section Runs
variable {config : Config} {pool : ServerPool}

theorem session_covered (reached : Reached config pool) (unskipped : NothingSkipped pool.state)
    {commits session : Nat} {s : SessionRow} (bound : commits ≤ pool.state.db.log.length)
    (present : storeAfter pool.state.db.log commits .sessions session = some s) :
    s.lastTick - s.startedAt ≤ 1000 * (s.secondsConsumed : Int) +
      500 * settlements session ((pool.state.db.log.take commits).flatMap (·.2)) := by
  refine log_induction (reached_legit reached) (fun commits => ∀ s : SessionRow,
    storeAfter pool.state.db.log commits .sessions session = some s →
      s.lastTick - s.startedAt ≤ 1000 * (s.secondsConsumed : Int) +
        500 * settlements session ((pool.state.db.log.take commits).flatMap (·.2)))
    ?_ ?_ commits bound s present
  · intro s present
    cases present
  intro index thread acts call found _ lawful next ih s present
  have grown : (pool.state.db.log.take (index + 1)).flatMap (·.2) =
      (pool.state.db.log.take index).flatMap (·.2) ++ acts := by
    simp [List.take_add_one, found]
  rw [grown, settlements_append]
  push_cast
  rw [next] at present
  cases row : storeAfter pool.state.db.log index .sessions session with
  | none =>
      have fresh := session_made lawful row present
      rw [fresh, sub_self]
      positivity
  | some before =>
      have earlier := ih before row
      obtain ⟨after, left, lag, balance⟩ := block_paid lawful row
        fun ip token now member => unskipped index thread acts session ip token now before found
          member row
      obtain ⟨after', left', same⟩ := replay_same _ .sessions session acts
        (lawful_alters lawful (by simp) (by simp) (by simp [row])) row
      rw [present, Option.some.injEq] at left left'
      subst left left'
      rw [same.2.2]
      linarith

/-- No time is forgiven in exactly the runs in which no connect finds unsettled
time on the session that it refreshes. -/
theorem metered_iff (config : Config) (pool : ServerPool) (reached : Reached config pool) :
    Metered pool.state ↔ NothingSkipped pool.state := by
  have legit := reached_legit reached
  refine ⟨?_, ?_⟩
  · intro metered index thread acts session ip token now s found member row
    obtain ⟨call, _, lawful⟩ := block_lawful legit found
    obtain ⟨device, devices, rfl⟩ := refresh_block lawful member
    have left : storeAfter pool.state.db.log (index + 1) .sessions session =
        some (SessionOp.run now (.refresh ip token) s) := by
      rw [storeAfter_succ _ _ _ found, replay_append]
      simp only [replay_cons, replay_nil, alter_same]
      rw [replay_table _ _ _ device fun entry member => by simp [devices entry member], row]
      rfl
    have lag := (metered.steps index thread _ session s _ found row left).lag
    have free : settlements session device = 0 ∧ charged s.userId session device = 0 :=
      unmetered_free (devices_unmetered devices)
    have none' : settlements session
        (device ++ [alter .sessions session (.refresh ip token) now]) = 0 := by
      rw [settlements_append, free.1]
      rfl
    rw [none'] at lag
    simpa [SessionOp.run] using lag
  · intro unskipped
    refine ⟨?_, ?_⟩
    · intro index thread acts session before after found row left
      obtain ⟨call, _, lawful⟩ := block_lawful legit found
      obtain ⟨after', left', paid⟩ := block_paid lawful row
        fun ip token now member => unskipped index thread acts session ip token now before found
          member row
      rw [storeAfter_succ _ _ _ found, left', Option.some.injEq] at left
      exact left ▸ paid
    · intro session s present _
      rw [(reached_ready reached).recorded] at present
      have covered := session_covered reached unskipped (Nat.le_refl _) present
      rw [List.take_length] at covered
      linarith

end Runs

def refreshes (entry : Entry) : Bool :=
  match entry with
  | ⟨.sessions, _, .update (.refresh ..) _⟩ => true
  | _ => false

/-- The act of the block at `index` is no refresh that skips unsettled time. -/
def keepsTime (log : List Block) (index : Nat) (entry : Entry) : Bool :=
  match entry with
  | ⟨.sessions, session, .update (.refresh ..) now⟩ =>
      match storeAfter log index .sessions session with
      | some (s : SessionRow) => decide (now ≤ s.lastTick)
      | none => true
  | _ => true

def reconnectedAtTick : List (Move Choice Call Ambient) :=
  tenSeconds ++ [.start (.connect guest phone)] ++ steps 4 12

theorem metered_ten : ∃ pool, Reached shop pool ∧
    (pool.state.db.log.any fun block => block.2.any refreshes) = true ∧ Metered pool.state := by
  obtain ⟨pool, reached, _, seen⟩ := play_shows shop reconnectedAtTick
    (fun pool => (pool.state.db.log.any fun block => block.2.any refreshes,
      (List.range pool.state.db.log.length).all fun index =>
        ((pool.state.db.log[index]?).map Prod.snd).all fun acts =>
          acts.all (keepsTime pool.state.db.log index)))
    (true, true) (by decide +kernel)
  obtain ⟨refreshed, kept⟩ := Prod.mk.inj seen
  refine ⟨pool, reached, refreshed, (metered_iff shop pool reached).mpr ?_⟩
  intro index thread acts session ip token now s found member row
  have bound := (List.getElem?_eq_some_iff.mp found).1
  have block := List.all_eq_true.mp kept index (List.mem_range.mpr bound)
  rw [found] at block
  have act := List.all_eq_true.mp block _ member
  simpa only [keepsTime, alter, row, decide_eq_true_eq] using act

def sessionNow (pool : ServerPool) (id : Nat) : Option (SessionStatus × Nat × Time × Time) :=
  (pool.state.db.store .sessions id).map fun s : SessionRow =>
    (s.status, s.secondsConsumed, s.startedAt, s.lastTick)

/-- The phone goes online, connects again after 14 seconds, and is settled after 15. -/
def reconnection : List (Move Choice Call Ambient) :=
  arrival ++ [.start (.connect guest phone)] ++ steps 2 10 ++ [.ambient (.elapse 14000),
    .start (.connect guest phone)] ++ steps 3 12 ++ [.ambient (.elapse 1000), .start .tick] ++
    steps 4 13

/-- Of 15 seconds online, one is consumed and nothing is left to settle. -/
theorem reconnection_forgives : ∃ pool, Reached shop pool ∧
    sessionNow pool 1 = some (.active, 1, 0, 15000) ∧ pool.state.clock = 15000 ∧
    isAuthed phoneMac pool.state.clients = true ∧ pool.state.hist.any deauths = false ∧
    settlements 1 (pool.state.db.log.flatMap (·.2)) = 1 ∧
    creditedTo (credits pool.state.db.log) 2 = 3600 ∧ balanceOf pool.state.db.store 2 = 3599 ∧
    ¬ Metered pool.state := by
  obtain ⟨pool, reached, _, seen⟩ := play_shows shop reconnection
    (fun pool => sessionNow pool 1 == some (.active, 1, 0, 15000) && pool.state.clock == 15000 &&
      isAuthed phoneMac pool.state.clients && !pool.state.hist.any deauths &&
      settlements 1 (pool.state.db.log.flatMap (·.2)) == 1 &&
      creditedTo (credits pool.state.db.log) 2 == 3600 && balanceOf pool.state.db.store 2 == 3599)
    true (by decide +kernel)
  simp only [Bool.and_eq_true, beq_iff_eq, Bool.not_eq_true'] at seen
  obtain ⟨⟨⟨⟨⟨⟨session, clock⟩, online⟩, undisturbed⟩, settled⟩, credited⟩, balance⟩ := seen
  refine ⟨pool, reached, session, clock, online, undisturbed, settled, credited, balance, ?_⟩
  intro metered
  obtain ⟨s, present, same⟩ := Option.map_eq_some_iff.mp session
  simp only [Prod.mk.injEq] at same
  obtain ⟨active, consumed, startedAt, lastTick⟩ := same
  have covered := metered.covers 1 s present active
  rw [clock, consumed, startedAt, lastTick, settled] at covered
  exact absurd covered (by decide)

end Cybera
