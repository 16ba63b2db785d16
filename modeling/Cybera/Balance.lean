import Cybera.History

/-!
The balance as a ledger: what was credited less what was consumed, exactly, until
a settlement is cut off at zero. Sessions and balances move in pairs inside one
transaction, so the equation holds between transactions and not between acts.
-/

namespace Cybera

open Interleaving

def balanceOf (rows : Store) (user : Nat) : Int :=
  match rows .users user with
  | some (account : UserRow) => account.remainingSeconds
  | none => 0

theorem balance_absent {rows : Store} {user : Nat} (absent : rows .users user = none) :
    balanceOf rows user = 0 := by
  simp [balanceOf, absent]

def consumed (rows : Store) (user session : Nat) : Nat :=
  match rows .sessions session with
  | some (s : SessionRow) => if s.userId = user then s.secondsConsumed else 0
  | none => 0

/-- seconds_consumed over all sessions of the user; session ids are below `bound`. -/
def charges (rows : Store) (bound user : Nat) : Nat :=
  ∑ session ∈ Finset.range bound, consumed rows user session

def creditedTo (given : List Credit) (user : Nat) : Nat :=
  ((given.filter fun credit => credit.user = user).map (·.seconds)).sum

/-- The act takes less than the session used, because the balance ends at zero. -/
def CutsOff (user : Nat) (rows : Store) (entry : Entry) : Prop :=
  ∃ elapsed session now, ∃ account : UserRow,
    entry = alter .users user (.charge elapsed session) now ∧
      rows .users user = some account ∧ account.remainingSeconds < elapsed

def Uncut (user : Nat) (rows : Store) (acts : List Entry) : Prop :=
  ∀ before entry rest, acts = before ++ entry :: rest → ¬ CutsOff user (replay before rows) entry

theorem creditedTo_append (before rest : List Credit) (user : Nat) :
    creditedTo (before ++ rest) user = creditedTo before user + creditedTo rest user := by
  simp [creditedTo]

section Uncut
variable {user : Nat} {rows : Store} {before rest : List Entry}

theorem uncut_left (uncut : Uncut user rows (before ++ rest)) : Uncut user rows before := by
  rintro first entry others rfl
  exact uncut first entry (others ++ rest) (by simp)

theorem uncut_right (uncut : Uncut user rows (before ++ rest)) :
    Uncut user (replay before rows) rest := by
  rintro first entry others rfl
  rw [← replay_append]
  exact uncut (before ++ first) entry others (by simp)

end Uncut

/-- The acts move no balance, meter no session and credit nobody. -/
structure Still (rows : Store) (acts : List Entry) : Prop where
  balance : ∀ user, balanceOf (replay acts rows) user = balanceOf rows user
  consumed : ∀ user session, consumed (replay acts rows) user session = consumed rows user session
  uncredited : acts.filterMap creditOf = []

structure Tallied (bound user : Nat) (rows : Store) (acts : List Entry) : Prop where
  floor : 0 ≤ balanceOf rows user → 0 ≤ balanceOf (replay acts rows) user
  least : balanceOf rows user + creditedTo (acts.filterMap creditOf) user +
      charges rows bound user ≤
    balanceOf (replay acts rows) user + charges (replay acts rows) bound user
  exact : Uncut user rows acts →
    balanceOf rows user + creditedTo (acts.filterMap creditOf) user + charges rows bound user =
      balanceOf (replay acts rows) user + charges (replay acts rows) bound user

section Acts
variable {bound user : Nat} {rows : Store} {before rest acts : List Entry}

theorem still_nil : Still rows [] := ⟨fun _ => rfl, fun _ _ => rfl, rfl⟩

theorem still_append (left : Still rows before) (right : Still (replay before rows) rest) :
    Still rows (before ++ rest) := by
  refine ⟨?_, ?_, ?_⟩
  · intro user
    rw [replay_append, right.balance, left.balance]
  · intro user session
    rw [replay_append, right.consumed, left.consumed]
  · rw [List.filterMap_append, left.uncredited, right.uncredited, List.append_nil]

theorem still_tallied (still : Still rows acts) : Tallied bound user rows acts := by
  have same : charges (replay acts rows) bound user = charges rows bound user :=
    Finset.sum_congr rfl fun session _ => still.consumed user session
  have nothing : creditedTo (acts.filterMap creditOf) user = 0 := by
    rw [still.uncredited]
    rfl
  refine ⟨?_, ?_, ?_⟩ <;> rw [still.balance user]
  · exact id
  · rw [same, nothing]
    omega
  · intro _
    rw [same, nothing]
    omega

theorem tallied_append (left : Tallied bound user rows before)
    (right : Tallied bound user (replay before rows) rest) :
    Tallied bound user rows (before ++ rest) := by
  refine ⟨?_, ?_, ?_⟩ <;> rw [replay_append]
  · exact fun positive => right.floor (left.floor positive)
  · have first := left.least
    have second := right.least
    rw [List.filterMap_append, creditedTo_append]
    omega
  · intro uncut
    have first := left.exact (uncut_left uncut)
    have second := right.exact (uncut_right uncut)
    rw [List.filterMap_append, creditedTo_append]
    omega

/-- Any act that is neither on accounts nor a settlement. -/
def Unmetered (entry : Entry) : Prop :=
  entry.table ≠ .users ∧ (entry.table ≠ .sessions ∨
    ∃ id op now, entry = alter .sessions id op now ∧ ∀ elapsed, op ≠ .settle elapsed)

theorem consumed_alter {id : Nat} {op : SessionOp} (now : Time)
    (other : ∀ elapsed, op ≠ .settle elapsed)
    (user session : Nat) :
    consumed (replay [alter .sessions id op now] rows) user session =
      consumed rows user session := by
  by_cases same : session = id
  · subst same
    unfold consumed
    simp only [replay_cons, replay_nil, alter_same]
    cases found : rows .sessions session with
    | none => rfl
    | some s => cases op with
      | settle elapsed => exact absurd rfl (other elapsed)
      | refresh ip token => rfl
      | finish status => rfl
  · simp [consumed, same]

theorem unmetered_still (unmetered : ∀ entry ∈ acts, Unmetered entry) : Still rows acts := by
  induction acts generalizing rows with
  | nil => exact still_nil
  | cons entry rest ih =>
      have others : ∀ entry ∈ rest, Unmetered entry :=
        fun other member => unmetered other (List.mem_cons_of_mem entry member)
      refine (still_append ?_ (ih others) : Still rows ([entry] ++ rest))
      obtain ⟨users, sessions⟩ := unmetered entry (by simp)
      have away : ∀ table, entry.table ≠ table → ∀ id,
          replay [entry] rows table id = rows table id :=
        fun table different id => replay_table _ _ _ _ (by simpa using different)
      refine ⟨?_, ?_, by simp [creditOf_table entry users]⟩
      · intro user
        rw [balanceOf, balanceOf, away .users users]
      · intro user session
        obtain other | ⟨id, op, now, rfl, notSettle⟩ := sessions
        · rw [consumed, consumed, away .sessions other]
        · exact consumed_alter now notSettle user session

theorem finishes_unmetered {basis : Basis} {mac : Text} {status : SessionStatus} {now : Time}
    (closed : Finishes basis mac status now acts) : ∀ entry ∈ acts, Unmetered entry := by
  intro entry member
  obtain ⟨id, s, rfl, _⟩ := closed entry member
  exact ⟨by simp [alter], Or.inr ⟨id, _, now, rfl, by simp⟩⟩

theorem devices_unmetered (devices : OnDevices acts) : ∀ entry ∈ acts, Unmetered entry := by
  intro entry member
  rw [Unmetered, devices entry member]
  exact ⟨by simp, Or.inl (by simp)⟩

theorem opened_still {id : Nat} {s : SessionRow} (absent : rows .sessions id = none)
    (unused : s.secondsConsumed = 0) : Still rows [create .sessions id s] := by
  refine ⟨?_, ?_, by simp⟩
  · intro user
    simp [balanceOf]
  · intro user session
    by_cases same : session = id
    · subst same
      simp [consumed, absent, unused]
    · simp [consumed, same]

theorem joined_still {id : Nat} {account : UserRow} (absent : balanceOf rows id = 0)
    (empty : account.remainingSeconds = 0) : Still rows [create .users id account] := by
  refine ⟨?_, ?_, by simp⟩
  · intro user
    by_cases same : user = id
    · subst same
      rw [absent]
      simp [balanceOf, empty]
    · simp [balanceOf, same]
  · intro user session
    simp [consumed]

theorem synced_still {id : Nat} {hash : Text} {now : Time} :
    Still rows [alter .users id (.syncAdmin hash) now] := by
  refine ⟨?_, ?_, by simp⟩
  · intro user
    by_cases same : user = id
    · subst same
      unfold balanceOf
      simp only [replay_cons, replay_nil, alter_same]
      cases rows .users user <;> rfl
    · simp [balanceOf, same]
  · intro user session
    simp [consumed]

theorem credited_tallied {id seconds : Nat} {limit : Option Nat} {source : CreditSource}
    {now : Time} {account : UserRow} (present : rows .users id = some account) :
    Tallied bound user rows [alter .users id (.credit seconds limit source) now] := by
  have metered : charges (replay [alter .users id (.credit seconds limit source) now] rows) bound
      user = charges rows bound user := by simp [charges, consumed]
  have raised : balanceOf (replay [alter .users id (.credit seconds limit source) now] rows) user =
      balanceOf rows user + creditedTo
        ([alter .users id (.credit seconds limit source) now].filterMap
        creditOf) user := by
    by_cases same : user = id
    · subst same
      simp [balanceOf, present, creditedTo, Op.run, UserOp.run]
    · simp [balanceOf, same, creditedTo, Ne.symm same]
  refine ⟨?_, ?_, ?_⟩
  · rw [raised]
    omega
  · rw [raised, metered]
  · intro _
    rw [raised, metered]

theorem charges_settled {id elapsed : Nat} (now : Time) {s : SessionRow}
    (present : rows .sessions id = some s) (below : id < bound) :
    charges (replay [alter .sessions id (.settle elapsed) now] rows) bound user =
      charges rows bound user + if s.userId = user then elapsed else 0 := by
  have other : ∀ session, session ≠ id →
      consumed (replay [alter .sessions id (.settle elapsed) now] rows) user session =
        consumed rows user session := by
    intro session different
    simp [consumed, different]
  have mine : consumed (replay [alter .sessions id (.settle elapsed) now] rows) user id =
      consumed rows user id + if s.userId = user then elapsed else 0 := by
    simp only [consumed, replay_cons, replay_nil, alter_same, present, Option.map_some, Op.run,
      SessionOp.run]
    split <;> simp
  have listed : id ∈ Finset.range bound := Finset.mem_range.mpr below
  unfold charges
  rw [← Finset.add_sum_erase _ _ listed, ← Finset.add_sum_erase _ _ listed, mine,
    Finset.sum_congr rfl fun session member => other session (Finset.ne_of_mem_erase member)]
  exact Nat.add_right_comm _ _ _

/-- A settlement moves the seconds that the session used from the balance of its owner. -/
theorem settled_tallied {id elapsed : Nat} {now : Time} {s : SessionRow} {account : UserRow}
    (present : rows .sessions id = some s) (below : id < bound)
    (owner : rows .users s.userId = some account) :
    Tallied bound user rows [alter .sessions id (.settle elapsed) now,
      alter .users s.userId (.charge elapsed id) now] := by
  have metered : charges (replay [alter .sessions id (.settle elapsed) now,
      alter .users s.userId (.charge elapsed id) now] rows) bound user =
        charges rows bound user + if s.userId = user then elapsed else 0 := by
    rw [← charges_settled now present below]
    simp [charges, consumed]
  have nothing : creditedTo ([alter .sessions id (.settle elapsed) now,
      alter .users s.userId (.charge elapsed id) now].filterMap creditOf) user = 0 := by
    simp [creditedTo, List.filterMap_cons]
  by_cases mine : s.userId = user
  · subst mine
    have before : balanceOf rows s.userId = account.remainingSeconds := by
      simp [balanceOf, owner]
    have charged : balanceOf (replay [alter .sessions id (.settle elapsed) now,
        alter .users s.userId (.charge elapsed id) now] rows) s.userId =
          max 0 (account.remainingSeconds - elapsed) := by
      simp [balanceOf, owner, Op.run, UserOp.run]
    refine ⟨?_, ?_, ?_⟩ <;> rw [charged]
    · intro _
      exact Int.le_max_left _ _
    · rw [metered, nothing, before, if_pos rfl]
      omega
    · intro uncut
      have enough : ¬ account.remainingSeconds < elapsed := fun less =>
        uncut [alter .sessions id (.settle elapsed) now] _ [] rfl
          ⟨elapsed, id, now, account, rfl, by simp [owner], less⟩
      rw [metered, nothing, before, if_pos rfl]
      omega
  · have same : balanceOf (replay [alter .sessions id (.settle elapsed) now,
        alter .users s.userId (.charge elapsed id) now] rows) user = balanceOf rows user := by
      simp [balanceOf, Ne.symm mine]
    refine ⟨?_, ?_, ?_⟩ <;> rw [same]
    · exact fun positive => positive
    · rw [metered, nothing, if_neg mine]
      omega
    · intro _
      rw [metered, nothing, if_neg mine]
      omega

end Acts

section Blocks
variable {config : Config} {world : World} {index thread bound user : Nat} {call : Call}
  {acts : List Entry}

/-- What holds of acts that move nothing and of each settlement, and of any two
such lists in a row, holds of a whole pass. -/
theorem settlement_composed {holds : Store → List Entry → Prop} {now date : Time}
    (still : ∀ rows acts, Still rows acts → holds rows acts)
    (append : ∀ rows before rest, holds rows before → holds (replay before rows) rest →
      holds rows (before ++ rest))
    (pair : ∀ rows id elapsed, ∀ s : SessionRow, ∀ account : UserRow,
      (storeAfter world.db.log index .sessions id).isSome → rows .sessions id = some s →
        rows .users s.userId = some account →
          holds rows [alter .sessions id (.settle elapsed) now,
            alter .users s.userId (.charge elapsed id) now])
    (pass : Settled (world.basisAt index) thread now date acts) :
    holds (storeAfter world.db.log index) acts := by
  have closes : ∀ (rows : Store) (id : Nat), holds rows
      [alter .sessions id (.finish .ended) now] := by
    intro rows id
    refine still rows _ (unmetered_still ?_)
    simp only [List.mem_singleton, forall_eq]
    exact ⟨by simp [alter], Or.inr ⟨id, _, now, rfl, by simp⟩⟩
  induction pass with
  | nothing => exact still _ _ still_nil
  | @settled before device id s account earlier row active owner positive devices ih =>
      have present : storeAfter world.db.log index .sessions id = some s := row
      have charged : storeAfter world.db.log index .users s.userId = some account := owner
      -- earlier settlements of the pass may have touched both rows
      obtain ⟨s', session, same⟩ := replay_same _ .sessions id before
        (settled_alters earlier _ _ (by simp)) present
      obtain ⟨account', balance, _⟩ := replay_same _ .users s.userId before
        (settled_alters earlier _ _ (by simp)) charged
      have owner' : s'.userId = s.userId := same.1
      refine append _ _ _ ih ?_
      have moved := pair (replay before (storeAfter world.db.log index)) id
        (elapsedSeconds date s.lastTick) s' account' (by simp [present]) session (owner' ▸ balance)
      rw [owner'] at moved
      exact append _ _ _ moved (still _ _ (unmetered_still (devices_unmetered devices)))
  | vanished _ _ _ _ ih => exact append _ _ _ ih (closes _ _)
  | exhausted _ _ _ ih => exact append _ _ _ ih (closes _ _)

theorem settlement_tallied {now date : Time}
    (pass : Settled (world.basisAt index) thread now date acts)
    (below : ∀ id, (storeAfter world.db.log index .sessions id).isSome → id < bound) :
    Tallied bound user (storeAfter world.db.log index) acts :=
  settlement_composed (fun _ _ still => still_tallied still)
    (fun _ _ _ left right => tallied_append left right)
    (fun _ id _ _ _ known session owner => settled_tallied session (below id known) owner) pass

/-- What the sessions of the user have used more is taken from the balance, down
to zero. -/
structure Drawn (bound user : Nat) (rows : Store) (acts : List Entry) : Prop where
  more : charges rows bound user ≤ charges (replay acts rows) bound user
  balance : 0 ≤ balanceOf rows user → balanceOf (replay acts rows) user = max 0
    (balanceOf rows user -
      ((charges (replay acts rows) bound user : Int) - charges rows bound user))

theorem still_drawn {rows : Store} (still : Still rows acts) : Drawn bound user rows acts := by
  have same : charges (replay acts rows) bound user = charges rows bound user :=
    Finset.sum_congr rfl fun session _ => still.consumed user session
  constructor
  · exact Nat.le_of_eq same.symm
  · intro floor
    rw [still.balance user, same]
    omega

theorem drawn_append {rows : Store} {before rest : List Entry}
    (left : Drawn bound user rows before) (right : Drawn bound user (replay before rows) rest) :
    Drawn bound user rows (before ++ rest) := by
  have more := left.more
  have more' := right.more
  rw [← replay_append] at more'
  refine ⟨Nat.le_trans more more', fun floor => ?_⟩
  have first := left.balance floor
  have second := right.balance (by omega)
  rw [← replay_append] at second
  omega

theorem settled_drawn {rows : Store} {id elapsed : Nat} {now : Time} {s : SessionRow}
    {account : UserRow} (below : id < bound) (present : rows .sessions id = some s)
    (owner : rows .users s.userId = some account) :
    Drawn bound user rows [alter .sessions id (.settle elapsed) now,
      alter .users s.userId (.charge elapsed id) now] := by
  have metered : charges (replay [alter .sessions id (.settle elapsed) now,
      alter .users s.userId (.charge elapsed id) now] rows) bound user =
        charges rows bound user + if s.userId = user then elapsed else 0 := by
    rw [← charges_settled now present below]
    simp [charges, consumed]
  refine ⟨by rw [metered]; exact Nat.le_add_right _ _, fun floor => ?_⟩
  by_cases mine : s.userId = user
  · subst mine
    have charged : balanceOf (replay [alter .sessions id (.settle elapsed) now,
        alter .users s.userId (.charge elapsed id) now] rows) s.userId =
          max 0 (balanceOf rows s.userId - elapsed) := by
      simp [balanceOf, owner, Op.run, UserOp.run]
    rw [charged, metered, if_pos rfl]
    omega
  · have same : balanceOf (replay [alter .sessions id (.settle elapsed) now,
        alter .users s.userId (.charge elapsed id) now] rows) user = balanceOf rows user := by
      simp [balanceOf, Ne.symm mine]
    rw [same, metered, if_neg mine]
    omega

theorem settlement_drawn {now date : Time}
    (pass : Settled (world.basisAt index) thread now date acts)
    (below : ∀ id, (storeAfter world.db.log index .sessions id).isSome → id < bound) :
    Drawn bound user (storeAfter world.db.log index) acts :=
  settlement_composed (fun _ _ still => still_drawn still)
    (fun _ _ _ left right => drawn_append left right)
    (fun _ id _ _ _ known session owner => settled_drawn (below id known) session owner) pass

theorem seeded_still {rows : Store} (seeded : ∀ entry ∈ acts, ∃ id, ∃ account : UserRow,
    balanceOf rows id = 0 ∧ account.remainingSeconds = 0 ∧ entry = create .users id account) :
    Still rows acts := by
  induction acts generalizing rows with
  | nil => exact still_nil
  | cons entry rest ih =>
      obtain ⟨id, account, absent, empty, rfl⟩ := seeded entry (by simp)
      have first := joined_still absent empty
      refine (still_append first (ih ?_) : Still rows ([_] ++ rest))
      intro other member
      obtain ⟨key, row, zero, rest'⟩ := seeded other (List.mem_cons_of_mem _ member)
      exact ⟨key, row, (first.balance key).trans zero, rest'⟩

theorem aside_still (lawful : Lawful config (world.basisAt index) thread call acts)
    (users : TableName.users ∉ call.tables) (sessions : TableName.sessions ∉ call.tables)
    (rows : Store) : Still rows acts := by
  refine unmetered_still fun entry member => ?_
  have listed := lawful_tables lawful entry member
  exact ⟨fun same => users (same ▸ listed), Or.inl fun same => sessions (same ▸ listed)⟩

theorem connected_still {dto : ConnectDto} {caller : AuthUser}
    (lawful : Lawful config (world.basisAt index) thread (.connect caller dto) acts) :
    Still (storeAfter world.db.log index) acts := by
  cases lawful with
  | nothing => exact still_nil
  | @refresh _ _ id s account now device devices =>
      refine still_append (unmetered_still (devices_unmetered devices)) (unmetered_still ?_)
      simp only [List.mem_singleton, forall_eq]
      exact ⟨by simp [alter], Or.inr ⟨id, _, now, rfl, by simp⟩⟩
  | @opened _ _ id account now device ended devices owner paid closed fresh =>
      have absent : storeAfter world.db.log index .sessions id = none := fresh
      have unmetered : ∀ entry ∈ device ++ ended, Unmetered entry := by
        intro entry member
        rcases List.mem_append.mp member with other | finished
        · exact devices_unmetered devices entry other
        · exact finishes_unmetered closed entry finished
      refine still_append (unmetered_still unmetered) (opened_still ?_ rfl)
      refine replay_absent _ .sessions id _ ?_ absent
      intro entry member table key
      rcases List.mem_append.mp member with other | finished
      · simp [devices entry other] at table
      · obtain ⟨key', s, rfl, _⟩ := closed entry finished
        cases key
        exact ⟨_, _, rfl⟩

theorem block_tallied (lawful : Lawful config (world.basisAt index) thread call acts)
    (below : ∀ id, (storeAfter world.db.log index .sessions id).isSome → id < bound) :
    Tallied bound user (storeAfter world.db.log index) acts := by
  by_cases users : TableName.users ∈ call.tables
  · cases lawful with
    | nothing => exact still_tallied still_nil
    | @redeem caller _ id v account now voucher unused owner =>
        have present : storeAfter world.db.log index .users caller.id = some account := owner
        have credited : replay [alter .vouchers id (.redeem caller.id) now]
            (storeAfter world.db.log index) .users caller.id = some account := by simp [present]
        exact (tallied_append (still_tallied (unmetered_still (by simp [Unmetered, alter])))
          (credited_tallied credited) : Tallied bound user _ ([_] ++ [_]))
    | @approve actor id read lock found r plan account now time late view held row pending owner =>
        have present : storeAfter world.db.log index .users r.userId = some account := owner
        have credited : replay [alter .planRequests id (.decide .approved actor.id) now]
            (storeAfter world.db.log index) .users r.userId = some account := by simp [present]
        exact (tallied_append (still_tallied (unmetered_still (by simp [Unmetered, alter])))
          (credited_tallied credited) : Tallied bound user _ ([_] ++ [_]))
    | reject => exact still_tallied (unmetered_still (by simp [Unmetered, alter]))
    | grant owner => exact credited_tallied owner
    | tick ordered pass => exact settlement_tallied pass below
    | register free | seedAdmin free => exact still_tallied (joined_still (balance_absent free) rfl)
    | syncAdmin => exact still_tallied synced_still
    | seedClients seeded =>
        refine still_tallied (seeded_still fun entry member => ?_)
        obtain ⟨id, number, free, _, _, rfl⟩ := seeded entry member
        exact ⟨id, _, balance_absent free, rfl, rfl⟩
    | _ => simp [Call.tables] at users
  · cases call with
    | connect caller dto => exact still_tallied (connected_still lawful)
    | kick actor mac =>
        cases lawful with
        | nothing => exact still_tallied still_nil
        | kick closed => exact still_tallied (unmetered_still (finishes_unmetered closed))
    | tick => simp [Call.tables] at users
    | _ => exact still_tallied (aside_still lawful users (by simp [Call.tables]) _)

/-- Why a block may move the balance of a user. -/
inductive Concerns (world : World) (index user : Nat) : Call → Prop where
  | redeem {caller : AuthUser} {dto : RedeemVoucherDto} (mine : caller.id = user) :
      Concerns world index user (.redeem caller dto)
  | approve {actor : AuthUser} {id : Nat} {r : PlanRequestRow}
      (row : storeAfter world.db.log index .planRequests id = some r) (mine : r.userId = user) :
      Concerns world index user (.decide actor id true)
  | grant {actor : AuthUser} {dto : GrantTimeDto} :
      Concerns world index user (.grant actor user dto)
  | settled {session : Nat} {before after : SessionRow}
      (row : storeAfter world.db.log index .sessions session = some before)
      (mine : before.userId = user)
      (left : storeAfter world.db.log (index + 1) .sessions session = some after)
      (used : before.secondsConsumed < after.secondsConsumed) : Concerns world index user .tick

theorem op_consumed (op : SessionOp) (now : Time) (s : SessionRow) :
    s.secondsConsumed ≤ (Op.run .sessions op now s).secondsConsumed := by
  cases op with
  | settle elapsed => exact Nat.le_add_right _ _
  | refresh ip token => exact Nat.le_refl _
  | finish status => exact Nat.le_refl _

theorem consumed_grows {rows : Store} {id : Nat} {s : SessionRow}
    (alters : AltersAt .sessions id acts)
    (present : rows .sessions id = some s) :
    ∃ after, replay acts rows .sessions id = some after ∧
      s.secondsConsumed ≤ after.secondsConsumed :=
  replay_related rows .sessions id (fun s after => s.secondsConsumed ≤ after.secondsConsumed)
    (fun _ => Nat.le_refl _) (fun _ _ _ => Nat.le_trans) op_consumed acts alters present

theorem settlement_concerns {rows : Store} {basis : Basis} {now date : Time}
    (pass : Settled basis thread now date acts)
    (based : ∀ id s, basis.row .sessions id (some s) → rows .sessions id = some s) :
    balanceOf (replay acts rows) user = balanceOf rows user ∨
      ∃ session, ∃ before after : SessionRow, rows .sessions session = some before ∧
        before.userId = user ∧ replay acts rows .sessions session = some after ∧
        before.secondsConsumed < after.secondsConsumed := by
  -- what a session has used stays used
  have onward : ∀ (acts rest : List Entry), (∀ id, AltersAt .sessions id (acts ++ rest)) →
      (∃ session, ∃ before after : SessionRow, rows .sessions session = some before ∧
        before.userId = user ∧ replay acts rows .sessions session = some after ∧
        before.secondsConsumed < after.secondsConsumed) →
      ∃ session, ∃ before after : SessionRow, rows .sessions session = some before ∧
        before.userId = user ∧ replay (acts ++ rest) rows .sessions session = some after ∧
        before.secondsConsumed < after.secondsConsumed := by
    rintro acts rest alters ⟨session, before, middle, row, mine, found, used⟩
    obtain ⟨after, left, more⟩ := consumed_grows
      (fun entry member => alters session entry (List.mem_append_right acts member)) found
    exact ⟨session, before, after, row, mine, by rw [replay_append, left],
      Nat.lt_of_lt_of_le used more⟩
  have ends : ∀ (acts : List Entry) (key : Nat),
      balanceOf (replay (acts ++ [alter .sessions key (.finish .ended) now]) rows) user =
        balanceOf (replay acts rows) user := by
    intro acts key
    rw [replay_append]
    simp [balanceOf]
  induction pass with
  | nothing => exact Or.inl rfl
  | @settled earlier device id s account before row active owner positive devices ih =>
      have whole := Settled.settled before row active owner positive devices
      rcases ih with same | moved
      · by_cases mine : s.userId = user
        · obtain ⟨metered, found, more⟩ := consumed_grows
            (settled_alters before .sessions id (by simp)) (based id s row)
          refine Or.inr ⟨id, s, SessionOp.run now (.settle (elapsedSeconds date s.lastTick))
            metered, based id s row, mine, ?_, ?_⟩
          · rw [replay_append, replay_cons, replay_cons,
              replay_table _ _ _ device fun entry member => by simp [devices entry member]]
            simp [found, Op.run]
          · simp only [SessionOp.run]
            omega
        · refine Or.inl (Eq.trans ?_ same)
          rw [replay_append, replay_cons, replay_cons, balanceOf,
            replay_table _ _ _ device fun entry member => by simp [devices entry member]]
          simp [balanceOf, Ne.symm mine]
      · exact Or.inr (onward _ _ (fun id => settled_alters whole .sessions id (by simp)) moved)
  | @vanished earlier id s before row active late ih =>
      have whole := Settled.vanished before row active late
      rcases ih with same | moved
      · exact Or.inl ((ends _ _).trans same)
      · exact Or.inr (onward _ _ (fun id => settled_alters whole .sessions id (by simp)) moved)
  | @exhausted earlier pending id read s time view found before asked member ih =>
      have whole := Settled.exhausted before asked member
      rcases ih with same | moved
      · exact Or.inl ((ends _ _).trans same)
      · exact Or.inr (onward _ _ (fun id => settled_alters whole .sessions id (by simp)) moved)

theorem block_concerns (lawful : Lawful config (world.basisAt index) thread call acts)
    (next : storeAfter world.db.log (index + 1) = replay acts (storeAfter world.db.log index))
    (moved : balanceOf (storeAfter world.db.log (index + 1)) user ≠
      balanceOf (storeAfter world.db.log index) user) : Concerns world index user call := by
  rw [next] at moved
  have other : ∀ {id : Nat} {rows : Store} {op : UserOp} {now : Time}, user ≠ id →
      balanceOf (replay [alter .users id op now] rows) user = balanceOf rows user := by
    intro id rows op now different
    simp [balanceOf, different]
  by_cases users : TableName.users ∈ call.tables
  · cases lawful with
    | nothing => exact absurd rfl moved
    | @redeem caller =>
        by_cases mine : caller.id = user
        · exact .redeem mine
        · exact absurd (by simp [balanceOf, Ne.symm mine]) moved
    | @approve actor id read lock found r plan account now time late view held row =>
        by_cases mine : r.userId = user
        · exact .approve row mine
        · exact absurd (by simp [balanceOf, Ne.symm mine]) moved
    | reject => exact absurd (by simp [balanceOf]) moved
    | @grant actor id =>
        by_cases mine : id = user
        · exact mine ▸ .grant
        · exact absurd (other (Ne.symm mine)) moved
    | tick ordered pass =>
        obtain same | ⟨session, before, after, row, mine, left, used⟩ :=
          settlement_concerns pass (fun _ _ row => row)
        · exact absurd same moved
        · exact .settled row mine (by rw [next, left]) used
    | register free | seedAdmin free =>
        exact absurd ((joined_still (balance_absent free) rfl).balance user) moved
    | syncAdmin => exact absurd (synced_still.balance user) moved
    | seedClients seeded =>
        refine absurd ((seeded_still fun entry member => ?_).balance user) moved
        obtain ⟨id, number, free, _, _, rfl⟩ := seeded entry member
        exact ⟨id, _, balance_absent free, rfl, rfl⟩
    | _ => simp [Call.tables] at users
  · exact absurd (by simp only [balanceOf, untouched_table lawful users]) moved

end Blocks

section Runs
variable {config : Config} {pool : ServerPool}

theorem session_below (reached : Reached config pool) {commits id : Nat}
    (bound : commits ≤ pool.state.db.log.length)
    (present : (storeAfter pool.state.db.log commits .sessions id).isSome) :
    id < pool.state.db.next .sessions := by
  by_contra beyond
  obtain ⟨s, row⟩ := Option.isSome_iff_exists.mp present
  obtain ⟨after, last, _⟩ := row_same (reached_legit reached) (by simp) (by simp) bound
    (Nat.le_refl _) row
  have ready := reached_ready reached
  rw [← ready.recorded, (ready.sound.unused .sessions id (Nat.not_lt.mp beyond)).1] at last
  cases last

theorem log_tallied (reached : Reached config pool) (user : Nat) {commits : Nat}
    (bound : commits ≤ pool.state.db.log.length) :
    Tallied (pool.state.db.next .sessions) user (fun _ _ => none)
      ((pool.state.db.log.take commits).flatMap (·.2)) := by
  refine log_induction (reached_legit reached) (fun commits => commits ≤
    pool.state.db.log.length → Tallied (pool.state.db.next .sessions) user (fun _ _ => none)
      ((pool.state.db.log.take commits).flatMap (·.2))) (fun _ => still_tallied still_nil) ?_
      commits bound bound
  intro index thread acts call found called lawful next ih bound
  have block : (pool.state.db.log.take (index + 1)).flatMap (·.2) =
      (pool.state.db.log.take index).flatMap (·.2) ++ acts := by
    simp [List.take_add_one, found]
  rw [block]
  refine tallied_append (ih (Nat.le_of_succ_le bound)) (block_tallied lawful ?_)
  exact fun id present => session_below reached (Nat.le_of_succ_le bound) present

theorem balance_floor (reached : Reached config pool) (user : Nat) {commits : Nat}
    (bound : commits ≤ pool.state.db.log.length) :
    0 ≤ balanceOf (storeAfter pool.state.db.log commits) user :=
  (log_tallied reached user bound).floor (Int.le_refl 0)

/-- In every reachable state each balance is at least zero and at least what was
credited less what was charged, and is exactly that until a settlement is cut
off; and only a transaction that concerns a user moves the user's balance. -/
theorem balance_ledger (config : Config) (pool : ServerPool) (reached : Reached config pool) :
    (∀ user, ∀ account : UserRow, pool.state.db.store .users user = some account →
      0 ≤ account.remainingSeconds ∧
      (creditedTo (credits pool.state.db.log) user : Int) -
          charges pool.state.db.store (pool.state.db.next .sessions) user ≤
        account.remainingSeconds ∧
      (Uncut user (fun _ _ => none) (pool.state.db.log.flatMap (·.2)) →
        account.remainingSeconds = (creditedTo (credits pool.state.db.log) user : Int) -
          charges pool.state.db.store (pool.state.db.next .sessions) user)) ∧
    (∀ index thread acts call user, pool.state.db.log[index]? = some (thread, acts) →
      pool.state.arrivals[thread]? = some call →
      balanceOf (storeAfter pool.state.db.log (index + 1)) user ≠
        balanceOf (storeAfter pool.state.db.log index) user →
      Concerns pool.state index user call) := by
  refine ⟨?_, ?_⟩
  · intro user account present
    obtain ⟨floor, least, exact'⟩ := log_tallied reached user (Nat.le_refl _)
    rw [List.take_length] at floor least exact'
    have replayed : replay (pool.state.db.log.flatMap (·.2)) (fun _ _ => none) =
        pool.state.db.store := by
      rw [(reached_ready reached).recorded, storeAfter, List.take_length]
    have balance : balanceOf pool.state.db.store user = account.remainingSeconds := by
      simp [balanceOf, present]
    have empty : balanceOf (fun _ _ => none) user = 0 ∧
        charges (fun _ _ => none) (pool.state.db.next .sessions) user = 0 := by
      simp [balanceOf, charges, consumed]
    rw [replayed, balance, empty.1] at floor
    have listed : (pool.state.db.log.flatMap (·.2)).filterMap creditOf =
        credits pool.state.db.log := rfl
    rw [replayed, balance, empty.1, empty.2, listed] at least exact'
    refine ⟨floor (Int.le_refl 0), by omega, ?_⟩
    intro uncut
    have same := exact' uncut
    omega
  · intro index thread acts call user found called moved
    obtain ⟨call', called', lawful⟩ := block_lawful (reached_legit reached) found
    rw [called, Option.some.injEq] at called'
    subst called'
    exact block_concerns lawful (storeAfter_succ _ _ _ found) moved

end Runs

def tenSeconds : List (Move Choice Call Ambient) :=
  arrival ++ [.start (.connect guest phone)] ++ steps 2 10 ++ [.ambient (.elapse 10000),
    .start .tick] ++ steps 3 13

theorem balance_ledger_ten : ∃ pool, Reached shop pool ∧ ∃ account : UserRow,
    pool.state.db.store .users 2 = some account ∧ 0 ≤ account.remainingSeconds ∧
      (3600 : Int) - 10 ≤ account.remainingSeconds := by
  obtain ⟨pool, reached, _, seen⟩ := play_shows shop tenSeconds
    (fun pool => ((pool.state.db.store .users 2).isSome,
      creditedTo (credits pool.state.db.log) 2,
      charges pool.state.db.store (pool.state.db.next .sessions) 2)) (true, 3600, 10)
    (by decide +kernel)
  obtain ⟨present, rest⟩ := Prod.mk.inj seen
  obtain ⟨credited, charged⟩ := Prod.mk.inj rest
  obtain ⟨account, row⟩ := Option.isSome_iff_exists.mp present
  obtain ⟨floor, least, _⟩ := (balance_ledger shop pool reached).1 2 account row
  rw [credited, charged] at least
  exact ⟨pool, reached, account, row, floor, least⟩

end Cybera
