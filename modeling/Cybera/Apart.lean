import Cybera.Devices
import Cybera.Redemption
import Cybera.Replacement

/-!
One customer's rows while others use the café: what the transactions of the
others leave alone, and the one thing that a connect can do to a stranger.
-/

namespace Cybera

open Interleaving

def Owned (user : Nat) : (table : TableName) → Nat → Row table → Prop
  | .users, id, _ => id = user
  | .plans, _, _ => False
  | .planRequests, _, (row : PlanRequestRow) => row.userId = user
  | .vouchers, _, (row : VoucherRow) => row.redeemedBy = some user
  | .devices, _, (row : DeviceRow) => row.userId = user
  | .sessions, _, (row : SessionRow) => row.userId = user

/-- What other customers call, and what anybody may call without a token. -/
def Call.Elsewhere (user : Nat) : Call → Prop
  | .redeem customer _ | .createRequest customer _ | .connect customer _ => customer.id ≠ user
  | .register _ | .clientLogin _ | .login _ | .listPending => True
  | _ => False

/-- Another account has connected with the session's MAC. -/
def Taken (world : World) (user first last : Nat) (before after : SessionRow) : Prop :=
  before.status = .active ∧ ∃ index thread acts customer dto now, first ≤ index ∧ index < last ∧
    world.db.log[index]? = some (thread, acts) ∧
    world.arrivals[thread]? = some (.connect customer dto) ∧ customer.id ≠ user ∧
    toLowerCase dto.clientmac = before.deviceMac ∧
    after = { before with status := .ended, endedAt := some now }

def Undisturbed (world : World) (user first last : Nat) :
    (table : TableName) → Row table → Row table → Prop
  | .sessions, before, after => after = before ∨ Taken world user first last before after
  | _, before, after => after = before

/-- What an entry of another customer may be: an UPDATE of a row that is not the user's, an
INSERT of one, or the end of a session on the MAC of a connect. -/
inductive Spares (world : World) (index user : Nat) (call : Call) : Entry → Prop where
  | update (table : TableName) {id : Nat} {op : Op table} {now : Time} {row : Row table}
      (present : storeAfter world.db.log index table id = some row)
      (foreign : ¬ Owned user table id row)
      (stays : ∀ row, ¬ Owned user table id row → ¬ Owned user table id (Op.run table op now row)) :
      Spares world index user call (alter table id op now)
  | insert (table : TableName) {id : Nat} {row : Row table}
      (absent : storeAfter world.db.log index table id = none)
      (foreign : ¬ Owned user table id row) : Spares world index user call (create table id row)
  | takeover {id : Nat} {s : SessionRow} {now : Time} {customer : AuthUser} {dto : ConnectDto}
      (connects : call = .connect customer dto) (other : customer.id ≠ user)
      (present : storeAfter world.db.log index .sessions id = some s) (active : s.status = .active)
      (same : s.deviceMac = toLowerCase dto.clientmac) :
      Spares world index user call (alter .sessions id (.finish .ended) now)

theorem op_owned (table : TableName) {user : Nat} (op : Op table) (now : Time) (id : Nat)
    (row : Row table) (vouchers : table ≠ .vouchers) (foreign : ¬ Owned user table id row) :
    ¬ Owned user table id (Op.run table op now row) := by
  cases table with
  | vouchers => exact absurd rfl vouchers
  | users | plans => exact foreign
  | planRequests | devices | sessions => cases op <;> exact foreign

section Entries
variable {config : Config} {pool : ServerPool} (reached : Reached config pool)
  {index thread user : Nat} {acts : List Entry}
include reached

theorem redeem_spares {customer : AuthUser} {dto : RedeemVoucherDto} (other : customer.id ≠ user)
    (lawful : Lawful config (pool.state.basisAt index) thread (.redeem customer dto) acts)
    (bound : index ≤ pool.state.db.log.length) :
    ∀ entry ∈ acts, Spares pool.state index user (.redeem customer dto) entry := by
  cases lawful with
  | nothing => simp
  | @redeem _ _ id v account now voucher unused owner =>
      simp only [List.mem_cons, List.not_mem_nil, or_false, forall_eq_or_imp, forall_eq]
      refine ⟨.update .vouchers voucher ?_ ?_, .update .users owner other ?_⟩
      · have state := voucher_state (reached_legit reached) id bound
        have nobody : v.redeemedBy = none := by
          generalize creditsFor (pool.state.db.log.take index) (.voucher id) = given at *
          cases state with
          | absent empty => cases (show storeAfter _ _ _ _ = _ from voucher).symm.trans empty
          | «open» w present _ nobody =>
              cases (show storeAfter _ _ _ _ = _ from voucher).symm.trans present
              exact nobody
          | spent w user now account present redeemed =>
              cases (show storeAfter _ _ _ _ = _ from voucher).symm.trans present
              cases unused.symm.trans redeemed
        simp [Owned, nobody]
      · intro row _ mine
        exact other (Option.some.inj mine)
      · exact fun _ foreign => foreign

theorem create_spares {customer : AuthUser} {dto : CreateRequestDto} (other : customer.id ≠ user)
    (found : pool.state.db.log[index]? = some (thread, acts))
    (called : pool.state.arrivals[thread]? = some (.createRequest customer dto))
    (lawful : Lawful config (pool.state.basisAt index) thread (.createRequest customer dto) acts) :
    ∀ entry ∈ acts, Spares pool.state index user (.createRequest customer dto) entry := by
  cases lawful with
  | nothing => simp
  | createNew given fresh =>
      simp only [List.mem_singleton, forall_eq]
      exact .insert .planRequests fresh other
  | createReplace given row asked earlier =>
      simp only [List.mem_singleton, forall_eq]
      have owner := replaced_owner reached called found row
      refine .update .planRequests row (fun mine => other (owner.symm.trans mine)) ?_
      exact fun row foreign => op_owned _ _ _ _ row (by simp) foreign

theorem connect_spares {customer : AuthUser} {dto : ConnectDto} (other : customer.id ≠ user)
    (found : pool.state.db.log[index]? = some (thread, acts))
    (called : pool.state.arrivals[thread]? = some (.connect customer dto))
    (lawful : Lawful config (pool.state.basisAt index) thread (.connect customer dto) acts) :
    ∀ entry ∈ acts, Spares pool.state index user (.connect customer dto) entry := by
  intro entry member
  have listed := lawful_tables lawful entry member
  simp only [Call.tables, List.mem_cons, List.not_mem_nil, or_false] at listed
  rcases listed with device | session
  · cases device_entries reached found called entry member device with
    | made absent => exact .insert .devices absent other
    | relabelled =>
        obtain ⟨d, present, owner, _⟩ := relabelled_own reached found called member
        refine .update .devices present (fun mine => other (owner.symm.trans mine)) ?_
        exact fun row foreign => op_owned _ _ _ _ row (by simp) foreign
  · cases lawful_sessions lawful entry member session with
    | refreshed row active mine same =>
        refine .update .sessions row (fun own => other (mine.symm.trans own)) ?_
        exact fun row foreign => op_owned _ _ _ _ row (by simp) foreign
    | takenOver row active same => exact .takeover rfl other row active same
    | opened absent => exact .insert .sessions absent other

/-- Nothing that another customer commits is done to a row of the user, but for takeovers. -/
theorem elsewhere_spares {call : Call} (found : pool.state.db.log[index]? = some (thread, acts))
    (called : pool.state.arrivals[thread]? = some call) (elsewhere : call.Elsewhere user)
    (account : (storeAfter pool.state.db.log index .users user).isSome) :
    ∀ entry ∈ acts, Spares pool.state index user call entry := by
  obtain ⟨call', called', lawful⟩ := block_lawful (reached_legit reached) found
  rw [called, Option.some.injEq] at called'
  subst called'
  cases call with
  | redeem customer dto =>
      exact redeem_spares reached elsewhere lawful
        (Nat.le_of_lt (List.getElem?_eq_some_iff.mp found).1)
  | createRequest customer dto => exact create_spares reached elsewhere found called lawful
  | connect customer dto => exact connect_spares reached elsewhere found called lawful
  | register dto =>
      cases lawful with
      | nothing => simp
      | register fresh =>
          simp only [List.mem_singleton, forall_eq]
          refine .insert .users fresh ?_
          rintro rfl
          rw [show storeAfter pool.state.db.log index .users _ = none from fresh] at account
          cases account
  | clientLogin | login | listPending =>
      intro entry member
      exact absurd (lawful_tables lawful entry member) (by simp [Call.tables])
  | _ => exact elsewhere.elim

end Entries

section Blocks
variable {world : World} {user index : Nat} {call : Call} {acts : List Entry}
  (spares : ∀ entry ∈ acts, Spares world index user call entry)
include spares

theorem spared_row {thread : Nat} (found : world.db.log[index]? = some (thread, acts))
    (called : world.arrivals[thread]? = some call) {table : TableName} {id : Nat} {row : Row table}
    (present : storeAfter world.db.log index table id = some row) (mine : Owned user table id row) :
    ∃ after, replay acts (storeAfter world.db.log index) table id = some after ∧
      Undisturbed world user index (index + 1) table row after := by
  by_cases sessions : table = .sessions
  · subst sessions
    refine replay_keeps _ .sessions id
      (fun after => after = row ∨ Taken world user index (index + 1) row after)
      (fun op _ => op = .finish .ended ∧ row.status = .active ∧ ∃ customer dto,
        call = .connect customer dto ∧ customer.id ≠ user ∧
          toLowerCase dto.clientmac = row.deviceMac) ?_ acts ?_ present (Or.inl rfl)
    · rintro _ now after ⟨rfl, active, customer, dto, rfl, other, same⟩ earlier
      refine Or.inr ⟨active, index, thread, acts, customer, dto, now, Nat.le_refl _,
        Nat.lt_succ_self _, found, called, other, same, ?_⟩
      rcases earlier with rfl | ⟨_, _, _, _, _, _, _, _, _, _, _, _, _, rfl⟩ <;> rfl
    · rintro entry member listed rfl
      cases spares entry member with
      | update _ present' foreign =>
          cases listed
          cases present.symm.trans present'
          exact absurd mine foreign
      | insert _ absent =>
          cases listed
          cases present.symm.trans absent
      | takeover connects other present' active same =>
          cases present.symm.trans present'
          exact ⟨_, _, rfl, rfl, active, _, _, connects, other, same.symm⟩
  · refine ⟨row, ?_, ?_⟩
    · refine Eq.trans (RowLock.replay_untouched _ _ _ _ _ ?_) present
      rintro entry member ⟨rfl, rfl⟩
      cases spares entry member with
      | update _ present' foreign =>
          cases present.symm.trans present'
          exact foreign mine
      | insert _ absent => cases present.symm.trans absent
      | takeover => exact sessions rfl
    · cases table with
      | sessions => exact absurd rfl sessions
      | _ => rfl

theorem spared_before {table : TableName} {id : Nat} {after : Row table}
    (left : replay acts (storeAfter world.db.log index) table id = some after)
    (mine : Owned user table id after) :
    ∃ row, storeAfter world.db.log index table id = some row ∧ Owned user table id row := by
  by_contra nothing
  have foreign : ∀ row, storeAfter world.db.log index table id = some row →
      ¬ Owned user table id row := fun row present own => nothing ⟨row, present, own⟩
  refine replay_made _ table id (fun row => ¬ Owned user table id row)
    (fun op now => ∀ row, ¬ Owned user table id row →
      ¬ Owned user table id (Op.run table op now row))
    (fun op now row stays => stays row) acts ?_ foreign left mine
  rintro entry member rfl rfl
  cases spares entry member with
  | update _ _ _ stays => exact Or.inl ⟨_, _, rfl, stays⟩
  | insert _ _ other => exact Or.inr ⟨_, rfl, other⟩
  | takeover =>
      exact Or.inl ⟨_, _, rfl, fun row =>
        op_owned .sessions _ _ _ row (by simp)⟩

end Blocks

section Stretches
variable {world : World} {user first middle last : Nat} {table : TableName}

theorem undisturbed_owned {id : Nat} {before after : Row table}
    (kept : Undisturbed world user first last table before after)
    (mine : Owned user table id before) : Owned user table id after := by
  cases table with
  | sessions =>
      rcases kept with rfl | ⟨_, _, _, _, _, _, _, _, _, _, _, _, _, rfl⟩
      · exact mine
      · exact mine
  | _ =>
      cases kept
      exact mine

theorem undisturbed_trans {before between after : Row table} (early : first ≤ middle)
    (late : middle ≤ last) (left : Undisturbed world user first middle table before between)
    (right : Undisturbed world user middle last table between after) :
    Undisturbed world user first last table before after := by
  cases table with
  | sessions =>
      rcases left with rfl | ⟨active, index, thread, acts, customer, dto, now, low, high, rest⟩
      · rcases right with rfl | ⟨active, index, thread, acts, customer, dto, now, low, high, rest⟩
        · exact Or.inl rfl
        · exact Or.inr ⟨active, index, thread, acts, customer, dto, now, Nat.le_trans early low,
            high, rest⟩
      · rcases right with rfl | ⟨again, _⟩
        · exact Or.inr ⟨active, index, thread, acts, customer, dto, now, low,
            Nat.lt_of_lt_of_le high late, rest⟩
        · -- a session that was taken over has ended
          rw [rest.2.2.2.2] at again
          cases again
  | _ => exact Eq.trans right left

end Stretches

/-- Between two commits with nothing but other customers' commits in between, the user's balance,
requests, vouchers and devices are as before, and so are the user's sessions, but for those on
whose MAC another customer has connected. -/
theorem customers_apart (config : Config) (pool : ServerPool) (reached : Reached config pool)
    (user first last : Nat) (ordered : first ≤ last) (bound : last ≤ pool.state.db.log.length)
    (account : UserRow) (known : storeAfter pool.state.db.log first .users user = some account)
    (elsewhere : ∀ index thread acts call, first ≤ index → index < last →
      pool.state.db.log[index]? = some (thread, acts) →
      pool.state.arrivals[thread]? = some call → call.Elsewhere user)
    (table : TableName) (id : Nat) :
    (∀ row, storeAfter pool.state.db.log first table id = some row → Owned user table id row →
      ∃ after, storeAfter pool.state.db.log last table id = some after ∧
        Undisturbed pool.state user first last table row after) ∧
    ∀ after, storeAfter pool.state.db.log last table id = some after → Owned user table id after →
      ∃ row, storeAfter pool.state.db.log first table id = some row ∧ Owned user table id row := by
  have legit := reached_legit reached
  have step : ∀ index thread acts call, first ≤ index → index < last →
      pool.state.db.log[index]? = some (thread, acts) → pool.state.arrivals[thread]? = some call →
        ∀ entry ∈ acts, Spares pool.state index user call entry := by
    intro index thread acts call low high found called
    obtain ⟨_, still, _⟩ := @row_same _ _ legit .users (by simp) (by simp) _ _ _ _ low
      (Nat.le_trans (Nat.le_of_lt high) bound) known
    exact elsewhere_spares reached found called
      (elsewhere index thread acts call low high found called) (by simp [still])
  constructor
  · intro row present mine
    suffices both : first ≤ last ∧ ∃ after,
        storeAfter pool.state.db.log last table id = some after ∧
        Undisturbed pool.state user first last table row after from both.2
    refine log_stretch legit (fun commits => first ≤ commits ∧ ∃ after,
      storeAfter pool.state.db.log commits table id = some after ∧
        Undisturbed pool.state user first commits table row after) ordered bound
        ⟨Nat.le_refl _, row, present, ?_⟩ ?_
    · cases table with
      | sessions => exact Or.inl rfl
      | _ => rfl
    · rintro index thread acts call low high found called _ next ⟨_, between, held, kept⟩
      obtain ⟨after, left, onward⟩ := spared_row (step index thread acts call low high found called)
        found called held (undisturbed_owned kept mine)
      exact ⟨Nat.le_succ_of_le low, after, next ▸ left,
        undisturbed_trans low (Nat.le_succ _) kept onward⟩
  · refine log_stretch legit (fun commits => ∀ after,
      storeAfter pool.state.db.log commits table id = some after → Owned user table id after →
        ∃ row, storeAfter pool.state.db.log first table id = some row ∧ Owned user table id row)
        ordered bound (fun after present mine => ⟨after, present, mine⟩) ?_
    intro index thread acts call low high found called _ next earlier after present mine
    rw [next] at present
    obtain ⟨row, before, own⟩ :=
      spared_before (step index thread acts call low high found called) present mine
    exact earlier row before own

def stranger : AuthUser := ⟨3, ['2'], .customer⟩

/-- The stranger connects with the MAC that the guest is online with. -/
def sameMac : List (Move Choice Call Ambient) :=
  .start (.seedAdmin staff.username ['s', 'e', 'c', 'r', 'e', 't'] 2) :: steps 0 10 ++
    [.start (.grant staff 2 anHour)] ++ steps 1 4 ++
    [.start (.grant staff 3 anHour)] ++ steps 2 4 ++
    [.ambient (.clients [(phoneMac, ⟨some phoneMac, some phoneIp, some preauthenticated⟩)]),
      .start (.connect guest phone)] ++ steps 3 10 ++
      [.start (.connect stranger phone)] ++ steps 4 12

def sessionAt (pool : ServerPool) (commits id : Nat) : Option SessionRow :=
  storeAfter pool.state.db.log commits .sessions id

theorem customers_apart_takeover : ∃ pool, Reached shop pool ∧ ∃ before after : SessionRow,
    sessionAt pool 5 1 = some before ∧ before.userId = 2 ∧ before.status = .active ∧
      sessionAt pool 6 1 = some after ∧ after.status = .ended ∧
      Taken pool.state 2 5 6 before after := by
  obtain ⟨pool, reached, arrivals, seen⟩ := play_shows shop sameMac
    (fun pool => (pool.state.db.log.map (·.1),
      (storeAfter pool.state.db.log 5 .users 2).isSome,
      (sessionAt pool 5 1).map fun s => (s.userId, s.status),
      (sessionAt pool 6 1).map fun s => s.status))
    ([0, 0, 1, 2, 3, 4], true, some (2, .active), some .ended) (by decide +kernel)
  obtain ⟨threads, seen⟩ := Prod.mk.inj seen
  obtain ⟨account, seen⟩ := Prod.mk.inj seen
  obtain ⟨early, late⟩ := Prod.mk.inj seen
  obtain ⟨known, row⟩ := Option.isSome_iff_exists.mp account
  obtain ⟨before, present, same⟩ := Option.map_eq_some_iff.mp early
  obtain ⟨owner, active⟩ := Prod.mk.inj same
  obtain ⟨after, left, ended⟩ := Option.map_eq_some_iff.mp late
  have bound : 6 ≤ pool.state.db.log.length := by
    rw [← List.length_map (f := fun block : Block => block.1), threads]
    decide
  have elsewhere : ∀ (index thread : Nat) (acts : List Entry) (call : Call), 5 ≤ index → index < 6 →
      pool.state.db.log[index]? = some (thread, acts) →
      pool.state.arrivals[thread]? = some call → call.Elsewhere 2 := by
    intro index thread acts call low high found called
    obtain rfl : index = 5 := by omega
    have mover : (pool.state.db.log.map (·.1))[5]? = some thread := by simp [found]
    rw [threads] at mover
    obtain rfl : 4 = thread := by simpa using mover
    rw [arrivals] at called
    cases called
    exact (by decide : stranger.id ≠ 2)
  obtain ⟨kept, _⟩ := customers_apart shop pool reached 2 5 6 (by decide) bound known row elsewhere
    .sessions 1
  obtain ⟨after', left', undisturbed⟩ := kept before present owner
  cases left.symm.trans left'
  refine ⟨pool, reached, before, after, present, owner, active, left, ended, ?_⟩
  exact undisturbed.resolve_left fun same => by
    rw [same, active] at ended
    cases ended

end Cybera
