import Cybera.Waiting

/-!
What the calls hold while they wait. Every lock is taken inside a transaction, and when a
call waits it holds rows of few tables, or none: a redeemed voucher before the account,
a decided request before the account. Only connect and the pass take rows in both orders.
-/

namespace Cybera

open Interleaving

/-- The tables of the rows that a call may hold when it has to wait. -/
def Call.holds : Call → List TableName
  | .connect .. | .tick => [.users, .sessions, .devices]
  | .kick .. => [.sessions]
  | .redeem .. | .generate .. => [.vouchers]
  | .decide .. => [.planRequests]
  | .seedAdmin .. => [.users]
  | _ => []

/-- The tables of the rows that it may then wait for, those apart that it holds. -/
def Call.wants : Call → List TableName
  | .connect .. => [.sessions, .devices]
  | .tick => [.users, .sessions, .devices]
  | .redeem .. | .decide .. | .seedAdmin .. => [.users]
  | .generate .. => [.vouchers]
  | _ => []

def OneOnMac (past : Past) : Prop :=
  ∀ mac ids, ⟨.query (.activeSessionsOn mac), .ok ids⟩ ∈ past → ids.length ≤ 1

def Revisits (past : Past) (cmd : Cmd) : Prop :=
  ∃ table id op, cmd = .update table id op ∧ (table, id) ∈ heldRows past

/-- The rows taken since the last COMMIT are seats before the next one. -/
def Seats (next : Nat) (past : Past) : Prop :=
  ∀ done ∈ openPast past, (takenBy done).isSome → ∃ hash earlier answer, earlier < next ∧
    done = ⟨.insert .users (fun _ => newUser (numberName earlier) hash .customer) true, answer⟩

/-- The seed script inserts the seats in ascending order. -/
def Enrols (past : Past) (cmd : Cmd) : Prop :=
  ∃ hash seat, cmd = .insert .users (fun _ => newUser (numberName seat) hash .customer) true ∧
    Seats seat past

/-- How a call stands that locks a row while it holds others. -/
structure Stance (call : Call) (past : Past) (cmd : Cmd) : Prop where
  within : ∀ row ∈ heldRows past, row.1 ∈ call.holds
  aims : Revisits past cmd ∨ ∃ table ∈ call.wants, cmd.table = some table
  enrols : ∀ adminUser adminPass clientCount, call = .seedAdmin adminUser adminPass clientCount →
    Enrols past cmd

def Poised (call : Call) (past : Past) (cmd : Cmd) : Prop :=
  cmd.table.isSome → heldRows past ≠ [] → OneOnMac past → Stance call past cmd

def Seated (call : Call) (past : Past) (cmd : Cmd) : Prop :=
  (cmd.table.isSome → Begun past) ∧ Poised call past cmd

/-- No transaction is open and no row is held. -/
structure Rested (past : Past) : Prop where
  outside : Outside past
  empty : heldRows past = []

def Cmd.Within (cmd : Cmd) : Prop := ¬ cmd.Closes ∧ cmd ≠ .begin

/-- The commands that neither lock a row nor begin or end a transaction. -/
def Cmd.Loose (cmd : Cmd) : Prop := cmd.Within ∧ cmd.table = none

theorem taken_table {cmd : Cmd} {answer : Except Failure (Res cmd)} {row : RowRef}
    (taken : takenBy ⟨cmd, answer⟩ = some row) : cmd.table = some row.1 := by
  cases cmd with
  | lock table id =>
      rcases answer with error | _ | row
      · cases taken
      · cases taken
      · cases taken
        rfl
  | update table id op =>
      rcases answer with error | _ | row
      · cases taken
      · cases taken
      · cases taken
        rfl
  | insert table made skip =>
      rcases answer with error | _ | made
      · cases taken
      · cases taken
      · cases taken
        rfl
  | deletePlan id =>
      rcases answer with error | _
      · cases taken
      · cases taken
        rfl
  | _ => cases taken

theorem loose_untaken {cmd : Cmd} {answer : Except Failure (Res cmd)} (loose : cmd.Loose) :
    takenBy ⟨cmd, answer⟩ = none := by
  cases taken : takenBy ⟨cmd, answer⟩ with
  | none => rfl
  | some row =>
      have table := taken_table taken
      rw [loose.2] at table
      cases table

section Order
variable {call : Call} {past : Past} {α : Type}

theorem rested_nil : Rested [] := ⟨trivial, rfl⟩

theorem rested_cons {cmd : Cmd} {answer : Except Failure (Res cmd)} (loose : cmd.Loose)
    (rested : Rested past) : Rested (⟨cmd, answer⟩ :: past) where
  outside := (outside_plain loose.1.1 loose.1.2).mpr rested.outside
  empty := (heldRows_quiet loose.1.1 (loose_untaken loose)).trans rested.empty

theorem rested_closed {cmd : Cmd} {answer : Except Failure (Res cmd)} (closes : cmd.Closes) :
    Rested (⟨cmd, answer⟩ :: past) := by
  refine ⟨?_, heldRows_closed closes⟩
  cases cmd with
  | commit | rollback => trivial
  | _ => exact closes.elim

theorem poised_loose {cmd : Cmd} (none' : cmd.table = none) : Poised call past cmd := by
  intro locks
  rw [none'] at locks
  cases locks

theorem unseated {cmd : Cmd} (none' : cmd.table = none) : Seated call past cmd := by
  refine ⟨fun locks => ?_, poised_loose none'⟩
  rw [none'] at locks
  cases locks

/-- The program takes and leaves its rows in transactions, wherever it starts at rest. -/
def Behaves (call : Call) (program : Program α) : Prop :=
  ∀ past, Rested past → Along (Seated call) (fun _ => Rested) program past

theorem behaves_loose {program : Program α} (uses : program.Uses Cmd.Loose) :
    Behaves call program := by
  intro past rested
  refine along_keeps Rested ?_ ?_ program uses rested
  · exact fun past cmd loose _ => unseated loose.2
  · exact fun past cmd answer loose => rested_cons loose

theorem behaves_bind {β : Type} {program : Program α} {rest : α → Program β}
    (first : Behaves call program) (next : ∀ value, Behaves call (rest value)) :
    Behaves call (program.bind rest) := by
  intro past rested
  apply along_bind
  refine along_post ?_ _ (first past rested)
  rintro (error | value) after rested'
  · exact rested'
  · exact next value after rested'

theorem behaves_done (value : α) : Behaves call (.done value) := fun _ rested => rested

theorem behaves_perform {cmd : Cmd} (loose : cmd.Loose) : Behaves call (perform cmd) :=
  behaves_loose (Prog.uses_perform loose)

theorem behaves_throwIf (condition : Bool) (error : Failure) :
    Behaves call (Prog.throwIf condition error) := behaves_loose (uses_throwIf _ _)

theorem behaves_orThrow (value : Option α) (error : Failure) :
    Behaves call (Prog.orThrow value error) := behaves_loose (uses_orThrow _ _)

theorem loose_of {cmd : Cmd} (plain : ¬ cmd.Closes) (begins : cmd ≠ .begin)
    (none' : cmd.table = none) : cmd.Loose := ⟨⟨plain, begins⟩, none'⟩

theorem loose_query (query : Query) : (Cmd.query query).Loose := loose_of id (by simp) rfl

theorem loose_audit (actor : Option Nat) (action : String) : (Cmd.audit actor action).Loose :=
  loose_of id (by simp) rfl

theorem behaves_log (actor : Option Nat) (action : String) :
    Behaves call (AuditService.log actor action) := behaves_loose (uses_audit (loose_audit _ _))

theorem behaves_tx {body : Program α} (uses : body.Uses Cmd.Within)
    (inside : ∀ past, heldRows past = [] → Along (Poised call) (Ends fun _ _ => True) body past) :
    Behaves call (DbService.tx body) := by
  intro past rested
  -- whatever fails inside, the ROLLBACK lets go of the rows
  have undo : ∀ {past : Past} (error : Failure), Along (Seated call) (fun _ => Rested)
      ((perform .rollback).bind fun _ => (.raise error : Program α)) past := fun error =>
    along_perform _ _ (unseated rfl) (fun _ => rested_closed trivial) fun _ => rested_closed trivial
  apply along_rescue
  refine along_perform _ _ (unseated rfl) (fun _ => ?_) fun _ => undo _
  apply along_bind
  have begun : Along (fun past _ => Begun past) (fun _ => Begun) body (⟨.begin, .ok ()⟩ :: past) :=
    along_keeps Begun (fun _ _ _ begun => begun)
      (fun _ _ _ within => (begun_plain within.1 within.2).mpr) body uses trivial
  have nothing : heldRows (⟨.begin, .ok ()⟩ :: past) = [] :=
    (heldRows_quiet id rfl).trans rested.empty
  refine along_mono ?_ ?_ _ (along_and _ begun (inside _ nothing))
  · exact fun past cmd known => ⟨fun _ => known.1, known.2⟩
  · rintro (error | value) after _
    · exact undo error
    · exact along_perform _ _ (unseated rfl) (fun _ => rested_closed trivial) fun _ => undo _

theorem poised_nothing {cmd : Cmd} (nothing : heldRows past = []) : Poised call past cmd :=
  fun _ held => absurd nothing held

theorem within_update (table : TableName) (id : Nat) (op : Op table) :
    (Cmd.update table id op).Within :=
  ⟨fun closes => closes, by simp⟩

theorem within_insert (table : TableName) (row : Time → Row table) (skip : Bool) :
    (Cmd.insert table row skip).Within := ⟨fun closes => closes, by simp⟩

theorem within_lock (table : TableName) (id : Nat) : (Cmd.lock table id).Within :=
  ⟨fun closes => closes, by simp⟩

theorem within_query (query : Query) : (Cmd.query query).Within := (loose_query query).1

theorem behaves_update (table : TableName) (id : Nat) (op : Op table) :
    Behaves call (DbService.tx (updateRow table id op)) := by
  refine behaves_tx (Prog.uses_perform (within_update _ _ _)) fun past nothing => ?_
  refine ⟨poised_nothing nothing, ?_⟩
  rintro (error | row) <;> trivial

theorem behaves_insertRow (table : TableName) (row : Time → Row table) :
    Behaves call (DbService.tx (insertRow table row)) := by
  refine behaves_tx (uses_insertRow (within_insert _ _ _)) fun past nothing => ?_
  refine ⟨poised_nothing nothing, ?_⟩
  rintro (error | _ | made) <;> trivial

theorem behaves_delete (id : Nat) : Behaves call (DbService.tx (perform (.deletePlan id))) := by
  refine behaves_tx (Prog.uses_perform ⟨fun closes => closes, by simp⟩) fun past nothing => ?_
  refine ⟨poised_nothing nothing, ?_⟩
  rintro (error | row) <;> trivial

/-- The rows held are of these tables. -/
def HoldsOnly (tables : List TableName) (past : Past) : Prop :=
  ∀ row ∈ heldRows past, row.1 ∈ tables

theorem holdsOnly_nothing (tables : List TableName) (nothing : heldRows past = []) :
    HoldsOnly tables past := by
  intro row member
  rw [nothing] at member
  cases member

theorem holdsOnly_cons {tables : List TableName} {cmd : Cmd} (answer : Except Failure (Res cmd))
    (within : cmd.Within) (listed : ∀ table, cmd.table = some table → table ∈ tables)
    (only : HoldsOnly tables past) : HoldsOnly tables (⟨cmd, answer⟩ :: past) := by
  intro row member
  rcases (mem_heldRows within.1).mp member with taken | earlier
  · exact listed row.1 (taken_table taken)
  · exact only row earlier

/-- The call holds the row, and other rows of the same tables at most. -/
structure Grips (tables : List TableName) (row : RowRef) (past : Past) : Prop where
  only : HoldsOnly tables past
  member : row ∈ heldRows past

theorem grips_locked {table : TableName} (id : Nat) (row : Row table)
    (nothing : heldRows past = []) :
    Grips [table] (table, id) (⟨.lock table id, .ok (some row)⟩ :: past) where
  only := holdsOnly_cons _ (within_lock _ _) (by simp [Cmd.table]) (holdsOnly_nothing _ nothing)
  member := (mem_heldRows (within_lock _ _).1).mpr (Or.inl rfl)

theorem grips_cons {tables : List TableName} {row : RowRef} {cmd : Cmd}
    (answer : Except Failure (Res cmd)) (within : cmd.Within)
    (listed : ∀ table, cmd.table = some table → table ∈ tables) (grips : Grips tables row past) :
    Grips tables row (⟨cmd, answer⟩ :: past) where
  only := holdsOnly_cons answer within listed grips.only
  member := (mem_heldRows within.1).mpr (Or.inr grips.member)

/-- All but the seeding, which locks in a known order. -/
def Call.Unseeding (call : Call) : Prop :=
  ∀ adminUser adminPass clientCount, call ≠ .seedAdmin adminUser adminPass clientCount

theorem poised_wants {cmd : Cmd} {table : TableName} (unseeding : call.Unseeding)
    (only : HoldsOnly call.holds past) (aims : cmd.table = some table)
    (wanted : table ∈ call.wants) : Poised call past cmd := fun _ _ _ =>
  ⟨only, Or.inr ⟨table, wanted, aims⟩, fun _ _ _ same => absurd same (unseeding _ _ _)⟩

theorem poised_revisits {table : TableName} {id : Nat} {op : Op table} (unseeding : call.Unseeding)
    (grips : Grips call.holds (table, id) past) :
    Poised call past (.update table id op) := fun _ _ _ =>
  ⟨grips.only, Or.inl ⟨table, id, op, rfl, grips.member⟩,
    fun _ _ _ same => absurd same (unseeding _ _ _)⟩

theorem along_wanted (call : Call) {program : Program α} (unseeding : call.Unseeding)
    (covered : ∀ table ∈ call.wants, table ∈ call.holds)
    (uses : program.Uses fun cmd => cmd.Within ∧
      ∀ table, cmd.table = some table → table ∈ call.wants)
    (only : HoldsOnly call.holds past) :
    Along (Poised call) (fun _ => HoldsOnly call.holds) program past := by
  refine along_keeps (HoldsOnly call.holds) ?_ ?_ program uses only
  · rintro past cmd ⟨_, wanted⟩ only' locks
    obtain ⟨table, aims⟩ := Option.isSome_iff_exists.mp locks
    exact poised_wants unseeding only' aims (wanted table aims) locks
  · rintro past cmd answer ⟨within, wanted⟩ only'
    exact holdsOnly_cons answer within (fun table aims => covered table (wanted table aims)) only'

end Order

section Calls
variable {config : Config}

theorem redeem_behaves (user : AuthUser) (dto : RedeemVoucherDto) :
    Behaves (.redeem user dto) (VouchersService.redeem user dto) := by
  have unseeding : Call.Unseeding (.redeem user dto) := by simp [Call.Unseeding]
  refine behaves_bind (behaves_tx ?_ fun past nothing => ?_) fun voucher =>
    behaves_bind (behaves_log _ _) fun _ => behaves_done _
  · refine Prog.uses_bind ?_ fun found => ?_
    · refine Prog.uses_bind (uses_select (within_query _)) fun found => ?_
      cases found with
      | none => trivial
      | some id => exact Prog.uses_bind (Prog.uses_perform (within_lock _ _)) fun _ => trivial
    refine Prog.uses_bind (uses_orThrow _ _) fun v => ?_
    refine Prog.uses_bind (uses_throwIf _ _) fun _ => ?_
    refine Prog.uses_bind (uses_throwIf _ _) fun _ => ?_
    refine Prog.uses_bind ?_ fun _ => ?_
    · unfold expireOnTouch
      split
      · trivial
      · refine Prog.uses_bind (Prog.uses_perform ⟨fun closes => closes, by simp⟩) fun now => ?_
        split
        · exact Prog.uses_bind (Prog.uses_perform (within_update _ _ _)) fun _ => trivial
        · trivial
    exact Prog.uses_bind (Prog.uses_perform (within_update _ _ _)) fun _ =>
      Prog.uses_bind (Prog.uses_perform (within_update _ _ _)) fun _ => trivial
  · -- from the lock on the call holds the voucher and nothing else
    refine along_then (fun found past => ∀ key v, found = some (key, v) →
      Grips [.vouchers] (.vouchers, key) past) ?_ ?_
    · refine along_perform _ _ (poised_loose rfl) (fun found => ?_) fun _ => trivial
      have nothing' : heldRows
          (⟨.query (.voucherByCode (toUpperCase (trim dto.code))), .ok found⟩ :: past) = [] :=
        (heldRows_quiet (within_query _).1 rfl).trans nothing
      cases found with
      | none =>
          rintro _ _ impossible
          cases impossible
      | some key =>
          refine along_perform _ _ (poised_nothing nothing') (fun row => ?_) fun _ => trivial
          rintro _ v found
          obtain ⟨row', rfl, same⟩ := Option.map_eq_some_iff.mp found
          cases same
          exact grips_locked _ _ nothing'
    intro found past holds
    refine along_orThrow _ _ _ (fun _ => trivial) fun v same => ?_
    have grips := holds v.1 v.2 same
    refine along_throwIf _ _ _ (fun _ => trivial) fun _ => ?_
    refine along_throwIf _ _ _ (fun _ => trivial) fun _ => ?_
    refine along_then (fun _ => Grips [.vouchers] (.vouchers, v.1)) ?_ fun _ past grips => ?_
    · unfold expireOnTouch
      split
      · exact grips
      · refine along_perform _ _ (poised_loose rfl) (fun now => ?_) fun _ => trivial
        have grips' : Grips [.vouchers] (.vouchers, v.1) (⟨.dateNow, .ok now⟩ :: past) :=
          grips_cons _ ⟨fun closes => closes, by simp⟩ (by simp [Cmd.table]) grips
        split
        · exact along_perform _ _ (poised_revisits unseeding grips') (fun _ => trivial)
            fun _ => trivial
        · exact grips'
    · refine along_perform _ _ (poised_revisits unseeding grips) (fun row => ?_) fun _ => trivial
      have only := holdsOnly_cons (.ok row) (within_update .vouchers v.1 (.redeem user.id))
        (by simp [Cmd.table]) grips.only
      exact along_perform _ _ (poised_wants unseeding only rfl (by simp [Call.wants]))
        (fun _ => trivial) fun _ => trivial

theorem generateLoop_behaves (actor : AuthUser) (dto : GenerateVouchersDto) (total attempts : Nat)
    (codes : List Text) :
    Behaves (.generate actor dto total) (generateLoop config actor dto attempts codes) := by
  have random : ∀ count, (randomCodes count).Uses Cmd.Loose := by
    intro count
    induction count with
    | zero => trivial
    | succ count ih =>
        refine Prog.uses_bind (Prog.uses_perform (loose_of id (by simp) rfl)) fun _ => ?_
        exact Prog.uses_bind ih fun _ => trivial
  have batches : ∀ batch, Behaves (.generate actor dto total)
      (insertBatch config actor dto batch) := by
    intro batch
    unfold insertBatch
    split
    case isFalse => exact fun _ rested => rested
    refine behaves_tx ?_ fun past nothing => ?_
    · exact Prog.uses_collect fun code _ =>
        Prog.uses_bind (Prog.uses_perform (within_insert _ _ _)) fun _ => trivial
    · refine along_post ?_ _ (along_wanted (.generate actor dto total) (by simp [Call.Unseeding])
        (fun _ wanted => wanted) ?_ (holdsOnly_nothing _ nothing))
      · rintro (error | value) after _ <;> trivial
      refine Prog.uses_collect fun code _ => Prog.uses_bind (Prog.uses_perform ?_) fun _ => trivial
      exact ⟨within_insert _ _ _, by simp [Cmd.table, Call.wants]⟩
  induction attempts generalizing codes with
  | zero =>
      unfold generateLoop
      split
      · exact fun _ rested => rested
      · exact behaves_done _
  | succ attempts ih =>
      unfold generateLoop
      split
      · exact behaves_bind (behaves_loose (random _)) fun batch =>
          behaves_bind (batches batch) fun _ => ih _
      · exact behaves_done _

theorem generate_behaves (actor : AuthUser) (dto : GenerateVouchersDto) (attempts : Nat) :
    Behaves (.generate actor dto attempts) (VouchersService.generate config actor dto attempts) :=
  behaves_bind (generateLoop_behaves actor dto attempts attempts []) fun _ =>
    behaves_bind (behaves_log _ _) fun _ =>
      behaves_bind (behaves_perform (loose_query _)) fun _ => behaves_done _

theorem create_behaves (user : AuthUser) (dto : CreateRequestDto) :
    Behaves (.createRequest user dto) (RequestsService.create user dto) := by
  refine behaves_bind (behaves_orThrow _ _) fun source => ?_
  refine behaves_bind ?_ fun _ => behaves_bind (behaves_perform (loose_query _)) fun pending => ?_
  · unfold checkPlan
    cases dto.planId with
    | none => exact behaves_done _
    | some planId =>
        exact behaves_bind (behaves_perform (loose_query _)) fun _ => behaves_throwIf _ _
  · refine behaves_bind ?_ fun request => behaves_bind (behaves_log _ _) fun _ => behaves_done _
    cases pending with
    | none => exact behaves_insertRow _ _
    | some id =>
        exact behaves_bind (behaves_update _ _ _) fun _ =>
          behaves_bind (behaves_orThrow _ _) fun _ => behaves_done _

theorem decide_behaves (actor : AuthUser) (requestId : Nat) (approve : Bool) :
    Behaves (.decide actor requestId approve) (RequestsService.decide actor requestId approve) := by
  have unseeding : Call.Unseeding (.decide actor requestId approve) := by simp [Call.Unseeding]
  refine behaves_bind (behaves_tx ?_ fun past nothing => ?_) fun _ =>
    behaves_bind (behaves_log _ _) fun _ => behaves_done _
  · refine Prog.uses_bind (uses_selectRequestForUpdate _ (within_query _) (within_lock _ _))
      fun _ => ?_
    refine Prog.uses_bind (uses_orThrow _ _) fun request => ?_
    refine Prog.uses_bind (uses_throwIf _ _) fun _ => ?_
    refine Prog.uses_bind (Prog.uses_perform (within_update _ _ _)) fun _ => ?_
    cases approve with
    | false => trivial
    | true => exact Prog.uses_bind (Prog.uses_perform (within_update _ _ _)) fun _ => trivial
  · -- from the lock on the call holds the request and nothing else
    refine along_then (fun found past => ∀ r, found = some r →
      Grips [.planRequests] (.planRequests, requestId) past) ?_ ?_
    · refine along_perform _ _ (poised_loose rfl) (fun found => ?_) fun _ => trivial
      have nothing' : heldRows (⟨.query (.requestWithPlan requestId), .ok found⟩ :: past) = [] :=
        (heldRows_quiet (within_query _).1 rfl).trans nothing
      cases found with
      | none =>
          rintro _ impossible
          cases impossible
      | some before =>
          refine along_perform _ _ (poised_nothing nothing') (fun row => ?_) fun _ => trivial
          intro r found
          obtain ⟨row', rfl, _⟩ := Option.map_eq_some_iff.mp found
          exact grips_locked _ _ nothing'
    intro found past holds
    refine along_orThrow _ _ _ (fun _ => trivial) fun r same => ?_
    have grips := holds r same
    refine along_throwIf _ _ _ (fun _ => trivial) fun _ => ?_
    refine along_perform _ _ (poised_revisits unseeding grips) (fun decided => ?_) fun _ => trivial
    cases approve with
    | false => trivial
    | true =>
        have only := holdsOnly_cons (.ok decided) (within_update .planRequests requestId
          (.decide (decision true) actor.id)) (by simp [Cmd.table]) grips.only
        exact along_perform _ _ (poised_wants unseeding only rfl (by simp [Call.wants]))
          (fun _ => trivial) fun _ => trivial

theorem grant_behaves (actor : AuthUser) (id : Nat) (dto : GrantTimeDto) :
    Behaves (.grant actor id dto) (AdminController.grant actor id dto) :=
  behaves_bind (behaves_update _ _ _) fun _ => behaves_bind (behaves_orThrow _ _) fun _ =>
    behaves_bind (behaves_log _ _) fun _ => behaves_done _

theorem removePlan_behaves (actor : AuthUser) (id : Nat) :
    Behaves (.removePlan actor id) (PlansService.remove actor id) := by
  refine behaves_bind (behaves_perform (loose_query _)) fun referenced => ?_
  cases referenced with
  | true =>
      exact behaves_bind (behaves_update _ _ _) fun _ =>
        behaves_bind (behaves_log _ _) fun _ => behaves_done _
  | false =>
      exact behaves_bind (behaves_delete _) fun _ =>
        behaves_bind (behaves_log _ _) fun _ => behaves_done _

theorem loose_random (count : Nat) : (Cmd.randomBytes count).Loose := loose_of id (by simp) rfl

theorem behaves_argon2 {call : Call} (password : Text) :
    Behaves call (argon2HashOf config password) :=
  behaves_bind (behaves_perform (loose_random _)) fun _ => behaves_done _

theorem register_behaves (dto : RegisterDto) :
    Behaves (.register dto) (AuthService.register config dto) :=
  behaves_bind (behaves_perform (loose_query _)) fun _ =>
    behaves_bind (behaves_throwIf _ _) fun _ => behaves_bind (behaves_argon2 _) fun _ =>
      behaves_bind (behaves_insertRow _ _) fun _ =>
        behaves_bind (behaves_log _ _) fun _ => behaves_done _

theorem clientLogin_behaves (dto : ClientLoginDto) :
    Behaves (.clientLogin dto) (AuthService.clientLogin dto) :=
  behaves_bind (behaves_perform (loose_query _)) fun _ =>
    behaves_bind (behaves_orThrow _ _) fun _ => behaves_bind (behaves_log _ _) fun _ =>
      behaves_done _

theorem login_behaves (dto : LoginDto) : Behaves (.login dto) (AuthService.login config dto) :=
  behaves_bind (behaves_perform (loose_query _)) fun _ =>
    behaves_bind (behaves_orThrow _ _) fun _ => behaves_bind (behaves_throwIf _ _) fun _ =>
      behaves_bind (behaves_log _ _) fun _ => behaves_done _

theorem loose_ndsctl (command : NdsCommand) : (Cmd.ndsctl command).Loose :=
  loose_of id (by simp) rfl

theorem connect_behaves (user : AuthUser) (dto : ConnectDto) :
    Behaves (.connect user dto) (SessionsService.connect config user dto) := by
  refine behaves_bind (behaves_throwIf _ _) fun _ => ?_
  refine behaves_bind (behaves_perform (loose_query _)) fun _ => ?_
  refine behaves_bind (behaves_throwIf _ _) fun _ => ?_
  refine behaves_bind (behaves_tx ?_ fun past nothing => ?_) fun seconds => ?_
  · refine Prog.uses_bind (Prog.uses_perform (within_lock _ _)) fun _ => ?_
    refine Prog.uses_bind (uses_orThrow _ _) fun account => ?_
    refine Prog.uses_bind (uses_throwIf _ _) fun _ => ?_
    refine Prog.uses_bind (uses_lockActiveSessions _ within_query fun _ => within_lock _ _)
      fun rows => ?_
    refine Prog.uses_bind (uses_throwIf _ _) fun _ => ?_
    refine Prog.uses_bind (uses_upsertDevice _ _ _ within_query (fun _ => within_insert _ _ _)
      fun _ => within_update _ _ _) fun _ => ?_
    exact Prog.uses_bind (uses_openOrRefresh _ _ _ _ _ within_query (fun _ => within_lock _ _)
      (fun _ => within_update _ _ _) (fun _ => within_update _ _ _) (within_insert _ _ _))
      fun _ => trivial
  · refine along_perform _ _ (poised_nothing nothing) (fun locked => ?_) fun _ => trivial
    have only : HoldsOnly [.users, .sessions, .devices]
        (⟨.lock .users user.id, .ok locked⟩ :: past) :=
      holdsOnly_cons _ (within_lock _ _) (by simp [Cmd.table]) (holdsOnly_nothing _ nothing)
    refine along_post ?_ _ (along_wanted (.connect user dto) (by simp [Call.Unseeding])
      (by simp [Call.wants, Call.holds]) ?_ only)
    · rintro (error | value) after _ <;> trivial
    have asks : ∀ query, (Cmd.query query).Within ∧ ∀ table, (Cmd.query query).table = some table →
        table ∈ (Call.connect user dto).wants := fun query => ⟨within_query _, by simp [Cmd.table]⟩
    have locks : ∀ id, (Cmd.lock .sessions id).Within ∧ ∀ table, (Cmd.lock .sessions id).table =
        some table → table ∈ (Call.connect user dto).wants :=
      fun id => ⟨within_lock _ _, by simp [Cmd.table, Call.wants]⟩
    refine Prog.uses_bind (uses_orThrow _ _) fun account => ?_
    refine Prog.uses_bind (uses_throwIf _ _) fun _ => ?_
    refine Prog.uses_bind (uses_lockActiveSessions _ asks locks) fun rows => ?_
    refine Prog.uses_bind (uses_throwIf _ _) fun _ => ?_
    refine Prog.uses_bind (uses_upsertDevice _ _ _ asks ?_ ?_) fun _ => ?_
    · exact fun _ => ⟨within_insert _ _ _, by simp [Cmd.table, Call.wants]⟩
    · exact fun _ => ⟨within_update _ _ _, by simp [Cmd.table, Call.wants]⟩
    · refine Prog.uses_bind (uses_openOrRefresh _ _ _ _ _ asks locks ?_ ?_ ?_) fun _ => trivial
      · exact fun _ => ⟨within_update _ _ _, by simp [Cmd.table, Call.wants]⟩
      · exact fun _ => ⟨within_update _ _ _, by simp [Cmd.table, Call.wants]⟩
      · exact ⟨within_insert _ _ _, by simp [Cmd.table, Call.wants]⟩
  · exact behaves_bind (behaves_perform (loose_ndsctl _)) fun _ =>
      behaves_bind (behaves_log _ _) fun _ => behaves_done _

theorem uses_anything {α : Type} (program : Program α) : program.Uses fun _ => True := by
  induction program with
  | done value => trivial
  | raise error => trivial
  | exec cmd next ih => exact ⟨trivial, ih⟩

theorem kick_behaves (actor : AuthUser) (mac : Text) :
    Behaves (.kick actor mac) (SessionsService.kick actor mac) := by
  have unseeding : Call.Unseeding (.kick actor mac) := by simp [Call.Unseeding]
  refine behaves_bind (behaves_perform (loose_query _)) fun active => ?_
  refine behaves_bind (behaves_loose (uses_deauth _ (loose_ndsctl _))) fun _ => ?_
  refine behaves_bind (behaves_loose (Prog.uses_each fun ip _ =>
    uses_flushConntrack _ (loose_ndsctl _))) fun _ => ?_
  refine behaves_bind (behaves_tx ?_ fun past nothing => ?_) fun _ =>
    behaves_bind (behaves_log _ _) fun _ => behaves_done _
  · exact uses_finishActiveOn _ _ within_query (fun _ => within_lock _ _)
      fun _ => within_update _ _ _
  · refine along_perform _ _ (poised_loose rfl) (fun ids => ?_) fun _ => trivial
    have nothing' :
        heldRows (⟨.query (.activeSessionsOn (toLowerCase mac)), .ok ids⟩ :: past) = [] :=
      (heldRows_quiet (within_query _).1 rfl).trans nothing
    by_cases one : ids.length ≤ 1
    · obtain rfl | ⟨key, rfl⟩ : ids = [] ∨ ∃ key, ids = [key] := by
        rw [← List.length_eq_zero_iff, ← List.length_eq_one_iff]
        omega
      · trivial
      · refine along_then (fun _ _ => True) ?_ fun _ _ _ => trivial
        refine along_perform _ _ (poised_nothing nothing') (fun row => ?_) fun _ => trivial
        cases row with
        | none => trivial
        | some s =>
            simp only
            split
            · exact along_perform _ _ (poised_revisits unseeding (grips_locked key s nothing'))
                (fun _ => trivial) fun _ => trivial
            · trivial
    · -- two active sessions on one MAC: the past rules that out
      refine along_post ?_ _ (along_keeps (fun past => ¬ OneOnMac past) ?_ ?_ _
        (uses_anything _) fun unique => one (unique _ _ List.mem_cons_self))
      · rintro (error | value) after _ <;> trivial
      · exact fun past cmd _ twice _ _ unique => absurd unique twice
      · exact fun past cmd answer _ twice unique =>
          twice fun mac ids member => unique mac ids (List.mem_cons_of_mem _ member)

theorem seats_nothing {past : Past} (nothing : heldRows past = []) (next : Nat) :
    Seats next past := by
  intro done member taken
  obtain ⟨row, same⟩ := Option.isSome_iff_exists.mp taken
  have held : row ∈ heldRows past := List.mem_filterMap.mpr ⟨done, member, same⟩
  rw [nothing] at held
  cases held

theorem seats_held {past : Past} {next : Nat} (seats : Seats next past) :
    HoldsOnly [.users] past := by
  intro row member
  obtain ⟨done, listed, taken⟩ := List.mem_filterMap.mp member
  obtain ⟨_, _, _, _, rfl⟩ := seats done listed (Option.isSome_of_eq_some taken)
  have table := taken_table taken
  rw [Cmd.table, Option.some.injEq] at table
  simp [← table]

theorem seedAdmin_behaves (adminUser adminPass : Text) (clientCount : Nat) :
    Behaves (.seedAdmin adminUser adminPass clientCount)
      (SeedAdmin.run config adminUser adminPass clientCount) := by
  refine behaves_bind (behaves_argon2 _) fun adminHash => ?_
  refine behaves_bind (behaves_tx ?_ fun past nothing => ?_) fun _ => ?_
  · refine Prog.uses_bind (Prog.uses_perform (within_insert _ _ _)) fun inserted => ?_
    refine (?_ : Prog.Uses Cmd.Within (if inserted.isSome then _ else _))
    split
    · trivial
    · refine Prog.uses_bind (uses_select (within_query _)) fun _ => ?_
      refine Prog.uses_bind (uses_orThrow _ _) fun user => ?_
      exact Prog.uses_bind (Prog.uses_perform (within_update _ _ _)) fun _ => trivial
  · refine along_perform _ _ (poised_nothing nothing) (fun inserted => ?_) fun _ => trivial
    cases inserted with
    | some made => trivial
    | none =>
        -- the account was there: nothing is locked yet
        refine along_perform _ _ (poised_loose rfl) (fun found => ?_) fun _ => trivial
        refine along_orThrow _ _ _ (fun _ => trivial) fun user _ => ?_
        refine along_perform _ _ (poised_nothing ?_) (fun _ => trivial) fun _ => trivial
        rw [heldRows_quiet (within_query _).1 rfl, heldRows_quiet (within_insert _ _ _).1 rfl,
          nothing]
  refine behaves_bind (behaves_perform (loose_random _)) fun secret => ?_
  refine behaves_bind (behaves_argon2 _) fun clientHash => ?_
  refine behaves_bind (behaves_tx ?_ fun past nothing => ?_) fun _ => behaves_done _
  · exact Prog.uses_each fun seat _ =>
      Prog.uses_bind (Prog.uses_perform (within_insert _ _ _)) fun _ => trivial
  · refine along_each (fun seats past => ∃ start count, seats = List.range' start count ∧
      Seats start past) _ ?_ (fun _ _ => trivial) _ ⟨1, clientCount, rfl, seats_nothing nothing 1⟩
    rintro seat rest past ⟨start, count, listed, seats⟩
    cases count with
    | zero => cases listed
    | succ count =>
        rw [List.range'_succ, List.cons.injEq] at listed
        obtain ⟨rfl, rfl⟩ := listed
        refine along_perform _ _ (fun _ _ _ => ⟨?_, ?_, ?_⟩) (fun inserted => ?_) fun _ => trivial
        · exact seats_held seats
        · exact Or.inr ⟨.users, by simp [Call.wants], rfl⟩
        · exact fun _ _ _ _ => ⟨clientHash, seat, rfl, seats⟩
        · refine ⟨seat + 1, count, rfl, ?_⟩
          rw [Seats, openPast_plain (within_insert _ _ _).1]
          intro done member taken
          rcases List.mem_cons.mp member with rfl | earlier
          · exact ⟨clientHash, seat, _, Nat.lt_succ_self _, rfl⟩
          · obtain ⟨hash, before, answer, less, same⟩ := seats done earlier taken
            exact ⟨hash, before, answer, Nat.lt_succ_of_lt less, same⟩

structure Passing (past : Past) : Prop where
  begun : Begun past
  only : HoldsOnly Call.tick.holds past

def Cmd.Pass (cmd : Cmd) : Prop :=
  cmd.Within ∧ ∀ table, cmd.table = some table → table ∈ Call.tick.wants

abbrev EndsRested {α : Type} : Except Failure α → Past → Prop := Ends fun _ => Rested

theorem along_passing {α β : Type} {program : Program α} {rest : α → Program β} {past : Past}
    (uses : program.Uses Cmd.Pass) (passing : Passing past)
    (next : ∀ value after, Passing after → Along (Seated .tick) EndsRested (rest value) after) :
    Along (Seated .tick) EndsRested (program.bind rest) past := by
  apply along_bind
  refine along_post ?_ _ (along_keeps Passing ?_ ?_ program uses passing)
  · rintro (error | value) after passing'
    · trivial
    · exact next value after passing'
  · rintro past cmd ⟨_, wanted⟩ passing'
    refine ⟨fun _ => passing'.begun, fun locks => ?_⟩
    obtain ⟨table, aims⟩ := Option.isSome_iff_exists.mp locks
    exact poised_wants (by simp [Call.Unseeding]) passing'.only aims (wanted table aims) locks
  · rintro past cmd answer ⟨within, wanted⟩ passing'
    exact ⟨(begun_plain within.1 within.2).mpr passing'.begun,
      holdsOnly_cons answer within wanted passing'.only⟩

theorem pass_query (query : Query) : (Cmd.query query).Pass := ⟨within_query _, by simp [Cmd.table]⟩

theorem settlement_passes (online : List (Text × Text)) {past : Past} (rested : Rested past) :
    Along (Seated .tick) EndsRested (settlement online) past := by
  have locks : ∀ table id, table ∈ Call.tick.wants → (Cmd.lock table id).Pass := by
    intro table id wanted
    refine ⟨within_lock _ _, fun named aims => ?_⟩
    rw [Cmd.table, Option.some.injEq] at aims
    exact aims ▸ wanted
  have updates : ∀ table id (op : Op table), table ∈ Call.tick.wants →
      (Cmd.update table id op).Pass := by
    intro table id op wanted
    refine ⟨within_update _ _ _, fun named aims => ?_⟩
    rw [Cmd.table, Option.some.injEq] at aims
    exact aims ▸ wanted
  refine along_perform _ _ (unseated rfl) (fun _ => ?_) fun _ => trivial
  have nothing : heldRows (⟨.begin, .ok ()⟩ :: past) = [] :=
    (heldRows_quiet id rfl).trans rested.empty
  refine along_passing ?_ ⟨trivial, holdsOnly_nothing _ nothing⟩ fun sessions _ passing => ?_
  · refine Prog.uses_bind (uses_select (pass_query _)) fun found => ?_
    refine Prog.uses_collect fun ids _ => ?_
    refine Prog.uses_bind (Prog.uses_perform (locks _ _ (by simp [Call.wants]))) fun _ => ?_
    exact Prog.uses_bind (Prog.uses_perform (locks _ _ (by simp [Call.wants]))) fun _ => trivial
  refine along_passing (Prog.uses_perform ⟨⟨id, by simp⟩, by simp [Cmd.table]⟩) passing
    fun now _ passing => ?_
  refine along_passing (Prog.uses_each fun session _ => uses_settle _ now session pass_query
    (fun _ => updates _ _ _ ?_) (fun _ => updates _ _ _ ?_) (fun _ => updates _ _ _ ?_)
    (updates _ _ _ ?_)) passing fun _ _ passing => ?_
  · simp [Call.wants]
  · simp [Call.wants]
  · simp [Call.wants]
  · simp [Call.wants]
  refine along_passing (uses_select (pass_query _)) passing fun exhausted _ passing => ?_
  refine along_passing (Prog.uses_each fun session _ => Prog.uses_bind (Prog.uses_perform
    (updates _ _ _ (by simp [Call.wants]))) fun _ => trivial) passing fun _ _ passing => ?_
  exact along_perform _ _ (unseated rfl) (fun _ => rested_closed trivial) fun _ => trivial

theorem tick_behaves : Behaves .tick SessionManager.tick := by
  refine behaves_bind (behaves_perform (loose_ndsctl _)) fun clients => ?_
  refine behaves_bind ?_ fun _ => behaves_bind (behaves_perform (loose_query _)) fun stillActive =>
    behaves_bind (behaves_loose (Prog.uses_each fun client _ => ?_)) fun _ => behaves_done _
  · intro past rested
    have undo : ∀ (error : Failure) past, Along (Seated .tick) (fun _ => Rested)
        (((perform .rollback).rescue fun _ => .done ()).bind fun _ =>
          (.raise error : Program Unit)) past := by
      refine fun error past => ⟨unseated rfl, ?_⟩
      rintro (failed | value)
      · exact rested_closed trivial
      · exact rested_closed trivial
    apply along_rescue
    apply along_bind
    refine along_post ?_ _ (settlement_passes (authedClients clients) rested)
    rintro (error | exhausted) after passed
    · exact undo error after
    · refine along_post ?_ _ (behaves_loose (Prog.uses_each fun session _ => ?_) after passed)
      · rintro (error | value) final rested'
        · exact undo error final
        · exact rested'
      · refine Prog.uses_bind (uses_deauth _ (loose_ndsctl _)) fun _ => ?_
        exact Prog.uses_bind (uses_flushConntrack _ (loose_ndsctl _)) fun _ =>
          Prog.uses_perform (loose_audit _ _)
  · unfold cutOrphan
    split
    · trivial
    · exact Prog.uses_bind (uses_deauth _ (loose_ndsctl _)) fun _ =>
        uses_flushConntrack _ (loose_ndsctl _)

theorem call_behaves (call : Call) : Behaves call (call.program config) := by
  cases call with
  | redeem user dto => exact redeem_behaves user dto
  | generate actor dto attempts => exact generate_behaves actor dto attempts
  | createRequest user dto => exact create_behaves user dto
  | listPending => exact behaves_bind (behaves_perform (loose_query _)) fun _ => behaves_done _
  | decide actor requestId approve => exact decide_behaves actor requestId approve
  | grant actor id dto => exact grant_behaves actor id dto
  | connect user dto => exact connect_behaves user dto
  | kick actor mac => exact kick_behaves actor mac
  | tick => exact tick_behaves
  | createPlan actor dto =>
      exact behaves_bind (behaves_insertRow _ _) fun _ => behaves_bind (behaves_log _ _) fun _ =>
        behaves_done _
  | updatePlan actor id dto =>
      exact behaves_bind (behaves_update _ _ _) fun _ => behaves_bind (behaves_orThrow _ _) fun _ =>
        behaves_bind (behaves_log _ _) fun _ => behaves_done _
  | removePlan actor id => exact removePlan_behaves actor id
  | register dto => exact register_behaves dto
  | clientLogin dto => exact clientLogin_behaves dto
  | login dto => exact login_behaves dto
  | seedAdmin adminUser adminPass clientCount =>
      exact seedAdmin_behaves adminUser adminPass clientCount

theorem call_seated (call : Call) :
    Along (Seated call) (fun _ => Rested) (call.program config) [] :=
  call_behaves call [] rested_nil

end Calls
end Cybera
