import Cybera.Completion
import Cybera.Residue
import Cybera.SideEffects

/-!
The order of a call's steps: at most one transaction, then the audit log, then only
reads. So a request has happened as a whole or not at all, and what the audit log says
has happened.
-/

namespace Cybera

open Interleaving

/-- The commands that may come at any time before the COMMIT. -/
def Cmd.Ordinary : Cmd → Prop
  | .begin | .commit | .rollback | .audit .. | .ndsctl (.auth ..) => False
  | _ => True

def Cmd.Changes : Cmd → Prop
  | .begin | .commit | .lock .. | .update .. | .insert .. | .deletePlan _ => True
  | _ => False

inductive WritesRow : Done Cmd Res Failure → Prop where
  | update {table : TableName} {id : Nat} {op : Op table} {row : Row table} :
      WritesRow ⟨.update table id op, .ok (some row)⟩
  | insert {table : TableName} {row : Time → Row table} {skip : Bool} {made : Nat × Row table} :
      WritesRow ⟨.insert table row skip, .ok (some made)⟩
  | delete {id : Nat} : WritesRow ⟨.deletePlan id, .ok ()⟩

theorem wrote_row {event : Event} {entry : Entry} (wrote : event.Wrote entry) :
    WritesRow event.done := by
  cases wrote with
  | update => exact .update
  | insert => exact .insert
  | delete => exact .delete

/-- The calls of one transaction. -/
def Call.Atomic : Call → Prop
  | .generate .. | .seedAdmin .. => False
  | _ => True

/-- The calls that change the database before they write to the audit log. -/
def Call.Commits : Call → Prop
  | .listPending | .login _ | .clientLogin _ => False
  | _ => True

/-- What a call writes to the audit log: who did what. -/
def Call.Audits : Call → Option Nat → String → Prop
  | .redeem user _, actor, action => actor = some user.id ∧ action = "voucher.redeem"
  | .generate by' _ _, actor, action => actor = some by'.id ∧ action = "voucher.generate"
  | .createRequest user _, actor, action => actor = some user.id ∧ action = "request.create"
  | .decide by' _ approve, actor, action =>
      actor = some by'.id ∧ action = if approve then "request.approve" else "request.reject"
  | .grant by' _ _, actor, action => actor = some by'.id ∧ action = "user.grant"
  | .connect user _, actor, action => actor = some user.id ∧ action = "session.connect"
  | .kick by' _, actor, action => actor = some by'.id ∧ action = "session.kick"
  | .tick, actor, action => actor = none ∧ action = "session.cutoff"
  | .createPlan by' _, actor, action => actor = some by'.id ∧ action = "plan.create"
  | .updatePlan by' _ _, actor, action => actor = some by'.id ∧ action = "plan.update"
  | .removePlan by' _, actor, action =>
      actor = some by'.id ∧ (action = "plan.deactivate" ∨ action = "plan.delete")
  | .register _, actor, action => actor.isSome = true ∧ action = "auth.register"
  | .clientLogin _, actor, action => actor.isSome = true ∧ action = "auth.client"
  | .login _, actor, action => actor.isSome = true ∧ action = "auth.login"
  | .listPending, _, _ | .seedAdmin .., _, _ => False

def Unwritten (past : Past) : Prop := ∀ done ∈ past, ¬ WritesRow done

def Unaudited (past : Past) : Prop := ∀ done ∈ past, done.1.isAudit = false

/-- Nothing but the inside of a transaction so far. -/
structure Clear (call : Call) (past : Past) : Prop where
  unaudited : Unaudited past
  uncommitted : call.Atomic → ∀ done ∈ past, done.1 ≠ .commit

/-- A COMMIT comes once, the audit log after it, and no change after that. -/
def Call.Turn (call : Call) (past : Past) : Cmd → Prop
  | .audit actor action => call.Audits actor action ∧ (call.Commits → Committed past) ∧
      (call ≠ .tick → Unaudited past)
  | .ndsctl (.auth ..) => Committed past
  | cmd => cmd.Changes → Clear call past

/-- One entry of the audit log, in the name of whom the reply names, and after it
nothing but SELECTs. -/
def AuditedOnce (call : Call) (reply : Reply) (past : Past) : Prop :=
  ∃ (after before : Past) (actor : Option Nat) (action : String) (answer : Except Failure Unit),
    past = after ++ ⟨.audit actor action, answer⟩ :: before ∧
    (∀ done ∈ after, ∃ query answer, done = ⟨.query query, answer⟩) ∧ Unaudited before ∧
    call.Audits actor action ∧ ∀ user, reply = .user user → actor = some user.id

/-- The calls of background work and of mere reading leave no entry. -/
def Call.Audited : Call → Prop
  | .listPending | .tick | .seedAdmin .. => False
  | _ => True

/-- A call that fails has left no entry, and has written nothing that was committed, but for
the one SELECT after an entry and the one command between a COMMIT and an entry. -/
structure Thrown (call : Call) (past : Past) : Prop where
  unaudited : Unaudited past ∨ ∃ codes failure rest,
    past = ⟨.query (.vouchersByCodes codes), .error failure⟩ :: rest
  clean : call.Atomic → Committed past → Unwritten past ∨
    ∃ mac minutes failure, ⟨.ndsctl (.auth mac minutes), .error failure⟩ ∈ past

/-- How a call may end. -/
def Call.Closed (call : Call) : Except Failure Reply → Past → Prop
  | .ok reply, past => call.Audited → AuditedOnce call reply past
  | .error _, past => call ≠ .tick → Thrown call past

section Order
variable {call : Call} {past : Past} {α : Type}

theorem unwritten_cons {done : Done Cmd Res Failure} (idle : ¬ WritesRow done)
    (unwritten : Unwritten past) : Unwritten (done :: past) := by
  intro other member
  rcases List.mem_cons.mp member with rfl | earlier
  · exact idle
  · exact unwritten other earlier

theorem unaudited_cons {done : Done Cmd Res Failure} (calm : done.1.isAudit = false)
    (unaudited : Unaudited past) : Unaudited (done :: past) := by
  intro other member
  rcases List.mem_cons.mp member with rfl | earlier
  · exact calm
  · exact unaudited other earlier

theorem clear_nil : Clear call [] := ⟨by simp [Unaudited], by simp⟩

theorem clear_cons {cmd : Cmd} (answer : Except Failure (Res cmd)) (calm : cmd.isAudit = false)
    (other : cmd ≠ .commit) (clear : Clear call past) : Clear call (⟨cmd, answer⟩ :: past) := by
  refine ⟨unaudited_cons calm clear.unaudited, ?_⟩
  · intro atomic done member
    rcases List.mem_cons.mp member with rfl | earlier
    · exact other
    · exact clear.uncommitted atomic done earlier

theorem clear_uncommitted (clear : Clear call past) (atomic : call.Atomic) : ¬ Committed past :=
  fun committed => clear.uncommitted atomic _ committed rfl

theorem turn_clear {cmd : Cmd} (changes : cmd.Changes) (turn : call.Turn past cmd) :
    Clear call past := by
  cases cmd with
  | audit | ndsctl | query | dateNow | randomBytes | rollback => exact changes.elim
  | _ => exact turn trivial

theorem count_unaudited (unaudited : Unaudited past) : countOf Cmd.isAudit past = 0 :=
  List.countP_eq_zero.mpr fun done member => by simp [unaudited done member]

theorem closed_clear {error : Failure} (clear : Clear call past) :
    call.Closed (.error error) past :=
  fun _ => ⟨Or.inl clear.unaudited, fun atomic committed =>
    absurd committed (clear_uncommitted clear atomic)⟩

theorem ordinary_turn {cmd : Cmd} (ordinary : cmd.Ordinary) (clear : Clear call past) :
    call.Turn past cmd := by
  cases cmd with
  | audit => exact ordinary.elim
  | ndsctl command =>
      cases command with
      | auth => exact ordinary.elim
      | _ => exact fun changes => changes.elim
  | _ => exact fun _ => clear

theorem ordinary_clear {cmd : Cmd} (answer : Except Failure (Res cmd)) (ordinary : cmd.Ordinary)
    (clear : Clear call past) : Clear call (⟨cmd, answer⟩ :: past) := by
  refine clear_cons answer ?_ ?_ clear
  · cases cmd with
    | audit => exact ordinary.elim
    | _ => rfl
  · rintro rfl
    exact ordinary

theorem along_ordinary {program : Program α} (uses : program.Uses Cmd.Ordinary)
    (clear : Clear call past) :
    Along call.Turn (fun _ => Clear call) program past :=
  along_keeps (Clear call) (fun _ _ => ordinary_turn) (fun _ _ answer => ordinary_clear answer)
    program uses clear

/-- How a transaction ends, by the past of its COMMIT. -/
def TxEnds (call : Call) (goes : α → Past → Prop) : Except Failure α → Past → Prop
  | .ok value, past =>
      Unaudited past ∧ ∃ before, past = ⟨.commit, .ok ()⟩ :: before ∧ goes value before
  | .error _, past => Unaudited past ∧ (call.Atomic → ¬ Committed past)

theorem txEnds_thrown {goes : α → Past → Prop} {error : Failure}
    (ended : TxEnds call goes (.error error) past) : call.Closed (.error error) past :=
  fun _ => ⟨Or.inl ended.1, fun atomic committed => absurd committed (ended.2 atomic)⟩

theorem along_transaction {body : Program α} {goes : α → Past → Prop} (clear : Clear call past)
    (inside : Clear call (⟨.begin, .ok ()⟩ :: past) → Along call.Turn (Branch
      (fun value after => Clear call after ∧ goes value after) fun _ => Clear call) body
        (⟨.begin, .ok ()⟩ :: past)) :
    Along call.Turn (TxEnds call goes) (DbService.tx body) past := by
  have begun : ∀ answer, Clear call (⟨.begin, answer⟩ :: past) :=
    fun answer => clear_cons answer rfl (by simp) clear
  have undone : ∀ {past : Past} {error : Failure}, Unaudited past →
      (call.Atomic → ¬ Committed past) → Along call.Turn (TxEnds call goes)
        ((perform .rollback).bind fun _ => (.raise error : Program α)) past := by
    intro past error unaudited uncommitted
    refine along_perform _ _ (fun changes => changes.elim) (fun _ => ⟨?_, ?_⟩) fun _ => ⟨?_, ?_⟩
    · exact unaudited_cons rfl unaudited
    · simpa [Committed] using uncommitted
    · exact unaudited_cons rfl unaudited
    · simpa [Committed] using uncommitted
  have undo : ∀ {past : Past} {error : Failure}, Clear call past →
      Along call.Turn (TxEnds call goes)
      ((perform .rollback).bind fun _ => (.raise error : Program α)) past :=
    fun clear => undone clear.unaudited fun atomic => clear_uncommitted clear atomic
  apply along_rescue
  refine along_perform _ _ (fun _ => clear) (fun _ => ?_) fun _ => undo (begun _)
  apply along_bind
  refine along_post ?_ _ (inside (begun _))
  rintro (error | value) after reached
  · exact undo reached
  · obtain ⟨clear', went⟩ := reached
    refine along_perform _ _ (fun _ => clear') (fun _ => ⟨?_, after, rfl, went⟩) fun error => ?_
    · exact unaudited_cons rfl clear'.unaudited
    · refine undone (unaudited_cons rfl clear'.unaudited) fun atomic committed => ?_
      rcases List.mem_cons.mp committed with same | earlier
      · cases same
      · exact clear_uncommitted clear' atomic earlier

theorem along_uses_tx {body : Program α} (uses : body.Uses Cmd.Ordinary) (clear : Clear call past) :
    Along call.Turn (TxEnds call fun _ _ => True) (DbService.tx body) past := by
  refine along_transaction clear fun clear => along_post ?_ _ (along_ordinary uses clear)
  rintro (error | value) after clear
  · exact clear
  · exact ⟨clear, trivial⟩

theorem along_log {actor : Option Nat} {action : String} {reply : Reply}
    (unaudited : Unaudited past)
    (committed : call.Commits → Committed past) (audits : call.Audits actor action)
    (named : ∀ user, reply = .user user → actor = some user.id) :
    Along call.Turn call.Closed ((AuditService.log actor action).bind fun _ => .done reply)
      past := by
  apply along_bind
  apply along_rescue
  refine ⟨⟨audits, committed, fun _ => unaudited⟩, ?_⟩
  have once : ∀ answer, call.Closed (.ok reply) (⟨.audit actor action, answer⟩ :: past) :=
    fun answer _ => ⟨[], past, actor, action, answer, rfl, by simp, unaudited, audits, named⟩
  rintro (error | value)
  · exact once _
  · exact once _

theorem along_logged_tx {body : Program α} {actor : α → Option Nat} {action : String}
    {reply : α → Reply} (uses : body.Uses Cmd.Ordinary) (clear : Clear call past)
    (audits : ∀ value, call.Audits (actor value) action)
    (named : ∀ value user, reply value = .user user → actor value = some user.id) :
    Along call.Turn call.Closed ((DbService.tx body).bind fun value =>
      (AuditService.log (actor value) action).bind fun _ => .done (reply value)) past := by
  apply along_bind
  refine along_post ?_ _ (along_uses_tx uses clear)
  rintro (error | value) after reached
  · exact txEnds_thrown reached
  · obtain ⟨unaudited, before, rfl, _⟩ := reached
    exact along_log unaudited (fun _ => List.mem_cons_self) (audits value) (named value)

end Order

section Calls
variable {config : Config}

theorem redeem_turns (user : AuthUser) (dto : RedeemVoucherDto) :
    Along (Call.Turn (.redeem user dto)) (Call.Closed (.redeem user dto))
      (VouchersService.redeem user dto) [] := by
  refine along_logged_tx ?_ clear_nil (fun _ => ⟨rfl, rfl⟩) (by simp)
  refine Prog.uses_bind ?_ fun found => ?_
  · refine Prog.uses_bind (uses_select trivial) fun found => ?_
    cases found with
    | none => trivial
    | some id => exact Prog.uses_bind (Prog.uses_perform trivial) fun _ => trivial
  refine Prog.uses_bind (uses_orThrow _ _) fun v => ?_
  refine Prog.uses_bind (uses_throwIf _ _) fun _ => ?_
  refine Prog.uses_bind (uses_throwIf _ _) fun _ => ?_
  refine Prog.uses_bind ?_ fun _ => ?_
  · unfold expireOnTouch
    split
    · trivial
    · refine Prog.uses_bind (Prog.uses_perform trivial) fun now => ?_
      split
      · exact Prog.uses_bind (Prog.uses_perform trivial) fun _ => trivial
      · trivial
  exact Prog.uses_bind (Prog.uses_perform trivial) fun _ =>
    Prog.uses_bind (Prog.uses_perform trivial) fun _ => trivial

theorem decide_turns (actor : AuthUser) (requestId : Nat) (approve : Bool) :
    Along (Call.Turn (.decide actor requestId approve))
      (Call.Closed (.decide actor requestId approve))
      (RequestsService.decide actor requestId approve) [] := by
  refine along_logged_tx ?_ clear_nil (fun _ => ⟨rfl, rfl⟩) (by simp)
  refine Prog.uses_bind (uses_selectRequestForUpdate _ trivial trivial) fun _ => ?_
  refine Prog.uses_bind (uses_orThrow _ _) fun request => ?_
  refine Prog.uses_bind (uses_throwIf _ _) fun _ => ?_
  refine Prog.uses_bind (Prog.uses_perform trivial) fun _ => ?_
  cases approve with
  | false => trivial
  | true => exact Prog.uses_bind (Prog.uses_perform trivial) fun _ => trivial

theorem createPlan_turns (actor : AuthUser) (dto : CreatePlanDto) :
    Along (Call.Turn (.createPlan actor dto)) (Call.Closed (.createPlan actor dto))
      (PlansService.create actor dto) [] :=
  along_logged_tx (uses_insertRow trivial) clear_nil (fun _ => ⟨rfl, rfl⟩) (by simp)

theorem removePlan_turns (actor : AuthUser) (id : Nat) :
    Along (Call.Turn (.removePlan actor id)) (Call.Closed (.removePlan actor id))
      (PlansService.remove actor id) [] := by
  have clear : ∀ answer, Clear (.removePlan actor id) [⟨.query (.planReferenced id), answer⟩] :=
    fun answer => ordinary_clear answer trivial clear_nil
  refine along_perform _ _ (fun changes => changes.elim) (fun referenced => ?_)
    fun _ => closed_clear (clear _)
  cases referenced with
  | true =>
      exact along_logged_tx (Prog.uses_perform trivial) (clear _) (fun _ => ⟨rfl, Or.inl rfl⟩)
        (by simp)
  | false =>
      exact along_logged_tx (Prog.uses_perform trivial) (clear _) (fun _ => ⟨rfl, Or.inr rfl⟩)
        (by simp)

/-- One UPDATE of one row in a transaction of its own: if there is no such row,
nothing is written. -/
theorem along_update {call : Call} {past : Past} {table : TableName} {id : Nat} {op : Op table}
    (clear : Clear call past) (unwritten : Unwritten past) :
    Along call.Turn (TxEnds call fun row before => row = none → Unwritten before)
      (DbService.tx (updateRow table id op)) past := by
  refine along_transaction clear fun clear => ⟨fun _ => clear, ?_⟩
  rintro (error | row)
  · exact ordinary_clear _ trivial clear
  · refine ⟨ordinary_clear _ trivial clear, ?_⟩
    rintro rfl
    exact unwritten_cons (by rintro ⟨⟩) (unwritten_cons (by rintro ⟨⟩) unwritten)

theorem along_logged_update {call : Call} {past : Past} {table : TableName} {id : Nat}
    {op : Op table}
    {actor : Option Nat} {action : String} {missing : Failure} {reply : Row table → Reply}
    (clear : Clear call past) (unwritten : Unwritten past) (audits : call.Audits actor action)
    (named : ∀ row user, reply row = .user user → actor = some user.id) :
    Along call.Turn call.Closed ((DbService.tx (updateRow table id op)).bind fun row =>
      (Prog.orThrow row missing).bind fun row =>
        (AuditService.log actor action).bind fun _ => .done (reply row)) past := by
  apply along_bind
  refine along_post ?_ _ (along_update clear unwritten)
  rintro (error | row) after reached
  · exact txEnds_thrown reached
  · obtain ⟨unaudited, before, rfl, idle⟩ := reached
    refine along_orThrow _ _ _ (fun none' _ => ⟨Or.inl unaudited, fun _ _ => Or.inl ?_⟩)
      fun row _ => ?_
    · exact unwritten_cons (by rintro ⟨⟩) (idle none')
    · exact along_log unaudited (fun _ => List.mem_cons_self) audits (named row)

theorem grant_turns (actor : AuthUser) (id : Nat) (dto : GrantTimeDto) :
    Along (Call.Turn (.grant actor id dto)) (Call.Closed (.grant actor id dto))
      (AdminController.grant actor id dto) [] :=
  along_logged_update clear_nil (by simp [Unwritten]) ⟨rfl, rfl⟩ (by simp)

theorem updatePlan_turns (actor : AuthUser) (id : Nat) (dto : PlanEdit) :
    Along (Call.Turn (.updatePlan actor id dto)) (Call.Closed (.updatePlan actor id dto))
      (PlansService.update actor id dto) [] :=
  along_logged_update clear_nil (by simp [Unwritten]) ⟨rfl, rfl⟩ (by simp)

theorem create_turns (user : AuthUser) (dto : CreateRequestDto) :
    Along (Call.Turn (.createRequest user dto)) (Call.Closed (.createRequest user dto))
      (RequestsService.create user dto) [] := by
  have writes : ∀ source pending past, Clear (.createRequest user dto) past → Unwritten past →
      Along (Call.Turn (.createRequest user dto)) (Call.Closed (.createRequest user dto))
        ((writeRequest user source pending).bind fun request =>
          (AuditService.log (some user.id) "request.create").bind fun _ =>
            .done (.request request.1 request.2)) past := by
    intro source pending past clear unwritten
    cases pending with
    | none =>
        exact along_logged_tx (uses_insertRow trivial) clear (fun _ => ⟨rfl, rfl⟩) (by simp)
    | some id =>
        simp only [writeRequest, Prog.bind_eq, Prog.bind_assoc, Prog.pure_eq, Prog.done_bind]
        exact along_logged_update clear unwritten ⟨rfl, rfl⟩ (by simp)
  have asks : ∀ source past, Clear (.createRequest user dto) past → Unwritten past →
      Along (Call.Turn (.createRequest user dto)) (Call.Closed (.createRequest user dto))
        ((select (.pendingRequest user.id)).bind fun pending =>
          (writeRequest user source pending).bind fun request =>
            (AuditService.log (some user.id) "request.create").bind fun _ =>
              .done (.request request.1 request.2)) past := by
    intro source past clear unwritten
    refine along_perform _ _ (ordinary_turn trivial clear) (fun pending => ?_)
      fun _ => closed_clear (ordinary_clear _ trivial clear)
    exact writes source pending _ (ordinary_clear _ trivial clear)
      (unwritten_cons (by rintro ⟨⟩) unwritten)
  refine along_orThrow _ _ _ (fun _ => closed_clear clear_nil) fun source _ => ?_
  have nothing : Unwritten [] := by simp [Unwritten]
  unfold checkPlan
  cases dto.planId with
  | none => exact asks source [] clear_nil nothing
  | some planId =>
      have clear : ∀ answer, Clear (.createRequest user dto)
          [⟨.query (.activePlan planId), answer⟩] := fun _ => ordinary_clear _ trivial clear_nil
      simp only [Prog.bind_eq, Prog.bind_assoc]
      refine along_perform _ _ (ordinary_turn trivial clear_nil) (fun plan => ?_)
        fun _ => closed_clear (clear _)
      refine along_throwIf _ _ _ (fun _ => closed_clear (clear _)) fun _ => ?_
      exact asks source _ (clear _) (unwritten_cons (by rintro ⟨⟩) nothing)

theorem connectTx_ordinary (user : AuthUser) (mac ip hid : Text) (label : Option Text) :
    (connectTx config user mac ip hid label).Uses Cmd.Ordinary := by
  refine Prog.uses_bind (Prog.uses_perform trivial) fun _ => ?_
  refine Prog.uses_bind (uses_orThrow _ _) fun account => ?_
  refine Prog.uses_bind (uses_throwIf _ _) fun _ => ?_
  refine Prog.uses_bind (uses_lockActiveSessions _ (fun _ => trivial) fun _ => trivial) fun rows =>
    ?_
  refine Prog.uses_bind (uses_throwIf _ _) fun _ => ?_
  refine Prog.uses_bind (uses_upsertDevice _ _ _ (fun _ => trivial) (fun _ => trivial)
    fun _ => trivial) fun _ => ?_
  exact Prog.uses_bind (uses_openOrRefresh _ _ _ _ _ (fun _ => trivial) (fun _ => trivial)
    (fun _ => trivial) (fun _ => trivial) trivial) fun _ => trivial

theorem connect_turns (user : AuthUser) (dto : ConnectDto) :
    Along (Call.Turn (.connect user dto)) (Call.Closed (.connect user dto))
      (SessionsService.connect config user dto) [] := by
  refine along_throwIf _ _ _ (fun _ => closed_clear clear_nil) fun _ => ?_
  have clear : ∀ answer, Clear (.connect user dto) [⟨.query (.recentKick (toLowerCase dto.clientmac)
      config.kickCooldownSeconds), answer⟩] := fun _ => ordinary_clear _ trivial clear_nil
  refine along_perform _ _ (ordinary_turn trivial clear_nil) (fun recent => ?_)
    fun _ => closed_clear (clear _)
  refine along_throwIf _ _ _ (fun _ => closed_clear (clear _)) fun _ => ?_
  apply along_bind
  refine along_post ?_ _ (along_uses_tx (connectTx_ordinary user _ _ _ _) (clear _))
  rintro (error | timeoutSeconds) after reached
  · exact txEnds_thrown reached
  · obtain ⟨unaudited, before, rfl, _⟩ := reached
    refine along_perform _ _ List.mem_cons_self (fun _ => ?_) fun error _ =>
      ⟨Or.inl (unaudited_cons rfl unaudited), fun _ _ => Or.inr ⟨_, _, error, List.mem_cons_self⟩⟩
    exact along_log (unaudited_cons rfl unaudited)
      (fun _ => List.mem_cons_of_mem _ List.mem_cons_self) ⟨rfl, rfl⟩ (by simp)

theorem kick_turns (actor : AuthUser) (mac : Text) :
    Along (Call.Turn (.kick actor mac)) (Call.Closed (.kick actor mac))
      (SessionsService.kick actor mac) [] := by
  have clear : ∀ answer, Clear (.kick actor mac)
      [⟨.query (.activeIps (toLowerCase mac)), answer⟩] :=
    fun _ => ordinary_clear _ trivial clear_nil
  refine along_perform _ _ (ordinary_turn trivial clear_nil) (fun active => ?_)
    fun _ => closed_clear (clear _)
  apply along_bind
  refine along_post ?_ _ (along_ordinary (uses_deauth _ trivial) (clear _))
  rintro (error | value) after clear
  · exact @closed_clear _ _ error clear
  apply along_bind
  refine along_post ?_ _ (along_ordinary (Prog.uses_each fun ip _ => uses_flushConntrack ip trivial)
    clear)
  rintro (error | value) after clear
  · exact @closed_clear _ _ error clear
  · exact along_logged_tx (uses_finishActiveOn _ _ (fun _ => trivial) (fun _ => trivial)
      fun _ => trivial) clear (fun _ => ⟨rfl, rfl⟩) (by simp)

theorem register_turns (dto : RegisterDto) : Along (Call.Turn (.register dto))
    (Call.Closed (.register dto)) (AuthService.register config dto) [] := by
  have clear : ∀ answer, Clear (.register dto) [⟨.query (.userByName dto.username), answer⟩] :=
    fun _ => ordinary_clear _ trivial clear_nil
  refine along_perform _ _ (ordinary_turn trivial clear_nil) (fun existing => ?_)
    fun _ => closed_clear (clear _)
  refine along_throwIf _ _ _ (fun _ => closed_clear (clear _)) fun _ => ?_
  apply along_bind
  have hashes : (argon2HashOf config dto.password).Uses Cmd.Ordinary :=
    Prog.uses_bind (Prog.uses_perform trivial) fun _ => trivial
  refine along_post ?_ _ (along_ordinary hashes (clear _))
  rintro (error | hash) after clear
  · exact @closed_clear _ _ error clear
  refine along_logged_tx (uses_insertRow trivial) clear (fun _ => ⟨rfl, rfl⟩) ?_
  rintro value user ⟨⟩
  rfl

theorem clientLogin_turns (dto : ClientLoginDto) : Along (Call.Turn (.clientLogin dto))
    (Call.Closed (.clientLogin dto)) (AuthService.clientLogin dto) [] := by
  have clear : ∀ answer, Clear (.clientLogin dto)
      [⟨.query (.customerByName (numberName dto.number)),
      answer⟩] := fun _ => ordinary_clear _ trivial clear_nil
  refine along_perform _ _ (ordinary_turn trivial clear_nil) (fun found => ?_)
    fun _ => closed_clear (clear _)
  refine along_orThrow _ _ _ (fun _ => closed_clear (clear _)) fun user _ => ?_
  refine along_log (clear _).unaudited False.elim ⟨rfl, rfl⟩ ?_
  rintro named ⟨⟩
  rfl

theorem login_turns (dto : LoginDto) : Along (Call.Turn (.login dto)) (Call.Closed (.login dto))
    (AuthService.login config dto) [] := by
  have clear : ∀ answer, Clear (.login dto) [⟨.query (.userByName dto.username), answer⟩] :=
    fun _ => ordinary_clear _ trivial clear_nil
  refine along_perform _ _ (ordinary_turn trivial clear_nil) (fun found => ?_)
    fun _ => closed_clear (clear _)
  refine along_orThrow _ _ _ (fun _ => closed_clear (clear _)) fun user _ => ?_
  refine along_throwIf _ _ _ (fun _ => closed_clear (clear _)) fun _ => ?_
  refine along_log (clear _).unaudited False.elim ⟨rfl, rfl⟩ ?_
  rintro named ⟨⟩
  rfl

theorem randomCodes_ordinary (count : Nat) : (randomCodes count).Uses Cmd.Ordinary := by
  induction count with
  | zero => trivial
  | succ count ih =>
      exact Prog.uses_bind (Prog.uses_perform trivial) fun _ => Prog.uses_bind ih fun _ => trivial

theorem insertBatch_turns {call : Call} (actor : AuthUser) (dto : GenerateVouchersDto)
    (batch : List Text) {past : Past} (clear : Clear call past) :
    Along call.Turn
      (Branch (fun _ past => Unaudited past ∧ Committed past) fun _ => Unaudited)
      (insertBatch config actor dto batch) past := by
  unfold insertBatch
  split
  · refine along_post ?_ _ (along_uses_tx (Prog.uses_collect fun code _ =>
      Prog.uses_bind (Prog.uses_perform trivial) fun _ => trivial) clear)
    rintro (error | inserted) after reached
    · exact reached.1
    · obtain ⟨unaudited, before, rfl, _⟩ := reached
      exact ⟨unaudited, List.mem_cons_self⟩
  · exact clear.unaudited

/-- One transaction a round; there is at least one, since there is a voucher to make. -/
theorem generateLoop_turns (actor : AuthUser) (dto : GenerateVouchersDto) (attempts total : Nat)
    (codes : List Text) {past : Past} (unaudited : Unaudited past)
    (committed : codes.length < dto.count ∨ Committed past) :
    Along (Call.Turn (.generate actor dto total))
      (Branch (fun _ past => Unaudited past ∧ Committed past) fun _ => Unaudited)
      (generateLoop config actor dto attempts codes) past := by
  induction attempts generalizing codes past with
  | zero =>
      unfold generateLoop
      split
      · exact unaudited
      · rename_i enough
        exact ⟨unaudited, committed.resolve_left enough⟩
  | succ attempts ih =>
      unfold generateLoop
      split
      · have clear : Clear (.generate actor dto total) past := ⟨unaudited, False.elim⟩
        apply along_bind
        refine along_post ?_ _ (along_ordinary (randomCodes_ordinary _) clear)
        rintro (error | batch) middle clear
        · exact clear.unaudited
        apply along_bind
        refine along_post ?_ _ (insertBatch_turns actor dto batch clear)
        rintro (error | inserted) after reached
        · exact reached
        · exact ih _ reached.1 (Or.inr reached.2)
      · rename_i enough
        exact ⟨unaudited, committed.resolve_left enough⟩

theorem generate_turns (actor : AuthUser) (dto : GenerateVouchersDto) (attempts : Nat) :
    Along (Call.Turn (.generate actor dto attempts)) (Call.Closed (.generate actor dto attempts))
      (VouchersService.generate config actor dto attempts) [] := by
  apply along_bind
  refine along_post ?_ _ (generateLoop_turns actor dto attempts attempts [] (by simp [Unaudited])
    (Or.inl dto.countRange.1))
  rintro (error | codes) past reached
  · exact fun _ => ⟨Or.inl reached, False.elim⟩
  obtain ⟨unaudited, committed⟩ := reached
  apply along_bind
  apply along_rescue
  refine ⟨⟨⟨rfl, rfl⟩, fun _ => committed, fun _ => unaudited⟩, fun written => ?_⟩
  have asks : Along (Call.Turn (.generate actor dto attempts))
      (Call.Closed (.generate actor dto attempts))
      ((select (.vouchersByCodes codes)).bind fun rows => .done (.vouchers rows))
        (⟨.audit (some actor.id) "voucher.generate", written⟩ :: past) := by
    refine along_perform _ _ (fun changes => changes.elim) (fun rows _ => ?_) fun failure _ =>
      ⟨Or.inr ⟨codes, failure, _, rfl⟩, False.elim⟩
    exact ⟨[⟨.query (.vouchersByCodes codes), .ok rows⟩], past, _, _, written,
      rfl, by simp, unaudited, ⟨rfl, rfl⟩, by simp⟩
  cases written with
  | error error => exact asks
  | ok value => exact asks

/-- What a pass does after its COMMIT. -/
def Cmd.Late : Cmd → Prop
  | .query _ | .rollback | .ndsctl (.deauth _) | .ndsctl (.flushConntrack _) => True
  | .audit actor action => Call.tick.Audits actor action
  | _ => False

theorem late_turn {cmd : Cmd} {past : Past} (late : cmd.Late) (committed : Committed past) :
    Call.tick.Turn past cmd := by
  cases cmd with
  | audit => exact ⟨late, fun _ => committed, fun other => absurd rfl other⟩
  | ndsctl command =>
      cases command with
      | auth => exact late.elim
      | _ => exact fun changes => changes.elim
  | query | rollback => exact fun changes => changes.elim
  | _ => exact late.elim

theorem along_late {α : Type} {program : Program α} {past : Past} (uses : program.Uses Cmd.Late)
    (committed : Committed past) :
    Along Call.tick.Turn (fun _ => Committed) program past :=
  along_keeps Committed (fun _ _ => late_turn) (fun _ _ _ _ => List.mem_cons_of_mem _) program uses
    committed

theorem settle_ordinary (online : List (Text × Text)) (now : Time) (session : Nat × SessionRow) :
    (settle online now session).Uses Cmd.Ordinary :=
  uses_settle online now session (fun _ => trivial) (fun _ => trivial) (fun _ => trivial)
    (fun _ => trivial) trivial

theorem lockSettlementRows_ordinary : lockSettlementRows.Uses Cmd.Ordinary := by
  refine Prog.uses_bind (uses_select trivial) fun found => ?_
  refine Prog.uses_collect fun ids _ => ?_
  exact Prog.uses_bind (Prog.uses_perform trivial) fun _ =>
    Prog.uses_bind (Prog.uses_perform trivial) fun _ => trivial

theorem settlement_turns (online : List (Text × Text)) {past : Past} (clear : Clear .tick past) :
    Along Call.tick.Turn (Ends fun _ => Committed) (settlement online) past := by
  refine along_perform _ _ (fun _ => clear) (fun _ => ?_) fun _ => trivial
  apply along_bind
  refine along_post ?_ _ (along_ordinary lockSettlementRows_ordinary
    (clear_cons _ rfl (by simp) clear))
  rintro (error | sessions) after clear
  · trivial
  refine along_perform _ _ (ordinary_turn trivial clear) (fun now => ?_) fun _ => trivial
  apply along_bind
  refine along_post ?_ _ (along_ordinary (Prog.uses_each fun session _ => settle_ordinary
    online now session) (ordinary_clear _ trivial clear))
  rintro (error | settled) after clear
  · trivial
  refine along_perform _ _ (ordinary_turn trivial clear) (fun exhausted => ?_) fun _ => trivial
  apply along_bind
  refine along_post ?_ _ (along_ordinary (Prog.uses_each fun session _ =>
    Prog.uses_bind (Prog.uses_perform trivial) fun _ => trivial) (ordinary_clear _ trivial clear))
  rintro (error | finished) after clear
  · trivial
  exact along_perform _ _ (fun _ => clear) (fun _ => List.mem_cons_self) fun _ => trivial

theorem undo_turns (error : Failure) (past : Past) : Along Call.tick.Turn
    (Ends fun (_ : Unit) => Committed)
    (((perform .rollback).rescue fun _ => .done ()).bind fun _ => .raise error) past := by
  refine ⟨fun changes => changes.elim, ?_⟩
  rintro (refused | undone)
  · trivial
  · trivial

theorem tick_turns : Along Call.tick.Turn (Call.Closed .tick) SessionManager.tick [] := by
  have cuts : ∀ session, (cutOff session).Uses Cmd.Late := fun session =>
    Prog.uses_bind (uses_deauth _ trivial) fun _ =>
      Prog.uses_bind (uses_flushConntrack _ trivial) fun _ => Prog.uses_perform ⟨rfl, rfl⟩
  have orphans : ∀ known client, (cutOrphan known client).Uses Cmd.Late := by
    intro known client
    unfold cutOrphan
    split
    · trivial
    · exact Prog.uses_bind (uses_deauth _ trivial) fun _ => uses_flushConntrack _ trivial
  have ended : Along Call.tick.Turn (Ends fun _ _ => True) SessionManager.tick [] := by
    refine along_perform _ _ (fun changes => changes.elim) (fun clients => ?_) fun _ => trivial
    refine along_then (fun _ => Committed) ?_ fun _ past committed => ?_
    · apply along_rescue
      apply along_bind
      refine along_post ?_ _ (settlement_turns _ (ordinary_clear _ trivial clear_nil))
      rintro (error | exhausted) after reached
      · exact undo_turns error after
      · refine along_post ?_ _ (along_late (Prog.uses_each fun session _ => cuts session) reached)
        rintro (error | value) later committed
        · exact undo_turns error later
        · exact committed
    · refine along_post ?_ _ (along_late (Prog.uses_bind (uses_select trivial) fun _ =>
        Prog.uses_bind (Prog.uses_each fun client _ => orphans _ client) fun _ => trivial)
          committed)
      rintro (error | reply) later _
      · trivial
      · trivial
  refine along_post ?_ _ ended
  rintro (error | reply) past _
  · exact fun other => absurd rfl other
  · exact False.elim

/-- The seed script writes nothing to the audit log. -/
def Cmd.Unlogged : Cmd → Prop
  | .audit .. | .ndsctl (.auth ..) => False
  | _ => True

theorem seedAdmin_unlogged (adminUser adminPass : Text) (clientCount : Nat) :
    (SeedAdmin.run config adminUser adminPass clientCount).Uses Cmd.Unlogged := by
  have hashes : ∀ password, (argon2HashOf config password).Uses Cmd.Unlogged :=
    fun _ => Prog.uses_bind (Prog.uses_perform trivial) fun _ => trivial
  refine Prog.uses_bind (hashes _) fun adminHash => ?_
  refine Prog.uses_bind (uses_tx trivial trivial trivial ?_) fun _ => ?_
  · refine Prog.uses_bind (Prog.uses_perform trivial) fun inserted => ?_
    split
    · trivial
    · refine Prog.uses_bind (uses_select trivial) fun _ => ?_
      refine Prog.uses_bind (uses_orThrow _ _) fun _ => ?_
      exact Prog.uses_bind (Prog.uses_perform trivial) fun _ => trivial
  refine Prog.uses_bind (Prog.uses_perform trivial) fun secret => ?_
  refine Prog.uses_bind (hashes _) fun clientHash => ?_
  refine Prog.uses_bind (uses_tx trivial trivial trivial (Prog.uses_each fun number _ => ?_))
    fun _ => trivial
  exact Prog.uses_bind (Prog.uses_perform trivial) fun _ => trivial

theorem seedAdmin_turns (adminUser adminPass : Text) (clientCount : Nat) :
    Along (Call.Turn (.seedAdmin adminUser adminPass clientCount))
      (Call.Closed (.seedAdmin adminUser adminPass clientCount))
      (SeedAdmin.run config adminUser adminPass clientCount) [] := by
  have nothing : Unaudited [] := by simp [Unaudited]
  refine along_post ?_ _ (along_keeps Unaudited ?_ ?_ _ (seedAdmin_unlogged adminUser adminPass
    clientCount) nothing)
  · rintro (error | reply) past unaudited
    · exact fun _ => ⟨Or.inl unaudited, False.elim⟩
    · exact False.elim
  · intro past cmd unlogged unaudited
    cases cmd with
    | audit => exact unlogged.elim
    | ndsctl command =>
        cases command with
        | auth => exact unlogged.elim
        | _ => exact fun changes => changes.elim
    | _ => exact fun _ => ⟨unaudited, False.elim⟩
  · intro past cmd answer unlogged unaudited
    refine unaudited_cons ?_ unaudited
    cases cmd with
    | audit => exact unlogged.elim
    | _ => rfl

theorem listPending_turns : Along (Call.Turn .listPending) (Call.Closed .listPending)
    RequestsService.listPending [] := by
  refine along_perform _ _ (ordinary_turn trivial clear_nil) (fun items => False.elim) fun _ => ?_
  exact closed_clear (ordinary_clear _ trivial clear_nil)

theorem call_turns (call : Call) : Along call.Turn call.Closed (call.program config) [] := by
  cases call with
  | redeem user dto => exact redeem_turns user dto
  | generate actor dto attempts => exact generate_turns actor dto attempts
  | createRequest user dto => exact create_turns user dto
  | listPending => exact listPending_turns
  | decide actor requestId approve => exact decide_turns actor requestId approve
  | grant actor id dto => exact grant_turns actor id dto
  | connect user dto => exact connect_turns user dto
  | kick actor mac => exact kick_turns actor mac
  | tick => exact tick_turns
  | createPlan actor dto => exact createPlan_turns actor dto
  | updatePlan actor id dto => exact updatePlan_turns actor id dto
  | removePlan actor id => exact removePlan_turns actor id
  | register dto => exact register_turns dto
  | clientLogin dto => exact clientLogin_turns dto
  | login dto => exact login_turns dto
  | seedAdmin adminUser adminPass clientCount =>
      exact seedAdmin_turns adminUser adminPass clientCount

end Calls

section Runs
variable {config : Config} {pool : ServerPool} (reached : Reached config pool) {thread : Nat}
  {call : Call} (called : pool.state.arrivals[thread]? = some call)
include reached called

theorem reached_turn {pos : Nat} {event : Event} (found : pool.state.hist[pos]? = some event)
    (own : event.thread = thread) :
    call.Turn (pastOf (pool.state.hist.take pos) thread) event.cmd := by
  obtain ⟨call', called', turn⟩ := reached_allowed call_turns reached pos event found
  rw [own, called, Option.some.injEq] at called'
  rw [own] at turn
  exact called' ▸ turn

theorem reached_closed {outcome : Except Failure Reply}
    (ended : pool.threads[thread]? = some (some (.ended outcome))) :
    call.Closed outcome (pastOf pool.state.hist thread) := by
  have orderly := reachable_orderly (server_records config) call_turns rfl (fun _ => rfl) reached
  have along := orderly.threads thread _ call ended called
  cases outcome with
  | ok reply => exact along
  | error error => exact along

theorem one_block (atomic : call.Atomic) {first second : Nat} {acts acts' : List Entry}
    (found : pool.state.db.log[first]? = some (thread, acts))
    (found' : pool.state.db.log[second]? = some (thread, acts')) : first = second := by
  have chronicle := reached_chronicle reached
  obtain ⟨pos, answer, time, view, landed, committed⟩ := chronicle.block _ _ _ found
  obtain ⟨pos', answer', time', view', landed', committed'⟩ := chronicle.block _ _ _ found'
  have apart : ∀ {pos pos' : Nat} {event event' : Event}, pool.state.hist[pos]? = some event →
      pool.state.hist[pos']? = some event' → event.thread = thread → event'.thread = thread →
      event.cmd = .commit → event'.cmd = .commit → ¬ pos < pos' := by
    intro pos pos' event event' found found' own own' commits commits' before
    have turn := reached_turn reached called found' own'
    rw [commits'] at turn
    have clear : Clear call _ := turn trivial
    refine clear.uncommitted atomic event.done ?_ commits
    exact mem_pastOf_take.mpr ⟨pos, event, before, found, own, rfl⟩
  obtain rfl : pos = pos' := Nat.le_antisymm
    (Nat.le_of_not_lt (apart committed' committed rfl rfl rfl rfl))
    (Nat.le_of_not_lt (apart committed committed' rfl rfl rfl rfl))
  rw [committed] at committed'
  cases committed'
  rfl

omit called in
theorem written_past {index : Nat} {acts : List Entry}
    (found : pool.state.db.log[index]? = some (thread, acts)) (wrote : acts ≠ []) :
    (Committed (pastOf pool.state.hist thread) ∨ Lost pool.state thread) ∧
      ¬ Unwritten (pastOf pool.state.hist thread) := by
  have chronicle := reached_chronicle reached
  constructor
  · obtain ⟨pos, answer, time, view, landed, committed⟩ := chronicle.block _ _ _ found
    have listed := List.mem_of_getElem? committed
    cases landed with
    | answered => exact Or.inl (mem_pastOf.mpr ⟨_, listed, rfl, rfl⟩)
    | lost => exact Or.inr ⟨time, index, acts, view, listed⟩
  · obtain ⟨entry, member⟩ := List.exists_mem_of_ne_nil _ wrote
    obtain ⟨writeAt, commitAt, write, written⟩ := block_written chronicle found member
    intro unwritten
    refine unwritten write.done ?_ (wrote_row written.wrote)
    exact mem_pastOf.mpr ⟨write, List.mem_of_getElem? written.found, written.own, rfl⟩

end Runs

/-- Every request of one transaction happens as a whole or not at all: it commits at most
once, and if it fails it has written nothing, unless what failed came after the COMMIT was
carried out: its answer, or `ndsctl auth`. -/
theorem all_or_nothing (config : Config) (pool : ServerPool) (reached : Reached config pool)
    (thread : Nat) (call : Call) (called : pool.state.arrivals[thread]? = some call)
    (atomic : call.Atomic) :
    (∀ (first second : Nat) (acts acts' : List Entry),
      pool.state.db.log[first]? = some (thread, acts) →
      pool.state.db.log[second]? = some (thread, acts') → first = second) ∧
    ∀ error, pool.threads[thread]? = some (some (.raise error)) → call ≠ .tick →
      ∀ (index : Nat) (acts : List Entry), pool.state.db.log[index]? = some (thread, acts) →
        acts ≠ [] → FailsLate pool.state thread := by
  refine ⟨fun _ _ _ _ found found' => one_block reached called atomic found found', ?_⟩
  intro error ended other index acts found wrote
  have closed : call.Closed (.error error) _ := reached_closed reached called ended
  obtain ⟨committed, written⟩ := written_past reached found wrote
  refine committed.elim (fun committed => ?_) Or.inr
  rcases (closed other).clean atomic committed with unwritten | ⟨mac, minutes, failure, failed⟩
  · exact absurd unwritten written
  · obtain ⟨event, member, own, done⟩ := mem_pastOf.mp failed
    exact Or.inl ⟨event, member, own, mac, minutes, failure, done⟩

/-- The grant of the counter, and where in the log it is. -/
def grantedAt (pool : ServerPool) : Bool × Option Nat :=
  ((answerOf pool 1).any Except.isOk, (pool.state.db.log.findIdx? fun block => block.1 == 1))

theorem counter_granted : ∃ pool, Reached shop pool ∧
    pool.state.arrivals[1]? = some (.grant staff 2 anHour) ∧ grantedAt pool = (true, some 2) := by
  obtain ⟨pool, reached, calls, seen⟩ := play_shows shop arrival grantedAt (true, some 2)
    (by decide +kernel)
  exact ⟨pool, reached, by rw [calls]; rfl, seen⟩

theorem all_or_nothing_grant : ∃ (pool : ServerPool) (index : Nat) (acts : List Entry),
    Reached shop pool ∧ pool.state.db.log[index]? = some (1, acts) ∧
      ∀ (other : Nat) (acts' : List Entry), pool.state.db.log[other]? = some (1, acts') →
        other = index := by
  obtain ⟨pool, reached, called, seen⟩ := counter_granted
  obtain ⟨_, logged⟩ := Prod.mk.inj seen
  obtain ⟨bound, own, _⟩ := List.findIdx?_eq_some_iff_getElem.mp logged
  have found : pool.state.db.log[2]? = some (1, (pool.state.db.log[2]).2) := by
    rw [List.getElem?_eq_getElem bound, Option.some.injEq, Prod.ext_iff]
    exact ⟨beq_iff_eq.mp own, rfl⟩
  obtain ⟨once, _⟩ := all_or_nothing shop pool reached 1 _ called trivial
  exact ⟨pool, 2, _, reached, found, fun other acts' found' => once _ _ _ _ found' found⟩

/-- The audit log and the database tell the same story. -/
theorem audit_trail (config : Config) (pool : ServerPool) (reached : Reached config pool)
    (thread : Nat) (call : Call) (called : pool.state.arrivals[thread]? = some call) :
    (∀ (pos : Nat) event actor action, pool.state.hist[pos]? = some event → event.thread = thread →
      event.cmd = .audit actor action → call.Audits actor action ∧
      (call.Commits → Committed (pastOf (pool.state.hist.take pos) thread)) ∧
      ∀ (later : Nat) event', pos < later → pool.state.hist[later]? = some event' →
        event'.thread = thread → ¬ event'.cmd.Changes) ∧
    (∀ reply, pool.threads[thread]? = some (some (.done reply)) → call.Audited →
      countOf Cmd.isAudit (pastOf pool.state.hist thread) = 1 ∧
      ∀ user, reply = .user user → ∃ action answer,
        ⟨.audit (some user.id) action, answer⟩ ∈ pastOf pool.state.hist thread) ∧
    ∀ error, pool.threads[thread]? = some (some (.raise error)) → call ≠ .tick →
      countOf Cmd.isAudit (pastOf pool.state.hist thread) = 0 ∨ ∃ codes failure rest,
        pastOf pool.state.hist thread = ⟨.query (.vouchersByCodes codes), .error failure⟩ ::
          rest := by
  refine ⟨?_, ?_, ?_⟩
  · intro pos event actor action found own audits
    have turn := reached_turn reached called found own
    rw [audits] at turn
    refine ⟨turn.1, turn.2.1, ?_⟩
    intro later event' after found' own' changes
    have clear := turn_clear changes (reached_turn reached called found' own')
    have calm := clear.unaudited event.done
      (mem_pastOf_take.mpr ⟨pos, event, after, found, own, rfl⟩)
    rw [show event.done.1 = event.cmd from rfl, audits] at calm
    cases calm
  · intro reply ended audited
    have closed : call.Closed (.ok reply) _ := reached_closed reached called ended
    obtain ⟨after, before, actor, action, answer, past, reads, unaudited, _, named⟩ :=
      closed audited
    refine ⟨?_, ?_⟩
    · have none' : countOf Cmd.isAudit after = 0 := by
        refine count_unaudited fun done member => ?_
        obtain ⟨query, answer, rfl⟩ := reads done member
        rfl
      rw [past, countOf, List.countP_append, List.countP_cons]
      change countOf Cmd.isAudit after + (countOf Cmd.isAudit before + 1) = 1
      rw [none', count_unaudited unaudited]
    · intro user same
      rw [past, ← named user same]
      exact ⟨action, answer, by simp⟩
  · intro error ended other
    have closed : call.Closed (.error error) _ := reached_closed reached called ended
    rcases (closed other).unaudited with unaudited | listed
    · exact Or.inl (count_unaudited unaudited)
    · exact Or.inr listed

theorem audit_trail_grant : ∃ pool, Reached shop pool ∧
    pool.state.arrivals[1]? = some (.grant staff 2 anHour) ∧
      countOf Cmd.isAudit (pastOf pool.state.hist 1) = 1 := by
  obtain ⟨pool, reached, called, seen⟩ := counter_granted
  obtain ⟨answered, _⟩ := Prod.mk.inj seen
  obtain ⟨_, once, _⟩ := audit_trail shop pool reached 1 _ called
  obtain ⟨outcome, ended, good⟩ := Option.any_eq_true _ _ |>.mp answered
  cases outcome with
  | error error => cases good
  | ok reply => exact ⟨pool, reached, called, (once reply (answerOf_ok ended) trivial).1⟩

end Cybera
