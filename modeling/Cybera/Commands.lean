import Cybera.History
import Cybera.ProgramOrder

/-!
Which commands a call gives at all, whatever it is answered.
-/

namespace Cybera

open Interleaving

def Call.inserts : Call → List TableName
  | .generate .. => [.vouchers]
  | .createRequest .. => [.planRequests]
  | .connect .. => [.devices, .sessions]
  | .createPlan .. => [.plans]
  | .register .. | .seedAdmin .. => [.users]
  | _ => []

/-- The tables that a call locks rows of before it writes. -/
def Call.locks : Call → List TableName
  | .connect .. | .tick => [.users, .sessions]
  | .kick .. => [.sessions]
  | .redeem .. => [.vouchers]
  | .decide .. => [.planRequests]
  | _ => []

/-- No UPDATE makes a session active or a request pending again. -/
def Closing : (table : TableName) → Op table → Prop
  | .sessions, .finish status => status ≠ .active
  | .planRequests, .decide status _ => status ≠ .pending
  | _, _ => True

/-- A session is inserted with its last_tick at now(). -/
def Opening : (table : TableName) → (Time → Row table) → Prop
  | .sessions, row => ∀ now, (row now : SessionRow).lastTick = now
  | _, _ => True

/-- Who runs `ndsctl auth` and `ndsctl deauth`. -/
def Call.orders : Call → NdsCommand → Prop
  | .connect .., .auth .. => True
  | .kick .., .deauth _ | .tick, .deauth _ => True
  | _, .auth .. | _, .deauth _ => False
  | _, _ => True

def Call.mayDo (call : Call) : Cmd → Prop
  | .lock table _ => table ∈ call.locks
  | .insert table row _ => table ∈ call.inserts ∧ Opening table row
  | .update table _ op => table ∈ call.tables ∧ Closing table op
  | .deletePlan _ => TableName.plans ∈ call.tables
  | .ndsctl command => call.orders command
  | _ => True

section Uses
variable {α : Type} {call : Call}

theorem uses_tx {commands : Cmd → Prop} {body : Program α} (begins : commands .begin)
    (commits : commands .commit) (undoes : commands .rollback) (uses : body.Uses commands) :
    (DbService.tx body).Uses commands := by
  refine Prog.uses_rescue ?_ ?_
  · refine Prog.uses_bind (Prog.uses_perform begins) ?_
    intro _
    refine Prog.uses_bind uses ?_
    intro _
    exact Prog.uses_bind (Prog.uses_perform commits) fun _ => trivial
  · intro _
    exact Prog.uses_bind (Prog.uses_perform undoes) fun _ => trivial

theorem uses_select {commands : Cmd → Prop} {query : Query} (asks : commands (.query query)) :
    (select query).Uses commands :=
  Prog.uses_perform asks

theorem uses_throwIf {commands : Cmd → Prop} (condition : Bool) (error : Failure) :
    (Prog.throwIf condition error : Program Unit).Uses commands := by
  cases condition <;> trivial

theorem uses_orThrow {commands : Cmd → Prop} (value : Option α) (error : Failure) :
    (Prog.orThrow value error : Program α).Uses commands := by
  cases value <;> trivial

theorem uses_insertRow {commands : Cmd → Prop} {table : TableName} {row : Time → Row table}
    (inserts : commands (.insert table row false)) : (insertRow table row).Uses commands :=
  Prog.uses_bind (Prog.uses_perform inserts) fun _ => uses_orThrow _ _

theorem uses_audit {commands : Cmd → Prop} {actor : Option Nat} {action : String}
    (audits : commands (.audit actor action)) : (AuditService.log actor action).Uses commands :=
  Prog.uses_rescue (Prog.uses_perform audits) fun _ => trivial

theorem uses_insertBatch {commands : Cmd → Prop} (actor : AuthUser) (dto : GenerateVouchersDto)
    (batch : List Text) (begins : commands .begin) (commits : commands .commit)
    (undoes : commands .rollback) (inserts : ∀ row, commands (.insert .vouchers row true)) :
    (insertBatch config actor dto batch).Uses commands := by
  unfold insertBatch
  split
  · refine uses_tx begins commits undoes (Prog.uses_collect fun code _ => ?_)
    exact Prog.uses_bind (Prog.uses_perform (inserts _)) fun _ => trivial
  · trivial

theorem uses_selectRequestForUpdate {commands : Cmd → Prop} (id : Nat)
    (asks : commands (.query (.requestWithPlan id))) (locks : commands (.lock .planRequests id)) :
    (selectRequestForUpdate id).Uses commands := by
  refine Prog.uses_bind (uses_select asks) fun found => ?_
  cases found with
  | none => trivial
  | some found => exact Prog.uses_bind (Prog.uses_perform locks) fun _ => trivial

theorem uses_generateLoop {commands : Cmd → Prop} (actor : AuthUser) (dto : GenerateVouchersDto)
    (begins : commands .begin) (commits : commands .commit) (undoes : commands .rollback)
    (draws : ∀ count, commands (.randomBytes count))
    (inserts : ∀ row, commands (.insert .vouchers row true)) (attempts : Nat) (codes : List Text) :
    (generateLoop config actor dto attempts codes).Uses commands := by
  have random : ∀ count, (randomCodes count).Uses commands := by
    intro count
    induction count with
    | zero => trivial
    | succ count ih =>
        refine Prog.uses_bind (Prog.uses_perform (draws 12)) fun _ => ?_
        exact Prog.uses_bind ih fun _ => trivial
  induction attempts generalizing codes with
  | zero =>
      unfold generateLoop
      split <;> trivial
  | succ attempts ih =>
      unfold generateLoop
      split
      · refine Prog.uses_bind (random _) fun batch => ?_
        exact Prog.uses_bind (uses_insertBatch actor dto batch begins commits undoes inserts)
          fun _ => ih _
      · trivial

theorem uses_finishActiveOn {commands : Cmd → Prop} (mac : Text) (status : SessionStatus)
    (asks : ∀ query, commands (.query query)) (locks : ∀ id, commands (.lock .sessions id))
    (updates : ∀ id, commands (.update .sessions id (.finish status))) :
    (finishActiveOn mac status).Uses commands := by
  refine Prog.uses_bind (uses_select (asks _)) fun ids => ?_
  refine Prog.uses_each fun id _ => ?_
  refine Prog.uses_bind (Prog.uses_perform (locks _)) fun row => ?_
  cases row with
  | none => trivial
  | some s =>
      simp only
      split
      · exact Prog.uses_bind (Prog.uses_perform (updates id)) fun _ => trivial
      · trivial

theorem uses_lockActiveSessions {commands : Cmd → Prop} (userId : Nat)
    (asks : ∀ query, commands (.query query)) (locks : ∀ id, commands (.lock .sessions id)) :
    (lockActiveSessions userId).Uses commands := by
  refine Prog.uses_bind (uses_select (asks _)) fun ids => ?_
  refine Prog.uses_collect fun id _ => ?_
  exact Prog.uses_bind (Prog.uses_perform (locks _)) fun _ => trivial

theorem uses_upsertDevice {commands : Cmd → Prop} (userId : Nat) (mac : Text) (label : Option Text)
    (asks : ∀ query, commands (.query query))
    (inserts : ∀ row, commands (.insert .devices row true))
    (updates : ∀ id, commands (.update .devices id (.relabel label))) :
    (upsertDevice userId mac label).Uses commands := by
  refine Prog.uses_bind (Prog.uses_perform (inserts _)) fun inserted => ?_
  cases inserted with
  | some device => trivial
  | none =>
      refine Prog.uses_bind (uses_select (asks _)) fun _ => ?_
      refine Prog.uses_bind (uses_orThrow _ _) fun device => ?_
      exact Prog.uses_bind (Prog.uses_perform (updates device)) fun _ => trivial

theorem uses_openOrRefresh {commands : Cmd → Prop} (userId : Nat) (mac ip token : Text)
    (alreadyActive : Option (Nat × SessionRow)) (asks : ∀ query, commands (.query query))
    (locks : ∀ id, commands (.lock .sessions id))
    (refreshes : ∀ id, commands (.update .sessions id (.refresh ip token)))
    (finishes : ∀ id, commands (.update .sessions id (.finish .ended)))
    (inserts : commands (.insert .sessions (newSession userId mac ip token) false)) :
    (openOrRefresh userId mac ip token alreadyActive).Uses commands := by
  cases alreadyActive with
  | some s => exact Prog.uses_bind (Prog.uses_perform (refreshes s.1)) fun _ => trivial
  | none =>
      refine Prog.uses_bind (uses_finishActiveOn _ _ asks locks finishes) fun _ => ?_
      exact Prog.uses_bind (uses_insertRow inserts) fun _ => trivial

theorem uses_flushConntrack {commands : Cmd → Prop} (ip : Text)
    (flushes : commands (.ndsctl (.flushConntrack ip))) :
    (NdsctlService.flushConntrack ip).Uses commands := by
  unfold NdsctlService.flushConntrack
  split
  · trivial
  · exact Prog.uses_rescue (Prog.uses_perform flushes) fun _ => trivial

theorem uses_deauth {commands : Cmd → Prop} (mac : Text)
    (deauths : commands (.ndsctl (.deauth mac))) : (NdsctlService.deauth mac).Uses commands :=
  Prog.uses_rescue (Prog.uses_perform deauths) fun _ => trivial

theorem uses_settle {commands : Cmd → Prop} (online : List (Text × Text)) (now : Time)
    (session : Nat × SessionRow) (asks : ∀ query, commands (.query query))
    (settles : ∀ elapsed, commands (.update .sessions session.1 (.settle elapsed)))
    (charges : ∀ elapsed, commands (.update .users session.2.userId (.charge elapsed session.1)))
    (touches : ∀ id, commands (.update .devices id .seen))
    (finishes : commands (.update .sessions session.1 (.finish .ended))) :
    (settle online now session).Uses commands := by
  unfold settle
  simp only
  split
  · split
    · refine Prog.uses_bind (Prog.uses_perform (settles _)) fun _ => ?_
      refine Prog.uses_bind (Prog.uses_perform (charges _)) fun _ => ?_
      refine Prog.uses_bind (uses_select (asks _)) fun found => ?_
      cases found with
      | none => trivial
      | some id => exact Prog.uses_bind (Prog.uses_perform (touches id)) fun _ => trivial
    · trivial
  · split
    · exact Prog.uses_bind (Prog.uses_perform finishes) fun _ => trivial
    · trivial

theorem uses_settlement {commands : Cmd → Prop} (online : List (Text × Text))
    (begins : commands .begin) (commits : commands .commit) (reads : commands .dateNow)
    (asks : ∀ query, commands (.query query))
    (locks : ∀ table id, table ∈ Call.tick.locks → commands (.lock table id))
    (updates : ∀ table id (op : Op table), table ∈ Call.tick.tables → Closing table op →
      commands (.update table id op)) : (settlement online).Uses commands := by
  refine Prog.uses_bind (Prog.uses_perform begins) fun _ => ?_
  refine Prog.uses_bind ?_ fun sessions => ?_
  · refine Prog.uses_bind (uses_select (asks _)) fun found => ?_
    refine Prog.uses_collect fun ids _ => ?_
    refine Prog.uses_bind (Prog.uses_perform (locks _ _ (by simp [Call.locks]))) fun _ => ?_
    exact Prog.uses_bind (Prog.uses_perform (locks _ _ (by simp [Call.locks]))) fun _ => trivial
  refine Prog.uses_bind (Prog.uses_perform reads) fun now => ?_
  have finishes : ∀ id, commands (.update .sessions id (.finish .ended)) :=
    fun id => updates _ _ _ (by simp [Call.tables]) (by simp [Closing])
  refine Prog.uses_bind (Prog.uses_each fun session _ => uses_settle _ now session asks
    (fun _ => updates _ _ _ ?_ trivial) (fun _ => updates _ _ _ ?_ trivial)
    (fun _ => updates _ _ _ ?_ trivial) (finishes _)) fun _ => ?_
  · simp [Call.tables]
  · simp [Call.tables]
  · simp [Call.tables]
  refine Prog.uses_bind (uses_select (asks _)) fun exhausted => ?_
  refine Prog.uses_bind (Prog.uses_each fun session _ => ?_) fun _ =>
    Prog.uses_bind (Prog.uses_perform commits) fun _ => trivial
  exact Prog.uses_bind (Prog.uses_perform (finishes _)) fun _ => trivial

end Uses

section Calls
variable {config : Config}

theorem redeem_uses (user : AuthUser) (dto : RedeemVoucherDto) :
    (VouchersService.redeem user dto).Uses (Call.redeem user dto).mayDo := by
  refine Prog.uses_bind (uses_tx trivial trivial trivial ?_) fun _ =>
    Prog.uses_bind (uses_audit trivial) fun _ => trivial
  refine Prog.uses_bind ?_ fun found => ?_
  · refine Prog.uses_bind (uses_select trivial) fun found => ?_
    cases found with
    | none => trivial
    | some id =>
        refine Prog.uses_bind (Prog.uses_perform ?_) fun _ => trivial
        simp [Call.mayDo, Call.locks]
  refine Prog.uses_bind (uses_orThrow _ _) fun v => ?_
  refine Prog.uses_bind (uses_throwIf _ _) fun _ => ?_
  refine Prog.uses_bind (uses_throwIf _ _) fun _ => ?_
  refine Prog.uses_bind ?_ fun _ => ?_
  · unfold expireOnTouch
    split
    · trivial
    · refine Prog.uses_bind (Prog.uses_perform trivial) fun now => ?_
      split
      · refine Prog.uses_bind (Prog.uses_perform ?_) fun _ => trivial
        simp [Call.mayDo, Call.tables, Closing]
      · trivial
  refine Prog.uses_bind (Prog.uses_perform ?_) fun _ =>
    Prog.uses_bind (Prog.uses_perform ?_) fun _ => trivial
  · simp [Call.mayDo, Call.tables, Closing]
  · simp [Call.mayDo, Call.tables, Closing]

theorem generate_uses (actor : AuthUser) (dto : GenerateVouchersDto) (attempts : Nat) :
    (VouchersService.generate config actor dto attempts).Uses
    (Call.generate actor dto attempts).mayDo := by
  refine Prog.uses_bind (uses_generateLoop actor dto trivial trivial trivial (fun _ => trivial)
    ?_ attempts []) fun codes => ?_
  · simp [Call.mayDo, Call.inserts, Opening]
  · refine Prog.uses_bind (uses_audit trivial) fun _ => ?_
    exact Prog.uses_bind (uses_select trivial) fun _ => trivial

theorem create_uses (user : AuthUser) (dto : CreateRequestDto) :
    (RequestsService.create user dto).Uses (Call.createRequest user dto).mayDo := by
  refine Prog.uses_bind (uses_orThrow _ _) fun source => ?_
  refine Prog.uses_bind ?_ fun _ => ?_
  · unfold checkPlan
    split
    · trivial
    · exact Prog.uses_bind (uses_select trivial) fun _ => uses_throwIf _ _
  refine Prog.uses_bind (uses_select trivial) fun pending => ?_
  refine Prog.uses_bind ?_ fun _ => Prog.uses_bind (uses_audit trivial) fun _ => trivial
  cases pending with
  | none =>
      refine uses_tx trivial trivial trivial (uses_insertRow ?_)
      simp [Call.mayDo, Call.inserts, Opening]
  | some id =>
      refine Prog.uses_bind (uses_tx trivial trivial trivial (Prog.uses_perform ?_)) fun _ =>
        Prog.uses_bind (uses_orThrow _ _) fun _ => trivial
      simp [Call.mayDo, Call.tables, Closing]

theorem decide_uses (actor : AuthUser) (requestId : Nat) (approve : Bool) :
    (RequestsService.decide actor requestId approve).Uses
      (Call.decide actor requestId approve).mayDo := by
  refine Prog.uses_bind (uses_tx trivial trivial trivial ?_) fun _ =>
    Prog.uses_bind (uses_audit trivial) fun _ => trivial
  refine Prog.uses_bind (uses_selectRequestForUpdate _ trivial ?_) fun _ => ?_
  · simp [Call.mayDo, Call.locks]
  refine Prog.uses_bind (uses_orThrow _ _) fun request => ?_
  refine Prog.uses_bind (uses_throwIf _ _) fun _ => ?_
  refine Prog.uses_bind (Prog.uses_perform ?_) fun _ => ?_
  · cases approve <;> simp [Call.mayDo, Call.tables, Closing, decision]
  · cases approve with
    | false => trivial
    | true =>
        refine Prog.uses_bind (Prog.uses_perform ?_) fun _ => trivial
        simp [Call.mayDo, Call.tables, Closing]

theorem connect_uses (user : AuthUser) (dto : ConnectDto) :
    (SessionsService.connect config user dto).Uses (Call.connect user dto).mayDo := by
  refine Prog.uses_bind (uses_throwIf _ _) fun _ => ?_
  refine Prog.uses_bind (uses_select trivial) fun _ => ?_
  refine Prog.uses_bind (uses_throwIf _ _) fun _ => ?_
  refine Prog.uses_bind (uses_tx trivial trivial trivial ?_) fun _ =>
    Prog.uses_bind (Prog.uses_perform trivial) fun _ =>
      Prog.uses_bind (uses_audit trivial) fun _ => trivial
  have locks : ∀ table ∈ [TableName.users, .sessions], ∀ id,
      (Call.connect user dto).mayDo (.lock table id) := fun _ listed _ => listed
  refine Prog.uses_bind (Prog.uses_perform (locks _ (by simp) _)) fun _ => ?_
  refine Prog.uses_bind (uses_orThrow _ _) fun account => ?_
  refine Prog.uses_bind (uses_throwIf _ _) fun _ => ?_
  refine Prog.uses_bind (uses_lockActiveSessions _ (fun _ => trivial) (locks _ (by simp)))
    fun rows => ?_
  refine Prog.uses_bind (uses_throwIf _ _) fun _ => ?_
  refine Prog.uses_bind (uses_upsertDevice _ _ _ (fun _ => trivial) ?_ ?_) fun _ => ?_
  · simp [Call.mayDo, Call.inserts, Opening]
  · simp [Call.mayDo, Call.tables, Closing]
  refine Prog.uses_bind (uses_openOrRefresh _ _ _ _ _ (fun _ => trivial) (locks _ (by simp))
    ?_ ?_ ?_) fun _ => trivial
  · simp [Call.mayDo, Call.tables, Closing]
  · simp [Call.mayDo, Call.tables, Closing]
  · simp [Call.mayDo, Call.inserts, Opening, newSession]

theorem kick_uses (actor : AuthUser) (mac : Text) :
    (SessionsService.kick actor mac).Uses (Call.kick actor mac).mayDo := by
  refine Prog.uses_bind (uses_select trivial) fun ips => ?_
  refine Prog.uses_bind (uses_deauth _ trivial) fun _ => ?_
  refine Prog.uses_bind (Prog.uses_each fun ip _ => uses_flushConntrack ip trivial) fun _ => ?_
  refine Prog.uses_bind (uses_tx trivial trivial trivial (uses_finishActiveOn _ _
    (fun _ => trivial) ?_ ?_)) fun _ => Prog.uses_bind (uses_audit trivial) fun _ => trivial
  · simp [Call.mayDo, Call.locks]
  · simp [Call.mayDo, Call.tables, Closing]

theorem tick_uses : SessionManager.tick.Uses Call.tick.mayDo := by
  refine Prog.uses_bind (Prog.uses_perform trivial) fun clients => ?_
  refine Prog.uses_bind (Prog.uses_rescue ?_ fun _ => ?_) fun _ => ?_
  · refine Prog.uses_bind ?_ fun exhausted => Prog.uses_each fun item _ => ?_
    · exact uses_settlement _ trivial trivial trivial (fun _ => trivial) (fun _ _ listed => listed)
        fun _ _ _ writes closing => ⟨writes, closing⟩
    · refine Prog.uses_bind (uses_deauth _ trivial) fun _ => ?_
      exact Prog.uses_bind (uses_flushConntrack _ trivial) fun _ => Prog.uses_perform trivial
  · refine Prog.uses_bind (Prog.uses_rescue (Prog.uses_perform trivial) fun _ => trivial)
      fun _ => trivial
  · refine Prog.uses_bind (uses_select trivial) fun _ => ?_
    refine Prog.uses_bind (Prog.uses_each fun client _ => ?_) fun _ => trivial
    unfold cutOrphan
    split
    · trivial
    · exact Prog.uses_bind (uses_deauth _ trivial) fun _ => uses_flushConntrack _ trivial

theorem removePlan_uses (actor : AuthUser) (id : Nat) :
    (PlansService.remove actor id).Uses (Call.removePlan actor id).mayDo := by
  refine Prog.uses_bind (uses_select trivial) fun referenced => ?_
  split
  · refine Prog.uses_bind (uses_tx trivial trivial trivial (Prog.uses_perform ?_)) fun _ =>
      Prog.uses_bind (uses_audit trivial) fun _ => trivial
    simp [Call.mayDo, Call.tables, Closing]
  · refine Prog.uses_bind (uses_tx trivial trivial trivial (Prog.uses_perform ?_)) fun _ =>
      Prog.uses_bind (uses_audit trivial) fun _ => trivial
    simp [Call.mayDo, Call.tables]

theorem seedAdmin_uses (adminUser adminPass : Text) (clientCount : Nat) :
    (SeedAdmin.run config adminUser adminPass clientCount).Uses
      (Call.seedAdmin adminUser adminPass clientCount).mayDo := by
  have hash : ∀ password, (argon2HashOf config password).Uses
      (Call.seedAdmin adminUser adminPass clientCount).mayDo :=
    fun _ => Prog.uses_bind (Prog.uses_perform trivial) fun _ => trivial
  refine Prog.uses_bind (hash _) fun adminHash => ?_
  refine Prog.uses_bind (uses_tx trivial trivial trivial ?_) fun _ => ?_
  · refine Prog.uses_bind (Prog.uses_perform ?_) fun inserted => ?_
    · simp [Call.mayDo, Call.inserts, Opening]
    split
    · trivial
    · refine Prog.uses_bind (uses_select trivial) fun _ => ?_
      refine Prog.uses_bind (uses_orThrow _ _) fun _ => ?_
      refine Prog.uses_bind (Prog.uses_perform ?_) fun _ => trivial
      simp [Call.mayDo, Call.tables, Closing]
  refine Prog.uses_bind (Prog.uses_perform trivial) fun secret => ?_
  refine Prog.uses_bind (hash _) fun clientHash => ?_
  refine Prog.uses_bind (uses_tx trivial trivial trivial (Prog.uses_each fun number _ => ?_))
    fun _ => trivial
  refine Prog.uses_bind (Prog.uses_perform ?_) fun _ => trivial
  simp [Call.mayDo, Call.inserts, Opening]

theorem call_uses (call : Call) : (call.program config).Uses call.mayDo := by
  cases call with
  | redeem user dto => exact redeem_uses user dto
  | generate actor dto attempts => exact generate_uses actor dto attempts
  | createRequest user dto => exact create_uses user dto
  | listPending => exact Prog.uses_bind (uses_select trivial) fun _ => trivial
  | decide actor requestId approve => exact decide_uses actor requestId approve
  | grant actor id dto =>
      refine Prog.uses_bind (uses_tx trivial trivial trivial (Prog.uses_perform ?_)) fun _ =>
        Prog.uses_bind (uses_orThrow _ _) fun _ => Prog.uses_bind (uses_audit trivial)
          fun _ => trivial
      simp [Call.mayDo, Call.tables, Closing]
  | connect user dto => exact connect_uses user dto
  | kick actor mac => exact kick_uses actor mac
  | tick => exact tick_uses
  | createPlan actor dto =>
      refine Prog.uses_bind (uses_tx trivial trivial trivial (uses_insertRow ?_)) fun _ =>
        Prog.uses_bind (uses_audit trivial) fun _ => trivial
      simp [Call.mayDo, Call.inserts, Opening]
  | updatePlan actor id dto =>
      refine Prog.uses_bind (uses_tx trivial trivial trivial (Prog.uses_perform ?_)) fun _ =>
        Prog.uses_bind (uses_orThrow _ _) fun _ => Prog.uses_bind (uses_audit trivial)
          fun _ => trivial
      simp [Call.mayDo, Call.tables, Closing]
  | removePlan actor id => exact removePlan_uses actor id
  | register dto =>
      refine Prog.uses_bind (uses_select trivial) fun _ => ?_
      refine Prog.uses_bind (uses_throwIf _ _) fun _ => ?_
      refine Prog.uses_bind (Prog.uses_bind (Prog.uses_perform trivial) fun _ => trivial) fun _ =>
        ?_
      refine Prog.uses_bind (uses_tx trivial trivial trivial (uses_insertRow ?_)) fun _ =>
        Prog.uses_bind (uses_audit trivial) fun _ => trivial
      simp [Call.mayDo, Call.inserts, Opening]
  | clientLogin dto =>
      refine Prog.uses_bind (uses_select trivial) fun _ => ?_
      exact Prog.uses_bind (uses_orThrow _ _) fun _ =>
        Prog.uses_bind (uses_audit trivial) fun _ => trivial
  | login dto =>
      refine Prog.uses_bind (uses_select trivial) fun _ => ?_
      refine Prog.uses_bind (uses_orThrow _ _) fun _ => ?_
      exact Prog.uses_bind (uses_throwIf _ _) fun _ =>
        Prog.uses_bind (uses_audit trivial) fun _ => trivial
  | seedAdmin adminUser adminPass clientCount =>
      exact seedAdmin_uses adminUser adminPass clientCount

end Calls
end Cybera
