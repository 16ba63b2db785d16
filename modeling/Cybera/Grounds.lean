import Cybera.Listing
import Cybera.Sights

/-!
Why a call may be answered as it is: each refusal and each success has its reason in
the committed tables and the clock of one moment of the call.
-/

namespace Cybera

open Interleaving

/-- The failures that say nothing about the request. -/
def Failure.Internal : Failure → Prop
  | .query | .lost | .process | .attempts => True
  | _ => False

section Reasons
variable (store : Store) (clock : Time)

inductive RedeemGrounds (code : Text) : Except Failure Reply → Prop where
  | unknown (absent : ∀ (id : Nat) (v : VoucherRow), store .vouchers id = some v → v.code ≠ code) :
      RedeemGrounds code (.error (.badRequest "Unknown voucher code"))
  | redeemed {id : Nat} {v : VoucherRow} (present : store .vouchers id = some v)
      (named : v.code = code) (spent : v.status = .redeemed) :
      RedeemGrounds code (.error (.badRequest "Voucher already redeemed"))
  | expired {id : Nat} {v : VoucherRow} (present : store .vouchers id = some v)
      (named : v.code = code) (late : v.status = .expired ∨
        ∃ expiresAt, v.expiresAt = some expiresAt ∧ expiresAt < clock) :
      RedeemGrounds code (.error (.badRequest "Voucher expired"))
  | credited {id : Nat} {v : VoucherRow} (present : store .vouchers id = some v)
      (named : v.code = code) (unused : v.status = .unused)
      (early : ∀ expiresAt, v.expiresAt = some expiresAt → ¬ expiresAt < clock) :
      RedeemGrounds code (.ok (.redeemed v.durationMinutes v.deviceLimit))

inductive CreateGrounds (dto : CreateRequestDto) : Except Failure Reply → Prop where
  | empty (nothing : dto.planId = none ∧ dto.minutes = none) :
      CreateGrounds dto (.error (.badRequest "Pick a plan or enter the minutes you want"))
  | withdrawn {planId : Nat} (asked : dto.planId = some planId)
      (withdrawn : ∀ plan : PlanRow, store .plans planId = some plan → plan.active = false) :
      CreateGrounds dto (.error (.notFound "Plan not found or inactive"))
  | created {id : Nat} {row : PlanRequestRow} (source : dto.source = some row.source)
      (offered : ∀ planId, dto.planId = some planId →
        ∃ plan : PlanRow, store .plans planId = some plan ∧ plan.active = true) :
      CreateGrounds dto (.ok (.request id row))

inductive DecideGrounds (requestId : Nat) : Except Failure Reply → Prop where
  | unknown (absent : store .planRequests requestId = none) :
      DecideGrounds requestId (.error (.notFound "Request not found"))
  | decided {r : PlanRequestRow} (present : store .planRequests requestId = some r)
      (closed : r.status ≠ .pending) :
      DecideGrounds requestId (.error (.badRequest ("Request already " ++ statusText r.status)))
  | pending {r : PlanRequestRow} (present : store .planRequests requestId = some r)
      (pending : r.status = .pending) : DecideGrounds requestId (.ok .ok)

/-- An UPDATE of one row that answers the row. -/
inductive EditGrounds (table : TableName) (id : Nat) (op : Op table) (missing : String)
    (reply : Row table → Reply) : Except Failure Reply → Prop where
  | missing (absent : store table id = none) :
      EditGrounds table id op missing reply (.error (.notFound missing))
  | edited {row : Row table} {now : Time} (present : store table id = some row) :
      EditGrounds table id op missing reply (.ok (reply (Op.run table op now row)))

inductive ConnectGrounds (config : Config) (user : AuthUser) (dto : ConnectDto) :
    Except Failure Reply → Prop where
  | forged (differs : FasService.verify config
        ⟨dto.clientip, toLowerCase dto.clientmac, dto.hid⟩ dto.sig = false) :
      ConnectGrounds config user dto
        (.error (.forbidden "Invalid portal context — reconnect to the Wi-Fi and try again"))
  | kicked {id : Nat} {s : SessionRow} (present : store .sessions id = some s)
      (recent : kickedSince (toLowerCase dto.clientmac)
        (clock - 1000 * config.kickCooldownSeconds) s = true) :
      ConnectGrounds config user dto
        (.error (.forbidden "This device was disconnected by staff — please ask at the counter"))
  | unknown (absent : store .users user.id = none) :
      ConnectGrounds config user dto (.error (.forbidden "Account not found"))
  | spent {u : UserRow} (present : store .users user.id = some u)
      (nothing : u.remainingSeconds ≤ 0) :
      ConnectGrounds config user dto
        (.error (.forbidden "No time left — redeem a voucher or request a plan"))
  | full {u : UserRow} {ids : List Nat} (present : store .users user.id = some u)
      (apart : ids.Nodup)
      (online : ∀ id ∈ ids, ∃ s : SessionRow, store .sessions id = some s ∧ s.userId = user.id ∧
        s.status = .active ∧ s.deviceMac ≠ toLowerCase dto.clientmac)
      (full : u.deviceLimit ≤ ids.length) :
      ConnectGrounds config user dto (.error (.forbidden (limitMessage u.deviceLimit)))
  | opened {u : UserRow} (present : store .users user.id = some u) (left : 0 < u.remainingSeconds) :
      ConnectGrounds config user dto (.ok (.connected (toLowerCase dto.clientmac)
        (min u.remainingSeconds config.maxSessionSeconds)))

inductive RemoveGrounds (planId : Nat) : Except Failure Reply → Prop where
  | referenced {id : Nat} {r : PlanRequestRow} (present : store .planRequests id = some r)
      (refers : r.source.planId = some planId) : RemoveGrounds planId (.ok (.removed true))
  | unreferenced (free : ∀ (id : Nat) (r : PlanRequestRow), store .planRequests id = some r →
      r.source.planId ≠ some planId) : RemoveGrounds planId (.ok (.removed false))

inductive RegisterGrounds (dto : RegisterDto) : Except Failure Reply → Prop where
  | taken {id : Nat} {u : UserRow} (present : store .users id = some u)
      (named : u.username = dto.username) :
      RegisterGrounds dto (.error (.conflict "Username already taken"))
  | registered {id : Nat} (free : ∀ (other : Nat) (u : UserRow), store .users other = some u →
      u.username ≠ dto.username) : RegisterGrounds dto (.ok (.user ⟨id, dto.username, .customer⟩))

inductive ClientLoginGrounds (name : Text) : Except Failure Reply → Prop where
  | unknown (absent : ∀ (id : Nat) (u : UserRow), store .users id = some u → u.username = name →
      u.role ≠ .customer) : ClientLoginGrounds name (.error (.unauthorized "Unknown client number"))
  | entered {id : Nat} {u : UserRow} (present : store .users id = some u)
      (named : u.username = name)
      (customer : u.role = .customer) : ClientLoginGrounds name (.ok (.user (authUser (id, u))))

inductive LoginGrounds (config : Config) (dto : LoginDto) : Except Failure Reply → Prop where
  | unknown (absent : ∀ (id : Nat) (u : UserRow), store .users id = some u →
      u.username ≠ dto.username) :
      LoginGrounds config dto (.error (.unauthorized "Invalid username or password"))
  | wrong {id : Nat} {u : UserRow} (present : store .users id = some u)
      (named : u.username = dto.username)
      (differs : config.argon2Verify u.passwordHash dto.password = false) :
      LoginGrounds config dto (.error (.unauthorized "Invalid username or password"))
  | entered {id : Nat} {u : UserRow} (present : store .users id = some u)
      (named : u.username = dto.username)
      (verified : config.argon2Verify u.passwordHash dto.password = true) :
      LoginGrounds config dto (.ok (.user (authUser (id, u))))

/-- Each pending request once, with its owner's name and its plan, oldest first. -/
inductive ListGrounds : Except Failure Reply → Prop where
  | listed {items : List PendingItem}
      (exact : ∀ item : PendingItem, item ∈ items ↔ ∃ u : UserRow,
        store .planRequests item.id = some item.request ∧ item.request.status = .pending ∧
        store .users item.request.userId = some u ∧ item.username = u.username ∧
        item.plan = planAt store item.request)
      (sorted : items.Pairwise fun a b => a.request.createdAt ≤ b.request.createdAt) :
      ListGrounds (.ok (.pending items))

/-- The committed vouchers with these codes. -/
inductive GenerateGrounds : Except Failure Reply → Prop where
  | made {rows : List (Nat × VoucherRow)}
      (stored : ∀ id v, (id, v) ∈ rows → store .vouchers id = some v) :
      GenerateGrounds (.ok (.vouchers rows))

/-- The answers that a call may give in view of these tables at this time. -/
def Call.Grounds (config : Config) : Call → Except Failure Reply → Prop
  | .redeem _ dto => RedeemGrounds store clock (toUpperCase (trim dto.code))
  | .generate .. => GenerateGrounds store
  | .createRequest _ dto => CreateGrounds store dto
  | .listPending => ListGrounds store
  | .decide _ requestId _ => DecideGrounds store requestId
  | .grant _ id dto => EditGrounds store .users id
      (.credit (dto.minutes * 60) dto.deviceLimit .grant) "User not found" (.account id)
  | .connect user dto => ConnectGrounds store clock config user dto
  | .createPlan _ dto => fun outcome => ∃ id, outcome = .ok (.plan id (newPlan dto))
  | .updatePlan _ id dto => EditGrounds store .plans id dto "Plan not found" (.plan id)
  | .removePlan _ id => RemoveGrounds store id
  | .register dto => RegisterGrounds store dto
  | .clientLogin dto => ClientLoginGrounds store (numberName dto.number)
  | .login dto => LoginGrounds store config dto
  | .kick .. => fun outcome => outcome = .ok .ok
  | .tick | .seedAdmin .. => fun _ => True

end Reasons

/-- What every statement that answers a row says of it. -/
structure Sane (done : Done Cmd Res Failure) : Prop where
  inserted : ∀ table row skip id made, done = ⟨.insert table row skip, .ok (some (id, made))⟩ →
    ∃ now, made = row now
  updated : ∀ table id op row, done = ⟨.update table id op, .ok (some row)⟩ →
    ∃ before now, row = Op.run table op now before

/-- A step of this past, with what came before it, is enough for `holds`. -/
def Rests (holds : Store → Time → Prop) (past : Past) : Prop :=
  ∃ (later : Past) (done : Done Cmd Res Failure) (earlier : Past), past = later ++ done :: earlier ∧
    Unpending earlier ∧ ∀ store clock, Reveals store clock done earlier → holds store clock

/-- The outcome needs no reason but the arguments, or rests on a step. -/
def Grounded (config : Config) (call : Call) (outcome : Except Failure Reply) (past : Past) :
    Prop :=
  (∀ done ∈ past, Sane done) → (∀ store clock, call.Grounds store clock config outcome) ∨
    Rests (fun store clock => call.Grounds store clock config outcome) past

/-- A failure that is none of the request: of a command, or `Internal`. -/
def Broke (error : Failure) (past : Past) : Prop :=
  error.Internal ∨ ∃ cmd, ⟨cmd, .error error⟩ ∈ past

abbrev Told {α : Type} (goes : α → Past → Prop) (refuses : Failure → Past → Prop)
    (program : Program α) (past : Past) : Prop :=
  Along (fun _ _ => True) (Branch goes fun error past => Broke error past ∨ refuses error past)
    program past

section Rules
variable {α β : Type} {goes : α → Past → Prop} {refuses : Failure → Past → Prop} {past : Past}

theorem rests_here {holds : Store → Time → Prop} {done : Done Cmd Res Failure}
    (unpending : Unpending past)
    (shown : ∀ store clock, Reveals store clock done past → holds store clock) :
    Rests holds (done :: past) :=
  ⟨[], done, past, rfl, unpending, shown⟩

theorem rests_cons {holds : Store → Time → Prop} (done : Done Cmd Res Failure)
    (rests : Rests holds past) : Rests holds (done :: past) := by
  obtain ⟨later, step, earlier, rfl, rest⟩ := rests
  exact ⟨done :: later, step, earlier, rfl, rest⟩

theorem broke_cons {error : Failure} (done : Done Cmd Res Failure) (broke : Broke error past) :
    Broke error (done :: past) :=
  broke.imp id fun ⟨cmd, member⟩ => ⟨cmd, List.mem_cons_of_mem _ member⟩

theorem broke_here {error : Failure} {cmd : Cmd} : Broke error (⟨cmd, .error error⟩ :: past) :=
  Or.inr ⟨cmd, List.mem_cons_self⟩

theorem told_bind (middle : β → Past → Prop) {program : Program β} {rest : β → Program α}
    (first : Told middle refuses program past)
    (next : ∀ value after, middle value after → Told goes refuses (rest value) after) :
    Told goes refuses (program.bind rest) past := by
  apply along_bind
  refine along_post ?_ _ first
  rintro (error | value) after reached
  · exact reached
  · exact next value after reached

theorem told_grows {program : Program α} (told : Told goes refuses program past) :
    Told (fun value after => goes value after ∧ past <:+ after) refuses program past := by
  have grows : ∀ (program : Program α) (past : Past),
      Along (fun _ _ => True) (fun _ after => past <:+ after) program past := by
    intro program
    induction program with
    | done value => exact fun past => List.suffix_refl past
    | raise error => exact fun past => List.suffix_refl past
    | exec cmd next ih =>
        refine fun past => ⟨trivial, fun answer => ?_⟩
        refine along_post ?_ _ (ih answer (⟨cmd, answer⟩ :: past))
        exact fun _ after longer => (List.suffix_cons _ past).trans longer
  refine along_mono (fun _ _ _ => trivial) ?_ _ (along_and _ told (grows program past))
  rintro (error | value) after ⟨ended, longer⟩
  · exact ended
  · exact ⟨ended, longer⟩

theorem told_perform {cmd : Cmd} {rest : Res cmd → Program α}
    (answered : ∀ value, Told goes refuses (rest value) (⟨cmd, .ok value⟩ :: past)) :
    Told goes refuses ((perform cmd).bind rest) past :=
  along_perform _ _ trivial answered fun _ => Or.inl broke_here

theorem told_command {cmd : Cmd} {goes : Res cmd → Past → Prop}
    (answered : ∀ value, goes value (⟨cmd, .ok value⟩ :: past)) :
    Told goes refuses (perform cmd) past := by
  refine ⟨trivial, ?_⟩
  rintro (error | value)
  · exact Or.inl broke_here
  · exact answered value

theorem told_throwIf {condition : Bool} {error : Failure} {rest : Unit → Program α}
    (thrown : condition = true → refuses error past)
    (passed : condition = false → Told goes refuses (rest ()) past) :
    Told goes refuses ((Prog.throwIf condition error).bind rest) past :=
  along_throwIf _ _ _ (fun same => Or.inr (thrown same)) passed

theorem told_orThrow {value : Option β} {error : Failure} {rest : β → Program α}
    (thrown : value = none → refuses error past)
    (found : ∀ inner, value = some inner → Told goes refuses (rest inner) past) :
    Told goes refuses ((Prog.orThrow value error).bind rest) past :=
  along_orThrow _ _ _ (fun same => Or.inr (thrown same)) found

theorem told_orBroke {value : Option β} {rest : β → Program α}
    (found : ∀ inner, value = some inner → Told goes refuses (rest inner) past) :
    Told goes refuses ((Prog.orThrow value .query).bind rest) past :=
  along_orThrow _ _ _ (fun _ => Or.inl (Or.inl trivial)) found

theorem told_insertRow {table : TableName} {row : Time → Row table}
    {goes : Nat × Row table → Past → Prop}
    (inserted : ∀ made, goes made (⟨.insert table row false, .ok (some made)⟩ :: past)) :
    Told goes refuses (insertRow table row) past := by
  refine told_perform ?_
  rintro (_ | made)
  · exact Or.inl (Or.inl trivial)
  · exact inserted made

theorem told_tx {body : Program α}
    (inside : Told (fun value after => goes value (⟨.commit, .ok ()⟩ :: after))
      (fun error after => ∀ answer, refuses error (⟨.rollback, answer⟩ :: after)) body
        (⟨.begin, .ok ()⟩ :: past)) :
    Told goes refuses (DbService.tx body) past := by
  have undo : ∀ {error : Failure} {after : Past},
      (Broke error after ∨ ∀ answer, refuses error (⟨.rollback, answer⟩ :: after)) →
      Told goes refuses ((perform .rollback).bind fun _ => .raise error) after := by
    intro error after reason
    refine told_perform fun value => ?_
    rcases reason with broke | refused
    · exact Or.inl (broke_cons _ broke)
    · exact Or.inr (refused _)
  apply along_rescue
  refine along_perform _ _ trivial (fun _ => ?_) fun _ => undo (Or.inl broke_here)
  apply along_bind
  refine along_post ?_ _ inside
  rintro (error | value) after reached
  · exact undo reached
  · refine ⟨trivial, ?_⟩
    rintro (error | _)
    · exact undo (Or.inl broke_here)
    · exact reached

theorem told_log {actor : Option Nat} {action : String} {goes : Reply → Past → Prop} {reply : Reply}
    (ends : ∀ answer, goes reply (⟨.audit actor action, answer⟩ :: past)) :
    Told goes refuses ((AuditService.log actor action).bind fun _ => .done reply) past := by
  apply along_bind
  apply along_rescue
  exact ⟨trivial, fun answer => by cases answer <;> exact ends _⟩

theorem grounded_cons {config : Config} {call : Call} {outcome : Except Failure Reply}
    (done : Done Cmd Res Failure) (grounded : Grounded config call outcome past) :
    Grounded config call outcome (done :: past) := by
  intro sane
  rcases grounded fun other member => sane other (List.mem_cons_of_mem _ member) with always | rests
  · exact Or.inl always
  · exact Or.inr (rests_cons _ rests)

theorem grounded_suffix {config : Config} {call : Call} {outcome : Except Failure Reply}
    {after : Past} (longer : past <:+ after) (grounded : Grounded config call outcome past) :
    Grounded config call outcome after := by
  obtain ⟨more, rfl⟩ := longer
  induction more with
  | nil => exact grounded
  | cons done more ih => exact grounded_cons done ih

theorem grounded_here {config : Config} {call : Call} {outcome : Except Failure Reply}
    {done : Done Cmd Res Failure} (unpending : Unpending past)
    (shown : ∀ store clock, Reveals store clock done past →
      call.Grounds store clock config outcome) :
    Grounded config call outcome (done :: past) :=
  fun _ => Or.inr (rests_here unpending shown)

end Rules

abbrev Explained (config : Config) (call : Call) (program : Program Reply) (past : Past) : Prop :=
  Told (fun reply => Grounded config call (.ok reply))
    (fun error => Grounded config call (.error error)) program past

end Cybera
