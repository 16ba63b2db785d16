import Cybera.Charges
import Cybera.Redemption
import Cybera.Statements

/-!
A redeem that finds its voucher past expires_at sets the status and throws, in
one transaction: the ROLLBACK takes the status back.
-/

namespace Cybera

open Interleaving

def Retired (world : World) (id : Nat) : Prop :=
  ∃ v : VoucherRow, world.db.store .vouchers id = some v ∧ v.status = .expired

/-- The voucher was found, locked and not past its expires_at. -/
def Examined (code : Text) (past : Past) : Prop :=
  ∃ id, ∃ v : VoucherRow, ⟨.query (.voucherByCode code), .ok (some id)⟩ ∈ past ∧
    ⟨.lock .vouchers id, .ok (some v)⟩ ∈ past ∧
      ∀ expiresAt, v.expiresAt = some expiresAt → ∃ now, Looked past now ∧ ¬ expiresAt < now

/-- A redeem commits, and answers, only what it has examined. -/
def Examines (call : Call) (past : Past) : Cmd → Prop
  | .commit => ∀ user dto, call = .redeem user dto → Examined (toUpperCase (trim dto.code)) past
  | _ => True

def AnswersExamined (call : Call) : Except Failure Reply → Past → Prop :=
  Ends fun _ past => ∀ user dto, call = .redeem user dto →
    Examined (toUpperCase (trim dto.code)) past

theorem examined_cons {code : Text} {past : Past} (done : Done Cmd Res Failure)
    (examined : Examined code past) : Examined code (done :: past) := by
  obtain ⟨id, v, asked, locked, unexpired⟩ := examined
  refine ⟨id, v, List.mem_cons_of_mem _ asked, List.mem_cons_of_mem _ locked, ?_⟩
  intro expiresAt dated
  obtain ⟨now, looked, early⟩ := unexpired expiresAt dated
  exact ⟨now, List.mem_cons_of_mem _ looked, early⟩

section Order
variable {config : Config} {call : Call}

theorem select_finds {code : Text} {past : Past} :
    Along (Examines call) (Ends fun found past => ∀ v, found = some v →
      ⟨.query (.voucherByCode code), .ok (some v.1)⟩ ∈ past ∧
        ⟨.lock .vouchers v.1, .ok (some v.2)⟩ ∈ past) (selectVoucherForUpdate code) past := by
  refine along_perform _ _ trivial (fun found => ?_) fun _ => trivial
  cases found with
  | none => simp [Along, Branch]
  | some id =>
      refine along_perform _ _ trivial (fun row => ?_) fun _ => trivial
      rintro v found
      obtain ⟨row, rfl, rfl⟩ := Option.map_eq_some_iff.mp found
      simp

theorem expireOnTouch_passes {code : Text} {id : Nat} {v : VoucherRow} {past : Past}
    (asked : ⟨.query (.voucherByCode code), .ok (some id)⟩ ∈ past)
    (locked : ⟨.lock .vouchers id, .ok (some v)⟩ ∈ past) :
    Along (Examines call) (Ends fun _ past => Examined code past) (expireOnTouch id v) past := by
  unfold expireOnTouch
  cases dated : v.expiresAt with
  | none => exact ⟨id, v, asked, locked, by simp [dated]⟩
  | some expiresAt =>
      refine along_perform _ _ trivial (fun now => ?_) fun _ => trivial
      split
      · exact along_perform _ _ trivial (fun _ => trivial) fun _ => trivial
      · rename_i unexpired
        refine ⟨id, v, List.mem_cons_of_mem _ asked, List.mem_cons_of_mem _ locked, ?_⟩
        intro other dated'
        rw [dated, Option.some.injEq] at dated'
        exact ⟨now, List.mem_cons_self, dated' ▸ unexpired⟩

theorem redeem_examines (user : AuthUser) (dto : RedeemVoucherDto) :
    Along (Examines (.redeem user dto)) (AnswersExamined (.redeem user dto))
      (VouchersService.redeem user dto) [] := by
  have whole : ∀ {past}, Examined (toUpperCase (trim dto.code)) past → ∀ user' dto',
      Call.redeem user dto = .redeem user' dto' → Examined (toUpperCase (trim dto'.code)) past := by
    rintro past examined _ _ ⟨⟩
    exact examined
  refine along_then (fun _ past => Examined (toUpperCase (trim dto.code)) past) ?_ ?_
  · refine along_tx trivial (fun _ => trivial) ?_
    refine along_then _ select_finds ?_
    intro found past sought
    refine along_orThrow _ _ _ (fun _ => trivial) fun v same => ?_
    obtain ⟨asked, locked⟩ := sought v same
    refine along_throwIf _ _ _ (fun _ => trivial) fun _ => ?_
    refine along_throwIf _ _ _ (fun _ => trivial) fun _ => ?_
    refine along_then _ (expireOnTouch_passes asked locked) ?_
    intro _ past examined
    refine along_perform _ _ trivial (fun _ => ?_) fun _ => trivial
    refine along_perform _ _ trivial (fun _ => ?_) fun _ => trivial
    exact ⟨whole (examined_cons _ (examined_cons _ examined)),
      examined_cons _ (examined_cons _ (examined_cons _ examined))⟩
  · intro v past examined
    refine along_then (fun _ past => Examined (toUpperCase (trim dto.code)) past) ?_
      fun _ _ examined => whole examined
    apply along_rescue
    exact ⟨trivial, fun answer => by cases answer <;> exact examined_cons _ examined⟩

theorem call_examines (call : Call) :
    Along (Examines call) (AnswersExamined call) (call.program config) [] := by
  by_cases redeems : ∃ user dto, call = .redeem user dto
  · obtain ⟨user, dto, rfl⟩ := redeems
    exact redeem_examines user dto
  · refine along_mono ?_ ?_ _ (uses_along _ (call_uses call))
    · intro past cmd _
      unfold Examines
      split
      · exact fun user dto same => absurd ⟨user, dto, same⟩ redeems
      · trivial
    · rintro (error | reply) past _
      · trivial
      · exact fun user dto same => absurd ⟨user, dto, same⟩ redeems

end Order

/-- The voucher is unused and past its expires_at in `before`; the call of
`thread`, which comes later, redeems its code. -/
structure Touches (before after : World) (thread id : Nat) (v : VoucherRow)
    (dto : RedeemVoucherDto) : Prop where
  voucher : before.db.store .vouchers id = some v
  unused : v.status = .unused
  expired : ∃ expiresAt, v.expiresAt = some expiresAt ∧ expiresAt < before.clock
  code : toUpperCase (trim dto.code) = v.code
  redeem : ∃ user, after.arrivals[thread]? = some (.redeem user dto)
  later : before.arrivals.length ≤ thread

/-- The columns that a redeem looks at, which no UPDATE sets. -/
def SameTerms (before after : VoucherRow) : Prop :=
  after.code = before.code ∧ after.expiresAt = before.expiresAt

section Runs
variable {config : Config} {before after : ServerPool}

theorem voucherByCode_row (reached : Reached config after) {event : Event}
    (member : event ∈ after.state.hist) {code : Text} {id : Nat}
    (asked : event.done = ⟨.query (.voucherByCode code), .ok (some id)⟩) :
    ∃ v : VoucherRow, event.view.rows .vouchers id = some v ∧ v.code = code := by
  obtain ⟨thread, cmd, answer, time, commits, pending, view⟩ := event
  cases asked
  obtain ⟨answered, _, _⟩ := (reached_ready reached).truthful _ member
  have answered' : some id = Query.eval view (.voucherByCode code) := answered
  simp only [Query.eval] at answered'
  rw [eq_comm, Option.map_eq_some_iff] at answered'
  obtain ⟨⟨key, v⟩, first, rfl⟩ := answered'
  obtain ⟨_, present, same⟩ := mem_scan.mp (List.mem_of_mem_head? first)
  exact ⟨v, present, by simpa using same⟩

theorem sameTerms_trans (first second third : VoucherRow) (left : SameTerms first second)
    (right : SameTerms second third) : SameTerms first third :=
  ⟨right.1.trans left.1, right.2.trans left.2⟩

theorem op_sameTerms (op : VoucherOp) (now : Time) (v : VoucherRow) :
    SameTerms v (Op.run .vouchers op now v) := by
  cases op <;> exact ⟨rfl, rfl⟩

theorem late_event (started : Reached config before) (onward : Onward before.state after.state)
    {thread : Nat} (later : before.state.arrivals.length ≤ thread) {event : Event}
    (member : event ∈ after.state.hist) (own : event.thread = thread) :
    before.state.db.log.length ≤ event.commits ∧ before.state.clock ≤ event.time := by
  obtain ⟨pos, found⟩ := List.mem_iff_getElem?.mp member
  refine onward.events pos event ?_ found
  by_contra early
  have there := List.getElem?_eq_getElem (Nat.lt_of_not_le early)
  rw [prefix_getElem? onward.later.hist there, Option.some.injEq] at found
  obtain ⟨call, called, _⟩ := reached_mayDo started event (found ▸ List.mem_of_getElem? there)
  rw [own] at called
  exact absurd (List.getElem?_eq_some_iff.mp called).1 (Nat.not_lt.mpr later)

variable (started : Reached config before) (reached : Reached config after)
  (onward : Onward before.state after.state) {thread id : Nat} {v : VoucherRow}
  {dto : RedeemVoucherDto} (touches : Touches before.state after.state thread id v dto)
include started reached onward touches

theorem touched_terms {event : Event} (member : event ∈ after.state.hist)
    (own : event.thread = thread) :
    ∃ v' : VoucherRow, event.view.rows .vouchers id = some v' ∧ SameTerms v v' := by
  have legit := reached_legit reached
  obtain ⟨user, called⟩ := touches.redeem
  rw [← own] at called
  obtain ⟨low, _⟩ := late_event started onward touches.later member own
  have bound := ((reached_timeline reached).past event member).commits
  have present := touches.voucher
  rw [(reached_ready started).recorded, ← storeAfter_grown onward.later.log _ (Nat.le_refl _)]
    at present
  obtain ⟨middle, found, same⟩ := row_related legit (by simp) (by simp) SameTerms
    (fun _ => ⟨rfl, rfl⟩) sameTerms_trans op_sameTerms low bound present
  -- and the redeem itself only updates it
  have alters : AltersAt .vouchers id event.pending :=
    seen_alters reached member called (by simp [Call.inserts]) (by simp) id
  obtain ⟨seen, found', same'⟩ := replay_related _ .vouchers id SameTerms
    (fun _ => ⟨rfl, rfl⟩) sameTerms_trans op_sameTerms _ alters found
  rw [← ((reached_ready reached).truthful event member).rows] at found'
  exact ⟨seen, found', sameTerms_trans _ _ _ same same'⟩

theorem touched_unexamined :
    ¬ Examined (toUpperCase (trim dto.code)) (pastOf after.state.hist thread) := by
  rintro ⟨key, found, asked, locked, unexpired⟩
  obtain ⟨ask, member, own, same⟩ := mem_pastOf.mp asked
  obtain ⟨lock, member', own', same'⟩ := mem_pastOf.mp locked
  obtain ⟨seen, row, terms⟩ := touched_terms started reached onward touches member own
  obtain ⟨seen', row', terms'⟩ := touched_terms started reached onward touches member' own'
  -- the code leads to this voucher
  obtain rfl : key = id := by
    obtain ⟨other, row'', code⟩ := voucherByCode_row reached member same
    refine seen_apart reached member row'' row ?_
    simp [conflicts, code, terms.1, touches.code]
  rw [locked_row reached member' same', Option.some.injEq] at row'
  subst row'
  obtain ⟨expiresAt, dated, past⟩ := touches.expired
  obtain ⟨now, looked, early⟩ := unexpired expiresAt (terms'.2.trans dated)
  obtain ⟨look, member'', own'', same''⟩ := mem_pastOf.mp looked
  obtain ⟨_, time⟩ := late_event started onward touches.later member'' own''
  rw [date_time reached member'' same''] at time
  exact early (Int.lt_of_lt_of_le past time)

end Runs

theorem unretired {config : Config} {pool : ServerPool} (reached : Reached config pool) (id : Nat) :
    ¬ Retired pool.state id := by
  rintro ⟨v, present, expired⟩
  have state := voucher_state (reached_legit reached) id (Nat.le_refl _)
  rw [← (reached_ready reached).recorded] at state
  generalize creditsFor _ _ = given at state
  cases state with
  | absent empty =>
      rw [present] at empty
      cases empty
  | «open» other present' unused =>
      rw [present, Option.some.injEq] at present'
      subst present'
      cases expired.symm.trans unused
  | spent other user now account present' redeemed =>
      rw [present, Option.some.injEq] at present'
      subst present'
      cases expired.symm.trans redeemed

/-- A redeem that touches an expired voucher never succeeds and commits nothing,
and in no state from then on is the voucher's status expired. -/
theorem never_retired (config : Config) (before after : ServerPool)
    (moves : List (Move Choice Call Ambient)) (started : Reached config before)
    (ran : run (server config) before moves = some after) (thread id : Nat) (v : VoucherRow)
    (dto : RedeemVoucherDto) (touches : Touches before.state after.state thread id v dto) :
    (∀ reply, after.threads[thread]? ≠ some (some (.done reply))) ∧
      (∀ block ∈ after.state.db.log, block.1 ≠ thread) ∧ ¬ Retired after.state id := by
  have reached : Reached config after := run_reachable _ _ _ _ _ started ran
  have unexamined := touched_unexamined started reached (run_onward ran) touches
  obtain ⟨user, called⟩ := touches.redeem
  refine ⟨?_, ?_, unretired reached id⟩
  · intro reply ended
    have answered := (reachable_orderly (server_records config) call_examines rfl (fun _ => rfl)
      reached).threads thread _ _ ended called
    exact unexamined (answered user dto rfl)
  · rintro ⟨_, acts⟩ member rfl
    obtain ⟨index, found⟩ := List.mem_iff_getElem?.mp member
    obtain ⟨pos, answer, time, view, landed, committed⟩ :=
      (reached_chronicle reached).block _ _ _ found
    obtain ⟨call, called', examines⟩ := reached_allowed call_examines reached pos _ committed
    rw [called, Option.some.injEq] at called'
    subst called'
    obtain ⟨key, row, asked, locked, unexpired⟩ := examines user dto rfl
    refine unexamined ⟨key, row, mem_pastOf_whole asked, mem_pastOf_whole locked, ?_⟩
    intro expiresAt dated
    obtain ⟨now, looked, early⟩ := unexpired expiresAt dated
    exact ⟨now, mem_pastOf_whole looked, early⟩

/-- Good for one minute. -/
def minuteVoucher : GenerateVouchersDto where
  count := 1
  durationMinutes := 60
  deviceLimit := 2
  expiresAt := some firstMinute
  countRange := hourVoucher.countRange
  durationMin := hourVoucher.durationMin
  limitMin := hourVoucher.limitMin

def overdue : List (Move Choice Call Ambient) :=
  opening ++ [.start (.generate staff minuteVoucher 1)] ++ steps 1 6 ++
    [.ambient (.elapse 120000)]

def touched : List (Move Choice Call Ambient) :=
  [.start (.redeem guest typedCode)] ++ steps 2 6

def voucherNow (pool : ServerPool) (id : Nat) : Option (Text × VoucherStatus × Option Time) :=
  (pool.state.db.store .vouchers id).map fun v : VoucherRow => (v.code, v.status, v.expiresAt)

theorem overdue_touched : ∃ before after : ServerPool, ∃ v : VoucherRow, Reached shop before ∧
    run (server shop) before touched = some after ∧
    Touches before.state after.state 2 1 v typedCode ∧
    after.threads[2]? = some (some (.raise (.badRequest "Voucher expired"))) ∧
    voucherNow after 1 = voucherNow before 1 := by
  obtain ⟨before, after, reached, ran, calls, calls', seen⟩ := plays_show shop overdue touched
    (fun before after => (voucherNow before 1 == some (toUpperCase (trim typedCode.code), .unused,
        some 60000) && decide (60000 < before.state.clock) &&
      voucherNow after 1 == voucherNow before 1, answerOf after 2))
    (true, some (.error (.badRequest "Voucher expired"))) (by decide +kernel)
  obtain ⟨seen, answer⟩ := Prod.mk.inj seen
  simp only [Bool.and_eq_true, beq_iff_eq, decide_eq_true_eq] at seen
  obtain ⟨⟨voucher, late⟩, same⟩ := seen
  obtain ⟨v, present, terms⟩ := Option.map_eq_some_iff.mp voucher
  simp only [Prod.mk.injEq] at terms
  refine ⟨before, after, v, reached, ran, ?_, answerOf_error answer, same⟩
  exact ⟨present, terms.2.1, ⟨60000, terms.2.2, late⟩, terms.1.symm, ⟨guest, by rw [calls']; rfl⟩,
    by rw [calls]; decide⟩

theorem never_retired_overdue : ∃ before after : ServerPool, ∃ v : VoucherRow,
    Reached shop before ∧ run (server shop) before touched = some after ∧
    Touches before.state after.state 2 1 v typedCode ∧
    (∀ block ∈ after.state.db.log, block.1 ≠ 2) ∧ ¬ Retired after.state 1 := by
  obtain ⟨before, after, v, reached, ran, touches, _⟩ := overdue_touched
  obtain ⟨_, quiet, unretired⟩ :=
    never_retired shop before after touched reached ran 2 1 v typedCode touches
  exact ⟨before, after, v, reached, ran, touches, quiet, unretired⟩

/-- The redeem throws, and the voucher is as unused as it was before. -/
theorem touched_unretired : ∃ before after : ServerPool, ∃ v : VoucherRow, Reached shop before ∧
    run (server shop) before touched = some after ∧
    Touches before.state after.state 2 1 v typedCode ∧
    after.threads[2]? = some (some (.raise (.badRequest "Voucher expired"))) ∧
    voucherNow after 1 = some (v.code, .unused, v.expiresAt) ∧ ¬ Retired after.state 1 := by
  obtain ⟨before, after, v, reached, ran, touches, thrown, same⟩ := overdue_touched
  have still : voucherNow after 1 = some (v.code, .unused, v.expiresAt) := by
    rw [same, voucherNow, touches.voucher, Option.map_some, touches.unused]
  refine ⟨before, after, v, reached, ran, touches, thrown, still, ?_⟩
  rintro ⟨v', present, expired⟩
  rw [voucherNow, present, Option.map_some, Option.some.injEq, Prod.mk.injEq,
    Prod.mk.injEq] at still
  rw [still.2.1] at expired
  cases expired

end Cybera
