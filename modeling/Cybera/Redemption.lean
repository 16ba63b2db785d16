import Cybera.History

/-!
A voucher is credited exactly once, whatever redemptions race for it.
-/

namespace Cybera

open Interleaving

/-- The three states of a voucher id, with the credits given on its account. -/
inductive VoucherState (rows : Store) (id : Nat) : List Credit → Prop where
  | absent (empty : rows .vouchers id = none) : VoucherState rows id []
  | open (v : VoucherRow) (present : rows .vouchers id = some v) (unused : v.status = .unused)
      (nobody : v.redeemedBy = none) (never : v.redeemedAt = none) : VoucherState rows id []
  | spent (v : VoucherRow) (user : Nat) (now : Time) (account : UserRow)
      (present : rows .vouchers id = some v) (redeemed : v.status = .redeemed)
      (redeemer : v.redeemedBy = some user) (moment : v.redeemedAt = some now)
      (owner : rows .users user = some account) (limit : v.deviceLimit ≤ account.deviceLimit) :
      VoucherState rows id [⟨user, v.durationMinutes * 60, .voucher id⟩]

section Blocks
variable {config : Config} {world : World} {index thread : Nat} {call : Call} {acts : List Entry}

theorem op_limit (op : UserOp) (now : Time) (user : UserRow) :
    user.deviceLimit ≤ (Op.run .users op now user).deviceLimit := by
  cases op with
  | credit seconds limit source => exact raiseLimit_ge _ _
  | charge elapsed session => exact Nat.le_refl _
  | syncAdmin hash => exact Nat.le_refl _

theorem block_limit (lawful : Lawful config (world.basisAt index) thread call acts) {user : Nat}
    {account : UserRow} (present : storeAfter world.db.log index .users user = some account) :
    ∃ after, replay acts (storeAfter world.db.log index) .users user = some after ∧
      account.deviceLimit ≤ after.deviceLimit :=
  replay_related _ .users user (fun before after => before.deviceLimit ≤ after.deviceLimit)
    (fun _ => Nat.le_refl _) (fun _ _ _ => Nat.le_trans) op_limit acts
    (lawful_alters lawful (by simp) (by simp) (by simp [present])) present

theorem voucher_kept (lawful : Lawful config (world.basisAt index) thread call acts) (id : Nat)
    (same : replay acts (storeAfter world.db.log index) .vouchers id =
      storeAfter world.db.log index .vouchers id) {given : List Credit}
    (state : VoucherState (storeAfter world.db.log index) id given) :
    VoucherState (replay acts (storeAfter world.db.log index)) id given := by
  cases state with
  | absent empty => exact .absent (same.trans empty)
  | «open» v present unused nobody never => exact .open v (same.trans present) unused nobody never
  | spent v user now account present redeemed redeemer moment owner limit =>
      obtain ⟨after, left, raised⟩ := block_limit lawful owner
      exact .spent v user now after (same.trans present) redeemed redeemer moment left
        (Nat.le_trans limit raised)

theorem replay_generated (actor : AuthUser) (dto : GenerateVouchersDto) (store : Store) (id : Nat)
    (made : ∀ entry ∈ acts, ∃ key code,
      entry = create .vouchers key (newVoucher config actor dto code)) :
    replay acts store .vouchers id = store .vouchers id ∨
      ∃ code, replay acts store .vouchers id = some (newVoucher config actor dto code) := by
  induction acts generalizing store with
  | nil => exact Or.inl rfl
  | cons entry rest ih =>
      obtain ⟨key, code, rfl⟩ := made entry (by simp)
      rw [replay_cons]
      obtain same | made' := ih (RowLock.runEntry Act.run store _)
        fun other member => made other (List.mem_cons_of_mem _ member)
      · by_cases hit : id = key
        · exact Or.inr ⟨code, same.trans (by rw [hit, create_same])⟩
        · exact Or.inl (same.trans (create_key _ _ _ _ _ hit))
      · exact Or.inr made'

theorem uncredited (lawful : Lawful config (world.basisAt index) thread call acts) (id : Nat)
    (other : ∀ user dto, call ≠ .redeem user dto) :
    (acts.filterMap creditOf).filter (fun credit => credit.source = .voucher id) = [] := by
  simp only [List.filter_eq_nil_iff, List.mem_filterMap, decide_eq_true_eq]
  rintro credit ⟨entry, member, found⟩ source
  obtain ⟨user, dto, key, same, _⟩ | ⟨_, _, _, same⟩ | ⟨_, _, _, _, same⟩ :=
    lawful_credit lawful entry member credit found
  · exact other user dto same
  · simp [source] at same
  · simp [source] at same

/-- One block takes a voucher from one of its states to another, and credits it
exactly when it goes from unused to redeemed. -/
theorem voucher_block (lawful : Lawful config (world.basisAt index) thread call acts) (id : Nat)
    {given : List Credit} (state : VoucherState (storeAfter world.db.log index) id given) :
    VoucherState (replay acts (storeAfter world.db.log index)) id
      (given ++ (acts.filterMap creditOf).filter fun credit => credit.source = .voucher id) := by
  by_cases touched : TableName.vouchers ∈ call.tables
  · cases call with
    | redeem user dto =>
        have whole := lawful
        cases lawful with
        | nothing => simpa using state
        | @redeem _ _ key v account now voucher unused owner =>
            have row : storeAfter world.db.log index .vouchers key = some v := voucher
            have account' : storeAfter world.db.log index .users user.id = some account := owner
            by_cases same : id = key
            · subst same
              cases state with
              | absent empty => simp [row] at empty
              | spent other _ _ _ present redeemed =>
                  rw [row, Option.some.injEq] at present
                  subst present
                  simp [unused] at redeemed
              | «open» other present =>
                  rw [row, Option.some.injEq] at present
                  subst present
                  have credited : ([] ++ ([alter .vouchers id (.redeem user.id) now,
                      alter .users user.id (.credit (v.durationMinutes * 60) (some v.deviceLimit)
                        (.voucher id)) now].filterMap creditOf).filter
                          fun credit => credit.source = .voucher id) =
                      [⟨user.id, v.durationMinutes * 60, .voucher id⟩] := by simp
                  rw [credited]
                  exact .spent (VoucherOp.run now (.redeem user.id) v) user.id now
                    (UserOp.run (.credit (v.durationMinutes * 60) (some v.deviceLimit)
                      (.voucher id)) account) (by simp [row, Op.run]) rfl rfl rfl
                        (by simp [account', Op.run])
                    (Nat.le_max_right _ _)
            · have kept := voucher_kept whole id (by simp [same]) state
              simpa [Ne.symm same] using kept
    | generate actor dto attempts =>
        rw [uncredited lawful id (by simp), List.append_nil]
        have whole := lawful
        cases lawful with
        | nothing => exact state
        | generate stored fresh =>
            cases row : storeAfter world.db.log index .vouchers id with
            | some v =>
                refine voucher_kept whole id (RowLock.replay_untouched _ _ _ _ _ ?_) state
                rintro entry member ⟨table, hit⟩
                obtain ⟨key, code, free, rfl⟩ := fresh entry member
                have absent : storeAfter world.db.log index .vouchers key = none := free
                rw [show key = id from hit.symm, row] at absent
                cases absent
            | none =>
                have made : ∀ entry ∈ acts, ∃ key code,
                    entry = create .vouchers key (newVoucher config actor dto code) := by
                  intro entry member
                  obtain ⟨key, code, _, same⟩ := fresh entry member
                  exact ⟨key, code, same⟩
                obtain same | ⟨code, made'⟩ :=
                  replay_generated actor dto (storeAfter world.db.log index) id made
                · exact voucher_kept whole id same state
                · cases state with
                  | absent empty => exact .open _ made' rfl rfl rfl
                  | «open» v present => simp [row] at present
                  | spent v _ _ _ present => simp [row] at present
    | _ => simp [Call.tables] at touched
  · have same := untouched_table lawful touched (storeAfter world.db.log index) id
    rw [uncredited lawful id (by rintro user dto rfl; simp [Call.tables] at touched),
      List.append_nil]
    exact voucher_kept lawful id same state

end Blocks

theorem voucher_state {config : Config} {world : World} (legit : Legit config world) (id : Nat)
    {commits : Nat} (bound : commits ≤ world.db.log.length) :
    VoucherState (storeAfter world.db.log commits) id
      (creditsFor (world.db.log.take commits) (.voucher id)) := by
  refine log_induction legit (fun commits => VoucherState (storeAfter world.db.log commits) id
    (creditsFor (world.db.log.take commits) (.voucher id))) ?_ ?_ commits bound
  · exact .absent rfl
  · intro index thread acts call found called lawful next state
    rw [next, creditsFor_succ found]
    exact voucher_block lawful id state

/-- In every reachable state: the credits on a voucher's account are its worth if
it is redeemed and nothing otherwise, they went to the redeemer, whose device
limit covers the voucher's; and a redeem that threw committed nothing, unless it did
not hear that its COMMIT was carried out. -/
theorem voucher_credited_once (config : Config) (pool : ServerPool)
    (reached : Reached config pool) :
    (∀ id, ∀ v : VoucherRow, pool.state.db.store .vouchers id = some v →
      ((creditsFor pool.state.db.log (.voucher id)).map (·.seconds)).sum =
          (if v.status = .redeemed then v.durationMinutes * 60 else 0) ∧
        (∀ credit ∈ creditsFor pool.state.db.log (.voucher id),
          v.redeemedBy = some credit.user) ∧
        (∀ user, v.redeemedBy = some user → ∃ account : UserRow,
          pool.state.db.store .users user = some account ∧
            v.deviceLimit ≤ account.deviceLimit) ∧
        (v.redeemedBy.isSome ↔ v.status = .redeemed) ∧
        (v.redeemedAt.isSome ↔ v.status = .redeemed)) ∧
    (∀ thread user dto error,
      pool.state.arrivals[thread]? = some (.redeem user dto) →
      pool.threads[thread]? = some (some (.raise error)) → ¬ Lost pool.state thread →
        ∀ block ∈ pool.state.db.log, block.1 ≠ thread) := by
  have legit := reached_legit reached
  refine ⟨?_, ?_⟩
  · intro id v present
    have state := voucher_state legit id (Nat.le_refl _)
    rw [← (reached_ready reached).recorded, List.take_length] at state
    generalize creditsFor pool.state.db.log (.voucher id) = given at state ⊢
    cases state with
    | absent empty => simp [present] at empty
    | «open» other present' unused nobody never =>
        rw [present, Option.some.injEq] at present'
        subst present'
        simp [unused, nobody, never]
    | spent other user now account present' redeemed redeemer moment owner limit =>
        rw [present, Option.some.injEq] at present'
        subst present'
        simp [redeemed, redeemer, moment, owner, limit]
  · intro thread user dto error called thrown heard
    have withdrawn : pool.state.Withdrawn thread := thrown_outcome reached called thrown
    exact withdrawn_silent withdrawn heard

def hourVoucher : GenerateVouchersDto where
  count := 1
  durationMinutes := 60
  deviceLimit := 2
  expiresAt := none
  countRange := by decide
  durationMin := by decide
  limitMin := Nat.two_pos

def typedCode : RedeemVoucherDto where
  code := ['a', 'a', 'a', 'a', '-', 'a', 'a', 'a', 'a', '-', 'a', 'a', 'a', 'a']
  matchesCode := by decide

/-- One voucher, redeemed by two calls of the same guest at once. -/
def doubleRedeem : List (Move Choice Call Ambient) :=
  opening ++ [.start (.generate staff hourVoucher 1)] ++ steps 1 6 ++
    [.start (.redeem guest typedCode), .start (.redeem guest typedCode)] ++
    steps 2 2 ++ steps 3 2 ++ steps 2 5 ++ steps 3 2

theorem voucher_credited_once_raced : ∃ pool, Reached shop pool ∧
    ((creditsFor pool.state.db.log (.voucher 1)).map (·.seconds)).sum = 3600 ∧
    ∀ block ∈ pool.state.db.log, block.1 ≠ 3 := by
  obtain ⟨pool, reached, arrivals, seen⟩ := play_shows shop doubleRedeem
    (fun pool => (((pool.state.db.store .vouchers 1).map fun v : VoucherRow =>
      (v.status, v.durationMinutes)), answerOf pool 3, decide (Lost pool.state 3)))
    (some (.redeemed, 60), some (.error (.badRequest "Voucher already redeemed")), false)
    (by decide +kernel)
  obtain ⟨row, rest⟩ := Prod.mk.inj seen
  obtain ⟨threw, heard⟩ := Prod.mk.inj rest
  obtain ⟨v, present, same⟩ := Option.map_eq_some_iff.mp row
  obtain ⟨redeemed, minutes⟩ := Prod.mk.inj same
  obtain ⟨credited, silent⟩ := voucher_credited_once shop pool reached
  refine ⟨pool, reached, ?_, ?_⟩
  · rw [(credited 1 v present).1, redeemed, minutes]
    rfl
  · exact silent 3 guest typedCode _ (by rw [arrivals]; rfl) (answerOf_error threw)
      (of_decide_eq_false heard)

/-- One voucher, generated; nobody has redeemed it. -/
def printed : List (Move Choice Call Ambient) :=
  opening ++ [.start (.generate staff hourVoucher 1)] ++ steps 1 6

/-- The COMMIT of a redeem is carried out, and its answer lost. -/
def lostRedeem : List (Move Choice Call Ambient) :=
  [.start (.redeem guest typedCode)] ++ steps 2 5 ++
    [.advance 2 { fails := true, took := true }] ++ steps 2 1

/-- The redeem throws, and the guest has the hour and the second device. -/
theorem lost_redeem_credits : ∃ before after : ServerPool, Reached shop before ∧
    run (server shop) before lostRedeem = some after ∧
    after.state.arrivals[2]? = some (.redeem guest typedCode) ∧
    after.threads[2]? = some (some (.raise .lost)) ∧
    holdings before 2 = some (0, 1) ∧ holdings after 2 = some (3600, 2) := by
  obtain ⟨before, after, reached, ran, calls, calls', seen⟩ := plays_show shop printed lostRedeem
    (fun before after => (answerOf after 2, holdings before 2, holdings after 2))
    (some (.error .lost), some (0, 1), some (3600, 2)) (by decide +kernel)
  obtain ⟨answer, rest⟩ := Prod.mk.inj seen
  obtain ⟨poor, rich⟩ := Prod.mk.inj rest
  exact ⟨before, after, reached, ran, by rw [calls']; rfl, answerOf_error answer, poor, rich⟩

end Cybera
