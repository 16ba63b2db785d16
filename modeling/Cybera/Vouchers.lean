import Cybera.Statements

/-!
VouchersService: a redemption commits one lawful transaction or none, and
generated vouchers start out unused.
-/

namespace Cybera

open Interleaving

def redeemActs (userId id : Nat) (v : VoucherRow) (now : Time) : List Entry :=
  [alter .vouchers id (.redeem userId) now,
    alter .users userId (.credit (v.durationMinutes * 60) (some v.deviceLimit) (.voucher id)) now]

def RedeemNote (userId : Nat) (voucher : Nat × VoucherRow) (acts : List Entry) (basis : Basis) :
    Prop :=
  basis.row .vouchers voucher.1 (some voucher.2) ∧
    ∃ now, acts = redeemActs userId voucher.1 voucher.2 now

/-- A redeem that answered has committed the redemption of the voucher it reports. -/
def RedeemOutcome (userId thread : Nat) : Except Failure Reply → World → Prop
  | .ok reply, world => ∃ id now, ∃ v : VoucherRow,
      reply = .redeemed v.durationMinutes v.deviceLimit ∧
        world.Committed thread (redeemActs userId id v now) fun rows => rows .vouchers id = some v
  | .error _, world => world.Withdrawn thread

section Redeem
variable {config : Config} {thread : Nat} {first world : World} {began : Time}

theorem redeem_monotone (userId : Nat) : Monotone (RedeemNote userId) := by
  intro voucher acts less more extends' note
  exact ⟨extends'.row _ _ _ note.1, note.2⟩

theorem body_expireOnTouch {α : Type} {post : α → World → Prop} {id : Nat} {v : VoucherRow}
    {rest : Unit → Program α} (here : Here thread first world began [])
    (passed : ∀ after, Here thread first after began [] → Carries thread world after →
      Body config thread first post (rest ()) after) :
    Body config thread first post ((expireOnTouch id v).bind rest) world := by
  unfold expireOnTouch
  cases v.expiresAt with
  | none => exact passed world here (carries_refl _ _)
  | some expiresAt =>
      simp only [Prog.bind_eq, Prog.bind_assoc]
      refine body_dateNow here ?_
      intro after date here' carries held' _
      by_cases expired : expiresAt < date
      · simp only [expired, if_true, Prog.bind_assoc, Prog.raise_bind]
        refine body_update here' ?_ ?_
        · intro later here'' _ _ _
          exact here''.since
        · intro later row here'' _ _ _ _ _
          exact here''.since
      · simp only [expired, if_false, Prog.done_bind]
        exact passed after here' carries

theorem redeem_body (user : AuthUser) (dto : RedeemVoucherDto)
    (here : Here thread first first began []) :
    Body config thread first
      (Seals config thread first began (.redeem user dto) (RedeemNote user.id))
      (do
        let found ← selectVoucherForUpdate (toUpperCase (trim dto.code))
        let v ← Prog.orThrow found (.badRequest "Unknown voucher code")
        Prog.throwIf (v.2.status == .redeemed) (.badRequest "Voucher already redeemed")
        Prog.throwIf (v.2.status == .expired) (.badRequest "Voucher expired")
        expireOnTouch v.1 v.2
        let _ ← updateRow .vouchers v.1 (.redeem user.id)
        let _ ← updateRow .users user.id
          (.credit (v.2.durationMinutes * 60) (some v.2.deviceLimit) (.voucher v.1))
        pure v) first := by
  simp only [selectVoucherForUpdate, Prog.bind_eq, Prog.bind_assoc]
  refine body_query here ?_
  intro w1 _ view here1 _ _ _ _ _
  cases Query.eval view (.voucherByCode (toUpperCase (trim dto.code))) with
  | none => exact here1.since
  | some id =>
      simp only [Prog.bind_assoc, Prog.pure_eq, Prog.done_bind]
      refine body_lock here1 ?_ ?_
      · intro w2 here2 _ _ _
        exact here2.since
      intro w2 v here2 _ _ locked present _
      have voucher : RowLock.Holds w2.db thread .vouchers id (some v) := ⟨locked, present⟩
      refine body_orThrow here2 ?_
      rintro inner ⟨⟩
      refine body_throwIf here2 fun redeemed => body_throwIf here2 fun expired => ?_
      have unused : v.status = .unused := by
        cases status : v.status <;> simp_all
      refine body_expireOnTouch here2 ?_
      intro w3 here3 carries3
      have voucher3 := carries3.db.holds voucher
      refine body_update here3 ?_ ?_
      · intro w4 here4 carries4 _ missing
        have gone : w4.db.store .vouchers id = none := missing
        rw [(carries4.db.holds voucher3).row] at gone
        cases gone
      intro w4 row here4 carries4 held4 _ _ linked
      have voucher4 := carries4.db.holds voucher3
      -- the foreign key of redeemed_by is what makes the account exist
      have owner : (w4.db.store .users user.id).isSome := by
        have target := linked (.users, user.id) (by
          simp [references, Op.run, VoucherOp.run])
        exact target
      refine body_update here4 ?_ ?_
      · intro w5 here5 carries5 _ missing
        have stays := carries5.stays .users user.id (by simp) owner
        simp at missing
        simp [missing] at stays
      intro w5 account here5 carries5 _ locked5 found5 _
      have voucher5 := carries5.db.holds voucher4
      have account5 : RowLock.Holds w5.db thread .users user.id (some account) :=
        ⟨locked5, by simpa using found5⟩
      exact ⟨_, here5, .redeem voucher5 unused account5, voucher5, began, rfl⟩

theorem redeem_safe (user : AuthUser) (dto : RedeemVoucherDto) (free : Free thread world [])
    (called : world.arrivals[thread]? = some (.redeem user dto)) :
    Secure config thread (RedeemOutcome user.id thread) (VouchersService.redeem user dto)
      world := by
  unfold VouchersService.redeem
  refine free_tx (redeem_monotone user.id) free called ?_ ?_ ?_ ?_
  · intro first began here _ _
    exact redeem_body user dto here
  · intro after error free' _ _ _
    exact free'.own
  rotate_left
  · rintro after error voucher acts _ _ _ ⟨index, lost, _⟩
    exact withdrawn_lost lost
  rintro after voucher acts free' _ held ⟨index, _, found, present, now, rfl⟩
  refine free_audit free' ?_
  intro last _ _ _ _ later _ _
  refine ⟨voucher.1, now, voucher.2, rfl, later.committed ⟨index, found, ?_⟩⟩
  simpa only [committedBasis, storeAfter_take] using present

end Redeem

section Generate
variable {config : Config} {thread : Nat} {first world : World} {began : Time}
  {blocks : List (List Entry)} {β : Type} {post : Except Failure β → World → Prop}

theorem free_randomCodes {rest : List Text → Program β} (count : Nat)
    (free : Free thread world blocks)
    (failed : ∀ after error, Free thread after blocks → Later world after → Held config after →
      post (.error error) after)
    (found : ∀ after codes, Free thread after blocks → Later world after →
      Secure config thread post (rest codes) after) :
    Secure config thread post ((randomCodes count).bind rest) world := by
  induction count generalizing world rest with
  | zero => exact found world [] free (later_refl _)
  | succ count ih =>
      simp only [randomCodes, Prog.bind_eq, Prog.bind_assoc, Prog.pure_eq, Prog.done_bind]
      have apart : (Cmd.randomBytes 12).Apart := trivial
      refine free_perform apart free failed ?_
      intro w1 bytes _ _ free1 later1 _ _
      refine ih free1 ?_ ?_
      · intro after error free' later held
        exact failed after error free' (later_trans later1 later) held
      · intro after codes free' later
        exact found after (generateCode bytes :: codes) free' (later_trans later1 later)

theorem insertBatch_body (actor : AuthUser) (dto : GenerateVouchersDto) (attempts : Nat)
    (batch : List Text) (stored : dto.storable config = true)
    (here : Here thread first first began []) :
    Body config thread first
      (Seals config thread first began (.generate actor dto attempts) fun _ _ _ => True)
      (Prog.collect batch fun code => do
        let inserted ← insertOrSkip .vouchers fun _ => newVoucher config actor dto code
        pure (inserted.map fun voucher => voucher.2.code)) first := by
  let fresh (basis : Basis) (acts : List Entry) : Prop := ∀ entry ∈ acts, ∃ id code,
    basis.row .vouchers id none ∧ entry = create .vouchers id (newVoucher config actor dto code)
  have carried : ∀ {w w' : World} {acts}, Carries thread w w' → fresh (w.basis thread) acts →
      fresh (w'.basis thread) acts := by
    intro w w' acts carries known entry member
    obtain ⟨id, code, free, same⟩ := known entry member
    exact ⟨id, code, carries.db.holds free, same⟩
  let loop (_ : List Text) (_ : List Text) (w : World) : Prop :=
    ∃ acts, Here thread first w began acts ∧ fresh (w.basis thread) acts
  have entry : loop batch [] first := ⟨[], here, by simp [fresh]⟩
  refine body_collect entry ?_ ?_
  · rintro code rest kept state ⟨acts, here', known⟩
    simp only [insertOrSkip, Prog.bind_eq]
    refine body_insertOrSkip here' ?_ ?_ true
    · intro after here'' carries _
      exact ⟨acts, here'', carried carries known⟩
    · intro after id here'' carries _ holds _
      refine ⟨_, here'', ?_⟩
      intro entry member
      rcases List.mem_append.mp member with earlier | latest
      · exact carried carries known entry earlier
      · rw [List.mem_singleton] at latest
        exact ⟨id, code, holds, latest⟩
  · rintro codes state ⟨acts, here', known⟩
    exact ⟨acts, here', .generate stored known, trivial⟩

theorem generateLoop_safe (actor : AuthUser) (dto : GenerateVouchersDto) (attempts total : Nat)
    (codes : List Text) (free : Free thread world blocks)
    (called : world.arrivals[thread]? = some (.generate actor dto total))
    {rest : List Text → Program β} (anyway : ∀ error after, post (.error error) after)
    (found : ∀ after blocks codes, Free thread after blocks →
      Secure config thread post (rest codes) after) :
    Secure config thread post ((generateLoop config actor dto attempts codes).bind rest) world := by
  induction attempts generalizing world blocks codes with
  | zero =>
      unfold generateLoop
      split
      · exact anyway _ _
      · exact found world blocks codes free
  | succ attempts ih =>
      unfold generateLoop
      split
      · simp only [Prog.bind_eq, Prog.bind_assoc]
        refine free_randomCodes _ free (fun after error _ _ _ => anyway error after) ?_
        intro w1 batch free1 later1
        have mono : Monotone fun (_ : List Text) (_ : List Entry) (_ : Basis) => True :=
          fun _ _ _ _ _ _ => trivial
        unfold insertBatch
        split
        · rename_i stored
          refine free_tx mono free1 (prefix_getElem? later1.arrivals called) ?_ ?_ ?_ ?_
          · intro first began here _ _
            exact insertBatch_body actor dto total batch stored here
          · intro after error _ _ _
            exact anyway error after
          · intro after inserted acts free' later _ _
            exact ih _ free' (prefix_getElem? (later_trans later1 later).arrivals called)
          · intro after error _ _ _ _ _ _
            exact anyway error after
        · exact anyway _ _
      · exact found world blocks codes free

theorem generate_safe (actor : AuthUser) (dto : GenerateVouchersDto) (attempts : Nat)
    (free : Free thread world [])
    (called : world.arrivals[thread]? = some (.generate actor dto attempts)) :
    Secure config thread (fun _ _ => True) (VouchersService.generate config actor dto attempts)
      world := by
  unfold VouchersService.generate
  refine generateLoop_safe actor dto attempts attempts [] free called (fun _ _ => trivial) ?_
  intro after blocks codes free'
  refine free_audit free' ?_
  intro w1 _ _ _ free1 _ _ _
  have apart : (Cmd.query (.vouchersByCodes codes)).Apart := trivial
  exact free_perform apart free1 (fun _ _ _ _ _ => trivial) fun _ _ _ _ _ _ _ _ => trivial

end Generate
end Cybera
