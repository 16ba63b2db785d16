import Cybera.Grounds

/-!
Each call, statement by statement, gives the grounds of its answer; and in every run
each answer has them.
-/

namespace Cybera

open Interleaving

section Calls
variable {config : Config}

theorem scan_empty {view : View} {store : Store} (shows : view.Shows store) {table : TableName}
    {keep : Row table → Bool} (empty : view.scan table keep = []) (id : Nat) (row : Row table)
    (present : store table id = some row) : keep row = false := by
  by_contra kept
  have listed : (id, row) ∈ view.scan table keep := mem_scan.mpr
    ⟨shows.numbered table id (by simp [present]), shows.same ▸ present, by simpa using kept⟩
  rw [empty] at listed
  cases listed

theorem select_told {code : Text} {past : Past} {refuses : Failure → Past → Prop}
    (quiet : Quiet past) : Told (fun found after =>
      (found = none → Rests (fun store _ => ∀ (id : Nat) (v : VoucherRow),
        store .vouchers id = some v → v.code ≠ code) after) ∧
      ∀ v, found = some v → Quiet after ∧ ⟨.query (.voucherByCode code), .ok (some v.1)⟩ ∈ after ∧
        ⟨.lock .vouchers v.1, .ok (some v.2)⟩ ∈ after)
      refuses (selectVoucherForUpdate code) past := by
  refine told_perform fun found => ?_
  cases found with
  | none =>
      refine ⟨fun _ => rests_here (Or.inr quiet) fun store clock reveals id v present => ?_,
        by simp⟩
      obtain ⟨view, shows, answered, _⟩ := reveals.asked _ _ rfl
      have empty : view.scan .vouchers (fun v => v.code == code) = [] := by
        simpa [Query.eval] using answered.symm
      simpa using scan_empty shows empty id v present
  | some id =>
      have quiet' : Quiet (⟨.query (.voucherByCode code), .ok (some id)⟩ :: past) :=
        quiet_query quiet
      refine told_perform fun row => ?_
      cases row with
      | none =>
          refine ⟨fun _ => rests_here (Or.inr quiet') fun store clock reveals => ?_, by simp⟩
          obtain ⟨v, present, _⟩ := reveals.named code id quiet' List.mem_cons_self
          rw [reveals.absent .vouchers id rfl] at present
          cases present
      | some v =>
          refine ⟨by simp, ?_⟩
          rintro _ ⟨⟩
          exact ⟨quiet_lock quiet', by simp, by simp⟩

theorem locked_voucher {code : Text} {id : Nat} {v : VoucherRow} {past : Past}
    {done : Done Cmd Res Failure} {store : Store} {clock : Time} (quiet : Quiet past)
    (asked : ⟨.query (.voucherByCode code), .ok (some id)⟩ ∈ past)
    (locked : ⟨.lock .vouchers id, .ok (some v)⟩ ∈ past) (reveals : Reveals store clock done past) :
    store .vouchers id = some v ∧ v.code = code := by
  have present := reveals.held .vouchers id v (by simp) quiet (List.mem_cons_of_mem _ locked)
  obtain ⟨v', present', named⟩ := reveals.named code id quiet asked
  rw [present, Option.some.injEq] at present'
  exact ⟨present, present' ▸ named⟩

theorem expireOnTouch_told {user : AuthUser} {dto : RedeemVoucherDto} {id : Nat} {v : VoucherRow}
    {past : Past} (quiet : Quiet past)
    (asked : ⟨.query (.voucherByCode (toUpperCase (trim dto.code))), .ok (some id)⟩ ∈ past)
    (locked : ⟨.lock .vouchers id, .ok (some v)⟩ ∈ past) (unused : v.status = .unused) :
    Told (fun _ after => ∀ done, Grounded config (.redeem user dto)
        (.ok (.redeemed v.durationMinutes v.deviceLimit)) (done :: after))
      (fun error after => ∀ answer, Grounded config (.redeem user dto) (.error error)
        (⟨.rollback, answer⟩ :: after)) (expireOnTouch id v) past := by
  have credited : ∀ {store clock done}, Reveals store clock done past →
      (∀ expiresAt, v.expiresAt = some expiresAt → ¬ expiresAt < clock) →
      RedeemGrounds store clock (toUpperCase (trim dto.code))
        (.ok (.redeemed v.durationMinutes v.deviceLimit)) := by
    intro store clock done reveals early
    obtain ⟨present, named⟩ := locked_voucher quiet asked locked reveals
    exact .credited present named unused early
  unfold expireOnTouch
  cases dated : v.expiresAt with
  | none =>
      intro done
      refine grounded_here (Or.inr quiet) fun store clock reveals => credited reveals ?_
      simp [dated]
  | some expiresAt =>
      refine told_perform fun now => ?_
      split
      · rename_i late
        refine told_perform fun _ => Or.inr fun answer => grounded_cons _ (grounded_cons _ ?_)
        refine grounded_here (Or.inr quiet) fun store clock reveals => ?_
        obtain ⟨present, named⟩ := locked_voucher quiet asked locked reveals
        obtain rfl := reveals.dated now rfl
        exact .expired present named (Or.inr ⟨expiresAt, dated, late⟩)
      · rename_i early
        refine fun done => grounded_cons _ ?_
        refine grounded_here (Or.inr quiet) fun store clock reveals => credited reveals ?_
        obtain rfl := reveals.dated now rfl
        simpa [dated] using early

theorem redeem_explained (user : AuthUser) (dto : RedeemVoucherDto) :
    Explained config (.redeem user dto) (VouchersService.redeem user dto) [] := by
  refine told_bind (fun v after => Grounded config (.redeem user dto)
    (.ok (.redeemed v.2.durationMinutes v.2.deviceLimit)) after) ?_ fun v after grounded => ?_
  · refine told_tx (told_bind _ (select_told (quiet_begin quiet_nil)) fun found past sought => ?_)
    refine told_orThrow (fun nothing answer _ => Or.inr (rests_cons _ ?_)) fun v same => ?_
    · obtain ⟨later, done, earlier, split, unpending, shown⟩ := sought.1 nothing
      exact ⟨later, done, earlier, split, unpending,
        fun store clock reveals => .unknown (shown store clock reveals)⟩
    obtain ⟨quiet, asked, locked⟩ := sought.2 v same
    refine told_throwIf (fun spent answer => grounded_here (Or.inr quiet) ?_) fun unspent => ?_
    · intro store clock reveals
      obtain ⟨present, named⟩ := locked_voucher quiet asked locked reveals
      exact .redeemed present named (by simpa using spent)
    refine told_throwIf (fun late answer => grounded_here (Or.inr quiet) ?_) fun current => ?_
    · intro store clock reveals
      obtain ⟨present, named⟩ := locked_voucher quiet asked locked reveals
      exact .expired present named (Or.inl (by simpa using late))
    have unused : v.2.status = .unused := by
      cases status : v.2.status with
      | unused => rfl
      | redeemed => simp [status] at unspent
      | expired => simp [status] at current
    refine told_bind _ (expireOnTouch_told quiet asked locked unused) fun _ after passed => ?_
    refine told_perform fun _ => told_perform fun _ => ?_
    exact grounded_cons _ (grounded_cons _ (passed _))
  · exact told_log fun answer => grounded_cons _ grounded

theorem selectRequest_told {requestId : Nat} {past : Past} {refuses : Failure → Past → Prop}
    (quiet : Quiet past) : Told (fun found after =>
      (found = none → Rests (fun store _ => store .planRequests requestId = none) after) ∧
      ∀ r, found = some r → ∃ before,
        after = ⟨.lock .planRequests requestId, .ok (some r.1)⟩ :: before ∧ Quiet before)
      refuses (selectRequestForUpdate requestId) past := by
  refine told_perform fun found => ?_
  cases found with
  | none =>
      refine ⟨fun _ => rests_here (Or.inr quiet) fun store clock reveals => ?_, by simp⟩
      obtain ⟨view, shows, answered, _⟩ := reveals.asked _ _ rfl
      simp only [Query.eval] at answered
      rw [← shows.same]
      cases present : view.rows .planRequests requestId with
      | none => rfl
      | some r => simp [present] at answered
  | some before =>
      refine told_perform fun row => ?_
      cases row with
      | none =>
          refine ⟨fun _ => rests_here (Or.inr (quiet_query quiet)) fun store clock reveals => ?_,
            by simp⟩
          exact reveals.absent .planRequests requestId rfl
      | some r =>
          refine ⟨by simp, ?_⟩
          rintro _ ⟨⟩
          exact ⟨_, rfl, quiet_query quiet⟩

theorem decide_explained (actor : AuthUser) (requestId : Nat) (approve : Bool) :
    Explained config (.decide actor requestId approve)
      (RequestsService.decide actor requestId approve) [] := by
  refine told_bind (fun _ after => Grounded config (.decide actor requestId approve)
    (.ok .ok) after) ?_ fun _ after grounded => told_log fun answer => grounded_cons _ grounded
  refine told_tx (told_bind _ (selectRequest_told (quiet_begin quiet_nil)) fun found past sought =>
    ?_)
  refine told_orThrow (fun nothing answer _ => Or.inr (rests_cons _ ?_)) fun request same => ?_
  · obtain ⟨later, done, earlier, split, unpending, shown⟩ := sought.1 nothing
    exact ⟨later, done, earlier, split, unpending,
      fun store clock reveals => .unknown (shown store clock reveals)⟩
  obtain ⟨before, rfl, quiet⟩ := sought.2 request same
  have present : ∀ {store : Store} {clock : Time},
      Reveals store clock ⟨.lock .planRequests requestId, .ok (some request.1)⟩ before →
        store .planRequests requestId = some request.1 :=
    fun reveals => reveals.held .planRequests requestId request.1 (by simp) quiet List.mem_cons_self
  refine told_throwIf (fun closed answer => grounded_cons _ ?_) fun pending => ?_
  · exact grounded_here (Or.inr quiet) fun store clock reveals =>
      .decided (present reveals) (by simpa using closed)
  have grounded : Grounded config (.decide actor requestId approve) (.ok .ok) (_ :: before) :=
    grounded_here (Or.inr quiet) fun store clock reveals =>
      .pending (present reveals) (by simpa using pending)
  refine told_perform fun _ => ?_
  cases approve with
  | false => exact grounded_cons _ (grounded_cons _ grounded)
  | true => exact told_perform fun _ => grounded_cons _ (grounded_cons _ (grounded_cons _ grounded))

theorem edit_explained {call : Call} {table : TableName} {id : Nat} {op : Op table}
    {missing : String} {reply : Row table → Reply} {actor : Option Nat} {action : String}
    (means : ∀ {store clock outcome}, EditGrounds store table id op missing reply outcome →
      call.Grounds store clock config outcome) :
    Explained config call (do
      let row ← DbService.tx (updateRow table id op)
      let found ← Prog.orThrow row (.notFound missing)
      AuditService.log actor action
      pure (reply found)) [] := by
  refine told_bind (fun row after => ∀ outcome, (row = none → outcome =
      .error (.notFound missing)) → (∀ found, row = some found → outcome = .ok (reply found)) →
      Grounded config call outcome after) ?_ fun row after grounded => ?_
  · refine told_tx (told_command fun row outcome nothing edited => grounded_cons _ ?_)
    refine grounded_here (Or.inr (quiet_begin quiet_nil)) fun store clock reveals => means ?_
    cases row with
    | none =>
        rw [nothing rfl]
        exact .missing (reveals.missed table id op rfl)
    | some found =>
        obtain ⟨before, now, present, rfl⟩ := reveals.edited table id op found rfl
        rw [edited _ rfl]
        exact .edited present
  · refine told_orThrow (fun nothing => grounded _ (fun _ => rfl) (by simp [nothing])) ?_
    intro found same
    refine told_log fun answer => grounded_cons _ (grounded _ (by simp [same]) ?_)
    rintro _ same'
    rw [same, Option.some.injEq] at same'
    rw [same']

theorem grant_explained (actor : AuthUser) (id : Nat) (dto : GrantTimeDto) :
    Explained config (.grant actor id dto) (AdminController.grant actor id dto) [] :=
  edit_explained fun grounds => grounds

theorem updatePlan_explained (actor : AuthUser) (id : Nat) (dto : PlanEdit) :
    Explained config (.updatePlan actor id dto) (PlansService.update actor id dto) [] :=
  edit_explained fun grounds => grounds

theorem mem_listPending {view : View} {item : PendingItem} :
    item ∈ Query.eval view .listPending ↔ item.id < view.next .planRequests ∧ ∃ u : UserRow,
      view.rows .planRequests item.id = some item.request ∧ item.request.status = .pending ∧
      view.rows .users item.request.userId = some u ∧ item.username = u.username ∧
      item.plan = planAt view.rows item.request := by
  obtain ⟨id, request, username, plan⟩ := item
  simp only [Query.eval, List.mem_insertionSort, List.mem_filterMap, Prod.exists]
  constructor
  · rintro ⟨_, _, scanned, line⟩
    obtain ⟨bound, present, pending⟩ := mem_scan.mp scanned
    split at line
    · rename_i u owner
      cases line
      exact ⟨bound, u, present, by simpa using pending, owner, rfl, rfl⟩
    · cases line
  · rintro ⟨bound, u, present, pending, owner, rfl, rfl⟩
    exact ⟨id, request, mem_scan.mpr ⟨bound, present, by simpa using pending⟩, by simp [owner]; rfl⟩

theorem listPending_explained : Explained config .listPending RequestsService.listPending [] := by
  refine told_perform fun items => grounded_here (Or.inr quiet_nil) fun store clock reveals => ?_
  obtain ⟨view, shows, rfl, _⟩ := reveals.asked _ _ rfl
  refine .listed (fun item => ?_) ?_
  · rw [mem_listPending, shows.same]
    constructor
    · exact fun ⟨_, rest⟩ => rest
    · rintro ⟨u, present, rest⟩
      exact ⟨shows.numbered .planRequests item.id (by simp [present]), u, present, rest⟩
  · exact List.pairwise_insertionSort _ _

theorem named_account {view : View} {store : Store} (shows : view.Shows store)
    {keep : UserRow → Bool} {found : Option (Nat × UserRow)}
    (answered : found = (view.scan .users keep).head?) :
    (found = none → ∀ (id : Nat) (u : UserRow), store .users id = some u → keep u = false) ∧
      ∀ user, found = some user → store .users user.1 = some user.2 ∧ keep user.2 = true := by
  subst answered
  constructor
  · exact fun empty id u => scan_empty shows (List.head?_eq_none_iff.mp empty) id u
  · intro user first
    obtain ⟨_, present, kept⟩ := mem_scan.mp (List.mem_of_mem_head? first)
    exact ⟨shows.same ▸ present, kept⟩

theorem register_explained (dto : RegisterDto) :
    Explained config (.register dto) (AuthService.register config dto) [] := by
  refine told_perform fun existing => ?_
  refine told_throwIf (fun taken => ?_) fun fresh => ?_
  · refine grounded_here (Or.inr quiet_nil) fun store clock reveals => ?_
    obtain ⟨view, shows, answered, _⟩ := reveals.asked _ _ rfl
    obtain ⟨user, same⟩ := Option.isSome_iff_exists.mp taken
    obtain ⟨present, named⟩ := (named_account shows answered).2 user same
    exact .taken present (by simpa using named)
  · refine told_bind (fun _ after => ∃ salt, after = ⟨.randomBytes 16, .ok salt⟩ :: _)
      (told_perform fun salt => ⟨salt, rfl⟩) ?_
    rintro hash _ ⟨salt, rfl⟩
    refine told_bind (fun made after => Grounded config (.register dto)
      (.ok (.user (authUser made))) after) (told_tx ?_) ?_
    · refine told_insertRow fun made sane => ?_
      obtain ⟨now, row⟩ :=
        (sane ⟨.insert .users (fun _ => newUser dto.username hash .customer) false,
        .ok (some made)⟩ (by simp)).inserted _ _ _ made.1 made.2 rfl
      refine Or.inr (rests_cons _ (rests_cons _ (rests_cons _ (rests_cons _ ?_))))
      refine rests_here (Or.inr quiet_nil) fun store clock reveals => ?_
      obtain ⟨view, shows, answered, _⟩ := reveals.asked _ _ rfl
      have free := (named_account shows answered).1 (by simpa using fresh)
      rw [authUser, row]
      exact .registered fun other u present => by simpa using free other u present
    · exact fun made after grounded => told_log fun answer => grounded_cons _ grounded

theorem clientLogin_explained (dto : ClientLoginDto) :
    Explained config (.clientLogin dto) (AuthService.clientLogin dto) [] := by
  refine told_perform fun found => ?_
  refine told_orThrow (fun nothing => ?_) fun user same => told_log fun answer => grounded_cons _ ?_
  · refine grounded_here (Or.inr quiet_nil) fun store clock reveals => ?_
    obtain ⟨view, shows, answered, _⟩ := reveals.asked _ _ rfl
    refine .unknown fun id u present named customer => ?_
    simpa [named, customer] using (named_account shows answered).1 nothing id u present
  · refine grounded_here (Or.inr quiet_nil) fun store clock reveals => ?_
    obtain ⟨view, shows, answered, _⟩ := reveals.asked _ _ rfl
    obtain ⟨present, kept⟩ := (named_account shows answered).2 user same
    rw [Bool.and_eq_true] at kept
    exact .entered present (by simpa using kept.1) (by simpa using kept.2)

theorem login_explained (dto : LoginDto) :
    Explained config (.login dto) (AuthService.login config dto) [] := by
  refine told_perform fun found => ?_
  refine told_orThrow (fun nothing => ?_) fun user same => ?_
  · refine grounded_here (Or.inr quiet_nil) fun store clock reveals => .unknown fun id u present =>
      ?_
    obtain ⟨view, shows, answered, _⟩ := reveals.asked _ _ rfl
    simpa using (named_account shows answered).1 nothing id u present
  refine told_throwIf (fun differs => ?_) fun verified => told_log fun answer => grounded_cons _ ?_
  · refine grounded_here (Or.inr quiet_nil) fun store clock reveals => ?_
    obtain ⟨view, shows, answered, _⟩ := reveals.asked _ _ rfl
    obtain ⟨present, kept⟩ := (named_account shows answered).2 user same
    exact .wrong present (by simpa using kept) (by simpa using differs)
  · refine grounded_here (Or.inr quiet_nil) fun store clock reveals => ?_
    obtain ⟨view, shows, answered, _⟩ := reveals.asked _ _ rfl
    obtain ⟨present, kept⟩ := (named_account shows answered).2 user same
    exact .entered present (by simpa using kept) (by simpa using verified)

theorem createPlan_explained (actor : AuthUser) (dto : CreatePlanDto) :
    Explained config (.createPlan actor dto) (PlansService.create actor dto) [] := by
  refine told_bind (fun made after => Grounded config (.createPlan actor dto)
    (.ok (.plan made.1 made.2)) after) (told_tx (told_insertRow fun made sane => ?_)) ?_
  · obtain ⟨now, row⟩ := (sane ⟨.insert .plans (fun _ => newPlan dto) false, .ok (some made)⟩
      (by simp)).inserted _ _ _ made.1 made.2 rfl
    exact Or.inl fun _ _ => ⟨made.1, by rw [row]⟩
  · exact fun made after grounded => told_log fun answer => grounded_cons _ grounded

theorem removePlan_explained (actor : AuthUser) (id : Nat) :
    Explained config (.removePlan actor id) (PlansService.remove actor id) [] := by
  refine told_perform fun referenced => ?_
  have grounded : Grounded config (.removePlan actor id) (.ok (.removed referenced))
      [⟨.query (.planReferenced id), .ok referenced⟩] := by
    refine grounded_here (Or.inr quiet_nil) fun store clock reveals => ?_
    obtain ⟨view, shows, answered, _⟩ := reveals.asked _ _ rfl
    cases referenced with
    | true =>
        simp only [Query.eval, Bool.true_eq, Bool.not_eq_eq_eq_not, Bool.not_true,
          List.isEmpty_eq_false_iff_exists_mem, Prod.exists] at answered
        obtain ⟨request, r, scanned⟩ := answered
        obtain ⟨_, present, refers⟩ := mem_scan.mp scanned
        exact .referenced (shows.same ▸ present) (by simpa using refers)
    | false =>
        have empty : view.scan .planRequests (fun r => r.source.planId == some id) = [] := by
          simpa [Query.eval] using answered
        exact .unreferenced fun request r present => by
          simpa using scan_empty shows empty request r present
  cases referenced with
  | true =>
      refine told_bind (fun _ after => Grounded config (.removePlan actor id)
        (.ok (.removed true)) after) (told_tx (told_command fun row => ?_)) ?_
      · exact grounded_cons _ (grounded_cons _ (grounded_cons _ grounded))
      · exact fun _ after grounded => told_log fun answer => grounded_cons _ grounded
  | false =>
      refine told_bind (fun _ after => Grounded config (.removePlan actor id)
        (.ok (.removed false)) after) (told_tx (told_command fun row => ?_)) ?_
      · exact grounded_cons _ (grounded_cons _ (grounded_cons _ grounded))
      · exact fun _ after grounded => told_log fun answer => grounded_cons _ grounded

theorem source_none {dto : CreateRequestDto} (nothing : dto.source = none) :
    dto.planId = none ∧ dto.minutes = none := by
  unfold CreateRequestDto.source at nothing
  split at nothing
  · cases nothing
  · rename_i planless
    split at nothing
    · cases nothing
    · exact ⟨planless, by assumption⟩

def Offered (dto : CreateRequestDto) (store : Store) : Prop :=
  ∀ planId, dto.planId = some planId → ∃ plan : PlanRow, store .plans planId = some plan ∧
    plan.active = true

/-- No plan was asked for, or it was active when the call looked. -/
def OfferSeen (dto : CreateRequestDto) (past : Past) : Prop :=
  (∀ store, Offered dto store) ∨ Rests (fun store _ => Offered dto store) past

theorem offerSeen_cons {dto : CreateRequestDto} {past : Past} (done : Done Cmd Res Failure)
    (seen : OfferSeen dto past) : OfferSeen dto (done :: past) :=
  seen.imp id (rests_cons done)

theorem checkPlan_told (user : AuthUser) (dto : CreateRequestDto) :
    Told (fun _ => OfferSeen dto)
      (fun error => Grounded config (.createRequest user dto) (.error error))
      (checkPlan dto.planId) [] := by
  unfold checkPlan
  cases asked : dto.planId with
  | none => exact Or.inl fun store planId same => by simp [asked] at same
  | some planId =>
      refine told_perform fun active => ?_
      have seen : ∀ {store : Store} {clock : Time} {earlier : Past},
          Reveals store clock ⟨.query (.activePlan planId), .ok active⟩ earlier →
            (∃ plan : PlanRow, store .plans planId = some plan ∧ plan.active = active) ∨
              store .plans planId = none ∧ active = false := by
        intro store clock earlier reveals
        obtain ⟨view, shows, answered, _⟩ := reveals.asked _ _ rfl
        simp only [Query.eval, shows.same] at answered
        cases present : store .plans planId with
        | none => exact Or.inr ⟨rfl, by simpa [present] using answered⟩
        | some plan => exact Or.inl ⟨plan, rfl, by simpa [present] using answered.symm⟩
      rw [← Prog.bind_done (Prog.throwIf _ _)]
      refine told_throwIf (fun refused => ?_) fun passed => Or.inr ?_
      · refine grounded_here (Or.inr quiet_nil) fun store clock reveals => .withdrawn asked ?_
        intro plan present
        rcases seen reveals with ⟨plan', present', same⟩ | ⟨absent, _⟩
        · rw [present, Option.some.injEq] at present'
          simpa [present', same] using refused
        · rw [present] at absent
          cases absent
      · refine rests_here (Or.inr quiet_nil) fun store clock reveals planId' same => ?_
        rw [asked, Option.some.injEq] at same
        subst same
        rcases seen reveals with ⟨plan, present, same⟩ | ⟨_, inactive⟩
        · exact ⟨plan, present, by simpa [same] using passed⟩
        · simp [inactive] at passed

theorem created_grounded {user : AuthUser} {dto : CreateRequestDto} {source : RequestSource}
    {id : Nat} {row : PlanRequestRow} {past : Past} (given : dto.source = some source)
    (same : (∀ done ∈ past, Sane done) → row.source = source) (seen : OfferSeen dto past) :
    Grounded config (.createRequest user dto) (.ok (.request id row)) past := by
  intro sane
  have source' : dto.source = some row.source := by rw [given, same sane]
  rcases seen with always | ⟨later, done, earlier, split, unpending, shown⟩
  · exact Or.inl fun store _ => .created source' (always store)
  · exact Or.inr ⟨later, done, earlier, split, unpending,
      fun store clock reveals => .created source' (shown store clock reveals)⟩

theorem create_explained (user : AuthUser) (dto : CreateRequestDto) :
    Explained config (.createRequest user dto) (RequestsService.create user dto) [] := by
  unfold RequestsService.create
  refine told_orThrow (fun nothing _ => Or.inl fun _ _ => .empty (source_none nothing)) ?_
  intro source given
  refine told_bind _ (checkPlan_told user dto) fun _ past seen => told_perform fun pending => ?_
  refine told_bind (fun made after => Grounded config (.createRequest user dto)
    (.ok (.request made.1 made.2)) after) ?_ fun _ _ grounded =>
      told_log fun _ => grounded_cons _ grounded
  have carried : ∀ first second third fourth,
      OfferSeen dto (first :: second :: third :: fourth :: past) :=
    fun _ _ _ _ => offerSeen_cons _ (offerSeen_cons _ (offerSeen_cons _ (offerSeen_cons _ seen)))
  unfold writeRequest
  cases pending with
  | none =>
      refine told_tx (told_insertRow fun made => created_grounded given (fun sane => ?_)
        (carried _ _ _ _))
      obtain ⟨now, row⟩ := (sane ⟨.insert .planRequests (newRequest user source) false,
        .ok (some made)⟩ (by simp)).inserted _ _ _ made.1 made.2 rfl
      rw [row]
      rfl
  | some id =>
      refine told_bind (fun row after => ∀ found, row = some found →
        Grounded config (.createRequest user dto) (.ok (.request id found)) after) ?_
          fun row after grounded => told_orBroke fun found same => grounded found same
      refine told_tx (told_command fun row found same => created_grounded given (fun sane => ?_)
        (carried _ _ _ _))
      subst same
      obtain ⟨before, now, rfl⟩ := (sane ⟨.update .planRequests id (.replace source),
        .ok (some found)⟩ (by simp)).updated _ _ _ _ rfl
      rfl

/-! Programs that refuse nothing. -/
section Unrefusing
variable {refuses : Failure → Past → Prop} {past : Past}

theorem told_each {α : Type} {items : List α} {act : α → Program Unit}
    (single : ∀ item past, Told (fun _ _ => True) refuses (act item) past) :
    Told (fun _ _ => True) refuses (Prog.each items act) past := by
  induction items generalizing past with
  | nil => trivial
  | cons item rest ih => exact told_bind _ (single item past) fun _ _ _ => ih

theorem deauth_told {mac : Text} :
    Told (fun _ _ => True) refuses (NdsctlService.deauth mac) past := by
  apply along_rescue
  exact ⟨trivial, fun answer => by cases answer <;> trivial⟩

theorem flushConntrack_told {ip : Text} :
    Told (fun _ _ => True) refuses (NdsctlService.flushConntrack ip) past := by
  unfold NdsctlService.flushConntrack
  split
  · trivial
  · apply along_rescue
    exact ⟨trivial, fun answer => by cases answer <;> trivial⟩

theorem finishActiveOn_told {mac : Text} {status : SessionStatus} :
    Told (fun _ _ => True) refuses (finishActiveOn mac status) past := by
  refine told_perform fun ids => told_each fun id past => told_perform fun row => ?_
  split
  · trivial
  · split
    · exact told_perform fun _ => trivial
    · trivial

theorem kick_explained (actor : AuthUser) (mac : Text) :
    Explained config (.kick actor mac) (SessionsService.kick actor mac) [] := by
  refine told_perform fun active => ?_
  refine told_bind _ deauth_told fun _ _ _ => ?_
  refine told_bind _ (told_each fun ip past => flushConntrack_told) fun _ _ _ => ?_
  refine told_bind (fun _ _ => True) (told_tx finishActiveOn_told) fun _ _ _ => ?_
  exact told_log fun _ _ => Or.inl fun _ _ => rfl

end Unrefusing

/-! Between its statements a generation has nothing pending. -/
section Generation
variable {refuses : Failure → Past → Prop} {past : Past}

theorem randomCodes_told (count : Nat) (outside : Outside past) :
    Told (fun _ => Outside) refuses (randomCodes count) past := by
  induction count generalizing past with
  | zero => exact outside
  | succ count ih =>
      refine told_perform fun bytes => told_bind _ (ih ?_) fun _ _ outside => outside
      exact outside

theorem insertBatch_told (actor : AuthUser) (dto : GenerateVouchersDto) (batch : List Text) :
    Told (fun _ => Outside) refuses (insertBatch config actor dto batch) past := by
  unfold insertBatch
  split
  · refine told_tx ?_
    refine along_collect (fun _ _ _ => True) _ (fun code rest kept past _ => ?_)
      (fun _ _ _ => trivial) batch trivial
    exact told_perform fun _ => trivial
  · exact Or.inl (Or.inl trivial)

theorem generateLoop_told (actor : AuthUser) (dto : GenerateVouchersDto) (attempts : Nat)
    (codes : List Text) (outside : Outside past) :
    Told (fun _ => Outside) refuses (generateLoop config actor dto attempts codes) past := by
  induction attempts generalizing past codes with
  | zero =>
      unfold generateLoop
      split
      · exact Or.inl (Or.inl trivial)
      · exact outside
  | succ attempts ih =>
      unfold generateLoop
      split
      · refine told_bind _ (randomCodes_told _ outside) fun batch _ _ => ?_
        exact told_bind _ (insertBatch_told actor dto batch) fun _ _ outside => ih _ outside
      · exact outside

theorem generate_explained (actor : AuthUser) (dto : GenerateVouchersDto) (attempts : Nat) :
    Explained config (.generate actor dto attempts)
      (VouchersService.generate config actor dto attempts) [] := by
  refine told_bind _ (generateLoop_told actor dto attempts [] trivial) fun codes past outside => ?_
  refine told_bind (fun _ => Outside) ?_ fun _ past outside => ?_
  · apply along_rescue
    exact ⟨trivial, fun answer => by cases answer <;> exact outside⟩
  · refine told_perform fun rows => ?_
    refine grounded_here (Or.inl outside) fun store clock reveals => .made fun id v member => ?_
    obtain ⟨view, shows, rfl, _⟩ := reveals.asked _ _ rfl
    rw [← shows.same]
    exact (mem_scan.mp ((List.mem_insertionSort _).mp member)).2.1

end Generation

/-- The active sessions that a connect has locked of those it has found, and what it did
before. -/
structure Counted (userId : Nat) (base : Past) (ids rest : List Nat)
    (kept : List (Nat × SessionRow))
    (past : Past) : Prop where
  quiet : Quiet past
  base : ∀ done ∈ base, done ∈ past
  found : ⟨.query (.activeSessionsOf userId), .ok ids⟩ ∈ past
  locked : ∀ s ∈ kept, ⟨.lock .sessions s.1, .ok (some s.2)⟩ ∈ past ∧ s.2.userId = userId ∧
    s.2.status = .active
  apart : (kept.map Prod.fst ++ rest).Sublist ids

theorem lockActiveSessions_told {userId : Nat} {base : Past} {refuses : Failure → Past → Prop}
    (quiet : Quiet base) :
    Told (fun kept past => ∃ ids, Counted userId base ids [] kept past) refuses
      (lockActiveSessions userId) base := by
  refine told_perform fun ids => ?_
  refine along_collect (Counted userId base ids) _ (fun id rest kept past counted => ?_)
    (fun kept past counted => ⟨ids, counted⟩) ids ?_
  · refine told_perform fun row => ?_
    have grown : ∀ {more : List (Nat × SessionRow)}, (more.map Prod.fst).Sublist [id] →
        (∀ s ∈ more, row = some s.2 ∧ id = s.1 ∧ s.2.userId = userId ∧ s.2.status = .active) →
        Counted userId base ids rest (kept ++ more) (⟨.lock .sessions id, .ok row⟩ :: past) := by
      intro more fewer added
      refine ⟨quiet_lock counted.quiet, ?_, List.mem_cons_of_mem _ counted.found,
        fun s member => ?_, ?_⟩
      · exact fun done member => List.mem_cons_of_mem _ (counted.base done member)
      · rcases List.mem_append.mp member with earlier | latest
        · obtain ⟨locked, rest⟩ := counted.locked s earlier
          exact ⟨List.mem_cons_of_mem _ locked, rest⟩
        · obtain ⟨rfl, rfl, rest⟩ := added s latest
          exact ⟨List.mem_cons_self, rest⟩
      · refine List.Sublist.trans ?_ counted.apart
        rw [List.map_append, List.append_assoc]
        exact (fewer.append_right rest).append_left _
    cases kept' : row.filter fun s : SessionRow => s.userId == userId && s.status == .active with
    | none => exact grown (by simp) (by simp)
    | some s =>
        obtain ⟨same, active⟩ := Option.filter_eq_some_iff.mp kept'
        refine grown (by simp) ?_
        intro t member
        obtain rfl := List.mem_singleton.mp member
        rw [Bool.and_eq_true] at active
        exact ⟨same, rfl, by simpa using active.1, by simpa using active.2⟩
  · exact ⟨quiet_query quiet, fun done member => List.mem_cons_of_mem _ member, by simp, by simp,
      by simp⟩

theorem upsertDevice_told {userId : Nat} {mac : Text} {label : Option Text} {past : Past}
    {refuses : Failure → Past → Prop} :
    Told (fun _ _ => True) refuses (upsertDevice userId mac label) past := by
  refine told_perform fun inserted => ?_
  split
  · trivial
  · exact told_perform fun found => told_orBroke fun device _ => told_perform fun _ => trivial

theorem openOrRefresh_told {userId : Nat} {mac ip token : Text}
    {session : Option (Nat × SessionRow)}
    {past : Past} {refuses : Failure → Past → Prop} :
    Told (fun _ _ => True) refuses (openOrRefresh userId mac ip token session) past := by
  unfold openOrRefresh
  cases session with
  | some s => exact told_perform fun _ => trivial
  | none =>
      exact told_bind _ finishActiveOn_told fun _ _ _ =>
        told_bind (fun _ _ => True) (told_insertRow fun _ => trivial) fun _ _ _ => trivial

theorem connectTx_told (user : AuthUser) (dto : ConnectDto) {base : Past} (quiet : Quiet base) :
    Told (fun timeout after => Grounded config (.connect user dto)
        (.ok (.connected (toLowerCase dto.clientmac) timeout)) (⟨.commit, .ok ()⟩ :: after))
      (fun error after => ∀ answer, Grounded config (.connect user dto) (.error error)
        (⟨.rollback, answer⟩ :: after))
      (connectTx config user (toLowerCase dto.clientmac) dto.clientip dto.hid dto.label) base := by
  refine told_perform fun locked => ?_
  refine told_orThrow (fun nothing answer => grounded_cons _ ?_) fun account same => ?_
  · refine grounded_here (Or.inr quiet) fun store clock reveals => .unknown ?_
    exact reveals.absent .users user.id (by rw [nothing])
  subst same
  have present : ∀ {store : Store} {clock : Time},
      Reveals store clock ⟨.lock .users user.id, .ok (some account)⟩ base →
        store .users user.id = some account :=
    fun reveals => reveals.held .users user.id account (by simp) quiet List.mem_cons_self
  refine told_throwIf (fun spent answer => grounded_cons _ ?_) fun left => ?_
  · exact grounded_here (Or.inr quiet) fun store clock reveals =>
      .spent (present reveals) (by simpa using spent)
  have opened : Grounded config (.connect user dto) (.ok (.connected (toLowerCase dto.clientmac)
      (min account.remainingSeconds config.maxSessionSeconds)))
      (⟨.lock .users user.id, .ok (some account)⟩ :: base) :=
    grounded_here (Or.inr quiet) fun store clock reveals =>
      .opened (present reveals) (by simpa using left)
  refine told_bind _ (told_grows (lockActiveSessions_told (quiet_lock quiet))) ?_
  rintro kept past ⟨⟨ids, counted⟩, suffix⟩
  refine told_throwIf (fun full answer => ?_) fun room => ?_
  · rw [Bool.and_eq_true, Option.isNone_iff_eq_none, List.find?_eq_none, decide_eq_true_eq] at full
    obtain ⟨others, full⟩ := full
    refine grounded_here (Or.inr counted.quiet) fun store clock reveals => ?_
    have held : ∀ {table : TableName} {id : Nat} {row : Row table}, table ≠ .plans →
        ⟨.lock table id, .ok (some row)⟩ ∈ past → store table id = some row :=
      fun kept locked => reveals.held _ _ _ kept counted.quiet (List.mem_cons_of_mem _ locked)
    have apart : (kept.map Prod.fst).Nodup := by
      have sublist := counted.apart
      rw [List.append_nil] at sublist
      exact sublist.nodup (reveals.once user.id ids counted.found)
    refine .full (held (by simp) (counted.base _ List.mem_cons_self)) apart ?_
      (by rwa [List.length_map])
    intro id member
    obtain ⟨s, listed, rfl⟩ := List.mem_map.mp member
    obtain ⟨locked, owner, active⟩ := counted.locked s listed
    exact ⟨s.2, held (by simp) locked, owner, active, by simpa using others s listed⟩
  refine told_bind _ (told_grows upsertDevice_told) fun _ past' grown => ?_
  refine told_bind _ (told_grows openOrRefresh_told) fun _ past'' grown' => ?_
  exact grounded_cons _ (grounded_suffix ((suffix.trans grown.2).trans grown'.2) opened)

theorem connect_explained (user : AuthUser) (dto : ConnectDto) :
    Explained config (.connect user dto) (SessionsService.connect config user dto) [] := by
  refine told_throwIf (fun forged _ => Or.inl fun _ _ => .forged (by simpa using forged)) fun _ =>
    ?_
  refine told_perform fun recent => ?_
  refine told_throwIf (fun kicked => ?_) fun _ => ?_
  · refine grounded_here (Or.inr quiet_nil) fun store clock reveals => ?_
    obtain ⟨view, shows, answered, now⟩ := reveals.asked _ _ rfl
    simp only [kicked, Query.eval, Bool.true_eq, Bool.not_eq_eq_eq_not, Bool.not_true,
      List.isEmpty_eq_false_iff_exists_mem, Prod.exists, now trivial] at answered
    obtain ⟨id, s, scanned⟩ := answered
    obtain ⟨_, present, since⟩ := mem_scan.mp scanned
    exact .kicked (shows.same ▸ present) since
  · refine told_bind (fun timeout => Grounded config (.connect user dto)
      (.ok (.connected (toLowerCase dto.clientmac) timeout)))
      (told_tx (connectTx_told user dto (quiet_begin (quiet_query quiet_nil)))) ?_
    exact fun timeout past grounded => told_perform fun _ => told_log fun _ =>
      grounded_cons _ (grounded_cons _ grounded)

theorem call_explained (call : Call) : Explained config call (call.program config) [] := by
  have idle : (∀ store clock outcome, call.Grounds store clock config outcome) →
      Explained config call (call.program config) [] := by
    intro always
    refine along_mono (fun _ _ _ => trivial) ?_ _ (uses_along _ (call_uses call))
    rintro (error | reply) past _
    · exact Or.inr fun _ => Or.inl fun _ _ => always _ _ _
    · exact fun _ => Or.inl fun _ _ => always _ _ _
  cases call with
  | redeem user dto => exact redeem_explained user dto
  | generate actor dto attempts => exact generate_explained actor dto attempts
  | createRequest user dto => exact create_explained user dto
  | listPending => exact listPending_explained
  | decide actor requestId approve => exact decide_explained actor requestId approve
  | grant actor id dto => exact grant_explained actor id dto
  | connect user dto => exact connect_explained user dto
  | kick actor mac => exact kick_explained actor mac
  | createPlan actor dto => exact createPlan_explained actor dto
  | updatePlan actor id dto => exact updatePlan_explained actor id dto
  | removePlan actor id => exact removePlan_explained actor id
  | register dto => exact register_explained dto
  | clientLogin dto => exact clientLogin_explained dto
  | login dto => exact login_explained dto
  | tick | seedAdmin => exact idle fun _ _ _ => trivial

end Calls

section Runs
variable {config : Config} {pool : ServerPool} (reached : Reached config pool)
include reached

omit reached in
theorem process_internal {clients : NdsClients} (command : NdsCommand) {error : Failure}
    (failed : (command.run clients).1 = .error error) : error.Internal := by
  cases command with
  | auth mac minutes | deauth mac =>
      simp only [NdsCommand.run] at failed
      split at failed
      · cases failed
      · cases failed
        trivial
  | json | flushConntrack ip => cases failed

theorem failed_internal {event : Event} (member : event ∈ pool.state.hist) {error : Failure}
    (failed : event.answer = .error error) : error.Internal := by
  refine reached_events (fun event => event.answer = .error error → error.Internal) ?_ reached
    event member failed
  intro pool thread cmd choice answer after _ executed same
  replace same : answer = .error error := same
  subst same
  simp only [World.exec, Option.map_eq_some_iff, Prod.exists, Prod.mk.injEq] at executed
  obtain ⟨reply, world, result, rfl, rfl⟩ := executed
  split at result
  · cases cmd with
    | commit =>
        simp only [World.failed] at result
        split at result
        · cases result
          trivial
        · cases result
          trivial
    | _ =>
        cases result
        trivial
  · have effect := succeeded_effect result
    generalize failed : Except.error error = answer at effect
    cases effect with
    | broken | refused | referenced =>
        cases failed
        trivial
    | ordered command => exact process_internal command failed.symm
    | _ => cases failed

theorem reached_sane {event : Event} (member : event ∈ pool.state.hist) : Sane event.done := by
  refine reached_events (fun event => Sane event.done) ?_ reached event member
  intro pool thread cmd choice answer after _ executed
  have deed := exec_deed executed
  generalize after.db = db at deed
  constructor
  · intro table row skip id made same
    cases same
    cases deed with
    | read reads => exact reads.elim
    | inserted free single written => exact ⟨_, rfl⟩
  · intro table id op row same
    cases same
    cases deed with
    | read reads => exact reads.elim
    | updated present written => exact ⟨_, _, rfl⟩

end Runs

/-- Every answer but a failure of the machinery was right at one moment of the call. -/
theorem answers_grounded (config : Config) (pool : ServerPool) (reached : Reached config pool)
    (thread : Nat) (call : Call) (called : pool.state.arrivals[thread]? = some call)
    (outcome : Except Failure Reply)
    (ended : pool.threads[thread]? = some (some (.ended outcome)))
    (decided : ∀ error, outcome = .error error → ¬ error.Internal) :
    (∀ store clock, call.Grounds store clock config outcome) ∨
      ∃ event ∈ pool.state.hist, event.thread = thread ∧
        call.Grounds (storeAfter pool.state.db.log event.commits) event.time config outcome := by
  have orderly := reachable_orderly (server_records config) call_explained rfl
    (fun _ => rfl) reached
  have along := orderly.threads thread _ call ended called
  have sane : ∀ done ∈ pastOf pool.state.hist thread, Sane done := by
    intro done member
    obtain ⟨event, listed, _, rfl⟩ := mem_pastOf.mp member
    exact reached_sane reached listed
  have grounded : Grounded config call outcome (pastOf pool.state.hist thread) := by
    cases outcome with
    | ok reply => exact along
    | error error =>
        rcases along with (internal | ⟨cmd, failed⟩) | grounded
        · exact absurd internal (decided error rfl)
        · obtain ⟨event, listed, _, same⟩ := mem_pastOf.mp failed
          have refused : event.answer = .error error := by
            obtain ⟨mover, command, answer, time, commits, pending, view⟩ := event
            simp only [Event.done, Sigma.mk.injEq] at same
            obtain ⟨rfl, same⟩ := same
            exact eq_of_heq same
          exact absurd (failed_internal reached listed refused) (decided error rfl)
        · exact grounded
  refine (grounded sane).imp id ?_
  rintro ⟨later, done, earlier, split, unpending, shown⟩
  obtain ⟨pos, event, found, own, rfl, rfl⟩ := pastOf_step split
  subst own
  exact ⟨event, List.mem_of_getElem? found, rfl,
    shown _ _ (reached_reveals reached found unpending)⟩

theorem no_grounds {config : Config} {user : AuthUser} {dto : ConnectDto} (grounds : ConnectGrounds
    (fun _ _ => none) 0 config user dto
      (.error (.forbidden "No time left — redeem a voucher or request a plan"))) : False := by
  generalize refused : Except.error (Failure.forbidden _) = outcome at grounds
  cases grounds with
  | spent present nothing => cases present
  | full present apart online full => cases present
  | _ => simp at refused

/-- A guest without any time left is told so. -/
theorem answers_grounded_penniless : ∃ (pool : ServerPool) (event : Event), Reached shop pool ∧
    event ∈ pool.state.hist ∧ event.thread = 1 ∧
      ConnectGrounds (storeAfter pool.state.db.log event.commits) event.time shop guest phone
        (.error (.forbidden "No time left — redeem a voucher or request a plan")) := by
  obtain ⟨pool, reached, arrivals, answer⟩ := play_shows shop penniless
    (fun pool => answerOf pool 1)
    (some (.error (.forbidden "No time left — redeem a voucher or request a plan")))
    (by decide +kernel)
  rcases answers_grounded shop pool reached 1 (.connect guest phone) (by rw [arrivals]; rfl)
    (.error _) (answerOf_error answer) (by rintro _ ⟨⟩ internal; exact internal)
    with always | ⟨event, rest⟩
  · exact (no_grounds (always (fun _ _ => none) 0)).elim
  · exact ⟨pool, event, reached, rest⟩

end Cybera
