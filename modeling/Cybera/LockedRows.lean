import Cybera.Deadlocks
import Cybera.Deeds
import Cybera.PassOrder

/-!
The programs lock in the order of their transactions: as long as the statements
of a call find the tables, the rows that it has locked so far are a prefix of
its lock order.
-/

namespace Cybera

open Interleaving LockOrder

/-- The rows held once the command is answered. An UPDATE locks its row too;
that of a device comes after the row of its owner, and nobody waits for it. -/
def locked (held : List RowRef) : Cmd → List RowRef
  | .lock table id => held ++ [(table, id)]
  | .update table id _ =>
      if (table, id) ∈ held ∨ table = .devices then held else held ++ [(table, id)]
  | _ => held

def lockedRows (past : Past) : List RowRef :=
  past.foldr (fun done held => locked held done.1) []

theorem lockedRows_cons (done : Done Cmd Res Failure) (past : Past) :
    lockedRows (done :: past) = locked (lockedRows past) done.1 := rfl

/-- The transaction that a call runs on the tables. -/
def Call.transaction (tables : Tables) (order : Nat → Nat) : Call → Option Transaction
  | .tick => some (.tick order)
  | .connect user dto => some (.connect order user.id (toLowerCase dto.clientmac))
  | .kick _ mac => some (.kick order (toLowerCase mac))
  | .redeem user dto =>
      (Query.eval (tables.view order) (.voucherByCode (toUpperCase (trim dto.code)))).map
        fun id => .redeem id user.id
  | .decide _ id _ =>
      (Query.eval (tables.view order) (.requestWithPlan id)).map
        fun request => .decide id request.1.userId
  | _ => none

/-- The queries that say which rows to lock. -/
def Query.Locates : Query → Prop
  | .settlementRows | .activeSessionsOf _ | .activeSessionsOn _ | .voucherByCode _
  | .requestWithPlan _ => True
  | _ => False

/-- What the statements have found is what the tables hold; only sessions of the
join have come to be exhausted. -/
structure Seen (tables : Tables) (order : Nat → Nat) (past : Past) : Prop where
  queries : ∀ query answer, query.Locates → ⟨.query query, .ok answer⟩ ∈ past →
    answer = Query.eval (tables.view order) query
  rows : ∀ id row, ⟨.lock .sessions id, .ok row⟩ ∈ past → row = tables.rows .sessions id
  requests : ∀ id row, ⟨.lock .planRequests id, .ok row⟩ ∈ past →
    row = tables.rows .planRequests id
  exhausted : ∀ found, ⟨.query .exhausted, .ok found⟩ ∈ past →
    ∀ session ∈ found, ∃ user, (session.1, user) ∈ joined tables order

/-- The command locks nothing new, or the next of the rows. -/
def Follows (tables : Tables) (order : Nat → Nat) (rows : List RowRef) (past : Past) (cmd : Cmd) :
    Prop :=
  Seen tables order past →
    locked (lockedRows past) cmd = lockedRows past ∨ locked (lockedRows past) cmd <+: rows

def Cmd.Lockless (cmd : Cmd) : Prop := ∀ held, locked held cmd = held

section Programs
variable {tables : Tables} {order : Nat → Nat} {rows held : List RowRef} {past : Past} {α : Type}

theorem seen_tail {done : Done Cmd Res Failure} (seen : Seen tables order (done :: past)) :
    Seen tables order past where
  queries query answer locates member :=
    seen.queries query answer locates (List.mem_cons_of_mem _ member)
  rows id row member := seen.rows id row (List.mem_cons_of_mem _ member)
  requests id row member := seen.requests id row (List.mem_cons_of_mem _ member)
  exhausted found member := seen.exhausted found (List.mem_cons_of_mem _ member)

theorem along_unseen {post : Except Failure α → Past → Prop} (program : Program α)
    (unseen : ¬ Seen tables order past)
    (ends : ∀ outcome past, ¬ Seen tables order past → post outcome past) :
    Along (Follows tables order rows) post program past := by
  induction program generalizing past with
  | done value => exact ends _ _ unseen
  | raise error => exact ends _ _ unseen
  | exec cmd next ih =>
      exact ⟨fun seen => absurd seen unseen,
        fun answer => ih answer fun seen => unseen (seen_tail seen)⟩

theorem along_held (program : Program α) (uses : program.Uses fun cmd => locked held cmd = held)
    (entry : lockedRows past = held) :
    Along (Follows tables order rows) (Ends fun _ past => lockedRows past = held) program past := by
  refine along_post ?_ _ (along_keeps (fun past => lockedRows past = held) ?_ ?_ program uses entry)
  · rintro (error | value) after kept
    · trivial
    · exact kept
  · intro past cmd still kept _
    exact Or.inl (by rw [kept, still])
  · intro past cmd answer still kept
    rw [lockedRows_cons, kept, still]

theorem along_lockless (program : Program α) (uses : program.Uses Cmd.Lockless) :
    Along (Follows tables order rows) (Ends fun _ _ => True) program past := by
  refine along_mono (fun _ _ lockless _ => Or.inl (lockless _)) ?_ _ (uses_along program uses)
  rintro (error | value) _ _ <;> trivial

def sessionRows (ids : List Nat) : List RowRef := ids.map fun id => (.sessions, id)

theorem finishActiveOn_locks (mac : Text) (status : SessionStatus)
    (within : held ++ sessionRows (sessionsOn tables order mac) <+: rows)
    (entry : lockedRows past = held) :
    Along (Follows tables order rows) (Ends fun _ _ => True) (finishActiveOn mac status) past := by
  refine along_perform _ _ (fun _ => Or.inl rfl) (fun ids => ?_) fun _ => trivial
  -- what is locked and what is still to be locked make up the whole list
  refine along_each (fun rest past => Seen tables order past →
    lockedRows past ++ sessionRows rest = held ++ sessionRows (sessionsOn tables order mac))
    _ ?_ (fun _ _ => trivial) ids ?_
  · intro id rest past loop
    refine along_perform _ _ ?_ (fun row => ?_) fun _ => trivial
    · intro seen
      right
      refine List.IsPrefix.trans ?_ within
      rw [← loop seen]
      exact ⟨sessionRows rest, by simp [locked, sessionRows]⟩
    have locked' : ∀ {row}, Seen tables order (⟨.lock .sessions id, .ok row⟩ :: past) →
        lockedRows (⟨.lock .sessions id, .ok row⟩ :: past) ++ sessionRows rest =
          held ++ sessionRows (sessionsOn tables order mac) := by
      intro row seen
      rw [← loop (seen_tail seen)]
      simp [lockedRows_cons, locked, sessionRows]
    have again : ∀ row, locked (lockedRows (⟨.lock .sessions id, .ok row⟩ :: past))
        (.update .sessions id (.finish status)) = lockedRows (⟨.lock .sessions id, .ok row⟩ ::
          past) := by
      intro row
      simp [lockedRows_cons, locked]
    cases row with
    | none => exact locked'
    | some s =>
        simp only
        split
        · refine along_perform _ _ (fun _ => Or.inl (again _)) (fun _ seen => ?_) fun _ => trivial
          rw [lockedRows_cons, again]
          exact locked' (seen_tail seen)
        · exact locked'
  · intro seen
    have found : ids = sessionsOn tables order mac :=
      seen.queries (.activeSessionsOn mac) ids trivial List.mem_cons_self
    change lockedRows past ++ sessionRows ids = _
    rw [entry, found]

/-- The customer's sessions that are locked, and those that are still to be. -/
structure OwnLocked (tables : Tables) (order : Nat → Nat) (user : Nat) (rest : List Nat)
    (kept : List (Nat × SessionRow)) (past : Past) : Prop where
  all : kept.map Prod.fst ++ rest = ownSessions tables order user
  rows : ∀ s ∈ kept, tables.rows .sessions s.1 = some s.2
  held : lockedRows past = (.users, user) :: sessionRows (kept.map Prod.fst)

theorem lockActiveSessions_locks {user : Nat} {mac : Text}
    (rows_eq : rows = (Transaction.connect order user mac).lockOrder tables)
    (entry : lockedRows past = [(.users, user)]) :
    Along (Follows tables order rows) (Ends fun kept past => Seen tables order past →
      OwnLocked tables order user [] kept past) (lockActiveSessions user) past := by
  refine along_perform _ _ (fun _ => Or.inl rfl) (fun ids => ?_) fun _ => trivial
  refine along_collect (fun rest kept past => Seen tables order past →
    OwnLocked tables order user rest kept past) _ ?_ (fun _ _ own => own) ids ?_
  · intro id rest kept past loop
    refine along_perform _ _ ?_ (fun row seen => ?_) fun _ => trivial
    · intro seen
      right
      obtain ⟨all, _, held⟩ := loop seen
      rw [rows_eq, Transaction.lockOrder, ← all]
      refine ⟨sessionRows (rest ++ takeover tables order user mac), ?_⟩
      simp [locked, held, sessionRows]
    · obtain ⟨all, known, held⟩ := loop (seen_tail seen)
      have listed : id ∈ ownSessions tables order user := by simp [← all]
      obtain ⟨s, active, owner⟩ := mem_ownSessions.mp listed
      have here : row = some s := (seen.rows id row List.mem_cons_self).trans active.2.1
      subst here
      have stays : (Option.filter (fun s : SessionRow => s.userId == user && s.status == .active)
          (some s)) = some s := by simp [owner, active.2.2]
      rw [stays]
      constructor
      · simpa using all
      · intro t member
        rcases List.mem_append.mp member with earlier | new
        · exact known t earlier
        · obtain rfl : t = (id, s) := by simpa using new
          exact active.2.1
      · simp [lockedRows_cons, locked, held, sessionRows]
  · intro seen
    have found : ids = ownSessions tables order user :=
      seen.queries (.activeSessionsOf user) ids trivial List.mem_cons_self
    exact ⟨found, by simp, entry⟩

theorem takeover_all {user : Nat} {mac : Text} {kept : List (Nat × SessionRow)}
    (own : OwnLocked tables order user [] kept past)
    (none' : kept.find? (fun s => s.2.deviceMac == mac) = none) :
    takeover tables order user mac = sessionsOn tables order mac := by
  rw [takeover, if_neg]
  intro some'
  obtain ⟨id, member, on⟩ := List.any_eq_true.mp some'
  rw [← own.all, List.append_nil] at member
  obtain ⟨s, listed, rfl⟩ := List.mem_map.mp member
  have off := List.find?_eq_none.mp none' s listed
  simp [isOn, own.rows s listed, off] at on

theorem openOrRefresh_locks {user : Nat} {mac ip token : Text} {kept : List (Nat × SessionRow)}
    (rows_eq : rows = (Transaction.connect order user mac).lockOrder tables)
    (own : OwnLocked tables order user [] kept past) :
    Along (Follows tables order rows) (Ends fun _ _ => True)
      (openOrRefresh user mac ip token (kept.find? fun s => s.2.deviceMac == mac)) past := by
  cases active : kept.find? fun s => s.2.deviceMac == mac with
  | some s =>
      have member : (TableName.sessions, s.1) ∈ lockedRows past := by
        rw [own.held]
        have listed := List.mem_of_find?_eq_some active
        exact List.mem_cons_of_mem _ (List.mem_map.mpr ⟨s.1, List.mem_map_of_mem listed, rfl⟩)
      refine along_then (fun _ _ => True) (along_command _ (fun _ => ?_) fun _ => trivial)
        fun _ _ _ => trivial
      left
      simp [locked, member]
  | none =>
      refine along_then (fun _ _ => True) (finishActiveOn_locks mac .ended ?_ rfl) fun _ _ _ => ?_
      · rw [rows_eq, own.held, Transaction.lockOrder, takeover_all own active, ← own.all]
        simp [sessionRows]
      · refine along_then (fun _ _ => True) ?_ fun _ _ _ => trivial
        exact along_insertRow (fun _ => Or.inl rfl) fun _ => trivial

theorem connect_locks {config : Config} (user : AuthUser) (dto : ConnectDto)
    (rows_eq : rows = (Transaction.connect order user.id (toLowerCase dto.clientmac)).lockOrder
      tables) :
    Along (Follows tables order rows) (Ends fun _ _ => True)
      (SessionsService.connect config user dto) [] := by
  refine along_throwIf _ _ _ (fun _ => trivial) fun _ => ?_
  refine along_perform _ _ (fun _ => Or.inl rfl) (fun recent => ?_) fun _ => trivial
  refine along_throwIf _ _ _ (fun _ => trivial) fun _ => ?_
  refine along_then (fun _ _ => True) ?_ ?_
  · refine along_tx (fun _ => Or.inl rfl) (fun _ _ => Or.inl rfl) ?_
    refine along_perform _ _ (fun _ => Or.inr ?_) (fun row => ?_) fun _ => trivial
    · rw [rows_eq, Transaction.lockOrder]
      exact ⟨_, rfl⟩
    refine along_orThrow _ _ _ (fun _ => trivial) fun account found => ?_
    refine along_throwIf _ _ _ (fun _ => trivial) fun _ => ?_
    refine along_then _ (lockActiveSessions_locks rows_eq rfl) ?_
    intro kept past own
    refine along_throwIf _ _ _ (fun _ => trivial) fun _ => ?_
    -- what has been found does not have to fit the tables for what follows to run
    by_cases seen : Seen tables order past
    · refine along_then _ (along_held _ (uses_upsertDevice _ _ _
        (fun _ => rfl) (fun _ => rfl) fun _ => by simp [locked]) rfl) ?_
      intro _ after kept'
      refine along_then _ (openOrRefresh_locks rows_eq ⟨(own seen).all, (own seen).rows, ?_⟩) ?_
      · rw [kept', (own seen).held]
      · exact fun _ _ _ => ⟨fun _ => Or.inl rfl, trivial⟩
    · refine along_unseen _ seen ?_
      rintro (error | value) after _
      · trivial
      · exact ⟨fun _ => Or.inl rfl, trivial⟩
  · intro timeoutSeconds past _
    exact along_lockless _ (Prog.uses_bind (Prog.uses_perform fun _ => rfl) fun _ =>
      Prog.uses_bind (uses_audit fun _ => rfl) fun _ => trivial)

theorem kick_locks (actor : AuthUser) (mac : Text)
    (rows_eq : rows = (Transaction.kick order (toLowerCase mac)).lockOrder tables) :
    Along (Follows tables order rows) (Ends fun _ _ => True) (SessionsService.kick actor mac)
      [] := by
  refine along_perform _ _ (fun _ => Or.inl rfl) (fun ips => ?_) fun _ => trivial
  refine along_then _ (along_held _ (uses_deauth _ rfl) (show lockedRows _ = [] from rfl))
    fun _ _ nothing => ?_
  refine along_then _ (along_held _ (Prog.uses_each fun ip _ => uses_flushConntrack ip rfl) nothing)
    fun _ past nothing => ?_
  refine along_then (fun _ _ => True) ?_ fun _ past _ => ?_
  · refine along_tx (fun _ => Or.inl rfl) (fun _ _ => Or.inl rfl) ?_
    refine along_post ?_ _ (finishActiveOn_locks (toLowerCase mac) .kicked ?_ nothing)
    · rintro (error | value) _ _
      · trivial
      · exact ⟨fun _ => Or.inl rfl, trivial⟩
    · rw [rows_eq]
      exact List.prefix_rfl
  · exact along_lockless _ (Prog.uses_bind (uses_audit fun _ => rfl) fun _ => trivial)

theorem redeem_locks (user : AuthUser) (dto : RedeemVoucherDto) {voucher : Nat}
    (found : Query.eval (tables.view order) (.voucherByCode (toUpperCase (trim dto.code))) =
      some voucher)
    (rows_eq : rows = (Transaction.redeem voucher user.id).lockOrder tables) :
    Along (Follows tables order rows) (Ends fun _ _ => True) (VouchersService.redeem user dto)
      [] := by
  refine along_then (fun _ _ => True) ?_ fun _ past _ =>
    along_lockless _ (Prog.uses_bind (uses_audit fun _ => rfl) fun _ => trivial)
  refine along_tx (fun _ => Or.inl rfl) (fun _ _ => Or.inl rfl) ?_
  refine along_then (fun (row : Option (Nat × VoucherRow)) past => ∀ v, row = some v →
    Seen tables order past → v.1 = voucher ∧ lockedRows past = [(.vouchers, voucher)]) ?_ ?_
  · refine along_perform _ _ (fun _ => Or.inl rfl) (fun answer => ?_) fun _ => trivial
    cases answer with
    | none => exact fun _ same => nomatch same
    | some id =>
        have here : ∀ {past}, Seen tables order past →
            ⟨.query (.voucherByCode (toUpperCase (trim dto.code))), .ok (some id)⟩ ∈ past →
            id = voucher := by
          intro past seen member
          have same := seen.queries (.voucherByCode _) (some id) trivial member
          rw [found] at same
          exact Option.some.inj same
        refine along_perform _ _ (fun seen => Or.inr ?_) (fun row => ?_) fun _ => trivial
        · rw [rows_eq, here seen List.mem_cons_self]
          exact ⟨[(.users, user.id)], rfl⟩
        · rintro v same seen
          obtain ⟨w, _, rfl⟩ := Option.map_eq_some_iff.mp same
          obtain rfl := here seen (by simp)
          exact ⟨rfl, rfl⟩
  · intro row past known
    refine along_orThrow _ _ _ (fun _ => trivial) fun v some' => ?_
    refine along_throwIf _ _ _ (fun _ => trivial) fun _ => ?_
    refine along_throwIf _ _ _ (fun _ => trivial) fun _ => ?_
    by_cases seen : Seen tables order past
    · obtain ⟨rfl, held⟩ := known v some' seen
      refine along_then _ (along_held _ ?_ held) fun _ past held => ?_
      · unfold expireOnTouch
        split
        · trivial
        · refine Prog.uses_bind (Prog.uses_perform rfl) fun now => ?_
          split
          · exact Prog.uses_bind (Prog.uses_perform (by simp [locked])) fun _ => trivial
          · trivial
      refine along_then _ (along_held _ (Prog.uses_perform (by simp [locked])) held)
        fun _ past held => ?_
      refine along_then (fun _ _ => True) (along_command _ (fun _ => Or.inr ?_) fun _ => trivial)
        fun _ _ _ => ⟨fun _ => Or.inl rfl, trivial⟩
      rw [rows_eq, held]
      exact ⟨[], by simp [locked, Transaction.lockOrder]⟩
    · refine along_unseen _ seen ?_
      rintro (error | value) after _
      · trivial
      · exact ⟨fun _ => Or.inl rfl, trivial⟩

theorem requestWithPlan_row {id : Nat} {request : PlanRequestRow × Option PlanRow}
    (found : Query.eval (tables.view order) (.requestWithPlan id) = some request) :
    tables.rows .planRequests id = some request.1 := by
  simp only [Query.eval] at found
  split at found
  · cases found
    assumption
  · cases found

theorem decide_locks (actor : AuthUser) (id : Nat) (approve : Bool)
    {request : PlanRequestRow × Option PlanRow}
    (found : Query.eval (tables.view order) (.requestWithPlan id) = some request)
    (rows_eq : rows = (Transaction.decide id request.1.userId).lockOrder tables) :
    Along (Follows tables order rows) (Ends fun _ _ => True)
      (RequestsService.decide actor id approve) [] := by
  refine along_then (fun _ _ => True) ?_ fun _ past _ =>
    along_lockless _ (Prog.uses_bind (uses_audit fun _ => rfl) fun _ => trivial)
  refine along_tx (fun _ => Or.inl rfl) (fun _ _ => Or.inl rfl) ?_
  refine along_then (fun (row : Option (PlanRequestRow × Option PlanRow)) past =>
    ∀ r, row = some r → Seen tables order past →
      r.1 = request.1 ∧ lockedRows past = [(.planRequests, id)]) ?_ ?_
  · refine along_perform _ _ (fun _ => Or.inl rfl) (fun answer => ?_) fun _ => trivial
    cases answer with
    | none => exact fun _ same => absurd same (by simp)
    | some other =>
        refine along_perform _ _ (fun _ => Or.inr ?_) (fun row => ?_) fun _ => trivial
        · rw [rows_eq]
          exact ⟨[(.users, request.1.userId)], rfl⟩
        · rintro r same seen
          obtain ⟨locked', rfl, rfl⟩ := Option.map_eq_some_iff.mp same
          have here := seen.requests id (some locked') List.mem_cons_self
          exact ⟨Option.some.inj (here.trans (requestWithPlan_row found)), rfl⟩
  · intro row past known
    refine along_orThrow _ _ _ (fun _ => trivial) fun r some' => ?_
    refine along_throwIf _ _ _ (fun _ => trivial) fun _ => ?_
    by_cases seen : Seen tables order past
    · obtain ⟨same, locks⟩ := known r some' seen
      refine along_then _ (along_held _ (Prog.uses_perform (by simp [locked])) locks)
        fun _ past held => ?_
      cases approve with
      | false => exact ⟨fun _ => Or.inl rfl, trivial⟩
      | true =>
          refine along_then (fun _ _ => True)
            (along_command _ (fun _ => Or.inr ?_) fun _ => trivial)
            fun _ _ _ => ⟨fun _ => Or.inl rfl, trivial⟩
          rw [rows_eq, held, same]
          exact ⟨[], by simp [locked, Transaction.lockOrder]⟩
    · refine along_unseen _ seen ?_
      rintro (error | value) after _
      · trivial
      · exact ⟨fun _ => Or.inl rfl, trivial⟩

/-- The rows of the join that are locked, and those that are still to be. -/
structure JoinLocked (tables : Tables) (order : Nat → Nat) (rest : List (Nat × Nat))
    (kept : List (Nat × SessionRow)) (past : Past) : Prop where
  all : lockedRows past ++ rest.flatMap joinRows = (joined tables order).flatMap joinRows
  listed : rest ⊆ joined tables order
  rows : ∀ s ∈ kept, (s.1, s.2.userId) ∈ joined tables order

theorem lockSettlementRows_locks
    (rows_eq : rows = (Transaction.tick order).lockOrder tables) (entry : lockedRows past = []) :
    Along (Follows tables order rows) (Ends fun kept past => Seen tables order past →
      JoinLocked tables order [] kept past) lockSettlementRows past := by
  refine along_perform _ _ (fun _ => Or.inl rfl) (fun found => ?_) fun _ => trivial
  refine along_collect (fun rest kept past => Seen tables order past →
    JoinLocked tables order rest kept past) _ ?_ (fun _ _ locks => locks) found ?_
  · intro ids rest kept past loop
    have next : ∀ {past}, JoinLocked tables order (ids :: rest) kept past →
        lockedRows past ++ [(.sessions, ids.1)] <+: rows ∧
          lockedRows past ++ joinRows ids <+: rows := by
      intro past locks
      rw [rows_eq, Transaction.lockOrder, ← locks.all]
      exact ⟨⟨(.users, ids.2) :: rest.flatMap joinRows, by simp [joinRows]⟩,
        ⟨rest.flatMap joinRows, by simp⟩⟩
    refine along_perform _ _ (fun seen => Or.inr (next (loop seen)).1) (fun row => ?_)
      fun _ => trivial
    refine along_perform _ _ (fun seen => Or.inr ?_) (fun account seen => ?_) fun _ => trivial
    · have rows' := (next (loop (seen_tail seen))).2
      simpa [lockedRows_cons, locked, joinRows] using rows'
    · obtain ⟨all, listed, known⟩ := loop (seen_tail (seen_tail seen))
      constructor
      · rw [← all]
        simp [lockedRows_cons, locked, joinRows]
      · exact fun other member => listed (List.mem_cons_of_mem _ member)
      · intro s member
        rcases List.mem_append.mp member with earlier | new
        · exact known s earlier
        · obtain ⟨t, active, owner⟩ := mem_joined.mp (listed List.mem_cons_self :
            (ids.1, ids.2) ∈ joined tables order)
          have here : row = some t := (seen.rows ids.1 row (by simp)).trans active.2.1
          subst here
          have stays : (Option.filter (fun s : SessionRow => s.status == .active) (some t)) =
              some t := by simp [active.2.2]
          rw [stays] at new
          obtain rfl : s = (ids.1, t) := by simpa using new
          exact mem_joined.mpr ⟨t, active, rfl⟩
  · intro seen
    have same : found = joined tables order :=
      seen.queries .settlementRows found trivial List.mem_cons_self
    refine ⟨?_, ?_, by simp⟩
    · change lockedRows past ++ found.flatMap joinRows = _
      rw [entry, same, List.nil_append]
    · exact same ▸ List.Subset.refl _

theorem settlement_locks (online : List (Text × Text))
    (rows_eq : rows = (Transaction.tick order).lockOrder tables) (entry : lockedRows past = []) :
    Along (Follows tables order rows) (Ends fun _ _ => True) (settlement online) past := by
  refine along_perform _ _ (fun _ => Or.inl rfl) (fun _ => ?_) fun _ => trivial
  refine along_then _ (lockSettlementRows_locks rows_eq entry) fun kept past locks => ?_
  by_cases seen : Seen tables order past
  · obtain ⟨all, _, known⟩ := locks seen
    rw [List.flatMap_nil, List.append_nil] at all
    -- the rows of the join are all locked by now
    have session : ∀ {ids}, ids ∈ joined tables order →
        (TableName.sessions, ids.1) ∈ (joined tables order).flatMap joinRows :=
      fun member => mem_session_rows.mpr ⟨_, member⟩
    have owner : ∀ {ids}, ids ∈ joined tables order →
        (TableName.users, ids.2) ∈ (joined tables order).flatMap joinRows :=
      fun member => mem_user_rows.mpr ⟨_, member⟩
    refine along_then _ (along_held _ (Prog.uses_perform rfl) all) fun now past held => ?_
    refine along_then _ (along_held _ (Prog.uses_each fun s member => ?_) held) fun _ past held =>
      ?_
    · refine uses_settle _ _ _ (fun _ => rfl) ?_ ?_ (fun _ => by simp [locked]) ?_
      · simp [locked, session (known s member)]
      · simp [locked, owner (known s member)]
      · simp [locked, session (known s member)]
    refine along_perform _ _ (fun _ => Or.inl rfl) (fun exhausted => ?_) fun _ => trivial
    by_cases seen : Seen tables order (⟨.query .exhausted, .ok exhausted⟩ :: past)
    · have within := seen.exhausted exhausted List.mem_cons_self
      refine along_then _ (along_held _ (Prog.uses_each fun s member => ?_) held) fun _ past _ => ?_
      · obtain ⟨user, listed⟩ := within s member
        refine Prog.uses_bind (Prog.uses_perform ?_) fun _ => trivial
        simp [locked, session listed]
      · exact along_lockless _ (Prog.uses_bind (Prog.uses_perform fun _ => rfl) fun _ => trivial)
    · refine along_unseen _ seen ?_
      rintro (error | value) _ _ <;> trivial
  · refine along_unseen _ seen ?_
    rintro (error | value) _ _ <;> trivial

theorem tick_locks (rows_eq : rows = (Transaction.tick order).lockOrder tables) :
    Along (Follows tables order rows) (Ends fun _ _ => True) SessionManager.tick [] := by
  refine along_perform _ _ (fun _ => Or.inl rfl) (fun clients => ?_) fun _ => trivial
  refine along_then (fun _ _ => True) ?_ fun _ past _ => ?_
  · apply along_rescue
    have settles : Along (Follows tables order rows) (Ends fun _ _ => True)
        ((settlement (authedClients clients)).bind fun exhausted => Prog.each exhausted cutOff)
        [⟨.ndsctl .json, .ok clients⟩] := by
      refine along_then (fun _ _ => True) (settlement_locks _ rows_eq rfl) fun exhausted past _ =>
        ?_
      refine along_lockless _ (Prog.uses_each fun s _ => ?_)
      refine Prog.uses_bind (uses_deauth _ fun _ => rfl) fun _ => ?_
      exact Prog.uses_bind (uses_flushConntrack _ fun _ => rfl) fun _ =>
        Prog.uses_perform fun _ => rfl
    refine along_post ?_ _ settles
    rintro (error | value) past _
    · refine along_lockless _ (Prog.uses_bind ?_ fun _ => trivial)
      exact Prog.uses_rescue (Prog.uses_perform fun _ => rfl) fun _ => trivial
    · trivial
  · refine along_lockless _ (Prog.uses_bind (uses_select fun _ => rfl) fun active => ?_)
    refine Prog.uses_bind (Prog.uses_each fun client _ => ?_) fun _ => trivial
    unfold cutOrphan
    split
    · trivial
    · exact Prog.uses_bind (uses_deauth _ fun _ => rfl) fun _ =>
        uses_flushConntrack _ fun _ => rfl

theorem call_locks (config : Config) (call : Call) :
    Along (fun past cmd => ∀ deal, call.transaction tables order = some deal →
        Follows tables order (deal.lockOrder tables) past cmd)
      (fun _ _ => True) (call.program config) [] := by
  cases runs : call.transaction tables order with
  | none =>
      refine along_mono ?_ (fun _ _ _ => trivial) _ (along_mayDo call)
      exact fun _ _ _ _ same => nomatch same
  | some deal =>
      have follows : Along (Follows tables order (deal.lockOrder tables)) (Ends fun _ _ => True)
          (call.program config) [] := by
        cases call with
        | tick =>
            cases runs
            exact tick_locks rfl
        | connect user dto =>
            cases runs
            exact connect_locks user dto rfl
        | kick actor mac =>
            cases runs
            exact kick_locks actor mac rfl
        | redeem user dto =>
            obtain ⟨voucher, found, rfl⟩ := Option.map_eq_some_iff.mp runs
            exact redeem_locks user dto found rfl
        | decide actor id approve =>
            obtain ⟨request, found, rfl⟩ := Option.map_eq_some_iff.mp runs
            exact decide_locks actor id approve found rfl
        | _ => cases runs
      refine along_mono ?_ (fun _ _ _ => trivial) _ follows
      rintro past cmd permitted _ ⟨⟩
      exact permitted

end Programs

/-- Whatever the threads have done: as long as what a call found is what the
tables hold, it has locked the first rows of its transaction's lock order. -/
theorem locks_in_order {config : Config} {pool : ServerPool} (reached : Reached config pool)
    {thread : Nat} {call : Call} (called : pool.state.arrivals[thread]? = some call)
    {tables : Tables} {order : Nat → Nat} {deal : Transaction}
    (runs : call.transaction tables order = some deal)
    (seen : Seen tables order (pastOf pool.state.hist thread)) :
    lockedRows (pastOf pool.state.hist thread) <+: deal.lockOrder tables := by
  have upTo : ∀ pos, lockedRows (pastOf (pool.state.hist.take pos) thread) <+:
      deal.lockOrder tables := by
    intro pos
    induction pos with
    | zero => exact List.nil_prefix
    | succ pos ih =>
        cases found : pool.state.hist[pos]? with
        | none =>
            rwa [List.take_add_one, found, Option.toList_none, List.append_nil]
        | some event =>
            rw [List.take_add_one, found, Option.toList_some]
            by_cases own : event.thread = thread
            · subst own
              obtain ⟨call', called', allowed⟩ := reached_allowed (call_locks config) reached pos
                event found
              obtain rfl := Option.some.inj (called'.symm.trans called)
              have seen' : Seen tables order (pastOf (pool.state.hist.take pos) event.thread) :=
                ⟨fun query answer locates member =>
                    seen.queries query answer locates (mem_pastOf_whole member),
                  fun id row member => seen.rows id row (mem_pastOf_whole member),
                  fun id row member => seen.requests id row (mem_pastOf_whole member),
                  fun listed member => seen.exhausted listed (mem_pastOf_whole member)⟩
              rw [pastOf_own rfl, lockedRows_cons]
              rcases allowed deal runs seen' with same | next
              · rw [show event.done.1 = event.cmd from rfl, same]
                exact ih
              · exact next
            · rwa [pastOf_other own]
  simpa using upTo pool.state.hist.length

end Cybera
