import Cybera.Connections

/-!
The session manager: whatever one pass commits is a settlement of rows that it
holds locked.
-/

namespace Cybera

open Interleaving

def settled (online : List (Text × Text)) : Program (List (Nat × SessionRow)) := do
  let sessions ← lockSettlementRows
  let now ← perform .dateNow
  Prog.each sessions (settle online now)
  let exhausted ← select .exhausted
  Prog.each exhausted fun session => finishSession session.1
  pure exhausted

theorem settlement_eq (online : List (Text × Text)) :
    settlement online = (perform .begin).bind fun _ => (settled online).bind fun exhausted =>
      (perform .commit).bind fun _ => .done exhausted := by
  simp only [settlement, settled, Prog.bind_eq, Prog.bind_assoc, Prog.pure_eq, Prog.done_bind]

section Pass
variable {config : Config} {thread : Nat} {first world : World} {began : Time}
  {acts : List Entry}

theorem settled_alters {basis : Basis} {now date : Time}
    (pass : Settled basis thread now date acts) (table : TableName) (id : Nat)
    (other : table ≠ .devices) : AltersAt table id acts := by
  have finish : ∀ (acts : List Entry) (key : Nat), AltersAt table id acts →
      AltersAt table id (acts ++ [alter .sessions key (.finish .ended) now]) := by
    intro acts key alters entry member
    rcases List.mem_append.mp member with earlier | latest
    · exact alters entry earlier
    · rw [List.mem_singleton] at latest
      subst latest
      rintro rfl rfl
      exact ⟨_, _, rfl⟩
  induction pass with
  | nothing => simp [AltersAt]
  | settled _ _ _ _ _ devices ih =>
      intro entry member
      simp only [List.mem_append, List.mem_cons] at member
      obtain earlier | rfl | rfl | device := member
      · exact ih entry earlier
      · rintro rfl rfl
        exact ⟨_, _, rfl⟩
      · rintro rfl rfl
        exact ⟨_, _, rfl⟩
      · intro same
        exact absurd ((devices entry device).symm.trans same).symm other
  | vanished _ _ _ _ ih => exact finish _ _ ih
  | exhausted _ _ _ ih => exact finish _ _ ih

def Locked (thread : Nat) (world : World) (sessions : List (Nat × SessionRow)) : Prop :=
  ∀ found ∈ sessions, RowLock.Holds world.db thread .sessions found.1 (some found.2) ∧
    found.2.status = .active

theorem Locked.carries {after : World} {sessions : List (Nat × SessionRow)}
    (locked : Locked thread world sessions) (carries : Carries thread world after) :
    Locked thread after sessions :=
  fun found member => ⟨carries.db.holds (locked found member).1, (locked found member).2⟩

theorem lockSettlementRows_body (here : Here thread first world began []) :
    Body config thread first (fun sessions after => Here thread first after began [] ∧
      Locked thread after sessions) lockSettlementRows world := by
  let loop (_ : List (Nat × Nat)) (sessions : List (Nat × SessionRow)) (w : World) : Prop :=
    Here thread first w began [] ∧ Locked thread w sessions
  refine body_query here ?_
  intro w1 time view here1 _ _ _ _ _
  have entry : loop (Query.eval view .settlementRows) [] w1 := ⟨here1, by simp [Locked]⟩
  refine body_collect entry ?_ ?_
  · rintro ids rest sessions state ⟨here', locked⟩
    -- the user's row is locked after the session's, whatever became of the session
    have ends : ∀ (session : Option SessionRow) w, Here thread first w began [] →
        Locked thread w sessions →
        (∀ s, session = some s → RowLock.Holds w.db thread .sessions ids.1 (some s)) →
        Body config thread first (fun found after =>
            loop rest (sessions ++ found.toList) after)
          (do
            let _ ← lockRow .users ids.2
            pure ((session.filter fun s => s.status == .active).map fun s => (ids.1, s))) w := by
      intro session w here2 locked2 row
      have done : ∀ after, Here thread first after began [] → Carries thread w after →
          loop rest (sessions ++
            ((session.filter fun s => s.status == .active).map fun s => (ids.1, s)).toList)
            after := by
        intro after here3 carries3
        refine ⟨here3, ?_⟩
        intro found member
        rcases List.mem_append.mp member with earlier | latest
        · exact locked2.carries carries3 found earlier
        · simp only [Option.mem_toList, Option.map_eq_some_iff, Option.filter_eq_some_iff] at latest
          obtain ⟨s, ⟨same, active⟩, rfl⟩ := latest
          exact ⟨carries3.db.holds (row s same), by simpa using active⟩
      refine body_lock here2 ?_ ?_
      · intro after here3 carries3 _ _
        exact done after here3 carries3
      · intro after account here3 carries3 _ _ _ _
        exact done after here3 carries3
    refine body_lock here' ?_ ?_
    · intro w2 here2 carries2 _ _
      exact ends none w2 here2 (locked.carries carries2) (by simp)
    · intro w2 s here2 carries2 _ held present _
      refine ends (some s) w2 here2 (locked.carries carries2) ?_
      rintro _ ⟨⟩
      exact ⟨held, present⟩
  · rintro sessions state ⟨here', locked⟩
    exact ⟨here', by simpa using locked⟩

theorem finishSession_body {id : Nat} {post : Unit → World → Prop}
    (here : Here thread first world began acts)
    (absent : ∀ after, Here thread first after began acts → Carries thread world after →
      post () after)
    (found : ∀ after, Here thread first after began (acts ++ [alter .sessions id (.finish .ended)
      began]) → Carries thread world after → post () after) :
    Body config thread first post (finishSession id) world := by
  refine body_update here ?_ ?_
  · intro after here' carries _ _
    exact absent after here' carries
  · intro after row here' carries _ _ _ _
    exact found after here' carries

theorem touchDevice_body {userId : Nat} {mac : Text} {post : Unit → World → Prop}
    (here : Here thread first world began acts)
    (done : ∀ after device, OnDevices device → Here thread first after began (acts ++ device) →
      Carries thread world after → post () after) :
    Body config thread first post (touchDevice userId mac) world := by
  have none' : OnDevices [] := by simp [OnDevices]
  refine body_query here ?_
  intro w1 time view here1 carries1 _ _ _ _
  cases Query.eval view (.deviceOf userId mac) with
  | none => exact done w1 [] none' (by simpa using here1) carries1
  | some id =>
      refine body_update here1 ?_ ?_
      · intro w2 here2 carries2 _ _
        exact done w2 [] none' (by simpa using here2) (carries_trans carries1 carries2)
      · intro w2 row here2 carries2 _ _ _ _
        exact done w2 _ (by simp [OnDevices, alter]) here2 (carries_trans carries1 carries2)

theorem settle_body {online : List (Text × Text)} {date : Time} {session : Nat × SessionRow}
    (here : Here thread first world began acts)
    (row : RowLock.Holds world.db thread .sessions session.1 (some session.2))
    (active : session.2.status = .active)
    (pass : Settled (world.basis thread) thread began date acts) :
    Body config thread first (fun _ after => ∃ acts, Here thread first after began acts ∧
        Carries thread world after ∧ Settled (after.basis thread) thread began date acts)
      (settle online date session) world := by
  have onward : ∀ {after}, Carries thread world after →
      Settled (after.basis thread) thread began date acts :=
    fun carries => settled_mono (Basis.carries carries) pass
  unfold settle
  simp only
  split
  · split
    · rename_i positive
      refine body_update here ?_ ?_
      · intro w1 here1 carries1 held1 missing
        have present : (w1.db.store .sessions session.1).isSome := by
          rw [(carries1.db.holds row).row]
          rfl
        have stays := here_stays here1 held1 (by simp) present
        simp [missing] at stays
      intro w1 s here1 carries1 held1 locked1 found1 linked
      have row1 := carries1.db.holds row
      -- the session's foreign key: its owner's row is there to be charged
      have owner : (w1.db.store .users session.2.userId).isSome := by
        have same : s.userId = session.2.userId := by
          obtain ⟨after, present, same⟩ := replay_same w1.db.store .sessions session.1 acts
            (settled_alters pass _ _ (by simp)) row1.row
          rw [found1, Option.some.injEq] at present
          subst present
          exact same.1
        have target := linked (.users, s.userId) (by simp [references, Op.run, SessionOp.run])
        rw [same] at target
        by_contra absent
        have none' := replay_absent w1.db.store .users session.2.userId acts
          (settled_alters pass _ _ (by simp)) (Option.not_isSome_iff_eq_none.mp absent)
        simp [none'] at target
      refine body_update here1 ?_ ?_
      · intro w2 here2 carries2 held2 missing
        have stays := here_stays here2 held2 (by simp)
          (carries2.stays .users session.2.userId (by simp) owner)
        simp [missing] at stays
      intro w2 account here2 carries2 _ locked2 found2 _
      have owner2 : ∃ account, RowLock.Holds w2.db thread .users session.2.userId
          (some account) := by
        have stays := carries2.stays .users session.2.userId (by simp) owner
        obtain ⟨account, present⟩ := Option.isSome_iff_exists.mp stays
        exact ⟨account, locked2, present⟩
      obtain ⟨account, owner2⟩ := owner2
      refine touchDevice_body here2 ?_
      intro w3 device devices here3 carries3
      have carries := carries_trans carries1 (carries_trans carries2 carries3)
      refine ⟨_, here3, carries, ?_⟩
      simp only [List.append_assoc, List.cons_append, List.nil_append]
      exact .settled (onward carries) (carries.db.holds row) active
        (carries3.db.holds owner2) positive devices
    · exact ⟨acts, here, carries_refl _ _, pass⟩
  · split
    · rename_i late
      refine finishSession_body here ?_ ?_
      · intro after here' carries
        exact ⟨acts, here', carries, onward carries⟩
      · intro after here' carries
        exact ⟨_, here', carries, .vanished (onward carries) (carries.db.holds row) active late⟩
    · exact ⟨acts, here, carries_refl _ _, pass⟩

theorem settleAll_body {online : List (Text × Text)} {date : Time}
    {sessions : List (Nat × SessionRow)} (here : Here thread first world began [])
    (locked : Locked thread world sessions) :
    Body config thread first (fun _ after => ∃ acts, Here thread first after began acts ∧
        Settled (after.basis thread) thread began date acts)
      (Prog.each sessions (settle online date)) world := by
  let loop (sessions : List (Nat × SessionRow)) (w : World) : Prop :=
    Locked thread w sessions ∧ ∃ acts, Here thread first w began acts ∧
      Settled (w.basis thread) thread began date acts
  have entry : loop sessions world := ⟨locked, [], here, .nothing⟩
  refine body_each entry ?_ ?_
  · rintro session rest state ⟨locked', acts, here', pass⟩
    obtain ⟨row, active⟩ := locked' session (by simp)
    refine body_mono (settle_body here' row active pass) ?_
    rintro _ after ⟨acts', here'', carries, pass'⟩
    exact ⟨fun found member => locked'.carries carries found (List.mem_cons_of_mem session member),
      acts', here'', pass'⟩
  · rintro state ⟨_, done⟩
    exact done

theorem settled_body (online : List (Text × Text)) (here : Here thread first first began []) :
    Body config thread first (Seals config thread first began .tick fun _ _ _ => True)
      (settled online) first := by
  unfold settled
  refine body_then (lockSettlementRows_body here) ?_
  rintro sessions w1 ⟨here1, locked1⟩
  refine body_dateNow here1 ?_
  intro w2 date here2 carries2 _ ordered
  refine body_then (settleAll_body here2 (locked1.carries carries2)) ?_
  rintro _ w3 ⟨acts, here3, pass3⟩
  refine body_query here3 ?_
  intro w4 time view here4 carries4 _ logged _ _
  let loop (exhausted : List (Nat × SessionRow)) (w : World) : Prop :=
    (∀ found ∈ exhausted, found ∈ Query.eval view .exhausted) ∧ Carries thread w4 w ∧
      ∃ acts, Here thread first w began acts ∧ Settled (w.basis thread) thread began date acts
  have entry : loop (Query.eval view .exhausted) w4 :=
    ⟨fun _ member => member, carries_refl _ _, acts, here4,
      settled_mono (Basis.carries carries4) pass3⟩
  have closes : Body config thread first (fun _ w => ∃ acts, Here thread first w began acts ∧
      Settled (w.basis thread) thread began date acts)
      (Prog.each (Query.eval view .exhausted) fun session => finishSession session.1) w4 := by
    refine body_each entry ?_ ?_
    · rintro session rest state ⟨members, since, acts', here', pass'⟩
      have rest' : ∀ found ∈ rest, found ∈ Query.eval view .exhausted :=
        fun found member => members found (List.mem_cons_of_mem session member)
      refine finishSession_body here' ?_ ?_
      · intro after here'' carries
        exact ⟨rest', carries_trans since carries, acts', here'',
          settled_mono (Basis.carries carries) pass'⟩
      · intro after here'' carries
        have past := carries_trans since carries
        exact ⟨rest', past, _, here'', .exhausted (settled_mono (Basis.carries carries) pass')
          (past.hist.subset logged.mem) (members session (by simp))⟩
    · rintro state ⟨_, _, done⟩
      exact done
  refine body_then closes ?_
  rintro _ w5 ⟨acts', here5, pass5⟩
  exact ⟨acts', here5, .tick ordered pass5, trivial⟩

end Pass

section Tick
variable {config : Config} {thread : Nat} {world : World}

theorem free_cutOff (session : Nat × SessionRow) {blocks : List (List Entry)}
    (free : Free thread world blocks) :
    Secure config thread (fun _ after => Free thread after blocks) (cutOff session) world := by
  refine free_deauth free ?_
  intro w1 _ free1 _ _ _ _
  refine free_flushConntrack free1 ?_
  intro w2 free2 _
  have apart : (Cmd.audit none "session.cutoff").Apart := trivial
  refine free_exec apart free2 ?_
  intro w3 answer time view free3 _ _ _
  cases answer with
  | ok value => exact free3
  | error error => exact free3

theorem free_cutOrphan (known : List Text) (client : Text × Text) {blocks : List (List Entry)}
    (free : Free thread world blocks) :
    Secure config thread (fun _ after => Free thread after blocks) (cutOrphan known client)
      world := by
  unfold cutOrphan
  split
  · exact free
  · refine free_deauth free ?_
    intro w1 _ free1 _ _ _ _
    rw [← Prog.bind_done (NdsctlService.flushConntrack client.2)]
    refine free_flushConntrack free1 ?_
    intro w2 free2 _
    exact free2

def Loose (thread : Nat) : Except Failure Unit → World → Prop :=
  Branch (fun _ world => ∃ blocks, Free thread world blocks)
    fun _ world => thread < world.arrivals.length

theorem cutOffs_safe (online : List (Text × Text)) (free : Free thread world [])
    (called : world.arrivals[thread]? = some .tick) :
    Secure config thread (Loose thread)
      ((settlement online).bind fun exhausted => Prog.each exhausted cutOff) world := by
  simp only [settlement_eq, Prog.bind_assoc, Prog.done_bind]
  refine free_begin free (fun after _ free' _ _ => free'.known) ?_
  intro first began here own later held
  apply safe_bind
  refine safe_mono ?_ _ _ (settled_body online here)
  intro outcome state ended
  cases outcome with
  | error error =>
      have carries : Carries thread first state := ended
      exact Nat.lt_of_lt_of_le here.known carries.arrivals.length_le
  | ok exhausted =>
      obtain ⟨acts, here', lawful, _⟩ := ended
      have called' := prefix_getElem? (later_trans later here'.since.later).arrivals called
      refine here_commit here' own called' lawful (fun after _ free' _ _ => free'.known) ?_
        fun _ _ _ _ _ free' _ _ _ _ => free'.known
      intro before after _ _ _ free' _ _ _ _
      refine safe_each (fun _ w => Free thread w ([] ++ [acts])) cutOff ?_ ?_ _ _ free'
      · intro session rest w free''
        refine safe_mono ?_ _ _ (free_cutOff session free'')
        intro outcome w' done
        cases outcome with
        | ok value => exact done
        | error error => exact done.known
      · intro w free''
        exact ⟨_, free''⟩

theorem tick_safe (free : Free thread world []) (called : world.arrivals[thread]? = some .tick) :
    Secure config thread (fun _ _ => True) SessionManager.tick world := by
  unfold SessionManager.tick
  have apart : (Cmd.ndsctl .json).Apart := trivial
  refine free_perform apart free (fun _ _ _ _ _ => trivial) ?_
  intro w1 clients _ _ free1 later1 _ _
  apply safe_bind
  apply safe_rescue
  refine safe_mono ?_ _ _ (cutOffs_safe _ free1 (prefix_getElem? later1.arrivals called))
  intro outcome state ended
  cases outcome with
  | error error =>
      -- whatever went wrong, the pass ends with a ROLLBACK
      refine free_rollback ended rfl ?_
      intro after answer _ _ _
      cases answer <;> trivial
  | ok value =>
      obtain ⟨blocks, free2⟩ := ended
      have apart' : (Cmd.query .stillActive).Apart := trivial
      refine free_perform apart' free2 (fun _ _ _ _ _ => trivial) ?_
      intro w3 stillActive _ _ free3 _ _ _
      apply safe_bind
      refine safe_each (fun _ w => Free thread w blocks) _ ?_ ?_ _ _ free3
      · intro client rest w free4
        refine safe_mono ?_ _ _ (free_cutOrphan _ client free4)
        intro outcome w' done
        cases outcome with
        | ok value => exact done
        | error error => trivial
      · intro w free4
        trivial

end Tick
end Cybera
