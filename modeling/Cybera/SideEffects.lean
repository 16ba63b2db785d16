import Cybera.Answers
import Cybera.PassOrder

/-!
After its COMMIT a pass only has calls left that can fail. Deauth and conntrack
swallow their failures; auditCutoff throws out of the loop, past the devices
that are still to be cut off.
-/

namespace Cybera

open Interleaving

/-- Which of the calls of each kind fail, counted from the COMMIT. -/
structure Failures where
  deauth : Nat → Bool
  flush : Nat → Bool
  audit : Nat → Bool

def Cmd.isDeauth : Cmd → Bool
  | .ndsctl (.deauth _) => true
  | _ => false

def Cmd.isFlush : Cmd → Bool
  | .ndsctl (.flushConntrack _) => true
  | _ => false

def Cmd.isAudit : Cmd → Bool
  | .audit .. => true
  | _ => false

def countOf (kind : Cmd → Bool) (past : Past) : Nat := past.countP fun done => kind done.1

/-- The answers after the COMMIT; nothing but the three kinds of call fails, and
the SELECT of the active sessions finds `active`. -/
def Failures.answer (failures : Failures) (active : List Text) (past : Past) :
    (cmd : Cmd) → Except Failure (Res cmd)
  | .ndsctl (.deauth _) =>
      if failures.deauth (countOf Cmd.isDeauth past) then .error .process else .ok ()
  | .ndsctl (.flushConntrack _) =>
      if failures.flush (countOf Cmd.isFlush past) then .error .process else .ok ()
  | .audit .. => if failures.audit (countOf Cmd.isAudit past) then .error .query else .ok ()
  | .query .stillActive => .ok active
  | .rollback => .ok ()
  | _ => .error .query

def Deauthed (past : Past) (mac : Text) : Prop := ∃ answer, ⟨.ndsctl (.deauth mac), answer⟩ ∈ past

def CutsAmong (sessions : List (Nat × SessionRow)) (mac : Text) : Prop :=
  ∃ s ∈ sessions, mac = toLowerCase s.2.deviceMac

/-- An authenticated client without an active session. -/
def Orphaned (online : List (Text × Text)) (active : List Text) (mac : Text) : Prop :=
  isOnline online mac = true ∧ mac ∉ active.map toLowerCase

/-- How the loop over the exhausted sessions ends, with those it got to; the
next audit is number `first`. -/
inductive CutLoop (failures : Failures) (first : Nat) (rest : List (Nat × SessionRow)) :
    List (Nat × SessionRow) → Except Failure Unit → Prop where
  | whole (quiet : ∀ n < rest.length, failures.audit (first + n) = false) :
      CutLoop failures first rest rest (.ok ())
  | broken (n : Nat) (bound : n < rest.length) (fails : failures.audit (first + n) = true)
      (quiet : ∀ m < n, failures.audit (first + m) = false) :
      CutLoop failures first rest (rest.take (n + 1)) (.error .query)

section Calls
variable {answers : Answers Cmd Res Failure} {past : Past}

theorem deauthed_cons {done : Done Cmd Res Failure} {mac : Text} (other : done.1.isDeauth = false) :
    Deauthed (done :: past) mac ↔ Deauthed past mac := by
  constructor
  · rintro ⟨answer, member⟩
    rcases List.mem_cons.mp member with here | earlier
    · rw [← here] at other
      cases other
    · exact ⟨answer, earlier⟩
  · rintro ⟨answer, member⟩
    exact ⟨answer, List.mem_cons_of_mem _ member⟩

theorem deauthed_here {answer : Except Failure Unit} {mac other : Text} :
    Deauthed (⟨.ndsctl (.deauth other), answer⟩ :: past) mac ↔ Deauthed past mac ∨ mac = other := by
  constructor
  · rintro ⟨answer', member⟩
    rcases List.mem_cons.mp member with here | earlier
    · cases here
      exact Or.inr rfl
    · exact Or.inl ⟨answer', earlier⟩
  · rintro (⟨answer', member⟩ | rfl)
    · exact ⟨answer', List.mem_cons_of_mem _ member⟩
    · exact ⟨answer, List.mem_cons_self⟩

theorem trace_deauth (answers : Answers Cmd Res Failure) (past : Past) (mac : Text) :
    ∃ answer, (NdsctlService.deauth mac).trace answers past =
    (⟨.ndsctl (.deauth mac), answer⟩ :: past, .ok ()) := by
  refine ⟨answers past (.ndsctl (.deauth mac)), ?_⟩
  rw [NdsctlService.deauth, trace_rescue, perform, trace_perform]
  cases answers past (.ndsctl (.deauth mac)) <;> rfl

theorem trace_flush (answers : Answers Cmd Res Failure) (past : Past)
    (ip : Text) : ∃ flushes : Past, (∀ done ∈ flushes, done.1.isFlush = true) ∧
    (NdsctlService.flushConntrack ip).trace answers past = (flushes ++ past, .ok ()) := by
  rw [NdsctlService.flushConntrack]
  split
  · exact ⟨[], by simp, rfl⟩
  · refine ⟨[⟨.ndsctl (.flushConntrack ip), answers past (.ndsctl (.flushConntrack ip))⟩], ?_, ?_⟩
    · intro done member
      rw [List.mem_singleton.mp member]
      rfl
    · rw [trace_rescue, perform, trace_perform]
      cases answers past (.ndsctl (.flushConntrack ip)) <;> rfl

theorem deauthed_flushes {flushes : Past} (only : ∀ done ∈ flushes, done.1.isFlush = true)
    {mac : Text} : Deauthed (flushes ++ past) mac ↔ Deauthed past mac := by
  induction flushes with
  | nil => rfl
  | cons done rest ih =>
      have other : done.1.isDeauth = false := by
        have flush := only done List.mem_cons_self
        obtain ⟨cmd, answer⟩ := done
        cases cmd with
        | ndsctl command => cases command <;> simp_all [Cmd.isFlush, Cmd.isDeauth]
        | _ => rfl
      rw [List.cons_append, deauthed_cons other]
      exact ih fun done member => only done (List.mem_cons_of_mem _ member)

theorem audits_flushes {flushes : Past} (only : ∀ done ∈ flushes, done.1.isFlush = true) :
    countOf Cmd.isAudit (flushes ++ past) = countOf Cmd.isAudit past := by
  rw [countOf, countOf, List.countP_append, Nat.add_eq_right, List.countP_eq_zero]
  intro done member
  have flush := only done member
  obtain ⟨cmd, answer⟩ := done
  cases cmd with
  | audit actor action => cases flush
  | _ => simp [Cmd.isAudit]

end Calls

section Loops
variable {answers : Answers Cmd Res Failure} {failures : Failures} {active : List Text}
  {settled : Past}
  (since : ∀ later cmd, answers (later ++ settled) cmd = failures.answer active later cmd)

include since in
theorem cutOff_trace (s : Nat × SessionRow) (later : Past) : ∃ after : Past,
    (cutOff s).trace answers (later ++ settled) = (after ++ settled,
      if failures.audit (countOf Cmd.isAudit later) then .error .query else .ok ()) ∧
    countOf Cmd.isAudit after = countOf Cmd.isAudit later + 1 ∧
    ∀ mac, Deauthed after mac ↔ Deauthed later mac ∨ mac = toLowerCase s.2.deviceMac := by
  obtain ⟨answer, first⟩ := trace_deauth answers (later ++ settled) (toLowerCase s.2.deviceMac)
  obtain ⟨flushes, only, second⟩ := trace_flush answers
    (⟨.ndsctl (.deauth (toLowerCase s.2.deviceMac)), answer⟩ :: (later ++ settled)) s.2.ip
  let middle : Past := flushes ++ ⟨.ndsctl (.deauth (toLowerCase s.2.deviceMac)), answer⟩ :: later
  have audits : countOf Cmd.isAudit middle = countOf Cmd.isAudit later := by
    rw [audits_flushes only]
    simp [countOf, Cmd.isAudit]
  have third : answers (middle ++ settled) (.audit none "session.cutoff") =
      if failures.audit (countOf Cmd.isAudit later) then .error .query else .ok () := by
    rw [since, Failures.answer, audits]
  refine ⟨⟨.audit none "session.cutoff", answers (middle ++ settled) (.audit none "session.cutoff")⟩
    :: middle, ?_, ?_, ?_⟩
  · have whole : flushes ++ ⟨.ndsctl (.deauth (toLowerCase s.2.deviceMac)), answer⟩ ::
        (later ++ settled) = middle ++ settled := by simp [middle]
    rw [whole] at second
    simp only [cutOff, Prog.bind_eq]
    rw [trace_bind_ok first, trace_bind_ok second]
    rw [perform, trace_perform, third]
    rfl
  · rw [← audits]
    simp [countOf, Cmd.isAudit]
  · intro mac
    rw [deauthed_cons rfl, deauthed_flushes only, deauthed_here]

include since in
theorem cutOffs_trace (rest : List (Nat × SessionRow)) (later : Past) :
    ∃ (after : Past) (cut : List (Nat × SessionRow)) (outcome : Except Failure Unit),
      (Prog.each rest cutOff).trace answers (later ++ settled) = (after ++ settled, outcome) ∧
      CutLoop failures (countOf Cmd.isAudit later) rest cut outcome ∧
      ∀ mac, Deauthed after mac ↔ Deauthed later mac ∨ CutsAmong cut mac := by
  induction rest generalizing later with
  | nil => exact ⟨later, [], .ok (), rfl, .whole (by simp), by simp [CutsAmong]⟩
  | cons s rest ih =>
      obtain ⟨middle, first, audits, deauthed⟩ := cutOff_trace since s later
      by_cases fails : failures.audit (countOf Cmd.isAudit later) = true
      · rw [if_pos fails] at first
        refine ⟨middle, (s :: rest).take 1, .error .query, trace_bind_error first,
          .broken 0 (by simp) fails (by simp), fun mac => ?_⟩
        rw [deauthed]
        simp [CutsAmong]
      · rw [Bool.not_eq_true] at fails
        rw [if_neg (by simp [fails])] at first
        obtain ⟨after, cut, outcome, second, loop, deauthed'⟩ := ih middle
        refine ⟨after, s :: cut, outcome, (trace_bind_ok first).trans second, ?_, fun mac => ?_⟩
        · rw [audits] at loop
          cases loop with
          | whole quiet =>
              refine .whole fun n bound => ?_
              cases n with
              | zero => exact fails
              | succ n =>
                  have next := quiet n (Nat.lt_of_succ_lt_succ bound)
                  rwa [Nat.add_right_comm] at next
          | broken n bound fails' quiet =>
              rw [Nat.add_right_comm] at fails'
              refine .broken (n + 1) (Nat.succ_lt_succ bound) fails' fun m less => ?_
              cases m with
              | zero => exact fails
              | succ m =>
                  have next := quiet m (Nat.lt_of_succ_lt_succ less)
                  rwa [Nat.add_right_comm] at next
        · rw [deauthed', deauthed, or_assoc]
          simp [CutsAmong]

theorem sweep_trace (answers : Answers Cmd Res Failure) (known : List Text)
    (online : List (Text × Text)) (past : Past) :
    ∃ after : Past, (Prog.each online (cutOrphan known)).trace answers past = (after, .ok ()) ∧
      ∀ mac, Deauthed after mac ↔ Deauthed past mac ∨ isOnline online mac = true ∧ mac ∉ known := by
  induction online generalizing past with
  | nil => exact ⟨past, rfl, by simp [isOnline]⟩
  | cons client rest ih =>
      by_cases listed : known.contains client.1 = true
      · obtain ⟨after, swept, deauthed⟩ := ih past
        refine ⟨after, ?_, fun mac => ?_⟩
        · rw [Prog.each, cutOrphan, if_pos listed]
          exact swept
        · rw [deauthed]
          have member : client.1 ∈ known := by simpa using listed
          simp only [isOnline, List.any_cons, Bool.or_eq_true, beq_iff_eq, or_and_right]
          constructor
          · exact Or.imp_right Or.inr
          · rintro (earlier | ⟨rfl, unknown⟩ | later)
            · exact Or.inl earlier
            · exact absurd member unknown
            · exact Or.inr later
      · obtain ⟨answer, first⟩ := trace_deauth answers past client.1
        obtain ⟨flushes, only, second⟩ := trace_flush answers
          (⟨.ndsctl (.deauth client.1), answer⟩ :: past) client.2
        obtain ⟨after, swept, deauthed⟩ := ih (flushes ++ ⟨.ndsctl (.deauth client.1), answer⟩ ::
          past)
        refine ⟨after, ?_, fun mac => ?_⟩
        · rw [Prog.each, cutOrphan, if_neg listed]
          simp only [Prog.bind_eq]
          rw [trace_bind_ok ((trace_bind_ok first).trans second), swept]
        · rw [deauthed, deauthed_flushes only, deauthed_here]
          have unknown : client.1 ∉ known := by simpa using listed
          simp only [isOnline, List.any_cons, Bool.or_eq_true, beq_iff_eq, or_and_right, or_assoc]
          constructor
          · rintro (earlier | rfl | later)
            · exact Or.inl earlier
            · exact Or.inr (Or.inl ⟨rfl, unknown⟩)
            · exact Or.inr (Or.inr later)
          · rintro (earlier | ⟨rfl, _⟩ | later)
            · exact Or.inl earlier
            · exact Or.inr (Or.inl rfl)
            · exact Or.inr (Or.inr later)

end Loops

theorem reached_traced {config : Config} {pool : ServerPool} (reached : Reached config pool)
    {thread : Nat} {call : Call} (called : pool.state.arrivals[thread]? = some call)
    {outcome : Except Failure Reply}
    (ended : pool.threads[thread]? = some (some (.ended outcome))) :
    ∃ answers : Answers Cmd Res Failure,
      (call.program config).trace answers [] = (pastOf pool.state.hist thread, outcome) :=
  have : Nonempty Failure := ⟨.query⟩
  reachable_traced (server_records config) rfl (fun _ => rfl) reached called ended

/-- The MACs that the pass has to cut off: of the exhausted sessions, and of the
orphans. -/
def Doomed (clients : NdsClients) (exhausted : List (Nat × SessionRow)) (active : List Text)
    (mac : Text) : Prop :=
  CutsAmong exhausted mac ∨ Orphaned (authedClients clients) active mac

def Cmd.Settles (cmd : Cmd) : Prop := cmd.isDeauth = false

theorem settlement_uses (online : List (Text × Text)) :
    (settlement online).Uses Cmd.Settles := by
  exact uses_settlement online rfl rfl rfl (fun _ => rfl) (fun _ _ _ => rfl) fun _ _ _ _ _ => rfl

section Tick
variable {answers : Answers Cmd Res Failure} {failures : Failures} {active : List Text}
  {clients : NdsClients} {exhausted : List (Nat × SessionRow)} {settled : Past}
  (reported : answers [] (.ndsctl .json) = .ok clients)
  (committed : (settlement (authedClients clients)).trace answers [⟨.ndsctl .json, .ok clients⟩] =
    (settled, .ok exhausted))
  (since : ∀ later cmd, answers (later ++ settled) cmd = failures.answer active later cmd)

include committed in
theorem settled_undeauthed (mac : Text) : ¬ Deauthed settled mac := by
  rintro ⟨answer, member⟩
  have past : ((settlement (authedClients clients)).trace answers
      [⟨.ndsctl .json, .ok clients⟩]).1 = settled := congrArg Prod.fst committed
  rw [← past] at member
  rcases trace_uses _ (settlement_uses (authedClients clients)) _ member with early | settles
  · simp at early
  · cases settles

include reported committed since in
/-- What a pass deauthenticates: all that it has to, or the first of the
exhausted sessions up to the one whose audit failed. -/
theorem tick_trace : ∃ (cut : List (Nat × SessionRow)) (outcome : Except Failure Unit),
    CutLoop failures 0 exhausted cut outcome ∧
      ∀ mac, Deauthed (SessionManager.tick.trace answers []).1 mac ↔ CutsAmong cut mac ∨
        outcome = .ok () ∧ Orphaned (authedClients clients) active mac := by
  obtain ⟨after, cut, outcome, looped, loop, deauthed⟩ := cutOffs_trace since exhausted []
  refine ⟨cut, outcome, loop, fun mac => ?_⟩
  have unsettled := settled_undeauthed committed mac
  have first : (perform (.ndsctl .json) : Program NdsClients).trace answers [] =
      ([⟨.ndsctl .json, .ok clients⟩], .ok clients) := by
    rw [perform, trace_perform, reported]
  have both : ∀ later, Deauthed (later ++ settled) mac ↔ Deauthed later mac := by
    intro later
    constructor
    · rintro ⟨answer, member⟩
      rcases List.mem_append.mp member with late | early
      · exact ⟨answer, late⟩
      · exact absurd ⟨answer, early⟩ unsettled
    · rintro ⟨answer, member⟩
      exact ⟨answer, List.mem_append_left _ member⟩
  have none' : ¬ Deauthed [] mac := fun ⟨_, member⟩ => by cases member
  have inner : ((settlement (authedClients clients)).bind fun exhausted =>
      Prog.each exhausted cutOff).trace answers [⟨.ndsctl .json, .ok clients⟩] =
        (Prog.each exhausted cutOff).trace answers settled := trace_bind_ok committed
  rw [List.nil_append] at looped
  rw [SessionManager.tick, Prog.bind_eq, trace_bind_ok first]
  simp only [Prog.bind_eq]
  cases loop with
  | whole quiet =>
      have rescued : ((settlement (authedClients clients)).bind fun exhausted =>
          Prog.each exhausted cutOff).trace answers [⟨.ndsctl .json, .ok clients⟩] =
          (after ++ settled, .ok ()) := inner.trans looped
      have recalled : (select .stillActive).trace answers (after ++ settled) =
          (⟨.query .stillActive, .ok active⟩ :: (after ++ settled), .ok active) := by
        rw [select, perform, trace_perform, since]
        rfl
      obtain ⟨final, swept, deauthed'⟩ := sweep_trace answers (active.map toLowerCase)
        (authedClients clients)
        (⟨.query .stillActive, .ok active⟩ :: (after ++ settled))
      rw [trace_bind, trace_rescue, rescued]
      simp only
      rw [trace_bind_ok recalled, trace_bind_ok swept]
      simp only [Prog.pure_eq, Prog.trace]
      rw [deauthed', deauthed_cons rfl, both, deauthed]
      simp [none', Orphaned]
  | broken n bound fails quiet =>
      have thrown : ((settlement (authedClients clients)).bind fun exhausted =>
          Prog.each exhausted cutOff).trace answers [⟨.ndsctl .json, .ok clients⟩] =
          (after ++ settled, .error .query) := inner.trans looped
      rw [trace_bind, trace_rescue, thrown]
      simp only
      have undone : answers (after ++ settled) .rollback = .ok () := since after .rollback
      have undo : ((perform .rollback : Program Unit).rescue fun _ => .done ()).trace answers
          (after ++ settled) = (⟨.rollback, .ok ()⟩ :: (after ++ settled), .ok ()) := by
        rw [trace_rescue, perform, trace_perform, undone]
      rw [trace_bind_ok undo]
      simp only [Prog.trace]
      rw [deauthed_cons rfl, both, deauthed]
      simp [none']

end Tick

/-- Every pattern of failures: each exhausted and each orphaned MAC gets its
deauth in exactly the cases in which, whenever the audit of an exhausted session
fails, all these MACs belong to the sessions up to that one. -/
theorem cuts_everyone_iff (answers : Answers Cmd Res Failure) (failures : Failures)
    (active : List Text) (clients : NdsClients) (exhausted : List (Nat × SessionRow))
    (settled : Past) (reported : answers [] (.ndsctl .json) = .ok clients)
    (committed : (settlement (authedClients clients)).trace answers
      [⟨.ndsctl .json, .ok clients⟩] = (settled, .ok exhausted))
    (since : ∀ later cmd, answers (later ++ settled) cmd = failures.answer active later cmd) :
    (∀ mac, Doomed clients exhausted active mac →
        Deauthed (SessionManager.tick.trace answers []).1 mac) ↔
      ∀ n < exhausted.length, failures.audit n = true → ∀ mac,
        Doomed clients exhausted active mac → CutsAmong (exhausted.take (n + 1)) mac := by
  obtain ⟨cut, outcome, loop, deauthed⟩ := tick_trace reported committed since
  cases loop with
  | whole quiet =>
      constructor
      · intro _ n bound fails
        have passes := quiet n bound
        rw [Nat.zero_add, fails] at passes
        cases passes
      · intro _ mac doomed
        exact (deauthed mac).mpr (doomed.imp id fun orphaned => ⟨rfl, orphaned⟩)
  | broken m bound fails quiet =>
      rw [Nat.zero_add] at fails
      constructor
      · intro all n _ fails' mac doomed
        have first : m ≤ n := by
          by_contra less
          have passes := quiet n (Nat.lt_of_not_le less)
          rw [Nat.zero_add, fails'] at passes
          cases passes
        rcases (deauthed mac).mp (all mac doomed) with ⟨s, listed, same⟩ | ⟨impossible, _⟩
        · have sooner : exhausted.take (m + 1) ⊆ exhausted.take (n + 1) :=
            (List.take_prefix_take_left (Nat.succ_le_succ first)).subset
          exact ⟨s, sooner listed, same⟩
        · cases impossible
      · intro all mac doomed
        exact (deauthed mac).mpr (Or.inl (all m bound fails mac doomed))

/-- Two exhausted sessions and nothing else. -/
def twoExhausted : List (Nat × SessionRow) :=
  [(1, newSession 2 phoneMac phoneIp ['h'] 0), (2, newSession 2 tabletMac phoneIp ['h'] 0)]

def bothOnline : NdsClients :=
  [(phoneMac, ⟨some phoneMac, some phoneIp, some authenticated⟩),
    (tabletMac, ⟨some tabletMac, some phoneIp, some authenticated⟩)]

def onlyAudits : Failures := ⟨fun _ => true, fun _ => true, fun _ => false⟩

def quietSettlement : (cmd : Cmd) → Except Failure (Res cmd)
  | .ndsctl .json => .ok bothOnline
  | .begin | .commit => .ok ()
  | .query .settlementRows => .ok []
  | .dateNow => .ok 0
  | .query .exhausted => .ok twoExhausted
  | .update .. => .ok none
  | _ => .error .query

/-- Its eight commands, and then the failures. -/
def failsAfter (failures : Failures) : Answers Cmd Res Failure := fun past cmd =>
  if past.length < 8 then quietSettlement cmd
  else failures.answer [] (past.take (past.length - 8)) cmd

theorem cuts_everyone_audited :
    Deauthed (SessionManager.tick.trace (failsAfter onlyAudits) []).1 phoneMac ∧
      Deauthed (SessionManager.tick.trace (failsAfter onlyAudits) []).1 tabletMac := by
  have committed : (settlement (authedClients bothOnline)).trace (failsAfter onlyAudits)
      [⟨.ndsctl .json, .ok bothOnline⟩] = (((settlement (authedClients bothOnline)).trace
        (failsAfter onlyAudits) [⟨.ndsctl .json, .ok bothOnline⟩]).1, .ok twoExhausted) := rfl
  have everyone := (cuts_everyone_iff (failsAfter onlyAudits) onlyAudits [] bothOnline
    twoExhausted _ rfl committed ?_).mpr fun n _ fails => by cases fails
  · exact ⟨everyone phoneMac (Or.inl ⟨_, List.mem_cons_self, rfl⟩),
      everyone tabletMac (Or.inl ⟨_, List.mem_cons_of_mem _ List.mem_cons_self, rfl⟩)⟩
  intro later cmd
  have length : ((settlement (authedClients bothOnline)).trace (failsAfter onlyAudits)
      [⟨.ndsctl .json, .ok bothOnline⟩]).1.length = 8 := rfl
  rw [failsAfter, List.length_append, length, if_neg (by omega), Nat.add_sub_cancel,
    List.take_left]

/-- The hour of two devices runs out in one pass, and the INSERT into audit_log
for the first of them fails. -/
def auditDown : List (Move Choice Call Ambient) :=
  opening ++ [.start (.grant staff 2 hourForTwo)] ++ steps 1 4 ++
    [.ambient (.clients [(phoneMac, ⟨some phoneMac, some phoneIp, some preauthenticated⟩),
      (tabletMac, ⟨some tabletMac, some phoneIp, some preauthenticated⟩)]),
      .start (.connect guest phone)] ++ steps 2 10 ++ [.start (.connect guest tablet)] ++
    steps 3 11 ++ [.ambient (.elapse 3600000), .start .tick] ++ steps 4 22 ++
    [.advance 4 { fails := true }] ++ steps 4 1

def listsMac (mac : Text) (done : Done Cmd Res Failure) : Bool :=
  match done with
  | ⟨.query .exhausted, .ok found⟩ => found.any fun s => toLowerCase s.2.deviceMac == mac
  | _ => false

theorem listsMac_listed {mac : Text} {past : Past} (lists : past.any (listsMac mac) = true) :
    ∃ found, Listed past found ∧ CutsAmong found mac := by
  obtain ⟨done, member, lists⟩ := List.any_eq_true.mp lists
  unfold listsMac at lists
  split at lists
  · obtain ⟨s, listed, same⟩ := List.any_eq_true.mp lists
    exact ⟨_, member, s, listed, (beq_iff_eq.mp same).symm⟩
  · cases lists

def isCommit : Done Cmd Res Failure → Bool
  | ⟨.commit, .ok _⟩ => true
  | _ => false

def isDeauth (mac : Text) : Done Cmd Res Failure → Bool
  | ⟨.ndsctl (.deauth other), _⟩ => other == mac
  | _ => false

/-- The pass throws after the phone; the tablet stays online, its session ended
and no time left. -/
theorem failed_audit_spares : ∃ pool, Reached shop pool ∧
    pool.state.arrivals[4]? = some .tick ∧ pool.threads[4]? = some (some (.raise .query)) ∧
    Committed (pastOf pool.state.hist 4) ∧
    (∃ found, Listed (pastOf pool.state.hist 4) found ∧ CutsAmong found tabletMac) ∧
    ¬ Deauthed (pastOf pool.state.hist 4) tabletMac ∧
    isAuthed tabletMac pool.state.clients = true := by
  obtain ⟨pool, reached, arrivals, seen⟩ := play_shows shop auditDown
    (fun pool => (answerOf pool 4, (pastOf pool.state.hist 4).any (listsMac tabletMac) &&
      (pastOf pool.state.hist 4).any isCommit &&
      !(pastOf pool.state.hist 4).any (isDeauth tabletMac) &&
        isAuthed tabletMac pool.state.clients))
    (some (.error .query), true) (by decide +kernel)
  obtain ⟨answer, seen⟩ := Prod.mk.inj seen
  simp only [Bool.and_eq_true, Bool.not_eq_true'] at seen
  obtain ⟨⟨⟨lists, settled⟩, spares⟩, online⟩ := seen
  refine ⟨pool, reached, by rw [arrivals]; rfl, answerOf_error answer, ?_, listsMac_listed lists,
    ?_, online⟩
  · obtain ⟨done, member, settled⟩ := List.any_eq_true.mp settled
    unfold isCommit at settled
    split at settled
    · exact member
    · cases settled
  · rintro ⟨answer', member⟩
    have other := List.any_eq_false.mp spares _ member
    simp [isDeauth] at other

end Cybera
