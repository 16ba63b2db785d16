import Cybera.Statements

/-!
SessionsService: what a connect and a kick commit, and in which order a kick
takes its steps.
-/

namespace Cybera

open Interleaving

/-- Acts after which an active session is as active as it was before. -/
def Tidy (acts : List Entry) : Prop :=
  ∀ entry ∈ acts, entry.table ≠ .sessions ∨
    ∃ id status now, entry = alter .sessions id (.finish status) now ∧ status ≠ .active

def Event.Deauths (event : Event) (thread : Nat) (mac : Text) : Prop :=
  ∃ answer : Except Failure Unit, ∃ time commits pending view,
    event = ⟨thread, .ndsctl (.deauth mac), answer, time, commits, pending, view⟩

def Event.Commits (event : Event) (thread : Nat) (acts : List Entry) : Prop :=
  ∃ time commits view, event = ⟨thread, .commit, .ok (), time, commits, acts, view⟩

def Event.Audits (event : Event) (thread : Nat) (action : String) : Prop :=
  ∃ actor, ∃ answer : Except Failure Unit, ∃ time commits pending view,
    event = ⟨thread, .audit actor action, answer, time, commits, pending, view⟩

/-- A kick that answered took these steps in this order: deauth, COMMIT and,
last of all, its audit. -/
def KickOutcome (mac : Text) (thread : Nat) : Except Failure Reply → World → Prop
  | .ok _, world => ∃ before deauthed between committed after audited rest acts,
      world.hist = before ++ deauthed :: (between ++ committed :: (after ++ audited :: rest)) ∧
        deauthed.Deauths thread (toLowerCase mac) ∧ committed.Commits thread acts ∧
        audited.Audits thread "session.kick" ∧
        world.db.log[committed.commits]? = some (thread, acts)
  | .error _, _ => True

/-- What a connect writes to devices. -/
inductive DeviceActs (basis : Basis) (userId : Nat) (mac : Text) (label : Option Text)
    (now : Time) : List Entry → Prop where
  | new {id : Nat} (fresh : basis.row .devices id none) :
      DeviceActs basis userId mac label now [create .devices id ⟨userId, mac, label, now, now⟩]
  | known {id : Nat} {d : DeviceRow} (row : basis.row .devices id (some d)) :
      DeviceActs basis userId mac label now [alter .devices id (.relabel label) now]

/-- All that a connect writes, in its one transaction. -/
inductive ConnectActs (basis : Basis) (user : AuthUser) (dto : ConnectDto) (now : Time) :
    List Entry → Prop where
  | refresh {device : List Entry} {id : Nat} {s : SessionRow}
      (devices : DeviceActs basis user.id (toLowerCase dto.clientmac) dto.label now device)
      (row : basis.row .sessions id (some s)) (active : s.status = .active)
      (mine : s.userId = user.id) (same : s.deviceMac = toLowerCase dto.clientmac) :
      ConnectActs basis user dto now
        (device ++ [alter .sessions id (.refresh dto.clientip dto.hid) now])
  | opened {device ended : List Entry} {id : Nat}
      (devices : DeviceActs basis user.id (toLowerCase dto.clientmac) dto.label now device)
      (closed : Finishes basis (toLowerCase dto.clientmac) .ended now ended)
      (fresh : basis.row .sessions id none) :
      ConnectActs basis user dto now (device ++ ended ++ [create .sessions id
        (newSession user.id (toLowerCase dto.clientmac) dto.clientip dto.hid now)])

/-- However a connect ends, what it has committed is what it writes. -/
def ConnectOutcome (user : AuthUser) (dto : ConnectDto) (thread : Nat)
    (_ : Except Failure Reply) (world : World) : Prop :=
  ∀ (index : Nat) (acts : List Entry), world.db.log[index]? = some (thread, acts) →
    ∃ now, ConnectActs (committedBasis (world.db.log.take index) world.hist) user dto now acts

section Acts
variable {less more : Basis} {acts : List Entry}

theorem deviceActs_mono (extends' : more.Extends less) {userId : Nat} {mac : Text}
    {label : Option Text} {now : Time} (devices : DeviceActs less userId mac label now acts) :
    DeviceActs more userId mac label now acts := by
  cases devices with
  | new fresh => exact .new (extends'.row _ _ _ fresh)
  | known row => exact .known (extends'.row _ _ _ row)

theorem connectActs_mono (extends' : more.Extends less) {user : AuthUser} {dto : ConnectDto}
    {now : Time} (writes : ConnectActs less user dto now acts) :
    ConnectActs more user dto now acts := by
  cases writes with
  | refresh devices row active mine same =>
      exact .refresh (deviceActs_mono extends' devices) (extends'.row _ _ _ row) active mine same
  | opened devices closed fresh =>
      exact .opened (deviceActs_mono extends' devices) (finishes_mono extends' closed)
        (extends'.row _ _ _ fresh)

theorem deviceActs_onDevices {userId : Nat} {mac : Text} {label : Option Text} {now : Time}
    (devices : DeviceActs less userId mac label now acts) : OnDevices acts := by
  cases devices <;> simp [OnDevices, create, alter]

theorem connectOutcome_later {user : AuthUser} {dto : ConnectDto} {thread : Nat}
    {outcome outcome' : Except Failure Reply} {before after : World} (later : Later before after)
    (own : after.own thread = before.own thread)
    (ended : ConnectOutcome user dto thread outcome before) :
    ConnectOutcome user dto thread outcome' after := by
  intro index acts found
  have old := own_old later.log own found
  obtain ⟨now, writes⟩ := ended index acts old
  obtain ⟨more, grown⟩ := later.log
  rw [← grown, List.take_append_of_le_length (Nat.le_of_lt (List.getElem?_eq_some_iff.mp old).1)]
  exact ⟨now, connectActs_mono (committed_extends _ later.hist) writes⟩

end Acts

section Finish
variable {config : Config} {thread : Nat} {first world : World} {began : Time}
  {acts : List Entry}

theorem unfinished (tidy : Tidy acts) (store : Store) (id : Nat) (s : SessionRow)
    (found : replay acts store .sessions id = some s) (active : s.status = .active) :
    store .sessions id = some s := by
  induction acts generalizing store with
  | nil => exact found
  | cons entry rest ih =>
      have later := ih (fun other member => tidy other (List.mem_cons_of_mem entry member)) _ found
      rcases tidy entry (by simp) with other | ⟨key, status, now, rfl, ended⟩
      · rwa [RowLock.runEntry_other _ _ _ _ _ fun same => other same.1.symm] at later
      · by_cases same : id = key
        · subst same
          rw [alter_same, Option.map_eq_some_iff] at later
          obtain ⟨row, _, rfl⟩ := later
          exact absurd active ended
        · rwa [alter_key _ _ _ _ _ _ same] at later

theorem finishes_tidy {basis : Basis} {mac : Text} {status : SessionStatus} {now : Time}
    (ended : status ≠ .active) (closed : Finishes basis mac status now acts) : Tidy acts := by
  intro entry member
  obtain ⟨id, s, rfl, _⟩ := closed entry member
  exact Or.inr ⟨id, status, now, rfl, ended⟩

theorem onDevices_tidy (devices : OnDevices acts) : Tidy acts := by
  intro entry member
  rw [devices entry member]
  exact Or.inl (by simp)

theorem tidy_append {before rest : List Entry} (left : Tidy before) (right : Tidy rest) :
    Tidy (before ++ rest) := by
  intro entry member
  rcases List.mem_append.mp member with earlier | latest
  · exact left entry earlier
  · exact right entry latest

theorem finishActiveOn_body (mac : Text) (status : SessionStatus) (closing : status ≠ .active)
    (tidy : Tidy acts) (here : Here thread first world began acts) :
    Body config thread first (fun _ after => ∃ ended,
        Here thread first after began (acts ++ ended) ∧ Carries thread world after ∧
          Finishes (after.basis thread) mac status began ended)
      (finishActiveOn mac status) world := by
  let loop (_ : List Nat) (w : World) : Prop := ∃ ended,
    Here thread world w began (acts ++ ended) ∧ Finishes (w.basis thread) mac status began ended
  apply body_restart here.since
  refine body_query here.restart ?_
  intro w1 time view here1 _ _ _ _ _
  have entry : loop (Query.eval view (.activeSessionsOn mac)) w1 :=
    ⟨[], by simpa using here1, by simp [Finishes]⟩
  refine body_each entry ?_ ?_
  · rintro id rest state ⟨ended, here', closed⟩
    refine body_lock here' ?_ ?_
    · intro w2 here2 carries2 _ _
      exact ⟨ended, here2, finishes_mono (Basis.carries carries2) closed⟩
    intro w2 s here2 carries2 _ locked present _
    have closed2 := finishes_mono (Basis.carries carries2) closed
    by_cases open' : (s.deviceMac == mac && s.status == .active) = true
    · simp only [open', if_true, Prog.bind_eq, Prog.pure_eq]
      have matching : s.deviceMac = mac ∧ s.status = .active := by simpa using open'
      have row : RowLock.Holds w2.db thread .sessions id (some s) :=
        ⟨locked, unfinished (tidy_append tidy (finishes_tidy closing closed2)) _ id s present
          matching.2⟩
      refine body_update here2 ?_ ?_
      · intro w3 here3 carries3 _ _
        exact ⟨ended, here3, finishes_mono (Basis.carries carries3) closed2⟩
      · intro w3 again here3 carries3 _ _ _ _
        refine ⟨ended ++ [alter .sessions id (.finish status) began],
          by rwa [← List.append_assoc], ?_⟩
        intro entry member
        rcases List.mem_append.mp member with earlier | latest
        · exact finishes_mono (Basis.carries carries3) closed2 entry earlier
        · rw [List.mem_singleton] at latest
          exact ⟨id, s, latest, carries3.db.holds row, matching.2, matching.1⟩
    · simp only [open']
      exact ⟨ended, here2, closed2⟩
  · rintro state ⟨ended, here', closed⟩
    exact ⟨ended, here'.weaken here.since, here'.since, closed⟩

end Finish

section Kick
variable {config : Config} {thread : Nat} {first world : World} {began : Time}
  {blocks : List (List Entry)} {β : Type} {post : Except Failure β → World → Prop}

theorem free_deauth {mac : Text} {rest : Unit → Program β} (free : Free thread world blocks)
    (goes : ∀ after event, Free thread after blocks → Later world after → Held config after →
      event.Deauths thread mac → Logged world after event →
        Secure config thread post (rest ()) after) :
    Secure config thread post ((NdsctlService.deauth mac).bind rest) world := by
  have apart : (Cmd.ndsctl (.deauth mac)).Apart := trivial
  refine free_exec apart free ?_
  intro after answer time view free' later held logged
  cases answer with
  | ok value => exact goes after _ free' later held ⟨_, _, _, _, _, rfl⟩ logged
  | error error => exact goes after _ free' later held ⟨_, _, _, _, _, rfl⟩ logged

theorem free_flushConntrack {ip : Text} {rest : Unit → Program β}
    (free : Free thread world blocks)
    (goes : ∀ after, Free thread after blocks → Later world after →
        Secure config thread post (rest ()) after) :
    Secure config thread post ((NdsctlService.flushConntrack ip).bind rest) world := by
  unfold NdsctlService.flushConntrack
  split
  · exact goes world free (later_refl _)
  · have apart : (Cmd.ndsctl (.flushConntrack ip)).Apart := trivial
    refine free_exec apart free ?_
    intro after answer time view free' later _ _
    cases answer with
    | ok value => exact goes after free' later
    | error error => exact goes after free' later

theorem free_flushAll {ips : List Text} {rest : Unit → Program β} (free : Free thread world blocks)
    (goes : ∀ after, Free thread after blocks → Later world after →
        Secure config thread post (rest ()) after) :
    Secure config thread post ((Prog.each ips NdsctlService.flushConntrack).bind rest) world := by
  induction ips generalizing world with
  | nil => exact goes world free (later_refl _)
  | cons ip ips ih =>
      simp only [Prog.each, Prog.bind_assoc]
      refine free_flushConntrack free ?_
      intro w1 free1 later1
      exact ih free1 fun after free' later => goes after free' (later_trans later1 later)

theorem kick_body (actor : AuthUser) (mac : Text) (here : Here thread first first began []) :
    Body config thread first
      (Seals config thread first began (.kick actor mac) fun _ _ _ => True)
      (finishActiveOn (toLowerCase mac) .kicked) first := by
  have tidy : Tidy [] := by simp [Tidy]
  refine body_mono (finishActiveOn_body (toLowerCase mac) .kicked (by simp) tidy here) ?_
  rintro _ after ⟨acts, here', _, closed⟩
  exact ⟨acts, here', .kick closed, trivial⟩

theorem kick_safe (actor : AuthUser) (mac : Text) (free : Free thread world [])
    (called : world.arrivals[thread]? = some (.kick actor mac)) :
    Secure config thread (KickOutcome mac thread) (SessionsService.kick actor mac) world := by
  unfold SessionsService.kick
  have apart : (Cmd.query (.activeIps (toLowerCase mac))).Apart := trivial
  refine free_perform apart free (fun _ _ _ _ _ => trivial) ?_
  intro w1 active _ _ free1 later1 _ _
  refine free_deauth free1 ?_
  rintro w2 deauthed free2 later2 _ deauths ⟨before, _, hist2⟩
  refine free_flushAll free2 ?_
  intro w3 free3 later3
  have mono : Monotone fun (_ : Unit) (_ : List Entry) (_ : Basis) => True :=
    fun _ _ _ _ _ _ => trivial
  have called3 := prefix_getElem? (later_trans later1 (later_trans later2 later3)).arrivals called
  refine free_tx mono free3 called3 ?_ (fun _ _ _ _ _ => trivial) ?_
    fun _ _ _ _ _ _ _ _ => trivial
  · intro start began here _ _
    exact kick_body actor mac here
  rintro w4 _ acts free4 later4 _
    ⟨index, ⟨time, view, middle, ⟨between, past⟩, hist4⟩, found, _⟩
  refine free_audit free4 ?_
  rintro w5 answer time' view' free5 later5 _ ⟨last, ⟨after, past'⟩, hist5⟩
  obtain ⟨more, grown⟩ := later3.hist
  refine ⟨before, deauthed, more ++ between, ⟨thread, .commit, .ok (), time, index, acts, view⟩,
    after, ⟨thread, .audit (some actor.id) "session.kick", answer, time', w5.db.log.length, [],
      view'⟩, [], acts, ?_, deauths, ⟨time, index, view, rfl⟩,
    ⟨some actor.id, answer, time', _, [], view', rfl⟩, prefix_getElem? later5.log found⟩
  rw [hist5, ← past', hist4, ← past, ← grown, hist2]
  simp

end Kick

section Connect
variable {config : Config} {thread : Nat} {first world : World} {began : Time}
  {blocks : List (List Entry)} {β : Type} {post : Except Failure β → World → Prop}

theorem lockActiveSessions_body (userId : Nat) (here : Here thread first world began []) :
    Body config thread first (fun rows after => Here thread first after began [] ∧
        Carries thread world after ∧ ∀ found ∈ rows,
          RowLock.Holds after.db thread .sessions found.1 (some found.2) ∧
            found.2.userId = userId ∧ found.2.status = .active)
      (lockActiveSessions userId) world := by
  let loop (_ : List Nat) (rows : List (Nat × SessionRow)) (w : World) : Prop :=
    Here thread world w began [] ∧ ∀ found ∈ rows,
      RowLock.Holds w.db thread .sessions found.1 (some found.2) ∧
        found.2.userId = userId ∧ found.2.status = .active
  have carried : ∀ {w w' : World} {rows : List (Nat × SessionRow)}, Carries thread w w' →
      (∀ found ∈ rows, RowLock.Holds w.db thread .sessions found.1 (some found.2) ∧
        found.2.userId = userId ∧ found.2.status = .active) →
      ∀ found ∈ rows, RowLock.Holds w'.db thread .sessions found.1 (some found.2) ∧
        found.2.userId = userId ∧ found.2.status = .active := by
    intro w w' rows carries known found member
    exact ⟨carries.db.holds (known found member).1, (known found member).2⟩
  apply body_restart here.since
  refine body_query here.restart ?_
  intro w1 time view here1 _ _ _ _ _
  have entry : loop (Query.eval view (.activeSessionsOf userId)) [] w1 := ⟨here1, by simp⟩
  refine body_collect entry ?_ ?_
  · rintro id rest rows state ⟨here', known⟩
    simp only [Prog.bind_eq, Prog.pure_eq]
    refine body_lock here' ?_ ?_
    · intro w2 here2 carries2 _ _
      exact ⟨here2, by simpa using carried carries2 known⟩
    intro w2 s here2 carries2 _ locked present _
    refine ⟨here2, ?_⟩
    intro found member
    rcases List.mem_append.mp member with earlier | latest
    · exact carried carries2 known found earlier
    · simp only [Option.mem_toList, Option.map_eq_some_iff, Option.filter_eq_some_iff] at latest
      obtain ⟨row, ⟨same, matching⟩, rfl⟩ := latest
      cases same
      exact ⟨⟨locked, present⟩, by simpa using matching⟩
  · rintro rows state ⟨here', known⟩
    exact ⟨here'.weaken here.since, here'.since, by simpa using known⟩

theorem upsertDevice_body (userId : Nat) (mac : Text) (label : Option Text)
    (here : Here thread first world began []) :
    Body config thread first (fun _ after => ∃ device, Here thread first after began device ∧
        Carries thread world after ∧ DeviceActs (after.basis thread) userId mac label began device)
      (upsertDevice userId mac label) world := by
  apply body_restart here.since
  refine body_insertOrSkip here.restart ?_ ?_ true
  · intro w1 here1 _ _
    refine body_query here1 ?_
    intro w2 time view here2 _ _ _ rows _
    cases found : Query.eval view (.deviceOf userId mac) with
    | none => exact here2.since
    | some device =>
        have listed : (w2.db.store .devices device).isSome := by
          simp only [Query.eval, Option.map_eq_some_iff] at found
          obtain ⟨⟨key, row⟩, first, rfl⟩ := found
          obtain ⟨_, present, _⟩ := mem_scan.mp (List.mem_of_mem_head? first)
          rw [rows] at present
          exact Option.isSome_of_eq_some present
        refine body_update here2 ?_ ?_
        · intro w3 here3 carries3 _ missing
          have stays := carries3.stays .devices device (by simp) listed
          rw [replay_nil] at missing
          rw [missing] at stays
          cases stays
        · intro w3 row here3 _ _ locked present _
          exact ⟨_, here3.weaken here.since, here3.since, .known ⟨locked, present⟩⟩
  · intro w1 id here1 _ _ holds _
    exact ⟨_, here1.weaken here.since, here1.since, .new holds⟩

theorem openOrRefresh_body (user : AuthUser) (dto : ConnectDto) {device : List Entry}
    {account : UserRow} {rows : List (Nat × SessionRow)}
    (devices : DeviceActs (world.basis thread) user.id (toLowerCase dto.clientmac) dto.label began
      device)
    (here : Here thread first world began device)
    (owner : RowLock.Holds world.db thread .users user.id (some account))
    (paid : 0 < account.remainingSeconds)
    (locked : ∀ found ∈ rows, RowLock.Holds world.db thread .sessions found.1 (some found.2) ∧
      found.2.userId = user.id ∧ found.2.status = .active) :
    Body config thread first (fun _ after => ∃ acts, Here thread first after began acts ∧
        Lawful config (after.basis thread) thread (.connect user dto) acts ∧
        ConnectActs (after.basis thread) user dto began acts)
      (openOrRefresh user.id (toLowerCase dto.clientmac) dto.clientip dto.hid
        (rows.find? fun s => s.2.deviceMac == toLowerCase dto.clientmac)) world := by
  have only := deviceActs_onDevices devices
  cases already : rows.find? (fun s => s.2.deviceMac == toLowerCase dto.clientmac) with
  | some s =>
      obtain ⟨row, mine, active⟩ := locked s (List.mem_of_find?_eq_some already)
      have same : s.2.deviceMac = toLowerCase dto.clientmac := by
        simpa using List.find?_some already
      refine body_update here ?_ ?_
      · intro w1 here1 carries1 _ missing
        have row1 := carries1.db.holds row
        rw [replay_table _ _ _ _ fun entry member => by simp [only entry member]] at missing
        rw [row1.row] at missing
        cases missing
      · intro w1 again here1 carries1 _ _ _ _
        exact ⟨_, here1, .refresh only (carries1.db.holds owner) paid (carries1.db.holds row)
          active mine same, .refresh (deviceActs_mono (Basis.carries carries1) devices)
          (carries1.db.holds row) active mine same⟩
  | none =>
      refine body_then (finishActiveOn_body (toLowerCase dto.clientmac) .ended (by simp)
        (onDevices_tidy only) here) ?_
      rintro _ w1 ⟨closed, here1, carries1, finished⟩
      refine body_insert here1 ?_
      intro w2 id here2 carries2 _ holds _
      have finished2 := finishes_mono (Basis.carries carries2) finished
      have devices2 := deviceActs_mono (Basis.carries (carries_trans carries1 carries2)) devices
      exact ⟨_, here2, .opened only (carries2.db.holds (carries1.db.holds owner)) paid finished2
        holds, .opened devices2 finished2 holds⟩

theorem connect_body (user : AuthUser) (dto : ConnectDto)
    (here : Here thread first first began []) :
    Body config thread first
      (Seals config thread first began (.connect user dto) fun _ acts basis =>
        ∃ now, ConnectActs basis user dto now acts)
      (connectTx config user (toLowerCase dto.clientmac) dto.clientip dto.hid dto.label) first := by
  unfold connectTx
  refine body_lock here ?_ ?_
  · intro w1 here1 _ _ _
    exact here1.since
  intro w1 account here1 _ _ locked present _
  have owner1 : RowLock.Holds w1.db thread .users user.id (some account) := ⟨locked, present⟩
  refine body_orThrow here1 ?_
  rintro _ ⟨⟩
  refine body_throwIf here1 fun balance => ?_
  have paid : 0 < account.remainingSeconds := by simpa using balance
  refine body_then (lockActiveSessions_body user.id here1) ?_
  rintro rows w2 ⟨here2, carries2, known2⟩
  refine body_throwIf here2 fun _ => ?_
  refine body_then (upsertDevice_body user.id (toLowerCase dto.clientmac) dto.label here2) ?_
  rintro _ w3 ⟨device, here3, carries3, devices⟩
  have owner3 := carries3.db.holds (carries2.db.holds owner1)
  refine body_then (openOrRefresh_body user dto devices here3 owner3 paid
    fun found member => ⟨carries3.db.holds (known2 found member).1, (known2 found member).2⟩) ?_
  rintro _ w4 ⟨acts, here4, lawful, writes⟩
  exact ⟨acts, here4, lawful, began, writes⟩

theorem free_auth {user : AuthUser} {dto : ConnectDto} {timeoutSeconds : Int}
    {rest : Unit → Program β} (free : Free thread world blocks)
    (called : world.arrivals[thread]? = some (.connect user dto))
    (checked : ∃ check ∈ world.hist, check.thread = thread ∧
      check.Passed (toLowerCase dto.clientmac) config.kickCooldownSeconds)
    (failed : ∀ after error, Free thread after blocks → Later world after →
      post (.error error) after)
    (goes : ∀ after, Free thread after blocks → Later world after →
      Secure config thread post (rest ()) after) :
    Secure config thread post
      ((NdsctlService.auth (toLowerCase dto.clientmac) timeoutSeconds).bind rest) world := by
  apply safe_perform
  intro before relied held choice answer after executed
  have free' := free.rely relied
  obtain ⟨clock, arrivals, hist, _⟩ := exec_cases executed
  have same : after.db = before.db := auth_db executed
  have called' := prefix_getElem? relied.arrivals called
  have later : Later world after := by
    refine later_trans relied.carries.later ⟨same ▸ List.prefix_refl _, ?_,
      hist ▸ List.prefix_append _ _, arrivals ▸ List.prefix_refl _⟩
    rw [clock]
    exact Int.le_add_of_nonneg_right (Int.natCast_nonneg _)
  have kept : Held config after := by
    refine ⟨exec_ready held.ready free'.known executed, ?_, ?_⟩
    · have grows : before.hist <+: after.hist := hist ▸ List.prefix_append _ _
      intro index holder acts found
      rw [same] at found ⊢
      obtain ⟨call, known, lawful⟩ := held.legit.blocks index holder acts found
      exact ⟨call, arrivals ▸ known, lawful_mono (committed_extends _ grows) lawful⟩
    · intro index event found mac minutes authorises
      by_cases old : index < before.hist.length
      · rw [hist, List.getElem?_append_left old] at found
        obtain ⟨owner, given, known, lower, check, member, rest⟩ :=
          held.legit.auths index event found mac minutes authorises
        refine ⟨owner, given, arrivals ▸ known, lower, check, ?_, rest⟩
        rwa [hist, List.take_append_of_le_length (Nat.le_of_lt old)]
      · have here : index = before.hist.length := by
          have bound := (List.getElem?_eq_some_iff.mp found).1
          rw [hist, List.length_append, List.length_singleton] at bound
          omega
        rw [hist, here, List.getElem?_concat_length, Option.some.injEq] at found
        subst found
        obtain ⟨check, member, rest⟩ := checked
        cases authorises
        refine ⟨user, dto, arrivals ▸ called', rfl, check, ?_, rest⟩
        rw [hist, here, List.take_left]
        exact relied.hist.subset member
  refine ⟨kept, ?_⟩
  have free'' : Free thread after blocks :=
    ⟨same ▸ free'.outside, arrivals ▸ free'.known, by rw [← free'.own, World.own, World.own, same]⟩
  cases answer with
  | ok value => exact goes after free'' later
  | error error => exact failed after error free'' later

theorem connect_safe (user : AuthUser) (dto : ConnectDto) (free : Free thread world [])
    (called : world.arrivals[thread]? = some (.connect user dto)) :
    Secure config thread (ConnectOutcome user dto thread) (SessionsService.connect config user dto)
      world := by
  have nothing : ∀ {after outcome}, Free thread after [] →
      ConnectOutcome user dto thread outcome after := by
    intro after outcome free' index acts found
    have member : acts ∈ after.own thread :=
      List.mem_map.mpr ⟨_, List.mem_filter.mpr ⟨List.mem_of_getElem? found, by simp⟩, rfl⟩
    rw [free'.own] at member
    cases member
  unfold SessionsService.connect
  refine safe_throwIf _ _ _ _ (fun _ => nothing free) fun _ => ?_
  have apart : (Cmd.query (.recentKick (toLowerCase dto.clientmac)
    config.kickCooldownSeconds)).Apart := trivial
  refine free_perform apart free (fun _ _ free' _ _ => nothing free') ?_
  intro w1 recentKick time view free1 later1 _ logged
  refine safe_throwIf _ _ _ _ (fun _ => nothing free1) ?_
  rintro rfl
  have mono : Monotone fun (_ : Int) (acts : List Entry) (basis : Basis) =>
      ∃ now, ConnectActs basis user dto now acts := by
    rintro _ acts less more extends' ⟨now, writes⟩
    exact ⟨now, connectActs_mono extends' writes⟩
  have called1 := prefix_getElem? later1.arrivals called
  have wrote : ∀ {after outcome acts}, Free thread after [acts] →
      (∃ index, after.db.log[index]? = some (thread, acts) ∧ ∃ now, ConnectActs
        (committedBasis (after.db.log.take index) after.hist) user dto now acts) →
      ConnectOutcome user dto thread outcome after := by
    rintro after outcome acts free' ⟨index, found, now, writes⟩ other acts' found'
    obtain rfl := own_single free'.own found found'
    rw [found, Option.some.injEq, Prod.mk.injEq] at found'
    exact found'.2 ▸ ⟨now, writes⟩
  refine free_tx mono free1 called1 ?_ (fun _ _ free' _ _ => nothing free') ?_ ?_
  · intro start began here _ _
    exact connect_body user dto here
  rotate_left
  · rintro w2 error timeoutSeconds acts free2 _ _ ⟨index, _, found, writes⟩
    exact wrote free2 ⟨index, found, writes⟩
  rintro w2 timeoutSeconds acts free2 later2 _ ⟨index, _, found, writes⟩
  have written : ConnectOutcome user dto thread (.error .query) w2 :=
    wrote free2 ⟨index, found, writes⟩
  refine free_auth free2 (prefix_getElem? later2.arrivals called1)
    ⟨_, later2.hist.subset logged.mem, rfl, _, _, _, _, rfl⟩ ?_ ?_
  · intro w3 error free3 later3
    exact connectOutcome_later later3 (free3.own.trans free2.own.symm) written
  · intro w3 free3 later3
    refine free_audit free3 ?_
    intro w4 _ _ _ free4 later4 _ _
    exact connectOutcome_later (later_trans later3 later4) (free4.own.trans free2.own.symm) written

end Connect
end Cybera
