import Cybera.Refinement

/-!
The customer's page next to the server. The page derives what it shows from the
account's number of active devices and from a flag of its own, which stays set
as long as the page is there.
-/

namespace Cybera

open Interleaving

structure Balance where
  remainingSeconds : Int
  deviceLimit : Nat
  activeDevices : Nat
  deriving DecidableEq

/-- SELECT remaining_seconds, device_limit FROM users WHERE id = $1 -/
def accountOf (view : View) (userId : Nat) : Int × Nat :=
  match view.rows .users userId with
  | some (account : UserRow) => (account.remainingSeconds, account.deviceLimit)
  | none => (0, 1)

/-- SELECT COUNT(*) AS count FROM sessions WHERE user_id = $1 AND status = 'active' -/
def activeCount (view : View) (userId : Nat) : Nat :=
  (view.scan .sessions fun s => s.userId == userId && s.status == .active).length

/-- The second SELECT sees the sessions later than the first one saw the account. -/
def MeController.balance (account : Int × Nat) (view : View) (userId : Nat) : Balance where
  remainingSeconds := account.1
  deviceLimit := account.2
  activeDevices := activeCount view userId

/-- What the page says under the countdown; a request may fail without an answer. -/
inductive Notice where
  | reconnect
  | failed (error : Option Failure)

/-- The state of OnlineStatus, with the prop that it reads. -/
structure OnlineStatus where
  activeDevices : Nat
  connected : Bool
  busy : Bool
  autoTried : Bool
  notice : Option Notice

def OnlineStatus.fresh (activeDevices : Nat) : OnlineStatus :=
  ⟨activeDevices, false, false, false, none⟩

def OnlineStatus.online (status : OnlineStatus) : Bool :=
  status.connected || decide (0 < status.activeDevices)

/-- The Connect button stands where the page does not say that one is online. -/
def OnlineStatus.offers (status : OnlineStatus) : Bool := !status.online

/-- A customer's device, with the context that its portal has stored. -/
structure Device where
  user : AuthUser
  mac : Text
  context : Option ConnectDto
  itsOwn : ∀ dto ∈ context, toLowerCase dto.clientmac = mac

def ownActive (view : View) (mac : Text) : Bool :=
  !(view.scan .sessions fun s => s.deviceMac == mac && s.status == .active).isEmpty

/-- A balance poll under way. `own` tells whether the device had an active session
when it was answered, `since` whether a connect of it has succeeded after that. -/
inductive Poll where
  | read (account : Int × Nat)
  | answered (balance : Balance) (own since : Bool)

def Poll.refreshed : Poll → Poll
  | .read account => .read account
  | .answered balance own _ => .answered balance own true

/-- The server and the page on the device: OnlineStatus while it is mounted, how
often it was, the polls and the connects under way (with the mount and the thread
of each), and `own` and `since` of the latest poll. -/
structure Visit where
  pool : ServerPool
  status : Option OnlineStatus
  mounts : Nat
  polls : List Poll
  connects : List (Nat × Nat)
  own : Bool
  since : Bool

def Visit.opened (pool : ServerPool) : Visit := ⟨pool, none, 0, [], [], false, false⟩

inductive VisitMove where
  | server (move : Move Choice Call Ambient)
  | poll
  | count (poll : Nat)
  | deliver (poll : Nat)
  | lose (poll : Nat)
  | click
  | result (connect : Nat)
  | fail (connect : Nat)

section Page
variable (config : Config) (device : Device)

/-- POST /session/connect with the stored context. -/
def Visit.connect (visit : Visit) (status : OnlineStatus) : Visit :=
  match device.context with
  | none => { visit with status := some { status with notice := some .reconnect } }
  | some dto =>
      { visit with
        pool := ⟨(server config).start (.connect device.user dto) visit.pool.state,
          visit.pool.threads ++ [some ((server config).body (.connect device.user dto))]⟩
        connects := visit.connects ++ [(visit.mounts, visit.pool.threads.length)]
        status := some { status with notice := none, busy := true } }

/-- The effect on active_devices: one automatic connect. -/
def Visit.autoConnect (visit : Visit) (status : OnlineStatus) : Visit :=
  if !status.autoTried && status.activeDevices == 0 && device.context.isSome then
    visit.connect config device { status with autoTried := true }
  else { visit with status := some status }

/-- setBalance: OnlineStatus is mounted while there is a balance above zero. -/
def Visit.setBalance (visit : Visit) (balance : Option Balance) : Visit :=
  match balance.filter fun balance => decide (0 < balance.remainingSeconds) with
  | none => { visit with status := none }
  | some balance =>
      match visit.status with
      | none =>
          Visit.autoConnect config device { visit with mounts := visit.mounts + 1 }
            (.fresh balance.activeDevices)
      | some status =>
          if status.activeDevices = balance.activeDevices then visit
          else visit.autoConnect config device
            { status with activeDevices := balance.activeDevices }

/-- The end of a connect, for the page that made it if that is still there. -/
def Visit.ended (visit : Visit) (connect mount : Nat) (settled : OnlineStatus → OnlineStatus) :
    Visit :=
  { visit with
    connects := visit.connects.eraseIdx connect
    status := visit.status.map fun status =>
      if mount = visit.mounts then { settled status with busy := false } else status }

def Visit.step (visit : Visit) : VisitMove → Option Visit
  | .server move =>
      (Interleaving.step (server config) visit.pool move).map fun pool => { visit with pool }
  | .poll =>
      some { visit with
        polls := visit.polls ++ [.read (accountOf (viewNow visit.pool) device.user.id)] }
  | .count poll =>
      match visit.polls[poll]? with
      | some (.read account) =>
          some { visit with
            polls := visit.polls.set poll
              (.answered (MeController.balance account (viewNow visit.pool) device.user.id)
                (ownActive (viewNow visit.pool) device.mac) false) }
      | _ => none
  | .deliver poll =>
      match visit.polls[poll]? with
      | some (.answered balance own since) =>
          some (Visit.setBalance config device
            { visit with polls := visit.polls.eraseIdx poll, own, since } (some balance))
      | _ => none
  | .lose poll =>
      match visit.polls[poll]? with
      | some _ =>
          some (Visit.setBalance config device
            { visit with polls := visit.polls.eraseIdx poll } none)
      | none => none
  | .click =>
      match visit.status with
      | some status =>
          if status.offers && !status.busy then some (visit.connect config device status) else none
      | none => none
  | .result connect =>
      match visit.connects[connect]? with
      | some (mount, thread) =>
          match answerOf visit.pool thread with
          | some (.ok _) =>
              some { visit.ended connect mount fun status => { status with connected := true } with
                polls := visit.polls.map Poll.refreshed
                since := true }
          | some (.error error) =>
              some (visit.ended connect mount fun status =>
                { status with notice := some (.failed (some error)) })
          | none => none
      | none => none
  | .fail connect =>
      match visit.connects[connect]? with
      | some (mount, _) =>
          some (visit.ended connect mount fun status =>
            { status with notice := some (.failed none) })
      | none => none

def visits (visit : Visit) : List VisitMove → Option Visit
  | [] => some visit
  | move :: rest => (visit.step config device move).bind fun after => visits after rest

end Page

/-- What a move of the page does where it is possible; about the polls that are
not delivered it says nothing. -/
inductive Visited (config : Config) (device : Device) (visit : Visit) :
    VisitMove → Visit → Prop where
  | server (move : Move Choice Call Ambient) (pool : ServerPool)
      (moved : Interleaving.step (server config) visit.pool move = some pool) :
      Visited config device visit (.server move) { visit with pool }
  | poll (polls : List Poll) : Visited config device visit .poll { visit with polls }
  | count (poll : Nat) (polls : List Poll) :
      Visited config device visit (.count poll) { visit with polls }
  | deliver (poll : Nat) (balance : Balance) (own since : Bool)
      (answered : visit.polls[poll]? = some (.answered balance own since)) :
      Visited config device visit (.deliver poll) (Visit.setBalance config device
        { visit with polls := visit.polls.eraseIdx poll, own, since } (some balance))
  | lose (poll : Nat) : Visited config device visit (.lose poll)
      (Visit.setBalance config device { visit with polls := visit.polls.eraseIdx poll } none)
  | click (status : OnlineStatus) (shown : visit.status = some status) :
      Visited config device visit .click (visit.connect config device status)
  | connected (connect mount : Nat) (settled : OnlineStatus → OnlineStatus) (polls : List Poll) :
      Visited config device visit (.result connect)
        { visit.ended connect mount settled with polls, since := true }
  | refused (connect mount : Nat) (notice : Notice) :
      Visited config device visit (.result connect)
        (visit.ended connect mount fun status => { status with notice := some notice })
  | failed (connect mount : Nat) (notice : Notice) :
      Visited config device visit (.fail connect)
        (visit.ended connect mount fun status => { status with notice := some notice })

theorem visit_cases {config : Config} {device : Device} {visit after : Visit} {move : VisitMove}
    (stepped : visit.step config device move = some after) :
    Visited config device visit move after := by
  cases move with
  | server move =>
      obtain ⟨pool, moved, rfl⟩ := Option.map_eq_some_iff.mp stepped
      exact .server move pool moved
  | poll =>
      cases stepped
      exact .poll _
  | count poll =>
      simp only [Visit.step] at stepped
      split at stepped
      · cases stepped
        exact .count poll _
      · cases stepped
  | deliver poll =>
      simp only [Visit.step] at stepped
      split at stepped
      · rename_i balance own since answered
        cases stepped
        exact .deliver poll balance own since answered
      · cases stepped
  | lose poll =>
      simp only [Visit.step] at stepped
      split at stepped
      · cases stepped
        exact .lose poll
      · cases stepped
  | click =>
      simp only [Visit.step] at stepped
      split at stepped
      · rename_i status shown
        split at stepped
        · cases stepped
          exact .click status shown
        · cases stepped
      · cases stepped
  | result connect =>
      simp only [Visit.step] at stepped
      split at stepped
      · split at stepped
        · cases stepped
          exact .connected connect _ _ _
        · cases stepped
          exact .refused connect _ _
        · cases stepped
      · cases stepped
  | fail connect =>
      simp only [Visit.step] at stepped
      split at stepped
      · cases stepped
        exact .failed connect _ _
      · cases stepped

/-- Where the page says that one is online, a connect has succeeded since the
latest poll, or the device had an active session when that was answered. -/
def Honest (visit : Visit) : Prop :=
  ∀ status, visit.status = some status → status.online = true →
    visit.since = true ∨ visit.own = true

/-- A click starts the connect of a device that neither its latest poll nor a connect since
found online. -/
def Connectable (config : Config) (device : Device) (visit : Visit) : Prop :=
  ∀ status dto, visit.status = some status → status.busy = false → device.context = some dto →
    visit.own = false → visit.since = false → ∃ after,
      visit.step config device .click = some after ∧
        after.pool.state.arrivals = visit.pool.state.arrivals ++ [.connect device.user dto]

/-- The poll found a balance but no active session on the device, while another
device of the account has one or the page has connected before. -/
def Misleads (visit : Visit) (poll : Nat) : Prop :=
  ∃ balance, visit.polls[poll]? = some (.answered balance false false) ∧
    0 < balance.remainingSeconds ∧
    (0 < balance.activeDevices ∨ ∃ status, visit.status = some status ∧ status.connected = true)

section Steps
variable {config : Config} {device : Device} {visit after : Visit} {status : OnlineStatus}

/-- The visit shows the status, as far as being online goes, and the latest poll
is that of `before`. -/
structure Shows (before : Visit) (status : OnlineStatus) (after : Visit) : Prop where
  shown : ∃ status', after.status = some status' ∧ status'.online = status.online
  own : after.own = before.own
  since : after.since = before.since

theorem connect_shows : Shows visit status (visit.connect config device status) := by
  unfold Visit.connect
  cases device.context with
  | none => exact ⟨⟨_, rfl, rfl⟩, rfl, rfl⟩
  | some dto => exact ⟨⟨_, rfl, rfl⟩, rfl, rfl⟩

theorem autoConnect_shows : Shows visit status (visit.autoConnect config device status) := by
  unfold Visit.autoConnect
  split
  · obtain ⟨shown, own, since⟩ := @connect_shows config device visit
      { status with autoTried := true }
    exact ⟨shown, own, since⟩
  · exact ⟨⟨status, rfl, rfl⟩, rfl, rfl⟩

theorem honest_shows (shows : Shows visit status after) :
    Honest after ↔ (status.online = true → visit.since = true ∨ visit.own = true) := by
  obtain ⟨⟨status', shown, online⟩, own, since⟩ := shows
  rw [← own, ← since, ← online]
  constructor
  · exact fun honest => honest status' shown
  · intro honest other shown'
    rw [shown, Option.some.injEq] at shown'
    exact shown' ▸ honest

theorem honest_away (away : visit.status = none) : Honest visit := by
  intro status shown
  rw [away] at shown
  cases shown

theorem setBalance_honest {balance : Balance} (positive : 0 < balance.remainingSeconds) :
    Honest (visit.setBalance config device (some balance)) ↔
      ((0 < balance.activeDevices ∨ ∃ status, visit.status = some status ∧
        status.connected = true) → visit.since = true ∨ visit.own = true) := by
  have kept : (some balance).filter (fun balance => decide (0 < balance.remainingSeconds)) =
      some balance := by simp [positive]
  unfold Visit.setBalance
  rw [kept]
  cases shown : visit.status with
  | none =>
      have online : OnlineStatus.online (.fresh balance.activeDevices) = true ↔
          0 < balance.activeDevices := decide_eq_true_iff
      simp only [reduceCtorEq, false_and, exists_false, or_false]
      rw [honest_shows autoConnect_shows, online]
  | some status =>
      have online : (0 < balance.activeDevices ∨ ∃ status', some status = some status' ∧
          status'.connected = true) ↔
            OnlineStatus.online { status with activeDevices := balance.activeDevices } = true := by
        simp [OnlineStatus.online, or_comm]
      simp only
      rw [online]
      split
      · rename_i same
        have whole : { status with activeDevices := balance.activeDevices } = status := by
          rw [← same]
        rw [whole]
        exact honest_shows ⟨⟨status, shown, rfl⟩, rfl, rfl⟩
      · exact honest_shows autoConnect_shows

theorem setBalance_away {balance : Option Balance}
    (empty : ∀ b, balance = some b → ¬ 0 < b.remainingSeconds) :
    Honest (visit.setBalance config device balance) := by
  have none' : balance.filter (fun balance => decide (0 < balance.remainingSeconds)) = none := by
    rw [Option.filter_eq_none_iff]
    intro b same
    simpa using empty b same
  unfold Visit.setBalance
  rw [none']
  exact honest_away rfl

theorem ended_honest {connect mount : Nat} {settled : OnlineStatus → OnlineStatus}
    (same : ∀ status, (settled status).online = status.online) (honest : Honest visit) :
    Honest (visit.ended connect mount settled) := by
  intro status shown online
  obtain ⟨before, shown', rfl⟩ := Option.map_eq_some_iff.mp shown
  refine honest before shown' ?_
  split at online
  · exact (same before).symm.trans online
  · exact online

theorem step_honest {move : VisitMove} (honest : Honest visit)
    (stepped : visit.step config device move = some after)
    (fair : ∀ poll, move = .deliver poll → ¬ Misleads visit poll) : Honest after := by
  cases visit_cases stepped with
  | server move pool moved => exact honest
  | poll polls => exact honest
  | count poll polls => exact honest
  | deliver poll balance own since answered =>
      by_cases positive : 0 < balance.remainingSeconds
      · rw [setBalance_honest positive]
        intro shows
        by_contra neither
        simp only [not_or, Bool.not_eq_true] at neither
        obtain ⟨rfl, rfl⟩ := neither
        exact fair poll rfl ⟨balance, answered, positive, shows⟩
      · refine setBalance_away fun b same => ?_
        cases same
        exact positive
  | lose poll => exact setBalance_away fun b same => by cases same
  | click status shown => exact (honest_shows connect_shows).mpr (honest status shown)
  | connected connect mount settled polls => exact fun _ _ _ => Or.inl rfl
  | refused connect mount notice => exact ended_honest (fun _ => rfl) honest
  | failed connect mount notice => exact ended_honest (fun _ => rfl) honest

theorem misled {poll : Nat} (misleads : Misleads visit poll) :
    ∃ after, visit.step config device (.deliver poll) = some after ∧ ¬ Honest after := by
  obtain ⟨balance, answered, positive, shows⟩ := misleads
  refine ⟨Visit.setBalance config device
    { visit with polls := visit.polls.eraseIdx poll, own := false, since := false } (some balance),
    by simp only [Visit.step, answered], ?_⟩
  rw [setBalance_honest positive]
  intro honest
  rcases honest shows with since | own
  · cases since
  · cases own

end Steps

section Visits
variable {config : Config} {device : Device}

theorem visits_append (before rest : List VisitMove) (visit : Visit) :
    visits config device visit (before ++ rest) =
      (visits config device visit before).bind fun middle => visits config device middle rest := by
  induction before generalizing visit with
  | nil => rfl
  | cons move before ih =>
      simp only [List.cons_append, visits]
      cases visit.step config device move with
      | none => rfl
      | some middle => exact ih middle

theorem visits_succ {moves : List VisitMove} {n : Nat} {move : VisitMove} {visit middle : Visit}
    (ran : visits config device visit (moves.take n) = some middle)
    (found : moves[n]? = some move) :
    visits config device visit (moves.take (n + 1)) = middle.step config device move := by
  rw [List.take_add_one, found, visits_append, ran]
  simp only [Option.toList_some, Option.bind_some, visits]
  cases middle.step config device move <;> rfl

theorem visits_honest {moves : List VisitMove} {pool : ServerPool}
    (fair : ∀ n poll visit, visits config device (.opened pool) (moves.take n) = some visit →
      moves[n]? = some (.deliver poll) → ¬ Misleads visit poll) (n : Nat) {visit : Visit}
    (ran : visits config device (.opened pool) (moves.take n) = some visit) : Honest visit := by
  induction n generalizing visit with
  | zero =>
      cases ran
      exact honest_away rfl
  | succ n ih =>
      cases found : moves[n]? with
      | none =>
          have whole : moves.take (n + 1) = moves.take n := by
            rw [List.take_add_one, found, Option.toList_none, List.append_nil]
          exact ih (whole ▸ ran)
      | some move =>
          rw [List.take_add_one, found, visits_append] at ran
          obtain ⟨middle, before, last⟩ := Option.bind_eq_some_iff.mp ran
          rw [Option.toList_some, visits, Option.bind_eq_some_iff] at last
          obtain ⟨after, stepped, same⟩ := last
          cases same
          refine step_honest (ih before) stepped ?_
          rintro poll rfl
          exact fair n poll middle before found

end Visits

/-! The page and the server: a connect is a call of the pool. -/
section Server
variable {config : Config} {device : Device} {visit after : Visit}

theorem connect_reached (reached : Reached config visit.pool) (status : OnlineStatus) :
    Reached config (visit.connect config device status).pool := by
  unfold Visit.connect
  cases device.context with
  | none => exact reached
  | some dto => exact .next (.start (.connect device.user dto)) reached rfl

theorem autoConnect_reached (reached : Reached config visit.pool) (status : OnlineStatus) :
    Reached config (visit.autoConnect config device status).pool := by
  unfold Visit.autoConnect
  split
  · exact connect_reached reached _
  · exact reached

theorem setBalance_reached (reached : Reached config visit.pool) (balance : Option Balance) :
    Reached config (visit.setBalance config device balance).pool := by
  unfold Visit.setBalance
  split
  · exact reached
  · split
    · exact @autoConnect_reached config device { visit with mounts := visit.mounts + 1 } reached _
    · split
      · exact reached
      · exact autoConnect_reached reached _

theorem step_reached {move : VisitMove} (reached : Reached config visit.pool)
    (stepped : visit.step config device move = some after) : Reached config after.pool := by
  cases visit_cases stepped with
  | server move pool moved => exact .next move reached moved
  | deliver poll balance own since answered =>
      exact @setBalance_reached config device
        { visit with polls := visit.polls.eraseIdx poll, own, since } reached _
  | lose poll =>
      exact @setBalance_reached config device
        { visit with polls := visit.polls.eraseIdx poll } reached _
  | click status shown => exact connect_reached reached _
  | _ => exact reached

theorem visits_reached {moves : List VisitMove} (reached : Reached config visit.pool)
    (ran : visits config device visit moves = some after) : Reached config after.pool := by
  induction moves generalizing visit with
  | nil =>
      cases ran
      exact reached
  | cons move rest ih =>
      obtain ⟨middle, stepped, onward⟩ := Option.bind_eq_some_iff.mp ran
      exact ih (step_reached reached stepped) onward

theorem ownActive_iff {pool : ServerPool} (reached : Reached config pool) (mac : Text) :
    ownActive (viewNow pool) mac = true ↔ ∃ id, ∃ s : SessionRow,
      pool.state.db.store .sessions id = some s ∧ s.deviceMac = mac ∧ s.status = .active := by
  unfold ownActive
  rw [Bool.not_eq_true', List.isEmpty_eq_false_iff_exists_mem]
  constructor
  · rintro ⟨⟨id, s⟩, member⟩
    obtain ⟨_, present, kept⟩ := mem_scan.mp member
    exact ⟨id, s, present, by simpa using kept⟩
  · rintro ⟨id, s, present, here, active⟩
    refine ⟨(id, s), mem_scan.mpr ⟨?_, present, by simp [here, active]⟩⟩
    by_contra beyond
    have none' := ((reached_ready reached).sound.unused .sessions id (Nat.le_of_not_lt beyond)).1
    rw [present] at none'
    cases none'

theorem honest_connects (honest : Honest visit) : Connectable config device visit := by
  intro status dto shown idle arrived offline untried
  have offers : status.offers = true := by
    unfold OnlineStatus.offers
    cases online : status.online with
    | false => rfl
    | true =>
        rcases honest status shown online with since | own
        · simp [untried] at since
        · simp [offline] at own
  refine ⟨visit.connect config device status, by simp [Visit.step, shown, offers, idle], ?_⟩
  simp only [Visit.connect, arrived]
  exact (server config).start_calls (.connect device.user dto) visit.pool.state

end Server

/-- Over every visit, from any state of the server and with any moves of it: the
page is honest throughout if and only if none of its polls misleads it, and while it is
honest, a device that is not online can connect. -/
theorem portal_honest_iff (config : Config) (device : Device) (pool : ServerPool)
    (moves : List VisitMove) :
    ((∀ n visit, visits config device (.opened pool) (moves.take n) = some visit → Honest visit) ↔
      ∀ n poll visit, visits config device (.opened pool) (moves.take n) = some visit →
        moves[n]? = some (.deliver poll) → ¬ Misleads visit poll) ∧
    ∀ n visit, visits config device (.opened pool) (moves.take n) = some visit → Honest visit →
      Connectable config device visit := by
  refine ⟨⟨?_, fun fair n visit ran => visits_honest fair n ran⟩,
    fun _ _ _ honest => honest_connects honest⟩
  intro honest n poll visit ran found misleads
  obtain ⟨after, stepped, wrong⟩ := @misled config device _ _ misleads
  exact wrong (honest (n + 1) after ((visits_succ ran found).trans stepped))

/-- The guest's phone, next to a tablet that is online. -/
def guestPhone : Device where
  user := guest
  mac := phoneMac
  context := some phone
  itsOwn := by
    intro dto same
    cases same
    decide

def tabletOnline : List (Move Choice Call Ambient) :=
  opening ++ [.start (.grant staff 2 hourForTwo)] ++ steps 1 4 ++
    [.ambient (.clients [(tabletMac, ⟨some tabletMac, some phoneIp, some preauthenticated⟩)]),
      .start (.connect guest tablet)] ++ steps 2 10

/-- One of two slots is free, and the phone's page has no button to take it. -/
theorem page_hides_connect : ∃ pool, Reached shop pool ∧
    accountOf (viewNow pool) 2 = (3600, 2) ∧ activeCount (viewNow pool) 2 = 1 ∧
    ∃ visit, visits shop guestPhone (.opened pool) [.poll, .count 0, .deliver 0] = some visit ∧
      visit.status.map OnlineStatus.offers = some false ∧ ¬ Honest visit := by
  obtain ⟨pool, reached, _, seen⟩ := play_shows shop tabletOnline
    (fun pool => (accountOf (viewNow pool) 2, activeCount (viewNow pool) 2,
      (visits shop guestPhone (.opened pool) [.poll, .count 0, .deliver 0]).map fun visit =>
        (visit.status.map OnlineStatus.offers, visit.since, visit.own)))
    ((3600, 2), 1, some (some false, false, false)) (by decide +kernel)
  obtain ⟨account, seen⟩ := Prod.mk.inj seen
  obtain ⟨active, seen⟩ := Prod.mk.inj seen
  obtain ⟨visit, ran, seen⟩ := Option.map_eq_some_iff.mp seen
  obtain ⟨hidden, seen⟩ := Prod.mk.inj seen
  obtain ⟨since, own⟩ := Prod.mk.inj seen
  refine ⟨pool, reached, account, active, visit, ran, hidden, ?_⟩
  intro honest
  obtain ⟨status, shown, offers⟩ := Option.map_eq_some_iff.mp hidden
  have online : status.online = true := by simpa [OnlineStatus.offers] using offers
  rcases honest status shown online with since' | own'
  · simp [since] at since'
  · simp [own] at own'

end Cybera
