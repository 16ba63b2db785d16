import Cybera.Lifecycle
import Cybera.PassOrder

/-!
A pass beside a device that connects. CONNECT_GRACE_MS keeps the session of a
connect whose `ndsctl auth` is still to come, if the session is as young as the
connect.
-/

namespace Cybera

open Interleaving

/-- What connect writes on the session that it opens or connecting. -/
inductive Connects (id : Nat) : Entry → Prop where
  | refreshed {ip token : Text} {now : Time} :
      Connects id (alter .sessions id (.refresh ip token) now)
  | opened {row : SessionRow} : Connects id (create .sessions id row)

/-- A connect's transaction on the session, at the place of its COMMIT. -/
structure Connection (world : World) (thread : Nat) (dto : ConnectDto) (id index pos : Nat)
    (time : Time) : Prop where
  call : ∃ user, world.arrivals[thread]? = some (.connect user dto)
  commit : ∃ answer acts view, Landed answer ∧ world.db.log[index]? = some (thread, acts) ∧
    world.hist[pos]? = some ⟨thread, .commit, answer, time, index, acts, view⟩ ∧
      ∃ entry ∈ acts, Connects id entry

/-- The pass locked the session and did not find its client in OpenNDS. -/
structure FoundAbsent (world : World) (thread id lockAt : Nat) (s : SessionRow) (date : Time) :
    Prop where
  tick : world.arrivals[thread]? = some .tick
  locked : ∃ event, world.hist[lockAt]? = some event ∧ event.thread = thread ∧
    event.done = ⟨.lock .sessions id, .ok (some s)⟩
  active : s.status = .active
  looked : Looked (pastOf world.hist thread) date
  absent : ∃ clients, Reported (pastOf world.hist thread) clients ∧
    isOnline (authedClients clients) (toLowerCase s.deviceMac) = false

/-- When a pass finds the client of a recent connect absent, the session was
opened as recently. -/
def OpenedInTime (world : World) : Prop :=
  ∀ tick id lockAt s date connect dto index pos time,
    FoundAbsent world tick id lockAt s date → Connection world connect dto id index pos time →
      pos < lockAt → date - time ≤ connectGraceMs → date - s.startedAt ≤ connectGraceMs

/-- The thread's UPDATE that takes the session out of 'active'. -/
def Ending (world : World) (pos thread id : Nat) : Prop :=
  ∃ event status row, world.hist[pos]? = some event ∧ event.thread = thread ∧
    event.done = ⟨.update .sessions id (.finish status), .ok (some row)⟩

/-- A pass ends sessions for absence before it selects the exhausted ones. -/
def ForAbsence (world : World) (pos thread : Nat) : Prop :=
  world.arrivals[thread]? = some .tick ∧ Never (.query .exhausted)
    (pastOf (world.hist.take pos) thread)

/-- No pass ends a session for absence that a connect committed at most
CONNECT_GRACE_MS before the pass looked. -/
def Graced (world : World) : Prop :=
  ∀ pos thread id date connect dto index commitAt time, Ending world pos thread id →
    ForAbsence world pos thread → Looked (pastOf world.hist thread) date →
      Connection world connect dto id index commitAt time → commitAt < pos →
        connectGraceMs < date - time

/-- A pass that reads the active sessions after a connect's COMMIT and cuts off
its device as an orphan: the session was ended in between, by somebody else, or
because it was exhausted, or by a pass that looked after the grace. -/
def Spared (world : World) : Prop :=
  ∀ connect dto id index commitAt time tick (sweepAt cutAt : Nat) (sweep cut : Event),
    Connection world connect dto id index commitAt time → world.arrivals[tick]? = some .tick →
      world.hist[sweepAt]? = some sweep → sweep.thread = tick → sweep.cmd = .query .stillActive →
      world.hist[cutAt]? = some cut → cut.thread = tick →
      cut.cmd = .ndsctl (.deauth (toLowerCase dto.clientmac)) →
      commitAt < sweepAt → sweepAt < cutAt →
        ∃ pos thread, commitAt < pos ∧ pos < sweepAt ∧ Ending world pos thread id ∧
          (ForAbsence world pos thread →
            ∃ date, Looked (pastOf world.hist thread) date ∧ connectGraceMs < date - time)

theorem Event.Wrote.finishes {write : Event} {id : Nat} {status : SessionStatus} {now : Time}
    (wrote : write.Wrote (alter .sessions id (.finish status) now)) :
    ∃ row, write.done = ⟨.update .sessions id (.finish status), .ok (some row)⟩ := by
  cases wrote
  exact ⟨_, rfl⟩

section Blocks
variable {config : Config} {world : World} {index thread : Nat} {acts : List Entry}

theorem Connects.names {id : Nat} {entry : Entry} (connects : Connects id entry) :
    entry.table = .sessions ∧ entry.id = id := by
  cases connects <;> exact ⟨rfl, rfl⟩

theorem connected_active {user : AuthUser} {dto : ConnectDto} {id : Nat} {entry : Entry}
    (lawful : Lawful config (world.basisAt index) thread (.connect user dto) acts)
    (member : entry ∈ acts) (connects : Connects id entry) :
    ∃ s, replay acts (storeAfter world.db.log index) .sessions id = some s ∧
      s.status = .active ∧ s.deviceMac = toLowerCase dto.clientmac := by
  have outside : ∀ {device : List Entry}, OnDevices device → entry ∉ device := by
    intro device devices listed
    have table := devices entry listed
    rw [connects.names.1] at table
    cases table
  have skipped : ∀ {device : List Entry}, OnDevices device → ∀ store key,
      replay device store .sessions key = store .sessions key := by
    intro device devices store key
    refine replay_table _ _ _ _ fun other listed same => ?_
    rw [devices other listed] at same
    cases same
  cases lawful with
  | nothing => cases member
  | refresh devices owner paid row active mine same =>
      obtain rfl := List.mem_singleton.mp ((List.mem_append.mp member).resolve_left
        (outside devices))
      cases connects
      rw [replay_append, replay_cons, replay_nil, alter_same, skipped devices]
      exact ⟨_, congrArg (Option.map _) row, active, same⟩
  | opened devices owner paid closed fresh =>
      simp only [List.append_assoc, List.mem_append, List.mem_singleton] at member
      obtain device | finished | rfl := member
      · exact absurd device (outside devices)
      · obtain ⟨other, s, rfl, _⟩ := closed entry finished
        cases connects
      · cases connects
        rw [replay_append, replay_cons, replay_nil]
        exact ⟨_, create_same _ _ _ _, rfl, rfl⟩

end Blocks

section Runs
variable {config : Config} {pool : ServerPool} (reached : Reached config pool)
include reached

theorem Connection.written {thread id index pos : Nat} {dto : ConnectDto} {time : Time}
    (connection : Connection pool.state thread dto id index pos time) :
    ∃ (writeAt : Nat) (write : Event), writeAt < pos ∧ pool.state.hist[writeAt]? = some write ∧
      write.thread = thread ∧ write.Takes .sessions id ∧
        Unclosed pool.state.hist thread writeAt pos := by
  obtain ⟨_, acts, view, _, _, committed, entry, member, connects⟩ := connection.commit
  obtain ⟨writeAt, write, before, found, own, wrote, unclosed⟩ :=
    (reached_chronicle reached).pending pos _ committed entry member
  have takes := wrote.takes (by simp [connects.names.1])
  rw [connects.names.1, connects.names.2] at takes
  exact ⟨writeAt, write, before, found, own, takes, unclosed⟩

/-- Whoever takes the session and goes on after the connect's COMMIT has taken
it after that COMMIT. -/
theorem Connection.before {thread id index pos : Nat} {dto : ConnectDto} {time : Time}
    (connection : Connection pool.state thread dto id index pos time) {middle last : Nat}
    {other next : Event} (found : pool.state.hist[middle]? = some other)
    (takes : other.Takes .sessions id) (later : pool.state.hist[last]? = some next)
    (same : next.thread = other.thread) (ordered : pos < last)
    (unclosed : Unclosed pool.state.hist other.thread middle last) : pos < middle := by
  obtain ⟨writeAt, write, before, found', own, takes', unclosed'⟩ := connection.written reached
  obtain ⟨_, acts, view, _, _, committed, _⟩ := connection.commit
  subst own
  exact (reached_exclusive reached).serial found' takes' before committed rfl trivial
    unclosed' found takes later same ordered unclosed

theorem absence_found {pos thread id : Nat} (ending : Ending pool.state pos thread id)
    (absence : ForAbsence pool.state pos thread) : ∃ lockAt s date,
      FoundAbsent pool.state thread id lockAt s date ∧ connectGraceMs < date - s.startedAt ∧
        ∀ connect dto index commitAt time,
          Connection pool.state connect dto id index commitAt time → commitAt < pos →
            commitAt < lockAt := by
  obtain ⟨⟨mover, cmd, answer, time, commits, pending, view⟩, status, row, found, rfl, same⟩ :=
    ending
  cases same
  obtain ⟨tick, never⟩ := absence
  obtain ⟨unended, _, vanished | ⟨listed, s, asked, _⟩⟩ := reached_inPass reached found rfl tick
  · obtain ⟨clients, date, s, reported, met, looked, absent, late, _⟩ := vanished
    obtain ⟨⟨lockAt, event, before, found', own, locked⟩, active⟩ :=
      And.imp_left mem_pastOf_take.mp met
    refine ⟨lockAt, s, date, ⟨tick, ⟨event, found', own, locked⟩, active, mem_pastOf_whole looked,
      clients, mem_pastOf_whole reported, absent⟩, late, ?_⟩
    intro connect dto index commitAt time connection earlier
    subst own
    exact connection.before reached found' (locked_takes locked) found rfl earlier
      (unended_unclosed unended)
  · exact absurd rfl (never _ asked)

theorem graced (opened : OpenedInTime pool.state) : Graced pool.state := by
  intro pos thread id date connect dto index commitAt time ending absence looked connection before
  obtain ⟨lockAt, s, date', absent, late, earlier⟩ := absence_found reached ending absence
  obtain rfl := looked_once reached absence.1 looked absent.looked
  by_contra recent
  have young := opened _ _ _ _ _ _ _ _ _ _ absent connection
    (earlier _ _ _ _ _ connection before) (Int.not_lt.mp recent)
  exact absurd late (Int.not_lt.mpr young)

theorem orphan_unknown {sweepAt cutAt : Nat} {sweep cut : Event} {mac : Text}
    (tick : pool.state.arrivals[sweep.thread]? = some .tick)
    (found : pool.state.hist[sweepAt]? = some sweep) (sweeps : sweep.cmd = .query .stillActive)
    (found' : pool.state.hist[cutAt]? = some cut) (own : cut.thread = sweep.thread)
    (cuts : cut.cmd = .ndsctl (.deauth mac)) (ordered : sweepAt < cutAt) {id : Nat} {s : SessionRow}
    (present : storeAfter pool.state.db.log sweep.commits .sessions id = some s)
    (active : s.status = .active) : toLowerCase s.deviceMac ≠ mac := by
  have pass := reached_inPass reached found' own tick
  rw [cuts] at pass
  rcases pass.2 with ⟨_, _, _, _, _, _, _, never⟩ | ⟨clients, known, _, _, recalled, unknown⟩
  · exact absurd sweeps
      (never sweep.done (mem_pastOf_take.mpr ⟨sweepAt, sweep, ordered, found, rfl, rfl⟩))
  · obtain ⟨at', event, _, found'', own', same⟩ := mem_pastOf_take.mp recalled
    have once := pass_once reached (.query .stillActive) (fun _ pass => pass.2.2) tick found rfl
      sweeps found'' own' (congrArg Sigma.fst same)
    subst once
    rw [found, Option.some.injEq] at found''
    subst found''
    have before := reached_inPass reached found rfl tick
    rw [sweeps] at before
    have rows := outside_rows reached found before.1
    have listed := ((reached_timeline reached).past sweep (List.mem_of_getElem? found)).listed
    have answered := ((reached_ready reached).truthful sweep (List.mem_of_getElem? found)).answered
    obtain ⟨mover, cmd, answer, time, commits, pending, view⟩ := sweep
    cases same
    rintro rfl
    refine unknown (List.mem_map.mpr ⟨s.deviceMac, ?_, rfl⟩)
    have answered' : known = Query.eval view .stillActive := answered
    have seen : view.rows .sessions id = some s :=
      (congrFun (congrFun rows .sessions) id).trans present
    rw [answered']
    refine List.mem_map.mpr ⟨(id, s), mem_scan.mpr ⟨?_, seen, by simp [active]⟩, rfl⟩
    exact listed .sessions id (Option.isSome_of_eq_some seen)

theorem spared (opened : OpenedInTime pool.state) : Spared pool.state := by
  intro connect dto id index commitAt time tick sweepAt cutAt sweep cut connection ticks found own
    sweeps found' own' cuts after before
  subst own
  have timeline := reached_timeline reached
  have legit := reached_legit reached
  have chronicle := reached_chronicle reached
  obtain ⟨_, acts, view, landed, block, committed, entry, member, connects⟩ := connection.commit
  obtain ⟨user, called⟩ := connection.call
  have closes : acts ≠ [] := List.ne_nil_of_mem member
  have grown : ∀ (pos : Nat) (event : Event), commitAt < pos → pool.state.hist[pos]? = some event →
      index < event.commits :=
    fun pos event later found => (history_order timeline later committed found).closed
      ⟨_, _, _, _, _, _, landed, rfl, closes⟩
  have bound := ((reached_ready reached).truthful sweep (List.mem_of_getElem? found)).bound
  obtain ⟨call, called', lawful⟩ := block_lawful legit block
  rw [called, Option.some.injEq] at called'
  subst called'
  obtain ⟨s, made, active, mac⟩ := connected_active lawful member connects
  rw [← storeAfter_succ _ _ _ block] at made
  have low := grown sweepAt sweep after found
  obtain ⟨s', present, same⟩ := row_same legit (by simp) (by simp) low bound made
  have ended : s'.status ≠ .active := by
    intro still
    refine orphan_unknown reached ticks found sweeps found' own' cuts before present still ?_
    rw [same.2.1, mac, toLowerCase_twice]
  obtain ⟨later, thread, acts', status, now, first, last, block', closing⟩ :=
    ended_between legit low bound made active present ended
  obtain ⟨pos, closeAt, write, written⟩ := block_written chronicle block' closing
  obtain ⟨_, time', view', _, committed'⟩ := written.commit
  have until' := commits_order timeline committed' found last
  have serial := commits_order timeline committed committed' (Nat.lt_of_succ_le first)
  have takes : write.Takes .sessions id := written.wrote.takes (by simp [alter])
  have own := written.own
  have since : commitAt < pos := connection.before reached written.found takes committed'
    own.symm serial (own ▸ written.unclosed)
  obtain ⟨row, done⟩ := written.wrote.finishes
  have ending : Ending pool.state pos thread id := ⟨write, status, row, written.found, own, done⟩
  refine ⟨pos, thread, since, Nat.lt_trans written.before until', ending, ?_⟩
  intro absence
  obtain ⟨lockAt, s, date, absent, late, earlier⟩ := absence_found reached ending absence
  exact ⟨date, absent.looked, graced reached opened _ _ _ _ _ _ _ _ _ ending absence absent.looked
    connection since⟩

end Runs

/-- In a run in which passes find recently connected clients absent only from
sessions as recent, no pass ends or cuts off what a connect has just opened. -/
theorem grace_kept (config : Config) (pool : ServerPool) (reached : Reached config pool)
    (opened : OpenedInTime pool.state) : Graced pool.state ∧ Spared pool.state :=
  ⟨graced reached opened, spared reached opened⟩

def withinGrace (event : Event) : Bool :=
  match event.done with
  | ⟨.lock .sessions _, .ok (some (s : SessionRow))⟩ => decide (0 ≤ s.startedAt)
  | ⟨.dateNow, .ok (date : Time)⟩ => decide (date ≤ connectGraceMs)
  | _ => true

/-- A pass between the COMMIT and the `ndsctl auth` of a first connect. -/
def overtakenOnce : List (Move Choice Call Ambient) :=
  arrival ++ [.start (.connect guest phone)] ++ steps 2 8 ++
    [.ambient (.elapse 30000), .start .tick] ++ steps 3 9 ++ steps 2 2 ++ [.start .tick] ++
    steps 4 13

theorem grace_kept_overtaken : ∃ pool, Reached shop pool ∧
    (Graced pool.state ∧ Spared pool.state) ∧ pool.threads[3]? = some (some (.done .ok)) ∧
    pool.threads[4]? = some (some (.done .ok)) ∧ isAuthed phoneMac pool.state.clients = true := by
  obtain ⟨pool, reached, arrivals, seen⟩ := play_shows shop overtakenOnce
    (fun pool => answerOf pool 3 == some (.ok .ok) && answerOf pool 4 == some (.ok .ok) &&
      isAuthed phoneMac pool.state.clients && pool.state.hist.all withinGrace) true
    (by decide +kernel)
  simp only [Bool.and_eq_true, beq_iff_eq, List.all_eq_true] at seen
  obtain ⟨⟨⟨first, second⟩, online⟩, young⟩ := seen
  refine ⟨pool, reached, grace_kept shop pool reached ?_, answerOf_ok first, answerOf_ok second,
    online⟩
  intro tick id lockAt s date connect dto index pos time absent _ _ _
  obtain ⟨event, found, _, locked⟩ := absent.locked
  have started : 0 ≤ s.startedAt := by
    simpa [withinGrace, locked] using young event (List.mem_of_getElem? found)
  obtain ⟨event', member, _, looked⟩ := mem_pastOf.mp absent.looked
  have early : date ≤ connectGraceMs := by
    simpa [withinGrace, looked] using young event' member
  exact Int.le_trans (Int.sub_le_self date started) early

def connecting (id : Nat) : Entry → Bool
  | ⟨.sessions, key, .update (.refresh ..) _⟩ => key == id
  | _ => false

theorem connecting_connects {id : Nat} {entry : Entry} (found : connecting id entry = true) :
    Connects id entry := by
  unfold connecting at found
  split at found
  · rw [beq_iff_eq] at found
    subst found
    exact .refreshed
  · cases found

def finishes (id : Nat) (event : Event) : Bool :=
  match event.done with
  | ⟨.update .sessions key (.finish _), .ok (some _)⟩ => key == id
  | _ => false

theorem finishes_iff {id : Nat} {event : Event} : finishes id event = true ↔
    ∃ status row, event.done = ⟨.update .sessions id (.finish status), .ok (some row)⟩ := by
  constructor
  · intro found
    unfold finishes at found
    split at found
    · rename_i same
      rw [beq_iff_eq] at found
      exact ⟨_, _, found ▸ same⟩
    · cases found
  · rintro ⟨status, row, same⟩
    simp [finishes, same]

def looksAt (date : Time) : Done Cmd Res Failure → Bool
  | ⟨.dateNow, .ok (found : Time)⟩ => found == date
  | _ => false

theorem looksAt_done {date : Time} {done : Done Cmd Res Failure}
    (looks : looksAt date done = true) :
    done = ⟨.dateNow, .ok date⟩ := by
  unfold looksAt at looks
  split at looks
  · rw [beq_iff_eq] at looks
    rw [looks]
  · cases looks

def asksExhausted (done : Done Cmd Res Failure) : Bool :=
  match done.1 with
  | .query .exhausted => true
  | _ => false

def sweeps (event : Event) : Bool :=
  match event.cmd with
  | .query .stillActive => true
  | _ => false

def cuts (mac : Text) (event : Event) : Bool :=
  match event.cmd with
  | .ndsctl (.deauth other) => other == mac
  | _ => false

theorem sweeps_cmd {event : Event} (found : sweeps event = true) :
    event.cmd = .query .stillActive := by
  unfold sweeps at found
  split at found
  · assumption
  · cases found

theorem cuts_cmd {mac : Text} {event : Event} (found : cuts mac event = true) :
    event.cmd = .ndsctl (.deauth mac) := by
  unfold cuts at found
  split at found
  · rename_i same
    rw [same, beq_iff_eq.mp found]
  · cases found

/-- The phone has been away for 70 s when the guest connects it again; a pass
falls between the COMMIT and the `ndsctl auth`, and another one follows. -/
def cutOffAgain : List (Move Choice Call Ambient) :=
  arrival ++ [.start (.connect guest phone)] ++ steps 2 10 ++
    [.ambient (.elapse 70000),
      .ambient (.clients [(phoneMac, ⟨some phoneMac, some phoneIp, some preauthenticated⟩)]),
      .start (.connect guest phone)] ++ steps 3 10 ++ [.start .tick] ++ steps 4 10 ++
    steps 3 2 ++ [.start .tick] ++ steps 5 9

/-- The connect has answered and the phone is cut off in the same second. -/
theorem refreshed_cut_off : ∃ pool, Reached shop pool ∧
    pool.threads[3]? = some (some (.done (.connected phoneMac 3600))) ∧
    isAuthed phoneMac pool.state.clients = false ∧ pool.state.clock = 70000 ∧
    ¬ Graced pool.state ∧ ¬ Spared pool.state := by
  obtain ⟨pool, reached, arrivals, seen⟩ := play_shows shop cutOffAgain
    (fun pool => answerOf pool 3 == some (.ok (.connected phoneMac 3600)) &&
      !isAuthed phoneMac pool.state.clients && pool.state.clock == 70000 &&
      (pool.state.db.log[4]?).any (fun block => block.1 == 3 && block.2.any (connecting 1)) &&
      pool.state.hist.all (fun event =>
        !(event.thread == 3 && event.commits == 4) || event.time == 70000) &&
      (pool.state.hist[39]?).any
        (fun event => finishes 1 event && event.thread == 4 && event.commits == 5) &&
      (pastOf (pool.state.hist.take 39) 4).all (fun done => !asksExhausted done) &&
      (pastOf pool.state.hist 4).any (looksAt 70000) &&
      (pool.state.hist[51]?).any
        (fun event => sweeps event && event.thread == 5 && event.commits == 7) &&
      (pool.state.hist[52]?).any (fun event => cuts phoneMac event && event.thread == 5) &&
      (List.range pool.state.hist.length).all (fun pos =>
        !(pool.state.hist[pos]?).any (finishes 1) || pos == 39)) true (by decide +kernel)
  simp only [Bool.and_eq_true, beq_iff_eq, Bool.not_eq_true', List.all_eq_true, Option.any_eq_true,
    Bool.or_eq_true, List.any_eq_true, List.mem_range] at seen
  obtain ⟨⟨⟨⟨⟨⟨⟨⟨⟨⟨answer, offline⟩, clock⟩, block⟩, timed⟩, ended⟩, never⟩, looked⟩, swept⟩,
    cut⟩, once⟩ := seen
  obtain ⟨⟨_, acts⟩, logged, rfl, entry, member, connects⟩ := block
  obtain ⟨event, found, ⟨ends, own⟩, commits⟩ := ended
  obtain ⟨done, listed, looks⟩ := looked
  obtain ⟨sweep, foundSweep, ⟨sweeps, ownSweep⟩, commitsSweep⟩ := swept
  obtain ⟨cut, foundCut, cuts, ownCut⟩ := cut
  obtain rfl := looksAt_done looks
  have timeline := reached_timeline reached
  obtain ⟨pos, _, time, view, landed, committed⟩ :=
    (reached_chronicle reached).block 4 3 acts logged
  obtain rfl : time = 70000 :=
    (timed _ (List.mem_of_getElem? committed)).resolve_left (by simp)
  have connection : Connection pool.state 3 phone 1 4 pos 70000 :=
    ⟨⟨guest, by rw [arrivals]; rfl⟩, _, acts, view, landed, logged, committed, entry, member,
      connecting_connects connects⟩
  have ending : Ending pool.state 39 4 1 := by
    obtain ⟨status, row, same⟩ := finishes_iff.mp ends
    exact ⟨event, status, row, found, own, same⟩
  have absence : ForAbsence pool.state 39 4 := by
    refine ⟨by rw [arrivals]; rfl, fun done earlier same => ?_⟩
    simpa [asksExhausted, same] using never done earlier
  refine ⟨pool, reached, answerOf_ok answer, offline, clock, ?_, ?_⟩
  · intro graced
    have before := commits_order timeline committed found (by simp [commits])
    have late := graced _ _ _ _ _ _ _ _ _ ending absence listed connection before
    exact absurd late (by decide)
  · intro spared
    have before := commits_order timeline committed foundSweep (by simp [commitsSweep])
    obtain ⟨at', thread, _, _, ⟨event', status, row, found', own', same⟩, grace⟩ :=
      spared 3 phone 1 4 pos 70000 5 51 52 sweep cut connection (by rw [arrivals]; rfl) foundSweep
        ownSweep (sweeps_cmd sweeps) foundCut ownCut (cuts_cmd cuts) before (by decide)
    have here := (once at' (event_bound found')).resolve_left
      (by simp [found', finishes_iff.mpr ⟨status, row, same⟩])
    subst here
    rw [found, Option.some.injEq] at found'
    subst found'
    obtain rfl : thread = 4 := own'.symm.trans own
    obtain ⟨date, looked, late⟩ := grace absence
    obtain rfl := looked_once reached absence.1 listed looked
    exact absurd late (by decide)

end Cybera
