import Cybera.Drift
import Cybera.Erasure
import Cybera.Funded

/-!
A pass that is cut short. Before its COMMIT it might as well not have been, after
it its settlement is whole, and the next pass deals with every client left over.
-/

namespace Cybera

open Interleaving

/-- The pass has asked for the clients and then for the active sessions, and each
client that is authenticated in the one has an active session in the other whose
owner has time left, or has been cut off, whatever that answered. -/
def LeavesNone (world : World) (thread : Nat) : Prop :=
  ∃ (clients : NdsClients) (look : Event), Reported (pastOf world.hist thread) clients ∧
    look ∈ world.hist ∧ look.thread = thread ∧ look.cmd = .query .stillActive ∧
    look.view.rows = storeAfter world.db.log look.commits ∧
    ∀ key client, (key, client) ∈ clients → client.authed = true →
      (∃ id, ∃ s : SessionRow, look.view.rows .sessions id = some s ∧ s.status = .active ∧
        toLowerCase s.deviceMac = client.macOr key ∧ 0 < balanceOf look.view.rows s.userId) ∨
      ∃ cut ∈ world.hist, cut.thread = thread ∧ cut.cmd = .ndsctl (.deauth (client.macOr key))

/-- There is a run in which the thread takes no step, everybody else the same ones,
and the database ends up the same. -/
def NeverHappened (config : Config) (pool : ServerPool) (thread : Nat) : Prop :=
  ∃ other : ServerPool, Reached config other ∧ other.state.db.store = pool.state.db.store ∧
    other.state.db.log = pool.state.db.log ∧ other.state.clock = pool.state.clock ∧
    other.state.clients = pool.state.clients ∧ other.state.arrivals = pool.state.arrivals ∧
    other.state.hist = pool.state.hist.filter (fun event => event.thread != thread) ∧
    ∀ holder, holder ≠ thread → other.threads[holder]? = pool.threads[holder]?

/-- The pass has settled the session by that many seconds, or owed nothing. -/
def Owes (past : Past) (session seconds : Nat) : Prop :=
  (∃ s, Owing past session seconds s) ∨ seconds = 0 ∧ ∀ elapsed s, ¬ Owing past session elapsed s

/-- The pass has found the session's client gone for good, or its account exhausted. -/
def Gone (past : Past) (session : Nat) : Prop :=
  (∃ clients date, Reported past clients ∧ Looked past date ∧
    Departed clients date past session) ∨ Exhausted past session

/-- The pass has committed once, and all of its settlement: each session has used
more by what was owed, the owners have paid for it, and those to be ended are. -/
structure SettledWhole (world : World) (thread index : Nat) : Prop where
  block : ∃ acts, world.db.log[index]? = some (thread, acts)
  only : ∀ (other : Nat) (acts : List Entry), world.db.log[other]? = some (thread, acts) →
    other = index
  consumed : ∀ session, ∀ s : SessionRow, storeAfter world.db.log index .sessions session = some s →
    ∃ after : SessionRow, storeAfter world.db.log (index + 1) .sessions session = some after ∧
      ∃ seconds, Owes (pastOf world.hist thread) session seconds ∧
        after.secondsConsumed = s.secondsConsumed + seconds
  balance : ∀ user, balanceOf (storeAfter world.db.log (index + 1)) user = max 0
    (balanceOf (storeAfter world.db.log index) user -
      ((charges (storeAfter world.db.log (index + 1)) (world.db.next .sessions) user : Int) -
        charges (storeAfter world.db.log index) (world.db.next .sessions) user))
  ended : ∀ session, ∀ s after : SessionRow,
    storeAfter world.db.log index .sessions session = some s → s.status = .active →
      storeAfter world.db.log (index + 1) .sessions session = some after →
        (after.status ≠ .active ↔ Gone (pastOf world.hist thread) session)

section Snapshots
variable {clients : NdsClients} {key : Text} {client : NdsClient}

theorem mapSet_kept {map : List (Text × Text)} {mac : Text} (key value : Text)
    (online : isOnline map mac = true) : isOnline (mapSet map key value) mac = true := by
  obtain ⟨entry, member, same⟩ := List.any_eq_true.mp online
  unfold mapSet
  split
  · refine List.any_eq_true.mpr ⟨_, List.mem_map_of_mem member, ?_⟩
    split
    · rename_i hit
      rw [beq_iff_eq] at hit same
      simp [← hit, same]
    · exact same
  · exact List.any_eq_true.mpr ⟨entry, List.mem_append_left _ member, same⟩

theorem mapSet_online (map : List (Text × Text)) (key value : Text) :
    isOnline (mapSet map key value) key = true := by
  unfold mapSet
  split
  · rename_i hit
    obtain ⟨entry, member, same⟩ := List.any_eq_true.mp hit
    refine List.any_eq_true.mpr ⟨_, List.mem_map_of_mem member, ?_⟩
    simp [same]
  · exact List.any_eq_true.mpr ⟨_, List.mem_append_right _ (List.mem_singleton_self _), by simp⟩

theorem authed_online (member : (key, client) ∈ clients) (authed : client.authed = true) :
    isOnline (authedClients clients) (client.macOr key) = true := by
  have kept : ∀ (clients : NdsClients) (map : List (Text × Text)) (mac : Text),
      isOnline map mac = true → isOnline (clients.foldl (fun map entry =>
        if entry.2.authed then mapSet map (entry.2.macOr entry.1) (entry.2.ip.getD []) else map)
          map) mac = true := by
    intro clients
    induction clients with
    | nil => exact fun _ _ online => online
    | cons entry rest ih =>
        intro map mac online
        refine ih _ mac ?_
        obtain ⟨key, client⟩ := entry
        change isOnline (if client.authed then _ else map) mac = true
        split
        · exact mapSet_kept _ _ online
        · exact online
  obtain ⟨before, rest, rfl⟩ := List.append_of_mem member
  unfold authedClients
  rw [List.foldl_append, List.foldl_cons]
  refine kept rest _ _ ?_
  simp only [authed, if_true]
  exact mapSet_online _ _ _

end Snapshots

section Runs
variable {config : Config} {pool : ServerPool} (reached : Reached config pool)
include reached

theorem pass_leaves_none {thread : Nat} {reply : Reply}
    (tick : pool.state.arrivals[thread]? = some .tick)
    (answered : pool.threads[thread]? = some (some (.done reply))) :
    LeavesNone pool.state thread := by
  obtain ⟨clients, known, reported, recalled, handled⟩ := reached_shown reached answered tick
  obtain ⟨look, member, own, same⟩ := mem_pastOf.mp recalled
  obtain ⟨pos, found⟩ := List.mem_iff_getElem?.mp member
  have looks : look.cmd = .query .stillActive := congrArg Sigma.fst same
  have pass := reached_inPass reached found own tick
  rw [looks] at pass
  have rows := outside_rows reached found (own.symm ▸ pass.1)
  have truthful := (reached_ready reached).truthful look member
  refine ⟨clients, look, reported, member, own, looks, rows, ?_⟩
  intro key client listed authed
  rcases handled _ (authed_online listed authed) with active | ⟨answer, cut⟩
  · left
    have answer := truthful.answered
    have whole : known = Query.eval look.view .stillActive := by
      generalize look = event at same answer
      obtain ⟨mover, cmd, answer, time, commits, pending, view⟩ := event
      cases same
      exact answer
    rw [whole, List.mem_map] at active
    obtain ⟨mac, scanned, lower⟩ := active
    obtain ⟨⟨id, s⟩, found', rfl⟩ := List.mem_map.mp scanned
    obtain ⟨_, present, still⟩ := mem_scan.mp found'
    rw [beq_iff_eq] at still
    refine ⟨id, s, present, still, lower, ?_⟩
    rw [rows] at present ⊢
    exact reached_funded reached truthful.bound id s present still
  · right
    obtain ⟨event, recorded, own', same'⟩ := mem_pastOf.mp cut
    exact ⟨event, recorded, own', congrArg Sigma.fst same'⟩

theorem pass_traceless {thread : Nat} (tick : pool.state.arrivals[thread]? = some .tick)
    (unlanded : ∀ done ∈ pastOf pool.state.hist thread, ¬ Lands done) :
    ∀ event ∈ pool.state.hist, event.thread = thread → event.Traceless := by
  intro event member own
  obtain ⟨pos, found⟩ := List.mem_iff_getElem?.mp member
  obtain ⟨call, called, may⟩ := reached_mayDo reached event member
  rw [own, tick, Option.some.injEq] at called
  subst called
  refine ⟨?_, ?_, ?_⟩
  · exact unlanded event.done (mem_pastOf.mpr ⟨event, member, own, rfl⟩)
  · intro table row skip inserts
    rw [inserts] at may
    simp [Call.mayDo, Call.inserts] at may
  · intro command clients orders
    have pass := reached_inPass reached found own tick
    rw [orders] at may pass
    cases command with
    | auth mac minutes => exact may.elim
    | json | flushConntrack ip => rfl
    | deauth mac =>
        refine absurd answered_lands (unlanded _ ?_)
        rcases pass.2 with ⟨_, _, _, _, _, _, committed, _⟩ | ⟨_, known, _, _, recalled, _⟩
        · exact mem_pastOf_whole committed
        · obtain ⟨sweepAt, sweep, _, foundSweep, ownSweep, same⟩ := mem_pastOf_take.mp recalled
          have sweeps : sweep.cmd = .query .stillActive := congrArg Sigma.fst same
          have earlier := reached_inPass reached foundSweep ownSweep tick
          rw [sweeps] at earlier
          exact mem_pastOf_whole earlier.2.1

theorem never_happened {thread : Nat} (tick : pool.state.arrivals[thread]? = some .tick)
    (unlanded : ∀ done ∈ pastOf pool.state.hist thread, ¬ Lands done) :
    NeverHappened config pool thread := by
  refine ⟨_, reached_without reached (pass_traceless reached tick unlanded), rfl, rfl, rfl, rfl,
    rfl, rfl, fun holder other => ?_⟩
  exact List.getElem?_set_ne (Ne.symm other)

section Committed
variable {thread commitAt : Nat} {commit : Event}
  (tick : pool.state.arrivals[thread]? = some .tick)
  (committed : pool.state.hist[commitAt]? = some commit) (own : commit.thread = thread)
  (lands : Lands commit.done)
include tick committed own lands

theorem pass_commits : pool.state.db.log[commit.commits]? = some (thread, commit.pending) := by
  have passed := reached_inPass reached committed own tick
  rw [show commit.cmd = .commit from lands_commit lands] at passed
  have begun := begun_unended passed.2.1 passed.1
  exact own ▸ reached_begun reached commitAt commit committed (own.symm ▸ begun) lands

theorem pass_only {index : Nat} {acts : List Entry}
    (block : pool.state.db.log[index]? = some (thread, acts)) : index = commit.commits := by
  obtain ⟨pos, answer, time, view, landed, found⟩ :=
    (reached_chronicle reached).block index thread acts block
  have never : ∀ past, InPass past .commit → Never .commit past := by
    rintro past ⟨unended, _⟩ done member same
    have closes := unended done member
    rw [same] at closes
    exact closes trivial
  have once := pass_once reached .commit never tick committed own (lands_commit lands) found rfl
    rfl
  subst once
  rw [committed, Option.some.injEq] at found
  exact found ▸ rfl

theorem gone_ended {session : Nat} {s : SessionRow}
    (row : storeAfter pool.state.db.log commit.commits .sessions session = some s)
    (gone : Gone (pastOf pool.state.hist thread) session) :
    ∃ after, storeAfter pool.state.db.log (commit.commits + 1) .sessions session = some after ∧
      after.status ≠ .active := by
  have block := pass_commits reached tick committed own lands
  have cmd : commit.cmd = .commit := lands_commit lands
  have passed := reached_inPass reached committed own tick
  rw [cmd] at passed
  obtain ⟨unended, _, ⟨clients, date, reported, looked, _, seenOff⟩, found, listed, finished⟩ :=
    passed
  have ended : ∃ now, alter .sessions session (.finish .ended) now ∈ commit.pending := by
    rcases gone with ⟨clients', date', reported', looked', s', met, rest⟩ |
      ⟨found', s', asked, member⟩
    · obtain rfl := reported_once reached tick reported' (mem_pastOf_whole reported)
      obtain rfl := looked_once reached tick looked' (mem_pastOf_whole looked)
      obtain ⟨row, ended⟩ := seenOff session ⟨s', met_before reached committed own cmd tick met,
        rest⟩
      exact ended_pending reached committed own lands tick ended
    · obtain rfl := listed_once reached tick asked (mem_pastOf_whole listed)
      obtain ⟨row, ended⟩ := finished session s' member
      exact ended_pending reached committed own lands tick ended
  obtain ⟨now, member⟩ := ended
  obtain ⟨call, called, lawful⟩ := block_lawful (reached_legit reached) block
  rw [storeAfter_succ _ _ _ block]
  exact finished_inactive lawful row member

theorem ended_gone {session : Nat} {s after : SessionRow}
    (row : storeAfter pool.state.db.log commit.commits .sessions session = some s)
    (active : s.status = .active)
    (left : storeAfter pool.state.db.log (commit.commits + 1) .sessions session = some after)
    (ended : after.status ≠ .active) : Gone (pastOf pool.state.hist thread) session := by
  have block := pass_commits reached tick committed own lands
  obtain ⟨index, thread', acts, status, now, low, high, block', member⟩ :=
    ended_between (reached_legit reached) (Nat.le_succ _) (event_bound block) row active left ended
  obtain rfl : index = commit.commits := Nat.le_antisymm (Nat.le_of_lt_succ high) low
  rw [block, Option.some.injEq, Prod.mk.injEq] at block'
  obtain ⟨rfl, rfl⟩ := block'
  obtain ⟨writeAt, _, write, _, found, ownWrite, wrote, _⟩ :=
    block_written (reached_chronicle reached) block member
  have pass := reached_inPass reached found ownWrite tick
  cases wrote with
  | update =>
      rcases pass.2.2 with ⟨clients, date, s', reported, met, looked, offline, late, _⟩ |
        ⟨found', s', listed, member⟩
      · exact Or.inl ⟨clients, date, mem_pastOf_whole reported, mem_pastOf_whole looked, s',
          ⟨mem_pastOf_whole met.1, met.2⟩, offline, late⟩
      · exact Or.inr ⟨found', s', mem_pastOf_whole listed, member⟩

theorem settled_whole : SettledWhole pool.state thread commit.commits := by
  have legit := reached_legit reached
  have block := pass_commits reached tick committed own lands
  have bound : commit.commits + 1 ≤ pool.state.db.log.length := event_bound block
  obtain ⟨call, called, lawful⟩ := block_lawful legit block
  rw [tick, Option.some.injEq] at called
  subst called
  refine ⟨⟨_, block⟩, fun other acts block' => pass_only reached tick committed own lands block',
    ?_, ?_, ?_⟩
  · intro session s row
    obtain ⟨after, left, _⟩ := row_same legit (by simp) (by simp) (Nat.le_succ _) bound row
    refine ⟨after, left, ?_⟩
    rcases Nat.eq_zero_or_pos (settlements session commit.pending) with none' | some'
    · refine ⟨0, Or.inr ⟨rfl, fun elapsed s' owing => ?_⟩, ?_⟩
      · obtain ⟨now, member⟩ := owing_settled reached block tick owing
        exact absurd (settles_counted member) (by simp [none'])
      · rw [storeAfter_succ _ _ _ block] at left
        exact unsettled_kept lawful row left none'
    · obtain ⟨elapsed, now, member⟩ := counted_settles some'
      exact ⟨elapsed, Or.inl (settled_owing reached block tick member),
        settled_exact lawful row left block member (block_once reached block tick session)⟩
  · intro user
    rw [storeAfter_succ _ _ _ block]
    have floor := balance_floor reached user (Nat.le_of_succ_le bound)
    have below : ∀ id, (storeAfter pool.state.db.log commit.commits .sessions id).isSome →
        id < pool.state.db.next .sessions := fun _ => session_below reached
          (Nat.le_of_succ_le bound)
    generalize commit.pending = acts at lawful
    cases lawful with
    | nothing => exact (still_drawn still_nil).balance floor
    | tick ordered pass => exact (settlement_drawn pass below).balance floor
  · intro session s after row active left
    constructor
    · exact ended_gone reached tick committed own lands row active left
    · intro gone
      obtain ⟨after', left', ended⟩ := gone_ended reached tick committed own lands row gone
      rw [left, Option.some.injEq] at left'
      exact left' ▸ ended

end Committed
end Runs

/-- A pass cut short, and one that has answered: the first has never happened or
has settled everything once, and the second has left no client behind. -/
theorem tick_recovers (config : Config) (pool : ServerPool) (reached : Reached config pool)
    (first second : Nat) (cut : pool.state.arrivals[first]? = some .tick)
    (tick : pool.state.arrivals[second]? = some .tick)
    (answered : pool.threads[second]? = some (some (.done .ok))) :
    LeavesNone pool.state second ∧
      (NeverHappened config pool first ∨ ∃ index, SettledWhole pool.state first index) := by
  refine ⟨pass_leaves_none reached tick answered, ?_⟩
  by_cases landed : ∃ done ∈ pastOf pool.state.hist first, Lands done
  · obtain ⟨done, recorded, lands⟩ := landed
    obtain ⟨commit, member, own, rfl⟩ := mem_pastOf.mp recorded
    obtain ⟨commitAt, found⟩ := List.mem_iff_getElem?.mp member
    exact Or.inr ⟨_, settled_whole reached cut found own lands⟩
  · exact Or.inl (never_happened reached cut fun done member lands =>
      landed ⟨done, member, lands⟩)

/-- The pass that ends the guest's hour is killed right after its COMMIT; the next
one runs to its end. -/
def passCut : List (Move Choice Call Ambient) :=
  hourOver ++ [.crash 3, .start .tick] ++ steps 4 9

theorem tick_recovers_cut : ∃ pool, Reached shop pool ∧ pool.threads[3]? = some none ∧
    sessionNow pool 1 = some (.ended, 3600, 0, 3600000) ∧ balanceOf pool.state.db.store 2 = 0 ∧
    isAuthed phoneMac pool.state.clients = false ∧ LeavesNone pool.state 4 ∧
      (NeverHappened shop pool 3 ∨ ∃ index, SettledWhole pool.state 3 index) := by
  obtain ⟨pool, reached, arrivals, seen⟩ := play_shows shop passCut
    (fun pool => (pool.threads[3]?).any (fun program => program.isNone) &&
      answerOf pool 4 == some (.ok .ok) &&
      sessionNow pool 1 == some (.ended, 3600, 0, 3600000) &&
      balanceOf pool.state.db.store 2 == 0 && !isAuthed phoneMac pool.state.clients) true
    (by decide +kernel)
  simp only [Bool.and_eq_true, beq_iff_eq, Bool.not_eq_true', Option.any_eq_true,
    Option.isNone_iff_eq_none] at seen
  obtain ⟨⟨⟨⟨⟨program, gone, rfl⟩, answer⟩, session⟩, balance⟩, offline⟩ := seen
  refine ⟨pool, reached, gone, session, balance, offline,
    tick_recovers shop pool reached 3 4 ?_ ?_ (answerOf_ok answer)⟩
  · rw [arrivals]
    rfl
  · rw [arrivals]
    rfl

end Cybera
