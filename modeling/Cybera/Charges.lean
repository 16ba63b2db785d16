import Cybera.Endings

/-!
The time that passes charge a session for. A settlement runs from last_tick to
the pass's Date.now(), and leaves last_tick at the pass's now(), its BEGIN.
-/

namespace Cybera

open Interleaving

theorem intervals_within {intervals : List (Int × Int)} {first last : Int}
    (apart : intervals.Pairwise fun left right => left.2 ≤ right.1)
    (from' : ∀ interval ∈ intervals, first ≤ interval.1 ∧ interval.1 ≤ interval.2)
    (until' : ∀ interval ∈ intervals, interval.2 ≤ last) (ordered : first ≤ last) :
    (intervals.map fun interval => interval.2 - interval.1).sum ≤ last - first := by
  induction intervals generalizing first with
  | nil => simpa using ordered
  | cons interval rest ih =>
      obtain ⟨before, apart⟩ := List.pairwise_cons.mp apart
      obtain ⟨start, upward⟩ := from' interval (by simp)
      have onward := ih apart (fun other member => ⟨before other member,
        (from' other (List.mem_cons_of_mem _ member)).2⟩)
        (fun other member => until' other (List.mem_cons_of_mem _ member))
          (until' interval (by simp))
      rw [List.map_cons, List.sum_cons]
      linarith

/-- A settlement in block `index`, of the time from `start` to `stop`, by a pass
whose now() is `began`. -/
structure Span where
  index : Nat
  start : Time
  began : Time
  stop : Time

/-- A pass has charged the session for the span. -/
structure ChargedFor (world : World) (session : Nat) (span : Span) : Prop where
  block : ∃ thread acts elapsed, world.db.log[span.index]? = some (thread, acts) ∧
    world.arrivals[thread]? = some .tick ∧ Looked (pastOf world.hist thread) span.stop ∧
      alter .sessions session (.settle elapsed) span.began ∈ acts
  row : ∃ s : SessionRow, storeAfter world.db.log span.index .sessions session = some s ∧
    s.lastTick = span.start

/-- An UPDATE that sets last_tick. -/
def SessionOp.Restarts : SessionOp → Prop
  | .settle _ | .refresh .. => True
  | .finish _ => False

/-- The last block before `index` that sets the session's last_tick sets it to
its now(). -/
structure Restarted (world : World) (session index restart : Nat) (now : Time) : Prop where
  block : ∃ thread acts op, world.db.log[restart]? = some (thread, acts) ∧
    alter .sessions session op now ∈ acts ∧ op.Restarts
  before : restart < index
  last : ∀ between thread acts op time, restart < between → between < index →
    world.db.log[between]? = some (thread, acts) →
    alter .sessions session op time ∈ acts → ¬ op.Restarts

/-- A connect that began at `now` has refreshed the session. -/
def Reconnected (world : World) (session : Nat) (now : Time) : Prop :=
  ∃ (index thread : Nat) (acts : List Entry) (ip token : Text),
    world.db.log[index]? = some (thread, acts) ∧
    alter .sessions session (.refresh ip token) now ∈ acts

/-- Each pass that charges the session begins after the Date.now() of those before it. -/
def Sequential (world : World) (session : Nat) : Prop :=
  ∀ first last, ChargedFor world session first → ChargedFor world session last →
    first.index < last.index → first.stop ≤ last.began

/-- What sets the last_tick from which a pass charges, a charge or a reconnect,
began no earlier than the Date.now() of any charge made by then. -/
def Punctual (world : World) (session : Nat) : Prop :=
  ∀ first last restart now, ChargedFor world session first → ChargedFor world session last →
    first.index ≤ restart → Restarted world session last.index restart now → first.stop ≤ now

/-- The steps of a pass that charges: it locks the session, reads the clock and
commits. -/
structure ChargingPass (world : World) (session : Nat) (span : Span) (lockAt lookAt commitAt : Nat)
    (lock look commit : Event) : Prop where
  locks : world.hist[lockAt]? = some lock
  takes : lock.Takes .sessions session
  looks : world.hist[lookAt]? = some look
  time : look.time = span.stop
  commits : world.hist[commitAt]? = some commit
  closes : commit.cmd.Closes
  index : commit.commits = span.index
  own : commit.thread = lock.thread
  locked : lockAt < lookAt
  looked : lookAt < commitAt
  unclosed : Unclosed world.hist lock.thread lockAt commitAt

theorem elapsed_forward {date lastTick : Int} (positive : 0 < elapsedSeconds date lastTick) :
    lastTick < date := by
  unfold elapsedSeconds at positive
  omega

section Passes
variable {config : Config} {pool : ServerPool} (reached : Reached config pool)
include reached

theorem date_time {event : Event} {date : Time} (member : event ∈ pool.state.hist)
    (looked : event.done = ⟨.dateNow, .ok date⟩) : event.time = date := by
  refine reached_events (fun event => event.done = ⟨.dateNow, .ok date⟩ → event.time = date) ?_
    reached event member looked
  intro pool thread cmd choice answer after _ executed same
  cases same
  obtain ⟨_, succeeded, _⟩ := exec_ok executed
  cases succeeded
  rfl

theorem looked_before {thread commitAt : Nat} {commit : Event} {date : Time}
    (tick : pool.state.arrivals[thread]? = some .tick)
    (committed : pool.state.hist[commitAt]? = some commit) (own : commit.thread = thread)
    (commits : commit.cmd = .commit) (looked : Looked (pastOf pool.state.hist thread) date) :
    ∃ (lookAt : Nat) (look : Event), lookAt < commitAt ∧ pool.state.hist[lookAt]? = some look ∧
      look.thread = thread ∧ look.done = ⟨.dateNow, .ok date⟩ := by
  have passed := reached_inPass reached committed own tick
  rw [commits] at passed
  obtain ⟨_, _, ⟨_, date', _, looked', _⟩, _⟩ := passed
  obtain ⟨lookAt, look, early, found, own', same⟩ := mem_pastOf_take.mp looked'
  obtain rfl := looked_once reached tick looked (mem_pastOf_whole looked')
  exact ⟨lookAt, look, early, found, own', same⟩

theorem locked_stored {thread lockAt id : Nat} {lock : Event} {s : SessionRow}
    (tick : pool.state.arrivals[thread]? = some .tick)
    (found : pool.state.hist[lockAt]? = some lock) (own : lock.thread = thread)
    (same : lock.done = ⟨.lock .sessions id, .ok (some s)⟩) :
    storeAfter pool.state.db.log lock.commits .sessions id = some s := by
  have passed := reached_inPass reached found own tick
  have cmd : lock.cmd = .lock .sessions id := congrArg Sigma.fst same
  rw [cmd] at passed
  obtain ⟨_, only⟩ := passed
  have nothing : lock.pending = [] := by
    refine List.eq_nil_iff_forall_not_mem.mpr fun entry pending => ?_
    obtain ⟨writeAt, write, before, found', own', wrote, _⟩ :=
      (reached_chronicle reached).pending lockAt lock found entry pending
    have early := only write.done
      (mem_pastOf_take.mpr ⟨writeAt, write, before, found', own'.trans own, rfl⟩)
    cases wrote <;> exact early
  have held := locked_row reached (List.mem_of_getElem? found) same
  have truthful := (reached_ready reached).truthful lock (List.mem_of_getElem? found)
  rwa [truthful.rows, nothing, replay_nil] at held

theorem locked_until {thread commitAt id : Nat} {commit : Event} {s : SessionRow}
    (tick : pool.state.arrivals[thread]? = some .tick)
    (committed : pool.state.hist[commitAt]? = some commit) (own : commit.thread = thread)
    (commits : commit.cmd = .commit)
    (locked : ⟨.lock .sessions id, .ok (some s)⟩ ∈ pastOf pool.state.hist thread) :
    ∃ (lockAt : Nat) (lock : Event), lockAt < commitAt ∧ pool.state.hist[lockAt]? = some lock ∧
      lock.thread = thread ∧ lock.done = ⟨.lock .sessions id, .ok (some s)⟩ ∧
      Unclosed pool.state.hist thread lockAt commitAt ∧
      storeAfter pool.state.db.log commit.commits .sessions id = some s := by
  obtain ⟨lock, listed, ownLock, same⟩ := mem_pastOf.mp locked
  obtain ⟨lockAt, found⟩ := List.mem_iff_getElem?.mp listed
  have sooner : lockAt < commitAt := by
    rcases Nat.lt_trichotomy lockAt commitAt with less | rfl | more
    · exact less
    · rw [committed, Option.some.injEq] at found
      subst found
      cases commits.symm.trans (congrArg Sigma.fst same)
    · have passed := reached_inPass reached found ownLock tick
      have cmd : lock.cmd = .lock .sessions id := congrArg Sigma.fst same
      rw [cmd] at passed
      have early := passed.2 _ (mem_pastOf_take.mpr ⟨commitAt, commit, more, committed, own, rfl⟩)
      rw [show commit.done.1 = .commit from commits] at early
      exact early.elim
  have unclosed : Unclosed pool.state.hist lock.thread lockAt commitAt := by
    have passed := reached_inPass reached committed own tick
    rw [commits] at passed
    rw [ownLock]
    exact unended_unclosed passed.1
  have stored := locked_stored reached tick found ownLock same
  have grown := (history_order (reached_timeline reached) sooner found committed).commits
  have stands := locked_stands reached (by simp) found (locked_takes same) committed
    (own.trans ownLock.symm) unclosed grown (Nat.le_refl _)
  exact ⟨lockAt, lock, sooner, found, ownLock, same, ownLock ▸ unclosed, stands.trans stored⟩

theorem locked_looked {thread lockAt lookAt id : Nat} {lock look : Event} {s : SessionRow}
    {date : Time} (tick : pool.state.arrivals[thread]? = some .tick)
    (found : pool.state.hist[lockAt]? = some lock) (own : lock.thread = thread)
    (same : lock.done = ⟨.lock .sessions id, .ok (some s)⟩)
    (found' : pool.state.hist[lookAt]? = some look) (own' : look.thread = thread)
    (same' : look.done = ⟨.dateNow, .ok date⟩) : lockAt < lookAt := by
  rcases Nat.lt_trichotomy lockAt lookAt with less | rfl | more
  · exact less
  · rw [found', Option.some.injEq] at found
    subst found
    cases same'.symm.trans same
  · have passed := reached_inPass reached found own tick
    have cmd : lock.cmd = .lock .sessions id := congrArg Sigma.fst same
    rw [cmd] at passed
    exact (passed.2 _ (mem_pastOf_take.mpr ⟨lookAt, look, more, found', own', same'⟩)).elim

theorem charged_pass {session : Nat} {span : Span} (charge : ChargedFor pool.state session span) :
    0 < elapsedSeconds span.stop span.start ∧
    (∃ thread acts, pool.state.db.log[span.index]? = some (thread, acts) ∧
      alter .sessions session (.settle (elapsedSeconds span.stop span.start)) span.began ∈ acts) ∧
    ∃ lockAt lookAt commitAt lock look commit,
      ChargingPass pool.state session span lockAt lookAt commitAt lock look commit := by
  obtain ⟨⟨thread, acts, elapsed, block, tick, looked, member⟩, s, row, start⟩ := charge
  obtain ⟨s', clients, date, _, ⟨locked, _⟩, looked', _, same, positive⟩ :=
    settled_owing reached block tick member
  obtain rfl := looked_once reached tick looked looked'
  obtain ⟨commitAt, answer, time, view, landed, committed⟩ :=
    (reached_chronicle reached).block _ thread acts block
  obtain ⟨lookAt, look, early, foundLook, ownLook, sameLook⟩ :=
    looked_before reached tick committed rfl rfl looked
  obtain ⟨lockAt, lock, _, foundLock, ownLock, sameLock, unclosed, stored⟩ :=
    locked_until reached tick committed rfl rfl locked
  rw [row, Option.some.injEq] at stored
  subst stored
  rw [start] at same
  subst same
  have sooner := locked_looked reached tick foundLock ownLock sameLock foundLook ownLook sameLook
  exact ⟨positive, ⟨thread, acts, block, member⟩, lockAt, lookAt, commitAt, lock, look, _,
    foundLock, locked_takes sameLock, foundLook,
    date_time reached (List.mem_of_getElem? foundLook) sameLook, committed, trivial, rfl,
    ownLock.symm, sooner, early, ownLock ▸ unclosed⟩

theorem charged_forward {session : Nat} {span : Span}
    (charge : ChargedFor pool.state session span) :
    span.start < span.stop :=
  elapsed_forward (charged_pass reached charge).1

theorem charged_ordered {session : Nat} {first last : Span}
    (charge : ChargedFor pool.state session first) (charge' : ChargedFor pool.state session last)
    (ordered : first.index < last.index) : first.stop ≤ last.stop := by
  obtain ⟨_, _, lockAt, lookAt, commitAt, lock, look, commit, pass⟩ := charged_pass reached charge
  obtain ⟨_, _, lockAt', lookAt', commitAt', lock', look', commit', pass'⟩ :=
    charged_pass reached charge'
  have timeline := reached_timeline reached
  have before : commitAt < commitAt' := commits_order timeline pass.commits pass'.commits
    (by rw [pass.index, pass'.index]; exact ordered)
  have serial : commitAt < lockAt' := (reached_exclusive reached).serial pass.locks pass.takes
    (Nat.lt_trans pass.locked pass.looked) pass.commits pass.own pass.closes pass.unclosed
    pass'.locks pass'.takes pass'.commits pass'.own before pass'.unclosed
  have sooner : lookAt < lookAt' :=
    Nat.lt_trans (Nat.lt_trans pass.looked serial) pass'.locked
  rw [← pass.time, ← pass'.time]
  exact (history_order timeline sooner pass.looks pass'.looks).time

end Passes

section Restarts
variable {config : Config} {pool : ServerPool} (reached : Reached config pool)
  {session index restart : Nat} {s : SessionRow} {now : Time}
include reached

theorem restart_present {thread : Nat} {acts : List Entry} {op : SessionOp}
    (block : pool.state.db.log[index]? = some (thread, acts))
    (member : alter .sessions session op now ∈ acts) (restarts : op.Restarts) :
    ∃ s : SessionRow, storeAfter pool.state.db.log index .sessions session = some s := by
  obtain ⟨call, _, lawful⟩ := block_lawful (reached_legit reached) block
  generalize same : alter .sessions session op now = entry at member
  have listed := lawful_sessions lawful entry member (same ▸ rfl)
  cases listed with
  | settled present | refreshed present =>
      cases same
      exact ⟨_, present⟩
  | vanished | exhausted | takenOver | kicked =>
      cases same
      exact restarts.elim
  | opened => cases same

theorem restart_tick {thread : Nat} {acts : List Entry} {op : SessionOp} {after : SessionRow}
    (block : pool.state.db.log[index]? = some (thread, acts))
    (member : alter .sessions session op now ∈ acts) (restarts : op.Restarts)
    (left : storeAfter pool.state.db.log (index + 1) .sessions session = some after) :
    after.lastTick = now := by
  obtain ⟨call, _, lawful⟩ := block_lawful (reached_legit reached) block
  obtain ⟨s, row⟩ := restart_present reached block member restarts
  rw [storeAfter_succ _ _ _ block] at left
  cases op with
  | settle elapsed =>
      obtain rfl := settled_call lawful member
      exact settled_tick lawful row left member
  | refresh ip token =>
      obtain ⟨device, devices, rfl⟩ := refresh_block lawful member
      simp only [replay_append, replay_cons, replay_nil, alter_same] at left
      obtain ⟨row, _, rfl⟩ := Option.map_eq_some_iff.mp left
      rfl
  | finish status => exact restarts.elim

theorem unrestarted_tick {thread : Nat} {acts : List Entry} {before after : SessionRow}
    (block : pool.state.db.log[index]? = some (thread, acts))
    (none' : ∀ op time, alter .sessions session op time ∈ acts → ¬ op.Restarts)
    (row : storeAfter pool.state.db.log index .sessions session = some before)
    (left : storeAfter pool.state.db.log (index + 1) .sessions session = some after) :
    after.lastTick = before.lastTick := by
  obtain ⟨call, _, lawful⟩ := block_lawful (reached_legit reached) block
  rw [storeAfter_succ _ _ _ block] at left
  have kept : ∃ final, replay acts (storeAfter pool.state.db.log index) .sessions session =
      some final ∧ final.lastTick = before.lastTick := by
    refine replay_acts _ .sessions session (fun row => row.lastTick = before.lastTick)
      (lawful_alters lawful (by simp) (by simp) (by simp [row])) ?_ row rfl
    intro op time row member same
    cases op with
    | settle | refresh => exact absurd trivial (none' _ time member)
    | finish status => exact same
  obtain ⟨final, left', same⟩ := kept
  rw [left, Option.some.injEq] at left'
  exact left' ▸ same

theorem last_restart (bound : index ≤ pool.state.db.log.length)
    (row : storeAfter pool.state.db.log index .sessions session = some s) :
    (s.lastTick = s.startedAt ∧ ∀ at' thread acts op time, at' < index →
      pool.state.db.log[at']? = some (thread, acts) →
      alter .sessions session op time ∈ acts → ¬ op.Restarts) ∨
    ∃ restart, Restarted pool.state session index restart s.lastTick := by
  refine log_induction (reached_legit reached) (fun index => ∀ s : SessionRow,
    storeAfter pool.state.db.log index .sessions session = some s →
    (s.lastTick = s.startedAt ∧ ∀ at' thread acts op time, at' < index →
      pool.state.db.log[at']? = some (thread, acts) →
      alter .sessions session op time ∈ acts → ¬ op.Restarts) ∨
    ∃ restart, Restarted pool.state session index restart s.lastTick) (by simp [storeAfter]) ?_
    index bound s row
  intro index thread acts call block _ lawful next ih after left
  by_cases restarts : ∃ op time, alter .sessions session op time ∈ acts ∧ op.Restarts
  · obtain ⟨op, time, member, restarts⟩ := restarts
    right
    refine ⟨index, ⟨thread, acts, op, block, ?_, restarts⟩, Nat.lt_succ_self _, ?_⟩
    · rwa [restart_tick reached block member restarts left]
    · intro between _ _ _ _ low high
      omega
  · have none' : ∀ op time, alter .sessions session op time ∈ acts → ¬ op.Restarts :=
      fun op time member restarts' => restarts ⟨op, time, member, restarts'⟩
    cases row : storeAfter pool.state.db.log index .sessions session with
    | none =>
        left
        rw [next] at left
        refine ⟨session_made lawful row left, ?_⟩
        intro at' thread' acts' op time low block' member restarts'
        obtain ⟨s', present⟩ := restart_present reached block' member restarts'
        obtain ⟨_, stands, _⟩ := row_same (reached_legit reached) (by simp) (by simp)
          (Nat.le_of_lt_succ low) (Nat.le_of_lt (event_bound block)) present
        cases row.symm.trans stands
    | some before =>
        have kept := unrestarted_tick reached block none' row left
        obtain ⟨after', left', same⟩ := row_same (reached_legit reached) (by simp) (by simp)
          (Nat.le_succ index) (event_bound block) row
        rw [left, Option.some.injEq] at left'
        subst left'
        rcases ih before row with ⟨fresh, never⟩ | ⟨restart, restarted⟩
        · left
          refine ⟨by rw [kept, fresh, same.2.2], ?_⟩
          intro at' thread' acts' op time low block' member
          rcases Nat.lt_or_eq_of_le (Nat.le_of_lt_succ low) with sooner | rfl
          · exact never at' thread' acts' op time sooner block' member
          · cases block.symm.trans block'
            exact none' op time member
        · right
          refine ⟨restart, kept ▸ restarted.block, Nat.lt_succ_of_lt restarted.before, ?_⟩
          intro between thread' acts' op time low high block' member
          rcases Nat.lt_or_eq_of_le (Nat.le_of_lt_succ high) with sooner | rfl
          · exact restarted.last between thread' acts' op time low sooner block' member
          · cases block.symm.trans block'
            exact none' op time member

theorem restarted_tick (bound : index ≤ pool.state.db.log.length)
    (row : storeAfter pool.state.db.log index .sessions session = some s)
    (restarted : Restarted pool.state session index restart now) : s.lastTick = now := by
  obtain ⟨⟨thread, acts, op, block, member, restarts⟩, before, last⟩ := restarted
  rcases last_restart reached bound row with ⟨_, never⟩ | ⟨restart', restarted⟩
  · exact absurd restarts (never restart thread acts op now before block member)
  · obtain ⟨⟨thread', acts', op', block', member', restarts'⟩, before', last'⟩ := restarted
    rcases Nat.lt_trichotomy restart restart' with less | rfl | more
    · exact absurd restarts' (last restart' thread' acts' op' _ less before' block' member')
    · obtain ⟨s', present⟩ := restart_present reached block member restarts
      obtain ⟨after, left, _⟩ := row_same (reached_legit reached) (by simp) (by simp)
        (Nat.le_succ restart) (event_bound block) present
      rw [← restart_tick reached block member restarts left,
        restart_tick reached block' member' restarts' left]
    · exact absurd restarts (last' restart thread acts op now more before block member)

variable {first last : Span}

/-- Two charges overlap unless the later one starts after the earlier one's
Date.now(). -/
theorem disjoint_iff (charge : ChargedFor pool.state session first)
    (charge' : ChargedFor pool.state session last) (ordered : first.index < last.index) :
    Disjoint (Set.Ico first.start first.stop) (Set.Ico last.start last.stop) ↔
      first.stop ≤ last.start := by
  have later := charged_ordered reached charge charge' ordered
  have forward := charged_forward reached charge
  rw [Set.Ico_disjoint_Ico, min_eq_left later, le_max_iff]
  exact ⟨fun either => either.resolve_left (not_le.mpr forward), Or.inr⟩

theorem restart_between (charge : ChargedFor pool.state session first)
    (charge' : ChargedFor pool.state session last) (ordered : first.index < last.index) :
    ∃ restart, first.index ≤ restart ∧
      Restarted pool.state session last.index restart last.start := by
  obtain ⟨⟨thread, acts, elapsed, block, _, _, member⟩, _⟩ := charge
  obtain ⟨⟨_, _, _, block', _⟩, s, row, start⟩ := charge'
  rcases last_restart reached (Nat.le_of_lt (event_bound block')) row with
    ⟨_, never⟩ | ⟨restart, restarted⟩
  · exact absurd trivial (never first.index thread acts _ _ ordered block member)
  · refine ⟨restart, ?_, start ▸ restarted⟩
    by_contra early
    exact restarted.last first.index thread acts _ _ (Nat.lt_of_not_le early) ordered block member
      trivial

theorem disjoint_punctual :
    (∀ first last, ChargedFor pool.state session first → ChargedFor pool.state session last →
      first.index < last.index →
        Disjoint (Set.Ico first.start first.stop) (Set.Ico last.start last.stop)) ↔
    Punctual pool.state session := by
  constructor
  · intro disjoint first last restart now charge charge' from' restarted
    have ordered := Nat.lt_of_le_of_lt from' restarted.before
    have ⟨⟨_, _, _, block, _⟩, s, row, start⟩ := charge'
    have same := restarted_tick reached (Nat.le_of_lt (event_bound block)) row restarted
    rw [← same, start]
    exact (disjoint_iff reached charge charge' ordered).mp
      (disjoint first last charge charge' ordered)
  · intro punctual first last charge charge' ordered
    obtain ⟨restart, from', restarted⟩ := restart_between reached charge charge' ordered
    exact (disjoint_iff reached charge charge' ordered).mpr
      (punctual first last restart _ charge charge' from' restarted)

theorem settled_charge {thread elapsed : Nat} {acts : List Entry}
    (block : pool.state.db.log[index]? = some (thread, acts))
    (member : alter .sessions session (.settle elapsed) now ∈ acts) :
    ∃ span, ChargedFor pool.state session span ∧ span.index = index ∧ span.began = now := by
  obtain ⟨call, called, lawful⟩ := block_lawful (reached_legit reached) block
  obtain rfl := settled_call lawful member
  obtain ⟨_, _, date, _, _, looked, _⟩ := settled_owing reached block called member
  obtain ⟨s, row⟩ := restart_present reached block member trivial
  exact ⟨⟨index, s.lastTick, now, date⟩,
    ⟨⟨thread, acts, elapsed, block, called, looked, member⟩, s, row, rfl⟩, rfl, rfl⟩

theorem charged_once (charge : ChargedFor pool.state session first)
    (charge' : ChargedFor pool.state session last) (same : first.index = last.index) :
    first.stop = last.stop ∧ first.began = last.began := by
  obtain ⟨⟨thread, acts, _, block, tick, looked, member⟩, s, row, _⟩ := charge
  obtain ⟨⟨thread', acts', _, block', _, looked', member'⟩, _⟩ := charge'
  obtain ⟨after, left, _⟩ := row_same (reached_legit reached) (by simp) (by simp)
    (Nat.le_succ first.index) (event_bound block) row
  rw [← same] at block'
  cases block.symm.trans block'
  refine ⟨looked_once reached tick looked looked', ?_⟩
  rw [← restart_tick reached block member trivial left,
    restart_tick reached block member' trivial left]

/-- Where only passes that follow each other charge a session, and none
reconnects it, it is the clocks of each charge but the last that have to agree. -/
theorem punctual_passes
    (unrefreshed : ∀ now, ¬ Reconnected pool.state session now)
    (sequential : Sequential pool.state session) :
    Punctual pool.state session ↔ ∀ first last, ChargedFor pool.state session first →
      ChargedFor pool.state session last → first.index < last.index → first.stop ≤ first.began := by
  have settles : ∀ {index thread acts op now}, pool.state.db.log[index]? = some (thread, acts) →
      alter .sessions session op now ∈ acts → op.Restarts →
        ∃ span, ChargedFor pool.state session span ∧ span.index = index ∧ span.began = now := by
    intro index thread acts op now block member restarts
    cases op with
    | settle elapsed => exact settled_charge reached block member
    | refresh ip token =>
        exact absurd ⟨index, thread, acts, ip, token, block, member⟩ (unrefreshed now)
    | finish status => exact restarts.elim
  constructor
  · intro punctual first last charge charge' ordered
    classical
    -- the next charge after the first one
    have later : ∃ index, first.index < index ∧
        ∃ span, ChargedFor pool.state session span ∧ span.index = index :=
      ⟨last.index, ordered, last, charge', rfl⟩
    obtain ⟨after, next, charge'', same⟩ := Nat.find_spec later
    have ⟨⟨thread, acts, elapsed, block, _, _, member⟩, _⟩ := charge
    refine punctual first next first.index first.began charge charge'' (Nat.le_refl _)
      ⟨⟨thread, acts, .settle elapsed, block, member, trivial⟩, same ▸ after, ?_⟩
    intro between thread' acts' op time low high block' member' restarts
    obtain ⟨span, nearer, here, _⟩ := settles block' member' restarts
    exact Nat.find_min later (same ▸ high) ⟨low, span, nearer, here⟩
  · intro agree first last restart now charge charge' from' restarted
    obtain ⟨⟨thread, acts, op, block, member, restarts⟩, before, _⟩ := restarted
    obtain ⟨span, charge'', here, began⟩ := settles block member restarts
    rcases Nat.lt_or_eq_of_le from' with less | same
    · exact began ▸ sequential first span charge charge'' (here ▸ less)
    · rw [(charged_once reached charge charge'' (same.trans here.symm)).1, ← began]
      exact agree span last charge'' charge' (here ▸ before)

theorem charged_opened (punctual : Punctual pool.state session)
    (row : pool.state.db.store .sessions session = some s)
    (opened : ∀ now, Reconnected pool.state session now → s.startedAt ≤ now)
    (charge : ChargedFor pool.state session last) : s.startedAt ≤ last.start := by
  induction counted : last.index using Nat.strong_induction_on generalizing last with
  | _ index ih =>
      have ⟨⟨_, _, _, block, _⟩, s', row', start⟩ := charge
      have bound := Nat.le_of_lt (event_bound block)
      rcases last_restart reached bound row' with ⟨fresh, _⟩ | ⟨restart, restarted⟩
      · rw [(reached_ready reached).recorded] at row
        obtain ⟨_, stands, same⟩ := row_same (reached_legit reached) (by simp) (by simp) bound
          (Nat.le_refl _) row'
        rw [row, Option.some.injEq] at stands
        subst stands
        rw [← start, fresh, same.2.2]
      · have ⟨⟨thread, acts, op, block', member, restarts⟩, before, _⟩ := restarted
        rw [← start]
        cases op with
        | settle elapsed =>
            obtain ⟨span, charge', here, began⟩ := settled_charge reached block' member
            have earlier := ih span.index (by omega) charge' rfl
            have forward := charged_forward reached charge'
            have onward := punctual span last restart _ charge' charge (Nat.le_of_eq here) restarted
            exact Int.le_trans earlier (Int.le_trans (Int.le_of_lt forward) onward)
        | refresh ip token => exact opened _ ⟨restart, thread, acts, ip, token, block', member⟩
        | finish status => exact restarts.elim

end Restarts

/-- No moment is charged twice in exactly the runs in which the clocks of the
charges agree; then what is charged lies between started_at and the last pass.
If only passes charge the session, each charge but the last has to read
Date.now() in the millisecond of its BEGIN. -/
theorem charged_disjoint_iff (config : Config) (pool : ServerPool) (reached : Reached config pool)
    (session : Nat) :
    ((∀ first last, ChargedFor pool.state session first → ChargedFor pool.state session last →
      first.index < last.index →
        Disjoint (Set.Ico first.start first.stop) (Set.Ico last.start last.stop)) ↔
      Punctual pool.state session) ∧
    ((∀ now, ¬ Reconnected pool.state session now) → Sequential pool.state session →
      (Punctual pool.state session ↔ ∀ first last, ChargedFor pool.state session first →
        ChargedFor pool.state session last → first.index < last.index →
          first.stop ≤ first.began)) ∧
    (Punctual pool.state session → ∀ (s : SessionRow) (spans : List Span) (latest : Time),
      pool.state.db.store .sessions session = some s →
      (∀ now, Reconnected pool.state session now → s.startedAt ≤ now) →
      spans.Pairwise (fun first last => first.index < last.index) →
      (∀ span ∈ spans, ChargedFor pool.state session span ∧ span.stop ≤ latest) →
      s.startedAt ≤ latest →
        (spans.map fun span => span.stop - span.start).sum ≤ latest - s.startedAt) := by
  refine ⟨disjoint_punctual reached, punctual_passes reached, ?_⟩
  intro punctual s spans latest row opened ordered charges within
  have apart : (spans.map fun span => (span.start, span.stop)).Pairwise
      fun left right => left.2 ≤ right.1 := by
    rw [List.pairwise_map]
    refine ordered.imp_of_mem ?_
    intro first last member member' less
    have charge := (charges first member).1
    have charge' := (charges last member').1
    exact (disjoint_iff reached charge charge' less).mp
      ((disjoint_punctual reached).mpr punctual first last charge charge' less)
  have bounded := intervals_within apart ?_ ?_ within
  · simpa [Function.comp_def] using bounded
  · rintro interval member
    obtain ⟨span, listed, rfl⟩ := List.mem_map.mp member
    have charge := (charges span listed).1
    exact ⟨charged_opened reached punctual row opened charge,
      Int.le_of_lt (charged_forward reached charge)⟩
  · rintro interval member
    obtain ⟨span, listed, rfl⟩ := List.mem_map.mp member
    exact (charges span listed).2

/-- The thread's block settles the session for the span. -/
def settlesFor (pool : ServerPool) (session thread elapsed : Nat) (span : Span) : Bool :=
  (pool.state.db.log[span.index]?).any (fun block => block.1 == thread &&
    block.2.any fun entry => opOf entry == some (session, .settle elapsed, span.began)) &&
  (pastOf pool.state.hist thread).any (looksAt span.stop) &&
  (storeAfter pool.state.db.log span.index .sessions session).any fun s : SessionRow =>
    s.lastTick == span.start

theorem settlesFor_charged {pool : ServerPool} {session thread elapsed : Nat} {span : Span}
    (tick : pool.state.arrivals[thread]? = some .tick)
    (seen : settlesFor pool session thread elapsed span = true) :
    ChargedFor pool.state session span := by
  simp only [settlesFor, Bool.and_eq_true, Option.any_eq_true, beq_iff_eq] at seen
  obtain ⟨⟨⟨⟨_, acts⟩, block, rfl, settles⟩, looked⟩, s, row, start⟩ := seen
  obtain ⟨done, listed, looks⟩ := List.any_eq_true.mp looked
  obtain rfl := looksAt_done looks
  exact ⟨⟨_, acts, elapsed, block, tick, listed, opOf_alters settles⟩, s, row, start⟩

def twoCharges : List (Move Choice Call Ambient) :=
  arrival ++ [.start (.connect guest phone)] ++ steps 2 10 ++ [.ambient (.elapse 15000),
    .start .tick] ++ steps 3 13 ++ [.ambient (.elapse 15000), .start .tick] ++ steps 4 13

theorem charged_disjoint_twice : ∃ pool, Reached shop pool ∧ Punctual pool.state 1 ∧
    ChargedFor pool.state 1 ⟨4, 0, 15000, 15000⟩ ∧
    ChargedFor pool.state 1 ⟨5, 15000, 30000, 30000⟩ ∧
    sessionNow pool 1 = some (.active, 30, 0, 30000) := by
  obtain ⟨pool, reached, arrivals, seen⟩ := play_shows shop twoCharges
    (fun pool => settlesFor pool 1 3 15 ⟨4, 0, 15000, 15000⟩ &&
      settlesFor pool 1 4 15 ⟨5, 15000, 30000, 30000⟩ &&
      sessionNow pool 1 == some (.active, 30, 0, 30000) &&
      pool.state.db.log.zipIdx.all fun block => block.2 == 4 || block.2 == 5 ||
        block.1.2.all fun entry => (settleOf entry).isNone) true (by decide +kernel)
  simp only [Bool.and_eq_true, beq_iff_eq] at seen
  obtain ⟨⟨⟨first, second⟩, session⟩, others⟩ := seen
  have charge : ChargedFor pool.state 1 ⟨4, 0, 15000, 15000⟩ :=
    settlesFor_charged (by rw [arrivals]; rfl) first
  have charge' : ChargedFor pool.state 1 ⟨5, 15000, 30000, 30000⟩ :=
    settlesFor_charged (by rw [arrivals]; rfl) second
  refine ⟨pool, reached, (charged_disjoint_iff shop pool reached 1).1.mp ?_, charge,
    charge', session⟩
  have only : ∀ span, ChargedFor pool.state 1 span → span.index = 4 ∨ span.index = 5 := by
    rintro span ⟨⟨thread, acts, elapsed, block, _, _, member⟩, _⟩
    have listed := List.all_eq_true.mp others ((thread, acts), span.index)
      (List.mem_zipIdx_iff_getElem?.mpr block)
    simp only [Bool.or_eq_true, beq_iff_eq, List.all_eq_true] at listed
    rcases listed with here | none'
    · exact here
    · cases none' _ member
  intro earlier later charged charged' ordered
  have place : earlier.index = 4 ∧ later.index = 5 := by
    rcases only earlier charged with at' | at' <;> rcases only later charged' with at'' | at'' <;>
      omega
  rw [disjoint_iff reached charged charged' ordered,
    (charged_once reached charged charge place.1).1]
  obtain ⟨_, s, row, start⟩ := charged'
  obtain ⟨_, s', row', start'⟩ := charge'
  rw [place.2, row', Option.some.injEq] at row
  subst row
  exact Int.le_of_eq (start'.symm.trans start)

/-- Each pass begins when the one before has ended. The first one has begun when
it waits ten seconds for the guest's row. -/
def waitedFor : List (Move Choice Call Ambient) :=
  arrival ++ [.start (.connect guest phone)] ++ steps 2 10 ++ [.ambient (.elapse 20000),
    .start (.grant staff 2 anHour)] ++ steps 3 2 ++ [.start .tick] ++ steps 4 4 ++
    [.ambient (.elapse 10000)] ++ steps 3 2 ++ steps 4 9 ++ [.ambient (.elapse 10000),
    .start .tick] ++ steps 5 13

/-- Of 40 seconds online ten are charged twice. -/
theorem waiting_charged_twice : ∃ pool, Reached shop pool ∧
    ChargedFor pool.state 1 ⟨5, 0, 20000, 30000⟩ ∧
    ChargedFor pool.state 1 ⟨6, 20000, 40000, 40000⟩ ∧
    ¬ Disjoint (Set.Ico (0 : Time) 30000) (Set.Ico 20000 40000) ∧
    sessionNow pool 1 = some (.active, 50, 0, 40000) ∧ pool.state.clock = 40000 := by
  obtain ⟨pool, reached, arrivals, seen⟩ := play_shows shop waitedFor
    (fun pool => settlesFor pool 1 4 30 ⟨5, 0, 20000, 30000⟩ &&
      settlesFor pool 1 5 20 ⟨6, 20000, 40000, 40000⟩ &&
      sessionNow pool 1 == some (.active, 50, 0, 40000) && pool.state.clock == 40000) true
    (by decide +kernel)
  simp only [Bool.and_eq_true, beq_iff_eq] at seen
  obtain ⟨⟨⟨first, second⟩, session⟩, clock⟩ := seen
  refine ⟨pool, reached, settlesFor_charged (by rw [arrivals]; rfl) first,
    settlesFor_charged (by rw [arrivals]; rfl) second, ?_, session, clock⟩
  rw [Set.Ico_disjoint_Ico]
  decide

end Cybera
