import Cybera.Lifecycle
import Cybera.Timeline

/-!
A kick holds for its cooldown. The kick marks the sessions that its UPDATE
finds, the cooldown SELECT of a connect looks for such a mark, and `ndsctl auth`
follows only a SELECT that found none. What is left are the steps that fall
between one of these and the next.
-/

namespace Cybera

open Interleaving

/-- The steps of one kick with their places in the history. The audit is the
last: with it the kick returns. -/
structure KickSteps where
  deauthAt : Nat
  commitAt : Nat
  auditAt : Nat
  deauth : Event
  commit : Event
  audit : Event
  acts : List Entry

structure Kicked (world : World) (thread : Nat) (mac : Text) (kick : KickSteps) : Prop where
  ordered : kick.deauthAt < kick.commitAt ∧ kick.commitAt < kick.auditAt
  deauth : world.hist[kick.deauthAt]? = some kick.deauth
  commit : world.hist[kick.commitAt]? = some kick.commit
  audit : world.hist[kick.auditAt]? = some kick.audit
  deauths : kick.deauth.Deauths thread mac
  commits : kick.commit.Commits thread kick.acts
  audits : kick.audit.Audits thread "session.kick"
  block : world.db.log[kick.commit.commits]? = some (thread, kick.acts)

/-- From the kick's return on: no `ndsctl auth` within the cooldown, and nobody
authenticated while it lasts. -/
structure Calm (config : Config) (world : World) (mac : Text) (kick : KickSteps) : Prop where
  auths : ∀ (index : Nat) (event : Event), kick.auditAt < index →
    world.hist[index]? = some event → event.Auths mac →
      kick.audit.time + 1000 * config.kickCooldownSeconds ≤ event.time
  offline : world.clock < kick.audit.time + 1000 * config.kickCooldownSeconds →
    isAuthed mac world.clients = false

def Sticks (config : Config) (pool : ServerPool) : Prop :=
  ∀ (thread : Nat) (actor : AuthUser) (mac : Text) (reply : Reply),
    pool.state.arrivals[thread]? = some (.kick actor mac) →
    pool.threads[thread]? = some (some (.done reply)) →
      ∃ kick, Kicked pool.state thread (toLowerCase mac) kick ∧
        Calm config pool.state (toLowerCase mac) kick

/-- Nothing falls between the steps of the kick and those that rely on them. -/
structure Seamless (config : Config) (world : World) (mac : Text) (kick : KickSteps) : Prop where
  /-- OpenNDS carried the deauth out, unless there was nothing to carry out. -/
  deauthed : kick.deauth.Deauthed mac ∨ isAuthed mac kick.deauth.view.clients = false
  /-- The UPDATE found an active session to mark. -/
  marks : kick.acts ≠ []
  /-- No connect has its cooldown SELECT before the UPDATE is committed and its
  `ndsctl auth` after the deauth. -/
  apart : ∀ (before after : Nat) (check auth : Event), before < kick.commitAt →
    kick.deauthAt < after → world.hist[before]? = some check → world.hist[after]? = some auth →
    check.thread = auth.thread → check.Passed mac config.kickCooldownSeconds → ¬ auth.Auths mac
  /-- No pass ends a session that has been marked since it read it. -/
  keeps : ∀ (index thread : Nat) (acts : List Entry) (id : Nat) (now : Time) (s : SessionRow),
    world.db.log[index]? = some (thread, acts) → alter .sessions id (.finish .ended) now ∈ acts →
    storeAfter world.db.log index .sessions id = some s → s.deviceMac = mac → s.status ≠ .kicked
  /-- No cooldown SELECT falls in the time that the kick took from its BEGIN to
  its return, one cooldown later. -/
  waits : ∀ check ∈ world.hist, check.Passed mac config.kickCooldownSeconds → ∀ id now,
    alter .sessions id (.finish .kicked) now ∈ kick.acts →
    now + 1000 * config.kickCooldownSeconds ≤ check.time →
      kick.audit.time + 1000 * config.kickCooldownSeconds ≤ check.time

def NothingSlips (config : Config) (world : World) : Prop :=
  ∀ thread mac kick, Kicked world thread mac kick → Seamless config world mac kick

/-- The mark that a kick leaves. -/
def Marked (mac : Text) (now : Time) (rows : Store) (id : Nat) : Prop :=
  ∃ s : SessionRow, rows .sessions id = some s ∧ s.deviceMac = mac ∧ s.status = .kicked ∧
    s.endedAt = some now

section Marks
variable {config : Config} {world : World} {index thread id : Nat} {call : Call}
  {acts : List Entry} {mac : Text} {now : Time}

theorem finish_marked {rows : Store} {entry : Entry} {key : Nat}
    (same : entry = alter .sessions key (.finish .kicked) now) (marked : Marked mac now rows id) :
    Marked mac now (RowLock.runEntry Act.run rows entry) id := by
  subst same
  obtain ⟨s, present, mine, kicked, ended⟩ := marked
  by_cases hit : id = key
  · subst hit
    refine ⟨SessionOp.run now (.finish .kicked) s, ?_, mine, rfl, rfl⟩
    rw [alter_same, present]
    rfl
  · exact ⟨s, by rwa [alter_key _ _ _ _ _ _ hit], mine, kicked, ended⟩

theorem replay_marked {rows : Store}
    (finish : ∀ entry ∈ acts, ∃ key, entry = alter .sessions key (.finish .kicked) now)
    (marked : Marked mac now rows id) : Marked mac now (replay acts rows) id := by
  induction acts generalizing rows with
  | nil => exact marked
  | cons entry rest ih =>
      obtain ⟨key, same⟩ := finish entry (by simp)
      exact ih (fun other member => finish other (List.mem_cons_of_mem entry member))
        (finish_marked same marked)

theorem kick_marks {actor : AuthUser} {text : Text}
    (lawful : Lawful config (world.basisAt index) thread (.kick actor text) acts)
    (some' : acts ≠ []) : ∃ id now, alter .sessions id (.finish .kicked) now ∈ acts ∧
      Marked (toLowerCase text) now (replay acts (storeAfter world.db.log index)) id := by
  cases lawful with
  | nothing => exact absurd rfl some'
  | kick closed =>
      obtain ⟨entry, rest, rfl⟩ := List.exists_cons_of_ne_nil some'
      obtain ⟨id, s, rfl, row, active, mine⟩ := closed entry (by simp)
      refine ⟨id, _, List.mem_cons_self, ?_⟩
      rw [replay_cons]
      refine replay_marked ?_ ⟨SessionOp.run _ (.finish .kicked) s, ?_, mine, rfl, rfl⟩
      · intro other member
        obtain ⟨key, _, same, _⟩ := closed other (List.mem_cons_of_mem _ member)
        exact ⟨key, same⟩
      · have row' : storeAfter world.db.log index .sessions id = some s := row
        rw [alter_same, row']
        rfl

end Marks

section Runs
variable {config : Config} {pool : ServerPool} {thread id : Nat} {mac : Text} {now : Int}
  {kick : KickSteps}

theorem mark_stays {world : World} (legit : Legit config world)
    (seamless : Seamless config world mac kick) {first last : Nat} (ordered : first ≤ last)
    (bound : last ≤ world.db.log.length)
    (marked : Marked mac now (storeAfter world.db.log first) id) :
    Marked mac now (storeAfter world.db.log last) id := by
  refine log_stretch legit (fun commits => Marked mac now (storeAfter world.db.log commits) id)
    ordered bound marked ?_
  rintro index holder acts call _ _ found _ lawful next ⟨s, present, mine, kicked, ended⟩
  have untouched : replay acts (storeAfter world.db.log index) .sessions id =
      storeAfter world.db.log index .sessions id := by
    apply RowLock.replay_untouched
    rintro entry member ⟨table, same⟩
    obtain ⟨_, now', rfl⟩ := closed_writes lawful present (by simp [kicked]) entry member
      table.symm same.symm
    exact seamless.keeps index holder acts id now' s found member present mine kicked
  exact ⟨s, by rw [next, untouched, present], mine, kicked, ended⟩

theorem passed_late {world : World} (ready : Ready world) (timeline : Timeline world)
    {check : Event} {seconds : Nat} (member : check ∈ world.hist)
    (passed : check.Passed mac seconds)
    (marked : Marked mac now (storeAfter world.db.log check.commits) id) :
    now + 1000 * seconds ≤ check.time := by
  obtain ⟨holder, time, commits, view, rfl⟩ := passed
  have truthful := ready.truthful _ member
  have past := timeline.past _ member
  have answered : false = (Query.recentKick mac seconds).eval view := truthful.answered
  have rows : view.rows = storeAfter world.db.log commits := truthful.rows
  obtain ⟨s, present, mine, kicked, ended⟩ := marked
  rw [← rows] at present
  have listed : id < view.next .sessions := past.listed .sessions id (by rw [present]; rfl)
  have expired : ¬ view.now - 1000 * seconds < now := by
    intro recent
    have seen : (id, s) ∈ view.scan .sessions (kickedSince mac (view.now - 1000 * seconds)) :=
      mem_scan.mpr ⟨listed, present, by simp [kickedSince, mine, kicked, ended, recent]⟩
    simp only [Query.eval, Bool.false_eq, Bool.not_eq_eq_eq_not, Bool.not_false,
      List.isEmpty_iff] at answered
    rw [answered] at seen
    cases seen
  have behind : view.now ≤ time := past.now
  have late : now ≤ view.now - 1000 * (seconds : Int) := not_lt.mp expired
  show now + 1000 * (seconds : Int) ≤ time
  linarith

theorem auth_late (reached : Reached config pool) {actor : AuthUser} {text : Text}
    (called : pool.state.arrivals[thread]? = some (.kick actor text))
    (kicked : Kicked pool.state thread (toLowerCase text) kick)
    (seamless : Seamless config pool.state (toLowerCase text) kick) {index : Nat} {event : Event}
    (after : kick.deauthAt < index) (found : pool.state.hist[index]? = some event)
    (auths : event.Auths (toLowerCase text)) :
    kick.audit.time + 1000 * config.kickCooldownSeconds ≤ event.time := by
  have legit := reached_legit reached
  have ready := reached_ready reached
  have timeline := reached_timeline reached
  obtain ⟨minutes, command⟩ := auths
  obtain ⟨_, _, _, _, check, taken, same, passed⟩ :=
    legit.auths index event found _ minutes command
  obtain ⟨before, taken⟩ := List.mem_iff_getElem?.mp taken
  rw [List.getElem?_take, Option.ite_none_right_eq_some] at taken
  obtain ⟨earlier, checked⟩ := taken
  have member := List.mem_of_getElem? checked
  -- the SELECT comes after the COMMIT, so it sees the mark
  have beyond : kick.commitAt < before := by
    rcases Nat.lt_trichotomy before kick.commitAt with low | here | high
    · exact absurd ⟨minutes, command⟩
        (seamless.apart before index check event low after checked found same passed)
    · subst here
      obtain ⟨_, _, _, commits⟩ := kicked.commits
      obtain ⟨_, _, _, _, selects⟩ := passed
      rw [kicked.commit, Option.some.injEq, commits, selects] at checked
      cases checked
    · exact high
  obtain ⟨time, commits, view, commit⟩ := kicked.commits
  have order := history_order timeline beyond kicked.commit checked
  have committed := order.closed
    ⟨thread, _, time, commits, kick.acts, view, .answered, commit, seamless.marks⟩
  obtain ⟨call, called', lawful⟩ := block_lawful legit kicked.block
  rw [called, Option.some.injEq] at called'
  subst called'
  obtain ⟨id, now, writes, marked⟩ := kick_marks lawful seamless.marks
  have next : storeAfter pool.state.db.log (kick.commit.commits + 1) =
      replay kick.acts (storeAfter pool.state.db.log kick.commit.commits) :=
    storeAfter_succ _ _ _ kicked.block
  rw [← next] at marked
  have still := mark_stays legit seamless committed (ready.truthful check member).bound marked
  have expired := passed_late ready timeline member passed still
  exact Int.le_trans (seamless.waits check member passed id now writes expired)
    (history_order timeline earlier checked found).time

theorem answered_kicked (reached : Reached config pool) {actor : AuthUser} {text : Text}
    {reply : Reply} (called : pool.state.arrivals[thread]? = some (.kick actor text))
    (answered : pool.threads[thread]? = some (some (.done reply))) :
    ∃ kick, Kicked pool.state thread (toLowerCase text) kick := by
  have outcome : KickOutcome text thread (.ok reply) pool.state :=
    answered_outcome reached called answered
  obtain ⟨before, deauth, between, commit, after, audit, rest, acts, hist, deauths, commits, audits,
    block⟩ := outcome
  have place : ∀ (front tail : List Event) (event : Event),
      (front ++ event :: tail)[front.length]? = some event := by simp
  refine ⟨⟨before.length, (before ++ deauth :: between).length,
    (before ++ deauth :: (between ++ commit :: after)).length, deauth, commit, audit, acts⟩,
    ⟨?_, ?_⟩, ?_, ?_, ?_, deauths, commits, audits, block⟩
  · simp only [List.length_append, List.length_cons]
    omega
  · simp only [List.length_append, List.length_cons]
    omega
  · rw [hist]
    exact place before _ deauth
  · have split : pool.state.hist = (before ++ deauth :: between) ++
        commit :: (after ++ audit :: rest) := by simp [hist]
    rw [split]
    exact place _ _ commit
  · have split : pool.state.hist = (before ++ deauth :: (between ++ commit :: after)) ++
        audit :: rest := by simp [hist]
    rw [split]
    exact place _ _ audit

theorem kicked_offline (reached : Reached config pool) {actor : AuthUser} {text : Text}
    (called : pool.state.arrivals[thread]? = some (.kick actor text))
    (kicked : Kicked pool.state thread (toLowerCase text) kick)
    (seamless : Seamless config pool.state (toLowerCase text) kick)
    (within : pool.state.clock < kick.audit.time + 1000 * config.kickCooldownSeconds) :
    isAuthed (toLowerCase text) pool.state.clients = false := by
  by_contra online
  rw [Bool.not_eq_false] at online
  obtain ⟨index, event, found, auths, since⟩ := reached_authorised reached _ online
  rcases Nat.lt_trichotomy index kick.deauthAt with low | here | high
  · obtain ⟨authed, held⟩ := since kick.deauthAt kick.deauth low kicked.deauth
    rcases seamless.deauthed with carried | offline
    · exact held carried
    · rw [authed] at offline
      cases offline
  · subst here
    obtain ⟨minutes, command⟩ := auths
    obtain ⟨_, _, _, _, _, same⟩ := kicked.deauths
    rw [kicked.deauth, Option.some.injEq] at found
    subst found
    rw [same] at command
    cases command
  · have late := auth_late reached called kicked seamless high found auths
    have past := ((reached_timeline reached).past event (List.mem_of_getElem? found)).time
    exact absurd within (not_lt.mpr (Int.le_trans late past))

/-- In every run in which nothing falls between the steps of a kick and those
that rely on them, every kick that answered sticks. -/
theorem kick_sticks (config : Config) (pool : ServerPool) (reached : Reached config pool)
    (apart : NothingSlips config pool.state) : Sticks config pool := by
  intro thread actor mac reply called answered
  obtain ⟨kick, kicked⟩ := answered_kicked reached called answered
  have seamless := apart thread (toLowerCase mac) kick kicked
  refine ⟨kick, kicked, ?_, kicked_offline reached called kicked seamless⟩
  intro index event later found auths
  have past : kick.deauthAt < index :=
    Nat.lt_trans (Nat.lt_trans kicked.ordered.1 kicked.ordered.2) later
  exact auth_late reached called kicked seamless past found auths

end Runs
def deauthFailed (event : Event) : Bool :=
  match event with
  | ⟨_, .ndsctl (.deauth _), .error _, _, _, _, _⟩ => true
  | _ => false

/-- The act ends a session, or closes it after the clock has moved. -/
def closesOtherwise (entry : Entry) : Bool :=
  match entry with
  | ⟨.sessions, _, .update (.finish status) now⟩ => status == .ended || now != 0
  | _ => false

/-- The phone goes online, is kicked, and tries again at once. -/
def kickedAway : List (Move Choice Call Ambient) :=
  arrival ++ [.start (.connect guest phone)] ++ steps 2 10 ++ [.start (.kick staff phoneMac)] ++
    steps 3 9 ++ [.start (.connect guest phone)] ++ steps 4 1

theorem kick_sticks_refused : ∃ pool, Reached shop pool ∧ Sticks shop pool ∧
    pool.threads[3]? = some (some (.done .ok)) ∧
    pool.threads[4]? = some (some (.raise (.forbidden
      "This device was disconnected by staff — please ask at the counter"))) := by
  obtain ⟨pool, reached, _, seen⟩ := play_shows shop kickedAway
    (fun pool => answerOf pool 3 == some (.ok .ok) && answerOf pool 4 == some (.error (.forbidden
        "This device was disconnected by staff — please ask at the counter")) &&
      !(pool.state.hist.take 22).any deauths && !(pool.state.hist.drop 22).any auths &&
      !pool.state.hist.any deauthFailed && pool.state.hist.all (·.time == 0) &&
      !pool.state.db.log.any (·.2.isEmpty) &&
      !pool.state.db.log.any (·.2.any closesOtherwise))
    true (by decide +kernel)
  simp only [Bool.and_eq_true, beq_iff_eq, Bool.not_eq_true', List.any_eq_false,
    List.all_eq_true] at seen
  obtain ⟨⟨⟨⟨⟨⟨⟨kick, connect⟩, early⟩, late⟩, carried⟩, still⟩, written⟩, closes⟩ := seen
  have acted : ∀ {index thread : Nat} {acts : List Entry},
      pool.state.db.log[index]? = some (thread, acts) → ∀ entry ∈ acts,
        closesOtherwise entry ≠ true := by
    intro index thread acts block
    simpa using closes _ (List.mem_of_getElem? block)
  refine ⟨pool, reached, kick_sticks shop pool reached ?_, answerOf_ok kick, answerOf_error connect⟩
  intro thread mac kick kicked
  refine ⟨?_, ?_, ?_, ?_, ?_⟩
  · left
    have member := List.mem_of_getElem? kicked.deauth
    obtain ⟨answer, time, commits, pending, view, same⟩ := kicked.deauths
    cases answer with
    | ok value => exact ⟨thread, time, commits, pending, view, same⟩
    | error error => exact absurd rfl (carried _ (same ▸ member))
  · simpa using written _ (List.mem_of_getElem? kicked.block)
  · rintro _ after _ auth _ beyond _ found _ _ ⟨minutes, command⟩
    have first : 22 ≤ kick.deauthAt := by
      by_contra below
      obtain ⟨_, _, _, _, _, same⟩ := kicked.deauths
      have listed : kick.deauth ∈ pool.state.hist.take 22 := by
        refine List.mem_of_getElem? (i := kick.deauthAt) ?_
        rw [List.getElem?_take, if_pos (Nat.lt_of_not_le below), kicked.deauth]
      exact early _ listed (by rw [same]; rfl)
    have listed : auth ∈ pool.state.hist.drop 22 := by
      refine List.mem_of_getElem? (i := after - 22) ?_
      rw [List.getElem?_drop, Nat.add_sub_of_le (Nat.le_of_lt (Nat.lt_of_le_of_lt first beyond)),
        found]
    exact late _ listed (by simp [auths, command])
  · intro index holder acts id now s block ends
    exact absurd rfl (acted block _ ends)
  · intro check member _ id now marks elapsed
    have start : now = 0 := by simpa [closesOtherwise, alter] using acted kicked.block _ marks
    rw [start, still check member] at elapsed
    exact absurd elapsed (by decide)

/-- The kick falls between the COMMIT of a connect and its `ndsctl auth`. -/
def kickOutrun : List (Move Choice Call Ambient) :=
  arrival ++ [.start (.connect guest phone)] ++ steps 2 8 ++ [.start (.kick staff phoneMac)] ++
    steps 3 9 ++ steps 2 1

/-- The kick has answered, its session is marked, and the phone is online. -/
theorem kick_outrun : ∃ pool, Reached shop pool ∧
    pool.state.arrivals[3]? = some (.kick staff phoneMac) ∧
    pool.threads[3]? = some (some (.done .ok)) ∧
    (pool.state.db.store .sessions 1).map SessionRow.status = some .kicked ∧
    isAuthed phoneMac pool.state.clients = true ∧ pool.state.clock = 0 ∧ ¬ Sticks shop pool := by
  obtain ⟨pool, reached, arrivals, seen⟩ := play_shows shop kickOutrun
    (fun pool => answerOf pool 3 == some (.ok .ok) &&
      (pool.state.db.store .sessions 1).map SessionRow.status == some .kicked &&
      isAuthed phoneMac pool.state.clients && pool.state.clock == 0 &&
      pool.state.hist.all (·.time == 0)) true (by decide +kernel)
  simp only [Bool.and_eq_true, beq_iff_eq, List.all_eq_true] at seen
  obtain ⟨⟨⟨⟨answer, status⟩, online⟩, clock⟩, still⟩ := seen
  have called : pool.state.arrivals[3]? = some (.kick staff phoneMac) := by
    rw [arrivals]
    rfl
  refine ⟨pool, reached, called, answerOf_ok answer, status, online, clock, ?_⟩
  intro sticks
  obtain ⟨kick, kicked, calm⟩ := sticks 3 staff phoneMac .ok called (answerOf_ok answer)
  have returned := still _ (List.mem_of_getElem? kicked.audit)
  have offline := calm.offline (by rw [clock, returned]; decide)
  rw [show toLowerCase phoneMac = phoneMac by decide, online] at offline
  cases offline

end Cybera
