import Cybera.History

/-!
The order of the recorded steps: time and commits only grow along the history,
and a client that OpenNDS holds authenticated has been so since an `ndsctl auth`.
-/

namespace Cybera

open Interleaving

/-- A COMMIT of a transaction that wrote something. -/
def Event.Closes (event : Event) : Prop :=
  ∃ thread answer time commits acts view, Landed answer ∧
    event = ⟨thread, .commit, answer, time, commits, acts, view⟩ ∧ acts ≠ []

/-- An `ndsctl deauth` of the client that OpenNDS carried out. -/
def Event.Deauthed (event : Event) (mac : Text) : Prop :=
  ∃ thread time commits pending view,
    event = ⟨thread, .ndsctl (.deauth mac), .ok (), time, commits, pending, view⟩

def Event.Auths (event : Event) (mac : Text) : Prop :=
  ∃ minutes, event.cmd = .ndsctl (.auth mac minutes)

/-- What an event records, seen from a later state. -/
structure Event.Past (world : World) (event : Event) : Prop where
  time : event.time ≤ world.clock
  now : event.view.now ≤ event.time
  commits : event.commits ≤ world.db.log.length
  closed : event.Closes → event.commits < world.db.log.length
  listed : ∀ table id, (event.view.rows table id).isSome → id < event.view.next table

/-- What an event records, seen from a later event. -/
structure Event.Before (earlier later : Event) : Prop where
  time : earlier.time ≤ later.time
  commits : earlier.commits ≤ later.commits
  closed : earlier.Closes → earlier.commits < later.commits

structure Timeline (world : World) : Prop where
  ordered : world.hist.Pairwise Event.Before
  past : ∀ event ∈ world.hist, event.Past world
  began : ∀ thread txn, world.db.txns thread = some txn → txn.began ≤ world.clock

/-- An authenticated client was authenticated by the services, and no deauth
has taken that back. -/
def Authorised (world : World) : Prop :=
  ∀ mac, isAuthed mac world.clients = true →
    ∃ (index : Nat) (event : Event), world.hist[index]? = some event ∧ event.Auths mac ∧
      ∀ (later : Nat) (event' : Event), index < later → world.hist[later]? = some event' →
        isAuthed mac event'.view.clients = true ∧ ¬ event'.Deauthed mac

section Steps
variable {thread other : Nat} {now : Time} {db reached : Database} {world after : World}
  {choice : Choice}

theorem dbStep_began {bound : Time} (began : ∀ thread txn, db.txns thread = some txn →
    txn.began ≤ bound) (step : DbStep other bound db reached) :
    ∀ thread txn, reached.txns thread = some txn → txn.began ≤ bound := by
  have written : ∀ {before : Database} {entry : Entry},
      (∀ thread txn, before.txns thread = some txn → txn.began ≤ bound) →
      before.write Act.run other entry = some reached →
      ∀ thread txn, reached.txns thread = some txn → txn.began ≤ bound := by
    intro before entry began' granted holder txn present
    by_cases same : holder = other
    · subst same
      obtain ⟨held, earlier, acquired, opened, rfl⟩ := RowLock.write_cases granted
      rw [(RowLock.acquire_same acquired).1] at opened
      simp only [Function.update_self, Option.some.injEq] at present
      subst present
      exact began' holder earlier opened
    · rw [(RowLock.write_undisturbed same granted).txn] at present
      exact began' holder txn present
  cases step with
  | same => exact began
  | opened =>
      intro holder txn present
      rcases RowLock.begin_txns present with earlier | ⟨_, rfl⟩
      · exact began holder txn earlier
      · exact Int.le_refl _
  | committed =>
      exact fun holder txn present => began holder txn (RowLock.commit_txns present).2
  | undone =>
      exact fun holder txn present => began holder txn (RowLock.rollback_txns present).2
  | locked table id granted =>
      rw [(RowLock.acquire_same granted).1]
      exact began
  | wrote entry kept granted => exact written began granted
  | inserted table row granted =>
      have began' : ∀ thread txn, (db.reserve table).txns thread = some txn →
          txn.began ≤ bound := began
      exact written began' granted

theorem commit_grows {answer : Except Failure Unit}
    (executed : world.exec thread .commit choice = some (answer, after)) (landed : Landed answer)
    (wrote : world.pendingActs thread ≠ []) : world.db.log.length < after.db.log.length := by
  have db : after.db = world.db.commit thread := by
    rcases commit_db executed with ⟨_, db⟩ | ⟨rfl, _⟩
    · exact db
    · cases landed
  rw [db]
  unfold World.pendingActs at wrote
  split at wrote
  · rename_i txn opened
    simp [RowLock.State.commit, opened]
  · exact absurd rfl wrote

theorem eventOf_past (ready : Ready world)
    (began : ∀ thread txn, world.db.txns thread = some txn → txn.began ≤ world.clock)
    {cmd : Cmd} {answer : Except Failure (Res cmd)}
    (executed : world.exec thread cmd choice = some (answer, after)) :
    (world.eventOf thread cmd choice answer).Past after := by
  obtain ⟨clock, _, _, step⟩ := exec_cases executed
  have ahead : world.clock ≤ world.clock + choice.elapsed :=
    Int.le_add_of_nonneg_right (Int.natCast_nonneg _)
  refine ⟨Int.le_of_eq clock.symm, ?_, (dbStep_log step).length_le, ?_, ?_⟩
  · simp only [World.eventOf, World.view]
    split
    · rename_i txn opened
      exact Int.le_trans (began thread txn opened) ahead
    · exact Int.le_refl _
  · rintro ⟨_, _, _, _, acts, _, landed, same, wrote⟩
    simp only [World.eventOf, Event.mk.injEq] at same
    obtain ⟨-, rfl, answered, -, -, rfl, -⟩ := same
    cases eq_of_heq answered
    exact commit_grows executed landed wrote
  · intro table id present
    exact RowLock.view_bound ready.sound present

theorem Event.Past.later {event : Event} (past : event.Past world)
    (clock : world.clock ≤ after.clock) (log : world.db.log <+: after.db.log) :
    event.Past after where
  time := Int.le_trans past.time clock
  now := past.now
  commits := Nat.le_trans past.commits log.length_le
  closed closes := Nat.lt_of_lt_of_le (past.closed closes) log.length_le
  listed := past.listed

theorem exec_timeline (ready : Ready world) (timeline : Timeline world) {cmd : Cmd}
    {answer : Except Failure (Res cmd)}
    (executed : world.exec thread cmd choice = some (answer, after)) : Timeline after := by
  obtain ⟨clock, _, hist, step⟩ := exec_cases executed
  have ahead : world.clock ≤ world.clock + choice.elapsed :=
    Int.le_add_of_nonneg_right (Int.natCast_nonneg _)
  refine ⟨?_, ?_, ?_⟩
  · rw [hist, List.pairwise_append]
    refine ⟨timeline.ordered, List.pairwise_singleton _ _, ?_⟩
    intro event member latest same
    rw [List.mem_singleton] at same
    subst same
    have past := timeline.past event member
    exact ⟨Int.le_trans past.time ahead, past.commits, past.closed⟩
  · intro event member
    rw [hist] at member
    rcases List.mem_append.mp member with earlier | latest
    · exact (timeline.past event earlier).later (clock ▸ ahead) (dbStep_log step)
    · rw [List.mem_singleton] at latest
      subst latest
      exact eventOf_past ready timeline.began executed
  · rw [clock]
    exact dbStep_began (fun thread txn opened =>
      Int.le_trans (timeline.began thread txn opened) ahead) step

end Steps

theorem reached_timeline {config : Config} {pool : ServerPool} (reached : Reached config pool) :
    Timeline pool.state := by
  refine reachable_state (server config) Timeline ?_ ?_ ?_ ?_ ?_ reached
  · exact ⟨by simp [World.initial], by simp [World.initial],
      by simp [World.initial, emptyDatabase]⟩
  · intro call world timeline
    exact ⟨timeline.ordered, fun event member =>
      (timeline.past event member).later (Int.le_refl _) (List.prefix_refl _), timeline.began⟩
  · intro pool thread cmd choice answer after reached timeline executed
    exact exec_timeline (reached_ready reached) timeline executed
  · intro thread world timeline
    have step : DbStep thread world.clock world.db (world.crash thread).db := .undone
    exact ⟨timeline.ordered, fun event member =>
      (timeline.past event member).later (Int.le_refl _) (List.prefix_refl _),
      dbStep_began timeline.began step⟩
  · intro event world after timeline happened
    obtain ⟨db, clock, _, hist⟩ := ambient_cases happened
    refine ⟨hist ▸ timeline.ordered, ?_, ?_⟩
    · intro event member
      rw [hist] at member
      exact (timeline.past event member).later clock (db ▸ List.prefix_refl _)
    · intro thread txn opened
      rw [db] at opened
      exact Int.le_trans (timeline.began thread txn opened) clock

theorem history_order {world : World} (timeline : Timeline world) {first second : Nat}
    {earlier later : Event} (ordered : first < second) (found : world.hist[first]? = some earlier)
    (found' : world.hist[second]? = some later) : earlier.Before later := by
  obtain ⟨bound, rfl⟩ := List.getElem?_eq_some_iff.mp found
  obtain ⟨bound', rfl⟩ := List.getElem?_eq_some_iff.mp found'
  exact List.pairwise_iff_getElem.mp timeline.ordered first second bound bound' ordered

theorem commits_order {world : World} (timeline : Timeline world) {first second : Nat}
    {earlier later : Event} (found : world.hist[first]? = some earlier)
    (found' : world.hist[second]? = some later) (fewer : earlier.commits < later.commits) :
    first < second := by
  rcases Nat.lt_trichotomy first second with before | rfl | after
  · exact before
  · rw [found, Option.some.injEq] at found'
    exact absurd (found' ▸ fewer) (Nat.lt_irrefl _)
  · exact absurd fewer (Nat.not_lt.mpr (history_order timeline after found' found).commits)

/-! Who is authenticated. -/
section Clients
variable {mac other : Text} {clients : NdsClients}

theorem macOr_state (client : NdsClient) (state : Option Text) (key : Text) :
    NdsClient.macOr { client with state } key = client.macOr key := rfl

theorem setState_other (state : Text) (different : mac ≠ other) :
    isAuthed mac (setState other state clients) = isAuthed mac clients := by
  induction clients with
  | nil => rfl
  | cons entry rest ih =>
      obtain ⟨key, client⟩ := entry
      simp only [isAuthed, setState, List.map_cons, List.any_cons] at ih ⊢
      rw [ih]
      congr 1
      split
      · rename_i hit
        have miss : (other == mac) = false := by simpa using Ne.symm different
        simp [macOr_state, hit, miss]
      · rfl

theorem setState_preauthenticated :
    isAuthed mac (setState mac preauthenticated clients) = false := by
  have plain : ∀ client : NdsClient,
      NdsClient.authed { client with state := some preauthenticated } = false := by
    intro client
    rw [NdsClient.authed, Option.getD_some]
    decide +revert
  induction clients with
  | nil => rfl
  | cons entry rest ih =>
      obtain ⟨key, client⟩ := entry
      simp only [isAuthed, setState, List.map_cons, List.any_cons, Bool.or_eq_false_iff] at ih ⊢
      refine ⟨?_, ih⟩
      split
      · simp [plain]
      · rename_i miss
        simp [miss]

theorem ndsctl_authed {command : NdsCommand}
    (online : isAuthed mac (command.run clients).2 = true) :
    isAuthed mac clients = true ∨ ∃ minutes, command = .auth mac minutes := by
  cases command with
  | auth key minutes =>
      by_cases same : mac = key
      · exact Or.inr ⟨minutes, by rw [same]⟩
      · left
        simp only [NdsCommand.run] at online
        split at online
        · rwa [setState_other _ same] at online
        · exact online
  | deauth key =>
      left
      simp only [NdsCommand.run] at online
      split at online
      · by_cases same : mac = key
        · simp [same, setState_preauthenticated] at online
        · rwa [setState_other _ same] at online
      · exact online
  | json => exact Or.inl online
  | flushConntrack ip => exact Or.inl online

theorem deauth_offline (answered : ((NdsCommand.deauth mac).run clients).1 = .ok ()) :
    isAuthed mac ((NdsCommand.deauth mac).run clients).2 = false := by
  simp only [NdsCommand.run] at answered ⊢
  split
  · exact setState_preauthenticated
  · rename_i unknown
    simp [unknown] at answered

theorem ambient_authed {world after : World} {event : Ambient}
    (happened : world.ambient event = some after) (online : isAuthed mac after.clients = true) :
    isAuthed mac world.clients = true := by
  cases event with
  | elapse milliseconds =>
      cases happened
      exact online
  | clients moved =>
      simp only [World.ambient] at happened
      split at happened
      · rename_i known
        cases happened
        simp only [isAuthed, List.any_eq_true, Bool.and_eq_true, beq_iff_eq] at online
        obtain ⟨entry, member, same, authed⟩ := online
        have before := List.all_eq_true.mp known entry member
        simpa [authed, same] using before
      · cases happened

end Clients

section Authorised
variable {thread : Nat} {world after : World} {choice : Choice}

/-- A step after which a client is authenticated that was not before is its
`ndsctl auth`; an answered deauth leaves it out. -/
theorem exec_authed {cmd : Cmd} {answer : Except Failure (Res cmd)} {mac : Text}
    (executed : world.exec thread cmd choice = some (answer, after))
    (online : isAuthed mac after.clients = true) :
    (world.eventOf thread cmd choice answer).Auths mac ∨
      (isAuthed mac world.clients = true ∧
        ¬ (world.eventOf thread cmd choice answer).Deauthed mac) := by
  by_cases deauthed : (world.eventOf thread cmd choice answer).Deauthed mac
  · obtain ⟨_, _, _, _, _, same⟩ := deauthed
    simp only [World.eventOf, Event.mk.injEq] at same
    obtain ⟨-, rfl, answered, -⟩ := same
    cases eq_of_heq answered
    obtain ⟨reached, ran, _, clients⟩ := exec_ok executed
    simp only [World.succeeded, Option.some.injEq, Prod.mk.injEq] at ran
    obtain ⟨answered, rfl⟩ := ran
    rw [clients] at online
    exact absurd (deauth_offline answered) (by simpa using online)
  · rcases exec_clients executed with same | ⟨command, rfl, clients⟩
    · exact Or.inr ⟨same ▸ online, deauthed⟩
    · rw [clients] at online
      rcases ndsctl_authed online with before | ⟨minutes, rfl⟩
      · exact Or.inr ⟨before, deauthed⟩
      · exact Or.inl ⟨minutes, rfl⟩

theorem exec_authorised (authorised : Authorised world) {cmd : Cmd}
    {answer : Except Failure (Res cmd)}
    (executed : world.exec thread cmd choice = some (answer, after)) : Authorised after := by
  obtain ⟨_, _, hist, _⟩ := exec_cases executed
  intro mac online
  rw [hist]
  rcases exec_authed executed online with auths | ⟨before, kept⟩
  · refine ⟨world.hist.length, _, List.getElem?_concat_length, auths, ?_⟩
    intro later event' beyond found
    have bound := (List.getElem?_eq_some_iff.mp found).1
    simp only [List.length_append, List.length_singleton] at bound
    omega
  · obtain ⟨index, event, found, auths, since⟩ := authorised mac before
    refine ⟨index, event, prefix_getElem? (List.prefix_append _ _) found, auths, ?_⟩
    intro later event' beyond found'
    by_cases old : later < world.hist.length
    · rw [List.getElem?_append_left old] at found'
      exact since later event' beyond found'
    · have last : later = world.hist.length := by
        have bound := (List.getElem?_eq_some_iff.mp found').1
        simp only [List.length_append, List.length_singleton] at bound
        omega
      rw [last, List.getElem?_concat_length, Option.some.injEq] at found'
      subst found'
      exact ⟨before, kept⟩

theorem reached_authorised {config : Config} {pool : ServerPool} (reached : Reached config pool) :
    Authorised pool.state := by
  refine reachable_state (server config) Authorised ?_ ?_ ?_ ?_ ?_ reached
  · intro mac online
    simp [World.initial, isAuthed] at online
  · exact fun call world authorised => authorised
  · intro pool thread cmd choice answer after _ authorised executed
    exact exec_authorised authorised executed
  · exact fun thread world authorised => authorised
  · intro event world after authorised happened mac online
    obtain ⟨_, _, _, hist⟩ := ambient_cases happened
    rw [hist]
    exact authorised mac (ambient_authed happened online)

end Authorised
end Cybera
