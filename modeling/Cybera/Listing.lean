import Cybera.Decisions

/-!
What the pending list showed and what an approval credits. The approval goes by
the row it locks and the plan it found; it credits what an earlier list showed as long
as nobody has replaced the request or set the duration of its plan in between.
-/

namespace Cybera

open Interleaving

/-- The minutes that a line of the list shows. -/
def PendingItem.minutes (item : PendingItem) : Nat := requestMinutes item.request item.plan

/-- No block from `first` to `last` replaces the request or sets its plan's duration. -/
def LeftAlone (world : World) (id : Nat) (planId : Option Nat) (first last : Nat) : Prop :=
  ∀ index, first ≤ index → index < last → ∀ thread acts,
    world.db.log[index]? = some (thread, acts) →
      (∀ source now, alter .planRequests id (.replace source) now ∉ acts) ∧
      ∀ plan ∈ planId, ∀ (edit : PlanEdit) now, alter .plans plan edit now ∈ acts →
        edit.durationMinutes = none

theorem leftAlone_within {world : World} {id low high first last : Nat} {planId : Option Nat}
    (alone : LeftAlone world id planId first last) (lower : first ≤ low) (upper : high ≤ last) :
    LeftAlone world id planId low high :=
  fun index after before => alone index (Nat.le_trans lower after) (Nat.lt_of_lt_of_le before upper)

theorem listed_row {view : View} {item : PendingItem}
    (listed : item ∈ Query.eval view .listPending) :
    view.rows .planRequests item.id = some item.request ∧
      item.plan = planAt view.rows item.request := by
  simp only [Query.eval, List.mem_insertionSort, List.mem_filterMap, Prod.exists] at listed
  obtain ⟨id, request, scanned, line⟩ := listed
  obtain ⟨_, present, _⟩ := mem_scan.mp scanned
  split at line
  · cases line
    exact ⟨present, rfl⟩
  · cases line

section Plans
variable {config : Config} {world : World} {index thread : Nat} {call : Call} {acts : List Entry}

theorem plan_block (lawful : Lawful config (world.basisAt index) thread call acts) {id : Nat}
    {plan : PlanRow} (present : storeAfter world.db.log index .plans id = some plan) :
    (∃ after : PlanRow, replay acts (storeAfter world.db.log index) .plans id = some after ∧
        after.durationMinutes = plan.durationMinutes) ∨
      (∃ edit : PlanEdit, ∃ now, alter .plans id edit now ∈ acts ∧ edit.durationMinutes ≠ none) ∨
      replay acts (storeAfter world.db.log index) .plans id = none := by
  have edited : ∀ (edit : PlanEdit) (now : Time), edit.durationMinutes = none →
      ∃ after : PlanRow, replay [alter .plans id edit now] (storeAfter world.db.log index)
        .plans id = some after ∧ after.durationMinutes = plan.durationMinutes := by
    intro edit now unset
    refine ⟨PlanEdit.run edit plan, by simp [present, Op.run], ?_⟩
    simp [PlanEdit.run, unset]
  by_cases touched : TableName.plans ∈ call.tables
  · cases lawful with
    | nothing => exact Or.inl ⟨plan, present, rfl⟩
    | @createPlan actor dto key fresh =>
        have absent : storeAfter world.db.log index .plans key = none := fresh
        have different : id ≠ key := by
          rintro rfl
          simp [present] at absent
        exact Or.inl ⟨plan, by simp [different, present], rfl⟩
    | @updatePlan actor key edit now =>
        by_cases same : id = key
        · subst same
          by_cases unset : edit.durationMinutes = none
          · exact Or.inl (edited edit now unset)
          · exact Or.inr (Or.inl ⟨edit, now, by simp, unset⟩)
        · exact Or.inl ⟨plan, by simp [same, present], rfl⟩
    | @deactivatePlan actor key now =>
        by_cases same : id = key
        · subst same
          exact Or.inl (edited deactivate now rfl)
        · exact Or.inl ⟨plan, by simp [same, present], rfl⟩
    | @deletePlan actor key =>
        by_cases same : id = key
        · subst same
          exact Or.inr (Or.inr (by simp))
        · exact Or.inl ⟨plan, by simp [same, present], rfl⟩
    | _ => simp [Call.tables] at touched
  · exact Or.inl ⟨plan, (untouched_table lawful touched _ _).trans present, rfl⟩

end Plans

section Kept
variable {config : Config} {pool : ServerPool}

theorem minutes_kept (reached : Reached config pool) {id first last : Nat} {r : PlanRequestRow}
    (ordered : first ≤ last) (bound : last ≤ pool.state.db.log.length)
    (present : storeAfter pool.state.db.log first .planRequests id = some r)
    (alone : LeftAlone pool.state id r.source.planId first last) :
    ∃ after : PlanRequestRow, storeAfter pool.state.db.log last .planRequests id = some after ∧
      after.source = r.source ∧
      requestMinutes after (planAt (storeAfter pool.state.db.log last) after) =
        requestMinutes r (planAt (storeAfter pool.state.db.log first) r) := by
  refine log_stretch (reached_legit reached) (fun commits =>
    ∃ after : PlanRequestRow, storeAfter pool.state.db.log commits .planRequests id = some after ∧
      after.source = r.source ∧
      requestMinutes after (planAt (storeAfter pool.state.db.log commits) after) =
        requestMinutes r (planAt (storeAfter pool.state.db.log first) r))
    ordered bound ⟨r, present, rfl, rfl⟩ ?_
  rintro index thread acts call low high block _ lawful next ⟨before, row, source, minutes⟩
  obtain ⟨unreplaced, unset⟩ := alone index low high thread acts block
  -- the row keeps its source
  have kept : ∃ after : PlanRequestRow,
      storeAfter pool.state.db.log (index + 1) .planRequests id = some after ∧
        after.source = before.source := by
    rw [next]
    cases request_block lawful id with
    | kept same => exact ⟨before, same.trans row, rfl⟩
    | made given absent after => simp [row] at absent
    | replaced given row' asked earlier after =>
        exact absurd (List.mem_singleton_self _) (unreplaced _ _)
    | decided row' pending after =>
        rw [row, Option.some.injEq] at row'
        subst row'
        exact ⟨_, after, rfl⟩
  obtain ⟨after, row', source'⟩ := kept
  refine ⟨after, row', source'.trans source, Eq.trans ?_ minutes⟩
  unfold requestMinutes planAt
  rw [source']
  cases refers : before.source.planId with
  | none => rfl
  | some plan =>
      -- its plan is there before and after, since the foreign key holds
      obtain ⟨old, stood⟩ := Option.isSome_iff_exists.mp
        (reached_resolved reached index (by omega) id before plan row refers)
      have stands := reached_resolved reached (index + 1) (by omega) id after plan row'
        (source' ▸ refers)
      have mine : plan ∈ r.source.planId := by rw [← source, refers]; rfl
      have step := plan_block lawful stood
      rw [← next] at step
      obtain ⟨new, found, duration⟩ | ⟨edit, now, member, set⟩ | gone := step
      · simp [found, stood, duration]
      · exact absurd (unset plan mine edit now member) set
      · simp [gone] at stands

/-- An approving SELECT answers the minutes of a request that was left alone up to its lock. -/
theorem selected_minutes (reached : Reached config pool) {thread id shown read lock : Nat}
    {r listed : PlanRequestRow} {plan : Option PlanRow}
    (selected : SelectedAt pool.state id thread read lock r plan)
    (bound : lock ≤ pool.state.db.log.length) (since : shown ≤ read)
    (present : storeAfter pool.state.db.log shown .planRequests id = some listed)
    (alone : LeftAlone pool.state id listed.source.planId shown lock) :
    creditedMinutes r plan =
      requestMinutes listed (planAt (storeAfter pool.state.db.log shown) listed) := by
  cases selected with
  | @mk found _ _ _ _ _ asked ordered locked before seen =>
    have early : read ≤ pool.state.db.log.length := Nat.le_trans ordered bound
    obtain ⟨first, row, source, minutes⟩ := minutes_kept reached since early present
      (leftAlone_within alone (Nat.le_refl _) ordered)
    rw [before, Option.some.injEq] at row
    subst row
    -- nobody replaced the request while decide waited for its lock
    obtain ⟨last, row, source', _⟩ := minutes_kept reached ordered bound before
      (by rw [source]; exact leftAlone_within alone since (Nat.le_refl _))
    rw [seen, Option.some.injEq] at row
    subst row
    have credited := (creditedMinutes_eq (reached_resolved reached read early) before).1
    rw [rejoined, if_pos (by rw [source']), ← minutes, ← credited, creditedMinutes,
      creditedMinutes, source']

/-- An approval that answered credits sixty times the minutes that its locking SELECT
answered, and so the minutes of every list before since which the request was left
alone; one that threw credits nothing, unless it did not hear that its COMMIT was
carried out. -/
theorem approval_credits_shown (config : Config) (pool : ServerPool)
    (reached : Reached config pool) (thread id : Nat) (actor : AuthUser)
    (called : pool.state.arrivals[thread]? = some (.decide actor id true)) :
    (∀ reply, pool.threads[thread]? = some (some (.done reply)) →
      ∃ r plan read lock, SelectedAt pool.state id thread read lock r plan ∧
        (creditsFor pool.state.db.log (.request id)).map (·.seconds) =
          [60 * creditedMinutes r plan] ∧
        ∀ lister items item, pool.state.arrivals[lister]? = some .listPending →
          pool.threads[lister]? = some (some (.done (.pending items))) →
          item ∈ items → item.id = id →
            ∃ time shown view,
              ⟨lister, .query .listPending, .ok items, time, shown, [], view⟩ ∈ pool.state.hist ∧
              (shown ≤ read →
                LeftAlone pool.state id item.request.source.planId shown lock →
                  creditedMinutes r plan = item.minutes)) ∧
    (∀ error, pool.threads[thread]? = some (some (.raise error)) → ¬ Lost pool.state thread →
      ∀ block ∈ pool.state.db.log, block.1 ≠ thread) := by
  have ready := reached_ready reached
  refine ⟨?_, ?_⟩
  · intro reply answered
    obtain ⟨index, credit, approval, single⟩ := answered_approval reached called answered
    cases approval with
    | @mk actor' r plan account credited now read lock _ block selected earlier =>
      refine ⟨r, plan, read, lock, selected, by rw [single]; rfl, ?_⟩
      intro lister items item called' answered' member same
      obtain ⟨items', time', shown, view', reply', logged⟩ :
          ListOutcome lister (.ok (.pending items)) pool.state :=
        answered_outcome reached called' answered'
      cases reply'
      obtain ⟨showed, _, rows⟩ := ready.truthful _ logged
      replace showed : items = Query.eval view' .listPending := showed
      replace rows : view'.rows = storeAfter pool.state.db.log shown := rows
      obtain ⟨listed, joined⟩ := listed_row (showed ▸ member)
      rw [rows] at listed joined
      rw [same] at listed
      refine ⟨time', shown, view', logged, ?_⟩
      intro since alone
      have bound : lock ≤ pool.state.db.log.length :=
        Nat.le_trans earlier (Nat.le_of_lt (List.getElem?_eq_some_iff.mp block).1)
      rw [selected_minutes reached selected bound since listed alone, PendingItem.minutes, joined]
  · intro error thrown heard
    have withdrawn : pool.state.Withdrawn thread := thrown_outcome reached called thrown
    exact withdrawn_silent withdrawn heard

end Kept

def fullDay : CreateRequestDto where
  planId := none
  minutes := some 1440
  planMin := halfHour.planMin
  minutesRange := by simp

/-- A request for half an hour, and a list that shows it. -/
def listing : List (Move Choice Call Ambient) :=
  opening ++ [.start (.createRequest guest halfHour)] ++ steps 1 5 ++ [.start .listPending] ++
    steps 2 1

/-- The guest asks for a day instead, and the listed id is approved. -/
def overtaking : List (Move Choice Call Ambient) :=
  [.start (.createRequest guest fullDay)] ++ steps 3 5 ++ [.start (.decide staff 1 true)] ++
    steps 4 7

def answeredLines (pool : ServerPool) (thread : Nat) : List (Nat × Nat) :=
  match answerOf pool thread with
  | some (.ok (.pending items)) => items.map fun item => (item.id, item.minutes)
  | _ => []

/-- The list showed 30 minutes for request 1, its approval then credits 1440. -/
theorem listing_overtaken : ∃ listed decided : ServerPool, Reached shop listed ∧
    run (server shop) listed overtaking = some decided ∧
    answeredLines listed 2 = [(1, 30)] ∧ listed.state.arrivals.length = 3 ∧
    decided.state.arrivals[4]? = some (.decide staff 1 true) ∧
    decided.threads[4]? = some (some (.done .ok)) ∧
    (creditsFor decided.state.db.log (.request 1)).map (·.seconds) = [60 * 1440] := by
  obtain ⟨listed, decided, reached, onward, before, after, seen⟩ := plays_show shop listing
    overtaking (fun listed decided => (answeredLines listed 2, answerOf decided 4,
      (creditsFor decided.state.db.log (.request 1)).map (·.seconds)))
    ([(1, 30)], some (.ok .ok), [60 * 1440]) (by decide +kernel)
  obtain ⟨lines, rest⟩ := Prod.mk.inj seen
  obtain ⟨answer, credited⟩ := Prod.mk.inj rest
  exact ⟨listed, decided, reached, onward, lines, by rw [before]; rfl, by rw [after]; rfl,
    answerOf_ok answer, credited⟩

/-- The list, and the approval twice, saw the database after three commits. -/
def sawThree (event : Event) : Bool :=
  match event.cmd with
  | .query .listPending => event.commits == 3
  | .query (.requestWithPlan _) => event.commits == 3
  | .lock .planRequests _ => event.commits == 3
  | _ => true

theorem approval_credits_shown_listed : ∃ pool, Reached shop pool ∧
    answeredLines pool 2 = [(1, 30)] ∧
    (creditsFor pool.state.db.log (.request 1)).map (·.seconds) = [60 * 30] := by
  obtain ⟨pool, reached, arrivals, seen⟩ := play_shows shop
    (listing ++ [.start (.decide staff 1 true)] ++ steps 3 7)
    (fun pool => (answerOf pool 3, answeredLines pool 2, pool.state.hist.all sawThree))
    (some (.ok .ok), [(1, 30)], true) (by decide +kernel)
  obtain ⟨answer, rest⟩ := Prod.mk.inj seen
  obtain ⟨lines, three⟩ := Prod.mk.inj rest
  have at3 := List.all_eq_true.mp three
  obtain ⟨r, plan, read, lock, selected, credited, lists⟩ :=
    (approval_credits_shown shop pool reached 3 1 staff (by rw [arrivals]; rfl)).1 _
      (answerOf_ok answer)
  obtain ⟨rfl, rfl⟩ : read = 3 ∧ lock = 3 := by
    cases selected with
    | mk asked ordered locked =>
        exact ⟨by simpa [sawThree] using at3 _ asked, by simpa [sawThree] using at3 _ locked⟩
  refine ⟨pool, reached, lines, ?_⟩
  unfold answeredLines at lines
  split at lines
  · rename_i items listed
    have line : (1, 30) ∈ items.map fun item => (item.id, item.minutes) := by simp [lines]
    obtain ⟨item, member, same⟩ := List.mem_map.mp line
    obtain ⟨id, shown⟩ := Prod.mk.inj same
    obtain ⟨_, first, _, logged, agrees⟩ :=
      lists 2 items item (by rw [arrivals]; rfl) (answerOf_ok listed) member id
    obtain rfl : first = 3 := by simpa [sawThree] using at3 _ logged
    have alone : LeftAlone pool.state 1 item.request.source.planId 3 3 :=
      fun index low high => absurd high (Nat.not_lt.mpr low)
    rw [credited, agrees (Nat.le_refl 3) alone, shown]
  · cases lines

end Cybera
