import Cybera.Alone
import Cybera.Balance
import Cybera.Decisions
import Cybera.Exclusion
import Cybera.Redemption

/-!
The books of an account: what listMine reports of its approved requests, its
vouchers and the grants, against what was credited. The credit is computed when
a request is approved, the report joins the plan as it is now.
-/

namespace Cybera

open Interleaving

/-- A row of listMine. -/
structure MineItem where
  id : Nat
  request : PlanRequestRow
  plan : Option PlanRow

/-- duration_minutes, or requested_minutes without a plan. -/
def MineItem.minutes (item : MineItem) : Nat := creditedMinutes item.request item.plan

/-- SELECT … LEFT JOIN plans … WHERE r.user_id = $1 ORDER BY r.created_at DESC, and no LIMIT. -/
def RequestsService.listMine (view : View) (userId : Nat) : List MineItem :=
  ((view.scan .planRequests fun r => r.userId == userId).map fun (id, request) =>
    (⟨id, request, view.planOf request⟩ : MineItem)).insertionSort fun a b =>
      b.request.createdAt ≤ a.request.createdAt

def reportedMinutes (view : View) (user : Nat) : Nat :=
  (((RequestsService.listMine view user).filter fun item =>
    item.request.status == .approved).map MineItem.minutes).sum

def redeemedMinutes (view : View) (user : Nat) : Nat :=
  ((view.scan .vouchers fun v => v.redeemedBy == some user).map fun v => v.2.durationMinutes).sum

/-- The calls were executed one after another. -/
def Serial (world : World) : Prop :=
  world.hist.Pairwise fun earlier later => earlier.thread ≤ later.thread

/-- In every committed state the books add up to the credits, and an approved
request is listed ever after with the minutes it is listed with. -/
structure BooksKept (world : World) : Prop where
  sums : ∀ commits ≤ world.db.log.length, ∀ view : View,
    view.Shows (storeAfter world.db.log commits) → ∀ user,
      60 * reportedMinutes view user + 60 * redeemedMinutes view user +
          creditedTo (creditsFor (world.db.log.take commits) .grant) user =
        creditedTo (credits (world.db.log.take commits)) user
  intact : ∀ first last, first ≤ last → last ≤ world.db.log.length → ∀ before after : View,
    before.Shows (storeAfter world.db.log first) → after.Shows (storeAfter world.db.log last) →
      ∀ user, ∀ item ∈ RequestsService.listMine before user, item.request.status = .approved →
        ∃ item' ∈ RequestsService.listMine after user,
          item'.id = item.id ∧ item'.request.status = .approved ∧ item'.minutes = item.minutes

/-- The commit at `index` is a plans.update that gives the plan another duration. -/
def Reprices (world : World) (index plan : Nat) : Prop :=
  ∃ thread acts actor dto minutes, ∃ p : PlanRow,
    world.db.log[index]? = some (thread, acts) ∧ acts ≠ [] ∧
    world.arrivals[thread]? = some (.updatePlan actor plan dto) ∧
    storeAfter world.db.log index .plans plan = some p ∧ dto.durationMinutes = some minutes ∧
    minutes ≠ p.durationMinutes

/-- No plan gets another duration once a request for it has been approved. -/
def NeverRepriced (world : World) : Prop :=
  ∀ index plan, Reprices world index plan → ∀ id, ∀ r : PlanRequestRow,
    storeAfter world.db.log index .planRequests id = some r → r.status = .approved →
      r.source.planId ≠ some plan

/-! Credits by source. -/
section Sources
variable {given : List Credit} {user : Nat}

theorem sum_spread (ids : List Nat) (once : ids.Nodup) (id : Nat) (listed : id ∈ ids)
    (amount : Nat → Nat) (more : Nat) :
    (ids.map fun key => amount key + if key = id then more else 0).sum =
      (ids.map amount).sum + more := by
  induction ids with
  | nil => cases listed
  | cons key rest ih =>
      rw [List.nodup_cons] at once
      simp only [List.map_cons, List.sum_cons]
      by_cases here : key = id
      · subst here
        have others : (rest.map fun other => amount other + if other = key then more else 0) =
            rest.map amount := by
          refine List.map_congr_left fun other member => ?_
          have apart : other ≠ key := fun same => once.1 (same ▸ member)
          rw [if_neg apart, Nat.add_zero]
        rw [others, if_pos rfl]
        omega
      · rw [ih once.2 ((List.mem_cons.mp listed).resolve_left fun same => here same.symm),
          if_neg here]
        omega

theorem creditedTo_cons (credit : Credit) : creditedTo (credit :: given) user =
    (if credit.user = user then credit.seconds else 0) + creditedTo given user := by
  unfold creditedTo
  by_cases mine : credit.user = user <;> simp [mine]

def fromSource (given : List Credit) (source : CreditSource) : List Credit :=
  given.filter fun credit => credit.source = source

theorem fromSource_cons (credit : Credit) (source : CreditSource) :
    creditedTo (fromSource (credit :: given) source) user =
      creditedTo (fromSource given source) user +
        if credit.source = source ∧ credit.user = user then credit.seconds else 0 := by
  unfold fromSource
  by_cases same : credit.source = source
  · rw [List.filter_cons_of_pos (by simpa using same), creditedTo_cons, Nat.add_comm]
    simp [same]
  · rw [List.filter_cons_of_neg (by simpa using same)]
    simp [same]

/-- Each credit of the user comes from one of the vouchers, one of the requests
or a grant. -/
theorem creditedTo_sources (given : List Credit) (user : Nat) (vouchers requests : List Nat)
    (once : vouchers.Nodup) (once' : requests.Nodup)
    (fromVoucher : ∀ credit ∈ given, credit.user = user → ∀ id, credit.source = .voucher id →
      id ∈ vouchers)
    (fromRequest : ∀ credit ∈ given, credit.user = user → ∀ id, credit.source = .request id →
      id ∈ requests) :
    creditedTo given user =
      (requests.map fun id => creditedTo (fromSource given (.request id)) user).sum +
        (vouchers.map fun id => creditedTo (fromSource given (.voucher id)) user).sum +
        creditedTo (fromSource given .grant) user := by
  induction given with
  | nil => simp [creditedTo, fromSource]
  | cons credit rest ih =>
      have step := ih (fun other member => fromVoucher other (List.mem_cons_of_mem _ member))
        (fun other member => fromRequest other (List.mem_cons_of_mem _ member))
      rw [creditedTo_cons, step]
      simp only [fromSource_cons]
      by_cases mine : credit.user = user
      · have listedV := fromVoucher credit List.mem_cons_self mine
        have listedR := fromRequest credit List.mem_cons_self mine
        cases source : credit.source with
        | voucher id =>
            simp only [mine, and_true, CreditSource.voucher.injEq, reduceCtorEq, if_false,
              Nat.add_zero, if_true, eq_comm (a := id)]
            rw [sum_spread vouchers once id (listedV id source)]
            omega
        | request id =>
            simp only [mine, and_true, CreditSource.request.injEq, reduceCtorEq, if_false,
              Nat.add_zero, if_true, eq_comm (a := id)]
            rw [sum_spread requests once' id (listedR id source)]
            omega
        | grant =>
            simp only [mine, and_true, reduceCtorEq, if_false, Nat.add_zero, if_true]
            omega
      · simp only [mine, and_false, if_false, Nat.add_zero, Nat.zero_add]

end Sources
/-! One call after another: nobody commits between a call's SELECT and its COMMIT. -/
section Serially
variable {config : Config} {pool : ServerPool} (reached : Reached config pool)
  (serial : Serial pool.state)
include reached serial

theorem serial_own {event : Event} (member : event ∈ pool.state.hist) {index between : Nat}
    {acts acts' : List Entry} {other : Nat}
    (found : pool.state.db.log[index]? = some (event.thread, acts))
    (found' : pool.state.db.log[between]? = some (other, acts')) (wrote : acts' ≠ [])
    (after : event.commits ≤ between) (before : between < index) : other = event.thread := by
  have timeline := reached_timeline reached
  have chronicle := reached_chronicle reached
  obtain ⟨pos, seen⟩ := List.mem_iff_getElem?.mp member
  obtain ⟨mid, answer, time, view, landed, commit⟩ := chronicle.block between other acts' found'
  obtain ⟨last, answer', time', view', landed', final⟩ :=
    chronicle.block index event.thread acts found
  have order : ∀ {first second : Nat} {earlier later : Event}, first < second →
      pool.state.hist[first]? = some earlier → pool.state.hist[second]? = some later →
        earlier.thread ≤ later.thread := by
    intro first second earlier later less here there
    obtain ⟨bound, rfl⟩ := List.getElem?_eq_some_iff.mp here
    obtain ⟨bound', rfl⟩ := List.getElem?_eq_some_iff.mp there
    exact List.pairwise_iff_getElem.mp serial first second bound bound' less
  have upper := order (commits_order timeline commit final before) commit final
  refine Nat.le_antisymm upper ?_
  rcases Nat.lt_trichotomy pos mid with less | rfl | more
  · exact order less seen commit
  · rw [seen, Option.some.injEq] at commit
    exact Nat.le_of_eq (congrArg Event.thread commit)
  · have closes : (⟨other, .commit, answer, time, between, acts', view⟩ : Event).Closes :=
      ⟨_, _, _, _, _, _, landed, rfl, wrote⟩
    have later := (history_order timeline more commit seen).closed closes
    exact absurd later (Nat.not_lt.mpr after)

theorem serial_kept {event : Event} (member : event ∈ pool.state.hist) {call : Call}
    (called : pool.state.arrivals[event.thread]? = some call) {index : Nat} {acts : List Entry}
    (found : pool.state.db.log[index]? = some (event.thread, acts))
    (earlier : event.commits ≤ index)
    (holds : Store → Prop) (start : holds (storeAfter pool.state.db.log event.commits))
    (own : ∀ between acts', between < index →
      Lawful config (pool.state.basisAt between) event.thread call acts' →
        holds (storeAfter pool.state.db.log between) →
          holds (replay acts' (storeAfter pool.state.db.log between))) :
    holds (storeAfter pool.state.db.log index) := by
  have bound := (List.getElem?_eq_some_iff.mp found).1
  refine log_stretch (reached_legit reached) (fun commits => holds (storeAfter _ commits)) earlier
    (Nat.le_of_lt bound) start ?_
  intro between thread acts' call' low high found' called' lawful next before
  rw [next]
  by_cases empty : acts' = []
  · subst empty
    exact before
  · obtain rfl := serial_own reached serial member found found' empty low high
    rw [called, Option.some.injEq] at called'
    exact own between acts' high (called' ▸ lawful) before

end Serially

section Plans
variable {config : Config} {world : World} {index thread : Nat} {call : Call} {acts : List Entry}

theorem duration_kept (found : world.db.log[index]? = some (thread, acts))
    (called : world.arrivals[thread]? = some call)
    (lawful : Lawful config (world.basisAt index) thread call acts) {plan : Nat} {p p' : PlanRow}
    (before : storeAfter world.db.log index .plans plan = some p)
    (after : replay acts (storeAfter world.db.log index) .plans plan = some p') :
    p'.durationMinutes = p.durationMinutes ∨ Reprices world index plan := by
  have same : replay acts (storeAfter world.db.log index) .plans plan =
      storeAfter world.db.log index .plans plan → p'.durationMinutes = p.durationMinutes := by
    intro kept
    rw [kept, before, Option.some.injEq] at after
    rw [after]
  by_cases touched : TableName.plans ∈ call.tables
  · cases call with
    | createPlan actor dto =>
        cases lawful with
        | nothing => exact Or.inl (same rfl)
        | @createPlan _ _ id fresh =>
            have apart : plan ≠ id := by
              rintro rfl
              have absent : storeAfter world.db.log index .plans plan = none := fresh
              simp [absent] at before
            exact Or.inl (same (by simp [apart]))
    | updatePlan actor id dto =>
        cases lawful with
        | nothing => exact Or.inl (same rfl)
        | @updatePlan _ _ _ now =>
            by_cases here : plan = id
            · subst here
              simp only [replay_cons, replay_nil, alter_same, before, Option.map_some,
                Option.some.injEq, Op.run] at after
              subst after
              cases given : dto.durationMinutes with
              | none => simp [PlanEdit.run, given]
              | some minutes =>
                  by_cases unchanged : minutes = p.durationMinutes
                  · simp [PlanEdit.run, given, unchanged]
                  · exact Or.inr ⟨thread, _, actor, dto, minutes, p, found, by simp, called, before,
                      given, unchanged⟩
            · exact Or.inl (same (by simp [here]))
    | removePlan actor id =>
        cases lawful with
        | nothing => exact Or.inl (same rfl)
        | @deactivatePlan _ _ now =>
            by_cases here : plan = id
            · subst here
              simp only [replay_cons, replay_nil, alter_same, before, Option.map_some,
                Option.some.injEq, Op.run] at after
              subst after
              simp [PlanEdit.run, deactivate]
            · exact Or.inl (same (by simp [here]))
        | deletePlan =>
            by_cases here : plan = id
            · subst here
              simp at after
            · exact Or.inl (same (by simp [here]))
    | _ => simp [Call.tables] at touched
  · exact Or.inl (same (untouched_table lawful touched _ _))

end Plans
/-- The request is approved, and reported to have been worth the minutes. -/
def Worth (rows : Store) (id user minutes : Nat) : Prop :=
  ∃ r : PlanRequestRow, rows .planRequests id = some r ∧ r.userId = user ∧ r.status = .approved ∧
    creditedMinutes r (planAt rows r) = minutes

theorem minutes_same {rows rows' : Store} {r : PlanRequestRow}
    (same : ∀ plan, r.source.planId = some plan → ∃ p p' : PlanRow, rows .plans plan = some p ∧
      rows' .plans plan = some p' ∧ p'.durationMinutes = p.durationMinutes) :
    creditedMinutes r (planAt rows' r) = creditedMinutes r (planAt rows r) := by
  unfold creditedMinutes planAt
  cases source : r.source.planId with
  | none => rfl
  | some plan =>
      obtain ⟨p, p', before, after, kept⟩ := same plan source
      simp [before, after, kept]

section Reports
variable {config : Config} {pool : ServerPool} (reached : Reached config pool)
  (serial : Serial pool.state)
include reached serial

/-- Nobody approves the request between the SELECT for a pending one and the
UPDATE that replaces it. -/
theorem unreplaced {thread id index read : Nat} {acts : List Entry} {user : AuthUser}
    {dto : CreateRequestDto} {time : Time} {view : View}
    (called : pool.state.arrivals[thread]? = some (.createRequest user dto))
    (found : pool.state.db.log[index]? = some (thread, acts))
    (asked : ⟨thread, .query (.pendingRequest user.id), .ok (some id), time, read, [], view⟩ ∈
      pool.state.hist) (earlier : read ≤ index) :
    ∃ r : PlanRequestRow, storeAfter pool.state.db.log index .planRequests id = some r ∧
      r.status ≠ .approved := by
  refine serial_kept reached serial asked called found earlier (fun rows =>
    ∃ r : PlanRequestRow, rows .planRequests id = some r ∧ r.status ≠ .approved) ?_ ?_
  · obtain ⟨answered, _, rows⟩ := (reached_ready reached).truthful _ asked
    replace rows : view.rows = storeAfter pool.state.db.log read := rows
    replace answered : some id = Query.eval view (.pendingRequest user.id) := answered
    obtain ⟨⟨key, r⟩, head, same⟩ := Option.map_eq_some_iff.mp answered.symm
    obtain rfl : key = id := same
    obtain ⟨_, present, kept⟩ := mem_scan.mp (List.mem_of_mem_head? head)
    rw [rows] at present
    refine ⟨r, present, ?_⟩
    rw [Bool.and_eq_true, beq_iff_eq, beq_iff_eq] at kept
    rw [kept.2]
    decide
  · rintro between acts' _ lawful ⟨r, present, status⟩
    cases request_block lawful id with
    | kept same => exact ⟨r, same.trans present, status⟩
    | made _ absent => simp [absent] at present
    | replaced _ row _ _ after =>
        rw [row, Option.some.injEq] at present
        subst present
        exact ⟨_, after, status⟩

/-- A commit leaves the worth of an approved request as it is, unless it gives
the request's plan another duration. -/
theorem worth_step (never : NeverRepriced pool.state) {index thread : Nat} {acts : List Entry}
    {call : Call} (found : pool.state.db.log[index]? = some (thread, acts))
    (called : pool.state.arrivals[thread]? = some call)
    (lawful : Lawful config (pool.state.basisAt index) thread call acts) {id user minutes : Nat}
    (worth : Worth (storeAfter pool.state.db.log index) id user minutes) :
    Worth (storeAfter pool.state.db.log (index + 1)) id user minutes := by
  obtain ⟨r, present, owner, approved, rfl⟩ := worth
  have bound := (List.getElem?_eq_some_iff.mp found).1
  have next := storeAfter_succ _ _ _ found
  have kept : storeAfter pool.state.db.log (index + 1) .planRequests id = some r := by
    rw [next]
    cases request_block lawful id with
    | kept same => exact same.trans present
    | made _ absent => simp [absent] at present
    | replaced _ row asked earlier after =>
        obtain ⟨other, present', open'⟩ := unreplaced reached serial called found asked earlier
        rw [present, Option.some.injEq] at present'
        exact absurd approved (present' ▸ open')
    | decided row pending =>
        rw [present, Option.some.injEq] at row
        rw [← row, approved] at pending
        cases pending
  refine ⟨r, kept, owner, approved, minutes_same fun plan source => ?_⟩
  obtain ⟨p, before⟩ := Option.isSome_iff_exists.mp
    (reached_resolved reached index (Nat.le_of_lt bound) id r plan present source)
  obtain ⟨p', after⟩ := Option.isSome_iff_exists.mp
    (reached_resolved reached (index + 1) bound id r plan kept source)
  refine ⟨p, p', before, after, ?_⟩
  rcases duration_kept found called lawful before (next ▸ after) with same | repriced
  · exact same
  · exact absurd source (never index plan repriced id r present approved)

theorem worth_stays (never : NeverRepriced pool.state) {id user minutes first last : Nat}
    (ordered : first ≤ last) (bound : last ≤ pool.state.db.log.length)
    (worth : Worth (storeAfter pool.state.db.log first) id user minutes) :
    Worth (storeAfter pool.state.db.log last) id user minutes :=
  log_stretch (reached_legit reached) (fun commits => Worth (storeAfter _ commits) id user minutes)
    ordered bound worth fun _ _ _ _ _ _ found called lawful _ =>
      worth_step reached serial never found called lawful

theorem unswitched {thread id index read : Nat} {acts : List Entry} {actor : AuthUser}
    {found r : PlanRequestRow} {plan : Option PlanRow} {time : Time} {view : View}
    (called : pool.state.arrivals[thread]? = some (.decide actor id true))
    (block : pool.state.db.log[index]? = some (thread, acts))
    (asked : ⟨thread, .query (.requestWithPlan id), .ok (some (found, plan)), time, read, [],
      view⟩ ∈ pool.state.hist) (earlier : read ≤ index)
    (first : storeAfter pool.state.db.log read .planRequests id = some found)
    (row : storeAfter pool.state.db.log index .planRequests id = some r) :
    r.source = found.source := by
  have kept : ∃ last : PlanRequestRow,
      storeAfter pool.state.db.log index .planRequests id = some last ∧
        last.source = found.source := by
    refine serial_kept reached serial asked called block earlier
      (fun rows => ∃ last : PlanRequestRow, rows .planRequests id = some last ∧
        last.source = found.source) ⟨found, first, rfl⟩ ?_
    rintro between acts' _ lawful ⟨last, present, same⟩
    cases request_block lawful id with
    | kept still => exact ⟨last, still.trans present, same⟩
    | decided row' _ after =>
        rw [present, Option.some.injEq] at row'
        subst row'
        exact ⟨_, after, same⟩
  obtain ⟨last, present, same⟩ := kept
  rw [row, Option.some.injEq] at present
  exact present ▸ same

theorem approval_worth {id thread index : Nat} {credit : Credit}
    (approval : Approves pool.state id thread index credit) :
    ∃ minutes, credit.seconds = 60 * minutes ∧
      Worth (storeAfter pool.state.db.log (index + 1)) id credit.user minutes := by
  cases approval with
  | @mk actor r _ account credited now read lock called block selected earlier row pending =>
    cases selected with
    | @mk found _ _ late view held asked ordered locked first seen =>
      have bound := (List.getElem?_eq_some_iff.mp block).1
      have early : read ≤ index := Nat.le_trans ordered earlier
      have next := storeAfter_succ _ _ _ block
      have resolved := reached_resolved reached read (Nat.le_trans early (Nat.le_of_lt bound))
      have after : storeAfter pool.state.db.log (index + 1) .planRequests id =
          some (RequestOp.run now (.decide .approved actor.id) r) := by
        rw [next]
        simp [approveActs, row, Op.run]
      have source := unswitched reached serial called block asked early first row
      refine ⟨_, rfl, _, after, rfl, rfl, ?_⟩
      have joined : planAt (storeAfter pool.state.db.log read) found =
          planAt (storeAfter pool.state.db.log read) r := by
        rw [planAt, planAt, source]
      rw [rejoined, if_pos (by rw [source]), joined]
      -- the plan that the SELECT has joined is the one at the COMMIT
      refine minutes_same (r := r) fun plan refers => ?_
      obtain ⟨p, before⟩ := Option.isSome_iff_exists.mp
        (resolved id found plan first (source ▸ refers))
      have here : storeAfter pool.state.db.log index .plans plan = some p := by
        refine serial_kept reached serial asked called block early
          (fun rows => rows .plans plan = some p) before ?_
        intro between acts' _ lawful present
        exact (untouched_table lawful (by simp [Call.tables]) _ _).trans present
      have later : storeAfter pool.state.db.log (index + 1) .plans plan = some p := by
        rw [next]
        simpa [approveActs] using here
      exact ⟨p, p, before, later, rfl⟩

end Reports
section Listed
variable {view : View} {rows : Store} {user : Nat}

theorem mem_listMine {item : MineItem} : item ∈ RequestsService.listMine view user ↔
    item.id < view.next .planRequests ∧ view.rows .planRequests item.id = some item.request ∧
      item.request.userId = user ∧ item.plan = view.planOf item.request := by
  obtain ⟨id, request, plan⟩ := item
  simp only [RequestsService.listMine, List.mem_insertionSort, List.mem_map, Prod.exists,
    MineItem.mk.injEq]
  constructor
  · rintro ⟨_, _, scanned, rfl, rfl, rfl⟩
    obtain ⟨bound, present, owner⟩ := mem_scan.mp scanned
    exact ⟨bound, present, by simpa using owner, rfl⟩
  · rintro ⟨bound, present, owner, rfl⟩
    exact ⟨id, request, mem_scan.mpr ⟨bound, present, by simpa using owner⟩, rfl, rfl, rfl⟩

theorem worth_listed (shows : view.Shows rows) {id minutes : Nat} :
    Worth rows id user minutes ↔ ∃ item ∈ RequestsService.listMine view user,
      item.id = id ∧ item.request.status = .approved ∧ item.minutes = minutes := by
  constructor
  · rintro ⟨r, present, owner, approved, same⟩
    have bound := shows.numbered .planRequests id (by simp [present])
    refine ⟨⟨id, r, view.planOf r⟩, mem_listMine.mpr ⟨bound, shows.same ▸ present, owner, rfl⟩, rfl,
      approved, ?_⟩
    rw [← same, ← shows.same]
    rfl
  · rintro ⟨item, listed, rfl, approved, same⟩
    obtain ⟨_, present, owner, joined⟩ := mem_listMine.mp listed
    refine ⟨item.request, shows.same ▸ present, owner, approved, ?_⟩
    rw [← same, MineItem.minutes, joined, ← shows.same]
    rfl

theorem listMine_once (view : View) (user : Nat) :
    ((RequestsService.listMine view user).map MineItem.id).Nodup := by
  refine ((List.perm_insertionSort _ _).map MineItem.id).nodup_iff.mpr ?_
  rw [List.map_map]
  exact scan_once view .planRequests _

end Listed

section Books
variable {config : Config} {pool : ServerPool} (reached : Reached config pool)
include reached

theorem voucher_books {commits : Nat} (bound : commits ≤ pool.state.db.log.length) {id user : Nat} :
    (∀ v : VoucherRow, storeAfter pool.state.db.log commits .vouchers id = some v →
      v.redeemedBy = some user →
        creditedTo (creditsFor (pool.state.db.log.take commits) (.voucher id)) user =
          60 * v.durationMinutes) ∧
    ∀ credit ∈ creditsFor (pool.state.db.log.take commits) (.voucher id), credit.user = user →
      ∃ v : VoucherRow, storeAfter pool.state.db.log commits .vouchers id = some v ∧
        v.redeemedBy = some user := by
  have state := voucher_state (reached_legit reached) id bound
  generalize creditsFor (pool.state.db.log.take commits) (.voucher id) = given at state ⊢
  cases state with
  | absent empty => simp [empty]
  | «open» v present _ nobody =>
      refine ⟨?_, by simp⟩
      intro other present' redeemer
      rw [present, Option.some.injEq] at present'
      subst present'
      simp [nobody] at redeemer
  | spent v redeemedBy now account present redeemed redeemer =>
      constructor
      · intro other present' mine
        rw [present, Option.some.injEq] at present'
        subst present'
        rw [redeemer, Option.some.injEq] at mine
        simp [creditedTo, mine, Nat.mul_comm]
      · intro credit member mine
        rw [List.mem_singleton] at member
        subst member
        exact ⟨v, present, mine ▸ redeemer⟩

theorem request_books (serial : Serial pool.state) (never : NeverRepriced pool.state)
    {commits : Nat} (bound : commits ≤ pool.state.db.log.length) {id user : Nat} :
    (∀ minutes, Worth (storeAfter pool.state.db.log commits) id user minutes →
      creditedTo (creditsFor (pool.state.db.log.take commits) (.request id)) user = 60 * minutes) ∧
    ∀ credit ∈ creditsFor (pool.state.db.log.take commits) (.request id), credit.user = user →
      ∃ minutes, Worth (storeAfter pool.state.db.log commits) id user minutes := by
  have state := request_state reached id bound
  generalize creditsFor (pool.state.db.log.take commits) (.request id) = given at state ⊢
  cases state with
  | absent empty => simp [Worth, empty]
  | unapproved r present status =>
      refine ⟨?_, by simp⟩
      rintro minutes ⟨other, present', _, approved, _⟩
      rw [present, Option.some.injEq] at present'
      exact absurd approved (present' ▸ status)
  | approved r thread index credit present status past approval same =>
      obtain ⟨minutes, seconds, worth⟩ := approval_worth reached serial approval
      have stands := worth_stays reached serial never past bound worth
      constructor
      · rintro other ⟨r', present', owner, _, reported⟩
        obtain ⟨r'', present'', _, _, reported'⟩ := stands
        rw [present'] at present''
        cases present''
        have mine : credit.user = user := by
          rw [present, Option.some.injEq] at present'
          rw [same, present', owner]
        have equal : other = minutes := reported.symm.trans reported'
        simp [creditedTo, mine, seconds, equal]
      · intro other member mine
        obtain rfl := List.mem_singleton.mp member
        exact ⟨minutes, mine ▸ stands⟩

theorem books_sum (serial : Serial pool.state) (never : NeverRepriced pool.state) {commits : Nat}
    (bound : commits ≤ pool.state.db.log.length) {view : View}
    (shows : view.Shows (storeAfter pool.state.db.log commits)) (user : Nat) :
    60 * reportedMinutes view user + 60 * redeemedMinutes view user +
        creditedTo (creditsFor (pool.state.db.log.take commits) .grant) user =
      creditedTo (credits (pool.state.db.log.take commits)) user := by
  have whole := creditedTo_sources (credits (pool.state.db.log.take commits)) user
    ((view.scan .vouchers fun v => v.redeemedBy == some user).map Prod.fst)
    (((RequestsService.listMine view user).filter fun item =>
      item.request.status == .approved).map MineItem.id)
    (scan_once view .vouchers _)
    ((listMine_once view user).sublist (List.filter_sublist.map _)) ?_ ?_
  · rw [whole]
    congr 2
    · rw [reportedMinutes, ← List.sum_map_mul_left, List.map_map]
      refine congrArg List.sum (List.map_congr_left fun item member => ?_)
      obtain ⟨listed, approved⟩ := List.mem_filter.mp member
      have worth := (worth_listed shows).mpr ⟨item, listed, rfl, by simpa using approved, rfl⟩
      exact ((request_books reached serial never bound).1 item.minutes worth).symm
    · rw [redeemedMinutes, ← List.sum_map_mul_left, List.map_map]
      refine congrArg List.sum (List.map_congr_left fun v member => ?_)
      obtain ⟨_, present, redeemer⟩ := mem_scan.mp member
      exact ((voucher_books reached bound).1 v.2 (shows.same ▸ present)
        (by simpa using redeemer)).symm
  · intro credit member mine id source
    have from' : credit ∈ creditsFor (pool.state.db.log.take commits) (.voucher id) :=
      List.mem_filter.mpr ⟨member, by simpa using source⟩
    obtain ⟨v, present, redeemer⟩ := (voucher_books reached bound).2 credit from' mine
    have numbered := shows.numbered .vouchers id (by simp [present])
    exact List.mem_map.mpr
      ⟨(id, v), mem_scan.mpr ⟨numbered, shows.same ▸ present, by simp [redeemer]⟩,
      rfl⟩
  · intro credit member mine id source
    have from' : credit ∈ creditsFor (pool.state.db.log.take commits) (.request id) :=
      List.mem_filter.mpr ⟨member, by simpa using source⟩
    obtain ⟨minutes, worth⟩ := (request_books reached serial never bound).2 credit from' mine
    obtain ⟨item, listed, same, approved, _⟩ := (worth_listed shows).mp worth
    exact List.mem_map.mpr ⟨item, List.mem_filter.mpr ⟨listed, by simp [approved]⟩, same⟩

end Books
theorem replay_bounded (acts : List Entry) {rows : Store} {bound : Nat}
    (bounded : ∀ table id, (rows table id).isSome → id < bound) :
    ∃ bound', ∀ table id, (replay acts rows table id).isSome → id < bound' := by
  induction acts generalizing rows bound with
  | nil => exact ⟨bound, bounded⟩
  | cons entry rest ih =>
      have more : ∀ table id, (RowLock.runEntry Act.run rows entry table id).isSome →
          id < max bound (entry.id + 1) := ?_
      · exact ih more
      intro table id present
      by_cases hit : table = entry.table ∧ id = entry.id
      · exact hit.2 ▸ Nat.lt_of_lt_of_le (Nat.lt_succ_self _) (Nat.le_max_right _ _)
      · rw [RowLock.runEntry_other _ _ _ _ _ hit] at present
        exact Nat.lt_of_lt_of_le (bounded table id present) (Nat.le_max_left _ _)

theorem shown (log : List Block)
    (commits : Nat) : ∃ view : View, view.Shows (storeAfter log commits) := by
  have nobody : ∀ (table : TableName) (id : Nat), ((fun _ _ => none : Store) table id).isSome →
      id < 0 := by
    intro table id present
    cases present
  obtain ⟨bound, bounded⟩ := replay_bounded ((log.take commits).flatMap (·.2)) nobody
  exact ⟨⟨storeAfter log commits, fun _ => bound, 0, id, []⟩, rfl, bounded⟩

/-- In every run that executes its calls one after another the books are kept if
and only if no plan gets another duration once a request for it is approved. -/
theorem books_kept_iff (config : Config) (pool : ServerPool) (reached : Reached config pool)
    (serial : Serial pool.state) : BooksKept pool.state ↔ NeverRepriced pool.state := by
  constructor
  · rintro kept index plan ⟨thread, acts, actor, dto, minutes, p, found, wrote, called,
      before, given, other⟩ id r present approved source
    obtain ⟨call, called', lawful⟩ := block_lawful (reached_legit reached) found
    rw [called, Option.some.injEq] at called'
    subst called'
    have bound := (List.getElem?_eq_some_iff.mp found).1
    have next := storeAfter_succ _ _ _ found
    obtain ⟨old, shows⟩ := shown pool.state.db.log index
    obtain ⟨new, shows'⟩ := shown pool.state.db.log (index + 1)
    have worth : Worth (storeAfter pool.state.db.log index) id r.userId p.durationMinutes := by
      refine ⟨r, present, rfl, approved, ?_⟩
      simp [creditedMinutes, planAt, source, before]
    obtain ⟨item, listed, rfl, approved', same⟩ := (worth_listed shows).mp worth
    have still := kept.intact index (index + 1) (Nat.le_succ _) bound old new shows shows' r.userId
      item listed approved'
    rw [same] at still
    obtain ⟨r', present', _, _, same'⟩ := (worth_listed shows').mpr still
    -- the request is as it was, its plan is not
    cases lawful with
    | nothing => exact wrote rfl
    | @updatePlan _ _ _ now =>
        have row : storeAfter pool.state.db.log (index + 1) .planRequests item.id = some r := by
          rw [next]
          simpa using present
        have edited : storeAfter pool.state.db.log (index + 1) .plans plan =
            some (PlanEdit.run dto p) := by
          rw [next]
          simp [before, Op.run]
        rw [row, Option.some.injEq] at present'
        subst present'
        simp only [creditedMinutes, planAt, source, Option.bind_some, edited, Option.map_some,
          Option.some_or, Option.getD_some, PlanEdit.run, given] at same'
        exact other same'
  · intro never
    refine ⟨fun commits bound view shows user => books_sum reached serial never bound shows user,
      ?_⟩
    intro first last ordered bound before after shows shows' user item listed approved
    have worth := (worth_listed shows).mpr ⟨item, listed, rfl, approved, rfl⟩
    exact (worth_listed shows').mp (worth_stays reached serial never ordered bound worth)

theorem viewNow_shows {config : Config} {pool : ServerPool} (reached : Reached config pool) :
    (viewNow pool).Shows (storeAfter pool.state.db.log pool.state.db.log.length) := by
  have ready := reached_ready reached
  refine ⟨ready.recorded, ?_⟩
  intro table id present
  rw [← ready.recorded] at present
  by_contra beyond
  rw [(ready.sound.unused table id (Nat.le_of_not_lt beyond)).1] at present
  cases present

def booksOf (pool : ServerPool) (user : Nat) : Nat × Nat × Nat × Nat :=
  (reportedMinutes (viewNow pool) user, redeemedMinutes (viewNow pool) user,
    creditedTo (creditsFor pool.state.db.log .grant) user,
    creditedTo (credits pool.state.db.log) user)

def inTurn (pool : ServerPool) : Bool :=
  decide ((pool.state.hist.map Event.thread).Pairwise (· ≤ ·))

theorem inTurn_serial {pool : ServerPool} (turns : inTurn pool = true) : Serial pool.state :=
  List.pairwise_map.mp (of_decide_eq_true turns)

def hourPlan : CreatePlanDto where
  name := ['H', 'o', 'u', 'r']
  durationMinutes := 60
  price := 500
  deviceLimit := 1
  active := none
  nameLength := by decide
  durationMin := hourVoucher.durationMin
  limitMin := Nat.one_pos

def theHourPlan : CreateRequestDto where
  planId := some 1
  minutes := none
  planMin := by simp
  minutesRange := by simp

def reprice : PlanEdit where
  name := none
  durationMinutes := none
  price := some 300
  deviceLimit := none
  active := none
  durationPositive := deactivate.durationPositive
  limitPositive := deactivate.limitPositive

/-- An hour of a plan at the counter, an hour of a voucher and a granted hour; the plan gets
another price before it is approved and after. -/
def counterDay : List (Move Choice Call Ambient) :=
  opening ++ [.start (.createPlan staff hourPlan)] ++ steps 1 4 ++
    [.start (.createRequest guest theHourPlan)] ++ steps 2 6 ++
    [.start (.updatePlan staff 1 reprice)] ++ steps 3 4 ++
    [.start (.decide staff 1 true)] ++ steps 4 7 ++
    [.start (.generate staff hourVoucher 1)] ++ steps 5 6 ++
    [.start (.redeem guest typedCode)] ++ steps 6 7 ++
    [.start (.grant staff 2 anHour)] ++ steps 7 4 ++
    [.start (.updatePlan staff 1 reprice)] ++ steps 8 4

theorem books_kept_counter : ∃ pool, Reached shop pool ∧ BooksKept pool.state ∧
    booksOf pool 2 = (60, 60, 3600, 10800) := by
  obtain ⟨pool, reached, arrivals, seen⟩ := play_shows shop counterDay
    (fun pool => (inTurn pool, booksOf pool 2)) (true, 60, 60, 3600, 10800) (by decide +kernel)
  obtain ⟨turns, books⟩ := Prod.mk.inj seen
  refine ⟨pool, reached, (books_kept_iff shop pool reached (inTurn_serial turns)).mpr ?_, books⟩
  rintro index plan ⟨thread, acts, actor, dto, minutes, p, _, _, called, _, given, _⟩
  have listed := List.mem_of_getElem? called
  rw [arrivals] at listed
  have same : dto = reprice := by
    simp [started, counterDay, opening, steps] at listed
    tauto
  rw [same] at given
  cases given

def halveHour : PlanEdit where
  name := none
  durationMinutes := some 30
  price := none
  deviceLimit := none
  active := none
  durationPositive := by simp
  limitPositive := deactivate.limitPositive

/-- An approved hour, whose plan is made half an hour afterwards. -/
def halvedPlan : List (Move Choice Call Ambient) :=
  opening ++ [.start (.createPlan staff hourPlan)] ++ steps 1 4 ++
    [.start (.createRequest guest theHourPlan)] ++ steps 2 6 ++
    [.start (.decide staff 1 true)] ++ steps 3 7 ++
    [.start (.updatePlan staff 1 halveHour)] ++ steps 4 4

theorem halved_plan_unbalanced : ∃ pool, Reached shop pool ∧ Serial pool.state ∧
    booksOf pool 2 = (30, 0, 0, 3600) ∧ ¬ BooksKept pool.state := by
  obtain ⟨pool, reached, _, seen⟩ := play_shows shop halvedPlan
    (fun pool => (inTurn pool, booksOf pool 2)) (true, 30, 0, 0, 3600) (by decide +kernel)
  obtain ⟨turns, books⟩ := Prod.mk.inj seen
  refine ⟨pool, reached, inTurn_serial turns, books, ?_⟩
  intro kept
  have sums := kept.sums _ (Nat.le_refl _) (viewNow pool) (viewNow_shows reached) 2
  rw [List.take_length] at sums
  simp only [booksOf, Prod.mk.injEq] at books
  omega

end Cybera
