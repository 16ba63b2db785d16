import Cybera.Explanations
import Cybera.Funded

/-!
VouchersService.generate among other calls: every answer lists exactly the vouchers
that its own call has inserted, so no voucher is on two lists.
-/

namespace Cybera

open Interleaving

def Event.Inserted (event : Event) (table : TableName) (id : Nat) : Prop :=
  ∃ row skip made, event.done = ⟨.insert table row skip, .ok (some (id, made))⟩

def Event.Separate (first second : Event) : Prop :=
  ∀ table id, first.Inserted table id → ¬ second.Inserted table id

instance : Std.Symm Event.Separate :=
  ⟨fun _ _ separate table id inserted inserted' => separate table id inserted' inserted⟩

/-- No id is given out twice. -/
structure Numbered (world : World) : Prop where
  below : ∀ event ∈ world.hist, ∀ table id, event.Inserted table id → id < world.db.next table
  separate : world.hist.Pairwise Event.Separate

section Numbers
variable {thread : Nat} {now : Time} {db after : Database}

theorem dbStep_next (step : DbStep thread now db after) (table : TableName) :
    db.next table ≤ after.next table := by
  cases step with
  | same | undone => exact Nat.le_refl _
  | opened =>
      unfold RowLock.State.begin
      split <;> exact Nat.le_refl _
  | committed =>
      unfold RowLock.State.commit
      split <;> exact Nat.le_refl _
  | locked other id granted => rw [(RowLock.acquire_same granted).2.2.1]
  | wrote entry kept granted => rw [(RowLock.write_same granted).2.1]
  | inserted other row granted =>
      rw [(RowLock.write_same granted).2.1]
      by_cases same : table = other
      · subst same
        simp [RowLock.State.reserve]
      · simp [RowLock.State.reserve, Function.update_of_ne same]

theorem exec_inserted {world reached : World} {choice : Choice} {table : TableName}
    {row : Time → Row table} {skip : Bool} {id : Nat} {made : Row table}
    (executed : world.exec thread (.insert table row skip) choice =
      some (.ok (some (id, made)), reached)) :
    id = world.db.next table ∧ reached.db.next table = world.db.next table + 1 := by
  have deed := exec_deed executed
  generalize reached.db = final at deed
  cases deed with
  | read reads => exact reads.elim
  | inserted free single written =>
      refine ⟨rfl, ?_⟩
      rw [(RowLock.write_same written).2.1]
      simp [RowLock.State.reserve, World.advance]

theorem reached_numbered {config : Config} {pool : ServerPool} (reached : Reached config pool) :
    Numbered pool.state := by
  refine reachable_state (server config) Numbered ?_ ?_ ?_ ?_ ?_ reached
  · exact ⟨by simp [World.initial], by simp [World.initial]⟩
  · exact fun _ _ numbered => ⟨numbered.below, numbered.separate⟩
  · intro pool thread cmd choice answer after before numbered executed
    obtain ⟨_, _, hist, step⟩ := exec_cases executed
    have latest : ∀ table id, (pool.state.eventOf thread cmd choice answer).Inserted table id →
        id = pool.state.db.next table ∧ after.db.next table = pool.state.db.next table + 1 := by
      rintro table id ⟨row, skip, made, same⟩
      cases same
      exact exec_inserted executed
    constructor
    · intro event member table id inserted
      rw [hist] at member
      rcases List.mem_append.mp member with earlier | here
      · exact Nat.lt_of_lt_of_le (numbered.below event earlier table id inserted)
          (dbStep_next step table)
      · rw [List.mem_singleton] at here
        subst here
        obtain ⟨rfl, grown⟩ := latest table id inserted
        omega
    · rw [hist]
      refine List.pairwise_append.mpr ⟨numbered.separate, List.pairwise_singleton _ _, ?_⟩
      intro earlier member event here table id inserted inserted'
      rw [List.mem_singleton] at here
      subst here
      obtain ⟨rfl, _⟩ := latest table id inserted'
      exact absurd (numbered.below earlier member table _ inserted) (Nat.lt_irrefl _)
  · exact fun _ _ numbered => ⟨numbered.below, numbered.separate⟩
  · intro event before after numbered happened
    obtain ⟨db, _, _, hist⟩ := ambient_cases happened
    exact ⟨by rw [hist, db]; exact numbered.below, by rw [hist]; exact numbered.separate⟩

end Numbers

/-! What a generation has inserted. -/

def insertedBy : Done Cmd Res Failure → Option (Nat × VoucherRow)
  | ⟨.insert .vouchers _ _, .ok (some made)⟩ => some made
  | _ => none

def insertedIn (past : Past) : List (Nat × VoucherRow) := past.filterMap insertedBy

/-- Every inserted voucher is in the open transaction or has been committed. -/
def Securing (past : Past) : Prop :=
  ∀ newer done older made, past = newer ++ done :: older → insertedBy done = some made →
    (∀ other ∈ newer, ¬ other.1.Closes) ∨
      ∃ later between, newer = later ++ ⟨.commit, .ok ()⟩ :: between ∧
      ∀ other ∈ between, ¬ other.1.Closes

def Secured (past : Past) : Prop :=
  ∀ newer done older made, past = newer ++ done :: older → insertedBy done = some made →
    ∃ later between, newer = later ++ ⟨.commit, .ok ()⟩ :: between ∧
      ∀ other ∈ between, ¬ other.1.Closes

section Order
variable {past : Past}

theorem secured_securing (secured : Secured past) : Securing past :=
  fun newer done older made split inserts => Or.inr (secured newer done older made split inserts)

theorem secured_nil : Secured [] := by
  intro newer done older made split
  simp at split

theorem securing_cons {done : Done Cmd Res Failure} (plain : ¬ done.1.Closes)
    (securing : Securing past) : Securing (done :: past) := by
  rintro (_ | ⟨latest, newer⟩) other older made split inserts
  · exact Or.inl (by simp)
  · rw [List.cons_append, List.cons.injEq] at split
    obtain ⟨rfl, split⟩ := split
    rcases securing newer other older made split inserts with inside | ⟨later, between, rfl, rest⟩
    · exact Or.inl (List.forall_mem_cons.mpr ⟨plain, inside⟩)
    · exact Or.inr ⟨done :: later, between, rfl, rest⟩

theorem secured_commit (securing : Securing past) : Secured (⟨.commit, .ok ()⟩ :: past) := by
  rintro (_ | ⟨latest, newer⟩) other older made split inserts
  · obtain ⟨rfl, _⟩ := List.cons.inj split
    cases inserts
  · rw [List.cons_append, List.cons.injEq] at split
    obtain ⟨rfl, split⟩ := split
    rcases securing newer other older made split inserts with inside | ⟨later, between, rfl, rest⟩
    · exact ⟨[], newer, rfl, inside⟩
    · exact ⟨_ :: later, between, rfl, rest⟩

theorem secured_cons {done : Done Cmd Res Failure} (idle : insertedBy done = none)
    (secured : Secured past) : Secured (done :: past) := by
  rintro (_ | ⟨latest, newer⟩) other older made split inserts
  · obtain ⟨rfl, _⟩ := List.cons.inj split
    rw [idle] at inserts
    cases inserts
  · rw [List.cons_append, List.cons.injEq] at split
    obtain ⟨rfl, split⟩ := split
    obtain ⟨later, between, rfl, rest⟩ := secured newer other older made split inserts
    exact ⟨done :: later, between, rfl, rest⟩

/-- The codes in hand are those of the vouchers inserted so far, oldest first. -/
def Gathered (codes : List Text) (past : Past) : Prop :=
  (insertedIn past).reverse.map (fun voucher => voucher.2.code) = codes

theorem gathered_cons {codes : List Text} {done : Done Cmd Res Failure}
    (idle : insertedBy done = none) (gathered : Gathered codes past) :
    Gathered codes (done :: past) := by
  rw [Gathered, insertedIn, List.filterMap_cons_none idle]
  exact gathered

theorem gathered_made {codes : List Text} {done : Done Cmd Res Failure} {made : Nat × VoucherRow}
    (inserts : insertedBy done = some made) (gathered : Gathered codes past) :
    Gathered (codes ++ [made.2.code]) (done :: past) := by
  rw [Gathered, insertedIn, List.filterMap_cons_some inserts, List.reverse_cons, List.map_append,
    show (past.filterMap insertedBy).reverse.map _ = codes from gathered]
  rfl

structure Between (codes : List Text) (past : Past) : Prop where
  outside : Outside past
  secured : Secured past
  gathered : Gathered codes past

theorem between_draw {codes : List Text} {count : Nat} {bytes : List Nat}
    (between : Between codes past) : Between codes (⟨.randomBytes count, .ok bytes⟩ :: past) :=
  ⟨between.outside, secured_cons rfl between.secured, gathered_cons rfl between.gathered⟩

abbrev Any : Past → Cmd → Prop := fun _ _ => True

theorem randomCodes_gathers (count : Nat) {codes : List Text} (between : Between codes past) :
    Along Any (Ends fun batch after => batch.length = count ∧ Between codes after)
      (randomCodes count) past := by
  induction count generalizing past with
  | zero => exact ⟨rfl, between⟩
  | succ count ih =>
      refine along_perform _ _ trivial (fun bytes => ?_) fun _ => trivial
      refine along_then _ (ih (between_draw between)) ?_
      rintro others after ⟨length, between'⟩
      exact ⟨by simp [length], between'⟩

theorem insertBatch_gathers (actor : AuthUser) (dto : GenerateVouchersDto) (batch : List Text)
    {codes : List Text} (between : Between codes past) :
    Along Any (Ends fun inserted after => inserted.length ≤ batch.length ∧
      Between (codes ++ inserted) after) (insertBatch config actor dto batch) past := by
  unfold insertBatch
  split
  · refine along_tx trivial (fun _ => trivial) ?_
    refine along_collect (fun rest kept after => kept.length + rest.length ≤ batch.length ∧
      Securing after ∧ Gathered (codes ++ kept) after) _ ?_ ?_ batch ?_
    · rintro code rest kept after ⟨fits, securing, gathered⟩
      refine along_perform _ _ trivial (fun inserted => ?_) fun _ => trivial
      refine ⟨?_, securing_cons (by rintro ⟨⟩) securing, ?_⟩
      · cases inserted with
        | none => simp at fits ⊢; omega
        | some made => simp at fits ⊢; omega
      · cases inserted with
        | none => simpa using gathered_cons rfl gathered
        | some made =>
            have inserts : insertedBy
                ⟨.insert .vouchers (fun _ => newVoucher config actor dto code) true,
                  .ok (some made)⟩ = some made := rfl
            simpa using gathered_made inserts gathered
    · rintro inserted after ⟨fits, securing, gathered⟩
      exact ⟨trivial, by simpa using fits, trivial, secured_commit securing,
        gathered_cons rfl gathered⟩
    · refine ⟨by simp, securing_cons (by rintro ⟨⟩) (secured_securing between.secured), ?_⟩
      simpa using gathered_cons rfl between.gathered
  · trivial

theorem generateLoop_gathers (actor : AuthUser) (dto : GenerateVouchersDto) (attempts : Nat)
    (codes : List Text) (fits : codes.length ≤ dto.count) (between : Between codes past) :
    Along Any (Ends fun codes after => codes.length = dto.count ∧ Between codes after)
      (generateLoop config actor dto attempts codes) past := by
  induction attempts generalizing past codes with
  | zero =>
      unfold generateLoop
      split
      · trivial
      · exact ⟨by omega, between⟩
  | succ attempts ih =>
      unfold generateLoop
      split
      · refine along_then _ (randomCodes_gathers _ between) ?_
        rintro batch after ⟨length, between'⟩
        refine along_then _ (insertBatch_gathers actor dto batch between') ?_
        rintro inserted later ⟨fewer, grown⟩
        refine ih _ ?_ grown
        rw [List.length_append]
        omega
      · exact ⟨by omega, between⟩

/-- A generation that answers has listed the codes that it has inserted. -/
def Gathers (call : Call) : Except Failure Reply → Past → Prop :=
  Ends fun reply past => ∀ actor dto attempts, call = .generate actor dto attempts →
    ∃ codes rows answer older, reply = .vouchers rows ∧ codes.length = dto.count ∧
      past = ⟨.query (.vouchersByCodes codes), .ok rows⟩ ::
        ⟨.audit (some actor.id) "voucher.generate", answer⟩ :: older ∧ Between codes older

theorem call_gathers {config : Config} (call : Call) :
    Along Any (Gathers call) (call.program config) [] := by
  by_cases generates : ∃ actor dto attempts, call = .generate actor dto attempts
  · obtain ⟨actor, dto, attempts, rfl⟩ := generates
    refine along_then _ (generateLoop_gathers actor dto attempts [] (by simp)
      ⟨trivial, secured_nil, rfl⟩) ?_
    rintro codes past ⟨count, between⟩
    refine along_then (fun _ after => ∃ answer,
      after = ⟨.audit (some actor.id) "voucher.generate", answer⟩ :: past) ?_ ?_
    · apply along_rescue
      exact ⟨trivial, fun answer => by cases answer <;> exact ⟨_, rfl⟩⟩
    · rintro _ _ ⟨answer, rfl⟩
      refine along_perform _ _ trivial (fun rows => ?_) fun _ => trivial
      rintro _ _ _ ⟨⟩
      exact ⟨codes, rows, answer, past, rfl, count, rfl, between⟩
  · refine along_mono (fun _ _ _ => trivial) ?_ _ (uses_along _ (call_uses call))
    rintro (error | reply) past _
    · trivial
    · exact fun actor dto attempts same => absurd ⟨actor, dto, attempts, same⟩ generates

end Order

theorem insertedBy_done {done : Done Cmd Res Failure} {made : Nat × VoucherRow}
    (inserts : insertedBy done = some made) :
    ∃ row skip, done = ⟨.insert .vouchers row skip, .ok (some made)⟩ := by
  unfold insertedBy at inserts
  split at inserts
  · cases inserts
    exact ⟨_, _, rfl⟩
  · cases inserts

theorem insertedBy_inserted {event : Event} {made : Nat × VoucherRow}
    (inserts : insertedBy event.done = some made) : event.Inserted .vouchers made.1 := by
  obtain ⟨row, skip, same⟩ := insertedBy_done inserts
  exact ⟨row, skip, made.2, same⟩

/-- A transaction of the thread inserted the voucher. -/
def Created (world : World) (thread id : Nat) : Prop :=
  ∃ (index : Nat) (acts : List Entry) (row : VoucherRow),
    world.db.log[index]? = some (thread, acts) ∧ create .vouchers id row ∈ acts

/-- The columns of a voucher that no UPDATE sets. -/
def VoucherTerms (before after : VoucherRow) : Prop :=
  after.code = before.code ∧ after.durationMinutes = before.durationMinutes ∧
    after.deviceLimit = before.deviceLimit ∧ after.expiresAt = before.expiresAt ∧
    after.createdBy = before.createdBy

theorem voucherTerms_trans (first second third : VoucherRow) (left : VoucherTerms first second)
    (right : VoucherTerms second third) : VoucherTerms first third := by
  obtain ⟨code, duration, limit, expires, creator⟩ := left
  obtain ⟨code', duration', limit', expires', creator'⟩ := right
  exact ⟨code'.trans code, duration'.trans duration, limit'.trans limit, expires'.trans expires,
    creator'.trans creator⟩

theorem op_voucherTerms (op : VoucherOp) (now : Time) (v : VoucherRow) :
    VoucherTerms v (Op.run .vouchers op now v) := by
  cases op <;> exact ⟨rfl, rfl, rfl, rfl, rfl⟩

section Runs
variable {config : Config} {pool : ServerPool} (reached : Reached config pool)
include reached

theorem inserted_wrote {event : Event} (member : event ∈ pool.state.hist) {table : TableName}
    {row : Time → Row table} {skip : Bool} {id : Nat} {made : Row table}
    (inserted : event.done = ⟨.insert table row skip, .ok (some (id, made))⟩) :
    event.Wrote (create table id made) := by
  refine reached_events (fun event => event.done = ⟨.insert table row skip, .ok (some (id, made))⟩ →
    event.Wrote (create table id made)) ?_ reached event member inserted
  intro pool thread cmd choice answer after _ executed same
  cases same
  have deed := exec_deed executed
  generalize after.db = db at deed
  cases deed with
  | read reads => exact reads.elim
  | inserted free single written => exact .insert

theorem created_inserted {index thread id : Nat} {acts : List Entry} {row : VoucherRow}
    (found : pool.state.db.log[index]? = some (thread, acts))
    (member : create .vouchers id row ∈ acts) :
    (id, row) ∈ insertedIn (pastOf pool.state.hist thread) ∧
      ∃ event ∈ pool.state.hist, event.thread = thread ∧ event.Inserted .vouchers id := by
  obtain ⟨_, _, write, written⟩ := block_written (reached_chronicle reached) found member
  have listed := List.mem_of_getElem? written.found
  have wrote := written.wrote
  have same : ∃ made skip, write.done = ⟨.insert .vouchers made skip, .ok (some (id, row))⟩ := by
    generalize entry : create .vouchers id row = act at wrote
    cases wrote with
    | update =>
        simp only [create, alter, RowLock.Entry.mk.injEq] at entry
        obtain ⟨rfl, _, impossible⟩ := entry
        cases impossible
    | delete =>
        simp only [create, remove, RowLock.Entry.mk.injEq] at entry
        obtain ⟨impossible, _⟩ := entry
        cases impossible
    | insert =>
        simp only [create, RowLock.Entry.mk.injEq] at entry
        obtain ⟨rfl, rfl, same⟩ := entry
        rw [heq_eq_eq, Act.insert.injEq] at same
        subst same
        exact ⟨_, _, rfl⟩
  obtain ⟨made, skip, done⟩ := same
  refine ⟨List.mem_filterMap.mpr ⟨write.done, mem_pastOf.mpr ⟨write, listed, written.own, rfl⟩, ?_⟩,
    write, listed, written.own, made, skip, row, done⟩
  rw [done]
  rfl

theorem created_once {thread other id : Nat} (created : Created pool.state thread id)
    (created' : Created pool.state other id) : thread = other := by
  obtain ⟨_, _, _, found, member⟩ := created
  obtain ⟨_, _, _, found', member'⟩ := created'
  obtain ⟨_, event, listed, rfl, inserted⟩ := created_inserted reached found member
  obtain ⟨_, event', listed', rfl, inserted'⟩ := created_inserted reached found' member'
  by_contra different
  have same : event ≠ event' := by
    rintro rfl
    exact different rfl
  exact (reached_numbered reached).separate.forall listed listed' same .vouchers id
    inserted inserted'

theorem inserted_nodup (thread : Nat) :
    ((insertedIn (pastOf pool.state.hist thread)).map Prod.fst).Nodup := by
  rw [List.nodup_iff_pairwise_ne, insertedIn, pastOf, List.pairwise_map, List.pairwise_filterMap,
    List.pairwise_reverse, List.pairwise_map]
  refine ((reached_numbered reached).separate.filter _).imp ?_
  intro first second separate made inserts made' inserts' same
  exact separate .vouchers made'.1 (insertedBy_inserted inserts')
    (same ▸ insertedBy_inserted inserts)

theorem secured_created {thread pos : Nat} {event : Event}
    (found : pool.state.hist[pos]? = some event)
    (secured : Secured (pastOf (pool.state.hist.take pos) thread)) {made : Nat × VoucherRow}
    (member : made ∈ insertedIn (pastOf (pool.state.hist.take pos) thread)) :
    ∃ (index : Nat) (acts : List Entry), pool.state.db.log[index]? = some (thread, acts) ∧
      create .vouchers made.1 made.2 ∈ acts ∧ index < event.commits := by
  obtain ⟨done, listed, inserts⟩ := List.mem_filterMap.mp member
  obtain ⟨newer, older, split⟩ := List.append_of_mem listed
  obtain ⟨later, between, rfl, open'⟩ := secured newer done older made split inserts
  rw [List.append_assoc, List.cons_append] at split
  obtain ⟨commitAt, commit, committed, own, same, sooner⟩ := pastOf_step split
  rw [List.getElem?_take, Option.ite_none_right_eq_some] at committed
  obtain ⟨before, committed⟩ := committed
  rw [List.take_take, Nat.min_eq_left (Nat.le_of_lt before)] at sooner
  obtain ⟨writeAt, write, early, wrote, own', rfl, rest⟩ := pastOf_split sooner
  have unclosed : Unclosed pool.state.hist write.thread writeAt commitAt :=
    fun at' other low high found' mine => open' _ (rest at' other low high found' (mine.trans own'))
  obtain ⟨_, _, shape⟩ := insertedBy_done inserts
  have written := inserted_wrote reached (List.mem_of_getElem? wrote) shape
  obtain ⟨block, inside⟩ := reached_delivered reached writeAt commitAt write commit _ wrote written
    (by simp [create]) committed (own.trans own'.symm) (same ▸ answered_lands) early unclosed
  refine ⟨commit.commits, commit.pending, own' ▸ block, inside, ?_⟩
  have order := history_order (reached_timeline reached) before committed found
  refine order.closed ?_
  obtain ⟨mover, cmd, answer, time, commits, pending, view⟩ := commit
  cases same
  exact ⟨_, _, _, _, _, _, .answered, rfl, List.ne_nil_of_mem inside⟩

variable {thread : Nat} {actor : AuthUser} {dto : GenerateVouchersDto} {attempts : Nat}
  (called : pool.state.arrivals[thread]? = some (.generate actor dto attempts))
include called

theorem created_terms {index commits : Nat} {acts : List Entry} {id : Nat} {row : VoucherRow}
    (found : pool.state.db.log[index]? = some (thread, acts))
    (member : create .vouchers id row ∈ acts) (later : index < commits)
    (bound : commits ≤ pool.state.db.log.length) :
    ∃ v : VoucherRow, storeAfter pool.state.db.log commits .vouchers id = some v ∧
      v.code = row.code ∧ v.durationMinutes = dto.durationMinutes ∧
      v.deviceLimit = dto.deviceLimit ∧ v.expiresAt = dto.expiresAt.bind config.timestamptz ∧
      v.createdBy = actor.id := by
  have legit := reached_legit reached
  obtain ⟨call, called', lawful⟩ := block_lawful legit found
  rw [called, Option.some.injEq] at called'
  subst called'
  cases lawful with
  | nothing => cases member
  | generate stored fresh =>
      obtain ⟨key, code, free, same⟩ := fresh _ member
      obtain rfl : id = key := congrArg RowLock.Entry.id same
      have absent : storeAfter pool.state.db.log index .vouchers id = none := free
      have made : ∀ v : VoucherRow, storeAfter pool.state.db.log (index + 1) .vouchers id = some v →
          v = row := by
        intro v present
        rw [storeAfter_succ _ _ _ found] at present
        have inside : create .vouchers id v ∈ acts := by
          refine replay_made _ .vouchers id (fun v => create .vouchers id v ∈ acts)
            (fun _ _ => False) (fun _ _ _ => False.elim) acts (fun entry listed _ here => Or.inr ?_)
            (fun v old => ?_) present
          · obtain ⟨key, code, _, rfl⟩ := fresh entry listed
            obtain rfl : key = id := here
            exact ⟨_, rfl, listed⟩
          · rw [absent] at old
            cases old
        have pair := List.inj_on_of_nodup_map (inserted_nodup reached thread)
          (created_inserted reached found inside).1 (created_inserted reached found member).1 rfl
        exact (Prod.mk.inj pair).2
      have there : (storeAfter pool.state.db.log (index + 1) .vouchers id).isSome := by
        obtain ⟨before, after, rfl⟩ := List.append_of_mem member
        rw [storeAfter_succ _ _ _ found, replay_append, replay_cons]
        refine replay_stays after _ (fun entry listed => ?_) .vouchers id (by simp) (by simp)
        obtain ⟨_, _, _, rfl⟩ := fresh entry (by simp [listed])
        trivial
      obtain ⟨v, present⟩ := Option.isSome_iff_exists.mp there
      obtain rfl := made v present
      have terms : v = newVoucher config actor dto code := by
        simp only [create, RowLock.Entry.mk.injEq, heq_eq_eq, true_and, Act.insert.injEq] at same
        exact same
      obtain ⟨last, stays, code', duration, limit, expires, creator⟩ := row_related legit (by simp)
        (by simp) VoucherTerms (fun _ => ⟨rfl, rfl, rfl, rfl, rfl⟩) voucherTerms_trans
          op_voucherTerms
        later bound present
      rw [terms] at duration limit expires creator
      exact ⟨last, stays, code', duration, limit, expires, creator⟩

omit called in
theorem code_single {commits : Nat} (bound : commits ≤ pool.state.db.log.length) {id key : Nat}
    {v other : VoucherRow} (present : storeAfter pool.state.db.log commits .vouchers id = some v)
    (present' : storeAfter pool.state.db.log commits .vouchers key = some other)
    (same : v.code = other.code) : id = key := by
  obtain ⟨earlier, reached', _, store⟩ := reached_commit reached bound
  rw [← store] at present present'
  by_contra different
  have apart := (reached_unique reached').stored .vouchers id key v other different present present'
  simp [conflicts, same] at apart

/-- The list that a generation answers, by the vouchers of its own blocks. -/
structure Batch (config : Config) (world : World) (thread : Nat) (actor : AuthUser)
    (dto : GenerateVouchersDto) (rows : List (Nat × VoucherRow)) : Prop where
  count : rows.length = dto.count
  distinct : (rows.map fun row => row.2.code).Nodup
  own : ∀ id, (∃ v, (id, v) ∈ rows) ↔ Created world thread id
  terms : ∀ id v, (id, v) ∈ rows → v.durationMinutes = dto.durationMinutes ∧
    v.deviceLimit = dto.deviceLimit ∧ v.expiresAt = dto.expiresAt.bind config.timestamptz ∧
      v.createdBy = actor.id

omit reached called in
theorem listed_perm {store : Store} {rows made : List (Nat × VoucherRow)} {codes : List Text}
    (gathered : made.reverse.map (fun voucher => voucher.2.code) = codes)
    (listed : ∀ id v, (id, v) ∈ rows ↔ store .vouchers id = some v ∧ v.code ∈ codes)
    (once : (rows.map Prod.fst).Nodup) (apart : (made.map Prod.fst).Nodup)
    (stored : ∀ voucher ∈ made, ∃ v : VoucherRow, store .vouchers voucher.1 = some v ∧
      v.code = voucher.2.code)
    (single : ∀ id key, ∀ v other : VoucherRow, store .vouchers id = some v →
      store .vouchers key = some other → v.code = other.code → id = key) :
    (rows.map Prod.fst).Perm (made.map Prod.fst) := by
  refine (List.perm_ext_iff_of_nodup once apart).mpr fun id => ?_
  subst gathered
  simp only [List.mem_map, Prod.exists, exists_and_right, exists_eq_right, listed, List.mem_reverse]
  constructor
  · rintro ⟨v, present, key, row, member, same⟩
    obtain ⟨other, present', same'⟩ := stored (key, row) member
    obtain rfl := single id key v other present present' (same.symm.trans same'.symm)
    exact ⟨row, member⟩
  · rintro ⟨row, member⟩
    obtain ⟨v, present, same⟩ := stored (id, row) member
    exact ⟨v, present, id, row, member, same.symm⟩

/-- The final SELECT sees, at one committed state, every voucher that the generation has inserted,
and nothing else. -/
theorem generation_lists {rows : List (Nat × VoucherRow)}
    (ended : pool.threads[thread]? = some (some (.done (.vouchers rows)))) :
    ∃ commits ≤ pool.state.db.log.length, ∃ codes : List Text, codes.length = dto.count ∧
      (insertedIn (pastOf pool.state.hist thread)).reverse.map (fun voucher => voucher.2.code) =
        codes ∧
      (∀ id v, (id, v) ∈ rows ↔
        storeAfter pool.state.db.log commits .vouchers id = some v ∧ v.code ∈ codes) ∧
      (rows.map Prod.fst).Nodup ∧
      ∀ voucher ∈ insertedIn (pastOf pool.state.hist thread), Created pool.state thread voucher.1 ∧
        ∃ v : VoucherRow, storeAfter pool.state.db.log commits .vouchers voucher.1 = some v ∧
          v.code = voucher.2.code ∧ v.durationMinutes = dto.durationMinutes ∧
          v.deviceLimit = dto.deviceLimit ∧ v.expiresAt = dto.expiresAt.bind config.timestamptz ∧
          v.createdBy = actor.id := by
  have orderly := reachable_orderly (server_records config) call_gathers rfl (fun _ => rfl) reached
  have gathers : Gathers (.generate actor dto attempts) (.ok (.vouchers rows)) _ :=
    orderly.threads thread _ _ ended called
  obtain ⟨codes, _, answer, older, ⟨⟩, count, past, between⟩ := gathers _ _ _ rfl
  obtain ⟨pos, event, found, rfl, same, sooner⟩ := pastOf_step
    (show _ = [] ++ _ :: _ from past)
  have bound := ((reached_timeline reached).past event (List.mem_of_getElem? found)).commits
  have outside : Outside (pastOf (pool.state.hist.take pos) event.thread) := by
    rw [sooner]
    exact between.outside
  obtain ⟨view, shows, rfl, _⟩ := (reached_reveals reached found (Or.inl outside)).asked _ _ same
  have whole : insertedIn (pastOf pool.state.hist event.thread) = insertedIn older := by
    rw [past]
    rfl
  have kept : insertedIn (pastOf (pool.state.hist.take pos) event.thread) = insertedIn older := by
    rw [sooner]
    rfl
  have secured : Secured (pastOf (pool.state.hist.take pos) event.thread) := by
    rw [sooner]
    exact secured_cons rfl between.secured
  refine ⟨event.commits, bound, codes, count, whole ▸ between.gathered, ?_, ?_, ?_⟩
  · intro id v
    refine (List.mem_insertionSort _).trans (mem_scan.trans ?_)
    rw [shows.same, List.contains_iff_mem]
    exact and_iff_right_of_imp fun inside =>
      shows.numbered .vouchers id (Option.isSome_of_eq_some inside.1)
  · exact ((List.perm_insertionSort _ _).map Prod.fst).nodup_iff.mpr (scan_once view .vouchers _)
  · intro voucher made
    obtain ⟨index, acts, block, inside, early⟩ :=
      secured_created reached found secured (kept ▸ whole ▸ made)
    exact ⟨⟨index, acts, voucher.2, block, inside⟩,
      created_terms reached called block inside early bound⟩

theorem generated_batch {rows : List (Nat × VoucherRow)}
    (ended : pool.threads[thread]? = some (some (.done (.vouchers rows)))) :
    Batch config pool.state thread actor dto rows ∧ ∃ commits ≤ pool.state.db.log.length,
      ∀ id v, (id, v) ∈ rows → storeAfter pool.state.db.log commits .vouchers id = some v := by
  obtain ⟨commits, bound, codes, count, gathered, listed, once, stored⟩ :=
    generation_lists reached called ended
  have single := fun id key v other => @code_single _ _ reached _ bound id key v other
  have perm := listed_perm gathered listed once (inserted_nodup reached thread)
    (fun voucher made => (stored voucher made).2.imp fun _ known => ⟨known.1, known.2.1⟩) single
  have made : ∀ id v, (id, v) ∈ rows →
      ∃ row, (id, row) ∈ insertedIn (pastOf pool.state.hist thread) := by
    intro id v inside
    obtain ⟨⟨key, row⟩, known, rfl⟩ :=
      List.mem_map.mp (perm.mem_iff.mp (List.mem_map_of_mem inside))
    exact ⟨row, known⟩
  refine ⟨⟨?_, ?_, ?_, ?_⟩, commits, bound, fun id v inside => ((listed id v).mp inside).1⟩
  · have length := perm.length_eq
    rw [List.length_map, List.length_map] at length
    rw [length, ← count, ← gathered, List.length_map, List.length_reverse]
  · refine (List.Nodup.of_map _ once).map_on ?_
    rintro ⟨id, v⟩ inside ⟨key, other⟩ inside' equal
    have present := ((listed id v).mp inside).1
    have present' := ((listed key other).mp inside').1
    obtain rfl := single id key v other present present' equal
    rw [present, Option.some.injEq] at present'
    rw [present']
  · intro id
    constructor
    · rintro ⟨v, inside⟩
      obtain ⟨row, known⟩ := made id v inside
      exact (stored _ known).1
    · rintro ⟨index, acts, row, block, inside⟩
      have known := (created_inserted reached block inside).1
      obtain ⟨⟨key, v⟩, inside', rfl⟩ := List.mem_map.mp
        (perm.mem_iff.mpr (List.mem_map_of_mem known))
      exact ⟨v, inside'⟩
  · intro id v inside
    obtain ⟨row, known⟩ := made id v inside
    obtain ⟨_, other, present, _, terms⟩ := stored _ known
    rw [((listed id v).mp inside).1, Option.some.injEq] at present
    exact present ▸ terms

end Runs

/-- Under every interleaving a generation answers exactly the vouchers that it has created, as many
as were asked for, and no other generation answers any of them or of their codes. -/
theorem batches_apart (config : Config) (pool : ServerPool) (reached : Reached config pool)
    (thread : Nat) (actor : AuthUser) (dto : GenerateVouchersDto) (attempts : Nat)
    (called : pool.state.arrivals[thread]? = some (.generate actor dto attempts))
    (rows : List (Nat × VoucherRow))
    (ended : pool.threads[thread]? = some (some (.done (.vouchers rows)))) :
    Batch config pool.state thread actor dto rows ∧
      ∀ other actor' dto' attempts' rows', other ≠ thread →
        pool.state.arrivals[other]? = some (.generate actor' dto' attempts') →
        pool.threads[other]? = some (some (.done (.vouchers rows'))) →
        ∀ id v id' v', (id, v) ∈ rows → (id', v') ∈ rows' → id ≠ id' ∧ v.code ≠ v'.code := by
  obtain ⟨batch, commits, bound, stored⟩ := generated_batch reached called ended
  refine ⟨batch, ?_⟩
  intro other actor' dto' attempts' rows' different called' ended' id v id' v' member member'
  obtain ⟨batch', commits', bound', stored'⟩ := generated_batch reached called' ended'
  have apart : id ≠ id' := by
    rintro rfl
    exact different (created_once reached ((batch'.own id).mp ⟨v', member'⟩)
      ((batch.own id).mp ⟨v, member⟩))
  refine ⟨apart, fun same => apart ?_⟩
  obtain ⟨last, present, kept⟩ := row_related (reached_legit reached) (by simp)
    (by simp) VoucherTerms
    (fun _ => ⟨rfl, rfl, rfl, rfl, rfl⟩) voucherTerms_trans op_voucherTerms bound (Nat.le_refl _)
    (stored id v member)
  obtain ⟨last', present', kept'⟩ := row_related (reached_legit reached) (by simp) (by simp)
    VoucherTerms (fun _ => ⟨rfl, rfl, rfl, rfl, rfl⟩) voucherTerms_trans op_voucherTerms bound'
    (Nat.le_refl _) (stored' id' v' member')
  exact code_single reached (Nat.le_refl _) present present' (by rw [kept.1, kept'.1, same])

/-- Two generations that both draw the code of zeros first. -/
def sameDraw : List (Move Choice Call Ambient) :=
  opening ++ [.start (.generate staff hourVoucher 1), .start (.generate staff hourVoucher 2)] ++
    steps 1 1 ++ steps 2 1 ++ steps 1 3 ++ steps 2 3 ++
    [.advance 2 { random := List.replicate 12 1 }] ++ steps 2 5 ++ steps 1 2

def batchOf (pool : ServerPool) (thread : Nat) : Option (List Nat) :=
  match answerOf pool thread with
  | some (.ok (.vouchers rows)) => some (rows.map Prod.fst)
  | _ => none

theorem batchOf_done {pool : ServerPool} {thread : Nat} {ids : List Nat}
    (batch : batchOf pool thread = some ids) : ∃ rows,
      pool.threads[thread]? = some (some (.done (.vouchers rows))) ∧ rows.map Prod.fst = ids := by
  unfold batchOf at batch
  split at batch
  · rename_i rows answer
    cases batch
    exact ⟨rows, answerOf_ok answer, rfl⟩
  · cases batch

theorem batches_apart_drawn : ∃ (pool : ServerPool) (rows rows' : List (Nat × VoucherRow)),
    Reached shop pool ∧ rows.map Prod.fst = [1] ∧ rows'.map Prod.fst = [2] ∧
      Batch shop pool.state 1 staff hourVoucher rows ∧ ∀ id v id' v', (id, v) ∈ rows →
        (id', v') ∈ rows' → id ≠ id' ∧ v.code ≠ v'.code := by
  obtain ⟨pool, reached, arrivals, seen⟩ := play_shows shop sameDraw
    (fun pool => (batchOf pool 1, batchOf pool 2)) (some [1], some [2]) (by decide +kernel)
  obtain ⟨first, second⟩ := Prod.mk.inj seen
  obtain ⟨rows, ended, ids⟩ := batchOf_done first
  obtain ⟨rows', ended', ids'⟩ := batchOf_done second
  obtain ⟨batch, apart⟩ := batches_apart shop pool reached 1 staff hourVoucher 1
    (by rw [arrivals]; rfl) rows ended
  exact ⟨pool, rows, rows', reached, ids, ids', batch,
    apart 2 staff hourVoucher 2 rows' (by decide) (by rw [arrivals]; rfl) ended'⟩

end Cybera
