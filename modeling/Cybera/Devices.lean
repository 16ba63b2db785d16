import Cybera.Books
import Cybera.Completion
import Cybera.DeviceLimit
import Cybera.Lifecycle
import Cybera.Portal

/-!
The devices of an account: which statements write them, that every session has the one of
its owner and MAC, and that the list of devices and the balance agree about who is online.
-/

namespace Cybera

open Interleaving

def DoneWrites : Done Cmd Res Failure → Prop
  | ⟨.update .., .ok (some _)⟩ => True
  | ⟨.insert .., .ok (some _)⟩ => True
  | ⟨.deletePlan _, .ok _⟩ => True
  | _ => False

/-- A connect updates the device that it found before it had written anything. -/
def LooksUp (call : Call) (past : List (Done Cmd Res Failure)) : Cmd → Prop
  | .update .devices id _ => ∀ user dto, call = .connect user dto → ∃ later earlier,
      past = later ++
        ⟨.query (.deviceOf user.id (toLowerCase dto.clientmac)), .ok (some id)⟩ :: earlier ∧
      ∀ done ∈ earlier, ¬ DoneWrites done
  | _ => True

def Cmd.Aside : Cmd → Prop
  | .update .devices _ _ => False
  | _ => True

def Cmd.Still : Cmd → Prop
  | .update .. | .insert .. | .deletePlan _ => False
  | _ => True

section Order
variable {config : Config} {user : AuthUser} {dto : ConnectDto} {call : Call}
  {past : List (Done Cmd Res Failure)}

theorem aside_looksUp (past : List (Done Cmd Res Failure)) (cmd : Cmd) (aside : cmd.Aside) :
    LooksUp call past cmd := by
  unfold LooksUp
  split
  · exact absurd aside id
  · trivial

theorem still_aside {cmd : Cmd} (still : cmd.Still) : cmd.Aside := by
  unfold Cmd.Aside
  split
  · exact still
  · trivial

theorem still_unwritten {cmd : Cmd} (answer : Except Failure (Res cmd)) (still : cmd.Still)
    (unwritten : ∀ done ∈ past, ¬ DoneWrites done) :
    ∀ done ∈ (⟨cmd, answer⟩ :: past : List (Done Cmd Res Failure)), ¬ DoneWrites done := by
  intro done member
  rcases List.mem_cons.mp member with rfl | earlier
  · cases cmd with
    | update | insert | deletePlan => exact absurd still id
    | _ => exact id
  · exact unwritten done earlier

theorem along_aside {α : Type} (program : Program α) (uses : program.Uses Cmd.Aside) :
    Along (LooksUp call) (Ends fun _ _ => True) program past := by
  refine along_mono (fun past cmd aside => aside_looksUp past cmd aside) ?_ program
    (uses_along program uses)
  rintro (error | value) after _ <;> trivial

theorem along_still {α : Type} (program : Program α) (uses : program.Uses Cmd.Still)
    (unwritten : ∀ done ∈ past, ¬ DoneWrites done) :
    Along (LooksUp call) (Ends fun _ past => ∀ done ∈ past, ¬ DoneWrites done) program past := by
  refine along_post ?_ _ (along_keeps (fun past => ∀ done ∈ past, ¬ DoneWrites done)
    (fun past cmd still _ => aside_looksUp past cmd (still_aside still))
    (fun _ _ answer still unwritten => still_unwritten answer still unwritten) program
      uses unwritten)
  rintro (error | value) after reached
  · trivial
  · exact reached

theorem upsertDevice_looksUp (unwritten : ∀ done ∈ past, ¬ DoneWrites done) :
    Along (LooksUp (.connect user dto)) (Ends fun _ _ => True)
      (upsertDevice user.id (toLowerCase dto.clientmac) dto.label) past := by
  refine along_perform _ _ trivial ?_ fun _ => trivial
  rintro (_ | made)
  · refine along_perform _ _ trivial (fun found => ?_) fun _ => trivial
    refine along_orThrow _ _ _ (fun _ => trivial) ?_
    rintro device rfl
    refine along_perform _ _ ?_ (fun _ => trivial) fun _ => trivial
    intro user' dto' same
    cases same
    refine ⟨[], _, rfl, ?_⟩
    intro done member
    rcases List.mem_cons.mp member with rfl | earlier
    · exact id
    · exact unwritten done earlier
  · trivial

theorem connect_looksUp (user : AuthUser) (dto : ConnectDto) :
    Along (LooksUp (.connect user dto)) (Ends fun _ _ => True)
      (SessionsService.connect config user dto) [] := by
  refine along_throwIf _ _ _ (fun _ => trivial) fun _ => ?_
  refine along_perform _ _ trivial (fun recent => ?_) fun _ => trivial
  refine along_throwIf _ _ _ (fun _ => trivial) fun _ => ?_
  refine along_then (fun _ _ => True) ?_ ?_
  · refine along_tx trivial (fun _ => trivial) ?_
    refine along_perform _ _ trivial (fun locked => ?_) fun _ => trivial
    refine along_orThrow _ _ _ (fun _ => trivial) ?_
    rintro account rfl
    refine along_throwIf _ _ _ (fun _ => trivial) fun _ => ?_
    refine along_then (fun _ past => ∀ done ∈ past, ¬ DoneWrites done) ?_ ?_
    · exact along_still _ (uses_lockActiveSessions _ (fun _ => trivial) fun _ => trivial)
        (by simp [DoneWrites])
    intro rows past unwritten
    refine along_throwIf _ _ _ (fun _ => trivial) fun _ => ?_
    refine along_then (fun _ _ => True) (upsertDevice_looksUp unwritten) fun _ _ _ => ?_
    refine along_then (fun _ _ => True) (along_aside _ ?_) fun _ _ _ => ⟨trivial, trivial⟩
    exact uses_openOrRefresh _ _ _ _ _ (fun _ => trivial) (fun _ => trivial) (fun _ => trivial)
      (fun _ => trivial) trivial
  · intro timeoutSeconds past _
    refine along_then (fun _ _ => True) (along_command _ trivial fun _ => trivial) fun _ _ _ => ?_
    exact along_then (fun _ _ => True) (along_aside _ (uses_audit trivial)) fun _ _ _ => trivial

theorem call_looksUp (call : Call) :
    Along (fun past cmd => call.mayDo cmd ∧ LooksUp call past cmd) (fun _ _ => True)
      (call.program config) [] := by
  have may : Along (fun _ cmd => call.mayDo cmd) (fun _ _ => True) (call.program config) [] :=
    along_mayDo call
  have looks : Along (LooksUp call) (fun _ _ => True) (call.program config) [] := by
    by_cases connects : ∃ user dto, call = .connect user dto
    · obtain ⟨user, dto, rfl⟩ := connects
      exact along_post (fun _ _ _ => trivial) _ (connect_looksUp user dto)
    · refine along_mono ?_ (fun _ _ _ => trivial) _ may
      intro past cmd _
      unfold LooksUp
      split
      · exact fun user dto same => absurd ⟨user, dto, same⟩ connects
      · trivial
  exact along_post (fun _ _ _ => trivial) _ (along_and _ may looks)

end Order

/-- What a block writes on a device. -/
inductive DeviceEntry (world : World) (index : Nat) : Call → Entry → Prop where
  | made {user : AuthUser} {dto : ConnectDto} {id : Nat} {now : Time}
      (absent : storeAfter world.db.log index .devices id = none) :
      DeviceEntry world index (.connect user dto) (create .devices id
        ⟨user.id, toLowerCase dto.clientmac, dto.label, now, now⟩)
  | relabelled {user : AuthUser} {dto : ConnectDto} {id : Nat} {now : Time} {d : DeviceRow}
      (row : storeAfter world.db.log index .devices id = some d) :
      DeviceEntry world index (.connect user dto) (alter .devices id (.relabel dto.label) now)
  | seen {id : Nat} {op : DeviceOp} {now : Time} :
      DeviceEntry world index .tick (alter .devices id op now)

section Entries
variable {config : Config} {pool : ServerPool} (reached : Reached config pool)
  {index thread : Nat} {call : Call} {acts : List Entry}
include reached

theorem connect_acts {user : AuthUser} {dto : ConnectDto}
    (found : pool.state.db.log[index]? = some (thread, acts))
    (called : pool.state.arrivals[thread]? = some (.connect user dto)) : ∃ now basis,
      (∀ table id row, basis.row table id row → storeAfter pool.state.db.log index table id = row) ∧
        ConnectActs basis user dto now acts := by
  obtain ⟨after, outcome, ended, log⟩ := block_outcome reached found called
  have found' : after.state.db.log[index]? = some (thread, acts) := by
    rw [← List.getElem?_take_of_lt (Nat.lt_succ_self index), log,
      List.getElem?_take_of_lt (Nat.lt_succ_self index), found]
  have before : after.state.db.log.take index = pool.state.db.log.take index := by
    rw [← Nat.min_eq_left (Nat.le_succ index), ← List.take_take, log, List.take_take]
  have committed : ConnectOutcome user dto thread outcome after.state := ended
  obtain ⟨now, writes⟩ := committed index acts found'
  refine ⟨now, _, ?_, writes⟩
  intro table id row known
  rwa [before, committedBasis, storeAfter_take] at known

theorem device_entries (found : pool.state.db.log[index]? = some (thread, acts))
    (called : pool.state.arrivals[thread]? = some call) :
    ∀ entry ∈ acts, entry.table = .devices → DeviceEntry pool.state index call entry := by
  intro entry member table
  obtain ⟨writeAt, _, write, written⟩ := block_written (reached_chronicle reached) found member
  obtain ⟨call', called', permitted⟩ :=
    reached_mayDo reached write (List.mem_of_getElem? written.found)
  rw [written.own, called, Option.some.injEq] at called'
  subst called'
  have wrote := written.wrote
  cases call with
  | connect user dto =>
      obtain ⟨now, basis, based, writes⟩ := connect_acts reached found called
      have device : ∀ {device : List Entry},
          DeviceActs basis user.id (toLowerCase dto.clientmac) dto.label now device →
            entry ∈ device → DeviceEntry pool.state index (.connect user dto) entry := by
        intro device devices listed
        cases devices with
        | new fresh =>
            obtain rfl := List.mem_singleton.mp listed
            exact .made (based _ _ _ fresh)
        | known row =>
            obtain rfl := List.mem_singleton.mp listed
            exact .relabelled (based _ _ _ row)
      cases writes with
      | refresh devices =>
          rcases List.mem_append.mp member with listed | latest
          · exact device devices listed
          · rw [List.mem_singleton.mp latest] at table
            cases table
      | opened devices closed =>
          simp only [List.append_assoc, List.mem_append, List.mem_singleton] at member
          obtain listed | finished | rfl := member
          · exact device devices listed
          · obtain ⟨id, s, rfl, _⟩ := closed entry finished
            cases table
          · cases table
  | tick =>
      cases wrote with
      | update =>
          cases table
          exact .seen
      | insert =>
          cases permitted.1
      | delete => cases table
  | _ =>
      exfalso
      cases wrote with
      | update | insert =>
          cases table
          simp [Call.mayDo, Call.tables, Call.inserts] at permitted
      | delete => cases table

theorem device_alters (found : pool.state.db.log[index]? = some (thread, acts)) {id : Nat}
    (present : (storeAfter pool.state.db.log index .devices id).isSome) :
    AltersAt .devices id acts := by
  rintro entry member table rfl
  obtain ⟨call, called, _⟩ := block_lawful (reached_legit reached) found
  cases device_entries reached found called entry member table with
  | made absent =>
      have none' : storeAfter pool.state.db.log index .devices _ = none := absent
      simp [create, none'] at present
  | relabelled | seen => exact ⟨_, _, rfl⟩

end Entries

/-- A device keeps its owner, its MAC and when it was first seen. -/
def SameDevice (before after : DeviceRow) : Prop :=
  after.userId = before.userId ∧ after.mac = before.mac ∧ after.firstSeen = before.firstSeen

section Rows
variable {config : Config} {pool : ServerPool} (reached : Reached config pool)
include reached

theorem device_kept {id first last : Nat} {d : DeviceRow} (ordered : first ≤ last)
    (bound : last ≤ pool.state.db.log.length)
    (present : storeAfter pool.state.db.log first .devices id = some d) :
    ∃ after, storeAfter pool.state.db.log last .devices id = some after ∧ SameDevice d after := by
  have trans : ∀ {first second third : DeviceRow}, SameDevice first second →
      SameDevice second third → SameDevice first third := fun left right =>
    ⟨right.1.trans left.1, right.2.1.trans left.2.1, right.2.2.trans left.2.2⟩
  refine log_stretch (reached_legit reached) (fun commits => ∃ after,
    storeAfter pool.state.db.log commits .devices id = some after ∧ SameDevice d after) ordered
    bound ⟨d, present, rfl, rfl, rfl⟩ ?_
  rintro index thread acts call _ _ found _ _ next ⟨middle, held, reach⟩
  obtain ⟨after, left, onward⟩ := replay_related _ .devices id SameDevice
    (fun _ => ⟨rfl, rfl, rfl⟩) (fun _ _ _ => trans)
    (fun op now row => by cases op <;> exact ⟨rfl, rfl, rfl⟩) acts
    (device_alters reached found (by simp [held])) held
  exact ⟨after, next ▸ left, trans reach onward⟩

end Rows

theorem pastOf_place {hist : List Event} {thread pos : Nat}
    {newer older : List (Done Cmd Res Failure)} {done : Done Cmd Res Failure}
    (split : pastOf (hist.take pos) thread = newer ++ done :: older) :
    ∃ (earlier : Nat) (event : Event), earlier < pos ∧ hist[earlier]? = some event ∧
      event.thread = thread ∧ event.done = done ∧ pastOf (hist.take earlier) thread = older := by
  induction pos generalizing newer with
  | zero =>
      rw [List.take_zero] at split
      have nothing : ([] : List (Done Cmd Res Failure)) = newer ++ done :: older := split
      simp at nothing
  | succ pos ih =>
      have shorter : ∀ {newer : List (Done Cmd Res Failure)},
          pastOf (hist.take pos) thread = newer ++ done :: older →
          ∃ (earlier : Nat) (event : Event), earlier < pos + 1 ∧ hist[earlier]? = some event ∧
            event.thread = thread ∧ event.done = done ∧
              pastOf (hist.take earlier) thread = older := by
        intro newer split
        obtain ⟨earlier, event, before, rest⟩ := ih split
        exact ⟨earlier, event, Nat.lt_succ_of_lt before, rest⟩
      cases found : hist[pos]? with
      | none =>
          rw [List.take_add_one, found, Option.toList_none, List.append_nil] at split
          exact shorter split
      | some event =>
          rw [List.take_add_one, found, Option.toList_some] at split
          by_cases own : event.thread = thread
          · rw [pastOf_own own] at split
            cases newer with
            | nil =>
                rw [List.nil_append, List.cons.injEq] at split
                exact ⟨pos, event, Nat.lt_succ_self _, found, own, split⟩
            | cons latest newer =>
                rw [List.cons_append, List.cons.injEq] at split
                exact shorter split.2
          · rw [pastOf_other own] at split
            exact shorter split

theorem wrote_writes {event : Event} {entry : Entry} (wrote : event.Wrote entry) :
    DoneWrites event.done := by
  cases wrote <;> trivial

section Owners
variable {config : Config} {pool : ServerPool} (reached : Reached config pool)
  {index thread : Nat} {acts : List Entry} {user : AuthUser} {dto : ConnectDto}
include reached

theorem relabelled_own (found : pool.state.db.log[index]? = some (thread, acts))
    (called : pool.state.arrivals[thread]? = some (.connect user dto)) {id : Nat} {op : DeviceOp}
    {now : Time} (member : alter .devices id op now ∈ acts) : ∃ d : DeviceRow,
      storeAfter pool.state.db.log index .devices id = some d ∧ d.userId = user.id ∧
        d.mac = toLowerCase dto.clientmac := by
  obtain ⟨writeAt, commitAt, write, written⟩ :=
    block_written (reached_chronicle reached) found member
  obtain ⟨call, called', permitted, looks⟩ :=
    reached_allowed call_looksUp reached writeAt write written.found
  rw [written.own, called, Option.some.injEq] at called'
  subst called'
  obtain ⟨writer, cmd, answer, time, commits, pending, view⟩ := write
  obtain rfl : writer = thread := written.own
  cases written.wrote
  obtain ⟨later, earlier, split, unwritten⟩ := looks user dto rfl
  obtain ⟨askedAt, asked, before, found', own, same, past⟩ := pastOf_place split
  -- nothing was written before the SELECT, so it saw committed rows
  have clean : asked.pending = [] := by
    rw [List.eq_nil_iff_forall_not_mem]
    intro entry listed
    obtain ⟨pos, event, low, seen, mine, wrote, _⟩ :=
      (reached_chronicle reached).pending askedAt asked found' entry listed
    refine unwritten event.done ?_ (wrote_writes wrote)
    rw [← past]
    exact mem_pastOf_take.mpr ⟨pos, event, low, seen, mine.trans own, rfl⟩
  have truthful := (reached_ready reached).truthful asked (List.mem_of_getElem? found')
  obtain ⟨_, time', view', _, committed⟩ := written.commit
  have earlier' : asked.commits ≤ index :=
    (history_order (reached_timeline reached) (Nat.lt_trans before written.before) found'
      committed).commits
  obtain ⟨_, cmd, answer, _, _, _, asking⟩ := asked
  cases same
  have rows : asking.rows = _ := truthful.rows
  obtain rfl : _ = [] := clean
  have answered : some id = Query.eval asking (.deviceOf user.id (toLowerCase dto.clientmac)) :=
    truthful.answered
  obtain ⟨⟨key, d⟩, first, rfl⟩ := Option.map_eq_some_iff.mp answered.symm
  obtain ⟨_, present, kept⟩ := mem_scan.mp (List.mem_of_head? first)
  rw [rows, replay_nil] at present
  have bound := (List.getElem?_eq_some_iff.mp found).1
  obtain ⟨after, left, owner, mac, _⟩ :=
    device_kept reached earlier' (Nat.le_of_lt bound) present
  have matching : d.userId = user.id ∧ d.mac = toLowerCase dto.clientmac := by simpa using kept
  exact ⟨after, left, owner.trans matching.1, mac.trans matching.2⟩

theorem connect_device (found : pool.state.db.log[index]? = some (thread, acts))
    (called : pool.state.arrivals[thread]? = some (.connect user dto)) : ∃ id, ∃ d : DeviceRow,
      storeAfter pool.state.db.log (index + 1) .devices id = some d ∧ d.userId = user.id ∧
        d.mac = toLowerCase dto.clientmac := by
  obtain ⟨now, basis, based, writes⟩ := connect_acts reached found called
  have after : ∀ device rest, acts = device ++ rest →
      DeviceActs basis user.id (toLowerCase dto.clientmac) dto.label now device →
        (∀ entry ∈ rest, entry.table ≠ .devices) → ∃ id, ∃ d : DeviceRow,
          storeAfter pool.state.db.log (index + 1) .devices id = some d ∧ d.userId = user.id ∧
            d.mac = toLowerCase dto.clientmac := by
    rintro device rest rfl devices apart
    rw [storeAfter_succ _ _ _ found]
    cases devices with
    | @new id fresh =>
        refine ⟨id, ⟨user.id, toLowerCase dto.clientmac, dto.label, now, now⟩, ?_, rfl, rfl⟩
        rw [replay_append, replay_table _ _ _ _ apart, replay_cons, replay_nil, create_same]
    | @known id d row =>
        obtain ⟨own, present, owner, mac⟩ := relabelled_own reached found called
          (List.mem_append_left rest List.mem_cons_self)
        refine ⟨id, DeviceOp.run now (.relabel dto.label) own, ?_, owner, mac⟩
        rw [replay_append, replay_table _ _ _ _ apart, replay_cons, replay_nil, alter_same, present]
        rfl
  cases writes with
  | refresh devices => exact after _ _ rfl devices (by simp [alter])
  | opened devices closed =>
      refine after _ _ (List.append_assoc _ _ _) devices ?_
      intro entry member
      rcases List.mem_append.mp member with finished | latest
      · obtain ⟨id, s, rfl, _⟩ := closed entry finished
        simp [alter]
      · rw [List.mem_singleton.mp latest]
        simp [create]

end Owners

/-- The device of an account with a MAC. -/
def HasDevice (store : Store) (userId : Nat) (mac : Text) : Prop :=
  ∃ id, ∃ d : DeviceRow, store .devices id = some d ∧ d.userId = userId ∧ d.mac = mac

theorem session_device {config : Config} {pool : ServerPool} (reached : Reached config pool)
    {commits : Nat} (bound : commits ≤ pool.state.db.log.length) (id : Nat) (s : SessionRow)
    (present : storeAfter pool.state.db.log commits .sessions id = some s) :
    HasDevice (storeAfter pool.state.db.log commits) s.userId s.deviceMac := by
  refine log_induction (reached_legit reached) (fun commits => ∀ id, ∀ s : SessionRow,
    storeAfter pool.state.db.log commits .sessions id = some s →
      HasDevice (storeAfter pool.state.db.log commits) s.userId s.deviceMac)
    (by simp [storeAfter]) ?_ commits bound id s present
  intro index thread acts call found called lawful next held id' s' present'
  rw [next] at present'
  refine replay_made _ .sessions id'
    (fun s => HasDevice (storeAfter pool.state.db.log (index + 1)) s.userId s.deviceMac)
    (fun _ _ => True) ?_ acts ?_ ?_ present'
  · intro op now row _ here
    obtain ⟨owner, mac, _⟩ := op_same .sessions op now row
    change HasDevice _ (SessionOp.run now op row).userId (SessionOp.run now op row).deviceMac
    rwa [show (SessionOp.run now op row).userId = row.userId from owner,
      show (SessionOp.run now op row).deviceMac = row.deviceMac from mac]
  · rintro entry member table rfl
    cases lawful_sessions lawful entry member table with
    | opened => exact Or.inr ⟨_, rfl, connect_device reached found called⟩
    | _ => exact Or.inl ⟨_, _, rfl, trivial⟩
  · intro row earlier
    obtain ⟨device, d, there, owner, mac⟩ := held id' row earlier
    have shorter := (List.getElem?_eq_some_iff.mp found).1
    obtain ⟨after, left, owner', mac', _⟩ :=
      device_kept reached (Nat.le_succ index) shorter there
    exact ⟨device, after, left, owner'.trans owner, mac'.trans mac⟩

structure DeviceItem where
  id : Nat
  device : DeviceRow
  online : Bool
  deriving DecidableEq

/-- SELECT …, EXISTS (an active session of the account on the MAC) AS online
FROM devices WHERE user_id = $1 ORDER BY last_seen DESC -/
def MeController.devices (view : View) (userId : Nat) : List DeviceItem :=
  ((view.scan .devices fun d => d.userId == userId).map fun (id, device) =>
    (⟨id, device, !(view.scan .sessions fun s => s.deviceMac == device.mac &&
      s.userId == device.userId && s.status == .active).isEmpty⟩ : DeviceItem)).insertionSort
    fun a b => b.device.lastSeen ≤ a.device.lastSeen

section Lists
variable {view : View} {rows : Store} {userId : Nat}

theorem scan_distinct {β : Type} (table : TableName) {keep : Row table → Bool}
    (column : Row table → β) (apart : ∀ id key, ∀ row other : Row table, id ≠ key →
      view.rows table id = some row → view.rows table key = some other → keep row = true →
        keep other = true → column row ≠ column other) :
    ((view.scan table keep).map fun found => column found.2).Nodup := by
  refine List.Nodup.map_on ?_ ((scan_once view table keep).of_map _)
  rintro ⟨id, row⟩ member ⟨key, other⟩ member' same
  obtain ⟨_, present, kept⟩ := mem_scan.mp member
  obtain ⟨_, present', kept'⟩ := mem_scan.mp member'
  by_cases here : id = key
  · subst here
    cases present.symm.trans present'
    rfl
  · exact absurd same (apart id key row other here present present' kept kept')

theorem devices_mem (shows : view.Shows rows) {item : DeviceItem} :
    item ∈ MeController.devices view userId ↔ rows .devices item.id = some item.device ∧
      item.device.userId = userId ∧ (item.online = true ↔ ∃ id, ∃ s : SessionRow,
        rows .sessions id = some s ∧ s.deviceMac = item.device.mac ∧ s.userId = userId ∧
          s.status = .active) := by
  have online : ∀ device : DeviceRow, (!(view.scan .sessions fun s => s.deviceMac == device.mac &&
      s.userId == device.userId && s.status == .active).isEmpty) = true ↔
        ∃ id, ∃ s : SessionRow, rows .sessions id = some s ∧ s.deviceMac = device.mac ∧
          s.userId = device.userId ∧ s.status = .active := by
    intro device
    rw [Bool.not_eq_true', List.isEmpty_eq_false_iff_exists_mem]
    constructor
    · rintro ⟨⟨id, s⟩, member⟩
      obtain ⟨_, present, kept⟩ := mem_scan.mp member
      simp only [Bool.and_eq_true, beq_iff_eq] at kept
      exact ⟨id, s, shows.same ▸ present, kept.1.1, kept.1.2, kept.2⟩
    · rintro ⟨id, s, present, here, owner, active⟩
      exact ⟨(id, s), mem_scan.mpr ⟨shows.numbered _ _ (by simp [present]), shows.same ▸ present,
        by simp [here, owner, active]⟩⟩
  simp only [MeController.devices, List.mem_insertionSort, List.mem_map, Prod.exists]
  constructor
  · rintro ⟨id, d, member, rfl⟩
    obtain ⟨_, present, owner⟩ := mem_scan.mp member
    have owner' : d.userId = userId := by simpa using owner
    refine ⟨shows.same ▸ present, owner', ?_⟩
    rw [← owner']
    exact online d
  · obtain ⟨id, d, flag⟩ := item
    intro ⟨present, owner, flagged⟩
    have owner : d.userId = userId := owner
    refine ⟨id, d, mem_scan.mpr ⟨shows.numbered _ _ (by simp [present]), shows.same ▸ present,
      by simp [owner]⟩, ?_⟩
    rw [DeviceItem.mk.injEq]
    refine ⟨rfl, rfl, ?_⟩
    rw [Bool.eq_iff_iff, online d, owner]
    exact flagged.symm

end Lists

section Agreement
variable {config : Config} {pool : ServerPool} (reached : Reached config pool) {view : View}
  (shows : view.Shows pool.state.db.store)
include reached shows

theorem devices_once (userId : Nat) :
    ((MeController.devices view userId).map fun item => item.device.mac).Nodup := by
  refine ((List.perm_insertionSort _ _).map _).nodup_iff.mpr ?_
  rw [List.map_map]
  refine scan_distinct .devices (fun d : DeviceRow => d.mac) ?_
  intro id key d other different present present' owner owner' same
  rw [shows.same] at present present'
  have apart := (reached_unique reached).stored .devices id key d other different present present'
  have owners : d.userId = userId ∧ other.userId = userId := by simpa using And.intro owner owner'
  simp [conflicts, owners, same] at apart

theorem sessions_once (userId : Nat) : ((view.scan .sessions fun s => s.userId == userId &&
    s.status == .active).map fun found => found.2.deviceMac).Nodup := by
  refine scan_distinct .sessions (fun s : SessionRow => s.deviceMac) ?_
  intro id key s other different present present' kept kept' same
  rw [shows.same] at present present'
  have apart := (reached_unique reached).stored .sessions id key s other different present present'
  simp only [Bool.and_eq_true, beq_iff_eq] at kept kept'
  simp [conflicts, kept, kept', same] at apart

theorem online_counted (userId : Nat) :
    ((MeController.devices view userId).filter DeviceItem.online).length =
      activeCount view userId := by
  have once := (devices_once reached shows userId).sublist
    ((List.filter_sublist (p := DeviceItem.online)).map fun item => item.device.mac)
  have same := (List.perm_ext_iff_of_nodup once (sessions_once reached shows userId)).mpr ?_
  · have lengths := same.length_eq
    rwa [List.length_map, List.length_map] at lengths
  intro mac
  simp only [List.mem_map, List.mem_filter, devices_mem shows]
  constructor
  · rintro ⟨item, ⟨⟨_, owner, flagged⟩, online⟩, rfl⟩
    obtain ⟨id, s, present, here, mine, active⟩ := flagged.mp online
    exact ⟨(id, s), mem_scan.mpr ⟨shows.numbered _ _ (by simp [present]), shows.same ▸ present,
      by simp [mine, active]⟩, here⟩
  · rintro ⟨⟨id, s⟩, member, rfl⟩
    obtain ⟨_, present, kept⟩ := mem_scan.mp member
    simp only [Bool.and_eq_true, beq_iff_eq] at kept
    rw [shows.same] at present
    have recorded := (reached_ready reached).recorded
    obtain ⟨device, d, there, owner, mac⟩ := session_device reached (Nat.le_refl _) id s
      (recorded ▸ present)
    rw [← recorded] at there
    refine ⟨⟨device, d, true⟩, ⟨⟨there, owner.trans kept.1, ?_⟩, rfl⟩, mac⟩
    exact ⟨fun _ => ⟨id, s, present, mac.symm, kept.1, kept.2⟩, fun _ => rfl⟩

end Agreement

/-- However calls interleave, the list of devices has each MAC once, with all that its account
ever had a session on, shows as many online as the balance counts, and never loses one. -/
theorem devices_agree (config : Config) (pool : ServerPool) (reached : Reached config pool)
    (view : View) (shows : view.Shows pool.state.db.store) (userId : Nat) :
    ((MeController.devices view userId).map fun item => item.device.mac).Nodup ∧
    ((MeController.devices view userId).filter DeviceItem.online).length = activeCount view userId ∧
    (∀ id, ∀ s : SessionRow, pool.state.db.store .sessions id = some s → s.userId = userId →
      ∃ item ∈ MeController.devices view userId, item.device.mac = s.deviceMac ∧
        (s.status = .active → item.online = true)) ∧
    ∀ commits ≤ pool.state.db.log.length, ∀ earlier : View,
      earlier.Shows (storeAfter pool.state.db.log commits) →
        ∀ item ∈ MeController.devices earlier userId, ∃ item' ∈ MeController.devices view userId,
          item'.id = item.id ∧ SameDevice item.device item'.device := by
  have recorded := (reached_ready reached).recorded
  have listed : ∀ id, ∀ d : DeviceRow, pool.state.db.store .devices id = some d →
      d.userId = userId → ∃ item ∈ MeController.devices view userId,
        item.id = id ∧ item.device = d := by
    intro id d present owner
    classical
    exact ⟨⟨id, d, decide (∃ id, ∃ s : SessionRow, pool.state.db.store .sessions id = some s ∧
      s.deviceMac = d.mac ∧ s.userId = userId ∧ s.status = .active)⟩,
      (devices_mem shows).mpr ⟨present, owner, decide_eq_true_iff⟩, rfl, rfl⟩
  refine ⟨devices_once reached shows userId, online_counted reached shows userId, ?_, ?_⟩
  · intro id s present owner
    obtain ⟨device, d, there, owner', mac⟩ := session_device reached (Nat.le_refl _) id s
      (recorded ▸ present)
    obtain ⟨item, member, _, rfl⟩ := listed device d (recorded ▸ there) (owner'.trans owner)
    refine ⟨item, member, mac, fun active => ?_⟩
    exact ((devices_mem shows).mp member).2.2.mpr ⟨id, s, present, mac.symm, owner, active⟩
  · intro commits bound earlier shows' item member
    obtain ⟨present, owner, _⟩ := (devices_mem shows').mp member
    obtain ⟨after, left, same⟩ := device_kept reached bound (Nat.le_refl _) present
    obtain ⟨item', member', key, rfl⟩ := listed item.id after (recorded ▸ left) (same.1.trans owner)
    exact ⟨item', member', key, same⟩

/-- The guest's phone comes and goes before the tablet is online. -/
def phoneThenTablet : List (Move Choice Call Ambient) :=
  opening ++ [.start (.grant staff 2 hourForTwo)] ++ steps 1 4 ++
    [.ambient (.clients [(phoneMac, ⟨some phoneMac, some phoneIp, some preauthenticated⟩),
      (tabletMac, ⟨some tabletMac, some phoneIp, some preauthenticated⟩)]),
      .start (.connect guest phone)] ++ steps 2 10 ++ [.start (.kick staff phoneMac)] ++
        steps 3 9 ++
    [.start (.connect guest tablet)] ++ steps 4 10

def onlineOf (view : View) (userId : Nat) : List (Text × Bool) :=
  (MeController.devices view userId).map fun item => (item.device.mac, item.online)

theorem devices_agree_tablet : ∃ pool, Reached shop pool ∧
    onlineOf (viewNow pool) 2 = [(phoneMac, false), (tabletMac, true)] ∧
    ((MeController.devices (viewNow pool) 2).filter DeviceItem.online).length =
      activeCount (viewNow pool) 2 := by
  obtain ⟨pool, reached, _, seen⟩ := play_shows shop phoneThenTablet
    (fun pool => onlineOf (viewNow pool) 2) [(phoneMac, false), (tabletMac, true)]
    (by decide +kernel)
  have shows := viewNow_shows reached
  rw [← (reached_ready reached).recorded] at shows
  exact ⟨pool, reached, seen, (devices_agree shop pool reached (viewNow pool) shows 2).2.1⟩

end Cybera
