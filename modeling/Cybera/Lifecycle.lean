import Cybera.Commands
import Cybera.History

/-!
The life of a session: what each transaction does to one, and what follows for
its row between two points of the log.
-/

namespace Cybera

open Interleaving

@[simp] theorem toLowerCase_twice (text : Text) :
    toLowerCase (toLowerCase text) = toLowerCase text := by
  simp [toLowerCase]

/-- What a block writes on a session, by the row that it found. -/
inductive SessionEntry (world : World) (index thread : Nat) : Call → Entry → Prop where
  | settled {id elapsed : Nat} {now : Time} {s : SessionRow}
      (row : storeAfter world.db.log index .sessions id = some s) (active : s.status = .active)
      (positive : 0 < elapsed) :
      SessionEntry world index thread .tick (alter .sessions id (.settle elapsed) now)
  | vanished {id : Nat} {now : Time} {s : SessionRow}
      (row : storeAfter world.db.log index .sessions id = some s) (active : s.status = .active) :
      SessionEntry world index thread .tick (alter .sessions id (.finish .ended) now)
  | exhausted {id read : Nat} {now time : Time} {s : SessionRow} {found : List (Nat × SessionRow)}
      {pending : List Entry} {view : View}
      (asked : ⟨thread, .query .exhausted, .ok found, time, read, pending, view⟩ ∈ world.hist)
      (member : (id, s) ∈ found) :
      SessionEntry world index thread .tick (alter .sessions id (.finish .ended) now)
  | refreshed {user : AuthUser} {dto : ConnectDto} {id : Nat} {now : Time} {s : SessionRow}
      (row : storeAfter world.db.log index .sessions id = some s) (active : s.status = .active)
      (mine : s.userId = user.id) (same : s.deviceMac = toLowerCase dto.clientmac) :
      SessionEntry world index thread (.connect user dto)
        (alter .sessions id (.refresh dto.clientip dto.hid) now)
  | takenOver {user : AuthUser} {dto : ConnectDto} {id : Nat} {now : Time} {s : SessionRow}
      (row : storeAfter world.db.log index .sessions id = some s) (active : s.status = .active)
      (same : s.deviceMac = toLowerCase dto.clientmac) :
      SessionEntry world index thread (.connect user dto)
        (alter .sessions id (.finish .ended) now)
  | kicked {actor : AuthUser} {mac : Text} {id : Nat} {now : Time} {s : SessionRow}
      (row : storeAfter world.db.log index .sessions id = some s) (active : s.status = .active)
      (same : s.deviceMac = toLowerCase mac) :
      SessionEntry world index thread (.kick actor mac) (alter .sessions id (.finish .kicked) now)
  | opened {user : AuthUser} {dto : ConnectDto} {id : Nat} {now : Time}
      (absent : storeAfter world.db.log index .sessions id = none) :
      SessionEntry world index thread (.connect user dto) (create .sessions id
        (newSession user.id (toLowerCase dto.clientmac) dto.clientip dto.hid now))

section Entries
variable {config : Config} {world : World} {index thread : Nat} {call : Call} {acts : List Entry}

theorem settled_sessions {now date : Time}
    (pass : Settled (world.basisAt index) thread now date acts) :
    ∀ entry ∈ acts, entry.table = .sessions → SessionEntry world index thread .tick entry := by
  induction pass with
  | nothing => simp
  | settled _ row active owner positive devices ih =>
      intro entry member table
      simp only [List.mem_append, List.mem_cons] at member
      obtain earlier | rfl | rfl | device := member
      · exact ih entry earlier table
      · exact .settled row active positive
      · cases table
      · rw [devices entry device] at table
        cases table
  | vanished _ row active late ih =>
      intro entry member table
      rcases List.mem_append.mp member with earlier | latest
      · exact ih entry earlier table
      · rw [List.mem_singleton] at latest
        subst latest
        exact .vanished row active
  | exhausted _ asked member ih =>
      intro entry member' table
      rcases List.mem_append.mp member' with earlier | latest
      · exact ih entry earlier table
      · rw [List.mem_singleton] at latest
        subst latest
        exact .exhausted asked member

theorem lawful_sessions (lawful : Lawful config (world.basisAt index) thread call acts) :
    ∀ entry ∈ acts, entry.table = .sessions → SessionEntry world index thread call entry := by
  have tables := lawful_tables lawful
  intro entry member table
  have listed := tables entry member
  rw [table] at listed
  cases lawful with
  | nothing => cases member
  | refresh devices owner paid row active mine same =>
      rcases List.mem_append.mp member with device | latest
      · rw [devices entry device] at table
        cases table
      · rw [List.mem_singleton] at latest
        subst latest
        exact .refreshed row active mine same
  | opened devices owner paid closed fresh =>
      simp only [List.append_assoc, List.mem_append, List.mem_singleton] at member
      obtain device | finished | rfl := member
      · rw [devices entry device] at table
        cases table
      · obtain ⟨id, s, rfl, row, active, same⟩ := closed entry finished
        exact .takenOver row active same
      · exact .opened fresh
  | kick closed =>
      obtain ⟨id, s, rfl, row, active, same⟩ := closed entry member
      exact .kicked row active same
  | tick ordered pass => exact settled_sessions pass entry member table
  | _ => simp [Call.tables] at listed

theorem SessionEntry.alters {entry : Entry} (session : SessionEntry world index thread call entry)
    (present : (storeAfter world.db.log index .sessions entry.id).isSome) :
    ∃ op now, entry = alter .sessions entry.id op now ∧ Closing .sessions op := by
  cases session with
  | settled | refreshed => exact ⟨_, _, rfl, trivial⟩
  | vanished | exhausted | takenOver | kicked => exact ⟨_, _, rfl, by simp [Closing]⟩
  | opened absent =>
      have none' : storeAfter world.db.log index .sessions _ = none := absent
      simp [create, none'] at present

theorem session_alters (lawful : Lawful config (world.basisAt index) thread call acts) {id : Nat}
    (present : (storeAfter world.db.log index .sessions id).isSome) :
    ∀ entry ∈ acts, entry.table = .sessions → entry.id = id →
      ∃ op now, entry = alter .sessions id op now ∧ Closing .sessions op := by
  rintro entry member table rfl
  exact (lawful_sessions lawful entry member table).alters present

theorem closed_writes (lawful : Lawful config (world.basisAt index) thread call acts) {id : Nat}
    {s : SessionRow} (present : storeAfter world.db.log index .sessions id = some s)
    (inactive : s.status ≠ .active) : ∀ entry ∈ acts, entry.table = .sessions → entry.id = id →
      call = .tick ∧ ∃ now, entry = alter .sessions id (.finish .ended) now := by
  rintro entry member table rfl
  have apart : ∀ {other : SessionRow},
      storeAfter world.db.log index .sessions entry.id = some other → other.status ≠ .active := by
    intro other row
    rw [present, Option.some.injEq] at row
    exact row ▸ inactive
  cases lawful_sessions lawful entry member table with
  | settled row active | vanished row active | refreshed row active | takenOver row active
  | kicked row active => exact absurd active (apart row)
  | exhausted => exact ⟨rfl, _, rfl⟩
  | opened absent => cases present.symm.trans absent

/-- In a pass every write on a session has the same now(), and it ends none but as 'ended'. -/
theorem settled_now {basis : Basis} {now date : Time} (pass : Settled basis thread now date acts)
    {id : Nat} {op : SessionOp} {time : Time} (member : alter .sessions id op time ∈ acts) :
    time = now ∧ (∀ ip token, op ≠ .refresh ip token) ∧
      ∀ status, op = .finish status → status = .ended := by
  obtain device | ⟨id', elapsed, same⟩ | ⟨id', same⟩ | ⟨user, elapsed, id', same⟩ :=
    settled_entries pass _ member
  · cases device
  · cases same
    exact ⟨rfl, by simp, by simp⟩
  · cases same
    exact ⟨rfl, by simp, by simp⟩
  · cases same

theorem ended_alike (lawful : Lawful config (world.basisAt index) thread call acts) :
    ∃ status now, ∀ id status' now', alter .sessions id (.finish status') now' ∈ acts →
      status' = status ∧ now' = now := by
  by_cases touched : TableName.sessions ∈ call.tables
  · cases lawful with
    | nothing => exact ⟨.ended, 0, by simp⟩
    | refresh devices =>
        refine ⟨.ended, 0, fun id status now member => ?_⟩
        rcases List.mem_append.mp member with device | latest
        · cases devices _ device
        · cases List.mem_singleton.mp latest
    | @opened _ _ _ _ now _ _ devices _ _ closed =>
        refine ⟨.ended, now, fun id status now member => ?_⟩
        simp only [List.append_assoc, List.mem_append, List.mem_singleton] at member
        obtain device | finished | opens := member
        · cases devices _ device
        · obtain ⟨_, _, same, _⟩ := closed _ finished
          cases same
          exact ⟨rfl, rfl⟩
        · cases opens
    | @kick _ _ now _ closed =>
        refine ⟨.kicked, now, fun id status now member => ?_⟩
        obtain ⟨_, _, same, _⟩ := closed _ member
        cases same
        exact ⟨rfl, rfl⟩
    | @tick now _ _ _ pass =>
        refine ⟨.ended, now, fun id status time member => ?_⟩
        obtain ⟨rfl, _, ended⟩ := settled_now pass member
        exact ⟨ended status rfl, rfl⟩
    | _ => simp [Call.tables] at touched
  · refine ⟨.ended, 0, fun id status now member => ?_⟩
    exact absurd (lawful_tables lawful _ member) touched

theorem finish_left (lawful : Lawful config (world.basisAt index) thread call acts) {id : Nat}
    {status : SessionStatus} {now : Time} {s : SessionRow}
    (present : storeAfter world.db.log index .sessions id = some s)
    (member : alter .sessions id (.finish status) now ∈ acts) :
    ∃ after, replay acts (storeAfter world.db.log index) .sessions id = some after ∧
      after.status = status ∧ after.endedAt = some now := by
  have alters : AltersAt .sessions id acts :=
    lawful_alters lawful (by simp) (by simp) (by simp [present])
  obtain ⟨status', now', alike⟩ := ended_alike lawful
  obtain ⟨rfl, rfl⟩ := alike _ _ _ member
  obtain ⟨before, rest, rfl⟩ := List.append_of_mem member
  have earlier : AltersAt .sessions id before :=
    fun entry listed => alters entry (List.mem_append_left _ listed)
  have later : AltersAt .sessions id rest :=
    fun entry listed => alters entry (List.mem_append_right _ (List.mem_cons_of_mem _ listed))
  obtain ⟨middle, found, _⟩ := replay_same _ .sessions id before earlier present
  have moved : RowLock.runEntry Act.run (replay before (storeAfter world.db.log index))
      (alter .sessions id (.finish status) now) .sessions id =
        some (SessionOp.run now (.finish status) middle) := by
    rw [alter_same, found]
    rfl
  rw [replay_append, replay_cons]
  refine replay_acts _ .sessions id (fun row => row.status = status ∧ row.endedAt = some now)
    later ?_ moved ⟨rfl, rfl⟩
  intro op time row listed kept
  cases op with
  | finish other =>
      obtain ⟨rfl, rfl⟩ :=
        alike _ _ _ (List.mem_append_right before (List.mem_cons_of_mem _ listed))
      exact ⟨rfl, rfl⟩
  | settle | refresh => exact kept

theorem finished_inactive (lawful : Lawful config (world.basisAt index) thread call acts) {id : Nat}
    {status : SessionStatus} {now : Time} {s : SessionRow}
    (present : storeAfter world.db.log index .sessions id = some s)
    (member : alter .sessions id (.finish status) now ∈ acts) :
    ∃ after, replay acts (storeAfter world.db.log index) .sessions id = some after ∧
      after.status ≠ .active := by
  obtain ⟨after, left, rfl, _⟩ := finish_left lawful present member
  obtain ⟨op, time, same, closing⟩ :=
    session_alters lawful (Option.isSome_of_eq_some present) _ member rfl rfl
  cases same
  exact ⟨after, left, closing⟩

end Entries

section Rows
variable {config : Config} {world : World} (legit : Legit config world)
include legit

/-- A property of a session that every UPDATE but a closing one keeps, and every
closing one as well. -/
theorem session_stretch {holds : SessionRow → Prop}
    (step : ∀ op now row, Closing .sessions op → holds row → holds (SessionOp.run now op row))
    {id first last : Nat} {s : SessionRow} (ordered : first ≤ last)
    (bound : last ≤ world.db.log.length)
    (present : storeAfter world.db.log first .sessions id = some s) (start : holds s) :
    ∃ after, storeAfter world.db.log last .sessions id = some after ∧ holds after := by
  refine log_stretch legit (fun commits => ∃ after,
    storeAfter world.db.log commits .sessions id = some after ∧ holds after) ordered bound
    ⟨s, present, start⟩ ?_
  rintro index thread acts call _ _ _ _ lawful next ⟨middle, found, held⟩
  rw [next]
  exact replay_keeps _ .sessions id holds _ step acts
    (session_alters lawful (by simp [found])) found held

theorem inactive_stays {id first last : Nat} {s : SessionRow} (ordered : first ≤ last)
    (bound : last ≤ world.db.log.length)
    (present : storeAfter world.db.log first .sessions id = some s) (ended : s.status ≠ .active) :
    ∃ after, storeAfter world.db.log last .sessions id = some after ∧ after.status ≠ .active := by
  refine session_stretch legit (fun op now row closing ended => ?_) ordered bound present ended
  cases op with
  | finish status => exact closing
  | settle | refresh => exact ended

theorem ended_between {id first last : Nat} {s s' : SessionRow} (ordered : first ≤ last)
    (bound : last ≤ world.db.log.length)
    (present : storeAfter world.db.log first .sessions id = some s) (active : s.status = .active)
    (present' : storeAfter world.db.log last .sessions id = some s') (ended : s'.status ≠ .active) :
    ∃ index thread acts status now, first ≤ index ∧ index < last ∧
      world.db.log[index]? = some (thread, acts) ∧
        alter .sessions id (.finish status) now ∈ acts := by
  have either : (∃ row, storeAfter world.db.log last .sessions id = some row ∧
      row.status = .active) ∨ ∃ index thread acts status now, first ≤ index ∧ index < last ∧
        world.db.log[index]? = some (thread, acts) ∧
          alter .sessions id (.finish status) now ∈ acts := by
    refine log_stretch legit (fun commits => (∃ row,
      storeAfter world.db.log commits .sessions id = some row ∧ row.status = .active) ∨
        ∃ index thread acts status now, first ≤ index ∧ index < commits ∧
          world.db.log[index]? = some (thread, acts) ∧
            alter .sessions id (.finish status) now ∈ acts) ordered bound
              (Or.inl ⟨s, present, active⟩) ?_
    rintro index thread acts call low _ block _ lawful next (⟨row, found, still⟩ | earlier)
    · by_cases finishes : ∃ status now, alter .sessions id (.finish status) now ∈ acts
      · obtain ⟨status, now, member⟩ := finishes
        exact Or.inr ⟨index, thread, acts, status, now, low, Nat.lt_succ_self _, block, member⟩
      · left
        rw [next]
        refine replay_acts _ .sessions id (fun row => row.status = .active)
          (lawful_alters lawful (by simp) (by simp) (by simp [found])) ?_ found still
        intro op now row member active
        cases op with
        | finish status => exact absurd ⟨status, now, member⟩ finishes
        | settle | refresh => exact active
    · obtain ⟨index', thread', acts', status, now, low', high', rest⟩ := earlier
      exact Or.inr ⟨index', thread', acts', status, now, low', Nat.lt_succ_of_lt high', rest⟩
  rcases either with ⟨row, found, still⟩ | ending
  · rw [present', Option.some.injEq] at found
    exact absurd (found ▸ still) ended
  · exact ending

theorem created_between {id first last : Nat} (ordered : first ≤ last)
    (bound : last ≤ world.db.log.length)
    (absent : storeAfter world.db.log first .sessions id = none)
    (present : (storeAfter world.db.log last .sessions id).isSome) :
    ∃ index thread acts row, first ≤ index ∧ index < last ∧
      world.db.log[index]? = some (thread, acts) ∧ create .sessions id row ∈ acts := by
  have either : storeAfter world.db.log last .sessions id = none ∨
      ∃ index thread acts row, first ≤ index ∧ index < last ∧
        world.db.log[index]? = some (thread, acts) ∧ create .sessions id row ∈ acts := by
    refine log_stretch legit (fun commits => storeAfter world.db.log commits .sessions id = none ∨
      ∃ index thread acts row, first ≤ index ∧ index < commits ∧
        world.db.log[index]? = some (thread, acts) ∧ create .sessions id row ∈ acts)
      ordered bound (Or.inl absent) ?_
    rintro index thread acts call low _ block _ lawful next (still | earlier)
    · by_cases opens : ∃ row, create .sessions id row ∈ acts
      · obtain ⟨row, member⟩ := opens
        exact Or.inr ⟨index, thread, acts, row, low, Nat.lt_succ_self _, block, member⟩
      · left
        rw [next]
        refine replay_absent _ _ _ acts ?_ still
        rintro entry member table rfl
        cases lawful_sessions lawful entry member table with
        | opened => exact absurd ⟨_, member⟩ opens
        | _ => exact ⟨_, _, rfl⟩
    · obtain ⟨index', thread', acts', row, low', high', rest⟩ := earlier
      exact Or.inr ⟨index', thread', acts', row, low', Nat.lt_succ_of_lt high', rest⟩
  exact either.resolve_left (Option.isSome_iff_ne_none.mp present)

theorem sessions_always (holds : SessionRow → Prop)
    (fresh : ∀ userId mac ip token now, holds (newSession userId (toLowerCase mac) ip token now))
    (step : ∀ op now row, Closing .sessions op → holds row → holds (SessionOp.run now op row))
    {commits id : Nat} (bound : commits ≤ world.db.log.length) {s : SessionRow}
    (present : storeAfter world.db.log commits .sessions id = some s) : holds s := by
  refine log_induction legit (fun commits => ∀ s, storeAfter world.db.log commits .sessions id =
    some s → holds s) (by simp [storeAfter]) ?_ commits bound s present
  intro index thread acts call _ _ lawful next held s' found
  rw [next] at found
  refine replay_made _ .sessions id holds (fun op _ => Closing .sessions op) step acts ?_ held found
  rintro entry member table rfl
  cases lawful_sessions lawful entry member table with
  | opened => exact Or.inr ⟨_, rfl, fresh _ _ _ _ _⟩
  | settled | refreshed => exact Or.inl ⟨_, _, rfl, trivial⟩
  | vanished | exhausted | takenOver | kicked => exact Or.inl ⟨_, _, rfl, by simp [Closing]⟩

theorem macs_lower {commits id : Nat} (bound : commits ≤ world.db.log.length) {s : SessionRow}
    (present : storeAfter world.db.log commits .sessions id = some s) :
    toLowerCase s.deviceMac = s.deviceMac := by
  refine sessions_always legit (fun row => toLowerCase row.deviceMac = row.deviceMac)
    (fun _ _ _ _ _ => toLowerCase_twice _) ?_ bound present
  intro op now row _ lower
  have same : (SessionOp.run now op row).deviceMac = row.deviceMac :=
    (op_same .sessions op now row).2.1
  rwa [same]

end Rows
end Cybera
