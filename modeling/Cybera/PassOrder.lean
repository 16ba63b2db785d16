import Cybera.Exclusion

/-!
One reconciliation pass in program order: what stands behind each of its steps.
-/

namespace Cybera

open Interleaving

abbrev Past := List (Done Cmd Res Failure)

/-- The clients in the pass's output of `ndsctl json`. -/
def Reported (past : Past) (clients : NdsClients) : Prop := ⟨.ndsctl .json, .ok clients⟩ ∈ past

/-- The session as the pass has locked it. -/
def Met (past : Past) (id : Nat) (s : SessionRow) : Prop :=
  ⟨.lock .sessions id, .ok (some s)⟩ ∈ past ∧ s.status = .active

def Looked (past : Past) (date : Time) : Prop := ⟨.dateNow, .ok date⟩ ∈ past

def Listed (past : Past) (found : List (Nat × SessionRow)) : Prop :=
  ⟨.query .exhausted, .ok found⟩ ∈ past

def Recalled (past : Past) (known : List Text) : Prop := ⟨.query .stillActive, .ok known⟩ ∈ past

def Opened (past : Past) : Prop := ⟨.begin, .ok ()⟩ ∈ past

def Committed (past : Past) : Prop := ⟨.commit, .ok ()⟩ ∈ past

def Never (cmd : Cmd) (past : Past) : Prop := ∀ done ∈ past, done.1 ≠ cmd

/-- Still in the pass's first transaction. -/
def Unended (past : Past) : Prop := ∀ done ∈ past, ¬ done.1.Closes

/-- The scan for the locking SELECT has met each session once. -/
def Distinct (past : Past) : Prop :=
  ∀ found : List (Nat × Nat), ⟨.query .settlementRows, .ok found⟩ ∈ past →
    (found.map fun ids => ids.1).Nodup

def Unsettled (past : Past) (id : Nat) : Prop :=
  Distinct past → ∀ elapsed, Never (.update .sessions id (.settle elapsed)) past

/-- Step 2: the session is online and has run for `elapsed` seconds. -/
def Owing (past : Past) (id elapsed : Nat) (s : SessionRow) : Prop :=
  ∃ clients date, Reported past clients ∧ Met past id s ∧ Looked past date ∧
    isOnline (authedClients clients) (toLowerCase s.deviceMac) = true ∧
      elapsed = elapsedSeconds date s.lastTick ∧ 0 < elapsed

/-- Step 3: the session's client is gone. -/
def Vanished (past : Past) (id : Nat) : Prop :=
  ∃ clients date s, Reported past clients ∧ Met past id s ∧ Looked past date ∧
    isOnline (authedClients clients) (toLowerCase s.deviceMac) = false ∧
      connectGraceMs < date - s.startedAt ∧ Never (.query .exhausted) past

/-- Step 2 is done: every locked session that is online is settled. -/
def PaidUp (clients : NdsClients) (date : Time) (past : Past) : Prop :=
  ∀ id s, Met past id s → isOnline (authedClients clients) (toLowerCase s.deviceMac) = true →
    0 < elapsedSeconds date s.lastTick →
      ∃ row, ⟨.update .sessions id (.settle (elapsedSeconds date s.lastTick)), .ok row⟩ ∈ past

/-- Step 3: the client of the locked session is gone for good. -/
def Departed (clients : NdsClients) (date : Time) (past : Past) (id : Nat) : Prop :=
  ∃ s, Met past id s ∧ isOnline (authedClients clients) (toLowerCase s.deviceMac) = false ∧
    connectGraceMs < date - s.startedAt

/-- Step 3 is done: every locked session that has departed is ended. -/
def SeenOff (clients : NdsClients) (date : Time) (past : Past) : Prop :=
  ∀ id, Departed clients date past id →
    ∃ row, ⟨.update .sessions id (.finish .ended), .ok row⟩ ∈ past

/-- Step 4: the account of the session has nothing left. -/
def Exhausted (past : Past) (id : Nat) : Prop := ∃ found s, Listed past found ∧ (id, s) ∈ found

/-- Step 4: the devices of the exhausted sessions. -/
def CutsOffMac (past : Past) (mac : Text) : Prop :=
  ∃ found id s, Listed past found ∧ (id, s) ∈ found ∧ mac = toLowerCase s.deviceMac ∧
    Committed past ∧ Never (.query .stillActive) past

/-- Step 5: an authenticated client without an active session. -/
def CutsOrphan (past : Past) (mac : Text) : Prop :=
  ∃ clients known, Reported past clients ∧ isOnline (authedClients clients) mac = true ∧
    Recalled past known ∧ mac ∉ known.map toLowerCase

/-- Step 5: the client has an active session or is cut off, whatever that answers. -/
def Handled (past : Past) (known : List Text) (mac : Text) : Prop :=
  mac ∈ known.map toLowerCase ∨ ∃ answer, ⟨.ndsctl (.deauth mac), answer⟩ ∈ past

/-- A pass that has come to its end has handled every client of its snapshot. -/
def HandledAll (past : Past) : Prop :=
  ∃ clients known, Reported past clients ∧ Recalled past known ∧
    ∀ mac, isOnline (authedClients clients) mac = true → Handled past known mac

/-- The commands before Date.now. -/
def Cmd.Locking : Cmd → Prop
  | .ndsctl .json | .begin | .query .settlementRows | .lock .. => True
  | _ => False

/-- What a step of a pass may rest on. -/
def InPass (past : Past) : Cmd → Prop
  | .ndsctl .json => past = []
  | .begin => ∃ clients, past = [⟨.ndsctl .json, .ok clients⟩]
  | .lock .. => Unended past ∧ ∀ done ∈ past, done.1.Locking
  | .dateNow => Never .dateNow past ∧ Never (.query .exhausted) past
  | .update .sessions id (.settle elapsed) =>
      Unended past ∧ Unsettled past id ∧ ∃ s, Owing past id elapsed s
  | .update .users user (.charge elapsed id) =>
      Never (.query .exhausted) past ∧ ∃ s, Owing past id elapsed s ∧ s.userId = user
  | .update .sessions id (.finish status) =>
      Unended past ∧ status = .ended ∧ (Vanished past id ∨ Exhausted past id)
  | .query .exhausted => Never (.query .exhausted) past ∧ Never .commit past
  | .commit => Unended past ∧ Opened past ∧
      (∃ clients date, Reported past clients ∧ Looked past date ∧ PaidUp clients date past ∧
        SeenOff clients date past) ∧
      ∃ found, Listed past found ∧ ∀ id s, (id, s) ∈ found →
        ∃ row, ⟨.update .sessions id (.finish .ended), .ok row⟩ ∈ past
  | .query .stillActive => Outside past ∧ Committed past ∧ Never (.query .stillActive) past
  | .ndsctl (.deauth mac) => Outside past ∧ (CutsOffMac past mac ∨ CutsOrphan past mac)
  | _ => True

/-- The commands from there up to the exhausted rows, and up to COMMIT. -/
def Cmd.Metering : Cmd → Prop
  | .dateNow | .update .. | .query (.deviceOf ..) => True
  | _ => False

def Cmd.Settling (cmd : Cmd) : Prop := cmd.Locking ∨ cmd.Metering

def Cmd.Finishing (cmd : Cmd) : Prop := cmd.Settling ∨ cmd = .query .exhausted

def Cmd.Cutting : Cmd → Prop
  | .query .stillActive => False
  | _ => True

theorem settling_unended {cmd : Cmd} (settling : cmd.Settling) : ¬ cmd.Closes := by
  cases cmd with
  | commit | rollback => exact fun _ => settling.elim id id
  | _ => exact id

theorem finishing_unended {cmd : Cmd} (finishing : cmd.Finishing) : ¬ cmd.Closes := by
  rcases finishing with settling | rfl
  · exact settling_unended settling
  · exact id

section Loops
variable {clients : NdsClients} {past : Past}

theorem never_of {cmd : Cmd} {only : Cmd → Prop} (all : ∀ done ∈ past, only done.1)
    (not : ¬ only cmd) : Never cmd past := by
  rintro done member rfl
  exact not (all done member)

theorem all_cons {only : Cmd → Prop} {cmd : Cmd} {answer : Except Failure (Res cmd)}
    (all : ∀ done ∈ past, only done.1) (this : only cmd) :
    ∀ done ∈ (⟨cmd, answer⟩ : Done Cmd Res Failure) :: past, only done.1 := by
  intro done member
  rcases List.mem_cons.mp member with rfl | earlier
  · exact this
  · exact all done earlier

structure LockingPass (clients : NdsClients) (kept : List (Nat × SessionRow)) (past : Past) :
    Prop where
  reported : Reported past clients
  opened : Opened past
  met : ∀ item ∈ kept, Met past item.1 item.2
  all : ∀ id s, Met past id s → (id, s) ∈ kept
  only : ∀ done ∈ past, done.1.Locking

structure UpToDate (clients : NdsClients) (date : Time) (past : Past) (item : Nat × SessionRow) :
    Prop where
  paid : isOnline (authedClients clients) (toLowerCase item.2.deviceMac) = true →
    0 < elapsedSeconds date item.2.lastTick →
      ∃ row, ⟨.update .sessions item.1 (.settle (elapsedSeconds date item.2.lastTick)), .ok row⟩ ∈
        past
  gone : isOnline (authedClients clients) (toLowerCase item.2.deviceMac) = false →
    connectGraceMs < date - item.2.startedAt →
      ∃ row, ⟨.update .sessions item.1 (.finish .ended), .ok row⟩ ∈ past

structure SettlingPass (clients : NdsClients) (sessions rest : List (Nat × SessionRow))
    (date : Time) (past : Past) : Prop where
  reported : Reported past clients
  opened : Opened past
  met : ∀ item ∈ sessions, Met past item.1 item.2
  all : ∀ id s, Met past id s → (id, s) ∈ sessions
  looked : Looked past date
  settled : ∀ item ∈ sessions, item ∈ rest ∨ UpToDate clients date past item
  single : Distinct past → (rest.map fun item => item.1).Nodup
  unsettled : ∀ item ∈ rest, Unsettled past item.1
  only : ∀ done ∈ past, done.1.Settling

structure ClosingPass (clients : NdsClients) (found rest : List (Nat × SessionRow)) (past : Past) :
    Prop where
  reported : Reported past clients
  opened : Opened past
  paidUp : ∃ date, Looked past date ∧ PaidUp clients date past ∧ SeenOff clients date past
  listed : Listed past found
  finished : ∀ item ∈ found, item ∈ rest ∨
    ∃ row, ⟨.update .sessions item.1 (.finish .ended), .ok row⟩ ∈ past
  only : ∀ done ∈ past, done.1.Finishing

structure CuttingPass (clients : NdsClients) (found : List (Nat × SessionRow)) (past : Past) :
    Prop where
  reported : Reported past clients
  listed : Listed past found
  committed : Committed past
  outside : Outside past
  only : ∀ done ∈ past, done.1.Cutting

structure SweepingPass (clients : NdsClients) (known : List Text) (rest : List (Text × Text))
    (past : Past) : Prop where
  reported : Reported past clients
  swept : Recalled past known
  outside : Outside past
  handled : ∀ client ∈ authedClients clients, client ∈ rest ∨ Handled past known client.1

theorem Met.cons {id : Nat} {s : SessionRow} {done : Done Cmd Res Failure} (met : Met past id s) :
    Met (done :: past) id s :=
  ⟨List.mem_cons_of_mem _ met.1, met.2⟩

theorem Met.earlier {id : Nat} {s : SessionRow} {cmd : Cmd} {answer : Except Failure (Res cmd)}
    (met : Met (⟨cmd, answer⟩ :: past) id s) (other : ∀ key, cmd ≠ .lock .sessions key) :
    Met past id s := by
  refine ⟨(List.mem_cons.mp met.1).resolve_left fun same => ?_, met.2⟩
  exact other id (congrArg Sigma.fst same).symm

theorem UpToDate.cons {date : Time} {item : Nat × SessionRow} {done : Done Cmd Res Failure}
    (up : UpToDate clients date past item) : UpToDate clients date (done :: past) item := by
  constructor
  · intro online positive
    obtain ⟨row, settled⟩ := up.paid online positive
    exact ⟨row, List.mem_cons_of_mem _ settled⟩
  · intro offline late
    obtain ⟨row, ended⟩ := up.gone offline late
    exact ⟨row, List.mem_cons_of_mem _ ended⟩

theorem PaidUp.cons {date : Time} {cmd : Cmd} {answer : Except Failure (Res cmd)}
    (paidUp : PaidUp clients date past) (other : ∀ key, cmd ≠ .lock .sessions key) :
    PaidUp clients date (⟨cmd, answer⟩ :: past) := by
  intro id s met online positive
  obtain ⟨row, settled⟩ := paidUp id s (met.earlier other) online positive
  exact ⟨row, List.mem_cons_of_mem _ settled⟩

theorem SeenOff.cons {date : Time} {cmd : Cmd} {answer : Except Failure (Res cmd)}
    (seenOff : SeenOff clients date past) (other : ∀ key, cmd ≠ .lock .sessions key) :
    SeenOff clients date (⟨cmd, answer⟩ :: past) := by
  rintro id ⟨s, met, rest⟩
  obtain ⟨row, ended⟩ := seenOff id ⟨s, met.earlier other, rest⟩
  exact ⟨row, List.mem_cons_of_mem _ ended⟩

theorem Handled.cons {known : List Text} {mac : Text} {done : Done Cmd Res Failure}
    (handled : Handled past known mac) : Handled (done :: past) known mac := by
  rcases handled with active | ⟨answer, cut⟩
  · exact Or.inl active
  · exact Or.inr ⟨answer, List.mem_cons_of_mem _ cut⟩

theorem LockingPass.locked {kept : List (Nat × SessionRow)} (pass : LockingPass clients kept past)
    (cmd : Cmd) (answer : Except Failure (Res cmd)) (locking : cmd.Locking)
    (other : ∀ key, cmd ≠ .lock .sessions key) :
    LockingPass clients kept (⟨cmd, answer⟩ :: past) :=
  ⟨List.mem_cons_of_mem _ pass.reported, List.mem_cons_of_mem _ pass.opened,
    fun item member => (pass.met item member).cons,
    fun id s met => pass.all id s (met.earlier other), all_cons pass.only locking⟩

theorem Distinct.earlier {done : Done Cmd Res Failure} (distinct : Distinct (done :: past)) :
    Distinct past :=
  fun found member => distinct found (List.mem_cons_of_mem _ member)

theorem Unsettled.cons {id : Nat} {done : Done Cmd Res Failure} (unsettled : Unsettled past id)
    (other : ∀ elapsed, done.1 ≠ .update .sessions id (.settle elapsed)) :
    Unsettled (done :: past) id := by
  intro distinct elapsed done' member
  rcases List.mem_cons.mp member with rfl | earlier
  · exact other elapsed
  · exact unsettled distinct.earlier elapsed done' earlier

theorem SettlingPass.step {sessions rest : List (Nat × SessionRow)} {date : Time}
    (pass : SettlingPass clients sessions rest date past) (cmd : Cmd)
    (answer : Except Failure (Res cmd)) (metering : cmd.Metering)
    (other : ∀ id elapsed, cmd ≠ .update .sessions id (.settle elapsed)) :
    SettlingPass clients sessions rest date (⟨cmd, answer⟩ :: past) := by
  refine ⟨List.mem_cons_of_mem _ pass.reported, List.mem_cons_of_mem _ pass.opened,
    fun item member => (pass.met item member).cons, ?_, List.mem_cons_of_mem _ pass.looked, ?_,
      fun distinct => pass.single distinct.earlier,
    fun item member => (pass.unsettled item member).cons (other item.1),
    all_cons pass.only (Or.inr metering)⟩
  · intro id s met
    refine pass.all id s (met.earlier ?_)
    rintro key rfl
    exact metering
  · exact fun item member => (pass.settled item member).imp_right UpToDate.cons

theorem SettlingPass.next {sessions rest : List (Nat × SessionRow)} {date : Time}
    {item : Nat × SessionRow} (pass : SettlingPass clients sessions (item :: rest) date past)
    (up : UpToDate clients date past item) : SettlingPass clients sessions rest date past := by
  refine ⟨pass.reported, pass.opened, pass.met, pass.all, pass.looked, ?_,
    fun distinct => (List.nodup_cons.mp (pass.single distinct)).2,
    fun other member => pass.unsettled other (List.mem_cons_of_mem _ member), pass.only⟩
  intro other member
  rcases pass.settled other member with later | earlier
  · rcases List.mem_cons.mp later with rfl | later
    · exact Or.inr up
    · exact Or.inl later
  · exact Or.inr earlier

theorem SettlingPass.settles {sessions rest : List (Nat × SessionRow)} {date : Time}
    {item : Nat × SessionRow} (pass : SettlingPass clients sessions (item :: rest) date past)
    (online : isOnline (authedClients clients) (toLowerCase item.2.deviceMac) = true)
    (row : Option SessionRow) : SettlingPass clients sessions rest date
      (⟨.update .sessions item.1 (.settle (elapsedSeconds date item.2.lastTick)), .ok row⟩ ::
        past) := by
  refine ⟨List.mem_cons_of_mem _ pass.reported, List.mem_cons_of_mem _ pass.opened,
    fun item member => (pass.met item member).cons,
    fun id s met => pass.all id s (met.earlier (by simp)), List.mem_cons_of_mem _ pass.looked, ?_,
    fun distinct => (List.nodup_cons.mp (pass.single distinct.earlier)).2, ?_,
    all_cons pass.only (Or.inr trivial)⟩
  · intro other member
    rcases pass.settled other member with later | earlier
    · rcases List.mem_cons.mp later with rfl | later
      · exact Or.inr ⟨fun _ _ => ⟨row, List.mem_cons_self⟩,
          fun offline => absurd (online.symm.trans offline) (by simp)⟩
      · exact Or.inl later
    · exact Or.inr earlier.cons
  · intro other member distinct elapsed
    have apart := (List.nodup_cons.mp (pass.single distinct.earlier)).1
    refine (pass.unsettled other (List.mem_cons_of_mem _ member)).cons ?_ distinct elapsed
    rintro elapsed same
    have key : item.1 = other.1 := (Cmd.update.inj same).2.1
    exact apart (List.mem_map.mpr ⟨other, member, key.symm⟩)

theorem CuttingPass.step {found : List (Nat × SessionRow)} (pass : CuttingPass clients found past)
    (cmd : Cmd) (answer : Except Failure (Res cmd)) (cutting : cmd.Cutting)
    (plain : ¬ cmd.Closes) (begins : cmd ≠ .begin) :
    CuttingPass clients found (⟨cmd, answer⟩ :: past) :=
  ⟨List.mem_cons_of_mem _ pass.reported, List.mem_cons_of_mem _ pass.listed,
    List.mem_cons_of_mem _ pass.committed, (outside_plain plain begins).mpr pass.outside,
    all_cons pass.only cutting⟩

theorem SweepingPass.step {known : List Text} {rest : List (Text × Text)}
    (pass : SweepingPass clients known rest past)
    (cmd : Cmd) (answer : Except Failure (Res cmd)) (plain : ¬ cmd.Closes) (begins : cmd ≠ .begin) :
    SweepingPass clients known rest (⟨cmd, answer⟩ :: past) :=
  ⟨List.mem_cons_of_mem _ pass.reported, List.mem_cons_of_mem _ pass.swept,
    (outside_plain plain begins).mpr pass.outside,
    fun client member => (pass.handled client member).imp_right Handled.cons⟩

theorem SweepingPass.next {known : List Text} {client : Text × Text} {rest : List (Text × Text)}
    (pass : SweepingPass clients known (client :: rest) past)
    (handled : Handled past known client.1) : SweepingPass clients known rest past := by
  refine ⟨pass.reported, pass.swept, pass.outside, ?_⟩
  intro other member
  rcases pass.handled other member with later | earlier
  · rcases List.mem_cons.mp later with rfl | later
    · exact Or.inr handled
    · exact Or.inl later
  · exact Or.inr earlier

theorem lockSettlementRows_order (pass : LockingPass clients [] past) :
    Along InPass (Ends fun kept past => LockingPass clients kept past ∧
      (Distinct past → (kept.map fun item => item.1).Nodup)) lockSettlementRows past := by
  refine along_perform _ _ trivial (fun found => ?_) fun _ => trivial
  refine along_collect (fun rest kept past => LockingPass clients kept past ∧ (Distinct past →
    (kept.map (fun item => item.1) ++ rest.map (fun ids => ids.1)).Nodup)) _ ?_ ?_ found
    ⟨pass.locked _ _ trivial (by simp), fun distinct => distinct found List.mem_cons_self⟩
  · rintro ids rest kept past ⟨pass, single⟩
    have permitted : ∀ past, (∀ done ∈ past, done.1.Locking) →
        Unended past ∧ ∀ done ∈ past, done.1.Locking := by
      intro past only
      exact ⟨fun done member => settling_unended (Or.inl (only done member)), only⟩
    refine along_perform _ _ (permitted _ pass.only) (fun row => ?_) fun _ => trivial
    refine along_perform _ _ (permitted _ (all_cons pass.only trivial)) (fun account => ?_)
      fun _ => trivial
    refine ⟨⟨List.mem_cons_of_mem _ (List.mem_cons_of_mem _ pass.reported),
      List.mem_cons_of_mem _ (List.mem_cons_of_mem _ pass.opened), ?_, ?_,
      all_cons (all_cons pass.only trivial) trivial⟩, fun distinct => ?_⟩
    · intro item member
      rcases List.mem_append.mp member with earlier | latest
      · exact (pass.met item earlier).cons.cons
      · rw [Option.mem_toList, Option.map_eq_some_iff] at latest
        obtain ⟨s, found, rfl⟩ := latest
        obtain ⟨rfl, active⟩ := Option.filter_eq_some_iff.mp found
        refine ⟨?_, by simpa using active⟩
        exact List.mem_cons_of_mem _ List.mem_cons_self
    · intro id s met
      obtain ⟨locked, active⟩ := met.earlier (by simp)
      rcases List.mem_cons.mp locked with latest | earlier
      · cases latest
        refine List.mem_append_right _ ?_
        simp [active]
      · exact List.mem_append_left _ (pass.all id s ⟨earlier, active⟩)
    · refine (single distinct.earlier.earlier).sublist ?_
      rw [List.map_append, List.append_assoc]
      refine List.Sublist.append_left ?_ _
      cases row.filter fun s => s.status == .active with
      | none => exact List.sublist_cons_self _ _
      | some s => exact List.Sublist.refl _
  · rintro kept past ⟨pass, single⟩
    exact ⟨pass, fun distinct => by simpa using single distinct⟩

theorem SettlingPass.never {sessions rest : List (Nat × SessionRow)} {date : Time}
    (pass : SettlingPass clients sessions rest date past) : Never (.query .exhausted) past :=
  never_of pass.only fun settling => settling.elim id id

theorem SettlingPass.unended {sessions rest : List (Nat × SessionRow)} {date : Time}
    (pass : SettlingPass clients sessions rest date past) : Unended past :=
  fun done member => settling_unended (pass.only done member)

theorem settle_order {sessions rest : List (Nat × SessionRow)} {date : Time}
    {item : Nat × SessionRow} (member : item ∈ sessions)
    (pass : SettlingPass clients sessions (item :: rest) date past) :
    Along InPass (Ends fun _ => SettlingPass clients sessions rest date)
      (settle (authedClients clients) date item) past := by
  have met := pass.met item member
  have owes : ∀ {rest after}, SettlingPass clients sessions rest date after →
      isOnline (authedClients clients) (toLowerCase item.2.deviceMac) = true →
      0 < elapsedSeconds date item.2.lastTick →
      Owing after item.1 (elapsedSeconds date item.2.lastTick) item.2 :=
    fun after online positive => ⟨clients, date, after.reported, after.met item member,
      after.looked, online, rfl, positive⟩
  unfold settle
  simp only
  split
  · rename_i online
    split
    · rename_i positive
      refine along_perform _ _ ⟨pass.unended, pass.unsettled item List.mem_cons_self, item.2,
        owes pass online positive⟩ (fun settled => ?_) fun _ => trivial
      have done := pass.settles online settled
      refine along_perform _ _ ⟨done.never, item.2, owes done online positive, rfl⟩
        (fun charged => ?_) fun _ => trivial
      refine along_perform _ _ trivial (fun device => ?_) fun _ => trivial
      have last := (done.step (.update .users item.2.userId (.charge (elapsedSeconds date
        item.2.lastTick) item.1)) (.ok charged) trivial (by simp)).step
        (.query (.deviceOf item.2.userId (toLowerCase item.2.deviceMac))) (.ok device) trivial
        (by simp)
      cases device with
      | none => exact last
      | some id =>
          refine along_perform _ _ trivial (fun seen => ?_) fun _ => trivial
          exact last.step (.update .devices id .seen) (.ok seen) trivial (by simp)
    · rename_i nothing
      exact pass.next ⟨fun _ positive => absurd positive nothing,
        fun offline => absurd (online.symm.trans offline) (by simp)⟩
  · rename_i offline
    split
    · rename_i late
      refine along_perform _ _ ⟨pass.unended, rfl, Or.inl ?_⟩ (fun ended => ?_) fun _ => trivial
      · exact ⟨clients, date, item.2, pass.reported, met, pass.looked, by simpa using offline, late,
          pass.never⟩
      · exact (pass.step (.update .sessions item.1 (.finish .ended)) (.ok ended) trivial
          (by simp)).next ⟨fun online => absurd online offline,
            fun _ _ => ⟨ended, List.mem_cons_self⟩⟩
    · rename_i early
      exact pass.next ⟨fun online => absurd online offline, fun _ late => absurd late early⟩

theorem settleAll_order {sessions : List (Nat × SessionRow)} {date : Time}
    (pass : SettlingPass clients sessions sessions date past) :
    Along InPass (Ends fun _ => SettlingPass clients sessions [] date)
      (Prog.each sessions (settle (authedClients clients) date)) past := by
  refine along_each (fun rest past => (∀ item ∈ rest, item ∈ sessions) ∧
    SettlingPass clients sessions rest date past) _ ?_ ?_ sessions ⟨fun _ member => member, pass⟩
  · rintro item rest past ⟨members, pass⟩
    refine along_post ?_ _ (settle_order (members item List.mem_cons_self) pass)
    rintro (error | value) after reached
    · trivial
    · exact ⟨fun other member => members other (List.mem_cons_of_mem _ member), reached⟩
  · rintro past ⟨_, pass⟩
    exact pass

theorem finishAll_order {found : List (Nat × SessionRow)}
    (pass : ClosingPass clients found found past) :
    Along InPass (Ends fun _ => ClosingPass clients found [])
      (Prog.each found fun session => finishSession session.1) past := by
  refine along_each (fun rest past => (∀ item ∈ rest, item ∈ found) ∧
    ClosingPass clients found rest past) _ ?_ ?_ found ⟨fun _ member => member, pass⟩
  · rintro item rest past ⟨members, pass⟩
    have unended : Unended past := fun done member => finishing_unended (pass.only done member)
    refine along_perform _ _ ⟨unended, rfl, Or.inr ⟨found, item.2, pass.listed, ?_⟩⟩ (fun row => ?_)
      fun _ => trivial
    · exact members item List.mem_cons_self
    · refine ⟨fun other member => members other (List.mem_cons_of_mem _ member), ?_⟩
      obtain ⟨date, looked, paidUp, seenOff⟩ := pass.paidUp
      refine ⟨List.mem_cons_of_mem _ pass.reported, List.mem_cons_of_mem _ pass.opened,
        ⟨date, List.mem_cons_of_mem _ looked, paidUp.cons (by simp), seenOff.cons (by simp)⟩,
          List.mem_cons_of_mem _ pass.listed, ?_,
        all_cons pass.only (Or.inl (Or.inr trivial))⟩
      intro other member
      rcases pass.finished other member with later | ⟨earlier, done⟩
      · rcases List.mem_cons.mp later with rfl | later
        · exact Or.inr ⟨row, List.mem_cons_self⟩
        · exact Or.inl later
      · exact Or.inr ⟨earlier, List.mem_cons_of_mem _ done⟩
  · rintro past ⟨_, pass⟩
    exact pass

theorem settlement_order (start : past = [⟨.ndsctl .json, .ok clients⟩]) :
    Along InPass (Ends fun found => CuttingPass clients found) (settlement (authedClients clients))
      past := by
  have begun : LockingPass clients [] (⟨.begin, .ok ()⟩ :: past) := by
    subst start
    refine ⟨List.mem_cons_of_mem _ List.mem_cons_self, List.mem_cons_self, by simp, ?_, ?_⟩
    · rintro id s ⟨locked, _⟩
      rcases List.mem_cons.mp locked with begins | json
      · cases begins
      · cases List.mem_singleton.mp json
    · refine all_cons (fun done member => ?_) trivial
      rw [List.mem_singleton.mp member]
      trivial
  refine along_perform _ _ ⟨clients, start⟩ (fun _ => ?_) fun _ => trivial
  refine along_then _ (lockSettlementRows_order begun) ?_
  rintro sessions past ⟨pass, single⟩
  refine along_perform _ _ ⟨never_of pass.only id, never_of pass.only id⟩ (fun date => ?_)
    fun _ => trivial
  have settling : SettlingPass clients sessions sessions date (⟨.dateNow, .ok date⟩ :: past) :=
    ⟨List.mem_cons_of_mem _ pass.reported, List.mem_cons_of_mem _ pass.opened,
      fun item member => (pass.met item member).cons,
      fun id s met => pass.all id s (met.earlier (by simp)), List.mem_cons_self,
      fun item member => Or.inl member, fun distinct => single distinct.earlier,
      fun item _ => Unsettled.cons (fun _ _ => never_of pass.only id) (by simp),
      all_cons (fun done member => Or.inl (pass.only done member)) (Or.inr trivial)⟩
  refine along_then _ (settleAll_order settling) ?_
  intro _ past pass
  refine along_perform _ _ ⟨pass.never, never_of pass.only fun settling => settling.elim id id⟩
    (fun found => ?_) fun _ => trivial
  have upToDate : ∀ id s, Met past id s → UpToDate clients date past (id, s) :=
    fun id s met => (pass.settled (id, s) (pass.all id s met)).resolve_left (by simp)
  have paidUp : PaidUp clients date past := fun id s met => (upToDate id s met).paid
  have seenOff : SeenOff clients date past :=
    fun id ⟨s, met, offline, late⟩ => (upToDate id s met).gone offline late
  have closing : ClosingPass clients found found (⟨.query .exhausted, .ok found⟩ :: past) :=
    ⟨List.mem_cons_of_mem _ pass.reported, List.mem_cons_of_mem _ pass.opened,
      ⟨date, List.mem_cons_of_mem _ pass.looked, paidUp.cons (by simp), seenOff.cons (by simp)⟩,
        List.mem_cons_self, fun item member => Or.inl member,
      all_cons (fun done member => Or.inl (pass.only done member)) (Or.inr rfl)⟩
  refine along_then _ (finishAll_order closing) ?_
  intro _ past pass
  have unended : Unended past := fun done member => finishing_unended (pass.only done member)
  obtain ⟨date, looked, paidUp⟩ := pass.paidUp
  refine along_perform _ _ ⟨unended, pass.opened, ⟨clients, date, pass.reported, looked, paidUp⟩,
    found, pass.listed, ?_⟩ (fun _ => ?_) fun _ => trivial
  · intro id s member
    exact (pass.finished (id, s) member).resolve_left (by simp)
  · refine ⟨List.mem_cons_of_mem _ pass.reported, List.mem_cons_of_mem _ pass.listed,
      List.mem_cons_self, trivial, ?_⟩
    refine all_cons (fun done member => ?_) trivial
    have first := pass.only done member
    revert first
    cases done.1 with
    | query query =>
        cases query with
        | stillActive =>
            intro finishing
            rcases finishing with settling | same
            · exact settling.elim id id
            · cases same
        | _ => exact fun _ => trivial
    | _ => exact fun _ => trivial

theorem deauth_order {goes : Past → Prop} {mac : Text}
    (permitted : InPass past (.ndsctl (.deauth mac)))
    (done : ∀ answer, goes (⟨.ndsctl (.deauth mac), answer⟩ :: past)) :
    Along InPass (Ends fun _ => goes) (NdsctlService.deauth mac) past := by
  apply along_rescue
  refine ⟨permitted, fun answer => ?_⟩
  cases answer <;> exact done _

theorem flushConntrack_order {goes : Past → Prop} {ip : Text} (skipped : goes past)
    (done : ∀ answer, goes (⟨.ndsctl (.flushConntrack ip), answer⟩ :: past)) :
    Along InPass (Ends fun _ => goes) (NdsctlService.flushConntrack ip) past := by
  unfold NdsctlService.flushConntrack
  split
  · exact skipped
  · apply along_rescue
    refine ⟨trivial, fun answer => ?_⟩
    cases answer <;> exact done _

theorem cutOff_order {found : List (Nat × SessionRow)} {item : Nat × SessionRow}
    (member : item ∈ found) (pass : CuttingPass clients found past) :
    Along InPass (Ends fun _ => CuttingPass clients found) (cutOff item) past := by
  refine along_then (fun _ => CuttingPass clients found)
    (deauth_order ⟨pass.outside, Or.inl ?_⟩ fun answer => ?_) ?_
  · exact ⟨found, item.1, item.2, pass.listed, member, rfl, pass.committed, never_of pass.only id⟩
  · exact pass.step _ answer trivial id (by simp)
  · intro _ past pass
    refine along_then (fun _ => CuttingPass clients found)
      (flushConntrack_order pass fun answer => ?_) ?_
    · exact pass.step _ answer trivial id (by simp)
    · intro _ past pass
      exact along_command _ trivial fun _ => pass.step _ _ trivial id (by simp)

theorem cutOrphan_order {known : List Text} {client : Text × Text} {rest : List (Text × Text)}
    (member : client ∈ authedClients clients)
    (pass : SweepingPass clients known (client :: rest) past) :
    Along InPass (Ends fun _ => SweepingPass clients known rest)
      (cutOrphan (known.map toLowerCase) client) past := by
  unfold cutOrphan
  split
  · rename_i known
    exact pass.next (Or.inl (by simpa using known))
  · rename_i unknown
    refine along_then (fun _ => SweepingPass clients known rest)
      (deauth_order ⟨pass.outside, Or.inr ?_⟩ fun answer => ?_) ?_
    · refine ⟨clients, known, pass.reported, ?_, pass.swept, by simpa using unknown⟩
      exact List.any_eq_true.mpr ⟨client, member, by simp⟩
    · exact (pass.step _ answer id (by simp)).next (Or.inr ⟨answer, List.mem_cons_self⟩)
    · intro _ past pass
      exact flushConntrack_order pass fun answer => pass.step _ answer id (by simp)

end Loops

theorem tick_order : Along InPass (Ends fun _ => HandledAll) SessionManager.tick [] := by
  refine along_perform _ _ rfl (fun clients => ?_) fun _ => trivial
  refine along_then (fun _ past => ∃ found, CuttingPass clients found past) ?_ ?_
  · apply along_rescue
    have undone : ∀ (error : Failure) (past : Past), Along InPass
        (Ends fun _ past => ∃ found, CuttingPass clients found past)
        (((perform .rollback).rescue fun _ => .done () : Program Unit).bind fun _ =>
          (.raise error : Program Unit)) past := by
      intro error past
      apply along_bind
      apply along_rescue
      refine ⟨trivial, fun answer => ?_⟩
      cases answer <;> trivial
    have body : Along InPass (Ends fun _ past => ∃ found, CuttingPass clients found past)
        ((settlement (authedClients clients)).bind fun found => Prog.each found cutOff)
        [⟨.ndsctl .json, .ok clients⟩] := by
      refine along_then _ (settlement_order rfl) ?_
      intro found past pass
      refine along_each (fun rest past => (∀ item ∈ rest, item ∈ found) ∧
        CuttingPass clients found past) _ ?_ ?_ found ⟨fun _ member => member, pass⟩
      · rintro item rest past ⟨members, pass⟩
        refine along_post ?_ _ (cutOff_order (members item List.mem_cons_self) pass)
        rintro (error | value) after reached
        · trivial
        · exact ⟨fun other member => members other (List.mem_cons_of_mem _ member), reached⟩
      · rintro past ⟨_, pass⟩
        exact ⟨found, pass⟩
    refine along_post ?_ _ body
    rintro (error | value) past reached
    · exact undone error past
    · exact reached
  · rintro _ past ⟨found, pass⟩
    refine along_perform _ _ ⟨pass.outside, pass.committed, never_of pass.only id⟩ (fun known => ?_)
      fun _ => trivial
    have sweeping : SweepingPass clients known (authedClients clients)
        (⟨.query .stillActive, .ok known⟩ :: past) :=
      ⟨List.mem_cons_of_mem _ pass.reported, List.mem_cons_self, pass.outside,
        fun client member => Or.inl member⟩
    refine along_then (fun _ past => SweepingPass clients known [] past) ?_ ?_
    rotate_left
    · intro _ past pass
      refine ⟨clients, known, pass.reported, pass.swept, fun mac online => ?_⟩
      obtain ⟨client, member, same⟩ := List.any_eq_true.mp online
      rw [beq_iff_eq] at same
      exact same ▸ (pass.handled client member).resolve_left (by simp)
    refine along_each (fun rest past => (∀ client ∈ rest, client ∈ authedClients clients) ∧
      SweepingPass clients known rest past) _ ?_ ?_ _ ⟨fun _ member => member, sweeping⟩
    · rintro client rest past ⟨members, pass⟩
      refine along_post ?_ _ (cutOrphan_order (members client List.mem_cons_self) pass)
      rintro (error | value) after reached
      · trivial
      · exact ⟨fun other member => members other (List.mem_cons_of_mem _ member), reached⟩
    · rintro past ⟨_, pass⟩
      exact pass

/-- What a call's step rests on; only a pass has anything to show. -/
def Based (call : Call) (past : Past) (cmd : Cmd) : Prop :=
  call.mayDo cmd ∧ (call = .tick → InPass past cmd)

/-- What a call has shown when it answers. -/
def Shown (call : Call) : Except Failure Reply → Past → Prop :=
  Ends fun _ past => call = .tick → HandledAll past

theorem call_based {config : Config} (call : Call) :
    Along (Based call) (Shown call) (call.program config) [] := by
  have may : Along (fun _ cmd => call.mayDo cmd) (fun _ _ => True) (call.program config) [] :=
    along_mayDo call
  have pass : Along (fun past cmd => call = .tick → InPass past cmd) (Shown call)
      (call.program config) [] := by
    by_cases same : call = .tick
    · subst same
      refine along_mono (fun _ _ permitted _ => permitted) ?_ _ tick_order
      rintro (error | reply) past shown
      · trivial
      · exact fun _ => shown
    · refine along_mono (fun _ _ _ tick => absurd tick same) ?_ _ may
      rintro (error | reply) past _
      · trivial
      · exact fun tick => absurd tick same
  exact along_post (fun _ _ shown => shown.2) _ (along_and _ may pass)

theorem reached_inPass {config : Config} {pool : ServerPool} (reached : Reached config pool)
    {pos thread : Nat} {event : Event} (found : pool.state.hist[pos]? = some event)
    (own : event.thread = thread) (tick : pool.state.arrivals[thread]? = some .tick) :
    InPass (pastOf (pool.state.hist.take pos) thread) event.cmd := by
  obtain ⟨call, called, _, pass⟩ := reached_allowed call_based reached pos event found
  rw [own] at called pass
  exact pass (Option.some.inj (called.symm.trans tick))

theorem reached_shown {config : Config} {pool : ServerPool} (reached : Reached config pool)
    {thread : Nat} {reply : Reply} (answered : pool.threads[thread]? = some (some (.done reply)))
    (tick : pool.state.arrivals[thread]? = some .tick) :
    HandledAll (pastOf pool.state.hist thread) :=
  (reachable_orderly (server_records config) call_based rfl (fun _ => rfl) reached).threads thread _
    .tick answered tick rfl

theorem pass_once {config : Config} {pool : ServerPool} (reached : Reached config pool) (cmd : Cmd)
    (once : ∀ past, InPass past cmd → Never cmd past) {first second thread : Nat}
    {event event' : Event} (tick : pool.state.arrivals[thread]? = some .tick)
    (found : pool.state.hist[first]? = some event) (own : event.thread = thread)
    (same : event.cmd = cmd) (found' : pool.state.hist[second]? = some event')
    (own' : event'.thread = thread) (same' : event'.cmd = cmd) : first = second := by
  have apart : ∀ {first second : Nat} {event event' : Event}, pool.state.hist[first]? = some event →
      event.thread = thread → event.cmd = cmd → pool.state.hist[second]? = some event' →
      event'.thread = thread → event'.cmd = cmd → ¬ first < second := by
    intro first second event event' found own same found' own' same' before
    have pass := reached_inPass reached found' own' tick
    rw [same'] at pass
    exact once _ pass event.done (mem_pastOf_take.mpr ⟨first, event, before, found, own, rfl⟩) same
  refine Nat.le_antisymm (Nat.not_lt.mp ?_) (Nat.not_lt.mp ?_)
  · exact apart found' own' same' found own same
  · exact apart found own same found' own' same'

theorem answered_once {config : Config} {pool : ServerPool} (reached : Reached config pool)
    (cmd : Cmd) (once : ∀ past, InPass past cmd → Never cmd past) {thread : Nat}
    {answer answer' : Except Failure (Res cmd)} (tick : pool.state.arrivals[thread]? = some .tick)
    (done : ⟨cmd, answer⟩ ∈ pastOf pool.state.hist thread)
    (done' : ⟨cmd, answer'⟩ ∈ pastOf pool.state.hist thread) : answer = answer' := by
  obtain ⟨event, member, own, same⟩ := mem_pastOf.mp done
  obtain ⟨event', member', own', same'⟩ := mem_pastOf.mp done'
  obtain ⟨at', found⟩ := List.mem_iff_getElem?.mp member
  obtain ⟨at'', found'⟩ := List.mem_iff_getElem?.mp member'
  have single := pass_once reached cmd once tick found own (congrArg Sigma.fst same) found' own'
    (congrArg Sigma.fst same')
  subst single
  rw [found, Option.some.injEq] at found'
  subst found'
  rw [same] at same'
  exact eq_of_heq (Sigma.mk.inj same').2

section Once
variable {config : Config} {pool : ServerPool} (reached : Reached config pool) {thread : Nat}
  (tick : pool.state.arrivals[thread]? = some .tick)
include reached tick

theorem reported_once {first second : NdsClients}
    (reported : Reported (pastOf pool.state.hist thread) first)
    (reported' : Reported (pastOf pool.state.hist thread) second) : first = second := by
  have start : ∀ past, InPass past (.ndsctl .json) → Never (.ndsctl .json) past := by
    rintro past rfl done listed
    cases listed
  exact Except.ok.inj (answered_once reached _ start tick reported reported')

theorem looked_once {first second : Time} (looked : Looked (pastOf pool.state.hist thread) first)
    (looked' : Looked (pastOf pool.state.hist thread) second) : first = second :=
  Except.ok.inj (answered_once reached .dateNow (fun _ pass => pass.1) tick looked looked')

theorem listed_once {first second : List (Nat × SessionRow)}
    (listed : Listed (pastOf pool.state.hist thread) first)
    (listed' : Listed (pastOf pool.state.hist thread) second) : first = second :=
  Except.ok.inj (answered_once reached (.query .exhausted) (fun _ pass => pass.1) tick
    listed listed')

end Once
end Cybera
