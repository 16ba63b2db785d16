import Cybera.Balance
import Cybera.Completion
import Cybera.DeviceLimit
import Cybera.Lifecycle
import Cybera.Metered

/-!
What the tables are for: a café whose places are the MACs, held on credit. Every
transaction that commits is a run of it.
-/

namespace Cybera

open Interleaving

/-- An active session of the account runs on the MAC. -/
def OnlineAs (rows : Store) (mac : Text) (user : Nat) : Prop :=
  ∃ id, ∃ s : SessionRow, rows .sessions id = some s ∧ s.deviceMac = mac ∧ s.userId = user ∧
    s.status = .active

def Single (rows : Store) : Prop :=
  ∀ id key, ∀ s other : SessionRow, rows .sessions id = some s → rows .sessions key = some other →
    s.status = .active → other.status = .active → s.deviceMac = other.deviceMac → id = key

open Classical in
/-- The one account that has the property, if any has. -/
noncomputable def theOne (holds : Nat → Prop) : Option Nat :=
  if found : ∃ user, holds user then some found.choose else none

/-- The café that the tables show. -/
noncomputable def cafe (rows : Store) : Metered.State Nat Text where
  credit user := (balanceOf rows user).toNat
  limit user := max 1 (limitIn rows user)
  holder mac := theOne (OnlineAs rows mac)

/-- What a call can bring about in the café. -/
def Call.Authors : Call → Metered.Act Nat Text → Prop
  | .redeem user _, .credit account _ _ => account = user.id
  | .decide _ _ true, .credit .. => True
  | .grant _ id _, .credit account _ _ => account = id
  | .connect user dto, .enter mac account => mac = toLowerCase dto.clientmac ∧ account = user.id
  | .connect _ dto, .leave mac => mac = toLowerCase dto.clientmac
  | .kick _ mac, .leave place => place = toLowerCase mac
  | .tick, .charge .. | .tick, .leave _ => True
  | _, _ => False

section Rows
variable {rows later : Store} {mac : Text} {user : Nat}

theorem online_one (single : Single rows) {other : Nat} (left : OnlineAs rows mac user)
    (right : OnlineAs rows mac other) : user = other := by
  obtain ⟨id, s, present, here, rfl, active⟩ := left
  obtain ⟨key, s', present', here', rfl, active'⟩ := right
  obtain rfl := single id key s s' present present' active active' (here.trans here'.symm)
  cases present.symm.trans present'
  rfl

theorem holder_iff (single : Single rows) :
    (cafe rows).holder mac = some user ↔ OnlineAs rows mac user := by
  simp only [cafe, theOne]
  constructor
  · intro held
    split at held
    · rename_i online
      cases held
      exact online.choose_spec
    · cases held
  · intro online
    have someone : ∃ user, OnlineAs rows mac user := ⟨user, online⟩
    rw [dif_pos someone, online_one single online someone.choose_spec]

theorem holder_none : (cafe rows).holder mac = none ↔ ∀ user, ¬ OnlineAs rows mac user := by
  simp only [cafe, theOne]
  split
  · rename_i online
    simpa using online
  · rename_i offline
    simpa using offline

theorem holder_congr (online : ∀ mac user, OnlineAs later mac user ↔ OnlineAs rows mac user) :
    (cafe later).holder = (cafe rows).holder := by
  funext mac
  have same : OnlineAs later mac = OnlineAs rows mac := funext fun user => propext (online mac user)
  exact congrArg theOne same

theorem cafe_same (balance : ∀ user, balanceOf later user = balanceOf rows user)
    (limit : ∀ user, max 1 (limitIn later user) = max 1 (limitIn rows user))
    (online : ∀ mac user, OnlineAs later mac user ↔ OnlineAs rows mac user) :
    cafe later = cafe rows := by
  rw [show cafe later = ⟨(cafe later).credit, (cafe later).limit, (cafe later).holder⟩ from rfl,
    holder_congr online]
  simp only [cafe, balance, limit]

theorem online_congr (same : ∀ id, later .sessions id = rows .sessions id) :
    OnlineAs later mac user ↔ OnlineAs rows mac user := by
  simp only [OnlineAs, same]

end Rows

section Leaving
variable {rows : Store} {acts : List Entry}

/-- The sessions among the acts are only updated, and none becomes active. -/
def OnlyCloses (acts : List Entry) : Prop :=
  ∀ entry ∈ acts, entry.table = .sessions →
    ∃ op now, entry = alter .sessions entry.id op now ∧ Closing .sessions op

/-- The MACs of the sessions that the acts are on. -/
def vacated (rows : Store) (acts : List Entry) : List Text :=
  (acts.filter fun entry => entry.table = .sessions).filterMap fun entry =>
    (rows .sessions entry.id).map fun s => s.deviceMac

theorem mem_vacated {mac : Text} (member : mac ∈ vacated rows acts) : ∃ entry ∈ acts,
    entry.table = .sessions ∧ ∃ s : SessionRow, rows .sessions entry.id = some s ∧
      s.deviceMac = mac := by
  obtain ⟨entry, kept, same⟩ := List.mem_filterMap.mp member
  obtain ⟨inside, table⟩ := List.mem_filter.mp kept
  obtain ⟨s, present, here⟩ := Option.map_eq_some_iff.mp same
  exact ⟨entry, inside, of_decide_eq_true table, s, present, here⟩

theorem closes_before (closes : OnlyCloses acts) {id : Nat} {s : SessionRow}
    (left : replay acts rows .sessions id = some s) (active : s.status = .active) :
    ∃ before : SessionRow, rows .sessions id = some before ∧ before.deviceMac = s.deviceMac ∧
      before.userId = s.userId ∧ before.status = .active := by
  have alters : ∀ entry ∈ acts, entry.table = .sessions → entry.id = id →
      ∃ op now, entry = alter .sessions id op now ∧ Closing .sessions op := by
    rintro entry member table rfl
    exact closes entry member table
  have alters' : AltersAt .sessions id acts := by
    intro entry member table same
    obtain ⟨op, now, rfl, _⟩ := alters entry member table same
    exact ⟨op, now, rfl⟩
  cases found : rows .sessions id with
  | none => cases left.symm.trans (replay_absent rows .sessions id acts alters' found)
  | some before =>
      obtain ⟨after, left', owner, mac, _⟩ := replay_same rows .sessions id acts alters' found
      cases left.symm.trans left'
      refine ⟨before, rfl, mac.symm, owner.symm, ?_⟩
      by_contra ended
      obtain ⟨after, left', still⟩ := replay_keeps rows .sessions id
        (fun row => row.status ≠ .active)
        (fun op _ => Closing .sessions op) (fun op now row closing ended => by
          cases op with
          | finish status => exact closing
          | settle | refresh => exact ended) acts alters found ended
      cases left.symm.trans left'
      exact still active

theorem closes_single (single : Single rows) (closes : OnlyCloses acts) :
    Single (replay acts rows) := by
  intro id key s other left left' active active' same
  obtain ⟨before, present, mac, _, active⟩ := closes_before closes left active
  obtain ⟨before', present', mac', _, active'⟩ := closes_before closes left' active'
  exact single id key before before' present present' active active'
    (mac.trans (same.trans mac'.symm))

theorem closes_leave (single : Single rows) (closes : OnlyCloses acts)
    (state : Metered.State Nat Text) (same : state.holder = (cafe rows).holder) :
    ∃ leaving : List Text, (∀ mac ∈ leaving, mac ∈ vacated rows acts) ∧
      Metered.Run state (leaving.map .leave)
        { state with holder := (cafe (replay acts rows)).holder } := by
  refine Metered.leaves_run _ fun mac => ?_
  rw [same]
  have single' := closes_single single closes
  cases held : (cafe (replay acts rows)).holder mac with
  | some user =>
      obtain ⟨id, s, left, here, owner, active⟩ := (holder_iff single').mp held
      obtain ⟨before, present, mac', owner', active'⟩ := closes_before closes left active
      refine Or.inl ((holder_iff single).mpr ?_).symm
      exact ⟨id, before, present, mac'.trans here, owner'.trans owner, active'⟩
  | none =>
      cases held' : (cafe rows).holder mac with
      | none => exact Or.inl rfl
      | some user =>
          obtain ⟨id, s, present, here, owner, active⟩ := (holder_iff single).mp held'
          refine Or.inr ⟨?_, rfl⟩
          by_contra untouched
          refine holder_none.mp held user ⟨id, s, ?_, here, owner, active⟩
          refine Eq.trans (RowLock.replay_untouched _ _ _ _ _ ?_) present
          rintro entry member ⟨table, rfl⟩
          refine untouched (List.mem_filterMap.mpr ⟨entry, ?_, by rw [present, ← here]; rfl⟩)
          exact List.mem_filter.mpr ⟨member, by simp [← table]⟩

theorem finishes_mac {world : World} {index : Nat} {mac : Text}
    {status : SessionStatus} {now : Time}
    (closed : Finishes (world.basisAt index) mac status now acts) (entry : Entry)
    (member : entry ∈ acts) {s : SessionRow}
    (present : storeAfter world.db.log index .sessions entry.id = some s) : s.deviceMac = mac := by
  obtain ⟨id, s', rfl, row, _, here⟩ := closed entry member
  cases present.symm.trans (show storeAfter world.db.log index .sessions id = some s' from row)
  exact here

end Leaving
section Entering
variable {rows : Store} {id user : Nat} {s : SessionRow}

theorem online_opened (absent : rows .sessions id = none) (active : s.status = .active) {mac : Text}
    {other : Nat} : OnlineAs (replay [create .sessions id s] rows) mac other ↔
      OnlineAs rows mac other ∨ s.deviceMac = mac ∧ s.userId = other := by
  constructor
  · rintro ⟨key, row, present, here, owner, open'⟩
    by_cases same : key = id
    · subst same
      rw [replay_cons, replay_nil, create_same, Option.some.injEq] at present
      subst present
      exact Or.inr ⟨here, owner⟩
    · rw [replay_cons, replay_nil, create_key _ _ _ _ _ same] at present
      exact Or.inl ⟨key, row, present, here, owner, open'⟩
  · rintro (⟨key, row, present, here, owner, open'⟩ | ⟨here, owner⟩)
    · have other : key ≠ id := by
        rintro rfl
        cases absent.symm.trans present
      exact ⟨key, row, by rw [replay_cons, replay_nil, create_key _ _ _ _ _ other, present], here,
        owner, open'⟩
    · exact ⟨id, s, by rw [replay_cons, replay_nil, create_same], here, owner, active⟩

theorem places_sessions (places : List Text) (once : places.Nodup)
    (held : ∀ mac ∈ places, OnlineAs rows mac user) : ∃ ids : List Nat, ids.Nodup ∧
      ids.length = places.length ∧ ∀ id ∈ ids, ∃ s : SessionRow, rows .sessions id = some s ∧
        s.deviceMac ∈ places ∧ s.userId = user ∧ s.status = .active := by
  induction places with
  | nil => exact ⟨[], .nil, rfl, by simp⟩
  | cons mac rest ih =>
      obtain ⟨fresh, once⟩ := List.nodup_cons.mp once
      obtain ⟨ids, distinct, length, active⟩ :=
        ih once fun other member => held other (List.mem_cons_of_mem _ member)
      obtain ⟨id, s, present, here, owner, open'⟩ := held mac (by simp)
      refine ⟨id :: ids, List.nodup_cons.mpr ⟨?_, distinct⟩, by simp [length], ?_⟩
      · intro listed
        obtain ⟨s', present', among, _⟩ := active id listed
        cases present.symm.trans present'
        exact fresh (here ▸ among)
      · intro key member
        rcases List.mem_cons.mp member with rfl | later
        · exact ⟨s, present, by simp [here], owner, open'⟩
        · obtain ⟨s', present', among, rest⟩ := active key later
          exact ⟨s', present', List.mem_cons_of_mem _ among, rest⟩

theorem opens_enter (single : Single rows) (absent : rows .sessions id = none)
    (active : s.status = .active) (mine : s.userId = user)
    (single' : Single (replay [create .sessions id s] rows))
    (within : AtMost (replay [create .sessions id s] rows) user (limitIn rows user))
    (paid : 0 < balanceOf rows user) :
    Metered.Run (cafe rows) [.enter s.deviceMac user]
      (cafe (replay [create .sessions id s] rows)) := by
  have free : (cafe rows).holder s.deviceMac = none := by
    refine holder_none.mpr fun other online => ?_
    obtain ⟨key, row, present, here, _, open'⟩ := online
    have different : key ≠ id := by
      rintro rfl
      cases absent.symm.trans present
    refine different (single' key id row s ?_ ?_ open' active here)
    · rw [replay_cons, replay_nil, create_key _ _ _ _ _ different, present]
    · rw [replay_cons, replay_nil, create_same]
  have room : (cafe rows).Room user := by
    intro places once held
    obtain ⟨ids, distinct, length, sessions⟩ := places_sessions places once
      fun mac member => (holder_iff single).mp (held mac member)
    have new : id ∉ ids := by
      intro listed
      obtain ⟨row, present, _⟩ := sessions id listed
      cases absent.symm.trans present
    have fewer := within (id :: ids) (List.nodup_cons.mpr ⟨new, distinct⟩) ?_
    · rw [List.length_cons, length] at fewer
      exact Nat.lt_of_lt_of_le fewer (Nat.le_max_right _ _)
    · intro key member
      rcases List.mem_cons.mp member with rfl | later
      · exact ⟨s, by rw [replay_cons, replay_nil, create_same], mine, active⟩
      · obtain ⟨row, present, _, owner, open'⟩ := sessions key later
        have different : key ≠ id := by
          rintro rfl
          exact new later
        exact ⟨row, by rw [replay_cons, replay_nil, create_key _ _ _ _ _ different, present], owner,
          open'⟩
  have entered : cafe (replay [create .sessions id s] rows) =
      (cafe rows).held s.deviceMac (some user) := by
    rw [Metered.State.held, show cafe (replay [create .sessions id s] rows) =
      ⟨(cafe (replay [create .sessions id s] rows)).credit,
        (cafe (replay [create .sessions id s] rows)).limit,
        (cafe (replay [create .sessions id s] rows)).holder⟩ from rfl, Metered.State.mk.injEq]
    refine ⟨?_, ?_, ?_⟩
    · simp [cafe, balanceOf]
    · simp [cafe, limitIn]
    · funext mac
      by_cases here : mac = s.deviceMac
      · subst here
        rw [Function.update_self, holder_iff single', online_opened absent active]
        exact Or.inr ⟨rfl, mine⟩
      · rw [Function.update_of_ne here]
        refine congrArg theOne (funext fun other => propext ?_)
        rw [online_opened absent active]
        exact or_iff_left fun other => here other.1.symm
  rw [entered]
  refine .cons (.enter _ _ _ free ?_ room) (.nil _)
  simpa [cafe] using paid

end Entering

section Crediting
variable {rows : Store} {id : Nat}

theorem credit_runs {seconds : Nat} {limit : Option Nat} {source : CreditSource} {now : Time}
    {account : UserRow} (present : rows .users id = some account)
    (floor : 0 ≤ account.remainingSeconds) :
    Metered.Run (cafe rows) [.credit id seconds (limit.getD 0)]
      (cafe (replay [alter .users id (.credit seconds limit source) now] rows)) := by
  have credited : cafe (replay [alter .users id (.credit seconds limit source) now] rows) =
      (cafe rows).credited id seconds (limit.getD 0) := by
    rw [Metered.State.credited, cafe, Metered.State.mk.injEq]
    refine ⟨?_, ?_, ?_⟩
    · funext user
      by_cases same : user = id
      · subst same
        simp only [Function.update_self, cafe, balanceOf, replay_cons, replay_nil,
          alter_same, present, Option.map_some, Op.run, UserOp.run]
        omega
      · simp [cafe, balanceOf, same]
    · funext user
      by_cases same : user = id
      · subst same
        cases limit with
        | none => simp [cafe, limitIn, present, Op.run, UserOp.run, raiseLimit]
        | some more => simp [cafe, limitIn, present, Op.run, UserOp.run, raiseLimit, max_assoc]
      · simp [cafe, limitIn, same]
    · exact holder_congr fun mac user => online_congr fun key => by simp
  rw [credited]
  exact .cons (.credit _ _ _ _) (.nil _)

theorem settled_dues {basis : Basis} {thread : Nat} {now date : Time} {acts : List Entry}
    (based : ∀ table id row, basis.row table id row → rows table id = row)
    (pass : Settled basis thread now date acts) : ∃ dues : List (Nat × Nat),
      (∀ due ∈ dues, ∃ mac, OnlineAs rows mac due.1) ∧
      ∀ user, (balanceOf (replay acts rows) user).toNat = (balanceOf rows user).toNat -
        ((dues.filter fun due => due.1 = user).map Prod.snd).sum := by
  have ends : ∀ (acts : List Entry) (key user : Nat),
      balanceOf (replay (acts ++ [alter .sessions key (.finish .ended) now]) rows) user =
        balanceOf (replay acts rows) user := by
    intro acts key user
    rw [replay_append]
    simp [balanceOf]
  induction pass with
  | nothing => exact ⟨[], by simp, by simp⟩
  | @settled before device id s account earlier row active owner positive devices ih =>
      obtain ⟨dues, present, balance⟩ := ih
      have session := based _ _ _ row
      obtain ⟨account', held, _⟩ := replay_same rows .users s.userId before
        (settled_alters earlier _ _ (by simp)) (based _ _ _ owner)
      refine ⟨dues ++ [(s.userId, elapsedSeconds date s.lastTick)], ?_, ?_⟩
      · intro due member
        rcases List.mem_append.mp member with listed | latest
        · exact present due listed
        · rw [List.mem_singleton] at latest
          subst latest
          exact ⟨s.deviceMac, id, s, session, rfl, rfl, active⟩
      · intro user
        have moved := balance user
        have after : replay (before ++
            alter .sessions id (.settle (elapsedSeconds date s.lastTick)) now ::
            alter .users s.userId (.charge (elapsedSeconds date s.lastTick) id) now :: device) rows
              .users user = RowLock.runEntry Act.run (replay before rows)
                (alter .users s.userId (.charge (elapsedSeconds date s.lastTick) id) now)
                  .users user := by
          rw [replay_append, replay_cons, replay_cons,
            replay_table _ _ _ device fun entry member => by simp [devices entry member]]
          by_cases mine : user = s.userId
          · subst mine
            simp
          · simp [mine]
        rw [balanceOf, after]
        by_cases mine : user = s.userId
        · subst mine
          have before' : balanceOf (replay before rows) s.userId = account'.remainingSeconds := by
            simp [balanceOf, held]
          rw [before'] at moved
          simp only [alter_same, held, Option.map_some, Op.run, UserOp.run, List.filter_append,
            List.map_append, List.sum_append, List.filter_cons, decide_true, if_true,
              List.filter_nil,
            List.map_cons, List.map_nil, List.sum_cons, List.sum_nil]
          omega
        · rw [alter_key _ _ _ _ _ _ mine]
          change (balanceOf (replay before rows) user).toNat = _
          simpa [Ne.symm mine] using moved
  | vanished _ _ _ _ ih | exhausted _ _ _ ih =>
      obtain ⟨dues, present, balance⟩ := ih
      refine ⟨dues, present, fun user => ?_⟩
      rw [ends]
      exact balance user

end Crediting
section Blocks
variable {config : Config} {pool : ServerPool} (reached : Reached config pool)
  {index thread : Nat} {call : Call} {acts : List Entry}
include reached

theorem committed_single {commits : Nat} (bound : commits ≤ pool.state.db.log.length) :
    Single (storeAfter pool.state.db.log commits) := by
  obtain ⟨earlier, reached', _, store⟩ := reached_commit reached bound
  intro id key s other present present' active active' same
  by_contra different
  rw [← store] at present present'
  have apart := (reached_unique reached').stored .sessions id key s other different present present'
  simp [conflicts, active, active', same] at apart

theorem committed_within {commits : Nat} (bound : commits ≤ pool.state.db.log.length) (user : Nat) :
    AtMost (storeAfter pool.state.db.log commits) user
      (limitIn (storeAfter pool.state.db.log commits) user) := by
  obtain ⟨earlier, reached', _, store⟩ := reached_commit reached bound
  rw [← store]
  exact (reached_bounded reached').within user

theorem uncredited_limit (found : pool.state.db.log[index]? = some (thread, acts))
    (uncredited : acts.filterMap creditOf = []) (user : Nat) :
    max 1 (limitIn (storeAfter pool.state.db.log (index + 1)) user) =
      max 1 (limitIn (storeAfter pool.state.db.log index) user) := by
  have folds : ∀ commits ≤ pool.state.db.log.length,
      max 1 (limitIn (storeAfter pool.state.db.log commits) user) =
        (limitsCredited (pool.state.db.log.take commits) user).foldl max 1 := by
    intro commits bound
    obtain ⟨absent, credited⟩ := @limit_credited _ _ (reached_legit reached) user _ bound
    cases present : storeAfter pool.state.db.log commits .users user with
    | none => simp [limitIn, present, absent present]
    | some account =>
        rw [← credited account present]
        simp [limitIn, present, account.limitPositive]
  have bound := (List.getElem?_eq_some_iff.mp found).1
  have nothing : acts.filterMap (limitOf user) = [] := by
    refine List.filterMap_eq_nil_iff.mpr fun entry member => ?_
    have none' := List.filterMap_eq_nil_iff.mp uncredited entry member
    by_cases hit : entry.table = .users ∧ entry.id = user
    · obtain ⟨table, id, act⟩ := entry
      obtain ⟨rfl, rfl⟩ := hit
      cases act with
      | update op now =>
          cases op with
          | credit => cases none'
          | charge | syncAdmin => rfl
      | insert | delete => rfl
    · exact limitOf_other hit
  rw [folds _ bound, folds _ (Nat.le_of_lt bound), limitsCredited_succ found, nothing,
    List.append_nil]

end Blocks

/-- What a block brings about in the café. -/
structure Plays (rows later : Store) (call : Call) (acts : List Entry)
    (deeds : List (Metered.Act Nat Text)) : Prop where
  ran : Metered.Run (cafe rows) deeds (cafe later)
  authored : ∀ deed ∈ deeds, call.Authors deed
  credited : ∀ user, Metered.creditsTo user deeds = creditedTo (acts.filterMap creditOf) user

section Plays
variable {config : Config} {pool : ServerPool} (reached : Reached config pool)
  {index thread : Nat} {call : Call} {acts : List Entry}
  (found : pool.state.db.log[index]? = some (thread, acts))
include reached found

theorem closes_plays (closes : OnlyCloses acts) (uncredited : acts.filterMap creditOf = [])
    (dues : List (Nat × Nat))
    (present : ∀ due ∈ dues, ∃ mac, OnlineAs (storeAfter pool.state.db.log index) mac due.1)
    (balance : ∀ user, (balanceOf (storeAfter pool.state.db.log (index + 1)) user).toNat =
      (balanceOf (storeAfter pool.state.db.log index) user).toNat -
        ((dues.filter fun due => due.1 = user).map Prod.snd).sum)
    (charges : ∀ due ∈ dues, call.Authors (.charge due.1 due.2))
    (leaves : ∀ mac ∈ vacated (storeAfter pool.state.db.log index) acts,
      call.Authors (.leave mac)) :
    ∃ deeds, Plays (storeAfter pool.state.db.log index) (storeAfter pool.state.db.log (index + 1))
      call acts deeds := by
  have next := storeAfter_succ _ _ _ found
  have bound := (List.getElem?_eq_some_iff.mp found).1
  have single := committed_single reached (Nat.le_of_lt bound)
  have charged := @Metered.charges_run _ _ _ _ (cafe (storeAfter pool.state.db.log index)) dues
    fun due member => by
      obtain ⟨mac, online⟩ := present due member
      exact ⟨mac, (holder_iff single).mpr online⟩
  obtain ⟨leaving, among, left⟩ := closes_leave single closes
    { cafe (storeAfter pool.state.db.log index) with
      credit := fun user => (cafe (storeAfter pool.state.db.log index)).credit user -
        ((dues.filter fun due => due.1 = user).map Prod.snd).sum } rfl
  have shape : cafe (storeAfter pool.state.db.log (index + 1)) =
      ⟨fun user => (cafe (storeAfter pool.state.db.log index)).credit user -
        ((dues.filter fun due => due.1 = user).map Prod.snd).sum,
        (cafe (storeAfter pool.state.db.log index)).limit,
        (cafe (replay acts (storeAfter pool.state.db.log index))).holder⟩ := by
    rw [cafe, Metered.State.mk.injEq]
    exact ⟨funext balance, funext fun user => uncredited_limit reached found uncredited user,
      by rw [next]; rfl⟩
  refine ⟨(dues.map fun due => .charge due.1 due.2) ++ leaving.map .leave,
    Metered.run_append charged (shape ▸ left), ?_, ?_⟩
  · intro deed member
    rcases List.mem_append.mp member with charge | leave
    · obtain ⟨due, listed, rfl⟩ := List.mem_map.mp charge
      exact charges due listed
    · obtain ⟨mac, listed, rfl⟩ := List.mem_map.mp leave
      exact leaves mac (among mac listed)
  · intro user
    rw [uncredited, Metered.creditsTo_zero user _ (by simp)]
    rfl

theorem still_plays (still : Still (storeAfter pool.state.db.log index) acts)
    (closes : OnlyCloses acts)
    (leaves : ∀ mac ∈ vacated (storeAfter pool.state.db.log index) acts,
      call.Authors (.leave mac)) :
    ∃ deeds, Plays (storeAfter pool.state.db.log index) (storeAfter pool.state.db.log (index + 1))
      call acts deeds := by
  refine closes_plays reached found closes still.uncredited [] (by simp) ?_ (by simp) leaves
  intro user
  rw [storeAfter_succ _ _ _ found]
  simp [still.balance user]

theorem sessionless_plays (still : Still (storeAfter pool.state.db.log index) acts)
    (sessions : ∀ entry ∈ acts, entry.table ≠ .sessions) :
    ∃ deeds, Plays (storeAfter pool.state.db.log index) (storeAfter pool.state.db.log (index + 1))
      call acts deeds := by
  refine still_plays reached found still
    (fun entry member table => absurd table (sessions entry member)) fun mac member => ?_
  obtain ⟨entry, inside, table, _⟩ := mem_vacated member
  exact absurd table (sessions entry inside)

theorem credit_plays (aside : List Entry) {id seconds : Nat} {limit : Option Nat}
    {source : CreditSource} {now : Time} {account : UserRow}
    (credits : acts = aside ++ [alter .users id (.credit seconds limit source) now])
    (apart : ∀ entry ∈ aside, entry.table ≠ .users ∧ entry.table ≠ .sessions)
    (present : storeAfter pool.state.db.log index .users id = some account)
    (authors : call.Authors (.credit id seconds (limit.getD 0))) :
    ∃ deeds, Plays (storeAfter pool.state.db.log index) (storeAfter pool.state.db.log (index + 1))
      call acts deeds := by
  have next := storeAfter_succ _ _ _ found
  have bound := (List.getElem?_eq_some_iff.mp found).1
  have users : ∀ key, replay aside (storeAfter pool.state.db.log index) .users key =
      storeAfter pool.state.db.log index .users key :=
    fun key => replay_table _ _ _ _ fun entry member => (apart entry member).1
  have sessions : ∀ key, replay aside (storeAfter pool.state.db.log index) .sessions key =
      storeAfter pool.state.db.log index .sessions key :=
    fun key => replay_table _ _ _ _ fun entry member => (apart entry member).2
  have same : cafe (replay aside (storeAfter pool.state.db.log index)) =
      cafe (storeAfter pool.state.db.log index) :=
    cafe_same (fun user => by rw [balanceOf, balanceOf, users])
      (fun user => by rw [limitIn, limitIn, users]) fun mac user => online_congr sessions
  have floor := balance_floor reached id (Nat.le_of_lt bound)
  rw [balanceOf, present] at floor
  have ran := @credit_runs (replay aside (storeAfter pool.state.db.log index)) id
    seconds limit source now account ((users id).trans present) floor
  rw [same, ← replay_append, ← credits, ← next] at ran
  refine ⟨_, ran, by simpa using authors, fun user => ?_⟩
  have nothing : aside.filterMap creditOf = [] :=
    List.filterMap_eq_nil_iff.mpr fun entry member => creditOf_table entry (apart entry member).1
  rw [credits, List.filterMap_append, nothing]
  by_cases mine : id = user
  · simp [Metered.creditsTo, creditedTo, mine]
  · simp [Metered.creditsTo, creditedTo, mine]

/-- A connect that opens a session: whoever is on the MAC leaves, and the caller enters. -/
theorem opened_plays {user : AuthUser} {dto : ConnectDto} {device ended : List Entry} {id : Nat}
    {account : UserRow} {now : Time} (connects : call = .connect user dto)
    (opens : acts = device ++ ended ++ [create .sessions id
      (newSession user.id (toLowerCase dto.clientmac) dto.clientip dto.hid now)])
    (devices : OnDevices device)
    (owner : storeAfter pool.state.db.log index .users user.id = some account)
    (paid : 0 < account.remainingSeconds)
    (closed : Finishes (pool.state.basisAt index) (toLowerCase dto.clientmac) .ended now ended)
    (fresh : storeAfter pool.state.db.log index .sessions id = none) :
    ∃ deeds, Plays (storeAfter pool.state.db.log index) (storeAfter pool.state.db.log (index + 1))
      call acts deeds := by
  have next := storeAfter_succ _ _ _ found
  have bound := (List.getElem?_eq_some_iff.mp found).1
  have single := committed_single reached (Nat.le_of_lt bound)
  have closes : OnlyCloses (device ++ ended) := by
    intro entry member table
    rcases List.mem_append.mp member with other | finished
    · cases (devices entry other).symm.trans table
    · obtain ⟨key, s, rfl, _⟩ := closed entry finished
      exact ⟨_, _, rfl, by simp [Closing]⟩
  have users : ∀ key, replay (device ++ ended) (storeAfter pool.state.db.log index) .users key =
      storeAfter pool.state.db.log index .users key := by
    intro key
    refine replay_table _ _ _ _ fun entry member => ?_
    rcases List.mem_append.mp member with other | finished
    · simp [devices entry other]
    · obtain ⟨key, s, rfl, _⟩ := closed entry finished
      simp [alter]
  have absent : replay (device ++ ended) (storeAfter pool.state.db.log index) .sessions id =
      none := by
    refine replay_absent _ .sessions id _ ?_ fresh
    rintro entry member table rfl
    obtain ⟨op, time, same, _⟩ := closes entry member table
    exact ⟨op, time, same⟩
  obtain ⟨leaving, among, left⟩ := closes_leave single closes
    (cafe (storeAfter pool.state.db.log index)) rfl
  have left' : Metered.Run (cafe (storeAfter pool.state.db.log index)) (leaving.map .leave)
      (cafe (replay (device ++ ended) (storeAfter pool.state.db.log index))) := by
    refine Eq.subst ?_ left
    rw [Metered.State.mk.injEq]
    refine ⟨?_, ?_, rfl⟩
    · simp only [cafe, balanceOf, users]
    · simp only [cafe, limitIn, users]
  have later : storeAfter pool.state.db.log (index + 1) = replay [create .sessions id
      (newSession user.id (toLowerCase dto.clientmac) dto.clientip dto.hid now)]
        (replay (device ++ ended) (storeAfter pool.state.db.log index)) := by
    rw [next, ← replay_append]
    exact congrArg (fun acts => replay acts _) opens
  have single' := committed_single reached (Nat.succ_le_of_lt bound)
  have within := committed_within reached (Nat.succ_le_of_lt bound) user.id
  rw [later] at single' within
  have entered := @opens_enter _ id user.id _ (closes_single single closes) absent rfl rfl single'
    (by simpa [limitIn] using within) (by simpa [balanceOf, users, owner] using paid)
  rw [← later] at entered
  subst connects
  refine ⟨_, Metered.run_append left' entered, ?_, ?_⟩
  · intro deed member
    rcases List.mem_append.mp member with leave | enter
    · obtain ⟨mac, listed, rfl⟩ := List.mem_map.mp leave
      obtain ⟨entry, inside, table, s, present, rfl⟩ := mem_vacated (among mac listed)
      rcases List.mem_append.mp inside with other | finished
      · cases (devices entry other).symm.trans table
      · exact finishes_mac closed entry finished present
    · rw [List.mem_singleton] at enter
      subst enter
      exact ⟨rfl, rfl⟩
  · intro caller
    have nothing : acts.filterMap creditOf = [] := by
      refine List.filterMap_eq_nil_iff.mpr fun entry member => creditOf_table entry ?_
      rw [opens, List.append_assoc, List.mem_append, List.mem_append, List.mem_singleton] at member
      rcases member with other | finished | rfl
      · simp [devices entry other]
      · obtain ⟨key, s, rfl, _⟩ := closed entry finished
        simp [alter]
      · simp [create]
    rw [nothing, Metered.creditsTo_zero caller _ (by simp)]
    rfl

end Plays

/-- Each transaction that commits is a run of the café that its call may bring about. -/
theorem block_plays {config : Config} {pool : ServerPool} (reached : Reached config pool)
    {index thread : Nat} {acts : List Entry} {call : Call}
    (found : pool.state.db.log[index]? = some (thread, acts))
    (called : pool.state.arrivals[thread]? = some call) :
    ∃ deeds, Plays (storeAfter pool.state.db.log index) (storeAfter pool.state.db.log (index + 1))
      call acts deeds := by
  obtain ⟨call', called', lawful⟩ := block_lawful (reached_legit reached) found
  rw [called, Option.some.injEq] at called'
  subst called'
  have tables := lawful_tables lawful
  have lawful' := lawful
  have closes : (∀ id row, create .sessions id row ∉ acts) → OnlyCloses acts := by
    intro unopened entry member table
    cases lawful_sessions lawful entry member table with
    | opened absent => exact absurd member (unopened _ _)
    | settled | refreshed => exact ⟨_, _, rfl, trivial⟩
    | vanished | exhausted | takenOver | kicked => exact ⟨_, _, rfl, by simp [Closing]⟩
  by_cases sessions : TableName.sessions ∈ call.tables
  · cases lawful with
    | nothing => exact sessionless_plays reached found still_nil (by simp)
    | @refresh user dto id s account now device devices owner paid row active mine same =>
        have unopened : ∀ key row, create .sessions key row ∉
            device ++ [alter .sessions id (.refresh dto.clientip dto.hid) now] := by
          intro key row member
          rcases List.mem_append.mp member with other | latest
          · cases devices _ other
          · cases List.mem_singleton.mp latest
        refine still_plays reached found (connected_still lawful') (closes unopened) ?_
        intro mac member
        obtain ⟨entry, inside, table, s', present, rfl⟩ := mem_vacated member
        rcases List.mem_append.mp inside with other | latest
        · cases (devices entry other).symm.trans table
        · obtain rfl := List.mem_singleton.mp latest
          cases present.symm.trans (show storeAfter _ _ _ _ = _ from row)
          exact same
    | opened devices owner paid closed fresh =>
        exact opened_plays reached found rfl rfl devices owner paid closed fresh
    | kick closed =>
        have unopened : ∀ key row, create .sessions key row ∉ acts := by
          intro key row member
          obtain ⟨id, s, same, _⟩ := closed _ member
          cases same
        refine still_plays reached found (unmetered_still (finishes_unmetered closed))
          (closes unopened) ?_
        intro mac member
        obtain ⟨entry, inside, _, s, present, rfl⟩ := mem_vacated member
        exact finishes_mac closed entry inside present
    | tick ordered pass =>
        have kinds := settled_entries pass
        have unopened : ∀ key row, create .sessions key row ∉ acts := by
          intro key row member
          obtain device | ⟨id, elapsed, same⟩ | ⟨id, same⟩ | ⟨user, elapsed, id, same⟩ :=
            kinds _ member
          · cases device
          · cases same
          · cases same
          · cases same
        have uncredited : acts.filterMap creditOf = [] := by
          refine List.filterMap_eq_nil_iff.mpr fun entry member => ?_
          obtain device | ⟨id, elapsed, rfl⟩ | ⟨id, rfl⟩ | ⟨user, elapsed, id, rfl⟩ :=
            kinds entry member
          · exact creditOf_table entry (by simp [device])
          · rfl
          · rfl
          · rfl
        obtain ⟨dues, present, balance⟩ :=
          @settled_dues (storeAfter pool.state.db.log index) _ _ _ _ _ (fun _ _ _ row => row) pass
        refine closes_plays reached found (closes unopened) uncredited dues present ?_
          (fun _ _ => trivial) fun _ _ => trivial
        rw [storeAfter_succ _ _ _ found]
        exact balance
    | _ => simp [Call.tables] at sessions
  · have sessionless : ∀ entry ∈ acts, entry.table ≠ .sessions :=
      fun entry member same => sessions (same ▸ tables entry member)
    by_cases users : TableName.users ∈ call.tables
    · cases lawful with
      | nothing => exact sessionless_plays reached found still_nil (by simp)
      | redeem voucher unused owner =>
          exact credit_plays reached found [_] rfl (by simp [alter]) owner rfl
      | approve row pending owner =>
          exact credit_plays reached found [_] rfl (by simp [alter]) owner trivial
      | reject =>
          exact sessionless_plays reached found (unmetered_still (by simp [Unmetered, alter]))
            sessionless
      | grant owner => exact credit_plays reached found [] rfl (by simp) owner rfl
      | register free | seedAdmin free =>
          exact sessionless_plays reached found (joined_still (balance_absent free) rfl) sessionless
      | syncAdmin => exact sessionless_plays reached found synced_still sessionless
      | seedClients seeded =>
          refine sessionless_plays reached found (seeded_still fun entry member => ?_) sessionless
          obtain ⟨id, number, free, _, _, rfl⟩ := seeded entry member
          exact ⟨id, _, balance_absent free, rfl, rfl⟩
      | _ => simp [Call.tables] at users sessions
    · exact sessionless_plays reached found (aside_still lawful users sessions _) sessionless

section Logs
variable {config : Config} {pool : ServerPool} (reached : Reached config pool)
include reached

theorem log_runs {commits : Nat} (bound : commits ≤ pool.state.db.log.length) :
    ∃ deeds, Metered.Run .empty deeds (cafe (storeAfter pool.state.db.log commits)) ∧
      ∀ user, Metered.creditsTo user deeds =
        creditedTo (credits (pool.state.db.log.take commits)) user := by
  refine log_induction (reached_legit reached) (fun commits => ∃ deeds,
    Metered.Run .empty deeds (cafe (storeAfter pool.state.db.log commits)) ∧
      ∀ user, Metered.creditsTo user deeds =
        creditedTo (credits (pool.state.db.log.take commits)) user) ?_ ?_ commits bound
  · have nobody : cafe (storeAfter pool.state.db.log 0) = Metered.State.empty := by
      rw [Metered.State.empty, cafe, Metered.State.mk.injEq]
      refine ⟨by funext user; simp [balanceOf, storeAfter],
        by funext user; simp [limitIn, storeAfter], ?_⟩
      funext mac
      refine holder_none.mpr fun user online => ?_
      obtain ⟨id, s, present, _⟩ := online
      cases present
    exact ⟨[], nobody ▸ .nil _, fun user => rfl⟩
  · rintro index thread acts call found called _ _ ⟨deeds, ran, credited⟩
    obtain ⟨more, played⟩ := block_plays reached found called
    refine ⟨deeds ++ more, Metered.run_append ran played.ran, fun user => ?_⟩
    rw [Metered.creditsTo_append, credited user, played.credited user, credits_succ found,
      creditedTo_append]

/-- A block after which somebody is online who was not before is that account's connect. -/
theorem entered_connect {index thread : Nat} {acts : List Entry} {call : Call} {mac : Text}
    {user : Nat} (found : pool.state.db.log[index]? = some (thread, acts))
    (called : pool.state.arrivals[thread]? = some call)
    (before : ¬ OnlineAs (storeAfter pool.state.db.log index) mac user)
    (after : OnlineAs (storeAfter pool.state.db.log (index + 1)) mac user) :
    ∃ customer dto, call = .connect customer dto ∧ customer.id = user ∧
      toLowerCase dto.clientmac = mac ∧
        0 < creditedTo (credits (pool.state.db.log.take index)) user := by
  have bound := (List.getElem?_eq_some_iff.mp found).1
  obtain ⟨deeds, played⟩ := block_plays reached found called
  obtain ⟨first, rest, middle, rfl, ran, paid⟩ := Metered.run_entered played.ran
    (fun held => before ((holder_iff (committed_single reached (Nat.le_of_lt bound))).mp held))
    ((holder_iff (committed_single reached (Nat.succ_le_of_lt bound))).mpr after)
  have authored := played.authored (.enter mac user) (by simp)
  cases call with
  | connect customer dto =>
      obtain ⟨rfl, rfl⟩ := authored
      refine ⟨customer, dto, rfl, rfl, rfl, ?_⟩
      obtain ⟨earlier, origin, credited⟩ := log_runs reached (Nat.le_of_lt bound)
      have more := Metered.run_credit customer.id (Metered.run_append origin ran)
      have nothing := played.credited customer.id
      obtain ⟨call', called', lawful⟩ := block_lawful (reached_legit reached) found
      rw [called, Option.some.injEq] at called'
      subst called'
      rw [(connected_still lawful).uncredited, Metered.creditsTo_append] at nothing
      have none' : Metered.creditsTo customer.id first = 0 := by
        have zero : creditedTo [] customer.id = 0 := rfl
        omega
      rw [Metered.creditsTo_append, none', credited customer.id] at more
      exact Nat.lt_of_lt_of_le paid (by simpa [Metered.State.empty] using more)
  | decide actor id approve => simp [Call.Authors] at authored
  | _ => exact authored.elim

end Logs

/-- Every run of the server is a run of the café, transaction by transaction: what a call commits
is what it may bring about there, the credits are the same, and nobody holds too many places. -/
theorem cafe_refined (config : Config) (pool : ServerPool) (reached : Reached config pool) :
    (∃ deeds, Metered.Run .empty deeds (cafe pool.state.db.store) ∧
      ∀ user, Metered.creditsTo user deeds = creditedTo (credits pool.state.db.log) user) ∧
    (cafe pool.state.db.store).Bounded ∧
    ∀ index thread acts call, pool.state.db.log[index]? = some (thread, acts) →
      pool.state.arrivals[thread]? = some call → ∃ deeds,
        Plays (storeAfter pool.state.db.log index) (storeAfter pool.state.db.log (index + 1))
          call acts deeds := by
  obtain ⟨deeds, ran, credited⟩ := log_runs reached (Nat.le_refl _)
  rw [← (reached_ready reached).recorded] at ran
  rw [List.take_length] at credited
  refine ⟨⟨deeds, ran, credited⟩, ?_, ?_⟩
  · exact Metered.run_keeps (fun _ _ _ => Metered.step_bounded) ran Metered.empty_bounded
  · exact fun index thread acts call found called => block_plays reached found called

/-- An hour for the guest, and the phone goes online. -/
def guestOnline : List (Move Choice Call Ambient) :=
  arrival ++ [.start (.connect guest phone)] ++ steps 2 10

theorem guestOnline_online : ∃ pool, Reached shop pool ∧
    OnlineAs pool.state.db.store phoneMac 2 ∧ creditedTo (credits pool.state.db.log) 2 = 3600 := by
  obtain ⟨pool, reached, _, seen⟩ := play_shows shop guestOnline
    (fun pool => ((pool.state.db.store .sessions 1).map
      (fun s : SessionRow => (s.deviceMac, s.userId, s.status)),
        creditedTo (credits pool.state.db.log) 2))
    (some (phoneMac, 2, .active), 3600) (by decide +kernel)
  obtain ⟨online, credited⟩ := Prod.mk.inj seen
  obtain ⟨s, present, same⟩ := Option.map_eq_some_iff.mp online
  obtain ⟨here, same⟩ := Prod.mk.inj same
  obtain ⟨owner, active⟩ := Prod.mk.inj same
  exact ⟨pool, reached, ⟨1, s, present, here, owner, active⟩, credited⟩

theorem cafe_refined_online : ∃ deeds : List (Metered.Act Nat Text), ∃ final,
    Metered.Run .empty deeds final ∧ final.holder phoneMac = some 2 ∧
      Metered.creditsTo 2 deeds = 3600 := by
  obtain ⟨pool, reached, online, credited⟩ := guestOnline_online
  obtain ⟨⟨deeds, ran, same⟩, _, _⟩ := cafe_refined shop pool reached
  have recorded := (reached_ready reached).recorded
  have single := committed_single reached (Nat.le_refl _)
  rw [← recorded] at single
  exact ⟨deeds, _, ran, (holder_iff single).mpr online, (same 2).trans credited⟩

/-- Whoever is online has connected with the MAC, and had been credited before. -/
theorem online_paid_first (config : Config) (pool : ServerPool) (reached : Reached config pool)
    (mac : Text) (user : Nat) (online : OnlineAs pool.state.db.store mac user) :
    ∃ index thread acts customer dto, pool.state.db.log[index]? = some (thread, acts) ∧
      pool.state.arrivals[thread]? = some (.connect customer dto) ∧ customer.id = user ∧
      toLowerCase dto.clientmac = mac ∧
      0 < creditedTo (credits (pool.state.db.log.take index)) user := by
  rw [(reached_ready reached).recorded] at online
  refine log_induction (reached_legit reached) (fun commits =>
    OnlineAs (storeAfter pool.state.db.log commits) mac user → ∃ index thread acts customer dto,
      pool.state.db.log[index]? = some (thread, acts) ∧
      pool.state.arrivals[thread]? = some (.connect customer dto) ∧ customer.id = user ∧
      toLowerCase dto.clientmac = mac ∧
      0 < creditedTo (credits (pool.state.db.log.take index)) user) ?_ ?_ _ (Nat.le_refl _) online
  · rintro ⟨id, s, present, _⟩
    cases present
  · intro index thread acts call found called _ _ earlier after
    by_cases before : OnlineAs (storeAfter pool.state.db.log index) mac user
    · exact earlier before
    · obtain ⟨customer, dto, rfl, owner, here, paid⟩ :=
        entered_connect reached found called before after
      exact ⟨index, thread, acts, customer, dto, found, called, owner, here, paid⟩

theorem online_paid_first_phone : ∃ pool index thread acts customer dto,
    Reached shop pool ∧ pool.state.db.log[index]? = some (thread, acts) ∧
      pool.state.arrivals[thread]? = some (.connect customer dto) ∧ customer.id = 2 ∧
      toLowerCase dto.clientmac = phoneMac ∧
      0 < creditedTo (credits (pool.state.db.log.take index)) 2 := by
  obtain ⟨pool, reached, online, _⟩ := guestOnline_online
  obtain ⟨index, thread, acts, customer, dto, opened⟩ :=
    online_paid_first shop pool reached phoneMac 2 online
  exact ⟨pool, index, thread, acts, customer, dto, reached, opened⟩

end Cybera
