import Cybera.LockOrder
import Cybera.System

/-!
The rows that each transaction locks, in the order of its statements, and which
transactions can end up waiting for each other in a ring.
-/

namespace Cybera

open Interleaving LockOrder

abbrev RowRef := TableName × Nat

/-- The committed rows that the transactions find: a MAC has at most one active
session, and a session has its user. -/
structure Tables where
  rows : Store
  next : TableName → Nat
  oneOnMac : ∀ id key, id ≠ key → ∀ s t : SessionRow, rows .sessions id = some s →
    rows .sessions key = some t → conflicts .sessions s t = false
  rooted : ∀ id, ∀ s : SessionRow, rows .sessions id = some s → (rows .users s.userId).isSome

/-- `order` is the order in which a transaction's scans meet the rows. -/
inductive Transaction where
  | tick (order : Nat → Nat)
  | connect (order : Nat → Nat) (user : Nat) (mac : Text)
  | kick (order : Nat → Nat) (mac : Text)
  | redeem (voucher user : Nat)
  | decide (request user : Nat)

section Rows
variable (tables : Tables)

def Tables.view (order : Nat → Nat) : View where
  rows := tables.rows
  next := tables.next
  now := 0
  order := order
  clients := []

def Tables.Active (id : Nat) (session : SessionRow) : Prop :=
  id < tables.next .sessions ∧ tables.rows .sessions id = some session ∧ session.status = .active

def joined (order : Nat → Nat) : List (Nat × Nat) :=
  Query.eval (tables.view order) .settlementRows

def ownSessions (order : Nat → Nat) (user : Nat) : List Nat :=
  Query.eval (tables.view order) (.activeSessionsOf user)

def sessionsOn (order : Nat → Nat) (mac : Text) : List Nat :=
  Query.eval (tables.view order) (.activeSessionsOn mac)

def isOn (mac : Text) (id : Nat) : Bool :=
  match tables.rows .sessions id with
  | some (session : SessionRow) => session.deviceMac == mac
  | none => false

/-- What connect ends on the MAC: nothing when one of the user's own sessions is on it. -/
def takeover (order : Nat → Nat) (user : Nat) (mac : Text) : List Nat :=
  if (ownSessions tables order user).any (isOn tables mac) then [] else sessionsOn tables order mac

def joinRows (ids : Nat × Nat) : List RowRef := [(.sessions, ids.1), (.users, ids.2)]

def Transaction.lockOrder : Transaction → List RowRef
  | .tick order => (joined tables order).flatMap joinRows
  | .connect order user mac =>
      (.users, user) :: (ownSessions tables order user ++ takeover tables order user mac).map
        fun id => (.sessions, id)
  | .kick order mac => (sessionsOn tables order mac).map fun id => (.sessions, id)
  | .redeem voucher user => [(.vouchers, voucher), (.users, user)]
  | .decide request user => [(.planRequests, request), (.users, user)]

variable {tables}

theorem active_same {id : Nat} {s t : SessionRow} (first : tables.Active id s)
    (second : tables.Active id t) : s = t :=
  Option.some.inj (first.2.1.symm.trans second.2.1)

theorem active_on {id key : Nat} {s t : SessionRow} (first : tables.Active id s)
    (second : tables.Active key t) (same : s.deviceMac = t.deviceMac) : id = key := by
  by_contra different
  have apart := tables.oneOnMac id key different s t first.2.1 second.2.1
  simp [conflicts, same, first.2.2, second.2.2] at apart

theorem mem_joined {order : Nat → Nat} {id user : Nat} :
    (id, user) ∈ joined tables order ↔ ∃ s, tables.Active id s ∧ s.userId = user := by
  simp only [joined, Query.eval, List.mem_insertionSort, List.mem_map, Prod.mk.injEq]
  constructor
  · rintro ⟨⟨key, s⟩, found, rfl, owner⟩
    obtain ⟨bound, present, kept⟩ := mem_scan.mp found
    simp only [Bool.and_eq_true, beq_iff_eq] at kept
    exact ⟨s, ⟨bound, present, kept.1⟩, owner⟩
  · rintro ⟨s, ⟨bound, present, active⟩, owner⟩
    have user : ((tables.view order).rows .users s.userId).isSome := tables.rooted id s present
    refine ⟨(id, s), mem_scan.mpr ⟨bound, present, ?_⟩, rfl, owner⟩
    simp [active, user]

theorem joined_once (order : Nat → Nat) : ((joined tables order).map Prod.fst).Nodup := by
  have scanned := scan_once (tables.view order) .sessions fun s : SessionRow =>
    s.status == .active && ((tables.view order).rows .users s.userId).isSome
  rw [joined, Query.eval]
  refine (((List.perm_insertionSort _ _).map Prod.fst).nodup_iff).mpr ?_
  simpa [List.map_map, Function.comp_def] using scanned

theorem joined_sorted (order : Nat → Nat) :
    (joined tables order).Pairwise fun a b => a.2 ≤ b.2 := by
  have total : Std.Total fun a b : Nat × Nat => a.2 ≤ b.2 := ⟨fun a b => Nat.le_total a.2 b.2⟩
  have transitive : IsTrans (Nat × Nat) fun a b => a.2 ≤ b.2 := ⟨fun _ _ _ => Nat.le_trans⟩
  exact List.pairwise_insertionSort _ _

theorem mem_ids {order : Nat → Nat} {keep : SessionRow → Bool} {id : Nat} :
    id ∈ ((tables.view order).scan .sessions keep).map Prod.fst ↔
      id < tables.next .sessions ∧ ∃ s, tables.rows .sessions id = some s ∧ keep s = true := by
  rw [List.mem_map]
  constructor
  · rintro ⟨⟨_, s⟩, found, rfl⟩
    obtain ⟨bound, present, kept⟩ := mem_scan.mp found
    exact ⟨bound, s, present, kept⟩
  · rintro ⟨bound, s, present, kept⟩
    exact ⟨(id, s), mem_scan.mpr ⟨bound, present, kept⟩, rfl⟩

theorem mem_ownSessions {order : Nat → Nat} {user id : Nat} :
    id ∈ ownSessions tables order user ↔ ∃ s, tables.Active id s ∧ s.userId = user := by
  rw [ownSessions, Query.eval, mem_ids]
  simp only [Bool.and_eq_true, beq_iff_eq]
  constructor
  · rintro ⟨bound, s, present, owner, active⟩
    exact ⟨s, ⟨bound, present, active⟩, owner⟩
  · rintro ⟨s, ⟨bound, present, active⟩, owner⟩
    exact ⟨bound, s, present, owner, active⟩

theorem mem_sessionsOn {order : Nat → Nat} {mac : Text} {id : Nat} :
    id ∈ sessionsOn tables order mac ↔ ∃ s, tables.Active id s ∧ s.deviceMac = mac := by
  rw [sessionsOn, Query.eval, mem_ids]
  simp only [Bool.and_eq_true, beq_iff_eq]
  constructor
  · rintro ⟨bound, s, present, device, active⟩
    exact ⟨s, ⟨bound, present, active⟩, device⟩
  · rintro ⟨s, ⟨bound, present, active⟩, device⟩
    exact ⟨bound, s, present, device, active⟩

theorem ownSessions_once (order : Nat → Nat) (user : Nat) : (ownSessions tables order user).Nodup :=
  scan_once (tables.view order) .sessions _

theorem sessionsOn_single (order : Nat → Nat) (mac : Text) :
    (sessionsOn tables order mac).length ≤ 1 := by
  have once : (sessionsOn tables order mac).Nodup := scan_once (tables.view order) .sessions _
  have same : ∀ id ∈ sessionsOn tables order mac, ∀ key ∈ sessionsOn tables order mac,
      id = key := by
    intro id member key member'
    obtain ⟨s, active, device⟩ := mem_sessionsOn.mp member
    obtain ⟨t, active', device'⟩ := mem_sessionsOn.mp member'
    exact active_on active active' (device.trans device'.symm)
  cases list : sessionsOn tables order mac with
  | nil => simp
  | cons id rest =>
      cases rest with
      | nil => simp
      | cons key rest =>
          rw [list] at once same
          exact absurd (same id (by simp) key (by simp)) fun equal => by simp [equal] at once

theorem takeover_single (order : Nat → Nat) (user : Nat) (mac : Text) :
    (takeover tables order user mac).length ≤ 1 := by
  rw [takeover]
  split
  · simp
  · exact sessionsOn_single order mac

theorem mem_takeover {order : Nat → Nat} {user id : Nat} {mac : Text} :
    id ∈ takeover tables order user mac ↔
      ∃ s, tables.Active id s ∧ s.deviceMac = mac ∧ s.userId ≠ user := by
  have onMac : ∀ key, isOn tables mac key = true ↔
      ∃ s : SessionRow, tables.rows .sessions key = some s ∧ s.deviceMac = mac := by
    intro key
    cases here : tables.rows .sessions key with
    | none => simp [isOn, here]
    | some s => simp [isOn, here]
  rw [takeover]
  split
  case isTrue own =>
    obtain ⟨key, member, device⟩ := List.any_eq_true.mp own
    obtain ⟨t, active, owner⟩ := mem_ownSessions.mp member
    obtain ⟨u, present, device⟩ := (onMac key).mp device
    obtain rfl : t = u := Option.some.inj (active.2.1.symm.trans present)
    refine iff_of_false (by simp) ?_
    rintro ⟨s, active', device', foreign⟩
    obtain rfl := active_on active active' (device.trans device'.symm)
    exact foreign (active_same active active' ▸ owner)
  case isFalse own =>
    rw [mem_sessionsOn]
    constructor
    · rintro ⟨s, active, device⟩
      refine ⟨s, active, device, fun owner => own (List.any_eq_true.mpr ⟨id, ?_, ?_⟩)⟩
      · exact mem_ownSessions.mpr ⟨s, active, owner⟩
      · exact (onMac id).mpr ⟨s, active.2.1, device⟩
    · rintro ⟨s, active, device, _⟩
      exact ⟨s, active, device⟩

theorem takeover_only {order : Nat → Nat} {user id : Nat} {mac : Text} {s : SessionRow}
    (active : tables.Active id s) (device : s.deviceMac = mac) (foreign : s.userId ≠ user) :
    takeover tables order user mac = [id] := by
  have member : id ∈ takeover tables order user mac := mem_takeover.mpr ⟨s, active, device, foreign⟩
  have single := @takeover_single tables order user mac
  obtain ⟨key, only⟩ := List.length_eq_one_iff.mp
    (Nat.le_antisymm single (List.length_pos_of_mem member))
  rw [only, List.mem_singleton] at member
  rw [only, member]

theorem mem_session_rows {list : List (Nat × Nat)} {id : Nat} :
    (TableName.sessions, id) ∈ list.flatMap joinRows ↔ ∃ user, (id, user) ∈ list := by
  simp [joinRows]

theorem mem_user_rows {list : List (Nat × Nat)} {user : Nat} :
    (TableName.users, user) ∈ list.flatMap joinRows ↔ ∃ id, (id, user) ∈ list := by
  simp [joinRows]

theorem joined_any {order : Nat → Nat} (order' : Nat → Nat) {row : Nat × Nat}
    (member : row ∈ joined tables order) : row ∈ joined tables order' :=
  mem_joined.mpr (mem_joined.mp member)

theorem joined_owner {order order' : Nat → Nat} {id user other : Nat}
    (first : (id, user) ∈ joined tables order) (second : (id, other) ∈ joined tables order') :
    user = other := by
  obtain ⟨s, active, rfl⟩ := mem_joined.mp first
  obtain ⟨t, active', rfl⟩ := mem_joined.mp second
  rw [active_same active active']

variable (tables) (deal other : Transaction)

def Transaction.Ticks : Prop := ∃ order, deal = .tick order

def Transaction.Reconnects : Prop :=
  ∃ order user mac, deal = .connect order user mac ∧
    ∃ id s, tables.Active id s ∧ s.userId = user

/-- The session that a tick locks before all others. -/
def Transaction.start : Option (Nat × Nat) :=
  match deal with
  | .tick order => (joined tables order).head?
  | _ => none

def Transaction.customer : Option Nat :=
  match deal with
  | .connect _ user _ => some user
  | _ => none

theorem start_some {tables : Tables} {deal : Transaction} {row : Nat × Nat}
    (starts : deal.start tables = some row) :
    ∃ order rest, deal = .tick order ∧ joined tables order = row :: rest := by
  cases deal with
  | tick order => exact ⟨order, _, rfl, List.eq_cons_of_mem_head? starts⟩
  | _ => cases starts

/-- A connect with a MAC on which the user of the other connect is active. -/
def Transaction.TakesFrom : Prop :=
  ∃ order user mac, deal = .connect order user mac ∧
    ∃ order' user' mac', other = .connect order' user' mac' ∧ user ≠ user' ∧
      ∃ id s, tables.Active id s ∧ s.deviceMac = mac ∧ s.userId = user'

end Rows

variable {n : Nat} {tables : Tables} {deals : Fin n → Transaction}

def lockOrders (tables : Tables) (deals : Fin n → Transaction) (i : Fin n) : List RowRef :=
  (deals i).lockOrder tables

def NeverDeadlocked (tables : Tables) (deals : Fin n → Transaction) : Prop :=
  ∀ state, Relation.ReflTransGen Step (LockOrder.initial (lockOrders tables deals)) state →
    ¬ Deadlocked state

/-- No tick beside a connect of a user with an active session, no two ticks that
begin with different sessions, and no ring of customers taking over each other's MACs. -/
structure Untangled (tables : Tables) (deals : Fin n → Transaction) : Prop where
  apart : ∀ i j, (deals i).Ticks → ¬ (deals j).Reconnects tables
  sameStart : ∀ i j a b, (deals i).start tables = some a → (deals j).start tables = some b → a = b
  noRing : ∀ ring : Set (Fin n), ring.Nonempty → Set.InjOn (fun i => (deals i).customer) ring →
    ¬ ∀ i ∈ ring, ∃ j ∈ ring, (deals i).TakesFrom tables (deals j)

/-! Each tangle can be run into. -/

theorem tick_meets_connect {i j : Fin n} (ticks : (deals i).Ticks)
    (reconnects : (deals j).Reconnects tables) : ¬ NeverDeadlocked tables deals := by
  obtain ⟨order, tick⟩ := ticks
  obtain ⟨order', user, mac, connect, id, s, active, owner⟩ := reconnects
  have listed : (id, user) ∈ joined tables order := mem_joined.mpr ⟨s, active, owner⟩
  obtain ⟨⟨key, account⟩, found⟩ := Option.isSome_iff_exists.mp
    (List.find?_isSome.mpr ⟨(id, user), listed, by simp⟩ :
      ((joined tables order).find? fun row => row.2 == user).isSome)
  obtain ⟨owned, before, after, split, earlier⟩ := List.find?_eq_some_iff_append.mp found
  obtain rfl : account = user := by simpa using owned
  have own : key ∈ ownSessions tables order' account :=
    mem_ownSessions.mpr (mem_joined.mp (by simp [split] : (key, account) ∈ joined tables order))
  obtain ⟨before', after', split'⟩ := List.append_of_mem own
  have ticked : (before.flatMap joinRows ++ [(.sessions, key)]) ++
      (.users, account) :: after.flatMap joinRows = lockOrders tables deals i := by
    simp [lockOrders, tick, Transaction.lockOrder, split, joinRows]
  have connected : ((.users, account) :: before'.map fun id => (TableName.sessions, id)) ++
      (.sessions, key) :: (after' ++ takeover tables order' account mac).map
        (fun id => (TableName.sessions, id)) = lockOrders tables deals j := by
    simp [lockOrders, connect, Transaction.lockOrder, split']
  have foreign : ∀ id, (id, account) ∉ before := by
    intro id member
    simpa using earlier _ member
  have apart : (before.flatMap joinRows ++ [(TableName.sessions, key)]).Disjoint
      ((.users, account) :: before'.map fun id => (TableName.sessions, id)) := by
    intro row mine theirs
    rcases List.mem_cons.mp theirs with rfl | theirs
    · have held : (TableName.users, account) ∈ before.flatMap joinRows := by simpa using mine
      obtain ⟨id, member⟩ := mem_user_rows.mp held
      exact foreign id member
    · obtain ⟨id, member, rfl⟩ := List.mem_map.mp theirs
      rcases List.mem_append.mp mine with mine | mine
      · obtain ⟨user, member'⟩ := mem_session_rows.mp mine
        have owner : id ∈ ownSessions tables order' account := by simp [split', member]
        have owned : (id, account) ∈ joined tables order :=
          mem_joined.mpr (mem_ownSessions.mp owner)
        have same := joined_owner owned (by simp [split, member'] : (id, user) ∈
          joined tables order)
        exact foreign id (same ▸ member')
      · obtain rfl : id = key := by simpa using mine
        have once := @ownSessions_once tables order' account
        rw [split', List.nodup_middle] at once
        exact (List.nodup_cons.mp once).1 (List.mem_append_left _ member)
  have different : i ≠ j := by
    rintro rfl
    rw [tick] at connect
    cases connect
  obtain ⟨state, reached, deadlocked⟩ := pair_deadlocks different ticked connected apart
    (by simp) (by simp)
  exact fun never => never state reached deadlocked

theorem ticks_meet {i j : Fin n} {a b : Nat × Nat} (first : (deals i).start tables = some a)
    (second : (deals j).start tables = some b) (different : a ≠ b) :
    ¬ NeverDeadlocked tables deals := by
  obtain ⟨order, rest, tick, listed⟩ := start_some first
  obtain ⟨order', rest', tick', listed'⟩ := start_some second
  have later : b ∈ rest := by
    have member : b ∈ joined tables order :=
      joined_any order (by simp [listed'] : b ∈ joined tables order')
    rw [listed] at member
    exact (List.mem_cons.mp member).resolve_left different.symm
  obtain ⟨before, after, split⟩ := List.append_of_mem later
  -- both are sessions of the user that comes first
  have sameUser : a.2 = b.2 := by
    have earlier : a ∈ rest' := by
      have member : a ∈ joined tables order' :=
        joined_any order' (by simp [listed] : a ∈ joined tables order)
      rw [listed'] at member
      exact (List.mem_cons.mp member).resolve_left different
    have sorted := @joined_sorted tables order
    have sorted' := @joined_sorted tables order'
    rw [listed] at sorted
    rw [listed'] at sorted'
    exact Nat.le_antisymm ((List.pairwise_cons.mp sorted).1 b later)
      ((List.pairwise_cons.mp sorted').1 a earlier)
  have ticked : (a :: before).flatMap joinRows ++ (.sessions, b.1) ::
      ((.users, b.2) :: after.flatMap joinRows) = lockOrders tables deals i := by
    simp [lockOrders, tick, Transaction.lockOrder, listed, split, joinRows]
  have ticked' : [(TableName.sessions, b.1)] ++ (.users, b.2) :: rest'.flatMap joinRows =
      lockOrders tables deals j := by
    simp [lockOrders, tick', Transaction.lockOrder, listed', joinRows]
  have apart : ((a :: before).flatMap joinRows).Disjoint [(TableName.sessions, b.1)] := by
    rw [List.disjoint_singleton]
    intro member
    obtain ⟨user, member'⟩ := mem_session_rows.mp member
    have once := @joined_once tables order
    rw [listed, split, ← List.cons_append, List.map_append] at once
    exact (List.nodup_append.mp once).2.2 b.1 (List.mem_map.mpr ⟨_, member', rfl⟩) b.1 (by simp) rfl
  have unequal : i ≠ j := by
    rintro rfl
    rw [first] at second
    exact different (Option.some.inj second)
  obtain ⟨state, reached, deadlocked⟩ := pair_deadlocks unequal ticked ticked' apart
    (by simp) (by simp [joinRows, sameUser])
  exact fun never => never state reached deadlocked

/-- How far a customer comes before the session that he takes over. -/
def ownRows (tables : Tables) (deal : Transaction) : Progress RowRef :=
  match deal with
  | .connect order user mac =>
      ⟨(.users, user) :: (ownSessions tables order user).map fun id => (.sessions, id),
        (takeover tables order user mac).map fun id => (.sessions, id)⟩
  | _ => ⟨[], deal.lockOrder tables⟩

theorem strangers_apart {user user' : Nat} (strangers : user ≠ user') {order order' : Nat → Nat}
    {mac mac' : Text} : (ownRows tables (.connect order user mac)).held.Disjoint
      (ownRows tables (.connect order' user' mac')).held := by
  intro row mine theirs
  simp only [ownRows, List.mem_cons, List.mem_map] at mine theirs
  rcases mine with rfl | ⟨id, own, rfl⟩
  · simp [strangers] at theirs
  · have own' : id ∈ ownSessions tables order' user' := by simpa using theirs
    obtain ⟨s, active, owner⟩ := mem_ownSessions.mp own
    obtain ⟨t, active', owner'⟩ := mem_ownSessions.mp own'
    exact strangers (by rw [← owner, ← owner', active_same active active'])

/-- Every customer of the ring holds his user row and his sessions, and has come
to the session that he takes over. -/
theorem takeovers_meet {ring : Set (Fin n)} (inhabited : ring.Nonempty)
    (apart : Set.InjOn (fun i => (deals i).customer) ring)
    (onward : ∀ i ∈ ring, ∃ j ∈ ring, (deals i).TakesFrom tables (deals j)) :
    ¬ NeverDeadlocked tables deals := by
  have connects : ∀ i ∈ ring, ∃ order user mac, deals i = .connect order user mac := by
    intro i member
    obtain ⟨j, _, order, user, mac, connect, _⟩ := onward i member
    exact ⟨order, user, mac, connect⟩
  have split : ∀ i ∈ ring, (ownRows tables (deals i)).held ++ (ownRows tables (deals i)).ahead =
      lockOrders tables deals i := by
    intro i member
    obtain ⟨order, user, mac, connect⟩ := connects i member
    simp [ownRows, connect, lockOrders, Transaction.lockOrder]
  have exclusive : ∀ i ∈ ring, ∀ j ∈ ring, i ≠ j →
      (ownRows tables (deals i)).held.Disjoint (ownRows tables (deals j)).held := by
    intro i member j member' different
    obtain ⟨order, user, mac, connect⟩ := connects i member
    obtain ⟨order', user', mac', connect'⟩ := connects j member'
    have strangers : user ≠ user' := by
      rintro rfl
      exact different (apart member member' (by simp [connect, connect', Transaction.customer]))
    rw [connect, connect']
    exact strangers_apart strangers
  have waits : ∀ i ∈ ring, ∃ j ∈ ring, Waits (fun i => ownRows tables (deals i)) i j := by
    intro i member
    obtain ⟨j, member', order, user, mac, connect, order', user', mac', connect', strangers,
      id, s, active, device, owner⟩ := onward i member
    refine ⟨j, member', ?_, (.sessions, id), ?_, ?_⟩
    · rintro rfl
      rw [connect] at connect'
      cases connect'
      exact strangers rfl
    · have taken : takeover tables order user mac = [id] := takeover_only active device
        (owner ▸ strangers.symm)
      simp [connect, ownRows, taken]
    · have own : id ∈ ownSessions tables order' user' := mem_ownSessions.mpr ⟨s, active, owner⟩
      simp [connect', ownRows, own]
  obtain ⟨state, reached, deadlocked⟩ := deadlock_reached inhabited _ split exclusive waits
  exact fun never => never state reached deadlocked

/-! Nothing else can. -/

/-- A transaction in the middle of its locks. -/
structure Midway (tables : Tables) (deal : Transaction) (progress : Progress RowRef) : Prop where
  split : progress.held ++ progress.ahead = deal.lockOrder tables
  some : progress.held ≠ []
  more : progress.ahead ≠ []

theorem midway_kick {order : Nat → Nat} {mac : Text} {progress : Progress RowRef} :
    ¬ Midway tables (.kick order mac) progress := by
  intro midway
  have single := @sessionsOn_single tables order mac
  have length := congrArg List.length midway.split
  have held := List.length_pos_iff.mpr midway.some
  have ahead := List.length_pos_iff.mpr midway.more
  simp only [Transaction.lockOrder, List.length_append, List.length_map] at length
  omega

theorem midway_asks {deal : Transaction} {progress : Progress RowRef}
    (midway : Midway tables deal progress) {row : RowRef}
    (asks : progress.ahead.head? = some row) : row.1 = .sessions ∨ row.1 = .users := by
  obtain ⟨first, held, holds⟩ := List.exists_cons_of_ne_nil midway.some
  have later : row ∈ (deal.lockOrder tables).tail := by
    rw [← midway.split, holds]
    exact List.mem_append_right _ (List.mem_of_head? asks)
  cases deal with
  | tick order =>
      obtain ⟨ids, _, found⟩ := List.mem_flatMap.mp (List.mem_of_mem_tail later)
      simp only [joinRows, List.mem_cons, List.not_mem_nil, or_false] at found
      rcases found with rfl | rfl <;> simp
  | connect order user mac =>
      obtain ⟨id, _, rfl⟩ := List.mem_map.mp later
      exact Or.inl rfl
  | kick order mac =>
      obtain ⟨id, _, rfl⟩ := List.mem_map.mp (List.mem_of_mem_tail later)
      exact Or.inl rfl
  | redeem voucher user | decide request user =>
      obtain rfl : row = (.users, user) := by simpa [Transaction.lockOrder] using later
      exact Or.inr rfl

theorem midway_pair {deal : Transaction} {progress : Progress RowRef} {first second : RowRef}
    (midway : Midway tables deal progress) (order : deal.lockOrder tables = [first, second]) :
    progress.held = [first] := by
  obtain ⟨row, held, holds⟩ := List.exists_cons_of_ne_nil midway.some
  obtain ⟨next, ahead, asks⟩ := List.exists_cons_of_ne_nil midway.more
  have split := midway.split
  rw [holds, asks, order] at split
  cases held with
  | nil => simp_all
  | cons other held => simp at split

theorem midway_tick {order : Nat → Nat} {progress : Progress RowRef}
    (midway : Midway tables (.tick order) progress) :
    ∃ row, (Transaction.tick order).start tables = some row ∧
      (.sessions, row.1) ∈ progress.held := by
  obtain ⟨first, held, holds⟩ := List.exists_cons_of_ne_nil midway.some
  have split := midway.split
  cases listed : joined tables order with
  | nil => simp [Transaction.lockOrder, listed, midway.some] at split
  | cons row rest =>
      refine ⟨row, by simp [Transaction.start, listed], ?_⟩
      rw [holds] at split
      simp only [Transaction.lockOrder, listed, List.flatMap_cons, joinRows, List.cons_append,
        List.cons.injEq] at split
      simp [holds, split.1]

/-- As he asks for a session, the customer holds his user row and some of his sessions. -/
structure AtSession (tables : Tables) (order : Nat → Nat) (user : Nat) (mac : Text)
    (progress : Progress RowRef) : Prop where
  first : (.users, user) ∈ progress.held
  holds : ∀ row ∈ progress.held, row = (.users, user) ∨
    ∃ id ∈ ownSessions tables order user, row = (.sessions, id)
  asks : ∀ row, progress.ahead.head? = some row →
    ∃ id, row = (.sessions, id) ∧
      (id ∈ ownSessions tables order user ∨ id ∈ takeover tables order user mac)

theorem midway_connect {order : Nat → Nat} {user : Nat} {mac : Text} {progress : Progress RowRef}
    (midway : Midway tables (.connect order user mac) progress) :
    AtSession tables order user mac progress := by
  obtain ⟨first, held, holds⟩ := List.exists_cons_of_ne_nil midway.some
  have split := midway.split
  rw [holds, List.cons_append, Transaction.lockOrder, List.cons.injEq] at split
  obtain ⟨rfl, split⟩ := split
  refine ⟨by simp [holds], ?_, ?_⟩
  · -- what is still asked for leaves no room for the takeover among the rows held
    have short : held.length ≤ ((ownSessions tables order user).map
        fun id => (TableName.sessions, id)).length := by
      have length := congrArg List.length split
      have single := @takeover_single tables order user mac
      have ahead := List.length_pos_iff.mpr midway.more
      simp only [List.length_append, List.length_map] at length ⊢
      omega
    have within : held <+: (ownSessions tables order user).map fun id =>
        (TableName.sessions, id) := by
      refine List.prefix_of_prefix_length_le (List.prefix_append held progress.ahead) ?_ short
      rw [split, List.map_append]
      exact List.prefix_append _ _
    intro row member
    rw [holds] at member
    rcases List.mem_cons.mp member with rfl | member
    · exact Or.inl rfl
    · obtain ⟨id, own, rfl⟩ := List.mem_map.mp (within.subset member)
      exact Or.inr ⟨id, own, rfl⟩
  · intro row asks
    have member : row ∈ held ++ progress.ahead := List.mem_append_right _ (List.mem_of_head? asks)
    rw [split] at member
    obtain ⟨id, found, rfl⟩ := List.mem_map.mp member
    exact ⟨id, rfl, List.mem_append.mp found⟩

/-- Transactions that wait for each other, all in the middle of their locks. -/
structure Knot (tables : Tables) (deals : Fin n → Transaction) (state : State (Fin n) RowRef)
    (ring : Set (Fin n)) : Prop where
  exclusive : Exclusive state
  closed : Ring (Waits state) ring
  midway : ∀ i ∈ ring, Midway tables (deals i) (state i)

section Knots
variable {state : State (Fin n) RowRef} {ring : Set (Fin n)} (knot : Knot tables deals state ring)
include knot

theorem knot_pair {i : Fin n} (member : i ∈ ring) {first second : RowRef}
    (order : (deals i).lockOrder tables = [first, second]) :
    first.1 = .sessions ∨ first.1 = .users := by
  obtain ⟨j, member', _, row, asks, held⟩ := knot.closed.backward i member
  rw [midway_pair (knot.midway i member) order, List.mem_singleton] at held
  exact held ▸ midway_asks (knot.midway j member') asks

theorem knot_kinds {i : Fin n} (member : i ∈ ring) :
    (∃ order, deals i = .tick order) ∨ ∃ order user mac, deals i = .connect order user mac := by
  have midway := knot.midway i member
  cases deal : deals i with
  | tick order => exact Or.inl ⟨order, rfl⟩
  | connect order user mac => exact Or.inr ⟨order, user, mac, rfl⟩
  | kick order mac => exact absurd (deal ▸ midway) midway_kick
  | redeem voucher user =>
      rcases knot_pair knot member (by rw [deal]; rfl) with same | same <;> cases same
  | decide request user =>
      rcases knot_pair knot member (by rw [deal]; rfl) with same | same <;> cases same

/-- A tick waits for another tick that began with another session, or for a
connect of a user whose session it lists. -/
theorem knot_tick (untangled : Untangled tables deals) {i : Fin n} (member : i ∈ ring)
    (order : Nat → Nat) : deals i ≠ .tick order := by
  intro tick
  have ticking := knot.midway i member
  rw [tick] at ticking
  obtain ⟨j, member', different, row, asks, held⟩ := knot.closed.onward i member
  rcases knot_kinds knot member' with ⟨order', tick'⟩ | ⟨order', user, mac, connect⟩
  · have ticking' := knot.midway j member'
    rw [tick'] at ticking'
    obtain ⟨a, starts, holds⟩ := midway_tick ticking
    obtain ⟨b, starts', holds'⟩ := midway_tick ticking'
    obtain rfl := untangled.sameStart i j a b (tick ▸ starts) (tick' ▸ starts')
    exact knot.exclusive i j different holds holds'
  · have connecting := knot.midway j member'
    rw [connect] at connecting
    refine untangled.apart i j ⟨order, tick⟩ ⟨order', user, mac, connect, ?_⟩
    rcases (midway_connect connecting).holds row held with rfl | ⟨id, own, rfl⟩
    · have whole := ticking.split
      rw [Transaction.lockOrder] at whole
      have listed : (TableName.users, user) ∈ (joined tables order).flatMap joinRows := by
        rw [← whole]
        exact List.mem_append_right _ (List.mem_of_head? asks)
      obtain ⟨id, found⟩ := mem_user_rows.mp listed
      obtain ⟨s, active, owner⟩ := mem_joined.mp found
      exact ⟨id, s, active, owner⟩
    · obtain ⟨s, active, owner⟩ := mem_ownSessions.mp own
      exact ⟨id, s, active, owner⟩

theorem knot_asking (untangled : Untangled tables deals) {i : Fin n} (member : i ∈ ring) :
    ∃ order user mac, deals i = .connect order user mac ∧
      AtSession tables order user mac (state i) := by
  rcases knot_kinds knot member with ⟨order, tick⟩ | ⟨order, user, mac, connect⟩
  · exact absurd tick (knot_tick knot untangled member order)
  · exact ⟨order, user, mac, connect, midway_connect (connect ▸ knot.midway i member)⟩

theorem knot_distinct (untangled : Untangled tables deals) :
    Set.InjOn (fun i => (deals i).customer) ring := by
  intro i member j member' same
  obtain ⟨order, user, mac, connect, ask⟩ := knot_asking knot untangled member
  obtain ⟨order', user', mac', connect', ask'⟩ := knot_asking knot untangled member'
  obtain rfl : user = user' := by simpa [connect, connect', Transaction.customer] using same
  by_contra different
  exact knot.exclusive i j different ask.first ask'.first

theorem knot_takes (untangled : Untangled tables deals) {i : Fin n} (member : i ∈ ring) :
    ∃ j ∈ ring, (deals i).TakesFrom tables (deals j) := by
  obtain ⟨j, member', different, row, asks, held⟩ := knot.closed.onward i member
  obtain ⟨order, user, mac, connect, ask⟩ := knot_asking knot untangled member
  obtain ⟨order', user', mac', connect', ask'⟩ := knot_asking knot untangled member'
  have strangers : user ≠ user' := by
    rintro rfl
    exact different (knot_distinct knot untangled member member'
      (by simp [connect, connect', Transaction.customer]))
  obtain ⟨id, rfl, wanted⟩ := ask.asks row asks
  rcases ask'.holds _ held with same | ⟨key, own', same⟩
  · cases same
  · cases same
    obtain ⟨s, active, owner⟩ := mem_ownSessions.mp own'
    rcases wanted with own | taken
    · obtain ⟨t, active', owner'⟩ := mem_ownSessions.mp own
      exact absurd (by rw [← owner, ← owner', active_same active active']) strangers
    · obtain ⟨t, active', device, _⟩ := mem_takeover.mp taken
      obtain rfl := active_same active active'
      exact ⟨j, member', order, user, mac, connect, order', user', mac', connect', strangers,
        id, s, active, device, owner⟩

end Knots

theorem untangled_safe (untangled : Untangled tables deals) : NeverDeadlocked tables deals := by
  intro state reached deadlocked
  obtain ⟨exclusive, ring, closed, members⟩ := deadlock_ring reached deadlocked
  have knot : Knot tables deals state ring := ⟨exclusive, closed, fun i member =>
    ⟨(members i member).1, (members i member).2.1, (members i member).2.2⟩⟩
  exact untangled.noRing ring closed.inhabited (knot_distinct knot untangled) fun i member =>
    knot_takes knot untangled member

/-- Transactions never wait for each other in a ring exactly when they are not tangled. -/
theorem deadlock_free_iff (tables : Tables) (deals : Fin n → Transaction) :
    NeverDeadlocked tables deals ↔ Untangled tables deals := by
  constructor
  · intro never
    constructor
    · intro i j ticks reconnects
      exact tick_meets_connect ticks reconnects never
    · intro i j a b first second
      by_contra different
      exact ticks_meet first second different never
    · intro ring inhabited distinct onward
      exact takeovers_meet inhabited distinct onward never
  · exact untangled_safe

def phoneOnline : Tables where
  rows
    | .sessions => fun id => if id = 1 then some (newSession 2 phoneMac phoneIp ['h'] 0) else none
    | .users => fun id => if id = 2 then some (newUser guest.username [] .customer) else none
    | _ => fun _ => none
  next _ := 3
  oneOnMac := by
    intro id key different s t first second
    simp only [Option.ite_none_right_eq_some] at first second
    exact absurd (first.1.trans second.1.symm) different
  rooted := by
    intro id s present
    simp only [Option.ite_none_right_eq_some, Option.some.injEq] at present
    obtain ⟨_, rfl⟩ := present
    simp [newSession]

def reconnectInTick : Fin 2 → Transaction
  | 0 => .tick id
  | 1 => .connect id 2 phoneMac

def awaited (pool : ServerPool) (thread : Nat) : Option RowRef :=
  match pool.threads[thread]? with
  | some (some (.exec (.lock table id) _)) => some (table, id)
  | some (some (.exec (.update table id _) _)) => some (table, id)
  | _ => none

/-- The guest, online with his phone, connects it again (thread 3) while a pass
(thread 4) locks his session. -/
def crossedLocks : List (Move Choice Call Ambient) :=
  arrival ++ [.start (.connect guest phone)] ++ steps 2 10 ++
    [.start (.connect guest phone)] ++ steps 3 3 ++ [.start .tick] ++ steps 4 4 ++ steps 3 1

/-- The transactions deadlock, and so do the calls: each waits for the row that
the other holds. -/
theorem reconnect_deadlocks : ¬ NeverDeadlocked phoneOnline reconnectInTick ∧
    ∃ pool, Reached shop pool ∧
      awaited pool 3 = some (.sessions, 1) ∧ pool.state.db.locks .sessions 1 = some 4 ∧
      awaited pool 4 = some (.users, 2) ∧ pool.state.db.locks .users 2 = some 3 := by
  constructor
  · have online : phoneOnline.Active 1 (newSession 2 phoneMac phoneIp ['h'] 0) :=
      ⟨by decide, rfl, rfl⟩
    have ticks : (reconnectInTick 0).Ticks := ⟨id, rfl⟩
    have reconnects : (reconnectInTick 1).Reconnects phoneOnline :=
      ⟨id, 2, phoneMac, rfl, 1, _, online, rfl⟩
    exact tick_meets_connect ticks reconnects
  · obtain ⟨pool, reached, _, seen⟩ := play_shows shop crossedLocks (fun pool =>
      (awaited pool 3, pool.state.db.locks .sessions 1,
        awaited pool 4, pool.state.db.locks .users 2))
      (some (.sessions, 1), some 4, some (.users, 2), some 3) (by decide +kernel)
    simp only [Prod.mk.injEq] at seen
    exact ⟨pool, reached, seen.1, seen.2.1, seen.2.2.1, seen.2.2.2⟩

end Cybera
