import Cybera.Delivery
import Cybera.Grace
import Cybera.Uniqueness

/-!
The devices that a pass cuts off come from a list read before: whether one of
them is in use again by then depends on the connects in between.
-/

namespace Cybera

open Interleaving

def ActiveOn (rows : Store) (mac : Text) (id : Nat) : Prop :=
  ∃ s : SessionRow, rows .sessions id = some s ∧ s.status = .active ∧ s.deviceMac = mac

/-- The SELECT from which the pass has the device that it cuts off at `cutAt`:
its exhausted sessions, or once it has read them the active ones. -/
structure CutList (world : World) (thread cutAt : Nat) (read : Event) : Prop where
  found : ∃ readAt < cutAt, world.hist[readAt]? = some read
  own : read.thread = thread
  list : read.cmd = .query .stillActive ∨ read.cmd = .query .exhausted ∧
    Never (.query .stillActive) (pastOf (world.hist.take cutAt) thread)

/-- A session on the device that is active at the deauth and was opened after
the SELECT. -/
def OpenedSince (world : World) (read cut : Event) (mac : Text) : Prop :=
  ∃ id index thread acts row, read.commits ≤ index ∧ index < cut.commits ∧
    world.db.log[index]? = some (thread, acts) ∧ create .sessions id row ∈ acts ∧
      ActiveOn cut.view.rows mac id

section Passes
variable {config : Config} {pool : ServerPool} (reached : Reached config pool)
include reached

theorem seen_alters {event : Event} (member : event ∈ pool.state.hist) {call : Call}
    (called : pool.state.arrivals[event.thread]? = some call) {table : TableName}
    (inserts : table ∉ call.inserts) (plans : table ≠ .plans) (id : Nat) :
    AltersAt table id event.pending := by
  rintro entry pending rfl rfl
  obtain ⟨pos, found⟩ := List.mem_iff_getElem?.mp member
  obtain ⟨earlier, write, _, found', own, wrote, _⟩ :=
    (reached_chronicle reached).pending pos event found entry pending
  obtain ⟨call', called', may⟩ := reached_mayDo reached write (List.mem_of_getElem? found')
  rw [own, called, Option.some.injEq] at called'
  subst called'
  cases wrote with
  | update => exact ⟨_, _, rfl⟩
  | insert => exact absurd may.1 inserts
  | delete => exact absurd rfl plans

theorem seen_related {event : Event} (member : event ∈ pool.state.hist) {call : Call}
    (called : pool.state.arrivals[event.thread]? = some call) {table : TableName}
    (inserts : table ∉ call.inserts) (plans : table ≠ .plans)
    (related : Row table → Row table → Prop) (refl : ∀ row, related row row)
    (trans : ∀ first second third, related first second → related second third →
      related first third)
    (step : ∀ op now row, related row (Op.run table op now row)) {id : Nat} {row : Row table}
    (seen : event.view.rows table id = some row) :
    ∃ before, storeAfter pool.state.db.log event.commits table id = some before ∧
      related before row := by
  have alters := seen_alters reached member called inserts plans id
  rw [((reached_ready reached).truthful event member).rows] at seen
  cases committed : storeAfter pool.state.db.log event.commits table id with
  | none =>
      rw [replay_absent _ _ _ _ alters committed] at seen
      cases seen
  | some before =>
      obtain ⟨after, found, reach⟩ :=
        replay_related _ table id related refl trans step _ alters committed
      rw [seen, Option.some.injEq] at found
      exact ⟨before, rfl, found ▸ reach⟩

theorem pass_alters {event : Event} (member : event ∈ pool.state.hist)
    (tick : pool.state.arrivals[event.thread]? = some .tick) (id : Nat) :
    AltersAt .sessions id event.pending :=
  seen_alters reached member tick (by simp [Call.inserts]) (by simp) id

theorem pass_row {event : Event} (member : event ∈ pool.state.hist)
    (tick : pool.state.arrivals[event.thread]? = some .tick) {id : Nat} {s : SessionRow}
    (seen : event.view.rows .sessions id = some s) :
    ∃ s', storeAfter pool.state.db.log event.commits .sessions id = some s' ∧
      Same .sessions s' s :=
  seen_related reached member tick (by simp [Call.inserts]) (by simp) (Same .sessions)
    (same_refl .sessions) (fun _ _ _ => same_trans .sessions) (op_same .sessions) seen

theorem locked_row {table : TableName} {id : Nat} {row : Row table} {event : Event}
    (member : event ∈ pool.state.hist) (locked : event.done = ⟨.lock table id, .ok (some row)⟩) :
    event.view.rows table id = some row := by
  refine reached_events (fun event => event.done = ⟨.lock table id, .ok (some row)⟩ →
    event.view.rows table id = some row) ?_ reached event member locked
  intro pool thread cmd choice answer after _ executed same
  cases same
  have deed := exec_deed executed
  generalize after.db = db at deed
  cases deed with
  | read reads => exact reads.elim
  | locked present granted => exact present

theorem exhausted_row {event : Event} {found : List (Nat × SessionRow)} {id : Nat} {s : SessionRow}
    (recorded : event ∈ pool.state.hist) (listed : event.done = ⟨.query .exhausted, .ok found⟩)
    (member : (id, s) ∈ found) :
    event.view.rows .sessions id = some s ∧ s.status = .active := by
  have answered := ((reached_ready reached).truthful event recorded).answered
  obtain ⟨mover, cmd, answer, time, commits, pending, view⟩ := event
  cases listed
  have answered' : found = Query.eval view .exhausted := answered
  rw [answered'] at member
  obtain ⟨_, row, kept⟩ := mem_scan.mp member
  simp only [View.isExhausted, Bool.and_eq_true, beq_iff_eq] at kept
  exact ⟨row, kept.1⟩

theorem pass_updates {earlier pos id : Nat} {before event : Event} {s : SessionRow} {op : SessionOp}
    {row : Option SessionRow} (tick : pool.state.arrivals[event.thread]? = some .tick)
    (found' : pool.state.hist[earlier]? = some before) (own' : before.thread = event.thread)
    (seen : before.view.rows .sessions id = some s) (low : earlier < pos)
    (found : pool.state.hist[pos]? = some event)
    (updates : event.done = ⟨.update .sessions id op, .ok row⟩) : row.isSome := by
  obtain ⟨s', committed, _⟩ :=
    pass_row reached (List.mem_of_getElem? found') (own'.symm ▸ tick) seen
  have later := (history_order (reached_timeline reached) low found' found).commits
  have truthful := (reached_ready reached).truthful event (List.mem_of_getElem? found)
  obtain ⟨s'', stands, _⟩ :=
    row_same (reached_legit reached) (by simp) (by simp) later truthful.bound committed
  cases row with
  | some row => rfl
  | none =>
      have absent := missed_absent reached (List.mem_of_getElem? found) updates
      rw [truthful.rows] at absent
      obtain ⟨_, after, _⟩ := replay_same _ .sessions id _
        (pass_alters reached (List.mem_of_getElem? found) tick id) stands
      cases absent.symm.trans after

theorem met_seen {pos thread id : Nat} {s : SessionRow}
    (met : Met (pastOf (pool.state.hist.take pos) thread) id s) :
    ∃ (earlier : Nat) (before : Event), earlier < pos ∧ pool.state.hist[earlier]? = some before ∧
      before.thread = thread ∧ before.view.rows .sessions id = some s := by
  obtain ⟨earlier, before, low, found, own, same⟩ := mem_pastOf_take.mp met.1
  exact ⟨earlier, before, low, found, own, locked_row reached (List.mem_of_getElem? found) same⟩

theorem pass_ends {pos id : Nat} {event : Event} {status : SessionStatus} {row : Option SessionRow}
    (tick : pool.state.arrivals[event.thread]? = some .tick)
    (found : pool.state.hist[pos]? = some event)
    (ends : event.done = ⟨.update .sessions id (.finish status), .ok row⟩) : row.isSome := by
  have pass := reached_inPass reached found rfl tick
  have cmd : event.cmd = .update .sessions id (.finish status) := congrArg Sigma.fst ends
  rw [cmd] at pass
  rcases pass.2.2 with ⟨_, _, s, _, met, _⟩ | ⟨listed, s, asked, member⟩
  · obtain ⟨earlier, before, low, found', own, seen⟩ := met_seen reached met
    exact pass_updates reached tick found' own seen low found ends
  · obtain ⟨earlier, before, low, found', own, same⟩ := mem_pastOf_take.mp asked
    have seen := (exhausted_row reached (List.mem_of_getElem? found') same member).1
    exact pass_updates reached tick found' own seen low found ends

theorem pass_settles {pos id elapsed : Nat} {event : Event} {row : Option SessionRow}
    (tick : pool.state.arrivals[event.thread]? = some .tick)
    (found : pool.state.hist[pos]? = some event)
    (settles : event.done = ⟨.update .sessions id (.settle elapsed), .ok row⟩) : row.isSome := by
  have pass := reached_inPass reached found rfl tick
  have cmd : event.cmd = .update .sessions id (.settle elapsed) := congrArg Sigma.fst settles
  rw [cmd] at pass
  obtain ⟨_, _, s, _, _, _, met, _⟩ := pass
  obtain ⟨earlier, before, low, found', own, seen⟩ := met_seen reached met
  exact pass_updates reached tick found' own seen low found settles

theorem pass_ended {pos commitAt id : Nat} {write close : Event} {status : SessionStatus}
    {now : Time} (found : pool.state.hist[pos]? = some write)
    (wrote : write.Wrote (alter .sessions id (.finish status) now))
    (found' : pool.state.hist[commitAt]? = some close) (own : close.thread = write.thread)
    (lands : Lands close.done) (before : pos < commitAt)
    (unclosed : Unclosed pool.state.hist write.thread pos commitAt) {first : Nat} {s : SessionRow}
    (present : storeAfter pool.state.db.log first .sessions id = some s)
    (early : first ≤ close.commits) {later : Event} {cutAt : Nat} (after : commitAt < cutAt)
    (found'' : pool.state.hist[cutAt]? = some later) :
    ∃ s', storeAfter pool.state.db.log later.commits .sessions id = some s' ∧
      s'.status ≠ .active := by
  have legit := reached_legit reached
  obtain ⟨block, member⟩ := reached_delivered reached pos commitAt write close _ found wrote
    (by simp [alter]) found' own lands before unclosed
  have bound := ((reached_ready reached).truthful later (List.mem_of_getElem? found'')).bound
  have late : close.commits < later.commits := by
    refine (history_order (reached_timeline reached) after found' found'').closed ?_
    obtain ⟨mover, cmd, answer, time, index, acts, view⟩ := close
    obtain rfl := lands_commit lands
    exact ⟨_, _, _, _, _, _, lands_answer lands, rfl, List.ne_nil_of_mem member⟩
  obtain ⟨call, called, lawful⟩ := block_lawful legit block
  obtain ⟨s', stands, _⟩ := row_same legit (by simp) (by simp) early
    (Nat.le_of_lt (event_bound block)) present
  obtain ⟨after, left, ended⟩ := finished_inactive lawful stands member
  rw [← storeAfter_succ _ _ _ block] at left
  exact inactive_stays legit late bound left ended

theorem seen_apart {event : Event} (member : event ∈ pool.state.hist) {table : TableName}
    {id key : Nat} {row other : Row table} (found : event.view.rows table id = some row)
    (found' : event.view.rows table key = some other)
    (conflict : conflicts table row other = true) :
    id = key := by
  refine reached_events (fun event => ∀ id key, ∀ row other : Row table,
    event.view.rows table id = some row → event.view.rows table key = some other →
      conflicts table row other = true → id = key) ?_ reached event member id key row other found
    found' conflict
  intro pool thread cmd choice answer after before _ id key row other found found' conflict
  by_contra different
  have apart := (reached_unique before).seen thread table id key row other different found found'
  rw [conflict] at apart
  cases apart

theorem seen_unique {event : Event} (member : event ∈ pool.state.hist) {mac : Text}
    {id key : Nat} (active : ActiveOn event.view.rows mac id)
    (active' : ActiveOn event.view.rows mac key) : id = key := by
  obtain ⟨s, found, status, mine⟩ := active
  obtain ⟨s', found', status', mine'⟩ := active'
  exact seen_apart reached member found found' (by simp [conflicts, status, status', mine, mine'])

end Passes

section Deauths
variable {config : Config} {pool : ServerPool} (reached : Reached config pool) {cutAt readAt : Nat}
  {cut read : Event} {mac : Text}
include reached

/-- A session that is active at the deauth was active at the SELECT, unless it
has been opened since. -/
theorem active_since (found : pool.state.hist[cutAt]? = some cut)
    (found' : pool.state.hist[readAt]? = some read) (before : readAt < cutAt)
    (rows : cut.view.rows = storeAfter pool.state.db.log cut.commits) {id : Nat}
    (active : ActiveOn cut.view.rows mac id) (closed : ¬ OpenedSince pool.state read cut mac) :
    ActiveOn (storeAfter pool.state.db.log read.commits) mac id := by
  have legit := reached_legit reached
  have later := (history_order (reached_timeline reached) before found' found).commits
  have bound := ((reached_ready reached).truthful cut (List.mem_of_getElem? found)).bound
  have active' := active
  obtain ⟨s, present, still, mine⟩ := active'
  rw [rows] at present
  cases earlier : storeAfter pool.state.db.log read.commits .sessions id with
  | none =>
      obtain ⟨index, thread, acts, row, low, high, block, member⟩ :=
        created_between legit later bound earlier (Option.isSome_of_eq_some present)
      exact absurd ⟨id, index, thread, acts, row, low, high, block, member, active⟩ closed
  | some s' =>
      obtain ⟨after, found'', same⟩ := row_same legit (by simp) (by simp) later bound earlier
      rw [present, Option.some.injEq] at found''
      subst found''
      refine ⟨s', earlier, ?_, same.2.1 ▸ mine⟩
      by_contra ended
      obtain ⟨after, found'', inactive⟩ := inactive_stays legit later bound earlier ended
      rw [present, Option.some.injEq] at found''
      exact inactive (found'' ▸ still)

theorem orphan_idle (tick : pool.state.arrivals[cut.thread]? = some .tick)
    (found : pool.state.hist[cutAt]? = some cut) (cuts : cut.cmd = .ndsctl (.deauth mac))
    (rows : cut.view.rows = storeAfter pool.state.db.log cut.commits)
    (found' : pool.state.hist[readAt]? = some read) (own : read.thread = cut.thread)
    (sweeps : read.cmd = .query .stillActive) (before : readAt < cutAt)
    (closed : ¬ OpenedSince pool.state read cut mac) (id : Nat) :
    ¬ ActiveOn cut.view.rows mac id := by
  intro active
  obtain ⟨s, present, still, mine⟩ := active_since reached found found' before rows active closed
  have bound := ((reached_ready reached).truthful read (List.mem_of_getElem? found')).bound
  refine orphan_unknown reached (own ▸ tick) found' sweeps found own.symm cuts before
    present still ?_
  rw [macs_lower (reached_legit reached) bound present, mine]

theorem exhausted_idle (tick : pool.state.arrivals[cut.thread]? = some .tick)
    (found : pool.state.hist[cutAt]? = some cut)
    (rows : cut.view.rows = storeAfter pool.state.db.log cut.commits)
    (found' : pool.state.hist[readAt]? = some read) (own : read.thread = cut.thread)
    {listed : List (Nat × SessionRow)} (asked : read.done = ⟨.query .exhausted, .ok listed⟩)
    (before : readAt < cutAt)
    (committed : Committed (pastOf (pool.state.hist.take cutAt) cut.thread))
    {key : Nat} {s : SessionRow} (member : (key, s) ∈ listed) (mine : mac = toLowerCase s.deviceMac)
    (closed : ¬ OpenedSince pool.state read cut mac) (id : Nat) :
    ¬ ActiveOn cut.view.rows mac id := by
  intro active
  have tick' : pool.state.arrivals[read.thread]? = some .tick := own ▸ tick
  have recorded := List.mem_of_getElem? found'
  have timeline := reached_timeline reached
  have truthful := (reached_ready reached).truthful read recorded
  have bound := ((reached_ready reached).truthful cut (List.mem_of_getElem? found)).bound
  obtain ⟨s', present, still, mine'⟩ := active_since reached found found' before rows active closed
  obtain ⟨commitAt, close, beforeCut, foundClose, ownClose, commits⟩ :=
    mem_pastOf_take.mp committed
  have passed := reached_inPass reached foundClose ownClose tick
  have cmd : close.cmd = .commit := congrArg Sigma.fst commits
  rw [cmd] at passed
  obtain ⟨unended, _, _, listed', asked', finished⟩ := passed
  obtain ⟨askedAt, ask, early, foundAsk, ownAsk, asks⟩ := mem_pastOf_take.mp asked'
  have once := pass_once reached (.query .exhausted) (fun _ pass => pass.1) tick found' own
    (congrArg Sigma.fst asked) foundAsk ownAsk (congrArg Sigma.fst asks)
  subst once
  rw [found', Option.some.injEq] at foundAsk
  subst foundAsk
  rw [asked] at asks
  cases asks
  -- the pass has ended nothing that is active at the deauth
  have going : ∀ (pos : Nat) (write : Event) status now, pool.state.hist[pos]? = some write →
      write.thread = cut.thread → pos < commitAt →
        ¬ write.Wrote (alter .sessions id (.finish status) now) := by
    intro pos write status now foundWrite ownWrite sooner wrote
    obtain ⟨after, stands, ended⟩ := pass_ended reached foundWrite wrote foundClose
      (ownClose.trans ownWrite.symm) (commits ▸ answered_lands) sooner
      (ownWrite.symm ▸ unended_unclosed unended) present
      (history_order timeline early found' foundClose).commits beforeCut found
    obtain ⟨s'', present', still', _⟩ := active
    rw [rows, stands, Option.some.injEq] at present'
    exact ended (present' ▸ still')
  have seen : ActiveOn read.view.rows mac id := by
    rw [truthful.rows]
    refine replay_acts _ .sessions id (fun row => row.status = .active ∧ row.deviceMac = mac)
      (pass_alters reached recorded tick' id) ?_ present ⟨still, mine'⟩
    rintro op now row pending ⟨active, same⟩
    cases op with
    | settle | refresh => exact ⟨active, same⟩
    | finish status =>
        obtain ⟨pos, write, sooner, foundWrite, ownWrite, wrote, _⟩ :=
          (reached_chronicle reached).pending _ read found' _ pending
        exact absurd wrote (going pos write status now foundWrite (ownWrite.trans own)
          (Nat.lt_trans sooner early))
  have listed' : ActiveOn read.view.rows mac key := by
    obtain ⟨row, active⟩ := exhausted_row reached recorded asked member
    obtain ⟨s0, stored, same⟩ := pass_row reached recorded tick' row
    refine ⟨s, row, active, ?_⟩
    rw [mine, same.2.1, macs_lower (reached_legit reached) truthful.bound stored]
  obtain rfl := seen_unique reached recorded seen listed'
  obtain ⟨row, ended⟩ := finished id s member
  obtain ⟨pos, write, sooner, foundWrite, ownWrite, same⟩ := mem_pastOf_take.mp ended
  obtain ⟨row, rfl⟩ := Option.isSome_iff_exists.mp
    (pass_ends reached (ownWrite.symm ▸ tick) foundWrite same)
  exact going pos write .ended _ foundWrite ownWrite sooner (updated_wrote same)

end Deauths

/-- When a pass cuts off a device, it has an active session exactly when one has
been opened since the SELECT from which the pass has the device. -/
theorem deauth_idle_iff (config : Config) (pool : ServerPool) (reached : Reached config pool)
    (cutAt : Nat) (cut : Event) (mac : Text) (found : pool.state.hist[cutAt]? = some cut)
    (tick : pool.state.arrivals[cut.thread]? = some .tick)
    (cuts : cut.cmd = .ndsctl (.deauth mac)) :
    ∃ read, CutList pool.state cut.thread cutAt read ∧
      ((∀ id, ¬ ActiveOn cut.view.rows mac id) ↔ ¬ OpenedSince pool.state read cut mac) := by
  have pass := reached_inPass reached found rfl tick
  rw [cuts] at pass
  obtain ⟨outside, listed⟩ := pass
  have rows := outside_rows reached found outside
  have idle : ∀ {read : Event}, (∀ id, ¬ ActiveOn cut.view.rows mac id) →
      ¬ OpenedSince pool.state read cut mac := by
    rintro read none' ⟨id, _, _, _, _, _, _, _, _, active⟩
    exact none' id active
  rcases listed with ⟨listed, key, s, asked, member, mine, committed, never⟩ |
    ⟨clients, known, _, _, recalled, _⟩
  · obtain ⟨readAt, read, before, found', own, same⟩ := mem_pastOf_take.mp asked
    refine ⟨read, ⟨⟨readAt, before, found'⟩, own, Or.inr ⟨congrArg Sigma.fst same, never⟩⟩, idle,
      ?_⟩
    exact exhausted_idle reached tick found rows found' own same before committed member mine
  · obtain ⟨readAt, read, before, found', own, same⟩ := mem_pastOf_take.mp recalled
    have sweeps : read.cmd = .query .stillActive := congrArg Sigma.fst same
    refine ⟨read, ⟨⟨readAt, before, found'⟩, own, Or.inl sweeps⟩, idle, ?_⟩
    exact orphan_idle reached tick found cuts rows found' own sweeps before

/-- The guest's hour is over, and a pass has committed that. -/
def hourOver : List (Move Choice Call Ambient) :=
  arrival ++ [.start (.connect guest phone)] ++ steps 2 10 ++
    [.ambient (.elapse 3600000), .start .tick] ++ steps 3 13

theorem deauth_idle_over : ∃ pool cut, Reached shop pool ∧ pool.state.hist[36]? = some cut ∧
    (∃ read, CutList pool.state cut.thread 36 read ∧ ((∀ id, ¬ ActiveOn cut.view.rows phoneMac id) ↔
      ¬ OpenedSince pool.state read cut phoneMac)) ∧
    isAuthed phoneMac pool.state.clients = false := by
  obtain ⟨pool, reached, arrivals, seen⟩ := play_shows shop (hourOver ++ steps 3 1)
    (fun pool => (pool.state.hist[36]?).any (fun event => cuts phoneMac event && event.thread == 3)
      && !isAuthed phoneMac pool.state.clients) true (by decide +kernel)
  simp only [Bool.and_eq_true, beq_iff_eq, Bool.not_eq_true', Option.any_eq_true] at seen
  obtain ⟨⟨cut, found, cuts, own⟩, offline⟩ := seen
  have tick : pool.state.arrivals[cut.thread]? = some .tick := by
    rw [own, arrivals]
    rfl
  exact ⟨pool, cut, reached, found,
    deauth_idle_iff shop pool reached 36 cut phoneMac found tick (cuts_cmd cuts), offline⟩

/-- Before the pass cuts off the phone the guest gets another hour and connects. -/
def toppedUp : List (Move Choice Call Ambient) :=
  hourOver ++ [.start (.grant staff 2 anHour)] ++ steps 4 4 ++ [.start (.connect guest phone)] ++
    steps 5 12 ++ steps 3 1

theorem topped_up_cut_off : ∃ pool cut, Reached shop pool ∧ pool.state.hist[52]? = some cut ∧
    pool.state.arrivals[cut.thread]? = some .tick ∧ cut.cmd = .ndsctl (.deauth phoneMac) ∧
    ActiveOn cut.view.rows phoneMac 2 ∧
    pool.threads[5]? = some (some (.done (.connected phoneMac 3600))) ∧
    isAuthed phoneMac pool.state.clients = false := by
  obtain ⟨pool, reached, arrivals, seen⟩ := play_shows shop toppedUp
    (fun pool => (pool.state.hist[52]?).any (fun event => cuts phoneMac event &&
        event.thread == 3 && (event.view.rows .sessions 2).any fun (s : SessionRow) =>
          s.status == .active && s.deviceMac == phoneMac) &&
      answerOf pool 5 == some (.ok (.connected phoneMac 3600)) &&
      !isAuthed phoneMac pool.state.clients) true (by decide +kernel)
  simp only [Bool.and_eq_true, beq_iff_eq, Bool.not_eq_true', Option.any_eq_true] at seen
  obtain ⟨⟨⟨cut, found, ⟨cuts, own⟩, s, present, active, mine⟩, answer⟩, offline⟩ := seen
  refine ⟨pool, cut, reached, found, ?_, cuts_cmd cuts, ⟨s, present, active, mine⟩,
    answerOf_ok answer, offline⟩
  rw [own, arrivals]
  rfl

end Cybera
