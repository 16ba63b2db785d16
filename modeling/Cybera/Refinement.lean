import Cybera.Accounts
import Cybera.Requests
import Cybera.Settlement
import Cybera.Vouchers

/-!
The programs refine the ledger: in every state that any interleaving of calls
can reach the log is lawful, and a call that ended has left what it answers for.
-/

namespace Cybera

open Interleaving

def Outcome (config : Config) (thread : Nat) : Call → Except Failure Reply → World → Prop
  | .redeem user _ => RedeemOutcome user.id thread
  | .createRequest _ dto => CreateOutcome dto thread
  | .listPending => ListOutcome thread
  | .decide actor requestId approve => DecideOutcome actor.id requestId approve thread
  | .connect user dto => ConnectOutcome user dto thread
  | .kick _ mac => KickOutcome mac thread
  | .register dto => RegisterOutcome config dto thread
  | .clientLogin dto => ClientLoginOutcome dto thread
  | .login dto => LoginOutcome config dto thread
  | _ => fun _ _ => True

section Compatible
variable {config : Config} {thread : Nat} {world after : World}

theorem own_rely (relied : Rely thread world after) : after.own thread = world.own thread :=
  own_eq relied.db.own

theorem outcome_stable (call : Call) (outcome : Except Failure Reply)
    (relied : Rely thread world after) (ended : Outcome config thread call outcome world) :
    Outcome config thread call outcome after := by
  have later := relied.carries.later
  have own := own_rely relied
  cases call with
  | redeem user dto =>
      cases outcome with
      | error error => exact withdrawn_later relied.hist own ended
      | ok reply =>
          obtain ⟨id, now, v, same, committed⟩ := ended
          exact ⟨id, now, v, same, later.committed committed⟩
  | createRequest user dto =>
      cases outcome with
      | error error => trivial
      | ok reply =>
          obtain ⟨id, row, source, acts, same, given, kept, writes, committed⟩ := ended
          exact ⟨id, row, source, acts, same, given, kept, writes, later.committed committed⟩
  | listPending =>
      cases outcome with
      | error error => trivial
      | ok reply =>
          obtain ⟨items, time, read, view, same, member⟩ := ended
          exact ⟨items, time, read, view, same, relied.hist.subset member⟩
  | decide actor requestId approve =>
      cases outcome with
      | error error => exact withdrawn_later relied.hist own ended
      | ok reply =>
          obtain ⟨now, rest, same⟩ := ended
          exact ⟨now, rest, own.trans same⟩
  | connect user dto =>
      have written : ConnectOutcome user dto thread outcome world := ended
      have kept : ConnectOutcome user dto thread outcome after :=
        connectOutcome_later later own written
      exact kept
  | kick actor mac =>
      cases outcome with
      | error error => trivial
      | ok reply =>
          obtain ⟨before, deauthed, between, committed, last, audited, rest, acts, hist, known⟩ :=
            ended
          obtain ⟨more, grown⟩ := relied.hist
          refine ⟨before, deauthed, between, committed, last, audited, rest ++ more, acts, ?_,
            known.1, known.2.1, known.2.2.1, prefix_getElem? later.log known.2.2.2⟩
          rw [← grown, hist]
          simp
  | register dto =>
      cases outcome with
      | error error => trivial
      | ok reply =>
          obtain ⟨id, salt, same, acts⟩ := ended
          exact ⟨id, salt, same, own.trans acts⟩
  | clientLogin dto =>
      cases outcome with
      | error error => trivial
      | ok reply =>
          obtain ⟨id, row, time, read, view, member, same⟩ := ended
          exact ⟨id, row, time, read, view, relied.hist.subset member, same⟩
  | login dto =>
      cases outcome with
      | error error => trivial
      | ok reply =>
          obtain ⟨id, row, time, read, view, member, rest⟩ := ended
          exact ⟨id, row, time, read, view, relied.hist.subset member, rest⟩
  | _ => trivial

theorem start_held (call : Call) (held : Held config world) : Held config (world.start call) := by
  refine ⟨start_ready call held.ready, legit_quiet held.legit rfl (List.prefix_append _ _)
    (List.prefix_refl _) ?_⟩
  intro index event found old
  exact absurd (List.getElem?_eq_some_iff.mp found).1 (Nat.not_lt.mpr old)

theorem crash_held (held : Held config world) : Held config (world.crash thread) := by
  refine ⟨crash_ready held.ready, legit_quiet held.legit rfl (List.prefix_refl _)
    (List.prefix_refl _) ?_⟩
  intro index event found old
  exact absurd (List.getElem?_eq_some_iff.mp found).1 (Nat.not_lt.mpr old)

theorem ambient_held {event : Ambient} (held : Held config world)
    (happened : world.ambient event = some after) : Held config after := by
  obtain ⟨db, _, arrivals, hist⟩ := ambient_cases happened
  refine ⟨ambient_ready held.ready happened, legit_quiet held.legit (by rw [db])
    (arrivals ▸ List.prefix_refl _) (hist ▸ List.prefix_refl _) ?_⟩
  intro index event found old
  rw [hist] at found
  exact absurd (List.getElem?_eq_some_iff.mp found).1 (Nat.not_lt.mpr old)

theorem initial_held : Held config World.initial :=
  ⟨initial_ready, by simp [World.initial, emptyDatabase], by simp [World.initial]⟩

theorem start_free (call : Call) (held : Held config world) :
    Free world.arrivals.length (world.start call) [] := by
  refine ⟨held.ready.idle _ (Nat.le_refl _), by simp [World.start], ?_⟩
  simp only [World.own, List.map_eq_nil_iff, List.filter_eq_nil_iff, beq_iff_eq]
  rintro ⟨holder, acts⟩ member rfl
  obtain ⟨index, found⟩ := List.mem_iff_getElem?.mp member
  obtain ⟨known, called, _⟩ := held.legit.blocks index _ acts found
  exact absurd (List.getElem?_eq_some_iff.mp called).1 (Nat.lt_irrefl _)

theorem call_safe (call : Call) (held : Held config world) :
    Secure config world.arrivals.length (Outcome config world.arrivals.length call)
      (call.program config) (world.start call) := by
  have free := start_free call held
  have called : (world.start call).arrivals[world.arrivals.length]? = some call := by
    simp [World.start]
  cases call with
  | redeem user dto => exact redeem_safe user dto free called
  | generate actor dto attempts => exact generate_safe actor dto attempts free called
  | createRequest user dto => exact create_safe user dto free called
  | listPending => exact listPending_safe free
  | decide actor requestId approve => exact decide_safe actor requestId approve free called
  | grant actor id dto => exact grant_safe actor id dto free called
  | connect user dto => exact connect_safe user dto free called
  | kick actor mac => exact kick_safe actor mac free called
  | tick => exact tick_safe free called
  | createPlan actor dto => exact createPlan_safe actor dto free called
  | updatePlan actor id dto => exact updatePlan_safe actor id dto free called
  | removePlan actor id => exact removePlan_safe actor id free called
  | register dto => exact register_safe dto free called
  | clientLogin dto => exact clientLogin_safe dto free
  | login dto => exact login_safe dto free
  | seedAdmin adminUser adminPass clientCount =>
      exact seedAdmin_safe adminUser adminPass clientCount free called

theorem server_compatible (config : Config) :
    Compatible (server config) (Held config) Rely (Outcome config) where
  refl := rely_refl
  trans _ _ _ _ := rely_trans
  stable _ call outcome _ _ relied _ ended := outcome_stable call outcome relied ended
  exec_rely _ _ _ _ _ _ _ different held executed := exec_rely held.ready different executed
  start_inv call _ held := start_held call held
  start_rely _ call _ _ _ := start_rely call
  crash_inv _ _ held := crash_held held
  crash_rely _ _ _ different _ := crash_rely different
  ambient_inv _ _ _ held happened := ambient_held held happened
  ambient_rely _ _ _ _ _ happened := ambient_rely happened
  body_safe call _ held := call_safe call held

end Compatible

section Reached
variable {config : Config} {pool : ServerPool}

theorem reached_safe (reached : Reached config pool) :
    PoolSafe (server config) (Held config) Rely (Outcome config) pool :=
  reachable_safe (server_compatible config) World.initial rfl initial_held pool reached

theorem reached_ready (reached : Reached config pool) : Ready pool.state :=
  (reached_safe reached).holds.ready

theorem reached_legit (reached : Reached config pool) : Legit config pool.state :=
  (reached_safe reached).holds.legit

theorem answered_outcome (reached : Reached config pool) {thread : Nat} {call : Call}
    {reply : Reply} (called : pool.state.arrivals[thread]? = some call)
    (answered : pool.threads[thread]? = some (some (.done reply))) :
    Outcome config thread call (.ok reply) pool.state :=
  (reached_safe reached).threads thread _ call answered called

theorem thrown_outcome (reached : Reached config pool) {thread : Nat} {call : Call}
    {error : Failure} (called : pool.state.arrivals[thread]? = some call)
    (thrown : pool.threads[thread]? = some (some (.raise error))) :
    Outcome config thread call (.error error) pool.state :=
  (reached_safe reached).threads thread _ call thrown called

end Reached
end Cybera
