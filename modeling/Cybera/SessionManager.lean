import Cybera.Sessions

/-!
One reconciliation pass of the session manager, and the machine that runs it
next to the backend: every call is a thread over the shared world.
-/

namespace Cybera

open Interleaving

def connectGraceMs : Int := 60000

/-- A JavaScript Map keeps the place of a key that is set again. -/
def mapSet (map : List (Text × Text)) (key value : Text) : List (Text × Text) :=
  if map.any fun entry => entry.1 == key then
    map.map fun entry => if entry.1 == key then (key, value) else entry
  else map ++ [(key, value)]

def authedClients (clients : NdsClients) : List (Text × Text) :=
  clients.foldl (fun map (key, client) =>
    if client.authed then mapSet map (client.macOr key) (client.ip.getD []) else map) []

def isOnline (online : List (Text × Text)) (mac : Text) : Bool :=
  online.any fun entry => entry.1 == mac

/-- Math.max(0, Math.round((now - last_tick) / 1000)) -/
def elapsedSeconds (now lastTick : Time) : Nat := ((now - lastTick + 500) / 1000).toNat

/-- SELECT … WHERE s.status = 'active' ORDER BY s.user_id FOR UPDATE OF s, u -/
def lockSettlementRows : Program (List (Nat × SessionRow)) := do
  let found ← select .settlementRows
  Prog.collect found fun ids => do
    let session ← lockRow .sessions ids.1
    let _ ← lockRow .users ids.2
    pure ((session.filter fun s => s.status == .active).map fun s => (ids.1, s))

def finishSession (id : Nat) : Program Unit := do
  let _ ← updateRow .sessions id (.finish .ended)
  pure ()

/-- UPDATE devices SET last_seen = now() WHERE user_id = $1 AND mac = $2 -/
def touchDevice (userId : Nat) (mac : Text) : Program Unit := do
  let found ← select (.deviceOf userId mac)
  match found with
  | none => pure ()
  | some id => do
      let _ ← updateRow .devices id .seen
      pure ()

def settle (online : List (Text × Text)) (now : Time) (session : Nat × SessionRow) :
    Program Unit :=
  let mac := toLowerCase session.2.deviceMac
  if isOnline online mac then
    let elapsed := elapsedSeconds now session.2.lastTick
    if 0 < elapsed then do
      let _ ← updateRow .sessions session.1 (.settle elapsed)
      let _ ← updateRow .users session.2.userId (.charge elapsed session.1)
      touchDevice session.2.userId mac
    else .done ()
  else if connectGraceMs < now - session.2.startedAt then finishSession session.1
  else .done ()

/-- auditCutoff does not swallow its failure. -/
def cutOff (session : Nat × SessionRow) : Program Unit := do
  NdsctlService.deauth (toLowerCase session.2.deviceMac)
  NdsctlService.flushConntrack session.2.ip
  perform (.audit none "session.cutoff")

def settlement (online : List (Text × Text)) : Program (List (Nat × SessionRow)) := do
  perform .begin
  let sessions ← lockSettlementRows
  let now ← perform .dateNow
  Prog.each sessions (settle online now)
  let exhausted ← select .exhausted
  Prog.each exhausted fun session => finishSession session.1
  perform .commit
  pure exhausted

def cutOrphan (known : List Text) (client : Text × Text) : Program Unit :=
  if known.contains client.1 then .done ()
  else do
    NdsctlService.deauth client.1
    NdsctlService.flushConntrack client.2

def SessionManager.tick : Program Reply := do
  let clients ← perform (.ndsctl .json)
  let online := authedClients clients
  (do
    let exhausted ← settlement online
    Prog.each exhausted cutOff : Program Unit).rescue fun error => do
      (perform .rollback).rescue fun _ => .done ()
      .raise error
  let stillActive ← select .stillActive
  let known := stillActive.map toLowerCase
  Prog.each online (cutOrphan known)
  pure .ok

def Call.program (config : Config) : Call → Program Reply
  | .redeem user dto => VouchersService.redeem user dto
  | .generate actor dto attempts => VouchersService.generate config actor dto attempts
  | .createRequest user dto => RequestsService.create user dto
  | .listPending => RequestsService.listPending
  | .decide actor requestId approve => RequestsService.decide actor requestId approve
  | .grant actor id dto => AdminController.grant actor id dto
  | .connect user dto => SessionsService.connect config user dto
  | .kick actor mac => SessionsService.kick actor mac
  | .tick => SessionManager.tick
  | .createPlan actor dto => PlansService.create actor dto
  | .updatePlan actor id dto => PlansService.update actor id dto
  | .removePlan actor id => PlansService.remove actor id
  | .register dto => AuthService.register config dto
  | .clientLogin dto => AuthService.clientLogin dto
  | .login dto => AuthService.login config dto
  | .seedAdmin adminUser adminPass clientCount =>
      SeedAdmin.run config adminUser adminPass clientCount

end Cybera
