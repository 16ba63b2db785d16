import Cybera.Services

/-!
SessionsService, the signature of FasService and the NdsctlService calls.
-/

namespace Cybera

open Interleaving

def hexValue (c : Char) : Option Nat :=
  if '0' ≤ c && c ≤ '9' then some (c.toNat - '0'.toNat)
  else if 'a' ≤ c && c ≤ 'f' then some (c.toNat - 'a'.toNat + 10)
  else if 'A' ≤ c && c ≤ 'F' then some (c.toNat - 'A'.toNat + 10)
  else none

/-- Buffer.from(text, 'hex'): stops at the first pair that is not hexadecimal. -/
def hexDecode : Text → List Nat
  | high :: low :: rest =>
      match hexValue high, hexValue low with
      | some h, some l => (16 * h + l) :: hexDecode rest
      | _, _ => []
  | _ => []

/-- Pick<FasClientContext, 'clientip' | 'clientmac' | 'hid'> -/
structure ClientContext where
  clientip : Text
  clientmac : Text
  hid : Text
  deriving DecidableEq

def ClientContext.message (ctx : ClientContext) : Text :=
  ctx.clientip ++ '|' :: ctx.clientmac ++ '|' :: ctx.hid

def FasService.sign (config : Config) (ctx : ClientContext) : Text :=
  hexEncode (config.hmacSha256 config.fasKey ctx.message)

def FasService.verify (config : Config) (ctx : ClientContext) (sig : Text) : Bool :=
  hexDecode (FasService.sign config ctx) == hexDecode sig

/-- minutes = max(1, ceil(timeoutSeconds / 60)) -/
def authMinutes (timeoutSeconds : Int) : Nat := max 1 ((timeoutSeconds + 59) / 60).toNat

def NdsctlService.auth (mac : Text) (timeoutSeconds : Int) : Program Unit :=
  perform (.ndsctl (.auth mac (authMinutes timeoutSeconds)))

def NdsctlService.deauth (mac : Text) : Program Unit :=
  (perform (.ndsctl (.deauth mac))).rescue fun _ => .done ()

def NdsctlService.flushConntrack (ip : Text) : Program Unit :=
  if ip.isEmpty then .done ()
  else (perform (.ndsctl (.flushConntrack ip))).rescue fun _ => .done ()

/-- SELECT … WHERE user_id = $1 AND status = 'active' FOR UPDATE: a row that
stopped matching while its lock was awaited is left out. -/
def lockActiveSessions (userId : Nat) : Program (List (Nat × SessionRow)) := do
  let ids ← select (.activeSessionsOf userId)
  Prog.collect ids fun id => do
    let row ← lockRow .sessions id
    pure ((row.filter fun s => s.userId == userId && s.status == .active).map fun s => (id, s))

/-- INSERT … ON CONFLICT (user_id, mac) DO UPDATE -/
def upsertDevice (userId : Nat) (mac : Text) (label : Option Text) : Program Unit := do
  let inserted ← insertOrSkip .devices fun now => ⟨userId, mac, label, now, now⟩
  if inserted.isSome then pure ()
  else do
    let found ← select (.deviceOf userId mac)
    let device ← Prog.orThrow found .query
    let _ ← updateRow .devices device (.relabel label)
    pure ()

/-- UPDATE sessions SET status = …, ended_at = now()
WHERE device_mac = $1 AND status = 'active' -/
def finishActiveOn (mac : Text) (status : SessionStatus) : Program Unit := do
  let ids ← select (.activeSessionsOn mac)
  Prog.each ids fun id => do
    let row ← lockRow .sessions id
    match row with
    | none => pure ()
    | some s =>
        if s.deviceMac == mac && s.status == .active then do
          let _ ← updateRow .sessions id (.finish status)
          pure ()
        else pure ()

def newSession (userId : Nat) (mac ip token : Text) (now : Time) : SessionRow where
  userId := userId
  deviceMac := mac
  ip := ip
  openndsToken := some token
  startedAt := now
  endedAt := none
  secondsConsumed := 0
  status := .active
  lastTick := now

def openOrRefresh (userId : Nat) (mac ip token : Text) (alreadyActive : Option (Nat × SessionRow)) :
    Program Unit :=
  match alreadyActive with
  | some s => do
      let _ ← updateRow .sessions s.1 (.refresh ip token)
      pure ()
  | none => do
      finishActiveOn mac .ended
      let _ ← insertRow .sessions (newSession userId mac ip token)
      pure ()

def limitMessage (limit : Nat) : String :=
  "Device limit reached (" ++ toString limit ++ ") — disconnect another device first"

/-- The callback of connect's transaction; answers timeoutSeconds. -/
def connectTx (config : Config) (user : AuthUser) (mac ip hid : Text) (label : Option Text) :
    Program Int := do
  let locked ← lockRow .users user.id
  let account ← Prog.orThrow locked (.forbidden "Account not found")
  Prog.throwIf (account.remainingSeconds ≤ 0)
    (.forbidden "No time left — redeem a voucher or request a plan")
  let activeRows ← lockActiveSessions user.id
  let alreadyActive := activeRows.find? fun s => s.2.deviceMac == mac
  Prog.throwIf (alreadyActive.isNone && account.deviceLimit ≤ activeRows.length)
    (.forbidden (limitMessage account.deviceLimit))
  upsertDevice user.id mac label
  openOrRefresh user.id mac ip hid alreadyActive
  pure (min account.remainingSeconds config.maxSessionSeconds)

/-- The cooldown is checked before the transaction, `ndsctl auth` runs after it. -/
def SessionsService.connect (config : Config) (user : AuthUser) (dto : ConnectDto) :
    Program Reply := do
  let mac := toLowerCase dto.clientmac
  Prog.throwIf (!FasService.verify config ⟨dto.clientip, mac, dto.hid⟩ dto.sig)
    (.forbidden "Invalid portal context — reconnect to the Wi-Fi and try again")
  let recentKick ← select (.recentKick mac config.kickCooldownSeconds)
  Prog.throwIf recentKick
    (.forbidden "This device was disconnected by staff — please ask at the counter")
  let timeoutSeconds ← DbService.tx (connectTx config user mac dto.clientip dto.hid dto.label)
  NdsctlService.auth mac timeoutSeconds
  AuditService.log (some user.id) "session.connect"
  pure (.connected mac timeoutSeconds)

def SessionsService.kick (actor : AuthUser) (mac : Text) : Program Reply := do
  let normalized := toLowerCase mac
  let active ← select (.activeIps normalized)
  NdsctlService.deauth normalized
  Prog.each active NdsctlService.flushConntrack
  DbService.tx (finishActiveOn normalized .kicked)
  AuditService.log (some actor.id) "session.kick"
  pure .ok

end Cybera
