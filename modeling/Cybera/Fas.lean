import Cybera.System

/-!
FasController and FasService. A browser brings a blob to GET /fas; its context is
decoded, signed and sent on to the portal. POST /session/connect asks for that
signature, and what it proves depends on what the first endpoint signs.
-/

namespace Cybera

open Interleaving

def base64Value (c : Char) : Option Nat :=
  if 'A' ≤ c && c ≤ 'Z' then some (c.toNat - 'A'.toNat)
  else if 'a' ≤ c && c ≤ 'z' then some (c.toNat - 'a'.toNat + 26)
  else if '0' ≤ c && c ≤ '9' then some (c.toNat - '0'.toNat + 52)
  else if c == '+' || c == '-' then some 62
  else if c == '/' || c == '_' then some 63
  else none

def base64Bytes : List Nat → List Nat
  | a :: b :: c :: d :: rest =>
      (4 * a + b / 16) :: (16 * (b % 16) + c / 4) :: (64 * (c % 4) + d) :: base64Bytes rest
  | [a, b, c] => [4 * a + b / 16, 16 * (b % 16) + c / 4]
  | [a, b] => [4 * a + b / 16]
  | _ => []

/-- Buffer.from(text, 'base64'): either alphabet, up to the first '='; any other character is
skipped. -/
def base64Decode (text : Text) : List Nat :=
  base64Bytes ((text.takeWhile (· != '=')).filterMap base64Value)

/-- A character of which `needed` bytes are missing, the next within the bounds. -/
structure Utf8Pending where
  needed : Nat
  lower : Nat
  upper : Nat
  code : Nat

def utf8Lead (byte : Nat) : Text × Option Utf8Pending :=
  if byte < 0x80 then ([Char.ofNat byte], none)
  else if 0xc2 ≤ byte && byte ≤ 0xdf then ([], some ⟨1, 0x80, 0xbf, byte - 0xc0⟩)
  else if 0xe0 ≤ byte && byte ≤ 0xef then
    ([], some ⟨2, if byte == 0xe0 then 0xa0 else 0x80, if byte == 0xed then 0x9f else 0xbf,
      byte - 0xe0⟩)
  else if 0xf0 ≤ byte && byte ≤ 0xf4 then
    ([], some ⟨3, if byte == 0xf0 then 0x90 else 0x80, if byte == 0xf4 then 0x8f else 0xbf,
      byte - 0xf0⟩)
  else (['\ufffd'], none)

def utf8Step (pending : Option Utf8Pending) (byte : Nat) : Text × Option Utf8Pending :=
  match pending with
  | none => utf8Lead byte
  | some p =>
      if p.lower ≤ byte && byte ≤ p.upper then
        let code := 64 * p.code + (byte - 0x80)
        if p.needed ≤ 1 then ([Char.ofNat code], none)
        else ([], some ⟨p.needed - 1, 0x80, 0xbf, code⟩)
      else
        -- the ill-formed part ends before this byte
        let lead := utf8Lead byte
        ('\ufffd' :: lead.1, lead.2)

def utf8Text (pending : Option Utf8Pending) : List Nat → Text
  | [] => if pending.isSome then ['\ufffd'] else []
  | byte :: rest =>
      let step := utf8Step pending byte
      step.1 ++ utf8Text step.2 rest

/-- buffer.toString('utf8'): an ill-formed part becomes U+FFFD. -/
def utf8Decode (bytes : List Nat) : Text := utf8Text none bytes

/-- text.split(/[,&]\s*/) -/
def splitFields (current : Text) (afterSeparator : Bool) : Text → List Text
  | [] => [current.reverse]
  | c :: rest =>
      if afterSeparator && isBlank c then splitFields current true rest
      else if c == ',' || c == '&' then current.reverse :: splitFields [] true rest
      else splitFields (c :: current) false rest

def setField (fields : List (Text × Text)) (part : Text) : List (Text × Text) :=
  let name := part.takeWhile (· != '=')
  match part.dropWhile (· != '=') with
  | [] => fields
  | _ :: value => if name.isEmpty then fields else mapSet fields (trim name) (trim value)

def getField (fields : List (Text × Text)) (name : String) : Text :=
  (fields.lookup name.toList).getD []

structure FasClientContext extends ClientContext where
  gatewayname : Text
  originurl : Text
  deriving DecidableEq

/-- `lower` is JavaScript's toLowerCase on any text. -/
def FasService.decode (lower : Text → Text) (fasParam : Text) : Except Failure FasClientContext :=
  let decoded := utf8Decode (base64Decode fasParam)
  let fields := (splitFields [] false decoded).foldl setField []
  let clientip := getField fields "clientip"
  let clientmac := lower (getField fields "clientmac")
  let hid := getField fields "hid"
  if clientip.isEmpty || clientmac.isEmpty || hid.isEmpty then
    .error (.badRequest "Malformed FAS request")
  else
    .ok ⟨⟨clientip, clientmac, hid⟩, getField fields "gatewayname", getField fields "originurl"⟩

/-- The query string of the redirect to /portal. -/
structure PortalParams where
  clientip : Text
  clientmac : Text
  hid : Text
  sig : Text
  gw : Text
  origin : Text
  deriving DecidableEq

def FasController.handle (config : Config) (lower : Text → Text) (fasParam : Option Text) :
    Except Failure PortalParams :=
  match fasParam with
  | none | some [] => .error (.badRequest "Missing fas parameter")
  | some param => do
      let ctx ← FasService.decode lower param
      let sig := FasService.sign config ctx.toClientContext
      pure ⟨ctx.clientip, ctx.clientmac, ctx.hid, sig, ctx.gatewayname, ctx.originurl⟩

def ConnectDto.context (dto : ConnectDto) : ClientContext :=
  ⟨dto.clientip, toLowerCase dto.clientmac, dto.hid⟩

def GetsPast (config : Config) (user : AuthUser) (dto : ConnectDto) : Prop :=
  SessionsService.connect config user dto ≠
    .raise (.forbidden "Invalid portal context — reconnect to the Wi-Fi and try again")

section Signing
variable {config : Config} {lower : Text → Text}

theorem getsPast_iff {user : AuthUser} {dto : ConnectDto} :
    GetsPast config user dto ↔ FasService.verify config dto.context dto.sig = true := by
  unfold GetsPast SessionsService.connect
  cases verified : FasService.verify config dto.context dto.sig with
  | true =>
      have checked : FasService.verify config
          ⟨dto.clientip, toLowerCase dto.clientmac, dto.hid⟩ dto.sig = true := verified
      simp [checked, Prog.throwIf, select, perform, Prog.perform, Prog.bind]
  | false =>
      have refused : FasService.verify config
          ⟨dto.clientip, toLowerCase dto.clientmac, dto.hid⟩ dto.sig = false := verified
      simp [refused, Prog.throwIf]

theorem decode_empty (lower : Text → Text) :
    FasService.decode lower [] = .error (.badRequest "Malformed FAS request") := by
  simp [FasService.decode, base64Decode, base64Bytes, utf8Decode, utf8Text, splitFields, setField,
    getField]

theorem handle_ok {fasParam : Option Text} {page : PortalParams} :
    FasController.handle config lower fasParam = .ok page ↔
      ∃ param ctx, fasParam = some param ∧ FasService.decode lower param = .ok ctx ∧
        page = ⟨ctx.clientip, ctx.clientmac, ctx.hid, FasService.sign config ctx.toClientContext,
          ctx.gatewayname, ctx.originurl⟩ := by
  constructor
  · intro answered
    unfold FasController.handle at answered
    split at answered
    · cases answered
    · cases answered
    · rename_i param _
      cases decoded : FasService.decode lower param with
      | error error =>
          rw [decoded] at answered
          cases answered
      | ok ctx =>
          rw [decoded] at answered
          cases answered
          exact ⟨param, ctx, rfl, decoded, rfl⟩
  · rintro ⟨param, ctx, rfl, decoded, rfl⟩
    unfold FasController.handle
    split
    · rename_i missing
      cases missing
    · rename_i missing
      cases missing
      rw [decode_empty] at decoded
      cases decoded
    · rename_i given
      cases given
      rw [decoded]
      rfl

theorem bar_split {left left' rest rest' : Text} (bare : '|' ∉ left) (bare' : '|' ∉ left')
    (same : left ++ '|' :: rest = left' ++ '|' :: rest') : left = left' ∧ rest = rest' := by
  induction left generalizing left' with
  | nil =>
      cases left' with
      | nil => exact ⟨rfl, (List.cons.inj same).2⟩
      | cons c tail => exact absurd (List.mem_cons.mpr (Or.inl (List.cons.inj same).1)) bare'
  | cons c tail ih =>
      cases left' with
      | nil => exact absurd (List.mem_cons.mpr (Or.inl (List.cons.inj same).1.symm)) bare
      | cons d tail' =>
          obtain ⟨rfl, further⟩ := List.cons.inj same
          obtain ⟨rfl, rest⟩ := ih (fun member => bare (List.mem_cons_of_mem _ member))
            (fun member => bare' (List.mem_cons_of_mem _ member)) further
          exact ⟨rfl, rest⟩

theorem message_injective {plain ctx : ClientContext}
    (bare : '|' ∉ plain.clientip ∧ '|' ∉ plain.clientmac ∧ '|' ∉ plain.hid)
    (same : plain.message = ctx.message) : ctx = plain := by
  obtain ⟨ip, mac, hid⟩ := plain
  obtain ⟨ip', mac', hid'⟩ := ctx
  obtain ⟨bareIp, bareMac, bareHid⟩ := bare
  simp only [ClientContext.message] at bareIp bareMac bareHid same
  -- there are only two bars to go round
  have bars := congrArg (List.count '|') same
  simp only [List.count_append, List.count_cons_self, List.count_eq_zero_of_not_mem bareIp,
    List.count_eq_zero_of_not_mem bareMac, List.count_eq_zero_of_not_mem bareHid] at bars
  have bareIp' : '|' ∉ ip' := List.count_eq_zero.mp (by omega)
  have bareMac' : '|' ∉ mac' := List.count_eq_zero.mp (by omega)
  rw [List.append_assoc, List.append_assoc] at same
  obtain ⟨rfl, further⟩ := bar_split bareIp bareIp' same
  obtain ⟨rfl, rfl⟩ := bar_split bareMac bareMac' further
  rfl

end Signing

/-- clientip=10.0.0.2,clientmac=aa:bb:cc:dd:ee:ff,hid=h -/
def phoneBlob : Text :=
  "Y2xpZW50aXA9MTAuMC4wLjIsY2xpZW50bWFjPWFhOmJiOmNjOmRkOmVlOmZmLGhpZD1o".toList

theorem phoneBlob_decodes :
    FasService.decode toLowerCase phoneBlob = .ok ⟨phone.context, [], []⟩ := by decide +kernel

theorem phoneBlob_signed : FasController.handle shop toLowerCase (some phoneBlob) =
    .ok ⟨phoneIp, phoneMac, ['h'], phone.sig, [], []⟩ :=
  handle_ok.mpr ⟨phoneBlob, _, rfl, phoneBlob_decodes, by decide⟩

end Cybera
