import Cybera.Redirects

/-!
What the signature of a portal context says: neither that the context is the
latest of its device, nor which characters belong to which of its fields.
-/

namespace Cybera

open Interleaving

/-- What the SPA keeps of the redirect's query string. -/
def PortalParams.context (page : PortalParams) : ClientContext :=
  ⟨page.clientip, page.clientmac, page.hid⟩

def ConnectDto.Presents (dto : ConnectDto) (page : PortalParams) : Prop :=
  dto.context = page.context ∧ dto.sig = page.sig

section Signatures
variable {config : Config} {lower : Text → Text}

theorem handle_context {blob : Text} {page : PortalParams}
    (answered : FasController.handle config lower (some blob) = .ok page) :
    page.sig = FasService.sign config page.context := by
  obtain ⟨param, ctx, _, _, rfl⟩ := handle_ok.mp answered
  rfl

theorem verify_sign (ctx : ClientContext) :
    FasService.verify config ctx (FasService.sign config ctx) = true := by
  simp [FasService.verify]

theorem presented_past {blob : Text} {page : PortalParams} {user : AuthUser} {dto : ConnectDto}
    (answered : FasController.handle config lower (some blob) = .ok page)
    (presents : dto.Presents page) : GetsPast config user dto := by
  rw [getsPast_iff, presents.1, presents.2, handle_context answered]
  exact verify_sign _

end Signatures

section Freshness
variable (config : Config) (lower : Text → Text)

/-- The connect presents a signed context, and OpenNDS has issued a later one
with another hid for the device. -/
structure Stale (before : List WebEvent) (dto : ConnectDto) : Prop where
  superseded : ∃ first older middle newer last,
    before = first ++ .redirect older :: (middle ++ .redirect newer :: last) ∧
    (newer.client lower).clientmac = (older.client lower).clientmac ∧
    newer.hid ≠ older.hid ∧ dto.context = older.client lower
  signed : ∃ fasParam page, .fas (some fasParam) ∈ before ∧
    FasController.handle config lower (some fasParam) = .ok page ∧ dto.Presents page

def RefusesStale (run : List WebEvent) : Prop :=
  ∀ before user dto after, run = before ++ .connect user dto :: after →
    Stale config lower before dto → ¬ GetsPast config user dto

/-- A stale context is never refused: only the runs that have none refuse them all. -/
theorem refuses_stale_iff (run : List WebEvent) :
    RefusesStale config lower run ↔ ∀ before user dto after,
      run = before ++ .connect user dto :: after → ¬ Stale config lower before dto := by
  constructor
  · intro refuses before user dto after split stale
    obtain ⟨fasParam, page, _, answered, presents⟩ := stale.signed
    exact refuses before user dto after split stale (presented_past answered presents)
  · intro fresh before user dto after split stale
    exact absurd stale (fresh before user dto after split)

end Freshness

def newRedirect : NdsRedirect where
  fields := [("clientip".toList, phoneIp), ("clientmac".toList, phoneMac), ("hid".toList, ['i'])]
  clientip := phoneIp
  clientmac := phoneMac
  hid := ['i']
  distinct := by decide
  ip := by constructor <;> decide
  mac := by constructor <;> decide
  hash := by constructor <;> decide
  plain := by decide

/-- The phone associates anew, and connects with the context that it had before. -/
def reassociated : List WebEvent :=
  [.redirect phoneRedirect, .fas (some phoneRedirect.blob), .redirect newRedirect,
    .fas (some newRedirect.blob), .connect guest phone]

theorem stale_accepted : Stale shop toLowerCase (reassociated.take 4) phone ∧
    GetsPast shop guest phone ∧ ¬ RefusesStale shop toLowerCase reassociated := by
  have presents : phone.Presents ⟨phoneIp, phoneMac, ['h'], phone.sig, [], plainPage⟩ :=
    ⟨by decide, rfl⟩
  have stale : Stale shop toLowerCase (reassociated.take 4) phone := by
    refine ⟨⟨[], phoneRedirect, [.fas (some phoneRedirect.blob)], newRedirect,
      [.fas (some newRedirect.blob)], rfl, rfl, by decide, rfl⟩, phoneRedirect.blob, _, ?_,
      phoneRedirect_signed, presents⟩
    simp [reassociated]
  have past : GetsPast shop guest phone := presented_past phoneRedirect_signed presents
  exact ⟨stale, past, fun refuses => refuses (reassociated.take 4) guest phone [] rfl stale past⟩

section Binding
variable {isIP : Text → Bool}

/-- The message reads in one way only: clientip and clientmac contain no bar, or
the message is not an address, a MAC in lower case and a hid that pass the rules
of ConnectDto. -/
def Unambiguous (isIP : Text → Bool) (ctx : ClientContext) : Prop :=
  ∀ ip mac hid, isIP ip = true → isMac mac = true → hid.length ≤ 128 →
    ctx.message = ip ++ '|' :: (toLowerCase mac ++ '|' :: hid) →
      '|' ∉ ctx.clientip ∧ '|' ∉ ctx.clientmac

theorem mac_bare {mac : Text} (format : isMac mac = true) : '|' ∉ toLowerCase mac := by
  intro member
  obtain ⟨c, listed, same⟩ := List.mem_map.mp member
  obtain rfl := toLower_bar same
  simp only [isMac, Bool.and_eq_true, List.all_eq_true] at format
  obtain ⟨index, found⟩ := List.mem_iff_getElem?.mp listed
  have allowed := format.2 ('|', index) (List.mem_zipIdx_iff_getElem?.mpr found)
  revert allowed
  simp only
  split <;> decide

theorem message_read {first second : ClientContext} (ip : '|' ∉ first.clientip)
    (ip' : '|' ∉ second.clientip) (mac : '|' ∉ first.clientmac) (mac' : '|' ∉ second.clientmac)
    (same : first.message = second.message) : first = second := by
  obtain ⟨_, _, _⟩ := first
  obtain ⟨_, _, _⟩ := second
  simp only [ClientContext.message] at same
  rw [List.append_assoc, List.append_assoc] at same
  obtain ⟨rfl, further⟩ := bar_split ip ip' same
  obtain ⟨rfl, rfl⟩ := bar_split mac mac' further
  rfl

end Binding

/-- If HMAC is injective, a signature verifies for no other context that passes
the DTO's rules exactly when the signed message is unambiguous. `isIP` is
class-validator's. -/
theorem signature_binds_iff (config : Config) (lower : Text → Text) (isIP : Text → Bool)
    (addresses : ∀ text, isIP text = true → '|' ∉ text)
    (bytes : ∀ message, ∀ byte ∈ config.hmacSha256 config.fasKey message, byte < 256)
    (injective : ∀ first second, config.hmacSha256 config.fasKey first =
      config.hmacSha256 config.fasKey second → first = second)
    (blob : Text) (page : PortalParams)
    (answered : FasController.handle config lower (some blob) = .ok page)
    (digits : page.sig.length ≤ 128) :
    FasService.verify config page.context page.sig = true ∧
    ((∀ dto : ConnectDto, isIP dto.clientip = true → dto.sig = page.sig →
      (FasService.verify config dto.context dto.sig = true ↔ dto.context = page.context)) ↔
        Unambiguous isIP page.context) := by
  have signed := handle_context answered
  have self : FasService.verify config page.context page.sig = true := signed ▸ verify_sign _
  have verified : ∀ ctx : ClientContext, FasService.verify config ctx page.sig = true ↔
      ctx.message = page.context.message := by
    intro ctx
    simp only [FasService.verify, beq_iff_eq, signed, FasService.sign, hexDecode_encode (bytes _)]
    constructor
    · exact injective _ _
    · intro same
      rw [same]
  refine ⟨self, ?_⟩
  constructor
  · intro binds ip mac hid address format short same
    have read := binds ⟨ip, mac, hid, page.sig, none, format, short, digits, by simp⟩ address rfl
    have one : (⟨ip, toLowerCase mac, hid⟩ : ClientContext) = page.context := by
      refine read.mp ((verified _).mpr ?_)
      rw [same]
      simp [ClientContext.message, ConnectDto.context]
    rw [← one]
    exact ⟨addresses ip address, mac_bare format⟩
  · intro unambiguous dto address own
    rw [own]
    constructor
    · intro past
      have same := (verified _).mp past
      obtain ⟨bareIp, bareMac⟩ := unambiguous dto.clientip dto.clientmac dto.hid address
        dto.macFormat dto.hidLength (same.symm.trans (List.append_assoc _ _ _))
      exact message_read (addresses _ address) bareIp (mac_bare dto.macFormat) bareMac same
    · rintro one
      rw [one]
      exact self

def exactShop : Config := { shop with hmacSha256 := fun _ message => utf8Encode message }

theorem signature_binds_phone :
    Unambiguous (· == phoneIp) phone.context ∧ ∀ dto : ConnectDto, dto.clientip = phoneIp →
      dto.sig = FasService.sign exactShop phone.context →
        (FasService.verify exactShop dto.context dto.sig = true ↔ dto.context = phone.context) := by
  have answered : FasController.handle exactShop toLowerCase (some phoneBlob) =
      .ok ⟨phoneIp, phoneMac, ['h'], FasService.sign exactShop phone.context, [], []⟩ :=
    handle_ok.mpr ⟨phoneBlob, _, rfl, phoneBlob_decodes, rfl⟩
  have plain : Unambiguous (· == phoneIp) phone.context := fun _ _ _ _ _ _ _ => by decide
  have binds := (signature_binds_iff exactShop toLowerCase (· == phoneIp)
    (by intro text address; rw [beq_iff_eq.mp address]; decide)
    (fun message => utf8Encode_small message) (fun _ _ same => utf8Encode_injective same)
    phoneBlob _ answered (by decide +kernel)).2.mpr plain
  exact ⟨plain, fun dto address => binds dto (beq_iff_eq.mpr address)⟩

/-- clientip=10.0.0.2|aa:bb:cc:dd:ee:ff|x,clientmac=y,hid=z -/
def barredBlob : Text :=
  "Y2xpZW50aXA9MTAuMC4wLjJ8YWE6YmI6Y2M6ZGQ6ZWU6ZmZ8eCxjbGllbnRtYWM9eSxoaWQ9eg==".toList

def barredContext : ClientContext := ⟨phoneIp ++ '|' :: (phoneMac ++ ['|', 'x']), ['y'], ['z']⟩

/-- The signature for one context is presented with another. -/
def barred : ConnectDto where
  clientip := phoneIp
  clientmac := phoneMac
  hid := ['x', '|', 'y', '|', 'z']
  sig := FasService.sign exactShop barredContext
  label := none
  macFormat := phone.macFormat
  hidLength := by decide
  sigLength := by decide +kernel
  labelLength := phone.labelLength

theorem signature_moved :
    FasController.handle exactShop toLowerCase (some barredBlob) =
      .ok ⟨barredContext.clientip, ['y'], ['z'], barred.sig, [], []⟩ ∧
    FasService.verify exactShop barred.context barred.sig = true ∧
    barred.context ≠ barredContext ∧ ¬ Unambiguous (· == phoneIp) barredContext := by
  have decoded : FasService.decode toLowerCase barredBlob = .ok ⟨barredContext, [], []⟩ := by
    decide +kernel
  refine ⟨handle_ok.mpr ⟨barredBlob, _, rfl, decoded, rfl⟩, by decide +kernel, by decide, ?_⟩
  intro unambiguous
  have bare := unambiguous phoneIp phoneMac ['x', '|', 'y', '|', 'z'] (by decide) (by decide)
    (by decide) (by decide)
  exact absurd bare.1 (by decide)

end Cybera
