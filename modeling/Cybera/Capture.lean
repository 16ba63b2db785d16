import Cybera.Contexts
import Cybera.FormUrlEncoded
import Cybera.JsonText
import Cybera.Lifecycle

/-!
The signed context on its way through the browser: from the query string of the
redirect into localStorage, and from there into the body of a connect.
-/

namespace Cybera

open Interleaving

/-- new URLSearchParams(search) -/
def searchParams (search : Text) : List (Text × Text) :=
  FormUrlEncoded.parse utf8Char utf8Decode (match search with | '?' :: rest => rest | _ => search)

def PortalParams.pairs (page : PortalParams) : List (Text × Text) :=
  [("clientip".toList, page.clientip), ("clientmac".toList, page.clientmac),
    ("hid".toList, page.hid),
    ("sig".toList, page.sig), ("gw".toList, page.gw), ("origin".toList, page.origin)]

/-- The query string of the page that the redirect opens. -/
def PortalParams.search (page : PortalParams) : Text :=
  '?' :: FormUrlEncoded.serialise utf8Char page.pairs

structure FasContext where
  clientip : Text
  clientmac : Text
  hid : Text
  sig : Text
  deriving DecidableEq

def FasContext.members (ctx : FasContext) : List (Text × Text) :=
  [("clientip".toList, ctx.clientip), ("clientmac".toList, ctx.clientmac), ("hid".toList, ctx.hid),
    ("sig".toList, ctx.sig)]

/-- The four members of the page's query string that captureFasContext keeps. -/
def PortalParams.fasContext (page : PortalParams) : FasContext where
  clientip := page.clientip
  clientmac := page.clientmac
  hid := page.hid
  sig := page.sig

/-- What captureFasContext returns; null is none. -/
def capturedContext (params : List (Text × Text)) : Option FasContext :=
  let clientip := getField params "clientip"
  let clientmac := getField params "clientmac"
  let hid := getField params "hid"
  let sig := getField params "sig"
  if clientip.isEmpty || clientmac.isEmpty || hid.isEmpty || sig.isEmpty then none
  else some ⟨clientip, clientmac, hid, sig⟩

/-- The item `cybera.fasContext` of localStorage after the page has opened. -/
def captureFasContext (item : Option Text) (params : List (Text × Text)) : Option Text :=
  match capturedContext params with
  | none => item
  | some ctx => some (JsonText.stringify ctx.members)

def loadFasContext (item : Option Text) : Option (List (Text × Text)) :=
  match item with
  | none | some [] => none
  | some raw => JsonText.parse raw

/-- The body that OnlineStatus posts, or what it shows instead. -/
def OnlineStatus.connect (item : Option Text) : Except String Text :=
  match loadFasContext item with
  | none =>
      .error "Reconnect to the Wi-Fi and let this page open by itself, then try again."
  | some ctx => .ok (JsonText.stringify ctx)

/-- The portal opens with each of the query strings in turn. -/
def ClientPortal.visited (item : Option Text) (visits : List Text) : Option Text :=
  visits.foldl (fun item search => captureFasContext item (searchParams search)) item

def connectNames : List Text :=
  ["clientip".toList, "clientmac".toList, "hid".toList, "sig".toList, "label".toList]

/-- What the ValidationPipe makes of a body. `isIP` is the validator of that name. -/
def ConnectDto.validate (isIP : Text → Bool) (body : Text) : Option ConnectDto := do
  let members ← JsonText.parse body
  if members.all fun entry => connectNames.contains entry.1 then
    let clientip ← JsonText.get members "clientip".toList
    let clientmac ← JsonText.get members "clientmac".toList
    let hid ← JsonText.get members "hid".toList
    let sig ← JsonText.get members "sig".toList
    let label := JsonText.get members "label".toList
    if valid : isIP clientip = true ∧ isMac clientmac = true ∧ hid.length ≤ 128 ∧ sig.length ≤ 128 ∧
        ∀ text ∈ label, text.length ≤ 64 then
      some ⟨clientip, clientmac, hid, sig, label, valid.2.1, valid.2.2.1, valid.2.2.2.1,
        valid.2.2.2.2⟩
    else none
  else none

theorem utf8Char_ascii (c : Char) (low : c.toNat < 128) : utf8Char c = [c.toNat] := by
  simp [utf8Char, low]

theorem searchParams_search (page : PortalParams) : searchParams page.search = page.pairs :=
  FormUrlEncoded.parse_serialise utf8Decode_encode utf8Char_small utf8Char_ascii page.pairs

theorem captured_page {page : PortalParams} (ip : page.clientip ≠ []) (mac : page.clientmac ≠ [])
    (hid : page.hid ≠ []) (sig : page.sig ≠ []) :
    capturedContext page.pairs = some page.fasContext := by
  have clientip : getField page.pairs "clientip" = page.clientip := rfl
  have clientmac : getField page.pairs "clientmac" = page.clientmac := by
    simp [getField, PortalParams.pairs, List.lookup_cons]
  have hid' : getField page.pairs "hid" = page.hid := by
    simp [getField, PortalParams.pairs, List.lookup_cons]
  have sig' : getField page.pairs "sig" = page.sig := by
    simp [getField, PortalParams.pairs, List.lookup_cons]
  simp [capturedContext, PortalParams.fasContext, clientip, clientmac, hid', sig', ip,
    mac, hid, sig]

theorem loadFasContext_stored (ctx : FasContext) :
    loadFasContext (some (JsonText.stringify ctx.members)) = some ctx.members :=
  JsonText.parse_stringify ctx.members

theorem validate_members {isIP : Text → Bool} {ctx : FasContext} {dto : ConnectDto} :
    ConnectDto.validate isIP (JsonText.stringify ctx.members) = some dto ↔
      isIP ctx.clientip = true ∧ dto.clientip = ctx.clientip ∧ dto.clientmac = ctx.clientmac ∧
        dto.hid = ctx.hid ∧ dto.sig = ctx.sig ∧ dto.label = none := by
  have known : (ctx.members.all fun entry => connectNames.contains entry.1) = true := by
    simp [FasContext.members, connectNames]
  have clientip : JsonText.get ctx.members "clientip".toList = some ctx.clientip := by
    simp [JsonText.get, FasContext.members, List.lookup_cons]
  have clientmac : JsonText.get ctx.members "clientmac".toList = some ctx.clientmac := by
    simp [JsonText.get, FasContext.members, List.lookup_cons]
  have hid : JsonText.get ctx.members "hid".toList = some ctx.hid := by
    simp [JsonText.get, FasContext.members, List.lookup_cons]
  have sig : JsonText.get ctx.members "sig".toList = some ctx.sig := by
    simp [JsonText.get, FasContext.members]
  have label : JsonText.get ctx.members "label".toList = none := by
    simp [JsonText.get, FasContext.members]
  rw [ConnectDto.validate, JsonText.parse_stringify]
  simp only [Option.bind_eq_bind, Option.bind_some, known, if_true, clientip, clientmac,
    hid, sig, label]
  constructor
  · intro accepted
    split at accepted
    · rename_i valid
      cases accepted
      exact ⟨valid.1, rfl, rfl, rfl, rfl, rfl⟩
    · cases accepted
  · obtain ⟨ip, mac, hash, signature, name, macFormat, hidLength, sigLength, labelLength⟩ := dto
    rintro ⟨address, rfl, rfl, rfl, rfl, rfl⟩
    exact dif_pos ⟨address, macFormat, hidLength, sigLength, by simp⟩

def Bare (search : Text) : Prop := capturedContext (searchParams search) = none

def SentTo (config : Config) (lower : Text → Text) (page : PortalParams) : Prop :=
  ∃ blob, FasController.handle config lower (some blob) = .ok page

theorem visited_append (item : Option Text) (visits later : List Text) :
    ClientPortal.visited item (visits ++ later) =
      ClientPortal.visited (ClientPortal.visited item visits) later :=
  List.foldl_append

theorem visited_bare (item : Option Text) {visits : List Text}
    (bare : ∀ search ∈ visits, Bare search) :
    ClientPortal.visited item visits = item := by
  induction visits generalizing item with
  | nil => rfl
  | cons search rest ih =>
      have kept : captureFasContext item (searchParams search) = item := by
        rw [captureFasContext, bare search (by simp)]
      change ClientPortal.visited (captureFasContext item (searchParams search)) rest = item
      rw [kept]
      exact ih item fun other member => bare other (List.mem_cons_of_mem _ member)

section Loop
variable {config : Config} {lower : Text → Text} {page : PortalParams}

theorem sentTo_fields (sent : SentTo config lower page) : page.clientip ≠ [] ∧ page.clientmac ≠ [] ∧
    page.hid ≠ [] ∧ page.sig = FasService.sign config page.context ∧
      ∃ mac, page.clientmac = lower mac := by
  obtain ⟨blob, answered⟩ := sent
  obtain ⟨param, ctx, _, decoded, rfl⟩ := handle_ok.mp answered
  simp only [FasService.decode] at decoded
  split at decoded
  · cases decoded
  · rename_i complete
    cases decoded
    simp only [Bool.or_eq_true, List.isEmpty_iff, not_or] at complete
    exact ⟨complete.1.1, complete.1.2, complete.2, rfl, _, rfl⟩

theorem length_hexEncode (codes : List Nat) : (hexEncode codes).length = 2 * codes.length := by
  induction codes with
  | nil => rfl
  | cons code rest ih =>
      rw [show hexEncode (code :: rest) = Nat.digitChar (code / 16 % 16) ::
        Nat.digitChar (code % 16) ::
        hexEncode rest from rfl, List.length_cons, List.length_cons, List.length_cons, ih]
      omega

variable (digest : ∀ key message, (config.hmacSha256 key message).length = 32)
include digest

theorem captured_sent (sent : SentTo config lower page) :
    capturedContext (searchParams page.search) = some page.fasContext := by
  obtain ⟨ip, mac, hid, signed, _⟩ := sentTo_fields sent
  have sig : page.sig ≠ [] := by
    intro empty
    have length := length_hexEncode (config.hmacSha256 config.fasKey page.context.message)
    rw [digest] at length
    rw [FasService.sign] at signed
    rw [← signed, empty] at length
    cases length
  rw [searchParams_search, captured_page ip mac hid sig]

theorem loaded_sent (sent : SentTo config lower page) (item : Option Text) (before : List Text)
    {after : List Text} (bare : ∀ search ∈ after, Bare search) :
    loadFasContext (ClientPortal.visited item (before ++ page.search :: after)) =
      some page.fasContext.members := by
  rw [visited_append, show page.search :: after = [page.search] ++ after from rfl, visited_append,
    visited_bare _ bare]
  change loadFasContext (captureFasContext _ (searchParams page.search)) = _
  rw [captureFasContext, captured_sent digest sent]
  exact loadFasContext_stored _

end Loop

theorem last_complete (visits : List Text) : (∀ search ∈ visits, Bare search) ∨
    ∃ before search after, visits = before ++ search :: after ∧ ¬ Bare search ∧
      ∀ search ∈ after, Bare search := by
  induction visits with
  | nil => exact Or.inl (by simp)
  | cons first rest ih =>
      rcases ih with bare | ⟨before, search, after, rfl, complete, bare⟩
      · by_cases empty : Bare first
        · exact Or.inl (by simpa using ⟨empty, bare⟩)
        · exact Or.inr ⟨[], first, rest, rfl, empty, bare⟩
      · exact Or.inr ⟨first :: before, search, after, rfl, complete, bare⟩

/-- A browser that opens what it is sent to, next to pages without a context, posts exactly the
context of its latest redirect, and where that passes the fields' rules its signature does. -/
theorem portal_loop (config : Config) (lower : Text → Text) (isIP : Text → Bool)
    (digest : ∀ key message, (config.hmacSha256 key message).length = 32)
    (lowers : ∀ text, toLowerCase (lower text) = lower text) (visits : List Text)
    (follows : ∀ search ∈ visits, Bare search ∨
      ∃ page, SentTo config lower page ∧ search = page.search) :
    (∀ search ∈ visits, Bare search) ∧ OnlineStatus.connect (ClientPortal.visited none visits) =
      .error "Reconnect to the Wi-Fi and let this page open by itself, then try again." ∨
    ∃ before page after body, visits = before ++ page.search :: after ∧
      SentTo config lower page ∧ (∀ search ∈ after, Bare search) ∧
      OnlineStatus.connect (ClientPortal.visited none visits) = .ok body ∧
      body = JsonText.stringify page.fasContext.members ∧
      ((ConnectDto.validate isIP body).isSome = true ↔
        isIP page.clientip = true ∧ isMac page.clientmac = true ∧ page.hid.length ≤ 128) ∧
      ∀ dto, ConnectDto.validate isIP body = some dto →
        dto.Presents page ∧ dto.label = none ∧ ∀ user, GetsPast config user dto := by
  rcases last_complete visits with bare | ⟨before, search, after, rfl, complete, bare⟩
  · refine Or.inl ⟨bare, ?_⟩
    rw [visited_bare none bare]
    rfl
  · obtain ⟨page, sent, rfl⟩ := (follows search (by simp)).resolve_left complete
    have loaded := loaded_sent digest sent none before bare
    obtain ⟨_, _, _, signed, mac, lowered⟩ := sentTo_fields sent
    refine Or.inr ⟨before, page, after, JsonText.stringify page.fasContext.members, rfl, sent, bare,
      ?_, rfl, ?_, ?_⟩
    · rw [OnlineStatus.connect, loaded]
    · rw [Option.isSome_iff_exists]
      constructor
      · rintro ⟨dto, accepted⟩
        obtain ⟨address, _, mac', hid', _, _⟩ := validate_members.mp accepted
        have macFormat := dto.macFormat
        have hidLength := dto.hidLength
        rw [mac'] at macFormat
        rw [hid'] at hidLength
        exact ⟨address, macFormat, hidLength⟩
      · rintro ⟨address, macFormat, hidLength⟩
        have sigLength : page.sig.length ≤ 128 := by
          rw [signed, FasService.sign, length_hexEncode, digest]
          decide
        exact ⟨⟨page.clientip, page.clientmac, page.hid, page.sig, none, macFormat, hidLength,
          sigLength, by simp⟩, validate_members.mpr ⟨address, rfl, rfl, rfl, rfl, rfl⟩⟩
    · intro dto accepted
      obtain ⟨_, ip', mac', hid', sig', label⟩ := validate_members.mp accepted
      have presents : dto.Presents page := by
        refine ⟨?_, sig'⟩
        rw [ConnectDto.context, ip', mac', hid', PortalParams.context]
        simp only [PortalParams.fasContext, lowered, lowers]
      refine ⟨presents, label, fun user => ?_⟩
      obtain ⟨blob, answered⟩ := sent
      exact presented_past answered presents

/-- The key and the digest of the phone's context. -/
def digestShop : Config :=
  { shop with hmacSha256 := fun _ _ =>
      [82, 109, 70, 67, 72, 227, 16, 120, 187, 147, 25, 177, 58, 136, 168, 252, 77, 177, 21, 214,
        73, 17, 136, 83, 42, 209, 224, 211, 147, 42, 7, 158] }

def phonePage : PortalParams :=
  ⟨phoneIp, phoneMac, ['h'], FasService.sign digestShop ⟨phoneIp, phoneMac, ['h']⟩, [], []⟩

/-- The phone is redirected, comes back to the page without its context, and once with half
of one. -/
def phoneVisits : List Text := [phonePage.search, [], "?clientip=9&hid=%C3%A9".toList]

theorem portal_loop_phone : ∃ body dto,
    OnlineStatus.connect (ClientPortal.visited none phoneVisits) = .ok body ∧
      ConnectDto.validate (fun _ => true) body = some dto ∧ GetsPast digestShop guest dto := by
  have sent : SentTo digestShop toLowerCase phonePage :=
    ⟨phoneBlob, handle_ok.mpr ⟨phoneBlob, _, rfl, phoneBlob_decodes, rfl⟩⟩
  have empty : Bare [] := by unfold Bare; decide +kernel
  have half : Bare "?clientip=9&hid=%C3%A9".toList := by unfold Bare; decide +kernel
  have complete : ¬ Bare phonePage.search := by unfold Bare; decide +kernel
  have read : ((OnlineStatus.connect (ClientPortal.visited none phoneVisits)).toOption.bind
      (ConnectDto.validate fun _ => true)).isSome = true := by decide +kernel
  have follows : ∀ search ∈ phoneVisits, Bare search ∨
      ∃ page, SentTo digestShop toLowerCase page ∧ search = page.search := by
    intro search member
    simp only [phoneVisits, List.mem_cons, List.not_mem_nil, or_false] at member
    rcases member with rfl | rfl | rfl
    · exact Or.inr ⟨phonePage, sent, rfl⟩
    · exact Or.inl empty
    · exact Or.inl half
  rcases portal_loop digestShop toLowerCase (fun _ => true) (fun _ _ => rfl) toLowerCase_twice
    phoneVisits follows with ⟨bare, _⟩ | ⟨_, page, _, body, _, _, _, posted, _, _, accepted⟩
  · exact absurd (bare _ (by simp [phoneVisits])) complete
  · rw [posted] at read
    obtain ⟨dto, valid⟩ := Option.isSome_iff_exists.mp read
    exact ⟨body, dto, posted, valid, (accepted dto valid).2.2 guest⟩

end Cybera
