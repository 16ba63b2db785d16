import Cybera.FasFields

/-!
Who gets a signature. OpenNDS redirects a client with a blob that it has written, but
GET /fas signs whatever a browser brings, and connect asks for a signature only.
-/

namespace Cybera

open Interleaving

/-- What OpenNDS writes into the blob of a redirect: the address, the MAC and the hash of
the client, without bars, among other fields. -/
structure NdsRedirect where
  fields : List (Text × Text)
  clientip : Text
  clientmac : Text
  hid : Text
  distinct : (fields.map Prod.fst).Nodup
  ip : CarriesField fields "clientip".toList clientip
  mac : CarriesField fields "clientmac".toList clientmac
  hash : CarriesField fields "hid".toList hid
  plain : '|' ∉ clientip ∧ '|' ∉ clientmac ∧ '|' ∉ hid

def NdsRedirect.blob (redirect : NdsRedirect) : Text := fasBlob redirect.fields

/-- The client that OpenNDS has redirected, with its MAC in lower case. -/
def NdsRedirect.client (lower : Text → Text) (redirect : NdsRedirect) : ClientContext :=
  ⟨redirect.clientip, lower redirect.clientmac, redirect.hid⟩

/-- What reaches the two endpoints from any browsers, next to the redirects that
OpenNDS makes. -/
inductive WebEvent where
  | redirect (redirect : NdsRedirect)
  | fas (fasParam : Option Text)
  | connect (user : AuthUser) (dto : ConnectDto)

section Web
variable (config : Config) (lower : Text → Text) (run : List WebEvent)

def IssuedIn (before : List WebEvent) (ctx : ClientContext) : Prop :=
  ∃ redirect, .redirect redirect ∈ before ∧ redirect.client lower = ctx

/-- Nobody without the key makes a signature: one that verifies was the answer
to an earlier request, for a context with the same message. -/
def Unforged : Prop :=
  ∀ before user dto after, run = before ++ .connect user dto :: after →
    FasService.verify config dto.context dto.sig = true →
      ∃ fasParam page ctx, .fas (some fasParam) ∈ before ∧
        FasController.handle config lower (some fasParam) = .ok page ∧
        FasService.decode lower fasParam = .ok ctx ∧
        ctx.message = dto.context.message

/-- Only clients that OpenNDS has redirected get past the check, and who gets a signature
has brought OpenNDS's own blob and gets it for the client that OpenNDS meant. -/
structure Genuine : Prop where
  connects : ∀ before user dto after, run = before ++ .connect user dto :: after →
    GetsPast config user dto → IssuedIn lower before dto.context
  signatures : ∀ before fasParam page after, run = before ++ .fas (some fasParam) :: after →
    FasController.handle config lower (some fasParam) = .ok page →
      ∃ redirect, .redirect redirect ∈ before ∧ redirect.blob = fasParam ∧
        redirect.client lower = ⟨page.clientip, page.clientmac, page.hid⟩

/-- The parameter is the blob of an earlier redirect, in which no field behind clientip,
clientmac and hid sets one of them again. -/
def Relayed (before : List WebEvent) (fasParam : Text) : Prop :=
  ∃ redirect, .redirect redirect ∈ before ∧ redirect.blob = fasParam ∧
    Isolated lower redirect.fields

/-- Whatever else GET /fas is asked for does not decode. -/
def NothingMadeUp : Prop :=
  ∀ before fasParam after, run = before ++ .fas (some fasParam) :: after →
    Relayed lower before fasParam ∨ ∀ ctx, FasService.decode lower fasParam ≠ .ok ctx

end Web

theorem toLower_bar {c : Char} (same : c.toLower = '|') : c = '|' := by
  unfold Char.toLower at same
  split at same
  · rename_i upper
    have code : (c.val + 32).toNat = 124 := congrArg (fun d : Char => d.val.toNat) same
    have low : 65 ≤ c.toNat := upper.1
    have high : c.toNat ≤ 90 := upper.2
    rw [UInt32.toNat_add] at code
    simp at code
    omega
  · exact same

theorem lower_bare (text : Text) (bare : '|' ∉ text) : '|' ∉ toLowerCase text := by
  intro member
  obtain ⟨c, listed, same⟩ := List.mem_map.mp member
  exact bare (toLower_bar same ▸ listed)

section Signing
variable {config : Config} {lower : Text → Text} {run : List WebEvent}

/-- An isolated blob decodes to the client that OpenNDS meant, and only such a blob does. -/
theorem redirect_decodes (kept : ∀ text, text ≠ [] → lower text ≠ []) (redirect : NdsRedirect) :
    (∃ ctx, FasService.decode lower redirect.blob = .ok ctx ∧
      ctx.toClientContext = redirect.client lower) ↔ Isolated lower redirect.fields :=
  carried_isolated kept redirect.distinct redirect.ip redirect.mac redirect.hash

theorem client_plain (bars : ∀ text, '|' ∉ text → '|' ∉ lower text) (redirect : NdsRedirect) :
    '|' ∉ (redirect.client lower).clientip ∧ '|' ∉ (redirect.client lower).clientmac ∧
      '|' ∉ (redirect.client lower).hid :=
  ⟨redirect.plain.1, bars _ redirect.plain.2.1, redirect.plain.2.2⟩

theorem relayed_context (kept : ∀ text, text ≠ [] → lower text ≠ []) {before : List WebEvent}
    {fasParam : Text} {ctx : FasClientContext} (relayed : Relayed lower before fasParam)
    (decoded : FasService.decode lower fasParam = .ok ctx) : ∃ redirect,
      .redirect redirect ∈ before ∧ redirect.blob = fasParam ∧
        redirect.client lower = ctx.toClientContext := by
  obtain ⟨redirect, issued, rfl, isolated⟩ := relayed
  obtain ⟨ctx', decoded', same⟩ := (redirect_decodes kept redirect).mpr isolated
  rw [decoded, Except.ok.injEq] at decoded'
  exact ⟨redirect, issued, rfl, decoded' ▸ same.symm⟩

theorem connects_issued (kept : ∀ text, text ≠ [] → lower text ≠ [])
    (bars : ∀ text, '|' ∉ text → '|' ∉ lower text) (unforged : Unforged config lower run)
    (honest : NothingMadeUp lower run) {before after : List WebEvent} {user : AuthUser}
    {dto : ConnectDto} (split : run = before ++ .connect user dto :: after)
    (past : GetsPast config user dto) : IssuedIn lower before dto.context := by
  obtain ⟨fasParam, page, ctx, asked, _, decoded, message⟩ :=
    unforged before user dto after split (getsPast_iff.mp past)
  obtain ⟨earlier, between, rfl⟩ := List.append_of_mem asked
  have relayed : Relayed lower earlier fasParam :=
    (honest earlier fasParam (between ++ .connect user dto :: after)
      (by simp [split])).resolve_right
      fun refused => refused ctx decoded
  obtain ⟨redirect, issued, _, same⟩ := relayed_context kept relayed decoded
  refine ⟨redirect, by simp [issued], (message_injective (client_plain bars redirect) ?_).symm⟩
  rw [same, message]

end Signing

/-- If HMAC is not forged, exactly the runs without a made-up or smuggling parameter
authorise nothing but what OpenNDS issued. -/
theorem genuine_iff (config : Config) (lower : Text → Text) (run : List WebEvent)
    (kept : ∀ text, text ≠ [] → lower text ≠ []) (bars : ∀ text, '|' ∉ text → '|' ∉ lower text)
    (unforged : Unforged config lower run) :
    Genuine config lower run ↔ NothingMadeUp lower run := by
  constructor
  · intro genuine before fasParam after split
    by_cases decodes : ∃ ctx, FasService.decode lower fasParam = .ok ctx
    · obtain ⟨ctx, decoded⟩ := decodes
      obtain ⟨redirect, issued, rfl, same⟩ := genuine.signatures before fasParam _ after split
        (handle_ok.mpr ⟨fasParam, ctx, rfl, decoded, rfl⟩)
      exact Or.inl ⟨redirect, issued, rfl,
        (redirect_decodes kept redirect).mp ⟨ctx, decoded, same.symm⟩⟩
    · exact Or.inr fun ctx decoded => decodes ⟨ctx, decoded⟩
  · intro honest
    constructor
    · intro before user dto after split past
      exact connects_issued kept bars unforged honest split past
    · intro before fasParam page after split answered
      obtain ⟨_, ctx, given, decoded, rfl⟩ := handle_ok.mp answered
      cases given
      have relayed := (honest before fasParam after split).resolve_right
        fun refused => refused ctx decoded
      exact relayed_context kept relayed decoded

/-- OpenNDS redirects the phone from the page that it wanted to see. -/
def phoneRedirect : NdsRedirect where
  fields := visiting plainPage
  clientip := phoneIp
  clientmac := phoneMac
  hid := ['h']
  distinct := by decide
  ip := (visiting_carries _).1
  mac := (visiting_carries _).2.1
  hash := (visiting_carries _).2.2
  plain := by decide

theorem phoneRedirect_decodes : FasService.decode toLowerCase phoneRedirect.blob =
    .ok ⟨phone.context, [], plainPage⟩ := visiting_decodes

theorem phoneRedirect_signed : FasController.handle shop toLowerCase (some phoneRedirect.blob) =
    .ok ⟨phoneIp, phoneMac, ['h'], phone.sig, [], plainPage⟩ :=
  handle_ok.mpr ⟨phoneRedirect.blob, ⟨phone.context, [], plainPage⟩, rfl, phoneRedirect_decodes,
    by decide⟩

/-- The phone connects with what it got, after a parameter that is none. -/
def redirected : List WebEvent :=
  [.redirect phoneRedirect, .fas (some ['?']), .fas (some phoneRedirect.blob), .connect guest phone]

theorem genuine_redirected : Genuine shop toLowerCase redirected := by
  refine (genuine_iff shop toLowerCase redirected lower_kept lower_bare ?_).mpr ?_
  · intro before user dto after split _
    obtain _ | ⟨_, _ | ⟨_, _ | ⟨_, _ | ⟨_, before⟩⟩⟩⟩ := before <;> simp [redirected] at split
    obtain ⟨rfl, rfl, rfl, ⟨rfl, rfl⟩, rfl⟩ := split
    exact ⟨_, _, _, by simp, phoneRedirect_signed, phoneRedirect_decodes, rfl⟩
  · intro before fasParam after split
    obtain _ | ⟨_, _ | ⟨_, _ | ⟨_, _ | ⟨_, before⟩⟩⟩⟩ := before <;> simp [redirected] at split
    · obtain ⟨rfl, rfl, rfl⟩ := split
      refine Or.inr fun ctx decoded => ?_
      have refused : (FasService.decode toLowerCase ['?']).toBool = false := by decide +kernel
      rw [decoded] at refused
      cases refused
    · obtain ⟨rfl, rfl, rfl, rfl⟩ := split
      refine Or.inl ⟨phoneRedirect, by simp, rfl, ?_⟩
      exact (redirect_decodes lower_kept phoneRedirect).mp
        ⟨⟨phone.context, [], plainPage⟩, phoneRedirect_decodes, rfl⟩

/-- The same without OpenNDS: the blob is made up. -/
def madeUp : List WebEvent := [.fas (some phoneBlob), .connect guest phone]

/-- The first endpoint signs the made-up blob, and the second accepts it. -/
theorem made_up_accepted :
    FasController.handle shop toLowerCase (some phoneBlob) =
        .ok ⟨phoneIp, phoneMac, ['h'], phone.sig, [], []⟩ ∧
      GetsPast shop guest phone ∧ Unforged shop toLowerCase madeUp ∧
      ¬ Genuine shop toLowerCase madeUp := by
  have past : GetsPast shop guest phone := getsPast_iff.mpr (by decide)
  refine ⟨phoneBlob_signed, past, ?_, ?_⟩
  · intro before user dto after split _
    obtain _ | ⟨_, _ | ⟨_, before⟩⟩ := before <;> simp [madeUp] at split
    obtain ⟨rfl, ⟨rfl, rfl⟩, rfl⟩ := split
    exact ⟨phoneBlob, _, _, by simp, phoneBlob_signed, phoneBlob_decodes, rfl⟩
  · intro genuine
    obtain ⟨_, issued, _⟩ := genuine.connects [.fas (some phoneBlob)] guest phone [] rfl past
    simp at issued

end Cybera
