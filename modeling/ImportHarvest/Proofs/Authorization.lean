import ImportHarvest.Proofs.Statuses
import ImportHarvest.Proofs.Trimmed
import ImportHarvest.Selection
/-!
Where a token goes.

What authorizes a call stands in its first request only (`Web.exchange_some`): the requests that follow where a resource
is elsewhere are made without it, and the web answers without a look at it. So a client with a token that can be sent
makes the calls of a client without one, each with the token in the authorization field of its first request
(`call_of_sendable`), and it is the same service (`api_of_answers`): neither two tokens nor their absence can be told apart
by what a run comes to. Each client is held against the one without a token, and the two of `token_only_in_authorization`
against each other by way of it. A token that is missing or blank adds no field to a request (`call_of_blank`).
-/

namespace ImportHarvest

open Text

/-- the request with this in its authorization field -/
def HttpRequest.authorizedBy (authorization : Option String) (r : HttpRequest) : HttpRequest := { r with authorization }

/-- the requests with this in the authorization field of the first -/
def authorizeFirst (authorization : Option String) (requests : List HttpRequest) : List HttpRequest :=
  requests.modifyHead (.authorizedBy authorization)

/-- but for their authorization field, they are the same requests -/
theorem map_authorizedBy_authorizeFirst (authorization other : Option String) (requests : List HttpRequest) :
    (authorizeFirst authorization requests).map (HttpRequest.authorizedBy other) = requests.map (HttpRequest.authorizedBy other) := by
  cases requests <;> rfl

/-! ## Calls of the web -/

namespace Web

variable (web : Web) (left : Nat) (address : Address)

/-- a call sends nothing, or it ends with the answer to its first request, or it goes on as a call of another address that
nothing authorizes; which of these it is has nothing to do with what authorizes it -/
theorem exchange_cases :
    (∃ detail, ∀ authorization, web.exchange left authorization address = ⟨[], .error detail⟩) ∨
    (∃ answer, ∀ authorization, web.exchange left authorization address = ⟨[address.request authorization], answer⟩) ∨
    ∃ fewer next, left = fewer + 1 ∧ ∀ authorization, web.exchange left authorization address =
      ⟨address.request authorization :: (web.exchange fewer none next).sent, (web.exchange fewer none next).answer⟩ := by
  unfold exchange
  split
  · exact .inl ⟨_, fun _ => rfl⟩
  · cases web.answer address with
    | error detail => exact .inr (.inl ⟨_, fun _ => rfl⟩)
    | ok a =>
      dsimp only
      split
      · exact .inr (.inl ⟨_, fun _ => rfl⟩)
      · cases left with
        | zero => exact .inr (.inl ⟨_, fun _ => rfl⟩)
        | succ left =>
          cases a.location with
          | none => exact .inr (.inl ⟨_, fun _ => rfl⟩)
          | some location =>
            dsimp only
            cases web.readFrom address location with
            | error detail => exact .inr (.inl ⟨_, fun _ => rfl⟩)
            | ok next =>
              dsimp only
              split
              · exact .inr (.inr ⟨left, next, rfl, fun _ => by rw [exchange]⟩)
              · exact .inr (.inl ⟨_, fun _ => rfl⟩)

/-- what authorizes a call stands in its first request, and makes no difference to the rest of it -/
theorem exchange_some (authorization : String) : web.exchange left (some authorization) address =
    ⟨authorizeFirst (some (trimmed authorization)) (web.exchange left none address).sent,
      (web.exchange left none address).answer⟩ := by
  rcases exchange_cases web left address with ⟨_, h⟩ | ⟨_, h⟩ | ⟨_, _, _, h⟩
  all_goals
    rw [h, h]
    rfl

/-- the requests of a call that nothing authorizes are those for some addresses, as each of them has it -/
theorem requests_of_exchange : ∀ r ∈ (web.exchange left none address).sent, ∃ a : Address, r = a.request none := by
  induction left using Nat.strongRecOn generalizing address with
  | ind left ih =>
    rcases exchange_cases web left address with ⟨_, h⟩ | ⟨_, h⟩ | ⟨fewer, next, rfl, h⟩
    · rw [h]
      exact List.forall_mem_nil _
    · rw [h]
      exact List.forall_mem_singleton.2 ⟨address, rfl⟩
    · rw [h]
      exact List.forall_mem_cons.2 ⟨⟨address, rfl⟩, ih fewer (Nat.lt_succ_self fewer) next⟩

end Web

namespace HttpClient

/-! ## Calls of a client -/

/-- a token that goes with calls: more than blanks, and fit to stand in a header field -/
structure Sendable (token : String) : Prop where
  notBlank : isAllBlank token = false
  fieldChars : ∀ c ∈ token.toList, isFieldChar c = true

instance (token : String) : Decidable (Sendable token) :=
  decidable_of_iff (isAllBlank token = false ∧ token.toList.all isFieldChar = true)
    ⟨fun h => ⟨h.1, List.all_eq_true.1 h.2⟩, fun h => ⟨h.notBlank, List.all_eq_true.2 h.fieldChars⟩⟩

/-- what a token stands in the field as: behind the word `token`, without the blanks at its end -/
def tokenField (token : String) : String := "token " ++ String.ofList (trimEnd token.toList)

/-- the client without a token -/
def anonymous (web : Web) : HttpClient := ⟨web, none⟩

section

variable {web : Web} {token : Option String} {t : String} {url : String}

theorem trimmed_token (h : isAllBlank t = false) : trimmed ("token " ++ t) = tokenField t := by
  obtain ⟨c, hc, hblank⟩ := List.all_eq_false.1 h
  obtain ⟨before, after, ht⟩ := List.append_of_mem hc
  have hword : ("token ".toList ++ t.toList).dropWhile isBlank = "token ".toList ++ t.toList := rfl
  -- nothing is taken off beyond a character that is no blank
  have htrim : trimEnd ("token ".toList ++ t.toList) = "token ".toList ++ trimEnd t.toList := by
    rw [ht, ← List.append_assoc, trimEnd_append_cons (Bool.eq_false_iff.2 hblank), List.append_assoc,
      trimEnd_append_cons (Bool.eq_false_iff.2 hblank)]
  rw [trimmed, trim, String.toList_append, hword, htrim, String.ofList_append, String.ofList_toList, tokenField]

theorem authorization_of_sendable (h : Sendable t) :
    (HttpClient.mk web (some t)).authorization = some ("token " ++ t) := by
  rw [authorization, Option.filter_some, h.notBlank]
  rfl

theorem authorization_of_blank (h : ∀ t ∈ token, isAllBlank t = true) :
    (HttpClient.mk web token).authorization = none := by
  cases token with
  | none => rfl
  | some t =>
    rw [authorization, Option.filter_some, h t rfl]
    rfl

theorem call_of_authorization (c : HttpClient) (h : ∀ a ∈ c.authorization, ∀ x ∈ a.toList, isFieldChar x = true) :
    c.call url = c.web.call c.authorization url := by
  refine if_neg ?_
  cases ha : c.authorization with
  | none => simp
  | some a => simpa using h a ha

/-- a call without a token -/
theorem call_of_blank (h : ∀ t ∈ token, isAllBlank t = true) :
    (HttpClient.mk web token).call url = web.call none url := by
  have ha : (HttpClient.mk web token).authorization = none := authorization_of_blank h
  rw [call_of_authorization _ (by simp [ha]), ha]

/-- a call with a token is that without one, but for the authorization field of its first request -/
theorem call_of_sendable (h : Sendable t) : (HttpClient.mk web (some t)).call url =
    ⟨authorizeFirst (some (tokenField t)) ((anonymous web).call url).sent, ((anonymous web).call url).answer⟩ := by
  have ha : (HttpClient.mk web (some t)).authorization = some ("token " ++ t) := authorization_of_sendable h
  have hfield : ∀ a ∈ (HttpClient.mk web (some t)).authorization, ∀ x ∈ a.toList, isFieldChar x = true := by
    rw [ha]
    rintro _ ⟨⟩ x hx
    rw [String.toList_append, List.mem_append] at hx
    rcases hx with hx | hx
    · have hword : "token ".toList.all isFieldChar = true := by decide
      exact List.all_eq_true.1 hword x hx
    · exact h.fieldChars x hx
  have hanonymous : (anonymous web).call url = web.call none url := call_of_blank (by simp)
  rw [call_of_authorization _ hfield, ha, hanonymous, Web.call, Web.call]
  cases web.read url with
  | error detail => rfl
  | ok address =>
    dsimp only
    rw [Web.exchange_some, trimmed_token h.notBlank]

/-- clients whose calls are answered alike are the same service -/
theorem api_of_answers {c c' : HttpClient} (h : ∀ url, (c.call url).answer = (c'.call url).answer) : c.api = c'.api := by
  refine api_eq_of_download ?_
  funext url
  rw [download, download, get, get, h]

/-- the requests for some calls, each call with this in the authorization field of its first request, are the same but
for that field -/
theorem sent_of_sendable (h : Sendable t) (calls : List Request) :
    ((HttpClient.mk web (some t)).sent calls).map (HttpRequest.authorizedBy none) =
      ((anonymous web).sent calls).map (HttpRequest.authorizedBy none) := by
  simp only [sent, List.map_flatMap, call_of_sendable h, map_authorizedBy_authorizeFirst]

end

end HttpClient

/-! ## Settings that differ in their token -/

/-- the settings with this token -/
def Config.withToken (c : Config) (token : Option String) : Config := { c with token }

namespace HttpClient

/-- the client that these settings give -/
def ofConfig (web : Web) (config : Config) : HttpClient := ⟨web, config.token⟩

@[simp] theorem ofConfig_withToken (web : Web) (config : Config) (token : Option String) :
    ofConfig web (config.withToken token) = ⟨web, token⟩ := rfl

theorem tree_of_sendable {web : Web} {config : Config} {t : String} (h : Sendable t) (rootUrl : String) :
    (ofConfig web (config.withToken (some t))).tree rootUrl = (anonymous web).tree rootUrl := by
  have hanswers : ∀ url, ((ofConfig web (config.withToken (some t))).call url).answer =
      ((anonymous web).call url).answer := by
    intro url
    rw [ofConfig_withToken, call_of_sendable h]
  exact congrArg (RemoteTree.mk · rootUrl) (api_of_answers hanswers)

/-- a run looks at no token: it stands in the requests of its source -/
theorem runPipeline_withToken (config : Config) (token : Option String) (steps : Nat) (source : TreeSource BufferedFile)
    (disk : Disk) : runPipeline steps source (config.withToken token) disk = runPipeline steps source config disk := rfl

/-- the listing, the answer that sends a call on, and the content of the file, whoever asks for them -/
def tokenAnswers (address : Address) : Except String HttpResponse :=
  if (address.server, address.target) = ("git", "/list") then .ok ⟨200, "OK", some movedListing, none⟩
  else if (address.server, address.target) = ("git", "/raw/a.py") then
    .ok ⟨302, "Found", some [], some "http://files/a.py"⟩
  else if (address.server, address.target) = ("files", "/a.py") then .ok ⟨200, "OK", some (utf8Of "import os\n"), none⟩
  else .error "no such server"

def tokenWeb : Web := .answering tokenAnswers

/-- a run with this token over the listing at this address: the requests that it sends, and whether it succeeds -/
def tokenRun (token : Option String) (rootUrl : String) : Option (List HttpRequest × Bool) :=
  let client := ofConfig tokenWeb (Config.standard.withToken token)
  (runPipeline 2 (client.tree rootUrl).source (Config.standard.withToken token) .empty).map fun run =>
    (client.sent run.requests, run.result.toOption.isSome)

/-- a request that the file takes, with this in its authorization field -/
def tokenRequest (origin target : String) (authorization : Option String) : HttpRequest :=
  ⟨origin, target, "application/vnd.github+json", "pipmyride/0.1.0", authorization⟩

end HttpClient

end ImportHarvest
