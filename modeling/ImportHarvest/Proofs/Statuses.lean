import ImportHarvest.Http
import ImportHarvest.Proofs.Granted
import ImportHarvest.Proofs.Pipeline
import ImportHarvest.Proofs.Utf8
/-!
Which answers of the web a run uses.

A client grants what a last answer below 400 brings, and refuses one from 400 on with a failure that names the address and
the status (`download_eq_ok`, `list_eq_ok`, `refuses_of_answer`). Where no answer says that a resource is elsewhere, each
call is one request (`exchange_of_stays`), and below 400 the status matters no further: an answer that is neither an error
nor a success is used like a success (`statuses_below_400_are_used`).
-/

namespace ImportHarvest

open Text

/-! ## What is made of an answer -/

namespace HttpResponse

/-- what an answer brings that is no error: nothing when it has no body, and otherwise all of its body -/
def content? (a : HttpResponse) : Option Octets := if a.hasNoBody then some [] else a.body

/-- the failure that an answer with an error status is -/
def failure (url : String) (a : HttpResponse) : Failure :=
  .transfer url ("HTTP " ++ decimal a.status ++ " " ++ a.reason)

/-- an answer below 400 that brings this content -/
def Brings (a : HttpResponse) (content : Octets) : Prop := a.status < 400 ∧ a.content? = some content

/-- the same answer, or two below 400 that bring the same -/
def SameUse (a b : Except String HttpResponse) : Prop :=
  a = b ∨ ∃ x y, a = .ok x ∧ b = .ok y ∧ x.status < 400 ∧ y.status < 400 ∧ x.content? = y.content?

end HttpResponse

/-! ## Webs that send no call on -/

namespace Web

/-- no answer says that a resource is elsewhere -/
def Stays (web : Web) : Prop := ∀ address a, web.answer address = .ok a → a.location = none

/-- where no resource is elsewhere, the answer to the first request is the last -/
theorem exchange_of_stays {web : Web} (h : web.Stays) (left : Nat) (authorization : Option String) (address : Address) :
    web.exchange (left + 1) authorization address =
      if (Url.webPorts.lookup address.scheme).isNone then ⟨[], .error "unknown scheme"⟩
      else ⟨[address.request authorization], web.answer address⟩ := by
  unfold exchange
  split
  · rfl
  · cases ha : web.answer address with
    | error detail => rfl
    | ok a =>
      dsimp only
      rw [h address a ha]
      cases a.isRedirect <;> rfl

end Web

namespace HttpClient

/-- the last answer to a call; none when nothing is sent, or nothing comes back -/
def answer? (c : HttpClient) (url : String) : Option HttpResponse := (c.call url).answer.toOption

/-- the client in a web that answers otherwise -/
def answering (c : HttpClient) (answer : Address → Except String HttpResponse) : HttpClient :=
  { c with web := { c.web with answer } }

section

variable {c : HttpClient} {url : String} {a : HttpResponse} {f : Failure} {request : Request}

theorem answer?_eq_some : c.answer? url = some a ↔ (c.call url).answer = .ok a := by
  unfold answer?
  cases (c.call url).answer <;> simp [Except.toOption]

/-- where no resource is elsewhere, the answer to a call is that to a request for the address that is called -/
theorem answer_of_stays (h : c.web.Stays) (ha : c.answer? url = some a) :
    ∃ address, c.web.read url = .ok address ∧ c.web.answer address = .ok a := by
  rw [answer?_eq_some, call] at ha
  split at ha
  · cases ha
  · rw [Web.call] at ha
    cases hr : c.web.read url with
    | error detail => rw [hr] at ha; cases ha
    | ok address =>
      rw [hr] at ha
      dsimp only at ha
      rw [Web.maxRedirects, Web.exchange_of_stays h] at ha
      split at ha
      · cases ha
      · exact ⟨address, rfl, ha⟩

theorem download_of_answer (h : c.answer? url = some a) : c.download url =
    if 400 ≤ a.status then .error (a.failure url)
    else match a.content? with
      | none => .error (.transfer url "response ended early")
      | some content => .ok content := by
  rw [download, get, answer?_eq_some.1 h]
  dsimp only
  split
  · rfl
  · dsimp only [bind, Except.bind, HttpResponse.content?]
    cases a.hasNoBody with
    | true => rfl
    | false => cases a.body <;> rfl

theorem download_of_no_answer (h : c.answer? url = none) :
    ∃ detail, c.download url = .error (.transfer url detail) := by
  rw [download, get]
  unfold answer? at h
  cases ha : (c.call url).answer with
  | ok a => rw [ha] at h; cases h
  | error detail => exact ⟨detail, rfl⟩

/-- a download succeeds with what an answer below 400 brings -/
theorem download_eq_ok {content : Octets} :
    c.download url = .ok content ↔ ∃ a, c.answer? url = some a ∧ a.Brings content := by
  constructor
  · intro h
    cases ha : c.answer? url with
    | none =>
      obtain ⟨detail, hd⟩ := download_of_no_answer ha
      cases h.symm.trans hd
    | some a =>
      rw [download_of_answer ha] at h
      by_cases hs : 400 ≤ a.status
      · rw [if_pos hs] at h
        cases h
      · rw [if_neg hs] at h
        cases hc : a.content? with
        | none => rw [hc] at h; cases h
        | some content' => rw [hc] at h; cases h; exact ⟨a, rfl, by omega, hc⟩
  · rintro ⟨a, ha, hs, hc⟩
    rw [download_of_answer ha, if_neg (by omega), hc]

/-- a listing is a download whose content lists entries -/
theorem list_eq : c.list url =
    match c.download url with
    | .error f => .error f
    | .ok body => match Entry.listOfBody? body with
      | none => .error (.transfer url "no listing")
      | some entries => .ok entries := by
  unfold list
  cases c.download url with
  | error f => rfl
  | ok body =>
    dsimp only [bind, Except.bind]
    cases Entry.listOfBody? body <;> rfl

/-- a listing succeeds with the entries in what an answer below 400 brings -/
theorem list_eq_ok {entries : List Entry} : c.list url = .ok entries ↔
    ∃ a body, c.answer? url = some a ∧ a.Brings body ∧ Entry.listOfBody? body = some entries := by
  rw [list_eq]
  constructor
  · intro h
    cases hd : c.download url with
    | error f => rw [hd] at h; cases h
    | ok body =>
      rw [hd] at h
      dsimp only at h
      obtain ⟨a, ha, hb⟩ := download_eq_ok.1 hd
      cases he : Entry.listOfBody? body with
      | none => rw [he] at h; cases h
      | some found => rw [he] at h; cases h; exact ⟨a, body, ha, hb, he⟩
  · rintro ⟨a, body, ha, hb, he⟩
    rw [download_eq_ok.2 ⟨a, ha, hb⟩]
    dsimp only
    rw [he]

/-- what is granted was answered below 400 -/
theorem answer_of_grants (h : c.api.Grants request) : ∃ a, c.answer? request.url = some a ∧ a.status < 400 := by
  cases request with
  | list url =>
    obtain ⟨entries, h⟩ := h
    obtain ⟨a, body, ha, hu, -⟩ := list_eq_ok.1 h
    exact ⟨a, ha, hu.1⟩
  | download url =>
    obtain ⟨content, h⟩ := h
    obtain ⟨a, ha, hu⟩ := download_eq_ok.1 h
    exact ⟨a, ha, hu.1⟩

theorem download_failure (h : c.download url = .error f) : ∃ detail, f = .transfer url detail := by
  cases ha : c.answer? url with
  | none =>
    obtain ⟨detail, hd⟩ := download_of_no_answer ha
    cases h.symm.trans hd
    exact ⟨detail, rfl⟩
  | some a =>
    rw [download_of_answer ha] at h
    split at h
    · cases h; exact ⟨_, rfl⟩
    · cases hc : a.content? with
      | none => rw [hc] at h; cases h; exact ⟨_, rfl⟩
      | some content => rw [hc] at h; cases h

/-- what is refused is refused with a failure that names its address -/
theorem failure_of_refuses (h : c.api.Refuses request f) : ∃ detail, f = .transfer request.url detail := by
  cases request with
  | download url => exact download_failure h
  | list url =>
    have hl : c.list url = .error f := h
    rw [list_eq] at hl
    cases hd : c.download url with
    | error g =>
      rw [hd] at hl
      cases hl
      exact download_failure hd
    | ok body =>
      rw [hd] at hl
      dsimp only at hl
      cases he : Entry.listOfBody? body with
      | none => rw [he] at hl; cases hl; exact ⟨_, rfl⟩
      | some entries => rw [he] at hl; cases hl

/-- an answer with an error status is refused as such, whatever was asked for -/
theorem refuses_of_answer (ha : c.answer? request.url = some a) (hs : 400 ≤ a.status) :
    c.api.Refuses request (a.failure request.url) := by
  have hd : c.download request.url = .error (a.failure request.url) := by rw [download_of_answer ha, if_pos hs]
  cases request with
  | download url => exact hd
  | list url =>
    have hl : c.list url = .error (a.failure url) := by
      rw [list_eq, show c.download url = .error (a.failure url) from hd]
    exact hl

/-- a listing is read from a download, so a client is the service that its downloads make it -/
theorem api_eq_of_download {c' : HttpClient} (h : c'.download = c.download) : c'.api = c.api := by
  have hl : c'.list = c.list := by
    funext url
    rw [list_eq, list_eq, h]
  rw [api, api, h, hl]

/-- where no resource is elsewhere, a call fails before its request, or it has the answer to that -/
theorem call_of_stays (url : String) :
    (∃ detail, ∀ answer, (c.answering answer).web.Stays → ((c.answering answer).call url).answer = .error detail) ∨
      ∃ address, ∀ answer, (c.answering answer).web.Stays →
        ((c.answering answer).call url).answer = answer address := by
  by_cases hfield : (c.authorization.any fun a => !a.toList.all isFieldChar) = true
  · refine .inl ⟨"no header field", fun answer _ => ?_⟩
    change (if (c.authorization.any fun a => !a.toList.all isFieldChar) = true then _ else _ : Exchange).answer = _
    rw [if_pos hfield]
  · have hcall (answer : Address → Except String HttpResponse) : (c.answering answer).call url =
        (c.answering answer).web.call c.authorization url := if_neg hfield
    cases hr : c.web.read url with
    | error detail =>
      refine .inl ⟨detail, fun answer _ => ?_⟩
      have hr' : (c.answering answer).web.read url = .error detail := hr
      rw [hcall, Web.call, hr']
    | ok address =>
      have hexchange (answer : Address → Except String HttpResponse) (h : (c.answering answer).web.Stays) :
          (c.answering answer).call url = if (Url.webPorts.lookup address.scheme).isNone then ⟨[], .error "unknown scheme"⟩
            else ⟨[address.request c.authorization], answer address⟩ := by
        have hr' : (c.answering answer).web.read url = .ok address := hr
        rw [hcall, Web.call, hr']
        exact Web.exchange_of_stays h _ _ _
      cases hscheme : (Url.webPorts.lookup address.scheme).isNone with
      | true => exact .inl ⟨"unknown scheme", fun answer h => by rw [hexchange answer h, hscheme]; rfl⟩
      | false => exact .inr ⟨address, fun answer h => by rw [hexchange answer h, hscheme]; rfl⟩

/-- webs whose answers are used alike, and send no call on, are the same to a client -/
theorem api_answering {answer : Address → Except String HttpResponse} (hs : c.web.Stays)
    (hs' : (c.answering answer).web.Stays) (h : ∀ address, HttpResponse.SameUse (c.web.answer address) (answer address)) :
    (c.answering answer).api = c.api := by
  refine api_eq_of_download ?_
  funext url
  rcases c.call_of_stays url with ⟨detail, hfails⟩ | ⟨address, hanswers⟩
  · have hx : (c.call url).answer = .error detail := hfails c.web.answer hs
    rw [download, download, get, get, hfails answer hs', hx]
  · have hx : (c.call url).answer = c.web.answer address := hanswers c.web.answer hs
    have hy := hanswers answer hs'
    rcases h address with he | ⟨x, y, hax, hay, hsx, hsy, hc⟩
    · rw [download, download, get, get, hx, hy, he]
    · rw [download_of_answer (answer?_eq_some.2 (hx.trans hax)), download_of_answer (answer?_eq_some.2 (hy.trans hay)),
        if_neg (by omega), if_neg (by omega), hc]

end

/-! ## Runs over the web -/

/-- a repository as the client sees it -/
def tree (c : HttpClient) (rootUrl : String) : RemoteTree := ⟨c.api, rootUrl⟩

/-- a record and its content as answers below 400 brought them: the record is of an entry in a listing, and the content
of a file that the filter wants is that of a download -/
structure Supplied (c : HttpClient) (filter : Filter) (used : List Request) (s : Sight) : Prop where
  listed : ∃ url a body entries rootPath e, .list url ∈ used ∧ c.answer? url = some a ∧ a.Brings body ∧
    Entry.listOfBody? body = some entries ∧ e ∈ entries ∧ s.1 = RemoteTree.record rootPath e
  downloaded : filter.wants s.1 = true →
    ∃ url a, s.1.content = .url url ∧ .download url ∈ used ∧ c.answer? url = some a ∧ a.Brings s.2

/-- what a run makes of the answers to its requests, wherever it stands: those that it used, and the one it failed on -/
structure Account (c : HttpClient) (filter : Filter) (seen : List Sight) (used last : List Request)
    (result? : Option (Except Failure RunStats)) : Prop where
  below : ∀ request ∈ used, ∃ a, c.answer? request.url = some a ∧ a.status < 400
  supplied : ∀ s ∈ seen, c.Supplied filter used s
  fatal : ∀ request ∈ used ++ last, ∀ a, c.answer? request.url = some a → 400 ≤ a.status →
    last = [request] ∧ result? = some (.error (a.failure request.url))
  ended : match result? with
    | some (.error f) => ∃ request detail, last = [request] ∧ f = .transfer request.url detail
    | _ => last = []

section

variable {c : HttpClient} {filter : Filter} {seen : List Sight} {used last : List Request}
  {result? : Option (Except Failure RunStats)}

theorem supplied_of_fetched {s : Sight} (h : RemoteTree.Fetched c.api filter used s) : c.Supplied filter used s where
  listed := by
    obtain ⟨rootPath, e, ⟨url, entries, hm, hl, he⟩, hr⟩ := h.listed
    obtain ⟨a, body, ha, hb, hbody⟩ := list_eq_ok.1 hl
    exact ⟨url, a, body, entries, rootPath, e, hm, ha, hb, hbody, he, hr⟩
  downloaded := by
    intro hw
    obtain ⟨url, hu, hm, hd⟩ := h.downloaded hw
    obtain ⟨a, ha, hb⟩ := download_eq_ok.1 hd
    exact ⟨url, a, hu, hm, ha, hb⟩

/-- a run that uses what the client's calls grant it -/
theorem account_of_uses (hg : ∀ request ∈ used, c.api.Grants request)
    (hs : ∀ s ∈ seen, RemoteTree.Fetched c.api filter used s)
    (hl : match result? with
      | some (.error f) => ∃ request, last = [request] ∧ c.api.Refuses request f
      | _ => last = []) :
    c.Account filter seen used last result? := by
  have hbelow : ∀ request ∈ used, ∃ a, c.answer? request.url = some a ∧ a.status < 400 :=
    fun request hr => answer_of_grants (hg request hr)
  -- an error status is none of a request that was used
  have hlast : ∀ request ∈ used ++ last, ∀ a, c.answer? request.url = some a → 400 ≤ a.status → request ∈ last := by
    intro request hr a ha hstatus
    rcases List.mem_append.1 hr with hr | hr
    · obtain ⟨a', ha', hs'⟩ := hbelow request hr
      obtain rfl : a = a' := Option.some_inj.1 (ha.symm.trans ha')
      omega
    · exact hr
  match result? with
  | some (.error f) =>
    obtain ⟨request, rfl, hr⟩ := hl
    obtain ⟨detail, hf⟩ := failure_of_refuses hr
    refine ⟨hbelow, fun s hmem => supplied_of_fetched (hs s hmem), ?_, request, detail, rfl, hf⟩
    intro request' hm a ha hstatus
    obtain rfl : request' = request := List.mem_singleton.1 (hlast request' hm a ha hstatus)
    have hr' := refuses_of_answer ha hstatus
    refine ⟨rfl, ?_⟩
    cases request' <;> rw [Except.error.inj (hr.symm.trans hr')]
  | some (.ok _) | none =>
    obtain rfl : last = [] := hl
    refine ⟨hbelow, fun s hmem => supplied_of_fetched (hs s hmem), ?_, rfl⟩
    exact fun request hm a ha hstatus => absurd (hlast request hm a ha hstatus) List.not_mem_nil

end

/-- **Every status below 400 is used.** A run that does not begin asks for nothing. Any other run, after any number of
steps, has made use of answers below 400 only: every record it saw is of an entry in a listing that came so, and its
artifact has the blocks of these records, with contents that came so. A call that is answered from 400 on is the last, and
the run ends with a failure that names the address and the status. Where no answer says that a resource is elsewhere, what
a call is answered is what the web answers to a request for its address, and below 400 the status makes no difference: a
web whose answers have other statuses there, and bring the same, leads to the same run. -/
theorem statuses_below_400_are_used (c : HttpClient) (rootUrl : String) (config : Config) (disk : Disk) (steps : Nat) :
    (((∀ filter place w, ¬ Begins config disk filter place w) ∧
        ∃ e, runPipeline steps (c.tree rootUrl).source config disk = some ⟨.error e, disk, [], []⟩) ∨
      ∃ filter place w seen used last result? q, Begins config disk filter place w ∧
        (Progress.start (c.tree rootUrl).source w).run filter steps = (result?, q) ∧
        runPipeline steps (c.tree rootUrl).source config disk =
          result?.map (fun result => conclude rootUrl config.outputPath (result, q.world)) ∧
        q.world.requests = used ++ last ∧ c.Account filter seen used last result? ∧
        q.world.output.settle.disk = disk.store place (utf8Of (blocks (selection filter seen)))) ∧
    (c.web.Stays →
      (∀ url a, c.answer? url = some a → ∃ address, c.web.read url = .ok address ∧ c.web.answer address = .ok a) ∧
      ∀ answer, (c.answering answer).web.Stays →
        (∀ address, HttpResponse.SameUse (c.web.answer address) (answer address)) →
        runPipeline steps ((c.answering answer).tree rootUrl).source config disk =
          runPipeline steps (c.tree rootUrl).source config disk) := by
  refine ⟨?_, fun hstays => ⟨fun url a ha => answer_of_stays hstays ha, ?_⟩⟩
  · rcases begins_or_fails config disk with ⟨filter, place, w, hb⟩ | ⟨hn, e, hfail⟩
    · obtain ⟨u, hu, hheld, hsettle⟩ := hb.exists_taking
      have hrequests : w.requests = [] := by
        obtain ⟨-, rfl⟩ := hb.start
        rfl
      obtain ⟨seen, used, last, result?, q, hrun, hr, hg, hs, ha, hh, hl⟩ :=
        (c.tree rootUrl).run_uses filter u w hu hrequests steps
      rw [hheld, List.nil_append] at hh
      refine .inr ⟨filter, place, w, seen, used, last, result?, q, hb, hrun, ?_, hr, account_of_uses hg hs hl,
        hsettle _ _ ha hh⟩
      rw [hb.runPipeline_eq, aggregate, hrun]
      cases result? <;> rfl
    · exact .inl ⟨hn, e, hfail _ _⟩
  · intro answer hstays' h
    rw [tree, api_answering hstays hstays' h, tree]

/-! A repository of one file, whose content comes with a status of the web's choice: with 302, which says that the file is
to be found elsewhere, but not where, what comes is taken for the file all the same. -/

def movedEntry : Entry := ⟨"file", "a.py", "a.py", some "http://git/raw/a.py", "http://git/list/a.py"⟩

def movedListing : Octets :=
  utf8Of ("[\x7b\"type\": \"file\", \"name\": \"a.py\", \"path\": \"a.py\", \"url\": \"http://git/list/a.py\", " ++
    "\"download_url\": \"http://git/raw/a.py\"\x7d]")

theorem movedListing_entries : Entry.listOfBody? movedListing = some [movedEntry] := by decide +kernel

/-- the listing, and the content of the file with this status -/
def movedAnswers (status : Nat) (reason : String) (address : Address) : Except String HttpResponse :=
  if address = ⟨"http", "git", "/list", "", ""⟩ then .ok ⟨200, "OK", some movedListing, none⟩
  else if address = ⟨"http", "git", "/raw/a.py", "", ""⟩ then .ok ⟨status, reason, some (utf8Of "import os\n"), none⟩
  else .error "no such server"

def movedClient : HttpClient := ⟨.answering (movedAnswers 302 "Found"), none⟩

theorem movedAnswers_stay (status : Nat) (reason : String) : (Web.answering (movedAnswers status reason)).Stays := by
  intro address a ha
  change movedAnswers status reason address = .ok a at ha
  unfold movedAnswers at ha
  split_ifs at ha <;> cases ha <;> rfl

theorem movedAnswers_sameUse (address : Address) :
    HttpResponse.SameUse (movedAnswers 302 "Found" address) (movedAnswers 200 "OK" address) := by
  unfold movedAnswers
  split_ifs
  · exact .inl rfl
  · exact .inr ⟨_, _, rfl, rfl, by decide, by decide, rfl⟩
  · exact .inl rfl

theorem movedClient_same_use :
    movedClient.web.Stays ∧ (movedClient.answering (movedAnswers 200 "OK")).web.Stays ∧
    (∀ address, HttpResponse.SameUse (movedClient.web.answer address) (movedAnswers 200 "OK" address)) ∧
    ∀ steps, runPipeline steps ((movedClient.answering (movedAnswers 200 "OK")).tree "http://git/list").source .standard
      .empty = runPipeline steps (movedClient.tree "http://git/list").source .standard .empty := by
  have hstays : movedClient.web.Stays := movedAnswers_stay 302 "Found"
  have hstays' : (movedClient.answering (movedAnswers 200 "OK")).web.Stays := movedAnswers_stay 200 "OK"
  exact ⟨hstays, hstays', movedAnswers_sameUse, fun steps =>
    ((statuses_below_400_are_used movedClient "http://git/list" .standard .empty steps).2 hstays).2 _ hstays'
      movedAnswers_sameUse⟩

def movedSeen : List Sight :=
  [(RemoteTree.fileRecord (some "") movedEntry "http://git/raw/a.py", utf8Of "import os\n")]

theorem movedClient_answers : movedClient.answer? "http://git/list" = some ⟨200, "OK", some movedListing, none⟩ ∧
    movedClient.answer? "http://git/raw/a.py" = some ⟨302, "Found", some (utf8Of "import os\n"), none⟩ := by
  constructor <;> decide +kernel

theorem movedClient_walk (w : World BufferedFile) :
    Walk (movedClient.tree "http://git/list").source pythonFilter w movedSeen .finished := by
  obtain ⟨hroot, hraw⟩ := movedClient_answers
  have hlist : movedClient.list "http://git/list" = .ok [movedEntry] :=
    list_eq_ok.2 ⟨_, _, hroot, ⟨by decide, rfl⟩, movedListing_entries⟩
  have hdownload : movedClient.download "http://git/raw/a.py" = .ok (utf8Of "import os\n") :=
    download_eq_ok.2 ⟨_, hraw, by decide, rfl⟩
  have hfetches : (movedClient.tree "http://git/list").Fetches pythonFilter movedSeen
      [.list "http://git/list", .download "http://git/raw/a.py"] .finished :=
    .listed hlist (.downloaded rfl rfl (by decide) hdownload .nil)
  obtain ⟨c₁, w₁, c₂, w₂, hg, he, -⟩ := RemoteTree.walk_of_fetches hfetches w
  exact ⟨c₁, w₁, c₂, w₂, hg, he⟩

/-- a run takes content that did not come with a success -/
theorem movedClient_takes_302 :
    movedClient.web.Stays ∧
    movedClient.web.read "http://git/raw/a.py" = .ok ⟨"http", "git", "/raw/a.py", "", ""⟩ ∧
    (∃ a, movedClient.web.answer ⟨"http", "git", "/raw/a.py", "", ""⟩ = .ok a ∧ a.status = 302) ∧
    ∃ run outcome, runPipeline 2 (movedClient.tree "http://git/list").source .standard .empty = some run ∧
      run.result = .ok outcome ∧
      run.disk.read "concatenated_files.txt" = .ok (utf8Of "# ---\n# Filename: a.py\n# ---\n\nimport os\n\n\n") := by
  have hb : Begins .standard .empty pythonFilter ["concatenated_files.txt"]
      { output := ⟨Disk.empty.put ["concatenated_files.txt"] (.file []), ["concatenated_files.txt"], []⟩ } :=
    ⟨rfl, _, rfl, rfl⟩
  have hfile : Disk.empty.FilePlace ["concatenated_files.txt"] := Disk.filePlace_top (.inl rfl)
  obtain ⟨run, hr, hd, -, outcome, hok, -⟩ := runPipeline_of_walk hb (movedClient_walk _) (show 1 < 2 by decide)
  refine ⟨movedAnswers_stay 302 "Found", by decide +kernel, ⟨_, rfl, rfl⟩, run, outcome, hr, hok, ?_⟩
  have hbody : bodyOf (RemoteTree.fileRecord (some "") movedEntry "http://git/raw/a.py") (utf8Of "import os\n") =
      some "import os\n" := by
    rw [bodyOf, if_neg (by decide), decode_utf8Of (by decide)]
  rw [hd, movedSeen, selection_of_wanted (by decide), hbody]
  refine (hb.read _).trans ?_
  rw [Disk.kept_of_filePlace hfile]
  rfl

end HttpClient

end ImportHarvest
