import GwsMigrator.GraphClient

/-! What the retries of the Graph client leave at the destination when the network loses answers
to requests that were carried out. -/
namespace GwsMigrator.GraphClient
open Retries

/-- A network: the fate of the n-th request that goes out, what the client gets instead of an
answer, and what the token provider says the n-th time it is asked. -/
structure Network where
  fate : ℕ → Fate
  failure : ℕ → Except TransportError Response
  failing : ∀ n response, failure n = .ok response → response.isSuccess = false
  token : ℕ → Except String String

/-- The server with what has gone over the line. `unheard` counts what was made by requests whose
answers were lost. -/
structure Line (ω : Type) where
  server : ω
  sent : ℕ := 0
  asked : ℕ := 0
  unheard : ℕ := 0

variable {ω : Type} (carry : HttpRequest → ω → Response × ω) (made : ω → ℕ) (network : Network)

/-- One request over the line. -/
def Line.send (request : HttpRequest) (l : Line ω) : Except TransportError Response × Line ω :=
  let carried := carry request l.server
  match network.fate l.sent with
  | .refused => (network.failure l.sent, { l with sent := l.sent + 1 })
  | .lost =>
    (network.failure l.sent,
      { l with
        server := carried.2
        sent := l.sent + 1
        unheard := l.unheard + (made carried.2 - made l.server) })
  | .answered => (.ok carried.1, { l with server := carried.2, sent := l.sent + 1 })

def Network.outside : Outside (Line ω) where
  getToken l := (network.token l.asked, { l with asked := l.asked + 1 })
  send := Line.send carry made network

/-- A request of `args` that is carried out with success makes `k`, and any other makes nothing. -/
def Makes (args : Arguments) (k : ℕ) : Prop :=
  ∀ token w, made (carry (args.request token) w).2 =
    made w + if (carry (args.request token) w).1.isSuccess then k else 0

variable {carry made network} {args : Arguments} {settings : Settings} {k : ℕ}

@[simp] theorem applyRateLimits_net (userKey : Option String) (s : ClientState (Line ω)) :
    (applyRateLimits settings userKey s).net = s.net := by
  unfold applyRateLimits
  rcases userKey with _ | key
  · simp only
    split <;> rfl
  · simp only
    split <;> split <;> rfl

@[simp] theorem pause_net (e : ClientError) (n : ℕ) (s : ClientState (Line ω)) :
    ((retryPolicy settings).pause e n s).net = s.net := by
  simp only [retryPolicy, redial]
  cases throttle e <;> rfl

variable (network) in
/-- A failing answer is raised. -/
theorem received_failure (n : ℕ) : ∃ e, received (network.failure n) = .error e := by
  cases h : network.failure n with
  | error e => exact ⟨_, rfl⟩
  | ok response => exact ⟨.status response, by simp [received, network.failing n response h]⟩

variable (network) in
/-- What one request makes is unheard of, unless it returns. -/
theorem sendRequest_made (hmakes : Makes carry made args k) (token : Option String)
    (s : ClientState (Line ω)) :
    let r := sendRequest (network.outside carry made) args token s
    made r.2.net.server + s.net.unheard =
      made s.net.server + r.2.net.unheard + k * returnedCount r.1 := by
  have hone := hmakes token s.net.server
  obtain ⟨e, he⟩ := received_failure network s.net.sent
  simp only [sendRequest, Network.outside, Line.send, ClientState.record_net]
  cases network.fate s.net.sent with
  | refused =>
    simp only [he, returnedCount]
    omega
  | lost =>
    simp only [he, returnedCount]
    omega
  | answered =>
    by_cases hsuccess : (carry (args.request token) s.net.server).1.isSuccess = true
    · simp only [hsuccess, received, if_true, returnedCount] at hone ⊢
      omega
    · simp only [hsuccess, received, returnedCount, Bool.false_eq_true, if_false] at hone ⊢
      omega

theorem attempt_made (hmakes : Makes carry made args k) (s : ClientState (Line ω)) :
    let r := attempt settings (network.outside carry made) args s
    made r.2.net.server + s.net.unheard =
      made s.net.server + r.2.net.unheard + k * returnedCount r.1 := by
  have hsent := fun token s => sendRequest_made network hmakes token s
  simp only [attempt]
  split
  · cases htoken : network.token s.net.asked with
    | error text =>
      simp only [Network.outside, applyRateLimits_net, htoken, returnedCount]
      omega
    | ok token =>
      have hone := hsent (some token)
        { applyRateLimits settings args.userKey s with
          net := { s.net with asked := s.net.asked + 1 } }
      simp only [Network.outside, applyRateLimits_net, htoken]
      exact hone
  · have hone := hsent none (applyRateLimits settings args.userKey s)
    rw [applyRateLimits_net] at hone
    exact hone

variable (settings network) in
/-- What a call of `_request` makes is unheard of, but for what it makes when it returns. -/
theorem request_made (t : Tenacity) (hmakes : Makes carry made args k)
    (s : ClientState (Line ω)) :
    let r := request t settings (network.outside carry made) args s
    made r.2.net.server + s.net.unheard =
      made s.net.server + r.2.net.unheard + k * returnedCount r.1 := by
  obtain ⟨starts, hretried⟩ := t.retry_documented (retryPolicy settings)
    (attempt settings (network.outside carry made) args) s
  exact hretried.counts (fun s => made s.net.server) (fun s => s.net.unheard) k
    (attempt_made hmakes) (fun e n s => by simp only [pause_net, and_self])

theorem attempt_unheard_le (s : ClientState (Line ω)) :
    s.net.unheard ≤ (attempt settings (network.outside carry made) args s).2.net.unheard := by
  have hsent : ∀ token (s : ClientState (Line ω)), s.net.unheard ≤
      (sendRequest (network.outside carry made) args token s).2.net.unheard := by
    intro token s
    simp only [sendRequest, Network.outside, Line.send, ClientState.record_net]
    cases network.fate s.net.sent <;> simp
  simp only [attempt]
  split
  · cases htoken : network.token s.net.asked with
    | error text => simp [Network.outside, htoken]
    | ok token =>
      have hone := hsent (some token)
        { applyRateLimits settings args.userKey s with
          net := { s.net with asked := s.net.asked + 1 } }
      simpa only [Network.outside, applyRateLimits_net, htoken] using hone
  · have hone := hsent none (applyRateLimits settings args.userKey s)
    rwa [applyRateLimits_net] at hone

theorem request_unheard_le (t : Tenacity) (s : ClientState (Line ω)) : s.net.unheard ≤
    (request t settings (network.outside carry made) args s).2.net.unheard := by
  obtain ⟨starts, hretried⟩ := t.retry_documented (retryPolicy settings)
    (attempt settings (network.outside carry made) args) s
  exact (hretried.invariant (fun s' => s.net.unheard ≤ s'.net.unheard)
    (fun s' h => h.trans (attempt_unheard_le s'))
    (fun e n s' h => by rwa [pause_net]) (le_refl _)).1

/-- Over a session of creating requests the server makes one thing for every call that returns and
one for every answer that is lost, so that creating is exact when and only when none is lost. -/
theorem session_made (t : Tenacity) (settings : Settings) (network : Network)
    (carry : HttpRequest → ω → Response × ω) (made : ω → ℕ) (calls : List Arguments)
    (hmakes : ∀ args ∈ calls, Makes carry made args 1) (s : ClientState (Line ω)) :
    let r := session t settings (network.outside carry made) calls s
    let returned := (r.1.map returnedCount).sum
    made r.2.net.server + s.net.unheard = made s.net.server + r.2.net.unheard + returned ∧
      (made r.2.net.server = made s.net.server + returned ↔
        r.2.net.unheard = s.net.unheard) := by
  intro r returned
  have hall : made r.2.net.server + s.net.unheard =
      made s.net.server + r.2.net.unheard + returned := by
    simp only [r, returned]
    clear r returned
    induction calls generalizing s with
    | nil => simp [session]
    | cons args calls ih =>
      have hone := request_made network settings t
        (hmakes args List.mem_cons_self) s
      have hrest := ih (fun a ha => hmakes a (List.mem_cons_of_mem _ ha))
        (request t settings (network.outside carry made) args s).2
      simp only [session, List.map_cons, List.sum_cons]
      simp only [one_mul] at hone
      omega
  exact ⟨hall, by omega⟩

/-- A network that loses the answer to the first request. -/
def losesFirst : Network where
  fate n := if n = 0 then .lost else .answered
  failure _ := .error ⟨.remoteProtocol, "Server disconnected"⟩
  failing _ _ h := by cases h
  token _ := .ok "token"

/-- A server that makes one thing for each request. -/
def makesOne (_ : HttpRequest) (n : ℕ) : Response × ℕ := ({ status := 201 }, n + 1)

/-- A message that is posted once over it and returned once is there twice. -/
theorem session_made_twice :
    let settings : Settings := ⟨false, false, Tenacity.plain.backoff⟩
    let args : Arguments := { method := .post, url := graphBase ++ "/users/u/messages" }
    let r := session Tenacity.plain settings (losesFirst.outside makesOne id) [args]
      { net := { server := 0 } }
    r.2.net.server = 2 ∧ (r.1.map returnedCount).sum = 1 ∧ r.2.net.unheard = 1 ∧
      ¬ r.2.net.server = 0 + 1 := by
  intro settings args r
  have hmade := session_made Tenacity.plain settings losesFirst makesOne id [args]
    (fun a _ token w => rfl) { net := { server := 0 } }
  have hreturned : (r.1.map returnedCount).sum = 1 := by decide
  have hunheard : r.2.net.unheard = 1 := by decide
  refine ⟨by decide, hreturned, hunheard, fun hserver => ?_⟩
  have hexact : id r.2.net.server = id 0 + (r.1.map returnedCount).sum := by
    rw [hreturned]
    exact hserver
  have hnone : r.2.net.unheard = 0 := hmade.2.mp hexact
  omega

/-! Deletions, which are answered 404 when they are repeated. -/

/-- The DELETE of `delete_event`. -/
def eventDeletion (msUserId eventId : String) : Arguments where
  method := .delete
  url := graphBase ++ s!"/users/{msUserId}/events/{eventId}"
  userKey := msUserId

/-- The DELETE of `delete_contact`. -/
def contactDeletion (msUserId contactId : String) : Arguments where
  method := .delete
  url := graphBase ++ s!"/users/{msUserId}/contacts/{contactId}"
  userKey := msUserId

variable {ν : Type} (t : Tenacity) (outside : Outside ν)

/-- `delete_event`. -/
def deleteEvent (settings : Settings) (msUserId eventId : String) (s : ClientState ν) :
    Except ClientError Unit × ClientState ν :=
  let r := request t settings outside (eventDeletion msUserId eventId) s
  (r.1.map (fun _ => ()), r.2)

/-- The `except` of `delete_contact`, for which a contact that is gone is deleted. -/
def contactDeleted : Except ClientError Response → Except ClientError Unit
  | .ok _ => .ok ()
  | .error (.status response) =>
    if response.status = 404 then .ok () else .error (.status response)
  | .error e => .error e

/-- `delete_contact`. -/
def deleteContact (settings : Settings) (msUserId contactId : String) (s : ClientState ν) :
    Except ClientError Unit × ClientState ν :=
  let r := request t settings outside (contactDeletion msUserId contactId) s
  (contactDeleted r.1, r.2)

theorem contactDeleted_cases (answer : Except ClientError Response) :
    (contactDeleted answer = .ok () ∧ ((∃ response, answer = .ok response) ∨
        ∃ response, answer = .error (.status response) ∧ response.status = 404)) ∨
      ∃ e, contactDeleted answer = .error e ∧
        ∀ response, e = .status response → response.status ≠ 404 := by
  rcases answer with (response | e | text) | response
  · by_cases h : response.status = 404
    · exact Or.inl ⟨if_pos h, Or.inr ⟨response, rfl, h⟩⟩
    · refine Or.inr ⟨_, if_neg h, fun response' he => ?_⟩
      obtain rfl := ClientError.status.inj he
      exact h
  · exact Or.inr ⟨.transport e, rfl, fun _ he => by cases he⟩
  · exact Or.inr ⟨.other text, rfl, fun _ he => by cases he⟩
  · exact Or.inl ⟨rfl, Or.inl ⟨response, rfl⟩⟩

/-- The server has an item until a request of `args` deletes it, and answers 404 after that. -/
structure Deletes (carry : HttpRequest → ω → Response × ω) (here : ω → Bool) (args : Arguments) :
    Prop where
  deleted : ∀ token w, here w = true →
    (carry (args.request token) w).1.isSuccess = true ∧
      here (carry (args.request token) w).2 = false
  gone : ∀ token w, here w = false →
    (carry (args.request token) w).1.status = 404 ∧
      here (carry (args.request token) w).2 = false

/-- 1 once the item is gone. -/
def goneCount (here : ω → Bool) (w : ω) : ℕ := if here w then 0 else 1

theorem Response.not_isSuccess_of_status {response : Response} {status : ℕ}
    (h : response.status = status) (hstatus : ¬ (200 ≤ status ∧ status < 300)) :
    response.isSuccess = false := by
  simp only [Response.isSuccess, h, decide_eq_false_iff_not]
  exact hstatus

variable {here : ω → Bool}

theorem Deletes.makes (h : Deletes carry here args) : Makes carry (goneCount here) args 1 := by
  intro token w
  cases hhere : here w with
  | true =>
    obtain ⟨hsuccess, hgone⟩ := h.deleted token w hhere
    simp [goneCount, hhere, hsuccess, hgone]
  | false =>
    obtain ⟨hstatus, hgone⟩ := h.gone token w hhere
    have hfailed := Response.not_isSuccess_of_status hstatus (by omega)
    simp [goneCount, hhere, hfailed, hgone]

/-- An attempt that is answered 404 finds the item gone. -/
theorem attempt_gone (h : Deletes carry here args)
    (hfailure : ∀ n response, network.failure n = .ok response → response.status ≠ 404)
    {s s' : ClientState (Line ω)} {response : Response} (hstatus : response.status = 404)
    (htried : attempt settings (network.outside carry (goneCount here)) args s =
      (.error (.status response), s')) : here s'.net.server = false := by
  have hsent : ∀ token s, sendRequest (network.outside carry (goneCount here)) args token s =
      (.error (.status response), s') → here s'.net.server = false := by
    intro token s hs
    simp only [sendRequest, Network.outside, Line.send] at hs
    obtain ⟨hreceived, rfl⟩ := Prod.mk.inj hs
    simp only [ClientState.record_net]
    cases hfate : network.fate s.net.sent with
    | refused | lost =>
      simp only [hfate] at hreceived
      cases hanswer : network.failure s.net.sent with
      | error e => simp [hanswer, received] at hreceived
      | ok r =>
        simp only [hanswer, received, network.failing _ r hanswer, Bool.false_eq_true, if_false]
          at hreceived
        obtain rfl := ClientError.status.inj (Except.error.inj hreceived)
        exact absurd hstatus (hfailure _ _ hanswer)
    | answered =>
      simp only
      cases hhere : here s.net.server with
      | true => exact (h.deleted token _ hhere).2
      | false => exact (h.gone token _ hhere).2
  simp only [attempt] at htried
  split at htried
  · split at htried
    · cases htried
    · exact hsent _ _ htried
  · exact hsent _ _ htried

variable (settings) in
/-- How the deletion of an item ends that is there: it returns, or the answer to the attempt that
deleted the item was lost, or the item is still there and no attempt was answered 404. -/
theorem request_deletes (h : Deletes carry here args)
    (hfailure : ∀ n response, network.failure n = .ok response → response.status ≠ 404)
    (s : ClientState (Line ω)) (hhere : here s.net.server = true) :
    let r := request t settings (network.outside carry (goneCount here)) args s
    (∃ response, r.1 = .ok response ∧ here r.2.net.server = false ∧
        r.2.net.unheard = s.net.unheard) ∨
      (∃ e, r.1 = .error e ∧ here r.2.net.server = false ∧
        r.2.net.unheard = s.net.unheard + 1) ∨
      ∃ e, r.1 = .error e ∧ here r.2.net.server = true ∧ r.2.net.unheard = s.net.unheard ∧
        ∀ response, e = .status response → response.status ≠ 404 := by
  intro r
  have hmade := request_made network settings t h.makes s
  obtain ⟨starts, hretried⟩ := t.retry_documented (retryPolicy settings)
    (attempt settings (network.outside carry (goneCount here)) args) s
  obtain ⟨-, last, -, hlast, -⟩ := hretried.last
  change attempt settings _ args last = (r.1, r.2) at hlast
  change goneCount here r.2.net.server + s.net.unheard = goneCount here s.net.server +
    r.2.net.unheard + 1 * returnedCount r.1 at hmade
  simp only [goneCount, hhere, if_true] at hmade
  cases hresult : r.1 with
  | ok response =>
    simp only [hresult, returnedCount] at hmade
    refine Or.inl ⟨response, rfl, ?_⟩
    have hle : s.net.unheard ≤ r.2.net.unheard := request_unheard_le t s
    split at hmade
    · omega
    · next hgone => exact ⟨by simpa using hgone, by omega⟩
  | error e =>
    simp only [hresult, returnedCount] at hmade
    right
    split at hmade
    · next hstill =>
      refine Or.inr ⟨e, rfl, hstill, by omega, fun response he hstatus => ?_⟩
      rw [hresult, he] at hlast
      have hgone := attempt_gone h hfailure hstatus hlast
      rw [hstill] at hgone
      exact absurd hgone (by simp)
    · next hgone => exact Or.inl ⟨e, rfl, by simpa using hgone, by omega⟩

/-- The deletion of a contact that is there never fails with 404, and when it returns the contact
is gone. That of an event fails with 404 only when the event has been deleted and the answer to
that was lost, so that the calendar job takes a deletion for failed that the contacts job takes for
done. -/
theorem deletions_over_line (t : Tenacity) (settings : Settings) (network : Network)
    (hfailure : ∀ n response, network.failure n = .ok response → response.status ≠ 404)
    (carry : HttpRequest → ω → Response × ω) (here : ω → Bool) (msUserId itemId : String)
    (hcontact : Deletes carry here (contactDeletion msUserId itemId))
    (hevent : Deletes carry here (eventDeletion msUserId itemId))
    (s : ClientState (Line ω)) (hhere : here s.net.server = true) :
    let outside := network.outside carry (goneCount here)
    let contact := deleteContact t outside settings msUserId itemId s
    let event := deleteEvent t outside settings msUserId itemId s
    (contact.1 = .ok () → here contact.2.net.server = false) ∧
      (∀ response, contact.1 = .error (.status response) → response.status ≠ 404) ∧
      (event.1 = .ok () → here event.2.net.server = false ∧
        event.2.net.unheard = s.net.unheard) ∧
      ∀ response, event.1 = .error (.status response) → response.status = 404 →
        here event.2.net.server = false ∧ event.2.net.unheard = s.net.unheard + 1 := by
  intro outside contact event
  have hc := request_deletes settings t hcontact hfailure s hhere
  have he := request_deletes settings t hevent hfailure s hhere
  refine ⟨fun hok => ?_, fun response herror => ?_, fun hok => ?_, fun response herror hstatus => ?_⟩
  · change contactDeleted (request t settings outside _ s).1 = .ok () at hok
    change here (request t settings outside _ s).2.net.server = false
    rcases hc with ⟨-, -, hgone, -⟩ | ⟨-, -, hgone, -⟩ | ⟨e, hr, -, -, hnot⟩
    · exact hgone
    · exact hgone
    · -- an item that is still there made the call raise something else than 404
      rcases contactDeleted_cases (request t settings outside _ s).1 with
        ⟨-, ⟨response, hanswer⟩ | ⟨response, hanswer, hstatus⟩⟩ | ⟨e', herror, -⟩
      · rw [hanswer] at hr
        cases hr
      · rw [hanswer] at hr
        exact absurd hstatus (hnot response (Except.error.inj hr).symm)
      · rw [herror] at hok
        cases hok
  · change contactDeleted (request t settings outside _ s).1 = _ at herror
    rcases contactDeleted_cases (request t settings outside _ s).1 with ⟨hok, -⟩ | ⟨e', he', hnot⟩
    · rw [hok] at herror
      cases herror
    · rw [he'] at herror
      exact hnot response (Except.error.inj herror)
  · change (request t settings outside _ s).1.map _ = .ok () at hok
    rcases he with ⟨-, -, hgone, hunheard⟩ | ⟨e, hr, -⟩ | ⟨e, hr, -⟩
    · exact ⟨hgone, hunheard⟩
    · rw [hr] at hok
      cases hok
    · rw [hr] at hok
      cases hok
  · change (request t settings outside _ s).1.map _ = .error (.status response) at herror
    rcases he with ⟨response', hr, -⟩ | ⟨-, -, hgone, hunheard⟩ | ⟨e, hr, -, -, hnot⟩
    · rw [hr] at herror
      cases herror
    · exact ⟨hgone, hunheard⟩
    · rw [hr] at herror
      exact absurd hstatus (hnot response (Except.error.inj herror))

/-- A server with one item, which a DELETE deletes. -/
def oneItem (_ : HttpRequest) (here : Bool) : Response × Bool :=
  ({ status := if here then 204 else 404 }, false)

/-- The deletion of an event over a line that loses the first answer fails with 404. -/
theorem deletions_over_losing_line :
    let settings : Settings := ⟨false, false, Tenacity.plain.backoff⟩
    let outside := losesFirst.outside oneItem (goneCount id)
    let event := deleteEvent Tenacity.plain outside settings "u" "e1" { net := { server := true } }
    event.1 = .error (.status { status := 404 }) ∧ event.2.net.server = false ∧
      event.2.net.unheard = 1 := by
  intro settings outside event
  have hdeletes : ∀ args, Deletes oneItem id args := fun args =>
    ⟨fun token w h => by simp only [id] at h; subst h; exact ⟨rfl, rfl⟩,
      fun token w h => by simp only [id] at h; subst h; exact ⟨rfl, rfl⟩⟩
  have hboth := deletions_over_line Tenacity.plain settings losesFirst (fun _ _ h => by cases h)
    oneItem id "u" "e1" (hdeletes _) (hdeletes _) { net := { server := true } } rfl
  have herror : event.1 = .error (.status { status := 404 }) := by decide
  obtain ⟨hgone, hunheard⟩ := hboth.2.2.2 _ herror rfl
  exact ⟨herror, hgone, hunheard⟩

end GwsMigrator.GraphClient
