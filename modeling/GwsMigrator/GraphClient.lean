import GwsMigrator.Recurrence
import GwsMigrator.Retries
import GwsMigrator.SharePoint

/-! `microsoft/graph_client.py`: every request to Graph, with its limiters, its retries and what
happens between them. -/
namespace GwsMigrator.GraphClient
open Retries

/-- The transport errors of httpx, as far as they are told apart. -/
inductive TransportKind where
  | timeout
  | network
  | remoteProtocol
  | other
deriving DecidableEq, Repr

structure TransportError where
  kind : TransportKind
  text : String := ""
deriving DecidableEq, Repr

structure Response where
  status : ℕ
  retryAfter : Option String := none
  text : String := ""
deriving DecidableEq, Repr

/-- What `_request` raises: an HTTPStatusError, a transport error, or what `get_token` raised. -/
inductive ClientError where
  | status (response : Response)
  | transport (error : TransportError)
  | other (text : String)
deriving DecidableEq, Repr

/-- The exception as the jobs see it. -/
def ClientError.toExc : ClientError → Exc
  | .status response => .http response.status response.text
  | .transport e => .other e.text
  | .other text => .other text

/-- `raise_for_status` lets a response of the 2xx statuses alone pass. -/
def Response.isSuccess (response : Response) : Bool := 200 ≤ response.status ∧ response.status < 300

/-- `_MAX_RETRIES`. -/
def maxRetries : ℕ := 7

/-- `_is_retryable`. -/
def isRetryable : ClientError → Bool
  | .status response => response.status ∈ [429, 500, 502, 503, 504]
  | .transport e => e.kind ≠ .other
  | .other _ => false

/-- `_parse_retry_after`, with its default. -/
def parseRetryAfter : Option String → ℕ
  | none => 30
  | some value =>
    if value = "" then 30
    else
      match intOf value with
      | .ok seconds => (max 1 seconds).toNat
      | .error _ => 30

/-- `_throttle`. -/
def throttle : ClientError → Option Response
  | .status response => if response.status = 429 then some response else none
  | _ => none

inductive Method where
  | get | post | patch | delete | put
deriving DecidableEq, Repr

inductive Payload where
  | json (text : String)
  | content (data : Bytes)
deriving DecidableEq, Repr

/-- The arguments of `_request`. -/
structure Arguments where
  method : Method
  url : String
  userKey : Option String := none
  headers : List (String × String) := []
  params : List (String × String) := []
  payload : Option Payload := none

/-- What goes over the wire. -/
structure HttpRequest where
  method : Method
  url : String
  headers : List (String × String)
  params : List (String × String)
  payload : Option Payload
deriving DecidableEq, Repr

/-- What a client does, one after the other. A request says for whom it is made. -/
inductive Action where
  | acquireGlobal
  | acquireUser (userKey : String)
  | send (userKey : Option String) (request : HttpRequest)
  | resetTransport
  | sleep (seconds : ℕ)
deriving DecidableEq, Repr

/-- Whether the global limiter is registered, whether there is one for each user, and how long
the backoff is after each attempt. -/
structure Settings where
  registered : Bool
  perUser : Bool
  backoff : ℕ → ℕ

/-- The token provider and the network, with a state of their own. -/
structure Outside (ν : Type) where
  getToken : ν → Except String String × ν
  send : HttpRequest → ν → Except TransportError Response × ν

/-- A client and what is outside of it. The newest action comes first. -/
structure ClientState (ν : Type) where
  net : ν
  actions : List Action := []

variable {ν : Type}

def ClientState.record (s : ClientState ν) (a : Action) : ClientState ν :=
  { s with actions := a :: s.actions }

@[simp] theorem ClientState.record_net (s : ClientState ν) (a : Action) :
    (s.record a).net = s.net := rfl

@[simp] theorem ClientState.record_actions (s : ClientState ν) (a : Action) :
    (s.record a).actions = a :: s.actions := rfl

/-- `url.startswith(GRAPH_BASE)`. -/
def isGraph (url : String) : Bool := graphBase.toList <+: url.toList

/-- `_headers`. The caller may override what the client sets. -/
def headersOf (token : Option String) (extra : List (String × String)) :
    List (String × String) :=
  let own := match token with
    | some token => [("Authorization", "Bearer " ++ token), ("Content-Type", "application/json")]
    | none => []
  own.filter (fun header => header.1 ∉ extra.map Prod.fst) ++ extra

section
variable (settings : Settings)

/-- `_apply_rate_limits`. -/
def applyRateLimits (userKey : Option String) (s : ClientState ν) : ClientState ν :=
  let s := if settings.registered then s.record .acquireGlobal else s
  match userKey with
  | some key => if key ≠ "" ∧ settings.perUser then s.record (.acquireUser key) else s
  | none => s

/-- The sleep before the next attempt, `_wait`. -/
def waitFor (e : ClientError) (attempt : ℕ) : ℕ :=
  match throttle e with
  | some response => parseRetryAfter response.retryAfter
  | none => settings.backoff attempt

/-- The closure `_redial`. -/
def redial (e : ClientError) (s : ClientState ν) : ClientState ν :=
  match throttle e with
  | some _ => s
  | none => s.record .resetTransport

/-- What the `retry` of `_request` is given. -/
def retryPolicy : Policy (ClientState ν) ClientError where
  retryable := isRetryable
  maxAttempts := maxRetries
  pause e n s := (redial e s).record (.sleep (waitFor settings e n))

variable (outside : Outside ν) (args : Arguments)

/-- The request that is sent with a token, or with none. -/
def Arguments.request (token : Option String) : HttpRequest where
  method := args.method
  url := args.url
  headers := headersOf token args.headers
  params := args.params
  payload := args.payload

/-- What comes back is returned, or raised by `raise_for_status`. -/
def received : Except TransportError Response → Except ClientError Response
  | .error e => .error (.transport e)
  | .ok response => if response.isSuccess then .ok response else .error (.status response)

/-- `self._client.request`, with what follows it. -/
def sendRequest (token : Option String) (s : ClientState ν) :
    Except ClientError Response × ClientState ν :=
  let request := args.request token
  let sent := outside.send request s.net
  (received sent.1, { s with net := sent.2 }.record (.send args.userKey request))

/-- The closure `_do`. -/
def attempt (s : ClientState ν) : Except ClientError Response × ClientState ν :=
  let s := applyRateLimits settings args.userKey s
  if isGraph args.url then
    match outside.getToken s.net with
    | (.error text, net) => (.error (.other text), { s with net := net })
    | (.ok token, net) => sendRequest outside args (some token) { s with net := net }
  else sendRequest outside args none s

end

/-- What is used of tenacity: the decorator, which makes attempts as documented, and
`wait_exponential`, which keeps between its bounds. -/
structure Tenacity where
  retry : {σ α ε : Type} → Policy σ ε → (σ → Except ε α × σ) → σ → Except ε α × σ
  retry_documented : ∀ {σ α ε : Type} (p : Policy σ ε) (attempt : σ → Except ε α × σ) (s : σ),
    ∃ starts, Retried p attempt 1 s starts (retry p attempt s).1 (retry p attempt s).2
  waitExponential : (multiplier least most : ℕ) → ℕ → ℕ
  wait_documented : ∀ multiplier least most n, least ≤ most →
    least ≤ waitExponential multiplier least most n ∧
      waitExponential multiplier least most n ≤ most

/-- The documented loop itself. -/
def Tenacity.plain : Tenacity where
  retry p attempt s := p.run attempt s
  retry_documented _ _ s := Policy.run_retried s
  waitExponential multiplier least most n := max least (min (multiplier * 2 ^ (n - 1)) most)
  wait_documented multiplier least most n h := by
    refine ⟨le_max_left _ _, max_le h (min_le_right _ _)⟩

/-- `_BACKOFF`. -/
def Tenacity.backoff (t : Tenacity) : ℕ → ℕ := t.waitExponential 1 2 60

/-- `_request`. -/
def request (t : Tenacity) (settings : Settings) (outside : Outside ν) (args : Arguments)
    (s : ClientState ν) : Except ClientError Response × ClientState ν :=
  t.retry (retryPolicy settings) (attempt settings outside args) s

/-! What is true of every session of a client. -/

/-- The tokens that were taken since the last request went out. -/
structure Paid where
  global : Bool := false
  user : Option String := none

/-- What has been paid for after some actions. -/
def paidAfter : List Action → Paid
  | [] => {}
  | .acquireGlobal :: actions => { paidAfter actions with global := true }
  | .acquireUser key :: actions => { paidAfter actions with user := some key }
  | .send .. :: _ => {}
  | .resetTransport :: actions | .sleep _ :: actions => paidAfter actions

/-- A request may go out when it has been paid for by itself, and with a token to Graph alone. -/
structure MaySend (settings : Settings) (paid : Paid) (userKey : Option String)
    (request : HttpRequest) : Prop where
  global : settings.registered = true → paid.global = true
  user : settings.perUser = true → ∀ key, userKey = some key → key ≠ "" → paid.user = some key
  bearer : "Authorization" ∈ request.headers.map Prod.fst → isGraph request.url = true

/-- Every request went out as it may. -/
def Orderly (settings : Settings) : List Action → Prop
  | [] => True
  | .send userKey request :: actions =>
    MaySend settings (paidAfter actions) userKey request ∧ Orderly settings actions
  | _ :: actions => Orderly settings actions

/-- How many requests went out. -/
def sends (actions : List Action) : ℕ :=
  actions.countP (fun a => match a with
    | .send .. => true
    | _ => false)

section
variable (settings : Settings) (outside : Outside ν) (args : Arguments)

/-- After its limiters a request is paid for. -/
theorem applyRateLimits_paid (userKey : Option String) (s : ClientState ν) :
    let paid := paidAfter (applyRateLimits settings userKey s).actions
    (settings.registered = true → paid.global = true) ∧
      (settings.perUser = true → ∀ key, userKey = some key → key ≠ "" → paid.user = some key) := by
  rcases userKey with _ | key
  · refine ⟨fun h => ?_, fun _ key hkey => by cases hkey⟩
    simp [applyRateLimits, h, paidAfter]
  · by_cases hkey : key ≠ "" ∧ settings.perUser = true
    · have hactions : (applyRateLimits settings (some key) s).actions = .acquireUser key ::
          (if settings.registered then s.record .acquireGlobal else s).actions := by
        simp only [applyRateLimits, if_pos hkey, ClientState.record_actions]
      rw [hactions]
      refine ⟨fun h => by simp [h, paidAfter], fun _ key' hkey' _ => ?_⟩
      rw [Option.some.inj hkey']
      rfl
    · have hactions : (applyRateLimits settings (some key) s).actions =
          (if settings.registered then s.record .acquireGlobal else s).actions := by
        simp only [applyRateLimits, if_neg hkey]
      rw [hactions]
      refine ⟨fun h => by simp [h, paidAfter], fun h key' hkey' hne => ?_⟩
      obtain rfl := Option.some.inj hkey'
      exact absurd ⟨hne, h⟩ hkey

/-- What `settings` allows holds of the actions so far, of which `n` are requests. -/
def Disciplined (n : ℕ) (s : ClientState ν) : Prop :=
  Orderly settings s.actions ∧ sends s.actions ≤ n

variable {settings outside args}

theorem Disciplined.mono {n m : ℕ} {s : ClientState ν} (h : Disciplined settings n s)
    (hle : n ≤ m) : Disciplined settings m s := ⟨h.1, h.2.trans hle⟩

/-- The limiters and the pauses send nothing. -/
theorem Disciplined.record {n : ℕ} {s : ClientState ν} (h : Disciplined settings n s) {a : Action}
    (ha : ∀ key request, a ≠ .send key request) : Disciplined settings n (s.record a) := by
  cases a with
  | send key request => exact absurd rfl (ha key request)
  | _ => exact ⟨h.1, by simpa [sends] using h.2⟩

theorem Disciplined.applyRateLimits {n : ℕ} {s : ClientState ν} (h : Disciplined settings n s)
    (userKey : Option String) :
    Disciplined settings n (GraphClient.applyRateLimits settings userKey s) := by
  unfold GraphClient.applyRateLimits
  have hglobal : Disciplined settings n
      (if settings.registered then s.record .acquireGlobal else s) := by
    split
    · exact h.record (by simp)
    · exact h
  rcases userKey with _ | key
  · exact hglobal
  · simp only
    split
    · exact hglobal.record (by simp)
    · exact hglobal

/-- A request that its caller gives no token carries one to Graph alone. -/
theorem isGraph_of_bearer (hargs : "Authorization" ∉ args.headers.map Prod.fst)
    {token : Option String} (htoken : token.isSome = true → isGraph args.url = true)
    (h : "Authorization" ∈ (args.request token).headers.map Prod.fst) :
    isGraph args.url = true := by
  cases token with
  | none => exact absurd (by simpa [Arguments.request, headersOf] using h) hargs
  | some token => exact htoken rfl

theorem Disciplined.sendRequest {n : ℕ} {s : ClientState ν} (h : Disciplined settings n s)
    {token : Option String}
    (hmay : MaySend settings (paidAfter s.actions) args.userKey (args.request token)) :
    Disciplined settings (n + 1) (GraphClient.sendRequest outside args token s).2 := by
  refine ⟨⟨hmay, h.1⟩, ?_⟩
  have hcount : sends (GraphClient.sendRequest outside args token s).2.actions =
      sends s.actions + 1 := List.countP_cons_of_pos rfl
  rw [hcount]
  exact Nat.succ_le_succ h.2

variable (outside) in
theorem Disciplined.attempt {n : ℕ} {s : ClientState ν} (h : Disciplined settings n s)
    (hargs : "Authorization" ∉ args.headers.map Prod.fst) :
    Disciplined settings (n + 1) (GraphClient.attempt settings outside args s).2 := by
  have hlimited := h.applyRateLimits args.userKey
  obtain ⟨hglobal, huser⟩ := applyRateLimits_paid settings args.userKey s
  unfold GraphClient.attempt
  by_cases hgraph : isGraph args.url = true
  · simp only [hgraph, if_true]
    rcases outside.getToken (GraphClient.applyRateLimits settings args.userKey s).net with
      ⟨text | token, net⟩
    · exact ⟨hlimited.1, hlimited.2.trans (Nat.le_succ n)⟩
    · have hlater : Disciplined settings n
          { GraphClient.applyRateLimits settings args.userKey s with net := net } := hlimited
      exact hlater.sendRequest ⟨hglobal, huser, fun _ => hgraph⟩
  · simp only [hgraph]
    exact hlimited.sendRequest ⟨hglobal, huser, isGraph_of_bearer hargs (by simp)⟩

theorem Disciplined.pause {n : ℕ} {s : ClientState ν} (h : Disciplined settings n s)
    (e : ClientError) (k : ℕ) :
    Disciplined settings n ((retryPolicy settings).pause e k s) := by
  have hredial : Disciplined settings n (redial e s) := by
    unfold redial
    split
    · exact h
    · exact h.record (by simp)
  exact hredial.record (by simp)

variable (outside) in
/-- A request is sent seven times at most, each time as it may. -/
theorem Disciplined.request (t : Tenacity) {n : ℕ} {s : ClientState ν}
    (h : Disciplined settings n s) (hargs : "Authorization" ∉ args.headers.map Prod.fst) :
    Disciplined settings (n + maxRetries) (GraphClient.request t settings outside args s).2 := by
  obtain ⟨starts, hretried⟩ :=
    t.retry_documented (retryPolicy settings) (GraphClient.attempt settings outside args) s
  have hlength := hretried.length_bounds (show 1 ≤ maxRetries by decide)
  have hkept : ∀ {k m : ℕ} {s t : ClientState ν} {starts : List (ClientState ν)}
      {r : Except ClientError Response},
      Retried (retryPolicy settings) (GraphClient.attempt settings outside args) k s starts r t →
      Disciplined settings m s → Disciplined settings (m + starts.length) t := by
    intro k m s t starts r hretried
    induction hretried generalizing m with
    | returned tried | raised tried =>
      intro hs
      have hnext := hs.attempt outside hargs
      rw [tried] at hnext
      exact hnext
    | again tried _ _ _ ih =>
      intro hs
      have hnext := hs.attempt outside hargs
      rw [tried] at hnext
      have hrest := ih (hnext.pause _ _)
      rw [List.length_cons]
      exact hrest.mono (by omega)
  exact (hkept hretried h).mono (Nat.add_le_add_left (by simpa [retryPolicy] using hlength.2) n)

end

/-- The requests of a client, one after the other, with what comes of each. -/
def session (t : Tenacity) (settings : Settings) (outside : Outside ν) :
    List Arguments → ClientState ν → List (Except ClientError Response) × ClientState ν
  | [], s => ([], s)
  | args :: rest, s =>
    let first := request t settings outside args s
    let more := session t settings outside rest first.2
    (first.1 :: more.1, more.2)

/-- In every session every request that leaves the client, retries included, has taken tokens of
its own, a bearer token goes to Graph alone, and no call sends more than seven requests. -/
theorem session_disciplined (t : Tenacity) (settings : Settings) (outside : Outside ν)
    (calls : List Arguments) (net : ν)
    (hcalls : ∀ args ∈ calls, "Authorization" ∉ args.headers.map Prod.fst) :
    let s := (session t settings outside calls { net := net }).2
    Orderly settings s.actions ∧ sends s.actions ≤ maxRetries * calls.length := by
  have hall : ∀ (calls : List Arguments) (n : ℕ) (s : ClientState ν),
      (∀ args ∈ calls, "Authorization" ∉ args.headers.map Prod.fst) →
      Disciplined settings n s →
      Disciplined settings (n + maxRetries * calls.length)
        (session t settings outside calls s).2 := by
    intro calls
    induction calls with
    | nil => exact fun n s _ h => h
    | cons args calls ih =>
      intro n s hargs h
      have hnext := h.request outside t (hargs args List.mem_cons_self)
      have hrest := ih _ _ (fun a ha => hargs a (List.mem_cons_of_mem _ ha)) hnext
      rw [List.length_cons]
      exact hrest.mono (by rw [Nat.mul_succ]; omega)
  have hstart : Disciplined settings 0 ({ net := net } : ClientState ν) := ⟨trivial, le_refl 0⟩
  have hend := hall calls 0 _ hcalls hstart
  exact ⟨hend.1, by simpa using hend.2⟩

/-- A network that answers 503 once, and 201 from then on. -/
def busyOnce : Outside ℕ where
  getToken n := (.ok "token", n)
  send _ n := (.ok { status := if n = 0 then 503 else 201 }, n + 1)

/-- A POST that is sent twice over it. -/
theorem session_disciplined_busyOnce :
    let settings : Settings := ⟨true, true, Tenacity.plain.backoff⟩
    let args : Arguments := { method := .post, url := graphBase ++ "/users/u/events", userKey := "u" }
    let s := (request Tenacity.plain settings busyOnce args { net := 0 }).2
    sends s.actions = 2 ∧ Orderly settings s.actions ∧ sends s.actions ≤ maxRetries * 1 := by
  intro settings args s
  have hkept := session_disciplined Tenacity.plain settings busyOnce [args] 0 (by
    intro a ha
    rw [List.mem_singleton.mp ha]
    simp [args])
  exact ⟨by decide, hkept⟩

end GwsMigrator.GraphClient
