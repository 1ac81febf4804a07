import GwsMigrator.FilesJob
import GwsMigrator.PageChains
import GwsMigrator.Programs
import GwsMigrator.SharePoint

/-! `_iter_drive` of `connectors/m365.py`: a drive's delta feed as a generator, which stands still
at every file until its consumer asks for more. -/
namespace GwsMigrator.DeltaFeed
open Program PageChains Dialogue

/-- An item of a delta page, with the keys that `_iter_drive` and `_to_file` look at. -/
structure DeltaItem where
  id : String
  name : Option String := none
  parentId : Option String := none
  root : Bool := false
  deleted : Bool := false
  folder : Bool := false
  quickXorHash : Option String := none
  eTag : Option String := none

/-- `_to_file`. -/
def toFile (item : DeltaItem) : SourceFile where
  sourceId := item.id
  name := item.name.getD item.id
  parentId := item.parentId
  isFolder := item.folder
  contentHash := (item.quickXorHash.filter (· ≠ "")).or item.eTag
  action := if item.folder then .createFolder else .migrate

/-- A link of Graph: a path, alone or as an absolute URL. -/
structure Link where
  absolute : Bool
  path : String
  path_head : path.toList.head? = some '/'

def Link.text (link : Link) : String :=
  if link.absolute then graphBase ++ link.path else link.path

structure DeltaPage where
  value : List DeltaItem
  nextLink : Option Link := none
  deltaLink : Option String := none

/-- What the generator does to others: it gets pages, hands out files, and sets a cursor. -/
inductive FeedRequest where
  | get (path userKey : String)
  | hand (f : SourceFile)
  | setCursor (key : String) (value : Token)

/-- The answer to a file that is handed out says whether the consumer asks for more. -/
abbrev FeedRequest.Ans : FeedRequest → Type
  | .get .. => Except Exc DeltaPage
  | .hand _ => Bool
  | .setCursor .. => Unit

abbrev FeedProgram := Program FeedRequest.Ans

/-- How a run of the generator ends: at its end, with an exception, given up by its consumer, or
with the fuel used up. -/
inductive FeedEnd where
  | finished
  | raised (e : Exc)
  | closed
  | cut

/-- `_strip_base`. -/
def stripBase (url : String) : String :=
  if graphBase.toList <+: url.toList then String.ofList (url.toList.drop graphBase.length) else url

/-- A text, if it is true for Python. -/
def truthy (text : String) : Option Token := if h : text = "" then none else some ⟨text, h⟩

theorem truthy_eq {text : String} {c : Token} (h : truthy text = some c) : text = c := by
  unfold truthy at h
  split at h
  · cases h
  · exact congrArg Subtype.val (Option.some.inj h)

/-- The loop over the items of a page. -/
def handOut : List DeltaItem → FeedProgram Bool
  | [] => pure true
  | item :: rest =>
    -- the root and the tombstones are passed over
    if item.root then handOut rest
    else if item.deleted then handOut rest
    else do
      if ← perform (FeedRequest.hand (toFile item)) then handOut rest else pure false

/-- The loop over the pages, and the cursor behind it. -/
def readFeed (userKey cursorKey : String) :
    ℕ → Option Token → Option Token → FeedProgram FeedEnd
  | _, none, none => pure .finished
  | _, none, some deltaLink => do
    perform (FeedRequest.setCursor cursorKey deltaLink)
    pure .finished
  | 0, some _, _ => pure .cut
  | fuel + 1, some url, deltaLink => do
    match ← perform (FeedRequest.get url.val userKey) with
    | .error e => pure (.raised e)
    | .ok data =>
      if ← handOut data.value then
        readFeed userKey cursorKey fuel
          (data.nextLink.bind (fun nextLink => truthy (stripBase nextLink.text)))
          ((data.deltaLink.bind truthy).or deltaLink)
      else pure .closed

/-- Where the feed begins: at a stored link, or with all that is there. -/
def startUrl (driveRoot : String) : Option Token → Option Token
  | some since => truthy (stripBase since.val)
  | none => truthy s!"/{driveRoot}/root/delta"

/-- `_iter_drive`. -/
def iterDrive (driveRoot userKey cursorKey : String) (since : Option Token) (fuel : ℕ) :
    FeedProgram FeedEnd :=
  readFeed userKey cursorKey fuel (startUrl driveRoot since) none

/-- The server of the source, what the consumer was handed, and `_cursors`. -/
structure FeedState (σ : Type) where
  source : σ
  handed : List SourceFile := []
  cursors : AList (fun _ : String => Token) := ∅

section
variable {σ : Type} (server : String → σ → Except Exc DeltaPage × σ)
  (wants : List SourceFile → Bool)

/-- The surroundings of a run. Whether the consumer asks for more is up to what it was handed. -/
def surroundings : (r : FeedRequest) → FeedState σ → r.Ans × FeedState σ
  | .get path _, st => ((server path st.source).1, { st with source := (server path st.source).2 })
  | .hand f, st => (wants (st.handed ++ [f]), { st with handed := st.handed ++ [f] })
  | .setCursor key value, st => ((), { st with cursors := st.cursors.insert key value })

/-- Where a page says that the feed goes on. -/
def DeltaPage.next (page : DeltaPage) : Option Token :=
  page.nextLink.bind (fun link => truthy link.path)

/-- The items of some pages that are neither the root nor deleted. -/
def kept (items : List DeltaItem) : List SourceFile :=
  (items.filter (fun item => !item.root && !item.deleted)).map toFile

def keptOf (pages : List DeltaPage) : List SourceFile := kept (pages.flatMap (·.value))

/-- The last delta link of some pages. -/
def lastDelta (pages : List DeltaPage) : Option Token :=
  (pages.filterMap (fun page => page.deltaLink.bind truthy)).getLast?

/-- The pages of the feed from a link on. -/
abbrev Pages := Chain (fun (url : Token) s => server url.val s) DeltaPage.next

/-- The consumer stops at one of the files. -/
def Stops (handed files : List SourceFile) : Prop :=
  ∃ n < files.length, wants (handed ++ files.take (n + 1)) = false

/-- The file of an event, if the consumer came back for more. -/
def consumed : Event FeedRequest.Ans → Option SourceFile
  | ⟨.hand f, true⟩ => some f
  | _ => none

def isSetCursor : Event FeedRequest.Ans → Bool
  | ⟨.setCursor _ _, _⟩ => true
  | _ => false

end

theorem stripBase_text (link : Link) : stripBase link.text = link.path := by
  unfold Link.text stripBase
  by_cases h : link.absolute = true
  · rw [if_pos h, String.toList_append, if_pos (List.prefix_append _ _)]
    have hdrop : (graphBase.toList ++ link.path.toList).drop graphBase.length = link.path.toList :=
      List.drop_left
    rw [hdrop, String.ofList_toList]
  · rw [if_neg h]
    apply if_neg
    intro hbase
    have hhead := link.path_head
    obtain ⟨rest, hrest⟩ := hbase
    rw [← hrest] at hhead
    simp [graphBase] at hhead

/-! ### A page -/

theorem kept_cons (item : DeltaItem) (rest : List DeltaItem) :
    kept (item :: rest) =
      if item.root || item.deleted then kept rest else toFile item :: kept rest := by
  unfold kept
  cases hroot : item.root <;> cases hdeleted : item.deleted <;> simp [hroot, hdeleted]

theorem kept_append (items rest : List DeltaItem) : kept (items ++ rest) = kept items ++ kept rest := by
  simp [kept]

section

variable {σ : Type} {server : String → σ → Except Exc DeltaPage × σ}
  {wants : List SourceFile → Bool}

theorem stops_cons (handed : List SourceFile) (f : SourceFile) (fs : List SourceFile) :
    Stops wants handed (f :: fs) ↔
      wants (handed ++ [f]) = false ∨ Stops wants (handed ++ [f]) fs := by
  constructor
  · rintro ⟨n, hn, hstop⟩
    cases n with
    | zero => exact Or.inl (by simpa using hstop)
    | succ n =>
      refine Or.inr ⟨n, by simpa using hn, ?_⟩
      rw [List.append_assoc]
      exact hstop
  · rintro (hstop | ⟨n, hn, hstop⟩)
    · exact ⟨0, by simp, by simpa using hstop⟩
    · refine ⟨n + 1, by simpa using hn, ?_⟩
      rw [List.append_assoc] at hstop
      exact hstop

theorem not_stops_nil (handed : List SourceFile) : ¬ Stops wants handed [] :=
  fun ⟨n, hn, _⟩ => Nat.not_lt_zero n hn

theorem stops_append (handed fs gs : List SourceFile) :
    Stops wants handed (fs ++ gs) ↔ Stops wants handed fs ∨ Stops wants (handed ++ fs) gs := by
  induction fs generalizing handed with
  | nil =>
    rw [List.nil_append, List.append_nil, or_iff_right (not_stops_nil handed)]
  | cons f fs ih =>
    rw [List.cons_append, stops_cons, stops_cons, ih, List.append_assoc, or_assoc]
    rfl

variable (server) in
/-- What the consumer answers to a file. -/
theorem surroundings_hand (f : SourceFile) (st : FeedState σ) (again : Bool)
    (h : wants (st.handed ++ [f]) = again) :
    surroundings server wants (.hand f) st = (again, { st with handed := st.handed ++ [f] }) := by
  rw [← h]
  rfl

theorem handOut_passed {item : DeltaItem} (h : (item.root || item.deleted) = true)
    (rest : List DeltaItem) : handOut (item :: rest) = handOut rest := by
  rw [handOut]
  rcases (Bool.or_eq_true _ _).mp h with hroot | hdeleted
  · rw [if_pos hroot]
  · rw [if_pos hdeleted, ite_self]

theorem handOut_kept {item : DeltaItem} (h : (item.root || item.deleted) = false)
    (rest : List DeltaItem) :
    handOut (item :: rest) =
      request (.hand (toFile item)) (fun again => if again then handOut rest else pure false) := by
  obtain ⟨hroot, hdeleted⟩ := Bool.or_eq_false_iff.mp h
  rw [handOut, hroot, hdeleted]
  rfl

variable (server) in
/-- A consumer that comes back every time is handed all the files of a page. -/
theorem handOut_run (items : List DeltaItem) (st : FeedState σ)
    (h : ¬ Stops wants st.handed (kept items)) :
    (handOut items).run (surroundings server wants) st =
        (true, { st with handed := st.handed ++ kept items }) ∧
      (handOut items).trace (surroundings server wants) st =
        (kept items).map (fun f => ⟨.hand f, true⟩) := by
  induction items generalizing st with
  | nil =>
    have hsame : st.handed ++ kept [] = st.handed := List.append_nil _
    rw [hsame]
    exact ⟨rfl, rfl⟩
  | cons item rest ih =>
    rw [kept_cons] at h ⊢
    by_cases hpassed : (item.root || item.deleted) = true
    · rw [if_pos hpassed] at h ⊢
      rw [handOut_passed hpassed]
      exact ih st h
    · rw [if_neg hpassed] at h ⊢
      rw [stops_cons, not_or, Bool.not_eq_false] at h
      have hserve := surroundings_hand server (toFile item) st true h.1
      obtain ⟨hrun, htrace⟩ := ih { st with handed := st.handed ++ [toFile item] } h.2
      rw [handOut_kept (Bool.eq_false_iff.mpr hpassed), run_request, trace_request, hserve]
      refine ⟨?_, congrArg (_ :: ·) htrace⟩
      rw [List.append_assoc] at hrun
      exact hrun

variable (server) in
/-- A consumer that stops leaves the rest of the page unread. -/
theorem handOut_stops (items : List DeltaItem) (st : FeedState σ)
    (h : Stops wants st.handed (kept items)) :
    ∃ n, (handOut items).run (surroundings server wants) st =
        (false, { st with handed := st.handed ++ (kept items).take n }) ∧
      ∀ ev ∈ (handOut items).trace (surroundings server wants) st, isSetCursor ev = false := by
  induction items generalizing st with
  | nil => exact absurd h (not_stops_nil st.handed)
  | cons item rest ih =>
    rw [kept_cons] at h ⊢
    by_cases hpassed : (item.root || item.deleted) = true
    · rw [if_pos hpassed] at h ⊢
      rw [handOut_passed hpassed]
      exact ih st h
    · rw [if_neg hpassed, stops_cons] at h
      rw [if_neg hpassed, handOut_kept (Bool.eq_false_iff.mpr hpassed), run_request, trace_request]
      cases hwants : wants (st.handed ++ [toFile item]) with
      | false =>
        rw [surroundings_hand server (toFile item) st false hwants]
        refine ⟨1, rfl, fun ev hev => ?_⟩
        rw [List.mem_singleton.mp hev]
        rfl
      | true =>
        rw [hwants] at h
        obtain ⟨n, hrun, htrace⟩ := ih { st with handed := st.handed ++ [toFile item] }
          (h.resolve_left (by simp))
        rw [surroundings_hand server (toFile item) st true hwants]
        refine ⟨n + 1, ?_, fun ev hev => ?_⟩
        · rw [List.append_assoc] at hrun
          exact hrun
        · rcases List.mem_cons.mp hev with rfl | hmem
          · rfl
          · exact htrace ev hmem

/-! ### The pages -/

variable (userKey cursorKey : String) (deltaLink : Option Token) {st : FeedState σ}

theorem next_eq (page : DeltaPage) :
    page.nextLink.bind (fun nextLink => truthy (stripBase nextLink.text)) = page.next := by
  simp only [stripBase_text]
  rfl

theorem keptOf_cons (page : DeltaPage) (pages : List DeltaPage) :
    keptOf (page :: pages) = kept page.value ++ keptOf pages := by
  unfold keptOf
  rw [List.flatMap_cons, kept_append]

/-- A later delta link replaces an earlier one. -/
theorem lastDelta_cons (page : DeltaPage) (pages : List DeltaPage) :
    lastDelta (page :: pages) = (lastDelta pages).or (page.deltaLink.bind truthy) := by
  unfold lastDelta
  rw [List.filterMap_cons]
  cases page.deltaLink.bind truthy with
  | none => exact Option.or_none.symm
  | some link =>
    show (link :: _).getLast? = _
    rw [List.getLast?_cons]
    cases (pages.filterMap (fun page => page.deltaLink.bind truthy)).getLast? <;> rfl

/-- What the loop does with a page that its consumer reads through. -/
theorem readFeed_page {url : Token} {page : DeltaPage} {s' : σ} (fuel : ℕ)
    (answer : server url.val st.source = (.ok page, s'))
    (h : ¬ Stops wants st.handed (kept page.value)) :
    let st' := { st with source := s', handed := st.handed ++ kept page.value }
    let rest := readFeed userKey cursorKey fuel page.next ((page.deltaLink.bind truthy).or deltaLink)
    (readFeed userKey cursorKey (fuel + 1) (some url) deltaLink).run (surroundings server wants) st =
        rest.run (surroundings server wants) st' ∧
      (readFeed userKey cursorKey (fuel + 1) (some url) deltaLink).trace
          (surroundings server wants) st =
        ⟨.get url.val userKey, .ok page⟩ :: ((kept page.value).map (fun f => ⟨.hand f, true⟩) ++
          rest.trace (surroundings server wants) st') := by
  have hserve : surroundings server wants (.get url.val userKey) st =
      (.ok page, { st with source := s' }) := by
    simp only [surroundings, answer]
  obtain ⟨hrun, htrace⟩ := handOut_run server page.value { st with source := s' } h
  rw [readFeed, perform_bind, run_request, trace_request, hserve]
  simp only [run_bind, trace_bind, hrun, htrace, if_true, next_eq, and_self]

variable (wants) in
theorem readFeed_failed {url : Token} {e : Exc} {s' : σ} (fuel : ℕ)
    (answer : server url.val st.source = (.error e, s')) :
    (readFeed userKey cursorKey (fuel + 1) (some url) deltaLink).run (surroundings server wants) st =
        (.raised e, { st with source := s' }) ∧
      (readFeed userKey cursorKey (fuel + 1) (some url) deltaLink).trace
          (surroundings server wants) st = [⟨.get url.val userKey, .error e⟩] := by
  have hserve : surroundings server wants (.get url.val userKey) st =
      (.error e, { st with source := s' }) := by
    simp only [surroundings, answer]
  rw [readFeed, perform_bind, run_request, trace_request, hserve]
  exact ⟨rfl, rfl⟩

/-- A consumer that stops on a page ends the loop there. -/
theorem readFeed_stops {url : Token} {page : DeltaPage} {s' : σ} (fuel : ℕ)
    (answer : server url.val st.source = (.ok page, s'))
    (h : Stops wants st.handed (kept page.value)) :
    ∃ n, (readFeed userKey cursorKey (fuel + 1) (some url) deltaLink).run
          (surroundings server wants) st =
        (.closed, { st with source := s', handed := st.handed ++ (kept page.value).take n }) ∧
      ∀ ev ∈ (readFeed userKey cursorKey (fuel + 1) (some url) deltaLink).trace
        (surroundings server wants) st, isSetCursor ev = false := by
  have hserve : surroundings server wants (.get url.val userKey) st =
      (.ok page, { st with source := s' }) := by
    simp only [surroundings, answer]
  obtain ⟨n, hrun, htrace⟩ := handOut_stops server page.value { st with source := s' } h
  rw [readFeed, perform_bind, run_request, trace_request, hserve]
  simp only [run_bind, trace_bind, hrun, Bool.false_eq_true, if_false, run_pure, trace_pure,
    List.append_nil]
  refine ⟨n, rfl, fun ev hev => ?_⟩
  rcases List.mem_cons.mp hev with rfl | hmem
  · rfl
  · exact htrace ev hmem

/-! ### Whole runs -/

/-- What is in `_cursors` once a cursor is recorded, if there is one. -/
def record (key : String) (last : Option Token) (cursors : AList (fun _ : String => Token)) :
    AList (fun _ : String => Token) :=
  last.elim cursors (cursors.insert key)

/-- The event that goes with it. -/
def recordEvents (key : String) (last : Option Token) : List (Event FeedRequest.Ans) :=
  last.toList.map (fun value => ⟨.setCursor key value, ()⟩)

/-- A run from a link through to the end of its pages. -/
structure ReadThrough (server : String → σ → Except Exc DeltaPage × σ)
    (wants : List SourceFile → Bool) (userKey cursorKey : String) (pages : List DeltaPage)
    (ended : Option Exc) (s' : σ) (last : Option Token) (st : FeedState σ)
    (feed : FeedProgram FeedEnd) : Prop where
  -- a failing page comes out as it is, and nothing is recorded then
  run : feed.run (surroundings server wants) st =
    (ended.elim .finished .raised,
      { source := s', handed := st.handed ++ keptOf pages,
        cursors := record cursorKey (if ended.isSome then none else last) st.cursors })
  -- the cursor comes after all that is read
  trace : ∃ reads, feed.trace (surroundings server wants) st =
      reads ++ recordEvents cursorKey (if ended.isSome then none else last) ∧
    (∀ ev ∈ reads, isSetCursor ev = false) ∧ reads.filterMap consumed = keptOf pages

theorem consumed_handed (files : List SourceFile) :
    (files.map (fun f => (⟨.hand f, true⟩ : Event FeedRequest.Ans))).filterMap consumed = files := by
  rw [List.filterMap_map]
  exact List.filterMap_some

theorem not_isSetCursor_handed {files : List SourceFile} {ev : Event FeedRequest.Ans}
    (h : ev ∈ files.map (fun f => (⟨.hand f, true⟩ : Event FeedRequest.Ans))) :
    isSetCursor ev = false := by
  obtain ⟨f, -, rfl⟩ := List.mem_map.mp h
  rfl

variable {userKey cursorKey} in
/-- One page in front of a run that goes through to the end. -/
theorem ReadThrough.page {p : DeltaPage} {ps : List DeltaPage} {url : String}
    {ended : Option Exc} {s' s'' : σ} {last : Option Token} {st : FeedState σ}
    {feed feed' : FeedProgram FeedEnd}
    (h : ReadThrough server wants userKey cursorKey ps ended s'' last
      { st with source := s', handed := st.handed ++ kept p.value } feed')
    (hrun : feed.run (surroundings server wants) st = feed'.run (surroundings server wants)
      { st with source := s', handed := st.handed ++ kept p.value })
    (htrace : feed.trace (surroundings server wants) st = ⟨.get url userKey, .ok p⟩ ::
      ((kept p.value).map (fun f => ⟨.hand f, true⟩) ++ feed'.trace (surroundings server wants)
        { st with source := s', handed := st.handed ++ kept p.value })) :
    ReadThrough server wants userKey cursorKey (p :: ps) ended s'' last st feed where
  run := by rw [hrun, h.run, keptOf_cons, List.append_assoc]
  trace := by
    obtain ⟨reads, hreads, hnone, hconsumed⟩ := h.trace
    refine ⟨⟨.get url userKey, .ok p⟩ ::
      ((kept p.value).map (fun f => ⟨.hand f, true⟩) ++ reads), ?_, ?_, ?_⟩
    · rw [htrace, hreads, List.cons_append, List.append_assoc]
    · intro ev hev
      rcases List.mem_cons.mp hev with rfl | hmem
      · rfl
      · rcases List.mem_append.mp hmem with hhand | hread
        · exact not_isSetCursor_handed hhand
        · exact hnone ev hread
    · rw [keptOf_cons, List.filterMap_cons_none rfl, List.filterMap_append, consumed_handed,
        hconsumed]

/-- A consumer that comes back every time reads the feed to its end. -/
theorem readFeed_through {s s' : σ} {url : Option Token} {pages : List DeltaPage}
    {ended : Option Exc} (h : Pages server s url pages ended s') (fuel : ℕ)
    (deltaLink : Option Token) (st : FeedState σ) (hs : st.source = s)
    (hwants : ¬ Stops wants st.handed (keptOf pages))
    (hfuel : pages.length + ended.toList.length ≤ fuel) :
    ReadThrough server wants userKey cursorKey pages ended s' ((lastDelta pages).or deltaLink) st
      (readFeed userKey cursorKey fuel url deltaLink) := by
  induction h generalizing fuel deltaLink st with
  | last s =>
    subst hs
    have hsame : st.handed ++ keptOf [] = st.handed := List.append_nil _
    cases deltaLink with
    | none =>
      refine ⟨?_, [], by rw [readFeed.eq_def]; rfl, fun ev hev => absurd hev List.not_mem_nil, rfl⟩
      rw [readFeed.eq_def, hsame]
      rfl
    | some link =>
      refine ⟨?_, [], by rw [readFeed.eq_def]; rfl, fun ev hev => absurd hev List.not_mem_nil, rfl⟩
      rw [readFeed.eq_def, hsame]
      rfl
  | @failed s s' link e answer =>
    subst hs
    cases fuel with
    | zero => exact absurd hfuel (by simp)
    | succ fuel =>
      obtain ⟨hrun, htrace⟩ := readFeed_failed wants userKey cursorKey deltaLink fuel answer
      have hsame : st.handed ++ keptOf [] = st.handed := List.append_nil _
      refine ⟨?_, [⟨.get link.val userKey, .error e⟩], ?_, ?_, ?_⟩
      · rw [hrun, hsame]
        rfl
      · exact htrace.trans (List.append_nil _).symm
      · intro ev hev
        rw [List.mem_singleton.mp hev]
        rfl
      · rfl
  | @page s s' t link p ps e answer rest ih =>
    subst hs
    cases fuel with
    | zero => exact absurd hfuel (by simp)
    | succ fuel =>
      rw [keptOf_cons, stops_append, not_or] at hwants
      obtain ⟨hrun, htrace⟩ := readFeed_page userKey cursorKey deltaLink fuel answer hwants.1
      have hrest := ih fuel ((p.deltaLink.bind truthy).or deltaLink)
        { st with source := s', handed := st.handed ++ kept p.value } rfl hwants.2
        (by rw [List.length_cons] at hfuel; omega)
      rw [← Option.or_assoc, ← lastDelta_cons] at hrest
      exact hrest.page hrun htrace

/-- Nothing is recorded in a run that does not come to the end of the feed. -/
structure Unrecorded (server : String → σ → Except Exc DeltaPage × σ)
    (wants : List SourceFile → Bool) (st : FeedState σ) (feed : FeedProgram FeedEnd) : Prop where
  unfinished : (feed.run (surroundings server wants) st).1 ≠ .finished
  cursors : (feed.run (surroundings server wants) st).2.cursors = st.cursors
  noCursor : ∀ ev ∈ feed.trace (surroundings server wants) st, isSetCursor ev = false

theorem Unrecorded.congr {st st' : FeedState σ} {feed feed' : FeedProgram FeedEnd}
    (h : Unrecorded server wants st' feed') (hcursors : st'.cursors = st.cursors)
    (hrun : feed.run (surroundings server wants) st = feed'.run (surroundings server wants) st')
    {reads : List (Event FeedRequest.Ans)} (hreads : ∀ ev ∈ reads, isSetCursor ev = false)
    (htrace : feed.trace (surroundings server wants) st =
      reads ++ feed'.trace (surroundings server wants) st') :
    Unrecorded server wants st feed where
  unfinished := by
    rw [hrun]
    exact h.unfinished
  cursors := by
    rw [hrun, h.cursors, hcursors]
  noCursor := by
    intro ev hev
    rw [htrace] at hev
    rcases List.mem_append.mp hev with hread | hrest
    · exact hreads ev hread
    · exact h.noCursor ev hrest

/-- A run comes to the end of the feed, its consumer with it, or records nothing. -/
theorem readFeed_cases (fuel : ℕ) (url deltaLink : Option Token) (st : FeedState σ) :
    (∃ pages s', Pages server st.source url pages none s' ∧
        ¬ Stops wants st.handed (keptOf pages) ∧ pages.length ≤ fuel) ∨
      Unrecorded server wants st (readFeed userKey cursorKey fuel url deltaLink) := by
  induction fuel generalizing url deltaLink st with
  | zero =>
    cases url with
    | none => exact Or.inl ⟨[], st.source, Chain.last st.source, not_stops_nil _, Nat.le_refl 0⟩
    | some url =>
      refine Or.inr ⟨?_, ?_, ?_⟩
      · rw [readFeed.eq_def]
        exact fun h => FeedEnd.noConfusion h
      · rw [readFeed.eq_def]
        rfl
      · rw [readFeed.eq_def]
        exact fun ev hev => absurd hev List.not_mem_nil
  | succ fuel ih =>
    cases url with
    | none => exact Or.inl ⟨[], st.source, Chain.last st.source, not_stops_nil _, Nat.zero_le _⟩
    | some url =>
      cases hanswer : server url.val st.source with
      | mk answer s' =>
        cases answer with
        | error e =>
          obtain ⟨hrun, htrace⟩ := readFeed_failed wants userKey cursorKey deltaLink fuel hanswer
          refine Or.inr ⟨?_, ?_, ?_⟩
          · rw [hrun]
            exact fun h => FeedEnd.noConfusion h
          · rw [hrun]
          · intro ev hev
            rw [htrace] at hev
            rw [List.mem_singleton.mp hev]
            rfl
        | ok page =>
          by_cases hstops : Stops wants st.handed (kept page.value)
          · obtain ⟨n, hrun, htrace⟩ :=
              readFeed_stops userKey cursorKey deltaLink fuel hanswer hstops
            refine Or.inr ⟨?_, ?_, htrace⟩
            · rw [hrun]
              exact fun h => FeedEnd.noConfusion h
            · rw [hrun]
          · obtain ⟨hrun, htrace⟩ := readFeed_page userKey cursorKey deltaLink fuel hanswer hstops
            rcases ih page.next ((page.deltaLink.bind truthy).or deltaLink)
                { st with source := s', handed := st.handed ++ kept page.value } with
              ⟨pages, t, hpages, hwants, hlength⟩ | hrest
            · refine Or.inl ⟨page :: pages, t, Chain.page hanswer hpages, ?_,
                Nat.succ_le_succ hlength⟩
              rw [keptOf_cons, stops_append, not_or]
              exact ⟨hstops, hwants⟩
            · refine Or.inr (hrest.congr rfl hrun ?_
                (htrace.trans (List.append_assoc [_] _ _).symm))
              intro ev hev
              rcases List.mem_append.mp hev with hget | hhand
              · rw [List.mem_singleton.mp hget]
                rfl
              · obtain ⟨f, -, rfl⟩ := List.mem_map.mp hhand
                rfl

variable (wants) in
/-- Whatever ends a run, the files that were handed out are the first of the feed. -/
theorem readFeed_handed {s s' : σ} {url : Option Token} {pages : List DeltaPage}
    {ended : Option Exc} (h : Pages server s url pages ended s') (fuel : ℕ)
    (deltaLink : Option Token) (st : FeedState σ) (hs : st.source = s) :
    let out := (readFeed userKey cursorKey fuel url deltaLink).run (surroundings server wants) st
    (∃ files, files <+: keptOf pages ∧ out.2.handed = st.handed ++ files) ∧
      (out.1 = .cut → fuel ≤ pages.length) := by
  induction h generalizing fuel deltaLink st with
  | last s =>
    subst hs
    rw [readFeed.eq_def]
    cases deltaLink with
    | none => exact ⟨⟨[], List.prefix_rfl, (List.append_nil _).symm⟩, fun h => FeedEnd.noConfusion h⟩
    | some link =>
      exact ⟨⟨[], List.prefix_rfl, (List.append_nil _).symm⟩, fun h => FeedEnd.noConfusion h⟩
  | @failed s s' link e answer =>
    subst hs
    cases fuel with
    | zero =>
      rw [readFeed.eq_def]
      exact ⟨⟨[], List.prefix_rfl, (List.append_nil _).symm⟩, fun _ => Nat.le_refl 0⟩
    | succ fuel =>
      obtain ⟨hrun, -⟩ := readFeed_failed wants userKey cursorKey deltaLink fuel answer
      rw [hrun]
      exact ⟨⟨[], List.prefix_rfl, (List.append_nil _).symm⟩, fun h => FeedEnd.noConfusion h⟩
  | @page s s' t link p ps e answer rest ih =>
    subst hs
    cases fuel with
    | zero =>
      rw [readFeed.eq_def]
      exact ⟨⟨[], List.nil_prefix, (List.append_nil _).symm⟩, fun _ => Nat.zero_le _⟩
    | succ fuel =>
      rw [keptOf_cons]
      by_cases hstops : Stops wants st.handed (kept p.value)
      · obtain ⟨n, hrun, -⟩ := readFeed_stops userKey cursorKey deltaLink fuel answer hstops
        rw [hrun]
        refine ⟨⟨(kept p.value).take n, ?_, rfl⟩, fun h => FeedEnd.noConfusion h⟩
        exact (List.take_prefix n _).trans (List.prefix_append _ _)
      · obtain ⟨hrun, -⟩ := readFeed_page userKey cursorKey deltaLink fuel answer hstops
        obtain ⟨⟨files, hfiles, hhanded⟩, hcut⟩ := ih fuel ((p.deltaLink.bind truthy).or deltaLink)
          { st with source := s', handed := st.handed ++ kept p.value } rfl
        rw [hrun]
        refine ⟨⟨kept p.value ++ files, (List.prefix_append_right_inj _).mpr hfiles, ?_⟩,
          fun h => Nat.succ_le_succ (hcut h)⟩
        rw [hhanded, List.append_assoc]

/-- A failing page or a consumer that stops keeps the cursor from being recorded, however long
the run goes on. -/
theorem readFeed_unrecorded {s s' : σ} {url : Option Token} {pages : List DeltaPage}
    {ended : Option Exc} (h : Pages server s url pages ended s') (fuel : ℕ)
    (deltaLink : Option Token) (st : FeedState σ) (hs : st.source = s)
    (hpartly : ended ≠ none ∨ Stops wants st.handed (keptOf pages)) :
    Unrecorded server wants st (readFeed userKey cursorKey fuel url deltaLink) := by
  subst hs
  apply (readFeed_cases userKey cursorKey fuel url deltaLink st).resolve_left
  rintro ⟨pages', t, hpages, hwants, -⟩
  obtain ⟨rfl, rfl, -⟩ := h.unique hpages
  exact hpartly.elim (fun hended => hended rfl) hwants

variable (server wants) in
/-- A run comes to the end of the feed and has handed out all of it, or records nothing. -/
theorem iterDrive_cases (driveRoot : String) (since : Option Token) (fuel : ℕ) (st : FeedState σ)
    (hst : st.handed = []) :
    let feed := iterDrive driveRoot userKey cursorKey since fuel
    (∃ pages s', Pages server st.source (startUrl driveRoot since) pages none s' ∧
        ¬ Stops wants [] (keptOf pages) ∧ feed.run (surroundings server wants) st =
          (.finished,
            { source := s', handed := keptOf pages,
              cursors := record cursorKey (lastDelta pages) st.cursors })) ∨
      Unrecorded server wants st feed := by
  refine (readFeed_cases userKey cursorKey fuel (startUrl driveRoot since) none st).imp_left ?_
  rintro ⟨pages, s', hpages, hwants, hfuel⟩
  have hrun := (readFeed_through userKey cursorKey hpages fuel none st rfl hwants hfuel).run
  rw [Option.or_none, hst, List.nil_append] at hrun
  rw [hst] at hwants
  exact ⟨pages, s', hpages, hwants, hrun⟩

end

end GwsMigrator.DeltaFeed
