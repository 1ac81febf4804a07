import GwsMigrator.FolderPaths
import GwsMigrator.ScriptedGraph
import GwsMigrator.TextEdits

/-! The cache of `_get_folder` over a run: every path in it was opened segment by segment, and
no segment of a path was opened twice. -/
namespace GwsMigrator
open Dialogue

abbrev FolderCache := AList (fun _ : String => Token)

/-- The path that the segments make. -/
def joined (segments : List String) : String := "\\".intercalate segments

/-- Segments of a path: there is one, and none holds the separator. -/
structure IsPath (segments : List String) : Prop where
  ne_nil : segments ≠ []
  plain : ∀ s ∈ segments, '\\' ∉ s.toList

/-- What `ensure_mail_folder` was asked for, and the id that it returned. -/
structure Ensured where
  displayName : String
  parentId : Option Token
  folderId : Token

/-- A call to `ensure_mail_folder` that did not raise. -/
def ensuredBy : Event Call.Ans → Option Ensured
  | ⟨.ensureMailFolder name parent, .ok fid⟩ => some ⟨name, parent, fid⟩
  | _ => none

/-- All of them, newest first. -/
def ensured (log : Log Call.Ans) : List Ensured := log.filterMap ensuredBy

/-- The call that opened a path: its last segment under the id that is cached for the segments
before it, or at the top, where the name is no token of a system folder. -/
inductive Opening (cache : FolderCache) : String → Ensured → Prop
  | top {name : String} {fid : Token} : '\\' ∉ name.toList → wellKnownFolderId name = none →
      cache.lookup (joined [name]) = some fid → Opening cache (joined [name]) ⟨name, none, fid⟩
  | below {parents : List String} {name : String} {pid fid : Token} : IsPath (parents ++ [name]) →
      parents ≠ [] → cache.lookup (joined parents) = some pid →
      cache.lookup (joined (parents ++ [name])) = some fid →
      Opening cache (joined (parents ++ [name])) ⟨name, some pid, fid⟩

/-- How an id came into the cache. -/
inductive CachedBy (cache : FolderCache) (made : List Ensured) (path : String) (fid : Token) :
    Prop
  | wellKnown : '\\' ∉ path.toList → wellKnownFolderId path = some fid → CachedBy cache made path fid
  | opened (m : Ensured) : m ∈ made → m.folderId = fid → Opening cache path m →
      CachedBy cache made path fid

/-- The cache after some calls of a run in which the ids `made` were returned. -/
structure CacheOk (cache : FolderCache) (made : List Ensured) : Prop where
  entries : ∀ path fid, cache.lookup path = some fid → CachedBy cache made path fid
  prefixes : ∀ path ∈ cache, ∀ n, 0 < n → joined ((pathParts path).take n) ∈ cache
  once : ∃ opened : List String, opened.Nodup ∧ List.Forall₂ (Opening cache) opened made

theorem pathParts_joined {segments : List String} (h : IsPath segments) :
    pathParts (joined segments) = segments :=
  (pathParts_join_iff h.ne_nil).mpr h.plain

theorem isPath_pathParts (path : String) : IsPath (pathParts path) := by
  refine ⟨pathParts_ne_nil path, ?_⟩
  apply (pathParts_join_iff (pathParts_ne_nil path)).mp
  rw [join_pathParts]

theorem joined_pathParts (path : String) : joined (pathParts path) = path := join_pathParts path

theorem IsPath.singleton {name : String} (h : '\\' ∉ name.toList) : IsPath [name] :=
  ⟨by simp, by simpa using h⟩

theorem joined_singleton (name : String) : joined [name] = name := by
  rw [joined, String.intercalate_singleton]

theorem IsPath.of_prefix {segments front : List String} (h : IsPath segments)
    (hfront : front <+: segments) (hne : front ≠ []) : IsPath front :=
  ⟨hne, fun s hs => h.plain s (hfront.subset hs)⟩

section steps

theorem Opening.mono {cache cache' : FolderCache}
    (hkept : ∀ path fid, cache.lookup path = some fid → cache'.lookup path = some fid)
    {path : String} {m : Ensured} (h : Opening cache path m) : Opening cache' path m := by
  cases h with
  | top hplain hname hfid => exact Opening.top hplain hname (hkept _ _ hfid)
  | below hpath hne hpid hfid => exact Opening.below hpath hne (hkept _ _ hpid) (hkept _ _ hfid)

theorem Opening.mem {cache : FolderCache} {path : String} {m : Ensured} (h : Opening cache path m) :
    path ∈ cache := by
  apply AList.lookup_isSome.mp
  cases h with
  | top _ _ hfid => simp [hfid]
  | below _ _ _ hfid => simp [hfid]

theorem cacheOk_empty : CacheOk ∅ [] where
  entries := by simp
  prefixes := by simp
  once := ⟨[], List.nodup_nil, List.Forall₂.nil⟩

theorem lookup_insert_of_absent {cache : FolderCache} {current : String} {fid : Token}
    (hnew : cache.lookup current = none) (path : String) (other : Token)
    (h : cache.lookup path = some other) : (cache.insert current fid).lookup path = some other := by
  have hne : path ≠ current := by
    rintro rfl
    rw [hnew] at h
    cases h
  rw [AList.lookup_insert_ne hne, h]

/-- A path is put into the cache when all before its last segment is there: as a well-known folder,
or with the id that a new call returned. -/
theorem CacheOk.insert {cache : FolderCache} {made : List Ensured} (h : CacheOk cache made)
    {current : String} {fid : Token} (call : Option Ensured) (hnew : cache.lookup current = none)
    (hshorter : ∀ n, 0 < n → n < (pathParts current).length →
      joined ((pathParts current).take n) ∈ cache)
    (hby : CachedBy (cache.insert current fid) (call.toList ++ made) current fid)
    (hcall : ∀ m ∈ call, Opening (cache.insert current fid) current m) :
    CacheOk (cache.insert current fid) (call.toList ++ made) := by
  have hkept := @lookup_insert_of_absent cache current fid hnew
  refine ⟨fun path other hlookup => ?_, fun path hpath n hn => ?_, ?_⟩
  · by_cases hpath : path = current
    · subst hpath
      rw [AList.lookup_insert, Option.some.injEq] at hlookup
      exact hlookup ▸ hby
    · rw [AList.lookup_insert_ne hpath] at hlookup
      cases h.entries path other hlookup with
      | wellKnown hplain hfid => exact CachedBy.wellKnown hplain hfid
      | opened m hm hfid hopening =>
        exact CachedBy.opened m (List.mem_append_right _ hm) hfid (hopening.mono hkept)
  · rw [AList.mem_insert] at hpath ⊢
    rcases hpath with rfl | hpath
    · by_cases hlength : n < (pathParts path).length
      · exact Or.inr (hshorter n hn hlength)
      · -- a prefix that is not shorter is the path itself
        rw [List.take_of_length_le (by omega), joined_pathParts]
        exact Or.inl rfl
    · exact Or.inr (h.prefixes path hpath n hn)
  · obtain ⟨opened, hnodup, hopened⟩ := h.once
    have hopened' : List.Forall₂ (Opening (cache.insert current fid)) opened made :=
      hopened.imp (fun _ _ hone => hone.mono hkept)
    cases call with
    | none => exact ⟨opened, hnodup, hopened'⟩
    | some m =>
      refine ⟨current :: opened, ?_, List.Forall₂.cons (hcall m rfl) hopened'⟩
      -- what was opened before is cached, and this path was not
      apply List.nodup_cons.mpr
      refine ⟨fun hmem => ?_, hnodup⟩
      obtain ⟨m', -, hm'⟩ := TextEdits.mem_forall₂ hopened.flip hmem
      have hcached := AList.lookup_isSome.mpr (Opening.mem hm')
      rw [hnew] at hcached
      cases hcached

end steps

/-- The cache after some segments were gone through: all that was there, and the first `k` of the
prefixes that the segments make behind those already walked. -/
structure Resolves (cache cache' : FolderCache) (walked parts : List String) (k : ℕ) : Prop where
  kept : ∀ path fid, cache.lookup path = some fid → cache'.lookup path = some fid
  keys : ∀ path, path ∈ cache' ↔
    path ∈ cache ∨ ∃ n, 0 < n ∧ n ≤ k ∧ path = joined (walked ++ parts.take n)

theorem Resolves.refl (cache : FolderCache) (walked parts : List String) :
    Resolves cache cache walked parts 0 where
  kept := fun _ _ h => h
  keys := fun path => ⟨Or.inl, fun h => h.elim id (fun ⟨n, hpos, hzero, _⟩ => by omega)⟩

/-- A first segment that is there or has just been put there, and then the others. -/
theorem Resolves.cons {cache mid cache' : FolderCache} {walked rest : List String} {part : String}
    {k : ℕ} (hkept : ∀ path fid, cache.lookup path = some fid → mid.lookup path = some fid)
    (hkeys : ∀ path, path ∈ mid ↔ path ∈ cache ∨ path = joined (walked ++ [part]))
    (h : Resolves mid cache' (walked ++ [part]) rest k) :
    Resolves cache cache' walked (part :: rest) (k + 1) where
  kept := fun path fid hlookup => h.kept path fid (hkept path fid hlookup)
  keys := by
    intro path
    rw [h.keys, hkeys]
    constructor
    · rintro ((hold | rfl) | ⟨n, hpos, hn, rfl⟩)
      · exact Or.inl hold
      · exact Or.inr ⟨1, by omega, by omega, rfl⟩
      · refine Or.inr ⟨n + 1, by omega, by omega, ?_⟩
        rw [List.take_succ_cons, List.append_assoc, List.singleton_append]
    · rintro (hold | ⟨n, hpos, hn, rfl⟩)
      · exact Or.inl (Or.inl hold)
      · cases n with
        | zero => omega
        | succ n =>
          rw [List.take_succ_cons]
          cases n with
          | zero => exact Or.inl (Or.inr rfl)
          | succ n =>
            refine Or.inr ⟨n + 1, by omega, by omega, ?_⟩
            rw [List.append_assoc, List.singleton_append]

/-- What a walk over segments leaves. When a call raises, the prefixes before its segment are
cached and its own is not. -/
def WalkEnds (cache : FolderCache) (walked parts : List String) (st : MailLoop) :
    Except Exc Unit → Prop
  | .ok _ => Resolves cache st.folderCache walked parts parts.length
  | .error e => ∃ k name parent before, parts[k]? = some name ∧
      Resolves cache st.folderCache walked parts k ∧
      joined (walked ++ parts.take (k + 1)) ∉ st.folderCache ∧
      st.world.log = ⟨.ensureMailFolder name parent, .error e⟩ :: before

/-- The calls since a log, and the cache that they left. -/
def CacheRun (log₀ : Log Call.Ans) (st : MailLoop) : Prop :=
  ∃ more, st.world.log = more ++ log₀ ∧ CacheOk st.folderCache (ensured more)

/-- The id that the next segment is opened under. -/
def ParentOf (cache : FolderCache) (walked : List String) (parentId : Option Token) : Prop :=
  if walked = [] then parentId = none
  else ∃ pid, parentId = some pid ∧ cache.lookup (joined walked) = some pid

section walk
variable (g : Graph) (user : UserMapping) {log₀ : Log Call.Ans}

/-- The state once the last segment of a path is opened. -/
def MailLoop.open (st : MailLoop) (w : World) (path : String) (fid : Token) : MailLoop :=
  { st with
    world := w.upsertFolder ⟨user.sourceId, "mail", path⟩ fid path
    folderCache := st.folderCache.insert path fid }

theorem walkFolder_cons (st : MailLoop) (walked : List String) (parentId : Option Token)
    (part : String) (rest : List String) :
    walkFolder g user st walked parentId (part :: rest) =
      match st.folderCache.lookup (joined (walked ++ [part])) with
      | some fid => walkFolder g user st (walked ++ [part]) (some fid) rest
      | none =>
        match openSegment g st.world part (walked = []) parentId with
        | (.error e, w) => (.error e, { st with world := w })
        | (.ok fid, w) =>
          walkFolder g user (st.open user w (joined (walked ++ [part])) fid) (walked ++ [part])
            (some fid) rest := rfl

/-- A segment is a system folder at the top, or it takes one call. -/
theorem openSegment_cases (w : World) (part : String) (top : Bool) (parentId : Option Token) :
    (∃ fid, top = true ∧ wellKnownFolderId part = some fid ∧
      openSegment g w part top parentId = (.ok fid, w)) ∨
    ((top = true → wellKnownFolderId part = none) ∧
      ∃ result w', openSegment g w part top parentId = (result, w') ∧
        w'.log = ⟨.ensureMailFolder part parentId, result⟩ :: w.log) := by
  rw [openSegment, resolveFolderSegment]
  cases top with
  | false => exact Or.inr ⟨by simp, _, _, rfl, rfl⟩
  | true =>
    cases hwell : wellKnownFolderId part with
    | some fid => exact Or.inl ⟨fid, rfl, rfl, by simp⟩
    | none => exact Or.inr ⟨fun _ => rfl, _, _, rfl, rfl⟩

/-- Behind walked segments the prefixes of a path are cached: they are those that were walked. -/
theorem CacheOk.shorter_cached {cache : FolderCache} {calls : List Ensured}
    (hok : CacheOk cache calls) {walked : List String} {part : String} {parentId : Option Token}
    (hpath : IsPath (walked ++ [part])) (hparent : ParentOf cache walked parentId) (n : ℕ)
    (hpos : 0 < n) (hlength : n < (pathParts (joined (walked ++ [part]))).length) :
    joined ((pathParts (joined (walked ++ [part]))).take n) ∈ cache := by
  rw [pathParts_joined hpath] at hlength ⊢
  rw [List.length_append, List.length_singleton] at hlength
  rw [List.take_append_of_le_length (by omega)]
  have hwalked : walked ≠ [] := by
    rintro rfl
    simp only [List.length_nil] at hlength
    omega
  rw [ParentOf, if_neg hwalked] at hparent
  obtain ⟨pid, -, hpid⟩ := hparent
  have hmem : joined walked ∈ cache := AList.lookup_isSome.mp (by simp [hpid])
  have hfront : IsPath walked := hpath.of_prefix (List.prefix_append _ _) hwalked
  have hall := hok.prefixes (joined walked) hmem n hpos
  rwa [pathParts_joined hfront] at hall

/-- The call for a segment that is no system folder opens its path. -/
theorem ParentOf.opening {cache : FolderCache} {walked : List String} {part : String}
    {parentId : Option Token} {fid : Token} (hparent : ParentOf cache walked parentId)
    (hpath : IsPath (walked ++ [part]))
    (hname : decide (walked = []) = true → wellKnownFolderId part = none)
    (hcached : cache.lookup (joined (walked ++ [part])) = none) :
    Opening (cache.insert (joined (walked ++ [part])) fid) (joined (walked ++ [part]))
      ⟨part, parentId, fid⟩ := by
  by_cases hwalked : walked = []
  · rw [ParentOf, if_pos hwalked] at hparent
    subst hwalked hparent
    exact Opening.top (hpath.plain part (by simp)) (hname (by simp)) (AList.lookup_insert _)
  · rw [ParentOf, if_neg hwalked] at hparent
    obtain ⟨pid, rfl, hpid⟩ := hparent
    exact Opening.below hpath hwalked (lookup_insert_of_absent hcached _ _ hpid)
      (AList.lookup_insert _)

/-- A segment that is opened behind walked ones keeps the cache sound. -/
theorem CacheRun.open {st : MailLoop} (hrun : CacheRun log₀ st) {walked : List String}
    {part : String} {parentId : Option Token} {fid : Token} {w : World}
    (hpath : IsPath (walked ++ [part])) (hparent : ParentOf st.folderCache walked parentId)
    (hcached : st.folderCache.lookup (joined (walked ++ [part])) = none)
    (hopen : openSegment g st.world part (walked = []) parentId = (.ok fid, w)) :
    CacheRun log₀ (st.open user w (joined (walked ++ [part])) fid) := by
  obtain ⟨more, hlog, hok⟩ := hrun
  have hshorter := hok.shorter_cached hpath hparent
  rcases openSegment_cases g st.world part (walked = []) parentId with
    ⟨fid', htop, hwell, hresult⟩ | ⟨hname, result, w', hresult, hlog'⟩
  · obtain ⟨rfl, rfl⟩ : fid' = fid ∧ st.world = w := by
      rw [hopen] at hresult
      obtain ⟨hfid, hw⟩ := Prod.mk.inj hresult
      exact ⟨(Except.ok.inj hfid).symm, hw.symm⟩
    have hwalked : walked = [] := of_decide_eq_true htop
    refine ⟨more, hlog, ?_⟩
    apply hok.insert none hcached hshorter
    · refine CachedBy.wellKnown ?_ ?_
      · rw [hwalked, List.nil_append, joined_singleton]
        exact hpath.plain part (by simp)
      · rw [hwalked, List.nil_append, joined_singleton]
        exact hwell
    · simp
  · obtain ⟨rfl, rfl⟩ : result = .ok fid ∧ w' = w := by
      rw [hopen] at hresult
      obtain ⟨hfid, hw⟩ := Prod.mk.inj hresult
      exact ⟨hfid.symm, hw.symm⟩
    have hopening : Opening (st.folderCache.insert (joined (walked ++ [part])) fid)
        (joined (walked ++ [part])) ⟨part, parentId, fid⟩ := hparent.opening hpath hname hcached
    refine ⟨⟨.ensureMailFolder part parentId, .ok fid⟩ :: more, ?_, ?_⟩
    · change w'.log = _
      rw [hlog', hlog, List.cons_append]
    · change CacheOk _ ([⟨part, parentId, fid⟩] ++ ensured more)
      apply hok.insert (some ⟨part, parentId, fid⟩) hcached hshorter
      · exact CachedBy.opened _ List.mem_cons_self rfl hopening
      · rintro m ⟨⟩
        exact hopening

/-- A walk below a segment that is cached by now is a walk from that segment on. -/
theorem WalkEnds.cons {cache mid : FolderCache} {walked rest : List String} {part : String}
    {st' : MailLoop} {outcome : Except Exc Unit}
    (hkept : ∀ path fid, cache.lookup path = some fid → mid.lookup path = some fid)
    (hkeys : ∀ path, path ∈ mid ↔ path ∈ cache ∨ path = joined (walked ++ [part]))
    (h : WalkEnds mid (walked ++ [part]) rest st' outcome) :
    WalkEnds cache walked (part :: rest) st' outcome := by
  cases outcome with
  | ok u => exact Resolves.cons hkept hkeys h
  | error e =>
    obtain ⟨k, name, parent, before, hname, hresolves, habsent, hlog⟩ := h
    refine ⟨k + 1, name, parent, before, by simpa using hname,
      Resolves.cons hkept hkeys hresolves, ?_, hlog⟩
    rwa [List.take_succ_cons, List.append_cons]

variable {g} in
/-- A call that raises on the first segment caches nothing. -/
theorem CacheRun.raised {st : MailLoop} {walked rest : List String} {part : String}
    {parentId : Option Token} {e : Exc} {w : World} (hrun : CacheRun log₀ st)
    (hcached : st.folderCache.lookup (joined (walked ++ [part])) = none)
    (hopen : openSegment g st.world part (walked = []) parentId = (.error e, w)) :
    CacheRun log₀ { st with world := w } ∧
      WalkEnds st.folderCache walked (part :: rest) { st with world := w } (.error e) := by
  rcases openSegment_cases g st.world part (walked = []) parentId with
    ⟨fid, -, -, hresult⟩ | ⟨-, result, w', hresult, hlog'⟩
  · rw [hopen] at hresult
    cases (Prod.mk.inj hresult).1
  · rw [hopen] at hresult
    obtain ⟨rfl, rfl⟩ := Prod.mk.inj hresult
    obtain ⟨more, hlog, hok⟩ := hrun
    refine ⟨⟨⟨.ensureMailFolder part parentId, .error e⟩ :: more, ?_, hok⟩,
      0, part, parentId, st.world.log, rfl, Resolves.refl _ _ _, ?_, hlog'⟩
    · change w.log = _
      rw [hlog', hlog, List.cons_append]
    · intro hmem
      have hsome := AList.lookup_isSome.mpr hmem
      rw [List.take_succ_cons, List.take_zero, hcached] at hsome
      cases hsome

theorem walkFolder_run (parts : List String) (st : MailLoop) (walked : List String)
    (parentId : Option Token) (hplain : ∀ s ∈ walked ++ parts, '\\' ∉ s.toList)
    (hrun : CacheRun log₀ st) (hparent : ParentOf st.folderCache walked parentId) :
    CacheRun log₀ (walkFolder g user st walked parentId parts).2 ∧
      WalkEnds st.folderCache walked parts (walkFolder g user st walked parentId parts).2
        (walkFolder g user st walked parentId parts).1 := by
  induction parts generalizing st walked parentId with
  | nil => exact ⟨hrun, Resolves.refl _ _ _⟩
  | cons part rest ih =>
    have hpath : IsPath (walked ++ [part]) := by
      refine ⟨by simp, fun s hs => hplain s ?_⟩
      rw [List.append_cons]
      exact List.mem_append_left _ hs
    have hplain' : ∀ s ∈ (walked ++ [part]) ++ rest, '\\' ∉ s.toList := by
      rwa [← List.append_cons]
    have hne : walked ++ [part] ≠ [] := hpath.ne_nil
    -- the walk goes on below a segment that is cached by now
    have hrest : ∀ (st₁ : MailLoop) (fid : Token), CacheRun log₀ st₁ →
        st₁.folderCache.lookup (joined (walked ++ [part])) = some fid →
        (∀ path other, st.folderCache.lookup path = some other →
          st₁.folderCache.lookup path = some other) →
        (∀ path, path ∈ st₁.folderCache ↔
          path ∈ st.folderCache ∨ path = joined (walked ++ [part])) →
        CacheRun log₀ (walkFolder g user st₁ (walked ++ [part]) (some fid) rest).2 ∧
          WalkEnds st.folderCache walked (part :: rest)
            (walkFolder g user st₁ (walked ++ [part]) (some fid) rest).2
            (walkFolder g user st₁ (walked ++ [part]) (some fid) rest).1 := by
      intro st₁ fid hrun₁ hfid hkept hkeys
      have hparent₁ : ParentOf st₁.folderCache (walked ++ [part]) (some fid) := by
        rw [ParentOf, if_neg hne]
        exact ⟨fid, rfl, hfid⟩
      obtain ⟨hrun', hends⟩ := ih st₁ (walked ++ [part]) (some fid) hplain' hrun₁ hparent₁
      exact ⟨hrun', hends.cons hkept hkeys⟩
    rw [walkFolder_cons]
    cases hcached : st.folderCache.lookup (joined (walked ++ [part])) with
    | some fid =>
      have hmem : joined (walked ++ [part]) ∈ st.folderCache :=
        AList.lookup_isSome.mp (by simp [hcached])
      apply hrest st fid hrun hcached (fun _ _ h => h)
      intro path
      exact ⟨Or.inl, fun h => h.elim id (fun he => he ▸ hmem)⟩
    | none =>
      cases hopen : openSegment g st.world part (walked = []) parentId with
      | mk result w =>
        cases result with
        | ok fid =>
          have hrun₁ := hrun.open g user hpath hparent hcached hopen
          apply hrest _ fid hrun₁ (AList.lookup_insert _) (lookup_insert_of_absent hcached)
          intro path
          rw [MailLoop.open, AList.mem_insert, or_comm]
        | error e => exact hrun.raised hcached hopen

/-- What a call leaves: the id is cached with all prefixes of the path, or exactly the prefixes
before the segment whose call raised are cached now. -/
def CallEnds (st : MailLoop) (path : String) (result : Except Exc Token × MailLoop) : Prop :=
  match result.1 with
  | .ok fid => result.2.folderCache.lookup path = some fid ∧
      Resolves st.folderCache result.2.folderCache [] (pathParts path) (pathParts path).length
  | .error e => WalkEnds st.folderCache [] (pathParts path) result.2 (.error e)

theorem getFolder_run {st : MailLoop} (hrun : CacheRun log₀ st) (path : String) :
    CacheRun log₀ (getFolder g user st path).2 ∧ CallEnds st path (getFolder g user st path) := by
  have hwhole : joined ([] ++ (pathParts path).take (pathParts path).length) = path := by
    rw [List.nil_append, List.take_length, joined_pathParts]
  have hpos : 0 < (pathParts path).length := List.length_pos_iff.mpr (pathParts_ne_nil path)
  rw [getFolder]
  cases hcached : st.folderCache.lookup path with
  | some fid =>
    refine ⟨hrun, hcached, fun _ _ h => h, fun other => ⟨Or.inl, ?_⟩⟩
    -- every prefix of a cached path is cached already
    rintro (h | ⟨n, hn, -, rfl⟩)
    · exact h
    · obtain ⟨more, -, hok⟩ := hrun
      exact hok.prefixes path (AList.lookup_isSome.mp (by simp [hcached])) n hn
  | none =>
    have hparent : ParentOf st.folderCache [] none := by rw [ParentOf, if_pos rfl]
    have hwalk := walkFolder_run g user (pathParts path) st [] none
      (by simpa using (isPath_pathParts path).plain) hrun hparent
    generalize walkFolder g user st [] none (pathParts path) = walked at hwalk ⊢
    obtain ⟨outcome, st'⟩ := walked
    cases outcome with
    | error e => exact hwalk
    | ok u =>
      obtain ⟨hrun', hresolves⟩ := hwalk
      have hmem : path ∈ st'.folderCache :=
        (hresolves.keys path).mpr (Or.inr ⟨_, hpos, le_refl _, hwhole.symm⟩)
      obtain ⟨fid, hfid⟩ := Option.isSome_iff_exists.mp (AList.lookup_isSome.mpr hmem)
      simp only [hfid]
      exact ⟨hrun', hfid, hresolves⟩

end walk

/-- The states of a run of the job that calls `_get_folder` any number of times. Between two calls
it makes other calls, and nothing else touches the cache. -/
inductive CacheReach (g : Graph) (user : UserMapping) (w : World) : MailLoop → Prop
  | start : CacheReach g user w { world := w }
  | call {st : MailLoop} (path : String) : CacheReach g user w st →
      CacheReach g user w (getFolder g user st path).2
  | others {st st' : MailLoop} (more : Log Call.Ans) : CacheReach g user w st →
      st'.folderCache = st.folderCache → st'.world.log = more ++ st.world.log →
      ensured more = [] → CacheReach g user w st'

section run
variable {g : Graph} {user : UserMapping} {w : World}

theorem CacheReach.run {st : MailLoop} (h : CacheReach g user w st) : CacheRun w.log st := by
  induction h with
  | start => exact ⟨[], rfl, cacheOk_empty⟩
  | call path _ ih => exact (getFolder_run g user ih path).1
  | others more _ hcache hlog hnone ih =>
    obtain ⟨before, hbefore, hok⟩ := ih
    refine ⟨more ++ before, ?_, ?_⟩
    · rw [hlog, hbefore, List.append_assoc]
    · rw [hcache]
      have hensured : ensured (more ++ before) = ensured before := by
        rw [ensured, List.filterMap_append, ← ensured, hnone, List.nil_append, ensured]
      rwa [hensured]

/-- At every moment of a run each cached path was opened segment by segment, with all its prefixes
cached, and no path was opened twice; and a call ends with the path resolved, or where a segment
could not be opened. -/
theorem folderCache_sound {st : MailLoop} (h : CacheReach g user w st) :
    (∃ more, st.world.log = more ++ w.log ∧ CacheOk st.folderCache (ensured more)) ∧
      ∀ path, CallEnds st path (getFolder g user st path) :=
  ⟨h.run, fun path => (getFolder_run g user h.run path).2⟩

variable (importMode : ImportMode)

theorem importCopy_reach {st : MailLoop} (h : CacheReach g user w st) (k : ItemKey) (slot : ℕ)
    (path : String) (msg : SourceMessage) :
    CacheReach g user w (importCopy g user importMode st k slot path msg).2 := by
  have hcall := CacheReach.call path h
  rw [importCopy]
  generalize getFolder g user st path = result at hcall ⊢
  obtain ⟨outcome, st'⟩ := result
  cases outcome with
  | error e => exact hcall
  | ok fid =>
    simp only [importInto]
    cases g.ask st'.world (.importMessage k slot fid msg importMode) with
    | error e => exact CacheReach.others [_] hcall rfl rfl rfl
    | ok dest =>
      cases importMode with
      | json => exact CacheReach.others [_] hcall rfl rfl rfl
      | mime => exact CacheReach.others [_, _] hcall rfl rfl rfl

theorem importExtras_reach (k : ItemKey) (msg : SourceMessage) (extras : List (String × ℕ))
    {st : MailLoop} (h : CacheReach g user w st) :
    CacheReach g user w (extras.foldl (importExtra g user importMode k msg) st) := by
  induction extras generalizing st with
  | nil => exact h
  | cons extra extras ih =>
    have htried : CacheReach g user w { st with tried := (k, extra.2) :: st.tried } :=
      CacheReach.others [] h rfl rfl rfl
    exact ih (importCopy_reach importMode htried k extra.2 extra.1 msg)

theorem processMessage_reach (msg : SourceMessage) {st : MailLoop} (h : CacheReach g user w st) :
    CacheReach g user w (processMessage g user importMode st msg) := by
  have hfailed : ∀ {st' : MailLoop} (k : ItemKey) (text : String), CacheReach g user w st' →
      CacheReach g user w (failMessage st' k text) := by
    intro st' k text h'
    exact CacheReach.others [] h' rfl rfl rfl
  simp only [processMessage]
  split
  · exact h
  · split
    · exact hfailed _ _ h
    · have hcopy := importCopy_reach importMode h (messageKey user msg.sourceId) 0
        (targetPaths msg).1 msg
      generalize importCopy g user importMode st (messageKey user msg.sourceId) 0
        (targetPaths msg).1 msg = result at hcopy ⊢
      obtain ⟨outcome, st'⟩ := result
      cases outcome with
      | error e => exact hfailed _ _ hcopy
      | ok dest =>
        apply importExtras_reach
        exact CacheReach.others [] hcopy rfl rfl rfl

/-- The loop of `run_mail` goes through such states only. -/
theorem processMessages_reach (msgs : List SourceMessage) {st : MailLoop}
    (h : CacheReach g user w st) :
    CacheReach g user w (msgs.foldl (processMessage g user importMode) st) := by
  induction msgs generalizing st with
  | nil => exact h
  | cons msg msgs ih => exact ih (processMessage_reach importMode msg h)

end run

/-- Two calls with a common prefix, on a destination where every second folder is refused. -/
theorem folderCache_sound_refused :
    let g := scriptedGraph (fun log _ => if log.length % 2 = 1 then some (.other "refused") else none)
    let user : UserMapping := ⟨"a", "b"⟩
    let st := (getFolder g user { world := {} } "Work\\2024").2
    (st.folderCache.keys = ["Work"] ∧
      ∃ more, st.world.log = more ++ [] ∧ CacheOk st.folderCache (ensured more)) ∧
      CallEnds st "Work\\2023" (getFolder g user st "Work\\2023") := by
  intro g user st
  have hreach : CacheReach g user {} st := CacheReach.call "Work\\2024" CacheReach.start
  obtain ⟨hrun, hends⟩ := folderCache_sound hreach
  exact ⟨⟨by decide, hrun⟩, hends "Work\\2023"⟩

end GwsMigrator
