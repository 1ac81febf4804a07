import GwsMigrator.FilePlan
import GwsMigrator.Reruns

/-! New files of a folder that the batch lists again. A file whose parent has an entry from an
earlier pass is never put off, so it can be uploaded before the record of that folder, and if the
record is then resolved to another destination folder the folder is split. -/
namespace GwsMigrator
open Dialogue Worklist

section
variable (g : Graph) (user : UserMapping) (workload : String) (mode : Mode)
  (items : List SourceFile) (w₀ : World)

/-- A new child of the folder `p` has been uploaded since `w₀`. -/
def ChildUploaded (w : World) (p : String) : Prop :=
  ∃ c ∈ items, NewFile user workload mode w₀ c ∧ c.HasParent p ∧
    writesOf (fileKey user workload c.sourceId) w.log ≠
      writesOf (fileKey user workload c.sourceId) w₀.log

/-- A step on the record of a folder that has a destination already, and a new child in it: the
call that the record makes returns this destination. -/
def KeepsFolder (x : Taken FilesLoop SourceFile) : Prop :=
  x.2.2.isFolder = true → ∀ d, x.2.1.dest user workload x.2.2.sourceId = some d →
    ChildUploaded user workload mode items w₀ x.2.1.world x.2.2.sourceId →
    ∀ parent st₁ d', parentFor user workload x.2.1 x.2.2 x.1 = (.ok parent, st₁) →
      g.ask x.2.1.world (.ensureFolder (fileKey user workload x.2.2.sourceId) parent
        x.2.2.name) = .ok d' → d' = d

/-- Every new file of a known folder is where the folder map says its folder is. -/
def Unsplit (w : World) : Prop :=
  ∀ c ∈ items, NewFile user workload mode w₀ c → ∀ p d, c.HasParent p →
    w.db.getFolderDest (fileKey user workload p) = some d → PutInto user workload w₀ w c d

/-- What is known of the new files that are settled, whatever the records of their folders do. -/
structure Filling (P : Set String) (st : FilesLoop) : Prop where
  mapped : Mapped user workload items w₀ P st
  uploaded : ∀ c ∈ items, c.sourceId ∈ P → NewFile user workload mode w₀ c →
    ∃ write, writesOf (fileKey user workload c.sourceId) st.world.log =
      write :: writesOf (fileKey user workload c.sourceId) w₀.log
  early : ∀ c ∈ items, c.sourceId ∈ P → NewFile user workload mode w₀ c → ∀ p, c.HasParent p →
    (∀ q ∈ items, q.isFolder = true → q.sourceId = p → p ∉ P) →
    ∀ d, st.dest user workload p = some d → PutInto user workload w₀ st.world c d
  waited : ∀ c ∈ items, c.sourceId ∈ P → NewFile user workload mode w₀ c → ∀ p, c.HasParent p →
    st.dest user workload p = none → ∀ q ∈ items, q.isFolder = true → q.sourceId ≠ p

/-- No folder whose record is settled is split. -/
def Whole (P : Set String) (st : FilesLoop) : Prop :=
  ∀ c ∈ items, c.sourceId ∈ P → NewFile user workload mode w₀ c → ∀ p, c.HasParent p → p ∈ P →
    (∃ q ∈ items, q.isFolder = true ∧ q.sourceId = p) →
    ∀ d, st.dest user workload p = some d → PutInto user workload w₀ st.world c d

variable {g user workload mode items w₀} {P : Set String} {st st' : FilesLoop} {f : SourceFile}

theorem Placed.unique {defer : Bool} {parent parent' : Option Token}
    (h : Placed user workload st f defer parent) (h' : Placed user workload st f defer parent') :
    parent = parent' := by
  -- an item has one parent, and the folder map one destination for it
  cases h with
  | noParent hnone =>
    cases h' with
    | noParent => rfl
    | under p d hp hd => exact absurd hp (hnone p)
    | rooted => rfl
  | under p d hp hd =>
    cases h' with
    | noParent hnone => exact absurd hp (hnone p)
    | under p' d' hp' hd' =>
      obtain rfl := hp.unique hp'
      exact hd.symm.trans hd'
    | rooted p' hp' hd' =>
      obtain rfl := hp.unique hp'
      exact absurd (hd.symm.trans hd') (by simp)
  | rooted p hp hd =>
    cases h' with
    | noParent => rfl
    | under p' d' hp' hd' =>
      obtain rfl := hp.unique hp'
      exact absurd (hd.symm.trans hd') (by simp)
    | rooted => rfl

/-- `_parent_for` returns a parent exactly where the item is placed. -/
theorem parentFor_iff_placed {defer : Bool} {parent : Option Token} :
    (∃ st₁, parentFor user workload st f defer = (.ok parent, st₁)) ↔
      Placed user workload st f defer parent := by
  obtain ⟨parent', st₁, heq, -, -, hplaced⟩ | ⟨p, st₁, v, heq, hp, hd, hmem, -, -⟩ |
    ⟨p, st₁, heq, hp, hd, hnot, hdefer, -⟩ := parentFor_cases user workload st f defer
  · rw [heq]
    constructor
    · rintro ⟨st₂, hsame⟩
      cases hsame
      exact hplaced
    · intro h
      obtain rfl := hplaced.unique h
      exact ⟨st₁, rfl⟩
  -- where it stops there is no place for the item
  all_goals
    rw [heq]
    constructor
    · rintro ⟨st₂, hsame⟩
      cases hsame
    intro h
    cases h with
    | noParent hnone => exact absurd hp (hnone p)
    | under p' d' hp' hd' =>
      obtain rfl := hp.unique hp'
      exact absurd (hd.symm.trans hd') (by simp)
    | rooted p' hp' hd' hnot' hforced =>
      obtain rfl := hp.unique hp'
      first
      | exact absurd hmem hnot'
      | exact absurd (hdefer.symm.trans hforced) (by simp)

theorem Mapped.settled_of_written (h : Mapped user workload items w₀ P st) {c : SourceFile}
    (hc : c ∈ items)
    (hwrites : writesOf (fileKey user workload c.sourceId) st.world.log ≠
      writesOf (fileKey user workload c.sourceId) w₀.log) : c.sourceId ∈ P := by
  by_contra hopen
  exact hwrites (h.writes c hc hopen)

/-- A new file whose step is done was put under the destination of its parent, if that has one. -/
theorem Filling.own (h : Filling user workload mode items w₀ P st) (hcalm : NoFailure g)
    (hf : f ∈ items) (hopen : f.sourceId ∉ P) (hnew : NewFile user workload mode w₀ f)
    {defer : Bool} {v : Verdict} (hstep : FileStep g user workload mode st f defer v st')
    (hv : v ≠ .deferred) :
    ∃ write parent, writesOf (fileKey user workload f.sourceId) st'.world.log =
        write :: writesOf (fileKey user workload f.sourceId) w₀.log ∧
      Placed user workload st f defer parent ∧ st'.dest user workload = st.dest user workload ∧
      ∀ d, parent = some d → write.parent = some d := by
  have hrow := h.mapped.rows f hf hopen
  -- the row is still the one the pass found
  have halone : leftAlone user workload mode st.world.db f = false := by
    rw [← hnew.changed]
    cases mode with
    | full => simp only [leftAlone, Db.isDone_eq, hrow]
    | delta => simp only [leftAlone, Db.getItemHash_eq, hrow]
  have hexisting : existingDest user workload mode st.world.db f = none := by
    rw [← hnew.unknown]
    cases mode with
    | full => rfl
    | delta => simp only [existingDest, Db.recorded_eq, hrow]
  have hok : v ≠ .failed := hstep.not_failed hcalm h.mapped.failed
  cases hstep with
  | leftAlone file alone =>
    rw [halone] at alone
    cases alone
  | skipped _ row file alone action => exact absurd action hnew.action
  | deferred => exact absurd rfl hv
  | folderMade _ row parentDest id folder => exact SourceFile.not_both hnew.file folder
  | transferred _ row parentDest write file alone action placed written status dest hash change =>
    rw [hexisting] at written
    refine ⟨write, parentDest, ?_, placed hexisting, change.dest, fun d hd => ?_⟩
    · rw [change.writesOf (by simpa using written.src_eq), h.mapped.writes f hf hopen]
      rfl
    · cases written with
      | uploaded id parent content name fetched under answered =>
        rw [newFileWrite_parent, under d hd]
  | parentFailed | folderFailed | transferFailed => exact absurd rfl hok

/-- A step takes no destination away. -/
theorem FileStep.dest_none {defer : Bool} {v : Verdict}
    (hstep : FileStep g user workload mode st f defer v st') {p : String}
    (hp : st'.dest user workload p = none) : st.dest user workload p = none := by
  obtain ⟨row, made, write, fails, hchange, -⟩ := hstep.anyChange
  rw [hchange.dest] at hp
  cases made with
  | none => exact hp
  | some d =>
    by_cases hpf : p = f.sourceId
    · simp [hpf] at hp
    · rwa [Option.elim_some, Function.update_of_ne hpf] at hp

variable (mode) in
/-- An item that is put off changes nothing that counts. -/
theorem Filling.put_off (h : Filling user workload mode items w₀ P st)
    (hchange : FileChange user workload st st' f none none none false) :
    Filling user workload mode items w₀ P st' ∧
      (Whole user workload mode items w₀ P st' ↔ Whole user workload mode items w₀ P st) := by
  have hdest : st'.dest user workload = st.dest user workload := hchange.dest
  have hwrites : ∀ k, writesOf k st'.world.log = writesOf k st.world.log := by
    intro k
    rw [writesOf, hchange.quiet_writes, writesOf]
  have hput : ∀ c d, PutInto user workload w₀ st'.world c d ↔
      PutInto user workload w₀ st.world c d := by
    intro c d
    rw [PutInto, hwrites, PutInto]
  refine ⟨⟨h.mapped.put_off hchange, fun c hc hP hnew => ?_, fun c hc hP hnew p hp hfree d hd => ?_,
    fun c hc hP hnew p hp hd => ?_⟩, ?_⟩
  · rw [hwrites]
    exact h.uploaded c hc hP hnew
  · rw [hput]
    exact h.early c hc hP hnew p hp hfree d (hdest ▸ hd)
  · exact h.waited c hc hP hnew p hp (hdest ▸ hd)
  · simp only [Whole, hdest, hput]

/-- One item more is settled. -/
theorem Filling.settle (h : Filling user workload mode items w₀ P st) (hcalm : NoFailure g)
    (hnodup : (items.map SourceFile.sourceId).Nodup) (hf : f ∈ items) (hopen : f.sourceId ∉ P)
    {defer : Bool}
    (horphan : defer = false → ∀ p, f.HasParent p → ∀ q ∈ items, q.sourceId = p → p ∈ P)
    {v : Verdict} (hstep : FileStep g user workload mode st f defer v st') (hv : v ≠ .deferred) :
    Filling user workload mode items w₀ (insert f.sourceId P) st' := by
  have hmapped := h.mapped.step hcalm hnodup hf hstep
  rw [if_neg hv] at hmapped
  have hwrites : ∀ {c : SourceFile}, c.sourceId ≠ f.sourceId →
      writesOf (fileKey user workload c.sourceId) st'.world.log =
        writesOf (fileKey user workload c.sourceId) st.world.log := by
    intro c hne
    exact hstep.onlyTouches.writesOf_of_ne (fileKey_inj.not.mpr hne)
  refine ⟨hmapped, fun c hc hP hnew => ?_, fun c hc hP hnew p hp hfree d hd => ?_,
    fun c hc hP hnew p hp hd => ?_⟩
  · rcases settled_cases hnodup hf hc hP with rfl | ⟨hP, hne⟩
    · obtain ⟨write, -, hwrite, -⟩ := h.own hcalm hf hopen hnew hstep hv
      exact ⟨write, hwrite⟩
    · rw [hwrites hne]
      exact h.uploaded c hc hP hnew
  · rcases settled_cases hnodup hf hc hP with rfl | ⟨hP, hne⟩
    · obtain ⟨write, parent, hwrite, hplaced, hdest, hunder⟩ := h.own hcalm hf hopen hnew hstep hv
      refine ⟨write, hwrite, hunder d ?_⟩
      exact hplaced.unique (.under p d hp (hdest ▸ hd))
    · have hstill : ∀ q ∈ items, q.isFolder = true → q.sourceId = p → p ∉ P :=
        fun q hq folder hid hmem => hfree q hq folder hid (Set.mem_insert_of_mem _ hmem)
      have hpf : st'.dest user workload p = st.dest user workload p :=
        (hmapped.kept p hfree).trans (h.mapped.kept p hstill).symm
      have hput := h.early c hc hP hnew p hp hstill d (hpf ▸ hd)
      exact (hstep.onlyTouches.putInto_iff hne).mpr hput
  · have hbefore := hstep.dest_none hd
    rcases settled_cases hnodup hf hc hP with rfl | ⟨hP, -⟩
    · obtain ⟨-, parent, -, hplaced, -⟩ := h.own hcalm hf hopen hnew hstep hv
      intro q hq folder hid
      cases hplaced with
      | noParent hnone => exact hnone p hp
      | under p' d hp' hd' =>
        obtain rfl := hp.unique hp'
        rw [hbefore] at hd'
        cases hd'
      | rooted p' hp' hd' hnot hforced =>
        -- it was forced, so its parent was settled, and a settled folder has a destination
        subst hid
        obtain ⟨d, hq', -⟩ := h.mapped.folders q hq folder (horphan hforced _ hp q hq rfl)
        rw [hbefore] at hq'
        cases hq'
    · exact h.waited c hc hP hnew p hp hbefore

/-- A file that is settled splits no folder. -/
theorem Filling.whole_file (h : Filling user workload mode items w₀ P st) (hcalm : NoFailure g)
    (hnodup : (items.map SourceFile.sourceId).Nodup) (hf : f ∈ items) (hopen : f.sourceId ∉ P)
    (file : f.isFolder = false) {defer : Bool} {v : Verdict}
    (hstep : FileStep g user workload mode st f defer v st') (hv : v ≠ .deferred) :
    Whole user workload mode items w₀ (insert f.sourceId P) st' ↔
      Whole user workload mode items w₀ P st := by
  have htouches := hstep.onlyTouches
  -- the record of a folder has another id
  have hother : ∀ {p : String}, (∃ q ∈ items, q.isFolder = true ∧ q.sourceId = p) →
      p ≠ f.sourceId := by
    rintro p ⟨q, hq, folder, hid⟩ hpf
    obtain rfl : q = f := List.inj_on_of_nodup_map hnodup hq hf (hid.trans hpf)
    rw [file] at folder
    cases folder
  constructor
  · intro hwhole c hc hP hnew p hp hpP hbatch d hd
    have hne : c.sourceId ≠ f.sourceId := fun heq => hopen (heq ▸ hP)
    rw [← htouches.putInto_iff hne]
    apply hwhole c hc (Set.mem_insert_of_mem _ hP) hnew p hp (Set.mem_insert_of_mem _ hpP) hbatch
    rw [hstep.dest_of_ne (hother hbatch)]
    exact hd
  · intro hwhole c hc hP hnew p hp hpP hbatch d hd
    have hpP : p ∈ P := (Set.mem_insert_iff.mp hpP).resolve_left (hother hbatch)
    rw [hstep.dest_of_ne (hother hbatch)] at hd
    by_cases hid : c.sourceId = f.sourceId
    · obtain rfl : c = f := List.inj_on_of_nodup_map hnodup hc hf hid
      obtain ⟨write, parent, hwrite, hplaced, -, hunder⟩ := h.own hcalm hf hopen hnew hstep hv
      exact ⟨write, hwrite, hunder d (hplaced.unique (.under p d hp hd))⟩
    · rw [htouches.putInto_iff hid]
      exact hwhole c hc ((Set.mem_insert_iff.mp hP).resolve_left hid) hnew p hp hpP hbatch d hd

/-- The record of a folder splits it if the call leads to another folder than its new children
are in. -/
theorem Filling.whole_folder (h : Filling user workload mode items w₀ P st)
    (hnodup : (items.map SourceFile.sourceId).Nodup) (hf : f ∈ items) (hopen : f.sourceId ∉ P)
    (folder : f.isFolder = true) {defer : Bool} {row : ItemValues} {parent : Option Token}
    {id : Token} (placed : Placed user workload st f defer parent)
    (hanswer : g.answer st.world.log
      (.ensureFolder (fileKey user workload f.sourceId) parent f.name) = .ok id)
    (hchange : FileChange user workload st st' f (some row) (some id)
      (some (.folder (fileKey user workload f.sourceId) parent f.name id)) false)
    (htouches : OnlyTouches (fileKey user workload f.sourceId) st.world st'.world) :
    Whole user workload mode items w₀ (insert f.sourceId P) st' ↔
      KeepsFolder g user workload mode items w₀ (defer, st, f) ∧
        Whole user workload mode items w₀ P st := by
  have hmade := hchange.dest_made
  -- a settled child was put under the destination that the folder had until now
  have hearly : ∀ c ∈ items, c.sourceId ∈ P → NewFile user workload mode w₀ c →
      c.HasParent f.sourceId → ∀ d, st.dest user workload f.sourceId = some d →
      PutInto user workload w₀ st.world c d :=
    fun c hc hP hnew hp => h.early c hc hP hnew f.sourceId hp (fun _ _ _ _ => hopen)
  have hne : ∀ {x : String}, x ∈ P → x ≠ f.sourceId := fun hP heq => hopen (heq ▸ hP)
  constructor
  · intro hwhole
    refine ⟨?_, fun c hc hP hnew p hp hpP hbatch d hd => ?_⟩
    · rintro - d hd ⟨c, hc, hnew, hp, hwritten⟩ parent' st₁ d' hparent hask
      have hP : c.sourceId ∈ P := h.mapped.settled_of_written hc hwritten
      obtain rfl : parent' = parent := (parentFor_iff_placed.mp ⟨st₁, hparent⟩).unique placed
      obtain rfl : d' = id := Except.ok.inj (hask.symm.trans hanswer)
      have hnow := hwhole c hc (Set.mem_insert_of_mem _ hP) hnew f.sourceId hp
        (Set.mem_insert _ _) ⟨f, hf, folder, rfl⟩ d' hmade
      exact ((htouches.putInto_iff (hne hP)).mp hnow).unique (hearly c hc hP hnew hp d hd)
    · rw [← htouches.putInto_iff (hne hP)]
      apply hwhole c hc (Set.mem_insert_of_mem _ hP) hnew p hp (Set.mem_insert_of_mem _ hpP) hbatch
      rw [hchange.dest_of_ne (hne hpP)]
      exact hd
  · rintro ⟨hkeeps, hwhole⟩ c hc hP hnew p hp hpP hbatch d hd
    have hcf : c.sourceId ≠ f.sourceId := by
      intro heq
      obtain rfl : c = f := List.inj_on_of_nodup_map hnodup hc hf heq
      rw [hnew.file] at folder
      cases folder
    have hP : c.sourceId ∈ P := (Set.mem_insert_iff.mp hP).resolve_left hcf
    rw [htouches.putInto_iff hcf]
    by_cases hpf : p = f.sourceId
    · subst hpf
      obtain rfl : id = d := Option.some.inj (hmade.symm.trans hd)
      cases hbefore : st.dest user workload f.sourceId with
      | none => exact absurd rfl (h.waited c hc hP hnew f.sourceId hp hbefore f hf folder)
      | some d₀ =>
        have hin := hearly c hc hP hnew hp d₀ hbefore
        have hwritten : ChildUploaded user workload mode items w₀ st.world f.sourceId := by
          obtain ⟨write, hwrite, -⟩ := hin
          refine ⟨c, hc, hnew, hp, ?_⟩
          rw [hwrite]
          exact List.cons_ne_self _ _
        obtain ⟨st₁, hparent⟩ := parentFor_iff_placed.mpr placed
        rw [hkeeps folder d₀ hbefore hwritten parent st₁ id hparent hanswer]
        exact hin
    · rw [hchange.dest_of_ne hpf] at hd
      exact hwhole c hc hP hnew p hp ((Set.mem_insert_iff.mp hpP).resolve_left hpf) hbatch d hd

theorem Filling.counted (h : Filling user workload mode items w₀ P st) (n : ℕ) :
    Filling user workload mode items w₀ P { st with failures := n } :=
  ⟨h.mapped.counted n, h.uploaded, h.early, h.waited⟩

/-- A record that is no folder, or that is put off, keeps every folder. -/
theorem keepsFolder_of_not_placed {defer : Bool}
    (h : f.isFolder = true → ∀ parent, ¬ Placed user workload st f defer parent) :
    KeepsFolder g user workload mode items w₀ (defer, st, f) := by
  intro folder d _ _ parent st₁ d' hparent _
  exact absurd (parentFor_iff_placed.mp ⟨st₁, hparent⟩) (h folder parent)

variable (mode) in
/-- A step of the loop, on an item that is not settled yet: no folder is split after it if none
was before and the step keeps its own. -/
theorem Filling.step (h : Filling user workload mode items w₀ P st) (hcalm : NoFailure g)
    (hnodup : (items.map SourceFile.sourceId).Nodup) (hf : f ∈ items) (hopen : f.sourceId ∉ P)
    (defer : Bool)
    (horphan : defer = false → ∀ p, f.HasParent p → ∀ q ∈ items, q.sourceId = p → p ∈ P) :
    let r := fileStep g user workload mode defer st f
    let P' := if r.1 then P else insert f.sourceId P
    Filling user workload mode items w₀ P' r.2 ∧
      (Whole user workload mode items w₀ P' r.2 ↔
        KeepsFolder g user workload mode items w₀ (defer, st, f) ∧
          Whole user workload mode items w₀ P st) := by
  intro r P'
  have hlog := fun folder => processFile_folder_log g user workload mode st f folder defer
  have hstep := processFile_step g user workload mode st f defer
  simp only [r, P', fileStep_eq]
  generalize processFile g user workload mode st f defer = result at *
  obtain ⟨v, st'⟩ := result
  simp only [decide_eq_true_eq]
  by_cases hv : v = .deferred
  · subst hv
    rw [if_pos rfl]
    obtain ⟨hfilling, hwhole⟩ := h.put_off mode hstep.put_off.1
    -- an item that is put off has no place yet, so no step of it is in question
    have hkeeps : KeepsFolder g user workload mode items w₀ (defer, st, f) := by
      apply keepsFolder_of_not_placed
      intro _ parent hplaced
      cases hstep with
      | deferred _ p hp unknown notFailed may =>
        cases hplaced with
        | noParent hnone => exact hnone p hp
        | under p' d hp' hd =>
          obtain rfl := hp.unique hp'
          rw [unknown] at hd
          cases hd
        | rooted p' hp' hd hnot hforced => cases may.symm.trans hforced
    exact ⟨hfilling.counted _, fun hw => ⟨hkeeps, hwhole.mp hw⟩, fun hw => hwhole.mpr hw.2⟩
  · rw [if_neg hv]
    refine ⟨(h.settle hcalm hnodup hf hopen horphan hstep hv).counted _, ?_⟩
    show Whole user workload mode items w₀ (insert f.sourceId P) st' ↔ _
    cases hfolder : f.isFolder with
    | false =>
      -- a file makes no folder call
      have hkeeps : KeepsFolder g user workload mode items w₀ (defer, st, f) :=
        keepsFolder_of_not_placed (fun folder => absurd (hfolder.symm.trans folder) (by simp))
      rw [h.whole_file hcalm hnodup hf hopen hfolder hstep hv]
      exact (and_iff_right hkeeps).symm
    | true =>
      have htouches := hstep.onlyTouches
      have hfile : f.isFolder ≠ false := by simp [hfolder]
      have hok : v ≠ .failed := hstep.not_failed hcalm h.mapped.failed
      cases hstep with
      | deferred => exact absurd rfl hv
      | folderMade _ row parentDest id folder placed answered status dest hash change =>
        obtain ⟨-, hanswer⟩ := returned_of_folder (hlog folder) change.writes
        exact h.whole_folder hnodup hf hopen folder placed hanswer change htouches
      | parentFailed | folderFailed | transferFailed => exact absurd rfl hok
      | leftAlone file | skipped _ _ file | transferred _ _ _ _ file => exact absurd file hfile

variable (g user workload mode) in
/-- At the end of a pass without failures no folder is split if each step kept its own. -/
theorem migrate_filling (feed : Enumeration SourceFile) (w : World) (hcalm : NoFailure g)
    (hraised : feed.raised = none) (hnodup : (feed.items.map SourceFile.sourceId).Nodup)
    (hacyclic : Acyclic SourceFile.sourceId SourceFile.parentId feed.items) :
    ∃ P, (∀ f ∈ feed.items, f.sourceId ∈ P) ∧
      Filling user workload mode feed.items w P (migrateFiles g user workload mode feed w) ∧
      ((∀ x ∈ migrateVisited g user workload mode feed w,
          KeepsFolder g user workload mode feed.items w x) ↔
        Whole user workload mode feed.items w P (migrateFiles g user workload mode feed w)) := by
  rw [migrateFiles_whole g user workload mode hraised,
    migrateVisited_whole g user workload mode hraised, ← process_traced]
  -- the steps noted so far kept their folders exactly when no settled folder is split
  have hrule : StepRule
      (fun P t => Filling user workload mode feed.items w P t.1 ∧
        ((∀ x ∈ t.2, KeepsFolder g user workload mode feed.items w x) ↔
          Whole user workload mode feed.items w P t.1))
      feed.items (traced (fileStep g user workload mode)) SourceFile.sourceId
      SourceFile.parentId := by
    refine .of_acyclic hacyclic (fun t f => fileStep_forced t.1 f) ?_
    intro d P t f hf hJ hopen hparent
    have hnext := hJ.1.step mode hcalm hnodup hf hopen d (fun hd p hp => hparent hd p hp.1)
    refine ⟨hnext.1, ?_⟩
    simp only [traced, List.forall_mem_cons]
    rw [hJ.2]
    exact hnext.2.symm
  have hnone : ∀ p : String, p ∉ (∅ : Set String) := fun p => Set.notMem_empty _
  have hfilling : Filling user workload mode feed.items w ∅ { world := w } :=
    ⟨mapped_start w, fun _ _ hP => absurd hP (hnone _), fun _ _ hP => absurd hP (hnone _),
      fun _ _ hP => absurd hP (hnone _)⟩
  have hwhole : Whole user workload mode feed.items w ∅ { world := w } :=
    fun _ _ hP => absurd hP (hnone _)
  exact process_induction hrule hnodup ({ world := w }, [])
    ⟨hfilling, fun _ => hwhole, fun _ _ hx => absurd hx List.not_mem_nil⟩

/-- Once all is settled, the folders are whole exactly when the folder map says where the new
files are. -/
theorem Filling.unsplit_iff (h : Filling user workload mode items w₀ P st)
    (hall : ∀ f ∈ items, f.sourceId ∈ P) :
    Unsplit user workload mode items w₀ st.world ↔ Whole user workload mode items w₀ P st := by
  constructor
  · intro hunsplit c hc _ hnew p hp _ _ d hd
    exact hunsplit c hc hnew p d hp ((h.mapped.synced p).symm.trans hd)
  · intro hwhole c hc hnew p d hp hd
    have hdest : st.dest user workload p = some d := (h.mapped.synced p).trans hd
    by_cases hbatch : ∃ q ∈ items, q.isFolder = true ∧ q.sourceId = p
    · obtain ⟨q, hq, folder, hid⟩ := hbatch
      exact hwhole c hc (hall c hc) hnew p hp (hid ▸ hall q hq) ⟨q, hq, folder, hid⟩ d hdest
    · -- the folder is not in the batch
      apply h.early c hc (hall c hc) hnew p hp _ d hdest
      intro q hq folder hid _
      exact hbatch ⟨q, hq, folder, hid⟩

end

/-- A pass without failures splits no folder exactly when each record of a folder that new files
have been put into by then leads to the destination folder that they are in. -/
theorem folders_unsplit_iff (g : Graph) (user : UserMapping) (workload : String) (mode : Mode)
    (feed : Enumeration SourceFile) (w : World) (hcalm : NoFailure g)
    (hraised : feed.raised = none) (hnodup : (feed.items.map SourceFile.sourceId).Nodup)
    (hacyclic : Acyclic SourceFile.sourceId SourceFile.parentId feed.items) :
    Unsplit user workload mode feed.items w (migrateFiles g user workload mode feed w).world ↔
      ∀ x ∈ migrateVisited g user workload mode feed w,
        KeepsFolder g user workload mode feed.items w x := by
  obtain ⟨P, hall, hfilling, hiff⟩ :=
    migrate_filling g user workload mode feed w hcalm hraised hnodup hacyclic
  rw [hiff]
  exact hfilling.unsplit_iff hall

end GwsMigrator
