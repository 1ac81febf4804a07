import GwsMigrator.FilesSteps
import GwsMigrator.ScriptedGraph

/-! What becomes of the items below a folder that cannot be made. Its children fail with it,
but do not join the failed folders themselves, so the loop takes their children for orphans
and places them at the root. -/
namespace GwsMigrator

section forest
variable (items : List SourceFile) (bad : Set String)

/-- `p` is the parent of `x`, both in the batch. -/
def ChildOf (p x : SourceFile) : Prop := p ∈ items ∧ x ∈ items ∧ x.HasParent p.sourceId

/-- A folder whose `ensure_folder` raises. -/
def Refuses (f : SourceFile) : Prop := f.isFolder = true ∧ f.sourceId ∈ bad

/-- There is such a folder among the ancestors of `x` in the batch. -/
def BelowFailed (x : SourceFile) : Prop :=
  ∃ a, Refuses bad a ∧ Relation.TransGen (ChildOf items) a x

/-- `x` is an even (`true`) or odd number of levels below a folder that raises and has no such
folder above it. -/
inductive Sunk : Bool → SourceFile → Prop
  | top (a : SourceFile) (mem : a ∈ items) (refuses : Refuses bad a)
      (first : ¬ BelowFailed items bad a) : Sunk true a
  | under (even : Bool) (p x : SourceFile) (parent : Sunk even p) (child : ChildOf items p x) :
      Sunk (!even) x

variable {items bad}

theorem ChildOf.isParent {p x : SourceFile} (h : ChildOf items p x) :
    Worklist.IsParent SourceFile.sourceId SourceFile.parentId items p x :=
  ⟨h.1, h.2.1, h.2.2.1⟩

theorem BelowFailed.child {p x : SourceFile} (h : Refuses bad p ∨ BelowFailed items bad p)
    (hchild : ChildOf items p x) : BelowFailed items bad x := by
  rcases h with hp | ⟨a, ha, hpath⟩
  · exact ⟨p, hp, .single hchild⟩
  · exact ⟨a, ha, hpath.tail hchild⟩

theorem Sunk.refuses_or_below {even : Bool} {x : SourceFile} (h : Sunk items bad even x) :
    Refuses bad x ∨ BelowFailed items bad x := by
  induction h with
  | top a mem refuses first => exact Or.inl refuses
  | under even p x parent child ih => exact Or.inr (BelowFailed.child ih child)

/-- In a batch without cycles every item below a failing folder is below a topmost one. -/
theorem BelowFailed.sunk
    (hacyclic : Worklist.Acyclic SourceFile.sourceId SourceFile.parentId items) {x : SourceFile}
    (hx : x ∈ items) (h : BelowFailed items bad x) : ∃ even, Sunk items bad even x := by
  suffices hall : ∀ x ∈ items, Refuses bad x ∨ BelowFailed items bad x →
      ∃ even, Sunk items bad even x from hall x hx (Or.inr h)
  refine hacyclic.induction (fun x hx ih hfails => ?_)
  by_cases hbelow : BelowFailed items bad x
  · obtain ⟨a, ha, hpath⟩ := hbelow
    -- the last link of the path leads to the parent
    obtain ⟨p, hp, hchild⟩ : ∃ p, (Refuses bad p ∨ BelowFailed items bad p) ∧
        ChildOf items p x := by
      cases hpath with
      | single hchild => exact ⟨a, Or.inl ha, hchild⟩
      | tail hpath hchild => exact ⟨_, Or.inr ⟨a, ha, hpath⟩, hchild⟩
    obtain ⟨even, hsunk⟩ := ih p hchild.isParent hp
    exact ⟨!even, .under even p x hsunk hchild⟩
  · rcases hfails with hrefuses | hbelow'
    · exact ⟨true, .top x hx hrefuses hbelow⟩
    · exact absurd hbelow' hbelow

end forest

section
variable (g : Graph) (user : UserMapping) (workload : String) (mode : Mode)

/-- The item needs its parent's folder: a folder, or a file that is to be uploaded. -/
def AsksParent (db : Db) (f : SourceFile) : Prop :=
  f.isFolder = true ∨ (leftAlone user workload mode db f = false ∧ f.action ≠ .skip ∧
    existingDest user workload mode db f = none)

def failedId (t : Worklist.Taken FilesLoop SourceFile) : Option String :=
  if (processFile g user workload mode t.2.1 t.2.2 t.1).1 = .failed then some t.2.2.sourceId
  else none

/-- The source ids counted as failures, newest first. -/
def countedFailed (taken : List (Worklist.Taken FilesLoop SourceFile)) : List String :=
  taken.filterMap (failedId g user workload mode)

/-- Nothing new was made for the item at the destination, and it is reported as failed. -/
structure Contained (w w' : World) (counted : List String) (x : SourceFile) : Prop where
  writes : (writesOf (fileKey user workload x.sourceId) w'.log).filter DriveWrite.isNew =
    (writesOf (fileKey user workload x.sourceId) w.log).filter DriveWrite.isNew
  folder : w'.db.getFolderDest (fileKey user workload x.sourceId) =
    w.db.getFolderDest (fileKey user workload x.sourceId)
  row : ∃ v, w'.db.getItemState (fileKey user workload x.sourceId) = some v ∧ v.status = .failed
  counted : x.sourceId ∈ counted

/-- The item's row, folder and writes are what they were. -/
structure Untouched (k : ItemKey) (w w' : World) : Prop where
  row : w'.db.getItemState k = w.db.getItemState k
  folder : w'.db.getFolderDest k = w.db.getFolderDest k
  writes : writesOf k w'.log = writesOf k w.log

def ParentFailed (failed : Finset String) (x : SourceFile) : Prop :=
  ∃ p, x.HasParent p ∧ p ∈ failed

/-- What holds of the batch once the items with the ids `P` are settled. -/
structure Settling (items : List SourceFile) (bad : Set String) (w : World) (P : Set String)
    (t : FilesLoop × List (Worklist.Taken FilesLoop SourceFile)) : Prop where
  untouched : ∀ x ∈ items, x.sourceId ∉ P →
    Untouched (fileKey user workload x.sourceId) w t.1.world
  unmade : ∀ x ∈ items, x.sourceId ∉ P → x.isFolder = true →
    t.1.dest user workload x.sourceId = none
  failed_known : ∀ q ∈ t.1.failed, t.1.dest user workload q = none ∧ q ∈ P ∧
    ∃ y ∈ items, y.sourceId = q
  asks : ∀ x ∈ items, x.sourceId ∈ P → AsksParent user workload mode w.db x →
    ∀ p, ChildOf items p x → p.isFolder = true → p.sourceId ∈ P
  failed_iff : ∀ x ∈ items, x.sourceId ∈ P →
    (x.sourceId ∈ t.1.failed ↔ Refuses bad x ∧ ¬ ParentFailed t.1.failed x)
  contained : ∀ x ∈ items, x.sourceId ∈ P → AsksParent user workload mode w.db x →
    ParentFailed t.1.failed x ∨ Refuses bad x →
    Contained user workload w t.1.world (countedFailed g user workload mode t.2) x
  counted : ¬ CallFailed g → ∀ x ∈ items, x.sourceId ∈ countedFailed g user workload mode t.2 →
    x.sourceId ∈ P ∧ AsksParent user workload mode w.db x ∧
      (ParentFailed t.1.failed x ∨ Refuses bad x)

/-- What the step of one item comes to for the item itself. -/
structure OwnOutcome (items : List SourceFile) (bad : Set String) (P : Set String)
    (st st' : FilesLoop) (f : SourceFile) (v : Verdict) : Prop where
  asks : AsksParent user workload mode st.world.db f →
    ∀ p, ChildOf items p f → p.isFolder = true → p.sourceId ∈ P
  failed : (Refuses bad f ∧ ¬ ParentFailed st.failed f ∧
      st'.failed = insert f.sourceId st.failed ∧ st'.dest user workload = st.dest user workload) ∨
    (¬ (Refuses bad f ∧ ¬ ParentFailed st.failed f) ∧ st'.failed = st.failed)
  contained : AsksParent user workload mode st.world.db f →
    ParentFailed st.failed f ∨ Refuses bad f →
    Contained user workload st.world st'.world [f.sourceId] f ∧ v = .failed
  counted : ¬ CallFailed g → v = .failed → AsksParent user workload mode st.world.db f ∧
    (ParentFailed st.failed f ∨ Refuses bad f)

variable {g user workload mode} {items : List SourceFile} {bad : Set String} {P : Set String}
  {w : World} {st st' : FilesLoop} {f : SourceFile} {defer : Bool}
  {tr : List (Worklist.Taken FilesLoop SourceFile)}

/-- The row of an item is all that the skip tests look at. -/
theorem asksParent_congr {db db' : Db}
    (h : db'.getItemState (fileKey user workload f.sourceId) =
      db.getItemState (fileKey user workload f.sourceId)) :
    AsksParent user workload mode db' f ↔ AsksParent user workload mode db f := by
  have halone : leftAlone user workload mode db' f = leftAlone user workload mode db f := by
    cases mode with
    | full => simp only [leftAlone, Db.isDone_eq, h]
    | delta => simp only [leftAlone, Db.getItemHash_eq, h]
  have hdest : existingDest user workload mode db' f = existingDest user workload mode db f := by
    cases mode with
    | full => rfl
    | delta => simp only [existingDest, Db.recorded_eq, h]
  rw [AsksParent, AsksParent, halone, hdest]

/-- A file that is left alone, skipped or updated in place needs no parent. -/
theorem not_asksParent {db : Db} (hfile : f.isFolder = false)
    (h : leftAlone user workload mode db f = true ∨ f.action = .skip ∨
      (existingDest user workload mode db f).isSome = true) :
    ¬ AsksParent user workload mode db f := by
  rintro (hfolder | ⟨halone, haction, hnone⟩)
  · rw [hfile] at hfolder
    exact absurd hfolder (by simp)
  · rcases h with h | h | h
    · rw [halone] at h
      exact absurd h (by simp)
    · exact haction h
    · rw [hnone] at h
      exact absurd h (by simp)

/-- A placed item has no failed parent. -/
theorem Placed.not_parentFailed {parentDest : Option Token}
    (h : Placed user workload st f defer parentDest)
    (hknown : ∀ q ∈ st.failed, st.dest user workload q = none) :
    ¬ ParentFailed st.failed f := by
  rintro ⟨q, hq, hmem⟩
  cases h with
  | noParent hnone => exact hnone q hq
  | under p d hp hd =>
    have hnone := hknown q hmem
    rw [hq.unique hp, hd] at hnone
    exact absurd hnone (by simp)
  | rooted p hp hd hf hdefer => exact hf (hq.unique hp ▸ hmem)

/-- The parent folder of a placed item is settled. -/
theorem Placed.parent_settled {parentDest : Option Token}
    (h : Placed user workload st f defer parentDest)
    (hunmade : ∀ x ∈ items, x.sourceId ∉ P → x.isFolder = true →
      st.dest user workload x.sourceId = none)
    (hforced : defer = false → ∀ p, ChildOf items p f → p.sourceId ∈ P) :
    ∀ p, ChildOf items p f → p.isFolder = true → p.sourceId ∈ P := by
  intro p hchild hfolder
  cases h with
  | noParent hnone => exact absurd hchild.2.2 (hnone p.sourceId)
  | under q d hq hd =>
    by_contra hopen
    have hnone := hunmade p hchild.1 hopen hfolder
    rw [hchild.2.2.unique hq, hd] at hnone
    exact absurd hnone (by simp)
  | rooted q hq hd hf hdefer => exact hforced hdefer p hchild

/-- A row marked as failed is all that a failing step leaves. -/
theorem FileChange.contained {row : ItemValues} {fails : Bool}
    (h : FileChange user workload st st' f (some row) none none fails)
    (hstatus : row.status = .failed) :
    Contained user workload st.world st'.world [f.sourceId] f := by
  refine ⟨?_, ?_, ⟨row, ?_, hstatus⟩, List.mem_singleton.mpr rfl⟩
  · rw [h.writesOf (by simp)]
    rfl
  · rw [h.folders]
    rfl
  · rw [h.rows]
    simp

theorem not_refuses (hfile : f.isFolder = false) : ¬ Refuses bad f := by
  intro hrefuses
  have hfolder := hrefuses.1
  rw [hfile] at hfolder
  exact absurd hfolder (by simp)

variable (items bad P) in
/-- A file that needs no parent here leaves the failed folders alone. -/
theorem OwnOutcome.of_not_asks {v : Verdict} (hfile : f.isFolder = false)
    (hnot : ¬ AsksParent user workload mode st.world.db f) (hfailed : st'.failed = st.failed)
    (hcall : v = .failed → CallFailed g) :
    OwnOutcome g user workload mode items bad P st st' f v where
  asks hasks := absurd hasks hnot
  failed := Or.inr ⟨fun hr => not_refuses hfile hr.1, hfailed⟩
  contained hasks := absurd hasks hnot
  counted hcalm hfail := absurd (hcall hfail) hcalm

/-- So does an item that finds its place and does not raise itself. -/
theorem Placed.ownOutcome {v : Verdict} {parentDest : Option Token}
    (h : Placed user workload st f defer parentDest) (hnot : ¬ Refuses bad f)
    (hknown : ∀ q ∈ st.failed, st.dest user workload q = none)
    (hunmade : ∀ x ∈ items, x.sourceId ∉ P → x.isFolder = true →
      st.dest user workload x.sourceId = none)
    (hforced : defer = false → ∀ p, ChildOf items p f → p.sourceId ∈ P)
    (hfailed : st'.failed = st.failed) (hcall : v = .failed → CallFailed g) :
    OwnOutcome g user workload mode items bad P st st' f v where
  asks _ := h.parent_settled hunmade hforced
  failed := Or.inr ⟨fun hr => hnot hr.1, hfailed⟩
  contained := by
    rintro - (hparent | hr)
    · exact absurd hparent (h.not_parentFailed hknown)
    · exact absurd hr hnot
  counted hcalm hfail := absurd (hcall hfail) hcalm

variable (items bad P) in
theorem FileStep.ownOutcome {v : Verdict}
    (h : FileStep g user workload mode st f defer v st') (hv : v ≠ .deferred)
    (hbad : f.isFolder = true → ∀ log parent, (∃ e, g.answer log
      (.ensureFolder (fileKey user workload f.sourceId) parent f.name) = .error e) ↔
        f.sourceId ∈ bad)
    (hknown : ∀ q ∈ st.failed, st.dest user workload q = none ∧ q ∈ P)
    (hunmade : ∀ x ∈ items, x.sourceId ∉ P → x.isFolder = true →
      st.dest user workload x.sourceId = none)
    (hforced : defer = false → ∀ p, ChildOf items p f → p.sourceId ∈ P) :
    OwnOutcome g user workload mode items bad P st st' f v := by
  have hdests : ∀ q ∈ st.failed, st.dest user workload q = none := fun q hq => (hknown q hq).1
  cases h with
  | leftAlone file alone =>
    exact .of_not_asks items bad P file (not_asksParent file (Or.inl alone)) rfl (by simp)
  | skipped _ row file alone action status noDest change =>
    exact .of_not_asks items bad P file (not_asksParent file (Or.inr (Or.inl action)))
      change.failed (by simp)
  | deferred => exact absurd rfl hv
  | parentFailed _ row p parent unknown parentIn file status noDest change =>
    have hparent : ParentFailed st.failed f := ⟨p, parent, parentIn⟩
    refine ⟨fun _ q hchild _ => ?_, Or.inr ⟨fun hr => hr.2 hparent, change.failed⟩,
      fun _ _ => ⟨change.contained status, rfl⟩, fun _ _ => ⟨?_, Or.inl hparent⟩⟩
    · rw [hchild.2.2.unique parent]
      exact (hknown p parentIn).2
    · cases hfolder : f.isFolder with
      | true => exact Or.inl hfolder
      | false => exact Or.inr (file hfolder)
  | folderMade _ row parentDest id folder placed answered status dest hash change =>
    have hnot : ¬ Refuses bad f := by
      intro hr
      obtain ⟨log, -, hans⟩ := answered
      obtain ⟨e, herr⟩ := (hbad folder log parentDest).mpr hr.2
      rw [hans] at herr
      exact absurd herr (by simp)
    exact placed.ownOutcome hnot hdests hunmade hforced change.failed (by simp)
  | folderFailed _ row parentDest e folder placed answered status noDest change =>
    have hr : Refuses bad f := ⟨folder, (hbad folder st.world.log parentDest).mp ⟨e, answered⟩⟩
    have hplaced := placed.not_parentFailed hdests
    exact ⟨fun _ => placed.parent_settled hunmade hforced,
      Or.inl ⟨hr, hplaced, change.failed, change.dest⟩, fun _ _ => ⟨change.contained status, rfl⟩,
      fun _ _ => ⟨Or.inl folder, Or.inr hr⟩⟩
  | transferred _ row parentDest write file alone action placed written status dest hash change =>
    cases hex : existingDest user workload mode st.world.db f with
    | some id =>
      have hnot := not_asksParent file (Or.inr (Or.inr (Option.isSome_of_eq_some hex)))
      exact .of_not_asks items bad P file hnot change.failed (by simp)
    | none =>
      exact (placed hex).ownOutcome (not_refuses file) hdests hunmade hforced change.failed (by simp)
  | transferFailed _ row parentDest file alone action placed call status dest hash change =>
    cases hex : existingDest user workload mode st.world.db f with
    | some id =>
      have hnot := not_asksParent file (Or.inr (Or.inr (Option.isSome_of_eq_some hex)))
      exact .of_not_asks items bad P file hnot change.failed (fun _ => call)
    | none =>
      exact (placed hex).ownOutcome (not_refuses file) hdests hunmade hforced change.failed
        (fun _ => call)

theorem Untouched.trans {k : ItemKey} {w₁ w₂ w₃ : World} (h : Untouched k w₁ w₂)
    (h' : Untouched k w₂ w₃) : Untouched k w₁ w₃ :=
  ⟨h'.row.trans h.row, h'.folder.trans h.folder, h'.writes.trans h.writes⟩

theorem Contained.after {w₁ w₂ w₃ : World} {counted counted' : List String} {x : SourceFile}
    (h : Contained user workload w₁ w₂ counted x)
    (h' : Untouched (fileKey user workload x.sourceId) w₂ w₃)
    (hcounted : x.sourceId ∈ counted') : Contained user workload w₁ w₃ counted' x := by
  refine ⟨?_, h'.folder.trans h.folder, ?_, hcounted⟩
  · rw [h'.writes]
    exact h.writes
  · rw [h'.row]
    exact h.row

theorem Contained.before {w₁ w₂ w₃ : World} {counted counted' : List String} {x : SourceFile}
    (h : Contained user workload w₂ w₃ counted x)
    (h' : Untouched (fileKey user workload x.sourceId) w₁ w₂)
    (hcounted : x.sourceId ∈ counted') : Contained user workload w₁ w₃ counted' x := by
  refine ⟨?_, h.folder.trans h'.folder, h.row, hcounted⟩
  rw [h.writes, h'.writes]

theorem OnlyTouches.untouched {k₀ k : ItemKey} {w w' : World} (h : OnlyTouches k₀ w w')
    (hk : k ≠ k₀) : Untouched k w w' :=
  ⟨h.rows k hk, h.folders k hk, h.writesOf_of_ne hk⟩

theorem Settling.put_off (h : Settling g user workload mode items bad w P (st, tr))
    (hchange : FileChange user workload st st' f none none none false) :
    Settling g user workload mode items bad w P (st', tr) := by
  have hrows : st'.world.db.getItemState = st.world.db.getItemState := hchange.rows
  have hfolders : st'.world.db.getFolderDest = st.world.db.getFolderDest := hchange.folders
  have hdest : st'.dest user workload = st.dest user workload := hchange.dest
  have hfailed : st'.failed = st.failed := hchange.failed
  have hquiet : ∀ k, Untouched k st.world st'.world := by
    intro k
    refine ⟨by rw [hrows], by rw [hfolders], ?_⟩
    rw [writesOf, hchange.quiet_writes]
    rfl
  refine ⟨fun x hx hP => (h.untouched x hx hP).trans (hquiet _), ?_, ?_, h.asks, ?_, ?_, ?_⟩
  · rw [hdest]
    exact h.unmade
  · rw [hdest, hfailed]
    exact h.failed_known
  · rw [hfailed]
    exact h.failed_iff
  · rw [hfailed]
    exact fun x hx hP hasks hsinks =>
      (h.contained x hx hP hasks hsinks).after (hquiet _) (h.contained x hx hP hasks hsinks).counted
  · rw [hfailed]
    exact h.counted

variable (g user workload mode tr) in
theorem countedFailed_cons (taken : Worklist.Taken FilesLoop SourceFile) :
    countedFailed g user workload mode (taken :: tr) =
      (failedId g user workload mode taken).toList ++ countedFailed g user workload mode tr := by
  rw [countedFailed, List.filterMap_cons]
  cases failedId g user workload mode taken <;> rfl

/-- Only a child of a folder that raises can find its parent among the failed anew. -/
theorem OwnOutcome.parentFailed_iff {v : Verdict} {x : SourceFile}
    (h : OwnOutcome g user workload mode items bad P st st' f v)
    (hx : Refuses bad f → ¬ x.HasParent f.sourceId) :
    ParentFailed st'.failed x ↔ ParentFailed st.failed x := by
  rcases h.failed with ⟨hr, -, heq, -⟩ | ⟨-, heq⟩
  · rw [heq]
    constructor
    · rintro ⟨q, hq, hmem⟩
      rcases Finset.mem_insert.mp hmem with rfl | hmem
      · exact absurd hq (hx hr)
      · exact ⟨q, hq, hmem⟩
    · rintro ⟨q, hq, hmem⟩
      exact ⟨q, hq, Finset.mem_insert_of_mem hmem⟩
  · rw [heq]

theorem OwnOutcome.mem_failed_of_ne {v : Verdict} {q : String}
    (h : OwnOutcome g user workload mode items bad P st st' f v) (hq : q ≠ f.sourceId) :
    q ∈ st'.failed ↔ q ∈ st.failed := by
  rcases h.failed with ⟨-, -, heq, -⟩ | ⟨-, heq⟩
  · rw [heq, Finset.mem_insert]
    exact or_iff_right hq
  · rw [heq]

/-- A folder that was not among the failed is there now if it raises itself. -/
theorem OwnOutcome.mem_failed_iff {v : Verdict}
    (h : OwnOutcome g user workload mode items bad P st st' f v) (hf : f.sourceId ∉ st.failed) :
    f.sourceId ∈ st'.failed ↔ Refuses bad f ∧ ¬ ParentFailed st.failed f := by
  rcases h.failed with ⟨hr, hno, heq, -⟩ | ⟨hno, heq⟩
  · rw [heq]
    exact ⟨fun _ => ⟨hr, hno⟩, fun _ => Finset.mem_insert_self _ _⟩
  · rw [heq]
    exact ⟨fun hmem => absurd hmem hf, fun hboth => absurd hboth hno⟩

/-- A failed folder has no destination, and is a settled item of the batch. -/
theorem Settling.failed_after {v : Verdict}
    (h : Settling g user workload mode items bad w P (st, tr)) (hf : f ∈ items)
    (hopen : f.sourceId ∉ P) (hstep : FileStep g user workload mode st f defer v st')
    (hone : OwnOutcome g user workload mode items bad P st st' f v) {q : String}
    (hq : q ∈ st'.failed) :
    st'.dest user workload q = none ∧ q ∈ insert f.sourceId P ∧ ∃ y ∈ items, y.sourceId = q := by
  by_cases hne : q = f.sourceId
  · subst hne
    have hnotFailed : f.sourceId ∉ st.failed := fun hmem => hopen (h.failed_known _ hmem).2.1
    rcases hone.failed with ⟨hr, -, -, hdest⟩ | ⟨-, heq⟩
    · refine ⟨?_, Set.mem_insert _ _, f, hf, rfl⟩
      exact (congrFun hdest _).trans (h.unmade f hf hopen hr.1)
    · exact absurd (heq ▸ hq) hnotFailed
  · obtain ⟨hdest, hqP, hy⟩ := h.failed_known q ((hone.mem_failed_of_ne hne).mp hq)
    exact ⟨(hstep.dest_of_ne hne).trans hdest, Set.mem_insert_of_mem _ hqP, hy⟩

/-- One item more is settled, and the others stand as before. -/
theorem Settling.settle {v : Verdict} (h : Settling g user workload mode items bad w P (st, tr))
    (hnodup : (items.map SourceFile.sourceId).Nodup)
    (hself : ¬ f.HasParent f.sourceId) (hf : f ∈ items) (hopen : f.sourceId ∉ P)
    (hstep : FileStep g user workload mode st f defer v st')
    (hone : OwnOutcome g user workload mode items bad P st st' f v)
    (taken : Worklist.Taken FilesLoop SourceFile)
    (htaken : failedId g user workload mode taken = if v = .failed then some f.sourceId else none) :
    Settling g user workload mode items bad w (insert f.sourceId P) (st', taken :: tr) := by
  have hkeep : ∀ x : SourceFile, x.sourceId ≠ f.sourceId →
      Untouched (fileKey user workload x.sourceId) st.world st'.world := by
    intro x hne
    exact hstep.onlyTouches.untouched (fileKey_inj.not.mpr hne)
  have hasks : AsksParent user workload mode st.world.db f ↔
      AsksParent user workload mode w.db f := asksParent_congr (h.untouched f hf hopen).row
  have hnotFailed : f.sourceId ∉ st.failed := fun hmem => hopen (h.failed_known _ hmem).2.1
  -- a settled item that asked for its parent does not gain a failed one
  have hparent : ∀ x ∈ items, x.sourceId ∈ P → AsksParent user workload mode w.db x →
      (ParentFailed st'.failed x ↔ ParentFailed st.failed x) := fun x hx hP hx' =>
    hone.parentFailed_iff (fun hr hchild => hopen (h.asks x hx hP hx' f ⟨hf, hx, hchild⟩ hr.1))
  have hparentOwn : ParentFailed st'.failed f ↔ ParentFailed st.failed f :=
    hone.parentFailed_iff (fun _ => hself)
  have hcounted := countedFailed_cons g user workload mode tr taken
  rw [htaken] at hcounted
  refine ⟨fun x hx hP => ?_, fun x hx hP hfolder => ?_,
    fun q hq => h.failed_after hf hopen hstep hone hq, fun x hx hP hx' => ?_,
    fun x hx hP => ?_, fun x hx hP hx' hsinks => ?_, fun hcalm x hx hmem => ?_⟩
  · rw [Set.mem_insert_iff, not_or] at hP
    exact (h.untouched x hx hP.2).trans (hkeep x hP.1)
  · rw [Set.mem_insert_iff, not_or] at hP
    exact (hstep.dest_of_ne hP.1).trans (h.unmade x hx hP.2 hfolder)
  · intro p hchild hfolder
    apply Set.mem_insert_of_mem
    rcases settled_cases hnodup hf hx hP with rfl | ⟨hP, -⟩
    · exact hone.asks (hasks.mpr hx') p hchild hfolder
    · exact h.asks x hx hP hx' p hchild hfolder
  · rcases settled_cases hnodup hf hx hP with rfl | ⟨hP, hne⟩
    · rw [hparentOwn]
      exact hone.mem_failed_iff hnotFailed
    · rw [hone.mem_failed_of_ne hne, h.failed_iff x hx hP]
      constructor
      · rintro ⟨hr, hno⟩
        exact ⟨hr, fun hp => hno ((hparent x hx hP (Or.inl hr.1)).mp hp)⟩
      · rintro ⟨hr, hno⟩
        exact ⟨hr, fun hp => hno ((hparent x hx hP (Or.inl hr.1)).mpr hp)⟩
  · rcases settled_cases hnodup hf hx hP with rfl | ⟨hP, hne⟩
    · rw [hparentOwn] at hsinks
      obtain ⟨hcont, hv⟩ := hone.contained (hasks.mpr hx') hsinks
      refine hcont.before (h.untouched x hx hopen) ?_
      rw [hcounted, if_pos hv]
      simp
    · rw [hparent x hx hP hx'] at hsinks
      have hcont := h.contained x hx hP hx' hsinks
      refine hcont.after (hkeep x hne) ?_
      rw [hcounted]
      exact List.mem_append_right _ hcont.counted
  · rw [hcounted] at hmem
    rcases List.mem_append.mp hmem with hmem | hmem
    · by_cases hv : v = .failed
      · rw [if_pos hv] at hmem
        have heq : x.sourceId = f.sourceId := by simpa using hmem
        obtain rfl := List.inj_on_of_nodup_map hnodup hx hf heq
        obtain ⟨hx', hsinks⟩ := hone.counted hcalm hv
        rw [hparentOwn]
        exact ⟨Set.mem_insert _ _, hasks.mp hx', hsinks⟩
      · rw [if_neg hv] at hmem
        exact absurd hmem (by simp)
    · obtain ⟨hP, hx', hsinks⟩ := h.counted hcalm x hx hmem
      rw [hparent x hx hP hx']
      exact ⟨Set.mem_insert_of_mem _ hP, hx', hsinks⟩

/-- The set of the folders of the batch whose `ensure_folder` raises, wherever and whenever
it is called. -/
def FoldersFail (g : Graph) (user : UserMapping) (workload : String) (items : List SourceFile)
    (bad : Set String) : Prop :=
  ∀ f ∈ items, f.isFolder = true → ∀ log parent, (∃ e, g.answer log
    (.ensureFolder (fileKey user workload f.sourceId) parent f.name) = .error e) ↔
      f.sourceId ∈ bad

variable (defer) in
theorem Settling.step (h : Settling g user workload mode items bad w P (st, tr))
    (hnodup : (items.map SourceFile.sourceId).Nodup)
    (hacyclic : Worklist.Acyclic SourceFile.sourceId SourceFile.parentId items)
    (hbad : FoldersFail g user workload items bad) (hf : f ∈ items) (hopen : f.sourceId ∉ P)
    (hforced : defer = false → ∀ p, ChildOf items p f → p.sourceId ∈ P) :
    Settling g user workload mode items bad w
      (if (Worklist.traced (fileStep g user workload mode) defer (st, tr) f).1 then P
        else insert f.sourceId P)
      (Worklist.traced (fileStep g user workload mode) defer (st, tr) f).2 := by
  have hstep := processFile_step g user workload mode st f defer
  simp only [Worklist.traced, fileStep_eq]
  by_cases hv : (processFile g user workload mode st f defer).1 = .deferred
  · rw [hv, decide_eq_true (rfl : Verdict.deferred = Verdict.deferred), if_pos rfl]
    rw [hv] at hstep
    have hkept := h.put_off hstep.put_off.1
    -- the step is noted, but no failure is counted
    have hcounted : countedFailed g user workload mode ((defer, st, f) :: tr) =
        countedFailed g user workload mode tr := by
      rw [countedFailed_cons, failedId, hv]
      rfl
    refine ⟨hkept.untouched, hkept.unmade, hkept.failed_known, hkept.asks, hkept.failed_iff, ?_, ?_⟩
    · rw [hcounted]
      exact hkept.contained
    · rw [hcounted]
      exact hkept.counted
  · rw [decide_eq_false hv, if_neg Bool.false_ne_true]
    have hself : ¬ f.HasParent f.sourceId := fun hp =>
      hacyclic f (.single ⟨hf, hf, hp.1⟩)
    have hone := hstep.ownOutcome items bad P hv (hbad f hf)
      (fun q hq => ⟨(h.failed_known q hq).1, (h.failed_known q hq).2.1⟩) h.unmade hforced
    have hsettled := h.settle hnodup hself hf hopen hstep hone (defer, st, f) rfl
    exact ⟨hsettled.untouched, hsettled.unmade, hsettled.failed_known, hsettled.asks,
      hsettled.failed_iff, hsettled.contained, hsettled.counted⟩

/-- At the end of `_migrate` every item is settled. -/
theorem migrate_settling (g : Graph) (user : UserMapping) (workload : String) (mode : Mode)
    (items : List SourceFile) (bad : Set String) (w : World)
    (hnodup : (items.map SourceFile.sourceId).Nodup)
    (hacyclic : Worklist.Acyclic SourceFile.sourceId SourceFile.parentId items)
    (hbad : FoldersFail g user workload items bad)
    (hfresh : ∀ f ∈ items, f.isFolder = true →
      w.db.getFolderDest (fileKey user workload f.sourceId) = none) :
    ∃ P, (∀ x ∈ items, x.sourceId ∈ P) ∧ Settling g user workload mode items bad w P
      (Worklist.process (Worklist.traced (fileStep g user workload mode)) SourceFile.sourceId
        SourceFile.parentId ({ world := w }, []) items) := by
  refine Worklist.process_induction
    (J := fun P t => Settling g user workload mode items bad w P t)
    (.of_acyclic hacyclic (fun t f => fileStep_forced t.1 f) ?_) hnodup _ ?_
  · rintro d P ⟨st, tr⟩ f hf hJ hopen hparent
    refine Settling.step d hJ hnodup hacyclic hbad hf hopen (fun hd p hchild => ?_)
    exact hparent hd p.sourceId hchild.2.2.1 p hchild.1 rfl
  · refine ⟨fun _ _ _ => ⟨rfl, rfl, rfl⟩, fun x hx _ hfolder => ?_, fun q hq => ?_,
      fun _ _ hP => absurd hP (Set.notMem_empty _), fun _ _ hP => absurd hP (Set.notMem_empty _),
      fun _ _ hP => absurd hP (Set.notMem_empty _), fun _ x _ hmem => ?_⟩
    · simp [FilesLoop.dest, hfresh x hx hfolder]
    · exact absurd hq (Finset.notMem_empty q)
    · exact absurd hmem List.not_mem_nil

/-- The count that `_migrate` returns is the number of the failed steps. -/
theorem migrateFiles_failures (feed : Enumeration SourceFile) (w : World) :
    (migrateFiles g user workload mode feed w).failures =
      (countedFailed g user workload mode
        (migrateVisited g user workload mode feed w)).length := by
  let I : FilesLoop × List (Worklist.Taken FilesLoop SourceFile) → Prop := fun t =>
    t.1.failures = (countedFailed g user workload mode t.2).length
  have hstep : ∀ d t, ∀ f ∈ feed.items, I t →
      I (Worklist.traced (fileStep g user workload mode) d t f).2 := by
    intro d t f _ ht
    obtain ⟨row, made, write, fails, hchange, -⟩ :=
      (processFile_step g user workload mode t.1 f d).anyChange
    simp only [Worklist.traced, fileStep_eq]
    have hcount : t.1.failures = (countedFailed g user workload mode t.2).length := ht
    simp only [I]
    rw [countedFailed_cons, List.length_append, hchange.failures, hcount, failedId]
    by_cases hv : (processFile g user workload mode t.1 f d).1 = .failed
    · simp only [hv, if_true, Option.toList_some, List.length_singleton]
      omega
    · simp only [hv, if_false, Option.toList_none, List.length_nil]
      omega
  unfold migrateFiles migrateVisited
  -- a feed that raised is processed as one deferring batch, without the later rounds
  by_cases hraised : feed.raised.isSome = true
  · rw [if_pos hraised, if_pos hraised, Worklist.batchVisited,
      ← (Worklist.runBatch_traced (fileStep g user workload mode) true { world := w } []
        feed.items).1]
    exact Worklist.runBatch_invariant _ (I := I) hstep true _ (fun _ hf => hf) _ rfl
  · rw [if_neg hraised, if_neg hraised, Worklist.visited, ← Worklist.process_traced]
    exact Worklist.process_invariant _ _ _ (I := I) hstep _ rfl

/-- At the end the items below a failing folder join the failed folders level by level in
turns, as long as those at even levels raise too. -/
theorem Sunk.ends (hall : ∀ x ∈ items, x.sourceId ∈ P)
    (h : Settling g user workload mode items bad w P (st, tr))
    (hrefuses : ∀ x, Sunk items bad true x → ¬ ParentFailed st.failed x → Refuses bad x)
    {even : Bool} {x : SourceFile} (hsunk : Sunk items bad even x) :
    (even = true → x.sourceId ∈ st.failed ∧ Refuses bad x) ∧
      (even = false → x.sourceId ∉ st.failed ∧ ParentFailed st.failed x) := by
  induction hsunk with
  | top a mem refuses first =>
    refine ⟨fun _ => ⟨(h.failed_iff a mem (hall a mem)).mpr ⟨refuses, ?_⟩, refuses⟩, by simp⟩
    -- a failed parent would be a failing folder above `a`
    rintro ⟨q, hq, hmem⟩
    obtain ⟨-, -, y, hy, rfl⟩ := h.failed_known q hmem
    have hyr := ((h.failed_iff y hy (hall y hy)).mp hmem).1
    exact first ⟨y, hyr, .single ⟨hy, mem, hq⟩⟩
  | under even p x parent child ih =>
    have hx := child.2.1
    cases even with
    | true =>
      have hp := (ih.1 rfl).1
      have hparent : ParentFailed st.failed x := ⟨p.sourceId, child.2.2, hp⟩
      refine ⟨by simp, fun _ => ⟨fun hmem => ?_, hparent⟩⟩
      exact ((h.failed_iff x hx (hall x hx)).mp hmem).2 hparent
    | false =>
      have hp := (ih.2 rfl).1
      have hno : ¬ ParentFailed st.failed x := by
        rintro ⟨q, hq, hmem⟩
        exact hp (hq.unique child.2.2 ▸ hmem)
      have hr := hrefuses x (.under false p x parent child) hno
      exact ⟨fun _ => ⟨(h.failed_iff x hx (hall x hx)).mpr ⟨hr, hno⟩, hr⟩, by simp⟩

end

/-- Below a folder that raises, the folders at every second level raise too and nothing else
is there, and the files in between are all to be uploaded. -/
structure Catches (user : UserMapping) (workload : String) (mode : Mode)
    (items : List SourceFile) (bad : Set String) (db : Db) : Prop where
  even : ∀ x, Sunk items bad true x → Refuses bad x
  odd : ∀ x, Sunk items bad false x → AsksParent user workload mode db x

/-- Everything below a folder that raises is contained, in a run of `_migrate`. -/
def AllContained (g : Graph) (user : UserMapping) (workload : String) (mode : Mode)
    (feed : Enumeration SourceFile) (w : World) (bad : Set String) : Prop :=
  ∀ x ∈ feed.items, BelowFailed feed.items bad x →
    Contained user workload w (migrateFiles g user workload mode feed w).world
      (countedFailed g user workload mode (migrateVisited g user workload mode feed w)) x

/-- The descendants of failing folders are contained if the failing folders catch them, and
only then if no other call fails. -/
theorem failed_folders_contain (g : Graph) (user : UserMapping) (workload : String) (mode : Mode)
    (feed : Enumeration SourceFile) (w : World) (bad : Set String) (hraised : feed.raised = none)
    (hnodup : (feed.items.map SourceFile.sourceId).Nodup)
    (hacyclic : Worklist.Acyclic SourceFile.sourceId SourceFile.parentId feed.items)
    (hfresh : ∀ f ∈ feed.items, f.isFolder = true →
      w.db.getFolderDest (fileKey user workload f.sourceId) = none)
    (hbad : FoldersFail g user workload feed.items bad) :
    (Catches user workload mode feed.items bad w.db →
      AllContained g user workload mode feed w bad) ∧
    (¬ CallFailed g → AllContained g user workload mode feed w bad →
      Catches user workload mode feed.items bad w.db) ∧
    (migrateFiles g user workload mode feed w).failures =
      (countedFailed g user workload mode
        (migrateVisited g user workload mode feed w)).length := by
  obtain ⟨P, hall, hsettled⟩ := migrate_settling g user workload mode feed.items bad w hnodup
    hacyclic hbad hfresh
  -- the run and its trace as one run of the traced step
  have hend : Settling g user workload mode feed.items bad w P
      (migrateFiles g user workload mode feed w, migrateVisited g user workload mode feed w) := by
    rw [migrateFiles_whole g user workload mode hraised,
      migrateVisited_whole g user workload mode hraised, Worklist.visited,
      ← Worklist.process_traced]
    exact hsettled
  refine ⟨fun hcatch x hx hbelow => ?_, fun hcalm hcont => ?_, migrateFiles_failures feed w⟩
  · obtain ⟨even, hsunk⟩ := hbelow.sunk hacyclic hx
    obtain ⟨heven, hodd⟩ := hsunk.ends hall hend (fun y hy _ => hcatch.even y hy)
    cases even with
    | true =>
      obtain ⟨-, hr⟩ := heven rfl
      exact hend.contained x hx (hall x hx) (Or.inl hr.1) (Or.inr hr)
    | false =>
      exact hend.contained x hx (hall x hx) (hcatch.odd x hsunk) (Or.inl (hodd rfl).2)
  · -- what is counted asked for its parent, and failed with it or by itself
    have hcounted : ∀ p x, ∀ even, Sunk feed.items bad even p → ChildOf feed.items p x →
        AsksParent user workload mode w.db x ∧
          (ParentFailed (migrateFiles g user workload mode feed w).failed x ∨ Refuses bad x) := by
      intro p x even hp hchild
      have hbelow := BelowFailed.child hp.refuses_or_below hchild
      exact (hend.counted hcalm x hchild.2.1 (hcont x hchild.2.1 hbelow).counted).2
    have hrefuses : ∀ x, Sunk feed.items bad true x →
        ¬ ParentFailed (migrateFiles g user workload mode feed w).failed x → Refuses bad x := by
      intro x hx hno
      generalize heven : true = even at hx
      cases hx with
      | top a mem refuses first => exact refuses
      | under even p x parent child =>
        exact (hcounted p x even parent child).2.resolve_left hno
    refine ⟨fun x hx => ((hx.ends hall hend hrefuses).1 rfl).2, fun x hx => ?_⟩
    generalize heven : false = even at hx
    cases hx with
    | top => exact absurd heven (by simp)
    | under even p x parent child => exact (hcounted p x even parent child).1

/-- The folder `a` cannot be made. -/
def refusingGraph : Graph := scriptedGraph (fun _ c => match c with
  | .ensureFolder src .. => if src.sourceId = "a" then some (.http 500 "no") else none
  | _ => none)

theorem refusingGraph_foldersFail (user : UserMapping) (workload : String)
    (items : List SourceFile) : FoldersFail refusingGraph user workload items {"a"} := by
  intro f _ _ log parent
  simp only [refusingGraph, scriptedGraph, fileKey, Set.mem_singleton_iff]
  by_cases ha : f.sourceId = "a"
  · simp [ha]
  · simp [ha]

def folderA : SourceFile := { sourceId := "a", name := "a", isFolder := true }

def folderB : SourceFile := { sourceId := "b", name := "b", isFolder := true, parentId := some "a" }

def fileC : SourceFile := { sourceId := "c", name := "c.txt", parentId := some "b" }

/-- A file two levels below the folder that raises is uploaded to the root. -/
theorem grandchild_uploaded :
    ¬ ∀ (g : Graph) (user : UserMapping) (workload : String) (mode : Mode)
      (feed : Enumeration SourceFile) (w : World) (bad : Set String), feed.raised = none →
      (feed.items.map SourceFile.sourceId).Nodup →
      Worklist.Acyclic SourceFile.sourceId SourceFile.parentId feed.items →
      (∀ f ∈ feed.items, f.isFolder = true →
        w.db.getFolderDest (fileKey user workload f.sourceId) = none) →
      FoldersFail g user workload feed.items bad →
      AllContained g user workload mode feed w bad ∧
      (migrateFiles g user workload mode feed w).failures =
        (countedFailed g user workload mode
          (migrateVisited g user workload mode feed w)).length := by
  intro h
  let user : UserMapping := ⟨"a@source", "a@dest"⟩
  let feed : Enumeration SourceFile := { items := [folderA, folderB, fileC] }
  have hacyclic : Worklist.Acyclic SourceFile.sourceId SourceFile.parentId feed.items := by
    apply Worklist.acyclic_of_rank
      (fun f => if f.sourceId = "a" then 0 else if f.sourceId = "b" then 1 else 2)
    rintro p x ⟨hp, hx, hpx⟩
    simp only [feed, List.mem_cons, List.not_mem_nil, or_false] at hp hx
    rcases hp with rfl | rfl | rfl <;> rcases hx with rfl | rfl | rfl <;>
      revert hpx <;> decide
  have hall := (h refusingGraph user "files" .full feed {} {"a"} rfl (by decide) hacyclic
    (fun _ _ _ => rfl) (refusingGraph_foldersFail _ _ _)).1
  have hbelow : BelowFailed feed.items {"a"} fileC :=
    ⟨folderA, ⟨rfl, rfl⟩, .tail
      (.single (b := folderB) ⟨by simp [feed], by simp [feed], rfl, by decide⟩)
      ⟨by simp [feed], by simp [feed], rfl, by decide⟩⟩
  -- the file below the folder below the refused one is uploaded all the same
  have hwrites := (hall fileC (by simp [feed]) hbelow).writes
  revert hwrites
  decide

/-- The children of the folder fail with it, though they are listed first. -/
theorem failed_folders_contain_child :
    let user : UserMapping := ⟨"a@source", "a@dest"⟩
    Contained user "files" {}
      (migrateFiles refusingGraph user "files" .full { items := [folderB, folderA] } {}).world
      (countedFailed refusingGraph user "files" .full
        (migrateVisited refusingGraph user "files" .full { items := [folderB, folderA] } {}))
      folderB := by
  intro user
  have hmem : ∀ x ∈ [folderB, folderA], x = folderB ∨ x = folderA := by simp
  have hacyclic : Worklist.Acyclic SourceFile.sourceId SourceFile.parentId [folderB, folderA] := by
    apply Worklist.acyclic_of_rank (fun f => if f.sourceId = "a" then 0 else 1)
    rintro p x ⟨hp, hx, hpx⟩
    rcases hmem p hp with rfl | rfl <;> rcases hmem x hx with rfl | rfl <;> revert hpx <;> decide
  obtain ⟨hcontain, -, -⟩ := failed_folders_contain refusingGraph user "files" .full
    { items := [folderB, folderA] } {} {"a"} rfl (by decide) hacyclic (fun _ _ _ => rfl)
    (refusingGraph_foldersFail _ _ _)
  -- `folderA` is the only item at an even level, `folderB` the only one at an odd level
  have hlevels : ∀ even x, Sunk [folderB, folderA] {"a"} even x →
      x = if even then folderA else folderB := by
    intro even x hx
    induction hx with
    | top a mem refuses first =>
      rcases hmem a mem with rfl | rfl
      · exact absurd refuses.2 (by decide)
      · rfl
    | under even p x parent child ih =>
      obtain ⟨-, hx, hp⟩ := child
      cases even with
      | true =>
        obtain rfl : p = folderA := ih
        rcases hmem x hx with rfl | rfl
        · rfl
        · exact absurd hp.1 (by decide)
      | false =>
        obtain rfl : p = folderB := ih
        rcases hmem x hx with rfl | rfl <;> exact absurd hp.1 (by decide)
  have hcatch : Catches user "files" .full [folderB, folderA] {"a"} ({} : World).db := by
    refine ⟨fun x hx => ?_, fun x hx => ?_⟩
    · obtain rfl : x = folderA := hlevels true x hx
      exact ⟨rfl, rfl⟩
    · obtain rfl : x = folderB := hlevels false x hx
      exact Or.inl rfl
  exact hcontain hcatch folderB (by simp)
    ⟨folderA, ⟨rfl, rfl⟩, .single ⟨by simp, by simp, rfl, by decide⟩⟩

end GwsMigrator
