import Mathlib.Data.List.Chain
import GwsMigrator.FilePlan

/-! Where the records of a batch lead its folders, and when a plan puts a new file there in
whatever order the batch is listed. A folder of an earlier pass has a destination before its record
comes up, so what is placed by then depends on whether the record leads to the same one. -/
namespace GwsMigrator
open Worklist

section
variable (tree : FolderTree) (old : String → Option Token) (items : List SourceFile)

/-- `q` is the record of the folder that `f` is in. -/
def RecordOf (q f : SourceFile) : Prop :=
  q ∈ items ∧ q.isFolder = true ∧ f.HasParent q.sourceId

/-- The item waits for a folder that neither a record of the batch nor an earlier pass makes. Its
record comes up after those of all the others. -/
inductive Late : SourceFile → Prop
  | orphan (f : SourceFile) (p : String) (hp : f.HasParent p) (unknown : old p = none)
      (h : ∀ q, ¬ RecordOf items q f) : Late f
  | under (f q : SourceFile) (hq : RecordOf items q f) (unknown : old q.sourceId = none)
      (h : Late q) : Late f

/-- The folder that an item belongs under once the records above it have come up. The record of a
known folder comes up too late to count if it waits itself. -/
inductive Target : SourceFile → Option Token → Prop
  | top (f : SourceFile) (h : ∀ p, ¬ f.HasParent p) : Target f none
  | outside (f : SourceFile) (p : String) (hp : f.HasParent p) (h : ∀ q, ¬ RecordOf items q f) :
      Target f (old p)
  | ahead (f q : SourceFile) (d : Token) (hq : RecordOf items q f) (late : Late old items q)
      (known : old q.sourceId = some d) : Target f (some d)
  | inside (f q : SourceFile) (parent : Option Token) (hq : RecordOf items q f)
      (early : Late old items q → old q.sourceId = none) (above : Target q parent) :
      Target f (some (tree.child parent q.name))

/-- The record of the folder leads to the destination folder `d`. -/
def LeadsTo (q : SourceFile) (d : Token) : Prop :=
  ∃ parent, Target tree old items q parent ∧ tree.child parent q.name = d

/-- The records that the place of `f` depends on: the one of its folder, and those further up. -/
inductive Above (f : SourceFile) : SourceFile → Prop
  | parent (q : SourceFile) (hq : RecordOf items q f) : Above f q
  | up (q q' : SourceFile) (h : Above f q) (hq : RecordOf items q' q)
      (early : Late old items q' → old q'.sourceId = none) : Above f q'

/-- The records of known folders above these items that may come up after them lead where the
folders are. -/
def Sound (R : SourceFile → Prop) : Prop :=
  ∀ f, R f → ∀ q, RecordOf items q f →
    (∀ d, old q.sourceId = some d → Late old items q ∨ LeadsTo tree old items q d) ∧
      ((Late old items q → old q.sourceId = none) → R q)

/-- What a plan has done with the items `P`, as far as the items of `R` are concerned. -/
structure Steered (R : SourceFile → Prop) (P : Set String) (pl : FilePlan) : Prop where
  kept : ∀ p, (∀ q ∈ items, q.isFolder = true → q.sourceId = p → p ∉ P) → pl.folders p = old p
  known : ∀ q ∈ items, q.isFolder = true → q.sourceId ∈ P → pl.folders q.sourceId ≠ none
  late : (∀ q ∈ items, q.isFolder = true → Late old items q → q.sourceId ∉ P) ∨
    ∀ f ∈ items, ∀ p, f.HasParent p → old p ≠ none → f.sourceId ∈ P
  folders : ∀ q ∈ items, q.isFolder = true → q.sourceId ∈ P → R q →
    ∃ d, pl.folders q.sourceId = some d ∧ LeadsTo tree old items q d
  placed : ∀ x ∈ pl.placed, R x.1 →
    ∃ parent, Target tree old items x.1 parent ∧ x.2 = parent.getD tree.root

variable {tree old items} {isNew : SourceFile → Bool} {R : SourceFile → Prop} {P : Set String}
  {pl : FilePlan} {f q q' : SourceFile}

theorem RecordOf.unique (hnodup : (items.map SourceFile.sourceId).Nodup)
    (h : RecordOf items q f) (h' : RecordOf items q' f) : q = q' :=
  List.inj_on_of_nodup_map hnodup h.1 h'.1 (h.2.2.unique h'.2.2)

/-- What is above a late item is late itself. -/
theorem Late.record (hnodup : (items.map SourceFile.sourceId).Nodup) (h : Late old items f)
    (hq : RecordOf items q f) : Late old items q ∧ old q.sourceId = none := by
  cases h with
  | orphan _ p hp unknown hnone => exact absurd hq (hnone q)
  | under _ q' hq' unknown hlate =>
    obtain rfl := hq.unique hnodup hq'
    exact ⟨hlate, unknown⟩

/-- An item has one place. -/
theorem Target.unique (hnodup : (items.map SourceFile.sourceId).Nodup) {parent : Option Token}
    (h : Target tree old items f parent) :
    ∀ parent', Target tree old items f parent' → parent = parent' := by
  induction h with
  | top f hnone =>
    intro parent' h'
    cases h' with
    | top => rfl
    | outside _ p hp => exact absurd hp (hnone p)
    | ahead _ q d hq => exact absurd hq.2.2 (hnone _)
    | inside _ q _ hq => exact absurd hq.2.2 (hnone _)
  | outside f p hp hno =>
    intro parent' h'
    cases h' with
    | top _ hnone => exact absurd hp (hnone p)
    | outside _ p' hp' => rw [hp.unique hp']
    | ahead _ q d hq => exact absurd hq (hno q)
    | inside _ q _ hq => exact absurd hq (hno q)
  | ahead f q d hq late known =>
    intro parent' h'
    cases h' with
    | top _ hnone => exact absurd hq.2.2 (hnone _)
    | outside _ p' hp' hno => exact absurd hq (hno q)
    | ahead _ q' d' hq' late' known' =>
      obtain rfl := hq.unique hnodup hq'
      exact known.symm.trans known'
    | inside _ q' _ hq' early =>
      obtain rfl := hq.unique hnodup hq'
      exact absurd (known.symm.trans (early late)) (by simp)
  | inside f q parent hq early above ih =>
    intro parent' h'
    cases h' with
    | top _ hnone => exact absurd hq.2.2 (hnone _)
    | outside _ p' hp' hno => exact absurd hq (hno q)
    | ahead _ q' d' hq' late known =>
      obtain rfl := hq.unique hnodup hq'
      exact absurd (known.symm.trans (early late)) (by simp)
    | inside _ q' parent'' hq' early' above' =>
      obtain rfl := hq.unique hnodup hq'
      rw [ih parent'' above']

theorem LeadsTo.unique (hnodup : (items.map SourceFile.sourceId).Nodup) {d d' : Token}
    (h : LeadsTo tree old items q d) (h' : LeadsTo tree old items q d') : d = d' := by
  obtain ⟨parent, htarget, rfl⟩ := h
  obtain ⟨parent', htarget', rfl⟩ := h'
  rw [htarget.unique hnodup parent' htarget']

/-- What is above an item that the condition is about is sound. -/
theorem sound_above {C : SourceFile → Prop}
    (h : ∀ c, C c → ∀ q, Above old items c q → ∀ d, old q.sourceId = some d →
      LeadsTo tree old items q d) :
    Sound tree old items (fun f => C f ∨ ∃ c, C c ∧ Above old items c f) := by
  rintro f (hf | ⟨c, hc, habove⟩) q hq
  · have hqf : Above old items f q := .parent q hq
    exact ⟨fun d hd => Or.inr (h f hf q hqf d hd), fun _ => Or.inr ⟨f, hf, hqf⟩⟩
  · constructor
    · intro d hd
      by_cases hlate : Late old items q
      · exact Or.inl hlate
      · exact Or.inr (h c hc q (habove.up f q hq (fun hq => absurd hq hlate)) d hd)
    · exact fun early => Or.inr ⟨c, hc, habove.up f q hq early⟩

/-- So is what has nothing but late records above it. -/
theorem sound_late (hnodup : (items.map SourceFile.sourceId).Nodup) :
    Sound tree old items (fun f => ∀ q, RecordOf items q f → Late old items q) := by
  intro f hf q hq
  exact ⟨fun _ _ => Or.inl (hf q hq), fun _ q' hq' => ((hf q hq).record hnodup hq').1⟩

section steps

variable (h : Steered tree old items R P pl)
include h

/-- A folder is known before its record comes up, if it was known at the start, and after. -/
theorem Steered.parent_known {p : String} (hp : old p ≠ none) : pl.folders p ≠ none := by
  by_cases hrecord : ∃ q ∈ items, q.isFolder = true ∧ q.sourceId = p ∧ p ∈ P
  · obtain ⟨q, hq, folder, rfl, hP⟩ := hrecord
    exact h.known q hq folder hP
  · rw [h.kept p (fun q hq folder hid hP => hrecord ⟨q, hq, folder, hid, hP⟩)]
    exact hp

/-- A late item is put off as long as no late folder is settled. -/
theorem Steered.late_unknown
    (hopen : ∀ q ∈ items, q.isFolder = true → Late old items q → q.sourceId ∉ P)
    (hlate : Late old items f) : pl.parentOf f = none := by
  cases hlate with
  | orphan _ p hp unknown hno =>
    rw [FilePlan.parentOf_eq p hp, h.kept p, unknown]
    · rfl
    · rintro q hq folder rfl
      exact absurd ⟨hq, folder, hp⟩ (hno q)
  | under _ q hq unknown hlate =>
    rw [FilePlan.parentOf_eq q.sourceId hq.2.2, h.kept q.sourceId, unknown]
    · rfl
    · exact fun _ _ _ _ => hopen q hq.1 hq.2.1 hlate

/-- An item goes where it belongs. -/
theorem Steered.target (hsound : Sound tree old items R) (hf : f ∈ items)
    (hopen : f.sourceId ∉ P) (hR : R f) :
    (∀ parent, pl.parentOf f = some parent → Target tree old items f parent) ∧
      ((∀ p, f.HasParent p → ∀ q ∈ items, q.sourceId = p → p ∈ P) → pl.parentOf f = none →
        Target tree old items f none) := by
  by_cases hparent : ∃ p, f.HasParent p
  swap
  · have hnone : ∀ p, ¬ f.HasParent p := fun p hp => hparent ⟨p, hp⟩
    rw [FilePlan.parentOf_eq_root hnone]
    refine ⟨fun parent heq => ?_, fun _ heq => absurd heq (by simp)⟩
    obtain rfl := Option.some.inj heq
    exact .top f hnone
  obtain ⟨p, hp⟩ := hparent
  rw [FilePlan.parentOf_eq p hp]
  by_cases hrecord : ∃ q, RecordOf items q f
  swap
  · -- the folder has no record, so it is what it was
    have hno : ∀ q, ¬ RecordOf items q f := fun q hq => hrecord ⟨q, hq⟩
    have hkept : pl.folders p = old p := by
      apply h.kept
      rintro q hq folder rfl
      exact absurd ⟨hq, folder, hp⟩ (hno q)
    have houtside : Target tree old items f (old p) := .outside f p hp hno
    rw [hkept]
    cases hold : old p with
    | none =>
      refine ⟨fun parent heq => absurd heq (by simp), fun _ _ => ?_⟩
      rw [hold] at houtside
      exact houtside
    | some d =>
      refine ⟨fun parent heq => ?_, fun _ heq => absurd heq (by simp)⟩
      obtain rfl := Option.some.inj heq
      rw [hold] at houtside
      exact houtside
  obtain ⟨q, hq⟩ := hrecord
  obtain rfl := hp.unique hq.2.2
  obtain ⟨hold, habove⟩ := hsound f hR q hq
  constructor
  · intro parent heq
    obtain ⟨d, hd, rfl⟩ := Option.map_eq_some_iff.mp heq
    by_cases hP : q.sourceId ∈ P
    · -- the record has come up
      have hearly : Late old items q → old q.sourceId = none := by
        intro hlate
        by_contra hknown
        rcases h.late with hnone | hall
        · exact hnone q hq.1 hq.2.1 hlate hP
        · exact hopen (hall f hf q.sourceId hp hknown)
      obtain ⟨d', hd', parent, htarget, rfl⟩ := h.folders q hq.1 hq.2.1 hP (habove hearly)
      obtain rfl := Option.some.inj (hd'.symm.trans hd)
      exact .inside f q parent hq hearly htarget
    · -- the folder is still the one of the earlier pass
      rw [h.kept q.sourceId (fun _ _ _ _ => hP)] at hd
      by_cases hlate : Late old items q
      · exact .ahead f q d hq hlate hd
      · obtain ⟨parent, htarget, rfl⟩ := (hold d hd).resolve_left hlate
        exact .inside f q parent hq (fun hq => absurd hq hlate) htarget
  · intro horphan heq
    have hknown := h.known q hq.1 hq.2.1 (horphan _ hp q hq.1 rfl)
    exact absurd (Option.map_eq_none_iff.mp heq) hknown

/-- A file that is not new is settled without a place. -/
theorem Steered.settle_left (hnodup : (items.map SourceFile.sourceId).Nodup) (hf : f ∈ items)
    (file : f.isFolder = false) :
    Steered tree old items R (insert f.sourceId P) pl := by
  have hne : ∀ q ∈ items, q.isFolder = true → q.sourceId ∈ insert f.sourceId P → q.sourceId ∈ P := by
    intro q hq folder hP
    rcases settled_cases hnodup hf hq hP with rfl | ⟨hP, -⟩
    · exact SourceFile.not_both file folder
    · exact hP
  refine ⟨fun p hp => ?_, fun q hq folder hP => h.known q hq folder (hne q hq folder hP), ?_,
    fun q hq folder hP => h.folders q hq folder (hne q hq folder hP), h.placed⟩
  · exact h.kept p (fun q hq folder hid hP => hp q hq folder hid (Set.mem_insert_of_mem _ hP))
  · refine h.late.imp (fun hnone q hq folder hlate hP => ?_) (fun hall x hx p hp hknown => ?_)
    · exact hnone q hq folder hlate (hne q hq folder hP)
    · exact Set.mem_insert_of_mem _ (hall x hx p hp hknown)

/-- A new file is settled where it belongs. -/
theorem Steered.settle_file (hnodup : (items.map SourceFile.sourceId).Nodup) (hf : f ∈ items)
    (file : f.isFolder = false) {parent : Option Token}
    (htarget : R f → Target tree old items f parent) :
    Steered tree old items R (insert f.sourceId P) (pl.put tree f parent) := by
  have hput : pl.put tree f parent =
      { pl with placed := (f, parent.getD tree.root) :: pl.placed } := by
    simp [FilePlan.put, file]
  obtain ⟨hkept, hknown, hlate, hfolders, hplaced⟩ := h.settle_left hnodup hf file
  rw [hput]
  refine ⟨hkept, hknown, hlate, hfolders, fun x hx hR => ?_⟩
  rcases List.mem_cons.mp hx with rfl | hx
  · exact ⟨parent, htarget hR, rfl⟩
  · exact hplaced x hx hR

/-- A folder is settled where its record leads. -/
theorem Steered.settle_folder (hnodup : (items.map SourceFile.sourceId).Nodup) (hf : f ∈ items)
    (folder : f.isFolder = true) {parent : Option Token}
    (htarget : R f → Target tree old items f parent)
    (hlate : Late old items f →
      ∀ f ∈ items, ∀ p, f.HasParent p → old p ≠ none → f.sourceId ∈ P) :
    Steered tree old items R (insert f.sourceId P) (pl.put tree f parent) := by
  have hput : pl.put tree f parent = { pl with
      folders := Function.update pl.folders f.sourceId (some (tree.child parent f.name)) } := by
    simp [FilePlan.put, folder]
  rw [hput]
  refine ⟨fun p hp => ?_, fun q hq hfolder hP => ?_, ?_, fun q hq hfolder hP hR => ?_, h.placed⟩
  · have hne : p ≠ f.sourceId := fun heq => hp f hf folder heq.symm (heq ▸ Set.mem_insert _ _)
    simp only [Function.update_of_ne hne]
    exact h.kept p (fun q hq hfolder hid hP => hp q hq hfolder hid (Set.mem_insert_of_mem _ hP))
  · rcases settled_cases hnodup hf hq hP with rfl | ⟨hP, hne⟩
    · simp
    · simp only [Function.update_of_ne hne]
      exact h.known q hq hfolder hP
  · by_cases hfl : Late old items f
    · exact Or.inr (fun x hx p hp hknown => Set.mem_insert_of_mem _ (hlate hfl x hx p hp hknown))
    · refine h.late.imp (fun hnone q hq hfolder hql hP => ?_) (fun hall x hx p hp hknown => ?_)
      · rcases settled_cases hnodup hf hq hP with rfl | ⟨hP, -⟩
        · exact hfl hql
        · exact hnone q hq hfolder hql hP
      · exact Set.mem_insert_of_mem _ (hall x hx p hp hknown)
  · rcases settled_cases hnodup hf hq hP with rfl | ⟨hP, hne⟩
    · exact ⟨_, by simp, parent, htarget hR, rfl⟩
    · simp only [Function.update_of_ne hne]
      exact h.folders q hq hfolder hP hR

/-- A step of the plan, on an item that is not settled yet. An item is forced only when all that
have a known parent are settled. -/
theorem Steered.step (hnodup : (items.map SourceFile.sourceId).Nodup)
    (hsound : Sound tree old items R) (hf : f ∈ items) (hopen : f.sourceId ∉ P) (d : Bool)
    (horphan : d = false → ∀ p, f.HasParent p → ∀ q ∈ items, q.sourceId = p → p ∈ P)
    (hforced : d = false → ∀ f ∈ items, ∀ p, f.HasParent p → old p ≠ none → f.sourceId ∈ P) :
    let r := FilePlan.step tree isNew d pl f
    Steered tree old items R (if r.1 then P else insert f.sourceId P) r.2 := by
  intro r
  -- the item settles under `parent`
  have hsettle : ∀ parent, (R f → Target tree old items f parent) →
      (Late old items f → ∀ f ∈ items, ∀ p, f.HasParent p → old p ≠ none → f.sourceId ∈ P) →
      Steered tree old items R (insert f.sourceId P) (pl.put tree f parent) := by
    intro parent htarget hlate
    cases hfolder : f.isFolder with
    | true => exact h.settle_folder hnodup hf hfolder htarget hlate
    | false => exact h.settle_file hnodup hf hfolder htarget
  by_cases hitem : f.isFolder = true ∨ isNew f = true
  swap
  · -- a file that is not new
    obtain ⟨hfile, hold⟩ := not_or.mp hitem
    simp only [r, FilePlan.step_left (by simpa using hfile) (by simpa using hold)]
    exact h.settle_left hnodup hf (by simpa using hfile)
  cases hparent : pl.parentOf f with
  | some parent =>
    simp only [r, FilePlan.step_known hitem hparent]
    refine hsettle parent (fun hR => (h.target hsound hf hopen hR).1 parent hparent) ?_
    intro hlate
    -- a late item with a known parent: another late one has been forced before it
    rcases h.late with hnone | hall
    · rw [h.late_unknown hnone hlate] at hparent
      cases hparent
    · exact hall
  | none =>
    simp only [r, FilePlan.step_unknown hitem hparent]
    cases d with
    | true => exact h
    | false =>
      exact hsettle none (fun hR => (h.target hsound hf hopen hR).2 (horphan rfl) hparent)
        (fun _ => hforced rfl)

end steps

variable (tree old isNew) in
/-- At the end of a plan the items stand where the records lead, for every listing order. -/
theorem make_steered (hnodup : (items.map SourceFile.sourceId).Nodup)
    (hacyclic : Acyclic SourceFile.sourceId SourceFile.parentId items)
    (hsound : Sound tree old items R) {order : List SourceFile} (hperm : order.Perm items) :
    ∃ P, (∀ f ∈ items, f.sourceId ∈ P) ∧
      Steered tree old items R P (FilePlan.make tree isNew old order) := by
  have hrule : StepRule (fun P pl => Steered tree old items R P pl) order
      (FilePlan.step tree isNew) SourceFile.sourceId SourceFile.parentId := by
    refine ⟨fun pl f => FilePlan.step_forced, fun P pl f hf hJ hopen => ?_,
      fun P pl rest f hf hrest horphan hwait hoff hJ hopen => ?_⟩
    · exact hJ.step hnodup hsound (hperm.mem_iff.mp hf) hopen true (fun h => by cases h)
        (fun h => by cases h)
    · have hparent : ∀ p, f.HasParent p → ∀ q ∈ items, q.sourceId = p → p ∈ P := by
        intro p hp q hq hid
        exact parent_settled (acyclic_of_perm hperm hacyclic) hrest horphan hwait hp.1 q
          (hperm.mem_iff.mpr hq) hid
      -- an item with a known parent is never put off
      have hforced : ∀ x ∈ items, ∀ p, x.HasParent p → old p ≠ none → x.sourceId ∈ P := by
        intro x hx p hp hknown
        by_contra hxP
        obtain ⟨P', pl', hJ', -, hput⟩ := hoff x (hwait x (hperm.mem_iff.mpr hx) hxP)
        have hparent' := hJ'.parent_known hknown
        obtain ⟨d, hd⟩ := Option.ne_none_iff_exists'.mp hparent'
        rw [FilePlan.step] at hput
        split at hput
        · rw [FilePlan.parentOf_eq p hp, hd] at hput
          cases hput
        · cases hput
      exact insert_of_never (fun pl f => FilePlan.step_forced) (hJ.step hnodup hsound
        (hperm.mem_iff.mp hf) hopen false (fun _ => hparent) (fun _ => hforced))
  have hnodup' : (order.map SourceFile.sourceId).Nodup :=
    (hperm.map SourceFile.sourceId).nodup_iff.mpr hnodup
  obtain ⟨P, hall, hsteered⟩ := process_induction hrule hnodup' { folders := old }
    ⟨fun _ _ => rfl, fun _ _ _ hP => absurd hP (Set.notMem_empty _),
      Or.inl (fun _ _ _ _ => Set.notMem_empty _), fun _ _ _ hP => absurd hP (Set.notMem_empty _),
      fun x hx => absurd hx List.not_mem_nil⟩
  exact ⟨P, fun f hf => hall f (hperm.mem_iff.mpr hf), hsteered⟩

section ways

/-- The folder at the end of a way down through the records. -/
def route (tree : FolderTree) (parent : Option Token) (way : List SourceFile) : Option Token :=
  way.foldl (fun parent q => some (tree.child parent q.name)) parent

theorem route_append (parent : Option Token) (way : List SourceFile) (q : SourceFile) :
    route tree parent (way ++ [q]) = some (tree.child (route tree parent way) q.name) := by
  simp [route]

variable (tree) in
theorem route_some (d : Token) (way : List SourceFile) :
    ∃ e, route tree (some d) way = some e := by
  induction way generalizing d with
  | nil => exact ⟨d, rfl⟩
  | cons q way ih => exact ih (tree.child (some d) q.name)

/-- The same way down leads from different folders to different folders. -/
theorem route_inj {d d' : Token} {way : List SourceFile}
    (h : route tree (some d) way = route tree (some d') way) : d = d' := by
  induction way generalizing d d' with
  | nil => exact Option.some.inj h
  | cons q way ih => exact tree.child_inj d d' q.name q.name (ih h)

variable (tree) in
/-- A batch that begins with the records of a way down and the new file at its end puts the file
there. -/
theorem runBatch_way {c : SourceFile} (hnew : isNew c = true) (hfile : c.isFolder = false)
    (way : List SourceFile) (parent : Option Token) (pl : FilePlan)
    (hchain : (way ++ [c]).IsChain (RecordOf items))
    (hstart : ∀ x, (way ++ [c]).head? = some x → pl.parentOf x = some parent) :
    ∃ pl', runBatch (FilePlan.step tree isNew) true pl (way ++ [c]) = (pl', []) ∧
      (c, (route tree parent way).getD tree.root) ∈ pl'.placed := by
  induction way generalizing parent pl with
  | nil =>
    have hstep : FilePlan.step tree isNew true pl c = (false, pl.put tree c parent) :=
      FilePlan.step_known (Or.inr hnew) (hstart c rfl) true
    refine ⟨pl.put tree c parent, ?_, ?_⟩
    · simp [runBatch, hstep]
    · simp [FilePlan.put, hfile, route]
  | cons q way ih =>
    obtain ⟨y, rest, hrest⟩ : ∃ y rest, way ++ [c] = y :: rest := by
      cases way with
      | nil => exact ⟨c, [], rfl⟩
      | cons y way => exact ⟨y, way ++ [c], rfl⟩
    rw [List.cons_append, hrest, List.isChain_cons_cons] at hchain
    obtain ⟨hq, hchain⟩ := hchain
    have hstep : FilePlan.step tree isNew true pl q = (false, pl.put tree q parent) :=
      FilePlan.step_known (Or.inl hq.2.1) (hstart q rfl) true
    -- the next item is in the folder that the record makes
    have hnext : ∀ x, (way ++ [c]).head? = some x → (pl.put tree q parent).parentOf x =
        some (some (tree.child parent q.name)) := by
      intro x hx
      rw [hrest] at hx
      obtain rfl := Option.some.inj hx
      rw [FilePlan.parentOf_eq q.sourceId hq.2.2]
      simp [FilePlan.put, hq.2.1]
    obtain ⟨pl', hrun, hmem⟩ := ih (some (tree.child parent q.name)) (pl.put tree q parent)
      (hrest ▸ hchain) hnext
    refine ⟨pl', ?_, hmem⟩
    simp [runBatch, hstep, hrun]

/-- What is placed stays placed. -/
theorem FilePlan.step_placed_mono (d : Bool) {x : SourceFile × Token} (hx : x ∈ pl.placed) :
    x ∈ (FilePlan.step tree isNew d pl f).2.placed := by
  have hput : ∀ parent, x ∈ (pl.put tree f parent).placed := by
    intro parent
    unfold FilePlan.put
    split
    · exact hx
    · exact List.mem_cons_of_mem _ hx
  unfold FilePlan.step
  split
  · split
    · exact hput _
    · split
      · exact hx
      · exact hput none
  · exact hx

variable (tree old) in
theorem make_way {c : SourceFile} (hnew : isNew c = true) (hfile : c.isFolder = false)
    (way rest : List SourceFile) (parent : Option Token)
    (hchain : (way ++ [c]).IsChain (RecordOf items))
    (hstart : ∀ x, (way ++ [c]).head? = some x →
      ({ folders := old } : FilePlan).parentOf x = some parent) :
    (c, (route tree parent way).getD tree.root) ∈
      (FilePlan.make tree isNew old (way ++ [c] ++ rest)).placed := by
  obtain ⟨pl', hrun, hmem⟩ := runBatch_way tree hnew hfile way parent _ hchain hstart
  rw [FilePlan.make, process_append SourceFile.parentId _ (by rw [hrun]), hrun]
  exact process_invariant _ _ _
    (I := fun pl : FilePlan => (c, (route tree parent way).getD tree.root) ∈ pl.placed)
    (fun d pl f _ h => FilePlan.step_placed_mono d h) pl' hmem

variable (tree) in
/-- An item that is not late is at the end of a way down from something known. -/
theorem exists_way (hacyclic : Acyclic SourceFile.sourceId SourceFile.parentId items) :
    ∀ q ∈ items, ¬ Late old items q → ∃ way parent,
      Target tree old items q (route tree parent way) ∧
      (way ++ [q]).IsChain (RecordOf items) ∧ ∀ x, (way ++ [q]).head? = some x →
        ({ folders := old } : FilePlan).parentOf x = some parent := by
  refine hacyclic.induction (fun q hq ih hlate => ?_)
  have hsingle : ([] ++ [q]).IsChain (RecordOf items) := List.isChain_singleton q
  by_cases hparent : ∃ p, q.HasParent p
  swap
  · have hnone : ∀ p, ¬ q.HasParent p := fun p hp => hparent ⟨p, hp⟩
    refine ⟨[], none, .top q hnone, hsingle, fun x hx => ?_⟩
    obtain rfl := Option.some.inj hx
    exact FilePlan.parentOf_eq_root hnone
  obtain ⟨p, hp⟩ := hparent
  have hstart : ∀ d, old p = some d → ∀ x, ([] ++ [q]).head? = some x →
      ({ folders := old } : FilePlan).parentOf x = some (some d) := by
    intro d hd x hx
    obtain rfl := Option.some.inj hx
    rw [FilePlan.parentOf_eq p hp]
    exact congrArg (Option.map some) hd
  by_cases hrecord : ∃ r, RecordOf items r q
  swap
  · have hno : ∀ r, ¬ RecordOf items r q := fun r hr => hrecord ⟨r, hr⟩
    cases hold : old p with
    | none => exact absurd (.orphan q p hp hold hno) hlate
    | some d =>
      have houtside : Target tree old items q (old p) := .outside q p hp hno
      exact ⟨[], some d, hold ▸ houtside, hsingle, hstart d hold⟩
  obtain ⟨r, hr⟩ := hrecord
  obtain rfl := hp.unique hr.2.2
  by_cases hrlate : Late old items r
  · cases hold : old r.sourceId with
    | none => exact absurd (.under q r hr hold hrlate) hlate
    | some d => exact ⟨[], some d, .ahead q r d hr hrlate hold, hsingle, hstart d hold⟩
  · obtain ⟨way, parent, htarget, hchain, hhead⟩ := ih r ⟨hr.1, hq, hr.2.2.1⟩ hrlate
    refine ⟨way ++ [r], parent, ?_, ?_, fun x hx => hhead x ?_⟩
    · rw [route_append]
      exact .inside q r _ hr (fun h => absurd h hrlate) htarget
    · rw [List.append_assoc, List.singleton_append, List.isChain_split, List.isChain_pair]
      exact ⟨hchain, hr⟩
    · cases way <;> exact hx

/-- What is above an item is on a way down to it. -/
theorem Above.way {c : SourceFile} (h : Above old items c q) :
    ∃ way, (q :: (way ++ [c])).IsChain (RecordOf items) := by
  induction h with
  | parent q hq => exact ⟨[], List.isChain_pair.mpr hq⟩
  | up q q' h hq early ih =>
    obtain ⟨way, hway⟩ := ih
    exact ⟨q :: way, List.isChain_cons_cons.mpr ⟨hq, hway⟩⟩

theorem mem_of_way {c : SourceFile} (hc : c ∈ items) (way : List SourceFile)
    (hchain : (way ++ [c]).IsChain (RecordOf items)) : ∀ x ∈ way ++ [c], x ∈ items := by
  induction way with
  | nil =>
    intro x hx
    obtain rfl := List.mem_singleton.mp hx
    exact hc
  | cons q way ih =>
    have hrest := ih hchain.tail
    intro x hx
    rcases List.mem_cons.mp hx with rfl | hx
    · -- it is the record of the next item
      cases way with
      | nil => exact (List.isChain_pair.mp hchain).1
      | cons y way => exact (List.isChain_cons_cons.mp hchain).1.1
    · exact hrest x hx

/-- The batch can be listed with a way down at its head. -/
theorem exists_order (hacyclic : Acyclic SourceFile.sourceId SourceFile.parentId items)
    {l : List SourceFile} (hchain : l.IsChain (RecordOf items)) (hl : ∀ x ∈ l, x ∈ items) :
    ∃ rest, (l ++ rest).Perm items := by
  -- the links are acyclic, so no item stands in the chain twice
  have hlinks : l.IsChain
      (Relation.TransGen (IsParent SourceFile.sourceId SourceFile.parentId items)) := by
    refine hchain.imp_of_mem_imp (fun q f _ hf hq => ?_)
    exact Relation.TransGen.single ⟨hq.1, hl f hf, hq.2.2.1⟩
  have hnodup : l.Nodup := by
    refine hlinks.pairwise.imp ?_
    rintro x y hxy rfl
    exact hacyclic x hxy
  obtain ⟨l', hperm, hsub⟩ := List.subperm_of_subset hnodup hl
  obtain ⟨rest, hrest⟩ := hsub.exists_perm_append
  exact ⟨rest, ((hperm.symm.append_right rest).trans hrest.symm)⟩

variable (isNew) in
/-- Above a new file that every listing order puts into one folder, the record of a known folder
leads where that folder is, if it does not wait. -/
theorem leadsTo_of_agree (hacyclic : Acyclic SourceFile.sourceId SourceFile.parentId items)
    {c : SourceFile} (hc : c ∈ items) (hnew : isNew c = true) (hfile : c.isFolder = false)
    (hagree : ∀ order order' : List SourceFile, order.Perm items → order'.Perm items → ∀ d d',
      (c, d) ∈ (FilePlan.make tree isNew old order).placed →
      (c, d') ∈ (FilePlan.make tree isNew old order').placed → d = d')
    (habove : Above old items c q) (hlate : ¬ Late old items q) {d : Token}
    (hd : old q.sourceId = some d) : LeadsTo tree old items q d := by
  obtain ⟨down, hdown⟩ := habove.way
  have hq : q ∈ items := by
    cases habove with
    | parent _ hq => exact hq.1
    | up _ _ _ hq => exact hq.1
  obtain ⟨up, parent, htarget, hup, hstart⟩ := exists_way tree hacyclic q hq hlate
  -- in one order all records from the top down come first
  have hwhole : ((up ++ q :: down) ++ [c]).IsChain (RecordOf items) := by
    rw [List.append_assoc, List.cons_append, List.isChain_split]
    exact ⟨hup, hdown⟩
  obtain ⟨rest, hrest⟩ := exists_order hacyclic hwhole (mem_of_way hc _ hwhole)
  have hfirst := make_way tree old hnew hfile (up ++ q :: down) rest parent hwhole (by
      intro x hx
      apply hstart
      cases up <;> exact hx)
  -- in the other one the record of the known folder comes after the file
  have hbelow : (down ++ [c]).IsChain (RecordOf items) := hdown.tail
  obtain ⟨rest', hrest'⟩ := exists_order hacyclic hbelow (mem_of_way hc _ hbelow)
  have hsecond := make_way tree old hnew hfile down rest' (some d) hbelow (by
      intro x hx
      have hx' : RecordOf items q x := by
        cases down with
        | nil =>
          obtain rfl := Option.some.inj hx
          exact List.isChain_pair.mp hdown
        | cons y down =>
          obtain rfl := Option.some.inj hx
          exact (List.isChain_cons_cons.mp hdown).1
      rw [FilePlan.parentOf_eq q.sourceId hx'.2.2]
      exact congrArg (Option.map some) hd)
  have hsame := hagree _ _ hrest hrest' _ _ hfirst hsecond
  -- from the known folder on the two ways are the same
  have hroute : route tree parent (up ++ q :: down) =
      route tree (some (tree.child (route tree parent up) q.name)) down := by
    simp [route]
  rw [hroute] at hsame
  obtain ⟨e, he⟩ := route_some tree (tree.child (route tree parent up) q.name) down
  obtain ⟨e', he'⟩ := route_some tree d down
  rw [he, he', Option.getD_some, Option.getD_some] at hsame
  exact ⟨_, htarget, route_inj (he.trans ((congrArg some hsame).trans he'.symm))⟩

end ways

end

end GwsMigrator
